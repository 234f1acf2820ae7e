import ManagedHeap.ObjectModel
import ManagedHeap.Proofs.Bitmaps
import ManagedHeap.Proofs.Spaces

/-!
What holds of the arenas at all times. Their regions lie apart, and every live object is the start of
a chunk of the arena whose bitmap has it. All of it depends on where the arenas are and on their
bitmaps and chunks, and not on the figures that steer their growth.
-/

namespace ManagedHeap

/-- The bitmap covers the arena and has starts of chunks only. -/
structure Arena.Fits (a : Arena) (map : Bitmap) : Prop where
  laid : a.space.Laid
  base : map.base = a.space.base
  limit : map.limit = a.space.region.limit
  chunk : ∀ x, map.test x = true → x - a.space.base ∈ a.space.chunks

namespace Source

/-- The bitmap and the region of each arena. -/
def sites (s : Source) : List (Nat × Region) := s.arenas.map fun a => (a.live, a.space.region)

/-- The absolute maximum in whole pages, and at least one page. -/
def ceiling (s : Source) : Nat :=
  (max s.absoluteMax Size.page + (Size.page - 1)) / Size.page * Size.page

structure Sound (s : Source) : Prop where
  bitmaps : ∀ map ∈ s.bitmaps, map.Sound
  numbered : ∀ site ∈ s.sites, site.1 < s.bitmaps.length
  fits : ∀ a ∈ s.arenas, a.Fits (s.bitmap a.live)
  apart : s.sites.Pairwise fun young old => old.2.limit ≤ young.2.base
  below : ∀ site ∈ s.sites, site.2.limit ≤ Region.arenaBase s.sites.length
  small : ∀ site ∈ s.sites, site.2.size < Size.unreservable
  published : s.published = s.sites.map Prod.fst
  budget : s.frozenFootprint + s.active.space.capacity ≤ s.ceiling
  idle : s.absoluteMax = 0 → ∀ x, s.isPublished x = false

variable {s s' : Source} {a b : Arena} {x y i j : Nat}

theorem mem_sites (member : a ∈ s.arenas) : (a.live, a.space.region) ∈ s.sites :=
  List.mem_map_of_mem member

theorem length_sites (s : Source) : s.sites.length = s.arenas.length := List.length_map _

theorem mem_arenas_of_getElem (found : s.arenas[i]? = some a) : a ∈ s.arenas :=
  List.mem_of_getElem? found

theorem getD_arenas (found : s.arenas[i]? = some a) : s.arenas.getD i s.active = a := by
  rw [List.getD_eq_getElem?_getD, found, Option.getD_some]

theorem active_mem (s : Source) : s.active ∈ s.arenas := List.mem_cons_self

theorem bitmap_eq_getElem {number : Nat} (known : number < s.bitmaps.length) :
    s.bitmap number = s.bitmaps[number] := by
  rw [bitmap, List.getD_eq_getElem?_getD, List.getElem?_eq_getElem known, Option.getD_some]

/-- A number that stands for no bitmap would stand for one over no addresses. -/
theorem lt_of_base_pos {number : Nat} (positive : 0 < (s.bitmap number).base) :
    number < s.bitmaps.length := by
  by_contra unknown
  rw [bitmap, List.getD_eq_getElem?_getD, List.getElem?_eq_none (Nat.le_of_not_lt unknown),
    Option.getD_none] at positive
  exact Nat.lt_irrefl 0 positive

theorem Sound.bitmap_sound (sound : s.Sound) (member : a ∈ s.arenas) :
    (s.bitmap a.live).Sound := by
  have known := sound.numbered _ (mem_sites member)
  rw [bitmap_eq_getElem known]
  exact sound.bitmaps _ (List.getElem_mem known)

theorem region_contains {r : Region} : r.contains x = true ↔ r.base ≤ x ∧ x < r.limit := by
  simp [Region.contains]

theorem Sound.mayContain_iff (sound : s.Sound) (member : a ∈ s.arenas) :
    (s.bitmap a.live).mayContain x = true
      ↔ a.space.region.contains x = true ∧ x % Size.granule = 0 := by
  have fits := sound.fits a member
  rw [Bitmap.mayContain_iff, fits.base, fits.limit, region_contains, and_assoc]
  rfl

/-- The regions of two arenas lie apart. -/
theorem Sound.regions_apart (sound : s.Sound) (ha : s.arenas[i]? = some a)
    (hb : s.arenas[j]? = some b) (other : i ≠ j) :
    a.space.region.limit ≤ b.space.region.base ∨ b.space.region.limit ≤ a.space.region.base := by
  have site : ∀ {k : Nat} {c : Arena}, s.arenas[k]? = some c →
      s.sites[k]? = some (c.live, c.space.region) := by
    intro k c found
    rw [sites, List.getElem?_map, found, Option.map_some]
  have order := List.pairwise_iff_getElem.1 sound.apart
  obtain ⟨hi, ai⟩ := List.getElem?_eq_some_iff.1 (site ha)
  obtain ⟨hj, bj⟩ := List.getElem?_eq_some_iff.1 (site hb)
  rcases Nat.lt_or_gt_of_ne other with before | after
  · have gap := order i j hi hj before
    rw [ai, bj] at gap
    exact .inr gap
  · have gap := order j i hj hi after
    rw [ai, bj] at gap
    exact .inl gap

/-- No address lies in two arenas. -/
theorem Sound.index_unique (sound : s.Sound) (ha : s.arenas[i]? = some a)
    (hb : s.arenas[j]? = some b) (inside : a.space.region.contains x = true)
    (inside' : b.space.region.contains x = true) : i = j := by
  rw [region_contains] at inside inside'
  by_contra other
  have apart := sound.regions_apart ha hb other
  omega

theorem isPublished_iff : s.isPublished x = true
    ↔ ∃ number ∈ s.published, (s.bitmap number).test x = true := by
  simp only [isPublished, Bool.and_eq_true, beq_iff_eq, List.any_eq_true]
  constructor
  · exact And.right
  · rintro ⟨number, member, bit⟩
    exact ⟨(Bitmap.mayContain_iff.1 (Bitmap.mayContain_of_test bit)).2.2, number, member, bit⟩

theorem Sound.mem_published (sound : s.Sound) {number : Nat} :
    number ∈ s.published ↔ ∃ a ∈ s.arenas, a.live = number := by
  rw [sound.published, sites, List.map_map]
  exact List.mem_map

/-- The object lives in the arena that has its address. -/
theorem Sound.published_iff (sound : s.Sound) : s.isPublished x = true
    ↔ ∃ a ∈ s.arenas, (s.bitmap a.live).test x = true := by
  rw [isPublished_iff]
  constructor
  · rintro ⟨number, member, bit⟩
    obtain ⟨a, here, rfl⟩ := sound.mem_published.1 member
    exact ⟨a, here, bit⟩
  · rintro ⟨a, here, bit⟩
    exact ⟨a.live, sound.mem_published.2 ⟨a, here, rfl⟩, bit⟩

/-- No address is covered by the bitmaps of two arenas. -/
theorem Sound.live_unique (sound : s.Sound) (ha : a ∈ s.arenas) (hb : b ∈ s.arenas)
    (covered : (s.bitmap a.live).mayContain x = true)
    (covered' : (s.bitmap b.live).mayContain x = true) : a = b := by
  obtain ⟨i, found⟩ := List.getElem?_of_mem ha
  obtain ⟨j, found'⟩ := List.getElem?_of_mem hb
  have inside := ((sound.mayContain_iff ha).1 covered).1
  have inside' := ((sound.mayContain_iff hb).1 covered').1
  cases sound.index_unique found found' inside inside'
  exact Option.some.inj (found.symm.trans found')

theorem Sound.arenaOf_eq (sound : s.Sound) (member : a ∈ s.arenas)
    (covered : (s.bitmap a.live).mayContain x = true) : s.arenaOf? x = some a := by
  cases found : s.arenaOf? x with
  | none => exact absurd covered (List.find?_eq_none.1 found a member)
  | some b =>
    have covered' : (s.bitmap b.live).mayContain x = true :=
      List.find?_some (p := fun a : Arena => (s.bitmap a.live).mayContain x) found
    exact congrArg some (sound.live_unique (List.mem_of_find?_eq_some found) member covered' covered)

/-- Whether a covered address lives is told by the bitmap that covers it. -/
theorem Sound.test_eq_isPublished (sound : s.Sound) {number : Nat}
    (member : number ∈ s.published) (covered : (s.bitmap number).mayContain x = true) :
    (s.bitmap number).test x = s.isPublished x := by
  obtain ⟨a, here, rfl⟩ := sound.mem_published.1 member
  rw [Bool.eq_iff_iff, sound.published_iff]
  constructor
  · intro bit
    exact ⟨a, here, bit⟩
  · rintro ⟨b, there, bit⟩
    cases sound.live_unique here there covered (Bitmap.mayContain_of_test bit)
    exact bit

/-- What the bitmap of an arena covers does not change as long as the arena stays where it is. -/
theorem Sound.mayContain_congr (sound : s.Sound) (sound' : s'.Sound) (sites : s'.sites = s.sites)
    {number : Nat} (member : number ∈ s.published) :
    (s'.bitmap number).mayContain x = (s.bitmap number).mayContain x := by
  obtain ⟨a, here, rfl⟩ := sound.mem_published.1 member
  have site := mem_sites here
  rw [← sites] at site
  obtain ⟨b, there, same⟩ := List.mem_map.1 site
  obtain ⟨live, region⟩ := Prod.mk.inj same
  rw [Bool.eq_iff_iff, sound.mayContain_iff here, ← live, sound'.mayContain_iff there, region]

theorem findIdx_eq_some_of_unique {α : Type} {l : List α} {test : α → Bool} {item : α}
    (here : l[i]? = some item) (hit : test item = true)
    (unique : ∀ j other, l[j]? = some other → test other = true → j = i) :
    l.findIdx? test = some i := by
  obtain ⟨bound, value⟩ := List.getElem?_eq_some_iff.1 here
  rw [List.findIdx?_eq_some_iff_getElem]
  refine ⟨bound, value ▸ hit, fun j before => ?_⟩
  intro early
  have same := unique j _ (List.getElem?_eq_getElem (Nat.lt_trans before bound)) early
  exact absurd same (Nat.ne_of_lt before)

theorem Sound.arenaIndex_eq (sound : s.Sound) (here : s.arenas[i]? = some a)
    (covered : (s.bitmap a.live).mayContain x = true) : s.arenaIndex? x = some i := by
  refine findIdx_eq_some_of_unique here covered fun j b found other => ?_
  have inside := ((sound.mayContain_iff (mem_arenas_of_getElem here)).1 covered).1
  have inside' := ((sound.mayContain_iff (mem_arenas_of_getElem found)).1 other).1
  exact sound.index_unique found here inside' inside

theorem arenaIndex_spec (found : s.arenaIndex? x = some i) :
    ∃ a, s.arenas[i]? = some a ∧ (s.bitmap a.live).mayContain x = true := by
  obtain ⟨bound, hit, -⟩ := List.findIdx?_eq_some_iff_getElem.1 found
  exact ⟨s.arenas[i], List.getElem?_eq_getElem bound, hit⟩

/-! ### Steps that leave the arenas in place -/

/-- Arenas that stay where they are stay sound when their bitmaps and chunks still fit. -/
theorem Sound.of_regions (sound : s.Sound)
    (regions : s'.sites.map Prod.snd = s.sites.map Prod.snd)
    (bitmaps : ∀ map ∈ s'.bitmaps, map.Sound)
    (numbered : ∀ site ∈ s'.sites, site.1 < s'.bitmaps.length)
    (fits : ∀ a ∈ s'.arenas, a.Fits (s'.bitmap a.live))
    (published : s'.published = s'.sites.map Prod.fst)
    (maximum : s'.absoluteMax = s.absoluteMax) (frozen : s'.frozenFootprint ≤ s.frozenFootprint)
    (idle : s'.absoluteMax = 0 → ∀ x, s'.isPublished x = false) : s'.Sound where
  bitmaps := bitmaps
  numbered := numbered
  fits := fits
  apart := by
    have old : (s.sites.map Prod.snd).Pairwise fun young old => old.limit ≤ young.base :=
      List.pairwise_map.2 sound.apart
    rw [← regions] at old
    exact List.pairwise_map.1 old
  below := by
    intro site member
    have length : s'.sites.length = s.sites.length := by
      simpa using congrArg List.length regions
    have region := List.mem_map_of_mem (f := Prod.snd) member
    rw [regions] at region
    obtain ⟨old, known, same⟩ := List.mem_map.1 region
    rw [length, ← same]
    exact sound.below old known
  small := by
    intro site member
    have region := List.mem_map_of_mem (f := Prod.snd) member
    rw [regions] at region
    obtain ⟨old, known, same⟩ := List.mem_map.1 region
    rw [← same]
    exact sound.small old known
  published := published
  budget := by
    have region : s'.active.space.region = s.active.space.region :=
      congrArg (fun l => l.headD default) regions
    have capacity : s'.active.space.capacity = s.active.space.capacity :=
      congrArg Region.size region
    have ceiling : s'.ceiling = s.ceiling := by
      rw [Source.ceiling, maximum]
      rfl
    rw [capacity, ceiling]
    exact Nat.le_trans (Nat.add_le_add_right frozen _) sound.budget
  idle := idle

theorem Sound.step (sound : s.Sound) (sites : s'.sites = s.sites)
    (bitmaps : ∀ map ∈ s'.bitmaps, map.Sound) (count : s.bitmaps.length ≤ s'.bitmaps.length)
    (fits : ∀ a ∈ s'.arenas, a.Fits (s'.bitmap a.live)) (published : s'.published = s.published)
    (maximum : s'.absoluteMax = s.absoluteMax) (frozen : s'.frozenFootprint ≤ s.frozenFootprint)
    (idle : s'.absoluteMax = 0 → ∀ x, s'.isPublished x = false) : s'.Sound := by
  refine sound.of_regions (by rw [sites]) bitmaps ?_ fits ?_ maximum frozen idle
  · intro site member
    rw [sites] at member
    exact Nat.lt_of_lt_of_le (sound.numbered site member) count
  · rw [published, sites, sound.published]

/-- The arenas are sound after a step, have the same live objects and may grow as far. -/
structure Steady (s s' : Source) : Prop where
  sound : s'.Sound
  published : ∀ x, s'.isPublished x = s.isPublished x
  maximum : s'.absoluteMax = s.absoluteMax

theorem Sound.steady (sound : s.Sound) : Steady s s := ⟨sound, fun _ => rfl, rfl⟩

theorem Steady.trans {s'' : Source} (first : Steady s s') (second : Steady s' s'') :
    Steady s s'' where
  sound := second.sound
  published x := (second.published x).trans (first.published x)
  maximum := second.maximum.trans first.maximum

/-- Chunks may be added to arenas, and footprints of frozen ones may shrink. -/
theorem Sound.steady_of_arenas (sound : s.Sound) (sites : s'.sites = s.sites)
    (arenas : ∀ a ∈ s'.arenas, a.space.Laid ∧ ∃ b ∈ s.arenas, a.live = b.live
      ∧ a.space.region = b.space.region ∧ ∀ offset ∈ b.space.chunks, offset ∈ a.space.chunks)
    (bitmaps : s'.bitmaps = s.bitmaps) (published : s'.published = s.published)
    (maximum : s'.absoluteMax = s.absoluteMax)
    (frozen : s'.frozenFootprint ≤ s.frozenFootprint) : Steady s s' := by
  have map : ∀ number, s'.bitmap number = s.bitmap number := by
    intro number
    rw [bitmap, bitmap, bitmaps]
  have same : ∀ x, s'.isPublished x = s.isPublished x := by
    intro x
    simp only [isPublished, published, map]
  refine ⟨sound.step sites (bitmaps ▸ sound.bitmaps) (Nat.le_of_eq (by rw [bitmaps])) ?_
    published maximum frozen ?_, same, maximum⟩
  · intro a member
    obtain ⟨laid, b, old, live, region, chunks⟩ := arenas a member
    have fits := sound.fits b old
    have base : a.space.base = b.space.base := congrArg Region.base region
    rw [map, live]
    refine ⟨laid, fits.base.trans base.symm, ?_, fun x bit => ?_⟩
    · rw [region]
      exact fits.limit
    · rw [base]
      exact chunks _ (fits.chunk x bit)
  · intro none x
    rw [same]
    exact sound.idle (maximum ▸ none) x

end Source

end ManagedHeap
