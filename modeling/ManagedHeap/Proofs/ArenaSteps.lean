import ManagedHeap.Proofs.SourceSteps
import ManagedHeap.Proofs.Walks

/-!
What trimming, splitting arenas off and exchanging bitmaps do to what lives in the arenas: nothing.
-/

namespace ManagedHeap

/-- Memory of the arena may have been given back. -/
structure Arena.Trimmed (a a' : Arena) : Prop where
  live : a'.live = a.live
  region : a'.space.region = a.space.region
  laid : a'.space.Laid
  chunks : a'.space.chunks = a.space.chunks
  footprint : a'.footprint ≤ a.footprint

theorem Arena.trimmed_of_trim {a a' : Arena} {released : Nat} (laid : a.space.Laid)
    (small : a.footprint < Word.limit) (run : a.trim = .ok (released, a')) : a.Trimmed a' := by
  obtain ⟨above, space, inside, space', cut, rest, rfl⟩ := Arena.trim_eq run
  obtain ⟨laid', chunks, region, footprint⟩ := laid.trim small cut
  obtain ⟨words, rfl⟩ := Space.releaseFreePages_frame rest
  exact ⟨rfl, region, laid'.congr rfl rfl rfl rfl rfl rfl, chunks, footprint⟩

namespace Source

open Action

variable {s s' : Source} {a : Arena} {x y number : Nat}

theorem exists_left_of_forall₂ {α β : Type} {related : α → β → Prop} {l : List α} {l' : List β}
    (both : List.Forall₂ related l l') {b : β} (member : b ∈ l') : ∃ a ∈ l, related a b := by
  induction both with
  | nil => cases member
  | cons first _ ih =>
    rcases List.mem_cons.1 member with rfl | later
    · exact ⟨_, List.mem_cons_self, first⟩
    · obtain ⟨a, here, rel⟩ := ih later
      exact ⟨a, List.mem_cons_of_mem _ here, rel⟩

theorem map_eq_of_forall₂ {α β γ : Type} {related : α → β → Prop} {l : List α} {l' : List β}
    (view : α → γ) (view' : β → γ) (same : ∀ a b, related a b → view' b = view a)
    (both : List.Forall₂ related l l') : l'.map view' = l.map view := by
  induction both with
  | nil => rfl
  | cons first _ ih => rw [List.map_cons, List.map_cons, same _ _ first, ih]

theorem Sound.footprint_lt (sound : s.Sound) (member : a ∈ s.arenas) :
    a.footprint < Word.limit := by
  have small := sound.small _ (mem_sites member)
  have bound := (sound.fits a member).laid.footprint_le
  simp only [Arena.footprint, Space.capacity, Size.unreservable, Word.limit] at *
  omega

theorem Sound.steady_of_trimmed (sound : s.Sound)
    (trimmed : List.Forall₂ Arena.Trimmed s.arenas s'.arenas) (bitmaps : s'.bitmaps = s.bitmaps)
    (published : s'.published = s.published) (maximum : s'.absoluteMax = s.absoluteMax) :
    Steady s s' := by
  refine sound.steady_of_arenas ?_ ?_ bitmaps published maximum ?_
  · exact map_eq_of_forall₂ _ _ (fun a b cut => by rw [cut.live, cut.region]) trimmed
  · intro a member
    obtain ⟨b, old, cut⟩ := exists_left_of_forall₂ trimmed member
    refine ⟨cut.laid, b, old, cut.live, cut.region, fun offset chunk => ?_⟩
    rwa [cut.chunks]
  · have less : ∀ l l' : List Arena, List.Forall₂ Arena.Trimmed l l' →
        Word.total (l'.map Arena.footprint) ≤ Word.total (l.map Arena.footprint) := by
      intro l l' both
      induction both with
      | nil => exact Nat.le_refl _
      | cons first _ ih =>
        simp only [List.map_cons, Word.total_cons]
        exact Nat.add_le_add first.footprint ih
    cases trimmed with
    | cons _ rest => exact less _ _ rest

theorem trim_spec (sound : s.Sound) :
    trim.Ends s (fun _ s' => Steady s s') fun _ s' => s' = s := by
  refine ends_trim rfl fun cut => sound.steady_of_trimmed (cut.imp ?_) rfl rfl rfl
  rintro a a' ⟨member, released, run⟩
  exact Arena.trimmed_of_trim (sound.fits a member).laid (sound.footprint_lt member) run

theorem shrinkToIdeal_spec (sound : s.Sound) :
    shrinkToIdeal.Ends s (fun _ s' => Steady s s') fun _ s' => Broken s s' := by
  simp only [shrinkToIdeal, ends_bind, ends_get, ends_pure]
  refine (trim_spec sound).imp (fun released s₁ steady => ?_) fun _ s₁ same => ?_
  · exact ((resizes_setIdeal _).spec steady.sound).imp (fun _ _ more => steady.trans more)
      fun _ _ broken => steady.broken.trans broken
  · rw [same]
    exact sound.steady.broken

/-! ### New arenas -/

/-- What holds of an arena that nothing was allocated in. -/
structure Fresh (number live maximum : Nat) (a : Arena) (map : Bitmap) : Prop where
  live : a.live = live
  base : a.space.base = Region.arenaBase number
  capacity : Size.pagesUp (max maximum Size.page) = .ok a.space.capacity
  small : a.space.capacity < Size.unreservable
  fits : a.Fits map
  whole : map.Sound
  empty : ∀ x, map.test x = false
  footprint : a.footprint = 0

/-- A new arena has nothing but a new space, and its bitmap covers that space and marks nothing. -/
theorem freshArena_eq {number start maximum live : Nat} {map : Bitmap}
    (run : freshArena number start maximum live = .ok (.ok (a, map))) : ∃ space,
      Space.create (Arena.nameOf number) (Region.arenaBase number) start maximum = .ok (.ok space)
        ∧ a = { space, live, absoluteMax := maximum }
        ∧ map = Bitmap.blank "objects" space.base space.capacity := by
  simp only [freshArena, bind, Except.bind, pure, Except.pure] at run
  split at run
  · cases run
  case h_2 created create =>
    split at run
    · cases run
    case h_2 space =>
      cases run
      exact ⟨space, create, rfl, rfl⟩

theorem fresh_of_freshArena {number start maximum live : Nat} {map : Bitmap}
    (run : freshArena number start maximum live = .ok (.ok (a, map))) :
    Fresh number live maximum a map := by
  obtain ⟨space, create, rfl, rfl⟩ := freshArena_eq run
  obtain ⟨laid, base, up, small, footprint⟩ := Space.create_eq create
  have empty : ∀ x, (Bitmap.blank "objects" space.base space.capacity).test x = false :=
    fun x => Bitmap.test_blank _ _ _
  have whole : (Bitmap.blank "objects" space.base space.capacity).Sound := by
    apply Bitmap.sound_blank
    · rw [base, Region.arenaBase, Region.stride]
      exact Nat.mul_pos (Nat.succ_pos _) (by decide)
    · rw [base, Region.arenaBase, Nat.mul_mod]
      simp [Region.stride, Size.unreservable, Size.granule]
  refine ⟨rfl, base, up, small, ⟨laid, rfl, rfl, fun x bit => ?_⟩, whole, empty, footprint⟩
  rw [empty] at bit
  cases bit

theorem arenaBase_lt (number : Nat) : Region.arenaBase number + Size.unreservable
    = Region.arenaBase (number + 1) := by
  rw [Region.arenaBase, Region.arenaBase, Region.stride, Nat.succ_mul (number + 1)]

theorem Fresh.region_limit {live maximum : Nat} {map : Bitmap}
    (fresh : Fresh number live maximum a map) :
    a.space.region.limit ≤ Region.arenaBase (number + 1) := by
  have base : a.space.region.base = Region.arenaBase number := fresh.base
  have small : a.space.region.size < Size.unreservable := fresh.small
  have step := arenaBase_lt number
  rw [Region.limit, base]
  omega

/-- One fresh arena is sound, and nothing lives in it. -/
theorem sound_of_fresh {map : Bitmap} (fresh : Fresh 0 0 s.absoluteMax a map)
    (arenas : s.arenas = [a]) (bitmaps : s.bitmaps = [map]) (published : s.published = [0]) :
    s.Sound ∧ ∀ x, s.isPublished x = false := by
  have first : s.bitmap 0 = map := by
    rw [bitmap, bitmaps]
    rfl
  have unpublished : ∀ x, s.isPublished x = false := by
    intro x
    rw [← Bool.not_eq_true, isPublished_iff, published]
    rintro ⟨number, member, bit⟩
    rw [List.mem_singleton.1 member, first, fresh.empty] at bit
    cases bit
  have sites : s.sites = [(0, a.space.region)] := by
    rw [Source.sites, arenas, List.map_singleton, fresh.live]
  have active : s.active = a := congrArg (fun l => l.headD default) arenas
  have frozen : s.frozen = [] := congrArg List.tail arenas
  refine ⟨?_, unpublished⟩
  exact {
    bitmaps := by
      intro m member
      rw [bitmaps] at member
      rw [List.mem_singleton.1 member]
      exact fresh.whole
    numbered := by
      intro site member
      rw [sites] at member
      rw [List.mem_singleton.1 member, bitmaps]
      exact Nat.zero_lt_one
    fits := by
      intro b member
      rw [arenas] at member
      rw [List.mem_singleton.1 member, fresh.live, first]
      exact fresh.fits
    apart := by
      rw [sites]
      exact List.pairwise_singleton _ _
    below := by
      intro site member
      rw [sites] at member ⊢
      rw [List.mem_singleton.1 member]
      exact fresh.region_limit
    small := by
      intro site member
      rw [sites] at member
      rw [List.mem_singleton.1 member]
      exact fresh.small
    published := by
      rw [published, sites]
      rfl
    budget := by
      have capacity := (Size.pagesUp_eq_ok.1 fresh.capacity).2
      rw [frozenFootprint, frozen, active, capacity, List.map_nil, Word.total_nil, Nat.zero_add]
      exact Nat.le_refl _
    idle := fun _ => unpublished }

/-- A heap starts with one fresh arena. -/
theorem startup_eq {start maximum : Nat} {zygote : Bool}
    (run : startup start maximum zygote = .ok (.ok s)) : start ≤ maximum ∧ ∃ active map,
      freshArena 0 start maximum 0 = .ok (.ok (active, map)) ∧ s = publish
        { active, bitmaps := [map], startSize := start, absoluteMax := maximum, ideal := start
          sawZygote := zygote } := by
  simp only [startup, bind, Except.bind, pure, Except.pure] at run
  split at run
  · cases run
  case isFalse order =>
    split at run
    · cases run
    case h_2 made make =>
      split at run
      · cases run
      case h_2 active map =>
        cases run
        exact ⟨Nat.not_lt.1 order, active, map, make, rfl⟩

theorem startup_sound {start maximum : Nat} {zygote : Bool}
    (run : startup start maximum zygote = .ok (.ok s)) :
    s.Sound ∧ s.absoluteMax = maximum ∧ ∀ x, s.isPublished x = false := by
  obtain ⟨-, active, map, make, rfl⟩ := startup_eq run
  have fresh := fresh_of_freshArena make
  let source : Source :=
    { active, bitmaps := [map], startSize := start, absoluteMax := maximum, ideal := start
      sawZygote := zygote }
  have published : source.publish.published = [0] := congrArg (fun n => [n]) fresh.live
  have fresh' : Fresh 0 0 source.publish.absoluteMax active map := fresh
  obtain ⟨sound, unpublished⟩ := sound_of_fresh fresh' rfl rfl published
  exact ⟨sound, rfl, unpublished⟩

theorem Sound.footprint_pages (sound : s.Sound) : s.footprint % Size.page = 0 := by
  have each : ∀ l : List Arena, (∀ a ∈ l, a.footprint % Size.page = 0) →
      Word.total (l.map Arena.footprint) % Size.page = 0 := by
    intro l whole
    induction l with
    | nil => rfl
    | cons first rest ih =>
      have here := whole first List.mem_cons_self
      have there := ih fun a member => whole a (List.mem_cons_of_mem _ member)
      simp only [List.map_cons, Word.total_cons, Size.page] at *
      omega
  exact each s.arenas fun a member => (sound.fits a member).laid.footprint_pages

theorem bitmap_append {map : Bitmap} (bitmaps : s'.bitmaps = s.bitmaps ++ [map])
    (known : number < s.bitmaps.length) : s'.bitmap number = s.bitmap number := by
  rw [bitmap, bitmap, bitmaps, List.getD_eq_getElem?_getD, List.getD_eq_getElem?_getD,
    List.getElem?_append_left known]

/-! ### An arena split off -/

namespace SplitOff

variable {map : Bitmap} {allowed : Nat}

theorem fresh (split : s.SplitOff a map allowed s') :
    Fresh s.arenas.length s.bitmaps.length (s.absoluteMax - s.footprint) a map :=
  fresh_of_freshArena split.made

theorem bitmaps (split : s.SplitOff a map allowed s') : s'.bitmaps = s.bitmaps ++ [map] := by
  rw [split.pushed]
  rfl

theorem sites (split : s.SplitOff a map allowed s') :
    s'.sites = (s.bitmaps.length, a.space.region) :: s.sites := by
  rw [← split.fresh.live, split.pushed]
  rfl

theorem bitmap_known (split : s.SplitOff a map allowed s') (known : number < s.bitmaps.length) :
    s'.bitmap number = s.bitmap number := bitmap_append split.bitmaps known

theorem bitmap_newest (split : s.SplitOff a map allowed s') :
    s'.bitmap s.bitmaps.length = map := by
  rw [bitmap, split.bitmaps, List.getD_eq_getElem?_getD, List.getElem?_concat_length,
    Option.getD_some]

/-- The fresh arena stands in front, and behind it those that there were. Only how far the one that
was active may grow is another. -/
theorem mem_arenas (split : s.SplitOff a map allowed s') {b : Arena} (member : b ∈ s'.arenas) :
    b = a ∨ b = { s.active with space := { s.active.space with allowed } } ∨ b ∈ s.frozen := by
  rw [split.pushed] at member
  exact (List.mem_cons.1 member).imp_right List.mem_cons.1

theorem numbered (split : s.SplitOff a map allowed s')
    (numbered : ∀ site ∈ s.sites, site.1 < s.bitmaps.length) :
    ∀ site ∈ s'.sites, site.1 < s'.bitmaps.length := by
  rw [split.sites, split.bitmaps, List.length_append, List.forall_mem_cons]
  exact ⟨Nat.lt_succ_self _, fun site known => Nat.lt_succ_of_lt (numbered site known)⟩

theorem apart (split : s.SplitOff a map allowed s')
    (apart : s.sites.Pairwise fun young old => old.2.limit ≤ young.2.base)
    (below : ∀ site ∈ s.sites, site.2.limit ≤ Region.arenaBase s.sites.length) :
    s'.sites.Pairwise fun young old => old.2.limit ≤ young.2.base := by
  rw [split.sites, List.pairwise_cons]
  refine ⟨fun site known => ?_, apart⟩
  rw [length_sites, ← split.fresh.base] at below
  exact below site known

theorem below (split : s.SplitOff a map allowed s')
    (below : ∀ site ∈ s.sites, site.2.limit ≤ Region.arenaBase s.sites.length) :
    ∀ site ∈ s'.sites, site.2.limit ≤ Region.arenaBase s'.sites.length := by
  rw [split.sites, List.length_cons, length_sites, List.forall_mem_cons]
  refine ⟨split.fresh.region_limit, fun site known => ?_⟩
  have under := below site known
  have step := arenaBase_lt s.arenas.length
  rw [length_sites] at under
  omega

/-- What lives is what lived: the bitmap of the fresh arena is blank. -/
theorem isPublished (split : s.SplitOff a map allowed s') (sound : s.Sound) (x : Nat) :
    s'.isPublished x = s.isPublished x := by
  have published : s'.published = s'.sites.map Prod.fst := by
    rw [split.pushed, publish, Source.sites, List.map_map]
    rfl
  have old : ∀ number ∈ s.published, s'.bitmap number = s.bitmap number := by
    intro number member
    rw [sound.published] at member
    obtain ⟨site, known, rfl⟩ := List.mem_map.1 member
    exact split.bitmap_known (sound.numbered site known)
  rw [Bool.eq_iff_iff, isPublished_iff, isPublished_iff, published, split.sites, List.map_cons,
    ← sound.published]
  constructor
  · rintro ⟨number, member, bit⟩
    rcases List.mem_cons.1 member with rfl | known
    · rw [split.bitmap_newest, split.fresh.empty] at bit
      cases bit
    · exact ⟨number, known, old number known ▸ bit⟩
  · rintro ⟨number, member, bit⟩
    exact ⟨number, List.mem_cons_of_mem _ member, (old number member).symm ▸ bit⟩

theorem fits (split : s.SplitOff a map allowed s') (sound : s.Sound) {b : Arena}
    (member : b ∈ s'.arenas) : b.Fits (s'.bitmap b.live) := by
  have kept : ∀ c ∈ s.arenas, s'.bitmap c.live = s.bitmap c.live :=
    fun c here => split.bitmap_known (sound.numbered _ (mem_sites here))
  rcases split.mem_arenas member with rfl | rfl | older
  · rw [split.fresh.live, split.bitmap_newest]
    exact split.fresh.fits
  · have fits := sound.fits _ s.active_mem
    rw [kept _ s.active_mem]
    exact ⟨fits.laid.congr rfl rfl rfl rfl rfl rfl, fits.base, fits.limit, fits.chunk⟩
  · have here : b ∈ s.arenas := List.mem_cons_of_mem _ older
    rw [kept _ here]
    exact sound.fits b here

/-- The reservation of the fresh arena is what the footprint of the others leaves. -/
theorem budget (split : s.SplitOff a map allowed s') (sound : s.Sound) :
    s'.frozenFootprint + s'.active.space.capacity ≤ s'.ceiling := by
  have capacity := (Size.pagesUp_eq_ok.1 split.fresh.capacity).2
  have pages := sound.footprint_pages
  have room := split.room
  rw [split.pushed]
  change s.footprint + a.space.capacity ≤ s.ceiling
  rw [capacity, ceiling]
  simp only [Size.page, Size.minFree] at *
  omega

/-- A fresh arena in front changes nothing about what lives. -/
theorem steady (split : s.SplitOff a map allowed s') (sound : s.Sound) : Steady s s' where
  sound := {
    bitmaps := by
      rw [split.bitmaps, List.forall_mem_append, List.forall_mem_singleton]
      exact ⟨sound.bitmaps, split.fresh.whole⟩
    numbered := split.numbered sound.numbered
    fits := fun _ member => split.fits sound member
    apart := split.apart sound.apart sound.below
    below := split.below sound.below
    small := by
      rw [split.sites, List.forall_mem_cons]
      exact ⟨split.fresh.small, sound.small⟩
    published := by
      rw [split.pushed, publish, Source.sites, List.map_map]
      rfl
    budget := split.budget sound
    idle := by
      intro none
      have room := split.room
      rw [split.pushed] at none
      change s.absoluteMax = 0 at none
      omega }
  published := split.isPublished sound
  maximum := by
    rw [split.pushed]
    rfl

end SplitOff

theorem addArena_spec (sound : s.Sound) :
    addArena.Ends s (fun _ s' => Steady s s') fun _ s' => s' = s :=
  ends_addArena sound.steady rfl fun split => split.steady sound

theorem beforeFork_spec (sound : s.Sound) :
    beforeFork.Ends s (fun _ s' => Steady s s') fun _ s' => Broken s s' := by
  have tried : Steady s { s with zygoteSplit := true } :=
    sound.steady_of_resized ⟨⟨_, rfl⟩, rfl, rfl, rfl, rfl⟩
  refine ends_beforeFork sound.steady ((addArena_spec tried.sound).imp ?_ ?_)
  · exact fun _ _ steady => tried.trans steady
  · rintro _ _ rfl
    exact tried.broken

theorem afterZygote_spec (sound : s.Sound) :
    afterZygote.Ends s (fun _ s' => Steady s s') fun _ s' => Broken s s' := by
  refine ends_afterZygote sound.steady ((addArena_spec sound).imp (fun _ _ steady => steady) ?_)
  rintro _ _ rfl
  exact sound.steady.broken

/-! ### Copies of bitmaps -/

theorem Sound.steady_of_append (sound : s.Sound) {extra : List Bitmap}
    (whole : ∀ map ∈ extra, map.Sound) : Steady s { s with bitmaps := s.bitmaps ++ extra } := by
  have old : ∀ number < s.bitmaps.length,
      bitmap { s with bitmaps := s.bitmaps ++ extra } number = s.bitmap number := by
    intro number known
    simp only [bitmap, List.getD_eq_getElem?_getD, List.getElem?_append_left known]
  have known : ∀ number ∈ s.published, number < s.bitmaps.length := by
    intro number member
    rw [sound.published] at member
    obtain ⟨site, here, rfl⟩ := List.mem_map.1 member
    exact sound.numbered site here
  have same : ∀ x, isPublished { s with bitmaps := s.bitmaps ++ extra } x = s.isPublished x := by
    intro x
    rw [Bool.eq_iff_iff, isPublished_iff, isPublished_iff]
    constructor
    · rintro ⟨number, member, bit⟩
      exact ⟨number, member, old number (known number member) ▸ bit⟩
    · rintro ⟨number, member, bit⟩
      exact ⟨number, member, (old number (known number member)).symm ▸ bit⟩
  refine ⟨sound.step rfl ?_ ?_ ?_ rfl rfl (Nat.le_refl _) ?_, same, rfl⟩
  · intro map member
    rcases List.mem_append.1 member with here | copy
    · exact sound.bitmaps map here
    · exact whole map copy
  · rw [List.length_append]
    exact Nat.le_add_right _ _
  · intro a member
    rw [old _ (sound.numbered _ (mem_sites member))]
    exact sound.fits a member
  · intro none x
    rw [same]
    exact sound.idle none x

theorem snapshotBitmaps_steady (sound : s.Sound) : Steady s s.snapshotBitmaps.2 := by
  rw [snapshotBitmaps_eq fun a member => sound.numbered _ (mem_sites member)]
  refine sound.steady_of_append fun map member => ?_
  obtain ⟨a, here, rfl⟩ := List.mem_map.1 member
  exact (sound.bitmap_sound here).copy

/-- The bitmap has the range and the members of an arena's own. -/
def Matches (s : Source) (a : Arena) (number : Nat) : Prop :=
  (s.bitmap a.live).sameRange (s.bitmap number) = true
    ∧ (s.bitmap number).members = (s.bitmap a.live).members

theorem Sound.known_of_matches (sound : s.Sound) (member : a ∈ s.arenas)
    (matching : s.Matches a number) : number < s.bitmaps.length := by
  have range := matching.1
  rw [Bitmap.sameRange, Bool.and_eq_true, beq_iff_eq] at range
  exact lt_of_base_pos (range.1 ▸ (sound.bitmap_sound member).positive)

theorem Sound.test_of_matches (sound : s.Sound) (member : a ∈ s.arenas)
    (matching : s.Matches a number) :
    (s.bitmap number).test x = true ↔ (s.bitmap a.live).test x = true := by
  have known := sound.known_of_matches member matching
  have copy : (s.bitmap number).Sound := by
    rw [bitmap_eq_getElem known]
    exact sound.bitmaps _ (List.getElem_mem known)
  rw [← copy.mem_members, matching.2, (sound.bitmap_sound member).mem_members]

/-- To exchange the bitmaps for copies that are up to date changes nothing about what lives. -/
theorem Sound.steady_of_exchange (sound : s.Sound)
    (exchanged : List.Forall₂ (fun a a' => s.Matches a a'.live ∧ a'.space = a.space)
      s.arenas s'.arenas) (bitmaps : s'.bitmaps = s.bitmaps)
    (published : s'.published = s'.arenas.map Arena.live)
    (maximum : s'.absoluteMax = s.absoluteMax) : Steady s s' := by
  have map : ∀ number, s'.bitmap number = s.bitmap number := by
    intro number
    rw [bitmap, bitmap, bitmaps]
  have test : ∀ a ∈ s.arenas, ∀ a' : Arena, s.Matches a a'.live ∧ a'.space = a.space → ∀ x,
      (s'.bitmap a'.live).test x = true ↔ (s.bitmap a.live).test x = true := by
    intro a member a' both x
    rw [map]
    exact sound.test_of_matches member both.1
  have same : ∀ x, s'.isPublished x = s.isPublished x := by
    intro x
    rw [Bool.eq_iff_iff, sound.published_iff, isPublished_iff, published]
    constructor
    · rintro ⟨number, member, bit⟩
      obtain ⟨a', here, rfl⟩ := List.mem_map.1 member
      obtain ⟨a, old, both⟩ := exists_left_of_forall₂ exchanged here
      exact ⟨a, old, (test a old a' both x).1 bit⟩
    · rintro ⟨a, old, bit⟩
      obtain ⟨a', here, both⟩ := exists_left_of_forall₂ exchanged.flip old
      exact ⟨_, List.mem_map_of_mem here, (test a old a' both x).2 bit⟩
  refine ⟨sound.of_regions ?_ ?_ ?_ ?_ ?_ maximum ?_ ?_, same, maximum⟩
  · rw [sites, sites, List.map_map, List.map_map]
    exact map_eq_of_forall₂ _ _ (fun a a' both => congrArg Space.region both.2) exchanged
  · rw [bitmaps]
    exact sound.bitmaps
  · intro site member
    obtain ⟨a', here, rfl⟩ := List.mem_map.1 member
    obtain ⟨a, old, both⟩ := exists_left_of_forall₂ exchanged here
    rw [bitmaps]
    exact sound.known_of_matches old both.1
  · intro a' here
    obtain ⟨a, old, both⟩ := exists_left_of_forall₂ exchanged here
    have fits := sound.fits a old
    have range := both.1.1
    rw [Bitmap.sameRange, Bool.and_eq_true, beq_iff_eq, beq_iff_eq] at range
    refine ⟨?_, ?_, ?_, fun x bit => ?_⟩
    · rw [both.2]
      exact fits.laid
    · rw [map, ← range.1, fits.base, both.2]
    · rw [map, ← range.2, fits.limit, both.2]
    · rw [both.2]
      exact fits.chunk x ((test a old a' both x).1 bit)
  · rw [published, sites, List.map_map]
    rfl
  · have footprints := map_eq_of_forall₂ Arena.footprint Arena.footprint
      (fun a a' both => congrArg Space.footprint both.2) exchanged
    exact Nat.le_of_eq (frozenFootprint_of_map footprints)
  · intro none x
    rw [same]
    exact sound.idle (maximum ▸ none) x

theorem forall₂_zipWith_live {l : List Arena} {numbers : List Nat} {related : Arena → Nat → Prop}
    (both : List.Forall₂ related l numbers) :
    List.Forall₂ (fun a a' : Arena => related a a'.live ∧ a'.space = a.space) l
      (l.zipWith (fun a number => { a with live := number }) numbers) := by
  induction both with
  | nil => exact .nil
  | cons here _ ih => exact .cons ⟨here, rfl⟩ ih

theorem replaceBitmaps_steady (sound : s.Sound) {numbers : List Nat}
    (current : s.areCurrent numbers = true) : Steady s (s.replaceBitmaps numbers).2.2 := by
  by_cases takes : s.Takes numbers
  · obtain _ | ⟨first, rest⟩ := numbers
    · cases takes
    · rw [areCurrent, List.all_eq_true] at current
      have ranges := List.forall₂_iff_zip.1 takes
      have matching : List.Forall₂ s.Matches s.arenas (first :: rest) := List.forall₂_iff_zip.2
        ⟨ranges.1, fun member => ⟨ranges.2 member, eq_of_beq (current _ member)⟩⟩
      rw [replaceBitmaps_taken takes]
      exact sound.steady_of_exchange (forall₂_zipWith_live matching) rfl rfl rfl
  · rw [replaceBitmaps_refused takes]
    exact sound.steady

theorem Sound.steady_replaceCurrent (sound : s.Sound) (numbers : List Nat) :
    Steady s (s.replaceCurrent numbers) := by
  rcases s.replaceCurrent_cases numbers with same | ⟨current, same⟩
  · rw [same]
    exact sound.steady
  · rw [same]
    exact replaceBitmaps_steady sound current

/-! ### Room on the mark stack -/

theorem trim_spares : trim.Spares := by
  intro s
  simp only [trim, ends_bind, ends_get, ends_lift, Failure.Overflows]
  refine ⟨fun trimmed _ => ?_, fun _ _ => id⟩
  cases trimmed with
  | nil => exact ends_pure.2 trivial
  | cons first rest => simp

theorem shrinkToIdeal_spares : shrinkToIdeal.Spares :=
  trim_spares.then fun _ => spares_get.then fun _ => (setIdeal_spares _).then fun _ => spares_pure _

theorem pushArena_spares (arena : Arena) (map : Bitmap) : (pushArena arena map).Spares := by
  intro s
  simp [pushArena, Failure.Overflows]

theorem addArena_spares : addArena.Spares := by
  refine spares_get.then fun s => ?_
  dsimp only
  split
  · exact spares_throw id
  · split
    · exact spares_pure _
    · refine (spares_lift _).then fun made => ?_
      cases made with
      | error => exact spares_pure _
      | ok parts => exact (pushArena_spares _ _).then fun _ => spares_pure _

theorem beforeFork_spares : beforeFork.Spares := by
  refine spares_get.then fun s => ?_
  split
  · exact spares_pure _
  · refine (spares_modify _).then fun _ => addArena_spares.then fun done => ?_
    cases done <;> exact spares_pure _

theorem afterZygote_spares : afterZygote.Spares := by
  refine spares_get.then fun s => ?_
  split
  · exact spares_pure _
  · refine addArena_spares.then fun done => ?_
    cases done <;> exact spares_pure _

end Source

end ManagedHeap
