import ManagedHeap.Proofs.Charges
import ManagedHeap.Proofs.Consistency

/-!
Freeing what does not live. In an arena that covers the address the two counts go down all the same, by
one object and by the length that a chunk there has on record, or by the bookkeeping of one where there is
no chunk. Nothing else changes. In the active arena there never is such a chunk, for each one with a length
on record is that of a live object.
-/

namespace ManagedHeap

/-- Clearing a bit that is not set changes nothing. -/
theorem Bitmap.erase_of_absent {b : Bitmap} {x : Nat} (covered : b.mayContain x = true)
    (absent : b.test x = false) : b.erase x = b := by
  rw [test, covered, Bool.true_and] at absent
  rw [erase, if_neg (Bool.eq_false_iff.1 absent)]

/-- Every chunk with a length on record is that of a member. -/
def Ledger.Listed (l : Ledger) : Prop :=
  ∀ offset length, l.recorded offset = some length → 0 < length → l.region.base + offset ∈ l.members

theorem Ledger.Blank.listed {l : Ledger} (blank : l.Blank) : l.Listed := by
  intro offset length recorded
  rw [blank.recorded] at recorded
  cases recorded

namespace Source

open Action

variable {s s' : Source} {a : Arena} {m n i x taken start maximum : Nat} {space : Space} {zygote : Bool}

/-- Every chunk of the active arena with a length on record is that of a live object. -/
def Listed (s : Source) : Prop := (s.ledger s.active).Listed

theorem Listed.of_eq (listed : s.Listed) (same : s'.ledgers = s.ledgers) : s'.Listed := by
  have first : s'.ledger s'.active = s.ledger s.active := (List.cons.inj same).1
  exact (congrArg Ledger.Listed first).mpr listed

theorem Undisturbed.listed (undisturbed : Undisturbed s s') (listed : s.Listed) : s'.Listed := by
  obtain ⟨fresh, blank, ledgers⟩ := undisturbed
  cases fresh with
  | nil => exact listed.of_eq ledgers
  | cons first rest =>
    have same : s'.ledger s'.active = first := (List.cons.inj ledgers).1
    exact (congrArg Ledger.Listed same).mpr (blank first List.mem_cons_self).listed

/-! ### Allocating -/

/-- A chunk is placed with its length on record and its bit set, or with no length. -/
theorem Listed.lodge (listed : s.Listed) (sound : s.Sound) (lodges : s.Lodges n x taken space) :
    (s.entered space x (taken % recordable)).Listed
      ∧ (taken % recordable = 0 → (s.placed space).Listed) := by
  obtain ⟨size, offset, room, fits, rfl, makes, rfl⟩ := lodges
  have laid := (sound.fits _ s.active_mem).laid
  obtain ⟨carved, enough⟩ := makes.carved laid fits
  obtain ⟨region, -, records⟩ := carved.kept
  have base : (room.place offset taken n).region.base = s.active.space.base := congrArg Region.base region
  have recorded : ∀ other, (room.place offset taken n).recorded? other
      = if other = offset then some (taken % recordable) else s.active.space.recorded? other :=
    fun other => records ▸ Space.recorded_place_wraps carved.whole
  obtain ⟨-, -, inside, aligned, -⟩ : Steady s (s.placed (room.place offset taken n)) ∧ _ :=
    sound.placed (carved.placed fits enough) rfl rfl rfl rfl rfl
  have covered := (sound.mayContain_iff s.active_mem).2 ⟨inside, aligned⟩
  have whole := sound.bitmap_sound s.active_mem
  have known : s.active.live < s.bitmaps.length := sound.numbered _ (mem_sites s.active_mem)
  refine ⟨fun other length found positive => ?_, fun lost other length found positive => ?_⟩
  · have found := (recorded other).symm.trans found
    change (room.place offset taken n).region.base + other
      ∈ (bitmap (s.entered _ _ _) s.active.live).members
    rw [base, bitmap_of_modify known rfl, if_pos rfl, (whole.insert covered).mem_members,
      whole.test_insert covered]
    by_cases here : other = offset
    · exact .inl (congrArg _ here)
    · rw [if_neg here] at found
      exact .inr (whole.mem_members.1 (listed other length found positive))
  · have found := (recorded other).symm.trans found
    change (room.place offset taken n).region.base + other ∈ (s.bitmap s.active.live).members
    rw [base]
    split at found
    · cases found
      omega
    · exact listed other length found positive

theorem alloc_listed (sound : s.Sound) (counted : s.active.bytes ≤ s.active.space.top)
    (listed : s.Listed) (n : Nat) : (alloc n).Ends s (fun _ s' => s'.Listed) fun _ s' => s'.Listed := by
  refine (sound.alloc_ends counted n).imp ?_ ?_
  · rintro _ s' (⟨-, rfl⟩ | ⟨x, taken, space, -, lodges, -, rfl⟩)
    · exact listed
    · exact (listed.lodge sound lodges).1
  · rintro _ s' ⟨x, taken, space, lodges, ⟨-, lost, rfl⟩ | ⟨-, -, rfl⟩⟩
    · exact (listed.lodge sound lodges).2 lost
    · exact (listed.lodge sound lodges).1

theorem allocAndGrow_listed (sound : s.Sound) (counted : s.active.bytes ≤ s.active.space.top)
    (listed : s.Listed) (n : Nat) :
    (allocAndGrow n).Ends s (fun _ s' => s'.Listed) fun _ s' => s'.Listed := by
  refine allocAndGrow_of_alloc (fun s₁ before => ?_) fun _ _ listed => listed
  have counted₁ : s₁.active.bytes ≤ s₁.active.space.top := by
    obtain ⟨allowed, active⟩ := before.active
    rw [active]
    exact counted
  have steady := sound.steady_of_resized before
  refine (alloc_listed steady.sound counted₁ (listed.of_eq before.ledgers) n).imp ?_ fun _ _ kept => kept
  exact fun _ s₂ kept s' after => kept.of_eq after.ledgers

/-! ### Freeing -/

/-- The bit of an address of the active arena was cleared, and no chunk is on record there. -/
theorem Listed.erase (listed : s.Listed) (sound : s.Sound)
    (covered : (s.bitmap s.active.live).mayContain x = true)
    (region : s'.active.space.region = s.active.space.region) (live : s'.active.live = s.active.live)
    (fewer : ∀ offset length, s'.active.space.recorded? offset = some length →
      offset ≠ x - s.active.space.base ∧ s.active.space.recorded? offset = some length)
    (bitmaps : s'.bitmaps = s.bitmaps.modify s.active.live (·.erase x)) : s'.Listed := by
  have whole := sound.bitmap_sound s.active_mem
  have known : s.active.live < s.bitmaps.length := sound.numbered _ (mem_sites s.active_mem)
  intro offset length recorded positive
  obtain ⟨elsewhere, old⟩ := fewer offset length recorded
  change s'.active.space.region.base + offset ∈ (s'.bitmap s'.active.live).members
  rw [region, live, bitmap_of_modify known bitmaps, if_pos rfl, whole.erase.mem_members,
    whole.test_erase covered]
  refine ⟨fun same => elsewhere ?_, whole.mem_members.1 (listed offset length old positive)⟩
  rw [← same]
  exact (Nat.add_sub_cancel_left ..).symm

theorem free_listed (sound : s.Sound) (listed : s.Listed) (x : Nat) :
    (free x).Ends s (fun _ s' => s'.Listed) fun _ s' => s'.Listed := by
  refine ends_free (fun _ => listed) listed ?_ ?_
  · intro i a usable here covered _ unchained
    obtain ⟨bitmaps, -⟩ := uncount_eq here x (usable.getD 0 + Size.chunkOverhead)
    cases i with
    | succ i =>
      -- The bitmap of the active arena is another one.
      have first : s.arenas[0]? = some s.active := rfl
      have other := sound.live_ne here covered first (Nat.succ_ne_zero i).symm
      have known : a.live < s.bitmaps.length :=
        sound.numbered _ (mem_sites (mem_arenas_of_getElem here))
      intro offset length recorded positive
      change s.active.space.region.base + offset ∈ (bitmap (s.uncount (i + 1) x _) s.active.live).members
      rw [bitmap_of_modify known bitmaps, if_neg other]
      exact listed offset length recorded positive
    | zero =>
      cases here
      have inside := ((sound.mayContain_iff s.active_mem).1 covered).1
      refine listed.erase sound covered rfl rfl (fun offset length recorded => ⟨?_, recorded⟩) bitmaps
      rintro rfl
      have recorded : s.active.space.recorded? (x - s.active.space.base) = some length := recorded
      obtain ⟨_, _, some⟩ := Space.release_total inside (recorded ▸ rfl)
      cases (unchained rfl).symm.trans some
  · intro usable length space covered measured release
    have laid := (sound.fits _ s.active_mem).laid
    obtain ⟨region, recorded⟩ := Space.release_recorded laid measured release
    refine listed.erase sound covered region rfl (fun offset length found => ?_) rfl
    have found := (recorded offset).symm.trans found
    split at found
    · cases found
    · exact ⟨‹_›, found⟩

/-! ### Runs -/

theorem perform_listed (governed : s.Governed m) (counted : s.active.bytes ≤ s.active.space.top)
    (listed : s.Listed) (op : Operation) :
    (perform op).Ends s (fun _ s' => s'.Listed) fun _ s' => s'.Listed := by
  have sound := governed.sound
  cases op with
  | alloc n => exact alloc_listed sound counted listed n
  | allocAndGrow n => exact allocAndGrow_listed sound counted listed n
  | free x =>
    simp only [perform, quietly, ends_bind, ends_pure]
    exact free_listed sound listed x
  | _ =>
    refine (calm_perform governed _ rfl).imp ?_ fun _ _ calm => calm.2.listed listed
    exact fun _ _ calm => calm.2.2.listed listed

theorem Reachable.listed (reachable : Reachable start maximum zygote s) : s.Listed := by
  induction reachable with
  | startup run =>
    obtain ⟨l, ledgers, blank⟩ := startup_blank run
    have first : Source.ledger _ _ = l := (List.cons.inj ledgers).1
    exact (congrArg Ledger.Listed first).mpr blank.listed
  | step op before ih =>
    exact (perform_listed before.governed before.bytes_le ih op).after Listed
      (fun _ _ listed => listed) fun _ _ listed => listed

/-! ### Stray addresses -/

/-- The source with an object and so many bytes less on the account of the arena at an index. -/
def discount (s : Source) (i freed : Nat) : Source :=
  s.modifyArena i fun a => { a with bytes := a.bytes - freed, objects := a.objects - 1 }

theorem modifyBitmap_of_same {number : Nat} {change : Bitmap → Bitmap}
    (same : change (s.bitmap number) = s.bitmap number) : s.modifyBitmap number change = s := by
  have kept : s.bitmaps.modify number change = s.bitmaps := by
    refine List.ext_getElem? fun j => ?_
    rw [List.getElem?_modify]
    by_cases here : number = j
    · subst here
      cases known : s.bitmaps[number]? with
      | none => rfl
      | some map =>
        rw [bitmap, List.getD_eq_getElem?_getD, known, Option.getD_some] at same
        simp [same]
    · simp [here]
  rw [modifyBitmap, kept]

theorem uncount_of_absent (here : s.arenas[i]? = some a)
    (covered : (s.bitmap a.live).mayContain x = true) (absent : (s.bitmap a.live).test x = false)
    (freed : Nat) : s.uncount i x freed = s.discount i freed := by
  have same : (s.discount i freed).bitmap a.live = s.bitmap a.live := by
    cases i <;> rfl
  rw [uncount, getD_arenas here]
  refine modifyBitmap_of_same ?_
  change ((s.discount i freed).bitmap a.live).erase x = (s.discount i freed).bitmap a.live
  rw [same]
  exact Bitmap.erase_of_absent covered absent

/-- With no chunk to free, only the account of the arena changes. -/
theorem Sound.free_absent (sound : s.Sound) (here : s.arenas[i]? = some a)
    (covered : (s.bitmap a.live).mayContain x = true) (absent : (s.bitmap a.live).test x = false)
    {usable : Option Nat} (measured : a.space.usableSize? x = .ok usable)
    (unchained : i = 0 → a.space.release? x = none) :
    free x s = .ok (usable.getD 0 + Size.chunkOverhead)
      (s.discount i (usable.getD 0 + Size.chunkOverhead)) := by
  refine Ends.eq_ok ?_
  simp only [free, ends_bind, ends_get, sound.arenaIndex_eq here covered]
  rw [getD_arenas here, ends_lift_of_ok measured, ends_set, ends_pure,
    uncount_of_absent here covered absent]
  refine ⟨rfl, ?_⟩
  split
  case isFalse => rfl
  case isTrue first =>
    subst first
    cases here
    rw [releaseChunk, show (s.discount 0 _).active.space.release? x = none from unchained rfl]

theorem Sound.absent_of_stray (sound : s.Sound) (member : a ∈ s.arenas)
    (covered : (s.bitmap a.live).mayContain x = true) (stray : s.contains x = false) :
    (s.bitmap a.live).test x = false := by
  rw [sound.test_eq_isPublished (sound.mem_published.2 ⟨a, member, rfl⟩) covered, ← sound.contains_eq]
  exact stray

/-- A chunk with a length on record at which nothing lives is in a frozen arena. -/
theorem Listed.frozen (listed : s.Listed) (sound : s.Sound) (here : s.arenas[i]? = some a)
    (inside : a.space.region.contains x = true) (absent : (s.bitmap a.live).test x = false)
    {length : Nat} (recorded : a.space.recorded? (x - a.space.base) = some length)
    (positive : 0 < length) : i ≠ 0 := by
  rintro rfl
  cases here
  have member := listed _ _ recorded positive
  have same : s.active.space.region.base + (x - s.active.space.base) = x :=
    Nat.add_sub_cancel' (region_contains.1 inside).1
  have present := (sound.bitmap_sound s.active_mem).mem_members.1 (same ▸ member)
  exact Bool.false_ne_true (absent.symm.trans present)

theorem Sound.free_outside (sound : s.Sound)
    (outside : ∀ a ∈ s.arenas, a.space.region.contains x = true → x % Size.granule ≠ 0) :
    free x s = .ok 0 s := by
  have nowhere : s.arenaIndex? x = none := by
    refine List.findIdx?_eq_none_iff.2 fun a member => Bool.eq_false_iff.2 fun covered => ?_
    obtain ⟨inside, aligned⟩ := (sound.mayContain_iff member).1 covered
    exact outside a member inside aligned
  refine Ends.eq_ok ?_
  simp only [free, ends_bind, ends_get, nowhere, ends_pure]
  exact ⟨trivial, trivial⟩

/-- Where what is usable of a chunk cannot be told, freeing it changes nothing. -/
theorem Sound.free_fails (sound : s.Sound) (here : s.arenas[i]? = some a)
    (covered : (s.bitmap a.live).mayContain x = true) {defect : Defect}
    (measured : a.space.usableSize? x = .error defect) :
    free x s = .error (.defect defect) s := by
  have ends : (free x).Ends s (fun _ _ => False) fun cause s' => cause = .defect defect ∧ s' = s := by
    simp only [free, ends_bind, ends_get, sound.arenaIndex_eq here covered]
    rw [getD_arenas here, ends_lift, measured]
    refine ⟨?_, ?_⟩
    · rintro _ ⟨⟩
    · rintro _ ⟨⟩
      exact ⟨rfl, rfl⟩
  obtain ⟨_, _, run, rfl, rfl⟩ := ends.exists_error
  exact run

/-- Freeing what does not live changes nothing where no arena has the address. Where one has it, nothing
but the two counts of that arena changes: they go down by one object, and by the length that a chunk there
has on record, which only happens in a frozen arena, or by the bookkeeping of a chunk if there is none.
It breaks off, and has changed nothing, at a chunk with nothing of its length on record. -/
theorem Reachable.free_stray (reachable : Reachable start maximum zygote s)
    (stray : s.contains x = false) :
    ((∀ a ∈ s.arenas, a.space.region.contains x = true → x % Size.granule ≠ 0) → free x s = .ok 0 s)
      ∧ ∀ i a, s.arenas[i]? = some a → a.space.region.contains x = true → x % Size.granule = 0 →
        (a.space.recorded? (x - a.space.base) = none →
          free x s = .ok Size.chunkOverhead (s.discount i Size.chunkOverhead))
        ∧ ∀ length, a.space.recorded? (x - a.space.base) = some length →
          (0 < length → i ≠ 0 ∧ free x s = .ok length (s.discount i length))
            ∧ (length = 0 → free x s = .error (.defect .overflow) s) := by
  have sound := reachable.governed.sound
  refine ⟨sound.free_outside, fun i a here inside aligned => ?_⟩
  have member := mem_arenas_of_getElem here
  have covered := (sound.mayContain_iff member).2 ⟨inside, aligned⟩
  have absent := sound.absent_of_stray member covered stray
  refine ⟨fun unrecorded => ?_, fun length recorded => ?_⟩
  · have begun : a.space.chunkAt? x = none := by
      rw [Space.chunkAt_eq inside]
      exact Option.map_eq_none_iff.1 unrecorded
    have measured : a.space.usableSize? x = .ok none := by
      rw [Space.usableSize?, begun]
      rfl
    refine sound.free_absent here covered absent measured fun _ => ?_
    cases release : a.space.release? x with
    | none => rfl
    | some both => cases unrecorded.symm.trans (Space.release_at release).2
  · obtain ⟨chunk, found, rfl⟩ := Option.map_eq_some_iff.1 recorded
    have measured := Space.usableSize_of_chunk ((Space.chunkAt_eq inside).trans found)
    refine ⟨fun positive => ?_, fun lost => ?_⟩
    · have frozen := reachable.listed.frozen sound here inside absent recorded positive
      have large : Size.chunkOverhead ≤ chunk.size := by
        simp only [Chunk.size, Size.granule, Size.chunkOverhead] at *
        omega
      rw [if_pos large] at measured
      have run := sound.free_absent here covered absent measured fun first => absurd first frozen
      rw [Option.getD_some, Nat.sub_add_cancel large] at run
      exact ⟨frozen, run⟩
    · rw [lost, if_neg (by decide)] at measured
      exact sound.free_fails here covered measured

/-- Two objects, the first of which is freed after their arena was frozen. -/
def orphaned : List Operation :=
  [.alloc 24, .alloc 24, .beforeFork, .free (Region.arenaBase 0)]

/-- To free the first once more takes the second off the account, and it lives all the same. -/
theorem orphaned_stray : (small.afterAll orphaned).contains (Region.arenaBase 0) = false
    ∧ (small.afterAll orphaned).contains (Region.arenaBase 0 + 32) = true
    ∧ ∃ s', free (Region.arenaBase 0) (small.afterAll orphaned) = .ok 32 s'
      ∧ (small.afterAll orphaned).frozen.map (fun a => (a.bytes, a.objects)) = [(32, 1)]
      ∧ s'.frozen.map (fun a => (a.bytes, a.objects)) = [(0, 0)]
      ∧ s'.contains (Region.arenaBase 0 + 32) = true := by
  have gone : (small.afterAll orphaned).contains (Region.arenaBase 0) = false := by decide +kernel
  have frozen := ((reachable_small.afterAll orphaned).free_stray gone).2 1 _ rfl (by decide +kernel)
    (by decide +kernel)
  have run := ((frozen.2 32 (by decide +kernel)).1 (by decide)).2
  exact ⟨gone, by decide +kernel, _, run, by decide +kernel, by decide +kernel, by decide +kernel⟩

end Source

end ManagedHeap
