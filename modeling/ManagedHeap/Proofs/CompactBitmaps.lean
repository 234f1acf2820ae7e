import ManagedHeap.Proofs.FrozenArenas

/-!
A copy of a bitmap takes along no more words than may hold a bit. The bitmaps of arenas have no others,
so a copy of one of them is the same bitmap.
-/

namespace ManagedHeap

namespace Bitmap

/-- There is no word that a copy leaves out. -/
structure Compact (b : Bitmap) : Prop extends b.Walkable where
  range : b.base ≤ b.limit
  words : ∀ index ∈ b.words, index < b.wordsInUse

variable {b : Bitmap} {x index : Nat}

theorem lt_wordsInUse : index < b.wordsInUse
    ↔ b.base ≤ b.highest ∧ index ≤ offsetToIndex Size.granule (b.highest - b.base) := by
  rw [wordsInUse]
  split
  case isTrue none => exact ⟨fun used => absurd used (Nat.not_lt_zero _), fun used => by omega⟩
  case isFalse some => exact ⟨fun used => ⟨Nat.not_lt.1 some, Nat.le_of_lt_succ used⟩,
    fun used => Nat.lt_succ_of_le used.2⟩

theorem offsetToIndex_mono {align offset offset' : Nat} (le : offset ≤ offset') :
    offsetToIndex align offset ≤ offsetToIndex align offset' :=
  Nat.div_le_div_right (Nat.div_le_div_right le)

theorem Compact.copy_eq (compact : b.Compact) : b.copy = b := by
  have words : b.words.filter (fun index _ => index < b.wordsInUse) = b.words := by
    refine Std.ExtTreeMap.ext_getElem? fun index => ?_
    rw [Std.ExtTreeMap.getElem?_filter']
    cases found : b.words[index]? with
    | none => rfl
    | some word =>
      have known : index ∈ b.words := by
        rw [Std.ExtTreeMap.mem_iff_isSome_getElem?, found]
        rfl
      have used := compact.words index known
      simp [Option.filter, used]
  have limit := limit_copy compact.range
  obtain ⟨name, base, stop, words', highest⟩ := b
  simp only [copy, blank] at words limit ⊢
  rw [words, limit]

theorem compact_blank {name : String} {base capacity : Nat} (positive : 0 < base) :
    (blank name base capacity).Compact where
  toWalkable := walkable_blank positive
  range := Nat.le_add_right _ _
  words _ known := by simp [blank] at known

theorem Compact.copy (compact : b.Compact) : b.copy.Compact := compact.copy_eq.symm ▸ compact

theorem Compact.insert (compact : b.Compact) (above : b.base ≤ x) (below : x < b.limit) :
    (b.insert x).Compact := by
  have walks := compact.below
  have highest : max b.highest x < b.limit := by omega
  have reached : b.base ≤ max b.highest x := Nat.le_trans above (Nat.le_max_right _ _)
  unfold Bitmap.insert
  split
  case isTrue => exact compact
  case isFalse =>
    refine ⟨⟨.inr highest⟩, compact.range, fun index known => lt_wordsInUse.2 ⟨reached, ?_⟩⟩
    rw [Std.ExtTreeMap.mem_insert] at known
    rcases known with here | known
    · rw [← Nat.compare_eq_eq.1 here]
      exact offsetToIndex_mono (Nat.sub_le_sub_right (Nat.le_max_right _ _) _)
    · have used := (lt_wordsInUse.1 (compact.words index known)).2
      exact Nat.le_trans used (offsetToIndex_mono (Nat.sub_le_sub_right (Nat.le_max_left _ _) _))

theorem Compact.erase (compact : b.Compact) : (b.erase x).Compact := by
  unfold Bitmap.erase
  split
  case isFalse => exact compact
  case isTrue present =>
    refine ⟨⟨compact.below⟩, compact.range, fun index known => ?_⟩
    rw [Std.ExtTreeMap.mem_insert] at known
    rcases known with here | known
    · rw [← Nat.compare_eq_eq.1 here]
      refine compact.words _ ?_
      by_contra missing
      rw [bitAt, word, Std.ExtTreeMap.getD_eq_fallback missing, Nat.zero_testBit] at present
      cases present
    · exact compact.words index known

end Bitmap

namespace Source

open Action

/-- The bitmaps of the arenas are published, and copies of any bitmaps are the same. -/
structure Neat (s : Source) : Prop where
  settled : s.Settled
  compact : ∀ map ∈ s.bitmaps, map.Compact
  published : s.published = s.arenas.map Arena.live
  few : s.arenas.length ≤ Size.maxArenas

variable {s s' : Source} {a : Arena} {x n : Nat}

/-! ### Single changes -/

/-- The same bitmaps are live, and all are still compact. -/
theorem Neat.of_lives (neat : s.Neat) (settled : s'.Settled)
    (lives : s'.arenas.map Arena.live = s.arenas.map Arena.live)
    (compact : ∀ map ∈ s'.bitmaps, map.Compact) (published : s'.published = s.published) :
    s'.Neat where
  settled := settled
  compact := compact
  published := by rw [published, lives, neat.published]
  few := by
    have length := congrArg List.length lives
    rw [List.length_map, List.length_map] at length
    exact length ▸ neat.few

theorem Neat.of_resized (neat : s.Neat) (resized : Resized s s') : s'.Neat := by
  obtain ⟨allowed, active⟩ := resized.active
  have keeps : Keeps True s s' := neat.settled.keeps_of_resized resized
  refine neat.of_lives keeps.settled ?_ (resized.bitmaps ▸ neat.compact) resized.published
  rw [arenas, arenas, active, resized.frozen]
  rfl

theorem Resizes.neat {α : Type} {action : Action Source α} (resizes : Resizes action) :
    action.Preserves Neat := fun s neat =>
  (resizes s).imp (fun _ _ resized => neat.of_resized resized) fun _ _ resized =>
    neat.of_resized resized

/-- The bitmaps stay compact if one of them is changed in a way that keeps it so. -/
theorem Neat.compact_modify (neat : s.Neat) {change : Bitmap → Bitmap}
    (compact : ∀ map, s.bitmaps[n]? = some map → map.Compact → (change map).Compact) :
    ∀ map ∈ s.bitmaps.modify n change, map.Compact := by
  intro map member
  obtain ⟨i, here⟩ := List.getElem?_of_mem member
  rw [List.getElem?_modify] at here
  obtain ⟨old, found, rfl⟩ := Option.map_eq_some_iff.1 here
  have known := neat.compact old (List.mem_of_getElem? found)
  split
  case isTrue same =>
    subst same
    exact compact old found known
  case isFalse => exact known

/-! ### Allocating and freeing -/

theorem Neat.of_carved (neat : s.Neat) {offset taken needed : Nat} {room : Space}
    (carved : s.active.space.Carved offset taken room) (fits : Space.chunkSizeFor n = some needed)
    (enough : needed ≤ taken) : (s.placed (room.place offset taken n)).Neat
      ∧ ∀ length, (s.entered (room.place offset taken n) (s.active.space.base + offset) length).Neat := by
  obtain ⟨placed, entered⟩ : Grows True s _ ∧ ∀ x length, Grows True s (s.entered _ x length) :=
    neat.settled.grows_of_carved carved fits enough
  refine ⟨neat.of_lives placed.settled rfl neat.compact rfl, fun length => ?_⟩
  refine neat.of_lives (entered _ length).settled rfl (neat.compact_modify fun map found compact => ?_) rfl
  have here : s.bitmap s.active.live = map := by
    rw [bitmap, List.getD_eq_getElem?_getD, found, Option.getD_some]
  have range := neat.settled.ranges _ (mem_sites s.active_mem)
  have inside := region_contains.1 (carved.contains fits enough)
  rw [here] at range
  exact compact.insert (range.1 ▸ inside.1) (range.2 ▸ inside.2)

theorem alloc_neat (n : Nat) : (alloc n).Preserves Neat := fun s neat =>
  ends_alloc_carved (neat.settled.laid _ s.active_mem) neat neat.of_carved id

theorem allocAndGrow_neat (n : Nat) : (allocAndGrow n).Preserves Neat := by
  refine fun s neat => allocAndGrow_of_alloc (fun s₁ before => ?_) fun _ _ neat' => neat'
  exact (alloc_neat n s₁ (neat.of_resized before)).mono fun _ _ neat' _ after => neat'.of_resized after

theorem Neat.uncount (neat : s.Neat) (index x freed : Nat) : (s.uncount index x freed).Neat := by
  have keeps : Keeps True s (s.uncount index x freed) := neat.settled.keeps_uncount index x freed
  have bitmaps : (s.uncount index x freed).bitmaps
      = s.bitmaps.modify (s.arenas.getD index s.active).live (·.erase x) := by
    cases index <;> rfl
  have published : (s.uncount index x freed).published = s.published := by
    cases index <;> rfl
  refine neat.of_lives keeps.settled (map_uncount Arena.live (fun _ _ _ => rfl) ..) ?_ published
  exact bitmaps ▸ neat.compact_modify fun _ _ compact => compact.erase

theorem free_neat (x : Nat) : (free x).Preserves Neat := by
  refine fun s neat => ends_free (fun _ => neat) neat (fun _ _ _ _ => neat.uncount ..) ?_
  intro usable length space _ measured release
  have counted := neat.uncount 0 x (usable.getD 0 + Size.chunkOverhead)
  have keeps : Keeps True s ((s.uncount 0 x (usable.getD 0 + Size.chunkOverhead)).placed space) :=
    neat.settled.keeps_of_release measured release _
  exact counted.of_lives keeps.settled rfl counted.compact rfl

/-! ### Giving memory back -/

theorem trim_neat : trim.Preserves Neat := by
  refine fun s neat => ends_trim neat fun cut => ?_
  have keeps : Keeps True s _ := neat.settled.keeps_of_cut cut
  refine neat.of_lives keeps.settled (map_eq_of_forall₂ _ _ ?_ cut) neat.compact rfl
  rintro a a' ⟨-, released, run⟩
  obtain ⟨footprint, words, rfl⟩ := Arena.trim_frame run
  rfl

theorem shrinkToIdeal_neat : shrinkToIdeal.Preserves Neat := by
  refine trim_neat.then fun released => preserves_get fun s neat => ?_
  exact ((resizes_setIdeal _).neat.then fun _ => preserves_pure _) s neat

/-! ### New arenas and bitmaps -/

theorem compact_of_freshArena {number start maximum live : Nat} {map : Bitmap}
    (run : freshArena number start maximum live = .ok (.ok (a, map))) : map.Compact := by
  have base := (fresh_of_freshArena run).base
  obtain ⟨space, create, rfl, rfl⟩ := freshArena_eq run
  refine Bitmap.compact_blank ?_
  rw [base, Region.arenaBase, Region.stride]
  exact Nat.mul_pos (Nat.succ_pos _) (by decide)

theorem SplitOff.neat {map : Bitmap} {allowed : Nat} (split : s.SplitOff a map allowed s')
    (neat : s.Neat) : s'.Neat := by
  obtain rfl := split.pushed
  refine ⟨split.settled neat.settled, fun map' member => ?_, rfl, split.few⟩
  rcases List.mem_append.1 member with old | new
  · exact neat.compact map' old
  · exact List.mem_singleton.1 new ▸ compact_of_freshArena split.made

theorem addArena_neat : addArena.Preserves Neat := fun _ neat =>
  ends_addArena neat neat fun split => split.neat neat

theorem beforeFork_neat : beforeFork.Preserves Neat := fun _ neat =>
  ends_beforeFork neat (addArena_neat _ (neat.of_resized ⟨⟨_, rfl⟩, rfl, rfl, rfl, rfl⟩))

theorem afterZygote_neat : afterZygote.Preserves Neat := fun _ neat =>
  ends_afterZygote neat (addArena_neat _ neat)

theorem Settled.live_lt (settled : s.Settled) (member : a ∈ s.arenas) :
    a.live < s.bitmaps.length := settled.known _ (mem_sites member)

theorem Neat.compact_live (neat : s.Neat) (member : a ∈ s.arenas) : (s.bitmap a.live).Compact := by
  refine neat.compact _ ?_
  rw [bitmap, List.getD_eq_getElem?_getD, List.getElem?_eq_getElem (neat.settled.live_lt member)]
  exact List.getElem_mem _

/-- The copies of the live bitmaps stand behind all others. -/
theorem Settled.snapshotBitmaps_eq (settled : s.Settled) : s.snapshotBitmaps
    = (List.range' s.bitmaps.length s.arenas.length,
      { s with bitmaps := s.bitmaps ++ s.arenas.map fun a => (s.bitmap a.live).copy }) :=
  Source.snapshotBitmaps_eq fun _ member => settled.live_lt member

theorem Neat.snapshotBitmaps (neat : s.Neat) : s.snapshotBitmaps.2.Neat := by
  rw [neat.settled.snapshotBitmaps_eq]
  have keeps : Keeps True s _ :=
    neat.settled.keeps_of_append (s.arenas.map fun a => (s.bitmap a.live).copy)
  refine neat.of_lives keeps.settled rfl (fun map member => ?_) rfl
  rcases List.mem_append.1 member with old | new
  · exact neat.compact map old
  · obtain ⟨a, here, rfl⟩ := List.mem_map.1 new
    exact (neat.compact_live here).copy

/-- Bitmaps are exchanged, whether they are up to date or not. -/
theorem Neat.replaceBitmaps (neat : s.Neat) (numbers : List Nat) :
    (s.replaceBitmaps numbers).2.2.Neat := by
  have settled := neat.settled.exchange numbers
  by_cases takes : s.Takes numbers
  · obtain _ | ⟨first, rest⟩ := numbers
    · cases takes
    · rw [replaceBitmaps_taken takes] at settled ⊢
      refine ⟨settled, neat.compact, rfl, Nat.le_trans (Nat.succ_le_succ ?_) neat.few⟩
      exact Nat.le_trans (Nat.le_of_eq List.length_zipWith) (Nat.min_le_left _ _)
  · rw [replaceBitmaps_refused takes]
    exact neat

theorem Neat.replaceCurrent (neat : s.Neat) (numbers : List Nat) :
    (s.replaceCurrent numbers).Neat := by
  rcases s.replaceCurrent_cases numbers with same | ⟨-, same⟩
  · rw [same]
    exact neat
  · rw [same]
    exact neat.replaceBitmaps numbers

/-! ### Runs -/

theorem Neat.of_startup {start maximum : Nat} {zygote : Bool}
    (run : startup start maximum zygote = .ok (.ok s)) : s.Neat := by
  have settled := Settled.of_startup run
  obtain ⟨-, active, map, make, rfl⟩ := startup_eq run
  refine ⟨settled, fun map' member => ?_, rfl, (by decide : 1 ≤ Size.maxArenas)⟩
  exact List.mem_singleton.1 member ▸ compact_of_freshArena make

theorem preserves_neat (op : Operation) : (perform op).Preserves Neat := by
  cases op with
  | alloc n => exact alloc_neat n
  | allocAndGrow n => exact allocAndGrow_neat n
  | free x => exact preserves_quietly (free_neat x)
  | addArena => exact preserves_quietly addArena_neat
  | beforeFork => exact preserves_quietly beforeFork_neat
  | afterZygote => exact preserves_quietly afterZygote_neat
  | setUtilization ratio =>
    exact preserves_quietly (preserves_modify fun s neat =>
      neat.of_resized ⟨⟨_, rfl⟩, rfl, rfl, rfl, rfl⟩)
  | setMinimum size => exact preserves_quietly (resizes_setMinimum size).neat
  | growForUtilization => exact preserves_quietly resizes_growForUtilization.neat
  | trim => exact preserves_quietly trim_neat
  | shrinkToIdeal => exact preserves_quietly shrinkToIdeal_neat
  | externalAlloc n grow => exact preserves_quietly (resizes_externalAlloc n grow).neat
  | externalFree n => exact preserves_quietly (resizes_externalFree n).neat
  | setGeneration x generation =>
    refine preserves_quietly (preserves_modify fun s neat => ?_)
    have keeps : Keeps True s _ := neat.settled.keeps_setGeneration x generation
    have lives := map_setGeneration Arena.live (fun _ _ _ => rfl) s x generation
    obtain ⟨active, frozen, same⟩ := s.setGeneration_frame x generation
    rw [same] at keeps lives ⊢
    exact neat.of_lives keeps.settled lives neat.compact rfl
  | write x index count value =>
    refine preserves_quietly (preserves_modify fun s neat => ?_)
    have keeps : Keeps False s _ := neat.settled.keeps_setWords id x index count value
    have lives := map_setWords Arena.live (fun _ _ => rfl) s x index count value
    obtain ⟨active, frozen, same⟩ := s.setWords_frame x index count value
    rw [same] at keeps lives ⊢
    exact neat.of_lives keeps.settled lives neat.compact rfl
  | snapshotBitmaps => exact preserves_quietly (preserves_modify fun s neat => neat.snapshotBitmaps)
  | replaceBitmaps numbers =>
    exact preserves_quietly (preserves_modify fun s neat => neat.replaceCurrent numbers)

end Source

end ManagedHeap
