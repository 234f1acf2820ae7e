import Mathlib.Algebra.BigOperators.Group.Finset.Sigma
import Mathlib.Algebra.GroupWithZero.Nat
import Mathlib.Algebra.Order.BigOperators.Group.Finset
import Mathlib.Order.Interval.Finset.Nat
import ManagedHeap.Proofs.SourceRuns

/-!
What the arenas record about their objects. Each arena counts its live objects and their bytes, has
them in its bitmap, and keeps a record of every chunk. A ledger is all of this for one arena, and it
is exact when the records agree.
-/

namespace ManagedHeap

namespace Word

theorem total_eq_sum (values : List Nat) : total values = values.sum := rfl

theorem total_of_perm {values values' : List Nat} (perm : values.Perm values') :
    total values = total values' := perm.sum_eq

/-- A total is at most what is left without one entry, and that entry. -/
theorem total_le_erase (figure : Nat → Nat) (l : List Nat) (x : Nat) :
    total (l.map figure) ≤ total ((l.erase x).map figure) + figure x := by
  by_cases member : x ∈ l
  · rw [total_of_perm ((List.perm_cons_erase member).map figure), List.map_cons, total_cons]
    omega
  · rw [List.erase_of_not_mem member]
    exact Nat.le_add_right ..

end Word

/-! ### Lengths of chunks -/

namespace Space

variable {s : Space} {offsets : List Nat} {x length : Nat}

/-- Chunks lie apart and below `top`, so all of them together are no longer than that. -/
theorem Laid.total_le (laid : s.Laid) (nodup : offsets.Nodup)
    (chunks : ∀ offset ∈ offsets, offset ∈ s.chunks) :
    Word.total (offsets.map s.extent) ≤ s.top := by
  let stretch (offset : Nat) : Finset Nat := Finset.Ico offset (offset + s.extent offset)
  have apart : ∀ o ∈ offsets.toFinset, ∀ o' ∈ offsets.toFinset, o ≠ o' →
      Disjoint (stretch o) (stretch o') := by
    intro o here o' there different
    rw [List.mem_toFinset] at here there
    rw [Finset.disjoint_left]
    intro i inner inner'
    rw [Finset.mem_Ico] at inner inner'
    rcases laid.apart _ _ _ _ _ _ (piece_chunk (chunks o here)) (piece_chunk (chunks o' there)) with
      ⟨-, same⟩ | apart
    · exact different same
    · omega
  have within : offsets.toFinset.biUnion stretch ⊆ Finset.range s.top := by
    intro i member
    obtain ⟨o, here, inner⟩ := Finset.mem_biUnion.1 member
    have below := laid.below _ _ _ (piece_chunk (chunks o (List.mem_toFinset.1 here)))
    rw [Finset.mem_Ico] at inner
    rw [Finset.mem_range]
    omega
  have count := Finset.card_le_card within
  rw [Finset.card_biUnion apart, Finset.card_range] at count
  have each : ∀ o, (stretch o).card = s.extent o := fun o => by
    rw [Nat.card_Ico, Nat.add_sub_cancel_left]
  simp only [each] at count
  rwa [Word.total_eq_sum, ← List.sum_toFinset s.extent nodup]

/-- The bytes that the object at an address accounts for: what is usable, and the bookkeeping. -/
def charge (s : Space) (x : Nat) : Nat :=
  match s.usableSize? x with
  | .ok usable => usable.getD 0 + Size.chunkOverhead
  | .error _ => Size.chunkOverhead

end Space

/-! ### Ledgers -/

/-- What an arena records about its chunks and its objects. -/
structure Ledger where
  region : Region
  /-- The recorded length of the chunk at an offset. -/
  recorded : Nat → Option Nat
  bytes : Nat
  objects : Nat
  members : List Nat

namespace Ledger

variable {l l' : Ledger} {x length : Nat}

/-- The recorded length of the chunk of an object. -/
def charge (l : Ledger) (x : Nat) : Nat := (l.recorded (x - l.region.base)).getD 0

/-- Both counts are those of the members, each of which has a chunk. -/
structure Exact (l : Ledger) : Prop where
  large : ∀ offset length, l.recorded offset = some length → Size.minChunk ≤ length
  nodup : l.members.Nodup
  starts : ∀ x ∈ l.members, l.region.base ≤ x ∧ (l.recorded (x - l.region.base)).isSome = true
  objects : l.objects = l.members.length
  bytes : l.bytes = Word.total (l.members.map l.charge)

/-- Every chunk is that of a member. -/
def Full (l : Ledger) : Prop :=
  ∀ offset, (l.recorded offset).isSome = true → l.region.base + offset ∈ l.members

/-- Nothing was recorded so far. -/
structure Blank (l : Ledger) : Prop where
  recorded : ∀ offset, l.recorded offset = none
  bytes : l.bytes = 0
  objects : l.objects = 0
  members : l.members = []

theorem Blank.exact (blank : l.Blank) : l.Exact where
  large offset length found := by
    rw [blank.recorded] at found
    cases found
  nodup := blank.members ▸ List.nodup_nil
  starts := by
    rw [blank.members]
    exact fun _ none => absurd none List.not_mem_nil
  objects := by rw [blank.objects, blank.members, List.length_nil]
  bytes := by rw [blank.bytes, blank.members, List.map_nil, Word.total_nil]

theorem Blank.full (blank : l.Blank) : l.Full := by
  intro offset chunk
  rw [blank.recorded] at chunk
  cases chunk

/-- An object in a chunk of this length was entered. -/
structure Enters (l : Ledger) (x length : Nat) (l' : Ledger) : Prop where
  region : l'.region = l.region
  above : l.region.base ≤ x
  large : Size.minChunk ≤ length
  fresh : l.recorded (x - l.region.base) = none
  recorded : ∀ offset, l'.recorded offset
    = if offset = x - l.region.base then some length else l.recorded offset
  bytes : l'.bytes = l.bytes + length
  objects : l'.objects = l.objects + 1
  members : l'.members.Perm (x :: l.members)

theorem Enters.exact (enters : l.Enters x length l') (exact : l.Exact) : l'.Exact := by
  have other : ∀ y ∈ l.members, y - l.region.base ≠ x - l.region.base := by
    intro y member same
    have chunk := (exact.starts y member).2
    rw [same, enters.fresh] at chunk
    cases chunk
  have absent : x ∉ l.members := fun member => other x member rfl
  have own : l'.charge x = length := by
    rw [charge, enters.recorded, enters.region, if_pos rfl, Option.getD_some]
  have kept : l.members.map l'.charge = l.members.map l.charge := by
    refine List.map_congr_left fun y member => ?_
    rw [charge, enters.recorded, enters.region, if_neg (other y member), charge]
  refine ⟨fun offset found here => ?_, ?_, fun y member => ?_, ?_, ?_⟩
  · rw [enters.recorded] at here
    split at here
    · cases here
      exact enters.large
    · exact exact.large offset found here
  · exact enters.members.nodup_iff.2 (List.nodup_cons.2 ⟨absent, exact.nodup⟩)
  · rw [enters.region, enters.recorded]
    rcases List.mem_cons.1 (enters.members.mem_iff.1 member) with rfl | old
    · exact ⟨enters.above, by rw [if_pos rfl]; rfl⟩
    · rw [if_neg (other y old)]
      exact exact.starts y old
  · rw [enters.objects, exact.objects, enters.members.length_eq, List.length_cons]
  · rw [Word.total_of_perm (enters.members.map _), List.map_cons, Word.total_cons, own, kept,
      ← exact.bytes, enters.bytes, Nat.add_comm]

theorem Enters.full (enters : l.Enters x length l') (full : l.Full) : l'.Full := by
  intro offset chunk
  rw [enters.recorded] at chunk
  rw [enters.region, enters.members.mem_iff]
  split at chunk
  case isTrue here =>
    have above := enters.above
    have same : l.region.base + offset = x := by omega
    exact same ▸ List.mem_cons_self
  case isFalse => exact List.mem_cons_of_mem _ (full offset chunk)

/-- A member was taken out. Its chunk may stay on record, and all others do. -/
structure Leaves (l : Ledger) (x : Nat) (l' : Ledger) : Prop where
  region : l'.region = l.region
  others : ∀ offset, offset ≠ x - l.region.base → l'.recorded offset = l.recorded offset
  own : l'.recorded (x - l.region.base) = l.recorded (x - l.region.base)
    ∨ l'.recorded (x - l.region.base) = none
  bytes : l'.bytes = l.bytes - l.charge x
  objects : l'.objects = l.objects - 1
  members : l.members.Perm (x :: l'.members)

theorem Leaves.exact (leaves : l.Leaves x l') (exact : l.Exact) : l'.Exact := by
  have nodup := leaves.members.nodup_iff.1 exact.nodup
  obtain ⟨gone, nodup'⟩ := List.nodup_cons.1 nodup
  have member : ∀ y ∈ l'.members, y ∈ l.members :=
    fun y here => leaves.members.mem_iff.2 (List.mem_cons_of_mem _ here)
  have above := (exact.starts x (leaves.members.mem_iff.2 List.mem_cons_self)).1
  have other : ∀ y ∈ l'.members, y - l.region.base ≠ x - l.region.base := by
    intro y here same
    have above' := (exact.starts y (member y here)).1
    have equal : y = x := by omega
    exact gone (equal ▸ here)
  have kept : l'.members.map l'.charge = l'.members.map l.charge := by
    refine List.map_congr_left fun y here => ?_
    rw [charge, leaves.region, leaves.others _ (other y here), charge]
  refine ⟨fun offset length here => ?_, nodup', fun y here => ?_, ?_, ?_⟩
  · by_cases target : offset = x - l.region.base
    · subst target
      rcases leaves.own with same | none
      · exact exact.large _ length (same ▸ here)
      · rw [none] at here
        cases here
    · exact exact.large offset length (leaves.others offset target ▸ here)
  · rw [leaves.region, leaves.others _ (other y here)]
    exact exact.starts y (member y here)
  · rw [leaves.objects, exact.objects, leaves.members.length_eq, List.length_cons,
      Nat.add_sub_cancel]
  · rw [leaves.bytes, exact.bytes, Word.total_of_perm (leaves.members.map _), List.map_cons,
      Word.total_cons, Nat.add_sub_cancel_left, kept]

theorem Leaves.full (leaves : l.Leaves x l') (full : l.Full)
    (none : l'.recorded (x - l.region.base) = none) : l'.Full := by
  intro offset chunk
  have different : offset ≠ x - l.region.base := by
    rintro rfl
    rw [none] at chunk
    cases chunk
  rw [leaves.others offset different] at chunk
  have old := leaves.members.mem_iff.1 (full offset chunk)
  rw [leaves.region]
  rcases List.mem_cons.1 old with same | here
  · omega
  · exact here

/-- What one member accounts for is part of the bytes. -/
theorem Exact.charge_le (exact : l.Exact) (member : x ∈ l.members) :
    l.charge x ≤ l.bytes ∧ 1 ≤ l.objects := by
  obtain ⟨before, after, split⟩ := List.append_of_mem member
  have perm : l.members.Perm (x :: (before ++ after)) := split ▸ List.perm_middle
  constructor
  · rw [exact.bytes, Word.total_of_perm (perm.map _), List.map_cons, Word.total_cons]
    exact Nat.le_add_right _ _
  · rw [exact.objects, perm.length_eq, List.length_cons]
    exact Nat.le_add_left _ _

end Ledger

end ManagedHeap
