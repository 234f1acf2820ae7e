import Std.Data.ExtTreeMap
import Std.Data.ExtTreeSet

/-!
What the look-ups of an ordered map answer when they ask for the entry nearest to a key: the entry
on the side asked for that no other on that side comes before.
-/

namespace ManagedHeap

namespace Nearest

open Std

/-- In an ordered list the first element that passes a test is the one that comes before every other
that passes. -/
theorem find_eq_some_iff {α : Type} {before : α → α → Prop} {l : List α} {test : α → Bool} {a : α}
    (ordered : l.Pairwise before) (asymm : ∀ x y, before x y → ¬ before y x) :
    l.find? test = some a ↔ a ∈ l ∧ test a ∧ ∀ x ∈ l, test x → x = a ∨ before a x := by
  induction ordered with
  | nil => simp
  | @cons first rest first_before _ ih =>
    by_cases hit : test first
    · rw [List.find?_cons_of_pos hit, Option.some.injEq]
      constructor
      · rintro rfl
        exact ⟨List.mem_cons_self, hit, fun x member _ =>
          (List.mem_cons.1 member).imp_right (first_before x)⟩
      · rintro ⟨member, _, least⟩
        rcases List.mem_cons.1 member with same | later
        · exact same.symm
        · rcases least first List.mem_cons_self hit with same | earlier
          · exact same
          · exact absurd (first_before a later) (asymm _ _ earlier)
    · rw [List.find?_cons_of_neg hit, ih]
      grind

section Map

variable {β : Type} {t : ExtTreeMap Nat β} {bound key : Nat} {value : β}

/-- The entries come in increasing order of their keys. -/
theorem pairwise_toList : t.toList.Pairwise fun x y => x.1 < y.1 :=
  ExtTreeMap.ordered_keys_toList.imp Nat.compare_eq_lt.1

theorem pairwise_reverse_toList : t.toList.reverse.Pairwise fun x y => y.1 < x.1 :=
  List.pairwise_reverse.2 pairwise_toList

theorem getEntryLE_eq_find : t.getEntryLE? bound = t.toList.reverse.find? (·.1 ≤ bound) := by
  obtain ⟨⟨q⟩⟩ := t
  induction q using Quotient.ind with
  | _ m =>
    change DTreeMap.Internal.Impl.Const.getEntryLE? bound m.inner
      = (DTreeMap.Internal.Impl.Const.toList m.inner).reverse.find? _
    rw [DTreeMap.Internal.Impl.Const.getEntryLE?_eq_map,
      DTreeMap.Internal.Impl.getEntryLE?_eq_findRev? m.wf.ordered,
      DTreeMap.Internal.Impl.Const.toList_eq_toListModel_map,
      List.findRev?_eq_find?_reverse, ← List.map_reverse, List.find?_map]
    congr 2
    funext e
    rw [Bool.eq_iff_iff]
    simp [Nat.isLE_compare]

theorem getEntryLT_eq_find : t.getEntryLT? bound = t.toList.reverse.find? (·.1 < bound) := by
  obtain ⟨⟨q⟩⟩ := t
  induction q using Quotient.ind with
  | _ m =>
    change DTreeMap.Internal.Impl.Const.getEntryLT? bound m.inner
      = (DTreeMap.Internal.Impl.Const.toList m.inner).reverse.find? _
    rw [DTreeMap.Internal.Impl.Const.getEntryLT?_eq_map,
      DTreeMap.Internal.Impl.getEntryLT?_eq_findRev? m.wf.ordered,
      DTreeMap.Internal.Impl.Const.toList_eq_toListModel_map,
      List.findRev?_eq_find?_reverse, ← List.map_reverse, List.find?_map]
    congr 2
    funext e
    rw [Bool.eq_iff_iff]
    simp [Nat.compare_eq_lt]

theorem getEntryGE_eq_find : t.getEntryGE? bound = t.toList.find? (bound ≤ ·.1) := by
  obtain ⟨⟨q⟩⟩ := t
  induction q using Quotient.ind with
  | _ m =>
    change DTreeMap.Internal.Impl.Const.getEntryGE? bound m.inner
      = (DTreeMap.Internal.Impl.Const.toList m.inner).find? _
    rw [DTreeMap.Internal.Impl.Const.getEntryGE?_eq_map,
      DTreeMap.Internal.Impl.getEntryGE?_eq_find? m.wf.ordered,
      DTreeMap.Internal.Impl.Const.toList_eq_toListModel_map, List.find?_map]
    congr 2
    funext e
    rw [Bool.eq_iff_iff]
    simp [Nat.isGE_compare]

/-- The entry with the greatest key up to a bound. -/
theorem getEntryLE_eq_some_iff :
    t.getEntryLE? bound = some (key, value) ↔ t[key]? = some value ∧ key ≤ bound
      ∧ ∀ other entry, t[other]? = some entry → other ≤ bound → other ≤ key := by
  rw [getEntryLE_eq_find, find_eq_some_iff pairwise_reverse_toList (by grind)]
  simp only [List.mem_reverse, ExtTreeMap.mem_toList_iff_getElem?_eq_some, decide_eq_true_eq,
    Prod.forall, Prod.mk.injEq]
  grind

theorem getEntryLE_eq_none_iff :
    t.getEntryLE? bound = none ↔ ∀ other entry, t[other]? = some entry → bound < other := by
  rw [getEntryLE_eq_find, List.find?_eq_none]
  simp [ExtTreeMap.mem_toList_iff_getElem?_eq_some]

/-- The entry with the greatest key below a bound. -/
theorem getEntryLT_eq_some_iff :
    t.getEntryLT? bound = some (key, value) ↔ t[key]? = some value ∧ key < bound
      ∧ ∀ other entry, t[other]? = some entry → other < bound → other ≤ key := by
  rw [getEntryLT_eq_find, find_eq_some_iff pairwise_reverse_toList (by grind)]
  simp only [List.mem_reverse, ExtTreeMap.mem_toList_iff_getElem?_eq_some, decide_eq_true_eq,
    Prod.forall, Prod.mk.injEq]
  grind

theorem getEntryLT_eq_none_iff :
    t.getEntryLT? bound = none ↔ ∀ other entry, t[other]? = some entry → bound ≤ other := by
  rw [getEntryLT_eq_find, List.find?_eq_none]
  simp [ExtTreeMap.mem_toList_iff_getElem?_eq_some]

/-- The entry with the least key from a bound on. -/
theorem getEntryGE_eq_some_iff :
    t.getEntryGE? bound = some (key, value) ↔ t[key]? = some value ∧ bound ≤ key
      ∧ ∀ other entry, t[other]? = some entry → bound ≤ other → key ≤ other := by
  rw [getEntryGE_eq_find, find_eq_some_iff pairwise_toList (by grind)]
  simp only [ExtTreeMap.mem_toList_iff_getElem?_eq_some, decide_eq_true_eq,
    Prod.forall, Prod.mk.injEq]
  grind

theorem getEntryGE_eq_none_iff :
    t.getEntryGE? bound = none ↔ ∀ other entry, t[other]? = some entry → other < bound := by
  rw [getEntryGE_eq_find, List.find?_eq_none]
  simp [ExtTreeMap.mem_toList_iff_getElem?_eq_some]

end Map

section Set

variable {α : Type} [Ord α] [TransOrd α] {t : ExtTreeSet α} {bound least : α}

theorem getGE_eq_find : t.getGE? bound = t.toList.find? fun x => (compare x bound).isGE := by
  obtain ⟨⟨⟨q⟩⟩⟩ := t
  induction q using Quotient.ind with
  | _ m =>
    change DTreeMap.Internal.Impl.getKeyGE? bound m.inner
      = (DTreeMap.Internal.Impl.keys m.inner).find? _
    rw [DTreeMap.Internal.Impl.getKeyGE?_eq_getEntryGE?,
      DTreeMap.Internal.Impl.getEntryGE?_eq_find? m.wf.ordered,
      DTreeMap.Internal.Impl.keys_eq_keys, Std.Internal.List.keys_eq_map, List.find?_map]
    rfl

/-- The least member from a bound on. -/
theorem getGE_eq_some_iff [LawfulEqOrd α] :
    t.getGE? bound = some least ↔ least ∈ t ∧ (compare least bound).isGE
      ∧ ∀ other ∈ t, (compare other bound).isGE → other = least ∨ compare least other = .lt := by
  rw [getGE_eq_find, find_eq_some_iff ExtTreeSet.ordered_toList
    fun _ _ => OrientedCmp.not_lt_of_lt]
  simp only [ExtTreeSet.mem_toList]

theorem getGE_eq_none_iff [LawfulEqOrd α] :
    t.getGE? bound = none ↔ ∀ other ∈ t, compare other bound = .lt := by
  rw [getGE_eq_find, List.find?_eq_none]
  simp only [ExtTreeSet.mem_toList, Ordering.isGE_eq_false, Bool.not_eq_true]

end Set

end Nearest

end ManagedHeap
