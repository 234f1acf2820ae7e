import ManagedHeap.Marking.References
import ManagedHeap.Proofs.Actions

/-!
All that a step of a collection can do, told once for each step by the states that it can leave.
-/

namespace ManagedHeap

/-- The calls that a reference is due when it is let go. -/
def Source.due [ObjectModel] (s : Source) (kind : ReferenceKind) (reference : Nat) : ReferenceWork where
  clear := kind != .phantom && s.clearsItself reference
  enqueue := s.hasQueue reference

namespace Cycle

open Action

variable {c : Cycle} {x y : Nat} {done : Cycle → Prop} {failed : Failure → Cycle → Prop}

/-- An object gets a mark and goes on the stack, or nothing is done. Where it does not fit on the stack it
has its mark already. -/
theorem ends_mark (same : done c)
    (marked : ∀ {marks stack count}, c.marking.stack.push? x = some stack →
      done { c with marking := { c.marking with marks, stack, marked := count } })
    (full : ∀ marks count, c.marking.stack.push? x = none →
      failed (.fatal (.markStackOverflow c.marking.stack.capacity))
        { c with marking := { c.marking with marks, marked := count } }) :
    (mark x).Ends c (fun _ c' => done c') failed := by
  simp only [mark, ends_bind, ends_get]
  split
  case h_1 => exact ends_pure.2 same
  case h_2 =>
    split
    case isFalse => exact ends_pure.2 same
    case isTrue =>
      split
      case h_1 stack push => exact ends_set.2 (marked push)
      case h_2 push =>
        simp only [ends_bind, ends_set, ends_throw]
        exact full _ _ push

variable [ObjectModel]

omit [ObjectModel] in
theorem ends_takeTurn {done : Bool → Cycle → Prop}
    (counted : ∀ color, done (color % 2 == 1) { c with tables := { c.tables with color } })
    (overflow : ∀ cause : Defect, failed (.defect cause) c) : takeTurn.Ends c done failed := by
  simp only [takeTurn, modifyTables, ends_bind, ends_get, ends_lift, ends_modify, ends_pure]
  exact ⟨fun color _ => counted color, fun cause _ => overflow cause⟩

/-- The referent is marked where a call that the reference is due needs it, and the reference is cleared
where none does. -/
theorem ends_release {kind : ReferenceKind} {done : ReferenceWork → Cycle → Prop}
    (held : (if kind = .phantom then c.source.hasQueue x else c.source.clearsItself x) = true →
      (mark y).Ends c (fun _ c' => done (c.source.due kind x) c') failed)
    (cleared : (if kind = .phantom then c.source.hasQueue x else c.source.clearsItself x) = false →
      done (c.source.due kind x) { c with source := c.source.clearReferent x }) :
    (release x y kind).Ends c done failed := by
  have needs : (if kind = .phantom then c.source.hasQueue x
      else kind != .phantom && c.source.clearsItself x)
      = if kind = .phantom then c.source.hasQueue x else c.source.clearsItself x := by
    by_cases phantom : kind = .phantom <;> simp [phantom]
  simp only [release, needs, ends_bind, ends_get, ends_ite, ends_pure, ends_modify]
  exact ⟨held, fun free => cleared (Bool.eq_false_iff.2 free)⟩

omit [ObjectModel] in
/-- Calls are queued, where there are any, and the reference is scheduled with them. -/
theorem ends_queueWork {work : ReferenceWork} (nothing : work.isEmpty = true → done c)
    (full : failed (.fatal .referenceTableFull) c)
    (queued : ∀ {operations}, work.isEmpty = false → c.tables.operations.push? (x, work) = some operations →
      done { c with tables := { c.tables with operations }.schedule x }) :
    (queueWork x work).Ends c (fun _ c' => done c') failed := by
  unfold queueWork
  split
  case isTrue empty => exact ends_pure.2 (nothing empty)
  case isFalse some_work =>
    rw [ends_bind, ends_get]
    split
    case h_1 => exact ends_throw.2 full
    case h_2 operations push => exact ends_modify.2 (queued (Bool.eq_false_iff.2 some_work) push)

/-- A reference is passed over if its referent is gone or has a mark. Otherwise the referent of a soft
reference may be held when it is its turn, and any other reference is let go. Soft references are
counted before that where they take turns. -/
theorem ends_handleReference {kind : ReferenceKind} {policy : SoftPolicy}
    (bare : c.source.referent? x = none → done c)
    (kept : ∀ {y}, c.source.referent? x = some y → c.marking.isMarked y = true → done c)
    (overflow : ∀ cause : Defect, failed (.defect cause) c)
    (held : ∀ {y} color, c.source.referent? x = some y → c.marking.isMarked y = false →
      kind = .soft ∧ policy = .alternate →
      (mark y).Ends { c with tables := { c.tables with color } } (fun _ c' => done c') failed)
    (decided : ∀ {y} color, c.source.referent? x = some y → c.marking.isMarked y = false →
      (release x y kind).Ends { c with tables := { c.tables with color } }
        (fun work c₁ => (queueWork x work).Ends c₁ (fun _ c' => done c') failed) failed) :
    (handleReference kind policy x).Ends c (fun _ c' => done c') failed := by
  simp only [handleReference, ends_bind, ends_get]
  split
  case h_2 nothing =>
    exact ends_pure.2 (bare (Option.eq_none_iff_forall_ne_some.2 nothing))
  case h_1 y refers =>
    rw [ends_ite]
    refine ⟨fun marked => ends_pure.2 (kept refers marked), fun unmarked => ?_⟩
    rw [Bool.not_eq_true] at unmarked
    rw [ends_ite]
    refine ⟨fun turns => ?_, fun _ => ends_bind.2 (decided c.tables.color refers unmarked)⟩
    rw [ends_bind]
    refine ends_takeTurn (fun color => ?_) overflow
    rw [ends_ite]
    constructor
    · intro _
      simp only [ends_bind, ends_pure]
      exact held color refers unmarked turns
    · intro _
      rw [ends_bind]
      exact decided color refers unmarked

end Cycle

end ManagedHeap
