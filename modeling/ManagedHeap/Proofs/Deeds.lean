import ManagedHeap.Heap.Deeds
import ManagedHeap.Proofs.Simulations

/-!
That a collection fares the same whether or not its deeds are written down.
-/

namespace ManagedHeap

namespace Recorded

open Action

variable {α β γ : Type}

/-- The collection fares as with the action `b`, which answers the same. -/
abbrev Erases (a : Action Recorded α) (b : Action Cycle α) : Prop :=
  Projects Recorded.cycle id a b

theorem erases_within (a : Action Cycle α) : Erases (within a) a := projects_on (fun _ _ => rfl) a

theorem Erases.noted {a : Action Recorded α} {b : Action Cycle α} (erases : Erases a b) (deed : Deed) :
    Erases (do modify (·.note deed); a) b := Projects.besides erases fun _ => rfl

theorem erases_mark (x : Nat) : Erases (mark x) (Cycle.mark x) := by
  refine (erases_within get).then fun c => ?_
  dsimp only [id]
  cases c.marking.live.findIdx? fun number => (c.source.bitmap number).mayContain x with
  | none => exact projects_pure ()
  | some i =>
    refine Projects.ite (Erases.noted ?_ _) (projects_pure ())
    cases c.marking.stack.push? x with
    | none => exact (erases_within _).then fun _ => projects_throw _
    | some stack => exact (erases_within _).noted _

theorem erases_markAll (objects : List Nat) : Erases (markAll objects) (Cycle.markAll objects) := by
  induction objects with
  | nil => exact projects_pure ()
  | cons x rest ih => exact (erases_mark x).then fun _ => ih

theorem erases_makePending (objects : List Nat) :
    Erases (makePending objects) (Cycle.makePending objects) := by
  induction objects with
  | nil => exact projects_pure ()
  | cons x rest ih =>
    refine (erases_within get).then fun c => ?_
    dsimp only [id]
    cases c.tables.pending.push? x with
    | none => exact Projects.throw _
    | some pending => exact (erases_within _).then fun _ => (erases_mark x).then fun _ => ih

variable [ObjectModel]

theorem erases_visit (x : Nat) : Erases (visit x) (Cycle.visit x) := by
  refine Erases.noted ?_ _
  refine (erases_within get).then fun _ => (erases_markAll _).then fun _ =>
    (erases_within get).then fun c => ?_
  dsimp only [id]
  cases c.source.kind? x with
  | none => exact projects_pure ()
  | some kind =>
    cases c.source.referent? x with
    | none => exact projects_pure ()
    | some referent =>
      refine Projects.ite (erases_mark referent) (Projects.ite (erases_mark referent) ?_)
      exact (erases_within _).noted _

theorem erases_scanUpTo (budget : Nat) : Erases (scanUpTo budget) (Cycle.scanUpTo budget) := by
  induction budget with
  | zero => exact projects_pure ()
  | succ budget ih =>
    refine (erases_within get).then fun c => ?_
    dsimp only [id]
    cases c.marking.stack.pop? with
    | none => exact projects_pure ()
    | some top => exact (erases_within _).then fun _ => (erases_visit _).then fun _ => ih

theorem erases_scan : Erases scan Cycle.scan := (erases_within get).then fun _ => erases_scanUpTo _

theorem erases_release (x referent : Nat) (kind : ReferenceKind) :
    Erases (release x referent kind) (Cycle.release x referent kind) := by
  refine (erases_within get).then fun c => ?_
  dsimp only [id]
  generalize (if kind = .phantom then _ else _ : Bool) = needed
  cases needed with
  | true => exact (erases_mark referent).then fun _ => projects_pure _
  | false => exact (erases_within _).then fun _ => projects_pure _

theorem erases_handleReference (kind : ReferenceKind) (policy : SoftPolicy) (x : Nat) :
    Erases (handleReference kind policy x) (Cycle.handleReference kind policy x) := by
  have decides : ∀ referent, Erases
      (do
        let work ← release x referent kind
        within (Cycle.queueWork x work))
      (do Cycle.queueWork x (← Cycle.release x referent kind)) :=
    fun referent => (erases_release x referent kind).then fun _ => erases_within _
  refine (erases_within get).then fun c => ?_
  dsimp only [id]
  cases c.source.referent? x with
  | none => exact projects_pure ()
  | some referent =>
    refine Projects.ite (projects_pure ()) (Projects.ite ?_ (decides referent))
    refine (erases_within _).then fun mine => ?_
    exact Projects.ite ((erases_mark referent).then fun _ => projects_pure ()) (decides referent)

theorem erases_handleEach (kind : ReferenceKind) (policy : SoftPolicy) (references : List Nat) :
    Erases (handleEach kind policy references) (Cycle.handleEach kind policy references) := by
  induction references with
  | nil => exact projects_pure ()
  | cons x rest ih => exact (erases_handleReference kind policy x).then fun _ => ih

theorem erases_handleReferences (kind : ReferenceKind) (policy : SoftPolicy) (references : List Nat) :
    Erases (handleReferences kind policy references) (Cycle.handleReferences kind policy references) :=
  (erases_handleEach kind policy references).then fun _ => erases_scan

theorem erases_handleSoft (policy : SoftPolicy) (references : List Nat) :
    Erases (handleSoft policy references) (Cycle.handleSoft policy references) := by
  unfold handleSoft Cycle.handleSoft
  split
  · exact projects_pure ()
  · exact (erases_handleReferences .soft policy references).then fun _ => erases_within _

theorem erases_scheduleFinalizations :
    Erases scheduleFinalizations Cycle.scheduleFinalizations :=
  (erases_within get).then fun _ => (erases_within _).then fun _ =>
    (erases_makePending _).then fun _ => erases_scan.then fun _ => projects_pure _

theorem erases_trace (roots : List Nat) (policy : SoftPolicy) :
    Erases (trace roots policy) (Cycle.trace roots policy) :=
  (erases_markAll roots).then fun _ => (erases_within _).then fun _ => erases_scan.then fun _ =>
    (erases_within Cycle.latch).then fun _ => (erases_handleSoft policy _).then fun _ =>
    (erases_handleReferences .weak policy _).then fun _ => erases_scheduleFinalizations.then fun _ =>
    erases_handleReferences .phantom policy _

/-- A collection does what it does without its deeds being written down, and answers the same. -/
theorem erases_run (roots : List Nat) (policy : SoftPolicy) :
    Erases (run roots policy) (Cycle.run roots policy) :=
  (erases_trace roots policy).then fun _ => erases_within _

end Recorded

end ManagedHeap
