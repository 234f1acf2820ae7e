import ManagedHeap.Heap.Collection
import ManagedHeap.Proofs.CycleCases

/-!
What a collection keeps up. All that its phases do is to change marks and tables, to clear and to free; a
condition that none of these changes harms holds wherever a collection comes to.
-/

namespace ManagedHeap

namespace Cycle

open Action

variable {p : Cycle → Prop}

/-! ### Marking -/

/-- The condition is not about marks. -/
def IgnoresMarks (p : Cycle → Prop) : Prop := ∀ c marking, p c → p { c with marking }

theorem IgnoresMarks.modifyMarking (ignores : IgnoresMarks p) (change : Marking → Marking) :
    (modifyMarking change).Preserves p := preserves_modify fun c => ignores c _

theorem IgnoresMarks.mark (ignores : IgnoresMarks p) (x : Nat) : (mark x).Preserves p := fun c holds =>
  ends_mark holds (fun _ => ignores c _ holds) fun _ _ _ => ignores c _ holds

theorem IgnoresMarks.markAll (ignores : IgnoresMarks p) (objects : List Nat) :
    (markAll objects).Preserves p := by
  induction objects with
  | nil => exact preserves_pure ()
  | cons x rest ih => exact (ignores.mark x).then fun _ => ih

theorem IgnoresMarks.latch (ignores : IgnoresMarks p) : latch.Preserves p :=
  preserves_get fun c holds =>
    ((ignores.modifyMarking _).then fun _ => preserves_pure _) c holds

section

variable [ObjectModel]

theorem IgnoresMarks.visit (ignores : IgnoresMarks p) (x : Nat) : (visit x).Preserves p := by
  refine preserves_get fun c holds => ((ignores.markAll _).then fun _ => ?_) c holds
  refine preserves_get fun c holds => ?_
  split
  · split
    · exact ignores.mark _ c holds
    · split
      · exact ignores.mark _ c holds
      · exact ignores.modifyMarking _ c holds
  · exact ends_pure.2 holds

theorem IgnoresMarks.scanUpTo (ignores : IgnoresMarks p) (budget : Nat) :
    (scanUpTo budget).Preserves p := by
  induction budget with
  | zero => exact preserves_pure ()
  | succ budget ih =>
    refine preserves_get fun c holds => ?_
    split
    · exact ends_pure.2 holds
    · rw [ends_bind, ends_set]
      exact ((ignores.visit _).then fun _ => ih) _ (ignores c _ holds)

theorem IgnoresMarks.scan (ignores : IgnoresMarks p) : scan.Preserves p :=
  preserves_get fun c holds => ignores.scanUpTo _ c holds

end

/-! ### Tables -/

/-- The condition is not about tables. -/
def IgnoresTables (p : Cycle → Prop) : Prop := ∀ c tables, p c → p { c with tables }

theorem IgnoresTables.modifyTables (ignores : IgnoresTables p) (change : WorkTables → WorkTables) :
    (modifyTables change).Preserves p := preserves_modify fun c => ignores c _

theorem IgnoresTables.takeTurn (ignores : IgnoresTables p) : takeTurn.Preserves p := fun c holds =>
  ends_takeTurn (fun _ => ignores c _ holds) fun _ => holds

theorem IgnoresTables.queueWork (ignores : IgnoresTables p) (x : Nat) (work : ReferenceWork) :
    (queueWork x work).Preserves p := fun c holds =>
  ends_queueWork (fun _ => holds) holds fun _ _ => ignores c _ holds

section

variable (ignores : IgnoresTables p)
  (freed : ∀ x, Preserves p (Action.on Cycle.source (fun c source => { c with source }) (Source.free x)))
include ignores freed

theorem IgnoresTables.freeEach (bytes : Nat) (garbage : List Nat) :
    (freeEach bytes garbage).Preserves p := by
  induction garbage generalizing bytes with
  | nil => exact preserves_pure bytes
  | cons x rest ih =>
    exact (freed x).then fun more => (ignores.modifyTables _).then fun _ => ih _

theorem IgnoresTables.sweep : sweep.Preserves p := by
  have each : ∀ pairs, (sweepEach pairs).Preserves p := by
    intro pairs
    induction pairs with
    | nil => exact preserves_pure _
    | cons first rest ih =>
      exact preserves_get fun c holds => ((preserves_lift _).then fun _ =>
        (ignores.freeEach freed 0 _).then fun _ => ih.then fun _ => preserves_pure _) c holds
  exact preserves_get fun c holds => each _ c holds

end

theorem preserves_finish : finish.Preserves p :=
  preserves_get fun _ holds => ends_require.2 ⟨fun _ => holds, fun _ => holds⟩

/-! ### All phases -/

variable [ObjectModel]

/-- None of the changes that a collection makes before its sweep harms the condition. -/
structure Bears (p : Cycle → Prop) : Prop where
  marking : IgnoresMarks p
  tables : IgnoresTables p
  cleared : ∀ c x, p c → p { c with source := c.source.clearReferent x }
  decided : ∀ c, p c → p { c with softDecided := true }

/-- None of the changes that a collection makes harms the condition. -/
structure Withstands (p : Cycle → Prop) : Prop extends Bears p where
  freed : ∀ x, Preserves p (Action.on Cycle.source (fun c source => { c with source }) (Source.free x))

theorem Bears.release (bears : Bears p) (x referent : Nat) (kind : ReferenceKind) :
    (release x referent kind).Preserves p := fun c holds =>
  ends_release (fun _ => bears.marking.mark referent c holds) fun _ => bears.cleared c x holds

theorem Bears.handleReference (bears : Bears p) (kind : ReferenceKind)
    (policy : SoftPolicy) (x : Nat) : (handleReference kind policy x).Preserves p := by
  intro c holds
  have counted : ∀ color, p { c with tables := { c.tables with color } } := fun _ => bears.tables c _ holds
  apply ends_handleReference
  case bare => exact fun _ => holds
  case kept => exact fun _ _ => holds
  case overflow => exact fun _ => holds
  case held => exact fun color _ _ _ => bears.marking.mark _ _ (counted color)
  case decided =>
    intro y color _ _
    exact (bears.release x y kind _ (counted color)).mono fun work c' => bears.tables.queueWork x work c'

theorem Bears.handleReferences (bears : Bears p) (kind : ReferenceKind)
    (policy : SoftPolicy) (references : List Nat) :
    (handleReferences kind policy references).Preserves p := by
  have each : (handleEach kind policy references).Preserves p := by
    induction references with
    | nil => exact preserves_pure ()
    | cons x rest ih => exact (bears.handleReference kind policy x).then fun _ => ih
  exact each.then fun _ => bears.marking.scan

theorem Bears.handleSoft (bears : Bears p) (policy : SoftPolicy)
    (references : List Nat) : (handleSoft policy references).Preserves p := by
  unfold Cycle.handleSoft
  split
  · exact preserves_pure ()
  · exact (bears.handleReferences .soft policy references).then fun _ =>
      preserves_modify bears.decided

theorem Bears.makePending (bears : Bears p) (objects : List Nat) :
    (makePending objects).Preserves p := by
  induction objects with
  | nil => exact preserves_pure ()
  | cons x rest ih =>
    refine preserves_get fun c holds => ?_
    split
    · exact ends_throw.2 holds
    · exact ((bears.tables.modifyTables _).then fun _ => (bears.marking.mark x).then
        fun _ => ih) c holds

theorem Bears.scheduleFinalizations (bears : Bears p) :
    scheduleFinalizations.Preserves p :=
  preserves_get fun c holds => ((bears.tables.modifyTables _).then fun _ =>
    (bears.makePending _).then fun _ => bears.marking.scan.then
      fun _ => preserves_pure _) c holds

/-- What comes after soft references were decided on. -/
theorem Bears.remainder (bears : Bears p) (policy : SoftPolicy)
    (found : FoundReferences) : Preserves p (do
      Cycle.handleReferences ReferenceKind.weak policy found.weak
      let _ ← Cycle.scheduleFinalizations
      Cycle.handleReferences ReferenceKind.phantom policy found.phantom) :=
  (bears.handleReferences .weak policy _).then fun _ =>
    bears.scheduleFinalizations.then fun _ => bears.handleReferences .phantom policy _

theorem Bears.trace (bears : Bears p) (roots : List Nat) (policy : SoftPolicy) :
    (trace roots policy).Preserves p :=
  (bears.marking.markAll roots).then fun _ => (bears.marking.modifyMarking _).then
    fun _ => bears.marking.scan.then fun _ => bears.marking.latch.then fun found =>
      (bears.handleSoft policy found.soft).then fun _ => bears.remainder policy found

theorem Withstands.sweep (withstands : Withstands p) : sweep.Preserves p :=
  IgnoresTables.sweep withstands.tables withstands.freed

theorem Withstands.run (withstands : Withstands p) (roots : List Nat) (policy : SoftPolicy) :
    (run roots policy).Preserves p :=
  (withstands.trace roots policy).then fun _ => withstands.sweep.then fun _ =>
    preserves_finish.then fun _ => preserves_pure _

end Cycle

end ManagedHeap
