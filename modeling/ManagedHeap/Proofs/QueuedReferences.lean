import ManagedHeap.Object
import ManagedHeap.Proofs.LiveTables

/-!
References are queued once. A collection picks none that is scheduled, and a queued one stays scheduled
as long as it has a referent. One that has none is dropped by the next collection, and from then on all
rests with the program: if it gives the reference a referent before the calls are made, they are queued
again.
-/

namespace ManagedHeap

namespace Heap

section

variable [ObjectModel] {config : Config} {h h' : Heap}

/-- No queued reference that is no longer scheduled has a referent now. -/
def Respects (h h' : Heap) : Prop :=
  ∀ r ∈ h.queued, r ∉ h.tables.scheduled → h'.source.referent? r = none

instance (h h' : Heap) : Decidable (h.Respects h') :=
  inferInstanceAs (Decidable (∀ r ∈ h.queued, r ∉ h.tables.scheduled → h'.source.referent? r = none))

/-- A heap that comes to be by operations that come to their ends, where no write gives a referent to a
queued reference that is no longer scheduled. -/
inductive Careful (config : Config) : Heap → Prop where
  | create {h : Heap} : create config = .ok (.ok h) → Careful config h
  | step {h h' : Heap} {op : Operation} {result : Option Nat} : Careful config h →
    perform op h = .ok result h' → (op.isWrite = true → h.Respects h') → Careful config h'

/-- Do the operations come to their ends, and do the writes among them respect what is queued? -/
def proceeds (h : Heap) : List Operation → Bool
  | [] => true
  | op :: rest =>
    match perform op h with
    | .ok _ h' => (!op.isWrite || decide (h.Respects h')) && h'.proceeds rest
    | .error .. => false

theorem Careful.afterAll (careful : Careful config h) (ops : List Operation)
    (fine : h.proceeds ops = true) : Careful config (h.afterAll ops) := by
  induction ops generalizing h with
  | nil => exact careful
  | cons op rest ih =>
    rw [proceeds] at fine
    split at fine
    case h_2 => cases fine
    case h_1 result h' run =>
      rw [Bool.and_eq_true, Bool.or_eq_true, Bool.not_eq_true', decide_eq_true_iff] at fine
      have same : (perform op).after h = h' := by rw [Action.after, run]
      rw [Heap.afterAll, same]
      refine ih (careful.step run fun write => fine.1.resolve_left ?_) fine.2
      rw [write]
      exact Bool.noConfusion

/-- A write changes no table, and what it does to referents is respectful. -/
theorem Single.write (single : h.Single) {object index count value : Nat}
    (respects : h.Respects { h with source := h.source.setWords object index count value }) :
    Single { h with source := h.source.setWords object index count value } := by
  refine ⟨single.once, fun r due refers => ?_⟩
  by_contra dropped
  rw [respects r due dropped] at refers
  cases refers

theorem Careful.single (careful : Careful config h) : h.Tended ∧ h.Single := by
  induction careful with
  | create run =>
    obtain ⟨tended, tables⟩ := tended_create run
    refine ⟨tended, ?_, ?_⟩
    · rw [queued, tables]
      exact List.nodup_nil
    · rw [queued, tables]
      exact List.forall_mem_nil _
  | @step h h' op result _ run respects ih =>
    obtain ⟨tended, single⟩ := ih
    refine ⟨(perform_tended tended op).ok run, ?_⟩
    cases plain : op.isWrite with
    | false => exact ((tends_perform plain h tended).ok run).single single
    | true =>
      cases op with
      | write object index count value =>
        cases run
        exact single.write (respects rfl)
      | _ => cases plain

/-- As long as programs respect what is queued no reference is queued twice, neither between operations
nor where one of them breaks off. -/
theorem Careful.queued_once (careful : Careful config h) :
    h.queued.Nodup ∧ ∀ op, ((perform op).after h).queued.Nodup := by
  obtain ⟨tended, single⟩ := careful.single
  refine ⟨single.once, fun op => ?_⟩
  cases plain : op.isWrite with
  | false =>
    exact (tends_perform plain h tended).after (·.queued.Nodup)
      (fun _ _ tidy => (tidy.single single).once) fun _ _ halted => halted.once single
  | true =>
    cases op with
    | write => exact single.once
    | _ => cases plain

end

/-- The first of two objects is a root and a weak reference with a queue, and nothing holds the other,
which it refers to. It is queued by the first of two collections, and dropped by the second. -/
def droppedReference : List Operation :=
  let reference := Region.arenaBase 0
  let referent := reference + 32
  [.attach 0 "main", .request 0 24 {}, .request 0 24 { untracked := true },
    .write reference 0 1 (Tag.make (some .weak) false true false 0),
    .write reference Object.referentWord 1 referent, .collect false, .collect false]

theorem dropped_queued_once :
    (small.afterAll droppedReference).queued = [Region.arenaBase 0]
      ∧ (small.afterAll droppedReference).tables.scheduled = []
      ∧ ∀ op, ((perform op).after (small.afterAll droppedReference)).queued.Nodup := by
  have careful : Careful smallConfig small := .create rfl
  refine ⟨by decide +kernel, by decide +kernel, ?_⟩
  exact ((careful.afterAll droppedReference (by decide +kernel)).queued_once).2

/-- A new referent has the reference found once more, while the call of its queue is still to be made. -/
example :
    let revived := [.request 0 24 { untracked := true },
      .write (Region.arenaBase 0) Object.referentWord 1 (Region.arenaBase 0 + 32), .collect false]
    (small.afterAll (droppedReference ++ revived)).queued
      = [Region.arenaBase 0, Region.arenaBase 0] := by
  decide +kernel

end Heap

end ManagedHeap
