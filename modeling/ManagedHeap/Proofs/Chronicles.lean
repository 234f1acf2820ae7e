import ManagedHeap.Heap.Chronicle
import ManagedHeap.Proofs.HeapRuns
import ManagedHeap.Proofs.Simulations

/-!
That a chronicle follows its heap: what is done to the heap, and what is answered, is the same as
without anything written down.
-/

namespace ManagedHeap

namespace Chronicle

open Action

variable {α β γ δ : Type} {c c' : Chronicle}

/-! ### Leaving out what is written down -/

/-- The heap fares as with the action `b`, and what is answered agrees by way of `view`. -/
def Erases (view : α → β) (a : Action Chronicle α) (b : Action Heap β) : Prop :=
  ∀ c, a.Ends c (fun value c' => b c.heap = .ok (view value) c'.heap)
    fun cause c' => b c.heap = .error cause c'.heap

theorem Erases.then {view : α → β} {view' : γ → δ} {a : Action Chronicle α} {b : Action Heap β}
    {next : α → Action Chronicle γ} {next' : β → Action Heap δ} (first : Erases view a b)
    (rest : ∀ value, Erases view' (next value) (next' (view value))) :
    Erases view' (a >>= next) (b >>= next') := Projects.then first rest

theorem Erases.map {view : α → β} {view' : γ → β} {a : Action Chronicle α} {b : Action Heap β}
    (erases : Erases view a b) {change : α → γ} (same : ∀ value, view' (change value) = view value) :
    Erases view' (change <$> a) b := Projects.map erases same

theorem erases_within (a : Action Heap α) : Erases id (within a) a :=
  projects_on (fun _ _ => rfl) a

theorem erases_pure (value : α) : Erases id (pure value) (pure value) := projects_pure value

theorem Erases.noted {view : α → β} {a : Action Chronicle α} {b : Action Heap β}
    (erases : Erases view a b) (happening : Chronicle → Happening) :
    Erases view (do modify fun c => c.note (happening c); a) b :=
  Projects.besides erases fun _ => rfl

theorem erases_review : Erases id review (modify Heap.sizeChanged) :=
  (erases_within _).noted fun c => .review c.heap

/-- An action on the arenas after which the size is looked at. -/
theorem erases_reviewed (a : Action Source α) :
    Erases id (do
      let value ← within (Heap.onSource a)
      review
      return value) (do
      let value ← Heap.onSource a
      modify Heap.sizeChanged
      return value) :=
  (erases_within _).then fun value => erases_review.then fun _ => erases_pure value

theorem silent_eq {b : Action Heap α} {h h' : Heap} {value : α} (run : b h = .ok value h') :
    Heap.silent b h = .ok none h' := bind_of_ok run

theorem silent_error {b : Action Heap α} {h h' : Heap} {cause : Failure}
    (run : b h = .error cause h') : Heap.silent b h = .error cause h' := bind_of_error run

/-- An answer that tells of no object. -/
theorem erases_silent {a : Action Chronicle α} {b : Action Heap α} (erases : Erases id a b)
    {answer : α → Answer} (none : ∀ value, (answer value).object? = none) :
    Erases Answer.object? (answer <$> a) (Heap.silent b) := by
  intro c
  rw [ends_map]
  refine (erases c).imp (fun value c' run => ?_) fun _ _ run => silent_error run
  rw [none value]
  exact silent_eq run

/-- A step that is silent anyway. -/
theorem erases_done (b : Action Heap α) :
    Erases Answer.object? ((fun _ => .done) <$> within (Heap.silent b)) (Heap.silent b) := by
  intro c
  rw [ends_map]
  refine (erases_within (Heap.silent b) c).mono fun value c' run => ?_
  cases ran : b c.heap with
  | ok => exact (silent_eq ran).trans (by cases (silent_eq ran).symm.trans run; rfl)
  | error => cases (silent_error ran).symm.trans run

section

variable [ObjectModel]

theorem ends_runCycle {soft : Bool} {done : Nat × Nat → Chronicle → Prop}
    {failed : Failure → Chronicle → Prop} : (runCycle soft).Ends c done failed
      ↔ (Heap.runCycle soft).Ends c.heap
        (fun freed h => done freed ({ c with heap := h }.note (.phases soft c.heap (some freed) h)))
        fun cause h => failed cause ({ c with heap := h }.note (.phases soft c.heap none h)) := by
  cases run : Heap.runCycle soft c.heap with
  | ok freed h =>
    have noted : runCycle soft c
        = .ok freed ({ c with heap := h }.note (.phases soft c.heap (some freed) h)) := by
      rw [runCycle, run]
    rw [ends_of_ok run, ends_of_ok noted]
  | error cause h =>
    have noted : runCycle soft c
        = .error cause ({ c with heap := h }.note (.phases soft c.heap none h)) := by
      rw [runCycle, run]
    rw [ends_of_error run, ends_of_error noted]

theorem erases_runCycle (soft : Bool) : Erases id (runCycle soft) (Heap.runCycle soft) :=
  fun _ => ends_runCycle.2 ⟨id, id⟩

theorem erases_collect (soft : Bool) : Erases id (collect soft) (Heap.collect soft) := by
  refine (erases_within _).then fun h => ?_
  dsimp only [id]
  split
  · exact erases_pure ()
  · exact (erases_within _).then fun _ => (erases_within _).then fun _ => (erases_within _).then
      fun _ => (erases_runCycle soft).then fun freed => (erases_within _).then fun _ =>
      erases_review.then fun _ => erases_within _

theorem erases_collectFor (record : Nat) (soft : Bool) :
    Erases id (collectFor record soft) (Heap.collectFor record soft) := by
  refine (erases_within _).then fun h => ?_
  dsimp only [id]
  split
  · exact (erases_within _).then fun _ => erases_collect soft
  · exact erases_collect soft

omit [ObjectModel] in
theorem erases_allocGrowing (size : Nat) : Erases id (allocGrowing size) (Heap.allocGrowing size) :=
  erases_reviewed _

theorem erases_findRoom (record size : Nat) :
    Erases id (findRoom record size) (Heap.findRoom record size) := by
  refine (erases_within _).then fun h => ?_
  dsimp only [id]
  split
  · exact erases_pure _
  refine (erases_within _).then fun object => ?_
  cases object with
  | some x => exact erases_pure _
  | none =>
    refine (erases_collectFor record false).then fun _ => (erases_within _).then fun object => ?_
    cases object with
    | some x => exact erases_pure _
    | none =>
      refine (erases_allocGrowing size).then fun object => ?_
      cases object with
      | some x => exact erases_pure _
      | none => exact (erases_collectFor record true).then fun _ => erases_allocGrowing size

theorem erases_request (record size : Nat) (flags : AllocFlags) :
    Erases id (request record size flags) (Heap.request record size flags) := by
  refine (erases_within _).then fun h => (erases_findRoom record size).then fun object => ?_
  cases object with
  | none => exact (erases_within _).then fun _ => erases_pure _
  | some x =>
    refine Erases.noted ?_ fun c => .allocated x c.heap
    exact (erases_within _).then fun _ => (erases_within _).then fun _ => erases_pure _

theorem erases_chargeExternal (record n : Nat) :
    Erases id (chargeExternal record n) (Heap.chargeExternal record n) := by
  refine (erases_within _).then fun done => ?_
  cases done with
  | true => exact erases_pure _
  | false =>
    refine (erases_collectFor record false).then fun _ => (erases_within _).then fun done => ?_
    cases done with
    | true => exact erases_pure _
    | false =>
      refine (erases_reviewed _).then fun done => ?_
      cases done with
      | true => exact erases_pure _
      | false => exact (erases_collectFor record true).then fun _ => erases_reviewed _

theorem erases_findExternalRoom (record n : Nat) :
    Erases id (findExternalRoom record n) (Heap.findExternalRoom record n) := by
  have charged : Erases id (do
      if ← chargeExternal record n then return .ok ()
      return .error (.externalOutOfMemory n) : Action Chronicle (Except HeapError Unit)) (do
      if ← Heap.chargeExternal record n then return .ok ()
      return .error (.externalOutOfMemory n)) := by
    refine (erases_chargeExternal record n).then fun done => ?_
    cases done <;> exact erases_pure _
  refine (erases_within (do (← get).source.externalPossible n)).then fun possible => ?_
  cases possible with
  | true => exact charged
  | false =>
    refine (erases_collectFor record false).then fun _ => (erases_within _).then fun _ =>
      (erases_within (do (← get).source.externalPossible n)).then fun possible => ?_
    cases possible with
    | true => exact charged
    | false => exact erases_pure _

theorem erases_requestExternal (record n : Nat) :
    Erases id (requestExternal record n) (Heap.requestExternal record n) :=
  (erases_findExternalRoom record n).then fun _ => (erases_within _).then fun _ =>
    (erases_within _).then fun _ => erases_pure _

/-- A step does to the heap what it does without a chronicle, and answers the same object. -/
theorem erases_perform (op : Heap.Operation) :
    Erases Answer.object? (perform op) (Heap.perform op) := by
  cases op with
  | request record size flags =>
    exact (erases_request record size flags).map fun _ => rfl
  | collect soft => exact erases_silent (erases_collect soft) fun _ => rfl
  | requestExternal record n => exact erases_silent (erases_requestExternal record n) fun _ => rfl
  | setMinimum size => exact erases_silent (erases_reviewed _) fun _ => rfl
  | freeExternal | trim | beforeFork | afterZygote | attach | takeWork =>
    exact erases_silent (erases_within _) fun _ => rfl
  | _ => exact erases_done _

end

/-! ### Looking for room -/

section

variable [ObjectModel] {record size n : Nat} {failed : Failure → Chronicle → Prop}

/-- As long as nothing is found, attempts and collections follow each other. What is found is answered at
once. -/
theorem ends_findRoom {found : Option Nat → Chronicle → Prop}
    (allocs : ∀ {c}, found none c → (within (Heap.onSource (Source.alloc size))).Ends c found failed)
    (grows : ∀ {c}, found none c → (allocGrowing size).Ends c found failed)
    (collects : ∀ soft {c}, found none c →
      (collectFor record soft).Ends c (fun _ c' => found none c') failed) (begun : found none c) :
    (findRoom record size).Ends c found failed := by
  rw [findRoom, ends_bind, within, ends_on, ends_get]
  split
  case isTrue => exact ends_pure.2 begun
  case isFalse =>
    refine ends_attempt (allocs begun) (fun _ => rfl) fun first => ?_
    rw [ends_bind]
    refine (collects false first).mono fun _ _ hard => ?_
    refine ends_attempt (allocs hard) (fun _ => rfl) fun second => ?_
    refine ends_attempt (grows second) (fun _ => rfl) fun third => ?_
    rw [ends_bind]
    exact (collects true third).mono fun _ _ soft => grows soft

variable {p : Chronicle → Prop}
  (charges : ∀ {c}, p c →
    (within (Heap.onSource (Source.externalAlloc n false))).Ends c (fun _ c' => p c') failed)
  (grows : ∀ {c}, p c → (growExternal n).Ends c (fun _ c' => p c') failed)
  (collects : ∀ soft {c}, p c → (collectFor record soft).Ends c (fun _ c' => p c') failed)

include charges grows collects

/-- What attempts and collections keep up is kept up however the memory comes to be counted. -/
theorem ends_chargeExternal (holds : p c) :
    (chargeExternal record n).Ends c (fun _ c' => p c') failed := by
  rw [chargeExternal]
  refine ends_unless (charges holds) rfl fun first => ?_
  rw [if_neg Bool.false_ne_true, ends_bind]
  refine (collects false first).mono fun _ _ hard => ?_
  refine ends_unless (charges hard) rfl fun second => ?_
  refine ends_unless (grows second) rfl fun third => ?_
  rw [if_neg Bool.false_ne_true, ends_bind]
  exact (collects true third).mono fun _ _ soft => grows soft

theorem ends_findExternalRoom
    (looks : ∀ {c}, p c → (externalPossible n).Ends c (fun _ c' => p c') failed)
    (shrinks : ∀ {c}, p c → (within (Heap.onSource Source.shrinkToIdeal)).Ends c (fun _ c' => p c') failed)
    (holds : p c) : (findExternalRoom record n).Ends c (fun _ c' => p c') failed := by
  have charged : ∀ {c}, p c → Ends (do
      if ← chargeExternal record n then return .ok ()
      return .error (.externalOutOfMemory n) : Action Chronicle (Except HeapError Unit)) c
      (fun _ c' => p c') failed := by
    intro c holds
    rw [ends_bind]
    refine (ends_chargeExternal charges grows collects holds).mono fun done c' kept => ?_
    cases done <;> exact ends_pure.2 kept
  rw [findExternalRoom, ends_bind]
  refine (looks holds).mono fun possible c₁ looked => ?_
  cases possible with
  | true => exact charged looked
  | false =>
    rw [Bool.not_false, if_pos rfl, ends_bind]
    refine (collects false looked).mono fun _ c₂ collected => ?_
    rw [ends_bind]
    refine (shrinks collected).mono fun _ c₃ shrunk => ?_
    rw [ends_bind]
    refine (looks shrunk).mono fun possible c₄ looked => ?_
    cases possible with
    | true => exact charged looked
    | false => exact ends_pure.2 looked

end

end Chronicle

end ManagedHeap
