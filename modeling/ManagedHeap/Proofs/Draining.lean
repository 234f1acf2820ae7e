import ManagedHeap.Heap.Calls
import ManagedHeap.Proofs.LiveCalls
import ManagedHeap.Proofs.MakingRoom

/-!
Draining the pending work without a worker. Every call that is due is made once and in its order, whether
the calls before it failed or not, and what the thread tracked it tracks again afterwards.
-/

namespace ManagedHeap

/-! ### Tracking for a while -/

namespace Bag

theorem removeInOrder_push (b : Bag) (object : Nat) : (b.push object).removeInOrder? object = some b := by
  have member : object ∈ (b.push object).latest := List.mem_cons_self
  obtain ⟨latest, size, size_eq⟩ := b
  rw [removeInOrder?, dif_pos member]
  simp [push]

end Bag

namespace Safepoint

/-- What was tracked last is dropped first, and all else is as before. -/
theorem untrack_track (s : Safepoint) (record object : Nat) :
    ((s.track record object).untrack? record object).getD (s.track record object) = s := by
  cases known : s.records[record]? with
  | none =>
    have same : s.track record object = s := by
      rw [track, modify, List.modify_eq_self (by simpa using known)]
    have none : s.trackedBy record = {} := by
      rw [trackedBy, record?, known]
    rw [same, untrack?, none]
    rfl
  | some found =>
    have tracked : (s.track record object).trackedBy record = found.tracked.push object := by
      rw [trackedBy, record?, track, modify, List.getElem?_modify_eq, known]
      rfl
    rw [untrack?, tracked, Bag.removeInOrder_push]
    have back : (s.records.modify record fun r => { r with tracked := r.tracked.push object }).modify
        record (fun r => { r with tracked := found.tracked }) = s.records := by
      rw [List.modify_modify_eq]
      apply List.ext_getElem?
      intro i
      rw [List.getElem?_modify]
      by_cases same : record = i
      · subst same
        rw [known]
        simp
      · simp [same]
    simp only [Option.map_some, Option.getD_some, modify, track, back]

end Safepoint

/-! ### Calls that stay out of the heap -/

/-- What is left alone where no work is queued and the heap is not entered. -/
structure Heap.Unentered (h h' : Heap) : Prop where
  operations : h'.tables.operations = h.tables.operations
  pending : h'.tables.pending = h.tables.pending
  threads : h'.threads = h.threads
  live : ∀ x, h'.isValid x = h.isValid x

namespace Machine

open Action

variable {γ : Type} {invoke : Invoke γ} {m m' m'' : Machine (CallLog γ)} {record object budget : Nat}
  {made more : List (Callback × Nat)}

/-- The calls of the program queue no work and do not enter the heap. They may go wrong, but break no
promise of the heap. -/
def Discreet (invoke : Invoke γ) : Prop :=
  ∀ record callback object m, (invoke record callback object).Ends m
    (fun _ m' => m.heap.Unentered m'.heap)
    fun cause m' => (∃ defect, cause = .defect defect) ∧ m.heap.Unentered m'.heap

/-- Calls were made. The threads are as before and what lived goes on living. -/
structure Called (made : List (Callback × Nat)) (m m' : Machine (CallLog γ)) : Prop where
  calls : m'.client.calls = m.client.calls ++ made
  threads : m'.heap.threads = m.heap.threads
  live : ∀ x, m'.heap.isValid x = m.heap.isValid x
  inFlight : m'.heap.inFlight = if made = [] then m.heap.inFlight else none

theorem Called.refl (m : Machine (CallLog γ)) : Called [] m m :=
  ⟨(List.append_nil _).symm, rfl, fun _ => rfl, (if_pos rfl).symm⟩

theorem Called.trans (first : Called made m m') (second : Called more m' m'') :
    Called (made ++ more) m m'' where
  calls := by rw [second.calls, first.calls, List.append_assoc]
  threads := second.threads.trans first.threads
  live x := (second.live x).trans (first.live x)
  inFlight := by
    rw [second.inFlight, first.inFlight]
    cases made <;> cases more <;> simp

/-- A call is made and listed, and it is over afterwards however it went. -/
theorem Discreet.call (discreet : Discreet invoke) (record object : Nat) (callback : Callback)
    (m : Machine (CallLog γ)) : (call (listCall invoke) record object callback).Ends m
      (fun _ m' => Called [(callback, object)] m m'
        ∧ m'.heap.tables.operations = m.heap.tables.operations
        ∧ m'.heap.tables.pending = m.heap.tables.pending) fun _ _ => False := by
  apply call_ends
  simp only [listCall, ends_bind, ends_modify, ends_on]
  refine (discreet record callback object _).imp ?_ ?_
  · intro _ m' kept
    exact ⟨⟨rfl, kept.threads, kept.live, rfl⟩, kept.operations, kept.pending⟩
  · rintro _ m' ⟨⟨defect, rfl⟩, kept⟩
    exact ⟨⟨rfl, kept.threads, kept.live, rfl⟩, kept.operations, kept.pending⟩

theorem Discreet.callEach (discreet : Discreet invoke) (record object : Nat) (calls : List Callback)
    (m : Machine (CallLog γ)) : (callEach (listCall invoke) record object calls).Ends m
      (fun _ m' => Called (calls.map fun callback => (callback, object)) m m'
        ∧ m'.heap.tables.operations = m.heap.tables.operations
        ∧ m'.heap.tables.pending = m.heap.tables.pending) fun _ _ => False := by
  induction calls generalizing m with
  | nil => exact ends_pure.2 ⟨.refl m, rfl, rfl⟩
  | cons callback rest ih =>
    rw [Machine.callEach, ends_bind]
    apply (discreet.call record object callback m).mono
    rintro _ m₁ ⟨first, operations, pending⟩
    apply (ih m₁).mono
    rintro _ m₂ ⟨others, operations', pending'⟩
    exact ⟨first.trans others, operations'.trans operations, pending'.trans pending⟩

/-! ### One piece of work after the other -/

/-- A piece of work was taken and its calls were made. -/
structure Dispatched (made : List (Callback × Nat)) (m m' : Machine (CallLog γ)) : Prop extends
    Called made m m' where
  due : m.heap.dueCalls = made ++ m'.heap.dueCalls
  backlog : ∃ object, m.heap.backlog = object :: m'.heap.backlog

/-- What a piece of work takes out of the tables is its object and the calls that it is due. -/
theorem took_due {h h' : Heap} {calls : List Callback} (took : Took h object calls h') :
    h.dueCalls = (calls.map fun callback => (callback, object)) ++ h'.dueCalls
      ∧ h.backlog = object :: h'.backlog := by
  cases took with
  | reference next =>
    unfold Heap.dueCalls Heap.backlog
    rw [next]
    exact ⟨List.append_assoc .., rfl⟩
  | finalizer idle next =>
    unfold Heap.dueCalls Heap.backlog
    rw [idle, next]
    exact ⟨rfl, rfl⟩

theorem took_spares {h h' : Heap} {calls : List Callback} (took : Took h object calls h') :
    h'.threads = h.threads ∧ h'.inFlight = h.inFlight ∧ ∀ x, h'.isValid x = h.isValid x := by
  cases took <;> exact ⟨rfl, rfl, fun _ => rfl⟩

/-- There is nothing to take only where nothing is left. -/
theorem takeWork_none (h : Heap) : Heap.takeWork.Ends h (fun taken _ => taken = none → h.backlog = [])
    fun _ _ => True := by
  apply Heap.ends_takeWork
  case idle =>
    intro operations pending _
    rw [Heap.backlog, WorkQueue.entries_of_not_pop operations, WorkQueue.entries_of_not_pop pending]
    rfl
  case reference => exact fun _ none => absurd none (Option.some_ne_none _)
  case finalizer => exact fun _ _ none => absurd none (Option.some_ne_none _)

theorem Discreet.workOnce (discreet : Discreet invoke) (record : Nat)
    (live : ∀ x ∈ m.heap.backlog, m.heap.isValid x = true) :
    (workOnce (listCall invoke) record).Ends m (fun again m' =>
        (again = false ∧ m' = m ∧ m.heap.backlog = []) ∨ (again = true ∧ ∃ made, Dispatched made m m'))
      fun _ _ => False := by
  simp only [Machine.workOnce, onHeap, ends_bind, ends_on]
  refine ((takeWork_none m.heap).and (takeWork_took m.heap)).imp ?_ fun _ _ both => both.2
  rintro (_ | ⟨object, calls⟩) h ⟨idle, took⟩
  · have same : h = m.heap := took
    subst same
    exact ends_pure.2 (.inl ⟨rfl, rfl, idle rfl⟩)
  · obtain ⟨due, backlog⟩ := took_due took
    obtain ⟨threads, inFlight, valid⟩ := took_spares took
    have alive : h.isValid object = true := by
      rw [valid, live object]
      rw [backlog]
      exact List.mem_cons_self
    simp only [modifyHeap, ends_bind, ends_modify, ends_get, ends_require]
    refine ⟨fun _ => ?_, fun dead => absurd (alive.symm.trans dead) Bool.noConfusion⟩
    apply (discreet.callEach record object calls _).mono
    rintro _ m₁ ⟨called, operations, pending⟩
    apply ends_pure.2
    right
    refine ⟨rfl, _, ⟨called.calls, ?_, fun x => (called.live x).trans (valid x), ?_⟩, ?_, object, ?_⟩
    · change (m₁.heap.threads.untrack? record object).getD m₁.heap.threads = m.heap.threads
      rw [called.threads, Safepoint.untrack_track, threads]
    · exact called.inFlight.trans (by rw [← inFlight]; rfl)
    · rw [due, Heap.dueCalls, Heap.dueCalls]
      dsimp only
      rw [operations, pending]
    · rw [backlog, Heap.backlog, Heap.backlog]
      dsimp only
      rw [operations, pending]

/-- With as many turns as there is work and one more, all of it is done. -/
theorem Discreet.drain (discreet : Discreet invoke) (record : Nat)
    (live : ∀ x ∈ m.heap.backlog, m.heap.isValid x = true) (enough : m.heap.backlog.length < budget) :
    (drain (listCall invoke) record budget).Ends m
      (fun _ m' => Called m.heap.dueCalls m m' ∧ m'.heap.backlog = []) fun _ _ => False := by
  induction budget generalizing m with
  | zero => exact absurd enough (Nat.not_lt_zero _)
  | succ budget ih =>
    rw [Machine.drain, ends_bind]
    apply (discreet.workOnce record live).mono
    rintro again m₁ (⟨rfl, rfl, nothing⟩ | ⟨rfl, made, dispatched⟩)
    · have none : m₁.heap.dueCalls = [] := by
        obtain ⟨operations, pending⟩ := List.append_eq_nil_iff.1 nothing
        rw [Heap.dueCalls, List.map_eq_nil_iff.1 operations, pending]
        rfl
      rw [none]
      exact ends_pure.2 ⟨.refl m₁, nothing⟩
    · obtain ⟨object, backlog⟩ := dispatched.backlog
      rw [backlog, List.length_cons] at enough
      have live₁ : ∀ x ∈ m₁.heap.backlog, m₁.heap.isValid x = true := by
        intro x later
        rw [dispatched.live]
        apply live
        rw [backlog]
        exact List.mem_cons_of_mem _ later
      apply (ih live₁ (Nat.lt_of_succ_lt_succ enough)).mono
      rintro _ m₂ ⟨called, nothing⟩
      rw [dispatched.due]
      exact ⟨dispatched.toCalled.trans called, nothing⟩

end Machine

/-! ### Heaps on which no call is being made -/

namespace Heap

open Action

variable {α : Type}

theorem Sidesteps.retains {a : Action Heap α} (sidesteps : Sidesteps a) : Retains inFlight a :=
  fun _ h same => (sidesteps h).imp (fun _ _ besides => besides.current.trans same)
    fun _ _ both => both.1.current.trans same

section

variable [ObjectModel] {config : Config} {h : Heap} {op : Operation}

theorem inFlight_request (record size : Nat) (flags : AllocFlags) :
    Retains inFlight (request record size flags) := fun call =>
  preserves_request (fun same reworked => reworked.inFlight.trans same) id
    (fun profiling _ =>
      (sidesteps_countIf profiling record (countAlloc_spares size _)).retains call) id flags

theorem inFlight_requestExternal (record n : Nat) : Retains inFlight (requestExternal record n) :=
  fun call => preserves_requestExternal (fun same reworked => reworked.inFlight.trans same) id
    fun profiling _ => (sidesteps_countIf profiling record (countExternal_spares n _)).retains call

/-- A whole operation is not about the call that is being made. -/
theorem inFlight_perform (whole : op.isWhole = true) : Retains inFlight (perform op) := by
  have inner : ∀ (h : Heap) source, { h with source }.inFlight = h.inFlight := fun _ _ => rfl
  cases op with
  | takeWork | startCall | endCall => cases whole
  | request record size flags => exact inFlight_request record size flags
  | collect soft =>
    have collects : Retains inFlight (collect soft) := fun _ =>
      preserves_collect (fun same reworked => reworked.inFlight.trans same) soft
    exact collects.silent
  | requestExternal record n => exact (inFlight_requestExternal record n).silent
  | freeExternal n => exact (retains_onSource inner _).silent
  | setMinimum size =>
    refine Retains.silent ((retains_onSource inner _).then fun old => ?_)
    exact (reworks_sizeChanged.retains Reworked.inFlight).then fun _ => retains_pure old
  | trim => exact (retains_onSource inner _).silent
  | beforeFork => exact (retains_onSource inner _).silent
  | afterZygote =>
    refine Retains.silent fun call => preserves_afterZygote ?_ ?_
    · exact retains_onSource inner _ call
    · exact sidesteps_startWorker.retains call
  | attach thread name => exact (sidesteps_attach thread name).retains.silent
  | clearFlags record x flags => exact (sidesteps_clearFlags record x flags).retains.silent
  | transition record state =>
    exact (sidesteps_modify fun h => h.besides_transition record state).retains.silent
  | shutdown record => exact (sidesteps_modify fun h => h.besides_shutdown record).retains.silent
  | replaceBitmaps numbers =>
    refine Retains.silent (retains_modify fun h => ?_)
    rw [Heap.replaceBitmaps_eq]
    rfl
  | setDebugging tolerate =>
    refine Retains.silent (retains_modify fun h => ?_)
    change (Option.map _ (h.worker.current.map _)) = Option.map _ h.worker.current
    rw [Option.map_map]
    rfl
  | detach | track | untrack | setRoots | write | setUtilization | snapshotBitmaps | setProfiling
  | setReporting | pass => exact Retains.silent (retains_modify fun _ => rfl)

/-- The heaps that programs see between the things that they do: new ones, ones after a whole operation,
and ones after pending calls were made. In the calls the programs may do what they like. -/
inductive Quiescent (config : Config) : Heap → Prop where
  | create {h : Heap} : create config = .ok (.ok h) → Quiescent config h
  | operate {h : Heap} (op : Operation) : op.isWhole = true → Quiescent config h →
    Quiescent config ((perform op).after h)
  | drain {γ : Type} {m : Machine γ} {invoke : Machine.Invoke γ} (record budget : Nat) :
    Machine.Operates config invoke → Quiescent config m.heap →
    Quiescent config ((Machine.drain invoke record budget).after m).heap

theorem Quiescent.reachable (quiescent : Quiescent config h) : Reachable config h := by
  induction quiescent with
  | create run => exact .create run
  | operate op _ _ ih => exact ih.step op
  | drain record budget operates _ ih =>
    exact (operates.drain record budget _ ih).after (fun m => Reachable config m.heap)
      (fun _ _ reached => reached) fun _ _ both => both.2

end

end Heap

namespace Machine

open Action

variable {γ : Type} {invoke : Invoke γ} {record object budget : Nat}

/-- However a call goes, none is being made afterwards. -/
theorem idle_callEach (calls : List Callback) :
    (callEach invoke record object calls).Preserves fun m => m.heap.inFlight = none := by
  induction calls with
  | nil => exact preserves_pure ()
  | cons callback rest ih =>
    refine Preserves.then (fun m _ => ?_) fun _ => ih
    exact call_spec ⟨fun _ => rfl, fun _ => rfl⟩

theorem idle_drain : (drain invoke record budget).Preserves fun m => m.heap.inFlight = none := by
  have works : (workOnce invoke record).Preserves fun m => m.heap.inFlight = none := by
    intro m idle
    simp only [workOnce, onHeap, ends_bind, ends_on]
    refine (takeWork_took m.heap).imp ?_ fun _ _ none => none.elim
    rintro (_ | ⟨object, calls⟩) h took
    · exact ends_pure.2 ((congrArg Heap.inFlight took).trans idle)
    · have same : h.inFlight = none := (took_spares took).2.1.trans idle
      simp only [modifyHeap, ends_bind, ends_modify, ends_get, ends_require]
      refine ⟨fun _ => ?_, fun _ => same⟩
      apply (idle_callEach calls _ same).mono
      exact fun _ _ idle => ends_pure.2 idle
  induction budget with
  | zero => exact fun _ idle => ends_throw.2 idle
  | succ budget ih =>
    refine works.then fun again => ?_
    cases again with
    | true => exact ih
    | false => exact preserves_pure ()

end Machine

theorem Heap.Quiescent.inFlight [ObjectModel] {config : Config} {h : Heap}
    (quiescent : Heap.Quiescent config h) : h.inFlight = none := by
  induction quiescent with
  | create run =>
    obtain ⟨-, -, -, -, -, -, idle⟩ := Heap.create_frame run
    exact idle
  | operate op whole _ ih => exact (Heap.inFlight_perform whole none).after ih
  | drain record budget _ _ ih => exact Machine.idle_drain.after ih

namespace Machine

open Action

section

variable [ObjectModel] {γ : Type} {config : Config} {invoke : Invoke γ} {m : Machine (CallLog γ)}
  {budget : Nat}

/-- Without a worker a thread that waits for the pending work makes the calls itself: those that are due,
each once and in their order, whether the calls before went wrong or not. Then nothing is pending and no
call is being made, and every thread tracks what it tracked, in the same order and as often. -/
theorem pending_calls_made (reachable : Heap.Reachable config m.heap)
    (alone : m.heap.worker.running = false) (discreet : Discreet invoke) (record : Nat)
    (enough : m.heap.tables.operations.size + m.heap.tables.pending.size < budget) :
    ∃ m', finishPending (listCall invoke) record budget m = .ok () m'
      ∧ m'.client.calls = m.client.calls ++ m.heap.dueCalls
      ∧ m'.heap.tables.operations.entries = [] ∧ m'.heap.tables.pending.entries = []
      ∧ (m.heap.dueCalls ≠ [] ∨ Heap.Quiescent config m.heap → m'.heap.inFlight = none)
      ∧ ∀ other, m'.heap.threads.trackedBy other = m.heap.threads.trackedBy other := by
  have live : ∀ x ∈ m.heap.backlog, m.heap.isValid x = true := by
    intro x waits
    rcases List.mem_append.1 waits with queued | pending
    · exact reachable.tended.queued x queued
    · exact reachable.tended.waiting x (List.mem_append_right _ pending)
  have turns : m.heap.backlog.length < budget := by
    rwa [Heap.backlog, List.length_append, List.length_map, WorkQueue.length_entries,
      WorkQueue.length_entries]
  obtain ⟨_, m', run, called, nothing⟩ := (discreet.drain record live turns).exists_ok
  obtain ⟨operations, pending⟩ := List.append_eq_nil_iff.1 nothing
  refine ⟨m', ?_, called.calls, List.map_eq_nil_iff.1 operations, pending, ?_, fun other => ?_⟩
  · have same : finishPending (listCall invoke) record budget m
        = drain (listCall invoke) record budget m := by
      rw [finishPending]
      refine (bind_of_ok rfl).trans ?_
      rw [alone]
      rfl
    rw [same]
    exact run
  · rintro (due | quiescent)
    · rw [called.inFlight, if_neg due]
    · rw [called.inFlight, quiescent.inFlight, ite_self]
  · rw [called.threads]

end

/-- A weak reference that clears itself and has a queue, its referent, and an object whose finalizer is
due. The thread tracks the reference and that object several times over. -/
def clutter : List Heap.Operation :=
  let reference := Region.arenaBase 0
  let finalizable := { finalizable := true, untracked := true }
  [.attach 0 "main", .request 0 24 {}, .request 0 24 finalizable, .request 0 24 finalizable,
    .write reference 0 1 (Tag.make (some .weak) true true false 0),
    .write reference Object.referentWord 1 (reference + 32), .collect false,
    .track 0 (reference + 64), .track 0 reference, .track 0 (reference + 64)]

/-- Told to clear itself the reference fails, the other calls are counted. -/
def failToClear : Invoke Nat := fun _ callback _ =>
  if callback = .clear then throw (.defect .assertion) else modify fun m => { m with client := m.client + 1 }

theorem discreet_failToClear : Discreet failToClear := by
  intro record callback object m
  have kept : m.heap.Unentered m.heap := ⟨rfl, rfl, rfl, fun _ => rfl⟩
  rw [failToClear, ends_ite]
  exact ⟨fun _ => ends_throw.2 ⟨⟨_, rfl⟩, kept⟩, fun _ => ends_modify.2 kept⟩

theorem clutter_calls_made : ∃ m', finishPending (listCall failToClear) 0 3
      { heap := Heap.small.afterAll clutter, client := { client := 0 } } = .ok () m'
    ∧ m'.client.calls = [(.clear, Region.arenaBase 0), (.enqueue, Region.arenaBase 0),
      (.finalize, Region.arenaBase 0 + 64)]
    ∧ m'.heap.inFlight = none
    ∧ (m'.heap.threads.trackedBy 0).entries = [Region.arenaBase 0, Region.arenaBase 0 + 64,
      Region.arenaBase 0, Region.arenaBase 0 + 64] := by
  have due : (Heap.small.afterAll clutter).dueCalls = [(.clear, Region.arenaBase 0),
      (.enqueue, Region.arenaBase 0), (.finalize, Region.arenaBase 0 + 64)] := by decide +kernel
  have tracked : ((Heap.small.afterAll clutter).threads.trackedBy 0).entries = [Region.arenaBase 0,
      Region.arenaBase 0 + 64, Region.arenaBase 0, Region.arenaBase 0 + 64] := by decide +kernel
  obtain ⟨m', run, calls, -, -, idle, same⟩ :=
    pending_calls_made (m := { heap := Heap.small.afterAll clutter, client := { client := 0 } })
      (Heap.reachable_small.afterAll clutter) (by decide +kernel) discreet_failToClear 0
      (show _ < 3 by decide +kernel)
  refine ⟨m', run, ?_, idle (.inl ?_), ?_⟩
  · rw [calls, due]
    rfl
  · rw [due]
    exact List.cons_ne_nil _ _
  · rw [same, tracked]

end Machine

end ManagedHeap
