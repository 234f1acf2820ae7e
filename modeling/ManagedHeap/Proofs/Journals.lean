import Mathlib.Logic.Relation
import ManagedHeap.Proofs.Finalization
import ManagedHeap.Proofs.PendingWork

/-!
Runs of a program as moves, one thing at a time: an operation, a piece of pending work taken, a call
that begins or is over. Whatever a program does, moves lead from its beginning to what was noted, so
that what every move keeps up holds of every journal.
-/

namespace ManagedHeap

/-- A piece of pending work that was taken. -/
inductive Task where
  /-- These calls on an object are to be made next. -/
  | due (object : Nat) (calls : List Callback)
  /-- A call on an object is being made, and these follow. -/
  | calling (callback : Callback) (object : Nat) (calls : List Callback)

namespace Task

def object : Task → Nat
  | .due object _ => object
  | .calling _ object _ => object

/-- The call being made. -/
def running : Task → Option (Callback × Nat)
  | .due .. => none
  | .calling callback object _ => some (callback, object)

/-- The calls that are still to be made. -/
def rest : Task → List (Callback × Nat)
  | .due object calls => calls.map (·, object)
  | .calling _ object calls => calls.map (·, object)

/-- What comes after the call that is being made or comes next. -/
def later : Task → List Callback
  | .due _ calls => calls.tail
  | .calling _ _ calls => calls

end Task

/-- A moment of a run. -/
structure Moment where
  /-- What is being worked on, each task within the call that the next one is making. -/
  tasks : List Task
  heap : Heap
  log : List Entry

/-- Are operations carried out? Only between two calls of one task they are not. -/
def areOpen : List Task → Bool
  | .due .. :: _ => false
  | _ => true

/-- A piece of work was taken: the next of the references or, where none of these is left, the next
finalizer. -/
inductive Took (h : Heap) (object : Nat) : List Callback → Heap → Prop where
  | reference {work : ReferenceWork} {operations : WorkQueue (Nat × ReferenceWork)} :
    h.tables.operations.entries = (object, work) :: operations.entries →
    Took h object work.calls { h with tables := { h.tables with operations } }
  | finalizer {pending : WorkQueue Nat} : h.tables.operations.entries = [] →
    h.tables.pending.entries = object :: pending.entries →
    Took h object [.finalize] { h with tables := { h.tables with pending } }

/-- One thing happens. Work may be taken within a call, or only while none is being made. -/
inductive Move [ObjectModel] (nests : Bool) : Moment → Moment → Prop where
  | operate {tasks : List Task} {h h' : Heap} {log : List Entry} {op : Heap.Operation}
    {result : Option Nat} : areOpen tasks = true → op.isWhole = true →
    Heap.perform op h = .ok result h' →
    Move nests ⟨tasks, h, log⟩ ⟨tasks, h', log ++ [.operated op h result h']⟩
  | take {tasks : List Task} {h h' : Heap} {log : List Entry} {object : Nat}
    {calls : List Callback} : areOpen tasks = true → (nests = true ∨ tasks = []) →
    Took h object calls h' → Move nests ⟨tasks, h, log⟩ ⟨.due object calls :: tasks, h', log⟩
  | call (tasks : List Task) (h : Heap) (log : List Entry) (callback : Callback) (object : Nat)
    (calls : List Callback) : Move nests ⟨.due object (callback :: calls) :: tasks, h, log⟩
      ⟨.calling callback object calls :: tasks, h.startCall object callback,
        log ++ [.called callback object]⟩
  | return (tasks : List Task) (h : Heap) (log : List Entry) (callback : Callback) (object : Nat)
    (calls : List Callback) : Move nests ⟨.calling callback object calls :: tasks, h, log⟩
      ⟨.due object calls :: tasks, h.endCall, log ++ [.returned callback object]⟩
  | finish (tasks : List Task) (h : Heap) (log : List Entry) (object : Nat) :
    Move nests ⟨.due object [] :: tasks, h, log⟩ ⟨tasks, h, log⟩
  | track (tasks : List Task) (h : Heap) (log : List Entry) (threads : Safepoint) :
    Move nests ⟨tasks, h, log⟩ ⟨tasks, { h with threads }, log⟩

/-- Moves lead from one moment to the other. -/
abbrev Leads [ObjectModel] (nests : Bool) : Moment → Moment → Prop :=
  Relation.ReflTransGen (Move nests)

/-- Nothing was noted that might not be, after what was noted before. -/
def Throughout (allowed : List Entry → Entry → Prop) (log : List Entry) : Prop :=
  ∀ before e after, log = before ++ e :: after → allowed before e

theorem throughout_nil (allowed : List Entry → Entry → Prop) : Throughout allowed [] :=
  fun _ e after split =>
    absurd split.symm (List.append_ne_nil_of_right_ne_nil _ (List.cons_ne_nil e after))

theorem Throughout.concat {allowed : List Entry → Entry → Prop} {log : List Entry} {e : Entry}
    (sofar : Throughout allowed log) (last : allowed log e) : Throughout allowed (log ++ [e]) := by
  intro before e' after split
  rcases List.eq_nil_or_concat after with rfl | ⟨after', last', rfl⟩
  · obtain ⟨rfl, same⟩ := List.append_inj' split rfl
    cases same
    exact last
  · rw [List.concat_eq_append, ← List.cons_append, ← List.append_assoc] at split
    exact sofar before e' after' (List.append_inj' split rfl).1

theorem Throughout.of_prefix {allowed : List Entry → Entry → Prop} {log log' : List Entry}
    (all : Throughout allowed log') (first : log <+: log') : Throughout allowed log := by
  obtain ⟨more, rfl⟩ := first
  intro before e after split
  apply all before e (after ++ more)
  rw [split, List.append_assoc, List.cons_append]

/-- May everything be noted that comes after what was noted before? -/
def mayFollow (allowed : List Entry → Entry → Prop) [∀ log e, Decidable (allowed log e)] :
    List Entry → List Entry → Bool
  | _, [] => true
  | log, e :: rest => decide (allowed log e) && mayFollow allowed (log ++ [e]) rest

theorem Throughout.append {allowed : List Entry → Entry → Prop}
    [∀ log e, Decidable (allowed log e)] {log rest : List Entry} (sofar : Throughout allowed log)
    (fine : mayFollow allowed log rest = true) : Throughout allowed (log ++ rest) := by
  induction rest generalizing log with
  | nil =>
    rw [List.append_nil]
    exact sofar
  | cons e rest ih =>
    rw [mayFollow, Bool.and_eq_true, decide_eq_true_iff] at fine
    rw [List.append_cons]
    exact ih (sofar.concat fine.1) fine.2

theorem throughout_of_mayFollow {allowed : List Entry → Entry → Prop}
    [∀ log e, Decidable (allowed log e)] {log : List Entry} (fine : mayFollow allowed [] log = true) :
    Throughout allowed log := (throughout_nil allowed).append fine

/-- What holds at every moment. The call that the heap takes to be made is the one that began last. -/
structure Moment.Ready (m : Moment) : Prop where
  heap : m.heap.Ready
  current : ∀ call, m.heap.inFlight = some call → m.tasks.findSome? Task.running = some call
  due : ∀ x calls tasks, m.tasks = .due x (.finalize :: calls) :: tasks → m.heap.isValid x = true
  within : ∀ task ∈ m.tasks.tail, task.running.isSome = true
  later : ∀ task ∈ m.tasks, ∀ callback ∈ task.later, callback = .enqueue

open Action

theorem Took.calls {h h' : Heap} {object : Nat} {calls : List Callback}
    (took : Took h object calls h') : ∀ callback ∈ calls.tail, callback = .enqueue := by
  cases took with
  | finalizer => exact fun _ none => absurd none List.not_mem_nil
  | @reference work =>
    obtain ⟨clear, enqueue⟩ := work
    cases clear <;> cases enqueue <;> simp [ReferenceWork.calls]

theorem Took.ready {h h' : Heap} {object : Nat} {calls : List Callback}
    (took : Took h object calls h') (ready : h.Ready) : h'.Ready ∧ h'.isValid object = true := by
  obtain ⟨sound, waiting, queued, finalizing⟩ := ready
  cases took with
  | reference next =>
    rw [Heap.queued, next, List.map_cons] at queued
    exact ⟨⟨⟨sound.source, sound.maximum⟩, waiting, fun x due =>
      queued x (List.mem_cons_of_mem _ due), finalizing⟩, queued object List.mem_cons_self⟩
  | finalizer idle next =>
    refine ⟨⟨⟨sound.source, sound.maximum⟩, fun x waits => ?_, queued, finalizing⟩, ?_⟩
    · refine waiting x ?_
      rw [Heap.waiting, List.mem_append] at waits ⊢
      rw [next]
      exact waits.imp_right (List.mem_cons_of_mem _)
    · refine waiting object ?_
      rw [Heap.waiting, next]
      exact List.mem_append_right _ List.mem_cons_self

theorem takeWork_took (h : Heap) : Heap.takeWork.Ends h (fun taken h' =>
    match taken with
    | none => h' = h
    | some (object, calls) => Took h object calls h') fun _ _ => False := by
  apply Heap.ends_takeWork
  case idle => exact fun _ _ => rfl
  case reference => exact fun operation => .reference (WorkQueue.entries_of_pop operation)
  case finalizer =>
    exact fun none due =>
      .finalizer (WorkQueue.entries_of_not_pop none) (WorkQueue.entries_of_pop due)

variable [ObjectModel] {nests : Bool} {m m' : Moment}

theorem Move.ready (move : Move nests m m') (ready : m.Ready) : m'.Ready := by
  obtain ⟨heap, current, due, within, later⟩ := ready
  cases move with
  | operate isOpen whole run =>
    have conducted := (Heap.perform_conducted heap whole).ok run
    refine ⟨conducted.ready, fun call made => ?_, ?_, within, later⟩
    · exact current call (conducted.current.symm.trans made)
    · rintro x calls tasks rfl
      cases isOpen
  | @take tasks h h' log object calls isOpen nested took =>
    obtain ⟨ready', valid⟩ := took.ready heap
    refine ⟨ready', ?_, ?_, fun task member => ?_, List.forall_mem_cons.2 ⟨took.calls, later⟩⟩
    · cases took with
      | reference => exact current
      | finalizer => exact current
    · rintro _ _ _ ⟨⟩
      exact valid
    · cases tasks with
      | nil => cases member
      | cons top rest =>
        rcases List.mem_cons.1 member with rfl | inner
        · cases task with
          | due => cases isOpen
          | calling => rfl
        · exact within task inner
  | call tasks h log callback object calls =>
    obtain ⟨sound, waiting, queued, -⟩ := heap
    obtain ⟨here, others⟩ := List.forall_mem_cons.1 later
    refine ⟨⟨⟨sound.source, sound.maximum⟩, waiting, queued, fun x made => ?_⟩, fun _ made => made,
      nofun, within, List.forall_mem_cons.2 ⟨here, others⟩⟩
    cases made
    exact due object calls tasks rfl
  | «return» tasks h log callback object calls =>
    obtain ⟨sound, waiting, queued, -⟩ := heap
    obtain ⟨here, others⟩ := List.forall_mem_cons.1 later
    refine ⟨⟨⟨sound.source, sound.maximum⟩, waiting, queued, nofun⟩, nofun, ?_, within,
      List.forall_mem_cons.2 ⟨fun other after => here other (List.mem_of_mem_tail after), others⟩⟩
    rintro _ _ _ ⟨⟩
    cases here .finalize List.mem_cons_self
  | finish tasks h log object =>
    refine ⟨heap, current, ?_, fun task inner => within task (List.mem_of_mem_tail inner),
      (List.forall_mem_cons.1 later).2⟩
    rintro _ _ _ rfl
    cases within _ List.mem_cons_self
  | track tasks h log threads =>
    obtain ⟨sound, waiting, queued, finalizing⟩ := heap
    exact ⟨⟨⟨sound.source, sound.maximum⟩, waiting, queued, finalizing⟩, current, due, within, later⟩

theorem Leads.ready (leads : Leads nests m m') (ready : m.Ready) : m'.Ready := by
  induction leads with
  | refl => exact ready
  | tail _ move ih => exact move.ready ih

/-- What every move keeps up. -/
theorem Leads.keeps {p : Moment → Prop} (leads : Leads nests m m') (ready : m.Ready) (holds : p m)
    (keeps : ∀ {m₁ m₂ : Moment}, Move nests m₁ m₂ → m₁.Ready → p m₁ → p m₂) : p m' := by
  induction leads with
  | refl => exact holds
  | tail leads move ih => exact keeps move (Leads.ready leads ready) ih

/-- The journal was kept from the moment on, and it ends while operations are carried out. -/
def Stops (nests : Bool) (m : Moment) (log : List Entry) : Prop :=
  ∃ last, Leads nests m last ∧ areOpen last.tasks = true ∧ last.log = log

theorem Stops.after {log : List Entry} (stops : Stops nests m' log) (leads : Leads nests m m') :
    Stops nests m log := by
  obtain ⟨last, more, rest⟩ := stops
  exact ⟨last, leads.trans more, rest⟩

/-! ### What programs do -/

namespace Machine

variable {γ δ α β : Type} {tasks tasks' tasks'' : List Task} {record object : Nat}
  {callback : Callback} {calls : List Callback} {invoke : Invoke (Journal γ)}

/-- The moment that a program is at. -/
def moment (m : Machine (Journal γ)) (tasks : List Task) : Moment := ⟨tasks, m.heap, m.client.log⟩

/-- The action leads from some tasks to others, unless it does not come to its end. -/
def Moves (nests : Bool) (a : Action (Machine (Journal γ)) α) (tasks tasks' : List Task) : Prop :=
  ∀ m : Machine (Journal γ), (m.moment tasks).Ready →
    a.Ends m (fun _ m' => Leads nests (m.moment tasks) (m'.moment tasks'))
      fun cause m' => cause = .stuck ∧ Stops nests (m.moment tasks) m'.client.log

theorem Moves.then {a : Action (Machine (Journal γ)) α} {next : α → Action (Machine (Journal γ)) β}
    (first : Moves nests a tasks tasks') (rest : ∀ value, Moves nests (next value) tasks' tasks'') :
    Moves nests (a >>= next) tasks tasks'' := by
  intro m ready
  rw [ends_bind]
  refine (first m ready).mono fun value m₁ leads => ?_
  refine (rest value m₁ (leads.ready ready)).imp ?_ ?_
  · intro _ m₂ more
    exact leads.trans more
  · rintro cause m₂ ⟨stuck, stops⟩
    exact ⟨stuck, stops.after leads⟩

theorem moves_pure (value : α) :
    Moves nests (pure value : Action (Machine (Journal γ)) α) tasks tasks :=
  fun _ _ => ends_pure.2 .refl

/-- Everything may end while operations are carried out. -/
theorem moves_stuck (isOpen : areOpen tasks = true) :
    Moves nests (throw .stuck : Action (Machine (Journal γ)) α) tasks tasks' :=
  fun m _ => ends_throw.2 ⟨rfl, m.moment tasks, .refl, isOpen, rfl⟩

theorem moves_track (threads : Heap → Safepoint) :
    Moves nests (modifyHeap fun h => { h with threads := threads h } :
      Action (Machine (Journal γ)) Unit) tasks tasks :=
  fun m _ => ends_modify.2 (.single (.track tasks m.heap m.client.log (threads m.heap)))

theorem moves_carryOut {op : Heap.Operation} (isOpen : areOpen tasks = true)
    (whole : op.isWhole = true) :
    Moves nests (carryOut op : Action (Machine (Journal γ)) Unit) tasks tasks := by
  intro m _
  constructor
  · intro value m' run
    simp only [carryOut] at run
    split at run
    case h_1 result heap performed =>
      cases run
      exact .single (.operate isOpen whole performed)
    case h_2 => cases run
  · intro cause m' run
    simp only [carryOut] at run
    split at run
    case h_1 => cases run
    case h_2 =>
      cases run
      exact ⟨rfl, m.moment tasks, .refl, isOpen, rfl⟩

theorem moves_carryAll (isOpen : areOpen tasks = true)
    (ops : List { op : Heap.Operation // op.isWhole = true }) :
    Moves nests (carryAll ops : Action (Machine (Journal γ)) Unit) tasks tasks := by
  induction ops with
  | nil => exact moves_pure ()
  | cons op rest ih => exact (moves_carryOut isOpen op.2).then fun _ => ih

/-- Every call is made, with all that goes on meanwhile. -/
def Makes (nests : Bool) (invoke : Invoke (Journal γ)) : Prop :=
  ∀ record object callback calls tasks, Moves nests (call invoke record object callback)
    (.due object (callback :: calls) :: tasks) (.due object calls :: tasks)

/-- A call is noted, and what goes on meanwhile comes between its beginning and its end. -/
theorem makes_notedCall {act : List δ → Action (Machine (Journal γ)) Unit} {habits : Habits γ δ}
    (acts : ∀ meanwhile tasks, areOpen tasks = true → Moves nests (act meanwhile) tasks tasks) :
    Makes nests (notedCall act habits) := by
  intro record object callback calls tasks m ready
  have begins : Move nests _ _ := .call tasks m.heap m.client.log callback object calls
  have ready' := begins.ready ready
  let made (m' : Machine (Journal γ)) : Prop := Leads nests
    (m.moment (.due object (callback :: calls) :: tasks)) (m'.moment (.due object calls :: tasks))
  change Ends _ m (fun _ m' => made m') _
  refine call_ends ?_
  simp only [notedCall, ends_bind, ends_modify, ends_get, ends_set]
  refine Ends.imp (acts _ (.calling callback object calls :: tasks) rfl _ ready') ?_ ?_
  · intro _ m' leads
    have finished : made { m'.enter (.returned callback object) with heap := m'.heap.endCall } :=
      (leads.head begins).tail (.return tasks m'.heap m'.client.log callback object calls)
    rw [ends_ite]
    exact ⟨fun _ => ends_throw.2 finished, fun _ => ends_pure.2 finished⟩
  · rintro cause m' ⟨rfl, stops⟩
    exact ⟨rfl, stops.after (.single begins)⟩

theorem Makes.callEach (makes : Makes nests invoke) (calls : List Callback) :
    Moves nests (callEach invoke record object calls) (.due object calls :: tasks)
      (.due object [] :: tasks) := by
  induction calls with
  | nil => exact moves_pure ()
  | cons callback rest ih => exact (makes record object callback rest tasks).then fun _ => ih

theorem Makes.workOnce (makes : Makes nests invoke) (isOpen : areOpen tasks = true)
    (within : nests = true ∨ tasks = []) (record : Nat) :
    Moves nests (workOnce invoke record) tasks tasks := by
  intro m ready
  simp only [Machine.workOnce, onHeap, ends_bind, ends_on]
  refine (takeWork_took m.heap).imp ?_ fun _ _ => False.elim
  rintro (_ | ⟨object, calls⟩) h took
  · cases (show h = m.heap from took)
    exact ends_pure.2 .refl
  · let m₁ : Machine (Journal γ) :=
      { m with heap := { h with threads := h.threads.track record object } }
    have begins : Leads nests (m.moment tasks) (m₁.moment (.due object calls :: tasks)) :=
      .tail (.single (.take isOpen within took)) (.track _ h m.client.log _)
    -- The object of a piece of work lives, so that there is nothing to complain about.
    have valid : m₁.heap.isValid object = true := (took.ready ready.heap).2
    have rest : Moves nests (do
        Machine.callEach invoke record object calls
        modifyHeap fun h => { h with threads := (h.threads.untrack? record object).getD h.threads }
        return true : Action (Machine (Journal γ)) Bool) (.due object calls :: tasks)
        (.due object [] :: tasks) :=
      (makes.callEach calls).then fun _ =>
        (moves_track fun h => (h.threads.untrack? record object).getD h.threads).then
          fun _ => moves_pure true
    have ends := (rest m₁ (begins.ready ready)).imp
      (fun _ m' leads => show Leads nests (m.moment tasks) (m'.moment tasks) from
        (begins.trans leads).tail (.finish tasks m'.heap m'.client.log object))
      fun cause m' both => show cause = .stuck ∧ Stops nests (m.moment tasks) m'.client.log from
        ⟨both.1, both.2.after begins⟩
    simp only [modifyHeap, ends_bind, ends_modify, ends_get, ends_require] at ends ⊢
    refine ⟨fun _ => ends, fun gone => ?_⟩
    rw [show m₁.heap.isValid object = false from gone] at valid
    cases valid

theorem Makes.drain (makes : Makes nests invoke) (isOpen : areOpen tasks = true)
    (within : nests = true ∨ tasks = []) (record budget : Nat) :
    Moves nests (drain invoke record budget) tasks tasks := by
  induction budget with
  | zero => exact moves_stuck isOpen
  | succ budget ih =>
    refine (makes.workOnce isOpen within record).then fun more => ?_
    cases more with
    | true => exact ih
    | false => exact moves_pure ()

theorem Makes.drainOnWorker (makes : Makes nests invoke) (isOpen : areOpen tasks = true)
    (within : nests = true ∨ tasks = []) (budget : Nat) :
    Moves nests (drainOnWorker invoke budget) tasks tasks := by
  intro m ready
  have drained := fun record => makes.drain isOpen within record budget m ready
  constructor
  · intro value m' run
    unfold Machine.drainOnWorker at run
    split at run
    · cases run
      exact .refl
    · split at run
      · cases run
        exact (drained _).ok ‹_›
      · cases run
      -- The worker does not break down: no call breaks a promise of the heap.
      case h_3 other run' =>
        exact absurd ((drained _).error run').1 other
  · intro cause m' run
    unfold Machine.drainOnWorker at run
    split at run
    · cases run
    · split at run
      · cases run
      · cases run
        exact (drained _).error ‹_›
      · cases run

/-- A step leads on, or everything ends with it. -/
theorem Makes.pursue (makes : Makes nests invoke) (isOpen : areOpen tasks = true)
    (within : nests = true ∨ tasks = []) (step : Step) {m : Machine (Journal γ)}
    (ready : (m.moment tasks).Ready) :
    (pursue invoke step).Ends m (fun _ m' => Leads nests (m.moment tasks) (m'.moment tasks))
      fun _ m' => Stops nests (m.moment tasks) m'.client.log := by
  have leads : ∀ {a : Action (Machine (Journal γ)) Unit}, Moves nests a tasks tasks →
      a.Ends m (fun _ m' => Leads nests (m.moment tasks) (m'.moment tasks))
        fun _ m' => Stops nests (m.moment tasks) m'.client.log :=
    fun moves => (moves m ready).imp (fun _ _ leads => leads) fun _ _ both => both.2
  cases step with
  | operate op whole => exact leads (moves_carryOut isOpen whole)
  | work record =>
    exact leads ((makes.workOnce isOpen within record).then fun _ => moves_pure ())
  | drain record budget => exact leads (makes.drain isOpen within record budget)
  | drainOnWorker budget => exact leads (makes.drainOnWorker isOpen within budget)
  | finishPending record budget =>
    simp only [Machine.pursue, finishPending, ends_bind, ends_get]
    split
    · split
      · exact ends_bind.2 (ends_throw.2 ⟨m.moment tasks, .refl, isOpen, rfl⟩)
      · exact leads (makes.drainOnWorker isOpen within budget)
    · exact leads (makes.drain isOpen within record budget)

theorem Makes.pursueAll (makes : Makes nests invoke) (isOpen : areOpen tasks = true)
    (within : nests = true ∨ tasks = []) (steps : List Step) :
    Moves nests (pursueAll invoke steps) tasks tasks := by
  induction steps with
  | nil => exact moves_pure ()
  | cons step steps ih =>
    have taken : Moves nests (Machine.pursue invoke step).orStuck tasks tasks := fun m ready =>
      ends_orStuck.2 <| (makes.pursue isOpen within step ready).imp (fun _ _ leads => leads)
        fun _ _ stops => ⟨rfl, stops⟩
    exact taken.then fun _ => ih

theorem makes_course (course : Course γ) : Makes false (notedCall carryAll course) :=
  makes_notedCall fun meanwhile _ isOpen => moves_carryAll isOpen meanwhile

theorem makes_nestedCall (plan : Plan γ) (depth : Nat) : Makes true (nestedCall plan depth) := by
  induction depth with
  | zero => exact makes_notedCall fun _ _ isOpen => moves_stuck isOpen
  | succ depth ih =>
    exact makes_notedCall fun meanwhile _ isOpen => ih.pursueAll isOpen (.inl rfl) meanwhile

/-- Moves lead from a new heap to all that is noted of a run. -/
theorem Makes.leads {config : Config} {h : Heap} (makes : Makes nests invoke)
    (run : Heap.create config = .ok (.ok h)) (client : γ) (steps : List Step) :
    (Moment.mk [] h []).Ready
      ∧ ∃ last, Leads nests ⟨[], h, []⟩ last ∧ areOpen last.tasks = true
        ∧ last.log
          = ((Machine.pursueAll invoke steps).after { heap := h, client := { client } }).client.log := by
  obtain ⟨heap, -, idle⟩ := Heap.ready_create run
  have begins : (Moment.mk [] h []).Ready := by
    refine ⟨heap, fun call made => ?_, nofun, nofun, nofun⟩
    rw [idle] at made
    cases made
  refine ⟨begins, ?_⟩
  have moves : Moves nests (Machine.pursueAll invoke steps) [] [] :=
    makes.pursueAll rfl (.inr rfl) steps
  have ends := moves { heap := h, client := { client } } begins
  refine ends.after (fun m' => Stops nests ⟨[], h, []⟩ m'.client.log) (fun _ m' leads => ?_)
    fun _ _ both => both.2
  exact ⟨m'.moment [], leads, rfl, rfl⟩

end Machine

end ManagedHeap
