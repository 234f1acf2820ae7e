import ManagedHeap.Proofs.Phantoms
import ManagedHeap.Proofs.Queries

/-!
Pending work is of live objects. Whatever is in the tables lives, so that no check fails when work is
taken, and collections ask about nothing else. Calls are made on the objects that they were due to. One
that another call of the same work follows has to keep its object: the heap sees to that, but not once
calls have been made within the call.
-/

namespace ManagedHeap

namespace Heap

/-- All that is in the tables lives, and nothing waits twice for its finalizer. -/
structure OnlyLive (h : Heap) : Prop where
  finalizable : ∀ x ∈ h.tables.finalizable.entries, h.source.contains x = true
  pending : ∀ x ∈ h.tables.pending.entries, h.source.contains x = true
  held : ∀ x ∈ h.nonCollectable.entries, h.source.contains x = true
  queued : ∀ x ∈ h.queued, h.source.contains x = true
  scheduled : ∀ x ∈ h.tables.scheduled, h.source.contains x = true
  once : h.tables.finalizable.entries.Nodup
  onceDue : h.tables.pending.entries.Nodup
  apart : h.tables.finalizable.entries.Disjoint h.tables.pending.entries

theorem Tended.onlyLive {h : Heap} (tended : h.Tended) : h.OnlyLive := by
  have contains : ∀ {x}, h.isValid x = true → h.source.contains x = true := fun live =>
    (tended.sound.source.contains_eq _).trans live
  obtain ⟨once, onceDue, apart⟩ := List.nodup_append'.1 tended.once
  exact ⟨fun x waits => contains (tended.waiting x (List.mem_append_left _ waits)),
    fun x due => contains (tended.waiting x (List.mem_append_right _ due)),
    fun x kept => contains (tended.held x kept), fun x due => contains (tended.queued x due),
    fun x known => contains (tended.scheduled x known), once, onceDue, apart⟩

end Heap

/-- Work is taken of objects that live. -/
theorem Took.live {h h' : Heap} {object : Nat} {calls : List Callback}
    (took : Took h object calls h') (tended : h.Tended) : h'.isValid object = true := by
  cases took with
  | reference next =>
    have due : object ∈ h.queued := by
      rw [Heap.queued, next]
      exact List.mem_cons_self
    exact tended.queued object due
  | finalizer idle next =>
    have due : object ∈ h.waiting := by
      rw [Heap.waiting, next]
      exact List.mem_append_right _ List.mem_cons_self
    exact tended.waiting object due

/-! ### No check fails -/

namespace Machine

open Action

variable [ObjectModel] {γ α β : Type} {config : Config} {invoke : Invoke γ} {record object : Nat}

/-- The calls of the program leave a heap that programs can come to, whether they fail or not. They may
use the heap, and have pending calls made, as they like. -/
def Operates (config : Config) (invoke : Invoke γ) : Prop :=
  ∀ record callback object,
    (invoke record callback object).Preserves fun m => Heap.Reachable config m.heap

/-- Started from a heap that programs can come to, the action ends with such a heap, and no check of the
heap fails in it. -/
def Checks (config : Config) (a : Action (Machine γ) α) : Prop :=
  ∀ m, Heap.Reachable config m.heap → a.Ends m (fun _ m' => Heap.Reachable config m'.heap)
    fun cause m' => (∀ defect, cause ≠ .defect defect) ∧ Heap.Reachable config m'.heap

theorem Checks.then {a : Action (Machine γ) α} {next : α → Action (Machine γ) β}
    (first : Checks config a) (rest : ∀ value, Checks config (next value)) :
    Checks config (a >>= next) := by
  intro m reachable
  rw [ends_bind]
  exact (first m reachable).mono fun value m' reachable' => rest value m' reachable'

theorem checks_pure (value : α) : Checks config (pure value : Action (Machine γ) α) :=
  fun _ reachable => ends_pure.2 reachable

/-- Whatever goes wrong in a call of the program, it is no check of the heap. -/
theorem Operates.call (operates : Operates config invoke) (callback : Callback) :
    Checks config (call invoke record object callback) := by
  intro m reachable
  have ended : ∀ m' : Machine γ, Heap.Reachable config m'.heap →
      Heap.Reachable config m'.heap.endCall := fun m' reached => reached.step .endCall
  refine call_ends ?_
  refine (operates record callback object { m with heap := m.heap.startCall object callback }
    (reachable.step (.startCall object callback))).imp ?_ ?_
  · exact fun _ m' reached => ended m' reached
  · intro cause m' reached
    cases cause with
    | defect => exact ended m' reached
    | fatal => exact ⟨nofun, ended m' reached⟩
    | stuck => exact ⟨nofun, ended m' reached⟩

theorem Operates.callEach (operates : Operates config invoke) (calls : List Callback) :
    Checks config (callEach invoke record object calls) := by
  induction calls with
  | nil => exact checks_pure ()
  | cons callback rest ih => exact (operates.call callback).then fun _ => ih

theorem Operates.workOnce (operates : Operates config invoke) (record : Nat) :
    Checks config (workOnce invoke record) := by
  intro m reachable
  have taken := reachable.ends .takeWork
  simp only [Heap.perform, Heap.silent, ends_bind, ends_pure] at taken
  simp only [Machine.workOnce, onHeap, ends_bind, ends_on]
  refine ((takeWork_took m.heap).and taken).imp ?_ fun _ _ both => both.1.elim
  rintro (_ | ⟨object, calls⟩) h ⟨took, reached⟩
  · exact ends_pure.2 reached
  · have live : h.isValid object = true := Took.live took reachable.tended
    have rest : Checks config (do
        Machine.callEach invoke record object calls
        modifyHeap fun h => { h with threads := (h.threads.untrack? record object).getD h.threads }
        return true : Action (Machine γ) Bool) :=
      (operates.callEach calls).then fun _ m' reached' =>
        ends_bind.2 (ends_modify.2 (ends_pure.2 (reached'.step (.untrack record object))))
    have ends := rest { m with heap := { h with threads := h.threads.track record object } }
      (reached.step (.track record object))
    simp only [modifyHeap, ends_bind, ends_modify, ends_get, ends_require] at ends ⊢
    refine ⟨fun _ => ends, fun gone => ?_⟩
    rw [show h.isValid object = false from gone] at live
    cases live

theorem Operates.drain (operates : Operates config invoke) (record budget : Nat) :
    Checks config (drain invoke record budget) := by
  induction budget with
  | zero => exact fun _ reachable => ends_throw.2 ⟨nofun, reachable⟩
  | succ budget ih =>
    refine (operates.workOnce record).then fun more => ?_
    cases more with
    | true => exact ih
    | false => exact checks_pure ()

end Machine

/-! ### What a journal tells of the objects of calls -/

/-- Neither is the object gone after the entry, nor another one in its place. -/
def Entry.Spares (x : Nat) : Entry → Prop
  | .operated _ h result h' => h.isValid x = true ∧ h'.isValid x = true ∧ result ≠ some x
  | _ => True

/-- The operation left the call to be made. -/
def Entry.Leaves (callback : Callback) (x : Nat) (e : Entry) : Prop :=
  (∃ work, (x, work) ∈ e.queued ∧ callback ∈ work.calls) ∨ (callback = .finalize ∧ x ∈ e.pended)

/-- An operation left the call to be made on a live object, and since then the object has lived on. -/
def Awaited (callback : Callback) (x : Nat) (log : List Entry) : Prop :=
  ∃ before op h result h' since, log = before ++ .operated op h result h' :: since
    ∧ (Entry.operated op h result h').Leaves callback x ∧ h'.isValid x = true ∧ result ≠ some x
    ∧ ∀ e ∈ since, e.Spares x

/-- A call is made on the live object that it was due to. -/
def Entry.Answers (log : List Entry) : Entry → Prop
  | .called callback x => Awaited callback x log
  | _ => True

/-- The references that are being told to clear themselves. -/
def clearing (log : List Entry) : List Nat :=
  (((log.flatMap Entry.begun).diff (log.flatMap Entry.ended)).filter (·.1 == .clear)).map Prod.snd

/-- Operations start from the references that are being told to clear themselves. -/
def Entry.Guards (log : List Entry) : Entry → Prop
  | .operated _ h _ _ => ∀ r ∈ clearing log, r ∈ h.rootSet
  | _ => True

/-- The call is still to be made. -/
inductive Moment.Ahead (m : Moment) : Callback → Nat → Prop where
  | task {task : Task} {callback : Callback} {x : Nat} :
    task ∈ m.tasks → (callback, x) ∈ task.rest → m.Ahead callback x
  | queued {work : ReferenceWork} {callback : Callback} {x : Nat} :
    (x, work) ∈ m.heap.tables.operations.entries → callback ∈ work.calls → m.Ahead callback x
  | due {x : Nat} : x ∈ m.heap.tables.pending.entries → m.Ahead .finalize x

/-- Only the call that clears a reference is followed by another one. -/
def Task.InTurn : Task → Prop
  | .due _ calls => calls.length ≤ 1 ∨ ∃ callback, calls = [.clear, callback]
  | .calling callback _ calls => calls = [] ∨ callback = .clear ∧ calls.length = 1

section

variable {x r : Nat} {callback : Callback} {log : List Entry} {e : Entry} {m : Moment}

theorem Awaited.concat (awaited : Awaited callback x log) (spares : e.Spares x) :
    Awaited callback x (log ++ [e]) := by
  obtain ⟨before, op, h, result, h', since, rfl, leaves, live, other, spared⟩ := awaited
  refine ⟨before, op, h, result, h', since ++ [e], ?_, leaves, live, other, fun e' member => ?_⟩
  · rw [List.append_assoc, List.cons_append]
  · rcases List.mem_append.1 member with before | last
    · exact spared e' before
    · exact List.mem_singleton.1 last ▸ spares

theorem mem_clearing : r ∈ clearing log ↔
    (log.flatMap Entry.ended).count (.clear, r) < (log.flatMap Entry.begun).count (.clear, r) := by
  have mem : r ∈ clearing log ↔
      (Callback.clear, r) ∈ (log.flatMap Entry.begun).diff (log.flatMap Entry.ended) := by
    simp only [clearing, List.mem_map, List.mem_filter, beq_iff_eq]
    constructor
    · rintro ⟨⟨callback, r⟩, ⟨member, rfl⟩, rfl⟩
      exact member
    · exact fun member => ⟨(.clear, r), ⟨member, rfl⟩, rfl⟩
  rw [mem, ← List.count_pos_iff, List.count_diff]
  exact Nat.sub_pos_iff_lt

/-- They are those for which the call is being made. -/
theorem Balanced.mem_clearing (balanced : Balanced m) :
    r ∈ clearing m.log ↔ (.clear, r) ∈ m.tasks.filterMap Task.running := by
  rw [ManagedHeap.mem_clearing, balanced.begun, ← List.count_pos_iff]
  omega

/-- The same work is pending, and of the tasks nothing is left to be done that was not before. -/
theorem Moment.Ahead.before {m' : Moment} (ahead : m'.Ahead callback x)
    (tables : m'.heap.tables = m.heap.tables)
    (tasks : ∀ task ∈ m'.tasks, ∀ call ∈ task.rest, ∃ task' ∈ m.tasks, call ∈ task'.rest) :
    m.Ahead callback x := by
  cases ahead with
  | task member rest =>
    obtain ⟨task', member', rest'⟩ := tasks _ member _ rest
    exact .task member' rest'
  | queued member asked => exact .queued (tables ▸ member) asked
  | due member => exact .due (tables ▸ member)

theorem Took.ahead {h h' : Heap} {object : Nat} {calls : List Callback} {tasks : List Task}
    (took : Took h object calls h')
    (ahead : Moment.Ahead ⟨.due object calls :: tasks, h', log⟩ callback x) :
    Moment.Ahead ⟨tasks, h, log⟩ callback x := by
  cases took with
  | reference next =>
    cases ahead with
    | task member rest =>
      rcases List.mem_cons.1 member with rfl | inner
      · obtain ⟨_, asked, ⟨⟩⟩ := List.mem_map.1 rest
        exact .queued (next ▸ List.mem_cons_self) asked
      · exact .task inner rest
    | queued member asked => exact .queued (next ▸ List.mem_cons_of_mem _ member) asked
    | due member => exact .due member
  | finalizer idle next =>
    cases ahead with
    | task member rest =>
      rcases List.mem_cons.1 member with rfl | inner
      · cases List.mem_singleton.1 rest
        exact .due (next ▸ List.mem_cons_self)
      · exact .task inner rest
    | queued member asked => exact .queued member asked
    | due member => exact .due (next ▸ List.mem_cons_of_mem _ member)

theorem Took.inTurn {h h' : Heap} {object : Nat} {calls : List Callback}
    (took : Took h object calls h') : (Task.due object calls).InTurn := by
  cases took with
  | finalizer => exact .inl (Nat.le_refl 1)
  | @reference work =>
    obtain ⟨clear, enqueue⟩ := work
    cases clear <;> cases enqueue
    · exact .inl (Nat.zero_le 1)
    · exact .inl (Nat.le_refl 1)
    · exact .inl (Nat.le_refl 1)
    · exact .inr ⟨.enqueue, rfl⟩

/-- Operations are carried out within calls only. -/
theorem Moment.Ready.running (ready : m.Ready) (isOpen : areOpen m.tasks = true) :
    ∀ task ∈ m.tasks, task.running.isSome = true := by
  obtain ⟨tasks, h, log⟩ := m
  intro task member
  cases tasks with
  | nil => cases member
  | cons top rest =>
    rcases List.mem_cons.1 member with rfl | inner
    · cases task with
      | due => cases isOpen
      | calling => rfl
    · exact ready.within task inner

end

section

variable [ObjectModel] {nests : Bool} {m m' : Moment} {h h' : Heap} {x r : Nat} {callback : Callback}
  {noted : List Entry}

/-- Whatever is still to be made is due to a live object, and so was whatever has been made. -/
structure Awaits (m : Moment) : Prop where
  balanced : Balanced m
  inTurn : ∀ task ∈ m.tasks, task.InTurn
  ahead : ∀ callback x, m.Ahead callback x → m.heap.isValid x = true ∧ Awaited callback x m.log
  answers : Throughout Entry.Answers m.log

theorem Move.log (move : Move nests m m') : m.log <+: m'.log := by
  cases move with
  | operate | call | «return» => exact List.prefix_append ..
  | take | finish | track => exact List.prefix_refl _

theorem Move.inTurn (move : Move nests m m') (inTurn : ∀ task ∈ m.tasks, task.InTurn) :
    ∀ task ∈ m'.tasks, task.InTurn := by
  cases move with
  | operate | track => exact inTurn
  | take isOpen within took => exact List.forall_mem_cons.2 ⟨took.inTurn, inTurn⟩
  | call tasks h log callback object calls =>
    obtain ⟨here, others⟩ := List.forall_mem_cons.1 inTurn
    refine List.forall_mem_cons.2 ⟨?_, others⟩
    rcases here with short | ⟨callback', same⟩
    · exact .inl (List.eq_nil_of_length_eq_zero (Nat.le_zero.1 (Nat.le_of_succ_le_succ short)))
    · cases same
      exact .inr ⟨rfl, rfl⟩
  | «return» tasks h log callback object calls =>
    obtain ⟨here, others⟩ := List.forall_mem_cons.1 inTurn
    refine List.forall_mem_cons.2 ⟨.inl ?_, others⟩
    rcases here with rfl | ⟨-, one⟩
    · exact Nat.zero_le 1
    · exact Nat.le_of_eq one
  | finish => exact (List.forall_mem_cons.1 inTurn).2

/-- What is still to be made after an operation was left by it, or its object is one of those that the
operation started from. -/
theorem Awaits.operated {tasks : List Task} {op : Heap.Operation} {result : Option Nat}
    (awaits : Awaits ⟨tasks, h, noted⟩) (ready : Moment.Ready ⟨tasks, h, noted⟩)
    (isOpen : areOpen tasks = true) (conducted : Heap.Conducted op h result h')
    (guards : Entry.Guards noted (.operated op h result h'))
    (ahead : Moment.Ahead ⟨tasks, h', noted ++ [.operated op h result h']⟩ callback x) :
    h'.isValid x = true ∧ Awaited callback x (noted ++ [.operated op h result h']) := by
  have kept : Moment.Ahead ⟨tasks, h, noted⟩ callback x → x ∈ h.rootSet →
      h'.isValid x = true ∧ Awaited callback x (noted ++ [.operated op h result h']) := by
    intro before root
    obtain ⟨live, awaited⟩ := awaits.ahead callback x before
    obtain ⟨live', other⟩ := conducted.roots x root live
    exact ⟨live', awaited.concat ⟨live, live', other⟩⟩
  have left : (Entry.operated op h result h').Leaves callback x → h'.isValid x = true →
      result ≠ some x →
      h'.isValid x = true ∧ Awaited callback x (noted ++ [.operated op h result h']) :=
    fun leaves live other => ⟨live, noted, op, h, result, h', [], rfl, leaves, live, other,
      List.forall_mem_nil _⟩
  cases ahead with
  | @task task _ _ member rest =>
    refine kept (.task member rest) (guards x (awaits.balanced.mem_clearing.2 ?_))
    have runs := ready.running isOpen task member
    cases task with
    | due => cases runs
    | calling callback' object calls =>
      obtain ⟨_, asked, ⟨⟩⟩ := List.mem_map.1 rest
      rcases awaits.inTurn _ member with rfl | ⟨rfl, -⟩
      · cases asked
      · exact List.mem_filterMap.2 ⟨_, member, rfl⟩
  | @queued work _ _ member asked =>
    have due : x ∈ h'.queued := List.mem_map_of_mem member
    have entries : (x, work) ∈ h'.tables.operations.entries := member
    rw [conducted.queuedSince, List.mem_append] at entries
    rcases entries with before | new
    · exact kept (.queued before asked) (Heap.queued_root (List.mem_map_of_mem before))
    · refine left (.inl ⟨work, new, asked⟩) (conducted.ready.queued x due) fun same => ?_
      exact (conducted.fresh x same).1 due
  | due member =>
    have entries : x ∈ h'.tables.pending.entries := member
    rw [conducted.pendedSince, List.mem_append] at entries
    rcases entries with before | new
    · exact kept (.due before) (Heap.pending_root before)
    · refine left (.inr ⟨rfl, new⟩) ?_ fun same => (conducted.fresh x same).2 member
      exact conducted.ready.waiting x (List.mem_append_right _ member)

theorem Move.awaits (move : Move nests m m') (ready : m.Ready)
    (guarded : Throughout Entry.Guards m'.log) (awaits : Awaits m) : Awaits m' := by
  have balanced' := move.balanced ready awaits.balanced
  have inTurn' := move.inTurn awaits.inTurn
  obtain ⟨-, -, ahead, answers⟩ := id awaits
  cases move with
  | @operate tasks h h' log op result isOpen whole run =>
    have conducted := (Heap.perform_conducted ready.heap whole).ok run
    have guards := guarded log _ [] rfl
    exact ⟨balanced', inTurn', fun callback x => awaits.operated ready isOpen conducted guards,
      answers.concat trivial⟩
  | take isOpen within took =>
    refine ⟨balanced', inTurn', fun callback x later => ?_, answers⟩
    have before := ahead callback x (took.ahead later)
    cases took with
    | reference => exact before
    | finalizer => exact before
  | call tasks h log callback object calls =>
    have now := (ahead callback object (.task List.mem_cons_self List.mem_cons_self)).2
    refine ⟨balanced', inTurn', fun callback' x later => ?_, answers.concat now⟩
    have before := later.before (m := ⟨.due object (callback :: calls) :: tasks, h, log⟩) rfl <|
      List.forall_mem_cons.2 ⟨fun call rest => ⟨_, List.mem_cons_self, List.mem_cons_of_mem _ rest⟩,
        fun task inner call rest => ⟨task, List.mem_cons_of_mem _ inner, rest⟩⟩
    obtain ⟨live, awaited⟩ := ahead callback' x before
    exact ⟨live, awaited.concat trivial⟩
  | «return» tasks h log callback object calls =>
    refine ⟨balanced', inTurn', fun callback' x later => ?_, answers.concat trivial⟩
    have before := later.before (m := ⟨.calling callback object calls :: tasks, h, log⟩) rfl <|
      List.forall_mem_cons.2 ⟨fun call rest => ⟨_, List.mem_cons_self, rest⟩,
        fun task inner call rest => ⟨task, List.mem_cons_of_mem _ inner, rest⟩⟩
    obtain ⟨live, awaited⟩ := ahead callback' x before
    exact ⟨live, awaited.concat trivial⟩
  | finish tasks h log object =>
    refine ⟨balanced', inTurn', fun callback x later => ahead callback x (later.before rfl ?_), answers⟩
    exact fun task member call rest => ⟨task, List.mem_cons_of_mem _ member, rest⟩
  | track tasks h log threads =>
    refine ⟨balanced', inTurn', fun callback x later => ?_, answers⟩
    exact ahead callback x (later.before rfl fun task member call rest => ⟨task, member, rest⟩)

/-- Where no calls are made within calls, the heap has operations start from the object of the call. -/
theorem Move.guarded (move : Move false m m') (ready : m.Ready) (alone : m.Alone)
    (balanced : Balanced m) (guarded : Throughout Entry.Guards m.log) :
    Throughout Entry.Guards m'.log := by
  obtain ⟨single, current, live⟩ := alone
  cases move with
  | @operate tasks h h' log op result isOpen whole run =>
    refine guarded.concat fun r due => ?_
    obtain ⟨task, member, runs⟩ := List.mem_filterMap.1 (balanced.mem_clearing.1 due)
    cases tasks with
    | nil => cases member
    | cons top rest =>
      cases (show rest = [] from single)
      cases List.mem_singleton.1 member
      cases task with
      | due => cases runs
      | calling =>
        cases runs
        have engaged : h.Engaged r := ⟨live _ member, .inr ⟨_, current⟩⟩
        exact engaged.root
  | call | «return» => exact guarded.concat trivial
  | take | finish | track => exact guarded

omit [ObjectModel] in
theorem awaits_create {config : Config} (run : Heap.create config = .ok (.ok h)) :
    Awaits ⟨[], h, []⟩ := by
  obtain ⟨-, tables, -⟩ := Heap.ready_create run
  refine ⟨balanced_create run, nofun, fun callback x later => ?_, throughout_nil _⟩
  cases later with
  | task member => cases member
  | queued member =>
    rw [tables] at member
    cases member
  | due member =>
    rw [tables] at member
    cases member

end

section

variable [M : ObjectModel] {config : Config} {γ : Type}

/-- Where no calls are made within calls, they are all made on live objects: those on which they were
left to be made. -/
theorem answers_course {h : Heap} (run : Heap.create config = .ok (.ok h))
    (course : Machine.Course γ) (client : γ) (steps : List Step) :
    Throughout Entry.Answers ((Machine.followAll course steps).after
      { heap := h, client := { client } }).client.log := by
  obtain ⟨begins, last, leads, -, log⟩ := (Machine.makes_course course).leads run client steps
  rw [Machine.followAll, ← log]
  have created : (Moment.mk [] h []).Alone ∧ Throughout Entry.Guards [] ∧ Awaits ⟨[], h, []⟩ :=
    ⟨(agrees_create run).alone, throughout_nil _, awaits_create run⟩
  refine (leads.keeps (p := fun m => m.Alone ∧ Throughout Entry.Guards m.log ∧ Awaits m) begins created
    fun move ready kept => ?_).2.2.answers
  obtain ⟨alone, guarded, awaits⟩ := kept
  have guarded' := move.guarded ready alone awaits.balanced guarded
  exact ⟨move.alone ready alone, guarded', move.awaits ready guarded' awaits⟩

/-- Where calls are made within calls this takes that references are kept which are being told to clear
themselves. -/
theorem answers_nested {h : Heap} (run : Heap.create config = .ok (.ok h)) (plan : Machine.Plan γ)
    (depth : Nat) (client : γ) (steps : List Step) :
    let log := ((Machine.pursueAll (Machine.nestedCall plan depth) steps).after
      { heap := h, client := { client } }).client.log
    Throughout Entry.Guards log → Throughout Entry.Answers log := by
  obtain ⟨begins, last, leads, -, log⟩ :=
    (Machine.makes_nestedCall plan depth).leads run client steps
  intro noted guarded
  rw [show noted = last.log from log.symm] at guarded ⊢
  refine (leads.keeps (p := fun m => Throughout Entry.Guards m.log → Awaits m) begins
    (fun _ => awaits_create run) (fun move ready before guarded' => ?_) guarded).answers
  exact move.awaits ready guarded' (before (guarded'.of_prefix move.log))

omit γ in
/-- Whatever programs do, the tables have only live objects in them, and operations ask the program about
no others. No check fails when pending work is taken, and all calls are made on the live objects that
they were left to be made on. Where calls are made within calls, programs have to keep the references
that are being told to clear themselves. -/
theorem pending_work_lives :
    (∀ h, Heap.Reachable config h → h.OnlyLive ∧ ∀ (M' : ObjectModel) op, h.source.Agree M M' →
      @Heap.perform M op h = @Heap.perform M' op h)
    ∧ (∀ {γ : Type} (invoke : Machine.Invoke γ), Machine.Operates config invoke →
      ∀ record budget, Machine.Checks config (Machine.workOnce invoke record)
        ∧ Machine.Checks config (Machine.drain invoke record budget))
    ∧ ∀ h, Heap.create config = .ok (.ok h) → ∀ {γ : Type} (client : γ) (steps : List Step),
      (∀ course, Throughout Entry.Answers ((Machine.followAll course steps).after
          { heap := h, client := { client } }).client.log)
        ∧ ∀ plan depth, let log := ((Machine.pursueAll (Machine.nestedCall plan depth) steps).after
            { heap := h, client := { client } }).client.log
          Throughout Entry.Guards log → Throughout Entry.Answers log := by
  refine ⟨fun h reachable => ?_, fun invoke operates record budget => ?_,
    fun h run γ client steps => ⟨fun course => ?_, fun plan depth => ?_⟩⟩
  · have tended := reachable.tended
    exact ⟨tended.onlyLive, fun M' op agree => Heap.perform_congr tended agree op⟩
  · exact ⟨operates.workOnce record, operates.drain record budget⟩
  · exact answers_course run course client steps
  · exact answers_nested run plan depth client steps

end

/-! ### A run -/

instance (log : List Entry) : (e : Entry) → Decidable (Entry.Guards log e)
  | .operated _ h _ _ => inferInstanceAs (Decidable (∀ r ∈ clearing log, r ∈ h.rootSet))
  | .called .. => inferInstanceAs (Decidable True)
  | .returned .. => inferInstanceAs (Decidable True)

/-- The model sees objects that refer to themselves wherever none lives. -/
abbrev ObjectModel.elsewhere (M : ObjectModel) (s : Source) : ObjectModel :=
  { M with
    children := fun p => if s.isPublished p.address then M.children p else [p.address]
    children_clear := fun p refers => by
      change (if s.isPublished p.address then _ else _) = _
      rw [M.children_clear p refers]
      rfl }

theorem Source.agree_elsewhere [M : ObjectModel] (s : Source) : s.Agree M (M.elsewhere s) :=
  fun _ live => ⟨(if_pos live).symm, rfl, rfl, rfl, rfl, rfl⟩

/-- In every call there is a collection. -/
def collectWithin : Machine.Invoke Unit := fun _ _ _ => do
  let _ ← Machine.onHeap (Heap.perform (.collect false))

theorem operates_collectWithin {config : Config} : Machine.Operates config collectWithin := by
  intro record callback object m reachable
  have collected := reachable.ends (.collect false)
  simp only [collectWithin, Machine.onHeap, Action.ends_bind, Action.ends_on, Action.ends_pure]
  exact collected.mono fun _ _ reached => reached

/-- A weak reference that clears itself and has a queue refers to the first of two objects with
finalizers. A collection leaves the calls of the reference to be made, and of the other object. -/
def leftWork : List Heap.Operation :=
  let reference := Region.arenaBase 0
  let referent := reference + 32
  [.attach 0 "main", .request 0 24 {}, .request 0 24 { finalizable := true, untracked := true },
    .request 0 24 { finalizable := true, untracked := true },
    .write reference 0 1 (Tag.make (some .weak) true true false 0),
    .write reference Object.referentWord 1 referent, .collect false]

/-- The reference is told to clear itself, and is put on its queue. -/
def clearsFirst : List Step := operateAll leftWork ++ [.work 0]

/-- Told to clear itself the reference has the other calls made, is let go or not, and then there is a
collection. The thread tracks it for having asked for it, and once more for the call. -/
def clearWithin (letsGo : Bool) : Machine.Plan Unit := fun record callback object m =>
  let release := if letsGo then [.untrack record object, .untrack record object] else []
  { client := m.client
    meanwhile :=
      if callback = .clear then .finishPending record 3 :: operateAll (release ++ [.collect false])
      else [] }

theorem leftWork_lives :
    let h := Heap.small.afterAll leftWork
    let log := ((Machine.pursueAll (Machine.nestedCall (clearWithin false) 2) clearsFirst).after
      { heap := Heap.small, client := { client := () } }).client.log
    (h.queued = [Region.arenaBase 0] ∧ h.tables.pending.entries = [Region.arenaBase 0 + 64]
      ∧ h.OnlyLive)
    ∧ Heap.perform (.collect false) h
        = @Heap.perform (ObjectModel.elsewhere inferInstance h.source) (.collect false) h
    ∧ Machine.Checks Heap.smallConfig (Machine.drain collectWithin 0 3)
    ∧ log.flatMap Entry.begun = [(.clear, Region.arenaBase 0), (.finalize, Region.arenaBase 0 + 64),
        (.enqueue, Region.arenaBase 0)]
    ∧ Throughout Entry.Answers log := by
  obtain ⟨lives, checks, answers⟩ := @pending_work_lives _ Heap.smallConfig
  obtain ⟨onlyLive, asks⟩ := lives _ (Heap.reachable_small.afterAll leftWork)
  refine ⟨⟨by decide +kernel, by decide +kernel, onlyLive⟩, ?_, ?_, by decide +kernel, ?_⟩
  · exact asks _ _ (Source.agree_elsewhere _)
  · exact (checks collectWithin operates_collectWithin 0 3).2
  · have run : Heap.create Heap.smallConfig = .ok (.ok Heap.small) := rfl
    refine (answers Heap.small run () clearsFirst).2 (clearWithin false) 2 ?_
    exact throughout_of_mayFollow (by decide +kernel)

/-- A reference that is let go meanwhile is swept, and put on its queue after that. -/
example :
    let last := (Machine.pursueAll (Machine.nestedCall (clearWithin true) 2) clearsFirst).after
      { heap := Heap.small, client := { client := () } }
    last.client.log.flatMap Entry.begun = [(.clear, Region.arenaBase 0),
      (.finalize, Region.arenaBase 0 + 64), (.enqueue, Region.arenaBase 0)]
      ∧ last.heap.isValid (Region.arenaBase 0) = false := by
  decide +kernel

end ManagedHeap
