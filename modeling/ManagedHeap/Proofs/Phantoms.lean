import ManagedHeap.Proofs.CallbackOrder

/-!
Phantom references come after finalizers. An object that waits for its finalizer is marked, and so is
one whose finalizer is being called, also while other calls are made within that call. So no collection
lets the phantom references to it go.
-/

namespace ManagedHeap

/-! ### What a journal tells -/

/-- What the entry shows at an address. -/
def Entry.seen (x : Nat) : Entry → List Event
  | .operated op h result h' => h.events x op result h'
  | .called .finalize object => if object = x then [.finalized] else []
  | _ => []

/-- The operation, which is no write, lets a phantom reference go: its referent is gone from it, or
calls of it were queued. -/
structure Releases [ObjectModel] (op : Heap.Operation) (h : Heap) (result : Option Nat) (h' : Heap)
    (reference referent : Nat) : Prop where
  plain : op.isWrite = false
  live : h'.isValid reference = true
  old : result ≠ some reference
  kind : h.source.kind? reference = some .phantom
  refers : h.source.referent? reference = some referent
  gone : h.LetsGo h' reference referent

/-- No more calls for its queue have begun on the reference than were queued, and so one that is queued
only then comes later. -/
def EnqueuesInTurn (reference : Nat) (log : List Entry) : Prop :=
  (log.flatMap Entry.begun).count (.enqueue, reference)
    ≤ (log.flatMap Entry.queued).countP fun (other, work) => other == reference && work.enqueue

/-- The object neither waits for its finalizer, before the operation or after it, nor is it being
finalized. An object that was allocated in its place may wait. -/
structure Heap.Settled (h : Heap) (result : Option Nat) (h' : Heap) (x : Nat) : Prop where
  before : x ∉ h.tables.finalizable.entries ∧ x ∉ h.tables.pending.entries
  after : result ≠ some x → x ∉ h'.tables.finalizable.entries ∧ x ∉ h'.tables.pending.entries
  idle : h.inFlight ≠ some (.finalize, x)
  /-- No thread tracks the object, as one does that has its finalizer called, whatever other calls are
  made within that call. -/
  loose : h.isValid x = true → x ∉ h.rootSet

/-- The call, which began before, is over, or another one has begun since. -/
def Left (callback : Callback) (object : Nat) (since : List Entry) : Prop :=
  .returned callback object ∈ since ∨ ∃ callback' other, .called callback' other ∈ since

section

variable {x : Nat} {h h' : Heap} {log : List Entry}

/-- Everything seen at the address in a journal. -/
def seenAt (x : Nat) (log : List Entry) : List Event := log.flatMap (Entry.seen x)

theorem seenAt_append (x : Nat) (first second : List Entry) :
    seenAt x (first ++ second) = seenAt x first ++ seenAt x second := List.flatMap_append

theorem seenAt_concat (x : Nat) (log : List Entry) (e : Entry) :
    seenAt x (log ++ [e]) = seenAt x log ++ e.seen x := by
  rw [seenAt_append, seenAt, seenAt, List.flatMap_singleton]

/-- The finalizer of the object is to be called next. -/
def FinalizerNext (x : Nat) (tasks : List Task) : Prop :=
  ∃ calls rest, tasks = .due x (.finalize :: calls) :: rest

theorem not_next {tasks : List Task} (isOpen : areOpen tasks = true) : ¬ FinalizerNext x tasks := by
  rintro ⟨calls, rest, rfl⟩
  cases isOpen

/-- The heap keeps what it promises at the address. Only once the object was taken from those that wait
its call is due. -/
structure Moment.Watched (x : Nat) (m : Moment) : Prop where
  promises : ¬ FinalizerNext x m.tasks → Heap.Promises x (seenAt x m.log) m.heap
  due : FinalizerNext x m.tasks → Heap.Due x (seenAt x m.log) m.heap

theorem Heap.Promises.aside {seen : List Event} (promises : Heap.Promises x seen h)
    (aside : Heap.Aside h h') : Heap.Promises x seen h' :=
  promises.progress (aside.progress promises.sound) promises.due

theorem Moment.Watched.of_promises {tasks : List Task}
    (promises : Heap.Promises x (seenAt x log) h) (other : ¬ FinalizerNext x tasks) :
    Moment.Watched x ⟨tasks, h, log⟩ :=
  ⟨fun _ => promises, fun next => absurd next other⟩

/-- A piece of work was taken. Where it is of the object at the address, its finalizer is due. -/
theorem Took.watched {object : Nat} {calls : List Callback} {tasks : List Task}
    (took : Took h object calls h') (promises : Heap.Promises x (seenAt x log) h) :
    Moment.Watched x ⟨.due object calls :: tasks, h', log⟩ := by
  cases took with
  | @reference work operations next =>
    have progress : Heap.Progress h { h with tables := { h.tables with operations } } :=
      promises.sound.progress rfl rfl rfl rfl
    refine .of_promises (promises.progress progress promises.due) ?_
    rintro ⟨calls, rest, same⟩
    obtain ⟨clear, enqueue⟩ := work
    cases clear <;> cases enqueue <;> cases same
  | @finalizer pending idle next =>
    have waiting : h.waiting.Perm
        (object :: Heap.waiting { h with tables := { h.tables with pending } }) := by
      rw [Heap.waiting, next]
      exact List.perm_middle
    have sound : Heap.Sound { h with tables := { h.tables with pending } } :=
      ⟨promises.sound.source, promises.sound.maximum⟩
    refine ⟨fun other => ?_, fun next => ?_⟩
    · refine promises.passed sound rfl waiting fun same => other ⟨[], tasks, ?_⟩
      rw [same]
    · obtain ⟨calls, rest, same⟩ := next
      cases same
      exact promises.taken sound rfl waiting

variable [ObjectModel] {nests : Bool} {m m' : Moment}

theorem Move.watched (move : Move nests m m') (ready : m.Ready) (watched : m.Watched x) :
    m'.Watched x := by
  cases move with
  | operate isOpen whole run =>
    refine .of_promises ?_ (not_next isOpen)
    rw [seenAt_concat]
    exact (Heap.perform_promises (watched.promises (not_next isOpen)) whole).ok run
  | take isOpen within took => exact took.watched (watched.promises (not_next isOpen))
  | call tasks h log callback object calls =>
    have aside := Machine.aside_startCall h object callback
    refine .of_promises ?_ (not_next rfl)
    rw [seenAt_concat]
    -- The call that was due is the only one to be seen at the address.
    by_cases here : callback = .finalize ∧ object = x
    · obtain ⟨rfl, rfl⟩ := here
      have due := (watched.due ⟨calls, tasks, rfl⟩).aside aside
      rw [Entry.seen, if_pos rfl]
      exact due.called
    · have unseen : (Entry.called callback object).seen x = [] := by
        cases callback with
        | finalize => exact if_neg fun same => here ⟨rfl, same⟩
        | clear | enqueue => rfl
      rw [unseen, List.append_nil]
      have other : ¬ FinalizerNext x (.due object (callback :: calls) :: tasks) := by
        rintro ⟨calls', rest, ⟨⟩⟩
        exact here ⟨rfl, rfl⟩
      exact (watched.promises other).aside aside
  | «return» tasks h log callback object calls =>
    have aside : Heap.Aside h h.endCall := ⟨rfl, rfl, rfl, rfl⟩
    have unseen : (Entry.returned callback object).seen x = [] := rfl
    refine .of_promises ?_ ?_
    · rw [seenAt_concat, unseen, List.append_nil]
      exact (watched.promises (not_next rfl)).aside aside
    · -- After a call of a piece of work only that of the queue may follow.
      rintro ⟨calls', rest, ⟨⟩⟩
      cases ready.later _ List.mem_cons_self .finalize List.mem_cons_self
  | finish tasks h log object =>
    refine .of_promises (watched.promises ?_) ?_
    · rintro ⟨calls, rest, ⟨⟩⟩
    · rintro ⟨calls, rest, rfl⟩
      cases ready.within _ List.mem_cons_self
  | track tasks h log threads =>
    have aside : Heap.Aside h { h with threads } := ⟨rfl, rfl, rfl, rfl⟩
    exact ⟨fun other => (watched.promises other).aside aside,
      fun next => (watched.due next).aside aside⟩

/-! ### What comes before -/

/-- Every call is over or another one has begun since, or the heap takes it to be made. -/
def Underway (m : Moment) : Prop := ∀ callback object before since,
  m.log = before ++ .called callback object :: since →
    Left callback object since ∨ m.heap.inFlight = some (callback, object)

omit [ObjectModel] in
theorem Left.append {callback : Callback} {object : Nat} {since : List Entry}
    (left : Left callback object since) (more : List Entry) :
    Left callback object (since ++ more) :=
  left.imp (List.mem_append_left more) <| Exists.imp fun _ => Exists.imp fun _ =>
    List.mem_append_left more

omit [ObjectModel] in
/-- What came before the last entry. -/
theorem split_concat {before since : List Entry} {e last : Entry}
    (split : log ++ [last] = before ++ e :: since) :
    (log = before ∧ last = e ∧ since = [])
      ∨ ∃ since', since = since' ++ [last] ∧ log = before ++ e :: since' := by
  rcases List.eq_nil_or_concat since with rfl | ⟨since', last', rfl⟩
  · obtain ⟨rfl, same⟩ := List.append_inj' split rfl
    cases same
    exact .inl ⟨rfl, rfl, rfl⟩
  · rw [List.concat_eq_append, ← List.cons_append, ← List.append_assoc] at split
    obtain ⟨same, last_eq⟩ := List.append_inj' split rfl
    cases last_eq
    exact .inr ⟨since', List.concat_eq_append, same⟩

theorem Move.underway (move : Move nests m m') (ready : m.Ready) (underway : Underway m) :
    Underway m' := by
  cases move with
  | @operate tasks h h' log op result isOpen whole run =>
    have conducted := (Heap.perform_conducted ready.heap whole).ok run
    intro callback object before since split
    rcases split_concat split with ⟨-, same, -⟩ | ⟨since', rfl, split'⟩
    · cases same
    · rw [show h'.inFlight = h.inFlight from conducted.current]
      exact (underway callback object before since' split').imp_left fun left => left.append _
  | call tasks h log callback object calls =>
    intro callback' object' before since split
    rcases split_concat split with ⟨-, same, -⟩ | ⟨since', rfl, -⟩
    · cases same
      exact .inr rfl
    · exact .inl (.inr ⟨callback, object, List.mem_append_right _ List.mem_cons_self⟩)
  | «return» tasks h log callback object calls =>
    intro callback' object' before since split
    rcases split_concat split with ⟨-, same, -⟩ | ⟨since', rfl, split'⟩
    · cases same
    · refine .inl ?_
      rcases underway callback' object' before since' split' with left | made
      · exact left.append _
      · -- The call that is over is the one that began last.
        cases ready.current _ made
        exact .inl (List.mem_append_right _ List.mem_cons_self)
  | take isOpen within took =>
    cases took with
    | reference => exact underway
    | finalizer => exact underway
  | finish | track => exact underway

/-- No finalizer is due at the address, and none is being called. -/
structure Concluded (x : Nat) (log : List Entry) : Prop where
  seen : Event.follow false (seenAt x log) = some false
  left : ∀ before since, log = before ++ .called .finalize x :: since → Left .finalize x since

/-- What may be noted next. -/
def Waited (log : List Entry) (e : Entry) : Prop :=
  (∀ r, EnqueuesInTurn r log) ∧ match e with
    | .operated op h result h' => ∀ r x, Releases op h result h' r x →
      h.Settled result h' x ∧ Concluded x log
    | _ => True

omit [ObjectModel] in
theorem Balanced.enqueues (balanced : Balanced m) (r : Nat) : EnqueuesInTurn r m.log := by
  have all := balanced.asked r .enqueue (by decide)
  change _ ≤ ManagedHeap.asked .enqueue r (m.log.flatMap Entry.queued)
  omega

/-- All has waited so far. -/
structure Waits (m : Moment) : Prop where
  balanced : Balanced m
  watched : ∀ x, m.Watched x
  underway : Underway m
  inOrder : Throughout Waited m.log

theorem Waits.settled {op : Heap.Operation} {result : Option Nat} (waits : Waits m)
    (ready : m.Ready) (isOpen : areOpen m.tasks = true) (whole : op.isWhole = true)
    (run : Heap.perform op m.heap = .ok result h') (atRest : m.heap.AtRest x) :
    m.heap.Settled result h' x := by
  have apart : ∀ {h : Heap}, x ∉ h.waiting →
      x ∉ h.tables.finalizable.entries ∧ x ∉ h.tables.pending.entries := fun absent =>
    ⟨fun member => absent (List.mem_append_left _ member),
      fun member => absent (List.mem_append_right _ member)⟩
  have promises := (waits.watched x).promises (not_next isOpen)
  refine ⟨apart atRest.done, fun other => apart fun member => ?_, fun made => ?_, atRest.loose⟩
  · -- Nothing comes to be due at the address but by an allocation there.
    have promises' := (Heap.perform_promises promises whole).ok run
    have due := promises'.due
    rw [Event.follow_append, promises.due, decide_eq_false atRest.done, decide_eq_true member,
      Heap.events, if_neg other, List.append_nil] at due
    split at due
    · cases due
    · cases due
  · have here := ready.heap.finalizing x made
    have engaged : m.heap.Engaged x := ⟨here, .inr ⟨_, made⟩⟩
    exact atRest.loose here engaged.root

/-- An object that waits for nothing is done with, whatever was promised to it. -/
theorem Waits.concluded (waits : Waits m) (isOpen : areOpen m.tasks = true)
    (done : x ∉ m.heap.waiting) (idle : m.heap.inFlight ≠ some (.finalize, x)) :
    Concluded x m.log := by
  constructor
  · rw [((waits.watched x).promises (not_next isOpen)).due, decide_eq_false done]
  · intro before since split
    exact (waits.underway .finalize x before since split).resolve_right idle

theorem Move.waits (move : Move nests m m') (ready : m.Ready) (waits : Waits m) : Waits m' := by
  have enqueues := waits.balanced.enqueues
  have balanced' := move.balanced ready waits.balanced
  have watched' := fun x => move.watched ready (waits.watched x)
  have underway' := move.underway ready waits.underway
  have inOrder := waits.inOrder
  cases move with
  | operate isOpen whole run =>
    refine ⟨balanced', watched', underway', inOrder.concat ⟨enqueues, fun r x releases => ?_⟩⟩
    have conducted := (Heap.perform_conducted ready.heap whole).ok run
    have atRest := conducted.phantoms releases.plain r x releases.live releases.old releases.kind
      releases.refers releases.gone
    have settled := waits.settled ready isOpen whole run atRest
    exact ⟨settled, waits.concluded isOpen atRest.done settled.idle⟩
  | call | «return» => exact ⟨balanced', watched', underway', inOrder.concat ⟨enqueues, trivial⟩⟩
  | take | finish | track => exact ⟨balanced', watched', underway', inOrder⟩

omit [ObjectModel] in
/-- Only an operation that answers an object shows that one was allocated. -/
theorem quiet_seenAt {life : List Entry} (none : ∀ op h h', .operated op h (some x) h' ∉ life) :
    Event.Quiet (seenAt x life) := by
  intro finalizable member
  obtain ⟨e, noted, shown⟩ := List.mem_flatMap.1 member
  cases e with
  | returned => cases shown
  | called callback object =>
    cases callback with
    | clear | enqueue => cases shown
    | finalize =>
      rw [Entry.seen] at shown
      split at shown
      · cases List.mem_singleton.1 shown
      · cases shown
  | operated op h result h' =>
    by_cases here : result = some x
    · exact none op h h' (here ▸ noted)
    · rw [Entry.seen, Heap.events, if_neg here, List.append_nil] at shown
      split at shown
      · cases List.mem_singleton.1 shown
      · cases shown

omit [ObjectModel] in
/-- Only a call shows that the finalizer is called. -/
theorem called_of_seen {life : List Entry} (shown : .finalized ∈ seenAt x life) :
    .called .finalize x ∈ life := by
  obtain ⟨e, noted, shown⟩ := List.mem_flatMap.1 shown
  cases e with
  | returned => cases shown
  | called callback object =>
    cases callback with
    | clear | enqueue => cases shown
    | finalize =>
      rw [Entry.seen] at shown
      split at shown
      case isTrue here => exact here ▸ noted
      case isFalse => cases shown
  | operated op h result h' =>
    rw [Entry.seen, Heap.events, List.mem_append] at shown
    rcases shown with gone | new
    · split at gone
      · cases List.mem_singleton.1 gone
      · cases gone
    · split at new
      · cases List.mem_singleton.1 new
      · cases new

omit [ObjectModel] in
/-- Where nothing else was allocated since, the finalizer that was promised has been called. -/
theorem Concluded.called {before life : List Entry} {born : Heap.Operation} {h₀ h₁ : Heap}
    (concluded : Concluded x (before ++ .operated born h₀ (some x) h₁ :: life))
    (finalizable : born.isFinalizable = true)
    (none : ∀ op h h', .operated op h (some x) h' ∉ life) : .called .finalize x ∈ life := by
  have quiet : Event.Quiet (seenAt x life) := quiet_seenAt none
  obtain ⟨earlier, split⟩ : ∃ earlier, seenAt x (before ++ .operated born h₀ (some x) h₁ :: life)
      = earlier ++ .allocated true :: seenAt x life := by
    refine ⟨seenAt x before ++ if h₀.isValid x && (!h₁.isValid x || some x == some x) then [.swept]
      else [], ?_⟩
    simp [seenAt, Entry.seen, Heap.events, finalizable]
  -- What was promised at birth is due until it is called, and nothing is due at last.
  have lived : Event.follow true (seenAt x life) = some false :=
    Event.follow_born (split ▸ concluded.seen)
  rcases Event.due_cases quiet (by rw [lived]; rfl) with unseen | ⟨rest, seen, -⟩
  · rw [unseen] at lived
    cases lived
  · apply called_of_seen
    rw [seen]
    exact List.mem_cons_self

end

end ManagedHeap
