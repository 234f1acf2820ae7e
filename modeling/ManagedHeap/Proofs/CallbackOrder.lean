import ManagedHeap.Object
import ManagedHeap.Proofs.Journals

/-!
The order in which pending calls are made. A journal of a run tells it: the calls of one piece of work
follow each other, finalizers come after all calls of references that were queued before, and the
referent of a reference that is still to clear itself stays as it is.
-/

namespace ManagedHeap

/-! ### What a journal tells -/

namespace Entry

/-- The calls of references that were queued. -/
def queued : Entry → List (Nat × ReferenceWork)
  | .operated _ h _ h' => h.queuedSince h'
  | _ => []

/-- The objects whose finalizer came to be due. -/
def pended : Entry → List Nat
  | .operated _ h _ h' => h.pendedSince h'
  | _ => []

/-- The call that began. -/
def begun : Entry → List (Callback × Nat)
  | .called callback object => [(callback, object)]
  | _ => []

/-- The call that is over. -/
def ended : Entry → List (Callback × Nat)
  | .returned callback object => [(callback, object)]
  | _ => []

/-- Whether a reference that clears itself holds a referent, if it did before. -/
def holds [ObjectModel] (reference referent : Nat) : Bool → Entry → Bool
  | _, .operated _ _ _ h' => h'.source.holds reference referent
  | before, _ => before

end Entry

/-- A piece of pending work. -/
inductive Piece where
  | reference (reference : Nat) (work : ReferenceWork)
  | finalizer (object : Nat)

namespace Piece

/-- The calls that the piece consists of, in order. -/
def calls : Piece → List (Callback × Nat)
  | .reference r { clear := true, enqueue := true } => [(.clear, r), (.enqueue, r)]
  | .reference r { clear := true, enqueue := false } => [(.clear, r)]
  | .reference r { clear := false, enqueue := true } => [(.enqueue, r)]
  | .reference _ { clear := false, enqueue := false } => []
  | .finalizer x => [(.finalize, x)]

/-- What the piece is in the queue of the references. -/
def works : Piece → List (Nat × ReferenceWork)
  | .reference r work => [(r, work)]
  | .finalizer _ => []

/-- What the piece is among the objects whose finalizer is due. -/
def finalizers : Piece → List Nat
  | .reference .. => []
  | .finalizer x => [x]

theorem calls_reference (r : Nat) (work : ReferenceWork) :
    (reference r work).calls = work.calls.map (·, r) := by
  obtain ⟨clear, enqueue⟩ := work
  cases clear <;> cases enqueue <;> rfl

end Piece

/-- The object was neither swept nor found to be due for its finalizer. -/
def Heap.Sheltered (h : Heap) (result : Option Nat) (h' : Heap) (x : Nat) : Prop :=
  h.Spared result h' x ∧ x ∉ h.pendedSince h'

/-- More calls were queued in which the reference is to clear itself than are over. -/
def ClearDue (r : Nat) (log : List Entry) : Prop :=
  (log.flatMap Entry.ended).count (.clear, r)
    < (log.flatMap Entry.queued).countP fun (reference, work) => reference == r && work.clear

section Order

variable [ObjectModel]

/-- Calls are made in order. -/
structure Orderly (log : List Entry) : Prop where
  /-- The calls are those of pieces of work, one piece after the other, in the order in which they were
  queued. Only a call that is not over may leave a piece undone. -/
  blocks : ∃ (pieces : List Piece) (rest : List (Callback × Nat)),
    log.flatMap Entry.begun ++ rest = pieces.flatMap Piece.calls
    ∧ pieces.flatMap Piece.works <+: log.flatMap Entry.queued
    ∧ pieces.flatMap Piece.finalizers <+: log.flatMap Entry.pended
    ∧ (log.flatMap Entry.ended = log.flatMap Entry.begun → rest = [])
  /-- One call is made at a time. -/
  single : ∃ running : Option (Callback × Nat),
    log.flatMap Entry.ended ++ running.toList = log.flatMap Entry.begun
  /-- When a finalizer is called, all calls of references are over that were queued before. -/
  finalized : ∀ before y after, log = before ++ .called .finalize y :: after →
    (before.flatMap Entry.ended).filter (·.1 != .finalize)
        = ((before.flatMap Entry.queued).flatMap fun (r, work) => (Piece.reference r work).calls)
      ∧ y ∈ before.flatMap Entry.pended
  /-- The collection that has a reference clear itself spares what the reference holds. -/
  spared : ∀ op h result h', .operated op h result h' ∈ log → ∀ r x,
    (∃ work, (r, work) ∈ h.queuedSince h' ∧ work.clear = true) →
    h'.source.holds r x = true → h.Sheltered result h' x
  /-- So does every operation until the call is over, unless the reference lets its referent go. -/
  sheltered : ∀ r x before op h result h' during after,
    log = before ++ .operated op h result h' :: (during ++ after) → h'.source.holds r x = true →
    (∀ first rest, during = first ++ rest →
      ClearDue r (before ++ .operated op h result h' :: first)) →
    (∀ op h result h', .operated op h result h' ∈ during → op.isWrite = true →
      h'.source.holds r x = true) →
    ∀ op h result h', .operated op h result h' ∈ during →
      h'.source.holds r x = true ∧ h.Sheltered result h' x

/-- Did the reference hold its referent when this was looked at last? -/
def holding (r x : Nat) (log : List Entry) : Bool := log.foldl (Entry.holds r x) false

theorem holding_concat (r x : Nat) (log : List Entry) (e : Entry) :
    holding r x (log ++ [e]) = e.holds r x (holding r x log) := by
  rw [holding, List.foldl_append]
  rfl

/-- What may be noted next. -/
def Allowed (log : List Entry) : Entry → Prop
  | .operated op h result h' => ∀ r x,
    ((∃ work, (r, work) ∈ h.queuedSince h' ∧ work.clear = true) → h'.source.holds r x = true →
      h.Sheltered result h' x)
    ∧ (ClearDue r log → holding r x log = true →
      (op.isWrite = true → h'.source.holds r x = true) →
      h'.source.holds r x = true ∧ h.Sheltered result h' x)
  | .called .finalize y =>
    (log.flatMap Entry.ended).filter (·.1 != .finalize)
        = ((log.flatMap Entry.queued).flatMap fun (r, work) => (Piece.reference r work).calls)
      ∧ y ∈ log.flatMap Entry.pended
  | _ => True

variable {r x : Nat} {log : List Entry}

/-- Along the stretch the reference goes on holding its referent. -/
theorem Throughout.sheltered (inOrder : Throughout Allowed log) {before during after : List Entry}
    (split : log = before ++ (during ++ after)) (held : holding r x before = true)
    (due : ∀ first rest, during = first ++ rest → ClearDue r (before ++ first))
    (writes : ∀ op h result h', .operated op h result h' ∈ during → op.isWrite = true →
      h'.source.holds r x = true) (op : Heap.Operation) (h : Heap) (result : Option Nat) (h' : Heap)
    (member : .operated op h result h' ∈ during) :
    h'.source.holds r x = true ∧ h.Sheltered result h' x := by
  induction during generalizing before with
  | nil => cases member
  | cons e rest ih =>
    have allowed := inOrder before e (rest ++ after) split
    have due_now : ClearDue r before := by
      have due_now := due [] (e :: rest) rfl
      rwa [List.append_nil] at due_now
    have here : ∀ op h result h', e = .operated op h result h' →
        h'.source.holds r x = true ∧ h.Sheltered result h' x := by
      rintro op h result h' rfl
      exact (allowed r x).2 due_now held (writes op h result h' List.mem_cons_self)
    rcases List.mem_cons.1 member with same | later
    · exact here op h result h' same.symm
    · have held' : holding r x (before ++ [e]) = true := by
        rw [holding_concat]
        cases e with
        | operated op h result h' => exact (here op h result h' rfl).1
        | called => exact held
        | returned => exact held
      have split' : log = before ++ [e] ++ (rest ++ after) := by
        rw [split, List.append_assoc]
        rfl
      apply ih split' held' _ _ later
      · intro first more same
        have due_then := due (e :: first) more (by rw [same]; rfl)
        rwa [List.append_assoc]
      · intro op h result h' member
        exact writes op h result h' (List.mem_cons_of_mem _ member)

end Order

/-! ### What the journal says of the heap -/

/-- Does the work ask for the call? -/
def ReferenceWork.asks (w : ReferenceWork) : Callback → Bool
  | .clear => w.clear
  | .enqueue => w.enqueue
  | .finalize => false

/-- How often a call on a reference is asked for. -/
def asked (callback : Callback) (r : Nat) (works : List (Nat × ReferenceWork)) : Nat :=
  works.countP fun (reference, work) => reference == r && work.asks callback

theorem asked_append (callback : Callback) (r : Nat) (first second : List (Nat × ReferenceWork)) :
    asked callback r (first ++ second) = asked callback r first + asked callback r second :=
  List.countP_append

theorem asked_cons (r reference : Nat) (work : ReferenceWork) (rest : List (Nat × ReferenceWork))
    {callback : Callback} (other : callback ≠ .finalize) :
    asked callback r ((reference, work) :: rest)
      = (work.calls.map (·, reference)).count (callback, r) + asked callback r rest := by
  rw [asked, List.countP_cons, Nat.add_comm, ← asked]
  congr 1
  obtain ⟨clear, enqueue⟩ := work
  cases clear <;> cases enqueue <;> cases callback <;>
    simp_all [ReferenceWork.calls, ReferenceWork.asks, List.count_cons]

/-- The calls that were asked for have begun, or are still to be made or taken. The calls that have begun
are over, or are being made. -/
structure Balanced (m : Moment) : Prop where
  asked : ∀ r callback, callback ≠ .finalize → asked callback r (m.log.flatMap Entry.queued)
    = (m.log.flatMap Entry.begun).count (callback, r)
      + (m.tasks.flatMap Task.rest).count (callback, r)
      + asked callback r m.heap.tables.operations.entries
  begun : ∀ call, (m.log.flatMap Entry.begun).count call
    = (m.log.flatMap Entry.ended).count call + (m.tasks.filterMap Task.running).count call

/-- No call is made within another one, and what is worked on lives. -/
structure Moment.Alone (m : Moment) : Prop where
  single : m.tasks.tail = []
  current : m.heap.inFlight = m.tasks.findSome? Task.running
  live : ∀ task ∈ m.tasks, m.heap.isValid task.object = true

/-- What the journal tells of calls is what the heap and the tasks say of those still to be made. The
pieces of work are those that were taken. -/
structure Accounts (pieces : List Piece) (m : Moment) : Prop where
  begun : m.log.flatMap Entry.begun ++ m.tasks.flatMap Task.rest = pieces.flatMap Piece.calls
  ended : m.log.flatMap Entry.ended ++ m.tasks.filterMap Task.running = m.log.flatMap Entry.begun
  queued : m.log.flatMap Entry.queued
    = pieces.flatMap Piece.works ++ m.heap.tables.operations.entries
  pended : m.log.flatMap Entry.pended
    = pieces.flatMap Piece.finalizers ++ m.heap.tables.pending.entries

theorem filter_calls (pieces : List Piece) :
    (pieces.flatMap Piece.calls).filter (·.1 != .finalize)
      = (pieces.flatMap Piece.works).flatMap fun (r, work) => (Piece.reference r work).calls := by
  induction pieces with
  | nil => rfl
  | cons piece rest ih =>
    rw [List.flatMap_cons, List.flatMap_cons, List.filter_append, List.flatMap_append, ih]
    congr 1
    cases piece with
    | finalizer y => rfl
    | reference reference work =>
      obtain ⟨clear, enqueue⟩ := work
      cases clear <;> cases enqueue <;> rfl

section

variable [ObjectModel] {nests : Bool} {pieces : List Piece} {m m' : Moment} {h h' : Heap} {r x : Nat}
  {log : List Entry}

theorem Heap.Conducted.queuedSince {op : Heap.Operation} {result : Option Nat}
    (conducted : Heap.Conducted op h result h') :
    h'.tables.operations.entries = h.tables.operations.entries ++ h.queuedSince h' := by
  obtain ⟨added, entries, -⟩ := conducted.queued
  rw [Heap.queuedSince_eq entries, entries]

theorem Heap.Conducted.pendedSince {op : Heap.Operation} {result : Option Nat}
    (conducted : Heap.Conducted op h result h') :
    h'.tables.pending.entries = h.tables.pending.entries ++ h.pendedSince h' := by
  obtain ⟨pended, entries, -⟩ := conducted.pended
  rw [Heap.pendedSince, entries, List.drop_left' (WorkQueue.length_entries _)]

theorem Move.balanced (move : Move nests m m') (ready : m.Ready) (balanced : Balanced m) :
    Balanced m' := by
  obtain ⟨asked, begun⟩ := balanced
  cases move with
  | operate isOpen whole run =>
    have conducted := (Heap.perform_conducted ready.heap whole).ok run
    refine ⟨fun r callback other => ?_, by simpa [Entry.begun, Entry.ended] using begun⟩
    have before := asked r callback other
    simp only [List.flatMap_append, List.flatMap_singleton, Entry.queued, Entry.begun,
      List.append_nil, asked_append, conducted.queuedSince] at before ⊢
    omega
  | @take tasks h h' log object calls isOpen within took =>
    cases took with
    | @reference work operations next =>
      refine ⟨fun r callback other => ?_, begun⟩
      have before := asked r callback other
      simp only [next, asked_cons _ _ _ _ other] at before
      simp only [List.flatMap_cons, Task.rest, List.count_append, before]
      omega
    | finalizer idle next =>
      refine ⟨fun r callback other => ?_, begun⟩
      have unlike : (Callback.finalize, object) ≠ (callback, r) := fun same =>
        other (congrArg Prod.fst same).symm
      simpa [Task.rest, List.count_cons_of_ne unlike] using asked r callback other
  | call tasks h log callback object calls =>
    refine ⟨fun r callback' other => ?_, fun call' => ?_⟩
    · have before := asked r callback' other
      simp [Task.rest, Entry.queued, Entry.begun, List.count_cons, Heap.startCall] at before ⊢
      omega
    · have before := begun call'
      simp [List.filterMap_cons, Task.running, Entry.begun, Entry.ended, List.count_cons] at before ⊢
      omega
  | «return» tasks h log callback object calls =>
    refine ⟨fun r callback' other => ?_, fun call' => ?_⟩
    · simpa [Task.rest, Entry.queued, Entry.begun, Heap.endCall] using asked r callback' other
    · have before := begun call'
      simp [List.filterMap_cons, Task.running, Entry.begun, Entry.ended, List.count_cons] at before ⊢
      omega
  | finish => exact ⟨asked, begun⟩
  | track => exact ⟨asked, begun⟩

theorem Move.alone (move : Move false m m') (ready : m.Ready) (alone : m.Alone) : m'.Alone := by
  obtain ⟨single, current, live⟩ := alone
  cases move with
  | @operate tasks h h' log op result isOpen whole run =>
    have conducted := (Heap.perform_conducted ready.heap whole).ok run
    refine ⟨single, conducted.current.trans current, fun task member => ?_⟩
    obtain rfl : tasks = [task] := by
      cases tasks with
      | nil => cases member
      | cons top rest =>
        cases (show rest = [] from single)
        rw [List.mem_singleton.1 member]
    cases task with
    | due => cases isOpen
    | calling callback object calls =>
      exact (conducted.engaged object ⟨live _ member, .inr ⟨callback, current⟩⟩).1
  | take isOpen within took =>
    obtain rfl := within.resolve_left Bool.false_ne_true
    refine ⟨rfl, ?_, List.forall_mem_singleton.2 (took.ready ready.heap).2⟩
    cases took with
    | reference => exact current
    | finalizer => exact current
  | call tasks h log callback object calls =>
    exact ⟨single, rfl, List.forall_mem_cons.2 (List.forall_mem_cons.1 live)⟩
  | «return» tasks h log callback object calls =>
    cases (show tasks = [] from single)
    have here : h.isValid object = true := live _ List.mem_cons_self
    exact ⟨rfl, rfl, List.forall_mem_singleton.2 here⟩
  | finish tasks =>
    cases (show tasks = [] from single)
    exact ⟨rfl, current, nofun⟩
  | track => exact ⟨single, current, live⟩

theorem Move.accounts (move : Move false m m') (ready : m.Ready) (alone : m.Alone)
    (accounts : Accounts pieces m) : ∃ pieces', Accounts pieces' m' := by
  obtain ⟨begun, ended, queued, pended⟩ := accounts
  cases move with
  | operate isOpen whole run =>
    have conducted := (Heap.perform_conducted ready.heap whole).ok run
    refine ⟨pieces, ?_, ?_, ?_, ?_⟩
    · simpa [Entry.begun] using begun
    · simpa [Entry.ended, Entry.begun] using ended
    · simp [Entry.queued, queued, conducted.queuedSince]
    · simp [Entry.pended, pended, conducted.pendedSince]
  | @take tasks h h' log object calls isOpen within took =>
    obtain rfl := within.resolve_left Bool.false_ne_true
    have all : log.flatMap Entry.begun = pieces.flatMap Piece.calls := by
      rw [← begun]
      exact (List.append_nil _).symm
    cases took with
    | @reference work operations next =>
      refine ⟨pieces ++ [.reference object work], ?_, ended, ?_, ?_⟩
      · simp [Task.rest, all, Piece.calls_reference]
      · simp [queued, next, Piece.works]
      · simp [pended, Piece.finalizers]
    | @finalizer pending idle next =>
      refine ⟨pieces ++ [.finalizer object], ?_, ended, ?_, ?_⟩
      · simp [Task.rest, all, Piece.calls]
      · simp [queued, Piece.works]
      · simp [pended, next, Piece.finalizers]
  | call tasks h log callback object calls =>
    cases (show tasks = [] from alone.single)
    have none : log.flatMap Entry.ended = log.flatMap Entry.begun := by
      rw [← ended]
      exact (List.append_nil _).symm
    refine ⟨pieces, ?_, ?_, ?_, ?_⟩
    · simpa [Task.rest, Entry.begun] using begun
    · simp [Task.running, none, Entry.ended, Entry.begun]
    · simpa [Entry.queued, Heap.startCall] using queued
    · simpa [Entry.pended, Heap.startCall] using pended
  | «return» tasks h log callback object calls =>
    cases (show tasks = [] from alone.single)
    refine ⟨pieces, ?_, ?_, ?_, ?_⟩
    · simpa [Task.rest, Entry.begun] using begun
    · simpa [List.filterMap_cons, Task.running, Entry.ended, Entry.begun] using ended
    · simpa [Entry.queued, Heap.endCall] using queued
    · simpa [Entry.pended, Heap.endCall] using pended
  | finish => exact ⟨pieces, begun, ended, queued, pended⟩
  | track => exact ⟨pieces, begun, ended, queued, pended⟩

omit [ObjectModel] in
/-- A reference that is still to clear itself has its call queued, or it is the one being made. -/
theorem Balanced.engaged (balanced : Balanced m) (ready : m.Ready) (alone : m.Alone)
    (isOpen : areOpen m.tasks = true) (due : ClearDue r m.log) : m.heap.Engaged r := by
  obtain ⟨tasks, h, log⟩ := m
  obtain ⟨asked, begun⟩ := balanced
  specialize asked r .clear (by decide)
  specialize begun (.clear, r)
  have less : (log.flatMap Entry.ended).count (.clear, r)
      < ManagedHeap.asked .clear r (log.flatMap Entry.queued) := due
  dsimp only at asked begun
  have queued (some : 0 < ManagedHeap.asked .clear r h.tables.operations.entries) : h.Engaged r := by
    obtain ⟨⟨reference, work⟩, member, clears⟩ := List.countP_pos_iff.1 some
    rw [Bool.and_eq_true, beq_iff_eq] at clears
    have queued : r ∈ h.queued := List.mem_map.2 ⟨(reference, work), member, clears.1⟩
    exact ⟨ready.heap.queued r queued, .inl queued⟩
  cases tasks with
  | nil =>
    simp only [List.flatMap_nil, List.filterMap_nil, List.count_nil] at asked begun
    exact queued (by omega)
  | cons task tasks =>
    cases (show tasks = [] from alone.single)
    cases task with
    | due => cases isOpen
    | calling callback object calls =>
      -- While operations are carried out, no reference is to clear itself later in the piece of work.
      have later : (Callback.clear, r) ∉ [Task.calling callback object calls].flatMap Task.rest := by
        rw [List.flatMap_singleton]
        intro member
        obtain ⟨other, after, same⟩ := List.mem_map.1 member
        cases same
        cases ready.later _ List.mem_cons_self _ after
      by_cases here : (callback, object) = (.clear, r)
      · cases here
        exact ⟨alone.live _ List.mem_cons_self, .inr ⟨_, alone.current⟩⟩
      · have idle : ([Task.calling callback object calls].filterMap Task.running).count (.clear, r)
            = 0 := List.count_eq_zero.2 fun member => here (List.mem_singleton.1 member).symm
        rw [List.count_eq_zero.2 later] at asked
        exact queued (by omega)

/-- All has been in order so far, and it will be if a finalizer is called that is to be called next. -/
structure Agrees (m : Moment) : Prop where
  alone : m.Alone
  balanced : Balanced m
  accounts : ∃ pieces, Accounts pieces m
  inOrder : Throughout Allowed m.log
  finalizer : ∀ y calls tasks, m.tasks = .due y (.finalize :: calls) :: tasks →
    Allowed m.log (.called .finalize y)
  holds : ∀ r x, holding r x m.log = true → m.heap.source.holds r x = true

theorem Agrees.allowed {op : Heap.Operation} {result : Option Nat} (agrees : Agrees m)
    (ready : m.Ready) (isOpen : areOpen m.tasks = true)
    (conducted : Heap.Conducted op m.heap result h') :
    Allowed m.log (.operated op m.heap result h') := by
  obtain ⟨added, operations, fresh⟩ := conducted.queued
  obtain ⟨pended, pending, spared⟩ := conducted.pended
  have queued_eq : m.heap.queuedSince h' = added := Heap.queuedSince_eq operations
  have pended_eq : m.heap.pendedSince h' = pended :=
    List.append_cancel_left (conducted.pendedSince.symm.trans pending)
  refine fun r x => ⟨?_, fun due held writes => ?_⟩
  · rintro ⟨work, member, clears⟩ held
    rw [queued_eq] at member
    obtain ⟨absent, here⟩ := fresh r work member clears x held
    refine ⟨here, fun found => absent ?_⟩
    rw [conducted.pendedSince]
    exact List.mem_append_right _ found
  · have engaged := agrees.balanced.engaged ready agrees.alone isOpen due
    have before := agrees.holds r x held
    obtain ⟨held', here⟩ := conducted.kept r engaged x before writes
    refine ⟨held', here, ?_⟩
    rw [pended_eq]
    exact spared r engaged x before

/-- When a finalizer is taken, all calls of references are over. -/
theorem Accounts.finalizer {pending : WorkQueue Nat} {y : Nat}
    (accounts : Accounts pieces ⟨[], h, log⟩) (idle : h.tables.operations.entries = [])
    (next : h.tables.pending.entries = y :: pending.entries) :
    Allowed log (.called .finalize y) := by
  obtain ⟨begun, ended, queued, pended⟩ := accounts
  have all : log.flatMap Entry.ended = pieces.flatMap Piece.calls := by
    rw [← begun]
    simpa using ended
  constructor
  · rw [all, queued, idle, List.append_nil]
    exact filter_calls pieces
  · rw [pended, next]
    exact List.mem_append_right _ List.mem_cons_self

theorem Move.agrees (move : Move false m m') (ready : m.Ready) (agrees : Agrees m) : Agrees m' := by
  obtain ⟨pieces, accounts⟩ := agrees.accounts
  have accounts' := move.accounts ready agrees.alone accounts
  have alone' := move.alone ready agrees.alone
  have balanced' := move.balanced ready agrees.balanced
  cases move with
  | operate isOpen whole run =>
    have conducted := (Heap.perform_conducted ready.heap whole).ok run
    have allowed := agrees.allowed ready isOpen conducted
    refine ⟨alone', balanced', accounts', agrees.inOrder.concat allowed, ?_, fun r x held => ?_⟩
    · rintro _ _ _ rfl
      cases isOpen
    · rw [holding_concat] at held
      exact held
  | @take tasks h h' log object calls isOpen within took =>
    obtain rfl := within.resolve_left Bool.false_ne_true
    refine ⟨alone', balanced', accounts', agrees.inOrder, ?_, ?_⟩
    · rintro _ rest _ ⟨⟩
      generalize made : Callback.finalize :: rest = calls at took
      cases took with
      | finalizer idle next => exact accounts.finalizer idle next
      | @reference work =>
        obtain ⟨clear, enqueue⟩ := work
        cases clear <;> cases enqueue <;> cases made
    · cases took with
      | reference => exact agrees.holds
      | finalizer => exact agrees.holds
  | call tasks h log callback object calls =>
    refine ⟨alone', balanced', accounts', agrees.inOrder.concat ?_, nofun, fun r x held => ?_⟩
    · cases callback with
      | finalize => exact agrees.finalizer object calls tasks rfl
      | clear => trivial
      | enqueue => trivial
    · rw [holding_concat] at held
      exact agrees.holds r x held
  | «return» tasks h log callback object calls =>
    refine ⟨alone', balanced', accounts', agrees.inOrder.concat trivial, ?_, fun r x held => ?_⟩
    · rintro _ rest _ ⟨⟩
      cases ready.later _ List.mem_cons_self .finalize List.mem_cons_self
    · rw [holding_concat] at held
      exact agrees.holds r x held
  | finish tasks =>
    cases (show tasks = [] from agrees.alone.single)
    exact ⟨alone', balanced', accounts', agrees.inOrder, nofun, agrees.holds⟩
  | track => exact ⟨alone', balanced', accounts', agrees.inOrder, agrees.finalizer, agrees.holds⟩

omit [ObjectModel] in
theorem balanced_create {config : Config} (run : Heap.create config = .ok (.ok h)) :
    Balanced ⟨[], h, []⟩ := by
  obtain ⟨-, tables, -⟩ := Heap.ready_create run
  refine ⟨fun r callback _ => ?_, fun _ => rfl⟩
  rw [tables]
  rfl

theorem agrees_create {config : Config} (run : Heap.create config = .ok (.ok h)) :
    Agrees ⟨[], h, []⟩ := by
  obtain ⟨-, tables, current⟩ := Heap.ready_create run
  refine ⟨⟨rfl, current, nofun⟩, balanced_create run, ⟨[], rfl, rfl, ?_, ?_⟩, throughout_nil _, nofun,
    fun _ _ => Bool.noConfusion⟩
  · rw [tables]
    rfl
  · rw [tables]
    rfl

theorem Agrees.orderly (agrees : Agrees m) (isOpen : areOpen m.tasks = true) : Orderly m.log := by
  obtain ⟨pieces, begun, ended, queued, pended⟩ := agrees.accounts
  have inOrder := agrees.inOrder
  have single := agrees.alone.single
  refine ⟨⟨pieces, m.tasks.flatMap Task.rest, begun, queued ▸ List.prefix_append ..,
    pended ▸ List.prefix_append .., fun idle => ?_⟩, ⟨m.tasks.head?.bind Task.running, ?_⟩, ?_, ?_,
    ?_⟩
  · rw [idle, List.append_right_eq_self] at ended
    generalize m.tasks = tasks at isOpen ended
    cases tasks with
    | nil => rfl
    | cons task tasks =>
      cases task with
      | due => cases isOpen
      | calling => cases ended
  · generalize m.tasks = tasks at isOpen ended single
    cases tasks with
    | nil => exact ended
    | cons task tasks =>
      cases (show tasks = [] from single)
      cases task with
      | due => cases isOpen
      | calling => exact ended
  · intro before y after split
    exact inOrder before _ after split
  · intro op h result h' member r x
    obtain ⟨before, after, split⟩ := List.append_of_mem member
    exact (inOrder before _ after split r x).1
  · intro r x before op h result h' during after split held due
    have stretch : m.log = before ++ [.operated op h result h'] ++ (during ++ after) := by
      rw [split, List.append_assoc]
      rfl
    apply inOrder.sheltered stretch
    · rw [holding_concat]
      exact held
    · intro first rest same
      rw [List.append_assoc]
      exact due first rest same

/-- However a program uses a new heap, and whatever goes on while its calls are being made, they are
made in order. -/
theorem callbacks_in_order {γ : Type} {config : Config} (run : Heap.create config = .ok (.ok h))
    (course : Machine.Course γ) (client : γ) (steps : List Step) :
    Orderly ((Machine.followAll course steps).after
      { heap := h, client := { client } }).client.log := by
  obtain ⟨begins, last, leads, isOpen, log⟩ :=
    (Machine.makes_course course).leads run client steps
  rw [Machine.followAll, ← log]
  exact (leads.keeps begins (agrees_create run) Move.agrees).orderly isOpen

end

/-- Steps that carry out the operations, of those that stand on their own. -/
def operateAll (ops : List Heap.Operation) : List Step :=
  ops.filterMap fun op => if whole : op.isWhole = true then some (.operate op whole) else none

/-- A weak reference that clears itself and has a queue refers to an object with a finalizer. Two
collections make the calls of both due. -/
def lastCalls : List Step :=
  let reference := Region.arenaBase 0
  let referent := reference + 32
  operateAll [.attach 0 "main", .request 0 24 {},
      .request 0 24 { finalizable := true, untracked := true },
      .write reference 0 1 (Tag.make (some .weak) true true false 0),
      .write reference Object.referentWord 1 referent, .collect false]
    ++ [.finishPending 0 2] ++ operateAll [.collect false] ++ [.finishPending 0 2]

/-- Told to clear itself the reference lets its referent go. -/
def letGo : Machine.Course Unit := fun _ callback object m =>
  { client := m.client
    meanwhile := if callback = .clear then [⟨.write object Object.referentWord 1 0, rfl⟩] else [] }

theorem lastCalls_in_order :
    let log := ((Machine.followAll letGo lastCalls).after
      { heap := Heap.small, client := { client := () } }).client.log
    log.flatMap Entry.begun = [(.clear, Region.arenaBase 0), (.enqueue, Region.arenaBase 0),
      (.finalize, Region.arenaBase 0 + 32)] ∧ Orderly log := by
  refine ⟨by decide +kernel, ?_⟩
  exact callbacks_in_order (show Heap.create Heap.smallConfig = .ok (.ok Heap.small) from rfl) ..

end ManagedHeap
