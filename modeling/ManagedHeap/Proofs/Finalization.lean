import ManagedHeap.Heap.Watching
import ManagedHeap.Object
import ManagedHeap.Proofs.Reachability

/-!
Every object that was promised a finalizer has it called at most once, and before it is swept. From
the request on the object waits, in one queue and then in the other, until its call is made; no
object waits twice, and whatever waits lives.
-/

namespace ManagedHeap

/-! ### What may be seen -/

namespace Event

variable {due due' : Bool} {e : Event} {events first second : List Event}

/-- Goes on from an event, if it may happen. A finalizer that is due comes before anything else, and
none is called that is not due. -/
def next : Bool → Event → Option Bool
  | true, .finalized => some false
  | true, _ => none
  | false, .allocated finalizable => some finalizable
  | false, .swept => some false
  | false, .finalized => none

/-- Follows events one after the other. Answers whether a finalizer is due then. -/
def follow : Bool → List Event → Option Bool
  | due, [] => some due
  | due, e :: rest =>
    match next due e with
    | some due' => follow due' rest
    | none => none

theorem follow_append : follow due (first ++ second)
    = (follow due first).bind fun due' => follow due' second := by
  induction first generalizing due with
  | nil => rfl
  | cons e rest ih =>
    rw [List.cons_append, follow, follow]
    cases next due e with
    | none => rfl
    | some due' => exact ih

theorem follow_of_append (lawful : (follow due (first ++ second)).isSome = true) :
    ∃ due', follow due first = some due' ∧ (follow due' second).isSome = true := by
  rw [follow_append] at lawful
  cases reached : follow due first with
  | none =>
    rw [reached] at lawful
    cases lawful
  | some due' =>
    rw [reached] at lawful
    exact ⟨due', rfl, lawful⟩

/-- Nothing may be due where an object comes to lie. -/
theorem follow_born {finalizable : Bool}
    (seen : follow false (first ++ .allocated finalizable :: second) = some due) :
    follow finalizable second = some due := by
  rw [follow_append] at seen
  cases reached : follow false first with
  | none =>
    rw [reached] at seen
    cases seen
  | some due' =>
    rw [reached] at seen
    cases due' with
    | true => cases seen
    | false => exact seen

/-- Nothing is allocated among the events. -/
def Quiet (events : List Event) : Prop := ∀ finalizable, .allocated finalizable ∉ events

/-- Without an allocation no finalizer comes to be due. -/
theorem not_finalized (quiet : Quiet events) (lawful : (follow false events).isSome = true) :
    .finalized ∉ events := by
  induction events with
  | nil => exact List.not_mem_nil
  | cons e rest ih =>
    have quiet' : Quiet rest := fun finalizable member => quiet _ (List.mem_cons_of_mem _ member)
    cases e with
    | allocated finalizable => exact absurd List.mem_cons_self (quiet finalizable)
    | finalized => cases lawful
    | swept =>
      intro called
      rcases List.mem_cons.1 called with same | later
      · cases same
      · exact ih quiet' lawful later

/-- Where a finalizer is due it is called first, and then no more. -/
theorem due_cases (quiet : Quiet events) (lawful : (follow true events).isSome = true) :
    events = [] ∨ ∃ rest, events = .finalized :: rest ∧ .finalized ∉ rest := by
  cases events with
  | nil => exact .inl rfl
  | cons e rest =>
    cases e with
    | allocated => cases lawful
    | swept => cases lawful
    | finalized =>
      refine .inr ⟨rest, rfl, not_finalized (fun finalizable member => ?_) lawful⟩
      exact quiet finalizable (List.mem_cons_of_mem _ member)

end Event

/-- At one address an object is finalized if it was to be, once at the most and before it goes. -/
structure FinalizedInTurn (seen : List Event) : Prop where
  never : ∀ before life after, seen = before ++ .allocated false :: (life ++ after) →
    Event.Quiet life → .finalized ∉ life
  once : ∀ before life after, seen = before ++ .allocated true :: (life ++ after) →
    Event.Quiet life → life.count .finalized ≤ 1
  first : ∀ before life after, seen = before ++ .allocated true :: (life ++ .swept :: after) →
    Event.Quiet life → .finalized ∈ life

theorem finalizedInTurn_of_follow {seen : List Event}
    (lawful : (Event.follow false seen).isSome = true) : FinalizedInTurn seen := by
  have alive : ∀ before finalizable rest, seen = before ++ .allocated finalizable :: rest →
      (Event.follow finalizable rest).isSome = true := by
    rintro before finalizable rest rfl
    obtain ⟨due, seen⟩ := Option.isSome_iff_exists.1 lawful
    rw [Event.follow_born seen]
    rfl
  refine ⟨fun before life after split quiet => ?_, fun before life after split quiet => ?_,
    fun before life after split quiet => ?_⟩
  · obtain ⟨due, lived, -⟩ := Event.follow_of_append (alive before false _ split)
    exact Event.not_finalized quiet (by rw [lived]; rfl)
  · obtain ⟨due, lived, -⟩ := Event.follow_of_append (alive before true _ split)
    rcases Event.due_cases quiet (by rw [lived]; rfl) with rfl | ⟨rest, rfl, none⟩
    · exact Nat.zero_le 1
    · exact Nat.le_of_eq (by rw [List.count_cons_self, List.count_eq_zero.2 none])
  · obtain ⟨due, lived, later⟩ := Event.follow_of_append (alive before true _ split)
    rcases Event.due_cases quiet (by rw [lived]; rfl) with rfl | ⟨rest, rfl, -⟩
    · cases lived
      cases later
    · exact List.mem_cons_self

/-! ### What waits -/

namespace Heap

open Action

variable {h h' : Heap} {x : Nat} {due : Bool} {op : Operation} {seen : List Event}

/-- What was seen at the address fits the heap: a finalizer is due there exactly if an object waits,
and that object lives and waits once. -/
structure Promises (x : Nat) (seen : List Event) (h : Heap) : Prop where
  sound : h.Sound
  due : Event.follow false seen = some (decide (x ∈ h.waiting))
  once : h.waiting.count x ≤ 1
  live : x ∈ h.waiting → h.isValid x = true

theorem Promises.lawful (promises : Promises x seen h) :
    (Event.follow false seen).isSome = true := by
  rw [promises.due]
  rfl

theorem Promises.follow (promises : Promises x seen h) {events : List Event}
    (next : Event.follow (decide (x ∈ h.waiting)) events = some due) :
    Event.follow false (seen ++ events) = some due := by
  rw [Event.follow_append, promises.due]
  exact next

theorem events_none (h h' : Heap) (x : Nat) (op : Operation) :
    h.events x op none h' = if h.isValid x && !h'.isValid x then [.swept] else [] := by
  simp [events]

/-- What was there may be swept, unless it waits. -/
theorem Promises.swept (promises : Promises x seen h)
    (kept : ∀ y ∈ h.waiting, h.isValid y = true → h'.isValid y = true) :
    Event.follow false (seen ++ h.events x op none h') = some (decide (x ∈ h.waiting)) := by
  apply promises.follow
  rw [events_none]
  split
  case isFalse => rfl
  case isTrue gone =>
    have absent : x ∉ h.waiting := by
      intro waits
      have live := promises.live waits
      rw [live, kept x waits live] at gone
      cases gone
    rw [decide_eq_false absent]
    rfl

/-- Nothing was allocated. -/
theorem Promises.progress (promises : Promises x seen h) (progress : Progress h h')
    {seen' : List Event} (due : Event.follow false seen' = some (decide (x ∈ h.waiting))) :
    Promises x seen' h' := by
  have same := progress.waiting.mem_iff (a := x)
  refine ⟨progress.sound, ?_, ?_, fun waits => ?_⟩
  · exact due.trans (congrArg some (decide_eq_decide.2 same.symm))
  · rw [progress.waiting.count_eq]
    exact promises.once
  · exact progress.kept x (same.1 waits) (promises.live (same.1 waits))

/-- An object was allocated at the address. -/
theorem Promises.allocated (promises : Promises x seen h)
    (gained : Gained op.isFinalizable h x h') :
    Promises x (seen ++ h.events x op (some x) h') h' := by
  have absent : x ∉ h.waiting := fun waits => gained.fresh x waits (promises.live waits) rfl
  have none : h.waiting.count x = 0 := List.count_eq_zero.2 absent
  have due : Event.follow false (seen ++ h.events x op (some x) h') = some op.isFinalizable := by
    apply promises.follow
    rw [decide_eq_false absent, events, if_pos rfl]
    split
    · rfl
    · rfl
  have waiting := gained.waiting
  cases finalizable : op.isFinalizable with
  | true =>
    rw [finalizable, if_pos rfl] at waiting
    have waits : x ∈ h'.waiting := waiting.mem_iff.2 List.mem_cons_self
    refine ⟨gained.sound, ?_, ?_, fun _ => gained.new⟩
    · rw [due, finalizable, decide_eq_true waits]
    · exact Nat.le_of_eq (by rw [waiting.count_eq, List.count_cons_self, none])
  | false =>
    rw [finalizable, if_neg Bool.false_ne_true] at waiting
    have absent' : x ∉ h'.waiting := fun waits => absent (waiting.mem_iff.1 waits)
    refine ⟨gained.sound, ?_, ?_, fun _ => gained.new⟩
    · rw [due, finalizable, decide_eq_false absent']
    · rw [waiting.count_eq, none]
      exact Nat.zero_le 1

/-- An object was allocated elsewhere. -/
theorem Promises.elsewhere {y : Nat} (promises : Promises x seen h)
    (gained : Gained op.isFinalizable h y h') (other : y ≠ x) :
    Promises x (seen ++ h.events x op (some y) h') h' := by
  have same : x ∈ h'.waiting ↔ x ∈ h.waiting := by
    rw [gained.waiting.mem_iff]
    split
    · rw [List.mem_cons, or_iff_right other.symm]
    · exact Iff.rfl
  have unseen : h.events x op (some y) h' = h.events x op none h' := by
    simp [events, other]
  refine ⟨gained.sound, ?_, ?_, fun waits => ?_⟩
  · rw [unseen, promises.swept gained.kept]
    exact congrArg some (decide_eq_decide.2 same.symm)
  · rw [gained.waiting.count_eq]
    split
    · rw [List.count_cons_of_ne other]
      exact promises.once
    · exact promises.once
  · exact gained.kept x (same.1 waits) (promises.live (same.1 waits))

theorem silent_none {α : Type} (step : Action Heap α) (h : Heap) :
    (silent step).Ends h (fun result _ => result = none) fun _ _ => True := by
  simp only [silent, ends_bind, ends_pure]
  exact ⟨fun _ => trivial, fun _ => trivial⟩

/-- The object at the address was taken from those that wait, and its call is due. -/
structure Due (x : Nat) (seen : List Event) (h : Heap) : Prop where
  sound : h.Sound
  due : Event.follow false seen = some true
  absent : x ∉ h.waiting
  live : h.isValid x = true

theorem Promises.taken (promises : Promises x seen h) (sound : h'.Sound)
    (source : h'.source = h.source) (waiting : h.waiting.Perm (x :: h'.waiting)) :
    Due x seen h' := by
  have waits : x ∈ h.waiting := waiting.mem_iff.2 List.mem_cons_self
  refine ⟨sound, ?_, ?_, ?_⟩
  · rw [promises.due, decide_eq_true waits]
  · have once := promises.once
    rw [waiting.count_eq, List.count_cons_self] at once
    exact List.count_eq_zero.1 (by omega)
  · rw [isValid, source]
    exact promises.live waits

/-- Another object was taken from those that wait. -/
theorem Promises.passed {y : Nat} (promises : Promises x seen h) (sound : h'.Sound)
    (source : h'.source = h.source) (waiting : h.waiting.Perm (y :: h'.waiting)) (other : y ≠ x) :
    Promises x seen h' := by
  have same : x ∈ h'.waiting ↔ x ∈ h.waiting := by
    rw [waiting.mem_iff, List.mem_cons, or_iff_right other.symm]
  refine ⟨sound, ?_, ?_, fun waits => ?_⟩
  · rw [promises.due]
    exact congrArg some (decide_eq_decide.2 same.symm)
  · have once := promises.once
    rw [waiting.count_eq, List.count_cons_of_ne other] at once
    exact once
  · rw [isValid, source]
    exact promises.live (same.1 waits)

theorem Due.aside (due : Due x seen h) (aside : Aside h h') : Due x seen h' := by
  obtain ⟨sound, due, absent, live⟩ := due
  refine ⟨(aside.progress sound).sound, due, ?_, ?_⟩
  · rw [waiting, aside.tables]
    exact absent
  · rw [isValid, aside.source]
    exact live

/-- The call fulfils the promise. -/
theorem Due.called (due : Due x seen h) : Promises x (seen ++ [.finalized]) h := by
  refine ⟨due.sound, ?_, ?_, fun waits => absurd waits due.absent⟩
  · rw [Event.follow_append, due.due, decide_eq_false due.absent]
    rfl
  · rw [List.count_eq_zero.2 due.absent]
    exact Nat.zero_le 1

variable [ObjectModel]

/-- Only requests answer an object. -/
theorem perform_none (plain : op.isPlain = true) (h : Heap) :
    (perform op).Ends h (fun result _ => result = none) fun _ _ => True := by
  cases op with
  | request | takeWork => cases plain
  | _ => exact silent_none _ h

omit [ObjectModel] in
/-- Nothing is promised at first. -/
theorem promises_create {config : Config} (run : create config = .ok (.ok h)) (x : Nat) :
    Promises x [] h := by
  obtain ⟨sound, -, -, tables⟩ := sound_create run
  have none : h.waiting = [] := by
    rw [waiting, tables]
    rfl
  have absent : x ∉ h.waiting := none ▸ List.not_mem_nil
  refine ⟨sound, ?_, ?_, fun waits => absurd waits absent⟩
  · rw [decide_eq_false absent]
    rfl
  · rw [none]
    exact Nat.zero_le 1

/-- An operation that is no part of a call keeps the promises. Where it breaks off none was broken. -/
theorem perform_promises (promises : Promises x seen h) (whole : op.isWhole = true) :
    (perform op).Ends h (fun result h' => Promises x (seen ++ h.events x op result h') h')
      fun _ h' => (Event.follow false (seen ++ h.events x op none h')).isSome = true := by
  have broken : ∀ cause h', Fails h cause h' →
      (Event.follow false (seen ++ h.events x op none h')).isSome = true := by
    intro cause h' fails
    rw [promises.swept fails.kept]
    rfl
  cases plain : op.isPlain with
  | true =>
    refine ((progresses_perform plain h promises.sound).and (perform_none plain h)).imp ?_ ?_
    · rintro _ h' ⟨progress, rfl⟩
      exact promises.progress progress (promises.swept progress.kept)
    · exact fun cause h' both => broken cause h' both.1
  | false =>
    cases op with
    | request record size flags =>
      refine (request_spec promises.sound record size flags).imp ?_ broken
      intro result h' served
      cases result with
      | none =>
        have progress : Progress h h' := served
        exact promises.progress progress (promises.swept progress.kept)
      | some y =>
        have gained : Gained flags.finalizable h y h' := served
        by_cases here : y = x
        · subst here
          exact promises.allocated gained
        · exact promises.elsewhere gained here
    | takeWork => cases whole
    | _ => cases plain

/-! ### Calls -/

/-- The operation changes what objects hold, or the roots, and nothing else. -/
def Operation.isTouch : Operation → Bool
  | .write .. | .setRoots .. => true
  | _ => false

/-- Objects were written to and roots were changed. -/
def Touched (h h' : Heap) : Prop :=
  ∃ ops : List Operation, (∀ op ∈ ops, op.isTouch = true) ∧ h' = h.afterAll ops

theorem progress_touch (sound : h.Sound) (touch : op.isTouch = true) :
    Progress h ((perform op).after h) := by
  have plain : op.isPlain = true := by
    cases op with
    | write | setRoots => rfl
    | _ => cases touch
  obtain ⟨h', run⟩ : ∃ h', perform op h = .ok none h' := by
    cases op with
    | write | setRoots => exact ⟨_, rfl⟩
    | _ => cases touch
  rw [Action.after, run]
  exact (progresses_perform plain h sound).ok run

theorem Touched.progress (sound : h.Sound) (touched : Touched h h') : Progress h h' := by
  obtain ⟨ops, touch, rfl⟩ := touched
  induction ops generalizing h with
  | nil => exact sound.refl
  | cons op rest ih =>
    have first := progress_touch sound (touch op List.mem_cons_self)
    exact first.trans (ih first.sound fun other later => touch other (List.mem_cons_of_mem _ later))

end Heap

namespace Machine

open Action

variable {γ α β : Type} {x record object : Nat} {callback : Callback} {m : Machine (Watch γ)}
  {invoke : Invoke γ}

/-- The promises at the address are kept so far. -/
def Keeps (x : Nat) (m : Machine (Watch γ)) : Prop := Heap.Promises x m.client.seen m.heap

/-- Neither the arenas nor the tables have changed since. -/
theorem Keeps.aside (keeps : m.Keeps x) {h : Heap} (aside : Heap.Aside m.heap h) :
    Keeps x { m with heap := h } := keeps.progress (aside.progress keeps.sound) keeps.due

/-- The action keeps the promises, whether it comes to its end or not. -/
def Keeping (x : Nat) (a : Action (Machine (Watch γ)) α) : Prop :=
  ∀ m, m.Keeps x → a.Ends m (fun _ m' => m'.Keeps x) fun _ m' => m'.Keeps x

theorem Keeping.then {a : Action (Machine (Watch γ)) α} {next : α → Action (Machine (Watch γ)) β}
    (first : Keeping x a) (rest : ∀ value, Keeping x (next value)) : Keeping x (a >>= next) :=
  Preserves.then first rest

theorem keeping_pure (value : α) : Keeping x (pure value : Action (Machine (Watch γ)) α) :=
  preserves_pure value

theorem keeping_throw (cause : Failure) : Keeping x (throw cause : Action (Machine (Watch γ)) α) :=
  fun _ keeps => ends_throw.2 keeps

/-- What a call leads to is told by what the program does meanwhile. What it gets wrong is dropped. -/
theorem call_ends {done : Machine γ → Prop} {failed : Failure → Machine γ → Prop}
    {invoke : Invoke γ} {m : Machine γ}
    (made : (invoke record callback object).Ends
      { m with heap := m.heap.startCall object callback }
      (fun _ m' => done { m' with heap := m'.heap.endCall })
      fun cause m' => match cause with
        | .defect _ => done { m' with heap := m'.heap.endCall }
        | cause => failed cause { m' with heap := m'.heap.endCall }) :
    (call invoke record object callback).Ends m (fun _ m' => done m') failed := by
  cases run : invoke record callback object
      { m with heap := m.heap.startCall object callback } with
  | ok value m' =>
    have same : call invoke record object callback m
        = .ok () { m' with heap := m'.heap.endCall } := by simp only [call, run]
    exact (ends_of_ok same).2 (made.ok run)
  | error cause m' =>
    have reached := made.error run
    cases cause with
    | defect =>
      have same : call invoke record object callback m
          = .ok () { m' with heap := m'.heap.endCall } := by simp only [call, run]
      exact (ends_of_ok same).2 reached
    | fatal cause =>
      have same : call invoke record object callback m
          = .error (.fatal cause) { m' with heap := m'.heap.endCall } := by simp only [call, run]
      exact (ends_of_error same).2 reached
    | stuck =>
      have same : call invoke record object callback m
          = .error .stuck { m' with heap := m'.heap.endCall } := by simp only [call, run]
      exact (ends_of_error same).2 reached

/-- What holds whatever comes of the program's part of a call holds after the call. -/
theorem call_spec {p : Machine γ → Prop} {invoke : Invoke γ} {m : Machine γ}
    (made : (invoke record callback object).Ends
      { m with heap := m.heap.startCall object callback }
      (fun _ m' => p { m' with heap := m'.heap.endCall })
      fun _ m' => p { m' with heap := m'.heap.endCall }) :
    (call invoke record object callback).Ends m (fun _ m' => p m') fun _ m' => p m' := by
  refine call_ends (made.imp (fun _ _ kept => kept) fun cause m' kept => ?_)
  cases cause <;> exact kept

theorem aside_startCall (h : Heap) (object : Nat) (callback : Callback) :
    Heap.Aside h (h.startCall object callback) := ⟨rfl, rfl, rfl, rfl⟩

theorem Keeps.endCall (keeps : m.Keeps x) : Keeps x { m with heap := m.heap.endCall } :=
  keeps.aside ⟨rfl, rfl, rfl, rfl⟩

variable [ObjectModel]

/-- The calls of the program do not use the heap, but to write into objects and to change roots. They
may fail. -/
def StaysOut (invoke : Invoke γ) : Prop :=
  ∀ record callback object m, (invoke record callback object).Ends m
    (fun _ m' => Heap.Touched m.heap m'.heap) fun _ m' => Heap.Touched m.heap m'.heap

/-- What the program does in a call keeps the promises. -/
theorem keeping_body (out : StaysOut invoke) : Keeping x
    ((invoke record callback object).on
      (fun m : Machine (Watch γ) => { heap := m.heap, client := m.client.client })
      fun m done =>
        { heap := done.heap, client := { m.client with client := done.client } }) := by
  intro m keeps
  rw [ends_on]
  exact (out record callback object _).imp
    (fun _ _ touched => keeps.progress (touched.progress keeps.sound) keeps.due)
    fun _ _ touched => keeps.progress (touched.progress keeps.sound) keeps.due

/-- Any call but that of the finalizer of the object at the address. -/
theorem keeping_call (out : StaysOut invoke) (other : ¬ (object = x ∧ callback = .finalize)) :
    Keeping x (call (watchCall invoke x) record object callback) := by
  intro m keeps
  have started := keeps.aside (aside_startCall m.heap object callback)
  refine call_spec ?_
  simp only [watchCall, if_neg other]
  exact (keeping_body out { m with heap := m.heap.startCall object callback } started).imp
    (fun _ _ kept => kept.endCall) fun _ _ kept => kept.endCall

/-- The call of the finalizer of the object at the address, when it is due. -/
theorem call_due (out : StaysOut invoke) (due : Heap.Due x m.client.seen m.heap) :
    (call (watchCall invoke x) record x .finalize).Ends m (fun _ m' => m'.Keeps x)
      fun _ m' => m'.Keeps x := by
  have started := due.aside (aside_startCall m.heap x .finalize)
  refine call_spec ?_
  simp only [watchCall, and_self, if_true]
  rw [ends_bind, ends_modify]
  let begun : Machine (Watch γ) := { m with heap := m.heap.startCall x .finalize }
  exact (keeping_body out (begun.note [.finalized]) started.called).imp
    (fun _ _ kept => kept.endCall) fun _ _ kept => kept.endCall

theorem keeping_callEach (out : StaysOut invoke) (calls : List Callback)
    (others : .finalize ∉ calls ∨ object ≠ x) :
    Keeping x (callEach (watchCall invoke x) record object calls) := by
  induction calls with
  | nil => exact keeping_pure ()
  | cons callback rest ih =>
    refine Keeping.then (keeping_call out ?_) fun _ => ih ?_
    · rintro ⟨same, rfl⟩
      rcases others with none | other
      · exact none List.mem_cons_self
      · exact other same
    · exact others.imp_left fun none later => none (List.mem_cons_of_mem _ later)

theorem keeping_workOnce (out : StaysOut invoke) (record : Nat) :
    Keeping x (workOnce (watchCall invoke x) record) := by
  intro m keeps
  simp only [workOnce, onHeap]
  rw [ends_bind, ends_on]
  refine (Heap.takeWork_spec keeps.sound).imp ?_ fun _ _ => False.elim
  intro work h taken
  cases work with
  | none =>
    cases (show h = m.heap from taken)
    exact ends_pure.2 keeps
  | some piece =>
    obtain ⟨object, calls⟩ := piece
    let tracked : Heap := { h with threads := h.threads.track record object }
    have aside : Heap.Aside h tracked := ⟨rfl, rfl, rfl, rfl⟩
    let m₁ : Machine (Watch γ) := { m with heap := tracked }
    -- It is enough that the calls are made well, and that no promise hangs on an object that is gone.
    suffices made : ((callEach (watchCall invoke x) record object calls).Ends m₁
        (fun _ m' => m'.Keeps x) fun _ m' => m'.Keeps x)
        ∧ (tracked.isValid object = false → m₁.Keeps x) by
      simp only [modifyHeap, ends_bind, ends_modify, ends_get, ends_require]
      refine ⟨fun _ => made.1.mono fun _ m' kept => ends_pure.2 ?_, made.2⟩
      exact kept.aside ⟨rfl, rfl, rfl, rfl⟩
    have others : .finalize ∉ calls ∨ object ≠ x → m₁.Keeps x →
        ((callEach (watchCall invoke x) record object calls).Ends m₁
          (fun _ m' => m'.Keeps x) fun _ m' => m'.Keeps x)
        ∧ (tracked.isValid object = false → m₁.Keeps x) :=
      fun other kept => ⟨keeping_callEach out calls other m₁ kept, fun _ => kept⟩
    rcases taken with ⟨progress, none⟩ | ⟨rfl, source, config, waiting⟩
    · have progress' := progress.trans (aside.progress progress.sound)
      exact others (.inl none) (keeps.progress progress' keeps.due)
    · have sound : h.Sound := ⟨source ▸ keeps.sound.source, by
        rw [source, config, keeps.sound.maximum]⟩
      by_cases here : object = x
      · subst here
        have due := (keeps.taken sound source waiting).aside aside
        refine ⟨?_, fun gone => ?_⟩
        · rw [callEach, ends_bind]
          exact (call_due out due).mono fun _ _ kept => ends_pure.2 kept
        · rw [due.live] at gone
          cases gone
      · have passed := keeps.passed sound source waiting here
        exact others (.inr here) (passed.progress (aside.progress sound) passed.due)

theorem keeping_drain (out : StaysOut invoke) (record budget : Nat) :
    Keeping x (drain (watchCall invoke x) record budget) := by
  induction budget with
  | zero => exact keeping_throw .stuck
  | succ budget ih =>
    refine (keeping_workOnce out record).then fun more => ?_
    cases more with
    | true => exact ih
    | false => exact keeping_pure ()

theorem keeping_drainOnWorker (out : StaysOut invoke) (budget : Nat) :
    Keeping x (drainOnWorker (watchCall invoke x) budget) := by
  intro m keeps
  have drained : ∀ record, (drain (watchCall invoke x) record budget).Ends m
      (fun _ m' => m'.Keeps x) fun _ m' => m'.Keeps x :=
    fun record => keeping_drain out record budget m keeps
  constructor
  · intro value m' run
    unfold drainOnWorker at run
    split at run
    · cases run
      exact keeps
    · split at run
      · cases run
        exact (drained _).ok ‹_›
      · cases run
      · cases run
        exact ((drained _).error ‹_›).aside ⟨rfl, rfl, rfl, rfl⟩
  · intro cause m' run
    unfold drainOnWorker at run
    split at run
    · cases run
    · split at run
      · cases run
      · cases run
        exact (drained _).error ‹_›
      · cases run

theorem keeping_finishPending (out : StaysOut invoke) (record budget : Nat) :
    Keeping x (finishPending (watchCall invoke x) record budget) := by
  intro m keeps
  simp only [finishPending, ends_bind, ends_get]
  split
  · split
    · exact ends_bind.2 (ends_throw.2 keeps)
    · exact keeping_drainOnWorker out budget m keeps
  · exact keeping_drain out record budget m keeps

/-! ### Runs -/

/-- What was seen may have happened. -/
def Lawful (m : Machine (Watch γ)) : Prop := (Event.follow false m.client.seen).isSome = true

/-- A step keeps the promises, and one that breaks off breaks none. -/
theorem take_spec (out : StaysOut invoke) (step : Step) (keeps : m.Keeps x) :
    (take invoke x step).Ends m (fun _ m' => m'.Keeps x) fun _ m' => m'.Lawful := by
  have lawful : ∀ m' : Machine (Watch γ), m'.Keeps x → m'.Lawful := fun _ kept => kept.lawful
  cases step with
  | operate op whole =>
    have performed := Heap.perform_promises keeps whole
    constructor
    · intro value m' run
      simp only [take, operate] at run
      split at run
      case h_1 result h done =>
        cases run
        exact performed.ok done
      case h_2 => cases run
    · intro cause m' run
      simp only [take, operate] at run
      split at run
      case h_1 => cases run
      case h_2 cause h broken =>
        cases run
        exact performed.error broken
  | work record =>
    exact ((keeping_workOnce out record).then fun _ => keeping_pure ()) m keeps
      |>.imp (fun _ _ kept => kept) fun _ => lawful
  | drain record budget =>
    exact (keeping_drain out record budget m keeps).imp (fun _ _ kept => kept) fun _ => lawful
  | drainOnWorker budget =>
    exact (keeping_drainOnWorker out budget m keeps).imp (fun _ _ kept => kept) fun _ => lawful
  | finishPending record budget =>
    exact (keeping_finishPending out record budget m keeps).imp (fun _ _ kept => kept)
      fun _ => lawful

theorem takeAll_spec (out : StaysOut invoke) (steps : List Step) (keeps : m.Keeps x) :
    (takeAll invoke x steps).Ends m (fun _ m' => m'.Keeps x) fun _ m' => m'.Lawful := by
  induction steps generalizing m with
  | nil => exact ends_pure.2 keeps
  | cons step rest ih =>
    rw [takeAll, ends_bind]
    exact (take_spec out step keeps).mono fun _ m' kept => ih kept

end Machine

/-- However a program uses a new heap, each of its objects is finalized if it was to be, once at the
most and before it is swept. -/
theorem finalizes_in_turn [ObjectModel] {γ : Type} {config : Config} {h : Heap}
    (run : Heap.create config = .ok (.ok h)) {invoke : Machine.Invoke γ}
    (out : Machine.StaysOut invoke) (client : γ) (steps : List Step) (x : Nat) :
    FinalizedInTurn
      ((Machine.takeAll invoke x steps).after { heap := h, client := { client } }).client.seen := by
  have begun : Machine.Keeps x { heap := h, client := { client } } := Heap.promises_create run x
  apply finalizedInTurn_of_follow
  exact (Machine.takeAll_spec out steps begun).after Machine.Lawful
    (fun _ m keeps => keeps.lawful) fun _ m lawful => lawful

/-- An object with a finalizer is lost, its finalizer is called, and it is swept. -/
def oneLife : List Step :=
  [.operate (.attach 0 "main") rfl,
    .operate (.request 0 24 { finalizable := true, untracked := true }) rfl,
    .operate (.collect false) rfl, .finishPending 0 2, .operate (.collect false) rfl]

theorem oneLife_finalizes :
    let seen := ((Machine.takeAll (fun _ _ _ => pure ()) (Region.arenaBase 0) oneLife).after
      { heap := Heap.small, client := { client := () } }).client.seen
    seen = [.allocated true, .finalized, .swept] ∧ FinalizedInTurn seen := by
  refine ⟨by decide +kernel, ?_⟩
  refine finalizes_in_turn (show Heap.create Heap.smallConfig = .ok (.ok Heap.small) from rfl) ?_ ..
  exact fun _ _ _ m => Action.ends_pure.2 ⟨[], fun _ => False.elim ∘ List.not_mem_nil, rfl⟩

end ManagedHeap
