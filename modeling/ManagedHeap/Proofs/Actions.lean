import ManagedHeap.Error

/-!
Reasoning about actions. What an action does is told by two conditions: one on the result and the
state in which it comes to its end, and one on the failure and the state in which it breaks off.
-/

namespace ManagedHeap

namespace Action

variable {σ τ α β : Type}

/-- Run in a state, the action comes to its end as `done` says or breaks off as `failed` says. -/
structure Ends (a : Action σ α) (s : σ) (done : α → σ → Prop) (failed : Failure → σ → Prop) :
    Prop where
  ok : ∀ {value reached}, a s = .ok value reached → done value reached
  error : ∀ {cause reached}, a s = .error cause reached → failed cause reached

variable {a : Action σ α} {s : σ} {done : α → σ → Prop} {failed : Failure → σ → Prop}

theorem ends_of_ok {value : α} {reached : σ} (run : a s = .ok value reached) :
    a.Ends s done failed ↔ done value reached := by
  constructor
  · intro ends
    exact ends.ok run
  · intro holds
    refine ⟨fun {other state} run' => ?_, fun {cause state} run' => ?_⟩
    · cases run.symm.trans run'
      exact holds
    · cases run.symm.trans run'

theorem ends_of_error {cause : Failure} {reached : σ} (run : a s = .error cause reached) :
    a.Ends s done failed ↔ failed cause reached := by
  constructor
  · intro ends
    exact ends.error run
  · intro holds
    refine ⟨fun {value state} run' => ?_, fun {other state} run' => ?_⟩
    · cases run.symm.trans run'
    · cases run.symm.trans run'
      exact holds

/-- Conditions may be weakened. -/
theorem Ends.imp {done' : α → σ → Prop} {failed' : Failure → σ → Prop}
    (ends : a.Ends s done failed) (weaker : ∀ value reached, done value reached → done' value reached)
    (weaker_failed : ∀ cause reached, failed cause reached → failed' cause reached) :
    a.Ends s done' failed' :=
  ⟨fun run => weaker _ _ (ends.ok run), fun run => weaker_failed _ _ (ends.error run)⟩

theorem Ends.mono {done' : α → σ → Prop} (ends : a.Ends s done failed)
    (weaker : ∀ value reached, done value reached → done' value reached) :
    a.Ends s done' failed :=
  ends.imp weaker fun _ _ broken => broken

/-- Two things known of one run. -/
theorem Ends.and {done' : α → σ → Prop} {failed' : Failure → σ → Prop}
    (ends : a.Ends s done failed) (ends' : a.Ends s done' failed') :
    a.Ends s (fun value reached => done value reached ∧ done' value reached)
      fun cause reached => failed cause reached ∧ failed' cause reached :=
  ⟨fun run => ⟨ends.ok run, ends'.ok run⟩, fun run => ⟨ends.error run, ends'.error run⟩⟩

/-- An action that cannot come to its end breaks off. -/
theorem Ends.exists_ok (ends : a.Ends s done fun _ _ => False) :
    ∃ value reached, a s = .ok value reached ∧ done value reached := by
  cases run : a s with
  | ok value reached => exact ⟨value, reached, rfl, ends.ok run⟩
  | error cause reached => exact (ends.error run).elim

theorem Ends.eq_ok {value : α} {reached : σ}
    (ends : a.Ends s (fun value' reached' => value' = value ∧ reached' = reached) fun _ _ => False) :
    a s = .ok value reached := by
  obtain ⟨_, _, run, rfl, rfl⟩ := ends.exists_ok
  exact run

theorem Ends.exists_error (ends : a.Ends s (fun _ _ => False) failed) :
    ∃ cause reached, a s = .error cause reached ∧ failed cause reached := by
  cases run : a s with
  | ok value reached => exact (ends.ok run).elim
  | error cause reached => exact ⟨cause, reached, rfl, ends.error run⟩

@[simp]
theorem ends_pure {value : α} : (pure value : Action σ α).Ends s done failed ↔ done value s :=
  ends_of_ok rfl

@[simp]
theorem ends_throw {cause : Failure} :
    (throw cause : Action σ α).Ends s done failed ↔ failed cause s := ends_of_error rfl

theorem bind_of_ok {next : α → Action σ β} {value : α} {reached : σ} (run : a s = .ok value reached) :
    (a >>= next) s = next value reached := by
  change EStateM.bind a next s = _
  rw [EStateM.bind, run]

theorem bind_of_error {next : α → Action σ β} {cause : Failure} {reached : σ}
    (run : a s = .error cause reached) : (a >>= next) s = .error cause reached := by
  change EStateM.bind a next s = _
  rw [EStateM.bind, run]

@[simp]
theorem ends_bind {next : α → Action σ β} {done : β → σ → Prop} :
    (a >>= next).Ends s done failed
      ↔ a.Ends s (fun value reached => (next value).Ends reached done failed) failed := by
  cases run : a s with
  | ok value reached =>
    have step : (a >>= next) s = next value reached := bind_of_ok run
    rw [ends_of_ok run]
    exact ⟨fun ends => ⟨fun h => ends.ok (step.trans h), fun h => ends.error (step.trans h)⟩,
      fun ends => ⟨fun h => ends.ok (step.symm.trans h), fun h => ends.error (step.symm.trans h)⟩⟩
  | error cause reached =>
    rw [ends_of_error run, ends_of_error (bind_of_error run)]

/-- What comes next does the same where the first action comes to its end. -/
theorem bind_eq {a' : Action σ α} {next next' : α → Action σ β} (same : a s = a' s)
    (rest : ∀ {value reached}, a s = .ok value reached → next value reached = next' value reached) :
    (a >>= next) s = (a' >>= next') s := by
  change EStateM.bind a next s = EStateM.bind a' next' s
  rw [EStateM.bind, EStateM.bind, ← same]
  cases run : a s with
  | ok value reached => exact rest run
  | error => rfl

@[simp]
theorem ends_map {change : α → β} {done : β → σ → Prop} :
    (change <$> a).Ends s done failed
      ↔ a.Ends s (fun value reached => done (change value) reached) failed := by
  rw [show change <$> a = a >>= fun value => pure (change value) from rfl, ends_bind]
  simp only [ends_pure]

@[simp]
theorem ends_get {done : σ → σ → Prop} : (get : Action σ σ).Ends s done failed ↔ done s s :=
  ends_of_ok rfl

@[simp]
theorem ends_set {put : σ} {done : PUnit → σ → Prop} :
    (set put : Action σ PUnit).Ends s done failed ↔ done ⟨⟩ put := ends_of_ok rfl

@[simp]
theorem ends_modify {change : σ → σ} {done : PUnit → σ → Prop} :
    (modify change : Action σ PUnit).Ends s done failed ↔ done ⟨⟩ (change s) := ends_of_ok rfl

@[simp]
theorem ends_lift {value : Except Defect α} : (liftM value : Action σ α).Ends s done failed
    ↔ (∀ result, value = .ok result → done result s)
      ∧ ∀ cause, value = .error cause → failed (.defect cause) s := by
  cases value with
  | ok result =>
    have run : (liftM (Except.ok result : Except Defect α) : Action σ α) s = .ok result s := rfl
    rw [ends_of_ok run]
    constructor
    · intro holds
      refine ⟨?_, ?_⟩
      · rintro _ ⟨⟩
        exact holds
      · rintro _ ⟨⟩
    · intro both
      exact both.1 result rfl
  | error cause =>
    have run : (liftM (Except.error cause : Except Defect α) : Action σ α) s
        = .error (.defect cause) s := rfl
    rw [ends_of_error run]
    constructor
    · intro holds
      refine ⟨?_, ?_⟩
      · rintro _ ⟨⟩
      · rintro _ ⟨⟩
        exact holds
    · intro both
      exact both.2 cause rfl

/-- A value that is known to be one is gone on with. -/
theorem ends_lift_of_ok {value : Except Defect α} {result : α} (run : value = .ok result) :
    (liftM value : Action σ α).Ends s done failed ↔ done result s := by
  rw [run]
  exact ends_of_ok rfl

@[simp]
theorem ends_ite {p : Prop} [Decidable p] {other : Action σ α} :
    (if p then a else other).Ends s done failed
      ↔ (p → a.Ends s done failed) ∧ (¬p → other.Ends s done failed) := by
  split
  case isTrue yes => simp [yes]
  case isFalse no => simp [no]

@[simp]
theorem ends_require {condition : Bool} {done : Unit → σ → Prop} :
    (require condition : Action σ Unit).Ends s done failed
      ↔ (condition = true → done () s) ∧ (condition = false → failed (.defect .assertion) s) := by
  cases condition <;> simp [require]

@[simp]
theorem ends_on {part : τ → σ} {put : τ → σ → τ} {whole : τ} {done : α → τ → Prop}
    {failed : Failure → τ → Prop} : (a.on part put).Ends whole done failed
      ↔ a.Ends (part whole) (fun value reached => done value (put whole reached))
        fun cause reached => failed cause (put whole reached) := by
  cases run : a (part whole) with
  | ok value reached =>
    have whole_run : a.on part put whole = .ok value (put whole reached) := by
      rw [Action.on, run]
    rw [ends_of_ok run, ends_of_ok whole_run]
  | error cause reached =>
    have whole_run : a.on part put whole = .error cause (put whole reached) := by
      rw [Action.on, run]
    rw [ends_of_error run, ends_of_error whole_run]

@[simp]
theorem ends_orStuck : a.orStuck.Ends s done failed ↔ a.Ends s done fun _ => failed .stuck := by
  cases run : a s with
  | ok value reached =>
    have stuck_run : a.orStuck s = .ok value reached := by
      rw [Action.orStuck, run]
    rw [ends_of_ok run, ends_of_ok stuck_run]
  | error cause reached =>
    have stuck_run : a.orStuck s = .error .stuck reached := by
      rw [Action.orStuck, run]
    rw [ends_of_error run, ends_of_error stuck_run]

/-! ### Attempts -/

/-- What an attempt finds is answered. If it finds nothing, another is made. -/
theorem ends_attempt {a : Action σ (Option α)} {next : Option α → Action σ (Option α)}
    {found : Option α → σ → Prop} (first : a.Ends s found failed)
    (answered : ∀ x, next (some x) = pure (some x))
    (rest : ∀ {reached}, found none reached → (next none).Ends reached found failed) :
    (a >>= next).Ends s found failed := by
  rw [ends_bind]
  refine first.mono fun result reached known => ?_
  cases result with
  | none => exact rest known
  | some x =>
    rw [answered x]
    exact ends_pure.2 known

/-- An attempt that may succeed, and what is tried next if it does not. -/
theorem ends_unless {a : Action σ Bool} {next : Bool → Action σ Bool} {p : σ → Prop}
    (first : a.Ends s (fun _ reached => p reached) failed) (answered : next true = pure true)
    (rest : ∀ {reached}, p reached → (next false).Ends reached (fun _ reached' => p reached') failed) :
    (a >>= next).Ends s (fun _ reached => p reached) failed := by
  rw [ends_bind]
  refine first.mono fun done reached holds => ?_
  cases done with
  | false => exact rest holds
  | true =>
    rw [answered]
    exact ends_pure.2 holds

/-! ### The state that is left -/

/-- The state that an action leaves, at its end or where it breaks off. -/
def after (a : Action σ α) (s : σ) : σ :=
  match a s with
  | .ok _ reached => reached
  | .error _ reached => reached

theorem Ends.after (ends : a.Ends s done failed) (p : σ → Prop)
    (ok : ∀ value reached, done value reached → p reached)
    (error : ∀ cause reached, failed cause reached → p reached) : p (a.after s) := by
  rw [Action.after]
  split
  case h_1 value reached run => exact ok value reached (ends.ok run)
  case h_2 cause reached run => exact error cause reached (ends.error run)

/-- Does the action come to its end from the state? -/
def succeeds (a : Action σ α) (s : σ) : Bool :=
  match a s with
  | .ok .. => true
  | .error .. => false

theorem eq_ok_of_succeeds {a : Action σ Unit} (ends : a.succeeds s = true) :
    a s = .ok () (a.after s) := by
  unfold after
  unfold succeeds at ends
  cases run : a s with
  | ok => rfl
  | error =>
    rw [run] at ends
    cases ends

/-- The result of an action that comes to its end. -/
def result? (a : Action σ α) (s : σ) : Option α :=
  match a s with
  | .ok value _ => some value
  | .error .. => none

theorem eq_ok_of_result {value : α} (ends : a.result? s = some value) : a s = .ok value (a.after s) := by
  unfold after
  unfold result? at ends
  cases run : a s with
  | ok =>
    rw [run] at ends
    cases ends
    rfl
  | error =>
    rw [run] at ends
    cases ends

/-! ### What an action keeps up -/

/-- The action keeps a condition on the state up, whether it comes to its end or not. -/
def Preserves (p : σ → Prop) (a : Action σ α) : Prop :=
  ∀ s, p s → a.Ends s (fun _ reached => p reached) fun _ reached => p reached

variable {p : σ → Prop}

theorem Preserves.after (preserves : a.Preserves p) (holds : p s) : p (a.after s) :=
  (preserves s holds).after p (fun _ _ kept => kept) fun _ _ kept => kept

theorem Preserves.then {next : α → Action σ β} (first : a.Preserves p)
    (rest : ∀ value, (next value).Preserves p) : (a >>= next).Preserves p := by
  intro s holds
  rw [ends_bind]
  exact (first s holds).mono fun value reached kept => rest value reached kept

theorem preserves_pure (value : α) : (pure value : Action σ α).Preserves p :=
  fun _ holds => ends_pure.2 holds

theorem preserves_lift (value : Except Defect α) : (liftM value : Action σ α).Preserves p :=
  fun _ holds => ends_lift.2 ⟨fun _ _ => holds, fun _ _ => holds⟩

theorem preserves_modify {change : σ → σ} (keeps : ∀ s, p s → p (change s)) :
    (modify change : Action σ PUnit).Preserves p := fun s holds => ends_modify.2 (keeps s holds)

/-- An action that looks at the state first. -/
theorem preserves_get {next : σ → Action σ α} (rest : ∀ s, p s → (next s).Ends s
    (fun _ reached => p reached) fun _ reached => p reached) :
    (get >>= next : Action σ α).Preserves p :=
  fun s holds => ends_bind.2 (ends_get.2 (rest s holds))

/-- What an action keeps up, together with how what it leaves is related to where it all began. -/
theorem Preserves.since (preserves : a.Preserves p) (related : σ → σ → Prop)
    (trans : ∀ {s₁ s₂ s₃}, related s₁ s₂ → related s₂ s₃ → related s₁ s₃)
    (ends : ∀ s, p s → a.Ends s (fun _ reached => related s reached)
      fun _ reached => related s reached) (s : σ) :
    a.Preserves fun reached => p reached ∧ related s reached := by
  rintro s₁ ⟨holds, sofar⟩
  refine ((preserves s₁ holds).and (ends s₁ holds)).imp ?_ ?_
  · exact fun _ _ both => ⟨both.1, trans sofar both.2⟩
  · exact fun _ _ both => ⟨both.1, trans sofar both.2⟩

/-! ### How what an action leaves stands to where it began -/

/-- What the action leaves stands in the relation to where it began, whether it comes to its end or
not. -/
def Relates (related : σ → σ → Prop) (a : Action σ α) : Prop :=
  ∀ s, a.Ends s (fun _ reached => related s reached) fun _ reached => related s reached

section

variable {related : σ → σ → Prop}

theorem Relates.after (relates : a.Relates related) (s : σ) : related s (a.after s) :=
  (relates s).after (related s) (fun _ _ moved => moved) fun _ _ moved => moved

theorem Relates.then {next : α → Action σ β}
    (trans : ∀ {s₁ s₂ s₃}, related s₁ s₂ → related s₂ s₃ → related s₁ s₃)
    (first : a.Relates related) (rest : ∀ value, (next value).Relates related) :
    (a >>= next).Relates related := by
  intro s
  rw [ends_bind]
  refine (first s).mono fun value reached sofar => ?_
  exact (rest value reached).imp (fun _ _ more => trans sofar more) fun _ _ more => trans sofar more

theorem relates_modify {change : σ → σ} (moved : ∀ s, related s (change s)) :
    (modify change : Action σ PUnit).Relates related := fun s => ends_modify.2 (moved s)

/-- An action that looks at the state first. -/
theorem relates_get {next : σ → Action σ α} (rest : ∀ s, (next s).Ends s
    (fun _ reached => related s reached) fun _ reached => related s reached) :
    (get >>= next : Action σ α).Relates related :=
  fun s => ends_bind.2 (ends_get.2 (rest s))

variable (refl : ∀ s, related s s)

include refl

theorem relates_pure (value : α) : (pure value : Action σ α).Relates related :=
  fun s => ends_pure.2 (refl s)

theorem relates_lift (value : Except Defect α) : (liftM value : Action σ α).Relates related :=
  fun s => ends_lift.2 ⟨fun _ _ => refl s, fun _ _ => refl s⟩

end

/-! ### Room on the mark stack -/

end Action

/-- The failure is for want of room on the mark stack. -/
def Failure.Overflows : Failure → Prop
  | .fatal (.markStackOverflow _) => True
  | _ => False

namespace Action

variable {σ τ α β : Type} {a : Action σ α}

/-- From no state does the action fail for want of room on the mark stack. -/
def Spares (a : Action σ α) : Prop :=
  ∀ s, a.Ends s (fun _ _ => True) fun cause _ => ¬ cause.Overflows

theorem Spares.then {next : α → Action σ β} (first : a.Spares) (rest : ∀ v, (next v).Spares) :
    (a >>= next).Spares := by
  intro s
  rw [ends_bind]
  exact (first s).mono fun value reached _ => rest value reached

theorem spares_pure (value : α) : (pure value : Action σ α).Spares := fun _ => ends_pure.2 trivial

theorem spares_throw {cause : Failure} (other : ¬ cause.Overflows) :
    (throw cause : Action σ α).Spares := fun _ => ends_throw.2 other

theorem spares_get : (get : Action σ σ).Spares := fun _ => ends_get.2 trivial

theorem spares_set (s : σ) : (set s : Action σ PUnit).Spares := fun _ => ends_set.2 trivial

theorem spares_modify (change : σ → σ) : (modify change : Action σ PUnit).Spares :=
  fun _ => ends_modify.2 trivial

theorem spares_lift (value : Except Defect α) : (liftM value : Action σ α).Spares :=
  fun _ => ends_lift.2 ⟨fun _ _ => trivial, fun _ _ => id⟩

end Action

end ManagedHeap
