import ManagedHeap.Proofs.Actions

/-!
Actions that do the same on states that are related. An action is compared with another one step at a
time.
-/

namespace ManagedHeap

namespace Action

variable {σ τ α β γ δ : Type} {a b : Action σ α}

/-- From related states on the second action does what the first does: it answers what is related to the
answer of the first, or breaks off for the same cause, and leaves a related state. -/
def Simulates (r : σ → σ → Prop) (v : α → β → Prop) (a : Action σ α) (b : Action σ β) : Prop :=
  ∀ s t, r s t → a.Ends s (fun value s' => ∃ value' t', b t = .ok value' t' ∧ v value value' ∧ r s' t')
    fun cause s' => ∃ t', b t = .error cause t' ∧ r s' t'

/-- As before, where the answers are the same. -/
abbrev Mirrors (r : σ → σ → Prop) (a b : Action σ α) : Prop := Simulates r Eq a b

section

variable {r : σ → σ → Prop}

theorem Simulates.then {v : α → β → Prop} {w : γ → δ → Prop} {a : Action σ α} {b : Action σ β}
    {next : α → Action σ γ} {next' : β → Action σ δ} (first : Simulates r v a b)
    (rest : ∀ x y, v x y → Simulates r w (next x) (next' y)) :
    Simulates r w (a >>= next) (b >>= next') := by
  intro s t related
  rw [ends_bind]
  refine (first s t related).imp ?_ ?_
  · rintro x s' ⟨y, t', run, same, related'⟩
    have step : (b >>= next') t = next' y t' := bind_of_ok run
    rw [step]
    exact rest x y same s' t' related'
  · rintro cause s' ⟨t', run, related'⟩
    exact ⟨t', bind_of_error run, related'⟩

theorem Mirrors.then {w : γ → δ → Prop} {next : α → Action σ γ} {next' : α → Action σ δ}
    (first : Mirrors r a b) (rest : ∀ x, Simulates r w (next x) (next' x)) :
    Simulates r w (a >>= next) (b >>= next') :=
  Simulates.then first fun x _ same => same ▸ rest x

/-- Run from the same state, an action does the same. -/
theorem mirrors_self (a : Action σ α) : Mirrors Eq a a := by
  rintro s _ rfl
  exact ⟨fun run => ⟨_, _, run, rfl, rfl⟩, fun run => ⟨_, run, rfl⟩⟩

theorem simulates_pure {v : α → β → Prop} {x : α} {y : β} (same : v x y) :
    Simulates r v (pure x) (pure y) := fun _ t related => ends_pure.2 ⟨y, t, rfl, same, related⟩

theorem mirrors_pure (x : α) : Mirrors r (pure x) (pure x) := simulates_pure rfl

theorem Simulates.map {v : α → β → Prop} {w : γ → δ → Prop} {a : Action σ α} {b : Action σ β}
    {change : α → γ} {change' : β → δ} (simulates : Simulates r v a b)
    (same : ∀ x y, v x y → w (change x) (change' y)) : Simulates r w (change <$> a) (change' <$> b) :=
  simulates.then fun x y rel => simulates_pure (same x y rel)

theorem mirrors_throw (cause : Failure) : Mirrors r (throw cause : Action σ α) (throw cause) :=
  fun _ t related => ends_throw.2 ⟨t, rfl, related⟩

/-- What would come after a failure does not matter. -/
theorem simulates_throw {w : γ → δ → Prop} {next : α → Action σ γ} {next' : α → Action σ δ}
    (cause : Failure) : Simulates r w (throw cause >>= next) (throw cause >>= next') :=
  fun _ t related => ends_bind.2 (ends_throw.2 ⟨t, rfl, related⟩)

theorem mirrors_lift (value : Except Defect α) : Mirrors r (liftM value) (liftM value) := by
  intro s t related
  refine ends_lift.2 ⟨?_, ?_⟩
  · rintro x rfl
    exact ⟨x, t, rfl, rfl, related⟩
  · rintro cause rfl
    exact ⟨t, rfl, related⟩

/-- Values that are renamed alike. -/
theorem simulates_lift {f : α → β} {value : Except Defect α} {value' : Except Defect β}
    (same : value' = value.map f) : Simulates r (fun x y => y = f x) (liftM value) (liftM value') := by
  intro s t related
  rw [same]
  refine ends_lift.2 ⟨?_, ?_⟩
  · rintro x rfl
    exact ⟨f x, t, rfl, rfl, related⟩
  · rintro cause rfl
    exact ⟨t, rfl, related⟩

theorem mirrors_require (condition : Bool) : Mirrors r (require condition) (require condition) := by
  cases condition with
  | true => exact mirrors_pure ()
  | false => exact mirrors_throw _

theorem mirrors_get {w : γ → δ → Prop} {next : σ → Action σ γ} {next' : σ → Action σ δ}
    (rest : ∀ s t, r s t → Simulates r w (next s) (next' t)) :
    Simulates r w (get >>= next) (get >>= next') := fun s t related => by
  rw [ends_bind, ends_get]
  exact rest s t related s t related

theorem mirrors_set {s t : σ} (related : r s t) : Mirrors r (set s) (set t) :=
  fun _ _ _ => ends_set.2 ⟨⟨⟩, t, rfl, rfl, related⟩

theorem mirrors_modify {change change' : σ → σ} (related : ∀ s t, r s t → r (change s) (change' t)) :
    Mirrors r (modify change) (modify change') :=
  fun s t before => ends_modify.2 ⟨⟨⟩, change' t, rfl, rfl, related s t before⟩

theorem Simulates.ite {v : α → β → Prop} {a a' : Action σ α} {b b' : Action σ β} {p : Prop}
    [Decidable p] (yes : p → Simulates r v a b) (no : ¬ p → Simulates r v a' b') :
    Simulates r v (if p then a else a') (if p then b else b') := by
  split
  case isTrue holds => exact yes holds
  case isFalse fails => exact no fails

/-- An action on a part of a larger state. -/
theorem Simulates.on {q : τ → τ → Prop} {v : α → β → Prop} {a : Action σ α} {b : Action σ β}
    {part : τ → σ} {put : τ → σ → τ} (simulates : Simulates r v a b)
    (parts : ∀ s t, q s t → r (part s) (part t))
    (whole : ∀ s t s' t', q s t → r s' t' → q (put s s') (put t t')) :
    Simulates q v (a.on part put) (b.on part put) := by
  intro s t related
  refine ends_on.2 ((simulates _ _ (parts s t related)).imp ?_ ?_)
  · rintro x s' ⟨y, t', run, same, related'⟩
    exact ⟨y, put t t', by rw [Action.on, run], same, whole s t s' t' related related'⟩
  · rintro cause s' ⟨t', run, related'⟩
    exact ⟨put t t', by rw [Action.on, run], whole s t s' t' related related'⟩

end

/-! ### Seen through a part of the state -/

section

variable {part : τ → σ}

/-- The part of the state fares as with the action `b`, and what is answered agrees by way of
`view`. -/
def Projects (part : τ → σ) (view : α → β) (a : Action τ α) (b : Action σ β) : Prop :=
  ∀ t, a.Ends t (fun value t' => b (part t) = .ok (view value) (part t'))
    fun cause t' => b (part t) = .error cause (part t')

theorem Projects.then {view : α → β} {view' : γ → δ} {a : Action τ α} {b : Action σ β}
    {next : α → Action τ γ} {next' : β → Action σ δ} (first : Projects part view a b)
    (rest : ∀ value, Projects part view' (next value) (next' (view value))) :
    Projects part view' (a >>= next) (b >>= next') := by
  intro t
  rw [ends_bind]
  refine (first t).imp (fun value t₁ run => ?_) fun _ _ run => bind_of_error run
  exact (rest value t₁).imp (fun _ _ more => (bind_of_ok run).trans more)
    fun _ _ more => (bind_of_ok run).trans more

theorem Projects.map {view : α → β} {view' : γ → β} {a : Action τ α} {b : Action σ β}
    (projects : Projects part view a b) {change : α → γ}
    (same : ∀ value, view' (change value) = view value) :
    Projects part view' (change <$> a) b := by
  intro t
  rw [ends_map]
  exact (projects t).mono fun value t' run => (same value).symm ▸ run

theorem projects_pure (value : α) : Projects part id (pure value) (pure value) :=
  fun _ => ends_pure.2 rfl

theorem projects_throw (cause : Failure) :
    Projects part (id : α → α) (throw cause) (throw cause) := fun _ => ends_throw.2 rfl

theorem Projects.ite {view : α → β} {a a' : Action τ α} {b b' : Action σ β} {p : Prop}
    [Decidable p] (yes : Projects part view a b) (no : Projects part view a' b') :
    Projects part view (if p then a else a') (if p then b else b') := by
  split
  · exact yes
  · exact no

/-- What would come after a failure does not matter. -/
theorem Projects.throw {view : γ → δ} {next : α → Action τ γ} {next' : α → Action σ δ}
    (cause : Failure) : Projects part view (throw cause >>= next) (throw cause >>= next') :=
  fun _ => ends_bind.2 (ends_throw.2 rfl)

/-- An action on the part itself. -/
theorem projects_on {put : τ → σ → τ} (put_part : ∀ t s, part (put t s) = s) (a : Action σ α) :
    Projects part id (a.on part put) a := by
  intro t
  refine ends_on.2 ⟨fun run => ?_, fun run => ?_⟩
  · rw [put_part]
    exact run
  · rw [put_part]
    exact run

/-- A change to the rest of the state is not seen. -/
theorem Projects.besides {view : α → β} {a : Action τ α} {b : Action σ β} {change : τ → τ}
    (projects : Projects part view a b) (same : ∀ t, part (change t) = part t) :
    Projects part view (do modify change; a) b := by
  intro t
  rw [ends_bind, ends_modify, ← same t]
  exact projects (change t)

end

end Action

end ManagedHeap
