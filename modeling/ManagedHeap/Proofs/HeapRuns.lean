import ManagedHeap.Proofs.Cycles
import ManagedHeap.Proofs.Reachability
import ManagedHeap.Proofs.SourceRuns

/-!
A heap does nothing to its arenas but take the steps that anyone may take with them. So what holds of
the arenas over all their steps holds of the arenas of a heap.
-/

namespace ManagedHeap

namespace Source

open Action

/-- Steps of some kinds, one after the other. A step counts also where it breaks off. -/
inductive Steps (kind : Operation → Prop) : Source → Source → Prop where
  | refl (s : Source) : Steps kind s s
  | step {s s' : Source} (op : Operation) :
    kind op → Steps kind s s' → Steps kind s ((perform op).after s')

variable {s s' s'' : Source} {kind other : Operation → Prop}

theorem Steps.one (op : Operation) (known : kind op) : Steps kind s ((perform op).after s) :=
  .step op known (.refl s)

theorem Steps.trans (first : Steps kind s s') (second : Steps kind s' s'') :
    Steps kind s s'' := by
  induction second with
  | refl => exact first
  | step op known _ ih => exact .step op known ih

theorem Steps.mono (steps : Steps kind s s') (more : ∀ op, kind op → other op) :
    Steps other s s' := by
  induction steps with
  | refl => exact .refl _
  | step op known _ ih => exact .step op (more op known) ih

/-- What every step of these kinds keeps up holds after any number of them. -/
theorem Steps.holds {p : Source → Prop} (steps : Steps kind s s')
    (preserves : ∀ op, kind op → (perform op).Preserves p) (start : p s) : p s' := by
  induction steps with
  | refl => exact start
  | step op known _ ih => exact (preserves op known).after ih

theorem Reachable.steps {start maximum : Nat} {zygote : Bool}
    (reachable : Reachable start maximum zygote s) (steps : Steps kind s s') :
    Reachable start maximum zygote s' := by
  induction steps with
  | refl => exact reachable
  | step op _ _ ih => exact ih.step op

theorem after_quietly {α : Type} (step : Action Source α) (s : Source) :
    (quietly step).after s = step.after s := by
  simp only [Action.after, quietly, bind, EStateM.bind, pure, EStateM.pure]
  cases step s <;> rfl

/-- The steps of the phases of a collection. -/
def Operation.reclaims : Operation → Prop
  | .free _ | .write .. => True
  | _ => False

/-- The steps of a collection and of the trimming that may come after it. -/
def Operation.collects : Operation → Prop
  | .free _ | .write .. | .growForUtilization | .shrinkToIdeal => True
  | _ => False

theorem Operation.collects_of_reclaims {op : Operation} (reclaims : op.reclaims) :
    op.collects := by
  cases op <;> first | exact trivial | exact reclaims.elim

end Source

namespace Action

variable {σ τ α β : Type} {view : σ → Source} {kind other : Source.Operation → Prop}

/-- All that the action does to the arenas in the state are steps of some kinds. -/
def Drives (view : σ → Source) (kind : Source.Operation → Prop) (a : Action σ α) : Prop :=
  ∀ s, a.Ends s (fun _ s' => Source.Steps kind (view s) (view s'))
    fun _ s' => Source.Steps kind (view s) (view s')

theorem Drives.then {a : Action σ α} {next : α → Action σ β} (first : a.Drives view kind)
    (rest : ∀ value, (next value).Drives view kind) : (a >>= next).Drives view kind :=
  Relates.then Source.Steps.trans first rest

/-- The steps of an action follow those that were taken before. -/
theorem Drives.since {a : Action σ α} (drives : a.Drives view kind) {s s' : σ}
    (steps : Source.Steps kind (view s) (view s')) :
    a.Ends s' (fun _ s'' => Source.Steps kind (view s) (view s''))
      fun _ s'' => Source.Steps kind (view s) (view s'') :=
  (drives s').imp (fun _ _ more => steps.trans more) fun _ _ more => steps.trans more

theorem Drives.mono {a : Action σ α} (drives : a.Drives view kind)
    (more : ∀ op, kind op → other op) : a.Drives view other :=
  fun s => (drives s).imp (fun _ _ steps => steps.mono more) fun _ _ steps => steps.mono more

theorem drives_pure (value : α) : Drives view kind (pure value) :=
  relates_pure (fun _ => .refl _) value

theorem drives_get : Drives view kind (get : Action σ σ) := fun _ => ends_get.2 (.refl _)

theorem drives_modify {change : σ → σ} (same : ∀ s, view (change s) = view s) :
    Drives view kind (modify change) :=
  fun s => ends_modify.2 ((same s).symm ▸ .refl _)

/-- An action that does not touch the arenas. -/
theorem drives_of_same {a : Action σ α}
    (same : ∀ s, a.Ends s (fun _ s' => view s' = view s) fun _ s' => view s' = view s) :
    a.Drives view kind :=
  fun s => (same s).imp (fun _ _ equal => equal.symm ▸ .refl _) fun _ _ equal => equal.symm ▸ .refl _

/-- An action on the arenas that is one step. -/
theorem drives_step {put : σ → Source → σ} (back : ∀ s source, view (put s source) = source)
    {step : Action Source α} (op : Source.Operation) (known : kind op)
    (same : ∀ s, (Source.perform op).after s = step.after s) :
    Drives view kind (step.on view put) := by
  intro s
  rw [ends_on]
  have steps : Source.Steps kind (view s) (step.after (view s)) :=
    same (view s) ▸ .one op known
  refine ⟨fun run => ?_, fun run => ?_⟩ <;>
  · rw [Action.after, run] at steps
    rw [back]
    exact steps

end Action

/-! ### A collection -/

namespace Cycle

open Action

variable [ObjectModel]

/-- To clear a reference is to write a word. -/
theorem withstands_steps (s : Source) :
    Withstands fun c => Source.Steps Source.Operation.reclaims s c.source where
  marking _ _ steps := steps
  tables _ _ steps := steps
  cleared c x steps :=
    .step (.write x (ObjectModel.referentIndex (c.source.payload x)) 1 0) trivial steps
  freed x := by
    intro c steps
    have frees : Action.Drives Cycle.source Source.Operation.reclaims
        (Action.on Cycle.source (fun c source => { c with source }) (Source.free x)) :=
      drives_step (fun _ _ => rfl) (.free x) trivial fun s => Source.after_quietly _ s
    exact (frees c).imp (fun _ _ more => steps.trans more) fun _ _ more => steps.trans more
  decided _ steps := steps

theorem drives_run (roots : List Nat) (policy : SoftPolicy) :
    Action.Drives Cycle.source Source.Operation.reclaims (run roots policy) :=
  fun c => (withstands_steps c.source).run roots policy c (.refl c.source)

end Cycle

/-! ### Operations on a heap -/

namespace Source

/-- The step counts external memory. -/
def Operation.charges : Operation → Prop
  | .externalAlloc .. => True
  | _ => False

theorem Operation.not_charges_of_collects {op : Operation} (collects : op.collects) :
    ¬ op.charges := by
  cases op <;> first | exact id | exact collects.elim

end Source

namespace Heap

open Action

variable {α : Type} {kind : Source.Operation → Prop} {h h' h'' : Heap} {n : Nat}

/-- The action takes steps of some kinds with the arenas. -/
abbrev Drives (kind : Source.Operation → Prop) (a : Action Heap α) : Prop :=
  Action.Drives Heap.source kind a

theorem Sidesteps.drives {a : Action Heap α} (sidesteps : Sidesteps a) : Drives kind a :=
  drives_of_same fun h => (sidesteps h).imp (fun _ _ aside => aside.source)
    fun _ _ both => both.1.source

theorem drives_onSource {step : Action Source α} (op : Source.Operation) (known : kind op)
    (same : ∀ s, (Source.perform op).after s = step.after s) : Drives kind (onSource step) :=
  drives_step (fun _ _ => rfl) op known same

theorem drives_sizeChanged : Drives kind (modify sizeChanged) := by
  refine drives_modify fun h => ?_
  obtain ⟨threshold, policy, same⟩ := h.sizeChanged_frame
  rw [same]

theorem drives_checkWatchdog : Drives kind checkWatchdog :=
  drives_of_same fun _ => ends_checkWatchdog (fun _ _ => rfl) fun _ => rfl

section

variable [ObjectModel]

theorem drives_runCycle (collectSoft : Bool) :
    Drives Source.Operation.reclaims (runCycle collectSoft) := by
  intro h
  simp only [runCycle, ends_bind, ends_get, ends_on]
  exact Cycle.drives_run _ _ h.beginCycle

theorem drives_collect (collectSoft : Bool) :
    Drives Source.Operation.collects (collect collectSoft) := by
  have began : Drives Source.Operation.collects
      (modify fun h : Heap => { h with collecting := true }) := drives_modify fun _ => rfl
  have retained : Drives Source.Operation.collects (modify retainScheduled) :=
    drives_modify fun _ => rfl
  have grows : Drives Source.Operation.collects (onSource Source.growForUtilization) :=
    drives_onSource .growForUtilization trivial fun s => Source.after_quietly _ s
  have counted : ∀ objects bytes,
      Drives Source.Operation.collects (modify (·.countCycle objects bytes)) :=
    fun _ _ => drives_modify fun _ => rfl
  refine drives_get.then fun h => ?_
  split
  · exact drives_pure ()
  · exact began.then fun _ => drives_checkWatchdog.then fun _ => retained.then fun _ =>
      ((drives_runCycle collectSoft).mono fun _ => Source.Operation.collects_of_reclaims).then
        fun freed => grows.then fun _ => drives_sizeChanged.then fun _ => counted freed.1 freed.2

theorem drives_collectFor (record : Nat) (collectSoft : Bool) :
    Drives Source.Operation.collects (collectFor record collectSoft) := fun _ =>
  ends_collectFor (.refl _) (.refl _) (drives_collect collectSoft).since

omit [ObjectModel] in
theorem drives_allocGrowing (size : Nat) :
    Drives (fun op => ¬ op.charges) (allocGrowing size) :=
  (drives_onSource (.allocAndGrow size) id fun _ => rfl).then fun _ =>
    drives_sizeChanged.then fun _ => drives_pure _

theorem drives_findRoom (record size : Nat) :
    Drives (fun op => ¬ op.charges) (findRoom record size) := by
  have collects : ∀ soft, Drives (fun op => ¬ op.charges) (collectFor record soft) := fun soft =>
    (drives_collectFor record soft).mono fun _ => Source.Operation.not_charges_of_collects
  have allocates : Drives (fun op => ¬ op.charges) (onSource (Source.alloc size)) :=
    drives_onSource (.alloc size) id fun _ => rfl
  refine drives_get.then fun h => ?_
  split
  · exact drives_pure _
  refine allocates.then fun object => ?_
  cases object with
  | some x => exact drives_pure _
  | none =>
    refine (collects false).then fun _ => allocates.then fun object => ?_
    cases object with
    | some x => exact drives_pure _
    | none =>
      refine (drives_allocGrowing size).then fun object => ?_
      cases object with
      | some x => exact drives_pure _
      | none => exact (collects true).then fun _ => drives_allocGrowing size

omit [ObjectModel] in
theorem drives_enter (record x : Nat) (flags : AllocFlags) : Drives kind (enter record x flags) :=
  drives_of_same fun _ => ends_enter (fun _ _ _ _ => rfl) fun _ _ _ => rfl

theorem drives_request (record size : Nat) (flags : AllocFlags) :
    Drives (fun op => ¬ op.charges) (request record size flags) := by
  refine drives_get.then fun h => (drives_findRoom record size).then fun object => ?_
  have counted : Drives (fun op => ¬ op.charges) (do
      countIf h.profiling record (Profile.countAlloc size object.isSome)
      return object) :=
    (sidesteps_countIf _ record (countAlloc_spares size _)).drives.then fun _ => drives_pure _
  cases object with
  | none => exact counted
  | some x => exact (drives_enter record x flags).then fun _ => counted

end

/-! ### External memory -/

/-- External memory was counted in the arenas. -/
def Charged (n : Nat) (s s' : Source) : Prop :=
  ∃ externalLimit, s' = { s with externalBytes := s.externalBytes + n, externalLimit }

theorem externalAlloc_cases (s : Source) (n : Nat) (grow : Bool) :
    (Source.externalAlloc n grow).Ends s
      (fun done s' => (done = true ∧ Charged n s s') ∨ (done = false ∧ s' = s))
      fun _ s' => s' = s ∨ Charged n s s' :=
  Source.ends_externalAlloc (.inr ⟨rfl, rfl⟩) (.inl rfl)
    (fun _ => ⟨.inl ⟨rfl, _, rfl⟩, .inr ⟨_, rfl⟩⟩) grow

/-- After steps of a collection external memory was counted, or was not. -/
def Charges (n : Nat) (h h' : Heap) : Prop :=
  ∃ s, Source.Steps Source.Operation.collects h.source s ∧ (h'.source = s ∨ Charged n s h'.source)

theorem Charges.after (steps : Source.Steps Source.Operation.collects h.source h'.source)
    (charges : Charges n h' h'') : Charges n h h'' := by
  obtain ⟨s, more, result⟩ := charges
  exact ⟨s, steps.trans more, result⟩

/-- An attempt to count external memory. Nothing was done where it answers no. -/
def Attempts (n : Nat) (a : Action Heap Bool) : Prop :=
  ∀ h, a.Ends h (fun done h' => Charges n h h' ∧ (done = false → h'.source = h.source))
    fun _ h' => Charges n h h'

theorem attempts_externalAlloc (n : Nat) (grow : Bool) :
    Attempts n (onSource (Source.externalAlloc n grow)) := by
  intro h
  simp only [onSource, ends_on]
  refine (externalAlloc_cases h.source n grow).imp ?_ ?_
  · rintro done s (⟨rfl, charged⟩ | ⟨rfl, rfl⟩)
    · exact ⟨⟨_, .refl _, .inr charged⟩, fun no => nomatch no⟩
    · exact ⟨⟨_, .refl _, .inl rfl⟩, fun _ => rfl⟩
  · rintro _ s (rfl | charged)
    · exact ⟨_, .refl _, .inl rfl⟩
    · exact ⟨_, .refl _, .inr charged⟩

theorem attempts_growExternal (n : Nat) : Attempts n (growExternal n) := by
  intro h
  rw [growExternal, ends_bind]
  refine (attempts_externalAlloc n true h).mono fun done h₁ both => ?_
  simp only [ends_bind, ends_modify, ends_pure]
  obtain ⟨threshold, policy, same⟩ := h₁.sizeChanged_frame
  rw [same]
  exact both

/-- What comes after an attempt: nothing, or a collection and more attempts. -/
theorem Attempts.then {a : Action Heap Bool} {next : Bool → Action Heap Bool}
    (first : Attempts n a) (done : next true = pure true)
    (rest : ∀ h, (next false).Ends h (fun _ h' => Charges n h h') fun _ h' => Charges n h h')
    (h : Heap) : (a >>= next).Ends h (fun _ h' => Charges n h h') fun _ h' => Charges n h h' := by
  rw [ends_bind]
  refine (first h).mono fun answer h₁ both => ?_
  cases answer with
  | true => exact done ▸ ends_pure.2 both.1
  | false =>
    have same := both.2 rfl
    have after : ∀ {h₂}, Charges n h₁ h₂ → Charges n h h₂ := fun charges =>
      charges.after (same ▸ .refl _)
    exact (rest h₁).imp (fun _ _ charges => after charges) fun _ _ charges => after charges

section

variable [ObjectModel]

theorem charges_collectFor (record : Nat) (collectSoft : Bool) {next : Unit → Action Heap Bool}
    (rest : ∀ h, (next ()).Ends h (fun _ h' => Charges n h h') fun _ h' => Charges n h h')
    (h : Heap) : (collectFor record collectSoft >>= next).Ends h (fun _ h' => Charges n h h')
      fun _ h' => Charges n h h' := by
  rw [ends_bind]
  refine (drives_collectFor record collectSoft h).imp (fun _ h₁ steps => ?_) fun _ _ steps => ?_
  · exact (rest h₁).imp (fun _ _ charges => charges.after steps)
      fun _ _ charges => charges.after steps
  · exact ⟨_, steps, .inl rfl⟩

theorem chargeExternal_spec (record n : Nat) (h : Heap) :
    (chargeExternal record n).Ends h (fun _ h' => Charges n h h') fun _ h' => Charges n h h' := by
  have last : ∀ h, (growExternal n).Ends h (fun _ h' => Charges n h h')
      fun _ h' => Charges n h h' := fun h => (attempts_growExternal n h).mono fun _ _ both => both.1
  unfold chargeExternal
  refine (attempts_externalAlloc n false).then ?_ (charges_collectFor record false ?_) h
  · rfl
  refine (attempts_externalAlloc n false).then ?_ ((attempts_growExternal n).then ?_ ?_)
  · rfl
  · rfl
  · exact charges_collectFor record true last

/-- After steps of a collection it was found that external memory would fit beside all that the
active arena may come to. After more such steps it was counted, or was not. -/
def Requested (n : Nat) (h h' : Heap) : Prop :=
  ∃ checked s, Source.Steps Source.Operation.collects h.source checked
    ∧ Source.Steps Source.Operation.collects checked s
    ∧ (h'.source = s
      ∨ Charged n s h'.source ∧ checked.externalBytes + n ≤ checked.active.absoluteMax)

omit [ObjectModel] in
theorem requested_of_steps (steps : Source.Steps Source.Operation.collects h.source h'.source) :
    Requested n h h' := ⟨_, _, steps, .refl _, .inl rfl⟩

omit [ObjectModel] in
theorem externalPossible_eq {s : Source} (possible : s.externalPossible n = .ok true) :
    s.externalBytes + n ≤ s.active.absoluteMax := by
  simp only [Source.externalPossible, bind, Except.bind, pure, Except.pure] at possible
  split at possible
  · cases possible
  case h_2 counted sum =>
    split at possible
    · cases possible
    case h_2 total sum' =>
      have counted := (Word.add_eq_ok.1 sum).2
      have total := (Word.add_eq_ok.1 sum').2
      have fits := of_decide_eq_true (Except.ok.inj possible)
      omega

theorem charge_requested (steps : Source.Steps Source.Operation.collects h.source h'.source)
    (possible : h'.source.externalPossible n = .ok true) (record : Nat) :
    (do
      if ← chargeExternal record n then return .ok ()
      return .error (.externalOutOfMemory n) : Action Heap (Except HeapError Unit)).Ends h'
      (fun _ h'' => Requested n h h'') fun _ h'' => Requested n h h'' := by
  have fits := externalPossible_eq possible
  have requested : ∀ {h''}, Charges n h' h'' → Requested n h h'' := by
    rintro h'' ⟨s, more, result⟩
    exact ⟨h'.source, s, steps, more, result.imp_right fun charged => ⟨charged, fits⟩⟩
  rw [ends_bind]
  refine (chargeExternal_spec record n h').imp (fun done h'' charges => ?_)
    fun _ _ charges => requested charges
  cases done <;> exact ends_pure.2 (requested charges)

theorem findExternalRoom_spec (record n : Nat) (h : Heap) :
    (findExternalRoom record n).Ends h (fun _ h' => Requested n h h')
      fun _ h' => Requested n h h' := by
  have here : Requested n h h := requested_of_steps (.refl _)
  unfold findExternalRoom
  rw [ends_bind, ends_get, ends_bind, ends_lift]
  refine ⟨fun possible found => ?_, fun _ _ => here⟩
  cases possible with
  | true => exact charge_requested (.refl _) found record
  | false =>
    have shrinks : Drives Source.Operation.collects (onSource Source.shrinkToIdeal) :=
      drives_onSource .shrinkToIdeal trivial fun s => Source.after_quietly _ s
    change (collectFor record false >>= _).Ends h _ _
    rw [ends_bind]
    refine (drives_collectFor record false h).imp (fun _ h₁ steps => ?_)
      fun _ _ steps => requested_of_steps steps
    rw [ends_bind]
    refine (shrinks h₁).imp (fun _ h₂ more => ?_)
      fun _ _ more => requested_of_steps (steps.trans more)
    have sofar := steps.trans more
    rw [ends_bind, ends_get, ends_bind, ends_lift]
    refine ⟨fun possible found => ?_, fun _ _ => requested_of_steps sofar⟩
    cases possible with
    | true => exact charge_requested sofar found record
    | false => exact ends_pure.2 (requested_of_steps sofar)

theorem requestExternal_spec (record n : Nat) (h : Heap) :
    (requestExternal record n).Ends h (fun _ h' => Requested n h h')
      fun _ h' => Requested n h h' := by
  have after : ∀ {h₁ h₂}, Requested n h h₁ → h₂.source = h₁.source → Requested n h h₂ := by
    intro h₁ h₂ requested same
    unfold Requested
    rw [same]
    exact requested
  unfold requestExternal
  rw [ends_bind]
  refine (findExternalRoom_spec record n h).mono fun result h₁ requested => ?_
  simp only [ends_bind, ends_get, ends_pure]
  refine (sidesteps_countIf _ record (countExternal_spares n _) h₁).imp ?_ ?_
  · exact fun _ _ aside => after requested aside.source
  · exact fun _ _ both => after requested both.1.source

theorem drives_requestExternal (record n : Nat) :
    Drives (fun _ => True) (requestExternal record n) := by
  have collects : ∀ soft, Drives (fun _ => True) (collectFor record soft) :=
    fun soft => (drives_collectFor record soft).mono fun _ _ => trivial
  have charges : ∀ grow, Drives (fun _ => True) (onSource (Source.externalAlloc n grow)) :=
    fun grow => drives_onSource (.externalAlloc n grow) trivial fun s => Source.after_quietly _ s
  have shrinks : Drives (fun _ => True) (onSource Source.shrinkToIdeal) :=
    drives_onSource .shrinkToIdeal trivial fun s => Source.after_quietly _ s
  have finds : Drives (fun _ => True) (findExternalRoom record n) := fun _ =>
    ends_findExternalRoom (fun grow {_} => (charges grow).since)
      (fun {h} steps => steps.trans (ends_modify.1 (drives_sizeChanged h)))
      (fun soft {_} => (collects soft).since) shrinks.since id (.refl _)
  refine finds.then fun result => drives_get.then fun h => ?_
  exact (sidesteps_countIf _ record (countExternal_spares n _)).drives.then fun _ => drives_pure _

/-! ### Runs -/

omit [ObjectModel] in
theorem Drives.silent {step : Action Heap α} (drives : Drives kind step) :
    Drives kind (silent step) := drives.then fun _ => drives_pure none

omit [ObjectModel] in
theorem drives_silentStep {step : Action Source α} (op : Source.Operation) (known : kind op)
    (same : ∀ s, (Source.perform op).after s = step.after s) :
    Drives kind (silent (onSource step)) := (drives_onSource op known same).silent

omit [ObjectModel] in
/-- A change to the heap that is a step of the arenas. -/
theorem drives_change {change : Heap → Heap} (op : Source.Operation) (known : kind op)
    (same : ∀ h, (Source.perform op).after h.source = (change h).source) :
    Drives kind (modify change) :=
  fun h => ends_modify.2 (same h ▸ .one op known)

/-- An operation on a heap takes steps with the arenas, of which only a request for external memory
counts any. -/
theorem drives_perform (op : Operation) (quiet : ∀ record bytes, op ≠ .requestExternal record bytes) :
    Drives (fun op => ¬ op.charges) (perform op) := by
  cases op with
  | request record size flags => exact drives_request record size flags
  | collect collectSoft =>
    have drives : Drives (fun op => ¬ op.charges) (collect collectSoft) :=
      (drives_collect collectSoft).mono fun _ => Source.Operation.not_charges_of_collects
    exact drives.silent
  | requestExternal record bytes => exact absurd rfl (quiet record bytes)
  | freeExternal bytes =>
    exact drives_silentStep (.externalFree bytes) id fun s => Source.after_quietly _ s
  | clearFlags record x flags => exact (sidesteps_clearFlags record x flags).drives.silent
  | setMinimum size =>
    refine Drives.silent ?_
    exact (drives_onSource (.setMinimum size) id fun s => Source.after_quietly _ s).then fun _ =>
      drives_sizeChanged.then fun _ => drives_pure _
  | trim => exact drives_silentStep .trim id fun s => Source.after_quietly _ s
  | beforeFork => exact drives_silentStep .beforeFork id fun s => Source.after_quietly _ s
  | afterZygote =>
    refine Drives.silent ?_
    refine (drives_onSource .afterZygote id fun s => Source.after_quietly _ s).then fun result => ?_
    cases result with
    | error => exact drives_pure _
    | ok =>
      refine drives_get.then fun h => ?_
      split
      · exact sidesteps_startWorker.drives.then fun _ => drives_pure _
      · exact drives_pure _
  | attach thread name => exact (sidesteps_attach thread name).drives.silent
  | takeWork =>
    refine Drives.silent (drives_of_same fun h => ?_)
    exact ends_takeWork (fun _ _ => rfl) (fun _ => rfl) fun _ _ => rfl
  | write x index count value =>
    exact (drives_change (.write x index count value) id fun _ => rfl).silent
  | setUtilization ratio => exact (drives_change (.setUtilization ratio) id fun _ => rfl).silent
  | snapshotBitmaps => exact (drives_change .snapshotBitmaps id fun _ => rfl).silent
  | replaceBitmaps numbers =>
    refine (drives_change (.replaceBitmaps numbers) id fun h => ?_).silent
    rw [replaceBitmaps_eq]
    rfl
  | transition record state =>
    exact (sidesteps_modify fun h => h.besides_transition record state).drives.silent
  | shutdown record => exact (sidesteps_modify fun h => h.besides_shutdown record).drives.silent
  | detach | track | untrack | setRoots | setDebugging | setProfiling | setReporting | pass
  | startCall | endCall =>
    refine Drives.silent (drives_modify ?_)
    exact fun _ => rfl

/-- What holds after a request for external memory and after steps that count none holds after every
operation. -/
theorem ends_perform {p : Heap → Prop}
    (requests : ∀ record bytes, (requestExternal record bytes).Ends h (fun _ h' => p h') fun _ h' => p h')
    (quiet : ∀ h', Source.Steps (fun op => ¬ op.charges) h.source h'.source → p h') (op : Operation) :
    (perform op).Ends h (fun _ h' => p h') fun _ h' => p h' := by
  by_cases external : ∃ record bytes, op = .requestExternal record bytes
  case pos =>
    obtain ⟨record, bytes, rfl⟩ := external
    simp only [perform, silent, ends_bind, ends_pure]
    exact requests record bytes
  case neg =>
    exact (drives_perform op (fun record bytes same => external ⟨record, bytes, same⟩) h).imp
      (fun _ => quiet) fun _ => quiet

/-- Every operation on a heap does nothing to the arenas but take steps with them. -/
theorem drives_any (op : Operation) : Drives (fun _ => True) (perform op) := fun h =>
  ends_perform (fun record bytes => drives_requestExternal record bytes h)
    (fun _ steps => steps.mono fun _ _ => trivial) op

/-- The arenas of a heap are arenas that steps of the arenas can come to. -/
theorem Reachable.source {config : Config} (reachable : Reachable config h) :
    Source.Reachable config.startSize config.maximumSize config.zygote h.source := by
  induction reachable with
  | create run =>
    obtain ⟨s, started, source, -⟩ := create_frame run
    rw [source]
    exact (Source.Reachable.startup started).step (.setUtilization config.utilization)
  | @step h op _ ih =>
    exact ih.steps ((drives_any op h).after (fun h' => Source.Steps (fun _ => True) h.source h'.source)
      (fun _ _ steps => steps) fun _ _ steps => steps)

end

end Heap

end ManagedHeap
