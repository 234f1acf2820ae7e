import ManagedHeap.Proofs.Allowances
import ManagedHeap.Proofs.ExternalAccounts
import ManagedHeap.Proofs.Trimming

/-!
Requests for external memory. A request looks whether there is room, and where there is none looks once
more after a collection. What it saw there decides: the memory is counted or the request is refused. It
breaks off only where the sum that it looks at is not a word, or where a collection does.
-/

namespace ManagedHeap

namespace Source

open Action

variable {s s' : Source} {n start maximum : Nat} {zygote : Bool}

/-- What there would have to be room for: all that the active arena is allowed, the external memory and
`n` bytes more. -/
def demand (s : Source) (n : Nat) : Nat := s.active.allowed + s.externalBytes + n

theorem externalPossible_demand (s : Source) (n : Nat) :
    s.externalPossible n = if s.demand n < Word.limit
      then .ok (decide (s.demand n ≤ s.active.absoluteMax)) else .error .overflow := by
  by_cases counted : s.active.allowed + s.externalBytes < Word.limit
  case pos =>
    simp only [externalPossible, Word.add, if_pos counted, bind, Except.bind, pure, Except.pure]
    unfold demand
    by_cases small : s.active.allowed + s.externalBytes + n < Word.limit
    · simp only [if_pos small]
    · simp only [if_neg small]
  case neg =>
    have large : ¬ s.demand n < Word.limit := fun small =>
      counted (Nat.lt_of_le_of_lt (Nat.le_add_right _ n) small)
    rw [if_neg large]
    simp only [externalPossible, Word.add, if_neg counted, bind, Except.bind]

theorem room_of_ok {possible : Bool} (look : s.externalPossible n = .ok possible) :
    possible = decide (s.demand n ≤ s.active.absoluteMax) := by
  rw [externalPossible_demand] at look
  split at look
  · exact (Except.ok.inj look).symm
  · cases look

theorem overflow_of_error {cause : Defect} (look : s.externalPossible n = .error cause) :
    cause = .overflow ∧ Word.limit ≤ s.demand n := by
  rw [externalPossible_demand] at look
  split at look
  · cases look
  case isFalse large => exact ⟨(Except.error.inj look).symm, Nat.le_of_not_lt large⟩

/-- It takes more than half of all addresses to make a sum that is not a word. -/
theorem Reachable.huge_of_demand (reachable : Reachable start maximum zygote s)
    (small : s.externalBytes < Size.unreservable) (large : Word.limit ≤ s.demand n) :
    Word.limit / 2 < n := by
  have allowed := reachable.allowed_le
  have bounded := reachable.governed.bounded
  simp only [demand, ceiling, Size.unreservable, Size.page, Word.limit] at *
  omega

/-- Where no external memory is counted its limit stays at or above it. -/
theorem budgeted_perform (op : Operation) (quiet : ¬ op.charges) :
    (perform op).Preserves fun s => s.Budgeted ∧ s.externalBytes < Size.unreservable := by
  rintro s ⟨budgeted, small⟩
  by_cases internal : op.isInternal
  case pos =>
    have kept : ∀ s', account s' = account s →
        s'.Budgeted ∧ s'.externalBytes < Size.unreservable := by
      intro s' same
      have bytes : s'.externalBytes = s.externalBytes := congrArg Prod.fst same
      exact ⟨budgeted.congr same, bytes ▸ small⟩
    exact (retains_internal op internal (account s) s rfl).imp (fun _ => kept) fun _ => kept
  case neg =>
    cases op with
    | externalAlloc n grow => exact absurd trivial quiet
    | externalFree n =>
      obtain ⟨limit, run, above, -⟩ := budgeted.externalFree_eq small n
      simp only [perform, quietly, ends_bind, ends_pure]
      rw [ends_of_ok run]
      exact ⟨Nat.le_trans (Nat.sub_le _ _) above, Nat.lt_of_le_of_lt (Nat.sub_le _ _) small⟩
    | _ => exact absurd trivial internal

/-- Steps of a collection leave the account and the target utilization alone. -/
theorem Steps.spares_account (steps : Steps Operation.collects s s') :
    s'.account = s.account ∧ s'.utilization = s.utilization :=
  ⟨steps.retains outlying_account level_account,
    steps.retains (fun _ _ _ _ _ _ _ => rfl) fun _ _ => rfl⟩

end Source

namespace Heap

open Action

variable {h h' checked begun : Heap} {config : Config} {m n record start maximum : Nat} {zygote : Bool}

section

variable [ObjectModel]

/-! ### Collections that break off -/

/-- A collection up to where the heap is sized. -/
def beforeSizing (collectSoft : Bool) : Action Heap (Nat × Nat) := do
  checkWatchdog
  modify retainScheduled
  runCycle collectSoft

theorem drives_beforeSizing (collectSoft : Bool) :
    Drives Source.Operation.collects (beforeSizing collectSoft) := by
  have retained : Drives Source.Operation.collects (modify retainScheduled) :=
    drives_modify fun _ => rfl
  exact drives_checkWatchdog.then fun _ => retained.then fun _ =>
    (drives_runCycle collectSoft).mono fun _ => Source.Operation.collects_of_reclaims

/-- Sizing comes to its end, so that a collection breaks off only before that. -/
theorem collect_breaks (reachable : Source.Reachable start maximum zygote h.source)
    (external : h.source.externalBytes < Size.unreservable) (low : 204 ≤ h.source.utilization)
    (collectSoft : Bool) : (collect collectSoft).Ends h (fun _ _ => True) fun cause h' =>
      h.collecting = false
        ∧ beforeSizing collectSoft { h with collecting := true } = .error cause h' := by
  unfold collect
  rw [ends_bind, ends_get]
  split
  case isTrue => exact ends_pure.2 trivial
  case isFalse idle =>
    have still : h.collecting = false := Bool.eq_false_iff.2 idle
    have itself : (beforeSizing collectSoft).Ends { h with collecting := true } (fun _ _ => True)
        fun cause h' => beforeSizing collectSoft { h with collecting := true } = .error cause h' :=
      ⟨fun _ => trivial, id⟩
    have ends := itself.and (drives_beforeSizing collectSoft { h with collecting := true })
    rw [ends_bind, ends_modify, ends_bind]
    refine (ends_bind.1 ends).imp (fun _ h₁ rest => ?_) fun _ _ fails => ⟨still, fails.1⟩
    rw [ends_bind, ends_modify] at rest ⊢
    rw [ends_bind]
    refine rest.imp (fun freed h₂ both => ?_) fun _ _ fails => ⟨still, fails.1⟩
    have steps : Source.Steps Source.Operation.collects h.source h₂.source := both.2
    have reachable' := reachable.steps steps
    obtain ⟨account, utilization⟩ := steps.spares_account
    have bytes : h₂.source.externalBytes = h.source.externalBytes := congrArg Prod.fst account
    have sized := Source.growForUtilization_ends reachable'.governed reachable'.bytes_le
      (bytes ▸ external) (utilization ▸ low)
    simp only [onSource, ends_bind, ends_on, ends_modify]
    exact sized.imp (fun _ _ _ => trivial) fun _ _ => False.elim

/-- Without counts a collection for a request is a collection. -/
theorem collectFor_of_unprofiled (unprofiled : h.profiling = false) (record : Nat) (collectSoft : Bool) :
    collectFor record collectSoft h = collect collectSoft h := by
  have same : collectFor record collectSoft h = (do
      if h.profiling then
        modify fun h =>
          { h with profile := h.profile.countCollection }.modifyMutator record fun m =>
            { m with profile := m.profile.countCollection }
      collect collectSoft : Action Heap Unit) h := bind_of_ok rfl
  rw [same, unprofiled]
  rfl

/-! ### Counts stay off -/

/-- No counts are kept. -/
def Unprofiled (h : Heap) : Prop := h.profiling = false

omit [ObjectModel] in
theorem unprofiled_onSource {α : Type} (action : Action Source α) :
    (onSource action).Preserves Unprofiled :=
  fun _ unprofiled => ends_on.2 ⟨fun _ => unprofiled, fun _ => unprofiled⟩

omit [ObjectModel] in
theorem unprofiled_sizeChanged : Preserves Unprofiled (modify sizeChanged) := by
  refine preserves_modify fun h unprofiled => ?_
  obtain ⟨threshold, policy, same⟩ := h.sizeChanged_frame
  rw [same]
  exact unprofiled

omit [ObjectModel] in
theorem unprofiled_checkWatchdog : checkWatchdog.Preserves Unprofiled := fun _ unprofiled =>
  ends_checkWatchdog (fun _ _ => unprofiled) fun _ => unprofiled

theorem unprofiled_collect (collectSoft : Bool) : (collect collectSoft).Preserves Unprofiled := by
  have began : Preserves Unprofiled (modify fun h : Heap => { h with collecting := true }) :=
    preserves_modify fun _ => id
  have retained : Preserves Unprofiled (modify retainScheduled) := preserves_modify fun _ => id
  have runs : (runCycle collectSoft).Preserves Unprofiled :=
    preserves_get fun _ unprofiled => ends_on.2 ⟨fun _ => unprofiled, fun _ => unprofiled⟩
  have counted : ∀ objects bytes, Preserves Unprofiled (modify (·.countCycle objects bytes)) :=
    fun _ _ => preserves_modify fun _ => id
  refine preserves_get fun h unprofiled => ?_
  split
  · exact ends_pure.2 unprofiled
  · exact (began.then fun _ => unprofiled_checkWatchdog.then fun _ => retained.then fun _ =>
      runs.then fun freed => (unprofiled_onSource _).then fun _ => unprofiled_sizeChanged.then
        fun _ => counted freed.1 freed.2) h unprofiled

theorem unprofiled_collectFor (record : Nat) (collectSoft : Bool) :
    (collectFor record collectSoft).Preserves Unprofiled := fun _ unprofiled =>
  ends_collectFor unprofiled unprofiled (unprofiled_collect collectSoft _)

theorem unprofiled_findExternalRoom (record n : Nat) :
    (findExternalRoom record n).Preserves Unprofiled := fun _ unprofiled =>
  ends_findExternalRoom (fun _ {_} => unprofiled_onSource _ _)
    (fun {h} holds => ends_modify.1 (unprofiled_sizeChanged h holds))
    (fun soft {_} => unprofiled_collectFor record soft _) (unprofiled_onSource _ _) id unprofiled

/-! ### What a request looks at, and what comes of it -/

/-- The heap when a request last looks whether there is room. Where there is none at first, it looks
again once a collection is over and the heap has shrunk to its ideal size. -/
inductive LastLook (record n : Nat) (h : Heap) : Heap → Prop where
  | first : h.source.externalPossible n ≠ .ok false → LastLook record n h h
  | second {released : List Nat} {h₁ h₂ : Heap} : h.source.externalPossible n = .ok false →
    collectFor record false h = .ok () h₁ → onSource Source.shrinkToIdeal h₁ = .ok released h₂ →
      LastLook record n h h₂

/-- The heap when a request asks for a collection: where there is no room at first, and where there is
room in the end but not under the limit. -/
inductive Asks (record n : Nat) (h : Heap) : Heap → Prop where
  | room : h.source.externalPossible n = .ok false → Asks record n h h
  | limit {checked : Heap} : LastLook record n h checked →
    checked.source.demand n ≤ checked.source.active.absoluteMax →
    checked.source.externalLimit < checked.source.externalBytes + n → Asks record n h checked

/-- The request is answered by what was looked at last: the memory is counted where there is room for
it, and otherwise refused with the account as it was. -/
def Answered (n : Nat) (h checked : Heap) (result : Except HeapError Unit) (h' : Heap) : Prop :=
  if checked.source.demand n ≤ checked.source.active.absoluteMax then
    result = .ok () ∧ h'.source.externalBytes = h.source.externalBytes + n
  else result = .error (.externalTooLarge n) ∧ h'.source.account = h.source.account

omit [ObjectModel] in
theorem Answered.counted (answered : Answered n h checked (.ok ()) h') :
    checked.source.demand n ≤ checked.source.active.absoluteMax
      ∧ h'.source.externalBytes = h.source.externalBytes + n := by
  unfold Answered at answered
  split at answered
  case isTrue room => exact ⟨room, answered.2⟩
  case isFalse => cases answered.1

omit [ObjectModel] in
theorem Answered.refused {cause : HeapError} (answered : Answered n h checked (.error cause) h') :
    checked.source.active.absoluteMax < checked.source.demand n ∧ cause = .externalTooLarge n
      ∧ h'.source.account = h.source.account := by
  unfold Answered at answered
  split at answered
  case isTrue => cases answered.1
  case isFalse none => exact ⟨Nat.lt_of_not_le none, Except.error.inj answered.1, answered.2⟩

theorem LastLook.steps (look : LastLook record n h checked) :
    Source.Steps Source.Operation.collects h.source checked.source := by
  cases look with
  | first => exact .refl _
  | second _ collected shrunk =>
    have shrinks : Drives Source.Operation.collects (onSource Source.shrinkToIdeal) :=
      drives_onSource .shrinkToIdeal trivial fun s => Source.after_quietly _ s
    exact ((drives_collectFor record false h).ok collected).trans ((shrinks _).ok shrunk)

theorem LastLook.unprofiled (look : LastLook record n h checked) (unprofiled : h.Unprofiled) :
    checked.Unprofiled := by
  cases look with
  | first => exact unprofiled
  | second _ collected shrunk =>
    have kept := (unprofiled_collectFor record false h unprofiled).ok collected
    exact (unprofiled_onSource _ _ kept).ok shrunk

theorem Asks.steps (asks : Asks record n h begun) :
    Source.Steps Source.Operation.collects h.source begun.source := by
  cases asks with
  | room => exact .refl _
  | limit look => exact look.steps

theorem Asks.unprofiled (asks : Asks record n h begun) (unprofiled : h.Unprofiled) :
    begun.Unprofiled := by
  cases asks with
  | room => exact unprofiled
  | limit look => exact look.unprofiled unprofiled

omit [ObjectModel] in
/-- With the limit free to move the memory is counted. -/
theorem growExternal_ends (budgeted : h.source.Budgeted)
    (small : h.source.externalBytes + n < Size.unreservable)
    (above : ¬ h.source.externalBytes + n ≤ h.source.externalLimit) :
    (growExternal n).Ends h (fun done h' => done = true
      ∧ h'.source.externalBytes = h.source.externalBytes + n ∧ h'.source.Budgeted) fun _ _ => False := by
  unfold growExternal onSource
  rw [ends_bind, ends_on, ends_of_ok (budgeted.externalAlloc_grown small above), ends_bind, ends_modify]
  obtain ⟨threshold, policy, same⟩ := sizeChanged_frame { h with source := _ }
  rw [same]
  have above_bytes := Nat.le_trans (Nat.le_add_right _ _) (Source.targetSize_bounds
    (h.source.externalBytes + n) Size.externalUtilization).1
  exact ends_pure.2 ⟨rfl, rfl, above_bytes⟩

/-- Memory that there is room for is counted, and at once where the limit need not move. -/
theorem chargeExternal_ends (budgeted : h.source.Budgeted)
    (small : h.source.externalBytes + n < Size.unreservable) (record : Nat) :
    (chargeExternal record n).Ends h
      (fun done h' => done = true ∧ h'.source.externalBytes = h.source.externalBytes + n
        ∧ h'.source.Budgeted)
      fun cause h' => h.source.externalLimit < h.source.externalBytes + n
        ∧ collectFor record false h = .error cause h' := by
  have fitting : h.source.externalBytes + n < Word.limit := Nat.lt_trans small (by decide)
  unfold chargeExternal
  simp only [ends_bind, onSource, ends_on]
  by_cases fits : h.source.externalBytes + n ≤ h.source.externalLimit
  case pos =>
    rw [ends_of_ok (budgeted.externalAlloc_fits fitting fits false)]
    exact ends_pure.2 ⟨rfl, rfl, fits⟩
  case neg =>
    rw [ends_of_ok (budgeted.externalAlloc_refused fitting fits)]
    have itself : (collectFor record false).Ends h (fun _ _ => True)
        fun cause h' => collectFor record false h = .error cause h' := ⟨fun _ => trivial, id⟩
    have ends := itself.and (drives_collectFor record false h)
    refine ends_bind.2 (ends.imp (fun _ h₁ both => ?_) fun _ _ fails => ⟨Nat.lt_of_not_le fits, fails.1⟩)
    -- The collection leaves the account as it is, so that the memory is refused again.
    obtain ⟨bytes, limit⟩ := Prod.mk.inj both.2.spares_account.1
    have budgeted₁ := budgeted.congr both.2.spares_account.1
    rw [← bytes] at small fitting fits ⊢
    rw [← limit] at fits
    simp only [ends_bind, ends_on]
    rw [ends_of_ok (budgeted₁.externalAlloc_refused fitting fits)]
    refine ends_bind.2 ((growExternal_ends budgeted₁ small fits).imp ?_ fun _ _ => False.elim)
    rintro _ h₂ ⟨rfl, counted⟩
    exact ends_pure.2 ⟨rfl, counted⟩

/-- The request came to its end with an answer. -/
def Concluded (record n : Nat) (h : Heap) (result : Except HeapError Unit) (h' : Heap) : Prop :=
  ∃ checked, LastLook record n h checked ∧ Answered n h checked result h' ∧ h'.source.Budgeted

/-- The request broke off, over a sum that is not a word or in a collection. -/
def BrokenOff (record n : Nat) (h : Heap) (cause : Failure) (h' : Heap) : Prop :=
  (cause = .defect .overflow ∧ LastLook record n h h' ∧ Word.limit ≤ h'.source.demand n)
    ∨ ∃ begun, Asks record n h begun ∧ collectFor record false begun = .error cause h'

theorem LastLook.charge (look : LastLook record n h checked) (governed : h.source.Governed m)
    (budgeted : h.source.Budgeted)
    (room : checked.source.demand n ≤ checked.source.active.absoluteMax) :
    (do
      if ← chargeExternal record n then return .ok ()
      return .error (.externalOutOfMemory n) : Action Heap (Except HeapError Unit)).Ends checked
      (Concluded record n h) (BrokenOff record n h) := by
  obtain ⟨governed', -⟩ := look.steps.led governed
  obtain ⟨account, -⟩ := look.steps.spares_account
  have small : checked.source.externalBytes + n < Size.unreservable := by
    have reserve := governed'.reserve
    have bounded := governed'.bounded
    unfold Source.demand at room
    omega
  rw [ends_bind]
  refine (chargeExternal_ends (budgeted.congr account) small record).imp ?_ ?_
  · rintro _ h' ⟨rfl, counted, budgeted'⟩
    have bytes : checked.source.externalBytes = h.source.externalBytes := congrArg Prod.fst account
    rw [bytes] at counted
    refine ends_pure.2 ⟨checked, look, ?_, budgeted'⟩
    rw [Answered, if_pos room]
    exact ⟨rfl, counted⟩
  · rintro cause h' ⟨above, fails⟩
    exact .inr ⟨checked, .limit look room above, fails⟩

theorem findExternalRoom_ends (governed : h.source.Governed m) (budgeted : h.source.Budgeted)
    (record n : Nat) : (findExternalRoom record n).Ends h (Concluded record n h)
      (BrokenOff record n h) := by
  -- A look whose sum is not a word is the last one.
  have overflows : ∀ {checked cause}, LastLook record n h checked →
      checked.source.externalPossible n = .error cause →
      BrokenOff record n h (.defect cause) checked := by
    intro checked cause look found
    obtain ⟨rfl, large⟩ := Source.overflow_of_error found
    exact .inl ⟨rfl, look, large⟩
  unfold findExternalRoom
  rw [ends_bind, ends_get, ends_bind, ends_lift]
  refine ⟨fun possible found => ?_, fun cause found => ?_⟩
  case refine_2 => exact overflows (.first fun none => by rw [found] at none; cases none) found
  cases possible with
  | true =>
    have look : LastLook record n h h := .first fun none => by rw [found] at none; cases none
    exact look.charge governed budgeted (of_decide_eq_true (Source.room_of_ok found).symm)
  | false =>
    have itself : (collectFor record false).Ends h (fun _ h' => collectFor record false h = .ok () h')
        fun cause h' => collectFor record false h = .error cause h' := ⟨id, id⟩
    change (collectFor record false >>= _).Ends h _ _
    rw [ends_bind]
    refine itself.imp (fun _ h₁ collected => ?_) fun _ _ fails => .inr ⟨h, .room found, fails⟩
    obtain ⟨governed₁, -⟩ := ((drives_collectFor record false h).ok collected).led governed
    obtain ⟨released, s, shrunk, -⟩ := (Source.shrinkToIdeal_total governed₁).exists_ok
    have shrinks : onSource Source.shrinkToIdeal h₁ = .ok released { h₁ with source := s } := by
      rw [onSource, Action.on, shrunk]
    have look : LastLook record n h { h₁ with source := s } := .second found collected shrinks
    rw [ends_bind, ends_of_ok shrinks, ends_bind, ends_get, ends_bind, ends_lift]
    refine ⟨fun possible found' => ?_, fun cause found' => overflows look found'⟩
    cases possible with
    | true => exact look.charge governed budgeted (of_decide_eq_true (Source.room_of_ok found').symm)
    | false =>
      have none := of_decide_eq_false (Source.room_of_ok found').symm
      obtain ⟨account, -⟩ := look.steps.spares_account
      refine ends_pure.2 ⟨_, look, ?_, budgeted.congr account⟩
      rw [Answered, if_neg none]
      exact ⟨rfl, account⟩

/-- A request that breaks off leaves the account as it was. -/
theorem BrokenOff.account {cause : Failure} (broken : BrokenOff record n h cause h') :
    h'.source.account = h.source.account := by
  rcases broken with ⟨-, look, -⟩ | ⟨begun, asks, fails⟩
  · exact look.steps.spares_account.1
  · exact (asks.steps.trans ((drives_collectFor record false begun).error fails)).spares_account.1

theorem requestExternal_budgeted (governed : h.source.Governed m) (budgeted : h.source.Budgeted)
    (record n : Nat) : (requestExternal record n).Ends h (fun _ h' => h'.source.Budgeted)
      fun _ h' => h'.source.Budgeted := by
  unfold requestExternal
  rw [ends_bind]
  refine (findExternalRoom_ends governed budgeted record n).imp ?_ ?_
  · rintro result h₁ ⟨_, -, -, budgeted₁⟩
    simp only [ends_bind, ends_get, ends_pure]
    refine (sidesteps_countIf _ record (countExternal_spares n _) h₁).imp ?_ ?_
    · exact fun _ _ besides => budgeted₁.congr (congrArg Source.account besides.source)
    · exact fun _ _ both => budgeted₁.congr (congrArg Source.account both.1.source)
  · exact fun _ _ broken => budgeted.congr broken.account

/-! ### Runs -/

theorem Reachable.external_lt (reachable : Reachable config h) :
    h.source.externalBytes < Size.unreservable := by
  obtain ⟨governed, external⟩ := reachable.external_le
  have bounded := governed.bounded
  have maximum := governed.maximum
  omega

/-- In every reachable heap the limit of the external memory is not below what is counted. -/
theorem Reachable.budgeted (reachable : Reachable config h) : h.source.Budgeted := by
  induction reachable with
  | create run =>
    obtain ⟨s, started, source, -⟩ := create_frame run
    obtain ⟨-, active, map, -, rfl⟩ := Source.startup_eq started
    rw [source]
    exact Nat.le_refl 0
  | @step h op before ih =>
    refine (ends_perform (fun record bytes => ?_) (fun h' steps => ?_) op).after
      (fun h' => h'.source.Budgeted) (fun _ _ kept => kept) fun _ _ kept => kept
    · exact requestExternal_budgeted before.external_le.1 ih record bytes
    · exact (steps.holds Source.budgeted_perform ⟨ih, before.external_lt⟩).1

/-- A collection that a request asks for breaks off before the heap is sized, if it does. -/
theorem Asks.breaks {cause : Failure} (asks : Asks record n h begun)
    (reachable : Source.Reachable start maximum zygote h.source) (unprofiled : h.Unprofiled)
    (external : h.source.externalBytes < Size.unreservable) (low : 204 ≤ h.source.utilization)
    (fails : collectFor record false begun = .error cause h') : begun.collecting = false
      ∧ beforeSizing false { begun with collecting := true } = .error cause h' := by
  obtain ⟨account, utilization⟩ := asks.steps.spares_account
  have bytes : begun.source.externalBytes = h.source.externalBytes := congrArg Prod.fst account
  rw [collectFor_of_unprofiled (asks.unprofiled unprofiled)] at fails
  exact (collect_breaks (reachable.steps asks.steps) (bytes ▸ external) (utilization ▸ low)
    false).error fails

/-- A request overflows where the sum that it looks at last is not a word. -/
theorem LastLook.overflow (look : LastLook record n h checked)
    (large : Word.limit ≤ checked.source.demand n) :
    requestExternal record n h = .error (.defect .overflow) checked := by
  have fails : checked.source.externalPossible n = .error .overflow := by
    rw [Source.externalPossible_demand, if_neg (Nat.not_lt.2 large)]
  have ends : (findExternalRoom record n).Ends h (fun _ _ => False)
      fun cause h' => cause = .defect .overflow ∧ h' = checked := by
    unfold findExternalRoom
    rw [ends_bind, ends_get, ends_bind]
    cases look with
    | first =>
      rw [fails]
      exact (ends_of_error rfl).2 ⟨rfl, rfl⟩
    | second none collected shrunk =>
      rw [ends_lift_of_ok none]
      change (collectFor record false >>= _).Ends h _ _
      rw [ends_bind, ends_of_ok collected, ends_bind, ends_of_ok shrunk, ends_bind, ends_get, ends_bind,
        fails]
      exact (ends_of_error rfl).2 ⟨rfl, rfl⟩
  obtain ⟨_, _, run, rfl, rfl⟩ := ends.exists_error
  exact bind_of_error run

/-- Where no counts are kept a request for external memory is all or nothing. It comes to its end by what
it saw when it last looked: with room for all that the active arena was allowed, the external memory and
what is asked for, that much is counted, and otherwise the request is refused and the account stays as it
was. Where it breaks off the account is left alone as well. That happens over a sum that is not a word,
which takes a request for more than half of all addresses, and in a collection that breaks off before the
heap is sized. -/
theorem Reachable.requestExternal_ends (reachable : Reachable config h)
    (unprofiled : h.profiling = false) (low : 204 ≤ h.source.utilization) (record n : Nat) :
    (requestExternal record n).Ends h
        (fun result h' => ∃ checked, LastLook record n h checked
          ∧ checked.source.account = h.source.account ∧ Answered n h checked result h')
        (fun cause h' => h'.source.account = h.source.account
          ∧ ((cause = .defect .overflow ∧ LastLook record n h h'
              ∧ Word.limit ≤ h'.source.demand n ∧ Word.limit / 2 < n)
            ∨ ∃ begun, Asks record n h begun ∧ begun.collecting = false
              ∧ beforeSizing false { begun with collecting := true } = .error cause h'))
      ∧ ∀ checked, LastLook record n h checked → Word.limit ≤ checked.source.demand n →
        requestExternal record n h = .error (.defect .overflow) checked := by
  obtain ⟨governed, -⟩ := reachable.external_le
  refine ⟨?_, fun _ look large => look.overflow large⟩
  have off : h.Unprofiled := unprofiled
  have finds := (findExternalRoom_ends governed reachable.budgeted record n).and
    (unprofiled_findExternalRoom record n h off)
  unfold requestExternal
  rw [ends_bind]
  refine finds.imp ?_ ?_
  · rintro result h' ⟨⟨checked, look, answered, -⟩, still⟩
    have ended : ∃ checked, LastLook record n h checked
        ∧ checked.source.account = h.source.account ∧ Answered n h checked result h' :=
      ⟨checked, look, look.steps.spares_account.1, answered⟩
    have silent : countIf h'.profiling record (Profile.countExternal n result.toBool) = pure () := by
      rw [show h'.profiling = false from still]
      rfl
    rw [ends_bind, ends_get, silent]
    exact ends_pure.2 ended
  · rintro cause h' ⟨broken, -⟩
    refine ⟨broken.account, ?_⟩
    rcases broken with ⟨rfl, look, large⟩ | ⟨begun, asks, fails⟩
    · have bytes : h'.source.externalBytes = h.source.externalBytes :=
        congrArg Prod.fst look.steps.spares_account.1
      have huge := (reachable.source.steps look.steps).huge_of_demand (bytes ▸ reachable.external_lt) large
      exact .inl ⟨rfl, look, large, huge⟩
    · exact .inr ⟨begun, asks, asks.breaks reachable.source off reachable.external_lt low fails⟩

end

/-- In a heap of two pages one page can be counted and two are refused. The largest word is not refused,
but overflows. -/
theorem tight_requests :
    (∃ h', requestExternal 0 4096 tight = .ok (.ok ()) h' ∧ h'.source.externalBytes = 4096)
      ∧ (∃ h', requestExternal 0 8192 tight = .ok (.error (.externalTooLarge 8192)) h'
        ∧ h'.source.account = tight.source.account)
      ∧ requestExternal 0 Word.largest tight = .error (.defect .overflow) tight := by
  have created : Reachable tightConfig tight := .create rfl
  have low : 204 ≤ tight.source.utilization := by decide +kernel
  have fits : (requestExternal 0 4096).result? tight = some (.ok ()) := by decide +kernel
  have large : (requestExternal 0 8192).result? tight = some (.error (.externalTooLarge 8192)) := by
    decide +kernel
  refine ⟨⟨_, eq_ok_of_result fits, ?_⟩, ⟨_, eq_ok_of_result large, ?_⟩, ?_⟩
  · obtain ⟨ends, -⟩ := created.requestExternal_ends rfl low 0 4096
    obtain ⟨checked, -, -, answered⟩ := ends.ok (eq_ok_of_result fits)
    exact answered.counted.2
  · obtain ⟨ends, -⟩ := created.requestExternal_ends rfl low 0 8192
    obtain ⟨checked, -, -, answered⟩ := ends.ok (eq_ok_of_result large)
    exact answered.refused.2.2
  · have look : LastLook 0 Word.largest tight tight := .first (by decide +kernel)
    exact (created.requestExternal_ends rfl low 0 Word.largest).2 tight look (by decide +kernel)

end Heap

end ManagedHeap
