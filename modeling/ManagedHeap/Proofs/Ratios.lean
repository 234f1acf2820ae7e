import Mathlib.Algebra.Order.Floor.Semifield
import Mathlib.Data.Rat.Floor
import Mathlib.Tactic.Linarith
import ManagedHeap.Object
import ManagedHeap.Proofs.MakingRoom

/-!
What becomes of a utilization that is asked for. A ratio is brought between its bounds and kept in whole
1024ths, so that a collection can divide by it. A NaN lies beyond neither bound and is kept as zero.
-/

namespace ManagedHeap

namespace Binary32

variable {s s' : Bool} {m m' : Nat} {e e' unit : Int}

/-- The number that a finite one stands for. -/
def value (negative : Bool) (significand : Nat) (exponent : Int) : ℚ :=
  (if negative then -1 else 1) * significand * 2 ^ exponent

theorem cast_scaledTo (above : unit ≤ e) : (scaledTo unit s m e : ℚ) = value s m e * 2 ^ (-unit) := by
  have steps : (2 : ℚ) ^ e * 2 ^ (-unit) = 2 ^ (e - unit).toNat := by
    rw [← zpow_add₀ two_ne_zero, ← zpow_natCast, Int.toNat_of_nonneg (Int.sub_nonneg_of_le above)]
    rfl
  rw [value, mul_assoc, steps, scaledTo, Word.bit, Nat.one_shiftLeft]
  cases s <;> simp

/-- The order is that of the numbers that are stood for. -/
theorem lt_finite : lt (.finite s m e) (.finite s' m' e') = true ↔ value s m e < value s' m' e' := by
  have positive : (0 : ℚ) < 2 ^ (-min e e') := zpow_pos two_pos _
  rw [lt, decide_eq_true_iff, ← Int.cast_lt (R := ℚ), cast_scaledTo (min_le_left e e'),
    cast_scaledTo (min_le_right e e'), mul_lt_mul_iff_left₀ positive]

theorem value_nonpos : value true m e ≤ 0 := by
  have positive : (0 : ℚ) ≤ m * 2 ^ e := mul_nonneg (Nat.cast_nonneg m) (zpow_nonneg two_pos.le e)
  rw [value, if_pos rfl, mul_assoc]
  linarith

/-- What is cut down is the number that is stood for. -/
theorem floorScaled_eq {power : Nat} (small : value false m e * 2 ^ power < 2 ^ 64) :
    floorScaled power (.finite false m e) = ⌊value false m e * 2 ^ power⌋₊ := by
  have shifted : value false m e * 2 ^ power = m * 2 ^ (e + power) := by
    rw [value, zpow_add₀ two_ne_zero, zpow_natCast]
    simp [mul_assoc]
  rw [shifted] at small ⊢
  simp only [floorScaled, Word.bit, Nat.one_shiftLeft]
  split
  case isTrue up =>
    have whole : (m * 2 ^ (e + power) : ℚ) = (m * 2 ^ (e + power).toNat : Nat) := by
      rw [Nat.cast_mul, Nat.cast_pow, ← zpow_natCast, Int.toNat_of_nonneg up]
      rfl
    rw [whole] at small ⊢
    have below : m * 2 ^ (e + power).toNat < 2 ^ 64 := by exact_mod_cast small
    rw [Nat.floor_natCast, Nat.min_eq_left (by omega)]
  case isFalse down =>
    have parts : (m * 2 ^ (e + power) : ℚ) = m / (2 ^ (-(e + power)).toNat : Nat) := by
      rw [Nat.cast_pow, ← zpow_natCast, Int.toNat_of_nonneg (by omega), zpow_neg, div_inv_eq_mul]
      rfl
    rw [parts, Nat.floor_div_eq_div]

end Binary32

namespace Source

open Action Binary32

/-! ### Bringing a ratio between its bounds -/

/-- The single-precision number nearest to 0.2. -/
def lowestShare : ℚ := 13421773 / 2 ^ 26

/-- The single-precision number nearest to 0.8. -/
def highestShare : ℚ := 13421773 / 2 ^ 24

/-- The share of live bytes that a ratio asks for, brought between its bounds. A NaN asks for none. -/
def liveShare : Binary32 → Option ℚ
  | .nan => none
  | .infinite negative => some (if negative then lowestShare else highestShare)
  | .finite negative m e => some (max lowestShare (min highestShare (value negative m e)))

/-- What is kept of a ratio. -/
def targetFor (ratio : Binary32) : Nat := (liveShare ratio).elim 0 fun q => ⌊q * 1024⌋₊

theorem value_lowest : value false 13421773 (-26) = lowestShare := by norm_num [value, lowestShare]

theorem value_highest : value false 13421773 (-24) = highestShare := by norm_num [value, highestShare]

theorem lowest_le_highest : lowestShare ≤ highestShare := by norm_num [lowestShare, highestShare]

theorem liveShare_bounds {ratio : Binary32} {q : ℚ} (known : liveShare ratio = some q) :
    lowestShare ≤ q ∧ q ≤ highestShare := by
  cases ratio with
  | nan => cases known
  | infinite negative =>
    cases known
    cases negative with
    | true => exact ⟨le_refl _, lowest_le_highest⟩
    | false => exact ⟨lowest_le_highest, le_refl _⟩
  | finite negative m e =>
    cases known
    exact ⟨le_max_left _ _, max_le lowest_le_highest (min_le_left _ _)⟩

/-- What a ratio is brought to is not negative, and it is the share that the ratio asks for. -/
theorem clamp_liveShare {ratio : Binary32} {q : ℚ} (known : liveShare ratio = some q) :
    ∃ m e, ratio.clamp lowestUtilization highestUtilization = .finite false m e
      ∧ value false m e = q := by
  cases ratio with
  | nan => cases known
  | infinite negative =>
    cases known
    cases negative with
    | true => exact ⟨_, _, rfl, value_lowest⟩
    | false => exact ⟨_, _, rfl, value_highest⟩
  | finite negative m e =>
    cases known
    unfold clamp lowestUtilization highestUtilization
    simp only [lt_finite, value_lowest, value_highest]
    split
    case isTrue below =>
      rw [min_eq_right (below.le.trans lowest_le_highest), max_eq_left below.le]
      exact ⟨_, _, rfl, value_lowest⟩
    case isFalse enough =>
      rw [not_lt] at enough
      split
      case isTrue above =>
        rw [min_eq_left above.le, max_eq_right lowest_le_highest]
        exact ⟨_, _, rfl, value_highest⟩
      case isFalse few =>
        rw [not_lt] at few
        rw [min_eq_right few, max_eq_right enough]
        cases negative with
        | false => exact ⟨m, e, rfl, rfl⟩
        | true =>
          have positive : 0 < lowestShare := by norm_num [lowestShare]
          exact absurd (positive.trans_le (enough.trans value_nonpos)) (lt_irrefl 0)

theorem setUtilization_target (s : Source) (ratio : Binary32) :
    (s.setUtilization ratio).utilization = targetFor ratio := by
  rw [setUtilization, targetFor]
  cases known : liveShare ratio with
  | none =>
    cases ratio with
    | nan => rfl
    | infinite => cases known
    | finite => cases known
  | some q =>
    obtain ⟨m, e, clamped, same⟩ := clamp_liveShare known
    have small : value false m e * 2 ^ 10 < 2 ^ 64 := by
      have below := (liveShare_bounds known).2
      rw [same]
      norm_num [highestShare] at below ⊢
      linarith
    rw [clamped, floorScaled_eq small, same]
    norm_num

/-- A ratio is kept as zero if it is a NaN, and otherwise as a fifth to four fifths. -/
theorem targetFor_bounds (ratio : Binary32) : (ratio = .nan → targetFor ratio = 0)
    ∧ (ratio ≠ .nan → 204 ≤ targetFor ratio ∧ targetFor ratio ≤ 819) := by
  constructor
  · rintro rfl
    rfl
  · intro number
    rw [targetFor]
    cases known : liveShare ratio with
    | none =>
      cases ratio with
      | nan => exact absurd rfl number
      | infinite => cases known
      | finite => cases known
    | some q =>
      obtain ⟨above, below⟩ := liveShare_bounds known
      norm_num [lowestShare, highestShare] at above below
      constructor
      · apply Nat.le_floor
        norm_num
        linarith
      · rw [Option.elim_some, ← Nat.lt_succ_iff, Nat.floor_lt (by linarith)]
        norm_num
        linarith

/-! ### Dividing by it -/

theorem avoids_sub (a b : Nat) : Avoids .divisionByZero (Word.sub a b) :=
  avoids_ite (fun _ => avoids_ok _ _) fun _ => avoids_error (by decide)

theorem avoids_setAllowed (space : Space) (bytes : Nat) :
    Avoids .divisionByZero (space.setAllowed bytes) := by
  have add : ∀ a b, Avoids .divisionByZero (Word.add a b) := avoids_add (by decide)
  have pages : ∀ value, Avoids .divisionByZero (Size.pagesUp value) := fun value =>
    (add _ _).then fun sum => (avoids_sub _ _).then fun less => Avoids.then ((avoids_sub _ _).then fun _ =>
      avoids_ok _ _) fun _ => avoids_ok _ _
  unfold Space.setAllowed
  refine avoids_ite (fun _ => (pages _).then fun room => (add _ _).then fun allowed => ?_) fun _ => ?_
  · exact avoids_ok _ _
  · exact avoids_ok _ _

theorem utilizationTarget_zero (live : Nat) : utilizationTarget live 0 = .error .divisionByZero := rfl

/-- Sizing by what lives does not divide by zero unless the target utilization is zero. -/
theorem growForUtilization_divides {s : Source} (divisible : s.utilization ≠ 0) :
    growForUtilization.Ends s (fun _ _ => True) fun cause _ => cause ≠ .defect .divisionByZero := by
  have other : ∀ {α : Type} {value : Except Defect α} {cause : Defect}, Avoids .divisionByZero value →
      value = .error cause → Failure.defect cause ≠ .defect .divisionByZero := by
    rintro α value cause avoids fails same
    exact avoids (fails.trans (congrArg _ (Failure.defect.inj same)))
  have add : ∀ a b, Avoids .divisionByZero (Word.add a b) := avoids_add (by decide)
  have target : ∀ live, Avoids .divisionByZero (utilizationTarget live s.utilization) := fun live =>
    avoids_utilizationTarget (by decide) live fun zero => absurd zero divisible
  simp only [growForUtilization, setIdeal, setShare, ends_bind, ends_get, ends_lift, ends_ite, ends_set,
    ends_modify, implies_true, true_and]
  refine ⟨fun used _ => ⟨fun size _ => ⟨fun free _ => ⟨fun ideal _ => ⟨?_, ?_⟩, ?_⟩, ?_⟩, ?_⟩, ?_⟩
  · exact fun _ _ fails => other (avoids_setAllowed _ _) fails
  · exact fun _ _ fails => other (avoids_setAllowed _ _) fails
  · exact fun _ fails => other (add _ _) fails
  · exact fun _ fails => other (avoids_sub _ _) fails
  · exact fun _ fails => other (target _) fails
  · exact fun _ fails => other (add _ _) fails

/-- Where it is zero, sizing breaks off at once. -/
theorem growForUtilization_zero {s : Source} (zero : s.utilization = 0) :
    ∃ cause, growForUtilization s = .error (.defect cause) s
      ∧ (s.active.bytes + s.externalBytes < Word.limit → cause = .divisionByZero) := by
  by_cases fits : s.active.bytes + s.externalBytes < Word.limit
  case pos =>
    refine ⟨.divisionByZero, ?_, fun _ => rfl⟩
    have used : Word.add s.active.bytes s.externalBytes = .ok (s.active.bytes + s.externalBytes) :=
      if_pos fits
    have ends : growForUtilization.Ends s (fun _ _ => False) fun cause s' =>
        cause = .defect .divisionByZero ∧ s' = s := by
      simp only [growForUtilization, ends_bind, ends_get, zero, utilizationTarget_zero]
      rw [ends_lift_of_ok used]
      exact (ends_of_error rfl).2 ⟨rfl, rfl⟩
    obtain ⟨_, _, run, rfl, rfl⟩ := ends.exists_error
    exact run
  case neg =>
    refine ⟨.overflow, ?_, fun small => absurd small fits⟩
    have used : Word.add s.active.bytes s.externalBytes = .error .overflow := if_neg fits
    have ends : growForUtilization.Ends s (fun _ _ => False) fun cause s' =>
        cause = .defect .overflow ∧ s' = s := by
      simp only [growForUtilization, ends_bind, ends_get, used]
      exact (ends_of_error rfl).2 ⟨rfl, rfl⟩
    obtain ⟨_, _, run, rfl, rfl⟩ := ends.exists_error
    exact run

end Source

/-! ### Collections -/

namespace Chronicle

open Action

variable {target : Nat} {c : Chronicle} {op : Heap.Operation}

/-- The heap is sized with a target utilization, and so was every collection that is written down. -/
structure SizedBy (target : Nat) (c : Chronicle) : Prop where
  now : c.heap.source.utilization = target
  ever : ∀ {soft h freed h'}, .phases soft h freed h' ∈ c.past → h'.source.utilization = target

theorem SizedBy.aside {e : Happening} (sized : SizedBy target c)
    (aside : ∀ soft h freed h', e ≠ .phases soft h freed h') : SizedBy target (c.note e) := by
  refine ⟨sized.now, fun {soft h freed h'} known => ?_⟩
  rcases List.mem_append.1 known with before | last
  · exact sized.ever before
  · exact absurd (List.mem_singleton.1 last).symm (aside soft h freed h')

theorem sustained_sizedBy : Sustained (SizedBy target) where
  reworked sized reworked := ⟨reworked.utilization.trans sized.now, sized.ever⟩
  phases {soft c freed h} sized reworked := by
    have now := reworked.utilization.trans sized.now
    refine ⟨now, fun {soft' h₁ freed' h₂} known => ?_⟩
    rcases List.mem_append.1 known with before | last
    · exact sized.ever before
    · cases List.mem_singleton.1 last
      exact now
  review sized := sized.aside fun _ _ _ _ same => nomatch same

theorem SizedBy.countedFor (record : Nat) (sized : SizedBy target c) :
    SizedBy target { c with heap := c.heap.countedFor record } := ⟨sized.now, sized.ever⟩

variable {α : Type}

theorem sizedBy_within {a : Action Heap α} (retains : Heap.Retains (fun h => h.source.utilization) a) :
    (within a).Preserves (SizedBy target) := by
  intro c sized
  rw [within, ends_on]
  exact (retains target c.heap sized.now).imp (fun _ _ now => ⟨now, sized.ever⟩)
    fun _ _ now => ⟨now, sized.ever⟩

theorem retains_rests {a : Action Heap α} (rests : Heap.Rests a) :
    Heap.Retains (fun h => h.source.utilization) a :=
  rests.retains fun unmoved => congrArg Source.utilization unmoved.source

theorem sizedBy_rests {a : Action Heap α} (rests : Heap.Rests a) :
    (within a).Preserves (SizedBy target) := sizedBy_within (retains_rests rests)

theorem sizedBy_onSource {a : Action Source α} (retains : Source.Retains Source.utilization a) :
    (within (Heap.onSource a)).Preserves (SizedBy target) :=
  sizedBy_within (Heap.retains_of_source retains)

/-- A silent step that changes the arenas. -/
theorem sizedBy_change {change : Source → Source} (keeps : ∀ s, (change s).utilization = s.utilization) :
    (within (Heap.silent (modify fun h => { h with source := change h.source }))).Preserves
      (SizedBy target) :=
  sizedBy_within (Heap.retains_modify fun h => keeps h.source).silent

theorem sizedBy_afterZygote : (within Heap.afterZygote).Preserves (SizedBy target) := by
  refine sizedBy_within fun shown => Heap.preserves_afterZygote ?_ ?_
  · exact Heap.retains_of_source (Source.retains_afterZygote Source.outlying_utilization) shown
  · exact retains_rests Heap.rests_startWorker shown

theorem sizedBy_map {β : Type} {a : Action Chronicle α} (keeps : a.Preserves (SizedBy target))
    (answer : α → β) : (answer <$> a).Preserves (SizedBy target) :=
  fun c sized => ends_map.2 (keeps c sized)

variable [ObjectModel]

theorem sizedBy_request (record size : Nat) (flags : AllocFlags) :
    (request record size flags).Preserves (SizedBy target) := by
  have finds : (findRoom record size).Preserves (SizedBy target) :=
    sustained_sizedBy.findRoom (SizedBy.countedFor record) size
  refine (sizedBy_rests Heap.rests_get).then fun h => finds.then fun result => ?_
  have counts : Action.Preserves (SizedBy target) (do
      within (Heap.countIf h.profiling record (Profile.countAlloc size result.isSome))
      return result) := (sizedBy_rests (Heap.rests_countIf _ _ _)).then fun _ => preserves_pure _
  cases result with
  | none => exact counts
  | some x =>
    refine Preserves.then (preserves_modify fun c sized => ?_) fun _ =>
      (sizedBy_rests (Heap.rests_enter record x flags)).then fun _ => counts
    exact sized.aside fun _ _ _ _ same => nomatch same

theorem sizedBy_requestExternal (record n : Nat) :
    (requestExternal record n).Preserves (SizedBy target) :=
  (sustained_sizedBy.findExternalRoom (SizedBy.countedFor record) n).then fun _ =>
    (sizedBy_rests Heap.rests_get).then fun _ =>
    (sizedBy_rests (Heap.rests_countIf _ _ _)).then fun _ => preserves_pure _

/-- The target utilization stays until it is set. -/
theorem sizedBy_perform (kept : ∀ ratio, op ≠ .setUtilization ratio) :
    (perform op).Preserves (SizedBy target) := by
  have outlying := Source.outlying_utilization
  have silent : ∀ {step : Action Heap Unit}, Heap.Rests step →
      Action.Preserves (SizedBy target) ((fun _ => Answer.done) <$> within (Heap.silent step)) :=
    fun rests => sizedBy_map (sizedBy_rests (rests.then fun _ => Heap.rests_pure _)) _
  cases op with
  | setUtilization ratio => exact absurd rfl (kept ratio)
  | request record size flags => exact sizedBy_map (sizedBy_request record size flags) _
  | collect soft => exact sizedBy_map (sustained_sizedBy.collect soft) _
  | requestExternal record n => exact sizedBy_map (sizedBy_requestExternal record n) _
  | setMinimum size =>
    refine sizedBy_map (sustained_sizedBy.reviewed ?_) _
    exact Source.retains_setMinimum outlying Source.level_utilization (fun _ _ => rfl) size
  | freeExternal n => exact sizedBy_map (sizedBy_onSource (Source.retains_externalFree n)) _
  | trim => exact sizedBy_map (sizedBy_onSource (Source.retains_trim outlying)) _
  | beforeFork => exact sizedBy_map (sizedBy_onSource (Source.retains_beforeFork outlying)) _
  | afterZygote => exact sizedBy_map sizedBy_afterZygote _
  | attach thread name => exact sizedBy_map (sizedBy_rests (Heap.rests_attach thread name)) _
  | takeWork => exact sizedBy_map (sizedBy_rests Heap.rests_takeWork) _
  | clearFlags record x flags => exact silent (Heap.rests_clearFlags record x flags)
  | transition record state =>
    exact silent (Heap.rests_modify fun h => h.unmoved_transition record state)
  | shutdown record => exact silent (Heap.rests_modify fun h => h.unmoved_shutdown record)
  | write x index count value =>
    exact sizedBy_map (sizedBy_change fun s => Source.outlying_setWords outlying s x index count value) _
  | snapshotBitmaps =>
    exact sizedBy_map (sizedBy_change (Source.outlying_snapshotBitmaps outlying)) _
  | replaceBitmaps numbers =>
    refine sizedBy_map (sizedBy_within (Heap.retains_modify fun h => ?_).silent) _
    rw [Heap.replaceBitmaps_eq]
    exact Source.outlying_replaceCurrent outlying h.source numbers
  | detach | track | untrack | setRoots | setDebugging | setProfiling | setReporting | pass
  | startCall | endCall =>
    exact silent (Heap.rests_modify fun _ => ⟨rfl, rfl, rfl, rfl, rfl, rfl, rfl⟩)

/-- Within an operation every collection is sized with the target utilization from before it. -/
theorem sizedBy_after (op : Heap.Operation) {h h₁ h₂ : Heap} {soft : Bool} {freed : Option (Nat × Nat)}
    (known : .phases soft h₁ freed h₂ ∈ ((perform op).after { heap := h }).past) :
    h₂.source.utilization = h.source.utilization := by
  by_cases sets : ∃ ratio, op = .setUtilization ratio
  case pos =>
    obtain ⟨ratio, rfl⟩ := sets
    cases known
  case neg =>
    have keeps : (Chronicle.perform op).Preserves (SizedBy h.source.utilization) :=
      sizedBy_perform fun ratio same => sets ⟨ratio, same⟩
    have start : SizedBy h.source.utilization { heap := h } := ⟨rfl, fun none => nomatch none⟩
    exact (keeps.after start).ever known

end Chronicle

namespace Heap

open Action

section

variable [ObjectModel] {config : Config} {h : Heap}

/-- The ratio that was set last. -/
def lastRatio (ratio : Binary32) : List Operation → Binary32
  | [] => ratio
  | .setUtilization later :: rest => lastRatio later rest
  | _ :: rest => lastRatio ratio rest

theorem utilization_perform {op : Operation} (kept : ∀ ratio, op ≠ .setUtilization ratio) (h : Heap) :
    ((perform op).after h).source.utilization = h.source.utilization := by
  have start : Chronicle.SizedBy h.source.utilization { heap := h } := ⟨rfl, fun none => nomatch none⟩
  rw [← Chronicle.heap_after op { heap := h }]
  exact ((Chronicle.sizedBy_perform kept).after start).now

theorem utilization_afterAll {ratio : Binary32} (now : h.source.utilization = Source.targetFor ratio)
    (ops : List Operation) :
    (h.afterAll ops).source.utilization = Source.targetFor (lastRatio ratio ops) := by
  induction ops generalizing h ratio with
  | nil => exact now
  | cons op rest ih =>
    by_cases sets : ∃ later, op = .setUtilization later
    case pos =>
      obtain ⟨later, rfl⟩ := sets
      exact ih (Source.setUtilization_target h.source later)
    case neg =>
      have kept := utilization_perform (fun later same => sets ⟨later, same⟩) h
      have same : lastRatio ratio (op :: rest) = lastRatio ratio rest := by
        cases op <;> first | rfl | exact absurd ⟨_, rfl⟩ sets
      rw [same]
      exact ih (kept.trans now)

/-- Whatever ratios are set, what is kept is the last one, brought between its bounds and cut down to whole
1024ths, unless it is a NaN: then zero is kept. With a zero every collection that gets through its phases
breaks off when the heap is to be sized by what lives. With any other ratio no collection divides by zero. -/
theorem ratio_settings (run : create config = .ok (.ok h)) (ops : List Operation) :
    (h.afterAll ops).source.utilization
        = ((Source.liveShare (lastRatio config.utilization ops)).elim 0 fun share => ⌊share * 1024⌋₊)
      ∧ (lastRatio config.utilization ops = .nan → (h.afterAll ops).source.utilization = 0)
      ∧ (lastRatio config.utilization ops ≠ .nan → 204 ≤ (h.afterAll ops).source.utilization
        ∧ (h.afterAll ops).source.utilization ≤ 819)
      ∧ ∀ op soft h₁ freed h₂, .phases soft h₁ (some freed) h₂
          ∈ ((Chronicle.perform op).after { heap := h.afterAll ops }).past →
        (lastRatio config.utilization ops = .nan →
          ∃ cause, Source.growForUtilization h₂.source = .error (.defect cause) h₂.source
            ∧ (h₂.source.active.bytes + h₂.source.externalBytes < Word.limit → cause = .divisionByZero))
        ∧ (lastRatio config.utilization ops ≠ .nan →
          (∀ live, Source.utilizationTarget live h₂.source.utilization ≠ .error .divisionByZero)
            ∧ ∀ s, Source.growForUtilization h₂.source ≠ .error (.defect .divisionByZero) s) := by
  obtain ⟨s, -, source, -⟩ := create_frame run
  have start : h.source.utilization = Source.targetFor config.utilization := by
    rw [source]
    exact Source.setUtilization_target s config.utilization
  have kept := utilization_afterAll start ops
  obtain ⟨zero, positive⟩ := Source.targetFor_bounds (lastRatio config.utilization ops)
  rw [← kept] at zero positive
  refine ⟨kept, zero, positive, fun op soft h₁ freed h₂ known => ⟨fun none => ?_, fun number => ?_⟩⟩
  · apply Source.growForUtilization_zero
    exact (Chronicle.sizedBy_after op known).trans (zero none)
  · have divisible : h₂.source.utilization ≠ 0 := by
      have least := (positive number).1
      rw [Chronicle.sizedBy_after op known]
      omega
    refine ⟨fun live => ?_, fun s fails => ?_⟩
    · exact Source.avoids_utilizationTarget (by decide) live fun none => absurd none divisible
    · exact (Source.growForUtilization_divides divisible).error fails rfl

end

/-- Two ratios that lie beyond the bounds, and one that does not lie anywhere. -/
theorem ratios_set :
    (small.afterAll [.setUtilization (.infinite true)]).source.utilization = 204
      ∧ (small.afterAll [.setUtilization .nan, .setUtilization (.finite false 1 0)]).source.utilization
        = 819
      ∧ ∃ h₁ freed h₂, .phases false h₁ (some freed) h₂ ∈ ((Chronicle.perform (.collect false)).after
          { heap := small.afterAll [.setUtilization .nan] }).past
        ∧ Source.growForUtilization h₂.source = .error (.defect .divisionByZero) h₂.source := by
  have created : create smallConfig = .ok (.ok small) := rfl
  obtain ⟨lowest, -⟩ := ratio_settings created [.setUtilization (.infinite true)]
  obtain ⟨highest, -⟩ := ratio_settings created [.setUtilization .nan, .setUtilization (.finite false 1 0)]
  obtain ⟨-, -, -, breaks⟩ := ratio_settings created [.setUtilization .nan]
  refine ⟨?_, ?_, ?_⟩
  · rw [lowest]
    norm_num [lastRatio, Source.liveShare, Source.lowestShare]
  · rw [highest]
    norm_num [lastRatio, Source.liveShare, Source.highestShare, Source.lowestShare, Binary32.value]
  · have collected : (((Chronicle.perform (.collect false)).after
        { heap := small.afterAll [.setUtilization .nan] }).past.any fun
        | .phases false _ (some _) h₂ =>
          decide (h₂.source.active.bytes + h₂.source.externalBytes < Word.limit)
        | .phases false _ none _ | .phases true _ _ _ | .review _ | .allocated _ _ => false) = true := by
      decide +kernel
    obtain ⟨e, known, through⟩ := List.any_eq_true.1 collected
    split at through
    case h_1 =>
      obtain ⟨cause, fails, divides⟩ := (breaks _ _ _ _ _ known).1 rfl
      cases divides (of_decide_eq_true through)
      exact ⟨_, _, _, known, fails⟩
    all_goals cases through

end Heap

end ManagedHeap
