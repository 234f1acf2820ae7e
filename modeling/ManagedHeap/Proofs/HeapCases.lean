import ManagedHeap.Heap.Operation
import ManagedHeap.Proofs.Actions
import ManagedHeap.Source.Operation

/-!
All that an operation on the threads, the tables and the worker of a heap can do, told once for each
operation by the states that it can leave.
-/

namespace ManagedHeap

namespace Heap

open Action

variable {h : Heap} {record thread x : Nat} {name : String} {failed : Failure → Heap → Prop}

/-! ### Threads -/

/-- A thread is attached with a record and counts of its own, or nothing is done. -/
theorem ends_attach {done : Nat → Heap → Prop} (refused : ∀ cause, ¬cause.Overflows → failed cause h)
    (attached : ∀ {record threads}, h.threads.register thread name = .ok (record, threads) →
      done record { h with threads, mutators := h.mutators ++ [{ record }] }) :
    (attach thread name).Ends h done failed := by
  simp only [attach, ends_bind, ends_get]
  split
  case h_1 record threads registered =>
    simp only [ends_bind, ends_set, ends_pure]
    exact attached registered
  all_goals exact ends_throw.2 (refused _ id)

theorem ends_startWorker {done : Heap → Prop} (same : done h)
    (refused : ∀ cause, ¬cause.Overflows → failed cause h)
    (started : ∀ {record threads}, h.threads.register h.newThread workerName = .ok (record, threads) →
      done { h with
        threads
        mutators := h.mutators ++ [{ record }]
        worker := { h.worker with running := true, record := some record } }) :
    startWorker.Ends h (fun _ h' => done h') failed := by
  simp only [startWorker, ends_bind, ends_get, ends_ite, ends_pure, ends_modify]
  exact ⟨fun _ => same, fun _ => ends_attach refused started⟩

/-- A thread moves to the state, or stays as it is. -/
theorem transition_cases (h : Heap) (record : Nat) (state : ThreadState) :
    ∃ threads, h.transition record state = { h with threads } ∧ (threads = h.threads
      ∨ threads = h.threads.modify record fun kept => { kept with state }) := by
  unfold transition
  split
  case h_1 old threads run =>
    refine ⟨threads, rfl, ?_⟩
    simp only [Safepoint.transition] at run
    split at run
    · cases run
      exact .inl rfl
    · split at run
      · cases run
      · cases run
        exact .inr rfl
  case h_2 => exact ⟨h.threads, rfl, .inl rfl⟩

/-- The worker is detached and does not run any more, or nothing is done. -/
theorem shutdown_cases (h : Heap) (record : Option Nat) : h.shutdown record = h
    ∨ ∃ threads, (threads = h.threads ∨ ∃ own, threads = h.threads.unregister own)
      ∧ h.shutdown record
        = { h with threads, worker := { h.worker with running := false, record := none } } := by
  unfold shutdown
  split
  · split
    · exact .inl rfl
    · cases h.worker.record with
      | none => exact .inr ⟨_, .inl rfl, rfl⟩
      | some own => exact .inr ⟨_, .inr ⟨own, rfl⟩, rfl⟩
  · exact .inl rfl

/-! ### Tables -/

theorem ends_enterFinalizable {done : Heap → Prop} (full : ∀ cause, ¬cause.Overflows → failed cause h)
    (entered : ∀ {finalizable}, h.tables.finalizable.push? x = some finalizable →
      done { h with tables := { h.tables with finalizable } }) :
    (enterFinalizable x).Ends h (fun _ h' => done h') failed := by
  simp only [enterFinalizable, ends_bind, ends_get]
  split
  case h_1 finalizable push => exact ends_modify.2 (entered push)
  case h_2 => exact ends_throw.2 (full _ id)

/-- An object is held for good, for the thread that asked for it or not at all. -/
theorem ends_hold {done : Heap → Prop} {flags : AllocFlags}
    (full : ∀ cause, ¬cause.Overflows → failed cause h)
    (held : ∀ {nonCollectable}, flags.noCollect = true → h.nonCollectable.add? x = some nonCollectable →
      done { h with nonCollectable })
    (tracked : flags.noCollect = false → flags.untracked = false →
      done { h with threads := h.threads.track record x })
    (loose : flags.noCollect = false → flags.untracked = true → done h) :
    (hold record x flags).Ends h (fun _ h' => done h') failed := by
  unfold hold
  split
  case isTrue noCollect =>
    simp only [enterNonCollectable, ends_bind, ends_get]
    split
    case h_1 nonCollectable add => exact ends_modify.2 (held noCollect add)
    case h_2 =>
      simp only [ends_bind, ends_get, ends_throw]
      exact full _ id
  case isFalse collected =>
    have collected := Bool.eq_false_iff.2 collected
    split
    case isTrue tracks => exact ends_modify.2 (tracked collected (Bool.not_eq_true' _ ▸ tracks))
    case isFalse untracked =>
      exact ends_pure.2 (loose collected (by simpa using untracked))

/-- A new object is entered among those with a finalizer or is not, and held in one way or another. Where
it cannot be held it may have been entered already. -/
theorem ends_enter {p : Heap → Prop} {flags : AllocFlags}
    (full : ∀ cause, ¬cause.Overflows → ∀ finalizable,
      finalizable = h.tables.finalizable ∨ h.tables.finalizable.push? x = some finalizable →
      failed cause { h with tables := { h.tables with finalizable } })
    (entered : ∀ {finalizable nonCollectable threads},
      (flags.finalizable = false ∧ finalizable = h.tables.finalizable
        ∨ flags.finalizable = true ∧ h.tables.finalizable.push? x = some finalizable) →
      (flags.noCollect = false ∧ nonCollectable = h.nonCollectable
        ∨ flags.noCollect = true ∧ h.nonCollectable.add? x = some nonCollectable) →
      threads = (if flags.noCollect || flags.untracked then h.threads else h.threads.track record x) →
      p { h with tables := { h.tables with finalizable }, nonCollectable, threads }) :
    (enter record x flags).Ends h (fun _ h' => p h') failed := by
  have holds : ∀ {finalizable}, (flags.finalizable = false ∧ finalizable = h.tables.finalizable
      ∨ flags.finalizable = true ∧ h.tables.finalizable.push? x = some finalizable) →
      (hold record x flags).Ends { h with tables := { h.tables with finalizable } }
        (fun _ h' => p h') failed := by
    intro finalizable known
    refine ends_hold (fun cause other => ?_) (fun noCollect add => ?_) (fun collected tracks => ?_)
      fun collected loose => ?_
    · exact full cause other _ (known.imp And.right And.right)
    · exact entered known (.inr ⟨noCollect, add⟩) (by simp [noCollect])
    · exact entered known (.inl ⟨collected, rfl⟩) (by simp [collected, tracks])
    · exact entered known (.inl ⟨collected, rfl⟩) (by simp [loose])
  unfold enter
  split
  case isTrue finalizable =>
    rw [ends_bind]
    refine ends_enterFinalizable (fun cause other => full cause other _ (.inl rfl)) fun push => ?_
    exact holds (.inr ⟨finalizable, push⟩)
  case isFalse plain => exact holds (.inl ⟨Bool.eq_false_iff.2 plain, rfl⟩)

/-- Flags are dropped where their tables have the object. -/
theorem ends_clearFlags {done : Heap → Prop} {flags : AllocFlags}
    (missing : ∀ cause, ¬cause.Overflows → failed cause h)
    (cleared : ∀ nonCollectable threads,
      nonCollectable = h.nonCollectable ∨ h.nonCollectable.remove? x = some nonCollectable →
      threads = h.threads ∨ threads = (h.threads.untrack? record x).getD h.threads →
      done { h with nonCollectable, threads }) :
    (clearFlags record x flags).Ends h (fun _ h' => done h') failed := by
  have rest : ∀ {nonCollectable : RefTable},
      nonCollectable = h.nonCollectable ∨ h.nonCollectable.remove? x = some nonCollectable →
      (if flags.untracked then modify fun h : Heap =>
        { h with threads := (h.threads.untrack? record x).getD h.threads } else pure ()
          : Action Heap Unit).Ends { h with nonCollectable } (fun _ h' => done h') failed := by
    intro nonCollectable known
    split
    · exact ends_modify.2 (cleared _ _ known (.inr rfl))
    · exact ends_pure.2 (cleared _ _ known (.inl rfl))
  simp only [clearFlags]
  split
  · rw [ends_bind]
    simp only [dropNonCollectable, ends_bind, ends_get]
    split
    case h_1 nonCollectable removed => exact ends_set.2 (rest (.inr removed))
    case h_2 =>
      rw [ends_ite]
      exact ⟨fun _ => ends_throw.2 (missing _ id), fun _ => ends_pure.2 (rest (.inl rfl))⟩
  · exact rest (.inl rfl)

/-- Reference operations are taken first, then finalizers. -/
theorem ends_takeWork {done : Option (Nat × List Callback) → Heap → Prop}
    (idle : h.tables.operations.pop? = none → h.tables.pending.pop? = none → done none h)
    (reference : ∀ {x work operations}, h.tables.operations.pop? = some ((x, work), operations) →
      done (some (x, work.calls)) { h with tables := { h.tables with operations } })
    (finalizer : ∀ {x pending}, h.tables.operations.pop? = none →
      h.tables.pending.pop? = some (x, pending) →
      done (some (x, [.finalize])) { h with tables := { h.tables with pending } }) :
    takeWork.Ends h done failed := by
  simp only [takeWork, ends_bind, ends_get]
  split
  case h_1 operation =>
    simp only [ends_bind, ends_set, ends_pure]
    exact reference operation
  case h_2 nothing =>
    split
    case h_1 due =>
      simp only [ends_bind, ends_set, ends_pure]
      exact finalizer nothing due
    case h_2 none => exact ends_pure.2 (idle nothing none)

/-! ### Counts and figures -/

/-- What is counted, and for whom, is a matter of the counts alone. -/
theorem ends_countIf {done : Heap → Prop} {profiling : Bool} {count : Action Profile Unit}
    (counted : ∀ profile mutators, done { h with profile, mutators })
    (broken : ∀ cause profile mutators, failed cause { h with profile, mutators }) :
    (countIf profiling record count).Ends h (fun _ h' => done h') failed := by
  unfold countIf
  split
  · rw [ends_bind]
    refine ends_on.2 ⟨fun _ => ?_, fun _ => broken _ _ _⟩
    exact ends_on.2 ⟨fun _ => counted _ _, fun _ => broken _ _ _⟩
  · exact ends_pure.2 (counted _ _)

/-- Only the treatment of soft references changes. -/
theorem sizeChanged_frame (h : Heap) :
    ∃ softThreshold softPolicy, h.sizeChanged = { h with softThreshold, softPolicy } := by
  unfold sizeChanged
  dsimp only
  split
  · exact ⟨_, _, rfl⟩
  · split
    · exact ⟨_, _, rfl⟩
    · exact ⟨h.softThreshold, h.softPolicy, rfl⟩

/-- The watchdog at most starts anew. The call in flight is the same. -/
theorem ends_checkWatchdog {done : Heap → Prop} (wedged : ∀ cause, ¬cause.Overflows → failed cause h)
    (watched : ∀ {current : Option InFlight},
      current.map (fun call => (call.call, call.object)) = h.inFlight →
      done { h with worker := { h.worker with current } }) :
    checkWatchdog.Ends h (fun _ h' => done h') failed := by
  have same : done h := watched rfl
  simp only [checkWatchdog, ends_bind, ends_get]
  split
  case h_1 => exact ends_pure.2 same
  case h_2 current running =>
    have restarted : done { h with
        worker := { h.worker with current := some { current with started := h.clock } } } := by
      apply watched
      rw [inFlight, running]
      rfl
    simp only [ends_ite, ends_set, ends_throw, ends_pure]
    exact ⟨fun _ => ⟨fun _ => restarted, fun _ => wedged _ id⟩, fun _ => same⟩

/-! ### Bitmaps -/

theorem replaceBitmaps_eq (h : Heap) (numbers : List Nat) :
    h.replaceBitmaps numbers = { h with source := h.source.replaceCurrent numbers } := by
  unfold Heap.replaceBitmaps Source.replaceCurrent
  split <;> rfl

/-- The heap once a collection is counted, for itself and for who asked for it. -/
def countedFor (h : Heap) (record : Nat) : Heap :=
  { h with profile := h.profile.countCollection }.modifyMutator record fun m =>
    { m with profile := m.profile.countCollection }

/-! ### Looking for room -/

section

variable [ObjectModel] {size n : Nat}

theorem ends_collectFor {p done : Heap → Prop} {soft : Bool} (holds : p h) (counted : p (h.countedFor record))
    (collects : ∀ {h}, p h → (collect soft).Ends h (fun _ h' => done h') failed) :
    (collectFor record soft).Ends h (fun _ h' => done h') failed := by
  rw [collectFor, ends_bind, ends_get]
  split
  · rw [ends_bind, ends_modify]
    exact collects counted
  · exact collects holds

omit [ObjectModel] in
theorem ends_allocGrowing {found : Option Nat → Heap → Prop}
    (allocs : (onSource (Source.allocAndGrow size)).Ends h (fun result h' => found result h'.sizeChanged)
      failed) : (allocGrowing size).Ends h found failed := by
  simpa only [allocGrowing, ends_bind, ends_modify, ends_pure] using allocs

/-- As long as nothing is found, attempts and collections follow each other. What is found is answered at
once. -/
theorem ends_findRoom {found : Option Nat → Heap → Prop} (begun : found none h)
    (allocs : size < h.source.absoluteMax → ∀ {h₁}, found none h₁ →
      (onSource (Source.alloc size)).Ends h₁ found failed)
    (grows : size < h.source.absoluteMax → ∀ {h₁}, found none h₁ → (allocGrowing size).Ends h₁ found failed)
    (collects : ∀ soft {h₁}, found none h₁ →
      (collectFor record soft).Ends h₁ (fun _ h₂ => found none h₂) failed) :
    (findRoom record size).Ends h found failed := by
  rw [findRoom, ends_bind, ends_get]
  split
  case isTrue => exact ends_pure.2 begun
  case isFalse large =>
    have fits := Nat.not_le.1 large
    refine ends_attempt (allocs fits begun) (fun _ => rfl) fun first => ?_
    rw [ends_bind]
    refine (collects false first).mono fun _ _ hard => ?_
    refine ends_attempt (allocs fits hard) (fun _ => rfl) fun second => ?_
    refine ends_attempt (grows fits second) (fun _ => rfl) fun third => ?_
    rw [ends_bind]
    exact (collects true third).mono fun _ _ soft => grows fits soft

variable {p : Heap → Prop}
  (charges : ∀ grow {h}, p h → (onSource (Source.externalAlloc n grow)).Ends h (fun _ h' => p h') failed)
  (sized : ∀ {h}, p h → p h.sizeChanged)
  (collects : ∀ soft {h}, p h → (collectFor record soft).Ends h (fun _ h' => p h') failed)

section

include charges sized

omit [ObjectModel] in
theorem ends_growExternal (holds : p h) : (growExternal n).Ends h (fun _ h' => p h') failed := by
  simp only [growExternal, ends_bind, ends_modify, ends_pure]
  exact (charges true holds).mono fun _ _ => sized

include collects

/-- What attempts and collections keep up is kept up however the memory comes to be counted. -/
theorem ends_chargeExternal (holds : p h) :
    (chargeExternal record n).Ends h (fun _ h' => p h') failed := by
  rw [chargeExternal]
  refine ends_unless (charges false holds) rfl fun first => ?_
  rw [if_neg Bool.false_ne_true, ends_bind]
  refine (collects false first).mono fun _ _ hard => ?_
  refine ends_unless (charges false hard) rfl fun second => ?_
  refine ends_unless (ends_growExternal charges sized second) rfl fun third => ?_
  rw [if_neg Bool.false_ne_true, ends_bind]
  exact (collects true third).mono fun _ _ soft => ends_growExternal charges sized soft

theorem ends_findExternalRoom
    (shrinks : ∀ {h}, p h → (onSource Source.shrinkToIdeal).Ends h (fun _ h' => p h') failed)
    (defects : ∀ {cause h}, p h → failed (.defect cause) h) (holds : p h) :
    (findExternalRoom record n).Ends h (fun _ h' => p h') failed := by
  have charged : ∀ {h}, p h → Ends (do
      if ← chargeExternal record n then return .ok ()
      return .error (.externalOutOfMemory n) : Action Heap (Except HeapError Unit)) h
      (fun _ h' => p h') failed := by
    intro h holds
    rw [ends_bind]
    refine (ends_chargeExternal charges sized collects holds).mono fun done h' kept => ?_
    cases done <;> exact ends_pure.2 kept
  rw [findExternalRoom, ends_bind, ends_get, ends_bind, ends_lift]
  refine ⟨fun possible _ => ?_, fun _ _ => defects holds⟩
  cases possible with
  | true => exact charged holds
  | false =>
    rw [Bool.not_false, if_pos rfl, ends_bind]
    refine (collects false holds).mono fun _ h₁ collected => ?_
    rw [ends_bind]
    refine (shrinks collected).mono fun _ h₂ shrunk => ?_
    rw [ends_bind, ends_get, ends_bind, ends_lift]
    refine ⟨fun possible _ => ?_, fun _ _ => defects shrunk⟩
    cases possible with
    | true => exact charged shrunk
    | false => exact ends_pure.2 shrunk

end

end

/-! ### New heaps -/

/-- A heap as it is made, before its worker starts. -/
def begun (config : Config) (s : Source) : Heap where
  config
  source := s.setUtilization config.utilization
  softThreshold := config.startSize
  profiling := config.profileAllocations

/-- The worker starts where it is wanted, and the heap is made whether that succeeds or not. -/
theorem create_cases {config : Config} (run : create config = .ok (.ok h)) : ∃ s : Source,
    Source.startup config.startSize config.maximumSize config.zygote = .ok (.ok s)
      ∧ (h = begun config s ∨ h = startWorker.after (begun config s)) := by
  simp only [create, bind, Except.bind, pure, Except.pure] at run
  split at run
  · cases run
  split at run
  · cases run
  case h_2 s started =>
    refine ⟨s, started, ?_⟩
    split at run
    · cases run
      exact .inl rfl
    · refine .inr ?_
      rw [Action.after]
      split at run
      case h_1 began =>
        cases run
        rw [show startWorker (begun config s) = _ from began]
      case h_2 failed =>
        cases run
        rw [show startWorker (begun config s) = _ from failed]

end Heap

end ManagedHeap
