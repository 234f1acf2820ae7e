import ManagedHeap.Heap.Operation
import ManagedHeap.Proofs.Heaps

/-!
Every operation keeps the heap sound. Only a request adds to the objects that live and wait, and only
the worker takes one of them away.
-/

namespace ManagedHeap

namespace Heap

open Action

variable {h h' h'' : Heap} {x y : Nat} {α β : Type} {a : Action Heap (Option Nat)}

/-! ### Requests -/

/-- An object was allocated. It is none of those that waited. -/
structure Gained (finalizable : Bool) (h : Heap) (x : Nat) (h' : Heap) : Prop where
  sound : h'.Sound
  config : h'.config = h.config
  new : h'.isValid x = true
  live : ∀ y, h'.isValid y = true → y = x ∨ h.isValid y = true
  fresh : ∀ y ∈ h.waiting, h.isValid y = true → y ≠ x
  kept : ∀ y ∈ h.waiting, h.isValid y = true → h'.isValid y = true
  waiting : h'.waiting.Perm (if finalizable then x :: h.waiting else h.waiting)

/-- What a request has come to. -/
def Served (finalizable : Bool) (h : Heap) (result : Option Nat) (h' : Heap) : Prop :=
  match result with
  | none => Progress h h'
  | some x => Gained finalizable h x h'

/-- From a sound heap that may grow the action finds room for an object or makes progress. -/
def Serves (a : Action Heap (Option Nat)) : Prop :=
  ∀ h, h.Sound → 0 < h.config.maximumSize → a.Ends h (Served false h) (Fails h)

theorem Gained.waits {finalizable : Bool} (gained : Gained finalizable h x h')
    (waits : y ∈ h.waiting) : y ∈ h'.waiting := by
  rw [gained.waiting.mem_iff]
  cases finalizable with
  | true => exact List.mem_cons_of_mem _ waits
  | false => exact waits

theorem Gained.fails {finalizable : Bool} {cause : Failure} (first : Gained finalizable h x h')
    (second : Fails h' cause h'') : Fails h cause h'' where
  sound := second.sound
  config := second.config.trans first.config
  kept y waits live := second.kept y (first.waits waits) (first.kept y waits live)
  overflow := first.config ▸ second.overflow

theorem Served.after {finalizable : Bool} {result : Option Nat} (first : Progress h h')
    (second : Served finalizable h' result h'') : Served finalizable h result h'' := by
  have known : ∀ y ∈ h.waiting, y ∈ h'.waiting := fun y waits => first.waiting.mem_iff.2 waits
  cases result with
  | none => exact first.trans second
  | some x =>
    refine ⟨second.sound, second.config.trans first.config, second.new, fun y live => ?_,
      fun y waits live => second.fresh y (known y waits) (first.kept y waits live),
      fun y waits live => second.kept y (known y waits) (first.kept y waits live), ?_⟩
    · exact (second.live y live).imp_right (first.live y)
    · cases finalizable with
      | true => exact second.waiting.trans (first.waiting.cons x)
      | false => exact second.waiting.trans first.waiting

/-- Nothing that was done since touches what lives and waits. -/
theorem Gained.alike {finalizable : Bool} (gained : Gained finalizable h x h')
    (sound : h''.Sound) (config : h''.config = h'.config) (source : h''.source = h'.source)
    (waiting : h''.waiting = h'.waiting) : Gained finalizable h x h'' := by
  have valid : ∀ y, h''.isValid y = h'.isValid y := fun y => by
    rw [isValid, source]
    rfl
  refine ⟨sound, config.trans gained.config, ?_, ?_, gained.fresh, ?_, waiting ▸ gained.waiting⟩
  all_goals simp only [valid]
  · exact gained.new
  · exact gained.live
  · exact gained.kept

theorem Sound.gained (sound : h.Sound) {s : Source} (gains : Source.Gains h.source x s) :
    Gained false h x { h with source := s } where
  sound := ⟨gains.sound, gains.maximum.trans sound.maximum⟩
  config := rfl
  new := (gains.published x).2 (.inl rfl)
  live y live := (gains.published y).1 live
  fresh y _ live := by
    rintro rfl
    have fresh := gains.fresh
    rw [show h.source.isPublished y = true from live] at fresh
    cases fresh
  kept y _ live := (gains.published y).2 (.inr live)
  waiting := .refl _

/-- What comes of an action on a heap that was made progress with. -/
theorem Serves.since (serves : Serves a) (room : 0 < h.config.maximumSize) (progress : Progress h h') :
    a.Ends h' (Served false h) (Fails h) :=
  (serves h' progress.sound (progress.config ▸ room)).imp (fun _ _ served => served.after progress)
    fun _ _ fails => progress.fails fails

/-- An attempt on the arenas. -/
theorem serves_onSource {attempt : Action Source (Option Nat)} (spares : attempt.Spares)
    (spec : ∀ s : Source, s.Sound → 0 < s.absoluteMax →
      attempt.Ends s (Source.Attempted s) fun _ s' => Source.Broken s s') :
    Serves (onSource attempt) := by
  intro h sound room
  rw [← sound.maximum] at room
  simp only [onSource, ends_on]
  refine ((spec h.source sound.source room).and (spares h.source)).imp ?_ ?_
  · rintro (_ | x) s ⟨attempted, -⟩
    · exact sound.progress_of_steady attempted rfl rfl rfl
    · exact sound.gained attempted
  · rintro cause s ⟨broken, other⟩
    exact ⟨⟨broken.sound, broken.maximum.trans sound.maximum⟩, rfl,
      fun x _ live => broken.live x live, fun overflow => absurd overflow other⟩

theorem serves_alloc (size : Nat) : Serves (onSource (Source.alloc size)) :=
  serves_onSource (Source.alloc_spares size) fun _ sound room =>
    Source.alloc_spec sound room size

/-- The size changed after an attempt. -/
theorem Served.sizeChanged {result : Option Nat} (served : Served false h result h') :
    Served false h result h'.sizeChanged := by
  cases result with
  | none => exact Progress.sizeChanged served
  | some x =>
    have gained : Gained false h x h' := served
    obtain ⟨threshold, policy, same⟩ := h'.sizeChanged_frame
    rw [same]
    exact gained.alike ⟨gained.sound.source, gained.sound.maximum⟩ rfl rfl rfl

theorem serves_allocGrowing (size : Nat) : Serves (allocGrowing size) := by
  have attempts : Serves (onSource (Source.allocAndGrow size)) :=
    serves_onSource (Source.allocAndGrow_spares size) fun _ sound room =>
      Source.allocAndGrow_spec sound room size
  exact fun h sound room => ends_allocGrowing ((attempts h sound room).mono fun _ _ => Served.sizeChanged)

theorem enterFinalizable_spec (gained : Gained false h x h') :
    (enterFinalizable x).Ends h' (fun _ h'' => Gained true h x h'') (Fails h) := by
  refine ends_enterFinalizable (fun _ other => gained.fails (gained.sound.fails other)) fun push => ?_
  exact ⟨⟨gained.sound.source, gained.sound.maximum⟩, gained.config, gained.new, gained.live,
    gained.fresh, gained.kept, (waiting_push push).trans (gained.waiting.cons x)⟩

theorem Gained.aside {finalizable : Bool} (gained : Gained finalizable h x h')
    (aside : Aside h' h'') : Gained finalizable h x h'' := by
  refine gained.alike (aside.progress gained.sound).sound aside.config aside.source ?_
  rw [Heap.waiting, aside.tables, Heap.waiting]

theorem Gained.sidestep {finalizable : Bool} {step : Action Heap Unit}
    (gained : Gained finalizable h x h') (sidesteps : Sidesteps step) :
    step.Ends h' (fun _ h'' => Gained finalizable h x h'') (Fails h) := by
  refine (sidesteps h').imp (fun _ _ besides => gained.aside besides.toAside) ?_
  rintro cause h₂ ⟨besides, other⟩
  have gained₂ := gained.aside besides.toAside
  exact gained₂.fails (gained₂.sound.fails other)

theorem sidesteps_hold (record x : Nat) (flags : AllocFlags) : Sidesteps (hold record x flags) := by
  intro h
  apply ends_hold
  case full => exact fun _ other => ⟨.refl h, other⟩
  case held => exact fun _ _ => ⟨⟨rfl, rfl, rfl, rfl⟩, rfl⟩
  case tracked => exact fun _ _ => ⟨⟨rfl, rfl, rfl, rfl⟩, rfl⟩
  case loose => exact fun _ _ => .refl h

theorem enter_spec (gained : Gained false h x h') (record : Nat) (flags : AllocFlags) :
    (enter record x flags).Ends h' (fun _ h'' => Gained flags.finalizable h x h'')
      (Fails h) := by
  have held : ∀ {h₁ : Heap}, Gained flags.finalizable h x h₁ → (hold record x flags).Ends h₁
      (fun _ h'' => Gained flags.finalizable h x h'') (Fails h) :=
    fun gained₁ => gained₁.sidestep (sidesteps_hold record x flags)
  rw [enter, ends_ite]
  refine ⟨fun finalizable => ?_, fun ordinary => ?_⟩
  · rw [ends_bind]
    refine (enterFinalizable_spec gained).mono fun _ h₁ gained₁ => ?_
    rw [← finalizable] at gained₁
    exact held gained₁
  · rw [Bool.not_eq_true] at ordinary
    rw [← ordinary] at gained
    exact held gained

theorem sidesteps_countIf (profiling : Bool) (record : Nat) {count : Action Profile Unit}
    (spares : count.Spares) : Sidesteps (countIf profiling record count) := by
  unfold countIf
  split
  · exact (sidesteps_onProfile spares).then fun _ => sidesteps_onMutatorProfile spares record
  · exact sidesteps_pure ()

/-- What was served stays so while it is counted. -/
theorem Served.sidestep {finalizable : Bool} {result : Option Nat} {step : Action Heap Unit}
    (served : Served finalizable h result h') (sidesteps : Sidesteps step) :
    step.Ends h' (fun _ h'' => Served finalizable h result h'') (Fails h) := by
  cases result with
  | none =>
    have progress : Progress h h' := served
    refine (sidesteps.progresses h' progress.sound).imp (fun _ _ more => ?_)
      fun _ _ fails => progress.fails fails
    exact progress.trans more
  | some x => exact Gained.sidestep served sidesteps

section

variable [ObjectModel]

theorem progresses_collectFor (record : Nat) (collectSoft : Bool) :
    Progresses (collectFor record collectSoft) := fun _ sound =>
  ends_collectFor sound.refl (sound.progress rfl rfl rfl rfl) (progresses_collect collectSoft).since

theorem findRoom_spec (sound : h.Sound) (record size : Nat) :
    (findRoom record size).Ends h (Served false h) (Fails h) := by
  have room : size < h.source.absoluteMax → 0 < h.config.maximumSize := by
    intro fits
    rw [← sound.maximum]
    omega
  exact ends_findRoom sound.refl (fun fits {_} => (serves_alloc size).since (room fits))
    (fun fits {_} => (serves_allocGrowing size).since (room fits))
    fun soft {_} => (progresses_collectFor record soft).since

theorem request_spec (sound : h.Sound) (record size : Nat) (flags : AllocFlags) :
    (request record size flags).Ends h (Served flags.finalizable h) (Fails h) := by
  have counted : ∀ {result : Option Nat} {h₁ : Heap}, Served flags.finalizable h result h₁ →
      (countIf h.profiling record (Profile.countAlloc size result.isSome)).Ends h₁
        (fun _ h₂ => Served flags.finalizable h result h₂) (Fails h) :=
    fun served => served.sidestep (sidesteps_countIf _ record (countAlloc_spares size _))
  simp only [request, ends_bind, ends_get]
  refine (findRoom_spec sound record size).mono fun result h₁ served => ?_
  cases result with
  | none =>
    simp only [ends_bind, ends_pure]
    exact @counted none h₁ served
  | some x =>
    simp only [ends_bind, ends_pure]
    exact (enter_spec served record flags).mono fun _ _ gained => @counted (some x) _ gained

/-! ### Other operations -/

omit [ObjectModel] in
theorem progresses_externalAlloc (n : Nat) (grow : Bool) :
    Progresses (onSource (Source.externalAlloc n grow)) :=
  progresses_resizes (Source.resizes_externalAlloc n grow) (Source.externalAlloc_spares n grow)

omit [ObjectModel] in
theorem progresses_growExternal (n : Nat) : Progresses (growExternal n) :=
  (progresses_externalAlloc n true).then fun done =>
    progresses_sizeChanged.then fun _ => progresses_pure done

theorem progresses_chargeExternal (record n : Nat) : Progresses (chargeExternal record n) := fun _ sound =>
  ends_chargeExternal (fun grow {_} => (progresses_externalAlloc n grow).since) Progress.sizeChanged
    (fun soft {_} => (progresses_collectFor record soft).since) sound.refl

theorem progresses_findExternalRoom (record n : Nat) : Progresses (findExternalRoom record n) := by
  have shrinks : Progresses (onSource Source.shrinkToIdeal) :=
    progresses_onSource Source.shrinkToIdeal_spares fun _ sound => Source.shrinkToIdeal_spec sound
  intro h sound
  exact ends_findExternalRoom (fun grow {_} => (progresses_externalAlloc n grow).since) Progress.sizeChanged
    (fun soft {_} => (progresses_collectFor record soft).since) shrinks.since
    (fun progress => progress.fails (progress.sound.fails id)) sound.refl

theorem progresses_requestExternal (record n : Nat) : Progresses (requestExternal record n) := by
  refine (progresses_findExternalRoom record n).then fun result => ?_
  refine progresses_get fun h sound => ?_
  exact ((sidesteps_countIf _ record (countExternal_spares n _)).progresses.then
    fun _ => progresses_pure result) h sound

end

theorem sidesteps_attach (thread : Nat) (name : String) : Sidesteps (attach thread name) := fun h =>
  ends_attach (fun _ other => ⟨.refl h, other⟩) fun _ => ⟨⟨rfl, rfl, rfl, rfl⟩, rfl⟩

theorem sidesteps_startWorker : Sidesteps startWorker := fun h =>
  ends_startWorker (.refl h) (fun _ other => ⟨.refl h, other⟩) fun _ => ⟨⟨rfl, rfl, rfl, rfl⟩, rfl⟩

theorem progresses_afterZygote : Progresses afterZygote := by
  refine (progresses_onSource Source.afterZygote_spares fun _ sound =>
    Source.afterZygote_spec sound).then fun result => ?_
  cases result with
  | error => exact progresses_pure _
  | ok =>
    refine progresses_get fun h sound => ?_
    split
    · exact (sidesteps_startWorker.progresses.then fun _ => progresses_pure _) h sound
    · exact progresses_pure _ h sound

theorem progresses_setMinimum (size : Nat) : Progresses (setMinimum size) :=
  (progresses_resizes (Source.resizes_setMinimum size) (Source.setMinimum_spares size)).then
    fun _ => progresses_sizeChanged.then fun _ => progresses_pure _

theorem sidesteps_clearFlags (record object : Nat) (flags : AllocFlags) :
    Sidesteps (clearFlags record object flags) := fun h =>
  ends_clearFlags (fun _ other => ⟨.refl h, other⟩) fun _ _ _ _ => ⟨⟨rfl, rfl, rfl, rfl⟩, rfl⟩

theorem Sound.progress_replaceBitmaps (sound : h.Sound) (numbers : List Nat) :
    Progress h (h.replaceBitmaps numbers) := by
  rw [replaceBitmaps_eq]
  exact sound.progress_of_steady (sound.source.steady_replaceCurrent numbers) rfl rfl rfl

theorem besides_transition (h : Heap) (record : Nat) (state : ThreadState) :
    Besides h (h.transition record state) := by
  obtain ⟨threads, same, -⟩ := h.transition_cases record state
  rw [same]
  exact ⟨⟨rfl, rfl, rfl, rfl⟩, rfl⟩

theorem besides_shutdown (h : Heap) (record : Option Nat) : Besides h (h.shutdown record) := by
  rcases shutdown_cases h record with same | ⟨_, -, same⟩
  · rw [same]
    exact .refl h
  · rw [same]
    exact ⟨⟨rfl, rfl, rfl, rfl⟩, rfl⟩

/-- What was taken from the pending work. -/
def Taken (h : Heap) (work : Option (Nat × List Callback)) (h' : Heap) : Prop :=
  match work with
  | none => h' = h
  | some (x, calls) => (Progress h h' ∧ .finalize ∉ calls)
    ∨ (calls = [.finalize] ∧ h'.source = h.source ∧ h'.config = h.config
      ∧ h.waiting.Perm (x :: h'.waiting))

theorem takeWork_spec (sound : h.Sound) : takeWork.Ends h (Taken h) fun _ _ => False := by
  have calls : ∀ w : ReferenceWork, .finalize ∉ w.calls := by
    rintro ⟨clear, enqueue⟩
    cases clear <;> cases enqueue <;> simp [ReferenceWork.calls]
  apply ends_takeWork
  case idle => exact fun _ _ => rfl
  case reference =>
    intro _ work _ _
    exact .inl ⟨sound.progress rfl rfl rfl rfl, calls work⟩
  case finalizer =>
    intro x pending _ due
    refine .inr ⟨rfl, rfl, rfl, ?_⟩
    rw [waiting, WorkQueue.entries_of_pop due]
    exact List.perm_middle

/-! ### Steps -/

/-- The operation neither allocates an object nor takes one from the pending work. -/
def Operation.isPlain : Operation → Bool
  | .request .. | .takeWork => false
  | _ => true

theorem Progresses.silent {step : Action Heap α} (progresses : Progresses step) :
    Progresses (silent step) := progresses.then fun _ => progresses_pure none

theorem progresses_aside {change : Heap → Heap} (keeps : ∀ h, Aside h (change h)) :
    Progresses (Heap.silent (modify change)) :=
  (progresses_modify fun h sound => (keeps h).progress sound).silent

theorem progresses_figures (change : Source → Source)
    (keeps : ∀ s : Source, s.Sound → Source.Steady s (change s)) :
    Progresses (Heap.silent (modify fun h => { h with source := change h.source })) := by
  refine (progresses_modify fun h sound => ?_).silent
  exact sound.progress_of_steady (keeps h.source sound.source) rfl rfl rfl

variable [ObjectModel]

theorem progresses_perform {op : Operation} (plain : op.isPlain = true) :
    Progresses (perform op) := by
  cases op with
  | request | takeWork => cases plain
  | collect collectSoft => exact (progresses_collect collectSoft).silent
  | requestExternal record bytes => exact (progresses_requestExternal record bytes).silent
  | freeExternal bytes =>
    exact (progresses_resizes (Source.resizes_externalFree bytes)
      (Source.externalFree_spares bytes)).silent
  | clearFlags record object flags => exact (sidesteps_clearFlags record object flags).progresses.silent
  | setMinimum size => exact (progresses_setMinimum size).silent
  | trim =>
    refine (progresses_onSource Source.trim_spares fun s sound => ?_).silent
    refine (Source.trim_spec sound).imp (fun _ _ steady => steady) ?_
    rintro - _ rfl
    exact sound.steady.broken
  | beforeFork =>
    exact (progresses_onSource Source.beforeFork_spares fun _ sound =>
      Source.beforeFork_spec sound).silent
  | afterZygote => exact progresses_afterZygote.silent
  | attach thread name => exact (sidesteps_attach thread name).progresses.silent
  | write object index count value =>
    exact progresses_figures _ fun _ sound => sound.steady_setWords object index count value
  | setUtilization ratio =>
    exact progresses_figures (·.setUtilization ratio) fun s sound =>
      sound.steady_of_resized ⟨⟨_, rfl⟩, rfl, rfl, rfl, rfl⟩
  | snapshotBitmaps => exact progresses_figures _ fun _ sound => Source.snapshotBitmaps_steady sound
  | replaceBitmaps numbers =>
    exact (progresses_modify fun _ sound => sound.progress_replaceBitmaps numbers).silent
  | transition record state =>
    exact progresses_aside fun h => (h.besides_transition record state).toAside
  | shutdown record => exact progresses_aside fun h => (h.besides_shutdown record).toAside
  | detach | track | untrack | setRoots | setDebugging | setProfiling | setReporting | pass
  | startCall | endCall => exact progresses_aside fun _ => ⟨rfl, rfl, rfl, rfl⟩

/-- Whatever is done to a sound heap leaves it sound. -/
theorem perform_spec (sound : h.Sound) (op : Operation) : (perform op).Ends h
    (fun _ h' => h'.Sound ∧ h'.config = h.config) (Fails h) := by
  cases kind : op.isPlain with
  | true =>
    exact (progresses_perform kind h sound).mono fun _ _ progress =>
      ⟨progress.sound, progress.config⟩
  | false =>
    cases op with
    | request record size flags =>
      refine (request_spec sound record size flags).mono fun result h' served => ?_
      cases result with
      | none => exact ⟨Progress.sound served, Progress.config served⟩
      | some x => exact ⟨Gained.sound served, Gained.config served⟩
    | takeWork =>
      simp only [perform, silent, ends_bind, ends_pure]
      refine (takeWork_spec sound).imp (fun work h' taken => ?_) fun _ _ => False.elim
      cases work with
      | none =>
        cases (show h' = h from taken)
        exact ⟨sound, rfl⟩
      | some piece =>
        rcases taken with ⟨progress, -⟩ | ⟨-, source, config, -⟩
        · exact ⟨progress.sound, progress.config⟩
        · exact ⟨⟨source ▸ sound.source, by rw [source, config, sound.maximum]⟩, config⟩
    | _ => cases kind

end Heap

end ManagedHeap
