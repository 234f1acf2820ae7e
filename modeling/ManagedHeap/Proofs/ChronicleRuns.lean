import ManagedHeap.Proofs.Chronicles
import ManagedHeap.Proofs.Counting
import ManagedHeap.Proofs.Retained

/-!
What holds of chronicles over all runs. The operations are put together of few parts; a condition that
the parts keep up is kept up by every operation.
-/

namespace ManagedHeap

namespace Source

open Action

variable {s s' : Source} {m i x : Nat}

theorem Sound.mem_objects (sound : s.Sound) : x ∈ s.objects ↔ s.isPublished x = true := by
  rw [objects, List.mem_flatMap, sound.published_iff]
  exact exists_congr fun a => and_congr_right fun member => (sound.bitmap_sound member).mem_members

/-! ### The ideal size -/

/-- The action leaves the ideal size as it is, also where it breaks off. -/
def Levels {α : Type} (a : Action Source α) : Prop := ∀ i, a.Preserves fun s => s.ideal = i

theorem Levels.then {α β : Type} {a : Action Source α} {next : α → Action Source β} (first : Levels a)
    (rest : ∀ value, Levels (next value)) : Levels (a >>= next) :=
  fun i => (first i).then fun value => rest value i

theorem levels_modify {change : Source → Source} (keeps : ∀ s, (change s).ideal = s.ideal) :
    Levels (modify change) :=
  fun _ => preserves_modify fun s same => (keeps s).trans same

theorem levels_pure {α : Type} (value : α) : Levels (pure value) := fun _ => preserves_pure value

theorem outlying_ideal : Outlying ideal := fun _ _ _ _ _ _ _ => rfl

theorem levels_trim : Levels trim := retains_trim outlying_ideal

theorem levels_externalAlloc (n : Nat) (grow : Bool) : Levels (externalAlloc n grow) :=
  fun _ _ same => ends_externalAlloc same same (fun _ => ⟨same, same⟩) grow

theorem levels_externalFree (n : Nat) : Levels (externalFree n) :=
  fun _ _ same => ends_externalFree fun _ => same

theorem levels_beforeFork : Levels beforeFork := retains_beforeFork outlying_ideal

theorem levels_afterZygote : Levels afterZygote := retains_afterZygote outlying_ideal

/-- Where the ideal size cannot be set it stays. -/
theorem setIdeal_fails (size : Nat) (s : Source) :
    (setIdeal size).Ends s (fun _ _ => True) fun _ s' => s'.ideal = s.ideal := by
  simp [setIdeal, setShare]

/-- Between its bounds the ideal size is not moved. -/
theorem setIdeal_ideal (s : Source) (least : s.minimum ≤ s.ideal) (most : s.ideal ≤ s.absoluteMax) :
    (setIdeal s.ideal).Ends s (fun _ s' => s'.ideal = s.ideal) fun _ s' => s'.ideal = s.ideal := by
  have same : (if s.absoluteMax < s.ideal then s.absoluteMax
      else if s.ideal < s.minimum then s.minimum else s.ideal) = s.ideal := by
    split
    · omega
    · split <;> omega
  simp only [setIdeal, ends_bind, ends_get, same]
  simp [setShare]

theorem shrinkToIdeal_levels (governed : s.Governed m) : shrinkToIdeal.Ends s
    (fun _ s' => s'.ideal = s.ideal) fun _ s' => s'.ideal = s.ideal := by
  rw [shrinkToIdeal, ends_bind]
  refine ((preserves_trim s governed).and (levels_trim _ s rfl)).imp ?_ fun _ _ both => both.2
  rintro _ s₁ ⟨governed₁, same⟩
  simp only [ends_bind, ends_get, ends_pure]
  exact (setIdeal_ideal s₁ governed₁.least governed₁.most).imp (fun _ _ more => more.trans same)
    fun _ _ more => more.trans same

theorem growForUtilization_fails (s : Source) :
    growForUtilization.Ends s (fun _ _ => True) fun _ s' => s'.ideal = s.ideal := by
  simp only [growForUtilization, ends_bind, ends_get, ends_lift]
  refine ⟨fun _ _ => ⟨fun _ _ => ⟨fun _ _ => ⟨fun _ _ => setIdeal_fails _ s, ?_⟩, ?_⟩, ?_⟩, ?_⟩
  all_goals exact fun _ _ => trivial

theorem setMinimum_fails (size : Nat) (s : Source) :
    (setMinimum size).Ends s (fun _ _ => True) fun _ s' => s'.ideal = s.ideal := by
  simp only [setMinimum, ends_bind, ends_get, ends_set, ends_ite, ends_pure]
  refine ⟨fun _ => ?_, fun _ => trivial⟩
  exact (setIdeal_fails _ _).mono fun _ _ _ => trivial

theorem levels_alloc (n : Nat) : Levels (alloc n) := retains_alloc outlying_ideal n

theorem levels_allocAndGrowArena (n : Nat) : Levels (allocAndGrowArena n) :=
  retains_allocAndGrowArena outlying_ideal n

/-- The ideal size is moved at the very end, where nothing can break off any more. -/
theorem allocAndGrow_fails (n : Nat) (s : Source) :
    (allocAndGrow n).Ends s (fun _ _ => True) fun _ s' => s'.ideal = s.ideal := by
  refine ends_lastResort (levels_alloc n s.ideal s rfl) (levels_alloc n s.ideal)
    (levels_allocAndGrowArena n s.ideal) (fun _ size s' same => ?_) (fun _ same => same)
    fun _ _ _ => trivial
  exact (setIdeal_fails size s').imp (fun _ _ _ => trivial) fun _ _ moved => moved.trans same

end Source

/-! ### Keeping a condition up -/

namespace Action

variable {σ α β : Type} {t : Failure → Prop} {p : σ → Prop} {a : Action σ α}

/-- The action keeps a condition on the state up, unless it breaks off for other reasons than these. -/
def Maintains (t : Failure → Prop) (p : σ → Prop) (a : Action σ α) : Prop :=
  ∀ s, p s → a.Ends s (fun _ s' => p s') fun cause s' => t cause → p s'

theorem Maintains.then {next : α → Action σ β} (first : a.Maintains t p)
    (rest : ∀ value, (next value).Maintains t p) : (a >>= next).Maintains t p := by
  intro s holds
  rw [ends_bind]
  exact (first s holds).mono fun value s' kept => rest value s' kept

theorem maintains_pure (value : α) : (pure value : Action σ α).Maintains t p :=
  fun _ holds => ends_pure.2 holds

theorem Maintains.map (maintains : a.Maintains t p) (change : α → β) :
    (change <$> a).Maintains t p := fun s holds => ends_map.2 (maintains s holds)

end Action

namespace Heap

open Action

variable {α β : Type} {h h' h'' : Heap} {m x : Nat}

/-- The arenas, the treatment of soft references and the counts of the collections are the same. -/
structure Unmoved (h h' : Heap) : Prop where
  source : h'.source = h.source
  softPolicy : h'.softPolicy = h.softPolicy
  softThreshold : h'.softThreshold = h.softThreshold
  collecting : h'.collecting = h.collecting
  cycles : h'.cycles = h.cycles
  objectsFreed : h'.objectsFreed = h.objectsFreed
  bytesFreed : h'.bytesFreed = h.bytesFreed

theorem Unmoved.refl (h : Heap) : Unmoved h h := ⟨rfl, rfl, rfl, rfl, rfl, rfl, rfl⟩

theorem Unmoved.trans (first : Unmoved h h') (second : Unmoved h' h'') : Unmoved h h'' where
  source := second.source.trans first.source
  softPolicy := second.softPolicy.trans first.softPolicy
  softThreshold := second.softThreshold.trans first.softThreshold
  collecting := second.collecting.trans first.collecting
  cycles := second.cycles.trans first.cycles
  objectsFreed := second.objectsFreed.trans first.objectsFreed
  bytesFreed := second.bytesFreed.trans first.bytesFreed

/-- The action is about other things. -/
def Rests (a : Action Heap α) : Prop :=
  ∀ h, a.Ends h (fun _ h' => Unmoved h h') fun _ h' => Unmoved h h'

theorem Rests.then {a : Action Heap α} {next : α → Action Heap β} (first : Rests a)
    (rest : ∀ value, Rests (next value)) : Rests (a >>= next) := Relates.then Unmoved.trans first rest

theorem rests_pure (value : α) : Rests (pure value) := relates_pure Unmoved.refl value

theorem rests_get : Rests get := fun h => ends_get.2 (.refl h)

theorem rests_modify {change : Heap → Heap} (unmoved : ∀ h, Unmoved h (change h)) :
    Rests (modify change) := relates_modify unmoved

theorem rests_countIf (profiling : Bool) (record : Nat) (count : Action Profile Unit) :
    Rests (countIf profiling record count) := fun _ =>
  ends_countIf (fun _ _ => ⟨rfl, rfl, rfl, rfl, rfl, rfl, rfl⟩)
    fun _ _ _ => ⟨rfl, rfl, rfl, rfl, rfl, rfl, rfl⟩

theorem rests_enter (record x : Nat) (flags : AllocFlags) : Rests (enter record x flags) := by
  intro h
  apply ends_enter
  case full => exact fun _ _ _ _ => ⟨rfl, rfl, rfl, rfl, rfl, rfl, rfl⟩
  case entered => exact fun _ _ _ => ⟨rfl, rfl, rfl, rfl, rfl, rfl, rfl⟩

theorem rests_attach (thread : Nat) (name : String) : Rests (attach thread name) := fun h =>
  ends_attach (fun _ _ => .refl h) fun _ => ⟨rfl, rfl, rfl, rfl, rfl, rfl, rfl⟩

theorem rests_startWorker : Rests startWorker := fun h =>
  ends_startWorker (.refl h) (fun _ _ => .refl h) fun _ => ⟨rfl, rfl, rfl, rfl, rfl, rfl, rfl⟩

theorem rests_clearFlags (record x : Nat) (flags : AllocFlags) :
    Rests (clearFlags record x flags) := fun h =>
  ends_clearFlags (fun _ _ => .refl h) fun _ _ _ _ => ⟨rfl, rfl, rfl, rfl, rfl, rfl, rfl⟩

theorem rests_takeWork : Rests takeWork := by
  intro h
  apply ends_takeWork
  case idle => exact fun _ _ => .refl h
  case reference => exact fun _ => ⟨rfl, rfl, rfl, rfl, rfl, rfl, rfl⟩
  case finalizer => exact fun _ _ => ⟨rfl, rfl, rfl, rfl, rfl, rfl, rfl⟩

theorem rests_checkWatchdog : Rests checkWatchdog := fun h =>
  ends_checkWatchdog (fun _ _ => .refl h) fun _ => ⟨rfl, rfl, rfl, rfl, rfl, rfl, rfl⟩

theorem unmoved_transition (h : Heap) (record : Nat) (state : ThreadState) :
    Unmoved h (h.transition record state) := by
  obtain ⟨threads, same, -⟩ := h.transition_cases record state
  rw [same]
  exact ⟨rfl, rfl, rfl, rfl, rfl, rfl, rfl⟩

theorem unmoved_shutdown (h : Heap) (record : Option Nat) : Unmoved h (h.shutdown record) := by
  rcases shutdown_cases h record with same | ⟨_, -, same⟩
  · rw [same]
    exact .refl h
  · rw [same]
    exact ⟨rfl, rfl, rfl, rfl, rfl, rfl, rfl⟩

/-- A heap as it is made, up to the worker. -/
theorem create_unmoved {config : Config} (run : create config = .ok (.ok h)) : ∃ s : Source,
    Source.startup config.startSize config.maximumSize config.zygote = .ok (.ok s)
      ∧ Unmoved (begun config s) h := by
  obtain ⟨s, started, rfl | rfl⟩ := create_cases run
  · exact ⟨s, started, .refl _⟩
  · exact ⟨s, started, Relates.after rests_startWorker _⟩

/-! ### The phases of a collection -/

variable [ObjectModel]

/-- What the phases of a collection leave as it is. -/
theorem runCycle_frame (h : Heap) (collectSoft : Bool) : (runCycle collectSoft).Ends h
    (fun _ h' => ∃ c, h' = h.endCycle c) fun _ h' => ∃ c, h' = h.endCycle c := by
  simp only [runCycle, ends_bind, ends_get, ends_on]
  exact ⟨fun _ => ⟨_, rfl⟩, fun _ => ⟨_, rfl⟩⟩

omit [ObjectModel] in
theorem reclaims_levels {op : Source.Operation} (reclaims : op.reclaims) :
    Source.Levels (Source.perform op) := by
  cases op with
  | free x =>
    refine Source.Levels.then (fun i s same => ?_) fun _ => Source.levels_pure none
    exact (Source.free_paces x).imp (fun _ _ paced => paced.ideal.trans same)
      fun _ _ unchanged => unchanged ▸ same
  | write x index count value =>
    exact (Source.levels_modify fun s => (Source.setWords_paces s x index count value).ideal).then
      fun _ => Source.levels_pure none
  | _ => exact reclaims.elim

theorem runCycle_governed (governed : h.source.Governed m) (collectSoft : Bool) :
    (runCycle collectSoft).Ends h
      (fun _ h' => h'.source.Governed m ∧ h'.source.ideal = h.source.ideal)
      fun _ h' => h'.source.Governed m ∧ h'.source.ideal = h.source.ideal := by
  have reached : ∀ {h' : Heap}, Source.Steps Source.Operation.reclaims h.source h'.source →
      h'.source.Governed m ∧ h'.source.ideal = h.source.ideal := fun steps =>
    ⟨steps.holds (fun op _ => Source.preserves_perform op) governed,
      steps.holds (fun op known => reclaims_levels known _) rfl⟩
  exact (drives_runCycle collectSoft h).imp (fun _ _ => reached) fun _ _ => reached

end Heap

/-! ### All operations -/

namespace Chronicle

open Action

variable {α : Type} {h : Heap} {c : Chronicle} {m x : Nat} {t : Failure → Prop} {p : Chronicle → Prop}
  {gained : Nat → Chronicle → Prop}

/-- The size has been looked at. -/
def reviewed (c : Chronicle) : Chronicle :=
  { c.note (.review c.heap) with heap := c.heap.sizeChanged }

theorem ends_review {done : Unit → Chronicle → Prop} {failed : Failure → Chronicle → Prop} :
    review.Ends c done failed ↔ done () c.reviewed := by
  simp only [review, ends_bind, ends_modify, within, ends_on]
  rfl

/-- A collection is over and counted. -/
def counted (c : Chronicle) (objects bytes : Nat) : Chronicle :=
  { c with heap := c.heap.countCycle objects bytes }

/-- What a collection does that finds the heap in a state and comes to its end. -/
def Collects [ObjectModel] (soft : Bool) (c c' : Chronicle) : Prop :=
  ∃ h₁ objects bytes h₂ s, Heap.Unmoved { c.heap with collecting := true } h₁
    ∧ Heap.runCycle soft h₁ = .ok (objects, bytes) h₂
    ∧ Source.growForUtilization h₂.source = .ok () s
    ∧ c' = counted (reviewed
      { heap := { h₂ with source := s }
        past := c.past ++ [.phases soft h₁ (some (objects, bytes)) h₂] }) objects bytes

/-- Where a collection breaks off: before its phases, in them or after them. -/
def BreaksOff [ObjectModel] (soft : Bool) (c : Chronicle) (cause : Failure) (c' : Chronicle) : Prop :=
  ∃ h₁, Heap.Unmoved { c.heap with collecting := true } h₁ ∧ (c' = { c with heap := h₁ }
    ∨ (∃ h₂, Heap.runCycle soft h₁ = .error cause h₂
      ∧ c' = { heap := h₂, past := c.past ++ [.phases soft h₁ none h₂] })
    ∨ ∃ freed h₂ s, Heap.runCycle soft h₁ = .ok freed h₂
      ∧ Source.growForUtilization h₂.source = .error cause s
      ∧ c' = { heap := { h₂ with source := s }
               past := c.past ++ [.phases soft h₁ (some freed) h₂] })

theorem collect_cases [ObjectModel] (c : Chronicle) (soft : Bool) : (collect soft).Ends c
    (fun _ c' => (c.heap.collecting = true ∧ c' = c)
      ∨ (c.heap.collecting = false ∧ Collects soft c c'))
    fun cause c' => c.heap.collecting = false ∧ BreaksOff soft c cause c' := by
  rw [collect, ends_bind]
  refine ends_on.2 (ends_get.2 ?_)
  dsimp only
  split
  case isTrue busy => exact ends_pure.2 (.inl ⟨busy, rfl⟩)
  case isFalse idle =>
  rw [Bool.not_eq_true] at idle
  rw [ends_bind]
  refine ends_on.2 (ends_modify.2 ?_)
  rw [ends_bind]
  refine ends_on.2 ((Heap.rests_checkWatchdog _).imp (fun _ h₁ unmoved => ?_)
    fun cause h₁ unmoved => ⟨idle, h₁, unmoved, .inl rfl⟩)
  have unmoved₁ : Heap.Unmoved { c.heap with collecting := true } h₁.retainScheduled :=
    unmoved.trans ⟨rfl, rfl, rfl, rfl, rfl, rfl, rfl⟩
  rw [ends_bind]
  refine ends_on.2 (ends_modify.2 ?_)
  rw [ends_bind, ends_runCycle]
  refine ⟨fun {freed h₂} ran => ?_, fun {cause h₂} broken =>
    ⟨idle, h₁.retainScheduled, unmoved₁, .inr (.inl ⟨h₂, broken, rfl⟩)⟩⟩
  obtain ⟨objects, bytes⟩ := freed
  rw [ends_bind]
  refine ends_on.2 (ends_on.2 ⟨fun {_ s} grown => ?_, fun {cause s} broken =>
    ⟨idle, h₁.retainScheduled, unmoved₁, .inr (.inr ⟨_, h₂, s, ran, broken, rfl⟩)⟩⟩)
  rw [ends_bind, ends_review]
  exact ends_on.2 (ends_modify.2 (.inr ⟨idle, h₁.retainScheduled, objects, bytes, h₂, s, unmoved₁,
    ran, grown, rfl⟩))

/-- The condition holds, or what stands in for it until it is written down that there is room. -/
def Met (p : Chronicle → Prop) (gained : Nat → Chronicle → Prop) :
    Option Nat → Chronicle → Prop
  | none => p
  | some x => gained x

/-- The parts of the operations keep a condition up. -/
structure Upholds [ObjectModel] (m : Nat) (t : Failure → Prop) (p : Chronicle → Prop)
    (gained : Nat → Chronicle → Prop) : Prop where
  governed : ∀ {c}, p c → c.heap.source.Governed m
  unmoved : ∀ {h h' past}, p { heap := h, past } → Heap.Unmoved h h' → p { heap := h', past }
  calm : ∀ {h s past}, p { heap := h, past } → Source.Calm m h.source s →
    s.ideal = h.source.ideal → p { heap := { h with source := s }, past }
  resized : ∀ {h s past}, p { heap := h, past } → Source.Calm m h.source s →
    p (reviewed { heap := { h with source := s }, past })
  alloc : ∀ size c, p c → (within (Heap.onSource (Source.alloc size))).Ends c (Met p gained)
    fun cause c' => t cause → p c'
  growing : ∀ size c, p c → (allocGrowing size).Ends c (Met p gained)
    fun cause c' => t cause → p c'
  allocated : ∀ {x c}, gained x c → p (c.note (.allocated x c.heap))
  collect : ∀ soft, (collect soft).Maintains t p

variable [ObjectModel]

omit [ObjectModel] in
theorem maintains_within {a : Action Heap α}
    (maintains : ∀ past, a.Maintains t fun h => p { heap := h, past }) :
    (within a).Maintains t p := fun c holds => ends_on.2 (maintains c.past c.heap holds)

theorem Upholds.restsIn (upholds : Upholds m t p gained) {a : Action Heap α} (rests : Heap.Rests a)
    (past : List Happening) : a.Maintains t fun h => p { heap := h, past } := by
  intro h holds
  refine (rests h).imp ?_ ?_
  · exact fun _ _ unmoved => upholds.unmoved holds unmoved
  · exact fun _ _ unmoved _ => upholds.unmoved holds unmoved

theorem Upholds.rests (upholds : Upholds m t p gained) {a : Action Heap α} (rests : Heap.Rests a) :
    (within a).Maintains t p := maintains_within (upholds.restsIn rests)

theorem Upholds.calmlyIn (upholds : Upholds m t p gained) {a : Action Source α}
    (calm : ∀ s, a.Preserves (Source.Calm m s)) (levels : ∀ s, s.Governed m →
      a.Ends s (fun _ s' => s'.ideal = s.ideal) fun _ s' => s'.ideal = s.ideal)
    (past : List Happening) : (Heap.onSource a).Maintains t fun h => p { heap := h, past } := by
  intro h holds
  have governed := upholds.governed holds
  refine ends_on.2 ?_
  refine ((calm _ _ ⟨governed, Source.undisturbed_of_eq rfl⟩).and (levels _ governed)).imp ?_ ?_
  · exact fun _ _ both => upholds.calm holds both.1 both.2
  · exact fun _ _ both _ => upholds.calm holds both.1 both.2

theorem Upholds.calmly (upholds : Upholds m t p gained) {a : Action Source α}
    (calm : ∀ s, a.Preserves (Source.Calm m s)) (levels : ∀ s, s.Governed m →
      a.Ends s (fun _ s' => s'.ideal = s.ideal) fun _ s' => s'.ideal = s.ideal) :
    (within (Heap.onSource a)).Maintains t p := maintains_within (upholds.calmlyIn calm levels)

/-- A change to the arenas that is a silent step. -/
theorem Upholds.changes (upholds : Upholds m t p gained) {change : Source → Source}
    (calm : ∀ s, Preserves (Source.Calm m s) (modify change))
    (ideal : ∀ s, (change s).ideal = s.ideal) : Maintains t p
      (within (Heap.silent (modify fun h => { h with source := change h.source }))) := by
  refine maintains_within fun past => Maintains.then (fun h holds => ends_modify.2 ?_)
    fun _ => maintains_pure none
  have still := ends_modify.1 (calm h.source h.source
    ⟨upholds.governed holds, Source.undisturbed_of_eq rfl⟩)
  exact upholds.calm holds still (ideal h.source)

theorem Upholds.resizes (upholds : Upholds m t p gained) {a : Action Source α}
    (calm : ∀ s, a.Preserves (Source.Calm m s)) (fails : ∀ s, a.Ends s (fun _ _ => True)
      fun _ s' => s'.ideal = s.ideal) :
    Maintains t p (do let value ← within (Heap.onSource a); review; return value) := by
  intro c holds
  have governed := upholds.governed holds
  rw [ends_bind]
  refine ends_on.2 (ends_on.2 ?_)
  refine ((calm _ _ ⟨governed, Source.undisturbed_of_eq rfl⟩).and (fails _)).imp ?_ ?_
  · intro _ _ both
    rw [ends_bind, ends_review, ends_pure]
    exact upholds.resized holds both.1
  · exact fun _ _ both _ => upholds.calm holds both.1 both.2

theorem Upholds.collectFor (upholds : Upholds m t p gained) (record : Nat) (soft : Bool) :
    (collectFor record soft).Maintains t p := by
  refine (upholds.rests Heap.rests_get).then fun h => ?_
  split
  · refine (upholds.rests (Heap.rests_modify fun h => ?_)).then fun _ => upholds.collect soft
    exact ⟨rfl, rfl, rfl, rfl, rfl, rfl, rfl⟩
  · exact upholds.collect soft

theorem Upholds.findRoom (upholds : Upholds m t p gained) (record size : Nat) (holds : p c) :
    (findRoom record size).Ends c (Met p gained) fun cause c' => t cause → p c' :=
  ends_findRoom (fun {c} => upholds.alloc size c) (fun {c} => upholds.growing size c)
    (fun soft {c} => upholds.collectFor record soft c) holds

theorem Upholds.request (upholds : Upholds m t p gained) (record size : Nat) (flags : AllocFlags) :
    (request record size flags).Maintains t p := by
  refine (upholds.rests Heap.rests_get).then fun h c holds => ?_
  have counts : ∀ result : Option Nat, Maintains t p (do
      within (Heap.countIf h.profiling record (Profile.countAlloc size result.isSome))
      return result) :=
    fun result => (upholds.rests (Heap.rests_countIf _ _ _)).then fun _ => maintains_pure _
  rw [ends_bind]
  refine (upholds.findRoom record size holds).mono fun result c₁ met => ?_
  cases result with
  | none => exact counts none c₁ met
  | some x =>
    rw [ends_bind, ends_modify]
    exact (upholds.rests (Heap.rests_enter record x flags)).then (fun _ => counts (some x)) _
      (upholds.allocated met)

theorem Upholds.findExternalRoom (upholds : Upholds m t p gained) (record n : Nat) :
    (findExternalRoom record n).Maintains t p := by
  have charges : (within (Heap.onSource (Source.externalAlloc n false))).Maintains t p :=
    upholds.calmly (Source.calm_of_resizes (Source.preserves_externalAlloc n false)
      (Source.resizes_externalAlloc n false)) fun s _ => Source.levels_externalAlloc n false _ s rfl
  have grows : (growExternal n).Maintains t p :=
    upholds.resizes (Source.calm_of_resizes (Source.preserves_externalAlloc n true)
      (Source.resizes_externalAlloc n true)) fun s =>
      (Source.levels_externalAlloc n true _ s rfl).mono fun _ _ _ => trivial
  have looks : (externalPossible n).Maintains t p := by
    refine upholds.rests (Heap.rests_get.then fun h h' => ends_lift.2 ?_)
    exact ⟨fun _ _ => .refl h', fun _ _ => .refl h'⟩
  have shrinks : (within (Heap.onSource Source.shrinkToIdeal)).Maintains t p :=
    upholds.calmly Source.shrinkToIdeal_calm fun _ => Source.shrinkToIdeal_levels
  intro c holds
  exact ends_findExternalRoom (charges _) (grows _)
    (fun soft {c} => upholds.collectFor record soft c) (looks _) (shrinks _) holds

theorem Upholds.requestExternal (upholds : Upholds m t p gained) (record n : Nat) :
    (requestExternal record n).Maintains t p :=
  (upholds.findExternalRoom record n).then fun _ => (upholds.rests Heap.rests_get).then fun _ =>
    (upholds.rests (Heap.rests_countIf _ _ _)).then fun _ => maintains_pure _

theorem Upholds.afterZygote (upholds : Upholds m t p gained) :
    (within Heap.afterZygote).Maintains t p := by
  have started : Heap.Rests (do
      if (← get).config.startWorker then Heap.startWorker
      return .ok () : Action Heap (Except HeapError Unit)) := by
    refine Heap.rests_get.then fun h => ?_
    split
    · exact Heap.rests_startWorker.then fun _ => Heap.rests_pure _
    · exact Heap.rests_pure _
  refine maintains_within fun past => (upholds.calmlyIn Source.afterZygote_calm
    (fun s _ => Source.levels_afterZygote _ s rfl) past).then fun result => ?_
  cases result with
  | error => exact maintains_pure _
  | ok => exact upholds.restsIn started past

/-- What the parts keep up, every operation does. -/
theorem Upholds.perform (upholds : Upholds m t p gained) (op : Heap.Operation) :
    (perform op).Maintains t p := by
  have silent : ∀ {α : Type} {step : Action Heap α}, Heap.Rests step →
      Maintains t p ((fun _ => Answer.done) <$> within (Heap.silent step)) :=
    fun rests => (upholds.rests (rests.then fun _ => Heap.rests_pure _)).map _
  cases op with
  | request record size flags => exact (upholds.request record size flags).map _
  | collect soft => exact (upholds.collect soft).map _
  | requestExternal record n => exact (upholds.requestExternal record n).map _
  | setMinimum size =>
    exact (upholds.resizes (Source.calm_of_resizes (Source.preserves_setMinimum size)
      (Source.resizes_setMinimum size)) (Source.setMinimum_fails size)).map _
  | freeExternal n =>
    exact (upholds.calmly (Source.calm_of_resizes (Source.preserves_externalFree n)
      (Source.resizes_externalFree n)) fun s _ => Source.levels_externalFree n _ s rfl).map _
  | trim => exact (upholds.calmly Source.trim_calm fun s _ => Source.levels_trim _ s rfl).map _
  | beforeFork =>
    exact (upholds.calmly Source.beforeFork_calm
      fun s _ => Source.levels_beforeFork _ s rfl).map _
  | afterZygote => exact upholds.afterZygote.map _
  | attach thread name => exact (upholds.rests (Heap.rests_attach thread name)).map _
  | takeWork => exact (upholds.rests Heap.rests_takeWork).map _
  | clearFlags record x flags => exact silent (Heap.rests_clearFlags record x flags)
  | transition record state =>
    exact silent (Heap.rests_modify fun h => h.unmoved_transition record state)
  | shutdown record => exact silent (Heap.rests_modify fun h => h.unmoved_shutdown record)
  | write x index count value =>
    exact (upholds.changes (Source.calm_of_modify (Source.preserves_setWords x index count value)
      fun s _ => Source.ledgers_setWords s x index count value)
      fun s => (Source.setWords_paces s x index count value).ideal).map _
  | setUtilization ratio =>
    exact (upholds.changes (Source.calm_of_resizes (Source.preserves_setUtilization ratio)
      (Source.resizes_modify fun _ => ⟨⟨_, rfl⟩, rfl, rfl, rfl, rfl⟩)) fun _ => rfl).map _
  | snapshotBitmaps =>
    exact (upholds.changes (Source.calm_of_modify Source.preserves_snapshotBitmaps
      fun _ sound => sound.ledgers_snapshot) fun s => (Source.snapshotBitmaps_paces s).ideal).map _
  | replaceBitmaps numbers =>
    have same : (fun h => Heap.replaceBitmaps h numbers)
        = fun h => { h with source := h.source.replaceCurrent numbers } :=
      funext fun h => h.replaceBitmaps_eq numbers
    change Maintains t p (_ <$> within (Heap.silent (modify fun h => h.replaceBitmaps numbers)))
    rw [same]
    exact (upholds.changes (Source.calm_of_modify (Source.preserves_replaceCurrent numbers)
      fun s _ => Source.ledgers_replaceCurrent s numbers)
      fun s => (Source.replaceCurrent_paces s numbers).ideal).map _
  | detach | track | untrack | setRoots | setDebugging | setProfiling | setReporting | pass
  | startCall | endCall =>
    exact silent (Heap.rests_modify fun _ => ⟨rfl, rfl, rfl, rfl, rfl, rfl, rfl⟩)

/-! ### Runs -/

/-- The chronicles of heaps with this configuration, kept from the beginning. -/
inductive Reachable (config : Config) : Chronicle → Prop where
  | create {h : Heap} : Heap.create config = .ok (.ok h) → Reachable config { heap := h }
  | step {c : Chronicle} (op : Heap.Operation) :
    Reachable config c → Reachable config ((perform op).after c)

/-- The chronicle after steps, one after the other. A step counts also where it breaks off. -/
def afterAll (c : Chronicle) : List Heap.Operation → Chronicle
  | [] => c
  | op :: rest => ((perform op).after c).afterAll rest

variable {config : Config}

theorem Reachable.afterAll (reachable : Reachable config c) (ops : List Heap.Operation) :
    Reachable config (c.afterAll ops) := by
  induction ops generalizing c with
  | nil => exact reachable
  | cons op rest ih => exact ih (reachable.step op)

theorem heap_after (op : Heap.Operation) (c : Chronicle) :
    ((perform op).after c).heap = (Heap.perform op).after c.heap := by
  refine (erases_perform op c).after (fun c' => c'.heap = (Heap.perform op).after c.heap) ?_ ?_
  · intro _ c' run
    rw [Action.after, run]
  · intro _ c' run
    rw [Action.after, run]

/-- A chronicle is about a heap that programs can come to. -/
theorem Reachable.heap (reachable : Reachable config c) : Heap.Reachable config c.heap := by
  induction reachable with
  | create run => exact .create run
  | step op _ ih => exact heap_after op _ ▸ ih.step op

/-- Every such heap has a chronicle. -/
theorem exists_chronicle (reachable : Heap.Reachable config h) :
    ∃ c, Reachable config c ∧ c.heap = h := by
  induction reachable with
  | create run => exact ⟨_, .create run, rfl⟩
  | step op _ ih =>
    obtain ⟨c, known, rfl⟩ := ih
    exact ⟨_, known.step op, heap_after op c⟩

theorem Upholds.reachable (upholds : Upholds m (fun _ => True) p gained)
    (start : ∀ h, Heap.create config = .ok (.ok h) → p { heap := h })
    (reachable : Reachable config c) : p c := by
  induction reachable with
  | create run => exact start _ run
  | step op _ ih =>
    exact (upholds.perform op _ ih).after p (fun _ _ kept => kept) fun _ _ kept => kept trivial

end Chronicle

end ManagedHeap
