import ManagedHeap.Proofs.Operations

/-!
The heaps that programs can come to: those made of a configuration, after any steps. A step counts
also where it breaks off.
-/

namespace ManagedHeap

namespace Heap

variable [ObjectModel] {config : Config} {h : Heap}

/-- A heap with this configuration comes to be. -/
inductive Reachable (config : Config) : Heap → Prop where
  | create {h : Heap} : create config = .ok (.ok h) → Reachable config h
  | step {h : Heap} (op : Operation) : Reachable config h → Reachable config ((perform op).after h)

theorem Reachable.ends (reachable : Reachable config h) (op : Operation) :
    (perform op).Ends h (fun _ h' => Reachable config h') fun _ h' => Reachable config h' := by
  have reached := reachable.step op
  unfold Action.after at reached
  constructor
  · intro _ _ run
    rw [run] at reached
    exact reached
  · intro _ _ run
    rw [run] at reached
    exact reached

/-- The heap after steps, one after the other. -/
def afterAll (h : Heap) : List Operation → Heap
  | [] => h
  | op :: rest => ((perform op).after h).afterAll rest

theorem Reachable.afterAll (reachable : Reachable config h) (ops : List Operation) :
    Reachable config (h.afterAll ops) := by
  induction ops generalizing h with
  | nil => exact reachable
  | cons op rest ih => exact ih (reachable.step op)

omit [ObjectModel] in
theorem create_frame (run : create config = .ok (.ok h)) : ∃ s : Source,
    Source.startup config.startSize config.maximumSize config.zygote = .ok (.ok s)
      ∧ h.source = s.setUtilization config.utilization ∧ h.config = config ∧ h.tables = {}
      ∧ h.collecting = false ∧ h.inFlight = none := by
  obtain ⟨s, started, rfl | rfl⟩ := create_cases run
  · exact ⟨s, started, rfl, rfl, rfl, rfl, rfl⟩
  · have same := sidesteps_startWorker.besides (begun config s)
    exact ⟨s, started, same.source, same.config, same.tables, same.collecting, same.current⟩

omit [ObjectModel] in
theorem sound_create (run : create config = .ok (.ok h)) :
    h.Sound ∧ h.config = config ∧ (∀ x, h.isValid x = false) ∧ h.tables = {} := by
  obtain ⟨s, started, source, same, tables, -⟩ := create_frame run
  obtain ⟨sound, maximum, nothing⟩ := Source.startup_sound started
  have steady : Source.Steady s (s.setUtilization config.utilization) :=
    sound.steady_of_resized ⟨⟨_, rfl⟩, rfl, rfl, rfl, rfl⟩
  refine ⟨⟨source ▸ steady.sound, ?_⟩, same, fun x => ?_, tables⟩
  · rw [source, steady.maximum, maximum, same]
  · rw [isValid, source, steady.published]
    exact nothing x

theorem Reachable.sound (reachable : Reachable config h) : h.Sound ∧ h.config = config := by
  induction reachable with
  | create run =>
    obtain ⟨sound, same, -⟩ := sound_create run
    exact ⟨sound, same⟩
  | step op _ ih =>
    obtain ⟨sound, same⟩ := ih
    refine (perform_spec sound op).after (fun h' => h'.Sound ∧ h'.config = config)
      (fun _ h' done => ?_) fun _ h' fails => ?_
    · exact ⟨done.1, done.2.trans same⟩
    · exact ⟨fails.sound, fails.config.trans same⟩

/-- The settings of a small heap that has no worker. -/
def smallConfig : Config := { startSize := 4096, maximumSize := 65536, startWorker := false }

/-- The small heap as it begins. -/
def small : Heap :=
  match create smallConfig with
  | .ok (.ok h) => h
  | _ => default

theorem reachable_small : Reachable smallConfig small := .create rfl

end Heap

end ManagedHeap
