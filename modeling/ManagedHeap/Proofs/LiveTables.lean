import ManagedHeap.Proofs.Consistency
import ManagedHeap.Proofs.Journals
import ManagedHeap.Proofs.TableEntries

/-!
What is in the tables of a heap between two operations. All entries are live objects, no object waits
twice for its finalizer, and a reference that is queued is queued once as long as none is given a referent
while it is queued and no longer scheduled.
-/

namespace ManagedHeap

namespace Heap

open Action

variable {h h' h'' : Heap} {x r : Nat} {α β : Type}

/-- The tables are in order: all that they have lives, and nothing waits twice. -/
structure Tended (h : Heap) : Prop where
  sound : h.Sound
  waiting : ∀ x ∈ h.waiting, h.isValid x = true
  queued : ∀ x ∈ h.queued, h.isValid x = true
  scheduled : ∀ x ∈ h.tables.scheduled, h.isValid x = true
  held : ∀ x ∈ h.nonCollectable.entries, h.isValid x = true
  once : h.waiting.Nodup

/-- All that was in the tables is in them, and it lives on. -/
theorem Tended.congr (tended : h.Tended) (sound : h'.Sound)
    (live : ∀ x, h.isValid x = true → h'.isValid x = true) (tables : h'.tables = h.tables)
    (held : ∀ x ∈ h'.nonCollectable.entries, x ∈ h.nonCollectable.entries) : h'.Tended where
  sound := sound
  waiting x waits := by
    rw [Heap.waiting, tables] at waits
    exact live x (tended.waiting x waits)
  queued x due := by
    rw [Heap.queued, tables] at due
    exact live x (tended.queued x due)
  scheduled x known := live x (tended.scheduled x (tables ▸ known))
  held x kept := live x (tended.held x (held x kept))
  once := by
    rw [Heap.waiting, tables]
    exact tended.once

variable [ObjectModel]

/-- A reference is queued once, and as long as it has a referent it is scheduled. -/
structure Single (h : Heap) : Prop where
  once : h.queued.Nodup
  scheduled : ∀ r ∈ h.queued, (h.source.referent? r).isSome = true → r ∈ h.tables.scheduled

/-- The tables are in order. -/
structure Tidy (h h' : Heap) : Prop where
  tended : h'.Tended
  config : h'.config = h.config
  single : h.Single → h'.Single

/-- The tables are in order where an operation broke off. -/
structure Halted (h h' : Heap) : Prop where
  tended : h'.Tended
  once : h.Single → h'.queued.Nodup

theorem Tidy.trans (first : Tidy h h') (second : Tidy h' h'') : Tidy h h'' :=
  ⟨second.tended, second.config.trans first.config, fun single => second.single (first.single single)⟩

theorem Tidy.halted (first : Tidy h h') (second : Halted h' h'') : Halted h h'' :=
  ⟨second.tended, fun single => second.once (first.single single)⟩

theorem Tended.refl (tended : h.Tended) : Tidy h h := ⟨tended, rfl, id⟩

theorem Tended.halted (tended : h.Tended) : Halted h h := ⟨tended, Single.once⟩

theorem Single.congr (single : h.Single) (tables : h'.tables = h.tables)
    (referent : ∀ r ∈ h.queued, (h'.source.referent? r).isSome = true →
      r ∈ h'.tables.scheduled ∨ (h.source.referent? r).isSome = true) : h'.Single where
  once := by
    rw [Heap.queued, tables]
    exact single.once
  scheduled r due refers := by
    rw [Heap.queued, tables] at due
    rcases referent r due refers with known | referred
    · exact known
    · exact tables ▸ single.scheduled r due referred

/-- Live objects hold what they held, and the tables are as they were. -/
theorem Tended.tidy (tended : h.Tended) (live : ∀ x, h.isValid x = true → h'.isValid x = true)
    (sound : h'.source.Sound) (maximum : h'.source.absoluteMax = h.source.absoluteMax)
    (intact : h.source.Intact h'.source) (config : h'.config = h.config)
    (tables : h'.tables = h.tables)
    (held : ∀ x ∈ h'.nonCollectable.entries, x ∈ h.nonCollectable.entries) : Tidy h h' where
  tended := tended.congr ⟨sound, by rw [maximum, tended.sound.maximum, config]⟩ live tables held
  config := config
  single single := by
    refine single.congr tables fun r due refers => .inr ?_
    have payload := tended.sound.source.payload_intact sound intact (tended.queued r due)
    rwa [Source.referent_congr payload] at refers

theorem Tended.tidy_of_steady (tended : h.Tended) (steady : Source.Steady h.source h'.source)
    (intact : h.source.Intact h'.source) (config : h'.config = h.config)
    (tables : h'.tables = h.tables) (held : h'.nonCollectable = h.nonCollectable) : Tidy h h' :=
  tended.tidy (fun x live => (steady.published x).trans live) steady.sound steady.maximum intact config
    tables fun _ kept => held ▸ kept

theorem Tended.halted_of_broken (tended : h.Tended) (broken : Source.Broken h.source h'.source)
    (config : h'.config = h.config) (tables : h'.tables = h.tables)
    (held : h'.nonCollectable = h.nonCollectable) : Halted h h' := by
  refine ⟨tended.congr ⟨broken.sound, ?_⟩ broken.live tables fun _ kept => held ▸ kept,
    fun single => ?_⟩
  · rw [broken.maximum, tended.sound.maximum, config]
  · rw [Heap.queued, tables]
    exact single.once

/-! ### Composing actions -/

/-- Wherever the action ends the tables are in order, if they were. -/
def Tends (a : Action Heap α) : Prop :=
  ∀ h, h.Tended → a.Ends h (fun _ h' => Tidy h h') fun _ h' => Halted h h'

/-- What the action comes to is counted from where the tables were put in order before. -/
theorem Tends.since {a : Action Heap α} (tends : Tends a) (tidy : Tidy h h') :
    a.Ends h' (fun _ h'' => Tidy h h'') fun _ h'' => Halted h h'' :=
  (tends h' tidy.tended).imp (fun _ _ more => tidy.trans more) fun _ _ halted => tidy.halted halted

theorem Tends.then {a : Action Heap α} {next : α → Action Heap β} (first : Tends a)
    (rest : ∀ value, Tends (next value)) : Tends (a >>= next) := by
  intro h tended
  rw [ends_bind]
  exact (first h tended).mono fun value h₁ tidy => (rest value).since tidy

theorem tends_pure (value : α) : Tends (pure value : Action Heap α) :=
  fun _ tended => ends_pure.2 tended.refl

theorem tends_lift (value : Except Defect α) : Tends (liftM value : Action Heap α) :=
  fun _ tended => ends_lift.2 ⟨fun _ _ => tended.refl, fun _ _ => tended.halted⟩

theorem tends_get {next : Heap → Action Heap α} (rest : ∀ h, h.Tended → (next h).Ends h
    (fun _ h' => Tidy h h') fun _ h' => Halted h h') : Tends (get >>= next) :=
  fun h tended => ends_bind.2 (ends_get.2 (rest h tended))

/-- An action on the arenas that leaves the live objects and what they hold alone. -/
theorem tends_onSource {a : Action Source α}
    (spec : ∀ s, s.Sound → a.Ends s (fun _ s' => Source.Steady s s')
      fun _ s' => Source.Broken s s')
    (intact : ∀ s, s.Sound → a.Ends s (fun _ s' => s.Intact s') fun _ _ => True) :
    Tends (onSource a) := by
  intro h tended
  have sound := tended.sound.source
  simp only [onSource, ends_on]
  refine ((spec _ sound).and (intact _ sound)).imp ?_ ?_
  · rintro - s ⟨steady, kept⟩
    exact tended.tidy_of_steady steady kept rfl rfl rfl
  · rintro - s ⟨broken, -⟩
    exact tended.halted_of_broken broken rfl rfl rfl

theorem tends_resizes {a : Action Source α} (resizes : Source.Resizes a) : Tends (onSource a) :=
  tends_onSource (fun _ sound => resizes.spec sound) fun s _ => resizes.intact s

/-- A change that steers the arenas, or exchanges their bitmaps. -/
theorem tends_figures (change : Source → Source)
    (steady : ∀ s : Source, s.Sound → Source.Steady s (change s))
    (intact : ∀ s : Source, s.Intact (change s)) :
    Tends (modify fun h => { h with source := change h.source }) := fun h tended =>
  ends_modify.2 (tended.tidy_of_steady (steady h.source tended.sound.source) (intact h.source) rfl
    rfl rfl)

omit [ObjectModel] in
/-- Neither the arenas nor the tables were touched, and at most objects were dropped that had not to be
collected. -/
structure Idle (h h' : Heap) : Prop where
  config : h'.config = h.config
  source : h'.source = h.source
  tables : h'.tables = h.tables
  held : ∀ x ∈ h'.nonCollectable.entries, x ∈ h.nonCollectable.entries

omit [ObjectModel] in
/-- The action leaves the arenas and the tables alone. -/
def Idles (a : Action Heap α) : Prop :=
  ∀ h, a.Ends h (fun _ h' => Idle h h') fun _ h' => Idle h h'

omit [ObjectModel] in
theorem idle_refl (h : Heap) : Idle h h := ⟨rfl, rfl, rfl, fun _ kept => kept⟩

omit [ObjectModel] in
theorem Idle.trans (first : Idle h h') (second : Idle h' h'') : Idle h h'' :=
  ⟨second.config.trans first.config, second.source.trans first.source,
    second.tables.trans first.tables, fun x kept => first.held x (second.held x kept)⟩

omit [ObjectModel] in
theorem Idle.tended (idle : Idle h h') (tended : h.Tended) : h'.Tended := by
  obtain ⟨config, source, tables, held⟩ := idle
  refine tended.congr ⟨source ▸ tended.sound.source, ?_⟩ (fun x live => ?_) tables held
  · rw [source, config, tended.sound.maximum]
  · rw [isValid, source]
    exact live

theorem Idle.tidy (idle : Idle h h') (tended : h.Tended) : Tidy h h' := by
  obtain ⟨config, source, tables, held⟩ := idle
  have steady : Source.Steady h.source h'.source := source ▸ tended.sound.source.steady
  exact tended.tidy (fun x live => (steady.published x).trans live) steady.sound steady.maximum
    (source ▸ Source.Intact.refl h.source) config tables held

theorem Idles.tends {a : Action Heap α} (idles : Idles a) : Tends a := fun h tended =>
  (idles h).imp (fun _ _ idle => idle.tidy tended) fun _ _ idle =>
    (idle.tidy tended).halted (idle.tended tended).halted

omit [ObjectModel] in
theorem Idles.then {a : Action Heap α} {next : α → Action Heap β} (first : Idles a)
    (rest : ∀ value, Idles (next value)) : Idles (a >>= next) := Relates.then Idle.trans first rest

omit [ObjectModel] in
theorem idles_pure (value : α) : Idles (pure value : Action Heap α) := relates_pure idle_refl value

omit [ObjectModel] in
theorem idles_modify {change : Heap → Heap} (same : ∀ h, Idle h (change h)) :
    Idles (modify change) := relates_modify same

/-- A change to what is neither in the arenas nor in the tables. -/
theorem tends_aside {change : Heap → Heap} (same : ∀ h, Idle h (change h)) :
    Tends (modify change) := (idles_modify same).tends

omit [ObjectModel] in
theorem idles_countIf (profiling : Bool) (record : Nat) (count : Action Profile Unit) :
    Idles (countIf profiling record count) := fun _ =>
  ends_countIf (fun _ _ => ⟨rfl, rfl, rfl, fun _ kept => kept⟩)
    fun _ _ _ => ⟨rfl, rfl, rfl, fun _ kept => kept⟩

omit [ObjectModel] in
theorem idles_attach (thread : Nat) (name : String) : Idles (attach thread name) := fun h =>
  ends_attach (fun _ _ => idle_refl h) fun _ => ⟨rfl, rfl, rfl, fun _ kept => kept⟩

omit [ObjectModel] in
theorem idles_startWorker : Idles startWorker := fun h =>
  ends_startWorker (idle_refl h) (fun _ _ => idle_refl h) fun _ => ⟨rfl, rfl, rfl, fun _ kept => kept⟩

omit [ObjectModel] in
theorem idles_sizeChanged : Idles (modify sizeChanged) := by
  refine idles_modify fun h => ?_
  obtain ⟨threshold, policy, same⟩ := h.sizeChanged_frame
  rw [same]
  exact ⟨rfl, rfl, rfl, fun _ kept => kept⟩

omit [ObjectModel] in
theorem idles_clearFlags (record object : Nat) (flags : AllocFlags) :
    Idles (clearFlags record object flags) := by
  intro h
  apply ends_clearFlags
  case missing => exact fun _ _ => idle_refl h
  case cleared =>
    rintro nonCollectable _ known -
    refine ⟨rfl, rfl, rfl, fun x kept => ?_⟩
    rcases known with rfl | removed
    · exact kept
    · exact (RefTable.perm_of_remove removed).mem_iff.2 (List.mem_cons_of_mem _ kept)

omit [ObjectModel] in
theorem idle_transition (h : Heap) (record : Nat) (state : ThreadState) :
    Idle h (h.transition record state) := by
  obtain ⟨threads, same, -⟩ := h.transition_cases record state
  rw [same]
  exact ⟨rfl, rfl, rfl, fun _ kept => kept⟩

omit [ObjectModel] in
theorem idle_shutdown (h : Heap) (record : Option Nat) : Idle h (h.shutdown record) := by
  rcases shutdown_cases h record with same | ⟨_, -, same⟩
  · rw [same]
    exact idle_refl h
  · rw [same]
    exact ⟨rfl, rfl, rfl, fun _ kept => kept⟩

/-! ### Collecting -/

omit [ObjectModel] in
theorem rootSet_of_held (kept : x ∈ h.nonCollectable.entries) : x ∈ h.rootSet :=
  List.mem_append_left _ (List.mem_append_left _ (List.mem_append_left _ (List.mem_append_right _ kept)))

/-- What was queued stays queued, in order, and nothing is that was. -/
theorem Single.once_of_picks {added : List (Nat × ReferenceWork)} (single : h.Single)
    (operations : h'.tables.operations.entries = h.tables.operations.entries ++ added)
    (picks : h.source.Picks h.tables.scheduled (added.map Prod.fst)) : h'.queued.Nodup := by
  rw [Heap.queued, operations, List.map_append]
  refine single.once.append picks.once fun r due new => ?_
  exact picks.unscheduled r new (single.scheduled r due (picks.refers r new))

theorem Tended.of_tidied (tended : h.Tended) (config : h'.config = h.config)
    (held : h'.nonCollectable = h.nonCollectable)
    (tidied : Cycle.Tidied h.rootSet h.source h.tables h'.source h'.tables) : h'.Tended := by
  obtain ⟨added, operations, picks, live, scheduled⟩ := tidied.queued
  refine ⟨⟨tidied.sound, by rw [tidied.maximum, tended.sound.maximum, config]⟩, fun x waits => ?_,
    fun x due => ?_, fun x known => ?_, fun x kept => ?_, ?_⟩
  · have before : x ∈ h.waiting := tidied.waiting.subset waits
    exact tidied.kept x (rootSet_of_waiting before) (tended.waiting x before)
  · rw [Heap.queued, operations, List.map_append, List.mem_append] at due
    rcases due with before | new
    · exact tidied.kept x (.inl (queued_root before)) (tended.queued x before)
    · exact live x new
  · have before : h.isValid x = true := (tidied.scheduled x known).elim (tended.scheduled x) id
    exact ((scheduled x before).1 known).2
  · rw [held] at kept
    exact tidied.kept x (.inl (rootSet_of_held kept)) (tended.held x kept)
  · obtain ⟨l, perm, sublist⟩ := tidied.waiting
    exact perm.nodup_iff.1 (tended.once.sublist sublist)

theorem Tended.single_of_tidied (tended : h.Tended) (collected : Collected h h') (single : h.Single)
    (tidied : Cycle.Tidied h.rootSet h.source h.tables h'.source h'.tables) : h'.Single := by
  obtain ⟨added, operations, picks, live, scheduled⟩ := tidied.queued
  refine ⟨single.once_of_picks operations picks, fun r due refers => ?_⟩
  rw [Heap.queued, operations, List.map_append, List.mem_append] at due
  rcases due with before | new
  · have here := tended.queued r before
    have there := tidied.kept r (.inl (queued_root before)) here
    -- A collection gives no reference a referent.
    have referred : (h.source.referent? r).isSome = true := by
      obtain ⟨y, refers⟩ := Option.isSome_iff_exists.1 refers
      rw [((collected.collects.kept r there).referent refers).1]
      rfl
    exact (scheduled r here).2 ⟨.inl (single.scheduled r before referred), there⟩
  · exact (scheduled r (picks.live r new)).2 ⟨.inr new, live r new⟩

omit [ObjectModel] in
theorem idles_checkWatchdog : Idles checkWatchdog := fun h =>
  ends_checkWatchdog (fun _ _ => idle_refl h) fun _ => ⟨rfl, rfl, rfl, fun _ kept => kept⟩

/-- A queued reference stays scheduled as long as it has a referent. -/
theorem tends_retainScheduled : Tends (modify retainScheduled) := by
  intro h tended
  obtain ⟨sound, waiting, queued, scheduled, held, once⟩ := tended
  refine ends_modify.2 ⟨⟨⟨sound.source, sound.maximum⟩, waiting, queued, fun x known => ?_, held, once⟩,
    rfl, fun single => ⟨single.once, fun r due refers => ?_⟩⟩
  · exact scheduled x (List.mem_filter.1 known).1
  · refine List.mem_filter.2 ⟨single.scheduled r due refers, ?_⟩
    have refers' : (h.source.referent? r).isSome = true := refers
    have due' : r ∈ h.tables.operations.entries.map Prod.fst := due
    rw [staysScheduled, refers', List.contains_iff_mem.2 due']
    rfl

theorem tends_runCycle (collectSoft : Bool) : Tends (runCycle collectSoft) := by
  intro h tended
  have tidied := Cycle.run_tidied (c := h.beginCycle) tended.sound.source rfl h.rootSet
    (if collectSoft then .clearAll else h.softPolicy)
  have collected := runCycle_spec tended.sound collectSoft
  simp only [runCycle, ends_bind, ends_get, ends_on] at collected ⊢
  refine (collected.and tidied).imp ?_ ?_
  · rintro - c ⟨collected, tidied⟩
    have tended' : (h.endCycle c).Tended := tended.of_tidied rfl rfl tidied
    exact ⟨tended', rfl, fun single => tended.single_of_tidied collected single tidied⟩
  · rintro - c ⟨-, tidied⟩
    have tended' : (h.endCycle c).Tended := tended.of_tidied rfl rfl tidied
    obtain ⟨added, operations, picks, -⟩ := tidied.queued
    exact ⟨tended', fun single => single.once_of_picks operations picks⟩

theorem tends_collect (collectSoft : Bool) : Tends (collect collectSoft) := by
  have began : Tends (modify fun h : Heap => { h with collecting := true }) :=
    tends_aside fun _ => ⟨rfl, rfl, rfl, fun _ kept => kept⟩
  have counted : ∀ objects bytes, Tends (modify (·.countCycle objects bytes)) := fun _ _ =>
    tends_aside fun _ => ⟨rfl, rfl, rfl, fun _ kept => kept⟩
  refine tends_get fun h tended => ?_
  split
  · exact tends_pure () h tended
  · exact (began.then fun _ => idles_checkWatchdog.tends.then fun _ => tends_retainScheduled.then fun _ =>
      (tends_runCycle collectSoft).then fun freed =>
        (tends_resizes Source.resizes_growForUtilization).then fun _ =>
          idles_sizeChanged.tends.then fun _ => counted freed.1 freed.2) h tended

theorem tends_collectFor (record : Nat) (collectSoft : Bool) :
    Tends (collectFor record collectSoft) := by
  intro h tended
  have counted : Idle h (h.countedFor record) := ⟨rfl, rfl, rfl, fun _ kept => kept⟩
  exact ends_collectFor tended.refl (counted.tidy tended) (tends_collect collectSoft).since

/-! ### Requests -/

theorem tends_growExternal (n : Nat) : Tends (growExternal n) :=
  (tends_resizes (Source.resizes_externalAlloc n true)).then fun done =>
    idles_sizeChanged.tends.then fun _ => tends_pure done

theorem Tidy.sizeChanged (tidy : Tidy h h') : Tidy h h'.sizeChanged :=
  tidy.trans (ends_modify.1 (idles_sizeChanged.tends h' tidy.tended))

theorem tends_chargeExternal (record n : Nat) : Tends (chargeExternal record n) := fun _ tended =>
  ends_chargeExternal (fun grow {_} => (tends_resizes (Source.resizes_externalAlloc n grow)).since)
    Tidy.sizeChanged (fun soft {_} => (tends_collectFor record soft).since) tended.refl

theorem tends_shrinkToIdeal : Tends (onSource Source.shrinkToIdeal) :=
  tends_onSource (fun _ sound => Source.shrinkToIdeal_spec sound) fun _ sound =>
    Source.shrinkToIdeal_intact sound

theorem tends_findExternalRoom (record n : Nat) : Tends (findExternalRoom record n) := fun _ tended =>
  ends_findExternalRoom (fun grow {_} => (tends_resizes (Source.resizes_externalAlloc n grow)).since)
    Tidy.sizeChanged (fun soft {_} => (tends_collectFor record soft).since) tends_shrinkToIdeal.since
    (fun tidy => tidy.halted tidy.tended.halted) tended.refl

theorem tends_requestExternal (record n : Nat) : Tends (requestExternal record n) := by
  refine (tends_findExternalRoom record n).then fun result => tends_get fun h tended => ?_
  exact ((idles_countIf h.profiling record _).then fun _ => idles_pure result).tends h tended

/-- The tables are in order, and an object that was found lives and does not wait. -/
def Furnished (h : Heap) (result : Option Nat) (h' : Heap) : Prop :=
  Tidy h h' ∧ ∀ x, result = some x → h'.isValid x = true ∧ x ∉ h'.waiting

/-- From a heap that may grow the action finds room and leaves the tables in order. -/
def Furnishes (a : Action Heap (Option Nat)) : Prop :=
  ∀ h, h.Tended → 0 < h.config.maximumSize → a.Ends h (Furnished h) fun _ h' => Halted h h'

theorem Furnished.after {result : Option Nat} (first : Tidy h h')
    (second : Furnished h' result h'') : Furnished h result h'' :=
  ⟨first.trans second.1, second.2⟩

/-- What comes of an action on a heap whose tables were put in order. -/
theorem Furnishes.since {a : Action Heap (Option Nat)} (furnishes : Furnishes a)
    (room : 0 < h.config.maximumSize) (tidy : Tidy h h') :
    a.Ends h' (Furnished h) fun _ h'' => Halted h h'' :=
  (furnishes h' tidy.tended (tidy.config ▸ room)).imp (fun _ _ furnished => furnished.after tidy)
    fun _ _ halted => tidy.halted halted

/-- An attempt on the arenas. A new object is none of those that waited, as these lived. -/
theorem furnishes_onSource {attempt : Action Source (Option Nat)}
    (spec : ∀ s : Source, s.Sound → 0 < s.absoluteMax →
      attempt.Ends s (Source.Attempted s) fun _ s' => Source.Broken s s')
    (intact : ∀ s : Source, s.Sound → 0 < s.absoluteMax →
      attempt.Ends s (fun _ s' => s.Intact s') fun _ _ => True) :
    Furnishes (onSource attempt) := by
  intro h tended room
  have sound := tended.sound.source
  rw [← tended.sound.maximum] at room
  simp only [onSource, ends_on]
  refine ((spec _ sound room).and (intact _ sound room)).imp ?_ ?_
  · rintro (_ | x) s ⟨attempted, kept⟩
    · exact ⟨tended.tidy_of_steady attempted kept rfl rfl rfl, nofun⟩
    · have gains : Source.Gains h.source x s := attempted
      refine ⟨tended.tidy (fun y live => (gains.published y).2 (.inr live)) gains.sound gains.maximum
        kept rfl rfl fun _ held => held, ?_⟩
      rintro _ ⟨⟩
      refine ⟨(gains.published x).2 (.inl rfl), fun waits => ?_⟩
      have fresh := gains.fresh
      rw [show h.source.isPublished x = true from tended.waiting x waits] at fresh
      cases fresh
  · rintro - s ⟨broken, -⟩
    exact tended.halted_of_broken broken rfl rfl rfl

theorem Furnished.idle {result : Option Nat} (furnished : Furnished h result h')
    (idle : Idle h' h'') : Furnished h result h'' := by
  refine ⟨furnished.1.trans (idle.tidy furnished.1.tended), fun x found => ?_⟩
  rw [isValid, idle.source, Heap.waiting, idle.tables]
  exact furnished.2 x found

theorem furnishes_alloc (size : Nat) : Furnishes (onSource (Source.alloc size)) :=
  furnishes_onSource (fun _ sound room => Source.alloc_spec sound room size)
    fun _ sound _ => Source.alloc_intact sound size

theorem furnishes_allocGrowing (size : Nat) : Furnishes (allocGrowing size) := by
  have attempts : Furnishes (onSource (Source.allocAndGrow size)) :=
    furnishes_onSource (fun _ sound room => Source.allocAndGrow_spec sound room size)
      fun _ sound _ => Source.allocAndGrow_intact sound size
  intro h tended room
  refine ends_allocGrowing ((attempts h tended room).mono fun _ h' furnished => ?_)
  exact furnished.idle (ends_modify.1 (idles_sizeChanged h'))

theorem findRoom_furnished (tended : h.Tended) (record size : Nat) :
    (findRoom record size).Ends h (Furnished h) fun _ h' => Halted h h' := by
  have room : size < h.source.absoluteMax → 0 < h.config.maximumSize := by
    intro fits
    rw [← tended.sound.maximum]
    omega
  apply ends_findRoom
  case begun => exact ⟨tended.refl, nofun⟩
  case allocs => exact fun fits _ nothing => (furnishes_alloc size).since (room fits) nothing.1
  case grows => exact fun fits _ nothing => (furnishes_allocGrowing size).since (room fits) nothing.1
  case collects =>
    intro soft _ nothing
    exact ((tends_collectFor record soft).since nothing.1).mono fun _ _ tidy => ⟨tidy, nofun⟩

/-- The object waits and is held from now on, as it was asked for. -/
theorem entered_tidy (tended : h.Tended) (live : h.isValid x = true) (fresh : x ∉ h.waiting)
    {finalizable : WorkQueue Nat} {nonCollectable : RefTable} {threads : Safepoint}
    (waits : finalizable = h.tables.finalizable ∨ h.tables.finalizable.push? x = some finalizable)
    (held : nonCollectable = h.nonCollectable ∨ h.nonCollectable.add? x = some nonCollectable) :
    Tidy h { h with tables := { h.tables with finalizable }, nonCollectable, threads } := by
  refine ⟨⟨⟨tended.sound.source, tended.sound.maximum⟩, fun y later => ?_, tended.queued,
    tended.scheduled, fun y later => ?_, ?_⟩, rfl, fun single => ⟨single.once, single.scheduled⟩⟩
  · rcases waits with rfl | push
    · exact tended.waiting y later
    · rcases List.mem_cons.1 ((waiting_push push).mem_iff.1 later) with rfl | before
      · exact live
      · exact tended.waiting y before
  · rcases held with rfl | add
    · exact tended.held y later
    · simp only [RefTable.entries_of_add add, List.mem_append, List.mem_singleton] at later
      rcases later with before | rfl
      · exact tended.held y before
      · exact live
  · rcases waits with rfl | push
    · exact tended.once
    · exact (waiting_push push).nodup_iff.2 (List.nodup_cons.2 ⟨fresh, tended.once⟩)

theorem enter_tidy (tended : h.Tended) (live : h.isValid x = true) (fresh : x ∉ h.waiting)
    (record : Nat) (flags : AllocFlags) : (enter record x flags).Ends h (fun _ h' => Tidy h h')
      fun _ h' => Halted h h' := by
  apply ends_enter
  case full =>
    intro _ _ finalizable waits
    have tidy : Tidy h { h with tables := { h.tables with finalizable } } :=
      entered_tidy tended live fresh waits (.inl rfl)
    exact tidy.halted tidy.tended.halted
  case entered =>
    intro _ _ _ waits held _
    exact entered_tidy tended live fresh (waits.imp And.right And.right) (held.imp And.right And.right)

theorem tends_request (record size : Nat) (flags : AllocFlags) :
    Tends (request record size flags) := by
  refine tends_get fun h tended => ?_
  rw [ends_bind]
  refine (findRoom_furnished tended record size).mono fun result h₁ furnished => ?_
  obtain ⟨tidy, found⟩ := furnished
  have counts : Tends (do
      countIf h.profiling record (Profile.countAlloc size result.isSome)
      return result) := ((idles_countIf _ _ _).then fun _ => idles_pure result).tends
  have counted : ∀ {h₂}, Tidy h h₂ → (do
      countIf h.profiling record (Profile.countAlloc size result.isSome)
      return result : Action Heap (Option Nat)).Ends h₂ (fun _ h' => Tidy h h')
        fun _ h' => Halted h h' := fun sofar =>
    (counts _ sofar.tended).imp (fun _ _ more => sofar.trans more) fun _ _ halted =>
      sofar.halted halted
  cases result with
  | none => exact counted tidy
  | some x =>
    obtain ⟨live, fresh⟩ := found x rfl
    simp only [ends_bind]
    refine (enter_tidy tidy.tended live fresh record flags).imp (fun _ h₂ more => ?_)
      fun _ _ halted => tidy.halted halted
    simpa only [ends_bind] using counted (tidy.trans more)

/-! ### Operations -/

theorem Tends.silent {step : Action Heap α} (tends : Tends step) : Tends (silent step) :=
  tends.then fun _ => tends_pure none

theorem tends_afterZygote : Tends afterZygote := by
  refine (tends_onSource (fun _ sound => Source.afterZygote_spec sound)
    fun s _ => Source.afterZygote_intact s).then fun result => ?_
  cases result with
  | error => exact tends_pure _
  | ok =>
    refine tends_get fun h tended => ?_
    split
    · exact (idles_startWorker.then fun _ => idles_pure _).tends h tended
    · exact tends_pure _ h tended

theorem tends_replaceBitmaps (numbers : List Nat) : Tends (modify (·.replaceBitmaps numbers)) := by
  simp only [replaceBitmaps_eq]
  exact tends_figures (·.replaceCurrent numbers) (fun _ sound => sound.steady_replaceCurrent numbers)
    fun s => s.replaceCurrent_intact numbers

theorem tidy_of_took {calls : List Callback} (took : Took h x calls h') (tended : h.Tended) :
    Tidy h h' := by
  obtain ⟨sound, waiting, queued, scheduled, held, once⟩ := tended
  cases took with
  | reference next =>
    rw [Heap.queued, next, List.map_cons] at queued
    refine ⟨⟨⟨sound.source, sound.maximum⟩, waiting, fun y due =>
      queued y (List.mem_cons_of_mem _ due), scheduled, held, once⟩, rfl, ?_⟩
    rintro ⟨single, known⟩
    rw [Heap.queued, next, List.map_cons] at single known
    exact ⟨(List.nodup_cons.1 single).2, fun r due => known r (List.mem_cons_of_mem _ due)⟩
  | @finalizer pending idle next =>
    have fewer : List.Sublist (h.tables.finalizable.entries ++ pending.entries) h.waiting := by
      rw [Heap.waiting, next]
      exact (List.sublist_cons_self x _).append_left _
    exact ⟨⟨⟨sound.source, sound.maximum⟩, fun y waits => waiting y (fewer.subset waits), queued,
      scheduled, held, once.sublist fewer⟩, rfl, fun single => ⟨single.once, single.scheduled⟩⟩

theorem tends_takeWork : Tends takeWork := by
  intro h tended
  refine (takeWork_took h).imp (fun work h' taken => ?_) fun _ _ => False.elim
  cases work with
  | none =>
    cases (show h' = h from taken)
    exact tended.refl
  | some piece => exact tidy_of_took (show Took h piece.1 piece.2 h' from taken) tended

theorem tends_perform {op : Operation} (plain : op.isWrite = false) : Tends (perform op) := by
  have aside : ∀ {change : Heap → Heap}, (∀ h, Idle h (change h)) →
      Tends (Heap.silent (modify change)) := fun same => (tends_aside same).silent
  cases op with
  | write => cases plain
  | request record size flags => exact tends_request record size flags
  | collect collectSoft => exact (tends_collect collectSoft).silent
  | requestExternal record bytes => exact (tends_requestExternal record bytes).silent
  | freeExternal bytes => exact (tends_resizes (Source.resizes_externalFree bytes)).silent
  | clearFlags record object flags => exact (idles_clearFlags record object flags).tends.silent
  | setMinimum size =>
    exact ((tends_resizes (Source.resizes_setMinimum size)).then fun _ =>
      idles_sizeChanged.tends.then fun _ => tends_pure _).silent
  | trim =>
    refine (tends_onSource (fun s sound => ?_) fun _ sound => Source.trim_intact sound).silent
    refine (Source.trim_spec sound).imp (fun _ _ steady => steady) ?_
    rintro - _ rfl
    exact sound.steady.broken
  | beforeFork =>
    exact (tends_onSource (fun _ sound => Source.beforeFork_spec sound) fun s _ =>
      Source.beforeFork_intact s).silent
  | afterZygote => exact tends_afterZygote.silent
  | attach thread name => exact (idles_attach thread name).tends.silent
  | takeWork => exact tends_takeWork.silent
  | setUtilization ratio =>
    refine (tends_figures (·.setUtilization ratio) (fun s sound => ?_) fun s => ?_).silent
    · exact sound.steady_of_resized ⟨⟨_, rfl⟩, rfl, rfl, rfl, rfl⟩
    · exact Source.Resized.intact ⟨⟨_, rfl⟩, rfl, rfl, rfl, rfl⟩
  | snapshotBitmaps =>
    exact (tends_figures (·.snapshotBitmaps.2) (fun _ sound => Source.snapshotBitmaps_steady sound)
      Source.snapshotBitmaps_intact).silent
  | replaceBitmaps numbers => exact (tends_replaceBitmaps numbers).silent
  | transition record state => exact aside fun h => h.idle_transition record state
  | shutdown record => exact aside fun h => h.idle_shutdown record
  | detach | track | untrack | setRoots | setDebugging | setProfiling | setReporting | pass
  | startCall | endCall => exact aside fun _ => ⟨rfl, rfl, rfl, fun _ kept => kept⟩

omit [ObjectModel] in
/-- What is in the tables lives whatever is written to it. -/
theorem Tended.write (tended : h.Tended) (object index count value : Nat) :
    Tended { h with source := h.source.setWords object index count value } := by
  have steady := tended.sound.source.steady_setWords object index count value
  exact tended.congr ⟨steady.sound, steady.maximum.trans tended.sound.maximum⟩
    (fun x live => (steady.published x).trans live) rfl fun _ kept => kept

theorem perform_tended (tended : h.Tended) (op : Operation) :
    (perform op).Ends h (fun _ h' => h'.Tended) fun _ h' => h'.Tended := by
  cases plain : op.isWrite with
  | false =>
    exact (tends_perform plain h tended).imp (fun _ _ tidy => tidy.tended)
      fun _ _ halted => halted.tended
  | true =>
    cases op with
    | write object index count value =>
      simp only [perform, Heap.silent, ends_bind, ends_modify, ends_pure]
      exact tended.write object index count value
    | _ => cases plain

omit [ObjectModel] in
theorem held_create {config : Config} (run : create config = .ok (.ok h)) :
    h.nonCollectable.entries = [] := by
  obtain ⟨s, -, rfl | rfl⟩ := create_cases run
  · rfl
  · have idle : Idle (begun config s) (startWorker.after (begun config s)) :=
      Relates.after idles_startWorker _
    exact List.eq_nil_iff_forall_not_mem.2 fun x kept => List.not_mem_nil (idle.held x kept)

omit [ObjectModel] in
theorem tended_create {config : Config} (run : create config = .ok (.ok h)) :
    h.Tended ∧ h.tables = {} := by
  obtain ⟨sound, -, -, tables⟩ := sound_create run
  refine ⟨⟨sound, ?_, ?_, ?_, ?_, ?_⟩, tables⟩
  · rw [waiting, tables]
    exact List.forall_mem_nil _
  · rw [queued, tables]
    exact List.forall_mem_nil _
  · rw [tables]
    exact List.forall_mem_nil _
  · rw [held_create run]
    exact List.forall_mem_nil _
  · rw [waiting, tables]
    exact List.nodup_nil

theorem Reachable.tended {config : Config} (reachable : Reachable config h) : h.Tended := by
  induction reachable with
  | create run => exact (tended_create run).1
  | step op _ ih =>
    exact (perform_tended ih op).after Tended (fun _ _ tended => tended) fun _ _ tended => tended

end Heap

end ManagedHeap
