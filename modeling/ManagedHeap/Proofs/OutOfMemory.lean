import ManagedHeap.Heap.Callbacks
import ManagedHeap.Proofs.ChronicleRuns
import ManagedHeap.Proofs.Contents
import ManagedHeap.Proofs.HeldReferences
import ManagedHeap.Proofs.SoftReferences

/-!
What has been tried when it is reported that memory has run out. Two collections have run, and the second
let go of every soft reference that could be let go of.
-/

namespace ManagedHeap

namespace Source

variable [ObjectModel] {s s' s'' : Source} {x : Nat}

/-- No object came or went or was changed. -/
structure Still (s s' : Source) : Prop extends Steady s s' where
  payload : ∀ x, s.isPublished x = true → s'.payload x = s.payload x

omit [ObjectModel] in
theorem Still.trans (first : Still s s') (second : Still s' s'') : Still s s'' where
  toSteady := first.toSteady.trans second.toSteady
  payload x live :=
    (second.payload x ((first.published x).trans live)).trans (first.payload x live)

omit [ObjectModel] in
theorem Sound.still_of_resized (sound : s.Sound) (resized : Resized s s') : Still s s' :=
  ⟨sound.steady_of_resized resized, fun x _ => payload_congr resized.memory x⟩

omit [ObjectModel] in
theorem Steady.still (steady : Steady s s') (sound : s.Sound) (intact : s.Intact s') : Still s s' :=
  ⟨steady, fun _ live => sound.payload_intact steady.sound intact live⟩

omit [ObjectModel] in
theorem alloc_still (sound : s.Sound) (some_room : 0 < s.absoluteMax) (n : Nat) : (alloc n).Ends s
    (fun result s' => result = none → Still s s') fun _ _ => True := by
  refine ((alloc_spec sound some_room n).and (alloc_intact sound n)).imp ?_ fun _ _ _ => trivial
  rintro _ s' ⟨steady, intact⟩ rfl
  exact Steady.still steady sound intact

omit [ObjectModel] in
theorem allocAndGrow_still (sound : s.Sound) (some_room : 0 < s.absoluteMax) (n : Nat) :
    (allocAndGrow n).Ends s (fun result s' => result = none → Still s s') fun _ _ => True := by
  refine ((allocAndGrow_spec sound some_room n).and
    (allocAndGrow_intact sound n)).imp ?_ fun _ _ _ => trivial
  rintro _ s' ⟨steady, intact⟩ rfl
  exact Steady.still steady sound intact

/-- What is left are objects that were there, and of references the kind and whether they clear
themselves are what they were. -/
structure Thins (s s' : Source) : Prop where
  sound : s'.Sound
  maximum : s'.absoluteMax = s.absoluteMax
  live : ∀ x, s'.isPublished x = true → s.isPublished x = true
  kind : ∀ x, s'.isPublished x = true → s'.kind? x = s.kind? x
  clearsItself : ∀ x, s'.isPublished x = true → s'.clearsItself x = s.clearsItself x

theorem Thins.trans (first : Thins s s') (second : Thins s' s'') : Thins s s'' where
  sound := second.sound
  maximum := second.maximum.trans first.maximum
  live x here := first.live x (second.live x here)
  kind x here := (second.kind x here).trans (first.kind x (second.live x here))
  clearsItself x here :=
    (second.clearsItself x here).trans (first.clearsItself x (second.live x here))

theorem Still.thins (still : Still s s') : Thins s s' := by
  have live : ∀ x, s'.isPublished x = true → s.isPublished x = true :=
    fun x here => (still.published x).symm.trans here
  refine ⟨still.sound, still.maximum, live, fun x here => ?_, fun x here => ?_⟩
  · rw [kind?, still.payload x (live x here), kind?]
  · rw [clearsItself, still.payload x (live x here), clearsItself]

theorem Obliging.thins (obliging : s.Obliging) (thins : Thins s s') : s'.Obliging :=
  fun r here isSoft => (thins.clearsItself r here).trans
    (obliging r (thins.live r here) ((thins.kind r here).symm.trans isSoft))

end Source

theorem Collects.thins [ObjectModel] {roots : List Nat} {s s' : Source} {t t' : WorkTables}
    (collects : Collects roots s t s' t') : s.Thins s' where
  sound := collects.sound
  maximum := collects.maximum
  live x here := (collects.reached x here).live
  kind x here := (collects.kept x here).kind
  clearsItself x here := (collects.kept x here).clearsItself

namespace Heap

open Action

variable [ObjectModel] {h : Heap}

/-- What must be held when all soft references are let go of. -/
def FirmlyHeld (h : Heap) : Nat → Prop := h.source.Strong h.rootSet h.tables.scheduled .clearAll

theorem runCycle_collects (sound : h.source.Sound) (collectSoft : Bool) : (runCycle collectSoft).Ends h
    (fun _ h' => Collects h.rootSet h.source h.tables h'.source h'.tables) fun _ _ => True := by
  simp only [runCycle, ends_bind, ends_get, ends_on]
  exact (Cycle.run_spec sound rfl _ _).imp (fun _ _ collects => collects) fun _ _ _ => trivial

theorem runCycle_softens (sound : h.source.Sound) (obliging : h.source.Obliging) :
    (runCycle true).Ends h (fun _ h' => (∀ x, h.FirmlyHeld x → h'.source.isPublished x = true)
      ∧ h.source.Softened h.rootSet h.tables.scheduled h'.source) fun _ _ => True := by
  simp only [runCycle, ends_bind, ends_get, ends_on]
  exact Cycle.run_softens sound rfl obliging h.rootSet

end Heap

/-- Is it a collection? -/
def Happening.isPhases : Happening → Bool
  | .phases .. => true
  | _ => false

namespace Chronicle

open Action

variable [ObjectModel] {c c' c'' : Chronicle} {record size : Nat} {collectSoft : Bool}

/-- The collections that have run, so far as they came to their phases. -/
def collections (c : Chronicle) : List Happening := c.past.filter Happening.isPhases

/-- No collection ran, and no object came or went or was changed. -/
structure Waits (c c' : Chronicle) : Prop where
  still : c.heap.source.Still c'.heap.source
  collecting : c'.heap.collecting = c.heap.collecting
  cycles : c'.heap.cycles = c.heap.cycles
  collections : c'.collections = c.collections

omit [ObjectModel] in
theorem Waits.trans (first : Waits c c') (second : Waits c' c'') : Waits c c'' where
  still := first.still.trans second.still
  collecting := second.collecting.trans first.collecting
  cycles := second.cycles.trans first.cycles
  collections := second.collections.trans first.collections

omit [ObjectModel] in
theorem alloc_waits (sound : c.heap.source.Sound) (some_room : 0 < c.heap.source.absoluteMax)
    (size : Nat) : (within (Heap.onSource (Source.alloc size))).Ends c
      (fun result c' => result = none → Waits c c') fun _ _ => True := by
  refine ends_on.2 (ends_on.2 ?_)
  refine (Source.alloc_still sound some_room size).mono fun result s still failed => ?_
  exact ⟨still failed, rfl, rfl, rfl⟩

omit [ObjectModel] in
theorem reviewed_waits (sound : c.heap.source.Sound) : Waits c c.reviewed := by
  obtain ⟨threshold, policy, same⟩ := Heap.sizeChanged_frame c.heap
  refine ⟨?_, ?_, ?_, ?_⟩
  · rw [reviewed, same]
    exact sound.still_of_resized (.refl _)
  · rw [reviewed, same]
  · rw [reviewed, same]
  · rw [collections, collections, reviewed, note, List.filter_append]
    exact List.append_nil _

omit [ObjectModel] in
theorem allocGrowing_waits (sound : c.heap.source.Sound)
    (some_room : 0 < c.heap.source.absoluteMax) (size : Nat) : (allocGrowing size).Ends c
      (fun result c' => result = none → Waits c c') fun _ _ => True := by
  rw [allocGrowing, ends_bind]
  refine ends_on.2 (ends_on.2 ?_)
  refine (Source.allocAndGrow_still sound some_room size).mono fun result s still => ?_
  rw [ends_bind, ends_review, ends_pure]
  intro failed
  have grown : Waits c { c with heap := { c.heap with source := s } } :=
    ⟨still failed, rfl, rfl, rfl⟩
  exact grown.trans (reviewed_waits grown.still.sound)

/-- What a collection has done that found the heap `h` when it began to mark and left `h'` to be looked
at. -/
structure Runs (collectSoft : Bool) (c : Chronicle) (h : Heap) (freed : Nat × Nat) (h' : Heap)
    (c' : Chronicle) : Prop where
  source : h.source = c.heap.source
  phases : Heap.runCycle collectSoft h = .ok freed h'
  still : h'.source.Still c'.heap.source
  collecting : c'.heap.collecting = false
  cycles : c'.heap.cycles = c.heap.cycles + 1
  collections : c'.collections = c.collections ++ [.phases collectSoft h (some freed) h']

omit [ObjectModel] in
/-- What becomes of a heap between the phases of a collection and its being counted does not matter here,
as long as it waits. -/
theorem Waits.runs [ObjectModel] {h h' : Heap} {s : Source} {objects bytes : Nat}
    (waits : Waits { heap := { h' with source := s }, past := c.past ++
      [.phases collectSoft h (some (objects, bytes)) h'] } c')
    (source : h.source = c.heap.source)
    (phases : Heap.runCycle collectSoft h = .ok (objects, bytes) h')
    (still : h'.source.Still s) (cycles : h'.cycles = c.heap.cycles) :
    Runs collectSoft c h (objects, bytes) h' (c'.counted objects bytes) where
  source := source
  phases := phases
  still := still.trans waits.still
  collecting := rfl
  cycles := congrArg (· + 1) (waits.cycles.trans cycles)
  collections := waits.collections.trans (List.filter_append _ _)

theorem collect_runs (sound : c.heap.source.Sound) (idle : c.heap.collecting = false)
    (collectSoft : Bool) : (collect collectSoft).Ends c
      (fun _ c' => ∃ h freed h', Runs collectSoft c h freed h' c') fun _ _ => True := by
  refine (collect_cases c collectSoft).imp ?_ fun _ _ _ => trivial
  rintro - c' (⟨busy, -⟩ | ⟨-, h₁, objects, bytes, h₂, s, unmoved, ran, grown, rfl⟩)
  · rw [idle] at busy
    cases busy
  have sound₂ := ((Heap.runCycle_collects (unmoved.source ▸ sound) collectSoft).ok ran).sound
  have still := sound₂.still_of_resized ((Source.resizes_growForUtilization _).ok grown)
  obtain ⟨cycle, rfl⟩ := (Heap.runCycle_frame h₁ collectSoft).ok ran
  exact ⟨h₁, (objects, bytes), _, (reviewed_waits still.sound).runs unmoved.source ran still
    unmoved.cycles⟩

theorem collectFor_runs (sound : c.heap.source.Sound) (idle : c.heap.collecting = false)
    (record : Nat) (collectSoft : Bool) : (collectFor record collectSoft).Ends c
      (fun _ c' => ∃ h freed h', Runs collectSoft c h freed h' c') fun _ _ => True := by
  rw [collectFor, ends_bind]
  refine ends_on.2 (ends_get.2 ?_)
  dsimp only
  split
  · rw [ends_bind]
    refine ends_on.2 (ends_modify.2 ?_)
    refine (collect_runs (by exact sound) (by exact idle) collectSoft).mono ?_
    rintro - c' ⟨h, freed, h', source, phases, still, collecting, cycles, collections⟩
    exact ⟨h, freed, h', source, phases, still, collecting, cycles, collections⟩
  · exact collect_runs sound idle collectSoft

theorem Runs.thins {h h' : Heap} {freed : Nat × Nat} (runs : Runs collectSoft c h freed h' c')
    (sound : c.heap.source.Sound) : c.heap.source.Thins c'.heap.source := by
  have collects := (Heap.runCycle_collects (runs.source ▸ sound) collectSoft).ok runs.phases
  exact (runs.source ▸ collects.thins).trans runs.still.thins

/-- All has been tried: two collections ran, the second let go of soft references, and those that it had
to hold refer to nothing any more but what it had to hold as well. -/
def Exhausts (c c' : Chronicle) : Prop :=
  c'.heap.cycles = c.heap.cycles + 2 ∧ ∃ h₁ freed₁ h₂ h₃ freed₂ h₄,
    c'.collections
      = c.collections ++ [.phases false h₁ (some freed₁) h₂, .phases true h₃ (some freed₂) h₄]
    ∧ ∀ r y, h₃.FirmlyHeld r → h₃.source.kind? r = some .soft → r ∉ h₃.tables.scheduled →
      c'.heap.source.referent? r = some y → h₃.source.referent? r = some y ∧ h₃.FirmlyHeld y

theorem findRoom_exhausts (sound : c.heap.source.Sound) (idle : c.heap.collecting = false)
    (obliging : c.heap.source.Obliging) (fits : size < c.heap.source.absoluteMax) :
    (findRoom record size).Ends c (fun result c' => result = none → Exhausts c c')
      fun _ _ => True := by
  have found : ∀ {x : Nat} {c' : Chronicle}, (pure (some x) : Action Chronicle (Option Nat)).Ends c'
      (fun result c' => result = none → Exhausts c c') fun _ _ => True :=
    fun {x c'} => ends_pure.2 fun failed => by cases failed
  have some_room : ∀ {s : Source}, c.heap.source.Thins s → 0 < s.absoluteMax :=
    fun thins => thins.maximum ▸ Nat.zero_lt_of_lt fits
  rw [findRoom, ends_bind]
  refine ends_on.2 (ends_get.2 ?_)
  rw [if_neg (Nat.not_le.2 fits), ends_bind]
  refine (alloc_waits sound (Nat.zero_lt_of_lt fits) size).mono fun result c₁ waits₁ => ?_
  cases result with
  | some x => exact found
  | none =>
  have waits₁ := waits₁ rfl
  have thins₁ := waits₁.still.thins
  rw [ends_bind]
  refine (collectFor_runs thins₁.sound (waits₁.collecting.trans idle) record false).mono ?_
  rintro - c₂ ⟨h₁, freed₁, h₂, first⟩
  have thins₂ := thins₁.trans (first.thins thins₁.sound)
  rw [ends_bind]
  refine (alloc_waits thins₂.sound (some_room thins₂) size).mono fun result c₃ waits₃ => ?_
  cases result with
  | some x => exact found
  | none =>
  have waits₃ := waits₃ rfl
  have thins₃ := thins₂.trans waits₃.still.thins
  rw [ends_bind]
  refine (allocGrowing_waits thins₃.sound (some_room thins₃) size).mono fun result c₄ waits₄ => ?_
  cases result with
  | some x => exact found
  | none =>
  have waits := waits₃.trans (waits₄ rfl)
  have thins₄ := thins₂.trans waits.still.thins
  rw [ends_bind]
  refine (collectFor_runs thins₄.sound (waits.collecting.trans first.collecting) record true).mono ?_
  rintro - c₅ ⟨h₃, freed₂, h₄, second⟩
  have thins₅ := thins₄.trans (second.thins thins₄.sound)
  refine (allocGrowing_waits thins₅.sound (some_room thins₅) size).mono ?_
  intro result c₆ waits₆ failed
  have waits₆ := waits₆ failed
  obtain ⟨survive, softened⟩ := (Heap.runCycle_softens (second.source ▸ thins₄.sound)
    (second.source ▸ obliging.thins thins₄)).ok second.phases
  refine ⟨?_, h₁, freed₁, h₂, h₃, freed₂, h₄, ?_, fun r y held isSoft unscheduled refers => ?_⟩
  · rw [waits₆.cycles, second.cycles, waits.cycles, first.cycles, waits₁.cycles]
  · rw [waits₆.collections, second.collections, waits.collections, first.collections,
      waits₁.collections, List.append_assoc]
    rfl
  · rw [Source.referent?, (second.still.trans waits₆.still).payload r (survive r held)] at refers
    exact softened r y held isSoft unscheduled refers

theorem Exhausts.unmoved {h : Heap} (exhausts : Exhausts c c') (unmoved : Heap.Unmoved c'.heap h) :
    Exhausts c { c' with heap := h } := by
  obtain ⟨cycles, h₁, freed₁, h₂, h₃, freed₂, h₄, collections, cleared⟩ := exhausts
  refine ⟨unmoved.cycles.trans cycles, h₁, freed₁, h₂, h₃, freed₂, h₄, collections, ?_⟩
  rw [unmoved.source]
  exact cleared

theorem request_exhausts (sound : c.heap.source.Sound) (idle : c.heap.collecting = false)
    (obliging : c.heap.source.Obliging) (fits : size < c.heap.source.absoluteMax)
    (record : Nat) (flags : AllocFlags) : (request record size flags).Ends c
      (fun result c' => result = none → Exhausts c c') fun _ _ => True := by
  have whatever : ∀ {α : Type} {a : Action Chronicle α} {c : Chronicle},
      a.Ends c (fun _ _ => True) fun _ _ => True := ⟨fun _ => trivial, fun _ => trivial⟩
  rw [request, ends_bind]
  refine ends_on.2 (ends_get.2 ?_)
  rw [ends_bind]
  refine (findRoom_exhausts sound idle obliging fits).mono fun result c₁ exhausts => ?_
  cases result with
  | some x =>
    rw [ends_bind, ends_modify, ends_bind]
    refine whatever.mono fun _ c₂ _ => ?_
    rw [ends_bind]
    exact whatever.mono fun _ c₃ _ => ends_pure.2 fun failed => by cases failed
  | none =>
    rw [ends_bind]
    refine ends_on.2 ((Heap.rests_countIf _ _ _ _).imp ?_ fun _ _ _ => trivial)
    exact fun _ h unmoved => ends_pure.2 fun failed => (exhausts failed).unmoved unmoved

end Chronicle

namespace Machine

open Action

section

variable [ObjectModel] {γ : Type} {take : TakeReport γ} {config : Config} {m m' : Machine γ}
  {record size : Nat} {flags : AllocFlags} {e : HeapError}

/-- Where there is no room the request has failed before anything is reported. -/
theorem allocate_fails (run : allocate take record size flags m = .ok (.error e) m') :
    ∃ h, Heap.request record size flags m.heap = .ok none h
      ∧ reportOutOfMemory take record size { m with heap := h } = .ok e m' := by
  have ends : (allocate take record size flags).Ends m (fun result m' => ∀ e, result = .error e →
      ∃ h, Heap.request record size flags m.heap = .ok none h
        ∧ reportOutOfMemory take record size { m with heap := h } = .ok e m') fun _ _ => True := by
    rw [allocate, ends_bind]
    refine ends_on.2 ⟨fun {result h} requested => ?_, fun _ => trivial⟩
    cases result with
    | some x => exact ends_pure.2 fun e failed => by cases failed
    | none =>
      rw [ends_bind]
      refine ⟨fun {e m'} reported => ends_pure.2 fun e' same => ?_, fun _ => trivial⟩
      cases same
      exact ⟨h, requested, reported⟩
  exact ends.ok run e rfl

/-- Before it is reported that memory has run out, exactly two collections have run. Of the soft
references that were reachable from the roots over children and the referents of scheduled references
when the second began to mark, and were not scheduled themselves, each refers to nothing now, unless what
it refers to was reachable in this way as well. -/
theorem soft_references_cleared (reachable : Heap.Reachable config m.heap)
    (idle : m.heap.collecting = false) (obliging : m.heap.source.Obliging)
    (fits : size < m.heap.source.absoluteMax)
    (run : allocate take record size flags m = .ok (.error e) m') :
    ∃ decided, Chronicle.request record size flags { heap := m.heap } = .ok none decided
      ∧ reportOutOfMemory take record size { m with heap := decided.heap } = .ok e m'
      ∧ decided.heap.cycles = m.heap.cycles + 2 ∧ ∃ h₁ freed₁ h₂ h₃ freed₂ h₄,
        decided.collections = [.phases false h₁ (some freed₁) h₂, .phases true h₃ (some freed₂) h₄]
        ∧ ∀ r y, h₃.FirmlyHeld r → h₃.source.kind? r = some .soft → r ∉ h₃.tables.scheduled →
          decided.heap.source.referent? r = some y →
          h₃.source.referent? r = some y ∧ h₃.FirmlyHeld y := by
  obtain ⟨h, requested, reported⟩ := allocate_fails run
  let c : Chronicle := { heap := m.heap }
  have follows := Chronicle.erases_request record size flags c
  have exhausts := Chronicle.request_exhausts (c := c) reachable.sound.1.source idle obliging fits
    record flags
  cases ran : Chronicle.request record size flags c with
  | error cause decided => cases (follows.error ran).symm.trans requested
  | ok result decided =>
    cases (follows.ok ran).symm.trans requested
    obtain ⟨cycles, rest⟩ := exhausts.ok ran rfl
    exact ⟨decided, rfl, reported, cycles, rest⟩

end

/-- A soft reference that is tracked, an object that only it refers to, and little room beside them. -/
def crowded : Machine Unit where
  heap := Heap.small.afterAll (Heap.softPair ++ [.request 0 30000 {}])
  client := ()

/-- Whatever is reported, it is left at that. -/
def ignore : TakeReport Unit := fun _ _ => pure ()

theorem crowded_cleared : ∃ e m' decided, allocate ignore 0 40000 {} crowded = .ok (.error e) m'
    ∧ Chronicle.request 0 40000 {} { heap := crowded.heap } = .ok none decided
    ∧ decided.heap.cycles = crowded.heap.cycles + 2
    ∧ crowded.heap.source.referent? (Region.arenaBase 0) = some (Region.arenaBase 0 + 32)
    ∧ decided.heap.source.referent? (Region.arenaBase 0) = none := by
  have reachable : Heap.Reachable Heap.smallConfig crowded.heap := Heap.reachable_small.afterAll _
  have obliging : crowded.heap.source.Obliging := by
    have each : ∀ r ∈ crowded.heap.source.objects, crowded.heap.source.kind? r = some .soft →
        crowded.heap.source.clearsItself r = false := by decide +kernel
    exact fun r live => each r (reachable.sound.1.source.mem_objects.2 live)
  have failed : (match allocate ignore 0 40000 {} crowded with
      | .ok (.error _) _ => true
      | _ => false) = true := by decide +kernel
  cases run : allocate ignore 0 40000 {} crowded with
  | error => rw [run] at failed; cases failed
  | ok result m' =>
  cases result with
  | ok => rw [run] at failed; cases failed
  | error e =>
  obtain ⟨decided, requested, -, cycles, -⟩ := soft_references_cleared reachable (by decide +kernel)
    obliging (by decide +kernel) run
  refine ⟨e, m', decided, rfl, requested, cycles, by decide +kernel, ?_⟩
  have reached : decided = (Chronicle.request 0 40000 {}).after { heap := crowded.heap } := by
    rw [Action.after, requested]
  rw [reached]
  decide +kernel

end Machine

end ManagedHeap
