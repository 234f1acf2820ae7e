import ManagedHeap.Proofs.LastResorts
import ManagedHeap.Proofs.LiveTables
import ManagedHeap.Proofs.NewChunks
import ManagedHeap.Proofs.OutOfMemory

/-!
What becomes of a request for an object. Room is looked for step by step, with collections between the
steps. Wherever it is found, the object is handed out in the same way, and where it is not, nothing was
done but the collections.
-/

namespace ManagedHeap

theorem Safepoint.trackedBy_track {s : Safepoint} {number : Nat}
    (known : (s.record? number).isSome = true) (object other : Nat) :
    ((s.track number object).trackedBy other).entries
      = (s.trackedBy other).entries ++ if other = number then [object] else [] := by
  obtain ⟨record, found⟩ := Option.isSome_iff_exists.1 known
  rw [record?] at found
  by_cases same : other = number
  · subst same
    simp [trackedBy, track, modify, record?, found]
  · simp [trackedBy, track, modify, record?, Ne.symm same, same]

namespace Heap

open Action

variable {h h' h'' : Heap} {record size x : Nat} {flags : AllocFlags} {collectSoft : Bool}
  {softs : List Bool} {result : Option Nat}

/-! ### Looking for room -/

/-- No object came or went or was changed, and every list of objects is as it was. -/
structure Still (h h' : Heap) : Prop where
  source : h.source.Still h'.source
  config : h'.config = h.config
  tables : h'.tables = h.tables
  nonCollectable : h'.nonCollectable = h.nonCollectable
  threads : h'.threads = h.threads

theorem Still.tended (still : Still h h') (tended : h.Tended) : h'.Tended := by
  refine tended.congr ⟨still.source.sound, ?_⟩ (fun x live => (still.source.published x).trans live)
    still.tables fun x held => still.nonCollectable ▸ held
  rw [still.source.maximum, still.config, tended.sound.maximum]

/-- Room was found for an object, and nothing else was done. -/
structure Finds (size x : Nat) (h h' : Heap) : Prop where
  issues : h.source.Issues size x h'.source
  config : h'.config = h.config
  tables : h'.tables = h.tables
  nonCollectable : h'.nonCollectable = h.nonCollectable
  threads : h'.threads = h.threads

/-- What an attempt to find room comes to. -/
def Attempted (size : Nat) (h : Heap) (result : Option Nat) (h' : Heap) : Prop :=
  match result with
  | none => Still h h'
  | some x => Finds size x h h'

theorem alloc_attempted (sound : h.source.Sound) (some_room : 0 < h.source.absoluteMax)
    (few : h.source.ceiling < Source.recordable) (size : Nat) :
    (onSource (Source.alloc size)).Ends h (Attempted size h) fun _ _ => True := by
  refine ends_on.2 (((Source.alloc_still sound some_room size).and
    (Source.alloc_issues sound some_room few size)).imp ?_ fun _ _ _ => trivial)
  rintro (_ | x) s ⟨still, issues⟩
  · exact ⟨still rfl, rfl, rfl, rfl, rfl⟩
  · exact ⟨issues x rfl, rfl, rfl, rfl, rfl⟩

theorem allocGrowing_attempted (sound : h.source.Sound) (some_room : 0 < h.source.absoluteMax)
    (few : h.source.ceiling < Source.recordable) (size : Nat) :
    (allocGrowing size).Ends h (Attempted size h) fun _ _ => True := by
  rw [allocGrowing, ends_bind]
  refine ends_on.2 (((Source.allocAndGrow_still sound some_room size).and
    (Source.allocAndGrow_issues sound some_room few size)).imp ?_ fun _ _ _ => trivial)
  intro result s both
  obtain ⟨threshold, policy, same⟩ := sizeChanged_frame { h with source := s }
  rw [ends_bind, ends_modify, ends_pure, same]
  cases result with
  | none => exact ⟨both.1 rfl, rfl, rfl, rfl, rfl⟩
  | some x => exact ⟨both.2 x rfl, rfl, rfl, rfl, rfl⟩

/-- An attempt to find room was made, with the sizes as they are or with the arenas free to grow. -/
def Tries (size : Nat) (h : Heap) (result : Option Nat) (h' : Heap) : Prop :=
  onSource (Source.alloc size) h = .ok result h' ∨ allocGrowing size h = .ok result h'

theorem Tries.attempted (tries : Tries size h result h') (sound : h.source.Sound)
    (some_room : 0 < h.source.absoluteMax) (few : h.source.ceiling < Source.recordable) :
    Attempted size h result h' :=
  tries.elim (alloc_attempted sound some_room few size).ok
    (allocGrowing_attempted sound some_room few size).ok

/-- What may have happened while room was looked for: objects that nothing held were freed. -/
structure Recedes (h h' : Heap) : Prop where
  config : h'.config = h.config
  tended : h'.Tended
  live : ∀ x, h'.isValid x = true → h.isValid x = true
  nonCollectable : h'.nonCollectable = h.nonCollectable
  threads : h'.threads = h.threads

theorem Recedes.trans (first : Recedes h h') (second : Recedes h' h'') : Recedes h h'' where
  config := second.config.trans first.config
  tended := second.tended
  live x here := first.live x (second.live x here)
  nonCollectable := second.nonCollectable.trans first.nonCollectable
  threads := second.threads.trans first.threads

theorem Still.recedes (still : Still h h') (tended : h.Tended) : Recedes h h' where
  config := still.config
  tended := still.tended tended
  live x here := (still.source.published x).symm.trans here
  nonCollectable := still.nonCollectable
  threads := still.threads

theorem Tended.still_counted (tended : h.Tended) (profile : Profile) (mutators : List Mutator) :
    Still h { h with profile, mutators } :=
  ⟨tended.sound.source.still_of_resized (.refl _), rfl, rfl, rfl, rfl⟩

theorem Recedes.maximum (recedes : Recedes h h') (tended : h.Tended) :
    h'.source.absoluteMax = h.source.absoluteMax := by
  rw [recedes.tended.sound.maximum, recedes.config, tended.sound.maximum]

section

variable [ObjectModel]

/-- Room for an object is looked for in vain. Attempts that did nothing and collections follow each other.
The list tells of each collection whether it was to clear soft references. -/
inductive Seeks (record size : Nat) (h : Heap) : List Bool → Heap → Prop where
  | start : Seeks record size h [] h
  | fails {softs : List Bool} {h₁ h₂ : Heap} : Seeks record size h softs h₁ →
    Tries size h₁ none h₂ → Still h₁ h₂ → Seeks record size h softs h₂
  | collect {softs : List Bool} {collectSoft : Bool} {h₁ h₂ : Heap} : Seeks record size h softs h₁ →
    collectFor record collectSoft h₁ = .ok () h₂ → Seeks record size h (softs ++ [collectSoft]) h₂

theorem collectFor_recedes (tended : h.Tended) (record : Nat) (collectSoft : Bool) :
    (collectFor record collectSoft).Ends h (fun _ h' => Recedes h h') fun _ _ => True := by
  have collects : ∀ {h : Heap}, h.Tended →
      (collect collectSoft).Ends h (fun _ h' => Recedes h h') fun _ _ => True := by
    intro h tended
    refine ((tends_collect collectSoft h tended).and (collect_spec tended.sound collectSoft)).imp ?_
      fun _ _ _ => trivial
    rintro - h' ⟨tidy, refused, collected⟩
    cases busy : h.collecting with
    | true =>
      cases refused busy
      exact ⟨rfl, tended, fun _ live => live, rfl, rfl⟩
    | false =>
      obtain ⟨config, threads, -, nonCollectable, collects⟩ := collected busy
      exact ⟨config, tidy.tended, fun x live => (collects.reached x live).live, nonCollectable, threads⟩
  rw [collectFor, ends_bind, ends_get]
  split
  · rw [ends_bind, ends_modify]
    have still := tended.still_counted h.profile.countCollection (h.mutators.map fun m =>
      if m.record = record then { m with profile := m.profile.countCollection } else m)
    exact (collects (still.tended tended)).mono fun _ _ more => (still.recedes tended).trans more
  · exact collects tended

theorem Seeks.recedes (seeks : Seeks record size h softs h') (tended : h.Tended) : Recedes h h' := by
  induction seeks with
  | start => exact ⟨rfl, tended, fun _ live => live, rfl, rfl⟩
  | fails _ _ still ih => exact ih.trans (still.recedes ih.tended)
  | collect _ run ih => exact ih.trans ((collectFor_recedes ih.tended _ _).ok run)

/-- What looking for room comes to. What no heap could hold is refused at once. Otherwise two collections
run before it is given up. -/
inductive Sought (record size : Nat) (h : Heap) : Option Nat → Heap → Prop where
  | refused : h.source.absoluteMax ≤ size → Sought record size h none h
  | exhausted {h' : Heap} : size < h.source.absoluteMax →
    Seeks record size h [false, true] h' → Sought record size h none h'
  | found {softs : List Bool} {x : Nat} {h₀ h' : Heap} : softs <+: [false, true] →
    Seeks record size h softs h₀ → Tries size h₀ (some x) h' → Finds size x h₀ h' →
    Sought record size h (some x) h'

/-- An attempt after some collections. -/
theorem Seeks.tries (seeks : Seeks record size h softs h') (tended : h.Tended)
    (some_room : 0 < h.source.absoluteMax) (few : h.source.ceiling < Source.recordable)
    (early : softs <+: [false, true]) {attempt : Action Heap (Option Nat)}
    (known : ∀ {h h' : Heap} {result}, attempt h = .ok result h' → Tries size h result h') :
    attempt.Ends h' (fun result h'' => (result = none → Seeks record size h softs h'')
      ∧ ∀ x, result = some x → Sought record size h (some x) h'') fun _ _ => True := by
  have recedes := seeks.recedes tended
  have maximum := recedes.maximum tended
  have few' : h'.source.ceiling < Source.recordable := by rwa [Source.ceiling_congr maximum]
  refine ⟨fun {result h''} run => ?_, fun _ => trivial⟩
  have attempted := (known run).attempted recedes.tended.sound.source (maximum ▸ some_room) few'
  cases result with
  | none => exact ⟨fun _ => seeks.fails (known run) attempted, fun _ none => by cases none⟩
  | some x =>
    refine ⟨fun none => (by cases none), ?_⟩
    rintro _ ⟨⟩
    exact .found early seeks (known run) attempted

theorem findRoom_sought (tended : h.Tended) (few : h.source.ceiling < Source.recordable)
    (record size : Nat) : (findRoom record size).Ends h (Sought record size h) fun _ _ => True := by
  have found : ∀ {x : Nat} {h' : Heap}, Sought record size h (some x) h' →
      (pure (some x) : Action Heap (Option Nat)).Ends h' (Sought record size h) fun _ _ => True :=
    fun sought => ends_pure.2 sought
  have collects : ∀ {softs : List Bool} {h₁ : Heap} (soft : Bool), Seeks record size h softs h₁ →
      (collectFor record soft).Ends h₁ (fun _ h₂ => Seeks record size h (softs ++ [soft]) h₂)
        fun _ _ => True :=
    fun soft seeks => ⟨fun run => seeks.collect run, fun _ => trivial⟩
  rw [findRoom, ends_bind, ends_get]
  split
  case isTrue large => exact ends_pure.2 (.refused large)
  case isFalse fits =>
  have fits := Nat.not_le.1 fits
  have some_room := Nat.zero_lt_of_lt fits
  have tries := fun {softs h₁} (seeks : Seeks record size h softs h₁)
    (early : softs <+: [false, true]) => seeks.tries tended some_room few early Or.inl
  have grows := fun {softs h₁} (seeks : Seeks record size h softs h₁)
    (early : softs <+: [false, true]) => seeks.tries tended some_room few early Or.inr
  rw [ends_bind]
  refine (tries .start List.nil_prefix).mono fun result h₁ first => ?_
  cases result with
  | some x => exact found (first.2 x rfl)
  | none =>
  rw [ends_bind]
  refine (collects false (first.1 rfl)).mono fun _ h₂ seeks => ?_
  rw [ends_bind]
  refine (tries seeks (by decide)).mono fun result h₃ second => ?_
  cases result with
  | some x => exact found (second.2 x rfl)
  | none =>
  rw [ends_bind]
  refine (grows (second.1 rfl) (by decide)).mono fun result h₄ third => ?_
  cases result with
  | some x => exact found (third.2 x rfl)
  | none =>
  rw [ends_bind]
  refine (collects true (third.1 rfl)).mono fun _ h₅ seeks => ?_
  refine (grows seeks (by decide)).mono fun result h₆ last => ?_
  cases result with
  | some x => exact last.2 x rfl
  | none => exact .exhausted fits (last.1 rfl)

end

/-! ### Handing the object out -/

/-- The object was entered into the lists that its flags name, and into no others. -/
structure Enters (record x : Nat) (flags : AllocFlags) (h h' : Heap) : Prop where
  source : h'.source = h.source
  finalizable : h'.tables.finalizable.entries
    = h.tables.finalizable.entries ++ if flags.finalizable then [x] else []
  tables : h'.tables = { h.tables with finalizable := h'.tables.finalizable }
  nonCollectable : h'.nonCollectable.entries
    = h.nonCollectable.entries ++ if flags.noCollect then [x] else []
  threads : h'.threads
    = if flags.noCollect || flags.untracked then h.threads else h.threads.track record x

theorem enter_enters (record x : Nat) (flags : AllocFlags) (h : Heap) : (enter record x flags).Ends h
    (fun _ h' => Enters record x flags h h') fun _ _ => True := by
  apply ends_enter
  case full => exact fun _ _ _ _ => trivial
  case entered =>
    intro finalizable nonCollectable threads waits held tracked
    refine ⟨rfl, ?_, rfl, ?_, tracked⟩
    · rcases waits with ⟨plain, rfl⟩ | ⟨asked, push⟩
      · simp [plain]
      · simp [asked, WorkQueue.entries_of_push push]
    · rcases held with ⟨collected, rfl⟩ | ⟨asked, add⟩
      · simp [collected]
      · simp [asked, RefTable.entries_of_add add]

/-- What a program gets with a new object. -/
structure Delivers (record size : Nat) (flags : AllocFlags) (x : Nat) (h h' : Heap) : Prop where
  fresh : h.isValid x = false
  valid : ∀ y, h'.isValid y = true ↔ y = x ∨ h.isValid y = true
  chunk : ∃ usable, h'.source.chunkSize x = .ok usable ∧ size ≤ usable
    ∧ ∀ k < usable / 8, h'.source.word x k = 0
  /-- What the object accounts for lies apart from what any other does, in whatever arena that is. -/
  apart : ∀ y, h.isValid y = true → x + h'.source.charge x ≤ y ∨ y + h'.source.charge y ≤ x
  unchanged : ∀ y, h.isValid y = true → h'.source.payload y = h.source.payload y
  unlisted : x ∉ h.tables.finalizable.entries ∧ x ∉ h.nonCollectable.entries
  finalizable : h'.tables.finalizable.entries
    = h.tables.finalizable.entries ++ if flags.finalizable then [x] else []
  tables : h'.tables = { h.tables with finalizable := h'.tables.finalizable }
  nonCollectable : h'.nonCollectable.entries
    = h.nonCollectable.entries ++ if flags.noCollect then [x] else []
  tracked : ∀ other, (h'.threads.trackedBy other).entries = (h.threads.trackedBy other).entries
    ++ if other = record ∧ flags.noCollect = false ∧ flags.untracked = false then [x] else []

theorem Finds.delivers (finds : Finds size x h h') (tended : h.Tended)
    (known : (h.threads.record? record).isSome = true) (enters : Enters record x flags h' h'') :
    Delivers record size flags x h h'' := by
  have issues := finds.issues
  have sound := issues.sound
  have valid : ∀ y, h'.isValid y = true ↔ y = x ∨ h.isValid y = true := issues.published
  have stale : ∀ {y}, h.isValid y = true → y ≠ x := by
    rintro _ live rfl
    cases issues.fresh.symm.trans live
  have same : ∀ y, h''.isValid y = h'.isValid y := fun y => by
    rw [isValid, enters.source]
    rfl
  refine ⟨issues.fresh, fun y => by rw [same, valid], ?_, fun y live => ?_, fun y live => ?_,
    ⟨fun listed => ?_, fun listed => ?_⟩, ?_, ?_, ?_, fun other => ?_⟩
  · rw [enters.source]
    exact issues.found
  · rw [enters.source]
    exact sound.chunks_apart ((valid x).2 (.inl rfl)) ((valid y).2 (.inr live)) (stale live).symm
  · rw [enters.source]
    exact tended.sound.source.payload_intact sound issues.intact live
  · exact stale (tended.waiting x (List.mem_append_left _ listed)) rfl
  · exact stale (tended.held x listed) rfl
  · rw [enters.finalizable, finds.tables]
  · rw [enters.tables, finds.tables]
  · rw [enters.nonCollectable, finds.nonCollectable]
  · rw [enters.threads, finds.threads]
    cases noCollect : flags.noCollect with
    | true => simp
    | false =>
      cases untracked : flags.untracked with
      | true => simp
      | false => simp [Safepoint.trackedBy_track known]

section

variable [ObjectModel]

/-- A request for an object has come to nothing. It is counted, and that is all where no heap could be large
enough for it. -/
structure GivesUp (record size : Nat) (h h' : Heap) : Prop where
  large : h.source.absoluteMax ≤ size → ∃ profile mutators, h' = { h with profile, mutators }
  tried : size < h.source.absoluteMax → ∃ h₁ profile mutators,
    Seeks record size h [false, true] h₁ ∧ h' = { h₁ with profile, mutators }
  recedes : Recedes h h'

theorem request_delivers (tended : h.Tended) (few : h.source.ceiling < Source.recordable)
    (known : (h.threads.record? record).isSome = true) (size : Nat) (flags : AllocFlags) :
    (request record size flags).Ends h (fun result h' => (result = none → GivesUp record size h h')
      ∧ ∀ x, result = some x → ∃ softs h₀ h₁, softs <+: [false, true]
        ∧ Seeks record size h softs h₀ ∧ Tries size h₀ (some x) h₁
        ∧ Delivers record size flags x h₀ h') fun _ _ => True := by
  rw [request, ends_bind, ends_get, ends_bind]
  refine (findRoom_sought tended few record size).mono fun result h₁ sought => ?_
  cases sought with
  | refused large =>
    rw [ends_bind]
    refine ends_countIf (fun profile mutators => ?_) fun _ _ _ => trivial
    refine ends_pure.2 ⟨fun _ => ⟨fun _ => ⟨_, _, rfl⟩, fun fits => ?_, ?_⟩, fun _ none => by cases none⟩
    · exact absurd large (Nat.not_le.2 fits)
    · exact (tended.still_counted profile mutators).recedes tended
  | exhausted fits seeks =>
    rw [ends_bind]
    refine ends_countIf (fun profile mutators => ?_) fun _ _ _ => trivial
    have recedes := seeks.recedes tended
    have counted := (recedes.tended.still_counted profile mutators).recedes recedes.tended
    refine ends_pure.2 ⟨fun _ => ⟨fun large => ?_, fun _ => ⟨h₁, _, _, seeks, rfl⟩,
      recedes.trans counted⟩, fun _ none => by cases none⟩
    exact absurd large (Nat.not_le.2 fits)
  | @found softs x h₀ _ early seeks tries finds =>
    have recedes := seeks.recedes tended
    rw [ends_bind]
    refine (enter_enters record x flags h₁).mono fun _ h₂ enters => ?_
    rw [ends_bind]
    refine ends_countIf (fun profile mutators => ?_) fun _ _ _ => trivial
    refine ends_pure.2 ⟨fun none => (by cases none), ?_⟩
    rintro _ ⟨⟩
    refine ⟨softs, h₀, h₁, early, seeks, tries, finds.delivers recedes.tended (recedes.threads ▸ known) ?_⟩
    exact ⟨enters.source, enters.finalizable, enters.tables, enters.nonCollectable, enters.threads⟩

end

end Heap

namespace Machine

open Action

section

variable [ObjectModel] {γ : Type} {take : TakeReport γ} {config : Config} {m m' : Machine γ}
  {record size : Nat} {flags : AllocFlags} {result : Except HeapError Nat}

theorem allocate_succeeds {x : Nat} (run : allocate take record size flags m = .ok (.ok x) m') :
    ∃ h, Heap.request record size flags m.heap = .ok (some x) h ∧ m' = { m with heap := h } := by
  have ends : (allocate take record size flags).Ends m (fun result m' => ∀ x, result = .ok x →
      ∃ h, Heap.request record size flags m.heap = .ok (some x) h ∧ m' = { m with heap := h })
      fun _ _ => True := by
    rw [allocate, ends_bind]
    refine ends_on.2 ⟨fun {result h} requested => ?_, fun _ => trivial⟩
    cases result with
    | some x =>
      refine ends_pure.2 ?_
      rintro _ ⟨⟩
      exact ⟨h, requested, rfl⟩
    | none =>
      rw [ends_bind]
      exact ⟨fun _ => ends_pure.2 fun x done => (by cases done), fun _ => trivial⟩
  exact ends.ok run x rfl

/-- An allocation that succeeds delivers an object as it should be, after however many collections it took.
One that fails has done nothing but collect, and not even that where no heap could be large enough, before
the failure is reported. -/
theorem allocate_delivers (reachable : Heap.Reachable config m.heap)
    (small : ∀ a ∈ m.heap.source.arenas, a.space.capacity < Source.recordable)
    (known : (m.heap.threads.record? record).isSome = true)
    (run : allocate take record size flags m = .ok result m') :
    (∀ x, result = .ok x → ∃ softs h h₁, softs <+: [false, true]
        ∧ Heap.Seeks record size m.heap softs h ∧ Heap.Tries size h (some x) h₁
        ∧ Heap.Delivers record size flags x h m'.heap ∧ m' = { m with heap := m'.heap })
      ∧ ∀ e, result = .error e → ∃ h, Heap.request record size flags m.heap = .ok none h
        ∧ reportOutOfMemory take record size { m with heap := h } = .ok e m'
        ∧ Heap.GivesUp record size m.heap h := by
  have few := reachable.source.small small
  have ends := Heap.request_delivers reachable.tended few known size flags
  refine ⟨?_, ?_⟩
  · rintro x rfl
    obtain ⟨h, requested, rfl⟩ := allocate_succeeds run
    obtain ⟨softs, h₀, h₁, early, seeks, tries, delivers⟩ := (ends.ok requested).2 x rfl
    exact ⟨softs, h₀, h₁, early, seeks, tries, delivers, rfl⟩
  · rintro e rfl
    obtain ⟨h, requested, reported⟩ := allocate_fails run
    exact ⟨h, requested, reported, (ends.ok requested).1 rfl⟩

end

/-- A thread that tracks a small object, and a heap that has not grown yet. -/
def sparse : Machine Unit where
  heap := Heap.small.afterAll [.attach 0 "main", .request 0 24 {}]
  client := ()

/-- For a large object there is room once the heap was collected and has grown, and none for one that is
as large as the heap may become. -/
theorem sparse_delivers :
    (∃ m', allocate ignore 0 30000 { finalizable := true } sparse
          = .ok (.ok (Region.arenaBase 0 + 32)) m'
        ∧ m'.heap.cycles = 1
        ∧ ∃ softs h, softs <+: [false, true] ∧ Heap.Seeks 0 30000 sparse.heap softs h
          ∧ Heap.Delivers 0 30000 { finalizable := true } (Region.arenaBase 0 + 32) h m'.heap)
      ∧ ∃ e m' h, allocate ignore 0 65536 {} sparse = .ok (.error e) m'
        ∧ Heap.request 0 65536 {} sparse.heap = .ok none h ∧ Heap.GivesUp 0 65536 sparse.heap h := by
  have reachable : Heap.Reachable Heap.smallConfig sparse.heap := Heap.reachable_small.afterAll _
  have small : ∀ a ∈ sparse.heap.source.arenas, a.space.capacity < Source.recordable := by
    decide +kernel
  have known : (sparse.heap.threads.record? 0).isSome = true := by decide +kernel
  constructor
  · have run := Action.eq_ok_of_result (show (allocate ignore 0 30000 { finalizable := true }).result?
      sparse = some (.ok (Region.arenaBase 0 + 32)) by decide +kernel)
    obtain ⟨softs, h, -, early, seeks, -, delivers, -⟩ :=
      (allocate_delivers reachable small known run).1 _ rfl
    exact ⟨_, run, by decide +kernel, softs, h, early, seeks, delivers⟩
  · have run := Action.eq_ok_of_result (show (allocate ignore 0 65536 {}).result? sparse
      = some (.error (.outOfMemory 65536 false)) by decide +kernel)
    obtain ⟨h, requested, -, givesUp⟩ := (allocate_delivers reachable small known run).2 _ rfl
    exact ⟨_, _, h, run, requested, givesUp⟩

end Machine

end ManagedHeap
