import Mathlib.Data.Set.Card
import ManagedHeap.Object
import ManagedHeap.Proofs.ChronicleRuns
import ManagedHeap.Proofs.Consistency

/-!
That no object gets lost in the counts. Whatever was allocated is counted by its arena until a sweep
frees it, and by the heap from then on.
-/

namespace ManagedHeap

namespace Word

theorem total_append (values values' : List Nat) :
    total (values ++ values') = total values + total values' := List.sum_append ..

end Word

namespace Source

open Action

variable {s s' s'' : Source} {a : Arena} {m x i n n' b b' freed : Nat}

/-! ### The counts of all arenas -/

/-- What an object accounts for: its usable bytes and the bookkeeping of its chunk. -/
def charge (s : Source) (x : Nat) : Nat := (s.chunkSize x).toOption.getD 0 + Size.chunkOverhead

theorem figure_objects (s : Source) :
    s.figure .objects = Word.total (s.ledgers.map Ledger.objects) := by
  rw [ledgers, List.map_map]
  rfl

theorem figure_bytes (s : Source) : s.figure .bytes = Word.total (s.ledgers.map Ledger.bytes) := by
  rw [ledgers, List.map_map]
  rfl

/-- The counts of all arenas are the same. -/
def CountsAlike (s s' : Source) : Prop :=
  s'.figure .objects = s.figure .objects ∧ s'.figure .bytes = s.figure .bytes

theorem countsAlike_of_ledgers (same : s'.ledgers = s.ledgers) : CountsAlike s s' := by
  constructor
  · rw [figure_objects, figure_objects, same]
  · rw [figure_bytes, figure_bytes, same]

theorem Undisturbed.countsAlike (undisturbed : Undisturbed s s') : CountsAlike s s' := by
  obtain ⟨fresh, blank, ledgers⟩ := undisturbed
  have nothing : ∀ f : Ledger → Nat, (∀ l ∈ fresh, f l = 0) → Word.total (fresh.map f) = 0 := by
    intro f zero
    apply List.sum_eq_zero
    simpa using zero
  constructor
  · rw [figure_objects, figure_objects, ledgers, List.map_append, Word.total_append,
      nothing _ fun l member => (blank l member).objects, Nat.zero_add]
  · rw [figure_bytes, figure_bytes, ledgers, List.map_append, Word.total_append,
      nothing _ fun l member => (blank l member).bytes, Nat.zero_add]

/-- What an object accounts for is the recorded length of its chunk. -/
theorem Tallied.charge_eq (tallied : s.Tallied) (sound : s.Sound) (member : a ∈ s.arenas)
    (live : (s.bitmap a.live).test x = true) : s.charge x = (s.ledger a).charge x := by
  have found := sound.arenaOf_eq member (Bitmap.mayContain_of_test live)
  obtain ⟨usable, measured, charge⟩ := tallied.usableSize sound member live
  rw [Source.charge, chunkSize, found]
  simp only [measured, bind, Except.bind, pure, Except.pure, Except.toOption, Option.getD_some]
  exact charge

/-- A new object is counted with what it accounts for. -/
theorem Entered.counts (entered : Entered s (some x) s') (sound' : s'.Sound) (tallied' : s'.Tallied) :
    s'.figure .objects = s.figure .objects + 1
      ∧ s'.figure .bytes = s.figure .bytes + s'.charge x := by
  obtain ⟨length, l', enters, ledgers⟩ := entered
  have own : s'.ledger s'.active = l' := (List.cons.inj ledgers).1
  have member : x ∈ (s'.bitmap s'.active.live).members := by
    change x ∈ (s'.ledger s'.active).members
    rw [own, enters.members.mem_iff]
    exact List.mem_cons_self
  have charge : s'.charge x = length := by
    rw [tallied'.charge_eq sound' s'.active_mem ((sound'.bitmap_sound s'.active_mem).mem_members.1 member),
      own, Ledger.charge, enters.recorded, enters.region, if_pos rfl, Option.getD_some]
  have ledgers' : s'.ledgers = l' :: s.frozen.map s.ledger := ledgers
  have before : s.ledgers = s.ledger s.active :: s.frozen.map s.ledger := rfl
  have objects := enters.objects
  have bytes := enters.bytes
  rw [figure_objects, figure_objects, figure_bytes, figure_bytes, ledgers', before, charge]
  simp only [List.map_cons, Word.total_cons]
  omega

/-- An object that is gone is counted no more. -/
theorem Removed.counts (removed : Removed s x freed s') (sound : s.Sound) (tallied : s.Tallied) :
    s'.figure .objects + 1 = s.figure .objects ∧ s'.figure .bytes + freed = s.figure .bytes := by
  obtain ⟨i, a, l', here, bit, rfl, leaves, ledgers, -⟩ := removed
  have member := mem_arenas_of_getElem here
  have before : s.ledgers[i]? = some (s.ledger a) := by
    rw [Source.ledgers, List.getElem?_map, here, Option.map_some]
  have enough := (tallied.exact a member).charge_le ((sound.bitmap_sound member).mem_members.2 bit)
  have changed : ∀ f : Ledger → Nat, Word.total (s'.ledgers.map f) + f (s.ledger a)
      = Word.total (s.ledgers.map f) + f l' := by
    intro f
    rw [ledgers, List.map_set]
    apply Word.total_set
    rw [List.getElem?_map, before, Option.map_some]
  have objects := changed Ledger.objects
  have bytes := changed Ledger.bytes
  rw [leaves.objects] at objects
  rw [leaves.bytes] at bytes
  rw [figure_objects, figure_objects, figure_bytes, figure_bytes]
  omega

/-! ### Freeing -/

/-- So many objects are gone, that were counted with so many bytes. -/
structure Sheds (number freed : Nat) (s s' : Source) : Prop where
  sound : s'.Sound
  tallied : s'.Tallied
  sites : s'.sites = s.sites
  live : ∀ y, s'.isPublished y = true → s.isPublished y = true
  objects : s'.figure .objects + number = s.figure .objects
  bytes : s'.figure .bytes + freed = s.figure .bytes
  gone : {y | s.isPublished y = true ∧ s'.isPublished y = false}.encard = number

theorem Sheds.trans (first : Sheds n b s s') (second : Sheds n' b' s' s'') :
    Sheds (n + n') (b + b') s s'' where
  sound := second.sound
  tallied := second.tallied
  sites := second.sites.trans first.sites
  live y live := first.live y (second.live y live)
  objects := by rw [← first.objects, ← second.objects]; omega
  bytes := by rw [← first.bytes, ← second.bytes]; omega
  gone := by
    have split : {y | s.isPublished y = true ∧ s''.isPublished y = false}
        = {y | s.isPublished y = true ∧ s'.isPublished y = false}
          ∪ {y | s'.isPublished y = true ∧ s''.isPublished y = false} := by
      ext y
      constructor
      · rintro ⟨before, gone⟩
        cases still : s'.isPublished y with
        | true => exact .inr ⟨still, gone⟩
        | false => exact .inl ⟨before, still⟩
      · rintro (⟨before, gone⟩ | ⟨still, gone⟩)
        · refine ⟨before, ?_⟩
          rw [← Bool.not_eq_true]
          intro later
          rw [second.live y later] at gone
          cases gone
        · exact ⟨first.live y still, gone⟩
    have apart : Disjoint {y | s.isPublished y = true ∧ s'.isPublished y = false}
        {y | s'.isPublished y = true ∧ s''.isPublished y = false} := by
      rw [Set.disjoint_left]
      rintro y ⟨-, dead⟩ ⟨live, -⟩
      rw [live] at dead
      cases dead
    rw [split, Set.encard_union_eq apart, first.gone, second.gone, Nat.cast_add]

end Source

/-- The action does not break off with a defect. -/
def Action.isFlawless {σ α : Type} (a : Action σ α) (s : σ) : Bool :=
  match a s with
  | .error (.defect _) _ => false
  | _ => true

/-! ### The phases of a collection -/

namespace Cycle

open Action Source

variable {c : Cycle}

variable [ObjectModel]

end Cycle

namespace Happening

/-- The object that was allocated, and what it accounts for. -/
def allocation? : Happening → Option (Nat × Nat)
  | .allocated x h => some (x, h.source.charge x)
  | _ => none

/-- The objects that were freed and their bytes. -/
def freed? : Happening → Option (Nat × Nat)
  | .phases _ _ freed _ => freed
  | _ => none

/-- The objects that were ever allocated, each with what it accounts for. -/
def allocations (past : List Happening) : List (Nat × Nat) := past.filterMap allocation?

/-- The objects and the bytes that each collection has freed. -/
def freed (past : List Happening) : List (Nat × Nat) := past.filterMap freed?

theorem allocations_append (past : List Happening) (e : Happening) :
    allocations (past ++ [e]) = allocations past ++ e.allocation?.toList := by
  rw [allocations, List.filterMap_append]
  cases same : e.allocation? <;> simp [same, allocations]

theorem freed_append (past : List Happening) (e : Happening) :
    freed (past ++ [e]) = freed past ++ e.freed?.toList := by
  rw [freed, List.filterMap_append]
  cases same : e.freed? <;> simp [same, freed]

end Happening

namespace Chronicle

open Action Happening

variable {c c' : Chronicle} {h h' : Heap} {past : List Happening} {e : Happening} {config : Config}
  {m x : Nat}

/-- What was allocated is counted by an arena, or among what collections have freed. -/
structure Conserved (c : Chronicle) : Prop where
  objects : (allocations c.past).length = c.heap.source.figure .objects + c.heap.objectsFreed
  bytes : Word.total ((allocations c.past).map Prod.snd)
    = c.heap.source.figure .bytes + c.heap.bytesFreed
  objectsFreed : c.heap.objectsFreed = Word.total ((freed c.past).map Prod.fst)
  bytesFreed : c.heap.bytesFreed = Word.total ((freed c.past).map Prod.snd)
  /-- A collection frees as many objects as there are addresses that it turns from valid to not. -/
  collections : ∀ soft h (objects bytes : Nat) h', .phases soft h (some (objects, bytes)) h' ∈ c.past →
    {x | h.isValid x = true ∧ h'.isValid x = false}.encard = objects

theorem Conserved.congr (conserved : Conserved { heap := h, past })
    (alike : Source.CountsAlike h.source h'.source) (objectsFreed : h'.objectsFreed = h.objectsFreed)
    (bytesFreed : h'.bytesFreed = h.bytesFreed) : Conserved { heap := h', past } where
  objects := by
    change _ = h'.source.figure .objects + h'.objectsFreed
    rw [alike.1, objectsFreed]
    exact conserved.objects
  bytes := by
    change _ = h'.source.figure .bytes + h'.bytesFreed
    rw [alike.2, bytesFreed]
    exact conserved.bytes
  objectsFreed := objectsFreed.trans conserved.objectsFreed
  bytesFreed := bytesFreed.trans conserved.bytesFreed
  collections := conserved.collections

/-- What comes to pass next is counted as it is written down. -/
theorem Conserved.noted (conserved : Conserved { heap := h, past })
    (objects : h'.source.figure .objects + h'.objectsFreed
      = h.source.figure .objects + h.objectsFreed + e.allocation?.toList.length)
    (bytes : h'.source.figure .bytes + h'.bytesFreed
      = h.source.figure .bytes + h.bytesFreed + Word.total (e.allocation?.toList.map Prod.snd))
    (objectsFreed : h'.objectsFreed = h.objectsFreed + Word.total (e.freed?.toList.map Prod.fst))
    (bytesFreed : h'.bytesFreed = h.bytesFreed + Word.total (e.freed?.toList.map Prod.snd))
    (collections : ∀ soft h₁ (objects bytes : Nat) h₂, .phases soft h₁ (some (objects, bytes)) h₂ = e →
      {x | h₁.isValid x = true ∧ h₂.isValid x = false}.encard = objects) :
    Conserved { heap := h', past := past ++ [e] } := by
  obtain ⟨objects₀, bytes₀, objectsFreed₀, bytesFreed₀, collections₀⟩ := conserved
  constructor
  · rw [allocations_append, List.length_append, objects₀]
    exact objects.symm
  · rw [allocations_append, List.map_append, Word.total_append, bytes₀]
    exact bytes.symm
  · rw [freed_append, List.map_append, Word.total_append, ← objectsFreed₀]
    exact objectsFreed
  · rw [freed_append, List.map_append, Word.total_append, ← bytesFreed₀]
    exact bytesFreed
  · intro soft h₁ objects bytes h₂ member
    rcases List.mem_append.1 member with old | new
    · exact collections₀ soft h₁ objects bytes h₂ old
    · exact collections soft h₁ objects bytes h₂ (List.mem_singleton.1 new)

/-- What is neither an allocation nor a collection. -/
theorem Conserved.aside (conserved : Conserved { heap := h, past }) (allocates : e.allocation? = none)
    (frees : e.freed? = none) : Conserved { heap := h, past := past ++ [e] } := by
  refine conserved.noted ?_ ?_ ?_ ?_ ?_
  · simp [allocates]
  · simp [allocates]
  · simp [frees]
  · simp [frees]
  · rintro soft h₁ objects bytes h₂ rfl
    cases frees

/-! ### Over whole runs -/

/-- What holds between any two operations, as long as none breaks off with a defect. -/
structure Counted (m : Nat) (c : Chronicle) : Prop extends Conserved c where
  governed : c.heap.source.Governed m
  tallied : c.heap.source.Tallied

theorem Counted.congr (counted : Counted m { heap := h, past }) (governed : h'.source.Governed m)
    (undisturbed : Source.Undisturbed h.source h'.source) (objectsFreed : h'.objectsFreed = h.objectsFreed)
    (bytesFreed : h'.bytesFreed = h.bytesFreed) : Counted m { heap := h', past } where
  toConserved := counted.toConserved.congr undisturbed.countsAlike objectsFreed bytesFreed
  governed := governed
  tallied := by
    obtain ⟨fresh, blank, ledgers⟩ := undisturbed
    exact counted.tallied.congr blank ledgers

theorem Counted.aside (counted : Counted m { heap := h, past }) (allocates : e.allocation? = none)
    (frees : e.freed? = none) : Counted m { heap := h, past := past ++ [e] } :=
  ⟨counted.toConserved.aside allocates frees, counted.governed, counted.tallied⟩

/-- How soft references are treated does not matter. -/
theorem counted_sizeChanged (h : Heap) : h.sizeChanged.source = h.source
    ∧ h.sizeChanged.objectsFreed = h.objectsFreed ∧ h.sizeChanged.bytesFreed = h.bytesFreed := by
  obtain ⟨_, _, same⟩ := h.sizeChanged_frame
  rw [same]
  exact ⟨rfl, rfl, rfl⟩

theorem Counted.reviewed (counted : Counted m c) : Counted m c.reviewed := by
  obtain ⟨source, objectsFreed, bytesFreed⟩ := counted_sizeChanged c.heap
  have noted : Counted m (c.note (.review c.heap)) := counted.aside rfl rfl
  refine noted.congr ?_ ?_ objectsFreed bytesFreed
  · exact source.symm ▸ counted.governed
  · exact source.symm ▸ Source.undisturbed_of_eq rfl

/-- A new object is counted by its arena. -/
theorem Counted.entered (counted : Counted m { heap := h, past }) (governed : h'.source.Governed m)
    (entered : Source.Entered h.source (some x) h'.source) (objectsFreed : h'.objectsFreed = h.objectsFreed)
    (bytesFreed : h'.bytesFreed = h.bytesFreed) :
    Counted m { heap := h', past := past ++ [.allocated x h'] } := by
  have tallied := counted.tallied.entered entered
  obtain ⟨objects, bytes⟩ := entered.counts governed.sound tallied
  refine ⟨counted.toConserved.noted ?_ ?_ objectsFreed bytesFreed ?_, governed, tallied⟩
  · change _ = _ + _ + 1
    omega
  · change _ = _ + _ + (h'.source.charge x + 0)
    omega
  · intro _ _ _ _ _ other
    cases other

/-- What a collection frees it counts itself. -/
theorem Counted.collected {h₂ : Heap} {objects bytes : Nat} (counted : Counted m { heap := h, past })
    (soft : Bool) (sheds : Source.Sheds objects bytes h.source h₂.source)
    (governed : h'.source.Governed m) (ledgers : h'.source.ledgers = h₂.source.ledgers)
    (objectsFreed : h'.objectsFreed = h.objectsFreed) (bytesFreed : h'.bytesFreed = h.bytesFreed) :
    Counted m { heap := h'.countCycle objects bytes
                past := past ++ [.phases soft h (some (objects, bytes)) h₂] } := by
  have alike := Source.countsAlike_of_ledgers ledgers
  refine ⟨counted.toConserved.noted ?_ ?_ ?_ ?_ ?_, governed, sheds.tallied.of_eq ledgers⟩
  · change h'.source.figure .objects + (h'.objectsFreed + objects) = _ + _ + 0
    rw [alike.1, objectsFreed, ← sheds.objects]
    omega
  · change h'.source.figure .bytes + (h'.bytesFreed + bytes) = _ + _ + 0
    rw [alike.2, bytesFreed, ← sheds.bytes]
    omega
  · exact congrArg (· + objects) objectsFreed
  · exact congrArg (· + bytes) bytesFreed
  · intro soft' h₁ objects' bytes' h₂' same
    cases same
    exact sheds.gone

variable [ObjectModel]

/-- The chronicles of heaps with this configuration, kept from the beginning, as long as no operation
ends with a defect. -/
inductive Flawless (config : Config) : Chronicle → Prop where
  | create {h : Heap} : Heap.create config = .ok (.ok h) → Flawless config { heap := h }
  | step {c : Chronicle} (op : Heap.Operation) :
    Flawless config c → (perform op).isFlawless c = true → Flawless config ((perform op).after c)

theorem Flawless.reachable (flawless : Flawless config c) : Reachable config c := by
  induction flawless with
  | create run => exact .create run
  | step op _ _ ih => exact ih.step op

/-- No operation breaks off with a defect. -/
def allFlawless (c : Chronicle) : List Heap.Operation → Bool
  | [] => true
  | op :: rest => (perform op).isFlawless c && ((perform op).after c).allFlawless rest

theorem Flawless.afterAll (flawless : Flawless config c) {ops : List Heap.Operation}
    (all : c.allFlawless ops = true) : Flawless config (c.afterAll ops) := by
  induction ops generalizing c with
  | nil => exact flawless
  | cons op rest ih =>
    rw [allFlawless, Bool.and_eq_true] at all
    exact ih (flawless.step op all.1) all.2

theorem Upholds.flawless {p : Chronicle → Prop} {gained : Nat → Chronicle → Prop}
    (upholds : Upholds m (fun cause => ∀ defect, cause ≠ .defect defect) p gained)
    (start : ∀ h, Heap.create config = .ok (.ok h) → p { heap := h })
    (flawless : Flawless config c) : p c := by
  induction flawless with
  | create run => exact start _ run
  | @step c op _ sound ih =>
    have ends := upholds.perform op c ih
    rw [Action.after]
    split
    case h_1 answer c' run => exact ends.ok run
    case h_2 cause c' run =>
      refine ends.error run ?_
      rintro defect rfl
      rw [Action.isFlawless, run] at sound
      cases sound

/-! ### What is answered -/

/-- Nothing is allocated. -/
def Barren {α : Type} (a : Action Chronicle α) : Prop :=
  ∀ known, a.Preserves fun c => allocations c.past = known

section

omit [ObjectModel]

variable {α β : Type}

theorem Barren.then {a : Action Chronicle α} {next : α → Action Chronicle β} (first : Barren a)
    (rest : ∀ value, Barren (next value)) : Barren (a >>= next) :=
  fun known => (first known).then fun value => rest value known

/-- An answer that tells of no object, from an action that allocates none. -/
theorem Barren.answers {a : Action Chronicle α} (barren : Barren a) (answer : α → Answer)
    (silent : ∀ value, (answer value).object? = none) (c : Chronicle) : (answer <$> a).Ends c
      (fun answer c' => (allocations c'.past).map Prod.fst
        = (allocations c.past).map Prod.fst ++ answer.object?.toList) fun _ _ => True := by
  rw [ends_map]
  refine (barren _ c rfl).imp (fun value c' same => ?_) fun _ _ _ => trivial
  rw [same, silent value]
  exact (List.append_nil _).symm

end

end Chronicle

end ManagedHeap
