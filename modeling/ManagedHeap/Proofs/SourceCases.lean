import ManagedHeap.Proofs.Actions
import ManagedHeap.Proofs.Chunks
import ManagedHeap.Proofs.Memory
import ManagedHeap.Source.Operation
import Mathlib.Data.List.Forall2

/-!
All that an operation on the arenas can do, told once for each operation by the states that it can leave.
To know that a property outlives an operation it is enough to look at these states.
-/

namespace ManagedHeap

/-- Trimming an arena changes its space alone, in two steps. -/
theorem Arena.trim_eq {a a' : Arena} {released : Nat} (run : a.trim = .ok (released, a')) :
    ∃ above space inside space', a.space.trim 0 = .ok (above, space)
      ∧ space.releaseFreePages = .ok (inside, space') ∧ a' = { a with space := space' } := by
  simp only [Arena.trim, bind, Except.bind, pure, Except.pure] at run
  split at run
  · cases run
  case h_2 both cut =>
    obtain ⟨above, space⟩ := both
    split at run
    · cases run
    case h_2 both' rest =>
      obtain ⟨inside, space'⟩ := both'
      cases run
      exact ⟨above, space, inside, space', cut, rest, rfl⟩

namespace Source

open Action

variable {s : Source} {n x : Nat} {numbers : List Nat}

/-! ### Allocating -/

/-- The source with a chunk placed in its active arena that was not counted. -/
def placed (s : Source) (space : Space) : Source := { s with active := { s.active with space } }

/-- The source with a chunk in its active arena that was counted with so many bytes. -/
def entered (s : Source) (space : Space) (x length : Nat) : Source :=
  modifyBitmap { s with active := { s.active with
      space
      bytes := s.active.bytes + length
      objects := s.active.objects + 1 } }
    s.active.live (·.insert x)

/-- An attempt to allocate does nothing, or places a chunk and counts it. It may break off in between,
or once it is done. -/
theorem ends_alloc {done : Option Nat → Source → Prop} {failed : Source → Prop} (refused : done none s)
    (lodged : ∀ {x space}, s.active.space.calloc n = .ok (some x, space) →
      failed (s.placed space) ∧ ∀ length, done (some x) (s.entered space x length))
    (weaker : ∀ {result s'}, done result s' → failed s') :
    (alloc n).Ends s done fun _ s' => failed s' := by
  simp only [alloc, ends_bind, ends_get]
  rw [ends_ite]
  refine ⟨fun _ => ends_pure.2 refused, fun _ => ?_⟩
  rw [ends_bind, ends_lift]
  refine ⟨?_, fun _ _ => weaker refused⟩
  rintro ⟨found, space⟩ run
  cases found with
  | none => exact ends_pure.2 refused
  | some x =>
    obtain ⟨uncounted, counted⟩ := lodged run
    simp only [countAllocation, ends_bind, ends_get, ends_lift, ends_set, ends_require, ends_pure]
    refine ⟨fun usable _ => ⟨fun bytes sum => ?_, fun _ _ => uncounted⟩, fun _ _ => uncounted⟩
    obtain ⟨-, rfl⟩ := Word.add_eq_ok.1 sum
    have entered := counted (usable.getD 0 + Size.chunkOverhead)
    exact ⟨fun _ => entered, fun _ => weaker entered⟩

/-- The same where pieces lie apart: the chunk is placed in room carved out for it. -/
theorem ends_alloc_carved {done : Option Nat → Source → Prop} {failed : Source → Prop}
    (laid : s.active.space.Laid) (refused : done none s)
    (lodged : ∀ {offset taken needed room}, s.active.space.Carved offset taken room →
      Space.chunkSizeFor n = some needed → needed ≤ taken → failed (s.placed (room.place offset taken n))
        ∧ ∀ length, done (some (s.active.space.base + offset))
            (s.entered (room.place offset taken n) (s.active.space.base + offset) length))
    (weaker : ∀ {result s'}, done result s' → failed s') :
    (alloc n).Ends s done fun _ s' => failed s' := by
  refine ends_alloc refused (fun {x space} run => ?_) weaker
  rcases Space.calloc_cases laid run with
    ⟨none, -⟩ | ⟨offset, taken, needed, room, here, fits, enough, carved, rfl⟩
  · cases none
  · cases here
    exact lodged carved fits enough

/-- Where the arenas are in order, the soft limit or want of room refuses, or what was placed is still to
be counted. -/
theorem Sound.ends_alloc {done : Option Nat → Source → Prop} {failed : Failure → Source → Prop}
    (sound : s.Sound) (limited : s.softLimit ≠ none → done none s)
    (full : s.active.space.calloc n = .ok (none, s.active.space) → done none s)
    (lodged : ∀ {size offset taken room}, Space.chunkSizeFor n = some size →
      s.active.space.MakesRoom size offset taken room →
      s.active.space.calloc n = .ok (some (s.active.space.base + offset), room.place offset taken n) →
      (countAllocation (s.active.space.base + offset)).Ends (s.placed (room.place offset taken n))
        (fun _ s' => done (some (s.active.space.base + offset)) s') failed) :
    (alloc n).Ends s done failed := by
  have laid := (sound.fits _ s.active_mem).laid
  obtain ⟨found, space, run⟩ := Space.calloc_total laid (sound.small _ (mem_sites s.active_mem)) n
  simp only [alloc, ends_bind, ends_get]
  rw [ends_ite]
  refine ⟨fun crosses => ends_pure.2 (limited fun unlimited => ?_), fun _ => ?_⟩
  · rw [unlimited] at crosses
    cases crosses
  rw [ends_bind, ends_lift_of_ok run]
  rcases Space.calloc_eq run with ⟨rfl, rfl⟩ | ⟨size, offset, taken, room, fits, rfl, makes, rfl⟩
  · exact ends_pure.2 (full run)
  · simp only [ends_bind, ends_set, ends_pure]
    exact lodged fits makes run

/-! ### Freeing -/

/-- Freeing takes an address out of the account of the arena that has it. A chunk there is given back if
the arena is the active one. -/
theorem ends_free {done failed : Source → Prop} (unknown : s.arenaIndex? x = none → done s)
    (broken : failed s)
    (uncounted : ∀ {index a usable}, s.arenas[index]? = some a →
      (s.bitmap a.live).mayContain x = true → a.space.usableSize? x = .ok usable →
      (index = 0 → a.space.release? x = none) →
      done (s.uncount index x (usable.getD 0 + Size.chunkOverhead)))
    (released : ∀ {usable length space}, (s.bitmap s.active.live).mayContain x = true →
      s.active.space.usableSize? x = .ok usable → s.active.space.release? x = some (length, space) →
      done ((s.uncount 0 x (usable.getD 0 + Size.chunkOverhead)).placed space)) :
    (free x).Ends s (fun _ s' => done s') fun _ s' => failed s' := by
  simp only [free, ends_bind, ends_get]
  cases found : s.arenaIndex? x with
  | none => exact ends_pure.2 (unknown found)
  | some index =>
    obtain ⟨a, here, covered⟩ := arenaIndex_spec found
    dsimp only
    rw [getD_arenas here, ends_bind, ends_lift]
    refine ⟨fun usable measured => ?_, fun _ _ => broken⟩
    rw [ends_bind, ends_set, ends_pure]
    cases index with
    | succ i => exact uncounted here covered measured fun first => absurd first (Nat.succ_ne_zero i)
    | zero =>
      cases here
      rw [if_pos rfl, releaseChunk]
      cases release : s.active.space.release? x with
      | none =>
        rw [show (s.uncount 0 x _).active.space.release? x = none from release]
        exact uncounted rfl covered measured fun _ => release
      | some both =>
        obtain ⟨length, space⟩ := both
        rw [show (s.uncount 0 x _).active.space.release? x = some (length, space) from release]
        exact released covered measured release

/-! ### Trimming -/

theorem forall₂_of_mapM {α β : Type} {f : α → Except Defect β} {l : List α} {l' : List β}
    (run : l.mapM f = .ok l') : List.Forall₂ (fun a b => a ∈ l ∧ f a = .ok b) l l' := by
  induction l generalizing l' with
  | nil =>
    cases run
    exact .nil
  | cons first rest ih =>
    rw [List.mapM_cons] at run
    simp only [bind, Except.bind, pure, Except.pure] at run
    split at run
    · cases run
    case h_2 here value =>
      split at run
      · cases run
      case h_2 others values =>
        cases run
        refine .cons ⟨List.mem_cons_self, value⟩ ((ih values).imp ?_)
        exact fun _ _ both => ⟨List.mem_cons_of_mem _ both.1, both.2⟩

/-- Trimming trims every arena. -/
theorem ends_trim {done failed : Source → Prop} (broken : failed s)
    (cut : ∀ {active frozen}, List.Forall₂ (fun a a' => a ∈ s.arenas ∧ ∃ released,
      a.trim = .ok (released, a')) s.arenas (active :: frozen) → done { s with active, frozen }) :
    trim.Ends s (fun _ s' => done s') fun _ s' => failed s' := by
  simp only [trim, ends_bind, ends_get, ends_lift]
  refine ⟨fun trimmed run => ?_, fun _ _ => broken⟩
  have each : List.Forall₂ (fun a a' => a ∈ s.arenas ∧ ∃ released, a.trim = .ok (released, a'))
      s.arenas (trimmed.map Prod.snd) :=
    List.forall₂_map_right_iff.2 ((forall₂_of_mapM run).imp fun _ _ both => ⟨both.1, _, both.2⟩)
  cases trimmed with
  | nil => cases each
  | cons first rest =>
    simp only [ends_bind, ends_set, ends_pure]
    exact cut each

/-! ### Splitting an arena off -/

/-- An arena was split off: a fresh one is in front, and the one that was active stays at the footprint
that it has. -/
structure SplitOff (s : Source) (a : Arena) (map : Bitmap) (allowed : Nat) (s' : Source) : Prop where
  few : s.arenas.length < Size.maxArenas
  room : s.footprint + Size.minFree < s.absoluteMax
  made : freshArena s.arenas.length Size.minFree (s.absoluteMax - s.footprint) s.bitmaps.length
    = .ok (.ok (a, map))
  pinned : s.active.space.setAllowed s.active.footprint = .ok { s.active.space with allowed }
  pushed : s' = publish { s with
    active := a
    frozen := { s.active with space := { s.active.space with allowed } } :: s.frozen
    bitmaps := s.bitmaps ++ [map] }

theorem ends_addArena {done failed : Source → Prop} (same : done s) (broken : failed s)
    (split : ∀ {a map allowed s'}, s.SplitOff a map allowed s' → done s') :
    addArena.Ends s (fun _ s' => done s') fun _ s' => failed s' := by
  simp only [addArena, pushArena, ends_bind, ends_get, ends_ite, ends_throw, ends_pure]
  refine ⟨fun _ => broken, fun few => ⟨fun _ => same, fun room => ?_⟩⟩
  rw [ends_lift]
  refine ⟨fun made make => ?_, fun _ _ => broken⟩
  cases made with
  | error => exact ends_pure.2 same
  | ok both =>
    obtain ⟨a, map⟩ := both
    simp only [ends_bind, ends_get, ends_lift, ends_set, ends_modify, ends_pure]
    refine ⟨fun space run => ?_, fun _ _ => broken⟩
    obtain ⟨allowed, rfl⟩ := Space.setAllowed_frame run
    exact split ⟨Nat.lt_of_not_le few, Nat.lt_of_not_le room, make, run, rfl⟩

theorem ends_beforeFork {done : Source → Prop} {failed : Failure → Source → Prop} (same : done s)
    (added : addArena.Ends { s with zygoteSplit := true } (fun _ s' => done s') failed) :
    beforeFork.Ends s (fun _ s' => done s') failed := by
  simp only [beforeFork, ends_bind, ends_get, ends_ite, ends_modify, ends_pure]
  refine ⟨fun _ => same, fun _ => added.mono fun result s' reached => ?_⟩
  cases result <;> exact ends_pure.2 reached

theorem ends_afterZygote {done : Source → Prop} {failed : Failure → Source → Prop} (same : done s)
    (added : addArena.Ends s (fun _ s' => done s') failed) :
    afterZygote.Ends s (fun _ s' => done s') failed := by
  simp only [afterZygote, ends_bind, ends_get, ends_ite, ends_pure]
  refine ⟨fun _ => same, fun _ => added.mono fun result s' reached => ?_⟩
  cases result <;> exact ends_pure.2 reached

/-! ### Copies of bitmaps -/

theorem snapshotBitmaps_frame (s : Source) :
    ∃ extra, s.snapshotBitmaps.2 = { s with bitmaps := s.bitmaps ++ extra } := by
  have fold : ∀ (l : List Arena) (numbers : List Nat) (extra : List Bitmap),
      ∃ extra', (l.foldl snapshotBitmap (numbers, { s with bitmaps := s.bitmaps ++ extra })).2
        = { s with bitmaps := s.bitmaps ++ extra' } := by
    intro l
    induction l with
    | nil => exact fun _ extra => ⟨extra, rfl⟩
    | cons first rest ih =>
      intro numbers extra
      simp only [List.foldl_cons, snapshotBitmap, addBitmap, List.append_assoc]
      exact ih _ _
  have start := fold s.arenas [] []
  rwa [List.append_nil] at start

/-- The copies of the live bitmaps stand behind all others. -/
theorem snapshotBitmaps_eq (known : ∀ a ∈ s.arenas, a.live < s.bitmaps.length) : s.snapshotBitmaps
    = (List.range' s.bitmaps.length s.arenas.length,
      { s with bitmaps := s.bitmaps ++ s.arenas.map fun a => (s.bitmap a.live).copy }) := by
  have fold : ∀ (l : List Arena) (numbers : List Nat) (extra : List Bitmap),
      (∀ a ∈ l, a.live < s.bitmaps.length) →
      l.foldl snapshotBitmap (numbers, { s with bitmaps := s.bitmaps ++ extra })
        = (numbers ++ List.range' (s.bitmaps.length + extra.length) l.length,
          { s with bitmaps := s.bitmaps ++ (extra ++ l.map fun a => (s.bitmap a.live).copy) }) := by
    intro l
    induction l with
    | nil => simp
    | cons first rest ih =>
      intro numbers extra known
      have here : bitmap { s with bitmaps := s.bitmaps ++ extra } first.live = s.bitmap first.live := by
        simp only [bitmap, List.getD_eq_getElem?_getD,
          List.getElem?_append_left (known first List.mem_cons_self)]
      have step : snapshotBitmap (numbers, { s with bitmaps := s.bitmaps ++ extra }) first
          = (numbers ++ [s.bitmaps.length + extra.length],
            { s with bitmaps := s.bitmaps ++ (extra ++ [(s.bitmap first.live).copy]) }) := by
        simp only [snapshotBitmap, addBitmap, here, List.length_append, List.append_assoc]
      rw [List.foldl_cons, step, ih _ _ fun a member => known a (List.mem_cons_of_mem _ member)]
      simp [List.range'_succ, Nat.add_assoc]
  have start := fold s.arenas [] [] known
  simpa [snapshotBitmaps] using start

/-! ### Exchanging bitmaps -/

/-- There is one bitmap per arena, each over the arena's range. -/
def Takes (s : Source) (numbers : List Nat) : Prop :=
  List.Forall₂ (fun a number => (s.bitmap a.live).sameRange (s.bitmap number) = true) s.arenas numbers

theorem takes_iff : s.Takes numbers
    ↔ (numbers.length == s.arenas.length && (s.arenas.zip numbers).all fun pair =>
      (s.bitmap pair.1.live).sameRange (s.bitmap pair.2)) = true := by
  rw [Takes, List.forall₂_iff_zip, Bool.and_eq_true, beq_iff_eq, List.all_eq_true, eq_comm]
  exact and_congr_right fun _ => ⟨fun each pair member => each member, fun each a b member =>
    each (a, b) member⟩

/-- An exchange that is refused changes nothing. -/
theorem replaceBitmaps_refused (refused : ¬s.Takes numbers) :
    s.replaceBitmaps numbers = (false, numbers, s) := by
  rw [takes_iff, Bool.not_eq_true] at refused
  unfold replaceBitmaps
  dsimp only
  rw [refused]

theorem replaceBitmaps_taken {first : Nat} {rest : List Nat} (takes : s.Takes (first :: rest)) :
    s.replaceBitmaps (first :: rest) = (true, s.arenas.map Arena.live, publish { s with
      active := { s.active with live := first }
      frozen := s.frozen.zipWith (fun a number => { a with live := number }) rest }) := by
  rw [takes_iff] at takes
  unfold replaceBitmaps
  dsimp only
  rw [takes]

/-- Other numbers of bitmaps in a list of arenas, where a view of each arena stays what it was. -/
theorem map_zipWith_live {β : Type} (view : Arena → β) {l : List Arena} {numbers : List Nat}
    (length : numbers.length = l.length)
    (same : ∀ pair ∈ l.zip numbers, view { pair.1 with live := pair.2 } = view pair.1) :
    (l.zipWith (fun a number => { a with live := number }) numbers).map view = l.map view := by
  induction l generalizing numbers with
  | nil => rfl
  | cons first rest ih =>
    cases numbers with
    | nil => cases length
    | cons number others =>
      have here : view { first with live := number } = view first := same _ List.mem_cons_self
      rw [List.zipWith_cons_cons, List.map_cons, List.map_cons, here,
        ih (Nat.succ.inj length) fun pair later => same pair (List.mem_cons_of_mem _ later)]

/-- An exchange gives the arenas other live bitmaps, or does nothing. -/
theorem replaceBitmaps_frame (s : Source) (numbers : List Nat) : ∃ active frozen published,
    (s.replaceBitmaps numbers).2.2 = { s with active, frozen, published } := by
  unfold replaceBitmaps
  dsimp only
  split
  · exact ⟨_, _, _, rfl⟩
  · exact ⟨_, _, _, rfl⟩

/-- What does not depend on which bitmap is the live one stays as it is in an exchange. -/
theorem map_replaceBitmaps {β : Type} (view : Arena → β) (same : ∀ pair ∈ s.arenas.zip numbers,
    view { pair.1 with live := pair.2 } = view pair.1) :
    (s.replaceBitmaps numbers).2.2.arenas.map view = s.arenas.map view := by
  by_cases takes : s.Takes numbers
  · obtain _ | ⟨first, rest⟩ := numbers
    · cases takes
    · rw [replaceBitmaps_taken takes]
      exact map_zipWith_live view (List.Forall₂.length_eq takes).symm same
  · rw [replaceBitmaps_refused takes]

theorem replaceCurrent_cases (s : Source) (numbers : List Nat) : s.replaceCurrent numbers = s
    ∨ s.areCurrent numbers = true ∧ s.replaceCurrent numbers = (s.replaceBitmaps numbers).2.2 := by
  unfold replaceCurrent
  split
  case isTrue current => exact .inr ⟨current, rfl⟩
  case isFalse => exact .inl rfl

theorem replaceCurrent_frame (s : Source) (numbers : List Nat) : ∃ active frozen published,
    s.replaceCurrent numbers = { s with active, frozen, published } := by
  rcases s.replaceCurrent_cases numbers with same | ⟨-, same⟩
  · exact ⟨_, _, _, same⟩
  · rw [same]
    exact s.replaceBitmaps_frame numbers

/-- What does not depend on which of the bitmaps with the same members is the live one. -/
theorem map_replaceCurrent {β : Type} (view : Arena → β)
    (same : ∀ (a : Arena) number, (s.bitmap number).members = (s.bitmap a.live).members →
      view { a with live := number } = view a) :
    (s.replaceCurrent numbers).arenas.map view = s.arenas.map view := by
  rcases s.replaceCurrent_cases numbers with refused | ⟨current, taken⟩
  · rw [refused]
  · rw [areCurrent, List.all_eq_true] at current
    rw [taken]
    exact map_replaceBitmaps view fun pair member => same _ _ (eq_of_beq (current pair member))

/-! ### Generations -/

/-- A generation is put on a record in the arena that has the address, if there is one. -/
theorem setGeneration_cases (s : Source) (x generation : Nat) : s.setGeneration x generation = s
    ∨ ∃ i, s.setGeneration x generation
      = s.modifyArena i fun a => { a with space := a.space.setGeneration x generation } := by
  unfold setGeneration
  split
  case h_1 i _ => exact .inr ⟨i, rfl⟩
  case h_2 => exact .inl rfl

theorem setGeneration_frame (s : Source) (x generation : Nat) :
    ∃ active frozen, s.setGeneration x generation = { s with active, frozen } := by
  rcases s.setGeneration_cases x generation with same | ⟨i, same⟩
  · exact ⟨_, _, same⟩
  · rw [same]
    exact s.modifyArena_frame i _

/-- What depends on the lengths on record alone stays as it is. -/
theorem map_setGeneration {β : Type} (view : Arena → β)
    (same : ∀ (a : Arena) chunks, Space.recorded? { a.space with chunks } = a.space.recorded? →
      view { a with space := { a.space with chunks } } = view a) (s : Source) (x generation : Nat) :
    (s.setGeneration x generation).arenas.map view = s.arenas.map view := by
  rcases s.setGeneration_cases x generation with unchanged | ⟨i, changed⟩
  · rw [unchanged]
  · rw [changed]
    refine map_modifyArena fun a => ?_
    obtain ⟨chunks, stamped, recorded⟩ := a.space.setGeneration_frame x generation
    rw [stamped] at recorded ⊢
    exact same a chunks (funext recorded)

/-! ### External memory -/

/-- External memory is counted, or nothing is done. It may break off before and after. -/
theorem ends_externalAlloc {done : Bool → Source → Prop} {failed : Source → Prop}
    (refused : done false s) (broken : failed s) (charged : ∀ externalLimit,
      done true { s with externalBytes := s.externalBytes + n, externalLimit }
        ∧ failed { s with externalBytes := s.externalBytes + n, externalLimit }) (grow : Bool) :
    (externalAlloc n grow).Ends s done fun _ s' => failed s' := by
  simp only [externalAlloc, ends_bind, ends_get, ends_require, ends_lift, ends_ite, ends_set,
    ends_modify, ends_pure]
  refine ⟨fun _ => ⟨fun bytes sum => ?_, fun _ _ => broken⟩, fun _ => broken⟩
  obtain ⟨-, rfl⟩ := Word.add_eq_ok.1 sum
  refine ⟨fun _ => (charged _).1, fun _ => ⟨fun _ => refused, fun _ => ?_⟩⟩
  exact ⟨fun _ _ => (charged _).1, fun _ _ => (charged _).2⟩

theorem ends_externalFree {done : Source → Prop} (uncharged : ∀ externalLimit,
      done { s with externalBytes := s.externalBytes - min n s.externalBytes, externalLimit }) :
    (externalFree n).Ends s (fun _ s' => done s') fun _ s' => done s' := by
  simp only [externalFree, ends_bind, ends_get, ends_lift, ends_ite, ends_set, ends_modify, ends_pure]
  exact ⟨fun _ _ => ⟨fun _ => uncharged _, fun _ => uncharged _⟩, fun _ _ => uncharged _⟩

end Source

end ManagedHeap
