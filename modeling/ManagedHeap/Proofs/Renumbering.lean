import ManagedHeap.Heap.Handles
import ManagedHeap.Proofs.Contents
import ManagedHeap.Proofs.Simulations
import ManagedHeap.Source.Operation

/-!
Bitmaps under other numbers. The arenas refer to bitmaps by number, and to which number a bitmap stands
under nothing that is done to the arenas depends.
-/

namespace ManagedHeap

/-- New numbers for bitmaps, and what is found at those numbers that none got. -/
structure Renumbering where
  number : Nat → Nat
  injective : Function.Injective number
  other : Nat → Bitmap

/-- The bitmaps stand under the new numbers, and those that will be made go on to do so. -/
structure Renumbering.Fits (ρ : Renumbering) (maps maps' : List Bitmap) : Prop where
  bitmap : ∀ n, maps'.getD (ρ.number n) default = maps.getD n default
  fresh : ∀ n, ρ.number (maps.length + n) = maps'.length + n
  other : ∀ n, (∀ m, ρ.number m ≠ n) → maps'.getD n default = ρ.other n

namespace Renumbering

variable {ρ : Renumbering} {maps maps' : List Bitmap} {n m : Nat}

theorem Fits.lt_iff (fits : ρ.Fits maps maps') : ρ.number n < maps'.length ↔ n < maps.length := by
  -- The numbers of bitmaps still to come are those from the length of the list on, here and there.
  constructor
  · intro known
    by_contra beyond
    obtain ⟨j, rfl⟩ := Nat.exists_eq_add_of_le (Nat.not_lt.1 beyond)
    rw [fits.fresh] at known
    omega
  · intro known
    by_contra beyond
    obtain ⟨j, number⟩ := Nat.exists_eq_add_of_le (Nat.not_lt.1 beyond)
    have same : n = maps.length + j := ρ.injective (number.trans (fits.fresh j).symm)
    omega

theorem getD_concat (maps : List Bitmap) (map : Bitmap) (n : Nat) :
    (maps ++ [map]).getD n default = if n = maps.length then map else maps.getD n default := by
  rw [List.getD_eq_getElem?_getD, List.getD_eq_getElem?_getD, List.getElem?_append]
  split
  case isTrue known => rw [if_neg (Nat.ne_of_lt known)]
  case isFalse beyond =>
    split
    case isTrue last => simp [last]
    case isFalse other =>
      have far : [map].length ≤ n - maps.length := by
        rw [List.length_singleton]
        omega
      rw [List.getElem?_eq_none far, List.getElem?_eq_none (Nat.not_lt.1 beyond)]

theorem getD_modify (maps : List Bitmap) (change : Bitmap → Bitmap) (n m : Nat) :
    (maps.modify n change).getD m default
      = if m = n ∧ n < maps.length then change (maps.getD n default) else maps.getD m default := by
  rw [List.getD_eq_getElem?_getD, List.getD_eq_getElem?_getD, List.getD_eq_getElem?_getD,
    List.getElem?_modify]
  by_cases same : n = m
  · subst same
    by_cases known : n < maps.length
    · simp [known]
    · simp [known]
  · rw [if_neg fun both => same both.1.symm]
    simp [same]

theorem Fits.append (fits : ρ.Fits maps maps') (map : Bitmap) :
    ρ.Fits (maps ++ [map]) (maps' ++ [map]) where
  bitmap n := by
    have last : ρ.number n = maps'.length ↔ n = maps.length := by
      rw [← Nat.add_zero maps'.length, ← fits.fresh 0]
      exact ρ.injective.eq_iff
    rw [getD_concat, getD_concat, fits.bitmap]
    exact if_congr last rfl rfl
  fresh n := by
    rw [List.length_append, List.length_append, List.length_singleton, Nat.add_assoc, fits.fresh,
      Nat.add_assoc]
  other n unused := by
    have before : n ≠ maps'.length := fun last => unused _ ((fits.fresh 0).trans last.symm)
    rw [getD_concat, if_neg before]
    exact fits.other n unused

theorem Fits.modify (fits : ρ.Fits maps maps') (n : Nat) (change : Bitmap → Bitmap) :
    ρ.Fits (maps.modify n change) (maps'.modify (ρ.number n) change) where
  bitmap m := by
    rw [getD_modify, getD_modify, fits.bitmap, fits.bitmap]
    exact if_congr (and_congr ρ.injective.eq_iff fits.lt_iff) rfl rfl
  fresh m := by
    rw [List.length_modify, List.length_modify]
    exact fits.fresh m
  other m unused := by
    rw [getD_modify, if_neg fun both => unused n both.1.symm]
    exact fits.other m unused

end Renumbering

/-- The arena with another number for its bitmap. -/
def Arena.renumber (a : Arena) (number : Nat → Nat) : Arena := { a with live := number a.live }

namespace Source

open Action

/-- The arenas with other numbers for their bitmaps. -/
def renumber (s : Source) (number : Nat → Nat) (bitmaps : List Bitmap) : Source :=
  { s with
    active := s.active.renumber number
    frozen := s.frozen.map (·.renumber number)
    bitmaps
    published := s.published.map number }

/-- The arenas are the same, but for the numbers of their bitmaps. -/
inductive Mirror (ρ : Renumbering) (s : Source) : Source → Prop where
  | intro {bitmaps : List Bitmap} :
    ρ.Fits s.bitmaps bitmaps → Mirror ρ s (s.renumber ρ.number bitmaps)

variable {α : Type} {ρ : Renumbering} {s s' t : Source} {number : Nat → Nat} {bitmaps : List Bitmap}
  {x n : Nat}

/-! ### What is seen of the arenas -/

theorem arenas_renumber (s : Source) (number : Nat → Nat) (bitmaps : List Bitmap) :
    (s.renumber number bitmaps).arenas = s.arenas.map (·.renumber number) := rfl

/-- What does not depend on the number of its bitmap is known of each arena as before. -/
theorem map_renumber {view : Arena → α} (same : ∀ a, view (a.renumber number) = view a) (s : Source)
    (bitmaps : List Bitmap) : (s.renumber number bitmaps).arenas.map view = s.arenas.map view := by
  rw [arenas_renumber, List.map_map]
  exact congrArg (List.map · _) (funext same)

theorem Mirror.bitmap (mirror : Mirror ρ s t) (n : Nat) : t.bitmap (ρ.number n) = s.bitmap n := by
  obtain ⟨fits⟩ := mirror
  exact fits.bitmap n

theorem Mirror.arenas (mirror : Mirror ρ s t) : t.arenas = s.arenas.map (·.renumber ρ.number) := by
  obtain ⟨-⟩ := mirror
  rfl

theorem Mirror.arenaIndex (mirror : Mirror ρ s t) (x : Nat) : t.arenaIndex? x = s.arenaIndex? x := by
  rw [arenaIndex?, mirror.arenas, List.findIdx?_map, arenaIndex?]
  congr
  funext a
  exact congrArg (Bitmap.mayContain · x) (mirror.bitmap a.live)

theorem Mirror.arenaOf (mirror : Mirror ρ s t) (x : Nat) :
    t.arenaOf? x = (s.arenaOf? x).map (·.renumber ρ.number) := by
  rw [arenaOf?, mirror.arenas, List.find?_map, arenaOf?]
  congr
  funext a
  exact congrArg (Bitmap.mayContain · x) (mirror.bitmap a.live)

theorem Mirror.contains (mirror : Mirror ρ s t) (x : Nat) : t.contains x = s.contains x := by
  rw [Source.contains, mirror.arenaOf, Source.contains]
  cases s.arenaOf? x with
  | none => rfl
  | some a => exact congrArg (Bitmap.test · x) (mirror.bitmap a.live)

theorem Mirror.isPublished (mirror : Mirror ρ s t) (x : Nat) : t.isPublished x = s.isPublished x := by
  have published : t.published = s.published.map ρ.number := by
    obtain ⟨-⟩ := mirror
    rfl
  rw [Source.isPublished, published, List.any_map, Source.isPublished]
  congr
  funext n
  exact congrArg (Bitmap.test · x) (mirror.bitmap n)

theorem Mirror.payload (mirror : Mirror ρ s t) (x : Nat) : t.payload x = s.payload x := by
  obtain ⟨-⟩ := mirror
  exact payload_congr (map_renumber (fun _ => rfl) s _) x

theorem Mirror.figures (mirror : Mirror ρ s t) (which : Figure) : t.figures which = s.figures which := by
  obtain ⟨-⟩ := mirror
  refine map_renumber (fun a => ?_) s _
  cases which <;> rfl

theorem Mirror.footprint (mirror : Mirror ρ s t) : t.footprint = s.footprint := by
  obtain ⟨-⟩ := mirror
  exact congrArg Word.total (map_renumber (fun _ => rfl) s _)

theorem Mirror.overhead (mirror : Mirror ρ s t) : t.overhead = s.overhead := by
  obtain ⟨-⟩ := mirror
  have frozen : ∀ number bitmaps,
      (s.renumber number bitmaps).frozen.map Arena.footprint = s.frozen.map Arena.footprint := by
    intro number bitmaps
    change (s.frozen.map _).map Arena.footprint = _
    rw [List.map_map]
    rfl
  exact congrArg (Word.total · + s.externalBytes) (frozen _ _)

theorem Mirror.blocks (mirror : Mirror ρ s t) : t.blocks = s.blocks := by
  rw [Source.blocks, mirror.arenas, ← List.map_reverse, List.flatMap_map]
  rfl

/-! ### Sizing -/

theorem mirrors_setShare (share : Nat) : Mirrors (Mirror ρ) (setShare share) (setShare share) := by
  refine mirrors_get fun s t mirror => ?_
  obtain ⟨fits⟩ := mirror
  refine Simulates.ite (fun _ => ?_) fun _ => ?_
  · exact (mirrors_lift _).then fun space => mirrors_set ⟨fits⟩
  · exact (mirrors_lift _).then fun space => mirrors_set ⟨fits⟩

theorem mirrors_setIdeal (size : Nat) : Mirrors (Mirror ρ) (setIdeal size) (setIdeal size) := by
  refine mirrors_get fun s t mirror => ?_
  have overhead := mirror.overhead
  obtain ⟨fits⟩ := mirror
  dsimp only
  rw [overhead]
  refine (mirrors_setShare _).then fun _ => mirrors_modify fun s t mirror => ?_
  obtain ⟨fits⟩ := mirror
  exact ⟨fits⟩

theorem mirrors_snapIdeal : Mirrors (Mirror ρ) snapIdeal snapIdeal := by
  refine mirrors_get fun s t mirror => ?_
  have overhead := mirror.overhead
  obtain ⟨fits⟩ := mirror
  rw [overhead]
  exact mirrors_setIdeal _

theorem mirrors_setMinimum (size : Nat) : Mirrors (Mirror ρ) (setMinimum size) (setMinimum size) := by
  refine mirrors_get fun s t mirror => ?_
  obtain ⟨fits⟩ := mirror
  refine (mirrors_set ⟨fits⟩).then fun _ => Simulates.ite (fun _ => ?_) fun _ => mirrors_pure _
  exact (mirrors_setIdeal _).then fun _ => mirrors_pure _

theorem mirrors_growForUtilization :
    Mirrors (Mirror ρ) growForUtilization growForUtilization := by
  refine mirrors_get fun s t mirror => ?_
  have overhead := mirror.overhead
  obtain ⟨fits⟩ := mirror
  rw [overhead]
  exact (mirrors_lift _).then fun _ => (mirrors_lift _).then fun _ => (mirrors_lift _).then fun _ =>
    (mirrors_lift _).then fun _ => mirrors_setIdeal _

theorem mirrors_externalAlloc (n : Nat) (grow : Bool) :
    Mirrors (Mirror ρ) (externalAlloc n grow) (externalAlloc n grow) := by
  refine mirrors_get fun s t mirror => ?_
  obtain ⟨fits⟩ := mirror
  refine (mirrors_require _).then fun _ => (mirrors_lift _).then fun bytes => ?_
  refine Simulates.ite (fun _ => (mirrors_set ⟨fits⟩).then fun _ => mirrors_pure _) fun _ => ?_
  refine Simulates.ite (fun _ => mirrors_pure _) fun _ => ?_
  refine (mirrors_set ⟨fits⟩).then fun _ => (mirrors_lift _).then fun limit => ?_
  refine (mirrors_modify fun s t mirror => ?_).then fun _ => mirrors_pure _
  obtain ⟨fits⟩ := mirror
  exact ⟨fits⟩

theorem mirrors_externalFree (n : Nat) :
    Mirrors (Mirror ρ) (externalFree n) (externalFree n) := by
  refine mirrors_get fun s t mirror => ?_
  obtain ⟨fits⟩ := mirror
  refine (mirrors_set ⟨fits⟩).then fun _ => (mirrors_lift _).then fun target => ?_
  refine Simulates.ite (fun _ => ?_) fun _ => mirrors_pure _
  refine (mirrors_modify fun s t mirror => ?_).then fun _ => mirrors_pure _
  obtain ⟨fits⟩ := mirror
  exact ⟨fits⟩

theorem trim_renumber (a : Arena) : (a.renumber number).trim
    = a.trim.map fun result => (result.1, result.2.renumber number) := by
  simp only [Arena.trim, Arena.renumber]
  cases a.space.trim 0 with
  | error => rfl
  | ok above =>
    simp only [bind, Except.bind]
    cases above.2.releaseFreePages <;> rfl

theorem mapM_trim_renumber (l : List Arena) : (l.map (·.renumber number)).mapM Arena.trim
    = (l.mapM Arena.trim).map fun results =>
      results.map fun result => (result.1, result.2.renumber number) := by
  induction l with
  | nil => rfl
  | cons a rest ih =>
    rw [List.map_cons, List.mapM_cons, List.mapM_cons, ih, trim_renumber]
    cases a.trim with
    | error => rfl
    | ok first => cases rest.mapM Arena.trim <;> rfl

theorem mirrors_trim : Mirrors (Mirror ρ) trim trim := by
  refine mirrors_get fun s t mirror => ?_
  obtain ⟨fits⟩ := mirror
  refine (simulates_lift (mapM_trim_renumber s.arenas)).then ?_
  rintro results _ rfl
  cases results with
  | nil => exact mirrors_pure _
  | cons first rest =>
    have answers : ∀ l : List (Nat × Arena), (l.map fun result =>
        (result.1, result.2.renumber ρ.number)).map Prod.fst = l.map Prod.fst := fun l => by
      rw [List.map_map]
      rfl
    have frozen : (rest.map fun result => (result.1, result.2.renumber ρ.number)).map Prod.snd
        = (rest.map Prod.snd).map (·.renumber ρ.number) := by
      rw [List.map_map, List.map_map]
      rfl
    simp only [List.map_cons, answers, frozen]
    exact (mirrors_set ⟨fits⟩).then fun _ => mirrors_pure _

theorem mirrors_shrinkToIdeal : Mirrors (Mirror ρ) shrinkToIdeal shrinkToIdeal := by
  refine mirrors_trim.then fun released => mirrors_get fun s t mirror => ?_
  obtain ⟨fits⟩ := mirror
  exact (mirrors_setIdeal _).then fun _ => mirrors_pure _

/-! ### Allocating and freeing -/

theorem mirrors_countAllocation (x : Nat) :
    Mirrors (Mirror ρ) (countAllocation x) (countAllocation x) := by
  refine mirrors_get fun s t mirror => ?_
  obtain ⟨fits⟩ := mirror
  refine (mirrors_lift _).then fun usable => (mirrors_lift _).then fun bytes => ?_
  exact (mirrors_set ⟨fits.modify _ _⟩).then fun _ => mirrors_require _

theorem mirrors_alloc (n : Nat) : Mirrors (Mirror ρ) (alloc n) (alloc n) := by
  refine mirrors_get fun s t mirror => ?_
  obtain ⟨fits⟩ := mirror
  refine Simulates.ite (fun _ => mirrors_pure _) fun _ => (mirrors_lift _).then fun found => ?_
  obtain ⟨_ | x, space⟩ := found
  · exact mirrors_pure _
  · exact (mirrors_set ⟨fits⟩).then fun _ => (mirrors_countAllocation x).then fun _ => mirrors_pure _

theorem mirrors_allocAndGrowArena (n : Nat) :
    Mirrors (Mirror ρ) (allocAndGrowArena n) (allocAndGrowArena n) := by
  refine mirrors_get fun s t mirror => ?_
  obtain ⟨fits⟩ := mirror
  refine Simulates.ite (fun _ => mirrors_pure _) fun _ => (mirrors_lift _).then fun space => ?_
  refine (mirrors_set ⟨fits⟩).then fun _ => (mirrors_alloc n).then fun object => ?_
  refine mirrors_get fun s t mirror => ?_
  obtain ⟨fits⟩ := mirror
  exact (mirrors_lift _).then fun space => (mirrors_set ⟨fits⟩).then fun _ => mirrors_pure _

theorem mirrors_allocOrRestore (n ideal : Nat) :
    Mirrors (Mirror ρ) (allocOrRestore n ideal) (allocOrRestore n ideal) := by
  refine (mirrors_allocAndGrowArena n).then fun object => ?_
  cases object with
  | none => exact (mirrors_setIdeal _).then fun _ => mirrors_pure _
  | some x => exact mirrors_snapIdeal.then fun _ => mirrors_pure _

theorem mirrors_allocAndGrow (n : Nat) :
    Mirrors (Mirror ρ) (allocAndGrow n) (allocAndGrow n) := by
  refine (mirrors_alloc n).then fun object => ?_
  cases object with
  | some x => exact mirrors_pure _
  | none =>
    refine mirrors_get fun s t mirror => mirrors_get fun s' t' mirror' => ?_
    obtain ⟨-⟩ := mirror
    obtain ⟨-⟩ := mirror'
    refine Simulates.ite (fun _ => ?_) fun _ => mirrors_allocOrRestore n _
    refine (mirrors_modify fun s t mirror => ?_).then fun _ => (mirrors_alloc n).then fun object => ?_
    · obtain ⟨fits⟩ := mirror
      exact ⟨fits⟩
    · cases object with
      | some x => exact mirrors_snapIdeal.then fun _ => mirrors_pure _
      | none => exact mirrors_allocOrRestore n _

theorem modifyArena_renumber {change : Arena → Arena}
    (same : ∀ a, change (a.renumber number) = (change a).renumber number) (s : Source) (i : Nat)
    (bitmaps : List Bitmap) : (s.renumber number bitmaps).modifyArena i change
      = (s.modifyArena i change).renumber number bitmaps := by
  cases i with
  | zero =>
    simp only [modifyArena, renumber, same]
  | succ i =>
    have frozen : (s.frozen.map (·.renumber number)).modify i change
        = (s.frozen.modify i change).map (·.renumber number) := by
      apply List.ext_getElem?
      intro j
      rw [List.getElem?_modify, List.getElem?_map, List.getElem?_map, List.getElem?_modify]
      cases s.frozen[j]? with
      | none => rfl
      | some a =>
        by_cases here : i = j
        · simp [here, same]
        · simp [here]
    simp only [modifyArena, renumber, frozen]

theorem Mirror.modifyArena (mirror : Mirror ρ s t) {change : Arena → Arena}
    (same : ∀ a, change (a.renumber ρ.number) = (change a).renumber ρ.number) (i : Nat) :
    Mirror ρ (s.modifyArena i change) (t.modifyArena i change) := by
  obtain ⟨fits⟩ := mirror
  rw [modifyArena_renumber same]
  have bitmaps : (s.modifyArena i change).bitmaps = s.bitmaps := by cases i <;> rfl
  exact ⟨bitmaps ▸ fits⟩

theorem Mirror.modifyBitmap (mirror : Mirror ρ s t) (n : Nat) (change : Bitmap → Bitmap) :
    Mirror ρ (s.modifyBitmap n change) (t.modifyBitmap (ρ.number n) change) := by
  obtain ⟨fits⟩ := mirror
  exact ⟨fits.modify n change⟩

theorem Mirror.setWords (mirror : Mirror ρ s t) (x index count value : Nat) :
    Mirror ρ (s.setWords x index count value) (t.setWords x index count value) := by
  have holder : t.holderIndex? x = s.holderIndex? x := by
    rw [holderIndex?, mirror.arenas, List.findIdx?_map]
    rfl
  rw [Source.setWords, Source.setWords, holder]
  cases s.holderIndex? x with
  | none => exact mirror
  | some i => exact mirror.modifyArena (fun _ => rfl) i

theorem Mirror.setUtilization (mirror : Mirror ρ s t) (ratio : Binary32) :
    Mirror ρ (s.setUtilization ratio) (t.setUtilization ratio) := by
  obtain ⟨fits⟩ := mirror
  exact ⟨fits⟩

theorem Mirror.getD_arenas (mirror : Mirror ρ s t) (i : Nat) :
    t.arenas.getD i t.active = (s.arenas.getD i s.active).renumber ρ.number := by
  rw [mirror.arenas, List.getD_eq_getElem?_getD, List.getElem?_map, List.getD_eq_getElem?_getD]
  obtain ⟨-⟩ := mirror
  exact Option.getD_map ..

theorem Mirror.uncount (mirror : Mirror ρ s t) (i x freed : Nat) :
    Mirror ρ (s.uncount i x freed) (t.uncount i x freed) := by
  rw [Source.uncount, Source.uncount, mirror.getD_arenas]
  exact (mirror.modifyArena (fun _ => rfl) i).modifyBitmap _ _

theorem Mirror.releaseChunk (mirror : Mirror ρ s t) (x : Nat) :
    Mirror ρ (s.releaseChunk x) (t.releaseChunk x) := by
  obtain @⟨bitmaps, fits⟩ := mirror
  have released : (s.renumber ρ.number bitmaps).active.space.release? x
      = s.active.space.release? x := rfl
  rw [Source.releaseChunk, Source.releaseChunk, released]
  cases s.active.space.release? x with
  | none => exact ⟨fits⟩
  | some => exact ⟨fits⟩

theorem mirrors_free (x : Nat) : Mirrors (Mirror ρ) (free x) (free x) := by
  refine mirrors_get fun s t mirror => ?_
  rw [mirror.arenaIndex]
  cases s.arenaIndex? x with
  | none => exact mirrors_pure _
  | some i =>
    dsimp only
    rw [mirror.getD_arenas]
    refine (mirrors_lift _).then fun usable => ?_
    refine (mirrors_set ?_).then fun _ => mirrors_pure _
    have uncounted := mirror.uncount i x (usable.getD 0 + Size.chunkOverhead)
    split
    · exact uncounted.releaseChunk x
    · exact uncounted

/-! ### Arenas and their bitmaps -/

theorem freshArena_renumber (count start maximum live : Nat) :
    freshArena count start maximum (number live)
      = (freshArena count start maximum live).map fun made =>
        made.map fun both => (both.1.renumber number, both.2) := by
  simp only [freshArena, bind, Except.bind]
  cases Space.create (Arena.nameOf count) (Region.arenaBase count) start maximum with
  | error => rfl
  | ok made => cases made <;> rfl

theorem Mirror.publish (mirror : Mirror ρ s t) : Mirror ρ s.publish t.publish := by
  obtain @⟨bitmaps, fits⟩ := mirror
  have published : (s.renumber ρ.number bitmaps).arenas.map Arena.live
      = (s.arenas.map Arena.live).map ρ.number := by
    rw [arenas_renumber, List.map_map, List.map_map]
    rfl
  have same : (s.renumber ρ.number bitmaps).publish = s.publish.renumber ρ.number bitmaps :=
    congrArg (fun published => { s.renumber ρ.number bitmaps with published }) published
  rw [same]
  exact ⟨fits⟩

theorem mirrors_pushArena (arena : Arena) (map : Bitmap) :
    Mirrors (Mirror ρ) (pushArena arena map) (pushArena (arena.renumber ρ.number) map) := by
  refine mirrors_get fun s t mirror => ?_
  obtain ⟨fits⟩ := mirror
  exact (mirrors_lift _).then fun space => (mirrors_set ⟨fits.append map⟩).then fun _ =>
    mirrors_modify fun s t mirror => mirror.publish

theorem mirrors_addArena : Mirrors (Mirror ρ) addArena addArena := by
  refine mirrors_get fun s t mirror => ?_
  have count : t.arenas.length = s.arenas.length := by rw [mirror.arenas, List.length_map]
  have footprint := mirror.footprint
  obtain @⟨bitmaps, fits⟩ := mirror
  dsimp only
  rw [count, footprint]
  refine Simulates.ite (fun _ => simulates_throw _) fun _ => ?_
  refine Simulates.ite (fun _ => mirrors_pure _) fun _ => ?_
  have number := (congrArg (freshArena s.arenas.length Size.minFree
    (s.absoluteMax - s.footprint)) (fits.fresh 0).symm).trans (freshArena_renumber ..)
  refine (simulates_lift number).then ?_
  rintro made _ rfl
  cases made with
  | error => exact mirrors_pure _
  | ok both => exact (mirrors_pushArena _ _).then fun _ => mirrors_pure _

theorem mirrors_beforeFork : Mirrors (Mirror ρ) beforeFork beforeFork := by
  refine mirrors_get fun s t mirror => ?_
  obtain ⟨fits⟩ := mirror
  refine Simulates.ite (fun _ => mirrors_pure _) fun _ => ?_
  refine (mirrors_modify fun s t mirror => ?_).then fun _ => mirrors_addArena.then fun done => ?_
  · obtain ⟨fits⟩ := mirror
    exact ⟨fits⟩
  · cases done <;> exact mirrors_pure _

theorem mirrors_afterZygote : Mirrors (Mirror ρ) afterZygote afterZygote := by
  refine mirrors_get fun s t mirror => ?_
  obtain ⟨fits⟩ := mirror
  refine Simulates.ite (fun _ => mirrors_pure _) fun _ => mirrors_addArena.then fun done => ?_
  cases done <;> exact mirrors_pure _

theorem Mirror.copy (mirror : Mirror ρ s t) (a : Arena) (numbers : List Nat) :
    (snapshotBitmap (numbers.map ρ.number, t) (a.renumber ρ.number)).1
        = (snapshotBitmap (numbers, s) a).1.map ρ.number
      ∧ Mirror ρ (snapshotBitmap (numbers, s) a).2
        (snapshotBitmap (numbers.map ρ.number, t) (a.renumber ρ.number)).2 := by
  have copy := mirror.bitmap a.live
  obtain @⟨bitmaps, fits⟩ := mirror
  have number : ρ.number s.bitmaps.length = bitmaps.length := fits.fresh 0
  constructor
  · change _ = (numbers ++ [s.bitmaps.length]).map ρ.number
    rw [List.map_append, List.map_singleton, number]
    rfl
  · change Mirror ρ { s with bitmaps := s.bitmaps ++ [(s.bitmap a.live).copy] } _
    rw [← copy]
    exact ⟨fits.append _⟩

theorem Mirror.copies (mirror : Mirror ρ s t) (l : List Arena) (numbers : List Nat) :
    ((l.map (·.renumber ρ.number)).foldl snapshotBitmap (numbers.map ρ.number, t)).1
        = (l.foldl snapshotBitmap (numbers, s)).1.map ρ.number
      ∧ Mirror ρ (l.foldl snapshotBitmap (numbers, s)).2
        ((l.map (·.renumber ρ.number)).foldl snapshotBitmap (numbers.map ρ.number, t)).2 := by
  induction l generalizing s t numbers with
  | nil => exact ⟨rfl, mirror⟩
  | cons a rest ih =>
    obtain ⟨same, copied⟩ := mirror.copy a numbers
    rw [List.map_cons, List.foldl_cons, List.foldl_cons, ← Prod.eta (snapshotBitmap (_, t) _), same]
    exact ih copied _

theorem simulates_copyBitmaps : Simulates (Mirror ρ) (fun numbers numbers' =>
    numbers' = numbers.map ρ.number) copyBitmaps copyBitmaps := by
  intro s t mirror
  obtain ⟨numbers, copied⟩ := mirror.copies s.arenas []
  rw [← mirror.arenas] at numbers copied
  have run : copyBitmaps s = .ok s.snapshotBitmaps.1 s.snapshotBitmaps.2 := rfl
  exact (ends_of_ok run).2 ⟨_, _, rfl, numbers, copied⟩

theorem Mirror.takes_iff (mirror : Mirror ρ s t) (numbers : List Nat) :
    t.Takes (numbers.map ρ.number) ↔ s.Takes numbers := by
  have same : ∀ (a : Arena) (number : Nat),
      ((t.bitmap (ρ.number a.live)).sameRange (t.bitmap (ρ.number number)) = true)
        = ((s.bitmap a.live).sameRange (s.bitmap number) = true) := fun a number =>
    congrArg (· = true)
      (congrArg₂ Bitmap.sameRange (mirror.bitmap a.live) (mirror.bitmap number))
  rw [Takes, mirror.arenas, List.forall₂_map_left_iff, List.forall₂_map_right_iff]
  exact iff_of_eq (congrArg (List.Forall₂ · s.arenas numbers)
    (funext fun a => funext fun number => same a number))

theorem Mirror.replaceBitmaps (mirror : Mirror ρ s t) (numbers : List Nat) :
    (t.replaceBitmaps (numbers.map ρ.number)).1 = (s.replaceBitmaps numbers).1
      ∧ (t.replaceBitmaps (numbers.map ρ.number)).2.1
        = (s.replaceBitmaps numbers).2.1.map ρ.number
      ∧ Mirror ρ (s.replaceBitmaps numbers).2.2
        (t.replaceBitmaps (numbers.map ρ.number)).2.2 := by
  have same := mirror.takes_iff numbers
  by_cases takes : s.Takes numbers
  · obtain _ | ⟨first, rest⟩ := numbers
    · cases takes
    · rw [replaceBitmaps_taken takes, List.map_cons, replaceBitmaps_taken (same.2 takes)]
      obtain @⟨bitmaps, fits⟩ := mirror
      have lives : (s.renumber ρ.number bitmaps).arenas.map Arena.live
          = (s.arenas.map Arena.live).map ρ.number := by
        rw [arenas_renumber, List.map_map, List.map_map]
        rfl
      have frozen : (s.frozen.map (·.renumber ρ.number)).zipWith
          (fun a number => { a with live := number }) (rest.map ρ.number)
            = (s.frozen.zipWith (fun a number => { a with live := number }) rest).map
              (·.renumber ρ.number) := by
        rw [List.zipWith_map, List.map_zipWith]
        rfl
      refine ⟨rfl, lives, ?_⟩
      change Mirror ρ (Source.publish _) (Source.publish { s.renumber ρ.number bitmaps with
        active := { s.active.renumber ρ.number with live := ρ.number first }
        frozen := (s.frozen.map (·.renumber ρ.number)).zipWith
          (fun a number => { a with live := number }) (rest.map ρ.number) })
      rw [frozen]
      exact Mirror.publish ⟨fits⟩
  · rw [replaceBitmaps_refused takes, replaceBitmaps_refused (mt same.1 takes)]
    exact ⟨rfl, rfl, mirror⟩

theorem simulates_exchange (numbers : List Nat) : Simulates (Mirror ρ)
    (fun result result' => result' = (result.1, result.2.map ρ.number)) (exchange numbers)
    (exchange (numbers.map ρ.number)) := by
  intro s t mirror
  obtain ⟨accepted, returned, exchanged⟩ := mirror.replaceBitmaps numbers
  have run : exchange numbers s = .ok ((s.replaceBitmaps numbers).1, (s.replaceBitmaps numbers).2.1)
    (s.replaceBitmaps numbers).2.2 := rfl
  exact (ends_of_ok run).2 ⟨_, _, rfl, Prod.ext accepted returned, exchanged⟩

theorem Mirror.replaceCurrent (mirror : Mirror ρ s t) (numbers : List Nat) :
    Mirror ρ (s.replaceCurrent numbers) (t.replaceCurrent (numbers.map ρ.number)) := by
  have current : t.areCurrent (numbers.map ρ.number) = s.areCurrent numbers := by
    rw [areCurrent, mirror.arenas, List.zip_map, List.all_map, areCurrent]
    congr
    refine funext fun pair => ?_
    exact congrArg₂ (fun map map' : Bitmap => map.members == map'.members) (mirror.bitmap pair.2)
      (mirror.bitmap pair.1.live)
  rw [Source.replaceCurrent, Source.replaceCurrent, current]
  split
  · exact (mirror.replaceBitmaps numbers).2.2
  · exact mirror

end Source

end ManagedHeap
