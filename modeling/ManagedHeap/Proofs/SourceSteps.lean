import ManagedHeap.Proofs.Memory
import ManagedHeap.Proofs.SourceCases

/-!
What each operation on the arenas does to what lives in them. An operation that breaks off leaves the
arenas sound as well.
-/

namespace ManagedHeap

namespace Source

open Action

variable {s s' : Source} {a : Arena} {x y n number index : Nat}

/-! ### Sizing -/

/-- Arenas that differ only in the figures that steer their growth. -/
structure Resized (s s' : Source) : Prop where
  active : ∃ allowed, s'.active = { s.active with space := { s.active.space with allowed } }
  frozen : s'.frozen = s.frozen
  bitmaps : s'.bitmaps = s.bitmaps
  published : s'.published = s.published
  maximum : s'.absoluteMax = s.absoluteMax

theorem Resized.refl (s : Source) : Resized s s := ⟨⟨_, rfl⟩, rfl, rfl, rfl, rfl⟩

theorem Resized.trans {s'' : Source} (first : Resized s s') (second : Resized s' s'') :
    Resized s s'' := by
  obtain ⟨allowed, active⟩ := first.active
  obtain ⟨allowed', active'⟩ := second.active
  refine ⟨⟨allowed', ?_⟩, second.frozen.trans first.frozen, second.bitmaps.trans first.bitmaps,
    second.published.trans first.published, second.maximum.trans first.maximum⟩
  rw [active', active]

theorem Resized.memory (resized : Resized s s') :
    s'.arenas.map Arena.memory = s.arenas.map Arena.memory := by
  obtain ⟨allowed, active⟩ := resized.active
  rw [arenas, arenas, active, resized.frozen]
  rfl

theorem Sound.steady_of_resized (sound : s.Sound) (resized : Resized s s') : Steady s s' := by
  obtain ⟨allowed, active⟩ := resized.active
  have frozen := resized.frozen
  refine sound.steady_of_arenas ?_ ?_ resized.bitmaps resized.published resized.maximum ?_
  · rw [sites, sites, arenas, arenas, active, frozen]
    rfl
  · intro a member
    rw [arenas, active, frozen] at member
    rcases List.mem_cons.1 member with rfl | old
    · have laid := (sound.fits s.active s.active_mem).laid
      exact ⟨laid.congr rfl rfl rfl rfl rfl rfl, s.active, s.active_mem, rfl, rfl,
        fun _ chunk => chunk⟩
    · have known : a ∈ s.arenas := List.mem_cons_of_mem _ old
      exact ⟨(sound.fits a known).laid, a, known, rfl, rfl, fun _ chunk => chunk⟩
  · exact Nat.le_of_eq (by rw [frozenFootprint, frozenFootprint, frozen])

/-- An action that changes only figures of growth, whether it comes to its end or not. -/
def Resizes {α : Type} (action : Action Source α) : Prop :=
  ∀ s, action.Ends s (fun _ s' => Resized s s') fun _ s' => Resized s s'

theorem Resizes.then {α β : Type} {action : Action Source α} {next : α → Action Source β}
    (first : Resizes action) (second : ∀ value, Resizes (next value)) : Resizes (action >>= next) :=
  Relates.then Resized.trans first second

theorem resizes_pure {α : Type} (value : α) : Resizes (pure value) := relates_pure Resized.refl value

theorem resizes_lift {α : Type} (value : Except Defect α) : Resizes (liftM value) :=
  relates_lift Resized.refl value

theorem resizes_modify {change : Source → Source} (keeps : ∀ s, Resized s (change s)) :
    Resizes (modify change) := relates_modify keeps

/-- An action that looks at the state first. -/
theorem resizes_get {α : Type} {next : Source → Action Source α}
    (second : ∀ s, (next s).Ends s (fun _ s' => Resized s s') fun _ s' => Resized s s') :
    Resizes (get >>= next) := relates_get second

theorem resizes_setShare (share : Nat) : Resizes (setShare share) := by
  refine resizes_get fun s => ?_
  have capped : ∀ bytes limit, (do
      let space ← (s.active.space.setAllowed bytes : Except Defect Space)
      set { s with active := { s.active with space }, softLimit := limit }
        : Action Source PUnit).Ends s (fun _ s' => Resized s s') fun _ s' => Resized s s' := by
    intro bytes limit
    simp only [ends_bind, ends_lift, ends_set]
    refine ⟨fun space run => ?_, fun _ _ => Resized.refl s⟩
    obtain ⟨allowed, rfl⟩ := Space.setAllowed_frame run
    exact ⟨⟨allowed, rfl⟩, rfl, rfl, rfl, rfl⟩
  dsimp only
  split
  · exact capped _ _
  · exact capped _ _

theorem resizes_setIdeal (size : Nat) : Resizes (setIdeal size) := by
  refine resizes_get fun s => ?_
  refine (resizes_setShare _).then (fun _ => ?_) s
  exact resizes_modify fun _ => ⟨⟨_, rfl⟩, rfl, rfl, rfl, rfl⟩

/-- An action that first changes figures of the state it has looked at. -/
theorem ends_set_resized {α : Type} {next : Action Source α} (resized : Resized s s')
    (rest : Resizes next) :
    (set s' >>= fun _ => next).Ends s (fun _ t => Resized s t) fun _ t => Resized s t := by
  rw [ends_bind, ends_set]
  exact (rest s').imp (fun _ _ more => resized.trans more) fun _ _ more => resized.trans more

theorem resizes_setMinimum (size : Nat) : Resizes (setMinimum size) := by
  refine resizes_get fun s => ends_set_resized ⟨⟨_, rfl⟩, rfl, rfl, rfl, rfl⟩ ?_
  split
  · exact (resizes_setIdeal _).then fun _ => resizes_pure _
  · exact resizes_pure _

theorem resizes_growForUtilization : Resizes growForUtilization := by
  refine resizes_get fun s => ?_
  exact ((resizes_lift _).then fun _ => (resizes_lift _).then fun _ => (resizes_lift _).then
    fun _ => (resizes_lift _).then fun _ => resizes_setIdeal _) s

theorem resizes_externalAlloc (n : Nat) (grow : Bool) : Resizes (externalAlloc n grow) := fun s => by
  have charged : ∀ externalLimit,
      Resized s { s with externalBytes := s.externalBytes + n, externalLimit } :=
    fun _ => ⟨⟨_, rfl⟩, rfl, rfl, rfl, rfl⟩
  exact ends_externalAlloc (.refl s) (.refl s) (fun limit => ⟨charged limit, charged limit⟩) grow

theorem resizes_externalFree (n : Nat) : Resizes (externalFree n) := fun _ =>
  ends_externalFree fun _ => ⟨⟨_, rfl⟩, rfl, rfl, rfl, rfl⟩

/-! ### Allocating -/

theorem bitmap_of_modify {change : Bitmap → Bitmap} (known : n < s.bitmaps.length)
    (bitmaps : s'.bitmaps = s.bitmaps.modify n change) :
    s'.bitmap number = if number = n then change (s.bitmap n) else s.bitmap number := by
  simp only [bitmap, bitmaps, List.getD_eq_getElem?_getD, List.getElem?_modify]
  by_cases same : number = n
  · subst same
    simp [List.getElem?_eq_getElem known]
  · have other : ¬ n = number := fun h => same h.symm
    simp [same, other]

/-- A change to the bitmap of one arena, over the same range, leaves the arenas sound if all live
objects are the starts of chunks still. -/
theorem Sound.step_bitmap (sound : s.Sound) (change : Bitmap → Bitmap) (here : a ∈ s.arenas)
    (whole : (change (s.bitmap a.live)).Sound)
    (base : (change (s.bitmap a.live)).base = (s.bitmap a.live).base)
    (limit : (change (s.bitmap a.live)).limit = (s.bitmap a.live).limit)
    (bitmaps : s'.bitmaps = s.bitmaps.modify a.live change) (sites : s'.sites = s.sites)
    (arenas : ∀ b ∈ s'.arenas, b.space.Laid
      ∧ ∀ x, (s'.bitmap b.live).test x = true → x - b.space.base ∈ b.space.chunks)
    (published : s'.published = s.published) (maximum : s'.absoluteMax = s.absoluteMax)
    (frozen : s'.frozenFootprint ≤ s.frozenFootprint)
    (idle : s'.absoluteMax = 0 → ∀ x, s'.isPublished x = false) : s'.Sound := by
  have known : a.live < s.bitmaps.length := sound.numbered _ (mem_sites here)
  refine sound.step sites ?_ ?_ ?_ published maximum frozen idle
  · intro map member
    obtain ⟨j, found⟩ := List.getElem?_of_mem member
    rw [bitmaps, List.getElem?_modify] at found
    obtain ⟨old, before, after⟩ := Option.map_eq_some_iff.1 found
    split at after
    case isTrue same =>
      have value : s.bitmap a.live = old := by
        rw [bitmap, List.getD_eq_getElem?_getD, same, before, Option.getD_some]
      rw [value] at whole
      rwa [← after]
    case isFalse => exact sound.bitmaps map (after ▸ List.mem_of_getElem? before)
  · exact Nat.le_of_eq (by rw [bitmaps, List.length_modify])
  · intro b member
    obtain ⟨laid, chunk⟩ := arenas b member
    have site := mem_sites member
    rw [sites] at site
    obtain ⟨c, old, same⟩ := List.mem_map.1 site
    obtain ⟨same_live, same_region⟩ := Prod.mk.injEq .. ▸ same
    have fits := sound.fits c old
    have same_base : b.space.base = c.space.base := congrArg Region.base same_region.symm
    rw [same_live] at fits
    refine ⟨laid, ?_, ?_, chunk⟩
    · rw [same_base, ← fits.base, bitmap_of_modify known bitmaps]
      split
      case isTrue number => rw [base, number]
      case isFalse => rfl
    · rw [← same_region, ← fits.limit, bitmap_of_modify known bitmaps]
      split
      case isTrue number => rw [limit, number]
      case isFalse => rfl

/-- One object more lives. -/
structure Gains (s : Source) (x : Nat) (s' : Source) : Prop where
  sound : s'.Sound
  fresh : s.isPublished x = false
  published : ∀ y, s'.isPublished y = true ↔ y = x ∨ s.isPublished y = true
  maximum : s'.absoluteMax = s.absoluteMax

theorem Steady.gains {s'' : Source} (first : Steady s s') (second : Gains s' x s'') :
    Gains s x s'' where
  sound := second.sound
  fresh := (first.published x).symm.trans second.fresh
  published y := by rw [second.published, first.published]
  maximum := second.maximum.trans first.maximum

theorem Gains.steady {s'' : Source} (first : Gains s x s') (second : Steady s' s'') :
    Gains s x s'' where
  sound := second.sound
  fresh := first.fresh
  published y := by rw [second.published, first.published]
  maximum := second.maximum.trans first.maximum

theorem Sound.test_of_insert (sound : s.Sound) (here : a ∈ s.arenas)
    (covered : (s.bitmap a.live).mayContain x = true)
    (bitmaps : s'.bitmaps = s.bitmaps.modify a.live (·.insert x)) (number y : Nat) :
    (s'.bitmap number).test y = true
      ↔ (number = a.live ∧ y = x) ∨ (s.bitmap number).test y = true := by
  rw [bitmap_of_modify (sound.numbered _ (mem_sites here)) bitmaps]
  by_cases same : number = a.live
  · rw [if_pos same, (sound.bitmap_sound here).test_insert covered, same]
    simp
  · rw [if_neg same]
    simp [same]

theorem Sound.isPublished_of_insert (sound : s.Sound) (here : a ∈ s.arenas)
    (covered : (s.bitmap a.live).mayContain x = true)
    (bitmaps : s'.bitmaps = s.bitmaps.modify a.live (·.insert x))
    (published : s'.published = s.published) (y : Nat) :
    s'.isPublished y = true ↔ y = x ∨ s.isPublished y = true := by
  have test := sound.test_of_insert here covered bitmaps
  rw [isPublished_iff, isPublished_iff, published]
  constructor
  · rintro ⟨number, member, bit⟩
    rcases (test number y).1 bit with ⟨-, same⟩ | old
    · exact .inl same
    · exact .inr ⟨number, member, old⟩
  · rintro (same | ⟨number, member, old⟩)
    · exact ⟨_, sound.mem_published.2 ⟨_, here, rfl⟩, (test _ y).2 (.inl ⟨rfl, same⟩)⟩
    · exact ⟨number, member, (test _ y).2 (.inr old)⟩

/-- To set the bit of a chunk of the active arena adds one live object. -/
theorem Sound.gains_of_insert (sound : s.Sound) (some_room : 0 < s.absoluteMax)
    (fresh : s.isPublished x = false) (inside : s.active.space.region.contains x = true)
    (aligned : x % Size.granule = 0) (chunk : x - s.active.space.base ∈ s.active.space.chunks)
    (arenas : s'.arenas.map (fun a => (a.live, a.space)) = s.arenas.map fun a => (a.live, a.space))
    (bitmaps : s'.bitmaps = s.bitmaps.modify s.active.live (·.insert x))
    (published : s'.published = s.published) (maximum : s'.absoluteMax = s.absoluteMax) :
    Gains s x s' := by
  have covered := (sound.mayContain_iff s.active_mem).2 ⟨inside, aligned⟩
  have whole := sound.bitmap_sound s.active_mem
  have sites : s'.sites = s.sites := by
    have both := congrArg (List.map fun p : Nat × Space => (p.1, p.2.region)) arenas
    rwa [List.map_map, List.map_map] at both
  have frozen := congrArg
    (fun l => Word.total (l.tail.map fun p : Nat × Space => p.2.footprint)) arenas
  simp only [List.map_map, Source.arenas, List.map_cons, List.tail_cons] at frozen
  refine ⟨sound.step_bitmap (·.insert x) s.active_mem (whole.insert covered) (Bitmap.base_insert _ x)
    (Bitmap.limit_insert _ x) bitmaps sites ?_ published maximum (Nat.le_of_eq frozen) ?_,
    fresh, sound.isPublished_of_insert s.active_mem covered bitmaps published, maximum⟩
  · intro b member
    have view := List.mem_map_of_mem (f := fun a : Arena => (a.live, a.space)) member
    rw [arenas] at view
    obtain ⟨c, old, same⟩ := List.mem_map.1 view
    obtain ⟨same_live, same_space⟩ := Prod.mk.injEq .. ▸ same
    have fits := sound.fits c old
    rw [← same_live, ← same_space]
    refine ⟨fits.laid, fun y bit => ?_⟩
    rcases (sound.test_of_insert s.active_mem covered bitmaps _ y).1 bit with ⟨same, rfl⟩ | before
    · have covered' : (s.bitmap c.live).mayContain y = true := same ▸ covered
      rw [sound.live_unique old s.active_mem covered' covered]
      exact chunk
    · exact fits.chunk y before
  · intro none
    rw [maximum] at none
    omega

/-- Where an operation breaks off everything that lived lives. -/
structure Broken (s s' : Source) : Prop where
  sound : s'.Sound
  maximum : s'.absoluteMax = s.absoluteMax
  live : ∀ y, s.isPublished y = true → s'.isPublished y = true

theorem Steady.broken (steady : Steady s s') : Broken s s' :=
  ⟨steady.sound, steady.maximum, fun y live => (steady.published y).trans live⟩

theorem Gains.broken (gains : Gains s x s') : Broken s s' :=
  ⟨gains.sound, gains.maximum, fun y live => (gains.published y).2 (.inr live)⟩

theorem Broken.trans {s'' : Source} (first : Broken s s') (second : Broken s' s'') :
    Broken s s'' :=
  ⟨second.sound, second.maximum.trans first.maximum,
    fun y live => second.live y (first.live y live)⟩

/-- What an attempt to allocate has done. -/
def Attempted (s : Source) (result : Option Nat) (s' : Source) : Prop :=
  match result with
  | none => Steady s s'
  | some x => Gains s x s'

theorem Attempted.after {s'' : Source} {result : Option Nat} (first : Steady s s')
    (second : Attempted s' result s'') : Attempted s result s'' := by
  cases result with
  | none => exact first.trans second
  | some => exact first.gains second

theorem Attempted.then {s'' : Source} {result : Option Nat} (first : Attempted s result s')
    (second : Steady s' s'') : Attempted s result s'' := by
  cases result with
  | none => exact Steady.trans first second
  | some => exact Gains.steady first second

theorem Attempted.broken {result : Option Nat} (attempted : Attempted s result s') :
    Broken s s' := by
  cases result with
  | none => exact Steady.broken attempted
  | some => exact Gains.broken attempted

/-- A chunk placed in the active arena does not live yet. -/
theorem Sound.placed (sound : s.Sound) {space : Space} {offset : Nat}
    (placed : s.active.space.Placed space offset n)
    (active : s'.active = { s.active with space }) (frozen : s'.frozen = s.frozen)
    (bitmaps : s'.bitmaps = s.bitmaps) (published : s'.published = s.published)
    (maximum : s'.absoluteMax = s.absoluteMax) :
    Steady s s' ∧ s.isPublished (s.active.space.base + offset) = false
      ∧ s.active.space.region.contains (s.active.space.base + offset) = true
      ∧ (s.active.space.base + offset) % Size.granule = 0 ∧ offset ∈ space.chunks := by
  have chunk : offset ∈ space.chunks := (placed.chunks offset).2 (.inl rfl)
  have within := placed.laid.offset_lt chunk
  have top := placed.laid.top_le
  have footprint := placed.laid.footprint_le
  have capacity : space.capacity = s.active.space.capacity := congrArg Region.size placed.region
  have inside : s.active.space.region.contains (s.active.space.base + offset) = true := by
    rw [region_contains]
    simp only [Space.base, Region.limit, Space.capacity, Size.minChunk] at *
    omega
  have aligned : (s.active.space.base + offset) % Size.granule = 0 := by
    have base := (sound.bitmap_sound s.active_mem).aligned
    have start := (placed.laid.aligned _ _ _ (Space.piece_chunk chunk)).1
    rw [(sound.fits _ s.active_mem).base] at base
    simp only [Size.granule] at *
    omega
  have covered := (sound.mayContain_iff s.active_mem).2 ⟨inside, aligned⟩
  refine ⟨?_, ?_, inside, aligned, chunk⟩
  · refine sound.steady_of_arenas ?_ ?_ bitmaps published maximum ?_
    · rw [sites, sites, arenas, arenas, active, frozen, List.map_cons, List.map_cons,
        placed.region]
    · intro a member
      rw [arenas, active, frozen] at member
      rcases List.mem_cons.1 member with rfl | old
      · exact ⟨placed.laid, s.active, s.active_mem, rfl, placed.region,
          fun other here => (placed.chunks other).2 (.inr here)⟩
      · have known : a ∈ s.arenas := List.mem_cons_of_mem _ old
        exact ⟨(sound.fits a known).laid, a, known, rfl, rfl, fun _ here => here⟩
    · exact Nat.le_of_eq (by rw [frozenFootprint, frozenFootprint, frozen])
  · rw [← Bool.not_eq_true, sound.published_iff]
    rintro ⟨a, member, bit⟩
    have same := sound.live_unique member s.active_mem (Bitmap.mayContain_of_test bit) covered
    subst same
    have start := (sound.fits _ s.active_mem).chunk _ bit
    rw [Nat.add_sub_cancel_left] at start
    exact placed.fresh start

theorem alloc_spec (sound : s.Sound) (some_room : 0 < s.absoluteMax) (n : Nat) :
    (alloc n).Ends s (fun result s' => Attempted s result s') fun _ s' => Broken s s' := by
  refine ends_alloc_carved (sound.fits _ s.active_mem).laid sound.steady
    (fun {offset taken needed room} carved fits enough => ?_) Attempted.broken
  have placed := carved.placed fits enough
  have region := placed.region
  obtain ⟨steady, fresh, inside, aligned, chunk⟩ : Steady s (s.placed (room.place offset taken n)) ∧ _ :=
    sound.placed placed rfl rfl rfl rfl rfl
  refine ⟨steady.broken, fun length => steady.gains ?_⟩
  refine steady.sound.gains_of_insert (steady.maximum ▸ some_room) ?_ ?_ aligned ?_ rfl rfl rfl rfl
  · rw [steady.published, fresh]
  · change (room.place offset taken n).region.contains _ = true
    rw [region, inside]
  · change _ - (room.place offset taken n).region.base ∈ (room.place offset taken n).chunks
    rw [region, Space.base, Nat.add_sub_cancel_left]
    exact chunk

theorem Resizes.spec {α : Type} {action : Action Source α} (resizes : Resizes action)
    (sound : s.Sound) : action.Ends s (fun _ s' => Steady s s') fun _ s' => Broken s s' :=
  (resizes s).imp (fun _ _ resized => sound.steady_of_resized resized)
    fun _ _ resized => (sound.steady_of_resized resized).broken

/-! ### The last resort -/

/-- The last resort makes one attempt after the other and resizes the arenas in between. What each of
these steps achieves, it does as a whole. -/
theorem ends_lastResort {tried done : Option Nat → Source → Prop} {failed : Failure → Source → Prop}
    (first : (alloc n).Ends s tried failed)
    (again : ∀ s', tried none s' → (alloc n).Ends s' tried failed)
    (growing : ∀ s', tried none s' → (allocAndGrowArena n).Ends s' tried failed)
    (sizing : ∀ result size s', tried result s' →
      (setIdeal size).Ends s' (fun _ => done result) failed)
    (lifting : ∀ s', tried none s' → tried none { s' with softLimit := none })
    (plain : ∀ x s', tried (some x) s' → done (some x) s') :
    (allocAndGrow n).Ends s done failed := by
  have snapping : ∀ x s', tried (some x) s' → (do
      snapIdeal
      return some x : Action Source (Option Nat)).Ends s' done failed := by
    intro x s' placed
    simp only [snapIdeal, ends_bind, ends_get, ends_pure]
    exact sizing _ _ s' placed
  have restoring : ∀ ideal s', tried none s' → (allocOrRestore n ideal).Ends s' done failed := by
    intro ideal s' refused
    rw [allocOrRestore, ends_bind]
    refine (growing s' refused).mono fun result s₁ grown => ?_
    cases result with
    | some x => exact snapping x s₁ grown
    | none =>
      simp only [ends_bind, ends_pure]
      exact sizing none ideal s₁ grown
  rw [allocAndGrow, ends_bind]
  refine first.mono fun result s₁ attempted => ?_
  cases result with
  | some x => exact ends_pure.2 (plain x s₁ attempted)
  | none =>
    simp only [ends_bind, ends_get, ends_ite, ends_modify]
    refine ⟨fun _ => ?_, fun _ => restoring s₁.ideal s₁ attempted⟩
    refine (again _ (lifting s₁ attempted)).mono fun result s₂ attempted => ?_
    cases result with
    | some x => exact snapping x s₂ attempted
    | none => exact restoring s₁.ideal s₂ attempted

/-- An attempt that fails has changed nothing. -/
theorem alloc_rests (n : Nat) (s : Source) :
    (alloc n).Ends s (fun result s' => result = none → s' = s) fun _ _ => True := by
  refine ends_alloc (fun _ => rfl) (fun _ => ⟨trivial, fun _ none => ?_⟩) fun _ => trivial
  cases none

theorem resized_of_setAllowed {bytes : Nat} {space : Space}
    (run : s.active.space.setAllowed bytes = .ok space) :
    Resized s { s with active := { s.active with space } } := by
  obtain ⟨allowed, rfl⟩ := Space.setAllowed_frame run
  exact ⟨⟨allowed, rfl⟩, rfl, rfl, rfl, rfl⟩

/-- An attempt to allocate, with changes of sizes before it and after. -/
def Places (s : Source) (n : Nat) (result : Option Nat) (s' : Source) : Prop :=
  ∃ s₁ s₂, Resized s s₁ ∧ alloc n s₁ = .ok result s₂ ∧ Resized s₂ s'

/-- It broke off in an attempt, or in a change of sizes after one. -/
def Falters (s : Source) (n : Nat) (s' : Source) : Prop :=
  (∃ s₁ cause, Resized s s₁ ∧ alloc n s₁ = .error cause s') ∨ ∃ result, Places s n result s'

theorem Resized.alloc_places (resized : Resized s s') (n : Nat) :
    (alloc n).Ends s' (fun result s'' => Places s n result s'') fun _ s'' => Falters s n s'' :=
  ⟨fun run => ⟨s', _, resized, run, .refl _⟩, fun run => .inl ⟨s', _, resized, run⟩⟩

theorem Places.resized {s'' : Source} {result : Option Nat} (places : Places s n result s')
    (resized : Resized s' s'') : Places s n result s'' := by
  obtain ⟨s₁, s₂, before, run, after⟩ := places
  exact ⟨s₁, s₂, before, run, after.trans resized⟩

/-- After an attempt that failed another may be made, as if it had been the first. -/
theorem Places.again (failed : Places s n none s') : Resized s s' := by
  obtain ⟨s₁, s₂, before, run, after⟩ := failed
  cases (alloc_rests n s₁).ok run rfl
  exact before.trans after

theorem Places.then {α : Type} {action : Action Source α} {result : Option Nat}
    (places : Places s n result s') (resizes : Resizes action) :
    action.Ends s' (fun _ s'' => Places s n result s'') fun _ s'' => Falters s n s'' :=
  (resizes s').imp (fun _ _ resized => places.resized resized)
    fun _ _ resized => .inr ⟨result, places.resized resized⟩

theorem Places.allocAndGrowArena (failed : Places s n none s') :
    (allocAndGrowArena n).Ends s' (fun result s'' => Places s n result s'')
      fun _ s'' => Falters s n s'' := by
  simp only [Source.allocAndGrowArena, ends_bind, ends_get, ends_ite, ends_pure, ends_lift, ends_set]
  refine ⟨fun _ => failed, fun _ => ⟨fun space run => ?_, fun _ _ => .inr ⟨none, failed⟩⟩⟩
  have raised := failed.again.trans (resized_of_setAllowed run)
  refine (raised.alloc_places n).mono fun result s₁ places => ?_
  exact ⟨fun space' run' => places.resized (resized_of_setAllowed run'),
    fun _ _ => .inr ⟨result, places⟩⟩

/-- However many attempts the last resort makes, it comes to one. -/
theorem allocAndGrow_places (n : Nat) (s : Source) :
    (allocAndGrow n).Ends s (fun result s' => Places s n result s') fun _ s' => Falters s n s' := by
  refine ends_lastResort ((Resized.refl s).alloc_places n) (fun s' failed => ?_) (fun s' failed => ?_)
    (fun result size s' places => ?_) (fun s' failed => ?_) fun _ _ places => places
  · exact failed.again.alloc_places n
  · exact failed.allocAndGrowArena
  · exact places.then (resizes_setIdeal size)
  · exact failed.resized ⟨⟨_, rfl⟩, rfl, rfl, rfl, rfl⟩

/-- What an attempt achieves after any change of sizes, and before any, the last resort does. -/
theorem allocAndGrow_of_alloc {done : Option Nat → Source → Prop} {failed : Source → Prop}
    (attempt : ∀ s₁, Resized s s₁ → (alloc n).Ends s₁
      (fun result s₂ => ∀ s', Resized s₂ s' → done result s') fun _ s₂ => failed s₂)
    (weaker : ∀ result s', done result s' → failed s') :
    (allocAndGrow n).Ends s done fun _ s' => failed s' := by
  have achieved : ∀ result s', Places s n result s' → done result s' := by
    rintro result s' ⟨s₁, s₂, before, run, after⟩
    exact (attempt s₁ before).ok run s' after
  refine (allocAndGrow_places n s).imp achieved ?_
  rintro - s' (⟨s₁, cause, before, run⟩ | ⟨result, places⟩)
  · exact (attempt s₁ before).error run
  · exact weaker result s' (achieved result s' places)

theorem allocAndGrow_spec (sound : s.Sound) (some_room : 0 < s.absoluteMax) (n : Nat) :
    (allocAndGrow n).Ends s (fun result s' => Attempted s result s') fun _ s' => Broken s s' := by
  refine allocAndGrow_of_alloc (fun s₁ before => ?_) fun _ _ attempted => attempted.broken
  have steady := sound.steady_of_resized before
  refine (alloc_spec steady.sound (steady.maximum ▸ some_room) n).imp
    (fun result s₂ attempted s' after => ?_) fun _ _ broken => steady.broken.trans broken
  exact (Attempted.after steady attempted).then (attempted.broken.sound.steady_of_resized after)

/-! ### Freeing -/

/-- One object at the most lives no longer, and the memory is what it was. -/
structure Frees (s : Source) (x : Nat) (s' : Source) : Prop where
  sound : s'.Sound
  published : ∀ y, s'.isPublished y = true ↔ y ≠ x ∧ s.isPublished y = true
  memory : s'.arenas.map Arena.memory = s.arenas.map Arena.memory
  sites : s'.sites = s.sites
  maximum : s'.absoluteMax = s.absoluteMax

theorem Sound.test_of_erase (sound : s.Sound) (here : a ∈ s.arenas)
    (covered : (s.bitmap a.live).mayContain x = true)
    (bitmaps : s'.bitmaps = s.bitmaps.modify a.live (·.erase x)) (member : b ∈ s.arenas) (y : Nat) :
    (s'.bitmap b.live).test y = true ↔ y ≠ x ∧ (s.bitmap b.live).test y = true := by
  rw [bitmap_of_modify (sound.numbered _ (mem_sites here)) bitmaps]
  by_cases same : b.live = a.live
  · rw [if_pos same, (sound.bitmap_sound here).test_erase covered, same]
  · rw [if_neg same]
    refine ⟨fun bit => ⟨?_, bit⟩, And.right⟩
    rintro rfl
    have other := sound.live_unique member here (Bitmap.mayContain_of_test bit) covered
    exact same (congrArg Arena.live other)

theorem Sound.isPublished_of_erase (sound : s.Sound) (here : a ∈ s.arenas)
    (covered : (s.bitmap a.live).mayContain x = true)
    (bitmaps : s'.bitmaps = s.bitmaps.modify a.live (·.erase x))
    (published : s'.published = s.published) (y : Nat) :
    s'.isPublished y = true ↔ y ≠ x ∧ s.isPublished y = true := by
  rw [isPublished_iff, isPublished_iff, published]
  constructor
  · rintro ⟨number, member, bit⟩
    obtain ⟨b, known, rfl⟩ := sound.mem_published.1 member
    obtain ⟨other, old⟩ := (sound.test_of_erase here covered bitmaps known y).1 bit
    exact ⟨other, b.live, member, old⟩
  · rintro ⟨other, number, member, old⟩
    obtain ⟨b, known, rfl⟩ := sound.mem_published.1 member
    exact ⟨b.live, member, (sound.test_of_erase here covered bitmaps known y).2 ⟨other, old⟩⟩

/-- To clear the bit of an address takes that address out and nothing else. -/
theorem Sound.frees_of_erase (sound : s.Sound) (here : a ∈ s.arenas)
    (covered : (s.bitmap a.live).mayContain x = true)
    (bitmaps : s'.bitmaps = s.bitmaps.modify a.live (·.erase x))
    (arenas : ∀ b ∈ s'.arenas, b.space.Laid ∧ ∃ c ∈ s.arenas, b.live = c.live
      ∧ b.space.region = c.space.region ∧ ∀ offset ∈ c.space.chunks,
        offset ∈ b.space.chunks ∨ (c = a ∧ offset = x - a.space.base))
    (sites : s'.sites = s.sites) (memory : s'.arenas.map Arena.memory = s.arenas.map Arena.memory)
    (published : s'.published = s.published) (maximum : s'.absoluteMax = s.absoluteMax)
    (frozen : s'.frozenFootprint ≤ s.frozenFootprint) : Frees s x s' := by
  have live := sound.isPublished_of_erase here covered bitmaps published
  refine ⟨sound.step_bitmap (·.erase x) here (sound.bitmap_sound here).erase (Bitmap.base_erase _ x)
    (Bitmap.limit_erase _ x) bitmaps sites ?_ published maximum frozen ?_, live, memory, sites, maximum⟩
  · intro b member
    obtain ⟨laid, c, old, same_live, same_region, chunks⟩ := arenas b member
    have base : b.space.base = c.space.base := congrArg Region.base same_region
    refine ⟨laid, fun y bit => ?_⟩
    rw [same_live] at bit
    obtain ⟨other, before⟩ := (sound.test_of_erase here covered bitmaps old y).1 bit
    rw [base]
    rcases chunks _ ((sound.fits c old).chunk y before) with chunk | ⟨rfl, same⟩
    · exact chunk
    · have inside := ((sound.mayContain_iff old).1 (Bitmap.mayContain_of_test before)).1
      have inside' := ((sound.mayContain_iff here).1 covered).1
      rw [region_contains] at inside inside'
      simp only [Space.base] at same
      omega
  · intro none y
    rw [← Bool.not_eq_true, live]
    intro both
    rw [sound.idle (maximum ▸ none)] at both
    cases both.2

theorem map_uncount {β : Type} (view : Arena → β)
    (same : ∀ (a : Arena) bytes objects, view { a with bytes, objects } = view a)
    (s : Source) (index x freed : Nat) :
    (s.uncount index x freed).arenas.map view = s.arenas.map view :=
  map_modifyArena fun a => same a _ _

theorem uncount_eq (here : s.arenas[index]? = some a) (x freed : Nat) :
    (s.uncount index x freed).bitmaps = s.bitmaps.modify a.live (·.erase x)
      ∧ (s.uncount index x freed).published = s.published
      ∧ (s.uncount index x freed).absoluteMax = s.absoluteMax := by
  rw [uncount, getD_arenas here]
  cases index <;> exact ⟨rfl, rfl, rfl⟩

theorem frozenFootprint_of_map
    (footprints : s'.arenas.map Arena.footprint = s.arenas.map Arena.footprint) :
    s'.frozenFootprint = s.frozenFootprint :=
  congrArg (fun l : List Nat => Word.total l.tail) footprints

theorem Sound.frees_uncount (sound : s.Sound) (here : s.arenas[index]? = some a)
    (covered : (s.bitmap a.live).mayContain x = true) (freed : Nat) :
    Frees s x (s.uncount index x freed) := by
  obtain ⟨bitmaps, published, maximum⟩ := uncount_eq here x freed
  refine sound.frees_of_erase (mem_arenas_of_getElem here) covered bitmaps ?_
    (map_uncount _ (fun _ _ _ => rfl) s index x freed)
    (map_uncount _ (fun _ _ _ => rfl) s index x freed) published maximum
    (Nat.le_of_eq (frozenFootprint_of_map (map_uncount _ (fun _ _ _ => rfl) s index x freed)))
  intro b member
  have view := List.mem_map_of_mem (f := fun a : Arena => (a.live, a.space)) member
  rw [map_uncount _ (fun _ _ _ => rfl)] at view
  obtain ⟨c, old, same⟩ := List.mem_map.1 view
  obtain ⟨same_live, same_space⟩ := Prod.mk.injEq .. ▸ same
  rw [← same_live, ← same_space]
  exact ⟨(sound.fits c old).laid, c, old, rfl, rfl, fun _ chunk => .inl chunk⟩

theorem Sound.frees_release (sound : s.Sound) (covered : (s.bitmap s.active.live).mayContain x = true)
    {usable : Option Nat} (measured : s.active.space.usableSize? x = .ok usable) {length : Nat}
    {space : Space} (release : s.active.space.release? x = some (length, space)) (freed : Nat) :
    Frees s x ((s.uncount 0 x freed).placed space) := by
  obtain ⟨bitmaps, published, maximum⟩ := uncount_eq (show s.arenas[0]? = some s.active from rfl) x freed
  have large := Space.release_positive measured release
  obtain ⟨offset, address, -, chunks, laid, region, words, requests⟩ :=
    Space.release_spec (sound.fits _ s.active_mem).laid large release
  refine sound.frees_of_erase s.active_mem covered bitmaps ?_ ?_ ?_ published maximum
    (Nat.le_refl _)
  · intro b member
    rcases List.mem_cons.1 member with rfl | old
    · refine ⟨laid, s.active, s.active_mem, rfl, region, fun other chunk => ?_⟩
      by_cases here : other = offset
      · refine .inr ⟨rfl, ?_⟩
        rw [here, address, Nat.add_sub_cancel_left]
      · refine .inl ?_
        change other ∈ space.chunks
        exact (Space.mem_erase_chunk chunks).2 ⟨here, chunk⟩
    · have known : b ∈ s.arenas := List.mem_cons_of_mem _ old
      exact ⟨(sound.fits b known).laid, b, known, rfl, rfl, fun _ chunk => .inl chunk⟩
  · simp only [sites, arenas, Source.placed, List.map_cons, region]
    rfl
  · simp only [arenas, Source.placed, List.map_cons, Arena.memory, region, words, requests]
    rfl

theorem free_spec (sound : s.Sound) (x : Nat) :
    (free x).Ends s (fun _ s' => Frees s x s') fun _ s' => s' = s := by
  refine ends_free (fun unknown => ?_) rfl (fun here covered _ _ => sound.frees_uncount here covered _)
    fun covered measured release => sound.frees_release covered measured release _
  refine ⟨sound, fun y => ⟨fun live => ⟨?_, live⟩, And.right⟩, rfl, rfl, rfl⟩
  rintro rfl
  obtain ⟨a, member, bit⟩ := sound.published_iff.1 live
  obtain ⟨i, here⟩ := List.getElem?_of_mem member
  rw [sound.arenaIndex_eq here (Bitmap.mayContain_of_test bit)] at unknown
  cases unknown

/-! ### Room on the mark stack -/

theorem setIdeal_spares (size : Nat) : (setIdeal size).Spares := by
  intro s
  simp [setIdeal, setShare, Failure.Overflows]

theorem setMinimum_spares (size : Nat) : (setMinimum size).Spares := by
  intro s
  simp [setMinimum, setIdeal, setShare, Failure.Overflows]

theorem growForUtilization_spares : growForUtilization.Spares := by
  intro s
  simp [growForUtilization, setIdeal, setShare, Failure.Overflows]

theorem externalAlloc_spares (n : Nat) (grow : Bool) : (externalAlloc n grow).Spares := by
  intro s
  simp [externalAlloc, Failure.Overflows]

theorem externalFree_spares (n : Nat) : (externalFree n).Spares := by
  intro s
  simp [externalFree, Failure.Overflows]

theorem countAllocation_spares (x : Nat) : (countAllocation x).Spares := by
  intro s
  simp [countAllocation, Failure.Overflows]

theorem alloc_spares (n : Nat) : (alloc n).Spares := by
  refine spares_get.then fun s => ?_
  dsimp only
  split
  all_goals
    split
    · exact spares_pure _
    · refine (spares_lift _).then fun result => ?_
      obtain ⟨found, space⟩ := result
      cases found with
      | none => exact spares_pure _
      | some x => exact (spares_set _).then fun _ => (countAllocation_spares x).then fun _ =>
          spares_pure _

theorem allocAndGrowArena_spares (n : Nat) : (allocAndGrowArena n).Spares := by
  refine spares_get.then fun s => ?_
  dsimp only
  split
  · exact spares_pure _
  · refine (spares_lift _).then fun _ => (spares_set _).then fun _ => (alloc_spares n).then
      fun _ => ?_
    exact spares_get.then fun _ => (spares_lift _).then fun _ => (spares_set _).then fun _ =>
      spares_pure _

theorem allocAndGrow_spares (n : Nat) : (allocAndGrow n).Spares := fun s =>
  ends_lastResort (alloc_spares n s) (fun s' _ => alloc_spares n s')
    (fun s' _ => allocAndGrowArena_spares n s') (fun _ size s' _ => setIdeal_spares size s')
    (fun _ _ => trivial) fun _ _ _ => trivial

theorem free_spares (x : Nat) : (free x).Spares := by
  refine spares_get.then fun s => ?_
  split
  · exact spares_pure 0
  · exact (spares_lift _).then fun _ => (spares_set _).then fun _ => spares_pure _

end Source

end ManagedHeap
