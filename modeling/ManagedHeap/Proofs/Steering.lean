import ManagedHeap.Proofs.ArenaSteps
import ManagedHeap.Proofs.Chunks
import ManagedHeap.Source.Operation

/-!
How the growth of the arenas is steered. The ideal size lies between the minimum and the absolute
maximum, a soft limit lies at or below it, and no arena has obtained more than it is allowed. Each
operation keeps this up, also where it breaks off.
-/

namespace ManagedHeap

/-- The arena has obtained no more than it is allowed, and that is in whole pages. -/
structure Arena.Capped (a : Arena) : Prop where
  within : a.footprint ≤ a.allowed
  pages : a.allowed % Size.page = 0

/-- What bounds the growth of an arena, and how far it has grown. -/
def Arena.gauge (a : Arena) : Region × Nat × Nat × Nat :=
  (a.space.region, a.footprint, a.allowed, a.absoluteMax)

/-- A trimmed arena is allowed what it was. -/
theorem Arena.trim_frame {a a' : Arena} {released : Nat} (run : a.trim = .ok (released, a')) :
    ∃ footprint words, a' = { a with space := { a.space with footprint, words } } := by
  obtain ⟨above, space, inside, space', cut, rest, rfl⟩ := Arena.trim_eq run
  obtain ⟨footprint, words, rfl⟩ := Space.trim_frame cut
  obtain ⟨words', rfl⟩ := Space.releaseFreePages_frame rest
  exact ⟨_, _, rfl⟩

theorem total_le_of_forall₂ {α : Type} (figure : α → Nat) {l l' : List α}
    (less : List.Forall₂ (fun a a' => figure a' ≤ figure a) l l') :
    Word.total (l'.map figure) ≤ Word.total (l.map figure) := by
  induction less with
  | nil => exact Nat.le_refl _
  | cons first _ ih =>
    simp only [List.map_cons, Word.total_cons]
    exact Nat.add_le_add first ih

namespace Source

open Action

/-- The arenas are capped, and there is room for what the active one may come to. -/
structure Housed (m : Nat) (s : Source) : Prop where
  sound : s.Sound
  maximum : s.absoluteMax = m
  capped : ∀ a ∈ s.arenas, a.Capped
  few : s.arenas.length ≤ Size.maxArenas
  reserve : s.frozenFootprint + s.active.absoluteMax ≤ s.absoluteMax
  bounded : s.absoluteMax < Size.unreservable
  /-- The first arena was given everything. -/
  whole : ∃ a ∈ s.arenas, a.space.capacity = s.ceiling
  /-- Without any room nothing was ever allowed. -/
  idle : s.absoluteMax = 0 → s.active.allowed = 0

/-- The sizes that steer growth stand in their order. -/
structure Governed (m : Nat) (s : Source) : Prop extends Housed m s where
  least : s.minimum ≤ s.ideal
  most : s.ideal ≤ s.absoluteMax
  limit : ∀ limit, s.softLimit = some limit → limit ≤ s.ideal

variable {s s' : Source} {a : Arena} {m x n size : Nat}

theorem Sound.footprint_small (sound : s.Sound) (member : a ∈ s.arenas) :
    a.footprint < Size.unreservable :=
  Nat.lt_of_le_of_lt (sound.fits a member).laid.footprint_le (sound.small _ (mem_sites member))

theorem ceiling_congr (maximum : s'.absoluteMax = s.absoluteMax) : s'.ceiling = s.ceiling := by
  rw [ceiling, maximum]
  rfl

/-- What holds of a source with the same bounds on its growth. -/
theorem Housed.congr (housed : s.Housed m) (sound : s'.Sound)
    (gauges : s'.arenas.map Arena.gauge = s.arenas.map Arena.gauge)
    (maximum : s'.absoluteMax = s.absoluteMax) : s'.Housed m := by
  have active : s'.active.gauge = s.active.gauge := congrArg (fun l => l.headD default) gauges
  simp only [Arena.gauge, Prod.mk.injEq] at active
  refine ⟨sound, maximum.trans housed.maximum, fun a member => ?_, ?_, ?_,
    maximum ▸ housed.bounded, ?_, ?_⟩
  · have known := List.mem_map_of_mem (f := Arena.gauge) member
    rw [gauges] at known
    obtain ⟨b, old, same⟩ := List.mem_map.1 known
    simp only [Arena.gauge, Prod.mk.injEq] at same
    obtain ⟨-, footprint, allowed, -⟩ := same
    have capped := housed.capped b old
    exact ⟨footprint ▸ allowed ▸ capped.within, allowed ▸ capped.pages⟩
  · have length : s'.arenas.length = s.arenas.length := by simpa using congrArg List.length gauges
    exact length ▸ housed.few
  · have footprints : s'.arenas.map Arena.footprint = s.arenas.map Arena.footprint := by
      simpa [Arena.gauge, Function.comp_def] using congrArg (List.map fun g => g.2.1) gauges
    rw [frozenFootprint_of_map footprints, active.2.2.2, maximum]
    exact housed.reserve
  · obtain ⟨a, member, full⟩ := housed.whole
    have known := List.mem_map_of_mem (f := Arena.gauge) member
    rw [← gauges] at known
    obtain ⟨b, here, same⟩ := List.mem_map.1 known
    have region : b.space.region = a.space.region := congrArg Prod.fst same
    exact ⟨b, here, (congrArg Region.size region).trans (full.trans (ceiling_congr maximum).symm)⟩
  · rw [maximum, active.2.2.1]
    exact housed.idle

/-- What steers growth has not moved. -/
structure Paced (s s' : Source) : Prop where
  gauges : s'.arenas.map Arena.gauge = s.arenas.map Arena.gauge
  maximum : s'.absoluteMax = s.absoluteMax
  minimum : s'.minimum = s.minimum
  ideal : s'.ideal = s.ideal
  softLimit : s'.softLimit = s.softLimit
  external : s'.externalBytes = s.externalBytes

theorem Paced.refl (s : Source) : Paced s s := ⟨rfl, rfl, rfl, rfl, rfl, rfl⟩

theorem Governed.congr (governed : s.Governed m) (sound : s'.Sound) (paced : Paced s s') :
    s'.Governed m := by
  refine ⟨governed.toHoused.congr sound paced.gauges paced.maximum, ?_, ?_, ?_⟩
  · rw [paced.minimum, paced.ideal]
    exact governed.least
  · rw [paced.ideal, paced.maximum]
    exact governed.most
  · rw [paced.softLimit, paced.ideal]
    exact governed.limit

/-- What holds when only the active arena has changed. -/
theorem Housed.of_active (housed : s.Housed m) (sound : s'.Sound) (frozen : s'.frozen = s.frozen)
    (capped : s'.active.Capped) (region : s'.active.space.region = s.active.space.region)
    (reserve : s'.active.absoluteMax = s.active.absoluteMax)
    (maximum : s'.absoluteMax = s.absoluteMax)
    (idle : s.absoluteMax = 0 → s'.active.allowed = 0) : s'.Housed m := by
  refine ⟨sound, maximum.trans housed.maximum, fun a member => ?_, ?_, ?_,
    maximum ▸ housed.bounded, ?_, maximum ▸ idle⟩
  · rcases List.mem_cons.1 member with rfl | old
    · exact capped
    · exact housed.capped a (List.mem_cons_of_mem _ (frozen ▸ old))
  · have few := housed.few
    rwa [arenas, frozen]
  · have room := housed.reserve
    rwa [frozenFootprint, frozen, reserve, maximum]
  · obtain ⟨a, member, full⟩ := housed.whole
    rw [ceiling_congr maximum]
    rcases List.mem_cons.1 member with rfl | old
    · exact ⟨s'.active, s'.active_mem, (congrArg Region.size region).trans full⟩
    · exact ⟨a, List.mem_cons_of_mem _ (frozen ▸ old), full⟩

theorem Governed.of_active (governed : s.Governed m) (housed : s'.Housed m)
    (frame : ∃ active bitmaps, s' = { s with active, bitmaps }) : s'.Governed m := by
  obtain ⟨active, bitmaps, rfl⟩ := frame
  exact ⟨housed, governed.least, governed.most, governed.limit⟩

/-! ### Sizing -/

/-- The source with its ideal size set and the active arena given what that leaves to it. -/
def steered (s : Source) (allowed : Nat) (softLimit : Option Nat) (ideal : Nat) : Source :=
  { s with
    active := { s.active with space := { s.active.space with allowed } }
    softLimit
    ideal }

/-- What setting the ideal size comes to, where `share` is what it leaves to the active arena. -/
structure Shared (s : Source) (share allowed : Nat) (softLimit : Option Nat) : Prop where
  within : s.active.footprint ≤ allowed
  pages : allowed % Size.page = 0
  cases : (share < s.active.footprint ∧ allowed = s.active.footprint ∧ softLimit = some share)
    ∨ (s.active.footprint ≤ share ∧ share ≤ allowed ∧ allowed < share + Size.page
      ∧ softLimit = none)

theorem Housed.setAllowed (housed : s.Housed m) {bytes : Nat} (few : bytes < Size.unreservable) :
    ∃ allowed, s.active.space.setAllowed bytes
        = .ok { s.active.space with allowed } ∧ s.active.footprint ≤ allowed
      ∧ allowed % Size.page = 0 ∧ bytes ≤ allowed
      ∧ (bytes ≤ s.active.footprint ∧ allowed = s.active.footprint ∨ allowed < bytes + Size.page) :=
  Space.setAllowed_eq (housed.sound.fits _ s.active_mem).laid.footprint_pages
    (housed.sound.footprint_small s.active_mem) few

/-- The ideal size is brought between its bounds, and setting it never fails. -/
theorem Housed.setIdeal_spec (housed : s.Housed m) (minimum : s.minimum ≤ s.absoluteMax)
    (size : Nat) : (setIdeal size).Ends s (fun _ s' => ∃ allowed softLimit,
        s' = s.steered allowed softLimit (max s.minimum (min size s.absoluteMax))
          ∧ s.Shared (max s.minimum (min size s.absoluteMax) - s.overhead) allowed softLimit)
      fun _ _ => False := by
  have ideal : (if s.absoluteMax < size then s.absoluteMax
      else if size < s.minimum then s.minimum else size)
        = max s.minimum (min size s.absoluteMax) := by
    split
    · omega
    · split <;> omega
  have bounded := housed.bounded
  simp only [setIdeal, setShare, ends_bind, ends_get, ideal]
  generalize share : max s.minimum (min size s.absoluteMax) - s.overhead = bytes
  rw [ends_ite]
  refine ⟨fun less => ?_, fun enough => ?_⟩
  · have pinned : s.active.space.setAllowed s.active.footprint
        = .ok { s.active.space with allowed := s.active.footprint } := if_neg (Nat.lt_irrefl _)
    have pages := (housed.sound.fits _ s.active_mem).laid.footprint_pages
    rw [ends_bind, ends_lift_of_ok pinned, ends_set, ends_modify]
    exact ⟨_, _, rfl, Nat.le_refl _, pages, .inl ⟨less, rfl, rfl⟩⟩
  · obtain ⟨allowed, run, within, pages, above, near⟩ :=
      housed.setAllowed (show bytes < _ by omega)
    rw [ends_bind, ends_lift_of_ok run, ends_set, ends_modify]
    refine ⟨_, _, rfl, within, pages, .inr ⟨Nat.not_lt.1 enough, above, ?_, rfl⟩⟩
    rcases near with ⟨reached, same⟩ | near
    · have page : 0 < Size.page := by decide
      omega
    · exact near

theorem Housed.recap (housed : s.Housed m) {allowed : Nat} (within : s.active.footprint ≤ allowed)
    (pages : allowed % Size.page = 0) (idle : s.absoluteMax = 0 → allowed = 0) :
    Housed m { s with active := { s.active with space := { s.active.space with allowed } } } := by
  have steady : Steady s
      { s with active := { s.active with space := { s.active.space with allowed } } } :=
    housed.sound.steady_of_resized ⟨⟨_, rfl⟩, rfl, rfl, rfl, rfl⟩
  exact housed.of_active steady.sound rfl ⟨within, pages⟩ rfl rfl rfl idle

theorem Housed.setIdeal_governed (housed : s.Housed m) (minimum : s.minimum ≤ s.absoluteMax)
    (size : Nat) : (setIdeal size).Ends s (fun _ s' => s'.Governed m) fun _ _ => False := by
  refine (housed.setIdeal_spec minimum size).mono ?_
  rintro _ _ ⟨allowed, softLimit, rfl, shared⟩
  have idle : s.absoluteMax = 0 → allowed = 0 := by
    intro nothing
    have within := (housed.capped _ s.active_mem).within
    have whole := shared.pages
    have cases := shared.cases
    rw [housed.idle nothing] at within
    simp only [Size.page] at *
    omega
  have recapped := housed.recap shared.within shared.pages idle
  have steady : Steady s (s.steered allowed softLimit (max s.minimum (min size s.absoluteMax))) :=
    housed.sound.steady_of_resized ⟨⟨_, rfl⟩, rfl, rfl, rfl, rfl⟩
  refine ⟨recapped.congr steady.sound rfl rfl, Nat.le_max_left _ _,
    Nat.max_le.2 ⟨minimum, Nat.min_le_right _ _⟩, fun limit limited => ?_⟩
  have same : softLimit = some limit := limited
  change limit ≤ max s.minimum (min size s.absoluteMax)
  rcases shared.cases with ⟨-, -, some_share⟩ | ⟨-, -, -, none⟩
  · cases some_share.symm.trans same
    exact Nat.sub_le _ _
  · cases none.symm.trans same

theorem preserves_setIdeal (size : Nat) : (setIdeal size).Preserves (Governed m) :=
  fun _ governed => (governed.setIdeal_governed (Nat.le_trans governed.least governed.most) size).imp
    (fun _ _ kept => kept) fun _ _ => False.elim

/-! ### Allocating -/

/-- Only the active arena has changed, which has grown no further than it is allowed. -/
structure Grown (s s' : Source) : Prop where
  frame : ∃ active bitmaps, s' = { s with active, bitmaps }
  region : s'.active.space.region = s.active.space.region
  allowed : s'.active.allowed = s.active.allowed
  reserve : s'.active.absoluteMax = s.active.absoluteMax
  footprint : s'.active.footprint = s.active.footprint
    ∨ s.active.footprint ≤ s'.active.footprint ∧ s'.active.footprint ≤ s.active.allowed

theorem Grown.refl (s : Source) : Grown s s := ⟨⟨_, _, rfl⟩, rfl, rfl, rfl, .inl rfl⟩

theorem Grown.governed (grown : Grown s s') (governed : s.Governed m) (sound : s'.Sound) :
    s'.Governed m := by
  obtain ⟨⟨active, bitmaps, rfl⟩, region, allowed, reserve, footprint⟩ := grown
  have capped := governed.capped _ s.active_mem
  have within := capped.within
  refine governed.of_active (governed.toHoused.of_active sound rfl ⟨?_, ?_⟩ region reserve rfl ?_)
    ⟨_, _, rfl⟩
  · rw [allowed]
    omega
  · rw [allowed]
    exact capped.pages
  · rw [allowed]
    exact governed.idle

theorem Space.Carved.grown {space : Space} {offset taken n : Nat}
    (carved : s.active.space.Carved offset taken space) : Grown s (s.placed (space.place offset taken n))
      ∧ ∀ x length, Grown s (s.entered (space.place offset taken n) x length) := by
  obtain ⟨free, top, footprint, rfl⟩ := carved.frame
  exact ⟨⟨⟨_, _, rfl⟩, rfl, rfl, rfl, carved.footprint⟩,
    fun _ _ => ⟨⟨_, _, rfl⟩, rfl, rfl, rfl, carved.footprint⟩⟩

theorem alloc_grows (sound : s.Sound) (n : Nat) : (alloc n).Ends s (fun _ s' => Grown s s')
    fun _ s' => Grown s s' := by
  refine ends_alloc_carved (sound.fits _ s.active_mem).laid (Grown.refl s) (fun carved _ _ => ?_) id
  obtain ⟨placed, entered⟩ := Space.Carved.grown carved
  exact ⟨placed, entered _⟩

/-- Nothing can be allocated where nothing is allowed. -/
theorem alloc_idle (sound : s.Sound) (capped : s.active.Capped) (nothing : s.active.allowed = 0)
    (n : Nat) : (alloc n).Ends s (fun result s' => result = none ∧ s' = s) fun _ s' => s' = s := by
  refine ends_alloc_carved (sound.fits _ s.active_mem).laid ⟨rfl, rfl⟩ (fun carved fits enough => ?_)
    And.right
  have large := (Space.chunkSizeFor_eq fits).2.1
  have within := capped.within
  have below := carved.below
  have top := carved.laid.top_le
  have grown := carved.footprint
  simp only [Arena.allowed, Arena.footprint, Size.minChunk] at *
  omega

theorem preserves_alloc (n : Nat) : (alloc n).Preserves (Governed m) := by
  intro s governed
  by_cases room : s.absoluteMax = 0
  · refine (alloc_idle governed.sound (governed.capped _ s.active_mem) (governed.idle room) n).imp
      ?_ ?_
    · rintro _ _ ⟨-, rfl⟩
      exact governed
    · rintro _ _ rfl
      exact governed
  · have spec := alloc_spec governed.sound (Nat.pos_of_ne_zero room) n
    refine (spec.and (alloc_grows governed.sound n)).imp ?_ ?_
    · rintro result s' ⟨attempted, grown⟩
      exact grown.governed governed attempted.broken.sound
    · rintro _ s' ⟨broken, grown⟩
      exact grown.governed governed broken.sound

theorem Governed.recap (governed : s.Governed m) {allowed : Nat}
    (within : s.active.footprint ≤ allowed) (pages : allowed % Size.page = 0)
    (idle : s.absoluteMax = 0 → allowed = 0) :
    Governed m { s with active := { s.active with space := { s.active.space with allowed } } } :=
  governed.of_active (governed.toHoused.recap within pages idle) ⟨_, _, rfl⟩

/-- The allowed footprint can be set back to the real one. -/
theorem Governed.pin (governed : s.Governed m) :
    s.active.space.setAllowed s.active.footprint
        = .ok { s.active.space with allowed := s.active.footprint }
      ∧ Governed m { s with
          active := { s.active with space := { s.active.space with allowed := s.active.footprint } } } := by
  refine ⟨if_neg (Nat.lt_irrefl _), governed.recap (Nat.le_refl _) ?_ fun nothing => ?_⟩
  · exact (governed.sound.fits _ s.active_mem).laid.footprint_pages
  · have within := (governed.capped _ s.active_mem).within
    have idle := governed.idle nothing
    omega

/-- While the arena grows it is allowed what its maximum and the external memory leave to it, and
afterwards what it has obtained. -/
theorem Governed.ends_allocAndGrowArena {done : Option Nat → Source → Prop}
    {failed : Failure → Source → Prop} (governed : s.Governed m)
    (used : s.active.absoluteMax ≤ s.externalBytes → done none s)
    (grown : ∀ {allowed}, s.externalBytes < s.active.absoluteMax →
      s.active.space.setAllowed (s.active.absoluteMax - s.externalBytes)
        = .ok { s.active.space with allowed } →
      (allowed = s.active.footprint
        ∨ allowed < s.active.absoluteMax - s.externalBytes + Size.page) →
      Governed m { s with active := { s.active with space := { s.active.space with allowed } } } →
      (alloc n).Ends { s with active := { s.active with space := { s.active.space with allowed } } }
        (fun result s₁ => s₁.Governed m → done result { s₁ with
          active := { s₁.active with space := { s₁.active.space with allowed := s₁.active.footprint } } })
        failed) :
    (allocAndGrowArena n).Ends s done failed := by
  have bounded := governed.bounded
  have reserve := governed.reserve
  simp only [allocAndGrowArena, ends_bind, ends_get, ends_ite, ends_pure]
  refine ⟨used, fun room => ?_⟩
  obtain ⟨allowed, run, within, pages, -, near⟩ :=
    governed.setAllowed (show s.active.absoluteMax - s.externalBytes < _ by omega)
  have raised := governed.recap within pages fun nothing => by omega
  rw [ends_lift_of_ok run]
  simp only [ends_set]
  refine ((preserves_alloc n _ raised).and
    (grown (Nat.lt_of_not_le room) run (near.imp_left And.right) raised)).imp ?_
    fun _ _ both => both.2
  rintro result s₁ ⟨governed₁, reached⟩
  rw [ends_lift_of_ok governed₁.pin.1]
  exact reached governed₁

theorem preserves_allocAndGrowArena (n : Nat) : (allocAndGrowArena n).Preserves (Governed m) :=
  fun _ governed => governed.ends_allocAndGrowArena (fun _ => governed) fun _ _ _ raised =>
    (preserves_alloc n _ raised).mono fun _ _ _ governed₁ => governed₁.pin.2

theorem Governed.unlimited (governed : s.Governed m) : Governed m { s with softLimit := none } := by
  have steady : Steady s { s with softLimit := none } :=
    governed.sound.steady_of_resized ⟨⟨_, rfl⟩, rfl, rfl, rfl, rfl⟩
  exact ⟨governed.toHoused.congr steady.sound rfl rfl, governed.least, governed.most,
    fun _ none => nomatch none⟩

theorem preserves_allocAndGrow (n : Nat) : (allocAndGrow n).Preserves (Governed m) := fun s governed =>
  ends_lastResort (preserves_alloc n s governed) (preserves_alloc n) (preserves_allocAndGrowArena n)
    (fun _ => preserves_setIdeal) (fun _ governed => governed.unlimited) fun _ _ governed => governed

/-! ### Freeing, records and memory -/

theorem free_paces (x : Nat) :
    (free x).Ends s (fun _ s' => Paced s s') fun _ s' => s' = s := by
  have counted : ∀ index freed, Paced s (s.uncount index x freed) := by
    intro index freed
    have gauges := map_uncount Arena.gauge (fun _ _ _ => rfl) s index x freed
    cases index <;> exact ⟨gauges, rfl, rfl, rfl, rfl, rfl⟩
  refine ends_free (fun _ => Paced.refl s) rfl (fun _ _ _ _ => counted _ _)
    fun {usable length space} _ _ release => ?_
  obtain ⟨chunks, free, top, rfl⟩ := Space.release_frame release
  have paced := counted 0 (usable.getD 0 + Size.chunkOverhead)
  exact { paced with }

theorem preserves_free (x : Nat) : (free x).Preserves (Governed m) := by
  intro s governed
  refine ((free_spec governed.sound x).and (free_paces x)).imp ?_ ?_
  · rintro _ s' ⟨frees, paced⟩
    exact governed.congr frees.sound paced
  · rintro _ s' ⟨rfl, -⟩
    exact governed

theorem Sound.steady_setGeneration (sound : s.Sound) (x generation : Nat) :
    Steady s (s.setGeneration x generation) := by
  rcases s.setGeneration_cases x generation with same | ⟨i, same⟩
  · rw [same]
    exact sound.steady
  rw [same]
  refine sound.steady_modifyArena (fun a => ?_) (fun a => ?_) (fun a member => ?_) fun a offset here => ?_
  all_goals obtain ⟨chunks, stamped, recorded⟩ := a.space.setGeneration_frame x generation
  · rw [stamped]
  · rw [Arena.footprint, stamped]
    rfl
  · exact (sound.fits a member).laid.of_recorded recorded ⟨chunks, stamped⟩
  · rw [Space.mem_chunks_iff] at here ⊢
    rwa [recorded]

theorem setGeneration_paces (s : Source) (x generation : Nat) :
    Paced s (s.setGeneration x generation) := by
  have gauges : (s.setGeneration x generation).arenas.map Arena.gauge = s.arenas.map Arena.gauge :=
    map_setGeneration Arena.gauge (fun _ _ _ => rfl) s x generation
  obtain ⟨active, frozen, same⟩ := s.setGeneration_frame x generation
  rw [same] at gauges ⊢
  exact ⟨gauges, rfl, rfl, rfl, rfl, rfl⟩

theorem setWords_paces (s : Source) (x index count value : Nat) :
    Paced s (s.setWords x index count value) := by
  have gauges : (s.setWords x index count value).arenas.map Arena.gauge = s.arenas.map Arena.gauge :=
    map_setWords Arena.gauge (fun _ _ => rfl) s x index count value
  obtain ⟨active, frozen, same⟩ := s.setWords_frame x index count value
  rw [same] at gauges ⊢
  exact ⟨gauges, rfl, rfl, rfl, rfl, rfl⟩

/-! ### Figures and external memory -/

/-- To set the minimum brings the ideal size up to it. -/
theorem Governed.ends_setMinimum {done : Source → Prop} {failed : Failure → Source → Prop}
    (governed : s.Governed m)
    (enough : min size s.absoluteMax ≤ s.ideal → Governed m { s with minimum := min size s.absoluteMax } →
      done { s with minimum := min size s.absoluteMax })
    (raised : Housed m { s with minimum := min size s.absoluteMax } →
      (setIdeal s.ideal).Ends { s with minimum := min size s.absoluteMax } (fun _ s' => done s') failed) :
    (setMinimum size).Ends s (fun _ s' => done s') failed := by
  have steady : Steady s { s with minimum := min size s.absoluteMax } :=
    governed.sound.steady_of_resized ⟨⟨_, rfl⟩, rfl, rfl, rfl, rfl⟩
  have housed : Housed m { s with minimum := min size s.absoluteMax } :=
    governed.toHoused.congr steady.sound rfl rfl
  simp only [setMinimum, ends_bind, ends_get, ends_set]
  split
  case isTrue =>
    rw [ends_bind]
    exact (raised housed).mono fun _ _ reached => ends_pure.2 reached
  case isFalse not_below =>
    have above := Nat.not_lt.1 not_below
    exact ends_pure.2 (enough above ⟨housed, above, governed.most, governed.limit⟩)

theorem preserves_setMinimum (size : Nat) : (setMinimum size).Preserves (Governed m) :=
  fun s governed => governed.ends_setMinimum (fun _ kept => kept) fun housed =>
    (housed.setIdeal_governed (Nat.min_le_right _ _) s.ideal).imp (fun _ _ kept => kept)
      fun _ _ => False.elim

theorem preserves_growForUtilization : growForUtilization.Preserves (Governed m) :=
  preserves_get fun s governed =>
    ((preserves_lift _).then fun _ => (preserves_lift _).then fun _ => (preserves_lift _).then
      fun _ => (preserves_lift _).then fun _ => preserves_setIdeal _) s governed

/-- External memory does not enter into the bounds by itself. -/
theorem Governed.external (governed : s.Governed m) (externalBytes externalLimit : Nat) :
    Governed m { s with externalBytes, externalLimit } := by
  have steady : Steady s { s with externalBytes, externalLimit } :=
    governed.sound.steady_of_resized ⟨⟨_, rfl⟩, rfl, rfl, rfl, rfl⟩
  exact ⟨governed.toHoused.congr steady.sound rfl rfl, governed.least, governed.most,
    governed.limit⟩

theorem preserves_externalAlloc (n : Nat) (grow : Bool) :
    (externalAlloc n grow).Preserves (Governed m) := fun _ governed =>
  ends_externalAlloc governed governed
    (fun _ => ⟨governed.external _ _, governed.external _ _⟩) grow

theorem preserves_externalFree (n : Nat) : (externalFree n).Preserves (Governed m) := fun _ governed =>
  ends_externalFree fun _ => governed.external _ _

theorem preserves_setUtilization (ratio : Binary32) :
    (modify (·.setUtilization ratio) : Action Source PUnit).Preserves (Governed m) := by
  refine preserves_modify fun s governed => ?_
  have steady : Steady s (s.setUtilization ratio) :=
    governed.sound.steady_of_resized ⟨⟨_, rfl⟩, rfl, rfl, rfl, rfl⟩
  exact governed.congr steady.sound ⟨rfl, rfl, rfl, rfl, rfl, rfl⟩

/-! ### Trimming -/

/-- The arenas after trimming. -/
theorem trim_paces (sound : s.Sound) : trim.Ends s (fun _ s' =>
    ∃ active frozen, s' = { s with active, frozen } ∧ List.Forall₂ (fun a a' : Arena =>
      a'.footprint ≤ a.footprint
        ∧ ∃ footprint words, a' = { a with space := { a.space with footprint, words } })
      s.arenas s'.arenas) fun _ s' => s' = s := by
  refine ends_trim rfl fun cut => ⟨_, _, rfl, cut.imp ?_⟩
  rintro a a' ⟨member, released, run⟩
  have laid := (sound.fits a member).laid
  exact ⟨(Arena.trimmed_of_trim laid (sound.footprint_lt member) run).footprint, Arena.trim_frame run⟩

theorem preserves_trim : trim.Preserves (Governed m) := by
  intro s governed
  refine ((trim_spec governed.sound).and (trim_paces governed.sound)).imp ?_ ?_
  case refine_2 =>
    rintro _ s' ⟨rfl, -⟩
    exact governed
  rintro _ s' ⟨steady, active, frozen, rfl, cut⟩
  refine ⟨⟨steady.sound, governed.maximum, fun a' member => ?_, ?_, ?_, governed.bounded, ?_, ?_⟩,
    governed.least, governed.most, governed.limit⟩
  · obtain ⟨a, old, less, footprint, words, rfl⟩ := exists_left_of_forall₂ cut member
    have capped := governed.capped a old
    exact ⟨Nat.le_trans less capped.within, capped.pages⟩
  · exact cut.length_eq ▸ governed.few
  · obtain ⟨-, rest⟩ := List.forall₂_cons.1 cut
    obtain ⟨⟨-, footprint, words, rfl⟩, -⟩ := List.forall₂_cons.1 cut
    have less := total_le_of_forall₂ Arena.footprint (rest.imp fun _ _ both => both.1)
    exact Nat.le_trans (Nat.add_le_add_right less _) governed.reserve
  · obtain ⟨a, member, full⟩ := governed.whole
    obtain ⟨a', here, -, footprint, words, rfl⟩ := exists_left_of_forall₂ cut.flip member
    exact ⟨_, here, full⟩
  · obtain ⟨⟨-, footprint, words, rfl⟩, -⟩ := List.forall₂_cons.1 cut
    exact governed.idle

theorem preserves_shrinkToIdeal : shrinkToIdeal.Preserves (Governed m) :=
  preserves_trim.then fun _ => preserves_get fun s governed =>
    ((preserves_setIdeal s.ideal).then fun _ => preserves_pure _) s governed

/-! ### New arenas -/

theorem capped_of_freshArena {number start maximum live : Nat} {map : Bitmap}
    (run : freshArena number start maximum live = .ok (.ok (a, map)))
    (few : start < Size.unreservable) :
    a.Capped ∧ a.absoluteMax = maximum ∧ a.allowed < start + Size.page := by
  obtain ⟨space, create, rfl, rfl⟩ := freshArena_eq run
  obtain ⟨region, allowed, rfl, -, pages, near⟩ := Space.create_frame create few
  exact ⟨⟨Nat.zero_le _, pages⟩, rfl, near⟩

theorem SplitOff.governed {map : Bitmap} {allowed : Nat} (split : s.SplitOff a map allowed s')
    (governed : s.Governed m) : s'.Governed m := by
  have sound := (split.steady governed.sound).sound
  have room := split.room
  obtain ⟨capped, reserve, -⟩ := capped_of_freshArena split.made (by decide)
  obtain ⟨pin, pinned⟩ := governed.pin
  cases pin.symm.trans split.pinned
  obtain rfl := split.pushed
  refine ⟨⟨sound, governed.maximum, fun b member => ?_, split.few, ?_, governed.bounded, ?_,
    fun nothing => ?_⟩, governed.least, governed.most, governed.limit⟩
  · rcases List.mem_cons.1 member with rfl | old
    · exact capped
    · exact pinned.capped b old
  · change s.footprint + a.absoluteMax ≤ s.absoluteMax
    omega
  · obtain ⟨b, old, full⟩ := pinned.whole
    exact ⟨b, List.mem_cons_of_mem _ old, full⟩
  · change s.absoluteMax = 0 at nothing
    omega

theorem preserves_addArena : addArena.Preserves (Governed m) := fun _ governed =>
  ends_addArena governed governed fun split => split.governed governed

theorem Governed.tried (governed : s.Governed m) : Governed m { s with zygoteSplit := true } := by
  have steady : Steady s { s with zygoteSplit := true } :=
    governed.sound.steady_of_resized ⟨⟨_, rfl⟩, rfl, rfl, rfl, rfl⟩
  exact governed.congr steady.sound ⟨rfl, rfl, rfl, rfl, rfl, rfl⟩

theorem preserves_beforeFork : beforeFork.Preserves (Governed m) := fun _ governed =>
  ends_beforeFork governed (preserves_addArena _ governed.tried)

theorem preserves_afterZygote : afterZygote.Preserves (Governed m) := fun _ governed =>
  ends_afterZygote governed (preserves_addArena _ governed)

theorem startup_governed {start maximum : Nat} {zygote : Bool}
    (run : startup start maximum zygote = .ok (.ok s)) : s.Governed maximum := by
  obtain ⟨sound, -, -⟩ := startup_sound run
  obtain ⟨order, active, map, make, rfl⟩ := startup_eq run
  have fresh := fresh_of_freshArena make
  have large := (Size.pagesUp_bounds fresh.capacity).1
  have small := fresh.small
  have bounded : maximum < Size.unreservable := by omega
  obtain ⟨capped, reserve, near⟩ := capped_of_freshArena make (by omega)
  refine ⟨⟨sound, rfl, fun a member => ?_, (by decide : 1 ≤ Size.maxArenas), ?_, bounded, ?_,
    fun nothing => ?_⟩, Nat.zero_le _, order, fun _ none => nomatch none⟩
  · rw [List.mem_singleton.1 member]
    exact capped
  · exact Nat.le_of_eq ((Nat.zero_add _).trans reserve)
  · exact ⟨active, List.mem_cons_self, (Size.pagesUp_eq_ok.1 fresh.capacity).2⟩
  · have whole := capped.pages
    change maximum = 0 at nothing
    change active.allowed = 0
    simp only [Size.page] at *
    omega

/-! ### Bitmaps -/

theorem snapshotBitmaps_paces (s : Source) : Paced s s.snapshotBitmaps.2 := by
  obtain ⟨bitmaps, same⟩ := s.snapshotBitmaps_frame
  rw [same]
  exact ⟨rfl, rfl, rfl, rfl, rfl, rfl⟩

theorem replaceCurrent_paces (s : Source) (numbers : List Nat) :
    Paced s (s.replaceCurrent numbers) := by
  have gauges : (s.replaceCurrent numbers).arenas.map Arena.gauge = s.arenas.map Arena.gauge :=
    map_replaceCurrent Arena.gauge fun _ _ _ => rfl
  obtain ⟨active, frozen, published, same⟩ := s.replaceCurrent_frame numbers
  rw [same] at gauges ⊢
  exact ⟨gauges, rfl, rfl, rfl, rfl, rfl⟩

/-! ### Changes that move nothing that steers growth -/

theorem preserves_paced {change : Source → Source} (steady : ∀ s, s.Sound → Steady s (change s))
    (paces : ∀ s, Paced s (change s)) : Preserves (Governed m) (modify change) :=
  preserves_modify fun s governed => governed.congr (steady s governed.sound).sound (paces s)

theorem preserves_setGeneration (x generation : Nat) :
    Preserves (Governed m) (modify (·.setGeneration x generation)) :=
  preserves_paced (fun _ sound => sound.steady_setGeneration x generation)
    fun s => s.setGeneration_paces x generation

theorem preserves_setWords (x index count value : Nat) :
    Preserves (Governed m) (modify (·.setWords x index count value)) :=
  preserves_paced (fun _ sound => sound.steady_setWords x index count value)
    fun s => s.setWords_paces x index count value

theorem preserves_snapshotBitmaps :
    Preserves (Governed m) (modify fun s => s.snapshotBitmaps.2) :=
  preserves_paced (fun _ => snapshotBitmaps_steady) snapshotBitmaps_paces

theorem preserves_replaceCurrent (numbers : List Nat) :
    Preserves (Governed m) (modify (·.replaceCurrent numbers)) :=
  preserves_paced (fun _ sound => sound.steady_replaceCurrent numbers)
    fun s => s.replaceCurrent_paces numbers

end Source

end ManagedHeap
