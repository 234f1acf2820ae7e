import ManagedHeap.Object
import ManagedHeap.Proofs.HeapRuns

/-!
How far the arenas and the external memory together keep below the absolute maximum. The room for
external memory is looked at before the collection that a request may need, and the collection may
let the active arena grow into that room. A new arena is allowed its first bytes whatever external
memory there is. Where no step did either, the maximum holds to a page.
-/

namespace ManagedHeap

namespace Source

open Action

/-- What the arenas may come to leaves room for the external memory, to a page. -/
def Within (s : Source) : Prop :=
  s.frozenFootprint + s.active.allowed + s.externalBytes < s.absoluteMax + Size.page

/-- External memory has not become more, and unless an arena was started its room is kept. -/
structure Eased (s s' : Source) : Prop where
  external : s'.externalBytes ≤ s.externalBytes
  length : s.arenas.length ≤ s'.arenas.length
  within : s'.arenas.length = s.arenas.length → s.Within → s'.Within

/-- Nothing was done to the external memory but to keep its room. -/
structure Guided (s s' : Source) : Prop extends Eased s s' where
  same : s'.externalBytes = s.externalBytes

variable {s s' s'' : Source} {m n x : Nat} {start maximum : Nat} {zygote : Bool}

theorem Eased.trans (first : Eased s s') (second : Eased s' s'') : Eased s s'' where
  external := Nat.le_trans second.external first.external
  length := Nat.le_trans first.length second.length
  within := by
    intro length within
    have below := first.length
    have above := second.length
    exact second.within (by omega) (first.within (by omega) within)

theorem Guided.trans (first : Guided s s') (second : Guided s' s'') : Guided s s'' :=
  ⟨first.toEased.trans second.toEased, second.same.trans first.same⟩

theorem guided_of_same (external : s'.externalBytes = s.externalBytes)
    (length : s'.arenas.length = s.arenas.length) (within : s.Within → s'.Within) : Guided s s' :=
  ⟨⟨Nat.le_of_eq external, Nat.le_of_eq length.symm, fun _ => within⟩, external⟩

theorem Guided.refl (s : Source) : Guided s s := guided_of_same rfl rfl id

theorem Grown.guided (grown : Grown s s') : Guided s s' := by
  obtain ⟨⟨active, bitmaps, rfl⟩, -, allowed, -, -⟩ := grown
  refine guided_of_same rfl rfl fun within => ?_
  unfold Within at within ⊢
  rw [allowed]
  exact within

theorem Paced.guided (paced : Paced s s') : Guided s s' := by
  have active : s'.active.gauge = s.active.gauge :=
    congrArg (fun l => l.headD default) paced.gauges
  have footprints : s'.arenas.map Arena.footprint = s.arenas.map Arena.footprint := by
    simpa [Arena.gauge, Function.comp_def] using congrArg (List.map fun g => g.2.1) paced.gauges
  have length : s'.arenas.length = s.arenas.length := by
    simpa using congrArg List.length paced.gauges
  simp only [Arena.gauge, Prod.mk.injEq] at active
  refine guided_of_same paced.external length fun within => ?_
  unfold Within at within ⊢
  rw [frozenFootprint_of_map footprints, active.2.2.1, paced.external, paced.maximum]
  exact within

/-- The governed state that an action leaves, seen from where it all began. -/
def Led (m : Nat) (s s' : Source) : Prop := s'.Governed m ∧ Guided s s'

theorem Governed.led (governed : s.Governed m) : Led m s s := ⟨governed, .refl s⟩

theorem led_of_ends {α : Type} {action : Action Source α}
    (preserves : action.Preserves (Governed m))
    (ends : ∀ s, s.Governed m → action.Ends s (fun _ s' => Guided s s') fun _ s' => Guided s s')
    (s : Source) : action.Preserves (Led m s) :=
  preserves.since Guided Guided.trans ends s

theorem led_of_modify {change : Source → Source}
    (preserves : Preserves (Governed m) (modify change)) (guided : ∀ s, Guided s (change s))
    (s : Source) : Preserves (Led m s) (modify change) :=
  led_of_ends preserves (fun s _ => ends_modify.2 (guided s)) s

/-! ### Sizing -/

/-- The ideal size has the external memory in it, so that what it leaves to the active arena does
not touch the room for that. Where it leaves nothing, the arena keeps to what it has. -/
theorem Housed.within_of_shared {allowed size : Nat} {softLimit : Option Nat} (housed : s.Housed m)
    (most : size ≤ s.absoluteMax)
    (shared : s.Shared (size - s.overhead) allowed softLimit)
    (ideal : Nat) (within : s.Within) : (s.steered allowed softLimit ideal).Within := by
  have capped := (housed.capped _ s.active_mem).within
  have pages := shared.pages
  have cases := shared.cases
  unfold overhead at cases
  change s.frozenFootprint + allowed + s.externalBytes < s.absoluteMax + Size.page
  unfold Within at within
  simp only [Size.page] at *
  omega

theorem Housed.setIdeal_guided (housed : s.Housed m) (minimum : s.minimum ≤ s.absoluteMax)
    (size : Nat) : (setIdeal size).Ends s (fun _ s' => Guided s s') fun _ s' => Guided s s' := by
  refine (housed.setIdeal_spec minimum size).imp ?_ fun _ _ => False.elim
  rintro _ _ ⟨allowed, softLimit, rfl, shared⟩
  have most : max s.minimum (min size s.absoluteMax) ≤ s.absoluteMax :=
    Nat.max_le.2 ⟨minimum, Nat.min_le_right _ _⟩
  exact guided_of_same rfl rfl (housed.within_of_shared most shared _)

theorem led_setIdeal (size : Nat) (s : Source) : (setIdeal size).Preserves (Led m s) :=
  led_of_ends (preserves_setIdeal size) (fun _ governed =>
    governed.setIdeal_guided (Nat.le_trans governed.least governed.most) size) s

theorem led_setMinimum (size : Nat) (s : Source) : (setMinimum size).Preserves (Led m s) := by
  refine led_of_ends (preserves_setMinimum size) (fun s governed => ?_) s
  have first : Guided s { s with minimum := min size s.absoluteMax } := guided_of_same rfl rfl id
  refine governed.ends_setMinimum (fun _ _ => first) fun housed => ?_
  refine (housed.setIdeal_guided (Nat.min_le_right _ _) s.ideal).imp ?_ ?_
  · exact fun _ _ guided => first.trans guided
  · exact fun _ _ guided => first.trans guided

theorem led_growForUtilization (s : Source) : growForUtilization.Preserves (Led m s) :=
  preserves_get fun s₁ led =>
    ((preserves_lift _).then fun _ => (preserves_lift _).then fun _ => (preserves_lift _).then
      fun _ => (preserves_lift _).then fun _ => led_setIdeal _ s) s₁ led

theorem led_trim (s : Source) : trim.Preserves (Led m s) := by
  refine led_of_ends preserves_trim (fun s governed => ?_) s
  refine (trim_paces governed.sound).imp ?_ ?_
  case refine_2 =>
    rintro _ s' rfl
    exact .refl s'
  rintro _ s' ⟨active, frozen, rfl, cut⟩
  refine guided_of_same rfl cut.length_eq.symm fun within => ?_
  obtain ⟨⟨-, footprint, words, rfl⟩, rest⟩ := List.forall₂_cons.1 cut
  have less := total_le_of_forall₂ Arena.footprint (rest.imp fun _ _ both => both.1)
  exact Nat.lt_of_le_of_lt (Nat.add_le_add_right (Nat.add_le_add_right less _) _) within

theorem led_shrinkToIdeal (s : Source) : shrinkToIdeal.Preserves (Led m s) :=
  (led_trim s).then fun _ => preserves_get fun s₁ led =>
    ((led_setIdeal s₁.ideal s).then fun _ => preserves_pure _) s₁ led

/-! ### Allocating and freeing -/

theorem led_alloc (n : Nat) (s : Source) : (alloc n).Preserves (Led m s) :=
  led_of_ends (preserves_alloc n) (fun _ governed => (alloc_grows governed.sound n).imp
    (fun _ _ grown => grown.guided) fun _ _ grown => grown.guided) s

/-- The arena is let grow into all that the external memory leaves. -/
theorem Housed.within_of_room (housed : s.Housed m) {allowed : Nat}
    (near : allowed < s.active.absoluteMax - s.externalBytes + Size.page)
    (room : s.externalBytes < s.active.absoluteMax) :
    Within { s with active := { s.active with space := { s.active.space with allowed } } } := by
  have reserve := housed.reserve
  change s.frozenFootprint + allowed + s.externalBytes < s.absoluteMax + Size.page
  omega

theorem led_allocAndGrowArena (n : Nat) (s : Source) :
    (allocAndGrowArena n).Preserves (Led m s) := by
  rintro s₁ ⟨governed, sofar⟩
  refine governed.ends_allocAndGrowArena (fun _ => ⟨governed, sofar⟩)
    fun {allowed} room _ near raised => ?_
  have opened : Guided s₁
      { s₁ with active := { s₁.active with space := { s₁.active.space with allowed } } } := by
    refine guided_of_same rfl rfl fun kept => ?_
    rcases near with rfl | near
    · have capped := (governed.capped _ s₁.active_mem).within
      unfold Within at kept ⊢
      exact Nat.lt_of_le_of_lt (Nat.add_le_add_right (Nat.add_le_add_left capped _) _) kept
    · exact governed.within_of_room near room
  refine (led_alloc n s _ ⟨raised, sofar.trans opened⟩).mono ?_
  rintro object s₂ ⟨-, sofar₂⟩ governed₂
  refine ⟨governed₂.pin.2, sofar₂.trans (guided_of_same rfl rfl fun kept => ?_)⟩
  have capped := (governed₂.capped _ s₂.active_mem).within
  exact Nat.lt_of_le_of_lt (Nat.add_le_add_right (Nat.add_le_add_left capped _) _) kept

theorem led_allocAndGrow (n : Nat) (s : Source) : (allocAndGrow n).Preserves (Led m s) := by
  refine fun s₁ led => ends_lastResort (led_alloc n s s₁ led) (led_alloc n s)
    (led_allocAndGrowArena n s) (fun _ size => led_setIdeal size s) ?_ fun _ _ led => led
  rintro s₂ ⟨governed, sofar⟩
  exact ⟨governed.unlimited, sofar.trans (guided_of_same rfl rfl id)⟩

theorem led_free (x : Nat) (s : Source) : (free x).Preserves (Led m s) := by
  refine led_of_ends (preserves_free x) (fun s _ => (free_paces x).imp ?_ ?_) s
  · exact fun _ _ paced => paced.guided
  · rintro _ _ rfl
    exact .refl _

/-! ### New arenas -/

theorem SplitOff.guided {a : Arena} {map : Bitmap} {allowed : Nat}
    (split : s.SplitOff a map allowed s') : Guided s s' := by
  obtain rfl := split.pushed
  have more : s.arenas.length < s.arenas.length + 1 := Nat.lt_succ_self _
  exact ⟨⟨Nat.le_refl _, Nat.le_of_lt more, fun length => absurd length (Nat.ne_of_gt more)⟩, rfl⟩

theorem led_addArena (s : Source) : addArena.Preserves (Led m s) := fun _ led =>
  ends_addArena led led fun split => ⟨split.governed led.1, led.2.trans split.guided⟩

theorem led_beforeFork (s : Source) : beforeFork.Preserves (Led m s) := fun _ led =>
  ends_beforeFork led (led_addArena s _ ⟨led.1.tried, led.2.trans (guided_of_same rfl rfl id)⟩)

theorem led_afterZygote (s : Source) : afterZygote.Preserves (Led m s) := fun _ led =>
  ends_afterZygote led (led_addArena s _ led)

/-! ### Steps -/

/-- The step does not count external memory and does not uncount any. -/
def Operation.isInternal : Operation → Prop
  | .externalAlloc .. | .externalFree _ => False
  | _ => True

theorem led_perform (op : Operation) (internal : op.isInternal) (s : Source) :
    (perform op).Preserves (Led m s) := by
  cases op with
  | alloc n => exact led_alloc n s
  | allocAndGrow n => exact led_allocAndGrow n s
  | free x => exact preserves_quietly (led_free x s)
  | addArena => exact preserves_quietly (led_addArena s)
  | beforeFork => exact preserves_quietly (led_beforeFork s)
  | afterZygote => exact preserves_quietly (led_afterZygote s)
  | setUtilization ratio =>
    exact preserves_quietly (led_of_modify (preserves_setUtilization ratio)
      (fun _ => guided_of_same rfl rfl id) s)
  | setMinimum size => exact preserves_quietly (led_setMinimum size s)
  | growForUtilization => exact preserves_quietly (led_growForUtilization s)
  | trim => exact preserves_quietly (led_trim s)
  | shrinkToIdeal => exact preserves_quietly (led_shrinkToIdeal s)
  | externalAlloc n grow => exact internal.elim
  | externalFree n => exact internal.elim
  | setGeneration x generation =>
    exact preserves_quietly (led_of_modify (preserves_setGeneration x generation)
      (fun s => (s.setGeneration_paces x generation).guided) s)
  | write x index count value =>
    exact preserves_quietly (led_of_modify (preserves_setWords x index count value)
      (fun s => (s.setWords_paces x index count value).guided) s)
  | snapshotBitmaps =>
    exact preserves_quietly (led_of_modify preserves_snapshotBitmaps
      (fun s => s.snapshotBitmaps_paces.guided) s)
  | replaceBitmaps numbers =>
    exact preserves_quietly (led_of_modify (preserves_replaceCurrent numbers)
      (fun s => (s.replaceCurrent_paces numbers).guided) s)

theorem externalFree_eased (n : Nat) (s : Source) :
    (externalFree n).Ends s (fun _ s' => Eased s s') fun _ s' => Eased s s' := by
  refine ends_externalFree fun limit => ⟨Nat.sub_le _ _, Nat.le_refl _, fun _ within => ?_⟩
  exact Nat.lt_of_le_of_lt (Nat.add_le_add_left (Nat.sub_le _ _) _) within

theorem eased_perform (op : Operation) (quiet : ¬ op.charges) (s : Source) :
    (perform op).Preserves fun s' => s'.Governed m ∧ Eased s s' := by
  refine (preserves_perform op).since Eased Eased.trans (fun s governed => ?_) s
  by_cases internal : op.isInternal
  · exact (led_perform op internal s s governed.led).imp (fun _ _ led => led.2.toEased)
      fun _ _ led => led.2.toEased
  · cases op with
    | externalAlloc n grow => exact absurd trivial quiet
    | externalFree n =>
      simp only [perform, quietly, ends_bind, ends_pure]
      exact externalFree_eased n s
    | _ => exact absurd trivial internal

theorem Steps.led (steps : Steps Operation.collects s s') (governed : s.Governed m) :
    Led m s s' := by
  refine steps.holds (fun op known => led_perform op ?_ s) governed.led
  cases op <;> first | exact trivial | exact known.elim

theorem Steps.eased (steps : Steps (fun op => ¬ op.charges) s s') (governed : s.Governed m) :
    s'.Governed m ∧ Eased s s' :=
  steps.holds (fun op quiet => eased_perform op quiet s)
    ⟨governed, Nat.le_refl _, Nat.le_refl _, fun _ => id⟩

theorem startup_within (run : startup start maximum zygote = .ok (.ok s)) :
    s.Within ∧ s.externalBytes = 0 := by
  have bounded := (startup_governed run).bounded
  have maximum_eq := (startup_governed run).maximum
  obtain ⟨order, active, map, make, rfl⟩ := startup_eq run
  obtain ⟨-, -, near⟩ := capped_of_freshArena make (by omega)
  refine ⟨?_, rfl⟩
  change 0 + active.allowed + 0 < maximum + Size.page
  omega

end Source

namespace Heap

open Action

variable {h h' : Heap} {m n : Nat} {config : Config}

/-- The step counted external memory or started an arena, and with what the active arena may then
come to there is too little room for the external memory. -/
def Overcommits (h h' : Heap) : Prop :=
  (h.source.externalBytes < h'.source.externalBytes
      ∨ h.source.arenas.length < h'.source.arenas.length)
    ∧ h'.source.active.absoluteMax < h'.source.active.allowed + h'.source.externalBytes

instance : Decidable (Overcommits h h') := inferInstanceAs (Decidable (_ ∧ _))

/-- What a step has come to, as far as external memory goes. -/
structure Accrues (m : Nat) (h h' : Heap) : Prop where
  governed : h'.source.Governed m
  external : h.source.externalBytes ≤ m → h'.source.externalBytes ≤ m
  within : h.source.Within → ¬ Overcommits h h' → h'.source.Within

/-- Where a step leaves room for all the external memory, the absolute maximum holds to a page. -/
theorem within_of_not_overcommits (governed : h'.source.Governed m)
    (raised : h.source.externalBytes < h'.source.externalBytes
      ∨ h.source.arenas.length < h'.source.arenas.length) (kept : ¬ Overcommits h h') :
    h'.source.Within := by
  have room := Nat.not_lt.1 fun more => kept ⟨raised, more⟩
  have reserve := governed.reserve
  have page : 0 < Size.page := by decide
  unfold Source.Within
  omega

theorem accrues_of_eased (governed : h'.source.Governed m)
    (eased : Source.Eased h.source h'.source) : Accrues m h h' := by
  refine ⟨governed, Nat.le_trans eased.external, fun within kept => ?_⟩
  rcases Nat.eq_or_lt_of_le eased.length with same | more
  · exact eased.within same.symm within
  · exact within_of_not_overcommits governed (.inr more) kept

theorem Requested.accrues (governed : h.source.Governed m) (requested : Requested n h h') :
    Accrues m h h' := by
  obtain ⟨checked, s, before, after, result⟩ := requested
  obtain ⟨governed₁, guided₁⟩ := before.led governed
  obtain ⟨governed₂, guided₂⟩ := after.led governed₁
  have guided := guided₁.trans guided₂
  rcases result with same | ⟨⟨externalLimit, charged⟩, fits⟩
  · exact accrues_of_eased (same ▸ governed₂) (same ▸ guided.toEased)
  have reserve := governed₁.reserve
  have maximum := governed₁.maximum
  have total : h'.source.externalBytes = checked.externalBytes + n := by
    rw [charged, ← guided₂.same]
  have governed' : h'.source.Governed m := charged ▸ governed₂.external _ _
  refine ⟨governed', fun _ => by omega, fun within kept => ?_⟩
  cases n with
  | zero =>
    have none : Source.Guided s h'.source := by
      rw [charged]
      exact Source.guided_of_same rfl rfl id
    exact (accrues_of_eased governed' (guided.trans none).toEased).within within kept
  | succ n =>
    refine within_of_not_overcommits governed' (.inl ?_) kept
    rw [total, guided₁.same]
    omega

section

variable [ObjectModel]

theorem perform_accrues (governed : h.source.Governed m) (op : Operation) :
    Accrues m h ((perform op).after h) := by
  refine (ends_perform (fun record bytes => ?_) (fun h' steps => ?_) op).after (Accrues m h)
    (fun _ _ accrues => accrues) fun _ _ accrues => accrues
  · exact (requestExternal_spec record bytes h).imp (fun _ _ requested => requested.accrues governed)
      fun _ _ requested => requested.accrues governed
  · obtain ⟨governed', eased⟩ := steps.eased governed
    exact accrues_of_eased governed' eased

omit [ObjectModel] in
theorem create_within (run : create config = .ok (.ok h)) :
    h.source.Governed config.maximumSize ∧ h.source.Within ∧ h.source.externalBytes = 0 := by
  obtain ⟨s, started, source, -⟩ := create_frame run
  obtain ⟨within, none⟩ := Source.startup_within started
  have governed := (Source.preserves_setUtilization config.utilization s
    (Source.startup_governed started)).ok rfl
  rw [source]
  exact ⟨governed, within, none⟩

theorem Reachable.external_le (reachable : Reachable config h) :
    h.source.Governed config.maximumSize ∧ h.source.externalBytes ≤ config.maximumSize := by
  induction reachable with
  | create run =>
    obtain ⟨governed, -, none⟩ := create_within run
    exact ⟨governed, none ▸ Nat.zero_le _⟩
  | step op _ ih =>
    have accrues := perform_accrues ih.1 op
    exact ⟨accrues.governed, accrues.external ih.2⟩

/-- A heap that came to be without a step that overcommits it. -/
inductive Guarded (config : Config) : Heap → Prop where
  | create {h : Heap} : create config = .ok (.ok h) → Guarded config h
  | step {h : Heap} (op : Operation) :
    Guarded config h → ¬ Overcommits h ((perform op).after h) →
      Guarded config ((perform op).after h)

theorem Guarded.within (guarded : Guarded config h) :
    h.source.Governed config.maximumSize ∧ h.source.Within := by
  induction guarded with
  | create run =>
    obtain ⟨governed, within, -⟩ := create_within run
    exact ⟨governed, within⟩
  | step op _ kept ih =>
    have accrues := perform_accrues ih.1 op
    exact ⟨accrues.governed, accrues.within ih.2 kept⟩

/-- The arenas alone keep to the absolute maximum, and so does the external memory alone. Together
they keep to it, with the external memory counted in whole pages, as long as no step overcommits the
heap. -/
theorem Reachable.within_ceiling (reachable : Reachable config h) :
    h.source.footprint ≤ h.source.ceiling ∧ h.source.externalBytes ≤ h.source.absoluteMax
      ∧ (Guarded config h →
        h.source.footprint + h.source.externalBytes / Size.page * Size.page ≤ h.source.ceiling) := by
  obtain ⟨governed, external⟩ := reachable.external_le
  refine ⟨governed.sound.footprint_le_ceiling, governed.maximum ▸ external, fun guarded => ?_⟩
  have capped := (governed.capped _ h.source.active_mem).within
  have pages := governed.sound.footprint_pages
  have footprint : h.source.footprint = h.source.active.footprint + h.source.frozenFootprint := rfl
  have within := guarded.within.2
  unfold Source.Within at within
  simp only [Source.ceiling, Size.page] at *
  omega

/-- Does no step overcommit the heap? -/
def commitsWell (h : Heap) : List Operation → Bool
  | [] => true
  | op :: rest =>
    let h' := (perform op).after h
    !decide (Overcommits h h') && h'.commitsWell rest

theorem Guarded.afterAll (guarded : Guarded config h) (ops : List Operation)
    (well : h.commitsWell ops = true) : Guarded config (h.afterAll ops) := by
  induction ops generalizing h with
  | nil => exact guarded
  | cons op rest ih =>
    simp only [commitsWell, Bool.and_eq_true, Bool.not_eq_true', decide_eq_false_iff_not] at well
    exact ih (guarded.step op well.1) well.2

end

/-- The settings of a heap that may grow to four mebibytes. -/
def roomyConfig : Config := { startSize := 4096, maximumSize := 4194304, startWorker := false }

/-- The heap of four mebibytes as it begins. -/
def roomy : Heap :=
  match create roomyConfig with
  | .ok (.ok h) => h
  | _ => default

/-- External memory, then an object next to it that needs the arena to grow. -/
def shared : List Operation :=
  [.requestExternal 0 9000, .request 0 3000000 {}, .collect false, .freeExternal 100]

theorem shared_within_ceiling : (roomy.afterAll shared).source.externalBytes = 8900
    ∧ Guarded roomyConfig (roomy.afterAll shared)
    ∧ (roomy.afterAll shared).source.footprint
        + (roomy.afterAll shared).source.externalBytes / Size.page * Size.page
      ≤ (roomy.afterAll shared).source.ceiling := by
  have created : create roomyConfig = .ok (.ok roomy) := rfl
  have guarded : Guarded roomyConfig (roomy.afterAll shared) :=
    (Guarded.create created).afterAll shared (by decide +kernel)
  have bounds := Reachable.within_ceiling ((Reachable.create created).afterAll shared)
  exact ⟨by decide +kernel, guarded, bounds.2.2 guarded⟩

/-- The settings of a heap of two pages. -/
def tightConfig : Config := { startSize := 4096, maximumSize := 8192, startWorker := false }

/-- The heap of two pages as it begins. -/
def tight : Heap :=
  match create tightConfig with
  | .ok (.ok h) => h
  | _ => default

/-- One page is found for external memory, and the collection that comes before it is counted gives
both pages to the arena. -/
example : tight.source.ceiling = 8192
    ∧ tight.commitsWell [.requestExternal 0 4096] = false
    ∧ (tight.afterAll [.requestExternal 0 4096, .request 0 8000 {}]).source.footprint = 8192
    ∧ (tight.afterAll [.requestExternal 0 4096, .request 0 8000 {}]).source.externalBytes = 4096 := by
  decide +kernel

end Heap

end ManagedHeap
