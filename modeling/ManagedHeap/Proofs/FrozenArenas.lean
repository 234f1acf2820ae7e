import ManagedHeap.Proofs.Contents
import ManagedHeap.Proofs.SourceRuns

/-!
Frozen arenas. Once an arena no longer serves allocations, memory of it may be given back and what
lives in it may die, and that is all. None of it rests on what the live bitmaps show: they may have
been exchanged for any others over the same ranges before.
-/

namespace ManagedHeap

/-- What may become of an arena that is frozen. -/
structure Arena.Remains (a a' : Arena) : Prop where
  live : a'.live = a.live
  region : a'.space.region = a.space.region
  chunks : ∀ offset, a'.space.recorded? offset = a.space.recorded? offset
  top : a'.space.top = a.space.top
  footprint : a'.footprint ≤ a.footprint

theorem Arena.Remains.refl (a : Arena) : a.Remains a :=
  ⟨rfl, rfl, fun _ => rfl, rfl, Nat.le_refl _⟩

theorem Arena.Remains.trans {a a' a'' : Arena} (first : a.Remains a') (second : a'.Remains a'') :
    a.Remains a'' where
  live := second.live.trans first.live
  region := second.region.trans first.region
  chunks offset := (second.chunks offset).trans (first.chunks offset)
  top := second.top.trans first.top
  footprint := Nat.le_trans second.footprint first.footprint

/-- Stamping a chunk changes neither its length nor what it holds. -/
theorem Space.intact_setGeneration (s : Space) (address generation : Nat) :
    s.Intact (s.setGeneration address generation) := by
  obtain ⟨chunks, same, recorded⟩ := s.setGeneration_frame address generation
  have extent : ∀ offset, (s.setGeneration address generation).extent offset = s.extent offset := by
    intro offset
    rw [extent_eq_recorded, extent_eq_recorded, recorded, same]
    rfl
  refine ⟨?_, ?_, ?_, fun offset _ => extent offset, ?_⟩
  · rw [same]
  · intro offset chunk
    rw [mem_chunks_iff, recorded]
    exact mem_chunks_iff.1 chunk
  · intro offset _
    rw [same]
    rfl
  · intro offset _ k _
    rw [same]

namespace Source

open Action

variable {s s' s'' : Source} {a : Arena} {x n number index start maximum : Nat} {zygote : Bool}
  {quiet : Prop}

/-- The arenas lie apart, each laid out in order and with a bitmap over its region. -/
structure Settled (s : Source) : Prop where
  laid : ∀ a ∈ s.arenas, a.space.Laid
  known : ∀ site ∈ s.sites, site.1 < s.bitmaps.length
  ranges : ∀ site ∈ s.sites, (s.bitmap site.1).base = site.2.base
    ∧ (s.bitmap site.1).limit = site.2.limit
  apart : s.sites.Pairwise fun young old => old.2.limit ≤ young.2.base
  below : ∀ site ∈ s.sites, site.2.limit ≤ Region.arenaBase s.sites.length
  sized : ∀ site ∈ s.sites, 0 < site.2.base ∧ 0 < site.2.size ∧ site.2.size < Size.unreservable

/-- What may become of a frozen arena and its bitmap from one state to another. What its chunks hold
stays too, where nobody writes. -/
structure Stays (quiet : Prop) (s s' : Source) (a a' : Arena) : Prop extends a.Remains a' where
  bits : ∀ x, (s'.bitmap a'.live).test x = true → (s.bitmap a.live).test x = true
  contents : quiet → a.space.Intact a'.space

/-- The frozen arenas stay. Those frozen since stand in front of them. -/
structure Keeps (quiet : Prop) (s s' : Source) : Prop where
  settled : s'.Settled
  frozen : ∃ younger older, s'.frozen = younger ++ older
    ∧ List.Forall₂ (Stays quiet s s') s.frozen older

/-! ### Chains of states -/

theorem Stays.trans {a' a'' : Arena} (first : Stays quiet s s' a a')
    (second : Stays quiet s' s'' a' a'') : Stays quiet s s'' a a'' where
  toRemains := first.toRemains.trans second.toRemains
  bits x bit := first.bits x (second.bits x bit)
  contents calm := (first.contents calm).trans (second.contents calm)

theorem forall₂_append_left {α β : Type} {related : α → β → Prop} {young old : List α}
    {l : List β} (both : List.Forall₂ related (young ++ old) l) :
    ∃ l₁ l₂, l = l₁ ++ l₂ ∧ List.Forall₂ related old l₂ := by
  induction young generalizing l with
  | nil => exact ⟨[], l, rfl, both⟩
  | cons first rest ih =>
    cases both with
    | @cons _ b _ l' _ later =>
      obtain ⟨l₁, l₂, rfl, found⟩ := ih later
      exact ⟨b :: l₁, l₂, rfl, found⟩

theorem exists_right_of_forall₂ {α β : Type} {related : α → β → Prop} {l : List α} {l' : List β}
    (both : List.Forall₂ related l l') {a : α} (member : a ∈ l) : ∃ b ∈ l', related a b := by
  obtain ⟨b, here, rel⟩ := exists_left_of_forall₂ both.flip member
  exact ⟨b, here, rel⟩

theorem forall₂_trans {α β γ : Type} {r₁ : α → β → Prop} {r₂ : β → γ → Prop} {r : α → γ → Prop}
    {l₁ : List α} {l₂ : List β} {l₃ : List γ} (chain : ∀ a b c, r₁ a b → r₂ b c → r a c)
    (first : List.Forall₂ r₁ l₁ l₂) (second : List.Forall₂ r₂ l₂ l₃) : List.Forall₂ r l₁ l₃ := by
  induction first generalizing l₃ with
  | nil =>
    cases second
    exact .nil
  | cons here _ ih =>
    cases second with
    | cons here' later => exact .cons (chain _ _ _ here here') (ih later)

theorem Keeps.trans (first : Keeps quiet s s') (second : Keeps quiet s' s'') :
    Keeps quiet s s'' := by
  obtain ⟨younger, older, frozen, kept⟩ := first.frozen
  obtain ⟨younger', rest, frozen', kept'⟩ := second.frozen
  rw [frozen] at kept'
  obtain ⟨between, older', rfl, last⟩ := forall₂_append_left kept'
  refine ⟨second.settled, younger' ++ between, older', ?_, ?_⟩
  · rw [frozen', List.append_assoc]
  · exact forall₂_trans (fun _ _ _ here later => here.trans later) kept last

/-! ### Single changes -/

theorem frozen_sites (member : a ∈ s.frozen) : (a.live, a.space.region) ∈ s.sites :=
  mem_sites (List.mem_cons_of_mem _ member)

/-- Arenas that stay where they are stay settled. -/
theorem Settled.of_sites (settled : s.Settled) (sites : s'.sites = s.sites)
    (laid : ∀ a ∈ s'.arenas, a.space.Laid) (more : s.bitmaps.length ≤ s'.bitmaps.length)
    (ranges : ∀ site ∈ s.sites, (s'.bitmap site.1).base = (s.bitmap site.1).base
      ∧ (s'.bitmap site.1).limit = (s.bitmap site.1).limit) : s'.Settled where
  laid := laid
  known site member := Nat.lt_of_lt_of_le (settled.known site (sites ▸ member)) more
  ranges site member := by
    rw [sites] at member
    obtain ⟨base, limit⟩ := ranges site member
    rw [base, limit]
    exact settled.ranges site member
  apart := sites ▸ settled.apart
  below := sites ▸ settled.below
  sized := sites ▸ settled.sized

/-- An arena in front of the others has a bitmap of its own. -/
theorem Settled.live_ne (settled : s.Settled) (member : a ∈ s.frozen) :
    a.live ≠ s.active.live := by
  intro same
  have apart := settled.apart
  rw [sites, arenas, List.map_cons, List.pairwise_cons] at apart
  have order : a.space.region.limit ≤ s.active.space.region.base :=
    apart.1 _ (List.mem_map_of_mem member)
  have shared : a.space.region.base = s.active.space.region.base := by
    have own : (s.bitmap a.live).base = a.space.region.base :=
      (settled.ranges _ (frozen_sites member)).1
    rw [← own, same]
    exact (settled.ranges _ (mem_sites s.active_mem)).1
  have size : 0 < a.space.region.size := (settled.sized _ (frozen_sites member)).2.1
  rw [Region.limit] at order
  omega

/-- The frozen arenas keep what they are if each of them does. -/
theorem Settled.keeps (settled : s.Settled) (live : s'.active.live = s.active.live)
    (region : s'.active.space.region = s.active.space.region) (laid : s'.active.space.Laid)
    (frozen : List.Forall₂ (fun a a' => a.Remains a' ∧ a'.space.Laid
      ∧ (quiet → a.space.Intact a'.space)) s.frozen s'.frozen)
    (more : s.bitmaps.length ≤ s'.bitmaps.length)
    (ranges : ∀ site ∈ s.sites, (s'.bitmap site.1).base = (s.bitmap site.1).base
      ∧ (s'.bitmap site.1).limit = (s.bitmap site.1).limit)
    (bits : ∀ a ∈ s.frozen, ∀ x, (s'.bitmap a.live).test x = true →
      (s.bitmap a.live).test x = true) : Keeps quiet s s' := by
  have sites : s'.sites = s.sites := by
    rw [Source.sites, Source.sites, arenas, arenas, List.map_cons, List.map_cons, live, region]
    congr 1
    exact map_eq_of_forall₂ _ _ (fun _ _ kept => by rw [kept.1.live, kept.1.region]) frozen
  have ordered : ∀ a ∈ s'.arenas, a.space.Laid := by
    intro a member
    rcases List.mem_cons.1 member with rfl | old
    · exact laid
    · obtain ⟨b, -, kept⟩ := exists_left_of_forall₂ frozen old
      exact kept.2.1
  refine ⟨settled.of_sites sites ordered more ranges, [], s'.frozen, rfl, ?_⟩
  have each : ∀ l l' : List Arena, (∀ a ∈ l, a ∈ s.frozen) → List.Forall₂ (fun a a' =>
      a.Remains a' ∧ a'.space.Laid ∧ (quiet → a.space.Intact a'.space)) l l' →
      List.Forall₂ (Stays quiet s s') l l' := by
    intro l l' members both
    induction both with
    | nil => exact .nil
    | cons kept _ ih =>
      refine .cons ⟨kept.1, fun x bit => ?_, kept.2.2⟩
        (ih fun a later => members a (List.mem_cons_of_mem _ later))
      rw [kept.1.live] at bit
      exact bits _ (members _ List.mem_cons_self) x bit
  exact each _ _ (fun _ member => member) frozen

theorem intact_refl (a : Arena) : a.space.Intact a.space := Space.intact_of_eq rfl rfl rfl rfl

/-- Nothing happens to the frozen arenas as such. -/
theorem Settled.same_frozen (settled : s.Settled) : List.Forall₂ (fun a a' => a.Remains a'
    ∧ a'.space.Laid ∧ (quiet → a.space.Intact a'.space)) s.frozen s.frozen :=
  List.forall₂_same.2 fun a member =>
    ⟨.refl a, settled.laid a (List.mem_cons_of_mem _ member), fun _ => intact_refl a⟩

/-- A change to the active arena and at most to its bitmap. -/
theorem Settled.keeps_of_active (settled : s.Settled) (change : Bitmap → Bitmap)
    (range : ∀ b, (change b).base = b.base ∧ (change b).limit = b.limit)
    (live : s'.active.live = s.active.live)
    (region : s'.active.space.region = s.active.space.region) (laid : s'.active.space.Laid)
    (frozen : s'.frozen = s.frozen) (bitmaps : s'.bitmaps = s.bitmaps.modify s.active.live change) :
    Keeps quiet s s' := by
  have known := settled.known _ (mem_sites s.active_mem)
  refine settled.keeps live region laid ?_ ?_ ?_ ?_
  · rw [frozen]
    exact settled.same_frozen
  · rw [bitmaps, List.length_modify]
  · intro site _
    rw [bitmap_of_modify known bitmaps]
    split
    case isTrue own =>
      rw [own]
      exact range _
    case isFalse => exact ⟨rfl, rfl⟩
  · intro a member x bit
    rwa [bitmap_of_modify known bitmaps, if_neg (settled.live_ne member)] at bit

theorem Settled.keeps_of_same_bitmaps (settled : s.Settled)
    (live : s'.active.live = s.active.live)
    (region : s'.active.space.region = s.active.space.region) (laid : s'.active.space.Laid)
    (frozen : s'.frozen = s.frozen) (bitmaps : s'.bitmaps = s.bitmaps) : Keeps quiet s s' := by
  refine settled.keeps_of_active id (fun _ => ⟨rfl, rfl⟩) live region laid frozen ?_
  rw [bitmaps, List.modify_id]

theorem Settled.keeps_self (settled : s.Settled) : Keeps quiet s s :=
  settled.keeps_of_same_bitmaps rfl rfl (settled.laid _ s.active_mem) rfl rfl

theorem Settled.keeps_of_resized (settled : s.Settled) (resized : Resized s s') :
    Keeps quiet s s' := by
  obtain ⟨allowed, active⟩ := resized.active
  have laid := settled.laid _ s.active_mem
  refine settled.keeps_of_same_bitmaps ?_ ?_ ?_ resized.frozen resized.bitmaps
  · rw [active]
  · rw [active]
  · rw [active]
    exact laid.congr rfl rfl rfl rfl rfl rfl

/-- A change to the arena at an index that its chunks survive. -/
theorem Settled.keeps_of_index (settled : s.Settled) {change : Arena → Arena}
    (kept : ∀ a, a.space.Laid → a.Remains (change a) ∧ (change a).space.Laid
      ∧ (quiet → a.space.Intact (change a).space)) : Keeps quiet s (s.modifyArena index change) := by
  have remains := kept _ (settled.laid _ s.active_mem)
  cases index with
  | zero => exact settled.keeps_of_same_bitmaps remains.1.live remains.1.region remains.2.1 rfl rfl
  | succ i =>
    refine settled.keeps rfl rfl (settled.laid _ s.active_mem) ?_ (Nat.le_refl _)
      (fun _ _ => ⟨rfl, rfl⟩) fun _ _ _ bit => bit
    change List.Forall₂ _ s.frozen (s.frozen.modify i change)
    have each : ∀ (l : List Arena) (i : Nat), (∀ a ∈ l, a.space.Laid) →
        List.Forall₂ (fun a a' => a.Remains a' ∧ a'.space.Laid
          ∧ (quiet → a.space.Intact a'.space)) l (l.modify i change) := by
      intro l
      induction l with
      | nil => exact fun i _ => by cases i <;> exact .nil
      | cons first rest ih =>
        intro i laid
        have here := laid first List.mem_cons_self
        have later : ∀ a ∈ rest, a.space.Laid := fun a member => laid a (List.mem_cons_of_mem _ member)
        cases i with
        | zero =>
          refine .cons (kept first here) (List.forall₂_same.2 fun a member => ?_)
          exact ⟨.refl a, later a member, fun _ => intact_refl a⟩
        | succ i => exact .cons ⟨.refl first, here, fun _ => intact_refl first⟩ (ih i later)
    exact each s.frozen i fun a member => settled.laid a (List.mem_cons_of_mem _ member)

theorem Settled.keeps_setGeneration (settled : s.Settled) (x generation : Nat) :
    Keeps quiet s (s.setGeneration x generation) := by
  rcases s.setGeneration_cases x generation with same | ⟨i, same⟩
  · rw [same]
    exact settled.keeps_self
  · rw [same]
    refine settled.keeps_of_index fun a laid => ?_
    obtain ⟨chunks, stamped, recorded⟩ := a.space.setGeneration_frame x generation
    have laid' := laid.of_recorded recorded ⟨chunks, stamped⟩
    refine ⟨⟨rfl, ?_, recorded, ?_, ?_⟩, laid', fun _ => a.space.intact_setGeneration x generation⟩
    · rw [stamped]
    · rw [stamped]
    · rw [stamped]
      exact Nat.le_refl _

/-- Where programs write, what the chunks hold may change. -/
theorem Settled.keeps_setWords (settled : s.Settled) (loud : ¬quiet) (x index count value : Nat) :
    Keeps quiet s (s.setWords x index count value) := by
  rcases s.setWords_cases x index count value with same | ⟨i, same⟩
  · rw [same]
    exact settled.keeps_self
  · rw [same]
    refine settled.keeps_of_index fun a laid => ?_
    exact ⟨⟨rfl, rfl, fun _ => rfl, rfl, Nat.le_refl _⟩, laid.congr rfl rfl rfl rfl rfl rfl,
      fun still => absurd still loud⟩

/-- Bits are cleared in one bitmap. -/
theorem Settled.keeps_of_erase (settled : s.Settled) (x number : Nat) :
    Keeps quiet s (s.modifyBitmap number (·.erase x)) := by
  by_cases known : number < s.bitmaps.length
  · have changed : (s.modifyBitmap number (·.erase x)).bitmaps
        = s.bitmaps.modify number (·.erase x) := rfl
    have erased : ∀ m, (s.modifyBitmap number (·.erase x)).bitmap m
        = if m = number then (s.bitmap number).erase x else s.bitmap m := by
      intro m
      rw [bitmap_of_modify known changed]
    refine settled.keeps rfl rfl (settled.laid _ s.active_mem) settled.same_frozen ?_ ?_ ?_
    · rw [modifyBitmap, List.length_modify]
    · intro site _
      rw [erased]
      split
      case isTrue own =>
        rw [own]
        exact ⟨Bitmap.base_erase _ _, Bitmap.limit_erase _ _⟩
      case isFalse => exact ⟨rfl, rfl⟩
    · intro a _ y bit
      rw [erased] at bit
      split at bit
      case isTrue own =>
        rw [own]
        rw [Bitmap.test_iff, Bitmap.mayContain_erase, Bitmap.bitAt_eq_hasBit, Bitmap.hasBit_erase,
          Bitmap.base_erase] at bit
        exact Bitmap.test_iff.2 ⟨bit.1, bit.2.2⟩
      case isFalse => exact bit
  · have same : s.bitmaps.modify number (·.erase x) = s.bitmaps :=
      List.modify_eq_self (Nat.not_lt.1 known)
    rw [modifyBitmap, same]
    exact settled.keeps_self

/-- More bitmaps are made. -/
theorem Settled.keeps_of_append (settled : s.Settled) (extra : List Bitmap) :
    Keeps quiet s { s with bitmaps := s.bitmaps ++ extra } := by
  have old : ∀ number < s.bitmaps.length,
      bitmap { s with bitmaps := s.bitmaps ++ extra } number = s.bitmap number := by
    intro number known
    simp only [bitmap, List.getD_eq_getElem?_getD, List.getElem?_append_left known]
  refine settled.keeps rfl rfl (settled.laid _ s.active_mem) settled.same_frozen ?_ ?_ ?_
  · rw [List.length_append]
    exact Nat.le_add_right _ _
  · intro site member
    rw [old _ (settled.known site member)]
    exact ⟨rfl, rfl⟩
  · intro a member x bit
    rwa [old _ (settled.known _ (frozen_sites member))] at bit

/-! ### Allocating -/

/-- The frozen arenas keep what they are, and the active one is where it was. -/
structure Grows (quiet : Prop) (s s' : Source) : Prop extends Keeps quiet s s' where
  region : s'.active.space.region = s.active.space.region

theorem Grows.trans (first : Grows quiet s s') (second : Grows quiet s' s'') :
    Grows quiet s s'' :=
  ⟨first.toKeeps.trans second.toKeeps, second.region.trans first.region⟩

theorem Settled.grows_self (settled : s.Settled) : Grows quiet s s := ⟨settled.keeps_self, rfl⟩

theorem Settled.grows_of_resized (settled : s.Settled) (resized : Resized s s') :
    Grows quiet s s' := by
  refine ⟨settled.keeps_of_resized resized, ?_⟩
  obtain ⟨allowed, active⟩ := resized.active
  rw [active]

/-- What is handed out lies in the active arena. -/
structure Hands (quiet : Prop) (s : Source) (result : Option Nat) (s' : Source) : Prop
    extends Grows quiet s s' where
  inside : ∀ x, result = some x → s.active.space.region.contains x = true

theorem Grows.hands {result : Option Nat} (first : Grows quiet s s')
    (second : Hands quiet s' result s'') : Hands quiet s result s'' where
  toGrows := first.trans second.toGrows
  inside x made := first.region ▸ second.inside x made

theorem Hands.then {result : Option Nat} (first : Hands quiet s result s')
    (second : Grows quiet s' s'') : Hands quiet s result s'' where
  toGrows := first.toGrows.trans second
  inside := first.inside

theorem Grows.hands_none (grows : Grows quiet s s') : Hands quiet s none s' where
  toGrows := grows
  inside x made := by cases made

theorem Resizes.grows {α : Type} {action : Action Source α} (resizes : Resizes action)
    (settled : s.Settled) :
    action.Ends s (fun _ s' => Grows quiet s s') fun _ s' => Grows quiet s s' :=
  (resizes s).imp (fun _ _ resized => settled.grows_of_resized resized)
    fun _ _ resized => settled.grows_of_resized resized

/-- A chunk in room carved out for it, counted or not, leaves the frozen arenas alone. -/
theorem Settled.grows_of_carved (settled : s.Settled) {offset taken needed : Nat} {room : Space}
    (carved : s.active.space.Carved offset taken room) (fits : Space.chunkSizeFor n = some needed)
    (enough : needed ≤ taken) : Grows quiet s (s.placed (room.place offset taken n))
      ∧ ∀ x length, Grows quiet s (s.entered (room.place offset taken n) x length) := by
  have placed := carved.placed fits enough
  refine ⟨⟨?_, placed.region⟩, fun x length => ⟨?_, placed.region⟩⟩
  · exact settled.keeps_of_same_bitmaps rfl placed.region placed.laid rfl rfl
  · refine settled.keeps_of_active (·.insert x) (fun b => ?_) rfl placed.region placed.laid rfl rfl
    exact ⟨Bitmap.base_insert b x, Bitmap.limit_insert b x⟩

theorem alloc_hands (settled : s.Settled) (n : Nat) :
    (alloc n).Ends s (fun result s' => Hands quiet s result s') fun _ s' => Grows quiet s s' := by
  refine ends_alloc_carved (settled.laid _ s.active_mem) settled.grows_self.hands_none ?_ Hands.toGrows
  intro offset taken needed room carved fits enough
  obtain ⟨placed, entered⟩ : Grows quiet s _ ∧ ∀ x length, Grows quiet s (s.entered _ x length) :=
    settled.grows_of_carved carved fits enough
  refine ⟨placed, fun length => ⟨entered _ length, ?_⟩⟩
  rintro x ⟨⟩
  exact carved.contains fits enough

theorem allocAndGrow_hands (settled : s.Settled) (n : Nat) :
    (allocAndGrow n).Ends s (fun result s' => Hands quiet s result s')
      fun _ s' => Grows quiet s s' := by
  refine allocAndGrow_of_alloc (fun s₁ before => ?_) fun _ _ hands => hands.toGrows
  have grows : Grows quiet s s₁ := settled.grows_of_resized before
  refine (alloc_hands grows.settled n).imp (fun result s₂ hands s' after => ?_)
    fun _ _ more => grows.trans more
  exact (grows.hands hands).then (hands.settled.grows_of_resized after)

/-! ### Freeing and giving memory back -/

theorem Settled.keeps_uncount (settled : s.Settled) (index x freed : Nat) :
    Keeps quiet s (s.uncount index x freed) := by
  have counted : Keeps quiet s (s.modifyArena index fun a =>
      { a with bytes := a.bytes - freed, objects := a.objects - 1 }) :=
    settled.keeps_of_index fun a laid =>
      ⟨⟨rfl, rfl, fun _ => rfl, rfl, Nat.le_refl _⟩, laid, fun _ => intact_refl a⟩
  exact counted.trans (counted.settled.keeps_of_erase x _)

theorem Settled.keeps_of_release (settled : s.Settled) {usable : Option Nat} {length : Nat}
    {space : Space} (measured : s.active.space.usableSize? x = .ok usable)
    (release : s.active.space.release? x = some (length, space)) (freed : Nat) :
    Keeps quiet s ((s.uncount 0 x freed).placed space) := by
  have large := Space.release_positive measured release
  obtain ⟨offset, -, -, -, laid, region, -, -⟩ :=
    Space.release_spec (settled.laid _ s.active_mem) large release
  have counted : Keeps quiet s (s.uncount 0 x freed) := settled.keeps_uncount 0 x freed
  exact counted.trans (counted.settled.keeps_of_same_bitmaps rfl region laid rfl rfl)

/-- Only a chunk of the active arena is given back. -/
theorem free_keeps (settled : s.Settled) (x : Nat) :
    (free x).Ends s (fun _ s' => Keeps quiet s s') fun _ s' => Keeps quiet s s' :=
  ends_free (fun _ => settled.keeps_self) settled.keeps_self
    (fun _ _ _ _ => settled.keeps_uncount ..)
    fun _ measured release => settled.keeps_of_release measured release _

/-- A trimmed arena keeps its chunks and what they hold. -/
theorem Arena.remains_of_trim {a a' : Arena} {released : Nat} (laid : a.space.Laid)
    (small : a.footprint < Word.limit) (run : a.trim = .ok (released, a')) :
    a.Remains a' ∧ a'.space.Laid ∧ a.space.Intact a'.space := by
  have trimmed := Arena.trimmed_of_trim laid small run
  have intact := Arena.intact_trim laid small run
  obtain ⟨footprint, words, rfl⟩ := Arena.trim_frame run
  exact ⟨⟨rfl, rfl, fun _ => rfl, rfl, trimmed.footprint⟩, trimmed.laid, intact⟩

theorem Settled.footprint_lt (settled : s.Settled) (member : a ∈ s.arenas) :
    a.footprint < Word.limit := by
  have small : a.space.region.size < Size.unreservable :=
    (settled.sized _ (mem_sites member)).2.2
  have bound := (settled.laid a member).footprint_le
  simp only [Arena.footprint, Space.capacity, Size.unreservable, Word.limit] at *
  omega

theorem Settled.keeps_of_cut (settled : s.Settled) {active : Arena} {frozen : List Arena}
    (cut : List.Forall₂ (fun a a' => a ∈ s.arenas ∧ ∃ released, a.trim = .ok (released, a'))
      s.arenas (active :: frozen)) : Keeps quiet s { s with active, frozen } := by
  have remains : List.Forall₂ (fun a a' => a.Remains a' ∧ a'.space.Laid
      ∧ (quiet → a.space.Intact a'.space)) s.arenas (active :: frozen) := by
    refine cut.imp ?_
    rintro a a' ⟨member, released, run⟩
    obtain ⟨remains, laid, intact⟩ := Arena.remains_of_trim (settled.laid a member)
      (settled.footprint_lt member) run
    exact ⟨remains, laid, fun _ => intact⟩
  obtain ⟨front, others⟩ := List.forall₂_cons.1 remains
  exact settled.keeps front.1.live front.1.region front.2.1 others (Nat.le_refl _)
    (fun _ _ => ⟨rfl, rfl⟩) fun _ _ _ bit => bit

theorem trim_keeps (settled : s.Settled) :
    trim.Ends s (fun _ s' => Keeps quiet s s') fun _ s' => Keeps quiet s s' :=
  ends_trim settled.keeps_self settled.keeps_of_cut

theorem Resizes.keeps {α : Type} {action : Action Source α} (resizes : Resizes action)
    (settled : s.Settled) :
    action.Ends s (fun _ s' => Keeps quiet s s') fun _ s' => Keeps quiet s s' :=
  (resizes.grows settled).imp (fun _ _ grows => grows.toKeeps) fun _ _ grows => grows.toKeeps

theorem shrinkToIdeal_keeps (settled : s.Settled) :
    shrinkToIdeal.Ends s (fun _ s' => Keeps quiet s s') fun _ s' => Keeps quiet s s' := by
  simp only [shrinkToIdeal, ends_bind, ends_get, ends_pure]
  refine (trim_keeps settled).imp (fun released s₁ first => ?_) fun _ _ keeps => keeps
  exact ((resizes_setIdeal _).keeps first.settled).imp (fun _ _ more => first.trans more)
    fun _ _ more => first.trans more

/-! ### A new arena in front -/

/-- Where a fresh arena is put in front of settled ones, the one that was active is frozen. -/
theorem SplitOff.settled {map : Bitmap} {allowed : Nat} (split : s.SplitOff a map allowed s')
    (settled : s.Settled) : s'.Settled where
  laid b member := by
    rcases split.mem_arenas member with rfl | rfl | older
    · exact split.fresh.fits.laid
    · exact (settled.laid _ s.active_mem).congr rfl rfl rfl rfl rfl rfl
    · exact settled.laid b (List.mem_cons_of_mem _ older)
  known := split.numbered settled.known
  ranges := by
    rw [split.sites, List.forall_mem_cons, split.bitmap_newest]
    refine ⟨⟨split.fresh.fits.base, split.fresh.fits.limit⟩, fun site known => ?_⟩
    rw [split.bitmap_known (settled.known site known)]
    exact settled.ranges site known
  apart := split.apart settled.apart settled.below
  below := split.below settled.below
  sized := by
    rw [split.sites, List.forall_mem_cons]
    have base : a.space.region.base = Region.arenaBase s.arenas.length := split.fresh.base
    have capacity := (Size.pagesUp_bounds split.fresh.capacity).1
    refine ⟨⟨?_, ?_, split.fresh.small⟩, settled.sized⟩
    · rw [base, Region.arenaBase, Region.stride]
      exact Nat.mul_pos (Nat.succ_pos _) (by decide)
    · have page : 0 < Size.page := by decide
      change 0 < a.space.capacity
      omega

theorem SplitOff.keeps {map : Bitmap} {allowed : Nat} (split : s.SplitOff a map allowed s')
    (settled : s.Settled) : Keeps quiet s s' := by
  have frozen : s'.frozen = { s.active with space := { s.active.space with allowed } } :: s.frozen := by
    rw [split.pushed]
    rfl
  refine ⟨split.settled settled, [_], s.frozen, frozen, ?_⟩
  refine List.forall₂_same.2 fun b member => ⟨.refl b, fun x bit => ?_, fun _ => intact_refl b⟩
  rwa [split.bitmap_known (settled.known _ (frozen_sites member))] at bit

theorem addArena_keeps (settled : s.Settled) :
    addArena.Ends s (fun _ s' => Keeps quiet s s') fun _ s' => Keeps quiet s s' :=
  ends_addArena settled.keeps_self settled.keeps_self fun split => split.keeps settled

theorem beforeFork_keeps (settled : s.Settled) :
    beforeFork.Ends s (fun _ s' => Keeps quiet s s') fun _ s' => Keeps quiet s s' := by
  have tried : Keeps quiet s { s with zygoteSplit := true } :=
    settled.keeps_of_resized ⟨⟨_, rfl⟩, rfl, rfl, rfl, rfl⟩
  refine ends_beforeFork settled.keeps_self (ends_addArena tried tried fun split => ?_)
  exact tried.trans (split.keeps tried.settled)

theorem afterZygote_keeps (settled : s.Settled) :
    afterZygote.Ends s (fun _ s' => Keeps quiet s s') fun _ s' => Keeps quiet s s' :=
  ends_afterZygote settled.keeps_self (addArena_keeps settled)

/-! ### Runs -/

/-- Does the step exchange the live bitmaps for others? -/
def Operation.exchanges : Operation → Prop
  | .replaceBitmaps _ => True
  | _ => False

/-- Does the step change words of an object? Only the program that uses the arenas does that. -/
def Operation.writes : Operation → Prop
  | .write .. => True
  | _ => False

/-- What is left of the frozen arenas, and where what is handed out lies. -/
def Leaves (quiet : Prop) (s : Source) (result : Option Nat) (s' : Source) : Prop :=
  Keeps quiet s s' ∧ ∀ x, result = some x → s.active.space.region.contains x = true

theorem leaves_quietly {α : Type} {step : Action Source α}
    (keeps : step.Ends s (fun _ s' => Keeps quiet s s') fun _ s' => Keeps quiet s s') :
    (quietly step).Ends s (Leaves quiet s) fun _ s' => Keeps quiet s s' := by
  simp only [quietly, ends_bind, ends_pure]
  exact keeps.mono fun _ _ kept => ⟨kept, fun x made => by cases made⟩

/-- Every step but an exchange of bitmaps keeps the frozen arenas, and hands out nothing in them. -/
theorem perform_keeps (settled : s.Settled) {op : Operation} (mends : ¬op.exchanges)
    (calm : quiet → ¬op.writes) :
    (perform op).Ends s (Leaves quiet s) fun _ s' => Keeps quiet s s' := by
  cases op with
  | alloc n =>
    exact (alloc_hands settled n).imp (fun _ _ hands => ⟨hands.toKeeps, hands.inside⟩)
      fun _ _ grows => grows.toKeeps
  | allocAndGrow n =>
    exact (allocAndGrow_hands settled n).imp (fun _ _ hands => ⟨hands.toKeeps, hands.inside⟩)
      fun _ _ grows => grows.toKeeps
  | free x => exact leaves_quietly (free_keeps settled x)
  | addArena => exact leaves_quietly (addArena_keeps settled)
  | beforeFork => exact leaves_quietly (beforeFork_keeps settled)
  | afterZygote => exact leaves_quietly (afterZygote_keeps settled)
  | setUtilization ratio =>
    refine leaves_quietly (ends_modify.2 (settled.keeps_of_resized ?_))
    exact ⟨⟨_, rfl⟩, rfl, rfl, rfl, rfl⟩
  | setMinimum size => exact leaves_quietly ((resizes_setMinimum size).keeps settled)
  | growForUtilization => exact leaves_quietly (resizes_growForUtilization.keeps settled)
  | trim => exact leaves_quietly (trim_keeps settled)
  | shrinkToIdeal => exact leaves_quietly (shrinkToIdeal_keeps settled)
  | externalAlloc n grow => exact leaves_quietly ((resizes_externalAlloc n grow).keeps settled)
  | externalFree n => exact leaves_quietly ((resizes_externalFree n).keeps settled)
  | setGeneration x generation =>
    exact leaves_quietly (ends_modify.2 (settled.keeps_setGeneration x generation))
  | write x index count value =>
    refine leaves_quietly (ends_modify.2 (settled.keeps_setWords (fun still => ?_) x index count value))
    exact calm still trivial
  | snapshotBitmaps =>
    refine leaves_quietly (ends_modify.2 ?_)
    obtain ⟨extra, same⟩ := s.snapshotBitmaps_frame
    rw [same]
    exact settled.keeps_of_append extra
  | replaceBitmaps numbers => exact absurd trivial mends

/-- The arenas of a heap after any use of them. The live bitmaps may have been exchanged for any
others over the same ranges, whether these show what lives or not. -/
inductive Used (start maximum : Nat) (zygote : Bool) : Source → Prop where
  | startup {s : Source} :
    startup start maximum zygote = .ok (.ok s) → Used start maximum zygote s
  | step {s : Source} (op : Operation) :
    Used start maximum zygote s → Used start maximum zygote ((perform op).after s)
  /-- Somebody makes a bitmap of their own. -/
  | adopt {s : Source} (map : Bitmap) :
    Used start maximum zygote s → Used start maximum zygote (s.addBitmap map).2
  | exchange {s : Source} (numbers : List Nat) :
    Used start maximum zygote s → Used start maximum zygote (s.replaceBitmaps numbers).2.2

theorem Reachable.used (reachable : Reachable start maximum zygote s) :
    Used start maximum zygote s := by
  induction reachable with
  | startup run => exact .startup run
  | step op _ ih => exact .step op ih

theorem Settled.of_startup (run : startup start maximum zygote = .ok (.ok s)) : s.Settled := by
  obtain ⟨-, active, map, make, rfl⟩ := startup_eq run
  have fresh := fresh_of_freshArena make
  have capacity := (Size.pagesUp_bounds fresh.capacity).1
  have page : 0 < Size.page := by decide
  have one : ∀ site ∈ sites (publish
      { active, bitmaps := [map], startSize := start, absoluteMax := maximum, ideal := start
        sawZygote := zygote }), site = (0, active.space.region) := by
    intro site member
    rw [List.mem_singleton.1 member]
    exact congrArg (fun live => (live, active.space.region)) fresh.live
  refine ⟨?_, ?_, ?_, List.pairwise_singleton _ _, ?_, ?_⟩
  · intro a member
    rw [List.mem_singleton.1 member]
    exact fresh.fits.laid
  · intro site member
    rw [one site member]
    exact Nat.zero_lt_one
  · intro site member
    rw [one site member]
    exact ⟨fresh.fits.base, fresh.fits.limit⟩
  · intro site member
    rw [one site member]
    exact fresh.region_limit
  · intro site member
    rw [one site member]
    refine ⟨?_, ?_, fresh.small⟩
    · change 0 < active.space.base
      rw [fresh.base]
      decide
    · change 0 < active.space.capacity
      omega

/-- Arenas whose bitmaps are over the same ranges as before are settled as before. -/
theorem Settled.of_exchange (settled : s.Settled) (bitmaps : s'.bitmaps = s.bitmaps)
    (exchanged : List.Forall₂ (fun a a' =>
      (s.bitmap a.live).sameRange (s.bitmap a'.live) = true ∧ a'.space = a.space)
      s.arenas s'.arenas) : s'.Settled := by
  have map : ∀ number, s'.bitmap number = s.bitmap number := by
    intro number
    rw [bitmap, bitmap, bitmaps]
  have regions : s'.sites.map Prod.snd = s.sites.map Prod.snd := by
    simp only [Source.sites, List.map_map]
    exact map_eq_of_forall₂ _ _ (fun a b kept => congrArg Space.region kept.2) exchanged
  have length : s'.sites.length = s.sites.length := by
    simpa using congrArg List.length regions
  have old : ∀ site ∈ s'.sites, ∃ site' ∈ s.sites, site.2 = site'.2 := by
    intro site member
    have region := List.mem_map_of_mem (f := Prod.snd) member
    rw [regions] at region
    obtain ⟨site', known, equal⟩ := List.mem_map.1 region
    exact ⟨site', known, equal.symm⟩
  have ranges : ∀ site ∈ s'.sites, (s'.bitmap site.1).base = site.2.base
      ∧ (s'.bitmap site.1).limit = site.2.limit := by
    intro site member
    obtain ⟨a', here, rfl⟩ := List.mem_map.1 member
    obtain ⟨a, there, alike, space⟩ := exists_left_of_forall₂ exchanged here
    obtain ⟨base, limit⟩ := settled.ranges _ (mem_sites there)
    rw [Bitmap.sameRange, Bool.and_eq_true, beq_iff_eq, beq_iff_eq] at alike
    rw [map, space, ← alike.1, ← alike.2]
    exact ⟨base, limit⟩
  refine ⟨?_, ?_, ranges, ?_, ?_, ?_⟩
  · intro a' member
    obtain ⟨a, there, -, space⟩ := exists_left_of_forall₂ exchanged member
    rw [space]
    exact settled.laid a there
  · intro site member
    obtain ⟨site', known, region⟩ := old site member
    refine lt_of_base_pos ?_
    rw [(ranges site member).1, region]
    exact (settled.sized site' known).1
  · have apart : (s.sites.map Prod.snd).Pairwise fun young old => old.limit ≤ young.base :=
      List.pairwise_map.2 settled.apart
    rw [← regions] at apart
    exact List.pairwise_map.1 apart
  · intro site member
    obtain ⟨site', known, region⟩ := old site member
    rw [length, region]
    exact settled.below site' known
  · intro site member
    obtain ⟨site', known, region⟩ := old site member
    rw [region]
    exact settled.sized site' known

/-- Bitmaps over the same ranges in place of the live ones. -/
theorem Settled.exchange (settled : s.Settled) (numbers : List Nat) :
    (s.replaceBitmaps numbers).2.2.Settled := by
  by_cases takes : s.Takes numbers
  · obtain _ | ⟨first, rest⟩ := numbers
    · cases takes
    · have exchanged := forall₂_zipWith_live takes
      rw [replaceBitmaps_taken takes]
      exact settled.of_exchange rfl exchanged
  · rw [replaceBitmaps_refused takes]
    exact settled

theorem Settled.replaceCurrent (settled : s.Settled) (numbers : List Nat) :
    (s.replaceCurrent numbers).Settled := by
  rcases s.replaceCurrent_cases numbers with same | ⟨-, same⟩
  · rw [same]
    exact settled
  · rw [same]
    exact settled.exchange numbers

theorem Used.settled (used : Used start maximum zygote s) : s.Settled := by
  induction used with
  | startup run => exact .of_startup run
  | @step s op _ ih =>
    by_cases exchanges : op.exchanges
    · cases op with
      | replaceBitmaps numbers =>
        exact ih.replaceCurrent numbers
      | _ => exact exchanges.elim
    · have keeps : (perform op).Ends s (Leaves False s) fun _ s' => Keeps False s s' :=
        perform_keeps ih exchanges fun still => still.elim
      exact keeps.after _ (fun _ _ leaves => leaves.1.settled) fun _ _ keeps => keeps.settled
  | adopt map _ ih =>
    have keeps : Keeps False _ _ := ih.keeps_of_append [map]
    exact keeps.settled
  | exchange numbers _ ih => exact ih.exchange numbers

/-- What the steps of a run hand out. -/
def handedOut (s : Source) : List Operation → List Nat
  | [] => []
  | op :: rest =>
    match perform op s with
    | .ok (some x) s' => x :: s'.handedOut rest
    | .ok none s' => s'.handedOut rest
    | .error _ s' => s'.handedOut rest

theorem handedOut_cons (s : Source) (op : Operation) (rest : List Operation) :
    (x ∈ s.handedOut (op :: rest) ↔ (∃ s', perform op s = .ok (some x) s')
      ∨ x ∈ ((perform op).after s).handedOut rest) := by
  rw [handedOut, after]
  cases run : perform op s with
  | ok result s' =>
    cases result with
    | none => simp
    | some y => simp [eq_comm]
  | error => simp

/-- In a run without an exchange of bitmaps the frozen arenas stay, and nothing is handed out in
them. -/
theorem Settled.afterAll_keeps (settled : s.Settled) {ops : List Operation}
    (mends : ∀ op ∈ ops, ¬op.exchanges) (calm : quiet → ∀ op ∈ ops, ¬op.writes) :
    Keeps quiet s (s.afterAll ops)
      ∧ ∀ x ∈ s.handedOut ops, ∀ a ∈ s.frozen, a.space.region.contains x = false := by
  induction ops generalizing s with
  | nil => exact ⟨settled.keeps_self, fun x none => by cases none⟩
  | cons op rest ih =>
    have step : (perform op).Ends s (Leaves quiet s) fun _ s' => Keeps quiet s s' :=
      perform_keeps settled (mends op List.mem_cons_self) fun still => calm still op List.mem_cons_self
    have first : Keeps quiet s ((perform op).after s) :=
      step.after _ (fun _ _ leaves => leaves.1) fun _ _ keeps => keeps
    obtain ⟨later, elsewhere⟩ := ih first.settled
      (fun op member => mends op (List.mem_cons_of_mem _ member))
      fun still op member => calm still op (List.mem_cons_of_mem _ member)
    refine ⟨first.trans later, fun x handed a member => ?_⟩
    rcases (s.handedOut_cons op rest).1 handed with ⟨s', run⟩ | handed
    · have inside := (step.ok run).2 x rfl
      have apart := settled.apart
      rw [sites, arenas, List.map_cons, List.pairwise_cons] at apart
      have order := apart.1 _ (List.mem_map_of_mem member)
      rw [← Bool.not_eq_true, region_contains]
      rw [region_contains] at inside
      intro within
      have below : x < a.space.region.limit := within.2
      have above : s.active.space.region.base ≤ x := inside.1
      have gap : a.space.region.limit ≤ s.active.space.region.base := order
      omega
    · obtain ⟨younger, older, frozen, kept⟩ := first.frozen
      obtain ⟨a', member', stays⟩ := exists_right_of_forall₂ kept member
      rw [← stays.region]
      refine elsewhere x handed a' ?_
      rw [frozen]
      exact List.mem_append_right _ member'

/-- Frozen arenas stay frozen, however the arenas came to be what they are and whatever is done with
them then, but for another exchange of bitmaps. Later they stand behind the arenas frozen since, at
their regions, with the chunks and the top that they had, no more memory than they had, and no
object that did not live in them. What their chunks hold is what it was, as long as no program
writes. And no allocation of the run hands out an address in one of them. -/
theorem Used.frozen_arenas_stay (used : Used start maximum zygote s) {ops : List Operation}
    (mends : ∀ op ∈ ops, ¬op.exchanges) :
    (∃ younger older, (s.afterAll ops).frozen = younger ++ older
      ∧ List.Forall₂ (Stays (∀ op ∈ ops, ¬op.writes) s (s.afterAll ops)) s.frozen older)
    ∧ ∀ x ∈ s.handedOut ops, ∀ a ∈ s.frozen, a.space.region.contains x = false := by
  obtain ⟨keeps, elsewhere⟩ := used.settled.afterAll_keeps mends fun calm => calm
  exact ⟨keeps.frozen, elsewhere⟩

/-- Two chunks, a split around a fork, and a copy of the bitmaps made before one of the chunks was
freed in place of the live ones. -/
def split : Source :=
  (small.afterAll [.alloc 100, .allocAndGrow 9000, .beforeFork, .snapshotBitmaps,
    .free (Region.arenaBase 0)]).replaceBitmaps [2, 3] |>.2.2

theorem used_split : Used 4096 4194304 true split :=
  .exchange _ (reachable_small.afterAll _).used

/-- Chunks of a frozen arena are freed, memory is given back, and the next arena is frozen too. -/
def thawing : List Operation :=
  [.free (Region.arenaBase 0), .alloc 100, .allocAndGrow 9000, .trim,
    .free (Region.arenaBase 0 + 112), .afterZygote, .alloc 100, .shrinkToIdeal]

theorem split_stays_frozen : split.frozen.length = 1 ∧ (split.afterAll thawing).frozen.length = 2
    ∧ (∀ op ∈ thawing, ¬op.exchanges)
    ∧ (∃ younger older, (split.afterAll thawing).frozen = younger ++ older
      ∧ List.Forall₂ (Stays (∀ op ∈ thawing, ¬op.writes) split (split.afterAll thawing))
        split.frozen older)
    ∧ ∀ x ∈ split.handedOut thawing, ∀ a ∈ split.frozen, a.space.region.contains x = false := by
  have mends : ∀ op ∈ thawing, ¬op.exchanges := by
    simp [thawing, Operation.exchanges]
  exact ⟨by decide +kernel, by decide +kernel, mends, used_split.frozen_arenas_stay mends⟩

end Source

end ManagedHeap
