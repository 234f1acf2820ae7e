import ManagedHeap.Proofs.Contents

/-!
Giving memory back never fails. What is given back lies inside the region of its arena, and no region
reaches up to the end of the addresses.
-/

namespace ManagedHeap

namespace Region

variable {r : Region} {start length : Nat}

theorem wholePages_total (low : r.base ≤ start) (high : start + length ≤ r.limit)
    (small : r.limit + Size.page < Word.limit) : ∃ found, r.wholePages start length = .ok found := by
  have up : Size.alignUp start Size.page = .ok ((start + (Size.page - 1)) / Size.page * Size.page) :=
    Size.pagesUp_eq_ok.2 ⟨by omega, rfl⟩
  have after := (Size.pagesUp_bounds up).1
  have sum : Word.add start length = .ok (start + length) := Word.add_eq_ok.2 ⟨by omega, rfl⟩
  have mask : Size.alignMask Size.page = .ok (Word.largest - (Size.page - 1)) := rfl
  have below : (start + length) &&& (Word.largest - (Size.page - 1)) ≤ start + length := Nat.and_le_left
  simp only [wholePages, Size.alignDown, bind, Except.bind, pure, Except.pure, up, sum, mask]
  generalize (start + (Size.page - 1)) / Size.page * Size.page = first at *
  generalize (start + length) &&& (Word.largest - (Size.page - 1)) = last at *
  split
  case isTrue => exact ⟨_, rfl⟩
  case isFalse order =>
    have inside : (r.contains first && last ≤ r.limit) = true := by
      rw [Bool.and_eq_true, Source.region_contains, decide_eq_true_eq]
      omega
    rw [Word.require, if_pos inside]
    exact ⟨_, rfl⟩

end Region

namespace Space

variable {s : Space} {offset length : Nat}

theorem discard_total (inside : offset + length ≤ s.capacity)
    (small : s.region.limit + Size.page < Word.limit) : ∃ given, s.discard offset length = .ok given := by
  have high : s.base + offset + length ≤ s.region.limit := by
    rw [Nat.add_assoc]
    exact Nat.add_le_add_left inside _
  have low : s.region.base ≤ s.base + offset := Nat.le_add_right _ _
  obtain ⟨found, run⟩ := Region.wholePages_total low high small
  simp only [discard, bind, Except.bind, pure, Except.pure, run]
  cases found with
  | none => exact ⟨_, rfl⟩
  | some pages => exact ⟨_, rfl⟩

theorem foldlM_total {α β : Type} {step : β → α → Except Defect β} (holds : β → Prop) (items : List α)
    (steps : ∀ before, ∀ item ∈ items, holds before → ∃ after, step before item = .ok after ∧ holds after)
    {before : β} (start : holds before) : ∃ after, items.foldlM step before = .ok after := by
  induction items generalizing before with
  | nil => exact ⟨before, rfl⟩
  | cons first rest ih =>
    obtain ⟨middle, run, held⟩ := steps before first List.mem_cons_self start
    obtain ⟨after, more⟩ := ih (fun before item later => steps before item (List.mem_cons_of_mem _ later)) held
    refine ⟨after, ?_⟩
    rw [List.foldlM_cons, run]
    exact more

theorem Laid.releaseFreePages_total (laid : s.Laid) (small : s.region.limit + Size.page < Word.limit) :
    ∃ given, s.releaseFreePages = .ok given := by
  refine foldlM_total (fun reached => ∃ words, reached.2 = { s with words }) s.free.toList ?_
    ⟨s.words, rfl⟩
  rintro ⟨sofar, _⟩ extent member ⟨words, rfl⟩
  have below := laid.below false extent.offset extent.size (mem_toList member)
  have top := laid.top_le
  have footprint := laid.footprint_le
  have inside : extent.offset + extent.size ≤ capacity { s with words } := by
    change extent.offset + extent.size ≤ s.capacity
    omega
  obtain ⟨given, run⟩ := discard_total inside small
  have step : discardMore (sofar, { s with words }) extent = .ok (sofar + given.1, given.2) := by
    simp only [discardMore, bind, Except.bind, pure, Except.pure, run]
  exact ⟨_, step, discardMore_frame step⟩

theorem Laid.trim_total (laid : s.Laid) (small : s.region.limit + Size.page < Word.limit) :
    ∃ given, s.trim 0 = .ok given := by
  have top := laid.top_le
  have footprint := laid.footprint_le
  have end_le : s.capacity ≤ s.region.limit := Nat.le_add_left _ _
  have low : Word.saturatingAdd s.top 0 = s.top := by
    rw [Word.saturatingAdd, Nat.add_zero, Nat.min_eq_left]
    simp only [Word.limit, Word.largest] at *
    omega
  have up : Size.pagesUp s.top = .ok ((s.top + (Size.page - 1)) / Size.page * Size.page) :=
    Size.pagesUp_eq_ok.2 ⟨by omega, rfl⟩
  simp only [Space.trim, bind, Except.bind, pure, Except.pure, low, up]
  generalize (s.top + (Size.page - 1)) / Size.page * Size.page = rounded
  split
  case isTrue => exact ⟨_, rfl⟩
  case isFalse =>
    have inside : min rounded s.footprint + (s.footprint - min rounded s.footprint) ≤ s.capacity := by
      omega
    obtain ⟨given, run⟩ := discard_total inside small
    rw [run]
    exact ⟨_, rfl⟩

end Space

theorem Arena.trim_total {a : Arena} (laid : a.space.Laid)
    (small : a.space.region.limit + Size.page < Word.limit) : ∃ given, a.trim = .ok given := by
  have end_le : a.space.capacity ≤ a.space.region.limit := Nat.le_add_left _ _
  have footprint : a.space.footprint < Word.limit := by
    have within := laid.footprint_le
    omega
  obtain ⟨⟨above, space⟩, run⟩ := laid.trim_total small
  obtain ⟨laid', -, region, -⟩ := laid.trim footprint run
  obtain ⟨⟨inside, space'⟩, run'⟩ := laid'.releaseFreePages_total (region ▸ small)
  simp only [trim, bind, Except.bind, pure, Except.pure, run, run']
  exact ⟨_, rfl⟩

namespace Source

open Action

variable {s : Source} {a : Arena} {m : Nat}

/-- No arena reaches up to the last page of the addresses. -/
theorem Governed.limit_small (governed : s.Governed m) (member : a ∈ s.arenas) :
    a.space.region.limit + Size.page < Word.limit := by
  have below := governed.sound.below _ (mem_sites member)
  have few := governed.few
  simp only [length_sites, Region.arenaBase, Region.stride, Size.unreservable, Size.maxArenas,
    Size.page, Word.limit] at *
  omega

theorem mapM_total {α β : Type} {f : α → Except Defect β} {l : List α}
    (each : ∀ a ∈ l, ∃ b, f a = .ok b) : ∃ l', l.mapM f = .ok l' := by
  induction l with
  | nil => exact ⟨[], rfl⟩
  | cons first rest ih =>
    obtain ⟨value, run⟩ := each first List.mem_cons_self
    obtain ⟨values, more⟩ := ih fun a member => each a (List.mem_cons_of_mem _ member)
    refine ⟨value :: values, ?_⟩
    rw [List.mapM_cons, run]
    simp only [bind, Except.bind, more, pure, Except.pure]

theorem trim_total (governed : s.Governed m) :
    trim.Ends s (fun _ s' => s'.Governed m) fun _ _ => False := by
  obtain ⟨trimmed, run⟩ := mapM_total fun a member =>
    Arena.trim_total (governed.sound.fits a member).laid (governed.limit_small member)
  have ends : trim.Ends s (fun _ _ => True) fun _ _ => False := by
    simp only [trim, ends_bind, ends_get, ends_lift_of_ok run]
    cases trimmed with
    | nil => exact ends_pure.2 trivial
    | cons first rest => simp only [ends_bind, ends_set, ends_pure]
  exact ((preserves_trim s governed).and ends).imp (fun _ _ both => both.1) fun _ _ both => both.2

/-- Shrinking comes to its end. -/
theorem shrinkToIdeal_total (governed : s.Governed m) :
    shrinkToIdeal.Ends s (fun _ s' => s'.Governed m) fun _ _ => False := by
  simp only [shrinkToIdeal, ends_bind, ends_get, ends_pure]
  refine (trim_total governed).imp (fun _ s₁ governed₁ => ?_) fun _ _ => id
  exact governed₁.toHoused.setIdeal_governed (Nat.le_trans governed₁.least governed₁.most) _

end Source

end ManagedHeap
