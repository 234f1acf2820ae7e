import ManagedHeap.Object
import ManagedHeap.Proofs.StackDepth

/-!
Filling a heap with the least objects. The active arena of a new heap can be filled up to its
capacity, which is in whole pages, without a collection. Where the absolute maximum is not in whole
pages that makes more objects than the mark stack has entries, and this is the only way to have it
overflow.
-/

namespace ManagedHeap

namespace Space

variable {s : Space} {count : Nat}

/-- The least chunks lie side by side, and there may be more of them up to the capacity. -/
structure Packed (count : Nat) (s : Space) : Prop where
  free : s.free = {}
  top : s.top = count * Size.minChunk
  allowed : s.capacity ≤ s.allowed
  whole : s.capacity % Size.page = 0

theorem takeFree_empty (free : s.free = {}) (size : Nat) : s.takeFree? size = none := by
  have nothing : s.free.bestFit? size = none := by
    cases fit : s.free.bestFit? size with
    | none => rfl
    | some found =>
      have here := (Gaps.bestFit_eq_some_iff.1 fit).1
      rw [free, Gaps.sizeAt?] at here
      simp at here
  rw [takeFree?, nothing]

theorem extendTop_packed (small : s.capacity < Size.unreservable) (packed : s.Packed count)
    (room : (count + 1) * Size.minChunk ≤ s.capacity) :
    ∃ s', s.extendTop? Size.minChunk = .ok (some (count * Size.minChunk, s'))
      ∧ s'.Packed (count + 1) ∧ s'.region = s.region := by
  have top := packed.top
  have newTop : s.top + Size.minChunk = (count + 1) * Size.minChunk := by
    rw [top, Nat.succ_mul]
  have more : ∀ footprint, Packed (count + 1) { s with top := s.top + Size.minChunk, footprint } :=
    fun _ => ⟨packed.free, newTop, packed.allowed, packed.whole⟩
  have word : ¬ Word.limit ≤ s.top + Size.minChunk := by
    simp only [Size.unreservable, Word.limit] at *
    omega
  rw [← top]
  simp only [extendTop?, if_neg word, bind, Except.bind, pure, Except.pure]
  split
  case isFalse => exact ⟨_, rfl, more _, rfl⟩
  case isTrue =>
    obtain ⟨needed, up⟩ : ∃ needed, Size.pagesUp (s.top + Size.minChunk) = .ok needed := by
      refine ⟨_, Size.pagesUp_eq_ok.2 ⟨?_, rfl⟩⟩
      simp only [Size.unreservable, Word.limit, Size.page] at *
      omega
    have below : needed ≤ s.capacity := by
      have rounded := (Size.pagesUp_eq_ok.1 up).2
      have whole := packed.whole
      simp only [Size.page] at *
      omega
    have allowed := packed.allowed
    have fits : (decide (s.allowed < needed) || decide (s.capacity < needed)) = false := by
      simp only [Bool.or_eq_false_iff, decide_eq_false_iff_not]
      omega
    simp only [up, fits]
    exact ⟨_, rfl, more _, rfl⟩

theorem calloc_packed (small : s.capacity < Size.unreservable) (packed : s.Packed count)
    (room : (count + 1) * Size.minChunk ≤ s.capacity) :
    ∃ s', s.calloc 0 = .ok (some (s.base + count * Size.minChunk), s') ∧ s'.Packed (count + 1)
      ∧ s'.region = s.region
      ∧ s'.usableSize? (s.base + count * Size.minChunk) = .ok (some Size.granule) := by
  obtain ⟨extended, extend, more, region⟩ := extendTop_packed small packed room
  have fits : chunkSizeFor 0 = some Size.minChunk := by decide
  have inside : ¬ s.capacity < Size.minChunk := by
    rw [Nat.succ_mul] at room
    omega
  refine ⟨extended.place (count * Size.minChunk) Size.minChunk 0, ?_,
    ⟨more.free, more.top, more.allowed, more.whole⟩, region, ?_⟩
  · simp only [calloc, fits, if_neg inside, takeFree_empty packed.free, extend, bind, Except.bind,
      pure, Except.pure]
  · have contains : s.region.contains (s.base + count * Size.minChunk) = true := by
      rw [Source.region_contains]
      simp only [base, capacity, Region.limit, Size.minChunk] at *
      omega
    have same : (extended.place (count * Size.minChunk) Size.minChunk 0).region = s.region := region
    have offset : (extended.place (count * Size.minChunk) Size.minChunk 0).offsetOf?
        (s.base + count * Size.minChunk) = some (count * Size.minChunk) := by
      rw [offsetOf?, same, if_pos contains]
      simp only [base, same, Nat.add_sub_cancel_left]
    rw [usableSize?, chunkAt?, offset]
    simp only [place, Std.ExtTreeMap.getElem?_insert_self]
    rfl

/-! ### Empty spaces -/

theorem setAllowed_blank {bytes : Nat} (blank : s.footprint = 0)
    (small : bytes + Size.page < Word.limit) : ∃ allowed, s.setAllowed bytes = .ok { s with allowed }
      ∧ bytes ≤ allowed ∧ allowed % Size.page = 0 := by
  by_cases nothing : bytes = 0
  · refine ⟨0, ?_, Nat.le_of_eq nothing, rfl⟩
    rw [setAllowed, nothing, blank]
    rfl
  · have positive : s.footprint < bytes := by omega
    obtain ⟨room, up⟩ : ∃ room, Size.pagesUp bytes = .ok room :=
      ⟨_, Size.pagesUp_eq_ok.2 ⟨small, rfl⟩⟩
    obtain ⟨above, near, whole⟩ := Size.pagesUp_bounds up
    have word : Word.add 0 room = .ok (0 + room) :=
      Word.add_eq_ok.2 ⟨by omega, rfl⟩
    rw [Nat.zero_add] at word
    refine ⟨room, ?_, above, whole⟩
    rw [setAllowed, if_pos positive, blank, Nat.sub_zero, up]
    simp only [bind, Except.bind, word]
    rfl

theorem create_blank {name : String} {base start capacity : Nat}
    (run : Space.create name base start capacity = .ok (.ok s))
    (small : start + Size.page < Word.limit) :
    s.free = {} ∧ s.top = 0 ∧ start ≤ s.allowed ∧ s.allowed % Size.page = 0 := by
  obtain ⟨region, _, rfl, -, cap⟩ := create_bare run
  obtain ⟨allowed, capped, above, whole⟩ := setAllowed_blank (s := { name, region }) rfl small
  cases capped.symm.trans cap
  exact ⟨rfl, rfl, above, whole⟩

end Space

namespace Source

open Action

variable {s s' : Source} {count : Nat}

/-- The active arena begins with so many of the least objects and is free to grow. -/
structure Packed (count : Nat) (s : Source) : Prop where
  sound : s.Sound
  space : s.active.space.Packed count
  unlimited : s.softLimit = none
  bytes : s.active.bytes = count * Size.minChunk
  live : ∀ i < count, s.isPublished (s.active.space.base + i * Size.minChunk) = true

/-- The accounts follow what was placed. -/
theorem countAllocation_packed {x : Nat} (sound : s.Sound) (packed : s.active.space.Packed count)
    (usable : s.active.space.usableSize? x = .ok (some Size.granule))
    (bytes : s.active.bytes + Size.minChunk < Word.limit) :
    (countAllocation x).Ends s
      (fun _ s' => s'.active.space = s.active.space ∧ s'.softLimit = s.softLimit
        ∧ s'.active.bytes = s.active.bytes + Size.minChunk)
      fun _ _ => False := by
  have laid := (sound.fits _ s.active_mem).laid
  have within : s.active.footprint ≤ s.active.allowed :=
    Nat.le_trans laid.footprint_le packed.allowed
  have more : Word.add s.active.bytes (Size.granule + Size.chunkOverhead)
      = .ok (s.active.bytes + Size.minChunk) := Word.add_eq_ok.2 ⟨bytes, rfl⟩
  simp only [countAllocation, ends_bind, ends_get, ends_lift, ends_set, ends_require]
  refine ⟨fun found same => ?_, fun cause broken => by cases usable.symm.trans broken⟩
  cases usable.symm.trans same
  refine ⟨fun total same => ?_, fun cause broken => by cases more.symm.trans broken⟩
  cases more.symm.trans same
  refine ⟨fun _ => ⟨rfl, rfl, rfl⟩, fun outgrown => ?_⟩
  exact absurd within (of_decide_eq_false outgrown)

theorem alloc_packed (packed : s.Packed count) (some_room : 0 < s.absoluteMax)
    (room : (count + 1) * Size.minChunk ≤ s.active.space.capacity) :
    (alloc 0).Ends s
      (fun result s' => result = some (s.active.space.base + count * Size.minChunk)
        ∧ s'.Packed (count + 1) ∧ s'.absoluteMax = s.absoluteMax
        ∧ s'.active.space.region = s.active.space.region)
      fun _ _ => False := by
  have sound := packed.sound
  have small := sound.small _ (mem_sites s.active_mem)
  obtain ⟨space, run, more, region, usable⟩ := Space.calloc_packed small packed.space room
  have bytes : s.active.bytes + Size.minChunk < Word.limit := by
    rw [packed.bytes]
    simp only [Space.capacity, Size.unreservable, Size.minChunk, Word.limit] at *
    omega
  have counted : (alloc 0).Ends s
      (fun result s' => result = some (s.active.space.base + count * Size.minChunk)
        ∧ s'.active.space = space ∧ s'.softLimit = none
        ∧ s'.active.bytes = (count + 1) * Size.minChunk)
      fun _ _ => False := by
    refine sound.ends_alloc (fun limited => absurd packed.unlimited limited) (fun full => ?_)
      fun fits makes run' => ?_
    · cases full.symm.trans run
    obtain ⟨carved, enough⟩ := makes.carved (sound.fits _ s.active_mem).laid fits
    obtain ⟨here, rfl⟩ := Prod.mk.inj (Except.ok.inj (run'.symm.trans run))
    obtain ⟨steady, -⟩ : Steady s (s.placed _) ∧ _ :=
      sound.placed (carved.placed fits enough) rfl rfl rfl rfl rfl
    rw [Option.some.inj here]
    refine (countAllocation_packed steady.sound more usable bytes).mono ?_
    rintro - s' ⟨same, unlimited, total⟩
    refine ⟨rfl, same, unlimited.trans packed.unlimited, ?_⟩
    rw [total, Nat.succ_mul]
    exact congrArg (· + _) packed.bytes
  refine ((alloc_spec sound some_room 0).and counted).imp ?_ fun _ _ both => both.2
  rintro _ s' ⟨gains, rfl, same, unlimited, total⟩
  have gains : Gains s (s.active.space.base + count * Size.minChunk) s' := gains
  refine ⟨rfl, ⟨gains.sound, same ▸ more, unlimited, total, fun i below => ?_⟩, gains.maximum, ?_⟩
  · rw [gains.published, same, Space.base, region]
    rcases Nat.lt_succ_iff_lt_or_eq.1 below with earlier | rfl
    · exact .inr (packed.live i earlier)
    · exact .inl rfl
  · rw [same, region]

/-! ### Empty arenas -/

/-- Nothing was ever allocated. -/
structure Blank (s : Source) : Prop where
  free : s.active.space.free = {}
  top : s.active.space.top = 0
  footprint : s.active.footprint = 0
  frozen : s.frozen = []
  external : s.externalBytes = 0
  bytes : s.active.bytes = 0
  unlimited : s.softLimit = none
  capacity : Size.pagesUp (max s.absoluteMax Size.page) = .ok s.active.space.capacity
  allowed : s.ideal ≤ s.active.space.allowed
  whole : s.active.space.allowed % Size.page = 0
  ideal : s.ideal ≤ s.absoluteMax

theorem Blank.packed (blank : s.Blank) (sound : s.Sound) (some_room : 0 < s.absoluteMax)
    (ideal : s.ideal = s.absoluteMax) : s.Packed 0 where
  sound := sound
  space := by
    obtain ⟨-, capacity⟩ := Size.pagesUp_eq_ok.1 blank.capacity
    have allowed := blank.allowed
    have whole := blank.whole
    refine ⟨blank.free, blank.top.trans (Nat.zero_mul _).symm, ?_, ?_⟩
    · simp only [Size.page] at *
      omega
    · rw [capacity]
      exact Nat.mul_mod_left _ _
  unlimited := blank.unlimited
  bytes := blank.bytes.trans (Nat.zero_mul _).symm
  live _ below := absurd below (Nat.not_lt_zero _)

theorem blank_of_startup {start maximum : Nat} {zygote : Bool}
    (run : startup start maximum zygote = .ok (.ok s)) : s.Blank := by
  obtain ⟨fits, active, map, make, rfl⟩ := startup_eq run
  have fresh := fresh_of_freshArena make
  obtain ⟨word, -⟩ := Size.pagesUp_eq_ok.1 fresh.capacity
  have small : start + Size.page < Word.limit := by omega
  obtain ⟨space, create, rfl, rfl⟩ := freshArena_eq make
  obtain ⟨free, top, allowed, whole⟩ := Space.create_blank create small
  exact ⟨free, top, fresh.footprint, rfl, rfl, rfl, rfl, fresh.capacity, allowed, whole, fits⟩

/-- To set the minimum to the maximum lets the active arena grow to its capacity. -/
theorem setMinimum_blank (blank : s.Blank) : (setMinimum s.absoluteMax).Ends s
    (fun _ s' => s'.Blank ∧ s'.ideal = s'.absoluteMax) fun _ _ => False := by
  obtain ⟨word, -⟩ := Size.pagesUp_eq_ok.1 blank.capacity
  have small : s.absoluteMax + Size.page < Word.limit := by omega
  obtain ⟨allowed, run, above, whole⟩ := Space.setAllowed_blank blank.footprint small
  have all : s.absoluteMax - overhead { s with minimum := s.absoluteMax } = s.absoluteMax := by
    rw [overhead, frozenFootprint, blank.frozen, blank.external]
    rfl
  simp only [setMinimum, ends_bind, ends_get, ends_set, ends_ite, ends_pure, Nat.min_self]
  refine ⟨fun below => ?_, fun reached => ⟨{ blank with }, ?_⟩⟩
  · have fits : ¬ s.absoluteMax < s.ideal := Nat.not_lt_of_ge blank.ideal
    have unused : ¬ s.absoluteMax < s.active.footprint := by
      rw [blank.footprint]
      exact Nat.not_lt_zero _
    simp only [setIdeal, setShare, ends_bind, ends_get, if_neg fits, if_pos below, all,
      if_neg unused, ends_lift, run, ends_set, ends_modify]
    refine ⟨?_, fun _ broken => by cases broken⟩
    rintro _ ⟨⟩
    exact ⟨{ blank with
      unlimited := rfl
      allowed := above
      whole := whole
      ideal := Nat.le_refl _ }, trivial⟩
  · exact Nat.le_antisymm blank.ideal (Nat.le_of_not_lt reached)

end Source

namespace Heap

open Action

/-- Roots of one list. -/
def rootsOf (objects : List Nat) : RootSet where
  lists := [{
    name := "filled"
    objects := { latest := objects, size := objects.length, size_eq := rfl } }]
  registered := [0]

/-- The objects of a heap that is filled from its start. -/
def packedObjects (r : Region) (count : Nat) : List Nat :=
  (List.range count).map fun i => r.base + i * Size.minChunk

theorem nodup_packedObjects (r : Region) (count : Nat) : (packedObjects r count).Nodup := by
  refine List.nodup_range.map_on fun i _ j _ same => ?_
  simp only [Size.minChunk] at same
  omega

section

variable [ObjectModel] {config : Config} {h : Heap} {count : Nat} {r : Region}

/-- The heap begins with so many of the least objects, in a region, and nothing is counted. -/
structure Packed (r : Region) (count : Nat) (h : Heap) : Prop where
  source : h.source.Packed count
  region : h.source.active.space.region = r
  uncounted : h.profiling = false
  idle : h.collecting = false

/-- The request that takes up the least room. -/
def leastRequest : Operation := .request 0 0 { untracked := true }

/-- One more object fits below the capacity, and no collection is needed for it. -/
theorem request_packed (packed : h.Packed r count) (some_room : 0 < h.source.absoluteMax)
    (room : (count + 1) * Size.minChunk ≤ r.size) : (perform leastRequest).Ends h
      (fun _ h' => h'.Packed r (count + 1) ∧ h'.source.absoluteMax = h.source.absoluteMax)
      fun _ _ => False := by
  obtain ⟨source, region, uncounted, idle⟩ := packed
  have small : ¬ h.source.absoluteMax ≤ 0 := Nat.not_le_of_lt some_room
  have unentered : ∀ x, enter 0 x { untracked := true } = pure () := fun _ => rfl
  rw [← region] at room
  simp only [leastRequest, perform, request, findRoom, ends_bind, ends_get, if_neg small, onSource,
    ends_on]
  refine (Source.alloc_packed source some_room room).mono ?_
  rintro _ s ⟨rfl, more, maximum, same⟩
  have packed' : Packed r (count + 1) { h with source := s } :=
    ⟨more, same.trans region, uncounted, idle⟩
  simp only [ends_bind, unentered, ends_pure]
  rw [countIf, ends_ite]
  refine ⟨fun counted => ?_, fun _ => ends_pure.2 ⟨packed', maximum⟩⟩
  rw [uncounted] at counted
  cases counted

theorem packed_of_requests (n : Nat) (packed : h.Packed r count)
    (some_room : 0 < h.source.absoluteMax) (room : (count + n) * Size.minChunk ≤ r.size) :
    (h.afterAll (.replicate n leastRequest)).Packed r (count + n) := by
  induction n generalizing h count with
  | zero => exact packed
  | succ n ih =>
    have next : (count + 1) * Size.minChunk ≤ r.size := by
      simp only [Size.minChunk] at *
      omega
    obtain ⟨packed', maximum⟩ := (request_packed packed some_room next).after
      (fun h' => h'.Packed r (count + 1) ∧ h'.source.absoluteMax = h.source.absoluteMax)
      (fun _ _ done => done) fun _ _ => False.elim
    have order : count + (n + 1) = count + 1 + n := by omega
    rw [List.replicate_succ, afterAll, order]
    exact ih packed' (maximum ▸ some_room) (order ▸ room)

/-- Steps after which a new heap holds so many of the least objects. -/
def fillingSteps (maximum count : Nat) : List Operation :=
  [.setProfiling false, .setMinimum maximum] ++ .replicate count leastRequest

/-- Steps after which these objects are roots, with no call under way. -/
def rootingSteps (objects : List Nat) : List Operation := [.setRoots (rootsOf objects), .endCall]

/-- To keep as many objects as do not fit on the stack has a collection break off. -/
theorem Packed.overflows (packed : h.Packed r count) (sound : h.Sound)
    (many : h.config.maximumSize / Size.minChunk < count) :
    ∃ h', perform (.collect false) (h.afterAll (rootingSteps (packedObjects r count)))
      = .error (.fatal (.markStackOverflow (h.config.maximumSize / Size.minChunk))) h' := by
  let rooted := h.afterAll (rootingSteps (packedObjects r count))
  have sound' : rooted.Sound := ⟨sound.source, sound.maximum⟩
  have live : ∀ x ∈ packedObjects r count, rooted.isValid x = true := by
    intro x member
    obtain ⟨i, below, rfl⟩ := List.mem_map.1 member
    rw [← packed.region]
    exact packed.source.live i (List.mem_range.1 below)
  have roots : packedObjects r count ⊆ rooted.rootSet := by
    intro x member
    have listed : x ∈ rooted.roots.all := by
      rw [RootSet.all]
      exact List.mem_flatMap.2 ⟨0, List.mem_singleton.2 rfl, List.mem_reverse.2 member⟩
    simp only [rootSet, List.mem_append]
    exact .inl (.inl (.inl (.inl (.inl listed))))
  have more : rooted.config.maximumSize / Size.minChunk < (packedObjects r count).length := by
    rw [packedObjects, List.length_map, List.length_range]
    exact many
  have overflow := collect_overflows sound' packed.idle rfl (nodup_packedObjects r count) live
    roots more false
  have stopped : (perform (.collect false)).Ends rooted (fun _ _ => False) fun cause _ =>
      cause = .fatal (.markStackOverflow (h.config.maximumSize / Size.minChunk)) := by
    simp only [perform, silent, ends_bind]
    exact overflow.mono fun _ _ => False.elim
  obtain ⟨cause, h', failed, rfl⟩ := stopped.exists_error
  exact ⟨h', failed⟩

theorem afterAll_append (h : Heap) (first second : List Operation) :
    h.afterAll (first ++ second) = (h.afterAll first).afterAll second := by
  induction first generalizing h with
  | nil => rfl
  | cons op rest ih => exact ih _

omit [ObjectModel] in
theorem blank_of_create (run : create config = .ok (.ok h)) : h.source.Blank := by
  obtain ⟨s, started, source, -⟩ := create_frame run
  have blank := Source.blank_of_startup started
  exact source ▸ { blank with }

/-- With the minimum at the maximum a new heap has room for the least objects. -/
theorem packed_of_create (run : create config = .ok (.ok h)) (some_room : 0 < config.maximumSize) :
    (h.afterAll [.setProfiling false, .setMinimum config.maximumSize]).Packed
      h.source.active.space.region 0 := by
  obtain ⟨s, -, -, same, -, idle, -⟩ := create_frame run
  obtain ⟨⟨sound, maximum⟩, -⟩ := sound_create run
  have blank := blank_of_create run
  have filled : (perform (.setMinimum config.maximumSize)).Ends { h with profiling := false }
      (fun _ h' => h'.Packed h.source.active.space.region 0) fun _ _ => False := by
    rw [← same, ← maximum] at some_room ⊢
    simp only [perform, silent, setMinimum, onSource, ends_bind, ends_on, ends_pure, ends_modify]
    have resizes := Source.resizes_setMinimum h.source.absoluteMax h.source
    refine (resizes.and (Source.setMinimum_blank blank)).imp ?_ fun _ _ both => both.2
    rintro _ s' ⟨resized, blank', ideal⟩
    have steady := sound.steady_of_resized resized
    obtain ⟨allowed, active⟩ := resized.active
    have region : s'.active.space.region = h.source.active.space.region := by rw [active]
    have packed : s'.Packed 0 := blank'.packed steady.sound (steady.maximum ▸ some_room) ideal
    obtain ⟨threshold, policy, changed⟩ :=
      sizeChanged_frame { h with profiling := false, source := s' }
    rw [changed]
    exact ⟨packed, region, rfl, idle⟩
  exact filled.after (fun h' => h'.Packed _ 0) (fun _ _ packed => packed) fun _ _ => False.elim

/-- A new heap whose maximum is not in whole pages can be filled until a collection runs out of
stack. -/
theorem filled_overflows (run : create config = .ok (.ok h))
    (broken : config.maximumSize % Size.page ≠ 0) : ∃ h₁ h', Reachable config h₁
      ∧ perform (.collect false) h₁
        = .error (.fatal (.markStackOverflow (config.maximumSize / Size.minChunk))) h' := by
  have some_room : 0 < config.maximumSize := by
    refine Nat.pos_of_ne_zero fun zero => broken ?_
    rw [zero]
    rfl
  obtain ⟨⟨-, maximum⟩, same, -⟩ := sound_create run
  let r := h.source.active.space.region
  let count := config.maximumSize / Size.minChunk + 1
  have room : (0 + count) * Size.minChunk ≤ r.size := by
    have capacity := (blank_of_create run).capacity
    rw [maximum, same] at capacity
    obtain ⟨-, rounded⟩ := Size.pagesUp_eq_ok.1 capacity
    rw [show r.size = _ from rounded]
    simp only [count, Size.page, Size.minChunk] at *
    omega
  have created : Reachable config h := .create run
  have sized := created.afterAll [.setProfiling false, .setMinimum config.maximumSize]
  have full := created.afterAll (fillingSteps config.maximumSize count)
  have packed : (h.afterAll (fillingSteps config.maximumSize count)).Packed r (0 + count) := by
    rw [fillingSteps, afterAll_append]
    refine packed_of_requests count (packed_of_create run some_room) ?_ room
    rw [sized.sound.1.maximum, sized.sound.2]
    exact some_room
  obtain ⟨sound, config'⟩ := full.sound
  have many : (h.afterAll (fillingSteps config.maximumSize count)).config.maximumSize
      / Size.minChunk < 0 + count := by
    rw [config', Nat.zero_add]
    exact Nat.lt_succ_self _
  obtain ⟨h', overflow⟩ := packed.overflows sound many
  rw [config'] at overflow
  exact ⟨_, h', full.afterAll _, overflow⟩

end

/-- No collection ever runs out of stack exactly if the maximum is in whole pages. -/
theorem stack_suffices_iff [ObjectModel] {config : Config} {h : Heap}
    (run : create config = .ok (.ok h)) :
    (∀ h₁ op capacity h₂, Reachable config h₁ →
        perform op h₁ ≠ .error (.fatal (.markStackOverflow capacity)) h₂)
      ↔ config.maximumSize % Size.page = 0 := by
  constructor
  · intro enough
    by_contra broken
    obtain ⟨h₁, h₂, reachable, overflow⟩ := filled_overflows run broken
    exact enough h₁ _ _ h₂ reachable overflow
  · intro whole h₁ op capacity h₂ reachable overflow
    obtain ⟨sound, same⟩ := reachable.sound
    have fails : Fails h₁ _ h₂ := (perform_spec sound op).error overflow
    obtain ⟨s, source, maximum, crowded⟩ := fails.overflow trivial
    refine source.not_crowded ?_ crowded
    rw [maximum, same]
    exact whole

/-- The settings of a heap of a hundred bytes, which take up a page. -/
def hundredConfig : Config := { startSize := 100, maximumSize := 100, startWorker := false }

theorem hundred_overflows : hundredConfig.maximumSize % Size.page ≠ 0
    ∧ ∃ h op capacity h', Reachable hundredConfig h
      ∧ perform op h = .error (.fatal (.markStackOverflow capacity)) h' := by
  have broken : hundredConfig.maximumSize % Size.page ≠ 0 := by decide
  refine ⟨broken, ?_⟩
  obtain ⟨new, run⟩ : ∃ new, create hundredConfig = .ok (.ok new) := ⟨_, rfl⟩
  by_contra none
  apply broken
  apply (stack_suffices_iff run).1
  intro h op capacity h' reachable overflow
  exact none ⟨h, op, capacity, h', reachable, overflow⟩

end Heap

end ManagedHeap
