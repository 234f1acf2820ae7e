import ManagedHeap.Proofs.Steering

/-!
What live objects hold while memory is handed out and given back around them. A new chunk and the
pages given back lie apart from every chunk in use, so all that is zeroed is memory of no object.
-/

namespace ManagedHeap

/-- The whole pages inside a stretch lie within it. -/
theorem Region.wholePages_within {r : Region} {start length first bytes : Nat}
    (run : r.wholePages start length = .ok (some (first, bytes))) :
    start ≤ first ∧ first + bytes ≤ start + length := by
  simp only [wholePages, bind, Except.bind, pure, Except.pure] at run
  split at run
  · cases run
  case h_2 rounded up =>
    split at run
    · cases run
    case h_2 stop sum =>
      split at run
      · cases run
      case h_2 last down =>
        split at run
        · cases run
        case isFalse order =>
          split at run
          · cases run
          · cases run
            have after := (Size.pagesUp_bounds up).1
            have before : last ≤ start + length := by
              obtain ⟨-, rfl⟩ := Word.add_eq_ok.1 sum
              cases down
              exact Nat.and_le_left
            omega

namespace Space

variable {s s' s'' : Space} {offset size n first count lower upper : Nat}

/-- The space is where it was, and each chunk is still there, as long as it was, with the request that it
was made for and all words that its holder may use. -/
structure Intact (s s' : Space) : Prop where
  region : s'.region = s.region
  chunks : ∀ offset ∈ s.chunks, offset ∈ s'.chunks
  requested : ∀ offset ∈ s.chunks, s'.requestedAt offset = s.requestedAt offset
  extent : ∀ offset ∈ s.chunks, s'.extent offset = s.extent offset
  words : ∀ offset ∈ s.chunks, ∀ k, 8 * k + Size.chunkOverhead < s.extent offset →
    s'.words.read (offset / 8 + k) = s.words.read (offset / 8 + k)

theorem intact_of_eq (region : s'.region = s.region) (chunks : s'.chunks = s.chunks)
    (requests : s'.requests = s.requests) (words : s'.words = s.words) : s.Intact s' where
  region := region
  chunks offset chunk := chunks ▸ chunk
  requested offset _ := by rw [requestedAt, requestedAt, requests]
  extent offset _ := by rw [Space.extent, Space.extent, requestedAt, requestedAt, chunks, requests]
  words offset _ k _ := by rw [words]

theorem Intact.trans (first : s.Intact s') (second : s'.Intact s'') : s.Intact s'' where
  region := second.region.trans first.region
  chunks offset chunk := second.chunks offset (first.chunks offset chunk)
  requested offset chunk :=
    (second.requested offset (first.chunks offset chunk)).trans (first.requested offset chunk)
  extent offset chunk :=
    (second.extent offset (first.chunks offset chunk)).trans (first.extent offset chunk)
  words offset chunk k own := by
    rw [second.words offset (first.chunks offset chunk) k, first.words offset chunk k own]
    rw [first.extent offset chunk]
    exact own

/-- No chunk reaches into the offsets from `lower` on and before `upper`. -/
def Unused (s : Space) (lower upper : Nat) : Prop :=
  ∀ offset ∈ s.chunks, offset + s.extent offset ≤ lower ∨ upper ≤ offset

theorem Vacant.unused (vacant : s.Vacant lower upper) : s.Unused lower upper :=
  fun _ chunk => vacant _ _ _ (piece_chunk chunk)

/-- A free stretch is not in use. -/
theorem Laid.unused_gap (laid : s.Laid) (gap : s.free.sizeAt? offset = some size) :
    s.Unused offset (offset + size) := by
  intro other chunk
  have piece : s.Piece false offset size := gap
  rcases laid.apart _ _ _ _ _ _ (piece_chunk chunk) piece with ⟨same, -⟩ | apart
  · cases same
  · exact apart

/-- The words of an unused stretch may be overwritten. -/
theorem Laid.read_fill (laid : s.Laid) (unused : s.Unused lower upper) (low : lower ≤ 8 * first)
    (high : 8 * (first + count) ≤ upper) (chunk : offset ∈ s.chunks) {k : Nat}
    (own : 8 * k + Size.chunkOverhead < s.extent offset) (value : Nat) :
    (s.words.fill first count value).read (offset / 8 + k) = s.words.read (offset / 8 + k) := by
  have aligned := (laid.aligned _ _ _ (piece_chunk chunk)).1
  rw [Cells.read_fill]
  apply if_neg
  have apart := unused offset chunk
  simp only [Size.granule, Size.chunkOverhead] at *
  omega

theorem Laid.intact_fill (laid : s.Laid) (unused : s.Unused lower upper) (low : lower ≤ 8 * first)
    (high : 8 * (first + count) ≤ upper) (value : Nat) :
    s.Intact { s with words := s.words.fill first count value } where
  region := rfl
  chunks _ chunk := chunk
  requested _ _ := rfl
  extent _ _ := rfl
  words _ chunk _ own := laid.read_fill unused low high chunk own value

/-- A chunk that is placed where room was made for it touches no other. -/
theorem Carved.intact {taken : Nat} (carved : Carved s offset taken s') (laid : s.Laid)
    (large : Size.minChunk ≤ taken) : s.Intact (s'.place offset taken n) := by
  have fresh := carved.vacant.not_mem (Nat.lt_of_lt_of_le (by decide) large) carved.laid
  have aligned := carved.aligned
  have unused := carved.vacant.unused
  obtain ⟨free, top, footprint, rfl⟩ := carved.frame
  have unused' : s.Unused offset (offset + taken) := unused
  have other : ∀ {place}, place ∈ s.chunks → place ≠ offset := by
    rintro place chunk rfl
    exact fresh chunk
  refine ⟨rfl, fun place chunk => mem_place.2 (.inr chunk), fun place chunk => ?_,
    fun place chunk => extent_place (other chunk), fun place chunk k own => ?_⟩
  · rw [requestedAt_place, if_neg (other chunk)]
    rfl
  · refine laid.read_fill unused' ?_ ?_ chunk own 0
    · simp only [Size.granule] at aligned
      omega
    · simp only [Size.granule, Size.chunkOverhead, Size.minChunk] at *
      omega

theorem calloc_intact (laid : s.Laid) {result : Option Nat} (run : s.calloc n = .ok (result, s')) :
    s.Intact s' := by
  rcases calloc_cases laid run with ⟨-, rfl⟩ | ⟨offset, taken, needed, s₁, -, fits, enough, carved, rfl⟩
  · exact intact_of_eq rfl rfl rfl rfl
  · exact carved.intact laid (Nat.le_trans (chunkSizeFor_eq fits).2.1 enough)

/-- The memory given back lies within the stretch. -/
theorem discard_cases {length released : Nat} (run : s.discard offset length = .ok (released, s')) :
    s' = s ∨ ∃ first count, offset / 8 ≤ first ∧ 8 * (first + count) ≤ offset + length
      ∧ s' = { s with words := s.words.fill first count 0 } := by
  simp only [discard, bind, Except.bind, pure, Except.pure] at run
  split at run
  · cases run
  case h_2 pages whole =>
    split at run
    · cases run
      exact .inl rfl
    case h_2 first bytes =>
      cases run
      have within := Region.wholePages_within whole
      simp only [base] at *
      exact .inr ⟨_, _, by omega, by omega, rfl⟩

theorem Laid.intact_discard (laid : s.Laid) {length released : Nat}
    (unused : s.Unused offset (offset + length)) (aligned : offset % Size.granule = 0)
    (run : s.discard offset length = .ok (released, s')) : s.Intact s' := by
  rcases discard_cases run with rfl | ⟨first, count, low, high, rfl⟩
  · exact intact_of_eq rfl rfl rfl rfl
  · refine laid.intact_fill unused ?_ high 0
    simp only [Size.granule] at aligned
    omega

/-- What lies above the highest chunk is given back. -/
theorem Laid.intact_trim (laid : s.Laid) {pad released : Nat} (small : s.footprint < Word.limit)
    (run : s.trim pad = .ok (released, s')) : s.Intact s' := by
  simp only [Space.trim, bind, Except.bind, pure, Except.pure] at run
  split at run
  · cases run
  case h_2 rounded up =>
    split at run
    · cases run
      exact intact_of_eq rfl rfl rfl rfl
    case isFalse less =>
      split at run
      · cases run
      case h_2 discarded discard =>
        obtain ⟨more, s₁⟩ := discarded
        cases run
        have above := top_le_kept laid.top_le small up
        have pages := (Size.pagesUp_bounds up).2.2
        have whole := laid.footprint_pages
        have unused : s.Unused (min rounded s.footprint)
            (min rounded s.footprint + (s.footprint - min rounded s.footprint)) :=
          fun place chunk => .inl
            (Nat.le_trans (laid.below _ _ _ (piece_chunk chunk)) above)
        have aligned : min rounded s.footprint % Size.granule = 0 := by
          simp only [Size.page, Size.granule] at *
          omega
        exact (laid.intact_discard unused aligned discard).trans (intact_of_eq rfl rfl rfl rfl)

theorem mem_toList {e : Extent} (member : e ∈ s.free.toList) :
    s.free.sizeAt? e.offset = some e.size := by
  obtain ⟨⟨offset, size⟩, gap, rfl⟩ := List.mem_map.1 member
  exact Std.ExtTreeMap.mem_toList_iff_getElem?_eq_some.1 gap

/-- The whole pages of the free stretches are given back. -/
theorem Laid.intact_releaseFreePages (laid : s.Laid) {released : Nat}
    (run : s.releaseFreePages = .ok (released, s')) : s.Intact s' := by
  let sofar (reached : Nat × Space) : Prop :=
    (∃ words, reached.2 = { s with words }) ∧ s.Intact reached.2
  refine (foldlM_keeps sofar s.free.toList ?_
    ⟨⟨s.words, rfl⟩, intact_of_eq rfl rfl rfl rfl⟩ run).2
  rintro ⟨bytes, s₁⟩ extent member after ⟨⟨words, rfl⟩, intact⟩ step
  obtain ⟨words', same⟩ := discardMore_frame step
  refine ⟨⟨words', same⟩, intact.trans ?_⟩
  simp only [discardMore, bind, Except.bind, pure, Except.pure] at step
  split at step
  · cases step
  case h_2 discarded discard =>
    cases step
    have laid₁ : Laid { s with words } := laid.congr rfl rfl rfl rfl rfl rfl
    have aligned := (laid.aligned false _ _ (mem_toList member)).1
    exact laid₁.intact_discard (laid₁.unused_gap (mem_toList member)) aligned discard

end Space

theorem Arena.intact_trim {a a' : Arena} {released : Nat} (laid : a.space.Laid)
    (small : a.footprint < Word.limit) (run : a.trim = .ok (released, a')) :
    a.space.Intact a'.space := by
  obtain ⟨above, space, inside, space', cut, rest, rfl⟩ := Arena.trim_eq run
  exact (laid.intact_trim small cut).trans ((laid.trim small cut).1.intact_releaseFreePages rest)

/-- What an arena holds, and where its chunks are. -/
def Arena.contents (a : Arena) : (Region × Std.ExtTreeMap Nat Nat × Cells) × Std.ExtTreeMap Nat Chunk :=
  (a.memory, a.space.chunks)

namespace Source

open Action

variable {s s' s'' : Source} {a : Arena} {x i n : Nat}

/-- Each arena is still there, with all that its chunks hold. -/
def Intact (s s' : Source) : Prop := ∀ a ∈ s.arenas, ∃ a' ∈ s'.arenas, a.space.Intact a'.space

theorem Intact.trans (first : s.Intact s') (second : s'.Intact s'') : s.Intact s'' := by
  intro a member
  obtain ⟨a', member', kept⟩ := first a member
  obtain ⟨a'', member'', kept'⟩ := second a' member'
  exact ⟨a'', member'', kept.trans kept'⟩

theorem intact_of_contents (same : s'.arenas.map Arena.contents = s.arenas.map Arena.contents) :
    s.Intact s' := by
  intro a member
  have here := List.mem_map_of_mem (f := Arena.contents) member
  rw [← same] at here
  obtain ⟨a', member', equal⟩ := List.mem_map.1 here
  simp only [Arena.contents, Arena.memory, Prod.mk.injEq] at equal
  obtain ⟨⟨region, requests, words⟩, chunks⟩ := equal
  exact ⟨a', member', Space.intact_of_eq region chunks requests words⟩

theorem Intact.refl (s : Source) : s.Intact s := intact_of_contents rfl

theorem Resized.intact (resized : Resized s s') : s.Intact s' := by
  apply intact_of_contents
  obtain ⟨allowed, active⟩ := resized.active
  rw [arenas, arenas, active, resized.frozen]
  rfl

theorem word_eq (here : s.holderIndex? x = some i) (arena : s.arenas[i]? = some a) (k : Nat) :
    s.word x k = a.space.readWord x k := by
  rw [word, holder_eq, here, Option.bind_some, arena]

/-- The program sees of a live object what it saw. -/
theorem Sound.payload_intact (sound : s.Sound) (sound' : s'.Sound) (intact : s.Intact s')
    (live : s.isPublished x = true) : s'.payload x = s.payload x := by
  obtain ⟨i, a, here, -, inside, holder, chunk⟩ := sound.live_cases live
  obtain ⟨a', member', kept⟩ := intact a (mem_arenas_of_getElem here)
  have region := kept.region
  obtain ⟨j, there⟩ := List.getElem?_of_mem member'
  have inside' : a'.space.region.contains x = true := region.symm ▸ inside
  have holder' : s'.holderIndex? x = some j :=
    findIdx_eq_some_of_unique there inside' fun k b found other =>
      sound'.index_unique found there other inside'
  have base : a'.space.base = a.space.base := by rw [Space.base, region, Space.base]
  have bytes : s'.requested x = s.requested x := by
    rw [requested_eq holder' there, requested_eq holder here, base]
    exact kept.requested _ chunk
  rw [payload, payload, bytes]
  simp only [Payload.mk.injEq, true_and]
  funext k
  by_cases own : k < s.requested x / 8
  · rw [if_pos own, if_pos own, word_eq holder' there, word_eq holder here, Space.readWord,
      Space.readWord, base]
    rw [requested_eq holder here] at own
    have laid := (sound.fits a (mem_arenas_of_getElem here)).laid
    exact kept.words _ chunk k (laid.own_word chunk (by omega))
  · rw [if_neg own, if_neg own]

/-- The current arena keeps all that it holds. -/
theorem intact_of_active (kept : s.active.space.Intact s'.active.space) (frozen : s'.frozen = s.frozen) :
    s.Intact s' := by
  intro a member
  rcases List.mem_cons.1 member with rfl | older
  · exact ⟨s'.active, s'.active_mem, kept⟩
  · refine ⟨a, List.mem_cons_of_mem _ ?_, Space.intact_of_eq rfl rfl rfl rfl⟩
    rw [frozen]
    exact older

/-! ### Allocating -/

theorem alloc_intact (sound : s.Sound) (n : Nat) :
    (alloc n).Ends s (fun _ s' => s.Intact s') fun _ _ => True := by
  refine ends_alloc (.refl s) (fun {x space} run => ⟨trivial, fun length => ?_⟩) fun _ => trivial
  refine intact_of_active ?_ rfl
  exact Space.calloc_intact (sound.fits _ s.active_mem).laid run

theorem allocAndGrow_intact (sound : s.Sound) (n : Nat) :
    (allocAndGrow n).Ends s (fun _ s' => s.Intact s') fun _ _ => True := by
  refine allocAndGrow_of_alloc (fun s₁ before => ?_) fun _ _ _ => trivial
  refine (alloc_intact (sound.steady_of_resized before).sound n).mono fun _ _ kept _ after => ?_
  exact (before.intact.trans kept).trans after.intact

/-- What only resizes the arenas leaves the chunks alone. -/
theorem Resizes.intact {α : Type} {action : Action Source α} (resizes : Resizes action)
    (s : Source) : action.Ends s (fun _ s' => s.Intact s') fun _ _ => True :=
  (resizes s).imp (fun _ _ resized => resized.intact) fun _ _ _ => trivial

/-! ### Giving memory back, and splitting arenas off -/

theorem trim_intact (sound : s.Sound) :
    trim.Ends s (fun _ s' => s.Intact s') fun _ _ => True := by
  refine ends_trim trivial fun {active frozen} cut => ?_
  have kept : List.Forall₂ (fun a a' : Arena => a.space.Intact a'.space) s.arenas (active :: frozen) :=
    cut.imp fun a a' ⟨member, released, run⟩ =>
      Arena.intact_trim (sound.fits a member).laid (sound.footprint_lt member) run
  exact fun a member => exists_left_of_forall₂ kept.flip member

theorem shrinkToIdeal_intact (sound : s.Sound) :
    shrinkToIdeal.Ends s (fun _ s' => s.Intact s') fun _ _ => True := by
  simp only [shrinkToIdeal, ends_bind, ends_get, ends_pure]
  refine (trim_intact sound).mono fun _ s₁ kept => ?_
  exact ((resizes_setIdeal s₁.ideal).intact s₁).mono fun _ _ more => kept.trans more

theorem SplitOff.intact {map : Bitmap} {allowed : Nat} (split : s.SplitOff a map allowed s') :
    s.Intact s' := by
  obtain rfl := split.pushed
  intro b member
  obtain ⟨b', member', kept⟩ := (resized_of_setAllowed split.pinned).intact b member
  exact ⟨b', List.mem_cons_of_mem _ member', kept⟩

theorem addArena_intact (s : Source) :
    addArena.Ends s (fun _ s' => s.Intact s') fun _ _ => True :=
  ends_addArena (.refl s) trivial SplitOff.intact

theorem beforeFork_intact (s : Source) :
    beforeFork.Ends s (fun _ s' => s.Intact s') fun _ _ => True := by
  have tried : s.Intact { s with zygoteSplit := true } := intact_of_contents rfl
  exact ends_beforeFork (.refl s) ((addArena_intact _).mono fun _ _ kept => tried.trans kept)

theorem afterZygote_intact (s : Source) :
    afterZygote.Ends s (fun _ s' => s.Intact s') fun _ _ => True :=
  ends_afterZygote (.refl s) (addArena_intact s)

/-! ### Exchanging bitmaps -/

theorem snapshotBitmaps_intact (s : Source) : s.Intact s.snapshotBitmaps.2 := by
  obtain ⟨extra, same⟩ := s.snapshotBitmaps_frame
  rw [same]
  exact intact_of_contents rfl

theorem replaceCurrent_intact (s : Source) (numbers : List Nat) :
    s.Intact (s.replaceCurrent numbers) :=
  intact_of_contents (map_replaceCurrent Arena.contents fun _ _ _ => rfl)

/-- The bitmaps that were offered are live then. -/
theorem live_replaceBitmaps {numbers : List Nat} (takes : s.Takes numbers) :
    (s.replaceBitmaps numbers).2.2.arenas.map Arena.live = numbers := by
  have all : ∀ {l : List Arena} {numbers : List Nat},
      List.Forall₂ (fun a number => (s.bitmap a.live).sameRange (s.bitmap number) = true) l numbers →
      (l.zipWith (fun a number => { a with live := number }) numbers).map Arena.live = numbers := by
    intro l numbers both
    induction both with
    | nil => rfl
    | cons _ _ ih => exact congrArg (_ :: ·) ih
  obtain _ | ⟨first, rest⟩ := numbers
  · cases takes
  · rw [replaceBitmaps_taken takes]
    exact all takes

end Source

end ManagedHeap
