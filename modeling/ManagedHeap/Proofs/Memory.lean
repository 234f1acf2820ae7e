import ManagedHeap.Proofs.Sources

/-!
What programs see of the memory. The words of an object are its own: nothing that is done to another
object changes them.
-/

namespace ManagedHeap

/-- Where an arena lies, what was asked for in it, and what its memory holds. -/
def Arena.memory (a : Arena) : Region × Std.ExtTreeMap Nat Nat × Cells :=
  (a.space.region, a.space.requests, a.space.words)

namespace Source

variable {s s' : Source} {a : Arena} {change : Arena → Arena} {x y i j : Nat}

theorem arenas_modifyArena (s : Source) (i : Nat) (change : Arena → Arena) :
    (s.modifyArena i change).arenas = s.arenas.modify i change := by
  cases i <;> rfl

theorem getElem_modifyArena : (s.modifyArena i change).arenas[j]?
    = if i = j then s.arenas[j]?.map change else s.arenas[j]? := by
  rw [arenas_modifyArena, List.getElem?_modify]
  by_cases same : i = j
  · simp [same]
  · simp [same]

theorem mem_modifyArena (member : a ∈ (s.modifyArena i change).arenas) :
    a ∈ s.arenas ∨ ∃ b, s.arenas[i]? = some b ∧ a = change b := by
  obtain ⟨j, found⟩ := List.getElem?_of_mem member
  rw [getElem_modifyArena] at found
  split at found
  case isTrue same =>
    obtain ⟨b, old, rfl⟩ := Option.map_eq_some_iff.1 found
    exact .inr ⟨b, same ▸ old, rfl⟩
  case isFalse => exact .inl (List.mem_of_getElem? found)

/-- What a change to an arena leaves alone is left alone in the list of all arenas. -/
theorem map_modifyArena {β : Type} {view : Arena → β} (same : ∀ a, view (change a) = view a) :
    (s.modifyArena i change).arenas.map view = s.arenas.map view := by
  apply List.ext_getElem?
  intro j
  rw [List.getElem?_map, List.getElem?_map, getElem_modifyArena]
  split
  · rw [Option.map_map]
    exact congrArg (Option.map · _) (funext same)
  · rfl

theorem modifyArena_frame (s : Source) (i : Nat) (change : Arena → Arena) :
    ∃ active frozen, s.modifyArena i change = { s with active, frozen } := by
  cases i <;> exact ⟨_, _, rfl⟩

/-- A change to an arena that stays where it is, laid out in order and with all its chunks. -/
theorem Sound.steady_modifyArena (sound : s.Sound)
    (site : ∀ a, ((change a).live, (change a).space.region) = (a.live, a.space.region))
    (footprint : ∀ a, (change a).footprint = a.footprint)
    (laid : ∀ a ∈ s.arenas, (change a).space.Laid)
    (chunks : ∀ (a : Arena) offset, offset ∈ a.space.chunks → offset ∈ (change a).space.chunks) :
    Steady s (s.modifyArena i change) := by
  have frozen : (s.modifyArena i change).frozenFootprint = s.frozenFootprint :=
    congrArg (fun l : List Nat => Word.total l.tail) (map_modifyArena footprint)
  refine sound.steady_of_arenas (map_modifyArena site) (fun a member => ?_) ?_ ?_ ?_
    (Nat.le_of_eq frozen)
  · rcases mem_modifyArena member with old | ⟨b, found, rfl⟩
    · exact ⟨(sound.fits a old).laid, a, old, rfl, rfl, fun _ here => here⟩
    · have old := mem_arenas_of_getElem found
      exact ⟨laid b old, b, old, (Prod.mk.inj (site b)).1, (Prod.mk.inj (site b)).2, chunks b⟩
  all_goals
    obtain ⟨active, frozen, same⟩ := s.modifyArena_frame i change
    rw [same]

theorem holder_eq (s : Source) (x : Nat) : s.holder? x = (s.holderIndex? x).bind (s.arenas[·]?) :=
  List.find?_eq_bind_findIdx?_getElem?

theorem holderIndex_congr (sites : s'.sites = s.sites) (x : Nat) :
    s'.holderIndex? x = s.holderIndex? x := by
  have regions : ∀ t : Source, t.holderIndex? x = t.sites.findIdx? fun site => site.2.contains x := by
    intro t
    rw [Source.sites, List.findIdx?_map]
    rfl
  rw [regions, regions, sites]

theorem requested_congr (requests : s'.arenas.map (fun a => (a.space.region, a.space.requests))
      = s.arenas.map fun a => (a.space.region, a.space.requests)) (x : Nat) :
    s'.requested x = s.requested x := by
  have read : ∀ t : Source, t.requested x
      = ((t.arenas.map fun a => (a.space.region, a.space.requests)).find? fun m =>
          m.1.contains x).elim 0 fun m => m.2.getD (x - m.1.base) 0 := by
    intro t
    rw [List.find?_map, requested]
    cases found : t.holder? x with
    | none =>
      rw [holder?] at found
      simp only [Function.comp_def, found, Option.map_none, Option.elim_none]
    | some a =>
      rw [holder?] at found
      simp only [Function.comp_def, found, Option.map_some, Option.elim_some]
      rfl
  rw [read, read, requests]

theorem requested_of_memory (memory : s'.arenas.map Arena.memory = s.arenas.map Arena.memory)
    (x : Nat) : s'.requested x = s.requested x := by
  apply requested_congr
  have both := congrArg (List.map fun m => (m.1, m.2.1)) memory
  rwa [List.map_map, List.map_map] at both

theorem word_of_memory (memory : s'.arenas.map Arena.memory = s.arenas.map Arena.memory)
    (x : Nat) : s'.word x = s.word x := by
  have find : ∀ t : Source, (t.holder? x).map Arena.memory
      = (t.arenas.map Arena.memory).find? fun m => m.1.contains x := by
    intro t
    rw [List.find?_map]
    rfl
  have holder : (s'.holder? x).map Arena.memory = (s.holder? x).map Arena.memory := by
    rw [find, find, memory]
  funext index
  have read : ∀ t : Source, t.word x index = match (t.holder? x).map Arena.memory with
      | some (region, _, words) => words.read ((x - region.base) / 8 + index)
      | none => 0 := by
    intro t
    rw [Source.word]
    cases t.holder? x <;> rfl
  rw [read, read, holder]

/-- What a program sees depends on the memory alone. -/
theorem payload_congr (memory : s'.arenas.map Arena.memory = s.arenas.map Arena.memory) (x : Nat) :
    s'.payload x = s.payload x := by
  rw [payload, payload, requested_of_memory memory, word_of_memory memory]

/-- The arena and the chunk of a live object. -/
theorem Sound.live_cases (sound : s.Sound) (live : s.isPublished x = true) :
    ∃ i a, s.arenas[i]? = some a ∧ (s.bitmap a.live).test x = true
      ∧ a.space.region.contains x = true ∧ s.holderIndex? x = some i
      ∧ x - a.space.base ∈ a.space.chunks := by
  obtain ⟨a, member, bit⟩ := sound.published_iff.1 live
  obtain ⟨i, here⟩ := List.getElem?_of_mem member
  have inside := ((sound.mayContain_iff member).1 (Bitmap.mayContain_of_test bit)).1
  refine ⟨i, a, here, bit, inside, ?_, (sound.fits a member).chunk x bit⟩
  exact findIdx_eq_some_of_unique here inside fun j b found other =>
    sound.index_unique found here other inside

variable {index count value : Nat}

theorem setWords_eq (found : s.holderIndex? x = some i) : s.setWords x index count value
    = s.modifyArena i fun a => { a with space := a.space.fillWords x index count value } := by
  rw [setWords, found]

theorem map_setWords {β : Type} (view : Arena → β)
    (same : ∀ a words, view { a with space := { a.space with words } } = view a)
    (s : Source) (x index count value : Nat) :
    (s.setWords x index count value).arenas.map view = s.arenas.map view := by
  unfold setWords
  split
  · exact map_modifyArena fun a => same a _
  · rfl

theorem sites_setWords (s : Source) (x index count value : Nat) :
    (s.setWords x index count value).sites = s.sites :=
  map_setWords _ (fun _ _ => rfl) s x index count value

/-- Writing fills words in the arena that has the address, if there is one. -/
theorem setWords_cases (s : Source) (x index count value : Nat) : s.setWords x index count value = s
    ∨ ∃ i, s.setWords x index count value
      = s.modifyArena i fun a => { a with space := a.space.fillWords x index count value } := by
  unfold setWords
  split
  case h_1 i _ => exact .inr ⟨i, rfl⟩
  case h_2 => exact .inl rfl

theorem setWords_frame (s : Source) (x index count value : Nat) :
    ∃ active frozen, s.setWords x index count value = { s with active, frozen } := by
  rcases s.setWords_cases x index count value with same | ⟨i, same⟩
  · exact ⟨_, _, same⟩
  · rw [same]
    exact s.modifyArena_frame i _

theorem bitmaps_setWords (s : Source) (x index count value : Nat) :
    (s.setWords x index count value).bitmaps = s.bitmaps := by
  obtain ⟨active, frozen, same⟩ := s.setWords_frame x index count value
  rw [same]

theorem requested_setWords (s : Source) (x index count value y : Nat) :
    (s.setWords x index count value).requested y = s.requested y :=
  requested_congr (map_setWords _ (fun _ _ => rfl) s x index count value) y

/-- Only the words in range change, and only in the arena that has the address. -/
theorem word_setWords (here : s.holderIndex? x = some i) (arena : s.arenas[i]? = some a)
    (there : s.holderIndex? y = some j) (k : Nat) :
    (s.setWords x index count value).word y k
      = if i = j ∧ (x - a.space.base) / 8 + index ≤ (y - a.space.base) / 8 + k
          ∧ (y - a.space.base) / 8 + k < (x - a.space.base) / 8 + index + count then value
        else s.word y k := by
  have index' := holderIndex_congr (sites_setWords s x index count value) y
  rw [word, word, holder_eq, holder_eq, index', there, Option.bind_some, Option.bind_some,
    setWords_eq here, getElem_modifyArena]
  by_cases same : i = j
  · subst same
    rw [if_pos rfl, arena, Option.map_some]
    simp only [Space.readWord, Space.fillWords, Space.base, Cells.read_fill, true_and]
  · rw [if_neg same, if_neg fun both => same both.1]

theorem requested_eq (here : s.holderIndex? x = some i) (arena : s.arenas[i]? = some a) :
    s.requested x = a.space.requestedAt (x - a.space.base) := by
  rw [requested, holder_eq, here, Option.bind_some, arena]

/-- Writing one word of a live object changes no other word of a live object. -/
theorem Sound.word_setWord (sound : s.Sound) (live : s.isPublished x = true)
    (live' : s.isPublished y = true) (own : 8 * index < s.requested x) {k : Nat}
    (own' : 8 * k < s.requested y) : (s.setWord x index value).word y k
      = if y = x ∧ k = index then value else s.word y k := by
  obtain ⟨i, a, here, -, inside, holder, chunk⟩ := sound.live_cases live
  obtain ⟨j, b, here', -, inside', holder', chunk'⟩ := sound.live_cases live'
  rw [region_contains] at inside inside'
  have word : (s.setWord x index value).word y k = _ := word_setWords holder here holder' k
  by_cases target : y = x ∧ k = index
  · obtain ⟨rfl, rfl⟩ := target
    cases holder.symm.trans holder'
    rw [word, if_pos ⟨rfl, Nat.le_refl _, Nat.lt_succ_self _⟩, if_pos ⟨rfl, rfl⟩]
  · rw [word, if_neg target]
    apply if_neg
    rintro ⟨rfl, reach, short⟩
    cases here.symm.trans here'
    by_cases same : y = x
    · subst same
      exact target ⟨rfl, by omega⟩
    · have laid := (sound.fits a (mem_arenas_of_getElem here)).laid
      rw [requested_eq holder here] at own
      rw [requested_eq holder' here] at own'
      have different : x - a.space.base ≠ y - a.space.base := by
        simp only [Space.base]
        omega
      have apart := laid.words_apart chunk chunk' different (laid.own_word chunk own)
        (laid.own_word chunk' own')
      omega

/-- What a program sees after one word of a live object was written. -/
theorem Sound.payload_setWord (sound : s.Sound) (live : s.isPublished x = true)
    (live' : s.isPublished y = true) (own : index < s.requested x / 8) :
    (s.setWord x index value).payload y
      = if y = x then (s.payload x).set index value else s.payload y := by
  have bytes : (s.setWord x index value).requested y = s.requested y :=
    requested_setWords s x index 1 value y
  have word : ∀ k, k < s.requested y / 8 → (s.setWord x index value).word y k
      = if y = x ∧ k = index then value else s.word y k := fun k inner =>
    sound.word_setWord live live' (by omega) (by omega)
  by_cases same : y = x
  · subst same
    rw [if_pos rfl, payload, bytes]
    simp only [payload, Payload.set, Payload.mk.injEq, true_and]
    funext k
    by_cases target : k = index
    · subst target
      rw [if_pos own, if_pos rfl, word k own, if_pos ⟨rfl, rfl⟩]
    · rw [if_neg target]
      by_cases inner : k < s.requested y / 8
      · rw [if_pos inner, if_pos inner, word k inner, if_neg fun both => target both.2]
      · rw [if_neg inner, if_neg inner]
  · rw [if_neg same, payload, bytes]
    simp only [payload, Payload.mk.injEq, true_and]
    funext k
    by_cases inner : k < s.requested y / 8
    · rw [if_pos inner, if_pos inner, word k inner, if_neg fun both => same both.1]
    · rw [if_neg inner, if_neg inner]

/-- Writing to the memory leaves the arenas as they are. -/
theorem Sound.steady_setWords (sound : s.Sound) (x index count value : Nat) :
    Steady s (s.setWords x index count value) := by
  rcases s.setWords_cases x index count value with same | ⟨i, same⟩
  · rw [same]
    exact sound.steady
  · rw [same]
    refine sound.steady_modifyArena (fun _ => rfl) (fun _ => rfl) (fun a member => ?_) fun _ _ => id
    exact (sound.fits a member).laid.congr rfl rfl rfl rfl rfl rfl

end Source

end ManagedHeap
