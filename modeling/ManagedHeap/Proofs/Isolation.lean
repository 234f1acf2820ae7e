import ManagedHeap.Proofs.Contents
import ManagedHeap.Proofs.Tiling

/-!
What is read from chunks while others come and go around them. A word of a chunk changes only when its
holder writes it, and a chunk that is handed out holds zeros, whatever its memory was used for before.
-/

namespace ManagedHeap

namespace Space

variable {s s' s'' : Space} {offset size address index k n : Nat} {op : Operation}
  {result : Option Nat}

/-- A word of a chunk that its holder may use. -/
def Owns (s : Space) (offset k : Nat) : Prop :=
  offset ∈ s.chunks ∧ 8 * k + Size.chunkOverhead < s.extent offset

theorem Seamless.isUsable_iff (seamless : s.Seamless) : s.isUsable address index = true
    ↔ ∃ offset, address = s.base + offset ∧ s.Owns offset index := by
  obtain ⟨laid, woven, -, -⟩ := seamless
  have measured : ∀ {offset}, s.region.contains (s.base + offset) = true → offset ∈ s.chunks →
      (s.isUsable (s.base + offset) index = true
        ↔ 8 * index + Size.chunkOverhead < s.extent offset) := by
    intro offset inside chunk
    obtain ⟨size, recorded⟩ := Option.isSome_iff_exists.1 (mem_chunks_iff.1 chunk)
    have large := (laid.extent_large chunk).1
    have whole := (laid.aligned _ _ _ (piece_chunk chunk)).2
    rw [woven.exact offset size recorded] at large whole ⊢
    have place : s.base + offset - s.base = offset := Nat.add_sub_cancel_left ..
    rw [isUsable, usableSize_eq inside (place.symm ▸ recorded) large, decide_eq_true_eq]
    simp only [Size.granule, Size.chunkOverhead, Size.minChunk] at *
    omega
  constructor
  · intro usable
    have started : (s.chunkAt? address).isSome = true := by
      cases found : s.chunkAt? address with
      | some chunk => rfl
      | none => simp [isUsable, usableSize?, found, pure, Except.pure] at usable
    obtain ⟨inside, recorded⟩ := isSome_chunkAt.1 started
    have low : s.base ≤ address := by
      simp only [Region.contains, Bool.and_eq_true, decide_eq_true_eq] at inside
      exact inside.1
    obtain ⟨offset, rfl⟩ := Nat.exists_eq_add_of_le low
    rw [Nat.add_sub_cancel_left] at recorded
    have chunk := mem_chunks_iff.2 recorded
    exact ⟨offset, rfl, chunk, (measured inside chunk).1 usable⟩
  · rintro ⟨offset, rfl, chunk, own⟩
    have below := laid.offset_lt chunk
    have top := Nat.le_trans laid.top_le laid.footprint_le
    have inside : s.region.contains (s.base + offset) = true := by
      rw [Region.contains, Bool.and_eq_true, decide_eq_true_eq, decide_eq_true_eq]
      simp only [Region.limit, base, capacity, Size.minChunk] at *
      omega
    exact (measured inside chunk).2 own

theorem readWord_base (s : Space) (offset k : Nat) :
    s.readWord (s.base + offset) k = s.words.read (offset / 8 + k) := by
  rw [readWord, Nat.add_sub_cancel_left]

/-- Each chunk of a space was there before, and no shorter or longer. -/
structure Inherits (s s' : Space) : Prop where
  chunks : ∀ offset ∈ s'.chunks, offset ∈ s.chunks
  extent : ∀ offset ∈ s'.chunks, s'.extent offset = s.extent offset

theorem Inherits.owns (inherits : s.Inherits s') (owns : s'.Owns offset k) : s.Owns offset k :=
  ⟨inherits.chunks offset owns.1, inherits.extent offset owns.1 ▸ owns.2⟩

theorem inherits_of_eq (chunks : s'.chunks = s.chunks) (requests : s'.requests = s.requests) :
    s.Inherits s' where
  chunks offset chunk := chunks ▸ chunk
  extent offset _ := by rw [Space.extent, Space.extent, requestedAt, requestedAt, chunks, requests]

theorem inherits_of_recorded (recorded : ∀ offset, s'.recorded? offset = s.recorded? offset)
    (requests : s'.requests = s.requests) : s.Inherits s' where
  chunks offset chunk := by rwa [mem_chunks_iff, ← recorded, ← mem_chunks_iff]
  extent offset _ := by
    rw [extent_eq_recorded, recorded, extent_eq_recorded, requestedAt, requestedAt, requests]

theorem Seamless.release_inherits (seamless : s.Seamless) {length : Nat}
    (release : s.release? address = some (length, s')) :
    s.Inherits s' ∧ s'.words = s.words := by
  obtain ⟨_, recorded, -⟩ := release_eq release
  have positive := seamless.laid.positive true _ _ (seamless.woven.piece_iff.2 recorded)
  obtain ⟨freed, -, -, chunks, -, -, words, requests⟩ := release_spec seamless.laid positive release
  exact ⟨⟨fun offset chunk => ((mem_erase_chunk chunks).1 chunk).2, fun offset chunk =>
    extent_erase_chunk chunks requests ((mem_erase_chunk chunks).1 chunk).1⟩, words⟩

/-- An allocation that finds room hands out a chunk of zeros, and the other chunks were there before. -/
theorem Seamless.calloc_owns (seamless : s.Seamless) (few : s.capacity < Chunk.fieldLimit * Size.granule)
    (run : s.calloc n = .ok (result, s')) (owns : s'.Owns offset k) :
    (result = some (s.base + offset) ∧ s'.words.read (offset / 8 + k) = 0)
      ∨ (result ≠ some (s.base + offset) ∧ s.Owns offset k) := by
  have seamless' := seamless.calloc few run
  rcases calloc_cases seamless.laid run with
    ⟨rfl, rfl⟩ | ⟨place, taken, needed, s₁, rfl, -, -, carved, rfl⟩
  · exact .inr ⟨Option.some_ne_none _ |>.symm, owns⟩
  have whole := carved.whole
  have short := carved.short few
  obtain ⟨free, top, footprint, rfl⟩ := carved.frame
  obtain ⟨chunk, own⟩ := owns
  by_cases here : offset = place
  · subst here
    refine .inl ⟨rfl, ?_⟩
    have length := seamless'.woven.exact offset taken
      ((recorded_place whole short).trans (if_pos rfl))
    rw [length] at own
    rw [Space.place, Cells.read_fill, if_pos]
    simp only [Size.granule, Size.chunkOverhead] at *
    omega
  · refine .inr ⟨?_, (mem_place.1 chunk).resolve_left here, ?_⟩
    · intro same
      have equal : s.base + place = s.base + offset := Option.some.inj same
      omega
    · exact lt_of_lt_of_eq own (extent_place here)

/-- After a step, usable words are those of a chunk that was just handed out, and hold zero, or they were
usable before. -/
theorem Seamless.perform_owns (seamless : s.Seamless)
    (few : s.capacity < Chunk.fieldLimit * Size.granule)
    (run : s.perform op = .ok (result, s')) (owns : s'.Owns offset k) :
    (op.isWrite = false ∧ result = some (s.base + offset) ∧ s'.words.read (offset / 8 + k) = 0)
      ∨ (result ≠ some (s.base + offset) ∧ s.Owns offset k) := by
  have old : result = none → s.Inherits s' → (op.isWrite = false ∧ result = some (s.base + offset)
      ∧ s'.words.read (offset / 8 + k) = 0) ∨ (result ≠ some (s.base + offset) ∧ s.Owns offset k) := by
    rintro rfl inherits
    exact .inr ⟨(Option.some_ne_none _).symm, inherits.owns owns⟩
  cases op with
  | calloc n =>
    rcases seamless.calloc_owns few run owns with ⟨fresh, zero⟩ | before
    · exact .inl ⟨rfl, fresh, zero⟩
    · exact .inr before
  | release address =>
    obtain ⟨none, rfl | ⟨length, release⟩⟩ := perform_release run
    · exact old none (inherits_of_eq rfl rfl)
    · exact old none (seamless.release_inherits release).1
  | setAllowed bytes =>
    obtain ⟨none, cap⟩ := perform_setAllowed run
    obtain ⟨allowed, rfl⟩ := setAllowed_frame cap
    exact old none (inherits_of_eq rfl rfl)
  | trim pad =>
    obtain ⟨none, released, cut⟩ := perform_trim run
    obtain ⟨footprint, words, rfl⟩ := trim_frame cut
    exact old none (inherits_of_eq rfl rfl)
  | releaseFreePages =>
    obtain ⟨none, released, back⟩ := perform_releaseFreePages run
    obtain ⟨words, rfl⟩ := releaseFreePages_frame back
    exact old none (inherits_of_eq rfl rfl)
  | setGeneration address generation =>
    cases run
    obtain ⟨chunks, same, recorded⟩ := s.setGeneration_frame address generation
    exact old rfl (inherits_of_recorded recorded (same ▸ rfl))
  | write address index value =>
    cases run
    exact old rfl (inherits_of_eq rfl rfl)

/-- No step but a write changes a word that someone may use. -/
theorem Seamless.perform_words (seamless : s.Seamless)
    (few : s.capacity < Chunk.fieldLimit * Size.granule)
    (run : s.perform op = .ok (result, s')) (other : op.isWrite = false) (owns : s.Owns offset k) :
    s'.words.read (offset / 8 + k) = s.words.read (offset / 8 + k) := by
  have laid := seamless.laid
  have kept : s.Intact s' → s'.words.read (offset / 8 + k) = s.words.read (offset / 8 + k) :=
    fun intact => intact.words offset owns.1 k owns.2
  cases op with
  | calloc n => exact kept (calloc_intact laid run)
  | release address =>
    obtain ⟨-, rfl | ⟨length, release⟩⟩ := perform_release run
    · rfl
    · rw [(seamless.release_inherits release).2]
  | setAllowed bytes =>
    obtain ⟨allowed, rfl⟩ := setAllowed_frame (perform_setAllowed run).2
    rfl
  | trim pad =>
    obtain ⟨-, released, cut⟩ := perform_trim run
    exact kept (laid.intact_trim (laid.footprint_word few) cut)
  | releaseFreePages =>
    obtain ⟨-, released, back⟩ := perform_releaseFreePages run
    exact kept (laid.intact_releaseFreePages back)
  | setGeneration address generation =>
    cases run
    obtain ⟨chunks, same, -⟩ := s.setGeneration_frame address generation
    rw [same]
  | write => cases other

/-! ### What is remembered -/

/-- What a word is remembered to hold after a step: zero if its chunk was handed out, the value that was
written to it, or what it held before. -/
def remember (address index value : Nat) : Operation × Option Nat → Nat
  | (.calloc _, some start) => if start = address then 0 else value
  | (.write start at_ written, _) => if start = address ∧ at_ = index then written else value
  | _ => value

/-- The last value that was written to a word since its chunk was handed out, or zero if there is none. -/
def recalled (history : List (Operation × Option Nat)) (address index : Nat) : Nat :=
  history.foldl (remember address index) 0

variable {history : List (Operation × Option Nat)}

theorem recalled_concat (step : Operation × Option Nat) : recalled (history ++ [step]) address index
    = remember address index (recalled history address index) step := by
  rw [recalled, List.foldl_append]
  rfl

theorem remember_elsewhere {value : Nat} (other : op.isWrite = false) (elsewhere : result ≠ some address) :
    remember address index value (op, result) = value := by
  cases op with
  | calloc n =>
    cases result with
    | none => rfl
    | some start => exact if_neg fun same => elsewhere (congrArg some same)
  | write => cases other
  | release | setAllowed | trim | releaseFreePages | setGeneration => rfl

theorem remember_fresh {value : Nat} (run : s.perform op = .ok (some address, s')) :
    remember address index value (op, some address) = 0 := by
  cases op with
  | calloc n => exact if_pos rfl
  | release => cases (perform_release run).1
  | setAllowed => cases (perform_setAllowed run).1
  | trim => cases (perform_trim run).1
  | releaseFreePages => cases (perform_releaseFreePages run).1
  | setGeneration | write => cases run

/-- One step keeps what is read what is remembered. -/
theorem Seamless.reads_step (seamless : s.Seamless) (few : s.capacity < Chunk.fieldLimit * Size.granule)
    (reads : ∀ offset k, s.Owns offset k →
      s.readWord (s.base + offset) k = recalled history (s.base + offset) k)
    (lawful : op.isLawful s = true) (run : s.perform op = .ok (result, s'))
    (owns : s'.Owns offset k) : s'.readWord (s.base + offset) k
      = recalled (history ++ [(op, result)]) (s.base + offset) k := by
  have base : s'.base = s.base := congrArg Region.base (seamless.perform few run).2
  rw [recalled_concat, ← base, readWord_base, base]
  rcases seamless.perform_owns few run owns with ⟨-, rfl, zero⟩ | ⟨elsewhere, before⟩
  · rw [zero, remember_fresh run]
  have value := (readWord_base s offset k).symm.trans (reads offset k before)
  cases kind : op.isWrite with
  | false => rw [remember_elsewhere kind elsewhere, seamless.perform_words few run kind before, value]
  | true =>
    cases op with
    | write address index written =>
      obtain ⟨place, rfl, mine⟩ := seamless.isUsable_iff.1 lawful
      cases run
      have cell : offset / 8 + k = place / 8 + index ↔ s.base + place = s.base + offset ∧ index = k := by
        by_cases same : offset = place
        · subst same
          omega
        · have apart := seamless.laid.words_apart before.1 mine.1 same before.2 mine.2
          omega
      rw [writeWord, Nat.add_sub_cancel_left, Cells.read_write, value]
      simp only [cell, remember]
    | _ => cases kind

theorem Runs.reads (runs : s.Runs history s') (seamless : s.Seamless)
    (few : s.capacity < Chunk.fieldLimit * Size.granule)
    (blank : ∀ offset k, s.readWord (s.base + offset) k = 0) (owns : s'.Owns offset k) :
    s'.readWord (s'.base + offset) k = recalled history (s'.base + offset) k := by
  induction runs generalizing offset k with
  | nil => exact blank offset k
  | @step history s₁ s₂ result op runs lawful run ih =>
    obtain ⟨seamless₁, region₁⟩ := runs.seamless seamless few
    have few₁ : s₁.capacity < Chunk.fieldLimit * Size.granule := by
      rw [capacity, region₁]
      exact few
    have base : s₂.base = s₁.base := congrArg Region.base (seamless₁.perform few₁ run).2
    rw [base]
    exact seamless₁.reads_step few₁ (fun _ _ => ih) lawful run owns

/-- What is read of a chunk in use is what was last written to it since it was handed out, or zero if
nothing was. A chunk that is handed out next holds zeros, and no step but a write changes what the others
hold. -/
theorem reads_last_written {name : String} {base start capacity : Nat}
    (create : Space.create name base start capacity = .ok (.ok s))
    (few : s.capacity < Chunk.fieldLimit * Size.granule) (runs : s.Runs history s') :
    (∀ address index, s'.isUsable address index = true →
        s'.readWord address index = recalled history address index)
      ∧ (∀ op address s'', s'.perform op = .ok (some address, s'') →
        ∀ index, s''.isUsable address index = true → s''.readWord address index = 0)
      ∧ ∀ op result s'', op.isWrite = false → s'.perform op = .ok (result, s'') →
        ∀ address index, s'.isUsable address index = true →
          s''.readWord address index = s'.readWord address index := by
  have seamless := seamless_create create
  have blank : ∀ offset k, s.readWord (s.base + offset) k = 0 := by
    obtain ⟨region, allowed, rfl, -⟩ := create_bare create
    intro offset k
    rfl
  obtain ⟨seamless', region⟩ := runs.seamless seamless few
  have few' : s'.capacity < Chunk.fieldLimit * Size.granule := by
    rw [Space.capacity, region]
    exact few
  refine ⟨fun address index usable => ?_, fun op address s'' run index usable => ?_,
    fun op result s'' other run address index usable => ?_⟩
  · obtain ⟨offset, rfl, owns⟩ := seamless'.isUsable_iff.1 usable
    exact runs.reads seamless few blank owns
  · have base := congrArg Region.base (seamless'.perform few' run).2
    obtain ⟨offset, rfl, owns⟩ := (seamless'.perform few' run).1.isUsable_iff.1 usable
    rw [readWord_base]
    rcases seamless'.perform_owns few' run owns with ⟨-, -, zero⟩ | ⟨elsewhere, -⟩
    · exact zero
    · exact absurd (congrArg (fun b => some (b + offset)) base) elsewhere
  · have base : s''.base = s'.base := congrArg Region.base (seamless'.perform few' run).2
    obtain ⟨offset, rfl, owns⟩ := seamless'.isUsable_iff.1 usable
    rw [readWord_base, ← base, readWord_base]
    exact seamless'.perform_words few' run other owns

/-- The chunk was in use before, its word was written to twice, and what lies next to it came and went. -/
theorem reused_reads : (tight.runAll reused).2.isUsable (Region.arenaBase 0) 1 = true
    ∧ (tight.runAll reused).2.readWord (Region.arenaBase 0) 1 = 8
    ∧ (tight.runAll reused).2.readWord (Region.arenaBase 0) 0 = 0 := by
  have reads := (reads_last_written tight_created (by decide +kernel) (Runs.nil.runAll reused)).1
  have first := reads (Region.arenaBase 0) 0 (by decide +kernel)
  have second := reads (Region.arenaBase 0) 1 (by decide +kernel)
  exact ⟨by decide +kernel, second.trans (by decide +kernel), first.trans (by decide +kernel)⟩

end Space

end ManagedHeap
