import ManagedHeap.Proofs.Ledgers
import Mathlib.Algebra.Order.BigOperators.Group.List

/-!
That the records of the arenas agree. Every step enters an object into the ledger of the active
arena, takes one out of one ledger, or leaves all ledgers alone, and from exact ledgers the records
of lengths, the bitmaps and both counts can be read off.
-/

namespace ManagedHeap

namespace Source

open Action

/-- What an arena records. -/
def ledger (s : Source) (a : Arena) : Ledger where
  region := a.space.region
  recorded := a.space.recorded?
  bytes := a.bytes
  objects := a.objects
  members := (s.bitmap a.live).members

def ledgers (s : Source) : List Ledger := s.arenas.map s.ledger

/-- Every ledger is exact, and all that was ever allocated in the active arena lives or was freed. -/
structure Tallied (s : Source) : Prop where
  exact : ∀ a ∈ s.arenas, (s.ledger a).Exact
  full : (s.ledger s.active).Full

variable {s s' : Source} {a b : Arena} {m x n i j number : Nat} {result : Option Nat}

theorem Tallied.congr (tallied : s.Tallied) {fresh : List Ledger} (blank : ∀ l ∈ fresh, l.Blank)
    (ledgers : s'.ledgers = fresh ++ s.ledgers) : s'.Tallied := by
  have each : ∀ l ∈ s'.ledgers, l.Exact := by
    intro l member
    rw [ledgers] at member
    rcases List.mem_append.1 member with new | old
    · exact (blank l new).exact
    · obtain ⟨a, here, rfl⟩ := List.mem_map.1 old
      exact tallied.exact a here
  refine ⟨fun a member => each _ (List.mem_map_of_mem member), ?_⟩
  cases fresh with
  | nil =>
    have same : s'.ledger s'.active = s.ledger s.active := (List.cons.inj ledgers).1
    exact same ▸ tallied.full
  | cons first rest =>
    have same : s'.ledger s'.active = first := (List.cons.inj ledgers).1
    exact same ▸ (blank first List.mem_cons_self).full

theorem Tallied.of_eq (tallied : s.Tallied) (same : s'.ledgers = s.ledgers) : s'.Tallied := by
  have none : ∀ l ∈ ([] : List Ledger), l.Blank := fun _ none => absurd none List.not_mem_nil
  exact tallied.congr none same

/-- The objects that live are those in the ledgers. -/
theorem Sound.published_iff_members (sound : s.Sound) :
    s.isPublished x = true ↔ ∃ l ∈ s.ledgers, x ∈ l.members := by
  rw [sound.published_iff]
  constructor
  · rintro ⟨a, member, bit⟩
    exact ⟨s.ledger a, List.mem_map_of_mem member, (sound.bitmap_sound member).mem_members.2 bit⟩
  · rintro ⟨l, here, member⟩
    obtain ⟨a, known, rfl⟩ := List.mem_map.1 here
    exact ⟨a, known, (sound.bitmap_sound known).mem_members.1 member⟩

theorem Tallied.bytes_le (tallied : s.Tallied) (sound : s.Sound) (member : a ∈ s.arenas) :
    a.bytes ≤ a.space.top := by
  have exact := tallied.exact a member
  have laid := (sound.fits a member).laid
  let offsets := (s.ledger a).members.map (· - a.space.base)
  have nodup : offsets.Nodup := by
    refine exact.nodup.map_on fun y here z there same => ?_
    have low := (exact.starts y here).1
    have low' := (exact.starts z there).1
    change a.space.base ≤ y at low
    change a.space.base ≤ z at low'
    omega
  have chunks : ∀ offset ∈ offsets, offset ∈ a.space.chunks := by
    intro offset here
    obtain ⟨y, known, rfl⟩ := List.mem_map.1 here
    exact Space.mem_chunks_iff.2 (exact.starts y known).2
  calc a.bytes = Word.total ((s.ledger a).members.map (s.ledger a).charge) := exact.bytes
    _ ≤ Word.total ((s.ledger a).members.map fun y => a.space.extent (y - a.space.base)) :=
      List.sum_le_sum fun y _ => Nat.le_max_left _ _
    _ = Word.total (offsets.map a.space.extent) := by rw [List.map_map]; rfl
    _ ≤ a.space.top := laid.total_le nodup chunks

/-! ### Steps that leave the ledgers alone -/

theorem ledger_congr (bitmaps : s'.bitmaps = s.bitmaps) : s'.ledger = s.ledger := by
  funext a
  rw [ledger, ledger, bitmap, bitmap, bitmaps]

theorem ledgers_of_map (bitmaps : s'.bitmaps = s.bitmaps)
    (arenas : s'.arenas.map s.ledger = s.arenas.map s.ledger) : s'.ledgers = s.ledgers := by
  rw [ledgers, ledger_congr bitmaps, arenas]
  rfl

theorem Resized.ledgers (resized : Resized s s') : s'.ledgers = s.ledgers := by
  obtain ⟨allowed, active⟩ := resized.active
  refine ledgers_of_map resized.bitmaps ?_
  rw [arenas, arenas, active, resized.frozen]
  rfl

theorem ledgers_setGeneration (s : Source) (x generation : Nat) :
    (s.setGeneration x generation).ledgers = s.ledgers := by
  have same : (s.setGeneration x generation).arenas.map s.ledger = s.arenas.map s.ledger :=
    map_setGeneration s.ledger (fun a chunks recorded => by rw [ledger, recorded]; rfl) s x generation
  obtain ⟨active, frozen, frame⟩ := s.setGeneration_frame x generation
  rw [frame] at same ⊢
  exact ledgers_of_map rfl same

theorem ledgers_setWords (s : Source) (x index count value : Nat) :
    (s.setWords x index count value).ledgers = s.ledgers :=
  ledgers_of_map (s.bitmaps_setWords x index count value)
    (map_setWords s.ledger (fun _ _ => rfl) s x index count value)

/-- Bitmaps that nobody has yet may be added. -/
theorem Sound.ledgers_append (sound : s.Sound) {extra : List Bitmap}
    (bitmaps : s'.bitmaps = s.bitmaps ++ extra) : s.arenas.map s'.ledger = s.ledgers := by
  refine List.map_congr_left fun a member => ?_
  have known : a.live < s.bitmaps.length := sound.numbered _ (mem_sites member)
  simp only [ledger, bitmap, bitmaps, List.getD_eq_getElem?_getD, List.getElem?_append_left known]

theorem Sound.ledgers_snapshot (sound : s.Sound) : s.snapshotBitmaps.2.ledgers = s.ledgers := by
  obtain ⟨extra, same⟩ := s.snapshotBitmaps_frame
  have bitmaps : s.snapshotBitmaps.2.bitmaps = s.bitmaps ++ extra := by rw [same]
  have arenas : s.snapshotBitmaps.2.arenas = s.arenas := by
    rw [same]
    rfl
  rw [ledgers, arenas]
  exact sound.ledgers_append bitmaps

theorem ledgers_replaceCurrent (s : Source) (numbers : List Nat) :
    (s.replaceCurrent numbers).ledgers = s.ledgers := by
  have same : (s.replaceCurrent numbers).arenas.map s.ledger = s.arenas.map s.ledger :=
    map_replaceCurrent s.ledger fun a number members => by simp only [ledger, members]
  obtain ⟨active, frozen, published, frame⟩ := s.replaceCurrent_frame numbers
  rw [frame] at same ⊢
  exact ledgers_of_map rfl same

/-- Nothing was entered into a ledger or taken out. New ones may stand in front of the others. -/
def Undisturbed (s s' : Source) : Prop :=
  ∃ fresh : List Ledger, (∀ l ∈ fresh, l.Blank) ∧ s'.ledgers = fresh ++ s.ledgers

theorem undisturbed_of_eq (same : s'.ledgers = s.ledgers) : Undisturbed s s' :=
  ⟨[], fun _ none => absurd none List.not_mem_nil, same⟩

theorem Undisturbed.trans {s'' : Source} (first : Undisturbed s s') (second : Undisturbed s' s'') :
    Undisturbed s s'' := by
  obtain ⟨fresh, blank, ledgers⟩ := first
  obtain ⟨fresh', blank', ledgers'⟩ := second
  refine ⟨fresh' ++ fresh, fun l member => ?_, ?_⟩
  · rcases List.mem_append.1 member with here | here
    · exact blank' l here
    · exact blank l here
  · rw [ledgers', ledgers, List.append_assoc]

theorem Undisturbed.published (undisturbed : Undisturbed s s') (sound : s.Sound)
    (sound' : s'.Sound) (x : Nat) : s'.isPublished x = s.isPublished x := by
  obtain ⟨fresh, blank, ledgers⟩ := undisturbed
  rw [Bool.eq_iff_iff, sound'.published_iff_members, sound.published_iff_members, ledgers]
  constructor
  · rintro ⟨l, here, member⟩
    rcases List.mem_append.1 here with new | old
    · rw [(blank l new).members] at member
      exact absurd member List.not_mem_nil
    · exact ⟨l, old, member⟩
  · rintro ⟨l, here, member⟩
    exact ⟨l, List.mem_append_right _ here, member⟩

/-- The growth is under control, and no ledger was disturbed since. -/
def Calm (m : Nat) (s s' : Source) : Prop := s'.Governed m ∧ Undisturbed s s'

theorem calm_of_ends {α : Type} {action : Action Source α}
    (preserves : action.Preserves (Governed m))
    (ends : ∀ s, s.Sound → action.Ends s (fun _ s' => Undisturbed s s')
      fun _ s' => Undisturbed s s') (s : Source) : action.Preserves (Calm m s) :=
  preserves.since Undisturbed Undisturbed.trans (fun s governed => ends s governed.sound) s

theorem calm_of_resizes {α : Type} {action : Action Source α}
    (preserves : action.Preserves (Governed m)) (resizes : Resizes action) (s : Source) :
    action.Preserves (Calm m s) := by
  refine calm_of_ends preserves (fun s _ => (resizes s).imp ?_ ?_) s
  · exact fun _ _ resized => undisturbed_of_eq resized.ledgers
  · exact fun _ _ resized => undisturbed_of_eq resized.ledgers

theorem calm_of_modify {change : Source → Source}
    (preserves : Preserves (Governed m) (modify change))
    (ledgers : ∀ s, s.Sound → (change s).ledgers = s.ledgers) (s : Source) :
    Preserves (Calm m s) (modify change) :=
  calm_of_ends preserves (fun s sound => ends_modify.2 (undisturbed_of_eq (ledgers s sound))) s

theorem trim_calm (s : Source) : trim.Preserves (Calm m s) := by
  refine calm_of_ends preserves_trim (fun s sound => ?_) s
  refine (trim_paces sound).imp ?_ ?_
  · rintro _ s' ⟨active, frozen, rfl, cut⟩
    refine undisturbed_of_eq (ledgers_of_map rfl (map_eq_of_forall₂ _ _ ?_ cut))
    rintro a _ ⟨-, footprint, words, rfl⟩
    rfl
  · rintro _ s' rfl
    exact undisturbed_of_eq rfl

theorem shrinkToIdeal_calm (s : Source) : shrinkToIdeal.Preserves (Calm m s) :=
  (trim_calm s).then fun _ => preserves_get fun s₁ calm =>
    ((calm_of_resizes (preserves_setIdeal s₁.ideal) (resizes_setIdeal _) s).then
      fun _ => preserves_pure _) s₁ calm

theorem blank_of_freshArena {start maximum live : Nat} {map : Bitmap}
    (run : freshArena number start maximum live = .ok (.ok (a, map)))
    (few : start < Size.unreservable) (newest : s.bitmap a.live = map) : (s.ledger a).Blank := by
  have fresh := fresh_of_freshArena run
  obtain ⟨space, create, rfl, rfl⟩ := freshArena_eq run
  obtain ⟨region, allowed, rfl, -, -, -⟩ := Space.create_frame create few
  refine ⟨fun offset => ?_, rfl, rfl, ?_⟩
  · change (∅ : Std.ExtTreeMap Nat Chunk)[offset]?.map Chunk.size = none
    rw [Std.ExtTreeMap.getElem?_empty, Option.map_none]
  · refine List.eq_nil_iff_forall_not_mem.2 fun y member => ?_
    rw [ledger, newest, fresh.whole.mem_members, fresh.empty] at member
    cases member

theorem SplitOff.undisturbed {map : Bitmap} {allowed : Nat} (split : s.SplitOff a map allowed s')
    (sound : s.Sound) : Undisturbed s s' := by
  have newest : s'.bitmap a.live = map := by rw [split.fresh.live, split.bitmap_newest]
  refine ⟨[s'.ledger a], fun l member => ?_, ?_⟩
  · rw [List.mem_singleton.1 member]
    exact blank_of_freshArena split.made (by decide) newest
  · rw [← sound.ledgers_append split.bitmaps, ledgers, split.pushed]
    rfl

theorem addArena_calm (s : Source) : addArena.Preserves (Calm m s) := fun _ calm =>
  ends_addArena calm calm fun split =>
    ⟨split.governed calm.1, calm.2.trans (split.undisturbed calm.1.sound)⟩

theorem beforeFork_calm (s : Source) : beforeFork.Preserves (Calm m s) := fun _ calm =>
  ends_beforeFork calm (addArena_calm s _ ⟨calm.1.tried, calm.2.trans (undisturbed_of_eq rfl)⟩)

theorem afterZygote_calm (s : Source) : afterZygote.Preserves (Calm m s) := fun _ calm =>
  ends_afterZygote calm (addArena_calm s _ calm)

/-! ### A change to one ledger -/

/-- No two arenas share a bitmap that covers anything. -/
theorem Sound.live_ne (sound : s.Sound) (here : s.arenas[i]? = some a)
    (covered : (s.bitmap a.live).mayContain x = true) (there : s.arenas[j]? = some b)
    (different : j ≠ i) : b.live ≠ a.live := by
  intro same
  have inside := ((sound.mayContain_iff (mem_arenas_of_getElem here)).1 covered).1
  have covered' : (s.bitmap b.live).mayContain x = true := same ▸ covered
  have inside' := ((sound.mayContain_iff (mem_arenas_of_getElem there)).1 covered').1
  exact different (sound.index_unique there here inside' inside)

theorem Sound.ledgers_set (sound : s.Sound) (here : s.arenas[i]? = some a)
    (covered : (s.bitmap a.live).mayContain x = true) {change : Arena → Arena}
    {set : Bitmap → Bitmap} (arenas : s'.arenas = s.arenas.modify i change)
    (bitmaps : s'.bitmaps = s.bitmaps.modify a.live set) :
    s'.ledgers = s.ledgers.set i (s'.ledger (change a)) := by
  have known : a.live < s.bitmaps.length :=
    sound.numbered _ (mem_sites (mem_arenas_of_getElem here))
  obtain ⟨bound, value⟩ := List.getElem?_eq_some_iff.1 here
  apply List.ext_getElem?
  intro j
  rw [ledgers, ledgers, List.getElem?_map, arenas, List.getElem?_modify, List.getElem?_set,
    List.length_map]
  by_cases same : i = j
  · subst same
    simp [bound, value]
  · rw [if_neg same, List.getElem?_map]
    cases there : s.arenas[j]? with
    | none => simp [same]
    | some b =>
      have other := sound.live_ne here covered there fun h => same h.symm
      have kept : s'.bitmap b.live = s.bitmap b.live := by
        rw [bitmap_of_modify known bitmaps, if_neg other]
      simp [same, ledger, kept]

/-! ### Allocating -/

/-- The arena was given an object, if there is one, and nothing else has changed. -/
def Entered (s : Source) (result : Option Nat) (s' : Source) : Prop :=
  match result with
  | none => s'.ledgers = s.ledgers
  | some x => ∃ length l', (s.ledger s.active).Enters x length l' ∧ s'.ledgers = s.ledgers.set 0 l'

theorem Entered.after {s'' : Source} (first : s'.ledgers = s.ledgers)
    (second : Entered s' result s'') : Entered s result s'' := by
  cases result with
  | none => exact Eq.trans second first
  | some x =>
    obtain ⟨length, l', enters, ledgers⟩ := second
    have same : s'.ledger s'.active = s.ledger s.active := (List.cons.inj first).1
    exact ⟨length, l', same ▸ enters, first ▸ ledgers⟩

theorem Entered.then {s'' : Source} (first : Entered s result s')
    (second : s''.ledgers = s'.ledgers) : Entered s result s'' := by
  cases result with
  | none => exact second.trans first
  | some x =>
    obtain ⟨length, l', enters, ledgers⟩ := first
    exact ⟨length, l', enters, second.trans ledgers⟩

/-- A chunk of fewer bytes than this is recorded with its whole length. -/
def recordable : Nat := Chunk.fieldLimit * Size.granule

theorem taken_le {offset taken : Nat} {space : Space}
    (carved : s.active.space.Carved offset taken space) : taken ≤ s.active.space.capacity := by
  have top := carved.laid.top_le
  have below := carved.below
  have footprint := carved.laid.footprint_le
  have capacity : space.capacity = s.active.space.capacity := congrArg Region.size carved.kept.1
  omega

/-- Room is made within the allowed footprint. -/
theorem within_of_carved {offset taken : Nat} {space : Space}
    (carved : s.active.space.Carved offset taken space)
    (within : s.active.space.footprint ≤ s.active.space.allowed) : space.footprint ≤ space.allowed := by
  obtain ⟨-, allowed, -⟩ := carved.kept
  have grown := carved.footprint
  omega

/-- An object that was just placed is counted with the length on the record of its chunk. Where that is
nothing, because all of the length is lost, it cannot be counted. -/
theorem Sound.countAllocation_ends (sound : s.Sound) (counted : s.active.bytes ≤ s.active.space.top)
    {offset taken needed : Nat} {space : Space} (carved : s.active.space.Carved offset taken space)
    (fits : Space.chunkSizeFor n = some needed) (enough : needed ≤ taken) :
    (countAllocation (s.active.space.base + offset)).Ends
      { s with active := { s.active with space := space.place offset taken n } }
      (fun _ s' => 0 < taken % recordable ∧ s' = s.entered (space.place offset taken n)
        (s.active.space.base + offset) (taken % recordable))
      fun cause s' => cause = .defect .overflow ∧ taken % recordable = 0
          ∧ s' = { s with active := { s.active with space := space.place offset taken n } }
        ∨ space.allowed < space.footprint ∧ 0 < taken % recordable
          ∧ s' = s.entered (space.place offset taken n) (s.active.space.base + offset)
            (taken % recordable) := by
  have fitting := sound.fits _ s.active_mem
  obtain ⟨region, allowed, records⟩ := carved.kept
  have inside := carved.contains fits enough
  have base : space.base = s.active.space.base := congrArg Region.base region
  have here : (space.place offset taken n).recorded? (s.active.space.base + offset
      - (space.place offset taken n).base) = some (taken % recordable) := by
    rw [Space.recorded_place_wraps carved.whole, if_pos]
    · rfl
    · exact (congrArg _ base).trans (Nat.add_sub_cancel_left _ _)
  obtain ⟨chunk, found, size⟩ := Option.map_eq_some_iff.1 here
  have measured := Space.usableSize_of_chunk ((Space.chunkAt_eq (region ▸ inside)).trans found)
  rw [size] at measured
  have whole : taken % recordable % Size.granule = 0 := by
    have whole := carved.whole
    simp only [recordable, Chunk.fieldLimit, Size.granule] at *
    omega
  have short : taken % recordable < recordable := Nat.mod_lt _ (by decide)
  simp only [countAllocation, ends_bind, ends_get]
  generalize taken % recordable = length at *
  rcases Nat.eq_zero_or_pos length with rfl | positive
  · rw [if_neg (by decide)] at measured
    rw [ends_lift, measured]
    refine ⟨?_, ?_⟩
    · rintro _ ⟨⟩
    · rintro _ ⟨⟩
      exact .inl ⟨rfl, rfl, rfl⟩
  have large : Size.chunkOverhead ≤ length := by
    simp only [Size.granule, Size.chunkOverhead] at *
    omega
  rw [if_pos large] at measured
  have bytes : Word.add s.active.bytes (length - Size.chunkOverhead + Size.chunkOverhead)
      = .ok (s.active.bytes + length) := by
    have within := Nat.le_trans fitting.laid.top_le fitting.laid.footprint_le
    have reserved : s.active.space.capacity < Size.unreservable :=
      sound.small _ (mem_sites s.active_mem)
    rw [Nat.sub_add_cancel large]
    refine Word.add_eq_ok.2 ⟨?_, rfl⟩
    simp only [recordable, Chunk.fieldLimit, Size.granule, Size.unreservable, Word.limit] at *
    omega
  rw [ends_lift_of_ok measured, Option.getD_some, ends_lift_of_ok bytes, ends_set, ends_require]
  exact ⟨fun _ => ⟨positive, rfl⟩,
    fun above => .inr ⟨Nat.not_le.1 (of_decide_eq_false above), positive, rfl⟩⟩

/-- An object that was just placed is counted with the whole length of its chunk. -/
theorem countAllocation_eq (governed : s.Governed m) (small : s.ceiling < recordable)
    (counted : s.active.bytes ≤ s.active.space.top) {offset taken : Nat} {space : Space}
    {needed : Nat} (carved : s.active.space.Carved offset taken space)
    (fits : Space.chunkSizeFor n = some needed) (enough : needed ≤ taken) :
    taken / Size.granule < Chunk.fieldLimit
      ∧ (countAllocation (s.active.space.base + offset)).Ends
        { s with active := { s.active with space := space.place offset taken n } }
        (fun _ s' => s' = s.entered (space.place offset taken n) (s.active.space.base + offset) taken)
        fun _ _ => False := by
  have short : taken < recordable := by
    have length := taken_le carved
    have budget := governed.sound.budget
    omega
  have large := Nat.le_trans (Space.chunkSizeFor_eq fits).2.1 enough
  refine ⟨?_, ?_⟩
  · simp only [recordable, Chunk.fieldLimit, Size.granule] at *
    omega
  · have ends := governed.sound.countAllocation_ends counted carved fits enough
    rw [Nat.mod_eq_of_lt short] at ends
    refine ends.imp (fun _ _ both => both.2) ?_
    rintro _ _ (⟨-, none, -⟩ | ⟨above, -⟩)
    · exact absurd none (Nat.ne_of_gt (Nat.lt_of_lt_of_le (by decide) large))
    · have within := within_of_carved carved (governed.capped _ s.active_mem).within
      exact absurd within (Nat.not_le_of_lt above)

theorem countAllocation_enters (governed : s.Governed m) (tallied : s.Tallied)
    (small : s.ceiling < recordable) {offset taken : Nat} {space : Space}
    {needed : Nat} (carved : s.active.space.Carved offset taken space)
    (fits : Space.chunkSizeFor n = some needed) (enough : needed ≤ taken) :
    (countAllocation (s.active.space.base + offset)).Ends
      { s with active := { s.active with space := space.place offset taken n } }
      (fun _ s' => Entered s (some (s.active.space.base + offset)) s') fun _ _ => False := by
  have sound := governed.sound
  have large := Nat.le_trans (Space.chunkSizeFor_eq fits).2.1 enough
  obtain ⟨region, allowed, records⟩ := carved.kept
  obtain ⟨-, fresh, inside, aligned, -⟩ :
      Steady s { s with active := { s.active with space := space.place offset taken n } } ∧ _ :=
    sound.placed (carved.placed fits enough) rfl rfl rfl rfl rfl
  have covered := (sound.mayContain_iff s.active_mem).2 ⟨inside, aligned⟩
  have start : s.active.space.base + offset - s.active.space.base = offset :=
    Nat.add_sub_cancel_left _ _
  obtain ⟨few, ends⟩ := countAllocation_eq governed small (tallied.bytes_le sound s.active_mem)
    carved fits enough
  have recorded : ∀ other, (space.place offset taken n).recorded? other
      = if other = offset then some taken else s.active.space.recorded? other :=
    fun other => records ▸ Space.recorded_place carved.whole few
  have absent : (s.bitmap s.active.live).test (s.active.space.base + offset) = false := by
    rw [sound.test_eq_isPublished (sound.mem_published.2 ⟨_, s.active_mem, rfl⟩) covered, fresh]
  refine ends.mono fun _ s' counted => ?_
  have known : s.active.live < s.bitmaps.length := sound.numbered _ (mem_sites s.active_mem)
  have bitmaps : s'.bitmaps
      = s.bitmaps.modify s.active.live (·.insert (s.active.space.base + offset)) := counted ▸ rfl
  have arenas : s'.arenas = s.arenas.modify 0 fun a => { a with
      space := space.place offset taken n
      bytes := a.bytes + taken
      objects := a.objects + 1 } := counted ▸ rfl
  have first : s.arenas[0]? = some s.active := rfl
  have ledgers := sound.ledgers_set first covered arenas bitmaps
  refine ⟨taken, _, ⟨?_, Nat.le_add_right _ _, large, ?_, ?_, rfl, rfl, ?_⟩, ledgers⟩
  · exact region
  · change s.active.space.recorded? (s.active.space.base + offset - s.active.space.base) = none
    have unrecorded := mt Space.mem_chunks_iff.2 (carved.placed fits enough).fresh
    rwa [start, ← Option.not_isSome_iff_eq_none]
  · intro other
    rw [show s.active.space.base + offset - (s.ledger s.active).region.base = offset from start]
    exact recorded other
  · change (s'.bitmap s.active.live).members.Perm _
    rw [bitmap_of_modify known bitmaps, if_pos rfl]
    exact (sound.bitmap_sound s.active_mem).members_insert covered absent

theorem alloc_enters (governed : s.Governed m) (tallied : s.Tallied)
    (small : s.ceiling < recordable) (n : Nat) :
    (alloc n).Ends s (fun result s' => Entered s result s') fun _ _ => False := by
  have laid := (governed.sound.fits _ s.active_mem).laid
  refine governed.sound.ends_alloc (fun _ => rfl) (fun _ => rfl) fun fits makes _ => ?_
  obtain ⟨carved, enough⟩ := makes.carved laid fits
  exact countAllocation_enters governed tallied small carved fits enough

/-- The state that an attempt to allocate has come to. -/
def Advanced (m : Nat) (s : Source) (result : Option Nat) (s' : Source) : Prop :=
  s'.Governed m ∧ Entered s result s'

theorem alloc_advances (governed : s.Governed m) (tallied : s.Tallied)
    (small : s.ceiling < recordable) (n : Nat) :
    (alloc n).Ends s (fun result s' => Advanced m s result s') fun _ _ => False :=
  ((preserves_alloc n s governed).and (alloc_enters governed tallied small n)).imp
    (fun _ _ both => both) fun _ _ both => both.2

theorem setIdeal_advances (governed : s'.Governed m) (entered : Entered s result s')
    (size : Nat) : (setIdeal size).Ends s' (fun _ s'' => Advanced m s result s'')
      fun _ _ => False := by
  have minimum := Nat.le_trans governed.least governed.most
  refine ((governed.toHoused.setIdeal_governed minimum size).and (resizes_setIdeal size s')).imp
    ?_ fun _ _ both => both.1
  exact fun _ _ both => ⟨both.1, entered.then both.2.ledgers⟩

theorem allocAndGrowArena_advances (governed : s.Governed m) (tallied : s.Tallied)
    (small : s.ceiling < recordable) (n : Nat) :
    (allocAndGrowArena n).Ends s (fun result s' => Advanced m s result s') fun _ _ => False := by
  refine governed.ends_allocAndGrowArena (fun _ => ⟨governed, rfl⟩) fun _ _ _ raised => ?_
  refine (alloc_enters raised (tallied.of_eq rfl) small n).mono ?_
  exact fun _ _ entered governed₁ => ⟨governed₁.pin.2, (entered.then rfl).after rfl⟩

theorem allocAndGrow_advances (governed : s.Governed m) (tallied : s.Tallied)
    (small : s.ceiling < recordable) (n : Nat) :
    (allocAndGrow n).Ends s (fun result s' => Advanced m s result s') fun _ _ => False := by
  have ceiling : ∀ {s' : Source}, s'.Governed m → s'.ceiling < recordable := by
    intro s' governed'
    rwa [ceiling_congr (governed'.maximum.trans governed.maximum.symm)]
  have after : ∀ {s₁ s₂ result}, s₁.ledgers = s.ledgers → Advanced m s₁ result s₂ →
      Advanced m s result s₂ := fun same both => ⟨both.1, both.2.after same⟩
  refine ends_lastResort (alloc_advances governed tallied small n) ?_ ?_ ?_ ?_ fun _ _ both => both
  · rintro s₁ ⟨governed₁, same⟩
    exact (alloc_advances governed₁ (tallied.of_eq same) (ceiling governed₁) n).mono
      fun _ _ both => after same both
  · rintro s₁ ⟨governed₁, same⟩
    exact (allocAndGrowArena_advances governed₁ (tallied.of_eq same) (ceiling governed₁) n).mono
      fun _ _ both => after same both
  · rintro result size s₁ ⟨governed₁, entered⟩
    exact setIdeal_advances governed₁ entered size
  · rintro s₁ ⟨governed₁, same⟩
    exact ⟨governed₁.unlimited, same⟩

/-! ### Freeing -/

theorem arenas_uncount (s : Source) (i x freed : Nat) : (s.uncount i x freed).arenas
    = s.arenas.modify i fun a => { a with bytes := a.bytes - freed, objects := a.objects - 1 } :=
  arenas_modifyArena s i _

/-- An object of so many bytes was taken out of the ledger of its arena. The active arena keeps no
record of it. -/
def Removed (s : Source) (x freed : Nat) (s' : Source) : Prop :=
  ∃ i a l', s.arenas[i]? = some a ∧ (s.bitmap a.live).test x = true ∧ freed = (s.ledger a).charge x
    ∧ (s.ledger a).Leaves x l' ∧ s'.ledgers = s.ledgers.set i l'
    ∧ (i = 0 → l'.recorded (x - a.space.base) = none)

/-- What is free to use in an object's chunk, and what freeing the object takes off the bytes. -/
theorem Tallied.usableSize (tallied : s.Tallied) (sound : s.Sound) (here : a ∈ s.arenas)
    (live : (s.bitmap a.live).test x = true) : ∃ usable, a.space.usableSize? x = .ok (some usable)
      ∧ usable + Size.chunkOverhead = (s.ledger a).charge x := by
  have exact := tallied.exact a here
  have inside := ((sound.mayContain_iff here).1 (Bitmap.mayContain_of_test live)).1
  have started := (exact.starts x ((sound.bitmap_sound here).mem_members.2 live)).2
  obtain ⟨length, recorded⟩ := Option.isSome_iff_exists.1 started
  have large := exact.large _ _ recorded
  refine ⟨_, Space.usableSize_eq inside recorded large, ?_⟩
  rw [Ledger.charge, recorded, Option.getD_some, Nat.sub_add_cancel (Nat.le_trans (by decide) large)]

theorem Sound.leaves_of_erase (sound : s.Sound) (here : s.arenas[i]? = some a)
    (live : (s.bitmap a.live).test x = true) {space : Space} {change : Arena → Arena}
    (region : space.region = a.space.region)
    (others : ∀ offset, offset ≠ x - a.space.base →
      space.recorded? offset = a.space.recorded? offset)
    (own : space.recorded? (x - a.space.base) = a.space.recorded? (x - a.space.base)
      ∨ space.recorded? (x - a.space.base) = none)
    (changed : change a = { a with
      space, bytes := a.bytes - (s.ledger a).charge x, objects := a.objects - 1 })
    (arenas : s'.arenas = s.arenas.modify i change)
    (bitmaps : s'.bitmaps = s.bitmaps.modify a.live (·.erase x)) :
    ∃ l', (s.ledger a).Leaves x l' ∧ s'.ledgers = s.ledgers.set i l'
      ∧ l'.recorded = space.recorded? := by
  have member := mem_arenas_of_getElem here
  have covered := Bitmap.mayContain_of_test live
  have known : a.live < s.bitmaps.length := sound.numbered _ (mem_sites member)
  have ledgers := sound.ledgers_set here covered arenas bitmaps
  rw [changed] at ledgers
  refine ⟨_, ⟨?_, ?_, ?_, ?_, ?_, ?_⟩, ledgers, rfl⟩
  · exact region
  · exact others
  · exact own
  · rfl
  · rfl
  · change (s.bitmap a.live).members.Perm (x :: (s'.bitmap a.live).members)
    rw [bitmap_of_modify known bitmaps, if_pos rfl]
    exact (sound.bitmap_sound member).members_erase live

theorem releaseChunk_eq {length : Nat} {space : Space}
    (release : s.active.space.release? x = some (length, space)) :
    s.releaseChunk x = { s with active := { s.active with space } } := by
  rw [releaseChunk, release]

theorem free_removes (sound : s.Sound) (tallied : s.Tallied) (live : s.isPublished x = true) :
    (free x).Ends s (fun freed s' => Removed s x freed s') fun _ _ => False := by
  obtain ⟨a, member, bit⟩ := sound.published_iff.1 live
  obtain ⟨i, here⟩ := List.getElem?_of_mem member
  have covered := Bitmap.mayContain_of_test bit
  obtain ⟨usable, measured, charge⟩ := tallied.usableSize sound member bit
  simp only [free, ends_bind, ends_get, sound.arenaIndex_eq here covered, getD_arenas here]
  rw [ends_lift_of_ok measured, Option.getD_some, charge, ends_set, ends_pure]
  obtain ⟨bitmaps, -⟩ := uncount_eq here x ((s.ledger a).charge x)
  have arenas := arenas_uncount s i x ((s.ledger a).charge x)
  split
  case isFalse frozen =>
    obtain ⟨l', leaves, ledgers, -⟩ := sound.leaves_of_erase here bit rfl
      (fun _ _ => rfl) (.inl rfl) rfl arenas bitmaps
    exact ⟨i, a, l', here, bit, rfl, leaves, ledgers, fun first => absurd first frozen⟩
  case isTrue first =>
    subst first
    cases here
    have inside := ((sound.mayContain_iff member).1 covered).1
    have started := ((tallied.exact _ member).starts x
      ((sound.bitmap_sound member).mem_members.2 bit)).2
    obtain ⟨length, space, release⟩ := Space.release_total inside started
    obtain ⟨region, recorded⟩ := Space.release_recorded (sound.fits _ member).laid measured release
    rw [releaseChunk_eq (show (s.uncount 0 x _).active.space.release? x = _ from release)]
    generalize freed : ({ s.uncount 0 x _ with active := _ } : Source) = s'
    have arenas : s'.arenas = s.arenas.modify 0 fun a => { a with
        space
        bytes := a.bytes - (s.ledger s.active).charge x
        objects := a.objects - 1 } := freed ▸ rfl
    have bitmaps' : s'.bitmaps = s.bitmaps.modify s.active.live (·.erase x) := freed ▸ rfl
    have first : s.arenas[0]? = some s.active := rfl
    obtain ⟨l', leaves, ledgers, own⟩ := sound.leaves_of_erase first bit region
      (fun offset other => (recorded offset).trans (if_neg other))
      (.inr ((recorded _).trans (if_pos rfl))) rfl arenas bitmaps'
    exact ⟨0, s.active, l', first, bit, rfl, leaves, ledgers,
      fun _ => own ▸ (recorded _).trans (if_pos rfl)⟩

/-! ### Ledgers after a change to one of them -/

theorem Tallied.set (tallied : s.Tallied) {l' : Ledger} (ledgers : s'.ledgers = s.ledgers.set i l')
    (exact : l'.Exact) (full : i = 0 → l'.Full) : s'.Tallied := by
  refine ⟨fun a member => ?_, ?_⟩
  · have here : s'.ledger a ∈ s'.ledgers := List.mem_map_of_mem member
    rw [ledgers] at here
    rcases List.mem_or_eq_of_mem_set here with old | same
    · obtain ⟨b, known, equal⟩ := List.mem_map.1 old
      exact equal ▸ tallied.exact b known
    · exact same ▸ exact
  · cases i with
    | zero =>
      have first : s'.ledger s'.active = l' := (List.cons.inj ledgers).1
      exact first ▸ full rfl
    | succ =>
      have first : s'.ledger s'.active = s.ledger s.active := (List.cons.inj ledgers).1
      exact first ▸ tallied.full

theorem Tallied.entered (tallied : s.Tallied) (entered : Entered s result s') : s'.Tallied := by
  cases result with
  | none => exact tallied.of_eq entered
  | some x =>
    obtain ⟨length, l', enters, ledgers⟩ := entered
    exact tallied.set ledgers (enters.exact (tallied.exact _ s.active_mem))
      fun _ => enters.full tallied.full

theorem Tallied.removed {freed : Nat} (tallied : s.Tallied) (removed : Removed s x freed s') :
    s'.Tallied := by
  obtain ⟨i, a, l', here, -, -, leaves, ledgers, own⟩ := removed
  refine tallied.set ledgers (leaves.exact (tallied.exact a (mem_arenas_of_getElem here))) ?_
  rintro rfl
  cases here
  exact leaves.full tallied.full (own rfl)

theorem Entered.published (entered : Entered s (some x) s') (sound : s.Sound) (sound' : s'.Sound)
    {y : Nat} : s'.isPublished y = true ↔ y = x ∨ s.isPublished y = true := by
  obtain ⟨length, l', enters, ledgers⟩ := entered
  have ledgers' : s'.ledgers = l' :: s.frozen.map s.ledger := ledgers
  rw [sound'.published_iff_members, sound.published_iff_members, ledgers']
  simp only [Source.ledgers, arenas, List.map_cons, List.mem_cons, exists_eq_or_imp,
    enters.members.mem_iff, or_assoc]

end Source

end ManagedHeap
