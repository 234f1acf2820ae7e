import ManagedHeap.Proofs.Apportioning
import ManagedHeap.Proofs.Conservation
import ManagedHeap.Proofs.Contents

/-!
What comes with a new object: a chunk that is as long as asked for, that reads as zero and that lies apart
from the chunk of every other object. It does not matter how far the arena had to grow for it.
-/

namespace ManagedHeap

namespace Space

variable {s s' : Space} {x n offset taken needed : Nat}

/-- The chunk at an address is as long as asked for, and what may be used of it reads as zero. -/
def Blank (s : Space) (x n : Nat) : Prop :=
  ∃ usable, s.usableSize? x = .ok (some usable) ∧ n ≤ usable ∧ ∀ k < usable / 8, s.readWord x k = 0

theorem Blank.contains (blank : s.Blank x n) : s.region.contains x = true := by
  obtain ⟨usable, measured, -⟩ := blank
  by_contra outside
  rw [usableSize?, chunkAt?, offsetOf?, if_neg outside] at measured
  cases measured

theorem Carved.blank (carved : Carved s offset taken s') (fits : chunkSizeFor n = some needed)
    (enough : needed ≤ taken) (few : s.capacity < Chunk.fieldLimit * Size.granule) :
    (s'.place offset taken n).Blank (s.base + offset) n := by
  obtain ⟨-, large, covers⟩ := chunkSizeFor_eq fits
  obtain ⟨region, -, -⟩ := carved.kept
  have base : (s'.place offset taken n).base = s.base := congrArg Region.base region
  have own : s.base + offset - (s'.place offset taken n).base = offset := by
    rw [base, Nat.add_sub_cancel_left]
  have inside : (s'.place offset taken n).region.contains (s.base + offset) = true :=
    (congrArg (Region.contains · _) region).trans (carved.contains fits enough)
  have recorded : (s'.place offset taken n).recorded? (s.base + offset - (s'.place offset taken n).base)
      = some taken := by
    rw [own, recorded_place carved.whole (carved.short few), if_pos rfl]
  refine ⟨taken - Size.chunkOverhead, usableSize_eq inside recorded (Nat.le_trans large enough), by omega,
    fun k within => ?_⟩
  rw [readWord, own]
  change (s'.words.fill (offset / 8) ((taken - Size.chunkOverhead) / 8) 0).read (offset / 8 + k) = 0
  rw [Cells.read_fill]
  exact if_pos ⟨by omega, by omega⟩

end Space

namespace Source

open Action

variable {s s' : Source} {a : Arena} {i n x y : Nat}

theorem alloc_blank (sound : s.Sound) (few : s.ceiling < recordable) (n : Nat) : (alloc n).Ends s
    (fun result s' => ∀ x, result = some x → s'.active.space.Blank x n) fun _ _ => True := by
  have small : s.active.space.capacity < Chunk.fieldLimit * Size.granule :=
    Nat.lt_of_le_of_lt (Nat.le_trans (Nat.le_add_left _ _) sound.budget) few
  refine ends_alloc_carved (sound.fits _ s.active_mem).laid ?_ ?_ fun _ => trivial
  · rintro x ⟨⟩
  · intro offset taken needed room carved fits enough
    refine ⟨trivial, ?_⟩
    rintro length x ⟨⟩
    exact carved.blank fits enough small

/-- An object was allocated. -/
structure Issues (s : Source) (n x : Nat) (s' : Source) : Prop extends Gains s x s' where
  intact : s.Intact s'
  blank : s'.active.space.Blank x n

theorem alloc_issues (sound : s.Sound) (some_room : 0 < s.absoluteMax) (few : s.ceiling < recordable)
    (n : Nat) : (alloc n).Ends s (fun result s' => ∀ x, result = some x → Issues s n x s')
      fun _ _ => True := by
  refine (((alloc_spec sound some_room n).and (alloc_intact sound n)).and
    (alloc_blank sound few n)).imp ?_ fun _ _ _ => trivial
  rintro _ s' ⟨⟨gains, intact⟩, blank⟩ x rfl
  exact ⟨gains, intact, blank x rfl⟩

theorem allocAndGrow_issues (sound : s.Sound) (some_room : 0 < s.absoluteMax)
    (few : s.ceiling < recordable) (n : Nat) : (allocAndGrow n).Ends s
      (fun result s' => ∀ x, result = some x → Issues s n x s') fun _ _ => True := by
  refine allocAndGrow_of_alloc (fun s₁ before => ?_) fun _ _ _ => trivial
  have steady := sound.steady_of_resized before
  have few₁ : s₁.ceiling < recordable := by rwa [ceiling_congr steady.maximum]
  refine (alloc_issues steady.sound (steady.maximum ▸ some_room) few₁ n).mono
    fun result s₂ issues s' after x found => ?_
  have issues := issues x found
  have steady' := issues.sound.steady_of_resized after
  refine ⟨steady.gains (issues.toGains.steady steady'),
    (before.intact.trans issues.intact).trans after.intact, ?_⟩
  obtain ⟨allowed, active⟩ := after.active
  rw [active]
  exact issues.blank

/-- The new object as its holder finds it. -/
theorem Issues.found (issues : Issues s n x s') : ∃ usable, s'.chunkSize x = .ok usable ∧ n ≤ usable
    ∧ ∀ k < usable / 8, s'.word x k = 0 := by
  have sound := issues.sound
  have live : s'.isPublished x = true := (issues.published x).2 (.inl rfl)
  obtain ⟨i, a, here, bit, inside, holder, -⟩ := sound.live_cases live
  have first : s'.arenas[0]? = some s'.active := rfl
  cases sound.index_unique here first inside issues.blank.contains
  cases here.symm.trans first
  obtain ⟨usable, measured, enough, zero⟩ := issues.blank
  refine ⟨usable, ?_, enough, fun k within => (word_eq holder first k).trans (zero k within)⟩
  simp only [chunkSize, sound.arenaOf_eq s'.active_mem (Bitmap.mayContain_of_test bit), measured, bind,
    Except.bind, pure, Except.pure, Option.getD_some]

/-- What an object accounts for lies in its chunk. -/
theorem Sound.charge_le (sound : s.Sound) (member : a ∈ s.arenas)
    (bit : (s.bitmap a.live).test x = true) : s.charge x ≤ a.space.extent (x - a.space.base) := by
  have covered := Bitmap.mayContain_of_test bit
  have inside := ((sound.mayContain_iff member).1 covered).1
  have fits := sound.fits a member
  have chunk := Space.piece_chunk (fits.chunk x bit)
  have positive := fits.laid.positive _ _ _ chunk
  have whole := (fits.laid.aligned _ _ _ chunk).2
  have recorded := Space.extent_eq a.space (x - a.space.base)
  simp only [charge, chunkSize, sound.arenaOf_eq member covered, Space.usableSize?,
    Space.chunkAt_eq inside]
  obtain ⟨record, found⟩ := Option.isSome_iff_exists.1
    (Std.ExtTreeMap.mem_iff_isSome_getElem?.1 (fits.chunk x bit))
  rw [found, Option.map_some, Option.getD_some] at recorded
  simp only [found, Chunk.usable]
  cases usable : Word.sub record.size Size.chunkOverhead with
  | error =>
    simp only [bind, Except.bind, Except.toOption, Option.getD_none]
    simp only [Size.granule, Size.chunkOverhead] at *
    omega
  | ok bytes =>
    simp only [bind, Except.bind, pure, Except.pure, Except.toOption, Option.getD_some]
    have within := Word.sub_eq_ok.1 usable
    omega

/-- The chunks of two objects lie apart, in whatever arenas they are. -/
theorem Sound.chunks_apart (sound : s.Sound) (live : s.isPublished x = true)
    (live' : s.isPublished y = true) (other : x ≠ y) : x + s.charge x ≤ y ∨ y + s.charge y ≤ x := by
  obtain ⟨i, a, here, bit, inside, -, chunk⟩ := sound.live_cases live
  obtain ⟨j, b, there, bit', inside', -, chunk'⟩ := sound.live_cases live'
  have member := mem_arenas_of_getElem here
  have member' := mem_arenas_of_getElem there
  have within := sound.charge_le member bit
  have within' := sound.charge_le member' bit'
  have low := (region_contains.1 inside).1
  have low' := (region_contains.1 inside').1
  change a.space.base ≤ x at low
  change b.space.base ≤ y at low'
  by_cases same : i = j
  · subst same
    cases here.symm.trans there
    rcases (sound.fits a member).laid.apart _ _ _ _ _ _ (Space.piece_chunk chunk)
      (Space.piece_chunk chunk') with ⟨-, same⟩ | apart
    · omega
    · omega
  · have ends : ∀ {c : Arena} {z : Nat}, c ∈ s.arenas → z - c.space.base ∈ c.space.chunks →
        z - c.space.base + c.space.extent (z - c.space.base) ≤ c.space.region.size := fun known started =>
      Nat.le_trans ((sound.fits _ known).laid.below _ _ _ (Space.piece_chunk started))
        (Nat.le_trans (sound.fits _ known).laid.top_le (sound.fits _ known).laid.footprint_le)
    have first := ends member chunk
    have second := ends member' chunk'
    have apart := sound.regions_apart here there same
    simp only [Space.base, Region.limit] at *
    omega

end Source

end ManagedHeap
