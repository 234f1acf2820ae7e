import ManagedHeap.Proofs.Outlines
import ManagedHeap.Proofs.Placements

/-!
What the active arena counts at most. Its bytes are on the records of its chunks, also where a chunk is
longer than can be recorded and where addresses were freed at which nothing lived. So they never
exceed what lies below `top`, however large the heap is.
-/

namespace ManagedHeap

namespace Arena

variable {a a' : Arena}

/-- The length on the record of the chunk at an offset, 0 if there is none. -/
def recordedAt (a : Arena) (offset : Nat) : Nat := (a.space.recorded? offset).getD 0

/-- The bytes that the arena counts are on the records of these chunks. -/
structure ChargedTo (a : Arena) (offsets : List Nat) : Prop where
  nodup : offsets.Nodup
  chunks : ∀ offset ∈ offsets, offset ∈ a.space.chunks
  within : a.bytes ≤ Word.total (offsets.map a.recordedAt)

/-- The bytes that the arena counts are on the records of chunks. -/
def Charged (a : Arena) : Prop := ∃ offsets, a.ChargedTo offsets

theorem Charged.congr (charged : a.Charged) (same : a'.outline = a.outline) : a'.Charged := by
  simp only [outline, Prod.mk.injEq] at same
  obtain ⟨-, recorded, -, -, -, bytes⟩ := same
  obtain ⟨offsets, nodup, chunks, within⟩ := charged
  have lengths : a'.recordedAt = a.recordedAt := by
    funext x
    rw [recordedAt, recorded, recordedAt]
  refine ⟨offsets, nodup, fun x member => ?_, ?_⟩
  · rw [Space.mem_chunks_iff, recorded, ← Space.mem_chunks_iff]
    exact chunks x member
  · rw [bytes, lengths]
    exact within

theorem Charged.bytes_le (charged : a.Charged) (laid : a.space.Laid) : a.bytes ≤ a.space.top := by
  obtain ⟨offsets, nodup, chunks, within⟩ := charged
  have shorter : ∀ x ∈ offsets, a.recordedAt x ≤ a.space.extent x := by
    intro x _
    rw [Space.extent_eq_recorded]
    exact Nat.le_max_left ..
  have total := List.sum_le_sum shorter
  rw [← Word.total_eq_sum, ← Word.total_eq_sum] at total
  exact Nat.le_trans (Nat.le_trans within total) (laid.total_le nodup chunks)

/-- Without a chunk, an arena that counts so many bytes less is charged to the others. -/
theorem Charged.release (charged : a.Charged) (laid : a.space.Laid) {space : Space}
    {address length objects : Nat} (positive : 0 < length)
    (release : a.space.release? address = some (length, space)) :
    Charged { a with space, bytes := a.bytes - length, objects } := by
  obtain ⟨offsets, nodup, chunks, within⟩ := charged
  obtain ⟨-, recorded⟩ := Space.release_at release
  obtain ⟨offset, rfl, -, left, -⟩ := Space.release_spec laid positive release
  rw [Nat.add_sub_cancel_left] at recorded
  have others : ∀ x ∈ offsets.erase offset, x ≠ offset ∧ x ∈ a.space.chunks := by
    intro x member
    obtain ⟨different, old⟩ := (List.Nodup.mem_erase_iff nodup).1 member
    exact ⟨different, chunks x old⟩
  have known : ∀ x ∈ offsets.erase offset, space.recorded? x = a.space.recorded? x := by
    intro x member
    rw [Space.recorded_erase_chunk left, if_neg (others x member).1]
  refine ⟨offsets.erase offset, nodup.erase offset, fun x member => ?_, ?_⟩
  · rw [Space.mem_chunks_iff, known x member, ← Space.mem_chunks_iff]
    exact (others x member).2
  · have rest : (offsets.erase offset).map
        (recordedAt { a with space, bytes := a.bytes - length, objects })
        = (offsets.erase offset).map a.recordedAt :=
      List.map_congr_left fun x member => congrArg (fun length : Option Nat => length.getD 0) (known x member)
    have least := Word.total_le_erase a.recordedAt offsets offset
    have own : a.recordedAt offset = length := by rw [recordedAt, recorded, Option.getD_some]
    rw [rest]
    change a.bytes - length ≤ _
    omega

/-- A chunk was placed that no byte is charged to yet. -/
theorem ChargedTo.place {offsets : List Nat} (charged : a.ChargedTo offsets) {space : Space}
    {offset taken n : Nat} (carved : a.space.Carved offset taken space) (fresh : offset ∉ a.space.chunks) :
    ChargedTo { a with space := space.place offset taken n } offsets := by
  obtain ⟨nodup, chunks, within⟩ := charged
  refine ⟨nodup, fun x member => Space.mem_place.2 (.inr ?_), ?_⟩
  · obtain ⟨free, top, footprint, rfl⟩ := carved.frame
    exact chunks x member
  · have same : offsets.map (recordedAt { a with space := space.place offset taken n })
        = offsets.map a.recordedAt := by
      refine List.map_congr_left fun x member => congrArg (fun length : Option Nat => length.getD 0) ?_
      have elsewhere : x ≠ offset := fun here => fresh (here ▸ chunks x member)
      exact (Space.recorded_place_wraps carved.whole).trans
        ((if_neg elsewhere).trans (congrFun carved.kept.2.2 x))
    rw [same]
    exact within

/-- A chunk that no byte was charged to is counted with the length on its record. -/
theorem ChargedTo.count {offsets : List Nat} (charged : a.ChargedTo offsets) {offset objects : Nat}
    (fresh : offset ∉ offsets) (started : offset ∈ a.space.chunks) :
    Charged { a with bytes := a.bytes + a.recordedAt offset, objects } := by
  obtain ⟨nodup, chunks, within⟩ := charged
  refine ⟨offset :: offsets, List.nodup_cons.2 ⟨fresh, nodup⟩, fun x member => ?_, ?_⟩
  · rcases List.mem_cons.1 member with rfl | old
    · exact started
    · exact chunks x old
  · rw [List.map_cons, Word.total_cons, Nat.add_comm (recordedAt _ _)]
    exact Nat.add_le_add_right within _

end Arena

namespace Source

open Action

variable {s s' : Source} {a : Arena} {m n start maximum : Nat} {zygote : Bool}

theorem charged_of_freshArena {number start maximum live : Nat} {map : Bitmap}
    (run : freshArena number start maximum live = .ok (.ok (a, map))) : a.Charged := by
  obtain ⟨_, -, rfl, -⟩ := freshArena_eq run
  exact ⟨[], List.nodup_nil, fun _ none => absurd none List.not_mem_nil, Nat.zero_le _⟩

theorem told_charged : Arena.Told Arena.Charged := ⟨Arena.Charged.congr, charged_of_freshArena⟩

/-- A new chunk is counted with the length on its record, or not at all if that is nothing. -/
theorem alloc_charged (sound : s.Sound) (charged : s.active.Charged) (n : Nat) :
    (alloc n).Ends s (fun _ s' => s'.active.Charged) fun _ s' => s'.active.Charged := by
  have laid := (sound.fits _ s.active_mem).laid
  have counted := charged.bytes_le laid
  obtain ⟨offsets, charged⟩ := charged
  have lodged : ∀ {x taken space}, s.Lodges n x taken space → (s.placed space).active.Charged
      ∧ (s.entered space x (taken % recordable)).active.Charged := by
    rintro x taken _ ⟨size, offset, room, fits, -, makes, rfl⟩
    obtain ⟨carved, enough⟩ := makes.carved laid fits
    have fresh := (carved.placed fits enough).fresh
    have placed := charged.place (n := n) carved fresh
    have uncharged : offset ∉ offsets := fun member => fresh (charged.chunks _ member)
    have started : offset ∈ (room.place offset taken n).chunks := Space.mem_place.2 (.inl rfl)
    have own : Arena.recordedAt { s.active with space := room.place offset taken n } offset
        = taken % recordable := by
      rw [Arena.recordedAt, Space.recorded_place_wraps carved.whole, if_pos rfl]
      rfl
    exact ⟨⟨offsets, placed⟩, own ▸ placed.count uncharged started⟩
  refine (sound.alloc_ends counted n).imp ?_ ?_
  · rintro _ s' (⟨-, rfl⟩ | ⟨x, taken, space, -, lodges, -, rfl⟩)
    · exact ⟨offsets, charged⟩
    · exact (lodged lodges).2
  · rintro _ s' ⟨x, taken, space, lodges, ⟨-, -, rfl⟩ | ⟨-, -, rfl⟩⟩
    · exact (lodged lodges).1
    · exact (lodged lodges).2

theorem charged_free (x : Nat) : (free x).Preserves (Along Arena.Charged m) := by
  refine along_of_ends (preserves_free x) fun s governed charged => free_along charged x ?_ ?_
  · intro bytes objects less
    obtain ⟨offsets, nodup, chunks, within⟩ := charged
    exact ⟨offsets, nodup, chunks, Nat.le_trans less within⟩
  · intro length space objects release positive
    exact charged.release (governed.sound.fits _ s.active_mem).laid positive release

theorem charged_alloc (n : Nat) : (alloc n).Preserves (Along Arena.Charged m) :=
  along_of_ends (preserves_alloc n) fun _ governed charged => alloc_charged governed.sound charged n

theorem charged_allocAndGrow (n : Nat) : (allocAndGrow n).Preserves (Along Arena.Charged m) := by
  refine along_of_ends (preserves_allocAndGrow n) fun s governed charged =>
    allocAndGrow_of_alloc (fun s₁ before => ?_) fun _ _ charged => charged
  have steady := governed.sound.steady_of_resized before
  refine (alloc_charged steady.sound (charged.congr before.outline) n).imp ?_ fun _ _ charged => charged
  intro _ s₂ charged s' after
  exact charged.congr after.outline

/-- In every reachable heap, of whatever size, the active arena counts no byte twice and none above
`top`. -/
theorem Reachable.charged (reachable : Reachable start maximum zygote s) : s.active.Charged := by
  have along : s.Along Arena.Charged maximum := by
    induction reachable with
    | startup run => exact along_startup told_charged run
    | step op _ ih =>
      exact (along_perform told_charged charged_alloc charged_allocAndGrow charged_free op).after ih
  exact along.2

theorem Reachable.bytes_le (reachable : Reachable start maximum zygote s) :
    s.active.bytes ≤ s.active.space.top :=
  reachable.charged.bytes_le (reachable.governed.sound.fits _ s.active_mem).laid

end Source

end ManagedHeap
