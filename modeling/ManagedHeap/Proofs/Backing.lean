import ManagedHeap.Proofs.Consistency
import ManagedHeap.Proofs.Isolation
import ManagedHeap.Proofs.Outlines
import ManagedHeap.Proofs.Rooms

/-!
What the active arena can always be relied on for. Its pieces stay woven, and every byte that it counts
is the byte of a chunk, also where addresses were freed at which nothing lived. So no count overflows,
and an attempt to allocate comes to its end.
-/

namespace ManagedHeap

/-- The pieces of the arena are woven, and the bytes that it counts lie in chunks. -/
structure Arena.Backed (a : Arena) : Prop where
  woven : a.space.Woven
  pages : a.space.capacity % Size.page = 0
  backing : ∃ offsets : List Nat, offsets.Nodup ∧ (∀ offset ∈ offsets, offset ∈ a.space.chunks)
    ∧ a.bytes ≤ Word.total (offsets.map a.space.extent)

theorem Arena.Backed.congr {a a' : Arena} (backed : a.Backed) (same : a'.outline = a.outline) :
    a'.Backed := by
  simp only [Arena.outline, Prod.mk.injEq] at same
  obtain ⟨region, recorded, requests, free, top, bytes⟩ := same
  obtain ⟨offsets, nodup, chunks, within⟩ := backed.backing
  have extent : a'.space.extent = a.space.extent := by
    funext x
    rw [Space.extent_eq_recorded, recorded, Space.extent_eq_recorded, Space.requestedAt,
      Space.requestedAt, requests]
  refine ⟨backed.woven.congr recorded requests free top, ?_, offsets, nodup, fun x member => ?_, ?_⟩
  · rw [Space.capacity, region]
    exact backed.pages
  · rw [Space.mem_chunks_iff, recorded, ← Space.mem_chunks_iff]
    exact chunks x member
  · rw [bytes, extent]
    exact within

theorem Arena.Backed.bytes_le {a : Arena} (backed : a.Backed) (laid : a.space.Laid) :
    a.bytes ≤ a.space.top := by
  obtain ⟨offsets, nodup, chunks, within⟩ := backed.backing
  exact Nat.le_trans within (laid.total_le nodup chunks)

/-- Without a chunk, an arena that counts so many bytes less is backed still. -/
theorem Arena.Backed.release {a : Arena} {space : Space} {address length objects : Nat}
    (backed : a.Backed) (seamless : a.space.Seamless)
    (release : a.space.release? address = some (length, space)) :
    Arena.Backed { a with space, bytes := a.bytes - length, objects } := by
  obtain ⟨inside, recorded⟩ := Space.release_at release
  have exact := seamless.woven.exact _ _ recorded
  have positive := seamless.laid.positive true _ _ (seamless.woven.piece_iff.2 recorded)
  obtain ⟨offset, rfl, -, left, -, region, -, -⟩ :=
    Space.release_spec seamless.laid positive release
  have inherits := (seamless.release_inherits release).1
  rw [show a.space.base + offset - a.space.base = offset by omega] at recorded exact
  obtain ⟨offsets, nodup, chunks, within⟩ := backed.backing
  have others : ∀ x ∈ offsets.erase offset, x ∈ space.chunks := by
    intro x member
    obtain ⟨different, old⟩ := (List.Nodup.mem_erase_iff nodup).1 member
    exact (Space.mem_erase_chunk left).2 ⟨different, chunks x old⟩
  have extents : (offsets.erase offset).map space.extent
      = (offsets.erase offset).map a.space.extent :=
    List.map_congr_left fun x member => inherits.extent x (others x member)
  refine ⟨(seamless.release release).woven, ?_, offsets.erase offset, nodup.erase offset, others, ?_⟩
  · change space.region.size % Size.page = 0
    rw [region]
    exact backed.pages
  · change a.bytes - length ≤ Word.total ((offsets.erase offset).map space.extent)
    rw [extents]
    have least := Word.total_le_erase a.space.extent offsets offset
    omega

namespace Source

open Action

variable {s s' : Source} {a : Arena} {m x n start maximum : Nat} {zygote : Bool}
  {result : Option Nat}

/-- The growth is under control, and the active arena is backed. -/
def Sturdy (m : Nat) (s : Source) : Prop := s.Governed m ∧ s.active.Backed

theorem Sturdy.seamless (sturdy : s.Sturdy m) : s.active.space.Seamless where
  laid := (sturdy.1.sound.fits _ s.active_mem).laid
  woven := sturdy.2.woven
  footprint_allowed := (sturdy.1.capped _ s.active_mem).within
  allowed_pages := (sturdy.1.capped _ s.active_mem).pages

theorem Sturdy.bytes_le (sturdy : s.Sturdy m) : s.active.bytes ≤ s.active.space.top :=
  sturdy.2.bytes_le sturdy.seamless.laid

theorem Sturdy.unlimited (sturdy : s.Sturdy m) : Sturdy m { s with softLimit := none } :=
  ⟨sturdy.1.unlimited, sturdy.2⟩

theorem Sturdy.ceiling (sturdy : s.Sturdy m) (sturdy' : s'.Sturdy m) :
    s'.ceiling = s.ceiling :=
  ceiling_congr (sturdy'.1.maximum.trans sturdy.1.maximum.symm)

theorem backed_of_freshArena {number start maximum live : Nat} {map : Bitmap}
    (run : freshArena number start maximum live = .ok (.ok (a, map))) : a.Backed := by
  obtain ⟨space, create, rfl, rfl⟩ := freshArena_eq run
  obtain ⟨region, allowed, rfl, reserve, -⟩ := Space.create_bare create
  have whole := (Size.pagesUp_bounds (Space.reserve_eq reserve).2.1).2.2
  exact ⟨Space.woven_empty _ region allowed, whole, [], List.nodup_nil,
    fun _ none => absurd none List.not_mem_nil, Nat.zero_le _⟩

/-- Whether an arena is backed is told by its outline. -/
theorem told_backed : Arena.Told Arena.Backed := ⟨Arena.Backed.congr, backed_of_freshArena⟩

theorem sturdy_free (x : Nat) : (free x).Preserves (Sturdy m) := by
  refine along_of_ends (preserves_free x) fun s governed backed => free_along backed x ?_ ?_
  · intro bytes objects less
    obtain ⟨offsets, nodup, chunks, within⟩ := backed.backing
    exact ⟨backed.woven, backed.pages, offsets, nodup, chunks, Nat.le_trans less within⟩
  · intro length space objects release _
    exact backed.release (Sturdy.seamless ⟨governed, backed⟩) release

/-! ### Allocating -/

/-- The active arena has room for the request, as far as it is allowed to grow. -/
def HasRoom (s : Source) (n : Nat) : Prop :=
  s.active.space.Serves (min s.active.allowed s.active.space.capacity) n

/-- An attempt to allocate has come to its end. -/
structure Tried (m : Nat) (s : Source) (n : Nat) (result : Option Nat) (s' : Source) : Prop where
  sturdy : s'.Sturdy m
  refused : result = none → s' = s ∧ (s.softLimit = none → ¬ s.HasRoom n)
  served : result ≠ none → s.HasRoom n

theorem Sturdy.placed (sturdy : s.Sturdy m) (few : s.ceiling < recordable) {offset taken needed : Nat}
    {space : Space} (run : s.active.space.calloc n
      = .ok (some (s.active.space.base + offset), space.place offset taken n))
    (carved : s.active.space.Carved offset taken space)
    (fits : Space.chunkSizeFor n = some needed) (enough : needed ≤ taken) {objects : Nat} :
    Arena.Backed { s.active with
      space := space.place offset taken n, bytes := s.active.bytes + taken, objects } := by
  have small : s.active.space.capacity < Chunk.fieldLimit * Size.granule := by
    have budget := sturdy.1.sound.budget
    simp only [recordable] at few
    omega
  have fresh := (carved.placed fits enough).fresh
  obtain ⟨offsets, nodup, chunks, within⟩ := sturdy.2.backing
  have others : ∀ x ∈ offsets, x ≠ offset := fun x member same => fresh (same ▸ chunks x member)
  obtain ⟨free, top, footprint, rfl⟩ := carved.frame
  have extents : offsets.map (Space.extent (Space.place
        { s.active.space with free, top, footprint } offset taken n))
      = offsets.map s.active.space.extent :=
    List.map_congr_left fun x member => Space.extent_place (others x member)
  refine ⟨(sturdy.seamless.calloc small run).woven, sturdy.2.pages, offset :: offsets,
    List.nodup_cons.2 ⟨fun member => fresh (chunks _ member), nodup⟩, fun x member => ?_, ?_⟩
  · rcases List.mem_cons.1 member with rfl | old
    · exact Space.mem_place.2 (.inl rfl)
    · exact Space.mem_place.2 (.inr (chunks x old))
  · have own : taken ≤ Space.extent (Space.place
        { s.active.space with free, top, footprint } offset taken n) offset := by
      rw [Space.extent_eq_recorded, Space.recorded_place carved.whole (carved.short small),
        if_pos rfl, Option.getD_some]
      exact Nat.le_max_left ..
    rw [List.map_cons, Word.total_cons, extents, Nat.add_comm]
    exact Nat.add_le_add own within

/-- An attempt to allocate comes to its end, and fails for want of room only. -/
theorem alloc_tries (sturdy : s.Sturdy m) (few : s.ceiling < recordable) (n : Nat) :
    (alloc n).Ends s (fun result s' => Tried m s n result s') fun _ _ => False := by
  have governed := sturdy.1
  have small := governed.sound.small _ (mem_sites s.active_mem)
  have decided : ∀ {result space}, s.active.space.calloc n = .ok (result, space) →
      (result = none ↔ ¬ s.HasRoom n) := sturdy.seamless.calloc_none_iff sturdy.2.pages small
  have tried : (alloc n).Ends s (fun result s' => s'.Governed m → Tried m s n result s')
      fun _ _ => False := by
    refine governed.sound.ends_alloc ?_ ?_ ?_
    · intro limited _
      exact ⟨sturdy, fun _ => ⟨rfl, fun unlimited => absurd unlimited limited⟩, fun some => absurd rfl some⟩
    · intro run _
      exact ⟨sturdy, fun _ => ⟨rfl, fun _ => (decided run).1 rfl⟩, fun some => absurd rfl some⟩
    · intro size offset taken room fits makes run
      obtain ⟨carved, enough⟩ := makes.carved sturdy.seamless.laid fits
      refine (countAllocation_eq governed few sturdy.bytes_le carved fits enough).2.mono ?_
      rintro _ s' rfl governed'
      refine ⟨⟨governed', sturdy.placed few run carved fits enough⟩, fun none => ?_, fun some => ?_⟩
      · cases none
      · exact not_not.1 fun full => some ((decided run).2 full)
  exact ((preserves_alloc n s governed).and tried).imp (fun _ _ both => both.2 both.1)
    fun _ _ both => both.2

end Source

end ManagedHeap
