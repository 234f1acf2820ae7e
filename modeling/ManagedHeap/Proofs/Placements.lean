import ManagedHeap.Proofs.Counting

/-!
What an attempt to allocate comes to, in arenas of any size. It refuses and has changed nothing, or places
a chunk and counts it with the length on its record; only where nothing of the length is on record does it
break off, with the chunk placed and not counted.
-/

namespace ManagedHeap

namespace Source

open Action

variable {s s' : Source} {m n x taken : Nat} {space : Space}

/-- The space of the active arena with a chunk for `n` bytes placed in it, where there was room. -/
structure Lodges (s : Source) (n x taken : Nat) (space : Space) : Prop where
  made : ∃ size offset room, Space.chunkSizeFor n = some size ∧ x = s.active.space.base + offset
    ∧ s.active.space.MakesRoom size offset taken room ∧ space = room.place offset taken n

theorem Sound.alloc_ends (sound : s.Sound) (counted : s.active.bytes ≤ s.active.space.top) (n : Nat) :
    (alloc n).Ends s
      (fun result s' => result = none ∧ s' = s ∨ ∃ x taken space, result = some x
        ∧ s.Lodges n x taken space ∧ 0 < taken % recordable
        ∧ s' = s.entered space x (taken % recordable))
      fun cause s' => ∃ x taken space, s.Lodges n x taken space
        ∧ (cause = .defect .overflow ∧ taken % recordable = 0 ∧ s' = s.placed space
          ∨ space.allowed < space.footprint ∧ 0 < taken % recordable
            ∧ s' = s.entered space x (taken % recordable)) := by
  have laid := (sound.fits _ s.active_mem).laid
  refine sound.ends_alloc (fun _ => .inl ⟨rfl, rfl⟩) (fun _ => .inl ⟨rfl, rfl⟩) ?_
  intro size offset taken room fits makes _
  obtain ⟨carved, enough⟩ := makes.carved laid fits
  have lodges : s.Lodges n (s.active.space.base + offset) taken (room.place offset taken n) :=
    ⟨size, offset, room, fits, rfl, makes, rfl⟩
  refine (sound.countAllocation_ends counted carved fits enough).imp ?_ ?_
  · rintro _ s' ⟨some_left, rfl⟩
    exact .inr ⟨_, _, _, rfl, lodges, some_left, rfl⟩
  · exact fun cause s' failed => ⟨_, _, _, lodges, failed⟩

theorem alloc_ends (governed : s.Governed m) (counted : s.active.bytes ≤ s.active.space.top) (n : Nat) :
    (alloc n).Ends s
      (fun result s' => result = none ∧ s' = s ∨ ∃ x taken space, result = some x
        ∧ s.Lodges n x taken space ∧ 0 < taken % recordable
        ∧ s' = s.entered space x (taken % recordable))
      fun cause s' => cause = .defect .overflow ∧ ∃ x taken space, s.Lodges n x taken space
        ∧ taken % recordable = 0 ∧ s' = s.placed space := by
  have laid := (governed.sound.fits _ s.active_mem).laid
  refine (governed.sound.alloc_ends counted n).imp (fun _ _ done => done) ?_
  rintro cause s' ⟨x, taken, space, lodges, ⟨overflow, lost, rfl⟩ | ⟨above, -⟩⟩
  · exact ⟨overflow, _, _, _, lodges, lost, rfl⟩
  · obtain ⟨size, offset, room, fits, -, makes, rfl⟩ := lodges
    have within := within_of_carved (makes.carved laid fits).1 (governed.capped _ s.active_mem).within
    exact absurd within (Nat.not_le_of_lt above)

end Source

end ManagedHeap
