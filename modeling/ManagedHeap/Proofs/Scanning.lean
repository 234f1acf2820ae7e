import ManagedHeap.Proofs.MarkContexts
import ManagedHeap.Proofs.Tracing

/-!
A scan goes on until nothing is left on the stack. What it may yet come to is what is on the stack
now and each live object without a mark, once; so every object taken leaves one less to scan.
-/

namespace ManagedHeap

namespace Cycle

open Action

variable {s₀ : Source} {n : Nat} {c : Cycle}

/-- At most `n` objects are left to scan: those on the stack, and those that live and have no mark. -/
structure Left (s₀ : Source) (n : Nat) (c : Cycle) : Prop where
  bitmaps : c.source.bitmaps = s₀.bitmaps
  fits : c.marking.Fits s₀
  few : ∃ pale : List Nat,
    (∀ x, s₀.isPublished x = true → c.marking.isMarked x = false → x ∈ pale)
      ∧ c.marking.stack.entries.length + pale.length ≤ n

/-- An object moves onto the stack with its mark. -/
theorem mark_left (sound : s₀.Sound) (left : Left s₀ n c) (x : Nat) :
    (mark x).Ends c (fun _ c' => Left s₀ n c') fun _ _ => True := by
  refine (mark_cases sound left.bitmaps left.fits).imp ?_ fun _ _ _ => trivial
  rintro - c' (⟨rfl, -⟩ | ⟨live, unmarked, -, i, number, here, covered, rfl⟩)
  · exact left
  · obtain ⟨pale, covers, few⟩ := left.few
    have inside := covers x live unmarked
    refine ⟨left.bitmaps, left.fits.insert here covered rfl rfl, pale.erase x,
      fun y live' bare => ?_, ?_⟩
    · have marked := Marking.isMarked_insert (y := y) left.fits here covered
      have bare' : ¬ (y = x ∨ c.marking.isMarked y = true) :=
        fun either => by rw [Marking.isMarked, marked.2 either] at bare; cases bare
      rw [not_or, Bool.not_eq_true] at bare'
      exact (List.mem_erase_of_ne bare'.1).2 (covers y live' bare'.2)
    · have shorter := List.length_erase_of_mem inside
      have some_left := List.length_pos_of_mem inside
      simp only [List.length_cons]
      omega

theorem markAll_left (sound : s₀.Sound) (objects : List Nat) (left : Left s₀ n c) :
    (markAll objects).Ends c (fun _ c' => Left s₀ n c') fun _ _ => True := by
  induction objects generalizing c with
  | nil => exact ends_pure.2 left
  | cons x rest ih =>
    rw [markAll, ends_bind]
    exact (mark_left sound left x).mono fun _ _ left' => ih left'

variable [ObjectModel]

theorem visit_left (sound : s₀.Sound) (left : Left s₀ n c) (x : Nat) :
    (visit x).Ends c (fun _ c' => Left s₀ n c') fun _ _ => True := by
  simp only [visit, ends_bind, ends_get]
  refine (markAll_left sound _ left).mono fun _ c₁ left₁ => ?_
  split
  case h_1 kind referent _ _ =>
    simp only [ends_ite]
    refine ⟨fun _ => mark_left sound left₁ referent, fun _ => ⟨fun _ => mark_left sound left₁ referent,
      fun _ => ?_⟩⟩
    exact ends_modify.2 ⟨left₁.bitmaps, left₁.fits.congr rfl rfl, left₁.few⟩
  case h_2 => exact ends_pure.2 left₁

/-- More steps than objects to scan empty the stack. -/
theorem scanUpTo_empties (sound : s₀.Sound) (left : Left s₀ n c) : (scanUpTo (n + 1)).Ends c
    (fun _ c' => c'.marking.stack.entries = []) fun _ _ => True := by
  induction n generalizing c with
  | zero =>
    obtain ⟨pale, -, few⟩ := left.few
    have empty : c.marking.stack.entries = [] := List.length_eq_zero_iff.1 (by omega)
    simp only [scanUpTo, ends_bind, ends_get, MarkStack.pop?, empty]
    exact ends_pure.2 empty
  | succ n ih =>
    rw [scanUpTo, ends_bind, ends_get]
    obtain ⟨pale, covers, few⟩ := left.few
    cases entries : c.marking.stack.entries with
    | nil =>
      simp only [MarkStack.pop?, entries]
      exact ends_pure.2 entries
    | cons x rest =>
      rw [entries, List.length_cons] at few
      simp only [MarkStack.pop?, entries, ends_bind, ends_set]
      refine (visit_left sound ?_ x).mono fun _ _ left' => ih left'
      refine ⟨left.bitmaps, left.fits.congr rfl rfl, pale, covers, ?_⟩
      change rest.length + pale.length ≤ n
      omega

omit [ObjectModel] in
/-- There are no more live objects than the bitmaps have members. -/
theorem left_scanBudget (sound : s₀.Sound) (bitmaps : c.source.bitmaps = s₀.bitmaps)
    (fits : c.marking.Fits s₀) : ∃ n, c.scanBudget = n + 1 ∧ Left s₀ n c := by
  refine ⟨_, scanBudget_eq c, bitmaps, fits, c.liveObjects, fun x live _ => ?_, Nat.le_refl _⟩
  rw [liveObjects, fits.numbers, List.mem_flatMap]
  obtain ⟨number, member, bit⟩ := Source.isPublished_iff.1 live
  obtain ⟨a, arena, rfl⟩ := sound.mem_published.1 member
  have same : c.source.bitmap a.live = s₀.bitmap a.live := by
    rw [Source.bitmap, Source.bitmap, bitmaps]
  exact ⟨_, member, same ▸ (sound.bitmap_sound arena).mem_members.2 bit⟩

/-- Nothing is left on the stack after a scan. -/
theorem scan_empties (sound : s₀.Sound) (bitmaps : c.source.bitmaps = s₀.bitmaps)
    (fits : c.marking.Fits s₀) :
    scan.Ends c (fun _ c' => c'.marking.stack.entries = []) fun _ _ => True := by
  obtain ⟨n, budget, left⟩ := left_scanBudget sound bitmaps fits
  rw [scan, ends_bind, ends_get, budget]
  exact scanUpTo_empties sound left

end Cycle

end ManagedHeap
