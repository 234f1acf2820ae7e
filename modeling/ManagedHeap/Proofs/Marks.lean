import ManagedHeap.Marking
import ManagedHeap.Proofs.SourceSteps

/-!
What the marks of a collection stand for. Objects are reached along children and referents, which a
collection leaves as they are but for the references that it clears, and the marks are a set of
addresses over the ranges of the arenas.
-/

namespace ManagedHeap

/-- The object is reached from those that `start` picks by a path of children and of referents of
reference objects. All objects on the path live. -/
inductive Source.Reached [ObjectModel] (s : Source) (start : Nat → Prop) : Nat → Prop where
  | start {x : Nat} : start x → s.isPublished x = true → s.Reached start x
  | child {x y : Nat} : s.Reached start x → y ∈ s.children x → s.isPublished y = true →
      s.Reached start y
  | referent {x y : Nat} : s.Reached start x → (s.kind? x).isSome = true →
      s.referent? x = some y → s.isPublished y = true → s.Reached start y

namespace Source

variable [ObjectModel] {s s₀ : Source} {x y : Nat}

theorem Reached.live {start : Nat → Prop} (reached : s.Reached start x) :
    s.isPublished x = true := by
  cases reached with
  | start _ live => exact live
  | child _ _ live => exact live
  | referent _ _ _ live => exact live

/-- The object is a reference that refers to something. -/
def Refers (s : Source) (x : Nat) : Prop :=
  (s.kind? x).isSome = true ∧ (s.referent? x).isSome = true

/-- An object is what it was, or it is a reference whose referent was nulled. -/
structure Kept (s₀ s : Source) (x : Nat) : Prop where
  payload : s.payload x = s₀.payload x ∨ s₀.Refers x
    ∧ s.payload x = (s₀.payload x).set (ObjectModel.referentIndex (s₀.payload x)) 0
  bytes : s.requested x = s₀.requested x
  word : ∀ i, 8 * i < s₀.requested x → s.word x i = s₀.word x i
    ∨ s₀.Refers x ∧ i = ObjectModel.referentIndex (s₀.payload x) ∧ s.word x i = 0

theorem kept_refl (s : Source) (x : Nat) : Kept s s x := ⟨.inl rfl, rfl, fun _ _ => .inl rfl⟩

theorem Kept.of_memory {s' : Source} (kept : Kept s₀ s x)
    (memory : s'.arenas.map Arena.memory = s.arenas.map Arena.memory) : Kept s₀ s' x where
  payload := by
    rw [payload_congr memory]
    exact kept.payload
  bytes := (requested_of_memory memory x).trans kept.bytes
  word := by
    rw [word_of_memory memory]
    exact kept.word

theorem Kept.children (kept : Kept s₀ s x) : s.children x = s₀.children x := by
  rcases kept.payload with same | ⟨⟨-, refers⟩, set⟩
  · rw [Source.children, same, Source.children]
  · rw [Source.children, set, ObjectModel.children_clear _ refers, Source.children]

theorem Kept.kind (kept : Kept s₀ s x) : s.kind? x = s₀.kind? x := by
  rcases kept.payload with same | ⟨⟨-, refers⟩, set⟩
  · rw [Source.kind?, same, Source.kind?]
  · rw [Source.kind?, set, ObjectModel.kind_clear _ refers, Source.kind?]

/-- Whether a reference clears itself does not change when its referent is nulled. -/
theorem Kept.clearsItself (kept : Kept s₀ s x) : s.clearsItself x = s₀.clearsItself x := by
  rcases kept.payload with same | ⟨⟨-, refers⟩, set⟩
  · rw [Source.clearsItself, same, Source.clearsItself]
  · rw [Source.clearsItself, set, ObjectModel.clearsItself_clear _ refers, Source.clearsItself]

/-- A referent that is still there was there before, and the reference was not cleared. -/
theorem Kept.referent (kept : Kept s₀ s x) (refers : s.referent? x = some y) :
    s₀.referent? x = some y ∧ s.payload x = s₀.payload x := by
  rcases kept.payload with same | ⟨⟨-, old⟩, set⟩
  · refine ⟨?_, same⟩
    rw [Source.referent?, ← same]
    exact refers
  · rw [Source.referent?, set, ObjectModel.referent_clear _ old] at refers
    cases refers

/-- The arenas are what they were, but for live references that refer to nothing now. -/
structure Cleared (s₀ s : Source) : Prop where
  steady : Steady s₀ s
  bitmaps : s.bitmaps = s₀.bitmaps
  sites : s.sites = s₀.sites
  kept : ∀ x, s₀.isPublished x = true → Kept s₀ s x

theorem Sound.cleared (sound : s.Sound) : Cleared s s :=
  ⟨sound.steady, rfl, rfl, fun x _ => kept_refl s x⟩

/-- Only the reference itself changes when its referent is nulled. -/
theorem Sound.payload_clearReferent (sound : s.Sound) (live : s.isPublished x = true)
    (refers : (s.referent? x).isSome = true) (live' : s.isPublished y = true) :
    (s.clearReferent x).payload y = if y = x
      then (s.payload x).set (ObjectModel.referentIndex (s.payload x)) 0 else s.payload y :=
  sound.payload_setWord live live' (ObjectModel.referentIndex_lt _ refers)

theorem Sound.referent_clearReferent (sound : s.Sound) (live : s.isPublished x = true)
    (refers : (s.referent? x).isSome = true) : (s.clearReferent x).referent? x = none := by
  rw [referent?, sound.payload_clearReferent live refers live, if_pos rfl]
  exact ObjectModel.referent_clear _ refers

/-- The referent of a reference that was not cleared is nulled. -/
theorem Kept.clear (kept : Kept s₀ s y) (sound : s.Sound) (live : s.isPublished x = true)
    (live' : s.isPublished y = true) (refers : (s.referent? x).isSome = true)
    (old : s₀.Refers x) (same : s.payload x = s₀.payload x) :
    Kept s₀ (s.clearReferent x) y := by
  have own : ObjectModel.referentIndex (s.payload x) < s.requested x / 8 :=
    ObjectModel.referentIndex_lt _ refers
  have payload := sound.payload_clearReferent live refers live'
  refine ⟨?_, (requested_setWords s x _ 1 0 y).trans kept.bytes, fun i inner => ?_⟩
  · by_cases target : y = x
    · subst target
      rw [if_pos rfl, same] at payload
      exact .inr ⟨old, payload⟩
    · rw [if_neg target] at payload
      rw [payload]
      exact kept.payload
  · have word : (s.clearReferent x).word y i = _ :=
      sound.word_setWord live live' (by omega) (kept.bytes ▸ inner)
    by_cases target : y = x ∧ i = ObjectModel.referentIndex (s.payload x)
    · obtain ⟨rfl, rfl⟩ := target
      rw [if_pos ⟨rfl, rfl⟩] at word
      exact .inr ⟨old, by rw [same], word⟩
    · rw [if_neg target] at word
      rw [word]
      exact kept.word i inner

theorem Cleared.clear (cleared : Cleared s₀ s) (live : s₀.isPublished x = true)
    (isReference : (s₀.kind? x).isSome = true) (refers : s.referent? x = some y) :
    Cleared s₀ (s.clearReferent x) := by
  have sound := cleared.steady.sound
  have here : ∀ z, s₀.isPublished z = true → s.isPublished z = true :=
    fun z live' => (cleared.steady.published z).trans live'
  obtain ⟨old, same⟩ := (cleared.kept x live).referent refers
  have steady := sound.steady_setWords x (ObjectModel.referentIndex (s.payload x)) 1 0
  refine ⟨cleared.steady.trans steady, (bitmaps_setWords s x _ 1 0).trans cleared.bitmaps,
    (sites_setWords s x _ 1 0).trans cleared.sites, fun z live' => ?_⟩
  exact (cleared.kept z live').clear sound (here x live) (here z live') (by rw [refers]; rfl)
    ⟨isReference, by rw [old]; rfl⟩ same

end Source

namespace Marking

variable {s₀ : Source} {x y i number : Nat}

/-- The marks are bitmaps over the same ranges as those of the live objects. -/
structure Fits (m : Marking) (s : Source) : Prop where
  numbers : m.live = s.published
  length : m.marks.length = m.live.length
  sound : ∀ map ∈ m.marks, map.Sound
  range : ∀ (i number : Nat) (mark : Bitmap), m.live[i]? = some number → m.marks[i]? = some mark →
    mark.base = (s.bitmap number).base ∧ mark.limit = (s.bitmap number).limit

theorem Fits.congr {m m' : Marking} (fit : m.Fits s₀) (live : m'.live = m.live)
    (marks : m'.marks = m.marks) : m'.Fits s₀ := by
  refine ⟨live.trans fit.numbers, ?_, marks ▸ fit.sound, ?_⟩
  · rw [marks, live]
    exact fit.length
  · rw [marks, live]
    exact fit.range

/-- Some bitmap covers a live object. -/
theorem Fits.covers {m : Marking} (fit : m.Fits s₀) (live : s₀.isPublished x = true) :
    ∃ number ∈ m.live, (s₀.bitmap number).mayContain x = true := by
  obtain ⟨number, member, bit⟩ := Source.isPublished_iff.1 live
  rw [← fit.numbers] at member
  exact ⟨number, member, Bitmap.mayContain_of_test bit⟩

theorem isMarked_iff {m : Marking} :
    m.isMarked x = true ↔ ∃ (i : Nat) (mark : Bitmap), m.marks[i]? = some mark ∧ mark.test x = true := by
  rw [Marking.isMarked, List.any_eq_true]
  constructor
  · rintro ⟨mark, member, bit⟩
    obtain ⟨i, here⟩ := List.getElem?_of_mem member
    exact ⟨i, mark, here, bit⟩
  · rintro ⟨i, mark, here, bit⟩
    exact ⟨mark, List.mem_of_getElem? here, bit⟩

theorem mayContain_congr {b b' : Bitmap} (base : b.base = b'.base) (limit : b.limit = b'.limit) :
    b.mayContain x = b'.mayContain x := by
  rw [Bitmap.mayContain, Bitmap.mayContain, base, limit]

theorem Fits.mayContain {m : Marking} (fit : m.Fits s₀) {mark : Bitmap}
    (here : m.live[i]? = some number) (marks : m.marks[i]? = some mark) :
    mark.mayContain x = (s₀.bitmap number).mayContain x := by
  obtain ⟨base, limit⟩ := fit.range i number mark here marks
  exact mayContain_congr base limit

/-- The number of the bitmap that covers an address has one place in the list. -/
theorem index_unique (sound : s₀.Sound) {m : Marking} (fit : m.Fits s₀) {j number' : Nat}
    (here : m.live[i]? = some number) (there : m.live[j]? = some number')
    (covered : (s₀.bitmap number).mayContain x = true)
    (covered' : (s₀.bitmap number').mayContain x = true) : j = i := by
  have arena : ∀ {k n : Nat}, m.live[k]? = some n →
      ∃ a, s₀.arenas[k]? = some a ∧ a.live = n := by
    intro k n found
    rw [fit.numbers, sound.published, Source.sites, List.map_map, List.getElem?_map] at found
    exact Option.map_eq_some_iff.1 found
  obtain ⟨a, ha, rfl⟩ := arena here
  obtain ⟨b, hb, rfl⟩ := arena there
  have inside := ((sound.mayContain_iff (List.mem_of_getElem? ha)).1 covered).1
  have inside' := ((sound.mayContain_iff (List.mem_of_getElem? hb)).1 covered').1
  exact sound.index_unique hb ha inside' inside

/-- Whether a covered address is marked is told by the marks over its range. -/
theorem isMarked_eq (sound : s₀.Sound) {m : Marking} (fit : m.Fits s₀)
    (here : m.live[i]? = some number) (covered : (s₀.bitmap number).mayContain x = true) :
    m.isMarked x = (m.marks.getD i default).bitAt x := by
  have bound : i < m.marks.length := fit.length ▸ (List.getElem?_eq_some_iff.1 here).1
  have marks : m.marks[i]? = some m.marks[i] := List.getElem?_eq_getElem bound
  have covers : m.marks[i].mayContain x = true := (fit.mayContain here marks).trans covered
  rw [List.getD_eq_getElem?_getD, marks, Option.getD_some, Bool.eq_iff_iff, isMarked_iff]
  constructor
  · rintro ⟨j, mark, there, bit⟩
    have bound' : j < m.live.length := fit.length ▸ (List.getElem?_eq_some_iff.1 there).1
    have there' : m.live[j]? = some m.live[j] := List.getElem?_eq_getElem bound'
    have covered' := (fit.mayContain there' there).symm.trans (Bitmap.mayContain_of_test bit)
    cases index_unique sound fit here there' covered covered'
    cases marks.symm.trans there
    exact (Bitmap.test_iff.1 bit).2
  · intro bit
    exact ⟨i, _, marks, Bitmap.test_iff.2 ⟨covers, bit⟩⟩

/-- One more mark. -/
theorem isMarked_insert {m : Marking} (fit : m.Fits s₀)
    (here : m.live[i]? = some number) (covered : (s₀.bitmap number).mayContain x = true) :
    (m.marks.modify i (·.insert x)).any (·.test y) = true ↔ y = x ∨ m.isMarked y = true := by
  have bound : i < m.marks.length := fit.length ▸ (List.getElem?_eq_some_iff.1 here).1
  have marks : m.marks[i]? = some m.marks[i] := List.getElem?_eq_getElem bound
  have covers : m.marks[i].mayContain x = true := (fit.mayContain here marks).trans covered
  have whole := fit.sound _ (List.getElem_mem bound)
  have modified : ∀ j, (m.marks.modify i (·.insert x))[j]?
      = m.marks[j]?.map fun mark => if i = j then mark.insert x else mark := by
    intro j
    rw [List.getElem?_modify]
    rfl
  rw [List.any_eq_true, isMarked_iff]
  constructor
  · rintro ⟨mark, member, bit⟩
    obtain ⟨j, there⟩ := List.getElem?_of_mem member
    rw [modified] at there
    obtain ⟨old, before, rfl⟩ := Option.map_eq_some_iff.1 there
    split at bit
    case isTrue same =>
      subst same
      cases marks.symm.trans before
      rcases (whole.test_insert covers).1 bit with same | old
      · exact .inl same
      · exact .inr ⟨i, _, marks, old⟩
    case isFalse => exact .inr ⟨j, old, before, bit⟩
  · have insert : ((m.marks.modify i (·.insert x))[i]?) = some (m.marks[i].insert x) := by
      rw [modified, marks, Option.map_some, if_pos rfl]
    rintro (rfl | ⟨j, mark, there, bit⟩)
    · exact ⟨_, List.mem_of_getElem? insert, (whole.test_insert covers).2 (.inl rfl)⟩
    · by_cases same : i = j
      · subst same
        cases marks.symm.trans there
        exact ⟨_, List.mem_of_getElem? insert, (whole.test_insert covers).2 (.inr bit)⟩
      · have kept : (m.marks.modify i (·.insert x))[j]? = some mark := by
          rw [modified, there, Option.map_some, if_neg same]
        exact ⟨mark, List.mem_of_getElem? kept, bit⟩

theorem Fits.insert {m m' : Marking} (fit : m.Fits s₀) (here : m.live[i]? = some number)
    (covered : (s₀.bitmap number).mayContain x = true) (numbers : m'.live = m.live)
    (marks : m'.marks = m.marks.modify i (·.insert x)) : m'.Fits s₀ := by
  have modified : ∀ {j : Nat} {mark : Bitmap}, m'.marks[j]? = some mark → ∃ old : Bitmap,
      m.marks[j]? = some old ∧ (mark = old ∨ i = j ∧ mark = old.insert x) := by
    intro j mark found
    rw [marks, List.getElem?_modify] at found
    obtain ⟨old, before, rfl⟩ := Option.map_eq_some_iff.1 found
    refine ⟨old, before, ?_⟩
    split
    case isTrue same => exact .inr ⟨same, rfl⟩
    case isFalse => exact .inl rfl
  refine ⟨numbers.trans fit.numbers, ?_, ?_, ?_⟩
  · rw [marks, List.length_modify, numbers]
    exact fit.length
  · intro mark member
    obtain ⟨j, found⟩ := List.getElem?_of_mem member
    obtain ⟨old, before, rfl | ⟨rfl, rfl⟩⟩ := modified found
    · exact fit.sound _ (List.mem_of_getElem? before)
    · exact (fit.sound _ (List.mem_of_getElem? before)).insert
        ((fit.mayContain here before).trans covered)
  · intro j other mark there found
    rw [numbers] at there
    obtain ⟨old, before, rfl | ⟨rfl, rfl⟩⟩ := modified found
    · exact fit.range j other _ there before
    · rw [Bitmap.base_insert, Bitmap.limit_insert]
      exact fit.range _ other _ there before

end Marking

end ManagedHeap
