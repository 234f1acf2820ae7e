import ManagedHeap.Object
import ManagedHeap.Proofs.Reachability

/-!
What survives a collection. Whatever the roots reach is kept with all that it refers to, and nothing
is kept that neither the roots nor the objects with finalizers reach.
-/

namespace ManagedHeap

/-- The object is reached from the roots by a path of children. All objects on the path live. -/
inductive Source.Held [ObjectModel] (s : Source) (roots : List Nat) : Nat → Prop where
  | root {x : Nat} : x ∈ roots → s.isPublished x = true → s.Held roots x
  | child {x y : Nat} : s.Held roots x → y ∈ s.children x → s.isPublished y = true → s.Held roots y

namespace Heap

section

variable [ObjectModel] {config : Config} {h h' : Heap} {x y : Nat} {collectSoft : Bool}

/-- Nothing that is needed is freed, and no survivor refers to an object that was. -/
structure Spares (h h' : Heap) : Prop where
  survived : ∀ x, h'.isValid x = true → h.isValid x = true
  roots : ∀ x ∈ h.rootSet, h.isValid x = true → h'.isValid x = true
  children : ∀ x y, h'.isValid x = true → y ∈ h'.source.children x → h.isValid y = true →
    h'.isValid y = true
  referent : ∀ x y, h'.isValid x = true → (h'.source.kind? x).isSome = true →
    h'.source.referent? x = some y → h.isValid y = true → h'.isValid y = true
  held : ∀ x, h.source.Held h.rootSet x → h'.isValid x = true
  kept : ∀ x, h'.isValid x = true → h.source.Kept h'.source x

theorem Collected.held (collected : Collected h h') (held : h.source.Held h.rootSet x) :
    h'.isValid x = true := by
  induction held with
  | root root live => exact collected.collects.roots _ root live
  | child _ child live ih => exact collected.collects.children _ _ ih child live

theorem Collected.spares (collected : Collected h h') : Spares h h' := by
  have collects := collected.collects
  refine ⟨fun x survivor => (collects.reached x survivor).live, collects.roots, ?_, ?_,
    fun x held => collected.held held, collects.kept⟩
  · intro x y survivor child live
    rw [(collects.kept x survivor).children] at child
    exact collects.children x y survivor child live
  · intro x y survivor isReference refers live
    rw [(collects.kept x survivor).kind] at isReference
    exact collects.referent x y survivor isReference refers live

theorem spares_refl (h : Heap) : Spares h h where
  survived _ live := live
  roots _ _ live := live
  children _ _ _ _ live := live
  referent _ _ _ _ _ live := live
  held x held := by
    cases held with
    | root _ live => exact live
    | child _ _ live => exact live
  kept x _ := Source.kept_refl h.source x

/-- A collection keeps what the roots reach, and survivors keep what they refer to and hold. -/
theorem collect_spares (reachable : Reachable config h)
    (run : collect collectSoft h = .ok () h') : Spares h h' := by
  obtain ⟨refused, collected⟩ := (collect_spec reachable.sound.1 collectSoft).ok run
  cases busy : h.collecting with
  | true =>
    rw [refused busy]
    exact spares_refl h
  | false => exact (collected busy).spares

end

/-- A thread tracks a weak reference to an object that nothing holds. -/
def weakPair : List Operation :=
  let reference := Region.arenaBase 0
  let referent := reference + 32
  [.attach 0 "main", .request 0 24 {}, .request 0 24 { untracked := true },
    .write reference 0 1 (Tag.make (some .weak) false false false 0),
    .write reference Object.referentWord 1 referent]

theorem weakPair_spares : ∃ h', collect false (small.afterAll weakPair) = .ok () h'
    ∧ Spares (small.afterAll weakPair) h' := by
  have run := Action.eq_ok_of_succeeds
    (show (collect false).succeeds (small.afterAll weakPair) = true by decide +kernel)
  exact ⟨_, run, collect_spares (reachable_small.afterAll weakPair) run⟩

/-- A path leads to the object from a root or from an object with a finalizer. -/
def Reaches [ObjectModel] (h : Heap) (x : Nat) : Prop :=
  h.source.Reached (fun y => y ∈ h.rootSet ∨ y ∈ h.tables.finalizable.entries) x

/-- One collection frees everything that no path leads to, unless it is refused because another is
under way. -/
theorem collect_frees [ObjectModel] {config : Config} {h h' : Heap} {collectSoft : Bool}
    (reachable : Reachable config h) (idle : h.collecting = false)
    (run : collect collectSoft h = .ok () h') : (∀ x, h'.isValid x = true → h.Reaches x)
      ∧ ∀ x, h.isValid x = true → ¬ h.Reaches x → h'.isValid x = false := by
  have collected := ((collect_spec reachable.sound.1 collectSoft).ok run).2 idle
  have reached := collected.collects.reached
  refine ⟨reached, fun x _ lost => ?_⟩
  cases survivor : h'.isValid x with
  | true => exact absurd (reached x survivor) lost
  | false => rfl

theorem weakPair_frees : ∃ h', collect true (small.afterAll weakPair) = .ok () h'
    ∧ (∀ x, h'.isValid x = true → (small.afterAll weakPair).Reaches x)
    ∧ ∀ x, (small.afterAll weakPair).isValid x = true → ¬ (small.afterAll weakPair).Reaches x →
      h'.isValid x = false := by
  have idle : (small.afterAll weakPair).collecting = false := by decide +kernel
  have run := Action.eq_ok_of_succeeds
    (show (collect true).succeeds (small.afterAll weakPair) = true by decide +kernel)
  exact ⟨_, run, collect_frees (reachable_small.afterAll weakPair) idle run⟩

end Heap

end ManagedHeap
