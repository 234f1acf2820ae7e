import ManagedHeap.Proofs.ChronicleRuns
import ManagedHeap.Proofs.ExternalAccounts

/-!
Making room, apart from who asks for it. Collecting, growing and sizing rework the arenas and the tables.
The threads, what is counted for them, the call in flight and the target utilization they leave as they
are, but for the collections that a request counts.
-/

namespace ManagedHeap

namespace Source

theorem outlying_utilization : Outlying utilization := fun _ _ _ _ _ _ _ => rfl

theorem level_utilization (s : Source) (ideal : Nat) :
    utilization { s with ideal } = s.utilization := rfl

theorem retains_externalAlloc (n : Nat) (grow : Bool) : Retains utilization (externalAlloc n grow) :=
  fun _ _ same => ends_externalAlloc same same (fun _ => ⟨same, same⟩) grow

theorem retains_externalFree (n : Nat) : Retains utilization (externalFree n) :=
  fun _ _ same => ends_externalFree fun _ => same

end Source

namespace Heap

open Action

variable {α β : Type} {h h' h'' : Heap}

/-- One heap is the other with its inside reworked. What making room leaves alone is the same. -/
structure Reworked (h h' : Heap) : Prop where
  utilization : h'.source.utilization = h.source.utilization
  threads : h'.threads = h.threads
  mutators : h'.mutators = h.mutators
  profiling : h'.profiling = h.profiling
  profile : h'.profile = h.profile
  inFlight : h'.inFlight = h.inFlight

theorem Reworked.refl (h : Heap) : Reworked h h := ⟨rfl, rfl, rfl, rfl, rfl, rfl⟩

theorem Reworked.trans (first : Reworked h h') (second : Reworked h' h'') : Reworked h h'' where
  utilization := second.utilization.trans first.utilization
  threads := second.threads.trans first.threads
  mutators := second.mutators.trans first.mutators
  profiling := second.profiling.trans first.profiling
  profile := second.profile.trans first.profile
  inFlight := second.inFlight.trans first.inFlight

/-- The action touches nothing but what may be reworked to make room. -/
def Reworks (a : Action Heap α) : Prop :=
  ∀ h, a.Ends h (fun _ h' => Reworked h h') fun _ h' => Reworked h h'

theorem Reworks.then {a : Action Heap α} {next : α → Action Heap β} (first : Reworks a)
    (rest : ∀ value, Reworks (next value)) : Reworks (a >>= next) :=
  Relates.then Reworked.trans first rest

theorem reworks_get : Reworks get := fun h => ends_get.2 (.refl h)

theorem reworks_modify {change : Heap → Heap} (reworked : ∀ h, Reworked h (change h)) :
    Reworks (modify change) := relates_modify reworked

theorem reworks_onSource {a : Action Source α} (retains : Source.Retains Source.utilization a) :
    Reworks (onSource a) := by
  intro h
  have kept : ∀ s : Source, s.utilization = h.source.utilization → Reworked h { h with source := s } :=
    fun _ same => ⟨same, rfl, rfl, rfl, rfl, rfl⟩
  exact ends_on.2 ((retains _ h.source rfl).imp (fun _ s => kept s) fun _ s => kept s)

theorem reworks_sizeChanged : Reworks (modify sizeChanged) := by
  apply reworks_modify
  intro h
  obtain ⟨threshold, policy, same⟩ := h.sizeChanged_frame
  rw [same]
  exact ⟨rfl, rfl, rfl, rfl, rfl, rfl⟩

theorem reworks_checkWatchdog : Reworks checkWatchdog := fun h =>
  ends_checkWatchdog (fun _ _ => .refl h) fun same => ⟨rfl, rfl, rfl, rfl, rfl, same⟩

theorem reworks_runCycle [ObjectModel] (collectSoft : Bool) : Reworks (runCycle collectSoft) := by
  intro h
  have reworked : ∀ {h' : Heap}, (∃ c, h' = h.endCycle c) →
      Source.Steps Source.Operation.reclaims h.source h'.source → Reworked h h' := by
    rintro _ ⟨c, rfl⟩ steps
    have collects := steps.mono fun _ => Source.Operation.collects_of_reclaims
    refine ⟨?_, rfl, rfl, rfl, rfl, rfl⟩
    exact collects.retains Source.outlying_utilization Source.level_utilization
  have ends := (runCycle_frame h collectSoft).and (drives_runCycle collectSoft h)
  exact ends.imp (fun _ _ both => reworked both.1 both.2) fun _ _ both => reworked both.1 both.2

/-! ### What operations show -/

/-- The action leaves what a view shows as it is, also where it breaks off. -/
def Retains {γ : Type} (view : Heap → γ) (a : Action Heap α) : Prop :=
  ∀ shown, a.Preserves fun h => view h = shown

section

variable {γ : Type} {view : Heap → γ}

theorem Retains.then {a : Action Heap α} {next : α → Action Heap β} (first : Retains view a)
    (rest : ∀ value, Retains view (next value)) : Retains view (a >>= next) :=
  fun shown => (first shown).then fun value => rest value shown

theorem retains_pure (value : α) : Retains view (pure value) := fun _ => preserves_pure value

theorem retains_modify {change : Heap → Heap} (keeps : ∀ h, view (change h) = view h) :
    Retains view (modify change) := fun _ => preserves_modify fun h same => (keeps h).trans same

theorem preserves_silent {p : Heap → Prop} {a : Action Heap α} (keeps : a.Preserves p) :
    (silent a).Preserves p := keeps.then fun _ => preserves_pure none

theorem Retains.silent {a : Action Heap α} (retains : Retains view a) : Retains view (silent a) :=
  fun shown => preserves_silent (retains shown)

/-- An action on the arenas, which the condition is not about. -/
theorem preserves_onSource {p : Heap → Prop} (inner : ∀ h source, p h → p { h with source })
    (a : Action Source α) : (onSource a).Preserves p :=
  fun h holds => ends_on.2 ⟨fun _ => inner h _ holds, fun _ => inner h _ holds⟩

theorem retains_onSource (inner : ∀ h source, view { h with source } = view h) (a : Action Source α) :
    Retains view (onSource a) :=
  fun _ => preserves_onSource (fun h source same => (inner h source).trans same) a

/-- An action on the arenas, of which the view shows as much as the action leaves. -/
theorem retains_of_source {view : Source → γ} {a : Action Source α} (retains : Source.Retains view a) :
    Retains (fun h => view h.source) (onSource a) := fun shown h same =>
  ends_on.2 (retains shown h.source same)

theorem Reworks.retains (inner : ∀ {h h'}, h.Reworked h' → view h' = view h) {a : Action Heap α}
    (reworks : Reworks a) : Retains view a :=
  fun _ h same => (reworks h).imp (fun _ _ reworked => (inner reworked).trans same)
    fun _ _ reworked => (inner reworked).trans same

theorem Rests.retains (inner : ∀ {h h'}, Unmoved h h' → view h' = view h) {a : Action Heap α}
    (rests : Rests a) : Retains view a :=
  fun _ h same => (rests h).imp (fun _ _ unmoved => (inner unmoved).trans same)
    fun _ _ unmoved => (inner unmoved).trans same

theorem preserves_afterZygote {p : Heap → Prop} (moves : (onSource Source.afterZygote).Preserves p)
    (started : startWorker.Preserves p) : afterZygote.Preserves p := by
  refine moves.then fun result => ?_
  cases result with
  | error => exact preserves_pure _
  | ok =>
    refine preserves_get fun h holds => ?_
    split
    · exact ends_bind.2 ((started h holds).mono fun _ _ kept => ends_pure.2 kept)
    · exact ends_bind.2 (ends_pure.2 (ends_pure.2 holds))

end

end Heap

/-! ### Conditions on chronicles -/

namespace Chronicle

open Action

variable {α : Type} {p : Chronicle → Prop} {record : Nat}

/-- The condition holds on when the inside of the heap is reworked, and when that is written down. -/
structure Sustained (p : Chronicle → Prop) : Prop where
  reworked : ∀ {c h}, p c → c.heap.Reworked h → p { c with heap := h }
  phases : ∀ {soft c freed h}, p c → c.heap.Reworked h →
    p ({ c with heap := h }.note (.phases soft c.heap freed h))
  review : ∀ {c}, p c → p (c.note (.review c.heap))

theorem Sustained.within (sustained : Sustained p) {a : Action Heap α} (reworks : Heap.Reworks a) :
    (Chronicle.within a).Preserves p := by
  intro c holds
  rw [Chronicle.within, ends_on]
  exact (reworks c.heap).imp (fun _ _ reworked => sustained.reworked holds reworked)
    fun _ _ reworked => sustained.reworked holds reworked

theorem Sustained.reviews (sustained : Sustained p) : Chronicle.review.Preserves p := by
  refine preserves_modify (fun c holds => ?_) |>.then fun _ => sustained.within ?_
  · exact sustained.review holds
  · exact Heap.reworks_sizeChanged

/-- An action on the arenas after which the size is looked at. -/
theorem Sustained.reviewed (sustained : Sustained p) {a : Action Source α}
    (retains : Source.Retains Source.utilization a) : Action.Preserves p (do
      let value ← Chronicle.within (Heap.onSource a)
      Chronicle.review
      return value) :=
  (sustained.within (Heap.reworks_onSource retains)).then fun value =>
    sustained.reviews.then fun _ => preserves_pure value

section

variable [ObjectModel]

theorem Sustained.runCycle (sustained : Sustained p) (soft : Bool) :
    (Chronicle.runCycle soft).Preserves p := by
  intro c holds
  rw [ends_runCycle]
  exact (Heap.reworks_runCycle soft c.heap).imp (fun _ _ reworked => sustained.phases holds reworked)
    fun _ _ reworked => sustained.phases holds reworked

theorem Sustained.collect (sustained : Sustained p) (soft : Bool) :
    (Chronicle.collect soft).Preserves p := by
  have grows : Source.Retains Source.utilization Source.growForUtilization :=
    Source.retains_growForUtilization Source.outlying_utilization Source.level_utilization
  refine (sustained.within Heap.reworks_get).then fun h => ?_
  split
  · exact preserves_pure ()
  · refine (sustained.within (Heap.reworks_modify fun _ => ?_)).then fun _ => ?_
    · exact ⟨rfl, rfl, rfl, rfl, rfl, rfl⟩
    refine (sustained.within Heap.reworks_checkWatchdog).then fun _ => ?_
    refine (sustained.within (Heap.reworks_modify fun _ => ?_)).then fun _ => ?_
    · exact ⟨rfl, rfl, rfl, rfl, rfl, rfl⟩
    refine (sustained.runCycle soft).then fun freed => ?_
    refine (sustained.within (Heap.reworks_onSource grows)).then fun _ => sustained.reviews.then fun _ => ?_
    exact sustained.within (Heap.reworks_modify fun _ => ⟨rfl, rfl, rfl, rfl, rfl, rfl⟩)

/-! Requests count the collections that they ask for. -/

variable (sustained : Sustained p)
  (counted : ∀ {c}, p c → p { c with heap := c.heap.countedFor record })

include sustained counted

theorem Sustained.collectFor (soft : Bool) : (Chronicle.collectFor record soft).Preserves p := by
  refine (sustained.within Heap.reworks_get).then fun h => ?_
  split
  · refine Preserves.then (fun c holds => ?_) fun _ => sustained.collect soft
    exact ends_on.2 (ends_modify.2 (counted holds))
  · exact sustained.collect soft

theorem Sustained.findRoom (size : Nat) : (Chronicle.findRoom record size).Preserves p := by
  have allocs : (Chronicle.within (Heap.onSource (Source.alloc size))).Preserves p :=
    sustained.within (Heap.reworks_onSource (Source.retains_alloc Source.outlying_utilization size))
  have grows : (Chronicle.allocGrowing size).Preserves p :=
    sustained.reviewed
      (Source.retains_allocAndGrow Source.outlying_utilization Source.level_utilization size)
  intro c holds
  exact ends_findRoom (allocs _) (grows _) (fun soft {c} => sustained.collectFor counted soft c) holds

theorem Sustained.findExternalRoom (n : Nat) :
    (Chronicle.findExternalRoom record n).Preserves p := by
  have charges : (Chronicle.within (Heap.onSource (Source.externalAlloc n false))).Preserves p :=
    sustained.within (Heap.reworks_onSource (Source.retains_externalAlloc n false))
  have grows : (Chronicle.growExternal n).Preserves p :=
    sustained.reviewed (Source.retains_externalAlloc n true)
  have looks : (Chronicle.externalPossible n).Preserves p :=
    sustained.within (Heap.reworks_get.then fun _ h =>
      ends_lift.2 ⟨fun _ _ => .refl h, fun _ _ => .refl h⟩)
  have shrinks : (Chronicle.within (Heap.onSource Source.shrinkToIdeal)).Preserves p :=
    sustained.within (Heap.reworks_onSource
      (Source.retains_shrinkToIdeal Source.outlying_utilization Source.level_utilization))
  intro c holds
  exact ends_findExternalRoom (charges _) (grows _)
    (fun soft {c} => sustained.collectFor counted soft c) (looks _) (shrinks _) holds

end

/-! ### Conditions on heaps -/

variable {q : Heap → Prop}

/-- What an action keeps up with things written down, it keeps up without. -/
theorem Erases.preserves {β : Type} {view : α → β} {a : Action Chronicle α} {b : Action Heap β}
    (erases : Erases view a b) (keeps : a.Preserves fun c => q c.heap) : b.Preserves q := by
  intro h holds
  have both := (erases { heap := h }).and (keeps { heap := h } holds)
  cases run : a { heap := h } with
  | ok value c' =>
    obtain ⟨ran, kept⟩ := both.ok run
    rw [ends_of_ok ran]
    exact kept
  | error cause c' =>
    obtain ⟨ran, kept⟩ := both.error run
    rw [ends_of_error ran]
    exact kept

theorem sustained_of_heap (reworked : ∀ {h h'}, q h → h.Reworked h' → q h') :
    Sustained fun c => q c.heap :=
  ⟨fun holds => reworked holds, fun holds => reworked holds, id⟩

end Chronicle

namespace Heap

open Action Chronicle

variable {α : Type} {q : Heap → Prop} {record : Nat} (reworked : ∀ {h h'}, q h → h.Reworked h' → q h')

include reworked

theorem preserves_enter {x : Nat} (tracked : ∀ {h}, q h → q { h with threads := h.threads.track record x })
    (flags : AllocFlags) : (enter record x flags).Preserves q := by
  intro h holds
  apply ends_enter
  case full => exact fun _ _ _ _ => reworked holds ⟨rfl, rfl, rfl, rfl, rfl, rfl⟩
  case entered =>
    rintro finalizable nonCollectable _ - - rfl
    have entered : q { h with tables := { h.tables with finalizable }, nonCollectable } :=
      reworked holds ⟨rfl, rfl, rfl, rfl, rfl, rfl⟩
    split
    · exact entered
    · exact tracked entered

variable [ObjectModel]

theorem preserves_collect (soft : Bool) : (collect soft).Preserves q :=
  (erases_collect soft).preserves ((sustained_of_heap reworked).collect soft)

variable (counted : ∀ {h}, q h → q (h.countedFor record))

include counted

theorem preserves_findRoom (size : Nat) : (findRoom record size).Preserves q :=
  (erases_findRoom record size).preserves ((sustained_of_heap reworked).findRoom counted size)

theorem preserves_findExternalRoom (n : Nat) : (findExternalRoom record n).Preserves q :=
  (erases_findExternalRoom record n).preserves
    ((sustained_of_heap reworked).findExternalRoom counted n)

/-- A request as a whole, where it does not matter what is counted. -/
theorem preserves_request {size : Nat} (counts : ∀ profiling succeeded,
      (countIf profiling record (Profile.countAlloc size succeeded)).Preserves q)
    (tracked : ∀ {h x}, q h → q { h with threads := h.threads.track record x }) (flags : AllocFlags) :
    (request record size flags).Preserves q := by
  refine preserves_get fun h holds => ?_
  refine (preserves_findRoom reworked counted size).then (fun result => ?_) h holds
  have ends : Action.Preserves q (do
      countIf h.profiling record (Profile.countAlloc size result.isSome)
      return result) := (counts _ _).then fun _ => preserves_pure result
  cases result with
  | none => exact ends
  | some x => exact (preserves_enter reworked tracked flags).then fun _ => ends

theorem preserves_requestExternal {n : Nat} (counts : ∀ profiling succeeded,
      (countIf profiling record (Profile.countExternal n succeeded)).Preserves q) :
    (requestExternal record n).Preserves q :=
  (preserves_findExternalRoom reworked counted n).then fun result => preserves_get fun _ holds =>
    ((counts _ _).then fun _ => preserves_pure result) _ holds

end Heap

end ManagedHeap
