import ManagedHeap.Proofs.Contents
import ManagedHeap.Proofs.HeldReferences
import ManagedHeap.Proofs.Reachability
import ManagedHeap.Proofs.Scheduling

/-!
What operations leave pending. All pending work is of live objects, and an operation only adds to it.
While a call of a reference is queued or being made, the referent that the reference holds is neither
swept nor found to be due for its finalizer. A phantom reference is let go only once its referent has no
finalizer left to be called.
-/

namespace ManagedHeap

theorem Source.holds_congr [ObjectModel] {s s' : Source} {x y : Nat}
    (payload : s'.payload x = s.payload x) : s'.holds x y = s.holds x y := by
  rw [holds, holds, defers_congr payload, referent_congr payload]

namespace Heap

open Action

variable {h h' h'' : Heap} {x y r : Nat} {α β : Type}

/-- The references that have calls queued. -/
def queued (h : Heap) : List Nat := h.tables.operations.entries.map Prod.fst

/-- A call on the live object is queued, or it is being made. -/
def Engaged (h : Heap) (x : Nat) : Prop :=
  h.isValid x = true ∧ (x ∈ h.queued ∨ ∃ callback, h.inFlight = some (callback, x))

/-- What holds of the pending work at all times. -/
structure Ready (h : Heap) : Prop where
  sound : h.Sound
  waiting : ∀ x ∈ h.waiting, h.isValid x = true
  queued : ∀ x ∈ h.queued, h.isValid x = true
  finalizing : ∀ x, h.inFlight = some (.finalize, x) → h.isValid x = true

/-- The same work is pending, and a collection starts from the same objects. -/
structure SameWork (h h' : Heap) : Prop where
  config : h'.config = h.config
  finalizable : h'.tables.finalizable = h.tables.finalizable
  pending : h'.tables.pending = h.tables.pending
  operations : h'.tables.operations = h.tables.operations
  current : h'.inFlight = h.inFlight
  rootSet : h'.rootSet = h.rootSet

theorem Alike.work (alike : Alike h h') : SameWork h h' :=
  ⟨alike.config, alike.finalizable, alike.pending, alike.operations, alike.current, alike.rootSet⟩

theorem Ready.congr (ready : h.Ready) (steady : Source.Steady h.source h'.source)
    (config : h'.config = h.config) (finalizable : h'.tables.finalizable = h.tables.finalizable)
    (pending : h'.tables.pending = h.tables.pending)
    (operations : h'.tables.operations = h.tables.operations) (current : h'.inFlight = h.inFlight) :
    h'.Ready where
  sound := ⟨steady.sound, by rw [steady.maximum, ready.sound.maximum, config]⟩
  waiting x waits := by
    rw [Heap.waiting, finalizable, pending] at waits
    exact (steady.published x).trans (ready.waiting x waits)
  queued x due := by
    rw [Heap.queued, operations] at due
    exact (steady.published x).trans (ready.queued x due)
  finalizing x made := (steady.published x).trans (ready.finalizing x (current.symm.trans made))

theorem queuedSince_eq {added : List (Nat × ReferenceWork)}
    (entries : h'.tables.operations.entries = h.tables.operations.entries ++ added) :
    h.queuedSince h' = added := by
  rw [queuedSince, entries, List.drop_left' (WorkQueue.length_entries _)]

theorem queuedSince_of_same (operations : h'.tables.operations = h.tables.operations) :
    h.queuedSince h' = [] := queuedSince_eq (by rw [operations, List.append_nil])

/-- Neither does the object wait for its finalizer, nor does a collection start from it. -/
structure AtRest (h : Heap) (x : Nat) : Prop where
  done : x ∉ h.waiting
  loose : h.isValid x = true → x ∉ h.rootSet

theorem queued_root (due : x ∈ h.queued) : x ∈ h.rootSet :=
  List.mem_append_left _ (List.mem_append_right _ due)

theorem Engaged.root (due : h.Engaged x) : x ∈ h.rootSet := by
  rcases due.2 with queued | ⟨callback, made⟩
  · exact queued_root queued
  · apply List.mem_append_right
    rw [object_inFlight, made]
    exact List.mem_cons_self

theorem pending_root (due : x ∈ h.tables.pending.entries) : x ∈ h.rootSet :=
  List.mem_append_left _ (List.mem_append_left _ (List.mem_append_right _ due))

variable [ObjectModel]

/-- The reference no longer refers to the object, or calls of it were queued. -/
def LetsGo (h h' : Heap) (r x : Nat) : Prop :=
  h'.source.referent? r ≠ some x ∨ ∃ work, (r, work) ∈ h.queuedSince h'

/-- Nothing was allocated, and some work has become due. What a collection starts from goes on living,
and it starts from that again. What references hold is what they held, those whose calls are due have
kept it alive, and it waits for no finalizer that was not due. -/
structure Attended (h h' : Heap) : Prop where
  progress : Progress h h'
  current : h'.inFlight = h.inFlight
  roots : ∀ x ∈ h.rootSet, x ∈ h'.rootSet ∧ (h.isValid x = true → h'.isValid x = true)
  queued : ∃ added, h'.tables.operations.entries = h.tables.operations.entries ++ added
    ∧ ∀ r w, (r, w) ∈ added → h'.isValid r = true ∧ (w.clear = true →
      ∀ y, h'.source.holds r y = true → y ∉ h'.tables.pending.entries)
  pended : ∃ pended, h'.tables.pending.entries = h.tables.pending.entries ++ pended
    ∧ ∀ r, h.Engaged r → ∀ y, h.source.holds r y = true → y ∉ pended
  holds : ∀ r y, h'.isValid r = true → h'.source.holds r y = h.source.holds r y
  referent : ∀ r y, h'.isValid r = true → h'.source.holds r y = true → h.isValid y = true →
    h'.isValid y = true
  kind : ∀ r, h'.isValid r = true → h'.source.kind? r = h.source.kind? r
  phantoms : ∀ r x, h'.isValid r = true → h.source.kind? r = some .phantom →
    h.source.referent? r = some x → h.LetsGo h' r x → h.AtRest x

theorem Attended.ready (attended : Attended h h') (ready : h.Ready) : h'.Ready where
  sound := attended.progress.sound
  waiting x waits := by
    have waits' := attended.progress.waiting.mem_iff.1 waits
    exact attended.progress.kept x waits' (ready.waiting x waits')
  queued x due := by
    obtain ⟨added, entries, fresh⟩ := attended.queued
    rw [Heap.queued, entries, List.map_append, List.mem_append] at due
    rcases due with before | new
    · have root : x ∈ h.rootSet := queued_root before
      exact (attended.roots x root).2 (ready.queued x before)
    · obtain ⟨⟨r, w⟩, member, rfl⟩ := List.mem_map.1 new
      exact (fresh r w member).1
  finalizing x made := by
    have made' := attended.current.symm.trans made
    have here := ready.finalizing x made'
    have engaged : h.Engaged x := ⟨here, .inr ⟨_, made'⟩⟩
    exact (attended.roots x engaged.root).2 here

/-- What was due goes on to be. -/
theorem Attended.still (attended : Attended h h') (due : h.Engaged r) : h'.Engaged r := by
  obtain ⟨added, entries, -⟩ := attended.queued
  refine ⟨(attended.roots r due.root).2 due.1, ?_⟩
  rw [Heap.queued, entries, List.map_append, attended.current]
  exact due.2.imp_left (List.mem_append_left _)

theorem Attended.atRest (attended : Attended h h') (atRest : h'.AtRest x) : h.AtRest x :=
  ⟨fun waits => atRest.done (attended.progress.waiting.mem_iff.2 waits), fun here root =>
    have kept := attended.roots x root
    atRest.loose (kept.2 here) kept.1⟩

theorem Attended.queuedSince (attended : Attended h h') :
    h'.tables.operations.entries = h.tables.operations.entries ++ h.queuedSince h' := by
  obtain ⟨added, entries, -⟩ := attended.queued
  rw [queuedSince_eq entries, entries]

/-- A reference that was let go was let go before or after. -/
theorem Attended.letsGo (first : Attended h h') (second : Attended h' h'') (gone : h.LetsGo h'' r x) :
    h.LetsGo h' r x ∨ h'.LetsGo h'' r x := by
  rcases gone with changed | ⟨work, member⟩
  · exact .inr (.inl changed)
  · have all : h.queuedSince h'' = h.queuedSince h' ++ h'.queuedSince h'' := by
      apply queuedSince_eq
      rw [second.queuedSince, first.queuedSince, List.append_assoc]
    rw [all, List.mem_append] at member
    exact member.imp (fun before => .inr ⟨work, before⟩) fun after => .inr ⟨work, after⟩

theorem Attended.trans (first : Attended h h') (second : Attended h' h'') : Attended h h'' := by
  obtain ⟨added, operations, fresh⟩ := first.queued
  obtain ⟨pended, pending, spared⟩ := first.pended
  obtain ⟨added', operations', fresh'⟩ := second.queued
  obtain ⟨pended', pending', spared'⟩ := second.pended
  refine ⟨first.progress.trans second.progress, second.current.trans first.current,
    fun x root => ?_, ⟨added ++ added', ?_, fun r w member => ?_⟩,
    ⟨pended ++ pended', ?_, fun r due y holds => ?_⟩, fun r y there => ?_,
    fun r y there holds here => ?_, fun r there => ?_, fun r x there isPhantom refers gone => ?_⟩
  · have kept := first.roots x root
    have kept' := second.roots x kept.1
    exact ⟨kept'.1, fun here => kept'.2 (kept.2 here)⟩
  · rw [operations', operations, List.append_assoc]
  · rcases List.mem_append.1 member with before | after
    · have due : h'.Engaged r := by
        refine ⟨(fresh r w before).1, .inl ?_⟩
        rw [Heap.queued, operations]
        exact List.mem_map_of_mem (List.mem_append_right _ before)
      have live := (second.still due).1
      refine ⟨live, fun clears y holds => ?_⟩
      have holds' := (second.holds r y live).symm.trans holds
      rw [pending', List.mem_append, not_or]
      exact ⟨(fresh r w before).2 clears y holds', spared' r due y holds'⟩
    · exact fresh' r w after
  · rw [pending', pending, List.append_assoc]
  · have due' := first.still due
    have holds' := (first.holds r y due'.1).trans holds
    rw [List.mem_append, not_or]
    exact ⟨spared r due y holds, spared' r due' y holds'⟩
  · exact (second.holds r y there).trans (first.holds r y (second.progress.live r there))
  · have holds' := (second.holds r y there).symm.trans holds
    exact second.referent r y there holds
      (first.referent r y (second.progress.live r there) holds' here)
  · exact (second.kind r there).trans (first.kind r (second.progress.live r there))
  · have there' := second.progress.live r there
    by_cases before : h.LetsGo h' r x
    · exact first.phantoms r x there' isPhantom refers before
    · have refers' : h'.source.referent? r = some x := by
        by_contra changed
        exact before (.inl changed)
      have after := (first.letsGo second gone).resolve_left before
      have isPhantom' := (first.kind r there').trans isPhantom
      exact first.atRest (second.phantoms r x there isPhantom' refers' after)

/-- The live objects hold what they held, and no work was done. -/
theorem Ready.attended (ready : h.Ready) (same : SameWork h h')
    (steady : Source.Steady h.source h'.source) (intact : h.source.Intact h'.source) :
    Attended h h' where
  progress := ready.sound.progress_of_steady steady same.config same.finalizable same.pending
  current := same.current
  roots x root := ⟨same.rootSet ▸ root, (steady.published x).trans⟩
  queued := by
    refine ⟨[], ?_, fun _ _ none => absurd none List.not_mem_nil⟩
    rw [same.operations, List.append_nil]
  pended := by
    refine ⟨[], ?_, fun _ _ _ _ => List.not_mem_nil⟩
    rw [same.pending, List.append_nil]
  holds r y there := Source.holds_congr
    (ready.sound.source.payload_intact steady.sound intact ((steady.published r).symm.trans there))
  referent _ y _ _ here := (steady.published y).trans here
  kind r there := by
    have live := (steady.published r).symm.trans there
    rw [Source.kind?, ready.sound.source.payload_intact steady.sound intact live, Source.kind?]
  phantoms r x there _ refers gone := by
    have live := (steady.published r).symm.trans there
    have payload := ready.sound.source.payload_intact steady.sound intact live
    rcases gone with changed | ⟨work, member⟩
    · exact absurd ((Source.referent_congr payload).trans refers) changed
    · rw [queuedSince_of_same same.operations] at member
      cases member

theorem Ready.attended_of_same (ready : h.Ready) (same : SameWork h h')
    (source : h'.source = h.source) : Attended h h' := by
  refine ready.attended same ?_ ?_
  · rw [source]
    exact ready.sound.source.steady
  · rw [source]
    exact .refl _

theorem Ready.refl (ready : h.Ready) : Attended h h :=
  ready.attended_of_same ⟨rfl, rfl, rfl, rfl, rfl, rfl⟩ rfl

/-! ### Composing actions -/

/-- An action that comes to its end has attended to the pending work. -/
def Attends (a : Action Heap α) : Prop :=
  ∀ h, h.Ready → a.Ends h (fun _ h' => Attended h h') fun _ _ => True

/-- What the action comes to is counted from where the pending work was attended to before. -/
theorem Attends.since {a : Action Heap α} (attends : Attends a) (ready : h.Ready) (attended : Attended h h') :
    a.Ends h' (fun _ h'' => Attended h h'') fun _ _ => True :=
  (attends h' (attended.ready ready)).mono fun _ _ more => attended.trans more

theorem Attends.then {a : Action Heap α} {next : α → Action Heap β} (first : Attends a)
    (rest : ∀ value, Attends (next value)) : Attends (a >>= next) := by
  intro h ready
  rw [ends_bind]
  exact (first h ready).mono fun value h₁ attended => (rest value).since ready attended

theorem attends_pure (value : α) : Attends (pure value : Action Heap α) :=
  fun _ ready => ends_pure.2 ready.refl

theorem attends_get {next : Heap → Action Heap α} (rest : ∀ h, h.Ready → (next h).Ends h
    (fun _ h' => Attended h h') fun _ _ => True) : Attends (get >>= next) :=
  fun h ready => ends_bind.2 (ends_get.2 (rest h ready))

theorem attends_modify {change : Heap → Heap} (same : ∀ h, SameWork h (change h))
    (source : ∀ h, (change h).source = h.source) : Attends (modify change) :=
  fun h ready => ends_modify.2 (ready.attended_of_same (same h) (source h))

/-- An action on the arenas that leaves the live objects and what they hold alone. -/
theorem attends_onSource {a : Action Source α}
    (spec : ∀ s, s.Sound → a.Ends s (fun _ s' => Source.Steady s s')
      fun _ s' => Source.Broken s s')
    (intact : ∀ s, s.Sound → a.Ends s (fun _ s' => s.Intact s') fun _ _ => True) :
    Attends (onSource a) := by
  intro h ready
  simp only [onSource, ends_on]
  refine ((spec _ ready.sound.source).and (intact _ ready.sound.source)).imp ?_ fun _ _ _ => trivial
  rintro value s ⟨steady, kept⟩
  exact ready.attended ⟨rfl, rfl, rfl, rfl, rfl, rfl⟩ steady kept

theorem attends_resizes {a : Action Source α} (resizes : Source.Resizes a) :
    Attends (onSource a) :=
  attends_onSource (fun _ sound => resizes.spec sound) fun s _ => resizes.intact s

theorem attends_shrinkToIdeal : Attends (onSource Source.shrinkToIdeal) :=
  attends_onSource (fun _ sound => Source.shrinkToIdeal_spec sound) fun _ sound =>
    Source.shrinkToIdeal_intact sound

theorem attends_sizeChanged : Attends (modify sizeChanged) := by
  refine attends_modify (fun h => ?_) fun h => ?_
  all_goals
    obtain ⟨threshold, policy, same⟩ := h.sizeChanged_frame
    rw [same]
  exact ⟨rfl, rfl, rfl, rfl, rfl, rfl⟩

/-! ### Collecting -/

/-- What was let go is what might be. -/
theorem acts_of_letsGo {acts : Nat → Prop}
    (confined : Cycle.Confined h.source acts h.beginCycle h'.beginCycle) (live : h.isValid r = true)
    (refers : h.source.referent? r = some x) (gone : h.LetsGo h' r x) : acts r := by
  obtain ⟨payload, added, entries, each⟩ := confined
  by_contra still
  rcases gone with changed | ⟨work, member⟩
  · exact changed ((Source.referent_congr (payload r live still)).trans refers)
  · rw [queuedSince_eq entries] at member
    exact still (each r work member)

/-- Where a collection may let a phantom reference go, its referent is no root and does not wait for a
first finalizer. -/
theorem Ready.atRest_of_loose (ready : h.Ready) {policy : SoftPolicy}
    (loose : h.source.Loose h.tables h.rootSet policy r) (isPhantom : h.source.kind? r = some .phantom)
    (refers : h.source.referent? r = some x) : h.AtRest x := by
  obtain ⟨-, y, refers', weak, unfinished⟩ := loose
  cases refers.symm.trans refers'
  refine ⟨fun waits => ?_, fun here root => weak (.root root here)⟩
  have here := ready.waiting x waits
  rcases rootSet_of_waiting waits with root | entry
  · exact weak (.root root here)
  · exact unfinished isPhantom here entry

section Schedules

variable {added : List (Nat × ReferenceWork)} {pended : List Nat}

/-- The references that are left hold what they held. -/
theorem Collected.holds (collected : Collected h h')
    (schedules : Cycle.Schedules h.rootSet h.source h.tables h'.source h'.tables added pended)
    (there : h'.isValid r = true) (y : Nat) : h'.source.holds r y = h.source.holds r y := by
  have collects := collected.collects
  cases deferring : h.source.defers r with
  | true =>
    exact Source.holds_congr (schedules.deferring r (collects.reached r there).live deferring)
  | false =>
    rw [Source.holds, (collects.kept r there).defers, Source.holds, deferring]
    rfl

/-- A collection starts from all that the one before started from. -/
theorem Collected.rooted (collected : Collected h h')
    (schedules : Cycle.Schedules h.rootSet h.source h.tables h'.source h'.tables added pended)
    (current : h'.inFlight = h.inFlight) (root : x ∈ h.rootSet) : x ∈ h'.rootSet := by
  simp only [rootSet, List.mem_append, object_inFlight, collected.roots, collected.threads,
    collected.nonCollectable, schedules.pending, schedules.operations, current,
    List.map_append] at root ⊢
  tauto

/-- The referent of a reference with a call due is found before the objects to finalize are. What comes
to be pending waited before, so that it lives. -/
theorem Ready.not_pended (ready : h.Ready) (collected : Collected h h')
    (schedules : Cycle.Schedules h.rootSet h.source h.tables h'.source h'.tables added pended)
    (there : h'.isValid r = true) (known : r ∈ h.rootSet ∨ ∃ w, (r, w) ∈ added)
    (held : h'.source.holds r y = true) : y ∉ pended := by
  intro member
  have collects := collected.collects
  have live : h.isValid y = true := by
    obtain ⟨keeps, -, pending⟩ := collects.due
    have due := member
    rw [List.append_cancel_left (schedules.pending.symm.trans pending)] at due
    exact ready.waiting y (List.mem_append_left _ (List.mem_of_mem_filter due))
  have before := Source.holds_iff.1 ((collected.holds schedules there y).symm.trans held)
  exact schedules.spared r y (collects.reached r there).live known before.1
    (Source.holds_iff.1 held).2 live member

/-- What a collection has done to the tables. -/
theorem Ready.attended_of_schedules (ready : h.Ready) (collected : Collected h h')
    (current : h'.inFlight = h.inFlight) {policy : SoftPolicy}
    (confined : Cycle.Confined h.source (h.source.Loose h.tables h.rootSet policy) h.beginCycle
      h'.beginCycle)
    (schedules : Cycle.Schedules h.rootSet h.source h.tables h'.source h'.tables added pended) :
    Attended h h' where
  progress := collected.progress ready.sound
  current := current
  roots x root := ⟨collected.rooted schedules current root, collected.collects.roots x root⟩
  queued := by
    refine ⟨added, schedules.operations, fun r w member => ?_⟩
    obtain ⟨there, -, unmarked⟩ := schedules.work r w member
    refine ⟨there, fun clears y held => ?_⟩
    rw [schedules.pending, List.mem_append, not_or]
    refine ⟨fun due => ?_, ready.not_pended collected schedules there (.inr ⟨w, member⟩) held⟩
    have here := ready.waiting y (List.mem_append_right _ due)
    exact unmarked clears y (pending_root due) here (Source.holds_iff.1 held).2
  pended := by
    refine ⟨pended, schedules.pending, fun r due y held => ?_⟩
    have there := collected.collects.roots r due.root due.1
    have held' := (collected.holds schedules there y).trans held
    exact ready.not_pended collected schedules there (.inl due.root) held'
  holds r y there := collected.holds schedules there y
  referent r y there held here := by
    have held' := Source.holds_iff.1 held
    refine collected.collects.referent r y there ?_ held'.2 here
    rw [(collected.collects.kept r there).defers, Source.defers_iff] at held'
    rcases held'.1.1 with soft | weak
    · rw [soft]; rfl
    · rw [weak]; rfl
  kind r there := (collected.collects.kept r there).kind
  phantoms r x there isPhantom refers gone := by
    have live := (collected.collects.reached r there).live
    exact ready.atRest_of_loose (acts_of_letsGo confined live refers gone) isPhantom refers

end Schedules

theorem attends_runCycle (collectSoft : Bool) : Attends (runCycle collectSoft) := by
  intro h ready
  have collects := (runCycle_spec ready.sound collectSoft).and
    (runCycle_confined ready.sound.source collectSoft)
  simp only [runCycle, ends_bind, ends_get, ends_on] at collects ⊢
  refine (collects.and (Cycle.run_schedules ready.sound.source rfl _ _)).imp ?_
    fun _ _ _ => trivial
  rintro freed c ⟨⟨collected, confined⟩, added, pended, schedules⟩
  exact ready.attended_of_schedules collected rfl (confined.mono fun r here => here.toLoose) schedules

theorem attends_checkWatchdog : Attends checkWatchdog := fun _ ready =>
  (checkWatchdog_spec ready.sound).imp
    (fun _ _ alike => ready.attended_of_same alike.work alike.source) fun _ _ _ => trivial

theorem attends_collect (collectSoft : Bool) : Attends (collect collectSoft) := by
  have began : Attends (modify fun h : Heap => { h with collecting := true }) :=
    attends_modify (fun _ => ⟨rfl, rfl, rfl, rfl, rfl, rfl⟩) fun _ => rfl
  have retained : Attends (modify retainScheduled) :=
    attends_modify (fun _ => ⟨rfl, rfl, rfl, rfl, rfl, rfl⟩) fun _ => rfl
  have counted : ∀ objects bytes, Attends (modify (·.countCycle objects bytes)) :=
    fun _ _ => attends_modify (fun _ => ⟨rfl, rfl, rfl, rfl, rfl, rfl⟩) fun _ => rfl
  refine attends_get fun h ready => ?_
  split
  · exact attends_pure () h ready
  · exact (began.then fun _ => attends_checkWatchdog.then fun _ => retained.then fun _ =>
      (attends_runCycle collectSoft).then fun freed =>
        (attends_resizes Source.resizes_growForUtilization).then fun _ =>
          attends_sizeChanged.then fun _ => counted freed.1 freed.2) h ready

theorem attends_collectFor (record : Nat) (collectSoft : Bool) :
    Attends (collectFor record collectSoft) := fun _ ready =>
  ends_collectFor ready.refl (ready.attended_of_same ⟨rfl, rfl, rfl, rfl, rfl, rfl⟩ rfl)
    ((attends_collect collectSoft).since ready)

/-! ### Requests for external memory -/

theorem attends_externalAlloc (n : Nat) (grow : Bool) :
    Attends (onSource (Source.externalAlloc n grow)) :=
  attends_resizes (Source.resizes_externalAlloc n grow)

theorem attends_findExternalRoom (record n : Nat) : Attends (findExternalRoom record n) := by
  intro h ready
  have sized : ∀ {h'}, Attended h h' → Attended h h'.sizeChanged := fun {h'} attended =>
    attended.trans (ends_modify.1 (attends_sizeChanged h' (attended.ready ready)))
  exact ends_findExternalRoom (fun grow {_} => (attends_externalAlloc n grow).since ready) sized
    (fun soft {_} => (attends_collectFor record soft).since ready) (attends_shrinkToIdeal.since ready)
    (fun _ => trivial) ready.refl

/-! ### Requests for objects -/

omit [ObjectModel] in
/-- An object was allocated, and nothing else was done to the live objects and the pending work. -/
structure Allotted (h : Heap) (x : Nat) (h' : Heap) : Prop where
  gains : Source.Gains h.source x h'.source
  intact : h.source.Intact h'.source
  config : h'.config = h.config
  waiting : ∀ y ∈ h'.waiting, y = x ∨ y ∈ h.waiting
  pending : h'.tables.pending = h.tables.pending
  operations : h'.tables.operations = h.tables.operations
  current : h'.inFlight = h.inFlight

/-- What a request has come to. -/
def Supplied (h : Heap) (result : Option Nat) (h' : Heap) : Prop :=
  match result with
  | none => Attended h h'
  | some x => ∃ h₁, Attended h h₁ ∧ Allotted h₁ x h'

/-- An action on a heap that may grow has attended to the pending work before it found room. -/
def Supplies (a : Action Heap (Option Nat)) : Prop :=
  ∀ h, h.Ready → 0 < h.config.maximumSize → a.Ends h (Supplied h) fun _ _ => True

theorem Supplied.after {result : Option Nat} (first : Attended h h')
    (second : Supplied h' result h'') : Supplied h result h'' := by
  cases result with
  | none => exact first.trans second
  | some x =>
    obtain ⟨h₁, attended, allotted⟩ := second
    exact ⟨h₁, first.trans attended, allotted⟩

omit [ObjectModel] in
theorem Allotted.besides (allotted : Allotted h x h') (besides : Besides h' h'') :
    Allotted h x h'' where
  gains := besides.source ▸ allotted.gains
  intact := besides.source ▸ allotted.intact
  config := besides.config.trans allotted.config
  waiting y waits := by
    rw [Heap.waiting, besides.tables] at waits
    exact allotted.waiting y waits
  pending := besides.tables ▸ allotted.pending
  operations := besides.tables ▸ allotted.operations
  current := besides.current.trans allotted.current

omit [ObjectModel] in
/-- The new object is none of those that lived when the room was found. -/
theorem Allotted.kept (allotted : Allotted h x h') (here : h.isValid y = true) :
    h'.isValid y = true ∧ some x ≠ some y := by
  refine ⟨(allotted.gains.published y).2 (.inr here), fun same => ?_⟩
  cases same
  have fresh := allotted.gains.fresh
  rw [show h.source.isPublished x = true from here] at fresh
  cases fresh

omit [ObjectModel] in
theorem Allotted.ready (allotted : Allotted h x h') (ready : h.Ready) : h'.Ready where
  sound := by
    refine ⟨allotted.gains.sound, ?_⟩
    rw [allotted.gains.maximum, allotted.config, ready.sound.maximum]
  waiting y waits := by
    rcases allotted.waiting y waits with rfl | before
    · exact (allotted.gains.published y).2 (.inl rfl)
    · exact (allotted.kept (ready.waiting y before)).1
  queued r due := by
    rw [Heap.queued, allotted.operations] at due
    exact (allotted.kept (ready.queued r due)).1
  finalizing y made := by
    have made' := allotted.current.symm.trans made
    exact (allotted.kept (ready.finalizing y made')).1

theorem supplies_onSource {attempt : Action Source (Option Nat)}
    (spec : ∀ s : Source, s.Sound → 0 < s.absoluteMax →
      attempt.Ends s (Source.Attempted s) fun _ s' => Source.Broken s s')
    (intact : ∀ s : Source, s.Sound → 0 < s.absoluteMax →
      attempt.Ends s (fun _ s' => s.Intact s') fun _ _ => True) :
    Supplies (onSource attempt) := by
  intro h ready room
  rw [← ready.sound.maximum] at room
  simp only [onSource, ends_on]
  refine ((spec _ ready.sound.source room).and (intact _ ready.sound.source room)).imp ?_
    fun _ _ _ => trivial
  rintro (_ | x) s ⟨attempted, kept⟩
  · exact ready.attended ⟨rfl, rfl, rfl, rfl, rfl, rfl⟩ attempted kept
  · exact ⟨h, ready.refl, attempted, kept, rfl, fun _ waits => .inr waits, rfl, rfl, rfl⟩

theorem supplies_alloc (size : Nat) : Supplies (onSource (Source.alloc size)) :=
  supplies_onSource (fun _ sound room => Source.alloc_spec sound room size) fun _ sound _ =>
    Source.alloc_intact sound size

theorem supplies_allocGrowing (size : Nat) : Supplies (allocGrowing size) := by
  have attempts : Supplies (onSource (Source.allocAndGrow size)) :=
    supplies_onSource (fun _ sound room => Source.allocAndGrow_spec sound room size)
      fun _ sound _ => Source.allocAndGrow_intact sound size
  intro h ready room
  refine ends_allocGrowing ((attempts h ready room).mono fun result h' supplied => ?_)
  cases result with
  | none =>
    have attended : Attended h h' := supplied
    exact attended.trans (ends_modify.1 (attends_sizeChanged h' (attended.ready ready)))
  | some x =>
    obtain ⟨h₁, attended, allotted⟩ := supplied
    obtain ⟨threshold, policy, same⟩ := h'.sizeChanged_frame
    refine ⟨h₁, attended, ?_⟩
    rw [same]
    exact allotted.besides ⟨⟨rfl, rfl, rfl, rfl⟩, rfl⟩

/-- What comes of an action on a heap whose pending work was attended to. -/
theorem Supplies.since {a : Action Heap (Option Nat)} (supplies : Supplies a) (ready : h.Ready)
    (room : 0 < h.config.maximumSize) (attended : Attended h h') :
    a.Ends h' (Supplied h) fun _ _ => True :=
  (supplies h' (attended.ready ready) (attended.progress.config ▸ room)).mono
    fun _ _ supplied => supplied.after attended

theorem findRoom_supplied (ready : h.Ready) (record size : Nat) :
    (findRoom record size).Ends h (Supplied h) fun _ _ => True := by
  have room : size < h.source.absoluteMax → 0 < h.config.maximumSize := by
    intro fits
    rw [← ready.sound.maximum]
    omega
  exact ends_findRoom ready.refl (fun fits {_} => (supplies_alloc size).since ready (room fits))
    (fun fits {_} => (supplies_allocGrowing size).since ready (room fits))
    fun soft {_} => (attends_collectFor record soft).since ready

omit [ObjectModel] in
theorem Allotted.sidestep {step : Action Heap Unit} (allotted : Allotted h x h')
    (sidesteps : Sidesteps step) :
    step.Ends h' (fun _ h'' => Allotted h x h'') fun _ _ => True :=
  (sidesteps h').imp (fun _ _ besides => allotted.besides besides) fun _ _ _ => trivial

omit [ObjectModel] in
theorem enter_allotted (allotted : Allotted h x h') (record : Nat) (flags : AllocFlags) :
    (enter record x flags).Ends h' (fun _ h'' => Allotted h x h'') fun _ _ => True := by
  apply ends_enter
  case full => exact fun _ _ _ _ => trivial
  case entered =>
    intro _ _ _ waits _ _
    refine ⟨allotted.gains, allotted.intact, allotted.config, fun y later => ?_, allotted.pending,
      allotted.operations, allotted.current⟩
    rcases waits with ⟨-, rfl⟩ | ⟨-, push⟩
    · exact allotted.waiting y later
    · rcases List.mem_cons.1 ((waiting_push push).mem_iff.1 later) with rfl | before
      · exact .inl rfl
      · exact allotted.waiting y before

/-! ### Operations -/

omit [ObjectModel] in
/-- The object at the address, if there was one, is still there. -/
def Spared (h : Heap) (result : Option Nat) (h' : Heap) (y : Nat) : Prop :=
  h.isValid y = true → h'.isValid y = true ∧ result ≠ some y

/-- What an operation leaves pending, which is no work on a new object. The references whose calls are due
hold what they held, unless they were written to, and what they hold is spared. -/
structure Conducted (op : Operation) (h : Heap) (result : Option Nat) (h' : Heap) : Prop where
  ready : h'.Ready
  current : h'.inFlight = h.inFlight
  roots : ∀ x ∈ h.rootSet, Spared h result h' x
  fresh : ∀ x, result = some x → x ∉ h'.queued ∧ x ∉ h'.tables.pending.entries
  engaged : ∀ r, h.Engaged r → h'.Engaged r
  queued : ∃ added, h'.tables.operations.entries = h.tables.operations.entries ++ added
    ∧ ∀ r w, (r, w) ∈ added → w.clear = true → ∀ y, h'.source.holds r y = true →
      y ∉ h'.tables.pending.entries ∧ Spared h result h' y
  pended : ∃ pended, h'.tables.pending.entries = h.tables.pending.entries ++ pended
    ∧ ∀ r, h.Engaged r → ∀ y, h.source.holds r y = true → y ∉ pended
  kept : ∀ r, h.Engaged r → ∀ y, h.source.holds r y = true →
    (op.isWrite = true → h'.source.holds r y = true) →
    h'.source.holds r y = true ∧ Spared h result h' y
  phantoms : op.isWrite = false → ∀ r x, h'.isValid r = true → result ≠ some r →
    h.source.kind? r = some .phantom → h.source.referent? r = some x → h.LetsGo h' r x → h.AtRest x

variable {op : Operation} {result : Option Nat}

theorem Attended.conducted (attended : Attended h h') (ready : h.Ready) :
    Conducted op h none h' := by
  obtain ⟨added, operations, fresh⟩ := attended.queued
  have spared : ∀ r, h'.isValid r = true → ∀ y, h'.source.holds r y = true → Spared h none h' y :=
    fun r there y held here => ⟨attended.referent r y there held here, nofun⟩
  refine ⟨attended.ready ready, attended.current,
    fun x root here => ⟨(attended.roots x root).2 here, nofun⟩, nofun, fun r => attended.still,
    ⟨added, operations, fun r w member clears y held => ?_⟩, attended.pended,
    fun r due y held _ => ?_, fun _ r x there _ => attended.phantoms r x there⟩
  · obtain ⟨there, absent⟩ := fresh r w member
    exact ⟨absent clears y held, spared r there y held⟩
  · have there := (attended.still due).1
    have held' := (attended.holds r y there).trans held
    exact ⟨held', spared r there y held'⟩

theorem Attended.conducted_allotted {h₁ : Heap} (attended : Attended h h₁)
    (allotted : Allotted h₁ x h') (ready : h.Ready) : Conducted op h (some x) h' := by
  have ready₁ := attended.ready ready
  have payload : ∀ r, h₁.isValid r = true → h'.source.payload r = h₁.source.payload r :=
    fun r there =>
      ready₁.sound.source.payload_intact allotted.gains.sound allotted.intact there
  have spared : ∀ y, Spared h none h₁ y → Spared h (some x) h' y :=
    fun y spared here => allotted.kept (spared here).1
  have unused : h₁.isValid x = false := allotted.gains.fresh
  obtain ⟨-, current, roots, -, engaged, ⟨added, operations, fresh⟩, pended, kept, -⟩ :=
    (attended.conducted ready : Conducted .endCall h none h₁)
  refine ⟨allotted.ready ready₁, allotted.current.trans current,
    fun y root => spared y (roots y root), fun y new => ?_, fun r due => ?_,
    ⟨added, allotted.operations ▸ operations, fun r w member clears y held => ?_⟩,
    allotted.pending ▸ pended, fun r due y held _ => ?_,
    fun _ r y there other isPhantom refers gone => ?_⟩
  · obtain rfl : x = y := Option.some.inj new
    rw [Heap.queued, allotted.operations, allotted.pending]
    refine ⟨fun due => ?_, fun due => ?_⟩
    · rw [ready₁.queued x due] at unused
      cases unused
    · rw [ready₁.waiting x (List.mem_append_right _ due)] at unused
      cases unused
  · obtain ⟨there, due'⟩ := engaged r due
    refine ⟨(allotted.kept there).1, ?_⟩
    rwa [Heap.queued, allotted.operations, allotted.current]
  · have there : h₁.isValid r = true := by
      apply ready₁.queued
      rw [Heap.queued, operations]
      exact List.mem_map_of_mem (List.mem_append_right _ member)
    rw [Source.holds_congr (payload r there)] at held
    obtain ⟨absent, here⟩ := fresh r w member clears y held
    rw [allotted.pending]
    exact ⟨absent, spared y here⟩
  · obtain ⟨held', here⟩ := kept r due y held Bool.noConfusion
    exact ⟨(Source.holds_congr (payload r (engaged r due).1)).trans held', spared y here⟩
  · have there₁ : h₁.isValid r = true := by
      refine ((allotted.gains.published r).1 there).resolve_left ?_
      rintro rfl
      exact other rfl
    refine attended.phantoms r y there₁ isPhantom refers ?_
    have queued : h.queuedSince h' = h.queuedSince h₁ := by
      rw [Heap.queuedSince, Heap.queuedSince, allotted.operations]
    rw [LetsGo, Source.referent_congr (payload r there₁), queued] at gone
    exact gone

theorem Conducted.besides (conducted : Conducted op h result h') (besides : Besides h' h'') :
    Conducted op h result h'' := by
  obtain ⟨ready, current, roots, fresh, engaged, queued, pended, kept, phantoms⟩ := conducted
  obtain ⟨⟨config, source, tables, -⟩, current'⟩ := besides
  have valid : ∀ x, h''.isValid x = h'.isValid x := fun x => by rw [isValid, isValid, source]
  have spared : ∀ y, Spared h result h'' y = Spared h result h' y := fun y => by
    rw [Spared, Spared, valid]
  refine ⟨?_, current'.trans current, fun x root => spared x ▸ roots x root, ?_, fun r due => ?_, ?_,
    ?_, fun r due y held writes => ?_, fun plain r x there other isPhantom refers gone => ?_⟩
  · refine ready.congr (source ▸ ready.sound.source.steady) config ?_ ?_ ?_ current'
    · rw [tables]
    · rw [tables]
    · rw [tables]
  · rw [Heap.queued, tables]
    exact fresh
  · rw [Engaged, valid, Heap.queued, tables, current']
    exact engaged r due
  · simpa only [tables, source, spared] using queued
  · rw [tables]
    exact pended
  · rw [source] at writes ⊢
    rw [spared]
    exact kept r due y held writes
  · rw [valid] at there
    rw [LetsGo, source, queuedSince, tables] at gone
    exact phantoms plain r x there other isPhantom refers gone

theorem request_conducted (ready : h.Ready) (record size : Nat) (flags : AllocFlags) :
    (request record size flags).Ends h (Conducted op h) fun _ _ => True := by
  have counts : ∀ succeeded, Sidesteps (countIf h.profiling record
      (Profile.countAlloc size succeeded)) := fun succeeded =>
    sidesteps_countIf _ record (countAlloc_spares size succeeded)
  simp only [request, ends_bind, ends_get]
  refine (findRoom_supplied ready record size).mono fun result h₁ supplied => ?_
  cases result with
  | none =>
    have conducted : Conducted op h none h₁ := Attended.conducted supplied ready
    simp only [ends_bind, ends_pure]
    exact (counts false h₁).imp (fun _ _ besides => conducted.besides besides) fun _ _ _ => trivial
  | some x =>
    obtain ⟨h₀, attended, allotted⟩ := supplied
    simp only [ends_bind, ends_pure]
    refine (enter_allotted allotted record flags).mono fun _ h₂ entered => ?_
    exact (entered.sidestep (counts true)).mono fun _ _ counted =>
      attended.conducted_allotted counted ready

theorem Ready.conducted_write (ready : h.Ready) (object index count value : Nat) :
    Conducted (.write object index count value) h none
      { h with source := h.source.setWords object index count value } := by
  have steady := ready.sound.source.steady_setWords object index count value
  refine ⟨ready.congr steady rfl rfl rfl rfl rfl, rfl,
    fun x _ here => ⟨(steady.published x).trans here, nofun⟩, nofun,
    fun r due => ⟨(steady.published r).trans due.1, due.2⟩, ⟨[], (List.append_nil _).symm, ?_⟩,
    ⟨[], (List.append_nil _).symm, ?_⟩, fun r _ y _ held => ⟨held rfl, fun here => ?_⟩,
    fun plain => Bool.noConfusion plain⟩
  · exact fun _ _ none => absurd none List.not_mem_nil
  · exact fun _ _ _ _ => List.not_mem_nil
  · exact ⟨(steady.published y).trans here, nofun⟩

/-- The action attends to the pending work, and what it does to the rest it does at the end. -/
def Concludes (a : Action Heap α) : Prop :=
  ∀ h, h.Ready → a.Ends h (fun _ h' => ∃ h₁, Attended h h₁ ∧ Besides h₁ h') fun _ _ => True

theorem Attends.concludes {a : Action Heap α} (attends : Attends a) : Concludes a :=
  fun h ready => (attends h ready).mono fun _ h' attended =>
    ⟨h', attended, ⟨⟨rfl, rfl, rfl, rfl⟩, rfl⟩⟩

theorem Sidesteps.concludes {a : Action Heap α} (sidesteps : Sidesteps a) : Concludes a :=
  fun h ready => (sidesteps h).imp (fun _ _ besides => ⟨h, ready.refl, besides⟩) fun _ _ _ => trivial

theorem Attends.followed {a : Action Heap α} {next : α → Action Heap β} (first : Attends a)
    (rest : ∀ value, Concludes (next value)) : Concludes (a >>= next) := by
  intro h ready
  rw [ends_bind]
  refine (first h ready).mono fun value h₁ attended => ?_
  refine (rest value h₁ (attended.ready ready)).mono ?_
  rintro _ h₂ ⟨h₃, more, besides⟩
  exact ⟨h₃, attended.trans more, besides⟩

theorem Concludes.silent {step : Action Heap α} (concludes : Concludes step) (ready : h.Ready) :
    (silent step).Ends h (fun result h' => Conducted op h result h') fun _ _ => True := by
  simp only [Heap.silent, ends_bind, ends_pure]
  refine (concludes h ready).mono ?_
  rintro _ h₂ ⟨h₁, attended, besides⟩
  exact (attended.conducted ready).besides besides

theorem concludes_afterZygote : Concludes afterZygote := by
  refine (attends_onSource (fun _ sound => Source.afterZygote_spec sound)
    fun s _ => Source.afterZygote_intact s).followed fun result => ?_
  cases result with
  | error => exact (attends_pure _).concludes
  | ok =>
    intro h ready
    rw [ends_bind, ends_get]
    split
    · exact (sidesteps_startWorker.then fun _ => sidesteps_pure _).concludes h ready
    · exact (attends_pure _).concludes h ready

theorem concludes_requestExternal (record n : Nat) : Concludes (requestExternal record n) := by
  refine (attends_findExternalRoom record n).followed fun result h ready => ?_
  rw [ends_bind, ends_get]
  have counts := sidesteps_countIf h.profiling record (countExternal_spares n result.toBool)
  exact (counts.then fun _ => sidesteps_pure result).concludes h ready

theorem attends_setMinimum (size : Nat) : Attends (setMinimum size) :=
  (attends_resizes (Source.resizes_setMinimum size)).then fun _ =>
    attends_sizeChanged.then fun _ => attends_pure _

/-- A change that steers the arenas, or exchanges their bitmaps. -/
theorem attends_figures (change : Source → Source)
    (steady : ∀ s : Source, s.Sound → Source.Steady s (change s))
    (intact : ∀ s : Source, s.Intact (change s)) :
    Attends (modify fun h => { h with source := change h.source }) := fun h ready =>
  ends_modify.2 (ready.attended ⟨rfl, rfl, rfl, rfl, rfl, rfl⟩ (steady h.source ready.sound.source)
    (intact h.source))

theorem attends_replaceBitmaps (numbers : List Nat) : Attends (modify (·.replaceBitmaps numbers)) := by
  simp only [replaceBitmaps_eq]
  exact attends_figures (·.replaceCurrent numbers) (fun _ sound => sound.steady_replaceCurrent numbers)
    fun s => s.replaceCurrent_intact numbers

theorem perform_conducted (ready : h.Ready) (whole : op.isWhole = true) :
    (perform op).Ends h (Conducted op h) fun _ _ => True := by
  have aside : ∀ {change : Heap → Heap}, (∀ h, Besides h (change h)) →
      (silent (modify change)).Ends h (Conducted op h) fun _ _ => True :=
    fun keeps => (sidesteps_modify keeps).concludes.silent ready
  cases op with
  | takeWork | startCall | endCall => cases whole
  | request record size flags => exact request_conducted ready record size flags
  | write object index count value =>
    simp only [perform, silent, ends_bind, ends_modify, ends_pure]
    exact ready.conducted_write object index count value
  | collect collectSoft => exact (attends_collect collectSoft).concludes.silent ready
  | requestExternal record bytes => exact (concludes_requestExternal record bytes).silent ready
  | freeExternal bytes =>
    exact (attends_resizes (Source.resizes_externalFree bytes)).concludes.silent ready
  | clearFlags record object flags =>
    exact (sidesteps_clearFlags record object flags).concludes.silent ready
  | setMinimum size => exact (attends_setMinimum size).concludes.silent ready
  | trim =>
    refine (attends_onSource (fun s sound => ?_) fun _ sound =>
      Source.trim_intact sound).concludes.silent ready
    refine (Source.trim_spec sound).imp (fun _ _ steady => steady) ?_
    rintro - _ rfl
    exact sound.steady.broken
  | beforeFork =>
    exact (attends_onSource (fun _ sound => Source.beforeFork_spec sound) fun s _ =>
      Source.beforeFork_intact s).concludes.silent ready
  | afterZygote => exact concludes_afterZygote.silent ready
  | attach thread name => exact (sidesteps_attach thread name).concludes.silent ready
  | setUtilization ratio =>
    refine (attends_figures (·.setUtilization ratio) (fun s sound => ?_)
      fun s => ?_).concludes.silent ready
    · exact sound.steady_of_resized ⟨⟨_, rfl⟩, rfl, rfl, rfl, rfl⟩
    · exact Source.Resized.intact ⟨⟨_, rfl⟩, rfl, rfl, rfl, rfl⟩
  | snapshotBitmaps =>
    exact (attends_figures (·.snapshotBitmaps.2) (fun _ sound => Source.snapshotBitmaps_steady sound)
      Source.snapshotBitmaps_intact).concludes.silent ready
  | replaceBitmaps numbers => exact (attends_replaceBitmaps numbers).concludes.silent ready
  | transition record state => exact aside fun h => h.besides_transition record state
  | shutdown record => exact aside fun h => h.besides_shutdown record
  | setDebugging tolerate =>
    refine aside fun h => ⟨⟨rfl, rfl, rfl, rfl⟩, ?_⟩
    exact Option.map_map ..
  | detach | track | untrack | setRoots | setProfiling | setReporting | pass =>
    exact aside fun _ => ⟨⟨rfl, rfl, rfl, rfl⟩, rfl⟩

omit [ObjectModel] in
/-- A new heap has no work pending. -/
theorem ready_create {config : Config} (run : create config = .ok (.ok h)) :
    h.Ready ∧ h.tables = {} ∧ h.inFlight = none := by
  obtain ⟨sound, -, -, tables⟩ := sound_create run
  obtain ⟨-, -, -, -, -, -, current⟩ := create_frame run
  refine ⟨⟨sound, fun x waits => ?_, fun x due => ?_, fun x made => ?_⟩, tables, current⟩
  · rw [waiting, tables] at waits
    cases waits
  · rw [queued, tables] at due
    cases due
  · rw [current] at made
    cases made

end Heap

end ManagedHeap
