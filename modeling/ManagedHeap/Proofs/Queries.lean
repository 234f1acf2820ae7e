import ManagedHeap.Proofs.LiveTables

/-!
What collections ask of the program. They ask about objects that live when they begin and about no
others: two models that answer alike about these have every operation do the same, whatever they make of
addresses at which nothing lives.
-/

namespace ManagedHeap

/-- The models tell the same about an object. -/
structure ObjectModel.Alike (M M' : ObjectModel) (p : Payload) : Prop where
  children : M.children p = M'.children p
  kind : M.kind? p = M'.kind? p
  referent : M.referent? p = M'.referent? p
  referentIndex : M.referentIndex p = M'.referentIndex p
  hasQueue : M.hasQueue p = M'.hasQueue p
  clearsItself : M.clearsItself p = M'.clearsItself p

/-- The models tell the same about whatever lies where an object lives. -/
def Source.Agree (s : Source) (M M' : ObjectModel) : Prop :=
  ∀ p : Payload, s.isPublished p.address = true → M.Alike M' p

namespace Source

variable {s₀ : Source} {M M' : ObjectModel} {x : Nat}

theorem Agree.children (agree : s₀.Agree M M') (live : s₀.isPublished x = true) (s : Source) :
    @children M s x = @children M' s x := (agree (s.payload x) live).children

theorem Agree.kind (agree : s₀.Agree M M') (live : s₀.isPublished x = true) (s : Source) :
    @kind? M s x = @kind? M' s x := (agree (s.payload x) live).kind

theorem Agree.referent (agree : s₀.Agree M M') (live : s₀.isPublished x = true) (s : Source) :
    @referent? M s x = @referent? M' s x := (agree (s.payload x) live).referent

theorem Agree.hasQueue (agree : s₀.Agree M M') (live : s₀.isPublished x = true) (s : Source) :
    @hasQueue M s x = @hasQueue M' s x := (agree (s.payload x) live).hasQueue

theorem Agree.clearsItself (agree : s₀.Agree M M') (live : s₀.isPublished x = true) (s : Source) :
    @clearsItself M s x = @clearsItself M' s x := (agree (s.payload x) live).clearsItself

theorem Agree.clearReferent (agree : s₀.Agree M M') (live : s₀.isPublished x = true) (s : Source) :
    @clearReferent M s x = @clearReferent M' s x :=
  congrArg (s.setWord x · 0) (agree (s.payload x) live).referentIndex

end Source

namespace Cycle

open Action

variable {α β : Type} {s₀ : Source} {c : Cycle} {x : Nat}

/-- All that is looked at from here on lived when the collection began. -/
structure Lively (s₀ : Source) (c : Cycle) : Prop where
  bitmaps : c.source.bitmaps = s₀.bitmaps
  fits : c.marking.Fits s₀
  stacked : ∀ x ∈ c.marking.stack.entries, s₀.isPublished x = true
  found : ∀ x, c.marking.found.Has x → s₀.isPublished x = true

/-- The actions do the same, and what they look at lives. -/
def Matches (s₀ : Source) (known : α → Prop) (a a' : Action Cycle α) : Prop :=
  ∀ c, Lively s₀ c → a c = a' c
    ∧ a.Ends c (fun value c' => known value ∧ Lively s₀ c') fun _ _ => True

theorem Matches.then {known : α → Prop} {known' : β → Prop} {a a' : Action Cycle α}
    {next next' : α → Action Cycle β} (first : Matches s₀ known a a')
    (rest : ∀ value, known value → Matches s₀ known' (next value) (next' value)) :
    Matches s₀ known' (a >>= next) (a' >>= next') := by
  intro c lively
  obtain ⟨same, ends⟩ := first c lively
  rw [ends_bind]
  refine ⟨bind_eq same fun run => ?_, ends.mono fun value c₁ both => (rest value both.1 c₁ both.2).2⟩
  obtain ⟨holds, lively'⟩ := ends.ok run
  exact (rest _ holds _ lively').1

/-- An action that asks nothing. -/
theorem matches_of_ends {known : α → Prop} {a : Action Cycle α}
    (ends : ∀ c, Lively s₀ c →
      a.Ends c (fun value c' => known value ∧ Lively s₀ c') fun _ _ => True) :
    Matches s₀ known a a := fun c lively => ⟨rfl, ends c lively⟩

theorem matches_pure {known : α → Prop} (value : α) (holds : known value) :
    Matches s₀ known (pure value) (pure value) :=
  matches_of_ends fun _ lively => ends_pure.2 ⟨holds, lively⟩

/-- Actions that look at the state first. -/
theorem matches_get {known : α → Prop} {next next' : Cycle → Action Cycle α}
    (rest : ∀ c, Lively s₀ c → Matches s₀ known (next c) (next' c)) :
    Matches s₀ known (get >>= next) (get >>= next') := fun c lively => by
  refine ⟨(rest c lively c lively).1, ?_⟩
  rw [ends_bind, ends_get]
  exact (rest c lively c lively).2

theorem matches_modify {change change' : Cycle → Cycle}
    (same : ∀ c, Lively s₀ c → change c = change' c ∧ Lively s₀ (change c)) :
    Matches s₀ (fun _ => True) (modify change) (modify change') := fun c lively => by
  obtain ⟨equal, kept⟩ := same c lively
  refine ⟨?_, ends_modify.2 ⟨trivial, kept⟩⟩
  change EStateM.Result.ok _ (change c) = EStateM.Result.ok _ (change' c)
  rw [equal]

theorem Lively.retable (lively : Lively s₀ c) (tables : WorkTables) :
    Lively s₀ { c with tables } := ⟨lively.bitmaps, lively.fits, lively.stacked, lively.found⟩

theorem matches_modifyTables (change : WorkTables → WorkTables) :
    Matches s₀ (fun _ => True) (modifyTables change) (modifyTables change) :=
  matches_modify fun c lively => ⟨rfl, lively.retable (change c.tables)⟩

/-- Only live objects get onto the stack. -/
theorem matches_mark (sound : s₀.Sound) (y : Nat) :
    Matches s₀ (fun _ => True) (mark y) (mark y) := by
  refine matches_of_ends fun c lively => ?_
  refine (mark_cases sound lively.bitmaps lively.fits).imp ?_ fun _ _ _ => trivial
  rintro - c' (⟨rfl, -⟩ | ⟨live, -, -, i, number, here, covered, rfl⟩)
  · exact ⟨trivial, lively⟩
  · refine ⟨trivial, lively.bitmaps, lively.fits.insert here covered rfl rfl, fun z member => ?_,
      lively.found⟩
    rcases List.mem_cons.1 member with rfl | stacked
    · exact live
    · exact lively.stacked z stacked

theorem matches_markAll (sound : s₀.Sound) (objects : List Nat) :
    Matches s₀ (fun _ => True) (markAll objects) (markAll objects) := by
  induction objects with
  | nil => exact matches_pure () trivial
  | cons y rest ih => exact (matches_mark sound y).then fun _ _ => ih

theorem matches_latch : Matches s₀ (fun found => ∀ x, found.Has x → s₀.isPublished x = true)
    latch latch := by
  refine matches_of_ends fun c lively => ?_
  simp only [latch, modifyMarking, ends_bind, ends_get, ends_modify, ends_pure]
  exact ⟨lively.found, lively.bitmaps, lively.fits.congr rfl rfl, lively.stacked, fun x found =>
    absurd found (not_has_empty x)⟩

theorem matches_takeTurn : Matches s₀ (fun _ => True) takeTurn takeTurn :=
  matches_of_ends fun _ lively =>
    ends_takeTurn (fun _ => ⟨trivial, lively.retable _⟩) fun _ => trivial

theorem matches_queueWork (x : Nat) (work : ReferenceWork) :
    Matches s₀ (fun _ => True) (queueWork x work) (queueWork x work) :=
  matches_of_ends fun _ lively =>
    ends_queueWork (fun _ => ⟨trivial, lively⟩) trivial fun _ _ => ⟨trivial, lively.retable _⟩

theorem matches_makePending (sound : s₀.Sound) (objects : List Nat) :
    Matches s₀ (fun _ => True) (makePending objects) (makePending objects) := by
  induction objects with
  | nil => exact matches_pure () trivial
  | cons y rest ih =>
    refine matches_get fun c lively => ?_
    split
    · exact matches_of_ends fun _ _ => ends_bind.2 (ends_throw.2 trivial)
    · exact (matches_modifyTables _).then fun _ _ => (matches_mark sound y).then fun _ _ => ih

/-! ### Two models -/

variable {M M' : ObjectModel} {kind : ReferenceKind} {policy : SoftPolicy}

theorem matches_visit (sound : s₀.Sound) (agree : s₀.Agree M M') (live : s₀.isPublished x = true) :
    Matches s₀ (fun _ => True) (@visit M x) (@visit M' x) := by
  refine matches_get fun c _ => ?_
  rw [agree.children live]
  refine (matches_markAll sound _).then fun _ _ => matches_get fun c₁ _ => ?_
  rw [agree.kind live, agree.referent live]
  split
  case h_2 => exact matches_pure () trivial
  case h_1 kind referent _ _ =>
    have follow := matches_mark sound referent
    split
    · exact follow
    · split
      · exact follow
      · refine matches_modify fun c lively => ⟨rfl, lively.bitmaps, lively.fits.congr rfl rfl,
          lively.stacked, ?_⟩
        rintro y ⟨other, found⟩
        rcases mem_add.1 found with before | ⟨-, rfl⟩
        · exact lively.found y ⟨other, before⟩
        · exact live

theorem matches_scanUpTo (sound : s₀.Sound) (agree : s₀.Agree M M') (budget : Nat) :
    Matches s₀ (fun _ => True) (@scanUpTo M budget) (@scanUpTo M' budget) := by
  induction budget with
  | zero => exact matches_pure () trivial
  | succ budget ih =>
    refine matches_get fun c lively => ?_
    cases entries : c.marking.stack.entries with
    | nil =>
      simp only [MarkStack.pop?, entries]
      exact matches_pure () trivial
    | cons x rest =>
      simp only [MarkStack.pop?, entries]
      obtain ⟨bitmaps, fits, stacked, found⟩ := lively
      rw [entries] at stacked
      let stack := { c.marking.stack with entries := rest, room := c.marking.stack.room + 1 }
      have popped : Lively s₀ { c with marking := { c.marking with stack } } :=
        ⟨bitmaps, fits.congr rfl rfl, fun y later => stacked y (List.mem_cons_of_mem _ later), found⟩
      have sets : Matches s₀ (fun _ => True)
          (set { c with marking := { c.marking with stack } } : Action Cycle PUnit)
          (set { c with marking := { c.marking with stack } }) :=
        matches_of_ends fun _ _ => ends_set.2 ⟨trivial, popped⟩
      exact sets.then fun _ _ =>
        (matches_visit sound agree (stacked x List.mem_cons_self)).then fun _ _ => ih

theorem matches_scan (sound : s₀.Sound) (agree : s₀.Agree M M') :
    Matches s₀ (fun _ => True) (@scan M) (@scan M') :=
  matches_get fun c _ => matches_scanUpTo sound agree c.scanBudget

theorem matches_release (sound : s₀.Sound) (agree : s₀.Agree M M') (live : s₀.isPublished x = true)
    (referent : Nat) : Matches s₀ (fun _ => True) (@release M x referent kind)
      (@release M' x referent kind) := by
  refine matches_get fun c _ => ?_
  dsimp only
  rw [agree.hasQueue live, agree.clearsItself live]
  generalize (if kind = .phantom then _ else _ : Bool) = needed
  cases needed with
  | true => exact (matches_mark sound referent).then fun _ _ => matches_pure _ trivial
  | false =>
    refine (matches_modify fun c lively => ?_).then fun _ _ => matches_pure _ trivial
    refine ⟨by rw [agree.clearReferent live], ?_, lively.fits, lively.stacked, lively.found⟩
    exact (c.source.bitmaps_setWords x _ 1 0).trans lively.bitmaps

theorem matches_handleReference (sound : s₀.Sound) (agree : s₀.Agree M M')
    (live : s₀.isPublished x = true) : Matches s₀ (fun _ => True)
      (@handleReference M kind policy x) (@handleReference M' kind policy x) := by
  have decides : ∀ referent, Matches s₀ (fun _ => True)
      (@release M x referent kind >>= fun work => queueWork x work)
      (@release M' x referent kind >>= fun work => queueWork x work) := fun referent =>
    (matches_release sound agree live referent).then fun work _ => matches_queueWork x work
  refine matches_get fun c _ => ?_
  rw [agree.referent live]
  split
  case h_2 => exact matches_pure () trivial
  case h_1 referent _ =>
    split
    · exact matches_pure () trivial
    · split
      · refine matches_takeTurn.then fun mine _ => ?_
        split
        · exact (matches_mark sound referent).then fun _ _ => matches_pure () trivial
        · exact decides referent
      · exact decides referent

theorem matches_handleEach (sound : s₀.Sound) (agree : s₀.Agree M M') (references : List Nat)
    (live : ∀ x ∈ references, s₀.isPublished x = true) : Matches s₀ (fun _ => True)
      (@handleEach M kind policy references) (@handleEach M' kind policy references) := by
  induction references with
  | nil => exact matches_pure () trivial
  | cons x rest ih =>
    exact (matches_handleReference sound agree (live x List.mem_cons_self)).then fun _ _ =>
      ih fun y later => live y (List.mem_cons_of_mem _ later)

theorem matches_handleReferences (sound : s₀.Sound) (agree : s₀.Agree M M')
    (references : List Nat) (live : ∀ x ∈ references, s₀.isPublished x = true) :
    Matches s₀ (fun _ => True) (@handleReferences M kind policy references)
      (@handleReferences M' kind policy references) :=
  (matches_handleEach sound agree references live).then fun _ _ => matches_scan sound agree

theorem matches_handleSoft (sound : s₀.Sound) (agree : s₀.Agree M M') (references : List Nat)
    (live : ∀ x ∈ references, s₀.isPublished x = true) : Matches s₀ (fun _ => True)
      (@handleSoft M policy references) (@handleSoft M' policy references) := by
  unfold handleSoft
  split
  · exact matches_pure () trivial
  · exact (matches_handleReferences sound agree references live).then fun _ _ =>
      matches_modify fun c lively =>
        ⟨rfl, lively.bitmaps, lively.fits, lively.stacked, lively.found⟩

theorem matches_scheduleFinalizations (sound : s₀.Sound) (agree : s₀.Agree M M') :
    Matches s₀ (fun _ => True) (@scheduleFinalizations M) (@scheduleFinalizations M') :=
  matches_get fun _ _ => (matches_modifyTables _).then fun _ _ =>
    (matches_makePending sound _).then fun _ _ => (matches_scan sound agree).then fun _ _ =>
      matches_pure _ trivial

theorem matches_trace (sound : s₀.Sound) (agree : s₀.Agree M M') (roots : List Nat)
    (policy : SoftPolicy) : Matches s₀ (fun _ => True) (@trace M roots policy)
      (@trace M' roots policy) := by
  have defers : Matches s₀ (fun _ => True)
      (modifyMarking fun m => { m with deferSoft := policy != .preserve })
      (modifyMarking fun m => { m with deferSoft := policy != .preserve }) :=
    matches_modify fun c lively => ⟨rfl, lively.bitmaps, lively.fits.congr rfl rfl, lively.stacked,
      lively.found⟩
  refine (matches_markAll sound roots).then fun _ _ => defers.then fun _ _ =>
    (matches_scan sound agree).then fun _ _ => matches_latch.then fun found live => ?_
  have each : ∀ kind, ∀ x ∈ found.ofKind kind, s₀.isPublished x = true :=
    fun kind x member => live x ⟨kind, member⟩
  exact (matches_handleSoft sound agree _ (each .soft)).then fun _ _ =>
    (matches_handleReferences sound agree _ (each .weak)).then fun _ _ =>
      (matches_scheduleFinalizations sound agree).then fun _ _ =>
        matches_handleReferences sound agree _ (each .phantom)

/-- Both models have a collection do the same. -/
theorem run_congr (sound : c.source.Sound) (fresh : c.marking = Marking.start c.source)
    (agree : c.source.Agree M M') (roots : List Nat) (policy : SoftPolicy) :
    @run M roots policy c = @run M' roots policy c := by
  have lively : Lively c.source c := by
    refine ⟨rfl, fresh ▸ fits_start sound, ?_, ?_⟩
    · rw [fresh]
      exact nofun
    · rw [fresh]
      exact fun x found => absurd found (not_has_empty x)
  exact bind_eq (matches_trace sound agree roots policy c lively).1 fun _ => rfl

end Cycle

namespace Heap

open Action

variable {M M' : ObjectModel} {h : Heap}

theorem staysScheduled_congr (agree : h.source.Agree M M') {r : Nat} (live : h.isValid r = true) :
    @staysScheduled M h r = @staysScheduled M' h r := by
  unfold staysScheduled
  rw [agree.referent live, agree.kind live]

theorem retainScheduled_congr (agree : h.source.Agree M M') (tended : h.Tended) :
    @retainScheduled M h = @retainScheduled M' h := by
  have same : h.tables.scheduled.filter (@staysScheduled M h)
      = h.tables.scheduled.filter (@staysScheduled M' h) :=
    List.filter_congr fun r known => staysScheduled_congr agree (tended.scheduled r known)
  unfold retainScheduled
  rw [same]

theorem runCycle_congr (sound : h.source.Sound) (agree : h.source.Agree M M') (collectSoft : Bool) :
    @runCycle M collectSoft h = @runCycle M' collectSoft h := by
  refine bind_eq rfl fun run => ?_
  cases run
  have same := Cycle.run_congr (c := h.beginCycle) sound rfl agree h.rootSet
    (if collectSoft then .clearAll else h.softPolicy)
  dsimp only
  rw [Action.on, Action.on, same]

/-- A collection asks the program about objects that live when it begins, and about no others. -/
theorem collect_congr (tended : h.Tended) (agree : h.source.Agree M M') (collectSoft : Bool) :
    @collect M collectSoft h = @collect M' collectSoft h := by
  refine bind_eq rfl fun run => ?_
  cases run
  split
  case isTrue => rfl
  case isFalse =>
    refine bind_eq rfl fun run => ?_
    cases run
    let begun : Heap := { h with collecting := true }
    have started : Idle h begun := ⟨rfl, rfl, rfl, fun _ kept => kept⟩
    refine bind_eq rfl fun {_ h₂} run => ?_
    have idle : Idle h h₂ := started.trans ((idles_checkWatchdog begun).ok run)
    have tended₂ := idle.tended tended
    have agree₂ : h₂.source.Agree M M' := idle.source ▸ agree
    have retained := retainScheduled_congr agree₂ tended₂
    refine bind_eq ?_ fun run => ?_
    · exact congrArg (EStateM.Result.ok _) retained
    · cases run
      let h₃ := @retainScheduled M h₂
      exact bind_eq (runCycle_congr (h := h₃) tended₂.sound.source agree₂ collectSoft) fun _ => rfl

/-! ### Operations -/

variable {α β : Type} {config : Config}

/-- Wherever the tables are in order and the models agree the actions do the same. -/
def Concurs (config : Config) (M M' : ObjectModel) (a a' : Action Heap α) : Prop :=
  ∀ h, h.Tended → h.config = config → h.source.Agree M M' → a h = a' h

theorem concurs_same (a : Action Heap α) : Concurs config M M' a a := fun _ _ _ _ => rfl

/-- The models agree on what lives on. -/
theorem Progress.agree {h' : Heap} (progress : Progress h h') (agree : h.source.Agree M M') :
    h'.source.Agree M M' := fun p live => agree p (progress.live p.address live)

theorem Concurs.then {a a' : Action Heap α} {next next' : α → Action Heap β}
    (first : Concurs config M M' a a') (tends : @Tends _ M a) (progresses : Progresses a)
    (rest : ∀ value, Concurs config M M' (next value) (next' value)) :
    Concurs config M M' (a >>= next) (a' >>= next') := by
  intro h tended same agree
  refine bind_eq (first h tended same agree) fun run => ?_
  obtain ⟨tended', -, -⟩ := (tends h tended).ok run
  have progress := (progresses h tended.sound).ok run
  exact rest _ _ tended' (progress.config.trans same) (progress.agree agree)

/-- An attempt to find room, after which all is done but for what is tried if there was none. -/
theorem Concurs.attempt {a : Action Heap (Option Nat)}
    {next next' : Option Nat → Action Heap (Option Nat)} (room : 0 < config.maximumSize)
    (furnishes : @Furnishes M a) (serves : Serves a) (found : ∀ x, next (some x) = next' (some x))
    (rest : Concurs config M M' (next none) (next' none)) :
    Concurs config M M' (a >>= next) (a >>= next') := by
  intro h tended same agree
  subst same
  refine bind_eq rfl fun {result h₁} run => ?_
  cases result with
  | some x => rw [found x]
  | none =>
    obtain ⟨⟨tended', -, -⟩, -⟩ := (furnishes h tended room).ok run
    have progress : Progress h h₁ := (serves h tended.sound room).ok run
    exact rest h₁ tended' progress.config (progress.agree agree)

theorem concurs_collectFor (record : Nat) (collectSoft : Bool) : Concurs config M M'
    (@collectFor M record collectSoft) (@collectFor M' record collectSoft) := by
  intro h tended same agree
  refine bind_eq rfl fun run => ?_
  cases run
  split
  · refine bind_eq rfl fun run => ?_
    cases run
    have idle : Idle h ({ h with profile := h.profile.countCollection }.modifyMutator record fun m =>
        { m with profile := m.profile.countCollection }) := ⟨rfl, rfl, rfl, fun _ kept => kept⟩
    exact collect_congr (idle.tended tended) agree collectSoft
  · exact collect_congr tended agree collectSoft

/-- After a collection the same is tried. -/
theorem Concurs.collectFor {next next' : PUnit → Action Heap α} (record : Nat) (collectSoft : Bool)
    (rest : ∀ value, Concurs config M M' (next value) (next' value)) : Concurs config M M'
      (@Heap.collectFor M record collectSoft >>= next)
      (@Heap.collectFor M' record collectSoft >>= next') :=
  (concurs_collectFor record collectSoft).then (@tends_collectFor M record collectSoft)
    (@progresses_collectFor M record collectSoft) rest

theorem concurs_findRoom (record size : Nat) : Concurs config M M' (@findRoom M record size)
    (@findRoom M' record size) := by
  intro h tended same agree
  refine bind_eq rfl fun run => ?_
  cases run
  split
  case isTrue => rfl
  case isFalse large =>
    have room : 0 < config.maximumSize := by
      rw [← same, ← tended.sound.maximum]
      omega
    have alloc := serves_alloc size
    refine Concurs.attempt room (@furnishes_alloc M size) alloc ?_ ?_ h tended same agree
    · exact fun _ => rfl
    refine Concurs.collectFor record false fun _ => ?_
    refine Concurs.attempt room (@furnishes_alloc M size) alloc ?_ ?_
    · exact fun _ => rfl
    refine Concurs.attempt room (@furnishes_allocGrowing M size) (serves_allocGrowing size) ?_ ?_
    · exact fun _ => rfl
    exact Concurs.collectFor record true fun _ => concurs_same (allocGrowing size)

theorem concurs_chargeExternal (record n : Nat) : Concurs config M M' (@chargeExternal M record n)
    (@chargeExternal M' record n) := by
  have charge : ∀ {next next' : Bool → Action Heap Bool},
      (∀ done, Concurs config M M' (next done) (next' done)) → Concurs config M M'
        (onSource (Source.externalAlloc n false) >>= next)
        (onSource (Source.externalAlloc n false) >>= next') := fun rest =>
    (concurs_same _).then (@tends_resizes _ M _ (Source.resizes_externalAlloc n false))
      (progresses_externalAlloc n false) rest
  refine charge fun done => ?_
  cases done with
  | true => exact concurs_same (pure true)
  | false =>
    refine Concurs.collectFor record false fun _ => charge fun done => ?_
    cases done with
    | true => exact concurs_same (pure true)
    | false =>
      refine (concurs_same (growExternal n)).then (@tends_growExternal M n) (progresses_growExternal n)
        fun done => ?_
      cases done with
      | true => exact concurs_same (pure true)
      | false => exact Concurs.collectFor record true fun _ => concurs_same (growExternal n)

theorem concurs_findExternalRoom (record n : Nat) : Concurs config M M'
    (@findExternalRoom M record n) (@findExternalRoom M' record n) := by
  -- What is looked at first is the same, and so is what comes of it.
  have looks : ∀ {next next' : Bool → Action Heap (Except HeapError Unit)},
      (∀ possible, Concurs config M M' (next possible) (next' possible)) → Concurs config M M'
        (get >>= fun h => liftM (h.source.externalPossible n) >>= next)
        (get >>= fun h => liftM (h.source.externalPossible n) >>= next') := fun rest h tended =>
    (concurs_same _).then (@tends_lift _ M _) (progresses_lift _) rest h tended
  have charged : ∀ {next next' : Bool → Action Heap (Except HeapError Unit)},
      (∀ done, next done = next' done) → Concurs config M M' (@chargeExternal M record n >>= next)
        (@chargeExternal M' record n >>= next') := fun same =>
    (concurs_chargeExternal record n).then (@tends_chargeExternal M record n)
      (@progresses_chargeExternal M record n) fun done => same done ▸ concurs_same _
  refine looks fun possible => ?_
  cases possible with
  | true => exact charged fun _ => rfl
  | false =>
    refine Concurs.collectFor record false fun _ => ?_
    refine (concurs_same (onSource Source.shrinkToIdeal)).then (@tends_shrinkToIdeal M)
      (progresses_onSource Source.shrinkToIdeal_spares fun _ sound => Source.shrinkToIdeal_spec sound)
      fun _ => looks fun possible => ?_
    cases possible with
    | true => exact charged fun _ => rfl
    | false => exact concurs_same (pure _)

/-- An operation asks the program about objects that live when it begins, and about no others. -/
theorem perform_congr (tended : h.Tended) (agree : h.source.Agree M M') (op : Operation) :
    @perform M op h = @perform M' op h := by
  cases op with
  | request record size flags =>
    refine bind_eq rfl fun run => ?_
    cases run
    exact bind_eq (concurs_findRoom record size h tended rfl agree) fun _ => rfl
  | collect collectSoft => exact bind_eq (collect_congr tended agree collectSoft) fun _ => rfl
  | requestExternal record n =>
    have same : @requestExternal M record n h = @requestExternal M' record n h :=
      bind_eq (concurs_findExternalRoom record n h tended rfl agree) fun _ => rfl
    exact bind_eq same fun _ => rfl
  | _ => rfl

end Heap

end ManagedHeap
