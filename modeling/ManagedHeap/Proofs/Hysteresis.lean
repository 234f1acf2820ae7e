import Mathlib.Data.List.Induction
import ManagedHeap.Heap.Journal
import ManagedHeap.Proofs.ChronicleRuns
import ManagedHeap.Proofs.HeldReferences

/-!
When soft references are let go of. Growth of the ideal size past a threshold has the next collection
clear some of them, and the threshold follows; the collections after that preserve them until the size
has grown by as much again.
-/

namespace ManagedHeap

/-- The ideal size has grown past the threshold by the slack. -/
def Heap.isCrossing (h : Heap) : Bool := h.softThreshold + Size.softSlack ≤ h.source.ideal

/-- The threshold is not far from the ideal size. -/
def Heap.Balanced (h : Heap) : Prop :=
  h.softThreshold < h.source.ideal + 4 * Size.softSlack
    ∧ h.source.ideal < h.softThreshold + Size.softSlack

section

variable [ObjectModel]

/-- From one heap to the other a soft reference was cleared, or a call of one was queued. -/
def Heap.letsSoftGo (h h' : Heap) : Bool :=
  h.source.objects.any fun r => h.source.kind? r == some .soft
    && (h'.source.referent? r != h.source.referent? r || (h.queuedSince h').any (·.1 == r))

namespace Happening

/-- The size is looked at when it has grown past the threshold. -/
def crosses : Happening → Bool
  | .review h => h.isCrossing
  | _ => false

/-- A collection takes soft references on. -/
def takesSoft : Happening → Bool
  | .phases collectSoft h _ _ => h.policyFor collectSoft != .preserve
  | _ => false

/-- A collection that was not told to do so lets soft references go. -/
def letsSoftGo : Happening → Bool
  | .phases false h _ h' => h.letsSoftGo h'
  | _ => false

end Happening

end

/-! ### The threshold -/

namespace Heap

open Action

variable {h h' : Heap} {m i r : Nat}

/-- The threshold follows the ideal size down or up, or stays near it. -/
theorem sizeChanged_cases (h : Heap) :
    h.sizeChanged = { h with softThreshold := h.source.ideal, softPolicy := .preserve }
      ∨ (h.isCrossing = true
        ∧ h.sizeChanged = { h with softThreshold := h.source.ideal, softPolicy := .alternate })
      ∨ (h.Balanced ∧ h.sizeChanged = h) := by
  unfold sizeChanged
  dsimp only
  split
  case isTrue => exact .inl rfl
  case isFalse above =>
    split
    case isTrue grown => exact .inr (.inl ⟨decide_eq_true grown, rfl⟩)
    case isFalse below => exact .inr (.inr ⟨⟨Nat.lt_of_not_le above, Nat.lt_of_not_le below⟩, rfl⟩)

theorem Balanced.congr (balanced : h.Balanced) (ideal : h'.source.ideal = h.source.ideal)
    (softThreshold : h'.softThreshold = h.softThreshold) : h'.Balanced := by
  rw [Balanced, ideal, softThreshold]
  exact balanced

theorem balanced_of_eq (same : h.softThreshold = h.source.ideal) : h.Balanced := by
  rw [Balanced, same]
  have some_slack : 0 < Size.softSlack := by decide
  omega

theorem balanced_sizeChanged (h : Heap) : h.sizeChanged.Balanced := by
  rcases h.sizeChanged_cases with same | ⟨-, same⟩ | ⟨balanced, same⟩
  · exact same ▸ balanced_of_eq rfl
  · exact same ▸ balanced_of_eq rfl
  · exact same.symm ▸ balanced

/-- Soft references are let go of from here on only if the size has grown past the threshold. -/
theorem sizeChanged_policy (clears : h.sizeChanged.softPolicy ≠ .preserve) :
    h.isCrossing = true ∨ h.softPolicy ≠ .preserve := by
  rcases h.sizeChanged_cases with same | ⟨grown, -⟩ | ⟨-, same⟩
  · rw [same] at clears
    exact absurd rfl clears
  · exact .inl grown
  · exact .inr (same ▸ clears)

/-! ### The phases of a collection -/

variable [ObjectModel]

/-- One attempt at soft references is enough: after it they are preserved. -/
theorem runCycle_policy (h : Heap) (collectSoft : Bool) :
    (runCycle collectSoft).Ends h (fun _ h' => h'.softPolicy = .preserve) fun _ _ => True := by
  have decided : Cycle.Withstands fun c => c.softDecided = true :=
    ⟨⟨fun _ _ => id, fun _ _ => id, fun _ _ => id, fun _ _ => rfl⟩, fun _ c before => ends_on.2
      ⟨fun _ => before, fun _ => before⟩⟩
  have softly : ∀ policy references, policy ≠ .preserve → ∀ c, (Cycle.handleSoft policy references).Ends
      c (fun _ c' => c'.softDecided = true) fun _ _ => True := by
    intro policy references decides c
    rw [Cycle.handleSoft, if_neg decides, ends_bind]
    exact ⟨fun _ => ends_modify.2 rfl, fun _ => trivial⟩
  have traced : ∀ policy roots, policy ≠ .preserve → ∀ c, (Cycle.trace roots policy).Ends c
      (fun _ c' => c'.softDecided = true) fun _ _ => True := by
    intro policy roots decides c
    have any : ∀ {α : Type} (a : Action Cycle α) c, a.Ends c (fun _ _ => True) fun _ _ => True :=
      fun _ _ => ⟨fun _ => trivial, fun _ => trivial⟩
    simp only [Cycle.trace, ends_bind]
    refine (any _ c).mono fun _ c _ => (any _ c).mono fun _ c _ => (any _ c).mono fun _ c _ =>
      (any _ c).mono fun found c _ => (softly policy found.soft decides c).mono fun _ c before => ?_
    simpa only [ends_bind] using (decided.remainder policy found c before).imp (fun _ _ => id)
      fun _ _ _ => trivial
  have ran : ∀ policy roots, policy ≠ .preserve → ∀ c, (Cycle.run roots policy).Ends c
      (fun _ c' => c'.softDecided = true) fun _ _ => True := by
    intro policy roots decides c
    rw [Cycle.run, ends_bind]
    refine (traced policy roots decides c).mono fun _ c before => ?_
    exact ((decided.sweep.then fun freed => Cycle.preserves_finish.then fun _ =>
      preserves_pure freed) c before).imp (fun _ _ => id) fun _ _ _ => trivial
  simp only [runCycle, ends_bind, ends_get, ends_on]
  by_cases preserving : h.policyFor collectSoft = .preserve
  · have kept : h.softPolicy = .preserve := by
      unfold policyFor at preserving
      split at preserving
      · cases preserving
      · exact preserving
    refine ⟨fun _ => ?_, fun _ => trivial⟩
    unfold endCycle
    dsimp only
    split
    · rfl
    · exact kept
  · exact (ran _ h.rootSet preserving h.beginCycle).mono fun _ c before => if_pos before

theorem letsSoftGo_iff : h.letsSoftGo h' = true ↔ ∃ r ∈ h.source.objects,
    h.source.kind? r = some .soft ∧ (h'.source.referent? r ≠ h.source.referent? r
      ∨ ∃ work, (r, work) ∈ h.queuedSince h') := by
  simp only [letsSoftGo, List.any_eq_true, Bool.and_eq_true, Bool.or_eq_true, beq_iff_eq, bne_iff_ne,
    Prod.exists, exists_and_right, exists_eq_right]

/-- Where soft references are preserved none is let go of. -/
theorem runCycle_preserves (sound : h.source.Sound) {collectSoft : Bool}
    (preserving : h.policyFor collectSoft = .preserve) : (runCycle collectSoft).Ends h
      (fun _ h' => h.letsSoftGo h' = false) fun _ h' => h.letsSoftGo h' = false := by
  have kept : ∀ {h' : Heap}, Cycle.Confined h.source
      (h.source.Dropped h.tables h.rootSet (h.policyFor collectSoft)) h.beginCycle h'.beginCycle →
      h.letsSoftGo h' = false := by
    rintro h' ⟨payload, added, entries, each⟩
    rw [← Bool.not_eq_true, letsSoftGo_iff]
    rintro ⟨r, member, isSoft, changed⟩
    have live : h.source.isPublished r = true := sound.mem_objects.1 member
    have stays : ¬ h.source.Dropped h.tables h.rootSet (h.policyFor collectSoft) r :=
      fun dropped => dropped.decided preserving isSoft
    rcases changed with cleared | ⟨work, queued⟩
    · refine cleared ?_
      have same : h'.source.payload r = h.source.payload r := payload r live stays
      rw [Source.referent?, same, Source.referent?]
    · have since : h.queuedSince h' = added := by
        change h'.tables.operations.entries.drop h.tables.operations.size = added
        rw [show h'.tables.operations.entries = h.tables.operations.entries ++ added from entries,
          ← WorkQueue.length_entries, List.drop_left]
      exact stays (each r work (since ▸ queued))
  exact (runCycle_confined sound collectSoft).imp (fun _ _ => kept) fun _ _ => kept

end Heap

/-! ### What came before -/

namespace Happening

variable {e : Happening} {past before after : List Happening}

/-- The size has grown past the threshold, and no collection has taken soft references on since. -/
def isArmed (past : List Happening) : Bool :=
  past.foldl (fun armed e => e.crosses || armed && !e.takesSoft) false

theorem isArmed_append (past : List Happening) (e : Happening) :
    isArmed (past ++ [e]) = (e.crosses || isArmed past && !e.takesSoft) := by
  rw [isArmed, List.foldl_append, List.foldl_cons, List.foldl_nil, isArmed]

theorem isArmed_iff : isArmed past = true ↔ ∃ early crossing later,
    past = early ++ crossing :: later ∧ crossing.crosses = true
      ∧ ∀ e ∈ later, e.takesSoft = false := by
  constructor
  · intro armed
    induction past using List.reverseRecOn with
    | nil => cases armed
    | append_singleton past e ih =>
      rw [isArmed_append, Bool.or_eq_true, Bool.and_eq_true, Bool.not_eq_true'] at armed
      rcases armed with crosses | ⟨armed, unused⟩
      · exact ⟨past, e, [], rfl, crosses, fun _ none => absurd none List.not_mem_nil⟩
      · obtain ⟨early, crossing, later, rfl, crosses, idle⟩ := ih armed
        refine ⟨early, crossing, later ++ [e], by rw [List.append_assoc, List.cons_append], crosses,
          fun e' member => ?_⟩
        rcases List.mem_append.1 member with old | new
        · exact idle e' old
        · exact List.mem_singleton.1 new ▸ unused
  · rintro ⟨early, crossing, later, rfl, crosses, idle⟩
    induction later using List.reverseRecOn with
    | nil => rw [isArmed_append, crosses, Bool.true_or]
    | append_singleton later e ih =>
      rw [← List.cons_append, ← List.append_assoc, isArmed_append, idle e (by simp),
        ih fun e' member => idle e' (List.mem_append_left _ member)]
      simp

variable [ObjectModel]

/-- Whenever soft references were let go of, growth had called for it. -/
def Justified (past : List Happening) : Prop :=
  ∀ before e after, past = before ++ e :: after → e.letsSoftGo = true →
    e.takesSoft = true ∧ isArmed before = true

theorem justified_nil : Justified [] := by
  intro before e after none
  cases before <;> cases none

theorem Justified.append (justified : Justified past)
    (new : e.letsSoftGo = true → e.takesSoft = true ∧ isArmed past = true) :
    Justified (past ++ [e]) := by
  intro before e' after split clears
  rcases List.eq_nil_or_concat after with rfl | ⟨after, last, rfl⟩
  · obtain ⟨rfl, same⟩ := List.append_inj' split rfl
    cases same
    exact new clears
  · rw [List.concat_eq_append, ← List.cons_append, ← List.append_assoc] at split
    exact justified before e' after (List.append_inj' split rfl).1 clears

theorem crosses_of_letsSoftGo (clears : e.letsSoftGo = true) : e.crosses = false := by
  cases e with
  | phases => rfl
  | review => cases clears
  | allocated => cases clears

/-- One crossing is used up each time. The last one may still be unused. -/
theorem Justified.count (justified : Justified past) :
    past.countP letsSoftGo + (if isArmed past then 1 else 0) ≤ past.countP crosses := by
  induction past using List.reverseRecOn with
  | nil => exact Nat.le_refl 0
  | append_singleton past e ih =>
    have before : Justified past := by
      rintro early e' later rfl
      exact justified early e' (later ++ [e]) (by rw [List.append_assoc, List.cons_append])
    have counted := ih before
    rw [List.countP_append, List.countP_append, List.countP_singleton, List.countP_singleton,
      isArmed_append]
    cases clears : e.letsSoftGo with
    | true =>
      obtain ⟨takes, armed⟩ := justified past e [] rfl clears
      rw [armed, if_pos rfl] at counted
      rw [takes, crosses_of_letsSoftGo clears]
      simpa using counted
    | false =>
      cases e.crosses with
      | true =>
        simp only [Bool.true_or, if_true, Bool.false_eq_true, if_false]
        omega
      | false =>
        simp only [Bool.false_or, Bool.false_eq_true, if_false]
        refine Nat.le_trans (Nat.add_le_add_left ?_ _) counted
        cases isArmed past <;> cases e.takesSoft <;> decide

end Happening

/-! ### Over whole runs -/

namespace Chronicle

open Action Happening

variable [ObjectModel] {config : Config} {c : Chronicle} {h h' : Heap} {past : List Happening}
  {m : Nat}

/-- What holds of a chronicle between any two operations. -/
structure Steady (m : Nat) (c : Chronicle) : Prop where
  governed : c.heap.source.Governed m
  balanced : c.heap.Balanced
  armed : c.heap.collecting = false → c.heap.softPolicy ≠ .preserve → isArmed c.past = true
  justified : Justified c.past

theorem Steady.moved (steady : Steady m { heap := h, past })
    (governed : h'.source.Governed m) (ideal : h'.source.ideal = h.source.ideal)
    (softThreshold : h'.softThreshold = h.softThreshold) (softPolicy : h'.softPolicy = h.softPolicy)
    (collecting : h'.collecting = h.collecting) : Steady m { heap := h', past } where
  governed := governed
  balanced := steady.balanced.congr ideal softThreshold
  armed idle clears := steady.armed (collecting ▸ idle) (softPolicy ▸ clears)
  justified := steady.justified

omit [ObjectModel] in
theorem armed_reviewed (armed : c.heap.softPolicy ≠ .preserve → isArmed c.past = true)
    (clears : c.reviewed.heap.softPolicy ≠ .preserve) : isArmed c.reviewed.past = true := by
  change isArmed (c.past ++ [.review c.heap]) = true
  rw [isArmed_append, Bool.or_eq_true]
  rcases Heap.sizeChanged_policy clears with grown | before
  · exact .inl grown
  · exact .inr (by rw [armed before]; rfl)

/-- The size was looked at after it may have moved. -/
theorem steady_reviewed (governed : c.heap.source.Governed m) (justified : Justified c.past)
    (armed : c.heap.collecting = false → c.heap.softPolicy ≠ .preserve → isArmed c.past = true) :
    Steady m c.reviewed where
  governed := by
    obtain ⟨_, _, same⟩ := c.heap.sizeChanged_frame
    change c.heap.sizeChanged.source.Governed m
    rw [same]
    exact governed
  balanced := c.heap.balanced_sizeChanged
  armed idle := by
    have before : c.heap.collecting = false := by
      obtain ⟨_, _, same⟩ := c.heap.sizeChanged_frame
      change c.heap.sizeChanged.collecting = false at idle
      rwa [same] at idle
    exact armed_reviewed (armed before)
  justified := justified.append fun clears => by cases clears

theorem Steady.counted (steady : Steady m c)
    (armed : c.heap.softPolicy ≠ .preserve → isArmed c.past = true) (objects bytes : Nat) :
    Steady m (c.counted objects bytes) :=
  ⟨steady.governed, steady.balanced.congr rfl rfl, fun _ => armed, steady.justified⟩

/-- A collection that goes through its phases lets soft references go only if growth called for it. -/
theorem justified_phases (governed : h.source.Governed m) (justified : Justified past)
    (armed : h.softPolicy ≠ .preserve → isArmed past = true) (soft : Bool) :
    (Heap.runCycle soft).Ends h
      (fun freed h' => Justified (past ++ [.phases soft h (some freed) h']))
      fun _ h' => Justified (past ++ [.phases soft h none h']) := by
  by_cases preserving : h.policyFor soft = .preserve
  · have none : ∀ {freed h'}, h.letsSoftGo h' = false →
        Justified (past ++ [.phases soft h freed h']) := by
      refine fun same => justified.append fun clears => ?_
      cases soft with
      | true => cases clears
      | false => exact absurd clears (by rw [letsSoftGo, same]; exact Bool.false_ne_true)
    exact (Heap.runCycle_preserves governed.sound preserving).imp (fun _ _ => none) fun _ _ => none
  · have called : ∀ {freed h'}, Justified (past ++ [.phases soft h freed h']) := by
      refine justified.append fun clears => ⟨bne_iff_ne.2 preserving, ?_⟩
      cases soft with
      | true => cases clears
      | false => exact armed preserving
    exact ⟨fun _ => called, fun _ => called⟩

theorem collect_steady (soft : Bool) :
    (collect soft).Maintains (fun _ => True) (Steady m) := by
  intro c steady
  have begun : ∀ {h₁ : Heap}, Heap.Unmoved { c.heap with collecting := true } h₁ →
      c.heap.collecting = false → h₁.source.Governed m
        ∧ (h₁.softPolicy ≠ .preserve → isArmed c.past = true) := by
    intro h₁ unmoved idle
    refine ⟨unmoved.source ▸ steady.governed, fun clears => steady.armed idle ?_⟩
    exact unmoved.softPolicy ▸ clears
  -- While the collection is under way the policy is nobody's concern.
  have aside : ∀ {h₁ h' : Heap} {past : List Happening},
      Heap.Unmoved { c.heap with collecting := true } h₁ → h'.source.Governed m →
      h'.source.ideal = h₁.source.ideal → h'.softThreshold = h₁.softThreshold →
      h'.collecting = h₁.collecting → Justified past → Steady m { heap := h', past } := by
    intro h₁ h' past unmoved governed ideal softThreshold collecting justified
    refine ⟨governed, steady.balanced.congr (ideal.trans (by rw [unmoved.source]))
      (softThreshold.trans unmoved.softThreshold), fun idle => ?_, justified⟩
    change h'.collecting = false at idle
    rw [collecting, unmoved.collecting] at idle
    cases idle
  refine (collect_cases c soft).imp ?_ ?_
  · rintro _ c' (⟨-, rfl⟩ | ⟨idle, h₁, objects, bytes, h₂, s, unmoved, ran, grown, rfl⟩)
    · exact steady
    obtain ⟨governed, armed⟩ := begun unmoved idle
    have justified := (justified_phases governed steady.justified armed soft).ok ran
    have governed₂ := ((Heap.runCycle_governed governed soft).ok ran).1
    have preserving : h₂.softPolicy = .preserve := (Heap.runCycle_policy h₁ soft).ok ran
    have still : ∀ {past}, h₂.softPolicy ≠ .preserve → isArmed past = true :=
      fun clears => absurd preserving clears
    let grownUp : Chronicle :=
      { heap := { h₂ with source := s }
        past := c.past ++ [.phases soft h₁ (some (objects, bytes)) h₂] }
    have reviewed : Steady m grownUp.reviewed := steady_reviewed
      ((Source.preserves_growForUtilization _ governed₂).ok grown) justified fun _ => still
    exact reviewed.counted (armed_reviewed (c := grownUp) still) objects bytes
  · rintro cause c' ⟨idle, h₁, unmoved, rfl | ⟨h₂, broken, rfl⟩ | ⟨freed, h₂, s, ran, broken, rfl⟩⟩ -
    · exact aside unmoved (begun unmoved idle).1 rfl rfl rfl steady.justified
    · obtain ⟨governed, armed⟩ := begun unmoved idle
      obtain ⟨governed₂, ideal⟩ := (Heap.runCycle_governed governed soft).error broken
      obtain ⟨_, rfl⟩ := (Heap.runCycle_frame h₁ soft).error broken
      exact aside unmoved governed₂ ideal rfl rfl
        ((justified_phases governed steady.justified armed soft).error broken)
    · obtain ⟨governed, armed⟩ := begun unmoved idle
      obtain ⟨governed₂, ideal⟩ := (Heap.runCycle_governed governed soft).ok ran
      have justified := (justified_phases governed steady.justified armed soft).ok ran
      obtain ⟨_, rfl⟩ := (Heap.runCycle_frame h₁ soft).ok ran
      have level := (Source.growForUtilization_fails _).error broken
      exact aside unmoved ((Source.preserves_growForUtilization _ governed₂).error broken)
        (level.trans ideal) rfl rfl justified

theorem steady_upholds (m : Nat) : Upholds m (fun _ => True) (Steady m) fun _ => Steady m where
  governed steady := steady.governed
  unmoved steady unmoved := steady.moved (unmoved.source ▸ steady.governed)
    (by rw [unmoved.source]) unmoved.softThreshold unmoved.softPolicy unmoved.collecting
  calm steady calm ideal := steady.moved calm.1 ideal rfl rfl rfl
  resized steady calm := steady_reviewed calm.1 steady.justified steady.armed
  alloc size c steady := by
    have moved : ∀ {s : Source}, s.Governed m → s.ideal = c.heap.source.ideal →
        Steady m { c with heap := { c.heap with source := s } } :=
      fun governed ideal => steady.moved governed ideal rfl rfl rfl
    refine ends_on.2 (ends_on.2 (((Source.preserves_alloc size _ steady.governed).and
      (Source.levels_alloc size _ _ rfl)).imp (fun result s both => ?_) fun _ s both _ => ?_))
    · cases result <;> exact moved both.1 both.2
    · exact moved both.1 both.2
  growing size c steady := by
    rw [allocGrowing, ends_bind]
    refine ends_on.2 (ends_on.2 (((Source.preserves_allocAndGrow size _ steady.governed).and
      (Source.allocAndGrow_fails size _)).imp (fun result s both => ?_) fun _ s both _ => ?_))
    · rw [ends_bind, ends_review, ends_pure]
      cases result <;> exact steady_reviewed both.1 steady.justified steady.armed
    · exact steady.moved both.1 both.2 rfl rfl rfl
  allocated steady := ⟨steady.governed, steady.balanced,
    fun idle clears => by
      rw [show (note _ _).past = _ ++ [_] from rfl, isArmed_append, steady.armed idle clears]
      rfl,
    steady.justified.append fun clears => by cases clears⟩
  collect := collect_steady

theorem steady_create (run : Heap.create config = .ok (.ok h)) :
    Steady config.maximumSize { heap := h } := by
  obtain ⟨s, started, unmoved⟩ := Heap.create_unmoved run
  obtain ⟨-, active, map, -, rfl⟩ := Source.startup_eq started
  refine ⟨(Heap.Reachable.create run).source.governed, Heap.balanced_of_eq ?_, fun _ clears => ?_,
    justified_nil⟩
  · rw [unmoved.softThreshold, unmoved.source]
    rfl
  · exact absurd unmoved.softPolicy clears

theorem Reachable.steady (reachable : Reachable config c) : Steady config.maximumSize c :=
  (steady_upholds _).reachable (fun _ => steady_create) reachable

/-- However a heap is used, the threshold stays near the ideal size, and a collection that was not told
to do so lets soft references go only where the size has grown past the threshold since a collection
last took soft references on. So this does not happen more often than such growth. -/
theorem soft_references_hold_out (config : Config) :
    (∀ h, Heap.Reachable config h → h.softThreshold < h.source.ideal + 4 * Size.softSlack
      ∧ h.source.ideal < h.softThreshold + Size.softSlack)
    ∧ ∀ c, Reachable config c →
      (∀ before e after, c.past = before ++ e :: after → e.letsSoftGo = true →
        ∃ early crossing later, before = early ++ crossing :: later ∧ crossing.crosses = true
          ∧ ∀ e ∈ later, e.takesSoft = false)
      ∧ c.past.countP letsSoftGo ≤ c.past.countP crosses := by
  refine ⟨fun h reachable => ?_, fun c reachable => ⟨fun before e after split clears => ?_, ?_⟩⟩
  · obtain ⟨c, chronicled, rfl⟩ := exists_chronicle reachable
    exact chronicled.steady.balanced
  · exact isArmed_iff.1 (reachable.steady.justified before e after split clears).2
  · exact Nat.le_trans (Nat.le_add_right _ _) reachable.steady.justified.count

end Chronicle

/-- A heap that may grow from one page to four mebibytes. -/
def wideConfig : Config := { startSize := 4096, maximumSize := 4194304, startWorker := false }

def wide : Heap :=
  match Heap.create wideConfig with
  | .ok (.ok h) => h
  | _ => default

/-- Two soft references to objects that nothing else refers to, an object for which the heap has to
grow a lot, and two collections, of which the first lets one of the references go. -/
def outgrown : Chronicle :=
  let first := Region.arenaBase 0
  let second := first + 64
  let soft := Tag.make (some .soft) false true false 0
  Chronicle.afterAll { heap := wide }
    [.attach 0 "main", .request 0 24 {}, .request 0 24 { untracked := true },
      .request 0 24 {}, .request 0 24 { untracked := true },
      .write first 0 1 soft, .write first Object.referentWord 1 (first + 32),
      .write second 0 1 soft, .write second Object.referentWord 1 (second + 32),
      .request 0 200000 {}, .collect false, .collect false]

theorem reachable_outgrown : Chronicle.Reachable wideConfig outgrown :=
  (Chronicle.Reachable.create rfl).afterAll _

theorem outgrown_held_out : outgrown.past.countP Happening.letsSoftGo = 1
    ∧ 1 ≤ outgrown.past.countP Happening.crosses
    ∧ (∃ early crossing later, outgrown.past.take 7 = early ++ crossing :: later
      ∧ crossing.crosses = true ∧ ∀ e ∈ later, e.takesSoft = false)
    ∧ outgrown.heap.source.ideal < outgrown.heap.softThreshold + Size.softSlack := by
  have once : outgrown.past.countP Happening.letsSoftGo = 1 := by decide +kernel
  have clears : (outgrown.past.drop 7).head?.any Happening.letsSoftGo = true := by decide +kernel
  cases rest : outgrown.past.drop 7 with
  | nil =>
    rw [rest] at clears
    cases clears
  | cons e after =>
  have split : outgrown.past = outgrown.past.take 7 ++ e :: after := by
    rw [← rest, List.take_append_drop]
  rw [rest] at clears
  obtain ⟨settled, runs⟩ := Chronicle.soft_references_hold_out wideConfig
  obtain ⟨justified, count⟩ := runs outgrown reachable_outgrown
  refine ⟨once, once ▸ count, ?_, (settled _ reachable_outgrown.heap).2⟩
  exact justified _ _ _ split clears

end ManagedHeap
