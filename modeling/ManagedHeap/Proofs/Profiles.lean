import Mathlib.Algebra.BigOperators.Group.List.Basic
import Mathlib.Tactic.Abel
import ManagedHeap.Heap.Reports
import ManagedHeap.Object
import ManagedHeap.Proofs.MakingRoom

/-!
What is counted for the heap and what is counted for its mutators. Every event is counted for both, so that
the counts of the heap are those of all mutators that were ever attached, taken together.
-/

namespace ManagedHeap

namespace Profile

variable {p q : Profile} {size : Nat}

instance : Add Profile := ⟨add⟩

instance : Zero Profile := ⟨{}⟩

/-- Profiles add up count by count. -/
instance : AddCommMonoid Profile where
  add_assoc p q r := by
    change (p.add q).add r = p.add (q.add r)
    simp only [add, Nat.add_assoc]
  zero_add p := by
    change add {} p = p
    simp only [add, Nat.zero_add]
  add_zero p := rfl
  add_comm p q := by
    change p.add q = q.add p
    simp only [add, Nat.add_comm]
  nsmul := nsmulRec

/-- What an allocation of an object adds. -/
def ofAlloc (size : Nat) (succeeded : Bool) : Profile :=
  if succeeded then { allocCount := 1, allocSize := size }
  else { failedAllocCount := 1, failedAllocSize := size }

/-- What an allocation of external memory adds. -/
def ofExternal (size : Nat) (succeeded : Bool) : Profile :=
  if succeeded then { externalCount := 1, externalSize := size }
  else { failedExternalCount := 1, failedExternalSize := size }

/-- What a collection adds. -/
def ofCollection : Profile := { gcCount := 1 }

/-- Are all counts words? -/
def isInRange (p : Profile) : Bool := p.toList.all fun n => decide (n < Word.limit)

theorem isInRange_of_add (range : (p + q).isInRange = true) : p.isInRange = true := by
  change (p.add q).isInRange = true at range
  simp only [isInRange, toList, add, List.all_cons, List.all_nil, Bool.and_true, Bool.and_eq_true,
    decide_eq_true_eq] at range ⊢
  omega

theorem lt_of_isInRange (range : p.isInRange = true) {n : Nat} (count : n ∈ p.toList) : n < Word.limit :=
  of_decide_eq_true (List.all_eq_true.1 range n count)

/-- An event is counted, and then the bytes that it is about. -/
theorem tally_eq (bump : Profile → Profile) (bytes : Profile → Nat) (put : Nat → Profile → Profile)
    (fits : bytes (bump p) + size < Word.limit) : (do
      modify bump
      let total ← Word.add (bytes (← get)) size
      modify (put total) : Action Profile Unit) p = .ok () (put (bytes (bump p) + size) (bump p)) := by
  have sum : Word.add (bytes (bump p)) size = .ok (bytes (bump p) + size) := if_pos fits
  apply Action.Ends.eq_ok
  simp only [Action.ends_bind, Action.ends_modify, Action.ends_get, Action.ends_lift_of_ok sum]
  exact ⟨trivial, trivial⟩

/-- Unless a count leaves the range of a word, to count an event is to add it. -/
theorem countAlloc_eq {succeeded : Bool} (range : (p + ofAlloc size succeeded).isInRange = true) :
    countAlloc size succeeded p = .ok () (p + ofAlloc size succeeded) := by
  cases succeeded with
  | true =>
    have fits : (p + ofAlloc size true).allocSize < Word.limit := lt_of_isInRange range (by simp [toList])
    exact tally_eq (fun p => { p with allocCount := p.allocCount + 1 }) allocSize
      (fun total p => { p with allocSize := total }) fits
  | false =>
    have fits : (p + ofAlloc size false).failedAllocSize < Word.limit :=
      lt_of_isInRange range (by simp [toList])
    exact tally_eq (fun p => { p with failedAllocCount := p.failedAllocCount + 1 }) failedAllocSize
      (fun total p => { p with failedAllocSize := total }) fits

theorem countExternal_eq {succeeded : Bool} (range : (p + ofExternal size succeeded).isInRange = true) :
    countExternal size succeeded p = .ok () (p + ofExternal size succeeded) := by
  cases succeeded with
  | true =>
    have fits : (p + ofExternal size true).externalSize < Word.limit :=
      lt_of_isInRange range (by simp [toList])
    exact tally_eq (fun p => { p with externalCount := p.externalCount + 1 }) externalSize
      (fun total p => { p with externalSize := total }) fits
  | false =>
    have fits : (p + ofExternal size false).failedExternalSize < Word.limit :=
      lt_of_isInRange range (by simp [toList])
    exact tally_eq (fun p => { p with failedExternalCount := p.failedExternalCount + 1 })
      failedExternalSize (fun total p => { p with failedExternalSize := total }) fits

end Profile

namespace Heap

open Action

variable {h h' : Heap} {record n : Nat} {e : Profile}

/-! ### Heaps whose counts agree -/

/-- The counts of the heap are those of all mutators that were ever attached, taken together. -/
structure Accounted (h : Heap) : Prop where
  /-- There is one for every record that was ever made. -/
  enrolled : h.mutators.map Mutator.record = List.range h.threads.records.length
  total : h.profile = (h.mutators.map Mutator.profile).sum

/-- What tells whether the counts agree. -/
def books (h : Heap) : Profile × List Nat × List Profile × Nat :=
  (h.profile, h.mutators.map Mutator.record, h.mutators.map Mutator.profile, h.threads.records.length)

/-- The counts agree, and so many records were made at least. -/
structure Enrolls (n : Nat) (h : Heap) : Prop extends Accounted h where
  made : n ≤ h.threads.records.length

theorem Enrolls.congr (enrolls : Enrolls n h) (same : h'.books = h.books) : Enrolls n h' := by
  simp only [books, Prod.mk.injEq] at same
  obtain ⟨profile, records, profiles, length⟩ := same
  refine ⟨⟨?_, ?_⟩, ?_⟩
  · rw [records, length]
    exact enrolls.enrolled
  · rw [profile, profiles]
    exact enrolls.total
  · rw [length]
    exact enrolls.made

theorem Reworked.books (reworked : h.Reworked h') : h'.books = h.books := by
  rw [Heap.books, reworked.profile, reworked.mutators, reworked.threads]
  rfl

/-- A record that was made has one mutator, and it is that one which changes. -/
theorem Enrolls.split (enrolls : Enrolls n h) (known : record < n) :
    ∃ before m after, h.mutators = before ++ m :: after ∧ h.mutator? record = some m
      ∧ ∀ change, h.modifyMutator record change = { h with mutators := before ++ change m :: after } := by
  have listed : record ∈ h.mutators.map Mutator.record := by
    rw [enrolls.enrolled]
    exact List.mem_range.2 (known.trans_le enrolls.made)
  have distinct : (h.mutators.map Mutator.record).Nodup := by
    rw [enrolls.enrolled]
    exact List.nodup_range
  obtain ⟨m, attached, rfl⟩ := List.mem_map.1 listed
  obtain ⟨before, after, parts⟩ := List.append_of_mem attached
  rw [parts, List.map_append, List.map_cons, List.nodup_middle, List.nodup_cons,
    ← List.map_append] at distinct
  have others : ∀ m' ∈ before ++ after, m'.record ≠ m.record := by
    intro m' other same
    apply distinct.1
    rw [← same]
    exact List.mem_map_of_mem other
  have stays : ∀ (change : Mutator → Mutator) (part : List Mutator), part ⊆ before ++ after →
      (part.map fun m' => if m'.record = m.record then change m' else m') = part := by
    intro change part inside
    refine (List.map_congr_left fun m' other => ?_).trans part.map_id
    exact if_neg (others m' (inside other))
  refine ⟨before, m, after, parts, ?_, fun change => ?_⟩
  · rw [mutator?, parts, List.find?_append, List.find?_eq_none.2, Option.none_or]
    · exact List.find?_cons_of_pos (beq_self_eq_true _)
    · intro m' other same
      exact others m' (List.mem_append_left _ other) (eq_of_beq same)
  · rw [modifyMutator, parts, List.map_append, List.map_cons, if_pos rfl,
      stays change before (List.subset_append_left _ _), stays change after (List.subset_append_right _ _)]

/-- Something is counted for the heap and for the mutator of a record. -/
def counted (h : Heap) (record : Nat) (e : Profile) : Heap :=
  { h with profile := h.profile + e }.modifyMutator record fun m => { m with profile := m.profile + e }

theorem Enrolls.counted (enrolls : Enrolls n h) (known : record < n) (e : Profile) :
    Enrolls n (h.counted record e) := by
  obtain ⟨before, m, after, parts, -, changed⟩ := enrolls.split known
  have mutators : (h.counted record e).mutators = before ++ { m with profile := m.profile + e } :: after :=
    congrArg Heap.mutators (changed fun m => { m with profile := m.profile + e })
  obtain ⟨⟨enrolled, total⟩, made⟩ := enrolls
  rw [parts, List.map_append, List.map_cons] at enrolled total
  refine ⟨⟨?_, ?_⟩, made⟩
  · rw [mutators, List.map_append, List.map_cons]
    exact enrolled
  · rw [List.sum_append, List.sum_cons] at total
    rw [mutators, List.map_append, List.map_cons, List.sum_append, List.sum_cons]
    change h.profile + e = _ + (m.profile + e + _)
    rw [total]
    abel

/-- Unless a count leaves the range of a word, an event is counted for the heap and for a mutator. -/
theorem Enrolls.countIf (enrolls : Enrolls n h) (known : record < n)
    {count : Action Profile Unit} {profiling : Bool}
    (counts : ∀ {p : Profile}, (p + e).isInRange = true → count p = .ok () (p + e))
    (range : profiling = true → (h.profile + e).isInRange = true) :
    (countIf profiling record count).Ends h (fun _ h' => Enrolls n h') fun _ _ => False := by
  cases profiling with
  | false => exact ends_pure.2 enrolls
  | true =>
    obtain ⟨before, m, after, parts, found, changed⟩ := enrolls.split known
    have share : h.profile + e
        = m.profile + e + ((before.map Mutator.profile).sum + (after.map Mutator.profile).sum) := by
      rw [enrolls.total, parts, List.map_append, List.map_cons, List.sum_append, List.sum_cons]
      abel
    -- The mutator has a part of what the heap has, so its counts stay in range as well.
    have own : count m.profile = .ok () (m.profile + e) := by
      apply counts
      apply Profile.isInRange_of_add
      rw [← share]
      exact range rfl
    have once : { h with profile := h.profile + e }.modifyMutator record
          (fun m' => { m' with profile := m.profile + e }) = h.counted record e := by
      have put := changed fun m' => { m' with profile := m.profile + e }
      have added := changed fun m' => { m' with profile := m'.profile + e }
      exact congrArg (fun g : Heap => { g with profile := h.profile + e }) (put.trans added.symm)
    rw [Heap.countIf, if_pos rfl, ends_bind, onProfile, ends_on, ends_of_ok (counts (range rfl)),
      onMutatorProfile, ends_on]
    change count.Ends (((h.mutator? record).map Mutator.profile).getD {}) _ _
    rw [found]
    change count.Ends m.profile _ _
    rw [ends_of_ok own, once]
    exact enrolls.counted known e

/-! ### Operations -/

variable {α : Type}

theorem books_length {threads : Safepoint} (same : threads.records.length = h.threads.records.length) :
    { h with threads }.books = h.books := by
  rw [books, same]
  rfl

theorem Retains.enrolls {a : Action Heap α} (retains : Retains books a) : a.Preserves (Enrolls n) :=
  fun h enrolls => (retains _ h rfl).imp (fun _ _ same => enrolls.congr same)
    fun _ _ same => enrolls.congr same

/-- A mutator that is attached was counted nothing for yet. -/
theorem Enrolls.attached {thread : Nat} {name : String} {threads : Safepoint} (enrolls : Enrolls n h)
    (registered : h.threads.register thread name = .ok (record, threads)) :
    Enrolls n { h with threads, mutators := h.mutators ++ [{ record }] } := by
  have grown : record = h.threads.records.length
      ∧ threads.records.length = h.threads.records.length + 1 := by
    simp only [Safepoint.register] at registered
    split at registered
    · cases registered
    · split at registered
      · cases registered
      · cases registered
        exact ⟨rfl, List.length_append⟩
  obtain ⟨rfl, length⟩ := grown
  refine ⟨⟨?_, ?_⟩, ?_⟩
  · simp [enrolls.enrolled, length, List.range_succ]
  · rw [List.map_append, List.sum_append, ← enrolls.total]
    exact (add_zero _).symm
  · simp only [length]
    exact Nat.le_succ_of_le enrolls.made

theorem enrolls_attach (thread : Nat) (name : String) : (attach thread name).Preserves (Enrolls n) :=
  fun _ enrolls => ends_attach (fun _ _ => enrolls) fun registered => enrolls.attached registered

theorem enrolls_startWorker : startWorker.Preserves (Enrolls n) := by
  intro h enrolls
  refine ends_startWorker enrolls (fun _ _ => enrolls) fun registered => ?_
  have attached := enrolls.attached registered
  exact ⟨⟨attached.enrolled, attached.total⟩, attached.made⟩

theorem accounted_create {config : Config} (run : create config = .ok (.ok h)) : h.Accounted := by
  obtain ⟨s, -, made⟩ := create_cases run
  have enrolls : Enrolls 0 (begun config s) := ⟨⟨rfl, rfl⟩, Nat.zero_le _⟩
  rcases made with rfl | rfl
  · exact enrolls.toAccounted
  · exact (enrolls_startWorker.after enrolls).toAccounted

theorem books_modify (h : Heap) (record : Nat) (change : Mutator → Mutator)
    (same : ∀ m, (change m).record = m.record ∧ (change m).profile = m.profile) :
    (h.modifyMutator record change).books = h.books := by
  have kept : ∀ {γ : Type} (view : Mutator → γ), (∀ m, view (change m) = view m) →
      (h.modifyMutator record change).mutators.map view = h.mutators.map view := by
    intro γ view keeps
    rw [modifyMutator, List.map_map]
    apply List.map_congr_left
    intro m _
    rw [Function.comp_apply, apply_ite view, keeps, ite_self]
  rw [books, kept _ fun m => (same m).1, kept _ fun m => (same m).2]
  rfl

theorem length_track (s : Safepoint) (record x : Nat) :
    (s.track record x).records.length = s.records.length := List.length_modify ..

theorem length_untrack (s : Safepoint) (record x : Nat) :
    ((s.untrack? record x).getD s).records.length = s.records.length := by
  rw [Safepoint.untrack?]
  cases (s.trackedBy record).removeInOrder? x with
  | none => rfl
  | some rest => exact List.length_modify ..

theorem books_transition (h : Heap) (record : Nat) (state : ThreadState) :
    (h.transition record state).books = h.books := by
  obtain ⟨threads, same, rfl | rfl⟩ := h.transition_cases record state
  · rw [same]
  · rw [same]
    exact books_length (List.length_modify ..)

theorem books_shutdown (h : Heap) (record : Option Nat) : (h.shutdown record).books = h.books := by
  rcases shutdown_cases h record with same | ⟨_, rfl | ⟨own, rfl⟩, same⟩ <;> rw [same] <;> rfl

theorem books_untrack (record x : Nat) : Retains books (modify fun h =>
    { h with threads := (h.threads.untrack? record x).getD h.threads }) :=
  retains_modify fun h => books_length (length_untrack h.threads record x)

theorem books_clearFlags (record x : Nat) (flags : AllocFlags) :
    Retains books (clearFlags record x flags) := by
  intro shown h same
  apply ends_clearFlags
  case missing => exact fun _ _ => same
  case cleared =>
    rintro _ _ - (rfl | rfl)
    · exact same
    · exact (books_length (length_untrack h.threads record x)).trans same

theorem books_takeWork : Retains books takeWork := fun _ _ same =>
  ends_takeWork (fun _ _ => same) (fun _ => same) fun _ _ => same

theorem books_enter (record x : Nat) (flags : AllocFlags) : Retains books (enter record x flags) :=
  fun _ => preserves_enter (fun same reworked => reworked.books.trans same)
    (fun {h} same => (books_length (length_track h.threads record x)).trans same) flags

variable [ObjectModel]

/-- The operation is one of a thread that was attached, and no count of it leaves the range of a word. -/
def isCountable (h : Heap) : Operation → Bool
  | .request record size _ => decide (record < h.threads.records.length) &&
    match findRoom record size h with
    | .ok object h' => !h.profiling || (h'.profile + .ofAlloc size object.isSome).isInRange
    | .error .. => true
  | .requestExternal record n => decide (record < h.threads.records.length) &&
    match findExternalRoom record n h with
    | .ok result h' => !h'.profiling || (h'.profile + .ofExternal n result.toBool).isInRange
    | .error .. => true
  | _ => true

section

variable (known : record < n)

include known

theorem enrolls_findRoom (size : Nat) : (findRoom record size).Preserves (Enrolls n) :=
  preserves_findRoom (fun enrolls reworked => enrolls.congr reworked.books)
    (fun enrolls => enrolls.counted known Profile.ofCollection) size

theorem enrolls_findExternalRoom (bytes : Nat) :
    (findExternalRoom record bytes).Preserves (Enrolls n) :=
  preserves_findExternalRoom (fun enrolls reworked => enrolls.congr reworked.books)
    (fun enrolls => enrolls.counted known Profile.ofCollection) bytes

end

/-- A request, if what it counts can be counted. -/
theorem enrolls_request {size : Nat} {flags : AllocFlags} (enrolls : Enrolls h.threads.records.length h)
    (countable : h.isCountable (.request record size flags) = true) :
    (request record size flags).Ends h (fun _ h' => Enrolls h.threads.records.length h')
      fun _ h' => Enrolls h.threads.records.length h' := by
  obtain ⟨known, range⟩ := Bool.and_eq_true_iff.1 countable
  replace known := of_decide_eq_true known
  rw [request, ends_bind, ends_get, ends_bind]
  cases run : findRoom record size h with
  | error cause h₁ =>
    rw [ends_of_error run]
    exact (enrolls_findRoom known size h enrolls).error run
  | ok object h₁ =>
    rw [ends_of_ok run]
    rw [run] at range
    have enrolls₁ := (enrolls_findRoom known size h enrolls).ok run
    -- The object is entered first, which leaves the books as they are.
    have counts : ∀ h₂ : Heap, h₂.books = h₁.books → Ends (do
        countIf h.profiling record (Profile.countAlloc size object.isSome)
        return object) h₂ (fun _ h' => Enrolls h.threads.records.length h')
        fun _ h' => Enrolls h.threads.records.length h' := by
      intro h₂ same
      have profile : h₂.profile = h₁.profile := congrArg (·.1) same
      refine ends_bind.2 (((enrolls₁.congr same).countIf known Profile.countAlloc_eq fun profiling => ?_).imp
        (fun _ _ kept => ends_pure.2 kept) fun _ _ none => none.elim)
      rw [profile]
      simpa [profiling] using range
    cases object with
    | none => exact counts h₁ rfl
    | some x =>
      exact ends_bind.2 ((books_enter record x flags _ h₁ rfl).imp (fun _ h₂ same => counts h₂ same)
        fun _ _ same => enrolls₁.congr same)

theorem enrolls_requestExternal {bytes : Nat} (enrolls : Enrolls h.threads.records.length h)
    (countable : h.isCountable (.requestExternal record bytes) = true) :
    (requestExternal record bytes).Ends h (fun _ h' => Enrolls h.threads.records.length h')
      fun _ h' => Enrolls h.threads.records.length h' := by
  obtain ⟨known, range⟩ := Bool.and_eq_true_iff.1 countable
  replace known := of_decide_eq_true known
  rw [requestExternal, ends_bind]
  cases run : findExternalRoom record bytes h with
  | error cause h₁ =>
    rw [ends_of_error run]
    exact (enrolls_findExternalRoom known bytes h enrolls).error run
  | ok result h₁ =>
    rw [ends_of_ok run, ends_bind, ends_get, ends_bind]
    rw [run] at range
    have enrolls₁ := (enrolls_findExternalRoom known bytes h enrolls).ok run
    refine (enrolls₁.countIf known Profile.countExternal_eq fun profiling => ?_).imp
      (fun _ _ kept => ends_pure.2 kept) fun _ _ none => none.elim
    simpa [profiling] using range

/-- Every operation leaves the counts in agreement, and forgets no record. -/
theorem enrolls_perform {op : Operation} (accounted : h.Accounted) (countable : h.isCountable op = true) :
    (perform op).Ends h (fun _ h' => Enrolls h.threads.records.length h')
      fun _ h' => Enrolls h.threads.records.length h' := by
  have inner : ∀ (h : Heap) source, { h with source }.books = h.books := fun _ _ => rfl
  have enrolls : Enrolls h.threads.records.length h := ⟨accounted, Nat.le_refl _⟩
  have sources : ∀ {α : Type} {n : Nat} (a : Action Source α),
      (silent (onSource a)).Preserves (Enrolls n) := fun a => (retains_onSource inner a).silent.enrolls
  have changes : ∀ {n : Nat} {change : Heap → Heap}, (∀ h, (change h).books = h.books) →
      (silent (modify change)).Preserves (Enrolls n) := fun keeps => (retains_modify keeps).silent.enrolls
  cases op with
  | request record size flags => exact enrolls_request enrolls countable
  | requestExternal record bytes =>
    exact ends_bind.2 ((enrolls_requestExternal enrolls countable).mono fun _ _ kept => ends_pure.2 kept)
  | collect soft =>
    have keeps : ∀ {n}, (collect soft).Preserves (Enrolls n) :=
      preserves_collect (fun enrolls reworked => enrolls.congr reworked.books) soft
    exact preserves_silent keeps h enrolls
  | freeExternal bytes => exact sources _ h enrolls
  | trim => exact sources _ h enrolls
  | beforeFork => exact sources _ h enrolls
  | setMinimum size =>
    have sizes : Retains books (modify sizeChanged) := reworks_sizeChanged.retains Reworked.books
    have keeps : Retains books (setMinimum size) :=
      (retains_onSource inner _).then fun old => sizes.then fun _ => retains_pure old
    exact keeps.silent.enrolls h enrolls
  | afterZygote =>
    have keeps : ∀ {n}, afterZygote.Preserves (Enrolls n) :=
      preserves_afterZygote (retains_onSource inner _).enrolls enrolls_startWorker
    exact preserves_silent keeps h enrolls
  | attach thread name => exact preserves_silent (enrolls_attach thread name) h enrolls
  | clearFlags record x flags => exact (books_clearFlags record x flags).silent.enrolls h enrolls
  | takeWork => exact books_takeWork.silent.enrolls h enrolls
  | transition record state => exact changes (fun h => h.books_transition record state) h enrolls
  | track record x => exact changes (fun h => books_length (length_track h.threads record x)) h enrolls
  | untrack record x => exact (books_untrack record x).silent.enrolls h enrolls
  | setReporting record reporting =>
    refine changes (fun h => ?_) h enrolls
    exact h.books_modify record _ fun _ => ⟨rfl, rfl⟩
  | shutdown record => exact changes (fun h => h.books_shutdown record) h enrolls
  | replaceBitmaps numbers =>
    refine changes (fun h => ?_) h enrolls
    rw [Heap.replaceBitmaps_eq]
    rfl
  | detach | setRoots | write | setUtilization | snapshotBitmaps | setDebugging | setProfiling | pass
  | startCall | endCall =>
    refine changes ?_ h enrolls
    exact fun _ => rfl

end Heap

/-! ### Programs -/

namespace Machine

open Action

variable [ObjectModel] {m : Machine (List Notice)} {record size depth : Nat} {flags : AllocFlags}
  {habit : List Notice → Series} {take : TakeReport (List Notice)}

/-- Where all that was begun could be counted, the counts agree, and they did whenever something began. No
record was forgotten since. -/
def Agrees (m : Machine (List Notice)) : Prop :=
  (∀ {op h}, .began op h ∈ m.client → h.isCountable op = true) → m.heap.Accounted
    ∧ ∀ {op h}, .began op h ∈ m.client →
      h.Accounted ∧ h.threads.records.length ≤ m.heap.threads.records.length

theorem Agrees.notice (agrees : Agrees m) {n : Notice} (other : ∀ op h, n ≠ .began op h) :
    Agrees { m with client := m.client ++ [n] } := by
  intro countable
  have earlier : ∀ {op h}, .began op h ∈ m.client ++ [n] → .began op h ∈ m.client := by
    intro op h noted
    rcases List.mem_append.1 noted with earlier | last
    · exact earlier
    · exact absurd (List.mem_singleton.1 last).symm (other op h)
  obtain ⟨now, before⟩ := agrees fun noted => countable (List.mem_append_left _ noted)
  exact ⟨now, fun noted => before (earlier noted)⟩

/-- A change of the heap that leaves its counts in agreement. -/
theorem Agrees.heap (agrees : Agrees m) {h : Heap}
    (kept : m.heap.Accounted → Heap.Enrolls m.heap.threads.records.length h) :
    Agrees { m with heap := h } := by
  intro countable
  obtain ⟨now, before⟩ := agrees countable
  refine ⟨(kept now).toAccounted, fun noted => ⟨(before noted).1, ?_⟩⟩
  exact (before noted).2.trans (kept now).made

/-- An operation, after it was noted that it begins. -/
theorem Agrees.operate (agrees : Agrees m) (op : Heap.Operation) : (onHeap (Heap.perform op)).Ends
    { m with client := m.client ++ [.began op m.heap] } (fun _ m' => Agrees m') fun _ m' => Agrees m' := by
  have noted : ∀ {h' : Heap}, (m.heap.Accounted → m.heap.isCountable op = true →
      Heap.Enrolls m.heap.threads.records.length h') →
      Agrees { heap := h', client := m.client ++ [.began op m.heap] } := by
    intro h' kept countable
    obtain ⟨now, before⟩ := agrees fun noted => countable (List.mem_append_left _ noted)
    have enrolls := kept now (countable (List.mem_append_right _ (List.mem_singleton_self _)))
    refine ⟨enrolls.toAccounted, fun noted => ?_⟩
    rcases List.mem_append.1 noted with earlier | last
    · exact ⟨(before earlier).1, (before earlier).2.trans enrolls.made⟩
    · cases List.mem_singleton.1 last
      exact ⟨now, enrolls.made⟩
  rw [onHeap, ends_on]
  constructor
  · intro result h' run
    exact noted fun accounted countable => (Heap.enrolls_perform accounted countable).ok run
  · intro cause h' run
    exact noted fun accounted countable => (Heap.enrolls_perform accounted countable).error run

theorem agrees_setReporting (reporting : Reporting) :
    (setReporting record reporting).Preserves Agrees := by
  refine preserves_modify fun m agrees => agrees.heap fun accounted => ?_
  refine Heap.Enrolls.congr ⟨accounted, Nat.le_refl _⟩ ?_
  exact m.heap.books_modify record _ fun _ => ⟨rfl, rfl⟩

theorem agrees_reportOutOfMemory (takes : (take record size).Preserves Agrees) :
    (reportOutOfMemory take record size).Preserves Agrees := by
  have looks : (reporting record).Preserves Agrees := by
    refine preserves_get fun m agrees => ?_
    split <;> exact ends_pure.2 agrees
  refine looks.then fun busy => ?_
  cases busy with
  | idle =>
    exact (agrees_setReporting _).then fun _ => takes.then fun _ => looks.then fun _ =>
      (agrees_setReporting _).then fun _ => preserves_pure _
  | underway => exact (agrees_setReporting _).then fun _ => preserves_pure _
  | failed => exact (agrees_setReporting _).then fun _ => preserves_pure _

theorem agrees_noteAllocate (takes : (take record size).Preserves Agrees) :
    (noteAllocate take record size flags).Preserves Agrees := by
  intro m agrees
  simp only [noteAllocate, allocate, notice, ends_bind, ends_get, ends_modify]
  refine (agrees.operate (.request record size flags)).mono fun object m₁ agrees₁ => ?_
  have answered : ∀ {m₂ result}, Agrees m₂ →
      Agrees { m₂ with client := m₂.client ++ [.answered result] } :=
    fun agrees₂ => agrees₂.notice fun _ _ => Notice.noConfusion
  cases object with
  | none =>
    rw [ends_bind]
    refine (agrees_reportOutOfMemory takes m₁ agrees₁).mono fun error m₂ agrees₂ => ?_
    exact ends_pure.2 (ends_pure.2 (answered agrees₂))
  | some x => exact ends_pure.2 (ends_pure.2 (answered agrees₁))

theorem agrees_follow (takes : ∀ size, (take record size).Preserves Agrees) (series : Series) :
    (follow take record series).Preserves Agrees := by
  induction series with
  | done => exact preserves_pure ()
  | allocate size flags next ih => exact (agrees_noteAllocate (takes size)).then fun result => ih result

theorem agrees_respond (habit : List Notice → Series) (depth record size : Nat) :
    (respond habit depth record size).Preserves Agrees := by
  induction depth generalizing size with
  | zero => exact fun m agrees => ends_throw.2 agrees
  | succ depth ih =>
    intro m agrees
    simp only [respond, notice, ends_bind, ends_get, ends_modify]
    exact agrees_follow ih _ _ (agrees.notice fun _ _ => Notice.noConfusion)

theorem agrees_takeTurn (habit : List Notice → Series) (depth : Nat) (turn : Turn) :
    (takeTurn habit depth turn).Preserves Agrees := by
  cases turn with
  | operate op =>
    intro m agrees
    simp only [takeTurn, notice, ends_bind, ends_get, ends_modify]
    exact (agrees.operate op).mono fun _ m₁ agrees₁ => ends_pure.2 agrees₁
  | allocate record size flags =>
    exact (agrees_noteAllocate (agrees_respond habit depth record size)).then fun _ => preserves_pure ()

/-- Takes turns, also after one that broke off. -/
def takeTurns (habit : List Notice → Series) (depth : Nat) :
    List Turn → Machine (List Notice) → Machine (List Notice)
  | [], m => m
  | turn :: turns, m => takeTurns habit depth turns ((takeTurn habit depth turn).after m)

theorem Agrees.takeTurns (agrees : Agrees m) (habit : List Notice → Series) (depth : Nat)
    (turns : List Turn) : Agrees (takeTurns habit depth turns m) := by
  induction turns generalizing m with
  | nil => exact agrees
  | cons turn turns ih => exact ih ((agrees_takeTurn habit depth turn).after agrees)

/-- However mutators take turns, and whatever they allocate when they are told that memory has run out, the
counts of the heap are those of all mutators that were ever attached, taken together. So they are whenever
an operation begins, also within a report, and no mutator of that time is forgotten later. It does not
matter when counts were kept. -/
theorem profiles_agree {config : Config} {h : Heap} (created : Heap.create config = .ok (.ok h))
    (turns : List Turn) (ran : takeTurns habit depth turns { heap := h, client := [] } = m)
    (countable : ∀ op before, .began op before ∈ m.client → before.isCountable op = true) :
    m.heap.Accounted ∧ ∀ op before, .began op before ∈ m.client →
      before.Accounted ∧ before.threads.records.length ≤ m.heap.threads.records.length := by
  have start : Agrees { heap := h, client := [] } := by
    intro _
    refine ⟨Heap.accounted_create created, ?_⟩
    intro _ _ noted
    cases noted
  have agrees : Agrees m := ran ▸ start.takeTurns habit depth turns
  obtain ⟨now, before⟩ := agrees (countable _ _)
  exact ⟨now, fun _ _ => before⟩

end Machine

namespace Machine

/-- Told that memory has run out the program allocates two objects, the second of which is too large. -/
def spend (_ : List Notice) : Series := .allocate 24 {} fun _ => .allocate 100000 {} fun _ => .done

/-- Two mutators take turns, and the second is detached in between. Counts are not kept at first and at
last. -/
def shift : List Turn :=
  [.operate (.attach 0 "main"), .operate (.attach 1 "other"), .allocate 0 24 {},
    .operate (.setProfiling true), .allocate 0 40 {}, .allocate 0 100000 {},
    .operate (.requestExternal 1 100), .allocate 1 40 {}, .operate (.collect false),
    .operate (.detach 1), .allocate 0 100000 {}, .operate (.setProfiling false), .allocate 0 24 {}]

theorem shift_agrees :
    let m := takeTurns spend 1 shift { heap := Heap.small, client := [] }
    m.heap.Accounted ∧ m.heap.mutators.map Mutator.profile
      = [{ allocCount := 3, allocSize := 88, failedAllocCount := 4, failedAllocSize := 400000 },
        { allocCount := 1, allocSize := 40, gcCount := 1, externalCount := 1, externalSize := 100 }] := by
  have counts : ((takeTurns spend 1 shift { heap := Heap.small, client := [] }).client.all fun
      | .began op h => h.isCountable op
      | _ => true) = true := by decide +kernel
  have created : Heap.create Heap.smallConfig = .ok (.ok Heap.small) := rfl
  obtain ⟨now, -⟩ := profiles_agree created shift rfl fun op h noted => List.all_eq_true.1 counts _ noted
  exact ⟨now, by decide +kernel⟩

end Machine

end ManagedHeap
