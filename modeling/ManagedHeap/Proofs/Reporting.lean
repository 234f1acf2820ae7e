import ManagedHeap.Heap.Reports
import ManagedHeap.Object
import ManagedHeap.Proofs.MakingRoom

/-!
Reports that memory has run out do not come up within themselves. A program that is told may allocate as
it likes; what fails meanwhile is answered with an error prepared in advance, and so is then the
allocation that the report is about. After that the next failure is reported again.
-/

namespace ManagedHeap

/-! ### How far a report has come -/

namespace Heap

open Action

variable {h : Heap} {record other : Nat}

/-- How far a report has come on the thread of a record, if it is one of a mutator. -/
def reportOf (h : Heap) (record : Nat) : Option Reporting := (h.mutator? record).map Mutator.reporting

theorem mutator_modify (h : Heap) (record other : Nat) (change : Mutator → Mutator)
    (same : ∀ m, (change m).record = m.record) : (h.modifyMutator record change).mutator? other
      = (h.mutator? other).map fun m => if m.record = record then change m else m := by
  rw [mutator?, modifyMutator, List.find?_map]
  congr 2
  funext m
  rw [Function.comp_apply]
  split
  · rw [same]
  · rfl

theorem reportOf_modify (h : Heap) (record other : Nat) (change : Mutator → Mutator)
    (same : ∀ m, (change m).record = m.record ∧ (change m).reporting = m.reporting) :
    (h.modifyMutator record change).reportOf other = h.reportOf other := by
  rw [reportOf, reportOf, mutator_modify h record other change fun m => (same m).1, Option.map_map]
  congr 1
  funext m
  rw [Function.comp_apply]
  split
  · exact (same m).2
  · rfl

theorem reportOf_set (h : Heap) (record : Nat) (reporting : Reporting) :
    (h.modifyMutator record fun m => { m with reporting }).reportOf record
      = (h.reportOf record).map fun _ => reporting := by
  rw [reportOf, reportOf, mutator_modify h record record (fun m => { m with reporting }) fun _ => rfl,
    Option.map_map, Option.map_map]
  cases found : h.mutator? record with
  | none => rfl
  | some m =>
    have same : m.record = record := by simpa using List.find?_some found
    simp [same]

theorem reportOf_countIf (counted : Bool) (count : Action Profile Unit) (v : Option Reporting) :
    (countIf counted record count).Preserves fun h => h.reportOf other = v := by
  have heap : (onProfile count).Preserves fun h => h.reportOf other = v :=
    fun h same => ends_on.2 ⟨fun _ => same, fun _ => same⟩
  have mutator : (onMutatorProfile record count).Preserves fun h => h.reportOf other = v := by
    intro h same
    have kept : ∀ profile, (h.modifyMutator record fun m => { m with profile }).reportOf other = v := by
      intro profile
      rw [reportOf_modify]
      · exact same
      · exact fun _ => ⟨rfl, rfl⟩
    exact ends_on.2 ⟨fun _ => kept _, fun _ => kept _⟩
  unfold countIf
  split
  · exact heap.then fun _ => mutator
  · exact preserves_pure ()

variable [ObjectModel]

/-- A request as such reports nothing. -/
theorem reportOf_request (record size : Nat) (flags : AllocFlags) (v : Option Reporting) :
    (request record size flags).Preserves fun h => h.reportOf other = v := by
  have reworked : ∀ {h h' : Heap}, h.reportOf other = v → h.Reworked h' → h'.reportOf other = v := by
    intro h h' same reworked
    rw [reportOf, mutator?, reworked.mutators]
    exact same
  have collected : ∀ {h : Heap}, h.reportOf other = v → (h.countedFor record).reportOf other = v := by
    intro h same
    rw [countedFor, reportOf_modify]
    · exact same
    · exact fun _ => ⟨rfl, rfl⟩
  exact preserves_request reworked collected (fun _ _ => reportOf_countIf _ _ v) id flags

end Heap

/-! ### What is noted -/

section

variable [ObjectModel]

/-- What a series of allocations shows that are made while the program is told. One that finds no room is
refused with an error prepared in advance, and the program is not told again. -/
inductive Unreported (record : Nat) : Series → List Notice → Prop where
  | done : Unreported record .done []
  | found {size object : Nat} {flags : AllocFlags} {next : Except HeapError Nat → Series} {h h' : Heap}
    {log : List Notice} : Heap.request record size flags h = .ok (some object) h' →
    Unreported record (next (.ok object)) log → Unreported record (.allocate size flags next)
      (.began (.request record size flags) h :: .answered (.ok object) :: log)
  | refused {size : Nat} {flags : AllocFlags} {next : Except HeapError Nat → Series} {h h' : Heap}
    {log : List Notice} : Heap.request record size flags h = .ok none h' →
    Unreported record (next (.error (.outOfMemory size true))) log →
    Unreported record (.allocate size flags next) (.began (.request record size flags) h
      :: .answered (.error (.outOfMemory size true)) :: log)

/-- What a series of outermost allocations shows, given what was noted before. For one that finds no room
the program is told once. It makes the allocations of its habit, and the error says whether one of them was
refused. -/
inductive Reported (habit : List Notice → Series) (record : Nat) :
    List Notice → Series → List Notice → Prop where
  | done {before : List Notice} : Reported habit record before .done []
  | found {size object : Nat} {flags : AllocFlags} {next : Except HeapError Nat → Series} {h h' : Heap}
    {before log : List Notice} : Heap.request record size flags h = .ok (some object) h' →
    Reported habit record
      (before ++ [.began (.request record size flags) h, .answered (.ok object)])
      (next (.ok object)) log →
    Reported habit record before (.allocate size flags next)
      ([.began (.request record size flags) h, .answered (.ok object)] ++ log)
  | refused {size : Nat} {flags : AllocFlags} {next : Except HeapError Nat → Series} {h h' : Heap}
    {before inner log : List Notice} : Heap.request record size flags h = .ok none h' →
    Unreported record
      (habit (before ++ [.began (.request record size flags) h, .told record size])) inner →
    Reported habit record (before ++ ([.began (.request record size flags) h, .told record size] ++ inner
        ++ [.answered (.error (.outOfMemory size (inner.any Notice.isRefusal)))]))
      (next (.error (.outOfMemory size (inner.any Notice.isRefusal)))) log →
    Reported habit record before (.allocate size flags next)
      ([.began (.request record size flags) h, .told record size] ++ inner
        ++ [.answered (.error (.outOfMemory size (inner.any Notice.isRefusal)))] ++ log)

namespace Machine

open Action

variable {m : Machine (List Notice)} {record size : Nat} {flags : AllocFlags} {busy : Reporting}
  {take : TakeReport (List Notice)} {habit : List Notice → Series} {before : List Notice}

/-- A request broke off, and that was the last thing noted. -/
def BrokeOff (record : Nat) (before : List Notice) (cause : Failure) (m : Machine (List Notice)) : Prop :=
  ∃ log size flags h, m.client = before ++ (log ++ [.began (.request record size flags) h])
    ∧ Heap.request record size flags h = .error cause m.heap

theorem BrokeOff.after {cause : Failure} {log : List Notice}
    (broke : BrokeOff record (before ++ log) cause m) : BrokeOff record before cause m := by
  obtain ⟨later, size, flags, h, noted, fails⟩ := broke
  refine ⟨log ++ later, size, flags, h, ?_, fails⟩
  rw [noted]
  simp only [List.append_assoc]

omit [ObjectModel] in
theorem ends_reporting {done : Reporting → Machine (List Notice) → Prop}
    {failed : Failure → Machine (List Notice) → Prop} : (reporting record).Ends m done failed
      ↔ done ((m.heap.reportOf record).getD .idle) m := by
  rw [reporting, ends_bind, ends_get, Heap.reportOf]
  cases m.heap.mutator? record <;> exact ends_pure

/-- A request, with what it says of reports. -/
theorem request_ends (record size : Nat) (flags : AllocFlags) (m : Machine (List Notice)) :
    (onHeap (Heap.request record size flags)).Ends m
      (fun result m' => Heap.request record size flags m.heap = .ok result m'.heap
        ∧ m'.client = m.client ∧ m'.heap.reportOf record = m.heap.reportOf record)
      fun cause m' => Heap.request record size flags m.heap = .error cause m'.heap
        ∧ m'.client = m.client := by
  have kept : (Heap.request record size flags).Ends m.heap
      (fun _ h => h.reportOf record = m.heap.reportOf record)
      fun _ h => h.reportOf record = m.heap.reportOf record :=
    Heap.reportOf_request record size flags _ m.heap rfl
  exact ends_on.2 ⟨fun run => ⟨run, rfl, kept.ok run⟩, fun run => ⟨run, rfl⟩⟩

/-- Is the program being told? -/
def Busy (record : Nat) (m : Machine (List Notice)) : Prop :=
  m.heap.reportOf record = some .underway ∨ m.heap.reportOf record = some .failed

omit [ObjectModel] in
/-- While the program is told a report is only noted as having failed. -/
theorem reportOutOfMemory_busy (busy : Busy record m) : (reportOutOfMemory take record size).Ends m
    (fun error m' => error = .outOfMemory size true ∧ m'.client = m.client
      ∧ m'.heap.reportOf record = some .failed) fun _ _ => False := by
  have failed : (m.heap.modifyMutator record fun m => { m with reporting := .failed }).reportOf record
      = some .failed := by
    rw [Heap.reportOf_set]
    rcases busy with now | now <;> rw [now] <;> rfl
  rw [reportOutOfMemory, ends_bind, ends_reporting]
  rcases busy with now | now
  · rw [now]
    exact ends_bind.2 (ends_modify.2 (ends_pure.2 ⟨rfl, rfl, failed⟩))
  · rw [now]
    exact ends_bind.2 (ends_modify.2 (ends_pure.2 ⟨rfl, rfl, failed⟩))

/-- An allocation while the program is told, whatever it would do if it were told again. -/
theorem noteAllocate_busy (busy : Busy record m) : (noteAllocate take record size flags).Ends m
    (fun result m' => m'.client
        = m.client ++ [.began (.request record size flags) m.heap, .answered result]
      ∧ ((∃ object h', Heap.request record size flags m.heap = .ok (some object) h'
          ∧ result = .ok object ∧ m'.heap.reportOf record = m.heap.reportOf record)
        ∨ ∃ h', Heap.request record size flags m.heap = .ok none h'
          ∧ result = .error (.outOfMemory size true) ∧ m'.heap.reportOf record = some .failed))
    (BrokeOff record m.client) := by
  simp only [noteAllocate, notice, allocate, ends_bind, ends_get, ends_modify]
  refine (request_ends record size flags _).imp ?_ ?_
  · rintro (_ | object) m₁ ⟨run, noted, same⟩
    · have busy₁ : Busy record m₁ := by
        rw [Busy, same]
        exact busy
      rw [ends_bind]
      refine (reportOutOfMemory_busy busy₁).imp ?_ fun _ _ none => none.elim
      rintro _ m₂ ⟨rfl, noted₂, failed⟩
      rw [ends_pure, ends_pure]
      refine ⟨?_, .inr ⟨_, run, rfl, failed⟩⟩
      rw [noted₂, noted, List.append_assoc]
      rfl
    · rw [ends_pure, ends_pure]
      refine ⟨?_, .inl ⟨object, _, run, rfl, same⟩⟩
      rw [noted, List.append_assoc]
      rfl
  · rintro cause m₁ ⟨fails, noted⟩
    exact ⟨[], size, flags, m.heap, noted, fails⟩

/-- The allocations that are made while the program is told. -/
theorem follow_busy (series : Series) (busy : Busy record m) : (follow take record series).Ends m
    (fun _ m' => ∃ log, m'.client = m.client ++ log ∧ Unreported record series log
      ∧ m'.heap.reportOf record
        = if log.any Notice.isRefusal then some .failed else m.heap.reportOf record)
    (BrokeOff record m.client) := by
  induction series generalizing m with
  | done => exact ends_pure.2 ⟨[], (List.append_nil _).symm, .done, rfl⟩
  | allocate size flags next ih =>
    rw [follow, ends_bind]
    apply (noteAllocate_busy busy).mono
    rintro result m₁ ⟨noted, ⟨object, h', run, rfl, same⟩ | ⟨h', run, rfl, failed⟩⟩
    · have busy₁ : Busy record m₁ := by
        rw [Busy, same]
        exact busy
      refine (ih _ busy₁).imp ?_ fun cause m₂ broke => (noted ▸ broke).after
      rintro _ m₂ ⟨log, noted₂, shows, now⟩
      refine ⟨_, ?_, .found run shows, ?_⟩
      · rw [noted₂, noted, List.append_assoc]
        rfl
      · rw [now, same]
        rfl
    · refine (ih _ (.inr failed)).imp ?_ fun cause m₂ broke => (noted ▸ broke).after
      rintro _ m₂ ⟨log, noted₂, shows, now⟩
      refine ⟨_, ?_, .refused run shows, ?_⟩
      · rw [noted₂, noted, List.append_assoc]
        rfl
      · rw [now, failed, ite_self]
        rfl

/-- A report, with the allocations that the program makes when it is told. -/
theorem reportOutOfMemory_idle (idle : m.heap.reportOf record = some .idle) (depth : Nat) :
    (reportOutOfMemory (respond habit (depth + 1)) record size).Ends m
      (fun error m' => ∃ inner, Unreported record (habit (m.client ++ [.told record size])) inner
        ∧ m'.client = m.client ++ .told record size :: inner
        ∧ error = .outOfMemory size (inner.any Notice.isRefusal)
        ∧ m'.heap.reportOf record = some .idle)
      (BrokeOff record m.client) := by
  rw [reportOutOfMemory, ends_bind, ends_reporting, idle]
  simp only [Option.getD_some, setReporting, modifyHeap, respond, notice, ends_bind, ends_modify,
    ends_get]
  refine (follow_busy _ (.inl ?_)).imp ?_ fun cause m₁ broke => broke.after
  · rw [Heap.reportOf_set, idle]
    rfl
  · rintro _ m₁ ⟨inner, noted, shows, now⟩
    rw [ends_reporting, ends_pure]
    refine ⟨inner, shows, ?_, ?_, ?_⟩
    · rw [noted, List.append_assoc]
      rfl
    · rw [now, Heap.reportOf_set, idle]
      cases inner.any Notice.isRefusal <;> rfl
    · change (m₁.heap.modifyMutator record fun m => { m with reporting := .idle }).reportOf record = _
      rw [Heap.reportOf_set, now, Heap.reportOf_set, idle]
      cases inner.any Notice.isRefusal <;> rfl

/-- An outermost allocation. -/
theorem noteAllocate_idle (idle : m.heap.reportOf record = some .idle) (depth : Nat) :
    (noteAllocate (respond habit (depth + 1)) record size flags).Ends m
      (fun result m' => m'.heap.reportOf record = some .idle
        ∧ ((∃ object h', Heap.request record size flags m.heap = .ok (some object) h'
            ∧ result = .ok object ∧ m'.client
              = m.client ++ [.began (.request record size flags) m.heap, .answered (.ok object)])
          ∨ ∃ h' inner, Heap.request record size flags m.heap = .ok none h'
            ∧ Unreported record (habit
              (m.client ++ [.began (.request record size flags) m.heap, .told record size])) inner
            ∧ result = .error (.outOfMemory size (inner.any Notice.isRefusal))
            ∧ m'.client = m.client ++ ([.began (.request record size flags) m.heap, .told record size]
              ++ inner ++ [.answered result])))
      (BrokeOff record m.client) := by
  simp only [noteAllocate, notice, allocate, ends_bind, ends_get, ends_modify]
  refine (request_ends record size flags _).imp ?_ ?_
  · rintro (_ | object) m₁ ⟨run, noted, same⟩
    · have begun : m₁.client ++ [Notice.told record size]
          = m.client ++ [.began (.request record size flags) m.heap, .told record size] := by
        rw [noted, List.append_assoc]
        rfl
      rw [ends_bind]
      refine (reportOutOfMemory_idle (same.trans idle) depth).imp ?_ fun cause m₂ broke => ?_
      · rintro _ m₂ ⟨inner, shows, noted₂, rfl, idle₂⟩
        rw [ends_pure, ends_pure]
        rw [begun] at shows
        refine ⟨idle₂, .inr ⟨_, inner, run, shows, rfl, ?_⟩⟩
        rw [noted₂, noted]
        simp only [List.append_assoc, List.cons_append, List.nil_append]
      · rw [noted] at broke
        exact broke.after
    · rw [ends_pure, ends_pure]
      refine ⟨same.trans idle, .inl ⟨object, _, run, rfl, ?_⟩⟩
      rw [noted, List.append_assoc]
      rfl
  · rintro cause m₁ ⟨fails, noted⟩
    exact ⟨[], size, flags, m.heap, noted, fails⟩

/-- However a program responds to reports, and whatever it allocates in between and within them, for an
outermost allocation that fails it is told once, and within that not again. The error tells whether an
allocation was refused meanwhile, and every one that was refused meanwhile got the error prepared in
advance. Afterwards no report is under way. Nothing breaks off but a request for memory. -/
theorem reports_not_nested (idle : m.heap.reportOf record = some .idle) (habit : List Notice → Series)
    (depth : Nat) (series : Series) : (follow (respond habit (depth + 1)) record series).Ends m
      (fun _ m' => ∃ log, m'.client = m.client ++ log ∧ Reported habit record m.client series log
        ∧ m'.heap.reportOf record = some .idle)
      (BrokeOff record m.client) := by
  induction series generalizing m with
  | done => exact ends_pure.2 ⟨[], (List.append_nil _).symm, .done, idle⟩
  | allocate size flags next ih =>
    rw [follow, ends_bind]
    apply (noteAllocate_idle idle depth).mono
    rintro result m₁ ⟨idle₁, ⟨object, h', run, rfl, noted⟩ | ⟨h', inner, run, shows, rfl, noted⟩⟩
    · refine (ih _ idle₁).imp ?_ fun cause m₂ broke => (noted ▸ broke).after
      rintro _ m₂ ⟨log, noted₂, shown, idle₂⟩
      rw [noted] at noted₂ shown
      refine ⟨_, ?_, .found run shown, idle₂⟩
      rw [noted₂, List.append_assoc]
    · refine (ih _ idle₁).imp ?_ fun cause m₂ broke => (noted ▸ broke).after
      rintro _ m₂ ⟨log, noted₂, shown, idle₂⟩
      rw [noted] at noted₂ shown
      refine ⟨_, ?_, .refused run shows shown, idle₂⟩
      rw [noted₂, List.append_assoc]

end Machine

end

namespace Machine

open Action

/-- A heap of 64 KiB with a thread, and nothing noted. -/
def attached : Machine (List Notice) :=
  { heap := Heap.small.afterAll [.attach 0 "main"], client := [] }

/-- The first time that it is told the program allocates two objects, the second of which is too large. -/
def insist (noted : List Notice) : Series :=
  if noted.length ≤ 2 then .allocate 24 {} fun _ => .allocate 100000 {} fun _ => .done else .done

/-- Two allocations that are too large. -/
def tooLarge : Series := .allocate 100000 {} fun _ => .allocate 100000 {} fun _ => .done

/-- Both are reported. Only the first error says that an allocation was refused meanwhile. -/
theorem tooLarge_reported : ∃ m', follow (respond insist 1) 0 tooLarge attached = .ok () m'
    ∧ Reported insist 0 [] tooLarge m'.client
    ∧ m'.heap.reportOf 0 = some .idle
    ∧ (m'.client.filterMap fun
        | .answered (.error cause) => some cause
        | .answered (.ok _) | .began .. | .told .. => none)
      = [.outOfMemory 100000 true, .outOfMemory 100000 true, .outOfMemory 100000 false]
    ∧ (m'.client.filterMap fun
        | .told record size => some (record, size)
        | .answered _ | .began .. => none) = [(0, 100000), (0, 100000)] := by
  have idle : attached.heap.reportOf 0 = some .idle := by decide +kernel
  have run : follow (respond insist 1) 0 tooLarge attached
      = .ok () ((follow (respond insist 1) 0 tooLarge).after attached) :=
    eq_ok_of_succeeds (by decide +kernel)
  obtain ⟨log, noted, shows, still⟩ := (reports_not_nested idle insist 0 tooLarge).ok run
  refine ⟨_, run, ?_, still, by decide +kernel, by decide +kernel⟩
  rw [noted]
  exact shows

end Machine

end ManagedHeap
