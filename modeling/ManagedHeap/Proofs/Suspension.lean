import Mathlib.Data.List.Nodup
import ManagedHeap.Safepoint.Operation

/-!
That a suspension stops the world. From the step that puts it in force to the one that lifts it, every
attached thread but the one that asked for it is safe and none is attached. The list of attached
threads and the map that finds the record of a thread hold the same records at all times.
-/

namespace ManagedHeap

namespace Safepoint

variable {s s' : Safepoint} {thread number other : Nat} {name : String} {state : ThreadState}
  {asking : Option Nat} {op : Operation}

/-! ### Single records -/

/-- Moves a record to a state, whatever that means for others. -/
def setState (s : Safepoint) (number : Nat) (state : ThreadState) : Safepoint :=
  s.modify number fun record => { record with state }

theorem stateOf_eq (s : Safepoint) (number : Nat) :
    s.stateOf number = ((s.record? number).map ThreadRecord.state).getD .safe := by
  rw [stateOf]
  cases s.record? number <;> rfl

theorem record_setState (s : Safepoint) (number other : Nat) (state : ThreadState) :
    (s.setState number state).record? other
      = (s.record? other).map fun record =>
        if number = other then { record with state } else record := by
  simp only [record?, setState, modify, List.getElem?_modify]
  split <;> rfl

/-- Only the record itself changes its state. -/
theorem stateOf_setState (s : Safepoint) (number other : Nat) (state : ThreadState) :
    (s.setState number state).stateOf other = s.stateOf other
      ∨ other = number ∧ (s.setState number state).stateOf other = state := by
  simp only [stateOf_eq, record_setState]
  cases s.record? other with
  | none => exact .inl rfl
  | some record =>
    by_cases same : number = other
    · exact .inr ⟨same.symm, by simp [same]⟩
    · exact .inl (by simp [same])

/-- The thread that a record was made for. -/
def ownerOf (s : Safepoint) (number : Nat) : Option Nat :=
  (s.record? number).map ThreadRecord.thread

theorem ownerOf_setState (s : Safepoint) (number other : Nat) (state : ThreadState) :
    (s.setState number state).ownerOf other = s.ownerOf other := by
  rw [ownerOf, record_setState, ownerOf, Option.map_map]
  refine congrArg (Option.map · _) (funext fun record => ?_)
  change (if number = other then _ else _ : ThreadRecord).thread = _
  split <;> rfl

/-- A record that was made is there. -/
theorem lt_of_ownerOf (owned : s.ownerOf number = some thread) : number < s.records.length := by
  obtain ⟨record, known, -⟩ := Option.map_eq_some_iff.1 owned
  exact (List.getElem?_eq_some_iff.1 known).1

/-! ### What each step does -/

/-- A thread is attached only if it is not yet, and while no suspension is in force. -/
theorem perform_register (run : s.perform (.register thread name) = .ok s') :
    s.current? thread = none ∧ s.requested = false ∧ s' = { s with
      records := s.records ++ [{ thread, name }]
      members := s.members ++ [s.records.length]
      attached := s.attached ++ [(thread, s.records.length)] } := by
  simp only [perform, register] at run
  split at run
  · cases run
  case isFalse absent =>
    split at run
    · cases run
    case isFalse free =>
      cases run
      exact ⟨by simpa using absent, by simpa using free, rfl⟩

/-- A record becomes running only while no suspension is in force. -/
theorem perform_transition (run : s.perform (.transition number state) = .ok s') :
    s' = s ∨ (state = .safe ∨ s.requested = false) ∧ s' = s.setState number state := by
  simp only [perform, transition] at run
  split at run
  · cases run
    exact .inl rfl
  · split at run
    · cases run
    case isFalse allowed =>
      cases run
      refine .inr ⟨?_, rfl⟩
      cases state with
      | safe => exact .inl rfl
      | running => exact .inr (by simpa using allowed)

theorem perform_park (run : s.perform (.park number) = .ok s') :
    s.requested = false ∧ s' = s.setState number .running := by
  simp only [perform, park] at run
  split at run
  · cases run
  case isFalse free =>
    cases run
    exact ⟨by simpa using free, rfl⟩

/-- A suspension is in force only when every other thread has come to rest. -/
theorem perform_suspend (run : s.perform (.suspend asking) = .ok s') :
    s.requested = false ∧ s.othersRun asking = false ∧ s' = { s with requested := true } := by
  simp only [perform, suspend] at run
  split at run
  · cases run
  case isFalse free =>
    cases run
    rw [Bool.or_eq_true, not_or, Bool.not_eq_true, Bool.not_eq_true] at free
    exact ⟨free.1, free.2, rfl⟩

/-- What every step that is taken keeps up holds after any step. -/
theorem after_of_perform {p : Safepoint → Prop} (unchanged : p s)
    (taken : ∀ s', s.perform op = .ok s' → p s') : p (s.after op) := by
  rw [after]
  cases run : s.perform op with
  | error => exact unchanged
  | ok s' => exact taken s' run

/-! ### The list and the map -/

/-- The map of the attached threads has the records of the list, each once and in the same order, and
for each thread at most one, which was made for it. -/
structure Consistent (s : Safepoint) : Prop where
  same : s.attached.map Prod.snd = s.members
  distinct : s.members.Nodup
  single : (s.attached.map Prod.fst).Nodup
  own : ∀ entry ∈ s.attached, s.ownerOf entry.2 = some entry.1

theorem Consistent.lt_of_member (consistent : s.Consistent) (member : number ∈ s.members) :
    number < s.records.length := by
  rw [← consistent.same] at member
  obtain ⟨entry, known, rfl⟩ := List.mem_map.1 member
  exact lt_of_ownerOf (consistent.own entry known)

/-- A thread finds the record that the map has for it. -/
theorem Consistent.current_eq_some_iff (consistent : s.Consistent) :
    s.current? thread = some number ↔ (thread, number) ∈ s.attached := by
  simp only [current?, Option.map_eq_some_iff]
  constructor
  · rintro ⟨entry, found, rfl⟩
    have here := List.find?_some found
    rw [beq_iff_eq] at here
    subst here
    exact List.mem_of_find?_eq_some found
  · intro known
    cases found : s.attached.find? fun entry => entry.1 == thread with
    | none =>
      have missed := List.find?_eq_none.1 found _ known
      exact absurd (beq_self_eq_true thread) missed
    | some entry =>
      have here := List.find?_some found
      rw [beq_iff_eq] at here
      have same := List.inj_on_of_nodup_map consistent.single (List.mem_of_find?_eq_some found)
        known here
      exact ⟨entry, rfl, congrArg Prod.snd same⟩

/-- To give up a record its thread need look through its own entries of the map only. -/
theorem Consistent.unregister_own (consistent : s.Consistent) (owned : s.ownerOf number = some thread) :
    (s.unregister number).attached = s.attached.filter (· != (thread, number)) := by
  refine List.filter_congr fun entry known => ?_
  rw [Bool.eq_iff_iff, bne_iff_ne, bne_iff_ne]
  constructor
  · rintro other rfl
    exact other rfl
  · rintro other same
    have mine := consistent.own entry known
    rw [same, owned] at mine
    exact other (Prod.ext (Option.some.inj mine).symm same)

/-- Who is attached, and by which records, is as before. -/
theorem Consistent.congr (consistent : s.Consistent) (members : s'.members = s.members)
    (attached : s'.attached = s.attached) (owner : ∀ number, s'.ownerOf number = s.ownerOf number) :
    s'.Consistent := by
  refine ⟨?_, members ▸ consistent.distinct, attached ▸ consistent.single, ?_⟩
  · rw [attached, members]
    exact consistent.same
  · intro entry known
    rw [attached] at known
    rw [owner]
    exact consistent.own entry known

theorem Consistent.setState (consistent : s.Consistent) (number : Nat) (state : ThreadState) :
    (s.setState number state).Consistent :=
  consistent.congr rfl rfl fun other => ownerOf_setState s number other state

theorem Consistent.unregister (consistent : s.Consistent) (number : Nat) :
    (s.unregister number).Consistent := by
  have entries : (s.unregister number).attached.Sublist s.attached := List.filter_sublist
  refine ⟨?_, consistent.distinct.filter _, consistent.single.sublist (entries.map _), ?_⟩
  · change (s.attached.filter _).map Prod.snd = s.members.filter _
    rw [← consistent.same, List.filter_map]
    rfl
  · intro entry known
    exact consistent.own entry (entries.subset known)

theorem Consistent.register (consistent : s.Consistent)
    (run : s.perform (.register thread name) = .ok s') : s'.Consistent := by
  obtain ⟨absent, -, rfl⟩ := perform_register run
  have owner : ∀ {number : Nat}, number < s.records.length →
      ownerOf { s with records := s.records ++ [{ thread, name }] } number = s.ownerOf number := by
    intro number known
    rw [ownerOf, ownerOf, record?, record?, List.getElem?_append_left known]
  have last : ownerOf { s with records := s.records ++ [{ thread, name }] } s.records.length
      = some thread := by
    rw [ownerOf, record?, List.getElem?_concat_length]
    rfl
  refine ⟨?_, ?_, ?_, ?_⟩
  · rw [List.map_append, consistent.same]
    rfl
  · change (s.members ++ [s.records.length]).Nodup
    rw [← List.concat_eq_append]
    exact consistent.distinct.concat fun member =>
      absurd (consistent.lt_of_member member) (Nat.lt_irrefl _)
  · rw [List.map_append, List.map_singleton, ← List.concat_eq_append]
    refine consistent.single.concat fun known => ?_
    obtain ⟨entry, here, rfl⟩ := List.mem_map.1 known
    have attached : s.current? entry.1 = some entry.2 := consistent.current_eq_some_iff.2 here
    rw [attached] at absent
    cases absent
  · intro entry known
    rcases List.mem_append.1 known with before | new
    · refine (owner ?_).trans (consistent.own entry before)
      exact lt_of_ownerOf (consistent.own entry before)
    · cases List.mem_singleton.1 new
      exact last

theorem Consistent.after (consistent : s.Consistent) (op : Operation) : (s.after op).Consistent := by
  refine after_of_perform consistent fun s' run => ?_
  cases op with
  | register thread name => exact consistent.register run
  | unregister record =>
    cases run
    exact consistent.unregister record
  | transition record state =>
    rcases perform_transition run with rfl | ⟨-, rfl⟩
    · exact consistent
    · exact consistent.setState record state
  | park record =>
    obtain ⟨-, rfl⟩ := perform_park run
    exact consistent.setState record .running
  | suspend asking =>
    obtain ⟨-, -, rfl⟩ := perform_suspend run
    exact consistent.congr rfl rfl fun _ => rfl
  | resume =>
    cases run
    exact consistent.congr rfl rfl fun _ => rfl

theorem Consistent.afterAll (consistent : s.Consistent) (ops : List Operation) :
    (s.afterAll ops).Consistent := by
  induction ops generalizing s with
  | nil => exact consistent
  | cons op rest ih => exact ih (consistent.after op)

/-- Nobody is attached to begin with. There may be records that have nothing to do with this heap. -/
theorem consistent_fresh (records : List ThreadRecord) : Consistent { records } :=
  ⟨rfl, List.nodup_nil, List.nodup_nil, List.forall_mem_nil _⟩

theorem afterAll_append (s : Safepoint) (ops more : List Operation) :
    s.afterAll (ops ++ more) = (s.afterAll ops).afterAll more := by
  induction ops generalizing s with
  | nil => rfl
  | cons op rest ih => exact ih (s.after op)

/-! ### While a suspension is in force -/

/-- A suspension is in force, and every attached thread but the one that asked for it is safe. -/
structure Stopped (asking : Option Nat) (s : Safepoint) : Prop where
  requested : s.requested = true
  safe : ∀ number ∈ s.members, some number ≠ asking → s.stateOf number = .safe

theorem stopped_of_suspend (run : s.perform (.suspend asking) = .ok s') : s'.Stopped asking := by
  obtain ⟨-, rest, rfl⟩ := perform_suspend run
  refine ⟨rfl, fun number member other => ?_⟩
  have quiet := List.any_eq_false.1 rest number member
  change s.stateOf number = .safe
  cases state : s.stateOf number with
  | safe => rfl
  | running => exact absurd (by simp [other, state]) quiet

/-- No step but the one that lifts the suspension sets a thread running or attaches one. -/
theorem Stopped.after (stopped : s.Stopped asking) (held : op ≠ .resume) :
    (s.after op).Stopped asking ∧ (s.after op).members.Sublist s.members := by
  have requested := stopped.requested
  have unchanged : s.Stopped asking ∧ s.members.Sublist s.members := ⟨stopped, .refl _⟩
  refine after_of_perform (p := fun s' => s'.Stopped asking ∧ s'.members.Sublist s.members)
    unchanged fun s' run => ?_
  cases op with
  | register thread name =>
    have free := (perform_register run).2.1
    rw [requested] at free
    cases free
  | unregister record =>
    cases run
    have fewer : (s.members.filter (· != record)).Sublist s.members := List.filter_sublist
    refine ⟨⟨requested, fun number member other => ?_⟩, fewer⟩
    exact stopped.safe number (fewer.subset member) other
  | transition record state =>
    rcases perform_transition run with rfl | ⟨safe | free, rfl⟩
    · exact unchanged
    · refine ⟨⟨requested, fun number member other => ?_⟩, .refl _⟩
      rcases stateOf_setState s record number state with same | ⟨-, moved⟩
      · rw [same]
        exact stopped.safe number member other
      · rw [moved, safe]
    · rw [requested] at free
      cases free
  | park record =>
    have free := (perform_park run).1
    rw [requested] at free
    cases free
  | suspend again =>
    have free := (perform_suspend run).1
    rw [requested] at free
    cases free
  | resume => exact absurd rfl held

theorem Stopped.afterAll (stopped : s.Stopped asking) {ops : List Operation}
    (held : .resume ∉ ops) :
    (s.afterAll ops).Stopped asking ∧ (s.afterAll ops).members.Sublist s.members := by
  induction ops generalizing s with
  | nil => exact ⟨stopped, .refl _⟩
  | cons op rest ih =>
    rw [List.mem_cons, not_or] at held
    obtain ⟨still, fewer⟩ := stopped.after (Ne.symm held.1)
    obtain ⟨end_still, end_fewer⟩ := ih still held.2
    exact ⟨end_still, end_fewer.trans fewer⟩

/-- After any steps the list and the map agree. When a suspension comes into force, and until it is
lifted, every attached thread but the one that asked is safe, and between any two moments of that time
no thread is attached. -/
theorem stops_the_world (records : List ThreadRecord) (ops : List Operation) :
    let s : Safepoint := afterAll { records } ops
    s.Consistent ∧ ∀ (asking : Option Nat) (suspended : Safepoint),
      s.perform (.suspend asking) = .ok suspended →
      ∀ between more : List Operation, .resume ∉ between ++ more →
        (suspended.afterAll between).Stopped asking
          ∧ (suspended.afterAll (between ++ more)).members.Sublist
            (suspended.afterAll between).members := by
  refine ⟨(consistent_fresh records).afterAll ops, ?_⟩
  intro asking suspended run between more held
  rw [List.mem_append, not_or] at held
  have first := ((stopped_of_suspend run).afterAll held.1).1
  rw [afterAll_append]
  exact ⟨first, (first.afterAll held.2).2⟩

/-- Two threads come to rest and a third has the world stopped. Of those at rest one tries to run again
in vain and the other leaves, nobody else can be attached, and no other suspension comes into force. -/
theorem meeting_stops :
    let met : List Operation := [.register 0 "main", .register 1 "reader", .register 2 "idler",
      .transition 1 .safe, .transition 2 .safe]
    let between : List Operation := [.transition 1 .running, .park 1, .unregister 2]
    let more : List Operation := [.register 3 "late", .suspend none]
    ∃ suspended, (afterAll {} met).perform (.suspend (some 0)) = .ok suspended
      ∧ (suspended.afterAll between).members = [0, 1]
      ∧ (suspended.afterAll between).Stopped (some 0)
      ∧ (suspended.afterAll (between ++ more)).members.Sublist
        (suspended.afterAll between).members := by
  intro met between more
  obtain ⟨-, stops⟩ := stops_the_world [] met
  obtain ⟨stopped, fewer⟩ := stops (some 0) _ rfl between more (by decide)
  exact ⟨_, rfl, by decide, stopped, fewer⟩

end Safepoint

end ManagedHeap
