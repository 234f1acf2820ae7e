import ManagedHeap.Heap.Handles
import ManagedHeap.Proofs.ChronicleRuns
import ManagedHeap.Proofs.RenumberedRuns

/-!
Chronicles of heaps whose bitmaps stand under other numbers. Of what programs do and of what they get
to know, only the numbers of bitmaps differ.
-/

namespace ManagedHeap

open Action

/-- The same came to pass, but for the numbers of bitmaps. What came to pass before there were other
numbers is the same altogether. -/
inductive Happening.Mirror (ρ : Renumbering) : Happening → Happening → Prop where
  | earlier (happening : Happening) : Mirror ρ happening happening
  | phases (collectSoft : Bool) (freed : Option (Nat × Nat)) {h k h' k' : Heap} :
    Heap.Mirror ρ h k → Heap.Mirror ρ h' k' →
    Mirror ρ (.phases collectSoft h freed h') (.phases collectSoft k freed k')
  | review {h k : Heap} : Heap.Mirror ρ h k → Mirror ρ (.review h) (.review k)
  | allocated (object : Nat) {h k : Heap} :
    Heap.Mirror ρ h k → Mirror ρ (.allocated object h) (.allocated object k)

namespace Chronicle

/-- The move for a program that knows the bitmaps by other numbers. -/
def Move.rename (number : Nat → Nat) : Move → Move
  | .operate (.replaceBitmaps numbers) => .operate (.replaceBitmaps (numbers.map number))
  | .exchange numbers => .exchange (numbers.map number)
  | move => move

/-- The reply to a program that knows the bitmaps by other numbers. -/
def Reply.rename (number : Nat → Nat) : Reply → Reply
  | .answer given => .answer given
  | .bitmaps numbers => .bitmaps (numbers.map number)
  | .exchanged accepted numbers => .exchanged accepted (numbers.map number)

/-- The heaps are the same, but for the numbers of bitmaps, and so is what has come to pass. -/
structure Mirror (ρ : Renumbering) (c d : Chronicle) : Prop where
  heap : Heap.Mirror ρ c.heap d.heap
  past : List.Forall₂ (Happening.Mirror ρ) c.past d.past

variable {α β : Type} {ρ : Renumbering} {c d : Chronicle}

theorem Mirror.note (mirror : Mirror ρ c d) {happening happening' : Happening}
    (same : Happening.Mirror ρ happening happening') :
    Mirror ρ (c.note happening) (d.note happening') :=
  ⟨mirror.heap, List.rel_append mirror.past (.cons same .nil)⟩

theorem simulates_within {v : α → β → Prop} {a : Action Heap α} {b : Action Heap β}
    (simulates : Simulates (Heap.Mirror ρ) v a b) : Simulates (Mirror ρ) v (within a) (within b) :=
  simulates.on (fun _ _ mirror => mirror.heap) fun _ _ _ _ mirror more => ⟨more, mirror.past⟩

theorem mirrors_onSource {a : Action Source α} (mirrors : Mirrors (Source.Mirror ρ) a a) :
    Mirrors (Mirror ρ) (within (Heap.onSource a)) (within (Heap.onSource a)) :=
  simulates_within (Heap.simulates_onSource mirrors)

theorem mirrors_aside (change : Heap → Heap)
    (same : ∀ (h : Heap) (s : Source), change { h with source := s } = { change h with source := s }) :
    Mirrors (Mirror ρ) (within (modify change)) (within (modify change)) :=
  simulates_within (Heap.mirrors_aside change same)

/-- The heap, for a program that does not look at the numbers of bitmaps. -/
theorem mirrors_look {w : α → β → Prop} {next : Heap → Action Chronicle α}
    {next' : Heap → Action Chronicle β}
    (rest : ∀ h k, Heap.Mirror ρ h k → Simulates (Mirror ρ) w (next h) (next' k)) :
    Simulates (Mirror ρ) w (within get >>= next) (within get >>= next') := by
  intro c d mirror
  have look : within get c = .ok c.heap c := rfl
  rw [ends_bind]
  exact (ends_of_ok look).2 (rest c.heap d.heap mirror.heap c d mirror)

theorem mirrors_review : Mirrors (Mirror ρ) review review := by
  refine (mirrors_modify fun c d mirror => ?_).then fun _ => simulates_within Heap.mirrors_sizeChanged
  exact mirror.note (.review mirror.heap)

theorem mirrors_setMinimum (size : Nat) : Mirrors (Mirror ρ) (setMinimum size) (setMinimum size) :=
  (mirrors_onSource (Source.mirrors_setMinimum size)).then fun _ => mirrors_review.then fun _ =>
    mirrors_pure _

theorem mirrors_allocGrowing (size : Nat) :
    Mirrors (Mirror ρ) (allocGrowing size) (allocGrowing size) :=
  (mirrors_onSource (Source.mirrors_allocAndGrow size)).then fun _ => mirrors_review.then fun _ =>
    mirrors_pure _

theorem mirrors_countIf (profiling : Bool) (record : Nat) (count : Action Profile Unit) :
    Mirrors (Mirror ρ) (within (Heap.countIf profiling record count))
      (within (Heap.countIf profiling record count)) :=
  simulates_within (Heap.mirrors_countIf profiling record count)

theorem mirrors_growExternal (n : Nat) :
    Mirrors (Mirror ρ) (growExternal n) (growExternal n) :=
  (mirrors_onSource (Source.mirrors_externalAlloc n true)).then fun _ => mirrors_review.then fun _ =>
    mirrors_pure _

theorem mirrors_externalPossible (n : Nat) :
    Mirrors (Mirror ρ) (externalPossible n) (externalPossible n) := by
  refine simulates_within (mirrors_get fun h k mirror => ?_)
  obtain ⟨mirror⟩ := mirror
  obtain ⟨-⟩ := mirror
  exact mirrors_lift _

variable [ObjectModel]

theorem mirrors_runCycle (collectSoft : Bool) :
    Mirrors (Mirror ρ) (runCycle collectSoft) (runCycle collectSoft) := by
  intro c d mirror
  obtain ⟨finishes, breaks⟩ := Heap.mirrors_runCycle collectSoft c.heap d.heap mirror.heap
  have written : ∀ {h k : Heap} (freed : Option (Nat × Nat)), Heap.Mirror ρ h k →
      Mirror ρ ({ c with heap := h }.note (.phases collectSoft c.heap freed h))
        ({ d with heap := k }.note (.phases collectSoft d.heap freed k)) :=
    fun {h k} freed after => by
      have run : Mirror ρ { c with heap := h } { d with heap := k } := ⟨after, mirror.past⟩
      exact run.note (.phases collectSoft freed mirror.heap after)
  unfold runCycle
  cases run : Heap.runCycle collectSoft c.heap with
  | ok freed h =>
    obtain ⟨_, k, run', rfl, after⟩ := finishes run
    have step : runCycle collectSoft d
        = .ok freed ({ d with heap := k }.note (.phases collectSoft d.heap (some freed) k)) := by
      rw [runCycle, run']
    refine (ends_of_ok (by rw [run])).2 ⟨freed, _, step, rfl, written _ after⟩
  | error cause h =>
    obtain ⟨k, run', after⟩ := breaks run
    have step : runCycle collectSoft d
        = .error cause ({ d with heap := k }.note (.phases collectSoft d.heap none k)) := by
      rw [runCycle, run']
    exact (ends_of_error (by rw [run])).2 ⟨_, step, written _ after⟩

theorem mirrors_collect (collectSoft : Bool) :
    Mirrors (Mirror ρ) (collect collectSoft) (collect collectSoft) := by
  refine mirrors_look fun h k mirror => ?_
  obtain ⟨-⟩ := mirror
  refine Simulates.ite (fun _ => mirrors_pure _) fun _ => ?_
  refine (mirrors_aside _ fun _ _ => rfl).then fun _ => ?_
  refine (simulates_within Heap.mirrors_checkWatchdog).then ?_
  rintro _ _ -
  refine (simulates_within Heap.mirrors_retainScheduled).then ?_
  rintro _ _ -
  refine (mirrors_runCycle collectSoft).then fun freed => ?_
  refine (mirrors_onSource Source.mirrors_growForUtilization).then fun _ => ?_
  exact mirrors_review.then fun _ => mirrors_aside _ fun _ _ => rfl

theorem mirrors_collectFor (record : Nat) (collectSoft : Bool) :
    Mirrors (Mirror ρ) (collectFor record collectSoft) (collectFor record collectSoft) := by
  refine mirrors_look fun h k mirror => ?_
  obtain ⟨-⟩ := mirror
  refine Simulates.ite (fun _ => ?_) fun _ => mirrors_collect collectSoft
  exact (mirrors_aside _ fun _ _ => rfl).then fun _ => mirrors_collect collectSoft

theorem mirrors_findRoom (record size : Nat) :
    Mirrors (Mirror ρ) (findRoom record size) (findRoom record size) := by
  have allocates : Mirrors (Mirror ρ) (within (Heap.onSource (Source.alloc size)))
    (within (Heap.onSource (Source.alloc size))) := mirrors_onSource (Source.mirrors_alloc size)
  refine mirrors_look fun h k mirror => ?_
  obtain ⟨mirror⟩ := mirror
  obtain ⟨-⟩ := mirror
  refine Simulates.ite (fun _ => mirrors_pure _) fun _ => allocates.then fun object => ?_
  cases object with
  | some x => exact mirrors_pure _
  | none =>
    refine (mirrors_collectFor record false).then fun _ => allocates.then fun object => ?_
    cases object with
    | some x => exact mirrors_pure _
    | none =>
      refine (mirrors_allocGrowing size).then fun object => ?_
      cases object with
      | some x => exact mirrors_pure _
      | none => exact (mirrors_collectFor record true).then fun _ => mirrors_allocGrowing size

theorem mirrors_request (record size : Nat) (flags : AllocFlags) :
    Mirrors (Mirror ρ) (request record size flags) (request record size flags) := by
  refine mirrors_look fun h k mirror => ?_
  obtain ⟨-⟩ := mirror
  refine (mirrors_findRoom record size).then fun object => ?_
  have counts : Mirrors (Mirror ρ) (do
      within (Heap.countIf h.profiling record (Profile.countAlloc size object.isSome))
      return object) _ := (mirrors_countIf _ _ _).then fun _ => mirrors_pure object
  cases object with
  | none => exact counts
  | some x =>
    refine Mirrors.then (mirrors_modify fun c d mirror => mirror.note (.allocated x mirror.heap))
      fun _ => ?_
    exact Mirrors.then (simulates_within (Heap.mirrors_enter record x flags)) fun _ => counts

theorem mirrors_chargeExternal (record n : Nat) :
    Mirrors (Mirror ρ) (chargeExternal record n) (chargeExternal record n) := by
  have charges : Mirrors (Mirror ρ) (within (Heap.onSource (Source.externalAlloc n false)))
      (within (Heap.onSource (Source.externalAlloc n false))) :=
    mirrors_onSource (Source.mirrors_externalAlloc n false)
  refine charges.then fun done => Simulates.ite (fun _ => mirrors_pure _) fun _ => ?_
  refine (mirrors_collectFor record false).then fun _ => charges.then fun done => ?_
  refine Simulates.ite (fun _ => mirrors_pure _) fun _ => ?_
  refine (mirrors_growExternal n).then fun done => Simulates.ite (fun _ => mirrors_pure _) fun _ => ?_
  exact (mirrors_collectFor record true).then fun _ => mirrors_growExternal n

theorem mirrors_findExternalRoom (record n : Nat) :
    Mirrors (Mirror ρ) (findExternalRoom record n) (findExternalRoom record n) := by
  have charges : Mirrors (Mirror ρ) (do
      if ← chargeExternal record n then return .ok ()
      return .error (.externalOutOfMemory n) : Action Chronicle (Except HeapError Unit)) _ :=
    (mirrors_chargeExternal record n).then fun done =>
      Simulates.ite (fun _ => mirrors_pure _) fun _ => mirrors_pure _
  refine (mirrors_externalPossible n).then fun possible => Simulates.ite (fun _ => ?_) fun _ => charges
  refine (mirrors_collectFor record false).then fun _ => ?_
  refine (mirrors_onSource Source.mirrors_shrinkToIdeal).then fun _ => ?_
  refine (mirrors_externalPossible n).then fun possible => ?_
  exact Simulates.ite (fun _ => mirrors_pure _) fun _ => charges

theorem mirrors_requestExternal (record n : Nat) :
    Mirrors (Mirror ρ) (requestExternal record n) (requestExternal record n) := by
  refine (mirrors_findExternalRoom record n).then fun result => mirrors_look fun h k mirror => ?_
  obtain ⟨-⟩ := mirror
  exact (mirrors_countIf _ _ _).then fun _ => mirrors_pure _

theorem mirrors_perform (op : Heap.Operation) (apart : ∀ numbers, op ≠ .replaceBitmaps numbers) :
    Mirrors (Mirror ρ) (perform op) (perform op) := by
  have aside : ∀ change : Heap → Heap, (∀ (h : Heap) (s : Source),
      change { h with source := s } = { change h with source := s }) →
        Mirrors (Mirror ρ) ((fun _ => Answer.done) <$> within (Heap.silent (modify change)))
          ((fun _ => Answer.done) <$> within (Heap.silent (modify change))) :=
    fun change same => (simulates_within ((Heap.mirrors_aside change same).then fun _ =>
      mirrors_pure none)).map fun _ _ _ => rfl
  have same : ∀ {α : Type} {a : Action Chronicle α} (answer : α → Answer), Mirrors (Mirror ρ) a a →
      Mirrors (Mirror ρ) (answer <$> a) (answer <$> a) :=
    fun answer mirrors => mirrors.map fun _ _ same => same ▸ rfl
  cases op with
  | request record size flags => exact same _ (mirrors_request record size flags)
  | collect soft => exact same _ (mirrors_collect soft)
  | requestExternal record n => exact same _ (mirrors_requestExternal record n)
  | setMinimum size => exact same _ (mirrors_setMinimum size)
  | freeExternal n => exact same _ (mirrors_onSource (Source.mirrors_externalFree n))
  | trim => exact same _ (mirrors_onSource Source.mirrors_trim)
  | beforeFork => exact same _ (mirrors_onSource Source.mirrors_beforeFork)
  | afterZygote => exact same _ (simulates_within Heap.mirrors_afterZygote)
  | attach thread name => exact same _ (simulates_within (Heap.mirrors_attach thread name))
  | takeWork => exact same _ (simulates_within Heap.mirrors_takeWork)
  | clearFlags record x flags =>
    exact same _ (simulates_within ((Heap.mirrors_clearFlags record x flags).then fun _ =>
      mirrors_pure none))
  | transition record state =>
    exact same _ (simulates_within ((Heap.mirrors_transition record state).then fun _ =>
      mirrors_pure none))
  | shutdown record =>
    exact same _ (simulates_within ((Heap.mirrors_shutdown record).then fun _ => mirrors_pure none))
  | write x index count value =>
    refine same _ (simulates_within ((mirrors_modify fun h k mirror => ?_).then fun _ =>
      mirrors_pure none))
    obtain ⟨mirror⟩ := mirror
    exact ⟨mirror.setWords x index count value⟩
  | setUtilization ratio =>
    refine same _ (simulates_within ((mirrors_modify fun h k mirror => ?_).then fun _ =>
      mirrors_pure none))
    obtain ⟨mirror⟩ := mirror
    exact ⟨mirror.setUtilization ratio⟩
  | snapshotBitmaps =>
    refine same _ (simulates_within ((mirrors_modify fun h k mirror => ?_).then fun _ =>
      mirrors_pure none))
    obtain ⟨mirror⟩ := mirror
    obtain ⟨-, copied⟩ := mirror.copies h.source.arenas []
    rw [← mirror.arenas] at copied
    exact ⟨copied⟩
  | replaceBitmaps numbers => exact absurd rfl (apart numbers)
  | detach | track | untrack | setRoots | setDebugging | setProfiling | setReporting | pass
  | startCall | endCall =>
    exact aside _ fun _ _ => rfl

/-- The bitmaps that a program offers have other numbers, too. -/
theorem mirrors_replaceBitmaps (numbers : List Nat) : Mirrors (Mirror ρ)
    (perform (.replaceBitmaps numbers)) (perform (.replaceBitmaps (numbers.map ρ.number))) := by
  refine Simulates.map (simulates_within ((mirrors_modify fun h k mirror => ?_).then fun _ =>
    mirrors_pure none)) fun _ _ _ => rfl
  rw [Heap.replaceBitmaps_eq, Heap.replaceBitmaps_eq]
  obtain ⟨mirror⟩ := mirror
  exact ⟨mirror.replaceCurrent numbers⟩

/-- Each move does the same, for programs that know the bitmaps by these numbers or by those. -/
theorem simulates_make (move : Move) : Simulates (Mirror ρ)
    (fun reply reply' => reply' = reply.rename ρ.number) (make move) (make (move.rename ρ.number)) := by
  cases move with
  | operate op =>
    have answers : ∀ answer answer' : Answer, answer = answer' →
        Reply.answer answer' = (Reply.answer answer).rename ρ.number := by
      rintro answer _ rfl
      rfl
    cases op with
    | replaceBitmaps numbers => exact (mirrors_replaceBitmaps numbers).map answers
    | _ => exact (mirrors_perform _ (by simp)).map answers
  | hold =>
    refine mirrors_look fun h k mirror => simulates_pure ?_
    have lives : k.source.arenas.map Arena.live
        = (h.source.arenas.map Arena.live).map ρ.number := by
      rw [mirror.source.arenas, List.map_map, List.map_map]
      rfl
    rw [lives]
    rfl
  | copy =>
    refine (simulates_within (Heap.simulates_onSource Source.simulates_copyBitmaps)).map ?_
    rintro numbers _ rfl
    rfl
  | exchange numbers =>
    refine Simulates.then
      (simulates_within (Heap.simulates_onSource (Source.simulates_exchange numbers))) ?_
    rintro ⟨accepted, returned⟩ _ rfl
    exact simulates_pure rfl

/-- And so do moves one after the other. -/
theorem Mirror.play (mirror : Mirror ρ c d) (moves : List Move) :
    (d.play (moves.map (·.rename ρ.number))).1
        = (c.play moves).1.map (Except.map (·.rename ρ.number))
      ∧ Mirror ρ (c.play moves).2 (d.play (moves.map (·.rename ρ.number))).2 := by
  induction moves generalizing c d with
  | nil => exact ⟨rfl, mirror⟩
  | cons move rest ih =>
    obtain ⟨answers, fails⟩ := simulates_make move c d mirror
    rw [List.map_cons, Chronicle.play, Chronicle.play]
    cases run : make move c with
    | ok reply c' =>
      obtain ⟨_, d', run', rfl, after⟩ := answers run
      rw [run']
      obtain ⟨replies, ended⟩ := ih after
      exact ⟨congrArg (_ :: ·) replies, ended⟩
    | error cause c' =>
      obtain ⟨d', run', after⟩ := fails run
      rw [run']
      obtain ⟨replies, ended⟩ := ih after
      exact ⟨congrArg (_ :: ·) replies, ended⟩

end Chronicle

end ManagedHeap
