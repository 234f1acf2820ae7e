import Mathlib.Data.Set.List
import ManagedHeap.Object
import ManagedHeap.Proofs.HeapRuns
import ManagedHeap.Proofs.RenumberedChronicles
import ManagedHeap.Proofs.SwappedBitmaps

/-!
Copies of the live bitmaps in place of the live ones. A heap does with the copies what it would have done
with the bitmaps that they are copies of, and to these nothing happens any more.
-/

namespace ManagedHeap

namespace Chronicle

open Action

variable [ObjectModel] {c d : Chronicle}

/-! ### Moves -/

/-- The chronicle with other arenas, where nothing is written down. -/
def withSource (c : Chronicle) (source : Source) : Chronicle := { c with heap := { c.heap with source } }

theorem make_hold (c : Chronicle) :
    make .hold c = .ok (.bitmaps (c.heap.source.arenas.map Arena.live)) c := rfl

theorem make_copy (c : Chronicle) : make .copy c = .ok (.bitmaps c.heap.source.snapshotBitmaps.1)
    (c.withSource c.heap.source.snapshotBitmaps.2) := rfl

theorem make_exchange (c : Chronicle) (numbers : List Nat) : make (.exchange numbers) c
    = .ok (.exchanged (c.heap.source.replaceBitmaps numbers).1 (c.heap.source.replaceBitmaps numbers).2.1)
      (c.withSource (c.heap.source.replaceBitmaps numbers).2.2) := rfl

theorem make_replaceBitmaps (c : Chronicle) (numbers : List Nat) :
    make (.operate (.replaceBitmaps numbers)) c
      = .ok (.answer .done) { c with heap := c.heap.replaceBitmaps numbers } := rfl

theorem make_neat (move : Move) : (make move).Preserves fun c => c.heap.source.Neat := by
  intro c neat
  cases move with
  | operate op =>
    have drives := Heap.drives_any op c.heap
    have steps : ∀ {s' : Source}, Source.Steps (fun _ => True) c.heap.source s' → s'.Neat :=
      fun steps => steps.holds (fun op _ => Source.preserves_neat op) neat
    refine ends_map.2 ((erases_perform op c).imp ?_ ?_)
    · exact fun _ c' run => steps (drives.ok run)
    · exact fun _ c' run => steps (drives.error run)
  | hold => exact (ends_of_ok (make_hold c)).2 neat
  | copy => exact (ends_of_ok (make_copy c)).2 neat.snapshotBitmaps
  | exchange numbers => exact (ends_of_ok (make_exchange c numbers)).2 (neat.replaceBitmaps numbers)

theorem play_cons (c : Chronicle) (move : Move) (rest : List Move) :
    (c.play (move :: rest)).2 = (((make move).after c).play rest).2 := by
  rw [play, Action.after]
  cases make move c <;> rfl

theorem play_append (c : Chronicle) (moves rest : List Move) :
    (c.play (moves ++ rest)).2 = ((c.play moves).2.play rest).2 := by
  induction moves generalizing c with
  | nil => rfl
  | cons move moves ih => rw [List.cons_append, play_cons, ih, play_cons]

theorem play_neat (neat : c.heap.source.Neat) (moves : List Move) :
    (c.play moves).2.heap.source.Neat := by
  induction moves generalizing c with
  | nil => exact neat
  | cons move rest ih =>
    rw [play_cons]
    exact ih ((make_neat move).after neat)

omit [ObjectModel] in
theorem neat_create {config : Config} {h : Heap} (create : Heap.create config = .ok (.ok h)) :
    h.source.Neat := by
  obtain ⟨s, started, source, -⟩ := Heap.create_frame create
  rw [source]
  exact (Source.Neat.of_startup started).of_resized ⟨⟨_, rfl⟩, rfl, rfl, rfl, rfl⟩

/-! ### Copies in place of the live bitmaps -/

/-- The chronicle of a heap whose live bitmaps are replaced by copies. -/
def swapped (c : Chronicle) : Chronicle := c.withSource c.heap.source.swapped

/-- Copies of the live bitmaps can be made, and are taken in exchange for these. -/
theorem play_swap (neat : c.heap.source.Neat) :
    c.play [.hold, .copy, .exchange (List.range' c.heap.source.bitmaps.length c.heap.source.arenas.length)]
      = ([.ok (.bitmaps (c.heap.source.arenas.map Arena.live)),
          .ok (.bitmaps (List.range' c.heap.source.bitmaps.length c.heap.source.arenas.length)),
          .ok (.exchanged true (c.heap.source.arenas.map Arena.live))], c.swapped) := by
  have copies := neat.settled.snapshotBitmaps_withCopies
  have exchange := neat.exchange_copies
  simp only [play, make_hold, make_copy, make_exchange, copies]
  change ([_, _, Except.ok (Reply.exchanged (c.heap.source.withCopies.replaceBitmaps _).1
    (c.heap.source.withCopies.replaceBitmaps _).2.1)],
    c.withSource (c.heap.source.withCopies.replaceBitmaps _).2.2) = _
  rw [exchange]
  rfl

omit [ObjectModel] in
theorem mirror_swapped (neat : c.heap.source.Neat) :
    Mirror (c.heap.source.followed neat.settled) c c.swapped where
  heap := ⟨neat.swaps⟩
  past := List.forall₂_same.2 fun happening _ => .earlier happening

/-! ### The bitmaps that were live -/

/-- The bitmaps that a move offers to the arenas. -/
def Move.offered : Move → List Nat
  | .operate (.replaceBitmaps numbers) => numbers
  | .exchange numbers => numbers
  | _ => []

omit [ObjectModel] in
theorem rename_eq {number : Nat → Nat} {move : Move} (none : move.offered = []) :
    move.rename number = move := by
  cases move with
  | operate op => cases op <;> cases none <;> rfl
  | hold | copy => rfl
  | exchange numbers =>
    cases none
    rfl

omit [ObjectModel] in
/-- A move that offers only bitmaps with other numbers can be made by a program that knows them by the
numbers they had. -/
theorem exists_rename {number : Nat → Nat} {move : Move}
    (known : ∀ n ∈ move.offered, ∃ m, number m = n) : ∃ move' : Move, move'.rename number = move := by
  have all : ∀ numbers : List Nat, (∀ n ∈ numbers, ∃ m, number m = n) →
      numbers ∈ Set.range (List.map number) := by
    intro numbers known
    rw [Set.range_list_map]
    exact known
  cases move with
  | operate op =>
    cases op with
    | replaceBitmaps numbers =>
      obtain ⟨old, rfl⟩ := all numbers known
      exact ⟨.operate (.replaceBitmaps old), rfl⟩
    | _ => exact ⟨_, rename_eq rfl⟩
  | hold | copy => exact ⟨_, rename_eq rfl⟩
  | exchange numbers =>
    obtain ⟨old, rfl⟩ := all numbers known
    exact ⟨.exchange old, rfl⟩

/-- Is the bitmap among those that the move makes live, in an exchange that is accepted? -/
def Move.Restores (s : Source) (n : Nat) : Move → Prop
  | .operate (.replaceBitmaps numbers) => s.areCurrent numbers = true ∧ s.Takes numbers ∧ n ∈ numbers
  | .exchange numbers => s.Takes numbers ∧ n ∈ numbers
  | _ => False

/-- Where a bitmap is offered in vain, nothing happens. -/
theorem after_of_refused {move : Move} {n : Nat} (offered : n ∈ move.offered)
    (refused : ¬move.Restores d.heap.source n) : (make move).after d = d := by
  cases move with
  | operate op =>
    cases op with
    | replaceBitmaps numbers =>
      have same : d.heap.source.replaceCurrent numbers = d.heap.source := by
        rw [Source.replaceCurrent]
        split
        case isTrue current =>
          rw [Source.replaceBitmaps_refused fun takes => refused ⟨current, takes, offered⟩]
        case isFalse => rfl
      rw [Action.after, make_replaceBitmaps, Heap.replaceBitmaps_eq, same]
    | _ => cases offered
  | hold | copy => cases offered
  | exchange numbers =>
    rw [Action.after, make_exchange,
      Source.replaceBitmaps_refused fun takes => refused ⟨takes, offered⟩]
    rfl

/-- As long as the one number that no bitmap has got is not made live, the program does what another
could have done that knows the bitmaps by the numbers they had. -/
theorem Mirror.make_idle {ρ : Renumbering} (mirror : Mirror ρ c d) {n : Nat}
    (others : ∀ m, m ≠ n → ∃ m', ρ.number m' = m) {move : Move}
    (idle : ¬move.Restores d.heap.source n) : ∃ c', Mirror ρ c' ((make move).after d) := by
  by_cases offered : n ∈ move.offered
  · rw [after_of_refused offered idle]
    exact ⟨c, mirror⟩
  · obtain ⟨move, rfl⟩ := exists_rename fun m member => others m fun same => offered (same ▸ member)
    obtain ⟨answers, fails⟩ := simulates_make move c d mirror
    cases run : make move c with
    | ok reply c' =>
      obtain ⟨_, d', run', -, after⟩ := answers run
      rw [Action.after, run']
      exact ⟨c', after⟩
    | error cause c' =>
      obtain ⟨d', run', after⟩ := fails run
      rw [Action.after, run']
      exact ⟨c', after⟩

theorem Mirror.play_idle {ρ : Renumbering} (mirror : Mirror ρ c d) {n : Nat}
    (others : ∀ m, m ≠ n → ∃ m', ρ.number m' = m) (moves : List Move)
    (idle : ∀ part move, part ++ [move] <+: moves →
      ¬move.Restores (d.play part).2.heap.source n) :
    ∃ c', Mirror ρ c' (d.play moves).2 := by
  induction moves using List.reverseRecOn with
  | nil => exact ⟨c, mirror⟩
  | append_singleton moves move ih =>
    obtain ⟨c', sofar⟩ := ih fun part move before =>
      idle part move (before.trans (List.prefix_append _ _))
    have last : (d.play (moves ++ [move])).2 = (make move).after (d.play moves).2 := by
      rw [play_append, play_cons]
      rfl
    rw [last]
    exact sofar.make_idle others (idle moves move (List.prefix_refl _))

/-- Nothing happens to a bitmap that is not live until it is made live. -/
theorem bitmap_of_idle (neat : c.heap.source.Neat) {n : Nat} (known : n < c.heap.source.bitmaps.length)
    (spare : n ∉ c.heap.source.arenas.map Arena.live) (moves : List Move)
    (idle : ∀ part move, part ++ [move] <+: moves →
      ¬move.Restores (c.play part).2.heap.source n) :
    (c.play moves).2.heap.source.bitmap n = c.heap.source.bitmap n := by
  -- The same would be done if the bitmap had never been made, so nothing is done to it.
  have mirror : Mirror (Renumbering.skip n (c.heap.source.bitmap n))
      (c.withSource (c.heap.source.without n)) c :=
    ⟨⟨neat.mirror_without known spare⟩, List.forall₂_same.2 fun happening _ => .earlier happening⟩
  obtain ⟨c', ended⟩ := mirror.play_idle (fun m other => Renumbering.exists_skip _ other) moves idle
  exact ended.heap.source.other fun m number => Renumbering.skip_ne m number

end Chronicle

/-! ### What can be seen -/

/-- No difference between the heaps can be seen: all that may differ is under which numbers bitmaps
stand. -/
structure Heap.Indistinct (h k : Heap) : Prop where
  valid : ∀ x, k.isValid x = h.isValid x
  contains : ∀ x, k.source.contains x = h.source.contains x
  bitmaps : k.source.arenas.map (fun a => k.source.bitmap a.live)
    = h.source.arenas.map fun a => h.source.bitmap a.live
  walk : k.source.blocks = h.source.blocks
  payload : ∀ x, k.source.payload x = h.source.payload x
  figures : ∀ which, k.source.figures which = h.source.figures which
  report : k.report = h.report
  arenas : ∃ number bitmaps, k.source = h.source.renumber number bitmaps
  rest : k = { h with source := k.source }

/-- No difference can be seen in what came to pass, what collections freed included. -/
inductive Happening.Indistinct : Happening → Happening → Prop where
  | phases (collectSoft : Bool) (freed : Option (Nat × Nat)) {h k h' k' : Heap} :
    h.Indistinct k → h'.Indistinct k' →
    Indistinct (.phases collectSoft h freed h') (.phases collectSoft k freed k')
  | review {h k : Heap} : h.Indistinct k → Indistinct (.review h) (.review k)
  | allocated (object : Nat) {h k : Heap} :
    h.Indistinct k → Indistinct (.allocated object h) (.allocated object k)

/-- No difference can be seen, now or in what has come to pass. -/
structure Chronicle.Indistinct (c d : Chronicle) : Prop where
  heap : c.heap.Indistinct d.heap
  past : List.Forall₂ Happening.Indistinct c.past d.past

theorem Heap.Indistinct.refl (h : Heap) : h.Indistinct h where
  valid _ := rfl
  contains _ := rfl
  bitmaps := rfl
  walk := rfl
  payload _ := rfl
  figures _ := rfl
  report := rfl
  arenas := by
    refine ⟨id, h.source.bitmaps, ?_⟩
    have same : (·.renumber id : Arena → Arena) = id := rfl
    rw [Source.renumber, same, List.map_id, List.map_id]
    rfl
  rest := rfl

theorem Happening.Indistinct.refl (happening : Happening) : happening.Indistinct happening := by
  cases happening with
  | phases soft h freed h' => exact .phases soft freed (.refl h) (.refl h')
  | review h => exact .review (.refl h)
  | allocated x h => exact .allocated x (.refl h)

theorem Heap.Mirror.report {ρ : Renumbering} {h k : Heap} (mirror : Heap.Mirror ρ h k) :
    k.report = h.report := by
  have arenas : k.report.arenas = h.report.arenas := by
    rw [Heap.report, mirror.source.arenas, List.map_map, Heap.report]
    dsimp only
    refine congrArg (List.map · _) (funext fun a => ?_)
    have bitmap := mirror.source.bitmap a.live
    exact congrArg (fun map : Bitmap => ArenaReport.mk a.space.name a.footprint a.allowed a.bytes
      a.objects map.size) bitmap
  obtain ⟨mirror⟩ := mirror
  obtain ⟨-⟩ := mirror
  exact congrArg (fun arenas => { h.report with arenas }) arenas

theorem Heap.Mirror.indistinct {ρ : Renumbering} {h k : Heap} (mirror : Heap.Mirror ρ h k) :
    h.Indistinct k where
  valid := mirror.source.isPublished
  contains := mirror.source.contains
  bitmaps := by
    rw [mirror.source.arenas, List.map_map]
    exact congrArg (List.map · _) (funext fun a => mirror.source.bitmap a.live)
  walk := mirror.source.blocks
  payload := mirror.source.payload
  figures := mirror.source.figures
  report := mirror.report
  arenas := by
    obtain ⟨mirror⟩ := mirror
    obtain @⟨bitmaps, -⟩ := mirror
    exact ⟨ρ.number, bitmaps, rfl⟩
  rest := by
    obtain ⟨-⟩ := mirror
    rfl

theorem Happening.Mirror.indistinct {ρ : Renumbering} {happening happening' : Happening}
    (mirror : Happening.Mirror ρ happening happening') : happening.Indistinct happening' := by
  cases mirror with
  | earlier => exact .refl _
  | phases soft freed before after => exact .phases soft freed before.indistinct after.indistinct
  | review mirror => exact .review mirror.indistinct
  | allocated x mirror => exact .allocated x mirror.indistinct

theorem Chronicle.Mirror.indistinct {ρ : Renumbering} {c d : Chronicle} (mirror : Chronicle.Mirror ρ c d) :
    c.Indistinct d := ⟨mirror.heap.indistinct, mirror.past.imp fun _ _ same => same.indistinct⟩

namespace Chronicle

variable [ObjectModel] {c : Chronicle}

/-- In the step from one chronicle to the other a program takes hold of the live bitmaps, copies each and
offers the copies in exchange, and nobody notices. -/
structure SwapsUnnoticed (c : Chronicle) (copies : List Nat) (d : Chronicle) : Prop where
  /-- A copy of each live bitmap can be had. -/
  snapshots : ∀ a ∈ c.heap.source.arenas,
    (c.heap.source.bitmap a.live).snapshot = .ok (.ok (c.heap.source.bitmap a.live))
  /-- The copies are accepted, and the bitmaps that were live are handed back. -/
  swaps : c.play [.hold, .copy, .exchange copies]
    = ([.ok (.bitmaps (c.heap.source.arenas.map Arena.live)), .ok (.bitmaps copies),
        .ok (.exchanged true (c.heap.source.arenas.map Arena.live))], d)
  /-- Every later move is answered, or fails, as it would have done without the step. A program that would
  have offered the bitmaps that were live offers the copies of them. -/
  replies : ∀ later, (d.play (later.map (·.rename c.heap.source.follow))).1
    = (c.play later).1.map (Except.map (·.rename c.heap.source.follow))
  /-- At no later time can a difference be seen in the heap or in what collections did. -/
  indistinct : ∀ later,
    (c.play later).2.Indistinct (d.play (later.map (·.rename c.heap.source.follow))).2
  /-- At no later time does a bitmap that is known to a program show another set. -/
  bitmaps : ∀ later n, (d.play (later.map (·.rename c.heap.source.follow))).2.heap.source.bitmap
    (c.heap.source.follow n) = (c.play later).2.heap.source.bitmap n
  /-- Each bitmap that was handed back stays what it is until it is made live again. -/
  handles : ∀ a ∈ c.heap.source.arenas, ∀ later,
    (∀ part move, part ++ [move] <+: later →
      ¬move.Restores (d.play part).2.heap.source a.live) →
    (d.play later).2.heap.source.bitmap a.live = c.heap.source.bitmap a.live

theorem swapsUnnoticed_swapped (neat : c.heap.source.Neat) : c.SwapsUnnoticed
    (List.range' c.heap.source.bitmaps.length c.heap.source.arenas.length) c.swapped where
  snapshots a := neat.snapshot_eq
  swaps := play_swap neat
  replies later := ((mirror_swapped neat).play later).1
  indistinct later := ((mirror_swapped neat).play later).2.indistinct
  bitmaps later := ((mirror_swapped neat).play later).2.heap.source.bitmap
  handles a member later idle := by
    have before := neat.settled.live_lt member
    have moved := congrArg (fun result => result.2.heap.source) (play_swap neat)
    have swapped : c.swapped.heap.source.Neat := by
      rw [← moved]
      exact play_neat neat _
    have spare : a.live ∉ c.heap.source.swapped.arenas.map Arena.live := by
      intro live
      rw [Source.swapped, Source.arenas_renumber, List.map_map] at live
      obtain ⟨b, -, number⟩ := List.mem_map.1 live
      exact neat.settled.exists_follow.1 ⟨_, number⟩ (List.mem_map_of_mem member)
    have known : a.live < c.heap.source.copied.length := by
      rw [Source.length_copied]
      omega
    exact (bitmap_of_idle swapped known spare later idle).trans (Source.copied_old before)

theorem make_exchange_taken {numbers : List Nat} (takes : c.heap.source.Takes numbers) :
    ∃ d, make (.exchange numbers) c = .ok (.exchanged true (c.heap.source.arenas.map Arena.live)) d
      ∧ d.heap.source.arenas.map Arena.live = numbers := by
  have live := Source.live_replaceBitmaps takes
  obtain _ | ⟨first, rest⟩ := numbers
  · cases takes
  · rw [make_exchange, Source.replaceBitmaps_taken takes]
    rw [Source.replaceBitmaps_taken takes] at live
    exact ⟨_, rfl, live⟩

theorem make_exchange_refused {numbers : List Nat} (refused : ¬c.heap.source.Takes numbers) :
    make (.exchange numbers) c = .ok (.exchanged false numbers) c := by
  rw [make_exchange, Source.replaceBitmaps_refused refused]
  rfl

/-- Whatever a program has done with a heap, it can replace the live bitmaps by copies of them, and that is
never noticed. Of any bitmaps that it offers those are accepted that are one for each arena, over the range
of the arena, and an exchange that is refused changes nothing. -/
theorem swap_unnoticed {config : Config} {h : Heap} (create : Heap.create config = .ok (.ok h))
    (earlier : List Move) :
    let c := (play { heap := h } earlier).2
    (∃ copies d, c.SwapsUnnoticed copies d)
      ∧ ∀ numbers, (c.heap.source.Takes numbers →
          ∃ d, make (.exchange numbers) c
            = .ok (.exchanged true (c.heap.source.arenas.map Arena.live)) d
            ∧ d.heap.source.arenas.map Arena.live = numbers)
        ∧ (¬c.heap.source.Takes numbers →
          make (.exchange numbers) c = .ok (.exchanged false numbers) c) := by
  intro c
  have neat : c.heap.source.Neat := play_neat (neat_create create) earlier
  exact ⟨⟨_, _, swapsUnnoticed_swapped neat⟩, fun numbers =>
    ⟨make_exchange_taken, make_exchange_refused⟩⟩

end Chronicle

/-- A thread is attached and asks for an object. -/
def Chronicle.begun : List Chronicle.Move :=
  [.operate (.attach 0 "main"), .operate (.request 0 100 {})]

theorem small_swap_unnoticed :
    let c := (Chronicle.play { heap := Heap.small } Chronicle.begun).2
    c.heap.source.objects.length = 1
      ∧ (∃ copies d, c.SwapsUnnoticed copies d)
      ∧ ∀ numbers, (c.heap.source.Takes numbers →
          ∃ d, Chronicle.make (.exchange numbers) c
            = .ok (.exchanged true (c.heap.source.arenas.map Arena.live)) d
            ∧ d.heap.source.arenas.map Arena.live = numbers)
        ∧ (¬c.heap.source.Takes numbers →
          Chronicle.make (.exchange numbers) c = .ok (.exchanged false numbers) c) := by
  have create : Heap.create Heap.smallConfig = .ok (.ok Heap.small) := rfl
  exact ⟨by decide +kernel, Chronicle.swap_unnoticed create Chronicle.begun⟩

end ManagedHeap
