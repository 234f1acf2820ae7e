import ManagedHeap.Source.Sizing

/-!
Allocating from the active arena and freeing in any.
-/

namespace ManagedHeap

namespace Source

/-- Accounts for an object just placed in the active arena. -/
def countAllocation (address : Nat) : Action Source Unit := do
  let s ← get
  let usable := (← s.active.space.usableSize? address).getD 0
  let bytes ← Word.add s.active.bytes (usable + Size.chunkOverhead)
  let active := { s.active with bytes, objects := s.active.objects + 1 }
  set ({ s with active }.modifyBitmap s.active.live (·.insert address))
  Action.require (s.active.footprint ≤ s.active.allowed)

/-- Allocates `n` zeroed bytes, unless that would cross the soft limit or the allowed footprint. -/
def alloc (n : Nat) : Action Source (Option Nat) := do
  let s ← get
  let crosses : Bool :=
    match s.softLimit with
    | some limit => limit < Word.saturatingAdd s.active.bytes n
    | none => false
  if crosses then return none
  match ← s.active.space.calloc n with
  | (none, _) => return none
  | (some address, space) =>
    set { s with active := { s.active with space } }
    countAllocation address
    return some address

/-- Allocates with the footprint free to grow as far as the arena's maximum and the external memory
let it. Afterwards the allowed footprint is the real one. -/
def allocAndGrowArena (n : Nat) : Action Source (Option Nat) := do
  let s ← get
  if s.active.absoluteMax ≤ s.externalBytes then return none
  let space ← s.active.space.setAllowed (s.active.absoluteMax - s.externalBytes)
  set { s with active := { s.active with space } }
  let object ← alloc n
  let s ← get
  let space ← s.active.space.setAllowed s.active.footprint
  set { s with active := { s.active with space } }
  return object

/-- Allocates with the arena growing. The ideal size follows, or goes back where that fails too. -/
def allocOrRestore (n ideal : Nat) : Action Source (Option Nat) := do
  match ← allocAndGrowArena n with
  | some object =>
    snapIdeal
    return some object
  | none =>
    setIdeal ideal
    return none

/-- The last resort: allocates with the soft limit lifted, then with the arena growing. -/
def allocAndGrow (n : Nat) : Action Source (Option Nat) := do
  if let some object ← alloc n then return some object
  let ideal := (← get).ideal
  if (← get).isSoftLimited then
    modify fun s => { s with softLimit := none }
    if let some object ← alloc n then
      snapIdeal
      return some object
  allocOrRestore n ideal

/-- Takes an object out of the account of the arena at an index. -/
def uncount (s : Source) (index address freed : Nat) : Source :=
  let live := (s.arenas.getD index s.active).live
  (s.modifyArena index fun a =>
    { a with bytes := a.bytes - freed, objects := a.objects - 1 }).modifyBitmap live
      (·.erase address)

/-- Frees the chunk at an address of the active arena, if there is one. -/
def releaseChunk (s : Source) (address : Nat) : Source :=
  match s.active.space.release? address with
  | some (_, space) => { s with active := { s.active with space } }
  | none => s

/-- Frees an object. Answers the bytes that it accounted for, 0 if no arena has the address. In a
frozen arena the chunk itself stays, so that its pages remain shared. -/
def free (address : Nat) : Action Source Nat := do
  let s ← get
  match s.arenaIndex? address with
  | none => return 0
  | some index =>
    let a := s.arenas.getD index s.active
    let freed := (← a.space.usableSize? address).getD 0 + Size.chunkOverhead
    let s := s.uncount index address freed
    set (if index = 0 then s.releaseChunk address else s)
    return freed

end Source

end ManagedHeap
