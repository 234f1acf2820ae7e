import ManagedHeap.Space

/-!
What can be done to a space, one thing at a time: chunks come and go, growth is capped, pages are given
back, and whoever holds a chunk writes into it.
-/

namespace ManagedHeap

namespace Space

/-- One step of whoever uses a space. -/
inductive Operation where
  | calloc (n : Nat)
  | release (address : Nat)
  | setAllowed (bytes : Nat)
  | trim (pad : Nat)
  | releaseFreePages
  | setGeneration (address generation : Nat)
  /-- Puts a value into the word at an index, counted from an address. -/
  | write (address index value : Nat)
deriving DecidableEq, Repr

/-- Takes a step. Answers the address of the new chunk, if one was asked for and there was room. -/
def perform (s : Space) : Operation → Except Defect (Option Nat × Space)
  | .calloc n => s.calloc n
  | .release address => return (none, ((s.release? address).map Prod.snd).getD s)
  | .setAllowed bytes => return (none, ← s.setAllowed bytes)
  | .trim pad => return (none, (← s.trim pad).2)
  | .releaseFreePages => return (none, (← s.releaseFreePages).2)
  | .setGeneration address generation => return (none, s.setGeneration address generation)
  | .write address index value => return (none, s.writeWord address index value)

/-- Is the word at an index usable by whoever holds the chunk at an address? -/
def isUsable (s : Space) (address index : Nat) : Bool :=
  match s.usableSize? address with
  | .ok (some usable) => index < usable / 8
  | _ => false

/-- Does the step write? -/
def Operation.isWrite : Operation → Bool
  | .write .. => true
  | _ => false

/-- May the step be taken? Only usable words of allocated chunks may be written. -/
def Operation.isLawful (s : Space) : Operation → Bool
  | .write address index _ => s.isUsable address index
  | _ => true

end Space

end ManagedHeap
