import ManagedHeap.Safepoint

/-!
What threads can do about being stopped, one thing at a time. Each step is taken as a whole, or not at
all where it would have to wait.
-/

namespace ManagedHeap

namespace Safepoint

/-- One step of one of the threads. -/
inductive Operation where
  | register (thread : Nat) (name : String)
  /-- The thread that a record was made for gives it up. -/
  | unregister (record : Nat)
  | transition (record : Nat) (state : ThreadState)
  | park (record : Nat)
  /-- Stops every thread, apart from the one that asks if that has a record. -/
  | suspend (asking : Option Nat)
  | resume
deriving DecidableEq, Repr

/-- Takes a step, if it may be taken now. -/
def perform (s : Safepoint) : Operation → Except Refusal Safepoint
  | .register thread name => Prod.snd <$> s.register thread name
  | .unregister record => return s.unregister record
  | .transition record state => Prod.snd <$> s.transition record state
  | .park record => s.park record
  | .suspend asking => s.suspend asking
  | .resume => return s.resume

/-- The safepoint after a step, and as it was where the step is not taken. -/
def after (s : Safepoint) (op : Operation) : Safepoint := (s.perform op).toOption.getD s

/-- The safepoint after steps, one after the other. -/
def afterAll (s : Safepoint) : List Operation → Safepoint
  | [] => s
  | op :: rest => (s.after op).afterAll rest

end Safepoint

end ManagedHeap
