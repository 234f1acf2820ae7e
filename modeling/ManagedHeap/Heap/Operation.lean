import ManagedHeap.Heap.Callbacks

/-!
What can be done to a heap, one thing at a time. Programs write to their objects, change their roots
and track objects between requests and collections, and the pending work is taken and called piece
by piece.
-/

namespace ManagedHeap

namespace Heap

/-- One step of the programs that use a heap. -/
inductive Operation where
  | attach (thread : Nat) (name : String)
  | detach (record : Nat)
  /-- A thread comes to rest, or runs on. -/
  | transition (record : Nat) (state : ThreadState)
  | request (record size : Nat) (flags : AllocFlags)
  | collect (collectSoft : Bool)
  | requestExternal (record bytes : Nat)
  | freeExternal (bytes : Nat)
  | track (record object : Nat)
  | untrack (record object : Nat)
  | clearFlags (record object : Nat) (flags : AllocFlags)
  | setRoots (roots : RootSet)
  /-- Puts a value into words of the arena that has the object. -/
  | write (object index count value : Nat)
  | setUtilization (ratio : Binary32)
  | setMinimum (size : Nat)
  | trim
  | beforeFork
  | afterZygote
  | snapshotBitmaps
  /-- Exchanges the live bitmaps for copies that are up to date. Others are refused. -/
  | replaceBitmaps (numbers : List Nat)
  | setDebugging (tolerate : Bool)
  | setProfiling (count : Bool)
  | setReporting (record : Nat) (reporting : Reporting)
  | pass (time : Nat)
  | shutdown (record : Option Nat)
  | takeWork
  | startCall (object : Nat) (call : Callback)
  | endCall
deriving Repr

/-- Moves a thread to a state, where that need not wait. -/
def transition (h : Heap) (record : Nat) (state : ThreadState) : Heap :=
  match h.threads.transition record state with
  | .ok (_, threads) => { h with threads }
  | .error _ => h

/-- Exchanges the live bitmaps for others with the same members. -/
def replaceBitmaps (h : Heap) (numbers : List Nat) : Heap :=
  if h.source.areCurrent numbers then
    { h with source := (h.source.replaceBitmaps numbers).2.2 }
  else h

variable [ObjectModel]

/-- A step that answers nothing. -/
def silent {α : Type} (step : Action Heap α) : Action Heap (Option Nat) := do
  let _ ← step
  return none

/-- Takes a step. Answers the new object, if one was asked for and there was room. -/
def perform : Operation → Action Heap (Option Nat)
  | .request record size flags => request record size flags
  | .collect collectSoft => silent (collect collectSoft)
  | .requestExternal record bytes => silent (requestExternal record bytes)
  | .freeExternal bytes => silent (onSource (Source.externalFree bytes))
  | .clearFlags record object flags => silent (clearFlags record object flags)
  | .setMinimum size => silent (setMinimum size)
  | .trim => silent (onSource Source.trim)
  | .beforeFork => silent (onSource Source.beforeFork)
  | .afterZygote => silent afterZygote
  | .attach thread name => silent (attach thread name)
  | .takeWork => silent takeWork
  | .detach record => silent (modify (·.detach record))
  | .transition record state => silent (modify (·.transition record state))
  | .track record object =>
    silent (modify fun h => { h with threads := h.threads.track record object })
  | .untrack record object => silent (modify fun h =>
      { h with threads := (h.threads.untrack? record object).getD h.threads })
  | .setRoots roots => silent (modify fun h => { h with roots })
  | .write object index count value => silent (modify fun h =>
      { h with source := h.source.setWords object index count value })
  | .setUtilization ratio =>
    silent (modify fun h => { h with source := h.source.setUtilization ratio })
  | .snapshotBitmaps =>
    silent (modify fun h => { h with source := h.source.snapshotBitmaps.2 })
  | .replaceBitmaps numbers => silent (modify (·.replaceBitmaps numbers))
  | .setDebugging tolerate => silent (modify (·.setDebugging tolerate))
  | .setProfiling count => silent (modify fun h => { h with profiling := count })
  | .setReporting record reporting =>
    silent (modify (·.modifyMutator record fun m => { m with reporting }))
  | .pass time => silent (modify fun h => { h with clock := h.clock + time })
  | .shutdown record => silent (modify (·.shutdown record))
  | .startCall object call => silent (modify (·.startCall object call))
  | .endCall => silent (modify endCall)

end Heap

end ManagedHeap
