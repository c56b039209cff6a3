import DynamicCache.Cache.Mshr

/-!
# Queues of registers (`mshr_queue.hh`, `mshr_queue.cc`)

A queue owns its registers; the lists hold register numbers.  `readyList` is
kept in the order of ready times.
-/

namespace DynamicCache.Cache

open Lib

structure MshrQueue where
  numEntries : Nat
  numReserve : Nat
  registers : Nat → Mshr := fun _ => {}
  allocatedList : List Nat := []
  readyList : List Nat := []
  freeList : List Nat
  allocated : Nat := 0
  inServiceEntries : Nat := 0

namespace MshrQueue

variable (q : MshrQueue)

def init (numEntries reserve : Nat) : MshrQueue where
  numEntries := numEntries + reserve - 1
  numReserve := reserve
  freeList := List.range (numEntries + reserve - 1)

def put (r : Nat) (m : Mshr) : MshrQueue := { q with registers := Function.update q.registers r m }

def findMatch (addr : Nat) : Option Nat := q.allocatedList.find? fun r => (q.registers r).addr == addr

def findMatches (addr : Nat) : List Nat := q.allocatedList.filter fun r => (q.registers r).addr == addr

/-- The overlap test of `findPending`. -/
def overlaps (m : Mshr) (addr size : Nat) : Bool :=
  if m.addr < addr then decide (addr < m.addr + m.size) else decide (m.addr < addr + size)

def findPending (addr size : Nat) : Option Nat := q.readyList.find? fun r => overlaps (q.registers r) addr size

/-- `allocated > numEntries - numReserve`, over the integers. -/
def isFull : Bool := decide (q.numEntries < q.allocated + q.numReserve)

def getNextMSHR (now : Nat) : Option Nat :=
  match q.readyList with
  | [] => none
  | r :: _ => if now < (q.registers r).readyTime then none else some r

/-- The search loop of `addToReadyList`; its end is the failed assertion. -/
def insertReady (time : Nat → Nat) (r : Nat) : List Nat → Res (List Nat)
  | [] => .error .assertion
  | x :: l =>
    if time r < time x then .ok (r :: x :: l)
    else (insertReady time r l).map (x :: ·)

/-- Whether the list is empty or its last register is ready no later than `r`. -/
def readyLast (r : Nat) : Bool :=
  match q.readyList.getLast? with
  | none => true
  | some x => decide ((q.registers x).readyTime ≤ (q.registers r).readyTime)

def addToReadyList (r : Nat) : Res MshrQueue :=
  if q.readyLast r then .ok { q with readyList := q.readyList ++ [r] }
  else do
    let l ← insertReady (fun x => (q.registers x).readyTime) r q.readyList
    return { q with readyList := l }

/-- Also returns the register. -/
def allocate (now addr size : Nat) (pkt : Packet) (whenReady order : Nat) : Res (MshrQueue × Nat) :=
  match q.freeList with
  | [] => .error .assertion
  | r :: free => do
    assert ((q.registers r).getNumTargets == 0)
    let m ← (q.registers r).allocate now addr size pkt whenReady order
    let q' ← ({ q.put r m with
      freeList := free
      allocatedList := q.allocatedList ++ [r]
      allocated := q.allocated + 1 } : MshrQueue).addToReadyList r
    return (q', r)

def deallocate (r : Nat) : Res MshrQueue := do
  let m ← (q.registers r).deallocate
  let q := { q.put r m with
    allocatedList := q.allocatedList.erase r
    freeList := r :: q.freeList
    allocated := q.allocated - 1
    inServiceEntries := if (q.registers r).inService then q.inServiceEntries - 1 else q.inServiceEntries
    readyList := if (q.registers r).inService then q.readyList else q.readyList.erase r }
  return q

def markInService (r : Nat) (pkt : Packet) : Res MshrQueue := do
  let (m, done) ← (q.registers r).markInService pkt
  if done then (q.put r m).deallocate r
  else
    return { q.put r m with
      readyList := q.readyList.erase r
      inServiceEntries := q.inServiceEntries + 1 }

def markPending (r : Nat) : Res MshrQueue := do
  assert (q.registers r).inService
  ({ q.put r { q.registers r with inService := false } with
    inServiceEntries := q.inServiceEntries - 1 } : MshrQueue).addToReadyList r

end MshrQueue

end DynamicCache.Cache
