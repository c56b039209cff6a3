import DynamicCache.Dram.TurnQuiescence

/-!
# Temporal partitioning with fixed addresses (`CommandQueueFA.cpp`)

The pids use disjoint banks, so a turn need not end with every bank closed: it is
enough that its rows have been read or written, and that what they put off in the
banks of others is over in time.  In every cycle the scheduler looks for column
commands of the pid of the last turn first.  A column command is not tied to its
own `ACTIVATE`: any open row with its address will do.
-/

namespace DynamicCache.Dram

open Lib

/-- The fields of `CommandQueueFA`; its `lastPID` hides that of `CommandQueueTP`. -/
structure FA where
  lastPID : Nat := 0
  lastPID1 : Nat := 0
deriving DecidableEq

namespace FA

/-! ## The methods of the scheduler -/

def deadtimes (c : Config) : Deadtimes :=
  ⟨tenPercentDeadtime c.timing.fixWorstCaseDelay, tenPercentDeadtime c.timing.fixTpBufferTime⟩

/-- A column command of the pid of the last turn. -/
def acceptsLast (c : Config) (s : State FA) (_ : Option BusPacket) (x : BusPacket) : Bool :=
  s.isIssuable c x ∧ x.busPacketType ≠ .activate

def accepts (c : Config) (s : State FA) (buffer : Bool) (_ : Option BusPacket)
    (x : BusPacket) : Bool :=
  s.isIssuable c x ∧ ¬(buffer ∧ x.busPacketType = .activate)

/-- The search of one rank; the result has the pid as well. -/
def scan (c : Config) (s : State FA) (buffer : Bool) (pid rank : Nat) :
    Option (Nat × BusPacket × List BusPacket) :=
  if ¬(rank = s.refreshRank ∧ s.refreshWaiting = true) then
    match popFirst (acceptsLast c s) none (s.queues rank s.sched.lastPID1) with
    | some x => some (s.sched.lastPID1, x)
    | none =>
      (popFirst (accepts c s buffer) none (s.queues rank pid)).map fun x => (pid, x)
  else none

def newTurn (s : State FA) (pid : Nat) : State FA :=
  if s.sched.lastPID ≠ pid then
    { s with
      nextRank := 0
      nextBank := 0
      sched := { lastPID := pid, lastPID1 := s.sched.lastPID } }
  else { s with sched := { s.sched with lastPID := pid } }

def search (c : Config) (s : State FA) (buffer : Bool) (pid : Nat) : Option BusPacket × State FA :=
  match rotate (fun x => nextRankAndBank c x.1 x.2) (s.nextRank, s.nextBank)
      (fun x => scan c s buffer pid x.1) (c.numRanks * c.numBanks) (s.nextRank, s.nextBank) with
  | ((r, b), some (q, p, queue)) =>
    (some p, TP.setQueue { s with nextRank := r, nextBank := b } r q queue)
  | ((r, b), none) => (none, { s with nextRank := r, nextBank := b })

def normalPopClosePage (w : Turns) (c : Config) (s : State FA) : Option BusPacket × State FA :=
  let pid := w.getCurrentPID c.numPids s.currentClockCycle
  let d := deadtimes c
  let buffer := w.isBufferTime c.numPids c.numRanks s.currentClockCycle d.normal d.refresh
  search c (newTurn s pid) buffer pid

def methods (w : Turns) : Methods FA := ⟨TP.refreshPopClosePage w, normalPopClosePage w⟩

def init : State FA := { sched := {} }

end FA

end DynamicCache.Dram
