import DynamicCache.Cache.MshrQueue

/-!
# Queues and blocking of a split cache (`base.hh`, `split_mshr_cache.hh`, `split_rport_cache.hh`)

One queue of miss registers and one write buffer for each thread, the counter
that orders requests, and the causes that block a thread's requests.  The array
of causes starts with zeros.  Bus requests and retries are only scheduled by
the source; here a thread's queue may be asked for a packet at any time.
-/

namespace DynamicCache.Cache

open Lib Tags

inductive BlockedCause where
  | noMSHRs
  | noWBBuffers
  | noTargets
deriving DecidableEq, Repr

/-- A register of thread `tid`: of its write buffer, or of its miss queue. -/
structure MshrRef where
  inWriteBuffer : Bool
  tid : Nat
  reg : Nat
deriving DecidableEq, Repr

structure Control where
  mshrQueues : Nat → MshrQueue
  writeBuffers : Nat → MshrQueue
  order : Nat := 0
  noTargetMSHR : Option MshrRef := none
  blocked : Nat → BlockedCause → Bool := fun _ _ => false
  portBlocked : Nat → Bool := fun _ => false
  mustSendRetry : Bool := false

namespace Control

variable (c : Control)

/-- The queues of a cache with `mshrs` miss registers and `writeBuffers` buffers a thread. -/
def init (mshrs writeBuffers : Nat) : Control where
  mshrQueues _ := .init mshrs 4
  writeBuffers _ := .init writeBuffers (mshrs + 1000)

def queue (ref : MshrRef) : MshrQueue :=
  if ref.inWriteBuffer then c.writeBuffers ref.tid else c.mshrQueues ref.tid

def mshr (ref : MshrRef) : Mshr := (c.queue ref).registers ref.reg

def putQueue (ref : MshrRef) (q : MshrQueue) : Control :=
  if ref.inWriteBuffer then { c with writeBuffers := Function.update c.writeBuffers ref.tid q }
  else { c with mshrQueues := Function.update c.mshrQueues ref.tid q }

def putMshr (ref : MshrRef) (m : Mshr) : Control := c.putQueue ref ((c.queue ref).put ref.reg m)

/-- The blocking cause named by a queue's index. -/
def fullCause (inWriteBuffer : Bool) : BlockedCause := if inWriteBuffer then .noWBBuffers else .noMSHRs

def isBlocked (tid : Nat) : Bool := c.blocked tid .noMSHRs || c.blocked tid .noWBBuffers || c.blocked tid .noTargets

def putBlocked (tid : Nat) (cause : BlockedCause) (v : Bool) : Control :=
  { c with blocked := Function.update c.blocked tid (Function.update (c.blocked tid) cause v) }

/-- `setBlocked` of the cache and of its port. -/
def setBlocked (cause : BlockedCause) (tid : Nat) : Res Control := do
  if c.isBlocked tid then return c.putBlocked tid cause true
  else
    check .portAssertion (!c.portBlocked tid)
    return { c.putBlocked tid cause true with portBlocked := Function.update c.portBlocked tid true }

/-- `clearBlocked` of the cache and of its port. -/
def clearBlocked (cause : BlockedCause) (tid : Nat) : Res Control := do
  let c := c.putBlocked tid cause false
  if c.isBlocked tid then return c
  else
    check .portAssertion (c.portBlocked tid)
    return { c with portBlocked := Function.update c.portBlocked tid false, mustSendRetry := false }

def setBlockedIf (full : Bool) (cause : BlockedCause) (tid : Nat) : Res Control :=
  if full then c.setBlocked cause tid else .ok c

/-- `allocateBufferInternal`; also returns the register. -/
def allocateBufferInternal (inWriteBuffer : Bool) (now addr size : Nat) (pkt : Packet) (time : Nat) :
    Res (Control × MshrRef) := do
  let ref : MshrRef := ⟨inWriteBuffer, pkt.threadID, 0⟩
  let (q, r) ← (c.queue ref).allocate now addr size pkt time c.order
  let c ← ({ c.putQueue ref q with order := c.order + 1 } : Control).setBlockedIf q.isFull
    (fullCause inWriteBuffer) pkt.threadID
  return (c, { ref with reg := r })

def allocateMissBuffer (g : Geometry) (now : Nat) (pkt : Packet) (time : Nat) : Res (Control × MshrRef) := do
  assert (!pkt.req.isUncacheable)
  c.allocateBufferInternal false now (blockAlign g pkt.addr) g.blkSize pkt time

def allocateWriteBuffer (now : Nat) (pkt : Packet) (time : Nat) : Res (Control × MshrRef) := do
  assert (pkt.isWrite && !pkt.isRead)
  c.allocateBufferInternal true now pkt.addr pkt.size pkt time

def allocateUncachedReadBuffer (now : Nat) (pkt : Packet) (time : Nat) : Res (Control × MshrRef) := do
  assert pkt.req.isUncacheable
  assert pkt.isRead
  c.allocateBufferInternal false now pkt.addr pkt.size pkt time

/-- The loops that copy writebacks to the write buffer. -/
def allocateWriteBuffers (now time : Nat) : List Packet → Control → Res Control
  | [], c => .ok c
  | wb :: wbs, c => do
    let (c, _) ← c.allocateWriteBuffer now wb time
    allocateWriteBuffers now time wbs c

/-- Unblocks a thread whose queue was full and no longer is. -/
def clearIfFull (wasFull : Bool) (ref : MshrRef) (tid : Nat) : Res Control :=
  if wasFull && !(c.queue ref).isFull then c.clearBlocked (fullCause ref.inWriteBuffer) tid else .ok c

/-- `markInServiceInternal` for a packet that was sent. -/
def markInService (ref : MshrRef) (pkt : Packet) : Res Control := do
  let q ← (c.queue ref).markInService ref.reg pkt
  (c.putQueue ref q).clearIfFull (c.queue ref).isFull ref pkt.threadID

/-- `markInServiceInternal` with the null packet of `snoopTiming`: it is read
when the queue was full. -/
def markInServiceNull (ref : MshrRef) (pkt : Packet) : Res Control := do
  let q ← (c.queue ref).markInService ref.reg pkt
  if (c.queue ref).isFull && !q.isFull then .error .outOfArray else return c.putQueue ref q

end Control

end DynamicCache.Cache
