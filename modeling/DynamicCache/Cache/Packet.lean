import DynamicCache.Lib.Faults
import DynamicCache.Tags.Lru

/-!
# Packets (`packet.hh`, `packet.cc`, `request.hh`)

The commands with the attributes that the cache reads, requests, and packets.
Every constructor of `Packet` gives a packet's two labels the value of its
thread id, so they are functions of it here (`readLabel`, `writeLabel`).

`Fault` says how the simulator stops: at an assertion, where those on the port's
blocked flag are told apart, in a swap loop that leaves its set, at a read
outside an array, or in `panic`.
-/

namespace DynamicCache.Cache

open Lib Tags

inductive Fault where
  | assertion
  | portAssertion
  | notInSet
  | outOfArray
  | panicked
deriving DecidableEq, Repr

abbrev Res (α : Type) := Except Fault α

/-- `assert` -/
def assert (c : Bool) : Res Unit := check .assertion c

/-! ## Commands -/

inductive MemCmd where
  | invalidCmd
  | readReq
  | readResp
  | readRespWithInvalidate
  | writeReq
  | writeResp
  | writeback
  | softPFReq
  | hardPFReq
  | softPFResp
  | hardPFResp
  | writeInvalidateReq
  | writeInvalidateResp
  | upgradeReq
  | scUpgradeReq
  | upgradeResp
  | scUpgradeFailReq
  | upgradeFailResp
  | readExReq
  | readExResp
  | loadLockedReq
  | storeCondReq
  | storeCondFailReq
  | storeCondResp
  | swapReq
  | swapResp
  | messageReq
  | messageResp
  | invalidDestError
  | badAddressError
  | functionalReadError
  | functionalWriteError
  | printReq
  | flushReq
  | invalidationReq
deriving DecidableEq, Repr

/-- The attributes of a command and the command of its response. -/
structure CommandInfo where
  isRead : Bool := false
  isWrite : Bool := false
  isUpgrade : Bool := false
  isInvalidate : Bool := false
  needsExclusive : Bool := false
  isRequest : Bool := false
  isResponse : Bool := false
  needsResponse : Bool := false
  isLlsc : Bool := false
  hasData : Bool := false
  isError : Bool := false
  response : MemCmd := .invalidCmd

/-- `MemCmd::commandInfo` -/
def commandInfo : MemCmd → CommandInfo
  | .invalidCmd => {}
  | .readReq => { isRead := true, isRequest := true, needsResponse := true, response := .readResp }
  | .readResp => { isRead := true, isResponse := true, hasData := true }
  | .readRespWithInvalidate => { isRead := true, isResponse := true, hasData := true, isInvalidate := true }
  | .writeReq =>
    { isWrite := true, needsExclusive := true, isRequest := true, needsResponse := true, hasData := true,
      response := .writeResp }
  | .writeResp => { isWrite := true, needsExclusive := true, isResponse := true }
  | .writeback => { isWrite := true, needsExclusive := true, isRequest := true, hasData := true }
  | .softPFReq => { isRead := true, isRequest := true, needsResponse := true, response := .softPFResp }
  | .hardPFReq => { isRead := true, isRequest := true, needsResponse := true, response := .hardPFResp }
  | .softPFResp => { isRead := true, isResponse := true, hasData := true }
  | .hardPFResp => { isRead := true, isResponse := true, hasData := true }
  | .writeInvalidateReq =>
    { isWrite := true, needsExclusive := true, isInvalidate := true, isRequest := true, hasData := true,
      needsResponse := true, response := .writeInvalidateResp }
  | .writeInvalidateResp => { isWrite := true, needsExclusive := true, isResponse := true }
  | .upgradeReq =>
    { isInvalidate := true, needsExclusive := true, isUpgrade := true, isRequest := true,
      needsResponse := true, response := .upgradeResp }
  | .scUpgradeReq =>
    { isInvalidate := true, needsExclusive := true, isUpgrade := true, isLlsc := true, isRequest := true,
      needsResponse := true, response := .upgradeResp }
  | .upgradeResp => { needsExclusive := true, isUpgrade := true, isResponse := true }
  | .scUpgradeFailReq =>
    { isInvalidate := true, needsExclusive := true, isLlsc := true, isRequest := true,
      needsResponse := true, response := .upgradeFailResp }
  | .upgradeFailResp => { needsExclusive := true, isResponse := true }
  | .readExReq =>
    { isRead := true, needsExclusive := true, isInvalidate := true, isRequest := true,
      needsResponse := true, response := .readExResp }
  | .readExResp => { isRead := true, needsExclusive := true, isResponse := true, hasData := true }
  | .loadLockedReq =>
    { isRead := true, isLlsc := true, isRequest := true, needsResponse := true, response := .readResp }
  | .storeCondReq =>
    { isWrite := true, needsExclusive := true, isLlsc := true, isRequest := true, needsResponse := true,
      hasData := true, response := .storeCondResp }
  | .storeCondFailReq =>
    { isWrite := true, needsExclusive := true, isLlsc := true, isRequest := true, needsResponse := true,
      hasData := true, response := .storeCondResp }
  | .storeCondResp => { isWrite := true, needsExclusive := true, isLlsc := true, isResponse := true }
  | .swapReq =>
    { isRead := true, isWrite := true, needsExclusive := true, isRequest := true, hasData := true,
      needsResponse := true, response := .swapResp }
  | .swapResp => { isRead := true, isWrite := true, needsExclusive := true, isResponse := true, hasData := true }
  | .messageReq =>
    { isWrite := true, isRequest := true, needsResponse := true, hasData := true, response := .messageResp }
  | .messageResp => { isWrite := true, isResponse := true }
  | .invalidDestError => { isResponse := true, isError := true }
  | .badAddressError => { isResponse := true, isError := true }
  | .functionalReadError => { isRead := true, isResponse := true, isError := true }
  | .functionalWriteError => { isWrite := true, isResponse := true, isError := true }
  | .printReq => { isRequest := true }
  | .flushReq => { isRequest := true, needsExclusive := true }
  | .invalidationReq => { needsExclusive := true, isInvalidate := true, isRequest := true }

/-! ## Requests and packets -/

structure Request where
  masterId : Nat := 0
  contextId : Nat := 0
  isUncacheable : Bool := false
  isClearLL : Bool := false
  isInstFetch : Bool := false
  isCondSwap : Bool := false
  extraData : Nat := 0
deriving DecidableEq, Repr

/-- `Request::wbMasterId` -/
def wbMasterId : Nat := 0

/-- A packet.  `data` holds its bytes from offset 0 on.  `origin` is not in the
source: on a writeback made by the cache it records the thread whose fill or
Writeback last put data in the storage that was copied. -/
structure Packet where
  cmd : MemCmd
  addr : Nat
  size : Nat
  threadID : Nat
  req : Request := {}
  data : Nat → Nat := fun _ => 0
  sharedAsserted : Bool := false
  isExpressSnoop : Bool := false
  isSupplyExclusive : Bool := false
  memInhibitAsserted : Bool := false
  finishTime : Nat := 0
  firstWordTime : Nat := 0
  origin : Option Nat := none

namespace Packet

variable (p : Packet)

def isRead : Bool := (commandInfo p.cmd).isRead
def isWrite : Bool := (commandInfo p.cmd).isWrite
def isUpgrade : Bool := (commandInfo p.cmd).isUpgrade
def isInvalidate : Bool := (commandInfo p.cmd).isInvalidate
def needsExclusive : Bool := (commandInfo p.cmd).needsExclusive
def isRequest : Bool := (commandInfo p.cmd).isRequest
def isResponse : Bool := (commandInfo p.cmd).isResponse
def needsResponse : Bool := (commandInfo p.cmd).needsResponse
def isLLSC : Bool := (commandInfo p.cmd).isLlsc
def hasData : Bool := (commandInfo p.cmd).hasData
def isError : Bool := (commandInfo p.cmd).isError

/-- `getFirstWordTime` -/
def getFirstWordTime (cwFirst : Bool) : Nat := if cwFirst then p.firstWordTime else p.finishTime

/-- The copy constructor with `clearFlags` set. -/
def copyClear : Packet :=
  { p with sharedAsserted := false, isExpressSnoop := false, isSupplyExclusive := false,
           memInhibitAsserted := false }

/-- `makeTimingResponse` -/
def makeTimingResponse : Res Packet := do
  assert p.needsResponse
  assert p.isRequest
  return { p with cmd := (commandInfo p.cmd).response, isExpressSnoop := false }

end Packet

/-! ## Blocks in memory -/

/-- `BaseCache::blockAlign` -/
def blockAlign (g : Geometry) (addr : Nat) : Nat := g.blkAddr addr <<< g.setShift

/-- `getOffset`, `extractBlkOffset` -/
def getOffset (g : Geometry) (addr : Nat) : Nat := addr &&& (g.blkSize - 1)

/-- `size` bytes of `src` copied to offset `off` of `dst`. -/
def copyBytes (dst : Nat → Nat) (off size : Nat) (src : Nat → Nat) : Nat → Nat :=
  fun i => if off ≤ i ∧ i < off + size then src (i - off) else dst i

/-- The bytes from offset `off` on. -/
def bytesFrom (src : Nat → Nat) (off : Nat) : Nat → Nat := fun i => src (off + i)

theorem blkAddr_blockAlign (g : Geometry) (addr : Nat) : g.blkAddr (blockAlign g addr) = g.blkAddr addr :=
  Nat.shiftLeft_shiftRight ..

theorem blockAlign_eq_iff (g : Geometry) (a b : Nat) :
    blockAlign g a = blockAlign g b ↔ g.blkAddr a = g.blkAddr b := by
  constructor
  · intro h
    rw [← blkAddr_blockAlign g a, h, blkAddr_blockAlign]
  · intro h
    rw [blockAlign, h, blockAlign]

end DynamicCache.Cache
