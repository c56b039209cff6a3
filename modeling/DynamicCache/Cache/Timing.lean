import DynamicCache.Cache.Storage

/-!
# A cache in timing mode (`cache_impl.hh`)

The functions that receive requests (`timingAccess`), responses
(`handleResponse`) and snoops (`snoopTiming`) and that send packets
(`sendDeferredPacket`), over the whole state of a cache.  Prefetches come from
outside, as do the answers of the caches above to forwarded snoops and the
answers of the memory system, which are kept in `bus` until they arrive.
-/

namespace DynamicCache.Cache

open Lib Tags

variable {ε : Type}

/-! ## State -/

/-- A request on its way and the register that waits for its response. -/
structure InFlight where
  ref : MshrRef
  pkt : Packet

/-- What a cache sends: responses with their time, requests, express snoops. -/
inductive Output where
  | cpuResp (pkt : Packet) (time : Nat)
  | snoopResp (pkt : Packet) (time : Nat)
  | request (pkt : Packet)
  | expressSnoop (pkt : Packet)

structure State (ε : Type) where
  cfg : Config
  store : Storage ε
  ctl : Control
  now : Nat := 0
  bus : List InFlight := []
  /-- newest first -/
  out : List Output := []

namespace State

variable (s : State ε)

def geo : Geometry := s.store.tags.geo

/-- The time that almost every call charges. -/
def hitTime : Nat := s.now + s.geo.hitLatency

/-! ## Requests -/

/-- A block that is used is no longer one that was only prefetched. -/
def usePrefetched (store : Storage ε) (blk : Option Nat) : Storage ε :=
  match blk with
  | some f =>
    if s.cfg.prefetcher && (s.cfg.prefetchOnAccess || (store.tags.blks f).status.hwPrefetched) then
      store.modify (.frame f) fun x => { x with status := { x.status with hwPrefetched := false } }
    else store
  | none => store

/-- The end of a request that `access` satisfied. -/
def satisfied (r : Storage.AccessResult ε) : Res (State ε) :=
  if r.pkt.needsResponse then do
    let pkt ← r.pkt.makeTimingResponse
    return { s with
      store := s.usePrefetched r.store r.blk
      out := .cpuResp pkt (s.now + r.lat) :: s.out }
  else .ok { s with store := s.usePrefetched r.store r.blk }

/-- A request that finds a register for its block. -/
def mshrHit (store : Storage ε) (pkt : Packet) (r : Nat) : Res (State ε) := do
  let ref : MshrRef := ⟨false, pkt.threadID, r⟩
  let m ← (s.ctl.mshr ref).allocateTarget s.now pkt s.hitTime s.ctl.order
  let full := m.getNumTargets == s.cfg.numTarget
  let ctl ← ({ s.ctl.putMshr ref m with
    order := s.ctl.order + 1
    noTargetMSHR := if full then some ref else s.ctl.noTargetMSHR } : Control).setBlockedIf full .noTargets
      pkt.threadID
  return { s with store := store, ctl := ctl }

/-- A block without write permission must not be read while the upgrade is outstanding. -/
def hideBlock (store : Storage ε) (pkt : Packet) (blk : Option Nat) : Res (Storage ε) :=
  match blk with
  | some f =>
    if (store.tags.blks f).isValid then do
      assert (pkt.needsExclusive && !(store.tags.blks f).isWritable)
      return store.modify (.frame f) fun x => { x with status := { x.status with readable := false } }
    else .ok store
  | none => .ok store

/-- A request that finds none. -/
def mshrMiss (store : Storage ε) (pkt : Packet) (blk : Option Nat) : Res (State ε) :=
  if pkt.cmd = .writeback then do
    let (ctl, _) ← s.ctl.allocateWriteBuffer s.now pkt s.hitTime
    return { s with store := store.acceptBlock pkt, ctl := ctl }
  else do
    let store ← hideBlock store pkt blk
    let (ctl, _) ← s.ctl.allocateMissBuffer s.geo s.now pkt s.hitTime
    return { s with store := store, ctl := ctl }

def missed (r : Storage.AccessResult ε) : Res (State ε) := do
  r.store.assertMaster r.pkt
  match (s.ctl.mshrQueues r.pkt.threadID).findMatch (blockAlign s.geo r.pkt.addr) with
  | some reg => s.mshrHit r.store r.pkt reg
  | none => s.mshrMiss r.store r.pkt r.blk

/-- A request that another cache answers. -/
def inhibited (pkt : Packet) : Res (State ε) := do
  assert (!pkt.req.isUncacheable)
  if pkt.needsExclusive && !pkt.isSupplyExclusive then
    let snoop := { pkt.copyClear with isExpressSnoop := true, memInhibitAsserted := true }
    return { s with out := .expressSnoop snoop :: s.out }
  else return s

/-- Uncacheable writes go in the write buffer, reads use a miss register. -/
def allocateUncacheable (pkt : Packet) : Res (Control × MshrRef) :=
  if pkt.isWrite && !pkt.isRead then s.ctl.allocateWriteBuffer s.now pkt s.hitTime
  else s.ctl.allocateUncachedReadBuffer s.now pkt s.hitTime

def uncacheableAccess (P : Policy ε) (pkt : Packet) : Res (State ε) := do
  let store ← s.store.uncacheable P pkt
  let (ctl, _) ← s.allocateUncacheable pkt
  assert pkt.needsResponse
  return { s with store := store, ctl := ctl }

def accessed (r : Storage.AccessResult ε) : Res (State ε) := if r.satisfied then s.satisfied r else s.missed r

def cacheableAccess (P : Policy ε) (pkt : Packet) : Res (State ε) := do
  let r ← s.store.access P s.cfg s.ctl s.now pkt
  let s' ← s.accessed r
  let ctl ← s'.ctl.allocateWriteBuffers s'.now s'.hitTime r.writebacks
  return { s' with ctl := ctl }

/-- Responses that come from above are forwarded snoop responses. -/
def timingAccess (P : Policy ε) (pkt : Packet) : Res (State ε) :=
  if pkt.isResponse then .ok { s with out := .snoopResp pkt s.hitTime :: s.out }
  else do
    assert pkt.isRequest
    if pkt.memInhibitAsserted then s.inhibited pkt
    else if pkt.req.isUncacheable then s.uncacheableAccess P pkt
    else s.cacheableAccess P pkt

/-- `recvTimingReq` of the CPU-side port -/
def recvTimingReq (P : Policy ε) (pkt : Packet) : Res (State ε) :=
  if !pkt.memInhibitAsserted && s.ctl.portBlocked pkt.threadID then
    .ok { s with ctl := { s.ctl with mustSendRetry := true } }
  else s.timingAccess P pkt

/-! ## Responses -/

/-- What `handleResponse` knows while it serves the targets. -/
structure Fill where
  cfg : Config
  now : Nat
  mshr : Mshr
  pkt : Packet
  isFill : Bool
  initialOffset : Nat
  /-- answers of the caches above to the deferred snoops, by their order -/
  up : Nat → Storage.UpwardSnoop

namespace Fill

variable (e : Fill)

/-- The packet and the time of the answer to a CPU target. -/
def answer (store : Storage ε) (blk : Option BlkRef) (t : Packet) : Res (Storage ε × Packet × Nat) :=
  let lat := store.tags.geo.hitLatency
  if e.isFill then do
    let down ← e.mshr.hasPostDowngrade
    let b ← orFail .outOfArray blk
    let (store', t') ← store.satisfyCpuSideRequest e.cfg t b true down
    assert (!t'.req.isUncacheable)
    store'.assertMaster t'
    let first := getOffset store.tags.geo t.addr == e.initialOffset
    return (store', t', lat + if first then e.pkt.getFirstWordTime e.cfg.cwFirst else e.pkt.finishTime)
  else if e.pkt.cmd = .upgradeFailResp then do
    assert (t.cmd == .storeCondReq || t.cmd == .storeCondFailReq || t.cmd == .scUpgradeFailReq)
    return (store, { t with req := { t.req with extraData := 0 } }, lat + e.pkt.finishTime)
  else
    .ok (store, if e.pkt.isRead && !e.pkt.isError then { t with data := e.pkt.data } else t,
      lat + e.pkt.finishTime)

/-- The command of the answer. -/
def answerCmd (t : Packet) : Res Packet := do
  let t ← t.makeTimingResponse
  let t := if e.pkt.isError then { t with cmd := e.pkt.cmd } else t
  if t.cmd = .readResp then
    let inval ← e.mshr.invalidates e.pkt
    return if inval then { t with cmd := .readRespWithInvalidate } else t
  else return t

def serveTarget (store : Storage ε) (blk : Option BlkRef) (t : Target) : Res (Storage ε × List Output) :=
  match t.source with
  | .fromCPU => do
    let (store, pkt, time) ← e.answer store blk t.pkt
    let pkt ← e.answerCmd pkt
    return (store, [.cpuResp pkt time])
  | .fromPrefetcher => do
    assert (t.pkt.cmd == .hardPFReq)
    match blk with
    | some b =>
      return (store.modify b fun x => { x with status := { x.status with hwPrefetched := true } }, [])
    | none => return (store, [])
  | .fromSnoop => do
    assert (!e.pkt.isError)
    let inval ← e.mshr.hasPostInvalidate
    assert (!(e.pkt.isInvalidate && !inval))
    let (store, resp) ← store.handleSnoop e.cfg (e.up t.order) t.pkt blk inval
    return (store, resp.toList.map fun p => .snoopResp p (e.now + store.tags.geo.hitLatency))

/-- The loop over the targets; also returns what it sends, newest first. -/
def serveTargets (blk : Option BlkRef) : List Target → Storage ε → List Output → Res (Storage ε × List Output)
  | [], store, out => .ok (store, out)
  | t :: ts, store, out => do
    let (store, o) ← e.serveTarget store blk t
    serveTargets blk ts store (o ++ out)

/-- The invalidation or downgrade after the targets. -/
def afterTargets (store : Storage ε) (blk : Option BlkRef) : Res (Storage ε) :=
  match blk with
  | none => .ok store
  | some b => do
    let inval ← e.mshr.invalidates e.pkt
    if inval then store.invalidateBlk b e.pkt.threadID
    else
      let down ← e.mshr.hasPostDowngrade
      return store.shareIf down b

end Fill

/-- The register after all its targets were served. -/
def servedMshr (m : Mshr) : Mshr :=
  { m with ntargets := m.ntargets - m.targets.list.length, targets := { m.targets with list := [] } }

/-- Waits again for the deferred targets, or frees the register. -/
def finishMshr (ctl : Control) (now : Nat) (ref : MshrRef) (m : Mshr) (wasFull : Bool) (tid : Nat) :
    Res (Control × Bool) := do
  let (m, promoted) ← (servedMshr m).promoteDeferredTargets now
  let ctl := ctl.putMshr ref m
  if promoted then
    let q ← (ctl.queue ref).markPending ref.reg
    return (ctl.putQueue ref q, true)
  else
    let q ← (ctl.queue ref).deallocate ref.reg
    let ctl ← (ctl.putQueue ref q).clearIfFull wasFull ref tid
    return (ctl, false)

/-- The writeback of a dirty `tempBlock`. -/
def writebackTemp (store : Storage ε) : Res (Storage ε × List Packet) :=
  if store.tempBlock.isDirty then do
    let (store, wb) ← store.writebackBlk .temp store.tempBlock.threadID
    return (store, [wb])
  else .ok (store, [])

/-- Empties `tempBlock` after it served a response; also returns its writeback. -/
def clearTemp (store : Storage ε) (blk : Option BlkRef) (tid : Nat) : Res (Storage ε × List Packet) :=
  if blk = some .temp then do
    let (store, wbs) ← writebackTemp store
    let store ← (store.modify .temp fun x => { x with status := { x.status with valid := false } }).invalidateBlk
      .temp tid
    return (store, wbs)
  else .ok (store, [])

/-- Unblocks the thread whose register had no room for targets. -/
def clearNoTarget (ctl : Control) (ref : MshrRef) (tid : Nat) : Res Control :=
  if ctl.noTargetMSHR = some ref then do
    let ctl ← ctl.clearBlocked .noTargets tid
    return { ctl with noTargetMSHR := none }
  else .ok ctl

/-- What a response leaves to be served: the register, the blocks, the block that
was found or filled, and the writebacks. -/
structure Filled (ε : Type) where
  mshr : Mshr
  store : Storage ε
  blk : Option BlkRef
  writebacks : List Packet

/-- The part of `handleResponse` before the targets. -/
def fill (P : Policy ε) (ctl : Control) (m : Mshr) (pkt : Packet) (isFill : Bool) : Res (Filled ε) :=
  let found := P.lookup s.store.tags pkt.addr pkt.threadID
  if isFill && !pkt.isError then do
    let m ← m.handleFill pkt
    let (store, b, wbs) ← s.store.handleFill P ctl s.now pkt found
    return ⟨m, store, some b, wbs⟩
  else .ok ⟨m, s.store, found.map BlkRef.frame, []⟩

/-- A block must not be read while the deferred targets wait for it. -/
def hideIf (store : Storage ε) (promoted : Bool) (blk : Option BlkRef) : Storage ε :=
  match blk with
  | some b =>
    if promoted then store.modify b fun x => { x with status := { x.status with readable := false } } else store
  | none => store

/-- `handleResponse`; `pkt` is the response and `ref` its sender state. -/
def handleResponse (P : Policy ε) (ref : MshrRef) (pkt : Packet) (up : Nat → Storage.UpwardSnoop) :
    Res (State ε) := do
  let m := s.ctl.mshr ref
  let ctl ← clearNoTarget s.ctl ref pkt.threadID
  assert m.hasTargets
  s.store.assertMaster pkt
  let isFill := !m.isForward && (pkt.isRead || pkt.cmd == .upgradeResp)
  let r ← s.fill P ctl m pkt isFill
  let offset := match r.mshr.targets.list with
    | [] => 0
    | t :: _ => getOffset s.geo t.pkt.addr
  let e : Fill := ⟨s.cfg, s.now, r.mshr, pkt, isFill, offset, up⟩
  let (store, out) ← e.serveTargets r.blk r.mshr.targets.list r.store s.out
  let store ← e.afterTargets store r.blk
  let (ctl, promoted) ← finishMshr ctl s.now ref r.mshr (s.ctl.queue ref).isFull pkt.threadID
  let ctl ← ctl.allocateWriteBuffers s.now s.hitTime r.writebacks
  let (store, wbs) ← clearTemp (hideIf store promoted r.blk) r.blk pkt.threadID
  let ctl ← ctl.allocateWriteBuffers s.now s.hitTime wbs
  return { s with store := store, ctl := ctl, out := out }

/-! ## Snoops -/

/-- Discards a writeback that a snoop invalidates. -/
def discardIf (c : Control) (inval : Bool) (ref : MshrRef) (pkt : Packet) : Res Control :=
  if inval then c.markInServiceNull ref pkt else .ok c

/-- The writeback is no longer the only copy. -/
def shareWriteback (m : Mshr) (t : Target) : Mshr :=
  { m with targets := { m.targets with
      list := { t with pkt := { t.pkt with isSupplyExclusive := false } } :: m.targets.list.tail } }

/-- A snoop that finds a writeback in the write buffer. -/
def snoopWriteback (pkt : Packet) (r : Nat) : Res (State ε × Packet) := do
  let ref : MshrRef := ⟨true, pkt.threadID, r⟩
  let m := s.ctl.mshr ref
  assert (!m.isUncacheable)
  assert (m.getNumTargets == 1)
  let t ← m.getTarget
  assert (t.pkt.cmd == .writeback)
  assert (!pkt.memInhibitAsserted)
  let shares := !pkt.needsExclusive
  assert (shares || pkt.isInvalidate)
  let pkt := { pkt with memInhibitAsserted := true, sharedAsserted := pkt.sharedAsserted || shares }
  let resp ← Storage.supplyResponse s.geo pkt t.pkt.data false
  let ctl ← discardIf (if shares then s.ctl.putMshr ref (shareWriteback m t) else s.ctl) pkt.isInvalidate ref pkt
  return ({ s with ctl := ctl, out := .snoopResp resp s.hitTime :: s.out }, pkt)

/-- The writebacks of the block in the write buffer; there is at most one. -/
def snoopWritebacks (pkt : Packet) : Res (State ε × Packet) :=
  match (s.ctl.writeBuffers pkt.threadID).findMatches (blockAlign s.geo pkt.addr) with
  | [] => .ok (s, pkt)
  | [r] => s.snoopWriteback pkt r
  | _ => .error .assertion

/-- The part of `snoopTiming` that the registers do not take over. -/
def snoopBlocks (pkt : Packet) (blk : Option Nat) (up : Storage.UpwardSnoop) : Res (State ε) := do
  let (s, pkt) ← s.snoopWritebacks pkt
  let (store, resp) ← s.store.handleSnoop s.cfg up pkt (blk.map BlkRef.frame) false
  return { s with
    store := store
    out := (resp.toList.map fun p => .snoopResp p (s.now + store.tags.geo.hitLatency)) ++ s.out }

def snoopTiming (P : Policy ε) (pkt : Packet) (up : Storage.UpwardSnoop) : Res (State ε) :=
  if pkt.req.isUncacheable ∨ pkt.cmd = .writeback then .ok s
  else
    let blk := P.findBlock s.store.tags pkt.addr pkt.threadID
    match (s.ctl.mshrQueues pkt.threadID).findMatch (blockAlign s.geo pkt.addr) with
    | none => s.snoopBlocks pkt blk up
    | some r =>
      let ref : MshrRef := ⟨false, pkt.threadID, r⟩
      let (m, pkt', deferred) := (s.ctl.mshr ref).handleSnoop s.now pkt s.ctl.order
      let s' := { s with ctl := { s.ctl.putMshr ref m with order := s.ctl.order + 1 } }
      if deferred then .ok s' else s'.snoopBlocks pkt' blk up

/-! ## Sending -/

/-- `getNextMSHR` before it tries a prefetch. -/
def selectMSHR (c : Control) (now tid : Nat) : Option MshrRef :=
  let mq := c.mshrQueues tid
  let wb := c.writeBuffers tid
  match mq.getNextMSHR now, wb.getNextMSHR now with
  | some m, none => some ⟨false, tid, m⟩
  | none, some w => some ⟨true, tid, w⟩
  | some m, some w =>
    if wb.isFull && wb.inServiceEntries == 0 then
      -- a write should go first, unless an earlier miss conflicts with it
      match mq.findPending (wb.registers w).addr (wb.registers w).size with
      | some r => if (mq.registers r).order < (wb.registers w).order then some ⟨false, tid, r⟩ else some ⟨true, tid, w⟩
      | none => some ⟨true, tid, w⟩
    else
      match wb.findPending (mq.registers m).addr (mq.registers m).size with
      | some r => some ⟨true, tid, r⟩
      | none => some ⟨false, tid, m⟩
  | none, none => none

/-- An address that the prefetcher offers. -/
structure Prefetch where
  addr : Nat
  req : Request := {}

/-- Prefetch packets are made without a thread id. -/
def Prefetch.packet (g : Geometry) (pf : Prefetch) : Packet :=
  { cmd := .hardPFReq, addr := pf.addr, size := g.blkSize, threadID := 0, req := pf.req }

/-- `getNextMSHR`; a prefetch gets a register of thread 0. -/
def getNextMSHR (P : Policy ε) (tid : Nat) (pf : Option Prefetch) : Res (State ε × Option MshrRef) :=
  match selectMSHR s.ctl s.now tid with
  | some ref => .ok (s, some ref)
  | none =>
    match pf with
    | none => .ok (s, none)
    | some pf =>
      let addr := blockAlign s.geo pf.addr
      if s.cfg.prefetcher && !(s.ctl.mshrQueues tid).isFull &&
          (P.findBlock s.store.tags addr 0).isNone && ((s.ctl.mshrQueues tid).findMatch addr).isNone &&
          ((s.ctl.writeBuffers tid).findMatch addr).isNone then do
        s.store.assertMaster (pf.packet s.geo)
        let (ctl, ref) ← s.ctl.allocateMissBuffer s.geo s.now (pf.packet s.geo) s.now
        return ({ s with ctl := ctl }, some ref)
      else .ok (s, none)

/-- The request for a miss, `none` when the packet is forwarded as it is. -/
def getBusPacket (g : Geometry) (cpuPkt : Packet) (blk : Option CacheBlk) (needsExclusive : Bool) :
    Res (Option Packet) :=
  have valid := match blk with
    | some x => x.isValid
    | none => false
  have writable := match blk with
    | some x => x.isWritable
    | none => false
  if cpuPkt.req.isUncacheable then .ok none
  else if !valid && (cpuPkt.cmd == .writeback || cpuPkt.isUpgrade) then .ok none
  else do
    assert cpuPkt.needsResponse
    assert (!valid || (needsExclusive && !writable))
    let cmd := if valid then (if cpuPkt.isLLSC then MemCmd.scUpgradeReq else .upgradeReq)
      else if needsExclusive then .readExReq else .readReq
    return some { cmd := cmd, addr := blockAlign g cpuPkt.addr, size := g.blkSize,
                  threadID := cpuPkt.threadID, req := cpuPkt.req }

/-- What the outside does when a packet is sent: whether the bus takes it, the
flags that the other caches on it set, and the answer from above to the snoop
that precedes a prefetch. -/
structure SendEnv where
  accepted : Bool := true
  sharedAsserted : Bool := false
  memInhibitAsserted : Bool := false
  up : Storage.UpwardSnoop := {}
  prefetch : Option Prefetch := none

/-- The packet is handed to the bus; it is waited for if it needs a response. -/
def sendPacket (ref : MshrRef) (pkt : Packet) (env : SendEnv) : Res (State ε) :=
  if env.accepted then do
    let pkt := { pkt with
      sharedAsserted := pkt.sharedAsserted || env.sharedAsserted
      memInhibitAsserted := pkt.memInhibitAsserted || env.memInhibitAsserted }
    let ctl ← s.ctl.markInService ref pkt
    return { s with
      ctl := ctl
      bus := if pkt.needsResponse then ⟨ref, pkt⟩ :: s.bus else s.bus
      out := .request pkt :: s.out }
  else .ok s

/-- A request that expects a response. -/
def sendMiss (P : Policy ε) (ref : MshrRef) (t : Packet) (env : SendEnv) : Res (State ε) := do
  let m := s.ctl.mshr ref
  let blk := P.findBlock s.store.tags m.addr t.threadID
  assert (!(t.cmd == .hardPFReq) || blk.isNone)
  if t.cmd = .hardPFReq ∧ env.up.memInhibitAsserted then
    -- a cache above supplies the prefetched block
    let snoop := { t.copyClear with
      isExpressSnoop := true, memInhibitAsserted := true, sharedAsserted := env.up.sharedAsserted }
    let ctl ← s.ctl.markInService ref snoop
    return { s with ctl := ctl, bus := ⟨ref, snoop⟩ :: s.bus }
  else
    let bus ← getBusPacket s.geo t (blk.map s.store.tags.blks) m.needsExclusive
    let s := { s with ctl := s.ctl.putMshr ref { m with isForward := bus.isNone } }
    s.sendPacket ref (bus.getD t) env

/-- `sendDeferredPacket` with `getTimingPacket` -/
def sendDeferredPacket (P : Policy ε) (tid : Nat) (env : SendEnv) : Res (State ε) := do
  let (s, ref) ← s.getNextMSHR P tid env.prefetch
  match ref with
  | none => return s
  | some ref =>
    let m := s.ctl.mshr ref
    let t ← m.getTarget
    if t.pkt.cmd = .scUpgradeFailReq ∨ t.pkt.cmd = .storeCondFailReq then
      -- the copy was lost while the request waited
      s.handleResponse P ref
        { t.pkt with cmd := .upgradeFailResp, finishTime := s.now, firstWordTime := s.now } fun _ => {}
    else
      let forward ← m.isForwardNoResponse
      if forward then s.sendPacket ref t.pkt env else s.sendMiss P ref t.pkt env

/-! ## Steps -/

/-- The commands that may answer a request. -/
def answers : MemCmd → MemCmd → Bool
  | .readReq, .readRespWithInvalidate => true
  | .scUpgradeReq, .upgradeFailResp => true
  | _, .badAddressError => true
  | _, .invalidDestError => true
  | req, resp => (commandInfo req).needsResponse && resp == (commandInfo req).response

/-- A response of the memory system. -/
structure Reply where
  cmd : MemCmd
  sharedAsserted : Bool := false
  memInhibitAsserted : Bool := false
  data : Nat → Nat := fun _ => 0
  finishTime : Nat := 0
  firstWordTime : Nat := 0
  up : Nat → Storage.UpwardSnoop := fun _ => {}

/-- The request packet turned into the response. -/
def Reply.packet (r : Reply) (req : Packet) : Packet :=
  { req with cmd := r.cmd, sharedAsserted := r.sharedAsserted, memInhibitAsserted := r.memInhibitAsserted,
             data := r.data, finishTime := r.finishTime, firstWordTime := r.firstWordTime }

/-- The response to the request that register `ref` waits for. -/
def recvTimingResp (P : Policy ε) (ref : MshrRef) (r : Reply) : Res (State ε) :=
  match s.bus.find? fun f => f.ref == ref with
  | none => .ok s
  | some f =>
    if answers f.pkt.cmd r.cmd then
      { s with bus := s.bus.filter fun f => f.ref != ref }.handleResponse P ref (r.packet f.pkt) r.up
    else .ok s

end State

/-- What can happen to a cache.  A response to no request, or with a command that
does not answer it, does not happen.  Requests come without a recorded origin. -/
inductive Action where
  | advance (ticks : Nat)
  | recvTimingReq (pkt : Packet)
  | recvTimingResp (ref : MshrRef) (r : State.Reply)
  | recvTimingSnoopReq (pkt : Packet) (up : Storage.UpwardSnoop)
  | send (tid : Nat) (env : State.SendEnv)

def State.step (P : Policy ε) (s : State ε) : Action → Res (State ε)
  | .advance ticks => .ok { s with now := s.now + ticks }
  | .recvTimingReq pkt => s.recvTimingReq P { pkt with origin := none }
  | .recvTimingResp ref r => s.recvTimingResp P ref r
  | .recvTimingSnoopReq pkt up => s.snoopTiming P pkt up
  | .send tid env => s.sendDeferredPacket P tid env

end DynamicCache.Cache
