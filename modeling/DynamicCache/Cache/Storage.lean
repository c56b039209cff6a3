import DynamicCache.Cache.Control

/-!
# Blocks of a cache (`cache_impl.hh`: accesses, fills, evictions)

`Storage` is the tag store together with `tempBlock`, which serves a response
when no frame can be replaced.  The tag store is held as an `LRU`: its virtual
functions are a `Policy`, and `insertBlock`, `findVictim` and `invalidateBlk`
are those of `LRU`.  `DirtyCache` overrides `access`, `timingAccess`,
`handleResponse` and `handleFill` with copies that differ in how they look
blocks up and in what a fill does; these differences are in the policy too.

Three fields record what happened and are not in the source: `source` the
thread whose fill or Writeback last put data in a storage, `accepted` the byte
last written to each byte of each block, also by a write that is only passed on,
and `overwrote` whether a response was ever copied over a valid dirty block.
-/

namespace DynamicCache.Cache

open Lib Tags

/-- What a `BlkType*` points to. -/
inductive BlkRef where
  | frame (f : Nat)
  | temp
deriving DecidableEq, Repr

structure Config where
  numTarget : Nat
  forwardSnoops : Bool
  isTopLevel : Bool
  cwFirst : Bool
  prefetcher : Bool
  prefetchOnAccess : Bool

/-- The functions in which the caches and their tag stores differ; `ε` is what a
tag store keeps besides the state of `LRU`. -/
structure Policy (ε : Type) where
  /-- `tags->accessBlock` in `access` -/
  accessBlock : Lru → ε → (addr now tid : Nat) → Option (Lru × ε × Option Nat × Nat)
  /-- `tags->findBlock` in `access`, `timingAccess` and `handleResponse` -/
  lookup : Lru → (addr tid : Nat) → Option Nat
  /-- the partition in which an uncacheable write invalidates the block it finds -/
  locate : Lru → (addr tid : Nat) → Nat
  /-- `tags->findBlock` with two arguments, everywhere else -/
  findBlock : Lru → (addr tid : Nat) → Option Nat
  /-- whether a fill marks the block dirty -/
  dirtyFill : Bool
  /-- the High copy that a fill moves -/
  fakeMiss : Lru → (addr : Nat) → Option Nat

structure Storage (ε : Type) where
  tags : Lru
  ext : ε
  tempBlock : CacheBlk := { srcMasterId := invldMasterId }
  source : BlkRef → Nat := fun _ => 0
  accepted : Nat → Nat → Option Nat := fun _ _ => none
  overwrote : Bool := false

variable {ε : Type}

namespace Storage

variable (s : Storage ε)

def blk : BlkRef → CacheBlk
  | .frame f => s.tags.blks f
  | .temp => s.tempBlock

def putBlk (b : BlkRef) (x : CacheBlk) : Storage ε :=
  match b with
  | .frame f => { s with tags := s.tags.putBlk f x }
  | .temp => { s with tempBlock := x }

/-- Updates a block in place. -/
def modify (b : BlkRef) (h : CacheBlk → CacheBlk) : Storage ε := s.putBlk b (h (s.blk b))

/-- Copies a block of data from a packet of thread `tid`. -/
def putData (b : BlkRef) (data : Nat → Nat) (tid : Nat) : Storage ε :=
  { s.modify b fun x => { x with data := data } with source := Function.update s.source b tid }

/-- Records an accepted write. -/
def accept (pkt : Packet) : Storage ε :=
  let n := s.tags.geo.blkAddr pkt.addr
  let off := getOffset s.tags.geo pkt.addr
  { s with accepted := Function.update s.accepted n fun i =>
      if off ≤ i ∧ i < off + pkt.size then some (pkt.data (i - off)) else s.accepted n i }

/-- Records an accepted block of data. -/
def acceptBlock (pkt : Packet) : Storage ε :=
  let n := s.tags.geo.blkAddr pkt.addr
  { s with accepted := Function.update s.accepted n fun i =>
      if i < s.tags.geo.blkSize then some (pkt.data i) else s.accepted n i }

/-- `LRU::invalidateBlk`; `tempBlock` is in no set. -/
def invalidateBlk (b : BlkRef) (tid : Nat) : Res (Storage ε) :=
  let x := s.blk b
  if x.isValid then do
    assert (decide (x.srcMasterId < s.tags.maxMasters))
    match b with
    | .frame f =>
      let tags ← orFail .notInSet (s.tags.invalidateBlk f tid)
      return { s with tags := tags }
    | .temp => .error .notInSet
  else .ok (s.putBlk b (Lru.invalidated x))

/-- `LRU::insertBlock` -/
def insertBlock (addr f masterId tid now : Nat) : Res (Storage ε) := do
  assert (!(s.tags.blks f).isValid || decide ((s.tags.blks f).srcMasterId < s.tags.maxMasters))
  assert (decide (masterId < s.tags.maxMasters))
  let tags ← orFail .notInSet (s.tags.insertBlock addr f masterId tid now)
  return { s with tags := tags }

/-! ## Requests from the CPU side -/

/-- `CacheBlk::checkWrite`; also returns the request with its result. -/
def checkWrite (x : CacheBlk) (pkt : Packet) : CacheBlk × Packet × Bool :=
  if pkt.isLLSC then
    let success := decide (pkt.req.contextId ∈ x.lockList)
    (x.clearLoadLocks, { pkt with req := { pkt.req with extraData := if success then 1 else 0 } }, success)
  else (x.clearLoadLocks, pkt, true)

/-- The bytes of a 64-bit value in memory. -/
def bytesOf (v : Nat) : Nat → Nat := fun i => v / 256 ^ i % 256

/-- Whether the conditional part of `cmpAndSwap` lets the write proceed. -/
def swapProceeds (g : Geometry) (x : CacheBlk) (pkt : Packet) : Res Bool :=
  let equal := (List.range pkt.size).all fun i =>
    bytesOf pkt.req.extraData i == x.data (getOffset g pkt.addr + i)
  if !pkt.req.isCondSwap then .ok true
  else if pkt.size = 8 ∨ pkt.size = 4 then .ok equal
  else .error .panicked

/-- The block after `size` bytes of the packet were written to it. -/
def written (g : Geometry) (pkt : Packet) (x : CacheBlk) : CacheBlk :=
  { x with
    data := copyBytes x.data (getOffset g pkt.addr) pkt.size pkt.data
    status := { x.status with dirty := true } }

def cmpAndSwap (pkt : Packet) (b : BlkRef) : Res (Storage ε × Packet) := do
  let g := s.tags.geo
  let x := s.blk b
  assert (decide (pkt.size ≤ 8))
  let proceeds ← swapProceeds g x pkt
  let pkt' := { pkt with data := bytesFrom x.data (getOffset g pkt.addr) }
  if proceeds then return ((s.accept pkt).modify b (written g pkt), pkt')
  else return (s, pkt')

/-- The write case of `satisfyCpuSideRequest`, also of a Writeback to a writable block. -/
def satisfyWrite (pkt : Packet) (b : BlkRef) : Storage ε × Packet :=
  let (x, pkt', proceeds) := checkWrite (s.blk b) pkt
  let s := s.putBlk b x
  if proceeds then
    ({ (s.accept pkt).modify b (written s.tags.geo pkt) with
        source := if pkt.cmd = .writeback then Function.update s.source b pkt.threadID else s.source }, pkt')
  else (s, pkt')

/-- The read case. -/
def satisfyRead (cfg : Config) (pkt : Packet) (b : BlkRef) (deferredResponse pendingDowngrade : Bool) :
    Res (Storage ε × Packet) :=
  let s := if pkt.isLLSC then
      s.modify b fun x => { x with lockList := pkt.req.contextId :: x.lockList }
    else s
  let x := s.blk b
  let pkt := { pkt with data := bytesFrom x.data (getOffset s.tags.geo pkt.addr) }
  if pkt.size = s.tags.geo.blkSize then
    if pkt.needsExclusive then do
      -- the recipient keeps a dirty copy dirty; ours is given up
      let s ← s.invalidateBlk b pkt.threadID
      return (s, if x.isDirty then { pkt with memInhibitAsserted := true } else pkt)
    else if x.isWritable && !pendingDowngrade && !pkt.sharedAsserted && !pkt.req.isInstFetch then
      if x.isDirty then
        if !deferredResponse && !cfg.isTopLevel then
          .ok (s.modify b fun x => { x with status := { x.status with dirty := false } },
            { pkt with memInhibitAsserted := true })
        else .ok (s, { pkt with sharedAsserted := true })
      else .ok (s, pkt)
    else .ok (s, { pkt with sharedAsserted := true })
  else .ok (s, pkt)

/-- Also returns the packet with the data and flags of the answer. -/
def satisfyCpuSideRequest (cfg : Config) (pkt : Packet) (b : BlkRef)
    (deferredResponse pendingDowngrade : Bool) : Res (Storage ε × Packet) := do
  assert (decide (getOffset s.tags.geo pkt.addr + pkt.size ≤ s.tags.geo.blkSize))
  if pkt.cmd = .swapReq then s.cmpAndSwap pkt b
  else if pkt.isWrite then return s.satisfyWrite pkt b
  else if pkt.isRead then s.satisfyRead cfg pkt b deferredResponse pendingDowngrade
  else
    -- neither read nor write: an upgrade
    assert pkt.isUpgrade
    let s ← s.invalidateBlk b pkt.threadID
    return (s, pkt)

/-! ## Evictions -/

/-- The writeback packet for block `b`. -/
def writebackPacket (b : BlkRef) (tid : Nat) : Packet :=
  { cmd := .writeback
    addr := s.tags.geo.regenerateBlkAddr (s.blk b).tag (s.blk b).set
    size := s.tags.geo.blkSize
    threadID := tid
    req := { masterId := wbMasterId }
    data := (s.blk b).data
    isSupplyExclusive := (s.blk b).isWritable
    origin := some (s.source b) }

/-- The block after its writeback. -/
def cleaned (x : CacheBlk) : CacheBlk := { x with status := { x.status with dirty := false } }

/-- Also returns the writeback packet. -/
def writebackBlk (b : BlkRef) (tid : Nat) : Res (Storage ε × Packet) := do
  assert ((s.blk b).isValid && (s.blk b).isDirty)
  return (s.modify b cleaned, s.writebackPacket b tid)

/-- The frame for a new block, `none` when the victim waits for an upgrade, and
the writebacks. -/
def allocateBlock (c : Control) (addr tid : Nat) : Res (Storage ε × Option Nat × List Packet) :=
  match s.tags.findVictim addr tid with
  | none => .error .outOfArray
  | some f =>
    let x := s.tags.blks f
    if x.isValid then
      let q := c.mshrQueues x.threadID
      match q.findMatch (s.tags.geo.regenerateBlkAddr x.tag x.set) with
      | some r => do
        assert (!x.isWritable)
        assert (q.registers r).needsExclusive
        return (s, none, [])
      | none =>
        if x.isDirty then do
          let (s, wb) ← s.writebackBlk (.frame f) x.threadID
          return (s, some f, [wb])
        else .ok (s, some f, [])
    else .ok (s, some f, [])

/-! ## Accesses -/

/-- What `access` leaves: the packet, the block, its latency, the writebacks and
whether the request is satisfied. -/
structure AccessResult (ε : Type) where
  store : Storage ε
  pkt : Packet
  blk : Option Nat
  lat : Nat
  writebacks : List Packet
  satisfied : Bool

/-- The assertion of the counters that a packet's master is known. -/
def assertMaster (pkt : Packet) : Res Unit := assert (decide (pkt.req.masterId < s.tags.maxMasters))

/-- The data and status that an incoming Writeback leaves in the block. -/
def writebackInto (pkt : Packet) (f : Nat) : Storage ε :=
  ((s.acceptBlock pkt).putData (.frame f) pkt.data pkt.threadID).modify (.frame f) fun x =>
    { x with status := { x.status with
        dirty := true
        writable := x.status.writable || pkt.isSupplyExclusive } }

/-- The Writeback case of `access`. -/
def accessWriteback (c : Control) (now : Nat) (pkt : Packet) (blk : Option Nat) (lat : Nat) :
    Res (AccessResult ε) := do
  assert (s.tags.geo.blkSize == pkt.size)
  match blk with
  | some f =>
    assert (!pkt.needsResponse)
    s.assertMaster pkt
    return ⟨s.writebackInto pkt f, pkt, some f, lat, [], true⟩
  | none =>
    let (s, victim, wbs) ← s.allocateBlock c pkt.addr pkt.threadID
    match victim with
    | none => return ⟨s, pkt, none, lat, wbs, false⟩
    | some f =>
      let s ← s.insertBlock pkt.addr f pkt.req.masterId pkt.threadID now
      let s := s.modify (.frame f) fun x => { x with status := { valid := true, readable := true } }
      assert (!pkt.needsResponse)
      return ⟨s.writebackInto pkt f, pkt, some f, lat, wbs, true⟩

/-- Whether the block has the permission that the packet needs. -/
def permits (pkt : Packet) (x : CacheBlk) : Bool := if pkt.needsExclusive then x.isWritable else x.isReadable

/-- A cacheable request; `timingAccess` deals with the others before it calls `access`. -/
def access (P : Policy ε) (cfg : Config) (c : Control) (now : Nat) (pkt : Packet) : Res (AccessResult ε) := do
  let (tags, ext, blk, lat) ← orFail .notInSet (P.accessBlock s.tags s.ext pkt.addr now pkt.threadID)
  let s := { s with tags := tags, ext := ext }
  match blk with
  | some f =>
    if permits pkt (s.tags.blks f) then
      s.assertMaster pkt
      let (s, pkt) ← s.satisfyCpuSideRequest cfg pkt (.frame f) false false
      return ⟨s, pkt, some f, lat, [], true⟩
    else if pkt.cmd = .writeback then s.accessWriteback c now pkt (some f) lat
    else return ⟨s, pkt, some f, lat, [], false⟩
  | none =>
    if pkt.cmd = .writeback then s.accessWriteback c now pkt none lat
    else if pkt.isLLSC && pkt.isWrite then
      -- a store conditional that misses fails at once
      return ⟨s, { pkt with req := { pkt.req with extraData := 0 } }, none, lat, [], true⟩
    else return ⟨s, pkt, none, lat, [], false⟩

/-- What an uncacheable request does to the tag store before it is forwarded. -/
def uncacheable (P : Policy ε) (pkt : Packet) : Res (Storage ε) :=
  if pkt.req.isClearLL then
    .ok { s with tags := { s.tags with blks := fun f => (s.tags.blks f).clearLoadLocks } }
  else if pkt.isWrite then
    match P.lookup s.tags pkt.addr pkt.threadID with
    | none => .ok (s.accept pkt)
    | some f => (s.accept pkt).invalidateBlk (.frame f) (P.locate s.tags pkt.addr pkt.threadID)
  else .ok s

/-! ## Fills -/

/-- The frame or `tempBlock` that `handleFill` starts a new block in. -/
def fillTarget (now : Nat) (pkt : Packet) (victim : Option Nat) : Res (Storage ε × BlkRef) :=
  match victim with
  | none => do
    assert (!s.tempBlock.isValid)
    let g := s.tags.geo
    return (s.modify .temp fun x =>
      { x with set := g.extractSet pkt.addr, tag := g.extractTag pkt.addr, status := {} }, .temp)
  | some f => do
    let s ← s.insertBlock pkt.addr f pkt.req.masterId pkt.threadID now
    return (s.modify (.frame f) fun x => { x with status := {} }, .frame f)

/-- The permissions that a response gives. -/
def fillStatus (dirtyFill : Bool) (pkt : Packet) (st : BlkStatus) : BlkStatus :=
  let st := { st with valid := true, readable := true, dirty := st.dirty || dirtyFill }
  if pkt.sharedAsserted then st
  else { st with writable := true, dirty := st.dirty || pkt.memInhibitAsserted }

/-- The data of the response, or of the High copy `blkH`, which is given up. -/
def fillData (pkt : Packet) (b : BlkRef) (blkH : Option Nat) : Res (Storage ε) :=
  if pkt.isRead then
    match blkH with
    | none => .ok (s.putData b pkt.data pkt.threadID)
    | some f => (s.putData b (s.tags.blks f).data pkt.threadID).invalidateBlk (.frame f) 1
  else .ok s

/-- The end of `handleFill`: permissions, data, and the time when it is ready. -/
def fillBlock (P : Policy ε) (pkt : Packet) (b : BlkRef) (blkH : Option Nat) : Res (Storage ε) := do
  let s ← (s.modify b fun x => { x with status := fillStatus P.dirtyFill pkt x.status }).fillData pkt b blkH
  return s.modify b fun x => { x with whenReady := pkt.finishTime }

/-- Also returns the block and the writebacks. -/
def handleFill (P : Policy ε) (c : Control) (now : Nat) (pkt : Packet) (blk : Option Nat) :
    Res (Storage ε × BlkRef × List Packet) :=
  match blk with
  | none => do
    assert pkt.hasData
    let blkH := P.fakeMiss s.tags pkt.addr
    let (s, victim, wbs) ← s.allocateBlock c pkt.addr pkt.threadID
    let (s, b) ← s.fillTarget now pkt victim
    let s ← s.fillBlock P pkt b blkH
    return (s, b, wbs)
  | some f => do
    let x := s.tags.blks f
    assert (x.tag == s.tags.geo.extractTag pkt.addr)
    assert (pkt.hasData || x.isValid)
    let s := { s with overwrote := s.overwrote || (pkt.isRead && x.isValid && x.isDirty) }
    let s ← s.fillBlock P pkt (.frame f) none
    return (s, .frame f, [])

/-! ## Snoops -/

/-- The answer of the caches above to a forwarded snoop. -/
structure UpwardSnoop where
  memInhibitAsserted : Bool := false
  sharedAsserted : Bool := false
deriving DecidableEq, Repr

/-- `doTimingSupplyResponse`: the response to a snoop. -/
def supplyResponse (g : Geometry) (req : Packet) (data : Nat → Nat) (pendingInval : Bool) : Res Packet := do
  assert (req.isInvalidate || req.sharedAsserted)
  let pkt ← req.makeTimingResponse
  let pkt := if pkt.isRead then { pkt with data := bytesFrom data (getOffset g pkt.addr) } else pkt
  return if pkt.cmd = .readResp ∧ pendingInval then { pkt with cmd := .readRespWithInvalidate } else pkt

/-- The flags that the caches above add to a snoop. -/
def forwardSnoop (cfg : Config) (up : UpwardSnoop) (pkt : Packet) : Res Packet :=
  if cfg.forwardSnoops then do
    assert (!(up.memInhibitAsserted && pkt.memInhibitAsserted))
    return { pkt with
      memInhibitAsserted := pkt.memInhibitAsserted || up.memInhibitAsserted
      sharedAsserted := pkt.sharedAsserted || up.sharedAsserted }
  else .ok pkt

/-- A read by another cache takes the write permission away. -/
def shareIf (c : Bool) (b : BlkRef) : Storage ε :=
  if c then s.modify b fun x => { x with status := { x.status with writable := false } } else s

def invalidateIf (c : Bool) (b : BlkRef) (tid : Nat) : Res (Storage ε) :=
  if c then s.invalidateBlk b tid else .ok s

/-- The response of a block `x`, if it is dirty and one is needed. -/
def snoopResponse (g : Geometry) (pkt : Packet) (x : CacheBlk) (pendingInval : Bool) : Res (Option Packet) :=
  if x.isDirty && pkt.needsResponse then do
    assert (!pkt.memInhibitAsserted)
    let r ← supplyResponse g { pkt with
      memInhibitAsserted := true
      isSupplyExclusive := pkt.isSupplyExclusive || x.isWritable } x.data pendingInval
    return some r
  else .ok none

/-- Also returns the response, if this cache gives one. -/
def handleSnoop (cfg : Config) (up : UpwardSnoop) (pkt : Packet) (blk : Option BlkRef) (pendingInval : Bool) :
    Res (Storage ε × Option Packet) := do
  assert pkt.isRequest
  let fwd ← forwardSnoop cfg up pkt
  match blk with
  | none => return (s, none)
  | some b =>
    let x := s.blk b
    if !x.isValid then return (s, none)
    else
      let reads := pkt.isRead && !pkt.isInvalidate
      assert (!(reads && pkt.needsExclusive))
      let resp ← snoopResponse s.tags.geo { fwd with sharedAsserted := fwd.sharedAsserted || reads } x pendingInval
      let s ← (s.shareIf reads b).invalidateIf pkt.isInvalidate b pkt.threadID
      return (s, resp)

end Storage

end DynamicCache.Cache
