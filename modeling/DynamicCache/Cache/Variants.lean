import DynamicCache.Cache.Timing
import DynamicCache.Tags.CDynaLru
import DynamicCache.Tags.DcLru
import DynamicCache.Tags.FDynaLru
import DynamicCache.Tags.Partitioned

/-!
# The split caches (`split_rport_cache.hh`, `c_dynamic_cache.hh`, `f_dynamic_cache.hh`, `dirty_cache.hh`)

The four caches with queues of their own for every thread: `SplitRPortCache`
over the way-partitioned `WPLRU`, the two dynamic caches, which also resize
their partitions, and `DirtyCache`.  Whether a `C_DynamicCache` grows or
shrinks Low is decided from hit counters and a curve read from a file; the
decision comes from outside here.
-/

namespace DynamicCache.Cache

open Lib Tags

variable {ε : Type}

/-- A cache before its first request. -/
def State.init (cfg : Config) (tags : Lru) (ext : ε) (mshrs writeBuffers : Nat) : State ε where
  cfg := cfg
  store := { tags := tags, ext := ext }
  ctl := .init mshrs writeBuffers

/-- Queues the writeback of a block of the tag store for thread `tid`, at once. -/
def State.writebackNow (s : State ε) (f tid : Nat) : Res (State ε) :=
  if (s.store.tags.blks f).isDirty && (s.store.tags.blks f).isValid then do
    let (store, wb) ← s.store.writebackBlk (.frame f) tid
    let (ctl, _) ← s.ctl.allocateWriteBuffer s.now wb s.now
    return { s with store := store, ctl := ctl }
  else .ok s

/-! ## SplitRPortCache over WPLRU -/

namespace Split

/-- A policy that only looks into the thread's own partition. -/
def policy : Policy Unit where
  accessBlock tags _ addr now tid := (tags.accessBlock addr now tid).map fun r => (r.1, (), r.2)
  lookup := Lru.findBlock
  locate _ _ tid := tid
  findBlock := Lru.findBlock
  dirtyFill := false
  fakeMiss _ _ := none

def init (cfg : Config) (geo : Geometry) (maxMasters numTcs mshrs writeBuffers : Nat) : State Unit :=
  .init cfg (wplru geo maxMasters numTcs) () mshrs writeBuffers

def step : State Unit → Action → Res (State Unit) := State.step policy

end Split

/-! ## C_DynamicCache -/

namespace CDynamic

/-- What `C_DYNALRU` keeps besides the state of `LRU`. -/
structure Ext where
  hMin : Nat
  umon : Umon

def policy : Policy Ext where
  accessBlock tags ext addr now tid :=
    ((CDynaLru.mk tags ext.hMin ext.umon).accessBlock addr now tid).map fun r =>
      (r.1.lru, ⟨r.1.hMin, r.1.umon⟩, r.2)
  lookup := Lru.findBlock
  locate _ _ tid := tid
  findBlock := Lru.findBlock
  dirtyFill := false
  fakeMiss _ _ := none

/-- The tag store of a cache. -/
def tagsOf (s : State Ext) : CDynaLru := ⟨s.store.tags, s.store.ext.hMin, s.store.ext.umon⟩

def putTags (s : State Ext) (t : CDynaLru) : State Ext :=
  { s with store := { s.store with tags := t.lru, ext := ⟨t.hMin, t.umon⟩ } }

def init (cfg : Config) (p : CDynaParams) (mshrs writeBuffers : Nat) : State Ext :=
  .init cfg (CDynaLru.init p).lru ⟨p.hMin, (CDynaLru.init p).umon⟩ mshrs writeBuffers

/-- The loop of `inc_size`: the frame that Low got is written back for High. -/
def incSet (s : State Ext) (i : Nat) : Res (State Ext) := do
  let f ← orFail .outOfArray ((tagsOf s).getEvictBlk 0 i)
  s.writebackNow f 1

/-- `C_DynamicCache::inc_size` -/
def incSize (s : State Ext) : Res (State Ext) := do
  let (t, n) ← orFail .outOfArray (tagsOf s).incSize
  forLoop incSet n (putTags s t)

/-- The loop of `dec_size`: a Low block in the frame that High got is written
back and invalidated. -/
def decSet (s : State Ext) (i : Nat) : Res (State Ext) := do
  let f ← orFail .outOfArray ((tagsOf s).getEvictBlk 1 i)
  if (s.store.tags.blks f).threadID = 0 then
    let s ← s.writebackNow f 0
    let store ← s.store.invalidateBlk (.frame f) 1
    return { s with store := store.modify (.frame f) fun x => { x with threadID := 1 } }
  else return s

/-- `C_DynamicCache::dec_size` -/
def decSize (s : State Ext) : Res (State Ext) := do
  let (t, n) ← orFail .outOfArray (tagsOf s).decSize
  forLoop decSet n (putTags s t)

/-- What `adjustPartition` decides. -/
inductive Decision where
  | inc
  | dec
  | keep
deriving DecidableEq, Repr

def resize (s : State Ext) : Decision → Res (State Ext)
  | .inc => incSize s
  | .dec => decSize s
  | .keep => .ok s

/-- `C_DynamicCache::adjustPartition` -/
def adjustPartition (s : State Ext) (d : Decision) : Res (State Ext) := do
  let s ← resize s d
  let ext := s.store.ext
  return { s with store := { s.store with ext := { ext with umon := ext.umon.reset s.geo.assoc } } }

inductive Act where
  | cache (a : Action)
  | adjustPartition (d : Decision)

def step (s : State Ext) : Act → Res (State Ext)
  | .cache a => s.step policy a
  | .adjustPartition d => adjustPartition s d

end CDynamic

/-! ## F_DynamicCache -/

namespace FDynamic

def policy : Policy Unit where
  accessBlock tags _ addr now tid := (FDynaLru.accessBlock tags addr now tid).map fun r => (r.1, (), r.2)
  lookup := FDynaLru.findBlock
  locate _ _ tid := tid
  findBlock := FDynaLru.findBlock
  dirtyFill := false
  fakeMiss _ _ := none

def init (cfg : Config) (geo : Geometry) (maxMasters mshrs writeBuffers : Nat) : State Unit :=
  .init cfg (FDynaLru.init geo maxMasters) () mshrs writeBuffers

def putTags (s : State Unit) (t : Lru) : State Unit := { s with store := { s.store with tags := t } }

/-- The loop of `adjustPartition`: a marked block is written back and invalidated. -/
def evictSet (s : State Unit) (i : Nat) : Res (State Unit) :=
  match FDynaLru.getEvictBlk s.store.tags i with
  | (_, none) => .ok s
  | (t, some f) => do
    let s ← (putTags s t).writebackNow f 0
    let store ← s.store.invalidateBlk (.frame f) 0
    return { s with store := store }

/-- `F_DynamicCache::adjustPartition` -/
def adjustPartition (s : State Unit) : Res (State Unit) :=
  let (t, n) := FDynaLru.decSize s.store.tags
  forLoop evictSet n (putTags s t)

inductive Act where
  | cache (a : Action)
  | adjustPartition

def step (s : State Unit) : Act → Res (State Unit)
  | .cache a => s.step policy a
  | .adjustPartition => adjustPartition s

end FDynamic

/-! ## DirtyCache -/

namespace Dirty

/-- Both labels of a packet are its thread id. -/
def policy : Policy Unit where
  accessBlock tags _ addr now tid := (DcLru.accessBlock tags addr now tid tid).map fun r => (r.1, (), r.2)
  lookup tags addr tid := DcLru.findBlock tags addr tid tid
  locate tags addr tid := DcLru.locateBlock tags addr tid tid
  findBlock := Lru.findBlock
  dirtyFill := true
  fakeMiss tags addr := DcLru.findBlock tags addr 1 1

def init (cfg : Config) (geo : Geometry) (maxMasters mshrs writeBuffers : Nat) : State Unit :=
  .init cfg (DcLru.init geo maxMasters) () mshrs writeBuffers

def step : State Unit → Action → Res (State Unit) := State.step policy

end Dirty

/-! ## Small caches

One set of blocks of four bytes, one cycle to hit, no prefetcher: the caches of
the runs that are followed step by step below. -/

namespace Small

def geo (assoc : Nat) (h : 0 < assoc) : Geometry := ⟨1, 4, assoc, 1, by decide, by decide, h, by decide⟩

def cfg : Config := ⟨20, false, false, false, false, false⟩

def packet (cmd : MemCmd) (t addr size v : Nat) : Packet :=
  { cmd := cmd, addr := addr, size := size, threadID := t, data := fun _ => v }

def read (t addr : Nat) : Action := .recvTimingReq (packet .readReq t addr 4 0)
def readEx (t addr : Nat) : Action := .recvTimingReq (packet .readExReq t addr 4 0)
def write (t addr v : Nat) : Action := .recvTimingReq (packet .writeReq t addr 1 v)
def writeback (t addr v : Nat) : Action := .recvTimingReq (packet .writeback t addr 4 v)
def send (t : Nat) : Action := .send t {}

/-- The response for miss register `r` of thread `t`, with its last word at tick 64,
after the end of the runs below. -/
def respond (t r : Nat) (cmd : MemCmd) (shared : Bool) : Action :=
  .recvTimingResp ⟨false, t, r⟩ { cmd := cmd, sharedAsserted := shared, finishTime := 64, firstWordTime := 64 }

/-- A read that misses and gets its block. -/
def load (t addr : Nat) (shared : Bool) : List Action :=
  [read t addr, .advance 1, send t, respond t 0 .readResp shared]

end Small

end DynamicCache.Cache
