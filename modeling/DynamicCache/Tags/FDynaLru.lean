import DynamicCache.Tags.Layout

/-!
# The fine-grained dynamic partition (`f_dynalru.cc`)

`F_DYNALRU` gives one way of every set to High and the others to Low.  Low
looks blocks up in its own partition, High first in its own and then in Low's.
`dec_size` marks in every set the least recently used Low block that was not
touched since it was last looked at; `get_evictBlk` finds the mark and takes it
away.  The class also overrides `findVictim`, `insertBlock` and
`invalidateBlk`, but these are not virtual and a cache holds its tag store as
an `LRU`, so they are never reached.
-/

namespace DynamicCache.Tags

open Lru

namespace FDynaLru

/-- `F_DYNALRU::assoc_of_tc` -/
def assocOfTc (assoc tcid : Nat) : Nat := if tcid = 0 then assoc - 1 else 1

def init (geo : Geometry) (maxMasters : Nat) : Lru :=
  initSets geo maxMasters 2 (assocOfTc geo.assoc) (fun tc => tc)

variable (s : Lru)

/-- `F_DYNALRU::findBlock` -/
def findBlock (addr tid : Nat) : Option Nat :=
  if tid = 0 then s.findBlock addr 0
  else
    match s.findBlock addr 1 with
    | some f => some f
    | none => s.findBlock addr 0

/-- The block after a hit, in the list where it was found. -/
def hit (addr now tid f : Nat) : Option (Lru × Option Nat × Nat) :=
  let set := s.geo.extractSet addr
  (moveToHead (s.getSet set tid) f).map fun l =>
    ((s.putSet set tid l).putBlk f (referenced (s.blks f)), some f, s.hitLat now (s.blks f))

/-- `F_DYNALRU::accessBlock`; a High hit in Low does not move the block. -/
def accessBlock (addr now tid : Nat) : Option (Lru × Option Nat × Nat) :=
  if tid = 0 then
    match s.findBlock addr 0 with
    | some f => hit s addr now 0 f
    | none => some (s, none, s.geo.hitLatency)
  else
    match s.findBlock addr 1 with
    | some f => hit s addr now tid f
    | none =>
      match s.findBlock addr 0 with
      | some f => some (s.putBlk f (referenced (s.blks f)), some f, s.hitLat now (s.blks f))
      | none => some (s, none, s.geo.hitLatency)

/-! ## Resizing -/

/-- The mark that `dec_size` leaves in a block. -/
def evictMark : Nat := 1000

/-- A Low block that was not used. -/
def unused (b : CacheBlk) : Bool := b.threadID == 0 && !b.isTouched && b.isValid

/-- One iteration of `dec_size`: the search runs from the tail. -/
def markSet (i : Nat) : Lru :=
  match (s.sets 0 i).reverse.find? fun f => unused (s.blks f) with
  | some f => s.putBlk f { s.blks f with threadID := evictMark }
  | none => s

/-- The loop of `dec_size` over the first `n` sets. -/
def markSets : Nat → Lru → Lru
  | 0, s => s
  | n + 1, s => markSet (markSets n s) n

/-- `F_DYNALRU::dec_size`; also returns the number of sets. -/
def decSize : Lru × Nat := (markSets s.geo.numSets s, s.geo.numSets)

/-- `F_DYNALRU::get_evictBlk`; also takes the mark away. -/
def getEvictBlk (i : Nat) : Lru × Option Nat :=
  match (s.sets 0 i).find? fun f => (s.blks f).threadID == evictMark with
  | some f => (s.putBlk f { s.blks f with threadID := 0 }, some f)
  | none => (s, none)

end FDynaLru

end DynamicCache.Tags
