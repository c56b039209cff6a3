import DynamicCache.Tags.CacheSet
import Mathlib.Data.Nat.Log

/-!
# The LRU tag store (`lru.cc`)

`Lru` is the state of a tag store of class `LRU` or of one of its subclasses:
the frames, the recency list of every set of every partition (`get_set`), the
number of ways that `assoc_of_tc` returns, and the counters the functions below
keep.  A subclass differs in how the lists are laid out and in what it
overrides; the functions here are the inherited ones.  They fail (`none`) where
an assertion of the source fails or an array is read outside its bounds.

Every operation is described once, as an update of one list and of one frame
(`Upd`): `accessBlock_hit`, `accessBlock_miss`, `insertBlock_upd`,
`invalidateBlk_upd`.  The proofs about the partitioned stores use only these.
-/

namespace DynamicCache.Tags

open Lib

/-! ## Geometry -/

/-- The parameters of the constructor together with the checks it makes. -/
structure Geometry where
  numSets : Nat
  blkSize : Nat
  assoc : Nat
  hitLatency : Nat
  blkSize_ok : 4 ≤ blkSize ∧ 2 ^ Nat.log2 blkSize = blkSize
  numSets_ok : 0 < numSets ∧ 2 ^ Nat.log2 numSets = numSets
  assoc_pos : 0 < assoc
  hitLatency_pos : 0 < hitLatency

namespace Geometry

variable (g : Geometry)

def setShift : Nat := Nat.log2 g.blkSize
def tagShift : Nat := g.setShift + Nat.log2 g.numSets
def setMask : Nat := g.numSets - 1

def extractTag (addr : Nat) : Nat := addr >>> g.tagShift
def extractSet (addr : Nat) : Nat := (addr >>> g.setShift) &&& g.setMask
def regenerateBlkAddr (tag set : Nat) : Nat := (tag <<< g.tagShift) ||| (set <<< g.setShift)

/-- The block number of an address; two addresses are in one block when these agree. -/
def blkAddr (addr : Nat) : Nat := addr >>> g.setShift

theorem extractSet_eq_mod (addr : Nat) : g.extractSet addr = g.blkAddr addr % g.numSets := by
  have h := Nat.and_two_pow_sub_one_eq_mod (addr >>> g.setShift) (Nat.log2 g.numSets)
  rwa [g.numSets_ok.2] at h

theorem extractTag_eq_div (addr : Nat) : g.extractTag addr = g.blkAddr addr / g.numSets := by
  unfold extractTag tagShift blkAddr
  rw [Nat.shiftRight_add, Nat.shiftRight_eq_div_pow _ (Nat.log2 g.numSets), g.numSets_ok.2]

theorem extractSet_lt (addr : Nat) : g.extractSet addr < g.numSets := by
  rw [extractSet_eq_mod]
  exact Nat.mod_lt _ g.numSets_ok.1

/-- Tag and set together name the block. -/
theorem blkAddr_eq_iff (a b : Nat) :
    g.blkAddr a = g.blkAddr b ↔ g.extractTag a = g.extractTag b ∧ g.extractSet a = g.extractSet b := by
  simp only [extractTag_eq_div, extractSet_eq_mod]
  constructor
  · intro h
    rw [h]
    exact ⟨rfl, rfl⟩
  · rintro ⟨hd, hm⟩
    rw [← Nat.div_add_mod (g.blkAddr a) g.numSets, ← Nat.div_add_mod (g.blkAddr b) g.numSets, hd, hm]

/-- The address that tag and set stand for, as a block number. -/
theorem regenerateBlkAddr_eq {tag set : Nat} (h : set < g.numSets) :
    g.regenerateBlkAddr tag set = (tag * g.numSets + set) <<< g.setShift := by
  have hlt : set <<< g.setShift < 2 ^ g.tagShift := by
    rw [Nat.shiftLeft_eq, tagShift, Nat.add_comm, Nat.pow_add, g.numSets_ok.2]
    exact Nat.mul_lt_mul_of_pos_right h (Nat.two_pow_pos _)
  rw [regenerateBlkAddr, ← Nat.shiftLeft_add_eq_or_of_lt hlt]
  simp only [Nat.shiftLeft_eq, tagShift, Nat.pow_add, g.numSets_ok.2]
  rw [Nat.add_mul, Nat.mul_comm (2 ^ g.setShift) g.numSets, Nat.mul_assoc]

end Geometry

/-! ## State -/

/-- The statistics of `BaseTags` that the functions below count. -/
structure TagStats where
  tagsInUse : Int := 0
  occupancies : Nat → Int := fun _ => 0
  replacements : Nat := 0
  totalRefs : Nat := 0
  sampledRefs : Nat := 0
  warmedUp : Bool := false
  warmupCycle : Nat := 0

structure Lru where
  geo : Geometry
  /-- `cache->system->maxMasters()` -/
  maxMasters : Nat
  warmupBound : Nat
  blks : Nat → CacheBlk
  /-- frames of a set of a partition, most recently used first -/
  sets : Nat → Nat → List Nat
  assocOfTc : Nat → Nat
  missCounter : Nat → Nat
  stats : TagStats

/-- `Request::invldMasterId` -/
def invldMasterId : Nat := 2 ^ 16 - 1

namespace Lru

variable (s : Lru)

def getSet (setnum tid : Nat) : List Nat := s.sets tid setnum

def putSet (setnum tid : Nat) (l : List Nat) : Lru :=
  { s with sets := Function.update s.sets tid (Function.update (s.sets tid) setnum l) }

def putBlk (f : Nat) (b : CacheBlk) : Lru := { s with blks := Function.update s.blks f b }

/-! ## Functions of the class -/

/-- The latency of a hit: at least `hitLatency`, more when the data comes later. -/
def hitLat (now : Nat) (b : CacheBlk) : Nat :=
  if b.whenReady > now ∧ b.whenReady - now > s.geo.hitLatency then b.whenReady - now
  else s.geo.hitLatency

/-- The block after a hit. -/
def referenced (b : CacheBlk) : CacheBlk := { b with refCount := b.refCount + 1, isTouched := true }

def accessBlock (addr now tid : Nat) : Option (Lru × Option Nat × Nat) :=
  let tag := s.geo.extractTag addr
  let set := s.geo.extractSet addr
  match findBlk s.blks (s.getSet set tid) tag with
  | some f =>
    (moveToHead (s.getSet set tid) f).map fun l =>
      ((s.putSet set tid l).putBlk f (referenced (s.blks f)), some f, s.hitLat now (s.blks f))
  | none =>
    some ({ s with missCounter := Function.update s.missCounter set (s.missCounter set + 1) },
      none, s.geo.hitLatency)

def findBlock (addr tid : Nat) : Option Nat :=
  findBlk s.blks (s.getSet (s.geo.extractSet addr) tid) (s.geo.extractTag addr)

/-- `blks[assoc_of_tc(tid)-1]`; index -1 is outside the array. -/
def findVictim (addr tid : Nat) : Option Nat :=
  if s.assocOfTc tid = 0 then none
  else (s.getSet (s.geo.extractSet addr) tid)[s.assocOfTc tid - 1]?

/-- The part of `insertBlock` for a frame that was not in use. -/
def countTouched (now : Nat) (b : CacheBlk) (st : TagStats) : TagStats :=
  if b.isTouched then st
  else
    let st := { st with tagsInUse := st.tagsInUse + 1 }
    if !st.warmedUp && decide ((s.warmupBound : Int) ≤ st.tagsInUse) then
      { st with warmedUp := true, warmupCycle := now }
    else st

/-- The part of `insertBlock` for a block that is replaced. -/
def countReplaced (b : CacheBlk) (st : TagStats) : TagStats :=
  if b.isValid then
    { st with
      replacements := st.replacements + 1
      totalRefs := st.totalRefs + b.refCount
      sampledRefs := st.sampledRefs + 1
      occupancies := Function.update st.occupancies b.srcMasterId (st.occupancies b.srcMasterId - 1) }
  else st

/-- What `insertBlock` leaves in the frame; the status is set by the caller. -/
def inserted (b : CacheBlk) (tag masterId tid : Nat) : CacheBlk :=
  { b with
    tag := tag
    isTouched := true
    refCount := if b.isValid then 0 else b.refCount
    threadID := tid
    srcMasterId := masterId }

def insertBlock (addr f masterId tid now : Nat) : Option Lru :=
  let b := s.blks f
  let set := s.geo.extractSet addr
  -- the two assertions on master ids
  if (b.isValid → b.srcMasterId < s.maxMasters) ∧ masterId < s.maxMasters then
    (moveToHead (s.getSet set tid) f).map fun l =>
      let st := countReplaced b (s.countTouched now b s.stats)
      { (s.putSet set tid l).putBlk f (inserted b (s.geo.extractTag addr) masterId tid) with
        stats := { st with
          occupancies := Function.update st.occupancies masterId (st.occupancies masterId + 1) } }
  else none

/-- What `invalidateBlk` leaves in the frame. -/
def invalidated (b : CacheBlk) : CacheBlk :=
  { b with
    status := {}
    isTouched := false
    lockList := []
    srcMasterId := if b.isValid then invldMasterId else b.srcMasterId }

def invalidateBlk (f tid : Nat) : Option Lru :=
  let b := s.blks f
  if b.isValid then
    if b.srcMasterId < s.maxMasters then
      (moveToTail (s.getSet b.set tid) f).map fun l =>
        { (s.putSet b.set tid l).putBlk f (invalidated b) with
          stats := { s.stats with
            tagsInUse := s.stats.tagsInUse - 1
            occupancies := Function.update s.stats.occupancies b.srcMasterId
              (s.stats.occupancies b.srcMasterId - 1) } }
    else none
  else some (s.putBlk f (invalidated b))

/-! ## What the operations change -/

section Updates

variable {s s' : Lru}

/-- `s'` is `s` with list `l` for set `i` of partition `t` and block `b` in frame
`f`; counters and statistics are free. -/
structure Upd (s s' : Lru) (t i : Nat) (l : List Nat) (f : Nat) (b : CacheBlk) : Prop where
  geo : s'.geo = s.geo
  maxMasters : s'.maxMasters = s.maxMasters
  assocOfTc : s'.assocOfTc = s.assocOfTc
  sets : s'.sets = Function.update s.sets t (Function.update (s.sets t) i l)
  blks : s'.blks = Function.update s.blks f b

variable {addr f tid : Nat}

theorem Upd.sets_apply {t i : Nat} {l : List Nat} {b : CacheBlk} (h : Upd s s' t i l f b) (t' i' : Nat) :
    s'.sets t' i' = if t' = t ∧ i' = i then l else s.sets t' i' := by
  rw [h.sets]
  by_cases ht : t' = t
  · subst ht
    by_cases hi : i' = i
    · subst hi; simp
    · simp [hi]
  · simp [ht]

theorem Upd.blks_apply {t i : Nat} {l : List Nat} {b : CacheBlk} (h : Upd s s' t i l f b) (g : Nat) :
    s'.blks g = if g = f then b else s.blks g := by
  rw [h.blks, Function.update_apply]

theorem accessBlock_hit (now : Nat) (h : s.findBlock addr tid = some f) :
    ∃ s', s.accessBlock addr now tid = some (s', some f, s.hitLat now (s.blks f)) ∧
      Upd s s' tid (s.geo.extractSet addr) (toFront f (s.sets tid (s.geo.extractSet addr))) f
        (referenced (s.blks f)) := by
  have hm : f ∈ s.getSet (s.geo.extractSet addr) tid := mem_of_findBlk h
  unfold findBlock at h
  simp only [accessBlock, h, moveToHead_eq hm, Option.map_some]
  exact ⟨_, rfl, rfl, rfl, rfl, rfl, rfl⟩

theorem accessBlock_miss (now : Nat) (h : s.findBlock addr tid = none) :
    ∃ s', s.accessBlock addr now tid = some (s', none, s.geo.hitLatency) ∧ s'.geo = s.geo ∧
      s'.maxMasters = s.maxMasters ∧ s'.assocOfTc = s.assocOfTc ∧ s'.sets = s.sets ∧
      s'.blks = s.blks := by
  unfold findBlock at h
  simp only [accessBlock, h]
  exact ⟨_, rfl, rfl, rfl, rfl, rfl, rfl⟩

theorem insertBlock_upd {masterId now : Nat} (h : s.insertBlock addr f masterId tid now = some s') :
    masterId < s.maxMasters ∧ f ∈ s.sets tid (s.geo.extractSet addr) ∧
      Upd s s' tid (s.geo.extractSet addr) (toFront f (s.sets tid (s.geo.extractSet addr))) f
        (inserted (s.blks f) (s.geo.extractTag addr) masterId tid) := by
  simp only [insertBlock] at h
  split at h
  · next hm =>
    obtain ⟨l, hl, rfl⟩ := Option.map_eq_some_iff.1 h
    have hf := mem_of_moveToHead hl
    rw [moveToHead_eq hf] at hl
    obtain rfl := Option.some.inj hl
    exact ⟨hm.2, hf, rfl, rfl, rfl, rfl, rfl⟩
  · cases h

theorem insertBlock_isSome (s : Lru) {masterId : Nat} (now : Nat) (hm : masterId < s.maxMasters)
    (hb : (s.blks f).isValid → (s.blks f).srcMasterId < s.maxMasters)
    (hf : f ∈ s.sets tid (s.geo.extractSet addr)) : ∃ s', s.insertBlock addr f masterId tid now = some s' := by
  simp only [insertBlock, getSet, moveToHead_eq hf, Option.map_some]
  rw [if_pos ⟨hb, hm⟩]
  exact ⟨_, rfl⟩

/-- Invalidating a frame of its own set: a valid block goes to the tail. -/
theorem invalidateBlk_upd (hl : (s.sets tid (s.blks f).set).Nodup) (hf : f ∈ s.sets tid (s.blks f).set)
    (h : s.invalidateBlk f tid = some s') : Upd s s' tid (s.blks f).set
      (if (s.blks f).isValid then toBack f (s.sets tid (s.blks f).set) else s.sets tid (s.blks f).set)
      f (invalidated (s.blks f)) := by
  simp only [invalidateBlk] at h
  split at h
  · next hv =>
    split at h
    · rw [getSet, moveToTail_eq hl hf, Option.map_some] at h
      obtain rfl := Option.some.inj h
      rw [if_pos hv]
      exact ⟨rfl, rfl, rfl, rfl, rfl⟩
    · cases h
  · next hv =>
    obtain rfl := Option.some.inj h
    rw [if_neg hv]
    exact ⟨rfl, rfl, rfl, by simp [putBlk], rfl⟩

theorem invalidateBlk_isSome (hl : (s.sets tid (s.blks f).set).Nodup) (hf : f ∈ s.sets tid (s.blks f).set)
    (hb : (s.blks f).isValid → (s.blks f).srcMasterId < s.maxMasters) :
    ∃ s', s.invalidateBlk f tid = some s' := by
  simp only [invalidateBlk]
  split
  · next hv =>
    rw [if_pos (hb hv), getSet, moveToTail_eq hl hf]
    exact ⟨_, rfl⟩
  · exact ⟨_, rfl⟩

end Updates

end Lru

end DynamicCache.Tags
