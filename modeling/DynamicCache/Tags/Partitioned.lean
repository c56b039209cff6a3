import DynamicCache.Tags.Layout
import DynamicCache.Lib.TrueLru
import DynamicCache.Lib.Runs

/-!
# Way and set partitioning are private LRU caches (`wplru.cc`, `splru.cc`)

`WPLRU` gives every thread some ways of every set, `SPLRU` gives every thread
all ways of its own sets; both inherit the operations of `LRU`.  Thread `t`
cannot tell its share from a cache of its own: `Sees` relates the store to a
true-LRU cache (`Lib.TrueLru`) of `assoc_of_tc(t)` ways, the operations of `t`
do the same on both (`sees_own`) and those of others leave the relation alone
(`sees_other`).  `partitioned_refines_private_lru` states this for every
interleaving of both stores.
-/

namespace DynamicCache.Tags

open Lib Lru

namespace Partitioned

/-! ## Operations -/

/-- `invalidate tid i k` is `invalidateBlk` of the block at recency position `k`
of set `i` of thread `tid`. -/
inductive Op where
  | access (tid addr now : Nat)
  | find (tid addr : Nat)
  | fill (tid addr masterId now : Nat) (st : BlkStatus)
  | invalidate (tid i k : Nat)
deriving DecidableEq

def Op.tid : Op → Nat
  | .access tid _ _ => tid
  | .find tid _ => tid
  | .fill tid _ _ _ _ => tid
  | .invalidate tid _ _ => tid

def Op.byThread (t : Nat) (o : Op) : Bool := o.tid == t

/-- Hit or miss of a lookup; address of the valid block that a fill replaces. -/
inductive Out where
  | lookup (hit : Bool)
  | replaced (victim : Option Nat)
  | done
deriving DecidableEq

def step (s : Lru) : Op → Option (Lru × Out)
  | .access tid addr now => (s.accessBlock addr now tid).map fun r => (r.1, .lookup r.2.1.isSome)
  | .find tid addr => some (s, .lookup (s.findBlock addr tid).isSome)
  | .fill tid addr masterId now st =>
    (s.fill addr tid masterId now st).map fun r =>
      let b := s.blks r.2
      (r.1, .replaced (if b.isValid then some (s.geo.regenerateBlkAddr b.tag b.set) else none))
  | .invalidate tid i k =>
    match (s.getSet i tid)[k]? with
    | none => some (s, .done)
    | some f => (s.invalidateBlk f tid).map fun s' => (s', .done)

/-- The same operation on a cache of one's own, in terms of block numbers. -/
def specStep (g : Geometry) (c : TrueLru Nat Nat) : Op → Option (TrueLru Nat Nat × Out)
  | .access _ addr _ => some (c.access (g.blkAddr addr), .lookup (c.hit (g.blkAddr addr)))
  | .find _ addr => some (c, .lookup (c.hit (g.blkAddr addr)))
  | .fill _ addr _ _ _ =>
    some (c.insert (g.blkAddr addr),
      .replaced ((c.victim (g.blkAddr addr)).map fun b => b <<< g.setShift))
  | .invalidate _ i k => some (c.invalidate i k, .done)

/-- An operation of one of `n` threads; masters are known to the system and an
invalidated block is one of the thread's own. -/
def OpOk (g : Geometry) (n maxMasters : Nat) (ways : Nat → Nat) (o : Op) : Prop :=
  o.tid < n ∧
    match o with
    | .fill _ _ masterId _ _ => masterId < maxMasters
    | .invalidate tid i k => i < g.numSets ∧ k < ways tid
    | _ => True

/-! ## The store seen by one thread -/

/-- The block number of a valid block. -/
def blkNum (numSets : Nat) (b : CacheBlk) : Option Nat :=
  if b.isValid then some (b.tag * numSets + b.set) else none

/-- Parameters that no operation changes. -/
structure Fixed (g : Geometry) (n maxMasters : Nat) (ways : Nat → Nat) (s : Lru) : Prop where
  frames : Frames n s
  geo_eq : s.geo = g
  masters_eq : s.maxMasters = maxMasters
  ways_eq : s.assocOfTc = ways

/-- Thread `t` sees the cache `c`. -/
structure Sees (g : Geometry) (ways : Nat → Nat) (t : Nat) (s : Lru) (c : TrueLru Nat Nat) : Prop where
  ways_eq : c.ways = ways t
  index_eq : c.index = fun b => b % g.numSets
  packs : ∀ i < g.numSets, Packs (ways t) (slots (blkNum g.numSets) s t i) (c.sets i)

section

variable {g : Geometry} {n maxMasters : Nat} {ways : Nat → Nat} {s s' : Lru} {out : Out} {o : Op} {i t : Nat}

theorem Fixed.upd {f : Nat} {l : List Nat} {b : CacheBlk} (hX : Fixed g n maxMasters ways s)
    (hu : Upd s s' t i l f b) (hp : l.Perm (s.sets t i)) (hset : b.set = (s.blks f).set)
    (hm : b.isValid = true → b.srcMasterId < s.maxMasters) : Fixed g n maxMasters ways s' :=
  ⟨hX.frames.upd hu hp hset hm, hu.geo.trans hX.geo_eq, hu.maxMasters.trans hX.masters_eq,
    hu.assocOfTc.trans hX.ways_eq⟩

theorem Fixed.shows (hX : Fixed g n maxMasters ways s) (t addr : Nat) :
    Shows (blkNum g.numSets) s t (s.geo.extractSet addr) (s.geo.extractTag addr) (g.blkAddr addr) := by
  intro x hx
  have hset := hX.frames.setOf x t _ hx
  rw [hX.geo_eq] at hset ⊢
  rw [g.extractSet_eq_mod] at hset
  rw [g.extractTag_eq_div]
  simp only [holds, blkNum, Bool.and_eq_true, beq_iff_eq, hset]
  constructor
  · rintro ⟨ht, hv⟩
    rw [if_pos hv, ht, Nat.mul_comm, Nat.div_add_mod]
  · intro h
    split at h
    · next hv =>
      refine ⟨?_, hv⟩
      have h' := Option.some.inj h
      rw [← h', Nat.mul_comm, Nat.mul_add_div g.numSets_ok.1, Nat.div_eq_of_lt (Nat.mod_lt _ g.numSets_ok.1),
        Nat.add_zero]
    · cases h

/-- What an operation does to the store: nothing, or an update of one frame of
one list of its own thread. -/
theorem step_cases (hX : Fixed g n maxMasters ways s) (hok : OpOk g n maxMasters ways o)
    (h : step s o = some (s', out)) : Fixed g n maxMasters ways s' ∧
      ((s'.sets = s.sets ∧ s'.blks = s.blks) ∨
        ∃ i l f b, Upd s s' o.tid i l f b ∧ f ∈ s.sets o.tid i) := by
  cases o with
  | access tid addr now =>
    obtain ⟨r, hr, he⟩ := Option.map_eq_some_iff.1 h
    obtain ⟨rfl, -⟩ := Prod.mk.inj he
    cases hf : s.findBlock addr tid with
    | none =>
      obtain ⟨x, hx, h1, h2, h3, h4, h5⟩ := accessBlock_miss now hf
      rw [hx] at hr
      obtain rfl := Option.some.inj hr
      refine ⟨⟨?_, h1.trans hX.geo_eq, h2.trans hX.masters_eq, h3.trans hX.ways_eq⟩, Or.inl ⟨h4, h5⟩⟩
      obtain ⟨f1, f2, f3, f4, f5⟩ := hX.frames
      refine ⟨?_, ?_, ?_, ?_, ?_⟩ <;> simp only [h1, h2, h3, h4, h5] <;> assumption
    | some f =>
      obtain ⟨x, hx, hu⟩ := accessBlock_hit now hf
      rw [hx] at hr
      obtain rfl := Option.some.inj hr
      have hm := mem_of_findBlk hf
      exact ⟨hX.upd hu (toFront_perm hm) rfl (hX.frames.master f _ _ hm),
        Or.inr ⟨_, _, f, _, hu, hm⟩⟩
  | find tid addr =>
    obtain ⟨rfl, -⟩ := Prod.mk.inj (Option.some.inj h)
    exact ⟨hX, Or.inl ⟨rfl, rfl⟩⟩
  | fill tid addr masterId now st =>
    obtain ⟨⟨x, f⟩, hr, he⟩ := Option.map_eq_some_iff.1 h
    obtain ⟨rfl, -⟩ := Prod.mk.inj he
    obtain ⟨-, hm, hmas, hu⟩ := fill_upd hr
    exact ⟨hX.upd hu (toFront_perm hm) rfl (fun _ => hmas), Or.inr ⟨_, _, f, _, hu, hm⟩⟩
  | invalidate tid i k =>
    simp only [step] at h
    cases hf : (s.getSet i tid)[k]? with
    | none =>
      rw [hf] at h
      obtain ⟨rfl, -⟩ := Prod.mk.inj (Option.some.inj h)
      exact ⟨hX, Or.inl ⟨rfl, rfl⟩⟩
    | some f =>
      rw [hf] at h
      obtain ⟨x, hr, he⟩ := Option.map_eq_some_iff.1 h
      obtain ⟨rfl, -⟩ := Prod.mk.inj he
      have hm : f ∈ s.sets tid i := List.mem_of_getElem? hf
      have hset := hX.frames.setOf f tid i hm
      have hu := invalidateBlk_upd (by rw [hset]; exact hX.frames.nodup _ _) (by rw [hset]; exact hm) hr
      rw [hset] at hu
      refine ⟨hX.upd hu ?_ rfl (fun hv => by cases hv), Or.inr ⟨i, _, f, _, hu, hm⟩⟩
      split
      · exact toBack_perm hm
      · exact List.Perm.refl _

/-- The operations of other threads are not seen. -/
theorem sees_other {c : TrueLru Nat Nat} (hX : Fixed g n maxMasters ways s) (hS : Sees g ways t s c)
    (hok : OpOk g n maxMasters ways o) (ho : o.byThread t = false) (h : step s o = some (s', out)) :
    Sees g ways t s' c := by
  have hne : o.tid ≠ t := by simpa [Op.byThread] using ho
  obtain ⟨-, ⟨h1, h2⟩ | ⟨i, l, f, b, hu, hf⟩⟩ := step_cases hX hok h
  · refine ⟨hS.ways_eq, hS.index_eq, fun j hj => ?_⟩
    rw [slots_congr h1 h2]
    exact hS.packs j hj
  · refine ⟨hS.ways_eq, hS.index_eq, fun j hj => ?_⟩
    rw [slots_other hX.frames hu hf (fun hc => hne hc.1.symm)]
    exact hS.packs j hj

theorem Sees.set_at {c c' : TrueLru Nat Nat} (hS : Sees g ways t s c) (hw : c'.ways = c.ways)
    (hix : c'.index = c.index) {L : List Nat} (hc : c'.sets = Function.update c.sets i L)
    (hother : ∀ j, j ≠ i → slots (blkNum g.numSets) s' t j = slots (blkNum g.numSets) s t j)
    (hi : i < g.numSets → Packs (ways t) (slots (blkNum g.numSets) s' t i) L) : Sees g ways t s' c' := by
  refine ⟨hw.trans hS.ways_eq, hix.trans hS.index_eq, fun j hj => ?_⟩
  rw [hc, Function.update_apply]
  split
  · next hji =>
    subst hji
    exact hi hj
  · next hji =>
    rw [hother j hji]
    exact hS.packs j hj

variable {t : Nat} {c : TrueLru Nat Nat}

theorem Sees.index_blkAddr (hX : Fixed g n maxMasters ways s) (hS : Sees g ways t s c) (addr : Nat) :
    c.index (g.blkAddr addr) = s.geo.extractSet addr := by
  rw [hS.index_eq, hX.geo_eq, g.extractSet_eq_mod]

theorem Sees.packs_at (hX : Fixed g n maxMasters ways s) (hS : Sees g ways t s c) (addr : Nat) :
    Packs (ways t) (slots (blkNum g.numSets) s t (s.geo.extractSet addr)) (c.sets (s.geo.extractSet addr)) := by
  rw [hX.geo_eq]
  exact hS.packs _ (g.extractSet_lt addr)

/-- A lookup hits in the store when it hits in the private cache. -/
theorem Sees.hit_eq (hX : Fixed g n maxMasters ways s) (hS : Sees g ways t s c) (addr : Nat) :
    c.hit (g.blkAddr addr) = (s.findBlock addr t).isSome := by
  have hpk := hS.packs_at hX addr
  have hnone := findBlock_eq_none_iff (hX.shows t addr)
  rw [TrueLru.hit, hS.index_blkAddr hX]
  cases hf : s.findBlock addr t with
  | none =>
    rw [Option.isSome_none, decide_eq_false_iff_not, ← hpk.mem_iff]
    exact hnone.1 hf
  | some f =>
    rw [Option.isSome_some, decide_eq_true_iff, ← hpk.mem_iff]
    by_contra hn
    rw [hnone.2 hn] at hf
    cases hf

theorem sees_access {addr now : Nat} (hX : Fixed g n maxMasters ways s) (hS : Sees g ways t s c)
    (h : step s (.access t addr now) = some (s', out)) :
    out = .lookup (c.hit (g.blkAddr addr)) ∧ Sees g ways t s' (c.access (g.blkAddr addr)) := by
  obtain ⟨r, hr, he⟩ := Option.map_eq_some_iff.1 h
  obtain ⟨rfl, rfl⟩ := Prod.mk.inj he
  have hhit := hS.hit_eq hX addr
  cases hf : s.findBlock addr t with
  | none =>
    obtain ⟨x, hx, h1, h2, h3, h4, h5⟩ := accessBlock_miss now hf
    rw [hx] at hr
    obtain rfl := Option.some.inj hr
    rw [hf] at hhit
    refine ⟨by rw [hhit], ?_⟩
    rw [TrueLru.access, hhit]
    refine ⟨hS.ways_eq, hS.index_eq, fun j hj => ?_⟩
    rw [slots_congr h4 h5]
    exact hS.packs j hj
  | some f =>
    obtain ⟨x, hx, hu⟩ := accessBlock_hit now hf
    rw [hx] at hr
    obtain rfl := Option.some.inj hr
    rw [hf, Option.isSome_some] at hhit
    have hmem : g.blkAddr addr ∈ c.sets (s.geo.extractSet addr) := by
      rw [← hS.index_blkAddr hX]
      exact of_decide_eq_true hhit
    refine ⟨by rw [hhit, Option.isSome_some], ?_⟩
    rw [TrueLru.access, if_pos hhit, hS.index_blkAddr hX]
    refine hS.set_at rfl rfl rfl (fun j hj => ?_) (fun _ => ?_)
    · exact slots_other hX.frames hu (mem_of_findBlk hf) fun hc => hj hc.2
    · have hb : blkNum g.numSets (referenced (s.blks f)) = blkNum g.numSets (s.blks f) := rfl
      rw [slots_hit (hX.shows t addr) hf hb hu]
      exact (hS.packs_at hX addr).touch hmem

theorem sees_fill {addr masterId now : Nat} {st : BlkStatus} (hX : Fixed g n maxMasters ways s) (ht : t < n)
    (hpos : 0 < ways t) (hS : Sees g ways t s c) (h : step s (.fill t addr masterId now st) = some (s', out)) :
    out = .replaced ((c.victim (g.blkAddr addr)).map fun b => b <<< g.setShift) ∧
      Sees g ways t s' (c.insert (g.blkAddr addr)) := by
  obtain ⟨⟨x, f⟩, hr, he⟩ := Option.map_eq_some_iff.1 h
  obtain ⟨rfl, rfl⟩ := Prod.mk.inj he
  have hpk := hS.packs_at hX addr
  have hix := hS.index_blkAddr hX addr
  obtain ⟨hvic, hm, -, hu⟩ := fill_upd hr
  rw [findVictim_eq_getLast? (hX.frames.len t _ ht (s.geo.extractSet_lt addr))] at hvic
  have hset := hX.frames.setOf f _ _ hm
  -- the victim is the key of the last slot
  have hlast : blkNum g.numSets (s.blks f) = c.victim (g.blkAddr addr) := by
    have h1 := hpk.getLast? hpos
    unfold slots at h1
    rw [List.getLast?_map, hvic, Option.map_some] at h1
    rw [TrueLru.victim, hix, hS.ways_eq]
    exact Option.some.inj h1
  have hfill : blkNum g.numSets (filled (s.blks f) (s.geo.extractTag addr) masterId t st) =
      some (g.blkAddr addr) := by
    show some (s.geo.extractTag addr * g.numSets + (s.blks f).set) = _
    rw [hset, hX.geo_eq, g.extractTag_eq_div, g.extractSet_eq_mod, Nat.mul_comm, Nat.div_add_mod]
  constructor
  · rw [← hlast, blkNum]
    by_cases hv : (s.blks f).isValid = true
    · simp only [if_pos hv, Option.map_some, hset, hX.geo_eq]
      rw [g.regenerateBlkAddr_eq (g.extractSet_lt addr)]
    · simp only [if_neg hv, Option.map_none]
  · have hins : (c.insert (g.blkAddr addr)).sets = Function.update c.sets (s.geo.extractSet addr)
        (g.blkAddr addr :: if (c.sets (s.geo.extractSet addr)).length < ways t then
          c.sets (s.geo.extractSet addr) else (c.sets (s.geo.extractSet addr)).dropLast) := by
      rw [TrueLru.insert, hix, hS.ways_eq]
    refine hS.set_at rfl rfl hins (fun j hj => ?_) (fun _ => ?_)
    · exact slots_other hX.frames hu hm fun hc => hj hc.2
    · rw [slots_fill (hX.frames.nodup _ _) hvic hfill hu]
      exact hpk.load hpos

theorem sees_invalidate {k : Nat} (hX : Fixed g n maxMasters ways s) (ht : t < n) (hi : i < g.numSets)
    (hk : k < ways t) (hS : Sees g ways t s c) (h : step s (.invalidate t i k) = some (s', out)) :
    out = .done ∧ Sees g ways t s' (c.invalidate i k) := by
  have hpk := hS.packs i hi
  have hlen := hX.frames.len t i ht (by rw [hX.geo_eq]; exact hi)
  rw [hX.ways_eq] at hlen
  obtain ⟨f, hf⟩ : ∃ f, (s.sets t i)[k]? = some f :=
    ⟨_, List.getElem?_eq_getElem (by rw [hlen]; exact hk)⟩
  simp only [step, getSet, hf] at h
  obtain ⟨x, hr, he⟩ := Option.map_eq_some_iff.1 h
  obtain ⟨rfl, rfl⟩ := Prod.mk.inj he
  have hm : f ∈ s.sets t i := List.mem_of_getElem? hf
  have hset := hX.frames.setOf f t i hm
  have hu := invalidateBlk_upd (by rw [hset]; exact hX.frames.nodup _ _) (by rw [hset]; exact hm) hr
  rw [hset] at hu
  -- a position holds a valid block exactly when a resident key is there
  have hslot : blkNum g.numSets (s.blks f) = (c.sets i)[k]? := by
    have h1 := hpk.getElem? k hk
    unfold slots at h1
    rw [List.getElem?_map, hf, Option.map_some] at h1
    exact Option.some.inj h1
  refine ⟨rfl, hS.set_at rfl rfl rfl (fun j hj => ?_) (fun _ => ?_)⟩
  · exact slots_other hX.frames hu hm fun hc => hj hc.2
  · by_cases hv : (s.blks f).isValid = true
    · rw [if_pos hv] at hu
      have hkl : k < (c.sets i).length := by
        rw [blkNum, if_pos hv] at hslot
        exact (List.getElem?_eq_some_iff.1 hslot.symm).1
      rw [slots_invalidateAt (hX.frames.nodup _ _) hf rfl hu]
      exact hpk.erase hkl
    · rw [if_neg hv] at hu
      rw [blkNum, if_neg hv] at hslot
      have hkl : (c.sets i).length ≤ k := List.getElem?_eq_none_iff.1 hslot.symm
      rw [List.eraseIdx_of_length_le hkl]
      have hb : blkNum g.numSets (invalidated (s.blks f)) = blkNum g.numSets (s.blks f) := by
        rw [blkNum, blkNum, if_neg hv]
        rfl
      have hsl : slots (blkNum g.numSets) x t i = slots (blkNum g.numSets) s t i := by
        unfold slots
        rw [hu.sets_apply, if_pos ⟨rfl, rfl⟩]
        refine List.map_congr_left fun y _ => ?_
        rw [hu.blks_apply]
        split
        · next hy => rw [hy, hb]
        · rfl
      rw [hsl]
      exact hpk

/-- An operation of thread `t` does on the store what it does on its own cache. -/
theorem sees_own (hX : Fixed g n maxMasters ways s) (hpos : 0 < ways t) (hS : Sees g ways t s c)
    (hok : OpOk g n maxMasters ways o) (ho : o.byThread t = true) (h : step s o = some (s', out)) :
    ∃ c', specStep g c o = some (c', out) ∧ Sees g ways t s' c' := by
  have htid : o.tid = t := by simpa [Op.byThread] using ho
  cases o with
  | access tid addr now =>
    obtain rfl : tid = t := htid
    obtain ⟨rfl, hS'⟩ := sees_access hX hS h
    exact ⟨_, rfl, hS'⟩
  | find tid addr =>
    obtain rfl : tid = t := htid
    obtain ⟨rfl, rfl⟩ := Prod.mk.inj (Option.some.inj h)
    exact ⟨c, by simp only [specStep, hS.hit_eq hX addr], hS⟩
  | fill tid addr masterId now st =>
    obtain rfl : tid = t := htid
    obtain ⟨rfl, hS'⟩ := sees_fill hX hok.1 hpos hS h
    exact ⟨_, rfl, hS'⟩
  | invalidate tid i k =>
    obtain rfl : tid = t := htid
    obtain ⟨rfl, hS'⟩ := sees_invalidate hX hok.1 hok.2.1 hok.2.2 hS h
    exact ⟨_, rfl, hS'⟩

/-- No assertion fails and no array is left. -/
theorem step_isSome (hX : Fixed g n maxMasters ways s) (hpos : ∀ t < n, 0 < ways t)
    (hok : OpOk g n maxMasters ways o) : ∃ s' out, step s o = some (s', out) := by
  cases o with
  | access tid addr now =>
    cases hf : s.findBlock addr tid with
    | none =>
      obtain ⟨x, hx, -⟩ := accessBlock_miss now hf
      exact ⟨_, _, by rw [step, hx]; rfl⟩
    | some f =>
      obtain ⟨x, hx, -⟩ := accessBlock_hit now hf
      exact ⟨_, _, by rw [step, hx]; rfl⟩
  | find tid addr => exact ⟨_, _, rfl⟩
  | fill tid addr masterId now st =>
    obtain ⟨htid, hmas⟩ := hok
    have hlen := hX.frames.len tid _ htid (s.geo.extractSet_lt addr)
    have hvic := findVictim_eq_getLast? hlen
    have hne : s.sets tid (s.geo.extractSet addr) ≠ [] := by
      intro h0
      have := hpos tid htid
      rw [h0, hX.ways_eq, List.length_nil] at hlen
      omega
    rw [List.getLast?_eq_some_getLast hne] at hvic
    have hm := mem_of_findVictim hvic
    have hmas' : masterId < s.maxMasters := by rw [hX.masters_eq]; exact hmas
    obtain ⟨x, hx⟩ := s.insertBlock_isSome now hmas' (hX.frames.master _ _ _ hm) hm
    exact ⟨_, _, by simp only [step, fill, fillWith, hvic, hx, Option.map_some]; rfl⟩
  | invalidate tid i k =>
    cases hf : (s.getSet i tid)[k]? with
    | none => exact ⟨s, .done, by simp only [step, hf]⟩
    | some f =>
      have hm : f ∈ s.sets tid i := List.mem_of_getElem? hf
      have hset := hX.frames.setOf f tid i hm
      have hnd : (s.sets tid (s.blks f).set).Nodup := hX.frames.nodup _ _
      obtain ⟨x, hx⟩ := invalidateBlk_isSome hnd (by rw [hset]; exact hm) (hX.frames.master f tid i hm)
      exact ⟨x, .done, by simp only [step, hf, hx, Option.map_some]⟩

end

/-! ## Whole runs -/

/-- Every interleaving of the `n` threads runs, and every thread gets the answers
and keeps the recency order of a private cache that is given its operations only. -/
def RefinesPrivate (s₀ : Lru) (n maxMasters : Nat) (ways : Nat → Nat) : Prop :=
  ∀ ops : List Op, (∀ o ∈ ops, OpOk s₀.geo n maxMasters ways o) → ∀ t < n, ∃ s outs c,
    run step (Op.byThread t) s₀ ops = some (s, outs) ∧
    run (specStep s₀.geo) (Op.byThread t) (TrueLru.empty (ways t) (fun b => b % s₀.geo.numSets))
      (ops.filter (Op.byThread t)) = some (c, outs) ∧
    ∀ i < s₀.geo.numSets, (slots (blkNum s₀.geo.numSets) s t i).filterMap id = c.sets i

theorem refinesPrivate {s₀ : Lru} {n maxMasters : Nat} {ways : Nat → Nat}
    (hX : Fixed s₀.geo n maxMasters ways s₀) (hpos : ∀ t < n, 0 < ways t)
    (hinv : ∀ f, (s₀.blks f).isValid = false) : RefinesPrivate s₀ n maxMasters ways := by
  intro ops hok t ht
  have hempty : Sees s₀.geo ways t s₀ (TrueLru.empty (ways t) (fun b => b % s₀.geo.numSets)) := by
    refine ⟨rfl, rfl, fun i hi => ?_⟩
    have hsl : slots (blkNum s₀.geo.numSets) s₀ t i = List.replicate (ways t) none := by
      unfold slots
      rw [List.eq_replicate_iff, List.length_map, hX.frames.len t i ht hi, hX.ways_eq]
      refine ⟨rfl, fun b hb => ?_⟩
      obtain ⟨f, -, rfl⟩ := List.mem_map.1 hb
      rw [blkNum, hinv f]
      rfl
    rw [hsl]
    exact packs_nil _
  obtain ⟨s, outs, hr, -⟩ := run_total (Op.byThread t) (Fixed s₀.geo n maxMasters ways)
    (fun s o hs ho => by
      obtain ⟨s', out, hst⟩ := step_isSome hs hpos ho
      exact ⟨s', out, hst, (step_cases hs ho hst).1⟩)
    hX (always_of_mem hok)
  have hown : ∀ o ∈ ops.filter (Op.byThread t), o.byThread t = true :=
    fun o ho => (List.mem_filter.1 ho).2
  have hspec : ∀ (c : TrueLru Nat Nat) o, True → o.byThread t = true →
      ∃ c' out, specStep s₀.geo c o = some (c', out) ∧ True := by
    intro c o _ _
    cases o <;> exact ⟨_, _, rfl, trivial⟩
  obtain ⟨c, outs', hr', -⟩ := run_total (Op.byThread t) (fun _ => True) hspec trivial
    (always_of_mem hown)
  have hrun : (Fixed s₀.geo n maxMasters ways s ∧ Sees s₀.geo ways t s c) ∧ outs = outs' := by
    refine unwinding (fun s c => Fixed s₀.geo n maxMasters ways s ∧ Sees s₀.geo ways t s c)
      ?_ ?_ ?_ (by simp) ⟨hX, hempty⟩ (always_of_mem hok) (always_of_mem hown) hr hr'
    · rintro s c o s' out ⟨hs, hS⟩ ho hok hst
      exact ⟨(step_cases hs hok hst).1, sees_other hs hS hok ho hst⟩
    · rintro s c o c' out - ho hown -
      rw [ho] at hown
      cases hown
    · rintro s c o s' c' out out' ⟨hs, hS⟩ ho hok - hst hsp
      obtain ⟨c₁, h1, hS'⟩ := sees_own hs (hpos t ht) hS hok ho hst
      rw [hsp] at h1
      obtain ⟨rfl, rfl⟩ := Prod.mk.inj (Option.some.inj h1)
      exact ⟨⟨(step_cases hs hok hst).1, hS'⟩, rfl⟩
  obtain ⟨⟨-, hS⟩, rfl⟩ := hrun
  refine ⟨s, outs, c, hr, hr', fun i hi => ?_⟩
  rw [(hS.packs i hi).2]
  simp

end Partitioned

/-! ## `WPLRU` -/

/-- `WPLRU::assoc_of_tc` -/
def wplruWays (assoc numTcs tcid : Nat) : Nat :=
  assoc / numTcs + if tcid < assoc % numTcs then 1 else 0

/-- The store built by `WPLRU`'s constructor. -/
def wplru (geo : Geometry) (maxMasters numTcs : Nat) : Lru :=
  initSets geo maxMasters numTcs (wplruWays geo.assoc numTcs) (fun _ => 0)

/-- The first threads get the remainder of the division. -/
theorem sum_wplruWays_range (assoc numTcs k : Nat) :
    ((List.range k).map (wplruWays assoc numTcs)).sum =
      k * (assoc / numTcs) + min k (assoc % numTcs) := by
  induction k with
  | zero => simp
  | succ k ih =>
    rw [List.range_succ, List.map_append, List.sum_append, ih, List.map_singleton, List.sum_singleton,
      wplruWays, Nat.add_mul, Nat.one_mul]
    split <;> omega

theorem sum_wplruWays {assoc numTcs : Nat} (h : 0 < numTcs) :
    ((List.range numTcs).map (wplruWays assoc numTcs)).sum = assoc := by
  rw [sum_wplruWays_range, Nat.min_eq_right (Nat.le_of_lt (Nat.mod_lt _ h)), Nat.div_add_mod]

theorem wplruWays_pos {assoc numTcs : Nat} (h : 0 < numTcs) (hle : numTcs ≤ assoc) (t : Nat) :
    0 < wplruWays assoc numTcs t := by
  have := Nat.div_pos hle h
  unfold wplruWays
  omega

/-! ## `SPLRU` -/

/-- Arguments of `SPLRU`'s constructor, which divides the sets among the threads
and asserts that the number of sets left divides by the number of threads. -/
structure SplruParams where
  numSets : Nat
  numTcs : Nat
  geo : Geometry
  numTcs_pos : 0 < numTcs
  geo_numSets : geo.numSets = numSets / numTcs
  check : geo.numSets % numTcs = 0

/-- The store built by `SPLRU`'s constructor; `sets[i][tid]` has the frames from
`(i * num_tcs + tid) * assoc` on. -/
def splru (p : SplruParams) (maxMasters : Nat) : Lru where
  geo := p.geo
  maxMasters := maxMasters
  warmupBound := p.geo.numSets * p.numTcs * p.geo.assoc
  blks f :=
    { tag := f % p.geo.assoc, set := f / p.geo.assoc / p.numTcs, srcMasterId := invldMasterId }
  sets tid i :=
    if tid < p.numTcs ∧ i < p.geo.numSets then
      List.range' ((i * p.numTcs + tid) * p.geo.assoc) p.geo.assoc
    else []
  assocOfTc _ := p.geo.assoc
  missCounter _ := 0
  stats := {}

theorem div_range' {f k a : Nat} (h : f ∈ List.range' (k * a) a) : f / a = k := by
  rw [List.mem_range'_1] at h
  refine Nat.div_eq_of_lt_le h.1 ?_
  rw [Nat.add_mul, Nat.one_mul]
  exact h.2

theorem mem_splru {p : SplruParams} {maxMasters f tid i : Nat} (h : f ∈ (splru p maxMasters).sets tid i) :
    f / p.geo.assoc / p.numTcs = i ∧ f / p.geo.assoc % p.numTcs = tid := by
  simp only [splru] at h
  split at h
  · next hc =>
    rw [div_range' h, Nat.mul_comm]
    constructor
    · rw [Nat.mul_add_div p.numTcs_pos, Nat.div_eq_of_lt hc.1, Nat.add_zero]
    · rw [Nat.mul_add_mod, Nat.mod_eq_of_lt hc.1]
  · cases h

theorem frames_splru (p : SplruParams) (maxMasters : Nat) : Frames p.numTcs (splru p maxMasters) where
  nodup tid i := by
    simp only [splru]
    split
    · exact List.nodup_range'
    · exact List.nodup_nil
  owner f t i t' i' h h' := by
    obtain ⟨h1, h2⟩ := mem_splru h
    obtain ⟨h1', h2'⟩ := mem_splru h'
    exact ⟨h2.symm.trans h2', h1.symm.trans h1'⟩
  setOf f tid i h := (mem_splru h).1
  len tid i ht hi := by
    simp only [splru] at hi ⊢
    rw [if_pos ⟨ht, hi⟩, List.length_range']
  master f tid i _ hv := by cases hv

/-! ## Both stores -/

/-- No frame is in two lists, or twice in one. -/
def DistinctFrames (s : Lru) : Prop :=
  (∀ t i, (s.sets t i).Nodup) ∧
    ∀ f t i t' i', f ∈ s.sets t i → f ∈ s.sets t' i' → t = t' ∧ i = i'

/-- Way and set partitioning give every thread a private true-LRU cache: of
`assoc_of_tc(t)` ways and all sets, or of `assoc` ways and `numSets / num_tcs`
sets; the frames handed out are distinct and the ways of `WPLRU` add up. -/
theorem partitioned_refines_private_lru :
    (∀ (geo : Geometry) (maxMasters numTcs : Nat), 1 ≤ numTcs → numTcs ≤ geo.assoc →
      Partitioned.RefinesPrivate (wplru geo maxMasters numTcs) numTcs maxMasters
        (wplruWays geo.assoc numTcs) ∧
      DistinctFrames (wplru geo maxMasters numTcs) ∧
      ((List.range numTcs).map (wplruWays geo.assoc numTcs)).sum = geo.assoc) ∧
    (∀ (p : SplruParams) (maxMasters : Nat),
      Partitioned.RefinesPrivate (splru p maxMasters) p.numTcs maxMasters (fun _ => p.geo.assoc) ∧
      (splru p maxMasters).geo.numSets = p.numSets / p.numTcs ∧
      DistinctFrames (splru p maxMasters)) := by
  constructor
  · intro geo maxMasters numTcs hpos hle
    have hF : Frames numTcs (wplru geo maxMasters numTcs) := frames_initSets
    refine ⟨Partitioned.refinesPrivate ⟨hF, rfl, rfl, rfl⟩ (fun t _ => wplruWays_pos hpos hle t)
      isValid_initSets, ⟨hF.nodup, hF.owner⟩, sum_wplruWays hpos⟩
  · intro p maxMasters
    have hF := frames_splru p maxMasters
    exact ⟨Partitioned.refinesPrivate ⟨hF, rfl, rfl, rfl⟩ (fun _ _ => p.geo.assoc_pos) (fun _ => rfl),
      p.geo_numSets, hF.nodup, hF.owner⟩

/-- Three ways for two threads: thread 0 has two of them, and its third block
replaces its first one although thread 1 has used the set in between. -/
theorem partitioned_refines_private_lru_three_ways :
    let geo : Geometry := ⟨1, 4, 3, 1, by decide, by decide, by decide, by decide⟩
    let ops : List Partitioned.Op := [.fill 0 0 0 1 {}, .fill 1 16 0 2 {}, .fill 0 4 0 3 {}, .access 1 16 4,
      .fill 0 8 0 5 {}, .access 0 4 6, .invalidate 0 0 1]
    ∃ s outs c, Lib.run Partitioned.step (Partitioned.Op.byThread 0) (wplru geo 1 2) ops = some (s, outs) ∧
      Lib.run (Partitioned.specStep geo) (Partitioned.Op.byThread 0)
        (TrueLru.empty (wplruWays 3 2 0) (fun b => b % geo.numSets))
        (ops.filter (Partitioned.Op.byThread 0)) = some (c, outs) ∧
      ∀ i < geo.numSets, (slots (Partitioned.blkNum geo.numSets) s 0 i).filterMap id = c.sets i := by
  intro geo ops
  have hok : ∀ o ∈ ops, Partitioned.OpOk geo 2 1 (wplruWays 3 2) o := by
    intro o ho
    simp only [ops, List.mem_cons, List.not_mem_nil, or_false] at ho
    rcases ho with rfl | rfl | rfl | rfl | rfl | rfl | rfl <;>
      exact ⟨by decide, by decide⟩
  exact (partitioned_refines_private_lru.1 geo 1 2 (by decide) (by decide)).1 ops hok 0 (by decide)

end DynamicCache.Tags
