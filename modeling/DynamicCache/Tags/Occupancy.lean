import DynamicCache.Tags.Layout
import DynamicCache.Lib.Faults

/-!
# Occupancy of the LRU tag store (`lru.cc`)

In the class `LRU` itself the threads share the frames: `get_set` does not look
at the thread, so that there is one partition here.  `Counted` says that the
counters of a store agree with its blocks; an operation changes one block, and
what it adds to the counters is what that block was and becomes
(`Counted.update`).  The used bit that a hit sets is set already, since only a
valid block is found.
-/

namespace DynamicCache.Tags

open Lib

variable {addr masterId now tid : Nat}

/-- A valid block that master `m` brought in. -/
def CacheBlk.isOf (b : CacheBlk) (m : Nat) : Bool := b.isValid && b.srcMasterId == m

namespace Lru

/-! ## Counters -/

/-- The valid blocks among the first `n` frames. -/
def validBlocks (n : Nat) (s : Lru) : Nat := (List.range n).countP fun f => (s.blks f).isValid

def blocksOf (n m : Nat) (s : Lru) : Nat := (List.range n).countP fun f => (s.blks f).isOf m

structure Counted (n : Nat) (s : Lru) : Prop where
  touched : ∀ f < n, (s.blks f).isTouched = (s.blks f).isValid
  tagsInUse : s.stats.tagsInUse = validBlocks n s
  occupancies : ∀ m, s.stats.occupancies m = blocksOf n m s

variable {n f : Nat} {s s' : Lru} {b : CacheBlk}

/-- A count of blocks after one of them changed. -/
theorem countP_update (p : CacheBlk → Bool) (hf : f < n) (hb : s'.blks = Function.update s.blks f b) :
    ((List.range n).countP fun g => p (s'.blks g)) + (p (s.blks f)).toNat =
      ((List.range n).countP fun g => p (s.blks g)) + (p b).toNat := by
  have hbf : s'.blks f = b := by rw [hb, Function.update_self]
  rw [← hbf]
  exact countP_replace (p := fun g => p (s'.blks g)) (q := fun g => p (s.blks g)) List.nodup_range
    (List.mem_range.2 hf) fun g _ hg => by rw [hb, Function.update_of_ne hg]

theorem Counted.update (hs : Counted n s) (hf : f < n) (hb : s'.blks = Function.update s.blks f b)
    (ht : b.isTouched = b.isValid)
    (hu : s'.stats.tagsInUse + (s.blks f).isValid.toNat = s.stats.tagsInUse + b.isValid.toNat)
    (ho : ∀ m, s'.stats.occupancies m + ((s.blks f).isOf m).toNat = s.stats.occupancies m + (b.isOf m).toNat) :
    Counted n s' where
  touched g hg := by
    rw [hb, Function.update_apply]
    split
    · exact ht
    · exact hs.touched g hg
  tagsInUse := by
    have hc := countP_update CacheBlk.isValid hf hb
    have hold := hs.tagsInUse
    unfold validBlocks at hold ⊢
    omega
  occupancies m := by
    have hc := countP_update (fun b => b.isOf m) hf hb
    have hold := hs.occupancies m
    have hnew := ho m
    unfold blocksOf at hold ⊢
    omega

/-- A block that stays valid and of its master. -/
theorem Counted.touch (hs : Counted n s) (hf : f < n) (hb : s'.blks = Function.update s.blks f b)
    (ht : b.isTouched = b.isValid) (hv : b.isValid = (s.blks f).isValid) (hm : b.srcMasterId = (s.blks f).srcMasterId)
    (hst : s'.stats = s.stats) : Counted n s' :=
  hs.update hf hb ht (by rw [hst, hv]) fun m => by rw [hst, CacheBlk.isOf, CacheBlk.isOf, hv, hm]

/-! ## The operations -/

theorem Counted.access {lat : Nat} {r : Option Nat} (hs : Counted n s) (hn : ∀ i, ∀ f ∈ s.sets tid i, f < n)
    (h : s.accessBlock addr now tid = some (s', r, lat)) : Counted n s' := by
  unfold accessBlock at h
  simp only at h
  split at h
  · next f hf =>
    obtain ⟨l, -, h⟩ := Option.map_eq_some_iff.1 h
    cases h
    have hv := (holds_of_findBlk hf).2
    exact hs.touch (hn _ f (mem_of_findBlk hf)) rfl hv.symm rfl rfl rfl
  · cases h
    exact ⟨hs.touched, hs.tagsInUse, hs.occupancies⟩

theorem countTouched_counts (s : Lru) (now : Nat) (b : CacheBlk) (st : TagStats) :
    (s.countTouched now b st).tagsInUse = st.tagsInUse + (!b.isTouched).toNat ∧
      (s.countTouched now b st).occupancies = st.occupancies := by
  unfold countTouched
  split
  · next ht => simp [ht]
  · next ht =>
    dsimp only
    split <;> simp [ht]

theorem countReplaced_counts (b : CacheBlk) (st : TagStats) :
    (countReplaced b st).tagsInUse = st.tagsInUse ∧
      ∀ m, (countReplaced b st).occupancies m + (b.isOf m).toNat = st.occupancies m := by
  unfold countReplaced
  split
  · next hv =>
    refine ⟨rfl, fun m => ?_⟩
    simp only [Function.update_apply, CacheBlk.isOf, hv, Bool.true_and]
    split
    · next hm =>
      subst hm
      simp only [beq_self_eq_true, Bool.toNat_true]
      omega
    · next hm => simp [beq_false_of_ne (Ne.symm hm)]
  · next hv => exact ⟨rfl, fun m => by simp [CacheBlk.isOf, hv]⟩

/-- The counters after `insertBlock` into frame `f`. -/
theorem insertBlock_counts (h : s.insertBlock addr f masterId tid now = some s') :
    s'.stats.tagsInUse = s.stats.tagsInUse + (!(s.blks f).isTouched).toNat ∧
      ∀ m, s'.stats.occupancies m + ((s.blks f).isOf m).toNat = s.stats.occupancies m + (masterId == m).toNat := by
  simp only [insertBlock] at h
  split at h
  · obtain ⟨l, -, rfl⟩ := Option.map_eq_some_iff.1 h
    obtain ⟨ht, ho⟩ := s.countTouched_counts now (s.blks f) s.stats
    obtain ⟨hr, hro⟩ := countReplaced_counts (s.blks f) (s.countTouched now (s.blks f) s.stats)
    refine ⟨hr.trans ht, fun m => ?_⟩
    have hm := hro m
    rw [ho] at hm
    simp only [Function.update_apply]
    split
    · next he =>
      subst he
      simp only [beq_self_eq_true, Bool.toNat_true]
      omega
    · next he =>
      simp only [beq_false_of_ne (Ne.symm he), Bool.toNat_false]
      omega
  · cases h

theorem isOf_invalidated (b : CacheBlk) (m : Nat) : (invalidated b).isOf m = false := rfl

theorem isOf_of_not_valid {b : CacheBlk} (h : ¬b.isValid = true) (m : Nat) : b.isOf m = false := by
  simp [CacheBlk.isOf, h]

theorem Counted.fill {st : BlkStatus} (hs : Counted n s) (hf : f < n)
    (h : s.fill addr tid masterId now st = some (s', f)) : Counted n s' := by
  obtain ⟨hv, -, -, hu⟩ := fill_upd h
  simp only [Lru.fill, fillWith, hv] at h
  obtain ⟨s₁, hi, he⟩ := Option.map_eq_some_iff.1 h
  cases he
  obtain ⟨ht, ho⟩ := insertBlock_counts hi
  refine hs.update hf hu.blks rfl ?_ ho
  show s₁.stats.tagsInUse + _ = s.stats.tagsInUse + (true.toNat : Int)
  rw [ht, hs.touched f hf]
  cases (s.blks f).isValid <;> simp

theorem Counted.invalidate (hs : Counted n s) (hf : f < n) (h : s.invalidateBlk f tid = some s') :
    Counted n s' := by
  unfold invalidateBlk at h
  simp only at h
  split at h
  · next hv =>
    split at h
    · obtain ⟨l, -, rfl⟩ := Option.map_eq_some_iff.1 h
      refine hs.update hf rfl rfl ?_ fun m => ?_
      · show s.stats.tagsInUse - 1 + _ = s.stats.tagsInUse + (false.toNat : Int)
        rw [hv]
        simp
      · rw [isOf_invalidated]
        simp only [CacheBlk.isOf, hv, Bool.true_and, Function.update_apply]
        split
        · next hm =>
          subst hm
          simp
        · next hm => simp [beq_false_of_ne (Ne.symm hm)]
    · cases h
  · next hv =>
    cases h
    refine hs.update hf rfl rfl ?_ fun m => ?_
    · show s.stats.tagsInUse + _ = s.stats.tagsInUse + (false.toNat : Int)
      rw [Bool.eq_false_iff.2 hv]
    · rw [isOf_invalidated, isOf_of_not_valid hv]
      rfl

end Lru

/-! ## The class `LRU` -/

namespace Shared

open Lru

/-- `fill` is `findVictim` with `insertBlock` and marking the block valid. -/
inductive Op where
  | access (tid addr now : Nat)
  | fill (tid addr masterId now : Nat) (st : BlkStatus)
  | invalidate (tid f : Nat)

def init (geo : Geometry) (maxMasters : Nat) : Lru := initSets geo maxMasters 1 (fun _ => geo.assoc) fun _ => 0

/-- All threads use partition 0, and the block is marked with the thread. -/
def step (s : Lru) : Op → Except Unit Lru
  | .access _ addr now => (orFail () (s.accessBlock addr now 0)).map fun r => r.1
  | .fill tid addr masterId now st =>
    (orFail () (s.fill addr 0 masterId now st)).map fun r => r.1.putBlk r.2 { r.1.blks r.2 with threadID := tid }
  | .invalidate _ f => orFail () (s.invalidateBlk f 0)

def numBlocks (geo : Geometry) : Nat := geo.numSets * geo.assoc

/-- Masters are known and blocks are blocks of the store. -/
def allows (geo : Geometry) (maxMasters : Nat) : Op → Bool
  | .access .. => true
  | .fill _ _ masterId _ _ => decide (masterId < maxMasters)
  | .invalidate _ f => decide (f < numBlocks geo)

structure Ok (geo : Geometry) (maxMasters : Nat) (s : Lru) : Prop where
  geo_eq : s.geo = geo
  masters_eq : s.maxMasters = maxMasters
  frames : Frames 1 s
  ways : s.assocOfTc 0 = geo.assoc
  lt : ∀ i, ∀ f ∈ s.sets 0 i, f < numBlocks geo
  mem : ∀ f < numBlocks geo, f ∈ s.sets 0 (s.blks f).set
  counted : Counted (numBlocks geo) s

theorem ok_init (geo : Geometry) (maxMasters : Nat) : Ok geo maxMasters (init geo maxMasters) where
  geo_eq := rfl
  masters_eq := rfl
  frames := frames_initSets
  ways := rfl
  lt i f hf := by
    simp only [init, initSets, tcBase] at hf
    split at hf
    · next hi =>
      rw [List.mem_range'_1] at hf
      have hlt := way_lt hi.2 (show f - i * geo.assoc < geo.assoc by omega)
      unfold numBlocks
      omega
    · cases hf
  mem f hf := by
    have hf' : f < geo.numSets * geo.assoc := hf
    have hset : ((init geo maxMasters).blks f).set = f / geo.assoc := by
      simp [init, initSets, locate, hf']
    have hi : f / geo.assoc < geo.numSets := Nat.div_lt_of_lt_mul (Nat.mul_comm _ _ ▸ hf')
    have hlo := Nat.div_mul_le_self f geo.assoc
    have hhi := Nat.lt_div_mul_add geo.assoc_pos (a := f)
    rw [hset]
    simp only [init, initSets, tcBase]
    rw [if_pos ⟨Nat.one_pos, hi⟩, List.mem_range'_1]
    omega
  counted := ⟨fun _ _ => rfl, by simp [validBlocks, init, initSets, CacheBlk.isValid], fun m => by
    simp [blocksOf, init, initSets, CacheBlk.isOf, CacheBlk.isValid]⟩

section

variable {geo : Geometry} {maxMasters i f : Nat} {s s' : Lru}

theorem Ok.upd {l : List Nat} {b : CacheBlk} (hs : Ok geo maxMasters s) (hu : Upd s s' 0 i l f b)
    (hp : l.Perm (s.sets 0 i)) (hset : b.set = (s.blks f).set) (hm : b.isValid = true → b.srcMasterId < s.maxMasters)
    (hc : Counted (numBlocks geo) s') : Ok geo maxMasters s' where
  geo_eq := hu.geo.trans hs.geo_eq
  masters_eq := hu.maxMasters.trans hs.masters_eq
  frames := hs.frames.upd hu hp hset hm
  ways := by rw [hu.assocOfTc, hs.ways]
  lt j g hg := hs.lt j g ((hu.mem_iff hp g 0 j).1 hg)
  mem g hg := by
    have hsame : (s'.blks g).set = (s.blks g).set := by
      rw [hu.blks_apply]
      split
      · next he => rw [hset, he]
      · rfl
    rw [hsame]
    exact (hu.mem_iff hp g 0 _).2 (hs.mem g hg)
  counted := hc

theorem Ok.access (hs : Ok geo maxMasters s) (addr now : Nat) :
    ∃ s' r, s.accessBlock addr now 0 = some (s', r) ∧ Ok geo maxMasters s' := by
  cases hf : s.findBlock addr 0 with
  | some f =>
    obtain ⟨s', ha, hu⟩ := accessBlock_hit now hf
    have hm := mem_of_findBlk hf
    exact ⟨s', _, ha, hs.upd hu (toFront_perm hm) rfl (hs.frames.master f 0 _ hm) (hs.counted.access hs.lt ha)⟩
  | none =>
    obtain ⟨s', ha, h1, h2, h3, h4, h5⟩ := accessBlock_miss now hf
    have hc := hs.counted.access hs.lt ha
    obtain ⟨hg, hmm, ⟨f1, f2, f3, f4, f5⟩, hw, hl, hmem, -⟩ := hs
    refine ⟨s', _, ha, ?_, ?_, ⟨?_, ?_, ?_, ?_, ?_⟩, ?_, ?_, ?_, hc⟩ <;> simp only [h1, h2, h3, h4, h5] <;> assumption

theorem Ok.fill (hs : Ok geo maxMasters s) (addr : Nat) (now : Nat) (st : BlkStatus)
    (hm : masterId < maxMasters) : ∃ s' f, s.fill addr 0 masterId now st = some (s', f) ∧ Ok geo maxMasters s' ∧
      f ∈ s'.sets 0 (s.geo.extractSet addr) := by
  have hm' : masterId < s.maxMasters := hs.masters_eq.symm ▸ hm
  have hlen := hs.frames.len 0 _ Nat.one_pos (s.geo.extractSet_lt addr)
  obtain ⟨f, hv⟩ : ∃ f, s.findVictim addr 0 = some f := by
    rw [findVictim_eq_getLast? hlen]
    refine Option.isSome_iff_exists.1 (List.getLast?_isSome.2 fun h0 => ?_)
    rw [h0, hs.ways] at hlen
    exact geo.assoc_pos.ne hlen
  have hmem := mem_of_findVictim hv
  obtain ⟨s₁, hi⟩ := s.insertBlock_isSome now hm' (hs.frames.master f 0 _ hmem) hmem
  have hfill : s.fill addr 0 masterId now st =
      some (s₁.putBlk f { s₁.blks f with status := { st with valid := true } }, f) := by
    simp only [Lru.fill, fillWith, hv, hi, Option.map_some]
  obtain ⟨-, -, -, hu⟩ := fill_upd hfill
  have hperm := toFront_perm hmem
  exact ⟨_, f, hfill, hs.upd hu hperm rfl (fun _ => hm') (hs.counted.fill (hs.lt _ f hmem) hfill),
    (hu.mem_iff hperm f 0 _).2 hmem⟩

/-- The thread of a block does not matter. -/
theorem Ok.mark (hs : Ok geo maxMasters s) (hf : f ∈ s.sets 0 i) (tid : Nat) :
    Ok geo maxMasters (s.putBlk f { s.blks f with threadID := tid }) := by
  have hlt := hs.lt i f hf
  have hu : Upd s (s.putBlk f { s.blks f with threadID := tid }) 0 i (s.sets 0 i) f { s.blks f with threadID := tid } :=
    ⟨rfl, rfl, rfl, by simp [Lru.putBlk], rfl⟩
  exact hs.upd hu (.refl _) rfl (hs.frames.master f 0 i hf)
    (hs.counted.touch hlt rfl (hs.counted.touched f hlt) rfl rfl rfl)

theorem Ok.invalidate (hs : Ok geo maxMasters s) (hf : f < numBlocks geo) :
    ∃ s', s.invalidateBlk f 0 = some s' ∧ Ok geo maxMasters s' := by
  have hm := hs.mem f hf
  have hnd := hs.frames.nodup 0 (s.blks f).set
  obtain ⟨s', hi⟩ := invalidateBlk_isSome hnd hm (hs.frames.master f 0 _ hm)
  have hu := invalidateBlk_upd hnd hm hi
  refine ⟨s', hi, hs.upd hu ?_ rfl (fun hv => by cases hv) (hs.counted.invalidate hf hi)⟩
  split
  · exact toBack_perm hm
  · exact .refl _

theorem Ok.step (hs : Ok geo maxMasters s) {o : Op} (ho : allows geo maxMasters o = true) :
    ∃ s', Shared.step s o = .ok s' ∧ Ok geo maxMasters s' := by
  cases o with
  | access tid addr now =>
    obtain ⟨s', r, ha, hok⟩ := hs.access addr now
    exact ⟨s', by simp only [Shared.step, ha, orFail]; rfl, hok⟩
  | fill tid addr masterId now st =>
    obtain ⟨s', f, hf, hok, hm⟩ := hs.fill addr now st (of_decide_eq_true ho)
    exact ⟨_, by simp only [Shared.step, hf, orFail]; rfl, hok.mark hm tid⟩
  | invalidate tid f =>
    obtain ⟨s', hi, hok⟩ := hs.invalidate (of_decide_eq_true ho)
    exact ⟨s', by simp only [Shared.step, hi, orFail], hok⟩

end

/-- After every sequence of accesses, fills and invalidations the used bit of a
block says whether it is valid, `tagsInUse` is the number of valid blocks, and
the occupancy of a master the number of those that it brought in. -/
theorem occupancy_exact (geo : Geometry) (maxMasters : Nat) (ops : List Op)
    (h : ∀ o ∈ ops, allows geo maxMasters o = true) :
    ∃ s, runs step (init geo maxMasters) ops = .ok s ∧
      (∀ f < numBlocks geo, (s.blks f).isTouched = (s.blks f).isValid) ∧
      s.stats.tagsInUse = validBlocks (numBlocks geo) s ∧
      ∀ m, s.stats.occupancies m = blocksOf (numBlocks geo) m s := by
  have hal : Always step (fun _ o => allows geo maxMasters o = true) (init geo maxMasters) ops := always_of_mem h
  obtain ⟨s, hr, hok⟩ := runs_total (Ok geo maxMasters) (fun s o hs ho => hs.step ho) (ok_init geo maxMasters) hal
  exact ⟨s, hr, hok.counted.touched, hok.counted.tagsInUse, hok.counted.occupancies⟩

/-- Two masters fill a set of two ways, a third block replaces the first, and
the second is invalidated twice. -/
theorem occupancy_exact_replaced :
    let geo : Geometry := ⟨1, 4, 2, 1, by decide, by decide, by decide, by decide⟩
    let ops : List Op := [.access 0 0 1, .fill 0 0 0 2 {}, .fill 1 4 1 3 {}, .access 0 0 4, .access 1 4 5,
      .fill 1 8 1 6 {}, .invalidate 1 0, .invalidate 1 0]
    (∀ o ∈ ops, allows geo 2 o = true) ∧
      ∃ s, runs step (init geo 2) ops = .ok s ∧
        (∀ f < numBlocks geo, (s.blks f).isTouched = (s.blks f).isValid) ∧
        s.stats.tagsInUse = validBlocks (numBlocks geo) s ∧
        ∀ m, s.stats.occupancies m = blocksOf (numBlocks geo) m s := by
  intro geo ops
  have hops : ∀ o ∈ ops, allows geo 2 o = true := by decide
  exact ⟨hops, occupancy_exact geo 2 ops hops⟩

end Shared

end DynamicCache.Tags
