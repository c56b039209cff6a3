import DynamicCache.Tags.Frames

/-!
# Allocation of the frames, partition by partition

`init_sets` of the way-partitioned stores hands out the frames in the order
partition, set, way: frame `tcBase tc + i * ways + j` is way `j` of set `i` of
partition `tc`.  `locate` reads these three numbers back, so no frame is handed
out twice, and the store it builds satisfies `Frames` (`frames_initSets`).
-/

namespace DynamicCache.Tags

namespace Lru

variable (numSets : Nat) (ways : Nat → Nat)

/-- Frames handed out before partition `tc`. -/
def tcBase : Nat → Nat
  | 0 => 0
  | tc + 1 => tcBase tc + numSets * ways tc

/-- Partition, set and way of frame `f`, counted from partition `tc` on. -/
def locate : Nat → Nat → Nat → Nat × Nat × Nat
  | 0, tc, _ => (tc, 0, 0)
  | n + 1, tc, f =>
    if f < numSets * ways tc then (tc, f / ways tc, f % ways tc)
    else locate n (tc + 1) (f - numSets * ways tc)

theorem tcBase_le {tc tc' : Nat} (h : tc ≤ tc') : tcBase numSets ways tc ≤ tcBase numSets ways tc' := by
  induction tc' with
  | zero => rw [Nat.le_zero.1 h]
  | succ k ih =>
    rcases Nat.lt_or_ge k tc with hk | hk
    · rw [show tc = k + 1 by omega]
    · exact Nat.le_trans (ih hk) (Nat.le_add_right _ _)

variable {numSets ways}

theorem way_lt {i j a : Nat} (hi : i < numSets) (hj : j < a) : i * a + j < numSets * a := by
  have h1 : (i + 1) * a ≤ numSets * a := Nat.mul_le_mul_right a hi
  rw [Nat.add_mul, Nat.one_mul] at h1
  omega

theorem locate_eq {n tc₀ tc i j f : Nat} (h0 : tc₀ ≤ tc) (hn : tc < tc₀ + n) (hi : i < numSets)
    (hj : j < ways tc)
    (hf : tcBase numSets ways tc₀ + f = tcBase numSets ways tc + i * ways tc + j) :
    locate numSets ways n tc₀ f = (tc, i, j) := by
  induction n generalizing tc₀ f with
  | zero => omega
  | succ n ih =>
    rw [locate]
    rcases Nat.eq_or_lt_of_le h0 with he | hlt
    · subst he
      have hf' : f = i * ways tc₀ + j := by omega
      have hd : f / ways tc₀ = i := by
        rw [hf', Nat.mul_comm, Nat.mul_add_div (by omega), Nat.div_eq_of_lt hj, Nat.add_zero]
      have hm : f % ways tc₀ = j := by
        rw [hf', Nat.mul_comm, Nat.mul_add_mod, Nat.mod_eq_of_lt hj]
      rw [if_pos (hf' ▸ way_lt hi hj), hd, hm]
    · have hb : tcBase numSets ways (tc₀ + 1) ≤ tcBase numSets ways tc := tcBase_le _ _ hlt
      rw [tcBase] at hb
      rw [if_neg (by omega)]
      exact ih hlt (by omega) (by rw [tcBase]; omega)

/-! ## The initial store -/

/-- `init_sets` of a store with `n` partitions, `ways tc` ways for partition
`tc`; `thread tc` is the thread id its frames start with. -/
def initSets (geo : Geometry) (maxMasters n : Nat) (ways thread : Nat → Nat) : Lru where
  geo := geo
  maxMasters := maxMasters
  warmupBound := geo.numSets * geo.assoc
  blks f :=
    let (tc, i, j) := locate geo.numSets ways n 0 f
    { tag := j, set := i, threadID := thread tc, srcMasterId := invldMasterId }
  sets tc i :=
    if tc < n ∧ i < geo.numSets then
      List.range' (tcBase geo.numSets ways tc + i * ways tc) (ways tc)
    else []
  assocOfTc := ways
  missCounter _ := 0
  stats := {}

variable {geo : Geometry} {maxMasters n : Nat} {thread : Nat → Nat}

theorem mem_initSets {f tc i : Nat} (h : f ∈ (initSets geo maxMasters n ways thread).sets tc i) :
    tc < n ∧ i < geo.numSets ∧
      ∃ j < ways tc, locate geo.numSets ways n 0 f = (tc, i, j) := by
  simp only [initSets] at h
  split at h
  · next hc =>
    rw [List.mem_range'_1] at h
    refine ⟨hc.1, hc.2, f - (tcBase geo.numSets ways tc + i * ways tc), by omega, ?_⟩
    exact locate_eq (Nat.zero_le _) (by omega) hc.2 (by omega) (by rw [tcBase]; omega)
  · cases h

theorem frames_initSets : Frames n (initSets geo maxMasters n ways thread) where
  nodup tc i := by
    simp only [initSets]
    split
    · exact List.nodup_range'
    · exact List.nodup_nil
  owner f tc i tc' i' h h' := by
    obtain ⟨-, -, j, -, hl⟩ := mem_initSets h
    obtain ⟨-, -, j', -, hl'⟩ := mem_initSets h'
    rw [hl] at hl'
    simp only [Prod.mk.injEq] at hl'
    exact ⟨hl'.1, hl'.2.1⟩
  setOf f tc i h := by
    obtain ⟨-, -, j, -, hl⟩ := mem_initSets h
    simp only [initSets, hl]
  len tc i htc hi := by
    simp only [initSets] at hi ⊢
    rw [if_pos ⟨htc, hi⟩, List.length_range']
  master f tc i _ hv := by
    simp [initSets, CacheBlk.isValid] at hv

theorem isValid_initSets (f : Nat) :
    ((initSets geo maxMasters n ways thread).blks f).isValid = false := rfl

theorem threadID_initSets {f tc i : Nat}
    (h : f ∈ (initSets geo maxMasters n ways thread).sets tc i) :
    ((initSets geo maxMasters n ways thread).blks f).threadID = thread tc := by
  obtain ⟨-, -, j, -, hl⟩ := mem_initSets h
  simp only [initSets, hl]

end Lru

end DynamicCache.Tags
