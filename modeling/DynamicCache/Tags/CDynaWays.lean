import DynamicCache.Tags.CDynaLru

/-!
# `C_DYNALRU` conserves its ways

The frames of a set are handed out once, by the constructor (`allocated`).  The
recency moves permute one of the two lists of a set and the resizing functions
pass the last frame of one list to the other, so at any time the two lists
together are a permutation of the frames handed out.  `Ways` is the invariant;
every operation keeps it and, called with a thread of the store and a known
master, succeeds (`wayStep_ways`), so whole runs do (`cdynalru_conserves_ways`).
-/

namespace DynamicCache.Tags

open Lib Lru

namespace CDynaLru

/-! ## Operations -/

/-- The operations of the store and of its caller, and the pieces of two of them:
`insert` is a fill with whatever status its caller sets, `shrink` is `dec_size` and
`clean` one iteration of the loop that `C_DynamicCache` runs after it. -/
inductive WayOp where
  | op (o : Op)
  | insert (tid addr masterId now : Nat) (st : BlkStatus)
  | shrink
  | clean (set : Nat)
deriving DecidableEq

/-- A thread of the store and a known master. -/
def Op.Legal (p : CDynaParams) : Op → Prop
  | .access tid _ _ => tid < 2
  | .fill tid _ masterId _ _ => tid < 2 ∧ masterId < p.maxMasters
  | .invalidate tid _ _ => tid < 2
  | .incSize => True
  | .decSize => True

/-- The same, and a set of the store. -/
def WayOp.Legal (p : CDynaParams) : WayOp → Prop
  | .op o => o.Legal p
  | .insert tid _ masterId _ _ => tid < 2 ∧ masterId < p.maxMasters
  | .shrink => True
  | .clean set => set < p.geo.numSets

def wayStep (s : CDynaLru) : WayOp → Option (CDynaLru × Unit)
  | .op o => (step s o).map fun r => (r.1, ())
  | .insert tid addr masterId now st =>
    (s.lru.fillWith addr tid masterId now st).map fun r => ({ s with lru := r.1 }, ())
  | .shrink => s.decSize.map fun r => (r.1, ())
  | .clean set => (s.evictSet set).map fun s' => (s', ())

/-! ## The invariant -/

/-- The frames that the constructor gives to set `i`, Low's first. -/
def allocated (p : CDynaParams) (i : Nat) : List Nat :=
  (init p).lru.sets 0 i ++ (init p).lru.sets 1 i

/-- The shadow lists keep their length and hold no frame twice. -/
structure UmonWays (p : CDynaParams) (u : Umon) : Prop where
  nodup : ∀ i, (u.sets i).Nodup
  setOf : ∀ i f, f ∈ u.sets i → (u.blks f).set = i
  len : ∀ i < p.geo.numSets, (u.sets i).length = p.geo.assoc

structure Ways (p : CDynaParams) (s : CDynaLru) : Prop where
  geo : s.lru.geo = p.geo
  maxMasters : s.lru.maxMasters = p.maxMasters
  hMin : s.hMin = p.hMin
  frames : Frames 2 s.lru
  perm : ∀ i < p.geo.numSets, (s.lru.sets 0 i ++ s.lru.sets 1 i).Perm (allocated p i)
  total : s.lAssoc + s.hAssoc = p.geo.assoc
  low : 1 ≤ s.lAssoc
  high : p.hMin ≤ s.hAssoc
  umon : UmonWays p s.umon

section

variable {p : CDynaParams} {s s' : CDynaLru} {u u' : Umon}

theorem UmonWays.upd {i f : Nat} {l : List Nat} {b : CacheBlk} (hU : UmonWays p u)
    (hs : u'.sets = Function.update u.sets i l) (hp : l.Perm (u.sets i))
    (hb : u'.blks = Function.update u.blks f b) (hset : b.set = (u.blks f).set) : UmonWays p u' := by
  have hsets : ∀ j, (u'.sets j).Perm (u.sets j) := by
    intro j
    rw [hs, Function.update_apply]
    split
    · next h => rw [h]; exact hp
    · exact List.Perm.refl _
  refine ⟨fun j => (hsets j).nodup_iff.2 (hU.nodup j), fun j x hx => ?_, fun j hj => ?_⟩
  · rw [hb, Function.update_apply]
    have h := hU.setOf j x ((hsets j).mem_iff.1 hx)
    split
    · next he => rw [hset, ← he, h]
    · exact h
  · rw [(hsets j).length_eq, hU.len j hj]

theorem UmonWays.access (hU : UmonWays p u) {i : Nat} (hi : i < p.geo.numSets) (tag : Nat) :
    ∃ u', u.access p.geo.assoc i tag = some u' ∧ UmonWays p u' := by
  unfold Umon.access
  cases hf : findBlk u.blks (u.sets i) tag with
  | some f =>
    have hm := mem_of_findBlk hf
    simp only [moveToHead_eq hm, Option.map_some]
    exact ⟨_, rfl, hU.upd rfl (toFront_perm hm) (Function.update_eq_self f u.blks).symm rfl⟩
  | none =>
    have hlt : p.geo.assoc - 1 < (u.sets i).length := by
      rw [hU.len i hi]
      have := p.geo.assoc_pos
      omega
    have hm := List.getElem_mem hlt
    simp only [List.getElem?_eq_getElem hlt, moveToHead_eq hm, Option.map_some]
    exact ⟨_, rfl, hU.upd rfl (toFront_perm hm) rfl rfl⟩

theorem UmonWays.invalidate (hU : UmonWays p u) (i tag : Nat) :
    ∃ u', u.invalidate i tag = some u' ∧ UmonWays p u' := by
  unfold Umon.invalidate
  cases hf : findBlk u.blks (u.sets i) tag with
  | none => exact ⟨u, rfl, hU⟩
  | some f =>
    have hm := mem_of_findBlk hf
    simp only [if_pos (holds_of_findBlk hf).2, moveToTail_eq (hU.nodup i) hm, Option.map_some]
    exact ⟨_, rfl, hU.upd rfl (toBack_perm hm) rfl rfl⟩

/-! ## Operations on one list -/

/-- An update that permutes the list of the updated frame loses no frame. -/
theorem Ways.upd {lru' : Lru} {t i f : Nat} {l : List Nat} {b : CacheBlk} (hW : Ways p s)
    (hu : Upd s.lru lru' t i l f b) (hp : l.Perm (s.lru.sets t i))
    (hset : b.set = (s.lru.blks f).set) (hm : b.isValid = true → b.srcMasterId < s.lru.maxMasters) :
    Ways p { s with lru := lru' } where
  geo := hu.geo.trans hW.geo
  maxMasters := hu.maxMasters.trans hW.maxMasters
  hMin := hW.hMin
  frames := hW.frames.upd hu hp hset hm
  perm j hj := by
    have hsame : ∀ t', (lru'.sets t' j).Perm (s.lru.sets t' j) := by
      intro t'
      rw [hu.sets_apply]
      split
      · next h => rw [h.1, h.2]; exact hp
      · exact List.Perm.refl _
    exact ((hsame 0).append (hsame 1)).trans (hW.perm j hj)
  total := by
    have h := hW.total
    simp only [lAssoc, hAssoc, hu.assocOfTc] at h ⊢
    exact h
  low := by
    have h := hW.low
    simp only [lAssoc, hu.assocOfTc] at h ⊢
    exact h
  high := by
    have h := hW.high
    simp only [hAssoc, hu.assocOfTc] at h ⊢
    exact h
  umon := hW.umon

theorem Ways.withUmon (hW : Ways p s) (hU : UmonWays p u) : Ways p { s with umon := u } :=
  ⟨hW.geo, hW.maxMasters, hW.hMin, hW.frames, hW.perm, hW.total, hW.low, hW.high, hU⟩

theorem Ways.access (hW : Ways p s) (tid addr now : Nat) :
    ∃ r, s.accessBlock addr now tid = some r ∧ Ways p r.1 := by
  have hlru : ∃ lru' blk lat, s.lru.accessBlock addr now tid = some (lru', blk, lat) ∧
      Ways p { s with lru := lru' } := by
    cases hf : s.lru.findBlock addr tid with
    | some f =>
      obtain ⟨lru', ha, hu⟩ := accessBlock_hit now hf
      have hm : f ∈ s.lru.sets tid (s.lru.geo.extractSet addr) := mem_of_findBlk hf
      exact ⟨lru', _, _, ha, hW.upd hu (toFront_perm hm) rfl (hW.frames.master f _ _ hm)⟩
    | none =>
      obtain ⟨lru', ha, h1, h2, h3, h4, h5⟩ := accessBlock_miss now hf
      obtain ⟨g1, g2, g3, ⟨k1, k2, k3, k4, k5⟩, g5, g6, g7, g8, g9⟩ := hW
      refine ⟨lru', _, _, ha, ⟨?_, ?_, g3, ⟨?_, ?_, ?_, ?_, ?_⟩, ?_, ?_, ?_, ?_, g9⟩⟩ <;>
        simp only [lAssoc, hAssoc, h1, h2, h3, h4, h5] <;> assumption
  obtain ⟨lru', blk, lat, ha, hW'⟩ := hlru
  simp only [accessBlock, ha]
  by_cases ht : tid = 0
  · have hi : s.lru.geo.extractSet addr < p.geo.numSets := hW.geo ▸ s.lru.geo.extractSet_lt addr
    obtain ⟨u', hu, hU⟩ := hW.umon.access hi (s.lru.geo.extractTag addr)
    rw [if_pos ht, hW.geo] at *
    rw [hu]
    exact ⟨_, rfl, hW'.withUmon hU⟩
  · rw [if_neg ht]
    exact ⟨_, rfl, hW'⟩

/-- `findVictim` finds a frame: both partitions have at least one way. -/
theorem Ways.findVictim (hW : Ways p s) (hH : 1 ≤ p.hMin) {tid : Nat} (ht : tid < 2) (addr : Nat) :
    ∃ f, s.lru.findVictim addr tid = some f := by
  have hpos : s.lru.assocOfTc tid ≠ 0 := by
    have h0 := hW.low
    have h1 := hW.high
    simp only [lAssoc, hAssoc] at h0 h1
    obtain rfl | rfl : tid = 0 ∨ tid = 1 := by omega
    · omega
    · omega
  have hlen := hW.frames.len tid _ ht (s.lru.geo.extractSet_lt addr)
  have hlt : s.lru.assocOfTc tid - 1 < (s.lru.sets tid (s.lru.geo.extractSet addr)).length := by omega
  exact ⟨_, by rw [Lru.findVictim, if_neg hpos, getSet, List.getElem?_eq_getElem hlt]⟩

theorem Ways.insert (hW : Ways p s) (hH : 1 ≤ p.hMin) {tid masterId : Nat} (ht : tid < 2)
    (hm : masterId < p.maxMasters) (addr now : Nat) (st : BlkStatus) :
    ∃ lru' f, s.lru.fillWith addr tid masterId now st = some (lru', f) ∧ Ways p { s with lru := lru' } := by
  rw [← hW.maxMasters] at hm
  obtain ⟨f, hv⟩ := hW.findVictim hH ht addr
  have hf := mem_of_findVictim hv
  obtain ⟨l, hl⟩ := insertBlock_isSome s.lru now hm (hW.frames.master f _ _ hf) hf
  have hfill : s.lru.fillWith addr tid masterId now st =
      some (l.putBlk f { l.blks f with status := st }, f) := by
    simp only [fillWith, hv, hl, Option.map_some]
  obtain ⟨-, -, -, hu⟩ := fillWith_upd hfill
  exact ⟨_, f, hfill, hW.upd hu (toFront_perm hf) rfl fun _ => hm⟩

theorem Ways.invalidate (hW : Ways p s) {tid addr f : Nat} (hf : s.lru.findBlock addr tid = some f) :
    ∃ lru', s.lru.invalidateBlk f tid = some lru' ∧ Ways p { s with lru := lru' } := by
  have hm : f ∈ s.lru.sets tid (s.lru.geo.extractSet addr) := mem_of_findBlk hf
  have hset := hW.frames.setOf f _ _ hm
  rw [← hset] at hm
  obtain ⟨lru', hi⟩ := invalidateBlk_isSome (hW.frames.nodup _ _) hm (hW.frames.master f _ _ hm)
  have hu := invalidateBlk_upd (hW.frames.nodup _ _) hm hi
  refine ⟨lru', hi, hW.upd hu ?_ rfl fun hv => by cases hv⟩
  split
  · exact toBack_perm hm
  · exact List.Perm.refl _

/-! ## Resizing -/

/-- Every iteration finds the entries it copies. -/
theorem moveWay_loop_isSome (lru : Lru) {tc n tc' m : Nat} (hne : tc ≠ tc')
    (hn : ∀ i < lru.geo.numSets, (lru.sets tc i).length = n + 1)
    (hm : ∀ i < lru.geo.numSets, (lru.sets tc' i).length = m) :
    ∃ lru', loop (moveWay tc n tc' m) lru.geo.numSets lru = some lru' := by
  -- the iterations so far have left the sets ahead alone
  have hstep : ∀ i (x : Lru), i < lru.geo.numSets → (∀ t j, i ≤ j → x.sets t j = lru.sets t j) →
      ∃ x', moveWay tc n tc' m x i = some x' ∧ ∀ t j, i + 1 ≤ j → x'.sets t j = lru.sets t j := by
    intro i x hi hx
    have hn' : (x.sets tc i).length = n + 1 := by rw [hx tc i (Nat.le_refl i), hn i hi]
    have hm' : (x.sets tc' i).length = m := by rw [hx tc' i (Nat.le_refl i), hm i hi]
    obtain ⟨x', hx'⟩ : ∃ x', moveWay tc n tc' m x i = some x' := by
      simp only [moveWay, copyBlks, if_pos (show m ≤ (x.sets tc' i).length by omega),
        if_pos (show n ≤ (x.sets tc i).length by omega),
        List.getElem?_eq_getElem (show n < (x.sets tc i).length by omega)]
      exact ⟨_, rfl⟩
    obtain ⟨f, -, -, hrest, -⟩ := moveWay_eq hne hn' hm' hx'
    refine ⟨x', hx', fun t j hj => ?_⟩
    rw [hrest t j fun h => by omega, hx t j (by omega)]
  obtain ⟨lru', hl, -⟩ := loop_total (fun i (x : Lru) => ∀ t j, i ≤ j → x.sets t j = lru.sets t j) hstep
    fun _ _ _ => rfl
  exact ⟨lru', hl⟩

/-- The frame that changes hands stays in its set. -/
theorem Moved.perm {lru lru' : Lru} {tc tc' : Nat} {fr : Nat → Nat} (hM : Moved lru lru' tc tc' fr) {i : Nat}
    (hi : i < lru.geo.numSets) : (lru'.sets tc i ++ lru'.sets tc' i).Perm (lru.sets tc i ++ lru.sets tc' i) := by
  rw [hM.shrunk i hi, hM.grown i hi, List.append_assoc]
  exact List.Perm.append_left _ List.perm_append_comm

section

variable {tc tc' l h : Nat} {fr : Nat → Nat}

theorem Ways.resize_isSome (hW : Ways p s) (htc : tc + tc' = 1) (h0 : s.lru.assocOfTc tc ≠ 0)
    (hs : assocOfTc l h tc = s.lru.assocOfTc tc - 1) (hg : assocOfTc l h tc' = s.lru.assocOfTc tc' + 1) :
    ∃ r, s.resize tc tc' l h = some r := by
  obtain ⟨hn, hm⟩ := resize_lengths hW.frames htc h0 hs hg
  have hl : ∃ lru', loop (moveWay tc (assocOfTc l h tc) tc' (assocOfTc l h tc' - 1)) s.lru.geo.numSets
      { s.lru with assocOfTc := assocOfTc l h } = some lru' :=
    moveWay_loop_isSome { s.lru with assocOfTc := assocOfTc l h } (by omega) hn hm
  obtain ⟨lru', hl⟩ := hl
  exact ⟨_, by rw [resize, if_neg h0, hl]; rfl⟩

theorem Ways.resizes (hW : Ways p s) (htc : tc + tc' = 1) (hR : Resizes s s' tc tc' fr) (hlow : 1 ≤ s'.lAssoc)
    (hhigh : p.hMin ≤ s'.hAssoc) : Ways p s' where
  geo := hR.geo.trans hW.geo
  maxMasters := hR.maxMasters.trans hW.maxMasters
  hMin := hR.hMin.trans hW.hMin
  frames := hR.frames hW.frames htc hR.shrinks hR.grows
  perm i hi := by
    have hp := hR.perm (hW.geo ▸ hi)
    refine List.Perm.trans ?_ (hW.perm i hi)
    obtain ⟨rfl, rfl⟩ | ⟨rfl, rfl⟩ : (tc = 0 ∧ tc' = 1) ∨ (tc = 1 ∧ tc' = 0) := by omega
    · exact hp
    · exact (List.perm_append_comm.trans hp).trans List.perm_append_comm
  total := by
    have hs := hR.shrinks
    have hg := hR.grows
    rw [← hW.total]
    unfold lAssoc hAssoc
    obtain ⟨rfl, rfl⟩ | ⟨rfl, rfl⟩ : (tc = 0 ∧ tc' = 1) ∨ (tc = 1 ∧ tc' = 0) := by omega
    · omega
    · omega
  low := hlow
  high := hhigh
  umon := hR.umon ▸ hW.umon

end

theorem Ways.incSize (hW : Ways p s) : ∃ r, s.incSize = some r ∧ Ways p r.1 := by
  by_cases he : s.hAssoc = s.hMin
  · rw [CDynaLru.incSize, if_pos he]
    exact ⟨_, rfl, hW⟩
  have hhigh := hW.high
  have hmin := hW.hMin
  obtain ⟨⟨s', n⟩, hr⟩ : ∃ r, s.incSize = some r := by
    rw [CDynaLru.incSize, if_neg he]
    exact hW.resize_isSome rfl (show s.hAssoc ≠ 0 by omega) rfl rfl
  obtain ⟨h, -⟩ | ⟨-, -, fr, hR⟩ := incSize_cases hW.frames hr
  · exact absurd h he
  have hg : s'.lAssoc = s.lAssoc + 1 := hR.grows
  have hs : s'.hAssoc + 1 = s.hAssoc := hR.shrinks
  exact ⟨_, hr, hW.resizes rfl hR (show 1 ≤ s'.lAssoc by omega) (show p.hMin ≤ s'.hAssoc by omega)⟩

theorem Ways.decSize (hW : Ways p s) : ∃ s' n, s.decSize = some (s', n) ∧ n ≤ p.geo.numSets ∧ Ways p s' := by
  by_cases he : s.lAssoc = 1
  · rw [CDynaLru.decSize, if_pos he]
    exact ⟨_, _, rfl, Nat.zero_le _, hW⟩
  have hlow := hW.low
  have hhigh := hW.high
  obtain ⟨⟨s', n⟩, hr⟩ : ∃ r, s.decSize = some r := by
    rw [CDynaLru.decSize, if_neg he]
    exact hW.resize_isSome rfl (show s.lAssoc ≠ 0 by omega) rfl rfl
  obtain ⟨h, -⟩ | ⟨-, hn, fr, hR⟩ := decSize_cases hW.frames hr
  · exact absurd h he
  have hs : s'.lAssoc + 1 = s.lAssoc := hR.shrinks
  have hg : s'.hAssoc = s.hAssoc + 1 := hR.grows
  exact ⟨_, _, hr, by rw [hn, hW.geo],
    hW.resizes rfl hR (show 1 ≤ s'.lAssoc by omega) (show p.hMin ≤ s'.hAssoc by omega)⟩

theorem Ways.clean (hW : Ways p s) (hH : 1 ≤ p.hMin) {i : Nat} (hi : i < p.geo.numSets) :
    ∃ s', s.evictSet i = some s' ∧ Ways p s' := by
  rw [← hW.geo] at hi
  have hhigh := hW.high
  have hlen := hW.frames.len 1 i (by omega) hi
  have hlt : s.hAssoc - 1 < (s.lru.sets 1 i).length := by
    unfold hAssoc at hhigh ⊢
    omega
  obtain ⟨f, hf⟩ : ∃ f, (s.lru.sets 1 i)[s.hAssoc - 1]? = some f := ⟨_, List.getElem?_eq_getElem hlt⟩
  have hsome : ∃ s', s.evictSet i = some s' := by
    have hm := List.mem_of_getElem? hf
    have hset := hW.frames.setOf _ _ _ hm
    simp only [evictSet, getEvictBlk, if_neg (show (1 : Nat) ≠ 0 by omega), hf]
    split
    · rw [← hset] at hm
      obtain ⟨l, hl⟩ := invalidateBlk_isSome (hW.frames.nodup _ _) hm (hW.frames.master _ _ _ hm)
      rw [hl]
      exact ⟨_, rfl⟩
    · exact ⟨_, rfl⟩
  obtain ⟨s', hs⟩ := hsome
  obtain ⟨f, hf, h1, h2, hu⟩ := evictSet_upd hW.frames hi hs
  have hmem : f ∈ s.lru.sets 1 i := List.mem_of_getLast? hf
  have hW' := hW.upd hu (List.Perm.refl _)
    (by rw [evicted]; split <;> rfl)
    (by
      rw [evicted]
      split
      · intro hv; cases hv
      · exact hW.frames.master f _ _ hmem)
  have hs' : s' = { s with lru := s'.lru } := by
    obtain ⟨l, m, u⟩ := s'
    simp only at h1 h2
    rw [h1, h2]
  exact ⟨s', hs, hs' ▸ hW'⟩

theorem Ways.decSizeClean (hW : Ways p s) (hH : 1 ≤ p.hMin) : ∃ s', s.decSizeClean = some s' ∧ Ways p s' := by
  obtain ⟨s₁, n, hd, hn, hW₁⟩ := hW.decSize
  rw [CDynaLru.decSizeClean, hd]
  exact loop_total (fun _ => Ways p) (fun i x hi hx => hx.clean hH (by omega)) hW₁

/-! ## Runs -/

theorem step_ways (hH : 1 ≤ p.hMin) (hW : Ways p s) {o : Op} (ho : o.Legal p) :
    ∃ s' r, step s o = some (s', r) ∧ Ways p s' := by
  cases o with
  | access tid addr now =>
    obtain ⟨r, hr, hW'⟩ := hW.access tid addr now
    exact ⟨r.1, _, by rw [step, hr]; rfl, hW'⟩
  | fill tid addr masterId now st =>
    obtain ⟨lru', f, hl, hW'⟩ := hW.insert hH ho.1 ho.2 addr now { st with valid := true }
    exact ⟨_, _, by rw [step, fill, hl]; rfl, hW'⟩
  | invalidate tid addr shadow =>
    cases hf : s.lru.findBlock addr tid with
    | none => exact ⟨s, _, by rw [step, hf], hW⟩
    | some f =>
      obtain ⟨lru', hl, hW'⟩ := hW.invalidate hf
      cases shadow with
      | false => exact ⟨_, _, by simp only [step, hf, hl]; rfl, hW'⟩
      | true =>
        obtain ⟨u', hu, hU⟩ := hW.umon.invalidate (lru'.blks f).set (lru'.blks f).tag
        exact ⟨_, _, by simp only [step, hf, invalidateBlk, hl, hu]; rfl, hW'.withUmon hU⟩
  | incSize =>
    obtain ⟨r, hr, hW'⟩ := hW.incSize
    exact ⟨r.1, _, by rw [step, hr]; rfl, hW'⟩
  | decSize =>
    obtain ⟨s', hs, hW'⟩ := hW.decSizeClean hH
    exact ⟨s', _, by rw [step, hs]; rfl, hW'⟩

theorem wayStep_ways (hH : 1 ≤ p.hMin) (hW : Ways p s) {o : WayOp} (ho : o.Legal p) :
    ∃ s' r, wayStep s o = some (s', r) ∧ Ways p s' := by
  cases o with
  | op o =>
    obtain ⟨s', r, hr, hW'⟩ := step_ways hH hW ho
    exact ⟨s', (), by rw [wayStep, hr]; rfl, hW'⟩
  | insert tid addr masterId now st =>
    obtain ⟨lru', f, hl, hW'⟩ := hW.insert hH ho.1 ho.2 addr now st
    exact ⟨_, (), by rw [wayStep, hl]; rfl, hW'⟩
  | shrink =>
    obtain ⟨s', n, hr, -, hW'⟩ := hW.decSize
    exact ⟨s', (), by rw [wayStep, hr]; rfl, hW'⟩
  | clean i =>
    obtain ⟨s', hs, hW'⟩ := hW.clean hH ho
    exact ⟨s', (), by rw [wayStep, hs]; rfl, hW'⟩

theorem frames_init (p : CDynaParams) : Frames 2 (init p).lru :=
  @frames_initSets (assocOfTc p.lAssoc (p.geo.assoc - p.lAssoc)) p.geo p.maxMasters 2 fun tc => tc

theorem ways_init (hL : 1 ≤ p.lAssoc) (hH : p.hMin ≤ p.geo.assoc - p.lAssoc) : Ways p (init p) where
  geo := rfl
  maxMasters := rfl
  hMin := rfl
  frames := frames_init p
  perm _ _ := List.Perm.refl _
  total := by
    show p.lAssoc + (p.geo.assoc - p.lAssoc) = p.geo.assoc
    have := p.lAssoc_le
    omega
  low := hL
  high := hH
  umon := by
    refine ⟨nodup_umon_init p, fun _ _ hf => set_umon_init hf, fun i hi => ?_⟩
    simp only [init, if_pos hi, List.length_range']

end

/-- `assoc` different frames for every set, and no frame in two sets. -/
theorem allocated_spec (p : CDynaParams) :
    (∀ i < p.geo.numSets, (allocated p i).length = p.geo.assoc) ∧ (∀ i, (allocated p i).Nodup) ∧
      ∀ i j f, f ∈ allocated p i → f ∈ allocated p j → i = j := by
  have hF := frames_init p
  refine ⟨fun i hi => ?_, fun i => ?_, fun i j f hi hj => ?_⟩
  · rw [allocated, List.length_append, hF.len 0 i (by omega) hi, hF.len 1 i (by omega) hi]
    show p.lAssoc + (p.geo.assoc - p.lAssoc) = p.geo.assoc
    have := p.lAssoc_le
    omega
  · rw [allocated, List.nodup_append]
    refine ⟨hF.nodup 0 i, hF.nodup 1 i, fun a ha b hb hab => ?_⟩
    subst hab
    exact absurd (hF.owner a 0 i 1 i ha hb).1 (by omega)
  · rw [allocated, List.mem_append] at hi hj
    rcases hi with hi | hi <;> rcases hj with hj | hj <;> exact (hF.owner f _ _ _ _ hi hj).2

/-- From a constructor call with at least one way for each partition, every
sequence of calls succeeds, and in every set the Low and the High list together
are a permutation of the `assoc` frames that the constructor gave to the set,
with `L_assoc` and `H_assoc` of them. -/
theorem cdynalru_conserves_ways (p : CDynaParams) (hL : 1 ≤ p.lAssoc) (hmin : 1 ≤ p.hMin)
    (hH : p.hMin ≤ p.geo.assoc - p.lAssoc) (ops : List WayOp) (hops : ∀ o ∈ ops, o.Legal p) :
    ∃ s os, run wayStep (fun _ => true) (init p) ops = some (s, os) ∧
      (∀ i < p.geo.numSets, (s.lru.sets 0 i ++ s.lru.sets 1 i).Perm (allocated p i) ∧
        (allocated p i).length = p.geo.assoc ∧
        (s.lru.sets 0 i).length = s.lAssoc ∧ (s.lru.sets 1 i).length = s.hAssoc) ∧
      (∀ i j f, f ∈ allocated p i → f ∈ allocated p j → i = j) ∧ (∀ i, (allocated p i).Nodup) ∧
      s.lAssoc + s.hAssoc = p.geo.assoc ∧ 1 ≤ s.lAssoc ∧ p.hMin ≤ s.hAssoc := by
  have halong : Along wayStep (fun _ o => o.Legal p) (init p) ops := always_of_mem hops
  obtain ⟨s, os, hr, hW⟩ := run_total (fun _ => true) (Ways p) (fun s o hW ho => wayStep_ways hmin hW ho)
    (ways_init hL hH) halong
  obtain ⟨hlen, hnodup, hsep⟩ := allocated_spec p
  refine ⟨s, os, hr, fun i hi => ⟨hW.perm i hi, hlen i hi, ?_, ?_⟩, hsep, hnodup, hW.total, hW.low, hW.high⟩
  · exact hW.frames.len 0 i (by omega) (hW.geo ▸ hi)
  · exact hW.frames.len 1 i (by omega) (hW.geo ▸ hi)

/-- Two sets of four ways; fills, hits, an invalidation and resizing in both directions. -/
theorem cdynalru_conserves_ways_four :
    let p : CDynaParams := ⟨⟨2, 4, 4, 1, by decide, by decide, by decide, by decide⟩, 3, 2, 1, by decide⟩
    let ops : List WayOp := [.op (.fill 0 4 1 0 {}), .insert 1 12 2 0 { valid := true, dirty := true },
      .op (.access 0 4 5), .op .incSize, .op (.access 0 12 6), .op .incSize, .shrink, .clean 0, .clean 1,
      .op (.invalidate 0 4 true), .op .decSize, .op (.access 1 12 9)]
    ∃ s os, run wayStep (fun _ => true) (init p) ops = some (s, os) ∧
      (s.lru.sets 0 1 ++ s.lru.sets 1 1).Perm (allocated p 1) ∧ s.lAssoc + s.hAssoc = 4 := by
  intro p ops
  obtain ⟨s, os, hr, hperm, -, -, htotal, -⟩ := cdynalru_conserves_ways p (by decide) (by decide)
    (by decide) ops (by simp [WayOp.Legal, Op.Legal, p, ops])
  exact ⟨s, os, hr, (hperm 1 (by decide)).1, htotal⟩

end CDynaLru

end DynamicCache.Tags
