import DynamicCache.Tags.Layout
import DynamicCache.Lib.Runs

/-!
# The coarse-grained dynamic partition (`c_dynalru.cc`)

`C_DYNALRU` has a Low partition (label 0) and a High partition (label 1) whose
sizes `inc_size` and `dec_size` change by one way in every set, by moving the
last frame of one list to the end of the other.  A shadow tag array per set,
the utility monitor, follows the accesses of thread 0.  A grown Low list holds
frames with valid High blocks until Low replaces them; a shrunk one gives
frames to High that `C_DynamicCache::dec_size` cleans (`evictSet`).
-/

namespace DynamicCache.Tags

open Lib Lru

/-! ## The utility monitor -/

/-- The shadow tags and their hit counters. -/
structure Umon where
  sets : Nat → List Nat
  blks : Nat → CacheBlk
  /-- the counts, of which the `unsigned` counters of the source keep the low 32 bits -/
  counters : Nat → Nat

namespace Umon

variable (u : Umon)

/-- Status of a shadow tag in use, `BlkValid | BlkReadable`. -/
def inUse : BlkStatus := { valid := true, readable := true }

/-- The part of `accessBlock` that follows an access of thread 0. -/
def access (assoc set tag : Nat) : Option Umon :=
  match findBlk u.blks (u.sets set) tag with
  | some f =>
    let index := findBlkIndex u.blks (u.sets set) tag
    (moveToHead (u.sets set) f).map fun l =>
      { u with
        counters := Function.update u.counters index (u.counters index + 1)
        sets := Function.update u.sets set l }
  | none =>
    match (u.sets set)[assoc - 1]? with
    | none => none
    | some f =>
      (moveToHead (u.sets set) f).map fun l =>
        { u with
          blks := Function.update u.blks f { u.blks f with tag := tag, status := inUse }
          sets := Function.update u.sets set l }

/-- The part of `C_DYNALRU::invalidateBlk` that drops the shadow tag. -/
def invalidate (set tag : Nat) : Option Umon :=
  match findBlk u.blks (u.sets set) tag with
  | none => some u
  | some f =>
    let b := u.blks f
    (if b.isValid then moveToTail (u.sets set) f else some (u.sets set)).map fun l =>
      { u with
        blks := Function.update u.blks f { b with status := {} }
        sets := Function.update u.sets set l }

/-- `reset_umon` -/
def reset (assoc : Nat) : Umon := { u with counters := fun i => if i < assoc then 0 else u.counters i }

end Umon

/-! ## The store -/

structure CDynaLru where
  lru : Lru
  hMin : Nat
  umon : Umon

/-- Arguments of the constructor. -/
structure CDynaParams where
  geo : Geometry
  maxMasters : Nat
  lAssoc : Nat
  hMin : Nat
  lAssoc_le : lAssoc ≤ geo.assoc

namespace CDynaLru

variable (s : CDynaLru)

def lAssoc : Nat := s.lru.assocOfTc 0
def hAssoc : Nat := s.lru.assocOfTc 1

/-- `assoc_of_tc` for given sizes of the two partitions. -/
def assocOfTc (lAssoc hAssoc tcid : Nat) : Nat := if tcid = 0 then lAssoc else hAssoc

def init (p : CDynaParams) : CDynaLru where
  lru := initSets p.geo p.maxMasters 2 (assocOfTc p.lAssoc (p.geo.assoc - p.lAssoc)) (fun tc => tc)
  hMin := p.hMin
  umon :=
    { sets := fun i =>
        if i < p.geo.numSets then List.range' (i * p.geo.assoc) p.geo.assoc else []
      blks := fun f =>
        { tag := f % p.geo.assoc, set := f / p.geo.assoc, srcMasterId := invldMasterId }
      counters := fun _ => 0 }

theorem nodup_umon_init (p : CDynaParams) (i : Nat) : ((init p).umon.sets i).Nodup := by
  simp only [init]
  split
  · exact List.nodup_range'
  · exact List.nodup_nil

theorem set_umon_init {p : CDynaParams} {i f : Nat} (hf : f ∈ (init p).umon.sets i) :
    ((init p).umon.blks f).set = i := by
  simp only [init] at hf ⊢
  split at hf
  · rw [List.mem_range'_1] at hf
    exact Nat.div_eq_of_lt_le (by omega) (by rw [Nat.add_mul]; omega)
  · cases hf

/-- `C_DYNALRU::accessBlock` -/
def accessBlock (addr now tid : Nat) : Option (CDynaLru × Option Nat × Nat) :=
  match s.lru.accessBlock addr now tid with
  | none => none
  | some (lru, blk, lat) =>
    if tid = 0 then
      (s.umon.access s.lru.geo.assoc (s.lru.geo.extractSet addr) (s.lru.geo.extractTag addr)).map
        fun u => ({ s with lru := lru, umon := u }, blk, lat)
    else some ({ s with lru := lru }, blk, lat)

/-- `C_DYNALRU::invalidateBlk`; a call through the base class is `Lru.invalidateBlk`. -/
def invalidateBlk (f tid : Nat) : Option CDynaLru :=
  match s.lru.invalidateBlk f tid with
  | none => none
  | some lru =>
    (s.umon.invalidate (lru.blks f).set (lru.blks f).tag).map fun u => { s with lru := lru, umon := u }

/-! ## Resizing -/

/-- The first `n` entries of an array; fails when it is shorter. -/
def copyBlks (l : List Nat) (n : Nat) : Option (List Nat) := if n ≤ l.length then some (l.take n) else none

/-- One iteration of a resizing loop: set `i` of partition `tc` shrinks to `n`
ways, and its entry `n` becomes entry `m` of the set of partition `tc'`. -/
def moveWay (tc n tc' m : Nat) (lru : Lru) (i : Nat) : Option Lru :=
  match copyBlks (lru.sets tc' i) m, (lru.sets tc i)[n]?, copyBlks (lru.sets tc i) n with
  | some grown, some f, some shrunk => some ((lru.putSet i tc' (grown ++ [f])).putSet i tc shrunk)
  | _, _, _ => none

/-- What `inc_size` and `dec_size` do when the partitions get `l` and `h` ways; also returns
the number of sets changed.  Where `tc` has no way its new size has wrapped, and the loop
reads outside the arrays. -/
def resize (tc tc' l h : Nat) : Option (CDynaLru × Nat) :=
  if s.lru.assocOfTc tc = 0 then none
  else
    (loop (moveWay tc (assocOfTc l h tc) tc' (assocOfTc l h tc' - 1)) s.lru.geo.numSets
      { s.lru with assocOfTc := assocOfTc l h }).map fun lru => ({ s with lru := lru }, s.lru.geo.numSets)

/-- `inc_size` -/
def incSize : Option (CDynaLru × Nat) :=
  if s.hAssoc = s.hMin then some (s, 0) else s.resize 1 0 (s.lAssoc + 1) (s.hAssoc - 1)

/-- `dec_size` -/
def decSize : Option (CDynaLru × Nat) :=
  if s.lAssoc = 1 then some (s, 0) else s.resize 0 1 (s.lAssoc - 1) (s.hAssoc + 1)

/-- `get_evictBlk` -/
def getEvictBlk (tcid i : Nat) : Option Nat :=
  if tcid = 0 then (s.lru.sets 0 i)[s.lAssoc - 1]? else (s.lru.sets 1 i)[s.hAssoc - 1]?

/-- The tag part of one iteration of the loop in `C_DynamicCache::dec_size`: a
frame that came from Low is invalidated and given to High. -/
def evictSet (i : Nat) : Option CDynaLru :=
  match s.getEvictBlk 1 i with
  | none => none
  | some f =>
    if (s.lru.blks f).threadID = 0 then
      (s.lru.invalidateBlk f 1).map fun lru =>
        { s with lru := lru.putBlk f { lru.blks f with threadID := 1 } }
    else some s

/-- `dec_size` followed by the clean-up of `C_DynamicCache::dec_size`. -/
def decSizeClean : Option CDynaLru :=
  match s.decSize with
  | none => none
  | some (s', n) => loop evictSet n s'

/-! ## What resizing does to the lists -/

/-- In every set the last frame `fr i` of partition `tc` becomes the last frame of
partition `tc'`; nothing else changes. -/
structure Moved (lru lru' : Lru) (tc tc' : Nat) (fr : Nat → Nat) : Prop where
  geo : lru'.geo = lru.geo
  maxMasters : lru'.maxMasters = lru.maxMasters
  blks : lru'.blks = lru.blks
  shrunk : ∀ i < lru.geo.numSets, lru.sets tc i = lru'.sets tc i ++ [fr i]
  grown : ∀ i < lru.geo.numSets, lru'.sets tc' i = lru.sets tc' i ++ [fr i]
  rest : ∀ t i, (i < lru.geo.numSets → t ≠ tc ∧ t ≠ tc') → lru'.sets t i = lru.sets t i

theorem moveWay_eq {lru lru' : Lru} {tc n tc' m i : Nat} (hne : tc ≠ tc')
    (hn : (lru.sets tc i).length = n + 1) (hm : (lru.sets tc' i).length = m)
    (h : moveWay tc n tc' m lru i = some lru') :
    ∃ f, lru.sets tc i = lru'.sets tc i ++ [f] ∧ lru'.sets tc' i = lru.sets tc' i ++ [f] ∧
      (∀ t j, (j = i → t ≠ tc ∧ t ≠ tc') → lru'.sets t j = lru.sets t j) ∧
      lru'.geo = lru.geo ∧ lru'.maxMasters = lru.maxMasters ∧ lru'.blks = lru.blks ∧
      lru'.assocOfTc = lru.assocOfTc := by
  have hlt : n < (lru.sets tc i).length := by omega
  have hx : (lru.sets tc i)[n]? = some (lru.sets tc i)[n] := List.getElem?_eq_getElem hlt
  simp only [moveWay, copyBlks, hx, if_pos (show m ≤ (lru.sets tc' i).length by omega),
    if_pos (show n ≤ (lru.sets tc i).length by omega), Option.some.injEq] at h
  subst h
  refine ⟨(lru.sets tc i)[n], ?_, ?_, ?_, rfl, rfl, rfl, rfl⟩
  · simp only [putSet, Function.update_self]
    rw [List.take_append_getElem hlt, List.take_of_length_le (by omega)]
  · simp only [putSet]
    rw [Function.update_of_ne (Ne.symm hne), Function.update_self, Function.update_self,
      List.take_of_length_le (by omega)]
  · intro t j hj
    simp only [putSet]
    by_cases hji : j = i
    · obtain ⟨h1, h2⟩ := hj hji
      rw [Function.update_of_ne h1, Function.update_of_ne h2]
    · by_cases ht : t = tc
      · subst ht
        rw [Function.update_self, Function.update_of_ne hji, Function.update_of_ne hne]
      · rw [Function.update_of_ne ht]
        by_cases ht' : t = tc'
        · subst ht'
          rw [Function.update_self, Function.update_of_ne hji]
        · rw [Function.update_of_ne ht']

/-- The loop over the sets moves one frame in each. -/
theorem moved_of_loop {lru lru' : Lru} {tc n tc' m : Nat} (hne : tc ≠ tc')
    (hn : ∀ i < lru.geo.numSets, (lru.sets tc i).length = n + 1)
    (hm : ∀ i < lru.geo.numSets, (lru.sets tc' i).length = m)
    (h : loop (moveWay tc n tc' m) lru.geo.numSets lru = some lru') :
    (∃ fr, Moved lru lru' tc tc' fr) ∧ lru'.assocOfTc = lru.assocOfTc := by
  -- sets below the loop counter are done, the others untouched
  let P : Nat → Lru → Prop := fun k x =>
    (∃ fr : Nat → Nat, (∀ i < k, lru.sets tc i = x.sets tc i ++ [fr i]) ∧
      (∀ i < k, x.sets tc' i = lru.sets tc' i ++ [fr i])) ∧
    (∀ t i, (i < k → t ≠ tc ∧ t ≠ tc') → x.sets t i = lru.sets t i) ∧
    x.geo = lru.geo ∧ x.maxMasters = lru.maxMasters ∧ x.blks = lru.blks ∧
    x.assocOfTc = lru.assocOfTc
  have hP : P lru.geo.numSets lru' := by
    refine loop_invariant P (fun i x x' hi hx hb => ?_) ?_ h
    · obtain ⟨⟨fr, h1, h2⟩, h3, h4, h5, h6, h7⟩ := hx
      have hsame : ∀ t, x.sets t i = lru.sets t i := fun t => h3 t i (fun h => absurd h (by omega))
      obtain ⟨f, g1, g2, g3, g4, g5, g6, g7⟩ :=
        moveWay_eq hne (by rw [hsame, hn i hi]) (by rw [hsame, hm i hi]) hb
      refine ⟨⟨Function.update fr i f, ?_, ?_⟩, ?_, g4.trans h4, g5.trans h5, g6.trans h6,
        g7.trans h7⟩
      · intro j hj
        by_cases hji : j = i
        · subst hji
          rw [Function.update_self, ← g1, hsame]
        · rw [Function.update_of_ne hji, g3 tc j (fun h => absurd h hji)]
          exact h1 j (by omega)
      · intro j hj
        by_cases hji : j = i
        · subst hji
          rw [Function.update_self, g2, hsame]
        · rw [Function.update_of_ne hji, g3 tc' j (fun h => absurd h hji)]
          exact h2 j (by omega)
      · intro t j hj
        rw [g3 t j (fun h => hj (by omega)), h3 t j (fun h => hj (by omega))]
    · exact ⟨⟨fun _ => 0, by omega, by omega⟩, fun _ _ _ => rfl, rfl, rfl, rfl, rfl⟩
  obtain ⟨⟨fr, h1, h2⟩, h3, h4, h5, h6, h7⟩ := hP
  exact ⟨⟨fr, h4, h5, h6, h1, h2, h3⟩, h7⟩

namespace Moved

variable {lru lru' : Lru} {tc tc' : Nat} {fr : Nat → Nat}

theorem mem_cases (hM : Moved lru lru' tc tc' fr) {g t i : Nat} (h : g ∈ lru'.sets t i) :
    g ∈ lru.sets t i ∨ (t = tc' ∧ i < lru.geo.numSets ∧ g = fr i) := by
  by_cases hi : i < lru.geo.numSets
  · by_cases ht : t = tc
    · subst ht
      rw [hM.shrunk i hi]
      exact Or.inl (List.mem_append_left _ h)
    · by_cases ht' : t = tc'
      · subst ht'
        rw [hM.grown i hi, List.mem_append, List.mem_singleton] at h
        exact h.imp id fun hg => ⟨rfl, hi, hg⟩
      · rw [hM.rest t i fun _ => ⟨ht, ht'⟩] at h
        exact Or.inl h
  · rw [hM.rest t i fun h => absurd h hi] at h
    exact Or.inl h

theorem mem_fr (hM : Moved lru lru' tc tc' fr) {i : Nat} (hi : i < lru.geo.numSets) :
    fr i ∈ lru.sets tc i := by
  rw [hM.shrunk i hi]
  simp

theorem frames (hM : Moved lru lru' tc tc' fr) (hF : Frames 2 lru) (htc : tc + tc' = 1)
    (hs : lru'.assocOfTc tc + 1 = lru.assocOfTc tc) (hg : lru'.assocOfTc tc' = lru.assocOfTc tc' + 1) :
    Frames 2 lru' where
  nodup t i := by
    by_cases hi : i < lru.geo.numSets
    · by_cases ht : t = tc
      · subst ht
        have h := hF.nodup t i
        rw [hM.shrunk i hi] at h
        exact h.of_append_left
      · by_cases ht' : t = tc'
        · subst ht'
          rw [hM.grown i hi, List.nodup_append]
          refine ⟨hF.nodup t i, List.nodup_singleton _, fun a ha b hb hab => ?_⟩
          rw [List.mem_singleton] at hb
          subst hab
          rw [hb] at ha
          exact ht (hF.owner _ _ _ _ _ ha (hM.mem_fr hi)).1
        · rw [hM.rest t i fun _ => ⟨ht, ht'⟩]
          exact hF.nodup t i
    · rw [hM.rest t i fun h => absurd h hi]
      exact hF.nodup t i
  owner g t₁ i₁ t₂ i₂ h₁ h₂ := by
    -- a frame kept by the shrunk list is not the one that moved
    have hkept : ∀ t i j, g ∈ lru'.sets t i → g ∈ lru.sets t i → j < lru.geo.numSets → g = fr j → False := by
      intro t i j hg' hg hj hgj
      obtain ⟨rfl, rfl⟩ := hF.owner g t i tc j hg (hgj ▸ hM.mem_fr hj)
      have hn := hF.nodup t i
      rw [hM.shrunk i hj, List.nodup_append] at hn
      exact hn.2.2 g hg' (fr i) (List.mem_singleton_self _) hgj
    rcases hM.mem_cases h₁ with a | ⟨rfl, hi₁, hf₁⟩
    · rcases hM.mem_cases h₂ with b | ⟨rfl, hi₂, hf₂⟩
      · exact hF.owner g t₁ i₁ t₂ i₂ a b
      · exact (hkept t₁ i₁ i₂ h₁ a hi₂ hf₂).elim
    · rcases hM.mem_cases h₂ with b | ⟨rfl, hi₂, hf₂⟩
      · exact (hkept t₂ i₂ i₁ h₂ b hi₁ hf₁).elim
      · exact ⟨rfl, (hF.owner g tc i₁ tc i₂ (hf₁ ▸ hM.mem_fr hi₁) (hf₂ ▸ hM.mem_fr hi₂)).2⟩
  setOf g t i h := by
    rw [hM.blks]
    rcases hM.mem_cases h with a | ⟨-, hi, rfl⟩
    · exact hF.setOf g t i a
    · exact hF.setOf _ tc i (hM.mem_fr hi)
  len t i ht hi := by
    rw [hM.geo] at hi
    obtain rfl | rfl : t = tc ∨ t = tc' := by omega
    · have h := hF.len t i ht hi
      rw [hM.shrunk i hi, List.length_append, List.length_singleton] at h
      omega
    · have h := hF.len t i ht hi
      rw [hM.grown i hi, List.length_append, List.length_singleton]
      omega
  master g t i h hv := by
    rw [hM.blks] at hv ⊢
    rw [hM.maxMasters]
    rcases hM.mem_cases h with a | ⟨-, hi, rfl⟩
    · exact hF.master g t i a hv
    · exact hF.master _ tc i (hM.mem_fr hi) hv

end Moved

/-- One way of partition `tc` has gone to `tc'`. -/
structure Resizes (s s' : CDynaLru) (tc tc' : Nat) (fr : Nat → Nat) : Prop extends Moved s.lru s'.lru tc tc' fr where
  hMin : s'.hMin = s.hMin
  umon : s'.umon = s.umon
  shrinks : s'.lru.assocOfTc tc + 1 = s.lru.assocOfTc tc
  grows : s'.lru.assocOfTc tc' = s.lru.assocOfTc tc' + 1

section

variable {s s' : CDynaLru} {tc tc' l h n : Nat}

/-- The loop of a resizing, with the lengths that its iterations find. -/
theorem resize_lengths (hF : Frames 2 s.lru) (htc : tc + tc' = 1) (h0 : s.lru.assocOfTc tc ≠ 0)
    (hs : assocOfTc l h tc = s.lru.assocOfTc tc - 1) (hg : assocOfTc l h tc' = s.lru.assocOfTc tc' + 1) :
    (∀ i < s.lru.geo.numSets, (s.lru.sets tc i).length = assocOfTc l h tc + 1) ∧
      ∀ i < s.lru.geo.numSets, (s.lru.sets tc' i).length = assocOfTc l h tc' - 1 := by
  refine ⟨fun i hi => ?_, fun i hi => ?_⟩
  · rw [hF.len tc i (by omega) hi]
    omega
  · rw [hF.len tc' i (by omega) hi]
    omega

theorem resize_resizes (hF : Frames 2 s.lru) (htc : tc + tc' = 1)
    (hs : assocOfTc l h tc = s.lru.assocOfTc tc - 1) (hg : assocOfTc l h tc' = s.lru.assocOfTc tc' + 1)
    (hr : s.resize tc tc' l h = some (s', n)) : n = s.lru.geo.numSets ∧ ∃ fr, Resizes s s' tc tc' fr := by
  unfold resize at hr
  split at hr
  · cases hr
  · next h0 =>
    obtain ⟨lru, hl, he⟩ := Option.map_eq_some_iff.1 hr
    obtain ⟨rfl, rfl⟩ := Prod.mk.inj he
    obtain ⟨hn, hm⟩ := resize_lengths hF htc h0 hs hg
    have hL : (∃ fr, Moved { s.lru with assocOfTc := assocOfTc l h } lru tc tc' fr) ∧
        lru.assocOfTc = assocOfTc l h := moved_of_loop (by omega) hn hm hl
    obtain ⟨⟨fr, hM⟩, ha⟩ := hL
    refine ⟨rfl, fr, ⟨hM.1, hM.2, hM.3, hM.4, hM.5, hM.6⟩, rfl, rfl, ?_, ?_⟩
    · show lru.assocOfTc tc + 1 = _
      rw [ha, hs]
      omega
    · show lru.assocOfTc tc' = _
      rw [ha, hg]

theorem incSize_cases (hF : Frames 2 s.lru) (h : s.incSize = some (s', n)) :
    (s.hAssoc = s.hMin ∧ s' = s ∧ n = 0) ∨
      (s.hAssoc ≠ s.hMin ∧ n = s.lru.geo.numSets ∧ ∃ fr, Resizes s s' 1 0 fr) := by
  unfold incSize at h
  split at h
  · next he =>
    obtain ⟨rfl, rfl⟩ := Prod.mk.inj (Option.some.inj h)
    exact .inl ⟨he, rfl, rfl⟩
  · next he => exact .inr ⟨he, resize_resizes hF rfl rfl rfl h⟩

theorem decSize_cases (hF : Frames 2 s.lru) (h : s.decSize = some (s', n)) :
    (s.lAssoc = 1 ∧ s' = s ∧ n = 0) ∨
      (s.lAssoc ≠ 1 ∧ n = s.lru.geo.numSets ∧ ∃ fr, Resizes s s' 0 1 fr) := by
  unfold decSize at h
  split at h
  · next he =>
    obtain ⟨rfl, rfl⟩ := Prod.mk.inj (Option.some.inj h)
    exact .inl ⟨he, rfl, rfl⟩
  · next he => exact .inr ⟨he, resize_resizes hF rfl rfl rfl h⟩

end

/-- What the clean-up leaves in the frame that came last into a High list. -/
def evicted (b : CacheBlk) : CacheBlk :=
  if b.threadID = 0 then { invalidated b with threadID := 1 } else b

/-- The frame is the last of its list, so `moveToTail` leaves the list as it is. -/
theorem evictSet_upd {s s' : CDynaLru} {i : Nat} (hF : Frames 2 s.lru) (hi : i < s.lru.geo.numSets)
    (h : s.evictSet i = some s') :
    ∃ f, (s.lru.sets 1 i).getLast? = some f ∧ s'.hMin = s.hMin ∧ s'.umon = s.umon ∧
      Upd s.lru s'.lru 1 i (s.lru.sets 1 i) f (evicted (s.lru.blks f)) := by
  have hlast : s.getEvictBlk 1 i = (s.lru.sets 1 i).getLast? := by
    rw [getEvictBlk, if_neg (by omega), List.getLast?_eq_getElem?, hF.len 1 i (by omega) hi]
    rfl
  unfold evictSet at h
  rw [hlast] at h
  cases hl : (s.lru.sets 1 i).getLast? with
  | none => rw [hl] at h; cases h
  | some f =>
    rw [hl] at h
    obtain ⟨pre, hpre⟩ := List.getLast?_eq_some_iff.1 hl
    have hf : f ∈ s.lru.sets 1 i := by rw [hpre]; simp
    have hset : (s.lru.blks f).set = i := hF.setOf f 1 i hf
    simp only at h
    refine ⟨f, rfl, ?_⟩
    split at h
    · next h0 =>
      obtain ⟨lru, hv, rfl⟩ := Option.map_eq_some_iff.1 h
      have hu := invalidateBlk_upd (by rw [hset]; exact hF.nodup 1 i) (by rw [hset]; exact hf) hv
      rw [hset] at hu
      have hsame : (if (s.lru.blks f).isValid = true then toBack f (s.lru.sets 1 i) else s.lru.sets 1 i)
          = s.lru.sets 1 i := by
        have hb : toBack f (s.lru.sets 1 i) = s.lru.sets 1 i := by
          have := moveToTail_eq (hF.nodup 1 i) hf
          rw [moveToTail, if_pos hl] at this
          exact (Option.some.inj this).symm
        rw [hb, ite_self]
      rw [hsame] at hu
      refine ⟨rfl, rfl, hu.geo, hu.maxMasters, hu.assocOfTc, hu.sets, ?_⟩
      simp only [putBlk, hu.blks, Function.update_self, Function.update_idem, evicted, if_pos h0]
    · next h0 =>
      obtain rfl := Option.some.inj h
      refine ⟨rfl, rfl, rfl, rfl, rfl, ?_, ?_⟩
      · rw [Function.update_eq_self, Function.update_eq_self]
      · rw [evicted, if_neg h0, Function.update_eq_self]

/-! ## Operations -/

/-- The operations on the tag store.  `shadow` tells whether an invalidation is
`C_DYNALRU::invalidateBlk` or, as from a cache that holds the store as an `LRU`,
`LRU::invalidateBlk`. -/
inductive Op where
  | access (tid addr now : Nat)
  | fill (tid addr masterId now : Nat) (st : BlkStatus)
  | invalidate (tid addr : Nat) (shadow : Bool)
  | incSize
  | decSize
deriving DecidableEq

namespace Op

/-- Thread and address of an operation issued by a thread. -/
def request : Op → Option (Nat × Nat)
  | access tid addr _ => some (tid, addr)
  | fill tid addr _ _ _ => some (tid, addr)
  | invalidate tid addr _ => some (tid, addr)
  | incSize => none
  | decSize => none

/-- Operations of thread 0 and resizing operations. -/
def isLow (o : Op) : Bool :=
  match o.request with
  | some (tid, _) => tid == 0
  | none => true

end Op

/-- One operation; an access gives its hit/miss result. -/
def step (s : CDynaLru) : Op → Option (CDynaLru × Option Bool)
  | .access tid addr now => (s.accessBlock addr now tid).map fun r => (r.1, some r.2.1.isSome)
  | .fill tid addr masterId now st =>
    (s.lru.fill addr tid masterId now st).map fun r => ({ s with lru := r.1 }, none)
  | .invalidate tid addr shadow =>
    match s.lru.findBlock addr tid with
    | none => some (s, none)
    | some f =>
      if shadow then (s.invalidateBlk f tid).map fun s' => (s', none)
      else (s.lru.invalidateBlk f tid).map fun lru => ({ s with lru := lru }, none)
  | .incSize => s.incSize.map fun r => (r.1, none)
  | .decSize => s.decSizeClean.map fun s' => (s', none)

end CDynaLru

end DynamicCache.Tags
