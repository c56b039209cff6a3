import DynamicCache.Tags.CDynaLru
import DynamicCache.Lib.StackDistance
import DynamicCache.Lib.TrueLru

/-!
# What the utility monitor measures

The shadow tags of a set are the recency list of an `assoc`-way array that is
fed the accesses of thread 0, and the counters count its hits by place: the
monitor follows a `Lib.Stack` (`Follows.access`, `Follows.reset`).  So the first
`k` counters add up to the hits that `k` ways would have had
(`umon_counts_lru_hits`).
-/

namespace DynamicCache.Tags

open Lib Lru

namespace Umon

/-- The tag that a shadow frame shows. -/
def shown (u : Umon) (f : Nat) : Option Nat := if (u.blks f).isValid then some (u.blks f).tag else none

theorem holds_iff_shown (u : Umon) (tag f : Nat) : holds u.blks tag f = true ↔ u.shown f = some tag := holds_iff

/-- The monitor of a store with `numSets` sets keeps the tags and counts of `st`. -/
structure Follows (assoc numSets : Nat) (u : Umon) (st : Stack Nat Nat) : Prop where
  nodup : ∀ i, (u.sets i).Nodup
  owner : ∀ f i j, f ∈ u.sets i → f ∈ u.sets j → i = j
  packs : ∀ i < numSets, Packs assoc ((u.sets i).map u.shown) (st.sets i)
  counts : ∀ d < assoc, u.counters d = st.counts d

variable {assoc numSets : Nat} {u : Umon} {st : Stack Nat Nat}

/-- The place of a tag among the slots is its place among the tags. -/
theorem findBlkIndex_eq {i tag : Nat} {l : List Nat} (h : Packs assoc ((u.sets i).map u.shown) l) (ht : tag ∈ l) :
    findBlkIndex u.blks (u.sets i) tag = l.idxOf tag := by
  have hview : holds u.blks tag = fun f => u.shown f == some tag := by
    funext f
    rw [Bool.eq_iff_iff, holds_iff_shown, beq_iff_eq]
  have hidx : l.findIdx? (· == tag) = some (l.idxOf tag) := by
    rw [List.findIdx?_eq_some_iff_findIdx_eq]
    exact ⟨List.idxOf_lt_length_iff.2 ht, rfl⟩
  have hmap : (l.map some).findIdx? (· == some tag) = l.findIdx? (· == tag) := by
    rw [List.findIdx?_map]
    rfl
  have hslots : (u.sets i).findIdx? (holds u.blks tag) = ((u.sets i).map u.shown).findIdx? (· == some tag) := by
    rw [hview, List.findIdx?_map]
    rfl
  rw [findBlkIndex, hslots, h.2, List.findIdx?_append, hmap, hidx]
  rfl

/-- Putting a frame of a set first moves no frame between sets. -/
theorem mem_update {i j f g : Nat} (hf : f ∈ u.sets i) :
    g ∈ Function.update u.sets i (toFront f (u.sets i)) j ↔ g ∈ u.sets j := by
  rw [Function.update_apply]
  split
  · next he => rw [he, (toFront_perm hf).mem_iff]
  · rfl

theorem Follows.nodup_update {i f : Nat} (h : Follows assoc numSets u st) (hf : f ∈ u.sets i) (j : Nat) :
    (Function.update u.sets i (toFront f (u.sets i)) j).Nodup := by
  rw [Function.update_apply]
  split
  · exact (toFront_perm hf).nodup_iff.2 (h.nodup i)
  · exact h.nodup j

/-- A hit: the shadow tag comes first and its place is counted. -/
theorem Follows.access_hit {i tag f : Nat} (h : Follows assoc numSets u st) (hi : i < numSets)
    (hf : findBlk u.blks (u.sets i) tag = some f) :
    ∃ u', u.access assoc i tag = some u' ∧ Follows assoc numSets u' (st.step assoc (.access i tag)) := by
  have hp := h.packs i hi
  have hm : tag ∈ st.sets i := by
    rw [← hp.mem_iff, List.mem_map]
    exact ⟨f, mem_of_findBlk hf, (holds_iff_shown u tag f).1 (List.find?_some hf)⟩
  have hfits : lruAccess assoc tag (st.sets i) = toFront tag (st.sets i) := by
    refine List.take_of_length_le ?_
    rw [(toFront_perm hm).length_eq]
    exact hp.1
  simp only [access, hf, moveToHead_eq (mem_of_findBlk hf), Option.map_some]
  refine ⟨_, rfl, h.nodup_update (mem_of_findBlk hf), fun g j j' h1 h2 => ?_, fun j hj => ?_, fun d hd => ?_⟩
  · exact h.owner g j j' ((mem_update (mem_of_findBlk hf)).1 h1) ((mem_update (mem_of_findBlk hf)).1 h2)
  · show Packs assoc ((Function.update u.sets i (toFront f (u.sets i)) j).map u.shown)
      (Function.update st.sets i (lruAccess assoc tag (st.sets i)) j)
    rw [Function.update_apply, Function.update_apply]
    split
    · rw [hfits, map_toFront_of_find? (fun g _ => holds_iff_shown u tag g) hf]
      exact hp.touch hm
    · exact h.packs j hj
  · have hd' : (st.sets i).idxOf tag < assoc := Nat.lt_of_lt_of_le (List.idxOf_lt_length_iff.2 hm) hp.1
    simp only [Stack.step, if_pos hm, findBlkIndex_eq hp hm, Function.update_apply, h.counts _ hd', h.counts d hd]

/-- A miss: the last shadow frame takes the tag. -/
theorem Follows.access_miss {i tag : Nat} (h : Follows assoc numSets u st) (hi : i < numSets) (ha : 0 < assoc)
    (hf : findBlk u.blks (u.sets i) tag = none) :
    ∃ u', u.access assoc i tag = some u' ∧ Follows assoc numSets u' (st.step assoc (.access i tag)) := by
  have hp := h.packs i hi
  have hm : tag ∉ st.sets i := by
    rw [← hp.mem_iff, List.mem_map]
    rintro ⟨f, hfm, hs⟩
    exact List.find?_eq_none.1 hf f hfm ((holds_iff_shown u tag f).2 hs)
  have hlen : (u.sets i).length = assoc := by
    have := congrArg List.length hp.2
    simp only [List.length_map, List.length_append, List.length_replicate] at this
    have := hp.1
    omega
  have hne : u.sets i ≠ [] := by
    intro he
    rw [he] at hlen
    exact absurd hlen (by simp; omega)
  have hlast : (u.sets i)[assoc - 1]? = some ((u.sets i).getLast hne) := by
    rw [← hlen, ← List.getLast?_eq_getElem?, List.getLast?_eq_some_getLast hne]
  have hfits : lruAccess assoc tag (st.sets i) =
      tag :: if (st.sets i).length < assoc then st.sets i else (st.sets i).dropLast := by
    rw [lruAccess, toFront, List.erase_of_not_mem hm]
    obtain ⟨n, rfl⟩ : ∃ n, assoc = n + 1 := ⟨assoc - 1, by omega⟩
    rw [List.take_succ_cons]
    split
    · next hlt => rw [List.take_of_length_le (by omega)]
    · next hge =>
      have hle := hp.1
      rw [List.dropLast_eq_take]
      congr 2
      omega
  generalize hg : (u.sets i).getLast hne = f at hlast
  have hfm : f ∈ u.sets i := hg ▸ List.getLast_mem hne
  simp only [access, hf, hlast, moveToHead_eq hfm, Option.map_some]
  refine ⟨_, rfl, h.nodup_update hfm, fun g j j' h1 h2 => ?_, fun j hj => ?_, fun d hd => ?_⟩
  · exact h.owner g j j' ((mem_update hfm).1 h1) ((mem_update hfm).1 h2)
  · let u' : Umon :=
      { u with
        blks := Function.update u.blks f { u.blks f with tag := tag, status := inUse }
        sets := Function.update u.sets i (toFront f (u.sets i)) }
    have hother : ∀ g, g ≠ f → u'.shown g = u.shown g := fun g hg => by
      simp [u', shown, Function.update_of_ne hg]
    have hself : u'.shown f = some tag := by
      simp [u', shown, CacheBlk.isValid, inUse]
    show Packs assoc ((Function.update u.sets i (toFront f (u.sets i)) j).map u'.shown)
      (Function.update st.sets i (lruAccess assoc tag (st.sets i)) j)
    rw [Function.update_apply, Function.update_apply]
    split
    · subst hg
      rw [hfits, map_toFront_load (h.nodup i) hne hother hself]
      exact hp.load ha
    · next hji =>
      have hview : (u.sets j).map u'.shown = (u.sets j).map u.shown := by
        refine List.map_congr_left fun g hgm => hother g fun he => ?_
        subst he
        exact hji (h.owner g j i hgm hfm)
      rw [hview]
      exact h.packs j hj
  · simp only [Stack.step, if_neg hm, h.counts d hd]

theorem Follows.access {i tag : Nat} (h : Follows assoc numSets u st) (hi : i < numSets) (ha : 0 < assoc) :
    ∃ u', u.access assoc i tag = some u' ∧ Follows assoc numSets u' (st.step assoc (.access i tag)) := by
  cases hf : findBlk u.blks (u.sets i) tag with
  | some f => exact h.access_hit hi hf
  | none => exact h.access_miss hi ha hf

theorem Follows.reset (h : Follows assoc numSets u st) :
    Follows assoc numSets (u.reset assoc) (st.step assoc .reset) where
  nodup := h.nodup
  owner := h.owner
  packs := h.packs
  counts _ hd := if_pos hd

theorem follows_init (p : CDynaParams) :
    Follows p.geo.assoc p.geo.numSets (CDynaLru.init p).umon Stack.empty where
  nodup i := by
    show (if i < p.geo.numSets then List.range' (i * p.geo.assoc) p.geo.assoc else []).Nodup
    split
    · exact List.nodup_range'
    · exact List.nodup_nil
  owner f i j hi hj := by
    -- the set of a frame is its number divided by the associativity
    have key : ∀ i, f ∈ (CDynaLru.init p).umon.sets i → f / p.geo.assoc = i := by
      intro i hi
      replace hi : f ∈ if i < p.geo.numSets then List.range' (i * p.geo.assoc) p.geo.assoc else [] := hi
      split at hi
      · rw [List.mem_range'_1] at hi
        rw [Nat.div_eq_iff (by omega)]
        omega
      · cases hi
    rw [← key i hi, key j hj]
  packs i hi := by
    have hs : (CDynaLru.init p).umon.sets i = List.range' (i * p.geo.assoc) p.geo.assoc := if_pos hi
    have hn : ((CDynaLru.init p).umon.sets i).map (CDynaLru.init p).umon.shown =
        List.replicate p.geo.assoc none := by
      rw [hs, List.eq_replicate_iff]
      refine ⟨by simp, fun b hb => ?_⟩
      obtain ⟨f, -, rfl⟩ := List.mem_map.1 hb
      rfl
    rw [hn]
    exact packs_nil _
  counts _ _ := rfl

end Umon

/-! ## Whole runs -/

namespace CDynaLru

variable {s : CDynaLru}

/-- The calls that the monitor takes part in. -/
inductive UmonOp where
  | accessBlock (addr now tid : Nat)
  | resetUmon

def umonStep (s : CDynaLru) : UmonOp → Option CDynaLru
  | .accessBlock addr now tid => (s.accessBlock addr now tid).map Prod.fst
  | .resetUmon => some { s with umon := s.umon.reset s.lru.geo.assoc }

/-- What a call is to a tag array that sees thread 0 only. -/
def lowEvent (g : Geometry) : UmonOp → List (Event Nat Nat)
  | .accessBlock addr _ tid => if tid = 0 then [.access (g.extractSet addr) (g.extractTag addr)] else []
  | .resetUmon => [.reset]

theorem lru_accessBlock_geo (lru : Lru) (addr now tid : Nat) :
    ∃ lru' r, lru.accessBlock addr now tid = some (lru', r) ∧ lru'.geo = lru.geo := by
  cases hf : lru.findBlock addr tid with
  | some f =>
    obtain ⟨lru', hl, hu⟩ := accessBlock_hit now hf
    exact ⟨lru', _, hl, hu.geo⟩
  | none =>
    obtain ⟨lru', hl, hg, -⟩ := accessBlock_miss now hf
    exact ⟨lru', _, hl, hg⟩

/-- One call: the monitor follows what it is to the array. -/
theorem umonStep_follows {g : Geometry} {es : List (Event Nat Nat)} (hg : s.lru.geo = g)
    (h : Umon.Follows g.assoc g.numSets s.umon (Stack.run g.assoc es)) (op : UmonOp) :
    ∃ s', s.umonStep op = some s' ∧ s'.lru.geo = g ∧
      Umon.Follows g.assoc g.numSets s'.umon (Stack.run g.assoc (es ++ lowEvent g op)) := by
  cases op with
  | resetUmon =>
    refine ⟨_, rfl, hg, ?_⟩
    rw [lowEvent, Stack.run_concat, hg]
    exact h.reset
  | accessBlock addr now tid =>
    obtain ⟨lru', ⟨blk, lat⟩, hl, hg'⟩ := lru_accessBlock_geo s.lru addr now tid
    simp only [umonStep, accessBlock, lowEvent, hl, hg]
    by_cases ht : tid = 0
    · obtain ⟨u', hu, hu'⟩ := h.access (g.extractSet_lt addr) g.assoc_pos
      rw [if_pos ht, if_pos ht, hu, Stack.run_concat]
      exact ⟨_, rfl, hg'.trans hg, hu'⟩
    · rw [if_neg ht, if_neg ht, List.append_nil]
      exact ⟨_, rfl, hg'.trans hg, h⟩

theorem umonSteps_follow {g : Geometry} (ops : List UmonOp) {s : CDynaLru} {es : List (Event Nat Nat)}
    (hg : s.lru.geo = g) (h : Umon.Follows g.assoc g.numSets s.umon (Stack.run g.assoc es)) :
    ∃ s', ops.foldlM umonStep s = some s' ∧
      Umon.Follows g.assoc g.numSets s'.umon (Stack.run g.assoc (es ++ ops.flatMap (lowEvent g))) := by
  induction ops generalizing s es with
  | nil => exact ⟨s, rfl, by simpa using h⟩
  | cons op ops ih =>
    obtain ⟨s₁, h1, hg₁, hf₁⟩ := umonStep_follows hg h op
    obtain ⟨s', h2, hf⟩ := ih hg₁ hf₁
    refine ⟨s', ?_, ?_⟩
    · rw [List.foldlM_cons, h1]
      exact h2
    · rw [List.flatMap_cons, ← List.append_assoc]
      exact hf

/-- The counters are hits by stack distance: after any calls, the first `k` add up
to the hits of thread 0 in a `k`-way array since the last reset. -/
theorem umon_counts_lru_hits (p : CDynaParams) (ops : List UmonOp) :
    ∃ s, ops.foldlM umonStep (init p) = some s ∧ ∀ k ≤ p.geo.assoc,
      ∑ i ∈ Finset.range k, s.umon.counters i = (TagArray.run k (ops.flatMap (lowEvent p.geo))).hits := by
  have h0 : Umon.Follows p.geo.assoc p.geo.numSets (init p).umon (Stack.run p.geo.assoc []) := Umon.follows_init p
  obtain ⟨s, hs, hf⟩ := umonSteps_follow ops (s := init p) rfl h0
  refine ⟨s, hs, fun k hk => ?_⟩
  rw [← Stack.sum_counts hk]
  exact Finset.sum_congr rfl fun d hd => hf.counts d (Nat.lt_of_lt_of_le (Finset.mem_range.1 hd) hk)

end CDynaLru

end DynamicCache.Tags
