import DynamicCache.Tags.Lru
import Mathlib.Data.List.InsertIdx

/-!
# Frames and slots of a partitioned tag store

A partitioned store gives every frame to one set of one partition.  `Frames`
is the invariant that says so.  It is kept by every update that permutes the
list of the updated frame (`Frames.upd`), and it is why an operation of one
partition is unseen by the others: the slots of every other list, that is what
a view of blocks shows of its frames, stay the same (`slots_other`).  On the
list it works on, an operation does to the slots what `Lib.ListMove` calls
`touch`, `load` and `clear` (`slots_hit`, `slots_fill`, `slots_invalidate`,
`slots_invalidateAt`).
-/

namespace DynamicCache.Tags

namespace Lru

open Lib

variable {addr f tid x : Nat} {s : Lru}

/-! ## Allocation of a block -/

/-- The frame after `insertBlock` and marking valid. -/
def filled (b : CacheBlk) (tag masterId tid : Nat) (st : BlkStatus) : CacheBlk :=
  { inserted b tag masterId tid with status := { st with valid := true } }

/-- `findVictim`, then `insertBlock` into the victim's frame, then the status that the
caller sets; also returns the frame. -/
def fillWith (s : Lru) (addr tid masterId now : Nat) (st : BlkStatus) : Option (Lru × Nat) :=
  match s.findVictim addr tid with
  | none => none
  | some f =>
    (s.insertBlock addr f masterId tid now).map fun s' => (s'.putBlk f { s'.blks f with status := st }, f)

/-- The same with a block that is marked as valid. -/
def fill (s : Lru) (addr tid masterId now : Nat) (st : BlkStatus) : Option (Lru × Nat) :=
  s.fillWith addr tid masterId now { st with valid := true }

theorem mem_of_findVictim (h : s.findVictim addr tid = some f) : f ∈ s.sets tid (s.geo.extractSet addr) := by
  unfold findVictim at h
  split at h
  · cases h
  · exact List.mem_of_getElem? h

theorem findVictim_eq_getLast? (h : (s.sets tid (s.geo.extractSet addr)).length = s.assocOfTc tid) :
    s.findVictim addr tid = (s.sets tid (s.geo.extractSet addr)).getLast? := by
  unfold findVictim getSet
  rw [← h, List.getLast?_eq_getElem?]
  split
  · next h0 =>
    rw [List.length_eq_zero_iff.1 h0]
    rfl
  · rfl

theorem fillWith_upd {s' : Lru} {masterId now : Nat} {st : BlkStatus}
    (h : s.fillWith addr tid masterId now st = some (s', f)) :
    s.findVictim addr tid = some f ∧ f ∈ s.sets tid (s.geo.extractSet addr) ∧
      masterId < s.maxMasters ∧
      Upd s s' tid (s.geo.extractSet addr) (toFront f (s.sets tid (s.geo.extractSet addr))) f
        { inserted (s.blks f) (s.geo.extractTag addr) masterId tid with status := st } := by
  unfold fillWith at h
  split at h
  · cases h
  · next f' hv =>
    obtain ⟨s₁, hs, he⟩ := Option.map_eq_some_iff.1 h
    obtain ⟨rfl, rfl⟩ := Prod.mk.inj he
    obtain ⟨hm, hf, hu⟩ := insertBlock_upd hs
    refine ⟨hv, hf, hm, hu.geo, hu.maxMasters, hu.assocOfTc, hu.sets, ?_⟩
    simp only [putBlk, hu.blks, Function.update_self, Function.update_idem]

theorem fill_upd {s' : Lru} {masterId now : Nat} {st : BlkStatus}
    (h : s.fill addr tid masterId now st = some (s', f)) :
    s.findVictim addr tid = some f ∧ f ∈ s.sets tid (s.geo.extractSet addr) ∧
      masterId < s.maxMasters ∧
      Upd s s' tid (s.geo.extractSet addr) (toFront f (s.sets tid (s.geo.extractSet addr))) f
        (filled (s.blks f) (s.geo.extractTag addr) masterId tid st) :=
  fillWith_upd h

/-! ## The frames of the partitions -/

/-- No list has a frame twice. -/
def Nodup (s : Lru) : Prop := ∀ t i, (s.sets t i).Nodup

/-- Every frame is in one list, once; the lists of the first `n` partitions have
`assoc_of_tc` frames; a valid block was brought in by a known master. -/
structure Frames (n : Nat) (s : Lru) : Prop where
  nodup : ∀ t i, (s.sets t i).Nodup
  owner : ∀ f t i t' i', f ∈ s.sets t i → f ∈ s.sets t' i' → t = t' ∧ i = i'
  setOf : ∀ f t i, f ∈ s.sets t i → (s.blks f).set = i
  len : ∀ t i, t < n → i < s.geo.numSets → (s.sets t i).length = s.assocOfTc t
  master : ∀ f t i, f ∈ s.sets t i → (s.blks f).isValid = true → (s.blks f).srcMasterId < s.maxMasters

section

variable {n : Nat} {s s' : Lru} {t i f : Nat} {l : List Nat} {b : CacheBlk}

theorem Upd.mem_iff (hu : Upd s s' t i l f b) (hp : l.Perm (s.sets t i)) (g t' i' : Nat) :
    g ∈ s'.sets t' i' ↔ g ∈ s.sets t' i' := by
  rw [hu.sets_apply]
  split
  · next h => rw [h.1, h.2]; exact hp.mem_iff
  · rfl

theorem Frames.upd (hF : Frames n s) (hu : Upd s s' t i l f b) (hp : l.Perm (s.sets t i))
    (hset : b.set = (s.blks f).set)
    (hm : b.isValid = true → b.srcMasterId < s.maxMasters) : Frames n s' where
  nodup t' i' := by
    rw [hu.sets_apply]
    split
    · exact hp.nodup_iff.2 (hF.nodup t i)
    · exact hF.nodup t' i'
  owner g t₁ i₁ t₂ i₂ h₁ h₂ :=
    hF.owner g t₁ i₁ t₂ i₂ ((hu.mem_iff hp g t₁ i₁).1 h₁) ((hu.mem_iff hp g t₂ i₂).1 h₂)
  setOf g t' i' h := by
    have h := hF.setOf g t' i' ((hu.mem_iff hp g t' i').1 h)
    rw [hu.blks_apply]
    split
    · next hg => rw [hset, ← hg, h]
    · exact h
  len t' i' ht hi := by
    rw [hu.sets_apply, hu.assocOfTc]
    rw [hu.geo] at hi
    split
    · next h => rw [hp.length_eq, ← h.1, hF.len t' i (h.1 ▸ ht) (h.2 ▸ hi)]
    · exact hF.len t' i' ht hi
  master g t' i' h hv := by
    rw [hu.maxMasters]
    rw [hu.blks_apply] at hv ⊢
    split at hv
    · next hg => rw [if_pos hg]; exact hm hv
    · next hg =>
      rw [if_neg hg]
      exact hF.master g t' i' ((hu.mem_iff hp g t' i').1 h) hv

/-! ## Slots -/

/-- What view `v` shows of the frames of a list. -/
def slots (v : CacheBlk → Option Nat) (s : Lru) (t i : Nat) : List (Option Nat) :=
  (s.sets t i).map fun g => v (s.blks g)

variable {v : CacheBlk → Option Nat}

theorem slots_congr (hs : s'.sets = s.sets) (hb : s'.blks = s.blks) (t' i' : Nat) :
    slots v s' t' i' = slots v s t' i' := by
  unfold slots
  rw [hs, hb]

theorem slots_other (hF : Frames n s) (hu : Upd s s' t i l f b) (hf : f ∈ s.sets t i)
    {t' i' : Nat} (hne : ¬(t' = t ∧ i' = i)) : slots v s' t' i' = slots v s t' i' := by
  unfold slots
  rw [hu.sets_apply, if_neg hne]
  refine List.map_congr_left fun g hg => ?_
  have hgf : g ≠ f := by
    rintro rfl
    exact hne (hF.owner g t' i' t i hg hf)
  rw [hu.blks_apply, if_neg hgf]

/-- The view shows `x` exactly where the search for `tag` would stop. -/
def Shows (v : CacheBlk → Option Nat) (s : Lru) (t i tag x : Nat) : Prop :=
  ∀ g ∈ s.sets t i, holds s.blks tag g = true ↔ v (s.blks g) = some x

theorem findBlock_eq_none_iff (hv : Shows v s t (s.geo.extractSet addr) (s.geo.extractTag addr) x) :
    s.findBlock addr t = none ↔ some x ∉ slots v s t (s.geo.extractSet addr) :=
  find?_eq_none_iff_view hv

theorem slots_hit (hv : Shows v s t (s.geo.extractSet addr) (s.geo.extractTag addr) x)
    (hf : s.findBlock addr t = some f) (hb : v b = v (s.blks f))
    (hu : Upd s s' t (s.geo.extractSet addr) (toFront f (s.sets t (s.geo.extractSet addr))) f b) :
    slots v s' t (s.geo.extractSet addr) = touch x (slots v s t (s.geo.extractSet addr)) := by
  unfold slots
  rw [← map_toFront_of_find? hv hf, hu.sets_apply, if_pos ⟨rfl, rfl⟩]
  refine List.map_congr_left fun g _ => ?_
  rw [hu.blks_apply]
  split
  · next hg => rw [hb, hg]
  · rfl

theorem slots_fill (hl : (s.sets t i).Nodup) (hf : (s.sets t i).getLast? = some f) (hb : v b = some x)
    (hu : Upd s s' t i (toFront f (s.sets t i)) f b) : slots v s' t i = load x (slots v s t i) := by
  have hne : s.sets t i ≠ [] := by
    intro h0
    rw [h0] at hf
    cases hf
  rw [List.getLast?_eq_some_getLast hne, Option.some.injEq] at hf
  subst hf
  unfold slots
  rw [hu.sets_apply, if_pos ⟨rfl, rfl⟩]
  refine map_toFront_load hl hne (fun g hg => ?_) ?_
  · rw [hu.blks_apply, if_neg hg]
  · rw [hu.blks_apply, if_pos rfl, hb]

theorem slots_invalidate (hl : (s.sets t (s.geo.extractSet addr)).Nodup)
    (hv : Shows v s t (s.geo.extractSet addr) (s.geo.extractTag addr) x) (hf : s.findBlock addr t = some f)
    (hb : v b = none)
    (hu : Upd s s' t (s.geo.extractSet addr) (toBack f (s.sets t (s.geo.extractSet addr))) f b) :
    slots v s' t (s.geo.extractSet addr) = clear x (slots v s t (s.geo.extractSet addr)) := by
  unfold slots
  rw [hu.sets_apply, if_pos ⟨rfl, rfl⟩]
  refine map_toBack_clear hl hv hf (fun g hg => ?_) ?_
  · rw [hu.blks_apply, if_neg hg]
  · rw [hu.blks_apply, if_pos rfl, hb]

/-- Invalidation of the valid block at position `k`. -/
theorem slots_invalidateAt {k : Nat} (hl : (s.sets t i).Nodup) (hf : (s.sets t i)[k]? = some f)
    (hb : v b = none) (hu : Upd s s' t i (toBack f (s.sets t i)) f b) :
    slots v s' t i = (slots v s t i).eraseIdx k ++ [none] := by
  obtain ⟨hk, hf'⟩ := List.getElem?_eq_some_iff.1 hf
  unfold slots
  rw [hu.sets_apply, if_pos ⟨rfl, rfl⟩, toBack, List.map_append, List.map_singleton, hu.blks_apply,
    if_pos rfl, hb]
  have hv : ∀ g, g ≠ f → v (s'.blks g) = v (s.blks g) := fun g hg => by rw [hu.blks_apply, if_neg hg]
  rw [map_erase_congr hl hv, ← hf', hl.erase_getElem k hk, List.eraseIdx_map]

end

end Lru

end DynamicCache.Tags
