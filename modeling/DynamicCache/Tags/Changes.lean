import DynamicCache.Tags.Frames

/-!
# How a tag store changes

Whatever a cache does to its tag store is made of two kinds of changes.
`Quiet` ones reorder lists and take validity away; `Inserted` is the one that
brings a block in.  Both keep `Frames`.  `Unique R` says that no two frames of
partitions related by `R` hold the same block: a quiet change keeps it
(`Quiet.unique`), an insertion keeps it when no other copy is left
(`Inserted.unique`).
-/

namespace DynamicCache.Tags

namespace Lru

open Lib

/-- Lists are reordered, blocks keep their place and tag, none becomes valid. -/
structure Quiet (s s' : Lru) : Prop where
  geo : s'.geo = s.geo
  maxMasters : s'.maxMasters = s.maxMasters
  assocOfTc : s'.assocOfTc = s.assocOfTc
  perm : ∀ t i, (s'.sets t i).Perm (s.sets t i)
  tag : ∀ f, (s'.blks f).tag = (s.blks f).tag
  set : ∀ f, (s'.blks f).set = (s.blks f).set
  threadID : ∀ f, (s'.blks f).threadID = (s.blks f).threadID
  touched : ∀ f, (s'.blks f).isValid = true → (s.blks f).isTouched = true → (s'.blks f).isTouched = true
  valid : ∀ f, (s'.blks f).isValid = true →
    (s.blks f).isValid = true ∧ (s'.blks f).srcMasterId = (s.blks f).srcMasterId

/-- Frame `f` of partition `t` was given to the block of `addr`; its status is
left to the caller. -/
structure Inserted (s s' : Lru) (t addr f : Nat) : Prop where
  geo : s'.geo = s.geo
  maxMasters : s'.maxMasters = s.maxMasters
  assocOfTc : s'.assocOfTc = s.assocOfTc
  perm : ∀ t i, (s'.sets t i).Perm (s.sets t i)
  mem : f ∈ s.sets t (s.geo.extractSet addr)
  other : ∀ g, g ≠ f → s'.blks g = s.blks g
  tag : (s'.blks f).tag = s.geo.extractTag addr
  set : (s'.blks f).set = (s.blks f).set
  threadID : (s'.blks f).threadID = t
  touched : (s'.blks f).isTouched = true
  master : (s'.blks f).srcMasterId < s.maxMasters

/-- Related partitions hold no block twice. -/
def Unique (R : Nat → Nat → Prop) (s : Lru) : Prop :=
  ∀ t t' i f g, R t t' → f ∈ s.sets t i → g ∈ s.sets t' i → (s.blks f).isValid = true →
    (s.blks g).isValid = true → (s.blks f).tag = (s.blks g).tag → f = g

variable {n t i f addr : Nat} {s s' s'' : Lru} {R : Nat → Nat → Prop}

theorem blks_putBlk (s : Lru) (f g : Nat) (b : CacheBlk) :
    (s.putBlk f b).blks g = if g = f then b else s.blks g := by
  simp [putBlk, Function.update_apply]

/-! ## Quiet changes -/

namespace Quiet

theorem refl (s : Lru) : Quiet s s :=
  ⟨rfl, rfl, rfl, fun _ _ => .refl _, fun _ => rfl, fun _ => rfl, fun _ => rfl, fun _ _ h => h, fun _ h => ⟨h, rfl⟩⟩

theorem trans (h : Quiet s s') (h' : Quiet s' s'') : Quiet s s'' where
  geo := h'.geo.trans h.geo
  maxMasters := h'.maxMasters.trans h.maxMasters
  assocOfTc := h'.assocOfTc.trans h.assocOfTc
  perm t i := (h'.perm t i).trans (h.perm t i)
  tag f := (h'.tag f).trans (h.tag f)
  set f := (h'.set f).trans (h.set f)
  threadID f := (h'.threadID f).trans (h.threadID f)
  touched f hv ht := h'.touched f hv (h.touched f (h'.valid f hv).1 ht)
  valid f hv := by
    obtain ⟨h1, h2⟩ := h'.valid f hv
    obtain ⟨h3, h4⟩ := h.valid f h1
    exact ⟨h3, h2.trans h4⟩

/-- An update of one list and one frame. -/
theorem of_upd {l : List Nat} {b : CacheBlk} (hu : Upd s s' t i l f b) (hp : l.Perm (s.sets t i))
    (ht : b.tag = (s.blks f).tag) (hs : b.set = (s.blks f).set) (hi : b.threadID = (s.blks f).threadID)
    (hu' : b.isValid = true → (s.blks f).isTouched = true → b.isTouched = true)
    (hv : b.isValid = true → (s.blks f).isValid = true ∧ b.srcMasterId = (s.blks f).srcMasterId) :
    Quiet s s' where
  geo := hu.geo
  maxMasters := hu.maxMasters
  assocOfTc := hu.assocOfTc
  perm t' i' := by
    rw [hu.sets_apply]
    split
    · next h => rw [h.1, h.2]; exact hp
    · exact .refl _
  tag g := by
    rw [hu.blks_apply]
    split
    · next h => rw [ht, h]
    · rfl
  set g := by
    rw [hu.blks_apply]
    split
    · next h => rw [hs, h]
    · rfl
  threadID g := by
    rw [hu.blks_apply]
    split
    · next h => rw [hi, h]
    · rfl
  touched g h ht := by
    rw [hu.blks_apply] at h ⊢
    split at h
    · next hg => rw [if_pos hg]; exact hu' h (hg ▸ ht)
    · next hg => rw [if_neg hg]; exact ht
  valid g h := by
    rw [hu.blks_apply] at h ⊢
    split at h
    · next hg => rw [if_pos hg, hg]; exact hv h
    · next hg => rw [if_neg hg]; exact ⟨h, rfl⟩

/-- An update of one frame. -/
theorem putBlk {b : CacheBlk} (ht : b.tag = (s.blks f).tag) (hs : b.set = (s.blks f).set)
    (hi : b.threadID = (s.blks f).threadID)
    (hu : b.isValid = true → (s.blks f).isTouched = true → b.isTouched = true)
    (hv : b.isValid = true → (s.blks f).isValid = true ∧ b.srcMasterId = (s.blks f).srcMasterId) :
    Quiet s (s.putBlk f b) :=
  of_upd (t := 0) (i := 0) (l := s.sets 0 0) ⟨rfl, rfl, rfl, by simp [Lru.putBlk], rfl⟩ (.refl _) ht hs hi hu hv

theorem mem_iff (h : Quiet s s') : f ∈ s'.sets t i ↔ f ∈ s.sets t i := (h.perm t i).mem_iff

theorem nodup (h : Quiet s s') (hl : s.Nodup) : s'.Nodup := fun t i => (h.perm t i).nodup_iff.2 (hl t i)

theorem frames (h : Quiet s s') (hF : Frames n s) : Frames n s' where
  nodup := h.nodup hF.nodup
  owner f t i t' i' h1 h2 := hF.owner f t i t' i' (h.mem_iff.1 h1) (h.mem_iff.1 h2)
  setOf f t i hf := (h.set f).trans (hF.setOf f t i (h.mem_iff.1 hf))
  len t i ht hi := by
    rw [(h.perm t i).length_eq, h.assocOfTc]
    exact hF.len t i ht (h.geo ▸ hi)
  master f t i hf hv := by
    obtain ⟨h1, h2⟩ := h.valid f hv
    rw [h2, h.maxMasters]
    exact hF.master f t i (h.mem_iff.1 hf) h1

theorem unique (h : Quiet s s') (hU : Unique R s) : Unique R s' := by
  intro t t' i f g hR hf hg hvf hvg ht
  rw [h.tag, h.tag] at ht
  exact hU t t' i f g hR (h.mem_iff.1 hf) (h.mem_iff.1 hg) (h.valid f hvf).1 (h.valid g hvg).1 ht

end Quiet

theorem quiet_invalidateBlk (hl : s.Nodup) (h : s.invalidateBlk f t = some s') :
    Quiet s s' := by
  simp only [invalidateBlk] at h
  split at h
  · next hv =>
    split at h
    · obtain ⟨l, hm, rfl⟩ := Option.map_eq_some_iff.1 h
      have hf := mem_of_moveToTail hm
      rw [getSet, moveToTail_eq (hl _ _) hf] at hm
      obtain rfl := Option.some.inj hm
      exact .of_upd ⟨rfl, rfl, rfl, rfl, rfl⟩ (toBack_perm hf) rfl rfl rfl (fun h => by cases h) (fun h => by cases h)
    · cases h
  · obtain rfl := Option.some.inj h
    exact .putBlk rfl rfl rfl (fun h => by cases h) (fun h => by cases h)

/-! ## Insertions -/

theorem inserted_of_insertBlock {masterId now : Nat} (h : s.insertBlock addr f masterId t now = some s') :
    Inserted s s' t addr f := by
  obtain ⟨hm, hf, hu⟩ := insertBlock_upd h
  refine ⟨hu.geo, hu.maxMasters, hu.assocOfTc, fun t' i' => ?_, hf, fun g hg => ?_, ?_, ?_, ?_, ?_, ?_⟩
  · rw [hu.sets_apply]
    split
    · next h => rw [h.1, h.2]; exact toFront_perm hf
    · exact .refl _
  · rw [hu.blks_apply, if_neg hg]
  · rw [hu.blks_apply, if_pos rfl]; rfl
  · rw [hu.blks_apply, if_pos rfl]; rfl
  · rw [hu.blks_apply, if_pos rfl]; rfl
  · rw [hu.blks_apply, if_pos rfl]; rfl
  · rw [hu.blks_apply, if_pos rfl]; exact hm

namespace Inserted

theorem mem_iff (h : Inserted s s' t addr f) {g t' i' : Nat} : g ∈ s'.sets t' i' ↔ g ∈ s.sets t' i' :=
  (h.perm t' i').mem_iff

theorem frames (h : Inserted s s' t addr f) (hF : Frames n s) : Frames n s' where
  nodup t i := (h.perm t i).nodup_iff.2 (hF.nodup t i)
  owner g t i t' i' h1 h2 := hF.owner g t i t' i' (h.mem_iff.1 h1) (h.mem_iff.1 h2)
  setOf g t i hg := by
    have := hF.setOf g t i (h.mem_iff.1 hg)
    by_cases he : g = f
    · rw [he, h.set, ← he, this]
    · rw [h.other g he, this]
  len t i ht hi := by
    rw [(h.perm t i).length_eq, h.assocOfTc]
    exact hF.len t i ht (h.geo ▸ hi)
  master g t i hg hv := by
    rw [h.maxMasters]
    by_cases he : g = f
    · rw [he]; exact h.master
    · rw [h.other g he] at hv ⊢
      exact hF.master g t i (h.mem_iff.1 hg) hv

/-- Status and data of the new block are set by the caller. -/
theorem putBlk (h : Inserted s s' t addr f) {b : CacheBlk} (ht : b.tag = (s'.blks f).tag)
    (hs : b.set = (s'.blks f).set) (hi : b.threadID = (s'.blks f).threadID)
    (hu : b.isTouched = (s'.blks f).isTouched)
    (hm : b.srcMasterId = (s'.blks f).srcMasterId) : Inserted s (s'.putBlk f b) t addr f where
  geo := h.geo
  maxMasters := h.maxMasters
  assocOfTc := h.assocOfTc
  perm := h.perm
  mem := h.mem
  other g hg := by rw [blks_putBlk, if_neg hg, h.other g hg]
  tag := by rw [blks_putBlk, if_pos rfl, ht, h.tag]
  set := by rw [blks_putBlk, if_pos rfl, hs, h.set]
  threadID := by rw [blks_putBlk, if_pos rfl, hi, h.threadID]
  touched := by rw [blks_putBlk, if_pos rfl, hu, h.touched]
  master := by rw [blks_putBlk, if_pos rfl, hm]; exact h.master

/-- An insertion followed by quiet changes that leave no other copy of the block. -/
theorem unique (h : Inserted s s' t addr f) (hF : Frames n s) (hsymm : ∀ a b, R a b → R b a)
    (hU : Unique R s) (hq : Quiet s' s'')
    (hgone : ∀ t' g, R t t' → g ∈ s.sets t' (s.geo.extractSet addr) → g ≠ f →
      (s''.blks g).isValid = true → (s.blks g).tag ≠ s.geo.extractTag addr) : Unique R s'' := by
  -- a pair that holds the inserted block consists of its frame and a copy that is gone
  have key : ∀ t₁ t₂ i₁ g, R t₁ t₂ → f ∈ s''.sets t₁ i₁ → g ∈ s''.sets t₂ i₁ →
      (s''.blks g).isValid = true → (s''.blks f).tag = (s''.blks g).tag → f = g := by
    intro t₁ t₂ i₁ g hR hf hg hv ht
    by_contra hne
    have hf' := h.mem_iff.1 (hq.mem_iff.1 hf)
    obtain ⟨rfl, rfl⟩ := hF.owner f t₁ i₁ t _ hf' h.mem
    rw [hq.tag, hq.tag, h.tag, h.other g (Ne.symm hne)] at ht
    exact hgone t₂ g hR (h.mem_iff.1 (hq.mem_iff.1 hg)) (Ne.symm hne) hv ht.symm
  intro t₁ t₂ i₁ g₁ g₂ hR h1 h2 hv1 hv2 ht
  by_cases he1 : g₁ = f
  · rw [he1] at h1 ht ⊢
    exact key t₁ t₂ i₁ g₂ hR h1 h2 hv2 ht
  by_cases he2 : g₂ = f
  · rw [he2] at h2 ht ⊢
    exact (key t₂ t₁ i₁ g₁ (hsymm _ _ hR) h2 h1 hv1 ht.symm).symm
  have hv1' := (hq.valid g₁ hv1).1
  have hv2' := (hq.valid g₂ hv2).1
  rw [hq.tag, hq.tag, h.other g₁ he1, h.other g₂ he2] at ht
  rw [h.other g₁ he1] at hv1'
  rw [h.other g₂ he2] at hv2'
  exact hU t₁ t₂ i₁ g₁ g₂ hR (h.mem_iff.1 (hq.mem_iff.1 h1)) (h.mem_iff.1 (hq.mem_iff.1 h2)) hv1' hv2' ht

end Inserted

end Lru

end DynamicCache.Tags
