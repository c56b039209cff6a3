import DynamicCache.Tags.CDynaLru

/-!
# `C_DYNALRU`: what thread 0 sees does not depend on thread 1

`LowView` is what Low can see of the store: for every set the slots of the Low
list (a slot shows the tag of a valid block of thread 0, and nothing for any
other frame, so not for a High block that migrated), the sizes of the two
partitions and the utility monitor.  The operations of thread 0 and the
resizing operations act on this view as a machine of its own, `lowStep`
(`lowStep_of_step`); the operations of other threads leave it alone
(`view_of_high`).  Two runs with the same Low and resizing operations therefore
agree on the view and on every hit and miss of thread 0
(`cdynalru_noninterference`).
-/

namespace DynamicCache.Tags

open Lib Lru

namespace CDynaLru

/-! ## The invariant -/

/-- The shadow tags of a set are tags of Low blocks of that set. -/
structure UmonInv (low : Nat → Nat → Prop) (u : Umon) : Prop where
  nodup : ∀ i, (u.sets i).Nodup
  setOf : ∀ i f, f ∈ u.sets i → (u.blks f).set = i
  tags : ∀ i f, f ∈ u.sets i → (u.blks f).isValid = true → low (u.blks f).tag i

/-- `low tag i` says that the block with this tag in set `i` is used by thread 0.  A
valid block with another thread's id is not a Low block, wherever its frame is. -/
structure Apart (g : Geometry) (low : Nat → Nat → Prop) (s : CDynaLru) : Prop where
  geo : s.lru.geo = g
  frames : Frames 2 s.lru
  foreign : ∀ t i f, f ∈ s.lru.sets t i → (s.lru.blks f).isValid = true →
    (s.lru.blks f).threadID ≠ 0 → ¬low (s.lru.blks f).tag i
  umon : UmonInv low s.umon

/-- Frames in lists of other threads carry another thread's id. -/
structure Inv (g : Geometry) (low : Nat → Nat → Prop) (s : CDynaLru) : Prop extends Apart g low s where
  high : ∀ t i f, t ≠ 0 → f ∈ s.lru.sets t i → (s.lru.blks f).threadID ≠ 0

variable {lru' : Lru} {addr f i now tag tid : Nat} {out : Option Bool} {b : CacheBlk} {l : List Nat} {o : Op}

section

variable {g : Geometry} {low : Nat → Nat → Prop} {s s' : CDynaLru}

theorem Inv.upd {t : Nat} (hI : Inv g low s) (hu : Upd s.lru lru' t i l f b) (hp : l.Perm (s.lru.sets t i))
    (hf : f ∈ s.lru.sets t i) (hset : b.set = (s.lru.blks f).set)
    (hm : b.isValid = true → b.srcMasterId < s.lru.maxMasters) (hh : t ≠ 0 → b.threadID ≠ 0)
    (hfor : b.isValid = true → b.threadID ≠ 0 → ¬low b.tag i) : Inv g low { s with lru := lru' } where
  geo := hu.geo.trans hI.geo
  frames := hI.frames.upd hu hp hset hm
  high t' i' x ht hx := by
    have hx' := (hu.mem_iff hp x t' i').1 hx
    rw [hu.blks_apply]
    split
    · next he =>
      subst he
      exact hh (by rw [← (hI.frames.owner x t' i' t i hx' hf).1]; exact ht)
    · exact hI.high t' i' x ht hx'
  foreign t' i' x hx hv ht := by
    have hx' := (hu.mem_iff hp x t' i').1 hx
    rw [hu.blks_apply] at hv ht ⊢
    split at hv
    · next he =>
      subst he
      rw [if_pos rfl] at ht ⊢
      rw [(hI.frames.owner x t' i' t i hx' hf).2]
      exact hfor hv ht
    · next he =>
      rw [if_neg he] at ht ⊢
      exact hI.foreign t' i' x hx' hv ht
  umon := hI.umon

theorem Inv.same (hI : Inv g low s) (hg : lru'.geo = s.lru.geo) (hm : lru'.maxMasters = s.lru.maxMasters)
    (ha : lru'.assocOfTc = s.lru.assocOfTc) (hs : lru'.sets = s.lru.sets) (hb : lru'.blks = s.lru.blks) :
    Inv g low { s with lru := lru' } := by
  obtain ⟨⟨h0, ⟨h1, h2, h3, h4, h5⟩, h6, h7⟩, h8⟩ := hI
  refine ⟨⟨hg.trans h0, ⟨?_, ?_, ?_, ?_, ?_⟩, ?_, h7⟩, ?_⟩ <;> simp only [hg, hm, ha, hs, hb] <;>
    assumption

theorem Inv.withUmon {u : Umon} (hI : Inv g low s) (hU : UmonInv low u) : Inv g low { s with umon := u } :=
  ⟨⟨hI.geo, hI.frames, hI.foreign, hU⟩, hI.high⟩

/-! ### The utility monitor -/

variable {u u' : Umon}

theorem UmonInv.upd (hU : UmonInv low u) (hs : u'.sets = Function.update u.sets i l) (hp : l.Perm (u.sets i))
    (hb : u'.blks = Function.update u.blks f b) (hf : f ∈ u.sets i) (hset : b.set = (u.blks f).set)
    (hl : b.isValid = true → low b.tag i) : UmonInv low u' := by
  have hmem : ∀ j x, x ∈ u'.sets j ↔ x ∈ u.sets j := by
    intro j x
    rw [hs, Function.update_apply]
    split
    · next h => rw [h]; exact hp.mem_iff
    · rfl
  refine ⟨fun j => ?_, fun j x hx => ?_, fun j x hx hv => ?_⟩
  · rw [hs, Function.update_apply]
    split
    · exact hp.nodup_iff.2 (hU.nodup i)
    · exact hU.nodup j
  · have h := hU.setOf j x ((hmem j x).1 hx)
    rw [hb, Function.update_apply]
    split
    · next he => rw [hset, ← he, h]
    · exact h
  · have hx' := (hmem j x).1 hx
    rw [hb, Function.update_apply] at hv ⊢
    split at hv
    · next he =>
      subst he
      rw [if_pos rfl, ← hU.setOf j x hx', hU.setOf i x hf]
      exact hl hv
    · next he =>
      rw [if_neg he]
      exact hU.tags j x hx' hv

theorem UmonInv.access {assoc : Nat} (hU : UmonInv low u) (hl : low tag i) (h : u.access assoc i tag = some u') :
    UmonInv low u' := by
  unfold Umon.access at h
  split at h
  · next f hf =>
    have hm := mem_of_findBlk hf
    rw [moveToHead_eq hm, Option.map_some] at h
    obtain rfl := Option.some.inj h
    exact hU.upd rfl (toFront_perm hm) (Function.update_eq_self f u.blks).symm hm rfl
      fun hv => hU.tags i f hm hv
  · split at h
    · cases h
    · next f hf =>
      have hm := List.mem_of_getElem? hf
      rw [moveToHead_eq hm, Option.map_some] at h
      obtain rfl := Option.some.inj h
      exact hU.upd rfl (toFront_perm hm) rfl hm rfl fun _ => hl

theorem UmonInv.invalidate (hU : UmonInv low u) (h : u.invalidate i tag = some u') : UmonInv low u' := by
  unfold Umon.invalidate at h
  split at h
  · obtain rfl := Option.some.inj h
    exact hU
  · next f hf =>
    have hm := mem_of_findBlk hf
    dsimp only at h
    rw [if_pos (holds_of_findBlk hf).2, moveToTail_eq (hU.nodup i) hm, Option.map_some] at h
    obtain rfl := Option.some.inj h
    exact hU.upd rfl (toBack_perm hm) rfl hm rfl fun hv => by cases hv

/-- A block that is not Low's has no shadow tag. -/
theorem UmonInv.invalidate_foreign (hU : UmonInv low u) (hl : ¬low tag i) : u.invalidate i tag = some u := by
  have hn : findBlk u.blks (u.sets i) tag = none := by
    cases hf : findBlk u.blks (u.sets i) tag with
    | none => rfl
    | some f =>
      have := hU.tags i f (mem_of_findBlk hf) (holds_of_findBlk hf).2
      rw [(holds_of_findBlk hf).1] at this
      exact absurd this hl
  rw [Umon.invalidate, hn]

end

/-! ## What Low sees -/

/-- The tag of a valid block of thread 0. -/
def lowTag (b : CacheBlk) : Option Nat := if b.isValid ∧ b.threadID = 0 then some b.tag else none

structure LowView where
  geo : Geometry
  lAssoc : Nat
  hAssoc : Nat
  hMin : Nat
  slots : Nat → List (Option Nat)
  umon : Umon

def view (s : CDynaLru) : LowView where
  geo := s.lru.geo
  lAssoc := s.lAssoc
  hAssoc := s.hAssoc
  hMin := s.hMin
  slots i := Lru.slots lowTag s.lru 0 i
  umon := s.umon

/-- The operations of thread 0 and the resizing operations, on the view alone. -/
def lowStep (v : LowView) : Op → Option (LowView × Option Bool)
  | .access _ addr _ =>
    let tag := v.geo.extractTag addr
    let i := v.geo.extractSet addr
    let hit := decide (some tag ∈ v.slots i)
    (v.umon.access v.geo.assoc i tag).map fun u =>
      ({ v with
          slots := if hit then Function.update v.slots i (touch tag (v.slots i)) else v.slots
          umon := u }, some hit)
  | .fill _ addr _ _ _ =>
    let i := v.geo.extractSet addr
    some ({ v with slots := Function.update v.slots i (load (v.geo.extractTag addr) (v.slots i)) }, none)
  | .invalidate _ addr shadow =>
    let tag := v.geo.extractTag addr
    let i := v.geo.extractSet addr
    if some tag ∈ v.slots i then
      (if shadow then v.umon.invalidate i tag else some v.umon).map fun u =>
        ({ v with slots := Function.update v.slots i (clear tag (v.slots i)), umon := u }, none)
    else some (v, none)
  | .incSize =>
    if v.hAssoc = v.hMin then some (v, none)
    else some ({ v with
      lAssoc := v.lAssoc + 1
      hAssoc := v.hAssoc - 1
      slots := fun i => if i < v.geo.numSets then v.slots i ++ [none] else v.slots i }, none)
  | .decSize =>
    if v.lAssoc = 1 then some (v, none)
    else some ({ v with
      lAssoc := v.lAssoc - 1
      hAssoc := v.hAssoc + 1
      slots := fun i => if i < v.geo.numSets then (v.slots i).dropLast else v.slots i }, none)

section

variable {g : Geometry} {low : Nat → Nat → Prop} {s s' : CDynaLru}

/-- The search of thread 0 finds a Low tag exactly where the view shows it. -/
theorem Inv.shows (hI : Inv g low s) (hl : low tag i) : Shows lowTag s.lru 0 i tag tag := by
  intro x hx
  simp only [holds, lowTag, Bool.and_eq_true, beq_iff_eq]
  constructor
  · rintro ⟨ht, hv⟩
    have h0 : (s.lru.blks x).threadID = 0 := by
      by_contra hne
      exact hI.foreign 0 i x hx hv hne (ht ▸ hl)
    rw [if_pos ⟨hv, h0⟩, ht]
  · intro h
    split at h
    · next hc => exact ⟨Option.some.inj h, hc.1⟩
    · cases h

theorem view_same (hg : lru'.geo = s.lru.geo) (ha : lru'.assocOfTc = s.lru.assocOfTc)
    (hs : lru'.sets = s.lru.sets) (hb : lru'.blks = s.lru.blks) : view { s with lru := lru' } = view s := by
  simp only [view, hg, lAssoc, hAssoc, ha, slots_congr hs hb]

theorem view_upd_other {t : Nat} (hI : Inv g low s) (hu : Upd s.lru lru' t i l f b) (hf : f ∈ s.lru.sets t i)
    (ht : t ≠ 0) : view { s with lru := lru' } = view s := by
  have hsl : ∀ j, Lru.slots lowTag lru' 0 j = Lru.slots lowTag s.lru 0 j :=
    fun j => slots_other hI.frames hu hf fun h => ht h.1.symm
  simp only [view, hu.geo, lAssoc, hAssoc, hu.assocOfTc, hsl]

theorem view_upd_low (hI : Inv g low s) (hu : Upd s.lru lru' 0 i l f b) (hf : f ∈ s.lru.sets 0 i) :
    view { s with lru := lru' } =
      { view s with slots := Function.update (view s).slots i (Lru.slots lowTag lru' 0 i) } := by
  have hsl : (fun j => Lru.slots lowTag lru' 0 j) =
      Function.update (view s).slots i (Lru.slots lowTag lru' 0 i) := by
    funext j
    rw [Function.update_apply]
    split
    · next h => rw [h]
    · next h => exact slots_other hI.frames hu hf fun hc => h hc.2
  have hrest : view { s with lru := lru' } =
      { view s with slots := fun j => Lru.slots lowTag lru' 0 j } := by
    simp only [view, hu.geo, lAssoc, hAssoc, hu.assocOfTc]
  rw [hrest, hsl]

/-! ## One operation -/

/-- Thread 0 uses Low blocks, every other thread uses other blocks. -/
def OpOk (g : Geometry) (low : Nat → Nat → Prop) (o : Op) : Prop :=
  ∀ tid addr, o.request = some (tid, addr) → (tid = 0 ↔ low (g.extractTag addr) (g.extractSet addr))

theorem inv_lruAccess {lat : Nat} {blk : Option Nat} (hI : Inv g low s)
    (h : s.lru.accessBlock addr now tid = some (lru', blk, lat)) :
    Inv g low { s with lru := lru' } ∧ (tid ≠ 0 → view { s with lru := lru' } = view s) := by
  cases hf : s.lru.findBlock addr tid with
  | none =>
    obtain ⟨x, hx, h1, h2, h3, h4, h5⟩ := accessBlock_miss now hf
    rw [hx] at h
    obtain ⟨rfl, -⟩ := Prod.mk.inj (Option.some.inj h)
    exact ⟨hI.same h1 h2 h3 h4 h5, fun _ => view_same h1 h3 h4 h5⟩
  | some f =>
    obtain ⟨x, hx, hu⟩ := accessBlock_hit now hf
    rw [hx] at h
    obtain ⟨rfl, -⟩ := Prod.mk.inj (Option.some.inj h)
    have hm := mem_of_findBlk hf
    refine ⟨hI.upd hu (toFront_perm hm) hm rfl (fun hv => ?_) (fun ht => ?_) (fun hv ht => ?_),
      fun ht => view_upd_other hI hu hm ht⟩
    · exact hI.frames.master f _ _ hm hv
    · exact hI.high _ _ f ht hm
    · exact hI.foreign _ _ f hm hv ht

theorem inv_fill {masterId : Nat} {st : BlkStatus} (hI : Inv g low s)
    (hok : tid ≠ 0 → ¬low (g.extractTag addr) (g.extractSet addr))
    (h : s.lru.fill addr tid masterId now st = some (lru', f)) :
    Inv g low { s with lru := lru' } ∧ (tid ≠ 0 → view { s with lru := lru' } = view s) := by
  obtain ⟨-, hm, hmas, hu⟩ := fill_upd h
  rw [← hI.geo] at hok
  refine ⟨hI.upd hu (toFront_perm hm) hm rfl (fun _ => hmas) (fun ht => ht) (fun _ ht => hok ht),
    fun ht => view_upd_other hI hu hm ht⟩

theorem inv_lruInvalidate (hI : Inv g low s) (hf : s.lru.findBlock addr tid = some f)
    (h : s.lru.invalidateBlk f tid = some lru') : (s.lru.blks f).set = s.lru.geo.extractSet addr ∧
    Upd s.lru lru' tid (s.lru.geo.extractSet addr) (toBack f (s.lru.sets tid (s.lru.geo.extractSet addr)))
      f (invalidated (s.lru.blks f)) ∧
    Inv g low { s with lru := lru' } ∧ (tid ≠ 0 → view { s with lru := lru' } = view s) := by
  have hm := mem_of_findBlk hf
  have hset := hI.frames.setOf f _ _ hm
  have hu := invalidateBlk_upd (by rw [hset]; exact hI.frames.nodup _ _) (by rw [hset]; exact hm) h
  rw [hset, if_pos (holds_of_findBlk hf).2] at hu
  refine ⟨hset, hu, hI.upd hu (toBack_perm hm) hm rfl (fun hv => ?_) (fun ht => ?_) (fun hv => ?_),
    fun ht => view_upd_other hI hu hm ht⟩
  · cases hv
  · exact hI.high _ _ f ht hm
  · cases hv

/-- An operation of another thread is not seen by Low. -/
theorem view_of_high (hI : Inv g low s) (hok : OpOk g low o) (ho : o.isLow = false)
    (h : step s o = some (s', out)) : Inv g low s' ∧ view s' = view s := by
  cases o with
  | access tid addr now =>
    have ht : tid ≠ 0 := by simpa [Op.isLow, Op.request] using ho
    simp only [step, accessBlock, if_neg ht] at h
    cases ha : s.lru.accessBlock addr now tid with
    | none => rw [ha] at h; cases h
    | some r =>
      rw [ha] at h
      simp only [Option.map_some, Option.some.injEq, Prod.mk.injEq] at h
      obtain ⟨h1, h2⟩ := inv_lruAccess hI ha
      exact h.1 ▸ ⟨h1, h2 ht⟩
  | fill tid addr masterId now st =>
    have ht : tid ≠ 0 := by simpa [Op.isLow, Op.request] using ho
    obtain ⟨r, hr, he⟩ := Option.map_eq_some_iff.1 h
    obtain ⟨h1, h2⟩ := inv_fill hI (fun _ hl => ht ((hok tid addr rfl).2 hl)) hr
    obtain ⟨rfl, -⟩ := Prod.mk.inj he
    exact ⟨h1, h2 ht⟩
  | invalidate tid addr shadow =>
    have ht : tid ≠ 0 := by simpa [Op.isLow, Op.request] using ho
    have hl : ¬low (g.extractTag addr) (g.extractSet addr) := fun hl => ht ((hok tid addr rfl).2 hl)
    simp only [step] at h
    cases hf : s.lru.findBlock addr tid with
    | none =>
      rw [hf] at h
      obtain ⟨rfl, -⟩ := Prod.mk.inj (Option.some.inj h)
      exact ⟨hI, rfl⟩
    | some f =>
      rw [hf] at h
      cases hv : s.lru.invalidateBlk f tid with
      | none => simp [invalidateBlk, hv] at h
      | some lru' =>
        obtain ⟨hset, hu, h1, h2⟩ := inv_lruInvalidate hI hf hv
        -- the shadow tags hold no block of another thread
        have hum : s.umon.invalidate (lru'.blks f).set (lru'.blks f).tag = some s.umon := by
          rw [hu.blks_apply, if_pos rfl]
          show s.umon.invalidate (s.lru.blks f).set (s.lru.blks f).tag = some s.umon
          rw [hset, (holds_of_findBlk hf).1, hI.geo]
          exact hI.umon.invalidate_foreign hl
        simp only [invalidateBlk, hv, hum, Option.map_some, ite_self, Option.some.injEq,
          Prod.mk.injEq] at h
        exact h.1 ▸ ⟨h1, h2 ht⟩
  | incSize => cases ho
  | decSize => cases ho

/-! ### Operations of thread 0 -/

theorem lowStep_access (hI : Inv g low s) (hl : low (g.extractTag addr) (g.extractSet addr))
    (h : step s (.access 0 addr now) = some (s', out)) :
    lowStep (view s) (.access 0 addr now) = some (view s', out) ∧ Inv g low s' := by
  rw [← hI.geo] at hl
  have hsh := hI.shows hl
  simp only [step, accessBlock, if_true] at h
  cases ha : s.lru.accessBlock addr now 0 with
  | none => rw [ha] at h; cases h
  | some r =>
    obtain ⟨lru', blk, lat⟩ := r
    rw [ha] at h
    obtain ⟨r', hr', he⟩ := Option.map_eq_some_iff.1 h
    obtain ⟨u, hu, rfl⟩ := Option.map_eq_some_iff.1 hr'
    obtain ⟨rfl, rfl⟩ := Prod.mk.inj he
    refine ⟨?_, (inv_lruAccess hI ha).1.withUmon (hI.umon.access hl hu)⟩
    have hu' : (view s).umon.access (view s).geo.assoc ((view s).geo.extractSet addr)
        ((view s).geo.extractTag addr) = some u := hu
    simp only [lowStep, hu', Option.map_some]
    cases hf : s.lru.findBlock addr 0 with
    | none =>
      obtain ⟨x, hx, h1, h2, h3, h4, h5⟩ := accessBlock_miss now hf
      rw [hx] at ha
      obtain ⟨rfl, hb⟩ := Prod.mk.inj (Option.some.inj ha)
      obtain ⟨rfl, -⟩ := Prod.mk.inj hb
      have hmiss : some ((view s).geo.extractTag addr) ∉ (view s).slots ((view s).geo.extractSet addr) :=
        (findBlock_eq_none_iff hsh).1 hf
      rw [decide_eq_false hmiss]
      have hv : view { s with lru := x, umon := u } = { view s with umon := u } := by
        rw [← view_same h1 h3 h4 h5]
        rfl
      rw [hv]
      rfl
    | some f =>
      obtain ⟨x, hx, hup⟩ := accessBlock_hit now hf
      rw [hx] at ha
      obtain ⟨rfl, hb⟩ := Prod.mk.inj (Option.some.inj ha)
      obtain ⟨rfl, -⟩ := Prod.mk.inj hb
      have hhit : some ((view s).geo.extractTag addr) ∈ (view s).slots ((view s).geo.extractSet addr) := by
        by_contra hn
        rw [(findBlock_eq_none_iff hsh).2 hn] at hf
        cases hf
      rw [decide_eq_true hhit]
      have hv := view_upd_low hI hup (mem_of_findBlk hf)
      have hb : lowTag (referenced (s.lru.blks f)) = lowTag (s.lru.blks f) := rfl
      rw [slots_hit hsh hf hb hup] at hv
      have hv' : view { s with lru := x, umon := u } =
          { view { s with lru := x } with umon := u } := rfl
      rw [hv', hv]
      rfl

theorem lowStep_fill {masterId : Nat} {st : BlkStatus} (hI : Inv g low s)
    (h : step s (.fill 0 addr masterId now st) = some (s', out)) :
    lowStep (view s) (.fill 0 addr masterId now st) = some (view s', out) ∧ Inv g low s' := by
  obtain ⟨r, hr, he⟩ := Option.map_eq_some_iff.1 h
  obtain ⟨lru', f⟩ := r
  obtain ⟨rfl, rfl⟩ := Prod.mk.inj he
  refine ⟨?_, (inv_fill hI (fun h => absurd rfl h) hr).1⟩
  obtain ⟨hvic, hm, -, hu⟩ := fill_upd hr
  have hlen := hI.frames.len 0 (s.lru.geo.extractSet addr) (by omega) (s.lru.geo.extractSet_lt addr)
  rw [findVictim_eq_getLast? hlen] at hvic
  have hsl := slots_fill (v := lowTag) (hI.frames.nodup 0 _) hvic
    (show lowTag (filled (s.lru.blks f) (s.lru.geo.extractTag addr) masterId 0 st) =
      some (s.lru.geo.extractTag addr) from rfl) hu
  rw [view_upd_low hI hu hm, hsl]
  rfl

theorem lowStep_invalidate {shadow : Bool} (hI : Inv g low s) (hl : low (g.extractTag addr) (g.extractSet addr))
    (h : step s (.invalidate 0 addr shadow) = some (s', out)) :
    lowStep (view s) (.invalidate 0 addr shadow) = some (view s', out) ∧ Inv g low s' := by
  rw [← hI.geo] at hl
  have hsh := hI.shows hl
  simp only [step] at h
  cases hf : s.lru.findBlock addr 0 with
  | none =>
    rw [hf] at h
    obtain ⟨rfl, rfl⟩ := Prod.mk.inj (Option.some.inj h)
    have hmiss : some ((view s).geo.extractTag addr) ∉ (view s).slots ((view s).geo.extractSet addr) :=
      (findBlock_eq_none_iff hsh).1 hf
    exact ⟨by simp only [lowStep, if_neg hmiss], hI⟩
  | some f =>
    rw [hf] at h
    have hhit : some ((view s).geo.extractTag addr) ∈ (view s).slots ((view s).geo.extractSet addr) := by
      by_contra hn
      rw [(findBlock_eq_none_iff hsh).2 hn] at hf
      cases hf
    cases hv : s.lru.invalidateBlk f 0 with
    | none => simp [invalidateBlk, hv] at h
    | some lru' =>
      obtain ⟨hset, hu, hI', -⟩ := inv_lruInvalidate hI hf hv
      have hvw := view_upd_low hI hu (mem_of_findBlk hf)
      rw [slots_invalidate (hI.frames.nodup 0 _) hsh hf rfl hu] at hvw
      have hfs : (lru'.blks f).set = s.lru.geo.extractSet addr ∧
          (lru'.blks f).tag = s.lru.geo.extractTag addr := by
        rw [hu.blks_apply, if_pos rfl]
        exact ⟨hset, (holds_of_findBlk hf).1⟩
      simp only [lowStep, if_pos hhit]
      cases shadow with
      | false =>
        simp only [hv, Option.map_some, Bool.false_eq_true, if_false, Option.some.injEq,
          Prod.mk.injEq] at h
        obtain ⟨rfl, rfl⟩ := h
        exact ⟨by rw [hvw]; rfl, hI'⟩
      | true =>
        simp only [invalidateBlk, hv, hfs.1, hfs.2, if_true] at h
        obtain ⟨s₁, hs₁, he⟩ := Option.map_eq_some_iff.1 h
        obtain ⟨u, hum, rfl⟩ := Option.map_eq_some_iff.1 hs₁
        obtain ⟨rfl, rfl⟩ := Prod.mk.inj he
        refine ⟨?_, hI'.withUmon (hI.umon.invalidate hum)⟩
        have hum' : (view s).umon.invalidate ((view s).geo.extractSet addr)
            ((view s).geo.extractTag addr) = some u := hum
        have hv' : view { s with lru := lru', umon := u } =
            { view { s with lru := lru' } with umon := u } := rfl
        rw [if_pos rfl, hum', hv', hvw]
        rfl

/-! ### Resizing -/

section

variable {tc tc' : Nat} {fr : Nat → Nat}

theorem Apart.resizes (hA : Apart g low s) (htc : tc + tc' = 1) (hR : Resizes s s' tc tc' fr) : Apart g low s' where
  geo := hR.geo.trans hA.geo
  frames := hR.frames hA.frames htc hR.shrinks hR.grows
  foreign t i f hf hv ht := by
    rw [hR.blks] at hv ht ⊢
    rcases hR.mem_cases hf with hf | ⟨-, hi, rfl⟩
    · exact hA.foreign t i f hf hv ht
    · exact hA.foreign tc i _ (hR.mem_fr hi) hv ht
  umon := hR.umon ▸ hA.umon

/-- A resizing is seen as a change of the slots. -/
theorem view_resizes (slots : Nat → List (Option Nat)) (hR : Resizes s s' tc tc' fr)
    (hslots : ∀ i < s.lru.geo.numSets, Lru.slots lowTag s'.lru 0 i = slots i) :
    view s' = { view s with
      lAssoc := s'.lAssoc
      hAssoc := s'.hAssoc
      slots := fun i => if i < s.lru.geo.numSets then slots i else Lru.slots lowTag s.lru 0 i } := by
  have hsl : ∀ i, Lru.slots lowTag s'.lru 0 i =
      if i < s.lru.geo.numSets then slots i else Lru.slots lowTag s.lru 0 i := by
    intro i
    split
    · next hi => exact hslots i hi
    · next hi =>
      unfold Lru.slots
      rw [hR.blks, hR.rest 0 i fun h => absurd h hi]
  simp only [view, hR.geo, hR.hMin, hR.umon, hsl]

end

theorem lowStep_incSize (hI : Inv g low s) (h : step s .incSize = some (s', out)) :
    lowStep (view s) .incSize = some (view s', out) ∧ Inv g low s' := by
  obtain ⟨r, hr, he⟩ := Option.map_eq_some_iff.1 h
  obtain ⟨s₁, n⟩ := r
  obtain ⟨rfl, rfl⟩ := Prod.mk.inj he
  rcases incSize_cases hI.frames hr with ⟨heq, rfl, -⟩ | ⟨hne, -, fr, hR⟩
  · have heq' : (view s₁).hAssoc = (view s₁).hMin := heq
    exact ⟨by simp only [lowStep, if_pos heq'], hI⟩
  · have hne' : ¬(view s).hAssoc = (view s).hMin := hne
    have hview := view_resizes (fun i => Lru.slots lowTag s.lru 0 i ++ [none]) hR fun i hi => by
      unfold Lru.slots
      rw [hR.blks, hR.grown i hi, List.map_append, List.map_singleton, lowTag,
        if_neg fun hc => hI.high 1 i (fr i) (by omega) (hR.mem_fr hi) hc.2]
    refine ⟨?_, hI.toApart.resizes rfl hR, fun t i f ht hf => ?_⟩
    · have hl : s₁.lAssoc = s.lAssoc + 1 := hR.grows
      have hh : s₁.hAssoc = s.hAssoc - 1 := Nat.eq_sub_of_add_eq hR.shrinks
      rw [lowStep, if_neg hne', hview, hl, hh]
      rfl
    · rw [hR.blks]
      rcases hR.mem_cases hf with hf | ⟨ht', -⟩
      · exact hI.high t i f ht hf
      · exact absurd ht' ht

/-- The state while `C_DynamicCache::dec_size` cleans up: in the sets from `k` on
the frame that came from Low may still carry thread id 0. -/
structure Cleaning (g : Geometry) (low : Nat → Nat → Prop) (v : LowView) (k : Nat) (s : CDynaLru) :
    Prop extends Apart g low s where
  high : ∀ t i f, t ≠ 0 → f ∈ s.lru.sets t i → (s.lru.blks f).threadID ≠ 0 ∨
    (t = 1 ∧ k ≤ i ∧ i < g.numSets ∧ (s.lru.sets 1 i).getLast? = some f)
  view : view s = v

theorem evicted_threadID (b : CacheBlk) : (evicted b).threadID ≠ 0 := by
  unfold evicted
  split
  · exact Nat.one_ne_zero
  · assumption

/-- A valid block that survives the clean-up was not touched by it. -/
theorem evicted_valid (h : (evicted b).isValid = true) : b.threadID ≠ 0 ∧ evicted b = b := by
  unfold evicted at h ⊢
  split at h
  · cases h
  · next hb => exact ⟨hb, if_neg hb⟩

theorem Cleaning.evictSet {v : LowView} {k : Nat} (hC : Cleaning g low v k s) (hk : k < g.numSets)
    (h : s.evictSet k = some s') : Cleaning g low v (k + 1) s' := by
  obtain ⟨x, hx, hmin, hum, hu⟩ := evictSet_upd hC.frames (hC.geo ▸ hk) h
  have hp : (s.lru.sets 1 k).Perm (s.lru.sets 1 k) := List.Perm.refl _
  have hxm : x ∈ s.lru.sets 1 k := List.mem_of_getLast? hx
  have hsets : ∀ t i, s'.lru.sets t i = s.lru.sets t i := by
    intro t i
    rw [hu.sets_apply]
    split
    · next hc => rw [hc.1, hc.2]
    · rfl
  refine ⟨⟨hu.geo.trans hC.geo, hC.frames.upd hu hp ?_ (fun hv => ?_), fun t i f hf hv ht => ?_, hum ▸ hC.umon⟩,
    fun t i f ht hf => ?_, ?_⟩
  · unfold evicted
    split <;> rfl
  · have he := (evicted_valid hv).2
    rw [he] at hv ⊢
    exact hC.frames.master x 1 k hxm hv
  · have hf' := (hu.mem_iff hp f t i).1 hf
    rw [hu.blks_apply] at hv ht ⊢
    split at hv
    · next he =>
      subst he
      obtain ⟨h0, heq⟩ := evicted_valid hv
      rw [if_pos rfl, heq]
      rw [heq] at hv
      exact hC.foreign t i f hf' hv h0
    · next he =>
      rw [if_neg he] at ht ⊢
      exact hC.foreign t i f hf' hv ht
  · have hf' := (hu.mem_iff hp f t i).1 hf
    rw [hu.blks_apply, hsets]
    split
    · exact Or.inl (evicted_threadID _)
    · next hne =>
      rcases hC.high t i f ht hf' with h1 | ⟨rfl, hki, hin, hlast⟩
      · exact Or.inl h1
      · refine Or.inr ⟨rfl, ?_, hin, hlast⟩
        rcases Nat.eq_or_lt_of_le hki with rfl | hlt
        · rw [hx] at hlast
          exact absurd (Option.some.inj hlast).symm hne
        · exact hlt
  · rw [← hC.view]
    have hsl : ∀ j, Lru.slots lowTag s'.lru 0 j = Lru.slots lowTag s.lru 0 j :=
      fun j => slots_other hC.frames hu hxm (by omega)
    simp only [CDynaLru.view, hu.geo, lAssoc, hAssoc, hu.assocOfTc, hmin, hum, hsl]

theorem lowStep_decSize (hI : Inv g low s) (h : step s .decSize = some (s', out)) :
    lowStep (view s) .decSize = some (view s', out) ∧ Inv g low s' := by
  obtain ⟨s₂, hs₂, he⟩ := Option.map_eq_some_iff.1 h
  obtain ⟨rfl, rfl⟩ := Prod.mk.inj he
  unfold decSizeClean at hs₂
  cases hd : s.decSize with
  | none => rw [hd] at hs₂; cases hs₂
  | some r =>
    obtain ⟨s₁, n⟩ := r
    rw [hd] at hs₂
    rcases decSize_cases hI.frames hd with ⟨heq, rfl, rfl⟩ | ⟨hne, rfl, fr, hR⟩
    · obtain rfl := Option.some.inj hs₂
      have heq' : (view s₁).lAssoc = 1 := heq
      exact ⟨by simp only [lowStep, if_pos heq'], hI⟩
    · have hne' : ¬(view s).lAssoc = 1 := hne
      have hview := view_resizes (fun i => (Lru.slots lowTag s.lru 0 i).dropLast) hR fun i hi => by
        unfold Lru.slots
        rw [hR.blks, hR.shrunk i hi, List.map_append, List.map_singleton, List.dropLast_concat]
      have h0 : Cleaning g low (view s₁) 0 s₁ := by
        refine ⟨hI.toApart.resizes rfl hR, fun t i f ht hf => ?_, rfl⟩
        rw [hR.blks]
        rcases hR.mem_cases hf with hf | ⟨rfl, hi, rfl⟩
        · exact Or.inl (hI.high t i f ht hf)
        · refine Or.inr ⟨rfl, Nat.zero_le i, hI.geo ▸ hi, ?_⟩
          rw [hR.grown i hi, List.getLast?_concat]
      have hC : Cleaning g low (view s₁) s.lru.geo.numSets s₂ :=
        loop_invariant (Cleaning g low (view s₁))
          (fun i x x' hi hx hb => hx.evictSet (hI.geo ▸ hi) hb) h0 hs₂
      refine ⟨?_, hC.toApart, fun t i f ht hf => ?_⟩
      · have hl : s₁.lAssoc = s.lAssoc - 1 := Nat.eq_sub_of_add_eq hR.shrinks
        have hh : s₁.hAssoc = s.hAssoc + 1 := hR.grows
        rw [lowStep, if_neg hne', hC.view, hview, hl, hh]
        rfl
      · rcases hC.high t i f ht hf with h1 | ⟨-, hle, hlt, -⟩
        · exact h1
        · rw [hI.geo] at hle
          omega

/-- An operation of thread 0, or a resizing operation, acts on the view alone. -/
theorem lowStep_of_step (hI : Inv g low s) (hok : OpOk g low o) (ho : o.isLow = true)
    (h : step s o = some (s', out)) : lowStep (view s) o = some (view s', out) ∧ Inv g low s' := by
  cases o with
  | access tid addr now =>
    obtain rfl : tid = 0 := by simpa [Op.isLow, Op.request] using ho
    exact lowStep_access hI ((hok 0 addr rfl).1 rfl) h
  | fill tid addr masterId now st =>
    obtain rfl : tid = 0 := by simpa [Op.isLow, Op.request] using ho
    exact lowStep_fill hI h
  | invalidate tid addr shadow =>
    obtain rfl : tid = 0 := by simpa [Op.isLow, Op.request] using ho
    exact lowStep_invalidate hI ((hok 0 addr rfl).1 rfl) h
  | incSize => exact lowStep_incSize hI h
  | decSize => exact lowStep_decSize hI h

end

/-! ## Two runs -/

theorem inv_init (p : CDynaParams) (low : Nat → Nat → Prop) : Inv p.geo low (init p) where
  geo := rfl
  frames :=
    @frames_initSets (assocOfTc p.lAssoc (p.geo.assoc - p.lAssoc)) p.geo p.maxMasters 2 fun tc => tc
  high t i f ht hf := by
    unfold init at hf ⊢
    rw [threadID_initSets hf]
    exact ht
  foreign t i f _ hv := by cases hv
  umon := ⟨nodup_umon_init p, fun _ _ hf => set_umon_init hf, fun i f _ hv => by cases hv⟩

/-- Thread 0 and the other threads use different blocks. -/
def DisjointBlocks (g : Geometry) (ops : List Op) : Prop :=
  ∀ o ∈ ops, ∀ o' ∈ ops, ∀ r ∈ o.request, ∀ r' ∈ o'.request, r.1 = 0 → r'.1 ≠ 0 →
    g.blkAddr r.2 ≠ g.blkAddr r'.2

/-- The blocks that the operations of thread 0 name. -/
def lowBlocks (g : Geometry) (ops : List Op) (tag i : Nat) : Prop :=
  ∃ o ∈ ops, ∃ addr, o.request = some (0, addr) ∧ g.extractTag addr = tag ∧ g.extractSet addr = i

theorem opOk_of_disjoint {g : Geometry} {ops : List Op} (h : DisjointBlocks g ops) (ho : o ∈ ops) :
    OpOk g (lowBlocks g ops) o := by
  intro tid addr hreq
  constructor
  · rintro rfl
    exact ⟨o, ho, addr, hreq, rfl, rfl⟩
  · rintro ⟨o', ho', addr', hreq', ht, hs⟩
    by_contra hne
    exact h o' ho' o ho _ hreq' _ hreq rfl hne ((g.blkAddr_eq_iff addr' addr).2 ⟨ht, hs⟩)

/-- The blocks of thread 0 are known from its operations. -/
theorem lowBlocks_filter (g : Geometry) (ops : List Op) :
    lowBlocks g (ops.filter Op.isLow) = lowBlocks g ops := by
  funext tag i
  refine propext ⟨?_, ?_⟩
  · rintro ⟨o, ho, rest⟩
    exact ⟨o, (List.mem_filter.1 ho).1, rest⟩
  · rintro ⟨o, ho, addr, hreq, rest⟩
    refine ⟨o, List.mem_filter.2 ⟨ho, ?_⟩, addr, hreq, rest⟩
    rw [Op.isLow, hreq]
    rfl

/-- **Noninterference towards Low.**  Two sequences of operations with the same
operations of thread 0 and the same resizing operations: the accesses of thread
0 hit and miss alike, the Low list of every set shows the same blocks of thread
0 at the same positions, and the monitor's counters and `L_assoc` are equal. -/
theorem cdynalru_noninterference (p : CDynaParams) (ops₁ ops₂ : List Op)
    (hd₁ : DisjointBlocks p.geo ops₁) (hd₂ : DisjointBlocks p.geo ops₂)
    (hlow : ops₁.filter Op.isLow = ops₂.filter Op.isLow)
    (s₁ s₂ : CDynaLru) (hits₁ hits₂ : List (Option Bool))
    (hr₁ : run step Op.isLow (init p) ops₁ = some (s₁, hits₁))
    (hr₂ : run step Op.isLow (init p) ops₂ = some (s₂, hits₂)) :
    hits₁ = hits₂ ∧ (∀ i, Lru.slots lowTag s₁.lru 0 i = Lru.slots lowTag s₂.lru 0 i) ∧
      s₁.umon.counters = s₂.umon.counters ∧ s₁.lAssoc = s₂.lAssoc := by
  let low := lowBlocks p.geo ops₁
  have hlow' : lowBlocks p.geo ops₂ = low := by
    rw [← lowBlocks_filter, ← hlow, lowBlocks_filter]
  let R : CDynaLru → CDynaLru → Prop := fun x y =>
    Inv p.geo low x ∧ Inv p.geo low y ∧ view x = view y
  have hrun : R s₁ s₂ ∧ hits₁ = hits₂ := by
    have hok₁ : ∀ o ∈ ops₁, OpOk p.geo low o := fun o ho => opOk_of_disjoint hd₁ ho
    have hok₂ : ∀ o ∈ ops₂, OpOk p.geo low o := fun o ho => hlow' ▸ opOk_of_disjoint hd₂ ho
    refine unwinding R ?_ ?_ ?_ hlow ⟨inv_init p low, inv_init p low, rfl⟩ (always_of_mem hok₁)
      (always_of_mem hok₂) hr₁ hr₂
    · rintro x y o x' out ⟨hx, hy, hv⟩ ho hok hstep
      obtain ⟨hx', hvx⟩ := view_of_high hx hok ho hstep
      exact ⟨hx', hy, hvx.trans hv⟩
    · rintro x y o y' out ⟨hx, hy, hv⟩ ho hok hstep
      obtain ⟨hy', hvy⟩ := view_of_high hy hok ho hstep
      exact ⟨hx, hy', hv.trans hvy.symm⟩
    · rintro x y o x' y' out out' ⟨hx, hy, hv⟩ ho hok hok' hsx hsy
      obtain ⟨h1, hx'⟩ := lowStep_of_step hx hok ho hsx
      obtain ⟨h2, hy'⟩ := lowStep_of_step hy hok' ho hsy
      rw [hv, h2] at h1
      obtain ⟨hv', hout⟩ := Prod.mk.inj (Option.some.inj h1)
      exact ⟨⟨hx', hy', hv'.symm⟩, hout.symm⟩
  obtain ⟨⟨-, -, hv⟩, hh⟩ := hrun
  exact ⟨hh, fun i => congrFun (congrArg LowView.slots hv) i,
    congrArg (fun v => v.umon.counters) hv, congrArg LowView.lAssoc hv⟩

/-- A High block fills the frame that `inc_size` gives to Low; the other run has
no High operation. -/
theorem cdynalru_noninterference_migration :
    let p : CDynaParams := ⟨⟨1, 4, 3, 1, by decide, by decide, by decide, by decide⟩, 2, 1, 1, by decide⟩
    let low : List Op := [.incSize, .fill 0 0 0 5 {}, .access 0 0 6, .fill 0 4 0 7 {}, .decSize, .access 0 0 8]
    let high : List Op := [.fill 1 8 1 1 {}, .fill 1 12 1 2 {}, .access 1 8 3]
    ∃ s₁ s₂ hits₁ hits₂, run step Op.isLow (init p) (high ++ low) = some (s₁, hits₁) ∧
      run step Op.isLow (init p) low = some (s₂, hits₂) ∧ hits₁ = hits₂ ∧
      (∀ i, Lru.slots lowTag s₁.lru 0 i = Lru.slots lowTag s₂.lru 0 i) ∧
      s₁.umon.counters = s₂.umon.counters ∧ s₁.lAssoc = s₂.lAssoc := by
  intro p low high
  obtain ⟨⟨s₁, hits₁⟩, e₁⟩ := Option.isSome_iff_exists.1
    (show (run step Op.isLow (init p) (high ++ low)).isSome = true by decide +kernel)
  obtain ⟨⟨s₂, hits₂⟩, e₂⟩ := Option.isSome_iff_exists.1
    (show (run step Op.isLow (init p) low).isSome = true by decide +kernel)
  exact ⟨s₁, s₂, hits₁, hits₂, e₁, e₂,
    cdynalru_noninterference p (high ++ low) low (by unfold DisjointBlocks; decide +kernel)
      (by unfold DisjointBlocks; decide +kernel) (by decide +kernel) s₁ s₂ hits₁ hits₂ e₁ e₂⟩

end CDynaLru

end DynamicCache.Tags
