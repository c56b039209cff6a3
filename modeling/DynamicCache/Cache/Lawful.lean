import DynamicCache.Cache.Moves
import DynamicCache.Cache.Variants

/-!
# The four policies are lawful

`SplitRPortCache` and `C_DynamicCache` look into the partition of the asking
thread only (view `Eq`).  In `F_DynamicCache` and `DirtyCache` Low sees its own
partition and every other thread sees Low's and High's (`crossView`).  The
caches start in sound states.
-/

namespace DynamicCache.Cache

open Lib Tags

variable {s s' : Lru} {addr f lat now t : Nat} {blk : Option Nat}

/-- The partitions that a thread of `F_DynamicCache` or `DirtyCache` looks into. -/
def crossView (t t' : Nat) : Prop := t' = 0 ∨ t ≠ 0 ∧ t' = 1

/-! ## LRU -/

theorem lru_access (h : s.accessBlock addr now t = some (s', blk, lat)) :
    blk = s.findBlock addr t ∧ Touched s s' := by
  cases hf : s.findBlock addr t with
  | some f =>
    obtain ⟨s₁, ha, hu⟩ := Lru.accessBlock_hit now hf
    rw [h] at ha
    obtain ⟨rfl, rfl, -⟩ := ha
    exact ⟨rfl, touched_of_upd hu (toFront_perm (mem_of_findBlk hf)) rfl fun _ => rfl⟩
  | none =>
    obtain ⟨s₁, ha, h1, h2, h3, h4, h5⟩ := Lru.accessBlock_miss now hf
    rw [h] at ha
    obtain ⟨rfl, rfl, -⟩ := ha
    refine ⟨rfl, h1, h2, h3, fun t i => ?_, ?_, ?_, ?_, ?_, ?_, ?_, fun f hf => by rw [h5]; exact hf⟩
    · rw [h4]
    all_goals
      intro f
      rw [h5]

theorem Split.lawful : Split.policy.Lawful Eq where
  lookup_some h := ⟨_, rfl, held_of_findBlock h⟩
  lookup_none h t' ht f := ht ▸ not_held_of_findBlock h f
  findBlock_some h := ⟨_, held_of_findBlock h⟩
  access h := by
    obtain ⟨r, hr, he⟩ := Option.map_eq_some_iff.1 h
    obtain ⟨s', blk, lat⟩ := r
    obtain ⟨rfl, -, rfl, -⟩ := he
    exact lru_access hr

theorem CDynamic.lawful : CDynamic.policy.Lawful Eq where
  lookup_some h := ⟨_, rfl, held_of_findBlock h⟩
  lookup_none h t' ht f := ht ▸ not_held_of_findBlock h f
  findBlock_some h := ⟨_, held_of_findBlock h⟩
  access {s ext addr now t s' ext' blk lat} h := by
    obtain ⟨⟨c, blk₁, lat₁⟩, hr, he⟩ := Option.map_eq_some_iff.1 h
    obtain ⟨rfl, -, rfl, -⟩ := he
    unfold CDynaLru.accessBlock at hr
    split at hr
    · cases hr
    · next lru blk₂ lat₂ ha =>
      split at hr
      · obtain ⟨u, -, hu⟩ := Option.map_eq_some_iff.1 hr
        obtain ⟨rfl, rfl, -⟩ := hu
        exact lru_access ha
      · simp only [Option.some.injEq, Prod.mk.injEq] at hr
        obtain ⟨rfl, rfl, -⟩ := hr
        exact lru_access ha

/-! ## F_DYNALRU -/

theorem FDynaLru.findBlock_some (h : FDynaLru.findBlock s addr t = some f) :
    ∃ t', crossView t t' ∧ Held s t' addr f := by
  unfold FDynaLru.findBlock at h
  split at h
  · exact ⟨0, .inl rfl, held_of_findBlock h⟩
  · next ht =>
    split at h
    · next g hg =>
      obtain rfl := Option.some.inj h
      exact ⟨1, .inr ⟨ht, rfl⟩, held_of_findBlock hg⟩
    · exact ⟨0, .inl rfl, held_of_findBlock h⟩

theorem FDynaLru.findBlock_none (h : FDynaLru.findBlock s addr t = none) :
    ∀ t', crossView t t' → ∀ f, ¬Held s t' addr f := by
  unfold FDynaLru.findBlock at h
  rintro t' (rfl | ⟨ht, rfl⟩) f
  · split at h
    · exact not_held_of_findBlock h f
    · split at h
      · cases h
      · exact not_held_of_findBlock h f
  · rw [if_neg ht] at h
    split at h
    · cases h
    · next hn => exact not_held_of_findBlock hn f

theorem FDynaLru.hit_touched (h : FDynaLru.hit s addr now t f = some (s', blk, lat)) :
    blk = some f ∧ Touched s s' := by
  obtain ⟨l, hl, he⟩ := Option.map_eq_some_iff.1 h
  have hm := mem_of_moveToHead hl
  rw [moveToHead_eq hm] at hl
  obtain rfl := Option.some.inj hl
  obtain ⟨rfl, rfl, -⟩ := he
  exact ⟨rfl, touched_of_upd ⟨rfl, rfl, rfl, rfl, rfl⟩ (toFront_perm hm) rfl fun _ => rfl⟩

/-- A High hit in Low counts as a use and moves nothing. -/
theorem touched_putBlk (s : Lru) (f : Nat) {b : CacheBlk}
    (hb : b = { s.blks f with refCount := b.refCount, isTouched := b.isTouched })
    (ht : (s.blks f).isTouched = true → b.isTouched = true) : Touched s (s.putBlk f b) :=
  touched_of_upd (t := 0) (i := 0) (l := s.sets 0 0) ⟨rfl, rfl, rfl, by simp [Lru.putBlk], rfl⟩ (.refl _) hb ht

theorem FDynaLru.access (h : FDynaLru.accessBlock s addr now t = some (s', blk, lat)) :
    blk = FDynaLru.findBlock s addr t ∧ Touched s s' := by
  unfold FDynaLru.accessBlock at h
  unfold FDynaLru.findBlock
  split at h
  · next ht =>
    rw [if_pos ht]
    split at h
    · next f hf => rw [hf]; exact hit_touched h
    · next hf =>
      obtain ⟨rfl, rfl, -⟩ := h
      exact ⟨hf.symm, .refl _⟩
  · next ht =>
    rw [if_neg ht]
    split at h
    · next f hf => exact hit_touched h
    · next hn =>
      split at h
      · next f hf =>
        obtain ⟨rfl, rfl, -⟩ := h
        exact ⟨hf.symm, touched_putBlk s f rfl fun _ => rfl⟩
      · next hf =>
        obtain ⟨rfl, rfl, -⟩ := h
        exact ⟨hf.symm, .refl _⟩

theorem FDynamic.lawful : FDynamic.policy.Lawful crossView where
  lookup_some := FDynaLru.findBlock_some
  lookup_none := FDynaLru.findBlock_none
  findBlock_some h := by
    obtain ⟨t', -, hh⟩ := FDynaLru.findBlock_some h
    exact ⟨t', hh⟩
  access h := by
    obtain ⟨⟨s', blk, lat⟩, hr, he⟩ := Option.map_eq_some_iff.1 h
    obtain ⟨rfl, -, rfl, -⟩ := he
    exact FDynaLru.access hr

/-! ## DCLRU -/

/-- With equal labels a lookup is in Low, and for High then in High. -/
theorem DcLru.findBlock_eq (s : Lru) (addr t : Nat) :
    DcLru.findBlock s addr t t =
      if t = 0 then s.findBlock addr 0
      else if (s.findBlock addr 0).isSome then s.findBlock addr 0 else s.findBlock addr 1 := by
  unfold DcLru.findBlock
  simp only [and_self]
  by_cases h0 : t = 0
  · rw [if_pos h0, if_pos h0]
    rfl
  · rw [if_neg h0, if_neg h0]
    by_cases h1 : t = 1
    · rw [if_pos h1]
      rfl
    · rw [if_neg h1, if_neg (fun h => h0 h.1)]
      rfl

theorem DcLru.findBlock_some (h : DcLru.findBlock s addr t t = some f) :
    ∃ t', crossView t t' ∧ Held s t' addr f := by
  rw [findBlock_eq] at h
  split at h
  · exact ⟨0, .inl rfl, held_of_findBlock h⟩
  · next ht =>
    split at h
    · exact ⟨0, .inl rfl, held_of_findBlock h⟩
    · exact ⟨1, .inr ⟨ht, rfl⟩, held_of_findBlock h⟩

theorem DcLru.findBlock_none (h : DcLru.findBlock s addr t t = none) :
    ∀ t', crossView t t' → ∀ f, ¬Held s t' addr f := by
  rw [findBlock_eq] at h
  rintro t' (rfl | ⟨ht, rfl⟩) f
  · split at h
    · exact not_held_of_findBlock h f
    · split at h
      · next hs => rw [h] at hs; cases hs
      · next hs => exact not_held_of_findBlock (by simpa using hs) f
  · rw [if_neg ht] at h
    split at h
    · next hs => rw [h] at hs; cases hs
    · exact not_held_of_findBlock h f

theorem DcLru.access (h : DcLru.accessBlock s addr now t t = some (s', blk, lat)) :
    blk = DcLru.findBlock s addr t t ∧ Touched s s' := by
  unfold DcLru.accessBlock at h
  split at h
  · next hf =>
    obtain ⟨rfl, rfl, -⟩ := h
    exact ⟨hf.symm, .refl _⟩
  · next f hf =>
    obtain ⟨l, hl, he⟩ := Option.map_eq_some_iff.1 h
    have hm := mem_of_moveToHead hl
    rw [moveToHead_eq hm] at hl
    obtain rfl := Option.some.inj hl
    obtain ⟨rfl, rfl, -⟩ := he
    exact ⟨hf.symm, touched_of_upd ⟨rfl, rfl, rfl, rfl, rfl⟩ (toFront_perm hm) rfl fun h => h⟩

/-- Snoops and sends look into the thread's own partition only. -/
theorem Dirty.lawful : Dirty.policy.Lawful crossView where
  lookup_some := DcLru.findBlock_some
  lookup_none := DcLru.findBlock_none
  findBlock_some h := ⟨_, held_of_findBlock h⟩
  access h := by
    obtain ⟨⟨s', blk, lat⟩, hr, he⟩ := Option.map_eq_some_iff.1 h
    obtain ⟨rfl, -, rfl, -⟩ := he
    exact DcLru.access hr

/-! ## Initial states -/

theorem queueOk_init (g : Geometry) (t entries reserve : Nat) : QueueOk g t (.init entries reserve) where
  nodup := List.nodup_range
  ready r := by simp [MshrQueue.init]
  readyNodup := List.nodup_nil
  busy r h := by cases h
  regs r := ⟨rfl, fun x hx => (by obtain hx | hx := hx <;> cases hx), fun _ => rfl⟩
  free r _ := rfl

theorem sound_init {ε : Type} {g : Geometry} {cfg : Config} {tags : Lru} {ext : ε} {mshrs writeBuffers : Nat}
    {n : Nat} (hg : tags.geo = g) (hF : Lru.Frames n tags) :
    Sound n g (State.init cfg tags ext mshrs writeBuffers) where
  geo := hg
  frames := hF
  ctl ref := by
    unfold Control.queue
    split <;> exact queueOk_init _ _ _ _
  bus := ⟨List.nodup_nil, fun f hf => (by cases hf), fun f hf => (by cases hf), fun f hf => by cases hf⟩

theorem Split.sound_init (cfg : Config) (geo : Geometry) (maxMasters numTcs mshrs writeBuffers : Nat) :
    Sound numTcs geo (Split.init cfg geo maxMasters numTcs mshrs writeBuffers) :=
  Cache.sound_init rfl (@Lru.frames_initSets (wplruWays geo.assoc numTcs) geo maxMasters numTcs fun _ => 0)

theorem CDynamic.sound_init (cfg : Config) (p : CDynaParams) (mshrs writeBuffers : Nat) :
    Sound 2 p.geo (CDynamic.init cfg p mshrs writeBuffers) :=
  Cache.sound_init rfl (@Lru.frames_initSets (CDynaLru.assocOfTc p.lAssoc (p.geo.assoc - p.lAssoc)) p.geo
    p.maxMasters 2 fun tc => tc)

theorem FDynamic.sound_init (cfg : Config) (geo : Geometry) (maxMasters mshrs writeBuffers : Nat) :
    Sound 2 geo (FDynamic.init cfg geo maxMasters mshrs writeBuffers) :=
  Cache.sound_init rfl (@Lru.frames_initSets (FDynaLru.assocOfTc geo.assoc) geo maxMasters 2 fun tc => tc)

theorem Dirty.sound_init (cfg : Config) (geo : Geometry) (maxMasters mshrs writeBuffers : Nat) :
    Sound 2 geo (Dirty.init cfg geo maxMasters mshrs writeBuffers) :=
  Cache.sound_init rfl (@Lru.frames_initSets (DcLru.assocOfTc geo.assoc) geo maxMasters 2 fun _ => 0)

end DynamicCache.Cache
