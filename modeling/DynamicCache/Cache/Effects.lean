import DynamicCache.Cache.Serve

/-!
# What accesses and fills do to the blocks

The functions of `Cache.Storage` taken apart: the frame that `allocateBlock`
offers, the block that a fill leaves, and the outcomes of `access`
(`Outcome`).  A policy is `Lawful` for a relation `view` when a thread finds
exactly the blocks of the partitions in its view, and when an access only
touches blocks.
-/

namespace DynamicCache.Cache

open Lib Tags

variable {ε : Type}

/-! ## Policies -/

/-- Lists are reordered and use counters change. -/
structure Touched (s s' : Lru) : Prop where
  geo : s'.geo = s.geo
  maxMasters : s'.maxMasters = s.maxMasters
  assocOfTc : s'.assocOfTc = s.assocOfTc
  perm : ∀ t i, (s'.sets t i).Perm (s.sets t i)
  tag : ∀ f, (s'.blks f).tag = (s.blks f).tag
  set : ∀ f, (s'.blks f).set = (s.blks f).set
  threadID : ∀ f, (s'.blks f).threadID = (s.blks f).threadID
  srcMasterId : ∀ f, (s'.blks f).srcMasterId = (s.blks f).srcMasterId
  status : ∀ f, (s'.blks f).status = (s.blks f).status
  data : ∀ f, (s'.blks f).data = (s.blks f).data
  touched : ∀ f, (s.blks f).isTouched = true → (s'.blks f).isTouched = true

variable {addr f now t tid : Nat} {pkt pkt' : Packet} {s : Lru} {wbs : List Packet} {store : Storage ε}

theorem Touched.refl (s : Lru) : Touched s s :=
  ⟨rfl, rfl, rfl, fun _ _ => .refl _, fun _ => rfl, fun _ => rfl, fun _ => rfl, fun _ => rfl, fun _ => rfl,
    fun _ => rfl, fun _ h => h⟩

theorem Touched.quiet {s' : Lru} (h : Touched s s') : Lru.Quiet s s' where
  geo := h.geo
  maxMasters := h.maxMasters
  assocOfTc := h.assocOfTc
  perm := h.perm
  tag := h.tag
  set := h.set
  threadID := h.threadID
  touched f _ := h.touched f
  valid f hv := by
    rw [CacheBlk.isValid, h.status] at hv
    exact ⟨hv, h.srcMasterId f⟩

/-- An update of one list and of the use counters of one frame. -/
theorem touched_of_upd {s' : Lru} {i : Nat} {l : List Nat} {b : CacheBlk} (hu : Lru.Upd s s' t i l f b)
    (hp : l.Perm (s.sets t i)) (hb : b = { s.blks f with refCount := b.refCount, isTouched := b.isTouched })
    (ht : (s.blks f).isTouched = true → b.isTouched = true) : Touched s s' := by
  have hblk : ∀ g, ∃ r u, s'.blks g = { s.blks g with refCount := r, isTouched := u } ∧
      ((s.blks g).isTouched = true → u = true) := by
    intro g
    rw [hu.blks_apply]
    split
    · next hg =>
      rw [hg]
      exact ⟨_, _, hb, ht⟩
    · exact ⟨_, _, rfl, fun h => h⟩
  refine ⟨hu.geo, hu.maxMasters, hu.assocOfTc, fun t' i' => ?_, ?_, ?_, ?_, ?_, ?_, ?_, fun g hg => ?_⟩
  · rw [hu.sets_apply]
    split
    · next h => rw [h.1, h.2]; exact hp
    · exact .refl _
  on_goal 7 =>
    obtain ⟨r, u, h, hu⟩ := hblk g
    rw [h]
    exact hu hg
  all_goals
    intro g
    obtain ⟨r, u, h, -⟩ := hblk g
    rw [h]

/-- Frame `f` of partition `t` holds the block of `addr`. -/
def Held (s : Lru) (t addr f : Nat) : Prop :=
  f ∈ s.sets t (s.geo.extractSet addr) ∧ (s.blks f).tag = s.geo.extractTag addr ∧ (s.blks f).isValid = true

theorem held_of_findBlock (h : s.findBlock addr t = some f) : Held s t addr f := by
  obtain ⟨ht, hv⟩ := holds_of_findBlk h
  exact ⟨mem_of_findBlk h, ht, hv⟩

theorem not_held_of_findBlock (h : s.findBlock addr t = none) (f : Nat) : ¬Held s t addr f := by
  rintro ⟨hf, ht, hv⟩
  have := List.find?_eq_none.1 h f hf
  exact this (by simp [holds, ht, hv])

structure Policy.Lawful (P : Policy ε) (view : Nat → Nat → Prop) : Prop where
  lookup_some : ∀ {s addr t f}, P.lookup s addr t = some f → ∃ t', view t t' ∧ Held s t' addr f
  lookup_none : ∀ {s addr t}, P.lookup s addr t = none → ∀ t', view t t' → ∀ f, ¬Held s t' addr f
  findBlock_some : ∀ {s addr t f}, P.findBlock s addr t = some f → ∃ t', Held s t' addr f
  access : ∀ {s ext addr now t s' ext' blk lat},
    P.accessBlock s ext addr now t = some (s', ext', blk, lat) → blk = P.lookup s addr t ∧ Touched s s'

namespace Storage

variable {b : BlkRef} {t n : Nat} {s s' s'' : Storage ε} {P : Policy ε} {c : Control}

/-! ## Allocation -/

/-- The frame for a new block: the victim, which is written back if it is dirty. -/
structure Victim (c : Control) (addr tid : Nat) (s s' : Storage ε) (f : Nat) (wbs : List Packet) : Prop where
  victim : s.tags.findVictim addr tid = some f
  free : (s.tags.blks f).isValid = true → (c.mshrQueues (s.tags.blks f).threadID).findMatch
    (s.tags.geo.regenerateBlkAddr (s.tags.blks f).tag (s.tags.blks f).set) = none
  clean : (s' = s ∧ wbs = [] ∧ ((s.tags.blks f).isValid = true → (s.tags.blks f).isDirty = false)) ∨
    ((s.tags.blks f).isValid = true ∧ (s.tags.blks f).isDirty = true ∧ s' = s.modify (.frame f) cleaned ∧
      wbs = [s.writebackPacket (.frame f) (s.tags.blks f).threadID])

/-- The victim is valid and waits for an upgrade. -/
def Waits (c : Control) (addr tid : Nat) (s : Storage ε) : Prop :=
  ∃ f, s.tags.findVictim addr tid = some f ∧ (s.tags.blks f).isValid = true ∧
    ((c.mshrQueues (s.tags.blks f).threadID).findMatch
      (s.tags.geo.regenerateBlkAddr (s.tags.blks f).tag (s.tags.blks f).set)).isSome = true

theorem allocateBlock_ok {v : Option Nat} (h : s.allocateBlock c addr tid = .ok (s', v, wbs)) :
    (v = none ∧ s' = s ∧ wbs = [] ∧ Waits c addr tid s) ∨
      ∃ f, v = some f ∧ Victim c addr tid s s' f wbs := by
  unfold allocateBlock at h
  split at h
  · cases h
  · next f hf =>
    simp only at h
    split at h
    · next hv =>
      split at h
      · next r hr =>
        simp only [bind_ok] at h
        obtain ⟨-, -, -, -, h⟩ := h
        cases h
        exact .inl ⟨rfl, rfl, rfl, f, hf, hv, by rw [hr]; rfl⟩
      · next hr =>
        split at h
        · next hd =>
          simp only [bind_ok] at h
          obtain ⟨⟨s₁, wb⟩, hw, h⟩ := h
          cases h
          obtain ⟨-, -, rfl, rfl⟩ := writebackBlk_ok hw
          exact .inr ⟨f, rfl, hf, fun _ => hr, .inr ⟨hv, hd, rfl, rfl⟩⟩
        · next hd =>
          cases h
          exact .inr ⟨f, rfl, hf, fun _ => hr, .inl ⟨rfl, rfl, fun _ => by simpa using hd⟩⟩
    · next hv =>
      cases h
      exact .inr ⟨f, rfl, hf, fun h => absurd h hv, .inl ⟨rfl, rfl, fun h => absurd h hv⟩⟩

theorem Victim.serve (h : Victim c addr tid s s' f wbs) : Serve false (.frame f) t n s s' := by
  obtain ⟨rfl, -, -⟩ | ⟨-, -, rfl, -⟩ := h.clean
  · exact .refl _
  · exact serve_modify (cleaned_weaker _)

theorem insertBlock_ok {masterId : Nat} (h : s.insertBlock addr f masterId tid now = .ok s') :
    ∃ tags, s.tags.insertBlock addr f masterId tid now = some tags ∧ s' = { s with tags := tags } := by
  simp only [insertBlock, bind_ok, orFail_ok] at h
  obtain ⟨-, -, -, -, tags, ht, h⟩ := h
  cases h
  exact ⟨tags, ht, rfl⟩

/-! ## Fills -/

/-- The block that a response leaves. -/
def filledBlk (dirtyFill : Bool) (pkt : Packet) (x : CacheBlk) : CacheBlk :=
  { x with
    status := fillStatus dirtyFill pkt x.status
    data := if pkt.isRead then pkt.data else x.data
    whenReady := pkt.finishTime }

theorem fillBlock_none (h : s.fillBlock P pkt b none = .ok s') :
    s' = { s.putBlk b (filledBlk P.dirtyFill pkt (s.blk b)) with
      source := if pkt.isRead then Function.update s.source b pkt.threadID else s.source } := by
  simp only [fillBlock, fillData, bind_ok] at h
  obtain ⟨s₁, h1, h⟩ := h
  cases h
  split at h1
  · next hr =>
    cases h1
    cases b <;> simp [modify, putBlk, putData, blk, Lru.putBlk, filledBlk, hr]
  · next hr =>
    cases h1
    cases b <;> simp [modify, putBlk, blk, Lru.putBlk, filledBlk, hr]

theorem fillBlock_geo {blkH : Option Nat} (h : s.fillBlock P pkt b blkH = .ok s') :
    s'.tags.geo = s.tags.geo := by
  simp only [fillBlock, bind_ok] at h
  obtain ⟨s₁, h1, h⟩ := h
  cases h
  rw [modify, putBlk_geo]
  unfold fillData at h1
  split at h1
  · split at h1
    · cases h1
      simp only [putData, modify, putBlk_geo]
    · rw [(invalidateBlk_same h1).geo]
      simp only [putData, modify, putBlk_geo]
  · cases h1
    rw [modify, putBlk_geo]

/-- The storage after a block was inserted in frame `f`, with status `st`. -/
def newBlk (s : Storage ε) (tags : Lru) (f : Nat) (st : BlkStatus) : Storage ε :=
  ({ s with tags := tags } : Storage ε).modify (.frame f) fun x => { x with status := st }

theorem newBlk_inserted {tags : Lru} {masterId : Nat} (st : BlkStatus)
    (h : s.tags.insertBlock addr f masterId tid now = some tags) :
    Lru.Inserted s.tags (s.newBlk tags f st).tags tid addr f :=
  (Lru.inserted_of_insertBlock h).putBlk rfl rfl rfl rfl rfl

/-- The frame or `tempBlock` that a new block starts in. -/
theorem fillTarget_cases {victim : Option Nat} (h : s.fillTarget now pkt victim = .ok (s', b)) :
    (victim = none ∧ b = .temp ∧ s.tempBlock.isValid = false ∧ s' = s.modify .temp fun x =>
        { x with set := s.tags.geo.extractSet pkt.addr, tag := s.tags.geo.extractTag pkt.addr, status := {} }) ∨
      ∃ f tags, victim = some f ∧ b = .frame f ∧
        s.tags.insertBlock pkt.addr f pkt.req.masterId pkt.threadID now = some tags ∧
        s' = s.newBlk tags f {} := by
  unfold fillTarget at h
  split at h
  · simp only [bind_ok, assert, check_ok, Bool.not_eq_true'] at h
    obtain ⟨-, hv, h⟩ := h
    cases h
    exact .inl ⟨rfl, rfl, hv, rfl⟩
  · next f =>
    simp only [bind_ok] at h
    obtain ⟨s₁, hi, h⟩ := h
    cases h
    obtain ⟨tags, ht, rfl⟩ := insertBlock_ok hi
    exact .inr ⟨f, tags, rfl, rfl, ht, rfl⟩

theorem uncacheable_cases (h : s.uncacheable P pkt = .ok s') : (pkt.req.isClearLL = true ∧
      s' = { s with tags := { s.tags with blks := fun f => (s.tags.blks f).clearLoadLocks } }) ∨
    (pkt.req.isClearLL = false ∧ pkt.isWrite = true ∧ P.lookup s.tags pkt.addr pkt.threadID = none ∧
      s' = s.accept pkt) ∨
    (pkt.req.isClearLL = false ∧ pkt.isWrite = true ∧ ∃ f, P.lookup s.tags pkt.addr pkt.threadID = some f ∧
      (s.accept pkt).invalidateBlk (.frame f) (P.locate s.tags pkt.addr pkt.threadID) = .ok s') ∨
    (pkt.req.isClearLL = false ∧ pkt.isWrite = false ∧ s' = s) := by
  unfold uncacheable at h
  split at h
  · next hl =>
    cases h
    exact .inl ⟨hl, rfl⟩
  · next hl =>
    have hl : pkt.req.isClearLL = false := Bool.eq_false_iff.2 hl
    split at h
    · next hw =>
      split at h
      · next hn =>
        cases h
        exact .inr (.inl ⟨hl, hw, hn, rfl⟩)
      · next f hf => exact .inr (.inr (.inl ⟨hl, hw, f, hf, h⟩))
    · next hw =>
      cases h
      exact .inr (.inr (.inr ⟨hl, Bool.eq_false_iff.2 hw, rfl⟩))

/-- The three ways in which a response fills a block: the block that was found,
the frame of a victim, and `tempBlock`. -/
theorem handleFill_cases {found : Option Nat} (h : s.handleFill P c now pkt found = .ok (s', b, wbs)) :
    (∃ f, found = some f ∧ b = .frame f ∧ wbs = [] ∧
      (pkt.hasData = true ∨ (s.tags.blks f).isValid = true) ∧
      ({ s with overwrote := s.overwrote ||
          (pkt.isRead && (s.tags.blks f).isValid && (s.tags.blks f).isDirty) } : Storage ε).fillBlock P pkt
        (.frame f) none = .ok s') ∨
    (found = none ∧ pkt.hasData = true ∧ ∃ f s₁ tags, b = .frame f ∧
      Victim c pkt.addr pkt.threadID s s₁ f wbs ∧
      s₁.tags.insertBlock pkt.addr f pkt.req.masterId pkt.threadID now = some tags ∧
      (s₁.newBlk tags f {}).fillBlock P pkt (.frame f) (P.fakeMiss s.tags pkt.addr) = .ok s') ∨
    (found = none ∧ pkt.hasData = true ∧ b = .temp ∧ wbs = [] ∧ Waits c pkt.addr pkt.threadID s ∧
      s.tempBlock.isValid = false ∧
      (s.modify .temp fun x =>
        { x with set := s.tags.geo.extractSet pkt.addr, tag := s.tags.geo.extractTag pkt.addr,
                 status := {} }).fillBlock P pkt .temp (P.fakeMiss s.tags pkt.addr) = .ok s') := by
  unfold handleFill at h
  split at h
  · simp only [bind_ok, assert, check_ok] at h
    obtain ⟨-, hd, ⟨s₁, v, w⟩, hb, ⟨s₂, b'⟩, ht, s₃, hf, h⟩ := h
    cases h
    obtain ⟨rfl, rfl, rfl, hw⟩ | ⟨f, rfl, hv⟩ := allocateBlock_ok hb
    · obtain ⟨-, rfl, htemp, rfl⟩ | ⟨f, tags, hf', -⟩ := fillTarget_cases ht
      · exact .inr (.inr ⟨rfl, hd, rfl, rfl, hw, htemp, hf⟩)
      · cases hf'
    · obtain ⟨hf', -⟩ | ⟨f', tags, hf', rfl, hi, rfl⟩ := fillTarget_cases ht
      · cases hf'
      · cases hf'
        exact .inr (.inl ⟨rfl, hd, f, s₁, tags, rfl, hv, hi, hf⟩)
  · next f =>
    simp only [bind_ok, assert, check_ok, Bool.or_eq_true] at h
    obtain ⟨-, -, -, hv, s₁, hf, h⟩ := h
    cases h
    exact .inl ⟨f, rfl, rfl, rfl, hv, hf⟩

theorem handleFill_geo {found : Option Nat} (h : s.handleFill P c now pkt found = .ok (s', b, wbs)) :
    s'.tags.geo = s.tags.geo := by
  obtain ⟨f, -, -, -, -, hf⟩ | ⟨-, -, f, s₁, tags, -, hv, hi, hf⟩ | ⟨-, -, -, -, -, -, hf⟩ := handleFill_cases h
  · have hg := fillBlock_geo hf
    exact hg
  · rw [fillBlock_geo hf, (newBlk_inserted _ hi).geo]
    exact (hv.serve (t := 0) (n := 0)).same.geo
  · rw [fillBlock_geo hf, modify, putBlk_geo]

/-! ## Accesses -/

/-- The storage after the tag store was accessed. -/
def withTags (s : Storage ε) (tags : Lru) (ext : ε) : Storage ε := { s with tags := tags, ext := ext }

/-- The outcomes of `access`, each with the result it returns. -/
inductive Outcome (P : Policy ε) (cfg : Config) (c : Control) (now : Nat) (pkt : Packet) (s : Storage ε) :
    AccessResult ε → Prop where
  | hit {tags : Lru} {ext : ε} {f lat : Nat} {s' : Storage ε} {pkt' : Packet}
      (ha : P.accessBlock s.tags s.ext pkt.addr now pkt.threadID = some (tags, ext, some f, lat))
      (hp : permits pkt (tags.blks f) = true)
      (hs : (s.withTags tags ext).satisfyCpuSideRequest cfg pkt (.frame f) false false = .ok (s', pkt')) :
      Outcome P cfg c now pkt s ⟨s', pkt', some f, lat, [], true⟩
  | onto {tags : Lru} {ext : ε} {f lat : Nat}
      (ha : P.accessBlock s.tags s.ext pkt.addr now pkt.threadID = some (tags, ext, some f, lat))
      (hc : pkt.cmd = .writeback) :
      Outcome P cfg c now pkt s ⟨(s.withTags tags ext).writebackInto pkt f, pkt, some f, lat, [], true⟩
  | upgrade {tags : Lru} {ext : ε} {f lat : Nat}
      (ha : P.accessBlock s.tags s.ext pkt.addr now pkt.threadID = some (tags, ext, some f, lat))
      (hp : permits pkt (tags.blks f) = false) (hc : pkt.cmd ≠ .writeback) :
      Outcome P cfg c now pkt s ⟨s.withTags tags ext, pkt, some f, lat, [], false⟩
  | new {tags tags' : Lru} {ext : ε} {f lat : Nat} {s' : Storage ε} {wbs : List Packet}
      (ha : P.accessBlock s.tags s.ext pkt.addr now pkt.threadID = some (tags, ext, none, lat))
      (hc : pkt.cmd = .writeback)
      (hv : Victim c pkt.addr pkt.threadID (s.withTags tags ext) s' f wbs)
      (hi : s'.tags.insertBlock pkt.addr f pkt.req.masterId pkt.threadID now = some tags') :
      Outcome P cfg c now pkt s
        ⟨(s'.newBlk tags' f { valid := true, readable := true }).writebackInto pkt f, pkt, some f, lat, wbs, true⟩
  | noRoom {tags : Lru} {ext : ε} {lat : Nat}
      (ha : P.accessBlock s.tags s.ext pkt.addr now pkt.threadID = some (tags, ext, none, lat))
      (hc : pkt.cmd = .writeback) (hw : Waits c pkt.addr pkt.threadID (s.withTags tags ext)) :
      Outcome P cfg c now pkt s ⟨s.withTags tags ext, pkt, none, lat, [], false⟩
  | failed {tags : Lru} {ext : ε} {lat : Nat}
      (ha : P.accessBlock s.tags s.ext pkt.addr now pkt.threadID = some (tags, ext, none, lat))
      (hw : pkt.isWrite = true) :
      Outcome P cfg c now pkt s
        ⟨s.withTags tags ext, { pkt with req := { pkt.req with extraData := 0 } }, none, lat, [], true⟩
  | miss {tags : Lru} {ext : ε} {lat : Nat}
      (ha : P.accessBlock s.tags s.ext pkt.addr now pkt.threadID = some (tags, ext, none, lat))
      (hc : pkt.cmd ≠ .writeback) :
      Outcome P cfg c now pkt s ⟨s.withTags tags ext, pkt, none, lat, [], false⟩

theorem access_outcome {cfg : Config} {r : AccessResult ε} (h : s.access P cfg c now pkt = .ok r) :
    Outcome P cfg c now pkt s r := by
  simp only [access, bind_ok, orFail_ok] at h
  obtain ⟨⟨tags, ext, blk, lat⟩, ha, h⟩ := h
  cases blk with
  | some f =>
    simp only at h
    split at h
    · next hp =>
      simp only [bind_ok] at h
      obtain ⟨-, -, ⟨s₁, pkt₁⟩, hs, h⟩ := h
      cases h
      exact .hit ha hp hs
    · next hp =>
      split at h
      · next hc =>
        simp only [accessWriteback, bind_ok] at h
        obtain ⟨-, -, -, -, -, -, h⟩ := h
        cases h
        exact .onto ha hc
      · next hc =>
        cases h
        exact .upgrade ha (by simpa using hp) hc
  | none =>
    simp only at h
    split at h
    · next hc =>
      simp only [accessWriteback, bind_ok] at h
      obtain ⟨-, -, ⟨s₁, v, wbs⟩, hb, h⟩ := h
      obtain ⟨rfl, rfl, rfl, hw⟩ | ⟨f, rfl, hv⟩ := allocateBlock_ok hb
      · cases h
        exact .noRoom ha hc hw
      · simp only [bind_ok] at h
        obtain ⟨s₂, hi, -, -, h⟩ := h
        cases h
        obtain ⟨tags', ht, rfl⟩ := insertBlock_ok hi
        exact .new ha hc hv ht
    · next hc =>
      split at h
      · next hf =>
        cases h
        rw [Bool.and_eq_true] at hf
        exact .failed ha hf.2
      · cases h
        exact .miss ha hc

/-! ## Effects of a packet -/

/-- What request `pkt` may do to the blocks, with the writebacks it makes; `c` is
the control state that allocations look at. -/
inductive Access (P : Policy ε) (c : Control) (pkt : Packet) (s : Storage ε) : Storage ε → List Packet → Prop where
  | same : Access P c pkt s s []
  | flush {s' : Storage ε} (hu : pkt.req.isUncacheable = true) (h : s.uncacheable P pkt = .ok s') :
      Access P c pkt s s' []
  | hit {now : Nat} {tags : Lru} {ext : ε} {f lat : Nat} {x : Bool} {s' : Storage ε}
      (ha : P.accessBlock s.tags s.ext pkt.addr now pkt.threadID = some (tags, ext, some f, lat))
      (hc : pkt.cmd ≠ .writeback) (hx : x = true → pkt.needsExclusive = true ∧ (tags.blks f).isWritable = true)
      (hs : Serve x (.frame f) pkt.threadID (tags.geo.blkAddr pkt.addr) (s.withTags tags ext) s') :
      Access P c pkt s s' []
  | miss {now : Nat} {tags : Lru} {ext : ε} {lat : Nat}
      (ha : P.accessBlock s.tags s.ext pkt.addr now pkt.threadID = some (tags, ext, none, lat)) :
      Access P c pkt s (s.withTags tags ext) []
  | forwarded {now : Nat} {tags : Lru} {ext : ε} {lat : Nat}
      (ha : P.accessBlock s.tags s.ext pkt.addr now pkt.threadID = some (tags, ext, none, lat))
      (hc : pkt.cmd = .writeback) :
      Access P c pkt s ((s.withTags tags ext).acceptBlock pkt) []
  | writebackHit {cfg : Config} {now : Nat} {tags : Lru} {ext : ε} {f lat : Nat} {s' s'' : Storage ε} {pkt' : Packet}
      (ha : P.accessBlock s.tags s.ext pkt.addr now pkt.threadID = some (tags, ext, some f, lat))
      (hc : pkt.cmd = .writeback)
      (hs : (s.withTags tags ext).satisfyCpuSideRequest cfg pkt (.frame f) false false = .ok (s', pkt'))
      (hm : Serve false (.frame f) pkt.threadID (s.tags.geo.blkAddr pkt.addr) s' s'') :
      Access P c pkt s s'' []
  | writebackOver {now : Nat} {tags : Lru} {ext : ε} {f lat : Nat} {s' : Storage ε}
      (ha : P.accessBlock s.tags s.ext pkt.addr now pkt.threadID = some (tags, ext, some f, lat))
      (hc : pkt.cmd = .writeback)
      (hm : Serve false (.frame f) pkt.threadID (s.tags.geo.blkAddr pkt.addr)
        ((s.withTags tags ext).writebackInto pkt f) s') :
      Access P c pkt s s' []
  | writebackNew {now : Nat} {tags tags' : Lru} {ext : ε} {f lat : Nat} {s₁ s' : Storage ε} {wbs : List Packet}
      (ha : P.accessBlock s.tags s.ext pkt.addr now pkt.threadID = some (tags, ext, none, lat))
      (hc : pkt.cmd = .writeback)
      (hv : Victim c pkt.addr pkt.threadID (s.withTags tags ext) s₁ f wbs)
      (hi : s₁.tags.insertBlock pkt.addr f pkt.req.masterId pkt.threadID now = some tags')
      (hm : Serve false (.frame f) pkt.threadID (s.tags.geo.blkAddr pkt.addr)
        ((s₁.newBlk tags' f { valid := true, readable := true }).writebackInto pkt f) s') :
      Access P c pkt s s' wbs

/-- What response `pkt` may do to the blocks. -/
inductive Response (P : Policy ε) (c : Control) (pkt : Packet) (s : Storage ε) : Storage ε → List Packet → Prop where
  | same : Response P c pkt s s []
  | filled {now : Nat} {b : BlkRef} {s₁ s₂ s' : Storage ε} {wbs wbs' : List Packet}
      (hk : pkt.isRead = true ∨ pkt.cmd = .upgradeResp)
      (hf : s.handleFill P c now pkt (P.lookup s.tags pkt.addr pkt.threadID) = .ok (s₁, b, wbs))
      (hs : Serve true b pkt.threadID (s.tags.geo.blkAddr pkt.addr) s₁ s₂)
      (hc : State.clearTemp s₂ (some b) pkt.threadID = .ok (s', wbs')) :
      Response P c pkt s s' (wbs ++ wbs')
  | found {f : Nat} {s' : Storage ε} (hl : P.lookup s.tags pkt.addr pkt.threadID = some f)
      (hs : Serve true (.frame f) pkt.threadID (s.tags.geo.blkAddr pkt.addr) s s') :
      Response P c pkt s s' []

/-- What a snoop may do to the blocks. -/
def Snooped (P : Policy ε) (pkt : Packet) (s s' : Storage ε) : Prop :=
  s' = s ∨ ∃ f, P.findBlock s.tags pkt.addr pkt.threadID = some f ∧
    Serve pkt.isInvalidate (.frame f) pkt.threadID (s.tags.geo.blkAddr pkt.addr) s s'

/-- What the handling of a packet may do to the blocks. -/
inductive Effect (P : Policy ε) (c : Control) (pkt : Packet) (s s' : Storage ε) (wbs : List Packet) : Prop where
  | access (h : Access P c pkt s s' wbs)
  | response (h : Response P c pkt s s' wbs)
  | snooped (h : Snooped P pkt s s') (hw : wbs = [])

end Storage

namespace State

open Storage

variable {s s' : State ε} {P : Policy ε} {pkt : Packet}

theorem usePrefetched_serve {x : Bool} {n : Nat} (s : State ε) (store : Storage ε) :
    Serve x (.frame f) t n store (s.usePrefetched store (some f)) := by
  unfold usePrefetched
  simp only
  split
  · exact serve_modify ⟨rfl, rfl, rfl, rfl, rfl, rfl, fun h => h, fun h => h, fun h => h⟩
  · exact .refl _

theorem satisfied_store {r : AccessResult ε} (h : s.satisfied r = .ok s') :
    s'.store = s.usePrefetched r.store r.blk ∧ s'.ctl = s.ctl ∧ s'.bus = s.bus ∧ s'.now = s.now ∧ s'.cfg = s.cfg := by
  unfold satisfied at h
  split at h
  · simp only [bind_ok] at h
    obtain ⟨pkt, -, h⟩ := h
    cases h
    exact ⟨rfl, rfl, rfl, rfl, rfl⟩
  · cases h
    exact ⟨rfl, rfl, rfl, rfl, rfl⟩

theorem mshrHit_store {r : Nat} (h : s.mshrHit store pkt r = .ok s') : s'.store = store := by
  simp only [mshrHit, bind_ok] at h
  obtain ⟨m, -, ctl, -, h⟩ := h
  cases h
  rfl

/-- The block that an upgrade waits for is only hidden. -/
theorem hideBlock_serve {x : Bool} {n : Nat} {store' : Storage ε}
    (h : hideBlock store pkt (some f) = .ok store') : Serve x (.frame f) t n store store' := by
  unfold hideBlock at h
  simp only at h
  split at h
  · simp only [bind_ok] at h
    obtain ⟨-, -, h⟩ := h
    cases h
    exact serve_modify ⟨rfl, rfl, rfl, rfl, rfl, rfl, fun h => h, fun h => h, fun h => h⟩
  · cases h
    exact .refl _

theorem mshrMiss_store {blk : Option Nat} (h : s.mshrMiss store pkt blk = .ok s') :
    (pkt.cmd = .writeback ∧ s'.store = store.acceptBlock pkt) ∨
      (pkt.cmd ≠ .writeback ∧ hideBlock store pkt blk = .ok s'.store) := by
  unfold mshrMiss at h
  split at h
  · next hc =>
    simp only [bind_ok] at h
    obtain ⟨⟨ctl, ref⟩, -, h⟩ := h
    cases h
    exact .inl ⟨hc, rfl⟩
  · next hc =>
    simp only [bind_ok] at h
    obtain ⟨store', hh, ⟨ctl, ref⟩, -, h⟩ := h
    cases h
    exact .inr ⟨hc, hh⟩

theorem missed_store {r : AccessResult ε} (h : s.missed r = .ok s') :
    s'.store = r.store ∨ (r.pkt.cmd = .writeback ∧ s'.store = r.store.acceptBlock r.pkt) ∨
      (r.pkt.cmd ≠ .writeback ∧ hideBlock r.store r.pkt r.blk = .ok s'.store) := by
  simp only [missed, bind_ok] at h
  obtain ⟨-, -, h⟩ := h
  split at h
  · exact .inl (mshrHit_store h)
  · exact .inr (mshrMiss_store h)

theorem hideBlock_none {store' : Storage ε} (h : hideBlock store pkt none = .ok store') : store' = store := by
  cases h
  rfl

/-- A cacheable request: the blocks it changes and the writebacks that are then queued. -/
theorem cacheableAccess_effect (h : s.cacheableAccess P pkt = .ok s') :
    ∃ r, s.store.access P s.cfg s.ctl s.now pkt = .ok r ∧ Access P s.ctl pkt s.store s'.store r.writebacks := by
  simp only [cacheableAccess, bind_ok] at h
  obtain ⟨r, hr, s₁, hs, ctl, -, h⟩ := h
  cases h
  refine ⟨r, hr, ?_⟩
  cases access_outcome hr with
  | @hit tags ext f lat s₂ pkt' ha hp hsat =>
    rw [(satisfied_store hs).1]
    by_cases hw : pkt.cmd = .writeback
    · exact .writebackHit ha hw hsat (usePrefetched_serve s s₂)
    · refine .hit ha hw (fun hx => ⟨hx, ?_⟩)
        (((satisfyCpuSideRequest_serve hsat).1 hw).trans (usePrefetched_serve s s₂))
      rwa [permits, if_pos hx] at hp
  | onto ha hc =>
    rw [(satisfied_store hs).1]
    exact .writebackOver ha hc (usePrefetched_serve s _)
  | @upgrade tags ext f lat ha hp hc =>
    have hx : false = true → pkt.needsExclusive = true ∧ (tags.blks f).isWritable = true := fun h => by cases h
    obtain h | ⟨hw, -⟩ | ⟨-, h⟩ := missed_store hs
    · rw [h]
      exact .hit ha hc hx (.refl _)
    · exact absurd hw hc
    · exact .hit ha hc hx (hideBlock_serve h)
  | new ha hc hv hi =>
    rw [(satisfied_store hs).1]
    exact .writebackNew ha hc hv hi (usePrefetched_serve s _)
  | noRoom ha hc hw =>
    obtain h | ⟨-, h⟩ | ⟨hne, -⟩ := missed_store hs
    · rw [h]
      exact .miss ha
    · rw [h]
      exact .forwarded ha hc
    · exact absurd hc hne
  | failed ha hw =>
    rw [(satisfied_store hs).1]
    exact .miss ha
  | miss ha hc =>
    obtain h | ⟨hw, -⟩ | ⟨-, h⟩ := missed_store hs
    · rw [h]
      exact .miss ha
    · exact absurd hw hc
    · rw [hideBlock_none h]
      exact .miss ha

/-! ## Responses and snoops -/

/-- `handleFill` of a register only moves targets. -/
theorem mem_handleFill {m m' : Mshr} (h : m.handleFill pkt = .ok m') {x : Target} (hx : x ∈ m'.targets.list) :
    x ∈ m.targets.list ∨ x ∈ m.deferredTargets.list := by
  obtain ⟨-, rfl⟩ | ⟨-, rfl⟩ := Mshr.handleFill_cases h
  · exact .inl hx
  · exact List.mem_append.1 hx

/-- Allocations look at the queues only. -/
theorem clearNoTarget_queues {c c' : Control} {ref : MshrRef} (h : clearNoTarget c ref tid = .ok c') :
    c'.mshrQueues = c.mshrQueues ∧ c'.writeBuffers = c.writeBuffers ∧ c'.order = c.order := by
  unfold clearNoTarget at h
  split at h
  · simp only [Control.clearBlocked, bind_ok] at h
    obtain ⟨c₁, h1, h⟩ := h
    cases h
    split at h1
    · cases h1
      exact ⟨rfl, rfl, rfl⟩
    · simp only [bind_ok] at h1
      obtain ⟨-, -, h1⟩ := h1
      cases h1
      exact ⟨rfl, rfl, rfl⟩
  · cases h
    exact ⟨rfl, rfl, rfl⟩

theorem snoopWriteback_store {r : Nat} (h : s.snoopWriteback pkt r = .ok (s', pkt')) :
    s'.store = s.store ∧ s'.cfg = s.cfg ∧ pkt'.cmd = pkt.cmd ∧ pkt'.addr = pkt.addr ∧ pkt'.threadID = pkt.threadID := by
  simp only [snoopWriteback, bind_ok] at h
  obtain ⟨-, -, -, -, t, -, -, -, -, -, -, -, resp, -, ctl, -, h⟩ := h
  cases h
  exact ⟨rfl, rfl, rfl, rfl, rfl⟩

theorem snoopWritebacks_store (h : s.snoopWritebacks pkt = .ok (s', pkt')) :
    s'.store = s.store ∧ s'.cfg = s.cfg ∧ pkt'.cmd = pkt.cmd ∧ pkt'.addr = pkt.addr ∧ pkt'.threadID = pkt.threadID := by
  unfold snoopWritebacks at h
  split at h
  · cases h
    exact ⟨rfl, rfl, rfl, rfl, rfl⟩
  · exact snoopWriteback_store h
  · cases h

theorem snoopBlocks_snooped {up : UpwardSnoop}
    (h : s.snoopBlocks pkt (P.findBlock s.store.tags pkt.addr pkt.threadID) up = .ok s') :
    Snooped P pkt s.store s'.store := by
  simp only [snoopBlocks, bind_ok] at h
  obtain ⟨⟨s₁, pkt₁⟩, hw, ⟨store, resp⟩, hs, h⟩ := h
  cases h
  obtain ⟨h1, h2, h3, h4, h5⟩ := snoopWritebacks_store hw
  rw [h1] at hs
  cases hl : P.findBlock s.store.tags pkt.addr pkt.threadID with
  | none =>
    rw [hl] at hs
    exact .inl (handleSnoop_none hs)
  | some f =>
    rw [hl] at hs
    have hserve := handleSnoop_serve (n := s.store.tags.geo.blkAddr pkt.addr) hs
    rw [Packet.isInvalidate, h3, h5] at hserve
    exact .inr ⟨f, hl, hserve⟩

/-- A snoop that a register does not take over goes on as it came. -/
theorem mshr_handleSnoop_not_deferred {m m' : Mshr} {order : Nat}
    (h : m.handleSnoop now pkt order = (m', pkt', false)) : pkt' = pkt := by
  unfold Mshr.handleSnoop at h
  split at h
  · cases h
  · split at h <;> cases h <;> rfl

theorem snoopTiming_snooped {up : UpwardSnoop} (h : s.snoopTiming P pkt up = .ok s') :
    Snooped P pkt s.store s'.store := by
  unfold snoopTiming at h
  split at h
  · cases h
    exact .inl rfl
  · simp only at h
    split at h
    · exact snoopBlocks_snooped h
    · split at h
      · cases h
        exact .inl rfl
      · next hd =>
        generalize hr : (s.ctl.mshr _).handleSnoop s.now pkt s.ctl.order = r at h hd
        obtain ⟨m, pkt', deferred⟩ := r
        have hd' : deferred = false := by simpa using hd
        subst hd'
        rw [mshr_handleSnoop_not_deferred hr] at h
        have he := snoopBlocks_snooped h
        exact he

end State

end DynamicCache.Cache
