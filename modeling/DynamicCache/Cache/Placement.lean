import DynamicCache.Cache.Effects

/-!
# Where an effect puts blocks

Seen from the tag store, an `Effect` is a quiet change or it places one block
that the packet's thread did not find (`Placed`, `Effect.place`).  With it the
frames stay in their lists (`Effect.frames`).
-/

namespace DynamicCache.Cache

open Lib Tags

variable {ε : Type}

namespace Storage

variable {b : BlkRef} {s s' : Storage ε} {P : Policy ε} {c : Control} {pkt : Packet} {view : Nat → Nat → Prop}
  {wbs : List Packet} {f now : Nat} {blkH : Option Nat} {tags : Lru}

/-! ## Single functions -/

/-- The end of a fill: frame `f` gets its permissions, then only quiet changes follow. -/
theorem fillBlock_tags (h : s.fillBlock P pkt (.frame f) blkH = .ok s') (hl : s.tags.Nodup) :
    ∃ x : CacheBlk, x.tag = (s.tags.blks f).tag ∧ x.set = (s.tags.blks f).set ∧
      x.threadID = (s.tags.blks f).threadID ∧ x.isTouched = (s.tags.blks f).isTouched ∧
      x.srcMasterId = (s.tags.blks f).srcMasterId ∧ Lru.Quiet (s.tags.putBlk f x) s'.tags ∧
      (pkt.isRead = true → ∀ g, blkH = some g → (s'.tags.blks g).isValid = false) := by
  cases hr : pkt.isRead with
  | false =>
    have hn : s.fillBlock P pkt (.frame f) none = .ok s' := by
      rw [← h]
      simp [fillBlock, fillData, hr]
    obtain rfl := fillBlock_none hn
    exact ⟨filledBlk P.dirtyFill pkt (s.tags.blks f), rfl, rfl, rfl, rfl, rfl, .refl _, fun h => by cases h⟩
  | true =>
    cases blkH with
    | none =>
      obtain rfl := fillBlock_none h
      exact ⟨filledBlk P.dirtyFill pkt (s.tags.blks f), rfl, rfl, rfl, rfl, rfl, .refl _, fun _ _ hg => by cases hg⟩
    | some g =>
      simp only [fillBlock, fillData, hr, if_true, bind_ok] at h
      obtain ⟨s₁, h1, h⟩ := h
      cases h
      obtain ⟨tags, ht, rfl⟩ := invalidateBlk_frame h1
      have hb : (tags.blks g).isValid = false := by
        have hb := (invalidateBlk_blk h1).1
        simp only [blk] at hb
        rw [hb]
        rfl
      generalize hd : ((s.modify (.frame f) _).tags.blks g).data = d at ht
      have ha : ((s.modify (.frame f) fun x => { x with status := fillStatus P.dirtyFill pkt x.status }).putData
          (.frame f) d pkt.threadID).tags = s.tags.putBlk f
            { s.tags.blks f with status := fillStatus P.dirtyFill pkt (s.tags.blks f).status, data := d } := by
        simp [modify, putBlk, putData, blk, Lru.putBlk]
      rw [ha] at ht
      have hl' : ∀ t i, ((s.tags.putBlk f { s.tags.blks f with
          status := fillStatus P.dirtyFill pkt (s.tags.blks f).status, data := d }).sets t i).Nodup := hl
      have hq := Lru.quiet_invalidateBlk hl' ht
      refine ⟨{ s.tags.blks f with status := fillStatus P.dirtyFill pkt (s.tags.blks f).status, data := d },
        rfl, rfl, rfl, rfl, rfl, hq.trans (.putBlk rfl rfl rfl (fun _ h => h) fun hv => ⟨hv, rfl⟩), fun _ g' hg => ?_⟩
      obtain rfl := Option.some.inj hg
      show ((tags.putBlk f _).blks g).isValid = false
      rw [Lru.blks_putBlk]
      split
      · next he => rw [he] at hb; exact hb
      · exact hb

theorem fillBlock_temp_quiet (h : s.fillBlock P pkt .temp blkH = .ok s') (hl : s.tags.Nodup) :
    Lru.Quiet s.tags s'.tags := by
  simp only [fillBlock, bind_ok] at h
  obtain ⟨s₁, h1, h⟩ := h
  cases h
  unfold fillData at h1
  split at h1
  · split at h1
    · cases h1
      exact .refl _
    · obtain ⟨tags, ht, rfl⟩ := invalidateBlk_frame h1
      have hq : Lru.Quiet s.tags tags := Lru.quiet_invalidateBlk hl ht
      exact hq
  · cases h1
    exact .refl _

/-- What an incoming Writeback does to the frame. -/
theorem writebackInto_tags (s : Storage ε) (pkt : Packet) (f : Nat) :
    ∃ x : CacheBlk, x.tag = (s.tags.blks f).tag ∧ x.set = (s.tags.blks f).set ∧
      x.threadID = (s.tags.blks f).threadID ∧ x.isTouched = (s.tags.blks f).isTouched ∧
      x.srcMasterId = (s.tags.blks f).srcMasterId ∧ x.isValid = (s.tags.blks f).isValid ∧
        (s.writebackInto pkt f).tags = s.tags.putBlk f x := by
  refine ⟨{ s.tags.blks f with
    data := pkt.data
    status := { (s.tags.blks f).status with
      dirty := true
      writable := (s.tags.blks f).status.writable || pkt.isSupplyExclusive } }, rfl, rfl, rfl, rfl, rfl, rfl, ?_⟩
  simp [writebackInto, acceptBlock, putData, modify, putBlk, blk, Lru.putBlk]

theorem writebackInto_quiet (s : Storage ε) (pkt : Packet) (f : Nat) :
    Lru.Quiet s.tags (s.writebackInto pkt f).tags := by
  obtain ⟨x, h1, h2, h3, hu, h4, h5, he⟩ := writebackInto_tags s pkt f
  rw [he]
  exact .putBlk h1 h2 h3 (fun _ ht => hu.trans ht) fun hv => ⟨h5 ▸ hv, h4⟩

theorem satisfyWrite_quiet (s : Storage ε) (pkt : Packet) (f : Nat) :
    Lru.Quiet s.tags (s.satisfyWrite pkt (.frame f)).1.tags := by
  unfold satisfyWrite
  have hw := checkWrite_weaker (s.tags.blks f) pkt
  have h1 : Lru.Quiet s.tags (s.putBlk (.frame f) (checkWrite (s.blk (.frame f)) pkt).1).tags :=
    .putBlk hw.tag hw.set hw.threadID (fun _ => hw.touched) fun hv => ⟨hw.valid ▸ hv, hw.srcMasterId⟩
  simp only
  split
  · exact h1.trans (.putBlk rfl rfl rfl (fun _ h => h) fun hv => ⟨hv, rfl⟩)
  · exact h1

/-- Serving a Writeback as a write. -/
theorem satisfyWriteback_eq {cfg : Config} {pkt' : Packet} {d p : Bool} (hc : pkt.cmd = .writeback)
    (h : s.satisfyCpuSideRequest cfg pkt b d p = .ok (s', pkt')) : s' = (s.satisfyWrite pkt b).1 := by
  simp only [satisfyCpuSideRequest, bind_ok] at h
  obtain ⟨-, -, h⟩ := h
  rw [if_neg (by rw [hc]; decide), if_pos (by rw [Packet.isWrite, hc]; rfl)] at h
  exact (Prod.mk.inj (Except.ok.inj h)).1.symm

theorem satisfyWriteback_quiet {cfg : Config} {pkt' : Packet} {d p : Bool} (hc : pkt.cmd = .writeback)
    (h : s.satisfyCpuSideRequest cfg pkt (.frame f) d p = .ok (s', pkt')) : Lru.Quiet s.tags s'.tags := by
  rw [satisfyWriteback_eq hc h]
  exact satisfyWrite_quiet s pkt f

theorem uncacheable_quiet (hl : s.tags.Nodup) (h : s.uncacheable P pkt = .ok s') :
    Lru.Quiet s.tags s'.tags := by
  obtain ⟨-, rfl⟩ | ⟨-, -, -, rfl⟩ | ⟨-, -, f, -, hi⟩ | ⟨-, -, rfl⟩ := uncacheable_cases h
  · exact ⟨rfl, rfl, rfl, fun _ _ => .refl _, fun _ => rfl, fun _ => rfl, fun _ => rfl, fun _ _ h => h,
      fun _ h => ⟨h, rfl⟩⟩
  · exact .refl _
  · obtain ⟨tags, ht, rfl⟩ := invalidateBlk_frame hi
    have hq : Lru.Quiet s.tags tags := Lru.quiet_invalidateBlk hl ht
    exact hq
  · exact .refl _

/-! ## Effects -/

/-- Frame `f` is taken for the packet's block, which its thread did not find. -/
structure Placed (P : Policy ε) (c : Control) (pkt : Packet) (s s' : Lru) (f : Nat) (s₁ s₂ : Lru) : Prop where
  absent : P.lookup s pkt.addr pkt.threadID = none
  free : (s.blks f).isValid = true → (c.mshrQueues (s.blks f).threadID).findMatch
    (s.geo.regenerateBlkAddr (s.blks f).tag (s.blks f).set) = none
  before : Lru.Quiet s s₁
  placed : Lru.Inserted s₁ s₂ pkt.threadID pkt.addr f
  after : Lru.Quiet s₂ s'
  kind : pkt.cmd = .writeback ∨ pkt.isRead = true ∧
    ∀ g, P.fakeMiss s pkt.addr = some g → (s'.blks g).isValid = false

theorem Victim.quiet {addr tid : Nat} (h : Victim c addr tid s s' f wbs) : Lru.Quiet s.tags s'.tags := by
  obtain ⟨rfl, -, -⟩ | ⟨-, -, rfl, -⟩ := h.clean
  · exact .refl _
  · exact .putBlk rfl rfl rfl (fun _ h => h) fun hv => ⟨hv, rfl⟩

/-- A victim of a store that was only touched. -/
theorem Victim.free_of_touched {addr tid : Nat} {ext : ε} (ht : Touched s.tags tags)
    (h : Victim c addr tid (s.withTags tags ext) s' f wbs) :
    (s.tags.blks f).isValid = true → (c.mshrQueues (s.tags.blks f).threadID).findMatch
      (s.tags.geo.regenerateBlkAddr (s.tags.blks f).tag (s.tags.blks f).set) = none := by
  intro hv
  have hfree := h.free
  simp only [withTags] at hfree
  rw [ht.tag, ht.set, ht.threadID, ht.geo, CacheBlk.isValid, ht.status] at hfree
  exact hfree hv

theorem isRead_of_hasData (hk : pkt.isRead = true ∨ pkt.cmd = .upgradeResp) (hd : pkt.hasData = true) :
    pkt.isRead = true := by
  obtain hk | hk := hk
  · exact hk
  · rw [Packet.hasData, hk] at hd
    cases hd

theorem Placed.quiet {s s' s'' s₁ s₂ : Lru} (hp : Placed P c pkt s s' f s₁ s₂) (hq : Lru.Quiet s' s'') :
    Placed P c pkt s s'' f s₁ s₂ := by
  refine ⟨hp.absent, hp.free, hp.before, hp.placed, hp.after.trans hq, hp.kind.imp id fun hk => ⟨hk.1, fun g hg => ?_⟩⟩
  cases hv : (s''.blks g).isValid with
  | false => rfl
  | true =>
    have := (hq.valid g hv).1
    rw [hk.2 g hg] at this
    cases this

theorem Placed.nodup {s s' s₁ s₂ : Lru} (hp : Placed P c pkt s s' f s₁ s₂) (hl : s.Nodup) : s'.Nodup :=
  hp.after.nodup fun t i => (hp.placed.perm t i).nodup_iff.2 (hp.before.nodup hl t i)

/-- A response that gets a frame of its own. -/
theorem fillNew_placed {s₁ : Storage ε} (hk : pkt.isRead = true ∨ pkt.cmd = .upgradeResp) (hl : s.tags.Nodup)
    (hn : P.lookup s.tags pkt.addr pkt.threadID = none) (hd : pkt.hasData = true)
    (hv : Victim c pkt.addr pkt.threadID s s₁ f wbs)
    (hi : s₁.tags.insertBlock pkt.addr f pkt.req.masterId pkt.threadID now = some tags)
    (hfill : (s₁.newBlk tags f {}).fillBlock P pkt (.frame f) (P.fakeMiss s.tags pkt.addr) = .ok s') :
    ∃ s₂, Placed P c pkt s.tags s'.tags f s₁.tags s₂ := by
  have hins := newBlk_inserted {} hi
  have hl' := fun t i => (hins.perm t i).nodup_iff.2 (hv.quiet.nodup hl t i)
  obtain ⟨x, h1, h2, h3, hu, h4, hq, hg⟩ := fillBlock_tags hfill hl'
  have hr := isRead_of_hasData hk hd
  exact ⟨_, hn, hv.free, hv.quiet, hins.putBlk h1 h2 h3 hu h4, hq, .inr ⟨hr, hg hr⟩⟩

/-- A response goes to the block that was found, to `tempBlock` or to a new frame. -/
theorem handleFill_placed (hP : P.Lawful view) (hk : pkt.isRead = true ∨ pkt.cmd = .upgradeResp)
    (hl : s.tags.Nodup)
    (h : s.handleFill P c now pkt (P.lookup s.tags pkt.addr pkt.threadID) = .ok (s', b, wbs)) :
    Lru.Quiet s.tags s'.tags ∨ ∃ f s₁ s₂, b = .frame f ∧ Placed P c pkt s.tags s'.tags f s₁ s₂ := by
  obtain ⟨f, hf, rfl, -, -, hfill⟩ | ⟨hn, hd, f, s₁, tags, rfl, hv, hi, hfill⟩ | ⟨-, -, rfl, -, -, -, hfill⟩ :=
    handleFill_cases h
  · obtain ⟨x, h1, h2, h3, hu, h4, hq, -⟩ := fillBlock_tags hfill hl
    obtain ⟨t', -, -, -, hval⟩ := hP.lookup_some hf
    exact .inl (.trans (.putBlk h1 h2 h3 (fun _ ht => hu.trans ht) fun _ => ⟨hval, h4⟩) hq)
  · obtain ⟨s₂, hp⟩ := fillNew_placed hk hl hn hd hv hi hfill
    exact .inr ⟨f, s₁.tags, s₂, rfl, hp⟩
  · have hq := fillBlock_temp_quiet hfill hl
    exact .inl hq

/-- An incoming Writeback that gets a frame of its own. -/
theorem writebackNew_placed {lat : Nat} {tags' : Lru} {ext : ε} {s₁ : Storage ε} (hP : P.Lawful view)
    (hl : s.tags.Nodup)
    (ha : P.accessBlock s.tags s.ext pkt.addr now pkt.threadID = some (tags, ext, none, lat))
    (hc : pkt.cmd = .writeback) (hv : Victim c pkt.addr pkt.threadID (s.withTags tags ext) s₁ f wbs)
    (hi : s₁.tags.insertBlock pkt.addr f pkt.req.masterId pkt.threadID now = some tags')
    (hm : Serve false (.frame f) pkt.threadID (s.tags.geo.blkAddr pkt.addr)
      ((s₁.newBlk tags' f { valid := true, readable := true }).writebackInto pkt f) s') :
    ∃ s₂, Placed P c pkt s.tags s'.tags f s₁.tags s₂ := by
  obtain ⟨hb, ht⟩ := hP.access ha
  have hq : Lru.Quiet s.tags s₁.tags := ht.quiet.trans hv.quiet
  obtain ⟨x, h1, h2, h3, hu, h4, -, he⟩ :=
    writebackInto_tags (s₁.newBlk tags' f { valid := true, readable := true }) pkt f
  have hins := (newBlk_inserted _ hi).putBlk h1 h2 h3 hu h4
  refine ⟨_, hb.symm, hv.free_of_touched ht, hq, hins, ?_, .inl hc⟩
  have hs := hm.quiet fun t i => by
    exact (hins.perm t i).nodup_iff.2 (hq.nodup hl t i)
  rw [he] at hs
  exact hs

theorem Access.place (hP : P.Lawful view) (hl : s.tags.Nodup) (h : Access P c pkt s s' wbs) :
    Lru.Quiet s.tags s'.tags ∨ ∃ f s₁ s₂, Placed P c pkt s.tags s'.tags f s₁ s₂ := by
  cases h with
  | same => exact .inl (.refl _)
  | flush hu h => exact .inl (uncacheable_quiet hl h)
  | hit ha hc hx hs =>
    have ht := (hP.access ha).2
    exact .inl (ht.quiet.trans (hs.quiet (ht.quiet.nodup hl)))
  | miss ha => exact .inl (hP.access ha).2.quiet
  | forwarded ha hc => exact .inl (hP.access ha).2.quiet
  | writebackHit ha hc hs hm =>
    have ht := (hP.access ha).2.quiet
    have hq := ht.trans (satisfyWriteback_quiet hc hs)
    exact .inl (hq.trans (hm.quiet (hq.nodup hl)))
  | @writebackOver now tags ext f lat s₁ ha hc hm =>
    have hq := (hP.access ha).2.quiet.trans (writebackInto_quiet (s.withTags tags ext) pkt f)
    exact .inl (hq.trans (hm.quiet (hq.nodup hl)))
  | @writebackNew now tags tags' ext f lat s₁ s₂ wbs ha hc hv hi hm =>
    obtain ⟨t₂, hp⟩ := writebackNew_placed hP hl ha hc hv hi hm
    exact .inr ⟨f, s₁.tags, t₂, hp⟩

theorem Response.place (hP : P.Lawful view) (hl : s.tags.Nodup) (h : Response P c pkt s s' wbs) :
    Lru.Quiet s.tags s'.tags ∨ ∃ f s₁ s₂, Placed P c pkt s.tags s'.tags f s₁ s₂ := by
  cases h with
  | same => exact .inl (.refl _)
  | @filled now b s₁ s₂ s' wbs wbs' hk hf hs hc =>
    have htail : Serve true b pkt.threadID (s.tags.geo.blkAddr pkt.addr) s₁ s' := hs.trans (State.clearTemp_serve hc).1
    obtain hq | ⟨f, t₁, t₂, -, hp⟩ := handleFill_placed hP hk hl hf
    · exact .inl (hq.trans (htail.quiet (hq.nodup hl)))
    · exact .inr ⟨f, t₁, t₂, hp.quiet (htail.quiet (hp.nodup hl))⟩
  | found hl' hs => exact .inl (hs.quiet hl)

theorem Snooped.quiet (hl : s.tags.Nodup) (h : Snooped P pkt s s') : Lru.Quiet s.tags s'.tags := by
  obtain rfl | ⟨f, -, hs⟩ := h
  · exact .refl _
  · exact hs.quiet hl

theorem Effect.place (hP : P.Lawful view) (hl : s.tags.Nodup) (h : Effect P c pkt s s' wbs) :
    Lru.Quiet s.tags s'.tags ∨ ∃ f s₁ s₂, Placed P c pkt s.tags s'.tags f s₁ s₂ := by
  cases h with
  | access h => exact h.place hP hl
  | response h => exact h.place hP hl
  | snooped h => exact .inl (h.quiet hl)

theorem Effect.frames {n : Nat} (hP : P.Lawful view) (hF : Lru.Frames n s.tags) (h : Effect P c pkt s s' wbs) :
    Lru.Frames n s'.tags := by
  obtain hq | ⟨f, s₁, s₂, hp⟩ := h.place hP hF.nodup
  · exact hq.frames hF
  · exact hp.after.frames (hp.placed.frames (hp.before.frames hF))

theorem Effect.geo (hP : P.Lawful view) (hl : s.tags.Nodup) (h : Effect P c pkt s s' wbs) :
    s'.tags.geo = s.tags.geo := by
  obtain hq | ⟨f, s₁, s₂, hp⟩ := h.place hP hl
  · exact hq.geo
  · exact hp.after.geo.trans (hp.placed.geo.trans hp.before.geo)

theorem Effect.maxMasters (hP : P.Lawful view) (hl : s.tags.Nodup) (h : Effect P c pkt s s' wbs) :
    s'.tags.maxMasters = s.tags.maxMasters := by
  obtain hq | ⟨f, s₁, s₂, hp⟩ := h.place hP hl
  · exact hq.maxMasters
  · exact hp.after.maxMasters.trans (hp.placed.maxMasters.trans hp.before.maxMasters)

/-! ## The temporary block -/

theorem fillBlock_temp (h : s.fillBlock P pkt b blkH = .ok s') : TempKept s s' := by
  have hm : ∀ (s : Storage ε) (k : CacheBlk → CacheBlk),
      (∀ x, (k x).threadID = x.threadID ∧ (k x).srcMasterId = x.srcMasterId) → TempKept s (s.modify b k) := by
    intro s k hk
    cases b with
    | frame f => exact .of_eq rfl
    | temp => exact ⟨(hk _).1, (hk _).2⟩
  simp only [fillBlock, bind_ok] at h
  obtain ⟨s₁, h1, h⟩ := h
  cases h
  have h0 := hm s (fun x => { x with status := fillStatus P.dirtyFill pkt x.status }) fun _ => ⟨rfl, rfl⟩
  have h2 := hm s₁ (fun x => { x with whenReady := pkt.finishTime }) fun _ => ⟨rfl, rfl⟩
  refine h0.trans (TempKept.trans ?_ h2)
  generalize s.modify b _ = s₀ at h1
  have hd : ∀ data, TempKept s₀ (s₀.putData b data pkt.threadID) := by
    intro data
    have hk := hm s₀ (fun x => { x with data := data }) fun _ => ⟨rfl, rfl⟩
    exact ⟨hk.threadID, hk.srcMasterId⟩
  unfold fillData at h1
  split at h1
  · split at h1
    · cases h1
      exact hd _
    · have hi : (s₁.blk .temp) = _ := (invalidateBlk_blk h1).2.1 .temp (by simp)
      exact (hd _).trans (.of_eq hi)
  · cases h1
    exact .of_eq rfl

theorem satisfyWrite_temp (s : Storage ε) (pkt : Packet) (f : Nat) :
    (s.satisfyWrite pkt (.frame f)).1.tempBlock = s.tempBlock := by
  unfold satisfyWrite
  simp only
  split <;> rfl

theorem Access.temp (h : Access P c pkt s s' wbs) : TempKept s s' := by
  cases h with
  | same => exact .of_eq rfl
  | flush hu h =>
    obtain ⟨-, rfl⟩ | ⟨-, -, -, rfl⟩ | ⟨-, -, f, -, hi⟩ | ⟨-, -, rfl⟩ := uncacheable_cases h
    · exact .of_eq rfl
    · exact .of_eq rfl
    · have ht : s'.blk .temp = _ := (invalidateBlk_blk hi).2.1 .temp (by simp)
      exact .of_eq ht
    · exact .of_eq rfl
  | hit ha hc hx hs => exact hs.temp.after rfl
  | miss ha => exact .of_eq rfl
  | forwarded ha hc => exact .of_eq rfl
  | @writebackHit cfg now tags ext f lat s₁ s₂ pkt' ha hc hs hm =>
    have ht := satisfyWrite_temp (s.withTags tags ext) pkt f
    rw [← satisfyWriteback_eq hc hs] at ht
    exact hm.temp.after ht
  | writebackOver ha hc hm => exact hm.temp.after rfl
  | writebackNew ha hc hv hi hm =>
    have h1 := (hv.serve (t := 0) (n := 0)).temp
    exact (h1.trans (hm.temp.after rfl)).after rfl

theorem Response.temp (h : Response P c pkt s s' wbs) : TempKept s s' := by
  cases h with
  | same => exact .of_eq rfl
  | filled hk hf hs hc =>
    refine TempKept.trans ?_ (hs.temp.trans (State.clearTemp_serve (t := 0) (n := 0) hc).1.temp)
    obtain ⟨f, -, rfl, -, -, hfill⟩ | ⟨-, -, f, s₁, tags, rfl, hv, -, hfill⟩ | ⟨-, -, rfl, -, -, -, hfill⟩ :=
      handleFill_cases hf
    · exact (fillBlock_temp hfill).after rfl
    · exact (hv.serve (t := 0) (n := 0)).temp.trans ((fillBlock_temp hfill).after rfl)
    · have h1 := fillBlock_temp hfill
      exact ⟨h1.threadID, h1.srcMasterId⟩
  | found hl hs => exact hs.temp

theorem Effect.temp (h : Effect P c pkt s s' wbs) : TempKept s s' := by
  cases h with
  | access h => exact h.temp
  | response h => exact h.temp
  | snooped h =>
    obtain rfl | ⟨f, -, hs⟩ := h
    · exact .of_eq rfl
    · exact hs.temp

end Storage

end DynamicCache.Cache
