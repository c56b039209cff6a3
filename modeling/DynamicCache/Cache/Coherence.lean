import DynamicCache.Cache.OneCopy

/-!
# What a hit returns

`accepted` records the bytes that were last written to a block.  `Stored` says
what an effect does to the data of the frames; a frame that agrees with
`accepted` keeps agreeing as long as it is the only copy.  So `F_DynamicCache`
is coherent with itself in every run in which Low brings in only blocks that
High does not hold and the memory returns what the cache has accepted
(`fdynamic_coherent`).  Low looks only at its own partition, so without the
first condition High reads an old copy (`low_fill_hides_write`).
-/

namespace DynamicCache.Cache

open Lib Tags

variable {ε : Type} {wbs : List Packet} {m t : Nat} {x : Bool} {g : Geometry}

namespace Storage

/-- The bytes of frame `f` are the ones last accepted for block `n`. -/
def Agrees (s : Storage ε) (f n : Nat) : Prop :=
  ∀ i < s.tags.geo.blkSize, ∀ v, s.accepted n i = some v → (s.tags.blks f).data i = v

variable {P : Policy ε} {c : Control} {pkt : Packet} {k : Prop} {view : Nat → Nat → Prop} {s s' : Storage ε} {f n : Nat}

/-! ## Serving a block -/

theorem Agrees.of_eq (h : Agrees s f n) (hg : s'.tags.geo = s.tags.geo) (ha : s'.accepted n = s.accepted n)
    (hd : (s'.tags.blks f).data = (s.tags.blks f).data) : Agrees s' f n := by
  intro i hi v hv
  rw [hg] at hi
  rw [ha] at hv
  rw [hd]
  exact h i hi v hv

/-- A write changes the block and the record alike. -/
theorem Agrees.write {t : CacheBlk} (hd : t.data = (s.tags.blks f).data) (h : Agrees s f n)
    (hn : s.tags.geo.blkAddr pkt.addr = n) (hg : s'.tags.geo = s.tags.geo)
    (ha : s'.accepted = (s.accept pkt).accepted) (hb : s'.tags.blks f = written s.tags.geo pkt t) : Agrees s' f n := by
  intro i hi v hv
  rw [hg] at hi
  rw [ha, ← hn] at hv
  rw [hb]
  simp only [accept, Function.update_self] at hv
  simp only [written, copyBytes]
  split
  · next hin =>
    rw [if_pos hin] at hv
    exact Option.some.inj hv
  · next hin =>
    rw [if_neg hin, hn] at hv
    rw [hd]
    exact h i hi v hv

theorem Serve.agrees (hs : Serve x (.frame f) t n s s') (h : Agrees s f n) : Agrees s' f n := by
  induction hs with
  | refl => exact h
  | @tail s₁ s₂ _ hp ih =>
    cases hp with
    | @adjust y hw =>
      refine ih.of_eq rfl rfl ?_
      have hb := blk_putBlk s₁ (.frame f) y
      simp only [blk] at hb hw
      rw [hb, hw.data]
    | @write pkt hn _ =>
      refine ih.write (t := s₁.tags.blks f) rfl hn rfl rfl ?_
      exact blk_putBlk (s₁.accept pkt) (.frame f) _
    | invalidate _ hi =>
      obtain ⟨h1, -, h2⟩ := invalidateBlk_blk hi
      simp only [blk] at h1
      refine ih.of_eq (invalidateBlk_same hi).geo (congrFun h2 n) ?_
      rw [h1]
      rfl
    | drop hb _ _ _ => cases hb

/-- A Writeback to a writable block is a write. -/
theorem satisfyWrite_agrees (h : Agrees s f (s.tags.geo.blkAddr pkt.addr)) :
    Agrees (s.satisfyWrite pkt (.frame f)).1 f (s.tags.geo.blkAddr pkt.addr) := by
  have hw := checkWrite_weaker (s.tags.blks f) pkt
  have hb := blk_putBlk s (.frame f) (checkWrite (s.tags.blks f) pkt).1
  simp only [blk] at hb
  have h1 : Agrees (s.putBlk (.frame f) (checkWrite (s.tags.blks f) pkt).1) f (s.tags.geo.blkAddr pkt.addr) := by
    refine h.of_eq rfl rfl ?_
    rw [hb, hw.data]
  unfold satisfyWrite
  simp only
  split
  · refine Agrees.write (s := s.putBlk (.frame f) (checkWrite (s.tags.blks f) pkt).1)
      (t := (checkWrite (s.tags.blks f) pkt).1) (by rw [hb]) h1 rfl rfl rfl ?_
    simp [modify, blk, accept, putBlk, Lru.putBlk]
  · exact h1

theorem writebackInto_agrees (s : Storage ε) (pkt : Packet) (f : Nat) :
    Agrees (s.writebackInto pkt f) f (s.tags.geo.blkAddr pkt.addr) := by
  intro i hi v hv
  have hg : (s.writebackInto pkt f).tags.geo = s.tags.geo := rfl
  rw [hg] at hi
  have ha : (s.writebackInto pkt f).accepted (s.tags.geo.blkAddr pkt.addr) i = some (pkt.data i) := by
    simp only [writebackInto, acceptBlock, putData, modify, putBlk, Function.update_self]
    rw [if_pos hi]
  have hd : ((s.writebackInto pkt f).tags.blks f).data = pkt.data := by
    simp [writebackInto, acceptBlock, putData, modify, putBlk, blk, Lru.putBlk]
  rw [ha] at hv
  rw [hd]
  exact Option.some.inj hv

/-! ## Effects -/

/-- What a packet does to the data of the frames and to the record; `k` says which
packets bring data in that their thread does not find. -/
inductive Stored (P : Policy ε) (c : Control) (pkt : Packet) (k : Prop) (s s' : Storage ε) : Prop where
  | kept (hq : Lru.Quiet s.tags s'.tags) (hd : ∀ g, (s'.tags.blks g).data = (s.tags.blks g).data)
      (ha : s'.accepted = s.accepted)
  | served (f : Nat) (hl : P.lookup s.tags pkt.addr pkt.threadID = some f) (hq : Lru.Quiet s.tags s'.tags)
      (hd : ∀ g, g ≠ f → (s'.tags.blks g).data = (s.tags.blks g).data)
      (ha : Agrees s f (s.tags.geo.blkAddr pkt.addr) → Agrees s' f (s.tags.geo.blkAddr pkt.addr))
  | passed (hk : k) (hl : P.lookup s.tags pkt.addr pkt.threadID = none) (hq : Lru.Quiet s.tags s'.tags)
      (hd : ∀ g, (s'.tags.blks g).data = (s.tags.blks g).data)
  | dropped (f : Nat) (hl : P.lookup s.tags pkt.addr pkt.threadID = some f) (hq : Lru.Quiet s.tags s'.tags)
      (hd : ∀ g, (s'.tags.blks g).data = (s.tags.blks g).data) (hv : (s'.tags.blks f).isValid = false)
  | placed (f : Nat) (s₁ s₂ : Lru) (hk : k) (hp : Placed P c pkt s.tags s'.tags f s₁ s₂)
      (hd : ∀ g, g ≠ f → (s'.tags.blks g).data = (s.tags.blks g).data)
      (ha : Agrees s' f (s.tags.geo.blkAddr pkt.addr))

theorem Serve.data_ne (hs : Serve x (.frame f) t n s s') (g : Nat) (hg : g ≠ f) :
    (s'.tags.blks g).data = (s.tags.blks g).data := by
  have hb : BlkRef.frame g ≠ .frame f := fun he => hg (BlkRef.frame.inj he)
  exact congrArg CacheBlk.data (hs.blk_ne hb)

/-- Serving the block that was found. -/
theorem stored_serve (hl : s.tags.Nodup) (hf : P.lookup s.tags pkt.addr pkt.threadID = some f)
    (hs : Serve x (.frame f) t (s.tags.geo.blkAddr pkt.addr) s s') : Stored P c pkt k s s' :=
  .served f hf (hs.quiet hl) hs.data_ne hs.agrees

/-- The same after an access of the tag store. -/
theorem stored_access {tags : Lru} (ext : ε) {s₁ : Storage ε} (ht : Touched s.tags tags)
    (hf : P.lookup s.tags pkt.addr pkt.threadID = some f) (hq : Lru.Quiet tags s₁.tags)
    (hd : ∀ g, g ≠ f → (s₁.tags.blks g).data = (tags.blks g).data)
    (ha : Agrees (s.withTags tags ext) f (s.tags.geo.blkAddr pkt.addr) → Agrees s₁ f (s.tags.geo.blkAddr pkt.addr)) :
    Stored P c pkt k s s₁ := by
  refine .served f hf (ht.quiet.trans hq) (fun g hg => (hd g hg).trans (ht.data g)) fun h => ha ?_
  exact h.of_eq ht.geo rfl (ht.data f)

theorem uncacheable_stored (hl : s.tags.Nodup) (h : s.uncacheable P pkt = .ok s')
    (hk : pkt.isWrite = true → k) : Stored P c pkt k s s' := by
  have hq := uncacheable_quiet hl h
  obtain ⟨-, rfl⟩ | ⟨-, hw, hn, rfl⟩ | ⟨-, -, f, hf, hi⟩ | ⟨-, -, rfl⟩ := uncacheable_cases h
  · exact .kept hq (fun _ => rfl) rfl
  · exact .passed (hk hw) hn hq fun _ => rfl
  · obtain ⟨h1, h2, -⟩ := invalidateBlk_blk hi
    refine .dropped f hf hq (fun g => ?_) ?_
    · by_cases hg : g = f
      · subst hg
        have h1' : s'.tags.blks g = Lru.invalidated (s.tags.blks g) := h1
        rw [h1']
        rfl
      · exact congrArg CacheBlk.data (h2 (.frame g) fun he => hg (BlkRef.frame.inj he))
    · exact congrArg CacheBlk.isValid h1
  · exact .kept hq (fun _ => rfl) rfl

/-- The frame of a Writeback, and the others. -/
theorem writebackInto_data_ne (s : Storage ε) (pkt : Packet) (f g : Nat) (hg : g ≠ f) :
    ((s.writebackInto pkt f).tags.blks g).data = (s.tags.blks g).data := by
  simp [writebackInto, acceptBlock, putData, modify, putBlk, blk, Lru.putBlk, hg]

theorem Victim.data {addr tid : Nat} (h : Victim c addr tid s s' f wbs) (g : Nat) :
    (s'.tags.blks g).data = (s.tags.blks g).data := by
  obtain ⟨rfl, -, -⟩ | ⟨-, -, rfl, -⟩ := h.clean
  · rfl
  · simp only [modify, putBlk, blk, Lru.blks_putBlk]
    split
    · next he => rw [he]; rfl
    · rfl

theorem satisfyWrite_data_ne (s : Storage ε) (pkt : Packet) (f g : Nat) (hg : g ≠ f) :
    ((s.satisfyWrite pkt (.frame f)).1.tags.blks g).data = (s.tags.blks g).data := by
  unfold satisfyWrite
  simp only
  split
  · simp [accept, modify, putBlk, blk, Lru.putBlk, hg]
  · simp [putBlk, Lru.putBlk, hg]

theorem Access.stored (hP : P.Lawful view) (hl : s.tags.Nodup) (h : Access P c pkt s s' wbs) :
    Stored P c pkt (pkt.cmd = .writeback ∨ pkt.req.isUncacheable = true ∧ pkt.isWrite = true) s s' := by
  cases h with
  | same => exact .kept (.refl _) (fun _ => rfl) rfl
  | flush hu h => exact uncacheable_stored hl h fun hw => .inr ⟨hu, hw⟩
  | @hit now tags ext f lat x s₁ ha hc hx hs =>
    obtain ⟨hb, ht⟩ := hP.access ha
    have hq := hs.quiet (ht.quiet.nodup hl)
    rw [ht.geo] at hs
    exact stored_access ext ht hb.symm hq hs.data_ne hs.agrees
  | miss ha =>
    have ht := (hP.access ha).2
    exact .kept ht.quiet ht.data rfl
  | forwarded ha hc =>
    obtain ⟨hb, ht⟩ := hP.access ha
    exact .passed (.inl hc) hb.symm ht.quiet ht.data
  | @writebackHit cfg now tags ext f lat s₁ s₂ pkt' ha hc hs hm =>
    obtain ⟨hb, ht⟩ := hP.access ha
    have hq := satisfyWriteback_quiet hc hs
    obtain rfl := satisfyWriteback_eq hc hs
    have hq' := hq.trans (hm.quiet (hq.nodup (ht.quiet.nodup hl)))
    refine stored_access ext ht hb.symm hq' (fun g hg => ?_) fun h => hm.agrees ?_
    · exact (hm.data_ne g hg).trans (satisfyWrite_data_ne _ pkt f g hg)
    · rw [← ht.geo] at h ⊢
      exact satisfyWrite_agrees h
  | @writebackOver now tags ext f lat s₁ ha hc hm =>
    obtain ⟨hb, ht⟩ := hP.access ha
    have ha' := writebackInto_agrees (s.withTags tags ext) pkt f
    have hq := writebackInto_quiet (s.withTags tags ext) pkt f
    have hq' := hq.trans (hm.quiet (hq.nodup (ht.quiet.nodup hl)))
    refine stored_access ext ht hb.symm hq' (fun g hg => ?_) fun _ => hm.agrees ?_
    · exact (hm.data_ne g hg).trans (writebackInto_data_ne _ pkt f g hg)
    · rw [← ht.geo]
      exact ha'
  | @writebackNew now tags tags' ext f lat s₁ s₂ wbs ha hc hv hi hm =>
    obtain ⟨t₂, hp⟩ := writebackNew_placed hP hl ha hc hv hi hm
    have ht := (hP.access ha).2
    have hgeo : tags'.geo = s.tags.geo :=
      (Lru.inserted_of_insertBlock hi).geo.trans (hv.quiet.geo.trans ht.geo)
    refine .placed f _ t₂ (.inl hc) hp (fun g hg => ?_) (hm.agrees ?_)
    · rw [hm.data_ne g hg, writebackInto_data_ne _ pkt f g hg, (newBlk_inserted _ hi).other g hg, hv.data g]
      exact ht.data g
    · rw [← hgeo]
      exact writebackInto_agrees _ pkt f

/-- The response carries the bytes that were accepted for its block. -/
def Fresh (s : Storage ε) (pkt : Packet) : Prop :=
  pkt.isRead = true → ∀ i < s.tags.geo.blkSize, ∀ v ∈ s.accepted (s.tags.geo.blkAddr pkt.addr) i, pkt.data i = v

/-- What a response leaves in the block it fills. -/
theorem fillBlock_agrees (h : s.fillBlock P pkt (.frame f) none = .ok s')
    (hd : pkt.isRead = true ∨ Agrees s f (s.tags.geo.blkAddr pkt.addr)) (hr : Fresh s pkt) :
    Agrees s' f (s.tags.geo.blkAddr pkt.addr) := by
  obtain rfl := fillBlock_none h
  intro i hi v hv
  have hb := blk_putBlk s (.frame f) (filledBlk P.dirtyFill pkt (s.tags.blks f))
  simp only [blk] at hb
  show ((s.putBlk (.frame f) (filledBlk P.dirtyFill pkt (s.tags.blks f))).tags.blks f).data i = v
  rw [hb]
  simp only [filledBlk]
  split
  · next hread => exact hr hread i hi v hv
  · next hread => exact (hd.resolve_left hread) i hi v hv

theorem fillBlock_data_ne (h : s.fillBlock P pkt (.frame f) none = .ok s') (g : Nat) (hg : g ≠ f) :
    (s'.tags.blks g).data = (s.tags.blks g).data := by
  obtain rfl := fillBlock_none h
  simp [putBlk, Lru.putBlk, hg]

theorem Victim.accepted {addr tid : Nat} (h : Victim c addr tid s s' f wbs) : s'.accepted = s.accepted := by
  obtain ⟨rfl, -, -⟩ | ⟨-, -, rfl, -⟩ := h.clean <;> rfl

/-- A fresh response without a fake miss. -/
theorem Response.stored (hP : P.Lawful view) (hfm : ∀ tags addr, P.fakeMiss tags addr = none)
    (hl : s.tags.Nodup) (hr : Fresh s pkt) (h : Response P c pkt s s' wbs) :
    Stored P c pkt (pkt.isRead = true) s s' := by
  have hplace := h.place hP hl
  cases h with
  | same => exact .kept (.refl _) (fun _ => rfl) rfl
  | @filled now b s₁ s₂ _ wbs wbs' hk hf hs hc =>
    have htail : Serve true b pkt.threadID (s.tags.geo.blkAddr pkt.addr) s₁ s' := hs.trans (State.clearTemp_serve hc).1
    obtain ⟨f, hfd, rfl, -, -, hfill⟩ | ⟨hn, hd, f, t₁, tags, rfl, hv, hi, hfill⟩ | ⟨hn, hd, rfl, -, -, -, hfill⟩ :=
      handleFill_cases hf
    · obtain hq | ⟨g, t₁, t₂, hp⟩ := hplace
      · refine .served f hfd hq (fun g hg => ?_) fun ha => htail.agrees ?_
        · exact (htail.data_ne g hg).trans (fillBlock_data_ne hfill g hg)
        · have ha' := fillBlock_agrees hfill (.inr ha) hr
          exact ha'
      · have := hp.absent
        rw [hfd] at this
        cases this
    · obtain ⟨t₂, hp⟩ := fillNew_placed hk hl hn hd hv hi hfill
      have hgeo : tags.geo = s.tags.geo := (Lru.inserted_of_insertBlock hi).geo.trans hv.quiet.geo
      rw [hfm] at hfill
      refine .placed f t₁.tags t₂ (isRead_of_hasData hk hd) (hp.quiet (htail.quiet (hp.nodup hl))) (fun g hg => ?_)
        (htail.agrees ?_)
      · rw [htail.data_ne g hg, fillBlock_data_ne hfill g hg, (newBlk_inserted _ hi).other g hg, hv.data g]
      · have hread := isRead_of_hasData hk hd
        have := fillBlock_agrees hfill (.inl hread) (fun _ i hi' v hv' => by
          have ha : t₁.accepted (tags.geo.blkAddr pkt.addr) i = some v := hv'
          have hsz : i < tags.geo.blkSize := hi'
          rw [hv.accepted, hgeo] at ha
          rw [hgeo] at hsz
          exact hr hread i hsz v ha)
        rw [← hgeo]
        exact this
    · rw [hfm] at hfill
      have hq := fillBlock_temp_quiet hfill hl
      have hq' := hq.trans (htail.quiet (hq.nodup hl))
      refine .passed (isRead_of_hasData hk hd) hn hq' fun g => ?_
      have h1 : s'.blk (.frame g) = s₁.blk (.frame g) := htail.blk_ne (by intro h; cases h)
      obtain rfl := fillBlock_none hfill
      exact congrArg CacheBlk.data h1
  | found hf hs => exact stored_serve hl hf hs

/-- A snoop that looks blocks up as requests do. -/
theorem Snooped.stored (hfb : P.findBlock = P.lookup) (hl : s.tags.Nodup) (h : Snooped P pkt s s') :
    Stored P c pkt False s s' := by
  obtain rfl | ⟨f, hf, hs⟩ := h
  · exact .kept (.refl _) (fun _ => rfl) rfl
  · rw [hfb] at hf
    exact stored_serve hl hf hs

/-! ## The record of the other blocks -/

theorem satisfyWrite_accepted (s : Storage ε) (pkt : Packet) (b : BlkRef) (hm : m ≠ s.tags.geo.blkAddr pkt.addr) :
    (s.satisfyWrite pkt b).1.accepted m = s.accepted m := by
  unfold satisfyWrite
  simp only
  split
  · cases b <;> simp [accept, modify, putBlk, Lru.putBlk, hm]
  · cases b <;> rfl

theorem writebackInto_accepted (s : Storage ε) (pkt : Packet) (f : Nat) (hm : m ≠ s.tags.geo.blkAddr pkt.addr) :
    (s.writebackInto pkt f).accepted m = s.accepted m := by
  simp [writebackInto, acceptBlock, putData, modify, putBlk, hm]

theorem Access.accepted_ne (hP : P.Lawful view) (h : Access P c pkt s s' wbs)
    (hm : m ≠ s.tags.geo.blkAddr pkt.addr) : s'.accepted m = s.accepted m := by
  cases h with
  | same => rfl
  | flush hu h =>
    obtain ⟨-, rfl⟩ | ⟨-, -, -, rfl⟩ | ⟨-, -, f, -, hi⟩ | ⟨-, -, rfl⟩ := uncacheable_cases h
    · rfl
    · simp [accept, hm]
    · rw [(invalidateBlk_blk hi).2.2]
      simp [accept, hm]
    · rfl
  | hit ha hc hx hs =>
    rw [(hP.access ha).2.geo] at hs
    exact hs.accepted_ne hm
  | miss ha => rfl
  | forwarded ha hc =>
    have hg := (hP.access ha).2.geo
    simp [acceptBlock, withTags, hg, hm]
  | writebackHit ha hc hs hs' =>
    have hg := (hP.access ha).2.geo
    rw [hs'.accepted_ne hm, satisfyWriteback_eq hc hs, satisfyWrite_accepted]
    · rfl
    · simp only [withTags]
      rw [hg]
      exact hm
  | writebackOver ha hc hs =>
    have hg := (hP.access ha).2.geo
    rw [hs.accepted_ne hm, writebackInto_accepted]
    · rfl
    · simp only [withTags]
      rw [hg]
      exact hm
  | @writebackNew now tags tags' ext f lat s₁ s₂ wbs ha hc hv hi hs =>
    have hg : tags'.geo = s.tags.geo :=
      (Lru.inserted_of_insertBlock hi).geo.trans (hv.quiet.geo.trans (hP.access ha).2.geo)
    rw [hs.accepted_ne hm, writebackInto_accepted]
    · exact congrFun hv.accepted m
    · show m ≠ tags'.geo.blkAddr pkt.addr
      rw [hg]
      exact hm

theorem fillBlock_accepted {b : BlkRef} {blkH : Option Nat} (h : s.fillBlock P pkt b blkH = .ok s') :
    s'.accepted = s.accepted := by
  simp only [fillBlock, bind_ok] at h
  obtain ⟨s₁, h1, h⟩ := h
  cases h
  have hb : (s₁.modify b fun x => { x with whenReady := pkt.finishTime }).accepted = s₁.accepted := by cases b <;> rfl
  rw [hb]
  unfold fillData at h1
  split at h1
  · split at h1
    · cases h1
      cases b <;> rfl
    · rw [(invalidateBlk_blk h1).2.2]
      cases b <;> rfl
  · cases h1
    cases b <;> rfl

theorem Response.accepted_ne (h : Response P c pkt s s' wbs) (hm : m ≠ s.tags.geo.blkAddr pkt.addr) :
    s'.accepted m = s.accepted m := by
  cases h with
  | same => rfl
  | filled hk hf hs hc =>
    rw [(hs.trans (State.clearTemp_serve hc).1).accepted_ne hm]
    obtain ⟨f, -, rfl, -, -, hfill⟩ | ⟨-, -, f, t₁, tags, rfl, hv, -, hfill⟩ | ⟨-, -, rfl, -, -, -, hfill⟩ :=
      handleFill_cases hf
    · rw [fillBlock_accepted hfill]
    · rw [fillBlock_accepted hfill]
      exact congrFun hv.accepted m
    · rw [fillBlock_accepted hfill]
      rfl
  | found hf hs => exact hs.accepted_ne hm

theorem Snooped.accepted_ne (h : Snooped P pkt s s') (hm : m ≠ s.tags.geo.blkAddr pkt.addr) :
    s'.accepted m = s.accepted m := by
  obtain rfl | ⟨f, -, hs⟩ := h
  · rfl
  · exact hs.accepted_ne hm

end Storage

open Storage

/-! ## Which frame holds which block -/

section

variable {s s' : Lru} {g : Geometry} {t t' a b f n : Nat}

theorem held_congr (h : s.geo.blkAddr a = s.geo.blkAddr b) (hh : Held s t a f) : Held s t b f := by
  obtain ⟨h1, h2⟩ := (s.geo.blkAddr_eq_iff a b).1 h
  obtain ⟨hm, ht, hv⟩ := hh
  rw [h1] at ht
  rw [h2] at hm
  exact ⟨hm, ht, hv⟩

theorem blkAddr_of_held (hF : Lru.Frames n s) (ha : Held s t a f) (hb : Held s t' b f) :
    s.geo.blkAddr a = s.geo.blkAddr b :=
  (s.geo.blkAddr_eq_iff a b).2 ⟨ha.2.1.symm.trans hb.2.1, (hF.owner f _ _ _ _ ha.1 hb.1).2⟩

theorem held_of_quiet (h : Lru.Quiet s s') (hh : Held s' t a f) : Held s t a f := by
  obtain ⟨hm, ht, hv⟩ := hh
  rw [h.geo, h.mem_iff] at hm
  rw [h.tag, h.geo] at ht
  exact ⟨hm, ht, (h.valid f hv).1⟩

/-- A frame of the store after a block was placed is the placed one, or it held its block before. -/
theorem held_of_placed {P : Policy ε} {c : Control} {pkt : Packet} {s₁ s₂ : Lru} {k : Nat} (hF : Lru.Frames n s)
    (hp : Placed P c pkt s s' k s₁ s₂) (hh : Held s' t a f) :
    f = k ∧ s.geo.blkAddr a = s.geo.blkAddr pkt.addr ∨ f ≠ k ∧ Held s t a f := by
  have hh₂ := held_of_quiet hp.after hh
  have hgeo : s₂.geo = s.geo := hp.placed.geo.trans hp.before.geo
  obtain ⟨hm, ht, hv⟩ := hh₂
  rw [hp.placed.mem_iff, hp.before.mem_iff] at hm
  rw [hgeo] at hm ht
  by_cases he : f = k
  · subst he
    have hmem := hp.placed.mem
    rw [hp.before.mem_iff, hp.before.geo] at hmem
    rw [hp.placed.tag, hp.before.geo] at ht
    exact .inl ⟨rfl, (s.geo.blkAddr_eq_iff a pkt.addr).2 ⟨ht.symm, (hF.owner f _ _ _ _ hm hmem).2⟩⟩
  · rw [hp.placed.other f he] at ht hv
    rw [hp.before.tag] at ht
    exact .inr ⟨he, hm, ht, (hp.before.valid f hv).1⟩

end

/-! ## F_DynamicCache -/

namespace FDynamic

variable {s s' : State Unit} {c : Control} {pkt : Packet} {k : Prop}

/-- The frames of the two partitions hold the bytes last accepted for their blocks. -/
def Current (s : State Unit) : Prop :=
  ∀ t addr f, t < 2 → Held s.store.tags t addr f → Agrees s.store f (s.store.tags.geo.blkAddr addr)

/-- A packet of Low that finds no block in Low is of a block that High does not hold. -/
def Alone (s : Lru) (pkt : Packet) : Prop :=
  pkt.threadID = 0 → s.findBlock pkt.addr 0 = none → s.findBlock pkt.addr 1 = none

instance (s : Lru) (pkt : Packet) : Decidable (Alone s pkt) := inferInstanceAs (Decidable (_ → _ → _))

instance (s : Storage Unit) (pkt : Packet) : Decidable (Fresh s pkt) := inferInstanceAs (Decidable (_ → _))

/-- Low brings in only blocks that High does not hold, and the memory returns the
bytes that this cache has accepted. -/
def CoherentOk (s : State Unit) : Act → Prop
  | .cache (.recvTimingReq pkt) =>
      pkt.cmd = .writeback ∨ pkt.req.isUncacheable = true ∧ pkt.isWrite = true → Alone s.store.tags pkt
  | .cache (.recvTimingResp ref r) => (s.ctl.mshr ref).isForward = false → ∀ f ∈ s.bus, f.ref = ref →
      ((r.packet f.pkt).isRead = true → Alone s.store.tags f.pkt) ∧ Fresh s.store (r.packet f.pkt)
  | _ => True

instance (s : State Unit) (a : Act) : Decidable (CoherentOk s a) := by
  unfold CoherentOk
  split <;> infer_instance

/-- A block that the packet's thread does not find is nowhere. -/
theorem not_held (ha : Alone s.store.tags pkt) (hl : policy.lookup s.store.tags pkt.addr pkt.threadID = none)
    {g : Nat} (ht : t < 2) : ¬Held s.store.tags t pkt.addr g := by
  have habs := lawful.lookup_none hl
  obtain rfl | rfl : t = 0 ∨ t = 1 := by omega
  · exact habs 0 (.inl rfl) g
  · by_cases h0 : pkt.threadID = 0
    · have hlow : s.store.tags.findBlock pkt.addr 0 = none := by
        have hl' : FDynaLru.findBlock s.store.tags pkt.addr pkt.threadID = none := hl
        rwa [FDynaLru.findBlock, if_pos h0] at hl'
      exact not_held_of_findBlock (ha h0 hlow) g
    · exact habs 1 (.inr ⟨h0, rfl⟩) g

theorem stored_oneCopy (hF : Lru.Frames 2 s.store.tags) (hU : OneCopy s) (hk : k → Alone s.store.tags pkt)
    (h : Stored policy c pkt k s.store s'.store) : OneCopy s' := by
  cases h with
  | kept hq _ _ => exact hq.unique hU
  | served f _ hq _ _ => exact hq.unique hU
  | passed _ _ hq _ => exact hq.unique hU
  | dropped f _ hq _ _ => exact hq.unique hU
  | placed f s₁ s₂ hk' hp _ _ =>
    exact hp.unique hF (fun _ _ h => ⟨h.2, h.1⟩) hU fun t g ht hg => absurd hg (not_held (hk hk') hp.absent ht.2)

theorem stored_current (hF : Lru.Frames 2 s.store.tags) (hU : OneCopy s) (hC : Current s)
    (hk : k → Alone s.store.tags pkt) (hgeo : s'.store.tags.geo = s.store.tags.geo)
    (hne : ∀ m, m ≠ s.store.tags.geo.blkAddr pkt.addr → s'.store.accepted m = s.store.accepted m)
    (h : Stored policy c pkt k s.store s'.store) : Current s' := by
  intro t addr g ht hh
  rw [hgeo]
  -- the record of another block and the frame that holds it are as before
  have hother : Held s.store.tags t addr g → s.store.tags.geo.blkAddr addr ≠ s.store.tags.geo.blkAddr pkt.addr →
      (s'.store.tags.blks g).data = (s.store.tags.blks g).data →
      Agrees s'.store g (s.store.tags.geo.blkAddr addr) := fun hg hb hd =>
    (hC t addr g ht hg).of_eq hgeo (hne _ hb) hd
  by_cases hb : s.store.tags.geo.blkAddr addr = s.store.tags.geo.blkAddr pkt.addr
  · cases h with
    | kept hq hd ha => exact (hC t addr g ht (held_of_quiet hq hh)).of_eq hgeo (by rw [ha]) (hd g)
    | served f hl hq hd ha =>
      have hg := held_congr hb (held_of_quiet hq hh)
      obtain ⟨t', hv, hf⟩ := lawful.lookup_some hl
      have ht' : t' < 2 := by
        obtain rfl | ⟨-, rfl⟩ := hv <;> decide
      obtain rfl := hU.eq ht ht' hg hf
      rw [hb]
      exact ha (hC t' pkt.addr g ht' hf)
    | passed hk' hl hq hd =>
      exact absurd (held_congr hb (held_of_quiet hq hh)) (not_held (hk hk') hl ht)
    | dropped f hl hq hd hv =>
      have hg := held_congr hb (held_of_quiet hq hh)
      obtain ⟨t', hvw, hf⟩ := lawful.lookup_some hl
      have ht' : t' < 2 := by
        obtain rfl | ⟨-, rfl⟩ := hvw <;> decide
      obtain rfl := hU.eq ht ht' hg hf
      have := hh.2.2
      rw [hv] at this
      cases this
    | placed f s₁ s₂ hk' hp hd ha =>
      obtain ⟨rfl, -⟩ | ⟨-, hg⟩ := held_of_placed hF hp hh
      · rw [hb]
        exact ha
      · exact absurd (held_congr hb hg) (not_held (hk hk') hp.absent ht)
  · cases h with
    | kept hq hd ha => exact hother (held_of_quiet hq hh) hb (hd g)
    | served f hl hq hd ha =>
      have hg := held_of_quiet hq hh
      obtain ⟨t', -, hf⟩ := lawful.lookup_some hl
      exact hother hg hb (hd g fun he => hb (blkAddr_of_held hF hg (he ▸ hf)))
    | passed hk' hl hq hd => exact hother (held_of_quiet hq hh) hb (hd g)
    | dropped f hl hq hd hv => exact hother (held_of_quiet hq hh) hb (hd g)
    | placed f s₁ s₂ hk' hp hd ha =>
      obtain ⟨-, he⟩ | ⟨hne', hg⟩ := held_of_placed hF hp hh
      · exact absurd he hb
      · exact hother hg hb (hd g hne')

/-- The invariant of a run. -/
structure Coherent (g : Geometry) (s : State Unit) : Prop where
  fit : Fit g s
  oneCopy : OneCopy s
  current : Current s

theorem Coherent.stored (hI : Coherent g s) (h : Stored policy c pkt k s.store s'.store) (hfit : Fit g s')
    (hk : k → Alone s.store.tags pkt)
    (hne : ∀ m, m ≠ s.store.tags.geo.blkAddr pkt.addr → s'.store.accepted m = s.store.accepted m) :
    Coherent g s' :=
  ⟨hfit, stored_oneCopy hI.fit.sound.frames hI.oneCopy hk h,
    stored_current hI.fit.sound.frames hI.oneCopy hI.current hk (hfit.sound.geo.trans hI.fit.sound.geo.symm) hne h⟩

theorem Coherent.sameStore (hI : Coherent g s) (hfit : Fit g s') (h : s'.store = s.store) : Coherent g s' := by
  refine ⟨hfit, ?_, ?_⟩
  · rw [OneCopy, h]
    exact hI.oneCopy
  · rw [Current, h]
    exact hI.current

theorem answered_stored {st st' : Storage Unit} (hl : st.tags.Nodup)
    (h : State.Answered policy pkt st st') : Stored policy c pkt False st st' := by
  obtain rfl | ⟨f, hf, hs⟩ := h
  · exact .kept (.refl _) (fun _ => rfl) rfl
  · exact stored_serve hl hf hs

theorem step_coherent {a : Act} (hI : Coherent g s) (hok : CoherentOk s a) (h : step s a = .ok s') :
    Coherent g s' := by
  have hfit := step_fit hI.fit h
  obtain ⟨-, rfl⟩ | ⟨b, rfl, hb⟩ := step_cases hI.fit h
  · exact hI
  have hl := hI.fit.sound.frames.nodup
  cases step_moves lawful hI.fit.sound hb with
  | advance ticks => exact hI.sameStore hfit rfl
  | request he hc hr => exact hI.stored (he.stored lawful hl) hfit hok fun m hm => he.accepted_ne lawful hm
  | unasked => exact hI
  | @response ref r f c wbs _ hf hfr hans hq he hc hb hn hcfg hfw =>
    have hne : ∀ m, m ≠ s.store.tags.geo.blkAddr (r.packet f.pkt).addr → s'.store.accepted m = s.store.accepted m :=
      fun m hm => he.accepted_ne hm
    cases hforward : (s.ctl.mshr ref).isForward with
    | true => exact hI.stored (answered_stored (c := c) hl (hfw hforward).2) hfit (fun h => h.elim) hne
    | false =>
      obtain ⟨halone, hfresh⟩ := hok hforward f hf hfr
      exact hI.stored (he.stored lawful (fun _ _ => rfl) hl hfresh) hfit halone hne
  | snoop he hc hr hd =>
    exact hI.stored (he.stored (c := s.ctl) rfl hl) hfit (fun h => h.elim) fun m hm => he.accepted_ne hm
  | idle => exact hI
  | failed hs₁ hp hr hx hst hc hrest => exact hI.sameStore hfit hst
  | sent hs₁ hp hr hs hx hd =>
    refine hI.sameStore hfit ?_
    rw [hd.store, hs₁]

/-! ## Hits -/

theorem satisfyRead_data {st st' : Storage Unit} {cfg : Config} {b : BlkRef} {pkt' : Packet} {d p : Bool}
    (h : st.satisfyRead cfg pkt b d p = .ok (st', pkt')) :
    pkt'.data = bytesFrom (st.blk b).data (getOffset st.tags.geo pkt.addr) := by
  have hlock : ∀ x : Storage Unit, x = (if pkt.isLLSC then
      st.modify b fun y => { y with lockList := pkt.req.contextId :: y.lockList } else st) →
      (x.blk b).data = (st.blk b).data ∧ x.tags.geo = st.tags.geo := by
    rintro x rfl
    split
    · exact ⟨by rw [Storage.modify, blk_putBlk], putBlk_geo _ _ _⟩
    · exact ⟨rfl, rfl⟩
  unfold satisfyRead at h
  generalize hx : (if pkt.isLLSC then
    st.modify b fun y => { y with lockList := pkt.req.contextId :: y.lockList } else st) = x at h
  obtain ⟨h1, h2⟩ := hlock x hx.symm
  rw [← h1, ← h2]
  simp only at h
  split at h
  · split at h
    · simp only [bind_ok] at h
      obtain ⟨s₂, -, h⟩ := h
      cases h
      split <;> rfl
    · split at h
      · split at h
        · split at h <;> cases h <;> rfl
        · cases h
          rfl
      · cases h
        rfl
  · cases h
    rfl

/-- A read hit returns the bytes last accepted for its block. -/
theorem access_reads {r : AccessResult Unit} (hC : Current s) (hr : pkt.isRead = true) (hw : pkt.isWrite = false)
    (h : s.store.access policy s.cfg s.ctl s.now pkt = .ok r) (hsat : r.satisfied = true) (j : Nat) (hj : j < pkt.size)
    (v : Nat) (hv : s.store.accepted (s.geo.blkAddr pkt.addr) (getOffset s.geo pkt.addr + j) = some v) :
    r.pkt.data j = v := by
  have hwb : pkt.cmd ≠ .writeback := by
    intro hc
    rw [Packet.isWrite, hc] at hw
    cases hw
  cases access_outcome h with
  | @hit tags ext f lat st' pkt' ha hp hs =>
    obtain ⟨hb, ht⟩ := lawful.access ha
    obtain ⟨t', hview, hf⟩ := lawful.lookup_some hb.symm
    have ht' : t' < 2 := by
      obtain rfl | ⟨-, rfl⟩ := hview <;> decide
    simp only [satisfyCpuSideRequest, bind_ok, assert, check_ok, decide_eq_true_eq] at hs
    obtain ⟨-, hsz, hs⟩ := hs
    rw [if_neg (by intro hc; rw [Packet.isWrite, hc] at hw; cases hw), if_neg (by simp [hw]), if_pos hr] at hs
    have hsz' : getOffset tags.geo pkt.addr + pkt.size ≤ tags.geo.blkSize := hsz
    rw [ht.geo] at hsz'
    have hd := hC t' pkt.addr f ht' hf (getOffset s.geo pkt.addr + j)
      (by show getOffset s.store.tags.geo pkt.addr + j < s.store.tags.geo.blkSize; omega) v hv
    rw [satisfyRead_data hs]
    show (tags.blks f).data (getOffset tags.geo pkt.addr + j) = v
    rw [ht.data, ht.geo]
    exact hd
  | onto ha hc => exact absurd hc hwb
  | upgrade ha hp hc => cases hsat
  | new ha hc hv hi => exact absurd hc hwb
  | noRoom ha hc hw => cases hsat
  | failed ha hw' =>
    rw [hw] at hw'
    cases hw'
  | miss ha hc => cases hsat

/-! ## Runs -/

def small (assoc : Nat) (h : 0 < assoc) : State Unit := init Small.cfg (Small.geo assoc h) 1 4 4

/-- High loads a block, Low loads it too and writes it: High's next read hits in its old copy. -/
theorem low_fill_hides_write :
    ∃ s f g r, runs step (small 3 (by decide)) ((Small.load 1 0 false ++ Small.load 0 0 false ++
        [Small.write 0 0 7]).map .cache) = .ok s ∧
      Held s.store.tags 0 0 f ∧ Held s.store.tags 1 0 g ∧
      s.store.access policy s.cfg s.ctl s.now (Small.packet .readReq 1 0 4 0) = .ok r ∧ r.satisfied = true ∧
      s.store.accepted 0 0 = some 7 ∧ r.pkt.data 0 = 0 := by
  obtain ⟨s, hs, h0, h1, hacc, r, hr, hsat, hd⟩ : ∃ s, runs step (small 3 (by decide)) ((Small.load 1 0 false ++
        Small.load 0 0 false ++ [Small.write 0 0 7]).map .cache) = .ok s ∧
      Held s.store.tags 0 0 1 ∧ Held s.store.tags 1 0 2 ∧ s.store.accepted 0 0 = some 7 ∧
      ∃ r, s.store.access policy s.cfg s.ctl s.now (Small.packet .readReq 1 0 4 0) = .ok r ∧ r.satisfied = true ∧
        r.pkt.data 0 = 0 := by
    decide +kernel
  exact ⟨s, 1, 2, r, hs, h0, h1, hr, hsat, hacc, hd⟩

/-- In every run in which Low brings in only blocks that High does not hold and
responses carry the accepted bytes, a block is in at most one partition, and a
read hit returns the bytes last accepted. -/
theorem fdynamic_coherent (cfg : Config) (geo : Geometry) (maxMasters mshrs writeBuffers : Nat) (as : List Act)
    (hok : Always step CoherentOk (init cfg geo maxMasters mshrs writeBuffers) as) {s : State Unit}
    (hr : runs step (init cfg geo maxMasters mshrs writeBuffers) as = .ok s) :
    (∀ addr f g, ¬(Held s.store.tags 0 addr f ∧ Held s.store.tags 1 addr g)) ∧
      ∀ pkt r, pkt.isRead = true → pkt.isWrite = false →
        s.store.access policy s.cfg s.ctl s.now pkt = .ok r → r.satisfied = true → ∀ j < pkt.size, ∀ v,
          s.store.accepted (s.geo.blkAddr pkt.addr) (getOffset s.geo pkt.addr + j) = some v → r.pkt.data j = v := by
  have hinit : Coherent geo (init cfg geo maxMasters mshrs writeBuffers) := by
    refine ⟨fit_init cfg geo maxMasters mshrs writeBuffers, fun t t' i f g _ _ _ hv => ?_, fun t addr f _ hh => ?_⟩
    · cases hv
    · cases hh.2.2
  have hI : Coherent geo s :=
    runs_invariant (Coherent geo) (fun s a s' hs ha h => step_coherent hs ha h) hinit hok hr
  refine ⟨fun addr f g => hI.oneCopy.not_both hI.fit.sound.frames addr f g, ?_⟩
  intro pkt r hread hwrite ha hsat j hj v hv
  exact access_reads hI.current hread hwrite ha hsat j hj v hv

/-- Low loads a block and writes it, High reads it in Low and loads another one. -/
theorem fdynamic_coherent_shared :
    ∃ s r, runs step (small 3 (by decide)) ((Small.load 0 0 false ++ [Small.write 0 0 7] ++
        Small.load 1 4 false).map .cache ++ [.adjustPartition]) = .ok s ∧
      s.store.accepted 0 0 = some 7 ∧
      s.store.access policy s.cfg s.ctl s.now (Small.packet .readReq 1 0 4 0) = .ok r ∧ r.satisfied = true ∧
      r.pkt.data 0 = 7 := by
  simp only [exists_and_left]
  refine exists_ok (fun s => s.store.accepted 0 0 = some 7 ∧ ∃ r,
    s.store.access policy s.cfg s.ctl s.now (Small.packet .readReq 1 0 4 0) = .ok r ∧ r.satisfied = true)
    (by decide +kernel) ?_
  rintro s hs ⟨hacc, r, hr, hsat⟩
  refine ⟨hacc, r, hr, hsat, ?_⟩
  refine (fdynamic_coherent Small.cfg (Small.geo 3 (by decide)) 1 4 4 _ (by decide +kernel) hs).2
    (Small.packet .readReq 1 0 4 0) r rfl rfl hr hsat 0 (by decide) 7 ?_
  have hz : s.geo.blkAddr 0 = 0 ∧ getOffset s.geo 0 = 0 := ⟨Nat.zero_shiftRight _, Nat.zero_and _⟩
  show s.store.accepted (s.geo.blkAddr 0) (getOffset s.geo 0 + 0) = some 7
  rw [hz.1, hz.2]
  exact hacc

end FDynamic

end DynamicCache.Cache
