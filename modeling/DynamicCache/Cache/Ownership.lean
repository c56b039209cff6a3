import DynamicCache.Cache.Resize
import DynamicCache.Cache.Targets

/-!
# Which write buffer a writeback goes to

A writeback is queued for the thread that the block names, and the block should
name the thread that last put data in it (`Owned`).  Two things go wrong:
`tempBlock` never gets a thread, so it always names thread 0
(`temp_writeback_misplaced`), and a block of High that came to Low with its way
keeps naming High when Low fills it or writes it back.  As long as
neither happens every writeback is in the buffer of its thread
(`writebacks_stay_with_thread`).
-/

namespace DynamicCache.Cache

open Lib Tags

variable {ε : Type} {s s' : Lru} {addr f n t tid : Nat} {c : Control}

/-! ## Blocks -/

namespace Storage

/-- Every valid frame names the thread that last put data in it. -/
structure Owned (st : Storage ε) : Prop where
  source : ∀ f, (st.tags.blks f).isValid = true → st.source (.frame f) = (st.tags.blks f).threadID
  temp : st.tempBlock.threadID = 0

/-- The packet is queued for the thread whose data it carries. -/
def Homed (p : Packet) : Prop := ∀ o, p.origin = some o → o = p.threadID

variable {x : Bool} {b : BlkRef} {t n f : Nat} {s s' : Storage ε} {P : Policy ε} {c : Control} {pkt : Packet}
  {wbs : List Packet} {view : Nat → Nat → Prop}

/-- Only frame `f` changes. -/
theorem Owned.of_frame (hO : Owned s) (hother : ∀ g, g ≠ f → s'.tags.blks g = s.tags.blks g)
    (hsource : ∀ g, g ≠ f → s'.source (.frame g) = s.source (.frame g))
    (hself : (s'.tags.blks f).isValid = true → s'.source (.frame f) = (s'.tags.blks f).threadID)
    (htemp : s'.tempBlock.threadID = s.tempBlock.threadID) : Owned s' where
  source g hv := by
    by_cases hg : g = f
    · rw [hg] at hv ⊢
      exact hself hv
    · rw [hother g hg] at hv ⊢
      rw [hsource g hg]
      exact hO.source g hv
  temp := htemp.trans hO.temp

theorem Owned.prim (hO : Owned s) (h : Prim x b t n s s') : Owned s' := by
  cases b with
  | temp =>
    have hblks : ∀ g, s'.tags.blks g = s.tags.blks g := fun g => h.blk_ne (show BlkRef.frame g ≠ .temp by simp)
    refine ⟨fun g hv => ?_, h.temp.threadID.trans hO.temp⟩
    rw [hblks] at hv ⊢
    rw [h.same.source]
    exact hO.source g hv
  | frame f =>
    refine hO.of_frame (fun g hg => h.blk_ne (show BlkRef.frame g ≠ .frame f by simpa using hg))
      (fun g _ => by rw [h.same.source])
      (fun hv => ?_) h.temp.threadID
    obtain ⟨-, -, htid, hval, -⟩ := h.blk_self
    rw [htid, h.same.source]
    exact hO.source f (hval hv).1

theorem Owned.serve (hO : Owned s) (h : Serve x b t n s s') : Owned s' := by
  induction h with
  | refl => exact hO
  | tail _ hp ih => exact ih.prim hp

theorem Owned.withTags {tags : Lru} (hO : Owned s) (ht : Touched s.tags tags) (ext : ε) :
    Owned (s.withTags tags ext) where
  source g hv := by
    have hv' : (tags.blks g).isValid = true := hv
    rw [CacheBlk.isValid, ht.status] at hv'
    show s.source (.frame g) = (tags.blks g).threadID
    rw [ht.threadID]
    exact hO.source g hv'
  temp := hO.temp

/-- The writeback of a victim goes to the thread of its data. -/
theorem Victim.owned (hO : Owned s) (h : Victim c addr tid s s' f wbs) : Owned s' ∧ ∀ p ∈ wbs, Homed p := by
  refine ⟨hO.serve (h.serve (t := 0) (n := 0)), fun p hp => ?_⟩
  obtain ⟨-, rfl, -⟩ | ⟨hv, -, -, rfl⟩ := h.clean
  · cases hp
  · obtain rfl := List.mem_singleton.1 hp
    intro o ho
    exact (Option.some.inj ho).symm.trans (hO.source f hv)

theorem satisfyWrite_owned (hO : Owned s) (hf : (s.tags.blks f).threadID = pkt.threadID) :
    Owned (s.satisfyWrite pkt (.frame f)).1 := by
  have hw := checkWrite_weaker (s.tags.blks f) pkt
  have h1 : Owned (s.putBlk (.frame f) (checkWrite (s.blk (.frame f)) pkt).1) :=
    hO.prim (x := false) (t := 0) (n := 0) (.adjust hw)
  have htid : ((s.putBlk (.frame f) (checkWrite (s.blk (.frame f)) pkt).1).tags.blks f).threadID = pkt.threadID := by
    rw [← hf]
    simpa [putBlk, blk, Lru.putBlk] using hw.threadID
  unfold satisfyWrite
  simp only
  generalize s.putBlk (.frame f) (checkWrite (s.blk (.frame f)) pkt).1 = s₁ at h1 htid
  split
  · refine h1.of_frame (f := f) (fun g hg => ?_) (fun g hg => ?_) (fun hv => ?_) rfl
    · simp [Storage.modify, putBlk, accept, Lru.putBlk, hg]
    · show (if _ then _ else _ : BlkRef → Nat) _ = _
      split
      · simp [hg]
      · rfl
    · have hb : ((s₁.accept pkt).modify (.frame f) (written s₁.tags.geo pkt)).tags.blks f =
          written s₁.tags.geo pkt (s₁.tags.blks f) := by simp [Storage.modify, putBlk, accept, blk, Lru.putBlk]
      have hv' : (written s₁.tags.geo pkt (s₁.tags.blks f)).isValid = true := hb ▸ hv
      rw [hb]
      split
      · simpa [written] using htid.symm
      · exact h1.source f hv'
  · exact h1

theorem satisfyWriteback_owned {cfg : Config} {pkt' : Packet} {d p : Bool} (hO : Owned s) (hc : pkt.cmd = .writeback)
    (hf : (s.tags.blks f).threadID = pkt.threadID)
    (h : s.satisfyCpuSideRequest cfg pkt (.frame f) d p = .ok (s', pkt')) : Owned s' := by
  rw [satisfyWriteback_eq hc h]
  exact satisfyWrite_owned hO hf

/-- An incoming Writeback to a frame of its thread; the frame may have been replaced before. -/
theorem writebackInto_owned {s₀ : Storage ε} (hO : Owned s₀) (hother : ∀ g, g ≠ f → s.tags.blks g = s₀.tags.blks g)
    (hsource : s.source = s₀.source) (htemp : s.tempBlock = s₀.tempBlock)
    (hf : (s.tags.blks f).threadID = pkt.threadID) : Owned (s.writebackInto pkt f) := by
  obtain ⟨y, -, -, htid, -, -, -, he⟩ := writebackInto_tags s pkt f
  refine hO.of_frame (f := f) (fun g hg => ?_) (fun g hg => ?_) (fun _ => ?_) (congrArg _ htemp)
  · rw [he, Lru.blks_putBlk, if_neg hg, hother g hg]
  · rw [← hsource]
    simp [writebackInto, putData, acceptBlock, Storage.modify, putBlk, hg]
  · rw [he, Lru.blks_putBlk, if_pos rfl, htid, hf]
    simp [writebackInto, putData, Storage.modify, putBlk]

/-- A request keeps the blocks owned if its Writeback does not go to a block of another thread. -/
theorem Access.owned (h : Access P c pkt s s' wbs) (hP : P.Lawful view) (hO : Owned s)
    (hinto : pkt.cmd = .writeback → ∀ f, P.lookup s.tags pkt.addr pkt.threadID = some f →
      (s.tags.blks f).threadID = pkt.threadID) : Owned s' ∧ ∀ p ∈ wbs, Homed p := by
  have hnil : ∀ p ∈ ([] : List Packet), Homed p := fun p hp => by cases hp
  cases h with
  | same => exact ⟨hO, hnil⟩
  | flush hu h =>
    refine ⟨?_, hnil⟩
    have ha : Owned (s.accept pkt) := ⟨hO.source, hO.temp⟩
    obtain ⟨-, rfl⟩ | ⟨-, -, -, rfl⟩ | ⟨-, -, f, -, hi⟩ | ⟨-, -, rfl⟩ := uncacheable_cases h
    · exact ⟨hO.source, hO.temp⟩
    · exact ha
    · exact ha.prim (n := 0) (.invalidate rfl hi)
    · exact hO
  | hit ha hc hx hs => exact ⟨(hO.withTags (hP.access ha).2 _).serve hs, hnil⟩
  | miss ha => exact ⟨hO.withTags (hP.access ha).2 _, hnil⟩
  | @forwarded now tags ext lat ha hc =>
    have h1 := hO.withTags (hP.access ha).2 ext
    exact ⟨⟨h1.source, h1.temp⟩, hnil⟩
  | @writebackHit cfg now tags ext f lat s₁ s₂ pkt' ha hc hs hm =>
    obtain ⟨hl, ht⟩ := hP.access ha
    have hf : (tags.blks f).threadID = pkt.threadID := (ht.threadID f).trans (hinto hc f hl.symm)
    exact ⟨(satisfyWriteback_owned (hO.withTags ht ext) hc hf hs).serve hm, hnil⟩
  | @writebackOver now tags ext f lat s₁ ha hc hm =>
    obtain ⟨hl, ht⟩ := hP.access ha
    have hf : (tags.blks f).threadID = pkt.threadID := (ht.threadID f).trans (hinto hc f hl.symm)
    have h1 : Owned ((s.withTags tags ext).writebackInto pkt f) :=
      writebackInto_owned (hO.withTags ht ext) (fun _ _ => rfl) rfl rfl hf
    exact ⟨h1.serve hm, hnil⟩
  | @writebackNew now tags tags' ext f lat s₁ s₂ wbs ha hc hv hi hm =>
    obtain ⟨h1, hw⟩ := hv.owned (hO.withTags (hP.access ha).2 ext)
    have hins := newBlk_inserted { valid := true, readable := true } hi
    exact ⟨(writebackInto_owned h1 hins.other rfl rfl hins.threadID).serve hm, hw⟩

/-- The end of a fill of frame `f`, which has the thread of the response. -/
theorem fillBlock_owned {s₀ : Storage ε} (h : s.fillBlock P pkt (.frame f) none = .ok s') (hO : Owned s₀)
    (hother : ∀ g, g ≠ f → s.tags.blks g = s₀.tags.blks g) (hsource : s.source = s₀.source)
    (htemp : s.tempBlock = s₀.tempBlock) (hf : pkt.isRead = true → (s.tags.blks f).threadID = pkt.threadID)
    (hn : pkt.isRead = false → s.source (.frame f) = (s.tags.blks f).threadID) : Owned s' := by
  obtain rfl := fillBlock_none h
  refine hO.of_frame (f := f) (fun g hg => ?_) (fun g hg => ?_) (fun _ => ?_) (congrArg _ htemp)
  · simp [putBlk, Lru.putBlk, hg, hother g hg]
  · simp only
    rw [← hsource]
    split
    · simp [hg]
    · rfl
  · simp only [putBlk, blk, Lru.putBlk, Function.update_self, filledBlk]
    split
    · next hr => simpa using (hf hr).symm
    · next hr => exact hn (by simpa using hr)

/-- A fill of `tempBlock`. -/
theorem fillTemp_owned {i k : Nat} (hO : Owned s) (hr : pkt.isRead = true)
    (h : (s.modify .temp fun x => { x with set := i, tag := k, status := {} }).fillBlock P pkt .temp none = .ok s') :
    Owned s' ∧ s'.source .temp = pkt.threadID := by
  obtain rfl := fillBlock_none h
  refine ⟨⟨fun f hv => ?_, hO.temp⟩, by simp [hr]⟩
  have hs : (if pkt.isRead then Function.update s.source .temp pkt.threadID else s.source) (.frame f) =
      s.source (.frame f) := by
    split
    · simp
    · rfl
  exact hs.trans (hO.source f hv)

theorem clearTemp_frame (h : State.clearTemp s (some (.frame f)) tid = .ok (s', wbs)) : s' = s ∧ wbs = [] := by
  cases h
  exact ⟨rfl, rfl⟩

/-- The writeback of `tempBlock` is queued for thread 0. -/
theorem clearTemp_homed (hO : Owned s) (hz : s.source .temp = 0)
    (h : State.clearTemp s (some .temp) tid = .ok (s', wbs)) : ∀ p ∈ wbs, Homed p := by
  intro p hp
  obtain ⟨-, rfl⟩ := State.mem_clearTemp h hp
  intro o ho
  rw [hO.temp, ← hz]
  exact (Option.some.inj ho).symm

/-- A response keeps the blocks owned if it does not fill a block of another
thread, and is not served through `tempBlock` unless it is of thread 0. -/
theorem Response.owned (h : Response P c pkt s s' wbs) (hP : P.Lawful view)
    (hfake : ∀ t a, P.fakeMiss t a = none) (hO : Owned s)
    (hinto : pkt.isRead = true → ∀ f, P.lookup s.tags pkt.addr pkt.threadID = some f →
      (s.tags.blks f).threadID = pkt.threadID)
    (htemp : pkt.isRead = true → P.lookup s.tags pkt.addr pkt.threadID = none → pkt.threadID ≠ 0 →
      ¬Waits c pkt.addr pkt.threadID s) : Owned s' ∧ ∀ p ∈ wbs, Homed p := by
  cases h with
  | same => exact ⟨hO, fun p hp => by cases hp⟩
  | found hl hs => exact ⟨hO.serve hs, fun p hp => by cases hp⟩
  | @filled now b s₁ s₂ _ wbs wbs' hk hf hs hc =>
    have hrest : Owned s₁ → Owned s' := fun h => (h.serve hs).serve (State.clearTemp_serve (t := 0) (n := 0) hc).1
    obtain ⟨f, hl, rfl, rfl, -, hfill⟩ | ⟨hn, hd, f, s₀, tags, rfl, hv, hi, hfill⟩ |
      ⟨hn, hd, rfl, rfl, hw, -, hfill⟩ := handleFill_cases hf
    · obtain ⟨rfl, rfl⟩ := clearTemp_frame hc
      have h1 : Owned s₁ := by
        refine fillBlock_owned hfill hO (fun _ _ => rfl) rfl rfl (fun hr => hinto hr f hl) (fun _ => ?_)
        obtain ⟨t', -, -, -, hval⟩ := hP.lookup_some hl
        exact hO.source f hval
      exact ⟨hrest h1, fun p hp => by cases hp⟩
    · obtain ⟨rfl, rfl⟩ := clearTemp_frame hc
      obtain ⟨h0, hwb⟩ := hv.owned hO
      have hins := newBlk_inserted {} hi
      rw [hfake] at hfill
      refine ⟨hrest (fillBlock_owned hfill h0 hins.other rfl rfl (fun _ => hins.threadID) fun h => ?_),
        fun p hp => hwb p (by simpa using hp)⟩
      rw [isRead_of_hasData hk hd] at h
      cases h
    · have hr := isRead_of_hasData hk hd
      have hz : pkt.threadID = 0 := by
        by_contra hne
        exact htemp hr hn hne hw
      rw [hfake] at hfill
      obtain ⟨h1, hsrc⟩ := fillTemp_owned hO hr hfill
      refine ⟨hrest h1, fun p hp => ?_⟩
      refine clearTemp_homed (h1.serve hs) ?_ hc p (by simpa using hp)
      rw [hs.same.source, hsrc, hz]

end Storage

open Storage

/-! ## Write buffers -/

/-- Every writeback is in the buffer of the thread whose data it carries. -/
def Homes (c : Control) : Prop :=
  ∀ ref : MshrRef, ref.inWriteBuffer = true → Live c ref → ∀ x, (c.mshr ref).Has x → ∀ o, x.pkt.origin = some o →
    o = ref.tid

section

variable {g : Geometry} {now : Nat} {fin : Option MshrRef} {new : Newcomer} {c c' : Control}

theorem Ctl.homes (hc : CtlOk g c) (hH : Homes c) (hn : ∀ w time p, new w time p → Homed p)
    (h : Ctl g now fin new c c') :
    Homes c' := by
  intro ref hw hl x hx o ho
  cases h.arrival hc hl hx with
  | old hl₀ hy ha hu => exact hH ref hw hl₀ _ hy o (ha.origin ▸ ho)
  | born hnew ha ht h0 hm _ _ => rw [hn _ _ _ hnew o ho, ht]
  | joined _ hw' _ _ _ _ _ =>
    rw [hw] at hw'
    cases hw'
  | snooped hw' _ _ =>
    rw [hw] at hw'
    cases hw'

theorem CtlRun.homes (hc : CtlOk g c) (hH : Homes c) (hn : ∀ w time p, new w time p → Homed p)
    (h : CtlRun g now fin new c c') :
    Homes c' := by
  induction h with
  | refl => exact hH
  | tail hr h ih => exact h.homes (CtlRun.ok hc hr) ih hn

end

/-! ## Steps -/

instance {c : Control} {addr tid : Nat} {st : Storage ε} : Decidable (Waits c addr tid st) :=
  inferInstanceAs (Decidable (∃ f ∈ st.tags.findVictim addr tid, _ ∧ _ = true))

/-- Register `ref` waits for the response to `q`, which fills a block with data. -/
def Fills (s : State ε) (ref : MshrRef) (cmd : MemCmd) (q : InFlight) : Prop :=
  q.ref = ref ∧ (s.ctl.mshr ref).isForward = false ∧ (commandInfo cmd).isRead = true

instance (s : State ε) (ref : MshrRef) (cmd : MemCmd) (q : InFlight) : Decidable (Fills s ref cmd q) :=
  inferInstanceAs (Decidable (_ ∧ _ ∧ _))

/-- Only thread 0 is served through `tempBlock`: the victim of a fill of another
thread does not wait for an upgrade. -/
def TempOk (P : Policy ε) (s : State ε) : Action → Prop
  | .recvTimingResp ref r => ∀ q ∈ s.bus, Fills s ref r.cmd q → q.pkt.threadID ≠ 0 →
      P.lookup s.store.tags q.pkt.addr q.pkt.threadID = none → ¬Waits s.ctl q.pkt.addr q.pkt.threadID s.store
  | _ => True

/-- Data that goes into a block that was found goes into one of the same thread. -/
def IntoOk (P : Policy ε) (s : State ε) : Action → Prop
  | .recvTimingReq pkt => pkt.cmd = .writeback → ∀ f ∈ P.lookup s.store.tags pkt.addr pkt.threadID,
      (s.store.tags.blks f).threadID = pkt.threadID
  | .recvTimingResp ref r => ∀ q ∈ s.bus, Fills s ref r.cmd q →
      ∀ f ∈ P.lookup s.store.tags q.pkt.addr q.pkt.threadID, (s.store.tags.blks f).threadID = q.pkt.threadID
  | _ => True

instance (P : Policy ε) (s : State ε) (a : Action) : Decidable (TempOk P s a) := by
  unfold TempOk
  induction a using Action.casesOn <;> infer_instance

instance (P : Policy ε) (s : State ε) (a : Action) : Decidable (IntoOk P s a) := by
  unfold IntoOk
  induction a using Action.casesOn <;> infer_instance

section

variable {P : Policy ε} {view : Nat → Nat → Prop} {g : Geometry} {n : Nat} {s s' : State ε} {a : Action}

theorem State.Prefetched.homed {time : Nat} {w : Bool} {pf : Option State.Prefetch} {p : Packet}
    (h : State.Prefetched P g s tid pf w time p) : Homed p := by
  obtain ⟨-, -, -, q, -, rfl, -⟩ := h
  intro o ho
  cases ho

theorem Moves.owned (hP : P.Lawful view) (hfake : ∀ t a, P.fakeMiss t a = none) (hS : Sound n g s)
    (hO : Owned s.store) (hH : Homes s.ctl) (hinto : IntoOk P s a) (htemp : TempOk P s a) (h : Moves P g s a s') :
    Owned s'.store ∧ Homes s'.ctl := by
  cases h with
  | advance ticks => exact ⟨hO, hH⟩
  | @request pkt wbs _ he hc hr =>
    obtain ⟨h1, h2⟩ := he.owned hP hO hinto
    refine ⟨h1, hc.homes hS.ctl hH ?_⟩
    intro w time p hp
    obtain rfl | hp := hp.mem
    · intro o ho
      cases ho
    · exact h2 p hp
  | unasked => exact ⟨hO, hH⟩
  | @response ref r f c wbs _ hf hfr ha hq he hc hb hn hcfg hfw =>
    cases hforward : (s.ctl.mshr ref).isForward with
    | true =>
      obtain ⟨rfl, ha⟩ := hfw hforward
      refine ⟨?_, hc.homes hS.ctl hH fun _ _ p hp => by cases hp.2.2⟩
      obtain he | ⟨f, -, hs⟩ := ha
      · rw [he]
        exact hO
      · exact hO.serve hs
    | false =>
      have hw : ∀ addr tid, Waits c addr tid s.store → Waits s.ctl addr tid s.store := by
        intro addr tid hw
        rwa [Waits, hq] at hw
      obtain ⟨h1, h2⟩ := he.owned hP hfake hO (fun hr k hl => hinto f hf ⟨hfr, hforward, hr⟩ k hl)
        fun hr hl hne hwait => htemp f hf ⟨hfr, hforward, hr⟩ hne hl (hw _ _ hwait)
      exact ⟨h1, hc.homes hS.ctl hH fun _ _ p hp => h2 p hp.2.2⟩
  | snoop he hc hr hd =>
    refine ⟨?_, hc.homes hS.ctl hH fun _ _ p hp => hp.elim⟩
    obtain he | ⟨f, -, hs⟩ := he
    · rw [he]
      exact hO
    · exact hO.serve hs
  | idle => exact ⟨hO, hH⟩
  | @failed tid env ref x s₁ s' hs₁ hp hr hx hst hc hrest =>
    have hH₁ := hp.homes hS.ctl hH fun _ _ p hp => hp.homed
    refine ⟨?_, hc.homes (hp.ok hS.ctl) hH₁ fun _ _ p hp => hp.elim⟩
    rw [hst]
    exact hO
  | @sent tid env ref x s₁ s' hs₁ hp hr hs hx hd =>
    have hH₁ := hp.homes hS.ctl hH fun _ _ p hp => hp.homed
    refine ⟨?_, hd.run.homes (hp.ok hS.ctl) hH₁ fun _ _ p hp => hp.elim⟩
    rw [hd.store, hs₁]
    exact hO

end

theorem homes_init (mshrs writeBuffers : Nat) : Homes (.init mshrs writeBuffers) := by
  intro ref hw hl
  rw [Live, Control.queue, if_pos hw] at hl
  cases hl

theorem owned_init (cfg : Config) (tags : Lru) (ext : ε) (mshrs writeBuffers : Nat)
    (hv : ∀ f, (tags.blks f).isValid = false) : Owned (State.init cfg tags ext mshrs writeBuffers).store where
  source f h := by
    have h' : (tags.blks f).isValid = true := h
    rw [hv f] at h'
    cases h'
  temp := rfl

/-! ## SplitRPortCache over WPLRU -/

namespace Split

/-- The blocks of a partition belong to its thread. -/
def Housed (s : Lru) : Prop := ∀ t i f, f ∈ s.sets t i → (s.blks f).isValid = true → (s.blks f).threadID = t

theorem Housed.quiet (hH : Housed s) (h : Lru.Quiet s s') : Housed s' := by
  intro t i f hf hv
  rw [h.threadID]
  exact hH t i f (h.mem_iff.1 hf) (h.valid f hv).1

theorem Housed.inserted (hH : Housed s) (hF : Lru.Frames n s) (h : Lru.Inserted s s' t addr f) : Housed s' := by
  intro t' i k hk hv
  have hk' := h.mem_iff.1 hk
  by_cases he : k = f
  · rw [he] at hk' ⊢
    rw [h.threadID, (hF.owner f t _ t' i h.mem hk').1]
  · rw [h.other k he] at hv ⊢
    exact hH t' i k hk' hv

theorem effect_housed {pkt : Packet} {st st' : Storage Unit} {wbs : List Packet} (hF : Lru.Frames n st.tags)
    (hH : Housed st.tags) (he : Effect policy c pkt st st' wbs) : Housed st'.tags := by
  obtain hq | ⟨f, s₁, s₂, hp⟩ := he.place lawful hF.nodup
  · exact hH.quiet hq
  · exact ((hH.quiet hp.before).inserted (hp.before.frames hF) hp.placed).quiet hp.after

theorem Housed.lookup (hH : Housed s) (hl : policy.lookup s addr t = some f) : (s.blks f).threadID = t := by
  obtain ⟨t', rfl, hf, -, hv⟩ := lawful.lookup_some hl
  exact hH t _ f hf hv

/-- Data only goes into blocks of the thread's own partition. -/
theorem Housed.intoOk {s : State Unit} (hH : Housed s.store.tags) (a : Action) : IntoOk policy s a := by
  cases a with
  | recvTimingReq pkt => exact fun _ f hl => hH.lookup hl
  | recvTimingResp ref r => exact fun q _ _ f hl => hH.lookup hl
  | _ => trivial

structure Inv (n : Nat) (g : Geometry) (s : State Unit) : Prop where
  sound : Sound n g s
  housed : Housed s.store.tags
  owned : Owned s.store
  homes : Homes s.ctl

theorem step_inv {g : Geometry} {s s' : State Unit} {a : Action} (hI : Inv n g s) (hok : TempOk policy s a)
    (h : step s a = .ok s') : Inv n g s' := by
  have hm := step_moves lawful hI.sound h
  obtain ⟨h1, h2⟩ := hm.owned lawful (fun _ _ => rfl) hI.sound hI.owned hI.homes (hI.housed.intoOk a) hok
  refine ⟨hm.sound lawful hI.sound, ?_, h1, h2⟩
  obtain he | ⟨c, pkt, wbs, he⟩ := hm.effect
  · rw [he]
    exact hI.housed
  · exact effect_housed hI.sound.frames hI.housed he

theorem inv_init (cfg : Config) (geo : Geometry) (maxMasters numTcs mshrs writeBuffers : Nat) :
    Inv numTcs geo (init cfg geo maxMasters numTcs mshrs writeBuffers) where
  sound := sound_init cfg geo maxMasters numTcs mshrs writeBuffers
  housed t i f hf hv := by cases hv
  owned := owned_init cfg _ () mshrs writeBuffers fun _ => rfl
  homes := homes_init mshrs writeBuffers

end Split

/-! ## C_DynamicCache -/

namespace CDynamic

/-- High's frames name High; Low may have got frames of High. -/
structure Housed (s : Lru) : Prop where
  high : ∀ i f, f ∈ s.sets 1 i → (s.blks f).threadID = 1
  low : ∀ i f, f ∈ s.sets 0 i → (s.blks f).threadID = 0 ∨ (s.blks f).threadID = 1

theorem Housed.quiet (hH : Housed s) (h : Lru.Quiet s s') : Housed s' where
  high i f hf := (h.threadID f).trans (hH.high i f (h.mem_iff.1 hf))
  low i f hf := by
    rw [h.threadID]
    exact hH.low i f (h.mem_iff.1 hf)

theorem Housed.inserted (hH : Housed s) (hF : Lru.Frames n s) (h : Lru.Inserted s s' t addr f) : Housed s' := by
  -- the frame that was given away names the partition that it is in
  have hself : ∀ t' i, f ∈ s'.sets t' i → (s'.blks f).threadID = t' := fun t' i hf => by
    rw [h.threadID, (hF.owner f t _ t' i h.mem (h.mem_iff.1 hf)).1]
  refine ⟨fun i k hk => ?_, fun i k hk => ?_⟩
  · by_cases he : k = f
    · rw [he] at hk ⊢
      exact hself 1 i hk
    · rw [h.other k he]
      exact hH.high i k (h.mem_iff.1 hk)
  · by_cases he : k = f
    · rw [he] at hk ⊢
      exact .inl (hself 0 i hk)
    · rw [h.other k he]
      exact hH.low i k (h.mem_iff.1 hk)

theorem effect_housed {pkt : Packet} {st st' : Storage Ext} {wbs : List Packet} (hF : Lru.Frames n st.tags)
    (hH : Housed st.tags) (he : Effect policy c pkt st st' wbs) : Housed st'.tags := by
  obtain hq | ⟨f, s₁, s₂, hp⟩ := he.place lawful hF.nodup
  · exact hH.quiet hq
  · exact ((hH.quiet hp.before).inserted (hp.before.frames hF) hp.placed).quiet hp.after

variable {s s' : State Ext} {g : Geometry} {mid : CDynaLru} {fr : Nat → Nat}

theorem threadID_cleanedIf (b : CacheBlk) : (cleanedIf b).threadID = b.threadID := by
  unfold cleanedIf
  split <;> rfl

/-- Low gets frames that name High. -/
theorem Resized.housed_grow (hH : Housed s.store.tags) (hR : Resized g 1 0 cleanedIf s s' mid fr) :
    Housed s'.store.tags := by
  have hid : ∀ k, (s'.store.tags.blks k).threadID = (s.store.tags.blks k).threadID := by
    intro k
    rw [← show (putTags s mid).store.tags.blks k = s.store.tags.blks k from congrFun hR.moved.blks k]
    obtain he | he := hR.swept.blk_cases k
    · rw [he, threadID_cleanedIf]
    · rw [he]
  refine ⟨fun i k hk => ?_, fun i k hk => ?_⟩
  · rw [hR.swept.sets] at hk
    rw [hid]
    obtain hk | ⟨h0, -⟩ := hR.moved.mem_cases hk
    · exact hH.high i k hk
    · cases h0
  · rw [hR.swept.sets] at hk
    rw [hid]
    obtain hk | ⟨-, hi, rfl⟩ := hR.moved.mem_cases hk
    · exact hH.low i k hk
    · exact .inr (hH.high i _ (hR.moved.mem_fr hi))

/-- High gets frames that name Low, and renames them. -/
theorem Resized.housed_shrink (hS : Sound 2 g s) (hH : Housed s.store.tags)
    (hR : Resized g 0 1 CDynaLru.evicted s s' mid fr) : Housed s'.store.tags := by
  have hgs : s.store.tags.geo = g := hS.geo
  have hblks : ∀ k, (putTags s mid).store.tags.blks k = s.store.tags.blks k := congrFun hR.moved.blks
  have hid : ∀ k, (s.store.tags.blks k).threadID = 1 → (s'.store.tags.blks k).threadID = 1 := by
    intro k h1
    obtain he | he := hR.swept.blk_cases k
    · rw [he, hblks, CDynaLru.evicted, if_neg (by omega), h1]
    · rw [he, hblks, h1]
  refine ⟨fun i k hk => ?_, fun i k hk => ?_⟩
  · rw [hR.swept.sets] at hk
    obtain hk | ⟨-, hi, rfl⟩ := hR.moved.mem_cases hk
    · exact hid k (hH.high i k hk)
    · obtain h0 | h1 := hH.low i _ (hR.moved.mem_fr hi)
      · rw [hR.swept.swept (fr i) ⟨i, hgs ▸ hi, rfl⟩, hblks, CDynaLru.evicted, if_pos h0]
      · exact hid _ h1
  · rw [hR.swept.sets] at hk
    obtain hk | ⟨h1, -⟩ := hR.moved.mem_cases hk
    · obtain h0 | h1 := hH.low i k hk
      · obtain he | he := hR.swept.blk_cases k
        · rw [he, hblks, CDynaLru.evicted, if_pos h0]
          exact .inr rfl
        · rw [he, hblks]
          exact .inl h0
      · exact .inr (hid k h1)
    · cases h1

/-- The frames that change hands keep naming the thread of their data while they are valid. -/
theorem Resized.owned {tc tc' : Nat} {h : CacheBlk → CacheBlk} (hO : Owned s.store)
    (hh : ∀ b, (h b).isValid = true → b.isValid = true ∧ (h b).threadID = b.threadID)
    (hR : Resized g tc tc' h s s' mid fr) : Owned s'.store where
  source k hv := by
    have hblks : (putTags s mid).store.tags.blks k = s.store.tags.blks k := congrFun hR.moved.blks k
    have hsrc : s'.store.source = s.store.source := hR.swept.source
    rw [hsrc]
    obtain he | he := hR.swept.blk_cases k
    · rw [he, hblks] at hv ⊢
      rw [(hh _ hv).2]
      exact hO.source k (hh _ hv).1
    · rw [he, hblks] at hv ⊢
      exact hO.source k hv
  temp := by
    rw [show s'.store.tempBlock = s.store.tempBlock from hR.swept.temp]
    exact hO.temp

theorem Resized.homes {tc tc' : Nat} {h : CacheBlk → CacheBlk} (hS : Sound 2 g s) (hO : Owned s.store)
    (hH : Homes s.ctl) (htid : ∀ i < g.numSets, (tc = 0 → (s.store.tags.blks (fr i)).threadID = 0) →
      (s.store.tags.blks (fr i)).threadID = tc)
    (hR : Resized g tc tc' h s s' mid fr) : Homes s'.ctl := by
  refine hR.run.homes hS.ctl hH ?_
  rintro _ _ p ⟨i, hi, h0, -, -, hv, -, rfl⟩ o ho
  rw [← htid i hi h0, ← hO.source _ hv]
  exact (Option.some.inj ho).symm

theorem adjusts_owned {d : Decision} (hS : Sound 2 g s) (hT : Housed s.store.tags) (hO : Owned s.store)
    (hH : Homes s.ctl) (h : Adjusts g s d s') : Housed s'.store.tags ∧ Owned s'.store ∧ Homes s'.ctl := by
  have hgs : s.store.tags.geo = g := hS.geo
  cases h with
  | stay e => exact ⟨hT, ⟨hO.source, hO.temp⟩, hH⟩
  | grow hne hR =>
    refine ⟨hR.housed_grow hT, hR.owned hO (fun b hv => ?_), hR.homes hS hO hH fun i hi _ => ?_⟩
    · exact ⟨(tame_cleanedIf.valid b hv).1, threadID_cleanedIf b⟩
    · exact hT.high i _ (hR.moved.mem_fr (hgs ▸ hi))
  | shrink hne hR =>
    refine ⟨hR.housed_shrink hS hT, hR.owned hO (fun b hv => ?_), hR.homes hS hO hH fun i hi h0 => h0 rfl⟩
    unfold CDynaLru.evicted at hv ⊢
    split at hv
    · cases hv
    · next h0 =>
      rw [if_neg h0]
      exact ⟨hv, rfl⟩

/-- Only thread 0 uses `tempBlock`, and data goes into blocks of its own thread. -/
def OwnOk (s : State Ext) : Act → Prop
  | .cache a => IntoOk policy s a ∧ TempOk policy s a
  | .adjustPartition _ => True

instance (s : State Ext) (a : Act) : Decidable (OwnOk s a) := by
  unfold OwnOk
  split <;> infer_instance

structure Inv (g : Geometry) (s : State Ext) : Prop where
  sound : Sound 2 g s
  housed : Housed s.store.tags
  owned : Owned s.store
  homes : Homes s.ctl

theorem step_inv {a : Act} (hI : Inv g s) (hok : OwnOk s a) (h : step s a = .ok s') : Inv g s' := by
  have hS := step_sound hI.sound h
  cases a with
  | cache a =>
    have hm := step_moves lawful hI.sound h
    obtain ⟨h1, h2⟩ := hm.owned lawful (fun _ _ => rfl) hI.sound hI.owned hI.homes hok.1 hok.2
    refine ⟨hS, ?_, h1, h2⟩
    obtain he | ⟨c, pkt, wbs, he⟩ := hm.effect
    · rw [he]
      exact hI.housed
    · exact effect_housed hI.sound.frames hI.housed he
  | adjustPartition d =>
    obtain ⟨h1, h2, h3⟩ := adjusts_owned hI.sound hI.housed hI.owned hI.homes
      (adjustPartition_adjusts hI.sound.frames hI.sound.geo h)
    exact ⟨hS, h1, h2, h3⟩

theorem inv_init (cfg : Config) (p : CDynaParams) (mshrs writeBuffers : Nat) :
    Inv p.geo (init cfg p mshrs writeBuffers) := by
  have hid : ∀ {t i f}, f ∈ (init cfg p mshrs writeBuffers).store.tags.sets t i →
      ((init cfg p mshrs writeBuffers).store.tags.blks f).threadID = t := fun {t i f} hf =>
    @Lru.threadID_initSets (CDynaLru.assocOfTc p.lAssoc (p.geo.assoc - p.lAssoc)) p.geo p.maxMasters 2 (fun tc => tc)
      f t i hf
  exact ⟨sound_init cfg p mshrs writeBuffers, ⟨fun _ _ => hid, fun _ _ hf => .inl (hid hf)⟩,
    owned_init cfg _ _ mshrs writeBuffers fun _ => rfl, homes_init mshrs writeBuffers⟩

end CDynamic

/-! ## Runs -/

/-- Some writeback in the buffer of thread `t` carries data of thread `o`. -/
def Carries (c : Control) (t o : Nat) : Prop :=
  ∃ r ∈ (c.writeBuffers t).allocatedList, ∃ x ∈ ((c.writeBuffers t).registers r).targets.list, x.pkt.origin = some o

instance (c : Control) (t o : Nat) : Decidable (Carries c t o) := inferInstanceAs (Decidable (∃ r ∈ _, ∃ x ∈ _, _))

/-- Each thread has one way.  Thread 1 upgrades its block and writes another one,
whose data comes first and is served through `tempBlock`. -/
def upgradeThenWrite : List Action :=
  Small.load 1 0 true ++ [Small.write 1 0 7, .advance 1, Small.send 1, Small.write 1 4 9, .advance 1, Small.send 1,
    Small.respond 1 1 .readExResp false]

/-- High loads two blocks, Low gets the way of one of them, writes its block back
into it and replaces it. -/
def intoForeignBlock : List CDynamic.Act :=
  (Small.load 1 0 false ++ Small.load 1 4 false).map .cache ++ [.adjustPartition .inc] ++
    ([Small.writeback 0 0 3] ++ Small.load 0 8 false ++ Small.load 0 12 false).map .cache

theorem temp_writeback_misplaced :
    (∃ s, runs Split.step (Split.init Small.cfg (Small.geo 2 (by decide)) 1 2 4 4) upgradeThenWrite = .ok s ∧
      Carries s.ctl 0 1) ∧
    ∃ s, runs CDynamic.step (CDynamic.init Small.cfg ⟨Small.geo 3 (by decide), 1, 1, 1, by decide⟩ 4 4)
      intoForeignBlock = .ok s ∧ Carries s.ctl 1 0 :=
  ⟨by decide +kernel, by decide +kernel⟩

theorem Homes.carries (h : Homes c) {o : Nat} (hs : Carries c t o) : o = t := by
  obtain ⟨r, hr, x, hx, ho⟩ := hs
  exact h ⟨true, t, r⟩ rfl hr x (.inl hx) o ho

/-- In every run in which only thread 0 is served through `tempBlock`, and in
`C_DynamicCache` data only goes into blocks of its own thread, every writeback is
in the write buffer of the thread whose fill or Writeback last put data there. -/
theorem writebacks_stay_with_thread (cfg : Config) (mshrs writeBuffers : Nat) :
    (∀ (geo : Geometry) (maxMasters numTcs : Nat) (as : List Action) (s : State Unit),
      Always Split.step (TempOk Split.policy) (Split.init cfg geo maxMasters numTcs mshrs writeBuffers) as →
      runs Split.step (Split.init cfg geo maxMasters numTcs mshrs writeBuffers) as = .ok s →
      ∀ t o, Carries s.ctl t o → o = t) ∧
    ∀ (p : CDynaParams) (as : List CDynamic.Act) (s : State CDynamic.Ext),
      Always CDynamic.step CDynamic.OwnOk (CDynamic.init cfg p mshrs writeBuffers) as →
      runs CDynamic.step (CDynamic.init cfg p mshrs writeBuffers) as = .ok s →
      ∀ t o, Carries s.ctl t o → o = t := by
  constructor
  · intro geo maxMasters numTcs as s hok hr t o
    have hI : Split.Inv numTcs geo s := runs_invariant (Split.Inv numTcs geo)
      (fun s a s' hs ha h => Split.step_inv hs ha h)
      (Split.inv_init cfg geo maxMasters numTcs mshrs writeBuffers) hok hr
    exact hI.homes.carries
  · intro p as s hok hr t o
    have hI : CDynamic.Inv p.geo s := runs_invariant (CDynamic.Inv p.geo)
      (fun s a s' hs ha h => CDynamic.step_inv hs ha h) (CDynamic.inv_init cfg p mshrs writeBuffers) hok hr
    exact hI.homes.carries

/-- Both threads replace blocks that they have written, in `C_DynamicCache` also through a resize. -/
theorem writebacks_stay_with_thread_replaced :
    (∃ s, runs Split.step (Split.init Small.cfg (Small.geo 2 (by decide)) 1 2 4 4)
        (Small.load 1 0 false ++ [Small.write 1 0 7] ++ Small.load 1 4 false ++ Small.load 0 0 false ++
          [Small.write 0 0 3] ++ Small.load 0 8 false) = .ok s ∧
      (Carries s.ctl 0 0 ∧ Carries s.ctl 1 1) ∧ ∀ t o, Carries s.ctl t o → o = t) ∧
    ∃ s, runs CDynamic.step (CDynamic.init Small.cfg ⟨Small.geo 3 (by decide), 1, 1, 1, by decide⟩ 4 4)
        ((Small.load 1 0 false ++ [Small.write 1 0 7] ++ Small.load 1 4 false).map .cache ++ [.adjustPartition .inc] ++
          (Small.load 0 8 false ++ [Small.write 0 8 3] ++ Small.load 0 12 false ++ Small.load 0 16 false).map .cache) =
          .ok s ∧
      (Carries s.ctl 0 0 ∧ Carries s.ctl 1 1) ∧ ∀ t o, Carries s.ctl t o → o = t := by
  constructor
  · exact exists_ok _ (by decide +kernel) fun s hs hp =>
      ⟨hp, (writebacks_stay_with_thread _ _ _).1 _ _ _ _ s (by decide +kernel) hs⟩
  · exact exists_ok _ (by decide +kernel) fun s hs hp =>
      ⟨hp, (writebacks_stay_with_thread _ _ _).2 _ _ s (by decide +kernel) hs⟩

end DynamicCache.Cache
