import DynamicCache.Cache.Timing
import DynamicCache.Tags.Changes
import Mathlib.Logic.Relation

/-!
# What serving a packet does to a block

Once a request has found its block, or a response has filled it, everything
that is done on its behalf is done to that one block: `Prim x b t n` lists the
single changes of block `b` for thread `t` and block number `n` (a permission
taken away, a write, an invalidation where `x` allows one, the end of
`tempBlock`), and `Serve` is a sequence of them.  `satisfyCpuSideRequest`,
`handleSnoop`, the loop over the targets of a register and what follows it are
all of this form.  What `Serve` leaves alone is said once here.
-/

namespace DynamicCache.Cache

open Lib Tags Relation

variable {ε : Type} {tid : Nat} {p p' pkt pkt' : Packet} {cfg : Config} {o : List Output} {b' : BlkRef}
  {wbs : List Packet}

namespace Storage

/-! ## Single changes -/

/-- Block `y` is `x` with fewer permissions. -/
structure Weaker (x y : CacheBlk) : Prop where
  tag : y.tag = x.tag
  set : y.set = x.set
  threadID : y.threadID = x.threadID
  srcMasterId : y.srcMasterId = x.srcMasterId
  data : y.data = x.data
  valid : y.isValid = x.isValid
  dirty : y.isDirty = true → x.isDirty = true
  writable : y.isWritable = true → x.isWritable = true
  touched : x.isTouched = true → y.isTouched = true

inductive Prim (x : Bool) (b : BlkRef) (t n : Nat) (s : Storage ε) : Storage ε → Prop where
  | adjust {y : CacheBlk} (h : Weaker (s.blk b) y) : Prim x b t n s (s.putBlk b y)
  | write {pkt : Packet} (hn : s.tags.geo.blkAddr pkt.addr = n)
      (hs : getOffset s.tags.geo pkt.addr + pkt.size ≤ s.tags.geo.blkSize) :
      Prim x b t n s ((s.accept pkt).modify b (written s.tags.geo pkt))
  | invalidate {s' : Storage ε} (hx : x = true) (h : s.invalidateBlk b t = .ok s') : Prim x b t n s s'
  | drop {y : CacheBlk} (hb : b = .temp) (hv : y.isValid = false)
      (hs : y.srcMasterId = s.tempBlock.srcMasterId) (ht : y.threadID = s.tempBlock.threadID) :
      Prim x b t n s (s.putBlk b y)

def Serve (x : Bool) (b : BlkRef) (t n : Nat) : Storage ε → Storage ε → Prop := ReflTransGen (Prim x b t n)

variable {x : Bool} {b : BlkRef} {t n : Nat} {s s' s'' : Storage ε}

theorem Prim.serve (h : Prim x b t n s s') : Serve x b t n s s' := .single h

theorem Serve.refl (s : Storage ε) : Serve x b t n s s := ReflTransGen.refl

theorem Serve.trans (h : Serve x b t n s s') (h' : Serve x b t n s' s'') : Serve x b t n s s'' :=
  ReflTransGen.trans h h'

theorem Prim.weaken (h : Prim x b t n s s') : Prim true b t n s s' := by
  cases h with
  | adjust h => exact .adjust h
  | write hn hs => exact .write hn hs
  | invalidate hx h => exact .invalidate rfl h
  | drop hb hv hs ht => exact .drop hb hv hs ht

theorem Serve.weaken (h : Serve x b t n s s') : Serve true b t n s s' := by
  induction h with
  | refl => exact .refl _
  | tail _ hp ih => exact ih.trans hp.weaken.serve

/-- A change of the block in place. -/
theorem serve_modify {h : CacheBlk → CacheBlk} (hw : Weaker (s.blk b) (h (s.blk b))) :
    Serve x b t n s (s.modify b h) := (Prim.adjust hw).serve

/-! ## What stays -/

theorem blk_putBlk (s : Storage ε) (b : BlkRef) (y : CacheBlk) : (s.putBlk b y).blk b = y := by
  cases b with
  | frame f => simp [putBlk, blk, Lru.putBlk]
  | temp => rfl

theorem blk_putBlk_ne (s : Storage ε) {b : BlkRef} (y : CacheBlk) (h : b' ≠ b) :
    (s.putBlk b y).blk b' = s.blk b' := by
  cases b with
  | frame f =>
    cases b' with
    | frame g =>
      have hg : g ≠ f := fun he => h (by rw [he])
      simp [putBlk, blk, Lru.putBlk, hg]
    | temp => rfl
  | temp =>
    cases b' with
    | frame g => rfl
    | temp => exact absurd rfl h

theorem putBlk_geo (s : Storage ε) (b : BlkRef) (y : CacheBlk) : (s.putBlk b y).tags.geo = s.tags.geo := by
  cases b <;> rfl

/-- The parts of a storage that no change of a block touches. -/
structure Same (s s' : Storage ε) : Prop where
  geo : s'.tags.geo = s.tags.geo
  maxMasters : s'.tags.maxMasters = s.tags.maxMasters
  assocOfTc : s'.tags.assocOfTc = s.tags.assocOfTc
  ext : s'.ext = s.ext
  source : s'.source = s.source
  overwrote : s'.overwrote = s.overwrote

theorem Same.refl (s : Storage ε) : Same s s := ⟨rfl, rfl, rfl, rfl, rfl, rfl⟩

theorem Same.trans (h : Same s s') (h' : Same s' s'') : Same s s'' :=
  ⟨h'.geo.trans h.geo, h'.maxMasters.trans h.maxMasters, h'.assocOfTc.trans h.assocOfTc,
    h'.ext.trans h.ext, h'.source.trans h.source, h'.overwrote.trans h.overwrote⟩

theorem same_putBlk (s : Storage ε) (b : BlkRef) (y : CacheBlk) : Same s (s.putBlk b y) := by
  cases b <;> exact ⟨rfl, rfl, rfl, rfl, rfl, rfl⟩

theorem invalidateBlk_frame {f : Nat} (h : s.invalidateBlk (.frame f) tid = .ok s') :
    ∃ tags, s.tags.invalidateBlk f tid = some tags ∧ s' = { s with tags := tags } := by
  by_cases hv : (s.blk (.frame f)).isValid = true
  · simp only [invalidateBlk, if_pos hv, bind_ok, orFail_ok] at h
    obtain ⟨-, -, tags, ht, h⟩ := h
    cases h
    exact ⟨tags, ht, rfl⟩
  · simp only [invalidateBlk, if_neg hv] at h
    cases h
    refine ⟨_, ?_, rfl⟩
    rw [blk] at hv
    simp [Lru.invalidateBlk, hv, blk]

/-- `tempBlock` cannot be invalidated while it is valid. -/
theorem invalidateBlk_temp (h : s.invalidateBlk .temp tid = .ok s') :
    s.tempBlock.isValid = false ∧ s' = s.putBlk .temp (Lru.invalidated s.tempBlock) := by
  by_cases hv : (s.blk .temp).isValid = true
  · simp only [invalidateBlk, if_pos hv, bind_ok] at h
    obtain ⟨-, -, h⟩ := h
    cases h
  · simp only [invalidateBlk, if_neg hv] at h
    cases h
    exact ⟨by simpa [blk] using hv, rfl⟩

theorem invalidateBlk_same (h : s.invalidateBlk b tid = .ok s') : Same s s' := by
  cases b with
  | frame f =>
    obtain ⟨tags, ht, rfl⟩ := invalidateBlk_frame h
    simp only [Lru.invalidateBlk] at ht
    split at ht
    · split at ht
      · obtain ⟨l, -, rfl⟩ := Option.map_eq_some_iff.1 ht
        exact ⟨rfl, rfl, rfl, rfl, rfl, rfl⟩
      · cases ht
    · cases ht
      exact ⟨rfl, rfl, rfl, rfl, rfl, rfl⟩
  | temp =>
    obtain ⟨-, rfl⟩ := invalidateBlk_temp h
    exact same_putBlk s .temp _

/-- What an invalidation leaves in the blocks. -/
theorem invalidateBlk_blk (h : s.invalidateBlk b tid = .ok s') :
    s'.blk b = Lru.invalidated (s.blk b) ∧ (∀ b', b' ≠ b → s'.blk b' = s.blk b') ∧
      s'.accepted = s.accepted := by
  cases b with
  | frame f =>
    obtain ⟨tags, ht, rfl⟩ := invalidateBlk_frame h
    have hb : tags.blks = Function.update s.tags.blks f (Lru.invalidated (s.tags.blks f)) := by
      simp only [Lru.invalidateBlk] at ht
      split at ht
      · split at ht
        · obtain ⟨l, -, rfl⟩ := Option.map_eq_some_iff.1 ht
          rfl
        · cases ht
      · cases ht
        rfl
    refine ⟨by simp [blk, hb], fun b' hne => ?_, rfl⟩
    cases b' with
    | frame g =>
      have hg : g ≠ f := fun he => hne (by rw [he])
      simp [blk, hb, hg]
    | temp => rfl
  | temp =>
    obtain ⟨-, rfl⟩ := invalidateBlk_temp h
    exact ⟨blk_putBlk s .temp _, fun b' hne => blk_putBlk_ne s _ hne, rfl⟩

theorem Prim.same (h : Prim x b t n s s') : Same s s' := by
  cases h with
  | adjust _ => exact same_putBlk s b _
  | write _ _ => exact (show Same s (s.accept _) from ⟨rfl, rfl, rfl, rfl, rfl, rfl⟩).trans (same_putBlk _ b _)
  | invalidate _ h => exact invalidateBlk_same h
  | drop _ _ _ _ => exact same_putBlk s b _

theorem Serve.same (h : Serve x b t n s s') : Same s s' := by
  induction h with
  | refl => exact .refl s
  | tail _ hp ih => exact ih.trans hp.same

/-- Other blocks are left alone. -/
theorem Prim.blk_ne (h : Prim x b t n s s') (hne : b' ≠ b) : s'.blk b' = s.blk b' := by
  cases h with
  | adjust _ => exact blk_putBlk_ne s _ hne
  | write _ _ => exact blk_putBlk_ne _ _ hne
  | invalidate _ h => exact (invalidateBlk_blk h).2.1 b' hne
  | drop _ _ _ _ => exact blk_putBlk_ne s _ hne

theorem Serve.blk_ne (h : Serve x b t n s s') (hne : b' ≠ b) : s'.blk b' = s.blk b' := by
  induction h with
  | refl => rfl
  | tail _ hp ih => rw [hp.blk_ne hne, ih]

/-- Only writes to block `n` are recorded. -/
theorem Serve.accepted_ne (h : Serve x b t n s s') {m : Nat} (hm : m ≠ n) : s'.accepted m = s.accepted m := by
  induction h with
  | refl => rfl
  | tail _ hp ih =>
    rw [← ih]
    cases hp with
    | adjust _ => cases b <;> rfl
    | write hn _ =>
      subst hn
      cases b <;> simp [modify, putBlk, accept, hm]
    | invalidate _ h => exact congrFun (invalidateBlk_blk h).2.2 m
    | drop _ _ _ _ => cases b <;> rfl

/-- What serving keeps of the block it serves. -/
theorem Prim.blk_self {f : Nat} (h : Prim x (.frame f) t n s s') :
    (s'.tags.blks f).tag = (s.tags.blks f).tag ∧ (s'.tags.blks f).set = (s.tags.blks f).set ∧
      (s'.tags.blks f).threadID = (s.tags.blks f).threadID ∧
      ((s'.tags.blks f).isValid = true → (s.tags.blks f).isValid = true ∧
        (s'.tags.blks f).srcMasterId = (s.tags.blks f).srcMasterId) ∧
      (x = false → (s'.tags.blks f).isValid = (s.tags.blks f).isValid) ∧
      ((s'.tags.blks f).isWritable = true → (s.tags.blks f).isWritable = true) := by
  cases h with
  | @adjust y h =>
    have hb := blk_putBlk s (.frame f) y
    simp only [blk] at hb h
    rw [hb]
    exact ⟨h.tag, h.set, h.threadID, fun hv => ⟨h.valid ▸ hv, h.srcMasterId⟩, fun _ => h.valid, h.writable⟩
  | @write pkt _ _ =>
    have hb := blk_putBlk (s.accept pkt) (.frame f) (written s.tags.geo pkt (s.tags.blks f))
    simp only [modify, blk, accept] at hb ⊢
    rw [hb]
    exact ⟨rfl, rfl, rfl, fun hv => ⟨hv, rfl⟩, fun _ => rfl, fun hw => hw⟩
  | invalidate hx h =>
    have hb := (invalidateBlk_blk h).1
    simp only [blk] at hb
    rw [hb]
    refine ⟨rfl, rfl, rfl, fun hv => ?_, fun h0 => ?_, fun hv => ?_⟩
    · cases hv
    · rw [hx] at h0
      cases h0
    · cases hv
  | drop hb _ _ _ => cases hb

/-- What `tempBlock` always keeps. -/
structure TempKept (s s' : Storage ε) : Prop where
  threadID : s'.tempBlock.threadID = s.tempBlock.threadID
  srcMasterId : s'.tempBlock.srcMasterId = s.tempBlock.srcMasterId

theorem TempKept.of_eq (h : s'.tempBlock = s.tempBlock) : TempKept s s' := by
  constructor <;> rw [h]

theorem TempKept.trans (h : TempKept s s') (h' : TempKept s' s'') : TempKept s s'' :=
  ⟨h'.threadID.trans h.threadID, h'.srcMasterId.trans h.srcMasterId⟩

/-- What happens after changes that leave `tempBlock` as it is. -/
theorem TempKept.after (h : TempKept s' s'') (he : s'.tempBlock = s.tempBlock) : TempKept s s'' :=
  (TempKept.of_eq he).trans h

theorem Prim.temp (h : Prim x b t n s s') : TempKept s s' := by
  cases b with
  | frame f => exact .of_eq (h.blk_ne (show BlkRef.temp ≠ .frame f by simp))
  | temp =>
    cases h with
    | adjust h => exact ⟨h.threadID, h.srcMasterId⟩
    | write _ _ => exact ⟨rfl, rfl⟩
    | invalidate _ h =>
      obtain ⟨hv, rfl⟩ := invalidateBlk_temp h
      refine ⟨rfl, ?_⟩
      simp [putBlk, Lru.invalidated, hv]
    | drop _ _ hs ht => exact ⟨ht, hs⟩

theorem Serve.temp (h : Serve x b t n s s') : TempKept s s' := by
  induction h with
  | refl => exact .of_eq rfl
  | tail _ hp ih => exact ih.trans hp.temp

/-- Serving a frame only reorders lists and takes validity away. -/
theorem Serve.quiet (h : Serve x b t n s s') (hl : s.tags.Nodup) :
    Lru.Quiet s.tags s'.tags := by
  induction h with
  | refl => exact .refl _
  | @tail s₁ s₂ _ hp ih =>
    refine ih.trans ?_
    cases b with
    | temp =>
      cases hp with
      | adjust _ => exact .refl _
      | write _ _ => exact .refl _
      | invalidate _ h => rw [(invalidateBlk_temp h).2]; exact .refl _
      | drop _ _ _ _ => exact .refl _
    | frame f =>
      cases hp with
      | adjust h => exact .putBlk h.tag h.set h.threadID (fun _ => h.touched) (fun hv => ⟨h.valid ▸ hv, h.srcMasterId⟩)
      | write _ _ => exact .putBlk rfl rfl rfl (fun _ h => h) (fun hv => ⟨hv, rfl⟩)
      | invalidate _ h =>
        obtain ⟨tags, ht, rfl⟩ := invalidateBlk_frame h
        exact Lru.quiet_invalidateBlk (ih.nodup hl) ht
      | drop hb _ _ _ => cases hb

/-! ## Requests -/

theorem needsExclusive_of_isUpgrade (c : MemCmd) :
    (commandInfo c).isUpgrade = true → (commandInfo c).needsExclusive = true := by
  cases c <;> decide

theorem cmpAndSwap_serve (hs : getOffset s.tags.geo pkt.addr + pkt.size ≤ s.tags.geo.blkSize)
    (h : s.cmpAndSwap pkt b = .ok (s', pkt')) :
    Serve x b t (s.tags.geo.blkAddr pkt.addr) s s' ∧ pkt'.cmd = pkt.cmd := by
  simp only [cmpAndSwap, bind_ok] at h
  obtain ⟨-, -, proceeds, -, h⟩ := h
  cases proceeds with
  | true =>
    cases h
    exact ⟨(Prim.write rfl hs).serve, rfl⟩
  | false =>
    cases h
    exact ⟨.refl _, rfl⟩

theorem checkWrite_weaker (y : CacheBlk) (pkt : Packet) : Weaker y (checkWrite y pkt).1 := by
  unfold checkWrite
  split <;> exact ⟨rfl, rfl, rfl, rfl, rfl, rfl, fun h => h, fun h => h, fun h => h⟩

theorem checkWrite_cmd (y : CacheBlk) (pkt : Packet) : (checkWrite y pkt).2.1.cmd = pkt.cmd := by
  unfold checkWrite
  split <;> rfl

theorem satisfyWrite_cmd (s : Storage ε) (pkt : Packet) (b : BlkRef) :
    (s.satisfyWrite pkt b).2.cmd = pkt.cmd := by
  unfold satisfyWrite
  simp only
  split <;> exact checkWrite_cmd _ _

theorem satisfyWrite_serve (hc : pkt.cmd ≠ .writeback)
    (hs : getOffset s.tags.geo pkt.addr + pkt.size ≤ s.tags.geo.blkSize) :
    Serve x b t (s.tags.geo.blkAddr pkt.addr) s (s.satisfyWrite pkt b).1 := by
  have h1 : Serve x b t (s.tags.geo.blkAddr pkt.addr) s (s.putBlk b (checkWrite (s.blk b) pkt).1) :=
    (Prim.adjust (checkWrite_weaker _ _)).serve
  have hg := putBlk_geo s b (checkWrite (s.blk b) pkt).1
  have h2 : Serve x b t (s.tags.geo.blkAddr pkt.addr) (s.putBlk b (checkWrite (s.blk b) pkt).1)
      (((s.putBlk b (checkWrite (s.blk b) pkt).1).accept pkt).modify b
        (written (s.putBlk b (checkWrite (s.blk b) pkt).1).tags.geo pkt)) :=
    (Prim.write (by rw [hg]) (by rw [hg]; exact hs)).serve
  unfold satisfyWrite
  simp only [if_neg hc]
  split
  · refine h1.trans ?_
    cases b <;> exact h2
  · exact h1

/-- The lock record of a load-locked read. -/
theorem serve_locked (s : Storage ε) (pkt : Packet) :
    Serve x b t n s (if pkt.isLLSC then
      s.modify b fun y => { y with lockList := pkt.req.contextId :: y.lockList } else s) := by
  split
  · exact serve_modify ⟨rfl, rfl, rfl, rfl, rfl, rfl, fun h => h, fun h => h, fun h => h⟩
  · exact .refl _

theorem satisfyRead_serve {d p : Bool} (h : s.satisfyRead cfg pkt b d p = .ok (s', pkt')) :
    Serve pkt.needsExclusive b pkt.threadID n s s' ∧ pkt'.cmd = pkt.cmd := by
  have h1 := serve_locked (x := pkt.needsExclusive) (b := b) (t := pkt.threadID) (n := n) s pkt
  unfold satisfyRead at h
  generalize (if pkt.isLLSC then
    s.modify b fun y => { y with lockList := pkt.req.contextId :: y.lockList } else s) = s₁ at h h1
  simp only at h
  split at h
  · split at h
    · next hx =>
      simp only [bind_ok] at h
      obtain ⟨s₂, hi, h⟩ := h
      cases h
      refine ⟨h1.trans (Prim.invalidate hx hi).serve, ?_⟩
      split <;> rfl
    · split at h
      · split at h
        · split at h
          · cases h
            refine ⟨h1.trans (serve_modify ?_), rfl⟩
            exact ⟨rfl, rfl, rfl, rfl, rfl, rfl, (fun h => by cases h), fun h => h, fun h => h⟩
          · cases h
            exact ⟨h1, rfl⟩
        · cases h
          exact ⟨h1, rfl⟩
      · cases h
        exact ⟨h1, rfl⟩
  · cases h
    exact ⟨h1, rfl⟩

/-- What is done for a request, and that its command stays. -/
theorem satisfyCpuSideRequest_serve {d p : Bool} (h : s.satisfyCpuSideRequest cfg pkt b d p = .ok (s', pkt')) :
    (pkt.cmd ≠ .writeback → Serve pkt.needsExclusive b pkt.threadID (s.tags.geo.blkAddr pkt.addr) s s') ∧
      pkt'.cmd = pkt.cmd := by
  simp only [satisfyCpuSideRequest, bind_ok, assert, check_ok, decide_eq_true_eq] at h
  obtain ⟨-, hs, h⟩ := h
  split at h
  · have hw := cmpAndSwap_serve (x := pkt.needsExclusive) (t := pkt.threadID) hs h
    exact ⟨fun _ => hw.1, hw.2⟩
  · split at h
    · have he : s.satisfyWrite pkt b = (s', pkt') := Except.ok.inj h
      have hc := satisfyWrite_cmd s pkt b
      rw [he] at hc
      refine ⟨fun hne => ?_, hc⟩
      have hw := satisfyWrite_serve (x := pkt.needsExclusive) (b := b) (t := pkt.threadID) hne hs
      rwa [he] at hw
    · split at h
      · have hr := satisfyRead_serve (n := s.tags.geo.blkAddr pkt.addr) h
        exact ⟨fun _ => hr.1, hr.2⟩
      · simp only [bind_ok, check_ok] at h
        obtain ⟨-, hu, s₁, hi, h⟩ := h
        cases h
        exact ⟨fun _ => (Prim.invalidate (needsExclusive_of_isUpgrade _ hu) hi).serve, rfl⟩

/-! ## Writebacks -/

theorem cleaned_weaker (y : CacheBlk) : Weaker y (cleaned y) :=
  ⟨rfl, rfl, rfl, rfl, rfl, rfl, (fun h => by cases h), fun h => h, fun h => h⟩

theorem writebackBlk_ok {wb : Packet} (h : s.writebackBlk b tid = .ok (s', wb)) :
    (s.blk b).isValid = true ∧ (s.blk b).isDirty = true ∧ s' = s.modify b cleaned ∧
      wb = s.writebackPacket b tid := by
  simp only [writebackBlk, bind_ok, assert, check_ok, Bool.and_eq_true] at h
  obtain ⟨-, ⟨hv, hd⟩, h⟩ := h
  cases h
  exact ⟨hv, hd, rfl, rfl⟩

/-! ## Snoops -/

theorem shareIf_serve (s : Storage ε) (c : Bool) : Serve x b t n s (s.shareIf c b) := by
  unfold shareIf
  split
  · exact serve_modify ⟨rfl, rfl, rfl, rfl, rfl, rfl, fun h => h, (fun h => by cases h), fun h => h⟩
  · exact .refl _

theorem invalidateIf_serve {c : Bool} (h : s.invalidateIf c b t = .ok s') : Serve c b t n s s' := by
  unfold invalidateIf at h
  split at h
  · next hc => exact (Prim.invalidate hc h).serve
  · cases h
    exact .refl _

theorem handleSnoop_serve {up : UpwardSnoop} {inval : Bool} {resp : Option Packet}
    (h : s.handleSnoop cfg up pkt (some b) inval = .ok (s', resp)) :
    Serve pkt.isInvalidate b pkt.threadID n s s' := by
  simp only [handleSnoop, bind_ok] at h
  obtain ⟨-, -, fwd, -, h⟩ := h
  split at h
  · cases h
    exact .refl _
  · simp only [bind_ok] at h
    obtain ⟨-, -, r, -, s₂, hi, h⟩ := h
    cases h
    exact (shareIf_serve s _).trans (invalidateIf_serve hi)

theorem handleSnoop_none {up : UpwardSnoop} {inval : Bool} {resp : Option Packet}
    (h : s.handleSnoop cfg up pkt none inval = .ok (s', resp)) : s' = s := by
  simp only [handleSnoop, bind_ok] at h
  obtain ⟨-, -, pkt₁, -, h⟩ := h
  cases h
  rfl

end Storage

/-! ## Responses -/

namespace State

open Storage

variable {b : BlkRef} {t n : Nat} {s s' : Storage ε} {e : Fill}

theorem makeTimingResponse_ok (h : p.makeTimingResponse = .ok p') :
    p.needsResponse = true ∧ p' = { p with cmd := (commandInfo p.cmd).response, isExpressSnoop := false } := by
  simp only [Packet.makeTimingResponse, bind_ok, assert, check_ok] at h
  obtain ⟨-, hn, -, -, h⟩ := h
  cases h
  exact ⟨hn, rfl⟩

theorem Fill.answerCmd_needsResponse (h : e.answerCmd p = .ok p') : p.needsResponse = true := by
  simp only [answerCmd, bind_ok] at h
  obtain ⟨p₁, hp, -⟩ := h
  exact (makeTimingResponse_ok hp).1

theorem Fill.answer_serve {time : Nat} (ht : p.threadID = t) (hn : s.tags.geo.blkAddr p.addr = n)
    (h : e.answer s (some b) p = .ok (s', p', time)) (hr : p'.needsResponse = true) :
    Serve true b t n s s' := by
  unfold answer at h
  split at h
  · simp only [bind_ok, orFail_ok] at h
    obtain ⟨down, -, b', hb, ⟨s₁, p₁⟩, hs, -, -, -, -, h⟩ := h
    cases h
    obtain rfl := Option.some.inj hb
    obtain ⟨hserve, hcmd⟩ := satisfyCpuSideRequest_serve hs
    have hc : p.cmd ≠ .writeback := by
      intro hc
      rw [Packet.needsResponse, hcmd, hc] at hr
      cases hr
    rw [← ht, ← hn]
    exact (hserve hc).weaken
  · split at h
    · simp only [bind_ok] at h
      obtain ⟨-, -, h⟩ := h
      cases h
      exact .refl _
    · cases h
      exact .refl _

theorem Fill.serveTarget_serve {x : Target} (ht : x.pkt.threadID = t) (hn : s.tags.geo.blkAddr x.pkt.addr = n)
    (h : e.serveTarget s (some b) x = .ok (s', o)) : Serve true b t n s s' := by
  unfold serveTarget at h
  split at h
  · simp only [bind_ok] at h
    obtain ⟨⟨s₁, p₁, time⟩, ha, p₂, hc, h⟩ := h
    cases h
    exact answer_serve ht hn ha (answerCmd_needsResponse hc)
  · simp only [bind_ok] at h
    obtain ⟨-, -, h⟩ := h
    cases h
    exact serve_modify ⟨rfl, rfl, rfl, rfl, rfl, rfl, fun h => h, fun h => h, fun h => h⟩
  · simp only [bind_ok] at h
    obtain ⟨-, -, inval, -, -, -, ⟨s₁, resp⟩, hs, h⟩ := h
    cases h
    rw [← ht]
    exact (handleSnoop_serve hs).weaken

/-- Without a block the targets are only answered. -/
theorem Fill.serveTarget_none {x : Target} (h : e.serveTarget s none x = .ok (s', o)) : s' = s := by
  unfold serveTarget at h
  split at h
  · simp only [bind_ok] at h
    obtain ⟨⟨s₁, p₁, time⟩, ha, p₂, hc, h⟩ := h
    cases h
    unfold answer at ha
    split at ha
    · simp only [bind_ok, orFail_ok] at ha
      obtain ⟨down, -, b', hb, -⟩ := ha
      cases hb
    · split at ha
      · simp only [bind_ok] at ha
        obtain ⟨-, -, ha⟩ := ha
        cases ha
        rfl
      · cases ha
        rfl
  · simp only [bind_ok] at h
    obtain ⟨-, -, h⟩ := h
    cases h
    rfl
  · simp only [bind_ok] at h
    obtain ⟨-, -, inval, -, -, -, ⟨s₁, resp⟩, hs, h⟩ := h
    cases h
    exact handleSnoop_none hs

theorem Fill.serveTargets_serve {xs : List Target} {o' : List Output}
    (hx : ∀ x ∈ xs, x.pkt.threadID = t ∧ s.tags.geo.blkAddr x.pkt.addr = n)
    (h : e.serveTargets (some b) xs s o = .ok (s', o')) : Serve true b t n s s' := by
  induction xs generalizing s o with
  | nil =>
    cases h
    exact .refl _
  | cons x xs ih =>
    simp only [serveTargets, bind_ok] at h
    obtain ⟨⟨s₁, o₁⟩, h1, h⟩ := h
    obtain ⟨ht, hn⟩ := hx x List.mem_cons_self
    have hs := serveTarget_serve ht hn h1
    refine hs.trans (ih (fun y hy => ?_) h)
    rw [hs.same.geo]
    exact hx y (List.mem_cons_of_mem x hy)

theorem Fill.serveTargets_none {xs : List Target} {o' : List Output}
    (h : e.serveTargets none xs s o = .ok (s', o')) : s' = s := by
  induction xs generalizing s o with
  | nil =>
    cases h
    rfl
  | cons x xs ih =>
    simp only [serveTargets, bind_ok] at h
    obtain ⟨⟨s₁, o₁⟩, h1, h⟩ := h
    rw [ih h, serveTarget_none h1]

theorem Fill.afterTargets_serve (ht : e.pkt.threadID = t) (h : e.afterTargets s (some b) = .ok s') :
    Serve true b t n s s' := by
  simp only [afterTargets, bind_ok] at h
  obtain ⟨inval, -, h⟩ := h
  split at h
  · rw [ht] at h
    exact (Prim.invalidate rfl h).serve
  · simp only [bind_ok] at h
    obtain ⟨down, -, h⟩ := h
    cases h
    exact shareIf_serve s down

theorem hideIf_serve (s : Storage ε) (promoted : Bool) : Serve true b t n s (hideIf s promoted (some b)) := by
  unfold hideIf
  simp only
  split
  · exact serve_modify ⟨rfl, rfl, rfl, rfl, rfl, rfl, fun h => h, fun h => h, fun h => h⟩
  · exact .refl _

/-- A dirty `tempBlock` is cleaned and its writeback goes out. -/
theorem writebackTemp_cases (h : writebackTemp s = .ok (s', wbs)) :
    (s.tempBlock.isDirty = false ∧ s' = s ∧ wbs = []) ∨
      (s.tempBlock.isDirty = true ∧ s' = s.modify .temp cleaned ∧
        wbs = [s.writebackPacket .temp s.tempBlock.threadID]) := by
  unfold writebackTemp at h
  split at h
  · next hd =>
    simp only [bind_ok] at h
    obtain ⟨⟨s₂, wb⟩, hb, h⟩ := h
    cases h
    obtain ⟨-, -, rfl, rfl⟩ := writebackBlk_ok hb
    exact .inr ⟨hd, rfl, rfl⟩
  · next hd =>
    cases h
    exact .inl ⟨Bool.eq_false_iff.2 hd, rfl, rfl⟩

/-- Only `tempBlock` is written back after a response. -/
theorem mem_clearTemp {blk : Option BlkRef} (h : clearTemp s blk tid = .ok (s', wbs)) (hp : p ∈ wbs) :
    blk = some .temp ∧ p = s.writebackPacket .temp s.tempBlock.threadID := by
  unfold clearTemp at h
  split at h
  · next hb =>
    simp only [bind_ok] at h
    obtain ⟨⟨s₁, w⟩, hw, s₂, -, h⟩ := h
    cases h
    obtain ⟨-, -, rfl⟩ | ⟨-, -, rfl⟩ := writebackTemp_cases hw
    · cases hp
    · exact ⟨hb, List.mem_singleton.1 hp⟩
  · cases h
    cases hp

/-- After a response `tempBlock` is empty again. -/
theorem clearTemp_serve (h : clearTemp s (some b) tid = .ok (s', wbs)) :
    Serve true b t n s s' ∧ (b = .temp → s'.tempBlock.isValid = false) := by
  unfold clearTemp at h
  split at h
  · next hb =>
    obtain rfl := Option.some.inj hb
    simp only [bind_ok] at h
    obtain ⟨⟨s₁, w⟩, hw, s₂, hi, h⟩ := h
    cases h
    obtain ⟨-, rfl⟩ := invalidateBlk_temp hi
    have h1 : Serve true .temp t n s s₁ := by
      obtain ⟨-, rfl, -⟩ | ⟨-, rfl, -⟩ := writebackTemp_cases hw
      · exact .refl _
      · exact serve_modify (cleaned_weaker _)
    refine ⟨h1.trans (ReflTransGen.head (Prim.drop rfl ?_ ?_ ?_) (Prim.drop rfl ?_ ?_ ?_).serve), fun _ => ?_⟩
    all_goals rfl
  · next hb =>
    cases h
    exact ⟨.refl _, fun he => absurd (congrArg some he) hb⟩

end State

end DynamicCache.Cache
