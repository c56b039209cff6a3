import DynamicCache.Cache.Lawful
import DynamicCache.Cache.Moves
import DynamicCache.Cache.Variants

/-!
# Responses that are served through `tempBlock`

When the victim of a fill waits for an upgrade, the response is served through
`tempBlock`, which is in no set.  A target that takes the block away (an
upgrade, an exclusive read of the whole block or an invalidating snoop), a
response that invalidates and a pending invalidation all call `invalidateBlk` on
it while it is valid, and the assertion there on the source master fails
(`temp_taken_away`).  All other responses leave the tag store as it was and
`tempBlock` empty (`tempBlock_isolated`).
-/

namespace DynamicCache.Cache

open Lib Tags

variable {ε : Type}

/-! ## Targets -/

/-- `satisfyCpuSideRequest` invalidates the block for the request. -/
def Packet.takesBlock (g : Geometry) (p : Packet) : Bool :=
  p.cmd != .swapReq && !p.isWrite && (!p.isRead || (p.size == g.blkSize && p.needsExclusive))

/-- The block is invalidated when the target is served. -/
def Target.takesBlock (g : Geometry) (x : Target) : Bool :=
  match x.source with
  | .fromCPU => x.pkt.takesBlock g
  | .fromPrefetcher => false
  | .fromSnoop => x.pkt.isInvalidate

/-- The assertions on the way of a CPU target hold. -/
structure Packet.Servable (g : Geometry) (maxMasters : Nat) (p : Packet) : Prop where
  fits : getOffset g p.addr + p.size ≤ g.blkSize
  swap : p.cmd = .swapReq → p.size ≤ 8 ∧ (p.req.isCondSwap = true → p.size = 8 ∨ p.size = 4)
  other : p.cmd ≠ .swapReq → p.isWrite = false → p.isRead = false → p.isUpgrade = true
  cacheable : p.req.isUncacheable = false
  master : p.req.masterId < maxMasters
  needsResponse : p.needsResponse = true
  isRequest : p.isRequest = true

/-- The flags of a snoop after the caches above have seen it. -/
def State.Fill.inhibits (e : State.Fill) (x : Target) : Bool :=
  x.pkt.memInhibitAsserted || (e.cfg.forwardSnoops && (e.up x.order).memInhibitAsserted)

/-- The assertions on the way of a snoop target hold; only a dirty block answers. -/
structure State.Fill.Snoopable (e : State.Fill) (dirty : Bool) (x : Target) : Prop where
  invalidates : e.pkt.isInvalidate = true → e.mshr.postInvalidate = true
  isRequest : x.pkt.isRequest = true
  once : e.cfg.forwardSnoops = true → (e.up x.order).memInhibitAsserted = true → x.pkt.memInhibitAsserted = false
  reads : x.pkt.isRead = true → x.pkt.isInvalidate = false → x.pkt.needsExclusive = false
  supplies : dirty = true → x.pkt.needsResponse = true → e.inhibits x = false ∧
    (x.pkt.isInvalidate || x.pkt.isRead || x.pkt.sharedAsserted ||
      (e.cfg.forwardSnoops && (e.up x.order).sharedAsserted)) = true

/-- The targets that a response serves: an exclusive one also those that waited for
an exclusive copy. -/
def Mshr.servedBy (m : Mshr) (pkt : Packet) : List Target :=
  if !pkt.sharedAsserted && !(m.postInvalidate || m.postDowngrade) && m.deferredTargets.needsExclusive then
    m.targets.list ++ m.deferredTargets.list
  else m.targets.list

namespace Storage

variable {s s' s'' : Storage ε} {cfg : Config} {p : Packet} {x y : Bool}

/-- Only `tempBlock` differs, and it is as valid as before. -/
structure TempOnly (s s' : Storage ε) : Prop where
  tags : s'.tags = s.tags
  valid : s'.tempBlock.isValid = s.tempBlock.isValid

theorem TempOnly.refl (s : Storage ε) : TempOnly s s := ⟨rfl, rfl⟩

theorem TempOnly.trans (h : TempOnly s s') (h' : TempOnly s' s'') : TempOnly s s'' :=
  ⟨h'.tags.trans h.tags, h'.valid.trans h.valid⟩

theorem tempOnly_modify {k : CacheBlk → CacheBlk} (hk : (k s.tempBlock).isValid = s.tempBlock.isValid) :
    TempOnly s (s.modify .temp k) := ⟨rfl, hk⟩

/-- The block is in no list. -/
theorem invalidateBlk_temp_ne {t : Nat} (hv : s.tempBlock.isValid = true) : s.invalidateBlk .temp t ≠ .ok s' := by
  intro h
  rw [(invalidateBlk_temp h).1] at hv
  cases hv

theorem satisfyWrite_tempOnly (s : Storage ε) (p : Packet) :
    TempOnly s (s.satisfyWrite p .temp).1 ∧ (s.satisfyWrite p .temp).2.req.masterId = p.req.masterId ∧
      (s.satisfyWrite p .temp).2.req.isUncacheable = p.req.isUncacheable := by
  by_cases hl : p.isLLSC = true
  · simp only [satisfyWrite, checkWrite, if_pos hl]
    split <;> exact ⟨⟨rfl, rfl⟩, rfl, rfl⟩
  · simp only [satisfyWrite, checkWrite, if_neg hl, if_true]
    exact ⟨⟨rfl, rfl⟩, trivial, trivial⟩

/-- The lock record of a load-locked read. -/
theorem tempOnly_locked (s : Storage ε) (p : Packet) : TempOnly s (if p.isLLSC then
    s.modify .temp fun y => { y with lockList := p.req.contextId :: y.lockList } else s) := by
  split
  · exact tempOnly_modify rfl
  · exact .refl s

theorem satisfyRead_ne {r : Storage ε × Packet} (hv : s.tempBlock.isValid = true) (hs : p.size = s.tags.geo.blkSize)
    (hx : p.needsExclusive = true) : s.satisfyRead cfg p .temp x y ≠ .ok r := by
  have h1 := tempOnly_locked s p
  unfold satisfyRead
  generalize (if p.isLLSC then
    s.modify .temp fun y => { y with lockList := p.req.contextId :: y.lockList } else s) = s₁ at h1
  intro h
  rw [if_pos (by rw [h1.tags]; exact hs)] at h
  split at h
  · obtain ⟨s₂, hi, -⟩ := bind_ok.1 h
    exact invalidateBlk_temp_ne (h1.valid.trans hv) hi
  · next hn => exact hn hx

theorem satisfyRead_tempOnly (cfg : Config) (x y : Bool)
    (h : ¬(p.size = s.tags.geo.blkSize ∧ p.needsExclusive = true)) :
    ∃ s' p', s.satisfyRead cfg p .temp x y = .ok (s', p') ∧ TempOnly s s' ∧ p'.req = p.req ∧ p'.cmd = p.cmd := by
  have h1 := tempOnly_locked s p
  unfold satisfyRead
  generalize (if p.isLLSC then
    s.modify .temp fun y => { y with lockList := p.req.contextId :: y.lockList } else s) = s₁ at h1
  dsimp only
  split
  · next hs =>
    rw [h1.tags] at hs
    split
    · next hx => exact absurd ⟨hs, hx⟩ h
    · split
      · split
        · split
          · exact ⟨_, _, rfl, h1.trans (tempOnly_modify rfl), rfl, rfl⟩
          · exact ⟨_, _, rfl, h1, rfl, rfl⟩
        · exact ⟨_, _, rfl, h1, rfl, rfl⟩
      · exact ⟨_, _, rfl, h1, rfl, rfl⟩
  · exact ⟨_, _, rfl, h1, rfl, rfl⟩

theorem cmpAndSwap_tempOnly (h8 : p.size ≤ 8) (hc : p.req.isCondSwap = true → p.size = 8 ∨ p.size = 4) :
    ∃ s' p', s.cmpAndSwap p .temp = .ok (s', p') ∧ TempOnly s s' ∧ p'.req = p.req ∧ p'.cmd = p.cmd := by
  have hswap : ∀ g y, ∃ b, swapProceeds g y p = .ok b := by
    intro g y
    unfold swapProceeds
    split
    · exact ⟨_, rfl⟩
    · next hn =>
      rw [if_pos (hc (by simpa using hn))]
      exact ⟨_, rfl⟩
  obtain ⟨b, hb⟩ := hswap s.tags.geo (s.blk .temp)
  simp only [cmpAndSwap, assert, check, decide_eq_true h8, if_true, hb]
  cases b with
  | true => exact ⟨_, _, rfl, ⟨rfl, rfl⟩, rfl, rfl⟩
  | false => exact ⟨_, _, rfl, .refl s, rfl, rfl⟩

/-- A request that takes the block away cannot be satisfied. -/
theorem satisfyCpuSideRequest_ne {r : Storage ε × Packet} (hv : s.tempBlock.isValid = true)
    (ht : p.takesBlock s.tags.geo = true) : s.satisfyCpuSideRequest cfg p .temp x y ≠ .ok r := by
  simp only [Packet.takesBlock, Bool.and_eq_true, Bool.or_eq_true, bne_iff_ne, Bool.not_eq_true', beq_iff_eq] at ht
  obtain ⟨⟨hc, hw⟩, hr⟩ := ht
  intro h
  simp only [satisfyCpuSideRequest, bind_ok] at h
  obtain ⟨-, -, h⟩ := h
  rw [if_neg hc, if_neg (by simp [hw])] at h
  split at h
  · next hread =>
    rw [hread] at hr
    obtain hr | ⟨hs, hx⟩ := hr
    · cases hr
    · exact satisfyRead_ne hv hs hx h
  · simp only [bind_ok] at h
    obtain ⟨-, -, s₁, hi, -⟩ := h
    exact invalidateBlk_temp_ne hv hi

theorem satisfyCpuSideRequest_tempOnly (cfg : Config) (x y : Bool) {n : Nat} (ho : p.Servable s.tags.geo n)
    (ht : p.takesBlock s.tags.geo = false) :
    ∃ s' p', s.satisfyCpuSideRequest cfg p .temp x y = .ok (s', p') ∧ TempOnly s s' ∧ p'.cmd = p.cmd ∧
      p'.req.masterId = p.req.masterId ∧ p'.req.isUncacheable = p.req.isUncacheable := by
  simp only [satisfyCpuSideRequest, assert, check, decide_eq_true ho.fits, if_true]
  by_cases hc : p.cmd = .swapReq
  · obtain ⟨h8, h4⟩ := ho.swap hc
    obtain ⟨s', p', h, h1, h2, h3⟩ := cmpAndSwap_tempOnly (s := s) h8 h4
    refine ⟨s', p', ?_, h1, h3, by rw [h2], by rw [h2]⟩
    rw [if_pos hc]
    exact h
  by_cases hw : p.isWrite = true
  · obtain ⟨h1, h2, h3⟩ := satisfyWrite_tempOnly s p
    refine ⟨_, _, ?_, h1, satisfyWrite_cmd s p .temp, h2, h3⟩
    rw [if_neg hc, if_pos hw]
    rfl
  have htake : p.isRead = true ∧ ¬(p.size = s.tags.geo.blkSize ∧ p.needsExclusive = true) := by
    simp only [Packet.takesBlock, hw, Bool.not_false, Bool.and_true, Bool.and_eq_false_imp, bne_iff_ne] at ht
    have ht' := ht hc
    simp only [Bool.or_eq_false_iff, Bool.not_eq_false', Bool.and_eq_false_imp, beq_iff_eq] at ht'
    refine ⟨ht'.1, fun h => ?_⟩
    rw [ht'.2 h.1] at h
    cases h.2
  obtain ⟨s', p', h, h1, h2, h3⟩ := satisfyRead_tempOnly cfg x y htake.2
  refine ⟨s', p', ?_, h1, h3, by rw [h2], by rw [h2]⟩
  rw [if_neg hc, if_neg hw, if_pos htake.1]
  exact h

theorem shareIf_tempOnly (s : Storage ε) (c : Bool) : TempOnly s (s.shareIf c .temp) := by
  unfold shareIf
  split
  · exact tempOnly_modify rfl
  · exact .refl s

theorem handleSnoop_ne {up : UpwardSnoop} {inval : Bool} {r : Storage ε × Option Packet}
    (hv : s.tempBlock.isValid = true)
    (hi : p.isInvalidate = true) : s.handleSnoop cfg up p (some .temp) inval ≠ .ok r := by
  intro h
  simp only [handleSnoop, bind_ok] at h
  obtain ⟨-, -, fwd, -, h⟩ := h
  split at h
  · next hn =>
    have hv' : (s.blk .temp).isValid = true := hv
    rw [hv'] at hn
    cases hn
  · simp only [bind_ok, invalidateIf, if_pos hi] at h
    obtain ⟨-, -, resp, -, s₁, hs, -⟩ := h
    exact invalidateBlk_temp_ne ((shareIf_tempOnly s _).valid.trans hv) hs

end Storage

/-! ## Serving the targets -/

namespace State

open Storage

variable {e : Fill} {s s' : Storage ε} {x : Target}

theorem handleSnoop_tempOnly (inval : Bool) (ho : e.Snoopable s.tempBlock.isDirty x) (hi : x.pkt.isInvalidate = false) :
    ∃ s' resp, s.handleSnoop e.cfg (e.up x.order) x.pkt (some .temp) inval = .ok (s', resp) ∧ TempOnly s s' := by
  obtain ⟨fwd, hfwd, hcmd, hmi, hsh⟩ : ∃ fwd, forwardSnoop e.cfg (e.up x.order) x.pkt = .ok fwd ∧
      fwd.cmd = x.pkt.cmd ∧ fwd.memInhibitAsserted = e.inhibits x ∧ fwd.sharedAsserted = (x.pkt.sharedAsserted ||
        (e.cfg.forwardSnoops && (e.up x.order).sharedAsserted)) := by
    unfold forwardSnoop Fill.inhibits
    split
    · next hf =>
      have honce : (!((e.up x.order).memInhibitAsserted && x.pkt.memInhibitAsserted)) = true := by
        cases hm : (e.up x.order).memInhibitAsserted with
        | false => rfl
        | true => rw [ho.once hf hm]; rfl
      rw [honce, hf]
      exact ⟨_, rfl, rfl, rfl, rfl⟩
    · next hf =>
      simp only [hf, Bool.false_and, Bool.or_false]
      exact ⟨_, rfl, rfl, rfl, rfl⟩
  have hreads : (!(x.pkt.isRead && !x.pkt.isInvalidate && x.pkt.needsExclusive)) = true := by
    cases hr : x.pkt.isRead with
    | false => rfl
    | true => rw [ho.reads hr hi, Bool.and_false]; rfl
  have hresp : ∃ resp, snoopResponse s.tags.geo { fwd with sharedAsserted := fwd.sharedAsserted ||
      (x.pkt.isRead && !x.pkt.isInvalidate) } (s.blk .temp) inval = .ok resp := by
    unfold snoopResponse
    split
    · next hd =>
      rw [Bool.and_eq_true, Packet.needsResponse, hcmd] at hd
      obtain ⟨hin, hs⟩ := ho.supplies hd.1 hd.2
      have hreq : (commandInfo fwd.cmd).isRequest = true := by rw [hcmd]; exact ho.isRequest
      have hneeds : (commandInfo fwd.cmd).needsResponse = true := by rw [hcmd]; exact hd.2
      have hshared : ((commandInfo fwd.cmd).isInvalidate ||
          (fwd.sharedAsserted || x.pkt.isRead && !x.pkt.isInvalidate)) = true := by
        rw [hsh, hi]
        simp only [Bool.or_eq_true, hi, Bool.false_eq_true, false_or, Bool.not_false, Bool.and_true] at hs ⊢
        tauto
      refine ⟨_, bind_ok.2 ⟨(), check_ok.2 (by rw [hmi, hin]; rfl), bind_ok.2 ⟨_, bind_ok.2 ⟨(), check_ok.2 hshared,
        bind_ok.2 ⟨_, bind_ok.2 ⟨(), check_ok.2 hneeds, bind_ok.2 ⟨(), check_ok.2 hreq, rfl⟩⟩, rfl⟩⟩, rfl⟩⟩⟩
    · exact ⟨_, rfl⟩
  obtain ⟨resp, hresp⟩ := hresp
  by_cases hv : (s.blk .temp).isValid = true
  · refine ⟨_, resp, bind_ok.2 ⟨(), check_ok.2 ho.isRequest, bind_ok.2 ⟨fwd, hfwd, ?_⟩⟩,
      shareIf_tempOnly s (x.pkt.isRead && !x.pkt.isInvalidate)⟩
    dsimp only
    rw [if_neg (by simp [hv])]
    refine bind_ok.2 ⟨(), check_ok.2 hreads, bind_ok.2 ⟨resp, hresp, bind_ok.2 ⟨_, ?_, rfl⟩⟩⟩
    rw [invalidateIf, if_neg (by simp [hi])]
  · refine ⟨s, none, bind_ok.2 ⟨(), check_ok.2 ho.isRequest, bind_ok.2 ⟨fwd, hfwd, ?_⟩⟩, .refl s⟩
    dsimp only
    rw [if_pos (by simpa using hv)]
    rfl

/-- The assertions on the way of a target hold. -/
def Fill.Orderly (e : Fill) (s : Storage ε) (x : Target) : Prop :=
  match x.source with
  | .fromCPU => x.pkt.Servable s.tags.geo s.tags.maxMasters
  | .fromPrefetcher => x.pkt.cmd = .hardPFReq
  | .fromSnoop => e.Snoopable s.tempBlock.isDirty x

/-- The assertions on the way of the targets hold, one after the other. -/
def Fill.AllOrderly (e : Fill) : List Target → Storage ε → Prop
  | [], _ => True
  | x :: xs, s => e.Orderly s x ∧ ∀ s' o, e.serveTarget s (some .temp) x = .ok (s', o) → e.AllOrderly xs s'

theorem hasPostInvalidate_ok {m : Mshr} (h : m.inService = true) : m.hasPostInvalidate = .ok m.postInvalidate :=
  bind_ok.2 ⟨(), check_ok.2 h, rfl⟩

theorem hasPostDowngrade_ok {m : Mshr} (h : m.inService = true) : m.hasPostDowngrade = .ok m.postDowngrade :=
  bind_ok.2 ⟨(), check_ok.2 h, rfl⟩

theorem Fill.answerCmd_ok {p : Packet} (hs : e.mshr.inService = true) (hn : p.needsResponse = true)
    (hr : p.isRequest = true) : ∃ p', e.answerCmd p = .ok p' := by
  have h1 : p.makeTimingResponse = .ok { p with cmd := (commandInfo p.cmd).response, isExpressSnoop := false } :=
    bind_ok.2 ⟨(), check_ok.2 hn, bind_ok.2 ⟨(), check_ok.2 hr, rfl⟩⟩
  have h2 : ∃ b, e.mshr.invalidates e.pkt = .ok b := by
    unfold Mshr.invalidates
    split
    · exact ⟨_, rfl⟩
    · exact ⟨_, hasPostInvalidate_ok hs⟩
  obtain ⟨b, hb⟩ := h2
  unfold answerCmd
  simp only [h1, bind, Except.bind, hb]
  split <;> split <;> exact ⟨_, rfl⟩

theorem Fill.serveTarget_tempOnly (hf : e.isFill = true) (hs : e.mshr.inService = true) (he : e.pkt.isError = false)
    (ho : e.Orderly s x) (ht : x.takesBlock s.tags.geo = false) :
    ∃ s' o, e.serveTarget s (some .temp) x = .ok (s', o) ∧ TempOnly s s' := by
  unfold Orderly at ho
  unfold Target.takesBlock at ht
  unfold serveTarget
  cases hx : x.source with
  | fromCPU =>
    rw [hx] at ho ht
    obtain ⟨s', p', h, h1, hc, hm, hu⟩ := satisfyCpuSideRequest_tempOnly e.cfg true e.mshr.postDowngrade ho ht
    obtain ⟨p'', hp''⟩ := answerCmd_ok (e := e) (p := p') hs (by rw [Packet.needsResponse, hc]; exact ho.needsResponse)
      (by rw [Packet.isRequest, hc]; exact ho.isRequest)
    have hcacheable : (!p'.req.isUncacheable) = true := by rw [hu, ho.cacheable]; rfl
    have hmaster : decide (p'.req.masterId < s'.tags.maxMasters) = true := by
      rw [hm, h1.tags]
      exact decide_eq_true ho.master
    have ha : ∃ time, e.answer s (some .temp) x.pkt = .ok (s', p', time) := by
      unfold answer
      rw [if_pos hf]
      exact ⟨_, bind_ok.2 ⟨_, hasPostDowngrade_ok hs, bind_ok.2 ⟨.temp, rfl, bind_ok.2 ⟨_, h,
        bind_ok.2 ⟨(), check_ok.2 hcacheable, bind_ok.2 ⟨(), check_ok.2 hmaster, rfl⟩⟩⟩⟩⟩⟩
    obtain ⟨time, ha⟩ := ha
    exact ⟨s', _, bind_ok.2 ⟨_, ha, bind_ok.2 ⟨p'', hp'', rfl⟩⟩, h1⟩
  | fromPrefetcher =>
    rw [hx] at ho
    exact ⟨_, _, bind_ok.2 ⟨(), check_ok.2 (by rw [beq_iff_eq]; exact ho), rfl⟩, tempOnly_modify rfl⟩
  | fromSnoop =>
    rw [hx] at ho ht
    obtain ⟨s', resp, h, h1⟩ := handleSnoop_tempOnly e.mshr.postInvalidate ho ht
    have herror : (!e.pkt.isError) = true := by rw [he]; rfl
    have hinval : (!(e.pkt.isInvalidate && !e.mshr.postInvalidate)) = true := by
      cases hi : e.pkt.isInvalidate with
      | false => rfl
      | true => rw [ho.invalidates hi]; rfl
    exact ⟨s', _, bind_ok.2 ⟨(), check_ok.2 herror, bind_ok.2 ⟨_, hasPostInvalidate_ok hs,
      bind_ok.2 ⟨(), check_ok.2 hinval, bind_ok.2 ⟨_, h, rfl⟩⟩⟩⟩, h1⟩

theorem Fill.serveTarget_ne {r : Storage ε × List Output} (hf : e.isFill = true) (hv : s.tempBlock.isValid = true)
    (ht : x.takesBlock s.tags.geo = true) : e.serveTarget s (some .temp) x ≠ .ok r := by
  intro h
  unfold Target.takesBlock at ht
  unfold serveTarget at h
  cases hx : x.source with
  | fromCPU =>
    rw [hx] at h ht
    simp only [bind_ok, answer, if_pos hf, orFail_ok] at h
    obtain ⟨-, ⟨down, -, b, hb, ⟨s', p'⟩, hs, -⟩, -⟩ := h
    obtain rfl := Option.some.inj hb
    exact satisfyCpuSideRequest_ne hv ht hs
  | fromPrefetcher =>
    rw [hx] at ht
    cases ht
  | fromSnoop =>
    rw [hx] at h ht
    simp only [bind_ok] at h
    obtain ⟨-, -, inval, -, -, -, ⟨s', resp⟩, hs, -⟩ := h
    exact handleSnoop_ne hv ht hs

theorem Fill.serveTargets_tempOnly {xs : List Target} {o : List Output} (hf : e.isFill = true)
    (hs : e.mshr.inService = true) (he : e.pkt.isError = false) (ho : e.AllOrderly xs s)
    (ht : ∀ x ∈ xs, x.takesBlock s.tags.geo = false) :
    ∃ s' o', e.serveTargets (some .temp) xs s o = .ok (s', o') ∧ TempOnly s s' := by
  induction xs generalizing s o with
  | nil => exact ⟨s, o, rfl, .refl s⟩
  | cons x xs ih =>
    obtain ⟨s₁, o₁, h1, ht1⟩ := serveTarget_tempOnly hf hs he ho.1 (ht x List.mem_cons_self)
    obtain ⟨s₂, o₂, h2, ht2⟩ := ih (s := s₁) (o := o₁ ++ o) (ho.2 s₁ o₁ h1) fun y hy => by
      rw [ht1.tags]
      exact ht y (List.mem_cons_of_mem x hy)
    exact ⟨s₂, o₂, bind_ok.2 ⟨_, h1, h2⟩, ht1.trans ht2⟩

/-- A target that takes the block away stops the loop. -/
theorem Fill.serveTargets_takes {xs : List Target} {o : List Output} {r : Storage ε × List Output}
    (hf : e.isFill = true) (hs : e.mshr.inService = true) (he : e.pkt.isError = false)
    (hv : s.tempBlock.isValid = true) (ho : e.AllOrderly xs s)
    (h : e.serveTargets (some .temp) xs s o = .ok r) : ∀ x ∈ xs, x.takesBlock s.tags.geo = false := by
  induction xs generalizing s o with
  | nil => exact fun x hx => by cases hx
  | cons y xs ih =>
    simp only [serveTargets, bind_ok] at h
    obtain ⟨⟨s₁, o₁⟩, h1, h⟩ := h
    have hy : y.takesBlock s.tags.geo = false := by
      rw [← Bool.not_eq_true]
      exact fun hy => serveTarget_ne hf hv hy h1
    obtain ⟨s₁', o₁', h1', ht⟩ := serveTarget_tempOnly hf hs he ho.1 hy
    obtain ⟨rfl, rfl⟩ := Prod.mk.inj (Except.ok.inj (h1.symm.trans h1'))
    have hrest := ih (ht.valid.trans hv) (ho.2 _ _ h1) h
    rw [ht.tags] at hrest
    intro x hx
    obtain rfl | hx := List.mem_cons.1 hx
    · exact hy
    · exact hrest x hx

/-! ## Responses -/

theorem Fill.afterTargets_tempOnly (hs : e.mshr.inService = true) (hi : e.pkt.isInvalidate = false)
    (hp : e.mshr.postInvalidate = false) : ∃ s', e.afterTargets s (some .temp) = .ok s' ∧ TempOnly s s' := by
  have h1 : e.mshr.invalidates e.pkt = .ok false := by
    rw [Mshr.invalidates, if_neg (by simp [hi]), hasPostInvalidate_ok hs, hp]
  exact ⟨_, bind_ok.2 ⟨false, h1, bind_ok.2 ⟨_, hasPostDowngrade_ok hs, rfl⟩⟩, shareIf_tempOnly s _⟩

/-- An invalidation after the targets cannot be done. -/
theorem Fill.afterTargets_keeps (hs : e.mshr.inService = true) (hv : s.tempBlock.isValid = true)
    (h : e.afterTargets s (some .temp) = .ok s') : e.pkt.isInvalidate = false ∧ e.mshr.postInvalidate = false := by
  simp only [afterTargets, bind_ok] at h
  obtain ⟨inval, hi, h⟩ := h
  cases inval with
  | true => exact absurd (show s.invalidateBlk .temp e.pkt.threadID = .ok s' from h) (invalidateBlk_temp_ne hv)
  | false =>
    unfold Mshr.invalidates at hi
    split at hi
    · cases hi
    · next hn =>
      rw [hasPostInvalidate_ok hs] at hi
      exact ⟨by simpa using hn, Except.ok.inj hi⟩

theorem hideIf_tempOnly (s : Storage ε) (promoted : Bool) : TempOnly s (hideIf s promoted (some .temp)) := by
  unfold hideIf
  dsimp only
  split
  · exact tempOnly_modify rfl
  · exact .refl s

theorem writebackTemp_tempOnly (hv : s.tempBlock.isValid = true) :
    ∃ s' wbs, writebackTemp s = .ok (s', wbs) ∧ s'.tags = s.tags := by
  unfold writebackTemp
  split
  · next hd =>
    have hvd : ((s.blk .temp).isValid && (s.blk .temp).isDirty) = true := by
      rw [Bool.and_eq_true]
      exact ⟨hv, hd⟩
    exact ⟨_, _, bind_ok.2 ⟨_, bind_ok.2 ⟨(), check_ok.2 hvd, rfl⟩, rfl⟩, rfl⟩
  · exact ⟨s, [], rfl, rfl⟩

/-- The writeback of `tempBlock` and its release always succeed. -/
theorem clearTemp_tempOnly {tid : Nat} (hv : s.tempBlock.isValid = true) :
    ∃ s' wbs, clearTemp s (some .temp) tid = .ok (s', wbs) ∧ s'.tags = s.tags ∧ s'.tempBlock.isValid = false := by
  obtain ⟨s₁, wbs, h1, h2⟩ := writebackTemp_tempOnly hv
  have hinval : ∃ s', (s₁.modify .temp fun x => { x with status := { x.status with valid := false } }).invalidateBlk
      .temp tid = .ok s' ∧ s'.tags = s₁.tags ∧ s'.tempBlock.isValid = false := ⟨_, rfl, rfl, rfl⟩
  obtain ⟨s', h4, h5, h6⟩ := hinval
  exact ⟨s', wbs, bind_ok.2 ⟨_, h1, bind_ok.2 ⟨_, h4, rfl⟩⟩, h5.trans h2, h6⟩

theorem mshrHandleFill_served {m m' : Mshr} {pkt : Packet} (h : m.handleFill pkt = .ok m') :
    m'.targets.list = m.servedBy pkt ∧ m'.postInvalidate = m.postInvalidate := by
  unfold Mshr.servedBy
  obtain ⟨hc, rfl⟩ | ⟨hc, rfl⟩ := Mshr.handleFill_cases h
  · rw [if_neg (Bool.eq_false_iff.1 hc)]
    exact ⟨rfl, rfl⟩
  · rw [if_pos hc]
    exact ⟨rfl, rfl⟩

theorem fillBlock_tempOnly {P : Policy ε} {pkt : Packet} {blkH : Option Nat}
    (h : s.fillBlock P pkt .temp blkH = .ok s') :
    s'.tempBlock.isValid = true ∧ (blkH = none → s'.tags = s.tags) ∧
      ∀ f, blkH = some f → pkt.isRead = true → (s'.tags.blks f).isValid = false := by
  simp only [fillBlock, bind_ok] at h
  obtain ⟨s₁, h1, h⟩ := h
  cases h
  have hv : (fillStatus P.dirtyFill pkt s.tempBlock.status).valid = true := by
    unfold fillStatus
    split <;> rfl
  unfold fillData at h1
  split at h1
  · next hr =>
    cases blkH with
    | none =>
      cases h1
      exact ⟨hv, fun _ => rfl, fun f hf => by cases hf⟩
    | some g =>
      obtain ⟨h2, h3, -⟩ := invalidateBlk_blk h1
      have ht := h3 .temp (fun he => by cases he)
      refine ⟨?_, (fun hf => by cases hf), fun f hf _ => ?_⟩
      · show s₁.tempBlock.isValid = true
        rw [show s₁.tempBlock = _ from ht]
        exact hv
      · obtain rfl := Option.some.inj hf
        show (s₁.blk (.frame g)).isValid = false
        rw [h2]
        rfl
  · next hr =>
    cases h1
    exact ⟨hv, fun _ => rfl, fun f _ hr' => absurd hr' hr⟩

variable {st : State ε} {P : Policy ε} {ctl : Control} {ref : MshrRef} {pkt : Packet} {r : Filled ε}

/-- The response fills a block. -/
def fills (st : State ε) (ref : MshrRef) (pkt : Packet) : Bool :=
  !(st.ctl.mshr ref).isForward && (pkt.isRead || pkt.cmd == .upgradeResp)

/-- The response is served through `tempBlock`. -/
structure ThroughTemp (st : State ε) (P : Policy ε) (ref : MshrRef) (pkt : Packet) (ctl : Control) (r : Filled ε) :
    Prop where
  cleared : clearNoTarget st.ctl ref pkt.threadID = .ok ctl
  filled : st.fill P ctl (st.ctl.mshr ref) pkt (st.fills ref pkt) = .ok r
  temp : r.blk = some .temp

/-- A fill through `tempBlock` changes the tag store only where it moves a High
copy. -/
theorem ThroughTemp.fill (h : ThroughTemp st P ref pkt ctl r) : st.fills ref pkt = true ∧ pkt.isError = false ∧
    r.writebacks = [] ∧ (st.ctl.mshr ref).handleFill pkt = .ok r.mshr ∧ r.store.tempBlock.isValid = true ∧
    (P.fakeMiss st.store.tags pkt.addr = none → r.store.tags = st.store.tags) ∧
    ∀ f, P.fakeMiss st.store.tags pkt.addr = some f → (r.store.tags.blks f).isValid = false := by
  obtain ⟨-, hfill, hb⟩ := h
  unfold State.fill at hfill
  split at hfill
  · next hf =>
    rw [Bool.and_eq_true, Bool.not_eq_true'] at hf
    simp only [bind_ok] at hfill
    obtain ⟨m', hm, ⟨store, b, wbs⟩, hh, hfill⟩ := hfill
    cases hfill
    obtain rfl := Option.some.inj hb
    obtain ⟨f, -, hb', -⟩ | ⟨-, -, f, s₁, tags, hb', -⟩ | ⟨-, hdata, -, rfl, -, -, hfill⟩ := handleFill_cases hh
    · cases hb'
    · cases hb'
    · obtain ⟨h1, h2, h3⟩ := fillBlock_tempOnly hfill
      -- an upgrade response has no data
      have hread : pkt.isRead = true := by
        have h4 := hf.1
        simp only [fills, Bool.and_eq_true, Bool.or_eq_true, beq_iff_eq] at h4
        obtain hr | hu := h4.2
        · exact hr
        · rw [Packet.hasData, hu] at hdata
          cases hdata
      exact ⟨hf.1, hf.2, rfl, hm, h1, h2, fun f hf => h3 f hf hread⟩
  · cases hfill
    obtain ⟨f, -, hf⟩ := Option.map_eq_some_iff.1 hb
    cases hf

/-- The targets of the response. -/
def serving (st : State ε) (ref : MshrRef) (pkt : Packet) (up : Nat → UpwardSnoop) (r : Filled ε) : Fill :=
  ⟨st.cfg, st.now, r.mshr, pkt, st.fills ref pkt, match r.mshr.targets.list with
    | [] => 0
    | t :: _ => getOffset st.geo t.pkt.addr, up⟩

/-- The other assertions on the way of a response hold: its targets can be
served, its register can be given back, and a writeback finds room. -/
structure ResponseOrderly (st : State ε) (ctl : Control) (ref : MshrRef) (e : Fill) (store : Storage ε) : Prop where
  hasTargets : (st.ctl.mshr ref).hasTargets = true
  master : e.pkt.req.masterId < st.store.tags.maxMasters
  inService : e.mshr.inService = true
  targets : e.AllOrderly e.mshr.targets.list store
  queues : ∃ c promoted, finishMshr ctl st.now ref e.mshr (st.ctl.queue ref).isFull e.pkt.threadID = .ok (c, promoted) ∧
    ∀ s₁ o s₂ s₃ wbs, e.serveTargets (some .temp) e.mshr.targets.list store st.out = .ok (s₁, o) →
      e.afterTargets s₁ (some .temp) = .ok s₂ →
      clearTemp (hideIf s₂ promoted (some .temp)) (some .temp) e.pkt.threadID = .ok (s₃, wbs) →
      ∃ c', c.allocateWriteBuffers st.now st.hitTime wbs = .ok c'

theorem handleResponse_tempOnly {up : Nat → UpwardSnoop} (h : ThroughTemp st P ref pkt ctl r)
    (ho : st.ResponseOrderly ctl ref (st.serving ref pkt up r) r.store) (hi : pkt.isInvalidate = false)
    (hp : r.mshr.postInvalidate = false) (ht : ∀ x ∈ r.mshr.targets.list, x.takesBlock r.store.tags.geo = false) :
    ∃ s', st.handleResponse P ref pkt up = .ok s' ∧ s'.store.tags = r.store.tags ∧
      s'.store.tempBlock.isValid = false := by
  obtain ⟨hf, he, hw, -, hv, -⟩ := h.fill
  obtain ⟨s₁, o, h1, t1⟩ := Fill.serveTargets_tempOnly (o := st.out) hf ho.inService he ho.targets ht
  obtain ⟨s₂, h2, t2⟩ := Fill.afterTargets_tempOnly (s := s₁) ho.inService hi hp
  obtain ⟨c, promoted, h3, hbuf⟩ := ho.queues
  have t3 := (t1.trans t2).trans (hideIf_tempOnly s₂ promoted)
  have hclear : ∃ s₃ wbs, clearTemp (hideIf s₂ promoted (some .temp)) (some .temp) pkt.threadID = .ok (s₃, wbs) ∧
      s₃.tags = (hideIf s₂ promoted (some .temp)).tags ∧ s₃.tempBlock.isValid = false :=
    clearTemp_tempOnly (t3.valid.trans hv)
  obtain ⟨s₃, wbs, h4, htags, hinv⟩ := hclear
  obtain ⟨c', h5⟩ := hbuf s₁ o s₂ s₃ wbs h1 h2 h4
  rw [← h.temp] at h1 h2 h4
  have hmaster : decide (pkt.req.masterId < st.store.tags.maxMasters) = true := decide_eq_true ho.master
  have h6 : c.allocateWriteBuffers st.now st.hitTime r.writebacks = .ok c := by rw [hw]; rfl
  exact ⟨_, bind_ok.2 ⟨ctl, h.cleared, bind_ok.2 ⟨(), check_ok.2 ho.hasTargets, bind_ok.2 ⟨(), check_ok.2 hmaster,
    bind_ok.2 ⟨r, h.filled, bind_ok.2 ⟨(s₁, o), h1, bind_ok.2 ⟨s₂, h2, bind_ok.2 ⟨(c, promoted), h3,
      bind_ok.2 ⟨c, h6, bind_ok.2 ⟨(s₃, wbs), h4, bind_ok.2 ⟨c', h5, rfl⟩⟩⟩⟩⟩⟩⟩⟩⟩⟩, htags.trans t3.tags, hinv⟩

/-- The queues have room on the way of a response that succeeds. -/
theorem responseOrderly_of_ok {up : Nat → UpwardSnoop} {s' : State ε} (h : ThroughTemp st P ref pkt ctl r)
    (hs : st.handleResponse P ref pkt up = .ok s') (hin : r.mshr.inService = true)
    (ht : (st.serving ref pkt up r).AllOrderly r.mshr.targets.list r.store) :
    st.ResponseOrderly ctl ref (st.serving ref pkt up r) r.store := by
  simp only [handleResponse, bind_ok, assert, assertMaster, check_ok] at hs
  obtain ⟨ctl', hctl, -, htargets, -, hmaster, r', hr, ⟨s₁, o⟩, h1, s₂, h2, ⟨c, promoted⟩, h3, c₁, h4, ⟨s₃, wbs⟩, h5,
    c₂, h6, -⟩ := hs
  obtain rfl := Except.ok.inj (h.cleared.symm.trans hctl)
  obtain rfl := Except.ok.inj (h.filled.symm.trans hr)
  obtain ⟨-, -, hw, -⟩ := h.fill
  rw [hw] at h4
  obtain rfl := Except.ok.inj h4
  rw [h.temp] at h1 h2 h5
  refine ⟨htargets, of_decide_eq_true hmaster, hin, ht, c, promoted, h3, fun t₁ o' t₂ t₃ wbs' g1 g2 g3 => ?_⟩
  obtain ⟨rfl, rfl⟩ := Prod.mk.inj (Except.ok.inj (h1.symm.trans g1))
  obtain rfl := Except.ok.inj (h2.symm.trans g2)
  obtain ⟨rfl, rfl⟩ := Prod.mk.inj (Except.ok.inj (h5.symm.trans g3))
  exact ⟨c₂, h6⟩

theorem handleResponse_keeps {up : Nat → UpwardSnoop} {s' : State ε} (h : ThroughTemp st P ref pkt ctl r)
    (ho : st.ResponseOrderly ctl ref (st.serving ref pkt up r) r.store) (hs : st.handleResponse P ref pkt up = .ok s') :
    pkt.isInvalidate = false ∧ r.mshr.postInvalidate = false ∧
      ∀ x ∈ r.mshr.targets.list, x.takesBlock r.store.tags.geo = false := by
  obtain ⟨hf, he, -, -, hv, -⟩ := h.fill
  simp only [handleResponse, bind_ok] at hs
  obtain ⟨ctl', hctl, -, -, -, -, r', hr, ⟨s₁, o⟩, h1, s₂, h2, -⟩ := hs
  obtain rfl := Except.ok.inj (h.cleared.symm.trans hctl)
  obtain rfl := Except.ok.inj (h.filled.symm.trans hr)
  rw [h.temp] at h1 h2
  have ht := Fill.serveTargets_takes (e := st.serving ref pkt up r) hf ho.inService he hv ho.targets h1
  obtain ⟨s₁', o', h1', t1⟩ := Fill.serveTargets_tempOnly (o := st.out) hf ho.inService he ho.targets ht
  obtain ⟨rfl, rfl⟩ := Prod.mk.inj (Except.ok.inj (h1.symm.trans h1'))
  obtain ⟨hi, hp⟩ := Fill.afterTargets_keeps (e := st.serving ref pkt up r) ho.inService (t1.valid.trans hv) h2
  exact ⟨hi, hp, ht⟩

end State

/-! ## Isolation -/

/-- The High copies that a fill moves were found by their valid bit. -/
def Policy.MovesValid (P : Policy ε) : Prop :=
  ∀ tags addr f, P.fakeMiss tags addr = some f → (tags.blks f).isValid = true

theorem movesValid : Split.policy.MovesValid ∧ CDynamic.policy.MovesValid ∧ FDynamic.policy.MovesValid ∧
    Dirty.policy.MovesValid := by
  refine ⟨?_, ?_, ?_, fun tags addr f h => ?_⟩
  · exact fun _ _ _ h => by cases h
  · exact fun _ _ _ h => by cases h
  · exact fun _ _ _ h => by cases h
  · obtain ⟨t, -, hheld⟩ := Dirty.lawful.lookup_some (t := 1) (show Dirty.policy.lookup tags addr 1 = some f from h)
    exact hheld.2.2

/-- High waits for an upgrade of its only block and misses on another one. -/
def upgradeThenMiss (miss : Action) : List Action :=
  Small.load 1 0 true ++ [Small.write 1 0 7, .advance 1, Small.send 1, miss, .advance 1, Small.send 1]

def exclusiveReply : State.Reply := { cmd := .readExResp, finishTime := 64, firstWordTime := 64 }

/-- An exclusive read of the whole block takes it from `tempBlock`. -/
theorem temp_taken_away :
    ∃ s f ctl r, runs Split.step (Split.init Small.cfg (Small.geo 2 (by decide)) 1 2 4 4)
        (upgradeThenMiss (Small.readEx 1 4)) = .ok s ∧ s.bus.find? (fun f => f.ref == ⟨false, 1, 1⟩) = some f ∧
      s.ThroughTemp Split.policy f.ref (exclusiveReply.packet f.pkt) ctl r ∧
      s.handleResponse Split.policy f.ref (exclusiveReply.packet f.pkt) exclusiveReply.up = .error .assertion := by
  obtain ⟨s, hs, f, hf, ⟨ctl, hctl, r, hr, hb⟩, hfault⟩ : ∃ s, runs Split.step
        (Split.init Small.cfg (Small.geo 2 (by decide)) 1 2 4 4) (upgradeThenMiss (Small.readEx 1 4)) = .ok s ∧
      ∃ f ∈ s.bus.find? (fun f => f.ref == ⟨false, 1, 1⟩),
        (∃ ctl, State.clearNoTarget s.ctl f.ref f.pkt.threadID = .ok ctl ∧
          ∃ r, s.fill Split.policy ctl (s.ctl.mshr f.ref) (exclusiveReply.packet f.pkt)
            (s.fills f.ref (exclusiveReply.packet f.pkt)) = .ok r ∧ r.blk = some .temp) ∧
        fault (s.handleResponse Split.policy f.ref (exclusiveReply.packet f.pkt) exclusiveReply.up) =
          some .assertion := by
    decide +kernel
  exact ⟨s, f, ctl, r, hs, hf, ⟨hctl, hr, hb⟩, error_of_fault hfault⟩

/-- A response that is served through `tempBlock`, and on whose way the other
assertions hold, leaves the tag store as it was and `tempBlock` empty exactly if
it moves no High copy, does not invalidate, no invalidation is pending, and none
of its targets takes the block. -/
theorem tempBlock_isolated {P : Policy ε} (hP : P.MovesValid) {s : State ε} {ref : MshrRef} {pkt : Packet}
    {up : Nat → Storage.UpwardSnoop} {ctl : Control} {r : State.Filled ε} (h : s.ThroughTemp P ref pkt ctl r)
    (ho : s.ResponseOrderly ctl ref (s.serving ref pkt up r) r.store) :
    (∃ s', s.handleResponse P ref pkt up = .ok s' ∧ s'.store.tags = s.store.tags ∧
        s'.store.tempBlock.isValid = false) ↔
      P.fakeMiss s.store.tags pkt.addr = none ∧ pkt.isInvalidate = false ∧
        (s.ctl.mshr ref).postInvalidate = false ∧
        ∀ x ∈ (s.ctl.mshr ref).servedBy pkt, x.takesBlock s.store.tags.geo = false := by
  obtain ⟨-, -, -, hm, -, hsame, hmoved⟩ := h.fill
  obtain ⟨hlist, hpost⟩ := State.mshrHandleFill_served hm
  rw [← hlist, ← hpost]
  constructor
  · rintro ⟨s', hs', htags, -⟩
    obtain ⟨hi, hp, ht⟩ := State.handleResponse_keeps h ho hs'
    obtain ⟨s'', hs'', htags', -⟩ := State.handleResponse_tempOnly h ho hi hp ht
    obtain rfl := Except.ok.inj (hs'.symm.trans hs'')
    have hr : r.store.tags = s.store.tags := htags'.symm.trans htags
    refine ⟨?_, hi, hp, ?_⟩
    · cases hf : P.fakeMiss s.store.tags pkt.addr with
      | none => rfl
      | some f =>
        -- the High copy was valid and is given up
        have hv := hP _ _ f hf
        rw [← hr, hmoved f hf] at hv
        cases hv
    · rw [← hr]
      exact ht
  · rintro ⟨hf, hi, hp, ht⟩
    have hr := hsame hf
    rw [← hr] at ht ⊢
    exact State.handleResponse_tempOnly h ho hi hp ht

/-- A write that misses while the victim waits for an upgrade. -/
theorem tempBlock_isolated_write :
    ∃ s f ctl r, runs Split.step (Split.init Small.cfg (Small.geo 2 (by decide)) 1 2 4 4)
        (upgradeThenMiss (Small.write 1 4 9)) = .ok s ∧ s.bus.find? (fun f => f.ref == ⟨false, 1, 1⟩) = some f ∧
      s.ThroughTemp Split.policy f.ref (exclusiveReply.packet f.pkt) ctl r ∧
      s.ResponseOrderly ctl f.ref (s.serving f.ref (exclusiveReply.packet f.pkt) exclusiveReply.up r) r.store ∧
      ∃ s', s.handleResponse Split.policy f.ref (exclusiveReply.packet f.pkt) exclusiveReply.up = .ok s' ∧
        s'.store.tags = s.store.tags ∧ s'.store.tempBlock.isValid = false := by
  obtain ⟨s, hs, f, hf, ⟨ctl, hctl, r, hfill, hb, hin, hpost, hone, hr⟩, s', hs', -⟩ : ∃ s, runs Split.step
        (Split.init Small.cfg (Small.geo 2 (by decide)) 1 2 4 4) (upgradeThenMiss (Small.write 1 4 9)) = .ok s ∧
      ∃ f ∈ s.bus.find? (fun f => f.ref == ⟨false, 1, 1⟩),
        (∃ ctl, State.clearNoTarget s.ctl f.ref f.pkt.threadID = .ok ctl ∧
          ∃ r, s.fill Split.policy ctl (s.ctl.mshr f.ref) (exclusiveReply.packet f.pkt)
              (s.fills f.ref (exclusiveReply.packet f.pkt)) = .ok r ∧ r.blk = some .temp ∧
            r.mshr.inService = true ∧ (s.ctl.mshr f.ref).postInvalidate = false ∧ r.mshr.targets.list.length = 1 ∧
            ∀ x ∈ r.mshr.targets.list, x.source = .fromCPU ∧ x.pkt.cmd = .writeReq ∧
              getOffset r.store.tags.geo x.pkt.addr + x.pkt.size ≤ r.store.tags.geo.blkSize ∧
              x.pkt.req.isUncacheable = false ∧ x.pkt.req.masterId < r.store.tags.maxMasters) ∧
        ∃ s', s.handleResponse Split.policy f.ref (exclusiveReply.packet f.pkt) exclusiveReply.up = .ok s' ∧ True := by
    decide +kernel
  obtain ⟨x, hlist⟩ := List.length_eq_one_iff.1 hone
  obtain ⟨hsource, hcmd, hfits, hcache, hmaster⟩ := hr x (by simp [hlist])
  have htemp : s.ThroughTemp Split.policy f.ref (exclusiveReply.packet f.pkt) ctl r := ⟨hctl, hfill, hb⟩
  have hx : x.pkt.Servable r.store.tags.geo r.store.tags.maxMasters := by
    refine ⟨hfits, fun h => ?_, fun _ h => ?_, hcache, hmaster, ?_, ?_⟩
    · rw [hcmd] at h
      cases h
    · rw [Packet.isWrite, hcmd] at h
      cases h
    · rw [Packet.needsResponse, hcmd]
      rfl
    · rw [Packet.isRequest, hcmd]
      rfl
  have hserve : (s.serving f.ref (exclusiveReply.packet f.pkt) exclusiveReply.up r).AllOrderly r.mshr.targets.list
      r.store := by
    rw [hlist]
    refine ⟨?_, fun _ _ _ => trivial⟩
    unfold State.Fill.Orderly
    rw [hsource]
    exact hx
  have ho := State.responseOrderly_of_ok htemp hs' hin hserve
  refine ⟨s, f, ctl, r, hs, hf, htemp, ho, (tempBlock_isolated movesValid.1 htemp ho).2 ⟨rfl, rfl, hpost, ?_⟩⟩
  obtain ⟨-, -, -, hm, -⟩ := htemp.fill
  rw [← (State.mshrHandleFill_served hm).1, hlist]
  intro y hy
  rw [List.mem_singleton.1 hy, Target.takesBlock, hsource]
  simp only [Packet.takesBlock, Packet.isWrite, hcmd]
  rfl

end DynamicCache.Cache
