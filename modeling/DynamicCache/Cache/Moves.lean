import DynamicCache.Cache.Placement
import DynamicCache.Cache.Registers

/-!
# What a step of a cache does

Every action of a cache is described by what it does to the blocks (`Effect`),
to the queues (`CtlRun`) and to the requests on the bus: `Moves`, with
`step_moves`.  `Sound` is the invariant of all the caches: the frames of the
`n` partitions are in their lists, the queues are in order, and every request on the bus belongs to
the register that waits for it.
-/

namespace DynamicCache.Cache

open Lib Tags Relation

variable {ε : Type} {ref : MshrRef} {c c' : Control} {now r tid : Nat} {p t : Packet}

namespace Storage

variable {c : Control} {s s' : Storage ε} {P : Policy ε} {pkt : Packet} {wbs : List Packet}

theorem Victim.cmd {addr f : Nat} (h : Victim c addr tid s s' f wbs) : ∀ p ∈ wbs, p.cmd = .writeback := by
  intro p hp
  obtain ⟨-, rfl, -⟩ | ⟨-, -, -, rfl⟩ := h.clean
  · cases hp
  · rw [List.mem_singleton] at hp
    rw [hp]
    rfl

theorem clearTemp_cmd {b : Option BlkRef} (h : State.clearTemp s b tid = .ok (s', wbs)) :
    ∀ p ∈ wbs, p.cmd = .writeback := by
  intro p hp
  obtain ⟨-, rfl⟩ := State.mem_clearTemp h hp
  rfl

theorem Access.cmd (h : Access P c pkt s s' wbs) : ∀ p ∈ wbs, p.cmd = .writeback := by
  cases h with
  | writebackNew _ _ hv _ _ => exact hv.cmd
  | _ => exact fun _ hp => by cases hp

theorem Response.cmd (h : Response P c pkt s s' wbs) : ∀ p ∈ wbs, p.cmd = .writeback := by
  cases h with
  | same => exact fun _ hp => by cases hp
  | filled _ hf _ hc =>
    intro p hp
    obtain hp | hp := List.mem_append.1 hp
    · obtain ⟨f, -, -, rfl, -⟩ | ⟨-, -, f, s₁, tags, -, hv, -⟩ | ⟨-, -, -, rfl, -⟩ := handleFill_cases hf
      · cases hp
      · exact hv.cmd p hp
      · cases hp
    · exact clearTemp_cmd hc p hp
  | found _ _ => exact fun _ hp => by cases hp

end Storage

open Storage

namespace State

variable {s s' : State ε} {P : Policy ε} {g : Geometry} {fin : Option MshrRef} {new : Newcomer} {pkt : Packet}
  {view : Nat → Nat → Prop}

/-! ## Requests -/

/-- The parts that a request or a snoop leaves alone. -/
structure Rest (s s' : State ε) : Prop where
  bus : s'.bus = s.bus
  now : s'.now = s.now
  cfg : s'.cfg = s.cfg

theorem Rest.refl (s : State ε) : Rest s s := ⟨rfl, rfl, rfl⟩

theorem mshrHit_run {store : Storage ε} (hg : s.geo = g) (hn : new false (s.now + g.hitLatency) pkt)
    (hu : pkt.req.isUncacheable = false)
    (hf : (s.ctl.mshrQueues pkt.threadID).findMatch (blockAlign g pkt.addr) = some r)
    (h : s.mshrHit store pkt r = .ok s') : CtlRun g s.now fin new s.ctl s'.ctl ∧ Rest s s' := by
  simp only [mshrHit, hitTime, hg, bind_ok] at h
  obtain ⟨m, hm, ctl, hc, h⟩ := h
  cases h
  refine ⟨.tail (.tail (.single (.update (.target hn rfl rfl hu hf hm))) ?_) (setBlockedIf_same hc).ctl, rfl, rfl, rfl⟩
  exact .flags rfl rfl (Nat.le_refl _)

theorem mshrMiss_run {store : Storage ε} {blk : Option Nat} (hg : s.geo = g)
    (hn : ∀ w, new w (s.now + g.hitLatency) pkt)
    (hf : (s.ctl.mshrQueues pkt.threadID).findMatch (blockAlign g pkt.addr) = none)
    (h : s.mshrMiss store pkt blk = .ok s') : CtlRun g s.now fin new s.ctl s'.ctl ∧ Rest s s' := by
  unfold mshrMiss at h
  split at h
  · next hc =>
    simp only [hitTime, hg, bind_ok] at h
    obtain ⟨⟨ctl, ref⟩, hb, h⟩ := h
    cases h
    exact ⟨allocateWriteBuffer_run (hn true) (.inl hc) hb, rfl, rfl, rfl⟩
  · simp only [hitTime, hg, bind_ok] at h
    obtain ⟨store', -, ⟨ctl, ref⟩, hb, h⟩ := h
    cases h
    exact ⟨allocateMissBuffer_run (hn false) hf hb, rfl, rfl, rfl⟩

theorem missed_run {r : AccessResult ε} (hg : s.geo = g) (hu : r.pkt.req.isUncacheable = false)
    (hn : ∀ w, new w (s.now + g.hitLatency) r.pkt) (h : s.missed r = .ok s') :
    CtlRun g s.now fin new s.ctl s'.ctl ∧ Rest s s' := by
  simp only [missed, hg, bind_ok] at h
  obtain ⟨-, -, h⟩ := h
  split at h
  · next hf => exact mshrHit_run hg (hn false) hu hf h
  · next hf => exact mshrMiss_run hg hn hf h

theorem accessed_run {r : AccessResult ε} (hg : s.geo = g) (hu : r.pkt.req.isUncacheable = false)
    (hn : r.satisfied = false → ∀ w, new w (s.now + g.hitLatency) r.pkt) (h : s.accessed r = .ok s') :
    CtlRun g s.now fin new s.ctl s'.ctl ∧ Rest s s' := by
  unfold accessed at h
  split at h
  · obtain ⟨-, h1, h2, h3, h4⟩ := satisfied_store h
    rw [h1]
    exact ⟨.refl, h2, h3, h4⟩
  · next hs => exact missed_run hg hu (hn (by simpa using hs)) h

/-- The request finds no block with the permission that it needs. -/
def Unmet (P : Policy ε) (st : Storage ε) (pkt : Packet) : Prop :=
  ∀ f, P.lookup st.tags pkt.addr pkt.threadID = some f → permits pkt (st.tags.blks f) = false ∧ pkt.cmd ≠ .writeback

/-- The writebacks that are queued at the end of a request or response. -/
def Queued (g : Geometry) (now : Nat) (wbs : List Packet) : Newcomer := fun w time p =>
  w = true ∧ time = now + g.hitLatency ∧ p ∈ wbs

/-- What a request brings to the queues: itself, unless it is satisfied, or the
writebacks of the blocks that it replaces. -/
def Brought (P : Policy ε) (g : Geometry) (s : State ε) (pkt : Packet) (wbs : List Packet) : Newcomer := fun w time p =>
  (p = pkt ∧ wbs = [] ∧ time = s.now + g.hitLatency ∧ (pkt.req.isUncacheable = true ∨ Unmet P s.store pkt)) ∨
    Queued g s.now wbs w time p

theorem Brought.mem {w : Bool} {time : Nat} {wbs : List Packet} (h : Brought P g s pkt wbs w time p) :
    p = pkt ∨ p ∈ wbs :=
  h.imp (fun h => h.1) fun h => h.2.2

theorem permits_of_touched {tags tags' : Lru} (h : Touched tags tags') (f : Nat) :
    permits pkt (tags'.blks f) = permits pkt (tags.blks f) := by
  unfold permits
  rw [CacheBlk.isWritable, CacheBlk.isReadable, h.status]
  rfl

/-- A request that `access` does not satisfy goes on as it came. -/
theorem access_pkt {r : AccessResult ε} (h : s.store.access P s.cfg s.ctl s.now pkt = .ok r) :
    r.satisfied = false → r.pkt = pkt ∧ r.writebacks = [] := by
  intro hs
  cases access_outcome h with
  | hit ha hp hsat => cases hs
  | onto ha hc => cases hs
  | upgrade ha hp hc => exact ⟨rfl, rfl⟩
  | new ha hc hv hi => cases hs
  | noRoom ha hc hw => exact ⟨rfl, rfl⟩
  | failed ha hw => cases hs
  | miss ha hc => exact ⟨rfl, rfl⟩

theorem access_unmet {r : AccessResult ε} (hP : P.Lawful view)
    (h : s.store.access P s.cfg s.ctl s.now pkt = .ok r) (hs : r.satisfied = false) : Unmet P s.store pkt := by
  have hnone : P.lookup s.store.tags pkt.addr pkt.threadID = none → Unmet P s.store pkt := by
    intro hn f hf
    rw [hn] at hf
    cases hf
  cases access_outcome h with
  | hit ha hp hsat => cases hs
  | onto ha hc => cases hs
  | upgrade ha hp hc =>
    obtain ⟨hb, ht⟩ := hP.access ha
    intro f hf
    rw [← hb] at hf
    obtain rfl := Option.some.inj hf
    rw [permits_of_touched ht] at hp
    exact ⟨hp, hc⟩
  | new ha hc hv hi => cases hs
  | noRoom ha hc hw => exact hnone (hP.access ha).1.symm
  | failed ha hw => cases hs
  | miss ha hc => exact hnone (hP.access ha).1.symm

theorem cacheableAccess_run (hP : P.Lawful view) (hl : s.store.tags.Nodup) (hg : s.geo = g)
    (hu : pkt.req.isUncacheable = false) (h : s.cacheableAccess P pkt = .ok s') :
    ∃ wbs, Access P s.ctl pkt s.store s'.store wbs ∧
      CtlRun g s.now none (Brought P g s pkt wbs) s.ctl s'.ctl ∧ Rest s s' := by
  obtain ⟨r, hr, he⟩ := cacheableAccess_effect h
  refine ⟨r.writebacks, he, ?_⟩
  simp only [cacheableAccess, hr, bind_ok] at h
  obtain ⟨r', hr', s₁, hs, ctl, hw, h⟩ := h
  cases hr'
  cases h
  have hgeo : s₁.geo = g := ((Effect.access he).geo hP hl).trans hg
  have h1 : CtlRun g s.now none (Brought P g s pkt r.writebacks) s.ctl s₁.ctl ∧ Rest s s₁ := by
    cases hsat : r.satisfied with
    | true =>
      rw [accessed, if_pos hsat] at hs
      obtain ⟨-, h1, h2, h3, h4⟩ := satisfied_store hs
      rw [h1]
      exact ⟨.refl, h2, h3, h4⟩
    | false =>
      obtain ⟨hp, hw⟩ := access_pkt hr hsat
      exact accessed_run hg (hp ▸ hu) (fun _ _ => .inl ⟨hp, hw, rfl, .inr (access_unmet hP hr hsat)⟩) hs
  obtain ⟨h1, h2⟩ := h1
  rw [hitTime, hgeo, h2.now] at hw
  exact ⟨h1.trans (allocateWriteBuffers_run (fun p hp => .inr ⟨rfl, rfl, hp⟩) he.cmd hw), h2.bus, h2.now, h2.cfg⟩

theorem uncacheableAccess_run (hg : s.geo = g) (hu : pkt.req.isUncacheable = true)
    (hn : ∀ w, new w (s.now + g.hitLatency) pkt) (h : s.uncacheableAccess P pkt = .ok s') :
    CtlRun g s.now fin new s.ctl s'.ctl ∧ Rest s s' := by
  simp only [uncacheableAccess, allocateUncacheable, hitTime, hg, bind_ok] at h
  obtain ⟨store, -, ⟨ctl, ref⟩, hb, -, -, h⟩ := h
  cases h
  refine ⟨?_, rfl, rfl, rfl⟩
  split at hb
  · exact allocateWriteBuffer_run (hn true) (.inr hu) hb
  · exact allocateUncachedReadBuffer_run (hn false) hb

theorem recvTimingReq_moves (hP : P.Lawful view) (hl : s.store.tags.Nodup) (hg : s.geo = g)
    (h : s.recvTimingReq P pkt = .ok s') :
    ∃ wbs, Access P s.ctl pkt s.store s'.store wbs ∧
      CtlRun g s.now none (Brought P g s pkt wbs) s.ctl s'.ctl ∧ Rest s s' := by
  unfold recvTimingReq timingAccess at h
  split at h
  · cases h
    exact ⟨[], .same, .single (.flags rfl rfl (Nat.le_refl _)), rfl, rfl, rfl⟩
  split at h
  · cases h
    exact ⟨[], .same, .refl, rfl, rfl, rfl⟩
  simp only [bind_ok] at h
  obtain ⟨-, -, h⟩ := h
  split at h
  · simp only [inhibited, bind_ok] at h
    obtain ⟨-, -, h⟩ := h
    split at h <;> cases h <;> exact ⟨[], .same, .refl, rfl, rfl, rfl⟩
  split at h
  · next hu =>
    have hr : CtlRun g s.now none (Brought P g s pkt []) s.ctl s'.ctl ∧ Rest s s' :=
      uncacheableAccess_run hg hu (fun _ => .inl ⟨rfl, rfl, rfl, .inl hu⟩) h
    simp only [uncacheableAccess, bind_ok] at h
    obtain ⟨store, hs, ⟨ctl, ref⟩, -, -, -, h⟩ := h
    cases h
    exact ⟨[], .flush hu hs, hr⟩
  · next hu => exact cacheableAccess_run hP hl hg (by simpa using hu) h

/-! ## Responses -/

/-- The queues after a response: its register is done or waits again, and the
writebacks are queued. -/
theorem handleResponse_run {c₂ c₃ c₄ : Control} {m : Mshr} {promoted : Bool} {wbs wbs' : List Packet}
    (hr : Live s.ctl ref) (hm : m = s.ctl.mshr ref ∨ ∃ pkt, (s.ctl.mshr ref).handleFill pkt = .ok m)
    {full : Bool} (hc : clearNoTarget s.ctl ref tid = .ok c)
    (h2 : finishMshr c s.now ref m full tid = .ok (c₂, promoted))
    (h3 : c₂.allocateWriteBuffers s.now (s.now + g.hitLatency) wbs = .ok c₃)
    (h4 : c₃.allocateWriteBuffers s.now (s.now + g.hitLatency) wbs' = .ok c₄)
    (hw : ∀ p ∈ wbs ++ wbs', p.cmd = .writeback) :
    CtlRun g s.now (some ref) (Queued g s.now (wbs ++ wbs')) s.ctl c₄ := by
  have hsame := clearNoTarget_same hc
  have hq : c.mshr ref = s.ctl.mshr ref := by rw [Control.mshr, Control.mshr, hsame.queue]
  have hrun : CtlRun g s.now (some ref) (Queued g s.now (wbs ++ wbs')) c c₂ :=
    finishMshr_run (by rw [Live, hsame.queue]; exact hr) (hq ▸ hm) h2
  have hrun₃ : CtlRun g s.now (some ref) (Queued g s.now (wbs ++ wbs')) c₂ c₃ := allocateWriteBuffers_run
    (fun p hp => ⟨rfl, rfl, List.mem_append_left _ hp⟩) (fun p hp => hw p (List.mem_append_left _ hp)) h3
  have hrun₄ : CtlRun g s.now (some ref) (Queued g s.now (wbs ++ wbs')) c₃ c₄ := allocateWriteBuffers_run
    (fun p hp => ⟨rfl, rfl, List.mem_append_right _ hp⟩) (fun p hp => hw p (List.mem_append_right _ hp)) h4
  exact (ReflTransGen.single hsame.ctl).trans (hrun.trans (hrun₃.trans hrun₄))

/-- The response fills nothing: at most the block that was found is served. -/
def Answered (P : Policy ε) (pkt : Packet) (st st' : Storage ε) : Prop :=
  st' = st ∨ ∃ f, P.lookup st.tags pkt.addr pkt.threadID = some f ∧
    Serve true (.frame f) pkt.threadID (st.tags.geo.blkAddr pkt.addr) st st'

/-- A response whose targets all belong to its thread and block. -/
theorem handleResponse_moves {up : Nat → UpwardSnoop} (hg : s.geo = g) (hr : Live s.ctl ref)
    (hm : ∀ x, x ∈ (s.ctl.mshr ref).targets.list ∨ x ∈ (s.ctl.mshr ref).deferredTargets.list →
      x.pkt.threadID = pkt.threadID ∧ g.blkAddr x.pkt.addr = g.blkAddr pkt.addr)
    (h : s.handleResponse P ref pkt up = .ok s') :
    ∃ c wbs, c.mshrQueues = s.ctl.mshrQueues ∧ Response P c pkt s.store s'.store wbs ∧
      CtlRun g s.now (some ref) (Queued g s.now wbs) s.ctl s'.ctl ∧ Rest s s' ∧
      ((s.ctl.mshr ref).isForward = true ∨ ¬(pkt.isRead = true ∨ pkt.cmd = .upgradeResp) →
        wbs = [] ∧ Answered P pkt s.store s'.store) := by
  simp only [handleResponse, hitTime, hg, bind_ok] at h
  obtain ⟨c, hc, -, -, -, -, r, hr', ⟨store₁, out⟩, hs, store₂, ha, ⟨c₂, promoted⟩, h2, c₃, h3, ⟨store₃, wbs⟩, ht, c₄,
    h4, h⟩ := h
  cases h
  have hq := (clearNoTarget_queues hc).1
  unfold fill at hr'
  split at hr'
  · next hk =>
    simp only [bind_ok] at hr'
    obtain ⟨m, hmf, ⟨store₀, b, wbs₀⟩, hf, hr'⟩ := hr'
    cases hr'
    simp only [Bool.and_eq_true, Bool.or_eq_true, beq_iff_eq, Bool.not_eq_true'] at hk
    obtain ⟨⟨hfw, hk⟩, -⟩ := hk
    have hg' : store₀.tags.geo = g := (handleFill_geo hf).trans hg
    have hx : ∀ x ∈ m.targets.list, x.pkt.threadID = pkt.threadID ∧
        store₀.tags.geo.blkAddr x.pkt.addr = s.store.tags.geo.blkAddr pkt.addr := by
      intro x hx
      rw [hg', show s.store.tags.geo = g from hg]
      exact hm x (mem_handleFill hmf hx)
    have he : Response P c pkt s.store store₃ (wbs₀ ++ wbs) :=
      .filled hk hf (((Fill.serveTargets_serve hx hs).trans (Fill.afterTargets_serve rfl ha)).trans
        (hideIf_serve store₂ promoted)) ht
    refine ⟨c, wbs₀ ++ wbs, hq, he, handleResponse_run hr (.inr ⟨pkt, hmf⟩) hc h2 h3 h4 he.cmd, ⟨rfl, rfl, rfl⟩,
      fun h => ?_⟩
    obtain h | h := h
    · rw [hfw] at h
      cases h
    · exact absurd hk h
  · cases hr'
    cases hl : P.lookup s.store.tags pkt.addr pkt.threadID with
    | none =>
      rw [hl] at hs ha ht
      cases ha
      rw [Fill.serveTargets_none hs] at ht
      cases ht
      exact ⟨c, [], hq, .same, handleResponse_run hr (.inl rfl) hc h2 h3 h4 (fun p hp => by cases hp),
        ⟨rfl, rfl, rfl⟩, fun _ => ⟨rfl, .inl rfl⟩⟩
    | some f =>
      rw [hl] at hs ha ht
      have hx : ∀ x ∈ (s.ctl.mshr ref).targets.list, x.pkt.threadID = pkt.threadID ∧
          s.store.tags.geo.blkAddr x.pkt.addr = s.store.tags.geo.blkAddr pkt.addr := by
        intro x hx
        rw [show s.store.tags.geo = g from hg]
        exact hm x (.inl hx)
      have hserve := ((Fill.serveTargets_serve hx hs).trans (Fill.afterTargets_serve rfl ha)).trans
        (hideIf_serve store₂ promoted)
      have ht' : clearTemp (hideIf store₂ promoted (some (.frame f))) (some (.frame f)) pkt.threadID =
        .ok (store₃, wbs) := ht
      have hw : wbs = [] := by
        cases ht'
        rfl
      subst hw
      have hserve' := hserve.trans (clearTemp_serve ht').1
      exact ⟨c, [], hq, .found hl hserve', handleResponse_run hr (.inl rfl) hc h2 h3 h4 (fun p hp => by cases hp),
        ⟨rfl, rfl, rfl⟩, fun _ => ⟨rfl, .inr ⟨f, hl, hserve'⟩⟩⟩

/-- A register that was not sent has no flags to look at, so a response without
data can only be given to it when there is no block. -/
theorem handleResponse_unsent {up : Nat → UpwardSnoop} (hi : (s.ctl.mshr ref).inService = false)
    (hk : ¬(pkt.isRead = true ∨ pkt.cmd = .upgradeResp)) (hinv : pkt.isInvalidate = false)
    (h : s.handleResponse P ref pkt up = .ok s') : s'.store = s.store := by
  have hfill : (pkt.isRead || pkt.cmd == .upgradeResp) = false := by simpa using hk
  simp only [handleResponse, hfill, Bool.and_false, fill, Bool.false_and, Bool.false_eq_true, if_false, bind_ok] at h
  obtain ⟨c, -, -, -, -, -, r, hr, ⟨store₁, out⟩, hs, store₂, ha, ⟨c₂, promoted⟩, -, c₃, -, ⟨store₃, wbs⟩, ht, c₄, -,
    h⟩ := h
  cases h
  cases hr
  cases hl : P.lookup s.store.tags pkt.addr pkt.threadID with
  | none =>
    rw [hl] at hs ha ht
    cases ha
    rw [Fill.serveTargets_none hs] at ht
    cases ht
    rfl
  | some f =>
    rw [hl] at ha
    simp only [Option.map_some, Fill.afterTargets, Mshr.invalidates, hinv, Mshr.hasPostInvalidate, hi, bind_ok, assert,
      check_ok, Bool.false_eq_true, if_false] at ha
    obtain ⟨-, ⟨-, h, -⟩, -⟩ := ha
    cases h

/-! ## Snoops -/

theorem snoopWriteback_run {pkt' : Packet} (hr : Live s.ctl ⟨true, pkt.threadID, r⟩)
    (h : s.snoopWriteback pkt r = .ok (s', pkt')) : CtlRun g s.now fin new s.ctl s'.ctl ∧ Rest s s' := by
  simp only [snoopWriteback, Mshr.getTarget, bind_ok, orFail_ok] at h
  obtain ⟨-, -, -, -, x, hx, -, -, -, -, -, -, resp, -, ctl, hd, h⟩ := h
  cases h
  refine ⟨?_, rfl, rfl, rfl⟩
  have h1 : CtlRun g s.now fin new s.ctl (if (!pkt.needsExclusive) = true then
      s.ctl.putMshr ⟨true, pkt.threadID, r⟩ (shareWriteback (s.ctl.mshr ⟨true, pkt.threadID, r⟩) x) else s.ctl) := by
    split
    · have hu : Ctl g s.now fin new s.ctl { s.ctl.putMshr ⟨true, pkt.threadID, r⟩
          (shareWriteback (s.ctl.mshr ⟨true, pkt.threadID, r⟩) x) with order := s.ctl.order } :=
        .update (.share rfl hx)
      exact .tail (.single hu) (.flags rfl rfl (Nat.le_refl _))
    · exact .refl
  unfold discardIf at hd
  split at hd
  · refine h1.trans (markInServiceNull_run ?_ hd)
    split
    · rw [Live, allocatedList_putMshr]
      exact hr
    · exact hr
  · cases hd
    exact h1

theorem snoopWritebacks_run {pkt' : Packet} (h : s.snoopWritebacks pkt = .ok (s', pkt')) :
    CtlRun g s.now fin new s.ctl s'.ctl ∧ Rest s s' := by
  unfold snoopWritebacks at h
  split at h
  · cases h
    exact ⟨.refl, rfl, rfl, rfl⟩
  · next r hr =>
    refine snoopWriteback_run ?_ h
    have hm : r ∈ (s.ctl.writeBuffers pkt.threadID).findMatches (blockAlign s.geo pkt.addr) := by
      rw [hr]
      exact List.mem_singleton_self r
    exact (List.mem_filter.1 hm).1
  · cases h

theorem snoopBlocks_run {blk : Option Nat} {up : UpwardSnoop} (h : s.snoopBlocks pkt blk up = .ok s') :
    CtlRun g s.now fin new s.ctl s'.ctl ∧ Rest s s' := by
  simp only [snoopBlocks, bind_ok] at h
  obtain ⟨⟨s₁, pkt₁⟩, hw, ⟨store, resp⟩, -, h⟩ := h
  cases h
  obtain ⟨h1, h2⟩ := snoopWritebacks_run hw
  exact ⟨h1, h2.bus, h2.now, h2.cfg⟩

/-- A register in service takes the snoop over; otherwise it goes to the blocks. -/
theorem snoopTiming_moves {up : UpwardSnoop} (hg : s.geo = g) (h : s.snoopTiming P pkt up = .ok s') :
    Snooped P pkt s.store s'.store ∧ CtlRun g s.now none (fun _ _ _ => False) s.ctl s'.ctl ∧ Rest s s' ∧
      (s'.store = s.store ∨ pkt.req.isUncacheable = false ∧
        ∀ r, (s.ctl.mshrQueues pkt.threadID).findMatch (blockAlign g pkt.addr) = some r →
          ((s.ctl.mshrQueues pkt.threadID).registers r).inService = false) := by
  refine ⟨snoopTiming_snooped h, ?_⟩
  unfold snoopTiming at h
  split at h
  · cases h
    exact ⟨.refl, .refl s, .inl rfl⟩
  · next hu =>
    have hu' : pkt.req.isUncacheable = false := by
      cases hb : pkt.req.isUncacheable with
      | false => rfl
      | true => exact absurd (.inl hb) hu
    simp only [hg] at h
    split at h
    · next hf =>
      obtain ⟨h1, h2⟩ := snoopBlocks_run h
      exact ⟨h1, h2, .inr ⟨hu', fun r hr => by rw [hf] at hr; cases hr⟩⟩
    · next r hf =>
      have hup : Ctl g s.now none (fun _ _ _ => False) s.ctl
          { s.ctl.putMshr ⟨false, pkt.threadID, r⟩
            ((s.ctl.mshr ⟨false, pkt.threadID, r⟩).handleSnoop s.now pkt s.ctl.order).1 with
            order := s.ctl.order + 1 } := .update (.snoop rfl rfl hu' hf)
      split at h
      · cases h
        exact ⟨.single hup, ⟨rfl, rfl, rfl⟩, .inl rfl⟩
      · next hd =>
        obtain ⟨h1, h2⟩ := snoopBlocks_run (g := g) h
        refine ⟨.head hup h1, ⟨h2.bus, h2.now, h2.cfg⟩, .inr ⟨hu', fun r' hr' => ?_⟩⟩
        rw [hf] at hr'
        obtain rfl := Option.some.inj hr'
        cases hs : ((s.ctl.mshrQueues pkt.threadID).registers r).inService with
        | false => rfl
        | true =>
          have hm : s.ctl.mshr ⟨false, pkt.threadID, r⟩ = (s.ctl.mshrQueues pkt.threadID).registers r := rfl
          rw [hm, Mshr.handleSnoop, if_pos hs] at hd
          exact absurd rfl hd

/-! ## Sending -/

/-- The register waits to be sent. -/
def Ready (c : Control) (ref : MshrRef) : Prop := ref.reg ∈ (c.queue ref).readyList

theorem ready_iff (hc : CtlOk g c) : Ready c ref ↔ Live c ref ∧ (c.mshr ref).inService = false :=
  (hc ref).ready ref.reg

theorem queue_getNextMSHR {q : MshrQueue} (h : q.getNextMSHR now = some r) :
    r ∈ q.readyList ∧ (q.registers r).readyTime ≤ now := by
  unfold MshrQueue.getNextMSHR at h
  split at h
  · cases h
  · next x l hl =>
    split at h
    · cases h
    · next ht =>
      obtain rfl := Option.some.inj h
      rw [hl]
      exact ⟨List.mem_cons_self, by omega⟩

theorem selectMSHR_ready (h : selectMSHR c now tid = some ref) : ref.tid = tid ∧ Ready c ref := by
  unfold selectMSHR at h
  simp only at h
  split at h
  · next hm _ =>
    obtain rfl := Option.some.inj h
    exact ⟨rfl, (queue_getNextMSHR hm).1⟩
  · next _ hw =>
    obtain rfl := Option.some.inj h
    exact ⟨rfl, (queue_getNextMSHR hw).1⟩
  · next hm hw =>
    split at h
    · split at h
      · next hp =>
        split at h
        · obtain rfl := Option.some.inj h
          exact ⟨rfl, List.mem_of_find?_eq_some hp⟩
        · obtain rfl := Option.some.inj h
          exact ⟨rfl, (queue_getNextMSHR hw).1⟩
      · obtain rfl := Option.some.inj h
        exact ⟨rfl, (queue_getNextMSHR hw).1⟩
    · split at h
      · next hp =>
        obtain rfl := Option.some.inj h
        exact ⟨rfl, List.mem_of_find?_eq_some hp⟩
      · obtain rfl := Option.some.inj h
        exact ⟨rfl, (queue_getNextMSHR hm).1⟩
  · cases h

/-- A register that was just allocated is ready. -/
theorem allocateBufferInternal_ready {inWb : Bool} {addr size time : Nat}
    (h : c.allocateBufferInternal inWb now addr size pkt time = .ok (c', ref)) :
    ref.tid = pkt.threadID ∧ Ready c' ref := by
  simp only [Control.allocateBufferInternal, bind_ok] at h
  obtain ⟨⟨q, r⟩, hq, c₁, hc, h⟩ := h
  cases h
  refine ⟨rfl, ?_⟩
  rw [Ready, (setBlockedIf_same hc).queue]
  have hqq := (Control.queue_putQueue c ⟨inWb, pkt.threadID, 0⟩ ⟨inWb, pkt.threadID, r⟩ q).1 ⟨rfl, rfl⟩
  obtain ⟨free, m, l, -, -, hl, rfl⟩ := MshrQueue.allocate_ok hq
  show r ∈ ((c.putQueue ⟨inWb, pkt.threadID, 0⟩ _).queue ⟨inWb, pkt.threadID, r⟩).readyList
  rw [hqq]
  exact hl.mem_iff.2 List.mem_cons_self

/-- The packet of the prefetch that is tried when nothing is ready. -/
def Prefetched (P : Policy ε) (g : Geometry) (s : State ε) (tid : Nat) (pf : Option Prefetch) :
    Newcomer := fun w time p =>
  w = false ∧ time = s.now ∧ selectMSHR s.ctl s.now tid = none ∧
    ∃ q, pf = some q ∧ p = q.packet g ∧ P.findBlock s.store.tags (blockAlign g q.addr) 0 = none

/-- A prefetch gets a register of thread 0 and is sent at once. -/
theorem getNextMSHR_moves {pf : Option Prefetch} {r : Option MshrRef} (hg : s.geo = g)
    (h : s.getNextMSHR P tid pf = .ok (s', r)) :
    s' = { s with ctl := s'.ctl } ∧ CtlRun g s.now none (Prefetched P g s tid pf) s.ctl s'.ctl ∧ (r = none → s' = s) ∧
      ∀ ref, r = some ref → Ready s'.ctl ref ∧ (selectMSHR s.ctl s.now tid = some ref ∧ s' = s ∨
        ref.tid = 0 ∧ ∃ q, pf = some q ∧ P.findBlock s.store.tags (blockAlign g q.addr) 0 = none) := by
  unfold getNextMSHR at h
  split at h
  · next ref hs =>
    cases h
    refine ⟨rfl, .refl, fun _ => rfl, fun ref' hr => ?_⟩
    obtain rfl := Option.some.inj hr
    exact ⟨(selectMSHR_ready hs).2, .inl ⟨hs, rfl⟩⟩
  · next hs =>
    split at h
    · cases h
      exact ⟨rfl, .refl, fun _ => rfl, fun ref' hr => by cases hr⟩
    · next q =>
      simp only [hg] at h
      split at h
      · next hcond =>
        simp only [Control.allocateMissBuffer, bind_ok, assert, check_ok, Bool.not_eq_true'] at h
        obtain ⟨-, -, ⟨ctl, ref⟩, ⟨-, hu, hb⟩, h⟩ := h
        cases h
        simp only [Bool.and_eq_true, Option.isNone_iff_eq_none] at hcond
        refine ⟨rfl, allocateBufferInternal_run ⟨rfl, rfl, hs, q, rfl, rfl, hcond.1.1.2⟩ (.prefetch rfl hu rfl) hb,
          fun hr => (by cases hr), fun ref' hr => ?_⟩
        obtain rfl := Option.some.inj hr
        exact ⟨(allocateBufferInternal_ready hb).2, .inr ⟨(allocateBufferInternal_ready hb).1, q, rfl, hcond.1.1.2⟩⟩
      · cases h
        exact ⟨rfl, .refl, fun _ => rfl, fun ref' hr => by cases hr⟩

/-- The request that leaves for register `ref`, whose first target is `t`, with
the register's `isForward` from then on. -/
inductive Departs (P : Policy ε) (g : Geometry) (s : State ε) (ref : MshrRef) (t : Packet) : Packet → Bool → Prop where
  | supplied {pkt : Packet} (hc : t.cmd = .hardPFReq)
      (hb : P.findBlock s.store.tags (s.ctl.mshr ref).addr t.threadID = none)
      (hp : pkt.cmd = t.cmd ∧ pkt.addr = t.addr ∧ pkt.threadID = t.threadID) :
      Departs P g s ref t pkt (s.ctl.mshr ref).isForward
  | asked {pkt : Packet} {bus : Option Packet}
      (hb : getBusPacket g t ((P.findBlock s.store.tags (s.ctl.mshr ref).addr t.threadID).map s.store.tags.blks)
        (s.ctl.mshr ref).needsExclusive = .ok bus)
      (hp : pkt.cmd = (bus.getD t).cmd ∧ pkt.addr = (bus.getD t).addr ∧ pkt.threadID = (bus.getD t).threadID) :
      Departs P g s ref t pkt bus.isNone

/-- A register that waits for a response is in service. -/
theorem markInService_sent (hn : (c.mshr ref).isForwardNoResponse = .ok false)
    (h : c.markInService ref pkt = .ok c') : Sent (c.mshr ref) (c'.mshr ref) := by
  simp only [Control.markInService, bind_ok] at h
  obtain ⟨q, hq, h⟩ := h
  have hm : c'.mshr ref = q.registers ref.reg := by
    rw [Control.mshr, (clearIfFull_same h).queue, queue_putQueue_self]
  simp only [MshrQueue.markInService, Mshr.markInService, bind_ok] at hq
  obtain ⟨⟨m, done⟩, ⟨-, -, d, hd, hmk⟩, hq⟩ := hq
  have hd' : d = false := by
    have : (c.mshr ref).isForwardNoResponse = .ok d := hd
    rw [hn] at this
    exact (Except.ok.inj this).symm
  subst hd'
  cases hmk
  cases hq
  rw [hm]
  simp only [MshrQueue.put, Function.update_self]
  exact ⟨_, rfl⟩

/-- What happens when a packet leaves, or is refused by the bus. -/
structure Dispatch (P : Policy ε) (g : Geometry) (s s' : State ε) (ref : MshrRef) (t : Packet) : Prop where
  store : s'.store = s.store
  now : s'.now = s.now
  cfg : s'.cfg = s.cfg
  run : CtlRun g s.now none (fun _ _ _ => False) s.ctl s'.ctl
  bus : s'.bus = s.bus ∨ ∃ p fw, s'.bus = ⟨ref, p⟩ :: s.bus ∧ Departs P g s ref t p fw ∧
    (s'.ctl.mshr ref).inService = true ∧ (s'.ctl.mshr ref).addr = (s.ctl.mshr ref).addr ∧
    (s'.ctl.mshr ref).isForward = fw ∧ (s'.ctl.mshr ref).isUncacheable = (s.ctl.mshr ref).isUncacheable

theorem sendPacket_moves {env : SendEnv} (hr : Live s.ctl ref) (h : s.sendPacket ref pkt env = .ok s') :
    s'.store = s.store ∧ s'.now = s.now ∧ s'.cfg = s.cfg ∧ CtlRun g s.now fin new s.ctl s'.ctl ∧
      (s'.bus = s.bus ∨ pkt.needsResponse = true ∧ ∃ p, s'.bus = ⟨ref, p⟩ :: s.bus ∧
        (p.cmd = pkt.cmd ∧ p.addr = pkt.addr ∧ p.threadID = pkt.threadID) ∧
        s.ctl.markInService ref p = .ok s'.ctl) := by
  unfold sendPacket at h
  split at h
  · simp only [bind_ok] at h
    obtain ⟨ctl, hc, h⟩ := h
    cases h
    refine ⟨rfl, rfl, rfl, markInService_run hr hc, ?_⟩
    split
    · next hn => exact .inr ⟨hn, _, rfl, ⟨rfl, rfl, rfl⟩, hc⟩
    · exact .inl rfl
  · cases h
    exact ⟨rfl, rfl, rfl, .refl, .inl rfl⟩

theorem sendMiss_moves {env : SendEnv} (hg : s.geo = g) (hr : Ready s.ctl ref) (hl : Live s.ctl ref)
    (hn : (s.ctl.mshr ref).isForwardNoResponse = .ok false) (h : s.sendMiss P ref t env = .ok s') :
    Dispatch P g s s' ref t := by
  simp only [sendMiss, bind_ok, assert, check_ok] at h
  obtain ⟨-, hpf, h⟩ := h
  split at h
  · next hc =>
    simp only [bind_ok] at h
    obtain ⟨ctl, hm, h⟩ := h
    cases h
    have hb : P.findBlock s.store.tags (s.ctl.mshr ref).addr t.threadID = none := by
      simpa [hc.1] using hpf
    obtain ⟨d, hd⟩ := markInService_sent hn hm
    refine ⟨rfl, rfl, rfl, markInService_run hl hm, .inr ⟨_, _, rfl, .supplied hc.1 hb ⟨rfl, rfl, rfl⟩, ?_⟩⟩
    simp only [hd]
    exact ⟨trivial, trivial, trivial, trivial⟩
  · simp only [bind_ok] at h
    obtain ⟨bus, hb, h⟩ := h
    rw [hg] at hb
    have hup : Ctl g s.now none (fun _ _ _ => False) s.ctl
        { s.ctl.putMshr ref { s.ctl.mshr ref with isForward := bus.isNone } with
        order := s.ctl.order } := .update (.forward _ hr)
    have hup' : CtlRun g s.now none (fun _ _ _ => False) s.ctl
        (s.ctl.putMshr ref { s.ctl.mshr ref with isForward := bus.isNone }) :=
      .tail (.single hup) (.flags rfl rfl (by rw [order_putMshr]))
    have hl' : Live (s.ctl.putMshr ref { s.ctl.mshr ref with isForward := bus.isNone }) ref := by
      rw [Live, allocatedList_putMshr]
      exact hl
    obtain ⟨h1, h2, h3, h4, h5⟩ := sendPacket_moves (g := g) hl' h
    refine ⟨h1, h2, h3, hup'.trans h4, h5.imp id ?_⟩
    rintro ⟨-, p, hp, hpk, hm⟩
    have hmm : (s.ctl.putMshr ref { s.ctl.mshr ref with isForward := bus.isNone }).mshr ref =
        { s.ctl.mshr ref with isForward := bus.isNone } := by rw [Control.mshr_putMshr, if_pos rfl]
    obtain ⟨d, hd⟩ := markInService_sent (by rw [hmm]; exact hn) hm
    refine ⟨p, _, hp, .asked hb hpk, ?_⟩
    simp only [hd, hmm]
    exact ⟨trivial, trivial, trivial, trivial⟩

/-- A packet that is sent as it is and gets no response. -/
theorem needsResponse_of_forward {m : Mshr} {x : Target} (hx : m.targets.list.head? = some x)
    (h : m.isForwardNoResponse = .ok true) : x.pkt.needsResponse = false := by
  unfold Mshr.isForwardNoResponse at h
  split at h
  · simp only [Mshr.getTarget, hx, bind_ok, orFail_ok] at h
    obtain ⟨y, hy, h⟩ := h
    obtain rfl := Option.some.inj hy
    have h' : (x.source == .fromCPU && !x.pkt.needsResponse) = true := Except.ok.inj h
    rw [Bool.and_eq_true, Bool.not_eq_true'] at h'
    exact h'.2
  · cases h

end State

/-! ## Steps -/

open State

/-- What an action of a cache does. -/
inductive Moves (P : Policy ε) (g : Geometry) (s : State ε) : Action → State ε → Prop where
  | advance (ticks : Nat) : Moves P g s (.advance ticks) { s with now := s.now + ticks }
  | request {pkt : Packet} {wbs : List Packet} {s' : State ε}
      (he : Access P s.ctl { pkt with origin := none } s.store s'.store wbs)
      (hc : CtlRun g s.now none (Brought P g s { pkt with origin := none } wbs) s.ctl s'.ctl)
      (hr : Rest s s') : Moves P g s (.recvTimingReq pkt) s'
  | unasked {ref : MshrRef} {r : Reply} : Moves P g s (.recvTimingResp ref r) s
  | response {ref : MshrRef} {r : Reply} {f : InFlight} {c : Control} {wbs : List Packet} {s' : State ε}
      (hf : f ∈ s.bus) (hfr : f.ref = ref) (ha : answers f.pkt.cmd r.cmd = true)
      (hq : c.mshrQueues = s.ctl.mshrQueues) (he : Response P c (r.packet f.pkt) s.store s'.store wbs)
      (hc : CtlRun g s.now (some ref) (Queued g s.now wbs) s.ctl s'.ctl)
      (hb : s'.bus = s.bus.filter fun f => f.ref != ref)
      (hn : s'.now = s.now) (hcfg : s'.cfg = s.cfg)
      (hfw : (s.ctl.mshr ref).isForward = true → wbs = [] ∧ Answered P (r.packet f.pkt) s.store s'.store) :
      Moves P g s (.recvTimingResp ref r) s'
  | snoop {pkt : Packet} {up : UpwardSnoop} {s' : State ε} (he : Snooped P pkt s.store s'.store)
      (hc : CtlRun g s.now none (fun _ _ _ => False) s.ctl s'.ctl) (hr : Rest s s')
      (hd : s'.store = s.store ∨ pkt.req.isUncacheable = false ∧
        ∀ r, (s.ctl.mshrQueues pkt.threadID).findMatch (blockAlign g pkt.addr) = some r →
          ((s.ctl.mshrQueues pkt.threadID).registers r).inService = false) :
      Moves P g s (.recvTimingSnoopReq pkt up) s'
  | idle {tid : Nat} {env : SendEnv} : Moves P g s (.send tid env) s
  | failed {tid : Nat} {env : SendEnv} {ref : MshrRef} {x : Target} {s₁ s' : State ε}
      (hs₁ : s₁ = { s with ctl := s₁.ctl })
      (hp : CtlRun g s.now none (Prefetched P g s tid env.prefetch) s.ctl s₁.ctl)
      (hr : Ready s₁.ctl ref) (hx : (s₁.ctl.mshr ref).targets.list.head? = some x)
      (hst : s'.store = s.store)
      (hc : CtlRun g s.now (some ref) (fun _ _ _ => False) s₁.ctl s'.ctl) (hrest : Rest s s') :
      Moves P g s (.send tid env) s'
  | sent {tid : Nat} {env : SendEnv} {ref : MshrRef} {x : Target} {s₁ s' : State ε}
      (hs₁ : s₁ = { s with ctl := s₁.ctl })
      (hp : CtlRun g s.now none (Prefetched P g s tid env.prefetch) s.ctl s₁.ctl)
      (hr : Ready s₁.ctl ref)
      (hs : selectMSHR s.ctl s.now tid = some ref ∧ s₁ = s ∨
        ref.tid = 0 ∧ ∃ q, env.prefetch = some q ∧ P.findBlock s.store.tags (blockAlign g q.addr) 0 = none)
      (hx : (s₁.ctl.mshr ref).targets.list.head? = some x) (hd : Dispatch P g s₁ s' ref x.pkt) :
      Moves P g s (.send tid env) s'

/-- Every request on the bus belongs to a register of its thread and block. -/
structure BusOk (g : Geometry) (c : Control) (bus : List InFlight) : Prop where
  nodup : (bus.map InFlight.ref).Nodup
  waits : ∀ f ∈ bus, (c.mshr f.ref).inService = true
  tid : ∀ f ∈ bus, f.pkt.threadID = f.ref.tid
  blk : ∀ f ∈ bus, g.blkAddr f.pkt.addr = g.blkAddr (c.mshr f.ref).addr

structure Sound (n : Nat) (g : Geometry) (s : State ε) : Prop where
  geo : s.geo = g
  frames : Lru.Frames n s.store.tags
  ctl : CtlOk g s.ctl
  bus : BusOk g s.ctl s.bus

section

variable {s s' : State ε} {P : Policy ε} {g : Geometry} {pkt : Packet} {view : Nat → Nat → Prop} {a : Action} {n : Nat}

/-- The targets of the register that a request on the bus waits for. -/
theorem Sound.targets (hS : Sound n g s) {f : InFlight} (hf : f ∈ s.bus) (x : Target)
    (hx : x ∈ (s.ctl.mshr f.ref).targets.list ∨ x ∈ (s.ctl.mshr f.ref).deferredTargets.list) :
    x.pkt.threadID = f.pkt.threadID ∧ g.blkAddr x.pkt.addr = g.blkAddr f.pkt.addr := by
  obtain ⟨h1, h2⟩ := ((hS.ctl f.ref).regs f.ref.reg).mem x hx
  rw [hS.bus.tid f hf, hS.bus.blk f hf]
  exact ⟨h1, h2⟩

theorem recvTimingResp_moves {r : Reply} (hS : Sound n g s) (h : s.recvTimingResp P ref r = .ok s') :
    Moves P g s (.recvTimingResp ref r) s' := by
  unfold recvTimingResp at h
  split at h
  · cases h
    exact .unasked
  · next f hf =>
    have hfr : f.ref = ref := by simpa using List.find?_some hf
    have hfm := List.mem_of_find?_eq_some hf
    split at h
    · next ha =>
      subst hfr
      have hm : ∀ x, x ∈ (s.ctl.mshr f.ref).targets.list ∨ x ∈ (s.ctl.mshr f.ref).deferredTargets.list →
          x.pkt.threadID = (r.packet f.pkt).threadID ∧ g.blkAddr x.pkt.addr = g.blkAddr (r.packet f.pkt).addr :=
        fun x hx => hS.targets hfm x hx
      obtain ⟨c, wbs, hq, he, hc, hr, hfw⟩ :=
        handleResponse_moves (s := { s with bus := s.bus.filter fun f' => f'.ref != f.ref }) hS.geo
          (live_of_inService hS.ctl (hS.bus.waits f hfm)) hm h
      exact .response hfm rfl ha hq he hc hr.bus hr.now hr.cfg fun hf => hfw (.inl hf)
    · cases h
      exact .unasked

theorem sendDeferredPacket_moves {env : SendEnv} (hS : Sound n g s)
    (h : s.sendDeferredPacket P tid env = .ok s') : Moves P g s (.send tid env) s' := by
  simp only [sendDeferredPacket, bind_ok] at h
  obtain ⟨⟨s₁, r⟩, hn, h⟩ := h
  obtain ⟨hs₁, hrun, hnone, hsome⟩ := getNextMSHR_moves hS.geo hn
  cases r with
  | none =>
    cases h
    rw [hnone rfl]
    exact .idle
  | some ref =>
    obtain ⟨hr, hsel⟩ := hsome ref rfl
    have hc₁ : CtlOk g s₁.ctl := hrun.ok hS.ctl
    have hl : Live s₁.ctl ref := ((ready_iff hc₁).1 hr).1
    have hg₁ : s₁.geo = g := by
      rw [hs₁]
      exact hS.geo
    have hstore : s₁.store = s.store := by rw [hs₁]
    have hnow : s₁.now = s.now := by rw [hs₁]
    have hrest : Rest s s₁ := ⟨by rw [hs₁], hnow, by rw [hs₁]⟩
    simp only [Mshr.getTarget, bind_ok, orFail_ok] at h
    obtain ⟨x, hx, h⟩ := h
    split at h
    · have hkind : ¬(Packet.isRead
          { x.pkt with cmd := .upgradeFailResp, finishTime := s₁.now, firstWordTime := s₁.now } = true ∨
          MemCmd.upgradeFailResp = .upgradeResp) := by
        rintro (h | h)
        · rw [Packet.isRead] at h
          cases h
        · cases h
      obtain ⟨c, wbs, -, -, hc, hr', hfw⟩ := handleResponse_moves hg₁ hl (fun y hy => by
        have hreg := (hc₁ ref).regs ref.reg
        have h1 := hreg.mem y hy
        have h2 := hreg.mem x (.inl (List.mem_of_head? hx))
        exact ⟨h1.1.trans h2.1.symm, h1.2.trans h2.2.symm⟩) h
      obtain ⟨rfl, -⟩ := hfw (.inr hkind)
      have hst := handleResponse_unsent ((ready_iff hc₁).1 hr).2 hkind rfl h
      rw [hnow] at hc
      refine .failed hs₁ hrun hr hx (hst.trans hstore) (hc.mono (fun _ h => h) fun _ _ p hp => by cases hp.2.2) ?_
      exact ⟨hr'.bus.trans hrest.bus, hr'.now.trans hrest.now, hr'.cfg.trans hrest.cfg⟩
    · simp only [bind_ok] at h
      obtain ⟨fw, hfw, h⟩ := h
      refine .sent hs₁ hrun hr hsel hx ?_
      cases fw with
      | true =>
        obtain ⟨h1, h2, h3, h4, h5⟩ := sendPacket_moves hl h
        refine ⟨h1, h2, h3, h4, .inl ?_⟩
        obtain h5 | ⟨h5, -⟩ := h5
        · exact h5
        · rw [needsResponse_of_forward hx hfw] at h5
          cases h5
      | false => exact sendMiss_moves hg₁ hr hl hfw h

theorem step_moves (hP : P.Lawful view) (hS : Sound n g s) (h : s.step P a = .ok s') : Moves P g s a s' := by
  cases a with
  | advance ticks =>
    cases h
    exact .advance ticks
  | recvTimingReq pkt =>
    obtain ⟨wbs, he, hc, hr⟩ := recvTimingReq_moves hP hS.frames.nodup hS.geo h
    exact .request he hc hr
  | recvTimingResp ref r => exact recvTimingResp_moves hS h
  | recvTimingSnoopReq pkt up =>
    obtain ⟨he, hc, hr, hd⟩ := snoopTiming_moves hS.geo h
    exact .snoop he hc hr hd
  | send tid env => exact sendDeferredPacket_moves hS h

/-! ## Soundness -/

theorem BusOk.run {bus : List InFlight} {new : Newcomer} (hc : CtlOk g c) (hb : BusOk g c bus)
    (h : CtlRun g now none new c c') : BusOk g c' bus where
  nodup := hb.nodup
  waits f hf := (h.keeps hc (hb.waits f hf) (by simp)).inService
  tid := hb.tid
  blk f hf := by
    rw [(h.keeps hc (hb.waits f hf) (by simp)).addr]
    exact hb.blk f hf

/-- The other registers still wait after a response. -/
theorem BusOk.answered {bus : List InFlight} {new : Newcomer} (hc : CtlOk g c) (hb : BusOk g c bus)
    (h : CtlRun g now (some ref) new c c') : BusOk g c' (bus.filter fun f => f.ref != ref) := by
  have hmem : ∀ f ∈ bus.filter fun f => f.ref != ref, f ∈ bus ∧ some ref ≠ some f.ref := by
    intro f hf
    obtain ⟨h1, h2⟩ := List.mem_filter.1 hf
    refine ⟨h1, fun he => ?_⟩
    rw [Option.some.inj he] at h2
    simp at h2
  refine ⟨?_, fun f hf => ?_, fun f hf => hb.tid f (hmem f hf).1, fun f hf => ?_⟩
  · exact hb.nodup.sublist (List.filter_sublist.map _)
  · obtain ⟨h1, h2⟩ := hmem f hf
    exact (h.keeps hc (hb.waits f h1) h2).inService
  · obtain ⟨h1, h2⟩ := hmem f hf
    rw [(h.keeps hc (hb.waits f h1) h2).addr]
    exact hb.blk f h1

theorem getBusPacket_some {blk : Option CacheBlk} {nx : Bool} (h : getBusPacket g t blk nx = .ok (some p)) :
    p.addr = blockAlign g t.addr ∧ p.threadID = t.threadID ∧ t.req.isUncacheable = false ∧ t.needsResponse = true ∧
      ((∃ x, blk = some x ∧ x.isValid = true ∧ x.isWritable = false ∧
          (p.cmd = .upgradeReq ∨ p.cmd = .scUpgradeReq)) ∨
        ((∀ x, blk = some x → x.isValid = false) ∧ (p.cmd = .readExReq ∨ p.cmd = .readReq))) := by
  cases blk with
  | none =>
    simp only [getBusPacket] at h
    split at h
    · cases h
    · next hu =>
      split at h
      · cases h
      · simp only [bind_ok, assert, check_ok] at h
        obtain ⟨-, hn, -, -, h⟩ := h
        cases h
        refine ⟨rfl, rfl, by simpa using hu, hn, .inr ⟨fun x hx => (by cases hx), ?_⟩⟩
        cases nx <;> simp
  | some x =>
    simp only [getBusPacket] at h
    split at h
    · cases h
    · next hu =>
      split at h
      · cases h
      · simp only [bind_ok, assert, check_ok] at h
        obtain ⟨-, hn, -, hv, h⟩ := h
        cases h
        refine ⟨rfl, rfl, by simpa using hu, hn, ?_⟩
        by_cases hx : x.isValid = true
        · simp only [hx, Bool.not_true, Bool.false_or, Bool.and_eq_true, Bool.not_eq_true'] at hv
          refine .inl ⟨x, rfl, hx, hv.2, ?_⟩
          simp only [if_pos hx]
          cases t.isLLSC <;> simp
        · refine .inr ⟨fun y hy => ?_, ?_⟩
          · obtain rfl := Option.some.inj hy
            simpa using hx
          · simp only [if_neg hx]
            cases nx <;> simp

/-- The request that leaves is of the thread and the block of its target. -/
theorem State.Departs.same {fw : Bool} (h : Departs P g s ref t p fw) :
    p.threadID = t.threadID ∧ g.blkAddr p.addr = g.blkAddr t.addr := by
  cases h with
  | supplied hc hb hp => exact ⟨hp.2.2, by rw [hp.2.1]⟩
  | @asked bus hb hp =>
    rw [hp.2.2, hp.2.1]
    cases bus with
    | none => exact ⟨rfl, rfl⟩
    | some b =>
      obtain ⟨h1, h2, -⟩ := getBusPacket_some hb
      simp only [Option.getD_some]
      rw [h1, h2, blkAddr_blockAlign]
      exact ⟨rfl, rfl⟩

theorem BusOk.dispatch {x : Target} (hc : CtlOk g s.ctl) (hb : BusOk g s.ctl s.bus) (hr : Ready s.ctl ref)
    (hx : (s.ctl.mshr ref).targets.list.head? = some x) (h : Dispatch P g s s' ref x.pkt) :
    BusOk g s'.ctl s'.bus := by
  have hrun := hb.run hc h.run
  obtain he | ⟨p, fw, he, hd, h1, h2, -, -⟩ := h.bus
  · rw [he]
    exact hrun
  · rw [he]
    have hns := ((ready_iff hc).1 hr).2
    obtain ⟨hp1, hp2⟩ := hd.same
    obtain ⟨hx1, hx2⟩ := ((hc ref).regs ref.reg).mem x (.inl (List.mem_of_head? hx))
    refine ⟨?_, ?_, ?_, ?_⟩
    · rw [List.map_cons, List.nodup_cons]
      refine ⟨fun hm => ?_, hb.nodup⟩
      obtain ⟨f, hf, hfr⟩ := List.mem_map.1 hm
      have := hb.waits f hf
      rw [hfr, hns] at this
      cases this
    · intro f hf
      obtain rfl | hf := List.mem_cons.1 hf
      · exact h1
      · exact hrun.waits f hf
    · intro f hf
      obtain rfl | hf := List.mem_cons.1 hf
      · exact hp1.trans hx1
      · exact hb.tid f hf
    · intro f hf
      obtain rfl | hf := List.mem_cons.1 hf
      · rw [h2]
        exact hp2.trans hx2
      · exact hrun.blk f hf

/-- The blocks after a step: one effect, or none. -/
theorem Moves.effect (h : Moves P g s a s') :
    s'.store = s.store ∨ ∃ c pkt wbs, Effect P c pkt s.store s'.store wbs := by
  cases h with
  | advance ticks => exact .inl rfl
  | request he hc hr => exact .inr ⟨_, _, _, .access he⟩
  | unasked => exact .inl rfl
  | response hf hfr ha hq he hc hb hn hcfg hfw => exact .inr ⟨_, _, _, .response he⟩
  | snoop he hc hr hd => exact .inr ⟨s.ctl, _, [], .snooped he rfl⟩
  | idle => exact .inl rfl
  | failed hs₁ hp hr hx hst hc hrest => exact .inl hst
  | @sent tid env ref x s₁ s' hs₁ hp hr hs hx hd =>
    left
    rw [hd.store, hs₁]

theorem Moves.sound (hP : P.Lawful view) (hS : Sound n g s) (h : Moves P g s a s') : Sound n g s' := by
  have hstore : s'.geo = g ∧ Lru.Frames n s'.store.tags := by
    obtain he | ⟨c, pkt, wbs, he⟩ := h.effect
    · rw [geo, he]
      exact ⟨hS.geo, hS.frames⟩
    · exact ⟨(he.geo hP hS.frames.nodup).trans hS.geo, he.frames hP hS.frames⟩
  suffices hc : CtlOk g s'.ctl ∧ BusOk g s'.ctl s'.bus from ⟨hstore.1, hstore.2, hc.1, hc.2⟩
  cases h with
  | advance ticks => exact ⟨hS.ctl, hS.bus⟩
  | request he hc hr =>
    rw [hr.bus]
    exact ⟨hc.ok hS.ctl, hS.bus.run hS.ctl hc⟩
  | unasked => exact ⟨hS.ctl, hS.bus⟩
  | response hf hfr ha hq he hc hb hn hcfg hfw =>
    rw [hb]
    exact ⟨hc.ok hS.ctl, hS.bus.answered hS.ctl hc⟩
  | snoop he hc hr hd =>
    rw [hr.bus]
    exact ⟨hc.ok hS.ctl, hS.bus.run hS.ctl hc⟩
  | idle => exact ⟨hS.ctl, hS.bus⟩
  | @failed tid env ref x s₁ s' hs₁ hp hr hx hst hc hrest =>
    have hc₁ := hp.ok hS.ctl
    have hb₁ := hS.bus.run hS.ctl hp
    have hne : s.bus.filter (fun f => f.ref != ref) = s.bus := by
      rw [List.filter_eq_self]
      intro f hf
      rw [bne_iff_ne]
      intro hfr
      have := hb₁.waits f hf
      rw [hfr, ((ready_iff hc₁).1 hr).2] at this
      cases this
    rw [hrest.bus, ← hne]
    exact ⟨hc.ok hc₁, hb₁.answered hc₁ hc⟩
  | @sent tid env ref x s₁ s' hs₁ hp hr hs hx hd =>
    have hc₁ := hp.ok hS.ctl
    have hb₁ : BusOk g s₁.ctl s₁.bus := by
      rw [show s₁.bus = s.bus by rw [hs₁]]
      exact hS.bus.run hS.ctl hp
    exact ⟨hd.run.ok hc₁, hb₁.dispatch hc₁ hr hx hd⟩

theorem step_sound (hP : P.Lawful view) (hS : Sound n g s) (h : s.step P a = .ok s') : Sound n g s' :=
  (step_moves hP hS h).sound hP hS

end

end DynamicCache.Cache
