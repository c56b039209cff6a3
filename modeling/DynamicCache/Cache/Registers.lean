import DynamicCache.Cache.Effects
import DynamicCache.Cache.Queues

/-!
# What happens to a register

`Ctl` seen from the registers: whatever a cache does to its queues, at most one
register changes, and `Change` lists how (`Ctl.change`).  A register that waits
for a response is left alone until that response (`Ctl.keeps`).  The functions
of `Cache.Control` and `Cache.Timing` are then described by runs of `Ctl`.
-/

namespace DynamicCache.Cache

open Lib Tags Relation

/-! ## One register -/

/-- The register is allocated. -/
def Live (c : Control) (ref : MshrRef) : Prop := ref.reg ∈ (c.queue ref).allocatedList

structure Keeps (c c' : Control) (ref : MshrRef) : Prop where
  live : Live c' ref ↔ Live c ref
  mshr : c'.mshr ref = c.mshr ref

/-- A register just allocated for `pkt`. -/
structure Born (pkt : Packet) (a n time o : Nat) (m : Mshr) : Prop where
  addr : m.addr = a
  size : m.size = n
  readyTime : m.readyTime = time
  order : m.order = o
  inService : m.inService = false
  isForward : m.isForward = false
  isUncacheable : m.isUncacheable = pkt.req.isUncacheable
  targets : ∃ x, m.targets.list = [x] ∧ x.pkt = pkt ∧ x.order = o ∧ x.readyTime = time
  deferred : m.deferredTargets.list = []

/-- The register after its request was sent. -/
def Sent (m m' : Mshr) : Prop :=
  ∃ d, m' = { m with inService := true, pendingDirty := d, postInvalidate := false, postDowngrade := false }

/-- How the register `ref` may change. -/
inductive Change (g : Geometry) (now : Nat) (fin : Option MshrRef) (new : Newcomer) (c c' : Control)
    (ref : MshrRef) : Prop where
  | born {pkt : Packet} {addr size time : Nat} (hn : new ref.inWriteBuffer time pkt)
      (ha : Alloc g now c pkt ref.inWriteBuffer addr size time) (ht : pkt.threadID = ref.tid)
      (h0 : ¬Live c ref) (h1 : Live c' ref) (hm : Born pkt addr size time c.order (c'.mshr ref))
      (ho : c'.order = c.order + 1)
  | updated (h : Update g now new c ref (c'.mshr ref) c'.order) (hl : Live c' ref ↔ Live c ref)
  | sent (hl : Live c ref) (hl' : Live c' ref) (hs : (c.mshr ref).inService = false)
      (hm : Sent (c.mshr ref) (c'.mshr ref))
  | gone (hl : ¬Live c' ref) (hs : (c.mshr ref).inService = false ∨ fin = some ref)
      (hs' : (c'.mshr ref).inService = false)
  | promoted {m m' : Mshr} (hfin : fin = some ref) (hl : Live c ref) (hl' : Live c' ref)
      (hm : m = c.mshr ref ∨ ∃ pkt, (c.mshr ref).handleFill pkt = .ok m)
      (hp : (State.servedMshr m).promoteDeferredTargets now = .ok (m', true))
      (he : c'.mshr ref = { m' with inService := false })

section

variable {g : Geometry} {now : Nat} {fin : Option MshrRef} {new : Newcomer} {c c' : Control} {ref : MshrRef}
  {pkt : Packet} {r tid : Nat} {q q' : MshrQueue} {m : Mshr} {new' : Newcomer}

/-- Only register `ref` of the new queue differs. -/
theorem keeps_putQueue (hq : ∀ r, r ≠ ref.reg → q.registers r = (c.queue ref).registers r ∧
      (r ∈ q.allocatedList ↔ r ∈ (c.queue ref).allocatedList)) {ref' : MshrRef} (hne : ref' ≠ ref) :
    Keeps c (c.putQueue ref q) ref' := by
  by_cases hs : Control.SameQueue ref ref'
  · have hr : ref'.reg ≠ ref.reg := by
      intro hr
      obtain ⟨w, t, r⟩ := ref
      obtain ⟨w', t', r'⟩ := ref'
      obtain ⟨rfl, rfl⟩ : w' = w ∧ t' = t := hs
      exact hne (by rw [show r' = r from hr])
    have h1 := (Control.queue_putQueue c ref ref' q).1 hs
    constructor
    · rw [Live, Live, h1, Control.queue_eq_of_same c hs]
      exact (hq _ hr).2
    · rw [Control.mshr, Control.mshr, h1, Control.queue_eq_of_same c hs]
      exact (hq _ hr).1
  · have h1 := (Control.queue_putQueue c ref ref' q).2 hs
    constructor
    · rw [Live, Live, h1]
    · rw [Control.mshr, Control.mshr, h1]

theorem queue_putQueue_self (c : Control) (ref : MshrRef) (q : MshrQueue) : (c.putQueue ref q).queue ref = q :=
  (Control.queue_putQueue c ref ref q).1 ⟨rfl, rfl⟩

theorem mshr_putQueue_self (c : Control) (ref : MshrRef) (q : MshrQueue) :
    (c.putQueue ref q).mshr ref = q.registers ref.reg := by
  rw [Control.mshr, queue_putQueue_self]

theorem keeps_putMshr {ref' : MshrRef} (hne : ref' ≠ ref) : Keeps c (c.putMshr ref m) ref' := by
  have hq : ∀ r, r ≠ ref.reg → ((c.queue ref).put ref.reg m).registers r = (c.queue ref).registers r ∧
      (r ∈ ((c.queue ref).put ref.reg m).allocatedList ↔ r ∈ (c.queue ref).allocatedList) := fun r hr =>
    ⟨by rw [MshrQueue.put_registers, if_neg hr], .rfl⟩
  exact keeps_putQueue hq hne

theorem order_putMshr (c : Control) (ref : MshrRef) (m : Mshr) : (c.putMshr ref m).order = c.order := by
  unfold Control.putMshr Control.putQueue
  split <;> rfl

/-- The flags and the order counter are in no queue. -/
theorem keeps_flags (hm : c'.mshrQueues = c.mshrQueues) (hw : c'.writeBuffers = c.writeBuffers) (ref : MshrRef) :
    Keeps c c' ref := by
  have hq : c'.queue ref = c.queue ref := by
    unfold Control.queue
    rw [hm, hw]
  exact ⟨by rw [Live, Live, hq], by rw [Control.mshr, Control.mshr, hq]⟩

theorem Keeps.withOrder (h : Keeps c c' ref) (o : Nat) : Keeps c { c' with order := o } ref := ⟨h.live, h.mshr⟩

theorem Keeps.trans {c'' : Control} (h : Keeps c c' ref) (h' : Keeps c' c'' ref) : Keeps c c'' ref :=
  ⟨h'.live.trans h.live, h'.mshr.trans h.mshr⟩

theorem born_of_allocate {m' : Mshr} {addr size time order : Nat} (hok : RegOk g ref.tid m)
    (h0 : m.ntargets = 0) (h : m.allocate now addr size pkt time order = .ok m') :
    Born pkt addr size time order m' := by
  obtain ⟨ht, hd⟩ := hok.empty h0
  simp only [Mshr.allocate, bind_ok] at h
  obtain ⟨-, -, -, -, h⟩ := h
  cases h
  refine ⟨rfl, rfl, rfl, rfl, rfl, rfl, rfl, ?_, hd⟩
  simp only [TargetList.add, ht, List.nil_append]
  exact ⟨_, rfl, rfl, rfl, rfl⟩

/-- A register that is given up. -/
theorem deallocate_change (hok : QueueOk g ref.tid q) (h : q.deallocate r = .ok q') :
    (r ∉ q'.allocatedList ∧ (q'.registers r).inService = false) ∧
      ∀ r', r' ≠ r → q'.registers r' = q.registers r' ∧ (r' ∈ q'.allocatedList ↔ r' ∈ q.allocatedList) := by
  obtain ⟨m, hm, rfl⟩ := MshrQueue.deallocate_ok h
  obtain ⟨-, rfl⟩ := mshr_deallocate_ok hm
  have hna := (List.nodup_append.1 hok.nodup).1
  refine ⟨⟨?_, ?_⟩, fun r' hr => ⟨?_, ?_⟩⟩
  · show r ∉ q.allocatedList.erase r
    rw [hna.mem_erase_iff]
    exact fun h => h.1 rfl
  · simp [MshrQueue.put]
  · simp [MshrQueue.put, hr]
  · exact List.mem_erase_of_ne hr

theorem markInService_change (hok : QueueOk g ref.tid q) (hr : r ∈ q.allocatedList)
    (h : q.markInService r pkt = .ok q') : (q.registers r).inService = false ∧
      ((r ∉ q'.allocatedList ∧ (q'.registers r).inService = false) ∨
        (r ∈ q'.allocatedList ∧ Sent (q.registers r) (q'.registers r))) ∧
      ∀ r', r' ≠ r → q'.registers r' = q.registers r' ∧ (r' ∈ q'.allocatedList ↔ r' ∈ q.allocatedList) := by
  simp only [MshrQueue.markInService, bind_ok] at h
  obtain ⟨⟨m, done⟩, hm, h⟩ := h
  simp only [Mshr.markInService, bind_ok, assert, check_ok, Bool.not_eq_true'] at hm
  obtain ⟨-, hs, d, hd, hm⟩ := hm
  refine ⟨hs, ?_⟩
  cases d with
  | true =>
    cases hm
    obtain ⟨m, hm, rfl⟩ := MshrQueue.deallocate_ok h
    obtain ⟨-, rfl⟩ := mshr_deallocate_ok hm
    have hna := (List.nodup_append.1 hok.nodup).1
    refine ⟨.inl ⟨?_, ?_⟩, fun r' hr' => ⟨?_, ?_⟩⟩
    · show r ∉ q.allocatedList.erase r
      rw [hna.mem_erase_iff]
      exact fun h => h.1 rfl
    · simp [MshrQueue.put]
    · simp [MshrQueue.put, hr']
    · exact List.mem_erase_of_ne hr'
  | false =>
    cases hm
    cases h
    refine ⟨.inr ⟨hr, ?_⟩, fun r' hr' => ⟨?_, .rfl⟩⟩
    · simp only [MshrQueue.put, Function.update_self]
      exact ⟨_, rfl⟩
    · simp [MshrQueue.put, hr']

theorem markPending_change (h : q.markPending r = .ok q') :
    q'.allocatedList = q.allocatedList ∧ q'.registers r = { q.registers r with inService := false } ∧
      (q.registers r).inService = true ∧ ∀ r', r' ≠ r → q'.registers r' = q.registers r' := by
  simp only [MshrQueue.markPending, bind_ok, assert, check_ok] at h
  obtain ⟨-, hs, h⟩ := h
  obtain ⟨l, rfl, -⟩ := MshrQueue.addToReadyList_ok h
  refine ⟨rfl, ?_, hs, fun r' hr => ?_⟩
  · simp [MshrQueue.put]
  · simp [MshrQueue.put, hr]

/-! ## All registers -/

/-- At most one register changes. -/
theorem Ctl.change (hc : CtlOk g c) (h : Ctl g now fin new c c') :
    c.order ≤ c'.order ∧ ((∀ ref, Keeps c c' ref) ∨
      ∃ ref, Change g now fin new c c' ref ∧ ∀ ref', ref' ≠ ref → Keeps c c' ref') := by
  cases h with
  | flags hm hw ho => exact ⟨ho, .inl (keeps_flags hm hw)⟩
  | @alloc inWb addr size time r pkt q hn ha h =>
    refine ⟨Nat.le_succ _, .inr ⟨⟨inWb, pkt.threadID, r⟩, ?_, ?_⟩⟩
    · have hq : ∀ ref : MshrRef, ref.inWriteBuffer = inWb → ref.tid = pkt.threadID →
          ({ c.putQueue ⟨inWb, pkt.threadID, 0⟩ q with order := c.order + 1 } : Control).queue ref = q :=
        fun ref h1 h2 => (Control.queue_putQueue c ⟨inWb, pkt.threadID, 0⟩ ref q).1 ⟨h1, h2⟩
      have hok := hc ⟨inWb, pkt.threadID, 0⟩
      have hnew := (hok.allocate rfl ha.blkAddr h).2
      obtain ⟨free, m, l, -, hm, -, rfl⟩ := MshrQueue.allocate_ok h
      refine .born hn ha rfl hnew ?_ ?_ rfl
      · rw [Live, hq ⟨inWb, pkt.threadID, r⟩ rfl rfl]
        simp
      · rw [Control.mshr, hq ⟨inWb, pkt.threadID, r⟩ rfl rfl]
        simp only [MshrQueue.put, Function.update_self]
        exact born_of_allocate (hok.regs r) (hok.free r hnew) hm
    · intro ref' hne
      obtain ⟨free, m, l, -, hm, -, rfl⟩ := MshrQueue.allocate_ok h
      refine Keeps.withOrder (@keeps_putQueue c ⟨inWb, pkt.threadID, r⟩ _ (fun r' hr => ⟨?_, ?_⟩) ref' hne) _
      · simp only [MshrQueue.put, Function.update_of_ne hr]
        rfl
      · show r' ∈ (c.queue ⟨inWb, pkt.threadID, 0⟩).allocatedList ++ [r] ↔ _
        rw [List.mem_append, List.mem_singleton]
        exact or_iff_left hr
  | @update ref m o h =>
    refine ⟨?_, .inr ⟨ref, .updated ?_ ?_, fun ref' hne => ?_⟩⟩
    · cases h with
      | target hn hw ht hu hf h => exact Nat.le_succ _
      | snoop hw ht hu hf => exact Nat.le_succ _
      | share hw hx => exact Nat.le_refl _
      | forward v hr => exact Nat.le_refl _
    · have hm : ({ c.putMshr ref m with order := o } : Control).mshr ref = m := by
        show (c.putMshr ref m).mshr ref = m
        rw [Control.mshr_putMshr, if_pos rfl]
      rw [hm]
      exact h
    · show ref.reg ∈ ((c.putMshr ref m).queue ref).allocatedList ↔ _
      rw [allocatedList_putMshr]
      rfl
    · exact (keeps_putMshr hne).withOrder o
  | @sent ref pkt q hr h =>
    obtain ⟨hs, h1, h2⟩ := markInService_change (hc ref) hr h
    refine ⟨?_, .inr ⟨ref, ?_, fun ref' hne => keeps_putQueue h2 hne⟩⟩
    · unfold Control.putQueue
      split <;> exact Nat.le_refl _
    · obtain ⟨hl, hi⟩ | ⟨hl, hi⟩ := h1
      · refine .gone ?_ (.inl hs) ?_
        · rw [Live, queue_putQueue_self]; exact hl
        · rw [mshr_putQueue_self]; exact hi
      · refine .sent hr ?_ hs ?_
        · rw [Live, queue_putQueue_self]; exact hl
        · rw [mshr_putQueue_self]; exact hi
  | @promoted ref m m' q hfin hm hp h =>
    obtain ⟨h1, h2, -, h4⟩ := markPending_change h
    have hmm : ((c.putMshr ref m').queue ref).registers ref.reg = m' := by
      have := Control.mshr_putMshr c ref ref m'
      rwa [if_pos rfl] at this
    have hl : Live c ref := hc.allocated_of_promoted hm hp
    refine ⟨?_, .inr ⟨ref, .promoted hfin hl ?_ hm hp ?_, fun ref' hne => ?_⟩⟩
    · unfold Control.putMshr Control.putQueue
      split <;> exact Nat.le_refl _
    · rw [Live, queue_putQueue_self, h1, allocatedList_putMshr]; exact hl
    · rw [mshr_putQueue_self, h2, hmm]
    · exact (keeps_putMshr hne).trans (keeps_putQueue (fun r hr => ⟨h4 r hr, by rw [h1]⟩) hne)
  | @freed ref m m' q hfin hr hm hp h =>
    obtain ⟨⟨h1, h2⟩, h3⟩ := deallocate_change (hc.served hm hr hp ref) h
    refine ⟨?_, .inr ⟨ref, .gone ?_ (.inr hfin) ?_, fun ref' hne => ?_⟩⟩
    · unfold Control.putMshr Control.putQueue
      split <;> exact Nat.le_refl _
    · rw [Live, queue_putQueue_self]; exact h1
    · rw [mshr_putQueue_self]; exact h2
    · exact (keeps_putMshr hne).trans (keeps_putQueue h3 hne)

/-- What a register keeps while it waits for its response. -/
structure Waiting (m m' : Mshr) : Prop where
  inService : m'.inService = true
  addr : m'.addr = m.addr
  isForward : m'.isForward = m.isForward
  isUncacheable : m'.isUncacheable = m.isUncacheable

theorem live_of_inService (hc : CtlOk g c) (hs : (c.mshr ref).inService = true) : Live c ref :=
  (hc ref).busy ref.reg hs

theorem Ctl.keeps (hc : CtlOk g c) (h : Ctl g now fin new c c') (hs : (c.mshr ref).inService = true)
    (hf : fin ≠ some ref) : Waiting (c.mshr ref) (c'.mshr ref) := by
  have hkeep : Keeps c c' ref → Waiting (c.mshr ref) (c'.mshr ref) := by
    intro hk
    rw [hk.mshr]
    exact ⟨hs, rfl, rfl, rfl⟩
  obtain ⟨-, hk | ⟨ref₀, hch, hk⟩⟩ := h.change hc
  · exact hkeep (hk ref)
  by_cases he : ref = ref₀
  · subst he
    cases hch with
    | born _ _ _ h0 _ _ _ => exact absurd (live_of_inService hc hs) h0
    | updated h hl =>
      obtain ha | ⟨hr, -⟩ := h.alike
      · exact ⟨ha.inService.trans hs, ha.addr, ha.isForward, ha.isUncacheable⟩
      · have hr' : (c.mshr ref).inService = false := (((hc ref).ready ref.reg).1 hr).2
        rw [hs] at hr'
        cases hr'
    | sent _ _ hs' _ => rw [hs] at hs'; cases hs'
    | gone _ hs' _ =>
      obtain hs' | hs' := hs'
      · rw [hs] at hs'; cases hs'
      · exact absurd hs' hf
    | promoted hfin _ _ _ _ _ => exact absurd hfin hf
  · exact hkeep (hk ref he)

/-! ## Runs -/

/-- What a function of the cache does to the queues. -/
abbrev CtlRun (g : Geometry) (now : Nat) (fin : Option MshrRef) (new : Newcomer) : Control → Control → Prop :=
  ReflTransGen (Ctl g now fin new)

theorem CtlRun.ok (hc : CtlOk g c) (h : CtlRun g now fin new c c') : CtlOk g c' := by
  induction h with
  | refl => exact hc
  | tail _ h ih => exact h.ok ih

theorem CtlRun.keeps (hc : CtlOk g c) (h : CtlRun g now fin new c c') (hs : (c.mshr ref).inService = true)
    (hf : fin ≠ some ref) : Waiting (c.mshr ref) (c'.mshr ref) := by
  induction h with
  | refl => exact ⟨hs, rfl, rfl, rfl⟩
  | tail hr h ih =>
    have h' := h.keeps (CtlRun.ok hc hr) ih.inService hf
    exact ⟨h'.inService, h'.addr.trans ih.addr, h'.isForward.trans ih.isForward,
      h'.isUncacheable.trans ih.isUncacheable⟩

theorem Update.mono {o : Nat} (hn : ∀ w time p, new w time p → new' w time p) (h : Update g now new c ref m o) :
    Update g now new' c ref m o := by
  cases h with
  | target hnew hw ht hu hf h => exact .target (hn _ _ _ hnew) hw ht hu hf h
  | snoop hw ht hu hf => exact .snoop hw ht hu hf
  | share hw hx => exact .share hw hx
  | forward v hr => exact .forward v hr

theorem Ctl.mono {fin' : Option MshrRef} (hf : ∀ ref, fin = some ref → fin' = some ref)
    (hn : ∀ w time p, new w time p → new' w time p) (h : Ctl g now fin new c c') :
    Ctl g now fin' new' c c' := by
  cases h with
  | flags hm hw ho => exact .flags hm hw ho
  | alloc hnew ha h => exact .alloc (hn _ _ _ hnew) ha h
  | update h => exact .update (h.mono hn)
  | sent hr h => exact .sent hr h
  | promoted hfin hm hp h => exact .promoted (hf _ hfin) hm hp h
  | freed hfin hr hm hp h => exact .freed (hf _ hfin) hr hm hp h

theorem CtlRun.mono {fin' : Option MshrRef} (hf : ∀ ref, fin = some ref → fin' = some ref)
    (hn : ∀ w time p, new w time p → new' w time p) (h : CtlRun g now fin new c c') :
    CtlRun g now fin' new' c c' :=
  ReflTransGen.mono (fun _ _ => Ctl.mono hf hn) _ _ h

/-! ## Functions of the control state -/

/-- Only flags change. -/
structure SameQueues (c c' : Control) : Prop where
  mshrQueues : c'.mshrQueues = c.mshrQueues
  writeBuffers : c'.writeBuffers = c.writeBuffers
  order : c'.order = c.order

theorem SameQueues.ctl (h : SameQueues c c') : Ctl g now fin new c c' :=
  .flags h.mshrQueues h.writeBuffers h.order.ge

theorem SameQueues.refl (c : Control) : SameQueues c c := ⟨rfl, rfl, rfl⟩

theorem SameQueues.queue (h : SameQueues c c') (ref : MshrRef) : c'.queue ref = c.queue ref := by
  unfold Control.queue
  rw [h.mshrQueues, h.writeBuffers]

theorem setBlockedIf_same {full : Bool} {cause : BlockedCause} (h : c.setBlockedIf full cause tid = .ok c') :
    SameQueues c c' := by
  unfold Control.setBlockedIf at h
  split at h
  · unfold Control.setBlocked at h
    split at h
    · cases h
      exact ⟨rfl, rfl, rfl⟩
    · simp only [bind_ok] at h
      obtain ⟨-, -, h⟩ := h
      cases h
      exact ⟨rfl, rfl, rfl⟩
  · cases h
    exact .refl c

theorem clearBlocked_same {cause : BlockedCause} (h : c.clearBlocked cause tid = .ok c') : SameQueues c c' := by
  unfold Control.clearBlocked at h
  simp only at h
  split at h
  · cases h
    exact ⟨rfl, rfl, rfl⟩
  · simp only [bind_ok] at h
    obtain ⟨-, -, h⟩ := h
    cases h
    exact ⟨rfl, rfl, rfl⟩

theorem clearIfFull_same {wasFull : Bool} (h : c.clearIfFull wasFull ref tid = .ok c') : SameQueues c c' := by
  unfold Control.clearIfFull at h
  split at h
  · exact clearBlocked_same h
  · cases h
    exact .refl c

theorem clearNoTarget_same (h : State.clearNoTarget c ref tid = .ok c') : SameQueues c c' := by
  obtain ⟨h1, h2, h3⟩ := State.clearNoTarget_queues h
  exact ⟨h1, h2, h3⟩

theorem allocateBufferInternal_run {inWb : Bool} {addr size time : Nat} (hn : new inWb time pkt)
    (ha : Alloc g now c pkt inWb addr size time)
    (h : c.allocateBufferInternal inWb now addr size pkt time = .ok (c', ref)) : CtlRun g now fin new c c' := by
  simp only [Control.allocateBufferInternal, bind_ok] at h
  obtain ⟨⟨q, r⟩, hq, c₁, hc, h⟩ := h
  cases h
  exact .tail (.single (.alloc hn ha hq)) (setBlockedIf_same hc).ctl

theorem allocateWriteBuffer_run (hn : new true (now + g.hitLatency) pkt)
    (hc : pkt.cmd = .writeback ∨ pkt.req.isUncacheable = true)
    (h : c.allocateWriteBuffer now pkt (now + g.hitLatency) = .ok (c', ref)) : CtlRun g now fin new c c' := by
  simp only [Control.allocateWriteBuffer, bind_ok, assert, check_ok, Bool.and_eq_true, Bool.not_eq_true'] at h
  obtain ⟨-, ⟨-, hr⟩, h⟩ := h
  exact allocateBufferInternal_run hn (.write hc hr) h

theorem allocateWriteBuffers_run {wbs : List Packet} (hn : ∀ p ∈ wbs, new true (now + g.hitLatency) p)
    (hc : ∀ p ∈ wbs, p.cmd = .writeback) (h : Control.allocateWriteBuffers now (now + g.hitLatency) wbs c = .ok c') :
    CtlRun g now fin new c c' := by
  induction wbs generalizing c with
  | nil =>
    cases h
    exact .refl
  | cons wb wbs ih =>
    simp only [Control.allocateWriteBuffers, bind_ok] at h
    obtain ⟨⟨c₁, ref⟩, h1, h⟩ := h
    have h2 := ih (fun p hp => hn p (List.mem_cons_of_mem _ hp)) (fun p hp => hc p (List.mem_cons_of_mem _ hp)) h
    exact (allocateWriteBuffer_run (hn wb List.mem_cons_self) (.inl (hc wb List.mem_cons_self)) h1).trans h2

theorem allocateMissBuffer_run (hn : new false (now + g.hitLatency) pkt)
    (hm : (c.mshrQueues pkt.threadID).findMatch (blockAlign g pkt.addr) = none)
    (h : c.allocateMissBuffer g now pkt (now + g.hitLatency) = .ok (c', ref)) : CtlRun g now fin new c c' := by
  simp only [Control.allocateMissBuffer, bind_ok, assert, check_ok, Bool.not_eq_true'] at h
  obtain ⟨-, hu, h⟩ := h
  exact allocateBufferInternal_run hn (.miss hu hm) h

theorem allocateUncachedReadBuffer_run (hn : new false (now + g.hitLatency) pkt)
    (h : c.allocateUncachedReadBuffer now pkt (now + g.hitLatency) = .ok (c', ref)) :
    CtlRun g now fin new c c' := by
  simp only [Control.allocateUncachedReadBuffer, bind_ok, assert, check_ok] at h
  obtain ⟨-, hu, -, -, h⟩ := h
  exact allocateBufferInternal_run hn (.read hu) h

theorem markInService_run (hr : Live c ref) (h : c.markInService ref pkt = .ok c') :
    CtlRun g now fin new c c' := by
  simp only [Control.markInService, bind_ok] at h
  obtain ⟨q, hq, h⟩ := h
  exact .tail (.single (.sent hr hq)) (clearIfFull_same h).ctl

theorem markInServiceNull_run (hr : Live c ref) (h : c.markInServiceNull ref pkt = .ok c') :
    CtlRun g now fin new c c' := by
  simp only [Control.markInServiceNull, bind_ok] at h
  obtain ⟨q, hq, h⟩ := h
  split at h
  · cases h
  · cases h
    exact .single (.sent hr hq)

theorem finishMshr_run {wasFull promoted : Bool} (hr : Live c ref)
    (hm : m = c.mshr ref ∨ ∃ pkt, (c.mshr ref).handleFill pkt = .ok m)
    (h : State.finishMshr c now ref m wasFull tid = .ok (c', promoted)) : CtlRun g now (some ref) new c c' := by
  simp only [State.finishMshr, bind_ok] at h
  obtain ⟨⟨m', p⟩, hp, h⟩ := h
  cases p with
  | true =>
    simp only [if_true, bind_ok] at h
    obtain ⟨q, hq, h⟩ := h
    cases h
    exact .single (.promoted rfl hm hp hq)
  | false =>
    simp only [Bool.false_eq_true, if_false, bind_ok] at h
    obtain ⟨q, hq, c₁, hc, h⟩ := h
    cases h
    exact .tail (.single (.freed rfl hr hm hp hq)) (clearIfFull_same hc).ctl

end

end DynamicCache.Cache
