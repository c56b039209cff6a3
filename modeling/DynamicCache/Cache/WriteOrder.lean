import DynamicCache.Cache.ReadyList
import DynamicCache.Cache.Resize

/-!
# Misses and earlier writebacks (`getNextMSHR`)

A miss must not reach the memory before a writeback of its block that was queued
earlier.  `getNextMSHR` looks for such writebacks in the write buffer of the
miss's own thread.  That is enough there: a miss is never ready before a
writeback that was queued earlier (`Timely.heeds`), and the write buffer is in
the order of ready times.  The buffers of the other threads are not looked at
(`writeback_overtaken`), so misses wait for the writebacks of their block as long
as none of them is another thread's (`misses_follow_writebacks`).
-/

namespace DynamicCache.Cache

open Lib Tags

/-! ## What is queued -/

/-- The register is in a write buffer and was not sent. -/
structure Pending (c : Control) (w : MshrRef) : Prop where
  inWriteBuffer : w.inWriteBuffer = true
  live : Live c w
  unsent : (c.mshr w).inService = false

def Mshr.isWriteback (m : Mshr) : Bool := m.targets.list.any fun x => x.pkt.cmd == .writeback

/-- A dirty writeback that was not sent. -/
structure Unsent (c : Control) (w : MshrRef) : Prop extends Pending c w where
  writeback : (c.mshr w).isWriteback = true

/-- The register is for a cacheable miss. -/
structure Miss (c : Control) (ref : MshrRef) : Prop where
  inQueue : ref.inWriteBuffer = false
  live : Live c ref
  cacheable : (c.mshr ref).isUncacheable = false

/-- The orders and ready times with which a register asks for its block: its own
until it is sent, later those of its deferred targets. -/
inductive Asks (m : Mshr) : Nat → Nat → Prop where
  | now (h : m.inService = false) : Asks m m.order m.readyTime
  | later {x : Target} (h : x ∈ m.deferredTargets.list) : Asks m x.order x.readyTime

/-! ## Deferred targets -/

section

variable {m m' : Mshr} {pkt : Packet} {x : Target} {now time order : Nat}

theorem deferred_handleFill (h : m.handleFill pkt = .ok m') (hx : x ∈ m'.deferredTargets.list) :
    x ∈ m.deferredTargets.list := by
  obtain ⟨-, rfl⟩ | ⟨-, rfl⟩ := Mshr.handleFill_cases h
  · exact hx
  · cases hx

theorem deferred_allocateTarget (h : m.allocateTarget now pkt time order = .ok m') (hx : x ∈ m'.deferredTargets.list) :
    x ∈ m.deferredTargets.list ∨ x.order = order ∧ x.readyTime = time := by
  simp only [Mshr.allocateTarget, bind_ok] at h
  obtain ⟨-, -, h⟩ := h
  split at h <;> cases h
  · simp only [TargetList.add, List.mem_append, List.mem_singleton] at hx
    obtain hx | rfl := hx
    · exact .inl hx
    · exact .inr ⟨rfl, rfl⟩
  · exact .inl hx

/-- A snoop may replace deferred upgrades, which keep their place. -/
theorem deferred_handleSnoop (hx : x ∈ (m.handleSnoop now pkt order).1.deferredTargets.list) :
    ∃ y ∈ m.deferredTargets.list, y.Alike x := by
  obtain ⟨ts, ds, n, inval, down, he, hd, -⟩ := m.handleSnoop_cases now pkt order
  rw [he] at hx
  exact RegOk.mem_of_replaced hd hx

/-- A register that waits again does so for a deferred target. -/
theorem promoted_from {m₁ : Mshr} (hm : m₁ = m ∨ ∃ pkt, m.handleFill pkt = .ok m₁)
    (hp : (State.servedMshr m₁).promoteDeferredTargets now = .ok (m', true)) :
    ∃ x ∈ m.deferredTargets.list, m'.order = x.order ∧ m'.readyTime = max now x.readyTime := by
  obtain ⟨-, -, -, -, -, -, ⟨h, -⟩ | ⟨x, xs, -, hd, -, ho, ht⟩⟩ := mshr_promote_ok hp
  · cases h
  · have hx : x ∈ m₁.deferredTargets.list := by
      rw [hd]
      exact List.mem_cons_self
    obtain rfl | ⟨pkt, hf⟩ := hm
    · exact ⟨x, hx, ho, ht⟩
    · exact ⟨x, deferred_handleFill hf hx, ho, ht⟩

theorem isWriteback_shareWriteback (hx : m.targets.list.head? = some x) :
    (State.shareWriteback m x).isWriteback = m.isWriteback := by
  obtain ⟨xs, hl⟩ := List.head?_eq_some_iff.1 hx
  simp [Mshr.isWriteback, State.shareWriteback, hl]

end

/-! ## One step of the queues -/

section

variable {g : Geometry} {now n : Nat} {fin : Option MshrRef} {new : Newcomer} {c c' : Control} {ref w : MshrRef}

/-- The registers of the write buffers have no deferred targets. -/
def Plain (c : Control) : Prop :=
  ∀ w : MshrRef, w.inWriteBuffer = true → Live c w → (c.mshr w).deferredTargets.list = []

theorem Ctl.plain (hc : CtlOk g c) (hp : Plain c) (h : Ctl g now fin new c c') : Plain c' := by
  intro w hw hl
  obtain ⟨-, hk | ⟨ref, hch, hk⟩⟩ := h.change hc
  · rw [(hk w).mshr]
    exact hp w hw ((hk w).live.1 hl)
  by_cases he : w = ref
  · subst he
    cases hch with
    | born _ _ _ _ _ hm _ => exact hm.deferred
    | updated hu hl' =>
      have hd := hp w hw (hl'.1 hl)
      generalize (c'.mshr w) = m at hu
      generalize c'.order = o at hu
      cases hu with
      | target _ hq _ _ _ _ => rw [hw] at hq; cases hq
      | snoop hq _ _ _ => rw [hw] at hq; cases hq
      | share _ _ => exact hd
      | forward _ _ => exact hd
    | sent hl₀ _ _ hs =>
      obtain ⟨d, hs⟩ := hs
      rw [hs]
      exact hp w hw hl₀
    | gone hl' _ _ => exact absurd hl hl'
    | promoted _ _ _ _ hpr he =>
      rw [he]
      exact (mshr_promote_ok hpr).2.2.2.2.2.1
  · rw [(hk w he).mshr]
    exact hp w hw ((hk w he).live.1 hl)

/-- A write that was queued before. -/
structure Older (c c' : Control) (w : MshrRef) : Prop where
  pending : Pending c w
  addr : (c'.mshr w).addr = (c.mshr w).addr
  size : (c'.mshr w).size = (c.mshr w).size
  order : (c'.mshr w).order = (c.mshr w).order
  readyTime : (c'.mshr w).readyTime = (c.mshr w).readyTime
  writeback : (c'.mshr w).isWriteback = (c.mshr w).isWriteback

/-- A write that was just queued, for packet `p`. -/
structure Newer (g : Geometry) (now : Nat) (new : Newcomer) (c c' : Control) (w : MshrRef) (p : Packet) : Prop where
  allowed : new true (c'.mshr w).readyTime p
  threadID : p.threadID = w.tid
  blk : g.blkAddr p.addr = g.blkAddr (c'.mshr w).addr
  order : (c'.mshr w).order = c.order
  next : c'.order = c.order + 1
  time : (c'.mshr w).readyTime = now + g.hitLatency ∨ (c'.mshr w).readyTime = now ∧
    blockAlign g (c'.mshr w).addr = (c'.mshr w).addr ∧ (c'.mshr w).size = g.blkSize

theorem Older.unsent (h : Older c c' w) (hw : Unsent c' w) : Unsent c w := ⟨h.pending, h.writeback ▸ hw.writeback⟩

theorem Ctl.pending (hc : CtlOk g c) (hp : Plain c) (h : Ctl g now fin new c c') (hw : Pending c' w) :
    Older c c' w ∨ ∃ p, Newer g now new c c' w p := by
  have hkeep : Keeps c c' w → Older c c' w := by
    intro hk
    refine ⟨⟨hw.inWriteBuffer, hk.live.1 hw.live, ?_⟩, ?_, ?_, ?_, ?_, ?_⟩
    · rw [← hk.mshr]
      exact hw.unsent
    all_goals rw [hk.mshr]
  obtain ⟨-, hk | ⟨ref, hch, hk⟩⟩ := h.change hc
  · exact .inl (hkeep (hk w))
  by_cases he : w = ref
  · subst he
    cases hch with
    | @born pkt addr size time hn ha ht h0 h1 hm ho =>
      right
      refine ⟨pkt, ?_, ht, ?_, hm.order, ho, ?_⟩
      · rw [hm.readyTime, ← hw.inWriteBuffer]
        exact hn
      · rw [hm.addr]
        exact ha.blkAddr
      · rw [hm.readyTime, hm.addr, hm.size]
        have hin := hw.inWriteBuffer
        generalize w.inWriteBuffer = b at ha hin
        cases ha with
        | write _ _ => exact .inl rfl
        | evict _ ha => exact .inr ⟨rfl, ha, rfl⟩
        | miss _ _ => cases hin
        | prefetch _ _ _ => cases hin
        | read _ => cases hin
    | updated hu hl' =>
      left
      have hl := hl'.1 hw.live
      have hs := hw.unsent
      rw [hu.inService] at hs
      have hpend : Pending c w := ⟨hw.inWriteBuffer, hl, hs⟩
      suffices h : ∀ m o, Update g now new c w m o → m.addr = (c.mshr w).addr ∧ m.size = (c.mshr w).size ∧
          m.order = (c.mshr w).order ∧ m.readyTime = (c.mshr w).readyTime ∧ m.isWriteback = (c.mshr w).isWriteback by
        obtain ⟨h1, h2, h3, h4, h5⟩ := h _ _ hu
        exact ⟨hpend, h1, h2, h3, h4, h5⟩
      intro m o hu
      cases hu with
      | target _ hq _ _ _ _ => rw [hw.inWriteBuffer] at hq; cases hq
      | snoop hq _ _ _ => rw [hw.inWriteBuffer] at hq; cases hq
      | share _ hx => exact ⟨rfl, rfl, rfl, rfl, isWriteback_shareWriteback hx⟩
      | forward _ _ => exact ⟨rfl, rfl, rfl, rfl, rfl⟩
    | sent _ _ _ hs =>
      obtain ⟨d, hs⟩ := hs
      have := hw.unsent
      rw [hs] at this
      cases this
    | gone hl' _ _ => exact absurd hw.live hl'
    | promoted _ hl₀ _ hm hpr _ =>
      obtain ⟨x, hx, -⟩ := promoted_from hm hpr
      rw [hp w hw.inWriteBuffer hl₀] at hx
      cases hx
  · exact .inl (hkeep (hk w he))

/-- A newcomer that asks for the block of register `ref`. -/
structure Joins (g : Geometry) (new : Newcomer) (c c' : Control) (ref : MshrRef) (o time : Nat) (p : Packet) :
    Prop where
  allowed : new false time p
  cacheable : p.req.isUncacheable = false
  threadID : p.threadID = ref.tid
  blk : g.blkAddr p.addr = g.blkAddr (c'.mshr ref).addr
  order : o = c.order
  next : c'.order = c.order + 1

/-- A register that was there before asks as it did, or for one more newcomer. -/
structure Longer (g : Geometry) (new : Newcomer) (c c' : Control) (ref : MshrRef) : Prop where
  miss : Miss c ref
  addr : (c'.mshr ref).addr = (c.mshr ref).addr
  size : (c'.mshr ref).size = (c.mshr ref).size
  asks : ∀ {o time}, Asks (c'.mshr ref) o time →
    (∃ time₀ ≤ time, Asks (c.mshr ref) o time₀) ∨ ∃ p, Joins g new c c' ref o time p

/-- A register that was just allocated. -/
structure Opened (g : Geometry) (new : Newcomer) (c c' : Control) (ref : MshrRef) : Prop where
  addr : blockAlign g (c'.mshr ref).addr = (c'.mshr ref).addr
  size : (c'.mshr ref).size = g.blkSize
  asks : ∀ {o time}, Asks (c'.mshr ref) o time → ∃ p, Joins g new c c' ref o time p

/-- A register that serves the same request asks as before. -/
theorem Mshr.Alike.asks {m m' : Mshr} (ha : m.Alike m')
    (hd : ∀ x ∈ m'.deferredTargets.list, ∃ y ∈ m.deferredTargets.list, y.Alike x) {o time : Nat} (h : Asks m' o time) :
    Asks m o time := by
  cases h with
  | now hs =>
    rw [ha.order, ha.readyTime]
    exact .now (ha.inService ▸ hs)
  | later hx =>
    obtain ⟨y, hy, hyx⟩ := hd _ hx
    rw [hyx.order, hyx.readyTime]
    exact .later hy

theorem Ctl.miss (hc : CtlOk g c) (h : Ctl g now fin new c c') (hm : Miss c' ref) :
    Longer g new c c' ref ∨ Opened g new c c' ref := by
  have hkeep : Keeps c c' ref → Longer g new c c' ref := by
    intro hk
    refine ⟨⟨hm.inQueue, hk.live.1 hm.live, hk.mshr ▸ hm.cacheable⟩, by rw [hk.mshr], by rw [hk.mshr], fun ha => ?_⟩
    rw [hk.mshr] at ha
    exact .inl ⟨_, Nat.le_refl _, ha⟩
  obtain ⟨-, hk | ⟨ref₀, hch, hk⟩⟩ := h.change hc
  · exact .inl (hkeep (hk ref))
  by_cases he : ref = ref₀
  · subst he
    cases hch with
    | @born pkt addr size time hn ha ht h0 h1 hb ho =>
      right
      have hu : pkt.req.isUncacheable = false := hb.isUncacheable ▸ hm.cacheable
      have hblk := ha.blkAddr
      rw [← hb.addr] at hblk
      have hshape : blockAlign g addr = addr ∧ size = g.blkSize := by
        have hin := hm.inQueue
        generalize ref.inWriteBuffer = b at ha hin
        cases ha with
        | write _ _ => cases hin
        | evict _ _ => cases hin
        | miss _ _ => exact ⟨blockAlign_blockAlign g _, rfl⟩
        | prefetch _ _ _ => exact ⟨blockAlign_blockAlign g _, rfl⟩
        | read hu' => rw [hu] at hu'; cases hu'
      refine ⟨by rw [hb.addr]; exact hshape.1, hb.size.trans hshape.2, fun hask => ⟨pkt, ?_⟩⟩
      cases hask with
      | now _ =>
        rw [hb.order, hb.readyTime]
        exact ⟨hm.inQueue ▸ hn, hu, ht, hblk, rfl, ho⟩
      | later hx =>
        rw [hb.deferred] at hx
        cases hx
    | updated hu hl =>
      left
      suffices hs : ∀ m o', Update g now new c ref m o' → m.addr = (c.mshr ref).addr ∧ m.size = (c.mshr ref).size ∧
          m.isUncacheable = (c.mshr ref).isUncacheable ∧ ∀ {o time}, Asks m o time → Asks (c.mshr ref) o time ∨
            o = c.order ∧ o' = c.order + 1 ∧ ∃ p, new false time p ∧ p.req.isUncacheable = false ∧
              p.threadID = ref.tid ∧ g.blkAddr p.addr = g.blkAddr (c.mshr ref).addr by
        obtain ⟨h1, h2, h3, h4⟩ := hs _ _ hu
        refine ⟨⟨hm.inQueue, hl.1 hm.live, h3 ▸ hm.cacheable⟩, h1, h2, fun hask => ?_⟩
        obtain hask | ⟨h5, h6, p, hp, hpu, hpt, hpa⟩ := h4 hask
        · exact .inl ⟨_, Nat.le_refl _, hask⟩
        · exact .inr ⟨p, hp, hpu, hpt, h1 ▸ hpa, h5, h6⟩
      intro m o' hu
      cases hu with
      | @target pkt _ hn hw ht hpu hf ha =>
        have hal := mshr_allocateTarget_alike ha
        refine ⟨hal.addr, hal.size, hal.isUncacheable, fun hask => ?_⟩
        cases hask with
        | now hs =>
          rw [hal.order, hal.readyTime]
          exact .inl (.now (hal.inService ▸ hs))
        | later hx =>
          obtain hx | ⟨ho, ht'⟩ := deferred_allocateTarget ha hx
          · exact .inl (.later hx)
          · rw [ho, ht']
            exact .inr ⟨rfl, rfl, pkt, hn, hpu, ht, blkAddr_of_findMatch hw hf⟩
      | snoop hw _ _ _ =>
        have hal := mshr_handleSnoop_alike (c.mshr ref) ‹_› now c.order
        exact ⟨hal.addr, hal.size, hal.isUncacheable, fun hask => .inl (hal.asks (fun x => deferred_handleSnoop) hask)⟩
      | share hw _ => rw [hm.inQueue] at hw; cases hw
      | forward v _ =>
        refine ⟨rfl, rfl, rfl, fun hask => .inl ?_⟩
        cases hask with
        | now hs => exact .now hs
        | later hx => exact .later hx
    | sent hl _ _ hs =>
      left
      obtain ⟨d, hs⟩ := hs
      have hu := hm.cacheable
      rw [hs] at hu
      refine ⟨⟨hm.inQueue, hl, hu⟩, by rw [hs], by rw [hs], fun hask => .inl ⟨_, Nat.le_refl _, ?_⟩⟩
      rw [hs] at hask
      cases hask with
      | now h => cases h
      | later hx => exact .later hx
    | gone hl _ _ => exact absurd hm.live hl
    | @promoted m m' hfin hl hl' hf hp he =>
      left
      obtain ⟨x, hx, ho, ht⟩ := promoted_from hf hp
      obtain ⟨-, ha, hz, -, hu, hd, -⟩ := mshr_promote_ok hp
      have hal : m.addr = (c.mshr ref).addr ∧ m.size = (c.mshr ref).size ∧
          m.isUncacheable = (c.mshr ref).isUncacheable := by
        obtain rfl | ⟨pkt, hf⟩ := hf
        · exact ⟨rfl, rfl, rfl⟩
        · have := mshr_handleFill_alike hf
          exact ⟨this.addr, this.size, this.isUncacheable⟩
      have huc := hm.cacheable
      rw [he] at huc
      refine ⟨⟨hm.inQueue, hl, (hu.trans hal.2.2).symm.trans huc⟩, ?_, ?_, fun hask => .inl ⟨x.readyTime, ?_, ?_⟩⟩
      · rw [he]
        exact ha.trans hal.1
      · rw [he]
        exact hz.trans hal.2.1
      all_goals
        rw [he] at hask
        cases hask with
        | now _ => first | exact ht ▸ Nat.le_max_right _ _ | exact ho ▸ .later hx
        | later hx' => rw [hd] at hx'; cases hx'
  · exact .inl (hkeep (hk ref he))

/-- Only one queue changes. -/
theorem sorted_putQueue {q : MshrQueue} (hs : ∀ w : MshrRef, w.inWriteBuffer = true → (c.queue w).Sorted)
    (hq : ref.inWriteBuffer = true → q.Sorted) (w : MshrRef) (hw : w.inWriteBuffer = true) :
    ((c.putQueue ref q).queue w).Sorted := by
  by_cases he : Control.SameQueue ref w
  · rw [(Control.queue_putQueue c ref w q).1 he]
    exact hq (he.1 ▸ hw)
  · rw [(Control.queue_putQueue c ref w q).2 he]
    exact hs w hw

theorem Ctl.sorted (hc : CtlOk g c) (hp : Plain c) (hs : ∀ w : MshrRef, w.inWriteBuffer = true → (c.queue w).Sorted)
    (hcount : ∀ w, Pending c w → (c.mshr w).order < c.order) (h : Ctl g now fin new c c') (w : MshrRef)
    (hw : w.inWriteBuffer = true) : (c'.queue w).Sorted := by
  cases h with
  | flags hm hwb _ =>
    have := hs w hw
    rw [Control.queue, if_pos hw] at this ⊢
    rwa [hwb]
  | @alloc inWb addr size time r pkt q hn ha h =>
    refine sorted_putQueue hs (fun hin => ?_) w hw
    refine MshrQueue.allocate_sorted (hc _) (hs _ hin) (fun x hx => ?_) h
    have hx' := ((hc ⟨inWb, pkt.threadID, 0⟩).ready x).1 hx
    exact hcount ⟨inWb, pkt.threadID, x⟩ ⟨hin, hx'.1, hx'.2⟩
  | @update ref m o h =>
    refine sorted_putQueue hs (fun hin => (hs ref hin).put ?_ ?_) w hw
    all_goals
      obtain ha | ⟨-, v, rfl⟩ := h.alike
      · first | exact ha.readyTime | exact ha.order
      · rfl
  | @sent ref pkt q _ h =>
    exact sorted_putQueue hs (fun hin => MshrQueue.markInService_sorted (hc ref) (hs ref hin) h) w hw
  | @promoted ref m m' q _ hm hpr h =>
    have hl : Live c ref := hc.allocated_of_promoted hm hpr
    have hin : ref.inWriteBuffer ≠ true := by
      intro hin
      obtain ⟨x, hx, -⟩ := promoted_from hm hpr
      rw [hp ref hin hl] at hx
      cases hx
    exact sorted_putQueue (sorted_putQueue hs fun h => absurd h hin) (fun h => absurd h hin) w hw
  | @freed ref m m' q _ _ hm hpr h =>
    rw [Control.putMshr, queue_putQueue_self] at h
    have hput : Control.putQueue (c.putMshr ref m') ref q = c.putQueue ref q := by
      unfold Control.putMshr Control.putQueue
      split <;> simp only [Function.update_idem]
    rw [hput]
    refine sorted_putQueue hs
      (fun hin => MshrQueue.deallocate_sorted (hs ref hin) (fun hr => ?_) (hc ref).readyNodup h) w hw
    have hi : m.inService = (c.mshr ref).inService := by
      obtain rfl | ⟨pkt, hf⟩ := hm
      · rfl
      · exact (mshr_handleFill_alike hf).inService
    rw [(mshr_promote_ok hpr).1, hi]
    exact (((hc ref).ready ref.reg).1 hr).2

/-! ## The invariant -/

/-- A writeback of thread `t` and block `blk` that is ready at `time` does not
get in the way of a newcomer: a later write of the block in the same buffer is
not ready earlier, and a miss of the block is of the same thread and not ready
earlier either. -/
def Clear (n : Nat) (g : Geometry) (t blk time : Nat) : Newcomer
  | true, time', p => t = p.threadID → blk = g.blkAddr p.addr → time ≤ time'
  | false, time', p => p.req.isUncacheable = false → t < n → blk = g.blkAddr p.addr → t = p.threadID ∧ time ≤ time'

/-- No writeback, queued or about to be, gets in the way of the newcomers. -/
structure Admits (n : Nat) (g : Geometry) (new : Newcomer) (c : Control) : Prop where
  queued : ∀ {w b time p}, Unsent c w → new b time p →
    Clear n g w.tid (g.blkAddr (c.mshr w).addr) (c.mshr w).readyTime b time p
  among : ∀ {time b time' p p'}, new true time p → new b time' p' →
    Clear n g p.threadID (g.blkAddr p.addr) time b time' p'

theorem Admits.step (hc : CtlOk g c) (hp : Plain c) (ha : Admits n g new c) (h : Ctl g now fin new c c') :
    Admits n g new c' where
  queued {w b time p} hw hn := by
    obtain ho | ⟨q, hq⟩ := h.pending hc hp hw.toPending
    · rw [ho.addr, ho.readyTime]
      exact ha.queued (ho.unsent hw) hn
    · rw [← hq.threadID, ← hq.blk]
      exact ha.among hq.allowed hn
  among := ha.among

/-- What makes the misses wait.  `heeds`: a miss is queued behind the writebacks
of its block, which are of its thread and ready no later than itself.  `follows`:
in one buffer a writeback is ready no later than the writes that follow it, but
for the writebacks of other blocks, which a resize queues without delay. -/
structure Timely (n : Nat) (g : Geometry) (now : Nat) (c : Control) : Prop where
  plain : Plain c
  sorted : ∀ w : MshrRef, w.inWriteBuffer = true → (c.queue w).Sorted
  writes : ∀ {w}, Pending c w → (c.mshr w).order < c.order
  misses : ∀ {ref o time}, Miss c ref → Asks (c.mshr ref) o time → o < c.order
  due : ∀ {w}, Pending c w → (c.mshr w).readyTime ≤ now + g.hitLatency
  shape : ∀ {ref}, Miss c ref → blockAlign g (c.mshr ref).addr = (c.mshr ref).addr ∧ (c.mshr ref).size = g.blkSize
  heeds : ∀ {ref o time w}, Miss c ref → Asks (c.mshr ref) o time → Unsent c w → w.tid < n →
    g.blkAddr (c.mshr w).addr = g.blkAddr (c.mshr ref).addr → (c.mshr w).order < o →
    w.tid = ref.tid ∧ (c.mshr w).readyTime ≤ time
  follows : ∀ {w w'}, Unsent c w → Pending c w' → w.tid = w'.tid → (c.mshr w).order < (c.mshr w').order →
    (c.mshr w).readyTime ≤ (c.mshr w').readyTime ∨
      g.blkAddr (c.mshr w).addr ≠ g.blkAddr (c.mshr w').addr ∧
        blockAlign g (c.mshr w').addr = (c.mshr w').addr ∧ (c.mshr w').size = g.blkSize

theorem Timely.advance {ticks : Nat} (hT : Timely n g now c) : Timely n g (now + ticks) c :=
  ⟨hT.plain, hT.sorted, hT.writes, hT.misses, fun hw => (hT.due hw).trans (by omega), hT.shape, hT.heeds, hT.follows⟩

theorem Timely.step (hc : CtlOk g c) (hT : Timely n g now c) (ha : Admits n g new c) (h : Ctl g now fin new c c') :
    Timely n g now c' where
  plain := h.plain hc hT.plain
  sorted := h.sorted hc hT.plain hT.sorted fun _ => hT.writes
  writes {w} hw := by
    obtain ho | ⟨p, hp⟩ := h.pending hc hT.plain hw
    · rw [ho.order]
      exact (hT.writes ho.pending).trans_le (h.change hc).1
    · rw [hp.order, hp.next]
      exact Nat.lt_succ_self _
  misses {ref o time} hm hask := by
    have hold : ∀ {time₀}, Miss c ref → Asks (c.mshr ref) o time₀ → o < c'.order := fun hm hask =>
      (hT.misses hm hask).trans_le (h.change hc).1
    have hnew : ∀ {p}, Joins g new c c' ref o time p → o < c'.order := by
      intro p hj
      rw [hj.order, hj.next]
      exact Nat.lt_succ_self _
    obtain hl | hop := h.miss hc hm
    · obtain ⟨_, -, hask⟩ | ⟨p, hj⟩ := hl.asks hask
      · exact hold hl.miss hask
      · exact hnew hj
    · obtain ⟨p, hj⟩ := hop.asks hask
      exact hnew hj
  due {w} hw := by
    obtain ho | ⟨p, hp⟩ := h.pending hc hT.plain hw
    · rw [ho.readyTime]
      exact hT.due ho.pending
    · obtain ht | ⟨ht, -⟩ := hp.time
      · exact ht.le
      · rw [ht]
        exact Nat.le_add_right _ _
  shape {ref} hm := by
    obtain hl | ho := h.miss hc hm
    · rw [hl.addr, hl.size]
      exact hT.shape hl.miss
    · exact ⟨ho.addr, ho.size⟩
  heeds {ref o time w} hm hask hw hn hb hlt := by
    -- a newcomer finds only writebacks that do not get in its way
    have hnew : ∀ {p}, Joins g new c c' ref o time p → w.tid = ref.tid ∧ (c'.mshr w).readyTime ≤ time := by
      intro p hj
      obtain ho | ⟨q, hq⟩ := h.pending hc hT.plain hw.toPending
      · have hcl := ha.queued (ho.unsent hw) hj.allowed hj.cacheable hn (by rw [← ho.addr, hb, hj.blk])
        rw [ho.readyTime, ← hj.threadID]
        exact hcl
      · rw [hq.order, hj.order] at hlt
        exact absurd hlt (Nat.lt_irrefl _)
    obtain hl | hop := h.miss hc hm
    · obtain ⟨time₀, hle, hask₀⟩ | ⟨p, hj⟩ := hl.asks hask
      · obtain ho | ⟨q, hq⟩ := h.pending hc hT.plain hw.toPending
        · rw [ho.addr, hl.addr] at hb
          rw [ho.order] at hlt
          obtain ⟨h1, h2⟩ := hT.heeds hl.miss hask₀ (ho.unsent hw) hn hb hlt
          rw [ho.readyTime]
          exact ⟨h1, h2.trans hle⟩
        · -- what is queued now comes after all that was asked for
          have := hT.misses hl.miss hask₀
          rw [hq.order] at hlt
          omega
      · exact hnew hj
    · obtain ⟨p, hj⟩ := hop.asks hask
      exact hnew hj
  follows {w w'} hw hw' ht hlt := by
    obtain ho' | ⟨q', hq'⟩ := h.pending hc hT.plain hw'
    · obtain ho | ⟨q, hq⟩ := h.pending hc hT.plain hw.toPending
      · rw [ho.order, ho'.order] at hlt
        rw [ho.readyTime, ho'.readyTime, ho.addr, ho'.addr, ho'.size]
        exact hT.follows (ho.unsent hw) ho'.pending ht hlt
      · have := hT.writes ho'.pending
        rw [hq.order, ho'.order] at hlt
        omega
    · obtain ho | ⟨q, hq⟩ := h.pending hc hT.plain hw.toPending
      · obtain htime | ⟨-, hal, hsz⟩ := hq'.time
        · rw [htime, ho.readyTime]
          exact .inl (hT.due ho.pending)
        · by_cases hb : g.blkAddr (c'.mshr w).addr = g.blkAddr (c'.mshr w').addr
          · left
            rw [ho.readyTime]
            exact ha.queued (ho.unsent hw) hq'.allowed (ht.trans hq'.threadID.symm) (by rw [← ho.addr, hb, hq'.blk])
          · exact .inr ⟨hb, hal, hsz⟩
      · rw [hq.order, hq'.order] at hlt
        exact absurd hlt (Nat.lt_irrefl _)

theorem Timely.run (hc : CtlOk g c) (hT : Timely n g now c) (ha : Admits n g new c) (h : CtlRun g now fin new c c') :
    Timely n g now c' := by
  suffices h' : CtlOk g c' ∧ Timely n g now c' ∧ Admits n g new c' from h'.2.1
  induction h with
  | refl => exact ⟨hc, hT, ha⟩
  | tail _ h ih =>
    obtain ⟨hc, hT, ha⟩ := ih
    exact ⟨h.ok hc, hT.step hc ha h, ha.step hc hT.plain h⟩

theorem timely_init (n : Nat) (g : Geometry) (now mshrs writeBuffers : Nat) :
    Timely n g now (.init mshrs writeBuffers) := by
  have hl : ∀ {ref : MshrRef}, ¬Live (.init mshrs writeBuffers) ref := by
    intro ref h
    unfold Live Control.queue at h
    split at h <;> cases h
  refine ⟨fun w _ h => absurd h hl, fun w hw => ?_, fun h => absurd h.live hl, fun h => absurd h.live hl,
    fun h => absurd h.live hl, fun h => absurd h.live hl, fun h => absurd h.live hl, fun h => absurd h.live hl⟩
  rw [Control.queue, if_pos hw]
  exact List.Pairwise.nil

/-! ## What `getNextMSHR` returns -/

theorem Timely.select (hc : CtlOk g c) (hT : Timely n g now c) {tid : Nat}
    (h : State.selectMSHR c now tid = some ref) (hm : Miss c ref) (hw : Unsent c w) (hn : w.tid < n)
    (hb : g.blkAddr (c.mshr w).addr = g.blkAddr (c.mshr ref).addr) : ¬(c.mshr w).order < (c.mshr ref).order := by
  intro hlt
  obtain ⟨htid, hready⟩ := State.selectMSHR_ready h
  obtain ⟨hsame, htime⟩ := hT.heeds hm (.now ((State.ready_iff hc).1 hready).2) hw hn hb hlt
  have hsorted := hT.sorted w hw.inWriteBuffer
  have hwr : State.Ready c w := (State.ready_iff hc).2 ⟨hw.live, hw.unsent⟩
  obtain ⟨b, t, r⟩ := w
  obtain ⟨b', t', r'⟩ := ref
  obtain rfl : b = true := hw.inWriteBuffer
  obtain rfl : b' = false := hm.inQueue
  obtain rfl : t = t' := hsame
  obtain rfl : t = tid := htid
  unfold State.selectMSHR at h
  simp only at h
  split at h
  · -- nothing is ready in the write buffer, so the writeback is ready after the miss
    next m hmq hwb =>
    obtain rfl : m = r' := by simpa using h
    have h1 := (State.queue_getNextMSHR hmq).2
    have h2 := hsorted.lt_of_getNextMSHR hwb hwr
    exact absurd htime (by
      exact fun hle => absurd (h2.trans_le (hle.trans h1)) (Nat.lt_irrefl _))
  · cases h
  · next m x hmq hwb =>
    split at h
    · split at h
      · next y hy =>
        split at h
        · -- the miss overtakes the first write, which is ready before the writeback
          next hord =>
          obtain rfl : y = r' := by simpa using h
          have hpx : Pending c ⟨true, t, x⟩ :=
            have hx := ((hc ⟨true, t, x⟩).ready x).1 (State.queue_getNextMSHR hwb).1
            ⟨rfl, hx.1, hx.2⟩
          have hlt' : (c.mshr ⟨true, t, r⟩).order < (c.mshr ⟨true, t, x⟩).order := hlt.trans hord
          have hbef : r = x ∨ (c.writeBuffers t).Before x r := hsorted.head_of_getNextMSHR hwb hwr
          obtain hle | ⟨hne, hal, hsz⟩ := hT.follows hw hpx rfl hlt'
          · obtain rfl | hbef | hbef := hbef
            · exact absurd hlt' (Nat.lt_irrefl _)
            · exact absurd hle (Nat.not_le_of_lt hbef)
            · exact absurd hlt' (Nat.not_lt_of_gt hbef.2)
          · have hov := List.find?_some hy
            have hsz' : ((c.writeBuffers t).registers x).size = g.blkSize := hsz
            rw [hsz'] at hov
            exact hne (hb.trans (blkAddr_of_overlaps (hT.shape hm).1 (hT.shape hm).2 hal hov))
        · cases h
      · cases h
    · split at h
      · cases h
      · -- the writeback overlaps the miss and would have been found
        next hnone =>
        obtain rfl : m = r' := by simpa using h
        have hno := List.find?_eq_none.1 hnone r hwr
        have hsz : ((c.mshrQueues t).registers m).size = g.blkSize := (hT.shape hm).2
        rw [hsz] at hno
        exact hno (overlaps_of_blkAddr (hT.shape hm).1 hb)
  · cases h

end

/-! ## The caches -/

/-- The write buffer of thread `t` holds a dirty writeback of the block of `addr`
that was not sent. -/
def WritesBack (g : Geometry) (c : Control) (t addr : Nat) : Prop :=
  ∃ r ∈ (c.writeBuffers t).allocatedList, ((c.writeBuffers t).registers r).inService = false ∧
    ((c.writeBuffers t).registers r).isWriteback = true ∧
    g.blkAddr ((c.writeBuffers t).registers r).addr = g.blkAddr addr

/-- Register `ref` was queued after such a writeback of its block. -/
def Overtakes (g : Geometry) (c : Control) (ref : MshrRef) (t : Nat) : Prop :=
  ∃ r ∈ (c.writeBuffers t).allocatedList, ((c.writeBuffers t).registers r).inService = false ∧
    ((c.writeBuffers t).registers r).isWriteback = true ∧
    g.blkAddr ((c.writeBuffers t).registers r).addr = g.blkAddr (c.mshr ref).addr ∧
    ((c.writeBuffers t).registers r).order < (c.mshr ref).order

instance (g : Geometry) (c : Control) (t addr : Nat) : Decidable (WritesBack g c t addr) :=
  inferInstanceAs (Decidable (∃ r ∈ _, _))

instance (g : Geometry) (c : Control) (ref : MshrRef) (t : Nat) : Decidable (Overtakes g c ref t) :=
  inferInstanceAs (Decidable (∃ r ∈ _, _))

section

variable {ε : Type} {g : Geometry} {n k : Nat} {P : Policy ε} {view : Nat → Nat → Prop} {s s' : State ε} {c : Control}
  {w : MshrRef}

open State Storage

instance (P : Policy ε) (st : Storage ε) (pkt : Packet) : Decidable (Unmet P st pkt) :=
  match h : P.lookup st.tags pkt.addr pkt.threadID with
  | none => .isTrue fun f hf => by rw [h] at hf; cases hf
  | some f => decidable_of_iff (permits pkt (st.tags.blks f) = false ∧ pkt.cmd ≠ .writeback)
      ⟨fun hf f' hf' => by rw [h] at hf'; exact Option.some.inj hf' ▸ hf, fun hu => hu f h⟩

/-- A cacheable request that is not satisfied finds no writeback of its block in
the buffers of other threads, and a prefetch that is tried finds none at all. -/
def HeedOk (n : Nat) (P : Policy ε) (s : State ε) : Action → Prop
  | .recvTimingReq pkt => pkt.req.isUncacheable = false → Unmet P s.store pkt →
      ∀ t < n, t ≠ pkt.threadID → ¬WritesBack s.geo s.ctl t pkt.addr
  | .send tid env => ∀ pf ∈ env.prefetch, selectMSHR s.ctl s.now tid = none →
      ∀ t < n, ¬WritesBack s.geo s.ctl t pf.addr
  | _ => True

instance (n : Nat) (P : Policy ε) (s : State ε) (a : Action) : Decidable (HeedOk n P s a) := by
  unfold HeedOk
  induction a using Action.casesOn <;> infer_instance

theorem Unsent.writesBack {addr : Nat} (hw : Unsent c w) (hb : g.blkAddr (c.mshr w).addr = g.blkAddr addr) :
    WritesBack g c w.tid addr := by
  obtain ⟨b, t, r⟩ := w
  obtain rfl : b = true := hw.inWriteBuffer
  exact ⟨r, hw.live, hw.unsent, hw.writeback, hb⟩

/-! ### Newcomers -/

theorem admits_none (n : Nat) (g : Geometry) (c : Control) : Admits n g (fun _ _ _ => False) c :=
  ⟨fun _ h => h.elim, fun h => h.elim⟩

theorem admits_queued (hT : Timely n g s.now s.ctl) (wbs : List Packet) : Admits n g (Queued g s.now wbs) s.ctl where
  queued hw hn := by
    obtain ⟨rfl, rfl, -⟩ := hn
    exact fun _ _ => hT.due hw.toPending
  among hn hn' := by
    obtain ⟨-, rfl, -⟩ := hn
    obtain ⟨rfl, rfl, -⟩ := hn'
    exact fun _ _ => Nat.le_refl _

theorem admits_brought {pkt : Packet} {wbs : List Packet} (hg : s.geo = g) (hT : Timely n g s.now s.ctl)
    (hok : HeedOk n P s (.recvTimingReq pkt)) : Admits n g (Brought P g s { pkt with origin := none } wbs) s.ctl where
  queued {w b time p} hw hn := by
    obtain ⟨rfl, -, rfl, hu⟩ | hn := hn
    · cases b with
      | true => exact fun _ _ => hT.due hw.toPending
      | false =>
        intro hc hlt hb
        refine ⟨?_, hT.due hw.toPending⟩
        by_contra hne
        have hun : Unmet P s.store { pkt with origin := none } := hu.resolve_left fun h => by rw [hc] at h; cases h
        exact hok hc hun w.tid hlt hne (hg ▸ hw.writesBack hb)
    · exact (admits_queued hT wbs).queued hw hn
  among {time b time' p p'} hn hn' := by
    have htime : time = time' := by
      obtain ⟨-, -, rfl, -⟩ | ⟨-, rfl, -⟩ := hn <;> obtain ⟨-, -, rfl, -⟩ | ⟨-, rfl, -⟩ := hn' <;> rfl
    cases b with
    | true => exact fun _ _ => htime.le
    | false =>
      intro _ _ _
      refine ⟨?_, htime.le⟩
      -- only the request itself can miss, and then there are no writebacks
      obtain ⟨rfl, hw, -⟩ | ⟨h, -⟩ := hn'
      · obtain ⟨rfl, -⟩ | ⟨-, -, hp⟩ := hn
        · rfl
        · rw [hw] at hp
          cases hp
      · cases h

theorem admits_prefetched {tid : Nat} {env : SendEnv} (hg : s.geo = g) (hok : HeedOk n P s (.send tid env)) :
    Admits n g (Prefetched P g s tid env.prefetch) s.ctl where
  queued {w b time p} hw hn := by
    obtain ⟨rfl, -, hs, q, hq, rfl, -⟩ := hn
    intro _ hlt hb
    exact absurd (hg ▸ hw.writesBack hb) (hok q hq hs w.tid hlt)
  among hn _ := by
    obtain ⟨h, -⟩ := hn
    cases h

/-! ### Steps -/

theorem Moves.timely {a : Action} (hS : Sound k g s) (hT : Timely n g s.now s.ctl) (hok : HeedOk n P s a)
    (h : Moves P g s a s') : Timely n g s'.now s'.ctl := by
  cases h with
  | advance ticks => exact hT.advance
  | request _ hc hr =>
    rw [hr.now]
    exact hT.run hS.ctl (admits_brought hS.geo hT hok) hc
  | unasked => exact hT
  | response _ _ _ _ _ hc _ hn _ _ =>
    rw [hn]
    exact hT.run hS.ctl (admits_queued hT _) hc
  | snoop _ hc hr _ =>
    rw [hr.now]
    exact hT.run hS.ctl (admits_none ..) hc
  | idle => exact hT
  | failed _ hp _ _ _ hc hrest =>
    rw [hrest.now]
    exact (hT.run hS.ctl (admits_prefetched hS.geo hok) hp).run (hp.ok hS.ctl) (admits_none ..) hc
  | sent hs₁ hp _ _ _ hd =>
    have hrun := hd.run
    rw [hd.now]
    rw [hs₁] at hrun ⊢
    exact (hT.run hS.ctl (admits_prefetched hS.geo hok) hp).run (hp.ok hS.ctl) (admits_none ..) hrun

/-- A prefetch does not touch the writes. -/
theorem Unsent.of_run {now : Nat} {new : Newcomer} {c' : Control} (hc : CtlOk g c) (hp : Plain c)
    (hnew : ∀ time p, ¬new true time p) (h : CtlRun g now none new c c') (hw : Unsent c' w) :
    Unsent c w ∧ (c'.mshr w).addr = (c.mshr w).addr := by
  suffices h' : Plain c' ∧ ∀ w, Unsent c' w → Unsent c w ∧ (c'.mshr w).addr = (c.mshr w).addr from h'.2 w hw
  clear hw
  induction h with
  | refl => exact ⟨hp, fun w hw => ⟨hw, rfl⟩⟩
  | tail hr h ih =>
    have hc' := CtlRun.ok hc hr
    refine ⟨h.plain hc' ih.1, fun w hw => ?_⟩
    obtain ho | ⟨p, hp⟩ := h.pending hc' ih.1 hw.toPending
    · obtain ⟨h1, h2⟩ := ih.2 w (ho.unsent hw)
      exact ⟨h1, ho.addr.trans h2⟩
    · exact absurd hp.allowed (hnew _ _)

theorem allocateBufferInternal_addr {c c' : Control} {inWb : Bool} {now addr size time : Nat} {pkt : Packet}
    {ref : MshrRef}
    (h : c.allocateBufferInternal inWb now addr size pkt time = .ok (c', ref)) : (c'.mshr ref).addr = addr := by
  simp only [Control.allocateBufferInternal, bind_ok] at h
  obtain ⟨⟨q, r⟩, hq, c₁, hc, h⟩ := h
  cases h
  have hqq := (Control.queue_putQueue c ⟨inWb, pkt.threadID, 0⟩ ⟨inWb, pkt.threadID, r⟩ q).1 ⟨rfl, rfl⟩
  obtain ⟨free, m, l, -, hm, -, rfl⟩ := MshrQueue.allocate_ok hq
  rw [Control.mshr, (setBlockedIf_same hc).queue]
  show (((c.putQueue ⟨inWb, pkt.threadID, 0⟩ _).queue ⟨inWb, pkt.threadID, r⟩).registers r).addr = addr
  rw [hqq]
  simp only [MshrQueue.put, Function.update_self]
  exact (mshr_allocate_ok hm).1

/-- The register is the one that was selected, or of the prefetched block. -/
theorem getNextMSHR_addr {tid : Nat} {pf : Option Prefetch} {ref : MshrRef} (hg : s.geo = g)
    (h : s.getNextMSHR P tid pf = .ok (s', some ref)) : selectMSHR s.ctl s.now tid = some ref ∧ s' = s ∨
      selectMSHR s.ctl s.now tid = none ∧ ∃ q, pf = some q ∧ (s'.ctl.mshr ref).addr = blockAlign g q.addr := by
  unfold getNextMSHR at h
  split at h
  · next hs =>
    cases h
    exact .inl ⟨hs, rfl⟩
  · next hs =>
    split at h
    · cases h
    · next q =>
      simp only [hg] at h
      split at h
      · simp only [Control.allocateMissBuffer, bind_ok] at h
        obtain ⟨-, -, ⟨ctl, ref⟩, ⟨-, -, hb⟩, h⟩ := h
        cases h
        exact .inr ⟨hs, q, rfl, allocateBufferInternal_addr hb⟩
      · cases h

/-- The register of a cacheable miss that `getNextMSHR` returns overtakes no
writeback in the buffers of the first `n` threads. -/
def MissesWait (n : Nat) (P : Policy ε) (s : State ε) : Prop :=
  ∀ tid env s' ref, HeedOk n P s (.send tid env) → s.getNextMSHR P tid env.prefetch = .ok (s', some ref) →
    ref.inWriteBuffer = false → (s'.ctl.mshr ref).isUncacheable = false → ∀ t < n, ¬Overtakes s.geo s'.ctl ref t

theorem Timely.missesWait (hS : Sound k g s) (hT : Timely n g s.now s.ctl) : MissesWait n P s := by
  intro tid env s' ref hok h hq hu t ht ⟨r, hr, hi, hwb, hb, hlt⟩
  have hw : Unsent s'.ctl ⟨true, t, r⟩ := ⟨⟨rfl, hr, hi⟩, hwb⟩
  rw [hS.geo] at hb
  obtain ⟨-, hrun, -, hready⟩ := getNextMSHR_moves hS.geo h
  obtain ⟨hsel, rfl⟩ | ⟨hsel, q, hpf, haddr⟩ := getNextMSHR_addr hS.geo h
  · have hm : Miss s'.ctl ref := ⟨hq, ((ready_iff hS.ctl).1 (hready ref rfl).1).1, hu⟩
    exact hT.select hS.ctl hsel hm hw ht hb hlt
  · obtain ⟨hw₀, ha⟩ := Unsent.of_run hS.ctl hT.plain (fun _ _ hn => by cases hn.1) hrun hw
    have hb' : g.blkAddr (s.ctl.mshr ⟨true, t, r⟩).addr = g.blkAddr q.addr := by
      rw [← ha, ← blkAddr_blockAlign g q.addr, ← haddr]
      exact hb
    exact hok q hpf hsel t ht (hS.geo ▸ hw₀.writesBack hb')

end

namespace CDynamic

variable {s s' : State Ext} {g : Geometry} {n : Nat}

/-- Moreover a dirty block that a resize writes back has no writeback in the buffer that it goes to. -/
def HeedOk (n : Nat) (s : State Ext) : Act → Prop
  | .cache a => Cache.HeedOk n policy s a
  | .adjustPartition .inc => s.store.tags.assocOfTc 1 ≠ s.store.ext.hMin →
      ∀ i < s.geo.numSets, ∀ f ∈ (s.store.tags.sets 1 i).getLast?, (s.store.tags.blks f).isValid = true →
        (s.store.tags.blks f).isDirty = true →
        ¬WritesBack s.geo s.ctl 1 (s.geo.regenerateBlkAddr (s.store.tags.blks f).tag (s.store.tags.blks f).set)
  | .adjustPartition .dec => 1 < s.store.tags.assocOfTc 0 →
      ∀ i < s.geo.numSets, ∀ f ∈ (s.store.tags.sets 0 i).getLast?, (s.store.tags.blks f).threadID = 0 →
        (s.store.tags.blks f).isValid = true → (s.store.tags.blks f).isDirty = true →
        ¬WritesBack s.geo s.ctl 0 (s.geo.regenerateBlkAddr (s.store.tags.blks f).tag (s.store.tags.blks f).set)
  | .adjustPartition .keep => True

instance (n : Nat) (s : State Ext) (a : Act) : Decidable (HeedOk n s a) := by
  unfold HeedOk
  obtain _ | d := a
  · infer_instance
  · cases d <;> infer_instance

theorem Resized.timely {tc tc' : Nat} {h : CacheBlk → CacheBlk} {mid : Tags.CDynaLru} {fr : Nat → Nat}
    (hS : Sound 2 g s)
    (hT : Timely n g s.now s.ctl) (hR : Resized g tc tc' h s s' mid fr)
    (hok : ∀ i < g.numSets, fr i ∈ (s.store.tags.sets tc i).getLast? →
      (tc = 0 → (s.store.tags.blks (fr i)).threadID = 0) → (s.store.tags.blks (fr i)).isValid = true →
      (s.store.tags.blks (fr i)).isDirty = true → ¬WritesBack g s.ctl tc
        (g.regenerateBlkAddr (s.store.tags.blks (fr i)).tag (s.store.tags.blks (fr i)).set)) :
    Timely n g s'.now s'.ctl := by
  have hgs : s.store.tags.geo = g := hS.geo
  rw [hR.swept.rest.now]
  refine hT.run hS.ctl ⟨fun {w b time p} hw hn => ?_, fun hn hn' => ?_⟩ hR.run
  · obtain ⟨i, hi, h0, rfl, rfl, hv, hd, rfl⟩ := hn
    intro ht hb
    have hlast : fr i ∈ (s.store.tags.sets tc i).getLast? := by
      rw [hR.moved.shrunk i (hgs ▸ hi)]
      simp
    have hb' : g.blkAddr (s.ctl.mshr w).addr = g.blkAddr
        (g.regenerateBlkAddr (s.store.tags.blks (fr i)).tag (s.store.tags.blks (fr i)).set) := by
      rw [hb, ← hgs]
      rfl
    have ht' : w.tid = tc := ht
    exact absurd (ht' ▸ hw.writesBack hb') (hok i hi hlast h0 hv hd)
  · obtain ⟨_, -, -, -, rfl, -⟩ := hn
    obtain ⟨_, -, -, rfl, rfl, -⟩ := hn'
    exact fun _ _ => Nat.le_refl _

theorem step_timely {a : Act} (hS : Sound 2 g s) (hT : Timely n g s.now s.ctl) (hok : HeedOk n s a)
    (h : step s a = .ok s') : Timely n g s'.now s'.ctl := by
  have hgs : s.geo = g := hS.geo
  cases a with
  | cache a => exact (step_moves lawful hS h).timely hS hT hok
  | adjustPartition d =>
    cases adjustPartition_adjusts hS.frames hS.geo h with
    | stay e => exact hT
    | @grow _ mid fr hne hR =>
      refine hR.timely hS hT fun i hi hl _ hv hd => ?_
      have := hok hne i (hgs ▸ hi) (fr i) hl hv hd
      rwa [hgs] at this
    | @shrink _ mid fr hne hR =>
      refine hR.timely hS hT fun i hi hl h0 hv hd => ?_
      have := hok hne i (hgs ▸ hi) (fr i) hl (h0 rfl) hv hd
      rwa [hgs] at this

end CDynamic

namespace FDynamic

def HeedOk (n : Nat) (s : State Unit) : Act → Prop
  | .cache a => Cache.HeedOk n policy s a
  | .adjustPartition => True

instance (n : Nat) (s : State Unit) (a : Act) : Decidable (HeedOk n s a) := by
  unfold HeedOk
  induction a using Act.casesOn <;> infer_instance

theorem step_timely {g : Geometry} {n : Nat} {s s' : State Unit} {a : Act} (hI : Fit g s) (hT : Timely n g s.now s.ctl)
    (hok : HeedOk n s a) (h : step s a = .ok s') : Timely n g s'.now s'.ctl := by
  obtain ⟨-, rfl⟩ | ⟨b, rfl, hb⟩ := step_cases hI h
  · exact hT
  · exact (step_moves lawful hI.sound hb).timely hI.sound hT hok

end FDynamic

/-! ## Runs -/

/-- Thread 1 writes a block and replaces it, thread 0 asks for it. -/
def readAfterForeignWriteback : List Action :=
  Small.load 1 0 false ++ [Small.write 1 0 7] ++ Small.load 1 4 false ++ [Small.read 0 0, .advance 1]

/-- `getNextMSHR` of thread `t` returns its first register, for a cacheable miss of block 0. -/
def ReturnsMiss {ε : Type} (P : Policy ε) (s : State ε) (t : Nat) : Prop :=
  s.getNextMSHR P t none = .ok (s, some ⟨false, t, 0⟩) ∧ (s.ctl.mshr ⟨false, t, 0⟩).isUncacheable = false ∧
    s.geo.blkAddr (s.ctl.mshr ⟨false, t, 0⟩).addr = 0

theorem getNextMSHR_eq_iff {ε : Type} (P : Policy ε) (s : State ε) (tid : Nat) (ref : MshrRef) :
    State.selectMSHR s.ctl s.now tid = some ref ↔ s.getNextMSHR P tid none = .ok (s, some ref) := by
  unfold State.getNextMSHR
  constructor
  · intro h
    rw [h]
  · intro h
    split at h
    · next hs =>
      rw [hs]
      cases h
      rfl
    · cases h

instance {ε : Type} (P : Policy ε) (s : State ε) (t : Nat) : Decidable (ReturnsMiss P s t) :=
  decidable_of_iff _ (and_congr_left' (getNextMSHR_eq_iff P s t ⟨false, t, 0⟩))

theorem writeback_overtaken :
    (∃ s, runs Dirty.step (Dirty.init Small.cfg (Small.geo 2 (by decide)) 1 4 4) readAfterForeignWriteback = .ok s ∧
      ReturnsMiss Dirty.policy s 0 ∧ Overtakes s.geo s.ctl ⟨false, 0, 0⟩ 1) ∧
    (∃ s, runs FDynamic.step (FDynamic.init Small.cfg (Small.geo 2 (by decide)) 1 4 4)
        (readAfterForeignWriteback.map .cache) = .ok s ∧
      ReturnsMiss FDynamic.policy s 0 ∧ Overtakes s.geo s.ctl ⟨false, 0, 0⟩ 1) ∧
    ∃ s, runs CDynamic.step (CDynamic.init Small.cfg ⟨Small.geo 2 (by decide), 1, 1, 1, by decide⟩ 4 4)
        (readAfterForeignWriteback.map .cache) = .ok s ∧
      ReturnsMiss CDynamic.policy s 0 ∧ Overtakes s.geo s.ctl ⟨false, 0, 0⟩ 1 :=
  ⟨by decide +kernel, by decide +kernel, by decide +kernel⟩

/-- In every run in which no cacheable request that is not satisfied and no
prefetch finds a writeback of its block in the buffer of another thread, and no
resize writes a block back that its buffer holds already, `getNextMSHR` returns
no cacheable miss while a writeback of its block that was queued before it waits in
the write buffer of one of the first `n` threads. -/
theorem misses_follow_writebacks (n : Nat) (cfg : Config) (mshrs writeBuffers : Nat) :
    (∀ (geo : Geometry) (maxMasters : Nat) (as : List Action) (s : State Unit),
      Always Dirty.step (HeedOk n Dirty.policy) (Dirty.init cfg geo maxMasters mshrs writeBuffers) as →
      runs Dirty.step (Dirty.init cfg geo maxMasters mshrs writeBuffers) as = .ok s → MissesWait n Dirty.policy s) ∧
    (∀ (geo : Geometry) (maxMasters : Nat) (as : List FDynamic.Act) (s : State Unit),
      Always FDynamic.step (FDynamic.HeedOk n) (FDynamic.init cfg geo maxMasters mshrs writeBuffers) as →
      runs FDynamic.step (FDynamic.init cfg geo maxMasters mshrs writeBuffers) as = .ok s →
      MissesWait n FDynamic.policy s) ∧
    ∀ (p : CDynaParams) (as : List CDynamic.Act) (s : State CDynamic.Ext),
      Always CDynamic.step (CDynamic.HeedOk n) (CDynamic.init cfg p mshrs writeBuffers) as →
      runs CDynamic.step (CDynamic.init cfg p mshrs writeBuffers) as = .ok s → MissesWait n CDynamic.policy s := by
  refine ⟨fun geo maxMasters as s hok hr => ?_, fun geo maxMasters as s hok hr => ?_, fun p as s hok hr => ?_⟩
  · have hI : Sound 2 geo s ∧ Timely n geo s.now s.ctl :=
      runs_invariant (fun s => Sound 2 geo s ∧ Timely n geo s.now s.ctl)
        (fun s a s' hs ha h =>
          ⟨step_sound Dirty.lawful hs.1 h, (step_moves Dirty.lawful hs.1 h).timely hs.1 hs.2 ha⟩)
        ⟨Dirty.sound_init cfg geo maxMasters mshrs writeBuffers, timely_init n geo 0 mshrs writeBuffers⟩ hok hr
    exact hI.2.missesWait hI.1
  · have hI : FDynamic.Fit geo s ∧ Timely n geo s.now s.ctl :=
      runs_invariant (fun s => FDynamic.Fit geo s ∧ Timely n geo s.now s.ctl)
        (fun s a s' hs ha h => ⟨FDynamic.step_fit hs.1 h, FDynamic.step_timely hs.1 hs.2 ha h⟩)
        ⟨FDynamic.fit_init cfg geo maxMasters mshrs writeBuffers, timely_init n geo 0 mshrs writeBuffers⟩ hok hr
    exact hI.2.missesWait hI.1.sound
  · have hI : Sound 2 p.geo s ∧ Timely n p.geo s.now s.ctl :=
      runs_invariant (fun s => Sound 2 p.geo s ∧ Timely n p.geo s.now s.ctl)
        (fun s a s' hs ha h => ⟨CDynamic.step_sound hs.1 h, CDynamic.step_timely hs.1 hs.2 ha h⟩)
        ⟨CDynamic.sound_init cfg p mshrs writeBuffers, timely_init n p.geo 0 mshrs writeBuffers⟩ hok hr
    exact hI.2.missesWait hI.1

/-- Thread 1 writes a block, replaces it and asks for it again; the writeback is sent first. -/
def readAfterOwnWriteback : List Action :=
  Small.load 1 0 false ++ [Small.write 1 0 7] ++ Small.load 1 4 false ++ [Small.read 1 0, .advance 1, Small.send 1]

theorem MissesWait.of_returns {ε : Type} {P : Policy ε} {s : State ε} {n t : Nat} (hw : MissesWait n P s)
    (h : ReturnsMiss P s t) : ∀ t' < n, ¬Overtakes s.geo s.ctl ⟨false, t, 0⟩ t' :=
  hw t {} s _ (fun pf hpf => by cases hpf) h.1 rfl h.2.1

theorem misses_follow_writebacks_own :
    (∃ s, runs Dirty.step (Dirty.init Small.cfg (Small.geo 2 (by decide)) 1 4 4) readAfterOwnWriteback = .ok s ∧
      ReturnsMiss Dirty.policy s 1 ∧ ∀ t < 2, ¬Overtakes s.geo s.ctl ⟨false, 1, 0⟩ t) ∧
    (∃ s, runs FDynamic.step (FDynamic.init Small.cfg (Small.geo 2 (by decide)) 1 4 4)
        (readAfterOwnWriteback.map .cache) = .ok s ∧
      ReturnsMiss FDynamic.policy s 1 ∧ ∀ t < 2, ¬Overtakes s.geo s.ctl ⟨false, 1, 0⟩ t) ∧
    ∃ s, runs CDynamic.step (CDynamic.init Small.cfg ⟨Small.geo 2 (by decide), 1, 1, 1, by decide⟩ 4 4)
        (readAfterOwnWriteback.map .cache) = .ok s ∧
      ReturnsMiss CDynamic.policy s 1 ∧ ∀ t < 2, ¬Overtakes s.geo s.ctl ⟨false, 1, 0⟩ t := by
  refine ⟨exists_ok (fun s => ReturnsMiss Dirty.policy s 1) (by decide +kernel) fun s hs h => ⟨h, ?_⟩,
    exists_ok (fun s => ReturnsMiss FDynamic.policy s 1) (by decide +kernel) fun s hs h => ⟨h, ?_⟩,
    exists_ok (fun s => ReturnsMiss CDynamic.policy s 1) (by decide +kernel) fun s hs h => ⟨h, ?_⟩⟩
  · exact ((misses_follow_writebacks 2 _ _ _).1 _ _ _ s (by decide +kernel) hs).of_returns h
  · exact ((misses_follow_writebacks 2 _ _ _).2.1 _ _ _ s (by decide +kernel) hs).of_returns h
  · exact ((misses_follow_writebacks 2 _ _ _).2.2 _ _ s (by decide +kernel) hs).of_returns h

end DynamicCache.Cache
