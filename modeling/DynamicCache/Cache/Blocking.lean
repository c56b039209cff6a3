import DynamicCache.Cache.Asserts
import DynamicCache.Cache.Lawful

/-!
# Which threads are blocked (`split_rport_cache.hh`)

A thread is blocked while it has a cause: its miss registers are used up, its
write buffer is full, or one of its registers has no room for another target.
The port keeps a flag of its own, and asserts that the flag agrees with the
causes.  It always does (`Blocking`): a full queue's cause stays set until the
queue has room, and the register in `noTargetMSHR` stays allocated until its
response, since it has at least two targets.

There is one `noTargetMSHR` for all threads.  When a second thread's register
fills up the first one is forgotten, and its thread stays blocked after the
response (`second_full_register_forgets_first`).  As long as a register gets its
last target only while `noTargetMSHR` is null, it is the register of the thread
that is blocked for lack of targets (`blocked_threads`).
-/

namespace DynamicCache.Cache

open Lib Tags

variable {ε : Type}

/-! ## Causes and the port's flag -/

namespace Control

variable {c : Control} {cause cause' : BlockedCause} {t t' : Nat}

/-- The port refuses the threads that have a cause. -/
def Ported (c : Control) : Prop := ∀ t, c.portBlocked t = c.isBlocked t

theorem isBlocked_iff : c.isBlocked t = true ↔ ∃ cause, c.blocked t cause = true := by
  simp only [isBlocked, Bool.or_eq_true]
  constructor
  · rintro ((h | h) | h)
    · exact ⟨_, h⟩
    · exact ⟨_, h⟩
    · exact ⟨_, h⟩
  · rintro ⟨cause, h⟩
    cases cause with
    | noMSHRs => exact .inl (.inl h)
    | noWBBuffers => exact .inl (.inr h)
    | noTargets => exact .inr h

theorem blocked_putBlocked (c : Control) (t t' : Nat) (cause cause' : BlockedCause) (v : Bool) :
    (c.putBlocked t cause v).blocked t' cause' = if t' = t ∧ cause' = cause then v else c.blocked t' cause' := by
  unfold putBlocked
  by_cases ht : t' = t
  · subst ht
    simp [Function.update_apply]
  · simp [ht]

theorem isBlocked_putBlocked_of_ne (c : Control) (cause : BlockedCause) (v : Bool) (h : t' ≠ t) :
    (c.putBlocked t cause v).isBlocked t' = c.isBlocked t' := by
  simp [isBlocked, blocked_putBlocked, h]

/-- The control state after `setBlocked`. -/
def raised (c : Control) (cause : BlockedCause) (t : Nat) : Control :=
  { c.putBlocked t cause true with portBlocked := Function.update c.portBlocked t true }

/-- The control state after `clearBlocked`. -/
def lowered (c : Control) (cause : BlockedCause) (t : Nat) : Control :=
  if (c.putBlocked t cause false).isBlocked t then c.putBlocked t cause false
  else { c.putBlocked t cause false with
    portBlocked := Function.update c.portBlocked t false
    mustSendRetry := false }

theorem setBlocked_eq (h : c.Ported) (cause : BlockedCause) (t : Nat) :
    c.setBlocked cause t = .ok (c.raised cause t) := by
  unfold setBlocked
  split
  · next hb =>
    have hp : Function.update c.portBlocked t true = c.portBlocked := by
      rw [← hb, ← h t, Function.update_eq_self]
    rw [raised, hp]
    rfl
  · next hb =>
    have hp : c.portBlocked t = false := by
      rw [h t]
      simpa using hb
    rw [hp]
    rfl

/-- `clearBlocked` may only be called for a thread that is blocked. -/
theorem clearBlocked_eq (h : c.Ported) (hb : c.isBlocked t = true) (cause : BlockedCause) :
    c.clearBlocked cause t = .ok (c.lowered cause t) := by
  have hp : c.portBlocked t = true := (h t).trans hb
  simp only [clearBlocked, lowered]
  split
  · rfl
  · show (check Fault.portAssertion (c.portBlocked t) >>= fun _ => _) = _
    rw [hp]
    rfl

theorem blocked_raised :
    (c.raised cause t).blocked t' cause' = (if t' = t ∧ cause' = cause then true else c.blocked t' cause') :=
  blocked_putBlocked c t t' cause cause' true

theorem blocked_lowered :
    (c.lowered cause t).blocked t' cause' = (if t' = t ∧ cause' = cause then false else c.blocked t' cause') := by
  rw [← blocked_putBlocked c t t' cause cause' false]
  unfold lowered
  split <;> rfl

theorem Ported.raised (h : c.Ported) (cause : BlockedCause) (t : Nat) : (c.raised cause t).Ported := by
  intro t'
  by_cases ht : t' = t
  · subst ht
    have h1 : (c.raised cause t').isBlocked t' = true := isBlocked_iff.2 ⟨cause, by simp [blocked_raised]⟩
    rw [h1]
    exact Function.update_self ..
  · show Function.update c.portBlocked t true t' = (c.putBlocked t cause true).isBlocked t'
    rw [Function.update_of_ne ht, isBlocked_putBlocked_of_ne c cause true ht]
    exact h t'

theorem Ported.lowered (h : c.Ported) (hb : c.isBlocked t = true) (cause : BlockedCause) :
    (c.lowered cause t).Ported := by
  intro t'
  have hne : t' ≠ t → (c.putBlocked t cause false).isBlocked t' = c.isBlocked t' :=
    isBlocked_putBlocked_of_ne c cause false
  unfold Control.lowered
  split
  · next hs =>
    by_cases ht : t' = t
    · rw [ht, hs]
      exact (h t).trans hb
    · rw [hne ht]
      exact h t'
  · next hs =>
    show Function.update c.portBlocked t false t' = (c.putBlocked t cause false).isBlocked t'
    by_cases ht : t' = t
    · rw [ht, Function.update_self]
      simpa using hs
    · rw [Function.update_of_ne ht, hne ht]
      exact h t'

theorem raised_same (c : Control) (cause : BlockedCause) (t : Nat) : SameQueues c (c.raised cause t) := ⟨rfl, rfl, rfl⟩

theorem lowered_same (c : Control) (cause : BlockedCause) (t : Nat) : SameQueues c (c.lowered cause t) := by
  unfold lowered
  split <;> exact ⟨rfl, rfl, rfl⟩

theorem noTargetMSHR_lowered (c : Control) (cause : BlockedCause) (t : Nat) :
    (c.lowered cause t).noTargetMSHR = c.noTargetMSHR := by
  unfold lowered
  split <;> rfl

theorem fullCause_ne (w : Bool) : fullCause w ≠ .noTargets := by
  cases w <;> exact nofun

theorem fullCause_inj {w w' : Bool} (h : fullCause w = fullCause w') : w = w' := by
  revert h
  cases w <;> cases w' <;> exact fun h => by first | rfl | cases h

end Control

/-! ## Queues -/

/-- No target is served. -/
structure Mshr.Grows (m m' : Mshr) : Prop where
  inService : m'.inService = m.inService
  targets : m.targets.list.length ≤ m'.targets.list.length

variable {g : Geometry} {ref : MshrRef} {pkt : Packet} {m : Mshr} {now order time : Nat} {wasFull : Bool}
  {c : Control}

theorem mshr_allocateTarget_grows {m' : Mshr} (h : m.allocateTarget now pkt time order = .ok m') :
    m.Grows m' := by
  refine ⟨(mshr_allocateTarget_alike h).inService, ?_⟩
  simp only [Mshr.allocateTarget, bind_ok] at h
  obtain ⟨-, -, h⟩ := h
  split at h <;> cases h
  · exact Nat.le_refl _
  · simp [TargetList.add]

theorem mshr_handleSnoop_grows (m : Mshr) (now order : Nat) (pkt : Packet) :
    m.Grows (m.handleSnoop now pkt order).1 := by
  refine ⟨(mshr_handleSnoop_alike ..).inService, ?_⟩
  obtain ⟨ts, ds, n, inval, down, he, -, ht, -⟩ := m.handleSnoop_cases now pkt order
  rw [he]
  obtain ⟨ht, -⟩ | ⟨rfl, -⟩ := ht
  · exact (RegOk.length_of_replaced ht).ge
  · simp [TargetList.add]

theorem shareWriteback_grows (m : Mshr) (x : Target) : m.Grows (State.shareWriteback m x) := by
  refine ⟨rfl, ?_⟩
  simp only [State.shareWriteback, List.length_cons, List.length_tail]
  omega

namespace MshrQueue

variable {q q' : MshrQueue} {r r₀ : Nat} {m : Mshr}

/-- Register `r` is allocated, and sending its request does not free it. -/
structure Holds (q : MshrQueue) (r : Nat) : Prop where
  allocated : r ∈ q.allocatedList
  taken : r ∉ q.freeList
  targets : (q.registers r).inService = false → 1 < (q.registers r).targets.list.length

/-- No register was allocated. -/
structure Shrinks (q q' : MshrQueue) : Prop where
  allocated : q'.allocated ≤ q.allocated
  numEntries : q'.numEntries = q.numEntries
  numReserve : q'.numReserve = q.numReserve

theorem Shrinks.full (h : Shrinks q q') (hf : q'.isFull = true) : q.isFull = true := by
  have h1 := h.allocated
  simp only [isFull, h.numEntries, h.numReserve, decide_eq_true_eq] at hf ⊢
  omega

theorem Shrinks.pos (h : Shrinks q q') (hf : q.isFull = true) (hn : q'.isFull = false) : 0 < q.allocated := by
  simp only [isFull, h.numEntries, h.numReserve, decide_eq_true_eq, decide_eq_false_iff_not] at hf hn
  omega

theorem put_shrinks (q : MshrQueue) (r : Nat) (m : Mshr) : Shrinks q (q.put r m) := ⟨Nat.le_refl _, rfl, rfl⟩

theorem Shrinks.trans {q'' : MshrQueue} (h : Shrinks q q') (h' : Shrinks q' q'') : Shrinks q q'' :=
  ⟨h'.allocated.trans h.allocated, h'.numEntries.trans h.numEntries, h'.numReserve.trans h.numReserve⟩

theorem Holds.put (h : q.Holds r) (hm : r = r₀ → m.inService = false → 1 < m.targets.list.length) :
    (q.put r₀ m).Holds r := by
  refine ⟨h.allocated, h.taken, ?_⟩
  rw [put_registers]
  split
  · next he => exact hm he
  · exact h.targets

/-- Another register in its place changes nothing. -/
theorem Holds.of_ne (h : q.Holds r) (hne : r ≠ r₀) : (q.put r₀ m).Holds r := h.put fun he => absurd he hne

theorem Holds.allocate {addr size : Nat} (h : q.Holds r)
    (ha : q.allocate now addr size pkt time order = .ok (q', r₀)) : q'.Holds r := by
  obtain ⟨free, m, l, hf, -, -, rfl⟩ := allocate_ok ha
  have ht := h.taken
  rw [hf, List.mem_cons, not_or] at ht
  exact ⟨List.mem_append_left _ h.allocated, ht.2, (h.of_ne ht.1).targets⟩

theorem deallocate_shrinks (h : q.deallocate r = .ok q') : Shrinks q q' := by
  obtain ⟨m, -, rfl⟩ := deallocate_ok h
  exact ⟨Nat.sub_le _ _, rfl, rfl⟩

theorem Holds.deallocate (h : q.Holds r) (hne : r ≠ r₀) (hd : q.deallocate r₀ = .ok q') : q'.Holds r := by
  obtain ⟨m, -, rfl⟩ := deallocate_ok hd
  refine ⟨(List.mem_erase_of_ne hne).2 h.allocated, ?_, (h.of_ne hne).targets⟩
  exact List.not_mem_cons_of_ne_of_not_mem hne h.taken

theorem markPending_shrinks (h : q.markPending r = .ok q') : Shrinks q q' := by
  simp only [markPending, bind_ok] at h
  obtain ⟨-, -, h⟩ := h
  obtain ⟨l, rfl, -⟩ := addToReadyList_ok h
  exact ⟨Nat.le_refl _, rfl, rfl⟩

theorem Holds.markPending (h : q.Holds r) (hne : r ≠ r₀) (hp : q.markPending r₀ = .ok q') : q'.Holds r := by
  simp only [MshrQueue.markPending, bind_ok] at hp
  obtain ⟨-, -, hp⟩ := hp
  obtain ⟨l, rfl, -⟩ := addToReadyList_ok hp
  exact ⟨h.allocated, h.taken, (h.of_ne hne).targets⟩

/-- Sending frees a register only when it has one target. -/
theorem markInService_cases (h : q.markInService r₀ pkt = .ok q') :
    ((q.registers r₀).inService = false ∧ (q.registers r₀).targets.list.length ≤ 1 ∧
        (q.put r₀ (q.registers r₀).popTarget).deallocate r₀ = .ok q') ∨
      ∃ m l n, q' = { q.put r₀ m with readyList := l, inServiceEntries := n } ∧ m.inService = true := by
  simp only [markInService, bind_ok] at h
  obtain ⟨⟨m, done⟩, hm, h⟩ := h
  obtain ⟨hs, ⟨rfl, -, rfl⟩ | ⟨rfl, hs', -⟩⟩ := mshr_markInService_ok hm
  · refine .inl ⟨hs, ?_, h⟩
    obtain ⟨m, hd, -⟩ := deallocate_ok h
    have he := (mshr_deallocate_ok hd).1
    rw [put_registers, if_pos rfl] at he
    have hl : (q.registers r₀).targets.list.tail.length = 0 := List.length_eq_zero_iff.2 he
    rw [List.length_tail] at hl
    omega
  · cases h
    exact .inr ⟨_, _, _, rfl, hs'⟩

theorem markInService_shrinks (h : q.markInService r₀ pkt = .ok q') : Shrinks q q' := by
  obtain ⟨-, -, h⟩ | ⟨m, l, n, rfl, -⟩ := markInService_cases h
  · exact (put_shrinks q r₀ _).trans (deallocate_shrinks h)
  · exact ⟨Nat.le_refl _, rfl, rfl⟩

theorem Holds.markInService (h : q.Holds r) (hs : q.markInService r₀ pkt = .ok q') : q'.Holds r := by
  obtain ⟨hf, h1, hd⟩ | ⟨m, l, n, rfl, hm⟩ := markInService_cases hs
  · have hne : r ≠ r₀ := by
      rintro rfl
      have := h.targets hf
      omega
    exact (h.of_ne hne).deallocate hne hd
  · have hp : (q.put r₀ m).Holds r := h.put fun _ hf => absurd (hm.symm.trans hf) (by decide)
    exact ⟨hp.allocated, hp.taken, hp.targets⟩

end MshrQueue

/-! ## The invariant -/

/-- The flags fit the queues: the port's flags are the causes, a queue that is
full since an allocation blocks its thread, and `noTargetMSHR` is an allocated
miss register of a thread that is blocked for lack of targets. -/
structure Blocking (c : Control) : Prop where
  port : c.Ported
  full : ∀ ref, (c.queue ref).isFull = true → 0 < (c.queue ref).allocated →
    c.blocked ref.tid (Control.fullCause ref.inWriteBuffer) = true
  last : ∀ ref, c.noTargetMSHR = some ref →
    c.blocked ref.tid .noTargets = true ∧ ref.inWriteBuffer = false ∧ (c.queue ref).Holds ref.reg

/-- A thread is blocked for lack of targets only while `noTargetMSHR` is its register. -/
def Named (c : Control) : Prop := ∀ t, c.blocked t .noTargets = true → ∃ ref, c.noTargetMSHR = some ref ∧ ref.tid = t

/-- What happens besides the last target of a register and its response. -/
structure Steady (c c' : Control) : Prop where
  blocking : Blocking c'
  noTargetMSHR : c'.noTargetMSHR = c.noTargetMSHR
  noTargets : ∀ t, c'.blocked t .noTargets = c.blocked t .noTargets

section

variable {c c' c'' : Control} {ref ref' : MshrRef} {q : MshrQueue} {m : Mshr} {pkt : Packet}
  {now addr size time tid t : Nat}
  {cause : BlockedCause} {inWb : Bool}

theorem Steady.refl (h : Blocking c) : Steady c c := ⟨h, rfl, fun _ => rfl⟩

theorem Steady.trans (h : Steady c c') (h' : Steady c' c'') : Steady c c'' :=
  ⟨h'.blocking, h'.noTargetMSHR.trans h.noTargetMSHR, fun t => (h'.noTargets t).trans (h.noTargets t)⟩

theorem Steady.named (h : Steady c c') (hn : Named c) : Named c' := by
  intro t ht
  rw [h.noTargets] at ht
  rw [h.noTargetMSHR]
  exact hn t ht

/-- The flags do not depend on the order counter. -/
theorem Blocking.withOrder (h : Blocking c) (o : Nat) : Blocking { c with order := o } := ⟨h.port, h.full, h.last⟩

theorem putQueue_flags (c : Control) (ref : MshrRef) (q : MshrQueue) :
    (c.putQueue ref q).blocked = c.blocked ∧ (c.putQueue ref q).portBlocked = c.portBlocked ∧
      (c.putQueue ref q).noTargetMSHR = c.noTargetMSHR := by
  unfold Control.putQueue
  split <;> exact ⟨rfl, rfl, rfl⟩

/-- One queue is replaced: its cause is right, and it still holds the register
in `noTargetMSHR` if that is one of its own. -/
theorem Blocking.putQueue (h : Blocking c)
    (hf : q.isFull = true → 0 < q.allocated → c.blocked ref.tid (Control.fullCause ref.inWriteBuffer) = true)
    (hk : ∀ r, c.noTargetMSHR = some { ref with reg := r } → (c.queue ref).Holds r → q.Holds r) :
    Blocking (c.putQueue ref q) := by
  obtain ⟨h1, h2, h3⟩ := putQueue_flags c ref q
  refine ⟨fun t => ?_, fun ref' => ?_, fun ref' hp => ?_⟩
  · unfold Control.isBlocked
    rw [h1, h2]
    exact h.port t
  · rw [h1]
    by_cases hs : Control.SameQueue ref ref'
    · rw [(Control.queue_putQueue c ref ref' q).1 hs, hs.1, hs.2]
      exact hf
    · rw [(Control.queue_putQueue c ref ref' q).2 hs]
      exact h.full ref'
  · rw [h3] at hp
    obtain ⟨hb, hw, hh⟩ := h.last ref' hp
    rw [h1]
    refine ⟨hb, hw, ?_⟩
    by_cases hs : Control.SameQueue ref ref'
    · rw [(Control.queue_putQueue c ref ref' q).1 hs]
      rw [Control.queue_eq_of_same c hs] at hh
      refine hk ref'.reg ?_ hh
      rw [hp, ← hs.1, ← hs.2]
    · rw [(Control.queue_putQueue c ref ref' q).2 hs]
      exact hh

theorem Blocking.shrunk (h : Blocking c) (hs : (c.queue ref).Shrinks q)
    (hk : ∀ r, c.noTargetMSHR = some { ref with reg := r } → (c.queue ref).Holds r → q.Holds r) :
    Steady c (c.putQueue ref q) := by
  obtain ⟨h1, -, h3⟩ := putQueue_flags c ref q
  refine ⟨h.putQueue (fun hf h0 => ?_) hk, h3, fun t => by rw [h1]⟩
  exact h.full ref (hs.full hf) (h0.trans_le hs.allocated)

/-- A register that keeps its targets, or is not the one in `noTargetMSHR`. -/
theorem Blocking.putMshr (h : Blocking c) (hm : c.noTargetMSHR = some ref → (c.mshr ref).Grows m) :
    Steady c (c.putMshr ref m) := by
  refine h.shrunk (MshrQueue.put_shrinks _ _ _) fun r hr hh => hh.put ?_
  rintro rfl hf
  exact (hh.targets ((hm hr).inService.symm.trans hf)).trans_le (hm hr).targets

theorem Blocking.raised (h : Blocking c) (cause : BlockedCause) (t : Nat) : Blocking (c.raised cause t) := by
  have hmono : ∀ t' cause', c.blocked t' cause' = true → (c.raised cause t).blocked t' cause' = true := by
    intro t' cause' hb
    rw [Control.blocked_raised]
    split
    · rfl
    · exact hb
  have hq := (Control.raised_same c cause t).queue
  refine ⟨h.port.raised cause t, fun ref hf h0 => ?_, fun ref hp => ?_⟩
  · rw [hq] at hf h0
    exact hmono _ _ (h.full ref hf h0)
  · obtain ⟨hb, hw, hh⟩ := h.last ref hp
    exact ⟨hmono _ _ hb, hw, hh⟩

/-- The cause of a queue that has room again may go. -/
theorem Blocking.lowered (h : Blocking c) (hr : (c.queue ref).isFull = false)
    (hb : c.blocked ref.tid (Control.fullCause ref.inWriteBuffer) = true) :
    Steady c (c.lowered (Control.fullCause ref.inWriteBuffer) ref.tid) := by
  have hq := (Control.lowered_same c (Control.fullCause ref.inWriteBuffer) ref.tid).queue
  have hne : ∀ t, (c.lowered (Control.fullCause ref.inWriteBuffer) ref.tid).blocked t .noTargets =
      c.blocked t .noTargets := by
    intro t
    rw [Control.blocked_lowered, if_neg fun he => Control.fullCause_ne _ he.2.symm]
  refine ⟨⟨h.port.lowered (Control.isBlocked_iff.2 ⟨_, hb⟩) _, fun ref' hf h0 => ?_, fun ref' hp => ?_⟩,
    Control.noTargetMSHR_lowered .., hne⟩
  · rw [hq] at hf h0
    rw [Control.blocked_lowered, if_neg]
    · exact h.full ref' hf h0
    · rintro ⟨ht, hc⟩
      rw [Control.queue_eq_of_same c ⟨Control.fullCause_inj hc, ht⟩, hr] at hf
      cases hf
  · rw [Control.noTargetMSHR_lowered] at hp
    rw [hne, hq]
    exact h.last ref' hp

/-! ## Functions of the control state -/

theorem setBlockedIf_eq (h : c.Ported) (full : Bool) :
    c.setBlockedIf full cause t = .ok (if full then c.raised cause t else c) := by
  unfold Control.setBlockedIf
  split
  · exact Control.setBlocked_eq h cause t
  · rfl

theorem raised_putQueue (c : Control) (ref : MshrRef) (q : MshrQueue) (o : Nat) :
    ({ c.putQueue ref q with order := o } : Control).raised cause t =
      { (c.raised cause t).putQueue ref q with order := o } := by
  unfold Control.putQueue
  split <;> rfl

theorem allocateBufferInternal_ensures (h : Blocking c) :
    Ensures .portAssertion (fun r => Steady c r.1) (c.allocateBufferInternal inWb now addr size pkt time) := by
  refine Avoids.bind allocate_avoids ?_
  rintro ⟨q, r⟩ hq
  obtain ⟨h1, h2, h3⟩ := putQueue_flags c ⟨inWb, pkt.threadID, 0⟩ q
  have hport : ({ c.putQueue ⟨inWb, pkt.threadID, 0⟩ q with order := c.order + 1 } : Control).Ported := by
    intro t
    unfold Control.isBlocked
    rw [h1, h2]
    exact h.port t
  have hhold : ∀ r, (c.queue ⟨inWb, pkt.threadID, 0⟩).Holds r → q.Holds r := fun r hr => hr.allocate hq
  simp only [setBlockedIf_eq hport]
  refine ensures_ok ?_
  cases hf : q.isFull with
  | false =>
    simp only [Bool.false_eq_true, if_false]
    exact ⟨(h.putQueue (fun h => by rw [hf] at h; cases h) fun r _ => hhold r).withOrder _, h3, fun t => by rw [h1]⟩
  | true =>
    simp only [if_true, raised_putQueue]
    have hr : Blocking ((c.raised (Control.fullCause inWb) pkt.threadID).putQueue ⟨inWb, pkt.threadID, 0⟩ q) := by
      refine (h.raised _ _).putQueue (fun _ _ => ?_) fun r _ => ?_
      · rw [Control.blocked_raised, if_pos ⟨rfl, rfl⟩]
      · rw [(Control.raised_same c _ _).queue]
        exact hhold r
    obtain ⟨h4, -, h5⟩ := putQueue_flags (c.raised (Control.fullCause inWb) pkt.threadID) ⟨inWb, pkt.threadID, 0⟩ q
    refine ⟨hr.withOrder _, h5, fun t => ?_⟩
    rw [h4, Control.blocked_raised, if_neg fun he => Control.fullCause_ne _ he.2.symm]

theorem allocateMissBuffer_ensures (h : Blocking c) :
    Ensures .portAssertion (fun r => Steady c r.1) (c.allocateMissBuffer g now pkt time) :=
  Avoids.bind assert_avoids fun _ _ => allocateBufferInternal_ensures h

theorem allocateWriteBuffer_ensures (h : Blocking c) :
    Ensures .portAssertion (fun r => Steady c r.1) (c.allocateWriteBuffer now pkt time) :=
  Avoids.bind assert_avoids fun _ _ => allocateBufferInternal_ensures h

theorem allocateUncachedReadBuffer_ensures (h : Blocking c) :
    Ensures .portAssertion (fun r => Steady c r.1) (c.allocateUncachedReadBuffer now pkt time) :=
  Avoids.bind assert_avoids fun _ _ => Avoids.bind assert_avoids fun _ _ => allocateBufferInternal_ensures h

theorem allocateWriteBuffers_ensures {wbs : List Packet} (h : Blocking c) :
    Ensures .portAssertion (Steady c) (Control.allocateWriteBuffers now time wbs c) := by
  induction wbs generalizing c with
  | nil => exact ensures_ok (.refl h)
  | cons wb wbs ih =>
    refine Ensures.bind (allocateWriteBuffer_ensures h) ?_
    rintro ⟨c₁, r⟩ - h1
    exact (ih h1.blocking).mono fun c' h2 => h1.trans h2

/-- Only a thread whose queue was full since an allocation is unblocked. -/
theorem clearIfFull_ensures (h : Blocking c) (hw : wasFull = true → (c.queue ref).isFull = false →
      c.blocked ref.tid (Control.fullCause ref.inWriteBuffer) = true) :
    Ensures .portAssertion (Steady c) (c.clearIfFull wasFull ref ref.tid) := by
  unfold Control.clearIfFull
  split
  · next hc =>
    simp only [Bool.and_eq_true, Bool.not_eq_true'] at hc
    have hb := hw hc.1 hc.2
    rw [Control.clearBlocked_eq h.port (Control.isBlocked_iff.2 ⟨_, hb⟩)]
    exact ensures_ok (h.lowered hc.2 hb)
  · exact ensures_ok (.refl h)

/-- A register leaves a queue, and its thread is unblocked if the queue was full. -/
theorem unblock_ensures (h : Blocking c) (hwf : wasFull = (c.queue ref).isFull) (hs : (c.queue ref).Shrinks q)
    (hk : ∀ r, c.noTargetMSHR = some { ref with reg := r } → (c.queue ref).Holds r → q.Holds r) :
    Ensures .portAssertion (Steady c) ((c.putQueue ref q).clearIfFull wasFull ref ref.tid) := by
  have h1 := h.shrunk hs hk
  refine (clearIfFull_ensures h1.blocking fun hf hn => ?_).mono fun c' h2 => h1.trans h2
  subst hwf
  rw [queue_putQueue_self] at hn
  rw [(putQueue_flags c ref q).1]
  exact h.full ref hf (hs.pos hf hn)

theorem control_markInService_ensures (h : Blocking c) (ht : pkt.threadID = ref.tid) :
    Ensures .portAssertion (Steady c) (c.markInService ref pkt) := by
  refine Avoids.bind markInService_avoids fun q hq => ?_
  rw [ht]
  exact unblock_ensures h rfl (MshrQueue.markInService_shrinks hq) fun r _ hh => hh.markInService hq

theorem markInServiceNull_ensures (h : Blocking c) :
    Ensures .portAssertion (Steady c) (c.markInServiceNull ref pkt) := by
  refine ⟨markInServiceNull_avoids, fun c' hc => ?_⟩
  simp only [Control.markInServiceNull, bind_ok] at hc
  obtain ⟨q, hq, hc⟩ := hc
  split at hc
  · cases hc
  · cases hc
    exact h.shrunk (MshrQueue.markInService_shrinks hq) fun r _ hh => hh.markInService hq

theorem finishMshr_ensures (h : Blocking c) (hne : c.noTargetMSHR ≠ some ref)
    (hwf : wasFull = (c.queue ref).isFull) :
    Ensures .portAssertion (fun r => Steady c r.1) (State.finishMshr c now ref m wasFull ref.tid) := by
  refine Avoids.bind promoteDeferredTargets_avoids ?_
  rintro ⟨m', promoted⟩ hp
  have h1 : Steady c (c.putMshr ref m') := h.putMshr fun he => absurd he hne
  have hne' : ∀ r, (c.putMshr ref m').noTargetMSHR = some { ref with reg := r } → r ≠ ref.reg := by
    rintro r hr rfl
    rw [h1.noTargetMSHR] at hr
    exact hne hr
  cases promoted with
  | true =>
    refine Avoids.bind markPending_avoids fun q hq => ensures_ok (h1.trans ?_)
    exact h1.blocking.shrunk (MshrQueue.markPending_shrinks hq) fun r hr hh => hh.markPending (hne' r hr) hq
  | false =>
    refine Avoids.bind deallocate_avoids fun q hq => ?_
    have hf : wasFull = ((c.putMshr ref m').queue ref).isFull := by
      rw [hwf, Control.putMshr, queue_putQueue_self]
      rfl
    refine (unblock_ensures h1.blocking hf (MshrQueue.deallocate_shrinks hq)
      fun r hr hh => hh.deallocate (hne' r hr) hq).bind fun c₁ _ h2 => ensures_ok (h1.trans h2)

/-- The register that gets its last target becomes `noTargetMSHR`. -/
theorem Blocking.name (h : Blocking c) (o : Nat) (hw : ref.inWriteBuffer = false) (hh : (c.queue ref).Holds ref.reg) :
    Blocking (({ c with order := o, noTargetMSHR := some ref } : Control).raised .noTargets ref.tid) := by
  refine ⟨Control.Ported.raised h.port _ _, fun ref' hf h0 => ?_, fun ref' hp => ?_⟩
  · rw [Control.blocked_raised, if_neg fun he => Control.fullCause_ne _ he.2]
    exact h.full ref' hf h0
  · obtain rfl : ref = ref' := Option.some.inj hp
    exact ⟨by rw [Control.blocked_raised, if_pos ⟨rfl, rfl⟩], hw, hh⟩

theorem Named.name (h : Named c) (o : Nat) (hp : c.noTargetMSHR = none) :
    Named (({ c with order := o, noTargetMSHR := some ref } : Control).raised .noTargets ref.tid) := by
  intro t ht
  rw [Control.blocked_raised] at ht
  split at ht
  · next he => exact ⟨ref, rfl, he.1.symm⟩
  · obtain ⟨ref', hr, -⟩ := h t ht
    rw [hp] at hr
    cases hr

/-- The register of a response is no longer the one without room for targets. -/
structure Answers (c c' : Control) (ref : MshrRef) : Prop where
  blocking : Blocking c'
  queue : ∀ ref', c'.queue ref' = c.queue ref'
  ne : c'.noTargetMSHR ≠ some ref
  cleared : c.noTargetMSHR = some ref → c'.blocked ref.tid .noTargets = false
  named : Named c → Named c'

theorem clearNoTarget_ensures (h : Blocking c) :
    Ensures .portAssertion (fun c' => Answers c c' ref) (State.clearNoTarget c ref ref.tid) := by
  unfold State.clearNoTarget
  split
  · next hp =>
    obtain ⟨hb, -, -⟩ := h.last ref hp
    have hbl : c.isBlocked ref.tid = true := Control.isBlocked_iff.2 ⟨_, hb⟩
    have hq := (Control.lowered_same c .noTargets ref.tid).queue
    rw [Control.clearBlocked_eq h.port hbl]
    refine ensures_ok ⟨⟨h.port.lowered hbl _, fun ref' hf h0 => ?_, nofun⟩, hq, nofun, fun _ => ?_, fun hn t ht => ?_⟩
    · have hf' : (c.queue ref').isFull = true := by rw [← hq]; exact hf
      have h0' : 0 < (c.queue ref').allocated := by rw [← hq]; exact h0
      rw [Control.blocked_lowered, if_neg fun he => Control.fullCause_ne _ he.2]
      exact h.full ref' hf' h0'
    · show (c.lowered _ _).blocked _ _ = false
      rw [Control.blocked_lowered, if_pos ⟨rfl, rfl⟩]
    · -- only the thread of `noTargetMSHR` was blocked for lack of targets
      have ht' : (c.lowered .noTargets ref.tid).blocked t .noTargets = true := ht
      rw [Control.blocked_lowered] at ht'
      split at ht'
      · cases ht'
      · next hne =>
        obtain ⟨ref', hr', ht''⟩ := hn t ht'
        rw [hp] at hr'
        exact absurd ⟨ht''.symm.trans (by rw [Option.some.inj hr']), rfl⟩ hne
  · next hp => exact ensures_ok ⟨h, fun _ => rfl, hp, fun he => absurd he hp, id⟩

end

/-! ## Blocks do not touch the flags -/

section

variable {st : Storage ε} {P : Policy ε} {c : Control} {cfg : Config} {pkt : Packet} {b : BlkRef} {blk : Option BlkRef}
  {tid now : Nat} {x y : Bool}

theorem storage_invalidateBlk_port : Avoids .portAssertion (st.invalidateBlk b tid) := by
  unfold Storage.invalidateBlk
  cases b with
  | frame f => simp [avoids_orFail]
  | temp => simp

theorem storage_insertBlock_port {addr f masterId : Nat} :
    Avoids .portAssertion (st.insertBlock addr f masterId tid now) := by
  simp [Storage.insertBlock, avoids_orFail]

theorem satisfyCpuSideRequest_port : Avoids .portAssertion (st.satisfyCpuSideRequest cfg pkt b x y) := by
  simp [Storage.satisfyCpuSideRequest, Storage.satisfyRead, storage_invalidateBlk_port]

theorem accessWriteback_port {blk : Option Nat} {lat : Nat} :
    Avoids .portAssertion (st.accessWriteback c now pkt blk lat) := by
  unfold Storage.accessWriteback
  rw [avoids_bind]
  refine ⟨assert_avoids, fun _ _ => ?_⟩
  cases blk with
  | some f => simp
  | none =>
    rw [avoids_bind]
    refine ⟨allocateBlock_avoids, ?_⟩
    rintro ⟨st', v, wbs⟩ -
    cases v with
    | none => simp
    | some f => simp [storage_insertBlock_port]

theorem access_port : Avoids .portAssertion (st.access P cfg c now pkt) := by
  unfold Storage.access
  rw [avoids_bind]
  refine ⟨avoids_orFail fun _ => nofun, ?_⟩
  rintro ⟨tags, ext, blk, lat⟩ -
  cases blk with
  | some f => simp [satisfyCpuSideRequest_port, accessWriteback_port]
  | none => simp [accessWriteback_port]

theorem uncacheable_port : Avoids .portAssertion (st.uncacheable P pkt) := by
  unfold Storage.uncacheable
  simp only [avoids_ite, avoids_ok, implies_true, and_true, true_and]
  intro _ _
  split
  · exact avoids_ok _
  · exact storage_invalidateBlk_port

theorem handleFill_port {found : Option Nat} : Avoids .portAssertion (st.handleFill P c now pkt found) := by
  have hfill : ∀ (st : Storage ε) (b : BlkRef) (blkH : Option Nat),
      Avoids .portAssertion (st.fillBlock P pkt b blkH) := by
    intro st b blkH
    cases blkH <;> simp [Storage.fillBlock, Storage.fillData, storage_invalidateBlk_port]
  have htarget : ∀ (st : Storage ε) (v : Option Nat), Avoids .portAssertion (st.fillTarget now pkt v) := by
    intro st v
    cases v <;> simp [Storage.fillTarget, storage_insertBlock_port]
  cases found <;> simp [Storage.handleFill, hfill, htarget]

theorem handleSnoop_port {up : Storage.UpwardSnoop} : Avoids .portAssertion (st.handleSnoop cfg up pkt blk x) := by
  unfold Storage.handleSnoop
  cases blk <;> simp [Storage.invalidateIf, storage_invalidateBlk_port]

theorem serveTargets_port {e : State.Fill} {xs : List Target} {o : List Output} :
    Avoids .portAssertion (e.serveTargets blk xs st o) := by
  have hone : ∀ (st : Storage ε) (t : Target), Avoids .portAssertion (e.serveTarget st blk t) := by
    intro st t
    unfold State.Fill.serveTarget
    split
    · have ha : Avoids .portAssertion (e.answer st blk t.pkt) := by
        simp [State.Fill.answer, avoids_orFail, satisfyCpuSideRequest_port]
      simp [ha]
    · cases blk <;> simp
    · simp [handleSnoop_port]
  induction xs generalizing st o with
  | nil => exact avoids_ok _
  | cons t xs ih => simp [State.Fill.serveTargets, hone, ih]

theorem afterTargets_port {e : State.Fill} : Avoids .portAssertion (e.afterTargets st blk) := by
  unfold State.Fill.afterTargets
  cases blk <;> simp [storage_invalidateBlk_port]

theorem clearTemp_port : Avoids .portAssertion (State.clearTemp st blk tid) := by
  simp [State.clearTemp, storage_invalidateBlk_port]

end

/-! ## Requests -/

namespace State

open Storage

variable {s s' : State ε} {P : Policy ε} {pkt : Packet}

/-- The request would give the register of its block the last target that fits. -/
def isLastTarget (s : State ε) (pkt : Packet) : Bool :=
  match (s.ctl.mshrQueues pkt.threadID).findMatch (blockAlign s.geo pkt.addr) with
  | some r => (((s.ctl.mshrQueues pkt.threadID).registers r).ntargets + 1) % 2 ^ 16 == s.cfg.numTarget
  | none => false

/-- What a step does to the flags; `ok` is the condition under which the register
that fills up is not forgotten. -/
structure Flags (ok : Prop) (c c' : Control) : Prop where
  blocking : Blocking c'
  named : ok → Named c → Named c'

theorem Flags.of_steady {ok : Prop} {c' : Control} (h : Steady c c') :
    Flags ok c c' := ⟨h.blocking, fun _ => h.named⟩

theorem Flags.steady {ok : Prop} {c' c'' : Control} (h : Flags ok c c') (h' : Steady c' c'') : Flags ok c c'' :=
  ⟨h'.blocking, fun ho hn => h'.named (h.named ho hn)⟩

/-- Every allocated register has a target. -/
def Used (c : Control) : Prop := ∀ ref, Live c ref → 0 < (c.mshr ref).ntargets

theorem allocateTarget_ntargets {m' : Mshr} (h : m.allocateTarget now pkt time order = .ok m') :
    m'.ntargets = m.ntargets + 1 := by
  simp only [Mshr.allocateTarget, bind_ok] at h
  obtain ⟨-, -, h⟩ := h
  split at h <;> cases h <;> rfl

/-- A register that gets one more target is not freed when it is sent. -/
theorem holds_of_allocateTarget (hc : CtlOk g c) (hu : Used c) (hl : Live c ref)
    (hm : (c.mshr ref).allocateTarget now pkt time order = .ok m) :
    ((c.putMshr ref m).queue ref).Holds ref.reg := by
  rw [Control.putMshr, queue_putQueue_self]
  refine ⟨hl, fun hf => List.disjoint_of_nodup_append (hc ref).nodup hl hf, ?_⟩
  rw [MshrQueue.put_registers, if_pos rfl]
  intro hs
  have hs' := (mshr_allocateTarget_alike hm).inService.symm.trans hs
  have hd := ((hc ref).regs ref.reg).idle hs'
  have hcount := ((hc ref).regs ref.reg).count
  rw [hd, List.length_nil, Nat.add_zero] at hcount
  have h0 : 0 < (c.mshr ref).targets.list.length := hcount ▸ hu ref hl
  simp only [Mshr.allocateTarget, bind_ok, Mshr.defers, hs', Bool.false_and, Bool.false_eq_true, if_false] at hm
  obtain ⟨-, -, hm⟩ := hm
  cases hm
  simp only [TargetList.add, List.length_append, List.length_singleton]
  omega

theorem mshrHit_ensures {store : Storage ε} {r : Nat} (h : Blocking s.ctl) (hc : CtlOk g s.ctl)
    (hu : Used s.ctl) (hl : Live s.ctl ⟨false, pkt.threadID, r⟩) : Ensures .portAssertion (fun s' =>
      Flags (((s.ctl.mshr ⟨false, pkt.threadID, r⟩).ntargets + 1) % 2 ^ 16 = s.cfg.numTarget →
        s.ctl.noTargetMSHR = none) s.ctl s'.ctl) (s.mshrHit store pkt r) := by
  refine Avoids.bind allocateTarget_avoids fun m hm => ?_
  have hn := allocateTarget_ntargets hm
  have h1 : Steady s.ctl (s.ctl.putMshr ⟨false, pkt.threadID, r⟩ m) :=
    h.putMshr fun _ => mshr_allocateTarget_grows hm
  have hq := holds_of_allocateTarget hc hu hl hm
  cases hf : m.getNumTargets == s.cfg.numTarget with
  | false =>
    have h2 := h1.blocking
    exact ensures_ok (.of_steady
      ⟨⟨h2.port, h2.full, fun ref' hp => h2.last ref' (h1.noTargetMSHR.trans hp)⟩, rfl, h1.noTargets⟩)
  | true =>
    simp only [if_true, setBlockedIf_eq (c := { s.ctl.putMshr ⟨false, pkt.threadID, r⟩ m with
      order := s.ctl.order + 1
      noTargetMSHR := some ⟨false, pkt.threadID, r⟩ }) h1.blocking.port]
    refine ensures_ok ⟨h1.blocking.name _ rfl hq, fun hok hnamed => ?_⟩
    refine (h1.named hnamed).name _ ?_
    exact hok (by rw [← hn]; exact beq_iff_eq.1 hf)

theorem mshrMiss_ensures {store : Storage ε} {blk : Option Nat} (h : Blocking s.ctl) :
    Ensures .portAssertion (fun s' => Steady s.ctl s'.ctl) (s.mshrMiss store pkt blk) := by
  unfold mshrMiss
  split
  · exact (allocateWriteBuffer_ensures h).bind fun r _ hr => ensures_ok hr
  · exact Avoids.bind hideBlock_avoids fun _ _ => (allocateMissBuffer_ensures h).bind fun r _ hr => ensures_ok hr

theorem missed_ensures {r : AccessResult ε} (h : Blocking s.ctl) (hc : CtlOk g s.ctl) (hu : Used s.ctl) :
    Ensures .portAssertion (fun s' => Flags (s.isLastTarget r.pkt = true → s.ctl.noTargetMSHR = none) s.ctl s'.ctl)
      (s.missed r) := by
  refine Avoids.bind assertMaster_avoids fun _ _ => ?_
  cases hf : (s.ctl.mshrQueues r.pkt.threadID).findMatch (blockAlign s.geo r.pkt.addr) with
  | none => exact (mshrMiss_ensures h).mono fun s' hs => .of_steady hs
  | some reg =>
    refine (mshrHit_ensures h hc hu (addr_of_findMatch hf).1).mono fun s' hs => ⟨hs.blocking, fun hok => hs.named ?_⟩
    intro hn
    refine hok ?_
    rw [isLastTarget, hf]
    exact beq_iff_eq.2 hn

theorem cacheableAccess_ensures (h : Blocking s.ctl) (hc : CtlOk g s.ctl) (hu : Used s.ctl) :
    Ensures .portAssertion (fun s' => Flags (s.isLastTarget pkt = true → s.ctl.noTargetMSHR = none) s.ctl s'.ctl)
      (s.cacheableAccess P pkt) := by
  refine Avoids.bind access_port fun r hr => ?_
  have h1 : Ensures .portAssertion
      (fun s' => Flags (s.isLastTarget pkt = true → s.ctl.noTargetMSHR = none) s.ctl s'.ctl) (s.accessed r) := by
    unfold accessed
    split
    · refine ⟨by simp [satisfied], fun s' hs => ?_⟩
      show Flags _ s.ctl s'.ctl
      rw [(satisfied_store hs).2.1]
      exact .of_steady (.refl h)
    · next hsat =>
      have hp : r.pkt = pkt := (access_pkt hr (by simpa using hsat)).1
      rw [← hp]
      exact missed_ensures h hc hu
  exact h1.bind fun s₁ _ hs => (allocateWriteBuffers_ensures hs.blocking).bind fun c _ hc => ensures_ok (hs.steady hc)

theorem uncacheableAccess_ensures (h : Blocking s.ctl) :
    Ensures .portAssertion (fun s' => Steady s.ctl s'.ctl) (s.uncacheableAccess P pkt) := by
  have h1 : Ensures .portAssertion (fun r => Steady s.ctl r.1) (s.allocateUncacheable pkt) := by
    unfold allocateUncacheable
    split
    · exact allocateWriteBuffer_ensures h
    · exact allocateUncachedReadBuffer_ensures h
  exact Avoids.bind uncacheable_port fun _ _ => h1.bind fun r _ hr => Avoids.bind assert_avoids fun _ _ => ensures_ok hr

/-- An accepted request that gives its register the last target finds `noTargetMSHR` null. -/
def OneFull (s : State ε) (pkt : Packet) : Prop :=
  pkt.memInhibitAsserted = false → s.ctl.portBlocked pkt.threadID = false → s.isLastTarget pkt = true →
    s.ctl.noTargetMSHR = none

theorem recvTimingReq_ensures (P : Policy ε) (pkt : Packet) (h : Blocking s.ctl) (hc : CtlOk g s.ctl)
    (hu : Used s.ctl) :
    Ensures .portAssertion (fun s' => Flags (s.OneFull pkt) s.ctl s'.ctl) (s.recvTimingReq P pkt) := by
  have hrefl : Flags (s.OneFull pkt) s.ctl s.ctl := .of_steady (.refl h)
  unfold recvTimingReq timingAccess
  split
  · exact ensures_ok (.of_steady ⟨⟨h.port, h.full, h.last⟩, rfl, fun _ => rfl⟩)
  · next hacc =>
    split
    · exact ensures_ok hrefl
    refine Avoids.bind assert_avoids fun _ _ => ?_
    split
    · refine Avoids.bind assert_avoids fun _ _ => ?_
      split <;> exact ensures_ok hrefl
    · next hin =>
      split
      · exact (uncacheableAccess_ensures h).mono fun s' hs => .of_steady hs
      · refine (cacheableAccess_ensures h hc hu).mono fun s' hs => ⟨hs.blocking, fun hok => hs.named fun hl => ?_⟩
        simp only [Bool.not_eq_true] at hin
        simp only [hin, Bool.not_false, Bool.true_and, Bool.not_eq_true] at hacc
        exact hok hin hacc hl

/-! ## Responses -/

/-- The response to the register in `noTargetMSHR` unblocks its thread. -/
theorem handleResponse_ensures {up : Nat → UpwardSnoop} (h : Blocking s.ctl) (ht : pkt.threadID = ref.tid) :
    Ensures .portAssertion (fun s' => Flags True s.ctl s'.ctl ∧
      (s.ctl.noTargetMSHR = some ref → s'.ctl.blocked ref.tid .noTargets = false)) (s.handleResponse P ref pkt up) := by
  unfold handleResponse
  rw [ht]
  refine (clearNoTarget_ensures h).bind fun c _ hc => ?_
  refine Avoids.bind assert_avoids fun _ _ => Avoids.bind assertMaster_avoids fun _ _ => ?_
  refine Avoids.bind ?_ fun r _ => ?_
  · unfold fill
    simp [handleFill_port]
  refine Avoids.bind serveTargets_port ?_
  rintro ⟨store, out⟩ -
  refine Avoids.bind afterTargets_port fun store₁ _ => ?_
  refine (finishMshr_ensures hc.blocking hc.ne (by rw [hc.queue])).bind ?_
  rintro ⟨c₁, promoted⟩ - h1
  refine (allocateWriteBuffers_ensures h1.blocking).bind fun c₂ _ h2 => ?_
  refine Avoids.bind clearTemp_port ?_
  rintro ⟨store₂, wbs⟩ -
  refine (allocateWriteBuffers_ensures h2.blocking).bind fun c₃ _ h3 => ensures_ok ?_
  have h4 := (h1.trans h2).trans h3
  refine ⟨⟨h3.blocking, fun _ hn => h4.named (hc.named hn)⟩, fun hp => ?_⟩
  rw [h4.noTargets]
  exact hc.cleared hp

/-! ## Snoops -/

theorem mshr_handleSnoop_ntargets (m : Mshr) (now order : Nat) (pkt : Packet) :
    m.ntargets ≤ (m.handleSnoop now pkt order).1.ntargets := by
  obtain ⟨ts, ds, n, inval, down, he, -, ht, -⟩ := m.handleSnoop_cases now pkt order
  rw [he]
  show m.ntargets ≤ n
  omega

theorem snoopWritebacks_ensures (h : Blocking s.ctl) :
    Ensures .portAssertion (fun r => Steady s.ctl r.1.ctl) (s.snoopWritebacks pkt) := by
  unfold snoopWritebacks
  split
  · exact ensures_ok (.refl h)
  · next r _ =>
    refine Avoids.bind assert_avoids fun _ _ => Avoids.bind assert_avoids fun _ _ => ?_
    refine Avoids.bind getTarget_avoids fun x _ => Avoids.bind assert_avoids fun _ _ => ?_
    refine Avoids.bind assert_avoids fun _ _ => Avoids.bind assert_avoids fun _ _ => ?_
    refine Avoids.bind supplyResponse_avoids fun resp _ => ?_
    have h1 : Steady s.ctl (if !pkt.needsExclusive then
        s.ctl.putMshr ⟨true, pkt.threadID, r⟩ (shareWriteback (s.ctl.mshr ⟨true, pkt.threadID, r⟩) x) else s.ctl) := by
      split
      · exact h.putMshr fun _ => shareWriteback_grows _ _
      · exact .refl h
    refine Ensures.bind (Q := Steady s.ctl) ?_ fun c _ hc => ensures_ok hc
    unfold discardIf
    split
    · exact (markInServiceNull_ensures h1.blocking).mono fun c hc => h1.trans hc
    · exact ensures_ok h1
  · exact ⟨by simp, fun _ h => by cases h⟩

theorem snoopBlocks_ensures {blk : Option Nat} {up : UpwardSnoop} (h : Blocking s.ctl) :
    Ensures .portAssertion (fun s' => Steady s.ctl s'.ctl) (s.snoopBlocks pkt blk up) := by
  refine (snoopWritebacks_ensures h).bind ?_
  rintro ⟨s₁, pkt₁⟩ - h1
  exact Avoids.bind handleSnoop_port fun r _ => ensures_ok h1

theorem snoopTiming_ensures {up : UpwardSnoop} (h : Blocking s.ctl) :
    Ensures .portAssertion (fun s' => Steady s.ctl s'.ctl) (s.snoopTiming P pkt up) := by
  unfold snoopTiming
  split
  · exact ensures_ok (.refl h)
  simp only
  split
  · exact snoopBlocks_ensures h
  · next r _ =>
    have hn := mshr_handleSnoop_grows (s.ctl.mshr ⟨false, pkt.threadID, r⟩) s.now s.ctl.order pkt
    generalize (s.ctl.mshr ⟨false, pkt.threadID, r⟩).handleSnoop s.now pkt s.ctl.order = res at hn ⊢
    obtain ⟨m, pkt', deferred⟩ := res
    have h1 : Steady s.ctl { s.ctl.putMshr ⟨false, pkt.threadID, r⟩ m with order := s.ctl.order + 1 } := by
      have h1 : Steady s.ctl (s.ctl.putMshr ⟨false, pkt.threadID, r⟩ m) := h.putMshr fun _ => hn
      exact ⟨h1.blocking.withOrder _, h1.noTargetMSHR, h1.noTargets⟩
    cases deferred with
    | true => exact ensures_ok h1
    | false =>
      refine (snoopBlocks_ensures (s := { s with ctl := { s.ctl.putMshr ⟨false, pkt.threadID, r⟩ m with
        order := s.ctl.order + 1 } }) h1.blocking).mono fun s' hs => h1.trans hs

/-! ## Sending -/

theorem sendPacket_ensures {env : SendEnv} (h : Blocking s.ctl) (ht : pkt.threadID = ref.tid) :
    Ensures .portAssertion (fun s' => Steady s.ctl s'.ctl) (s.sendPacket ref pkt env) := by
  unfold sendPacket
  split
  · exact Ensures.bind (control_markInService_ensures h (by exact ht)) fun c _ hc => ensures_ok hc
  · exact ensures_ok (.refl h)

theorem sendMiss_ensures {env : SendEnv} (h : Blocking s.ctl) (ht : pkt.threadID = ref.tid) :
    Ensures .portAssertion (fun s' => Steady s.ctl s'.ctl) (s.sendMiss P ref pkt env) := by
  refine Avoids.bind assert_avoids fun _ _ => ?_
  split
  · exact Ensures.bind (control_markInService_ensures h (by exact ht)) fun c _ hc => ensures_ok hc
  · refine Avoids.bind getBusPacket_avoids fun bus hb => ?_
    have h1 : Steady s.ctl (s.ctl.putMshr ref { s.ctl.mshr ref with isForward := bus.isNone }) :=
      h.putMshr fun _ => ⟨rfl, Nat.le_refl _⟩
    have ht' : (bus.getD pkt).threadID = ref.tid := by
      cases bus with
      | none => exact ht
      | some p => exact (getBusPacket_some hb).2.1.trans ht
    exact (sendPacket_ensures (s := { s with ctl := s.ctl.putMshr ref { s.ctl.mshr ref with isForward := bus.isNone } })
      h1.blocking ht').mono fun s' hs => h1.trans hs

theorem getNextMSHR_ensures {tid : Nat} {pf : Option Prefetch} (h : Blocking s.ctl) :
    Ensures .portAssertion (fun r => Steady s.ctl r.1.ctl) (s.getNextMSHR P tid pf) := by
  unfold getNextMSHR
  split
  · exact ensures_ok (.refl h)
  split
  · exact ensures_ok (.refl h)
  simp only
  split
  · refine Avoids.bind assertMaster_avoids fun _ _ => ?_
    exact (allocateMissBuffer_ensures h).bind fun r _ hr => ensures_ok hr
  · exact ensures_ok (.refl h)

theorem sendDeferredPacket_ensures {n : Nat} {tid : Nat} {env : SendEnv} (hS : Sound n g s) (h : Blocking s.ctl) :
    Ensures .portAssertion (fun s' => Flags True s.ctl s'.ctl) (s.sendDeferredPacket P tid env) := by
  refine (getNextMSHR_ensures h).bind ?_
  rintro ⟨s₁, r⟩ hn h1
  cases r with
  | none => exact ensures_ok (.of_steady h1)
  | some ref =>
    have hc₁ : CtlOk g s₁.ctl := (getNextMSHR_moves hS.geo hn).2.1.ok hS.ctl
    refine Avoids.bind getTarget_avoids fun x hx => ?_
    simp only [Mshr.getTarget, orFail_ok] at hx
    have ht : x.pkt.threadID = ref.tid := (((hc₁ ref).regs ref.reg).mem x (.inl (List.mem_of_head? hx))).1
    have hsteady : ∀ s' : State ε, Steady s₁.ctl s'.ctl → Flags True s.ctl s'.ctl := fun s' hs =>
      .of_steady (h1.trans hs)
    split
    · refine (handleResponse_ensures h1.blocking (by exact ht)).mono fun s' hs => ?_
      exact ⟨hs.1.blocking, fun hok hn => hs.1.named hok (h1.named hn)⟩
    · refine Avoids.bind isForwardNoResponse_avoids fun fw _ => ?_
      cases fw with
      | true => exact (sendPacket_ensures h1.blocking ht).mono hsteady
      | false => exact (sendMiss_ensures h1.blocking ht).mono hsteady

end State

/-! ## Registers have targets -/

section

variable {g : Geometry} {now : Nat} {fin : Option MshrRef} {new : Newcomer} {c c' : Control}

open State

theorem Update.ntargets {o : Nat} (h : Update g now new c ref m o) : (c.mshr ref).ntargets ≤ m.ntargets := by
  cases h with
  | target hn hw ht hu hf h => exact (allocateTarget_ntargets h).ge.trans' (Nat.le_succ _)
  | snoop hw ht hu hf => exact mshr_handleSnoop_ntargets _ _ _ _
  | share hw hx => exact Nat.le_refl _
  | forward v hr => exact Nat.le_refl _

theorem Ctl.used (hc : CtlOk g c) (hu : Used c) (h : Ctl g now fin new c c') : Used c' := by
  have hc' := h.ok hc
  have hkeep : ∀ {ref}, Keeps c c' ref → Live c' ref → 0 < (c'.mshr ref).ntargets := by
    intro ref hk hl
    rw [hk.mshr]
    exact hu ref (hk.live.1 hl)
  intro ref hl
  obtain ⟨-, hk | ⟨ref₀, hch, hk⟩⟩ := h.change hc
  · exact hkeep (hk ref) hl
  by_cases he : ref = ref₀
  · subst he
    have hcount := ((hc' ref).regs ref.reg).count
    cases hch with
    | born _ _ _ _ _ hm _ =>
      obtain ⟨x, hx, -⟩ := hm.targets
      have hx' : ((c'.queue ref).registers ref.reg).targets.list = [x] := hx
      show 0 < ((c'.queue ref).registers ref.reg).ntargets
      rw [hcount, hx', List.length_singleton]
      omega
    | updated h hl' => exact (hu ref (hl'.1 hl)).trans_le h.ntargets
    | sent hl' _ _ hm =>
      obtain ⟨d, hm⟩ := hm
      rw [hm]
      exact hu ref hl'
    | gone hl' _ _ => exact absurd hl hl'
    | promoted _ _ _ _ hp he =>
      obtain ⟨-, -, -, -, -, -, ⟨hf, -⟩ | ⟨x, xs, -, hx, ht, -⟩⟩ := mshr_promote_ok hp
      · cases hf
      · have hm : ((c'.queue ref).registers ref.reg).targets.list = x :: xs := by
          show (c'.mshr ref).targets.list = _
          rw [he, ← hx, ← ht]
        show 0 < ((c'.queue ref).registers ref.reg).ntargets
        rw [hcount, hm, List.length_cons]
        omega
  · exact hkeep (hk ref he) hl

theorem CtlRun.used (hc : CtlOk g c) (hu : Used c) (h : CtlRun g now fin new c c') : Used c' := by
  induction h with
  | refl => exact hu
  | tail hr h ih => exact h.used (CtlRun.ok hc hr) ih

theorem Moves.used {P : Policy ε} {n : Nat} {s s' : State ε} {a : Action} (hS : Sound n g s) (hu : Used s.ctl)
    (h : Moves P g s a s') : Used s'.ctl := by
  cases h with
  | advance ticks => exact hu
  | request he hc hr => exact hc.used hS.ctl hu
  | unasked => exact hu
  | response hf hfr ha hq he hc hb hn hcfg hfw => exact hc.used hS.ctl hu
  | snoop he hc hr hd => exact hc.used hS.ctl hu
  | idle => exact hu
  | failed hs₁ hp hr hx hst hc hrest => exact hc.used (hp.ok hS.ctl) (hp.used hS.ctl hu)
  | sent hs₁ hp hr hs hx hd => exact hd.run.used (hp.ok hS.ctl) (hp.used hS.ctl hu)

end

/-! ## Runs -/

section

open State

variable {P : Policy ε} {g : Geometry} {view : Nat → Nat → Prop} {n : Nat} {s s' : State ε} {a : Action}

structure FlagsOk (n : Nat) (g : Geometry) (s : State ε) : Prop where
  sound : Sound n g s
  used : Used s.ctl
  blocking : Blocking s.ctl

/-- No second register fills up while `noTargetMSHR` is in use. -/
def OneFullRegister (s : State ε) : Action → Prop
  | .recvTimingReq pkt => s.OneFull pkt
  | _ => True

instance (s : State ε) (a : Action) : Decidable (OneFullRegister s a) := by
  cases a with
  | recvTimingReq pkt => exact inferInstanceAs (Decidable (_ → _ → _ → _))
  | _ => exact .isTrue trivial

theorem step_flags (hI : FlagsOk n g s) :
    Ensures .portAssertion (fun s' => Flags (OneFullRegister s a) s.ctl s'.ctl) (s.step P a) := by
  have h := hI.blocking
  have hS := hI.sound
  have hrefl : Flags (OneFullRegister s a) s.ctl s.ctl := .of_steady (.refl h)
  cases a with
  | advance ticks => exact ensures_ok hrefl
  | recvTimingReq pkt => exact recvTimingReq_ensures P { pkt with origin := none } h hS.ctl hI.used
  | recvTimingResp ref r =>
    show Ensures _ _ (s.recvTimingResp P ref r)
    unfold recvTimingResp
    split
    · exact ensures_ok hrefl
    · next f hf =>
      have hfr : f.ref = ref := by simpa using List.find?_some hf
      have ht : f.pkt.threadID = ref.tid := hfr ▸ hS.bus.tid f (List.mem_of_find?_eq_some hf)
      split
      · exact (handleResponse_ensures (s := { s with bus := s.bus.filter fun f => f.ref != ref }) h
          (by exact ht)).mono fun s' hs => ⟨hs.1.blocking, fun _ => hs.1.named trivial⟩
      · exact ensures_ok hrefl
  | recvTimingSnoopReq pkt up => exact (snoopTiming_ensures h).mono fun s' hs => .of_steady hs
  | send tid env =>
    exact (sendDeferredPacket_ensures hS h).mono fun s' hs => ⟨hs.blocking, fun _ => hs.named trivial⟩

theorem step_flagsOk (hP : P.Lawful view) (hI : FlagsOk n g s) (h : s.step P a = .ok s') : FlagsOk n g s' :=
  have hm := step_moves hP hI.sound h
  ⟨hm.sound hP hI.sound, hm.used hI.sound hI.used, ((step_flags hI).2 s' h).blocking⟩

theorem flagsOk_init {cfg : Config} {tags : Lru} {ext : ε} {mshrs writeBuffers : Nat} (hF : Lru.Frames n tags) :
    FlagsOk n tags.geo (State.init cfg tags ext mshrs writeBuffers) := by
  have hempty : ∀ ref, ((Control.init mshrs writeBuffers).queue ref).allocatedList = [] ∧
      ((Control.init mshrs writeBuffers).queue ref).allocated = 0 := by
    intro ref
    unfold Control.queue
    split <;> exact ⟨rfl, rfl⟩
  refine ⟨sound_init rfl hF, fun ref hl => ?_, fun t => rfl, fun ref _ h0 => ?_, nofun⟩
  · have hl' : ref.reg ∈ ((Control.init mshrs writeBuffers).queue ref).allocatedList := hl
    rw [(hempty ref).1] at hl'
    cases hl'
  · have h0' : 0 < ((Control.init mshrs writeBuffers).queue ref).allocated := h0
    rw [(hempty ref).2] at h0'
    cases h0'

/-- A response to the register in `noTargetMSHR` unblocks its thread. -/
theorem response_unblocks {f : InFlight} {r : Reply} (hI : FlagsOk n g s) (hp : s.ctl.noTargetMSHR = some ref)
    (hf : f ∈ s.bus) (hfr : f.ref = ref) (ha : answers f.pkt.cmd r.cmd = true)
    (h : s.step P (.recvTimingResp ref r) = .ok s') : s'.ctl.blocked ref.tid .noTargets = false := by
  have hfind : s.bus.find? (fun f' => f'.ref == ref) = some f := by
    have hsome : (s.bus.find? fun f' => f'.ref == ref).isSome = true := List.find?_isSome.2 ⟨f, hf, by simpa using hfr⟩
    obtain ⟨f', hf'⟩ := Option.isSome_iff_exists.1 hsome
    have hfr' : f'.ref = ref := by simpa using List.find?_some hf'
    rw [hf', List.inj_on_of_nodup_map hI.sound.bus.nodup (List.mem_of_find?_eq_some hf') hf (hfr'.trans hfr.symm)]
  have ht : (r.packet f.pkt).threadID = ref.tid := hfr ▸ hI.sound.bus.tid f hf
  have h' : s.recvTimingResp P ref r = .ok s' := h
  rw [recvTimingResp, hfind] at h'
  simp only [ha, if_true] at h'
  exact ((handleResponse_ensures
    (s := { s with bus := s.bus.filter fun f => f.ref != ref }) hI.blocking ht).2 s' h').2 hp

/-- With room for two targets in a register: thread 0 fills its register, then
thread 1 does, and the response to thread 0 leaves it blocked, though it has no
register any more. -/
theorem second_full_register_forgets_first :
    ∃ s, runs Split.step (Split.init ⟨2, false, false, false, false, false⟩ (Small.geo 2 (by decide)) 1 2 4 4)
        [Small.read 0 0, Small.read 0 0, Small.read 1 0, Small.read 1 0, .advance 1, Small.send 0,
          Small.respond 0 0 .readResp false] = .ok s ∧
      s.ctl.blocked 0 .noTargets = true ∧ s.ctl.noTargetMSHR = some ⟨false, 1, 0⟩ ∧
        (s.ctl.mshrQueues 0).allocatedList = [] := by
  decide +kernel

/-- In every run the port's flags are the causes and its assertions hold; and as
long as no second register fills up while `noTargetMSHR` is in use, a thread
that is blocked for lack of targets is the one of `noTargetMSHR`, an allocated
register whose response unblocks it. -/
theorem blocked_threads {cfg : Config} {tags : Lru} {ext : ε} {mshrs writeBuffers : Nat} (hP : P.Lawful view)
    (hF : Lru.Frames n tags) (as : List Action) :
    Avoids .portAssertion (runs (State.step P) (.init cfg tags ext mshrs writeBuffers) as) ∧
      ∀ s, runs (State.step P) (.init cfg tags ext mshrs writeBuffers) as = .ok s →
        (∀ t, s.ctl.portBlocked t = s.ctl.isBlocked t) ∧
        (Always (State.step P) OneFullRegister (.init cfg tags ext mshrs writeBuffers) as →
          ∀ t, s.ctl.blocked t .noTargets = true →
            ∃ ref, s.ctl.noTargetMSHR = some ref ∧ ref.inWriteBuffer = false ∧ ref.tid = t ∧ Live s.ctl ref ∧
              ∀ f ∈ s.bus, f.ref = ref → ∀ r, answers f.pkt.cmd r.cmd = true →
                ∀ s', s.step P (.recvTimingResp ref r) = .ok s' → s'.ctl.blocked t .noTargets = false) := by
  have h0 : FlagsOk n tags.geo (State.init cfg tags ext mshrs writeBuffers) := flagsOk_init hF
  have hfree : Always (State.step P) (fun _ _ => True) (.init cfg tags ext mshrs writeBuffers) as :=
    always_of_forall fun _ _ => trivial
  refine ⟨runs_avoids (FlagsOk n tags.geo) (fun s a s' hI _ h => step_flagsOk hP hI h)
    (fun s a hI _ => (step_flags hI).1) h0 hfree, fun s hs => ?_⟩
  have hI := runs_preserves (FlagsOk n tags.geo) (fun s a s' hI h => step_flagsOk hP hI h) h0 hs
  refine ⟨hI.blocking.port, fun hok t ht => ?_⟩
  have hN := runs_invariant (fun s => FlagsOk n tags.geo s ∧ Named s.ctl)
    (fun s a s' hI ha h => ⟨step_flagsOk hP hI.1 h, ((step_flags hI.1).2 s' h).named ha hI.2⟩)
    ⟨h0, fun t ht => by cases ht⟩ hok hs
  obtain ⟨ref, hp, rfl⟩ := hN.2 t ht
  obtain ⟨-, hw, hh⟩ := hI.blocking.last ref hp
  exact ⟨ref, hp, hw, rfl, hh.allocated, fun f hf hfr r ha s' h => response_unblocks hI hp hf hfr ha h⟩

theorem blocked_threads_two_reads :
    ∃ s, runs Split.step (Split.init ⟨2, false, false, false, false, false⟩ (Small.geo 2 (by decide)) 1 2 4 4)
        [Small.read 0 0, Small.read 0 0, .advance 1, Small.send 0] = .ok s ∧ s.ctl.blocked 0 .noTargets = true ∧
      ∃ ref, s.ctl.noTargetMSHR = some ref ∧ ref.tid = 0 ∧ Live s.ctl ref := by
  refine exists_ok (fun s => s.ctl.blocked 0 .noTargets = true) (by decide +kernel) fun s hs h => ⟨h, ?_⟩
  have hF := (Split.sound_init ⟨2, false, false, false, false, false⟩ (Small.geo 2 (by decide)) 1 2 4 4).frames
  obtain ⟨ref, h1, -, h2, h3, -⟩ := ((blocked_threads Split.lawful hF _).2 s hs).2 (by decide +kernel) 0 h
  exact ⟨ref, h1, h2, h3⟩

end

end DynamicCache.Cache
