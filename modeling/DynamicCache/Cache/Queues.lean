import DynamicCache.Cache.Timing

/-!
# The registers and their queues

`QueueOk` is the invariant of a queue of thread `t`: every register is either
free or allocated, the ready ones are those that are allocated and not in
service, and all targets of a register belong to thread `t` and to the
register's block.  `Ctl` lists what a cache does to its queues, `Ctl.ok` says
that the invariant is kept, and `Ctl.keeps` that a register in service stays as
it is until the response it waits for.
-/

namespace DynamicCache.Cache

open Lib Tags

/-! ## Registers -/

/-- A target that is the same request as before. -/
structure Target.Alike (y x : Target) : Prop where
  source : x.source = y.source
  order : x.order = y.order
  readyTime : x.readyTime = y.readyTime
  threadID : x.pkt.threadID = y.pkt.threadID
  addr : x.pkt.addr = y.pkt.addr
  req : x.pkt.req = y.pkt.req
  origin : x.pkt.origin = y.pkt.origin
  cmd : x.pkt.cmd = y.pkt.cmd ∨ x.pkt.cmd = replaceUpgradeCmd y.pkt.cmd

theorem Target.Alike.refl (x : Target) : x.Alike x := ⟨rfl, rfl, rfl, rfl, rfl, rfl, rfl, .inl rfl⟩

/-- A snoop replaces upgrades, or waits behind the targets; while the request is in
service it leaves a trace unless nothing changes for the response. -/
theorem Mshr.handleSnoop_cases (m : Mshr) (now : Nat) (pkt : Packet) (order : Nat) :
    ∃ t d n inval down, (m.handleSnoop now pkt order).1 =
        { m with targets := t, deferredTargets := d, ntargets := n, postInvalidate := inval, postDowngrade := down } ∧
      (d = m.deferredTargets ∨ d = m.deferredTargets.replaceUpgrades) ∧
      ((t = m.targets ∨ t = m.targets.replaceUpgrades) ∧ n = m.ntargets ∨
        t = m.targets.add now pkt.copyClear now order .fromSnoop ∧ n = m.ntargets + 1) ∧
      (m.inService = true → inval = false → down = false → m.postInvalidate = false ∧ m.postDowngrade = false) := by
  unfold handleSnoop
  split
  · unfold handleSnoopInService
    cases hx : pkt.needsExclusive with
    | true =>
      simp only [if_true]
      split
      · next hp =>
          exact ⟨m.targets, _, m.ntargets, m.postInvalidate, m.postDowngrade, rfl, .inr rfl, .inl ⟨.inl rfl, rfl⟩,
          fun _ h1 h2 => ⟨h1, h2⟩⟩
      · split
        · exact ⟨_, _, _, _, m.postDowngrade, rfl, .inr rfl, .inr ⟨rfl, rfl⟩, fun _ h1 _ => by cases h1⟩
        · exact ⟨m.targets, _, m.ntargets, m.postInvalidate, m.postDowngrade, rfl, .inr rfl, .inl ⟨.inl rfl, rfl⟩,
            fun _ h1 h2 => ⟨h1, h2⟩⟩
    | false =>
      simp only [Bool.false_eq_true, if_false]
      split
      · next hp =>
          exact ⟨m.targets, _, m.ntargets, m.postInvalidate, m.postDowngrade, rfl, .inl rfl, .inl ⟨.inl rfl, rfl⟩,
          fun _ h1 h2 => ⟨h1, h2⟩⟩
      · split
        · exact ⟨_, m.deferredTargets, _, _, _, rfl, .inl rfl, .inr ⟨rfl, rfl⟩, fun _ _ h2 => by cases h2⟩
        · exact ⟨m.targets, m.deferredTargets, m.ntargets, m.postInvalidate, _, rfl, .inl rfl, .inl ⟨.inl rfl, rfl⟩,
            fun _ _ h2 => by cases h2⟩
  · split
    · exact ⟨_, _, m.ntargets, m.postInvalidate, m.postDowngrade, rfl, .inr rfl, .inl ⟨.inr rfl, rfl⟩,
        fun _ h1 h2 => ⟨h1, h2⟩⟩
    · exact ⟨m.targets, _, m.ntargets, m.postInvalidate, m.postDowngrade, rfl, .inl rfl, .inl ⟨.inl rfl, rfl⟩,
        fun _ h1 h2 => ⟨h1, h2⟩⟩

structure RegOk (g : Geometry) (t : Nat) (m : Mshr) : Prop where
  count : m.ntargets = m.targets.list.length + m.deferredTargets.list.length
  mem : ∀ x, x ∈ m.targets.list ∨ x ∈ m.deferredTargets.list →
    x.pkt.threadID = t ∧ g.blkAddr x.pkt.addr = g.blkAddr m.addr
  idle : m.inService = false → m.deferredTargets.list = []

variable {addr now o order r size time : Nat} {pkt : Packet} {q q' : MshrQueue} {x : Target} {promoted : Bool}
  {l : TargetList} {m m' : Mshr}

namespace RegOk

variable {g : Geometry} {t : Nat} {m m' : Mshr} {pkt : Packet}

theorem empty (h : RegOk g t m) (h0 : m.ntargets = 0) : m.targets.list = [] ∧ m.deferredTargets.list = [] := by
  have := h.count
  constructor
  · exact List.length_eq_zero_iff.1 (by omega)
  · exact List.length_eq_zero_iff.1 (by omega)

theorem allocate (h : RegOk g t m) (h0 : m.ntargets = 0) (ht : pkt.threadID = t)
    (hn : g.blkAddr pkt.addr = g.blkAddr addr) (ha : m.allocate now addr size pkt time order = .ok m') :
    RegOk g t m' := by
  obtain ⟨h1, h2⟩ := h.empty h0
  simp only [Mshr.allocate, bind_ok] at ha
  obtain ⟨-, -, -, -, ha⟩ := ha
  cases ha
  refine ⟨by simp [TargetList.add, h1, h2], fun x hx => ?_, fun _ => h2⟩
  simp only [TargetList.add, h1, h2, List.nil_append, List.mem_singleton, List.not_mem_nil, or_false] at hx
  subst hx
  exact ⟨ht, hn⟩

theorem allocateTarget (h : RegOk g t m) (ht : pkt.threadID = t) (hn : g.blkAddr pkt.addr = g.blkAddr m.addr)
    (ha : m.allocateTarget now pkt time order = .ok m') : RegOk g t m' := by
  have hc := h.count
  simp only [Mshr.allocateTarget, bind_ok] at ha
  obtain ⟨-, -, ha⟩ := ha
  split at ha
  · next hd =>
    cases ha
    refine ⟨?_, ?_, ?_⟩
    · simp only [TargetList.add, List.length_append, List.length_singleton]
      omega
    · intro x hx
      simp only [TargetList.add, List.mem_append, List.mem_singleton] at hx
      obtain hx | hx | rfl := hx
      · exact h.mem x (.inl hx)
      · exact h.mem x (.inr hx)
      · refine ⟨?_, ?_⟩ <;> split <;> assumption
    · intro (hs : m.inService = false)
      simp [Mshr.defers, hs] at hd
  · cases ha
    refine ⟨?_, ?_, h.idle⟩
    · simp only [TargetList.add, List.length_append, List.length_singleton]
      omega
    · intro x hx
      simp only [TargetList.add, List.mem_append, List.mem_singleton] at hx
      obtain (hx | rfl) | hx := hx
      · exact h.mem x (.inl hx)
      · exact ⟨ht, hn⟩
      · exact h.mem x (.inr hx)

/-- Replacing upgrades changes commands only. -/
theorem replaceUpgrades_length (l : TargetList) : l.replaceUpgrades.list.length = l.list.length := by
  unfold TargetList.replaceUpgrades
  split
  · simp
  · rfl

theorem mem_replaceUpgrades (hx : x ∈ l.replaceUpgrades.list) : ∃ y ∈ l.list, y.Alike x := by
  unfold TargetList.replaceUpgrades at hx
  split at hx
  · obtain ⟨y, hy, rfl⟩ := List.mem_map.1 hx
    exact ⟨y, hy, rfl, rfl, rfl, rfl, rfl, rfl, rfl, .inr rfl⟩
  · exact ⟨x, hx, .refl x⟩

theorem length_of_replaced {l' : TargetList} (h : l' = l ∨ l' = l.replaceUpgrades) :
    l'.list.length = l.list.length := by
  obtain rfl | rfl := h
  · rfl
  · exact replaceUpgrades_length l

theorem mem_of_replaced {l' : TargetList} (h : l' = l ∨ l' = l.replaceUpgrades) (hx : x ∈ l'.list) :
    ∃ y ∈ l.list, y.Alike x := by
  obtain rfl | rfl := h
  · exact ⟨x, hx, .refl x⟩
  · exact mem_replaceUpgrades hx

/-- The targets come from those of `m`. -/
theorem of_mem (h : RegOk g t m) (hc : m'.ntargets = m'.targets.list.length + m'.deferredTargets.list.length)
    (ha : m'.addr = m.addr)
    (hm : ∀ x, x ∈ m'.targets.list ∨ x ∈ m'.deferredTargets.list →
      ∃ y, (y ∈ m.targets.list ∨ y ∈ m.deferredTargets.list) ∧ x.pkt.threadID = y.pkt.threadID ∧
        x.pkt.addr = y.pkt.addr)
    (hi : m'.inService = false → m'.deferredTargets.list = []) : RegOk g t m' := by
  refine ⟨hc, fun x hx => ?_, hi⟩
  obtain ⟨y, hy, h1, h2⟩ := hm x hx
  rw [h1, h2, ha]
  exact h.mem y hy

/-- The targets that a snoop leaves, those that it found and maybe itself. -/
theorem mem_handleSnoop (hx : x ∈ (m.handleSnoop now pkt order).1.targets.list ∨
      x ∈ (m.handleSnoop now pkt order).1.deferredTargets.list) :
    (∃ y, (y ∈ m.targets.list ∨ y ∈ m.deferredTargets.list) ∧ y.Alike x) ∨
      x = ⟨now, now, order, pkt.copyClear, .fromSnoop⟩ := by
  obtain ⟨ts, ds, n, inval, down, he, hd, ht, -⟩ := m.handleSnoop_cases now pkt order
  rw [he] at hx
  obtain hx | hx := hx
  · obtain ⟨ht, -⟩ | ⟨rfl, -⟩ := ht
    · obtain ⟨y, hy, ha⟩ := mem_of_replaced ht hx
      exact .inl ⟨y, .inl hy, ha⟩
    · simp only [TargetList.add, List.mem_append, List.mem_singleton] at hx
      obtain hx | hx := hx
      · exact .inl ⟨x, .inl hx, .refl x⟩
      · exact .inr hx
  · obtain ⟨y, hy, ha⟩ := mem_of_replaced hd hx
    exact .inl ⟨y, .inr hy, ha⟩

theorem handleSnoop (h : RegOk g t m) (ht : pkt.threadID = t) (hn : g.blkAddr pkt.addr = g.blkAddr m.addr) :
    RegOk g t (m.handleSnoop now pkt order).1 := by
  have hmem : ∀ x, x ∈ (m.handleSnoop now pkt order).1.targets.list ∨
      x ∈ (m.handleSnoop now pkt order).1.deferredTargets.list → _ := fun _ => mem_handleSnoop
  have hc := h.count
  obtain ⟨ts, ds, n, inval, down, he, hd, hts, -⟩ := m.handleSnoop_cases now pkt order
  rw [he] at hmem ⊢
  have hdl := length_of_replaced hd
  refine ⟨?_, fun x hx => ?_, fun hs => ?_⟩
  · obtain ⟨hts, rfl⟩ | ⟨rfl, rfl⟩ := hts
    · simp only [length_of_replaced hts]
      omega
    · simp only [TargetList.add, List.length_append, List.length_singleton]
      omega
  · obtain ⟨y, hy, ha⟩ | rfl := hmem x hx
    · rw [ha.threadID, ha.addr]
      exact h.mem y hy
    · exact ⟨ht, hn⟩
  · rw [h.idle hs, List.length_nil] at hdl
    exact List.length_eq_zero_iff.1 hdl

theorem shareWriteback (h : RegOk g t m) (hx : m.targets.list.head? = some x) :
    RegOk g t (State.shareWriteback m x) := by
  obtain ⟨xs, hl⟩ := List.head?_eq_some_iff.1 hx
  have hc := h.count
  refine h.of_mem ?_ rfl (fun y hy => ?_) h.idle
  · simp only [State.shareWriteback, hl, List.tail_cons, List.length_cons] at hc ⊢
    exact hc
  · simp only [State.shareWriteback, List.mem_cons] at hy
    obtain (rfl | hy) | hy := hy
    · exact ⟨x, .inl (List.mem_of_head? hx), rfl, rfl⟩
    · exact ⟨y, .inl (List.mem_of_mem_tail hy), rfl, rfl⟩
    · exact ⟨y, .inr hy, rfl, rfl⟩

theorem popTarget (h : RegOk g t m) (h1 : m.targets.list ≠ []) : RegOk g t m.popTarget := by
  have hc := h.count
  have hp : 0 < m.targets.list.length := List.length_pos_iff.2 h1
  refine h.of_mem ?_ rfl (fun x hx => ?_) h.idle
  · simp only [Mshr.popTarget, List.length_tail]
    omega
  · obtain hx | hx := hx
    · exact ⟨x, .inl (List.mem_of_mem_tail hx), rfl, rfl⟩
    · exact ⟨x, .inr hx, rfl, rfl⟩

/-- After its targets were served a register may wait for the deferred ones. -/
theorem promote (h : RegOk g t m) (hp : (State.servedMshr m).promoteDeferredTargets now = .ok (m', promoted)) :
    RegOk g t m' := by
  have hc := h.count
  simp only [Mshr.promoteDeferredTargets, bind_ok] at hp
  obtain ⟨-, -, hp⟩ := hp
  split at hp
  · next hd =>
    cases hp
    refine h.of_mem ?_ rfl (fun x hx => ?_) h.idle
    · simp only [State.servedMshr, List.length_nil] at hd ⊢
      omega
    · obtain hx | hx := hx
      · cases hx
      · exact ⟨x, .inr hx, rfl, rfl⟩
  · simp only [bind_ok] at hp
    obtain ⟨-, -, hp⟩ := hp
    cases hp
    refine h.of_mem ?_ rfl (fun x hx => ?_) fun _ => rfl
    · simp only [State.servedMshr, TargetList.resetFlags, List.length_nil]
      omega
    · obtain hx | hx := hx
      · exact ⟨x, .inr hx, rfl, rfl⟩
      · cases hx

theorem handleFill (h : RegOk g t m) (hf : m.handleFill pkt = .ok m') : RegOk g t m' := by
  have hc := h.count
  obtain ⟨-, rfl⟩ | ⟨-, rfl⟩ := Mshr.handleFill_cases hf
  · exact h
  · refine h.of_mem ?_ rfl (fun x hx => ?_) fun _ => rfl
    · simp only [TargetList.resetFlags, List.length_append, List.length_nil]
      omega
    · simp only [TargetList.resetFlags, List.mem_append, List.not_mem_nil, or_false] at hx
      exact ⟨x, hx, rfl, rfl⟩

end RegOk

/-! ## Queues -/

/-- The lists of a queue: every register is free or allocated, and the ready ones
are those that are allocated and not in service. -/
structure ListsOk (q : MshrQueue) : Prop where
  nodup : (q.allocatedList ++ q.freeList).Nodup
  ready : ∀ r, r ∈ q.readyList ↔ r ∈ q.allocatedList ∧ (q.registers r).inService = false
  readyNodup : q.readyList.Nodup
  busy : ∀ r, (q.registers r).inService = true → r ∈ q.allocatedList

structure QueueOk (g : Geometry) (t : Nat) (q : MshrQueue) : Prop where
  nodup : (q.allocatedList ++ q.freeList).Nodup
  ready : ∀ r, r ∈ q.readyList ↔ r ∈ q.allocatedList ∧ (q.registers r).inService = false
  readyNodup : q.readyList.Nodup
  busy : ∀ r, (q.registers r).inService = true → r ∈ q.allocatedList
  regs : ∀ r, RegOk g t (q.registers r)
  free : ∀ r, r ∉ q.allocatedList → (q.registers r).ntargets = 0

namespace MshrQueue

theorem insertReady_perm {time : Nat → Nat} {l l' : List Nat} (h : insertReady time r l = .ok l') :
    l'.Perm (r :: l) := by
  induction l generalizing l' with
  | nil => cases h
  | cons x l ih =>
    rw [insertReady] at h
    split at h
    · cases h
      exact .refl _
    · cases hi : insertReady time r l with
      | error e => rw [hi] at h; cases h
      | ok l₁ =>
        rw [hi] at h
        cases h
        exact ((ih hi).cons x).trans (.swap r x l)

theorem addToReadyList_ok (h : q.addToReadyList r = .ok q') :
    ∃ l, q' = { q with readyList := l } ∧ l.Perm (r :: q.readyList) := by
  unfold addToReadyList at h
  split at h
  · cases h
    exact ⟨_, rfl, List.perm_append_singleton r _⟩
  · simp only [bind_ok] at h
    obtain ⟨l, hl, h⟩ := h
    cases h
    exact ⟨l, rfl, insertReady_perm hl⟩

theorem put_registers (q : MshrQueue) (r r' : Nat) (m : Mshr) :
    (q.put r m).registers r' = if r' = r then m else q.registers r' := by
  simp [put, Function.update_apply]

/-- `allocate` takes the first free register. -/
theorem allocate_ok (h : q.allocate now addr size pkt time order = .ok (q', r)) :
    ∃ free m l, q.freeList = r :: free ∧
      (q.registers r).allocate now addr size pkt time order = .ok m ∧ l.Perm (r :: q.readyList) ∧
      q' = { q.put r m with
        freeList := free
        allocatedList := q.allocatedList ++ [r]
        allocated := q.allocated + 1
        readyList := l } := by
  unfold allocate at h
  split at h
  · cases h
  · next r' free hf =>
    simp only [bind_ok] at h
    obtain ⟨-, -, m, hm, q₁, hq, h⟩ := h
    cases h
    obtain ⟨l, rfl, hl⟩ := addToReadyList_ok hq
    exact ⟨free, m, l, hf, hm, hl, rfl⟩

theorem deallocate_ok (h : q.deallocate r = .ok q') :
    ∃ m, (q.registers r).deallocate = .ok m ∧ q' = { q.put r m with
      allocatedList := q.allocatedList.erase r
      freeList := r :: q.freeList
      allocated := q.allocated - 1
      inServiceEntries := if (q.registers r).inService then q.inServiceEntries - 1 else q.inServiceEntries
      readyList := if (q.registers r).inService then q.readyList else q.readyList.erase r } := by
  simp only [deallocate, bind_ok] at h
  obtain ⟨m, hm, h⟩ := h
  cases h
  exact ⟨m, hm, rfl⟩

end MshrQueue

theorem mshr_deallocate_ok (h : m.deallocate = .ok m') :
    m.targets.list = [] ∧ m' = { m with targets := m.targets.resetFlags, inService := false } := by
  simp only [Mshr.deallocate, bind_ok, assert, check_ok, List.isEmpty_iff] at h
  obtain ⟨-, he, -, -, -, -, h⟩ := h
  cases h
  exact ⟨he, rfl⟩

theorem mshr_allocate_ok (h : m.allocate now addr size pkt time order = .ok m') :
    m'.addr = addr ∧ m'.size = size ∧ m'.readyTime = time ∧ m'.order = order ∧ m'.inService = false ∧
      m'.isForward = false := by
  simp only [Mshr.allocate, bind_ok] at h
  obtain ⟨-, -, -, -, h⟩ := h
  cases h
  exact ⟨rfl, rfl, rfl, rfl, rfl, rfl⟩

/-- A register that is sent waits for its response, unless there will be none. -/
theorem mshr_markInService_ok {done : Bool} (h : m.markInService pkt = .ok (m', done)) :
    m.inService = false ∧ ((done = true ∧ m.targets.list ≠ [] ∧ m' = m.popTarget) ∨
      (done = false ∧ m'.inService = true ∧ m'.addr = m.addr ∧ m'.isForward = m.isForward ∧
        m'.targets = m.targets ∧ m'.deferredTargets = m.deferredTargets ∧ m'.ntargets = m.ntargets)) := by
  simp only [Mshr.markInService, bind_ok, assert, check_ok, Bool.not_eq_true'] at h
  obtain ⟨-, hs, d, hd, h⟩ := h
  refine ⟨hs, ?_⟩
  cases d with
  | true =>
    cases h
    refine .inl ⟨rfl, ?_, rfl⟩
    intro hn
    simp only [Mshr.isForwardNoResponse] at hd
    split at hd
    · simp only [Mshr.getTarget, hn, List.head?_nil, orFail, bind_ok] at hd
      obtain ⟨x, hx, -⟩ := hd
      cases hx
    · cases hd
  | false =>
    cases h
    exact .inr ⟨rfl, rfl, rfl, rfl, rfl, rfl, rfl⟩

namespace ListsOk

variable {r : Nat} {q q' : MshrQueue} {m : Mshr} {pkt : Packet}

theorem put (h : ListsOk q) (hs : m.inService = (q.registers r).inService) : ListsOk (q.put r m) where
  nodup := h.nodup
  ready r' := by
    rw [MshrQueue.put_registers]
    split
    · next he => rw [hs, ← he]; exact h.ready r'
    · exact h.ready r'
  readyNodup := h.readyNodup
  busy r' hb := by
    rw [MshrQueue.put_registers] at hb
    split at hb
    · next he => rw [hs, ← he] at hb; exact h.busy r' hb
    · exact h.busy r' hb

theorem allocate (h : ListsOk q) (ha : q.allocate now addr size pkt time order = .ok (q', r)) :
    ListsOk q' ∧ r ∉ q.allocatedList := by
  obtain ⟨free, m, l, hf, hm, hl, rfl⟩ := MshrQueue.allocate_ok ha
  have hnd := h.nodup
  rw [hf] at hnd
  have hr : r ∉ q.allocatedList := fun hr =>
    (List.nodup_append.1 hnd).2.2 r hr r List.mem_cons_self rfl
  have hrs : (q.registers r).inService = false := by
    cases hb : (q.registers r).inService with
    | false => rfl
    | true => exact absurd (h.busy r hb) hr
  have hms : m.inService = (q.registers r).inService := by rw [hrs, (mshr_allocate_ok hm).2.2.2.2.1]
  have hp := h.put (r := r) hms
  refine ⟨⟨?_, fun r' => ?_, ?_, fun r' hb => ?_⟩, hr⟩
  · show ((q.allocatedList ++ [r]) ++ free).Nodup
    rwa [List.append_assoc, List.singleton_append]
  · have := hp.ready r'
    simp only [MshrQueue.put] at this ⊢
    rw [hl.mem_iff, List.mem_cons, this, List.mem_append, List.mem_singleton]
    constructor
    · rintro (rfl | ⟨h1, h2⟩)
      · exact ⟨.inr rfl, by simp [hms, hrs]⟩
      · exact ⟨.inl h1, h2⟩
    · rintro ⟨h1 | h1, h2⟩
      · exact .inr ⟨h1, h2⟩
      · exact .inl h1
  · refine hl.nodup_iff.2 (List.nodup_cons.2 ⟨fun hr' => hr ((h.ready r).1 hr').1, h.readyNodup⟩)
  · exact List.mem_append_left _ (hp.busy r' hb)

theorem deallocate (h : ListsOk q) (hr : r ∈ q.allocatedList) (hd : q.deallocate r = .ok q') : ListsOk q' := by
  obtain ⟨m, hm, rfl⟩ := MshrQueue.deallocate_ok hd
  obtain ⟨-, rfl⟩ := mshr_deallocate_ok hm
  have hnd := h.nodup
  have hna := (List.nodup_append.1 hnd).1
  have hmem : ∀ r', r' ∈ q.allocatedList.erase r ↔ r' ≠ r ∧ r' ∈ q.allocatedList := fun r' => hna.mem_erase_iff
  have hready : ∀ r', r' ∈ (if (q.registers r).inService then q.readyList else q.readyList.erase r) ↔
      r' ≠ r ∧ r' ∈ q.readyList := by
    intro r'
    split
    · next hs =>
      constructor
      · intro h'
        refine ⟨?_, h'⟩
        rintro rfl
        have := ((h.ready r').1 h').2
        rw [hs] at this
        cases this
      · exact fun h' => h'.2
    · exact h.readyNodup.mem_erase_iff
  refine ⟨?_, fun r' => ?_, ?_, fun r' hb => ?_⟩
  · refine (List.Perm.nodup_iff ?_).2 hnd
    refine List.perm_middle.trans ?_
    exact (List.perm_cons_erase hr).symm.append_right q.freeList
  · rw [hready, hmem]
    simp only [MshrQueue.put_registers]
    constructor
    · rintro ⟨h1, h2⟩
      rw [if_neg h1]
      exact ⟨⟨h1, ((h.ready r').1 h2).1⟩, ((h.ready r').1 h2).2⟩
    · rintro ⟨⟨h1, h2⟩, h3⟩
      rw [if_neg h1] at h3
      exact ⟨h1, (h.ready r').2 ⟨h2, h3⟩⟩
  · split
    · exact h.readyNodup
    · exact h.readyNodup.erase r
  · simp only [MshrQueue.put_registers] at hb
    split at hb
    · cases hb
    · next he => exact (hmem r').2 ⟨he, h.busy r' hb⟩

/-- A sent register leaves the ready list, and the queue if it gets no response. -/
theorem markInService (h : ListsOk q) (hr : r ∈ q.allocatedList) (hm : q.markInService r pkt = .ok q') :
    ListsOk q' := by
  simp only [MshrQueue.markInService, bind_ok] at hm
  obtain ⟨⟨m, done⟩, hd, hm⟩ := hm
  obtain ⟨hs, ⟨rfl, -, rfl⟩ | ⟨rfl, h1, -⟩⟩ := mshr_markInService_ok hd
  · exact (h.put (r := r) (m := (q.registers r).popTarget) rfl).deallocate hr hm
  · cases hm
    refine ⟨h.nodup, fun r' => ?_, h.readyNodup.erase r, fun r' hb => ?_⟩
    · simp only [MshrQueue.put_registers, h.readyNodup.mem_erase_iff, h.ready r']
      show r' ≠ r ∧ r' ∈ q.allocatedList ∧ (q.registers r').inService = false ↔
        r' ∈ q.allocatedList ∧ (if r' = r then m else q.registers r').inService = false
      by_cases he : r' = r
      · rw [if_pos he, h1]
        simp [he]
      · rw [if_neg he]
        simp [he]
    · simp only [MshrQueue.put_registers] at hb
      split at hb
      · next he => rw [he]; exact hr
      · exact h.busy r' hb

theorem markPending (h : ListsOk q) (hm : q.markPending r = .ok q') : ListsOk q' := by
  simp only [MshrQueue.markPending, bind_ok, assert, check_ok] at hm
  obtain ⟨-, hs, hm⟩ := hm
  obtain ⟨l, rfl, hl⟩ := MshrQueue.addToReadyList_ok hm
  have hr : r ∈ q.allocatedList := h.busy r hs
  have hnr : r ∉ q.readyList := by
    intro h'
    have := ((h.ready r).1 h').2
    rw [hs] at this
    cases this
  refine ⟨h.nodup, fun r' => ?_, hl.nodup_iff.2 (List.nodup_cons.2 ⟨hnr, h.readyNodup⟩), fun r' hb => ?_⟩
  · rw [hl.mem_iff, List.mem_cons]
    simp only [MshrQueue.put_registers]
    show r' = r ∨ r' ∈ q.readyList ↔ r' ∈ q.allocatedList ∧
      (if r' = r then _ else q.registers r').inService = false
    by_cases he : r' = r
    · rw [if_pos he, he]
      simp [hr]
    · rw [if_neg he, h.ready r']
      simp [he]
  · simp only [MshrQueue.put_registers] at hb
    split at hb
    · cases hb
    · exact h.busy r' hb

end ListsOk

namespace QueueOk

variable {g : Geometry} {t r : Nat} {q q' : MshrQueue} {m : Mshr} {pkt : Packet}

theorem lists (h : QueueOk g t q) : ListsOk q := ⟨h.nodup, h.ready, h.readyNodup, h.busy⟩

theorem of_lists (h : ListsOk q) (hr : ∀ r, RegOk g t (q.registers r))
    (hf : ∀ r, r ∉ q.allocatedList → (q.registers r).ntargets = 0) : QueueOk g t q :=
  ⟨h.nodup, h.ready, h.readyNodup, h.busy, hr, hf⟩

theorem mem_of_ntargets (h : QueueOk g t q) (hn : (q.registers r).ntargets ≠ 0) : r ∈ q.allocatedList := by
  by_contra hr
  exact hn (h.free r hr)

theorem regs_put (h : QueueOk g t q) (hm : RegOk g t m) (r' : Nat) : RegOk g t ((q.put r m).registers r') := by
  rw [MshrQueue.put_registers]
  split
  · exact hm
  · exact h.regs r'

/-- Whether the other registers are free does not change. -/
theorem free_put (h : QueueOk g t q) {l : List Nat} (hl : ∀ r', r' ≠ r → r' ∉ l → r' ∉ q.allocatedList)
    (hr : r ∉ l → m.ntargets = 0) (r' : Nat) (hr' : r' ∉ l) : ((q.put r m).registers r').ntargets = 0 := by
  rw [MshrQueue.put_registers]
  split
  · next he => exact hr (he ▸ hr')
  · next he => exact h.free r' (hl r' he hr')

theorem put (h : QueueOk g t q) (hr : r ∈ q.allocatedList) (hm : RegOk g t m)
    (hs : m.inService = (q.registers r).inService) : QueueOk g t (q.put r m) :=
  of_lists (h.lists.put hs) (h.regs_put hm) (h.free_put (fun _ _ hn => hn) fun hn => absurd hr hn)

theorem allocate (h : QueueOk g t q) (ht : pkt.threadID = t) (hn : g.blkAddr pkt.addr = g.blkAddr addr)
    (ha : q.allocate now addr size pkt time order = .ok (q', r)) : QueueOk g t q' ∧ r ∉ q.allocatedList := by
  obtain ⟨hl, hr⟩ := h.lists.allocate ha
  obtain ⟨free, m, l, -, hm, -, rfl⟩ := MshrQueue.allocate_ok ha
  refine ⟨of_lists hl (h.regs_put ((h.regs r).allocate (h.free r hr) ht hn hm)) (h.free_put ?_ ?_), hr⟩
  · exact fun r' _ hn hr' => hn (List.mem_append_left _ hr')
  · exact fun hn => absurd (List.mem_append_right _ (List.mem_singleton_self r)) hn

theorem deallocate (h : QueueOk g t q) (hr : r ∈ q.allocatedList)
    (hdef : (q.registers r).deferredTargets.list = []) (hd : q.deallocate r = .ok q') : QueueOk g t q' := by
  have hl := h.lists.deallocate hr hd
  have hreg := h.regs r
  obtain ⟨m, hm, rfl⟩ := MshrQueue.deallocate_ok hd
  obtain ⟨he, rfl⟩ := mshr_deallocate_ok hm
  refine of_lists hl (h.regs_put ⟨hreg.count, hreg.mem, fun _ => hdef⟩) (h.free_put ?_ fun _ => ?_)
  · exact fun r' hne hn hr' => hn ((List.mem_erase_of_ne hne).2 hr')
  · show (q.registers r).ntargets = 0
    rw [hreg.count, he, hdef]
    rfl

theorem markInService (h : QueueOk g t q) (hr : r ∈ q.allocatedList) (hm : q.markInService r pkt = .ok q') :
    QueueOk g t q' := by
  have hl := h.lists.markInService hr hm
  have hreg := h.regs r
  simp only [MshrQueue.markInService, bind_ok] at hm
  obtain ⟨⟨m, done⟩, hd, hm⟩ := hm
  obtain ⟨hs, ⟨rfl, hne, rfl⟩ | ⟨rfl, h1, h2, -, h4, h5, h6⟩⟩ := mshr_markInService_ok hd
  · refine (h.put hr (hreg.popTarget hne) rfl).deallocate hr ?_ hm
    rw [MshrQueue.put_registers, if_pos rfl]
    exact hreg.idle hs
  · cases hm
    refine of_lists hl (h.regs_put ⟨?_, ?_, ?_⟩) (h.free_put (fun _ _ hn => hn) fun hn => absurd hr hn)
    · rw [h6, h4, h5]; exact hreg.count
    · rw [h4, h5, h2]; exact hreg.mem
    · rw [h5]; exact fun _ => hreg.idle hs

theorem markPending (h : QueueOk g t q) (hr : r ∈ q.allocatedList)
    (hdef : (q.registers r).deferredTargets.list = []) (hm : q.markPending r = .ok q') : QueueOk g t q' := by
  have hl := h.lists.markPending hm
  have hreg := h.regs r
  simp only [MshrQueue.markPending, bind_ok] at hm
  obtain ⟨-, -, hm⟩ := hm
  obtain ⟨l, rfl, -⟩ := MshrQueue.addToReadyList_ok hm
  exact of_lists hl (h.regs_put ⟨hreg.count, hreg.mem, fun _ => hdef⟩)
    (h.free_put (fun _ _ hn => hn) fun hn => absurd hr hn)

end QueueOk

/-! ## Control states -/

namespace Control

variable {c : Control} {ref ref' : MshrRef}

/-- Two registers of one queue. -/
def SameQueue (ref ref' : MshrRef) : Prop := ref'.inWriteBuffer = ref.inWriteBuffer ∧ ref'.tid = ref.tid

theorem queue_putQueue (c : Control) (ref ref' : MshrRef) (q : MshrQueue) :
    (SameQueue ref ref' → (c.putQueue ref q).queue ref' = q) ∧
      (¬SameQueue ref ref' → (c.putQueue ref q).queue ref' = c.queue ref') := by
  obtain ⟨w, t, r⟩ := ref
  obtain ⟨w', t', r'⟩ := ref'
  constructor
  · rintro ⟨rfl, rfl⟩
    cases w' <;> simp [putQueue, queue]
  · intro h
    cases w <;> cases w' <;> simp_all [putQueue, queue, SameQueue]

theorem queue_eq_of_same (c : Control) (h : SameQueue ref ref') : c.queue ref' = c.queue ref := by
  unfold queue
  rw [h.1, h.2]

/-- A register and its queue after an update of one register. -/
theorem mshr_putMshr (c : Control) (ref ref' : MshrRef) (m : Mshr) :
    (c.putMshr ref m).mshr ref' = if ref' = ref then m else c.mshr ref' := by
  unfold putMshr mshr
  by_cases hs : SameQueue ref ref'
  · rw [(queue_putQueue c ref ref' _).1 hs, MshrQueue.put_registers, queue_eq_of_same c hs]
    obtain ⟨w, t, r⟩ := ref
    obtain ⟨w', t', r'⟩ := ref'
    obtain ⟨rfl, rfl⟩ : w' = w ∧ t' = t := hs
    by_cases hr : r' = r <;> simp [hr]
  · rw [(queue_putQueue c ref ref' _).2 hs, if_neg]
    rintro rfl
    exact hs ⟨rfl, rfl⟩

end Control

def CtlOk (g : Geometry) (c : Control) : Prop := ∀ ref : MshrRef, QueueOk g ref.tid (c.queue ref)

/-- The packets that may get a register or join one: by queue (`true` for the
write buffer) and ready time. -/
abbrev Newcomer := Bool → Nat → Packet → Prop

/-- What may happen to a register besides being allocated, sent and answered,
with the order counter afterwards; only packets that `new` allows become targets. -/
inductive Update (g : Geometry) (now : Nat) (new : Newcomer) (c : Control) (ref : MshrRef) :
    Mshr → Nat → Prop where
  | target {pkt : Packet} {m : Mshr} (hn : new false (now + g.hitLatency) pkt) (hw : ref.inWriteBuffer = false)
      (ht : pkt.threadID = ref.tid) (hu : pkt.req.isUncacheable = false)
      (hf : (c.mshrQueues ref.tid).findMatch (blockAlign g pkt.addr) = some ref.reg)
      (h : (c.mshr ref).allocateTarget now pkt (now + g.hitLatency) c.order = .ok m) :
      Update g now new c ref m (c.order + 1)
  | snoop {pkt : Packet} (hw : ref.inWriteBuffer = false) (ht : pkt.threadID = ref.tid)
      (hu : pkt.req.isUncacheable = false)
      (hf : (c.mshrQueues ref.tid).findMatch (blockAlign g pkt.addr) = some ref.reg) :
      Update g now new c ref ((c.mshr ref).handleSnoop now pkt c.order).1 (c.order + 1)
  | share {x : Target} (hw : ref.inWriteBuffer = true) (hx : (c.mshr ref).targets.list.head? = some x) :
      Update g now new c ref (State.shareWriteback (c.mshr ref) x) c.order
  | forward (v : Bool) (hr : ref.reg ∈ (c.queue ref).readyList) :
      Update g now new c ref { c.mshr ref with isForward := v } c.order

/-- The reasons for which a register is allocated: its queue, address, size and ready time. -/
inductive Alloc (g : Geometry) (now : Nat) (c : Control) (pkt : Packet) : Bool → Nat → Nat → Nat → Prop where
  | write (hc : pkt.cmd = .writeback ∨ pkt.req.isUncacheable = true) (hr : pkt.isRead = false) :
      Alloc g now c pkt true pkt.addr pkt.size (now + g.hitLatency)
  | evict (hc : pkt.cmd = .writeback) (ha : blockAlign g pkt.addr = pkt.addr) :
      Alloc g now c pkt true pkt.addr g.blkSize now
  | miss (hu : pkt.req.isUncacheable = false)
      (hm : (c.mshrQueues pkt.threadID).findMatch (blockAlign g pkt.addr) = none) :
      Alloc g now c pkt false (blockAlign g pkt.addr) g.blkSize (now + g.hitLatency)
  | prefetch (hc : pkt.cmd = .hardPFReq) (hu : pkt.req.isUncacheable = false) (ht : pkt.threadID = 0) :
      Alloc g now c pkt false (blockAlign g pkt.addr) g.blkSize now
  | read (hu : pkt.req.isUncacheable = true) : Alloc g now c pkt false pkt.addr pkt.size (now + g.hitLatency)

/-- What a cache does to its queues; only register `fin` is answered, and only
packets that `new` allows get a register or join one. -/
inductive Ctl (g : Geometry) (now : Nat) (fin : Option MshrRef) (new : Newcomer) (c : Control) :
    Control → Prop where
  | flags {c' : Control} (hm : c'.mshrQueues = c.mshrQueues) (hw : c'.writeBuffers = c.writeBuffers)
      (ho : c.order ≤ c'.order) : Ctl g now fin new c c'
  | alloc {inWb : Bool} {addr size time r : Nat} {pkt : Packet} {q : MshrQueue} (hn : new inWb time pkt)
      (ha : Alloc g now c pkt inWb addr size time)
      (h : (c.queue ⟨inWb, pkt.threadID, 0⟩).allocate now addr size pkt time c.order = .ok (q, r)) :
      Ctl g now fin new c { c.putQueue ⟨inWb, pkt.threadID, 0⟩ q with order := c.order + 1 }
  | update {ref : MshrRef} {m : Mshr} {order : Nat} (h : Update g now new c ref m order) :
      Ctl g now fin new c { c.putMshr ref m with order := order }
  | sent {ref : MshrRef} {pkt : Packet} {q : MshrQueue} (hr : ref.reg ∈ (c.queue ref).allocatedList)
      (h : (c.queue ref).markInService ref.reg pkt = .ok q) : Ctl g now fin new c (c.putQueue ref q)
  | promoted {ref : MshrRef} {m m' : Mshr} {q : MshrQueue} (hfin : fin = some ref)
      (hm : m = c.mshr ref ∨ ∃ pkt, (c.mshr ref).handleFill pkt = .ok m)
      (hp : (State.servedMshr m).promoteDeferredTargets now = .ok (m', true))
      (h : ((c.putMshr ref m').queue ref).markPending ref.reg = .ok q) :
      Ctl g now fin new c ((c.putMshr ref m').putQueue ref q)
  | freed {ref : MshrRef} {m m' : Mshr} {q : MshrQueue} (hfin : fin = some ref)
      (hr : ref.reg ∈ (c.queue ref).allocatedList)
      (hm : m = c.mshr ref ∨ ∃ pkt, (c.mshr ref).handleFill pkt = .ok m)
      (hp : (State.servedMshr m).promoteDeferredTargets now = .ok (m', false))
      (h : ((c.putMshr ref m').queue ref).deallocate ref.reg = .ok q) :
      Ctl g now fin new c ((c.putMshr ref m').putQueue ref q)

section

variable {g : Geometry} {now : Nat} {fin : Option MshrRef} {new : Newcomer} {c c' : Control} {ref : MshrRef}
  {m m' : Mshr}

/-! ## The invariant is kept -/

theorem CtlOk.putQueue (h : CtlOk g c) (hq : QueueOk g ref.tid q) : CtlOk g (c.putQueue ref q) := by
  intro ref'
  by_cases hs : Control.SameQueue ref ref'
  · rw [(Control.queue_putQueue c ref ref' q).1 hs, hs.2]
    exact hq
  · rw [(Control.queue_putQueue c ref ref' q).2 hs]
    exact h ref'

theorem CtlOk.putMshr (h : CtlOk g c) (hr : ref.reg ∈ (c.queue ref).allocatedList) (hm : RegOk g ref.tid m)
    (hs : m.inService = (c.mshr ref).inService) : CtlOk g (c.putMshr ref m) :=
  h.putQueue ((h ref).put hr hm hs)

theorem CtlOk.flags (h : CtlOk g c) (hm : c'.mshrQueues = c.mshrQueues) (hw : c'.writeBuffers = c.writeBuffers) :
    CtlOk g c' := by
  intro ref
  have := h ref
  unfold Control.queue at this ⊢
  rwa [hm, hw]

/-- A register found for an address is of the address's block. -/
theorem addr_of_findMatch (h : q.findMatch addr = some r) :
    r ∈ q.allocatedList ∧ (q.registers r).addr = addr := by
  have h1 := List.find?_some h
  exact ⟨List.mem_of_find?_eq_some h, by simpa using h1⟩

theorem blkAddr_of_findMatch (hw : ref.inWriteBuffer = false)
    (h : (c.mshrQueues ref.tid).findMatch (blockAlign g addr) = some ref.reg) :
    g.blkAddr addr = g.blkAddr (c.mshr ref).addr := by
  have he : c.mshr ref = (c.mshrQueues ref.tid).registers ref.reg := by
    simp [Control.mshr, Control.queue, hw]
  rw [he, (addr_of_findMatch h).2, blkAddr_blockAlign]

/-- A register that serves the same request as before. -/
structure Mshr.Alike (m m' : Mshr) : Prop where
  inService : m'.inService = m.inService
  addr : m'.addr = m.addr
  size : m'.size = m.size
  isForward : m'.isForward = m.isForward
  isUncacheable : m'.isUncacheable = m.isUncacheable
  order : m'.order = m.order
  readyTime : m'.readyTime = m.readyTime

theorem mshr_handleSnoop_alike (m : Mshr) (pkt : Packet) (now order : Nat) :
    m.Alike (m.handleSnoop now pkt order).1 := by
  obtain ⟨ts, ds, n, inval, down, he, -⟩ := m.handleSnoop_cases now pkt order
  rw [he]
  exact ⟨rfl, rfl, rfl, rfl, rfl, rfl, rfl⟩

theorem mshr_allocateTarget_alike (h : m.allocateTarget now pkt time order = .ok m') : m.Alike m' := by
  simp only [Mshr.allocateTarget, bind_ok] at h
  obtain ⟨-, -, h⟩ := h
  split at h <;> cases h <;> exact ⟨rfl, rfl, rfl, rfl, rfl, rfl, rfl⟩

/-- Only `isForward` may change, and only of a register that was not sent. -/
theorem Update.alike (h : Update g now new c ref m o) :
    (c.mshr ref).Alike m ∨ ref.reg ∈ (c.queue ref).readyList ∧ ∃ v, m = { c.mshr ref with isForward := v } := by
  cases h with
  | target hn hw ht hu hf h => exact .inl (mshr_allocateTarget_alike h)
  | snoop hw ht hu hf => exact .inl (mshr_handleSnoop_alike _ _ _ _)
  | share hw hx => exact .inl ⟨rfl, rfl, rfl, rfl, rfl, rfl, rfl⟩
  | forward v hr => exact .inr ⟨hr, v, rfl⟩

theorem Update.inService (h : Update g now new c ref m o) : m.inService = (c.mshr ref).inService := by
  obtain h | ⟨-, v, rfl⟩ := h.alike
  · exact h.inService
  · rfl

theorem Update.ok (hc : CtlOk g c) (h : Update g now new c ref m o) : RegOk g ref.tid m := by
  have hreg : RegOk g ref.tid (c.mshr ref) := (hc ref).regs ref.reg
  cases h with
  | target hn hw ht hu hf h => exact hreg.allocateTarget ht (blkAddr_of_findMatch hw hf) h
  | snoop hw ht hu hf => exact hreg.handleSnoop ht (blkAddr_of_findMatch hw hf)
  | share hw hx => exact hreg.shareWriteback hx
  | forward v hr => exact ⟨hreg.count, hreg.mem, hreg.idle⟩

theorem allocated_of_findMatch (hw : ref.inWriteBuffer = false)
    (h : (c.mshrQueues ref.tid).findMatch addr = some ref.reg) : ref.reg ∈ (c.queue ref).allocatedList := by
  have := (addr_of_findMatch h).1
  rwa [Control.queue, hw]

/-- A register that has targets is allocated. -/
theorem CtlOk.allocated (hc : CtlOk g c)
    (hn : (c.mshr ref).targets.list ≠ [] ∨ (c.mshr ref).deferredTargets.list ≠ []) :
    ref.reg ∈ (c.queue ref).allocatedList := by
  refine (hc ref).mem_of_ntargets fun h0 => ?_
  have h := ((hc ref).regs ref.reg).empty h0
  exact hn.elim (fun hn => hn h.1) fun hn => hn h.2

theorem Update.allocated (hc : CtlOk g c) (h : Update g now new c ref m o) :
    ref.reg ∈ (c.queue ref).allocatedList := by
  cases h with
  | target hn hw ht hu hf h => exact allocated_of_findMatch hw hf
  | snoop hw ht hu hf => exact allocated_of_findMatch hw hf
  | share hw hx => exact hc.allocated (.inl fun hn => by rw [hn] at hx; cases hx)
  | forward v hr => exact (((hc ref).ready _).1 hr).1

theorem Alloc.blkAddr {inWb : Bool} (h : Alloc g now c pkt inWb addr size time) :
    g.blkAddr pkt.addr = g.blkAddr addr := by
  cases h with
  | write hc hr => rfl
  | evict hc ha => rfl
  | miss hu hm => rw [blkAddr_blockAlign]
  | prefetch hc hu ht => rw [blkAddr_blockAlign]
  | read hu => rfl

theorem mshr_handleFill_alike (h : m.handleFill pkt = .ok m') : m.Alike m' := by
  obtain ⟨-, rfl⟩ | ⟨-, rfl⟩ := Mshr.handleFill_cases h
  · exact ⟨rfl, rfl, rfl, rfl, rfl, rfl, rfl⟩
  · exact ⟨rfl, rfl, rfl, rfl, rfl, rfl, rfl⟩

/-- The register that waits for the deferred targets, or has none left. -/
theorem mshr_promote_ok (h : (State.servedMshr m).promoteDeferredTargets now = .ok (m', promoted)) :
    m'.inService = m.inService ∧ m'.addr = m.addr ∧ m'.size = m.size ∧ m'.isForward = m.isForward ∧
      m'.isUncacheable = m.isUncacheable ∧ m'.deferredTargets.list = [] ∧
      ((promoted = false ∧ m'.targets.list = [] ∧ m.deferredTargets.list = []) ∨
        ∃ x xs, promoted = true ∧ m.deferredTargets.list = x :: xs ∧ m'.targets = m.deferredTargets ∧
          m'.order = x.order ∧ m'.readyTime = max now x.readyTime) := by
  simp only [Mshr.promoteDeferredTargets, bind_ok] at h
  obtain ⟨-, -, h⟩ := h
  split at h
  · next hd =>
    cases h
    exact ⟨rfl, rfl, rfl, rfl, rfl, hd, .inl ⟨rfl, rfl, hd⟩⟩
  · next x xs hd =>
    simp only [bind_ok] at h
    obtain ⟨-, -, h⟩ := h
    cases h
    exact ⟨rfl, rfl, rfl, rfl, rfl, rfl, .inr ⟨x, xs, rfl, hd, rfl, rfl, rfl⟩⟩

/-- The register that `finishMshr` works on. -/
theorem CtlOk.served (hc : CtlOk g c) (hm : m = c.mshr ref ∨ ∃ pkt, (c.mshr ref).handleFill pkt = .ok m)
    (hr : ref.reg ∈ (c.queue ref).allocatedList)
    (hp : (State.servedMshr m).promoteDeferredTargets now = .ok (m', promoted)) :
    CtlOk g (c.putMshr ref m') := by
  have hreg : RegOk g ref.tid (c.mshr ref) := (hc ref).regs ref.reg
  have h1 := mshr_promote_ok hp
  obtain rfl | ⟨pkt, hf⟩ := hm
  · exact hc.putMshr hr (hreg.promote hp) h1.1
  · exact hc.putMshr hr ((hreg.handleFill hf).promote hp) (h1.1.trans (mshr_handleFill_alike hf).inService)

/-- A register that waits for its deferred targets is allocated. -/
theorem CtlOk.allocated_of_promoted (hc : CtlOk g c)
    (hm : m = c.mshr ref ∨ ∃ pkt, (c.mshr ref).handleFill pkt = .ok m)
    (hp : (State.servedMshr m).promoteDeferredTargets now = .ok (m', true)) :
    ref.reg ∈ (c.queue ref).allocatedList := by
  obtain ⟨-, -, -, -, -, -, ⟨h, -⟩ | ⟨x, xs, -, hd, -⟩⟩ := mshr_promote_ok hp
  · cases h
  have hne : m.deferredTargets.list ≠ [] := by simp [hd]
  obtain rfl | ⟨pkt, hf⟩ := hm
  · exact hc.allocated (.inr hne)
  · obtain ⟨-, rfl⟩ | ⟨-, rfl⟩ := Mshr.handleFill_cases hf
    · exact hc.allocated (.inr hne)
    · exact absurd rfl hne

theorem deferred_putMshr (hp : (State.servedMshr m).promoteDeferredTargets now = .ok (m', promoted)) :
    (((c.putMshr ref m').queue ref).registers ref.reg).deferredTargets.list = [] := by
  show ((c.putMshr ref m').mshr ref).deferredTargets.list = []
  rw [Control.mshr_putMshr, if_pos rfl]
  exact (mshr_promote_ok hp).2.2.2.2.2.1

theorem allocatedList_putMshr (c : Control) (ref : MshrRef) (m : Mshr) :
    ((c.putMshr ref m).queue ref).allocatedList = (c.queue ref).allocatedList := by
  rw [Control.putMshr, (Control.queue_putQueue c ref ref _).1 ⟨rfl, rfl⟩]
  rfl

theorem Ctl.ok (hc : CtlOk g c) (h : Ctl g now fin new c c') : CtlOk g c' := by
  cases h with
  | flags hm hw ho => exact hc.flags hm hw
  | @alloc inWb addr size time r pkt q hn ha h =>
    exact (CtlOk.putQueue hc
      ((hc ⟨inWb, pkt.threadID, 0⟩).allocate rfl ha.blkAddr h).1).flags rfl rfl
  | update h => exact (hc.putMshr (h.allocated hc) (h.ok hc) h.inService).flags rfl rfl
  | sent hr h => exact hc.putQueue ((hc _).markInService hr h)
  | promoted hfin hm hp h =>
    have hr := hc.allocated_of_promoted hm hp
    refine (hc.served hm hr hp).putQueue ((hc.served hm hr hp _).markPending ?_ (deferred_putMshr hp) h)
    rwa [allocatedList_putMshr]
  | freed hfin hr hm hp h =>
    refine (hc.served hm hr hp).putQueue ((hc.served hm hr hp _).deallocate ?_ (deferred_putMshr hp) h)
    rwa [allocatedList_putMshr]

end

end DynamicCache.Cache
