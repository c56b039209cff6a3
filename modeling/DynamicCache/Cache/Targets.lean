import DynamicCache.Cache.Registers

/-!
# Where the targets of a register come from

`Ctl` seen from the targets: a target of a register was there before, or the
register was allocated for it, or a request joined the register, or a snoop was
saved with it (`Arrival`, `Ctl.arrival`).  What holds of all targets of a queue
is shown by going through these four.
-/

namespace DynamicCache.Cache

open Lib Tags

def Mshr.Has (m : Mshr) (x : Target) : Prop := x ∈ m.targets.list ∨ x ∈ m.deferredTargets.list

/-! ## Single registers -/

section

variable {m m' : Mshr} {pkt : Packet} {x : Target} {now time order : Nat}

theorem has_allocateTarget (h : m.allocateTarget now pkt time order = .ok m') (hx : m'.Has x) :
    m.Has x ∨ Target.Alike ⟨now, time, order, pkt, .fromCPU⟩ x := by
  simp only [Mshr.allocateTarget, bind_ok] at h
  obtain ⟨-, -, h⟩ := h
  split at h <;> cases h
  · obtain hx | hx := hx
    · exact .inl (.inl hx)
    · simp only [TargetList.add, List.mem_append, List.mem_singleton] at hx
      obtain hx | rfl := hx
      · exact .inl (.inr hx)
      · right
        split
        · exact ⟨rfl, rfl, rfl, rfl, rfl, rfl, rfl, .inr rfl⟩
        · exact .refl _
  · obtain hx | hx := hx
    · simp only [TargetList.add, List.mem_append, List.mem_singleton] at hx
      obtain hx | rfl := hx
      · exact .inl (.inl hx)
      · exact .inr (.refl _)
    · exact .inl (.inr hx)

theorem has_handleSnoop (hx : (m.handleSnoop now pkt order).1.Has x) :
    (∃ y, m.Has y ∧ y.Alike x) ∨ x.source = .fromSnoop ∧ x.order = order := by
  obtain h | rfl := RegOk.mem_handleSnoop hx
  · exact .inl h
  · exact .inr ⟨rfl, rfl⟩

theorem has_shareWriteback {y : Target} (hy : m.targets.list.head? = some y)
    (hx : (State.shareWriteback m y).Has x) : ∃ y, m.Has y ∧ y.Alike x := by
  simp only [State.shareWriteback, Mshr.Has, List.mem_cons] at hx
  obtain (rfl | hx) | hx := hx
  · exact ⟨y, .inl (List.mem_of_head? hy), rfl, rfl, rfl, rfl, rfl, rfl, rfl, .inl rfl⟩
  · exact ⟨x, .inl (List.mem_of_mem_tail hx), .refl x⟩
  · exact ⟨x, .inr hx, .refl x⟩

/-- A response moves targets from one list to the other. -/
theorem has_handleFill (h : m.handleFill pkt = .ok m') (hx : m'.Has x) : m.Has x := by
  obtain ⟨-, rfl⟩ | ⟨-, rfl⟩ := Mshr.handleFill_cases h
  · exact hx
  · obtain hx | hx := hx
    · exact List.mem_append.1 hx
    · cases hx

theorem has_promote {promoted : Bool} (h : (State.servedMshr m).promoteDeferredTargets now = .ok (m', promoted))
    (hx : m'.Has x) : x ∈ m.deferredTargets.list := by
  obtain ⟨-, -, -, -, -, hd, ⟨-, ht, -⟩ | ⟨-, -, -, -, ht, -⟩⟩ := mshr_promote_ok h
  · rw [Mshr.Has, ht, hd] at hx
    obtain hx | hx := hx <;> cases hx
  · rw [Mshr.Has, ht, hd] at hx
    obtain hx | hx := hx
    · exact hx
    · cases hx

end

/-! ## All registers -/

/-- How register `ref` got target `x`. -/
inductive Arrival (g : Geometry) (now : Nat) (new : Newcomer) (c c' : Control) (ref : MshrRef) (x : Target) :
    Prop where
  | old {y : Target} (hl : Live c ref) (hy : (c.mshr ref).Has y) (ha : y.Alike x)
      (hu : (c'.mshr ref).isUncacheable = (c.mshr ref).isUncacheable)
  | born {addr size time : Nat} (hn : new ref.inWriteBuffer time x.pkt)
      (ha : Alloc g now c x.pkt ref.inWriteBuffer addr size time)
      (ht : x.pkt.threadID = ref.tid) (h0 : ¬Live c ref) (hm : Born x.pkt addr size time c.order (c'.mshr ref))
      (ho : x.order = c.order) (hr : x.readyTime = time)
  | joined {pkt : Packet} (hn : new false (now + g.hitLatency) pkt) (hw : ref.inWriteBuffer = false)
      (ht : pkt.threadID = ref.tid)
      (hu : pkt.req.isUncacheable = false)
      (hf : (c.mshrQueues ref.tid).findMatch (blockAlign g pkt.addr) = some ref.reg)
      (ha : Target.Alike ⟨now, now + g.hitLatency, c.order, pkt, .fromCPU⟩ x)
      (hu' : (c'.mshr ref).isUncacheable = (c.mshr ref).isUncacheable)
  | snooped (hw : ref.inWriteBuffer = false) (hs : x.source = .fromSnoop) (ho : x.order = c.order)

section

variable {g : Geometry} {now : Nat} {fin : Option MshrRef} {new : Newcomer} {c c' : Control} {ref : MshrRef}
  {x : Target}

theorem Update.arrival {m : Mshr} {o : Nat} (hl : Live c ref) (hm : c'.mshr ref = m)
    (h : Update g now new c ref m o) (hx : m.Has x) : Arrival g now new c c' ref x := by
  have hu : (c'.mshr ref).isUncacheable = (c.mshr ref).isUncacheable := by
    rw [hm]
    obtain ha | ⟨-, v, rfl⟩ := h.alike
    · exact ha.isUncacheable
    · rfl
  cases h with
  | target hn hw ht hu' hf h =>
    obtain hx | ha := has_allocateTarget h hx
    · exact .old hl hx (.refl x) hu
    · exact .joined hn hw ht hu' hf ha hu
  | snoop hw ht hu' hf =>
    obtain ⟨y, hy, ha⟩ | ⟨hs, ho⟩ := has_handleSnoop hx
    · exact .old hl hy ha hu
    · exact .snooped hw hs ho
  | share hw hy =>
    obtain ⟨y, hy, ha⟩ := has_shareWriteback hy hx
    exact .old hl hy ha hu
  | forward v hr => exact .old hl hx (.refl x) hu

theorem Change.arrival (h : Change g now fin new c c' ref) (hl : Live c' ref) (hx : (c'.mshr ref).Has x) :
    Arrival g now new c c' ref x := by
  cases h with
  | born hn ha ht h0 h1 hm ho =>
    obtain ⟨y, hy, hp, hyo, hyt⟩ := hm.targets
    rw [Mshr.Has, hy, hm.deferred, List.mem_singleton] at hx
    obtain rfl | hx := hx
    · rw [← hp] at hn ha ht hm
      exact .born hn ha ht h0 hm hyo hyt
    · cases hx
  | updated h hl' => exact h.arrival (hl'.1 hl) rfl hx
  | sent hl₀ hl' hs hm =>
    obtain ⟨d, hd⟩ := hm
    rw [hd] at hx
    exact .old hl₀ hx (.refl x) (by rw [hd])
  | gone hl' hs hs' => exact absurd hl hl'
  | promoted hfin hl₀ hl' hm hp he =>
    rw [he] at hx
    have hu := (mshr_promote_ok hp).2.2.2.2.1
    have hd := has_promote hp hx
    obtain rfl | ⟨pkt, hf⟩ := hm
    · exact .old hl₀ (.inr hd) (.refl x) (by rw [he]; exact hu)
    · refine .old hl₀ (has_handleFill hf (.inr hd)) (.refl x) ?_
      rw [he]
      exact hu.trans (mshr_handleFill_alike hf).isUncacheable

theorem Ctl.arrival (hc : CtlOk g c) (h : Ctl g now fin new c c') (hl : Live c' ref) (hx : (c'.mshr ref).Has x) :
    Arrival g now new c c' ref x := by
  have hkeep : Keeps c c' ref → Arrival g now new c c' ref x := by
    intro hk
    rw [hk.mshr] at hx
    exact .old (hk.live.1 hl) hx (.refl x) (by rw [hk.mshr])
  obtain ⟨-, hk | ⟨ref₀, hch, hk⟩⟩ := h.change hc
  · exact hkeep (hk ref)
  · by_cases he : ref = ref₀
    · subst he
      exact hch.arrival hl hx
    · exact hkeep (hk ref he)

end

end DynamicCache.Cache
