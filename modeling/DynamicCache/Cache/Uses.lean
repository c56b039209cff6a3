import DynamicCache.Cache.TargetOrder
import DynamicCache.Cache.Resize

/-!
# The calls of the caches

The registers of the caches are used as `Use.issues` says: in every state that a
run of a cache reaches, each register is what some sequence of such calls makes
of it (`caches_issue`), and the threads share none (`registers_stay_with_thread`).
The steps that do not answer a request are taken from
`Ctl`; a response is followed through `handleResponse`, since only there it is
seen that a forwarded request is not filled.
-/

namespace DynamicCache.Cache

open Lib Tags Relation

variable {pkt : Packet} {now time : Nat}

/-- The use of a register that calls of a cache lead to. -/
def Reached (u : Use) : Prop :=
  ∃ calls, Always Use.step (fun u c => u.issues c = true) {} calls ∧ runs Use.step {} calls = .ok u

/-- A register in a phase. -/
def Issued (ph : Phase) (m : Mshr) : Prop := ∃ u, Reached u ∧ u.phase = ph ∧ u.mshr = m

section

variable {u u' : Use} {c : Call} {m m' : Mshr} {ph : Phase}

theorem Reached.ok (h : Reached u) : u.Ok := by
  obtain ⟨calls, hc, hr⟩ := h
  exact runs_invariant Use.Ok (fun _ _ u' hu hc => (hu.step hc).1 u') Use.ok_init hc hr

theorem Reached.step (h : Reached u) (hc : u.issues c = true) (hs : u.step c = .ok u') : Reached u' := by
  obtain ⟨calls, ha, hr⟩ := h
  refine ⟨calls ++ [c], ha.append hr (always_cons.2 ⟨hc, fun _ _ => trivial⟩), ?_⟩
  rw [runs_append hr, runs_singleton, hs]

theorem issued_init : Issued .free {} := ⟨{}, ⟨[], trivial, rfl⟩, rfl, rfl⟩

theorem Issued.targets (h : Issued .held m) : m.targets.list ≠ [] := by
  obtain ⟨u, hu, hp, rfl⟩ := h
  have hs := hu.ok.stage
  rw [hp] at hs
  exact hs.1

/-- One more call. -/
theorem Issued.call {ph' : Phase} (c : Call) (h : Issued ph m)
    (hc : ∀ u : Use, u.phase = ph → u.mshr = m →
      u.issues c = true ∧ (u.step c).map (fun v => (v.phase, v.mshr)) = .ok (ph', m')) : Issued ph' m' := by
  obtain ⟨u, hu, hp, hm⟩ := h
  obtain ⟨hi, hs⟩ := hc u hp hm
  cases hv : u.step c with
  | error e =>
    rw [hv] at hs
    cases hs
  | ok v =>
    rw [hv] at hs
    have he : (v.phase, v.mshr) = (ph', m') := Except.ok.inj hs
    exact ⟨v, hu.step hi hv, congrArg Prod.fst he, congrArg Prod.snd he⟩

theorem Issued.allocate {addr size order : Nat} (h : Issued .free m)
    (hm : m.allocate now addr size pkt time order = .ok m') : Issued .held m' :=
  h.call (.allocate now addr size pkt time order) fun u hp hu =>
    ⟨by simp [Use.issues, hp], by simp only [Use.step, hu, hm]; rfl⟩

theorem Issued.allocateTarget {order : Nat} (h : Issued .held m)
    (hm : m.allocateTarget now pkt time order = .ok m') : Issued .held m' := by
  have hc : pkt.cmd ≠ .hardPFReq := by
    simp only [Mshr.allocateTarget, bind_ok, assert, check_ok, bne_iff_ne] at hm
    exact hm.choose_spec.1
  exact h.call (.allocateTarget now pkt time order) fun u hp hu =>
    ⟨by simp [Use.issues, hp, hc], by simp only [Use.step, hu, hm, hp]; rfl⟩

theorem Issued.handleSnoop (h : Issued .held m) (now : Nat) (pkt : Packet) (order : Nat) :
    Issued .held (m.handleSnoop now pkt order).1 :=
  h.call (.handleSnoop now pkt order) fun u hp hu =>
    ⟨by simp [Use.issues, hp], by simp only [Use.step, hu, hp]; rfl⟩

theorem Issued.setForward (h : Issued .held m) (hi : m.inService = false) (v : Bool) :
    Issued .held { m with isForward := v } :=
  h.call (.setForward v) fun u hp hu =>
    ⟨by simp [Use.issues, hp, hu, hi], by simp only [Use.step, hu, hp]; rfl⟩

theorem Issued.shareWriteback {x : Target} (h : Issued .held m) (hx : m.targets.list.head? = some x) :
    Issued .held (State.shareWriteback m x) :=
  h.call .shareWriteback fun u hp hu =>
    ⟨by simp [Use.issues, hp], by simp only [Use.step, Mshr.getTarget, hu, hx, hp, orFail]; rfl⟩

theorem Issued.deallocate (h : Issued .done m) (hm : m.deallocate = .ok m') : Issued .free m' :=
  h.call .deallocate fun u hp hu => ⟨by simp [Use.issues, hp], by simp only [Use.step, hu, hm]; rfl⟩

theorem Issued.markPending (h : Issued .promoted m) (hi : m.inService = true) :
    Issued .held { m with inService := false } :=
  h.call .markPending fun u hp hu =>
    ⟨by simp [Use.issues, hp], by simp only [Use.step, hu, hi, assert, check]; rfl⟩

theorem Issued.markInService {done : Bool} (h : Issued .held m) (hm : m.markInService pkt = .ok (m', done)) :
    Issued (if done then .done else .held) m' := by
  have hi := (mshr_markInService_ok hm).1
  refine h.call (.markInService pkt) fun u hp hu => ⟨by simp [Use.issues, hp, hu, hi], ?_⟩
  cases done with
  | true => simp only [Use.step, hu, hm]; rfl
  | false => simp only [Use.step, hu, hm, hp]; rfl

theorem Issued.handleFill (h : Issued .held m) (hi : m.inService = true) (hf : m.isForward = false)
    (hm : m.handleFill pkt = .ok m') : Issued .serving m' :=
  h.call (.handleFill pkt) fun u hp hu =>
    ⟨by simp [Use.issues, hp, hu, hi, hf], by simp only [Use.step, hu, hm]; rfl⟩

theorem Issued.promote {promoted : Bool} (h : Issued .serving m) (ht : m.targets.list = [])
    (hm : m.promoteDeferredTargets now = .ok (m', promoted)) :
    Issued (if promoted then .promoted else .done) m' :=
  h.call (.promoteDeferredTargets now) fun u hp hu =>
    ⟨by simp [Use.issues, Mshr.hasTargets, hp, hu, ht], by simp only [Use.step, hu, hm]; rfl⟩

theorem Issued.popTarget (hp : ph = .held ∨ ph = .serving) (h : Issued ph m) (ht : m.targets.list ≠ []) :
    Issued .serving m.popTarget :=
  h.call .popTarget fun u hu hm =>
    ⟨by simp [Use.issues, Mshr.hasTargets, hu, hm, ht, hp], by simp only [Use.step, hm]; rfl⟩

/-- `handleResponse` pops the targets one by one. -/
theorem Issued.serve (hp : ph = .held ∨ ph = .serving) (h : Issued ph m) (ht : m.targets.list ≠ []) :
    Issued .serving (State.servedMshr m) := by
  have hpop := h.popTarget hp ht
  obtain ⟨x, xs, hl⟩ := List.exists_cons_of_ne_nil ht
  induction xs generalizing m x ph with
  | nil =>
    have he : m.popTarget = State.servedMshr m := by
      simp [Mshr.popTarget, State.servedMshr, hl]
    exact he ▸ hpop
  | cons y ys ih =>
    have hl' : m.popTarget.targets.list = y :: ys := by simp [Mshr.popTarget, hl]
    have ht' : m.popTarget.targets.list ≠ [] := by simp [hl']
    have he : State.servedMshr m.popTarget = State.servedMshr m := by
      simp only [State.servedMshr, Mshr.popTarget, hl, List.tail_cons, List.length_cons]
      congr 1
      omega
    exact he ▸ ih (.inr rfl) hpop ht' (hpop.popTarget (.inr rfl) ht') y hl'

end

/-! ## The queues -/

/-- Every allocated register is held and every other one is free. -/
structure CtlIssued (c : Control) : Prop where
  held : ∀ ref, Live c ref → Issued .held (c.mshr ref)
  free : ∀ ref, ¬Live c ref → Issued .free (c.mshr ref)

section

variable {g : Geometry} {now : Nat} {new : Newcomer} {c c' : Control} {ref : MshrRef} {m m' : Mshr}

/-- Only register `ref` changes. -/
theorem CtlIssued.change (hI : CtlIssued c) (hk : ∀ ref', ref' ≠ ref → Keeps c c' ref')
    (hh : Live c' ref → Issued .held (c'.mshr ref)) (hf : ¬Live c' ref → Issued .free (c'.mshr ref)) :
    CtlIssued c' where
  held ref' hl := by
    by_cases he : ref' = ref
    · exact he ▸ hh (he ▸ hl)
    · rw [(hk ref' he).mshr]
      exact hI.held ref' ((hk ref' he).live.1 hl)
  free ref' hl := by
    by_cases he : ref' = ref
    · exact he ▸ hf (he ▸ hl)
    · rw [(hk ref' he).mshr]
      exact hI.free ref' fun h => hl ((hk ref' he).live.2 h)

theorem CtlIssued.keeps (hI : CtlIssued c) (hk : ∀ ref, Keeps c c' ref) : CtlIssued c' where
  held ref hl := by
    rw [(hk ref).mshr]
    exact hI.held ref ((hk ref).live.1 hl)
  free ref hl := by
    rw [(hk ref).mshr]
    exact hI.free ref fun h => hl ((hk ref).live.2 h)

theorem CtlIssued.alloc (hc : CtlOk g c) (hI : CtlIssued c) {inWb : Bool} {addr size r : Nat} {q : MshrQueue}
    (ha : Alloc g now c pkt inWb addr size time)
    (h : (c.queue ⟨inWb, pkt.threadID, 0⟩).allocate now addr size pkt time c.order = .ok (q, r)) :
    CtlIssued { c.putQueue ⟨inWb, pkt.threadID, 0⟩ q with order := c.order + 1 } := by
  have hnew : ¬Live c ⟨inWb, pkt.threadID, r⟩ := ((hc ⟨inWb, pkt.threadID, 0⟩).allocate rfl ha.blkAddr h).2
  obtain ⟨free, m, l, -, hm, -, rfl⟩ := MshrQueue.allocate_ok h
  have hborn : Issued .held m := (hI.free _ hnew).allocate hm
  refine hI.change (fun ref' (hne : ref' ≠ ⟨inWb, pkt.threadID, r⟩) => ?_) (fun _ => ?_) fun hl => absurd ?_ hl
  · refine Keeps.withOrder (keeps_putQueue (fun r' hr => ⟨?_, ?_⟩) hne) _
    · simp only [MshrQueue.put, Function.update_of_ne hr]
      rfl
    · show r' ∈ (c.queue ⟨inWb, pkt.threadID, 0⟩).allocatedList ++ [r] ↔ _
      rw [List.mem_append, List.mem_singleton]
      exact or_iff_left hr
  · show Issued .held ((c.putQueue ⟨inWb, pkt.threadID, r⟩ _).mshr ⟨inWb, pkt.threadID, r⟩)
    rw [mshr_putQueue_self]
    simp only [MshrQueue.put, Function.update_self]
    exact hborn
  · show r ∈ ((c.putQueue ⟨inWb, pkt.threadID, r⟩ _).queue ⟨inWb, pkt.threadID, r⟩).allocatedList
    rw [queue_putQueue_self]
    simp

theorem Update.issued (hc : CtlOk g c) (hI : CtlIssued c) {o : Nat} (h : Update g now new c ref m o) :
    Live c ref ∧ Issued .held m := by
  have hl : Live c ref := h.allocated hc
  refine ⟨hl, ?_⟩
  cases h with
  | target hn hw ht hu hf h => exact (hI.held ref hl).allocateTarget h
  | snoop hw ht hu hf => exact (hI.held ref hl).handleSnoop _ _ _
  | share hw hx => exact (hI.held ref hl).shareWriteback hx
  | forward v hr => exact (hI.held ref hl).setForward (((hc ref).ready ref.reg).1 hr).2 v

theorem CtlIssued.sent (hc : CtlOk g c) (hI : CtlIssued c) {q : MshrQueue} (hl : Live c ref)
    (h : (c.queue ref).markInService ref.reg pkt = .ok q) : CtlIssued (c.putQueue ref q) := by
  have hk := (markInService_change (hc ref) hl h).2.2
  simp only [MshrQueue.markInService, bind_ok] at h
  obtain ⟨⟨m, done⟩, hm, h⟩ := h
  have hsent := (hI.held ref hl).markInService hm
  cases done with
  | true =>
    obtain ⟨m', hm', rfl⟩ := MshrQueue.deallocate_ok h
    have hreg : ((c.queue ref).put ref.reg m).registers ref.reg = m := by simp [MshrQueue.put]
    rw [hreg] at hm'
    refine hI.change (fun ref' hne => keeps_putQueue hk hne) (fun hl' => ?_) fun _ => ?_
    · rw [Live, queue_putQueue_self] at hl'
      exact absurd hl' (List.Nodup.not_mem_erase (List.nodup_append.1 (hc ref).nodup).1)
    · rw [mshr_putQueue_self]
      simp only [MshrQueue.put, Function.update_self]
      exact hsent.deallocate hm'
  | false =>
    cases h
    refine hI.change (fun ref' hne => keeps_putQueue hk hne) (fun _ => ?_) fun hl' => absurd ?_ hl'
    · rw [mshr_putQueue_self]
      simp only [MshrQueue.put, Function.update_self]
      exact hsent
    · rw [Live, queue_putQueue_self]
      exact hl

/-- Nothing but an answer ends a use otherwise. -/
theorem Ctl.issued (hc : CtlOk g c) (hI : CtlIssued c) (h : Ctl g now none new c c') : CtlIssued c' := by
  cases h with
  | flags hm hw ho => exact hI.keeps (keeps_flags hm hw)
  | alloc hn ha h => exact hI.alloc hc ha h
  | @update ref m o h =>
    obtain ⟨hl, hm⟩ := h.issued hc hI
    refine hI.change (fun ref' hne => (keeps_putMshr hne).withOrder o) (fun _ => ?_) fun hl' => absurd ?_ hl'
    · show Issued .held ((c.putMshr ref m).mshr ref)
      rw [Control.mshr_putMshr, if_pos rfl]
      exact hm
    · show ref.reg ∈ ((c.putMshr ref m).queue ref).allocatedList
      rw [allocatedList_putMshr]
      exact hl
  | sent hr h => exact hI.sent hc hr h
  | promoted hfin _ _ _ => cases hfin
  | freed hfin _ _ _ _ => cases hfin

theorem CtlRun.issued (hc : CtlOk g c) (hI : CtlIssued c) (h : CtlRun g now none new c c') : CtlIssued c' := by
  induction h with
  | refl => exact hI
  | tail hr h ih => exact h.issued (CtlRun.ok hc hr) ih

/-- The register that a response works on; only a request that was not forwarded is filled. -/
def Takes (m : Mshr) (pkt : Packet) (m' : Mshr) : Prop :=
  m' = m ∨ m.inService = true ∧ m.isForward = false ∧ m.handleFill pkt = .ok m'

theorem Takes.issued (h : Takes m pkt m') (hm : Issued .held m) : Issued .serving (State.servedMshr m') := by
  obtain rfl | ⟨hi, hf, hm'⟩ := h
  · exact hm.serve (.inl rfl) hm.targets
  · refine (hm.handleFill hi hf hm').serve (.inr rfl) ?_
    obtain ⟨-, rfl⟩ | ⟨-, rfl⟩ := Mshr.handleFill_cases hm'
    · exact hm.targets
    · simp [hm.targets]

theorem CtlIssued.finish (hc : CtlOk g c) (hI : CtlIssued c) (hl : Live c ref) (hm : Takes (c.mshr ref) pkt m)
    {full promoted : Bool} {tid : Nat} (h : State.finishMshr c now ref m full tid = .ok (c', promoted)) :
    CtlIssued c' := by
  simp only [State.finishMshr, bind_ok] at h
  obtain ⟨⟨m', p⟩, hp, h⟩ := h
  have hdone := (hm.issued (hI.held ref hl)).promote rfl hp
  have hmm : ((c.putMshr ref m').queue ref).registers ref.reg = m' := by
    have := Control.mshr_putMshr c ref ref m'
    rwa [if_pos rfl] at this
  cases p with
  | true =>
    simp only [if_true, bind_ok] at h
    obtain ⟨q, hq, h⟩ := h
    cases h
    obtain ⟨h1, h2, h3, h4⟩ := markPending_change hq
    rw [hmm] at h2 h3
    refine hI.change
      (fun ref' hne => (keeps_putMshr hne).trans (keeps_putQueue (fun r hr => ⟨h4 r hr, by rw [h1]⟩) hne))
      (fun _ => ?_) fun hl' => absurd ?_ hl'
    · rw [mshr_putQueue_self, h2]
      exact hdone.markPending h3
    · rw [Live, queue_putQueue_self, h1, allocatedList_putMshr]
      exact hl
  | false =>
    simp only [Bool.false_eq_true, if_false, bind_ok] at h
    obtain ⟨q, hq, c₁, hc₁, h⟩ := h
    cases h
    have hok := hc.served (hm.imp id fun h => ⟨pkt, h.2.2⟩) hl hp ref
    obtain ⟨⟨h1, -⟩, h3⟩ := deallocate_change hok hq
    obtain ⟨m₁, hm₁, rfl⟩ := MshrQueue.deallocate_ok hq
    rw [hmm] at hm₁
    have hfree : CtlIssued ((c.putMshr ref m').putQueue ref _) :=
      hI.change (fun ref' hne => (keeps_putMshr hne).trans (keeps_putQueue h3 hne))
        (fun hl' => absurd (by rwa [Live, queue_putQueue_self] at hl') h1) fun _ => by
          rw [mshr_putQueue_self]
          simp only [MshrQueue.put, Function.update_self]
          exact hdone.deallocate hm₁
    have hsame := clearIfFull_same hc₁
    exact hfree.keeps (keeps_flags hsame.mshrQueues hsame.writeBuffers)

end

/-! ## The caches -/

section

open State Storage

variable {ε : Type} {s s' : State ε} {P : Policy ε} {g : Geometry} {pkt : Packet} {view : Nat → Nat → Prop}
  {a : Action} {n : Nat}

theorem fill_takes {c : Control} {m : Mshr} {isFill : Bool} {r : Filled ε} (h : s.fill P c m pkt isFill = .ok r)
    (hi : isFill = true → m.inService = true ∧ m.isForward = false) :
    Takes m pkt r.mshr ∧ ∀ p ∈ r.writebacks, p.cmd = .writeback := by
  unfold fill at h
  split at h
  · next hk =>
    simp only [bind_ok] at h
    obtain ⟨m', hm, ⟨store, b, wbs⟩, hf, h⟩ := h
    cases h
    simp only [Bool.and_eq_true] at hk
    refine ⟨.inr ⟨(hi hk.1).1, (hi hk.1).2, hm⟩, fun p hp => ?_⟩
    obtain ⟨f, -, -, rfl, -⟩ | ⟨-, -, f, s₁, tags, -, hv, -⟩ | ⟨-, -, -, rfl, -⟩ := handleFill_cases hf
    · cases hp
    · exact hv.cmd p hp
    · cases hp
  · cases h
    exact ⟨.inl rfl, fun p hp => by cases hp⟩

theorem handleResponse_issued {ref : MshrRef} {up : Nat → UpwardSnoop} (hg : s.geo = g) (hc : CtlOk g s.ctl)
    (hI : CtlIssued s.ctl) (hl : Live s.ctl ref)
    (hi : (s.ctl.mshr ref).inService = true ∨ ¬(pkt.isRead = true ∨ pkt.cmd = .upgradeResp))
    (h : s.handleResponse P ref pkt up = .ok s') : CtlIssued s'.ctl := by
  simp only [handleResponse, hitTime, hg, bind_ok] at h
  obtain ⟨c, hc₁, -, -, -, -, r, hr, ⟨store₁, out⟩, -, store₂, -, ⟨c₂, promoted⟩, h2, c₃, h3, ⟨store₃, wbs⟩, ht, c₄,
    h4, h⟩ := h
  cases h
  have hsame := clearNoTarget_same hc₁
  have hkeep := keeps_flags hsame.mshrQueues hsame.writeBuffers
  have hmshr := (hkeep ref).mshr
  obtain ⟨hm, hw⟩ := fill_takes hr fun hf => by
    simp only [Bool.and_eq_true, Bool.not_eq_true', Bool.or_eq_true, beq_iff_eq] at hf
    exact ⟨hi.resolve_right fun hn => hn hf.2, hf.1⟩
  have hcc : CtlOk g c := hc.flags hsame.mshrQueues hsame.writeBuffers
  have hlc : Live c ref := (hkeep ref).live.2 hl
  rw [← hmshr] at hm
  have hI₂ := (hI.keeps hkeep).finish hcc hlc hm h2
  have hrun₂ : CtlRun g s.now (some ref) (fun _ _ _ => True) c c₂ :=
    finishMshr_run hlc (hm.imp id fun h => ⟨pkt, h.2.2⟩) h2
  have hrun₃ : CtlRun g s.now none (fun _ _ _ => True) c₂ c₃ := allocateWriteBuffers_run (fun _ _ => trivial) hw h3
  have hrun₄ : CtlRun g s.now none (fun _ _ _ => True) c₃ c₄ :=
    allocateWriteBuffers_run (fun _ _ => trivial) (clearTemp_cmd ht) h4
  exact CtlRun.issued (hrun₂.ok hcc) hI₂ (hrun₃.trans hrun₄)

theorem recvTimingResp_issued {ref : MshrRef} {r : Reply} (hS : Sound n g s) (hI : CtlIssued s.ctl)
    (h : s.recvTimingResp P ref r = .ok s') : CtlIssued s'.ctl := by
  unfold recvTimingResp at h
  split at h
  · cases h
    exact hI
  · next f hf =>
    have hfr : f.ref = ref := by simpa using List.find?_some hf
    have hi := hS.bus.waits f (List.mem_of_find?_eq_some hf)
    rw [hfr] at hi
    split at h
    · exact handleResponse_issued (s := { s with bus := s.bus.filter fun f' => f'.ref != ref }) hS.geo hS.ctl hI
        (live_of_inService hS.ctl hi) (.inl hi) h
    · cases h
      exact hI

theorem sendDeferredPacket_issued {tid : Nat} {env : SendEnv} (hS : Sound n g s) (hI : CtlIssued s.ctl)
    (h : s.sendDeferredPacket P tid env = .ok s') : CtlIssued s'.ctl := by
  simp only [sendDeferredPacket, bind_ok] at h
  obtain ⟨⟨s₁, r⟩, hn, h⟩ := h
  obtain ⟨hs₁, hrun, -, hsome⟩ := getNextMSHR_moves hS.geo hn
  have hc₁ : CtlOk g s₁.ctl := hrun.ok hS.ctl
  have hI₁ : CtlIssued s₁.ctl := hrun.issued hS.ctl hI
  have hg₁ : s₁.geo = g := by
    rw [hs₁]
    exact hS.geo
  cases r with
  | none =>
    cases h
    exact hI₁
  | some ref =>
    have hr := (hsome ref rfl).1
    have hl : Live s₁.ctl ref := ((ready_iff hc₁).1 hr).1
    simp only [Mshr.getTarget, bind_ok, orFail_ok] at h
    obtain ⟨x, hx, h⟩ := h
    split at h
    · refine handleResponse_issued hg₁ hc₁ hI₁ hl (.inr ?_) h
      rintro (h | h)
      · rw [Packet.isRead] at h
        cases h
      · cases h
    · simp only [bind_ok] at h
      obtain ⟨fw, hfw, h⟩ := h
      cases fw with
      | true =>
        have hsent : CtlRun g s₁.now none (fun _ _ _ => False) s₁.ctl s'.ctl := (sendPacket_moves hl h).2.2.2.1
        exact hsent.issued hc₁ hI₁
      | false => exact (sendMiss_moves hg₁ hr hl hfw h).run.issued hc₁ hI₁

theorem step_issued (hP : P.Lawful view) (hS : Sound n g s) (hI : CtlIssued s.ctl) (h : s.step P a = .ok s') :
    CtlIssued s'.ctl := by
  cases a with
  | advance ticks =>
    cases h
    exact hI
  | recvTimingReq pkt =>
    obtain ⟨wbs, -, hc, -⟩ := recvTimingReq_moves hP hS.frames.nodup hS.geo h
    exact hc.issued hS.ctl hI
  | recvTimingResp ref r => exact recvTimingResp_issued hS hI h
  | recvTimingSnoopReq pkt up => exact (snoopTiming_moves hS.geo h).2.1.issued hS.ctl hI
  | send tid env => exact sendDeferredPacket_issued hS hI h

theorem issued_ctl_init (cfg : Config) (tags : Lru) (ext : ε) (mshrs writeBuffers : Nat) :
    CtlIssued (State.init cfg tags ext mshrs writeBuffers).ctl where
  held ref hl := by
    obtain ⟨w, t, r⟩ := ref
    cases w <;> cases hl
  free ref _ := by
    obtain ⟨w, t, r⟩ := ref
    cases w <;> exact issued_init

end

theorem CDynamic.step_issued {s s' : State CDynamic.Ext} {g : Geometry} {a : CDynamic.Act} (hS : Sound 2 g s)
    (hI : CtlIssued s.ctl) (h : CDynamic.step s a = .ok s') : CtlIssued s'.ctl := by
  cases a with
  | cache a => exact Cache.step_issued lawful hS hI h
  | adjustPartition d =>
    cases adjustPartition_adjusts hS.frames hS.geo h with
    | stay e => exact hI
    | grow hne hR => exact hR.run.issued hS.ctl hI
    | shrink hne hR => exact hR.run.issued hS.ctl hI

theorem FDynamic.step_issued {g : Geometry} {s s' : State Unit} {a : FDynamic.Act} (hF : FDynamic.Fit g s)
    (hI : CtlIssued s.ctl) (h : FDynamic.step s a = .ok s') : CtlIssued s'.ctl := by
  obtain ⟨-, rfl⟩ | ⟨b, rfl, hb⟩ := step_cases hF h
  · exact hI
  · exact Cache.step_issued lawful hF.sound hI hb

/-! ## The runs of the caches -/

/-- `Q` holds in every state that a run of a cache reaches. -/
def InEveryRun (cfg : Config) (mshrs writeBuffers : Nat) (Q : ∀ {ε : Type}, Geometry → State ε → Prop) : Prop :=
  (∀ (geo : Geometry) (maxMasters numTcs : Nat) (as : List Action) (s : State Unit),
    runs Split.step (Split.init cfg geo maxMasters numTcs mshrs writeBuffers) as = .ok s → Q geo s) ∧
  (∀ (p : CDynaParams) (as : List CDynamic.Act) (s : State CDynamic.Ext),
    runs CDynamic.step (CDynamic.init cfg p mshrs writeBuffers) as = .ok s → Q p.geo s) ∧
  (∀ (geo : Geometry) (maxMasters : Nat) (as : List FDynamic.Act) (s : State Unit),
    runs FDynamic.step (FDynamic.init cfg geo maxMasters mshrs writeBuffers) as = .ok s → Q geo s) ∧
  ∀ (geo : Geometry) (maxMasters : Nat) (as : List Action) (s : State Unit),
    runs Dirty.step (Dirty.init cfg geo maxMasters mshrs writeBuffers) as = .ok s → Q geo s

section

variable {cfg : Config} {mshrs writeBuffers : Nat}

theorem inEveryRun_of_sound {Q : ∀ {ε : Type}, Geometry → State ε → Prop}
    (hQ : ∀ {ε : Type} {n : Nat} {g : Geometry} {s : State ε}, Sound n g s → CtlIssued s.ctl → Q g s) :
    InEveryRun cfg mshrs writeBuffers Q := by
  refine ⟨fun geo maxMasters numTcs as s hr => ?_, fun p as s hr => ?_, fun geo maxMasters as s hr => ?_,
    fun geo maxMasters as s hr => ?_⟩
  · exact and_imp.2 hQ (runs_preserves (fun s => Sound numTcs geo s ∧ CtlIssued s.ctl)
      (fun s a s' hs h => ⟨step_sound Split.lawful hs.1 h, step_issued Split.lawful hs.1 hs.2 h⟩)
      ⟨Split.sound_init cfg geo maxMasters numTcs mshrs writeBuffers, issued_ctl_init _ _ _ _ _⟩ hr)
  · exact and_imp.2 hQ (runs_preserves (fun s => Sound 2 p.geo s ∧ CtlIssued s.ctl)
      (fun s a s' hs h => ⟨CDynamic.step_sound hs.1 h, CDynamic.step_issued hs.1 hs.2 h⟩)
      ⟨CDynamic.sound_init cfg p mshrs writeBuffers, issued_ctl_init _ _ _ _ _⟩ hr)
  · have hf := runs_preserves (fun s => FDynamic.Fit geo s ∧ CtlIssued s.ctl)
      (fun s a s' hs h => ⟨FDynamic.step_fit hs.1 h, FDynamic.step_issued hs.1 hs.2 h⟩)
      ⟨FDynamic.fit_init cfg geo maxMasters mshrs writeBuffers, issued_ctl_init _ _ _ _ _⟩ hr
    exact hQ hf.1.sound hf.2
  · exact and_imp.2 hQ (runs_preserves (fun s => Sound 2 geo s ∧ CtlIssued s.ctl)
      (fun s a s' hs h => ⟨step_sound Dirty.lawful hs.1 h, step_issued Dirty.lawful hs.1 hs.2 h⟩)
      ⟨Dirty.sound_init cfg geo maxMasters mshrs writeBuffers, issued_ctl_init _ _ _ _ _⟩ hr)

/-- The calls on each register are among those of `Use.issues`. -/
theorem caches_issue : InEveryRun cfg mshrs writeBuffers fun _ s => CtlIssued s.ctl :=
  inEveryRun_of_sound fun _ hI => hI

/-- The register of a read that was sent, with another one behind it. -/
theorem caches_issue_two_reads :
    ∃ s, runs Split.step (Split.init ⟨2, false, false, false, false, false⟩ (Small.geo 2 (by decide)) 1 2 4 4)
        [Small.read 0 0, Small.read 0 0, .advance 1, Small.send 0] = .ok s ∧ Live s.ctl ⟨false, 0, 0⟩ ∧
      Issued .held (s.ctl.mshr ⟨false, 0, 0⟩) := by
  refine exists_ok (fun s => 0 ∈ (s.ctl.mshrQueues 0).allocatedList) (by decide +kernel) fun s hs h => ?_
  have hl : Live s.ctl ⟨false, 0, 0⟩ := h
  exact ⟨hl, (caches_issue.1 _ _ _ _ s hs).held _ hl⟩

/-- Threads share no register: the targets of a register have the thread of its queue
and its block, and so has the request on the bus that waits for it, of which there is
at most one. -/
theorem registers_stay_with_thread : InEveryRun cfg mshrs writeBuffers fun g s =>
    (∀ ref x, x ∈ (s.ctl.mshr ref).targets.list ∨ x ∈ (s.ctl.mshr ref).deferredTargets.list →
      x.pkt.threadID = ref.tid ∧ g.blkAddr x.pkt.addr = g.blkAddr (s.ctl.mshr ref).addr) ∧
    (∀ f ∈ s.bus, Live s.ctl f.ref ∧ f.pkt.threadID = f.ref.tid ∧
      g.blkAddr f.pkt.addr = g.blkAddr (s.ctl.mshr f.ref).addr) ∧
    (s.bus.map InFlight.ref).Nodup :=
  inEveryRun_of_sound fun hS _ =>
    ⟨fun ref => ((hS.ctl ref).regs ref.reg).mem,
      fun f hf => ⟨(hS.ctl f.ref).busy _ (hS.bus.waits f hf), hS.bus.tid f hf, hS.bus.blk f hf⟩, hS.bus.nodup⟩

theorem registers_stay_with_thread_two_reads :
    ∃ s, runs Split.step (Split.init ⟨2, false, false, false, false, false⟩ (Small.geo 2 (by decide)) 1 2 4 4)
        [Small.read 0 0, Small.read 1 0, .advance 1, Small.send 1] = .ok s ∧
      s.bus.map InFlight.ref = [⟨false, 1, 0⟩] ∧ ∀ f ∈ s.bus, Live s.ctl f.ref ∧ f.pkt.threadID = f.ref.tid := by
  refine exists_ok (fun s => s.bus.map InFlight.ref = [⟨false, 1, 0⟩]) (by decide +kernel) fun s hs h => ⟨h, ?_⟩
  have hbus := (registers_stay_with_thread.1 _ _ _ _ s hs).2.1
  exact fun f hf => ⟨(hbus f hf).1, (hbus f hf).2.1⟩

end

end DynamicCache.Cache
