import DynamicCache.Bus.RRBus
import Mathlib.Data.Fintype.Sets

/-!
# `RR_CoherentBus` (`rr_coherent_bus.cc`)

A request, a response and a snoop-response layer.  The snoop-response layer is
built with the turn length and offset of the responses, but `recvTimingSnoopResp`
computes the finish time of its packet with those of the requests
(`release_in_another_turn`).  When the two pairs agree for the snoop responses and
packets come after the first turn of their layer has begun, every release event
lies in the turn of its thread and frees that thread alone
(`releases_in_own_turn`).
-/

namespace DynamicCache.Bus

open Lib

inductive CoherentLayer where
  | req
  | resp
  | snoopResp
deriving DecidableEq

instance : Fintype CoherentLayer := Fintype.ofList [.req, .resp, .snoopResp] (by intro l; cases l <;> decide)

/-- The parameters of the constructor. -/
structure CoherentParams where
  numPids : Nat
  clock : Nat
  headerCycles : Nat
  width : Nat
  reqTl : Nat
  reqOffset : Int
  respTl : Nat
  respOffset : Int
  numPids_pos : 0 < numPids
  clock_pos : 0 < clock
  reqTl_pos : 0 < reqTl
  respTl_pos : 0 < respTl

/-- The layers as the constructor builds them. -/
def CoherentParams.config (p : CoherentParams) : Config CoherentLayer where
  numPids := p.numPids
  clock := p.clock
  headerCycles := p.headerCycles
  width := p.width
  tl
    | .req => p.reqTl
    | .resp => p.respTl
    | .snoopResp => p.respTl
  offset
    | .req => p.reqOffset
    | .resp => p.respOffset
    | .snoopResp => p.respOffset
  numPids_pos := p.numPids_pos
  clock_pos := p.clock_pos
  tl_pos
    | .req => p.reqTl_pos
    | .resp => p.respTl_pos
    | .snoopResp => p.respTl_pos

structure CoherentBus where
  bus : RRBus CoherentLayer := {}
  outstandingReq : List Nat := []

namespace CoherentBus

inductive Action where
  | recvTimingReq (pkt : Packet) (port : Nat)
  | recvTimingResp (pkt : Packet) (port : Nat)
  /-- `fromHome`: the snoop comes from the port responsible for its address -/
  | recvTimingSnoopReq (pkt : Packet) (fromHome : Bool)
  | recvTimingSnoopResp (pkt : Packet) (port : Nat)
  /-- the call of `forwardTiming` for a request returns -/
  | forwarded
  /-- the call of `sendTimingReq`, `sendTimingResp` or `sendTimingSnoopResp` returns, or
  `forwardTiming` of an express snoop does -/
  | returned (success memInhibit : Bool)
  | recvRetry
  | event (e : RRBus.Event CoherentLayer)

/-- `recvTimingReq` after `forwardTiming`: the request becomes outstanding and is sent. -/
def sendReq (s : CoherentBus) : Except Fault CoherentBus :=
  match s.bus.calls with
  | .forwarding .req x :: rest => do
    check .assertion (!x.pkt.needsResponse || !s.outstandingReq.contains x.pkt.req)
    pure {
      bus := { s.bus with calls := .sending .req x :: rest }
      outstandingReq := if x.pkt.needsResponse then x.pkt.req :: s.outstandingReq else s.outstandingReq }
  | _ => .error .notEnabled

def step (p : CoherentParams) (s : CoherentBus) : Action → Except Fault CoherentBus
  | .recvTimingReq pkt port =>
    if pkt.expressSnoop then pure { s with bus := s.bus.push (.express true) }
    else do
      let bus ← s.bus.enter p.config .req .req pkt port (.forwarding .req)
      -- uncacheable requests are not snooped
      if (bus.layer .req pkt.threadID).answered ∧ pkt.uncacheable then sendReq { s with bus }
      else pure { s with bus }
  | .recvTimingResp pkt port => do
    let bus ← s.bus.enter p.config .resp .resp pkt port (.sending .resp)
    if (bus.layer .resp pkt.threadID).answered then do
      check .assertion (s.outstandingReq.contains pkt.req)
      pure { bus, outstandingReq := s.outstandingReq.erase pkt.req }
    else pure { s with bus }
  | .recvTimingSnoopReq pkt fromHome => do
    check .assertion pkt.expressSnoop
    pure { s with bus := s.bus.push (.express fromHome) }
  | .recvTimingSnoopResp pkt port => do
    -- the layer has the turns of the responses, the packet is timed with those of the requests
    let bus ← s.bus.enter p.config .snoopResp .req pkt port (.sending .snoopResp)
    if (bus.layer .snoopResp pkt.threadID).answered then do
      check .assertion (!pkt.expressSnoop)
      if s.outstandingReq.contains pkt.req then do
        check .assertion (decide (port ≠ pkt.dest))
        pure { bus, outstandingReq := s.outstandingReq.erase pkt.req }
      else pure { s with bus }
    else pure { s with bus }
  | .forwarded => s.sendReq
  | .returned success memInhibit =>
    match s.bus.calls with
    | .sending .req x :: rest =>
      if success then do
        let bus ← { s.bus with calls := rest }.succeededTiming .req x
        pure { s with bus }
      else do
        check .assertion (!memInhibit)
        let bus ← { s.bus with calls := rest }.failedTiming .req x
        pure {
          bus
          outstandingReq := if x.pkt.needsResponse then s.outstandingReq.erase x.pkt.req else s.outstandingReq }
    | .sending l x :: rest => do
      check .assertion success
      let bus ← { s.bus with calls := rest }.succeededTiming l x
      pure { s with bus }
    | .express fromHome :: rest => do
      check .assertion (success && fromHome)
      pure { s with bus := { s.bus with calls := rest } }
    | _ => .error .notEnabled
  | .recvRetry => pure { s with bus := s.bus.push (.looping .req 0) }
  | .event e => do
    let bus ← s.bus.event p.config e
    pure { s with bus }

/-- Packets come after the first turn of their layer has begun, snoop responses come to a bus
whose requests have the turns of its responses, and no tick passes 64 bits. -/
def InTime (p : CoherentParams) (s : CoherentBus) : Action → Prop
  | .recvTimingReq pkt _ => pkt.expressSnoop = true ∨ RRBus.MayEnter p.config s.bus .req pkt
  | .recvTimingResp pkt _ => RRBus.MayEnter p.config s.bus .resp pkt
  | .recvTimingSnoopResp pkt _ =>
    RRBus.MayEnter p.config s.bus .snoopResp pkt ∧ p.reqTl = p.respTl ∧ p.reqOffset = p.respOffset
  | .event _ => ∀ l, RRBus.Room p.config s.bus l
  | _ => True

instance (p : CoherentParams) (s : CoherentBus) (a : Action) : Decidable (InTime p s a) := by
  unfold InTime
  split <;> infer_instance

section

variable {p : CoherentParams} {s s' : CoherentBus} {a : Action}

/-- Where the pairs agree, the snoop responses are timed with the turns of their layer. -/
theorem params_snoopResp (hp : p.reqTl = p.respTl ∧ p.reqOffset = p.respOffset) :
    p.config.params .req = p.config.params .snoopResp := by
  unfold Config.params CoherentParams.config
  simp only [hp.1, hp.2]

theorem sendReq_inv (hI : RRBus.Inv p.config s.bus) (h : s.sendReq = .ok s') : RRBus.Inv p.config s'.bus := by
  unfold sendReq at h
  split at h
  · next x rest hcalls =>
    obtain ⟨-, -, h⟩ := bind_ok.1 h
    cases h
    have hsend : (Call.sending .req x).sends = some (CoherentLayer.req, x) := rfl
    exact hI.resend hcalls rfl hsend
  · cases h

theorem step_inv (hI : RRBus.Inv p.config s.bus) (hok : InTime p s a) (h : step p s a = .ok s') :
    RRBus.Inv p.config s'.bus := by
  cases a with
  | recvTimingReq pkt port =>
    simp only [step] at h
    split at h
    · cases h
      exact hI.push_aside RRBus.aside_express
    · next hx =>
      obtain ⟨bus, hbus, h⟩ := bind_ok.1 h
      have hI' := hI.enter (fun _ => rfl) rfl (hok.resolve_left hx) hbus
      split at h
      · exact sendReq_inv (s := { s with bus }) hI' h
      · cases h
        exact hI'
  | recvTimingResp pkt port =>
    obtain ⟨bus, hbus, h⟩ := bind_ok.1 h
    have hI' := hI.enter (fun _ => rfl) rfl hok hbus
    split at h
    · obtain ⟨-, -, h⟩ := bind_ok.1 h
      cases h
      exact hI'
    · cases h
      exact hI'
  | recvTimingSnoopReq pkt fromHome =>
    obtain ⟨-, -, h⟩ := bind_ok.1 h
    cases h
    exact hI.push_aside RRBus.aside_express
  | recvTimingSnoopResp pkt port =>
    obtain ⟨bus, hbus, h⟩ := bind_ok.1 h
    have hI' := hI.enter (fun _ => rfl) (params_snoopResp hok.2) hok.1 hbus
    split at h
    · obtain ⟨-, -, h⟩ := bind_ok.1 h
      split at h
      · obtain ⟨-, -, h⟩ := bind_ok.1 h
        cases h
        exact hI'
      · cases h
        exact hI'
    · cases h
      exact hI'
  | forwarded => exact sendReq_inv hI h
  | returned success memInhibit =>
    simp only [step] at h
    split at h
    · next x rest hcalls =>
      split at h
      · obtain ⟨bus, hbus, h⟩ := bind_ok.1 h
        cases h
        exact hI.succeededTiming hcalls rfl hbus
      · obtain ⟨-, -, h⟩ := bind_ok.1 h
        obtain ⟨bus, hbus, h⟩ := bind_ok.1 h
        cases h
        exact hI.failedTiming hcalls rfl hbus
    · next l x rest _ hcalls =>
      obtain ⟨-, -, h⟩ := bind_ok.1 h
      obtain ⟨bus, hbus, h⟩ := bind_ok.1 h
      cases h
      exact hI.succeededTiming hcalls rfl hbus
    · next fromHome rest hcalls =>
      obtain ⟨-, -, h⟩ := bind_ok.1 h
      cases h
      exact hI.pop_aside hcalls RRBus.aside_express
    · cases h
  | recvRetry =>
    cases h
    exact hI.push_aside RRBus.aside_looping
  | event e =>
    obtain ⟨bus, hbus, h⟩ := bind_ok.1 h
    cases h
    exact hI.event hok hbus

end

/-- The release events of a thread lie in its turn, and each succeeds when its tick has come
and frees that thread alone. -/
theorem releases_in_own_turn (p : CoherentParams) (as : List Action) (s : CoherentBus)
    (hok : Always (step p) (InTime p) {} as) (hr : runs (step p) {} as = .ok s) (l : CoherentLayer) (u : Nat) :
    (∀ e, (s.bus.layer l u).releaseEvent = some e → (p.config.params l).activeId e = u) ∧
    (s.bus.calls = [] → u < p.numPids → (s.bus.layer l u).releaseEvent = some s.bus.now →
      ∃ s', step p s (.event (.fireRelease l u)) = .ok s') ∧
    ∀ s', step p s (.event (.fireRelease l u)) = .ok s' →
      (s.bus.layer l u).state = .busy ∧ (s'.bus.layer l u).state ≠ .busy ∧
        ∀ l' u', ¬(l' = l ∧ u' = u) → s'.bus.layer l' u' = s.bus.layer l' u' := by
  have hI : RRBus.Inv p.config s.bus :=
    runs_invariant (fun s : CoherentBus => RRBus.Inv p.config s.bus) (fun s a s' hi ho h => step_inv hi ho h)
      RRBus.inv_init hok hr
  refine ⟨(hI.owned l u).release, fun hcalls hu hrel => ?_, fun s' h => ?_⟩
  · obtain ⟨bus, hbus⟩ := hI.fireRelease_ok hcalls hu hrel
    exact ⟨_, bind_ok.2 ⟨bus, hbus, rfl⟩⟩
  · obtain ⟨bus, hbus, h⟩ := bind_ok.1 h
    cases h
    exact hI.fireRelease hbus

/-- Turns of one cycle for the requests and of `respTl` cycles for the responses. -/
def twoThreads (respTl : Nat) (h : 0 < respTl) : CoherentParams where
  numPids := 2
  clock := 1
  headerCycles := 1
  width := 8
  reqTl := 1
  reqOffset := 0
  respTl := respTl
  respOffset := 0
  numPids_pos := by decide
  clock_pos := Nat.one_pos
  reqTl_pos := Nat.one_pos
  respTl_pos := h

/-- A request, its response and a snoop response that is passed on. -/
theorem releases_in_own_turn_request : ∃ s : CoherentBus,
    runs (step (twoThreads 1 (by decide))) {}
      [.recvTimingReq { threadID := 0, req := 3 } 4, .forwarded, .returned true false, .event (.advance 2),
        .event (.fireRelease .req 0), .recvTimingSnoopResp { threadID := 0, req := 9 } 5, .returned true false,
        .recvTimingResp { threadID := 0, req := 3 } 6, .returned true false] = .ok s ∧
    (s.bus.layer .snoopResp 0).releaseEvent = some 4 ∧
    ∀ e, (s.bus.layer .snoopResp 0).releaseEvent = some e →
      ((twoThreads 1 (by decide)).config.params .snoopResp).activeId e = 0 := by
  refine exists_ok (fun s => (s.bus.layer .snoopResp 0).releaseEvent = some 4) (by decide +kernel) fun s hs h => ⟨h, ?_⟩
  exact (releases_in_own_turn (twoThreads 1 (by decide)) _ s (by decide +kernel) hs .snoopResp 0).1

/-- Two-cycle turns for the responses and one-cycle turns for the requests: the release of a
snoop response of thread 0 falls in the turn of thread 1, which is idle. -/
theorem release_in_another_turn :
    (∃ s : CoherentBus,
      runs (step (twoThreads 2 (by decide))) {}
        [.recvTimingSnoopResp { threadID := 0 } 4, .returned true false] = .ok s ∧
      (s.bus.layer .snoopResp 0).releaseEvent = some 2 ∧
      ((twoThreads 2 (by decide)).config.params .snoopResp).activeId 2 = 1) ∧
    runs (step (twoThreads 2 (by decide))) {}
      [.recvTimingSnoopResp { threadID := 0 } 4, .returned true false, .event (.advance 2),
        .event (.fireRelease .snoopResp 0)] = .error .notBusy :=
  ⟨by decide +kernel, error_of_fault (by decide +kernel)⟩

end CoherentBus

end DynamicCache.Bus
