import DynamicCache.Cache.Packet

/-!
# Packet queues and the port that retries them all (`packet_queue.cc`, `split_rport_cache.hh`)

The CPU-side port of `SplitRPortCache` has a queue of responses for every
thread.  A queue sends its first packet when its send event fires, and again
when `retry` is called after a send was refused.  `recvRetry` of the port calls
`retry` on all queues, waiting or not.

A call of `sendTiming` lasts until the receiver returns, and the receiver may
call back into the port before that, so the calls that are open are part of the
state: sends that wait for their answer and `recvRetry` loops that wait for a
send.  The action `returned` is the end of the innermost send, `resume` the next
iteration of the innermost loop.

`wakeup_law` says when a queue with packets never sleeps: when `retry` does not
reach a queue that waits for its send event only, and a send that came back with
another call is not refused.  `retry_of_sleeping_queue` shows what happens otherwise.
-/

namespace DynamicCache.Port

open Lib Cache

/-! ## One queue -/

/-- A packet and the tick when it is ready. -/
structure DeferredPacket where
  tick : Nat
  pkt : Packet
  sendAsSnoop : Bool := false

structure PacketQueue where
  transmitList : List DeferredPacket := []
  /-- the tick of the send event, if it is scheduled -/
  sendEvent : Option Nat := none
  waitingOnRetry : Bool := false

namespace PacketQueue

variable (q : PacketQueue)

def deferredPacketReady (now : Nat) : Bool :=
  match q.transmitList with
  | [] => false
  | dp :: _ => decide (dp.tick ≤ now)

/-- `none` is `MaxTick`: a packet that is itself deferred to that tick, for which
`scheduleSend` would not schedule either, is not modelled. -/
def deferredPacketReadyTime : Option Nat := q.transmitList.head?.map (·.tick)

def schedSendEvent (tick : Nat) : Res PacketQueue :=
  if q.waitingOnRetry then do
    assert q.sendEvent.isNone
    return q
  else
    match q.sendEvent with
    | none => .ok { q with sendEvent := some tick }
    | some w => .ok (if tick < w then { q with sendEvent := some tick } else q)

/-- The insertion sort of `schedSendTiming`. -/
def insertSorted (dp : DeferredPacket) : List DeferredPacket → List DeferredPacket
  | [] => [dp]
  | d :: ds => if d.tick ≤ dp.tick then d :: insertSorted dp ds else dp :: d :: ds

def schedSendTiming (now : Nat) (dp : DeferredPacket) : Res PacketQueue := do
  assert (decide (now ≤ dp.tick))
  assert (!dp.pkt.isExpressSnoop)
  match q.transmitList with
  | [] => ({ q with transmitList := [dp] } : PacketQueue).schedSendEvent dp.tick
  | front :: rest =>
    if dp.tick < front.tick then
      ({ q with transmitList := dp :: front :: rest } : PacketQueue).schedSendEvent dp.tick
    else if ((front :: rest).getLast (by simp)).tick ≤ dp.tick then
      return { q with transmitList := front :: rest ++ [dp] }
    else return { q with transmitList := front :: insertSorted dp rest }

/-- `sendDeferredPacket` up to the call of `sendTiming`, with the packet to send. -/
def sendDeferredPacket (now : Nat) : PacketQueue × Option DeferredPacket :=
  match q.transmitList with
  | [] => (q, none)
  | dp :: rest => if dp.tick ≤ now then ({ q with transmitList := rest }, some dp) else (q, none)

def scheduleSend (now : Nat) : PacketQueue :=
  match q.deferredPacketReadyTime, q.sendEvent with
  | some nextReady, none => { q with sendEvent := some (max nextReady (now + 1)) }
  | _, _ => q

/-- The rest of `sendDeferredPacket`, when `sendTiming` has returned. -/
def sendReturned (now : Nat) (dp : DeferredPacket) (accepted : Bool) : Res PacketQueue :=
  let q := { q with waitingOnRetry := !accepted }
  if accepted then .ok (q.scheduleSend now)
  else do
    assert q.sendEvent.isNone
    return { q with transmitList := dp :: q.transmitList }

/-- `retry` has no check of its own: its assertion is commented out. -/
def retry (now : Nat) : PacketQueue × Option DeferredPacket := q.sendDeferredPacket now

def processSendEvent (now : Nat) : Res (PacketQueue × Option DeferredPacket) := do
  assert (!q.waitingOnRetry)
  return q.sendDeferredPacket now

end PacketQueue

/-! ## The port -/

/-- A call that has not returned. -/
inductive Frame where
  /-- `sendTiming` of queue `i`; `entered` once the queue has been called since -/
  | sending (i : Nat) (dp : DeferredPacket) (entered : Bool)
  /-- the loop of `recvRetry`, before queue `i` -/
  | retrying (i : Nat)

/-- `SRCpuSidePort` -/
structure CpuSidePort where
  numTcs : Nat
  respQueues : Nat → PacketQueue := fun _ => {}
  now : Nat := 0
  /-- innermost first -/
  calls : List Frame := []

variable {dp : DeferredPacket} {i : Nat} {q : PacketQueue} {calls : List Frame}

namespace CpuSidePort

variable (s : CpuSidePort)

/-- The open sends of queue `i` know that it was called. -/
def enter (i : Nat) : Frame → Frame
  | .sending j dp entered => .sending j dp (entered || j == i)
  | .retrying j => .retrying j

/-- Queue `i` is called and leaves `r`: itself and the packet that it sends. -/
def called (i : Nat) (r : PacketQueue × Option DeferredPacket) : CpuSidePort :=
  { s with
    respQueues := Function.update s.respQueues i r.1
    calls := (r.2.map fun dp => Frame.sending i dp false).toList ++ s.calls.map (enter i) }

/-- Whether the receiver of a send, or an event, may call the port. -/
def open_ : Bool :=
  match s.calls with
  | .retrying _ :: _ => false
  | _ => true

/-- What can happen to the port.  Time passes and events fire between calls only,
and no later than the send events say. -/
inductive Action where
  | advance (ticks : Nat)
  | schedTimingResp (threadID : Nat) (dp : DeferredPacket)
  | recvRetry
  | recvRetryOf (threadID : Nat)
  | resume
  | processSendEvent (i : Nat)
  | returned (accepted : Bool)

/-- No send event comes before tick `t`. -/
def quietUntil (t : Nat) : Bool := (List.range s.numTcs).all fun i => (s.respQueues i).sendEvent.all (t ≤ ·)

def step : Action → Res CpuSidePort
  | .advance ticks =>
    .ok (if s.calls.isEmpty && s.quietUntil (s.now + ticks) then { s with now := s.now + ticks } else s)
  | .schedTimingResp threadID dp =>
    if s.open_ then do
      check .outOfArray (decide (threadID < s.numTcs))
      let q ← (s.respQueues threadID).schedSendTiming s.now dp
      return s.called threadID (q, none)
    else .ok s
  | .recvRetry => .ok (if s.open_ then { s with calls := .retrying 0 :: s.calls } else s)
  | .recvRetryOf threadID =>
    if s.open_ then do
      check .outOfArray (decide (threadID < s.numTcs))
      return s.called threadID ((s.respQueues threadID).retry s.now)
    else .ok s
  | .resume =>
    match s.calls with
    | .retrying i :: calls =>
      .ok (if i < s.numTcs then
        { s with calls := .retrying (i + 1) :: calls }.called i ((s.respQueues i).retry s.now)
      else { s with calls := calls })
    | _ => .ok s
  | .processSendEvent i =>
    if s.calls.isEmpty ∧ i < s.numTcs ∧ (s.respQueues i).sendEvent = some s.now then do
      let r ← ({ s.respQueues i with sendEvent := none } : PacketQueue).processSendEvent s.now
      return s.called i r
    else .ok s
  | .returned accepted =>
    match s.calls with
    | .sending i dp _ :: calls => do
      let q ← (s.respQueues i).sendReturned s.now dp accepted
      return { s with respQueues := Function.update s.respQueues i q, calls := calls }
    | _ => .ok s

def init (numTcs : Nat) : CpuSidePort := { numTcs := numTcs }

end CpuSidePort

/-! ## What the queue keeps -/

namespace PacketQueue

variable {q : PacketQueue} {tick : Nat}

theorem schedSendEvent_waiting (hw : q.waitingOnRetry = true) (he : q.sendEvent = none) :
    q.schedSendEvent tick = .ok q := by
  rw [schedSendEvent, if_pos hw, he]
  rfl

/-- The event is set to an earlier tick. -/
theorem schedSendEvent_takes (hw : q.waitingOnRetry = false) (he : ∀ w, q.sendEvent = some w → tick < w) :
    q.schedSendEvent tick = .ok { q with sendEvent := some tick } := by
  rw [schedSendEvent, if_neg (by simp [hw])]
  cases hs : q.sendEvent with
  | none => rfl
  | some w =>
    simp only
    rw [if_pos (he w hs)]

theorem sendReturned_refused {now : Nat} (he : q.sendEvent = none) :
    q.sendReturned now dp false = .ok { q with transmitList := dp :: q.transmitList, waitingOnRetry := true } := by
  simp only [sendReturned, he]
  rfl

end PacketQueue

/-- A queue that will send what it has.  `sending` says that a send of the queue is
open, `fresh` that one is and the queue has not been called since. -/
structure Awake (now : Nat) (q : PacketQueue) (sending fresh : Prop) : Prop where
  waiting : q.waitingOnRetry = true → q.sendEvent = none
  event : ∀ w, q.sendEvent = some w → now ≤ w ∧ ∃ dp, q.transmitList.head? = some dp ∧ dp.tick ≤ w ∧
    w ≤ max dp.tick (now + 1)
  wake : ¬sending → q.transmitList ≠ [] → q.waitingOnRetry = false → q.sendEvent ≠ none
  fresh : fresh → q.sendEvent = none

namespace Awake

variable {now : Nat} {q : PacketQueue} {sending fresh : Prop}

theorem init (now : Nat) : Awake now {} sending fresh := by
  refine ⟨fun _ => rfl, fun w hw => ?_, fun _ h => absurd rfl h, fun _ => rfl⟩
  cases hw

/-- A packet that goes to the front takes the send event with it. -/
theorem front {rest : List DeferredPacket} (h : Awake now q sending fresh) (hn : now ≤ dp.tick)
    (hl : q.transmitList = rest) (hf : ∀ d, rest.head? = some d → dp.tick < d.tick) :
    ∃ q', ({ q with transmitList := dp :: rest } : PacketQueue).schedSendEvent dp.tick = .ok q' ∧
      Awake now q' sending False := by
  by_cases hw : q.waitingOnRetry = true
  · have he := h.waiting hw
    refine ⟨_, PacketQueue.schedSendEvent_waiting hw he, fun _ => he, fun w hw => ?_, fun _ _ h => ?_, False.elim⟩
    · rw [show q.sendEvent = some w from hw] at he
      cases he
    · rw [show q.waitingOnRetry = false from h] at hw
      cases hw
  · have hw' : q.waitingOnRetry = false := by simpa using hw
    have hlater : ∀ w, q.sendEvent = some w → dp.tick < w := by
      -- the event was for the packet that was first, which is later
      intro w he
      obtain ⟨-, d, hd, hle, -⟩ := h.event w he
      have := hf d (hl ▸ hd)
      omega
    refine ⟨_, PacketQueue.schedSendEvent_takes hw' hlater, fun h => absurd h hw, fun w he => ?_,
      fun _ _ _ => nofun, False.elim⟩
    obtain rfl := Option.some.inj he
    exact ⟨hn, dp, rfl, Nat.le_refl _, Nat.le_max_left _ _⟩

/-- A packet that goes elsewhere changes nothing for the first one. -/
theorem behind {rest rest' : List DeferredPacket} (h : Awake now q sending fresh)
    (hl : q.transmitList = dp :: rest) : Awake now { q with transmitList := dp :: rest' } sending fresh where
  waiting := h.waiting
  event w hw := by
    have := h.event w hw
    rw [hl] at this
    exact this
  wake hs _ := h.wake hs (by rw [hl]; simp)
  fresh := h.fresh

theorem mono {sending' fresh' : Prop} (h : Awake now q sending fresh) (hs : sending → sending')
    (hf : fresh' → fresh) : Awake now q sending' fresh' :=
  ⟨h.waiting, h.event, fun h' => h.wake fun h => h' (hs h), fun h' => h.fresh (hf h')⟩

theorem schedSendTiming (h : Awake now q sending fresh) (hn : now ≤ dp.tick)
    (hx : dp.pkt.isExpressSnoop = false) :
    ∃ q', q.schedSendTiming now dp = .ok q' ∧ Awake now q' sending False := by
  have hpass : q.schedSendTiming now dp = (match q.transmitList with
      | [] => ({ q with transmitList := [dp] } : PacketQueue).schedSendEvent dp.tick
      | front :: rest =>
        if dp.tick < front.tick then
          ({ q with transmitList := dp :: front :: rest } : PacketQueue).schedSendEvent dp.tick
        else if ((front :: rest).getLast (by simp)).tick ≤ dp.tick then
          .ok { q with transmitList := front :: rest ++ [dp] }
        else .ok { q with transmitList := front :: PacketQueue.insertSorted dp rest }) := by
    simp only [PacketQueue.schedSendTiming, hn, hx, assert, check, decide_true, Bool.not_false, if_true]
    rfl
  rw [hpass]
  cases hl : q.transmitList with
  | nil => exact h.front hn hl (fun d hd => by cases hd)
  | cons front rest =>
    simp only
    split
    · next hlt =>
      exact h.front hn hl (fun d hd => by
        obtain rfl := Option.some.inj hd
        exact hlt)
    · split
      · exact ⟨_, rfl, (h.behind hl).mono id False.elim⟩
      · exact ⟨_, rfl, (h.behind hl).mono id False.elim⟩

/-- `retry` of a queue that waits for it, or that has nothing to send yet. -/
theorem retry (h : Awake now q sending fresh) (hr : q.waitingOnRetry = true ∨ q.deferredPacketReady now = false) :
    (∃ dp, q.retry now = ({ q with transmitList := q.transmitList.tail }, some dp) ∧
        Awake now { q with transmitList := q.transmitList.tail } True True) ∨
      q.retry now = (q, none) := by
  unfold PacketQueue.retry PacketQueue.sendDeferredPacket
  cases hl : q.transmitList with
  | nil => exact .inr rfl
  | cons dp rest =>
    simp only
    split
    · next hle =>
      left
      have hw : q.waitingOnRetry = true := by
        obtain hw | hw := hr
        · exact hw
        · simp [PacketQueue.deferredPacketReady, hl, hle] at hw
      have he := h.waiting hw
      refine ⟨dp, rfl, fun _ => he, fun w hw => ?_, fun hs => absurd trivial hs, fun _ => he⟩
      rw [he] at hw
      cases hw
    · exact .inr rfl

/-- The send event finds its packet ready. -/
theorem processSendEvent (h : Awake now q sending fresh) (he : q.sendEvent = some now) :
    ∃ dp, ({ q with sendEvent := none } : PacketQueue).processSendEvent now =
        .ok ({ q with transmitList := q.transmitList.tail, sendEvent := none }, some dp) ∧
      Awake now { q with transmitList := q.transmitList.tail, sendEvent := none } True True := by
  obtain ⟨-, dp, hd, hle, -⟩ := h.event now he
  have hw : q.waitingOnRetry = false := by
    by_contra hw
    rw [h.waiting (by simpa using hw)] at he
    cases he
  obtain ⟨rest, hl⟩ : ∃ rest, q.transmitList = dp :: rest := by
    cases hl : q.transmitList with
    | nil =>
      rw [hl] at hd
      cases hd
    | cons d rest =>
      rw [hl] at hd
      obtain rfl := Option.some.inj hd
      exact ⟨rest, rfl⟩
  refine ⟨dp, ?_, fun _ => rfl, fun w hw => ?_, fun hs => absurd trivial hs, fun _ => rfl⟩
  · simp only [PacketQueue.processSendEvent, PacketQueue.sendDeferredPacket, hl, hw, assert, check, if_pos hle]
    rfl
  · cases hw

/-- A send that was accepted leaves the event for the next packet. -/
theorem accepted (h : Awake now q sending fresh) (sending' : Prop) :
    ∃ q', q.sendReturned now dp true = .ok q' ∧ Awake now q' sending' False := by
  refine ⟨_, rfl, ?_⟩
  cases hl : q.transmitList with
  | nil =>
    refine ⟨nofun, fun w hw => ?_, fun _ h => absurd rfl h, False.elim⟩
    obtain ⟨-, d, hd, -⟩ := h.event w hw
    rw [hl] at hd
    cases hd
  | cons d rest =>
    cases he : q.sendEvent with
    | none =>
      refine ⟨nofun, fun w hw => ?_, fun _ _ _ => nofun, False.elim⟩
      obtain rfl := Option.some.inj hw
      refine ⟨?_, d, rfl, Nat.le_max_left _ _, Nat.le_refl _⟩
      omega
    | some w' =>
      refine ⟨nofun, fun w hw => ?_, fun _ _ _ => nofun, False.elim⟩
      have := h.event w (he.trans hw)
      rw [hl] at this
      exact this

/-- A send that was refused and made no call to the queue leaves it waiting. -/
theorem refused (h : Awake now q sending fresh) (hf : fresh) (sending' fresh' : Prop) :
    ∃ q', q.sendReturned now dp false = .ok q' ∧ Awake now q' sending' fresh' := by
  have he := h.fresh hf
  refine ⟨_, PacketQueue.sendReturned_refused he, fun _ => he, fun w hw => ?_, fun _ _ => nofun, fun _ => he⟩
  rw [show q.sendEvent = some w from hw] at he
  cases he

theorem advance {now' : Nat} (h : Awake now q sending fresh) (hn : now ≤ now')
    (hq : ∀ w, q.sendEvent = some w → now' ≤ w) : Awake now' q sending fresh where
  waiting := h.waiting
  event w hw := by
    obtain ⟨-, dp, hd, h1, h2⟩ := h.event w hw
    exact ⟨hq w hw, dp, hd, h1, by omega⟩
  wake := h.wake
  fresh := h.fresh

end Awake

/-! ## Runs of the port -/

namespace Frame

/-- A send of queue `i`. -/
def sends (i : Nat) : Frame → Prop
  | .sending j _ _ => j = i
  | .retrying _ => False

/-- A send of queue `i` that has made no call to it. -/
def fresh (i : Nat) : Frame → Prop
  | .sending j _ entered => j = i ∧ entered = false
  | .retrying _ => False

end Frame

namespace CpuSidePort

theorem sends_enter (i j : Nat) (f : Frame) : (enter i f).sends j ↔ f.sends j := by
  cases f with
  | sending k dp entered => exact Iff.rfl
  | retrying k => exact Iff.rfl

theorem fresh_enter (i j : Nat) (f : Frame) : (enter i f).fresh j ↔ f.fresh j ∧ j ≠ i := by
  cases f with
  | sending k dp entered =>
    simp only [enter, Frame.fresh, Bool.or_eq_false_iff, beq_eq_false_iff_ne]
    constructor
    · rintro ⟨rfl, he, hk⟩
      exact ⟨⟨rfl, he⟩, hk⟩
    · rintro ⟨⟨rfl, he⟩, hk⟩
      exact ⟨rfl, he, hk⟩
  | retrying k => exact ⟨False.elim, fun h => h.1.elim⟩

/-- All queues are awake, and of the sends of a queue only the innermost is fresh. -/
structure Inv (n : Nat) (s : CpuSidePort) : Prop where
  size : s.numTcs = n
  queues : ∀ i < s.numTcs,
    Awake s.now (s.respQueues i) (∃ f ∈ s.calls, f.sends i) (∃ f ∈ s.calls, f.fresh i)
  nested : s.calls.Pairwise fun f f' => ∀ i, f.sends i → ¬f'.fresh i
  bound : ∀ f ∈ s.calls, ∀ i, f.sends i → i < s.numTcs

variable {n : Nat} {s : CpuSidePort}

theorem inv_init (numTcs : Nat) : Inv numTcs (init numTcs) := by
  refine ⟨rfl, fun i _ => Awake.init _, List.Pairwise.nil, fun f hf => ?_⟩
  cases hf

/-- The frames after a call of queue `i`. -/
theorem nested_enter (i : Nat) (hI : Inv n s) :
    (s.calls.map (enter i)).Pairwise fun f f' => ∀ j, f.sends j → ¬f'.fresh j := by
  refine List.Pairwise.map _ (fun f f' h j hs hf => ?_) hI.nested
  exact h j ((sends_enter i j f).1 hs) ((fresh_enter i j f').1 hf).1

theorem bound_enter (i : Nat) (hI : Inv n s) : ∀ f ∈ s.calls.map (enter i), ∀ j, f.sends j → j < s.numTcs := by
  intro f hf j hs
  obtain ⟨f₀, hf₀, rfl⟩ := List.mem_map.1 hf
  exact hI.bound f₀ hf₀ j ((sends_enter i j f₀).1 hs)

/-- The other queues do not notice a call of queue `i`. -/
theorem awake_other {j : Nat} (hI : Inv n s) (hj : j < s.numTcs) (hne : j ≠ i)
    (hsub : ∀ f ∈ s.calls.map (enter i), f ∈ calls) (hnew : ∀ f ∈ calls, f ∈ s.calls.map (enter i) ∨ ¬f.fresh j) :
    Awake s.now (Function.update s.respQueues i q j) (∃ f ∈ calls, f.sends j) (∃ f ∈ calls, f.fresh j) := by
  rw [Function.update_of_ne hne]
  refine (hI.queues j hj).mono ?_ ?_
  · rintro ⟨f, hf, hs⟩
    exact ⟨enter i f, hsub _ (List.mem_map_of_mem hf), (sends_enter i j f).2 hs⟩
  · rintro ⟨f, hf, hfr⟩
    obtain hf | hf := hnew f hf
    · obtain ⟨f₀, hf₀, rfl⟩ := List.mem_map.1 hf
      exact ⟨f₀, hf₀, ((fresh_enter i j f₀).1 hfr).1⟩
    · exact absurd hfr hf

/-- A call of queue `i` that sends nothing. -/
theorem called_none (hI : Inv n s) (hq : Awake s.now q (∃ f ∈ s.calls, f.sends i) False) :
    Inv n (s.called i (q, none)) where
  size := hI.size
  queues j hj := by
    show Awake s.now (Function.update s.respQueues i q j) (∃ f ∈ s.calls.map (enter i), f.sends j)
      (∃ f ∈ s.calls.map (enter i), f.fresh j)
    by_cases hne : j = i
    · subst hne
      rw [Function.update_self]
      refine hq.mono ?_ ?_
      · rintro ⟨f, hf, hs⟩
        exact ⟨_, List.mem_map_of_mem hf, (sends_enter j j f).2 hs⟩
      · rintro ⟨f, hf, hfr⟩
        obtain ⟨f₀, -, rfl⟩ := List.mem_map.1 hf
        exact ((fresh_enter j j f₀).1 hfr).2 rfl
    · exact awake_other hI hj hne (fun _ h => h) fun _ h => .inl h
  nested := nested_enter i hI
  bound := bound_enter i hI

/-- A call of queue `i` that sends a packet. -/
theorem called_some (hI : Inv n s) (hi : i < s.numTcs) (hq : Awake s.now q True True) :
    Inv n (s.called i (q, some dp)) where
  size := hI.size
  queues j hj := by
    show Awake s.now (Function.update s.respQueues i q j)
      (∃ f ∈ .sending i dp false :: s.calls.map (enter i), f.sends j)
      (∃ f ∈ .sending i dp false :: s.calls.map (enter i), f.fresh j)
    by_cases hne : j = i
    · subst hne
      rw [Function.update_self]
      exact hq.mono (fun _ => ⟨_, List.mem_cons_self, rfl⟩) fun _ => trivial
    · refine awake_other hI hj hne (fun _ h => List.mem_cons_of_mem _ h) fun f hf => ?_
      obtain rfl | hf := List.mem_cons.1 hf
      · exact .inr fun h => hne h.1.symm
      · exact .inl hf
  nested := by
    refine List.Pairwise.cons (fun f hf j hs hfr => ?_) (nested_enter i hI)
    obtain rfl : i = j := hs
    obtain ⟨f₀, -, rfl⟩ := List.mem_map.1 hf
    exact ((fresh_enter i i f₀).1 hfr).2 rfl
  bound f hf j hs := by
    obtain rfl | hf := List.mem_cons.1 (show f ∈ .sending i dp false :: s.calls.map (enter i) from hf)
    · obtain rfl : i = j := hs
      exact hi
    · exact bound_enter i hI f hf j hs

/-- Frames that send nothing come and go. -/
theorem Inv.retrying (hI : Inv n s) (hc : s.calls = .retrying i :: calls) :
    Inv n { s with calls := calls } where
  size := hI.size
  queues j hj := by
    refine (hI.queues j hj).mono ?_ ?_
    · rw [hc]
      rintro ⟨f, hf, hs⟩
      obtain rfl | hf := List.mem_cons.1 hf
      · exact hs.elim
      · exact ⟨f, hf, hs⟩
    · rintro ⟨f, hf, hs⟩
      exact ⟨f, by rw [hc]; exact List.mem_cons_of_mem _ hf, hs⟩
  nested := by
    have := hI.nested
    rw [hc] at this
    exact this.of_cons
  bound f hf := hI.bound f (by rw [hc]; exact List.mem_cons_of_mem _ hf)

theorem Inv.pushRetrying (hI : Inv n s) (i : Nat) : Inv n { s with calls := .retrying i :: s.calls } where
  size := hI.size
  queues j hj := by
    refine (hI.queues j hj).mono ?_ ?_
    · rintro ⟨f, hf, hs⟩
      exact ⟨f, List.mem_cons_of_mem _ hf, hs⟩
    · rintro ⟨f, hf, hs⟩
      obtain rfl | hf := List.mem_cons.1 hf
      · exact hs.elim
      · exact ⟨f, hf, hs⟩
  nested := List.Pairwise.cons (fun f _ j hs => hs.elim) hI.nested
  bound f hf j hs := by
    obtain rfl | hf := List.mem_cons.1 hf
    · exact hs.elim
    · exact hI.bound f hf j hs

theorem retry_inv (hI : Inv n s) (hi : i < s.numTcs)
    (hr : (s.respQueues i).waitingOnRetry = true ∨ (s.respQueues i).deferredPacketReady s.now = false) :
    Inv n (s.called i ((s.respQueues i).retry s.now)) := by
  obtain ⟨dp, hq, ha⟩ | hq := (hI.queues i hi).retry hr
  · rw [hq]
    exact called_some hI hi ha
  · rw [hq]
    exact called_none hI ((hI.queues i hi).mono id False.elim)

/-- The innermost send ends; its queue is left as `q`. -/
theorem Inv.sent {entered : Bool} (hI : Inv n s) (hc : s.calls = .sending i dp entered :: calls)
    (hq : Awake s.now q (∃ f ∈ calls, f.sends i) False) :
    Inv n { s with respQueues := Function.update s.respQueues i q, calls := calls } where
  size := hI.size
  queues j hj := by
    have hnested := hI.nested
    rw [hc] at hnested
    show Awake s.now (Function.update s.respQueues i q j) _ _
    by_cases hne : j = i
    · subst hne
      rw [Function.update_self]
      -- the sends around it have seen the call that opened it
      refine hq.mono id ?_
      rintro ⟨f, hf, hfr⟩
      exact List.rel_of_pairwise_cons hnested hf j rfl hfr
    · rw [Function.update_of_ne hne]
      refine (hI.queues j hj).mono ?_ ?_
      · rw [hc]
        rintro ⟨f, hf, hs⟩
        obtain rfl | hf := List.mem_cons.1 hf
        · exact absurd hs.symm hne
        · exact ⟨f, hf, hs⟩
      · rintro ⟨f, hf, hs⟩
        exact ⟨f, by rw [hc]; exact List.mem_cons_of_mem _ hf, hs⟩
  nested := by
    have := hI.nested
    rw [hc] at this
    exact this.of_cons
  bound f hf := hI.bound f (by rw [hc]; exact List.mem_cons_of_mem _ hf)

/-! ## The law -/

/-- A queue that waits for a retry or has nothing to send now. -/
def MayRetry (s : CpuSidePort) (i : Nat) : Prop :=
  (s.respQueues i).waitingOnRetry = true ∨ (s.respQueues i).deferredPacketReady s.now = false

/-- What is asked of the callers: packets are not late and not express snoops,
`retry` does not reach a queue that waits for its send event only, and a send
that is refused has made no call to its queue. -/
def CallOk (s : CpuSidePort) : Action → Prop
  | .schedTimingResp threadID dp => threadID < s.numTcs ∧ s.now ≤ dp.tick ∧ dp.pkt.isExpressSnoop = false
  | .recvRetryOf threadID => threadID < s.numTcs ∧ s.MayRetry threadID
  | .resume =>
    match s.calls with
    | .retrying i :: _ => i < s.numTcs → s.MayRetry i
    | _ => True
  | .returned accepted =>
    match s.calls with
    | .sending _ _ entered :: _ => accepted = true ∨ entered = false
    | _ => True
  | _ => True

theorem step_inv {a : Action} (hI : Inv n s) (ha : s.CallOk a) : ∃ s', s.step a = .ok s' ∧ Inv n s' := by
  cases a with
  | advance ticks =>
    refine ⟨_, rfl, ?_⟩
    split
    · next hc =>
      rw [Bool.and_eq_true, quietUntil, List.all_eq_true] at hc
      refine ⟨hI.size, fun i hi => (hI.queues i hi).advance (Nat.le_add_right _ _) fun w hw => ?_, hI.nested, hI.bound⟩
      have := hc.2 i (List.mem_range.2 hi)
      rw [hw] at this
      exact of_decide_eq_true this
    · exact hI
  | schedTimingResp threadID dp =>
    obtain ⟨ht, hn, hx⟩ := ha
    obtain ⟨q, hq, hA⟩ := (hI.queues threadID ht).schedSendTiming hn hx
    simp only [step, hq, check, ht, decide_true, if_true]
    split
    · exact ⟨_, rfl, called_none hI hA⟩
    · exact ⟨_, rfl, hI⟩
  | recvRetry =>
    refine ⟨_, rfl, ?_⟩
    split
    · exact hI.pushRetrying 0
    · exact hI
  | recvRetryOf threadID =>
    obtain ⟨ht, hr⟩ := ha
    simp only [step, check, ht, decide_true, if_true]
    split
    · exact ⟨_, rfl, retry_inv hI ht hr⟩
    · exact ⟨_, rfl, hI⟩
  | resume =>
    cases hc : s.calls with
    | nil => exact ⟨s, by simp [step, hc], hI⟩
    | cons f calls =>
      cases f with
      | sending i dp entered => exact ⟨s, by simp [step, hc], hI⟩
      | retrying i =>
        simp only [CallOk, hc] at ha
        simp only [step, hc]
        refine ⟨_, rfl, ?_⟩
        split
        · next hi =>
          have h1 : Inv n { s with calls := .retrying (i + 1) :: calls } := (hI.retrying hc).pushRetrying (i + 1)
          exact retry_inv h1 hi (ha hi)
        · exact hI.retrying hc
  | processSendEvent i =>
    by_cases hc : s.calls.isEmpty ∧ i < s.numTcs ∧ (s.respQueues i).sendEvent = some s.now
    · obtain ⟨dp, hq, hA⟩ := (hI.queues i hc.2.1).processSendEvent hc.2.2
      simp only [step, if_pos hc, hq]
      exact ⟨_, rfl, called_some hI hc.2.1 hA⟩
    · simp only [step, if_neg hc]
      exact ⟨s, rfl, hI⟩
  | returned accepted =>
    cases hc : s.calls with
    | nil => exact ⟨s, by simp [step, hc], hI⟩
    | cons f calls =>
      cases f with
      | retrying i => exact ⟨s, by simp [step, hc], hI⟩
      | sending i dp entered =>
        have htop : Frame.sending i dp entered ∈ s.calls := by
          rw [hc]
          exact List.mem_cons_self
        have hi : i < s.numTcs := hI.bound _ htop i rfl
        have key : ∃ q, (s.respQueues i).sendReturned s.now dp accepted = .ok q ∧
            Awake s.now q (∃ f ∈ calls, f.sends i) False := by
          cases accepted with
          | true => exact (hI.queues i hi).accepted _
          | false =>
            simp only [CallOk, hc, Bool.false_eq_true, false_or] at ha
            exact (hI.queues i hi).refused ⟨_, htop, rfl, ha⟩ _ _
        obtain ⟨q, hq, hA⟩ := key
        simp only [step, hc, hq]
        exact ⟨_, rfl, hI.sent hc hA⟩

/-- Between calls: a queue that waits for a retry has no send event, and one that
has packets and does not wait has it by the tick of the first packet or the next
tick. -/
def Law (s : CpuSidePort) (i : Nat) : Prop :=
  ((s.respQueues i).waitingOnRetry = true → (s.respQueues i).sendEvent = none) ∧
    ∀ dp, (s.respQueues i).transmitList.head? = some dp → (s.respQueues i).waitingOnRetry = false →
      ∃ w, (s.respQueues i).sendEvent = some w ∧ s.now ≤ w ∧ (w ≤ dp.tick ∨ w ≤ s.now + 1)

theorem Inv.law (hI : Inv n s) (hc : s.calls = []) (hi : i < s.numTcs) : s.Law i := by
  have hA := hI.queues i hi
  refine ⟨hA.waiting, fun dp hd hw => ?_⟩
  have hsome := hA.wake (by rw [hc]; rintro ⟨f, hf, -⟩; cases hf) (fun h => by rw [h] at hd; cases hd) hw
  obtain ⟨w, he⟩ := Option.ne_none_iff_exists'.1 hsome
  obtain ⟨hn, d, hd', -, hle⟩ := hA.event w he
  rw [hd] at hd'
  obtain rfl := Option.some.inj hd'
  exact ⟨w, he, hn, by omega⟩

/-- In every run of such calls no assertion fails, and the queues follow the law
between the calls. -/
theorem wakeup_law (numTcs : Nat) (as : List Action) (hok : Always step CallOk (init numTcs) as) :
    ∃ s, runs step (init numTcs) as = .ok s ∧ (s.calls = [] → ∀ i < numTcs, s.Law i) := by
  obtain ⟨s, hs, hI⟩ := runs_total (Inv numTcs) (fun s a hI ha => step_inv hI ha) (inv_init numTcs) hok
  exact ⟨s, hs, fun hc i hi => hI.law hc (by rw [hI.size]; exact hi)⟩

instance (s : CpuSidePort) (i : Nat) : Decidable (s.MayRetry i) := inferInstanceAs (Decidable (_ ∨ _))

instance (s : CpuSidePort) (a : Action) : Decidable (s.CallOk a) := by
  unfold CallOk
  split
  all_goals try split
  all_goals infer_instance

/-- A response that is ready at tick `t`. -/
def response (t : Nat) : DeferredPacket :=
  { tick := t, pkt := { cmd := .readResp, addr := 0, size := 4, threadID := 0 } }

/-- Thread 1 has been refused and waits for a retry. -/
def refusal : List Action := [.schedTimingResp 1 (response 0), .processSendEvent 1, .returned false]

/-- The retry for thread 1 also reaches thread 0, whose packet has just become
ready.  If that send is refused, the send event is still scheduled and an
assertion fails; if it is accepted, the event fires for nothing and the packet of
tick 5 is never sent. -/
theorem retry_of_sleeping_queue :
    runs step (init 2) (refusal ++ [.schedTimingResp 0 (response 1), .advance 1, .recvRetry, .resume,
      .returned false]) = .error .assertion ∧
    ∃ s, runs step (init 2) (refusal ++ [.schedTimingResp 0 (response 1), .schedTimingResp 0 (response 5), .advance 1,
        .recvRetry, .resume, .returned true, .resume, .returned true, .resume, .processSendEvent 0]) = .ok s ∧
      s.calls.isEmpty = true ∧ (s.respQueues 0).transmitList.map (·.tick) = [5] ∧
      (s.respQueues 0).waitingOnRetry = false ∧ (s.respQueues 0).sendEvent = none :=
  ⟨error_of_fault (by decide +kernel), by decide +kernel⟩

/-- The retry comes before thread 0 has anything to send. -/
theorem wakeup_law_early_retry :
    ∃ s, runs step (init 2) (refusal ++ [.schedTimingResp 0 (response 5), .advance 1, .recvRetry, .resume, .resume,
        .returned true, .resume]) = .ok s ∧ s.calls = [] ∧ s.Law 0 := by
  obtain ⟨s, hs, hl⟩ := wakeup_law 2 (refusal ++ [.schedTimingResp 0 (response 5), .advance 1, .recvRetry,
    .resume, .resume, .returned true, .resume]) (by decide +kernel)
  have h : passes (fun s : CpuSidePort => s.calls.isEmpty) (runs step (init 2) (refusal ++ [.schedTimingResp 0
      (response 5), .advance 1, .recvRetry, .resume, .resume, .returned true, .resume])) = true := by
    decide +kernel
  rw [hs] at h
  have hc : s.calls = [] := List.isEmpty_iff.1 h
  exact ⟨s, hs, hc, hl hc 0 (by decide)⟩

end CpuSidePort

end DynamicCache.Port
