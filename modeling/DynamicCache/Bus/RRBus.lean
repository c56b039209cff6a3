import DynamicCache.Bus.Layer
import DynamicCache.Lib.Faults
import Mathlib.Data.Fintype.Basic

/-!
# The round-robin bus (`RRBus` in `rr_bus.cc`)

What the two buses have in common: a clock, layers of type `ι` and the calls that
are open.  A call leaves the bus while it is in `sendTimingReq`, `sendTimingResp`,
`forwardTiming` or `sendRetry`; until it returns, the code on the other side may
call the bus again.  `calls` is the stack of these calls, innermost first, with
what the rest of each function needs.  Time passes and events are serviced only
when no call is open, and no event is passed over (`advance`).

`Inv` is what a layer keeps between any two steps: a thread is busy when its
release event is scheduled or a packet of it is being sent, waits for `sendRetry`
to return when it is in `RETRY`, and everything it has scheduled lies in its own
turn.
-/

namespace DynamicCache.Bus

open Lib

/-- The answer `tryTiming` has just given. -/
def Thread.answered (th : Thread) : Bool :=
  match th.log with
  | .answer _ accepted :: _ => accepted
  | _ => false

/-- What the bus reads of a packet. -/
structure Packet where
  threadID : Nat
  hasData : Bool := false
  size : Nat := 0
  expressSnoop : Bool := false
  needsResponse : Bool := true
  uncacheable : Bool := false
  /-- the request the packet belongs to -/
  req : Nat := 0
  dest : Nat := 0
deriving DecidableEq

/-- Parameters of a bus with layers `ι`. -/
structure Config (ι : Type) where
  numPids : Nat
  clock : Nat
  headerCycles : Nat
  width : Nat
  tl : ι → Nat
  offset : ι → Int
  numPids_pos : 0 < numPids
  clock_pos : 0 < clock
  tl_pos : ∀ l, 0 < tl l

namespace Config

variable {ι : Type} (c : Config ι)

/-- The parameters a layer is built with. -/
def params (l : ι) : Params := ⟨c.numPids, c.tl l, c.offset l, c.clock, c.numPids_pos, c.tl_pos l, c.clock_pos⟩

/-- Cycles for the data of a packet. -/
def numCycles (pkt : Packet) : Nat :=
  if pkt.hasData then pkt.size / c.width + if pkt.size % c.width ≠ 0 then 1 else 0 else 0

/-- The ends of the header and of the packet, with the turn length and offset of
layer `l`. -/
def calcPacketTiming (now : Nat) (pkt : Packet) (l : ι) : Nat × Nat :=
  ((c.params l).calcFinishTime now pkt.threadID c.headerCycles,
    (c.params l).calcFinishTime now pkt.threadID (c.headerCycles + c.numCycles pkt))

end Config

/-- A packet that `tryTiming` let pass. -/
structure Sent where
  pkt : Packet
  port : Nat
  headerFinishTime : Nat
  packetFinishTime : Nat
deriving DecidableEq

/-- A call of the bus that has not returned. -/
inductive Call (ι : Type) where
  /-- in `sendTimingReq`, `sendTimingResp` or `sendTimingSnoopResp` -/
  | sending (l : ι) (x : Sent)
  /-- in `forwardTiming` of a request -/
  | forwarding (l : ι) (x : Sent)
  /-- an express snoop, on its way down or to the snoopers -/
  | express (fromHome : Bool)
  /-- `retryWaiting` in `sendRetry` -/
  | retrying (l : ι) (threadID : Nat)
  /-- the loop of `recvRetry`, before iteration `i` -/
  | looping (l : ι) (i : Nat)
deriving DecidableEq

/-- The packet a call is sending, with its layer. -/
def Call.sends {ι : Type} : Call ι → Option (ι × Sent)
  | .sending l x | .forwarding l x => some (l, x)
  | _ => none

/-- A call that neither sends nor retries concerns no thread. -/
structure Call.Aside {ι : Type} (call : Call ι) : Prop where
  sends : call.sends = none
  retrying : ∀ l u, call ≠ .retrying l u

structure RRBus (ι : Type) where
  now : Nat := 0
  layer : ι → Layer := fun _ => Layer.init
  calls : List (Call ι) := []

inductive Fault where
  /-- `assert(!retryList[threadID].empty())` in `retryWaiting` -/
  | emptyRetryList
  /-- `assert(state[threadID] == BUSY)` in `releaseLayer` -/
  | notBusy
  | assertion
  /-- there is no such call or event -/
  | notEnabled
deriving DecidableEq, Repr

namespace RRBus

variable {ι : Type}

section

variable [DecidableEq ι]

/-- Replaces a thread of a layer. -/
def set (s : RRBus ι) (l : ι) (u : Nat) (th : Thread) : RRBus ι :=
  { s with layer := Function.update s.layer l (Function.update (s.layer l) u th) }

def push (s : RRBus ι) (call : Call ι) : RRBus ι := { s with calls := call :: s.calls }

section

variable (c : Config ι) (s : RRBus ι)

/-- `tryTiming` and, if it lets the packet pass, `calcPacketTiming` with the turns of
layer `timing`; `call` is what the bus calls next. -/
def enter (l timing : ι) (pkt : Packet) (port : Nat) (call : Sent → Call ι) : Except Fault (RRBus ι) := do
  let th ← orFail .assertion ((s.layer l pkt.threadID).tryTiming (c.params l) s.now pkt.threadID port)
  let s' := s.set l pkt.threadID th
  if th.answered then
    let t := c.calcPacketTiming s.now pkt timing
    pure (s'.push (call ⟨pkt, port, t.1, t.2⟩))
  else pure s'

def succeededTiming (l : ι) (x : Sent) : Except Fault (RRBus ι) := do
  let th ← orFail .assertion ((s.layer l x.pkt.threadID).succeededTiming s.now x.packetFinishTime)
  pure (s.set l x.pkt.threadID th)

def failedTiming (l : ι) (x : Sent) : Except Fault (RRBus ι) := do
  let th ← orFail .assertion ((s.layer l x.pkt.threadID).failedTiming s.now x.port x.headerFinishTime)
  pure (s.set l x.pkt.threadID th)

/-- `retryWaiting` of the active thread, up to `sendRetry`. -/
def retryWaiting (l : ι) : Except Fault (RRBus ι) := do
  let u := (c.params l).activeId s.now
  let th ← orFail .emptyRetryList ((s.layer l u).retryWaiting s.now)
  let s' := s.set l u th
  pure (if (s.layer l u).state = .idle then s'.push (.retrying l u) else s')

/-- `releaseLayer` of the active thread, up to `sendRetry`. -/
def releaseLayer (l : ι) : Except Fault (RRBus ι) := do
  let u := (c.params l).activeId s.now
  check .notBusy (decide ((s.layer l u).state = .busy))
  let th ← orFail .assertion ((s.layer l u).releaseLayer s.now)
  let s' := s.set l u th
  pure (if (s.layer l u).retryList ≠ [] then s'.push (.retrying l u) else s')

end

/-- What happens to the bus besides packets. -/
inductive Event (ι : Type) where
  | advance (tick : Nat)
  | fireRelease (l : ι) (threadID : Nat)
  | fireRetry (l : ι) (threadID : Nat)
  /-- the next iteration of the loop in `recvRetry` -/
  | iterate
  /-- `sendRetry` returns -/
  | retried
deriving DecidableEq

variable [Fintype ι]

/-- Nothing is scheduled before `tick`. -/
def NothingBefore (c : Config ι) (s : RRBus ι) (tick : Nat) : Prop :=
  ∀ l, ∀ u < c.numPids, (∀ e ∈ (s.layer l u).releaseEvent, tick ≤ e) ∧ ∀ e ∈ (s.layer l u).retryEvent, tick ≤ e

instance (c : Config ι) (s : RRBus ι) (tick : Nat) : Decidable (NothingBefore c s tick) :=
  inferInstanceAs (Decidable (∀ _, ∀ _ < _, _ ∧ _))

def event (c : Config ι) (s : RRBus ι) : Event ι → Except Fault (RRBus ι)
  | .advance tick =>
    if s.calls = [] ∧ s.now ≤ tick ∧ NothingBefore c s tick then .ok { s with now := tick }
    else .error .notEnabled
  | .fireRelease l u =>
    if s.calls = [] ∧ u < c.numPids ∧ (s.layer l u).releaseEvent = some s.now then
      (s.set l u { s.layer l u with releaseEvent := none }).releaseLayer c l
    else .error .notEnabled
  | .fireRetry l u =>
    if s.calls = [] ∧ u < c.numPids ∧ (s.layer l u).retryEvent = some s.now then
      (s.set l u { s.layer l u with retryEvent := none }).retryWaiting c l
    else .error .notEnabled
  | .iterate =>
    match s.calls with
    | .looping l i :: rest =>
      if i < c.numPids then
        let s' := { s with calls := .looping l (i + 1) :: rest }
        if (s.layer l i).retryList ≠ [] ∧ (s.layer l i).state = .idle then s'.retryWaiting c l else .ok s'
      else .ok { s with calls := rest }
    | _ => .error .notEnabled
  | .retried =>
    match s.calls with
    | .retrying l u :: rest => do
      let th ← orFail .assertion ((s.layer l u).returned (c.params l) u)
      pure ({ s with calls := rest }.set l u th)
    | _ => .error .notEnabled

end

/-! ## One thread -/

/-- What the thread's state says; `sending` and `retrying` are whether a packet of the
thread is being sent and whether its `sendRetry` is open. -/
structure Sched (sending retrying : Prop) (th : Thread) : Prop where
  idle : th.state = .idle →
    th.releaseEvent = none ∧ ¬sending ∧ ¬retrying ∧ (th.retryList ≠ [] → th.retryEvent.isSome)
  busy : th.state = .busy → th.releaseEvent.isSome ∨ sending
  retry : th.state = .retry → th.releaseEvent = none ∧ retrying

variable {call : Call ι} {x : Sent} {th' : Thread}

namespace Sched

variable {p : Params} {a b a' b' : Prop} {th th' : Thread} {now u port busyTime : Nat}

theorem congr (h : Sched a b th) (ha : a ↔ a') (hb : b ↔ b') : Sched a' b' th := by
  rw [propext ha, propext hb] at h
  exact h

theorem of_busy (hs : th.state = .busy) (hr : th.releaseEvent.isSome) : Sched a b th :=
  ⟨fun h => absurd (hs.symm.trans h) nofun, fun _ => .inl hr, fun h => absurd (hs.symm.trans h) nofun⟩

theorem occupyLayer (h : th.occupyLayer now busyTime = some th') (hs : th.state = .busy) : Sched a b th' := by
  unfold Thread.occupyLayer at h
  split at h
  · cases h
  · obtain rfl := Option.some.inj h
    exact of_busy hs rfl

theorem succeededTiming (h : th.succeededTiming now busyTime = some th') : Sched a b th' := by
  unfold Thread.succeededTiming at h
  split at h
  · cases h
  · exact occupyLayer h rfl
  · next hs => exact occupyLayer h hs
  · cases h

theorem failedTiming (h : th.failedTiming now port busyTime = some th') : Sched a b th' := by
  unfold Thread.failedTiming at h
  split at h
  · cases h
  · exact occupyLayer h rfl
  · exact occupyLayer h rfl

/-- The rest of `retryWaiting` leaves the thread busy. -/
theorem returned (hS : Sched a True th) (h : th.returned p u = some th') : Sched a b th' := by
  unfold Thread.returned at h
  split at h
  · cases h
  · dsimp only at h
    split at h
    · split at h
      · cases h
      · exact occupyLayer h rfl
    · next hne =>
      obtain rfl := Option.some.inj h
      exact ⟨fun hi => absurd trivial (hS.idle hi).2.2.1, hS.busy, fun hr => absurd hr hne⟩

theorem retryWaiting (hrel : th.state = .idle → th.releaseEvent = none) (h : th.retryWaiting now = some th') :
    if th.state = .idle then Sched a True th' else th' = th := by
  unfold Thread.retryWaiting at h
  split at h
  · cases h
  · split at h
    · next hne =>
      rw [if_neg hne]
      exact (Option.some.inj h).symm
    · next hidle =>
      have hidle : th.state = .idle := not_not.1 hidle
      rw [if_pos hidle]
      obtain rfl := Option.some.inj h
      exact ⟨nofun, nofun, fun _ => ⟨hrel hidle, trivial⟩⟩

/-- `tryTiming` makes an idle thread busy for the packet it lets pass, or takes note of
the port. -/
theorem tryTiming (hS : Sched a b th) (h : th.tryTiming p now u port = some th') :
    if th'.answered then Sched True b th' else Sched a b th' := by
  -- a rejection leaves the thread as it is, and an idle thread gets a retry event
  have hreject : ∀ e, (th.state = .idle → e.isSome) →
      Sched a b { th.reject now port with retryEvent := e } := by
    intro e he
    refine ⟨fun hi => ?_, hS.busy, hS.retry⟩
    obtain ⟨h1, h2, h3, -⟩ := hS.idle hi
    exact ⟨h1, h2, h3, fun _ => he hi⟩
  unfold Thread.tryTiming at h
  split at h
  · dsimp only at h
    split at h
    · next hev =>
      obtain rfl := Option.some.inj h
      exact hreject th.retryEvent fun _ => hev
    · split at h
      · cases h
      · obtain rfl := Option.some.inj h
        exact hreject (some (p.retryTime now u)) fun _ => rfl
  · split at h
    · next hb =>
      obtain rfl := Option.some.inj h
      exact hreject th.retryEvent fun hi => absurd (hb.symm.trans hi) nofun
    · cases h
    · next hr _ =>
      split at h
      · obtain rfl := Option.some.inj h
        exact hreject th.retryEvent fun hi => absurd (hr.symm.trans hi) nofun
      · obtain rfl := Option.some.inj h
        exact ⟨fun hi => absurd (hr.symm.trans hi) nofun, fun _ => .inr trivial, hS.retry⟩
    · obtain rfl := Option.some.inj h
      exact ⟨nofun, fun _ => .inr trivial, nofun⟩

theorem state_releaseLayer (h : th.releaseLayer now = some th') : th'.state ≠ .busy := by
  unfold Thread.releaseLayer at h
  split at h
  · cases h
  · dsimp only at h
    split at h
    · unfold Thread.retryWaiting at h
      split at h
      · cases h
      · split at h
        · next hne => exact absurd rfl hne
        · obtain rfl := Option.some.inj h
          exact nofun
    · obtain rfl := Option.some.inj h
      exact nofun

/-- `releaseLayer` of a thread with nothing open. -/
theorem releaseLayer (h : th.releaseLayer now = some th') :
    if th.retryList ≠ [] then Sched False True th' else Sched False False th' := by
  unfold Thread.releaseLayer at h
  split at h
  · cases h
  · next hc =>
    rw [not_or, not_not] at hc
    have hrel : th.releaseEvent = none := by
      cases hr : th.releaseEvent with
      | none => rfl
      | some e => exact absurd (by rw [hr]; rfl) hc.2
    dsimp only at h
    have hlist : ({ th with state := .idle }.see (.release now)).retryList = th.retryList := rfl
    rw [hlist] at h
    by_cases hl : th.retryList = []
    · rw [if_neg (not_not.2 hl)] at h ⊢
      obtain rfl := Option.some.inj h
      exact ⟨fun _ => ⟨hrel, id, id, fun hne => absurd hl hne⟩, nofun, nofun⟩
    · rw [if_pos hl] at h ⊢
      have hrel' : ({ th with state := .idle }.see (.release now)).releaseEvent = none := hrel
      have hr := retryWaiting (a := False) (fun _ => hrel') h
      exact hr

end Sched

/-! ## Open calls -/

section

variable {l : ι} {u : Nat} {calls : List (Call ι)}

/-- A packet of thread `u` is being sent on layer `l`. -/
def Sending (calls : List (Call ι)) (l : ι) (u : Nat) : Prop :=
  ∃ call ∈ calls, ∃ x : Sent, call.sends = some (l, x) ∧ x.pkt.threadID = u

def Retrying (calls : List (Call ι)) (l : ι) (u : Nat) : Prop := .retrying l u ∈ calls

/-- `calls` and `calls'` agree about every thread but thread `u` of layer `l`. -/
def AgreeExcept (l : ι) (u : Nat) (calls calls' : List (Call ι)) : Prop :=
  ∀ l' u', ¬(l' = l ∧ u' = u) →
    (Sending calls l' u' ↔ Sending calls' l' u') ∧ (Retrying calls l' u' ↔ Retrying calls' l' u')

theorem AgreeExcept.symm {calls' : List (Call ι)} (h : AgreeExcept l u calls calls') : AgreeExcept l u calls' calls :=
  fun l' u' hne => ⟨(h l' u' hne).1.symm, (h l' u' hne).2.symm⟩

theorem agreeExcept_sends (h : call.sends = some (l, x)) :
    AgreeExcept l x.pkt.threadID calls (call :: calls) := by
  intro l' u' hne
  constructor
  · constructor
    · rintro ⟨call', hm, hs⟩
      exact ⟨call', List.mem_cons_of_mem _ hm, hs⟩
    · rintro ⟨call', hm, y, hy, hu⟩
      rcases List.mem_cons.1 hm with rfl | hm
      · rw [h] at hy
        cases hy
        exact absurd ⟨rfl, hu.symm⟩ hne
      · exact ⟨call', hm, y, hy, hu⟩
  · constructor
    · exact fun hm => List.mem_cons_of_mem _ hm
    · intro hm
      rcases List.mem_cons.1 hm with rfl | hm
      · cases h
      · exact hm

theorem sending_retrying {l' : ι} {u' : Nat} : Sending (.retrying l' u' :: calls) l u ↔ Sending calls l u := by
  simp [Sending, show (Call.retrying l' u').sends = none from rfl]

theorem agreeExcept_retrying : AgreeExcept l u calls (.retrying l u :: calls) := by
  intro l' u' hne
  constructor
  · exact sending_retrying.symm
  · simp only [Retrying, List.mem_cons, Call.retrying.injEq, or_iff_right hne]

theorem aside_looping {i : Nat} : (Call.looping l i).Aside := ⟨rfl, nofun⟩

theorem aside_express {fromHome : Bool} : (Call.express fromHome : Call ι).Aside := ⟨rfl, nofun⟩

theorem sending_aside (h : call.Aside) : Sending (call :: calls) l u ↔ Sending calls l u := by
  simp [Sending, h.sends]

theorem retrying_aside (h : call.Aside) : Retrying (call :: calls) l u ↔ Retrying calls l u := by
  simp [Retrying, (h.retrying l u).symm]

end

/-! ## The bus -/

/-- The thread has done nothing yet. -/
def Quiet (th : Thread) : Prop :=
  th.state = .idle ∧ th.retryList = [] ∧ th.releaseEvent = none ∧ th.retryEvent = none ∧ th.frames = []

/-- The first turn of layer `l` has begun. -/
def Begun (c : Config ι) (s : RRBus ι) (l : ι) : Prop := (c.params l).Begun s.now

/-- Two rounds ahead the tick still fits 64 bits. -/
def Room (c : Config ι) (s : RRBus ι) (l : ι) : Prop := (c.params l).Room s.now 2

instance (c : Config ι) (s : RRBus ι) (l : ι) : Decidable (Room c s l) :=
  inferInstanceAs (Decidable ((c.params l).Room s.now 2))

/-- The busy times of the packets that are being sent lie in the turns of their threads. -/
def Timely (c : Config ι) (calls : List (Call ι)) : Prop :=
  ∀ call ∈ calls, ∀ l x, call.sends = some (l, x) →
    (c.params l).activeId x.headerFinishTime = x.pkt.threadID ∧
      (c.params l).activeId x.packetFinishTime = x.pkt.threadID

structure Inv (c : Config ι) (s : RRBus ι) : Prop where
  sched : ∀ l u, Sched (Sending s.calls l u) (Retrying s.calls l u) (s.layer l u)
  owned : ∀ l u, Layer.Owned (c.params l) u (s.layer l u)
  timely : Timely c s.calls
  begun : ∀ l, (∀ u, Quiet (s.layer l u)) ∨ Begun c s l

section

variable {c : Config ι} {s s' : RRBus ι} {l : ι} {u : Nat} {th : Thread} {calls : List (Call ι)}

theorem inv_init : Inv c ({} : RRBus ι) := by
  refine ⟨fun l u => ⟨fun _ => ⟨rfl, ?_, nofun, fun h => absurd rfl h⟩, nofun, nofun⟩,
    fun l u => ⟨nofun, nofun, nofun⟩, nofun, fun l => .inl fun u => ⟨rfl, rfl, rfl, rfl, rfl⟩⟩
  rintro ⟨call, hm, -⟩
  cases hm

/-- A thread that is not quiet has begun after the first turn. -/
theorem Inv.begun_of (hI : Inv c s) (h : ¬Quiet (s.layer l u)) : Begun c s l :=
  (hI.begun l).resolve_left fun hq => h (hq u)

theorem timely_cons (h : Timely c calls)
    (hc : ∀ l x, call.sends = some (l, x) → (c.params l).activeId x.headerFinishTime = x.pkt.threadID ∧
      (c.params l).activeId x.packetFinishTime = x.pkt.threadID) : Timely c (call :: calls) := by
  intro call' hm l x hs
  rcases List.mem_cons.1 hm with rfl | hm
  · exact hc l x hs
  · exact h call' hm l x hs

theorem Timely.tail (h : Timely c (call :: calls)) : Timely c calls :=
  fun call' hm => h call' (List.mem_cons_of_mem _ hm)

/-- A call that concerns no thread is made. -/
theorem Inv.push_aside (hI : Inv c s) (h : call.Aside) : Inv c (s.push call) := by
  refine ⟨fun l u => ?_, hI.owned, timely_cons hI.timely fun l x hs => ?_, hI.begun⟩
  · exact (hI.sched l u).congr (sending_aside h).symm (retrying_aside h).symm
  · rw [h.sends] at hs
    cases hs

/-- A call that concerns no thread returns. -/
theorem Inv.pop_aside (hI : Inv c s) (hs : s.calls = call :: calls) (h : call.Aside) :
    Inv c { s with calls := calls } := by
  have hsched := hI.sched
  have htimely := hI.timely
  rw [hs] at hsched htimely
  exact ⟨fun l u => (hsched l u).congr (sending_aside h) (retrying_aside h), hI.owned, htimely.tail, hI.begun⟩

/-- The innermost call goes from one step of sending its packet to the next. -/
theorem Inv.resend {call' : Call ι} (hI : Inv c s) (hs : s.calls = call :: calls)
    (hc : call.sends = some (l, x)) (hc' : call'.sends = some (l, x)) :
    Inv c { s with calls := call' :: calls } := by
  have hsched := hI.sched
  have htimely := hI.timely
  rw [hs] at hsched htimely
  refine ⟨fun l' u' => (hsched l' u').congr ?_ ?_, hI.owned, timely_cons htimely.tail ?_, hI.begun⟩
  · simp only [Sending, List.mem_cons, exists_eq_or_imp, hc, hc']
  · have hne : ∀ call'' : Call ι, call''.sends = some (l, x) → .retrying l' u' ≠ call'' := by
      rintro _ h rfl
      cases h
    simp only [Retrying, List.mem_cons, or_iff_right (hne call hc), or_iff_right (hne call' hc')]
  · intro l' x' h
    rw [hc', ← hc] at h
    exact htimely call List.mem_cons_self l' x' h

/-- A thread whose packet is being sent is not idle, so its first turn has begun. -/
theorem Inv.begun_of_sends (hI : Inv c s) (hs : s.calls = call :: calls) (hc : call.sends = some (l, x)) :
    Begun c s l := by
  refine hI.begun_of (u := x.pkt.threadID) fun hq => ((hI.sched l _).idle hq.1).2.1 ?_
  rw [hs]
  exact ⟨call, List.mem_cons_self, x, hc, rfl⟩

theorem sending_nil : ¬Sending ([] : List (Call ι)) l u := by
  rintro ⟨call, hm, -⟩
  cases hm

/-- A thread with a release event is busy. -/
theorem Inv.busy_of_release (hI : Inv c s) (hr : (s.layer l u).releaseEvent.isSome) :
    (s.layer l u).state = .busy := by
  have hS := hI.sched l u
  cases hst : (s.layer l u).state with
  | idle =>
    rw [(hS.idle hst).1] at hr
    cases hr
  | busy => rfl
  | retry =>
    rw [(hS.retry hst).1] at hr
    cases hr

/-- `tryTiming` lets a packet pass in the turn of its thread only. -/
theorem activeId_of_answered {p : Params} {now port : Nat} (h : th.tryTiming p now u port = some th')
    (ha : th'.answered = true) : p.activeId now = u := by
  unfold Thread.tryTiming at h
  split at h
  · dsimp only at h
    split at h
    · obtain rfl := Option.some.inj h
      cases ha
    · split at h
      · cases h
      · obtain rfl := Option.some.inj h
        cases ha
  · next hne => exact not_not.1 hne

/-- When a packet may come: its thread exists, the first turn has begun, and its finish
time fits 64 bits. -/
def MayEnter (c : Config ι) (s : RRBus ι) (l : ι) (pkt : Packet) : Prop :=
  pkt.threadID < c.numPids ∧ (c.params l).Started s.now ∧
    (c.params l).Room s.now (c.headerCycles + c.numCycles pkt)

instance (c : Config ι) (s : RRBus ι) (l : ι) (pkt : Packet) : Decidable (MayEnter c s l pkt) :=
  inferInstanceAs (Decidable (_ ∧ _ ∧ _))

theorem calcPacketTiming_inTurn {pkt : Packet} (hmay : MayEnter c s l pkt)
    (hown : (c.params l).activeId s.now = pkt.threadID) :
    (c.params l).activeId (c.calcPacketTiming s.now pkt l).1 = pkt.threadID ∧
      (c.params l).activeId (c.calcPacketTiming s.now pkt l).2 = pkt.threadID := by
  obtain ⟨hu, hs, hroom⟩ := hmay
  exact ⟨(Params.activeId_calcFinishTime hs.1 hu hown (hroom.mono (Nat.le_add_right _ _))).1,
    (Params.activeId_calcFinishTime hs.1 hu hown hroom).1⟩

variable [DecidableEq ι]

theorem set_layer_self : (s.set l u th).layer l u = th := by
  show Function.update s.layer l _ l u = th
  rw [Function.update_self, Function.update_self]

theorem set_layer_ne {l' : ι} {u' : Nat} (h : ¬(l' = l ∧ u' = u)) : (s.set l u th).layer l' u' = s.layer l' u' := by
  show Function.update s.layer l _ l' u' = _
  by_cases hl : l' = l
  · subst hl
    rw [Function.update_self, Function.update_of_ne fun hu => h ⟨rfl, hu⟩]
  · rw [Function.update_of_ne hl]

theorem set_set : (s.set l u th).set l u th' = s.set l u th' := by
  unfold RRBus.set
  dsimp only
  rw [Function.update_self, Function.update_idem, Function.update_idem]

/-- A step on one thread of a layer whose first turn has begun. -/
theorem Inv.set (hI : Inv c s) (hagree : AgreeExcept l u s.calls calls)
    (hsched : Sched (Sending calls l u) (Retrying calls l u) th) (howned : Layer.Owned (c.params l) u th)
    (htimely : Timely c calls) (hbegun : Begun c s l) : Inv c { s.set l u th with calls := calls } := by
  refine ⟨fun l' u' => ?_, fun l' u' => ?_, htimely, fun l' => ?_⟩
  · show Sched _ _ ((s.set l u th).layer l' u')
    by_cases h : l' = l ∧ u' = u
    · rw [h.1, h.2, set_layer_self]
      exact hsched
    · rw [set_layer_ne h]
      exact (hI.sched l' u').congr (hagree l' u' h).1 (hagree l' u' h).2
  · show Layer.Owned _ _ ((s.set l u th).layer l' u')
    by_cases h : l' = l ∧ u' = u
    · rw [h.1, h.2, set_layer_self]
      exact howned
    · rw [set_layer_ne h]
      exact hI.owned l' u'
  · by_cases hl : l' = l
    · rw [hl]
      exact .inr hbegun
    · rcases hI.begun l' with hq | hb
      · refine .inl fun u' => ?_
        rw [set_layer_ne fun h => hl h.1]
        exact hq u'
      · exact .inr hb

/-! ## Packets -/

/-- A packet comes to layer `l`, and its finish time is computed with the turns of that
layer. -/
theorem Inv.enter {timing : ι} {pkt : Packet} {port : Nat} {call : Sent → Call ι} (hI : Inv c s)
    (hcall : ∀ x, (call x).sends = some (l, x)) (htiming : c.params timing = c.params l)
    (hmay : MayEnter c s l pkt) (h : s.enter c l timing pkt port call = .ok s') : Inv c s' := by
  obtain ⟨th, hth, h⟩ := bind_ok.1 h
  rw [orFail_ok] at hth
  have hS := (hI.sched l pkt.threadID).tryTiming hth
  have hO : Layer.Owned (c.params l) pkt.threadID th :=
    Layer.owned_tryTiming hth (hI.owned l pkt.threadID) hmay.2.1 hmay.1
  by_cases ha : th.answered = true
  · rw [if_pos ha] at h hS
    cases h
    have hx := calcPacketTiming_inTurn hmay (activeId_of_answered hth ha)
    have ht : c.calcPacketTiming s.now pkt timing = c.calcPacketTiming s.now pkt l := by
      unfold Config.calcPacketTiming
      rw [htiming]
    rw [ht]
    generalize hX : Sent.mk pkt port (c.calcPacketTiming s.now pkt l).1 (c.calcPacketTiming s.now pkt l).2 = x
    have hpkt : x.pkt = pkt := by rw [← hX]
    have hagree : AgreeExcept l pkt.threadID s.calls (call x :: s.calls) := by
      rw [← hpkt]
      exact agreeExcept_sends (hcall x)
    refine hI.set hagree (hS.congr (iff_of_true trivial ?_) ?_) hO (timely_cons hI.timely ?_) hmay.2.1.1
    · exact ⟨call x, List.mem_cons_self, x, hcall x, by rw [hpkt]⟩
    · constructor
      · exact fun hm => List.mem_cons_of_mem _ hm
      · intro hm
        rcases List.mem_cons.1 hm with he | hm
        · have := hcall x
          rw [← he] at this
          cases this
        · exact hm
    · intro l' x' hs
      rw [hcall x] at hs
      cases hs
      rw [← hX]
      exact hx
  · rw [if_neg ha] at h hS
    cases h
    exact hI.set (fun _ _ _ => ⟨Iff.rfl, Iff.rfl⟩) hS hO hI.timely hmay.2.1.1

/-- A packet has been sent. -/
theorem Inv.succeededTiming (hI : Inv c s) (hs : s.calls = call :: calls) (hc : call.sends = some (l, x))
    (h : { s with calls := calls }.succeededTiming l x = .ok s') : Inv c s' := by
  obtain ⟨th, hth, h⟩ := bind_ok.1 h
  rw [orFail_ok] at hth
  cases h
  have htimely := hI.timely
  rw [hs] at htimely
  have hagree : AgreeExcept l x.pkt.threadID s.calls calls := by
    rw [hs]
    exact (agreeExcept_sends hc).symm
  have hown := (htimely call List.mem_cons_self l x hc).2
  exact hI.set hagree (Sched.succeededTiming hth) (Layer.owned_succeededTiming hth (hI.owned l _) hown)
    htimely.tail (hI.begun_of_sends hs hc)

/-- A packet has been refused. -/
theorem Inv.failedTiming (hI : Inv c s) (hs : s.calls = call :: calls) (hc : call.sends = some (l, x))
    (h : { s with calls := calls }.failedTiming l x = .ok s') : Inv c s' := by
  obtain ⟨th, hth, h⟩ := bind_ok.1 h
  rw [orFail_ok] at hth
  cases h
  have htimely := hI.timely
  rw [hs] at htimely
  have hagree : AgreeExcept l x.pkt.threadID s.calls calls := by
    rw [hs]
    exact (agreeExcept_sends hc).symm
  have hown := (htimely call List.mem_cons_self l x hc).1
  exact hI.set hagree (Sched.failedTiming hth) (Layer.owned_failedTiming hth (hI.owned l _) hown)
    htimely.tail (hI.begun_of_sends hs hc)

/-! ## Events -/

/-- The active thread `u` goes from `th` to `th'`, perhaps into `sendRetry`. -/
theorem Inv.set_retrying {retries : Prop} [Decidable retries] (hI : Inv c s)
    (hsched : if retries then Sched (Sending s.calls l u) True th'
      else Sched (Sending s.calls l u) (Retrying s.calls l u) th') (howned : Layer.Owned (c.params l) u th')
    (hbegun : Begun c s l) :
    Inv c (if retries then (s.set l u th').push (.retrying l u) else s.set l u th') := by
  by_cases hr : retries
  · rw [if_pos hr] at hsched ⊢
    exact hI.set agreeExcept_retrying (hsched.congr sending_retrying.symm (iff_of_true trivial List.mem_cons_self))
      howned (timely_cons hI.timely nofun) hbegun
  · rw [if_neg hr] at hsched ⊢
    exact hI.set (fun _ _ _ => ⟨Iff.rfl, Iff.rfl⟩) hsched howned hI.timely hbegun

/-- `retryWaiting` of the active thread, after it has been set to `th`. -/
theorem retryWaiting_set (hown : (c.params l).activeId s.now = u) :
    (s.set l u th).retryWaiting c l = orFail .emptyRetryList (th.retryWaiting s.now) >>= fun th' =>
      pure (if th.state = .idle then (s.set l u th').push (.retrying l u) else s.set l u th') := by
  have hnow : (s.set l u th).now = s.now := rfl
  unfold RRBus.retryWaiting
  simp only [hnow, hown, set_layer_self, set_set]

/-- `releaseLayer` of the active thread, after it has been set to `th`. -/
theorem releaseLayer_set (hown : (c.params l).activeId s.now = u) :
    (s.set l u th).releaseLayer c l = check .notBusy (decide (th.state = .busy)) >>= fun _ =>
      orFail .assertion (th.releaseLayer s.now) >>= fun th' =>
        pure (if th.retryList ≠ [] then (s.set l u th').push (.retrying l u) else s.set l u th') := by
  have hnow : (s.set l u th).now = s.now := rfl
  unfold RRBus.releaseLayer
  simp only [hnow, hown, set_layer_self, set_set]

theorem set_self : s.set l u (s.layer l u) = s := by
  unfold RRBus.set
  rw [Function.update_eq_self, Function.update_eq_self]

theorem Inv.retryWaiting (hI : Inv c s) (hown : (c.params l).activeId s.now = u) (hs : (c.params l).Started s.now)
    (howned : Layer.Owned (c.params l) u th) (hidle : th.state = .idle → th.releaseEvent = none)
    (hsched : th.state ≠ .idle → Sched (Sending s.calls l u) (Retrying s.calls l u) th)
    (h : (s.set l u th).retryWaiting c l = .ok s') : Inv c s' := by
  rw [retryWaiting_set hown] at h
  obtain ⟨th', hr, h⟩ := bind_ok.1 h
  rw [orFail_ok] at hr
  cases h
  refine hI.set_retrying ?_ (Layer.owned_retryWaiting hr howned hs hown) hs.1
  have hS := Sched.retryWaiting (a := Sending s.calls l u) hidle hr
  by_cases hi : th.state = .idle
  · rw [if_pos hi] at hS ⊢
    exact hS
  · rw [if_neg hi] at hS ⊢
    rw [hS]
    exact hsched hi

variable [Fintype ι]

/-- A release in turn frees the thread whose event it is, and leaves all others alone. -/
theorem Inv.fireRelease (hI : Inv c s) (h : s.event c (.fireRelease l u) = .ok s') :
    (s.layer l u).state = .busy ∧ (s'.layer l u).state ≠ .busy ∧
      ∀ l' u', ¬(l' = l ∧ u' = u) → s'.layer l' u' = s.layer l' u' := by
  simp only [RRBus.event] at h
  split at h
  · next hc =>
    have hrel := hc.2.2
    rw [releaseLayer_set ((hI.owned l u).release _ hrel)] at h
    obtain ⟨-, -, h⟩ := bind_ok.1 h
    obtain ⟨th', hr, h⟩ := bind_ok.1 h
    rw [orFail_ok] at hr
    have hlayer : s'.layer = (s.set l u th').layer := by
      cases h
      split
      · rfl
      · rfl
    rw [hlayer, set_layer_self]
    exact ⟨hI.busy_of_release (by rw [hrel]; rfl), Sched.state_releaseLayer hr, fun l' u' hne => set_layer_ne hne⟩
  · cases h

/-- A scheduled release succeeds when its tick has come. -/
theorem Inv.fireRelease_ok (hI : Inv c s) (hcalls : s.calls = []) (hu : u < c.numPids)
    (hrel : (s.layer l u).releaseEvent = some s.now) : ∃ s', s.event c (.fireRelease l u) = .ok s' := by
  have hbusy : (s.layer l u).state = .busy := hI.busy_of_release (by rw [hrel]; rfl)
  obtain ⟨th, hth⟩ : ∃ th, { s.layer l u with releaseEvent := none }.releaseLayer s.now = some th := by
    unfold Thread.releaseLayer
    rw [if_neg (by simp [hbusy])]
    dsimp only
    split
    · next hl => exact Option.ne_none_iff_exists'.1 (Layer.retryWaiting_ne_none hl)
    · exact ⟨_, rfl⟩
  simp only [RRBus.event]
  rw [if_pos ⟨hcalls, hu, hrel⟩, releaseLayer_set ((hI.owned l u).release _ hrel)]
  exact ⟨_, bind_ok.2 ⟨(), check_ok.2 (decide_eq_true hbusy), bind_ok.2 ⟨th, orFail_ok.2 hth, rfl⟩⟩⟩

/-- Every event keeps the invariant, as long as the ticks it computes fit 64 bits. -/
theorem Inv.event {e : Event ι} (hI : Inv c s) (hroom : ∀ l, Room c s l) (h : s.event c e = .ok s') : Inv c s' := by
  cases e with
  | advance tick =>
    simp only [RRBus.event] at h
    split at h
    · next hc =>
      cases h
      exact ⟨hI.sched, hI.owned, hI.timely, fun l => (hI.begun l).imp_right fun hb => Params.Begun.mono hb hc.2.1⟩
    · cases h
  | fireRelease l u =>
    simp only [RRBus.event] at h
    split at h
    · next hc =>
      obtain ⟨hcalls, hu, hrel⟩ := hc
      have hO := hI.owned l u
      have hown : (c.params l).activeId s.now = u := hO.release _ hrel
      have hb : Begun c s l := hI.begun_of fun hq => by rw [hq.2.2.1] at hrel; cases hrel
      rw [releaseLayer_set hown] at h
      obtain ⟨-, -, h⟩ := bind_ok.1 h
      obtain ⟨th', hr, h⟩ := bind_ok.1 h
      rw [orFail_ok] at hr
      cases h
      refine hI.set_retrying ?_ (Layer.owned_releaseLayer hr ⟨nofun, hO.retry, hO.frames⟩ ⟨hb, hroom l⟩ hown) hb
      have hS := Sched.releaseLayer hr
      rw [hcalls]
      have hno : Sending ([] : List (Call ι)) l u ↔ False := iff_of_false sending_nil id
      split
      · next hl =>
        rw [if_pos hl] at hS
        exact hS.congr hno.symm Iff.rfl
      · next hl =>
        rw [if_neg hl] at hS
        exact hS.congr hno.symm (iff_of_false id nofun)
    · cases h
  | fireRetry l u =>
    simp only [RRBus.event] at h
    split at h
    · next hc =>
      obtain ⟨hcalls, hu, hev⟩ := hc
      have hO := hI.owned l u
      have hS := hI.sched l u
      have hown : (c.params l).activeId s.now = u := hO.retry _ hev
      have hb : Begun c s l := hI.begun_of fun hq => by rw [hq.2.2.2.1] at hev; cases hev
      have hO' : Layer.Owned (c.params l) u { s.layer l u with retryEvent := none } :=
        ⟨hO.release, nofun, hO.frames⟩
      refine hI.retryWaiting hown ⟨hb, hroom l⟩ hO' (fun hi => (hS.idle hi).1) ?_ h
      exact fun hne => ⟨fun hi => absurd hi hne, hS.busy, hS.retry⟩
    · cases h
  | iterate =>
    simp only [RRBus.event] at h
    split at h
    · next l i rest hcalls =>
      split at h
      · have hI' : Inv c { s with calls := .looping l (i + 1) :: rest } :=
          (hI.pop_aside hcalls aside_looping).push_aside aside_looping
        split at h
        · next hw =>
          have hb : Begun c s l := hI.begun_of fun hq => hw.1 hq.2.1
          have hO := hI'.owned l ((c.params l).activeId s.now)
          have hS := hI'.sched l ((c.params l).activeId s.now)
          rw [← set_self (s := { s with calls := .looping l (i + 1) :: rest }) (l := l)
            (u := (c.params l).activeId s.now)] at h
          exact hI'.retryWaiting rfl ⟨hb, hroom l⟩ hO (fun hi => (hS.idle hi).1) (fun _ => hS) h
        · cases h
          exact hI'
      · cases h
        exact hI.pop_aside hcalls aside_looping
    · cases h
  | retried =>
    simp only [RRBus.event] at h
    split at h
    · next l u rest hcalls =>
      obtain ⟨th, hth, h⟩ := bind_ok.1 h
      rw [orFail_ok] at hth
      cases h
      have hO := hI.owned l u
      have hS := hI.sched l u
      have htimely := hI.timely
      have hagree : AgreeExcept l u s.calls rest := by
        rw [hcalls]
        exact agreeExcept_retrying.symm
      have hretrying : Retrying s.calls l u := by
        rw [hcalls]
        exact List.mem_cons_self
      have hb : Begun c s l := hI.begun_of fun hq => (hS.idle hq.1).2.2.1 hretrying
      rw [hcalls] at htimely
      have hS' : Sched (Sending rest l u) True (s.layer l u) := by
        refine hS.congr ?_ (iff_of_true hretrying trivial)
        rw [hcalls]
        exact sending_retrying
      exact hI.set hagree (hS'.returned hth) (Layer.owned_returned hth hO) htimely.tail hb
    · cases h

end

end RRBus

end DynamicCache.Bus
