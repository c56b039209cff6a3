import DynamicCache.Bus.RRBus
import Mathlib.Data.Fintype.Sets

/-!
# `RR_NoncoherentBus` (`rr_noncoherent_bus.cc`)

A bus with a request layer and a response layer.  `no_lost_wakeup`: when every
packet comes after the first turn of its layer has begun, then between calls a
thread is busy exactly when its release event is scheduled, a waiting port has an
event that will serve it, and the events of a thread lie in its turn.  Before the
first turn the turn arithmetic wraps, and a rejected thread may get an event in
the turn of another one (`wakeup_before_first_turn`).

`recvRetry` asks for every thread whether it is idle with a port waiting, but then
retries the active thread: the retry list of that one may be empty, or is emptied
although the thread's retry event is still to come (`retries_into_the_void`).
`never_retries_into_the_void` says when neither happens.
-/

namespace DynamicCache.Bus

open Lib Layer

inductive NoncoherentLayer where
  | req
  | resp
deriving DecidableEq

instance : Fintype NoncoherentLayer := Fintype.ofList [.req, .resp] (by intro l; cases l <;> decide)

namespace NoncoherentBus

abbrev State := RRBus NoncoherentLayer

inductive Action where
  | recvTimingReq (pkt : Packet) (port : Nat)
  | recvTimingResp (pkt : Packet) (port : Nat)
  /-- the call of `sendTimingReq` or `sendTimingResp` returns -/
  | returned (success memInhibit : Bool)
  | recvRetry
  | event (e : RRBus.Event NoncoherentLayer)

def step (c : Config NoncoherentLayer) (s : State) : Action → Except Fault State
  | .recvTimingReq pkt port => do
    check .assertion (!pkt.expressSnoop)
    s.enter c .req .req pkt port (.sending .req)
  | .recvTimingResp pkt port => s.enter c .resp .resp pkt port (.sending .resp)
  | .returned success memInhibit =>
    match s.calls with
    | .sending .req x :: rest =>
      if success then { s with calls := rest }.succeededTiming .req x
      else do
        check .assertion (!memInhibit)
        { s with calls := rest }.failedTiming .req x
    | .sending .resp x :: rest => do
      check .assertion success
      { s with calls := rest }.succeededTiming .resp x
    | _ => .error .notEnabled
  | .recvRetry => .ok (s.push (.looping .req 0))
  | .event e => s.event c e

/-! ## Between calls -/

/-- Packets come after the first turn of their layer has begun, and no tick passes 64
bits. -/
def AfterStart (c : Config NoncoherentLayer) (s : State) : Action → Prop
  | .recvTimingReq pkt _ => RRBus.MayEnter c s .req pkt
  | .recvTimingResp pkt _ => RRBus.MayEnter c s .resp pkt
  | .event _ => ∀ l, RRBus.Room c s l
  | _ => True

instance (c : Config NoncoherentLayer) (s : State) (a : Action) : Decidable (AfterStart c s a) := by
  unfold AfterStart
  split <;> infer_instance

section

variable {c : Config NoncoherentLayer} {s s' : State} {a : Action}

theorem step_inv (hI : RRBus.Inv c s) (hok : AfterStart c s a) (h : step c s a = .ok s') : RRBus.Inv c s' := by
  cases a with
  | recvTimingReq pkt port =>
    obtain ⟨-, -, h⟩ := bind_ok.1 h
    exact hI.enter (fun _ => rfl) rfl hok h
  | recvTimingResp pkt port => exact hI.enter (fun _ => rfl) rfl hok h
  | returned success memInhibit =>
    simp only [step] at h
    split at h
    · next x rest hcalls =>
      split at h
      · exact hI.succeededTiming hcalls rfl h
      · obtain ⟨-, -, h⟩ := bind_ok.1 h
        exact hI.failedTiming hcalls rfl h
    · next x rest hcalls =>
      obtain ⟨-, -, h⟩ := bind_ok.1 h
      exact hI.succeededTiming hcalls rfl h
    · cases h
  | recvRetry =>
    cases h
    exact hI.push_aside RRBus.aside_looping
  | event e => exact hI.event hok h

end

/-- The state of a thread and what is scheduled for it. -/
structure Wakeup (p : Params) (u : Nat) (th : Thread) : Prop where
  busy : th.state = .busy ↔ th.releaseEvent.isSome
  idle : th.state ≠ .busy → th.state = .idle
  waiting : th.retryList ≠ [] → th.releaseEvent.isSome ∨ th.retryEvent.isSome
  release : ∀ e, th.releaseEvent = some e → p.activeId e = u
  retry : ∀ e, th.retryEvent = some e → p.activeId e = u

/-- Between calls no port waits without an event, and every event is in turn. -/
theorem no_lost_wakeup (c : Config NoncoherentLayer) (as : List Action) (s : State)
    (hok : Always (step c) (AfterStart c) {} as) (hr : runs (step c) {} as = .ok s) (hcalls : s.calls = [])
    (l : NoncoherentLayer) (u : Nat) : Wakeup (c.params l) u (s.layer l u) := by
  have hI : RRBus.Inv c s :=
    runs_invariant (RRBus.Inv c) (fun s a s' hi ho h => step_inv hi ho h) RRBus.inv_init hok hr
  have hS := hI.sched l u
  have hO := hI.owned l u
  rw [hcalls] at hS
  have hbusy : (s.layer l u).state = .busy → (s.layer l u).releaseEvent.isSome :=
    fun hb => (hS.busy hb).resolve_right RRBus.sending_nil
  have hidle : (s.layer l u).state ≠ .busy → (s.layer l u).state = .idle := by
    intro hne
    cases hst : (s.layer l u).state with
    | idle => rfl
    | busy => exact absurd hst hne
    | retry => exact absurd (hS.retry hst).2 nofun
  refine ⟨⟨hbusy, hI.busy_of_release⟩, hidle, fun hl => ?_, hO.release, hO.retry⟩
  by_cases hb : (s.layer l u).state = .busy
  · exact .inl (hbusy hb)
  · exact .inr ((hS.idle (hidle hb)).2.2.2 hl)

/-- A bus with one-cycle turns and the same parameters for both layers. -/
def oneCycle (numPids clock : Nat) (offset : Int) (h : 0 < numPids) (hc : 0 < clock) : Config NoncoherentLayer where
  numPids := numPids
  clock := clock
  headerCycles := 1
  width := 8
  tl _ := 1
  offset _ := offset
  numPids_pos := h
  clock_pos := hc
  tl_pos _ := Nat.one_pos

/-- A request of thread 1 comes in the turn of thread 0, is retried in its own turn and
then sent. -/
theorem no_lost_wakeup_retried : ∃ s : State,
    runs (step (oneCycle 2 1 0 (by decide) (by decide))) {}
      [.recvTimingReq { threadID := 1 } 7, .event (.advance 1), .event (.fireRetry .req 1),
        .recvTimingReq { threadID := 1 } 7, .returned true false, .event .retried] = .ok s ∧
    s.calls = [] ∧ (s.layer .req 1).releaseEvent = some 3 ∧
    ∀ l u, Wakeup ((oneCycle 2 1 0 (by decide) (by decide)).params l) u (s.layer l u) := by
  refine exists_ok (fun s => s.calls = [] ∧ (s.layer .req 1).releaseEvent = some 3) (by decide +kernel) ?_
  rintro s hs ⟨hcalls, hrel⟩
  exact ⟨hcalls, hrel, no_lost_wakeup _ _ s (by decide +kernel) hs hcalls⟩

/-- Three threads, and a first turn at tick 1.  At tick 0 the cycle count wraps: thread 1
is rejected and gets its retry event at tick 1, which is the turn of thread 0. -/
theorem wakeup_before_first_turn : ∃ s : State,
    runs (step (oneCycle 3 1 1 (by decide) (by decide))) {}
      [.recvTimingReq { threadID := 1 } 7, .event (.advance 1)] = .ok s ∧
    s.calls = [] ∧ RRBus.Begun (oneCycle 3 1 1 (by decide) (by decide)) s .req ∧
    (s.layer .req 1).retryEvent = some s.now ∧
    ((oneCycle 3 1 1 (by decide) (by decide)).params .req).activeId s.now = 0 := by
  refine exists_ok (fun s => s.calls = [] ∧ 1 ≤ s.now ∧ (s.layer .req 1).retryEvent = some s.now ∧
    ((oneCycle 3 1 1 (by decide) (by decide)).params .req).activeId s.now = 0) (by decide +kernel) ?_
  rintro s - ⟨hcalls, hnow, hev, hact⟩
  refine ⟨hcalls, ?_, hev, hact⟩
  have hnext : s.now ≤ ((oneCycle 3 1 1 (by decide) (by decide)).params .req).nextCycle s.now := Params.le_nextCycle _
  exact ⟨show (1 : Int) * (1 : Nat) ≤ _ by omega, .inl (by decide)⟩

/-! ## Retries -/

/-- The thread whose turn it is in the loop of `recvRetry`, when it is idle with a port
waiting, is the active one, and its last port is not one that a retry event waits for. -/
def LoopOk (c : Config NoncoherentLayer) (s : State) : List (Call NoncoherentLayer) → Prop
  | .looping l i :: _ =>
    (s.layer l i).retryList ≠ [] ∧ (s.layer l i).state = .idle →
      (c.params l).activeId s.now = i ∧ ((s.layer l i).retryEvent = none ∨ 2 ≤ (s.layer l i).retryList.length)
  | _ => True

/-- Conditions on the retries, besides `AfterStart`: `LoopOk` for the retries from downstream,
and a release does not find the last port of a thread whose retry event is scheduled. -/
def Orderly (c : Config NoncoherentLayer) (s : State) (a : Action) : Prop :=
  AfterStart c s a ∧
    match a with
    | .event (.fireRelease l u) => (s.layer l u).retryEvent = none ∨ (s.layer l u).retryList.length ≠ 1
    | .event .iterate => LoopOk c s s.calls
    | _ => True

instance (c : Config NoncoherentLayer) (s : State) (calls : List (Call NoncoherentLayer)) :
    Decidable (LoopOk c s calls) := by
  unfold LoopOk
  split <;> infer_instance

instance (c : Config NoncoherentLayer) (s : State) (a : Action) : Decidable (Orderly c s a) := by
  unfold Orderly
  split <;> infer_instance

section

variable {c : Config NoncoherentLayer} {s s' : State} {a : Action} {l : NoncoherentLayer} {u : Nat} {th : Thread}

/-- Where a port waits, a retry is due. -/
def AllWait (s : State) : Prop := ∀ l u, Waits (s.layer l u)

theorem AllWait.set (hW : AllWait s) (h : Waits th) : AllWait (s.set l u th) := by
  intro l' u'
  by_cases he : l' = l ∧ u' = u
  · rw [he.1, he.2, RRBus.set_layer_self]
    exact h
  · rw [RRBus.set_layer_ne he]
    exact hW l' u'

variable {e : Fault}

theorem AllWait.enter {timing : NoncoherentLayer} {pkt : Packet} {port : Nat} {call : Sent → Call NoncoherentLayer}
    (hW : AllWait s) (he : Fault.assertion ≠ e) : Ensures e AllWait (s.enter c l timing pkt port call) := by
  refine Avoids.bind (avoids_orFail fun _ => he) fun th hth => ?_
  rw [orFail_ok] at hth
  have hset := hW.set (l := l) (u := pkt.threadID) ((hW l pkt.threadID).tryTiming hth)
  split
  · exact ensures_ok hset
  · exact ensures_ok hset

/-- `retryWaiting` of the active thread, after it has been set to `th` with a port waiting. -/
theorem AllWait.retryWaiting (hW : AllWait s) (hown : (c.params l).activeId s.now = u) (hth : Waits th)
    (hl : th.state = .idle → th.retryEvent = none ∨ 2 ≤ th.retryList.length) (hne : th.retryList ≠ []) :
    Ensures e AllWait ((s.set l u th).retryWaiting c l) := by
  rw [RRBus.retryWaiting_set hown]
  refine Avoids.bind (avoids_orFail fun hn => absurd hn (Layer.retryWaiting_ne_none hne)) fun th' hr => ?_
  have hset := hW.set (l := l) (u := u) (hth.retryWaiting hl (orFail_ok.1 hr))
  refine ensures_ok ?_
  split
  · exact hset
  · exact hset

/-- A thread that changes unless an assertion fails. -/
theorem AllWait.assertSet {o : Option Thread} (hW : AllWait s) (he : Fault.assertion ≠ e)
    (h : ∀ th, o = some th → Waits th) :
    Ensures e AllWait (orFail .assertion o >>= fun th => pure (s.set l u th)) :=
  Avoids.bind (avoids_orFail fun _ => he) fun th hth => ensures_ok (hW.set (h th (orFail_ok.1 hth)))

theorem step_ensures (he : e = .emptyRetryList ∨ e = .notBusy) (hI : RRBus.Inv c s) (hW : AllWait s)
    (hok : Orderly c s a) : Ensures e AllWait (step c s a) := by
  have hassert : Fault.assertion ≠ e := by
    rcases he with rfl | rfl
    · exact nofun
    · exact nofun
  have henabled : Fault.notEnabled ≠ e := by
    rcases he with rfl | rfl
    · exact nofun
    · exact nofun
  cases a with
  | recvTimingReq pkt port => exact (avoids_check hassert).bind fun _ _ => hW.enter hassert
  | recvTimingResp pkt port => exact hW.enter hassert
  | returned success memInhibit =>
    have hs : ∀ (t : State) l x, AllWait t → Ensures e AllWait (t.succeededTiming l x) := fun t l x ht =>
      ht.assertSet hassert fun th => (ht l _).succeededTiming
    simp only [step]
    split
    · split
      · exact hs _ _ _ hW
      · exact (avoids_check hassert).bind fun _ _ => AllWait.assertSet hW hassert fun th => Waits.failedTiming
    · exact (avoids_check hassert).bind fun _ _ => hs _ _ _ hW
    · exact ensures_error henabled
  | recvRetry => exact ensures_ok hW
  | event ev =>
    cases ev with
    | advance tick =>
      simp only [step, RRBus.event]
      split
      · exact ensures_ok hW
      · exact ensures_error henabled
    | fireRelease l u =>
      simp only [step, RRBus.event]
      split
      · next hc =>
        have hown : (c.params l).activeId s.now = u := (hI.owned l u).release _ hc.2.2
        have hbusy : (s.layer l u).state = .busy := hI.busy_of_release (by rw [hc.2.2]; rfl)
        have hth : Waits { s.layer l u with releaseEvent := none } := ⟨(hW l u).event, (hW l u).retry⟩
        rw [RRBus.releaseLayer_set hown,
          decide_eq_true (show ({ s.layer l u with releaseEvent := none } : Thread).state = .busy from hbusy)]
        refine (avoids_ok ()).bind fun _ _ => Avoids.bind (avoids_orFail fun _ => hassert) fun th' hr => ensures_ok ?_
        have hset := hW.set (l := l) (u := u) (hth.releaseLayer hok.2 (orFail_ok.1 hr))
        split
        · exact hset
        · exact hset
      · exact ensures_error henabled
    | fireRetry l u =>
      simp only [step, RRBus.event]
      split
      · next hc =>
        have hth : Waits { s.layer l u with retryEvent := none } :=
          ⟨fun h => absurd h (by simp), fun hr => ⟨((hW l u).retry hr).1, .inl rfl⟩⟩
        exact hW.retryWaiting ((hI.owned l u).retry _ hc.2.2) hth (fun _ => .inl rfl)
          ((hW l u).event (by rw [hc.2.2]; rfl))
      · exact ensures_error henabled
    | iterate =>
      have hloop : LoopOk c s s.calls := hok.2
      simp only [step, RRBus.event]
      split
      · next l i rest hcalls =>
        rw [hcalls] at hloop
        split
        · split
          · next hw =>
            obtain ⟨hown, hlast⟩ := hloop hw
            rw [← RRBus.set_self (s := { s with calls := .looping l (i + 1) :: rest }) (l := l) (u := i)]
            exact AllWait.retryWaiting (s := { s with calls := .looping l (i + 1) :: rest }) hW hown (hW l i)
              (fun _ => hlast) hw.1
          · exact ensures_ok hW
        · exact ensures_ok hW
      · exact ensures_error henabled
    | retried =>
      simp only [step, RRBus.event]
      split
      · exact AllWait.assertSet hW hassert fun th => (hW _ _).returned
      · exact ensures_error henabled

end

/-- In orderly runs `retryWaiting` finds a port and `releaseLayer` a busy thread. -/
theorem never_retries_into_the_void (c : Config NoncoherentLayer) (as : List Action)
    (hok : Always (step c) (Orderly c) {} as) :
    Avoids .emptyRetryList (runs (step c) {} as) ∧ Avoids .notBusy (runs (step c) {} as) := by
  have hinit : RRBus.Inv c ({} : State) ∧ AllWait ({} : State) := ⟨RRBus.inv_init, fun _ _ => ⟨nofun, nofun⟩⟩
  have hkeep : ∀ s a s', RRBus.Inv c s ∧ AllWait s → Orderly c s a → step c s a = .ok s' →
      RRBus.Inv c s' ∧ AllWait s' :=
    fun s a s' hi ho h => ⟨step_inv hi.1 ho.1 h, (step_ensures (.inl rfl) hi.1 hi.2 ho).2 s' h⟩
  constructor
  · exact runs_avoids _ hkeep (fun s a hi ho => (step_ensures (.inl rfl) hi.1 hi.2 ho).1) hinit hok
  · exact runs_avoids _ hkeep (fun s a hi ho => (step_ensures (.inr rfl) hi.1 hi.2 ho).1) hinit hok

/-- Thread 0 is refused downstream, thread 1 waits for its turn, and the retry from
downstream comes while nobody idle waits out of turn. -/
theorem never_retries_into_the_void_refused :
    let c := oneCycle 2 1 0 (by decide) (by decide)
    let as : List Action := [.recvTimingReq { threadID := 0 } 5, .returned false false,
      .recvTimingReq { threadID := 1 } 7, .event (.advance 1), .event (.fireRetry .req 1), .event .retried,
      .recvRetry, .event .iterate, .event .iterate, .event .iterate, .event (.advance 2),
      .event (.fireRelease .req 0)]
    Always (step c) (Orderly c) {} as ∧ (passes (fun _ => true) (runs (step c) {} as)) = true ∧
      Avoids .emptyRetryList (runs (step c) {} as) ∧ Avoids .notBusy (runs (step c) {} as) := by
  intro c as
  have hok : Always (step c) (Orderly c) {} as := by decide +kernel
  exact ⟨hok, by decide +kernel, never_retries_into_the_void c as hok⟩

/-- In the first run thread 0 has been refused downstream and was then sent on a release;
thread 1 waits out of turn when the promised retry arrives, so `retryWaiting` serves
thread 0, for which nobody waits.  In the second run the retry comes between two clock
edges: it takes the port of thread 1 off the list that the retry event expects. -/
theorem retries_into_the_void :
    runs (step (oneCycle 2 1 0 (by decide) (by decide))) {}
      [.recvTimingReq { threadID := 0 } 5, .returned false false, .event (.advance 2),
        .event (.fireRelease .req 0), .recvTimingReq { threadID := 0 } 5, .returned true false, .event .retried,
        .recvTimingReq { threadID := 1 } 7, .recvRetry, .event .iterate, .event .iterate] = .error .emptyRetryList ∧
    runs (step (oneCycle 2 2 0 (by decide) (by decide))) {}
      [.recvTimingReq { threadID := 0 } 5, .returned false false, .recvTimingReq { threadID := 1 } 7,
        .event (.advance 1), .recvRetry, .event .iterate, .event .iterate, .event .retried, .event .iterate,
        .event (.advance 2), .event (.fireRetry .req 1)] = .error .emptyRetryList :=
  ⟨error_of_fault (by decide +kernel), error_of_fault (by decide +kernel)⟩

end NoncoherentBus

end DynamicCache.Bus
