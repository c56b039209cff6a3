import DynamicCache.Bus.Turn
import DynamicCache.Lib.Runs
import Mathlib.Logic.Function.Basic

/-!
# A layer of the round-robin bus (`RRBus::Layer` in `rr_bus.cc`)

Every thread has its own state, retry list, release event and retry event.
`tryTiming`, `succeededTiming` and `failedTiming` work on the thread they are
called for.  `releaseLayer` and `retryWaiting` work on the thread whose turn it
is, whoever's event fired and whoever `recvRetry` was called for.

A call of `sendRetry` lasts until the port returns: `retryWaiting` stops there
(`frames` keeps the tick), other calls may come in between, and the action
`returned` runs the rest of the function.  An event is serviced by the action
`fire`, which does nothing when the event is not scheduled for that tick, so a
list of actions says when the event queue gets to an event, not whether it is
scheduled.  A failed assertion is `none`.

`recvRetry_hits_other_thread` is a run in which `recvRetry` for one thread fails
an assertion about another one.  `layer_noninterference` says when a thread does
not notice the others: when `recvRetry` comes in the turn of the thread it is for,
busy times end in the turn of their thread (`InTurn`), and the others are used so
that they fail no assertion of their own (`Careful`).  Then every run is for the
thread as if it were alone (`run_thread`).
-/

namespace DynamicCache.Bus

open Lib

/-! ## One thread of the layer -/

inductive State where
  | idle
  | busy
  | retry
deriving DecidableEq, Repr

/-- What a thread sees of the layer. -/
inductive Obs where
  | answer (tick : Nat) (accepted : Bool)
  | sendRetry (tick port : Nat)
  | release (tick : Nat)
deriving DecidableEq, Repr

structure Thread where
  state : State := .idle
  retryList : List Nat := []
  releaseEvent : Option Nat := none
  retryEvent : Option Nat := none
  /-- ticks of the calls of `sendRetry` that have not returned -/
  frames : List Nat := []
  /-- most recent first -/
  log : List Obs := []
deriving DecidableEq, Repr

namespace Thread

variable (p : Params) (th : Thread)

/-- `occupyLayer`, with the checks of `schedule`. -/
def occupyLayer (now until_ : Nat) : Option Thread :=
  if th.state = .idle ∨ until_ = 0 ∨ until_ < now ∨ th.releaseEvent.isSome then none
  else some { th with releaseEvent := some until_ }

def see (o : Obs) : Thread := { th with log := o :: th.log }

/-- Rejects the port for now; it is put on the retry list. -/
def reject (now port : Nat) : Thread :=
  { th with retryList := th.retryList ++ [port] }.see (.answer now false)

def tryTiming (now threadID port : Nat) : Option Thread :=
  if p.activeId now ≠ threadID then
    let retryTime := p.retryTime now threadID
    if th.retryEvent.isSome then some (th.reject now port)
    else if retryTime < now then none
    else some { th.reject now port with retryEvent := some retryTime }
  else
    match th.state, th.retryList with
    | .busy, _ => some (th.reject now port)
    | .retry, [] => none
    | .retry, front :: _ =>
      if port ≠ front then some (th.reject now port) else some (th.see (.answer now true))
    | .idle, _ => some ({ th with state := .busy }.see (.answer now true))

def succeededTiming (now busyTime : Nat) : Option Thread :=
  match th.state, th.retryList with
  | .retry, [] => none
  | .retry, _ :: rest => { th with retryList := rest, state := .busy }.occupyLayer now busyTime
  | .busy, _ => th.occupyLayer now busyTime
  | .idle, _ => none

def failedTiming (now port busyTime : Nat) : Option Thread :=
  match th.state, th.retryList with
  | .retry, [] => none
  | .retry, front :: rest =>
    { th with
      retryList := if port ≠ front then front :: rest ++ [port] else front :: rest
      state := .busy }.occupyLayer now busyTime
  | _, l => { th with retryList := l ++ [port], state := .busy }.occupyLayer now busyTime

/-- `retryWaiting` up to the call of `sendRetry`. -/
def retryWaiting (now : Nat) : Option Thread :=
  match th.retryList with
  | [] => none
  | front :: _ =>
    if th.state ≠ .idle then some th
    else some ({ th with state := .retry, frames := now :: th.frames }.see (.sendRetry now front))

/-- The rest of `retryWaiting`, when `sendRetry` has returned. -/
def returned (threadID : Nat) : Option Thread :=
  match th.frames with
  | [] => none
  | now :: frames =>
    let th := { th with frames := frames }
    if th.state = .retry then
      match th.retryList with
      | [] => none
      | _ :: rest =>
        { th with retryList := rest, state := .busy }.occupyLayer now (p.calcFinishTime now threadID 1)
    else some th

def releaseLayer (now : Nat) : Option Thread :=
  if th.state ≠ .busy ∨ th.releaseEvent.isSome then none
  else
    let th := { th with state := .idle }.see (.release now)
    if th.retryList ≠ [] then th.retryWaiting now else some th

end Thread

/-! ## The layer -/

abbrev Layer := Nat → Thread

inductive Action where
  | tryTiming (now threadID port : Nat)
  | succeededTiming (now busyTime threadID : Nat)
  | failedTiming (now port busyTime threadID : Nat)
  | recvRetry (now threadID : Nat)
  | fireRelease (now threadID : Nat)
  | fireRetry (now threadID : Nat)
  | returned (threadID : Nat)
deriving DecidableEq

/-- The thread an action belongs to: the one the call is for, or whose event is
serviced, or whose `sendRetry` returns. -/
def Action.threadID : Action → Nat
  | .tryTiming _ u _ => u
  | .succeededTiming _ _ u => u
  | .failedTiming _ _ _ u => u
  | .recvRetry _ u => u
  | .fireRelease _ u => u
  | .fireRetry _ u => u
  | .returned u => u

def Action.of (t : Nat) (a : Action) : Bool := a.threadID == t

namespace Layer

/-- Runs `f` on thread `u`. -/
def on (l : Layer) (u : Nat) (f : Thread → Option Thread) : Option Layer :=
  (f (l u)).map (Function.update l u)

def step (p : Params) (l : Layer) : Action → Option Layer
  | .tryTiming now u port => on l u fun th => th.tryTiming p now u port
  | .succeededTiming now busyTime u => on l u fun th => th.succeededTiming now busyTime
  | .failedTiming now port busyTime u => on l u fun th => th.failedTiming now port busyTime
  | .recvRetry now u =>
    if (l u).retryList ≠ [] ∧ (l u).state = .idle then
      on l (p.activeId now) fun th => th.retryWaiting now
    else some l
  | .fireRelease now u =>
    if (l u).releaseEvent = some now then
      on (Function.update l u { l u with releaseEvent := none }) (p.activeId now) fun th =>
        th.releaseLayer now
    else some l
  | .fireRetry now u =>
    if (l u).retryEvent = some now then
      on (Function.update l u { l u with retryEvent := none }) (p.activeId now) fun th =>
        th.retryWaiting now
    else some l
  | .returned u => on l u fun th => th.returned p u

def init : Layer := fun _ => {}

/-- `step` as a machine; what a thread sees is in its log. -/
def machine (p : Params) (l : Layer) (a : Action) : Option (Layer × Unit) :=
  (step p l a).map fun l' => (l', ())

/-! ## A retry for one thread acts on another -/

/-- One-cycle turns of two threads.  Thread 1 is rejected in the turn of thread 0
and then gets a `recvRetry` in that turn: `retryWaiting` finds the retry list of
thread 0 empty and its assertion fails.  Without the calls of thread 1 nothing
fails, and thread 0 has made no call in either run. -/
theorem recvRetry_hits_other_thread :
    let p : Params := ⟨2, 1, 0, 1, by decide, by decide, by decide⟩
    let calls : List Action := [.tryTiming 0 1 7, .recvRetry 0 1]
    calls.filter (Action.of 0) = ([] : List Action).filter (Action.of 0) ∧
    (run (machine p) (Action.of 0) init (calls.take 1)).isSome = true ∧
    (run (machine p) (Action.of 0) init calls).isSome = false ∧
    (run (machine p) (Action.of 0) init []).isSome = true := by
  decide +kernel

/-! ## The thread on its own -/

/-- The action as it acts on its own thread when that thread is active. -/
def threadStep (p : Params) (th : Thread) : Action → Option Thread
  | .tryTiming now u port => th.tryTiming p now u port
  | .succeededTiming now busyTime _ => th.succeededTiming now busyTime
  | .failedTiming now port busyTime _ => th.failedTiming now port busyTime
  | .recvRetry now _ =>
    if th.retryList ≠ [] ∧ th.state = .idle then th.retryWaiting now else some th
  | .fireRelease now _ =>
    if th.releaseEvent = some now then { th with releaseEvent := none }.releaseLayer now else some th
  | .fireRetry now _ =>
    if th.retryEvent = some now then { th with retryEvent := none }.retryWaiting now else some th
  | .returned u => th.returned p u

/-- When a thread may act: calls come after the first turn has begun, a busy time
is a tick of the thread's own turn, and a `recvRetry` that finds the thread idle
with a waiting port comes in its turn. -/
def InTurn (p : Params) (l : Layer) (a : Action) : Prop :=
  a.threadID < p.numPids ∧
    match a with
    | .tryTiming now _ _ => p.Started now
    | .succeededTiming _ busyTime u => p.activeId busyTime = u
    | .failedTiming _ _ busyTime u => p.activeId busyTime = u
    | .recvRetry now u =>
      p.Started now ∧ ((l u).retryList ≠ [] ∧ (l u).state = .idle → p.activeId now = u)
    | .fireRelease now _ => p.Started now
    | .fireRetry now _ => p.Started now
    | .returned _ => True

instance (p : Params) (l : Layer) (a : Action) : Decidable (InTurn p l a) := by
  unfold InTurn
  split <;> infer_instance

/-- Everything a thread has scheduled or left open falls in its own turn. -/
structure Owned (p : Params) (u : Nat) (th : Thread) : Prop where
  release : ∀ tick, th.releaseEvent = some tick → p.activeId tick = u
  retry : ∀ tick, th.retryEvent = some tick → p.activeId tick = u
  frames : ∀ tick ∈ th.frames, p.Started tick ∧ p.activeId tick = u

variable {busyTime now : Nat} {l : Layer} {a : Action} {p : Params}

section

variable {p : Params} {u : Nat} {th th' : Thread}

theorem owned_occupyLayer (h : th.occupyLayer now busyTime = some th') (hO : Owned p u th)
    (hb : p.activeId busyTime = u) : Owned p u th' := by
  unfold Thread.occupyLayer at h
  split at h
  · cases h
  · obtain rfl := Option.some.inj h
    refine ⟨fun tick ht => ?_, hO.retry, hO.frames⟩
    obtain rfl := Option.some.inj ht
    exact hb

theorem owned_retryWaiting (h : th.retryWaiting now = some th') (hO : Owned p u th) (hs : p.Started now)
    (hown : p.activeId now = u) : Owned p u th' := by
  unfold Thread.retryWaiting at h
  split at h
  · cases h
  · split at h
    · obtain rfl := Option.some.inj h
      exact hO
    · obtain rfl := Option.some.inj h
      refine ⟨hO.release, hO.retry, fun tick ht => ?_⟩
      rcases List.mem_cons.1 ht with rfl | ht
      · exact ⟨hs, hown⟩
      · exact hO.frames tick ht

theorem owned_tryTiming {port : Nat} (h : th.tryTiming p now u port = some th') (hO : Owned p u th)
    (hs : p.Started now) (hu : u < p.numPids) : Owned p u th' := by
  unfold Thread.tryTiming at h
  split at h
  · dsimp only at h
    split at h
    · obtain rfl := Option.some.inj h
      exact ⟨hO.release, hO.retry, hO.frames⟩
    · split at h
      · cases h
      · obtain rfl := Option.some.inj h
        refine ⟨hO.release, fun tick ht => ?_, hO.frames⟩
        obtain rfl := Option.some.inj ht
        exact (Params.activeId_retryTime hs hu).1
  · split at h
    · obtain rfl := Option.some.inj h
      exact ⟨hO.release, hO.retry, hO.frames⟩
    · cases h
    · split at h <;> (obtain rfl := Option.some.inj h; exact ⟨hO.release, hO.retry, hO.frames⟩)
    · obtain rfl := Option.some.inj h
      exact ⟨hO.release, hO.retry, hO.frames⟩

theorem owned_succeededTiming (h : th.succeededTiming now busyTime = some th') (hO : Owned p u th)
    (hb : p.activeId busyTime = u) : Owned p u th' := by
  unfold Thread.succeededTiming at h
  split at h
  · cases h
  · exact owned_occupyLayer h ⟨hO.release, hO.retry, hO.frames⟩ hb
  · exact owned_occupyLayer h hO hb
  · cases h

theorem owned_failedTiming {port : Nat} (h : th.failedTiming now port busyTime = some th') (hO : Owned p u th)
    (hb : p.activeId busyTime = u) : Owned p u th' := by
  unfold Thread.failedTiming at h
  split at h
  · cases h
  · exact owned_occupyLayer h ⟨hO.release, hO.retry, hO.frames⟩ hb
  · exact owned_occupyLayer h ⟨hO.release, hO.retry, hO.frames⟩ hb

theorem owned_returned (h : th.returned p u = some th') (hO : Owned p u th) : Owned p u th' := by
  unfold Thread.returned at h
  split at h
  · cases h
  · next now frames hf =>
    obtain ⟨hs, hown⟩ := hO.frames now (by rw [hf]; exact List.mem_cons_self)
    have hu : u < p.numPids := hown ▸ p.activeId_lt now
    have hrest : ∀ tick ∈ frames, p.Started tick ∧ p.activeId tick = u :=
      fun tick ht => hO.frames tick (by rw [hf]; exact List.mem_cons_of_mem _ ht)
    dsimp only at h
    split at h
    · split at h
      · cases h
      · exact owned_occupyLayer h ⟨hO.release, hO.retry, hrest⟩
          (Params.activeId_calcFinishTime hs.1 hu hown (hs.2.mono (by decide))).1
    · obtain rfl := Option.some.inj h
      exact ⟨hO.release, hO.retry, hrest⟩

theorem owned_releaseLayer (h : th.releaseLayer now = some th') (hO : Owned p u th) (hs : p.Started now)
    (hown : p.activeId now = u) : Owned p u th' := by
  unfold Thread.releaseLayer at h
  split at h
  · cases h
  · dsimp only at h
    split at h
    · exact owned_retryWaiting h ⟨hO.release, hO.retry, hO.frames⟩ hs hown
    · obtain rfl := Option.some.inj h
      exact ⟨hO.release, hO.retry, hO.frames⟩

/-- The actions of a thread keep what it has scheduled in its own turn. -/
theorem owned_threadStep (hO : Owned p a.threadID (l a.threadID)) (hok : InTurn p l a)
    (h : threadStep p (l a.threadID) a = some th') : Owned p a.threadID th' := by
  obtain ⟨hu, hok⟩ := hok
  cases a with
  | tryTiming now u port => exact owned_tryTiming h hO hok hu
  | succeededTiming now busyTime u => exact owned_succeededTiming h hO hok
  | failedTiming now port busyTime u => exact owned_failedTiming h hO hok
  | recvRetry now u =>
    simp only [threadStep] at h
    split at h
    · next hc => exact owned_retryWaiting h hO hok.1 (hok.2 hc)
    · obtain rfl := Option.some.inj h
      exact hO
  | fireRelease now u =>
    simp only [threadStep] at h
    split at h
    · next hc =>
      refine owned_releaseLayer h ⟨fun tick ht => ?_, hO.retry, hO.frames⟩ hok (hO.release now hc)
      cases ht
    · obtain rfl := Option.some.inj h
      exact hO
  | fireRetry now u =>
    simp only [threadStep] at h
    split at h
    · next hc =>
      refine owned_retryWaiting h ⟨hO.release, fun tick ht => ?_, hO.frames⟩ hok (hO.retry now hc)
      cases ht
    · obtain rfl := Option.some.inj h
      exact hO
  | returned u => exact owned_returned h hO

end

theorem on_update_self (l : Layer) (u : Nat) (th : Thread) (f : Thread → Option Thread) :
    on (Function.update l u th) u f = (f th).map (Function.update l u) := by
  unfold on
  rw [Function.update_self]
  congr 1
  funext th'
  rw [Function.update_idem]

/-- An action in turn acts on its own thread and on no other. -/
theorem step_eq_on (hO : Owned p a.threadID (l a.threadID)) (hok : InTurn p l a) :
    step p l a = on l a.threadID fun th => threadStep p th a := by
  cases a with
  | tryTiming now u port => rfl
  | succeededTiming now busyTime u => rfl
  | failedTiming now port busyTime u => rfl
  | recvRetry now u =>
    show (if (l u).retryList ≠ [] ∧ (l u).state = .idle then _ else some l) = on l u _
    by_cases hc : (l u).retryList ≠ [] ∧ (l u).state = .idle
    · rw [if_pos hc, hok.2.2 hc, on, on, threadStep, if_pos hc]
    · rw [if_neg hc, on, threadStep, if_neg hc, Option.map_some, Function.update_eq_self]
  | fireRelease now u =>
    show (if (l u).releaseEvent = some now then _ else some l) = on l u _
    by_cases hc : (l u).releaseEvent = some now
    · have ha : p.activeId now = u := hO.release now hc
      rw [if_pos hc, ha, on_update_self, on, threadStep, if_pos hc]
    · rw [if_neg hc, on, threadStep, if_neg hc, Option.map_some, Function.update_eq_self]
  | fireRetry now u =>
    show (if (l u).retryEvent = some now then _ else some l) = on l u _
    by_cases hc : (l u).retryEvent = some now
    · have ha : p.activeId now = u := hO.retry now hc
      rw [if_pos hc, ha, on_update_self, on, threadStep, if_pos hc]
    · rw [if_neg hc, on, threadStep, if_neg hc, Option.map_some, Function.update_eq_self]
  | returned u => rfl

/-! ## Assertions -/

/-- A port waits for every retry that is scheduled or open, and an open retry that may take
the last port off the list leaves no retry event behind. -/
structure Waits (th : Thread) : Prop where
  event : th.retryEvent.isSome → th.retryList ≠ []
  retry : th.state = .retry → th.retryList ≠ [] ∧ (th.retryEvent = none ∨ 2 ≤ th.retryList.length)

namespace Waits

variable {p : Params} {th th' : Thread} {now u port busyTime : Nat}

/-- More ports wait, and the thread does not begin a retry. -/
theorem reject {e : Option Nat} (hW : Waits th) : Waits { th.reject now port with retryEvent := e } := by
  have hne : th.retryList ++ [port] ≠ [] := by simp
  refine ⟨fun _ => hne, fun hs => ⟨hne, .inr ?_⟩⟩
  have hlen := List.length_pos_iff.2 (hW.retry hs).1
  show 2 ≤ (th.retryList ++ [port]).length
  rw [List.length_append, List.length_singleton]
  omega

/-- The first port is taken off the list, as only an open retry does. -/
theorem pop {front : Nat} {rest : List Nat} (hW : Waits th) (hs : th.state = .retry)
    (hl : th.retryList = front :: rest) : th.retryEvent.isSome → rest ≠ [] := by
  intro he
  rcases (hW.retry hs).2 with hn | hlen
  · rw [hn] at he
    cases he
  · rw [hl, List.length_cons] at hlen
    exact List.length_pos_iff.1 (by omega)

theorem occupyLayer (h : th.occupyLayer now busyTime = some th') (he : th.retryEvent.isSome → th.retryList ≠ [])
    (hs : th.state = .busy) : Waits th' := by
  unfold Thread.occupyLayer at h
  split at h
  · cases h
  · obtain rfl := Option.some.inj h
    exact ⟨he, fun hr => absurd (hs.symm.trans hr) nofun⟩

theorem tryTiming (hW : Waits th) (h : th.tryTiming p now u port = some th') : Waits th' := by
  unfold Thread.tryTiming at h
  split at h
  · dsimp only at h
    split at h
    · obtain rfl := Option.some.inj h
      exact hW.reject
    · split at h
      · cases h
      · obtain rfl := Option.some.inj h
        exact hW.reject
  · split at h
    · obtain rfl := Option.some.inj h
      exact hW.reject
    · cases h
    · split at h
      · obtain rfl := Option.some.inj h
        exact hW.reject
      · obtain rfl := Option.some.inj h
        exact ⟨hW.event, hW.retry⟩
    · obtain rfl := Option.some.inj h
      exact ⟨hW.event, nofun⟩

theorem succeededTiming (hW : Waits th) (h : th.succeededTiming now busyTime = some th') : Waits th' := by
  unfold Thread.succeededTiming at h
  split at h
  · cases h
  · next hs hl => exact occupyLayer h (hW.pop hs hl) rfl
  · next hs => exact occupyLayer h hW.event hs
  · cases h

theorem failedTiming (h : th.failedTiming now port busyTime = some th') : Waits th' := by
  unfold Thread.failedTiming at h
  split at h
  · cases h
  · refine occupyLayer h (fun _ => ?_) rfl
    split
    · exact List.cons_ne_nil _ _
    · exact List.cons_ne_nil _ _
  · refine occupyLayer h (fun _ => ?_) rfl
    simp

theorem returned (hW : Waits th) (h : th.returned p u = some th') : Waits th' := by
  unfold Thread.returned at h
  split at h
  · cases h
  · dsimp only at h
    split at h
    · next hs =>
      split at h
      · cases h
      · next hl => exact occupyLayer h (hW.pop hs hl) rfl
    · obtain rfl := Option.some.inj h
      exact ⟨hW.event, hW.retry⟩

theorem retryWaiting (hW : Waits th) (hl : th.state = .idle → th.retryEvent = none ∨ 2 ≤ th.retryList.length)
    (h : th.retryWaiting now = some th') : Waits th' := by
  unfold Thread.retryWaiting at h
  split at h
  · cases h
  · next hlist =>
    have hne : th.retryList ≠ [] := by
      rw [hlist]
      exact List.cons_ne_nil _ _
    split at h
    · obtain rfl := Option.some.inj h
      exact hW
    · next hidle =>
      obtain rfl := Option.some.inj h
      exact ⟨hW.event, fun _ => ⟨hne, hl (not_not.1 hidle)⟩⟩

theorem releaseLayer (hW : Waits th) (hl : th.retryEvent = none ∨ th.retryList.length ≠ 1)
    (h : th.releaseLayer now = some th') : Waits th' := by
  unfold Thread.releaseLayer at h
  split at h
  · cases h
  · dsimp only at h
    have hW' : Waits ({ th with state := .idle }.see (.release now)) := ⟨hW.event, nofun⟩
    split at h
    · next hne =>
      refine hW'.retryWaiting (fun _ => hl.imp_right fun h1 => ?_) h
      have hpos := List.length_pos_iff.2 hne
      show 2 ≤ th.retryList.length
      change 0 < th.retryList.length at hpos
      omega
    · obtain rfl := Option.some.inj h
      exact hW'

end Waits

theorem retryWaiting_ne_none {th : Thread} (h : th.retryList ≠ []) : th.retryWaiting now ≠ none := by
  unfold Thread.retryWaiting
  split
  · next hl => exact absurd hl h
  · split
    · exact nofun
    · exact nofun

/-- How a thread is used so that none of its assertions fails: a packet ends after it began
and while no release is scheduled, a retry that may take the last port off the list leaves no
retry event behind, and only an open `sendRetry` returns. -/
def Careful (th : Thread) : Action → Prop
  | .tryTiming _ _ _ => True
  | .succeededTiming now busyTime _ => th.state ≠ .idle ∧ th.releaseEvent = none ∧ 0 < busyTime ∧ now ≤ busyTime
  | .failedTiming now _ busyTime _ => th.releaseEvent = none ∧ 0 < busyTime ∧ now ≤ busyTime
  | .recvRetry _ _ => th.retryList ≠ [] ∧ th.state = .idle → th.retryEvent = none ∨ 2 ≤ th.retryList.length
  | .fireRelease now _ => th.releaseEvent = some now → th.retryEvent = none ∨ th.retryList.length ≠ 1
  | .fireRetry _ _ => True
  | .returned _ => th.frames ≠ []

instance (th : Thread) (a : Action) : Decidable (Careful th a) := by
  unfold Careful
  split <;> infer_instance

/-- What the assertions of a thread rest on. -/
structure Sound (th : Thread) : Prop where
  waits : Waits th
  release : th.releaseEvent.isSome → th.state = .busy

namespace Sound

variable {p : Params} {u now port busyTime : Nat} {th : Thread}

theorem releaseEvent_none (hS : Sound th) (h : th.state ≠ .busy) : th.releaseEvent = none := by
  cases hr : th.releaseEvent with
  | none => rfl
  | some tick => exact absurd (hS.release (by rw [hr]; rfl)) h

theorem occupyLayer (hb : th.state = .busy) (hr : th.releaseEvent = none) (h0 : 0 < busyTime)
    (hn : now ≤ busyTime) (hw : th.retryEvent.isSome → th.retryList ≠ []) :
    ∃ th', th.occupyLayer now busyTime = some th' ∧ Sound th' := by
  have h : th.occupyLayer now busyTime = some { th with releaseEvent := some busyTime } := by
    rw [Thread.occupyLayer, hb, hr, if_neg (by simp; omega)]
  exact ⟨_, h, Waits.occupyLayer h hw hb, fun _ => hb⟩

theorem tryTiming (hS : Sound th) (hs : p.Started now) (hu : u < p.numPids) :
    ∃ th', th.tryTiming p now u port = some th' ∧ Sound th' := by
  have hretry : ¬p.retryTime now u < now := by
    have h1 := (Params.activeId_retryTime hs hu).2
    have h2 := p.le_nextCycle now
    omega
  unfold Thread.tryTiming
  split
  · dsimp only
    split
    · exact ⟨_, rfl, hS.waits.reject, hS.release⟩
    · exact ⟨_, rfl, hS.waits.reject, hS.release⟩
  · split
    · exact ⟨_, rfl, hS.waits.reject, hS.release⟩
    · next hr hl => exact absurd hl (hS.waits.retry hr).1
    · split
      · exact ⟨_, rfl, hS.waits.reject, hS.release⟩
      · exact ⟨_, rfl, ⟨hS.waits.event, hS.waits.retry⟩, hS.release⟩
    · exact ⟨_, rfl, ⟨hS.waits.event, nofun⟩, fun _ => rfl⟩

theorem succeededTiming (hS : Sound th) (hi : th.state ≠ .idle) (hr : th.releaseEvent = none)
    (h0 : 0 < busyTime) (hn : now ≤ busyTime) : ∃ th', th.succeededTiming now busyTime = some th' ∧ Sound th' := by
  unfold Thread.succeededTiming
  split
  · next hs hl => exact absurd hl (hS.waits.retry hs).1
  · next hs hl => exact occupyLayer rfl hr h0 hn (hS.waits.pop hs hl)
  · next hs => exact occupyLayer hs hr h0 hn hS.waits.event
  · next hs => exact absurd hs hi

theorem failedTiming (hS : Sound th) (hr : th.releaseEvent = none) (h0 : 0 < busyTime) (hn : now ≤ busyTime) :
    ∃ th', th.failedTiming now port busyTime = some th' ∧ Sound th' := by
  unfold Thread.failedTiming
  split
  · next hs hl => exact absurd hl (hS.waits.retry hs).1
  · refine occupyLayer rfl hr h0 hn fun _ => ?_
    split
    · exact List.cons_ne_nil _ _
    · exact List.cons_ne_nil _ _
  · exact occupyLayer rfl hr h0 hn fun _ => by simp

theorem retryWaiting (hS : Sound th) (hl : th.retryList ≠ [])
    (hlast : th.state = .idle → th.retryEvent = none ∨ 2 ≤ th.retryList.length) :
    ∃ th', th.retryWaiting now = some th' ∧ Sound th' := by
  have hsome : th.retryWaiting now ≠ none := retryWaiting_ne_none hl
  obtain ⟨th', h⟩ := Option.ne_none_iff_exists'.1 hsome
  refine ⟨th', h, hS.waits.retryWaiting hlast h, ?_⟩
  unfold Thread.retryWaiting at h
  split at h
  · cases h
  · split at h
    · obtain rfl := Option.some.inj h
      exact hS.release
    · next hidle =>
      obtain rfl := Option.some.inj h
      rw [not_not] at hidle
      intro hr
      rw [show th.releaseEvent = none from hS.releaseEvent_none (by rw [hidle]; exact nofun)] at hr
      cases hr

theorem releaseLayer (hS : Sound { th with releaseEvent := none }) (hb : th.state = .busy)
    (hlast : th.retryEvent = none ∨ th.retryList.length ≠ 1) :
    ∃ th', { th with releaseEvent := none }.releaseLayer now = some th' ∧ Sound th' := by
  have hidle : Sound ({ th with releaseEvent := none, state := .idle }.see (.release now)) :=
    ⟨⟨hS.waits.event, nofun⟩, nofun⟩
  unfold Thread.releaseLayer
  rw [if_neg (by simp [hb])]
  dsimp only
  split
  · next hl =>
    refine hidle.retryWaiting hl fun _ => hlast.imp_right fun h1 => ?_
    have hpos := List.length_pos_iff.2 hl
    show 2 ≤ th.retryList.length
    change 0 < th.retryList.length at hpos
    omega
  · exact ⟨_, rfl, hidle⟩

theorem returned (hS : Sound th) (hO : Owned p u th) (hf : th.frames ≠ []) :
    ∃ th', th.returned p u = some th' ∧ Sound th' := by
  unfold Thread.returned
  split
  · next h => exact absurd h hf
  · next now frames h =>
    dsimp only
    split
    · next hs =>
      obtain ⟨hstart, hown⟩ := hO.frames now (by rw [h]; exact List.mem_cons_self)
      have hfin := (Params.activeId_calcFinishTime hstart.1 (hown ▸ p.activeId_lt now) hown
        (hstart.2.mono (by decide : 1 ≤ 2))).2
      have hnow := p.le_nextCycle now
      have hclock := p.clock_pos
      split
      · next hl => exact absurd hl (hS.waits.retry hs).1
      · next hl =>
        have hr : th.releaseEvent = none := hS.releaseEvent_none (by rw [hs]; exact nofun)
        exact occupyLayer rfl hr (by omega) (by omega) (hS.waits.pop hs hl)
    · exact ⟨_, rfl, ⟨hS.waits.event, hS.waits.retry⟩, hS.release⟩

/-- A careful action in turn fails no assertion of its thread. -/
theorem threadStep (hS : Sound (l a.threadID)) (hO : Owned p a.threadID (l a.threadID)) (hok : InTurn p l a)
    (hc : Careful (l a.threadID) a) : ∃ th', threadStep p (l a.threadID) a = some th' ∧ Sound th' := by
  obtain ⟨hu, hok⟩ := hok
  cases a with
  | tryTiming now u port => exact hS.tryTiming hok hu
  | succeededTiming now busyTime u =>
    obtain ⟨hi, hr, h0, hn⟩ := hc
    exact hS.succeededTiming hi hr h0 hn
  | failedTiming now port busyTime u =>
    obtain ⟨hr, h0, hn⟩ := hc
    exact hS.failedTiming hr h0 hn
  | recvRetry now u =>
    simp only [Layer.threadStep]
    split
    · next h => exact hS.retryWaiting h.1 fun _ => hc h
    · exact ⟨_, rfl, hS⟩
  | fireRelease now u =>
    simp only [Layer.threadStep]
    split
    · next h =>
      exact releaseLayer ⟨⟨hS.waits.event, hS.waits.retry⟩, nofun⟩
        (hS.release (Option.isSome_iff_exists.2 ⟨now, h⟩)) (hc h)
    · exact ⟨_, rfl, hS⟩
  | fireRetry now u =>
    simp only [Layer.threadStep]
    split
    · next h =>
      have hl : (l u).retryList ≠ [] := hS.waits.event (Option.isSome_iff_exists.2 ⟨now, h⟩)
      have hS' : Sound { l u with retryEvent := none } :=
        ⟨⟨nofun, fun _ => ⟨hl, .inl rfl⟩⟩, hS.release⟩
      exact hS'.retryWaiting hl fun _ => .inl rfl
    · exact ⟨_, rfl, hS⟩
  | returned u => exact hS.returned hO hc

end Sound

/-! ## Two runs -/

/-- Every action comes in turn, and those of threads other than `t` are careful. -/
def Isolated (p : Params) (t : Nat) (l : Layer) (a : Action) : Prop :=
  InTurn p l a ∧ (a.of t = false → Careful (l a.threadID) a)

instance (p : Params) (t : Nat) (l : Layer) (a : Action) : Decidable (Isolated p t l a) :=
  inferInstanceAs (Decidable (_ ∧ (_ → _)))

theorem owned_update {v : Nat} {th : Thread} (hO : ∀ u, Owned p u (l u)) (h : Owned p v th) (u : Nat) :
    Owned p u (Function.update l v th u) := by
  by_cases hu : u = v
  · subst hu
    rwa [Function.update_self]
  · rw [Function.update_of_ne hu]
    exact hO u

/-- In such a run thread `t` fares as if it were alone: it ends in the state in which its own
actions leave it, and the run fails where they fail. -/
theorem run_thread {t : Nat} {as : List Action} : ∀ {l : Layer}, (∀ u, Owned p u (l u)) →
    (∀ u, u ≠ t → Sound (l u)) → Along (machine p) (Isolated p t) l as →
    (run (machine p) (Action.of t) l as).map (fun r => r.1 t) =
      (as.filter (Action.of t)).foldlM (threadStep p) (l t) := by
  induction as with
  | nil => exact fun _ _ _ => rfl
  | cons a as ih =>
    intro l hO hS ha
    obtain ⟨⟨hturn, hcare⟩, hrest⟩ := along_cons.1 ha
    have hstep : machine p l a =
        (threadStep p (l a.threadID) a).map fun th => (Function.update l a.threadID th, ()) := by
      rw [machine, step_eq_on (hO _) hturn, on, Option.map_map]
      rfl
    rw [map_run_cons (f := fun l : Layer => l t), hstep]
    cases hv : a.of t with
    | true =>
      have he : a.threadID = t := by simpa [Action.of] using hv
      rw [List.filter_cons_of_pos hv, List.foldlM_cons, ← he]
      cases hth : threadStep p (l a.threadID) a with
      | none => rfl
      | some th =>
        rw [hth] at hstep
        have ih := ih (owned_update hO (owned_threadStep (hO _) hturn hth))
          (fun u hu => by rw [Function.update_of_ne (he ▸ hu)]; exact hS u hu) (hrest _ _ hstep)
        simpa [he] using ih
    | false =>
      have hne : t ≠ a.threadID := fun he => by simp [Action.of, he] at hv
      obtain ⟨th, hth, hsound⟩ := (hS _ hne.symm).threadStep (hO _) hturn (hcare hv)
      rw [hth] at hstep
      have hS' : ∀ u, u ≠ t → Sound (Function.update l a.threadID th u) := by
        intro u hu
        by_cases hua : u = a.threadID
        · rw [hua, Function.update_self]
          exact hsound
        · rw [Function.update_of_ne hua]
          exact hS u hu
      have ih := ih (owned_update hO (owned_threadStep (hO _) hturn hth)) hS' (hrest _ _ hstep)
      rw [Function.update_of_ne hne] at ih
      rw [List.filter_cons_of_neg (by simp [hv]), hth]
      simpa using ih

/-- Two runs with the same actions of thread `t`: either both fail an assertion or none
does, and then `t` has got the same answers, retries and releases at the same ticks and is
left in the same state. -/
theorem layer_noninterference (p : Params) (t : Nat) (as bs : List Action)
    (hsame : as.filter (Action.of t) = bs.filter (Action.of t))
    (ha : Along (machine p) (Isolated p t) init as) (hb : Along (machine p) (Isolated p t) init bs) :
    (run (machine p) (Action.of t) init as).isSome = (run (machine p) (Action.of t) init bs).isSome ∧
      ∀ x ox y oy, run (machine p) (Action.of t) init as = some (x, ox) →
        run (machine p) (Action.of t) init bs = some (y, oy) → (x t).log = (y t).log ∧ x t = y t := by
  have hO : ∀ u, Owned p u (init u) := fun u => ⟨nofun, nofun, nofun⟩
  have hS : ∀ u, u ≠ t → Sound (init u) := fun u _ => ⟨⟨nofun, nofun⟩, nofun⟩
  have heq := (run_thread hO hS ha).trans ((congrArg _ hsame).trans (run_thread hO hS hb).symm)
  refine ⟨by simpa using congrArg Option.isSome heq, fun x ox y oy hx hy => ?_⟩
  rw [hx, hy] at heq
  have hxy : x t = y t := Option.some.inj heq
  exact ⟨by rw [hxy], hxy⟩

/-- Thread 1 is rejected, retried in its turn and released while thread 0 sends
one packet. -/
theorem layer_noninterference_two_threads :
    let p : Params := ⟨2, 2, 0, 1, by decide, by decide, by decide⟩
    let own : List Action := [.tryTiming 0 0 5, .succeededTiming 0 1 0, .fireRelease 1 0]
    let both : List Action := [.tryTiming 0 1 7] ++ own ++ [.fireRetry 2 1, .returned 1, .fireRelease 3 1]
    ∃ x ox y oy, run (machine p) (Action.of 0) init both = some (x, ox) ∧
      run (machine p) (Action.of 0) init own = some (y, oy) ∧
      (x 0).log = [.release 1, .answer 0 true] ∧ (x 0).log = (y 0).log ∧ x 0 = y 0 := by
  intro p own both
  obtain ⟨⟨x, ox⟩, hx, hlog⟩ := Option.map_eq_some_iff.1 (show (run (machine p) (Action.of 0) init both).map
    (fun r => (r.1 0).log) = some [.release 1, .answer 0 true] by decide +kernel)
  have hni := layer_noninterference p 0 both own (by decide +kernel) (by decide +kernel) (by decide +kernel)
  obtain ⟨⟨y, oy⟩, hy⟩ := Option.isSome_iff_exists.1 (hni.1.symm.trans (by rw [hx]; rfl))
  exact ⟨x, ox, y, oy, hx, hy, hlog, hni.2 x ox y oy hx hy⟩

end Layer

end DynamicCache.Bus
