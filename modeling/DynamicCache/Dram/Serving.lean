import DynamicCache.Dram.Power
import DynamicCache.Dram.ReturnPath

/-!
# From a transaction to its commands (`MemoryController.cpp`, `MemoryControllerTP.cpp`)

The searches of temporal partitioning index the queues with the pid whose turn it is;
`turnStep` is a step of the controller that fails when there is no such queue.

What a scheduler keeps is proved with `Enters.step`: it has to be kept by a cycle of the
command queue, by a transaction that enters, and by the power-down checks; nothing else
touches queues or banks.  As a transaction enters only when there is room for both its
commands, `enqueue` never gives up.
-/

namespace DynamicCache.Dram

open Lib

/-! ## What every step keeps -/

theorem enqueue_of_room {π : Type} {c : Config} {s : State π} {x : Transaction}
    (h : (s.queues x.rank x.threadID).length + 2 ≤ c.cmdQueueDepth) :
    ∃ s₁, s.enqueue c x.activate = some s₁ ∧ s₁.enqueue c x.column = some (s.enqueued x) := by
  have h₁ : ∃ s₁, s.enqueue c x.activate = some s₁ ∧
      s₁.queues x.rank x.threadID = s.queues x.rank x.threadID ++ [x.activate] := by
    refine ⟨_, if_neg ?_, ?_⟩
    · rw [List.length_append]
      exact Nat.not_lt.2 (Nat.le_of_succ_le h)
    · show Function.update s.queues x.rank (Function.update (s.queues x.rank) x.threadID
        (s.queues x.rank x.threadID ++ [x.activate])) x.rank x.threadID = _
      rw [Function.update_self, Function.update_self]
  obtain ⟨s₁, h₁, hq⟩ := h₁
  have h₂ : ∃ s₂, s₁.enqueue c x.column = some s₂ := by
    refine ⟨_, if_neg ?_⟩
    rw [List.length_append, show s₁.queues x.column.rank x.column.threadID = _ from hq, List.length_append]
    exact Nat.not_lt.2 h
  obtain ⟨s₂, h₂⟩ := h₂
  exact ⟨s₁, h₁, enqueue_commands h₁ h₂ ▸ h₂⟩

namespace Controller

section Turns

variable {π : Type} (y : System) (w : Turns) (m : Methods π)

/-- The pids of a step are indices of queues. -/
def PidInRange (s : Controller π) : Action → Prop
  | .addTransaction _ _ threadID => threadID < y.config.numPids
  | .update _ _ => w.getCurrentPID y.config.numPids s.state.currentClockCycle < y.config.numPids
  | .receiveFromBus _ => True

instance (s : Controller π) (a : Action) : Decidable (PidInRange y w s a) := by
  unfold PidInRange
  induction a using Action.casesOn <;> infer_instance

def turnStep (s : Controller π) (a : Action) : Except Fault (Controller π) := do
  check .outOfRange (decide (PidInRange y w s a))
  step y m s a

end Turns

/-- A transaction that `addTransaction` made. -/
def Mapped (y : System) (x : Transaction) : Prop :=
  x.InRange y.config ∧ x = y.transaction x.write x.physicalAddress x.threadID

section Rule

variable {π : Type} {y : System} {w : Turns} {m : Methods π} {s : Controller π} {P : Controller π → Prop}

def Waits (y : System) (s : Controller π) : Prop := ∀ j, ∀ x ∈ s.transactionQueues j, Mapped y x

/-- `P` looks at queues, banks and history, and is kept when a transaction enters. -/
structure Enters (y : System) (P : Controller π → Prop) : Prop where
  ctl : ∀ {s s' : Controller π}, P s → s'.state = s.state → s'.entered = s.entered → s'.log = s.log → P s'
  enter : ∀ {s : Controller π} {x : Transaction}, P s → Mapped y x →
    (s.state.queues x.rank x.threadID).length + 2 ≤ y.config.cmdQueueDepth →
    P { s with state := s.state.enqueued x, entered := s.entered ++ [x] }

theorem Enters.schedule (hP : Enters y P) (h : P s) (hw : Waits y s) (j : Nat) :
    Ensures .exit (fun s' => P s' ∧ Waits y s') (schedule y s j) := by
  unfold Controller.schedule
  cases hp : popFirst (fun _ x => s.hasRoomFor y x) none (s.transactionQueues j) with
  | none => exact ensures_ok ⟨h, hw⟩
  | some out =>
    obtain ⟨x, rest⟩ := out
    obtain ⟨l₁, l₂, hl, rfl, -, hroom⟩ := popFirst_some hp
    have hx : Mapped y x := hw j x (by rw [hl]; simp)
    obtain ⟨s₁, h₁, h₂⟩ := enqueue_of_room (of_decide_eq_true hroom)
    simp only [h₁, h₂, orFail, bind, Except.bind]
    refine ensures_ok ⟨hP.ctl (hP.enter h hx (of_decide_eq_true hroom)) rfl rfl rfl, fun k z hz => hw k z ?_⟩
    change z ∈ Function.update s.transactionQueues j (l₁ ++ l₂) k at hz
    by_cases hk : k = j
    · subst hk
      rw [Function.update_self] at hz
      rw [hl]
      rcases List.mem_append.1 hz with hz | hz <;> simp [hz]
    · rwa [Function.update_of_ne hk] at hz

/-- A step keeps what the command queue, a transaction that enters and the power-down
checks keep. -/
theorem Enters.step (hP : Enters y P)
    (hpower : ∀ {s : Controller π} (waiting : List Nat) (clock : Nat), P s → P (s.powerChecks y waiting clock))
    {a : Action} (hpop : ∀ refresh waiting, a = .update refresh waiting → P (s.popCommand y m refresh))
    (h : P s) (hw : Waits y s) : Ensures .exit (fun s' => P s' ∧ Waits y s') (step y m s a) := by
  have hne : Fault.notEnabled ≠ .exit := by decide
  have hcheck : ∀ {b}, Avoids Fault.exit (check .notEnabled b) := avoids_check hne
  cases a with
  | addTransaction write address threadID =>
    have hpid : Fault.outOfRange ≠ .exit := by decide
    refine (avoids_check hpid).bind fun _ ht => hcheck.bind fun _ hx => ?_
    rw [check_ok, decide_eq_true_eq] at ht hx
    split
    · refine ensures_ok ⟨hP.ctl h rfl rfl rfl, fun j x hj => ?_⟩
      change x ∈ Function.update s.transactionQueues threadID _ j at hj
      by_cases hk : j = threadID
      · subst hk
        rw [Function.update_self] at hj
        rcases List.mem_append.1 hj with hj | hj
        · exact hw j x hj
        · rw [List.mem_singleton.1 hj]
          exact ⟨⟨hx.1, hx.2, ht⟩, rfl⟩
      · rw [Function.update_of_ne hk] at hj
        exact hw j x hj
    · exact ensures_ok ⟨h, hw⟩
  | update refresh waiting =>
    refine hcheck.bind fun _ _ => ?_
    refine Ensures.bind (forLoop_ensures (fun s' => P s' ∧ Waits y s') (fun i s' _ hs => hP.schedule hs.1 hs.2 i)
      ⟨hpop refresh waiting rfl, hw⟩) fun s' _ hs => ?_
    have hs' : P (s'.powerChecks y waiting s.state.currentClockCycle) := hpower waiting _ hs.1
    unfold Controller.updateReturnTransactions
    split
    · exact ensures_ok ⟨hs', hs.2⟩
    · split
      · exact ensures_ok ⟨hP.ctl hs' rfl rfl rfl, hs.2⟩
      · exact ⟨avoids_error.2 nofun, nofun⟩
  | receiveFromBus k =>
    refine (avoids_orFail fun _ => hne).bind fun d _ => ?_
    exact ensures_ok ⟨hP.ctl h rfl rfl rfl, hw⟩

end Rule

end Controller

end DynamicCache.Dram
