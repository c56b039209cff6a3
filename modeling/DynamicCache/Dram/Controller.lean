import DynamicCache.Dram.Bank
import DynamicCache.Lib.Runs
import Mathlib.Algebra.Ring.Nat
import Mathlib.Logic.Function.Basic

/-!
# The memory controller and its command queue (`MemoryController.cpp`, `CommandQueue.cpp`)

One state holds what the controller and its command queue share: the clock, the
bank states, the queues by rank and pid, the refresh flags and the activation
windows.  A scheduler adds its own fields (`sched`) and the two virtual methods
of `CommandQueue::pop` under the close-page policy.

A run is a list of actions.  A call of `MemoryController::update` is a `cycle`, with the
rank that is due for a refresh, if any, then an `enqueue` for every transaction whose
`ACTIVATE` and column command `updateTransactionQueue` puts into the queue of its rank and
pid, then the `power` checks of low power.  A call of `exit` and an index out of range are
`none`.
-/

namespace DynamicCache.Dram

open Lib

inductive SchedulingPolicy where
  | rankThenBankRoundRobin
  | bankThenRankRoundRobin
deriving DecidableEq, Repr

structure Config where
  timing : Timing
  numRanks : Nat
  numBanks : Nat
  numPids : Nat
  cmdQueueDepth : Nat
  totalRowAccesses : Nat
  schedulingPolicy : SchedulingPolicy
  useLowPower : Bool := false

/-- `π` holds the fields of the scheduler. -/
structure State (π : Type) where
  sched : π
  currentClockCycle : Nat := 0
  bankStates : Nat → Nat → BankState := fun _ _ => {}
  queues : Nat → Nat → List BusPacket := fun _ _ => []
  nextRank : Nat := 0
  nextBank : Nat := 0
  sendAct : Bool := true
  refreshRank : Nat := 0
  refreshWaiting : Bool := false
  refreshCounter : Nat := 0
  tFAWCountdown : Nat → List Nat := fun _ => []
  rowAccessCounters : Nat → Nat → Nat := fun _ _ => 0
  powerDown : Nat → Bool := fun _ => false
  /-- of all banks of a rank -/
  nextPowerUp : Nat → Nat := fun _ => 0
  /-- history: the cycle of the last call of `needRefresh` -/
  refreshRequested : Option Nat := none

/-- The virtual methods of `pop`; a packet means that one was found. -/
structure Methods (π : Type) where
  refreshPopClosePage : Config → State π → Option BusPacket × State π
  normalPopClosePage : Config → State π → Option BusPacket × State π

/-- `rank` or `bank` after a refresh has been sent: `-1` as an `unsigned`. -/
def noRank : Nat := 2 ^ 32 - 1

def refreshPacket (rank : Nat) : BusPacket := ⟨.refresh, 0, 0, rank, 0, 0⟩

/-! ## The command queue -/

/-- `tFAWCountdown[i][j]--`, then the head is removed if it is 0. -/
def tickFAW (l : List Nat) : List Nat :=
  match l.map fun e => if e = 0 then 2 ^ 32 - 1 else e - 1 with
  | 0 :: rest => rest
  | l => l

def nextRankAndBank (c : Config) (rank bank : Nat) : Nat × Nat :=
  match c.schedulingPolicy with
  | .rankThenBankRoundRobin =>
    if rank + 1 = c.numRanks then (0, if bank + 1 = c.numBanks then 0 else bank + 1)
    else (rank + 1, bank)
  | .bankThenRankRoundRobin =>
    if bank + 1 = c.numBanks then (if rank + 1 = c.numRanks then 0 else rank + 1, 0)
    else (rank, bank + 1)

namespace State

variable {π : Type} (c : Config) (m : Methods π) (s : State π)

def isIssuable (p : BusPacket) : Bool :=
  let b := s.bankStates p.rank p.bank
  let open_ := b.currentBankState = .rowActive ∧ p.row = b.openRowAddress ∧
    s.rowAccessCounters p.rank p.bank < c.totalRowAccesses
  match p.busPacketType with
  | .refresh => false
  | .activate =>
    (b.currentBankState = .idle ∨ b.currentBankState = .refreshing) ∧
      b.nextActivate ≤ s.currentClockCycle ∧ (s.tFAWCountdown p.rank).length < 4
  | .write | .writeP => open_ ∧ b.nextWrite ≤ s.currentClockCycle
  | .read | .readP => open_ ∧ b.nextRead ≤ s.currentClockCycle
  | .precharge => b.currentBankState = .rowActive ∧ b.nextPrecharge ≤ s.currentClockCycle

def needRefresh (rank : Nat) : State π :=
  { s with
    refreshWaiting := true
    refreshRank := rank
    refreshRequested := some s.currentClockCycle }

def popClosePage : Option BusPacket × State π :=
  match if s.refreshWaiting then m.refreshPopClosePage c s else (none, s) with
  | (some p, s) => (some p, s)
  | (none, s) => m.normalPopClosePage c s

/-- The end of `pop`, when a packet has been found. -/
def popped (p : BusPacket) : State π :=
  let s :=
    if 0 < c.timing.AL ∧ s.sendAct = true then { s with sendAct := false }
    else
      { s with
        sendAct := true
        nextRank := (nextRankAndBank c s.nextRank s.nextBank).1
        nextBank := (nextRankAndBank c s.nextRank s.nextBank).2 }
  if p.busPacketType = .activate then
    { s with tFAWCountdown :=
        Function.update s.tFAWCountdown p.rank (s.tFAWCountdown p.rank ++ [c.timing.tFAW]) }
  else s

def pop : Option BusPacket × State π :=
  match popClosePage c m { s with tFAWCountdown := fun r => tickFAW (s.tFAWCountdown r) } with
  | (some p, s) => (some p, s.popped c p)
  | (none, s) => (none, s)

/-! ## The controller -/

def tickBanks : State π :=
  { s with bankStates := fun i j => (s.bankStates i j).tick c.timing }

/-- Every bank's state after the popped command. -/
def issue (p : BusPacket) : State π :=
  { s with
    bankStates := fun i j => (s.bankStates i j).after c.timing s.currentClockCycle p i j }

/-- `MemoryController::update`, with the rank whose refresh countdown is 0. -/
def update (refresh : Option Nat) : Option BusPacket × State π :=
  let s := s.tickBanks c
  let s := match refresh with
    | some rank => s.needRefresh rank
    | none => s
  match s.pop c m with
  | (some p, s) => (some p, { s.issue c p with currentClockCycle := s.currentClockCycle + 1 })
  | (none, s) => (none, { s with currentClockCycle := s.currentClockCycle + 1 })

/-- What the methods of the scheduler are called on. -/
def ready (refresh : Option Nat) : State π :=
  { s with
    bankStates := fun i j => (s.bankStates i j).tick c.timing
    tFAWCountdown := fun r => tickFAW (s.tFAWCountdown r)
    refreshWaiting := s.refreshWaiting || refresh.isSome
    refreshRank := refresh.getD s.refreshRank
    refreshRequested := if refresh.isSome then some s.currentClockCycle else s.refreshRequested }

/-- The state after a cycle in which `p` was popped and the scheduler left `s`. -/
def finish (p : BusPacket) : State π :=
  { (s.popped c p).issue c p with currentClockCycle := s.currentClockCycle + 1 }

/-- The state after a cycle in which nothing was popped and the scheduler left `s`. -/
def idle : State π := { s with currentClockCycle := s.currentClockCycle + 1 }

/-- The rest of a cycle, after the methods of the scheduler. -/
def conclude : Option BusPacket × State π → Option BusPacket × State π
  | (some p, s) => (some p, s.finish c p)
  | (none, s) => (none, s.idle)

/-- `enqueue` of the schedulers with a queue for every rank and pid. -/
def enqueue (p : BusPacket) : Option (State π) :=
  let queue := s.queues p.rank p.threadID ++ [p]
  if c.cmdQueueDepth < queue.length then none
  else
    some { s with
      queues := Function.update s.queues p.rank
        (Function.update (s.queues p.rank) p.threadID queue) }

def isEmpty (rank : Nat) : Bool := (List.range c.numPids).all fun pid => (s.queues rank pid).isEmpty

/-- Changes the banks of a rank. -/
def setBanks (rank : Nat) (f : BankState → BankState) : State π :=
  { s with bankStates := fun r b =>
      if r = rank ∧ b < c.numBanks then f (s.bankStates r b) else s.bankStates r b }

/-- The power-down check of `MemoryController::update` for rank `i`; `waiting` are the ranks
that wait for a refresh. -/
def powerCheck (isEmpty : State π → Nat → Bool) (waiting : List Nat) (clock : Nat) (s : State π) (i : Nat) :
    State π :=
  if isEmpty s i = true ∧ i ∉ waiting then
    if ∀ b < c.numBanks, (s.bankStates i b).currentBankState = .idle then
      { s.setBanks c i fun b => { b with currentBankState := .powerDown } with
        powerDown := Function.update s.powerDown i true
        nextPowerUp := Function.update s.nextPowerUp i (clock + c.timing.tCKE) }
    else s
  else if s.nextPowerUp i ≤ clock ∧ s.powerDown i = true then
    { s.setBanks c i fun b => { b with currentBankState := .idle, nextActivate := clock + c.timing.tXP } with
      powerDown := Function.update s.powerDown i false }
  else s

/-- The checks at the end of cycle `clock`. -/
def powerChecks (isEmpty : State π → Nat → Bool) (waiting : List Nat) (clock : Nat) : State π :=
  if c.useLowPower then (List.range c.numRanks).foldl (powerCheck c isEmpty waiting clock) s else s

section Fields

variable {c s} (p : BusPacket)

theorem popped_eq : ∃ sendAct nextRank nextBank tFAW,
    s.popped c p = { s with
      sendAct := sendAct
      nextRank := nextRank
      nextBank := nextBank
      tFAWCountdown := tFAW } := by
  unfold popped
  repeat' split
  all_goals exact ⟨_, _, _, _, rfl⟩

@[simp] theorem finish_sched : (s.finish c p).sched = s.sched := by
  obtain ⟨_, _, _, _, h⟩ := popped_eq (c := c) (s := s) p
  simp only [finish, issue, h]

@[simp] theorem finish_currentClockCycle :
    (s.finish c p).currentClockCycle = s.currentClockCycle + 1 := rfl

@[simp] theorem finish_queues : (s.finish c p).queues = s.queues := by
  obtain ⟨_, _, _, _, h⟩ := popped_eq (c := c) (s := s) p
  simp only [finish, issue, h]

@[simp] theorem finish_refreshWaiting : (s.finish c p).refreshWaiting = s.refreshWaiting := by
  obtain ⟨_, _, _, _, h⟩ := popped_eq (c := c) (s := s) p
  simp only [finish, issue, h]

@[simp] theorem finish_refreshCounter : (s.finish c p).refreshCounter = s.refreshCounter := by
  obtain ⟨_, _, _, _, h⟩ := popped_eq (c := c) (s := s) p
  simp only [finish, issue, h]

@[simp] theorem finish_rowAccessCounters :
    (s.finish c p).rowAccessCounters = s.rowAccessCounters := by
  obtain ⟨_, _, _, _, h⟩ := popped_eq (c := c) (s := s) p
  simp only [finish, issue, h]

@[simp] theorem finish_refreshRequested :
    (s.finish c p).refreshRequested = s.refreshRequested := by
  obtain ⟨_, _, _, _, h⟩ := popped_eq (c := c) (s := s) p
  simp only [finish, issue, h]

@[simp] theorem finish_powerDown : (s.finish c p).powerDown = s.powerDown := by
  obtain ⟨_, _, _, _, h⟩ := popped_eq (c := c) (s := s) p
  simp only [finish, issue, h]

@[simp] theorem finish_bankStates (i j : Nat) : (s.finish c p).bankStates i j =
    (s.bankStates i j).after c.timing s.currentClockCycle p i j := by
  obtain ⟨_, _, _, _, h⟩ := popped_eq (c := c) (s := s) p
  simp only [finish, issue, h]

theorem finish_tFAWCountdown_of_ne {p : BusPacket} (hp : p.busPacketType ≠ .activate) :
    (s.finish c p).tFAWCountdown = s.tFAWCountdown := by
  simp only [finish, issue, popped]
  rw [if_neg hp]
  split <;> rfl

theorem finish_tFAWCountdown {p : BusPacket} (hp : p.busPacketType = .activate) (r : Nat) :
    (s.finish c p).tFAWCountdown r =
      if r = p.rank then s.tFAWCountdown r ++ [c.timing.tFAW] else s.tFAWCountdown r := by
  have h : (s.finish c p).tFAWCountdown =
      Function.update s.tFAWCountdown p.rank (s.tFAWCountdown p.rank ++ [c.timing.tFAW]) := by
    simp only [finish, issue, popped]
    rw [if_pos hp]
    split <;> rfl
  rw [h]
  by_cases hr : r = p.rank
  · rw [if_pos hr, hr, Function.update_self]
  · rw [if_neg hr, Function.update_of_ne hr]

end Fields

/-- What holds of both methods holds of the search, if `refreshPopClosePage` changes
nothing when it finds nothing. -/
theorem popClosePage_cases {c : Config} {m : Methods π} {s : State π} {P : Option BusPacket × State π → Prop}
    (normal : P (m.normalPopClosePage c s))
    (refresh : s.refreshWaiting = true → m.refreshPopClosePage c s = (none, s) ∨
      ∃ p s', m.refreshPopClosePage c s = (some p, s') ∧ P (some p, s')) : P (s.popClosePage c m) := by
  unfold popClosePage
  cases hw : s.refreshWaiting with
  | false => exact normal
  | true =>
    obtain h | ⟨p, s', h, hp⟩ := refresh hw
    · rw [h]
      exact normal
    · rw [h]
      exact hp

theorem conclude_fst (out : Option BusPacket × State π) : (conclude c out).1 = out.1 := by
  obtain ⟨_ | p, s⟩ := out <;> rfl

theorem conclude_queues (out : Option BusPacket × State π) : (conclude c out).2.queues = out.2.queues := by
  obtain ⟨_ | p, s⟩ := out
  · rfl
  · exact finish_queues p

theorem update_eq (refresh : Option Nat) :
    s.update c m refresh = conclude c (popClosePage c m (s.ready c refresh)) := by
  have h : ∀ s' : State π, { s' with tFAWCountdown := fun r => tickFAW (s'.tFAWCountdown r) } =
      s.ready c refresh →
      (match s'.pop c m with
      | (some p, s) => (some p, { s.issue c p with currentClockCycle := s.currentClockCycle + 1 })
      | (none, s) => (none, { s with currentClockCycle := s.currentClockCycle + 1 })) =
      conclude c (popClosePage c m (s.ready c refresh)) := by
    intro s' hs
    unfold pop
    rw [hs]
    obtain ⟨_ | p, s''⟩ := popClosePage c m (s.ready c refresh)
    · rfl
    · obtain ⟨_, _, _, _, h⟩ := popped_eq (c := c) (s := s'') p
      simp only [conclude, finish, issue, h]
  cases refresh with
  | none => exact h _ (by simp [ready, tickBanks])
  | some r => exact h _ (by simp [ready, tickBanks, needRefresh])

theorem powerCheck_eq (isEmpty : State π → Nat → Bool) (waiting : List Nat) (clock i : Nat) :
    ∃ banks down up, powerCheck c isEmpty waiting clock s i =
      { s with bankStates := banks, powerDown := down, nextPowerUp := up } := by
  unfold powerCheck
  repeat' split
  all_goals exact ⟨_, _, _, rfl⟩

/-- Whatever the power of the ranks, the checks leave the queues and the scheduler alone. -/
theorem powerChecks_eq (isEmpty : State π → Nat → Bool) (waiting : List Nat) (clock : Nat) :
    ∃ banks down up, s.powerChecks c isEmpty waiting clock =
      { s with bankStates := banks, powerDown := down, nextPowerUp := up } := by
  unfold powerChecks
  split
  · generalize List.range c.numRanks = ranks
    induction ranks generalizing s with
    | nil => exact ⟨_, _, _, rfl⟩
    | cons i ranks ih =>
      obtain ⟨banks, down, up, h⟩ := powerCheck_eq c s isEmpty waiting clock i
      obtain ⟨banks', down', up', h'⟩ := ih { s with bankStates := banks, powerDown := down, nextPowerUp := up }
      exact ⟨banks', down', up', by rw [List.foldl_cons, h, h']⟩
  · exact ⟨_, _, _, rfl⟩

end State

/-! ## Runs -/

/-- A transaction with its address mapped. -/
structure Transaction where
  write : Bool
  physicalAddress : Nat
  row : Nat
  rank : Nat
  bank : Nat
  threadID : Nat
deriving DecidableEq, Repr

namespace Transaction

def activate (x : Transaction) : BusPacket :=
  ⟨.activate, x.physicalAddress, x.row, x.rank, x.bank, x.threadID⟩

/-- The column command under the close-page policy. -/
def column (x : Transaction) : BusPacket :=
  ⟨if x.write then .writeP else .readP, x.physicalAddress, x.row, x.rank, x.bank, x.threadID⟩

theorem column_type (x : Transaction) :
    x.column.busPacketType = .readP ∨ x.column.busPacketType = .writeP := by
  unfold column
  cases x.write <;> simp

theorem column_ne_activate (x : Transaction) : x.column.busPacketType ≠ .activate := by
  rcases x.column_type with h | h <;> rw [h] <;> decide

theorem column_ne_refresh (x : Transaction) : x.column.busPacketType ≠ .refresh := by
  rcases x.column_type with h | h <;> rw [h] <;> decide

def InRange (c : Config) (x : Transaction) : Prop :=
  x.rank < c.numRanks ∧ x.bank < c.numBanks ∧ x.threadID < c.numPids

instance (c : Config) (x : Transaction) : Decidable (x.InRange c) :=
  inferInstanceAs (Decidable (_ ∧ _ ∧ _))

end Transaction

/-- The commands of transactions that are enqueued one after the other. -/
def commands (xs : List Transaction) : List BusPacket := xs.flatMap fun x => [x.activate, x.column]

section Issuable

variable {π : Type} {c : Config} {s : State π} {x : Transaction}

theorem State.isIssuable_activate : s.isIssuable c x.activate = true ↔
    ((s.bankStates x.rank x.bank).currentBankState = .idle ∨
      (s.bankStates x.rank x.bank).currentBankState = .refreshing) ∧
    (s.bankStates x.rank x.bank).nextActivate ≤ s.currentClockCycle ∧
    (s.tFAWCountdown x.rank).length < 4 := by
  show decide _ = true ↔ _
  rw [decide_eq_true_eq]
  rfl

theorem State.isIssuable_column : s.isIssuable c x.column = true ↔
    ((s.bankStates x.rank x.bank).currentBankState = .rowActive ∧
      x.row = (s.bankStates x.rank x.bank).openRowAddress ∧
      s.rowAccessCounters x.rank x.bank < c.totalRowAccesses) ∧
    (if x.write then (s.bankStates x.rank x.bank).nextWrite
      else (s.bankStates x.rank x.bank).nextRead) ≤ s.currentClockCycle := by
  obtain ⟨write, _⟩ := x
  cases write with
  | true =>
    show decide _ = true ↔ _
    rw [decide_eq_true_eq]
    rfl
  | false =>
    show decide _ = true ↔ _
    rw [decide_eq_true_eq]
    rfl

end Issuable

/-- The state with the commands of `x` at the end of their queue. -/
def State.enqueued {π : Type} (s : State π) (x : Transaction) : State π :=
  { s with
    queues := fun r q =>
      if r = x.rank ∧ q = x.threadID then s.queues r q ++ [x.activate, x.column]
      else s.queues r q }

inductive Action where
  | enqueue (x : Transaction)
  | cycle (refresh : Option Nat)
  /-- `waiting` are the ranks that wait for a refresh -/
  | power (waiting : List Nat)
deriving DecidableEq

/-- What pid `p` sees of a popped packet. -/
def sees (p : Nat) (popped : Option BusPacket) : Option BusPacket :=
  popped.filter fun q => q.busPacketType ≠ .refresh ∧ q.threadID = p

/-- Actions that two runs share: the commands of pid `p`, and every cycle. -/
def Action.of (p : Nat) : Action → Bool
  | .enqueue x => x.threadID = p
  | .cycle _ => true
  | .power _ => false

/-- One action; the output is the packet of pid `p` that is popped, with its cycle. -/
def step {π : Type} (c : Config) (m : Methods π) (p : Nat) (s : State π) :
    Action → Option (State π × Option (Nat × BusPacket))
  | .enqueue x =>
    if x.InRange c then
      match s.enqueue c x.activate with
      | some s => (s.enqueue c x.column).map fun s => (s, none)
      | none => none
    else none
  | .cycle refresh =>
    if ∀ r ∈ refresh, r < c.numRanks then
      some ((s.update c m refresh).2,
        (sees p (s.update c m refresh).1).map fun q => (s.currentClockCycle, q))
    else none
  | .power waiting => some (s.powerChecks c (State.isEmpty c) waiting (s.currentClockCycle - 1), none)

section Step

variable {π : Type} {c : Config} {m : Methods π} {p : Nat} {s s' : State π}
variable {o : Option (Nat × BusPacket)}

/-- Both commands of a transaction go to the end of their queue. -/
theorem enqueue_commands {x : Transaction} {s₁ s₂ : State π} (h₁ : s.enqueue c x.activate = some s₁)
    (h₂ : s₁.enqueue c x.column = some s₂) : s₂ = s.enqueued x := by
  unfold State.enqueue at h₁ h₂
  dsimp only at h₁ h₂
  split at h₁
  · cases h₁
  obtain rfl := Option.some.inj h₁
  split at h₂
  · cases h₂
  obtain rfl := Option.some.inj h₂
  congr 1
  funext r q
  by_cases hr : r = x.rank
  · by_cases hq : q = x.threadID
    · subst hr hq
      simp [Transaction.activate, Transaction.column, Function.update_self]
    · simp [Transaction.activate, Transaction.column, hr, hq]
  · simp [Transaction.activate, Transaction.column, hr]

theorem step_enqueue {x : Transaction} (h : step c m p s (.enqueue x) = some (s', o)) :
    x.InRange c ∧ o = none ∧ s' = s.enqueued x := by
  unfold step at h
  dsimp only at h
  split at h
  · next hx =>
    split at h
    · next s₁ h₁ =>
      obtain ⟨s₂, h₂, he⟩ := Option.map_eq_some_iff.1 h
      obtain ⟨rfl, rfl⟩ := Prod.mk.inj he
      exact ⟨hx, rfl, enqueue_commands h₁ h₂⟩
    · cases h
  · cases h

theorem step_cycle {refresh : Option Nat} (h : step c m p s (.cycle refresh) = some (s', o)) :
    s' = (s.update c m refresh).2 ∧
      o = (sees p (s.update c m refresh).1).map fun q => (s.currentClockCycle, q) := by
  unfold step at h
  dsimp only at h
  split at h
  · obtain ⟨rfl, rfl⟩ := Prod.mk.inj (Option.some.inj h)
    exact ⟨rfl, rfl⟩
  · cases h

theorem step_power {waiting : List Nat} (hl : c.useLowPower = false)
    (h : step c m p s (.power waiting) = some (s', o)) : s' = s ∧ o = none := by
  unfold step State.powerChecks at h
  rw [hl] at h
  obtain ⟨rfl, rfl⟩ := Prod.mk.inj (Option.some.inj h)
  exact ⟨rfl, rfl⟩

end Step

end DynamicCache.Dram
