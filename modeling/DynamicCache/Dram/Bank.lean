import Mathlib.Data.Nat.Basic
import Mathlib.Order.Basic

/-!
# Bank states of the memory controller (`BankState.cpp`, `MemoryController::update`)

The timings of the device, what the controller knows about a bank, how a bank's
state changes by itself (`tick`) and what a popped command does to every bank
(`after`).  `Settles t d now b` says that bank `b`, at the beginning of cycle
`now`, is idle or will be by cycle `d` without any further command.
-/

namespace DynamicCache.Dram

/-! ## Timings -/

/-- The timings of a device (`ini/*.ini`), in cycles. -/
structure Timing where
  CL : Nat
  AL : Nat
  BL : Nat
  tRAS : Nat
  tRCD : Nat
  tRRD : Nat
  tRC : Nat
  tRP : Nat
  tCCD : Nat
  tRTP : Nat
  tWTR : Nat
  tWR : Nat
  tRTRS : Nat
  tRFC : Nat
  tFAW : Nat
  tCMD : Nat
  tCKE : Nat
  tXP : Nat
deriving DecidableEq, Repr

namespace Timing

variable (t : Timing)

def RL : Nat := t.CL + t.AL
def WL : Nat := t.RL - 1
def readToPreDelay : Nat := t.AL + t.BL / 2 + max t.tRTP t.tCCD - t.tCCD
def writeToPreDelay : Nat := t.WL + t.BL / 2 + t.tWR
def readToWriteDelay : Nat := t.RL + t.BL / 2 + t.tRTRS - t.WL
def readAutopreDelay : Nat := t.AL + t.tRTP + t.tRP
def writeAutopreDelay : Nat := t.WL + t.BL / 2 + t.tWR + t.tRP
/-- between banks -/
def writeToReadDelayB : Nat := t.WL + t.BL / 2 + t.tWTR
/-- between ranks -/
def writeToReadDelayR : Nat := t.WL + t.BL / 2 + t.tRTRS - t.RL
def worstCaseDelay : Nat := t.WL + t.BL / 2 + t.tWR + t.tRP + t.tRCD
def tpBufferTime : Nat := t.WL + t.BL / 2 + t.tWR + t.tRP + t.tRCD + t.tRFC
def fixWorstCaseDelay : Nat := t.tFAW - 3 * t.tRRD
def fixTpBufferTime : Nat := t.tFAW - 3 * t.tRRD + t.tRFC

/-- The delays that `MemoryController::update` imposes after a column command:
auto-precharge (with the state change), turnaround and burst gap. -/
def columnDelays : List Nat :=
  [t.readAutopreDelay, t.writeAutopreDelay, t.readToPreDelay + t.tRP, t.writeToPreDelay + t.tRP,
    t.readToWriteDelay, t.writeToReadDelayB, t.writeToReadDelayR, max t.tCCD (t.BL / 2),
    t.BL / 2 + t.tRTRS]

end Timing

/-- `ini/DDR3_micron_32M_8B_x8_sg15.ini` -/
def ddr3Sg15 : Timing where
  CL := 10
  AL := 0
  BL := 8
  tRAS := 24
  tRCD := 10
  tRRD := 4
  tRC := 34
  tRP := 10
  tCCD := 4
  tRTP := 5
  tWTR := 5
  tWR := 10
  tRTRS := 1
  tRFC := 107
  tFAW := 20
  tCMD := 1
  tCKE := 4
  tXP := 4

/-! ## Commands and banks -/

inductive BusPacketType where
  | read
  | readP
  | write
  | writeP
  | activate
  | precharge
  | refresh
deriving DecidableEq, Repr

structure BusPacket where
  busPacketType : BusPacketType
  physicalAddress : Nat
  row : Nat
  rank : Nat
  bank : Nat
  threadID : Nat
deriving DecidableEq, Repr

inductive CurrentBankState where
  | idle
  | rowActive
  | precharging
  | refreshing
  | powerDown
deriving DecidableEq, Repr

structure BankState where
  currentBankState : CurrentBankState := .idle
  openRowAddress : Nat := 0
  nextRead : Nat := 0
  nextWrite : Nat := 0
  nextActivate : Nat := 0
  nextPrecharge : Nat := 0
  lastCommand : BusPacketType := .read
  stateChangeCountdown : Nat := 0
deriving DecidableEq, Repr

namespace BankState

variable (t : Timing) (now : Nat) (b : BankState)

/-- The countdown at the top of `MemoryController::update`. -/
def tick : BankState :=
  if 0 < b.stateChangeCountdown then
    let b := { b with stateChangeCountdown := b.stateChangeCountdown - 1 }
    if b.stateChangeCountdown = 0 then
      -- only these commands have an implicit state change
      match b.lastCommand with
      | .writeP | .readP =>
        { b with
          currentBankState := .precharging
          lastCommand := .precharge
          stateChangeCountdown := t.tRP }
      | .refresh | .precharge => { b with currentBankState := .idle }
      | _ => b
    else b
  else b

/-- What a read (with auto-precharge if `auto`) popped for bank `(rank, bank)`
does to bank `(i, j)`. -/
def afterRead (auto : Bool) (rank bank i j : Nat) : BankState :=
  if i ≠ rank then
    if b.currentBankState = .rowActive then
      { b with
        nextRead := max (now + t.BL / 2 + t.tRTRS) b.nextRead
        nextWrite := max (now + t.readToWriteDelay) b.nextWrite }
    else b
  else
    let b' :=
      { b with
        nextRead := max (now + max t.tCCD (t.BL / 2)) b.nextRead
        nextWrite := max (now + t.readToWriteDelay) b.nextWrite }
    if j ≠ bank then b'
    else if auto then
      let nextActivate := max (now + t.readAutopreDelay) b.nextActivate
      { b' with
        nextActivate := nextActivate
        lastCommand := .readP
        stateChangeCountdown := t.readToPreDelay
        -- the state table prevents a read or write before the bank is closed
        nextRead := nextActivate
        nextWrite := nextActivate }
    else
      { b' with
        nextPrecharge := max (now + t.readToPreDelay) b.nextPrecharge
        lastCommand := .read }

def afterWrite (auto : Bool) (rank bank i j : Nat) : BankState :=
  if i ≠ rank then
    if b.currentBankState = .rowActive then
      { b with
        nextWrite := max (now + t.BL / 2 + t.tRTRS) b.nextWrite
        nextRead := max (now + t.writeToReadDelayR) b.nextRead }
    else b
  else
    let b' :=
      { b with
        nextWrite := max (now + max (t.BL / 2) t.tCCD) b.nextWrite
        nextRead := max (now + t.writeToReadDelayB) b.nextRead }
    if j ≠ bank then b'
    else if auto then
      let nextActivate := max (now + t.writeAutopreDelay) b.nextActivate
      { b' with
        nextActivate := nextActivate
        lastCommand := .writeP
        stateChangeCountdown := t.writeToPreDelay
        nextRead := nextActivate
        nextWrite := nextActivate }
    else
      { b' with
        nextPrecharge := max (now + t.writeToPreDelay) b.nextPrecharge
        lastCommand := .write }

def afterActivate (row rank bank i j : Nat) : BankState :=
  if i ≠ rank then b
  else if j ≠ bank then { b with nextActivate := max (now + t.tRRD) b.nextActivate }
  else
    { b with
      currentBankState := .rowActive
      lastCommand := .activate
      openRowAddress := row
      nextActivate := max (now + t.tRC) b.nextActivate
      nextPrecharge := max (now + t.tRAS) b.nextPrecharge
      nextRead := max (now + (t.tRCD - t.AL)) b.nextRead
      nextWrite := max (now + (t.tRCD - t.AL)) b.nextWrite }

def afterPrecharge (rank bank i j : Nat) : BankState :=
  if i = rank ∧ j = bank then
    { b with
      currentBankState := .precharging
      lastCommand := .precharge
      stateChangeCountdown := t.tRP
      nextActivate := max (now + t.tRP) b.nextActivate }
  else b

def afterRefresh (rank i : Nat) : BankState :=
  if i = rank then
    { b with
      nextActivate := now + t.tRFC
      currentBankState := .refreshing
      lastCommand := .refresh
      stateChangeCountdown := t.tRFC }
  else b

/-- What a popped command does to bank `(i, j)`. -/
def after (p : BusPacket) (i j : Nat) : BankState :=
  match p.busPacketType with
  | .read => b.afterRead t now false p.rank p.bank i j
  | .readP => b.afterRead t now true p.rank p.bank i j
  | .write => b.afterWrite t now false p.rank p.bank i j
  | .writeP => b.afterWrite t now true p.rank p.bank i j
  | .activate => b.afterActivate t now p.row p.rank p.bank i j
  | .precharge => b.afterPrecharge t now p.rank p.bank i j
  | .refresh => b.afterRefresh t now p.rank i

/-! ## What a countdown and a command change -/

@[simp] theorem tick_nextRead : (b.tick t).nextRead = b.nextRead := by
  unfold tick
  dsimp only
  repeat' split
  all_goals rfl

@[simp] theorem tick_nextWrite : (b.tick t).nextWrite = b.nextWrite := by
  unfold tick
  dsimp only
  repeat' split
  all_goals rfl

@[simp] theorem tick_nextActivate : (b.tick t).nextActivate = b.nextActivate := by
  unfold tick
  dsimp only
  repeat' split
  all_goals rfl

@[simp] theorem tick_openRowAddress : (b.tick t).openRowAddress = b.openRowAddress := by
  unfold tick
  dsimp only
  repeat' split
  all_goals rfl

/-- The part of a bank that `tick` reads and writes. -/
def phase : CurrentBankState × BusPacketType × Nat :=
  (b.currentBankState, b.lastCommand, b.stateChangeCountdown)

variable {t now b} {d row : Nat} {b' : BankState}

theorem tick_phase (h : b.phase = b'.phase) : (b.tick t).phase = (b'.tick t).phase := by
  obtain ⟨st, row, nr, nw, na, np, last, n⟩ := b
  obtain ⟨st', row', nr', nw', na', np', last', n'⟩ := b'
  obtain ⟨rfl, rfl, rfl⟩ := h
  simp only [tick]
  repeat' split
  all_goals rfl

/-- A command changes the phase and the open row of its own bank only. -/
theorem after_phase_of_ne {p : BusPacket} {i j : Nat} (hp : p.busPacketType ≠ .refresh)
    (h : ¬(i = p.rank ∧ j = p.bank)) :
    (b.after t now p i j).phase = b.phase ∧
      (b.after t now p i j).openRowAddress = b.openRowAddress := by
  by_cases hi : i = p.rank
  · have hj : j ≠ p.bank := fun hj => h ⟨hi, hj⟩
    unfold after
    split
    case h_7 heq => exact absurd heq hp
    all_goals
      simp [afterRead, afterWrite, afterActivate, afterPrecharge, hi, hj, phase]
  · unfold after
    split
    case h_7 heq => exact absurd heq hp
    all_goals
      simp only [afterRead, afterWrite, afterActivate, afterPrecharge, hi, ne_eq, not_false_eq_true,
        if_true, false_and, if_false]
      try split
      all_goals simp [phase]

/-! ## Banks that settle -/

/-- At the beginning of cycle `now`: idle, or idle by cycle `d` without a command. -/
def Settles (t : Timing) (d now : Nat) (b : BankState) : Prop :=
  match b.phase with
  | (.idle, _, n) => n = 0
  | (.precharging, last, n) => last = .precharge ∧ 1 ≤ n ∧ now + n ≤ d + 1
  | (.refreshing, last, n) => last = .refresh ∧ 1 ≤ n ∧ now + n ≤ d + 1
  | (.rowActive, last, n) => (last = .readP ∨ last = .writeP) ∧ 1 ≤ n ∧ now + n + t.tRP ≤ d + 1
  | (.powerDown, _, _) => False

/-- An open row whose column command has not come yet. -/
def Opened (row : Nat) (b : BankState) : Prop :=
  b.phase = (.rowActive, .activate, 0) ∧ b.openRowAddress = row

theorem Settles.mono {d' : Nat} (h : b.Settles t d now) (hd : d ≤ d') : b.Settles t d' now := by
  unfold Settles at h ⊢
  split at h
  · exact h
  · exact ⟨h.1, h.2.1, by omega⟩
  · exact ⟨h.1, h.2.1, by omega⟩
  · exact ⟨h.1, h.2.1, by omega⟩
  · exact h

theorem Settles.congr (h : b.Settles t d now) (he : b'.phase = b.phase) : b'.Settles t d now := by
  unfold Settles at h ⊢
  rwa [he]

theorem Opened.rowActive (h : b.Opened row) : b.currentBankState = .rowActive :=
  congrArg Prod.fst h.1

theorem Opened.tick (h : b.Opened row) : b.tick t = b := by
  obtain ⟨h, -⟩ := h
  simp only [phase, Prod.mk.injEq] at h
  unfold BankState.tick
  rw [if_neg (by omega)]

theorem Opened.congr (h : b.Opened row) (he : b'.phase = b.phase) (hr : b'.openRowAddress = b.openRowAddress) :
    b'.Opened row := by
  unfold Opened at h ⊢
  rwa [he, hr]

theorem Settles.tick (h : b.Settles t d now) (hRP : 1 ≤ t.tRP) : (b.tick t).Settles t d (now + 1) := by
  obtain ⟨st, row, nr, nw, na, np, last, n⟩ := b
  unfold Settles phase at h
  cases st with
  | idle =>
    simp only at h
    simp [BankState.tick, Settles, phase, h]
  | powerDown => exact h.elim
  | precharging | refreshing =>
    dsimp only at h
    obtain ⟨rfl, hn, hd⟩ := h
    by_cases h1 : n - 1 = 0
    · simp [BankState.tick, show 0 < n by omega, h1, Settles, phase]
    · simp only [BankState.tick, show 0 < n by omega, if_true, h1, if_false, Settles, phase]
      exact ⟨trivial, by omega, by omega⟩
  | rowActive =>
    dsimp only at h
    obtain ⟨hl, hn, hd⟩ := h
    by_cases h1 : n - 1 = 0
    · rcases hl with rfl | rfl <;>
        simp only [BankState.tick, show 0 < n by omega, if_true, h1, Settles, phase]
      all_goals exact ⟨trivial, hRP, by omega⟩
    · simp only [BankState.tick, show 0 < n by omega, if_true, h1, if_false, Settles, phase]
      refine ⟨hl, ?_, ?_⟩ <;> omega

/-- A bank that has had the time to settle is idle. -/
theorem Settles.idle {d : Nat} (h : b.Settles t d now) (hd : d < now) :
    b.currentBankState = .idle ∧ b.stateChangeCountdown = 0 := by
  obtain ⟨st, row, nr, nw, na, np, last, n⟩ := b
  unfold Settles phase at h
  cases st with
  | idle => exact ⟨rfl, h⟩
  | powerDown => exact h.elim
  | precharging | refreshing | rowActive =>
    omega

/-! ## Bounds on the times of the next commands -/

/-- No command of the bank has to wait beyond `d`. -/
def Below (d : Nat) (b : BankState) : Prop :=
  b.nextRead ≤ d ∧ b.nextWrite ≤ d ∧ b.nextActivate ≤ d

theorem Below.mono {d' : Nat} (h : b.Below d) (hd : d ≤ d') : b.Below d' :=
  ⟨h.1.trans hd, h.2.1.trans hd, h.2.2.trans hd⟩

theorem Below.tick (h : b.Below d) : (b.tick t).Below d := by
  simpa only [Below, tick_nextRead, tick_nextWrite, tick_nextActivate] using h

section After

variable {p : BusPacket} {i j d : Nat}

theorem Below.after_column (h : b.Below d) (hp : p.busPacketType = .readP ∨ p.busPacketType = .writeP)
    (hd : ∀ x ∈ t.columnDelays, now + x ≤ d) : (b.after t now p i j).Below d := by
  simp only [Timing.columnDelays, List.forall_mem_cons, List.not_mem_nil, false_implies,
    implies_true, and_true] at hd
  obtain ⟨h₁, h₂, h₃⟩ := h
  rcases hp with hp | hp <;> simp only [after, hp, afterRead, afterWrite, if_true]
  all_goals
    repeat' split
    all_goals
      simp only [Below]
      omega

theorem Below.after_activate (h : b.Below d) (hp : p.busPacketType = .activate)
    (hRC : now + t.tRC ≤ d) (hRRD : now + t.tRRD ≤ d) (hRCD : now + t.tRCD ≤ d) :
    (b.after t now p i j).Below d := by
  obtain ⟨h₁, h₂, h₃⟩ := h
  simp only [after, hp, afterActivate]
  repeat' split
  all_goals
    simp only [Below]
    omega

theorem Below.after_refresh (h : b.Below d) (hp : p.busPacketType = .refresh)
    (hd : now + t.tRFC ≤ d) : (b.after t now p i j).Below d := by
  obtain ⟨h₁, h₂, h₃⟩ := h
  simp only [after, hp, afterRefresh]
  split
  · exact ⟨h₁, h₂, hd⟩
  · exact ⟨h₁, h₂, h₃⟩

/-- The bank of a column command closes by itself, in time for any later `d`. -/
theorem Opened.settles_after (h : b.Opened row) (hp : p.busPacketType = .readP ∨ p.busPacketType = .writeP)
    (hBL : 2 ≤ t.BL) (hr : p.busPacketType = .readP → now + t.readToPreDelay + t.tRP ≤ d)
    (hw : p.busPacketType = .writeP → now + t.writeToPreDelay + t.tRP ≤ d) :
    (b.after t now p p.rank p.bank).Settles t d (now + 1) := by
  obtain ⟨st, row, nr, nw, na, np, last, n⟩ := b
  obtain ⟨h, -⟩ := h
  obtain ⟨rfl, rfl, rfl⟩ := h
  have h1 : 1 ≤ t.readToPreDelay := by unfold Timing.readToPreDelay; omega
  have h2 : 1 ≤ t.writeToPreDelay := by unfold Timing.writeToPreDelay; omega
  rcases hp with hp | hp
  · have := hr hp
    simp only [after, hp, afterRead, ne_eq, not_true_eq_false, if_false, if_true, Settles, phase]
    exact ⟨.inl trivial, h1, by omega⟩
  · have := hw hp
    simp only [after, hp, afterWrite, ne_eq, not_true_eq_false, if_false, if_true, Settles, phase]
    exact ⟨.inr trivial, h2, by omega⟩

/-- Only a refresh moves the next `ACTIVATE` to an earlier cycle. -/
theorem le_after_nextActivate (hp : p.busPacketType ≠ .refresh) :
    b.nextActivate ≤ (b.after t now p i j).nextActivate := by
  unfold after
  split
  case h_7 heq => exact absurd heq hp
  all_goals
    simp only [afterRead, afterWrite, afterActivate, afterPrecharge]
    repeat' split
    all_goals first | exact le_rfl | exact le_max_right _ _

/-- The bank of a column command is closed when its next `ACTIVATE` may be sent. -/
theorem Opened.after_column_nextActivate (h : b.Opened row)
    (hp : p.busPacketType = .readP ∨ p.busPacketType = .writeP) (hBL : 2 ≤ t.BL)
    (hr : t.readToPreDelay + t.tRP ≤ t.readAutopreDelay) (hw : t.writeToPreDelay + t.tRP ≤ t.writeAutopreDelay) :
    (b.after t now p p.rank p.bank).Settles t (b.after t now p p.rank p.bank).nextActivate
      (now + 1) := by
  refine h.settles_after hp hBL (fun hp => ?_) fun hp => ?_
  · simp only [after, hp, afterRead, ne_eq, not_true_eq_false, if_false, if_true]
    omega
  · simp only [after, hp, afterWrite, ne_eq, not_true_eq_false, if_false, if_true]
    omega

theorem opened_after_activate (hp : p.busPacketType = .activate) (hn : b.stateChangeCountdown = 0) :
    (b.after t now p p.rank p.bank).Opened p.row := by
  simp [after, hp, afterActivate, Opened, phase, hn]

theorem Settles.after_refresh (h : b.Settles t d (now + 1)) (hp : p.busPacketType = .refresh)
    (hRFC : 1 ≤ t.tRFC) (hd : now + t.tRFC ≤ d) : (b.after t now p i j).Settles t d (now + 1) := by
  simp only [after, hp, afterRefresh]
  split
  · exact ⟨rfl, hRFC, show now + 1 + t.tRFC ≤ d + 1 by omega⟩
  · exact h

end After

end BankState

end DynamicCache.Dram
