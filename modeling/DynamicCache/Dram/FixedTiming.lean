import DynamicCache.Dram.Controller
import Mathlib.Tactic.Ring

/-!
# The fixed-timing scheduler (`CommandQueueFT.cpp`)

Time is cut into slots of `W = WORST_CASE_DELAY` cycles that go round the pids;
every refresh shifts the slots that follow by `tRFC`.  A slot sends the first
transaction of its pid, if there is one: the `ACTIVATE` at its start, the column
command as soon as it may be sent.
-/

namespace DynamicCache.Dram

open Lib

/-- The fields of `CommandQueue` that fixed timing uses. -/
structure FT where
  nextThread : Nat := 0
  prevActivate : Bool := false
  nextBusPacket : BusPacket := ⟨.refresh, 0, 0, 0, 0, 0⟩
  threadCounters : Nat → Nat := fun _ => 0

namespace FT

/-! ## The methods of the scheduler -/

/-- No bank of the rank is open or has to wait. -/
def quiet (c : Config) (s : State FT) (rank : Nat) : Bool :=
  decide (∀ b < c.numBanks, (s.bankStates rank b).currentBankState ≠ .rowActive ∧
    (s.bankStates rank b).nextActivate ≤ s.currentClockCycle)

/-- The flags after a refresh has been sent. -/
def refreshed (s : State FT) : State FT :=
  { s with
    refreshRank := noRank
    refreshWaiting := false
    refreshCounter := s.refreshCounter + 1 }

def refreshPopClosePage (c : Config) (s : State FT) : Option BusPacket × State FT :=
  if quiet c s s.refreshRank ∧ (s.bankStates s.refreshRank 0).currentBankState ≠ .powerDown then
    (some (refreshPacket s.refreshRank), refreshed s)
  else (none, s)

/-- The first issuable `ACTIVATE` of a queue, the packet behind it, and the queue
without the two. -/
def takeActivate (ok : BusPacket → Bool) :
    List BusPacket → Option (BusPacket × BusPacket × List BusPacket)
  | x :: y :: rest =>
    if ok x ∧ x.busPacketType = .activate then some (x, y, rest)
    else (takeActivate ok (y :: rest)).map fun (a, b, l) => (a, b, x :: l)
  | _ => none

/-- The loop over the ranks; the result has the rank as well. -/
def findActivate (c : Config) (s : State FT) :
    List Nat → Option (Nat × BusPacket × BusPacket × List BusPacket)
  | [] => none
  | r :: rs =>
    let queue := s.queues r s.sched.nextThread
    if queue ≠ [] ∧ ¬(r = s.refreshRank ∧ s.refreshWaiting = true) then
      match takeActivate (s.isIssuable c) queue with
      | some x => some (r, x)
      | none => findActivate c s rs
    else if queue ≠ [] then none
    else findActivate c s rs

/-- The number of the slot of `nextThread`, over all pids. -/
def slotNumber (c : Config) (f : FT) : Nat :=
  f.threadCounters f.nextThread * c.numPids + f.nextThread

/-- When the slot of `nextThread` starts, without the wrap of `unsigned`. -/
def slotStart (c : Config) (f : FT) (refreshCounter : Nat) : Nat :=
  slotNumber c f * c.timing.worstCaseDelay + c.timing.tRFC * refreshCounter

def worstStartTime (c : Config) (s : State FT) : Nat :=
  slotStart c s.sched s.refreshCounter % 2 ^ 32

/-- `threadCounters[nextThread]++; nextThread = (nextThread+1)%num_pids;` -/
def nextSlot (c : Config) (f : FT) : FT :=
  { f with
    threadCounters :=
      Function.update f.threadCounters f.nextThread (f.threadCounters f.nextThread + 1)
    nextThread := (f.nextThread + 1) % c.numPids }

/-- The packet to pop, if any, with the state that leaves. -/
def find (c : Config) (s : State FT) : Option (BusPacket × State FT) :=
  if s.sched.prevActivate then
    if s.isIssuable c s.sched.nextBusPacket then
      some (s.sched.nextBusPacket, { s with sched := { s.sched with prevActivate := false } })
    else none
  else if s.currentClockCycle = worstStartTime c s then
    (findActivate c s (List.range c.numRanks)).map fun (r, act, next, queue) =>
      (act, { s with
        queues := Function.update s.queues r
          (Function.update (s.queues r) s.sched.nextThread queue)
        sched := { s.sched with prevActivate := true, nextBusPacket := next } })
  else none

def normalPopClosePage (c : Config) (s : State FT) : Option BusPacket × State FT :=
  match find c s with
  | some (p, s') =>
    (some p, if p.busPacketType ≠ .activate then { s' with sched := nextSlot c s'.sched } else s')
  | none =>
    (none, if s.currentClockCycle = worstStartTime c s then { s with sched := nextSlot c s.sched }
      else s)

def methods : Methods FT := ⟨refreshPopClosePage, normalPopClosePage⟩

def init : State FT := { sched := {} }

/-! ## Device timings -/

end FT

namespace Timing

/-- What the slots are made for. -/
def Bounded (t : Timing) : Prop :=
  t.AL = 0 ∧ t.tCMD = 1 ∧ t.tRC ≤ t.worstCaseDelay ∧ t.tRRD ≤ t.worstCaseDelay ∧
    t.tFAW ≤ t.worstCaseDelay ∧ ∀ d ∈ t.columnDelays, d + t.tRCD ≤ t.worstCaseDelay

instance (t : Timing) : Decidable t.Bounded :=
  inferInstanceAs (Decidable (_ ∧ _ ∧ _ ∧ _ ∧ _ ∧ _))

/-- No timing that counts down is 0, a refresh takes at least as long as opening a
row, and a slot with a refresh is shorter than the range of `unsigned`. -/
def Regular (t : Timing) : Prop :=
  1 ≤ t.tRCD ∧ t.tRCD ≤ t.tRFC ∧ 1 ≤ t.tRP ∧ 1 ≤ t.tFAW ∧ 2 ≤ t.BL ∧
    t.worstCaseDelay + t.tRFC < 2 ^ 32

instance (t : Timing) : Decidable t.Regular :=
  inferInstanceAs (Decidable (_ ∧ _ ∧ _ ∧ _ ∧ _ ∧ _))

end Timing

namespace FT

/-- A configuration that fixed timing is made for. -/
structure Fits (c : Config) : Prop where
  pids : 1 ≤ c.numPids
  accesses : 1 ≤ c.totalRowAccesses
  bounded : c.timing.Bounded
  regular : c.timing.Regular
  lowPower : c.useLowPower = false

variable {x : Transaction} {a n : Nat} {c : Config} {f : FT} {xs : List Transaction} {l : List Nat}

/-! ## Slots -/

/-- The pids before `nextThread` are one slot ahead of the others. -/
def InRound (c : Config) (f : FT) : Prop :=
  f.nextThread < c.numPids ∧
    ∃ i, ∀ q < c.numPids, f.threadCounters q = if q < f.nextThread then i + 1 else i

theorem slotNumber_nextSlot (h : InRound c f) : slotNumber c (nextSlot c f) = slotNumber c f + 1 := by
  obtain ⟨hn, i, hi⟩ := h
  have hc : f.threadCounters f.nextThread = i := by rw [hi _ hn, if_neg (by omega)]
  unfold slotNumber nextSlot
  dsimp only
  by_cases hw : f.nextThread + 1 = c.numPids
  · -- the round is complete: pid 0 is next, and its counter has been increased
    have h0 : (f.nextThread + 1) % c.numPids = 0 := by rw [hw, Nat.mod_self]
    have hc0 : Function.update f.threadCounters f.nextThread (f.threadCounters f.nextThread + 1) 0 =
        i + 1 := by
      by_cases hz : f.nextThread = 0
      · rw [hz, Function.update_self, ← hz, hc]
      · rw [Function.update_of_ne (Ne.symm hz), hi 0 (by omega), if_pos (by omega)]
    rw [h0, hc0, hc, ← hw]
    ring
  · have h1 : (f.nextThread + 1) % c.numPids = f.nextThread + 1 := Nat.mod_eq_of_lt (by omega)
    rw [h1, Function.update_of_ne (by omega), hi _ (by omega), if_neg (by omega), hc, Nat.add_assoc]

theorem inRound_nextSlot (h : InRound c f) : InRound c (nextSlot c f) := by
  obtain ⟨hn, i, hi⟩ := h
  refine ⟨Nat.mod_lt _ (by omega), ?_⟩
  have hc : f.threadCounters f.nextThread = i := by rw [hi _ hn, if_neg (by omega)]
  unfold nextSlot
  dsimp only
  by_cases hw : f.nextThread + 1 = c.numPids
  · refine ⟨i + 1, fun q hq => ?_⟩
    rw [hw, Nat.mod_self, if_neg (by omega)]
    by_cases hqn : q = f.nextThread
    · rw [hqn, Function.update_self, hc]
    · rw [Function.update_of_ne hqn, hi q hq, if_pos (by omega)]
  · refine ⟨i, fun q hq => ?_⟩
    rw [Nat.mod_eq_of_lt (show f.nextThread + 1 < c.numPids by omega)]
    by_cases hqn : q = f.nextThread
    · rw [hqn, Function.update_self, hc, if_pos (by omega)]
    · rw [Function.update_of_ne hqn, hi q hq]
      by_cases hlt : q < f.nextThread
      · rw [if_pos hlt, if_pos (by omega)]
      · rw [if_neg hlt, if_neg (by omega)]

theorem slotStart_nextSlot (h : InRound c f) :
    slotStart c (nextSlot c f) n = slotStart c f n + c.timing.worstCaseDelay := by
  unfold slotStart
  rw [slotNumber_nextSlot h]
  ring

theorem slotStart_refresh : slotStart c f (n + 1) = slotStart c f n + c.timing.tRFC := by
  unfold slotStart
  ring

/-! ## The invariant -/

/-- When the first slot starts that has not started yet. -/
def upcoming (c : Config) (s : State FT) : Nat :=
  slotStart c s.sched s.refreshCounter +
    if s.sched.prevActivate then c.timing.worstCaseDelay else 0

/-- The slot of `nextThread` starts. -/
def Starts (c : Config) (s : State FT) : Prop :=
  s.sched.prevActivate = false ∧ s.currentClockCycle = slotStart c s.sched s.refreshCounter ∧
    s.refreshWaiting = false

/-- The row of `x` was opened at cycle `a` and its column command is next.
Refreshes of other ranks have shifted the slots by `d` since, and have taken the
command bus for `h` cycles after the row was ready. -/
structure Awaits (c : Config) (s : State FT) (x : Transaction) (a : Nat) : Prop where
  next : s.sched.nextBusPacket = x.column
  thread : x.threadID = s.sched.nextThread
  bank : x.bank < c.numBanks
  opened : (s.bankStates x.rank x.bank).Opened x.row
  read : (s.bankStates x.rank x.bank).nextRead = a + c.timing.tRCD
  write : (s.bankStates x.rank x.bank).nextWrite = a + c.timing.tRCD
  started : a < s.currentClockCycle
  shifted : ∃ d h, slotStart c s.sched s.refreshCounter = a + d ∧
    (d = 0 ∨ c.timing.tRFC ≤ d) ∧ h ≤ d ∧ s.currentClockCycle ≤ a + c.timing.tRCD + h

theorem commands_inj {ys : List Transaction} (h : commands xs = commands ys) : xs = ys := by
  induction xs generalizing ys with
  | nil =>
    cases ys with
    | nil => rfl
    | cons y ys => cases h
  | cons x xs ih =>
    cases ys with
    | nil => cases h
    | cons y ys =>
      simp only [commands, List.flatMap_cons, List.cons_append, List.nil_append, List.cons.injEq] at h
      obtain ⟨ha, hc, hr⟩ := h
      rw [ih hr]
      congr 1
      obtain ⟨w, _⟩ := x
      obtain ⟨w', _⟩ := y
      cases w <;> cases w' <;> simp_all [Transaction.column]

/-- What holds at the beginning of a cycle (`δ = 0`), and when the scheduler is
called in it (`δ = 1`). -/
structure Inv (c : Config) (δ : Nat) (s : State FT) : Prop where
  round : InRound c s.sched
  early : s.sched.prevActivate = false →
    s.currentClockCycle ≤ slotStart c s.sched s.refreshCounter
  column : s.sched.prevActivate = true → ∃ x a, Awaits c s x a
  queues : ∀ r q, ∃ xs, s.queues r q = commands xs ∧
    ∀ x ∈ xs, x.rank = r ∧ x.threadID = q ∧ x.bank < c.numBanks
  below : ∀ i j, (s.bankStates i j).Below (upcoming c s)
  settles : ∀ i j, (s.sched.prevActivate = true →
      ¬(i = s.sched.nextBusPacket.rank ∧ j = s.sched.nextBusPacket.bank)) →
    (s.bankStates i j).Settles c.timing (upcoming c s) (s.currentClockCycle + δ)
  faw : ∀ r, s.tFAWCountdown r = [] ∨
    ∃ e, s.tFAWCountdown r = [e] ∧ 1 ≤ e ∧ s.currentClockCycle + δ + e ≤ upcoming c s + 1
  accesses : ∀ r b, s.rowAccessCounters r b = 0
  requested : ∀ r, s.refreshRequested = some r → r ≤ s.currentClockCycle
  waiting : s.refreshWaiting = true → ∃ r, s.refreshRequested = some r ∧
    upcoming c s ≤ r + c.timing.worstCaseDelay
  ahead : upcoming c s ≤ s.currentClockCycle + c.timing.worstCaseDelay ∨
    ∃ r, s.refreshRequested = some r ∧
      upcoming c s ≤ r + c.timing.worstCaseDelay + c.timing.tRFC

section Cycle

variable {c : Config} {δ : Nat} {s : State FT}

/-- Refresh requests are far enough apart. -/
def Spaced (c : Config) (s : State FT) (refresh : Option Nat) : Prop :=
  refresh.isSome = true → ∀ r ∈ s.refreshRequested,
    r + c.timing.worstCaseDelay + c.timing.tRFC ≤ s.currentClockCycle

theorem Awaits.lt_upcoming (hF : Fits c) (h : Awaits c s x a) (hp : s.sched.prevActivate = true) :
    s.currentClockCycle < upcoming c s ∧
      ∀ y ∈ c.timing.columnDelays, s.currentClockCycle + y ≤ upcoming c s := by
  obtain ⟨-, -, hRP, -⟩ := hF.regular
  obtain ⟨-, -, -, -, -, hd⟩ := hF.bounded
  obtain ⟨d, k, hs, -, hk, hc⟩ := h.shifted
  have hW : c.timing.tRCD < c.timing.worstCaseDelay := by
    unfold Timing.worstCaseDelay; omega
  unfold upcoming
  rw [hs, if_pos hp]
  refine ⟨by omega, fun y hy => ?_⟩
  have := hd y hy
  omega

theorem Inv.le_upcoming (hF : Fits c) (hI : Inv c δ s) : s.currentClockCycle ≤ upcoming c s := by
  cases hp : s.sched.prevActivate with
  | false =>
    unfold upcoming
    rw [hp, if_neg (by decide)]
    exact hI.early hp
  | true =>
    obtain ⟨x, a, h⟩ := hI.column hp
    exact (h.lt_upcoming hF hp).1.le

theorem Inv.upcoming_lt (hF : Fits c) (hI : Inv c δ s) :
    upcoming c s < s.currentClockCycle + 2 ^ 32 := by
  obtain ⟨-, -, -, -, -, hw⟩ := hF.regular
  rcases hI.ahead with h | ⟨r, hr, h⟩
  · omega
  · have := hI.requested r hr
    omega

/-- The wrap of `worstStartTime` is never seen. -/
theorem Inv.worstStartTime_eq_iff (hF : Fits c) (hI : Inv c δ s)
    (hc : s.currentClockCycle < 2 ^ 32) :
    s.currentClockCycle = worstStartTime c s ↔
      s.currentClockCycle = slotStart c s.sched s.refreshCounter := by
  have h := hI.upcoming_lt hF
  unfold upcoming at h
  unfold worstStartTime
  omega

/-- No refresh is waiting when the next one is requested. -/
theorem Inv.not_waiting (hF : Fits c) (hI : Inv c δ s) {refresh : Option Nat}
    (hs : Spaced c s refresh) (hr : refresh.isSome = true) : s.refreshWaiting = false := by
  obtain ⟨hRCD, hRFC, -⟩ := hF.regular
  have hle := hI.le_upcoming hF
  rw [← Bool.not_eq_true]
  intro hw
  obtain ⟨r, hreq, hup⟩ := hI.waiting hw
  have := hs hr r hreq
  omega

theorem tickFAW_of_le_one {m : Nat} (h : l = [] ∨ ∃ e, l = [e] ∧ 1 ≤ e ∧ n + e ≤ m) :
    tickFAW l = [] ∨ ∃ e, tickFAW l = [e] ∧ 1 ≤ e ∧ n + 1 + e ≤ m := by
  rcases h with rfl | ⟨e, rfl, h1, h2⟩
  · exact .inl rfl
  · by_cases he : e = 1
    · subst he
      exact .inl rfl
    · obtain ⟨e', rfl⟩ : ∃ e', e = e' + 2 := ⟨e - 2, by omega⟩
      exact .inr ⟨e' + 1, rfl, by omega, by omega⟩

theorem Awaits.ready (h : Awaits c s x a) (refresh : Option Nat) : Awaits c (s.ready c refresh) x a := by
  refine { h with opened := ?_, read := ?_, write := ?_ }
  · show ((s.bankStates x.rank x.bank).tick c.timing).Opened x.row
    rw [h.opened.tick]
    exact h.opened
  · exact (BankState.tick_nextRead _ _).trans h.read
  · exact (BankState.tick_nextWrite _ _).trans h.write

theorem Inv.ready (hF : Fits c) (hI : Inv c 0 s) {refresh : Option Nat}
    (hs : Spaced c s refresh) : Inv c 1 (s.ready c refresh) := by
  obtain ⟨-, -, hRP, -⟩ := hF.regular
  have hup : upcoming c (s.ready c refresh) = upcoming c s := rfl
  refine
    { round := hI.round
      early := hI.early
      column := fun hp => ?_
      queues := hI.queues
      below := fun i j => (hI.below i j).tick
      settles := fun i j hij => (hI.settles i j hij).tick hRP
      faw := fun r => tickFAW_of_le_one (hI.faw r)
      accesses := hI.accesses
      requested := fun r hr => ?_
      waiting := fun hw => ?_
      ahead := ?_ }
  · obtain ⟨x, a, h⟩ := hI.column hp
    exact ⟨x, a, h.ready refresh⟩
  · cases refresh with
    | none => exact hI.requested r hr
    | some q => exact (Option.some.inj hr).ge
  · cases refresh with
    | none =>
      refine hI.waiting ?_
      simpa [State.ready] using hw
    | some q =>
      refine ⟨s.currentClockCycle, rfl, ?_⟩
      rcases hI.ahead with h | ⟨r, hr, h⟩
      · exact h
      · have := hs rfl r hr
        omega
  · rw [hup]
    cases refresh with
    | none => exact hI.ahead
    | some q =>
      rcases hI.ahead with h | ⟨r, hr, h⟩
      · exact .inl h
      · have := hs rfl r hr
        exact .inl (show upcoming c s ≤ s.currentClockCycle + _ by omega)

/-- A refresh is sent while a column command is awaited. -/
theorem Awaits.refresh_sent (hF : Fits c) (h : Awaits c s x a) (hq : quiet c s s.refreshRank = true) :
    Awaits c ((refreshed s).finish c (refreshPacket s.refreshRank)) x a := by
  obtain ⟨hRCD, hRFC, -⟩ := hF.regular
  -- the refreshed rank has no open row, so it is another one
  have hx : x.rank ≠ s.refreshRank := by
    intro he
    have hop := of_decide_eq_true hq x.bank h.bank
    rw [← he] at hop
    exact hop.1 h.opened.rowActive
  have hb : ((refreshed s).finish c (refreshPacket s.refreshRank)).bankStates x.rank x.bank =
      s.bankStates x.rank x.bank := by
    rw [State.finish_bankStates]
    exact if_neg hx
  obtain ⟨d, k, hs, hd, hk, hc⟩ := h.shifted
  refine
    { next := by rw [State.finish_sched]; exact h.next
      thread := by rw [State.finish_sched]; exact h.thread
      bank := h.bank
      opened := by rw [hb]; exact h.opened
      read := by rw [hb]; exact h.read
      write := by rw [hb]; exact h.write
      started := by rw [State.finish_currentClockCycle]; exact Nat.lt_succ_of_lt h.started
      shifted := ⟨d + c.timing.tRFC, k + 1, ?_, by omega, by omega, ?_⟩ }
  · rw [State.finish_sched, State.finish_refreshCounter]
    show slotStart c s.sched (s.refreshCounter + 1) = _
    rw [slotStart_refresh, hs, Nat.add_assoc]
  · show s.currentClockCycle + 1 ≤ _
    omega

theorem Awaits.passed (h : Awaits c s x a) (hlt : s.currentClockCycle < a + c.timing.tRCD) :
    Awaits c s.idle x a := by
  obtain ⟨d, k, hs, hd, hk, -⟩ := h.shifted
  exact { h with
    started := Nat.lt_succ_of_lt h.started
    shifted := ⟨d, k, hs, hd, hk, show s.currentClockCycle + 1 ≤ _ by omega⟩ }

/-- A refresh is sent: the slots that have not started move by `tRFC`. -/
theorem Inv.refresh_sent (hF : Fits c) (hI : Inv c 1 s) (hw : s.refreshWaiting = true)
    (hq : quiet c s s.refreshRank = true) : Inv c 0 ((refreshed s).finish c (refreshPacket s.refreshRank)) := by
  obtain ⟨hRCD, hRFC, -⟩ := hF.regular
  have hle := hI.le_upcoming hF
  have hup : upcoming c ((refreshed s).finish c (refreshPacket s.refreshRank)) =
      upcoming c s + c.timing.tRFC := by
    unfold upcoming
    rw [State.finish_sched, State.finish_refreshCounter]
    show slotStart c s.sched (s.refreshCounter + 1) + _ = _
    rw [slotStart_refresh]
    exact Nat.add_right_comm _ _ _
  refine
    { round := by rw [State.finish_sched]; exact hI.round
      early := fun hp => ?_
      column := fun hp => ?_
      queues := by rw [State.finish_queues]; exact hI.queues
      below := fun i j => ?_
      settles := fun i j hij => ?_
      faw := fun r => ?_
      accesses := by rw [State.finish_rowAccessCounters]; exact hI.accesses
      requested := fun r hr => ?_
      waiting := fun h => ?_
      ahead := ?_ }
  · rw [State.finish_sched] at hp ⊢
    rw [State.finish_refreshCounter]
    show s.currentClockCycle + 1 ≤ slotStart c s.sched (s.refreshCounter + 1)
    rw [slotStart_refresh]
    have := hI.early hp
    omega
  · rw [State.finish_sched] at hp
    obtain ⟨x, a, h⟩ := hI.column hp
    exact ⟨x, a, h.refresh_sent hF hq⟩
  · rw [hup, State.finish_bankStates]
    exact ((hI.below i j).mono (by omega)).after_refresh rfl (show s.currentClockCycle + _ ≤ _ by omega)
  · rw [State.finish_sched] at hij
    rw [hup, State.finish_bankStates]
    exact ((hI.settles i j hij).mono (by omega)).after_refresh rfl (by omega)
      (show s.currentClockCycle + _ ≤ _ by omega)
  · rw [hup, State.finish_tFAWCountdown_of_ne (by simp [refreshPacket])]
    rcases hI.faw r with h | ⟨e, he, h1, h2⟩
    · exact .inl h
    · exact .inr ⟨e, he, h1, show s.currentClockCycle + 1 + 0 + e ≤ _ by omega⟩
  · rw [State.finish_refreshRequested] at hr
    exact (hI.requested r hr).trans (Nat.le_succ _)
  · rw [State.finish_refreshWaiting] at h
    cases h
  · obtain ⟨r, hr, h⟩ := hI.waiting hw
    exact .inr ⟨r, by rw [State.finish_refreshRequested]; exact hr, by omega⟩

/-- The column command of the slot is sent; the next slot is the next pid's. -/
theorem Inv.column_sent (hF : Fits c) (hI : Inv c 1 s) (hp : s.sched.prevActivate = true) (hx : Awaits c s x a) :
    Inv c 0 (State.finish c { s with
      sched := nextSlot c { s.sched with prevActivate := false } } x.column) := by
  obtain ⟨hlt, hdelays⟩ := hx.lt_upcoming hF hp
  obtain ⟨-, -, hRP, -, hBL, -⟩ := hF.regular
  have hround : InRound c { s.sched with prevActivate := false } := hI.round
  have hslot : slotStart c (nextSlot c { s.sched with prevActivate := false }) s.refreshCounter =
      upcoming c s := by
    rw [slotStart_nextSlot hround]
    unfold upcoming
    rw [if_pos hp]
    rfl
  have hup : upcoming c (State.finish c { s with
      sched := nextSlot c { s.sched with prevActivate := false } } x.column) = upcoming c s := by
    conv_lhs => unfold upcoming
    rw [State.finish_sched, State.finish_refreshCounter]
    exact hslot
  refine
    { round := by rw [State.finish_sched]; exact inRound_nextSlot hround
      early := fun _ => ?_
      column := fun h => ?_
      queues := by rw [State.finish_queues]; exact hI.queues
      below := fun i j => ?_
      settles := fun i j _ => ?_
      faw := fun r => ?_
      accesses := by rw [State.finish_rowAccessCounters]; exact hI.accesses
      requested := fun r hr => ?_
      waiting := fun h => ?_
      ahead := ?_ }
  · rw [State.finish_sched, State.finish_refreshCounter, hslot]
    exact hlt
  · rw [State.finish_sched] at h
    cases h
  · rw [hup, State.finish_bankStates]
    exact (hI.below i j).after_column x.column_type hdelays
  · rw [hup, State.finish_bankStates]
    by_cases hij : i = x.column.rank ∧ j = x.column.bank
    · obtain ⟨rfl, rfl⟩ := hij
      have hr := hdelays (c.timing.readToPreDelay + c.timing.tRP) (by simp [Timing.columnDelays])
      have hw := hdelays (c.timing.writeToPreDelay + c.timing.tRP) (by simp [Timing.columnDelays])
      exact hx.opened.settles_after x.column_type hBL (fun _ => by rw [Nat.add_assoc]; exact hr)
        fun _ => by rw [Nat.add_assoc]; exact hw
    · refine (hI.settles i j fun _ => by rw [hx.next]; exact hij).congr ?_
      exact (BankState.after_phase_of_ne x.column_ne_refresh hij).1
  · rw [hup, State.finish_tFAWCountdown_of_ne x.column_ne_activate]
    exact hI.faw r
  · rw [State.finish_refreshRequested] at hr
    exact (hI.requested r hr).trans (Nat.le_succ _)
  · rw [State.finish_refreshWaiting] at h
    rw [hup, State.finish_refreshRequested]
    exact hI.waiting h
  · rw [hup, State.finish_refreshRequested]
    exact hI.ahead.imp_left fun h => show upcoming c s ≤ s.currentClockCycle + 1 + _ by omega

/-- The state the scheduler leaves when a slot starts with the `ACTIVATE` of `x`. -/
def started (s : State FT) (x : Transaction) (xs : List Transaction) : State FT :=
  { s with
    queues := Function.update s.queues x.rank
      (Function.update (s.queues x.rank) s.sched.nextThread (commands xs))
    sched := { s.sched with prevActivate := true, nextBusPacket := x.column } }

section Start

variable (hI : Inv c 1 s) (hp : s.sched.prevActivate = false)
  (hc : s.currentClockCycle = slotStart c s.sched s.refreshCounter)

include hp hc

theorem upcoming_of_start : upcoming c s = s.currentClockCycle := by
  unfold upcoming
  rw [hp, if_neg (by decide), hc]
  rfl

include hI

/-- When a slot starts, every bank is idle and ready. -/
theorem Inv.idle (i j : Nat) :
    (s.bankStates i j).currentBankState = .idle ∧ (s.bankStates i j).stateChangeCountdown = 0 ∧
      (s.bankStates i j).Below s.currentClockCycle := by
  have hup := upcoming_of_start hp hc
  have hidle := (hI.settles i j (by simp [hp])).idle (by omega)
  exact ⟨hidle.1, hidle.2, hup ▸ hI.below i j⟩

/-- When a slot starts, the activation windows of earlier slots are over. -/
theorem Inv.faw_nil (r : Nat) : s.tFAWCountdown r = [] := by
  have hup := upcoming_of_start hp hc
  rcases hI.faw r with h | ⟨e, -, h1, h2⟩
  · exact h
  · omega

theorem Inv.awaits_started (hF : Fits c) (hx : x.threadID = s.sched.nextThread) (hb : x.bank < c.numBanks) :
    Awaits c ((started s x xs).finish c x.activate) x s.currentClockCycle := by
  obtain ⟨hAL, -⟩ := hF.bounded
  obtain ⟨hRCD, -⟩ := hF.regular
  obtain ⟨-, hn, hr, hw, -⟩ := hI.idle hp hc x.rank x.bank
  have hbank : ((started s x xs).finish c x.activate).bankStates x.rank x.bank =
      (s.bankStates x.rank x.bank).after c.timing s.currentClockCycle x.activate x.rank x.bank :=
    State.finish_bankStates _ _ _
  refine
    { next := by rw [State.finish_sched]; rfl
      thread := by rw [State.finish_sched]; exact hx
      bank := hb
      opened := by rw [hbank]; exact BankState.opened_after_activate rfl hn
      read := ?_
      write := ?_
      started := Nat.lt_succ_self _
      shifted := ⟨0, 0, ?_, .inl rfl, le_rfl, ?_⟩ }
  · rw [hbank]
    simp only [BankState.after, Transaction.activate, BankState.afterActivate, ne_eq,
      not_true_eq_false, if_false, hAL]
    omega
  · rw [hbank]
    simp only [BankState.after, Transaction.activate, BankState.afterActivate, ne_eq,
      not_true_eq_false, if_false, hAL]
    omega
  · rw [State.finish_sched, State.finish_refreshCounter, hc]
    rfl
  · show s.currentClockCycle + 1 ≤ _
    omega

/-- When a slot starts, every `ACTIVATE` can be sent. -/
theorem Inv.issuable {q : BusPacket} (hq : q.busPacketType = .activate) : s.isIssuable c q = true := by
  obtain ⟨hidle, -, -, -, hb⟩ := hI.idle hp hc q.rank q.bank
  simp only [State.isIssuable, hq, hidle, hI.faw_nil hp hc, List.length_nil]
  exact decide_eq_true ⟨.inl trivial, hb, by omega⟩

theorem Inv.quiet (r : Nat) : quiet c s r = true := by
  refine decide_eq_true fun b _ => ?_
  obtain ⟨hidle, -, -, -, hb⟩ := hI.idle hp hc r b
  exact ⟨by rw [hidle]; decide, hb⟩

end Start

/-- The slot of `nextThread` starts with the `ACTIVATE` of `x`. -/
theorem Inv.activate_sent (hF : Fits c) (hI : Inv c 1 s) (hs : Starts c s)
    (hx : x.threadID = s.sched.nextThread) (hq : s.queues x.rank s.sched.nextThread = commands (x :: xs)) :
    Inv c 0 ((started s x xs).finish c x.activate) := by
  obtain ⟨hp, hc, hw⟩ := hs
  obtain ⟨hAL, -, hRC, hRRD, hFAW, -⟩ := hF.bounded
  obtain ⟨hRCD, -, hRP, hFAW1, -⟩ := hF.regular
  have hW : c.timing.tRCD ≤ c.timing.worstCaseDelay := Nat.le_add_left _ _
  have hup := upcoming_of_start hp hc
  -- the queue holds `x` as it was enqueued
  obtain ⟨ys, hys, hmem⟩ := hI.queues x.rank s.sched.nextThread
  obtain rfl : ys = x :: xs := commands_inj (hys.symm.trans hq)
  have hsched : ((started s x xs).finish c x.activate).sched =
      { s.sched with prevActivate := true, nextBusPacket := x.column } := State.finish_sched _
  have hup' : upcoming c ((started s x xs).finish c x.activate) =
      s.currentClockCycle + c.timing.worstCaseDelay := by
    unfold upcoming
    rw [hsched, State.finish_refreshCounter, hc]
    rfl
  have hbank : ∀ i j, ((started s x xs).finish c x.activate).bankStates i j =
      (s.bankStates i j).after c.timing s.currentClockCycle x.activate i j :=
    State.finish_bankStates _
  refine
    { round := by rw [hsched]; exact hI.round
      early := fun h => by rw [hsched] at h; cases h
      column := fun _ => ⟨x, s.currentClockCycle,
        hI.awaits_started hp hc hF hx (hmem x List.mem_cons_self).2.2⟩
      queues := fun r q => ?_
      below := fun i j => ?_
      settles := fun i j hij => ?_
      faw := fun r => ?_
      accesses := by rw [State.finish_rowAccessCounters]; exact hI.accesses
      requested := fun r hr => ?_
      waiting := fun h => ?_
      ahead := .inl ?_ }
  · rw [State.finish_queues]
    unfold started
    dsimp only
    by_cases hr : r = x.rank
    · subst hr
      rw [Function.update_self]
      by_cases hqn : q = s.sched.nextThread
      · subst hqn
        rw [Function.update_self]
        exact ⟨xs, rfl, fun y hy => hmem y (List.mem_cons_of_mem x hy)⟩
      · rw [Function.update_of_ne hqn]
        exact hI.queues _ q
    · rw [Function.update_of_ne hr]
      exact hI.queues r q
  · rw [hup', hbank]
    exact ((hI.below i j).mono (by omega)).after_activate rfl (by omega) (by omega) (by omega)
  · rw [hsched] at hij
    have hne := hij rfl
    rw [hup', hbank]
    refine ((hI.settles i j (by simp [hp])).mono (by omega)).congr ?_
    exact (BankState.after_phase_of_ne (p := x.activate) (by simp [Transaction.activate]) hne).1
  · have hfaw := hI.faw_nil hp hc r
    rw [hup', State.finish_tFAWCountdown rfl]
    split
    · refine .inr ⟨c.timing.tFAW, by rw [show (started s x xs).tFAWCountdown r = [] from hfaw]; rfl,
        hFAW1, ?_⟩
      show s.currentClockCycle + 1 + 0 + c.timing.tFAW ≤ _
      omega
    · exact .inl hfaw
  · rw [State.finish_refreshRequested] at hr
    exact (hI.requested r hr).trans (Nat.le_succ _)
  · rw [State.finish_refreshWaiting] at h
    rw [show s.refreshWaiting = true from h] at hw
    cases hw
  · rw [hup']
    show _ ≤ s.currentClockCycle + 1 + _
    omega

/-- The slot of `nextThread` starts and nothing is sent in it. -/
theorem Inv.slot_skipped (hF : Fits c) (hI : Inv c 1 s) (hs : Starts c s) :
    Inv c 0 (State.idle { s with sched := nextSlot c s.sched }) := by
  obtain ⟨hp, hc, hw⟩ := hs
  obtain ⟨-, -, hRP, -⟩ := hF.regular
  have hW : 0 < c.timing.worstCaseDelay := by unfold Timing.worstCaseDelay; omega
  have hslot : slotStart c (nextSlot c s.sched) s.refreshCounter =
      s.currentClockCycle + c.timing.worstCaseDelay := by
    rw [slotStart_nextSlot hI.round, hc]
  have hpn : (nextSlot c s.sched).prevActivate = false := hp
  have hup := upcoming_of_start hp hc
  have hup' : upcoming c (State.idle { s with sched := nextSlot c s.sched }) =
      s.currentClockCycle + c.timing.worstCaseDelay := by
    show slotStart c (nextSlot c s.sched) s.refreshCounter + _ = _
    rw [hslot]
    show _ + (if (nextSlot c s.sched).prevActivate = true then _ else 0) = _
    rw [hpn]
    rfl
  refine
    { round := inRound_nextSlot hI.round
      early := fun _ => ?_
      column := fun h => ?_
      queues := hI.queues
      below := fun i j => ?_
      settles := fun i j _ => ?_
      faw := fun r => ?_
      accesses := hI.accesses
      requested := fun r hr => (hI.requested r hr).trans (Nat.le_succ _)
      waiting := fun h => ?_
      ahead := .inl ?_ }
  · show s.currentClockCycle + 1 ≤ slotStart c (nextSlot c s.sched) s.refreshCounter
    omega
  · rw [show (nextSlot c s.sched).prevActivate = true from h] at hpn
    cases hpn
  · rw [hup']
    exact (hI.below i j).mono (by omega)
  · rw [hup']
    exact (hI.settles i j (by simp [hp])).mono (by omega)
  · rw [hup']
    exact (hI.faw r).imp_right fun ⟨e, he, h1, h2⟩ =>
      ⟨e, he, h1, show s.currentClockCycle + 1 + 0 + e ≤ _ by omega⟩
  · rw [show s.refreshWaiting = true from h] at hw
    cases hw
  · rw [hup']
    show _ ≤ s.currentClockCycle + 1 + _
    omega

/-- Nothing happens in a cycle between the commands of a slot, or between slots. -/
theorem Inv.passed (hI : Inv c 1 s)
    (hearly : s.sched.prevActivate = false →
      s.currentClockCycle < slotStart c s.sched s.refreshCounter)
    (hcol : ∀ x a, s.sched.prevActivate = true → Awaits c s x a →
      s.currentClockCycle < a + c.timing.tRCD) : Inv c 0 s.idle := by
  refine
    { round := hI.round
      early := hearly
      column := fun hp => ?_
      queues := hI.queues
      below := hI.below
      settles := hI.settles
      faw := hI.faw
      accesses := hI.accesses
      requested := fun r hr => (hI.requested r hr).trans (Nat.le_succ _)
      waiting := hI.waiting
      ahead := hI.ahead.imp_left fun h => show upcoming c s ≤ s.currentClockCycle + 1 + _ by omega }
  obtain ⟨x, a, h⟩ := hI.column hp
  exact ⟨x, a, h.passed (hcol x a hp h)⟩

/-! ## What a cycle can do -/

/-- The first rank of the list with a queue that is not empty, and its two first
packets. -/
def firstPair (queue : Nat → List BusPacket) :
    List Nat → Option (Nat × BusPacket × BusPacket × List BusPacket)
  | [] => none
  | r :: rs =>
    match queue r with
    | x :: y :: rest => some (r, x, y, rest)
    | _ => firstPair queue rs

theorem firstPair_some {queue : Nat → List BusPacket} {r : Nat} {x y : BusPacket} {rest : List BusPacket}
    (h : firstPair queue l = some (r, x, y, rest)) : queue r = x :: y :: rest := by
  induction l with
  | nil => cases h
  | cons r' l ih =>
    unfold firstPair at h
    split at h
    · next x' y' rest' he =>
      obtain ⟨rfl, rfl, rfl, rfl⟩ := h
      exact he
    · exact ih h

theorem findActivate_eq (hw : s.refreshWaiting = false)
    (hq : ∀ r q, ∃ xs, s.queues r q = commands xs)
    (hi : ∀ q : BusPacket, q.busPacketType = .activate → s.isIssuable c q = true) (l : List Nat) :
    findActivate c s l = firstPair (fun r => s.queues r s.sched.nextThread) l := by
  induction l with
  | nil => rfl
  | cons r l ih =>
    unfold findActivate firstPair
    obtain ⟨xs, hxs⟩ := hq r s.sched.nextThread
    rw [hxs, hw]
    cases xs with
    | nil => simpa [commands] using ih
    | cons x xs =>
      have hx := hi x.activate rfl
      simp [commands, takeActivate, hx, show x.activate.busPacketType = .activate from rfl]

/-- The column command that is awaited can be sent `tRCD` cycles after its row was
opened. -/
theorem Awaits.isIssuable_iff (hF : Fits c) (hI : Inv c δ s) (h : Awaits c s x a) :
    s.isIssuable c s.sched.nextBusPacket = true ↔ a + c.timing.tRCD ≤ s.currentClockCycle := by
  have hacc := hF.accesses
  have hst := h.opened.rowActive
  rw [h.next]
  cases hwr : x.write <;>
    simp [State.isIssuable, Transaction.column, hwr, hst, h.opened.2, h.read, h.write,
      hI.accesses, show 0 < c.totalRowAccesses from hacc]

/-- The results a cycle can have, with the conditions under which it has them. -/
inductive Outcome (c : Config) (s : State FT) : Option BusPacket × State FT → Prop
  | refresh (hw : s.refreshWaiting = true) (hq : FT.quiet c s s.refreshRank = true) :
    Outcome c s (some (refreshPacket s.refreshRank),
      (refreshed s).finish c (refreshPacket s.refreshRank))
  | column {x : Transaction} {a : Nat} (hr : ¬(s.refreshWaiting = true ∧ FT.quiet c s s.refreshRank = true))
    (hp : s.sched.prevActivate = true) (hx : Awaits c s x a)
    (ha : a + c.timing.tRCD ≤ s.currentClockCycle) :
    Outcome c s (some x.column, State.finish c
      { s with sched := nextSlot c { s.sched with prevActivate := false } } x.column)
  | wait {x : Transaction} {a : Nat} (hr : ¬(s.refreshWaiting = true ∧ FT.quiet c s s.refreshRank = true))
    (hp : s.sched.prevActivate = true) (hx : Awaits c s x a)
    (ha : s.currentClockCycle < a + c.timing.tRCD) : Outcome c s (none, s.idle)
  | early (hp : s.sched.prevActivate = false)
    (hc : s.currentClockCycle < slotStart c s.sched s.refreshCounter) : Outcome c s (none, s.idle)
  | activate {x : Transaction} {xs : List Transaction} (hs : Starts c s) (hx : x.threadID = s.sched.nextThread)
    (hq : firstPair (fun r => s.queues r s.sched.nextThread) (List.range c.numRanks) =
      some (x.rank, x.activate, x.column, commands xs)) :
    Outcome c s (some x.activate, (started s x xs).finish c x.activate)
  | skip (hs : Starts c s)
    (hq : firstPair (fun r => s.queues r s.sched.nextThread) (List.range c.numRanks) = none) :
    Outcome c s (none, State.idle { s with sched := nextSlot c s.sched })

theorem popClosePage_eq (hI : Inv c 1 s) : s.popClosePage c methods =
    if s.refreshWaiting = true ∧ FT.quiet c s s.refreshRank = true then
      (some (refreshPacket s.refreshRank), refreshed s)
    else normalPopClosePage c s := by
  -- low power is off
  have hpd : (s.bankStates s.refreshRank 0).currentBankState ≠ .powerDown := by
    intro h
    by_cases hx : s.sched.prevActivate = true ∧ s.refreshRank = s.sched.nextBusPacket.rank ∧
        0 = s.sched.nextBusPacket.bank
    · obtain ⟨x, a, hA⟩ := hI.column hx.1
      have hb : s.bankStates s.refreshRank 0 = s.bankStates x.rank x.bank := by
        rw [hx.2.1, hx.2.2, hA.next]
        rfl
      rw [hb, hA.opened.rowActive] at h
      cases h
    · have hs := hI.settles s.refreshRank 0 fun hp hij => hx ⟨hp, hij⟩
      unfold BankState.Settles BankState.phase at hs
      rw [h] at hs
      exact hs
  simp only [State.popClosePage, methods, refreshPopClosePage]
  by_cases hw : s.refreshWaiting = true
  · by_cases hq : FT.quiet c s s.refreshRank = true
    · rw [if_pos hw, if_pos ⟨hq, hpd⟩, if_pos ⟨hw, hq⟩]
    · rw [if_pos hw, if_neg fun h => hq h.1, if_neg fun h => hq h.2]
  · rw [if_neg hw, if_neg fun h => hw h.1]

/-- A queue that is not empty begins with a transaction. -/
theorem Inv.firstPair_eq (hI : Inv c δ s) {r : Nat} {y z : BusPacket} {rest : List BusPacket}
    (h : firstPair (fun r => s.queues r s.sched.nextThread) l = some (r, y, z, rest)) :
    ∃ x xs, x.rank = r ∧ x.threadID = s.sched.nextThread ∧ y = x.activate ∧ z = x.column ∧
      rest = commands xs ∧ s.queues r s.sched.nextThread = commands (x :: xs) := by
  have hq := firstPair_some h
  obtain ⟨xs, hxs, hmem⟩ := hI.queues r s.sched.nextThread
  cases xs with
  | nil =>
    rw [hxs] at hq
    cases hq
  | cons x xs =>
    obtain ⟨h1, h2, -⟩ := hmem x List.mem_cons_self
    refine ⟨x, xs, h1, h2, ?_⟩
    rw [hxs] at hq
    simp only [commands, List.flatMap_cons, List.cons_append, List.nil_append, List.cons.injEq] at hq
    exact ⟨hq.1.symm, hq.2.1.symm, hq.2.2.symm, hxs⟩

theorem Inv.outcome (hF : Fits c) (hI : Inv c 1 s) (hclk : s.currentClockCycle < 2 ^ 32) :
    Outcome c s (State.conclude c (s.popClosePage c methods)) := by
  rw [popClosePage_eq hI]
  have hiff := hI.worstStartTime_eq_iff hF hclk
  by_cases hr : s.refreshWaiting = true ∧ FT.quiet c s s.refreshRank = true
  · rw [if_pos hr]
    exact .refresh hr.1 hr.2
  rw [if_neg hr]
  unfold normalPopClosePage find State.conclude
  cases hp : s.sched.prevActivate with
  | true =>
    obtain ⟨x, a, hx⟩ := hI.column hp
    by_cases ha : a + c.timing.tRCD ≤ s.currentClockCycle
    · rw [if_pos rfl, if_pos ((hx.isIssuable_iff hF hI).2 ha), hx.next]
      dsimp only
      rw [if_pos x.column_ne_activate]
      exact .column hr hp hx ha
    · -- the slot has been counted already: its start is not now
      have hns : s.currentClockCycle ≠ worstStartTime c s := by
        obtain ⟨-, hRFC, -⟩ := hF.regular
        obtain ⟨d, k, hs, hd, -, -⟩ := hx.shifted
        have := hx.started
        omega
      rw [if_pos rfl, if_neg fun h => ha ((hx.isIssuable_iff hF hI).1 h)]
      rw [if_neg hns]
      exact .wait hr hp hx (by omega)
  | false =>
    by_cases hs : s.currentClockCycle = slotStart c s.sched s.refreshCounter
    · have hw : s.refreshWaiting = false := by
        rw [← Bool.not_eq_true]
        exact fun h => hr ⟨h, hI.quiet hp hs _⟩
      have hfind := findActivate_eq hw (fun r q => (hI.queues r q).imp fun _ h => h.1)
        (fun q hq => hI.issuable hp hs hq) (List.range c.numRanks)
      rw [if_pos (hiff.2 hs), hfind]
      cases hf : firstPair (fun r => s.queues r s.sched.nextThread) (List.range c.numRanks) with
      | none =>
        rw [if_pos (hiff.2 hs)]
        exact .skip ⟨hp, hs, hw⟩ hf
      | some v =>
        obtain ⟨r, y, z, rest⟩ := v
        obtain ⟨x, xs, rfl, hx, rfl, rfl, rfl, -⟩ := hI.firstPair_eq hf
        exact .activate ⟨hp, hs, hw⟩ hx hf
    · rw [if_neg (mt hiff.1 hs)]
      rw [if_neg (mt hiff.1 hs)]
      have := hI.early hp
      exact .early hp (by omega)

theorem Outcome.inv (hF : Fits c) (hI : Inv c 1 s) {out : Option BusPacket × State FT}
    (h : Outcome c s out) : Inv c 0 out.2 := by
  cases h with
  | refresh hw hq => exact hI.refresh_sent hF hw hq
  | column hr hp hx ha => exact hI.column_sent hF hp hx
  | @wait x a hr hp hx ha =>
    refine hI.passed (fun h => by rw [hp] at h; cases h) fun y b _ hy => ?_
    have hxy : y.rank = x.rank ∧ y.bank = x.bank := by
      have he := hy.next.symm.trans hx.next
      exact ⟨congrArg BusPacket.rank he, congrArg BusPacket.bank he⟩
    have hb := hy.read
    rw [hxy.1, hxy.2, hx.read] at hb
    omega
  | early hp hc => exact hI.passed (fun _ => hc) fun x a h => by rw [hp] at h; cases h
  | activate hs hx hq =>
    obtain ⟨y, ys, h1, h2, h3, h4, h5, h6⟩ := hI.firstPair_eq hq
    rw [show commands (y :: ys) = y.activate :: y.column :: commands ys from rfl, ← h3, ← h4, ← h5] at h6
    exact hI.activate_sent hF hs hx h6
  | skip hs => exact hI.slot_skipped hF hs

end Cycle

end FT

end DynamicCache.Dram
