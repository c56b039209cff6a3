import DynamicCache.Dram.TemporalPartition
import Mathlib.Algebra.BigOperators.Group.Finset.Basic
import Mathlib.Algebra.Order.BigOperators.Group.Finset

/-!
# Turns of temporal partitioning end with a quiescent device

Every column command delays those of the other open rows by at most 6 cycles; a
write delays reads by 18, but then reads are behind all writes.  So `l` open rows
are closed in time if the last `ACTIVATE` was sent when there were
`WORST_CASE_DELAY + 6 * (l - 1)` cycles of the turn left (`Draining`).

`CommandQueueTP` opens rows in the first tenth of a turn only, at most one a cycle,
which leaves enough time whatever is enqueued (`turn_leaves_quiet`), unless a rank is
powered up at the end of the turn (`powered_up_at_turn_end`).
`CommandQueueTPD` opens rows until `WORST_CASE_DELAY` cycles before the end, which
is enough for one row only (`second_row_outlives_turn`,
`turn_leaves_closed_of_room`).
-/

namespace DynamicCache.Dram

open Lib

/-! ## The delays of the device -/

namespace BankState

variable (b : BankState) (now : Nat) {i j : Nat} {x : Transaction}

/-- The bounds that a column command puts on another bank. -/
theorem after_column_of_ne (h : ¬(i = x.rank ∧ j = x.bank)) :
    (b.after ddr3Sg15 now x.column i j).nextActivate = b.nextActivate ∧
      (b.after ddr3Sg15 now x.column i j).nextWrite ≤ max (now + 6) b.nextWrite ∧
      (b.after ddr3Sg15 now x.column i j).nextRead ≤
        max (now + if x.write then 18 else 5) b.nextRead := by
  have h1 : ddr3Sg15.readToWriteDelay = 6 := rfl
  have h2 : ddr3Sg15.writeToReadDelayB = 18 := rfl
  have h3 : ddr3Sg15.writeToReadDelayR = 4 := rfl
  have h4 : ddr3Sg15.tRTRS = 1 := rfl
  have h5 : ddr3Sg15.tCCD = 4 := rfl
  have h6 : ddr3Sg15.BL = 8 := rfl
  obtain ⟨write, addr, row, rank, bank, tid⟩ := x
  by_cases hi : i = rank
  · have hj : j ≠ bank := fun hj => h ⟨hi, hj⟩
    cases write with
    | true =>
      simp only [Transaction.column, after, afterWrite, hi, hj, ne_eq, not_true_eq_false,
        not_false_eq_true, if_true, if_false, true_and, h2, h5, h6]
      omega
    | false =>
      simp only [Transaction.column, after, afterRead, hi, hj, ne_eq, not_true_eq_false,
        not_false_eq_true, if_true, if_false, Bool.false_eq_true, true_and, h1, h5, h6]
      omega
  · cases write with
    | true =>
      simp only [Transaction.column, after, afterWrite, hi, ne_eq, not_false_eq_true, if_true,
        h3, h4, h6]
      split
      · dsimp only
        omega
      · omega
    | false =>
      simp only [Transaction.column, after, afterRead, hi, ne_eq, not_false_eq_true, if_true,
        if_false, Bool.false_eq_true, h1, h4, h6]
      split
      · dsimp only
        omega
      · omega

/-- The bank of a column command can do nothing before its next `ACTIVATE`. -/
theorem after_column_self :
    (b.after ddr3Sg15 now x.column x.rank x.bank).nextActivate =
        max (now + if x.write then 33 else 15) b.nextActivate ∧
      (b.after ddr3Sg15 now x.column x.rank x.bank).nextWrite =
        (b.after ddr3Sg15 now x.column x.rank x.bank).nextActivate ∧
      (b.after ddr3Sg15 now x.column x.rank x.bank).nextRead =
        (b.after ddr3Sg15 now x.column x.rank x.bank).nextActivate := by
  obtain ⟨write, addr, row, rank, bank, tid⟩ := x
  cases write with
  | true =>
    simp only [Transaction.column, after, afterWrite, ne_eq, not_true_eq_false, if_true, if_false]
    exact ⟨rfl, trivial, trivial⟩
  | false =>
    simp only [Transaction.column, after, afterRead, ne_eq, not_true_eq_false, if_true, if_false,
      Bool.false_eq_true]
    exact ⟨rfl, trivial, trivial⟩

/-- The bounds that an `ACTIVATE` puts on any bank. -/
theorem after_activate_le {b' : BankState} (h : b.after ddr3Sg15 now x.activate i j = b') :
    b'.nextWrite ≤ max (now + 10) b.nextWrite ∧ b'.nextRead ≤ max (now + 10) b.nextRead ∧
      b'.nextWrite ≤ max b.nextWrite b'.nextActivate ∧ b'.nextRead ≤ max b.nextRead b'.nextActivate ∧
      b.nextActivate ≤ b'.nextActivate ∧ b'.nextActivate ≤ max (now + 34) b.nextActivate := by
  have h1 : ddr3Sg15.tRRD = 4 := rfl
  have h2 : ddr3Sg15.tRC = 34 := rfl
  have h3 : ddr3Sg15.tRCD = 10 := rfl
  have h4 : ddr3Sg15.AL = 0 := rfl
  subst h
  simp only [Transaction.activate, after, afterActivate, h1, h2, h3, h4]
  split
  · omega
  · split
    · dsimp only
      omega
    · dsimp only
      omega

end BankState

theorem ddr3Sg15_closes : ddr3Sg15.Closes :=
  ⟨by decide, by decide, by decide, by decide, by decide, by decide⟩

namespace TP

variable {x : Transaction} {gs₁ gs₂ : List Group} {c : Config} {clock m pid δ : Nat}
  {gs : Nat → Nat → List Group}

/-! ## The drain of the open rows -/

/-- The number of rows of `pid` that are open. -/
def openRows (c : Config) (pid : Nat) (gs : Nat → Nat → List Group) : Nat :=
  ∑ r ∈ Finset.range c.numRanks, (lones (gs r pid)).length

theorem openRows_setGroups {r : Nat} (pid : Nat) (gs : Nat → Nat → List Group) (hs : List Group)
    (hr : r < c.numRanks) : openRows c pid (setGroups gs r pid hs) + (lones (gs r pid)).length =
      openRows c pid gs + (lones hs).length := by
  have hmem := Finset.mem_range.2 hr
  have hrest : ∑ r' ∈ (Finset.range c.numRanks).erase r,
      (lones (setGroups gs r pid hs r' pid)).length =
      ∑ r' ∈ (Finset.range c.numRanks).erase r, (lones (gs r' pid)).length := by
    refine Finset.sum_congr rfl fun r' hr' => ?_
    rw [setGroups_of_ne fun h => Finset.ne_of_mem_erase hr' h.1]
  unfold openRows
  rw [← Finset.add_sum_erase _ _ hmem, ← Finset.add_sum_erase _ _ hmem, hrest, setGroups_self]
  omega

theorem openRows_activate (hin : x.InRange c) (h : gs x.rank x.threadID = gs₁ ++ ⟨x, true⟩ :: gs₂) :
    openRows c x.threadID (setGroups gs x.rank x.threadID (gs₁ ++ ⟨x, false⟩ :: gs₂)) =
      openRows c x.threadID gs + 1 := by
  have hsum := openRows_setGroups x.threadID gs (gs₁ ++ ⟨x, false⟩ :: gs₂) hin.1
  rw [(lones_activate_perm h).length_eq, List.length_cons] at hsum
  omega

theorem openRows_column (hin : x.InRange c) (h : gs x.rank x.threadID = gs₁ ++ ⟨x, false⟩ :: gs₂) :
    openRows c x.threadID (setGroups gs x.rank x.threadID (gs₁ ++ gs₂)) + 1 =
      openRows c x.threadID gs := by
  have hsum := openRows_setGroups x.threadID gs (gs₁ ++ gs₂) hin.1
  rw [(lones_column_perm h).length_eq, List.length_cons] at hsum
  omega

/-! ### How far ahead commands are put off -/

/-- A closed bank waits for its next `ACTIVATE`, or not long; an open row waits for
its column command. -/
structure Fresh (c : Config) (gs : Nat → Nat → List Group) (s : State TP) : Prop where
  banks : ∀ r < c.numRanks, ∀ b < c.numBanks,
    (s.bankStates r b).nextWrite ≤ max (s.currentClockCycle + 5) (s.bankStates r b).nextActivate ∧
      (s.bankStates r b).nextRead ≤ max (s.currentClockCycle + 17) (s.bankStates r b).nextActivate
  rows : ∀ r q, ∀ x ∈ lones (gs r q),
    (s.bankStates r x.bank).nextWrite ≤ s.currentClockCycle + 9 ∧
      (s.bankStates r x.bank).nextRead ≤ s.currentClockCycle + 17

section Fresh

variable {c : Config} {gs : Nat → Nat → List Group} {s s' : State TP}

theorem Fresh.enqueued (hF : Fresh c gs s) :
    Fresh c (setGroups gs x.rank x.threadID (gs x.rank x.threadID ++ [⟨x, true⟩]))
      (s.enqueued x) :=
  ⟨hF.banks, fun r q y hy => hF.rows r q y (lones_setGroups_enqueue r q ▸ hy)⟩

theorem Fresh.ready (hF : Fresh c gs s) (refresh : Option Nat) :
    Fresh c gs (s.ready c refresh) := by
  refine ⟨fun r hr b hb => ?_, fun r q x hx => ?_⟩
  · simpa only [State.ready, BankState.tick_nextWrite, BankState.tick_nextRead,
      BankState.tick_nextActivate] using hF.banks r hr b hb
  · simpa only [State.ready, BankState.tick_nextWrite, BankState.tick_nextRead]
      using hF.rows r q x hx

theorem Fresh.activate (hc : c.timing = ddr3Sg15) (hB : Base c 1 gs s) (hF : Fresh c gs s) (left : Left c s s')
    (hin : x.InRange c) (h : gs x.rank x.threadID = gs₁ ++ ⟨x, true⟩ :: gs₂)
    (hi : s.isIssuable c x.activate = true) :
    Fresh c (setGroups gs x.rank x.threadID (gs₁ ++ ⟨x, false⟩ :: gs₂)) (s'.finish c x.activate) := by
  obtain ⟨-, hna, -⟩ := State.isIssuable_activate.1 hi
  refine ⟨fun r hr b hb => ?_, fun r q y hy => ?_⟩
  · rw [left.banks_finish, left.clock_finish, hc]
    have := hF.banks r hr b hb
    have := BankState.after_activate_le (s.bankStates r b) s.currentClockCycle (x := x) (i := r) (j := b) rfl
    omega
  · rw [left.banks_finish, left.clock_finish, hc]
    have := BankState.after_activate_le (s.bankStates r y.bank) s.currentClockCycle (x := x) (i := r) (j := y.bank) rfl
    rcases hB.lones_activate h hi hy with ⟨rfl, rfl, rfl⟩ | ⟨hy, -⟩
    · have := hF.banks y.rank hin.1 y.bank hin.2.1
      omega
    · have := hF.rows r q y hy
      omega

theorem Fresh.column (hc : c.timing = ddr3Sg15) (hB : Base c 1 gs s) (hF : Fresh c gs s) (left : Left c s s')
    (h : gs x.rank x.threadID = gs₁ ++ ⟨x, false⟩ :: gs₂) :
    Fresh c (setGroups gs x.rank x.threadID (gs₁ ++ gs₂)) (s'.finish c x.column) := by
  have hle : (if x.write then 18 else 5) ≤ 18 := by split <;> omega
  refine ⟨fun r hr b hb => ?_, fun r q y hy => ?_⟩
  · rw [left.banks_finish, left.clock_finish, hc]
    have hb' := hF.banks r hr b hb
    by_cases hne : r = x.rank ∧ b = x.bank
    · obtain ⟨rfl, rfl⟩ := hne
      have := BankState.after_column_self (s.bankStates x.rank x.bank) s.currentClockCycle (x := x)
      omega
    · have := BankState.after_column_of_ne (s.bankStates r b) s.currentClockCycle hne
      omega
  · rw [left.banks_finish, left.clock_finish, hc]
    obtain ⟨hy, hne⟩ := (hB.mem_lones_column h).1 hy
    have := hF.rows r q y hy
    have := BankState.after_column_of_ne (s.bankStates r y.bank) s.currentClockCycle hne
    omega

theorem Fresh.refresh (hB : Base c 1 gs s) (hF : Fresh c gs s) (left : Left c s s') {rank : Nat}
    (hidle : ∀ b < c.numBanks, (s.bankStates rank b).currentBankState ≠ .rowActive ∧
      (s.bankStates rank b).nextActivate ≤ s.currentClockCycle) :
    Fresh c gs (s'.finish c (refreshPacket rank)) := by
  refine ⟨fun r hr b hb => ?_, fun r q x hx => ?_⟩
  · rw [finish_refresh_bankStates left, left.clock_finish]
    have hold := hF.banks r hr b hb
    unfold BankState.afterRefresh
    split
    · next he =>
      have := (hidle b hb).2
      rw [← he] at this
      dsimp only
      omega
    · omega
  · have hr : r ≠ rank := by
      rintro rfl
      exact hB.not_lone_of_closed (fun b hb => (hidle b hb).1) hx
    rw [finish_refresh_bankStates left, left.clock_finish, BankState.afterRefresh, if_neg hr]
    have := hF.rows r q x hx
    omega

theorem Fresh.outcome (hc : c.timing = ddr3Sg15) (hB : Base c 1 gs s) (hF : Fresh c gs s) {buffer : Bool}
    {out : Option BusPacket × State TP} {gs' : Nat → Nat → List Group} (h : Outcome c pid buffer gs s out gs') :
    Fresh c gs' (State.conclude c out).2 := by
  cases h with
  | nothing left =>
    refine ⟨fun r hr b hb => ?_, fun r q x hx => ?_⟩
    · simp only [State.conclude, State.idle, left.banks, left.clock]
      have := hF.banks r hr b hb
      omega
    · simp only [State.conclude, State.idle, left.banks, left.clock]
      have := hF.rows r q x hx
      omega
  | taken left picked =>
    generalize hl : gs _ _ = l at picked
    cases picked with
    | activate h issuable =>
      obtain ⟨rfl, rfl, hin⟩ := hB.range_of_split (hl.trans h)
      exact hF.activate hc hB left hin (hl.trans h) issuable
    | column h =>
      obtain ⟨rfl, rfl, -⟩ := hB.range_of_split (hl.trans h)
      exact hF.column hc hB left (hl.trans h)
  | refresh left queues waiting idle => exact hF.refresh hB left idle

end Fresh

/-! ### The end of a turn -/

/-- The open rows of `pid` can be closed until cycle `stop`: writes are sent until
cycle `d` and reads 12 cycles later, and every column command adds 6 cycles. -/
structure Draining (c : Config) (stop pid δ : Nat) (gs : Nat → Nat → List Group)
    (s : State TP) : Prop where
  waiting : s.refreshWaiting = false
  others : ∀ r q, q ≠ pid → lones (gs r q) = []
  rows : ∃ d, (openRows c pid gs = 0 ∨ d + 6 * openRows c pid gs + 27 ≤ stop) ∧
    ∀ r, ∀ x ∈ lones (gs r pid),
      (x.write = true → (s.bankStates r x.bank).nextWrite ≤ d ∧ s.currentClockCycle ≤ d) ∧
      (x.write = false →
        (s.bankStates r x.bank).nextRead ≤ d + 12 ∧ s.currentClockCycle ≤ d + 12)
  below : ∀ r < c.numRanks, ∀ b < c.numBanks, (s.bankStates r b).Below stop
  faw : ∀ r, ∀ e ∈ s.tFAWCountdown r, s.currentClockCycle + δ + e ≤ stop

section Drain

variable {c : Config} {stop pid : Nat} {gs : Nat → Nat → List Group} {s s' : State TP}

theorem openRows_enqueue :
    openRows c pid (setGroups gs x.rank x.threadID (gs x.rank x.threadID ++ [⟨x, true⟩])) =
      openRows c pid gs := by
  unfold openRows
  simp only [lones_setGroups_enqueue]

theorem Draining.enqueued (hD : Draining c stop pid δ gs s) : Draining c stop pid δ
      (setGroups gs x.rank x.threadID (gs x.rank x.threadID ++ [⟨x, true⟩])) (s.enqueued x) := by
  obtain ⟨d, hd, hrows⟩ := hD.rows
  exact
    { waiting := hD.waiting
      others := fun r q hq => (lones_setGroups_enqueue r q).trans (hD.others r q hq)
      rows := ⟨d, by rw [openRows_enqueue]; exact hd,
        fun r y hy => hrows r y (lones_setGroups_enqueue r pid ▸ hy)⟩
      below := hD.below
      faw := hD.faw }

theorem Draining.ready (hB : Base c 0 gs s) (hD : Draining c stop pid 0 gs s) :
    Draining c stop pid 1 gs (s.ready c none) := by
  obtain ⟨d, hd, hrows⟩ := hD.rows
  refine
    { waiting := by simp [State.ready, hD.waiting]
      others := hD.others
      rows := ⟨d, hd, fun r x hx => ?_⟩
      below := fun r hr b hb => (hD.below r hr b hb).tick
      faw := fun r e he => ?_ }
  · simpa only [State.ready, BankState.tick_nextWrite, BankState.tick_nextRead] using hrows r x hx
  · have hmem := ((tickFAW_spec (hB.faw r).1 fun e h => ((hB.faw r).2 e h).1).2 e he).2
    have := hD.faw r _ hmem
    show s.currentClockCycle + 1 + e ≤ _
    omega

/-- An open row whose time has come can be read or written. -/
theorem Base.column_issuable (hB : Base c δ gs s) (hA : 1 ≤ c.totalRowAccesses) {r q : Nat}
    (hx : x ∈ lones (gs r q)) (h : (if x.write then (s.bankStates r x.bank).nextWrite
      else (s.bankStates r x.bank).nextRead) ≤ s.currentClockCycle) : s.isIssuable c x.column = true := by
  have hr := (hB.range r q _ (mem_of_mem_lones hx)).1
  have ho := hB.rows r q x hx
  subst hr
  refine State.isIssuable_column.2 ⟨⟨ho.rowActive, ho.2.symm, ?_⟩, h⟩
  rw [hB.accesses]
  omega

theorem Draining.nothing (hB : Base c 1 gs s) (hA : 1 ≤ c.totalRowAccesses)
    (hD : Draining c stop pid 1 gs s) (left : Left c s s')
    (hw : s'.refreshWaiting = s.refreshWaiting)
    (stuck : ∀ r < c.numRanks, ∀ x ∈ lones (gs r pid), s.isIssuable c x.column = false) :
    Draining c stop pid 0 gs s'.idle := by
  -- a column command whose time has come would have been sent
  have hwait : ∀ r, ∀ x ∈ lones (gs r pid), s.currentClockCycle <
      if x.write then (s.bankStates r x.bank).nextWrite else (s.bankStates r x.bank).nextRead := by
    intro r x hx
    by_contra hlt
    obtain ⟨hr, -, hin⟩ := hB.range r pid _ (mem_of_mem_lones hx)
    have hyes := hB.column_issuable hA hx (not_lt.1 hlt)
    rw [stuck r (hr ▸ hin.1) x hx] at hyes
    cases hyes
  have hclock : s'.idle.currentClockCycle = s.currentClockCycle + 1 := by
    simp only [State.idle, left.clock]
  have hbanks : s'.idle.bankStates = s.bankStates := left.banks
  obtain ⟨d, hd, hrows⟩ := hD.rows
  refine
    { waiting := hw.trans hD.waiting
      others := hD.others
      rows := ⟨d, hd, fun r x hx => ?_⟩
      below := by rw [hbanks]; exact hD.below
      faw := fun r e he => ?_ }
  · have hlt := hwait r x hx
    obtain ⟨hwr, hrd⟩ := hrows r x hx
    rw [hbanks, hclock]
    refine ⟨fun hx' => ?_, fun hx' => ?_⟩
    · have := hwr hx'
      rw [if_pos hx'] at hlt
      omega
    · have := hrd hx'
      rw [hx', if_neg (by decide)] at hlt
      omega
  · have := hD.faw r e (left.faw ▸ he)
    omega

theorem Draining.activate (hc : c.timing = ddr3Sg15) (hB : Base c 1 gs s) (hF : Fresh c gs s)
    (hD : Draining c stop pid 1 gs s) (left : Left c s s') (hw : s'.refreshWaiting = s.refreshWaiting)
    (hin : x.InRange c) (hpid : x.threadID = pid) (h : gs x.rank x.threadID = gs₁ ++ ⟨x, true⟩ :: gs₂)
    (hi : s.isIssuable c x.activate = true) (hroom : s.currentClockCycle + 43 + 6 * openRows c pid gs ≤ stop) :
    Draining c stop pid 0 (setGroups gs x.rank x.threadID (gs₁ ++ ⟨x, false⟩ :: gs₂))
      (s'.finish c x.activate) := by
  subst hpid
  obtain ⟨-, hna, -⟩ := State.isIssuable_activate.1 hi
  have hbound : ∀ r b, _ := fun r b =>
    BankState.after_activate_le (s.bankStates r b) s.currentClockCycle (x := x) (i := r) (j := b) rfl
  have hsum := openRows_activate hin h
  -- no open row waits longer than the new one
  refine
    { waiting := by rw [State.finish_refreshWaiting]; exact hw.trans hD.waiting
      others := fun r q hq => by
        rw [setGroups_of_ne fun he => hq he.2]
        exact hD.others r q hq
      rows := ⟨s.currentClockCycle + 10, .inr (by omega), fun r y hy => ?_⟩
      below := fun r hr b hb => ?_
      faw := fun r e he => ?_ }
  · rw [left.banks_finish, left.clock_finish, hc]
    have := hbound r y.bank
    rcases hB.lones_activate h hi hy with ⟨rfl, -, rfl⟩ | ⟨hy, -⟩
    · have := hF.banks y.rank hin.1 y.bank hin.2.1
      omega
    · have := hF.rows r _ y hy
      omega
  · have hold := hD.below r hr b hb
    rw [left.banks_finish, hc]
    unfold BankState.Below at hold ⊢
    have := hbound r b
    omega
  · have hf := finish_faw (c := c) (s := s') (p := x.activate) (r := r)
      (m := stop - s.currentClockCycle - 1) (by rw [hc]; decide)
      (by rw [left.faw]; exact hB.faw r)
      (fun e he => by have := hD.faw r e (left.faw ▸ he); omega)
      (fun _ => by rw [hc]; show 20 ≤ _; omega)
    have := (hf.2 e he).2.2
    rw [left.clock_finish]
    omega

theorem Draining.column (hc : c.timing = ddr3Sg15) (hB : Base c 1 gs s) (hD : Draining c stop pid 1 gs s)
    (left : Left c s s') (hw : s'.refreshWaiting = s.refreshWaiting) (hin : x.InRange c)
    (hpid : x.threadID = pid) (h : gs x.rank x.threadID = gs₁ ++ ⟨x, false⟩ :: gs₂) :
    Draining c stop pid 0 (setGroups gs x.rank x.threadID (gs₁ ++ gs₂)) (s'.finish c x.column) := by
  subst hpid
  have hx : x ∈ lones (gs x.rank x.threadID) := h ▸ mem_lones_removed.2 (.inl rfl)
  have hsum := openRows_column hin h
  obtain ⟨d, hd, hrows⟩ := hD.rows
  -- when the command is sent, and how long the other reads and its own bank wait for it
  have hnow : s.currentClockCycle ≤ d + 12 ∧
      s.currentClockCycle + (if x.write then 18 else 5) ≤ d + 18 ∧
      s.currentClockCycle + (if x.write then 33 else 15) ≤ d + 33 := by
    obtain ⟨hwr, hrd⟩ := hrows x.rank x hx
    cases hxw : x.write with
    | true =>
      have := (hwr hxw).2
      simp only [if_true]
      omega
    | false =>
      have := (hrd hxw).2
      simp only [Bool.false_eq_true, if_false]
      omega
  refine
    { waiting := by rw [State.finish_refreshWaiting]; exact hw.trans hD.waiting
      others := fun r q hq => by
        rw [setGroups_of_ne fun he => hq he.2]
        exact hD.others r q hq
      rows := ⟨d + 6, by omega, fun r y hy => ?_⟩
      below := fun r hr b hb => ?_
      faw := fun r e he => ?_ }
  · obtain ⟨hy, hne⟩ := (hB.mem_lones_column h).1 hy
    obtain ⟨hwr, hrd⟩ := hrows r y hy
    have := BankState.after_column_of_ne (s.bankStates r y.bank) s.currentClockCycle hne
    rw [left.banks_finish, left.clock_finish, hc]
    refine ⟨fun hy' => ?_, fun hy' => ?_⟩
    · -- a read is sent after `d` only if no write is pending
      have := hwr hy'
      omega
    · have := hrd hy'
      omega
  · have hold := hD.below r hr b hb
    rw [left.banks_finish, hc]
    unfold BankState.Below at hold ⊢
    by_cases hne : r = x.rank ∧ b = x.bank
    · obtain ⟨rfl, rfl⟩ := hne
      have := BankState.after_column_self (s.bankStates x.rank x.bank) s.currentClockCycle (x := x)
      omega
    · have := BankState.after_column_of_ne (s.bankStates r b) s.currentClockCycle hne
      omega
  · rw [State.finish_tFAWCountdown_of_ne x.column_ne_activate, left.faw] at he
    have := hD.faw r e he
    rw [left.clock_finish]
    omega

end Drain

/-! ## Turns -/

/-- No bank is open, and no row has to wait to be opened. -/
def Closed (c : Config) (s : State TP) : Prop :=
  ∀ r < c.numRanks, ∀ b < c.numBanks, (s.bankStates r b).currentBankState ≠ .rowActive ∧
    (s.bankStates r b).nextActivate ≤ s.currentClockCycle

/-- No bank is open, and no command has to wait. -/
def Quiet (c : Config) (s : State TP) : Prop :=
  ∀ r < c.numRanks, ∀ b < c.numBanks, (s.bankStates r b).currentBankState ≠ .rowActive ∧
    (s.bankStates r b).Below s.currentClockCycle

theorem Quiet.closed {s : State TP} (h : Quiet c s) : Closed c s :=
  fun r hr b hb => ⟨(h r hr b hb).1, (h r hr b hb).2.2.2⟩

/-- No refresh is requested. -/
def Action.NoRefresh : Action → Prop
  | .cycle refresh => refresh = none
  | _ => True

instance : DecidablePred Action.NoRefresh := fun a => by
  unfold Action.NoRefresh
  induction a using Action.casesOn <;> infer_instance

section Turn

variable {c : Config} {w : Turns} {d : Config → Deadtimes} {p : Nat} {gs : Nat → Nat → List Group}
variable {s s' : State TP}

/-- What one action does. -/
inductive Stepped (w : Turns) (d : Config → Deadtimes) (c : Config) (gs : Nat → Nat → List Group) (s : State TP) :
    Action → State TP → Prop
  | enqueue {x : Transaction} (hx : x.InRange c) : Stepped w d c gs s (.enqueue x) (s.enqueued x)
  | cycle {refresh : Option Nat} {out : Option BusPacket × State TP} {gs' : Nat → Nat → List Group}
    (hB : Base c 1 gs (s.ready c refresh))
    (hout : Outcome c (w.getCurrentPID c.numPids s.currentClockCycle)
      (w.isBufferTime c.numPids c.numRanks s.currentClockCycle (d c).normal (d c).refresh) gs
        (s.ready c refresh) out gs') :
    Stepped w d c gs s (.cycle refresh) (State.conclude c out).2
  | power {waiting : List Nat} : Stepped w d c gs s (.power waiting) s

section Step

variable {a : Action} {o : Option (Nat × BusPacket)} (hT : c.timing.Closes) (hL : c.useLowPower = false)
  (hB : Base c 0 gs s) (h : Dram.step c (methodsWith w d) p s a = some (s', o))

include hT hL hB h

theorem Base.stepped : Stepped w d c gs s a s' := by
  cases a with
  | enqueue x =>
    obtain ⟨hx, -, rfl⟩ := step_enqueue h
    exact .enqueue hx
  | cycle refresh =>
    obtain ⟨rfl, -⟩ := step_cycle h
    have hB' := hB.ready hT refresh
    obtain ⟨gs', hout⟩ := popClosePage_outcome w d hB'.queues hB'.rank hB'.bank
    rw [State.update_eq]
    exact .cycle hB' hout
  | power waiting =>
    obtain ⟨rfl, -⟩ := step_power hL h
    exact .power

/-- One action keeps the invariants of every run. -/
theorem Base.step (hc : c.timing = ddr3Sg15) (hF : Fresh c gs s) : ∃ gs', Base c 0 gs' s' ∧ Fresh c gs' s' := by
  cases hB.stepped hT hL h with
  | enqueue hx => exact ⟨_, hB.enqueued hx, hF.enqueued⟩
  | cycle hB' hout => exact ⟨_, hB'.outcome hT hout, (hF.ready _).outcome hc hB' hout⟩
  | power => exact ⟨gs, hB, hF⟩

/-- The clock counts the cycles. -/
theorem Base.clock_step : s.currentClockCycle ≤ s'.currentClockCycle ∧
    ∀ refresh, a = .cycle refresh → s'.currentClockCycle = s.currentClockCycle + 1 := by
  cases hB.stepped hT hL h with
  | enqueue hx => exact ⟨le_rfl, fun _ h => nomatch h⟩
  | cycle hB' hout =>
    have hclock := hout.clock_conclude
    exact ⟨hclock ▸ Nat.le_succ _, fun _ _ => hclock⟩
  | power => exact ⟨le_rfl, fun _ h => nomatch h⟩

end Step

theorem base_of_run (hc : c.timing = ddr3Sg15) (hL : c.useLowPower = false) (hr : 1 ≤ c.numRanks) (hb : 1 ≤ c.numBanks)
    {lastPID : Nat} {vis : Action → Bool} {as : List Action} {os : List (Option (Nat × BusPacket))}
    (h : run (Dram.step c (methodsWith w d) p) vis (init lastPID) as = some (s, os)) :
    ∃ gs, Base c 0 gs s ∧ Fresh c gs s := by
  have hall : Along (Dram.step c (methodsWith w d) p) (fun _ _ => True) (init lastPID) as :=
    always_of_mem fun _ _ => trivial
  refine run_invariant (fun s => ∃ gs, Base c 0 gs s ∧ Fresh c gs s) ?_
    ⟨_, Base.init lastPID hr hb, ?_⟩ hall h
  · rintro s a s' o ⟨gs, hB, hF⟩ - hs
    exact hB.step (hc ▸ ddr3Sg15_closes) hL hs hc hF
  · exact ⟨fun _ _ _ _ => ⟨Nat.zero_le _, Nat.zero_le _⟩, fun _ _ _ h => nomatch h⟩

/-- Rows are not open where every bank is closed. -/
theorem Base.lones_of_closed (hB : Base c δ gs s) (hQ : Closed c s) (r q : Nat) : lones (gs r q) = [] := by
  rw [List.eq_nil_iff_forall_not_mem]
  intro x hx
  obtain ⟨hr, -, hin⟩ := hB.range r q _ (mem_of_mem_lones hx)
  subst hr
  exact (hQ x.rank hin.1 x.bank hin.2.1).1 (hB.opened _ q x hx).1

theorem Draining.of_closed (hc : c.timing = ddr3Sg15) (hB : Base c 0 gs s) (hF : Fresh c gs s)
    (hQ : Closed c s) (hw : s.refreshWaiting = false) (stop pid : Nat)
    (hstop : s.currentClockCycle + 43 < stop) :
    openRows c pid gs = 0 ∧ Draining c stop pid 0 gs s := by
  have hl := hB.lones_of_closed hQ
  have h0 : openRows c pid gs = 0 := by simp [openRows, hl]
  refine ⟨h0,
    { waiting := hw
      others := fun r q _ => hl r q
      rows := ⟨0, .inl h0, fun r x hx => by rw [hl] at hx; cases hx⟩
      below := fun r hr b hb => ?_
      faw := fun r e he => ?_ }⟩
  · have := hF.banks r hr b hb
    have := (hQ r hr b hb).2
    unfold BankState.Below
    omega
  · have := ((hB.faw r).2 e he).2
    rw [hc] at this
    have h20 : ddr3Sg15.tFAW = 20 := rfl
    omega

/-- All rows of the turn have been closed when it is over. -/
theorem Draining.quiet (hB : Base c 0 gs s) {stop : Nat} (hD : Draining c stop pid 0 gs s)
    (hend : s.currentClockCycle = stop) (hRP : 1 ≤ c.timing.tRP) :
    Quiet c s ∧ (∀ r, s.tFAWCountdown r = []) ∧ ∀ r q, lones (gs r q) = [] := by
  obtain ⟨d, hd, hrows⟩ := hD.rows
  have hl : ∀ r q, lones (gs r q) = [] := by
    intro r q
    by_cases hpid : q = pid
    · subst hpid
      rw [List.eq_nil_iff_forall_not_mem]
      intro x hx
      obtain ⟨hr, -, hin⟩ := hB.range r q _ (mem_of_mem_lones hx)
      dsimp only at hr hin
      subst hr
      have hle : (lones (gs x.rank q)).length ≤ openRows c q gs :=
        Finset.single_le_sum (f := fun r => (lones (gs r q)).length) (fun _ _ => Nat.zero_le _)
          (Finset.mem_range.2 hin.1)
      have := List.length_pos_of_mem hx
      obtain ⟨hwr, hrd⟩ := hrows x.rank x hx
      cases hw : x.write with
      | true =>
        have := (hwr hw).2
        omega
      | false =>
        have := (hrd hw).2
        omega
    · exact hD.others r q hpid
  refine ⟨fun r hr b hb => ?_, fun r => ?_, hl⟩
  · have hbelow := hD.below r hr b hb
    rw [← hend] at hbelow
    refine ⟨fun hact => ?_, hbelow⟩
    rcases hB.banks r b with ⟨q, x, hx, -⟩ | hs
    · rw [hl] at hx
      cases hx
    · have := hbelow.2.2
      unfold BankState.Settles BankState.phase at hs
      rw [hact] at hs
      omega
  · rw [List.eq_nil_iff_forall_not_mem]
    intro e he
    have := hD.faw r e he
    have := ((hB.faw r).2 e he).1
    omega

/-- The cycles of one turn, without wrap to 32 bits. -/
theorem sub_offset_of_turn {k : Nat} {offset : Int} (ho : offset = 0) (h0 : m * 2 ^ k ≤ clock)
    (h1 : clock < (m + 1) * 2 ^ k) : ((clock : Int) - offset) / 2 ^ k = m ∧
      ((clock : Int) - offset) % 2 ^ k = (clock - m * 2 ^ k : Nat) := by
  rw [Nat.succ_mul] at h1
  have hdiv : clock / 2 ^ k = m := by
    rw [Nat.div_eq_of_lt_le h0]
    rwa [Nat.succ_mul]
  have hmod : clock % 2 ^ k = clock - m * 2 ^ k := by
    rw [Nat.mod_def, hdiv, Nat.mul_comm]
  rw [ho, Int.sub_zero]
  constructor
  · exact_mod_cast hdiv
  · exact_mod_cast hmod

/-- In a turn, the pid is that of its first cycle. -/
theorem getCurrentPID_turn (hw : w.diffPeriod = false) (ho : w.offset = 0) (hk : w.tpTurnLength < 32)
    {numPids : Nat} (h0 : m * 2 ^ w.tpTurnLength ≤ clock) (h1 : clock < (m + 1) * 2 ^ w.tpTurnLength) :
    w.getCurrentPID numPids clock = w.getCurrentPID numPids (m * 2 ^ w.tpTurnLength) := by
  have hpos : 0 < 2 ^ w.tpTurnLength := Nat.two_pow_pos _
  refine getCurrentPID_congr hw hk ?_
  rw [(sub_offset_of_turn ho h0 h1).1, (sub_offset_of_turn ho le_rfl (by rw [Nat.succ_mul]; omega)).1]

/-- `ACTIVATE`s are sent in the first tenth of what the turn has beyond the worst case. -/
theorem lt_of_not_bufferTime (hc : c.timing = ddr3Sg15) (hw : w.diffPeriod = false) (ho : w.offset = 0)
    (hk : w.tpTurnLength < 32) (h0 : m * 2 ^ w.tpTurnLength ≤ clock) (h1 : clock < (m + 1) * 2 ^ w.tpTurnLength)
    (h : w.isBufferTime c.numPids c.numRanks clock (deadtimes c).normal (deadtimes c).refresh =
      false) : clock < m * 2 ^ w.tpTurnLength + (2 ^ w.tpTurnLength - 43) / 10 := by
  have hlen : (2 : Nat) ^ w.tpTurnLength ≤ 2 ^ 31 := Nat.pow_le_pow_right (by decide) (by omega)
  have hoff : clock - m * 2 ^ w.tpTurnLength < 2 ^ w.tpTurnLength := by
    rw [Nat.succ_mul] at h1
    omega
  have hlt := lt_of_isBufferTime_eq_false hw hk (sub_offset_of_turn ho h0 h1).2 h
  simp only [deadtimes, hc] at hlt
  rcases hlt with hlt | hlt
  · have := lt_of_tenPercentDeadtime_lt (by decide) hlen hoff hlt
    have h43 : ddr3Sg15.worstCaseDelay = 43 := rfl
    omega
  · have := lt_of_tenPercentDeadtime_lt (by decide) hlen hoff hlt
    have h150 : ddr3Sg15.tpBufferTime = 150 := rfl
    omega

/-- One action of a turn; a cycle opens at most one row. -/
theorem Draining.step (hc : c.timing = ddr3Sg15) (hL : c.useLowPower = false) (hA : 1 ≤ c.totalRowAccesses)
    {stop : Nat} {a : Action} {o : Option (Nat × BusPacket)} (hB : Base c 0 gs s) (hF : Fresh c gs s)
    (hD : Draining c stop pid 0 gs s) (ha : Action.NoRefresh a)
    (hpid : ∀ refresh, a = .cycle refresh → w.getCurrentPID c.numPids s.currentClockCycle = pid)
    (hroom : ∀ refresh, a = .cycle refresh → ∀ r x, ⟨x, true⟩ ∈ gs r pid →
      (s.ready c none).isIssuable c x.activate = true →
      w.isBufferTime c.numPids c.numRanks s.currentClockCycle (d c).normal (d c).refresh = false →
      s.currentClockCycle + 43 + 6 * openRows c pid gs ≤ stop)
    (h : Dram.step c (methodsWith w d) p s a = some (s', o)) :
    ∃ gs', Base c 0 gs' s' ∧ Fresh c gs' s' ∧ Draining c stop pid 0 gs' s' ∧
      openRows c pid gs' + s.currentClockCycle ≤ openRows c pid gs + s'.currentClockCycle := by
  have hT : c.timing.Closes := hc ▸ ddr3Sg15_closes
  have hclock := hB.clock_step hT hL h
  have hstepped := hB.stepped hT hL h
  clear h
  cases hstepped with
  | enqueue hx => exact ⟨_, hB.enqueued hx, hF.enqueued, hD.enqueued, by rw [openRows_enqueue]; omega⟩
  | @cycle refresh out gs' hB' hout =>
    obtain rfl : refresh = none := ha
    have hclock := hclock.2 none rfl
    have hF' := hF.ready (c := c) none
    have hD' := hD.ready hB
    rw [hpid none rfl] at hout
    refine ⟨gs', hB'.outcome hT hout, hF'.outcome hc hB' hout, ?_⟩
    cases hout with
    | nothing left queues waiting stuck =>
      exact ⟨hD'.nothing hB' hA left waiting (stuck hD'.waiting), by omega⟩
    | taken left picked early waiting queues =>
      generalize hl : gs _ _ = l at picked
      cases picked with
      | activate h issuable =>
        have h := hl.trans h
        obtain ⟨rfl, rfl, hin⟩ := hB'.range_of_split h
        have hsum := openRows_activate hin h
        exact ⟨hD'.activate hc hB' hF' left waiting hin rfl h issuable
          (hroom none rfl _ _ (by rw [h]; simp) issuable (early rfl)), by omega⟩
      | column h =>
        have h := hl.trans h
        obtain ⟨rfl, rfl, hin⟩ := hB'.range_of_split h
        have hsum := openRows_column hin h
        exact ⟨hD'.column hc hB' left waiting hin rfl h, by omega⟩
    | refresh left queues waiting idle =>
      rw [hD'.waiting] at waiting
      cases waiting
  | power => exact ⟨gs, hB, hF, hD, le_rfl⟩

/-- In a quiet state with empty activation windows every `ACTIVATE` can be sent. -/
theorem Base.activate_issuable (hT : c.timing.Closes) (hB : Base c 0 gs s) (hQ : Quiet c s)
    (hl : ∀ r q, lones (gs r q) = []) (hF : ∀ r, s.tFAWCountdown r = []) (refresh : Option Nat)
    (hx : x.InRange c) : (s.ready c refresh).isIssuable c x.activate = true := by
  have hna : (s.bankStates x.rank x.bank).nextActivate ≤ s.currentClockCycle :=
    (hQ x.rank hx.1 x.bank hx.2.1).2.2.2
  have hna' : ((s.ready c refresh).bankStates x.rank x.bank).nextActivate ≤ s.currentClockCycle :=
    (BankState.tick_nextActivate _ _).trans_le hna
  refine State.isIssuable_activate.2 ⟨.inl ?_, hna', ?_⟩
  · rcases (hB.ready hT refresh).banks x.rank x.bank with ⟨q, y, hy, -⟩ | hs
    · rw [hl] at hy
      cases hy
    · exact (hs.idle (Nat.lt_succ_of_le hna')).1
  · show (tickFAW (s.tFAWCountdown x.rank)).length < 4
    rw [hF]
    decide

/-- A turn in which every `ACTIVATE` leaves time for the rows that are open. -/
theorem quiet_of_room (hc : c.timing = ddr3Sg15) (hL : c.useLowPower = false) (hA : 1 ≤ c.totalRowAccesses)
    (hw : w.diffPeriod = false) (ho : w.offset = 0) (hk : w.tpTurnLength < 32)
    (hW : c.timing.worstCaseDelay < 2 ^ w.tpTurnLength) (ok : State TP → Action → Prop)
    (hok : ∀ s a, ok s a → Action.NoRefresh a) (hroom : ∀ s gs refresh, ok s (.cycle refresh) → Base c 0 gs s →
      m * 2 ^ w.tpTurnLength ≤ s.currentClockCycle →
      s.currentClockCycle < (m + 1) * 2 ^ w.tpTurnLength →
      m * 2 ^ w.tpTurnLength +
        openRows c (w.getCurrentPID c.numPids s.currentClockCycle) gs ≤ s.currentClockCycle →
      ∀ r x, ⟨x, true⟩ ∈ gs r (w.getCurrentPID c.numPids s.currentClockCycle) →
      (s.ready c none).isIssuable c x.activate = true →
      w.isBufferTime c.numPids c.numRanks s.currentClockCycle (d c).normal (d c).refresh = false →
      s.currentClockCycle + 43 + 6 * openRows c (w.getCurrentPID c.numPids s.currentClockCycle) gs ≤
        (m + 1) * 2 ^ w.tpTurnLength) {vis : Action → Bool} {bs : List Action}
    {os : List (Option (Nat × BusPacket))} (hB : Base c 0 gs s) (hF : Fresh c gs s) (hQ : Closed c s)
    (hwait : s.refreshWaiting = false) (hstart : s.currentClockCycle = m * 2 ^ w.tpTurnLength)
    (hbs : Along (Dram.step c (methodsWith w d) p) ok s bs)
    (hturn : run (Dram.step c (methodsWith w d) p) vis s bs = some (s', os))
    (hend : s'.currentClockCycle = (m + 1) * 2 ^ w.tpTurnLength) :
    Quiet c s' ∧ ∀ refresh (x : Transaction), x.InRange c →
      (s'.ready c refresh).isIssuable c x.activate = true := by
  have hT : c.timing.Closes := hc ▸ ddr3Sg15_closes
  have h43 : c.timing.worstCaseDelay = 43 := by rw [hc]; rfl
  generalize hpid : w.getCurrentPID c.numPids (m * 2 ^ w.tpTurnLength) = pid
  have hlen : (m + 1) * 2 ^ w.tpTurnLength = m * 2 ^ w.tpTurnLength + 2 ^ w.tpTurnLength :=
    Nat.succ_mul ..
  -- the invariant of the turn, as long as it lasts
  have hinv := run_invariant
    (fun s : State TP => ∃ gs, Base c 0 gs s ∧ Fresh c gs s ∧
      (s.currentClockCycle ≤ (m + 1) * 2 ^ w.tpTurnLength →
        m * 2 ^ w.tpTurnLength + openRows c pid gs ≤ s.currentClockCycle ∧
        Draining c ((m + 1) * 2 ^ w.tpTurnLength) pid 0 gs s))
    (by
      rintro s a s' o ⟨gs, hB, hF, hD⟩ ha hs
      have hclock := hB.clock_step hT hL hs
      by_cases hle : s'.currentClockCycle ≤ (m + 1) * 2 ^ w.tpTurnLength
      · obtain ⟨hcount, hD⟩ := hD (hclock.1.trans hle)
        have hlt : ∀ refresh, a = .cycle refresh →
            s.currentClockCycle < (m + 1) * 2 ^ w.tpTurnLength := by
          intro refresh hcyc
          have := hclock.2 refresh hcyc
          omega
        have hnow : ∀ refresh, a = .cycle refresh →
            w.getCurrentPID c.numPids s.currentClockCycle = pid := by
          intro refresh hcyc
          rw [← hpid]
          exact getCurrentPID_turn hw ho hk (by omega) (hlt refresh hcyc)
        obtain ⟨gs', hB', hF', hD', hcount'⟩ := hD.step hc hL hA hB hF (hok s a ha) hnow
          (by
            rintro refresh rfl r x hx hi hbuf
            have := hroom s gs refresh ha hB (by omega) (hlt refresh rfl)
            rw [hnow refresh rfl] at this
            exact this hcount r x hx hi hbuf) hs
        exact ⟨gs', hB', hF', fun _ => ⟨by omega, hD'⟩⟩
      · obtain ⟨gs', hB', hF'⟩ := hB.step hT hL hs hc hF
        exact ⟨gs', hB', hF', fun h => absurd h hle⟩)
    (by
      obtain ⟨h0, hD⟩ := Draining.of_closed hc hB hF hQ hwait
        ((m + 1) * 2 ^ w.tpTurnLength) pid (by omega)
      exact ⟨gs, hB, hF, fun _ => ⟨by omega, hD⟩⟩)
    hbs hturn
  obtain ⟨gs', hB', -, hD'⟩ := hinv
  obtain ⟨-, hD'⟩ := hD' hend.le
  obtain ⟨hQ', hfaw, hl⟩ := hD'.quiet hB' hend hT.rp
  exact ⟨hQ', fun refresh x hx => hB'.activate_issuable hT hQ' hl hfaw refresh hx⟩

/-- With low power off, a turn that starts with a quiescent device and in which no refresh is
waiting ends with a quiescent device: an `ACTIVATE` of the next pid can be sent in its first cycle.
The source divides by `anyr_refresh`, which is 0 (a trap) beyond 3900 ranks. -/
theorem turn_leaves_quiet (hc : c.timing = ddr3Sg15) (hL : c.useLowPower = false) (hR : 1 ≤ c.numRanks)
    (hb : 1 ≤ c.numBanks) (hA : 1 ≤ c.totalRowAccesses) (hw : w.diffPeriod = false) (ho : w.offset = 0)
    (hk : w.tpTurnLength < 32) (hW : c.timing.worstCaseDelay < 2 ^ w.tpTurnLength)
    {lastPID m : Nat} {vis : Action → Bool} {as bs : List Action}
    {os os' : List (Option (Nat × BusPacket))}
    (hrun : run (Dram.step c (methods w) p) vis (init lastPID) as = some (s, os))
    (hstart : s.currentClockCycle = m * 2 ^ w.tpTurnLength) (hQ : Quiet c s)
    (hwait : s.refreshWaiting = false) (hbs : ∀ a ∈ bs, Action.NoRefresh a)
    (hturn : run (Dram.step c (methods w) p) vis s bs = some (s', os'))
    (hend : s'.currentClockCycle = (m + 1) * 2 ^ w.tpTurnLength) :
    Quiet c s' ∧ ∀ refresh (x : Transaction), x.InRange c →
      (s'.ready c refresh).isIssuable c x.activate = true := by
  obtain ⟨gs, hB, hF⟩ := base_of_run hc hL hR hb hrun
  refine quiet_of_room (d := deadtimes) (p := p) hc hL hA hw ho hk hW (fun _ => Action.NoRefresh)
    (fun _ _ h => h) ?_ hB hF hQ.closed hwait hstart (always_of_mem hbs) hturn hend
  -- at most one row is opened in a cycle, so there are few in the first tenth of the turn
  rintro s gs refresh - - h0 h1 hcount r x - - hbuf
  have hlt := lt_of_not_bufferTime hc hw ho hk h0 h1 hbuf
  have hlen : (m + 1) * 2 ^ w.tpTurnLength = m * 2 ^ w.tpTurnLength + 2 ^ w.tpTurnLength :=
    Nat.succ_mul ..
  omega

end Turn

theorem quiet_init (c : Config) (lastPID : Nat) : Quiet c (init lastPID) :=
  fun _ _ _ _ => ⟨CurrentBankState.noConfusion, le_rfl, le_rfl, le_rfl⟩

/-- Two ranks of the device. -/
def twoRanks : Config where
  timing := ddr3Sg15
  numRanks := 2
  numBanks := 8
  numPids := 2
  cmdQueueDepth := 8
  totalRowAccesses := 4
  schedulingPolicy := .rankThenBankRoundRobin

/-- A read and a write, and the cycles of the first turn. -/
def readAndWrite : List Action :=
  [.enqueue ⟨false, 0, 1, 0, 0, 0⟩, .enqueue ⟨true, 64, 2, 1, 0, 0⟩] ++
    List.replicate 64 (.cycle none)

/-- In a turn that sends a read and a write, all four commands. -/
theorem turn_leaves_quiet_read_and_write : ∃ s' os',
    run (Dram.step twoRanks (methods { tpTurnLength := 6 }) 0) (fun _ => true) (init 0)
      readAndWrite = some (s', os') ∧ (os'.filterMap id).length = 4 ∧ Quiet twoRanks s' ∧
    ∀ refresh (x : Transaction), x.InRange twoRanks →
      (s'.ready twoRanks refresh).isIssuable twoRanks x.activate = true := by
  obtain ⟨⟨s', os'⟩, hs, hclock, hlen⟩ : ∃ x ∈ run (Dram.step twoRanks (methods { tpTurnLength := 6 }) 0)
      (fun _ => true) (init 0) readAndWrite, x.1.currentClockCycle = 64 ∧ (x.2.filterMap id).length = 4 := by
    decide +kernel
  refine ⟨s', os', hs, hlen, ?_⟩
  have hinit : run (Dram.step twoRanks (methods { tpTurnLength := 6 }) 0) (fun _ => true) (init 0)
      [] = some (init 0, []) := rfl
  exact turn_leaves_quiet (m := 0) rfl rfl (by decide) (by decide) (by decide) rfl
    rfl (by decide) (by decide) hinit rfl (quiet_init _ _) rfl (by decide) hs hclock

/-- The cycles of a turn without commands, until pid 1 enqueues a read in the last of them. -/
def lateRead : List Action :=
  (List.replicate 63 [.cycle none, .power []]).flatten ++
    [.cycle none, .enqueue ⟨false, 0, 1, 0, 0, 1⟩, .power []]

/-- With low power the ranks are powered down in cycle 0, and rank 0 is powered up in cycle 63 for
the read of pid 1, whose `ACTIVATE` can then not be sent in the first cycle of its turn. -/
theorem powered_up_at_turn_end :
    let c : Config := { twoRanks with useLowPower := true }
    Quiet c (init 0) ∧ (∀ a ∈ lateRead, Action.NoRefresh a) ∧ ∃ s' os',
      run (Dram.step c (methods { tpTurnLength := 6 }) 0) (fun _ => true) (init 0) lateRead = some (s', os') ∧
      s'.currentClockCycle = 64 ∧ (s'.bankStates 0 0).nextActivate = 67 ∧ ¬ Quiet c s' ∧
      (s'.ready c none).isIssuable c ⟨.activate, 0, 1, 0, 0, 1⟩ = false := by
  intro c
  refine ⟨quiet_init _ _, by decide +kernel, ?_⟩
  obtain ⟨⟨s', os'⟩, hs, hclock, hna, hissuable⟩ : ∃ x ∈ run (Dram.step c (methods { tpTurnLength := 6 }) 0)
      (fun _ => true) (init 0) lateRead, x.1.currentClockCycle = 64 ∧ (x.1.bankStates 0 0).nextActivate = 67 ∧
        (x.1.ready c none).isIssuable c ⟨.activate, 0, 1, 0, 0, 1⟩ = false := by decide +kernel
  refine ⟨s', os', hs, hclock, hna, fun h => ?_, hissuable⟩
  have hle := (h 0 (by decide) 0 (by decide)).2.2.2
  exact absurd (hna.ge.trans (hle.trans hclock.le)) (by decide)

/-! ## The short dead time -/

/-- The number of banks that are open and wait for their column command. -/
def openBanks (c : Config) (s : State TP) : Nat :=
  ∑ r ∈ Finset.range c.numRanks, ((List.range c.numBanks).filter fun b =>
    (s.bankStates r b).currentBankState = .rowActive ∧
      (s.bankStates r b).lastCommand = .activate).length

theorem Base.openRows_le_openBanks {s : State TP} (hB : Base c δ gs s) (pid : Nat) :
    openRows c pid gs ≤ openBanks c s := by
  refine Finset.sum_le_sum fun r _ => ?_
  rw [← List.length_map Transaction.bank]
  refine ((hB.nodup r pid).subperm fun b hb => ?_).length_le
  obtain ⟨x, hx, rfl⟩ := List.mem_map.1 hb
  have hopen := hB.opened r pid x hx
  have hlt := (hB.range r pid _ (mem_of_mem_lones hx)).2.2.2.1
  rw [List.mem_filter, List.mem_range, decide_eq_true_eq]
  exact ⟨hlt, hopen⟩

end TP

namespace TPD

open TP

/-- Where an `ACTIVATE` of the current pid can be sent, the turn has the worst case
left, and a turnaround for every row that is open. -/
def Room (w : Turns) (c : Config) (s : State TP) : Action → Prop
  | .enqueue _ => True
  | .power _ => True
  | .cycle _ =>
    ∀ r < c.numRanks, ∀ x ∈ s.queues r (w.getCurrentPID c.numPids s.currentClockCycle),
      x.busPacketType = .activate → (s.ready c none).isIssuable c x = true →
      w.isBufferTime c.numPids c.numRanks s.currentClockCycle (deadtimes c).normal
        (deadtimes c).refresh = false →
      s.currentClockCycle + c.timing.worstCaseDelay + c.timing.readToWriteDelay * openBanks c s ≤
        (s.currentClockCycle / 2 ^ w.tpTurnLength + 1) * 2 ^ w.tpTurnLength

instance (w : Turns) (c : Config) (s : State TP) : DecidablePred (Room w c s) := fun a => by
  unfold Room
  induction a using Action.casesOn <;> infer_instance

/-- With the short dead time and low power off, a turn ends with every bank closed if its
`ACTIVATE`s leave time for the rows that are open. -/
theorem turn_leaves_closed_of_room {c : Config} {w : Turns} {p : Nat} {s s' : State TP}
    (hc : c.timing = ddr3Sg15) (hL : c.useLowPower = false) (hR : 1 ≤ c.numRanks) (hb : 1 ≤ c.numBanks)
    (hA : 1 ≤ c.totalRowAccesses) (hw : w.diffPeriod = false) (ho : w.offset = 0)
    (hk : w.tpTurnLength < 32) (hW : c.timing.worstCaseDelay < 2 ^ w.tpTurnLength)
    {lastPID m : Nat} {vis : Action → Bool} {as bs : List Action}
    {os os' : List (Option (Nat × BusPacket))}
    (hrun : run (Dram.step c (methods w) p) vis (init lastPID) as = some (s, os))
    (hstart : s.currentClockCycle = m * 2 ^ w.tpTurnLength) (hQ : Closed c s)
    (hwait : s.refreshWaiting = false) (hbs : ∀ a ∈ bs, Action.NoRefresh a)
    (hroom : Along (Dram.step c (methods w) p) (Room w c) s bs)
    (hturn : run (Dram.step c (methods w) p) vis s bs = some (s', os'))
    (hend : s'.currentClockCycle = (m + 1) * 2 ^ w.tpTurnLength) : Closed c s' := by
  rw [methods_eq] at hrun hroom hturn
  obtain ⟨gs, hB, hF⟩ := base_of_run hc hL hR hb hrun
  refine (quiet_of_room hc hL hA hw ho hk hW (fun s a => Room w c s a ∧ Action.NoRefresh a)
    (fun _ _ h => h.2) ?_ hB hF hQ hwait hstart (hroom.and (always_of_mem hbs)) hturn hend).1.closed
  rintro s gs refresh ⟨hr, -⟩ hB h0 h1 - r x hx hi hbuf
  have hrange := hB.range r _ _ hx
  have hmem : x.activate ∈ s.queues r (w.getCurrentPID c.numPids s.currentClockCycle) := by
    rw [hB.queues]
    exact List.mem_flatMap.2 ⟨_, hx, by simp [Group.packets]⟩
  have hleft := hr r (hrange.1 ▸ hrange.2.2.1) x.activate hmem rfl hi hbuf
  rw [Nat.div_eq_of_lt_le h0 h1, hc] at hleft
  have hle := hB.openRows_le_openBanks (w.getCurrentPID c.numPids s.currentClockCycle)
  have h43 : ddr3Sg15.worstCaseDelay = 43 := rfl
  have h6 : ddr3Sg15.readToWriteDelay = 6 := rfl
  rw [h43, h6] at hleft
  omega

/-- One rank of the device. -/
def oneRank : Config where
  timing := ddr3Sg15
  numRanks := 1
  numBanks := 8
  numPids := 2
  cmdQueueDepth := 8
  totalRowAccesses := 4
  schedulingPolicy := .rankThenBankRoundRobin

/-- A read and a write of two banks, after some cycles of a turn of 64. -/
def twoRows (before : Nat) : List Action :=
  List.replicate before (.cycle none) ++
    [.enqueue ⟨false, 0, 1, 0, 0, 0⟩, .enqueue ⟨true, 64, 2, 0, 1, 0⟩] ++
    List.replicate (64 - before) (.cycle none)

/-- Two rows that are opened early in the turn. -/
theorem turn_leaves_closed_of_room_two_rows : ∃ s' os',
    run (Dram.step oneRank (methods { tpTurnLength := 6 }) 0) (fun _ => true) (init 0)
      (twoRows 0) = some (s', os') ∧ (os'.filterMap id).length = 4 ∧ Closed oneRank s' := by
  obtain ⟨⟨s', os'⟩, hs, hclock, hlen⟩ : ∃ x ∈ run (Dram.step oneRank (methods { tpTurnLength := 6 }) 0) (fun _ => true)
      (init 0) (twoRows 0), x.1.currentClockCycle = 64 ∧ (x.2.filterMap id).length = 4 := by decide +kernel
  refine ⟨s', os', hs, hlen, ?_⟩
  have hinit : run (Dram.step oneRank (methods { tpTurnLength := 6 }) 0) (fun _ => true) (init 0)
      [] = some (init 0, []) := rfl
  exact turn_leaves_closed_of_room (m := 0) rfl rfl (by decide) (by decide)
    (by decide) rfl rfl (by decide) (by decide) hinit rfl (quiet_init _ _).closed rfl
    (by decide) (by decide +kernel) hs hclock

/-- The second of two rows is opened in the last cycle in which the dead time allows
it, and its write waits for the read of the first: when the next turn starts, the bank
of the write has to wait one more cycle. -/
theorem second_row_outlives_turn : Closed oneRank (init 0) ∧
    (∀ a ∈ twoRows 16, Action.NoRefresh a) ∧ ∃ s' os',
      run (Dram.step oneRank (methods { tpTurnLength := 6 }) 0) (fun _ => true) (init 0)
        (twoRows 16) = some (s', os') ∧ s'.currentClockCycle = 64 ∧ ¬ Closed oneRank s' := by
  refine ⟨(quiet_init _ _).closed, by decide, ?_⟩
  obtain ⟨⟨s', os'⟩, hs, hclock, hna⟩ : ∃ x ∈ run (Dram.step oneRank (methods { tpTurnLength := 6 }) 0) (fun _ => true)
      (init 0) (twoRows 16), x.1.currentClockCycle = 64 ∧ (x.1.bankStates 0 1).nextActivate = 65 := by decide +kernel
  refine ⟨s', os', hs, hclock, fun h => ?_⟩
  have hle := (h 0 (by decide) 1 (by decide)).2
  exact absurd (hna.ge.trans (hle.trans hclock.le)) (by decide)

end TPD

end DynamicCache.Dram
