import DynamicCache.Dram.FirstReady

/-!
# Row hits and open rows (`CommandQueueFR.cpp`)

The column commands for one row leave the queue in the order in which they entered it,
and only while the row is open; and the row of a column command that stands alone stays
open until it is sent (`first_ready`).  It is the first of the queue for its row
(`Kept.front`), so that row hits have to wait for it and the row counts no accesses until
then (`Kept.opened`); all three ways to close a row respect it.
-/

namespace DynamicCache.Dram

open Lib

namespace FR

open TP (Group Front lones lones_append lones_cons_act lones_cons_lone mem_lones_opened mem_lones_removed
  mem_of_mem_lones mem_of_removed tr_mem_of_opened setGroups setGroups_forall setGroups_self setQueue setQueue_queues)

/-! ## Banks -/

/-- Row `row` is open. -/
def OpenAt (row : Nat) (b : BankState) : Prop := b.currentBankState = .rowActive ∧ b.openRowAddress = row

/-- An open row does not close by itself. -/
def Steady (b : BankState) : Prop :=
  b.currentBankState = .rowActive → b.lastCommand = .activate ∨ b.lastCommand = .read ∨ b.lastCommand = .write

section Banks

variable {t : Timing} {now row : Nat} {b : BankState} {p : BusPacket}

theorem Steady.tick_rowActive (h : Steady b) (hb : b.currentBankState = .rowActive) :
    (b.tick t).currentBankState = .rowActive ∧ (b.tick t).lastCommand = b.lastCommand := by
  have hl := h hb
  obtain ⟨st, row, nr, nw, na, np, last, n⟩ := b
  subst hb
  unfold BankState.tick
  rcases hl with rfl | rfl | rfl <;> dsimp only <;> repeat' split
  all_goals exact ⟨rfl, rfl⟩

theorem Steady.tick (h : Steady b) : Steady (b.tick t) := by
  intro hb
  have hb' := rowActive_of_tick hb
  rw [(h.tick_rowActive hb').2]
  exact h hb'

theorem OpenAt.tick (h : OpenAt row b) (hs : Steady b) : OpenAt row (b.tick t) :=
  ⟨(hs.tick_rowActive h.1).1, by rw [BankState.tick_openRowAddress, h.2]⟩

theorem OpenAt.after_of_ne {i j : Nat} (h : OpenAt row b) (hp : p.busPacketType ≠ .refresh)
    (hne : ¬(i = p.rank ∧ j = p.bank)) : OpenAt row (b.after t now p i j) := by
  obtain ⟨hst, -, hrow⟩ := Dram.after_of_ne (b := b) (t := t) hp hne
  exact ⟨hst.trans h.1, hrow.trans h.2⟩

theorem after_access (x : Transaction) (i j : Nat) :
    (b.after t now x.access i j).currentBankState = b.currentBankState ∧
      (b.after t now x.access i j).openRowAddress = b.openRowAddress ∧
      ((b.after t now x.access i j).lastCommand = b.lastCommand ∨
        (b.after t now x.access i j).lastCommand = .read ∨ (b.after t now x.access i j).lastCommand = .write) := by
  obtain ⟨write, _⟩ := x
  cases write <;> simp only [Transaction.access, BankState.after, BankState.afterRead, BankState.afterWrite,
    Bool.false_eq_true, if_true, if_false]
  all_goals
    repeat' split
    all_goals simp

theorem OpenAt.after_access (h : OpenAt row b) (x : Transaction) (i j : Nat) :
    OpenAt row (b.after t now x.access i j) :=
  ⟨(FR.after_access x i j).1.trans h.1, (FR.after_access x i j).2.1.trans h.2⟩

/-- No command of this scheduler makes a row close by itself. -/
theorem Steady.after (h : Steady b) {i j : Nat} (hp : p.busPacketType ≠ .readP ∧ p.busPacketType ≠ .writeP) :
    Steady (b.after t now p i j) := by
  intro hb
  by_cases href : p.busPacketType = .refresh
  · simp only [BankState.after, href, BankState.afterRefresh] at hb ⊢
    split at hb
    · cases hb
    · next hi =>
      rw [if_neg hi]
      exact h hb
  by_cases hne : i = p.rank ∧ j = p.bank
  · obtain ⟨rfl, rfl⟩ := hne
    cases htype : p.busPacketType <;>
      simp_all [BankState.after, BankState.afterRead, BankState.afterWrite, BankState.afterActivate,
        BankState.afterPrecharge]
  · obtain ⟨hst, hlast, -⟩ := Dram.after_of_ne (b := b) (t := t) (i := i) (j := j) href hne
    rw [hlast]
    exact h (hst.symm.trans hb)

end Banks

/-! ## Queues, banks and counters -/

structure Kept (qs : QueuingStructure) (c : Config) (gs : Nat → Nat → List Group) (s : State FR) : Prop where
  queues : ∀ r k, s.queues r k = flat (gs r k)
  range : ∀ r k, ∀ g ∈ gs r k, g.tr.rank = r ∧ queueOf qs g.tr.bank = k ∧ g.tr.bank < c.numBanks
  front : ∀ r k, Front SameRow (gs r k)
  /-- nothing is counted while the column command of an open row waits -/
  opened : ∀ r k, ∀ x ∈ lones (gs r k), OpenAt x.row (s.bankStates r x.bank) ∧ s.rowAccessCounters r x.bank = 0
  closed : ∀ r, ∀ b < c.numBanks, (s.bankStates r b).currentBankState ≠ .rowActive → s.rowAccessCounters r b = 0
  steady : ∀ r b, Steady (s.bankStates r b)
  pre : s.sched.nextRankPRE < c.numRanks ∧ s.sched.nextBankPRE < c.numBanks

section Kept

variable {qs : QueuingStructure} {c : Config} {gs : Nat → Nat → List Group} {s s' : State FR} {r k : Nat}
  {gs₁ gs₂ hs : List Group} {x : Transaction} {p : BusPacket}

theorem Kept.init (hr : 0 < c.numRanks) (hb : 0 < c.numBanks) : Kept qs c (fun _ _ => []) FR.init where
  queues _ _ := rfl
  range _ _ _ h := nomatch h
  front _ _ := .nil
  opened _ _ _ h := nomatch h
  closed _ _ _ _ := rfl
  steady _ _ := nofun
  pre := ⟨hr, hb⟩

theorem Kept.ready (h : Kept qs c gs s) (refresh : Option Nat) : Kept qs c gs (s.ready c refresh) where
  queues := h.queues
  range := h.range
  front := h.front
  opened r k x hx := ⟨(h.opened r k x hx).1.tick (h.steady r x.bank), (h.opened r k x hx).2⟩
  closed r b hb hst := h.closed r b hb fun hc => hst ((h.steady r b).tick_rowActive hc).1
  steady r b := (h.steady r b).tick
  pre := h.pre

/-- The end of a cycle in which `p` was popped. -/
theorem Kept.finish {gs' : Nat → Nat → List Group} (h : Kept qs c gs s) (same : Same c s s')
    (hp : p.busPacketType ≠ .readP ∧ p.busPacketType ≠ .writeP)
    (hq : ∀ r k, s'.queues r k = flat (gs' r k))
    (hrange : ∀ r k, ∀ g ∈ gs' r k, g.tr.rank = r ∧ queueOf qs g.tr.bank = k ∧ g.tr.bank < c.numBanks)
    (hfront : ∀ r k, Front SameRow (gs' r k))
    (hopened : ∀ r k, ∀ x ∈ lones (gs' r k),
      OpenAt x.row ((s.bankStates r x.bank).after c.timing s'.currentClockCycle p r x.bank) ∧
        s'.rowAccessCounters r x.bank = 0)
    (hclosed : ∀ r, ∀ b < c.numBanks,
      ((s.bankStates r b).after c.timing s'.currentClockCycle p r b).currentBankState ≠ .rowActive →
        s'.rowAccessCounters r b = 0) : Kept qs c gs' (s'.finish c p) where
  queues r k := by
    rw [State.finish_queues]
    exact hq r k
  range := hrange
  front := hfront
  opened r k x hx := by
    rw [State.finish_bankStates, State.finish_rowAccessCounters, same.unpowered.1]
    exact hopened r k x hx
  closed r b hb := by
    rw [State.finish_bankStates, State.finish_rowAccessCounters, same.unpowered.1]
    exact hclosed r b hb
  steady r b := by
    rw [State.finish_bankStates, same.unpowered.1]
    exact (h.steady r b).after hp
  pre := by
    rw [State.finish_sched]
    exact same.pre

theorem lones_setGroups_forall {P : Nat → Transaction → Prop} (h : ∀ r k, ∀ z ∈ lones (gs r k), P r z)
    (hhs : ∀ z ∈ lones hs, P r z) : ∀ r' k', ∀ z ∈ lones (setGroups gs r k hs r' k'), P r' z :=
  setGroups_forall (P := fun r _ l => ∀ z ∈ lones l, P r z) h hhs

theorem setCounter_apply (s : State FR) (r b n r' b' : Nat) : (setCounter s r b n).rowAccessCounters r' b' =
    if r' = r ∧ b' = b then n else s.rowAccessCounters r' b' := by
  unfold setCounter
  by_cases hr : r' = r
  · subst hr
    by_cases hb : b' = b <;> simp [hb]
  · simp [hr]

theorem openAt_of_isIssuable (h : s.isIssuable c x.access = true) : OpenAt x.row (s.bankStates x.rank x.bank) := by
  obtain ⟨write, _⟩ := x
  cases write with
  | true => exact ⟨(of_decide_eq_true h).1.1, (of_decide_eq_true h).1.2.1.symm⟩
  | false => exact ⟨(of_decide_eq_true h).1.1, (of_decide_eq_true h).1.2.1.symm⟩

theorem access_ne_auto (x : Transaction) : x.access.busPacketType ≠ .readP ∧ x.access.busPacketType ≠ .writeP := by
  obtain ⟨write, _⟩ := x
  cases write <;> exact ⟨nofun, nofun⟩

theorem Taken.sub {gs : List Group} {hit : Bool} (h : Taken gs p hs hit) : ∀ g ∈ hs, ∃ g' ∈ gs, g'.tr = g.tr := by
  intro g hg
  cases h with
  | activate h => exact h ▸ tr_mem_of_opened hg
  | lone h | hit h => exact ⟨g, h ▸ mem_of_removed hg, rfl⟩

theorem Taken.front {gs : List Group} {hit : Bool} (hf : Front SameRow gs) (h : Taken gs p hs hit) :
    Front SameRow hs := by
  cases h with
  | activate h first => exact (h ▸ hf).opened first
  | lone h | hit h => exact (h ▸ hf).removed

/-- What is left of a queue keeps the invariants of all of them. -/
theorem Kept.front_taken {hit : Bool} (h : Kept qs c gs s) (ht : Taken (gs r k) p hs hit) :
    ∀ r' k', Front SameRow (setGroups gs r k hs r' k') :=
  setGroups_forall (P := fun _ _ l => Front SameRow l) h.front (ht.front (h.front r k))

theorem Kept.range_of_split (h : Kept qs c gs s) {act : Bool} (hgs : gs r k = gs₁ ++ ⟨x, act⟩ :: gs₂) :
    x.rank = r ∧ queueOf qs x.bank = k ∧ x.bank < c.numBanks := by
  have := h.range r k ⟨x, act⟩
  rw [hgs] at this
  exact this (by simp)

theorem Kept.range_taken {hit : Bool} (h : Kept qs c gs s) (ht : Taken (gs r k) p hs hit) :
    ∀ r' k', ∀ g ∈ setGroups gs r k hs r' k', g.tr.rank = r' ∧ queueOf qs g.tr.bank = k' ∧ g.tr.bank < c.numBanks := by
  refine setGroups_forall
    (P := fun r k l => ∀ g ∈ l, g.tr.rank = r ∧ queueOf qs g.tr.bank = k ∧ g.tr.bank < c.numBanks)
    h.range fun g hg => ?_
  obtain ⟨g', hg', htr⟩ := ht.sub g hg
  rw [← htr]
  exact h.range r k g' hg'

/-- An `ACTIVATE` goes to a bank whose row no column command waits for. -/
theorem Kept.activate (h : Kept qs c gs s) (same : Same c s s') (hgs : gs r k = gs₁ ++ ⟨x, true⟩ :: gs₂)
    (first : Apart gs₁ x) (hi : s.isIssuable c x.activate = true)
    (hq : ∀ r' k', s'.queues r' k' = flat (setGroups gs r k (gs₁ ++ ⟨x, false⟩ :: gs₂) r' k'))
    (hc : s'.rowAccessCounters = s.rowAccessCounters) :
    Kept qs c (setGroups gs r k (gs₁ ++ ⟨x, false⟩ :: gs₂)) (s'.finish c x.activate) := by
  obtain ⟨rfl, rfl, hx⟩ := h.range_of_split hgs
  have ht := Taken.activate hgs first
  have hidle : (s.bankStates x.rank x.bank).currentBankState ≠ .rowActive := by
    intro hc
    rcases (State.isIssuable_activate.1 hi).1 with hst | hst <;> rw [hc] at hst <;> cases hst
  have hself : ∀ t now, OpenAt x.row ((s.bankStates x.rank x.bank).after t now x.activate x.rank x.bank) :=
    fun t now => by
    simp [OpenAt, BankState.after, Transaction.activate, BankState.afterActivate]
  have hold : ∀ r' k', ∀ z ∈ lones (gs r' k'),
      OpenAt z.row ((s.bankStates r' z.bank).after c.timing s'.currentClockCycle x.activate r' z.bank) ∧
        s'.rowAccessCounters r' z.bank = 0 := by
    intro r' k' z hz
    obtain ⟨hopen, hcount⟩ := h.opened r' k' z hz
    refine ⟨hopen.after_of_ne (by simp [Transaction.activate]) ?_, hc ▸ hcount⟩
    rintro ⟨rfl, hb⟩
    rw [show z.bank = x.bank from hb] at hopen
    exact hidle hopen.1
  refine h.finish same (by simp [Transaction.activate]) hq (h.range_taken ht) (h.front_taken ht)
    (lones_setGroups_forall hold fun z hz => ?_) fun r' b hb hst => ?_
  · rcases mem_lones_opened.1 hz with rfl | hz
    · exact ⟨hself .., hc ▸ h.closed _ _ hx hidle⟩
    · exact hold _ _ z (hgs ▸ hz)
  · have hne : ¬(r' = x.rank ∧ b = x.bank) := by
      rintro ⟨rfl, rfl⟩
      exact hst (hself ..).1
    rw [hc]
    refine h.closed r' b hb fun hactive => hst ?_
    exact (after_of_ne (p := x.activate) (by simp [Transaction.activate]) hne).1.trans hactive

/-- A column command leaves its row open, and the counters of the rows that wait and of the closed ones. -/
theorem Kept.access (h : Kept qs c gs s) (same : Same c s s') {hit : Bool} (ht : Taken (gs r k) x.access hs hit)
    (hl : ∀ z ∈ lones hs, z ∈ lones (gs r k)) (hq : ∀ r' k', s'.queues r' k' = flat (setGroups gs r k hs r' k'))
    (hc : ∀ r' b, (∃ k', ∃ z ∈ lones (gs r' k'), z.bank = b) ∨ (s.bankStates r' b).currentBankState ≠ .rowActive →
      s'.rowAccessCounters r' b = s.rowAccessCounters r' b) :
    Kept qs c (setGroups gs r k hs) (s'.finish c x.access) := by
  have hold : ∀ r' k', ∀ z ∈ lones (gs r' k'),
      OpenAt z.row ((s.bankStates r' z.bank).after c.timing s'.currentClockCycle x.access r' z.bank) ∧
        s'.rowAccessCounters r' z.bank = 0 := fun r' k' z hz =>
    ⟨(h.opened r' k' z hz).1.after_access x r' z.bank, (hc _ _ (.inl ⟨k', z, hz, rfl⟩)).trans (h.opened r' k' z hz).2⟩
  refine h.finish same (access_ne_auto x) hq (h.range_taken ht) (h.front_taken ht)
    (lones_setGroups_forall hold fun z hz => hold r k z (hl z hz)) fun r' b hb hst => ?_
  have hst' : (s.bankStates r' b).currentBankState ≠ .rowActive :=
    fun hactive => hst ((after_access x r' b).1.trans hactive)
  exact (hc r' b (.inr hst')).trans (h.closed r' b hb hst')

theorem Kept.lone (h : Kept qs c gs s) (same : Same c s s') (hgs : gs r k = gs₁ ++ ⟨x, false⟩ :: gs₂)
    (first : Apart gs₁ x) (hq : ∀ r' k', s'.queues r' k' = flat (setGroups gs r k (gs₁ ++ gs₂) r' k'))
    (hc : s'.rowAccessCounters = s.rowAccessCounters) :
    Kept qs c (setGroups gs r k (gs₁ ++ gs₂)) (s'.finish c x.access) :=
  h.access same (Taken.lone hgs first) (fun _ hz => hgs ▸ mem_lones_removed.2 (.inr hz)) hq fun _ _ _ => by rw [hc]

/-- While a column command waits for the open row of its bank, no other one is a row hit. -/
theorem Kept.hit (h : Kept qs c gs s) (same : Same c s s') (hgs : gs r k = gs₁ ++ ⟨x, true⟩ :: gs₂)
    (first : Apart gs₁ x) (hi : s.isIssuable c x.access = true)
    (hq : ∀ r' k', s'.queues r' k' = flat (setGroups gs r k (gs₁ ++ gs₂) r' k'))
    (hc : s'.rowAccessCounters =
      (setCounter s x.rank x.bank (s.rowAccessCounters x.rank x.bank + 1)).rowAccessCounters) :
    Kept qs c (setGroups gs r k (gs₁ ++ gs₂)) (s'.finish c x.access) := by
  have hopen := openAt_of_isIssuable hi
  obtain ⟨rfl, rfl, -⟩ := h.range_of_split hgs
  refine h.access same (Taken.hit hgs first) (fun z hz => ?_) hq fun r' b hb => ?_
  · rw [hgs, lones_append, lones_cons_act]
    rwa [lones_append] at hz
  · rw [hc, setCounter_apply, if_neg]
    rintro ⟨rfl, rfl⟩
    obtain ⟨k', z, hz, hb⟩ | hst := hb
    · -- it would be for the same row, and the first one
      have hrow := (h.opened _ _ z hz).1.2
      obtain ⟨-, rfl, -⟩ := h.range _ _ _ (mem_of_mem_lones hz)
      have hf := h.front x.rank (queueOf qs x.bank)
      rw [show queueOf qs (Group.tr ⟨z, false⟩).bank = queueOf qs x.bank from congrArg _ hb, hgs] at hz
      rw [hgs] at hf
      rw [hb] at hrow
      exact hf.not_same first hz (fun h => ⟨h.1.symm, h.2.symm⟩) ⟨hb, hrow.symm.trans hopen.2⟩
    · exact hst hopen.1

/-- A row that a column command waits for has no accesses counted, so that it is not closed. -/
theorem Kept.precharge (h : Kept qs c gs s) (same : Same c s s') (ht : 1 ≤ c.totalRowAccesses) {b : Nat}
    (free : ∀ x ∈ lones (gs r (queueOf qs b)), x.bank = b → x.row = (s.bankStates r b).openRowAddress →
      s.rowAccessCounters r b = c.totalRowAccesses)
    (hq : s'.queues = s.queues) (hc : s'.rowAccessCounters = (setCounter s r b 0).rowAccessCounters) :
    Kept qs c gs (s'.finish c (prechargePacket r b)) := by
  have hnone : ∀ k', ∀ z ∈ lones (gs r k'), z.bank ≠ b := by
    intro k' z hz hb
    obtain ⟨-, rfl, -⟩ := h.range _ _ _ (mem_of_mem_lones hz)
    obtain ⟨hopen, hcount⟩ := h.opened _ _ z hz
    subst hb
    have := free z hz rfl hopen.2.symm
    omega
  refine h.finish same ⟨nofun, nofun⟩ (fun r' k' => by rw [hq]; exact h.queues r' k') h.range h.front
    (fun r' k' z hz => ?_) fun r' b' hb' hst => ?_
  · obtain ⟨hopen, hcount⟩ := h.opened r' k' z hz
    have hne : ¬(r' = r ∧ z.bank = b) := by
      rintro ⟨rfl, hb⟩
      exact hnone k' z hz hb
    refine ⟨hopen.after_of_ne nofun hne, ?_⟩
    rw [hc, setCounter_apply, if_neg hne]
    exact hcount
  · rw [hc, setCounter_apply]
    split
    · rfl
    · next hne =>
      refine h.closed r' b' hb' fun hactive => hst ?_
      exact (after_of_ne (p := prechargePacket r b) nofun hne).1.trans hactive

theorem Kept.refresh (h : Kept qs c gs s) (same : Same c s s') (hq : s'.queues = s.queues)
    (hc : s'.rowAccessCounters = s.rowAccessCounters) {rank : Nat}
    (closed : ∀ b < c.numBanks, (s.bankStates rank b).currentBankState ≠ .rowActive) :
    Kept qs c gs (s'.finish c (refreshPacket rank)) := by
  have hother : ∀ r', r' ≠ rank → ∀ b,
      (s.bankStates r' b).after c.timing s'.currentClockCycle (refreshPacket rank) r' b =
      s.bankStates r' b := fun r' hr b => after_refresh_of_ne (p := refreshPacket rank) rfl hr b
  refine h.finish same ⟨nofun, nofun⟩ (fun r' k' => by rw [hq]; exact h.queues r' k') h.range h.front
    (fun r' k' z hz => ?_) fun r' b hb hst => ?_
  · obtain ⟨hopen, hcount⟩ := h.opened r' k' z hz
    have hr : r' ≠ rank := by
      rintro rfl
      exact closed z.bank (h.range _ _ _ (mem_of_mem_lones hz)).2.2 hopen.1
    rw [hother r' hr, hc]
    exact ⟨hopen, hcount⟩
  · rw [hc]
    by_cases hr : r' = rank
    · exact h.closed r' b hb (hr ▸ closed b hb)
    · rw [hother r' hr] at hst
      exact h.closed r' b hb hst

theorem Kept.idle (h : Kept qs c gs s) (same : Same c s s') (hq : s'.queues = s.queues)
    (hc : s'.rowAccessCounters = s.rowAccessCounters) : Kept qs c gs s'.idle where
  queues r k := (congrFun (congrFun hq r) k).trans (h.queues r k)
  range := h.range
  front := h.front
  opened r k x hx := by
    show OpenAt x.row (s'.bankStates r x.bank) ∧ s'.rowAccessCounters r x.bank = 0
    rw [same.unpowered.1, hc]
    exact h.opened r k x hx
  closed r b hb := by
    show (s'.bankStates r b).currentBankState ≠ _ → s'.rowAccessCounters r b = 0
    rw [same.unpowered.1, hc]
    exact h.closed r b hb
  steady r b := by
    show Steady (s'.bankStates r b)
    rw [same.unpowered.1]
    exact h.steady r b
  pre := same.pre

theorem Kept.conclude {out : Option BusPacket × State FR} {gs' : Nat → Nat → List Group} (h : Kept qs c gs s)
    (ht : 1 ≤ c.totalRowAccesses) (hpopped : Popped qs c gs s out gs') (same : Same c s out.2) :
    Kept qs c gs' (State.conclude c out).2 := by
  cases hpopped with
  | nothing queues counters => exact h.idle same queues counters
  | taken htaken issuable queues counters =>
    generalize hl : gs _ _ = l at htaken
    cases htaken with
    | activate hgs first => exact h.activate same (hl.trans hgs) first issuable queues counters
    | lone hgs first => exact h.lone same (hl.trans hgs) first queues counters
    | hit hgs first => exact h.hit same (hl.trans hgs) first issuable queues counters
  | precharge _ _ free queues counters => exact h.precharge same ht free queues counters
  | refresh queues counters closed _ => exact h.refresh same queues counters closed

/-- What is popped is for no bank that is powered down. -/
theorem Popped.awake {out : Option BusPacket × State FR} {gs' : Nat → Nat → List Group} (h : Kept qs c gs s)
    (hpopped : Popped qs c gs s out gs') : ∀ p ∈ out.1, Awake c s p := by
  intro p hp
  cases hpopped with
  | nothing => cases hp
  | taken htaken issuable =>
    cases hp
    refine awake_of_isIssuable ?_ issuable
    generalize hl : gs _ _ = l at htaken
    cases htaken with
    | activate hgs => exact (h.range_of_split (hl.trans hgs)).2.2
    | lone hgs => exact (h.range_of_split (hl.trans hgs)).2.2
    | hit hgs => exact (h.range_of_split (hl.trans hgs)).2.2
  | precharge hb active =>
    cases hp
    exact ⟨hb, active⟩
  | refresh _ _ _ up =>
    cases hp
    exact up

end Kept

/-! ## What is sent and what is queued -/

def isColumn (p : BusPacket) : Bool := p.busPacketType = .read ∨ p.busPacketType = .write

/-- A column command for a row. -/
def columnAt (rank bank row : Nat) (p : BusPacket) : Bool :=
  isColumn p && decide (p.rank = rank ∧ p.bank = bank ∧ p.row = row)

def goesTo (rank bank row : Nat) (x : Transaction) : Bool := decide (x.rank = rank ∧ x.bank = bank ∧ x.row = row)

/-- The column commands of a queue for a row. -/
def rowOf (bank row : Nat) (gs : List Group) : List BusPacket :=
  (gs.filter fun g => decide (g.tr.bank = bank ∧ g.tr.row = row)).map fun g => g.tr.access

/-- For every row, what was sent and what is queued are the column commands of what entered. -/
def Accounts (qs : QueuingStructure) (gs : Nat → Nat → List Group) (entered : List Transaction) (log : List BusPacket) :
    Prop :=
  ∀ r b row, log.filter (columnAt r b row) ++ rowOf b row (gs r (queueOf qs b)) =
    (entered.filter (goesTo r b row)).map Transaction.access

section Accounts

variable {qs : QueuingStructure} {c : Config} {gs : Nat → Nat → List Group} {s : State FR} {r k : Nat}
  {gs₁ gs₂ hs : List Group} {x : Transaction} {p : BusPacket} {entered : List Transaction}
  {log : List BusPacket} {gs' : Nat → Nat → List Group}

theorem isColumn_access (x : Transaction) : isColumn x.access = true := by
  obtain ⟨write, _⟩ := x
  cases write <;> rfl

theorem columnAt_access (r b row : Nat) (x : Transaction) : columnAt r b row x.access = goesTo r b row x := by
  rw [columnAt, isColumn_access]
  rfl

theorem rowOf_append (b row : Nat) (gs hs : List Group) :
    rowOf b row (gs ++ hs) = rowOf b row gs ++ rowOf b row hs := by
  simp [rowOf]

theorem rowOf_cons_self (x : Transaction) (act : Bool) (gs : List Group) :
    rowOf x.bank x.row (⟨x, act⟩ :: gs) = x.access :: rowOf x.bank x.row gs := by
  simp [rowOf]

theorem rowOf_cons_of_ne {b row : Nat} (h : ¬(x.bank = b ∧ x.row = row)) (act : Bool) (gs : List Group) :
    rowOf b row (⟨x, act⟩ :: gs) = rowOf b row gs := by
  simp [rowOf, h]

theorem rowOf_cons_congr (b row : Nat) (x : Transaction) {act act' : Bool} (gs : List Group) :
    rowOf b row (⟨x, act⟩ :: gs) = rowOf b row (⟨x, act'⟩ :: gs) := by
  by_cases h : x.bank = b ∧ x.row = row
  · obtain ⟨rfl, rfl⟩ := h
    rw [rowOf_cons_self, rowOf_cons_self]
  · rw [rowOf_cons_of_ne h, rowOf_cons_of_ne h]

theorem rowOf_eq_nil (h : Apart gs₁ x) : rowOf x.bank x.row gs₁ = [] := by
  unfold rowOf
  rw [List.map_eq_nil_iff, List.filter_eq_nil_iff]
  intro g hg
  simpa using h g hg

theorem filter_flat {gs : List Group} (h : ∀ g ∈ gs, g.tr.rank = r) (b row : Nat) :
    (flat gs).filter (columnAt r b row) = rowOf b row gs := by
  induction gs with
  | nil => rfl
  | cons g gs ih =>
    obtain ⟨x, act⟩ := g
    have hr : x.rank = r := h _ List.mem_cons_self
    have hpackets : (packets ⟨x, act⟩).filter (columnAt r b row) = [x.access].filter (columnAt r b row) := by
      cases act
      · rfl
      · rfl
    rw [flat_cons, List.filter_append, hpackets,
      ih fun g hg => h g (List.mem_cons_of_mem _ hg)]
    by_cases hx : x.bank = b ∧ x.row = row
    · obtain ⟨rfl, rfl⟩ := hx
      rw [rowOf_cons_self, List.filter_cons_of_pos (by simp [columnAt_access, goesTo, hr])]
      rfl
    · rw [rowOf_cons_of_ne hx, List.filter_cons_of_neg (by simp [columnAt_access, goesTo, hr, hx])]
      rfl

/-- A command that is no column command. -/
theorem Accounts.other (h : Accounts qs gs entered log) (hp : isColumn p = false)
    (hgs : ∀ b row r k, rowOf b row (gs' r k) = rowOf b row (gs r k)) :
    Accounts qs gs' entered (log ++ [p]) := by
  intro r b row
  rw [List.filter_append, List.filter_cons_of_neg (by simp [columnAt, hp]), List.filter_nil, List.append_nil, hgs]
  exact h r b row

/-- The first column command for its row. -/
theorem Accounts.access (h : Accounts qs gs entered log) {act : Bool} (hgs : gs r k = gs₁ ++ ⟨x, act⟩ :: gs₂)
    (hr : x.rank = r) (hk : queueOf qs x.bank = k) (first : Apart gs₁ x) :
    Accounts qs (setGroups gs r k (gs₁ ++ gs₂)) entered (log ++ [x.access]) := by
  intro r' b row
  rw [← h r' b row, List.filter_append]
  subst hr hk
  by_cases hx : x.rank = r' ∧ x.bank = b ∧ x.row = row
  · obtain ⟨rfl, rfl, rfl⟩ := hx
    rw [List.filter_cons_of_pos (by simp [columnAt_access, goesTo]), List.filter_nil, setGroups_self, hgs, rowOf_append,
      rowOf_append, rowOf_cons_self, rowOf_eq_nil first, List.append_assoc]
    rfl
  · rw [List.filter_cons_of_neg (by simpa [columnAt_access, goesTo] using hx), List.filter_nil, List.append_nil]
    unfold setGroups
    split
    · next he =>
      rw [he.1, he.2, hgs, rowOf_append, rowOf_append, rowOf_cons_of_ne fun hbr => hx ⟨he.1.symm, hbr⟩]
    · rfl

theorem Accounts.enqueue (h : Accounts qs gs entered log) (x : Transaction) :
    Accounts qs (setGroups gs x.rank (queueOf qs x.bank) (gs x.rank (queueOf qs x.bank) ++ [⟨x, true⟩]))
      (entered ++ [x]) log := by
  intro r b row
  rw [List.filter_append, List.map_append, ← h r b row, List.append_assoc]
  congr 1
  by_cases hx : x.rank = r ∧ x.bank = b ∧ x.row = row
  · obtain ⟨rfl, rfl, rfl⟩ := hx
    rw [setGroups_self, rowOf_append, rowOf_cons_self, List.filter_cons_of_pos (by simp [goesTo])]
    rfl
  · rw [List.filter_cons_of_neg (by simpa [goesTo] using hx), List.filter_nil, List.map_nil, List.append_nil]
    unfold setGroups
    split
    · next he =>
      rw [rowOf_append, rowOf_cons_of_ne fun hbr => hx ⟨he.1.symm, hbr⟩, he.1, he.2]
      exact List.append_nil _
    · rfl

theorem Accounts.popped {out : Option BusPacket × State FR} (h : Kept qs c gs s)
    (ha : Accounts qs gs entered log) (hpopped : Popped qs c gs s out gs') :
    Accounts qs gs' entered (log ++ out.1.toList) := by
  cases hpopped with
  | nothing => exact (List.append_nil log).symm ▸ ha
  | taken htaken =>
    generalize hl : gs _ _ = l at htaken
    cases htaken with
    | activate hgs =>
      subst hgs
      refine ha.other rfl fun b row r' k' => ?_
      unfold setGroups
      split
      · next he =>
        rw [he.1, he.2, hl, rowOf_append, rowOf_append, rowOf_cons_congr]
      · rfl
    | lone hgs first =>
      obtain ⟨hr, hk, -⟩ := h.range_of_split (hl.trans hgs)
      exact ha.access (hl.trans hgs) hr hk first
    | hit hgs first =>
      obtain ⟨hr, hk, -⟩ := h.range_of_split (hl.trans hgs)
      exact ha.access (hl.trans hgs) hr hk first
  | precharge => exact ha.other rfl fun _ _ _ _ => rfl
  | refresh => exact ha.other rfl fun _ _ _ _ => rfl

/-- A column command is popped only while its row is open. -/
theorem Popped.openAt {out : Option BusPacket × State FR} (hpopped : Popped qs c gs s out gs') :
    ∀ p ∈ out.1, isColumn p = true → OpenAt p.row (s.bankStates p.rank p.bank) := by
  intro p hp hcol
  cases hpopped with
  | nothing => cases hp
  | taken htaken issuable =>
    cases hp
    cases htaken with
    | activate => cases hcol
    | lone => exact openAt_of_isIssuable issuable
    | hit => exact openAt_of_isIssuable issuable
  | precharge =>
    cases hp
    cases hcol
  | refresh =>
    cases hp
    cases hcol

end Accounts

/-! ## Runs -/

theorem Kept.enqueued {qs : QueuingStructure} {c : Config} {gs : Nat → Nat → List Group} {s : State FR}
    {x : Transaction}
    (h : Kept qs c gs s) (hx : x.bank < c.numBanks) :
    Kept qs c (setGroups gs x.rank (queueOf qs x.bank) (gs x.rank (queueOf qs x.bank) ++ [⟨x, true⟩]))
      (setQueue s x.rank (queueOf qs x.bank) (getCommandQueue qs s x.rank x.bank ++ [x.activate, x.access])) where
  queues r k := by
    have hflat : getCommandQueue qs s x.rank x.bank ++ [x.activate, x.access] =
        flat (gs x.rank (queueOf qs x.bank) ++ [⟨x, true⟩]) := by
      rw [getCommandQueue, h.queues, flat_append]
      rfl
    rw [hflat]
    exact setQueue_flat h.queues rfl _ _ _ r k
  range := by
    refine setGroups_forall
      (P := fun r k l => ∀ g ∈ l, g.tr.rank = r ∧ queueOf qs g.tr.bank = k ∧ g.tr.bank < c.numBanks)
      h.range fun g hg => ?_
    rcases List.mem_append.1 hg with hg | hg
    · exact h.range _ _ g hg
    · obtain rfl := List.mem_singleton.1 hg
      exact ⟨rfl, rfl, hx⟩
  front := setGroups_forall (P := fun _ _ l => Front SameRow l) h.front ((h.front _ _).concat x)
  opened := by
    refine lones_setGroups_forall h.opened fun z hz => h.opened x.rank (queueOf qs x.bank) z ?_
    simpa [lones] using hz
  closed := h.closed
  steady := h.steady
  pre := h.pre

namespace Controller

variable {y : System} {qs : QueuingStructure} {gs : Nat → Nat → List Group} {s : Controller}

theorem enqueue_of_room {s : State FR} {x : Transaction}
    (h : (getCommandQueue qs s x.rank x.bank).length + 2 ≤ y.config.cmdQueueDepth) :
    ∃ s₁, enqueue y qs s x.activate = some s₁ ∧ enqueue y qs s₁ x.access =
      some (setQueue s x.rank (queueOf qs x.bank) (getCommandQueue qs s x.rank x.bank ++ [x.activate, x.access])) := by
  let s₁ := setQueue s x.rank (queueOf qs x.bank) (getCommandQueue qs s x.rank x.bank ++ [x.activate])
  have hq : getCommandQueue qs s₁ x.rank x.bank = getCommandQueue qs s x.rank x.bank ++ [x.activate] := by
    rw [getCommandQueue, setQueue_queues, if_pos ⟨rfl, rfl⟩]
  refine ⟨s₁, if_neg ?_, ?_⟩
  · rw [List.length_append]
    exact Nat.not_lt.2 (Nat.le_of_succ_le h)
  · have hlen : ¬y.config.cmdQueueDepth < (getCommandQueue qs s₁ x.rank x.bank ++ [x.access]).length := by
      rw [hq, List.length_append, List.length_append]
      exact Nat.not_lt.2 h
    refine (if_neg hlen).trans (congrArg some ?_)
    show setQueue s₁ x.rank (queueOf qs x.bank) (getCommandQueue qs s₁ x.rank x.bank ++ [x.access]) = _
    rw [hq, List.append_assoc]
    simp [s₁, setQueue]

structure Inv (y : System) (qs : QueuingStructure) (gs : Nat → Nat → List Group) (s : Controller) : Prop where
  kept : Kept qs y.config gs s.state
  rested : Rested y.config s.state
  accounts : Accounts qs gs s.entered (s.log.map Prod.fst)
  opened : ∀ e ∈ s.log, isColumn e.1 = true → OpenAt e.1.row e.2
  depth : ∀ r k, (s.state.queues r k).length ≤ y.config.cmdQueueDepth
  waiting : ∀ x ∈ s.transactionQueue, x.bank < y.config.numBanks

theorem Inv.init (hr : 0 < y.config.numRanks) (hb : 0 < y.config.numBanks) : Inv y qs (fun _ _ => []) {} where
  kept := Kept.init hr hb
  rested := ⟨fun _ _ _ => rfl, fun _ h => nomatch h⟩
  accounts _ _ _ := rfl
  opened _ h := nomatch h
  depth _ _ := Nat.zero_le _
  waiting _ h := nomatch h

theorem flat_length_taken {gs hs : List Group} {p : BusPacket} {hit : Bool} (h : Taken gs p hs hit) :
    (flat hs).length ≤ (flat gs).length := by
  cases h with
  | activate h | lone h | hit h =>
    simp only [h, flat_append, flat_cons, packets, List.length_append, if_true, Bool.false_eq_true, if_false,
      List.length_cons, List.length_nil]
    omega

theorem Inv.pop (h : Inv y qs gs s) (ht : 1 ≤ y.config.totalRowAccesses) (refresh : Option Nat) :
    ∃ gs', Inv y qs gs' (s.pop y qs refresh) := by
  have hK := h.kept.ready refresh
  obtain ⟨gs', hpopped, hsame⟩ := @popClosePage_popped qs _ _ _ hK.queues hK.front hK.pre
  unfold Controller.pop
  rw [State.update_eq]
  generalize (s.state.ready y.config refresh).popClosePage y.config (methods qs) = out at hpopped hsame
  refine ⟨gs', hK.conclude ht hpopped hsame, ?_, ?_, fun e he hcol => ?_, fun r k => ?_, h.waiting⟩
  · exact (h.rested.ready refresh).conclude hsame.unpowered (Nat.zero_lt_of_lt hK.pre.2) (hpopped.awake hK)
  · dsimp only
    rw [List.map_append, List.map_map, State.conclude_fst, show (Prod.fst ∘ fun p : BusPacket => (p, _)) = id from rfl,
      List.map_id]
    exact h.accounts.popped hK hpopped
  · dsimp only at he
    rw [State.conclude_fst] at he
    rcases List.mem_append.1 he with he | he
    · exact h.opened e he hcol
    · obtain ⟨p, hp, rfl⟩ := List.mem_map.1 he
      exact hpopped.openAt p (Option.mem_toList.1 hp) hcol
  · rw [State.conclude_queues]
    refine le_trans ?_ (h.depth r k)
    show (out.2.queues r k).length ≤ ((s.state.ready y.config refresh).queues r k).length
    cases hpopped with
    | nothing queues | precharge _ _ _ queues | refresh queues => rw [queues]
    | @taken s' r' k' p hs hit htaken _ queues =>
      rw [queues, hK.queues]
      exact setGroups_forall (P := fun r k l => (flat l).length ≤ (flat (gs r k)).length) (fun _ _ => le_rfl)
        (flat_length_taken htaken) r k

theorem Inv.updateTransactionQueue (h : Inv y qs gs s) :
    Ensures .exit (fun s' => ∃ gs', Inv y qs gs' s') (s.updateTransactionQueue y qs) := by
  unfold Controller.updateTransactionQueue
  split
  · exact ensures_ok ⟨gs, h⟩
  · next x rest hp =>
    obtain ⟨l₁, l₂, hl, rfl, -, hroom⟩ := popFirst_some hp
    have hx : x.bank < y.config.numBanks := h.waiting x (by rw [hl]; simp)
    have hroom := of_decide_eq_true hroom
    obtain ⟨s₁, h₁, h₂⟩ := enqueue_of_room hroom
    simp only [h₁, h₂, orFail, bind, Except.bind]
    refine ensures_ok ⟨_, h.kept.enqueued hx, ⟨h.rested.calm, h.rested.down⟩, h.accounts.enqueue x, h.opened,
      fun r k => ?_, fun z hz => h.waiting z ?_⟩
    · rw [setQueue_queues]
      split
      · rw [List.length_append]
        exact hroom
      · exact h.depth r k
    · rw [hl]
      rcases List.mem_append.1 hz with hz | hz <;> simp [hz]

theorem Inv.powerChecks (h : Inv y qs gs s) (waiting : List Nat) (clock : Nat) :
    Inv y qs gs (s.powerChecks y qs waiting clock) := by
  obtain ⟨hok, hbanks⟩ := State.powerChecks_rested h.rested (isEmpty y qs) waiting clock
  obtain ⟨banks, down, up, hrest⟩ := s.state.powerChecks_eq y.config (isEmpty y qs) waiting clock
  unfold Controller.powerChecks
  rw [hrest] at hok hbanks ⊢
  refine ⟨⟨h.kept.queues, h.kept.range, h.kept.front, fun r k x hx => ?_, fun r b hb hst => ?_, fun r b hb => ?_,
    h.kept.pre⟩, hok, h.accounts, h.opened, h.depth, h.waiting⟩
  · obtain ⟨hopen, hcount⟩ := h.kept.opened r k x hx
    exact ⟨(hbanks r x.bank (.inl hopen.1)).symm ▸ hopen, hcount⟩
  · exact h.kept.closed r b hb fun hactive => hst ((congrArg _ (hbanks r b (.inl hactive))).trans hactive)
  · have he := hbanks r b (.inr hb)
    rw [he] at hb ⊢
    exact h.kept.steady r b hb

theorem Inv.step (h : Inv y qs gs s) (ht : 1 ≤ y.config.totalRowAccesses) (a : Act) :
    Ensures .exit (fun s' => ∃ gs', Inv y qs gs' s') (s.step y qs a) := by
  have hcheck : ∀ {b}, Avoids Dram.Controller.Fault.exit (check .notEnabled b) := avoids_check nofun
  cases a with
  | addTransaction write address threadID =>
    refine hcheck.bind fun _ hx => ?_
    rw [check_ok, decide_eq_true_eq] at hx
    split
    · refine ensures_ok ⟨gs, h.kept, h.rested, h.accounts, h.opened, h.depth, fun z hz => ?_⟩
      rcases List.mem_append.1 hz with hz | hz
      · exact h.waiting z hz
      · rw [List.mem_singleton.1 hz]
        exact hx.2
    · exact ensures_ok ⟨gs, h⟩
  | update refresh waiting =>
    refine hcheck.bind fun _ _ => ?_
    obtain ⟨gs₁, h₁⟩ := h.pop ht refresh
    refine h₁.updateTransactionQueue.bind fun s' _ hs => ?_
    obtain ⟨gs₂, h₂⟩ := hs
    exact ensures_ok ⟨gs₂, h₂.powerChecks waiting _⟩

end Controller

/-- Every queued column command has its `ACTIVATE` right before it or finds its row open. -/
theorem Kept.split {qs : QueuingStructure} {c : Config} {gs : Nat → Nat → List Group} {s : State FR}
    (h : Kept qs c gs s)
    {r k : Nat} {l₁ l₂ : List BusPacket} {p : BusPacket} (hl : s.queues r k = l₁ ++ p :: l₂) (hp : isColumn p = true) :
    l₁.getLast? = some { p with busPacketType := .activate } ∨ OpenAt p.row (s.bankStates p.rank p.bank) := by
  rw [h.queues] at hl
  cases found_of_split hl with
  | activate => cases hp
  | hit =>
    rw [List.getLast?_concat]
    exact .inl rfl
  | @lone gs₁ gs₂ x hgs =>
    obtain ⟨rfl, -, -⟩ := h.range_of_split hgs
    refine .inr (h.opened x.rank k x ?_).1
    rw [hgs, lones_append, lones_cons_lone]
    simp

/-- First-ready scheduling with open pages, from any run: for every row the column
commands that were popped, followed by those in the queue, are those of the transactions
that entered, in that order and each once; a column command is popped only while its row is
open; a queued column command whose `ACTIVATE` is gone finds its row open, at the end of
the cycle and when `pop` is called next; and no queue has more than `CMD_QUEUE_DEPTH`
commands. -/
theorem first_ready (y : System) (qs : QueuingStructure) (hr : 0 < y.config.numRanks)
    (hb : 0 < y.config.numBanks) (ht : 1 ≤ y.config.totalRowAccesses) (as : List Controller.Act) :
    runs (Controller.step y qs) {} as ≠ .error .exit ∧
    ∀ s, runs (Controller.step y qs) {} as = .ok s →
      (∀ r b row, (s.log.map Prod.fst).filter (columnAt r b row) ++
          (getCommandQueue qs s.state r b).filter (columnAt r b row) =
        (s.entered.filter (goesTo r b row)).map Transaction.access) ∧
      (∀ e ∈ s.log, isColumn e.1 = true → OpenAt e.1.row e.2) ∧
      (∀ r k l₁ p l₂, s.state.queues r k = l₁ ++ p :: l₂ → isColumn p = true →
        l₁.getLast? = some { p with busPacketType := .activate } ∨
        OpenAt p.row (s.state.bankStates p.rank p.bank) ∧
          ∀ refresh, OpenAt p.row ((s.state.ready y.config refresh).bankStates p.rank p.bank)) ∧
      ∀ r k, (s.state.queues r k).length ≤ y.config.cmdQueueDepth := by
  have hrun : Ensures .exit (fun s => ∃ gs, Controller.Inv y qs gs s) (runs (Controller.step y qs) {} as) :=
    runs_ensures _ (fun s a hs => hs.elim fun gs h => h.step ht a) ⟨_, Controller.Inv.init hr hb⟩
  refine ⟨hrun.1, fun s hs => ?_⟩
  obtain ⟨gs, h⟩ := hrun.2 s hs
  refine ⟨fun r b row => ?_, h.opened, fun r k l₁ p l₂ hl hp => ?_, h.depth⟩
  · rw [getCommandQueue, h.kept.queues, filter_flat fun g hg => (h.kept.range _ _ g hg).1]
    exact h.accounts r b row
  · rcases h.kept.split hl hp with hact | hopen
    · exact .inl hact
    · exact .inr ⟨hopen, fun refresh => hopen.tick (h.kept.steady _ _)⟩

/-- One bank, a row of which may be hit once; the row of an address is its last bit. -/
def oneBank : System where
  config := {
    timing := ddr3Sg15
    numRanks := 1
    numBanks := 1
    numPids := 2
    cmdQueueDepth := 6
    totalRowAccesses := 1
    schedulingPolicy := .rankThenBankRoundRobin
    useLowPower := true }
  transQueueDepth := 8
  addressMapping a := (a % 2, 0, 0)

/-- Rows 0, 1 and 0. -/
def threeAccesses : List Controller.Act :=
  [.addTransaction true 0 0, .addTransaction false 1 0, .addTransaction false 2 1] ++
    List.replicate 50 (.update none [])

/-- The read of address 2 hits the row that the write opened and overtakes the read of
another row. -/
theorem first_ready_threeAccesses : ∃ s,
    runs (Controller.step oneBank .perRank) {} threeAccesses = .ok s ∧
    s.log.map (fun e => (e.1.physicalAddress, e.1.busPacketType)) =
      [(0, .activate), (0, .write), (2, .read), (0, .precharge), (1, .activate)] ∧
    (s.state.queues 0 0).map (fun p => (p.physicalAddress, p.busPacketType)) = [(1, .read)] ∧
    (∀ r b row, (s.log.map Prod.fst).filter (columnAt r b row) ++
        (getCommandQueue .perRank s.state r b).filter (columnAt r b row) =
      (s.entered.filter (goesTo r b row)).map Transaction.access) := by
  refine exists_ok (fun s => s.log.map (fun e => (e.1.physicalAddress, e.1.busPacketType)) =
      [(0, .activate), (0, .write), (2, .read), (0, .precharge), (1, .activate)] ∧
    (s.state.queues 0 0).map (fun p => (p.physicalAddress, p.busPacketType)) = [(1, .read)]) (by decide +kernel) ?_
  rintro s hs ⟨hlog, hqueue⟩
  exact ⟨hlog, hqueue, ((first_ready oneBank .perRank (by decide) (by decide) (by decide) threeAccesses).2 s hs).1⟩

end FR

end DynamicCache.Dram
