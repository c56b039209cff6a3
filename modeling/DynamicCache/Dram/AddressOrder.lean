import DynamicCache.Dram.FixedAddress
import DynamicCache.Dram.Serving

/-!
# The order of one address (`CommandQueueFA.cpp`)

`CommandQueueFA` does not check that a column command is not taken before the `ACTIVATE`
in front of it: that check of `CommandQueueTP` is commented out.  Two column commands of
one address need the same open row, so both may be issuable with one `ACTIVATE`; but a
read waits for `nextRead` and a write for `nextWrite`, and after a read in another bank
of the rank `nextWrite` is the later one.  A read then overtakes a write to its own
address (`read_overtakes_write`).

Nothing else can reorder them: as long as in every cycle an earlier command of an
address is due when a later one is (`InStep`), the commands of an address leave the queue
as they entered it (`address_order`).
-/

namespace DynamicCache.Dram.FA

open Lib

/-- A read or write of pid `q` for address `a`. -/
def columnOf (q a : Nat) (p : BusPacket) : Bool :=
  p.busPacketType ≠ .activate ∧ p.busPacketType ≠ .refresh ∧ p.threadID = q ∧ p.physicalAddress = a

/-- When a read or write is due. -/
def dueTime (s : State FA) (p : BusPacket) : Nat :=
  match p.busPacketType with
  | .write | .writeP => (s.bankStates p.rank p.bank).nextWrite
  | _ => (s.bankStates p.rank p.bank).nextRead

/-- If `x` and `z` are column commands of one address and its row is open, `x` is due when
`z` is. -/
def Precedes (s : State FA) (x z : BusPacket) : Prop :=
  x.busPacketType ≠ .activate → z.busPacketType ≠ .activate → x.physicalAddress = z.physicalAddress →
  (s.bankStates z.rank z.bank).currentBankState = .rowActive →
  z.row = (s.bankStates z.rank z.bank).openRowAddress →
  dueTime s z ≤ s.currentClockCycle → dueTime s x ≤ s.currentClockCycle

instance (s : State FA) : DecidableRel (Precedes s) := fun _ _ => inferInstanceAs (Decidable (_ → _))

def InStep (c : Config) (s : State FA) : Prop :=
  ∀ r < c.numRanks, ∀ q < c.numPids, (s.queues r q).Pairwise (Precedes s)

instance (c : Config) (s : State FA) : Decidable (InStep c s) :=
  inferInstanceAs (Decidable (∀ r < c.numRanks, ∀ q < c.numPids, List.Pairwise (Precedes s) (s.queues r q)))

/-- The condition of a step: the commands are in step when the command queue is popped. -/
def StepsInOrder (y : System) (s : Controller FA) : Controller.Action → Prop
  | .update _ _ => InStep y.config s.state
  | _ => True

instance (y : System) (s : Controller FA) (a : Controller.Action) : Decidable (StepsInOrder y s a) := by
  unfold StepsInOrder
  induction a using Controller.Action.casesOn <;> infer_instance

/-! ## What is taken out of the queues -/

/-- What the methods of the scheduler do to the queues. -/
inductive Took (c : Config) (s : State FA) : Option BusPacket × State FA → Prop
  | nothing {s' : State FA} (queues : s'.queues = s.queues) : Took c s (none, s')
  | refresh {s' : State FA} (queues : s'.queues = s.queues) (rank : Nat) : Took c s (some (refreshPacket rank), s')
  /-- of the column commands for the row, it is the first that may be sent -/
  | command {s' : State FA} {r q : Nat} {l₁ l₂ : List BusPacket} {p : BusPacket} (h : s.queues r q = l₁ ++ p :: l₂)
    (issuable : s.isIssuable c p = true)
    (first : ∀ x ∈ l₁, x.busPacketType ≠ .activate → x.row = p.row → x.bank = p.bank → s.isIssuable c x = false)
    (queues : ∀ r' q', s'.queues r' q' = if r' = r ∧ q' = q then l₁ ++ l₂ else s.queues r' q') :
    Took c s (some p, s')

section Took

variable {c : Config} {s : State FA}

/-- A search through one queue. -/
theorem took_popFirst {ok : Option BusPacket → BusPacket → Bool} {s₁ : State FA} {r q : Nat} {p : BusPacket}
    {rest : List BusPacket} (h : popFirst ok none (s.queues r q) = some (p, rest)) (hq : s₁.queues = s.queues)
    (hp : ∀ u, ok u p = true → s.isIssuable c p = true)
    (hx : ∀ u u' x, ok u p = true → ok u' x = false → x.busPacketType ≠ .activate → x.row = p.row →
      x.bank = p.bank → s.isIssuable c x = false) : Took c s (some p, TP.setQueue s₁ r q rest) := by
  obtain ⟨l₁, l₂, hl, rfl, ⟨u, hu⟩, hfirst⟩ := popFirst_first h
  refine .command hl (hp u hu) (fun x hm => ?_) fun r' q' => ?_
  · obtain ⟨u', hu'⟩ := hfirst x hm
    exact hx u u' x hu hu'
  · rw [TP.setQueue_queues, hq]

theorem newTurn_same (s : State FA) (pid : Nat) :
    (newTurn s pid).queues = s.queues ∧ ∀ c, (newTurn s pid).isIssuable c = s.isIssuable c := by
  unfold newTurn
  split <;> exact ⟨rfl, fun _ => rfl⟩

theorem normalPopClosePage_took (w : Turns) : Took c s (normalPopClosePage w c s) := by
  unfold normalPopClosePage
  dsimp only
  generalize w.isBufferTime _ _ _ _ _ = buffer
  generalize w.getCurrentPID c.numPids s.currentClockCycle = pid
  obtain ⟨hq, hi⟩ := newTurn_same s pid
  generalize newTurn s pid = s₁ at hq hi ⊢
  unfold search
  split
  · next r b q p rest hv =>
    have hv := rotate_some hv
    unfold scan at hv
    split at hv
    · -- the queue of the last turn's pid comes first
      split at hv
      · next x hx =>
        obtain ⟨rfl, rfl⟩ := Prod.mk.inj (Option.some.inj hv)
        rw [hq] at hx
        refine took_popFirst hx hq (fun _ hu => ?_) fun _ _ x _ hu hact _ _ => ?_
        · rw [← hi]
          exact (of_decide_eq_true hu).1
        · simpa [acceptsLast, hact, hi] using hu
      · obtain ⟨⟨p', rest'⟩, hx, he⟩ := Option.map_eq_some_iff.1 hv
        cases he
        rw [hq] at hx
        refine took_popFirst hx hq (fun _ hu => ?_) fun _ _ x _ hu hact _ _ => ?_
        · rw [← hi]
          exact (of_decide_eq_true hu).1
        · simpa [accepts, hact, hi] using hu
    · cases hv
  · exact .nothing hq

/-- Before a refresh the first packet for the open row of a bank is looked at. -/
theorem refreshPopClosePage_took (w : Turns) :
    TP.refreshPopClosePage w c s = (none, s) ∨
      ∃ p s', TP.refreshPopClosePage w c s = (some p, s') ∧ Took c s (some p, s') := by
  unfold TP.refreshPopClosePage
  dsimp only
  split
  · split
    · refine .inr ⟨_, _, rfl, Took.refresh ?_ _⟩
      rfl
    · exact .inl rfl
  · split
    · split
      · next p rest hx =>
        split
        · next hp =>
          refine .inr ⟨_, _, rfl, took_popFirst hx rfl (fun _ _ => hp.2) fun _ _ x hu hu' _ hrow hbank => ?_⟩
          rw [decide_eq_true_eq] at hu
          rw [decide_eq_false_iff_not, hrow, hbank] at hu'
          exact absurd hu hu'
        · exact .inl rfl
      · exact .inl rfl
    · exact .inl rfl

theorem popClosePage_took (w : Turns) : Took c s (s.popClosePage c (methods w)) :=
  State.popClosePage_cases (normalPopClosePage_took w) fun _ => refreshPopClosePage_took w

end Took

/-! ## Runs -/

/-- The commands in the queue of a rank and pid are those of its transactions. -/
def Housed (y : System) (s : State FA) : Prop :=
  ∀ r q, ∀ p ∈ s.queues r q, ∃ x, Controller.Mapped y x ∧ x.rank = r ∧ x.threadID = q ∧ (p = x.activate ∨ p = x.column)

structure Ordered (y : System) (s : Controller FA) : Prop where
  housed : Housed y s.state
  order : ∀ q a, s.log.filter (columnOf q a) ++ (s.state.queues (y.rankOf a) q).filter (columnOf q a) =
    (s.entered.filter fun x => decide (x.threadID = q ∧ x.physicalAddress = a)).map Transaction.column

theorem columnOf_activate (q a : Nat) (x : Transaction) : columnOf q a x.activate = false := by
  simp [columnOf, Transaction.activate]

theorem columnOf_column (q a : Nat) (x : Transaction) :
    columnOf q a x.column = decide (x.threadID = q ∧ x.physicalAddress = a) := by
  have h₁ := x.column_ne_activate
  have h₂ := x.column_ne_refresh
  simp only [columnOf, ne_eq, h₁, h₂, not_false_eq_true, true_and]
  rfl

section Ordered

variable {y : System} {w : Turns} {s : Controller FA}

theorem dueTime_column (s : State FA) (x : Transaction) : dueTime s x.column =
    if x.write then (s.bankStates x.rank x.bank).nextWrite else (s.bankStates x.rank x.bank).nextRead := by
  obtain ⟨write, _⟩ := x
  cases write <;> rfl

theorem mapped_same {x z : Transaction} (hx : Controller.Mapped y x) (hz : Controller.Mapped y z)
    (ha : x.physicalAddress = z.physicalAddress) : x.row = z.row ∧ x.rank = z.rank ∧ x.bank = z.bank := by
  rw [hx.2, hz.2]
  simp only [System.transaction, ha, and_self]

/-- An earlier command of the address may be sent as well. -/
theorem isIssuable_of_precedes {s : State FA} {c : Config} {refresh : Option Nat} {x z : Transaction}
    (h : Precedes s x.column z.column) (ha : x.physicalAddress = z.physicalAddress)
    (hrow : x.row = z.row) (hrank : x.rank = z.rank) (hbank : x.bank = z.bank)
    (hz : (s.ready c refresh).isIssuable c z.column = true) : (s.ready c refresh).isIssuable c x.column = true := by
  rw [State.isIssuable_column] at hz ⊢
  obtain ⟨⟨hactive, hopen, hcount⟩, hdue⟩ := hz
  rw [hrow, hrank, hbank]
  refine ⟨⟨hactive, hopen, hcount⟩, ?_⟩
  simp only [State.ready, BankState.tick_nextRead, BankState.tick_nextWrite,
    BankState.tick_openRowAddress] at hopen hdue ⊢
  have := h x.column_ne_activate z.column_ne_activate ha (rowActive_of_tick hactive) hopen
  rw [dueTime_column, dueTime_column, hrank, hbank] at this
  exact this hdue

theorem ordered_enters : Controller.Enters y (Ordered y) where
  ctl h hs he hl := ⟨hs ▸ h.housed, hs ▸ he ▸ hl ▸ h.order⟩
  enter {s x} h hx _ := by
    have hqueues : ∀ r q, (s.state.enqueued x).queues r q =
        if r = x.rank ∧ q = x.threadID then s.state.queues r q ++ [x.activate, x.column]
        else s.state.queues r q := fun _ _ => rfl
    constructor
    · intro r q p hp
      rw [hqueues] at hp
      split at hp
      · next he =>
        rcases List.mem_append.1 hp with hp | hp
        · exact h.housed r q p hp
        · exact ⟨x, hx, he.1.symm, he.2.symm, by simpa using hp⟩
      · exact h.housed r q p hp
    · intro q a
      rw [List.filter_append, List.map_append, ← h.order q a, hqueues, List.append_assoc]
      congr 1
      have hrank : x.rank = y.rankOf x.physicalAddress := by
        rw [hx.2]
        rfl
      by_cases hxa : x.threadID = q ∧ x.physicalAddress = a
      · obtain ⟨rfl, rfl⟩ := hxa
        rw [if_pos ⟨hrank.symm, rfl⟩, List.filter_append]
        simp [columnOf_activate, columnOf_column]
      · split <;> simp [columnOf_activate, columnOf_column, hxa]

theorem Ordered.powerChecks (h : Ordered y s) (waiting : List Nat) (clock : Nat) :
    Ordered y (s.powerChecks y waiting clock) := by
  obtain ⟨_, _, _, hs⟩ := s.state.powerChecks_eq y.config (State.isEmpty y.config) waiting clock
  unfold Controller.powerChecks
  rw [hs]
  exact ⟨h.housed, h.order⟩

/-- In step, the first of the address's commands is taken. -/
theorem filter_eq_nil_of_first (hh : Housed y s.state) (hstep : InStep y.config s.state)
    {refresh : Option Nat} {r q : Nat} {l₁ l₂ : List BusPacket} {x : Transaction} (hx : Controller.Mapped y x)
    (hl : s.state.queues r q = l₁ ++ x.column :: l₂) (hr : x.rank = r) (hq : x.threadID = q)
    (hi : (s.state.ready y.config refresh).isIssuable y.config x.column = true)
    (first : ∀ p ∈ l₁, p.busPacketType ≠ .activate → p.row = x.row → p.bank = x.bank →
      (s.state.ready y.config refresh).isIssuable y.config p = false) :
    l₁.filter (columnOf q x.physicalAddress) = [] := by
  rw [List.filter_eq_nil_iff]
  intro p hp hcol
  have hpair := hstep r (hr ▸ hx.1.1) q (hq ▸ hx.1.2.2)
  rw [hl, List.pairwise_append] at hpair
  have hprec := hpair.2.2 p hp x.column List.mem_cons_self
  obtain ⟨z, hz, -, -, rfl | rfl⟩ := hh r q p (by rw [hl]; exact List.mem_append_left _ hp)
  · rw [columnOf_activate] at hcol
    cases hcol
  · rw [columnOf_column, decide_eq_true_eq] at hcol
    obtain ⟨hrow, hrank, hbank⟩ := mapped_same hz hx hcol.2
    have hno := first z.column hp z.column_ne_activate hrow hbank
    rw [isIssuable_of_precedes hprec hcol.2 hrow hrank hbank hi] at hno
    cases hno

/-- A cycle in which the commands are in step. -/
theorem Ordered.popCommand (h : Ordered y s) (hstep : InStep y.config s.state) (refresh : Option Nat) :
    Ordered y (s.popCommand y (methods w) refresh) := by
  have htook := popClosePage_took (c := y.config) (s := s.state.ready y.config refresh) w
  unfold Controller.popCommand
  rw [State.update_eq]
  generalize (s.state.ready y.config refresh).popClosePage y.config (methods w) = out at htook ⊢
  have hout : ∀ r q, (State.conclude y.config out).2.queues r q = out.2.queues r q := fun r q => by
    rw [State.conclude_queues]
  constructor
  · intro r q p hp
    rw [hout] at hp
    cases htook with
    | nothing queues => exact h.housed r q p (queues ▸ hp)
    | refresh queues => exact h.housed r q p (queues ▸ hp)
    | @command s' r' q' l₁ l₂ x hl _ _ queues =>
      rw [queues] at hp
      split at hp
      · next he =>
        refine h.housed r q p ?_
        rw [he.1, he.2, show s.state.queues r' q' = _ from hl]
        rcases List.mem_append.1 hp with hp | hp <;> simp [hp]
      · exact h.housed r q p hp
  · intro q a
    show (s.log ++ (State.conclude y.config out).1.toList).filter _ ++
      ((State.conclude y.config out).2.queues _ _).filter _ = _
    rw [hout, State.conclude_fst, List.filter_append, ← h.order q a, List.append_assoc]
    congr 1
    cases htook with
    | nothing queues => rw [queues]; rfl
    | refresh queues rank => rw [queues]; rfl
    | @command s' r' q' l₁ l₂ p hl hi hfirst queues =>
      change s.state.queues r' q' = _ at hl
      cases hcol : columnOf q a p with
      | false =>
        -- the commands of the address stay where they are
        have hnone : (some p).toList.filter (columnOf q a) = [] := by simp [hcol]
        rw [hnone, List.nil_append, queues]
        split
        · next he =>
          rw [he.1, he.2, hl, List.filter_append, List.filter_append, List.filter_cons_of_neg]
          rw [← he.2, hcol]
          decide
        · rfl
      | true =>
        obtain ⟨x, hx, hr, hq, rfl | rfl⟩ := h.housed r' q' p (by rw [hl]; simp)
        · rw [columnOf_activate] at hcol
          cases hcol
        · rw [columnOf_column, decide_eq_true_eq] at hcol
          obtain ⟨rfl, rfl⟩ := hcol
          have hrank : y.rankOf x.physicalAddress = x.rank := by
            rw [hx.2]
            rfl
          subst hr hq
          have hnil := filter_eq_nil_of_first h.housed hstep hx hl rfl rfl hi hfirst
          rw [queues, hrank, if_pos ⟨rfl, rfl⟩, hl, List.filter_append, List.filter_append, hnil]
          simp [columnOf_column]

theorem Ordered.init : Ordered y { state := FA.init } :=
  ⟨fun _ _ _ h => (nomatch h), fun _ _ => rfl⟩

theorem step_ordered {a : Controller.Action} (ha : StepsInOrder y s a) (h : Ordered y s ∧ s.Waits y) :
    Ensures .exit (fun s' => Ordered y s' ∧ s'.Waits y) (Controller.turnStep y w (methods w) s a) := by
  have hpid : Controller.Fault.outOfRange ≠ .exit := by decide
  refine (avoids_check hpid).bind fun _ _ => ?_
  refine ordered_enters.step (fun waiting clock hs => hs.powerChecks waiting clock)
    (fun refresh waiting he => ?_) h.1 h.2
  subst he
  exact h.1.popCommand ha refresh

end Ordered

/-- While the commands are in step, the reads and writes of a pid for an address that were
popped, followed by those that are queued, are those of the transactions that entered, in
that order. -/
theorem address_order (y : System) (w : Turns) {as : List Controller.Action}
    (h : Always (Controller.turnStep y w (methods w)) (StepsInOrder y) { state := FA.init } as) {s : Controller FA}
    (hs : runs (Controller.turnStep y w (methods w)) { state := FA.init } as = .ok s) (q a : Nat) :
    s.log.filter (columnOf q a) ++ (s.state.queues (y.rankOf a) q).filter (columnOf q a) =
      (s.entered.filter fun x => decide (x.threadID = q ∧ x.physicalAddress = a)).map Transaction.column := by
  have hrun := runs_invariant (fun s : Controller FA => Ordered y s ∧ s.Waits y)
    (fun s a s' hi ha hs => (step_ordered ha hi).2 s' hs) ⟨Ordered.init, fun _ _ h => nomatch h⟩ h hs
  exact hrun.1.order q a

/-- One rank whose addresses are in two banks, in turn. -/
def twoBanks : System where
  config := {
    timing := ddr3Sg15
    numRanks := 1
    numBanks := 8
    numPids := 2
    cmdQueueDepth := 8
    totalRowAccesses := 4
    schedulingPolicy := .rankThenBankRoundRobin }
  transQueueDepth := 8
  addressMapping a := (0, 0, a % 2)

/-- Pid 0 writes and then reads address 64. -/
def writeThenRead (before : List Controller.Action) : List Controller.Action :=
  before ++ [.addTransaction true 64 0, .addTransaction false 64 0] ++
    List.replicate 60 (.update none [])

/-- Alone, the write is served first. -/
theorem address_order_alone : ∃ s,
    runs (Controller.turnStep twoBanks { tpTurnLength := 7 } (methods { tpTurnLength := 7 }))
      { state := FA.init } (writeThenRead []) = .ok s ∧
    s.log.map (fun p => p.busPacketType) = [.activate, .writeP] ∧
    s.log.filter (columnOf 0 64) ++ (s.state.queues 0 0).filter (columnOf 0 64) =
      (s.entered.filter fun x => decide (x.threadID = 0 ∧ x.physicalAddress = 64)).map Transaction.column := by
  refine exists_ok (fun s => s.log.map (fun p => p.busPacketType) = [.activate, .writeP]) (by decide +kernel)
    fun s hs hp => ⟨hp, ?_⟩
  exact address_order twoBanks { tpTurnLength := 7 } (by decide +kernel) hs 0 64

/-- After a read in another bank the rank may be read again before it may be written: the
read of address 64 is popped, and the write that entered before it still waits. -/
theorem read_overtakes_write : ∃ s,
    runs (Controller.turnStep twoBanks { tpTurnLength := 7 } (methods { tpTurnLength := 7 }))
      { state := FA.init } (writeThenRead [.addTransaction false 1 0]) = .ok s ∧
    (s.entered.filter fun x => decide (x.threadID = 0 ∧ x.physicalAddress = 64)).map (fun x => x.write) =
    [true, false] ∧
    (s.log.filter (columnOf 0 64)).map (fun p => p.busPacketType) = [.readP] ∧
    ((s.state.queues 0 0).filter (columnOf 0 64)).map (fun p => p.busPacketType) = [.writeP] := by
  decide +kernel

end DynamicCache.Dram.FA
