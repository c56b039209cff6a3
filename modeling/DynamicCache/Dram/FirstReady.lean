import DynamicCache.Dram.Power
import DynamicCache.Dram.ReturnPath

/-!
# First-ready scheduling with open pages (`CommandQueueFR.cpp`)

Every transaction is queued as an `ACTIVATE` and its column command.  If the row is open
already, the column command goes out and its `ACTIVATE` is thrown away (a row hit);
otherwise the `ACTIVATE` is sent and the column command stays in the queue alone.  A row
is closed when no command wants it, when it has had `TOTAL_ROW_ACCESSES` hits, or for a
refresh.

`Popped` says what one call of `pop` sends: nothing, a command out of the queues (`Taken`),
a refresh, or a `PRECHARGE` of a row that has had all its hits or that no column command
without its `ACTIVATE` waits for.
-/

namespace DynamicCache.Dram

open Lib

inductive QueuingStructure where
  | perRank
  | perRankPerBank
deriving DecidableEq, Repr

/-- The column command under the open-page policy. -/
def Transaction.access (x : Transaction) : BusPacket :=
  ⟨if x.write then .write else .read, x.physicalAddress, x.row, x.rank, x.bank, x.threadID⟩

/-- Where the search for a row to close goes on. -/
structure FR where
  nextRankPRE : Nat := 0
  nextBankPRE : Nat := 0
deriving DecidableEq

namespace FR

open TP (Group lones lones_append lones_cons_act lones_cons_lone mem_of_mem_lones Front setGroups setGroups_self
  setQueue setQueue_queues firstBusy)

/-! ## The scheduler -/

section Scheduler

variable (qs : QueuingStructure) (c : Config) (s : State FR)

/-- The index of a bank's queue. -/
def queueOf (bank : Nat) : Nat :=
  match qs with
  | .perRank => 0
  | .perRankPerBank => bank

def getCommandQueue (rank bank : Nat) : List BusPacket := s.queues rank (queueOf qs bank)

def prechargePacket (rank bank : Nat) : BusPacket := ⟨.precharge, 0, 0, rank, bank, 0⟩

def setCounter (rank bank n : Nat) : State FR :=
  { s with
    rowAccessCounters := Function.update s.rowAccessCounters rank (Function.update (s.rowAccessCounters rank) bank n) }

/-- Closes a row if it may be closed yet. -/
def closeRow (rank bank : Nat) : Option BusPacket × State FR :=
  if (s.bankStates rank bank).nextPrecharge ≤ s.currentClockCycle then
    (some (prechargePacket rank bank), setCounter s rank bank 0)
  else (none, s)

/-- The part of `pop` for a rank that waits for a refresh. -/
def refreshPopOpenPage : Option BusPacket × State FR :=
  let rank := s.refreshRank
  match firstBusy c s rank with
  | none =>
    if (s.bankStates rank 0).currentBankState ≠ .powerDown then
      (some (refreshPacket rank), { s with refreshRank := noRank, refreshWaiting := false })
    else (none, s)
  | some b =>
    if (s.bankStates rank b).currentBankState = .rowActive then
      -- search for commands going to the open row
      match popFirst (fun _ x => (s.bankStates rank b).openRowAddress = x.row ∧ b = x.bank) none
          (getCommandQueue qs s rank b) with
      | some (x, queue) =>
        if x.busPacketType ≠ .activate then
          if s.isIssuable c x then (some x, setQueue s rank (queueOf qs b) queue) else (none, s)
        else closeRow s rank b
      | none => closeRow s rank b
    else (none, s)

/-- A column command for the same row stands before. -/
def dependencyFound (before : List BusPacket) (x : BusPacket) : Bool :=
  before.any fun p => p.busPacketType ≠ .activate ∧ p.bank = x.bank ∧ p.row = x.row

def issues (before : List BusPacket) (x : BusPacket) : Bool := s.isIssuable c x && !dependencyFound before x

def endsInActivate (before : List BusPacket) : Bool := before.getLast?.any fun p => p.busPacketType = .activate

/-- The first loop over a queue: only a column command whose `ACTIVATE` is right before it
is removed, together with it. -/
def rowHit (queue : List BusPacket) : Option (BusPacket × List BusPacket × Bool) :=
  (findSplit (fun before x => issues c s before x && endsInActivate before) [] queue).map
    fun (before, x, rest) => (x, before.dropLast ++ rest, true)

/-- The second loop; the result says whether an `ACTIVATE` was removed as well. -/
def firstIssuable (queue : List BusPacket) : Option (BusPacket × List BusPacket × Bool) :=
  (findSplit (issues c s) [] queue).map fun (before, x, rest) =>
    if endsInActivate before then (x, before.dropLast ++ rest, true) else (x, before ++ rest, false)

def scan (rank bank : Nat) : Option (BusPacket × List BusPacket × Bool) :=
  let queue := getCommandQueue qs s rank bank
  if queue ≠ [] ∧ ¬(rank = s.refreshRank ∧ s.refreshWaiting = true) then
    match rowHit c s queue with
    | some out => some out
    | none => firstIssuable c s queue
  else none

/-- The next queue of the round robin. -/
def nextQueue (x : Nat × Nat) : Nat × Nat :=
  match qs with
  | .perRank => ((x.1 + 1) % c.numRanks, x.2)
  | .perRankPerBank => nextRankAndBank c x.1 x.2

def search : Option BusPacket × State FR :=
  match rotate (nextQueue qs c) (s.nextRank, s.nextBank) (fun x => scan qs c s x.1 x.2) (c.numRanks * c.numBanks)
      (s.nextRank, s.nextBank) with
  | ((r, b), some (p, queue, hit)) =>
    let s := setQueue { s with nextRank := r, nextBank := b } r (queueOf qs b) queue
    (some p, if hit then setCounter s p.rank p.bank (s.rowAccessCounters p.rank p.bank + 1) else s)
  | ((r, b), none) => (none, { s with nextRank := r, nextBank := b })

/-- Nothing is going to the open row, or too many accesses have happened. -/
def closable (rank bank : Nat) : Bool :=
  (s.bankStates rank bank).currentBankState = .rowActive ∧
    ((getCommandQueue qs s rank bank).all
      (fun p => ¬(p.bank = bank ∧ p.row = (s.bankStates rank bank).openRowAddress)) ∨
      s.rowAccessCounters rank bank = c.totalRowAccesses) ∧
    (s.bankStates rank bank).nextPrecharge ≤ s.currentClockCycle

/-- The search for a row to close. -/
def searchPRE : Option BusPacket × State FR :=
  match rotate (fun x => nextRankAndBank c x.1 x.2) (s.sched.nextRankPRE, s.sched.nextBankPRE)
      (fun x => if closable qs c s x.1 x.2 then some () else none) (c.numRanks * c.numBanks)
      (s.sched.nextRankPRE, s.sched.nextBankPRE) with
  | ((r, b), some _) => (some (prechargePacket r b), setCounter { s with sched := ⟨r, b⟩ } r b 0)
  | ((r, b), none) => (none, { s with sched := ⟨r, b⟩ })

def normalPopOpenPage : Option BusPacket × State FR :=
  match search qs c s with
  | (some p, s) => (some p, s)
  | (none, s) => searchPRE qs c s

end Scheduler

/-- Under the open-page policy `pop` has the same two parts as under the close-page policy. -/
def methods (qs : QueuingStructure) : Methods FR := ⟨refreshPopOpenPage qs, normalPopOpenPage qs⟩

def init : State FR := { sched := {} }

/-! ## The controller -/

structure Controller where
  state : State FR := FR.init
  transactionQueue : List Transaction := []
  /-- history: the transactions that went to the command queue -/
  entered : List Transaction := []
  /-- history: the commands that were popped, with the state their bank was in -/
  log : List (BusPacket × BankState) := []

namespace Controller

variable (y : System) (qs : QueuingStructure)

def hasRoomFor (s : Controller) (x : Transaction) : Bool :=
  (getCommandQueue qs s.state x.rank x.bank).length + 2 ≤ y.config.cmdQueueDepth

def enqueue (s : State FR) (p : BusPacket) : Option (State FR) :=
  let queue := getCommandQueue qs s p.rank p.bank ++ [p]
  if y.config.cmdQueueDepth < queue.length then none else some (setQueue s p.rank (queueOf qs p.bank) queue)

def isEmpty (s : State FR) (rank : Nat) : Bool :=
  (List.range y.config.numBanks).all fun b => (getCommandQueue qs s rank b).isEmpty

/-- The first transaction for which there is room goes to the command queue. -/
def updateTransactionQueue (s : Controller) : Except Dram.Controller.Fault Controller :=
  match popFirst (fun _ x => hasRoomFor y qs s x) none s.transactionQueue with
  | none => .ok s
  | some (x, rest) => do
    let st ← orFail .exit (enqueue y qs s.state x.activate)
    let st ← orFail .exit (enqueue y qs st x.access)
    return { s with state := st, transactionQueue := rest, entered := s.entered ++ [x] }

/-- The command queue's part of a cycle. -/
def pop (s : Controller) (refresh : Option Nat) : Controller :=
  let out := s.state.update y.config (methods qs) refresh
  { s with
    state := out.2
    log := s.log ++ out.1.toList.map fun p => (p, (s.state.ready y.config refresh).bankStates p.rank p.bank) }

def powerChecks (waiting : List Nat) (clock : Nat) (s : Controller) : Controller :=
  { s with state := s.state.powerChecks y.config (isEmpty y qs) waiting clock }

inductive Act where
  | addTransaction (write : Bool) (address threadID : Nat)
  | update (refresh : Option Nat) (waiting : List Nat)

def step (s : Controller) : Act → Except Dram.Controller.Fault Controller
  | .addTransaction write address threadID => do
    let x := y.transaction write address threadID
    check .notEnabled (decide (x.rank < y.config.numRanks ∧ x.bank < y.config.numBanks))
    if s.transactionQueue.length < y.transQueueDepth then
      return { s with transactionQueue := s.transactionQueue ++ [x] }
    else return s
  | .update refresh waiting => do
    let clock := s.state.currentClockCycle
    check .notEnabled (decide (∀ r ∈ refresh, r < y.config.numRanks))
    let s ← updateTransactionQueue y qs (s.pop y qs refresh)
    return s.powerChecks y qs waiting clock

end Controller

/-! ## What is taken out of a queue -/

def packets (g : Group) : List BusPacket :=
  if g.act then [g.tr.activate, g.tr.access] else [g.tr.access]

def flat (gs : List Group) : List BusPacket := gs.flatMap packets

section Queue

variable {gs gs₁ gs₂ : List Group} {x : Transaction} {l₁ l₂ : List BusPacket} {p : BusPacket}

theorem access_ne_activate (x : Transaction) : x.access.busPacketType ≠ .activate := by
  obtain ⟨write, _⟩ := x
  cases write <;> nofun

theorem flat_append (gs hs : List Group) : flat (gs ++ hs) = flat gs ++ flat hs := List.flatMap_append

theorem flat_cons (g : Group) (gs : List Group) : flat (g :: gs) = packets g ++ flat gs := rfl

theorem access_mem_flat {g : Group} (h : g ∈ gs) : g.tr.access ∈ flat gs := by
  refine List.mem_flatMap.2 ⟨g, h, ?_⟩
  unfold packets
  split <;> simp

/-- A packet of a queue, with what stands before and after it. -/
inductive Found (gs : List Group) : List BusPacket → BusPacket → List BusPacket → Prop
  | activate {gs₁ gs₂ : List Group} {x : Transaction} (h : gs = gs₁ ++ ⟨x, true⟩ :: gs₂) :
    Found gs (flat gs₁) x.activate (x.access :: flat gs₂)
  | hit {gs₁ gs₂ : List Group} {x : Transaction} (h : gs = gs₁ ++ ⟨x, true⟩ :: gs₂) :
    Found gs (flat gs₁ ++ [x.activate]) x.access (flat gs₂)
  | lone {gs₁ gs₂ : List Group} {x : Transaction} (h : gs = gs₁ ++ ⟨x, false⟩ :: gs₂) :
    Found gs (flat gs₁) x.access (flat gs₂)

theorem Found.cons (h : Found gs l₁ p l₂) (g : Group) : Found (g :: gs) (packets g ++ l₁) p l₂ := by
  cases h with
  | @activate gs₁ gs₂ x h => exact @Found.activate (g :: gs) (g :: gs₁) gs₂ x (by rw [h, List.cons_append])
  | @hit gs₁ gs₂ x h =>
    rw [← List.append_assoc]
    exact @Found.hit (g :: gs) (g :: gs₁) gs₂ x (by rw [h, List.cons_append])
  | @lone gs₁ gs₂ x h => exact @Found.lone (g :: gs) (g :: gs₁) gs₂ x (by rw [h, List.cons_append])

theorem found_of_split (h : flat gs = l₁ ++ p :: l₂) : Found gs l₁ p l₂ := by
  induction gs generalizing l₁ with
  | nil => simp [flat] at h
  | cons g gs ih =>
    obtain ⟨x, act⟩ := g
    cases act with
    | false =>
      change x.access :: flat gs = _ at h
      cases l₁ with
      | nil =>
        cases h
        exact @Found.lone (⟨x, false⟩ :: gs) [] gs x rfl
      | cons a l₁ =>
        rw [List.cons_append, List.cons.injEq] at h
        obtain ⟨rfl, h⟩ := h
        exact (ih h).cons ⟨x, false⟩
    | true =>
      change x.activate :: x.access :: flat gs = _ at h
      match l₁ with
      | [] =>
        cases h
        exact @Found.activate (⟨x, true⟩ :: gs) [] gs x rfl
      | [a] =>
        cases h
        exact @Found.hit (⟨x, true⟩ :: gs) [] gs x rfl
      | a :: b :: l₁ =>
        rw [List.cons_append, List.cons_append, List.cons.injEq, List.cons.injEq] at h
        obtain ⟨rfl, rfl, h⟩ := h
        exact (ih h).cons ⟨x, true⟩

/-- The last packet of a transaction is its column command. -/
theorem endsInActivate_flat (gs : List Group) : endsInActivate (flat gs) = false := by
  rcases List.eq_nil_or_concat gs with rfl | ⟨gs, g, rfl⟩
  · rfl
  · have hg : ∃ l, packets g = l ++ [g.tr.access] := by
      unfold packets
      split
      · exact ⟨[g.tr.activate], rfl⟩
      · exact ⟨[], rfl⟩
    obtain ⟨l, hl⟩ := hg
    have hflat : flat (gs.concat g) = flat gs ++ l ++ [g.tr.access] := by
      rw [List.concat_eq_append, flat_append, List.append_assoc, ← hl]
      simp [flat]
    unfold endsInActivate
    rw [hflat, List.getLast?_concat]
    simpa using access_ne_activate g.tr

theorem endsInActivate_concat (l : List BusPacket) (x : Transaction) : endsInActivate (l ++ [x.activate]) = true := by
  unfold endsInActivate
  rw [List.getLast?_concat]
  rfl

/-- Transactions for one row. -/
abbrev SameRow (x y : Transaction) : Prop := x.bank = y.bank ∧ x.row = y.row

/-- No transaction of `gs` is for the row of `x`. -/
def Apart (gs : List Group) (x : Transaction) : Prop := ∀ g ∈ gs, ¬SameRow g.tr x

theorem apart_of_dependency (hb : p.bank = x.bank) (hr : p.row = x.row)
    (h : dependencyFound (flat gs ++ l₁) p = false) :
    Apart gs x := by
  intro g hg hsame
  have := List.any_eq_false.1 h g.tr.access (List.mem_append_left _ (access_mem_flat hg))
  exact this (decide_eq_true ⟨access_ne_activate g.tr, hsame.1.trans hb.symm, hsame.2.trans hr.symm⟩)

/-- What taking a packet leaves; for a row hit its `ACTIVATE` is dropped.  No transaction
for the same row stands before. -/
inductive Taken (gs : List Group) : BusPacket → List Group → Bool → Prop
  | activate {gs₁ gs₂ : List Group} {x : Transaction} (h : gs = gs₁ ++ ⟨x, true⟩ :: gs₂) (first : Apart gs₁ x) :
    Taken gs x.activate (gs₁ ++ ⟨x, false⟩ :: gs₂) false
  | lone {gs₁ gs₂ : List Group} {x : Transaction} (h : gs = gs₁ ++ ⟨x, false⟩ :: gs₂) (first : Apart gs₁ x) :
    Taken gs x.access (gs₁ ++ gs₂) false
  | hit {gs₁ gs₂ : List Group} {x : Transaction} (h : gs = gs₁ ++ ⟨x, true⟩ :: gs₂) (first : Apart gs₁ x) :
    Taken gs x.access (gs₁ ++ gs₂) true

/-- What the second loop removes. -/
theorem Found.taken (h : Found gs l₁ p l₂) (hd : dependencyFound l₁ p = false) :
    ∃ hs, (if endsInActivate l₁ then l₁.dropLast ++ l₂ else l₁ ++ l₂) = flat hs ∧
      Taken gs p hs (endsInActivate l₁) := by
  cases h with
  | @activate gs₁ gs₂ x h =>
    rw [← List.append_nil (flat gs₁)] at hd
    refine ⟨gs₁ ++ ⟨x, false⟩ :: gs₂, ?_, ?_⟩
    · rw [endsInActivate_flat, flat_append]
      rfl
    · rw [endsInActivate_flat]
      exact .activate h (apart_of_dependency rfl rfl hd)
  | @hit gs₁ gs₂ x h =>
    refine ⟨gs₁ ++ gs₂, ?_, ?_⟩
    · rw [endsInActivate_concat, if_pos rfl, List.dropLast_concat, flat_append]
    · rw [endsInActivate_concat]
      exact .hit h (apart_of_dependency rfl rfl hd)
  | @lone gs₁ gs₂ x h =>
    rw [← List.append_nil (flat gs₁)] at hd
    refine ⟨gs₁ ++ gs₂, ?_, ?_⟩
    · rw [endsInActivate_flat, flat_append]
      rfl
    · rw [endsInActivate_flat]
      exact .lone h (apart_of_dependency rfl rfl hd)

end Queue

section Loops

variable {qs : QueuingStructure} {c : Config} {s : State FR} {gs : List Group} {queue : List BusPacket} {p : BusPacket}
  {hit : Bool}

theorem rowHit_taken (h : rowHit c s (flat gs) = some (p, queue, hit)) :
    ∃ hs, queue = flat hs ∧ Taken gs p hs hit ∧ s.isIssuable c p = true := by
  obtain ⟨⟨before, x, rest⟩, hf, he⟩ := Option.map_eq_some_iff.1 h
  obtain ⟨hl, hok⟩ := findSplit_some hf
  simp only [issues, Bool.and_eq_true, Bool.not_eq_true'] at hok
  obtain ⟨⟨hi, hd⟩, hend⟩ := hok
  obtain ⟨hs, hflat, htaken⟩ := (found_of_split hl).taken hd
  rw [hend, if_pos rfl] at hflat
  rw [hend] at htaken
  cases he
  exact ⟨hs, hflat, htaken, hi⟩

theorem firstIssuable_taken (h : firstIssuable c s (flat gs) = some (p, queue, hit)) :
    ∃ hs, queue = flat hs ∧ Taken gs p hs hit ∧ s.isIssuable c p = true := by
  obtain ⟨⟨before, x, rest⟩, hf, he⟩ := Option.map_eq_some_iff.1 h
  obtain ⟨hl, hok⟩ := findSplit_some hf
  simp only [issues, Bool.and_eq_true, Bool.not_eq_true'] at hok
  obtain ⟨hs, hflat, htaken⟩ := (found_of_split hl).taken hok.2
  dsimp only at he
  split at he
  · next hend =>
    rw [hend, if_pos rfl] at hflat
    rw [hend] at htaken
    cases he
    exact ⟨hs, hflat, htaken, hok.1⟩
  · next hend =>
    rw [if_neg hend] at hflat
    rw [Bool.not_eq_true] at hend
    rw [hend] at htaken
    cases he
    exact ⟨hs, hflat, htaken, hok.1⟩

theorem scan_taken {r b : Nat} (hq : getCommandQueue qs s r b = flat gs) (h : scan qs c s r b = some (p, queue, hit)) :
    ∃ hs, queue = flat hs ∧ Taken gs p hs hit ∧ s.isIssuable c p = true := by
  unfold scan at h
  dsimp only at h
  rw [hq] at h
  split at h
  · split at h
    · next out hout =>
      cases h
      exact rowHit_taken hout
    · exact firstIssuable_taken h
  · cases h

end Loops

/-! ## What `pop` does -/

/-- The result of both parts of `pop`, called on `s`. -/
inductive Popped (qs : QueuingStructure) (c : Config) (gs : Nat → Nat → List Group) (s : State FR) :
    Option BusPacket × State FR → (Nat → Nat → List Group) → Prop
  | nothing {s' : State FR} (queues : s'.queues = s.queues) (counters : s'.rowAccessCounters = s.rowAccessCounters) :
    Popped qs c gs s (none, s') gs
  | taken {s' : State FR} {r k : Nat} {p : BusPacket} {hs : List Group} {hit : Bool} (h : Taken (gs r k) p hs hit)
    (issuable : s.isIssuable c p = true)
    (queues : ∀ r' k', s'.queues r' k' = flat (setGroups gs r k hs r' k'))
    (counters : s'.rowAccessCounters = if hit then
      (setCounter s p.rank p.bank (s.rowAccessCounters p.rank p.bank + 1)).rowAccessCounters else s.rowAccessCounters) :
    Popped qs c gs s (some p, s') (setGroups gs r k hs)
  | precharge {s' : State FR} {r b : Nat} (hb : b < c.numBanks)
      (active : (s.bankStates r b).currentBankState = .rowActive)
    (free : ∀ x ∈ lones (gs r (queueOf qs b)), x.bank = b → x.row = (s.bankStates r b).openRowAddress →
      s.rowAccessCounters r b = c.totalRowAccesses)
    (queues : s'.queues = s.queues) (counters : s'.rowAccessCounters = (setCounter s r b 0).rowAccessCounters) :
    Popped qs c gs s (some (prechargePacket r b), s') gs
  | refresh {s' : State FR} (queues : s'.queues = s.queues) (counters : s'.rowAccessCounters = s.rowAccessCounters)
    (closed : ∀ b < c.numBanks, (s.bankStates s.refreshRank b).currentBankState ≠ .rowActive)
    (up : (s.bankStates s.refreshRank 0).currentBankState ≠ .powerDown) :
    Popped qs c gs s (some (refreshPacket s.refreshRank), s') gs

/-- What `pop` leaves alone, and where the search for a row to close goes on. -/
structure Same (c : Config) (s s' : State FR) : Prop where
  unpowered : Unpowered s s'
  pre : s'.sched.nextRankPRE < c.numRanks ∧ s'.sched.nextBankPRE < c.numBanks

section Popped

variable {qs : QueuingStructure} {c : Config} {s : State FR} {gs : Nat → Nat → List Group}

theorem setQueue_flat (hq : ∀ r k, s.queues r k = flat (gs r k)) {s' : State FR} (hs : s'.queues = s.queues) (r k : Nat)
    (l : List Group) (r' k' : Nat) : (setQueue s' r k (flat l)).queues r' k' = flat (setGroups gs r k l r' k') := by
  rw [setQueue_queues, setGroups, hs]
  split
  · rfl
  · exact hq r' k'

/-- The round robin over the queues does not matter. -/
theorem Popped.of_robin {nextRank nextBank : Nat} {out : Option BusPacket × State FR} {gs' : Nat → Nat → List Group}
    (h : Popped qs c gs { s with nextRank := nextRank, nextBank := nextBank } out gs') : Popped qs c gs s out gs' := by
  cases h with
  | nothing queues counters => exact .nothing queues counters
  | taken h issuable queues counters => exact .taken h issuable queues counters
  | precharge hb active free queues counters => exact .precharge hb active free queues counters
  | refresh queues counters closed up => exact .refresh queues counters closed up

theorem searchPRE_popped (hq : ∀ r k, s.queues r k = flat (gs r k))
    (hpre : s.sched.nextRankPRE < c.numRanks ∧ s.sched.nextBankPRE < c.numBanks) :
    Popped qs c gs s (searchPRE qs c s) gs ∧ Same c s (searchPRE qs c s).2 := by
  unfold searchPRE
  have hmem : ∀ out, rotate (fun x => nextRankAndBank c x.1 x.2) (s.sched.nextRankPRE, s.sched.nextBankPRE)
      (fun x => if closable qs c s x.1 x.2 then some () else none) (c.numRanks * c.numBanks)
      (s.sched.nextRankPRE, s.sched.nextBankPRE) = out → out.1.1 < c.numRanks ∧ out.1.2 < c.numBanks := by
    rintro out rfl
    exact rotate_mem (p := fun x : Nat × Nat => x.1 < c.numRanks ∧ x.2 < c.numBanks)
      (fun y hy => TP.nextRankAndBank_lt hy) hpre
  split
  · next r b _ hv =>
    have hlt := hmem _ hv
    have hclose := rotate_some hv
    split at hclose
    · next hc =>
      obtain ⟨hactive, hfree, -⟩ := of_decide_eq_true hc
      refine ⟨.precharge hlt.2 hactive (fun x hx hb hrow => ?_) rfl rfl, ⟨⟨rfl, rfl⟩, hlt⟩⟩
      rcases hfree with hfree | hfree
      · -- the column command of `x` is in the queue
        have hx' := List.all_eq_true.1 hfree x.access (by
          rw [getCommandQueue, hq]
          exact access_mem_flat (mem_of_mem_lones hx))
        exact absurd ⟨hb, hrow⟩ (of_decide_eq_true hx')
      · exact hfree
    · cases hclose
  · next r b hv => exact ⟨.nothing rfl rfl, ⟨⟨rfl, rfl⟩, hmem _ hv⟩⟩

theorem normalPopOpenPage_popped (hq : ∀ r k, s.queues r k = flat (gs r k))
    (hpre : s.sched.nextRankPRE < c.numRanks ∧ s.sched.nextBankPRE < c.numBanks) :
    ∃ gs', Popped qs c gs s (normalPopOpenPage qs c s) gs' ∧ Same c s (normalPopOpenPage qs c s).2 := by
  unfold normalPopOpenPage search
  generalize hv : rotate (nextQueue qs c) (s.nextRank, s.nextBank) (fun x => scan qs c s x.1 x.2)
    (c.numRanks * c.numBanks) (s.nextRank, s.nextBank) = out
  obtain ⟨⟨r, b⟩, _ | ⟨p, queue, hit⟩⟩ := out
  · obtain ⟨hpopped, hsame⟩ :=
      @searchPRE_popped qs c { s with nextRank := r, nextBank := b } gs hq hpre
    exact ⟨gs, hpopped.of_robin, hsame.unpowered, hsame.pre⟩
  · have hscan := rotate_some hv
    obtain ⟨hs, rfl, htaken, hi⟩ := scan_taken (hq r (queueOf qs b)) hscan
    refine ⟨_, .taken htaken hi ?_ ?_, ?_⟩
    · cases hit <;> exact setQueue_flat hq rfl r (queueOf qs b) hs
    · cases hit <;> rfl
    · cases hit <;> exact ⟨⟨rfl, rfl⟩, hpre⟩

/-- Either nothing is done for the refresh, or a packet is sent. -/
def Refreshes (qs : QueuingStructure) (c : Config) (gs : Nat → Nat → List Group) (s : State FR)
    (out : Option BusPacket × State FR) : Prop :=
  out = (none, s) ∨ ∃ p s' gs', out = (some p, s') ∧ Popped qs c gs s (some p, s') gs' ∧ Same c s s'

theorem closeRow_refreshes {r b : Nat} (hb : b < c.numBanks)
    (hpre : s.sched.nextRankPRE < c.numRanks ∧ s.sched.nextBankPRE < c.numBanks)
    (hactive : (s.bankStates r b).currentBankState = .rowActive)
    (hfree : ∀ x ∈ lones (gs r (queueOf qs b)), x.bank = b → x.row ≠ (s.bankStates r b).openRowAddress) :
    Refreshes qs c gs s (closeRow s r b) := by
  unfold closeRow
  split
  · refine .inr ⟨_, _, gs, rfl, .precharge hb hactive (fun x hx hbank hrow => ?_) rfl rfl, ⟨⟨rfl, rfl⟩, hpre⟩⟩
    exact absurd hrow (hfree x hx hbank)
  · exact .inl rfl

/-- No packet of a list is for the row. -/
theorem apart_of_none {ok : Option BusPacket → BusPacket → Bool} {hs : List Group} {x : Transaction} {row bank : Nat}
    (hok : ∀ u p, ok u p = decide (row = p.row ∧ bank = p.bank)) (hrow : x.row = row) (hbank : x.bank = bank)
    (h : ∀ p ∈ flat hs, ∃ u, ok u p = false) : Apart hs x := by
  intro g hg hsame
  obtain ⟨u, hu⟩ := h _ (access_mem_flat hg)
  rw [hok, decide_eq_false_iff_not] at hu
  exact hu ⟨hrow.symm.trans hsame.2.symm, hbank.symm.trans hsame.1.symm⟩

theorem refreshPopOpenPage_refreshes (hq : ∀ r k, s.queues r k = flat (gs r k)) (hfront : ∀ r k, Front SameRow (gs r k))
    (hpre : s.sched.nextRankPRE < c.numRanks ∧ s.sched.nextBankPRE < c.numBanks) :
    Refreshes qs c gs s (refreshPopOpenPage qs c s) := by
  unfold refreshPopOpenPage
  dsimp only
  split
  · next hbusy =>
    split
    · next hup =>
      refine .inr ⟨_, _, gs, rfl, .refresh ?_ ?_ (fun b hb hactive => ?_) hup, ⟨?_, hpre⟩⟩
      · rfl
      · rfl
      · have := List.find?_eq_none.1 hbusy b (List.mem_range.2 hb)
        exact this (decide_eq_true (.inl hactive))
      · exact ⟨rfl, rfl⟩
    · exact .inl rfl
  · next b hbusy =>
    have hb : b < c.numBanks := List.mem_range.1 (List.mem_of_find?_eq_some hbusy)
    split
    · next hactive =>
      rw [getCommandQueue, hq]
      split
      · next p queue hp =>
        obtain ⟨l₁, l₂, hl, rfl, ⟨u, hu⟩, hbefore⟩ := popFirst_first hp
        obtain ⟨hrow, hbank⟩ := of_decide_eq_true hu
        have hfound := found_of_split hl
        split
        · next hcol =>
          split
          · next hi =>
            cases hfound with
            | activate => exact absurd rfl hcol
            | @hit gs₁ gs₂ x h =>
              -- its `ACTIVATE` would have been found
              obtain ⟨u', hu'⟩ := hbefore x.activate (by simp)
              exact absurd ⟨hrow, hbank⟩ (of_decide_eq_false hu')
            | @lone gs₁ gs₂ x h =>
              refine .inr
                ⟨_, _, _, rfl, .taken (.lone h (apart_of_none (fun _ _ => rfl) hrow.symm hbank.symm hbefore)) hi
                ?_ rfl, ⟨⟨rfl, rfl⟩, hpre⟩⟩
              rw [← flat_append]
              exact setQueue_flat hq rfl _ _ _
          · exact .inl rfl
        · next hact =>
          refine closeRow_refreshes hb hpre hactive fun z hz hzb hzr => ?_
          cases hfound with
          | hit => exact hact (access_ne_activate _)
          | lone => exact hact (access_ne_activate _)
          | @activate gs₁ gs₂ x h =>
            -- a transaction whose row is open would have been found first
            have hapart := apart_of_none (x := x) (fun _ _ => rfl) hrow.symm hbank.symm hbefore
            have hfr := hfront s.refreshRank (queueOf qs b)
            rw [h] at hz hfr
            exact hfr.not_same hapart hz (fun h => ⟨h.1.symm, h.2.symm⟩) ⟨hzb.trans hbank, hzr.trans hrow⟩
      · next hnone =>
        refine closeRow_refreshes hb hpre hactive fun z hz hzb hzr => ?_
        exact apart_of_none (fun _ _ => rfl) hzr hzb (popFirst_none hnone) ⟨z, false⟩ (mem_of_mem_lones hz) ⟨rfl, rfl⟩
    · exact .inl rfl

theorem popClosePage_popped (hq : ∀ r k, s.queues r k = flat (gs r k)) (hfront : ∀ r k, Front SameRow (gs r k))
    (hpre : s.sched.nextRankPRE < c.numRanks ∧ s.sched.nextBankPRE < c.numBanks) :
    ∃ gs', Popped qs c gs s (s.popClosePage c (methods qs)) gs' ∧ Same c s (s.popClosePage c (methods qs)).2 := by
  refine State.popClosePage_cases (P := fun out => ∃ gs', Popped qs c gs s out gs' ∧ Same c s out.2)
    (normalPopOpenPage_popped hq hpre) fun _ => ?_
  obtain h | ⟨p, s', gs', h, hpopped⟩ := @refreshPopOpenPage_refreshes qs c s gs hq hfront hpre
  · exact .inl h
  · exact .inr ⟨p, s', h, gs', hpopped⟩

end Popped

end FR

end DynamicCache.Dram
