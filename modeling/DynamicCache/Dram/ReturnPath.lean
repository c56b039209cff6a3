import DynamicCache.Dram.FixedTiming
import DynamicCache.Dram.TemporalPartition
import DynamicCache.Lib.Faults
import Mathlib.Data.List.Perm.Basic

/-!
# The way back of read data (`MemoryController.cpp`, `MemoryControllerTP.cpp`, `MemoryControllerFT.cpp`)

A transaction waits in the queue of its pid until its commands fit in the command
queue; a read is then pending until its data comes back.  The ranks send back the
data of every read command once (`receiveFromBus`), in any order.  A returned
packet completes the first pending read with its address, whatever pid that read
is from.

When two pids read one address, the data that one of them fetched may complete the
read of the other (`data_for_the_wrong_pid`).  When a read is added only while no
other pid has one for the address, every packet completes a read of its own pid,
every read is completed once, and a match is always found
(`read_data_goes_home`), for temporal partitioning and for fixed timing.
-/

namespace DynamicCache.Dram

open Lib

/-- A memory system: the controller's configuration and the address mapping, which gives
the row, rank and bank. -/
structure System where
  config : Config
  transQueueDepth : Nat
  addressMapping : Nat → Nat × Nat × Nat

namespace System

variable (y : System)

def rankOf (address : Nat) : Nat := (y.addressMapping address).2.1

/-- A transaction with its address mapped. -/
def transaction (write : Bool) (address threadID : Nat) : Transaction :=
  ⟨write, address, (y.addressMapping address).1, (y.addressMapping address).2.1,
    (y.addressMapping address).2.2, threadID⟩

end System

structure Controller (π : Type) where
  state : State π
  transactionQueues : Nat → List Transaction := fun _ => []
  pendingReadTransactions : List Transaction := []
  /-- read commands whose data has not come back -/
  inFlight : List BusPacket := []
  returnTransaction : List BusPacket := []
  /-- history: the transactions that went to the command queue -/
  entered : List Transaction := []
  /-- history: the commands that were popped -/
  log : List BusPacket := []
  /-- history: the reads that were completed, with the packet that did it -/
  completed : List (Transaction × BusPacket) := []

def BusPacket.isRead (p : BusPacket) : Bool := p.busPacketType = .read ∨ p.busPacketType = .readP

namespace Controller

inductive Fault where
  /-- no pending read has the address of the data -/
  | abort
  /-- more commands in a queue than allowed -/
  | exit
  /-- the queue of a pid that does not exist -/
  | outOfRange
  /-- a rank or bank that does not exist, or data that is not on its way -/
  | notEnabled
deriving DecidableEq, Repr

inductive Action where
  | addTransaction (write : Bool) (address threadID : Nat)
  /-- `waiting` are the ranks that wait for a refresh -/
  | update (refresh : Option Nat) (waiting : List Nat)
  /-- the data of the `k`-th read on its way comes back -/
  | receiveFromBus (k : Nat)
deriving DecidableEq

variable {π : Type} (y : System) (m : Methods π) (s : Controller π)

def hasRoomFor (x : Transaction) : Bool := (s.state.queues x.rank x.threadID).length + 2 ≤ y.config.cmdQueueDepth

/-- The inner loop of `updateTransactionQueue`: the first transaction of pid `j` for which
there is room goes to the command queue. -/
def schedule (s : Controller π) (j : Nat) : Except Fault (Controller π) :=
  match popFirst (fun _ x => s.hasRoomFor y x) none (s.transactionQueues j) with
  | none => .ok s
  | some (x, rest) => do
    let st ← orFail .exit (s.state.enqueue y.config x.activate)
    let st ← orFail .exit (st.enqueue y.config x.column)
    pure { s with
      state := st
      transactionQueues := Function.update s.transactionQueues j rest
      pendingReadTransactions :=
        if x.write then s.pendingReadTransactions else s.pendingReadTransactions ++ [x]
      entered := s.entered ++ [x] }

def updateTransactionQueue : Except Fault (Controller π) := forLoop (schedule y) y.config.numPids s

/-- The loop of `MemoryControllerFT` over `returnTransaction` is left after its first
iteration, so that it does what `MemoryController` does. -/
def updateReturnTransactions : Except Fault (Controller π) :=
  match s.returnTransaction with
  | [] => .ok s
  | d :: rest =>
    match popFirst (fun _ x => decide (x.physicalAddress = d.physicalAddress)) none s.pendingReadTransactions with
    | some (x, pending) =>
      .ok { s with
        pendingReadTransactions := pending
        returnTransaction := rest
        completed := (x, d) :: s.completed }
    | none => .error .abort

/-- The command queue's part of `update`; a read command is on its way from here on. -/
def popCommand (refresh : Option Nat) : Controller π :=
  let out := s.state.update y.config m refresh
  { s with
    state := out.2
    inFlight := s.inFlight ++ out.1.toList.filter BusPacket.isRead
    log := s.log ++ out.1.toList }

/-- The power-down checks at the end of cycle `clock`. -/
def powerChecks (waiting : List Nat) (clock : Nat) : Controller π :=
  { s with state := s.state.powerChecks y.config (State.isEmpty y.config) waiting clock }

def step : Action → Except Fault (Controller π)
  | .addTransaction write address threadID => do
    let x := y.transaction write address threadID
    check .outOfRange (decide (threadID < y.config.numPids))
    check .notEnabled (decide (x.rank < y.config.numRanks ∧ x.bank < y.config.numBanks))
    if (s.transactionQueues threadID).length < y.transQueueDepth then
      return { s with
        transactionQueues :=
          Function.update s.transactionQueues threadID (s.transactionQueues threadID ++ [x]) }
    else return s
  | .update refresh waiting => do
    check .notEnabled (decide (∀ r ∈ refresh, r < y.config.numRanks))
    let ctl ← updateTransactionQueue y (s.popCommand y m refresh)
    (ctl.powerChecks y waiting s.state.currentClockCycle).updateReturnTransactions
  | .receiveFromBus k => do
    let d ← orFail .notEnabled s.inFlight[k]?
    pure { s with
      inFlight := s.inFlight.eraseIdx k
      returnTransaction := s.returnTransaction ++ [d] }

end Controller

/-! ## Read commands -/

/-- The read commands of pid `t` for address `a` in a list. -/
def reads (a t : Nat) (l : List BusPacket) : Nat :=
  l.countP fun p => p.isRead && decide (p.physicalAddress = a ∧ p.threadID = t)

theorem reads_append (a t : Nat) (l l' : List BusPacket) : reads a t (l ++ l') = reads a t l + reads a t l' :=
  List.countP_append

theorem reads_perm {a t : Nat} {l l' : List BusPacket} (h : l.Perm l') : reads a t l = reads a t l' := h.countP_eq _

@[simp] theorem reads_nil (a t : Nat) : reads a t [] = 0 := rfl

theorem reads_filter (a t : Nat) (l : List BusPacket) : reads a t (l.filter BusPacket.isRead) = reads a t l := by
  unfold reads
  rw [List.countP_filter]
  congr 1
  funext p
  cases p.isRead <;> simp

theorem reads_eq_zero {a t : Nat} {l : List BusPacket}
    (h : ∀ p ∈ l, p.isRead = true → ¬(p.physicalAddress = a ∧ p.threadID = t)) : reads a t l = 0 := by
  refine List.countP_eq_zero.2 fun p hp hc => ?_
  rw [Bool.and_eq_true, decide_eq_true_eq] at hc
  exact h p hp hc.1 hc.2

section

variable {π : Type}

/-- Every command is in the queue of its rank and pid. -/
def Housed (y : System) (s : State π) : Prop :=
  ∀ r q, ∀ p ∈ s.queues r q, y.rankOf p.physicalAddress = r ∧ p.threadID = q

/-- A cycle of the command queue loses no read command and invents none; `held` are the
packets that the scheduler keeps outside the queues. -/
structure Conserved (held : π → List BusPacket) (s : State π) (out : Option BusPacket × State π) : Prop where
  sub : ∀ r q, ∀ p ∈ out.2.queues r q, p ∈ s.queues r q
  count : ∀ y : System, Housed y s → ∀ a t,
    reads a t (s.queues (y.rankOf a) t) + reads a t (held s.sched) =
      reads a t out.1.toList + (reads a t (out.2.queues (y.rankOf a) t) + reads a t (held out.2.sched))

variable {held : π → List BusPacket} {s s' : State π} {out : Option BusPacket × State π}

/-- The queues are left as they are. -/
theorem conserved_of_queues (hq : out.2.queues = s.queues)
    (h : ∀ a t, reads a t (held s.sched) = reads a t out.1.toList + reads a t (held out.2.sched)) :
    Conserved held s out := by
  refine ⟨fun r q p hp => by rwa [hq] at hp, fun y _ a t => ?_⟩
  rw [hq, h a t]
  omega

/-- `removed` is taken out of one queue. -/
theorem conserved_of_removed (r q : Nat) (removed rest : List BusPacket)
    (hperm : (s.queues r q).Perm (removed ++ rest))
    (hq : out.2.queues = Function.update s.queues r (Function.update (s.queues r) q rest))
    (h : ∀ a t, reads a t removed + reads a t (held s.sched) =
      reads a t out.1.toList + reads a t (held out.2.sched)) : Conserved held s out := by
  have hself : out.2.queues r q = rest := by rw [hq, Function.update_self, Function.update_self]
  have hne : ∀ r' q', ¬(r' = r ∧ q' = q) → out.2.queues r' q' = s.queues r' q' := by
    intro r' q' hne
    rw [hq]
    by_cases hr : r' = r
    · subst hr
      rw [Function.update_self, Function.update_of_ne fun he => hne ⟨rfl, he⟩]
    · rw [Function.update_of_ne hr]
  constructor
  · intro r' q' p hp
    by_cases he : r' = r ∧ q' = q
    · rw [he.1, he.2, hself] at hp
      rw [he.1, he.2]
      exact hperm.mem_iff.2 (List.mem_append_right _ hp)
    · rwa [hne r' q' he] at hp
  · intro y hy a t
    have hat := h a t
    by_cases he : y.rankOf a = r ∧ t = q
    · rw [he.1, he.2, hself, reads_perm hperm, reads_append]
      rw [he.2] at hat
      omega
    · -- nothing that was removed is a read of `a` by `t`
      have hzero : reads a t removed = 0 := by
        refine reads_eq_zero fun p hp _ hk => he ?_
        obtain ⟨h1, h2⟩ := hy r q p (hperm.mem_iff.2 (List.mem_append_left _ hp))
        rw [hk.1] at h1
        exact ⟨h1, hk.2.symm.trans h2⟩
      rw [hne _ _ he]
      omega

/-- Both methods of the scheduler conserve the read commands. -/
def Conserves (held : π → List BusPacket) (m : Methods π) : Prop :=
  ∀ c s, Conserved held s (m.normalPopClosePage c s) ∧ Conserved held s (m.refreshPopClosePage c s)

theorem Conserved.trans_none (h : Conserved held s (none, s')) (h' : Conserved held s' out) : Conserved held s out := by
  refine ⟨fun r q p hp => h.sub r q p (h'.sub r q p hp), fun y hy a t => ?_⟩
  have hy' : Housed y s' := fun r q p hp => hy r q p (h.sub r q p hp)
  have h1 := h.count y hy a t
  have h2 := h'.count y hy' a t
  simp only [Option.toList_none, reads_nil] at h1
  omega

theorem Conserves.popClosePage {m : Methods π} (hm : Conserves held m) (c : Config) (s : State π) :
    Conserved held s (s.popClosePage c m) := by
  unfold State.popClosePage
  split
  · next p s' he =>
    split at he
    · have hc := (hm c s).2
      rw [he] at hc
      exact hc
    · cases he
  · next s' he =>
    split at he
    · have hc := (hm c s).2
      rw [he] at hc
      exact hc.trans_none (hm c s').1
    · cases he
      exact (hm c s).1

theorem Conserves.update {m : Methods π} (hm : Conserves held m) (c : Config) (s : State π) (refresh : Option Nat) :
    Conserved held s (s.update c m refresh) := by
  rw [State.update_eq]
  have hc := hm.popClosePage c (s.ready c refresh)
  generalize (s.ready c refresh).popClosePage c m = out at hc ⊢
  obtain ⟨_ | p, s'⟩ := out
  · exact ⟨hc.sub, hc.count⟩
  · refine ⟨fun r q x hx => ?_, fun y hy a t => ?_⟩
    · change x ∈ (s'.finish c p).queues r q at hx
      rw [State.finish_queues] at hx
      exact hc.sub r q x hx
    · show _ = reads a t [p] + (reads a t ((s'.finish c p).queues (y.rankOf a) t) +
        reads a t (held (s'.finish c p).sched))
      rw [State.finish_queues, State.finish_sched]
      exact hc.count y hy a t

end

/-! ### Temporal partitioning -/

/-- Nothing is kept outside the queues. -/
def TP.held (_ : TP) : List BusPacket := []

theorem TP.conserved_setQueue {π : Type} {held : π → List BusPacket} {s : State π} {r q : Nat} {p : BusPacket}
    {ok : Option BusPacket → BusPacket → Bool} {rest : List BusPacket} {s' : State π}
    (h : popFirst ok none (s.queues r q) = some (p, rest)) (hq : s'.queues = s.queues)
    (hheld : held s'.sched = held s.sched) : Conserved held s (some p, TP.setQueue s' r q rest) := by
  obtain ⟨l₁, l₂, hl, rfl, -⟩ := popFirst_some h
  refine conserved_of_removed r q [p] (l₁ ++ l₂) ?_ ?_ fun a t => ?_
  · rw [hl]
    exact List.perm_middle
  · show (TP.setQueue s' r q (l₁ ++ l₂)).queues = _
    unfold TP.setQueue
    rw [hq]
  · show _ = reads a t [p] + reads a t (held s'.sched)
    rw [hheld]

theorem TP.conserves (w : Turns) (d : Config → Deadtimes) : Conserves TP.held (TP.methodsWith w d) := by
  intro c s
  constructor
  · show Conserved TP.held s (TP.normalPopClosePage w d c s)
    unfold TP.normalPopClosePage
    dsimp only
    have hturn : ∀ pid, (TP.newTurn s pid).queues = s.queues := by
      intro pid
      unfold TP.newTurn
      split <;> rfl
    generalize w.getCurrentPID c.numPids s.currentClockCycle = pid
    generalize TP.accepts c (TP.newTurn s pid) _ = ok
    unfold TP.search
    split
    · next r b p rest he =>
      have hv := rotate_some he
      unfold TP.scan at hv
      split at hv
      · rw [hturn] at hv
        exact TP.conserved_setQueue hv (hturn pid) rfl
      · cases hv
    · exact conserved_of_queues (hturn pid) fun a t => rfl
  · show Conserved TP.held s (TP.refreshPopClosePage w c s)
    unfold TP.refreshPopClosePage
    dsimp only
    have hsame : Conserved TP.held s (none, s) := conserved_of_queues rfl fun a t => rfl
    split
    · split
      · exact conserved_of_queues rfl fun a t => rfl
      · exact hsame
    · split
      · split
        · next hp =>
          split
          · exact TP.conserved_setQueue hp rfl rfl
          · exact hsame
        · exact hsame
      · exact hsame

/-! ### Fixed timing -/

/-- The column command that follows the last `ACTIVATE` is out of its queue. -/
def FT.held (f : FT) : List BusPacket := if f.prevActivate then [f.nextBusPacket] else []

theorem FT.takeActivate_some {ok : BusPacket → Bool} {l rest : List BusPacket} {x z : BusPacket}
    (h : FT.takeActivate ok l = some (x, z, rest)) :
    ∃ l₁ l₂, l = l₁ ++ x :: z :: l₂ ∧ rest = l₁ ++ l₂ ∧ x.busPacketType = .activate := by
  induction l using FT.takeActivate.induct ok generalizing rest with
  | case1 x' y' tail hc =>
    rw [FT.takeActivate, if_pos hc] at h
    cases h
    exact ⟨[], _, rfl, rfl, hc.2⟩
  | case2 x' y' tail hc ih =>
    rw [FT.takeActivate, if_neg hc] at h
    obtain ⟨⟨a, b, l⟩, h', he⟩ := Option.map_eq_some_iff.1 h
    cases he
    obtain ⟨l₁, l₂, hl, rfl, ht⟩ := ih h'
    exact ⟨x' :: l₁, l₂, by rw [hl]; rfl, rfl, ht⟩
  | case3 l hne =>
    unfold FT.takeActivate at h
    split at h
    · exact absurd rfl (hne _ _ _)
    · cases h

theorem FT.findActivate_some {c : Config} {s : State FT} {rs : List Nat} {r : Nat} {x z : BusPacket}
    {rest : List BusPacket} (h : FT.findActivate c s rs = some (r, x, z, rest)) :
    FT.takeActivate (s.isIssuable c) (s.queues r s.sched.nextThread) = some (x, z, rest) := by
  induction rs with
  | nil => cases h
  | cons r' rs ih =>
    rw [FT.findActivate] at h
    split at h
    · split at h
      · next ht =>
        cases h
        exact ht
      · exact ih h
    · split at h
      · cases h
      · exact ih h

theorem FT.find_conserved {c : Config} {s s' : State FT} {p : BusPacket} (h : FT.find c s = some (p, s')) :
    Conserved FT.held s (some p, s') := by
  unfold FT.find at h
  split at h
  · next hp =>
    split at h
    · cases h
      refine conserved_of_queues rfl fun a t => ?_
      show reads a t (if s.sched.prevActivate then [s.sched.nextBusPacket] else []) = _
      rw [if_pos hp]
      rfl
    · cases h
  · next hp =>
    split at h
    · obtain ⟨⟨r, x, z, rest⟩, hf, he⟩ := Option.map_eq_some_iff.1 h
      cases he
      obtain ⟨l₁, l₂, hl, rfl, hx⟩ := FT.takeActivate_some (FT.findActivate_some hf)
      refine conserved_of_removed r s.sched.nextThread [p, z] (l₁ ++ l₂) ?_ rfl fun a t => ?_
      · rw [hl]
        exact List.perm_append_comm.trans (List.Perm.append_left [p, z] List.perm_append_comm)
      · -- the `ACTIVATE` is no read, and the packet behind it is kept
        have hsplit : reads a t [p, z] = reads a t [p] + reads a t [z] := reads_append a t [p] [z]
        show _ + reads a t (if s.sched.prevActivate then _ else []) = reads a t [p] + reads a t [z]
        rw [if_neg hp, hsplit]
        rfl
    · cases h

theorem FT.conserves : Conserves FT.held FT.methods := by
  intro c s
  constructor
  · show Conserved FT.held s (FT.normalPopClosePage c s)
    unfold FT.normalPopClosePage
    split
    · next p s' hf =>
      have hc := FT.find_conserved hf
      split
      · exact ⟨hc.sub, hc.count⟩
      · exact hc
    · refine conserved_of_queues ?_ fun a t => ?_
      · split <;> rfl
      · rw [Option.toList_none, reads_nil, Nat.zero_add]
        split <;> rfl
  · show Conserved FT.held s (FT.refreshPopClosePage c s)
    unfold FT.refreshPopClosePage
    split
    · refine conserved_of_queues rfl fun a t => ?_
      have h0 : reads a t [refreshPacket s.refreshRank] = 0 := by
        refine reads_eq_zero fun p hp hr => ?_
        rw [List.mem_singleton.1 hp] at hr
        cases hr
      show reads a t s.sched.held = reads a t [refreshPacket s.refreshRank] + reads a t s.sched.held
      rw [h0, Nat.zero_add]
    · exact conserved_of_queues rfl fun a t => (Nat.zero_add _).symm

namespace Controller

/-! ## The way of a read -/

section

variable {π : Type}

/-- The pending reads of pid `t` for address `a`. -/
def waiting (a t : Nat) (l : List Transaction) : Nat :=
  l.countP fun x => decide (x.physicalAddress = a ∧ x.threadID = t)

/-- A read that has not been completed. -/
def Outstanding (s : Controller π) (x : Transaction) : Prop :=
  x ∈ s.pendingReadTransactions ∨ x.write = false ∧ ∃ j, x ∈ s.transactionQueues j

structure Inv (y : System) (held : π → List BusPacket) (s : Controller π) : Prop where
  housed : Housed y s.state
  queued : ∀ j, ∀ x ∈ s.transactionQueues j, x.threadID = j ∧ j < y.config.numPids ∧ x.rank = y.rankOf x.physicalAddress
  reads : (∀ d ∈ s.inFlight, d.isRead = true) ∧ ∀ d ∈ s.returnTransaction, d.isRead = true
  /-- every pending read has a read command or data on its way, and the other way round -/
  balance : ∀ a t, waiting a t s.pendingReadTransactions =
    Dram.reads a t (s.state.queues (y.rankOf a) t) + Dram.reads a t (held s.state.sched) +
      Dram.reads a t s.inFlight + Dram.reads a t s.returnTransaction
  once : (s.entered.filter fun x => !x.write).Perm (s.pendingReadTransactions ++ s.completed.map Prod.fst)
  /-- outstanding reads for one address are from one pid -/
  apart : ∀ x z, s.Outstanding x → s.Outstanding z → x.physicalAddress = z.physicalAddress →
    x.threadID = z.threadID
  home : ∀ x d, (x, d) ∈ s.completed → x.physicalAddress = d.physicalAddress ∧ x.threadID = d.threadID

/-- A read is added only while no other pid has an outstanding read for its address. -/
def Alone (y : System) (s : Controller π) : Action → Prop
  | .addTransaction write address threadID =>
    write = false →
      (∀ x ∈ s.pendingReadTransactions, x.physicalAddress = address → x.threadID = threadID) ∧
      ∀ j < y.config.numPids, ∀ x ∈ s.transactionQueues j,
        x.write = false ∧ x.physicalAddress = address → x.threadID = threadID
  | _ => True

instance (y : System) (s : Controller π) (a : Action) : Decidable (Alone y s a) := by
  unfold Alone
  split <;> infer_instance

variable {y : System} {m : Methods π} {held : π → List BusPacket} {s s' : Controller π}

theorem inv_init {st : State π} (hq : ∀ r q, st.queues r q = []) (hh : held st.sched = []) :
    Inv y held { state := st } := by
  refine ⟨fun r q p hp => ?_, nofun, ⟨nofun, nofun⟩, fun a t => ?_, List.Perm.refl _, fun x z hx => ?_, nofun⟩
  · rw [hq] at hp
    cases hp
  · show 0 = Dram.reads a t (st.queues (y.rankOf a) t) + Dram.reads a t (held st.sched) + 0 + 0
    rw [hq, hh, reads_nil]
  · rcases hx with h | ⟨-, j, h⟩
    · cases h
    · cases h

/-- A command is taken out of the command queue. -/
theorem Inv.popCommand (hm : Conserves held m) (hI : Inv y held s) (refresh : Option Nat) :
    Inv y held (s.popCommand y m refresh) := by
  have hc := hm.update y.config s.state refresh
  refine ⟨fun r q p hp => hI.housed r q p (hc.sub r q p hp), hI.queued, ⟨fun d hd => ?_, hI.reads.2⟩, fun a t => ?_,
    hI.once, hI.apart, hI.home⟩
  · rcases List.mem_append.1 hd with hd | hd
    · exact hI.reads.1 d hd
    · exact (List.mem_filter.1 hd).2
  · have h1 := hI.balance a t
    have h2 := hc.count y hI.housed a t
    show waiting a t s.pendingReadTransactions = _ + _ + Dram.reads a t (s.inFlight ++ _) +
      Dram.reads a t s.returnTransaction
    rw [reads_append, reads_filter]
    show _ = Dram.reads a t ((s.state.update y.config m refresh).2.queues (y.rankOf a) t) +
      Dram.reads a t (held (s.state.update y.config m refresh).2.sched) + _ + _
    omega

theorem waiting_append (a t : Nat) (l l' : List Transaction) : waiting a t (l ++ l') = waiting a t l + waiting a t l' :=
  List.countP_append

/-- The read commands in the queues after the commands of `x` have been put there. -/
theorem reads_enqueued {x : Transaction} (hx : x.rank = y.rankOf x.physicalAddress) (st : State π) (a t : Nat) :
    Dram.reads a t ((st.enqueued x).queues (y.rankOf a) t) =
      Dram.reads a t (st.queues (y.rankOf a) t) + if x.write then 0 else waiting a t [x] := by
  have hcommands : Dram.reads a t [x.activate, x.column] = if x.write then 0 else waiting a t [x] := by
    cases hw : x.write with
    | true => simp [Dram.reads, BusPacket.isRead, Transaction.activate, Transaction.column, hw]
    | false =>
      simp [Dram.reads, BusPacket.isRead, Transaction.activate, Transaction.column, hw, waiting, List.countP_cons]
  show Dram.reads a t (if y.rankOf a = x.rank ∧ t = x.threadID then _ else _) = _
  by_cases hc : y.rankOf a = x.rank ∧ t = x.threadID
  · rw [if_pos hc, reads_append, hcommands]
  · rw [if_neg hc]
    -- `x` is for another rank or pid
    have hw0 : waiting a t [x] = 0 := by
      refine List.countP_eq_zero.2 fun z hz hk => hc ?_
      rw [List.mem_singleton.1 hz, decide_eq_true_eq] at hk
      rw [hx, hk.1]
      exact ⟨rfl, hk.2.symm⟩
    rw [hw0, ite_self, Nat.add_zero]

/-- One transaction goes to the command queue. -/
theorem Inv.schedule {j : Nat} (hI : Inv y held s) (h : schedule y s j = .ok s') : Inv y held s' := by
  unfold Controller.schedule at h
  split at h
  · cases h
    exact hI
  · next x rest hp =>
    obtain ⟨l₁, l₂, hl, rfl, -⟩ := popFirst_some hp
    obtain ⟨st₁, h₁, h⟩ := bind_ok.1 h
    obtain ⟨st₂, h₂, h⟩ := bind_ok.1 h
    have hst := enqueue_commands (orFail_ok.1 h₁) (orFail_ok.1 h₂)
    subst hst
    have hx := hI.queued j x (by rw [hl]; simp)
    have hsub : ∀ k, ∀ z ∈ Function.update s.transactionQueues j (l₁ ++ l₂) k, z ∈ s.transactionQueues k := by
      intro k z hz
      by_cases hk : k = j
      · subst hk
        rw [Function.update_self] at hz
        rw [hl]
        rcases List.mem_append.1 hz with hz | hz
        · exact List.mem_append_left _ hz
        · exact List.mem_append_right _ (List.mem_cons_of_mem _ hz)
      · rwa [Function.update_of_ne hk] at hz
    cases h
    refine ⟨fun r q p hp => ?_, fun k z hz => hI.queued k z (hsub k z hz), hI.reads, fun a t => ?_, ?_,
      fun z z' hz hz' => ?_,
      hI.home⟩
    · change p ∈ (if r = x.rank ∧ q = x.threadID then _ else _) at hp
      split at hp
      · next hc =>
        rcases List.mem_append.1 hp with hp | hp
        · exact hI.housed r q p hp
        · have hk : p.physicalAddress = x.physicalAddress ∧ p.threadID = x.threadID := by
            rcases List.mem_cons.1 hp with rfl | hp
            · exact ⟨rfl, rfl⟩
            · rw [List.mem_singleton.1 hp]
              exact ⟨rfl, rfl⟩
          rw [hk.1, hk.2, hc.1, hc.2]
          exact ⟨hx.2.2.symm, rfl⟩
      · exact hI.housed r q p hp
    · have h1 := hI.balance a t
      show waiting a t (if x.write then _ else _) = Dram.reads a t ((s.state.enqueued x).queues (y.rankOf a) t) +
        Dram.reads a t (held s.state.sched) + Dram.reads a t s.inFlight + Dram.reads a t s.returnTransaction
      rw [reads_enqueued hx.2.2]
      cases hw : x.write with
      | true =>
        simp only [if_true]
        omega
      | false =>
        simp only [Bool.false_eq_true, if_false, waiting_append]
        omega
    · dsimp only
      rw [List.filter_append]
      cases hw : x.write with
      | true =>
        simp only [List.filter_cons, hw, Bool.not_true, Bool.false_eq_true, if_false, List.filter_nil,
          List.append_nil, if_true]
        exact hI.once
      | false =>
        simp only [List.filter_cons, hw, Bool.not_false, if_true, List.filter_nil, Bool.false_eq_true, if_false]
        refine (hI.once.append_right [x]).trans ?_
        rw [List.append_assoc, List.append_assoc]
        exact List.perm_append_comm.append_left _
    · have hout : ∀ z, Outstanding { s with
          transactionQueues := Function.update s.transactionQueues j (l₁ ++ l₂)
          pendingReadTransactions :=
            if x.write then s.pendingReadTransactions else s.pendingReadTransactions ++ [x] } z →
          s.Outstanding z := by
        rintro z (hz | ⟨hw, k, hz⟩)
        · change z ∈ (if x.write then _ else _) at hz
          split at hz
          · exact .inl hz
          · next hw =>
            rcases List.mem_append.1 hz with hz | hz
            · exact .inl hz
            · rw [List.mem_singleton.1 hz]
              exact .inr ⟨by simpa using hw, j, by rw [hl]; simp⟩
        · exact .inr ⟨hw, k, hsub k z hz⟩
      exact hI.apart z z' (hout z hz) (hout z' hz')

theorem Inv.updateTransactionQueue (hI : Inv y held s) (h : updateTransactionQueue y s = .ok s') : Inv y held s' :=
  forLoop_invariant (fun _ s => Inv y held s) (fun _ _ _ _ hi hb => hi.schedule hb) hI h

/-- The data of a read completes a pending read of its own pid, and there is one. -/
theorem Inv.updateReturnTransactions (hI : Inv y held s) :
    ∃ s', s.updateReturnTransactions = .ok s' ∧ Inv y held s' := by
  unfold Controller.updateReturnTransactions
  split
  · exact ⟨s, rfl, hI⟩
  · next d rest hd =>
    have hread : d.isRead = true := hI.reads.2 d (by rw [hd]; exact List.mem_cons_self)
    have hone : Dram.reads d.physicalAddress d.threadID [d] = 1 := by
      simp [Dram.reads, hread]
    -- a read of the pid of `d` for this address is pending
    obtain ⟨w, hw, hwk⟩ : ∃ w ∈ s.pendingReadTransactions,
        w.physicalAddress = d.physicalAddress ∧ w.threadID = d.threadID := by
      have hpos : 0 < waiting d.physicalAddress d.threadID s.pendingReadTransactions := by
        rw [hI.balance, hd, ← List.singleton_append, reads_append, hone]
        omega
      obtain ⟨w, hw, hk⟩ := List.countP_pos_iff.1 hpos
      exact ⟨w, hw, of_decide_eq_true hk⟩
    split
    · next x pending hp =>
      obtain ⟨l₁, l₂, hl, rfl, q, hq⟩ := popFirst_some hp
      have haddr : x.physicalAddress = d.physicalAddress := of_decide_eq_true hq
      have hx : x ∈ s.pendingReadTransactions := by
        rw [hl]
        exact List.mem_append_right _ List.mem_cons_self
      have hthread : x.threadID = d.threadID :=
        (hI.apart x w (.inl hx) (.inl hw) (haddr.trans hwk.1.symm)).trans hwk.2
      have hperm : s.pendingReadTransactions.Perm ([x] ++ (l₁ ++ l₂)) := by
        rw [hl]
        exact List.perm_middle
      refine ⟨_, rfl, hI.housed, hI.queued, ⟨hI.reads.1, fun d' hd' => hI.reads.2 d' ?_⟩, fun a t => ?_, ?_,
        fun z z' hz hz' => ?_, fun z d' hz => ?_⟩
      · rw [hd]
        exact List.mem_cons_of_mem _ hd'
      · have h1 := hI.balance a t
        have h2 : waiting a t s.pendingReadTransactions = waiting a t [x] + waiting a t (l₁ ++ l₂) := by
          rw [← waiting_append]
          exact hperm.countP_eq _
        have h3 : Dram.reads a t s.returnTransaction = Dram.reads a t [d] + Dram.reads a t rest := by
          rw [hd, ← reads_append]
          rfl
        have h4 : waiting a t [x] = Dram.reads a t [d] := by
          simp [waiting, Dram.reads, hread, haddr, hthread]
        show waiting a t (l₁ ++ l₂) = Dram.reads a t (s.state.queues (y.rankOf a) t) +
          Dram.reads a t (held s.state.sched) + Dram.reads a t s.inFlight + Dram.reads a t rest
        omega
      · refine (hI.once.trans (hperm.append_right _)).trans ?_
        exact List.perm_middle.symm
      · have hout : ∀ z, Outstanding { s with pendingReadTransactions := l₁ ++ l₂ } z → s.Outstanding z := by
          rintro z (hz | hz)
          · exact .inl (hperm.mem_iff.2 (List.mem_append_right _ hz))
          · exact .inr hz
        exact hI.apart z z' (hout z hz) (hout z' hz')
      · rcases List.mem_cons.1 hz with he | hz
        · cases he
          exact ⟨haddr, hthread⟩
        · exact hI.home z d' hz
    · next hp =>
      obtain ⟨q, hq⟩ := popFirst_none hp w hw
      exact absurd hwk.1 (of_decide_eq_false hq)

/-- A transaction comes to the queue of its pid. -/
theorem Inv.addTransaction {write : Bool} {address threadID : Nat} (hI : Inv y held s)
    (hok : Alone y s (.addTransaction write address threadID))
    (hr : (y.transaction write address threadID).InRange y.config) :
    Inv y held { s with
      transactionQueues := Function.update s.transactionQueues threadID
        (s.transactionQueues threadID ++ [y.transaction write address threadID]) } := by
  have hmem : ∀ j, ∀ x ∈ Function.update s.transactionQueues threadID
      (s.transactionQueues threadID ++ [y.transaction write address threadID]) j,
      x ∈ s.transactionQueues j ∨ j = threadID ∧ x = y.transaction write address threadID := by
    intro j x hx
    by_cases hj : j = threadID
    · subst hj
      rw [Function.update_self] at hx
      rcases List.mem_append.1 hx with hx | hx
      · exact .inl hx
      · exact .inr ⟨rfl, List.mem_singleton.1 hx⟩
    · rw [Function.update_of_ne hj] at hx
      exact .inl hx
  -- an outstanding read of before, or the new one
  have hout : ∀ z, Outstanding { s with
      transactionQueues := Function.update s.transactionQueues threadID
        (s.transactionQueues threadID ++ [y.transaction write address threadID]) } z →
      s.Outstanding z ∨ write = false ∧ z.physicalAddress = address ∧ z.threadID = threadID := by
    rintro z (hz | ⟨hw, k, hz⟩)
    · exact .inl (.inl hz)
    · rcases hmem k z hz with hz | ⟨-, rfl⟩
      · exact .inl (.inr ⟨hw, k, hz⟩)
      · exact .inr ⟨hw, rfl, rfl⟩
  have hold : write = false → ∀ z, s.Outstanding z → z.physicalAddress = address → z.threadID = threadID := by
    rintro hw z (hz | ⟨hzw, k, hz⟩) ha
    · exact (hok hw).1 z hz ha
    · exact (hok hw).2 k (hI.queued k z hz).2.1 z hz ⟨hzw, ha⟩
  refine ⟨hI.housed, fun j x hx => ?_, hI.reads, hI.balance, hI.once, fun z z' hz hz' he => ?_, hI.home⟩
  · rcases hmem j x hx with hx | ⟨rfl, rfl⟩
    · exact hI.queued j x hx
    · exact ⟨rfl, hr.2.2, rfl⟩
  · rcases hout z hz with hz | ⟨hw, ha, ht⟩
    · rcases hout z' hz' with hz' | ⟨hw, ha, ht⟩
      · exact hI.apart z z' hz hz' he
      · rw [ht]
        exact hold hw z hz (he.trans ha)
    · rcases hout z' hz' with hz' | ⟨-, -, ht'⟩
      · rw [ht]
        exact (hold hw z' hz' (he.symm.trans ha)).symm
      · rw [ht, ht']

/-- The data of a read comes back. -/
theorem Inv.receiveFromBus {k : Nat} {d : BusPacket} (hI : Inv y held s) (hd : s.inFlight[k]? = some d) :
    Inv y held { s with
      inFlight := s.inFlight.eraseIdx k
      returnTransaction := s.returnTransaction ++ [d] } := by
  obtain ⟨hk, rfl⟩ := List.getElem?_eq_some_iff.1 hd
  have hperm : (s.inFlight[k] :: s.inFlight.eraseIdx k).Perm s.inFlight := List.getElem_cons_eraseIdx_perm hk
  refine ⟨hI.housed, hI.queued, ⟨fun d' hd' => ?_, fun d' hd' => ?_⟩, fun a t => ?_, hI.once, hI.apart, hI.home⟩
  · exact hI.reads.1 d' (hperm.mem_iff.1 (List.mem_cons_of_mem _ hd'))
  · rcases List.mem_append.1 hd' with hd' | hd'
    · exact hI.reads.2 d' hd'
    · rw [List.mem_singleton.1 hd']
      exact hI.reads.1 _ (List.getElem_mem hk)
  · have h1 := hI.balance a t
    have h2 : Dram.reads a t s.inFlight =
        Dram.reads a t [s.inFlight[k]] + Dram.reads a t (s.inFlight.eraseIdx k) := by
      rw [← reads_append]
      exact reads_perm hperm.symm
    show waiting a t s.pendingReadTransactions = Dram.reads a t (s.state.queues (y.rankOf a) t) +
      Dram.reads a t (held s.state.sched) + Dram.reads a t (s.inFlight.eraseIdx k) +
      Dram.reads a t (s.returnTransaction ++ [s.inFlight[k]])
    rw [reads_append]
    omega

/-- The power of the ranks does not matter. -/
theorem Inv.powerChecks (hI : Inv y held s) (waiting : List Nat) (clock : Nat) :
    Inv y held (s.powerChecks y waiting clock) := by
  obtain ⟨_, _, _, h⟩ := s.state.powerChecks_eq y.config (State.isEmpty y.config) waiting clock
  unfold Controller.powerChecks
  rw [h]
  exact ⟨hI.housed, hI.queued, hI.reads, hI.balance, hI.once, hI.apart, hI.home⟩

/-- The end of a cycle. -/
theorem Inv.concluded (hm : Conserves held m) (hI : Inv y held s) {refresh : Option Nat} {s₁ : Controller π}
    (h : Controller.updateTransactionQueue y (s.popCommand y m refresh) = .ok s₁) (waiting : List Nat) (clock : Nat) :
    ∃ s', (s₁.powerChecks y waiting clock).updateReturnTransactions = .ok s' ∧ Inv y held s' :=
  (((hI.popCommand hm refresh).updateTransactionQueue h).powerChecks waiting clock).updateReturnTransactions

theorem step_inv (hm : Conserves held m) {a : Action} (hI : Inv y held s) (hok : Alone y s a)
    (h : step y m s a = .ok s') :
    Inv y held s' := by
  cases a with
  | addTransaction write address threadID =>
    simp only [step, bind_ok, check_ok, decide_eq_true_eq] at h
    obtain ⟨_, ht, _, hx, h⟩ := h
    split at h
    · cases h
      exact hI.addTransaction hok ⟨hx.1, hx.2, ht⟩
    · cases h
      exact hI
  | update refresh waiting =>
    simp only [step, bind_ok] at h
    obtain ⟨_, -, s₁, h₁, h⟩ := h
    obtain ⟨s₂, h₂, hI₂⟩ := hI.concluded hm h₁ waiting s.state.currentClockCycle
    rw [h₂] at h
    cases h
    exact hI₂
  | receiveFromBus k =>
    obtain ⟨d, hd, h⟩ := bind_ok.1 h
    cases h
    exact hI.receiveFromBus (orFail_ok.1 hd)

theorem avoids_schedule {e : Fault} (he : Fault.exit ≠ e) (j : Nat) : Avoids e (schedule y s j) := by
  unfold Controller.schedule
  split
  · exact avoids_ok _
  · simp only [avoids_bind, avoids_pure, implies_true, and_true]
    exact ⟨avoids_orFail fun _ => he, fun _ _ => avoids_orFail fun _ => he⟩

theorem avoids_updateTransactionQueue {e : Fault} (he : Fault.exit ≠ e) : Avoids e (updateTransactionQueue y s) := by
  unfold updateTransactionQueue
  generalize y.config.numPids = n
  induction n with
  | zero => exact avoids_ok _
  | succ n ih => exact avoids_bind.2 ⟨ih, fun _ _ => avoids_schedule he n⟩

theorem step_avoids (hm : Conserves held m) {a : Action} (hI : Inv y held s) : Avoids .abort (step y m s a) := by
  cases a with
  | addTransaction write address threadID =>
    refine avoids_bind.2 ⟨avoids_check nofun, fun _ _ => avoids_bind.2 ⟨avoids_check nofun, fun _ _ => ?_⟩⟩
    split <;> exact avoids_ok _
  | update refresh waiting =>
    refine avoids_bind.2 ⟨avoids_check nofun, fun _ _ => avoids_bind.2 ⟨avoids_updateTransactionQueue (by decide),
      fun s₁ h₁ => ?_⟩⟩
    obtain ⟨s₂, h₂, -⟩ := hI.concluded hm h₁ waiting s.state.currentClockCycle
    rw [h₂]
    exact avoids_ok _
  | receiveFromBus k =>
    exact avoids_bind.2 ⟨avoids_orFail fun _ => nofun, fun _ _ => avoids_pure _⟩

/-- What becomes of the reads of a run: a packet completes a read of its own address and pid,
no read is lost or completed twice, and a read is pending only as long as its command or its
data is on its way. -/
structure GoesHome (y : System) (held : π → List BusPacket) (s : Controller π) : Prop where
  home : ∀ x d, (x, d) ∈ s.completed → x.physicalAddress = d.physicalAddress ∧ x.threadID = d.threadID
  once : (s.entered.filter fun x => !x.write).Perm (s.pendingReadTransactions ++ s.completed.map Prod.fst)
  underway : ∀ a t, waiting a t s.pendingReadTransactions =
    Dram.reads a t (s.state.queues (y.rankOf a) t) + Dram.reads a t (held s.state.sched) +
      Dram.reads a t s.inFlight + Dram.reads a t s.returnTransaction

theorem goesHome_of_conserves (hm : Conserves held m) {st : State π} (hq : ∀ r q, st.queues r q = [])
    (hh : held st.sched = []) {as : List Action} (hok : Always (step y m) (Alone y) { state := st } as) :
    Avoids .abort (runs (step y m) { state := st } as) ∧
      ∀ s, runs (step y m) { state := st } as = .ok s → GoesHome y held s := by
  constructor
  · exact runs_avoids (Inv y held) (fun s a s' hi ho h => step_inv hm hi ho h) (fun s a hi _ => step_avoids hm hi)
      (inv_init hq hh) hok
  · intro s hr
    have hI : Inv y held s :=
      runs_invariant (Inv y held) (fun s a s' hi ho h => step_inv hm hi ho h) (inv_init hq hh) hok hr
    exact ⟨hI.home, hI.once, hI.balance⟩

end

/-- The data of every read goes back to the pid that fetched it, under temporal partitioning
and under fixed timing, when no two pids have reads for one address outstanding. -/
theorem read_data_goes_home (y : System) (as : List Action) :
    (∀ w lastPID, Always (step y (TP.methods w)) (Alone y) { state := TP.init lastPID } as →
      Avoids .abort (runs (step y (TP.methods w)) { state := TP.init lastPID } as) ∧
        ∀ s, runs (step y (TP.methods w)) { state := TP.init lastPID } as = .ok s → GoesHome y TP.held s) ∧
    (Always (step y FT.methods) (Alone y) { state := FT.init } as →
      Avoids .abort (runs (step y FT.methods) { state := FT.init } as) ∧
        ∀ s, runs (step y FT.methods) { state := FT.init } as = .ok s → GoesHome y FT.held s) :=
  ⟨fun w _ hok => goesHome_of_conserves (TP.conserves w TP.deadtimes) (fun _ _ => rfl) rfl hok,
    fun hok => goesHome_of_conserves FT.conserves (fun _ _ => rfl) rfl hok⟩

/-! ## Data for the wrong pid -/

/-- Two pids and one rank of the device; every address is in bank 0. -/
def oneRank : System where
  config := {
    timing := ddr3Sg15
    numRanks := 1
    numBanks := 8
    numPids := 2
    cmdQueueDepth := 8
    totalRowAccesses := 4
    schedulingPolicy := .rankThenBankRoundRobin }
  transQueueDepth := 8
  addressMapping a := (a, 0, 0)

/-- Both pids read, and the data that comes back first is passed on. -/
def readTwice (a b before after : Nat) : List Action :=
  List.replicate before (.update none []) ++ [.addTransaction false a 0, .addTransaction false b 1] ++
    List.replicate after (.update none []) ++ [.receiveFromBus 0, .update none []]

/-- The pids read different addresses. -/
theorem read_data_goes_home_two_addresses : ∃ s : Controller FT,
    runs (step oneRank FT.methods) { state := FT.init } (readTwice 0 64 0 70) = .ok s ∧
    s.completed.map (fun e => (e.1.threadID, e.2.threadID)) = [(1, 1)] ∧ GoesHome oneRank FT.held s := by
  refine exists_ok (fun s => s.completed.map (fun e => (e.1.threadID, e.2.threadID)) = [(1, 1)]) (by decide +kernel)
    fun s hs hp => ⟨hp, ?_⟩
  exact ((read_data_goes_home oneRank (readTwice 0 64 0 70)).2 (by decide +kernel)).2 s hs

/-- Both pids read address 64.  The first data that comes back is that of pid 1, whose slot or
turn is next, but it completes the read of pid 0, which became pending first. -/
theorem data_for_the_wrong_pid :
    (∃ s : Controller FT, runs (step oneRank FT.methods) { state := FT.init } (readTwice 64 64 0 70) = .ok s ∧
      s.completed.map (fun e => (e.1.threadID, e.2.threadID)) = [(0, 1)]) ∧
    ∃ s : Controller TP, runs (step oneRank (TP.methods { tpTurnLength := 7 })) { state := TP.init 0 }
        (readTwice 64 64 127 30) = .ok s ∧
      s.completed.map (fun e => (e.1.threadID, e.2.threadID)) = [(0, 1)] :=
  ⟨by decide +kernel, by decide +kernel⟩

end Controller

end DynamicCache.Dram
