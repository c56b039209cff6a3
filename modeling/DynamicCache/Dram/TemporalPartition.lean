import DynamicCache.Dram.Power
import DynamicCache.Dram.Turns
import DynamicCache.Lib.Scan

/-!
# Temporal partitioning (`CommandQueueTP.cpp`, `CommandQueueTPD.cpp`)

Only the pid whose turn it is sends commands.  In the dead time at the end of a
turn rows are not opened any more; the two schedulers differ in how long it is.

A queue holds whole transactions, and column commands whose `ACTIVATE` has been sent
(`Group`).  `Outcome` lists what a cycle can do.  `Kept` is what holds in every state
that is reached, whatever the timing and with ranks that are powered down: a row stays
open until its column command comes.  `Base` adds what the timing gives: every other bank
closes by itself.
-/

namespace DynamicCache.Dram

open Lib

structure TP where
  lastPID : Nat

/-- `normal_deadtime` and `refresh_deadtime` of a class. -/
structure Deadtimes where
  normal : Nat → Int
  refresh : Nat → Int

namespace TP

/-! ## The methods of the scheduler -/

/-- The first bank of a rank that is open or has to wait. -/
def firstBusy {π : Type} (c : Config) (s : State π) (rank : Nat) : Option Nat :=
  (List.range c.numBanks).find? fun b =>
    (s.bankStates rank b).currentBankState = .rowActive ∨
      s.currentClockCycle < (s.bankStates rank b).nextActivate

/-- Replaces the queue of a rank and pid. -/
def setQueue {π : Type} (s : State π) (rank pid : Nat) (queue : List BusPacket) : State π :=
  { s with
    queues := Function.update s.queues rank (Function.update (s.queues rank) pid queue) }

def refreshPopClosePage {π : Type} (w : Turns) (c : Config) (s : State π) :
    Option BusPacket × State π :=
  let rank := s.refreshRank
  let pid := w.getCurrentPID c.numPids s.currentClockCycle
  match firstBusy c s rank with
  | none =>
    if (s.bankStates rank 0).currentBankState ≠ .powerDown then
      (some (refreshPacket rank), { s with refreshRank := noRank, refreshWaiting := false })
    else (none, s)
  | some b =>
    if (s.bankStates rank b).currentBankState = .rowActive then
      -- make sure there is nothing else going there before the bank closes
      match popFirst (fun _ x => x.row = (s.bankStates rank b).openRowAddress ∧ x.bank = b) none
          (s.queues rank pid) with
      | some (x, queue) =>
        if x.busPacketType ≠ .activate ∧ s.isIssuable c x then (some x, setQueue s rank pid queue)
        else (none, s)
      | none => (none, s)
    else (none, s)

/-- A packet that may be sent: no `ACTIVATE` in the dead time, and no column command
whose `ACTIVATE` is right before it. -/
def accepts (c : Config) (s : State TP) (buffer : Bool) (prev : Option BusPacket)
    (x : BusPacket) : Bool :=
  s.isIssuable c x ∧ ¬(buffer ∧ x.busPacketType = .activate) ∧
    ¬ prev.any fun y => y.busPacketType = .activate ∧ y.physicalAddress = x.physicalAddress

/-- The search of one rank. -/
def scan (s : State TP) (ok : Option BusPacket → BusPacket → Bool) (pid rank : Nat) :
    Option (BusPacket × List BusPacket) :=
  if s.queues rank pid ≠ [] ∧ ¬(rank = s.refreshRank ∧ s.refreshWaiting = true) then
    popFirst ok none (s.queues rank pid)
  else none

/-- A change of turn resets the round robin over the ranks. -/
def newTurn (s : State TP) (pid : Nat) : State TP :=
  if s.sched.lastPID ≠ pid then
    { s with nextRank := 0, nextBank := 0, sched := { lastPID := pid } }
  else { s with sched := { lastPID := pid } }

/-- The search of `normalPopClosePage`, for packets that `ok` accepts. -/
def search (c : Config) (s : State TP) (ok : Option BusPacket → BusPacket → Bool) (pid : Nat) :
    Option BusPacket × State TP :=
  match rotate (fun x => nextRankAndBank c x.1 x.2) (s.nextRank, s.nextBank)
      (fun x => scan s ok pid x.1) (c.numRanks * c.numBanks) (s.nextRank, s.nextBank) with
  | ((r, b), some (p, queue)) =>
    (some p, setQueue { s with nextRank := r, nextBank := b } r pid queue)
  | ((r, b), none) => (none, { s with nextRank := r, nextBank := b })

def normalPopClosePage (w : Turns) (d : Config → Deadtimes) (c : Config) (s : State TP) :
    Option BusPacket × State TP :=
  let pid := w.getCurrentPID c.numPids s.currentClockCycle
  let buffer := w.isBufferTime c.numPids c.numRanks s.currentClockCycle (d c).normal (d c).refresh
  let s := newTurn s pid
  search c s (accepts c s buffer) pid

def deadtimes (c : Config) : Deadtimes :=
  ⟨tenPercentDeadtime c.timing.worstCaseDelay, tenPercentDeadtime c.timing.tpBufferTime⟩

/-- The methods with the dead times of a class. -/
def methodsWith (w : Turns) (d : Config → Deadtimes) : Methods TP :=
  ⟨refreshPopClosePage w, normalPopClosePage w d⟩

def methods (w : Turns) : Methods TP := methodsWith w deadtimes

/-- `lastPID` is not initialised. -/
def init (lastPID : Nat) : State TP := { sched := { lastPID := lastPID } }

end TP

namespace TPD

/-! ## The scheduler with the short dead time -/

def deadtimes (c : Config) : Deadtimes :=
  ⟨fun _ => c.timing.worstCaseDelay, fun _ => c.timing.tpBufferTime⟩

def accepts (c : Config) (s : State TP) (buffer activating : Bool) (prev : Option BusPacket)
    (x : BusPacket) : Bool :=
  TP.accepts c s buffer prev x ∧ ¬(x.busPacketType = .activate ∧ activating = true)

/-- `activating` is a local variable that becomes true when an `ACTIVATE` is taken,
and then the search is over: every packet is looked at with `activating == false`. -/
def normalPopClosePage (w : Turns) (c : Config) (s : State TP) : Option BusPacket × State TP :=
  let pid := w.getCurrentPID c.numPids s.currentClockCycle
  let d := deadtimes c
  let buffer := w.isBufferTime c.numPids c.numRanks s.currentClockCycle d.normal d.refresh
  let s := TP.newTurn s pid
  TP.search c s (accepts c s buffer false) pid

def methods (w : Turns) : Methods TP := ⟨TP.refreshPopClosePage w, normalPopClosePage w⟩

/-- The test of `activating` never rejects anything. -/
theorem normalPopClosePage_eq (w : Turns) (c : Config) (s : State TP) :
    normalPopClosePage w c s = TP.normalPopClosePage w deadtimes c s := by
  have h : ∀ (s : State TP) (buffer : Bool), accepts c s buffer false = TP.accepts c s buffer := by
    intro s buffer
    funext prev x
    simp [accepts]
  simp only [normalPopClosePage, TP.normalPopClosePage, h]

theorem methods_eq (w : Turns) : methods w = TP.methodsWith w deadtimes := by
  unfold methods TP.methodsWith
  congr 1
  funext c s
  exact normalPopClosePage_eq w c s

end TPD

namespace TP

/-! ## Queues -/

/-- A transaction in a queue: both commands, or the column command alone when the
row has been opened. -/
structure Group where
  tr : Transaction
  act : Bool

variable {gs : List Group} {pid r : Nat} {x : Nat × Nat} {g : Group} {y : BusPacket} {π : Type}
  {ok : Option BusPacket → BusPacket → Bool}

def Group.packets (g : Group) : List BusPacket :=
  if g.act then [g.tr.activate, g.tr.column] else [g.tr.column]

def flat (gs : List Group) : List BusPacket := gs.flatMap Group.packets

/-- The transactions whose row has been opened. -/
def lones (gs : List Group) : List Transaction := (gs.filter fun g => !g.act).map Group.tr

theorem flat_append (gs hs : List Group) : flat (gs ++ hs) = flat gs ++ flat hs :=
  List.flatMap_append

theorem lones_append (gs hs : List Group) : lones (gs ++ hs) = lones gs ++ lones hs := by
  simp [lones]

theorem lones_cons_act (x : Transaction) (gs : List Group) : lones (⟨x, true⟩ :: gs) = lones gs := by
  simp [lones]

theorem lones_cons_lone (x : Transaction) (gs : List Group) :
    lones (⟨x, false⟩ :: gs) = x :: lones gs := by
  simp [lones]

theorem mem_of_mem_lones {x : Transaction} (h : x ∈ lones gs) : (⟨x, false⟩ : Group) ∈ gs := by
  obtain ⟨⟨y, act⟩, hg, rfl⟩ := List.mem_map.1 h
  obtain ⟨hg, ha⟩ := List.mem_filter.1 hg
  cases act with
  | false => exact hg
  | true => cases ha

theorem mem_lones_of_mem (h : g ∈ gs) (ha : g.act = false) : g.tr ∈ lones gs :=
  List.mem_map.2 ⟨g, List.mem_filter.2 ⟨h, by rw [ha]; rfl⟩, rfl⟩

section Opening

variable {gs₁ gs₂ : List Group} {x z : Transaction} {g : Group}

theorem mem_lones_opened :
    z ∈ lones (gs₁ ++ ⟨x, false⟩ :: gs₂) ↔ z = x ∨ z ∈ lones (gs₁ ++ ⟨x, true⟩ :: gs₂) := by
  rw [lones_append, lones_append, lones_cons_lone, lones_cons_act]
  simp only [List.mem_append, List.mem_cons]
  exact or_left_comm

theorem mem_lones_removed :
    z ∈ lones (gs₁ ++ ⟨x, false⟩ :: gs₂) ↔ z = x ∨ z ∈ lones (gs₁ ++ gs₂) := by
  rw [lones_append, lones_append, lones_cons_lone]
  simp only [List.mem_append, List.mem_cons]
  exact or_left_comm

theorem tr_mem_of_opened (hg : g ∈ gs₁ ++ ⟨x, false⟩ :: gs₂) : ∃ g' ∈ gs₁ ++ ⟨x, true⟩ :: gs₂, g'.tr = g.tr := by
  rcases List.mem_append.1 hg with hg | hg
  · exact ⟨g, by simp [hg], rfl⟩
  · rcases List.mem_cons.1 hg with rfl | hg
    · exact ⟨⟨x, true⟩, by simp, rfl⟩
    · exact ⟨g, by simp [hg], rfl⟩

theorem mem_of_removed {h : Group} (hg : g ∈ gs₁ ++ gs₂) : g ∈ gs₁ ++ h :: gs₂ := by
  rcases List.mem_append.1 hg with hg | hg <;> simp [hg]

end Opening

/-- A transaction whose row is open is the first of its queue of those that are `same`. -/
def Front (same : Transaction → Transaction → Prop) (gs : List Group) : Prop :=
  gs.Pairwise fun g h => h.act = false → ¬same g.tr h.tr

namespace Front

variable {same : Transaction → Transaction → Prop} {gs gs₁ gs₂ : List Group} {x z : Transaction} {act : Bool}

theorem concat (hf : Front same gs) (x : Transaction) : Front same (gs ++ [⟨x, true⟩]) := by
  refine List.pairwise_append.2 ⟨hf, List.pairwise_singleton .., fun g _ g' hg' hact => ?_⟩
  obtain rfl := List.mem_singleton.1 hg'
  cases hact

theorem opened (hf : Front same (gs₁ ++ ⟨x, true⟩ :: gs₂)) (first : ∀ g ∈ gs₁, ¬same g.tr x) :
    Front same (gs₁ ++ ⟨x, false⟩ :: gs₂) := by
  unfold Front at hf ⊢
  rw [List.pairwise_append, List.pairwise_cons] at hf ⊢
  refine ⟨hf.1, hf.2.1, fun g hg g' hg' hact => ?_⟩
  rcases List.mem_cons.1 hg' with rfl | hg'
  · exact first g hg
  · exact hf.2.2 g hg g' (List.mem_cons_of_mem _ hg') hact

theorem removed (hf : Front same (gs₁ ++ g :: gs₂)) : Front same (gs₁ ++ gs₂) :=
  hf.sublist (List.Sublist.append_left (List.sublist_cons_self ..) _)

theorem before (hf : Front same (gs₁ ++ ⟨x, false⟩ :: gs₂)) : ∀ g ∈ gs₁, ¬same g.tr x := fun g hg =>
  (List.pairwise_append.1 hf).2.2 g hg _ List.mem_cons_self rfl

theorem after (hf : Front same (gs₁ ++ ⟨x, act⟩ :: gs₂)) (hz : z ∈ lones gs₂) : ¬same x z :=
  (List.pairwise_cons.1 (List.pairwise_append.1 hf).2.1).1 _ (mem_of_mem_lones hz) rfl

/-- Where `x` is the first of its kind, no row is open for one that is the same. -/
theorem not_same (hf : Front same (gs₁ ++ ⟨x, true⟩ :: gs₂)) (first : ∀ g ∈ gs₁, ¬same g.tr x)
    (hz : z ∈ lones (gs₁ ++ ⟨x, true⟩ :: gs₂)) (symm : same z x → same x z) : ¬same z x := by
  rw [lones_append, lones_cons_act] at hz
  rcases List.mem_append.1 hz with hz | hz
  · exact first _ (mem_of_mem_lones hz)
  · exact fun h => hf.after hz (symm h)

end Front

/-- A test that rejects a column command behind its own `ACTIVATE` when it rejects
the `ACTIVATE`, and looks at no other packet before. -/
structure Pairs (ok : Option BusPacket → BusPacket → Bool) : Prop where
  paired : ∀ prev (x : Transaction), ok prev x.activate = false →
    ok (some x.activate) x.column = false
  unpaired : ∀ prev y, (∀ z ∈ prev, z.busPacketType ≠ .activate) → ok prev y = ok none y

section Scan

variable {ok : Option BusPacket → BusPacket → Bool}

/-- What the search takes out of a queue: an `ACTIVATE` that no earlier one could be
sent instead of, or a column command. -/
inductive Picked (ok : Option BusPacket → BusPacket → Bool) (gs : List Group) : BusPacket → List Group → Prop
  | activate {gs₁ gs₂ : List Group} {x : Transaction} (h : gs = gs₁ ++ ⟨x, true⟩ :: gs₂)
    (accepted : ok none x.activate = true)
    (first : ∀ g ∈ gs₁, g.act = true → ok none g.tr.activate = false) :
    Picked ok gs x.activate (gs₁ ++ ⟨x, false⟩ :: gs₂)
  | column {gs₁ gs₂ : List Group} {x : Transaction} (h : gs = gs₁ ++ ⟨x, false⟩ :: gs₂)
    (accepted : ok none x.column = true) : Picked ok gs x.column (gs₁ ++ gs₂)

theorem Picked.cons {gs' : List Group} (hg : g.act = true → ok none g.tr.activate = false)
    (h : Picked ok gs y gs') : Picked ok (g :: gs) y (g :: gs') := by
  cases h with
  | @activate gs₁ gs₂ x h accepted first =>
    refine .activate (show g :: gs = (g :: gs₁) ++ ⟨x, true⟩ :: gs₂ by rw [h, List.cons_append]) accepted ?_
    intro g' hg'
    rcases List.mem_cons.1 hg' with rfl | hg'
    · exact hg
    · exact first g' hg'
  | @column gs₁ gs₂ x h accepted =>
    exact .column (show g :: gs = (g :: gs₁) ++ ⟨x, false⟩ :: gs₂ by rw [h, List.cons_append]) accepted

/-- The command that is popped, or why there is none. -/
theorem popFirst_flat (hok : Pairs ok) (gs : List Group) {prev : Option BusPacket}
    (hprev : ∀ z ∈ prev, z.busPacketType ≠ .activate) :
    (∃ y gs', popFirst ok prev (flat gs) = some (y, flat gs') ∧ Picked ok gs y gs') ∨
      popFirst ok prev (flat gs) = none ∧ ∀ x ∈ lones gs, ok none x.column = false := by
  induction gs generalizing prev with
  | nil => exact .inr ⟨rfl, nofun⟩
  | cons g gs ih =>
    obtain ⟨x, act⟩ := g
    have hcol : ∀ z ∈ some x.column, z.busPacketType ≠ .activate := by
      intro z hz
      obtain rfl := Option.some.inj hz
      exact x.column_ne_activate
    cases act with
    | true =>
      rw [show flat (⟨x, true⟩ :: gs) = x.activate :: x.column :: flat gs from rfl]
      cases ha : ok prev x.activate with
      | true =>
        rw [popFirst_cons_of_pos ha]
        exact .inl ⟨_, ⟨x, false⟩ :: gs, rfl,
          .activate (show _ = [] ++ ⟨x, true⟩ :: gs from rfl) (hok.unpaired prev _ hprev ▸ ha) nofun⟩
      | false =>
        rw [popFirst_cons_of_neg ha, popFirst_cons_of_neg (hok.paired prev x ha), lones_cons_act]
        obtain ⟨y, gs', h, hp⟩ | ⟨h, hn⟩ := ih hcol
        · rw [h]
          exact .inl ⟨y, ⟨x, true⟩ :: gs', rfl, hp.cons fun _ => hok.unpaired prev _ hprev ▸ ha⟩
        · rw [h]
          exact .inr ⟨rfl, hn⟩
    | false =>
      rw [show flat (⟨x, false⟩ :: gs) = x.column :: flat gs from rfl]
      cases ha : ok prev x.column with
      | true =>
        rw [popFirst_cons_of_pos ha]
        exact .inl ⟨_, gs, rfl, .column (show _ = [] ++ ⟨x, false⟩ :: gs from rfl) (hok.unpaired prev _ hprev ▸ ha)⟩
      | false =>
        rw [popFirst_cons_of_neg ha, lones_cons_lone]
        obtain ⟨y, gs', h, hp⟩ | ⟨h, hn⟩ := ih hcol
        · rw [h]
          exact .inl ⟨y, ⟨x, false⟩ :: gs', rfl, hp.cons nofun⟩
        · rw [h]
          refine .inr ⟨rfl, fun y hy => ?_⟩
          rcases List.mem_cons.1 hy with rfl | hy
          · rw [← hok.unpaired prev _ hprev, ha]
          · exact hn y hy

theorem popFirst_flat_some (hok : Pairs ok) {prev : Option BusPacket}
    (hprev : ∀ z ∈ prev, z.busPacketType ≠ .activate) {rest : List BusPacket}
    (h : popFirst ok prev (flat gs) = some (y, rest)) : ∃ gs', Picked ok gs y gs' ∧ rest = flat gs' := by
  obtain ⟨z, gs', h', hp⟩ | ⟨h', -⟩ := popFirst_flat hok gs hprev <;> rw [h'] at h <;> cases h
  exact ⟨gs', hp, rfl⟩

theorem Picked.accepted {gs gs' : List Group} {y : BusPacket} (h : Picked ok gs y gs') : ok none y = true := by
  cases h with
  | activate _ accepted => exact accepted
  | column _ accepted => exact accepted

theorem Picked.mono {ok' : Option BusPacket → BusPacket → Bool} {gs' : List Group} (h : Picked ok gs y gs')
    (hok : ok none y = true → ok' none y = true) (hfirst : y.busPacketType = .activate → ok none y = true →
      ∀ x : Transaction, ok none x.activate = false → ok' none x.activate = false) : Picked ok' gs y gs' := by
  cases h with
  | activate hgs accepted first =>
    exact .activate hgs (hok accepted) fun g hg ha => hfirst rfl accepted g.tr (first g hg ha)
  | column hgs accepted => exact .column hgs (hok accepted)

end Scan

theorem pairs_accepts (c : Config) (s : State TP) (buffer : Bool) : Pairs (accepts c s buffer) where
  paired prev x _ := by simp [accepts, Transaction.activate, Transaction.column]
  unpaired prev y h := by
    cases prev with
    | none => rfl
    | some z => simp [accepts, h z rfl]

theorem pairs_row (row bank : Nat) :
    Pairs fun _ (x : BusPacket) => decide (x.row = row ∧ x.bank = bank) where
  paired _ _ h := h
  unpaired _ _ _ := rfl

/-! ## What a cycle can do -/

theorem setQueue_queues (s : State π) (rank pid : Nat) (queue : List BusPacket) (r q : Nat) :
    (setQueue s rank pid queue).queues r q =
      if r = rank ∧ q = pid then queue else s.queues r q := by
  unfold setQueue
  by_cases hr : r = rank
  · subst hr
    by_cases hq : q = pid
    · subst hq
      simp
    · simp [hq]
  · simp [hr]

/-- Replaces the groups of a rank and pid. -/
def setGroups (gs : Nat → Nat → List Group) (rank pid : Nat) (hs : List Group) :
    Nat → Nat → List Group :=
  fun r q => if r = rank ∧ q = pid then hs else gs r q

theorem setGroups_self (gs : Nat → Nat → List Group) (rank pid : Nat) (hs : List Group) :
    setGroups gs rank pid hs rank pid = hs :=
  if_pos ⟨rfl, rfl⟩

theorem setGroups_of_ne {gs : Nat → Nat → List Group} {rank : Nat} {hs : List Group} {q : Nat}
    (h : ¬(r = rank ∧ q = pid)) : setGroups gs rank pid hs r q = gs r q :=
  if_neg h

theorem setGroups_forall {P : Nat → Nat → List Group → Prop} {gs : Nat → Nat → List Group} {rank : Nat}
    {hs : List Group} (h : ∀ r q, P r q (gs r q)) (hhs : P rank pid hs) (r q : Nat) :
    P r q (setGroups gs rank pid hs r q) := by
  unfold setGroups
  split
  · next he =>
    rw [he.1, he.2]
    exact hhs
  · exact h r q

/-- What the methods of the scheduler leave alone. -/
structure Left {π : Type} (c : Config) (s s' : State π) : Prop where
  clock : s'.currentClockCycle = s.currentClockCycle
  banks : s'.bankStates = s.bankStates
  faw : s'.tFAWCountdown = s.tFAWCountdown
  accesses : s'.rowAccessCounters = s.rowAccessCounters
  down : s'.powerDown = s.powerDown
  rank : s'.nextRank < c.numRanks
  bank : s'.nextBank < c.numBanks

section

variable {π : Type} {c : Config} {s s' : State π}

theorem Left.clock_finish (left : Left c s s') (p : BusPacket) :
    (s'.finish c p).currentClockCycle = s.currentClockCycle + 1 := by
  rw [State.finish_currentClockCycle, left.clock]

theorem Left.banks_finish (left : Left c s s') (p : BusPacket) (i j : Nat) :
    (s'.finish c p).bankStates i j = (s.bankStates i j).after c.timing s.currentClockCycle p i j := by
  rw [State.finish_bankStates, left.banks, left.clock]

end

/-- The result of the methods, called on `s` in a turn of `pid`. -/
inductive Outcome (c : Config) (pid : Nat) (buffer : Bool) (gs : Nat → Nat → List Group)
    (s : State TP) : Option BusPacket × State TP → (Nat → Nat → List Group) → Prop
  | nothing {s' : State TP} (left : Left c s s') (queues : s'.queues = s.queues)
    (waiting : s'.refreshWaiting = s.refreshWaiting)
    (stuck : s.refreshWaiting = false → ∀ r < c.numRanks, ∀ x ∈ lones (gs r pid),
      s.isIssuable c x.column = false) :
    Outcome c pid buffer gs s (none, s') gs
  | taken {s' : State TP} {r : Nat} {p : BusPacket} {hs : List Group} (left : Left c s s')
    (picked : Picked (fun _ p => s.isIssuable c p) (gs r pid) p hs)
    (early : p.busPacketType = .activate → buffer = false)
    (waiting : s'.refreshWaiting = s.refreshWaiting)
    (queues : ∀ r' q', s'.queues r' q' = flat (setGroups gs r pid hs r' q')) :
    Outcome c pid buffer gs s (some p, s') (setGroups gs r pid hs)
  | refresh {s' : State TP} (left : Left c s s') (queues : s'.queues = s.queues)
    (waiting : s.refreshWaiting = true)
    (idle : ∀ b < c.numBanks, (s.bankStates s.refreshRank b).currentBankState ≠ .rowActive ∧
      (s.bankStates s.refreshRank b).nextActivate ≤ s.currentClockCycle)
    (up : (s.bankStates s.refreshRank 0).currentBankState ≠ .powerDown) :
    Outcome c pid buffer gs s (some (refreshPacket s.refreshRank), s') gs

section Robin

variable {c : Config}

theorem nextRankAndBank_lt (h : x.1 < c.numRanks ∧ x.2 < c.numBanks) :
    (nextRankAndBank c x.1 x.2).1 < c.numRanks ∧ (nextRankAndBank c x.1 x.2).2 < c.numBanks := by
  unfold nextRankAndBank
  cases c.schedulingPolicy with
  | rankThenBankRoundRobin =>
    dsimp only
    split
    · dsimp only
      split <;> omega
    · dsimp only
      omega
  | bankThenRankRoundRobin =>
    dsimp only
    split
    · dsimp only
      split <;> omega
    · dsimp only
      omega

/-- The place of a rank and bank in the round robin. -/
def robinIndex (c : Config) (x : Nat × Nat) : Nat :=
  match c.schedulingPolicy with
  | .rankThenBankRoundRobin => x.1 + c.numRanks * x.2
  | .bankThenRankRoundRobin => x.2 + c.numBanks * x.1

/-- The lexicographic successor is the next number. -/
theorem succ_mod {a b m n : Nat} (ha : a < m) (hb : b < n) :
    (if a + 1 = m then 0 + m * (if b + 1 = n then 0 else b + 1) else a + 1 + m * b) =
      (a + m * b + 1) % (m * n) := by
  have hle : m * (b + 1) ≤ m * n := Nat.mul_le_mul_left m hb
  rw [Nat.mul_succ] at hle
  split
  · next h =>
    split
    · next h' =>
      rw [show a + m * b + 1 = m * n by rw [← h', Nat.mul_succ]; omega, Nat.mod_self]
      omega
    · next h' =>
      have hle' : m * (b + 2) ≤ m * n := Nat.mul_le_mul_left m (by omega)
      rw [Nat.mul_add] at hle'
      rw [Nat.mod_eq_of_lt (by omega), Nat.mul_succ]
      omega
  · rw [Nat.mod_eq_of_lt (by omega)]
    omega

theorem robinIndex_nextRankAndBank (h : x.1 < c.numRanks ∧ x.2 < c.numBanks) :
    robinIndex c (nextRankAndBank c x.1 x.2) =
      (robinIndex c x + 1) % (c.numRanks * c.numBanks) := by
  unfold robinIndex nextRankAndBank
  cases c.schedulingPolicy with
  | rankThenBankRoundRobin =>
    dsimp only
    rw [← succ_mod h.1 h.2]
    split <;> rfl
  | bankThenRankRoundRobin =>
    dsimp only
    rw [Nat.mul_comm c.numRanks, ← succ_mod h.2 h.1]
    split <;> rfl

theorem robinIndex_lt (h : x.1 < c.numRanks ∧ x.2 < c.numBanks) : robinIndex c x < c.numRanks * c.numBanks := by
  have key : ∀ {a b m n : Nat}, a < m → b < n → a + m * b < m * n := by
    intro a b m n ha hb
    have hle : m * (b + 1) ≤ m * n := Nat.mul_le_mul_left m hb
    rw [Nat.mul_succ] at hle
    omega
  unfold robinIndex
  cases c.schedulingPolicy with
  | rankThenBankRoundRobin => exact key h.1 h.2
  | bankThenRankRoundRobin =>
    dsimp only
    rw [Nat.mul_comm c.numRanks]
    exact key h.2 h.1

theorem robinIndex_inj {y : Nat × Nat} (hx : x.1 < c.numRanks ∧ x.2 < c.numBanks)
    (hy : y.1 < c.numRanks ∧ y.2 < c.numBanks) (h : robinIndex c x = robinIndex c y) : x = y := by
  have key : ∀ {a b a' b' m : Nat}, a < m → a' < m → a + m * b = a' + m * b' → a = a' ∧ b = b' := by
    intro a b a' b' m ha ha' he
    have hm := congrArg (· % m) he
    have hd := congrArg (· / m) he
    simp only [Nat.add_mul_mod_self_left, Nat.mod_eq_of_lt ha, Nat.mod_eq_of_lt ha'] at hm
    simp only [Nat.add_mul_div_left _ _ (show 0 < m by omega), Nat.div_eq_of_lt ha,
      Nat.div_eq_of_lt ha', Nat.zero_add] at hd
    exact ⟨hm, hd⟩
  unfold robinIndex at h
  cases hp : c.schedulingPolicy with
  | rankThenBankRoundRobin =>
    rw [hp] at h
    exact Prod.ext (key hx.1 hy.1 h).1 (key hx.1 hy.1 h).2
  | bankThenRankRoundRobin =>
    rw [hp] at h
    exact Prod.ext (key hx.2 hy.2 h).2 (key hx.2 hy.2 h).1

end Robin

section Methods

variable {c : Config} {s : State TP} {gs : Nat → Nat → List Group}

theorem isIssuable_congr {s s' : State π} (h : Left c s s') : s'.isIssuable c = s.isIssuable c := by
  funext p
  unfold State.isIssuable
  rw [h.clock, h.banks, h.faw, h.accesses]

theorem newTurn_left (pid : Nat) (hr : s.nextRank < c.numRanks) (hb : s.nextBank < c.numBanks) :
    Left c s (newTurn s pid) ∧ (newTurn s pid).queues = s.queues ∧
      (newTurn s pid).refreshWaiting = s.refreshWaiting := by
  unfold newTurn
  split
  · exact ⟨⟨rfl, rfl, rfl, rfl, rfl, by dsimp only; omega, by dsimp only; omega⟩, rfl, rfl⟩
  · exact ⟨⟨rfl, rfl, rfl, rfl, rfl, hr, hb⟩, rfl, rfl⟩

theorem scan_some {x : BusPacket × List BusPacket} (h : scan s ok pid r = some x) :
    popFirst ok none (s.queues r pid) = some x := by
  unfold scan at h
  split at h
  · exact h
  · cases h

theorem scan_none (hw : s.refreshWaiting = false) (h : scan s ok pid r = none) :
    popFirst ok none (s.queues r pid) = none := by
  unfold scan at h
  split at h
  · exact h
  · next hn =>
    rw [hw] at hn
    simp only [ne_eq, Bool.false_eq_true, and_false, not_false_eq_true, and_true, not_not] at hn
    rw [hn]
    rfl

theorem flat_setGroups (hq : ∀ r q, s.queues r q = flat (gs r q)) {s' : State TP} (hs : s'.queues = s.queues)
    (r pid : Nat) (hs₁ : List Group) (r' q' : Nat) :
    (setQueue s' r pid (flat hs₁)).queues r' q' = flat (setGroups gs r pid hs₁ r' q') := by
  rw [setQueue_queues, setGroups, hs]
  split
  · rfl
  · exact hq r' q'

/-- The search ends at some rank and bank: with a packet of the pid's queue there, or
after it has looked through all of them. -/
theorem search_cases (hok : Pairs ok) (pid : Nat) (hq : ∀ r q, s.queues r q = flat (gs r q))
    (hr : s.nextRank < c.numRanks) (hb : s.nextBank < c.numBanks) : ∃ r b, r < c.numRanks ∧ b < c.numBanks ∧
      ((∃ y hs, Picked ok (gs r pid) y hs ∧
          search c s ok pid = (some y, setQueue { s with nextRank := r, nextBank := b } r pid (flat hs))) ∨
        (search c s ok pid = (none, { s with nextRank := r, nextBank := b }) ∧
          (s.refreshWaiting = false → ∀ r' < c.numRanks, ∀ x ∈ lones (gs r' pid), ok none x.column = false))) := by
  have hnone : ∀ z ∈ (none : Option BusPacket), z.busPacketType ≠ .activate := by
    intro z hz
    cases hz
  have hmem : ∀ out, rotate (fun x => nextRankAndBank c x.1 x.2) (s.nextRank, s.nextBank)
      (fun x => scan s ok pid x.1) (c.numRanks * c.numBanks)
      (s.nextRank, s.nextBank) = out → out.1.1 < c.numRanks ∧ out.1.2 < c.numBanks := by
    rintro out rfl
    exact rotate_mem (p := fun x : Nat × Nat => x.1 < c.numRanks ∧ x.2 < c.numBanks)
      (fun y hy => nextRankAndBank_lt hy) ⟨hr, hb⟩
  unfold search
  split
  · next r b p queue heq =>
    have hmem := hmem _ heq
    have hvisit := rotate_some heq
    have hpop := scan_some hvisit
    rw [hq] at hpop
    obtain ⟨hs, hp, rfl⟩ := popFirst_flat_some hok hnone hpop
    exact ⟨r, b, hmem.1, hmem.2, .inl ⟨p, hs, hp, rfl⟩⟩
  · next r b heq =>
    have hmem := hmem _ heq
    refine ⟨r, b, hmem.1, hmem.2, .inr ⟨rfl, fun hw r' hr' x hx => ?_⟩⟩
    have hscan := rotate_none (robinIndex c)
      (fun y hy => ⟨nextRankAndBank_lt hy, robinIndex_nextRankAndBank hy⟩)
      (fun y hy => robinIndex_lt hy) (fun y z hy hz => robinIndex_inj hy hz) ⟨hr, hb⟩ heq
      (y := (r', s.nextBank)) ⟨hr', hb⟩
    have hpop := scan_none hw hscan
    obtain ⟨y, hs, h, hp⟩ | ⟨-, hn⟩ := popFirst_flat hok (gs r' pid) hnone
    · rw [hq, h] at hpop
      cases hpop
    · exact hn x hx

theorem search_outcome (pid : Nat) (buffer : Bool) (hq : ∀ r q, s.queues r q = flat (gs r q))
    (hr : s.nextRank < c.numRanks) (hb : s.nextBank < c.numBanks) :
    ∃ gs', Outcome c pid buffer gs s (search c s (accepts c s buffer) pid) gs' := by
  obtain ⟨r, b, hlr, hlb, ⟨y, hs, hp, h⟩ | ⟨h, hstuck⟩⟩ := search_cases (pairs_accepts c s buffer) pid hq hr hb
  · have hbuf : y.busPacketType = .activate → accepts c s buffer none y = true → buffer = false := by
      intro ha hok
      simp only [accepts, decide_eq_true_eq] at hok
      exact Bool.eq_false_iff.2 fun hb => hok.2.1 ⟨hb, ha⟩
    rw [h]
    refine ⟨_, .taken (r := r) ⟨rfl, rfl, rfl, rfl, rfl, hlr, hlb⟩
      (hp.mono (fun hok => (of_decide_eq_true hok).1) fun ha hok x hx => ?_)
      (fun ha => hbuf ha hp.accepted) rfl (flat_setGroups hq rfl r pid hs)⟩
    -- it is not dead time, so that an earlier one was rejected for its bank only
    simpa [accepts, hbuf ha hok] using hx
  · rw [h]
    refine ⟨gs, .nothing ⟨rfl, rfl, rfl, rfl, rfl, hlr, hlb⟩ rfl rfl fun hw r' hr' x hx => ?_⟩
    have := hstuck hw r' hr' x hx
    simpa [accepts, x.column_ne_activate] using this

theorem Left.trans {s s₁ s₂ : State π} (h : Left c s s₁) (h' : Left c s₁ s₂) : Left c s s₂ :=
  ⟨h'.clock.trans h.clock, h'.banks.trans h.banks, h'.faw.trans h.faw,
    h'.accesses.trans h.accesses, h'.down.trans h.down, h'.rank, h'.bank⟩

/-- A change of the round robin before the search does not change what it finds. -/
theorem Outcome.of_left {buffer : Bool} {s₁ : State TP} {out : Option BusPacket × State TP}
    {gs' : Nat → Nat → List Group} (hl : Left c s s₁) (hq : s₁.queues = s.queues)
    (hw : s₁.refreshWaiting = s.refreshWaiting) (hk : s₁.refreshRank = s.refreshRank)
    (h : Outcome c pid buffer gs s₁ out gs') : Outcome c pid buffer gs s out gs' := by
  have hi := isIssuable_congr hl
  cases h with
  | nothing left queues waiting stuck =>
    refine .nothing (hl.trans left) (queues.trans hq) (waiting.trans hw) ?_
    intro hwait r hr x hx
    rw [← hi]
    exact stuck (hw.trans hwait) r hr x hx
  | taken left picked early waiting queues =>
    exact .taken (hl.trans left) (hi ▸ picked) early (waiting.trans hw) queues
  | refresh left queues waiting idle up =>
    rw [hk] at idle up ⊢
    rw [hl.banks] at up
    rw [hl.banks, hl.clock] at idle
    exact .refresh (hl.trans left) (queues.trans hq) (hw ▸ waiting) idle up

theorem normalPopClosePage_outcome (w : Turns) (d : Config → Deadtimes)
    (hq : ∀ r q, s.queues r q = flat (gs r q))
    (hr : s.nextRank < c.numRanks) (hb : s.nextBank < c.numBanks) :
    ∃ gs', Outcome c (w.getCurrentPID c.numPids s.currentClockCycle)
      (w.isBufferTime c.numPids c.numRanks s.currentClockCycle (d c).normal (d c).refresh)
      gs s (normalPopClosePage w d c s) gs' := by
  unfold normalPopClosePage
  generalize w.getCurrentPID c.numPids s.currentClockCycle = pid
  obtain ⟨hl, hqs, hw⟩ := newTurn_left (c := c) pid hr hb
  obtain ⟨gs', h⟩ := search_outcome (c := c) (s := newTurn s pid) pid
    (w.isBufferTime c.numPids c.numRanks s.currentClockCycle (d c).normal (d c).refresh)
    (fun r q => (congrFun (congrFun hqs r) q).trans (hq r q)) hl.rank hl.bank
  refine ⟨gs', h.of_left hl hqs hw ?_⟩
  unfold newTurn
  split <;> rfl

/-- Before a refresh only column commands for open rows are sent. -/
theorem refreshPopClosePage_cases (w : Turns) (hq : ∀ r q, s.queues r q = flat (gs r q)) :
    refreshPopClosePage w c s = (none, s) ∨
      (refreshPopClosePage w c s =
          (some (refreshPacket s.refreshRank), { s with refreshRank := noRank, refreshWaiting := false }) ∧
        (∀ b < c.numBanks, (s.bankStates s.refreshRank b).currentBankState ≠ .rowActive ∧
          (s.bankStates s.refreshRank b).nextActivate ≤ s.currentClockCycle) ∧
        (s.bankStates s.refreshRank 0).currentBankState ≠ .powerDown) ∨
      ∃ gs₁ gs₂ x, gs s.refreshRank (w.getCurrentPID c.numPids s.currentClockCycle) = gs₁ ++ ⟨x, false⟩ :: gs₂ ∧
        s.isIssuable c x.column = true ∧
        refreshPopClosePage w c s = (some x.column, setQueue s s.refreshRank
          (w.getCurrentPID c.numPids s.currentClockCycle) (flat (gs₁ ++ gs₂))) := by
  unfold refreshPopClosePage
  dsimp only
  split
  · next hbusy =>
    split
    · next hup =>
      refine .inr (.inl ⟨rfl, fun b hlt => ?_, hup⟩)
      have := List.find?_eq_none.1 hbusy b (List.mem_range.2 hlt)
      simpa using this
    · exact .inl rfl
  · split
    · split
      · next x queue hpop =>
        split
        · next hx =>
          rw [hq] at hpop
          obtain ⟨hs, hp, rfl⟩ := popFirst_flat_some (pairs_row _ _) (by intro z hz; cases hz) hpop
          cases hp with
          | activate _ _ _ => exact absurd rfl hx.1
          | @column gs₁ gs₂ x h _ => exact .inr (.inr ⟨gs₁, gs₂, x, h, hx.2, rfl⟩)
        · exact .inl rfl
      · exact .inl rfl
    · exact .inl rfl

theorem popClosePage_outcome (w : Turns) (d : Config → Deadtimes)
    (hq : ∀ r q, s.queues r q = flat (gs r q))
    (hr : s.nextRank < c.numRanks) (hb : s.nextBank < c.numBanks) :
    ∃ gs', Outcome c (w.getCurrentPID c.numPids s.currentClockCycle)
      (w.isBufferTime c.numPids c.numRanks s.currentClockCycle (d c).normal (d c).refresh)
      gs s (s.popClosePage c (methodsWith w d)) gs' := by
  refine State.popClosePage_cases (P := fun out => ∃ gs', Outcome c _ _ gs s out gs')
    (normalPopClosePage_outcome w d hq hr hb) fun hw => ?_
  obtain h | ⟨h, hidle, hup⟩ | ⟨gs₁, gs₂, x, hgs, hi, h⟩ := refreshPopClosePage_cases (c := c) w hq
  · exact .inl h
  · exact .inr ⟨_, _, h, gs, .refresh ⟨rfl, rfl, rfl, rfl, rfl, hr, hb⟩ rfl hw hidle hup⟩
  · exact .inr ⟨_, _, h, _, .taken ⟨rfl, rfl, rfl, rfl, rfl, hr, hb⟩ (.column hgs hi)
      (fun ha => absurd ha x.column_ne_activate) rfl (flat_setGroups hq rfl _ _ _)⟩

end Methods

/-! ## The invariant of every run -/

end TP

/-- A bank with auto-precharge is closed when its next `ACTIVATE` may be sent, and
no timing that counts down is 0. -/
structure Timing.Closes (t : Timing) : Prop where
  read : t.readToPreDelay + t.tRP ≤ t.readAutopreDelay
  write : t.writeToPreDelay + t.tRP ≤ t.writeAutopreDelay
  rp : 1 ≤ t.tRP
  rfc : 1 ≤ t.tRFC
  bl : 2 ≤ t.BL
  faw : 1 ≤ t.tFAW

namespace TP

/-- What holds in every state that is reached. -/
structure Kept (c : Config) (gs : Nat → Nat → List Group) (s : State TP) : Prop where
  queues : ∀ r q, s.queues r q = flat (gs r q)
  range : ∀ r q, ∀ g ∈ gs r q, g.tr.rank = r ∧ g.tr.threadID = q ∧ g.tr.InRange c
  opened : ∀ r q, ∀ x ∈ lones (gs r q), Activated (s.bankStates r x.bank)
  front : ∀ r q, Front (fun x y => x.bank = y.bank) (gs r q)
  apart : ∀ r q q', q ≠ q' → ∀ x ∈ lones (gs r q), ∀ z ∈ lones (gs r q'), x.bank ≠ z.bank
  rank : s.nextRank < c.numRanks
  bank : s.nextBank < c.numBanks

/-- What also holds at the beginning of a cycle (`δ = 0`), and when the scheduler is
called in it (`δ = 1`), while no rank is powered down. -/
structure Base (c : Config) (δ : Nat) (gs : Nat → Nat → List Group) (s : State TP) : Prop extends Kept c gs s where
  rows : ∀ r q, ∀ x ∈ lones (gs r q), (s.bankStates r x.bank).Opened x.row
  banks : ∀ r b, (∃ q, ∃ x ∈ lones (gs r q), x.bank = b) ∨
    (s.bankStates r b).Settles c.timing (s.bankStates r b).nextActivate (s.currentClockCycle + δ)
  faw : ∀ r, (s.tFAWCountdown r).Pairwise (· < ·) ∧
    ∀ e ∈ s.tFAWCountdown r, 1 ≤ e ∧ e + δ ≤ c.timing.tFAW
  accesses : ∀ r b, s.rowAccessCounters r b = 0

variable {x : Transaction} {pid r : Nat} {p : BusPacket} {gs₁ gs₂ : List Group} {gs' : Nat → Nat → List Group}

/-- A whole transaction is not one whose row has been opened. -/
theorem lones_setGroups_enqueue {gs : Nat → Nat → List Group} (r q : Nat) :
    lones (setGroups gs x.rank x.threadID (gs x.rank x.threadID ++ [⟨x, true⟩]) r q) =
      lones (gs r q) := by
  unfold setGroups
  split
  · next h =>
    rw [lones_append, lones_cons_act, h.1, h.2]
    simp [lones]
  · rfl

theorem finish_robin {π : Type} {c : Config} {s : State π} (hr : s.nextRank < c.numRanks)
    (hb : s.nextBank < c.numBanks) :
    (s.finish c p).nextRank < c.numRanks ∧ (s.finish c p).nextBank < c.numBanks := by
  have h := nextRankAndBank_lt (c := c) (x := (s.nextRank, s.nextBank)) ⟨hr, hb⟩
  simp only [State.finish, State.issue, State.popped]
  repeat' split
  all_goals first | exact ⟨hr, hb⟩ | exact h

section Kept

variable {c : Config} {gs : Nat → Nat → List Group} {s s' : State TP} {x z : Transaction}
  {r q : Nat} {gs₁ gs₂ : List Group}

theorem Kept.init (lastPID : Nat) (hr : 1 ≤ c.numRanks) (hb : 1 ≤ c.numBanks) :
    Kept c (fun _ _ => []) (TP.init lastPID) where
  queues _ _ := rfl
  range _ _ _ h := nomatch h
  opened _ _ _ h := nomatch h
  front _ _ := .nil
  apart _ _ _ _ _ h := nomatch h
  rank := hr
  bank := hb

/-- Queues and round robin stay, and banks do what keeps them. -/
theorem Kept.congr (h : Kept c gs s) (hq : s'.queues = s.queues)
    (hactivated : ∀ r q, ∀ x ∈ lones (gs r q), Activated (s'.bankStates r x.bank))
    (hr : s'.nextRank < c.numRanks) (hb : s'.nextBank < c.numBanks) : Kept c gs s' where
  queues r q := (congrFun (congrFun hq r) q).trans (h.queues r q)
  range := h.range
  opened := hactivated
  front := h.front
  apart := h.apart
  rank := hr
  bank := hb

theorem Kept.ready (h : Kept c gs s) (refresh : Option Nat) : Kept c gs (s.ready c refresh) :=
  h.congr rfl (fun r q x hx => (h.opened r q x hx).tick) h.rank h.bank

theorem Kept.idle (h : Kept c gs s) (left : Left c s s') (hq : s'.queues = s.queues) : Kept c gs s'.idle := by
  have hb : s'.idle.bankStates = s.bankStates := left.banks
  refine h.congr hq (fun r q x hx => ?_) left.rank left.bank
  rw [hb]
  exact h.opened r q x hx

theorem Kept.range_of_split (h : Kept c gs s) {act : Bool} (hgs : gs r q = gs₁ ++ ⟨x, act⟩ :: gs₂) :
    x.rank = r ∧ x.threadID = q ∧ x.InRange c :=
  h.range r q ⟨x, act⟩ (by rw [hgs]; simp)

/-- No row is open in a bank to which an `ACTIVATE` may be sent. -/
theorem Kept.closed (h : Kept c gs s) (hi : s.isIssuable c x.activate = true) :
    ∀ q', ∀ z ∈ lones (gs x.rank q'), z.bank ≠ x.bank := by
  intro q' z hz hb
  have hf := (h.opened x.rank q' z hz).1
  rw [hb] at hf
  rcases (State.isIssuable_activate.1 hi).1 with hc | hc <;> rw [hf] at hc <;> cases hc

/-- An `ACTIVATE` that is sent is the first of its queue for its bank. -/
theorem Kept.first (h : Kept c gs s) (hgs : gs x.rank q = gs₁ ++ ⟨x, true⟩ :: gs₂)
    (hi : s.isIssuable c x.activate = true)
    (hfirst : ∀ g ∈ gs₁, g.act = true → s.isIssuable c g.tr.activate = false) :
    ∀ g ∈ gs₁, g.tr.bank ≠ x.bank := by
  intro g hg hb
  have hmem : g ∈ gs x.rank q := by
    rw [hgs]
    exact List.mem_append_left _ hg
  cases ha : g.act with
  | true =>
    -- it may be sent as well
    have hg' := hfirst g hg ha
    have hr := (h.range _ _ g hmem).1
    have : s.isIssuable c g.tr.activate = true := by
      rw [State.isIssuable_activate] at hi ⊢
      rwa [hr, hb]
    rw [this] at hg'
    cases hg'
  | false => exact h.closed hi q g.tr (mem_lones_of_mem hmem ha) hb

theorem mem_lones_activate (hgs : gs x.rank x.threadID = gs₁ ++ ⟨x, true⟩ :: gs₂) :
    z ∈ lones (setGroups gs x.rank x.threadID (gs₁ ++ ⟨x, false⟩ :: gs₂) r q) ↔
      (r = x.rank ∧ q = x.threadID ∧ z = x) ∨ z ∈ lones (gs r q) := by
  by_cases hrq : r = x.rank ∧ q = x.threadID
  · obtain ⟨rfl, rfl⟩ := hrq
    rw [setGroups_self, mem_lones_opened, hgs]
    simp only [true_and]
  · rw [setGroups_of_ne hrq]
    exact (or_iff_right fun h => hrq ⟨h.1, h.2.1⟩).symm

/-- A row that is open after an `ACTIVATE` is its own, or one of another bank. -/
theorem Kept.lones_activate (h : Kept c gs s) (hgs : gs x.rank x.threadID = gs₁ ++ ⟨x, true⟩ :: gs₂)
    (hi : s.isIssuable c x.activate = true)
    (hz : z ∈ lones (setGroups gs x.rank x.threadID (gs₁ ++ ⟨x, false⟩ :: gs₂) r q)) :
    (r = x.rank ∧ q = x.threadID ∧ z = x) ∨ (z ∈ lones (gs r q) ∧ ¬(r = x.rank ∧ z.bank = x.bank)) := by
  refine ((mem_lones_activate hgs).1 hz).imp_right fun hz => ⟨hz, ?_⟩
  rintro ⟨rfl, hb⟩
  exact h.closed hi q z hz hb

theorem Kept.before (h : Kept c gs s) (hgs : gs r q = gs₁ ++ ⟨x, false⟩ :: gs₂) : ∀ g ∈ gs₁, g.tr.bank ≠ x.bank :=
  (hgs ▸ h.front r q).before

/-- The rows that are still open after a column command are in other banks. -/
theorem Kept.mem_lones_column (h : Kept c gs s) (hgs : gs x.rank x.threadID = gs₁ ++ ⟨x, false⟩ :: gs₂) :
    z ∈ lones (setGroups gs x.rank x.threadID (gs₁ ++ gs₂) r q) ↔
      z ∈ lones (gs r q) ∧ ¬(r = x.rank ∧ z.bank = x.bank) := by
  by_cases hrq : r = x.rank ∧ q = x.threadID
  · obtain ⟨rfl, rfl⟩ := hrq
    rw [setGroups_self, hgs, mem_lones_removed]
    refine ⟨fun hz => ⟨.inr hz, fun hb => ?_⟩, fun ⟨hz, hne⟩ => hz.resolve_left fun he => hne ⟨rfl, congrArg _ he⟩⟩
    rw [lones_append, List.mem_append] at hz
    rcases hz with hz | hz
    · exact h.before hgs _ (mem_of_mem_lones hz) hb.2
    · exact (hgs ▸ h.front x.rank x.threadID).after hz hb.2.symm
  · rw [setGroups_of_ne hrq]
    refine ⟨fun hz => ⟨hz, ?_⟩, And.left⟩
    rintro ⟨rfl, hb⟩
    have hx : x ∈ lones (gs x.rank x.threadID) := hgs ▸ mem_lones_removed.2 (.inl rfl)
    exact h.apart _ _ _ (fun hq => hrq ⟨rfl, hq⟩) z hz x hx hb

/-- Rows are open for one transaction only. -/
theorem Kept.unique (h : Kept c gs s) (hgs : gs x.rank x.threadID = gs₁ ++ ⟨x, false⟩ :: gs₂)
    (hz : z ∈ lones (gs x.rank q)) (hb : z.bank = x.bank) : z = x := by
  by_cases hq : q = x.threadID
  · subst hq
    by_contra hne
    have hz' : z ∈ lones (gs₁ ++ gs₂) := (mem_lones_removed.1 (hgs ▸ hz)).resolve_left hne
    rw [← setGroups_self gs x.rank x.threadID (gs₁ ++ gs₂)] at hz'
    exact ((h.mem_lones_column hgs).1 hz').2 ⟨rfl, hb⟩
  · have hx : x ∈ lones (gs x.rank x.threadID) := hgs ▸ mem_lones_removed.2 (.inl rfl)
    exact absurd hb (h.apart _ _ _ hq z hz x hx)

theorem Kept.range_setGroups (h : Kept c gs s) {hs : List Group} (hhs : ∀ g ∈ hs, ∃ g' ∈ gs r q, g'.tr = g.tr) :
    ∀ r' q', ∀ g ∈ setGroups gs r q hs r' q', g.tr.rank = r' ∧ g.tr.threadID = q' ∧ g.tr.InRange c := by
  refine setGroups_forall (P := fun r q l => ∀ g ∈ l, g.tr.rank = r ∧ g.tr.threadID = q ∧ g.tr.InRange c) h.range
    fun g hg => ?_
  obtain ⟨g', hg', htr⟩ := hhs g hg
  exact htr ▸ h.range r q g' hg'

theorem Kept.activate (h : Kept c gs s) (left : Left c s s') (hgs : gs r q = gs₁ ++ ⟨x, true⟩ :: gs₂)
    (hi : s.isIssuable c x.activate = true) (hbefore : ∀ g ∈ gs₁, g.tr.bank ≠ x.bank)
    (hq : ∀ r' q', s'.queues r' q' = flat (setGroups gs r q (gs₁ ++ ⟨x, false⟩ :: gs₂) r' q')) :
    Kept c (setGroups gs r q (gs₁ ++ ⟨x, false⟩ :: gs₂)) (s'.finish c x.activate) := by
  obtain ⟨rfl, rfl, -⟩ := h.range_of_split hgs
  have hrobin := finish_robin (p := x.activate) left.rank left.bank
  refine ⟨fun r' q' => by rw [State.finish_queues]; exact hq r' q',
    h.range_setGroups fun g hg => hgs ▸ tr_mem_of_opened hg, fun r' q' z hz => ?_,
    setGroups_forall (P := fun _ _ l => Front _ l) h.front ((hgs ▸ h.front x.rank x.threadID).opened hbefore),
    fun r' q₁ q₂ hne z₁ hz₁ z₂ hz₂ hb => ?_, hrobin.1, hrobin.2⟩
  · rw [State.finish_bankStates, left.banks]
    rcases h.lones_activate hgs hi hz with ⟨rfl, rfl, rfl⟩ | ⟨hz, hother⟩
    · exact activated_after_activate rfl
    · exact (h.opened r' q' z hz).after_of_ne nofun hother
  · rcases h.lones_activate hgs hi hz₁ with ⟨rfl, rfl, rfl⟩ | ⟨hz₁, hother₁⟩
    · rcases h.lones_activate hgs hi hz₂ with ⟨-, rfl, -⟩ | ⟨-, hother₂⟩
      · exact hne rfl
      · exact hother₂ ⟨rfl, hb.symm⟩
    · rcases h.lones_activate hgs hi hz₂ with ⟨rfl, rfl, rfl⟩ | ⟨hz₂, -⟩
      · exact hother₁ ⟨rfl, hb⟩
      · exact h.apart r' q₁ q₂ hne z₁ hz₁ z₂ hz₂ hb

theorem Kept.column (h : Kept c gs s) (left : Left c s s') (hgs : gs r q = gs₁ ++ ⟨x, false⟩ :: gs₂)
    (hq : ∀ r' q', s'.queues r' q' = flat (setGroups gs r q (gs₁ ++ gs₂) r' q')) :
    Kept c (setGroups gs r q (gs₁ ++ gs₂)) (s'.finish c x.column) := by
  obtain ⟨rfl, rfl, -⟩ := h.range_of_split hgs
  have hrobin := finish_robin (p := x.column) left.rank left.bank
  refine ⟨fun r' q' => by rw [State.finish_queues]; exact hq r' q',
    h.range_setGroups fun g hg => ⟨g, hgs ▸ mem_of_removed hg, rfl⟩, fun r' q' z hz => ?_,
    setGroups_forall (P := fun _ _ l => Front _ l) h.front (hgs ▸ h.front x.rank x.threadID).removed,
    fun r' q₁ q₂ hne z₁ hz₁ z₂ hz₂ => ?_, hrobin.1, hrobin.2⟩
  · rw [State.finish_bankStates, left.banks]
    obtain ⟨hz, hother⟩ := (h.mem_lones_column hgs).1 hz
    exact (h.opened r' q' z hz).after_of_ne x.column_ne_refresh hother
  · exact h.apart r' q₁ q₂ hne z₁ ((h.mem_lones_column hgs).1 hz₁).1 z₂ ((h.mem_lones_column hgs).1 hz₂).1

theorem Kept.not_lone_of_closed (h : Kept c gs s)
    (hclosed : ∀ b < c.numBanks, (s.bankStates r b).currentBankState ≠ .rowActive) : x ∉ lones (gs r q) := fun hx =>
  hclosed x.bank (h.range r q _ (mem_of_mem_lones hx)).2.2.2.1 (h.opened r q x hx).1

/-- A refresh is sent to a rank that has no open row. -/
theorem Kept.refresh (h : Kept c gs s) (left : Left c s s') (hq : s'.queues = s.queues) {rank : Nat}
    (hclosed : ∀ b < c.numBanks, (s.bankStates rank b).currentBankState ≠ .rowActive) :
    Kept c gs (s'.finish c (refreshPacket rank)) := by
  have hrobin := finish_robin (p := refreshPacket rank) left.rank left.bank
  refine h.congr (by rw [State.finish_queues, hq]) (fun r q x hx => ?_) hrobin.1 hrobin.2
  rw [State.finish_bankStates, left.banks]
  have hne : r ≠ rank := by
    rintro rfl
    exact h.not_lone_of_closed hclosed hx
  rw [after_refresh_of_ne (p := refreshPacket rank) rfl hne]
  exact h.opened r q x hx

theorem Kept.enqueued (h : Kept c gs s) (hx : x.InRange c) :
    Kept c (setGroups gs x.rank x.threadID (gs x.rank x.threadID ++ [⟨x, true⟩])) (s.enqueued x) := by
  have hl : ∀ r q, lones (setGroups gs x.rank x.threadID (gs x.rank x.threadID ++ [⟨x, true⟩]) r q) = lones (gs r q) :=
    lones_setGroups_enqueue
  refine ⟨fun r q => ?_, ?_, fun r q z hz => h.opened r q z (hl r q ▸ hz),
    setGroups_forall (P := fun _ _ l => Front _ l) h.front ((h.front _ _).concat x),
    fun r q q' hne z hz z' hz' => h.apart r q q' hne z (hl r q ▸ hz) z' (hl r q' ▸ hz'), h.rank, h.bank⟩
  · unfold State.enqueued setGroups
    dsimp only
    split
    · next he =>
      rw [flat_append, h.queues, he.1, he.2]
      rfl
    · exact h.queues r q
  · refine setGroups_forall (P := fun r q l => ∀ g ∈ l, g.tr.rank = r ∧ g.tr.threadID = q ∧ g.tr.InRange c) h.range
      fun g hg => ?_
    rcases List.mem_append.1 hg with hg | hg
    · exact h.range _ _ g hg
    · obtain rfl := List.mem_singleton.1 hg
      exact ⟨rfl, rfl, hx⟩

/-- A queue waits for one row of a bank only. -/
theorem Kept.nodup (h : Kept c gs s) (r q : Nat) : ((lones (gs r q)).map Transaction.bank).Nodup := by
  unfold lones
  rw [List.map_map, List.Nodup, List.pairwise_map]
  refine ((h.front r q).filter _).imp_of_mem fun {g g'} _ hg' hne => hne ?_
  simpa using (List.mem_filter.1 hg').2

end Kept

section FAW

/-- The countdowns are different, so that only the first one can become 0. -/
theorem tickFAW_spec {l : List Nat} (hp : l.Pairwise (· < ·)) (h1 : ∀ e ∈ l, 1 ≤ e) :
    (tickFAW l).Pairwise (· < ·) ∧ ∀ e ∈ tickFAW l, 1 ≤ e ∧ e + 1 ∈ l := by
  have hmap : (l.map fun e => if e = 0 then 2 ^ 32 - 1 else e - 1) = l.map (· - 1) := by
    apply List.map_congr_left
    intro e he
    rw [if_neg (by have := h1 e he; omega)]
  have hpair : (l.map (· - 1)).Pairwise (· < ·) := by
    rw [List.pairwise_map]
    exact hp.imp_of_mem fun {a b} ha hb hab => by
      have := h1 a ha
      omega
  have hmem : ∀ e ∈ l.map (· - 1), e + 1 ∈ l := by
    intro e he
    obtain ⟨a, ha, rfl⟩ := List.mem_map.1 he
    have := h1 a ha
    rwa [show a - 1 + 1 = a by omega]
  unfold tickFAW
  rw [hmap]
  generalize l.map (· - 1) = m at hpair hmem
  split
  · next rest =>
    obtain ⟨h0, hrest⟩ := List.pairwise_cons.1 hpair
    exact ⟨hrest, fun e he => ⟨h0 e he, hmem e (List.mem_cons_of_mem _ he)⟩⟩
  · next hne =>
    refine ⟨hpair, fun e he => ⟨?_, hmem e he⟩⟩
    cases m with
    | nil => cases he
    | cons a rest =>
      have ha : a ≠ 0 := fun h => hne rest (by rw [h])
      rcases List.mem_cons.1 he with rfl | he
      · omega
      · have := (List.pairwise_cons.1 hpair).1 e he
        omega

end FAW

section Base

variable {c : Config} {s s' : State TP} {gs : Nat → Nat → List Group}

theorem Base.init (lastPID : Nat) (hr : 1 ≤ c.numRanks) (hb : 1 ≤ c.numBanks) :
    Base c 0 (fun _ _ => []) (init lastPID) where
  toKept := .init lastPID hr hb
  rows _ _ _ h := nomatch h
  banks _ _ := .inr rfl
  faw _ := ⟨.nil, fun _ h => nomatch h⟩
  accesses _ _ := rfl

theorem Base.enqueued {δ : Nat} (hB : Base c δ gs s) (hx : x.InRange c) :
    Base c δ (setGroups gs x.rank x.threadID (gs x.rank x.threadID ++ [⟨x, true⟩])) (s.enqueued x) where
  toKept := hB.toKept.enqueued hx
  rows r q y hy := hB.rows r q y (lones_setGroups_enqueue r q ▸ hy)
  banks r b := by
    simp only [lones_setGroups_enqueue]
    exact hB.banks r b
  faw := hB.faw
  accesses := hB.accesses

theorem Base.ready (hT : c.timing.Closes) (hB : Base c 0 gs s) (refresh : Option Nat) :
    Base c 1 gs (s.ready c refresh) := by
  refine { hB.toKept.ready refresh with rows := ?_, banks := ?_, faw := ?_, accesses := hB.accesses }
  · intro r q x hx
    have h := hB.rows r q x hx
    show ((s.bankStates r x.bank).tick c.timing).Opened x.row
    rw [h.tick]
    exact h
  · intro r b
    rcases hB.banks r b with h | h
    · exact .inl h
    · refine .inr ?_
      show ((s.bankStates r b).tick c.timing).Settles c.timing
        ((s.bankStates r b).tick c.timing).nextActivate (s.currentClockCycle + 1)
      rw [BankState.tick_nextActivate]
      exact h.tick hT.rp
  · intro r
    obtain ⟨hp, he⟩ := hB.faw r
    obtain ⟨hp', he'⟩ := tickFAW_spec hp fun e h => (he e h).1
    refine ⟨hp', fun e h => ⟨(he' e h).1, ?_⟩⟩
    have := (he _ (he' e h).2).2
    omega

/-- The activation windows after a cycle. -/
theorem finish_faw {π : Type} {s : State π} {m : Nat} (hm : 1 ≤ c.timing.tFAW)
    (hf : (s.tFAWCountdown r).Pairwise (· < ·) ∧
      ∀ e ∈ s.tFAWCountdown r, 1 ≤ e ∧ e + 1 ≤ c.timing.tFAW) (hw : ∀ e ∈ s.tFAWCountdown r, e ≤ m)
    (hp : p.busPacketType = .activate → c.timing.tFAW ≤ m) : ((s.finish c p).tFAWCountdown r).Pairwise (· < ·) ∧
      ∀ e ∈ (s.finish c p).tFAWCountdown r, 1 ≤ e ∧ e ≤ c.timing.tFAW ∧ e ≤ m := by
  obtain ⟨hlt, hle⟩ := hf
  have hkeep : ∀ e ∈ s.tFAWCountdown r, 1 ≤ e ∧ e ≤ c.timing.tFAW ∧ e ≤ m := by
    intro e he
    have := hle e he
    exact ⟨this.1, by omega, hw e he⟩
  by_cases ha : p.busPacketType = .activate
  · rw [State.finish_tFAWCountdown ha]
    split
    · refine ⟨List.pairwise_append.2 ⟨hlt, List.pairwise_singleton _ _, ?_⟩, ?_⟩
      · intro e he e' he'
        obtain rfl := List.mem_singleton.1 he'
        have := hle e he
        omega
      · intro e he
        rcases List.mem_append.1 he with he | he
        · exact hkeep e he
        · obtain rfl := List.mem_singleton.1 he
          exact ⟨hm, le_rfl, hp ha⟩
    · exact ⟨hlt, hkeep⟩
  · rw [State.finish_tFAWCountdown_of_ne ha]
    exact ⟨hlt, hkeep⟩

/-- A command leaves every other bank as open, or as close to closed, as it was. -/
theorem settles_after_of_ne {b : BankState} {t : Timing} {now i j : Nat} (hp : p.busPacketType ≠ .refresh)
    (hij : ¬(i = p.rank ∧ j = p.bank)) (h : b.Settles t b.nextActivate (now + 1)) :
    (b.after t now p i j).Settles t (b.after t now p i j).nextActivate (now + 1) :=
  (h.mono (BankState.le_after_nextActivate hp)).congr (BankState.after_phase_of_ne hp hij).1

theorem opened_after_of_ne {b : BankState} {t : Timing} {now i j row : Nat} (hp : p.busPacketType ≠ .refresh)
    (hij : ¬(i = p.rank ∧ j = p.bank)) (h : b.Opened row) : (b.after t now p i j).Opened row :=
  h.congr (BankState.after_phase_of_ne hp hij).1 (BankState.after_phase_of_ne hp hij).2

/-- The bank of an issuable `ACTIVATE` does not count down. -/
theorem Base.countdown_of_issuable (hB : Base c 1 gs s) (hi : s.isIssuable c x.activate = true) :
    (s.bankStates x.rank x.bank).stateChangeCountdown = 0 := by
  obtain ⟨-, hna, -⟩ := State.isIssuable_activate.1 hi
  rcases hB.banks x.rank x.bank with ⟨q, y, hy, he⟩ | h
  · exact absurd he (hB.closed hi q y hy)
  · exact (h.idle (by omega)).2

/-- The windows and counters after any command. -/
theorem Base.finish_rest (hT : c.timing.Closes) (hB : Base c 1 gs s) (left : Left c s s') (p : BusPacket) :
    (∀ r, ((s'.finish c p).tFAWCountdown r).Pairwise (· < ·) ∧
      ∀ e ∈ (s'.finish c p).tFAWCountdown r, 1 ≤ e ∧ e ≤ c.timing.tFAW) ∧
      ∀ r b, (s'.finish c p).rowAccessCounters r b = 0 := by
  refine ⟨fun r => ?_, fun r b => ?_⟩
  · have := finish_faw (c := c) (s := s') (p := p) (m := c.timing.tFAW) (r := r) hT.faw
      (by rw [left.faw]; exact hB.faw r)
      (fun e he => by rw [left.faw] at he; have := (hB.faw r).2 e he; omega) (fun _ => le_rfl)
    exact ⟨this.1, fun e he => ⟨(this.2 e he).1, (this.2 e he).2.1⟩⟩
  · rw [State.finish_rowAccessCounters, left.accesses]
    exact hB.accesses r b

section Elsewhere

/-! A command that is for another bank. -/

variable {p : BusPacket} {r : Nat} (hB : Base c 1 gs s) (left : Left c s s') (hp : p.busPacketType ≠ .refresh)

include hB left hp

theorem Base.rows_of_ne {q : Nat} (hx : x ∈ lones (gs r q)) (hne : ¬(r = p.rank ∧ x.bank = p.bank)) :
    ((s'.finish c p).bankStates r x.bank).Opened x.row := by
  rw [left.banks_finish]
  exact opened_after_of_ne hp hne (hB.rows r q x hx)

theorem Base.banks_of_ne {b : Nat} (hne : ¬(r = p.rank ∧ b = p.bank))
    (hl : ∀ q, ∀ x ∈ lones (gs r q), x.bank = b → x ∈ lones (gs' r q)) :
    (∃ q, ∃ x ∈ lones (gs' r q), x.bank = b) ∨ ((s'.finish c p).bankStates r b).Settles c.timing
      ((s'.finish c p).bankStates r b).nextActivate (s'.finish c p).currentClockCycle := by
  rw [left.banks_finish, left.clock_finish]
  rcases hB.banks r b with ⟨q, x, hx, he⟩ | hs
  · exact .inl ⟨q, x, hl q x hx he, he⟩
  · exact .inr (settles_after_of_ne hp hne hs)

end Elsewhere

theorem lones_activate_perm (h : gs r pid = gs₁ ++ ⟨x, true⟩ :: gs₂) :
    (lones (gs₁ ++ ⟨x, false⟩ :: gs₂)).Perm (x :: lones (gs r pid)) := by
  rw [h, lones_append, lones_append, lones_cons_act, lones_cons_lone]
  exact List.perm_middle

theorem lones_column_perm (h : gs r pid = gs₁ ++ ⟨x, false⟩ :: gs₂) :
    (lones (gs r pid)).Perm (x :: lones (gs₁ ++ gs₂)) := by
  rw [h, lones_append, lones_append, lones_cons_lone]
  exact List.perm_middle

theorem Base.activate (hT : c.timing.Closes) (hB : Base c 1 gs s) (left : Left c s s')
    (h : gs r pid = gs₁ ++ ⟨x, true⟩ :: gs₂) (hi : s.isIssuable c x.activate = true)
    (hfirst : ∀ g ∈ gs₁, g.act = true → s.isIssuable c g.tr.activate = false) (hq : ∀ r' q', s'.queues r' q' =
      flat (setGroups gs r pid (gs₁ ++ ⟨x, false⟩ :: gs₂) r' q')) :
    Base c 0 (setGroups gs r pid (gs₁ ++ ⟨x, false⟩ :: gs₂)) (s'.finish c x.activate) := by
  obtain ⟨rfl, rfl, -⟩ := hB.range_of_split h
  have hne : x.activate.busPacketType ≠ .refresh := BusPacketType.noConfusion
  have hrest := hB.finish_rest hT left x.activate
  refine { hB.toKept.activate left h hi (hB.first h hi hfirst) hq with
    rows := fun r q y hy => ?_, banks := fun r b => ?_, faw := hrest.1, accesses := hrest.2 }
  · rcases hB.lones_activate h hi hy with ⟨rfl, rfl, rfl⟩ | ⟨hy, hother⟩
    · rw [left.banks_finish]
      exact BankState.opened_after_activate rfl (hB.countdown_of_issuable hi)
    · exact hB.rows_of_ne left hne hy hother
  · by_cases hb : r = x.rank ∧ b = x.bank
    · obtain ⟨rfl, rfl⟩ := hb
      exact .inl ⟨x.threadID, x, (mem_lones_activate h).2 (.inl ⟨rfl, rfl, rfl⟩), rfl⟩
    · exact hB.banks_of_ne left hne hb fun q y hy _ => (mem_lones_activate h).2 (.inr hy)

theorem Base.column (hT : c.timing.Closes) (hB : Base c 1 gs s) (left : Left c s s')
    (h : gs r pid = gs₁ ++ ⟨x, false⟩ :: gs₂)
    (hq : ∀ r' q', s'.queues r' q' = flat (setGroups gs r pid (gs₁ ++ gs₂) r' q')) :
    Base c 0 (setGroups gs r pid (gs₁ ++ gs₂)) (s'.finish c x.column) := by
  obtain ⟨rfl, rfl, -⟩ := hB.range_of_split h
  have hrest := hB.finish_rest hT left x.column
  refine { hB.toKept.column left h hq with
    rows := fun r q y hy => ?_, banks := fun r b => ?_, faw := hrest.1, accesses := hrest.2 }
  · obtain ⟨hy, hother⟩ := (hB.mem_lones_column h).1 hy
    exact hB.rows_of_ne left x.column_ne_refresh hy hother
  · by_cases hb : r = x.rank ∧ b = x.bank
    · obtain ⟨rfl, rfl⟩ := hb
      have hx : x ∈ lones (gs x.rank x.threadID) := h ▸ mem_lones_removed.2 (.inl rfl)
      rw [left.banks_finish, left.clock_finish]
      exact .inr ((hB.rows _ _ x hx).after_column_nextActivate x.column_type hT.bl hT.read hT.write)
    · exact hB.banks_of_ne left x.column_ne_refresh hb fun q y hy he =>
        (hB.mem_lones_column h).2 ⟨hy, he ▸ hb⟩

theorem finish_refresh_bankStates (left : Left c s s') (rank i j : Nat) :
    (s'.finish c (refreshPacket rank)).bankStates i j =
      (s.bankStates i j).afterRefresh c.timing s.currentClockCycle rank i := left.banks_finish _ i j

theorem Base.refresh (hT : c.timing.Closes) (hB : Base c 1 gs s) (left : Left c s s')
    (hq : s'.queues = s.queues) {rank : Nat}
    (hclosed : ∀ b < c.numBanks, (s.bankStates rank b).currentBankState ≠ .rowActive) :
    Base c 0 gs (s'.finish c (refreshPacket rank)) := by
  have hrest := hB.finish_rest hT left (refreshPacket rank)
  refine { hB.toKept.refresh left hq hclosed with
    rows := fun r q x hx => ?_, banks := fun r b => ?_, faw := hrest.1, accesses := hrest.2 }
  · have hr : r ≠ rank := by
      rintro rfl
      exact hB.not_lone_of_closed hclosed hx
    rw [finish_refresh_bankStates left, BankState.afterRefresh, if_neg hr]
    exact hB.rows r q x hx
  · rw [finish_refresh_bankStates left, left.clock_finish]
    by_cases hr : r = rank
    · refine .inr ?_
      rw [BankState.afterRefresh, if_pos hr]
      refine ⟨rfl, hT.rfc, ?_⟩
      show s.currentClockCycle + 1 + c.timing.tRFC ≤ s.currentClockCycle + c.timing.tRFC + 1
      omega
    · rw [BankState.afterRefresh, if_neg hr]
      exact hB.banks r b

theorem Outcome.clock_conclude {buffer : Bool} {out : Option BusPacket × State TP}
    (h : Outcome c pid buffer gs s out gs') :
    (State.conclude c out).2.currentClockCycle = s.currentClockCycle + 1 := by
  cases h with
  | nothing left => simp only [State.conclude, State.idle, left.clock]
  | taken left => exact left.clock_finish _
  | refresh left => exact left.clock_finish _

theorem Base.outcome (hT : c.timing.Closes) (hB : Base c 1 gs s) {buffer : Bool}
    {out : Option BusPacket × State TP} (h : Outcome c pid buffer gs s out gs') :
    Base c 0 gs' (State.conclude c out).2 := by
  cases h with
  | nothing left queues =>
    exact
      { hB.toKept.idle left queues with
        rows := fun r q x hx => left.banks ▸ hB.rows r q x hx
        banks := fun r b => by
          simp only [State.conclude, State.idle, left.banks, left.clock]
          exact hB.banks r b
        faw := fun r => by
          simp only [State.conclude, State.idle, left.faw]
          refine ⟨(hB.faw r).1, fun e he => ?_⟩
          have := (hB.faw r).2 e he
          omega
        accesses := fun r b => left.accesses ▸ hB.accesses r b }
  | taken left picked early waiting queues =>
    generalize hl : gs _ _ = l at picked
    cases picked with
    | activate h accepted first => exact hB.activate hT left (hl.trans h) accepted first queues
    | column h accepted => exact hB.column hT left (hl.trans h) queues
  | refresh left queues waiting idle => exact hB.refresh hT left queues fun b hb => (idle b hb).1

end Base

end TP

end DynamicCache.Dram
