import DynamicCache.Dram.Serving

/-!
# How temporal partitioning serves its transactions (`CommandQueueTP.cpp`, `MemoryControllerTP.cpp`)

`MemoryControllerTP` moves a transaction into the command queue of its rank and pid
when there is room for both its commands; `CommandQueueTP` takes commands out of the
middle of the queues, in two different searches.  Ranks without commands may be
powered down.

Nothing is lost or overtaken on the way.  For every pid, rank and bank the commands
sent, followed by the commands still queued, are those of the transactions that
entered, in that order (`Accounts.fifo`); and in the commands sent to a bank every
`ACTIVATE` is followed by its own column command (`Accounts.turns`).  No timing is
needed for this: a row stays open until its column command comes (`Kept.opened`), and
an `ACTIVATE` is sent only to a closed bank, the first of its queue for this bank
first (`Kept.first`).
-/

namespace DynamicCache.Dram.TP

open Lib

/-! ## What is sent and what is queued -/

/-- A command for a bank. -/
def ofBank (rank bank : Nat) (p : BusPacket) : Bool :=
  decide (p.busPacketType ≠ .refresh ∧ p.rank = rank ∧ p.bank = bank)

/-- A command of a pid for a bank. -/
def ofPid (pid rank bank : Nat) (p : BusPacket) : Bool := ofBank rank bank p && decide (p.threadID = pid)

/-- A transaction of a pid for a bank. -/
def goesTo (pid rank bank : Nat) (x : Transaction) : Bool :=
  decide (x.threadID = pid ∧ x.rank = rank ∧ x.bank = bank)

/-- The groups for a bank. -/
def onBank (bank : Nat) (gs : List Group) : List Group := gs.filter fun g => decide (g.tr.bank = bank)

theorem commands_append (ts ts' : List Transaction) : commands (ts ++ ts') = commands ts ++ commands ts' :=
  List.flatMap_append

theorem onBank_append (b : Nat) (gs hs : List Group) : onBank b (gs ++ hs) = onBank b gs ++ onBank b hs :=
  List.filter_append ..

theorem onBank_cons_self (x : Transaction) (act : Bool) (gs : List Group) :
    onBank x.bank (⟨x, act⟩ :: gs) = ⟨x, act⟩ :: onBank x.bank gs := by
  simp [onBank]

theorem onBank_cons_of_ne {b : Nat} {x : Transaction} (h : x.bank ≠ b) (act : Bool) (gs : List Group) :
    onBank b (⟨x, act⟩ :: gs) = onBank b gs := by
  simp [onBank, h]

theorem onBank_eq_nil {b : Nat} {gs : List Group} (h : ∀ g ∈ gs, g.tr.bank ≠ b) : onBank b gs = [] := by
  unfold onBank
  rw [List.filter_eq_nil_iff]
  intro g hg
  simpa using h g hg

theorem ofBank_activate (r b : Nat) (x : Transaction) : ofBank r b x.activate = decide (x.rank = r ∧ x.bank = b) := by
  simp [ofBank, Transaction.activate]

theorem ofBank_column (r b : Nat) (x : Transaction) : ofBank r b x.column = decide (x.rank = r ∧ x.bank = b) := by
  have := x.column_ne_refresh
  simp only [ofBank, ne_eq, this, not_false_eq_true, true_and]
  rfl

theorem ofPid_activate (q r b : Nat) (x : Transaction) : ofPid q r b x.activate = goesTo q r b x := by
  rw [ofPid, ofBank_activate, goesTo, Bool.eq_iff_iff]
  simp only [Bool.and_eq_true, decide_eq_true_eq]
  exact and_comm

theorem ofPid_column (q r b : Nat) (x : Transaction) : ofPid q r b x.column = goesTo q r b x := by
  rw [ofPid, ofBank_column, goesTo, Bool.eq_iff_iff]
  simp only [Bool.and_eq_true, decide_eq_true_eq]
  exact and_comm

/-- For every pid and bank, what was sent and what is queued are the commands of what
entered; and the commands sent to a bank are those of one transaction after the other,
the last one with its column command still queued, if any. -/
structure Accounts (gs : Nat → Nat → List Group) (entered : List Transaction) (log : List BusPacket) : Prop where
  fifo : ∀ q r b, log.filter (ofPid q r b) ++ flat (onBank b (gs r q)) = commands (entered.filter (goesTo q r b))
  turns : ∀ r b, ∃ ts,
    (log.filter (ofBank r b) = commands ts ∧ ∀ q, ∀ x ∈ lones (gs r q), x.bank ≠ b) ∨
    ∃ q, ∃ x ∈ lones (gs r q), x.bank = b ∧ log.filter (ofBank r b) = commands ts ++ [x.activate]

namespace Accounts

variable {gs : Nat → Nat → List Group} {entered : List Transaction} {log : List BusPacket} {x : Transaction}
  {r q : Nat} {gs₁ gs₂ : List Group}

theorem init : Accounts (fun _ _ => []) [] [] :=
  ⟨fun _ _ _ => rfl, fun _ _ => ⟨[], .inl ⟨rfl, fun _ _ h => nomatch h⟩⟩⟩

theorem enqueue (h : Accounts gs entered log) (x : Transaction) :
    Accounts (setGroups gs x.rank x.threadID (gs x.rank x.threadID ++ [⟨x, true⟩])) (entered ++ [x]) log := by
  constructor
  · intro q r b
    rw [List.filter_append, commands_append, ← h.fifo q r b]
    by_cases hx : r = x.rank ∧ q = x.threadID
    · obtain ⟨rfl, rfl⟩ := hx
      rw [setGroups_self, onBank_append, flat_append]
      by_cases hb : x.bank = b
      · subst hb
        rw [onBank_cons_self, List.filter_cons_of_pos (by simp [goesTo]), ← List.append_assoc]
        rfl
      · rw [onBank_cons_of_ne hb, List.filter_cons_of_neg (by simp [goesTo, hb])]
        simp [onBank, commands, flat]
    · rw [setGroups_of_ne hx, List.filter_cons_of_neg]
      · simp [commands]
      · simp only [goesTo, decide_eq_true_eq]
        exact fun hg => hx ⟨hg.2.1.symm, hg.1.symm⟩
  · intro r b
    simp only [lones_setGroups_enqueue]
    exact h.turns r b

/-- A refresh is for no bank in particular. -/
theorem refresh (h : Accounts gs entered log) (rank : Nat) : Accounts gs entered (log ++ [refreshPacket rank]) := by
  constructor
  · intro q r b
    rw [List.filter_append, List.filter_cons_of_neg (by simp [ofPid, ofBank, refreshPacket]), List.filter_nil,
      List.append_nil]
    exact h.fifo q r b
  · intro r b
    rw [List.filter_append, List.filter_cons_of_neg (by simp [ofBank, refreshPacket]), List.filter_nil,
      List.append_nil]
    exact h.turns r b

section Send

/-! A command of `x` is sent: the first of the group `⟨x, act⟩`, which leaves `hs`. -/

variable {act : Bool} {hs : List Group} {p : BusPacket} (h : Accounts gs entered log)
  (hgs : gs r q = gs₁ ++ ⟨x, act⟩ :: gs₂) (hr : x.rank = r) (hq : x.threadID = q)
  (hp : p = x.activate ∨ p = x.column) (hhs : ∀ g ∈ hs, g.tr = x)

include h hgs hr hq hp hhs

theorem fifo_send (hfirst : ∀ g ∈ gs₁, g.tr.bank ≠ x.bank) (hflat : Group.packets ⟨x, act⟩ = p :: flat hs)
    (q' r' b : Nat) :
    (log ++ [p]).filter (ofPid q' r' b) ++ flat (onBank b (setGroups gs r q (gs₁ ++ hs ++ gs₂) r' q')) =
      commands (entered.filter (goesTo q' r' b)) := by
  have hpid : ofPid q' r' b p = goesTo q' r' b x := by
    rcases hp with rfl | rfl
    · exact ofPid_activate ..
    · exact ofPid_column ..
  rw [← h.fifo q' r' b, List.filter_append]
  by_cases hx : goesTo q' r' b x = true
  · obtain ⟨rfl, rfl, rfl⟩ := of_decide_eq_true hx
    subst hr hq
    have hhs' : onBank x.bank hs = hs := List.filter_eq_self.2 fun g hg => by simp [hhs g hg]
    rw [List.filter_cons_of_pos (hpid.trans hx), List.filter_nil, setGroups_self, hgs, onBank_append, onBank_append,
      onBank_append, onBank_eq_nil hfirst, onBank_cons_self, hhs', List.nil_append, List.nil_append, flat_append,
      List.append_assoc, List.singleton_append, ← List.cons_append, ← hflat]
    rfl
  · rw [List.filter_cons_of_neg (by rwa [hpid]), List.filter_nil, List.append_nil]
    unfold setGroups
    split
    · next hrq =>
      have hb : x.bank ≠ b := fun hb => hx (decide_eq_true ⟨hq.trans hrq.2.symm, hr.trans hrq.1.symm, hb⟩)
      have hhs' : onBank b hs = [] := onBank_eq_nil fun g hg => by rwa [hhs g hg]
      rw [hrq.1, hrq.2, hgs, onBank_append, onBank_append, onBank_append, onBank_cons_of_ne hb, hhs', List.append_nil]
    · rfl

/-- The other banks do not see it. -/
theorem turns_send_of_ne {r' b : Nat} (hx : ¬(x.rank = r' ∧ x.bank = b)) : ∃ ts,
    ((log ++ [p]).filter (ofBank r' b) = commands ts ∧
      ∀ q', ∀ z ∈ lones (setGroups gs r q (gs₁ ++ hs ++ gs₂) r' q'), z.bank ≠ b) ∨
    ∃ q', ∃ z ∈ lones (setGroups gs r q (gs₁ ++ hs ++ gs₂) r' q'), z.bank = b ∧
      (log ++ [p]).filter (ofBank r' b) = commands ts ++ [z.activate] := by
  have hbank : ofBank r' b p = decide (x.rank = r' ∧ x.bank = b) := by
    rcases hp with rfl | rfl
    · exact ofBank_activate ..
    · exact ofBank_column ..
  rw [List.filter_append, List.filter_cons_of_neg (by rw [hbank]; simpa using hx), List.filter_nil, List.append_nil]
  have hl : ∀ q' z, z.bank = b → (z ∈ lones (setGroups gs r q (gs₁ ++ hs ++ gs₂) r' q') ↔ z ∈ lones (gs r' q')) := by
    intro q' z hzb
    unfold setGroups
    split
    · next hrq =>
      have hzx : z ≠ x := by
        rintro rfl
        exact hx ⟨hr.trans hrq.1.symm, hzb⟩
      have hzhs : z ∉ lones hs := fun hz => hzx (hhs _ (mem_of_mem_lones hz))
      have hzg : z ∉ lones [⟨x, act⟩] := fun hz => by
        have := mem_of_mem_lones hz
        simp only [List.mem_singleton, Group.mk.injEq] at this
        exact hzx this.1
      rw [hrq.1, hrq.2, hgs, ← List.singleton_append, lones_append, lones_append, lones_append, lones_append]
      simp only [List.mem_append, hzhs, hzg, or_false, false_or]
    · rfl
  obtain ⟨ts, ⟨hlog, hnone⟩ | ⟨q', z, hz, hzb, hlog⟩⟩ := h.turns r' b
  · exact ⟨ts, .inl ⟨hlog, fun q' z hz hzb => hnone q' z ((hl q' z hzb).1 hz) hzb⟩⟩
  · exact ⟨ts, .inr ⟨q', z, (hl q' z hzb).2 hz, hzb, hlog⟩⟩

end Send

/-- The first `ACTIVATE` of its queue for a closed bank. -/
theorem activate (h : Accounts gs entered log) (hgs : gs r q = gs₁ ++ ⟨x, true⟩ :: gs₂) (hr : x.rank = r)
    (hq : x.threadID = q) (hfirst : ∀ g ∈ gs₁, g.tr.bank ≠ x.bank)
    (hclosed : ∀ q', ∀ z ∈ lones (gs r q'), z.bank ≠ x.bank) :
    Accounts (setGroups gs r q (gs₁ ++ ⟨x, false⟩ :: gs₂)) entered (log ++ [x.activate]) := by
  have hhs : ∀ g ∈ [(⟨x, false⟩ : Group)], g.tr = x := by simp
  rw [← List.singleton_append, ← List.append_assoc]
  refine ⟨fifo_send h hgs hr hq (.inl rfl) hhs hfirst rfl, fun r' b => ?_⟩
  by_cases hx : x.rank = r' ∧ x.bank = b
  · obtain ⟨rfl, rfl⟩ := hx
    subst hr
    rw [List.filter_append, List.filter_cons_of_pos (by simp [ofBank_activate]), List.filter_nil]
    obtain ⟨ts, ⟨hlog, -⟩ | ⟨q', z, hz, hzb, -⟩⟩ := h.turns x.rank x.bank
    · refine ⟨ts, .inr ⟨q, x, ?_, rfl, by rw [hlog]⟩⟩
      rw [setGroups_self, List.append_assoc, List.singleton_append, lones_append, lones_cons_lone]
      simp
    · exact absurd hzb (hclosed q' z hz)
  · exact turns_send_of_ne h hgs hr hq (.inl rfl) hhs hx

/-- The column command of the open row of a bank. -/
theorem column (h : Accounts gs entered log) (hgs : gs r q = gs₁ ++ ⟨x, false⟩ :: gs₂) (hr : x.rank = r)
    (hq : x.threadID = q) (hfirst : ∀ g ∈ gs₁, g.tr.bank ≠ x.bank)
    (hunique : ∀ {q' z}, z ∈ lones (gs r q') → z.bank = x.bank → z = x)
    (hgone : ∀ q', ∀ z ∈ lones (setGroups gs r q (gs₁ ++ gs₂) r q'), z.bank ≠ x.bank) :
    Accounts (setGroups gs r q (gs₁ ++ gs₂)) entered (log ++ [x.column]) := by
  have hhs : ∀ g ∈ ([] : List Group), g.tr = x := nofun
  refine ⟨?_, fun r' b => ?_⟩
  · have := fifo_send h hgs hr hq (.inr rfl) hhs hfirst rfl
    rwa [List.append_nil] at this
  by_cases hx : x.rank = r' ∧ x.bank = b
  · obtain ⟨rfl, rfl⟩ := hx
    subst hr
    rw [List.filter_append, List.filter_cons_of_pos (by simp [ofBank_column]), List.filter_nil]
    obtain ⟨ts, ⟨-, hnone⟩ | ⟨q', z, hz, hzb, hlog⟩⟩ := h.turns x.rank x.bank
    · refine absurd rfl (hnone q x ?_)
      rw [hgs, lones_append, lones_cons_lone]
      simp
    · obtain rfl := hunique hz hzb
      refine ⟨ts ++ [z], .inl ⟨?_, hgone⟩⟩
      rw [hlog, commands_append, List.append_assoc]
      rfl
  · have := turns_send_of_ne h hgs hr hq (.inr rfl) hhs hx
    rwa [List.append_nil] at this

end Accounts

/-! ## Cycles -/

section Cycle

variable {c : Config} {gs : Nat → Nat → List Group} {s s' : State TP} {r q : Nat}

theorem Picked.flat_length {ok : Option BusPacket → BusPacket → Bool} {gs hs : List Group} {p : BusPacket}
    (h : Picked ok gs p hs) : (flat hs).length ≤ (flat gs).length := by
  cases h with
  | activate h | column h =>
    rw [h, flat_append, flat_append]
    simp [flat, Group.packets]

/-- What a cycle sends is for no bank that is powered down. -/
theorem Outcome.awake {pid : Nat} {buffer : Bool} {gs' : Nat → Nat → List Group} {out : Option BusPacket × State TP}
    (h : Kept c gs s) (hs : Outcome c pid buffer gs s out gs') : Unpowered s out.2 ∧ ∀ p ∈ out.1, Awake c s p := by
  cases hs with
  | nothing left => exact ⟨⟨left.banks, left.down⟩, nofun⟩
  | taken left picked =>
    refine ⟨⟨left.banks, left.down⟩, fun p hp => ?_⟩
    cases hp
    refine awake_of_isIssuable ?_ picked.accepted
    generalize hl : gs _ _ = l at picked
    cases picked with
    | activate hgs => exact (h.range_of_split (hl.trans hgs)).2.2.2.1
    | column hgs => exact (h.range_of_split (hl.trans hgs)).2.2.2.1
  | refresh left _ _ _ up =>
    refine ⟨⟨left.banks, left.down⟩, fun p hp => ?_⟩
    cases hp
    exact up

theorem Outcome.length_le {pid : Nat} {buffer : Bool} {gs' : Nat → Nat → List Group} {out : Option BusPacket × State TP}
    (h : Kept c gs s) (hs : Outcome c pid buffer gs s out gs') (r q : Nat) :
    (out.2.queues r q).length ≤ (s.queues r q).length := by
  cases hs with
  | nothing _ queues | refresh _ queues => rw [queues]
  | taken _ picked _ _ queues =>
    rw [queues, h.queues]
    exact setGroups_forall (P := fun r q l => (flat l).length ≤ (flat (gs r q)).length) (fun _ _ => le_rfl)
      picked.flat_length r q

/-- A cycle keeps the invariants and the accounts, and no queue grows. -/
theorem update_kept (w : Turns) (d : Config → Deadtimes) (h : Kept c gs s) (hD : Rested c s)
    (refresh : Option Nat) :
    ∃ gs', Kept c gs' (s.update c (methodsWith w d) refresh).2 ∧
      Rested c (s.update c (methodsWith w d) refresh).2 ∧
      (∀ r q, ((s.update c (methodsWith w d) refresh).2.queues r q).length ≤ (s.queues r q).length) ∧
      ∀ entered log, Accounts gs entered log →
        Accounts gs' entered (log ++ (s.update c (methodsWith w d) refresh).1.toList) := by
  have hK := h.ready refresh
  rw [State.update_eq]
  obtain ⟨gs', hs⟩ := popClosePage_outcome (c := c) (s := s.ready c refresh) w d hK.queues hK.rank hK.bank
  generalize (s.ready c refresh).popClosePage c (methodsWith w d) = out at hs ⊢
  generalize w.getCurrentPID c.numPids (s.ready c refresh).currentClockCycle = pid at hs
  have hrested : Rested c (State.conclude c out).2 :=
    (hD.ready refresh).conclude (hs.awake hK).1 (Nat.zero_lt_of_lt h.bank) (hs.awake hK).2
  have hlen : ∀ r q, ((State.conclude c out).2.queues r q).length ≤ (s.queues r q).length := fun r q => by
    rw [State.conclude_queues]
    exact hs.length_le hK r q
  refine ⟨gs', ?_⟩
  cases hs with
  | nothing left queues =>
    exact ⟨hK.idle left queues, hrested, hlen, fun entered log ha => (List.append_nil log).symm ▸ ha⟩
  | taken left picked _ _ queues =>
    generalize hl : gs _ _ = l at picked
    cases picked with
    | activate hgs issuable first =>
      have hgs := hl.trans hgs
      obtain ⟨rfl, hq, -⟩ := hK.range_of_split hgs
      have hbefore := hK.first hgs issuable first
      exact ⟨hK.activate left hgs issuable hbefore queues, hrested, hlen,
        fun entered log ha => ha.activate hgs rfl hq hbefore (hK.closed issuable)⟩
    | column hgs =>
      obtain ⟨rfl, rfl, -⟩ := hK.range_of_split (hl.trans hgs)
      have hgs := hl.trans hgs
      exact ⟨hK.column left hgs queues, hrested, hlen, fun entered log ha =>
        ha.column hgs rfl rfl (hK.before hgs) (hK.unique hgs) fun q' z hz hb =>
          ((hK.mem_lones_column hgs).1 hz).2 ⟨rfl, hb⟩⟩
  | refresh left queues _ idle =>
    exact ⟨hK.refresh left queues fun b hb => (idle b hb).1, hrested, hlen, fun entered log ha => ha.refresh _⟩

end Cycle

/-! ## Runs -/

/-- The controller's queues, banks and history fit together. -/
structure Balanced (y : System) (gs : Nat → Nat → List Group) (s : Controller TP) : Prop where
  kept : Kept y.config gs s.state
  rested : Rested y.config s.state
  accounts : Accounts gs s.entered s.log
  depth : ∀ r q, (s.state.queues r q).length ≤ y.config.cmdQueueDepth

section Balanced

variable {y : System} {w : Turns} {d : Config → Deadtimes} {gs : Nat → Nat → List Group}
  {s : Controller TP}

theorem Balanced.init (lastPID : Nat) (hr : 0 < y.config.numRanks) (hb : 0 < y.config.numBanks) :
    Balanced y (fun _ _ => []) ({ state := TP.init lastPID } : Controller TP) where
  kept := Kept.init lastPID hr hb
  rested := ⟨fun _ _ _ => rfl, fun _ h => nomatch h⟩
  accounts := .init
  depth _ _ := Nat.zero_le _

theorem Balanced.powerChecks (h : Balanced y gs s) (waiting : List Nat) (clock : Nat) :
    Balanced y gs (s.powerChecks y waiting clock) := by
  obtain ⟨hok, hopened⟩ := State.powerChecks_rested h.rested (State.isEmpty y.config) waiting clock
  obtain ⟨banks, down, up, hrest⟩ := s.state.powerChecks_eq y.config (State.isEmpty y.config) waiting clock
  unfold Controller.powerChecks
  rw [hrest] at hok hopened ⊢
  refine ⟨h.kept.congr rfl (fun r q x hx => ?_) h.kept.rank h.kept.bank, hok, h.accounts, h.depth⟩
  have hf := h.kept.opened r q x hx
  rw [hopened r x.bank (.inl hf.1)]
  exact hf

theorem Balanced.popCommand (h : Balanced y gs s) (refresh : Option Nat) :
    ∃ gs', Balanced y gs' (s.popCommand y (methodsWith w d) refresh) := by
  obtain ⟨gs', hK, hD, hlen, hA⟩ := update_kept w d h.kept h.rested refresh
  exact ⟨gs', hK, hD, hA _ _ h.accounts, fun r q => (hlen r q).trans (h.depth r q)⟩

end Balanced

/-- The rank is powered down while it has no commands. -/
def lowPower : System :=
  { Controller.oneRank with config := { Controller.oneRank.config with useLowPower := true } }

end DynamicCache.Dram.TP
