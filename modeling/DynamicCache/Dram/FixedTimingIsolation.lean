import DynamicCache.Dram.FixedTiming

/-!
# What a pid sees of fixed timing

The slots start at the same cycles whatever the pids enqueue: a refresh shifts
them by `tRFC` from the cycle on in which it is requested, no matter when it is
sent.  In its own slots a pid finds every bank idle, so two runs with the same
commands of pid `p` send them at the same cycles.

A device whose refresh is shorter than `tRCD` breaks the schedule
(`short_refresh_skips_slot`): a refresh of another rank moves the start of the
current slot to a cycle before its column command can be sent, and the slot is
counted twice.
-/

namespace DynamicCache.Dram.FT

open Lib

variable {a : Nat} {b b' : BankState} {x : Transaction} {refresh : Option Nat}
  {out out' : Option BusPacket × State FT}

/-! ## Slots that have started -/

/-- The number of slots that have started. -/
def slotsStarted (c : Config) (s : State FT) : Nat :=
  slotNumber c s.sched + if s.sched.prevActivate then 1 else 0

/-- The refreshes requested so far. -/
def refreshes (s : State FT) : Nat :=
  s.refreshCounter + if s.refreshWaiting then 1 else 0

section Single

variable {c : Config} {s : State FT} {out : Option BusPacket × State FT}

theorem upcoming_eq : upcoming c s =
    slotsStarted c s * c.timing.worstCaseDelay + c.timing.tRFC * s.refreshCounter := by
  unfold upcoming slotsStarted slotStart
  split
  · ring
  · ring

theorem Inv.starts_iff (hF : Fits c) (hI : Inv c 1 s) : Starts c s ↔
    s.currentClockCycle =
      slotsStarted c s * c.timing.worstCaseDelay + c.timing.tRFC * refreshes s := by
  obtain ⟨hRCD, hRFC, -⟩ := hF.regular
  have hle := hI.le_upcoming hF
  rw [upcoming_eq] at hle
  unfold refreshes
  constructor
  · rintro ⟨hp, hc, hw⟩
    rw [hw, hc]
    unfold slotsStarted slotStart
    rw [hp]
    simp
  · intro h
    have hw : s.refreshWaiting = false := by
      rw [← Bool.not_eq_true]
      intro hw
      rw [if_pos hw, Nat.mul_succ] at h
      omega
    rw [hw, if_neg (by decide), Nat.add_zero, ← upcoming_eq] at h
    have hp : s.sched.prevActivate = false := by
      rw [← Bool.not_eq_true]
      intro hp
      obtain ⟨x, a, hx⟩ := hI.column hp
      have := (hx.lt_upcoming hF hp).1
      omega
    refine ⟨hp, ?_, hw⟩
    rw [h]
    unfold upcoming
    rw [hp]
    rfl

/-- A cycle in which no slot starts. -/
theorem Outcome.elsewhere (hI : Inv c 1 s) (h : Outcome c s out) (hn : ¬Starts c s) :
    (out.2.currentClockCycle = s.currentClockCycle + 1 ∧ slotsStarted c out.2 = slotsStarted c s ∧
      refreshes out.2 = refreshes s ∧ out.2.refreshRequested = s.refreshRequested ∧
      out.2.queues = s.queues) ∧
    (out.2.sched.prevActivate = true →
      s.sched.prevActivate = true ∧ out.2.sched.nextThread = s.sched.nextThread) ∧
    ∀ q, out.1 = some q → q.busPacketType ≠ .refresh →
      s.sched.prevActivate = true ∧ q.threadID = s.sched.nextThread := by
  cases h with
  | refresh hw hq =>
    refine ⟨⟨rfl, ?_, ?_, by rw [State.finish_refreshRequested]; rfl,
      by rw [State.finish_queues]; rfl⟩, ?_, ?_⟩
    · unfold slotsStarted
      rw [State.finish_sched]
      rfl
    · unfold refreshes
      rw [State.finish_refreshCounter, State.finish_refreshWaiting, if_pos hw]
      rfl
    · rw [State.finish_sched]
      exact fun h => ⟨h, rfl⟩
    · intro q he hne
      obtain rfl := Option.some.inj he
      exact absurd rfl hne
  | @column x a hr hp hx ha =>
    have hround : InRound c { s.sched with prevActivate := false } := hI.round
    refine ⟨⟨rfl, ?_, ?_, by rw [State.finish_refreshRequested], by rw [State.finish_queues]⟩,
      ?_, ?_⟩
    · unfold slotsStarted
      rw [State.finish_sched, slotNumber_nextSlot hround, hp]
      rfl
    · unfold refreshes
      rw [State.finish_refreshCounter, State.finish_refreshWaiting]
    · rw [State.finish_sched]
      intro h
      cases h
    · intro q he _
      obtain rfl := Option.some.inj he
      exact ⟨hp, hx.thread⟩
  | wait hr hp hx ha => exact ⟨⟨rfl, rfl, rfl, rfl, rfl⟩, fun h => ⟨h, rfl⟩, fun q he => by cases he⟩
  | early hp hc => exact ⟨⟨rfl, rfl, rfl, rfl, rfl⟩, fun h => ⟨h, rfl⟩, fun q he => by cases he⟩
  | activate hs => exact absurd hs hn
  | skip hs => exact absurd hs hn

/-- A cycle in which the slot of `nextThread` starts. -/
theorem Outcome.starting (hI : Inv c 1 s) (h : Outcome c s out) (hs : Starts c s) :
    (out.2.currentClockCycle = s.currentClockCycle + 1 ∧
      slotsStarted c out.2 = slotsStarted c s + 1 ∧
      refreshes out.2 = refreshes s ∧ out.2.refreshRequested = s.refreshRequested) ∧
    (∀ r q, q ≠ s.sched.nextThread → out.2.queues r q = s.queues r q) ∧
    (out.2.sched.prevActivate = true → out.2.sched.nextThread = s.sched.nextThread) ∧
    ∀ q, out.1 = some q → q.threadID = s.sched.nextThread ∧ q.busPacketType ≠ .refresh := by
  obtain ⟨hp, hc, hw⟩ := hs
  cases h with
  | refresh hw' hq => rw [hw] at hw'; cases hw'
  | column hr hp' hx ha => rw [hp] at hp'; cases hp'
  | wait hr hp' hx ha => rw [hp] at hp'; cases hp'
  | early hp' hc' => omega
  | @activate x xs _ hx hq =>
    refine ⟨⟨rfl, ?_, ?_, by rw [State.finish_refreshRequested]; rfl⟩, ?_, ?_, ?_⟩
    · unfold slotsStarted
      rw [State.finish_sched, hp]
      rfl
    · unfold refreshes
      rw [State.finish_refreshCounter, State.finish_refreshWaiting]
      rfl
    · intro r q hne
      rw [State.finish_queues]
      unfold started
      dsimp only
      by_cases hr : r = x.rank
      · rw [hr, Function.update_self, Function.update_of_ne hne]
      · rw [Function.update_of_ne hr]
    · rw [State.finish_sched]
      exact fun _ => rfl
    · intro q he
      obtain rfl := Option.some.inj he
      exact ⟨hx, by simp [Transaction.activate]⟩
  | skip _ hq =>
    refine ⟨⟨rfl, ?_, rfl, rfl⟩, fun _ _ _ => rfl, ?_, fun q he => by cases he⟩
    · show slotNumber c (nextSlot c s.sched) + (if s.sched.prevActivate = true then 1 else 0) = _
      unfold slotsStarted
      rw [slotNumber_nextSlot hI.round, hp]
      rfl
    · intro h
      rw [show s.sched.prevActivate = true from h] at hp
      cases hp

/-- A slot starts on time unless a refresh takes its place. -/
theorem Outcome.starts (h : Outcome c s out) (hp : s.sched.prevActivate = false)
    (hc : s.currentClockCycle = slotStart c s.sched s.refreshCounter)
    (hq : ∀ q, out.1 = some q → q.busPacketType ≠ .refresh) : Starts c s := by
  cases h with
  | refresh => exact absurd rfl (hq _ rfl)
  | column _ hp' | wait _ hp' => rw [hp] at hp'; cases hp'
  | early _ hc' => omega
  | activate hs | skip hs => exact hs

theorem Awaits.unique {y : Transaction} {b : Nat} (hx : Awaits c s x a) (hy : Awaits c s y b) :
    x.column = y.column ∧ a = b := by
  have he : x.column = y.column := hx.next.symm.trans hy.next
  refine ⟨he, ?_⟩
  have hr := hy.read
  rw [← show x.rank = y.rank from congrArg BusPacket.rank he,
    ← show x.bank = y.bank from congrArg BusPacket.bank he, hx.read] at hr
  omega

end Single

/-! ## Two runs -/

/-- Banks that are alike for whoever looks at them from cycle `a` on. -/
structure AlikeBank (a : Nat) (b b' : BankState) : Prop where
  phase : b.phase = b'.phase ∨
    b.currentBankState = .idle ∧ b.stateChangeCountdown = 0 ∧
      b'.currentBankState = .idle ∧ b'.stateChangeCountdown = 0
  activate : b.nextActivate = b'.nextActivate ∨ b.nextActivate ≤ a ∧ b'.nextActivate ≤ a

theorem AlikeBank.state (h : AlikeBank a b b') : b.currentBankState = b'.currentBankState := by
  rcases h.phase with h | ⟨h1, -, h2, -⟩
  · exact congrArg Prod.fst h
  · rw [h1, h2]

theorem AlikeBank.tick (h : AlikeBank a b b') (t : Timing) : AlikeBank a (b.tick t) (b'.tick t) := by
  refine ⟨?_, by simpa using h.activate⟩
  rcases h.phase with h | ⟨h1, h2, h3, h4⟩
  · exact .inl (BankState.tick_phase h)
  · right
    have hb : b.tick t = b := by unfold BankState.tick; rw [if_neg (by omega)]
    have hb' : b'.tick t = b' := by unfold BankState.tick; rw [if_neg (by omega)]
    rw [hb, hb']
    exact ⟨h1, h2, h3, h4⟩

theorem AlikeBank.after_refresh (h : AlikeBank a b b') (t : Timing) {now rank i j : Nat} :
    AlikeBank a (b.after t now (refreshPacket rank) i j)
      (b'.after t now (refreshPacket rank) i j) := by
  show AlikeBank a (b.afterRefresh t now rank i) (b'.afterRefresh t now rank i)
  unfold BankState.afterRefresh
  by_cases hi : i = rank
  · rw [if_pos hi, if_pos hi]
    exact ⟨.inl rfl, .inl rfl⟩
  · rw [if_neg hi, if_neg hi]
    exact h

/-- An `ACTIVATE` finds every bank idle in both runs. -/
theorem alike_after_activate {now : Nat} {q : BusPacket} (hq : q.busPacketType = .activate) (t : Timing)
    (i j : Nat) (h : b.currentBankState = .idle ∧ b.stateChangeCountdown = 0 ∧ b.Below now)
    (h' : b'.currentBankState = .idle ∧ b'.stateChangeCountdown = 0 ∧ b'.Below now) :
    AlikeBank now (b.after t now q i j) (b'.after t now q i j) := by
  obtain ⟨h1, h2, -, -, h3⟩ := h
  obtain ⟨h1', h2', -, -, h3'⟩ := h'
  simp only [BankState.after, hq, BankState.afterActivate]
  by_cases hi : i ≠ q.rank
  · rw [if_pos hi, if_pos hi]
    exact ⟨.inr ⟨h1, h2, h1', h2'⟩, .inr ⟨h3, h3'⟩⟩
  · rw [if_neg hi, if_neg hi]
    by_cases hj : j ≠ q.bank
    · rw [if_pos hj, if_pos hj]
      exact ⟨.inr ⟨h1, h2, h1', h2'⟩, .inl (by dsimp only; omega)⟩
    · rw [if_neg hj, if_neg hj]
      exact ⟨.inl (by simp only [BankState.phase, h2, h2']), .inl (by dsimp only; omega)⟩

/-- The two runs are in the same slot of the pid, between its two commands. -/
structure InSlot (c : Config) (s t : State FT) (x : Transaction) (a : Nat) : Prop where
  left : Awaits c s x a
  right : Awaits c t x a
  counter : s.refreshCounter = t.refreshCounter
  waiting : s.refreshWaiting = t.refreshWaiting
  rank : s.refreshWaiting = true → s.refreshRank = t.refreshRank
  banks : ∀ i j, AlikeBank a (s.bankStates i j) (t.bankStates i j)

/-- The pid `p` has a column command to send. -/
def Mine (p : Nat) (s : State FT) : Prop :=
  s.sched.prevActivate = true ∧ s.sched.nextThread = p

structure Same (c : Config) (p : Nat) (s t : State FT) : Prop where
  clock : s.currentClockCycle = t.currentClockCycle
  started : slotsStarted c s = slotsStarted c t
  refreshes : refreshes s = refreshes t
  requested : s.refreshRequested = t.refreshRequested
  queues : ∀ r, s.queues r p = t.queues r p
  slot : Mine p s ∨ Mine p t → Mine p s ∧ Mine p t ∧ ∃ x a, InSlot c s t x a

section Two

variable {c : Config} {p : Nat} {s t : State FT}

theorem Same.ready (hF : Fits c) (hs : Inv c 0 s) (ht : Inv c 0 t) (hss : Spaced c s refresh)
    (hst : Spaced c t refresh) (h : Same c p s t) : Same c p (s.ready c refresh) (t.ready c refresh) := by
  refine
    { clock := h.clock
      started := h.started
      refreshes := ?_
      requested := ?_
      queues := h.queues
      slot := fun hm => ?_ }
  · cases refresh with
    | none =>
      have := h.refreshes
      unfold FT.refreshes at this ⊢
      simpa [State.ready] using this
    | some r =>
      -- neither run has a refresh waiting
      have hws := hs.not_waiting hF hss rfl
      have hwt := ht.not_waiting hF hst rfl
      have := h.refreshes
      unfold FT.refreshes at this ⊢
      simpa [State.ready, hws, hwt] using this
  · show (if refresh.isSome = true then _ else _) = (if refresh.isSome = true then _ else _)
    rw [h.clock, h.requested]
  · obtain ⟨hms, hmt, x, a, hx⟩ := h.slot hm
    refine ⟨hms, hmt, x, a, ?_⟩
    refine
      { left := hx.left.ready refresh
        right := hx.right.ready refresh
        counter := hx.counter
        waiting := ?_
        rank := fun hw => ?_
        banks := fun i j => (hx.banks i j).tick c.timing }
    · show (_ || _) = (_ || _)
      rw [hx.waiting]
    · cases refresh with
      | none =>
        refine hx.rank ?_
        simpa [State.ready] using hw
      | some r => rfl

/-- In its own slot a pid sees the same in both runs. -/
theorem InSlot.outcome (hF : Fits c) (hclk : s.currentClockCycle = t.currentClockCycle) (hms : Mine p s)
    (hmt : Mine p t) (h : InSlot c s t x a) (ho : Outcome c s out) (ho' : Outcome c t out') : out.1 = out'.1 ∧
      (Mine p out.2 ∨ Mine p out'.2 →
        Mine p out.2 ∧ Mine p out'.2 ∧ ∃ x a, InSlot c out.2 out'.2 x a) := by
  have hquiet : ∀ r, quiet c s r = quiet c t r := by
    intro r
    refine decide_eq_decide.2 (forall₂_congr fun b _ => ?_)
    have hb := h.banks r b
    have hstart := h.left.started
    rw [hb.state, hclk]
    rcases hb.activate with he | ⟨h1, h2⟩
    · rw [he]
    · have : (s.bankStates r b).nextActivate ≤ t.currentClockCycle := by omega
      have : (t.bankStates r b).nextActivate ≤ t.currentClockCycle := by omega
      simp_all
  have hrefresh : (s.refreshWaiting = true ∧ quiet c s s.refreshRank = true) ↔
      (t.refreshWaiting = true ∧ quiet c t t.refreshRank = true) := by
    constructor
    · rintro ⟨hw, hq⟩
      rw [hquiet, h.rank hw] at hq
      exact ⟨h.waiting ▸ hw, hq⟩
    · rintro ⟨hw, hq⟩
      rw [← h.waiting] at hw
      rw [hquiet, h.rank hw]
      exact ⟨hw, hq⟩
  have hps := hms.1
  have hpt := hmt.1
  cases ho with
  | early hp => cases hps.symm.trans hp
  | activate hs | skip hs => cases hps.symm.trans hs.1
  | refresh hw hq =>
    cases ho' with
    | early hp => cases hpt.symm.trans hp
    | activate ht | skip ht => cases hpt.symm.trans ht.1
    | column hr | wait hr => exact absurd (hrefresh.1 ⟨hw, hq⟩) hr
    | refresh hw' hq' =>
      have hrank := h.rank hw
      refine ⟨by rw [hrank], fun _ => ⟨?_, ?_, x, a, ?_⟩⟩
      · unfold Mine
        rw [State.finish_sched]
        exact hms
      · unfold Mine
        rw [State.finish_sched]
        exact hmt
      · refine
          { left := h.left.refresh_sent hF hq
            right := h.right.refresh_sent hF hq'
            counter := ?_
            waiting := by rw [State.finish_refreshWaiting, State.finish_refreshWaiting]; rfl
            rank := fun hw => by rw [State.finish_refreshWaiting] at hw; cases hw
            banks := fun i j => ?_ }
        · rw [State.finish_refreshCounter, State.finish_refreshCounter]
          exact congrArg (· + 1) h.counter
        · rw [State.finish_bankStates, State.finish_bankStates, ← hrank]
          show AlikeBank a ((s.bankStates i j).after c.timing s.currentClockCycle _ i j)
            ((t.bankStates i j).after c.timing t.currentClockCycle _ i j)
          rw [← hclk]
          exact (h.banks i j).after_refresh c.timing
  | @column y b hr hp hy hb =>
    cases ho' with
    | early hp => cases hpt.symm.trans hp
    | activate ht | skip ht => cases hpt.symm.trans ht.1
    | refresh hw' hq' => exact absurd (hrefresh.2 ⟨hw', hq'⟩) hr
    | @column z d hr' hp' hz hd =>
      have h1 := (hy.unique h.left).1
      have h2 := (hz.unique h.right).1
      refine ⟨by rw [h1, h2], fun hm => ?_⟩
      rcases hm with hm | hm
      · have := hm.1
        rw [State.finish_sched] at this
        cases this
      · have := hm.1
        rw [State.finish_sched] at this
        cases this
    | @wait z d hr' hp' hz hd =>
      have h1 := (hy.unique h.left).2
      have h2 := (hz.unique h.right).2
      omega
  | @wait y b hr hp hy hb =>
    cases ho' with
    | early hp => cases hpt.symm.trans hp
    | activate ht | skip ht => cases hpt.symm.trans ht.1
    | refresh hw' hq' => exact absurd (hrefresh.2 ⟨hw', hq'⟩) hr
    | @column z d hr' hp' hz hd =>
      have h1 := (hy.unique h.left).2
      have h2 := (hz.unique h.right).2
      omega
    | @wait z d hr' hp' hz hd =>
      have h1 := (hy.unique h.left).2
      refine ⟨rfl, fun _ => ⟨hms, hmt, x, a, ?_⟩⟩
      exact { h with left := h.left.passed (by omega), right := h.right.passed (by omega) }

/-- The pid's own slot starts in both runs. -/
theorem Same.own_start (hF : Fits c) (hs : Inv c 1 s) (ht : Inv c 1 t) (h : Same c p s t) (hss : Starts c s)
    (hst : Starts c t) (hns : s.sched.nextThread = p) (hnt : t.sched.nextThread = p) (ho : Outcome c s out)
    (ho' : Outcome c t out') : out.1 = out'.1 ∧ (∀ r, out.2.queues r p = out'.2.queues r p) ∧
      (Mine p out.2 ∨ Mine p out'.2 →
        Mine p out.2 ∧ Mine p out'.2 ∧ ∃ x a, InSlot c out.2 out'.2 x a) := by
  obtain ⟨hps, hcs, hws⟩ := hss
  obtain ⟨hpt, hct, hwt⟩ := hst
  have hqueue : (fun r => s.queues r s.sched.nextThread) = fun r => t.queues r t.sched.nextThread := by
    funext r
    rw [hns, hnt]
    exact h.queues r
  cases ho with
  | refresh hw => rw [hws] at hw; cases hw
  | column _ hp | wait _ hp => rw [hps] at hp; cases hp
  | early _ hc => omega
  | skip _ hq =>
    cases ho' with
    | refresh hw => rw [hwt] at hw; cases hw
    | column _ hp | wait _ hp => rw [hpt] at hp; cases hp
    | early _ hc => omega
    | activate _ _ hq' => rw [hqueue, hq'] at hq; cases hq
    | skip _ hq' =>
      refine ⟨rfl, h.queues, fun hm => ?_⟩
      rcases hm with hm | hm
      · rw [show s.sched.prevActivate = true from hm.1] at hps
        cases hps
      · rw [show t.sched.prevActivate = true from hm.1] at hpt
        cases hpt
  | @activate x xs _ hx hq =>
    cases ho' with
    | refresh hw => rw [hwt] at hw; cases hw
    | column _ hp | wait _ hp => rw [hpt] at hp; cases hp
    | early _ hc => omega
    | skip _ hq' => rw [hqueue, hq'] at hq; cases hq
    | @activate y ys _ hy hq' =>
      -- the same queues have the same first transaction
      have he : commands (x :: xs) = commands (y :: ys) := by
        rw [hqueue, hq'] at hq
        simp only [Option.some.injEq, Prod.mk.injEq] at hq
        show x.activate :: x.column :: commands xs = y.activate :: y.column :: commands ys
        rw [hq.2.1, hq.2.2.1, hq.2.2.2]
      obtain ⟨rfl, rfl⟩ := List.cons.inj (commands_inj he)
      refine ⟨rfl, fun r => ?_, fun _ => ⟨?_, ?_, x, s.currentClockCycle, ?_⟩⟩
      · rw [State.finish_queues, State.finish_queues]
        unfold FT.started
        dsimp only
        by_cases hr : r = x.rank
        · rw [hr, Function.update_self, Function.update_self, hns, hnt, Function.update_self,
            Function.update_self]
        · rw [Function.update_of_ne hr, Function.update_of_ne hr]
          exact h.queues r
      · unfold Mine
        rw [State.finish_sched]
        exact ⟨rfl, hns⟩
      · unfold Mine
        rw [State.finish_sched]
        exact ⟨rfl, hnt⟩
      · have hbank : x.bank < c.numBanks := by
          obtain ⟨z, zs, -, -, -, h4, -, h6⟩ := hs.firstPair_eq hq
          obtain ⟨ws, hws', hmem⟩ := hs.queues x.rank s.sched.nextThread
          obtain rfl : ws = z :: zs := commands_inj (hws'.symm.trans h6)
          rw [show x.bank = z.bank from congrArg BusPacket.bank h4]
          exact (hmem z List.mem_cons_self).2.2
        refine
          { left := hs.awaits_started hps hcs hF hx hbank
            right := h.clock ▸ ht.awaits_started hpt hct hF hy hbank
            counter := ?_
            waiting := ?_
            rank := fun hw => ?_
            banks := fun i j => ?_ }
        · rw [State.finish_refreshCounter, State.finish_refreshCounter]
          have := h.refreshes
          unfold FT.refreshes at this
          rw [hws, hwt] at this
          exact this
        · rw [State.finish_refreshWaiting, State.finish_refreshWaiting]
          exact hws.trans hwt.symm
        · rw [State.finish_refreshWaiting] at hw
          rw [show s.refreshWaiting = true from hw] at hws
          cases hws
        · rw [State.finish_bankStates, State.finish_bankStates]
          show AlikeBank _ ((s.bankStates i j).after c.timing s.currentClockCycle _ i j)
            ((t.bankStates i j).after c.timing t.currentClockCycle _ i j)
          rw [← h.clock]
          refine alike_after_activate rfl c.timing i j (hs.idle hps hcs i j) ?_
          rw [h.clock]
          exact ht.idle hpt hct i j

theorem sees_eq_none {popped : Option BusPacket}
    (h : ∀ q, popped = some q → q.busPacketType ≠ .refresh → q.threadID ≠ p) :
    sees p popped = none := by
  unfold sees
  rw [Option.filter_eq_none_iff]
  intro q hq
  have := h q hq
  simpa using this

/-- One cycle of both runs. -/
theorem Same.outcome (hF : Fits c) (hs : Inv c 1 s) (ht : Inv c 1 t) (h : Same c p s t) (ho : Outcome c s out)
    (ho' : Outcome c t out') : Same c p out.2 out'.2 ∧ sees p out.1 = sees p out'.1 := by
  have hstart : Starts c s ↔ Starts c t := by
    rw [hs.starts_iff hF, ht.starts_iff hF, h.clock, h.started, h.refreshes]
  by_cases hst : Starts c s
  · -- a slot starts, of the same pid in both runs
    have hst' := hstart.1 hst
    obtain ⟨⟨k1, k2, k3, k4⟩, hq, hprev, hsee⟩ := ho.starting hs hst
    obtain ⟨⟨k1', k2', k3', k4'⟩, hq', hprev', hsee'⟩ := ho'.starting ht hst'
    have hthread : s.sched.nextThread = t.sched.nextThread := by
      have hn := h.started
      unfold slotsStarted at hn
      rw [hst.1, hst'.1] at hn
      have hm : ∀ f : FT, f.nextThread < c.numPids → f.nextThread = slotNumber c f % c.numPids := by
        intro f hf
        unfold slotNumber
        rw [Nat.mul_add_mod', Nat.mod_eq_of_lt hf]
      rw [hm _ hs.round.1, hm _ ht.round.1]
      exact congrArg (· % c.numPids) hn
    have hsame : (∀ r, out.2.queues r p = out'.2.queues r p) ∧
        (Mine p out.2 ∨ Mine p out'.2 →
          Mine p out.2 ∧ Mine p out'.2 ∧ ∃ x a, InSlot c out.2 out'.2 x a) ∧
        sees p out.1 = sees p out'.1 := by
      by_cases hn : s.sched.nextThread = p
      · obtain ⟨h1, h2, h3⟩ := h.own_start hF hs ht hst hst' hn (hthread ▸ hn) ho ho'
        exact ⟨h2, h3, by rw [h1]⟩
      · have hn' : t.sched.nextThread ≠ p := fun he => hn (hthread.trans he)
        refine ⟨fun r => ?_, fun hm => ?_, ?_⟩
        · rw [hq r p (Ne.symm hn), hq' r p (Ne.symm hn')]
          exact h.queues r
        · rcases hm with hm | hm
          · exact absurd ((hprev hm.1).symm.trans hm.2) hn
          · exact absurd ((hprev' hm.1).symm.trans hm.2) hn'
        · rw [sees_eq_none fun q hq _ => by rw [(hsee q hq).1]; exact hn,
            sees_eq_none fun q hq _ => by rw [(hsee' q hq).1]; exact hn']
    refine ⟨⟨?_, ?_, ?_, ?_, hsame.1, hsame.2.1⟩, hsame.2.2⟩
    · rw [k1, k1', h.clock]
    · rw [k2, k2', h.started]
    · rw [k3, k3', h.refreshes]
    · rw [k4, k4', h.requested]
  · have hst' := mt hstart.2 hst
    obtain ⟨⟨k1, k2, k3, k4, k5⟩, hprev, hsee⟩ := ho.elsewhere hs hst
    obtain ⟨⟨k1', k2', k3', k4', k5'⟩, hprev', hsee'⟩ := ho'.elsewhere ht hst'
    have hsame : (Mine p out.2 ∨ Mine p out'.2 →
          Mine p out.2 ∧ Mine p out'.2 ∧ ∃ x a, InSlot c out.2 out'.2 x a) ∧
        sees p out.1 = sees p out'.1 := by
      by_cases hm : Mine p s ∨ Mine p t
      · obtain ⟨hms, hmt, x, a, hx⟩ := h.slot hm
        obtain ⟨h1, h2⟩ := hx.outcome hF h.clock hms hmt ho ho'
        exact ⟨h2, by rw [h1]⟩
      · have hms : ¬Mine p s := fun h => hm (.inl h)
        have hmt : ¬Mine p t := fun h => hm (.inr h)
        refine ⟨fun hm' => ?_, ?_⟩
        · rcases hm' with hm' | hm'
          · obtain ⟨h1, h2⟩ := hprev hm'.1
            exact absurd ⟨h1, h2.symm.trans hm'.2⟩ hms
          · obtain ⟨h1, h2⟩ := hprev' hm'.1
            exact absurd ⟨h1, h2.symm.trans hm'.2⟩ hmt
        · rw [sees_eq_none fun q hq hr he => hms ⟨(hsee q hq hr).1, (hsee q hq hr).2.symm.trans he⟩,
            sees_eq_none fun q hq hr he => hmt ⟨(hsee' q hq hr).1, (hsee' q hq hr).2.symm.trans he⟩]
    refine ⟨⟨?_, ?_, ?_, ?_, fun r => ?_, hsame.1⟩, hsame.2⟩
    · rw [k1, k1', h.clock]
    · rw [k2, k2', h.started]
    · rw [k3, k3', h.refreshes]
    · rw [k4, k4', h.requested]
    · rw [k5, k5']
      exact h.queues r

/-- Enqueueing changes nothing but the queues. -/
theorem Same.enqueue (h : Same c p s t) {queues queues' : Nat → Nat → List BusPacket}
    (hq : ∀ r, queues r p = queues' r p) :
    Same c p { s with queues := queues } { t with queues := queues' } := by
  refine ⟨h.clock, h.started, h.refreshes, h.requested, hq, fun hm => ?_⟩
  obtain ⟨hms, hmt, x, a, hx⟩ := h.slot hm
  exact ⟨hms, hmt, x, a, { hx with left := { hx.left with }, right := { hx.right with } }⟩

theorem Inv.enqueue (hI : Inv c 0 s) (hx : x.InRange c) : Inv c 0 (s.enqueued x) := by
  refine { hI with column := fun hp => ?_, queues := fun r q => ?_ }
  · obtain ⟨y, a, hy⟩ := hI.column hp
    exact ⟨y, a, { hy with }⟩
  · obtain ⟨xs, hxs, hmem⟩ := hI.queues r q
    unfold State.enqueued
    dsimp only
    split
    · next hrq =>
      refine ⟨xs ++ [x], by rw [hxs]; simp [commands], fun y hy => ?_⟩
      rcases List.mem_append.1 hy with hy | hy
      · exact hmem y hy
      · obtain rfl := List.mem_singleton.1 hy
        exact ⟨hrq.1.symm, hrq.2.symm, hx.2.1⟩
    · exact ⟨xs, hxs, hmem⟩

end Two

/-! ## Runs -/

/-- Fewer than `2^32` cycles, and refresh requests that are far enough apart. -/
def Ok (c : Config) (s : State FT) : Action → Prop
  | .enqueue _ => True
  | .cycle refresh => s.currentClockCycle < 2 ^ 32 ∧ Spaced c s refresh
  | .power _ => True

instance (c : Config) (s : State FT) (a : Action) : Decidable (Ok c s a) := by
  unfold Ok Spaced
  split <;> infer_instance

section Run

variable {c : Config} {p : Nat} {s t s' t' : State FT} {o o' : Option (Nat × BusPacket)}

theorem Inv.update (hF : Fits c) (hI : Inv c 0 s) (hok : Ok c s (.cycle refresh)) :
    Inv c 1 (s.ready c refresh) ∧
      Outcome c (s.ready c refresh) (s.update c methods refresh) := by
  have hR := hI.ready hF hok.2
  refine ⟨hR, ?_⟩
  rw [State.update_eq]
  exact hR.outcome hF hok.1

theorem Inv.step (hF : Fits c) (hI : Inv c 0 s) {a : Action} (hok : Ok c s a)
    (h : step c methods p s a = some (s', o)) : Inv c 0 s' := by
  cases a with
  | enqueue x =>
    obtain ⟨hx, -, rfl⟩ := step_enqueue h
    exact hI.enqueue hx
  | cycle refresh =>
    obtain ⟨rfl, -⟩ := step_cycle h
    obtain ⟨hR, ho⟩ := hI.update hF hok
    exact ho.inv hF hR
  | power waiting =>
    obtain ⟨rfl, -⟩ := step_power hF.lowPower h
    exact hI

theorem inv_init (hF : Fits c) : Inv c 0 init := by
  have h0 : ∀ n, upcoming c init = n → n = 0 := by
    rintro n rfl
    simp [upcoming, slotStart, slotNumber, init]
  refine
    { round := ⟨hF.pids, 0, fun q _ => rfl⟩
      early := fun _ => Nat.zero_le _
      column := fun h => by cases h
      queues := fun r q => ⟨[], rfl, fun x hx => by cases hx⟩
      below := fun i j => ⟨Nat.zero_le _, Nat.zero_le _, Nat.zero_le _⟩
      settles := fun i j _ => rfl
      faw := fun r => .inl rfl
      accesses := fun r b => rfl
      requested := fun r hr => by cases hr
      waiting := fun hw => by cases hw
      ahead := .inl ?_ }
  rw [h0 _ rfl]
  exact Nat.zero_le _

theorem inv_run (hF : Fits c) {as : List Action} {os : List (Option (Nat × BusPacket))}
    (ha : Along (step c methods p) (Ok c) init as)
    (h : run (step c methods p) (Action.of p) init as = some (s, os)) : Inv c 0 s :=
  run_invariant (Inv c 0) (fun _ _ _ _ hI hok hs => hI.step hF hok hs) (inv_init hF) ha h

theorem same_run (hF : Fits c) {as bs : List Action} {os os' : List (Option (Nat × BusPacket))}
    (hab : as.filter (Action.of p) = bs.filter (Action.of p))
    (ha : Along (step c methods p) (Ok c) init as) (hb : Along (step c methods p) (Ok c) init bs)
    (hs : run (step c methods p) (Action.of p) init as = some (s, os))
    (ht : run (step c methods p) (Action.of p) init bs = some (t, os')) : os = os' := by
  let R : State FT → State FT → Prop := fun s t => Inv c 0 s ∧ Inv c 0 t ∧ Same c p s t
  have hinit : R init init :=
    ⟨inv_init hF, inv_init hF, ⟨rfl, rfl, rfl, rfl, fun _ => rfl, fun h => by
      rcases h with h | h <;> cases h.1⟩⟩
  -- commands of other pids go into other queues
  have hother : ∀ {s : State FT} {x : Transaction} (r : Nat), Action.of p (.enqueue x) = false →
      (s.enqueued x).queues r p = s.queues r p := by
    intro s x r hv
    have hne : x.threadID ≠ p := by simpa [Action.of] using hv
    exact if_neg fun h => hne h.2.symm
  refine (unwinding R ?_ ?_ ?_ hab hinit ha hb hs ht).2
  · rintro s t (x | refresh | waiting) s' o ⟨hIs, hIt, h⟩ hv hok hst
    · refine ⟨hIs.step hF hok hst, hIt, ?_⟩
      obtain ⟨-, -, rfl⟩ := step_enqueue hst
      exact h.enqueue (t := t) fun r => (hother r hv).trans (h.queues r)
    · cases hv
    · obtain ⟨rfl, -⟩ := step_power hF.lowPower hst
      exact ⟨hIs, hIt, h⟩
  · rintro s t (x | refresh | waiting) t' o ⟨hIs, hIt, h⟩ hv hok hst
    · refine ⟨hIs, hIt.step hF hok hst, ?_⟩
      obtain ⟨-, -, rfl⟩ := step_enqueue hst
      exact h.enqueue (s := s) fun r => (h.queues r).trans (hother r hv).symm
    · cases hv
    · obtain ⟨rfl, -⟩ := step_power hF.lowPower hst
      exact ⟨hIs, hIt, h⟩
  · rintro s t (x | refresh | waiting) s' t' o o' ⟨hIs, hIt, h⟩ hv hok hok' hst hst'
    · refine ⟨⟨hIs.step hF hok hst, hIt.step hF hok' hst', ?_⟩, ?_⟩
      · obtain ⟨-, -, rfl⟩ := step_enqueue hst
        obtain ⟨-, -, rfl⟩ := step_enqueue hst'
        refine h.enqueue fun r => ?_
        rw [h.queues r]
      · obtain ⟨-, rfl, -⟩ := step_enqueue hst
        obtain ⟨-, rfl, -⟩ := step_enqueue hst'
        rfl
    · obtain ⟨hRs, hos⟩ := hIs.update hF hok
      obtain ⟨hRt, hot⟩ := hIt.update hF hok'
      have hR := h.ready hF hIs hIt hok.2 hok'.2
      obtain ⟨hS, hsee⟩ := hR.outcome hF hRs hRt hos hot
      refine ⟨⟨hIs.step hF hok hst, hIt.step hF hok' hst', ?_⟩, ?_⟩
      · obtain ⟨rfl, -⟩ := step_cycle hst
        obtain ⟨rfl, -⟩ := step_cycle hst'
        exact hS
      · obtain ⟨-, rfl⟩ := step_cycle hst
        obtain ⟨-, rfl⟩ := step_cycle hst'
        rw [hsee, h.clock]
    · cases hv

/-- The cycle in which the next slot starts. -/
theorem Inv.starts_in (hF : Fits c) (hI : Inv c 0 s) (hok : Ok c s (.cycle refresh)) :
    (slotsStarted c (s.update c methods refresh).2 = slotsStarted c s + 1 ↔
      Starts c (s.ready c refresh)) ∧
    (Starts c (s.ready c refresh) ↔
      s.currentClockCycle =
        slotsStarted c s * c.timing.worstCaseDelay + c.timing.tRFC * s.refreshCounter ∧
      ∀ q, (s.update c methods refresh).1 = some q → q.busPacketType ≠ .refresh) := by
  obtain ⟨hR, ho⟩ := hI.update hF hok
  refine ⟨⟨fun h => ?_, fun h => (ho.starting hR h).1.2.1⟩, fun h => ?_, fun h => ?_⟩
  · by_contra hn
    have hsame : slotsStarted c (s.update c methods refresh).2 = slotsStarted c s :=
      (ho.elsewhere hR hn).1.2.1
    omega
  · refine ⟨?_, fun q hq => ?_⟩
    · rw [← upcoming_eq]
      exact (upcoming_of_start h.1 h.2.1).symm
    · exact ((ho.starting hR h).2.2.2 q hq).2
  · obtain ⟨hc, hq⟩ := h
    rw [← upcoming_eq] at hc
    have hp : (s.ready c refresh).sched.prevActivate = false := by
      rw [← Bool.not_eq_true]
      intro hp
      obtain ⟨x, a, hx⟩ := hR.column hp
      exact absurd hc (hx.lt_upcoming hF hp).1.ne
    have hs : (s.ready c refresh).currentClockCycle =
        slotStart c (s.ready c refresh).sched (s.ready c refresh).refreshCounter := by
      have hu : upcoming c (s.ready c refresh) = s.currentClockCycle := hc.symm
      unfold upcoming at hu
      rw [hp] at hu
      exact hu.symm
    exact ho.starts hp hs hq

/-- Fixed timing.  The `i`-th slot of pid `q` is slot `i * num_pids + q` of all.
The clock does not pass its start; it starts in the cycle
`(i * num_pids + q) * W + tRFC * refreshes`, unless that cycle sends a refresh,
and then every `ACTIVATE` in the queues of `q` can be sent.  Two runs with the same
commands of pid `p` and the same refresh requests pop the commands of `p` in the
same cycles. -/
theorem fixed_timing_noninterference (c : Config) (hF : Fits c) (p : Nat) (as : List Action)
    (ha : Along (step c methods p) (Ok c) init as) (s : State FT)
    (os : List (Option (Nat × BusPacket)))
    (hs : run (step c methods p) (Action.of p) init as = some (s, os)) :
    (∀ q i, q < c.numPids → slotsStarted c s = i * c.numPids + q →
      s.currentClockCycle ≤
        (i * c.numPids + q) * c.timing.worstCaseDelay + c.timing.tRFC * s.refreshCounter ∧
      ∀ refresh, Ok c s (.cycle refresh) →
        (slotsStarted c (s.update c methods refresh).2 = slotsStarted c s + 1 ↔
          s.currentClockCycle =
            (i * c.numPids + q) * c.timing.worstCaseDelay + c.timing.tRFC * s.refreshCounter ∧
          ∀ x, (s.update c methods refresh).1 = some x → x.busPacketType ≠ .refresh) ∧
        (slotsStarted c (s.update c methods refresh).2 = slotsStarted c s + 1 →
          s.sched.nextThread = q ∧ s.sched.threadCounters q = i ∧
          ∀ r, ∀ x ∈ s.queues r q, x.busPacketType = .activate →
            (s.ready c refresh).isIssuable c x = true)) ∧
    ∀ bs t os', as.filter (Action.of p) = bs.filter (Action.of p) →
      Along (step c methods p) (Ok c) init bs →
      run (step c methods p) (Action.of p) init bs = some (t, os') → os = os' := by
  have hI := inv_run hF ha hs
  refine ⟨fun q i hq hn => ⟨?_, fun refresh hok => ?_⟩,
    fun bs t os' hab hb ht => same_run hF hab ha hb hs ht⟩
  · rw [← hn, ← upcoming_eq]
    exact hI.le_upcoming hF
  · obtain ⟨h1, h2⟩ := hI.starts_in hF hok
    refine ⟨by rw [← hn]; exact h1.trans h2, fun h => ?_⟩
    obtain ⟨hp, hc, hw⟩ := h1.1 h
    have hnum : s.sched.threadCounters s.sched.nextThread * c.numPids + s.sched.nextThread =
        i * c.numPids + q := by
      unfold slotsStarted slotNumber at hn
      rw [show s.sched.prevActivate = false from hp] at hn
      exact hn
    have hthread : s.sched.nextThread = q := by
      have := congrArg (· % c.numPids) hnum
      simpa [Nat.mul_add_mod', Nat.mod_eq_of_lt hq, Nat.mod_eq_of_lt hI.round.1] using this
    rw [hthread] at hnum
    have hpos : 0 < c.numPids := hF.pids
    refine ⟨hthread, Nat.eq_of_mul_eq_mul_right hpos (by omega), fun r x _ hx => ?_⟩
    exact (hI.ready hF hok.2).issuable hp hc hx

end Run

/-- With the shipped timings: pid 0 reads from rank 0 while pid 1 has a write to the
same bank, or nothing, and rank 1 is refreshed. -/
theorem fixed_timing_noninterference_shared_bank :
    let c : Config := ⟨ddr3Sg15, 2, 8, 2, 32, 4, .rankThenBankRoundRobin, false⟩
    let x : Transaction := ⟨false, 0, 0, 0, 0, 0⟩
    let y : Transaction := ⟨true, 64, 1, 0, 0, 1⟩
    let cycles : List Action := .cycle (some 1) :: List.replicate 120 (.cycle none)
    let as : List Action := .enqueue x :: cycles
    let bs : List Action := .enqueue x :: .enqueue y :: cycles
    ∃ s os t os', run (step c methods 0) (Action.of 0) init as = some (s, os) ∧
      run (step c methods 0) (Action.of 0) init bs = some (t, os') ∧ os = os' ∧
      s.currentClockCycle ≤
        (0 * c.numPids + 1) * c.timing.worstCaseDelay + c.timing.tRFC * s.refreshCounter := by
  intro c x y cycles as bs
  have hF : Fits c := ⟨by decide, by decide, by decide, by decide, rfl⟩
  obtain ⟨⟨s, os⟩, hs⟩ := Option.isSome_iff_exists.1
    (show (run (step c methods 0) (Action.of 0) init as).isSome = true by decide +kernel)
  obtain ⟨⟨t, os'⟩, ht⟩ := Option.isSome_iff_exists.1
    (show (run (step c methods 0) (Action.of 0) init bs).isSome = true by decide +kernel)
  have hslot : ∀ r ∈ run (step c methods 0) (Action.of 0) init as,
      slotsStarted c r.1 = 0 * c.numPids + 1 := by decide +kernel
  obtain ⟨h1, h2⟩ := fixed_timing_noninterference c hF 0 as (by decide +kernel) s os hs
  refine ⟨s, os, t, os', hs, ht, h2 bs t os' (by decide +kernel) (by decide +kernel) ht, ?_⟩
  exact (h1 1 0 (by decide) (hslot (s, os) hs)).1

/-! ## A refresh that is shorter than `tRCD` -/

/-- The timings are those of the shipped device but for `tRFC = 5`, which is less
than `tRCD = 10`.  Pid 0 opens a row of rank 0 in cycle 0, and rank 1 is refreshed in
cycle 1.  In cycle 5 the start of slot 0 comes again, so slot 0 is counted; in cycle
10 its column command is sent, and slot 1 is counted.  Pid 1 loses its slot of cycle
48, which it has when pid 0 is silent. -/
theorem short_refresh_skips_slot :
    let c : Config := ⟨{ ddr3Sg15 with tRFC := 5 }, 2, 8, 2, 32, 4, .rankThenBankRoundRobin, false⟩
    let x : Transaction := ⟨false, 0, 0, 0, 0, 0⟩
    let y : Transaction := ⟨false, 64, 0, 0, 1, 1⟩
    let cycles : List Action := [.cycle none, .cycle (some 1)] ++ List.replicate 47 (.cycle none)
    let as : List Action := .enqueue y :: cycles
    let bs : List Action := .enqueue x :: .enqueue y :: cycles
    c.timing.Bounded ∧ as.filter (Action.of 1) = bs.filter (Action.of 1) ∧
    Along (step c methods 1) (Ok c) init as ∧ Along (step c methods 1) (Ok c) init bs ∧
    (run (step c methods 1) (Action.of 1) init as).map (fun r => r.2.filterMap id) =
      some [(48, y.activate)] ∧
    (run (step c methods 1) (Action.of 1) init bs).map (fun r => r.2.filterMap id) = some [] := by
  decide +kernel

end DynamicCache.Dram.FT
