import DynamicCache.Dram.FixedTimingIsolation

/-!
# The refresh countdowns of the controller (`MemoryController.cpp`)

Every rank has a countdown, started one after the other.  The controller looks at
one rank only and moves on when it has asked for that rank's refresh; a countdown
that reached 0 meanwhile would start again from the largest `unsigned`.  This does
not happen (`refresh_falls_due`), and the requests are as far apart as the
fixed-timing scheduler needs (`fixed_timing_refreshes_itself`).
-/

namespace DynamicCache.Dram

open Lib

/-- The fields `refreshRank` and `refreshCountdown` of `MemoryController`. -/
structure RefreshTimer where
  refreshRank : Nat := 0
  refreshCountdown : Nat → Nat

namespace RefreshTimer

variable (ranks period : Nat)

/-- The countdowns that the constructor sets; `period` is `REFRESH_PERIOD/tCK`. -/
def init : RefreshTimer where
  refreshCountdown i := period / ranks * (i + 1)

/-- The rank for which `needRefresh` is called. -/
def due (s : RefreshTimer) : Option Nat :=
  if s.refreshCountdown s.refreshRank = 0 then some s.refreshRank else none

/-- The part of `MemoryController::update` that asks for a refresh. -/
def ask (s : RefreshTimer) : RefreshTimer :=
  if s.refreshCountdown s.refreshRank = 0 then
    { refreshRank := if s.refreshRank + 1 = ranks then 0 else s.refreshRank + 1
      refreshCountdown := Function.update s.refreshCountdown s.refreshRank period }
  else s

/-- The countdowns over one call of `update`; they are `unsigned`. -/
def tick (s : RefreshTimer) : RefreshTimer :=
  { s.ask ranks period with
    refreshCountdown := fun i =>
      let n := (s.ask ranks period).refreshCountdown i
      if n = 0 then 2 ^ 32 - 1 else n - 1 }

/-- The cycle of request `j`. -/
def requestTime (j : Nat) : Nat := period / ranks * (j % ranks + 1) + j / ranks * period

/-- At the beginning of cycle `now`, after `k` requests. -/
structure Cadence (now k : Nat) (s : RefreshTimer) : Prop where
  rank : s.refreshRank = k % ranks
  counts : ∀ j, k ≤ j → j < k + ranks → s.refreshCountdown (j % ranks) + now = requestTime ranks period j
  past : ∀ j < k, requestTime ranks period j < now

variable {ranks period} {now k : Nat} {s : RefreshTimer}

theorem requestTime_add (hr : 0 < ranks) (j : Nat) :
    requestTime ranks period (j + ranks) = requestTime ranks period j + period := by
  unfold requestTime
  rw [Nat.add_mod_right, Nat.add_div_right j hr, Nat.succ_mul, Nat.add_assoc]

theorem succ_mod_div (hr : 0 < ranks) (j : Nat) :
    (j + 1) % ranks = (if j % ranks + 1 = ranks then 0 else j % ranks + 1) ∧
      (j + 1) / ranks = if j % ranks + 1 = ranks then j / ranks + 1 else j / ranks := by
  have hlt := Nat.mod_lt j hr
  have hj := Nat.mod_add_div j ranks
  refine And.symm ((Nat.div_mod_unique hr).2 ?_)
  split
  · rw [Nat.mul_succ]
    omega
  · omega

/-- The last rank of a round and the first of the next are as far apart, or farther. -/
theorem requestTime_succ (hr : 0 < ranks) (j : Nat) :
    requestTime ranks period j + period / ranks ≤ requestTime ranks period (j + 1) := by
  have hP : period / ranks * ranks ≤ period := Nat.div_mul_le_self ..
  unfold requestTime
  rw [(succ_mod_div hr j).1, (succ_mod_div hr j).2]
  split
  · next hlast =>
    rw [hlast, Nat.succ_mul]
    omega
  · rw [Nat.mul_succ _ (j % ranks + 1)]
    omega

theorem requestTime_lt (hr : 0 < ranks) (hd : 1 ≤ period / ranks) {i j : Nat} (h : i < j) :
    requestTime ranks period i < requestTime ranks period j :=
  strictMono_nat_of_lt_succ (fun n => Nat.lt_of_lt_of_le (Nat.lt_add_of_pos_right hd) (requestTime_succ hr n)) h

theorem cadence_init : Cadence ranks period 0 0 (init ranks period) where
  rank := (Nat.zero_mod ranks).symm
  counts j _ hj := by
    rw [Nat.zero_add] at hj
    rw [requestTime, Nat.mod_eq_of_lt hj, Nat.div_eq_of_lt hj, Nat.zero_mul]
    rfl
  past := nofun

/-- Request `k` is the next one. -/
theorem Cadence.due_eq (h : Cadence ranks period now k s) (hr : 0 < ranks) :
    now ≤ requestTime ranks period k ∧ s.due = if now = requestTime ranks period k then some (k % ranks) else none := by
  have hk := h.counts k (Nat.le_refl k) (Nat.lt_add_of_pos_right hr)
  unfold due
  rw [h.rank]
  refine ⟨by omega, if_congr ?_ rfl rfl⟩
  omega

/-- After `ask` the next request is still to come. -/
theorem Cadence.asked (h : Cadence ranks period now k s) (hd : 1 ≤ period / ranks) (hr : 0 < ranks) :
    ∃ k', (s.ask ranks period).refreshRank = k' % ranks ∧ (∀ j < k', requestTime ranks period j ≤ now) ∧
      now < requestTime ranks period k' ∧
      (if s.due.isSome then now + period / ranks else requestTime ranks period k) ≤ requestTime ranks period k' ∧
      ∀ j, k' ≤ j → j < k' + ranks →
        (s.ask ranks period).refreshCountdown (j % ranks) + now = requestTime ranks period j := by
  obtain ⟨hle, hdue⟩ := h.due_eq hr
  have hk := h.counts k (Nat.le_refl k) (Nat.lt_add_of_pos_right hr)
  rw [hdue]
  unfold ask
  by_cases hnow : now = requestTime ranks period k
  · rw [if_pos hnow, if_pos (by rw [h.rank]; omega)]
    have hnext : now + period / ranks ≤ requestTime ranks period (k + 1) := hnow ▸ requestTime_succ hr k
    refine ⟨k + 1, ?_, fun j hj => ?_, by omega, hnext, fun j hj hlt => ?_⟩
    · show (if s.refreshRank + 1 = ranks then 0 else s.refreshRank + 1) = _
      rw [h.rank, (succ_mod_div hr k).1]
    · rcases Nat.lt_succ_iff_lt_or_eq.1 hj with hj | rfl
      · exact Nat.le_of_lt (h.past j hj)
      · omega
    · show Function.update s.refreshCountdown s.refreshRank period (j % ranks) + now = _
      rw [h.rank]
      by_cases he : j = k + ranks
      · rw [he, Nat.add_mod_right, Function.update_self, requestTime_add hr]
        omega
      · rw [Function.update_of_ne, h.counts j (by omega) (by omega)]
        intro hmod
        have hzero := Nat.sub_mod_eq_zero_of_mod_eq hmod
        rw [Nat.mod_eq_of_lt (by omega)] at hzero
        omega
  · rw [if_neg hnow, if_neg (by rw [h.rank]; omega)]
    exact ⟨k, h.rank, fun j hj => Nat.le_of_lt (h.past j hj), by omega, Nat.le_refl _, h.counts⟩

theorem Cadence.tick (h : Cadence ranks period now k s) (hd : 1 ≤ period / ranks) (hr : 0 < ranks) :
    ∃ k', Cadence ranks period (now + 1) k' (s.tick ranks period) ∧
      (if s.due.isSome then now + period / ranks else requestTime ranks period k) ≤ requestTime ranks period k' := by
  obtain ⟨k', hrank, hpast, hk, hnext, hcounts⟩ := h.asked hd hr
  refine ⟨k', ⟨hrank, fun j hj hlt => ?_, fun j hj => Nat.lt_succ_of_le (hpast j hj)⟩, hnext⟩
  have hcount := hcounts j hj hlt
  have hlate : now < requestTime ranks period j := by
    rcases Nat.eq_or_lt_of_le hj with rfl | hj
    · exact hk
    · exact Nat.lt_trans hk (requestTime_lt hr hd hj)
  show (if (s.ask ranks period).refreshCountdown (j % ranks) = 0 then _ else _) + (now + 1) = _
  rw [if_neg (by omega)]
  omega

/-- The controller asks for a refresh of rank `j % NUM_RANKS` in every cycle `requestTime j`, and
in no others. -/
theorem refresh_falls_due (ranks period : Nat) (hd : 1 ≤ period / ranks) (n r : Nat) :
    ((tick ranks period)^[n] (init ranks period)).due = some r ↔
      ∃ j, r = j % ranks ∧ n = requestTime ranks period j := by
  have hr : 0 < ranks := Nat.pos_of_ne_zero fun h => by simp [h] at hd
  have hc : ∃ k, Cadence ranks period n k ((tick ranks period)^[n] (init ranks period)) := by
    induction n with
    | zero => exact ⟨0, cadence_init⟩
    | succ n ih =>
      obtain ⟨k, h⟩ := ih
      rw [Function.iterate_succ_apply']
      exact (h.tick hd hr).imp fun _ h => h.1
  obtain ⟨k, h⟩ := hc
  obtain ⟨hle, hdue⟩ := h.due_eq hr
  rw [hdue]
  constructor
  · intro he
    split at he
    · next hn => exact ⟨k, (Option.some.inj he).symm, hn⟩
    · cases he
  · rintro ⟨j, rfl, rfl⟩
    -- earlier requests are over, and later ones come after request `k`
    have hj : j = k := by
      rcases Nat.lt_trichotomy j k with hlt | he | hgt
      · exact absurd (h.past j hlt) (Nat.lt_irrefl _)
      · exact he
      · exact absurd (requestTime_lt hr hd hgt) (Nat.not_lt.2 hle)
    rw [hj, if_pos rfl]

theorem refresh_falls_due_two_ranks : ((tick 2 21)^[31] (init 2 21)).due = some 0 :=
  (refresh_falls_due 2 21 (by decide) 31 0).2 ⟨2, rfl, rfl⟩

end RefreshTimer

/-! ## Fixed timing with the controller's own refreshes -/

namespace FT

/-- The actions of a controller with its own refreshes, for transactions and cycles (`none`). -/
def driven (c : Config) (period : Nat) : RefreshTimer → List (Option Transaction) → List Action
  | _, [] => []
  | t, some x :: as => .enqueue x :: driven c period t as
  | t, none :: as => .cycle t.due :: driven c period (t.tick c.numRanks period) as

/-- Transactions of pid `p`, and every cycle. -/
def shares (p : Nat) (a : Option Transaction) : Bool := a.all fun x => x.threadID = p

theorem driven_filter (c : Config) (period p : Nat) (t : RefreshTimer) (as : List (Option Transaction)) :
    (driven c period t as).filter (Action.of p) = driven c period t (as.filter (shares p)) := by
  induction as generalizing t with
  | nil => rfl
  | cons a as ih =>
    cases a with
    | none => rw [driven, List.filter_cons_of_pos rfl, List.filter_cons_of_pos rfl, driven, ih]
    | some x =>
      by_cases hp : x.threadID = p
      · simp [driven, Action.of, shares, hp, ih]
      · simp [driven, Action.of, shares, hp, ih]

variable {c : Config} {period p : Nat}

/-- The clock, and the time of the last request. -/
theorem Inv.clock {s : State FT} (hF : Fits c) (hI : Inv c 0 s) {refresh : Option Nat} (hok : Ok c s (.cycle refresh)) :
    (s.update c methods refresh).2.currentClockCycle = s.currentClockCycle + 1 ∧
      (s.update c methods refresh).2.refreshRequested =
        if refresh.isSome then some s.currentClockCycle else s.refreshRequested := by
  obtain ⟨hR, ho⟩ := hI.update hF hok
  by_cases hst : Starts c (s.ready c refresh)
  · obtain ⟨⟨h1, -, -, h4⟩, -⟩ := ho.starting hR hst
    exact ⟨h1, h4⟩
  · obtain ⟨⟨h1, -, -, h4, -⟩, -⟩ := ho.elsewhere hR hst
    exact ⟨h1, h4⟩

/-- The requests of the controller are as far apart as fixed timing needs. -/
theorem along_driven (hF : Fits c) (hd : c.timing.worstCaseDelay + c.timing.tRFC ≤ period / c.numRanks)
    (hr : 0 < c.numRanks) {as : List (Option Transaction)} {s : State FT} {t : RefreshTimer} {k : Nat} (hI : Inv c 0 s)
    (ht : t.Cadence c.numRanks period s.currentClockCycle k)
    (hlast : ∀ r ∈ s.refreshRequested, r + period / c.numRanks ≤ RefreshTimer.requestTime c.numRanks period k)
    (hlen : s.currentClockCycle + as.count none ≤ 2 ^ 32) :
    Along (step c methods p) (Ok c) s (driven c period t as) := by
  induction as generalizing s t k with
  | nil => trivial
  | cons a as ih =>
    cases a with
    | some x =>
      refine along_cons.2 ⟨trivial, fun s' o hs => ?_⟩
      have hI' := hI.step hF (a := .enqueue x) trivial hs
      obtain ⟨-, -, rfl⟩ := step_enqueue hs
      exact ih hI' ht hlast hlen
    | none =>
      obtain ⟨hRCD, hRFC, -⟩ := hF.regular
      obtain ⟨hle, hdue⟩ := ht.due_eq hr
      rw [List.count_cons_self] at hlen
      have hok : Ok c s (.cycle t.due) := by
        refine ⟨by omega, fun hsome r hreq => ?_⟩
        have := hlast r hreq
        rw [hdue] at hsome
        split at hsome
        · omega
        · cases hsome
      refine along_cons.2 ⟨hok, fun s' o hs => ?_⟩
      have hI' := hI.step hF hok hs
      obtain ⟨rfl, -⟩ := step_cycle hs
      obtain ⟨hclock, hreq⟩ := hI.clock hF hok
      obtain ⟨k', ht', hnext⟩ := ht.tick (by omega) hr
      refine ih hI' (hclock ▸ ht') (fun r hr => ?_) (by rw [hclock]; omega)
      rw [hreq] at hr
      split at hr
      · next hsome =>
        cases hr
        rwa [if_pos hsome] at hnext
      · next hsome =>
        rw [if_neg hsome] at hnext
        exact Nat.le_trans (hlast r hr) hnext

/-- With refreshes at least `W + tRFC` cycles apart the clock never passes a slot, and two
runs with the same transactions of pid `p` pop the commands of `p` in the same cycles. -/
theorem fixed_timing_refreshes_itself (c : Config) (hF : Fits c) (period : Nat)
    (hd : c.timing.worstCaseDelay + c.timing.tRFC ≤ period / c.numRanks) (p : Nat) (as bs : List (Option Transaction))
    (hlen : as.count none ≤ 2 ^ 32) (hlen' : bs.count none ≤ 2 ^ 32) (hab : as.filter (shares p) = bs.filter (shares p))
    (s t : State FT) (os os' : List (Option (Nat × BusPacket)))
    (hs : run (step c methods p) (Action.of p) init (driven c period (.init c.numRanks period) as) = some (s, os))
    (ht : run (step c methods p) (Action.of p) init (driven c period (.init c.numRanks period) bs) = some (t, os')) :
    s.currentClockCycle ≤ slotsStarted c s * c.timing.worstCaseDelay + c.timing.tRFC * s.refreshCounter ∧ os = os' := by
  obtain ⟨hRCD, hRFC, -⟩ := hF.regular
  have hranks : 0 < c.numRanks := Nat.pos_of_ne_zero fun h => by
    rw [h, Nat.div_zero] at hd
    omega
  have halong : ∀ {as : List (Option Transaction)}, as.count none ≤ 2 ^ 32 →
      Along (step c methods p) (Ok c) init (driven c period (.init c.numRanks period) as) := fun h =>
    along_driven hF hd hranks (inv_init hF) (RefreshTimer.cadence_init) (fun r hr => by cases hr)
      (le_of_eq_of_le (Nat.zero_add _) h)
  refine ⟨?_, same_run hF ?_ (halong hlen) (halong hlen') hs ht⟩
  · rw [← upcoming_eq]
    exact (inv_run hF (halong hlen) hs).le_upcoming hF
  · rw [driven_filter, driven_filter, hab]

/-- Pid 0 reads while pid 1 has a write to the same bank, or nothing, and rank 0 is refreshed. -/
theorem fixed_timing_refreshes_itself_shared_bank :
    let c : Config := ⟨ddr3Sg15, 2, 8, 2, 32, 4, .rankThenBankRoundRobin, false⟩
    let as : List (Option Transaction) := some ⟨false, 0, 0, 0, 0, 0⟩ :: List.replicate 160 none
    let bs : List (Option Transaction) := some ⟨true, 64, 1, 0, 0, 1⟩ :: as
    ∃ s os t os', run (step c methods 0) (Action.of 0) init (driven c 300 (.init 2 300) as) = some (s, os) ∧
      run (step c methods 0) (Action.of 0) init (driven c 300 (.init 2 300) bs) = some (t, os') ∧
      s.refreshCounter = 1 ∧ os = os' := by
  intro c as bs
  obtain ⟨⟨s, os⟩, hs, hcount⟩ := Option.map_eq_some_iff.1 (show (run (step c methods 0) (Action.of 0) init
    (driven c 300 (.init 2 300) as)).map (fun r => r.1.refreshCounter) = some 1 by decide +kernel)
  obtain ⟨⟨t, os'⟩, ht⟩ := Option.isSome_iff_exists.1 (show (run (step c methods 0) (Action.of 0) init
    (driven c 300 (.init 2 300) bs)).isSome = true by decide +kernel)
  exact ⟨s, os, t, os', hs, ht, hcount, (fixed_timing_refreshes_itself c
    ⟨by decide, by decide, by decide, by decide, rfl⟩ 300 (by decide) 0 as bs (by decide +kernel) (by decide +kernel)
      (by decide) s t os os' hs ht).2⟩

end FT

end DynamicCache.Dram
