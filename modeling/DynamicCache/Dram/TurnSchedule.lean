import DynamicCache.Dram.Turns

/-!
# The turn schedule (`CommandQueueTP::getCurrentPID`, `isBufferTime`)

The schedule that the two functions are meant to follow: from the offset on, rounds
in which pid 0 has `p0Period` cycles and every other pid `p1Period` cycles, or every
pid `2^tpTurnLength`.  Turn `u` begins `begin_ u` cycles into the round and lasts
`len u` cycles.

A cycle at which `getCurrentPID` and `turnBegin` agree with this is `OnSchedule`.
With two pids `getCurrentPID` divides by `p0Period`, which is right only for the
first `2 * p0Period` cycles of a round; and the cycle count is truncated to an
`int`.  `onSchedule_iff` says which cycles are on schedule, and
`off_schedule` has one for each way of being off.
-/

namespace DynamicCache.Dram.Turns

variable (w : Turns) (numPids clock : Nat)

/-- Where the turn of a pid begins in the round. -/
def begin_ (u : Nat) : Int :=
  if w.diffPeriod then if u = 0 then 0 else w.p0Period + (u - 1) * w.p1Period
  else u * 2 ^ w.tpTurnLength

def len (u : Nat) : Int :=
  if w.diffPeriod then if u = 0 then w.p0Period else w.p1Period else 2 ^ w.tpTurnLength

/-- Cycles of a round. -/
def round : Int := w.begin_ numPids

/-- Cycles since the offset. -/
def elapsed : Int := clock - w.offset

/-- The place of the cycle in its round. -/
def place : Int := w.elapsed clock % w.round numPids

/-- The cycle belongs to the pid of `getCurrentPID`, as every turn is `len` cycles
long, and `turnBegin` is the first cycle of the turn. -/
structure OnSchedule : Prop where
  pid_lt : w.getCurrentPID numPids clock < numPids
  owner : ∀ u < numPids, w.getCurrentPID numPids clock = u ↔
    w.begin_ u ≤ w.place numPids clock ∧ w.place numPids clock < w.begin_ u + w.len u
  begins : (w.turnBegin numPids clock : Int) =
    w.elapsed clock - w.place numPids clock + w.begin_ (w.getCurrentPID numPids clock)

/-- Parameters for which the source has a schedule: two to four pids when the turn
lengths differ, and a round and a turn that fit an `int`. -/
structure Valid : Prop where
  diff : w.diffPeriod = true → (numPids = 2 ∨ numPids = 3 ∨ numPids = 4) ∧ 0 < w.p0Period ∧ 0 < w.p1Period ∧
    w.round numPids < 2 ^ 31
  plain : w.diffPeriod = false → 0 < numPids ∧ w.tpTurnLength < 32

/-- The cycle count fits an `int`, and with two pids the division by `p0Period` does
not go past pid 1. -/
def InTime : Prop :=
  0 ≤ w.elapsed clock ∧ w.elapsed clock < 2 ^ 31 ∧
    (w.diffPeriod = true → numPids = 2 → w.place numPids clock < 2 * w.p0Period)

instance : Decidable (w.InTime numPids clock) := inferInstanceAs (Decidable (_ ∧ _ ∧ _))

/-- Two pids with turns of one and five cycles: cycle 2 has pid 2.  The cycle before
the offset, and the one 2^31 cycles after it, have pids out of range, too. -/
theorem off_schedule :
    (let w : Turns := { tpTurnLength := 0, diffPeriod := true, p0Period := 1, p1Period := 5 };
      w.Valid 2 ∧ w.getCurrentPID 2 2 = 2 ∧ ¬w.OnSchedule 2 2) ∧
    (let w : Turns := { tpTurnLength := 0, offset := 1 };
      w.Valid 2 ∧ w.getCurrentPID 2 0 = 2 ^ 32 - 1 ∧ ¬w.OnSchedule 2 0) ∧
    (let w : Turns := { tpTurnLength := 0 };
      w.Valid 3 ∧ w.getCurrentPID 3 (2 ^ 31) = 2 ^ 32 - 2 ∧ ¬w.OnSchedule 3 (2 ^ 31)) := by
  refine ⟨⟨⟨fun _ => by decide, nofun⟩, by decide, fun h => ?_⟩,
    ⟨⟨nofun, fun _ => by decide⟩, by decide, fun h => ?_⟩,
    ⟨⟨nofun, fun _ => by decide⟩, by decide, fun h => ?_⟩⟩
  all_goals exact absurd h.pid_lt (by decide)

/-! ## Cycles that fit -/

variable {w numPids clock}

theorem currentClockCycle_eq (h0 : 0 ≤ w.elapsed clock) (h : w.elapsed clock < 2 ^ 31) :
    w.currentClockCycle clock = w.elapsed clock := by
  show Int.bmod (w.elapsed clock) (2 ^ 32) = w.elapsed clock
  generalize w.elapsed clock = x at *
  unfold Int.bmod
  dsimp only
  split <;> omega

theorem uint64_of_lt {x : Int} (h0 : 0 ≤ x) (h : x < 2 ^ 64) : (uint64 x : Int) = x := by
  unfold uint64
  omega

theorem uint32_eq {x : Int} {n : Nat} (h : x = n) (hn : n < 2 ^ 32) : uint32 x = n := by
  unfold uint32
  omega

theorem begin_succ (u : Nat) : w.begin_ (u + 1) = w.begin_ u + w.len u := by
  unfold begin_ len
  split
  · rcases Nat.eq_zero_or_pos u with rfl | h
    · simp
    · rw [if_neg (by omega), if_neg (by omega), if_neg (by omega)]
      push_cast
      ring
  · push_cast
    ring

/-- The turn of a place is the one that has it: turns do not overlap. -/
theorem owner_unique (hlen : ∀ u, 0 ≤ w.len u) {u v : Nat} {r : Int} (hu : w.begin_ u ≤ r ∧ r < w.begin_ u + w.len u)
    (hv : w.begin_ v ≤ r ∧ r < w.begin_ v + w.len v) : u = v := by
  have hmono : Monotone w.begin_ := monotone_nat_of_le_succ fun u => by
    have := hlen u
    rw [begin_succ]
    omega
  rcases Nat.lt_trichotomy u v with h | h | h
  · have := hmono (Nat.succ_le_of_lt h)
    rw [Nat.succ_eq_add_one, begin_succ] at this
    omega
  · exact h
  · have := hmono (Nat.succ_le_of_lt h)
    rw [Nat.succ_eq_add_one, begin_succ] at this
    omega

/-- A cycle is on schedule when its pid has the place and `turnBegin` goes back to
the begin of the pid's turn. -/
theorem onSchedule_of_owner (hlen : ∀ u, 0 ≤ w.len u) (hpid : w.getCurrentPID numPids clock < numPids)
    (hown : w.begin_ (w.getCurrentPID numPids clock) ≤ w.place numPids clock ∧
      w.place numPids clock < w.begin_ (w.getCurrentPID numPids clock) + w.len (w.getCurrentPID numPids clock))
    (hbegin : (w.turnBegin numPids clock : Int) =
      w.elapsed clock - w.place numPids clock + w.begin_ (w.getCurrentPID numPids clock)) :
    w.OnSchedule numPids clock where
  pid_lt := hpid
  owner _ _ := ⟨fun h => h ▸ hown, fun h => owner_unique hlen hown h⟩
  begins := hbegin

/-! ## Turns of one length -/

theorem plain_onSchedule (hw : w.diffPeriod = false) (hn : 0 < numPids) (h0 : 0 ≤ w.elapsed clock)
    (h : w.elapsed clock < 2 ^ 31) : w.OnSchedule numPids clock := by
  have hnow := currentClockCycle_eq h0 h
  obtain ⟨e, he⟩ := Int.eq_ofNat_of_zero_le h0
  obtain ⟨D, hD⟩ : ∃ D, D = 2 ^ w.tpTurnLength := ⟨_, rfl⟩
  have hDZ : (2 : Int) ^ w.tpTurnLength = D := by
    rw [hD]
    rfl
  have hDpos : 0 < D := hD ▸ Nat.two_pow_pos _
  have hbegin : ∀ u, w.begin_ u = (u * D : Nat) := by
    intro u
    simp [begin_, hw, hDZ]
  have hlen : ∀ u, w.len u = D := by
    intro u
    simp [len, hw, hDZ]
  have hplace : w.place numPids clock = (e % D + D * (e / D % numPids) : Nat) := by
    rw [place, round, hbegin, he, Nat.mul_comm, ← Nat.mod_mul]
    rfl
  have hpid : w.getCurrentPID numPids clock = e / D % numPids := by
    have h1 := Nat.mod_le (e / D) numPids
    have h2 := Nat.div_le_self e D
    simp only [getCurrentPID, hw, Bool.false_eq_true, if_false, hnow, he, hDZ]
    exact uint32_eq rfl (by omega)
  have hmod := Nat.mod_lt e hDpos
  have hdm := Nat.div_add_mod e D
  refine onSchedule_of_owner (fun u => by rw [hlen]; omega) (hpid ▸ Nat.mod_lt _ hn) ?_ ?_
  · rw [hpid, hbegin, hplace, hlen, Nat.mul_comm D]
    omega
  · have hturn : w.turnBegin numPids clock = e / D * D := by
      have h1 : e / D * D ≤ e := Nat.div_mul_le_self e D
      simp only [turnBegin, hw, Bool.false_eq_true, if_false, hnow, he, hDZ]
      have h2 := uint64_of_lt (x := ((e / D * D : Nat) : Int)) (by omega) (by omega)
      exact_mod_cast h2
    rw [hturn, hpid, hbegin, hplace, he, Nat.mul_comm D, Nat.mul_comm (e / D)]
    omega

/-! ## Turns of two lengths -/

section Diff

variable (hw : w.diffPeriod = true) (hn : numPids = 2 ∨ numPids = 3 ∨ numPids = 4) (hp0 : 0 < w.p0Period)
  (hp1 : 0 < w.p1Period) (hround : w.round numPids < 2 ^ 31)

include hw

theorem begin_diff {u : Nat} (hu : u ≠ 0) : w.begin_ u = w.p0Period + (u - 1) * w.p1Period := by
  rw [begin_, if_pos hw, if_neg hu]

include hn

theorem round_diff : w.round numPids = w.p0Period + (numPids - 1) * w.p1Period := begin_diff hw (by omega)

include hp0 hp1

theorem place_bounds (h0 : 0 ≤ w.elapsed clock) : 0 ≤ w.place numPids clock ∧ w.place numPids clock < w.round numPids ∧
    w.place numPids clock ≤ w.elapsed clock := by
  have hpos : 0 < w.round numPids := by
    rw [round_diff hw hn]
    rcases hn with rfl | rfl | rfl <;> norm_num <;> omega
  refine ⟨Int.emod_nonneg _ hpos.ne', Int.emod_lt_of_pos _ hpos, ?_⟩
  have h1 := Int.mul_nonneg hpos.le (Int.ediv_nonneg h0 hpos.le)
  rw [place, Int.emod_def]
  omega

/-- The pid by comparisons, as three and four pids have it. -/
theorem getCurrentPID_diff (hround : w.round numPids < 2 ^ 31) (h : w.InTime numPids clock) :
    w.getCurrentPID numPids clock =
      if w.place numPids clock < w.p0Period then 0
      else if w.place numPids clock < w.p0Period + w.p1Period then 1
      else if w.place numPids clock < w.p0Period + 2 * w.p1Period then 2
      else 3 := by
  obtain ⟨h0, hlt, htwo⟩ := h
  obtain ⟨hr0, hr1, -⟩ := place_bounds hw hn hp0 hp1 h0
  have htmod : (w.elapsed clock).tmod (w.round numPids) = w.place numPids clock := Int.tmod_eq_emod_of_nonneg h0
  rw [round_diff hw hn] at htmod hround hr1
  have hnow := currentClockCycle_eq h0 hlt
  have htwo := htwo hw
  generalize w.place numPids clock = r at *
  unfold getCurrentPID
  rw [if_pos hw, hnow]
  rcases hn with rfl | rfl | rfl
  · have hsum : w.p0Period + (((2 : Nat) : Int) - 1) * w.p1Period = w.p0Period + w.p1Period := by norm_num
    rw [hsum] at htmod hr1
    rw [if_pos rfl, htmod, Int.tdiv_eq_ediv_of_nonneg hr0]
    by_cases hlow : r < w.p0Period
    · rw [if_pos hlow, Int.ediv_eq_zero_of_lt hr0 hlow]
      rfl
    · have hone : r / w.p0Period = 1 := by
        refine Int.le_antisymm (Int.lt_add_one_iff.1 ?_) ?_
        · rw [Int.ediv_lt_iff_lt_mul hp0]
          omega
        · rw [Int.le_ediv_iff_mul_le hp0]
          omega
      rw [if_neg hlow, if_pos hr1, hone]
      rfl
  · have hsum : w.p0Period + (((3 : Nat) : Int) - 1) * w.p1Period = w.p0Period + 2 * w.p1Period := by norm_num
    rw [hsum] at htmod hr1 hround
    have h1 := uint64_of_lt hr0 (by omega)
    have h2 := uint64_of_lt (x := w.p0Period) (by omega) (by omega)
    have h3 := uint64_of_lt (x := w.p0Period + w.p1Period) (by omega) (by omega)
    rw [if_neg (by decide), if_pos rfl, htmod, if_pos hr1]
    dsimp only
    congr 1
    · exact propext (by omega)
    · congr 1
      exact propext (by omega)
  · have hsum : w.p0Period + (((4 : Nat) : Int) - 1) * w.p1Period = w.p0Period + 3 * w.p1Period := by norm_num
    rw [hsum] at htmod hr1 hround
    have h1 := uint64_of_lt hr0 (by omega)
    have h2 := uint64_of_lt (x := w.p0Period) (by omega) (by omega)
    have h3 := uint64_of_lt (x := w.p0Period + w.p1Period) (by omega) (by omega)
    have h4 := uint64_of_lt (x := w.p0Period + 2 * w.p1Period) (by omega) (by omega)
    rw [if_neg (by decide), if_neg (by decide), if_pos rfl, htmod]
    dsimp only
    congr 1
    · exact propext (by omega)
    · congr 1
      · exact propext (by omega)
      · congr 1
        exact propext (by omega)

theorem turnBegin_diff (h0 : 0 ≤ w.elapsed clock) (hlt : w.elapsed clock < 2 ^ 31)
    (hown : w.begin_ (w.getCurrentPID numPids clock) ≤ w.place numPids clock) :
    (w.turnBegin numPids clock : Int) =
      w.elapsed clock - w.place numPids clock + w.begin_ (w.getCurrentPID numPids clock) := by
  obtain ⟨hr0, -, hle⟩ := place_bounds hw hn hp0 hp1 h0
  have htmod : (w.elapsed clock).tmod (w.round numPids) = w.place numPids clock := Int.tmod_eq_emod_of_nonneg h0
  rw [round_diff hw hn] at htmod
  unfold turnBegin
  rw [if_pos hw, currentClockCycle_eq h0 hlt, htmod]
  by_cases hpid : w.getCurrentPID numPids clock = 0
  · have hb : w.begin_ 0 = 0 := by rw [begin_, if_pos hw, if_pos rfl]
    rw [if_pos hpid, uint64_of_lt (by omega) (by omega), hpid, hb]
    omega
  · have hpos : 0 ≤ w.begin_ (w.getCurrentPID numPids clock) := by
      rw [begin_diff hw hpid]
      have : 0 ≤ ((w.getCurrentPID numPids clock : Int) - 1) * w.p1Period := Int.mul_nonneg (by omega) hp1.le
      omega
    rw [if_neg hpid, ← begin_diff hw hpid, uint32_of_lt (by omega) (by omega)]
    omega

theorem diff_onSchedule (hround : w.round numPids < 2 ^ 31) (h : w.InTime numPids clock) :
    w.OnSchedule numPids clock := by
  have hpid := getCurrentPID_diff hw hn hp0 hp1 hround h
  obtain ⟨hr0, hr1, -⟩ := place_bounds hw hn hp0 hp1 h.1
  have hlen : ∀ u, 0 ≤ w.len u := by
    intro u
    rw [len, if_pos hw]
    split <;> omega
  have hown : w.getCurrentPID numPids clock < numPids ∧
      w.begin_ (w.getCurrentPID numPids clock) ≤ w.place numPids clock ∧
      w.place numPids clock < w.begin_ (w.getCurrentPID numPids clock) + w.len (w.getCurrentPID numPids clock) := by
    rw [round_diff hw hn] at hr1
    generalize w.getCurrentPID numPids clock = pid at *
    generalize w.place numPids clock = r at *
    subst hpid
    simp only [begin_, len, hw, if_true]
    rcases hn with rfl | rfl | rfl <;> norm_num at hr1 ⊢ <;> split_ifs <;> simp_all <;> omega
  exact onSchedule_of_owner hlen hown.1 hown.2 (turnBegin_diff hw hn hp0 hp1 h.1 h.2.1 hown.2.1)

end Diff

/-! ## Cycles that do not fit -/

theorem OnSchedule.turnBegin_le (h : w.OnSchedule numPids clock) :
    (w.turnBegin numPids clock : Int) ≤ w.elapsed clock := by
  have h1 := ((h.owner _ h.pid_lt).1 rfl).1
  rw [h.begins]
  omega

/-- Before the offset the begin of the turn would be negative. -/
theorem OnSchedule.elapsed_nonneg (h : w.OnSchedule numPids clock) : 0 ≤ w.elapsed clock :=
  (Int.natCast_nonneg _).trans h.turnBegin_le

theorem currentClockCycle_wrapped (h : w.elapsed clock = 2 ^ 31) : w.currentClockCycle clock = -2 ^ 31 := by
  show int32 (w.elapsed clock) = _
  rw [h]
  decide

theorem lt_uint64_of_neg {x : Int} (h : x < 0) (hx : -2 ^ 31 ≤ x) : 2 ^ 31 < uint64 x := by
  unfold uint64
  omega

/-- The first cycle that does not fit counts as the most negative one. -/
theorem not_onSchedule_wrapped (hv : w.Valid numPids) (h : w.elapsed clock = 2 ^ 31) :
    ¬w.OnSchedule numPids clock := by
  intro hs
  have hle := hs.turnBegin_le
  have hnow := currentClockCycle_wrapped h
  by_cases hw : w.diffPeriod = true
  · obtain ⟨hn, hp0, hp1, hround⟩ := hv.diff hw
    have hpos : 0 < w.round numPids := by
      rw [round_diff hw hn]
      rcases hn with rfl | rfl | rfl <;> norm_num <;> omega
    -- what is cleared of the count is at least one whole round
    have hq := Int.mul_tdiv_add_tmod (-2 ^ 31) (w.round numPids)
    have hrest : -w.round numPids < (-2 ^ 31 : Int).tmod (w.round numPids) := Int.lt_tmod_of_pos _ hpos
    have hrest0 : (-2 ^ 31 : Int).tmod (w.round numPids) ≤ 0 := by
      have := Int.tmod_nonneg (a := 2 ^ 31) (w.round numPids) (by decide)
      rw [Int.neg_tmod]
      omega
    have hmul : w.round numPids * (-2 ^ 31 : Int).tdiv (w.round numPids) ≤ -w.round numPids := by
      have hneg : (-2 ^ 31 : Int).tdiv (w.round numPids) < 0 := by
        by_contra hge
        have := Int.mul_nonneg hpos.le (not_lt.1 hge)
        omega
      have := Int.mul_le_mul_of_nonneg_left (Int.le_sub_one_iff.2 hneg) hpos.le
      omega
    unfold turnBegin at hle
    rw [if_pos hw, hnow, ← round_diff hw hn] at hle
    by_cases hpid : w.getCurrentPID numPids clock = 0
    · rw [if_pos hpid] at hle
      have := lt_uint64_of_neg (x := -2 ^ 31 - (-2 ^ 31 : Int).tmod (w.round numPids)) (by omega) (by omega)
      omega
    · rw [if_neg hpid, ← begin_diff hw hpid] at hle
      have hb0 : 0 < w.begin_ (w.getCurrentPID numPids clock) := by
        rw [begin_diff hw hpid]
        have : 0 ≤ ((w.getCurrentPID numPids clock : Int) - 1) * w.p1Period := Int.mul_nonneg (by omega) hp1.le
        omega
      have hb1 : w.begin_ (w.getCurrentPID numPids clock) < w.round numPids := by
        have h1 := ((hs.owner _ hs.pid_lt).1 rfl).1
        exact lt_of_le_of_lt h1 (Int.emod_lt_of_pos _ hpos)
      generalize w.begin_ (w.getCurrentPID numPids clock) = b at *
      generalize (-2 ^ 31 : Int).tmod (w.round numPids) = r at *
      unfold uint32 at hle
      omega
  · have hw' : w.diffPeriod = false := by simpa using hw
    obtain ⟨-, hk⟩ := hv.plain hw'
    have hdvd : (2 : Int) ^ w.tpTurnLength ∣ -2 ^ 31 := Int.dvd_neg.2 (pow_dvd_pow 2 (by omega))
    have hturn : w.turnBegin numPids clock = uint64 (-2 ^ 31) := by
      simp only [turnBegin, hw', Bool.false_eq_true, if_false, hnow]
      rw [Int.ediv_mul_cancel hdvd]
    have := lt_uint64_of_neg (x := -2 ^ 31) (by decide) (by decide)
    omega

/-- With two pids the quotient is a pid only in the first `2 * p0Period` cycles. -/
theorem OnSchedule.place_lt (hs : w.OnSchedule numPids clock) (hv : w.Valid numPids) (hlt : w.elapsed clock < 2 ^ 31)
    (hw : w.diffPeriod = true) (hn : numPids = 2) : w.place numPids clock < 2 * w.p0Period := by
  obtain ⟨hn', hp0, hp1, hround⟩ := hv.diff hw
  have h0 := hs.elapsed_nonneg
  obtain ⟨hr0, hr1, -⟩ := place_bounds hw hn' hp0 hp1 h0
  have htmod : (w.elapsed clock).tmod (w.round numPids) = w.place numPids clock := Int.tmod_eq_emod_of_nonneg h0
  have hpid := hs.pid_lt
  subst hn
  have hsum : w.round 2 = w.p0Period + w.p1Period := by
    rw [round_diff hw (.inl rfl)]
    norm_num
  have hq : ((w.getCurrentPID 2 clock : Nat) : Int) = w.place 2 clock / w.p0Period := by
    have hle := Int.ediv_le_self w.p0Period hr0
    have hge := Int.ediv_nonneg hr0 hp0.le
    unfold getCurrentPID
    rw [if_pos hw, if_pos rfl, currentClockCycle_eq h0 hlt, ← hsum, htmod, Int.tdiv_eq_ediv_of_nonneg hr0]
    exact uint32_of_lt hge (by omega)
  have h2 : w.place 2 clock / w.p0Period < 2 := by omega
  rwa [Int.ediv_lt_iff_lt_mul hp0] at h2

/-! ## The schedule -/

/-- Cycles in time are on schedule, and no other cycle up to 2^31 cycles after the
offset is.  The schedule repeats after every round. -/
theorem onSchedule_iff (w : Turns) (numPids : Nat) (hv : w.Valid numPids) :
    (∀ clock, w.InTime numPids clock → w.OnSchedule numPids clock) ∧
      (∀ clock, w.elapsed clock ≤ 2 ^ 31 → (w.OnSchedule numPids clock ↔ w.InTime numPids clock)) ∧
      ∀ clock clock', w.InTime numPids clock → w.InTime numPids clock' →
        (clock : Int) % w.round numPids = clock' % w.round numPids →
        w.getCurrentPID numPids clock = w.getCurrentPID numPids clock' := by
  have hin : ∀ clock, w.InTime numPids clock → w.OnSchedule numPids clock := by
    intro clock h
    by_cases hw : w.diffPeriod = true
    · obtain ⟨hn, hp0, hp1, hround⟩ := hv.diff hw
      exact diff_onSchedule hw hn hp0 hp1 hround h
    · have hw' : w.diffPeriod = false := by simpa using hw
      exact plain_onSchedule hw' (hv.plain hw').1 h.1 h.2.1
  refine ⟨hin, fun clock hle => ⟨fun hs => ?_, hin clock⟩, fun clock clock' h h' hmod => ?_⟩
  · have hlt : w.elapsed clock < 2 ^ 31 :=
      lt_of_le_of_ne hle fun he => not_onSchedule_wrapped hv he hs
    exact ⟨hs.elapsed_nonneg, hlt, hs.place_lt hv hlt⟩
  · have hplace : w.place numPids clock = w.place numPids clock' := by
      rw [place, place, elapsed, elapsed, Int.sub_emod, hmod, ← Int.sub_emod]
    have hs := hin clock h
    have hs' := hin clock' h'
    have hown := (hs.owner _ hs.pid_lt).1 rfl
    rw [hplace] at hown
    exact ((hs'.owner _ hs.pid_lt).2 hown).symm

/-- Three pids, the first with turns of four cycles and the others with turns of six:
cycle 27 is the second of pid 1 in the second round. -/
theorem onSchedule_iff_three :
    let w : Turns := { tpTurnLength := 0, diffPeriod := true, p0Period := 4, p1Period := 6, offset := 6 };
    w.getCurrentPID 3 27 = 1 ∧ w.turnBegin 3 27 = 20 ∧ w.OnSchedule 3 27 := by
  intro w
  exact ⟨by decide, by decide, (onSchedule_iff w 3 ⟨fun _ => by decide, nofun⟩).1 27 (by decide)⟩

end DynamicCache.Dram.Turns
