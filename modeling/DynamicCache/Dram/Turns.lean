import DynamicCache.Dram.Controller
import Mathlib.Tactic.Linarith
import Mathlib.Tactic.NormNum
import Mathlib.Tactic.Ring

/-!
# Turns of temporal partitioning (`CommandQueueTP::getCurrentPID`, `isBufferTime`)

The pids take turns of `2^tpTurnLength` cycles, or of `p0Period` and `p1Period`
cycles.  At the end of a turn no `ACTIVATE` is sent (dead time).  The arithmetic is
that of the source: `_currentClockCycle` is an `int`, turn lengths are `unsigned`,
dead times are computed as `unsigned`, returned as `int` and compared as
`uint64_t`.
-/

namespace DynamicCache.Dram

def int32 (x : Int) : Int := Int.bmod x (2 ^ 32)

def uint32 (x : Int) : Nat := (x % 2 ^ 32).toNat

def uint64 (x : Int) : Nat := (x % 2 ^ 64).toNat

/-- The turn parameters of `CommandQueueTP`, and what `anyr_refresh` is computed
from: `REFRESH_PERIOD` in ns and `tCK` in ps. -/
structure Turns where
  tpTurnLength : Nat
  diffPeriod : Bool := false
  p0Period : Int := 0
  p1Period : Int := 0
  offset : Int := 0
  refreshPeriod : Nat := 7800
  tCK : Nat := 1500

namespace Turns

variable (w : Turns) (numPids numRanks clock : Nat)

/-- `_currentClockCycle` -/
def currentClockCycle : Int := int32 (clock - w.offset)

def getCurrentPID : Nat :=
  let now := w.currentClockCycle clock
  if w.diffPeriod then
    if numPids = 2 then uint32 ((now.tmod (w.p0Period + w.p1Period)).tdiv w.p0Period)
    else if numPids = 3 then
      let remainder := uint64 (now.tmod (w.p0Period + 2 * w.p1Period))
      if remainder < uint64 w.p0Period then 0
      else if remainder < uint64 (w.p0Period + w.p1Period) then 1
      else 2
    else if numPids = 4 then
      let remainder := uint64 (now.tmod (w.p0Period + 3 * w.p1Period))
      if remainder < uint64 w.p0Period then 0
      else if remainder < uint64 (w.p0Period + w.p1Period) then 1
      else if remainder < uint64 (w.p0Period + 2 * w.p1Period) then 2
      else 3
    else 0
  else uint32 ((now / 2 ^ w.tpTurnLength).tmod numPids)

/-- `tlength` in `isBufferTime` -/
def tlength : Nat :=
  if w.diffPeriod then
    if w.getCurrentPID numPids clock = 0 then uint32 w.p0Period else uint32 w.p1Period
  else uint32 (2 ^ w.tpTurnLength)

/-- `turnBegin` in `isBufferTime`; `_currentClockCycle & (-1<<tpTurnLength)` clears
the lower bits. -/
def turnBegin : Nat :=
  let now := w.currentClockCycle clock
  if w.diffPeriod then
    let pid := w.getCurrentPID numPids clock
    let rest := now.tmod (w.p0Period + (numPids - 1) * w.p1Period)
    if pid = 0 then uint64 (now - rest)
    else uint32 (now - (rest - (w.p0Period + (pid - 1) * w.p1Period)))
  else uint64 (now / 2 ^ w.tpTurnLength * 2 ^ w.tpTurnLength)

/-- `REFRESH_PERIOD/NUM_RANKS/tCK` -/
def anyrRefresh : Nat := w.refreshPeriod / numRanks * 1000 / w.tCK

/-- `isBufferTime`, with the dead times of the class. -/
def isBufferTime (normalDeadtime refreshDeadtime : Nat → Int) : Bool :=
  let now := w.currentClockCycle clock
  let tlength := w.tlength numPids clock
  let turnBegin := w.turnBegin numPids clock
  let begin_ := uint64 (turnBegin + w.offset)
  let anyr := w.anyrRefresh numRanks
  -- whether there will be a refresh during this turn
  let deadTime := uint64 <|
    if int32 (begin_ / anyr : Nat) < int32 (uint64 (begin_ + tlength - 1) / anyr : Nat) then
      refreshDeadtime tlength
    else normalDeadtime tlength
  if w.diffPeriod then uint64 (tlength - (now - turnBegin)) ≤ deadTime
  else uint32 (tlength - (uint32 now &&& (tlength - 1) : Nat)) ≤ deadTime

end Turns

/-- `tlength - (tlength - delay)/10`, computed as `unsigned` and returned as `int`. -/
def tenPercentDeadtime (delay tlength : Nat) : Int :=
  int32 (uint32 (tlength - (uint32 ((tlength : Int) - delay) / 10 : Nat)))

/-! ## Turns of `2^tpTurnLength` cycles -/

theorem uint32_int32 (x : Int) : uint32 (int32 x) = uint32 x := by
  unfold uint32 int32
  rw [show ((2 : Int) ^ 32) = ((2 ^ 32 : Nat) : Int) by norm_cast, Int.bmod_emod]

/-- The lower bits do not depend on the wrap to 32 bits. -/
theorem uint32_and_eq {x : Int} {k : Nat} (hk : k < 32) :
    ((uint32 (int32 x) &&& (2 ^ k - 1) : Nat) : Int) = x % 2 ^ k := by
  have hdvd : (2 : Int) ^ k ∣ 2 ^ 32 := pow_dvd_pow 2 (by omega)
  have hpos : (0 : Int) < 2 ^ 32 := by norm_num
  have hnat : (uint32 x : Int) = x % 2 ^ 32 := Int.toNat_of_nonneg (Int.emod_nonneg _ hpos.ne')
  rw [uint32_int32, Nat.and_two_pow_sub_one_eq_mod, Int.natCast_mod, hnat]
  exact_mod_cast Int.emod_emod_of_dvd x hdvd

/-- The wrap to 32 bits does not separate two cycles of one turn. -/
theorem int32_ediv_congr {x y : Int} {k : Nat} (hk : k < 32) (h : x / 2 ^ k = y / 2 ^ k) :
    int32 x / 2 ^ k = int32 y / 2 ^ k := by
  have hform : ∀ z : Int, int32 z / 2 ^ k =
      if z / 2 ^ k % 2 ^ (32 - k) < 2 ^ (31 - k) then z / 2 ^ k % 2 ^ (32 - k)
      else z / 2 ^ k % 2 ^ (32 - k) - 2 ^ (32 - k) := by
    intro z
    have hD : (0 : Int) < 2 ^ k := by positivity
    have hE : (2 : Int) ^ (32 - k) = 2 * 2 ^ (31 - k) := by
      rw [show 32 - k = 31 - k + 1 by omega, pow_succ]
      ring
    have hDE : (2 : Int) ^ 32 = 2 ^ k * 2 ^ (32 - k) := by
      rw [← pow_add]
      congr 1
      omega
    set D : Int := 2 ^ k with hDdef
    set E : Int := 2 ^ (32 - k) with hEdef
    set F : Int := 2 ^ (31 - k)
    have hr0 := Int.emod_nonneg z hD.ne'
    have hr1 := Int.emod_lt_of_pos z hD
    -- the wrapped value, by quotient and remainder
    have hz : z % (D * E) = D * (z / D % E) + z % D := by
      have h1 := Int.emod_def z (D * E)
      have h2 : z / (D * E) = z / D / E := Int.ediv_mul_of_nonneg hD.le
      have h3 := Int.emod_def (z / D) E
      have h4 := Int.emod_def z D
      rw [h1, h2, h3, h4]
      ring
    have hlt : z % (D * E) < D * F ↔ z / D % E < F := by
      constructor
      · intro hl
        by_contra hn
        have := mul_le_mul_of_nonneg_left (not_lt.1 hn) hD.le
        linarith
      · intro hl
        have := mul_le_mul_of_nonneg_left (Int.add_one_le_iff.2 hl) hD.le
        linarith
    have hbmod : int32 z = if z / D % E < F then D * (z / D % E) + z % D
        else D * (z / D % E) + z % D - D * E := by
      unfold int32 Int.bmod
      rw [show ((2 ^ 32 : Nat) : Int) = D * E by rw [← hDE]; norm_cast]
      have hhalf : (D * E + 1) / 2 = D * F := by
        rw [hE, show D * (2 * F) + 1 = 1 + D * F * 2 by ring, Int.add_mul_ediv_right _ _ (by decide)]
        norm_num
      rw [hhalf]
      by_cases hc : z / D % E < F
      · rw [if_pos (hlt.2 hc), if_pos hc, hz]
      · rw [if_neg (mt hlt.1 hc), if_neg hc, hz]
    rw [hbmod]
    split
    · rw [Int.add_comm, Int.add_mul_ediv_left _ _ hD.ne', Int.ediv_eq_zero_of_lt hr0 hr1, zero_add]
    · rw [show D * (z / D % E) + z % D - D * E = z % D + D * (z / D % E - E) by ring,
        Int.add_mul_ediv_left _ _ hD.ne', Int.ediv_eq_zero_of_lt hr0 hr1, zero_add]
  rw [hform, hform, h]

theorem uint32_of_lt {x : Int} (h0 : 0 ≤ x) (h : x < 2 ^ 32) : (uint32 x : Int) = x := by
  unfold uint32
  omega

theorem uint64_int32_of_lt {n : Nat} (h : n < 2 ^ 31) : uint64 (int32 n) = n := by
  unfold uint64 int32 Int.bmod
  dsimp only
  split <;> omega

/-- Dead times beyond the range of `int` are never over. -/
theorem le_uint64_int32_of_ge {n : Nat} (h : 2 ^ 31 ≤ n) (hn : n < 2 ^ 32) :
    2 ^ 32 ≤ uint64 (int32 n) := by
  unfold uint64 int32 Int.bmod
  dsimp only
  split <;> omega

/-- An `ACTIVATE` is sent in the first tenth of the time the turn has beyond `delay`. -/
theorem lt_of_tenPercentDeadtime_lt {delay tlength off : Nat} (hd : delay ≤ 1000)
    (ht : tlength ≤ 2 ^ 31) (ho : off < tlength)
    (h : uint64 (tenPercentDeadtime delay tlength) < uint32 ((tlength : Int) - off)) :
    10 * off + 10 + delay ≤ tlength := by
  have hoff : (uint32 ((tlength : Int) - off) : Int) = (tlength : Int) - off :=
    uint32_of_lt (by omega) (by omega)
  unfold tenPercentDeadtime at h
  by_cases hle : delay ≤ tlength
  · have h1 : (uint32 ((tlength : Int) - delay) : Int) = (tlength : Int) - delay :=
      uint32_of_lt (by omega) (by omega)
    have h2 : (uint32 ((tlength : Int) - (uint32 ((tlength : Int) - delay) / 10 : Nat)) : Int) =
        (tlength : Int) - (uint32 ((tlength : Int) - delay) / 10 : Nat) :=
      uint32_of_lt (by omega) (by omega)
    by_cases hv : uint32 ((tlength : Int) - (uint32 ((tlength : Int) - delay) / 10 : Nat)) < 2 ^ 31
    · rw [uint64_int32_of_lt hv] at h
      omega
    · have := le_uint64_int32_of_ge (Nat.le_of_not_lt hv) (by omega)
      omega
  · -- the subtraction wraps: it is always dead time
    have h1 : uint32 ((tlength : Int) - delay) = 2 ^ 32 + tlength - delay := by
      unfold uint32
      omega
    have h2 : uint32 ((tlength : Int) - (uint32 ((tlength : Int) - delay) / 10 : Nat)) =
        2 ^ 32 + tlength - uint32 ((tlength : Int) - delay) / 10 := by
      unfold uint32
      omega
    have := le_uint64_int32_of_ge
      (n := uint32 ((tlength : Int) - (uint32 ((tlength : Int) - delay) / 10 : Nat)))
      (by omega) (by omega)
    omega

section Plain

variable {w : Turns} {numPids numRanks : Nat}

theorem getCurrentPID_congr (hw : w.diffPeriod = false) (hk : w.tpTurnLength < 32) {a b : Nat}
    (h : ((a : Int) - w.offset) / 2 ^ w.tpTurnLength = ((b : Int) - w.offset) / 2 ^ w.tpTurnLength) :
    w.getCurrentPID numPids a = w.getCurrentPID numPids b := by
  simp only [Turns.getCurrentPID, hw, Bool.false_eq_true, if_false, Turns.currentClockCycle,
    int32_ediv_congr hk h]

/-- Outside the dead time, one of the two dead times is not reached. -/
theorem lt_of_isBufferTime_eq_false (hw : w.diffPeriod = false) (hk : w.tpTurnLength < 32)
    {clock off : Nat} (hoff : ((clock : Int) - w.offset) % 2 ^ w.tpTurnLength = off)
    {normal refresh : Nat → Int}
    (h : w.isBufferTime numPids numRanks clock normal refresh = false) :
    uint64 (normal (2 ^ w.tpTurnLength)) < uint32 ((2 ^ w.tpTurnLength : Nat) - (off : Int)) ∨
      uint64 (refresh (2 ^ w.tpTurnLength)) < uint32 ((2 ^ w.tpTurnLength : Nat) - (off : Int)) := by
  have hlen : w.tlength numPids clock = 2 ^ w.tpTurnLength := by
    have hlt : (2 : Nat) ^ w.tpTurnLength < 2 ^ 32 := Nat.pow_lt_pow_right (by decide) hk
    have := uint32_of_lt (x := ((2 ^ w.tpTurnLength : Nat) : Int)) (by positivity)
      (by exact_mod_cast hlt)
    simp only [Turns.tlength, hw, Bool.false_eq_true, if_false]
    exact_mod_cast this
  simp only [Turns.isBufferTime, hw, Bool.false_eq_true, if_false, hlen, Turns.currentClockCycle,
    uint32_and_eq hk, hoff, decide_eq_false_iff_not, not_le] at h
  split at h
  · exact .inr h
  · exact .inl h

end Plain

end DynamicCache.Dram
