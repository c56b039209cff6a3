import DynamicCache.Lib.Rota
import Mathlib.Tactic.Linarith
import Mathlib.Tactic.LinearCombination
import Mathlib.Tactic.Ring

/-!
# Turns of the round-robin bus (`rr_bus.cc`, `clocked_object.hh`)

Time is divided among `numPids` threads, `tl` clock cycles each, beginning
`offset` cycles after time zero.  `activeId` is the owner of the next clock edge,
`turnBegin` the begin of a thread's turn in the current period and
`calcFinishTime` the edge at which `dataSize` cycles of a thread are over.
Ticks are 64-bit and wrap; `num_pids*tl` is an `int` in the source and has to fit.

The turns of a thread are a `Rota`: `calcFinishTime` is the slot `dataSize` further on
(`elapsed_eq`), and `tryTiming` lets a rejected thread try again when its next turn begins
(`retryTime_eq`).  Once the first turn has begun (`Started`) both ticks lie in the thread's
turn (`activeId_calcFinishTime`, `activeId_retryTime`).
-/

namespace DynamicCache.Bus

open Lib

/-- Parameters of a bus layer. -/
structure Params where
  numPids : Nat
  tl : Nat
  offset : Int
  clock : Nat
  numPids_pos : 0 < numPids
  tl_pos : 0 < tl
  clock_pos : 0 < clock

/-- Wraps a computed tick to 64 bits. -/
def wrap64 (x : Int) : Nat := (x % 2 ^ 64).toNat

theorem wrap64_natCast {x : Nat} (h : x < 2 ^ 64) : wrap64 (x : Int) = x := by
  unfold wrap64
  rw [Int.emod_eq_of_lt (by omega) (by omega)]
  rfl

namespace Params

variable (p : Params)

/-- Cycles of one round of turns. -/
def period : Nat := p.numPids * p.tl

/-- The next clock edge at or after `tick`. -/
def nextCycle (tick : Nat) : Nat := (tick + p.clock - 1) / p.clock * p.clock

/-- `nextCycle() - offset*clock` -/
def sinceOffset (tick : Nat) : Nat := wrap64 (p.nextCycle tick - p.offset * p.clock)

/-- The place of the next edge in its round, as `active_id` and `turn_begin` see it. -/
def phase (tick : Nat) : Nat := p.sinceOffset tick / p.clock % p.period

def activeId (tick : Nat) : Nat := p.phase tick / p.tl

def turnBegin (tick threadID : Nat) : Nat :=
  wrap64 (p.sinceOffset tick - p.phase tick * p.clock + threadID * p.tl * p.clock + p.offset * p.clock)

/-- The tick at which `tryTiming` schedules the retry of a thread whose turn it
is not. -/
def retryTime (tick threadID : Nat) : Nat :=
  let t := p.turnBegin tick threadID
  if t < p.nextCycle tick then wrap64 (t + p.clock * p.numPids * p.tl) else t

/-- What `calcFinishTime` adds `offset*clock` to. -/
def elapsed (tick threadID dataSize : Nat) : Int :=
  let now : Int := p.sinceOffset tick
  let remaining : Int := p.tl - 1 - p.phase tick + threadID * p.tl
  if remaining ≥ dataSize then now + dataSize * p.clock
  else
    let numTurns := (dataSize - remaining).tdiv p.tl
    let remainingData := (dataSize - remaining).tmod p.tl
    if remainingData = 0 then now + remaining * p.clock + p.numPids * numTurns * p.tl * p.clock
    else
      now + remaining * p.clock + p.numPids * numTurns * p.tl * p.clock + (p.numPids - 1) * p.tl * p.clock +
        remainingData * p.clock

def calcFinishTime (tick threadID dataSize : Nat) : Nat :=
  wrap64 (p.elapsed tick threadID dataSize + p.offset * p.clock)

theorem period_pos : 0 < p.period := Nat.mul_pos p.numPids_pos p.tl_pos

theorem activeId_lt (tick : Nat) : p.activeId tick < p.numPids := by
  refine Nat.div_lt_of_lt_mul ?_
  rw [Nat.mul_comm]
  exact Nat.mod_lt _ p.period_pos

/-! ## Edges and cycles -/

variable {p} {tick c t : Nat}

theorem nextCycle_of_dvd {e : Nat} (h : p.clock ∣ e) : p.nextCycle e = e := by
  obtain ⟨b, rfl⟩ := h
  have := p.clock_pos
  rw [nextCycle, Nat.add_sub_assoc p.clock_pos, Nat.mul_add_div p.clock_pos, Nat.div_eq_of_lt (by omega),
    Nat.add_zero, Nat.mul_comm]

theorem dvd_nextCycle (tick : Nat) : p.clock ∣ p.nextCycle tick := Nat.dvd_mul_left ..

theorem le_nextCycle (tick : Nat) : tick ≤ p.nextCycle tick := by
  have h1 := Nat.div_add_mod (tick + p.clock - 1) p.clock
  have h2 := Nat.mod_lt (tick + p.clock - 1) p.clock_pos
  rw [nextCycle, Nat.mul_comm]
  omega

theorem nextCycle_mono : Monotone p.nextCycle := fun _ _ h =>
  Nat.mul_le_mul_right _ (Nat.div_le_div_right (by omega))

/-- An edge at or after the offset is the edge of a cycle. -/
theorem exists_cycle {e : Nat} (he : p.clock ∣ e) (h : p.offset * p.clock ≤ e) :
    ∃ c : Nat, (e : Int) = (c + p.offset) * p.clock := by
  obtain ⟨b, rfl⟩ := he
  have hclock : (0 : Int) < p.clock := by exact_mod_cast p.clock_pos
  have hb : p.offset ≤ b := by
    refine le_of_mul_le_mul_right ?_ hclock
    rwa [mul_comm (b : Int)]
  refine ⟨(b - p.offset).toNat, ?_⟩
  rw [Int.toNat_of_nonneg (by omega)]
  push_cast
  ring

theorem sinceOffset_cycle (h : (p.nextCycle tick : Int) = (c + p.offset) * p.clock)
    (hc : c * p.clock < 2 ^ 64) : p.sinceOffset tick = c * p.clock := by
  have hsub : (p.nextCycle tick : Int) - p.offset * p.clock = (c * p.clock : Nat) := by
    rw [h]
    push_cast
    ring
  rw [sinceOffset, hsub, wrap64_natCast hc]

theorem phase_cycle (h : (p.nextCycle tick : Int) = (c + p.offset) * p.clock) (hc : c * p.clock < 2 ^ 64) :
    p.phase tick = c % p.period := by
  rw [phase, sinceOffset_cycle h hc, Nat.mul_div_cancel _ p.clock_pos]

/-- The cycles of a thread, counted from the offset. -/
def rota (p : Params) (ht : t < p.numPids) : Rota where
  period := p.period
  begin_ := t * p.tl
  width := p.tl
  width_pos := p.tl_pos
  fits := by
    have := Nat.mul_le_mul_right p.tl (Nat.succ_le_of_lt ht)
    rwa [Nat.succ_mul] at this

theorem owner_iff (ht : t < p.numPids) : c % p.period / p.tl = t ↔ (p.rota ht).Owns c := by
  show _ ↔ t * p.tl ≤ c % p.period ∧ c % p.period < t * p.tl + p.tl
  rw [← Nat.succ_mul, ← Nat.le_div_iff_mul_le p.tl_pos, ← Nat.div_lt_iff_lt_mul p.tl_pos]
  omega

theorem activeId_cycle (h : (p.nextCycle tick : Int) = (c + p.offset) * p.clock) (hc : c * p.clock < 2 ^ 64)
    (ht : t < p.numPids) : p.activeId tick = t ↔ (p.rota ht).Owns c := by
  rw [activeId, phase_cycle h hc, owner_iff ht]

theorem activeId_edge {e : Nat} (h : (e : Int) = (c + p.offset) * p.clock) (hc : c * p.clock < 2 ^ 64)
    (ht : t < p.numPids) : p.activeId e = t ↔ (p.rota ht).Owns c := by
  have hdvd : p.clock ∣ e := Int.natCast_dvd_natCast.1 (h ▸ Dvd.intro_left _ rfl)
  exact activeId_cycle ((nextCycle_of_dvd hdvd).symm ▸ h) hc ht

/-! ## The end of a packet -/

/-- From slot `m` of the thread, `calcFinishTime` goes on to slot `m + dataSize`. -/
theorem elapsed_eq (ht : t < p.numPids) {m d : Nat} (hnow : p.sinceOffset tick = (p.rota ht).slot m * p.clock) :
    p.elapsed tick t d = ((p.rota ht).slot (m + d) * p.clock : Nat) := by
  have htl := p.tl_pos
  have hfits := (p.rota ht).fits
  -- slot `m` is cycle `j` of the turn in period `k`
  have hm := Nat.div_add_mod m p.tl
  have hj := Nat.mod_lt m htl
  rw [Nat.mul_comm] at hm
  generalize m / p.tl = k at hm
  generalize m % p.tl = j at hm hj
  subst hm
  have hslot : ∀ {k i : Nat}, i < p.tl → (p.rota ht).slot (k * p.tl + i) = k * p.period + (t * p.tl + i) :=
    fun hi => Rota.slot_mul_add hi
  rw [hslot hj] at hnow
  have hmod : p.phase tick = t * p.tl + j := by
    have hlt : t * p.tl + j < p.period := Nat.lt_of_lt_of_le (Nat.add_lt_add_left hj _) hfits
    rw [phase, hnow, Nat.mul_div_cancel _ p.clock_pos, Nat.mul_comm k, Nat.mul_add_mod, Nat.mod_eq_of_lt hlt]
  have hrem : (p.tl : Int) - 1 - ((t * p.tl + j : Nat) : Int) + t * p.tl = (p.tl - 1 - j : Nat) := by
    omega
  unfold elapsed
  rw [hmod, hrem, hnow]
  obtain ⟨rem, hr⟩ : ∃ rem, p.tl = j + rem + 1 := ⟨p.tl - 1 - j, by omega⟩
  rw [show p.tl - 1 - j = rem by omega]
  by_cases hfit : d ≤ rem
  · -- the rest of this turn is enough
    rw [if_pos (by omega), Nat.add_assoc (k * p.tl), hslot (show j + d < p.tl by omega)]
    push_cast
    ring
  · rw [if_neg (by omega)]
    obtain ⟨rest, rfl⟩ : ∃ rest, d = rem + rest := ⟨d - rem, by omega⟩
    have hsub : ((rem + rest : Nat) : Int) - (rem : Nat) = (rest : Nat) := by omega
    have hdm := Nat.div_add_mod rest p.tl
    have hlt := Nat.mod_lt rest htl
    rw [hsub, ← Int.ofNat_tdiv, ← Int.ofNat_tmod]
    generalize rest / p.tl = q at hdm
    generalize rest % p.tl = r at hdm hlt
    have htlZ : (p.tl : Int) = j + rem + 1 := by exact_mod_cast hr
    unfold period at hslot ⊢
    by_cases hr0 : r = 0
    · -- it ends with a turn, `q` periods later
      have hn : k * p.tl + j + (rem + rest) = (k + q) * p.tl + (p.tl - 1) := by
        rw [Nat.add_mul, Nat.mul_comm q]
        omega
      rw [if_pos (by omega), hn, hslot (show p.tl - 1 < p.tl by omega), show p.tl - 1 = j + rem by omega]
      push_cast
      ring
    · -- it ends `r` cycles into a turn, `q + 1` periods later
      have hn : k * p.tl + j + (rem + rest) = (k + q + 1) * p.tl + (r - 1) := by
        rw [Nat.add_mul, Nat.add_mul, Nat.mul_comm q]
        omega
      obtain ⟨r', rfl⟩ : ∃ r', r = r' + 1 := ⟨r - 1, by omega⟩
      rw [if_neg (by omega), hn, hslot (show r' + 1 - 1 < p.tl by omega), Nat.add_sub_cancel]
      push_cast
      linear_combination (-(p.clock : Int)) * htlZ

/-- As long as no tick overflows, the answer is the edge of that slot. -/
theorem calcFinishTime_slot (ht : t < p.numPids) {m d : Nat}
    (hnow : (p.nextCycle tick : Int) = ((p.rota ht).slot m + p.offset) * p.clock)
    (hslot : (p.rota ht).slot (m + d) * p.clock < 2 ^ 64)
    (hfin : ((p.rota ht).slot (m + d) + p.offset) * p.clock < 2 ^ 64) :
    (p.calcFinishTime tick t d : Int) = ((p.rota ht).slot (m + d) + p.offset) * p.clock ∧
      p.nextCycle tick + d * p.clock ≤ p.calcFinishTime tick t d := by
  have hmono : (p.rota ht).slot m * p.clock + d * p.clock ≤ (p.rota ht).slot (m + d) * p.clock := by
    rw [← Nat.add_mul, Nat.add_comm _ d, Nat.add_comm m]
    exact Nat.mul_le_mul_right _ (Rota.slot_strictMono.add_le_nat d m)
  have hel := elapsed_eq ht (d := d) (sinceOffset_cycle hnow (by omega))
  have hle : (p.nextCycle tick : Int) + d * p.clock ≤
      ((p.rota ht).slot (m + d) * p.clock : Nat) + p.offset * p.clock := by
    rw [hnow, add_mul]
    omega
  have heq : (p.calcFinishTime tick t d : Int) = ((p.rota ht).slot (m + d) + p.offset) * p.clock := by
    rw [add_mul] at hfin ⊢
    rw [calcFinishTime, hel, Nat.cast_mul, wrap64, Int.emod_eq_of_lt (by omega) hfin, Int.toNat_of_nonneg (by omega)]
  refine ⟨heq, ?_⟩
  rw [add_mul] at heq
  omega

/-! ## The next turn -/

/-- `turn_begin` goes back to the begin of the round and on to the turn. -/
theorem turnBegin_eq (tick t : Nat) :
    p.turnBegin tick t = wrap64 (p.nextCycle tick - p.phase tick * p.clock + t * p.tl * p.clock) := by
  unfold turnBegin wrap64
  congr 1
  have h : ((p.sinceOffset tick : Int)) % 2 ^ 64 = (p.nextCycle tick - p.offset * p.clock) % 2 ^ 64 := by
    show (((((p.nextCycle tick : Int) - p.offset * p.clock) % 2 ^ 64).toNat : Nat) : Int) % 2 ^ 64 = _
    rw [Int.toNat_of_nonneg (by omega), Int.emod_emod]
  generalize (p.sinceOffset tick : Int) = now at h
  generalize (p.phase tick : Int) * p.clock = x
  generalize (t : Int) * p.tl * p.clock = y
  generalize p.offset * p.clock = z at h
  omega

/-- Unless the turn began before time zero, the retry is when the next turn begins. -/
theorem retryTime_eq (ht : t < p.numPids) {a : Nat} (ha : p.nextCycle tick = a * p.clock) {x : Nat}
    (hx : p.phase tick = x % p.period) (hback : x % p.period ≤ a + t * p.tl)
    (hroom : (a + (p.rota ht).wait x) * p.clock < 2 ^ 64) :
    p.retryTime tick t = (a + (p.rota ht).wait x) * p.clock := by
  have hbegin : p.turnBegin tick t = wrap64 ((a + t * p.tl - x % p.period : Nat) * p.clock) := by
    rw [turnBegin_eq, ha, hx]
    push_cast [hback]
    congr 1
    ring
  have hmod : x % p.period < p.period := Nat.mod_lt _ p.period_pos
  unfold retryTime
  rw [hbegin, ha]
  rcases Nat.lt_or_ge (t * p.tl) (x % p.period) with h | h
  · -- this round's turn is over
    have hw : (p.rota ht).wait x = t * p.tl + (p.period - x % p.period) := Rota.wait_of_lt h
    have hsum : (a + (p.rota ht).wait x) * p.clock = (a + t * p.tl - x % p.period) * p.clock + p.period * p.clock := by
      rw [hw, ← Nat.add_mul]
      congr 1
      omega
    have hlt : (a + t * p.tl - x % p.period) * p.clock < a * p.clock :=
      Nat.mul_lt_mul_of_pos_right (by omega) p.clock_pos
    rw [← Nat.cast_mul, wrap64_natCast (by omega), if_pos hlt, hsum]
    rw [hsum] at hroom
    have hround : (((a + t * p.tl - x % p.period) * p.clock : Nat) : Int) + p.clock * p.numPids * p.tl =
        ((a + t * p.tl - x % p.period) * p.clock + p.period * p.clock : Nat) := by
      unfold period
      push_cast
      ring
    rw [hround, wrap64_natCast hroom]
  · have hw : (p.rota ht).wait x = t * p.tl - x % p.period := Rota.wait_of_le h
    have hsum : a + t * p.tl - x % p.period = a + (p.rota ht).wait x := by omega
    have hle : ¬(a + (p.rota ht).wait x) * p.clock < a * p.clock :=
      Nat.not_lt.2 (Nat.mul_le_mul_right _ (Nat.le_add_right ..))
    rw [hsum, ← Nat.cast_mul, wrap64_natCast hroom, if_neg hle]

/-! ## After the first turn has begun -/

/-- The first turn has begun, and with a negative offset the first round of ticks is over. -/
def Begun (p : Params) (tick : Nat) : Prop :=
  p.offset * p.clock ≤ p.nextCycle tick ∧ (0 ≤ p.offset ∨ p.period * p.clock ≤ p.nextCycle tick)

/-- For `d` more rounds no tick passes 64 bits, counted from time zero or from the offset. -/
def Room (p : Params) (tick d : Nat) : Prop :=
  p.nextCycle tick + (-p.offset).toNat * p.clock + d * p.period * p.clock < 2 ^ 64

def Started (p : Params) (tick : Nat) : Prop := p.Begun tick ∧ p.Room tick 2

instance (tick : Nat) : Decidable (p.Begun tick) := inferInstanceAs (Decidable (_ ∧ _))

instance (tick d : Nat) : Decidable (p.Room tick d) := inferInstanceAs (Decidable (_ < _))

instance (tick : Nat) : Decidable (p.Started tick) := inferInstanceAs (Decidable (_ ∧ _))

theorem Begun.mono {tick' : Nat} (h : p.Begun tick) (hle : tick ≤ tick') : p.Begun tick' := by
  have := p.nextCycle_mono hle
  exact ⟨by have := h.1; omega, h.2.imp_right fun h => h.trans this⟩

theorem Room.mono {d d' : Nat} (h : p.Room tick d) (hle : d' ≤ d) : p.Room tick d' :=
  Nat.lt_of_le_of_lt (Nat.add_le_add_left (Nat.mul_le_mul_right _ (Nat.mul_le_mul_right _ hle)) _) h

/-- The cycle of the next edge, and what is left after it. -/
theorem Begun.cycle {d : Nat} (h : p.Begun tick) (hroom : p.Room tick d) :
    ∃ c : Nat, (p.nextCycle tick : Int) = (c + p.offset) * p.clock ∧
      ∀ x ≤ c + d * p.period, x * p.clock < 2 ^ 64 ∧ ((x : Int) + p.offset) * p.clock < 2 ^ 64 := by
  obtain ⟨c, hc⟩ := exists_cycle (dvd_nextCycle tick) h.1
  refine ⟨c, hc, fun x hx => ?_⟩
  have hneg : -(p.offset * p.clock) ≤ (-p.offset).toNat * p.clock := by
    rw [← Int.neg_mul]
    exact mul_le_mul_of_nonneg_right (Int.self_le_toNat _) (Int.natCast_nonneg _)
  have hx' : (x : Int) * p.clock ≤ c * p.clock + d * p.period * p.clock := by
    have h1 := Nat.mul_le_mul_right p.clock hx
    rw [Nat.add_mul] at h1
    exact_mod_cast h1
  have hroom' : (p.nextCycle tick : Int) + (-p.offset).toNat * p.clock + d * p.period * p.clock < 2 ^ 64 := by
    exact_mod_cast hroom
  have hpos : (0 : Int) ≤ (-p.offset).toNat * p.clock := by positivity
  rw [add_mul] at hc ⊢
  refine ⟨?_, by omega⟩
  have h1 : (x : Int) * p.clock < 2 ^ 64 := by omega
  exact_mod_cast h1

/-- A rejected thread retries in its own turn, and not in the past. -/
theorem activeId_retryTime (h : p.Started tick) (ht : t < p.numPids) :
    p.activeId (p.retryTime tick t) = t ∧ p.nextCycle tick ≤ p.retryTime tick t := by
  obtain ⟨c, hc, hfit⟩ := h.1.cycle h.2
  obtain ⟨a, ha⟩ : ∃ a, p.nextCycle tick = a * p.clock := ⟨_, rfl⟩
  have hclock : (p.clock : Int) ≠ 0 := by exact_mod_cast p.clock_pos.ne'
  have hac : (a : Int) = c + p.offset := by
    refine mul_right_cancel₀ hclock ?_
    rw [← hc, ha]
    rfl
  have hwait : (p.rota ht).wait c < p.period := Rota.wait_lt _
  have hmod := Nat.mod_lt c p.period_pos
  -- the turn does not begin before time zero
  have hback : c % p.period ≤ a + t * p.tl := by
    rcases h.1.2 with h0 | h0
    · have := Nat.mod_le c p.period
      omega
    · rw [ha] at h0
      have := Nat.le_of_mul_le_mul_right h0 p.clock_pos
      omega
  obtain ⟨h1, h2⟩ := hfit (c + (p.rota ht).wait c) (by omega)
  have htick : (((a + (p.rota ht).wait c) * p.clock : Nat) : Int) =
      ((c + (p.rota ht).wait c : Nat) + p.offset) * p.clock := by
    push_cast
    rw [hac]
    ring
  have hretry :=
    retryTime_eq ht ha (phase_cycle hc (hfit c (by omega)).1) hback (by rw [← htick] at h2; exact_mod_cast h2)
  rw [hretry, activeId_edge htick h1 ht, ha]
  exact ⟨Rota.owns_add_wait c, Nat.mul_le_mul_right _ (by omega)⟩

/-- A packet of a thread that begins in its turn ends in a turn of the thread, and takes
its time. -/
theorem activeId_calcFinishTime {d : Nat} (h : p.Begun tick) (ht : t < p.numPids) (hown : p.activeId tick = t)
    (hroom : p.Room tick d) :
    p.activeId (p.calcFinishTime tick t d) = t ∧ p.nextCycle tick + d * p.clock ≤ p.calcFinishTime tick t d := by
  obtain ⟨c, hc, hfit⟩ := h.cycle hroom
  rw [activeId_cycle hc (hfit c (by omega)).1 ht] at hown
  obtain ⟨m, rfl⟩ := Rota.owns_iff.1 hown
  obtain ⟨h1, h2⟩ := hfit _ ((p.rota ht).slot_add_le m d)
  obtain ⟨heq, hle⟩ := calcFinishTime_slot ht hc h1 h2
  exact ⟨(activeId_edge heq h1 ht).2 (Rota.owns_iff.2 ⟨m + d, rfl⟩), hle⟩

end Params

end DynamicCache.Bus
