import DynamicCache.Bus.Slots
import Mathlib.Order.Bounds.Basic

/-!
# When a rejected thread tries again (`RRBus::Layer::tryTiming`, `turn_begin`)

A thread that is rejected because it is not its turn gets an event at
`retryTime`.  This should be the least clock edge from now on at which
`active_id` is the thread.

From the offset on it is.  Before the offset `active_id` and `turn_begin` count
with ticks that have wrapped below zero.  The turns of that time are not in step
with those after the offset, unless a round divides the number of cycles in 2^64
ticks, and a turn that began before time zero is not found at all.
`retryTime_isLeast` says when the tick is right; `retryTime_before_offset` is a
retry in the turn of another thread.
-/

namespace DynamicCache.Bus.Params

open Lib

variable (p : Params)

/-- The clock edges of a thread from the next one on. -/
def edgesFrom (tick threadID : Nat) : Set Nat :=
  {e | p.nextCycle tick ≤ e ∧ e < 2 ^ 64 ∧ p.clock ∣ e ∧ p.activeId e = threadID}

/-- The offset, when it is not negative. -/
def start : Nat := p.offset.toNat

/-- The offset is not negative and fits 64-bit ticks. -/
def OffsetFits : Prop := 0 ≤ p.offset ∧ p.start * p.clock ≤ 2 ^ 64

/-- There is an edge left for the thread.  Before the offset also: its turn of this
round does not begin before time zero, and either it has an edge before the offset or
the turns before and after the offset are in step. -/
def RetryInStep (tick threadID : Nat) : Prop :=
  (p.edgesFrom tick threadID).Nonempty ∧
    (p.start * p.clock ≤ p.nextCycle tick ∨
      p.start * p.clock ≤ 2 ^ 64 ∧
      p.phase tick * p.clock ≤ p.nextCycle tick + threadID * p.tl * p.clock ∧
      ((∃ e ∈ p.edgesFrom tick threadID, e < p.start * p.clock) ∨ p.period ∣ 2 ^ 64 / p.clock))

/-- Three threads with turns of one cycle, and an offset of one cycle: at time zero
thread 1 is told to try again at tick 1, in the turn of thread 0. -/
theorem retryTime_before_offset :
    let p : Params := ⟨3, 1, 1, 1, by decide, by decide, by decide⟩
    p.activeId 0 ≠ 1 ∧ p.retryTime 0 1 = 1 ∧ p.activeId 1 = 0 ∧ 2 ∈ p.edgesFrom 0 1 ∧
      ¬IsLeast (p.edgesFrom 0 1) (p.retryTime 0 1) := by
  intro p
  refine ⟨by decide, by decide, by decide, ⟨by decide, by decide, by decide, by decide⟩, fun h => ?_⟩
  have h1 : p.activeId (p.retryTime 0 1) = 1 := h.1.2.2.2
  revert h1
  decide

/-! ## Cycles before and after the offset -/

/-- The number of the cycle at edge `a`, as `active_id` counts them. -/
def place (a : Nat) : Nat := if a < p.start then 2 ^ 64 / p.clock - (p.start - a) else a - p.start

variable {p} {tick t : Nat} {a e : Nat}

theorem nextCycle_edge (a : Nat) : p.nextCycle (a * p.clock) = a * p.clock :=
  nextCycle_of_dvd (Nat.dvd_mul_left ..)

theorem sinceOffset_edge (ha : a * p.clock < 2 ^ 64) (ho : p.OffsetFits) :
    p.sinceOffset (a * p.clock) / p.clock = p.place a := by
  have hstart : p.offset = p.start := (Int.toNat_of_nonneg ho.1).symm
  have hfit := ho.2
  unfold sinceOffset place
  rw [nextCycle_edge, hstart]
  split
  · next hlt =>
    obtain ⟨b, hb⟩ := Nat.exists_eq_add_of_lt hlt
    have hpos := Nat.mul_pos (show 0 < b + 1 by omega) p.clock_pos
    have hsum : p.start * p.clock = a * p.clock + (b + 1) * p.clock := by
      rw [hb, ← Nat.add_mul, Nat.add_assoc]
    -- the difference has wrapped once
    have hwrap : wrap64 ((a * p.clock : Nat) - p.start * p.clock) = 2 ^ 64 - p.clock * (b + 1) := by
      have h1 : ((a * p.clock : Nat) : Int) - p.start * p.clock = -((b + 1) * p.clock : Nat) := by
        have := congrArg Int.ofNat hsum
        push_cast at this ⊢
        linarith
      rw [h1, wrap64, ← Int.add_emod_right, Int.emod_eq_of_lt (by omega) (by omega), Nat.mul_comm p.clock]
      omega
    rw [hwrap, Nat.sub_mul_div, show p.start - a = b + 1 by omega]
  · next hge =>
    have h1 : ((a * p.clock : Nat) : Int) - p.start * p.clock = ((a - p.start) * p.clock : Nat) := by
      push_cast [Nat.le_of_not_lt hge]
      ring
    rw [h1, wrap64_natCast, Nat.mul_div_cancel _ p.clock_pos]
    exact Nat.lt_of_le_of_lt (Nat.mul_le_mul_right _ (Nat.sub_le ..)) ha

theorem activeId_iff (ht : t < p.numPids) (ha : a * p.clock < 2 ^ 64) (ho : p.OffsetFits) :
    p.activeId (a * p.clock) = t ↔ (p.rota ht).Owns (p.place a) := by
  rw [activeId, phase, sinceOffset_edge ha ho, owner_iff ht]

theorem mem_edgesFrom_iff (ht : t < p.numPids) (ha : p.nextCycle tick = a * p.clock) (ho : p.OffsetFits) :
    e ∈ p.edgesFrom tick t ↔ ∃ c, e = c * p.clock ∧ a ≤ c ∧ c * p.clock < 2 ^ 64 ∧ (p.rota ht).Owns (p.place c) := by
  constructor
  · rintro ⟨h1, h2, ⟨c, rfl⟩, h4⟩
    rw [Nat.mul_comm] at h1 h2 h4 ⊢
    rw [ha] at h1
    exact ⟨c, rfl, Nat.le_of_mul_le_mul_right h1 p.clock_pos, h2, (activeId_iff ht h2 ho).1 h4⟩
  · rintro ⟨c, rfl, hac, hc, hown⟩
    refine ⟨?_, hc, Nat.dvd_mul_left .., (activeId_iff ht hc ho).2 hown⟩
    rw [ha]
    exact Nat.mul_le_mul_right _ hac

theorem place_after {i : Nat} (h : p.start ≤ a) : p.place (a + i) = p.place a + i := by
  rw [place, place, if_neg (by omega), if_neg (by omega)]
  omega

theorem place_before {i : Nat} (h : a + i < p.start) (ho : p.start ≤ 2 ^ 64 / p.clock) :
    p.place (a + i) = p.place a + i := by
  rw [place, place, if_pos (by omega), if_pos (by omega)]
  omega

theorem phase_eq (ha : p.nextCycle tick = a * p.clock) (hlt : a * p.clock < 2 ^ 64) (ho : p.OffsetFits) :
    p.phase tick = p.place a % p.period := by
  rw [← sinceOffset_edge hlt ho, phase, sinceOffset, sinceOffset, nextCycle_edge, ha]

theorem not_owns_of_rejected (ht : t < p.numPids) (ha : p.nextCycle tick = a * p.clock)
    (hlt : a * p.clock < 2 ^ 64) (ho : p.OffsetFits) (hrej : p.activeId tick ≠ t) :
    ¬(p.rota ht).Owns (p.place a) := by
  rw [← activeId_iff ht hlt ho, activeId, phase, sinceOffset, nextCycle_edge, ← ha]
  exact hrej

theorem offset_le_div (ho : p.OffsetFits) : p.start ≤ 2 ^ 64 / p.clock :=
  (Nat.le_div_iff_mul_le p.clock_pos).2 ho.2

section

variable (ht : t < p.numPids) {a : Nat} (ha : p.nextCycle tick = a * p.clock)
  (ho : p.OffsetFits) (hnot : ¬(p.rota ht).Owns (p.place a))

include ha ho hnot

/-- As long as the cycles count on, the next turn has the thread's first edge. -/
theorem isLeast_wait (hroom : (a + (p.rota ht).wait (p.place a)) * p.clock < 2 ^ 64)
    (hon : ∀ i ≤ (p.rota ht).wait (p.place a), p.place (a + i) = p.place a + i) :
    IsLeast (p.edgesFrom tick t) ((a + (p.rota ht).wait (p.place a)) * p.clock) := by
  constructor
  · refine (mem_edgesFrom_iff ht ha ho).2 ⟨_, rfl, Nat.le_add_right .., hroom, ?_⟩
    rw [hon _ le_rfl]
    exact Rota.owns_add_wait _
  · intro e he
    obtain ⟨c, rfl, hac, -, hown⟩ := (mem_edgesFrom_iff ht ha ho).1 he
    refine Nat.mul_le_mul_right _ (Nat.le_of_not_lt fun hlt => ?_)
    obtain ⟨i, rfl⟩ := Nat.exists_eq_add_of_le hac
    have hi : i < (p.rota ht).wait (p.place a) := by omega
    rw [hon i hi.le] at hown
    exact Rota.not_owns_add hnot hi hown

/-- From the offset on the cycles count on. -/
theorem isLeast_after (h : p.start ≤ a) (he : e ∈ p.edgesFrom tick t) :
    (a + (p.rota ht).wait (p.place a)) * p.clock < 2 ^ 64 ∧
      IsLeast (p.edgesFrom tick t) ((a + (p.rota ht).wait (p.place a)) * p.clock) := by
  obtain ⟨c, rfl, hac, hc, hown⟩ := (mem_edgesFrom_iff ht ha ho).1 he
  obtain ⟨i, rfl⟩ := Nat.exists_eq_add_of_le hac
  rw [place_after h] at hown
  have hi : (p.rota ht).wait (p.place a) ≤ i := Nat.le_of_not_lt fun hi => Rota.not_owns_add hnot hi hown
  have hroom : (a + (p.rota ht).wait (p.place a)) * p.clock < 2 ^ 64 :=
    Nat.lt_of_le_of_lt (Nat.mul_le_mul_right _ (by omega)) hc
  exact ⟨hroom, isLeast_wait ht ha ho hnot hroom fun i _ => place_after h⟩

theorem isLeast_before (h : a + (p.rota ht).wait (p.place a) < p.start) :
    (a + (p.rota ht).wait (p.place a)) * p.clock < 2 ^ 64 ∧
      IsLeast (p.edgesFrom tick t) ((a + (p.rota ht).wait (p.place a)) * p.clock) := by
  have hroom : (a + (p.rota ht).wait (p.place a)) * p.clock < 2 ^ 64 :=
    Nat.lt_of_lt_of_le (Nat.mul_lt_mul_of_pos_right h p.clock_pos) ho.2
  exact ⟨hroom, isLeast_wait ht ha ho hnot hroom fun i hi => place_before (by omega) (offset_le_div ho)⟩

/-- An edge before the offset means that the next turn begins before the offset. -/
theorem wait_lt_of_edge (he : e ∈ p.edgesFrom tick t) (hlt : e < p.start * p.clock) :
    a + (p.rota ht).wait (p.place a) < p.start := by
  obtain ⟨c, rfl, hac, -, hown⟩ := (mem_edgesFrom_iff ht ha ho).1 he
  obtain ⟨i, rfl⟩ := Nat.exists_eq_add_of_le hac
  have hi : a + i < p.start := Nat.lt_of_mul_lt_mul_right hlt
  rw [place_before hi (offset_le_div ho)] at hown
  by_contra hge
  exact Rota.not_owns_add hnot (by omega) hown

/-- When the next turn would begin after the offset, the thread waits for its first
turn there. -/
theorem first_le (hlate : p.start ≤ a + (p.rota ht).wait (p.place a)) (he : e ∈ p.edgesFrom tick t) :
    (p.start + t * p.tl) * p.clock ≤ e := by
  obtain ⟨c, hec, hac, -, hown⟩ := (mem_edgesFrom_iff ht ha ho).1 he
  have hge : p.start ≤ c := by
    by_contra hlt
    have := wait_lt_of_edge ht ha ho hnot he (hec ▸ Nat.mul_lt_mul_of_pos_right (by omega) p.clock_pos)
    omega
  rw [place, if_neg (by omega)] at hown
  have hbegin : t * p.tl ≤ c - p.start := hown.begin_le
  rw [hec]
  exact Nat.mul_le_mul_right _ (by omega)

theorem isLeast_first (h : a < p.start) (hlate : p.start ≤ a + (p.rota ht).wait (p.place a))
    (hroom : (p.start + t * p.tl) * p.clock < 2 ^ 64) :
    IsLeast (p.edgesFrom tick t) ((p.start + t * p.tl) * p.clock) := by
  refine ⟨(mem_edgesFrom_iff ht ha ho).2 ⟨_, rfl, by omega, hroom, ?_⟩, fun e => first_le ht ha ho hnot hlate⟩
  rw [place, if_neg (by omega), Nat.add_sub_cancel_left]
  exact Rota.owns_begin (r := p.rota ht)

end

/-- The next turn of the count before the offset is the first turn after the offset
exactly when a round divides the cycles in 2^64 ticks. -/
theorem wait_eq_first_iff (ht : t < p.numPids) (ho : p.start ≤ 2 ^ 64 / p.clock) (h : a < p.start)
    (hlate : p.start ≤ a + (p.rota ht).wait (p.place a)) :
    a + (p.rota ht).wait (p.place a) = p.start + t * p.tl ↔ p.period ∣ 2 ^ 64 / p.clock := by
  have hmod : (p.place a + (p.rota ht).wait (p.place a)) % p.period = t * p.tl := Rota.add_wait_mod (r := p.rota ht) _
  have hlt : (p.rota ht).wait (p.place a) < p.period := Rota.wait_lt _
  have hplace : p.place a + (p.start - a) = 2 ^ 64 / p.clock := by
    rw [place, if_pos h]
    omega
  have hbegin : t * p.tl < p.period := Rota.begin_lt (r := p.rota ht)
  generalize (p.rota ht).wait (p.place a) = k at *
  obtain ⟨i, rfl⟩ : ∃ i, k = p.start - a + i := ⟨k - (p.start - a), by omega⟩
  rw [← Nat.add_assoc, hplace] at hmod
  constructor
  · intro heq
    have hi : i = t * p.tl := by omega
    rw [hi] at hmod
    refine Nat.dvd_of_mod_eq_zero ?_
    have h1 := Nat.add_mod (2 ^ 64 / p.clock) (t * p.tl) p.period
    have h2 := Nat.mod_lt (2 ^ 64 / p.clock) p.period_pos
    rw [hmod, Nat.mod_eq_of_lt hbegin] at h1
    by_cases hsum : 2 ^ 64 / p.clock % p.period + t * p.tl < p.period
    · rw [Nat.mod_eq_of_lt hsum] at h1
      omega
    · rw [Nat.mod_eq_sub_mod (by omega), Nat.mod_eq_of_lt (by omega)] at h1
      omega
  · rintro ⟨n, hn⟩
    rw [hn, Nat.mul_add_mod, Nat.mod_eq_of_lt (by omega)] at hmod
    omega

/-! ## The retry -/

theorem exists_edge (tick : Nat) : ∃ a, p.nextCycle tick = a * p.clock := ⟨_, rfl⟩

theorem retryTime_isLeast_of_inStep (h0 : 0 ≤ p.offset) (ht : t < p.numPids) (hrej : p.activeId tick ≠ t)
    (h : p.RetryInStep tick t) : IsLeast (p.edgesFrom tick t) (p.retryTime tick t) := by
  obtain ⟨⟨e, he⟩, hreg⟩ := h
  obtain ⟨a, ha⟩ := p.exists_edge tick
  have hlt : a * p.clock < 2 ^ 64 := by
    have h1 := he.1
    have h2 := he.2.1
    omega
  rcases hreg with hafter | ⟨ho, hback, hstep⟩
  · -- from the offset on
    rw [ha] at hafter
    have ho : p.OffsetFits := ⟨h0, by omega⟩
    have hoa : p.start ≤ a := Nat.le_of_mul_le_mul_right hafter p.clock_pos
    obtain ⟨hroom, hleast⟩ := isLeast_after ht ha ho (not_owns_of_rejected ht ha hlt ho hrej) hoa he
    have hback : p.place a % p.period ≤ a + t * p.tl := by
      have := Nat.mod_le (p.place a) p.period
      rw [place, if_neg (by omega)] at this ⊢
      omega
    rwa [retryTime_eq ht ha (phase_eq ha hlt ho) hback hroom]
  · have ho : p.OffsetFits := ⟨h0, ho⟩
    have hnot := not_owns_of_rejected ht ha hlt ho hrej
    have hphase := phase_eq ha hlt ho
    have hback' : p.place a % p.period ≤ a + t * p.tl := by
      rw [hphase, ha, ← Nat.add_mul] at hback
      exact Nat.le_of_mul_le_mul_right hback p.clock_pos
    by_cases hearly : a + (p.rota ht).wait (p.place a) < p.start
    · obtain ⟨hroom, hleast⟩ := isLeast_before ht ha ho hnot hearly
      rwa [retryTime_eq ht ha hphase hback' hroom]
    · by_cases hoa : p.start ≤ a
      · obtain ⟨hroom, hleast⟩ := isLeast_after ht ha ho hnot hoa he
        rwa [retryTime_eq ht ha hphase hback' hroom]
      · -- the first turn after the offset
        have hdvd : p.period ∣ 2 ^ 64 / p.clock :=
          hstep.resolve_left fun ⟨e, he, hlt⟩ => hearly (wait_lt_of_edge ht ha ho hnot he hlt)
        have hlate := Nat.le_of_not_lt hearly
        have hfirst := (wait_eq_first_iff ht (offset_le_div ho) (Nat.lt_of_not_le hoa) hlate).2 hdvd
        have hroom := Nat.lt_of_le_of_lt (first_le ht ha ho hnot hlate he) he.2.1
        rw [retryTime_eq ht ha hphase hback' (hfirst ▸ hroom), hfirst]
        exact isLeast_first ht ha ho hnot (by omega) hlate hroom

/-- When the turn of this round began before time zero, `turn_begin` is the tick
wrapped to the end of time; a round earlier there is an edge as good. -/
theorem not_isLeast_of_wrapped (h0 : 0 ≤ p.offset) (ht : t < p.numPids) (ha : p.nextCycle tick = a * p.clock)
    (hfit : (p.start + p.period) * p.clock ≤ 2 ^ 64) (h : a < p.start)
    (hback : a + t * p.tl < p.place a % p.period) (hphase : p.phase tick = p.place a % p.period) :
    ¬IsLeast (p.edgesFrom tick t) (p.retryTime tick t) := by
  have ho : p.OffsetFits := ⟨h0, (Nat.mul_le_mul_right _ (Nat.le_add_right ..)).trans hfit⟩
  have hdiv : p.start + p.period ≤ 2 ^ 64 / p.clock := (Nat.le_div_iff_mul_le p.clock_pos).2 hfit
  have hmod := Nat.mod_lt (p.place a) p.period_pos
  obtain ⟨g, hg⟩ := Nat.exists_eq_add_of_lt hback
  -- the phase is at most the place less one round
  have hle : p.place a % p.period + p.period ≤ p.place a := by
    have hper : p.period ≤ p.place a := by
      rw [place, if_pos h]
      omega
    have := Nat.mod_le (p.place a - p.period) p.period
    rw [Nat.mod_eq_sub_mod hper]
    omega
  have hplace : p.place a + (p.start - a) = 2 ^ 64 / p.clock := by
    rw [place, if_pos h]
    omega
  have hsum : (g + 1) * p.clock + a * p.clock ≤ 2 ^ 64 := by
    rw [← Nat.add_mul]
    exact (Nat.mul_le_mul_right _ (by omega)).trans hfit
  have hpos := Nat.mul_pos (show 0 < g + 1 by omega) p.clock_pos
  have hbegin : p.turnBegin tick t = 2 ^ 64 - (g + 1) * p.clock := by
    have h1 : (p.nextCycle tick : Int) - p.phase tick * p.clock + t * p.tl * p.clock = -((g + 1) * p.clock : Nat) := by
      rw [ha, hphase, hg]
      push_cast
      ring
    rw [turnBegin_eq, h1, wrap64, ← Int.add_emod_right, Int.emod_eq_of_lt (by omega) (by omega)]
    omega
  have hretry : p.retryTime tick t = 2 ^ 64 - (g + 1) * p.clock := by
    unfold retryTime
    rw [hbegin, ha, if_neg (by omega)]
  intro hleast
  obtain ⟨c, hec, -, hc, hown⟩ := (mem_edgesFrom_iff ht ha ho).1 hleast.1
  -- the edge is cycle `2^64 / clock - (g + 1)`
  have hcg : c + (g + 1) = 2 ^ 64 / p.clock := by
    have h1 : (c + (g + 1)) * p.clock = 2 ^ 64 := by
      rw [Nat.add_mul]
      omega
    rw [← h1, Nat.mul_div_cancel _ p.clock_pos]
  have hearlier : (c - p.period) * p.clock ∈ p.edgesFrom tick t := by
    refine (mem_edgesFrom_iff ht ha ho).2 ⟨_, rfl, by omega, ?_, ?_⟩
    · exact Nat.lt_of_le_of_lt (Nat.mul_le_mul_right _ (Nat.sub_le ..)) hc
    · rw [place, if_neg (by omega)] at hown ⊢
      rw [Nat.sub_right_comm]
      exact (Rota.owns_sub_period (r := p.rota ht) (show p.period ≤ c - p.start by omega)).2 hown
  have h1 := hleast.2 hearlier
  rw [hec] at h1
  have h2 := Nat.le_of_mul_le_mul_right h1 p.clock_pos
  omega

/-- The retry tick is the least edge of the thread if the turns are in step, and, for
parameters whose first round fits 64-bit ticks, only then. -/
theorem retryTime_isLeast (p : Params) (h0 : 0 ≤ p.offset) (tick t : Nat) (ht : t < p.numPids)
    (hrej : p.activeId tick ≠ t) :
    (p.RetryInStep tick t → IsLeast (p.edgesFrom tick t) (p.retryTime tick t)) ∧
      ((p.start + p.period) * p.clock ≤ 2 ^ 64 →
        (IsLeast (p.edgesFrom tick t) (p.retryTime tick t) ↔ p.RetryInStep tick t)) := by
  refine ⟨retryTime_isLeast_of_inStep h0 ht hrej, fun hfit => ⟨fun hleast => ⟨⟨_, hleast.1⟩, ?_⟩,
    retryTime_isLeast_of_inStep h0 ht hrej⟩⟩
  obtain ⟨a, ha⟩ := p.exists_edge tick
  have hlt : a * p.clock < 2 ^ 64 := by
    have h1 := hleast.1.1
    have h2 := hleast.1.2.1
    omega
  have ho : p.OffsetFits := ⟨h0, (Nat.mul_le_mul_right _ (Nat.le_add_right ..)).trans hfit⟩
  by_cases hoa : p.start ≤ a
  · rw [ha]
    exact .inl (Nat.mul_le_mul_right _ hoa)
  · have hphase := phase_eq ha hlt ho
    have hnot := not_owns_of_rejected ht ha hlt ho hrej
    have hback : p.place a % p.period ≤ a + t * p.tl :=
      Nat.le_of_not_lt fun hb => not_isLeast_of_wrapped h0 ht ha hfit (by omega) hb hphase hleast
    have hwait : (p.rota ht).wait (p.place a) < p.period := Rota.wait_lt _
    have hroom : (a + (p.rota ht).wait (p.place a)) * p.clock < 2 ^ 64 :=
      Nat.lt_of_lt_of_le (Nat.mul_lt_mul_of_pos_right (by omega) p.clock_pos) hfit
    have hretry := retryTime_eq ht ha hphase hback hroom
    refine .inr ⟨ho.2, ?_, ?_⟩
    · rw [hphase, ha, ← Nat.add_mul]
      exact Nat.mul_le_mul_right _ hback
    · by_cases hearly : a + (p.rota ht).wait (p.place a) < p.start
      · exact .inl ⟨_, hleast.1, hretry ▸ Nat.mul_lt_mul_of_pos_right hearly p.clock_pos⟩
      · -- the least edge is the first turn after the offset
        have hbegin : t * p.tl < p.period := Rota.begin_lt (r := p.rota ht)
        have hfirst : IsLeast (p.edgesFrom tick t) ((p.start + t * p.tl) * p.clock) :=
          isLeast_first ht ha ho hnot (by omega) (by omega)
            (Nat.lt_of_lt_of_le (Nat.mul_lt_mul_of_pos_right (by omega) p.clock_pos) hfit)
        have heq := hleast.unique hfirst
        rw [hretry] at heq
        exact .inr ((wait_eq_first_iff ht (offset_le_div ho) (by omega) (by omega)).1
          (Nat.eq_of_mul_eq_mul_right p.clock_pos heq))

/-- Two threads with turns of two cycles: at time zero, before an offset of five
cycles, thread 1 waits for a turn that is over before the offset. -/
theorem retryTime_isLeast_early :
    let p : Params := ⟨2, 2, 5, 10, by decide, by decide, by decide⟩
    p.activeId 0 = 0 ∧ p.retryTime 0 1 = 20 ∧ IsLeast (p.edgesFrom 0 1) 20 := by
  intro p
  have hretry : p.retryTime 0 1 = 20 := by decide
  have hmem : 20 ∈ p.edgesFrom 0 1 := ⟨by decide, by decide, by decide, by decide⟩
  have h := (retryTime_isLeast p (by decide) 0 1 (by decide) (by decide)).1
    ⟨⟨20, hmem⟩, .inr ⟨by decide, by decide, .inl ⟨20, hmem, by decide⟩⟩⟩
  exact ⟨by decide, hretry, hretry ▸ h⟩

end DynamicCache.Bus.Params
