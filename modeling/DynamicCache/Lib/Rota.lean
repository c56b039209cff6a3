import Mathlib.Order.Interval.Finset.Nat
import Mathlib.Order.Monotone.Basic

/-!
# Turns in a rota

Time is counted in cycles and repeats with a period; one party owns `width`
consecutive cycles of each period, from cycle `begin_` of the period on.  `slot`
numbers the cycles of the party: it is strictly monotone (`slot_strictMono`) and
its values are exactly the cycles owned (`owns_iff`), so the cycles owned between
two slots can be counted (`card_owned`).  `wait` is the time until the next turn
begins, and a party that is not in its turn owns nothing until then
(`not_owns_add`).
-/

namespace DynamicCache.Lib

structure Rota where
  period : Nat
  begin_ : Nat
  width : Nat
  width_pos : 0 < width
  fits : begin_ + width ≤ period

namespace Rota

variable (r : Rota)

def Owns (x : Nat) : Prop := r.begin_ ≤ x % r.period ∧ x % r.period < r.begin_ + r.width

instance (x : Nat) : Decidable (r.Owns x) := inferInstanceAs (Decidable (_ ∧ _))

/-- The `n`-th cycle owned. -/
def slot (n : Nat) : Nat := n / r.width * r.period + (r.begin_ + n % r.width)

/-- The cycles from `x` until the next turn begins. -/
def wait (x : Nat) : Nat := (r.begin_ + (r.period - x % r.period)) % r.period

theorem period_pos : 0 < r.period := by
  have := r.width_pos
  have := r.fits
  omega

variable {r}

/-- Cycle `i` of the turn in period `k`. -/
theorem slot_mul_add {k i : Nat} (hi : i < r.width) :
    r.slot (k * r.width + i) = k * r.period + (r.begin_ + i) := by
  have hdiv : (k * r.width + i) / r.width = k := by
    rw [Nat.mul_comm, Nat.mul_add_div r.width_pos, Nat.div_eq_of_lt hi, Nat.add_zero]
  have hmod : (k * r.width + i) % r.width = i := by
    rw [Nat.mul_comm, Nat.mul_add_mod, Nat.mod_eq_of_lt hi]
  rw [slot, hdiv, hmod]

theorem slot_mod (n : Nat) : r.slot n % r.period = r.begin_ + n % r.width := by
  have h1 := Nat.mod_lt n r.width_pos
  have h2 := r.fits
  rw [slot, Nat.mul_comm, Nat.mul_add_mod, Nat.mod_eq_of_lt (by omega)]

theorem slot_strictMono : StrictMono r.slot := by
  refine strictMono_nat_of_lt_succ fun n => ?_
  have hn := Nat.div_add_mod n r.width
  have hlt := Nat.mod_lt n r.width_pos
  have hfits := r.fits
  have hw := r.width_pos
  rw [Nat.mul_comm] at hn
  generalize n / r.width = k at hn
  generalize n % r.width = i at hn hlt
  rw [← hn, slot_mul_add hlt]
  by_cases hi : i + 1 < r.width
  · rw [Nat.add_assoc, slot_mul_add hi]
    omega
  · -- the next slot opens the turn of the next period
    have hnext : k * r.width + i + 1 = (k + 1) * r.width + 0 := by
      rw [Nat.add_mul]
      omega
    rw [hnext, slot_mul_add hw, Nat.add_mul]
    omega

theorem owns_iff {x : Nat} : r.Owns x ↔ ∃ n, r.slot n = x := by
  constructor
  · intro h
    have hx := Nat.div_add_mod x r.period
    obtain ⟨i, hi⟩ := Nat.exists_eq_add_of_le h.1
    have hlt : i < r.width := by
      have := h.2
      omega
    refine ⟨x / r.period * r.width + i, ?_⟩
    rw [slot_mul_add hlt, ← hi, Nat.mul_comm]
    exact hx
  · rintro ⟨n, rfl⟩
    have hlt := Nat.mod_lt n r.width_pos
    rw [Owns, slot_mod]
    omega

/-- The cycle after a slot is owned too, unless the turn is over and is not the whole period. -/
theorem owns_slot_succ (n : Nat) : r.Owns (r.slot n + 1) ↔ (n + 1) % r.width ≠ 0 ∨ r.width = r.period := by
  have hlt := Nat.mod_lt n r.width_pos
  have hfits := r.fits
  have hplace : (r.slot n + 1) % r.period = (r.begin_ + n % r.width + 1) % r.period := by
    rw [← Nat.mod_add_mod, slot_mod]
  have hover : (n + 1) % r.width = (n % r.width + 1) % r.width := (Nat.mod_add_mod ..).symm
  rw [Owns, hplace, hover]
  generalize n % r.width = i at *
  rcases Nat.lt_or_ge (i + 1) r.width with hi | hi
  · rw [Nat.mod_eq_of_lt hi, Nat.mod_eq_of_lt (show r.begin_ + i + 1 < r.period by omega)]
    omega
  · rw [show i + 1 = r.width by omega, Nat.mod_self]
    rcases Nat.lt_or_ge (r.begin_ + i + 1) r.period with h | h
    · rw [Nat.mod_eq_of_lt h]
      omega
    · rw [show r.begin_ + i + 1 = r.period by omega, Nat.mod_self]
      omega

/-- The cycle after a slot is the next slot, unless the turn is over. -/
theorem slot_succ (n : Nat) :
    r.slot (n + 1) = if r.Owns (r.slot n + 1) then r.slot n + 1 else r.slot n + 1 + (r.period - r.width) := by
  have hlt := Nat.mod_lt n r.width_pos
  have hfits := r.fits
  simp only [owns_slot_succ]
  have hn := Nat.div_add_mod n r.width
  rw [Nat.mul_comm] at hn
  generalize n / r.width = k at hn
  generalize n % r.width = i at hn hlt
  subst hn
  rw [slot_mul_add hlt]
  by_cases hi : i + 1 < r.width
  · have hin : (k * r.width + i + 1) % r.width ≠ 0 := by
      rw [Nat.add_assoc, Nat.mul_comm, Nat.mul_add_mod, Nat.mod_eq_of_lt hi]
      exact Nat.succ_ne_zero i
    rw [if_pos (.inl hin), Nat.add_assoc _ i, slot_mul_add hi]
    omega
  · have hsum : k * r.width + i + 1 = (k + 1) * r.width + 0 := by
      rw [Nat.add_mul]
      omega
    rw [hsum, slot_mul_add r.width_pos, Nat.add_mul, Nat.one_mul]
    split
    · next h =>
      rw [Nat.add_zero, Nat.mul_mod_left] at h
      omega
    · omega

theorem slot_add_le (n d : Nat) : r.slot (n + d) ≤ r.slot n + d * r.period := by
  induction d with
  | zero => simp
  | succ d ih =>
    have hsucc := r.slot_succ (n + d)
    have hfits := r.fits
    have hpos := r.width_pos
    rw [← Nat.add_assoc, Nat.succ_mul]
    split at hsucc <;> omega

theorem card_owned (m d : Nat) :
    ((Finset.Ioc (r.slot m) (r.slot (m + d))).filter r.Owns).card = d := by
  have himage : (Finset.Ioc (r.slot m) (r.slot (m + d))).filter r.Owns =
      (Finset.Ioc m (m + d)).map ⟨r.slot, slot_strictMono.injective⟩ := by
    ext x
    simp only [Finset.mem_filter, Finset.mem_Ioc, Finset.mem_map, Function.Embedding.coeFn_mk]
    constructor
    · rintro ⟨hx, ho⟩
      obtain ⟨n, rfl⟩ := owns_iff.1 ho
      exact ⟨n, ⟨slot_strictMono.lt_iff_lt.1 hx.1, slot_strictMono.le_iff_le.1 hx.2⟩, rfl⟩
    · rintro ⟨n, hn, rfl⟩
      exact ⟨⟨slot_strictMono hn.1, slot_strictMono.monotone hn.2⟩, owns_iff.2 ⟨n, rfl⟩⟩
  rw [himage, Finset.card_map, Nat.card_Ioc]
  omega

/-! ## The next turn -/

theorem begin_lt : r.begin_ < r.period := by
  have := r.width_pos
  have := r.fits
  omega

theorem Owns.begin_le {x : Nat} (h : r.Owns x) : r.begin_ ≤ x := h.1.trans (Nat.mod_le ..)

theorem owns_begin : r.Owns r.begin_ := by
  have := r.width_pos
  rw [Owns, Nat.mod_eq_of_lt begin_lt]
  omega

theorem owns_sub_period {x : Nat} (hx : r.period ≤ x) : r.Owns (x - r.period) ↔ r.Owns x := by
  rw [Owns, Owns, Nat.mod_eq_sub_mod hx]

theorem wait_lt (x : Nat) : r.wait x < r.period := Nat.mod_lt _ r.period_pos

theorem wait_of_le {x : Nat} (h : x % r.period ≤ r.begin_) : r.wait x = r.begin_ - x % r.period := by
  have h1 := begin_lt (r := r)
  have h3 : r.begin_ + (r.period - x % r.period) = r.begin_ - x % r.period + r.period := by omega
  rw [wait, h3, Nat.add_mod_right, Nat.mod_eq_of_lt (by omega)]

theorem wait_of_lt {x : Nat} (h : r.begin_ < x % r.period) :
    r.wait x = r.begin_ + (r.period - x % r.period) := by
  have h1 := Nat.mod_lt x r.period_pos
  rw [wait, Nat.mod_eq_of_lt (by omega)]

theorem add_wait_mod (x : Nat) : (x + r.wait x) % r.period = r.begin_ := by
  have h1 := begin_lt (r := r)
  have h2 := Nat.mod_lt x r.period_pos
  rw [Nat.add_mod, Nat.mod_eq_of_lt (wait_lt x)]
  rcases Nat.lt_or_ge r.begin_ (x % r.period) with h | h
  · have h3 : x % r.period + (r.begin_ + (r.period - x % r.period)) = r.begin_ + r.period := by omega
    rw [wait_of_lt h, h3, Nat.add_mod_right, Nat.mod_eq_of_lt h1]
  · rw [wait_of_le h, Nat.add_sub_cancel' h, Nat.mod_eq_of_lt h1]

theorem owns_add_wait (x : Nat) : r.Owns (x + r.wait x) := by
  have := r.width_pos
  rw [Owns, add_wait_mod]
  omega

theorem not_owns_add {x i : Nat} (hx : ¬r.Owns x) (hi : i < r.wait x) : ¬r.Owns (x + i) := by
  have h1 := r.fits
  have h2 := Nat.mod_lt x r.period_pos
  unfold Owns at hx ⊢
  rw [Nat.add_mod, Nat.mod_eq_of_lt (hi.trans (wait_lt x))]
  rcases Nat.lt_or_ge r.begin_ (x % r.period) with h | h
  · rw [wait_of_lt h] at hi
    -- the rest of this period, then the beginning of the next one
    rcases Nat.lt_or_ge (x % r.period + i) r.period with h3 | h3
    · rw [Nat.mod_eq_of_lt h3]
      omega
    · rw [Nat.mod_eq_sub_mod h3, Nat.mod_eq_of_lt (by omega)]
      omega
  · rw [wait_of_le h] at hi
    rw [Nat.mod_eq_of_lt (by omega)]
    omega

end Rota

end DynamicCache.Lib
