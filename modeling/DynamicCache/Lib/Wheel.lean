import Mathlib.Data.List.Rotate
import Mathlib.Data.Nat.Find
import Mathlib.Logic.Function.Iterate
import Mathlib.Order.Monotone.Basic
import Mathlib.Algebra.Order.Ring.Int
import Mathlib.Tactic.Zify

/-!
# Wheels of slots

A wheel is a list of slots with the time of its first slot.  Setting it to another
time, earlier or later, turns it by the difference, so a wheel shows the same slots
whenever it is set to a time, whatever it was set to before (`Wheel.update_showing`).

`next` is the first time from a given one at which something holds.  It is `Paced`:
it keeps the order of times and commutes with the shifts that what is waited for does
not see, and paced functions compose.  A wheel that is turned on cycle by
cycle until its slots pass a test stops at that time within one turn
(`Wheel.seek_showing`).
-/

namespace DynamicCache.Lib

variable {α : Type}

/-! ## Turning a list -/

/-- `l` turned left by `k` places; a negative `k` turns it right. -/
def turn (l : List α) (k : Int) : List α := l.rotate (k % l.length).toNat

@[simp] theorem length_turn (l : List α) (k : Int) : (turn l k).length = l.length := List.length_rotate ..

theorem turn_nil (k : Int) : turn ([] : List α) k = [] := List.rotate_nil _

theorem turn_congr {l : List α} {j k : Int} (h : j % l.length = k % l.length) : turn l j = turn l k := by
  rw [turn, turn, h]

theorem turn_turn (l : List α) (j k : Int) : turn (turn l j) k = turn l (j + k) := by
  by_cases hl : l = []
  · subst hl
    simp only [turn_nil]
  · have hpos : (0 : Int) < l.length := by exact_mod_cast List.length_pos_iff.2 hl
    have hj := Int.emod_nonneg j hpos.ne'
    have hk := Int.emod_nonneg k hpos.ne'
    have hjk := Int.emod_nonneg (j + k) hpos.ne'
    have hsum : ((j % l.length).toNat + (k % l.length).toNat) % l.length = ((j + k) % l.length).toNat := by
      zify
      rw [Int.toNat_of_nonneg hj, Int.toNat_of_nonneg hk, Int.toNat_of_nonneg hjk, ← Int.add_emod]
    rw [turn, length_turn, turn, List.rotate_rotate, ← List.rotate_mod, hsum, turn]

theorem turn_zero (l : List α) : turn l 0 = l := by
  exact List.rotate_zero l

theorem getElem?_turn {l : List α} {i : Nat} (hi : i < l.length) (k : Int) :
    (turn l k)[i]? = l[((k + i) % l.length).toNat]? := by
  have hpos : (0 : Int) < l.length := by omega
  have hk := Int.emod_nonneg k hpos.ne'
  have hki := Int.emod_nonneg (k + i) hpos.ne'
  have hsum : (i + (k % l.length).toNat) % l.length = ((k + i) % l.length).toNat := by
    zify
    rw [Int.toNat_of_nonneg hk, Int.toNat_of_nonneg hki, Int.add_emod_emod, add_comm]
  rw [turn, List.getElem?_rotate hi, hsum]

/-! ## The next time at which something holds -/

section Next

/-- From every time on there is a time at which `q` holds. -/
def Recurs (q : Int → Prop) : Prop := ∀ t, ∃ n : Nat, q (t + n)

variable {q : Int → Prop} [DecidablePred q] (h : Recurs q)

/-- The first time from `t` on at which `q` holds. -/
def next (t : Int) : Int := t + Nat.find (h t)

theorem le_next (t : Int) : t ≤ next h t := by
  unfold next
  omega

theorem next_spec (t : Int) : q (next h t) := Nat.find_spec (h t)

theorem next_le {t x : Int} (hx : t ≤ x) (hq : q x) : next h t ≤ x := by
  have hfind : q (t + (x - t).toNat) := by
    rw [Int.toNat_of_nonneg (by omega), add_sub_cancel]
    exact hq
  have hle := Nat.find_min' (h t) hfind
  unfold next
  omega

theorem next_eq {t x : Int} (hx : t ≤ x) (hq : q x) (hmin : ∀ y, t ≤ y → q y → x ≤ y) : next h t = x :=
  le_antisymm (next_le h hx hq) (hmin _ (le_next h t) (next_spec h t))

theorem next_mono {s t : Int} (hst : s ≤ t) : next h s ≤ next h t :=
  next_le h (hst.trans (le_next h t)) (next_spec h t)

theorem next_commute {P : Int} (hq : ∀ x, q (x + P) ↔ q x) : Function.Commute (next h) (· + P) := by
  intro t
  show next h (t + P) = next h t + P
  refine next_eq h ?_ ((hq _).2 (next_spec h t)) fun y hy hqy => ?_
  · have := le_next h t
    omega
  · have hback : q (y - P) := (hq _).1 (by rwa [sub_add_cancel])
    have := next_le h (show t ≤ y - P by omega) hback
    omega

end Next

/-! ## Paced functions -/

/-- `f` keeps the order of times, and what it does to a time `P` later is `P` later. -/
structure Paced (P : Int) (f : Int → Int) : Prop where
  mono : ∀ {s t}, s ≤ t → f s ≤ f t
  commute : Function.Commute f (· + P)

namespace Paced

variable {p P : Int} {f g : Int → Int}

theorem of_next {q : Int → Prop} [DecidablePred q] (h : Recurs q) (hq : ∀ x, q (x + P) ↔ q x) :
    Paced P (next h) :=
  ⟨next_mono h, next_commute h hq⟩

theorem of_id : Paced P id := ⟨fun h => h, .id_left⟩

theorem add_const (c : Int) : Paced P (· + c) :=
  ⟨fun h => Int.add_le_add_right h c, fun t => Int.add_right_comm t P c⟩

theorem comp (hf : Paced P f) (hg : Paced P g) : Paced P (f ∘ g) :=
  ⟨fun h => hf.mono (hg.mono h), hf.commute.comp_left hg.commute⟩

theorem iterate (hf : Paced P f) (n : Nat) : Paced P f^[n] :=
  have hmono : Monotone f := fun _ _ h => hf.mono h
  ⟨fun h => hmono.iterate n h, hf.commute.iterate_left n⟩

theorem of_dvd (hf : Paced p f) (hp : 0 < p) (hP : 0 ≤ P) (hdvd : p ∣ P) : Paced P f := by
  refine ⟨hf.mono, ?_⟩
  obtain ⟨c, rfl⟩ := hdvd
  have hc : 0 ≤ c := nonneg_of_mul_nonneg_right hP hp
  obtain ⟨n, rfl⟩ := Int.eq_ofNat_of_zero_le hc
  have hiter : (· + p)^[n] = (· + p * (n : Int)) := by
    rw [add_right_iterate]
    funext x
    rw [nsmul_eq_mul, mul_comm]
  exact hiter ▸ hf.commute.iterate_right n

end Paced

/-! ## Wheels -/

structure Wheel (α : Type) where
  slots : List α
  time : Int
  deriving Repr, DecidableEq

namespace Wheel

def update (w : Wheel α) (time : Int) : Wheel α := ⟨turn w.slots (time - w.time), time⟩

/-- Turn the wheel on, one cycle at a time, until its slots pass a test. -/
def seek (p : List α → Bool) : Nat → Wheel α → Option (Wheel α)
  | 0, w => if p w.slots then some w else none
  | n + 1, w => if p w.slots then some w else seek p n (w.update (w.time + 1))

/-- The wheel that shows `base` at time 0, set to time `t`. -/
def showing (base : List α) (t : Int) : Wheel α := ⟨turn base t, t⟩

@[simp] theorem time_showing (base : List α) (t : Int) : (showing base t).time = t := rfl

@[simp] theorem update_showing (base : List α) (s t : Int) : (showing base s).update t = showing base t := by
  rw [update, showing, turn_turn, add_sub_cancel, showing]

section Seek

variable {p : List α → Bool} {base : List α}

theorem seek_first {n : Nat} {t x : Int} (hx : t ≤ x) (hn : x ≤ t + n) (hq : p (turn base x) = true)
    (hmin : ∀ y, t ≤ y → p (turn base y) = true → x ≤ y) : seek p n (showing base t) = some (showing base x) := by
  induction n generalizing t with
  | zero =>
    obtain rfl : x = t := by omega
    exact if_pos hq
  | succ n ih =>
    by_cases ht : p (turn base t) = true
    · obtain rfl : x = t := le_antisymm (hmin t le_rfl ht) hx
      exact if_pos hq
    · have hne : t ≠ x := by
        rintro rfl
        exact ht hq
      refine (if_neg ht).trans ?_
      rw [update_showing]
      exact ih (by simp only [time_showing]; omega) (by simp only [time_showing]; omega)
        fun y hy => hmin y (by simp only [time_showing] at hy; omega)

theorem exists_of_seek {n : Nat} {t : Int} {w : Wheel α} (h : seek p n (showing base t) = some w) :
    ∃ x, w = showing base x := by
  induction n generalizing t with
  | zero =>
    by_cases ht : p (turn base t) = true
    · exact ⟨t, Option.some.inj (h.symm.trans (if_pos ht))⟩
    · cases h.symm.trans (if_neg ht)
  | succ n ih =>
    by_cases ht : p (turn base t) = true
    · exact ⟨t, Option.some.inj (h.symm.trans (if_pos ht))⟩
    · have hrest := h.symm.trans (if_neg ht)
      rw [update_showing] at hrest
      exact ih hrest.symm

theorem turn_add_length (base : List α) (x : Int) : turn base (x + base.length) = turn base x :=
  turn_congr (Int.add_emod_right ..)

/-- A test passed at one time is passed again within a turn of any time. -/
theorem exists_turn (hbase : base ≠ []) {k : Int} (hk : p (turn base k) = true) (t : Int) :
    ∃ n : Nat, n < base.length ∧ p (turn base (t + n)) = true := by
  have hpos : (0 : Int) < base.length := by exact_mod_cast List.length_pos_iff.2 hbase
  have h0 := Int.emod_nonneg (k - t) hpos.ne'
  have h1 := Int.emod_lt_of_pos (k - t) hpos
  refine ⟨((k - t) % base.length).toNat, by omega, ?_⟩
  rw [Int.toNat_of_nonneg h0, turn_congr (k := k)]
  · exact hk
  · rw [Int.add_emod_emod, add_sub_cancel]

theorem recurs (hbase : base ≠ []) {k : Int} (hk : p (turn base k) = true) :
    Recurs fun x => p (turn base x) = true := fun t =>
  (exists_turn hbase hk t).imp fun _ hn => hn.2

theorem seek_showing (hbase : base ≠ []) {k : Int} (hk : p (turn base k) = true) (t : Int) :
    seek p base.length (showing base t) = some (showing base (next (recurs hbase hk) t)) := by
  have h := recurs hbase hk
  obtain ⟨n, hn, hq⟩ := exists_turn hbase hk t
  have hle := next_le h (show t ≤ t + n by omega) hq
  exact seek_first (le_next h t) (by omega) (next_spec h t) fun y hy hqy => next_le h hy hqy

theorem paced_next (h : Recurs fun x => p (turn base x) = true) : Paced base.length (next h) :=
  .of_next h fun x => by rw [turn_add_length]

end Seek

end Wheel

end DynamicCache.Lib
