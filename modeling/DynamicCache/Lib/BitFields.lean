import Mathlib.Algebra.BigOperators.Group.List.Basic
import Mathlib.Algebra.Ring.Nat
import Mathlib.Data.Nat.Basic
import Mathlib.Logic.Function.Basic
import Mathlib.Tactic.Ring

/-!
# Numbers taken apart into bit fields

`peel w fs n` takes the fields `fs` off a number one after the other, the lowest bits
first: field `f` gets the next `w f` bits.  What the fields hold together is the number
modulo the product of their sizes (`peel_eq_iff`), so that a number that fits into the
fields is determined by them.
-/

namespace DynamicCache.Lib

variable {ι : Type} {w : ι → Nat} {fs : List ι} {f : ι}

/-- The bits of all the fields together. -/
def bits (w : ι → Nat) (fs : List ι) : Nat := (fs.map w).sum

@[simp] theorem bits_nil : bits w [] = 0 := rfl

@[simp] theorem bits_cons (f : ι) (fs : List ι) : bits w (f :: fs) = w f + bits w fs := rfl

theorem bits_perm {gs : List ι} (h : fs.Perm gs) : bits w fs = bits w gs := (h.map w).sum_eq

variable [DecidableEq ι]

/-- Also returns what is left of the number. -/
def peel (w : ι → Nat) : List ι → Nat → (ι → Nat) → Nat × (ι → Nat)
  | [], n, v => (n, v)
  | f :: fs, n, v => peel w fs (n / 2 ^ w f) (Function.update v f (n % 2 ^ w f))

theorem peel_fst (fs : List ι) (n : Nat) (v : ι → Nat) : (peel w fs n v).1 = n / 2 ^ bits w fs := by
  induction fs generalizing n v with
  | nil => simp [peel]
  | cons f fs ih =>
    rw [peel, ih, bits_cons, Nat.pow_add, Nat.div_div_eq_div_mul]

theorem peel_of_notMem (h : f ∉ fs) (n : Nat) (v : ι → Nat) : (peel w fs n v).2 f = v f := by
  induction fs generalizing n v with
  | nil => rfl
  | cons g fs ih =>
    rw [List.mem_cons, not_or] at h
    rw [peel, ih h.2, Function.update_of_ne h.1]

theorem peel_congr {w' : ι → Nat} (h : ∀ f ∈ fs, w f = w' f) (n : Nat) (v : ι → Nat) :
    peel w fs n v = peel w' fs n v := by
  induction fs generalizing n v with
  | nil => rfl
  | cons f fs ih =>
    rw [List.forall_mem_cons] at h
    rw [peel, peel, h.1, ih h.2]

/-- What the other fields hold is not looked at. -/
theorem peel_update (h : f ∉ fs) (n x : Nat) (v : ι → Nat) :
    (peel w fs n (Function.update v f x)).2 = Function.update (peel w fs n v).2 f x := by
  induction fs generalizing n v with
  | nil => rfl
  | cons g fs ih =>
    rw [List.mem_cons, not_or] at h
    rw [peel, peel, Function.update_comm h.1, ih h.2]

theorem peel_lt (h : f ∈ fs) (n : Nat) (v : ι → Nat) : (peel w fs n v).2 f < 2 ^ w f := by
  induction fs generalizing n v with
  | nil => cases h
  | cons g fs ih =>
    rw [peel]
    by_cases hf : f ∈ fs
    · exact ih hf _ _
    · obtain rfl : f = g := by simpa [hf] using h
      rw [peel_of_notMem hf, Function.update_self]
      exact Nat.mod_lt _ (Nat.two_pow_pos _)

/-- Two numbers show the same fields when they agree on the bits of the fields. -/
theorem peel_eq_iff (hfs : fs.Nodup) {n m : Nat} {v u : ι → Nat} :
    (∀ f ∈ fs, (peel w fs n v).2 f = (peel w fs m u).2 f) ↔ n % 2 ^ bits w fs = m % 2 ^ bits w fs := by
  induction fs generalizing n m v u with
  | nil => simp [Nat.mod_one]
  | cons f fs ih =>
    obtain ⟨hf, hfs⟩ := List.nodup_cons.1 hfs
    have hsplit : ∀ k, k % 2 ^ bits w (f :: fs) = k % 2 ^ w f + 2 ^ w f * (k / 2 ^ w f % 2 ^ bits w fs) := by
      intro k
      rw [bits_cons, Nat.pow_add, Nat.mod_mul]
    have hpos : 0 < 2 ^ w f := Nat.two_pow_pos _
    simp only [List.forall_mem_cons, peel]
    rw [peel_of_notMem hf, peel_of_notMem hf, Function.update_self, Function.update_self, ih hfs, hsplit, hsplit]
    constructor
    · rintro ⟨h1, h2⟩
      rw [h1, h2]
    · intro h
      have hmod := congrArg (· % 2 ^ w f) h
      have hdiv := congrArg (· / 2 ^ w f) h
      simp only [Nat.add_mul_mod_self_left, Nat.mod_mod, Nat.add_mul_div_left _ _ hpos,
        Nat.div_eq_of_lt (Nat.mod_lt _ hpos), Nat.zero_add] at hmod hdiv
      exact ⟨hmod, hdiv⟩

end DynamicCache.Lib
