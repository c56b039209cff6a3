import Mathlib.Data.List.Basic
import Mathlib.Logic.Function.Iterate

/-!
# Scanning queues

`popFirst ok prev l` is a loop over a queue that removes the first element `ok`
accepts; `ok` also sees the element before.  `findSplit` only finds it, for an `ok`
that looks at everything before.  `rotate` is a loop that starts
anywhere in a cycle and stops at the first success or when it is back at the
start; if it finds nothing, there is nothing anywhere in the cycle
(`rotate_none`).
-/

namespace DynamicCache.Lib

section PopFirst

variable {α : Type} {ok : Option α → α → Bool} {prev : Option α} {l : List α}

def popFirst (ok : Option α → α → Bool) : Option α → List α → Option (α × List α)
  | _, [] => none
  | prev, x :: xs =>
    if ok prev x then some (x, xs)
    else (popFirst ok (some x) xs).map fun (y, ys) => (y, x :: ys)

theorem popFirst_cons_of_pos {x : α} {xs : List α} (h : ok prev x = true) :
    popFirst ok prev (x :: xs) = some (x, xs) := by
  rw [popFirst, if_pos h]

theorem popFirst_cons_of_neg {x : α} {xs : List α} (h : ok prev x = false) :
    popFirst ok prev (x :: xs) = (popFirst ok (some x) xs).map fun (y, ys) => (y, x :: ys) := by
  rw [popFirst, h, if_neg (by decide)]

/-- What is removed is accepted, and what stands before it is not. -/
theorem popFirst_first {rest : List α} {y : α} (h : popFirst ok prev l = some (y, rest)) :
    ∃ l₁ l₂, l = l₁ ++ y :: l₂ ∧ rest = l₁ ++ l₂ ∧ (∃ q, ok q y = true) ∧ ∀ x ∈ l₁, ∃ q, ok q x = false := by
  induction l generalizing prev rest with
  | nil => cases h
  | cons x xs ih =>
    cases hx : ok prev x with
    | true =>
      rw [popFirst_cons_of_pos hx] at h
      obtain ⟨rfl, rfl⟩ := Prod.mk.inj (Option.some.inj h)
      exact ⟨[], _, rfl, rfl, ⟨prev, hx⟩, nofun⟩
    | false =>
      rw [popFirst_cons_of_neg hx] at h
      obtain ⟨⟨y', rest'⟩, h', he⟩ := Option.map_eq_some_iff.1 h
      obtain ⟨rfl, rfl⟩ := Prod.mk.inj he
      obtain ⟨l₁, l₂, rfl, rfl, hq, hfirst⟩ := ih h'
      exact ⟨x :: l₁, l₂, rfl, rfl, hq, List.forall_mem_cons.2 ⟨⟨prev, hx⟩, hfirst⟩⟩

theorem popFirst_some {rest : List α} {y : α} (h : popFirst ok prev l = some (y, rest)) :
    ∃ l₁ l₂, l = l₁ ++ y :: l₂ ∧ rest = l₁ ++ l₂ ∧ ∃ q, ok q y = true := by
  obtain ⟨l₁, l₂, hl, hrest, hq, -⟩ := popFirst_first h
  exact ⟨l₁, l₂, hl, hrest, hq⟩

theorem popFirst_none (h : popFirst ok prev l = none) : ∀ x ∈ l, ∃ q, ok q x = false := by
  induction l generalizing prev with
  | nil => exact nofun
  | cons x xs ih =>
    cases hx : ok prev x with
    | true =>
      rw [popFirst_cons_of_pos hx] at h
      cases h
    | false =>
      rw [popFirst_cons_of_neg hx, Option.map_eq_none_iff] at h
      intro z hz
      rcases List.mem_cons.1 hz with rfl | hz
      · exact ⟨prev, hx⟩
      · exact ih h z hz

end PopFirst

section FindSplit

variable {α : Type} {ok : List α → α → Bool}

/-- The first element that `ok` accepts, with what stands before and after it; `ok` sees
everything before. -/
def findSplit (ok : List α → α → Bool) : List α → List α → Option (List α × α × List α)
  | _, [] => none
  | before, x :: xs => if ok before x then some (before, x, xs) else findSplit ok (before ++ [x]) xs

theorem findSplit_some {before l l₁ l₂ : List α} {x : α} (h : findSplit ok before l = some (l₁, x, l₂)) :
    before ++ l = l₁ ++ x :: l₂ ∧ ok l₁ x = true := by
  induction l generalizing before with
  | nil => cases h
  | cons z zs ih =>
    rw [findSplit] at h
    split at h
    · next hz =>
      cases h
      exact ⟨rfl, hz⟩
    · obtain ⟨hl, hx⟩ := ih h
      exact ⟨by rw [← hl, List.append_assoc, List.singleton_append], hx⟩

end FindSplit

section Rotate

variable {σ β : Type} [DecidableEq σ] {next : σ → σ} {start : σ} {visit : σ → Option β}

def rotate (next : σ → σ) (start : σ) (visit : σ → Option β) : Nat → σ → σ × Option β
  | 0, x => (x, none)
  | n + 1, x =>
    match visit x with
    | some b => (x, some b)
    | none => if next x = start then (next x, none) else rotate next start visit n (next x)

theorem rotate_some {n : Nat} {x y : σ} {b : β} (h : rotate next start visit n x = (y, some b)) :
    visit y = some b := by
  induction n generalizing x with
  | zero => cases h
  | succ n ih =>
    rw [rotate] at h
    split at h
    · next b' hb =>
      obtain ⟨rfl, he⟩ := Prod.mk.inj h
      rw [hb, he]
    · split at h
      · cases h
      · exact ih h

theorem rotate_mem {n : Nat} {x : σ} {p : σ → Prop} (hn : ∀ y, p y → p (next y)) (hx : p x) :
    p (rotate next start visit n x).1 := by
  induction n generalizing x with
  | zero => exact hx
  | succ n ih =>
    rw [rotate]
    split
    · exact hx
    · split
      · exact hn x hx
      · exact ih (hn x hx)

/-- The states are numbered along the cycle; a loop through all of them that finds
nothing has visited every one. -/
theorem rotate_none {size : Nat} {p : σ → Prop} (index : σ → Nat)
    (hnext : ∀ y, p y → p (next y) ∧ index (next y) = (index y + 1) % size)
    (hlt : ∀ y, p y → index y < size)
    (hinj : ∀ y z, p y → p z → index y = index z → y = z) (hs : p start) {x : σ}
    (h : rotate next start visit size start = (x, none)) {y : σ} (hy : p y) : visit y = none := by
  have hpos : ∀ i, p (next^[i] start) ∧ index (next^[i] start) = (index start + i) % size := by
    intro i
    induction i with
    | zero => exact ⟨hs, (Nat.mod_eq_of_lt (hlt _ hs)).symm⟩
    | succ i ih =>
      rw [Function.iterate_succ_apply']
      obtain ⟨h1, h2⟩ := hnext _ ih.1
      refine ⟨h1, ?_⟩
      rw [h2, ih.2, Nat.mod_add_mod, Nat.add_assoc]
  -- the loop has seen the states from the `j`-th on
  have hvisit : ∀ n j x, j + n = size → rotate next start visit n (next^[j] start) = (x, none) →
      ∀ i, j ≤ i → i < size → visit (next^[i] start) = none := by
    intro n
    induction n with
    | zero => intro j x hj _ i h1 h2; omega
    | succ n ih =>
      intro j x hj hr i h1 h2
      rw [rotate] at hr
      split at hr
      · cases hr
      · next hv =>
        by_cases hij : i = j
        · rw [hij]
          exact hv
        · split at hr
          · -- back at the start: `j` was the last
            next he =>
            have hidx := (hpos (j + 1)).2
            rw [Function.iterate_succ_apply', he] at hidx
            have hi0 := hlt _ hs
            rcases Nat.lt_or_ge (index start + (j + 1)) size with hw | hw
            · rw [Nat.mod_eq_of_lt hw] at hidx
              omega
            · rw [Nat.mod_eq_sub_mod hw, Nat.mod_eq_of_lt (by omega)] at hidx
              omega
          · rw [← Function.iterate_succ_apply' next] at hr
            exact ih (j + 1) x (by omega) hr i (by omega) h2
  have hi0 := hlt _ hs
  have hiy := hlt _ hy
  obtain ⟨i, hi, hmod⟩ : ∃ i, i < size ∧ (index start + i) % size = index y := by
    rcases Nat.lt_or_ge (index y) (index start) with hw | hw
    · refine ⟨index y + size - index start, by omega, ?_⟩
      rw [show index start + (index y + size - index start) = index y + size by omega,
        Nat.add_mod_right, Nat.mod_eq_of_lt hiy]
    · refine ⟨index y - index start, by omega, ?_⟩
      rw [show index start + (index y - index start) = index y by omega, Nat.mod_eq_of_lt hiy]
  have heq : next^[i] start = y := hinj _ _ (hpos i).1 hy ((hpos i).2.trans hmod)
  rw [← heq]
  exact hvisit size 0 x (by omega) h i (by omega) hi

end Rotate

end DynamicCache.Lib
