import DynamicCache.Lib.ListMove
import Mathlib.Algebra.BigOperators.Group.Finset.Basic
import Mathlib.Logic.Function.Basic

/-!
# Stack distances

A set-associative tag array with true LRU replacement that is fed every access
and allocates on every miss: `TagArray.run k` keeps at most `k` tags a set and
counts the hits since the last reset.  `Stack.run n` keeps `n` tags a set and
counts every hit at the place in the recency list where it found its tag.  The
arrays of fewer ways are prefixes of the one with `n` (`TagArray.run_sets`), so
the counts of the first `k` places add up to the hits of the `k`-way array
(`Stack.sum_counts`).
-/

namespace DynamicCache.Lib

variable {κ ι : Type} [DecidableEq κ] [DecidableEq ι]

/-! ## One set -/

/-- A set of `k` ways after an access to `x`: `x` comes first, and of the others
as many stay as there is room for. -/
def lruAccess (k : Nat) (x : κ) (l : List κ) : List κ := (toFront x l).take k

theorem take_erase (k : Nat) (x : κ) (l : List κ) : (l.erase x).take k = ((l.take (k + 1)).erase x).take k := by
  induction l generalizing k with
  | nil => simp
  | cons y l ih =>
    rw [List.take_succ_cons]
    by_cases hy : y = x
    · subst hy
      rw [List.erase_cons_head, List.erase_cons_head, List.take_take, Nat.min_self]
    · rw [List.erase_cons_tail (by simpa using hy), List.erase_cons_tail (by simpa using hy)]
      cases k with
      | zero => rfl
      | succ k => rw [List.take_succ_cons, List.take_succ_cons, ih k]

/-- The first `k` tags depend on the first `k` tags before the access only. -/
theorem take_lruAccess {k n : Nat} (h : k ≤ n) (x : κ) (l : List κ) :
    (lruAccess n x l).take k = lruAccess k x (l.take k) := by
  rw [lruAccess, lruAccess, List.take_take, Nat.min_eq_left h, toFront, toFront]
  cases k with
  | zero => rfl
  | succ k => rw [List.take_succ_cons, List.take_succ_cons, take_erase]

/-! ## Arrays -/

/-- What a tag array is given. -/
inductive Event (κ ι : Type) where
  | access (i : ι) (x : κ)
  | reset

/-- The sets of a tag array and its hits since the last reset. -/
structure TagArray (κ ι : Type) where
  sets : ι → List κ
  hits : Nat

namespace TagArray

def empty : TagArray κ ι := ⟨fun _ => [], 0⟩

def step (k : Nat) (c : TagArray κ ι) : Event κ ι → TagArray κ ι
  | .access i x =>
    { sets := Function.update c.sets i (lruAccess k x (c.sets i))
      hits := c.hits + if x ∈ c.sets i then 1 else 0 }
  | .reset => { c with hits := 0 }

/-- A `k`-way array, empty at first. -/
def run (k : Nat) (es : List (Event κ ι)) : TagArray κ ι := es.foldl (step k) empty

theorem run_concat (k : Nat) (es : List (Event κ ι)) (e : Event κ ι) : run k (es ++ [e]) = (run k es).step k e := by
  rw [run, run, List.foldl_append]
  rfl

theorem run_sets {k n : Nat} (h : k ≤ n) (es : List (Event κ ι)) (i : ι) :
    (run k es).sets i = ((run n es).sets i).take k := by
  induction es using List.reverseRecOn generalizing i with
  | nil => exact List.take_nil.symm
  | append_singleton es e ih =>
    rw [run_concat, run_concat]
    cases e with
    | reset => exact ih i
    | access j x =>
      simp only [step, Function.update_apply]
      split
      · rw [take_lruAccess h, ih j]
      · exact ih i

end TagArray

/-! ## Hits by place -/

/-- The sets of an array and, for every place in a set, the hits there since the
last reset. -/
structure Stack (κ ι : Type) where
  sets : ι → List κ
  counts : Nat → Nat

namespace Stack

def empty : Stack κ ι := ⟨fun _ => [], fun _ => 0⟩

def step (n : Nat) (s : Stack κ ι) : Event κ ι → Stack κ ι
  | .access i x =>
    { sets := Function.update s.sets i (lruAccess n x (s.sets i))
      counts :=
        if x ∈ s.sets i then
          Function.update s.counts ((s.sets i).idxOf x) (s.counts ((s.sets i).idxOf x) + 1)
        else s.counts }
  | .reset => { s with counts := fun _ => 0 }

def run (n : Nat) (es : List (Event κ ι)) : Stack κ ι := es.foldl (step n) empty

theorem run_concat (n : Nat) (es : List (Event κ ι)) (e : Event κ ι) : run n (es ++ [e]) = (run n es).step n e := by
  rw [run, run, List.foldl_append]
  rfl

theorem run_sets (n : Nat) (es : List (Event κ ι)) : (run n es).sets = (TagArray.run n es).sets := by
  induction es using List.reverseRecOn with
  | nil => rfl
  | append_singleton es e ih =>
    rw [run_concat, TagArray.run_concat]
    cases e with
    | reset => exact ih
    | access i x => simp only [step, TagArray.step, ih]

/-- One more at place `d` counts for the first `k` places when `d` is one of them. -/
theorem sum_update (f : Nat → Nat) (d k : Nat) :
    ∑ i ∈ Finset.range k, Function.update f d (f d + 1) i = ∑ i ∈ Finset.range k, f i + if d < k then 1 else 0 := by
  induction k with
  | zero => simp
  | succ k ih =>
    rw [Finset.sum_range_succ, Finset.sum_range_succ, ih, Function.update_apply]
    by_cases hk : k = d
    · subst hk
      rw [if_pos rfl, if_neg (Nat.lt_irrefl k), if_pos (Nat.lt_succ_self k)]
      omega
    · rw [if_neg hk]
      split <;> split <;> omega

/-- The inclusion property: one array of `n` ways measures all smaller ones. -/
theorem sum_counts {k n : Nat} (h : k ≤ n) (es : List (Event κ ι)) :
    ∑ d ∈ Finset.range k, (run n es).counts d = (TagArray.run k es).hits := by
  induction es using List.reverseRecOn with
  | nil => simp [run, empty, TagArray.run, TagArray.empty]
  | append_singleton es e ih =>
    rw [run_concat, TagArray.run_concat]
    cases e with
    | reset => simp [step, TagArray.step]
    | access i x =>
      -- a tag is in the prefix of `k` when its place is below `k`
      have hsets : (TagArray.run k es).sets i = ((run n es).sets i).take k := by
        rw [run_sets, TagArray.run_sets h]
      simp only [step, TagArray.step, hsets]
      split
      · next hx =>
        rw [sum_update, ih]
        simp only [List.mem_take_iff_idxOf_lt hx]
      · next hx =>
        have hx' : x ∉ ((run n es).sets i).take k := fun hm => hx (List.mem_of_mem_take hm)
        rw [if_neg hx', ih, Nat.add_zero]

end Stack

end DynamicCache.Lib
