import Mathlib.Data.List.Basic
import Mathlib.Logic.Function.Basic

/-!
# Linked lists in a store

`next` gives the successor of a cell.  `Segment next p l q` says that following
`next` from `p` one visits the cells `l` and arrives at `q`; a list ends at
`none`.  Cells outside `l` may hold anything.

`walk` is the loop that follows `next` with the previous cell at hand, as long as
the cell passes a test: on a list it stops at the first cell that does not
(`walk_append`).  A cell is taken out of a list by a walk to the cell before it
(`Segment.unlink`).
-/

namespace DynamicCache.Lib

variable {α : Type} {next next' : α → Option α} {p q r : Option α} {l m : List α}

def Segment (next : α → Option α) : Option α → List α → Option α → Prop
  | p, [], q => p = q
  | p, a :: l, q => p = some a ∧ Segment next (next a) l q

theorem segment_append : Segment next p (l ++ m) r ↔ ∃ q, Segment next p l q ∧ Segment next q m r := by
  induction l generalizing p with
  | nil =>
    constructor
    · exact fun h => ⟨p, rfl, h⟩
    · rintro ⟨q, rfl, h⟩
      exact h
  | cons a l ih =>
    constructor
    · rintro ⟨hp, h⟩
      obtain ⟨q, hl, hm⟩ := ih.1 h
      exact ⟨q, ⟨hp, hl⟩, hm⟩
    · rintro ⟨q, ⟨hp, hl⟩, hm⟩
      exact ⟨hp, ih.2 ⟨q, hl, hm⟩⟩

theorem Segment.congr (h : Segment next p l q) (hl : ∀ a ∈ l, next' a = next a) : Segment next' p l q := by
  induction l generalizing p with
  | nil => exact h
  | cons a l ih =>
    refine ⟨h.1, ?_⟩
    rw [hl a List.mem_cons_self]
    exact ih h.2 fun b hb => hl b (List.mem_cons_of_mem _ hb)

theorem Segment.head (h : Segment next p l none) : p = l.head? := by
  cases l with
  | nil => exact h
  | cons a l => exact h.1

section Update

variable [DecidableEq α] {a : α}

theorem Segment.update (h : Segment next p l q) (ha : a ∉ l) (x : Option α) :
    Segment (Function.update next a x) p l q :=
  h.congr fun _ hb => Function.update_of_ne (ne_of_mem_of_not_mem hb ha) _ _

/-- The list is cut behind `a` and goes on with `m`. -/
theorem Segment.relink {x : Option α} (h : Segment next p (l ++ [a]) q) (hl : a ∉ l) (hx : Segment next x m r)
    (hm : a ∉ m) : Segment (Function.update next a x) p (l ++ a :: m) r := by
  obtain ⟨q', h1, h2, -⟩ := segment_append.1 h
  refine segment_append.2 ⟨q', h1.update hl x, h2, ?_⟩
  rw [Function.update_self]
  exact hx.update hm x

end Update

/-! ## Walking -/

/-- The last cell that passed the test and the one after it; `none` when the bound
on the number of iterations is too small. -/
def walk (next : α → Option α) (go : α → Bool) : Nat → α → Option α → Option (α × Option α)
  | 0, _, _ => none
  | _ + 1, prev, none => some (prev, none)
  | n + 1, prev, some c => if go c then walk next go n c (next c) else some (prev, some c)

theorem walk_append {go : α → Bool} {n : Nat} {prev : α} (h : Segment next p (l ++ m) none) (hl : ∀ a ∈ l, go a = true)
    (hm : ∀ a, m.head? = some a → go a = false) (hn : l.length < n) :
    walk next go n prev p = some ((prev :: l).getLast (List.cons_ne_nil _ _), m.head?) := by
  induction l generalizing p prev n with
  | nil =>
    cases n with
    | zero => cases hn
    | succ n =>
      rw [h.head]
      cases hm' : m.head? with
      | none => simp [walk, hm']
      | some a => simp [walk, hm', hm a hm']
  | cons a l ih =>
    obtain ⟨rfl, h⟩ := h
    cases n with
    | zero => cases hn
    | succ n =>
      rw [walk, if_pos (hl a List.mem_cons_self),
        ih h (fun b hb => hl b (List.mem_cons_of_mem _ hb)) (Nat.lt_of_succ_lt_succ hn),
        List.getLast_cons (List.cons_ne_nil _ _)]

/-- Walking from the head `x` of a list to a cell `e` behind it finds the cell before `e`,
and linking that one to the cell after `e` takes `e` out of the list. -/
theorem Segment.unlink [DecidableEq α] {x e : α} {r₁ r₂ : List α} {n : Nat}
    (h : Segment next (next x) (r₁ ++ e :: r₂) none) (hnd : (x :: (r₁ ++ e :: r₂)).Nodup) (hn : r₁.length < n) :
    ∃ a ∈ x :: r₁, walk next (fun c => c != e) n x (next x) = some (a, some e) ∧
      Segment (Function.update next a (next e)) (some x) (x :: (r₁ ++ r₂)) none := by
  obtain ⟨l, a, hla⟩ : ∃ l a, x :: r₁ = l ++ [a] :=
    ⟨_, _, (List.dropLast_append_getLast (List.cons_ne_nil x r₁)).symm⟩
  rw [← List.cons_append, hla, List.append_assoc, List.nodup_append, List.singleton_append, List.nodup_cons] at hnd
  obtain ⟨-, ⟨hae, -⟩, hdisj⟩ := hnd
  have hal : a ∉ l := fun h' => hdisj a h' a List.mem_cons_self rfl
  have hgo : ∀ y ∈ r₁, (y != e) = true := by
    intro y hy
    have hmem : y ∈ l ++ [a] := hla ▸ List.mem_cons_of_mem _ hy
    refine bne_iff_ne.2 ?_
    rintro rfl
    obtain hmem | hmem := List.mem_append.1 hmem
    · exact hdisj _ hmem _ (List.mem_cons_of_mem _ List.mem_cons_self) rfl
    · exact hae (List.mem_singleton.1 hmem ▸ List.mem_cons_self)
  have hstop : ∀ y, (e :: r₂).head? = some y → (y != e) = false := by
    intro y hy
    simp [Option.some.inj hy]
  refine ⟨a, hla ▸ List.mem_append_right _ List.mem_cons_self, ?_, ?_⟩
  · rw [walk_append h hgo hstop hn]
    simp only [hla, List.getLast_append_singleton, List.head?_cons]
  · obtain ⟨m, h₁, h₂⟩ := segment_append.1 h
    have hfirst : Segment next (some x) (l ++ [a]) m := hla ▸ ⟨rfl, h₁⟩
    have hcut := hfirst.relink hal h₂.2 fun h' => hae (List.mem_cons_of_mem _ h')
    rwa [show l ++ a :: r₂ = x :: (r₁ ++ r₂) by rw [← List.cons_append, hla, List.append_assoc]; rfl] at hcut

end DynamicCache.Lib
