import Mathlib.Data.List.Basic
import Mathlib.Data.List.Nodup

/-!
# Recency lists read through a view

Two recency moves on lists: `toFront x l` puts `x` first, `toBack x l` puts it
last, the other elements keeping their order.  A recency list usually holds
handles and is read through a view `v` (what the handle stands for).  The view
of such a list is a list of slots, `some x` for a handle that shows `x` and
`none` for one that shows nothing, and the three things that happen to a
recency list are three operations on its slots:

* `touch x`: the slot of `x` comes first (`map_toFront_of_find?`);
* `load x`: the last slot goes, `x` comes first (`map_toFront_load`);
* `clear x`: the slot of `x` is emptied and comes last (`map_toBack_clear`).

`countP_replace` is for counters of such a list: what one handle stands for has
changed.
-/

namespace DynamicCache.Lib

section Moves

variable {α β : Type} [BEq α] [LawfulBEq α] [BEq β] [LawfulBEq β] {l : List α} {x : α}

/-- `x` first, the rest in order. -/
def toFront (x : α) (l : List α) : List α := x :: l.erase x

/-- `x` last, the rest in order. -/
def toBack (x : α) (l : List α) : List α := l.erase x ++ [x]

theorem toFront_perm (h : x ∈ l) : (toFront x l).Perm l :=
  (List.perm_cons_erase h).symm

theorem toBack_perm (h : x ∈ l) : (toBack x l).Perm l :=
  (List.perm_append_singleton x (l.erase x)).trans (toFront_perm h)

/-- Erasing the first element that satisfies `p`, seen through a view that tells
exactly which elements do. -/
theorem map_erase_of_find? {p : α → Bool} {v : α → β} {x : β} {f : α} (hp : ∀ g ∈ l, p g = true ↔ v g = x)
    (hf : l.find? p = some f) : (l.erase f).map v = (l.map v).erase x := by
  induction l with
  | nil => simp at hf
  | cons g l ih =>
    rw [List.find?_cons] at hf
    cases hg : p g with
    | true =>
      rw [hg] at hf
      simp only [Option.some.injEq] at hf
      subst hf
      have hv : v g = x := (hp g List.mem_cons_self).1 hg
      simp [hv]
    | false =>
      rw [hg] at hf
      have hv : v g ≠ x := fun h => by
        have := (hp g List.mem_cons_self).2 h
        rw [hg] at this; cases this
      have hne : g ≠ f := fun h => by
        subst h
        have := List.find?_some hf
        rw [hg] at this; cases this
      rw [List.erase_cons_tail (by simpa using hne), List.map_cons, List.map_cons,
        List.erase_cons_tail (by simpa using hv),
        ih (fun g' h' => hp g' (List.mem_cons_of_mem _ h')) hf]

/-- Erasing from the back is erasing from the front when `x` occurs once. -/
theorem reverse_erase_of_nodup (h : l.Nodup) : (l.reverse.erase x).reverse = l.erase x := by
  have hr : l.reverse.Nodup := List.nodup_reverse.2 h
  rw [h.erase_eq_filter, hr.erase_eq_filter, ← List.filter_reverse, List.reverse_reverse]

theorem erase_getLast_of_nodup (hl : l ≠ []) (h : l.Nodup) : l.erase (l.getLast hl) = l.dropLast := by
  rw [← reverse_erase_of_nodup h]
  have hr : l.reverse = l.getLast hl :: l.dropLast.reverse := by
    conv_lhs => rw [← List.dropLast_append_getLast hl]
    rw [List.reverse_append]; rfl
  rw [hr, List.erase_cons_head, List.reverse_reverse]

end Moves

/-! ## Slots -/

section Slots

variable {α β : Type} [BEq α] [LawfulBEq α] [BEq β] [LawfulBEq β] {l : List α} {x : β} {p : α → Bool}
  {v : α → Option β} {f : α}

/-- The slot of `x` comes first. -/
def touch (x : β) (l : List (Option β)) : List (Option β) := toFront (some x) l

/-- The last slot goes; a slot with `x` comes first. -/
def load (x : β) (l : List (Option β)) : List (Option β) := some x :: l.dropLast

/-- The slot of `x` is emptied and comes last. -/
def clear (x : β) (l : List (Option β)) : List (Option β) := l.erase (some x) ++ [none]

omit [BEq α] [LawfulBEq α] [BEq β] [LawfulBEq β] in
/-- The search fails exactly when no slot shows `x`. -/
theorem find?_eq_none_iff_view {v : α → β} (hp : ∀ g ∈ l, p g = true ↔ v g = x) :
    l.find? p = none ↔ x ∉ l.map v := by
  rw [List.find?_eq_none, List.mem_map]
  constructor
  · rintro h ⟨g, hg, he⟩
    exact h g hg ((hp g hg).2 he)
  · intro h g hg hpg
    exact h ⟨g, hg, (hp g hg).1 hpg⟩

theorem map_toFront_of_find? (hp : ∀ g ∈ l, p g = true ↔ v g = some x) (hf : l.find? p = some f) :
    (toFront f l).map v = touch x (l.map v) := by
  have hv : v f = some x := (hp f (List.mem_of_find?_eq_some hf)).1 (List.find?_some hf)
  rw [toFront, touch, toFront, List.map_cons, map_erase_of_find? hp hf, hv]

omit [BEq β] [LawfulBEq β] in
/-- Views that agree off `f` agree on a list from which the only `f` is erased. -/
theorem map_erase_congr {v w : α → β} (hl : l.Nodup) (h : ∀ g, g ≠ f → w g = v g) :
    (l.erase f).map w = (l.erase f).map v := by
  refine List.map_congr_left fun g hg => h g fun he => ?_
  subst he
  exact hl.not_mem_erase hg

omit [BEq β] [LawfulBEq β] in
theorem map_toFront_load {w : α → Option β} (hl : l.Nodup) (hne : l ≠ [])
    (h : ∀ g, g ≠ l.getLast hne → w g = v g) (hx : w (l.getLast hne) = some x) :
    (toFront (l.getLast hne) l).map w = load x (l.map v) := by
  rw [toFront, List.map_cons, map_erase_congr hl h, hx, erase_getLast_of_nodup hne hl, load,
    List.map_dropLast]

theorem map_toBack_clear {w : α → Option β} (hl : l.Nodup) (hp : ∀ g ∈ l, p g = true ↔ v g = some x)
    (hf : l.find? p = some f) (h : ∀ g, g ≠ f → w g = v g) (hn : w f = none) :
    (toBack f l).map w = clear x (l.map v) := by
  rw [toBack, List.map_append, map_erase_congr hl h, map_erase_of_find? hp hf, clear,
    List.map_singleton, hn]

end Slots

/-! ## Counting -/

section Counting

variable {α : Type} [DecidableEq α] {l : List α} {a : α}

theorem countP_eq_erase (p : α → Bool) (ha : a ∈ l) : l.countP p = (l.erase a).countP p + (p a).toNat := by
  rw [(List.perm_cons_erase ha).countP_eq, List.countP_cons]
  cases p a <;> rfl

/-- Two counts of a list that differ at one element. -/
theorem countP_replace {p q : α → Bool} (hl : l.Nodup) (ha : a ∈ l) (h : ∀ x ∈ l, x ≠ a → p x = q x) :
    l.countP p + (q a).toNat = l.countP q + (p a).toNat := by
  have he : (l.erase a).countP p = (l.erase a).countP q :=
    List.countP_congr fun x hx => by
      rw [h x (List.mem_of_mem_erase hx) (hl.mem_erase_iff.1 hx).1]
  rw [countP_eq_erase p ha, countP_eq_erase q ha, he]
  omega

end Counting

end DynamicCache.Lib
