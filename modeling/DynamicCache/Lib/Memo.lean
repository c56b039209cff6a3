import Mathlib.Logic.Function.Basic

/-!
# Memoizing constructors

A memoizing constructor looks up its key in a table and makes a value only where the
table has none.  The values are mutable: a table entry is replaced by what a user of the
value has left.  `Kept good table` says that every entry is still a good one for its
key; it holds of what the constructor returns as long as newly made values are good
(`Kept.memoized`, `Kept.memoized_total`) and users leave good values (`Kept.update`).
-/

namespace DynamicCache.Lib

variable {κ β ε : Type} {table : κ → Option β} {make : κ → Except ε β} {good : κ → β → Prop} {k : κ} {b : β}

/-- `table[k] ||= make(k)` -/
def memoized (table : κ → Option β) (make : κ → Except ε β) (k : κ) : Except ε β :=
  match table k with
  | some b => .ok b
  | none => make k

def Kept (good : κ → β → Prop) (table : κ → Option β) : Prop := ∀ k b, table k = some b → good k b

theorem kept_empty : Kept good fun _ => none := fun _ _ h => by cases h

theorem Kept.memoized (hkept : Kept good table) (hmake : ∀ b, make k = .ok b → good k b)
    (h : memoized table make k = .ok b) : good k b := by
  unfold Lib.memoized at h
  split at h
  · next b' hb =>
    cases h
    exact hkept k b hb
  · exact hmake b h

theorem Kept.memoized_total (hkept : Kept good table) (hmake : ∃ b, make k = .ok b ∧ good k b) :
    ∃ b, Lib.memoized table make k = .ok b ∧ good k b := by
  unfold Lib.memoized
  split
  · next b hb => exact ⟨b, rfl, hkept k b hb⟩
  · exact hmake

theorem Kept.update [DecidableEq κ] (hkept : Kept good table) (hb : good k b) :
    Kept good (Function.update table k (some b)) := by
  intro k' b' h
  by_cases heq : k' = k
  · subst heq
    cases (Function.update_self k' _ table).symm.trans h
    exact hb
  · exact hkept k' b' ((Function.update_of_ne heq _ table).symm.trans h)

end DynamicCache.Lib
