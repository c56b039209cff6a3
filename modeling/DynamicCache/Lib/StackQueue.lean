import Mathlib.Data.List.Nodup
import Mathlib.Order.Lattice

/-!
# Priority queues of stacks

For every key there is a stack of elements.  Elements are inserted on the stack
of their key, may be removed from its middle, and are taken from the top of the
first stack that is not empty.  `Step` is one action of such a queue, `Runs` a
sequence of them.

A list whose elements are in the order of their keys, the newest first among
equals, holds a queue (`stacksOf`): inserting before the first element whose key
is not smaller, erasing an element and taking the first one are the actions.
-/

namespace DynamicCache.Lib.StackQueue

variable {K α : Type} [LinearOrder K]

/-- The stacks that a list holds. -/
def stacksOf (key : α → K) (l : List α) (k : K) : List α := l.filter fun a => key a = k

theorem mem_stacksOf {key : α → K} {l : List α} {a : α} {k : K} : a ∈ stacksOf key l k ↔ a ∈ l ∧ key a = k := by
  simp [stacksOf]

theorem stacksOf_congr {key key' : α → K} {l : List α} (h : ∀ b ∈ l, key' b = key b) :
    stacksOf key' l = stacksOf key l := by
  funext k
  refine List.filter_congr fun b hb => ?_
  rw [h b hb]

variable [DecidableEq α]

inductive Act (K α : Type) where
  | insert (k : K) (a : α)
  | remove (a : α)
  | service (a : α)
deriving DecidableEq

inductive Step : (K → List α) → Act K α → (K → List α) → Prop where
  | insert {st : K → List α} {k : K} {a : α} (hnew : ∀ k', a ∉ st k') :
      Step st (.insert k a) (Function.update st k (a :: st k))
  | remove {st : K → List α} {k : K} {a : α} (hmem : a ∈ st k) :
      Step st (.remove a) (Function.update st k ((st k).erase a))
  | service {st : K → List α} {k : K} {a : α} {l : List α} (htop : st k = a :: l) (hleast : ∀ k', st k' ≠ [] → k ≤ k') :
      Step st (.service a) (Function.update st k l)

/-- The latest action comes last. -/
inductive Runs (st : K → List α) : List (Act K α) → (K → List α) → Prop where
  | nil : Runs st [] st
  | snoc {acts : List (Act K α)} {act : Act K α} {st' st'' : K → List α} :
      Runs st acts st' → Step st' act st'' → Runs st (acts ++ [act]) st''

/-! ## Sorted lists -/

variable {key : α → K} {a : α} {l l' : List α}

/-- The new element goes behind those with a smaller key. -/
theorem insert_step (hl : ∀ b ∈ l, key b < key a) (hnew : a ∉ l ++ l') :
    Step (stacksOf key (l ++ l')) (.insert (key a) a) (stacksOf key (l ++ a :: l')) := by
  have hstacks : stacksOf key (l ++ a :: l') =
      Function.update (stacksOf key (l ++ l')) (key a) (a :: stacksOf key (l ++ l') (key a)) := by
    funext k
    rw [Function.update_apply]
    simp only [stacksOf, List.filter_append, List.filter_cons]
    by_cases hk : k = key a
    · subst hk
      have hnil : l.filter (fun b => key b = key a) = [] := by
        rw [List.filter_eq_nil_iff]
        intro b hb
        simpa using (hl b hb).ne
      simp [hnil]
    · simp [hk, Ne.symm hk]
  rw [hstacks]
  exact .insert fun k' hk' => hnew (mem_stacksOf.1 hk').1

theorem remove_step (ha : a ∈ l) (hnd : l.Nodup) : Step (stacksOf key l) (.remove a) (stacksOf key (l.erase a)) := by
  have hstacks : stacksOf key (l.erase a) =
      Function.update (stacksOf key l) (key a) ((stacksOf key l (key a)).erase a) := by
    funext k
    rw [Function.update_apply]
    simp only [stacksOf, hnd.erase_eq_filter, (hnd.filter _).erase_eq_filter, List.filter_filter]
    split
    · next hk =>
      subst hk
      exact List.filter_congr fun b _ => Bool.and_comm _ _
    · next hk =>
      refine List.filter_congr fun b _ => ?_
      by_cases hb : b = a
      · subst hb
        simp [Ne.symm hk]
      · simp [hb]
  rw [hstacks]
  exact .remove (mem_stacksOf.2 ⟨ha, rfl⟩)

theorem service_step (hl : ∀ b ∈ l, key a ≤ key b) : Step (stacksOf key (a :: l)) (.service a) (stacksOf key l) := by
  have hstacks : stacksOf key l = Function.update (stacksOf key (a :: l)) (key a) (stacksOf key l (key a)) := by
    funext k
    rw [Function.update_apply]
    split
    · next hk => rw [hk]
    · next hk => simp [stacksOf, Ne.symm hk]
  rw [hstacks]
  refine .service (by simp [stacksOf]) fun k' hk' => ?_
  obtain ⟨b, hb⟩ := List.exists_mem_of_ne_nil _ hk'
  obtain ⟨hmem, rfl⟩ := mem_stacksOf.1 hb
  obtain rfl | hmem := List.mem_cons.1 hmem
  · exact le_refl _
  · exact hl b hmem

end DynamicCache.Lib.StackQueue
