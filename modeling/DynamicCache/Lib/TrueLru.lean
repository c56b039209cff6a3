import DynamicCache.Lib.ListMove
import Mathlib.Data.List.InsertIdx
import Mathlib.Logic.Function.Basic

/-!
# A set-associative cache with true LRU replacement

The cache as it is meant: every set is the list of its resident keys, most
recently used first, at most `ways` of them.  A load into a full set evicts the
last key.  An implementation keeps `ways` slots per set instead; `Packs` says
that the slots hold the resident keys in recency order, the empty slots coming
last, and the operations on slots keep it (`Packs.touch`, `Packs.load`,
`Packs.erase`).
-/

namespace DynamicCache.Lib

structure TrueLru (κ ι : Type) where
  ways : Nat
  index : κ → ι
  sets : ι → List κ

namespace TrueLru

variable {κ ι : Type} [DecidableEq κ] [DecidableEq ι]

def empty (ways : Nat) (index : κ → ι) : TrueLru κ ι := ⟨ways, index, fun _ => []⟩

variable (c : TrueLru κ ι)

def hit (x : κ) : Bool := decide (x ∈ c.sets (c.index x))

/-- A hit makes the key the most recently used one. -/
def access (x : κ) : TrueLru κ ι :=
  if c.hit x then
    { c with sets := Function.update c.sets (c.index x) (toFront x (c.sets (c.index x))) }
  else c

/-- The key that a load of `x` evicts. -/
def victim (x : κ) : Option κ :=
  if (c.sets (c.index x)).length < c.ways then none else (c.sets (c.index x)).getLast?

def insert (x : κ) : TrueLru κ ι :=
  let l := c.sets (c.index x)
  { c with sets := Function.update c.sets (c.index x) (x :: if l.length < c.ways then l else l.dropLast) }

/-- Drops the `k`-th resident key of a set. -/
def invalidate (i : ι) (k : Nat) : TrueLru κ ι :=
  { c with sets := Function.update c.sets i ((c.sets i).eraseIdx k) }

end TrueLru

/-! ## Slots of a set -/

section Packs

variable {κ : Type} [DecidableEq κ] {w : Nat} {sl : List (Option κ)} {l : List κ}

/-- `w` slots hold the keys `l`, in order, before the empty slots. -/
def Packs (w : Nat) (sl : List (Option κ)) (l : List κ) : Prop :=
  l.length ≤ w ∧ sl = l.map some ++ List.replicate (w - l.length) none

omit [DecidableEq κ] in
theorem packs_nil (w : Nat) : Packs w (List.replicate w (none : Option κ)) [] :=
  ⟨Nat.zero_le w, by simp⟩

omit [DecidableEq κ] in
theorem Packs.mem_iff (h : Packs w sl l) (x : κ) : some x ∈ sl ↔ x ∈ l := by
  rw [h.2, List.mem_append, List.mem_map]
  constructor
  · rintro (⟨y, hy, he⟩ | hr)
    · exact Option.some.inj he ▸ hy
    · cases (List.mem_replicate.1 hr).2
  · intro hx
    exact Or.inl ⟨x, hx, rfl⟩

theorem erase_map_some (x : κ) (l : List κ) : (l.map some).erase (some x) = (l.erase x).map some := by
  induction l with
  | nil => rfl
  | cons y l ih =>
    by_cases hy : y = x
    · subst hy; simp
    · rw [List.map_cons, List.erase_cons_tail (by simpa using hy), ih,
        List.erase_cons_tail (by simpa using hy), List.map_cons]

theorem Packs.touch {x : κ} (h : Packs w sl l) (hx : x ∈ l) : Packs w (touch x sl) (toFront x l) := by
  have hlen : (toFront x l).length = l.length := (toFront_perm hx).length_eq
  refine ⟨by rw [hlen]; exact h.1, ?_⟩
  rw [hlen, Lib.touch, toFront, toFront, h.2,
    List.erase_append_left _ (List.mem_map.2 ⟨x, hx, rfl⟩), erase_map_some]
  rfl

omit [DecidableEq κ] in
theorem Packs.load {x : κ} (h : Packs w sl l) (hw : 0 < w) :
    Packs w (load x sl) (x :: if l.length < w then l else l.dropLast) := by
  obtain ⟨hle, rfl⟩ := h
  unfold Lib.load
  split
  · next hlt =>
    refine ⟨by rw [List.length_cons]; omega, ?_⟩
    rw [List.length_cons, show w - l.length = (w - (l.length + 1)) + 1 by omega, List.replicate_succ',
      ← List.append_assoc, List.dropLast_concat]
    rfl
  · next hge =>
    refine ⟨by rw [List.length_cons, List.length_dropLast]; omega, ?_⟩
    rw [List.length_cons, List.length_dropLast, show w - l.length = 0 by omega,
      show w - (l.length - 1 + 1) = 0 by omega]
    simp

omit [DecidableEq κ] in
theorem Packs.erase {k : Nat} (h : Packs w sl l) (hk : k < l.length) :
    Packs w (sl.eraseIdx k ++ [none]) (l.eraseIdx k) := by
  obtain ⟨hle, rfl⟩ := h
  have hlen : (l.eraseIdx k).length = l.length - 1 := List.length_eraseIdx_of_lt hk
  refine ⟨by omega, ?_⟩
  rw [hlen, List.eraseIdx_append_of_lt_length (by rw [List.length_map]; exact hk), List.eraseIdx_map,
    List.append_assoc, ← List.replicate_succ', show w - l.length + 1 = w - (l.length - 1) by omega]

omit [DecidableEq κ] in
/-- The last slot shows the key that a load evicts. -/
theorem Packs.getLast? (h : Packs w sl l) (hw : 0 < w) :
    sl.getLast? = some (if l.length < w then none else l.getLast?) := by
  obtain ⟨hle, rfl⟩ := h
  split
  · next hlt =>
    rw [show w - l.length = (w - l.length - 1) + 1 by omega, List.replicate_succ', ← List.append_assoc,
      List.getLast?_concat]
  · next hge =>
    rw [show w - l.length = 0 by omega, List.replicate_zero, List.append_nil, List.getLast?_map]
    cases hl : l.getLast? with
    | none =>
      rw [List.getLast?_eq_none_iff] at hl
      subst hl
      simp at hge
      omega
    | some y => rfl

omit [DecidableEq κ] in
theorem Packs.getElem? (h : Packs w sl l) (k : Nat) (hk : k < w) : sl[k]? = some l[k]? := by
  obtain ⟨hle, rfl⟩ := h
  by_cases hkl : k < l.length
  · rw [List.getElem?_append_left (by rw [List.length_map]; exact hkl), List.getElem?_map,
      List.getElem?_eq_getElem hkl]
    rfl
  · rw [List.getElem?_append_right (by rw [List.length_map]; omega), List.length_map,
      List.getElem?_replicate, if_pos (by omega), List.getElem?_eq_none (by omega)]

end Packs

end DynamicCache.Lib
