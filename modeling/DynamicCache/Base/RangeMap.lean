import DynamicCache.Lib.Faults
import Mathlib.Data.List.Pairwise
import Mathlib.Data.Nat.Basic
import Mathlib.Order.Lattice

/-!
# Ranges and range maps (`range.hh`, `range_map.hh`)

A `range_map` is an STL map whose keys are ranges, ordered by their starts alone.
`find` looks at one neighbour of the place where a range would go: the stored
range before it, or the first one of all when there is none before.

For a single address that is enough (`Disjoint.find_point`).  For a whole range it is
not: a range that begins in a gap and reaches into the next stored range is not
seen.  `insert` refuses exactly the ranges that overlap a stored one in the states
and for the ranges that `Heeds` describes, and as long as only such ranges are
inserted the stored ranges stay disjoint (`insert_refuses_overlap`);
`gap_range_accepted` is a run in which they do not.
-/

namespace DynamicCache.Base

open Lib

/-- A range of addresses, both ends included. -/
structure Range (α : Type) where
  start : α
  end_ : α
deriving DecidableEq, Repr

variable {α V : Type} [LinearOrder α] {i r : Range α} {l : List (Range α × V)} {e : Range α × V} {pos : α}
  {d : V}

namespace Range

/-- `Range::valid` -/
def valid (r : Range α) : Bool := r.start < r.end_

/-- The test of `find` for the stored range `i`. -/
def Meets (r i : Range α) : Prop := i.start ≤ r.end_ ∧ r.start ≤ i.end_

instance (r i : Range α) : Decidable (r.Meets i) := inferInstanceAs (Decidable (_ ∧ _))

/-- `pos == range` -/
def Contains (r : Range α) (pos : α) : Prop := r.start ≤ pos ∧ pos ≤ r.end_

instance (r : Range α) (pos : α) : Decidable (r.Contains pos) := inferInstanceAs (Decidable (_ ∧ _))

theorem Meets.symm (h : r.Meets i) : i.Meets r := ⟨h.2, h.1⟩

theorem meets_point : Meets ⟨pos, pos⟩ i ↔ i.Contains pos := Iff.rfl

/-- Two ranges with an address in common overlap. -/
theorem Contains.meets (h : r.Contains pos) (h' : i.Contains pos) : r.Meets i :=
  ⟨h'.1.trans h.2, h.1.trans h'.2⟩

theorem le_of_valid (h : r.valid = true) : r.start ≤ r.end_ := (of_decide_eq_true h).le

end Range

/-- An STL map from ranges to values, in the order of its iterators. -/
structure RangeMap (α V : Type) [LinearOrder α] where
  tree : List (Range α × V)
  sorted : tree.Pairwise fun a b => a.1.start < b.1.start

namespace RangeMap

def empty : RangeMap α V := ⟨[], .nil⟩

/-- A map with one range. -/
def single (r : Range α) (d : V) : RangeMap α V := ⟨[(r, d)], List.pairwise_singleton _ _⟩

variable (m : RangeMap α V)

/-! ## Search -/

/-- `tree.upper_bound(r)`: the first range that starts after `r` does. -/
def upperBound (r : Range α) : Option (Range α × V) :=
  (m.tree.dropWhile fun i => i.1.start ≤ r.start).head?

/-- The range before `upper_bound(r)`, none if that is `begin()`. -/
def before (r : Range α) : Option (Range α × V) :=
  (m.tree.takeWhile fun i => i.1.start ≤ r.start).getLast?

/-- In an empty map both branches of the source return `end()`. -/
def find (r : Range α) : Option (Range α × V) :=
  match m.before r with
  | none => (m.upperBound r).filter fun i => r.Meets i.1
  | some i => if r.Meets i.1 then some i else none

def intersect (r : Range α) : Bool := (m.find r).isSome

/-! ## Changes -/

/-- `tree.insert`: a key with the same start keeps its place and its value. -/
def insertTree (r : Range α) (d : V) : List (Range α × V) → List (Range α × V)
  | [] => [(r, d)]
  | i :: l =>
    if r.start < i.1.start then (r, d) :: i :: l
    else if i.1.start < r.start then i :: insertTree r d l
    else i :: l

theorem mem_insertTree (h : e ∈ insertTree r d l) : e = (r, d) ∨ e ∈ l := by
  induction l with
  | nil => simpa [insertTree] using h
  | cons i l ih =>
    unfold insertTree at h
    split at h
    · exact List.mem_cons.1 h
    · split at h
      · rcases List.mem_cons.1 h with h | h
        · exact .inr (h ▸ List.mem_cons_self)
        · exact (ih h).imp_right (List.mem_cons_of_mem i)
      · exact .inr h

theorem sorted_insertTree (h : l.Pairwise fun a b => a.1.start < b.1.start) :
    (insertTree r d l).Pairwise fun a b => a.1.start < b.1.start := by
  induction l with
  | nil => exact List.pairwise_singleton _ _
  | cons i l ih =>
    obtain ⟨hi, hl⟩ := List.pairwise_cons.1 h
    unfold insertTree
    split
    · next hlt =>
      refine List.pairwise_cons.2 ⟨fun e he => ?_, h⟩
      rcases List.mem_cons.1 he with rfl | he
      · exact hlt
      · exact hlt.trans (hi e he)
    · split
      · next hgt =>
        refine List.pairwise_cons.2 ⟨fun e he => ?_, ih hl⟩
        rcases mem_insertTree he with rfl | he
        · exact hgt
        · exact hi e he
      · exact h

/-- A new start gets a place of its own. -/
theorem insertTree_perm (h : ∀ e ∈ l, e.1.start ≠ r.start) : (insertTree r d l).Perm ((r, d) :: l) := by
  induction l with
  | nil => exact .refl _
  | cons i l ih =>
    have hi := h i List.mem_cons_self
    unfold insertTree
    split
    · exact .refl _
    · next hge =>
      rw [if_pos (lt_of_le_of_ne (not_lt.1 hge) hi)]
      exact ((ih fun e he => h e (List.mem_cons_of_mem i he)).cons i).trans (.swap _ _ _)

/-- `none` is the refusal, `end()`. -/
def insert (r : Range α) (d : V) : Option (RangeMap α V) :=
  if m.intersect r then none else some ⟨insertTree r d m.tree, sorted_insertTree m.sorted⟩

theorem take_append_drop_sublist {β : Type} (l : List β) (p n : Nat) : (l.take p ++ l.drop (p + n)).Sublist l := by
  have h := (List.Sublist.refl (l.take p)).append (List.drop_sublist n (l.drop p))
  rwa [List.drop_drop, List.take_append_drop] at h

/-- `erase(p, q)`: the `n` ranges from position `p` on. -/
def erase (p n : Nat) : RangeMap α V where
  tree := m.tree.take p ++ m.tree.drop (p + n)
  sorted := m.sorted.sublist (take_append_drop_sublist m.tree p n)

/-- The loop that erases every range with a value `p` holds for. -/
def eraseIf (p : V → Bool) : RangeMap α V where
  tree := m.tree.filter fun i => !p i.2
  sorted := m.sorted.sublist List.filter_sublist

/-! ## The neighbours of a range -/

section Neighbours

variable {m} {r : Range α} {i e : Range α × V}

/-- In a sorted list the elements before the first one that fails a downward closed
test are those that pass it. -/
theorem mem_takeWhile_iff (h : l.Pairwise fun a b => a.1.start < b.1.start) :
    e ∈ l.takeWhile (fun i => i.1.start ≤ r.start) ↔ e ∈ l ∧ e.1.start ≤ r.start := by
  induction l with
  | nil => simp
  | cons x l ih =>
    obtain ⟨hx, hl⟩ := List.pairwise_cons.1 h
    by_cases hr : x.1.start ≤ r.start
    · rw [List.takeWhile_cons_of_pos (by simpa using hr), List.mem_cons, List.mem_cons, ih hl]
      constructor
      · rintro (rfl | ⟨he, hs⟩)
        · exact ⟨.inl rfl, hr⟩
        · exact ⟨.inr he, hs⟩
      · rintro ⟨rfl | he, hs⟩
        · exact .inl rfl
        · exact .inr ⟨he, hs⟩
    · rw [List.takeWhile_cons_of_neg (by simpa using hr)]
      constructor
      · intro he
        cases he
      · rintro ⟨he, hs⟩
        rcases List.mem_cons.1 he with rfl | he
        · exact absurd hs hr
        · exact absurd ((hx e he).le.trans hs) hr

/-- The range before is the last one that starts no later. -/
theorem before_some (h : m.before r = some i) :
    i ∈ m.tree ∧ i.1.start ≤ r.start ∧ ∀ e ∈ m.tree, e.1.start ≤ r.start → e = i ∨ e.1.start < i.1.start := by
  have hsub : (m.tree.takeWhile fun i => i.1.start ≤ r.start).Pairwise fun a b => a.1.start < b.1.start :=
    m.sorted.sublist (List.takeWhile_sublist _)
  obtain ⟨l, hl⟩ := List.getLast?_eq_some_iff.1 h
  obtain ⟨hi, hs⟩ := (mem_takeWhile_iff m.sorted).1 (show i ∈ m.tree.takeWhile _ by rw [hl]; simp)
  refine ⟨hi, hs, fun e he hes => ?_⟩
  have hm := (mem_takeWhile_iff m.sorted).2 ⟨he, hes⟩
  rw [hl] at hm hsub
  rcases List.mem_append.1 hm with hm | hm
  · exact .inr ((List.pairwise_append.1 hsub).2.2 e hm i (by simp))
  · exact .inl (List.mem_singleton.1 hm)

theorem before_none (h : m.before r = none) (he : e ∈ m.tree) : r.start < e.1.start := by
  rw [before, List.getLast?_eq_none_iff] at h
  by_contra hlt
  have := (mem_takeWhile_iff m.sorted).2 ⟨he, not_lt.1 hlt⟩
  rw [h] at this
  cases this

theorem dropWhile_head_lt (h : (l.dropWhile fun i => i.1.start ≤ r.start).head? = some i) :
    r.start < i.1.start := by
  have := List.head?_dropWhile_not (fun i : Range α × V => decide (i.1.start ≤ r.start)) l
  rw [h] at this
  simpa using this

/-- The upper bound is the first range that starts later. -/
theorem upperBound_some (h : m.upperBound r = some i) :
    i ∈ m.tree ∧ r.start < i.1.start ∧ ∀ e ∈ m.tree, r.start < e.1.start → i.1.start ≤ e.1.start := by
  have hsub : (m.tree.dropWhile fun i => i.1.start ≤ r.start).Pairwise fun a b => a.1.start < b.1.start :=
    m.sorted.sublist (List.dropWhile_sublist _)
  obtain ⟨l, hl⟩ := List.head?_eq_some_iff.1 h
  have hi : i ∈ m.tree := (List.dropWhile_sublist _).subset (show i ∈ m.tree.dropWhile _ by rw [hl]; simp)
  refine ⟨hi, dropWhile_head_lt h, fun e he hes => ?_⟩
  have hm : e ∈ m.tree.dropWhile fun i => i.1.start ≤ r.start := by
    rw [← List.takeWhile_append_dropWhile (p := fun i : Range α × V => decide (i.1.start ≤ r.start))
      (l := m.tree)] at he
    rcases List.mem_append.1 he with he | he
    · exact absurd ((mem_takeWhile_iff m.sorted).1 he).2 (not_le.2 hes)
    · exact he
  rw [hl] at hm hsub
  rcases List.mem_cons.1 hm with rfl | hm
  · exact le_rfl
  · exact ((List.pairwise_cons.1 hsub).1 e hm).le

theorem upperBound_none (h : m.upperBound r = none) (he : e ∈ m.tree) : e.1.start ≤ r.start := by
  rw [upperBound, List.head?_eq_none_iff] at h
  have hall := List.takeWhile_append_dropWhile (p := fun i : Range α × V => decide (i.1.start ≤ r.start)) (l := m.tree)
  rw [h, List.append_nil] at hall
  rw [← hall] at he
  exact ((mem_takeWhile_iff m.sorted).1 he).2

theorem find_mem (h : m.find r = some i) : i ∈ m.tree ∧ r.Meets i.1 := by
  unfold find at h
  split at h
  · obtain ⟨hu, hm⟩ := Option.filter_eq_some_iff.1 h
    exact ⟨(upperBound_some hu).1, of_decide_eq_true hm⟩
  · next j hj =>
    split at h
    · next hm =>
      obtain rfl := Option.some.inj h
      exact ⟨(before_some hj).1, hm⟩
    · cases h

end Neighbours

/-! ## Disjoint ranges -/

/-- No two stored ranges overlap, and none is empty. -/
structure Disjoint (m : RangeMap α V) : Prop where
  apart : m.tree.Pairwise fun a b => ¬a.1.Meets b.1
  nonempty : ∀ e ∈ m.tree, e.1.start ≤ e.1.end_

/-- What `find` sees is enough: when the range after the place of `r` overlaps `r`,
so does the one before, if there is one. -/
def Heeds (r : Range α) : Prop :=
  ∀ n ∈ m.upperBound r, r.Meets n.1 → ∀ i ∈ m.before r, r.Meets i.1

instance (r : Range α) : Decidable (m.Heeds r) :=
  inferInstanceAs (Decidable (∀ n ∈ m.upperBound r, _ → ∀ i ∈ m.before r, _))

section Disjoint

variable {m} {m' : RangeMap α V} {r : Range α} {d : V}

theorem Disjoint.lt (hd : m.Disjoint) {a b : Range α × V} (ha : a ∈ m.tree) (hb : b ∈ m.tree)
    (h : a.1.start < b.1.start) : a.1.end_ < b.1.start := by
  have hne : a ≠ b := fun he => absurd h (he ▸ lt_irrefl _)
  have : Std.Symm fun x y : Range α × V => ¬x.1.Meets y.1 := ⟨fun x y h h' => h h'.symm⟩
  have hm := hd.apart.forall ha hb hne
  by_contra hlt
  exact hm ⟨not_lt.1 hlt, h.le.trans (hd.nonempty b hb)⟩

/-- A range that overlaps one that starts no later overlaps the one before it. -/
theorem Disjoint.meets_before (hd : m.Disjoint) (he : e ∈ m.tree) (hs : e.1.start ≤ r.start) (hm : r.Meets e.1) :
    m.before r = some e := by
  cases hb : m.before r with
  | none => exact absurd hs (not_le.2 (before_none hb he))
  | some i =>
    obtain ⟨hi, his, hlast⟩ := before_some hb
    rcases hlast e he hs with rfl | hlt
    · rfl
    · exact absurd (hm.2.trans_lt (hd.lt he hi hlt)) (not_lt.2 his)

/-- A range that overlaps one that starts later overlaps the first such. -/
theorem Disjoint.meets_upperBound (hd : m.Disjoint) (he : e ∈ m.tree) (hs : r.start < e.1.start)
    (hm : r.Meets e.1) : ∃ n, m.upperBound r = some n ∧ r.Meets n.1 := by
  cases hu : m.upperBound r with
  | none => exact absurd (upperBound_none hu he) (not_le.2 hs)
  | some n =>
    obtain ⟨hn, hrn, hfirst⟩ := upperBound_some hu
    exact ⟨n, rfl, (hfirst e he hs).trans hm.1, hrn.le.trans (hd.nonempty n hn)⟩

/-- The search finds an overlapping range whenever there is one, exactly for the
ranges that `Heeds` describes. -/
theorem Disjoint.find_isSome_iff (hd : m.Disjoint) :
    ((m.find r).isSome = true ↔ ∃ e ∈ m.tree, r.Meets e.1) ↔ m.Heeds r := by
  constructor
  · intro h n hn hm i hi
    -- otherwise the search stops at `i` and misses `n`
    by_contra hni
    have hf := h.2 ⟨n, (upperBound_some hn).1, hm⟩
    rw [find, hi] at hf
    simp [hni] at hf
  · intro h
    constructor
    · intro hf
      obtain ⟨i, hi⟩ := Option.isSome_iff_exists.1 hf
      exact ⟨i, find_mem hi⟩
    · rintro ⟨e, he, hm⟩
      rcases le_or_gt e.1.start r.start with hs | hs
      · rw [find, hd.meets_before he hs hm]
        simp [hm]
      · obtain ⟨n, hn, hmn⟩ := hd.meets_upperBound he hs hm
        unfold find
        split
        · rw [hn]
          simp [hmn]
        · next i hi => simp [h n hn hmn i hi]

/-- A single address is found in the range that contains it. -/
theorem Disjoint.find_point (hd : m.Disjoint) (he : e ∈ m.tree) (hc : e.1.Contains pos) :
    m.find ⟨pos, pos⟩ = some e := by
  have hm : Range.Meets ⟨pos, pos⟩ e.1 := Range.meets_point.2 hc
  rw [find, hd.meets_before he hc.1 hm]
  simp [hm]

theorem insert_some (h : m.insert r d = some m') : m.find r = none ∧ m'.tree = insertTree r d m.tree := by
  unfold insert intersect at h
  split at h
  · cases h
  · next hf => exact ⟨by simpa using hf, by rw [← Option.some.inj h]⟩

theorem insert_eq_none_iff : m.insert r d = none ↔ (m.find r).isSome = true := by
  unfold insert intersect
  split <;> simp_all

/-- A range that overlaps no stored one is inserted. -/
theorem Disjoint.insert_apart (hd : m.Disjoint) (hr : r.start ≤ r.end_) (h : ∀ e ∈ m.tree, ¬r.Meets e.1) :
    ∃ m', m.insert r d = some m' ∧ m'.tree.Perm ((r, d) :: m.tree) ∧ m'.Disjoint := by
  have hf : m.find r = none := by
    cases hf : m.find r with
    | none => rfl
    | some i => exact absurd (find_mem hf).2 (h i (find_mem hf).1)
  cases hi : m.insert r d with
  | none => rw [insert_eq_none_iff, hf] at hi; cases hi
  | some m' =>
    have hperm : m'.tree.Perm ((r, d) :: m.tree) := by
      rw [(insert_some hi).2]
      refine insertTree_perm fun e he hs => h e he ⟨hs.le.trans hr, hs.ge.trans (hd.nonempty e he)⟩
    refine ⟨m', rfl, hperm, ?_, ?_⟩
    · refine (hperm.pairwise_iff fun {x y} h h' => h h'.symm).2 (List.pairwise_cons.2 ⟨fun e he => h e he, hd.apart⟩)
    · intro e he
      rcases List.mem_cons.1 (hperm.subset he) with rfl | he
      · exact hr
      · exact hd.nonempty e he

theorem Disjoint.sublist (hd : m.Disjoint) (h : m'.tree.Sublist m.tree) : m'.Disjoint :=
  ⟨hd.apart.sublist h, fun e he => hd.nonempty e (h.subset he)⟩

theorem disjoint_empty : (empty : RangeMap α V).Disjoint := ⟨.nil, fun _ h => by cases h⟩

theorem disjoint_single (h : r.start ≤ r.end_) : (single r d).Disjoint :=
  ⟨List.pairwise_singleton _ _, fun e he => by rw [List.mem_singleton.1 he]; exact h⟩

end Disjoint

/-! ## Sequences of calls -/

inductive Fault where
  /-- `find` reads the range at `end()` -/
  | endRead
  /-- an iterator beyond `end()` -/
  | badIterator
deriving DecidableEq, Repr

inductive Call (α V : Type) where
  | insert (r : Range α) (d : V)
  | erase (p n : Nat)

/-- One call; a refused range leaves the map as it was. -/
def call (m : RangeMap α V) : Call α V → Except Fault (RangeMap α V)
  | .insert r d => if m.tree = [] then .error .endRead else .ok ((m.insert r d).getD m)
  | .erase p n => if p + n ≤ m.tree.length then .ok (m.erase p n) else .error .badIterator

def Call.Heeds (m : RangeMap α V) : Call α V → Prop
  | .insert r _ => m.Heeds r
  | .erase _ _ => True

instance (m : RangeMap α V) (a : Call α V) : Decidable (a.Heeds m) := by
  unfold Call.Heeds
  split <;> infer_instance

/-- Only valid ranges are inserted. -/
def Call.Valid : Call α V → Prop
  | .insert r _ => r.valid = true
  | .erase _ _ => True

theorem call_disjoint {m m' : RangeMap α V} {a : Call α V} (hd : m.Disjoint) (hv : a.Valid) (ha : a.Heeds m)
    (h : m.call a = .ok m') : m'.Disjoint := by
  cases a with
  | insert r d =>
    simp only [call] at h
    split at h
    · cases h
    · cases h
      cases hi : m.insert r d with
      | none => exact hd
      | some m₁ =>
        have hn : ∀ e ∈ m.tree, ¬r.Meets e.1 := by
          intro e he hm
          have := (hd.find_isSome_iff.2 ha).2 ⟨e, he, hm⟩
          rw [(insert_some hi).1] at this
          cases this
        obtain ⟨m₂, h₂, -, hd₂⟩ := hd.insert_apart (d := d) (Range.le_of_valid hv) hn
        rw [hi] at h₂
        rw [Option.some.inj h₂]
        exact hd₂
  | erase p n =>
    simp only [call] at h
    split at h
    · cases h
      exact hd.sublist (take_append_drop_sublist m.tree p n)
    · cases h

/-- A range from the gap after the first stored range into the second. -/
theorem gap_range_accepted :
    ∃ m : RangeMap Nat Nat, runs call (single ⟨10, 20⟩ 0) [.insert ⟨30, 40⟩ 1, .insert ⟨22, 35⟩ 2] = .ok m ∧
      (∀ e ∈ m.tree, e.1.valid = true) ∧ ¬m.tree.Pairwise fun a b => ¬a.1.Meets b.1 := by
  refine exists_ok (fun m => m.tree = [(⟨10, 20⟩, 0), (⟨22, 35⟩, 2), (⟨30, 40⟩, 1)]) (by decide) fun m _ hm => ?_
  rw [hm]
  decide

/-- As long as every inserted range is one that `find` can judge, the stored ranges
are disjoint; in every state so reached `insert` refuses exactly the ranges that
overlap a stored one if, and only if, `find` can judge the range. -/
theorem insert_refuses_overlap (r₀ : Range α) (d₀ : V) (h₀ : r₀.valid = true) (as : List (Call α V))
    (hv : ∀ a ∈ as, a.Valid) (hok : Always call (fun m a => a.Heeds m) (single r₀ d₀) as) {m : RangeMap α V}
    (hr : runs call (single r₀ d₀) as = .ok m) :
    (m.tree.Pairwise fun a b => ¬a.1.Meets b.1) ∧
      ∀ r d, r.valid = true → m.tree ≠ [] →
        ((m.insert r d = none ↔ ∃ e ∈ m.tree, r.Meets e.1) ↔ m.Heeds r) := by
  have hall : Always call (fun m a => a.Valid ∧ a.Heeds m) (single r₀ d₀) as :=
    (always_of_mem hv).and hok
  have hd : m.Disjoint :=
    runs_invariant Disjoint (fun m a m' hd ha h => call_disjoint hd ha.1 ha.2 h)
      (disjoint_single (Range.le_of_valid h₀)) hall hr
  refine ⟨hd.apart, fun r d _ _ => ?_⟩
  rw [insert_eq_none_iff]
  exact hd.find_isSome_iff

/-- One range is refused, one goes between two others, and the first is erased. -/
theorem insert_refuses_overlap_between :
    ∃ m : RangeMap Nat Nat, runs call (single ⟨10, 20⟩ 0)
        [.insert ⟨30, 40⟩ 1, .insert ⟨0, 25⟩ 2, .insert ⟨22, 28⟩ 3, .erase 0 1] = .ok m ∧
      m.tree = [(⟨22, 28⟩, 3), (⟨30, 40⟩, 1)] ∧ (m.tree.Pairwise fun a b => ¬a.1.Meets b.1) ∧
      ∀ r d, r.valid = true → m.tree ≠ [] →
        ((m.insert r d = none ↔ ∃ e ∈ m.tree, r.Meets e.1) ↔ m.Heeds r) := by
  refine exists_ok (fun m => m.tree = [(⟨22, 28⟩, 3), (⟨30, 40⟩, 1)]) (by decide) fun m hm ht => ⟨ht, ?_⟩
  exact insert_refuses_overlap ⟨10, 20⟩ 0 (by decide) _ (by simp [Call.Valid, Range.valid]) (by decide) hm

end RangeMap

end DynamicCache.Base
