import DynamicCache.Lib.ListMove
import Mathlib.Algebra.Ring.Nat
import Mathlib.Logic.Function.Basic

/-!
# Cache blocks and cache sets (`blk.hh`, `cacheset.cc`)

A set is an array of pointers to frames, from the most to the least recently
used one; here a list of frame numbers.  The two recency moves of the source
are swap loops that stop when the moved block is met again and assert that the
index stays inside the array: `headLoop` is that loop, and it fails (`none`)
where the assertion does.  On a frame of the set the loops are the moves of
`Lib.ListMove` (`moveToHead_eq`, `moveToTail_eq`).
-/

namespace DynamicCache.Tags

open Lib

/-- The bits of `CacheBlk::status` (`CacheBlkStatusBits`). -/
structure BlkStatus where
  valid : Bool := false
  writable : Bool := false
  readable : Bool := false
  dirty : Bool := false
  referenced : Bool := false
  hwPrefetched : Bool := false
deriving DecidableEq, Repr

/-- A frame of the cache (`CacheBlk`); `lockList` holds the contexts of the
load-locked records. -/
structure CacheBlk where
  tag : Nat := 0
  status : BlkStatus := {}
  whenReady : Nat := 0
  set : Nat := 0
  isTouched : Bool := false
  refCount : Nat := 0
  srcMasterId : Nat := 0
  threadID : Nat := 0
  lockList : List Nat := []
  data : Nat → Nat := fun _ => 0

variable {l : List Nat} {blk f tag : Nat} {blks : Nat → CacheBlk}

namespace CacheBlk

def isValid (b : CacheBlk) : Bool := b.status.valid
def isWritable (b : CacheBlk) : Bool := b.status.writable && b.status.valid
def isReadable (b : CacheBlk) : Bool := b.status.readable && b.status.valid
def isDirty (b : CacheBlk) : Bool := b.status.dirty
def clearLoadLocks (b : CacheBlk) : CacheBlk := { b with lockList := [] }

end CacheBlk

/-! ## Search -/

/-- What the frames of a set show, a tag or nothing, can be compared. -/
instance lawfulBEqTag : LawfulBEq (Option Nat) := inferInstance

/-- The test of the search loops: the block is valid and carries the tag. -/
def holds (blks : Nat → CacheBlk) (tag : Nat) (f : Nat) : Bool :=
  (blks f).tag == tag && (blks f).isValid

theorem holds_iff :
    holds blks tag f = true ↔ (if (blks f).isValid then some (blks f).tag else none) = some tag := by
  simp only [holds, Bool.and_eq_true, beq_iff_eq]
  constructor
  · rintro ⟨ht, hv⟩
    rw [if_pos hv, ht]
  · intro h
    split at h
    · next hv => exact ⟨Option.some.inj h, hv⟩
    · cases h

def findBlk (blks : Nat → CacheBlk) (l : List Nat) (tag : Nat) : Option Nat :=
  l.find? (holds blks tag)

/-- The index of the block `findBlk` returns, 999 when there is none. -/
def findBlkIndex (blks : Nat → CacheBlk) (l : List Nat) (tag : Nat) : Nat :=
  (l.findIdx? (holds blks tag)).getD 999

theorem mem_of_findBlk (h : findBlk blks l tag = some f) : f ∈ l :=
  List.mem_of_find?_eq_some h

theorem holds_of_findBlk (h : findBlk blks l tag = some f) : (blks f).tag = tag ∧ (blks f).isValid = true := by
  have := List.find?_some h
  simpa [holds] using this

/-! ## The swap loops -/

/-- Writes `next` into the array from its first cell on, until the block
overwritten is `blk`; the end of the array is the failed assertion. -/
def headLoop (blk : Nat) : Nat → List Nat → Option (List Nat)
  | _, [] => none
  | next, b :: rest =>
    if b = blk then some (next :: rest) else (headLoop blk b rest).map (next :: ·)

def moveToHead (l : List Nat) (blk : Nat) : Option (List Nat) :=
  if l.head? = some blk then some l else headLoop blk blk l

/-- The same loop from the last cell down. -/
def moveToTail (l : List Nat) (blk : Nat) : Option (List Nat) :=
  if l.getLast? = some blk then some l else (headLoop blk blk l.reverse).map List.reverse

theorem headLoop_eq (blk next : Nat) (l : List Nat) :
    headLoop blk next l = if blk ∈ l then some (next :: l.erase blk) else none := by
  induction l generalizing next with
  | nil => simp [headLoop]
  | cons b rest ih =>
    rw [headLoop]
    by_cases hb : b = blk
    · subst hb
      simp
    · rw [if_neg hb, ih b, List.erase_cons_tail (by simpa using hb)]
      by_cases hm : blk ∈ rest
      · rw [if_pos hm, if_pos (List.mem_cons_of_mem b hm)]
        rfl
      · have hm' : blk ∉ b :: rest := by
          simp [hm, Ne.symm hb]
        rw [if_neg hm, if_neg hm']
        rfl

theorem moveToHead_eq (h : blk ∈ l) : moveToHead l blk = some (toFront blk l) := by
  unfold moveToHead
  split
  · next hh =>
    obtain ⟨rest, rfl⟩ := List.head?_eq_some_iff.1 hh
    simp [toFront]
  · rw [headLoop_eq, if_pos h]
    rfl

theorem moveToTail_eq (hl : l.Nodup) (h : blk ∈ l) : moveToTail l blk = some (toBack blk l) := by
  unfold moveToTail
  split
  · next hh =>
    obtain ⟨rest, rfl⟩ := List.getLast?_eq_some_iff.1 hh
    have hn : blk ∉ rest := by
      intro hm
      exact (List.nodup_append.1 hl).2.2 blk hm blk (by simp) rfl
    rw [toBack, List.erase_append_right _ hn]
    simp
  · rw [headLoop_eq, if_pos (List.mem_reverse.2 h), Option.map_some, List.reverse_cons,
      reverse_erase_of_nodup hl]
    rfl

/-- A move that does not fail was asked for a member of the set. -/
theorem mem_of_moveToHead {l' : List Nat} (h : moveToHead l blk = some l') : blk ∈ l := by
  by_contra hm
  unfold moveToHead at h
  rw [if_neg (fun hh => hm (List.mem_of_head? hh)), headLoop_eq, if_neg hm] at h
  cases h

theorem mem_of_moveToTail {l' : List Nat} (h : moveToTail l blk = some l') : blk ∈ l := by
  by_contra hm
  unfold moveToTail at h
  rw [if_neg (fun hh => hm (List.mem_of_getLast? hh)), headLoop_eq,
    if_neg (fun hr => hm (List.mem_reverse.1 hr))] at h
  cases h

end DynamicCache.Tags
