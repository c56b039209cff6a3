import DynamicCache.Cache.Queues

/-!
# The ready list

`addToReadyList` keeps the registers that wait to be sent in the order of their
ready times, and those of one time in the order of any rank that a new register
has the largest of (`addToReadyList_pairwise`).  With the registers' `order` for
the rank this is `Sorted`, which is kept by all functions of the queue, as long as
every register gets a larger order than those before it.  `getNextMSHR` looks at the head of the list only.
The overlap test of `findPending` decides whether two whole blocks are the same
(`overlaps_of_blkAddr`, `blkAddr_of_overlaps`).
-/

namespace DynamicCache.Cache

open Lib Tags

variable {m : Mshr} {g : Geometry} {rank time : Nat → Nat} {a now : Nat} {l : List Nat}

/-! ## The ready list -/

namespace MshrQueue

variable {q q' : MshrQueue} {r : Nat}

/-- `a` comes before `b` by time, and by rank where the times are equal. -/
def Earlier (time rank : Nat → Nat) (a b : Nat) : Prop := time a < time b ∨ time a = time b ∧ rank a < rank b

theorem Earlier.le {b : Nat} (h : Earlier time rank a b) : time a ≤ time b := by
  obtain h | h := h <;> omega

theorem Earlier.mono {time' rank' : Nat → Nat} {l' : List Nat} (h : l.Pairwise (Earlier time rank))
    (hl : l'.Sublist l) (he : ∀ x ∈ l', time' x = time x ∧ rank' x = rank x) :
    l'.Pairwise (Earlier time' rank') := by
  refine (h.sublist hl).imp_of_mem fun {a b} ha hb hab => ?_
  unfold Earlier
  rw [(he a ha).1, (he a ha).2, (he b hb).1, (he b hb).2]
  exact hab

/-- The order of the ready list, with the order of allocation for the rank. -/
def Before (q : MshrQueue) : Nat → Nat → Prop :=
  Earlier (fun r => (q.registers r).readyTime) fun r => (q.registers r).order

def Sorted (q : MshrQueue) : Prop := q.readyList.Pairwise q.Before

/-- The first register is the one that is ready first. -/
theorem Sorted.head (hs : q.Sorted) {x : Nat} (hl : q.readyList = x :: l) (hr : r ∈ q.readyList) :
    r = x ∨ q.Before x r := by
  rw [Sorted, hl, List.pairwise_cons] at hs
  rw [hl] at hr
  exact (List.mem_cons.1 hr).imp id fun hr => hs.1 r hr

/-- Registers leave the list, the others are as before. -/
theorem Sorted.sublist (hs : q.Sorted) (hl : q'.readyList.Sublist q.readyList)
    (hreg : ∀ r ∈ q'.readyList, (q'.registers r).readyTime = (q.registers r).readyTime ∧
      (q'.registers r).order = (q.registers r).order) : q'.Sorted :=
  Earlier.mono hs hl hreg

/-- The search loop puts a register behind all that are ready no later. -/
theorem insertReady_pairwise {l' : List Nat} (hs : l.Pairwise (Earlier time rank))
    (hnew : ∀ x ∈ l, rank x < rank r) (h : insertReady time r l = .ok l') :
    l'.Pairwise (Earlier time rank) := by
  induction l generalizing l' with
  | nil => cases h
  | cons x l ih =>
    rw [List.pairwise_cons] at hs
    rw [insertReady] at h
    split at h
    · next hlt =>
      cases h
      refine List.pairwise_cons.2 ⟨fun y hy => .inl ?_, List.pairwise_cons.2 hs⟩
      obtain rfl | hy := List.mem_cons.1 hy
      · exact hlt
      · exact hlt.trans_le (hs.1 y hy).le
    · next hge =>
      cases hi : insertReady time r l with
      | error e => rw [hi] at h; cases h
      | ok l₁ =>
        rw [hi] at h
        cases h
        refine List.pairwise_cons.2 ⟨fun y hy => ?_, ih hs.2 (fun y hy => hnew y (List.mem_cons_of_mem x hy)) hi⟩
        obtain rfl | hy := List.mem_cons.1 ((insertReady_perm hi).mem_iff.1 hy)
        · have := hnew x List.mem_cons_self
          unfold Earlier
          omega
        · exact hs.1 y hy

theorem addToReadyList_pairwise (hs : q.readyList.Pairwise (Earlier (fun x => (q.registers x).readyTime) rank))
    (hnew : ∀ x ∈ q.readyList, rank x < rank r) (h : q.addToReadyList r = .ok q') :
    q'.readyList.Pairwise (Earlier (fun x => (q.registers x).readyTime) rank) := by
  unfold addToReadyList at h
  split at h
  · next hlast =>
    cases h
    refine List.pairwise_append.2 ⟨hs, List.pairwise_singleton _ r, fun x hx y hy => ?_⟩
    obtain rfl := List.mem_singleton.1 hy
    -- everything in the list is ready no later than its last register
    have hle : (q.registers x).readyTime ≤ (q.registers y).readyTime := by
      obtain ⟨l, z, hl⟩ : ∃ l z, q.readyList = l ++ [z] :=
        List.eq_nil_or_concat' _ |>.resolve_left (List.ne_nil_of_mem hx)
      rw [readyLast, hl, List.getLast?_concat, decide_eq_true_iff] at hlast
      rw [hl, List.pairwise_append] at hs
      rw [hl] at hx
      obtain hx | hx := List.mem_append.1 hx
      · exact (hs.2.2 x hx z (List.mem_singleton_self z)).le.trans hlast
      · rw [List.mem_singleton.1 hx]
        exact hlast
    have := hnew x hx
    simp only [Earlier]
    omega
  · simp only [bind_ok] at h
    obtain ⟨l, hl, h⟩ := h
    cases h
    exact insertReady_pairwise hs hnew hl

/-- The loop ends before its list does when the last register is ready later. -/
theorem insertReady_total (h : ∃ x ∈ l, time r < time x) : ∃ l', insertReady time r l = .ok l' := by
  induction l with
  | nil =>
    obtain ⟨x, hx, -⟩ := h
    cases hx
  | cons y l ih =>
    rw [insertReady]
    split
    · exact ⟨_, rfl⟩
    · next hy =>
      obtain ⟨x, hx, hlt⟩ := h
      obtain rfl | hx := List.mem_cons.1 hx
      · exact absurd hlt hy
      · obtain ⟨l', hl'⟩ := ih ⟨x, hx, hlt⟩
        exact ⟨y :: l', by rw [hl']; rfl⟩

/-- The assertion behind the loop is not reached. -/
theorem addToReadyList_total (q : MshrQueue) (r : Nat) : ∃ q', q.addToReadyList r = .ok q' := by
  unfold addToReadyList
  split
  · exact ⟨_, rfl⟩
  · next hlast =>
    have hx : ∃ x ∈ q.readyList, (q.registers r).readyTime < (q.registers x).readyTime := by
      unfold readyLast at hlast
      split at hlast
      · exact absurd rfl hlast
      · next x hl => exact ⟨x, List.mem_of_getLast? hl, by simpa using hlast⟩
    obtain ⟨l, hl⟩ : ∃ l, insertReady (fun x => (q.registers x).readyTime) r q.readyList = .ok l := insertReady_total hx
    exact ⟨_, bind_ok.2 ⟨l, hl, rfl⟩⟩

theorem addToReadyList_sorted (hs : q.Sorted) (hnew : ∀ x ∈ q.readyList, (q.registers x).order < (q.registers r).order)
    (h : q.addToReadyList r = .ok q') : q'.Sorted := by
  have hp := addToReadyList_pairwise hs hnew h
  obtain ⟨l, rfl, -⟩ := addToReadyList_ok h
  exact hp

/-- Only a register outside the list changes. -/
theorem Sorted.of_update (hs : q.Sorted) (hl : q'.readyList.Sublist q.readyList)
    (hq : q'.registers = Function.update q.registers r m) (hr : r ∉ q'.readyList) : q'.Sorted := by
  refine hs.sublist hl fun x hx => ?_
  have hne : x ≠ r := fun he => hr (he ▸ hx)
  rw [hq, Function.update_of_ne hne]
  exact ⟨rfl, rfl⟩

/-- A register in the list keeps its place. -/
theorem Sorted.put (hs : q.Sorted) (ht : m.readyTime = (q.registers r).readyTime)
    (ho : m.order = (q.registers r).order) : (q.put r m).Sorted := by
  refine hs.sublist (List.Sublist.refl _) fun x _ => ?_
  rw [put_registers]
  split
  · next he =>
    rw [he]
    exact ⟨ht, ho⟩
  · exact ⟨rfl, rfl⟩

theorem allocate_sorted {t addr size time order : Nat} {pkt : Packet} (hok : QueueOk g t q) (hs : q.Sorted)
    (hnew : ∀ x ∈ q.readyList, (q.registers x).order < order)
    (h : q.allocate now addr size pkt time order = .ok (q', r)) : q'.Sorted := by
  unfold allocate at h
  split at h
  · cases h
  · next r' free hf =>
    simp only [bind_ok] at h
    obtain ⟨-, -, m, hm, q₁, hq, h⟩ := h
    cases h
    -- a free register is not in the list
    have hr : r ∉ q.readyList := by
      intro hr
      have hd := (List.nodup_append.1 hok.nodup).2.2 r ((hok.ready r).1 hr).1 r (by rw [hf]; exact List.mem_cons_self)
      exact hd rfl
    refine addToReadyList_sorted ?_ (fun x hx => ?_) hq
    · exact hs.of_update (r := r) (m := m) (List.Sublist.refl _) rfl hr
    have hne : x ≠ r := fun he => hr (he ▸ hx)
    rw [put_registers, if_neg hne, put_registers, if_pos rfl, (mshr_allocate_ok hm).2.2.2.1]
    exact hnew x hx

theorem deallocate_sorted (hs : q.Sorted) (hr : r ∈ q.readyList → m.inService = false) (hnd : q.readyList.Nodup)
    (h : (q.put r m).deallocate r = .ok q') : q'.Sorted := by
  obtain ⟨m', -, rfl⟩ := deallocate_ok h
  have hm : (q.put r m).registers r = m := by rw [put_registers, if_pos rfl]
  rw [hm]
  refine hs.of_update (r := r) (m := m') ?_ (Function.update_idem ..) ?_
  · show (if m.inService then q.readyList else q.readyList.erase r).Sublist q.readyList
    split
    · exact List.Sublist.refl _
    · exact List.erase_sublist
  · show r ∉ (if m.inService then q.readyList else q.readyList.erase r)
    split
    · next hi =>
      intro hm
      rw [hr hm] at hi
      cases hi
    · exact hnd.not_mem_erase

theorem markInService_sorted {t : Nat} {pkt : Packet} (hok : QueueOk g t q) (hs : q.Sorted)
    (h : q.markInService r pkt = .ok q') : q'.Sorted := by
  simp only [markInService, bind_ok] at h
  obtain ⟨⟨m, done⟩, hm, h⟩ := h
  obtain ⟨hi, ⟨rfl, -, rfl⟩ | ⟨rfl, -⟩⟩ := mshr_markInService_ok hm
  · have hd : (q.put r (q.registers r).popTarget).deallocate r = .ok q' := h
    exact deallocate_sorted (m := (q.registers r).popTarget) hs (fun _ => hi) hok.readyNodup hd
  · cases h
    exact hs.of_update List.erase_sublist rfl hok.readyNodup.not_mem_erase

theorem Sorted.lt_of_getNextMSHR (hs : q.Sorted) (h : q.getNextMSHR now = none) (hr : r ∈ q.readyList) :
    now < (q.registers r).readyTime := by
  unfold getNextMSHR at h
  split at h
  · next hl =>
    rw [hl] at hr
    cases hr
  · next x l hl =>
    split at h
    · next hlt =>
      obtain rfl | hb := hs.head hl hr
      · exact hlt
      · exact hlt.trans_le hb.le
    · cases h

theorem Sorted.head_of_getNextMSHR {x : Nat} (hs : q.Sorted) (h : q.getNextMSHR now = some x)
    (hr : r ∈ q.readyList) : r = x ∨ q.Before x r := by
  unfold getNextMSHR at h
  split at h
  · cases h
  · next y l hl =>
    split at h
    · cases h
    · obtain rfl := Option.some.inj h
      exact hs.head hl hr

end MshrQueue

/-! ## Overlapping requests -/

theorem blockAlign_blockAlign (g : Geometry) (addr : Nat) : blockAlign g (blockAlign g addr) = blockAlign g addr := by
  rw [blockAlign, blkAddr_blockAlign]
  rfl

theorem blockAlign_bounds (g : Geometry) (addr : Nat) :
    blockAlign g addr ≤ addr ∧ addr < blockAlign g addr + g.blkSize := by
  have hp : 2 ^ g.setShift = g.blkSize := g.blkSize_ok.2
  have hpos : 0 < g.blkSize := by have := g.blkSize_ok.1; omega
  rw [blockAlign, Geometry.blkAddr, Nat.shiftLeft_eq, Nat.shiftRight_eq_div_pow, hp]
  exact ⟨Nat.div_mul_le_self _ _, Nat.lt_div_mul_add hpos⟩

theorem blkAddr_of_bounds {b : Nat} (ha : blockAlign g a = a) (h1 : a ≤ b) (h2 : b < a + g.blkSize) :
    g.blkAddr b = g.blkAddr a := by
  have hp : 2 ^ g.setShift = g.blkSize := g.blkSize_ok.2
  rw [blockAlign, Nat.shiftLeft_eq, hp] at ha
  rw [Geometry.blkAddr, Nat.shiftRight_eq_div_pow, hp]
  refine Nat.div_eq_of_lt_le ?_ ?_
  · rwa [ha]
  · rwa [Nat.add_mul, ha, Nat.one_mul]

/-- A write overlaps the block that it is in. -/
theorem overlaps_of_blkAddr (ha : blockAlign g a = a) (hb : g.blkAddr m.addr = g.blkAddr a) :
    MshrQueue.overlaps m a g.blkSize = true := by
  have h := blockAlign_bounds g m.addr
  rw [(blockAlign_eq_iff g _ _).2 hb, ha] at h
  rw [MshrQueue.overlaps, if_neg (by omega)]
  exact decide_eq_true h.2

/-- Whole blocks that overlap are the same. -/
theorem blkAddr_of_overlaps (hm : blockAlign g m.addr = m.addr) (hs : m.size = g.blkSize)
    (ha : blockAlign g a = a) (h : MshrQueue.overlaps m a g.blkSize = true) :
    g.blkAddr m.addr = g.blkAddr a := by
  unfold MshrQueue.overlaps at h
  split at h
  · rw [hs, decide_eq_true_iff] at h
    exact (blkAddr_of_bounds hm (by omega) h).symm
  · rw [decide_eq_true_iff] at h
    exact blkAddr_of_bounds ha (by omega) h

end DynamicCache.Cache
