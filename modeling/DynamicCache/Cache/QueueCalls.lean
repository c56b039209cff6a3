import DynamicCache.Cache.ReadyList

/-!
# Calls on a queue of registers

`Kept` is a queue together with the number of the last insertion of each register
into `readyList`.  A run of the calls of `QueueCall` on allocated registers never
fails, and afterwards the lists partition the registers, the ready list is
sorted by time and then by insertion, and the two counters are right
(`queue_structured`).
-/

namespace DynamicCache.Cache

open Lib

structure Kept where
  queue : MshrQueue
  stamp : Nat → Nat := fun _ => 0
  inserted : Nat := 0

/-- `modify` is what the methods of a register leave of it. -/
inductive QueueCall where
  | allocate (now addr size : Nat) (pkt : Packet) (whenReady order : Nat)
  | markInService (r : Nat) (pkt : Packet)
  | markPending (r : Nat)
  | deallocate (r : Nat)
  | modify (r : Nat) (m : Mshr)

namespace Mshr

/-- The assertions of the register in `deallocate`. -/
def mayBeFreed (m : Mshr) : Bool := passes (fun _ => true) m.deallocate

/-- Those in `markInService`, and in `deallocate` if there will be no response. -/
def mayBeSent (m : Mshr) (pkt : Packet) : Bool := passes (fun r => !r.2 || r.1.mayBeFreed) (m.markInService pkt)

/-- A register that can be allocated. -/
structure Fresh (m : Mshr) : Prop where
  ntargets : m.getNumTargets = 0
  targets : m.targets.isReset = true
  deferred : m.deferredTargets.isReset = true

end Mshr

namespace Kept

def init (numEntries reserve : Nat) : Kept := { queue := .init numEntries reserve }

variable (k : Kept)

/-- The queue after register `r` was put into `readyList`. -/
def insert (r : Nat) (q : MshrQueue) : Kept where
  queue := q
  stamp := Function.update k.stamp r k.inserted
  inserted := k.inserted + 1

def step : QueueCall → Res Kept
  | .allocate now addr size pkt time order => do
    let (q, r) ← k.queue.allocate now addr size pkt time order
    return k.insert r q
  | .markInService r pkt => do
    let q ← k.queue.markInService r pkt
    return { k with queue := q }
  | .markPending r => do
    let q ← k.queue.markPending r
    return k.insert r q
  | .deallocate r => do
    let q ← k.queue.deallocate r
    return { k with queue := q }
  | .modify r m => return { k with queue := k.queue.put r m }

/-- There is a free register for `allocate`; the other calls are on an allocated
register whose own assertions hold.  A register keeps its ready time until it is
sent. -/
def allows : QueueCall → Bool
  | .allocate .. => !k.queue.freeList.isEmpty
  | .markInService r pkt => k.queue.allocatedList.contains r && (k.queue.registers r).mayBeSent pkt
  | .markPending r => k.queue.allocatedList.contains r && (k.queue.registers r).inService
  | .deallocate r => k.queue.allocatedList.contains r && (k.queue.registers r).mayBeFreed
  | .modify r m => k.queue.allocatedList.contains r && m.inService == (k.queue.registers r).inService &&
      (m.inService || m.readyTime == (k.queue.registers r).readyTime)

/-! ## The invariant -/

structure Ok (n : Nat) (k : Kept) : Prop where
  lists : ListsOk k.queue
  registers : (k.queue.allocatedList ++ k.queue.freeList).Perm (List.range n)
  allocated : k.queue.allocated = k.queue.allocatedList.length
  inService : k.queue.inServiceEntries = k.queue.allocatedList.countP fun r => (k.queue.registers r).inService
  fresh : ∀ r ∈ k.queue.freeList, (k.queue.registers r).Fresh
  sorted : k.queue.readyList.Pairwise (MshrQueue.Earlier (fun r => (k.queue.registers r).readyTime) k.stamp)
  stamps : ∀ r ∈ k.queue.readyList, k.stamp r < k.inserted

theorem ok_init (numEntries reserve : Nat) : Ok (numEntries + reserve - 1) (init numEntries reserve) where
  lists := ⟨List.nodup_range, fun r => by simp [init, MshrQueue.init], List.nodup_nil, fun r h => by cases h⟩
  registers := .refl _
  allocated := rfl
  inService := rfl
  fresh _ _ := ⟨rfl, rfl, rfl⟩
  sorted := .nil
  stamps r hr := by cases hr

end Kept

namespace MshrQueue

variable {q q' : MshrQueue} {r : Nat} {m : Mshr}

theorem put_of_ne (q : MshrQueue) (m : Mshr) {x : Nat} (h : x ≠ r) : (q.put r m).registers x = q.registers x := by
  rw [put_registers, if_neg h]

theorem put_self (q : MshrQueue) (r : Nat) (m : Mshr) : (q.put r m).registers r = m := by
  rw [put_registers, if_pos rfl]

/-- A counted list in which only register `r` changes, which it does not hold. -/
theorem countP_put {l : List Nat} (h : r ∉ l) :
    l.countP (fun x => ((q.put r m).registers x).inService) = l.countP fun x => (q.registers x).inService := by
  refine List.countP_congr fun x hx => ?_
  have hne : x ≠ r := fun he => h (he ▸ hx)
  rw [put_of_ne q m hne]

theorem allocate_total {free : List Nat} (hf : q.freeList = r :: free) (hr : (q.registers r).Fresh)
    (now addr size : Nat) (pkt : Packet) (time order : Nat) :
    ∃ q', q.allocate now addr size pkt time order = .ok (q', r) := by
  have hm : ∃ m, (q.registers r).allocate now addr size pkt time order = .ok m :=
    ⟨_, by simp only [Mshr.allocate, assert, check, hr.targets, hr.deferred]; rfl⟩
  obtain ⟨m, hm⟩ := hm
  obtain ⟨q', hq⟩ := addToReadyList_total ({ q.put r m with
      freeList := free
      allocatedList := q.allocatedList ++ [r]
      allocated := q.allocated + 1 } : MshrQueue) r
  refine ⟨q', ?_⟩
  rw [allocate, hf]
  exact bind_ok.2 ⟨(), by simp [assert, hr.ntargets], bind_ok.2 ⟨m, hm, bind_ok.2 ⟨q', hq, rfl⟩⟩⟩

theorem deallocate_total (h : (q.registers r).mayBeFreed = true) : ∃ q', q.deallocate r = .ok q' := by
  obtain ⟨m, hm, -⟩ := exists_of_passes h
  exact ⟨_, by simp only [deallocate, hm]; rfl⟩

theorem markInService_total {pkt : Packet} (h : (q.registers r).mayBeSent pkt = true) :
    ∃ q', q.markInService r pkt = .ok q' := by
  obtain ⟨⟨m, done⟩, hm, hd⟩ := exists_of_passes h
  cases done with
  | false => exact ⟨_, by simp only [markInService, hm]; rfl⟩
  | true =>
    obtain ⟨q', hq⟩ := deallocate_total (q := q.put r m) (r := r) (by rw [put_self]; simpa using hd)
    exact ⟨q', by simp only [markInService, hm]; exact hq⟩

theorem markPending_total (h : (q.registers r).inService = true) : ∃ q', q.markPending r = .ok q' := by
  obtain ⟨q', hq⟩ := addToReadyList_total ({ q.put r { q.registers r with inService := false } with
    inServiceEntries := q.inServiceEntries - 1 } : MshrQueue) r
  exact ⟨q', by simp only [markPending, assert, check, h]; exact hq⟩

end MshrQueue

namespace Kept.Ok

variable {n r : Nat} {k : Kept} {q : MshrQueue} {m : Mshr} {pkt : Packet}

/-- A free register is not allocated. -/
theorem not_allocated (hk : Ok n k) (hr : r ∈ k.queue.freeList) : r ∉ k.queue.allocatedList :=
  fun ha => (List.nodup_append.1 hk.lists.nodup).2.2 r ha r hr rfl

theorem modify (hk : Ok n k) (hr : r ∈ k.queue.allocatedList) (hs : m.inService = (k.queue.registers r).inService)
    (ht : m.inService = false → m.readyTime = (k.queue.registers r).readyTime) :
    Ok n { k with queue := k.queue.put r m } where
  lists := hk.lists.put hs
  registers := hk.registers
  allocated := hk.allocated
  inService := by
    refine hk.inService.trans (List.countP_congr fun x _ => ?_)
    rw [MshrQueue.put_registers]
    split
    · next he => rw [he, hs]
    · rfl
  fresh x hx := by
    have hne : x ≠ r := fun he => hk.not_allocated hx (he ▸ hr)
    rw [MshrQueue.put_of_ne k.queue m hne]
    exact hk.fresh x hx
  sorted := by
    refine MshrQueue.Earlier.mono hk.sorted (List.Sublist.refl _) fun x hx => ⟨?_, rfl⟩
    rw [MshrQueue.put_registers]
    split
    · next he =>
      subst he
      exact ht (hs.trans ((hk.lists.ready x).1 hx).2)
    · rfl
  stamps := hk.stamps

/-- A register behind all others of its time. -/
theorem insert_sorted (hk : Ok n k) {q₁ : MshrQueue} (hr : r ∉ k.queue.readyList) (h : q₁.addToReadyList r = .ok q)
    (hq : ∀ x, x ≠ r → (q₁.registers x).readyTime = (k.queue.registers x).readyTime)
    (hl : q₁.readyList = k.queue.readyList) :
    (k.insert r q).queue.readyList.Pairwise
        (MshrQueue.Earlier (fun x => ((k.insert r q).queue.registers x).readyTime) (k.insert r q).stamp) ∧
      ∀ x ∈ (k.insert r q).queue.readyList, (k.insert r q).stamp x < (k.insert r q).inserted := by
  have hne : ∀ x ∈ k.queue.readyList, x ≠ r := fun x hx he => hr (he ▸ hx)
  have hold : ∀ x ∈ k.queue.readyList, (k.insert r q).stamp x = k.stamp x := fun x hx =>
    Function.update_of_ne (hne x hx) _ _
  have hnew : (k.insert r q).stamp r = k.inserted := Function.update_self ..
  have hs : q₁.readyList.Pairwise
      (MshrQueue.Earlier (fun x => (q₁.registers x).readyTime) (k.insert r q).stamp) := by
    rw [hl]
    exact MshrQueue.Earlier.mono hk.sorted (List.Sublist.refl _) fun x hx => ⟨hq x (hne x hx), hold x hx⟩
  have hlt : ∀ x ∈ q₁.readyList, (k.insert r q).stamp x < (k.insert r q).stamp r := by
    rw [hl]
    intro x hx
    rw [hold x hx, hnew]
    exact hk.stamps x hx
  have hp := MshrQueue.addToReadyList_pairwise hs hlt h
  obtain ⟨l, rfl, hperm⟩ := MshrQueue.addToReadyList_ok h
  refine ⟨hp, fun x hx => ?_⟩
  obtain rfl | hx := List.mem_cons.1 (hperm.mem_iff.1 hx)
  · rw [hnew]
    exact Nat.lt_succ_self _
  · rw [hl] at hx
    rw [hold x hx]
    exact (hk.stamps x hx).trans (Nat.lt_succ_self _)

theorem allocate (hk : Ok n k) {now addr size time order : Nat}
    (h : k.queue.allocate now addr size pkt time order = .ok (q, r)) : Ok n (k.insert r q) := by
  obtain ⟨hlists, hnew⟩ := hk.lists.allocate h
  unfold MshrQueue.allocate at h
  split at h
  · cases h
  · next r' free hf =>
    simp only [bind_ok] at h
    obtain ⟨-, -, m, hm, q₁, hq, h⟩ := h
    cases h
    have hready : r ∉ k.queue.readyList := fun hr => hnew ((hk.lists.ready r).1 hr).1
    obtain ⟨hsorted, hstamps⟩ := hk.insert_sorted hready hq (fun x hx => by rw [MshrQueue.put_of_ne k.queue m hx]) rfl
    obtain ⟨l, rfl, -⟩ := MshrQueue.addToReadyList_ok hq
    have hreg := hk.registers
    rw [hf] at hreg
    refine ⟨hlists, ?_, ?_, ?_, fun x hx => ?_, hsorted, hstamps⟩
    · simpa [insert] using hreg
    · simp [insert, hk.allocated]
    · have hi := (mshr_allocate_ok hm).2.2.2.2.1
      simp only [insert, List.countP_append, List.countP_singleton, MshrQueue.countP_put hnew, MshrQueue.put_self, hi]
      exact hk.inService
    · have hne : x ≠ r := by
        rintro rfl
        exact (List.nodup_cons.1 (List.nodup_append.1 (hf ▸ hk.lists.nodup)).2.1).1 hx
      have hx' : x ∈ k.queue.freeList := by
        rw [hf]
        exact List.mem_cons_of_mem r hx
      simp only [insert, MshrQueue.put_of_ne k.queue m hne]
      exact hk.fresh x hx'

/-- Registers leave `readyList`, and only one that is not in it afterwards changes. -/
theorem keep_sorted (hk : Ok n k) {l : List Nat} (hl : l.Sublist k.queue.readyList) (hr : r ∉ l) :
    l.Pairwise (MshrQueue.Earlier (fun x => ((k.queue.put r m).registers x).readyTime) k.stamp) ∧
      ∀ x ∈ l, k.stamp x < k.inserted := by
  refine ⟨MshrQueue.Earlier.mono hk.sorted hl fun x hx => ⟨?_, rfl⟩, fun x hx => hk.stamps x (hl.subset hx)⟩
  have hne : x ≠ r := fun he => hr (he ▸ hx)
  rw [MshrQueue.put_of_ne k.queue m hne]

/-- The registers in service without `r`. -/
theorem inService_erase (hk : Ok n k) (hr : r ∈ k.queue.allocatedList) :
    k.queue.inServiceEntries =
      ((k.queue.allocatedList.erase r).countP fun x => (k.queue.registers x).inService) +
        if (k.queue.registers r).inService then 1 else 0 := by
  rw [hk.inService, (List.perm_cons_erase hr).countP_eq, List.countP_cons]

theorem not_mem_erase (hk : Ok n k) : r ∉ k.queue.allocatedList.erase r :=
  (List.nodup_append.1 hk.lists.nodup).1.not_mem_erase

/-- The registers in service after `r` was changed. -/
theorem inService_put (hk : Ok n k) (hr : r ∈ k.queue.allocatedList) :
    (k.queue.allocatedList.countP fun x => ((k.queue.put r m).registers x).inService) =
      ((k.queue.allocatedList.erase r).countP fun x => (k.queue.registers x).inService) +
      if m.inService then 1 else 0 := by
  rw [(List.perm_cons_erase hr).countP_eq, List.countP_cons, MshrQueue.countP_put hk.not_mem_erase, MshrQueue.put_self]

theorem deallocate (hk : Ok n k) (hr : r ∈ k.queue.allocatedList) (h : k.queue.deallocate r = .ok q) :
    Ok n { k with queue := q } := by
  have hlists := hk.lists.deallocate hr h
  obtain ⟨m, hm, rfl⟩ := MshrQueue.deallocate_ok h
  have hready : r ∉ (if (k.queue.registers r).inService then k.queue.readyList else k.queue.readyList.erase r) :=
    fun hx => hk.not_mem_erase ((hlists.ready r).1 hx).1
  have hsub : (if (k.queue.registers r).inService then k.queue.readyList else k.queue.readyList.erase r).Sublist
      k.queue.readyList := by
    split
    · exact List.Sublist.refl _
    · exact List.erase_sublist
  obtain ⟨hsorted, hstamps⟩ := hk.keep_sorted (m := m) hsub hready
  have hperm : (k.queue.allocatedList.erase r ++ r :: k.queue.freeList).Perm
      (k.queue.allocatedList ++ k.queue.freeList) :=
    List.perm_middle.trans ((List.perm_cons_erase hr).symm.append_right _)
  refine ⟨hlists, hperm.trans hk.registers, ?_, ?_, fun x hx => ?_, hsorted, hstamps⟩
  · simp [hk.allocated, List.length_erase_of_mem hr]
  · have hc := hk.inService_erase hr
    simp only [MshrQueue.countP_put hk.not_mem_erase]
    split at hc <;> split <;> simp_all
  · simp only [Mshr.deallocate, bind_ok, assert, check_ok, beq_iff_eq] at hm
    obtain ⟨-, -, -, hd, -, h0, hm⟩ := hm
    cases hm
    obtain rfl | hx := List.mem_cons.1 hx
    · simp only [MshrQueue.put_self]
      exact ⟨h0, rfl, hd⟩
    · have hne : x ≠ r := fun he => hk.not_allocated hx (he ▸ hr)
      simp only [MshrQueue.put_of_ne k.queue _ hne]
      exact hk.fresh x hx

theorem markInService (hk : Ok n k) (hr : r ∈ k.queue.allocatedList) (h : k.queue.markInService r pkt = .ok q) :
    Ok n { k with queue := q } := by
  have hlists := hk.lists.markInService hr h
  simp only [MshrQueue.markInService, bind_ok] at h
  obtain ⟨⟨m, done⟩, hm, h⟩ := h
  obtain ⟨hs, ⟨rfl, -, rfl⟩ | ⟨rfl, hi, -⟩⟩ := mshr_markInService_ok hm
  · exact (hk.modify (m := (k.queue.registers r).popTarget) hr rfl fun _ => rfl).deallocate hr h
  · cases h
    have hready : r ∉ k.queue.readyList.erase r := hk.lists.readyNodup.not_mem_erase
    obtain ⟨hsorted, hstamps⟩ := hk.keep_sorted (m := m) List.erase_sublist hready
    refine ⟨hlists, hk.registers, hk.allocated, ?_, fun x hx => ?_, hsorted, hstamps⟩
    · have hc := hk.inService_erase hr
      refine Eq.trans ?_ (hk.inService_put hr).symm
      rw [hs, if_neg Bool.false_ne_true] at hc
      rw [hi, if_pos rfl, hc]
    · have hne : x ≠ r := fun he => hk.not_allocated hx (he ▸ hr)
      simp only [MshrQueue.put_of_ne k.queue _ hne]
      exact hk.fresh x hx

theorem markPending (hk : Ok n k) (hr : r ∈ k.queue.allocatedList) (h : k.queue.markPending r = .ok q) :
    Ok n (k.insert r q) := by
  have hlists := hk.lists.markPending h
  simp only [MshrQueue.markPending, bind_ok, assert, check_ok] at h
  obtain ⟨-, hs, h⟩ := h
  have hready : r ∉ k.queue.readyList := by
    intro hr
    have := ((hk.lists.ready r).1 hr).2
    rw [hs] at this
    cases this
  obtain ⟨hsorted, hstamps⟩ := hk.insert_sorted hready h (fun x hx => by rw [MshrQueue.put_of_ne k.queue _ hx]) rfl
  obtain ⟨l, rfl, -⟩ := MshrQueue.addToReadyList_ok h
  refine ⟨hlists, hk.registers, hk.allocated, ?_, fun x hx => ?_, hsorted, hstamps⟩
  · have hc := hk.inService_erase hr
    refine Eq.trans ?_ (hk.inService_put hr).symm
    rw [hs, if_pos rfl] at hc
    rw [hc]
    rfl
  · have hne : x ≠ r := fun he => hk.not_allocated hx (he ▸ hr)
    simp only [insert, MshrQueue.put_of_ne k.queue _ hne]
    exact hk.fresh x hx

/-- No allowed call fails. -/
theorem step (hk : Ok n k) {c : QueueCall} (hc : k.allows c = true) : ∃ k', k.step c = .ok k' ∧ Ok n k' := by
  cases c with
  | allocate now addr size pkt time order =>
    have hne : k.queue.freeList ≠ [] := by simpa [allows] using hc
    obtain ⟨r, free, hf⟩ := List.exists_cons_of_ne_nil hne
    obtain ⟨q, hq⟩ := MshrQueue.allocate_total hf (hk.fresh r (by rw [hf]; exact List.mem_cons_self)) now addr size pkt
      time order
    exact ⟨_, by simp only [Kept.step, hq]; rfl, hk.allocate hq⟩
  | markInService r pkt =>
    simp only [allows, Bool.and_eq_true, List.contains_iff_mem] at hc
    obtain ⟨q, hq⟩ := MshrQueue.markInService_total hc.2
    exact ⟨_, by simp only [Kept.step, hq]; rfl, hk.markInService hc.1 hq⟩
  | markPending r =>
    simp only [allows, Bool.and_eq_true, List.contains_iff_mem] at hc
    obtain ⟨q, hq⟩ := MshrQueue.markPending_total hc.2
    exact ⟨_, by simp only [Kept.step, hq]; rfl, hk.markPending hc.1 hq⟩
  | deallocate r =>
    simp only [allows, Bool.and_eq_true, List.contains_iff_mem] at hc
    obtain ⟨q, hq⟩ := MshrQueue.deallocate_total hc.2
    exact ⟨_, by simp only [Kept.step, hq]; rfl, hk.deallocate hc.1 hq⟩
  | modify r m =>
    simp only [allows, Bool.and_eq_true, List.contains_iff_mem, beq_iff_eq, Bool.or_eq_true] at hc
    refine ⟨_, rfl, hk.modify hc.1.1 hc.1.2 fun hi => hc.2.resolve_left ?_⟩
    rw [hi]
    decide

end Kept.Ok

/-- After every sequence of calls on allocated registers, none of which fails, the free
and the allocated registers are all registers, each once, `readyList` has the allocated
ones that are not in service, by ready time and then by insertion, and the counters
are right.  The assertion behind the loop of `addToReadyList` is reached from no
state of the queue. -/
theorem queue_structured (numEntries reserve : Nat) :
    (∀ calls, Always Kept.step (fun k c => k.allows c = true) (.init numEntries reserve) calls →
      ∃ k, runs Kept.step (.init numEntries reserve) calls = .ok k ∧
        (k.queue.allocatedList ++ k.queue.freeList).Perm (List.range (numEntries + reserve - 1)) ∧
        k.queue.readyList.Nodup ∧
        (∀ r, r ∈ k.queue.readyList ↔ r ∈ k.queue.allocatedList ∧ (k.queue.registers r).inService = false) ∧
        k.queue.readyList.Pairwise (fun a b => (k.queue.registers a).readyTime < (k.queue.registers b).readyTime ∨
          (k.queue.registers a).readyTime = (k.queue.registers b).readyTime ∧ k.stamp a < k.stamp b) ∧
        k.queue.allocated = k.queue.allocatedList.length ∧
        k.queue.inServiceEntries = k.queue.allocatedList.countP fun r => (k.queue.registers r).inService) ∧
    ∀ (q : MshrQueue) (r : Nat), ∃ q', q.addToReadyList r = .ok q' := by
  refine ⟨fun calls h => ?_, MshrQueue.addToReadyList_total⟩
  obtain ⟨k, hr, hk⟩ := runs_total (Kept.Ok (numEntries + reserve - 1)) (fun _ _ hk hc => hk.step hc)
    (Kept.ok_init numEntries reserve) h
  exact ⟨k, hr, hk.registers, hk.lists.readyNodup, hk.lists.ready, hk.sorted, hk.allocated, hk.inService⟩

/-- Three registers; the first is sent and waits again behind one of the same ready time,
and a writeback is sent and freed at once. -/
def resentBehind : List QueueCall :=
  let pkt (cmd : MemCmd) (addr : Nat) : Packet := { cmd := cmd, addr := addr, size := 4, threadID := 0 }
  [.allocate 0 0 64 (pkt .readReq 0) 5 0, .allocate 0 64 64 (pkt .readReq 64) 5 1,
    .allocate 1 128 64 (pkt .writeback 128) 3 2, .markInService 2 (pkt .writeback 128),
    .markInService 0 (pkt .readReq 0), .allocate 2 192 64 (pkt .readReq 192) 4 3, .markPending 0]

theorem queue_structured_resentBehind :
    ∃ k, runs Kept.step (.init 3 1) resentBehind = .ok k ∧ k.queue.readyList = [2, 1, 0] ∧
      k.queue.readyList.Pairwise (fun a b => (k.queue.registers a).readyTime < (k.queue.registers b).readyTime ∨
        (k.queue.registers a).readyTime = (k.queue.registers b).readyTime ∧ k.stamp a < k.stamp b) := by
  obtain ⟨k, hr, -, -, -, hs, -⟩ := (queue_structured 3 1).1 resentBehind (by decide)
  have hp : passes (fun k : Kept => k.queue.readyList == [2, 1, 0])
      (runs Kept.step (.init 3 1) resentBehind) = true := by
    decide
  rw [hr] at hp
  exact ⟨k, hr, by simpa [passes] using hp, hs⟩

end DynamicCache.Cache
