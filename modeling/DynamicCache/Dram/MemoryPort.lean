import DynamicCache.Cache.Packet
import Mathlib.Data.List.Perm.Basic

/-!
# The port of the DRAM (`DRAMSim2.cc`)

`recvTimingReq` turns a packet into a transaction for DRAMSim2 and keeps the
packet in `ongoingAccess`, under the address and the type of the access, until
a callback completes the transaction.  The memory behind the port is what the
port sees of it: a transaction queue of bounded length for every thread, and
transactions that have left their queue and complete in any order.

Packets are shared: the port keeps a pointer, and the answer turns the packet itself
into a response.  The packet is put into `ongoingAccess` before the memory has
answered, so a refused packet leaves an entry behind; when the packet has been sent
again and answered, the next completion for its address finds a response under that
entry and answers nobody.  And the completion of a write that nobody waits for takes
the entry of another write to its address (`bookkeeping_fails`).  When neither
happens, the entries are those of the accepted transactions (`ongoingAccess_tracks`).
-/

namespace DynamicCache.Dram

open Lib Cache

/-- A packet as it is sent; `ptr` is the pointer to it, which is the same when it is sent
again. -/
structure MemReq where
  ptr : Nat
  pkt : Packet

/-- A transaction; `waiter` is the packet that its completion answers. -/
structure Access where
  isWrite : Bool
  address : Nat
  threadID : Nat
  waiter : Option Nat
deriving DecidableEq

/-- The key of `ongoingAccess`: the address with the type in the last bit. -/
def accessIndex (isWrite : Bool) (address : Nat) : Nat := 2 * address + if isWrite then 1 else 0

def Access.index (a : Access) : Nat := accessIndex a.isWrite a.address

/-- `AccessMetaInfo` with its key. -/
structure Entry where
  index : Nat
  /-- the packet -/
  ptr : Nat

structure MemoryPort where
  numPids : Nat
  transQueueDepth : Nat
  /-- the packets that were sent, as they are now -/
  packets : Nat → Option Packet := fun _ => none
  /-- a `multimap`; of the entries with one key the oldest is found first -/
  ongoingAccess : List Entry := []
  /-- the transaction queues of all threads, in the order of arrival -/
  queued : List Access := []
  /-- transactions that have left their queue -/
  issued : List Access := []
  /-- the packets that were answered, newest first -/
  answered : List Nat := []
  /-- the packets that were accepted -/
  accepted : List Nat := []
  pendingDelete : List Nat := []

namespace MemoryPort

variable (s : MemoryPort)

/-- `WillAcceptTransaction` -/
def willAcceptTransaction (pid : Nat) : Bool :=
  decide ((s.queued.filter fun a => a.threadID == pid).length < s.transQueueDepth)

/-- `addTransaction` for packet `ptr` -/
def addTransaction (ptr : Nat) (a : Access) : MemoryPort × Bool :=
  if s.willAcceptTransaction a.threadID then
    ({ s with queued := s.queued ++ [a], accepted := ptr :: s.accepted }, true)
  else (s, false)

/-- The thread of a transaction: ids that the memory does not know count as 0. -/
def transThread (pkt : Packet) : Nat := if s.numPids ≤ pkt.threadID then 0 else pkt.threadID

def needsResponse (ptr : Nat) : Bool := (s.packets ptr).any Packet.needsResponse

/-- `doAtomicAccess` of a packet that needs a response, and `schedTimingResp`. -/
def answer (ptr : Nat) : Res MemoryPort := do
  let pkt ← orFail .assertion (s.packets ptr)
  let pkt ← pkt.makeTimingResponse
  return { s with packets := Function.update s.packets ptr (some pkt), answered := ptr :: s.answered }

/-- Also returns the answer to the sender. -/
def recvTimingReq (r : MemReq) : Res (MemoryPort × Bool) :=
  let s := { s with packets := Function.update s.packets r.ptr (some r.pkt) }
  let addr := r.pkt.addr
  if r.pkt.memInhibitAsserted then .ok (s, true)
  else if r.pkt.needsResponse then
    if r.pkt.isRead || r.pkt.isWrite then
      let isWrite := !r.pkt.isRead
      let s := { s with ongoingAccess := s.ongoingAccess ++ [Entry.mk (accessIndex isWrite addr) r.ptr] }
      .ok (s.addTransaction r.ptr ⟨isWrite, addr, s.transThread r.pkt, some r.ptr⟩)
    else do
      let s ← s.answer r.ptr
      return ({ s with accepted := r.ptr :: s.accepted }, true)
  else if r.pkt.isWrite then
    let (s, retVal) := s.addTransaction r.ptr ⟨true, addr, s.transThread r.pkt, none⟩
    .ok (if retVal then { s with pendingDelete := r.ptr :: s.pendingDelete } else s, retVal)
  else .ok ({ s with pendingDelete := r.ptr :: s.pendingDelete }, true)

/-- `read_complete` and `write_complete` -/
def complete (isWrite : Bool) (address : Nat) : Res MemoryPort :=
  let index := accessIndex isWrite address
  match s.ongoingAccess.find? fun e => e.index == index with
  | none => .ok s
  | some e =>
    let s := { s with ongoingAccess := s.ongoingAccess.eraseP fun e => e.index == index }
    if s.needsResponse e.ptr then s.answer e.ptr
    else .ok { s with pendingDelete := e.ptr :: s.pendingDelete }

/-- What can happen: a request comes, the `k`-th transaction leaves its queue, the
`k`-th of those completes. -/
inductive Action where
  | recvTimingReq (r : MemReq)
  | issue (k : Nat)
  | complete (k : Nat)

def step : Action → Res MemoryPort
  | .recvTimingReq r => do
    let (s, _) ← s.recvTimingReq r
    return s
  | .issue k =>
    match s.queued[k]? with
    | none => .ok s
    | some a => .ok { s with queued := s.queued.eraseIdx k, issued := s.issued ++ [a] }
  | .complete k =>
    match s.issued[k]? with
    | none => .ok s
    | some a => { s with issued := s.issued.eraseIdx k }.complete a.isWrite a.address

def init (numPids transQueueDepth : Nat) : MemoryPort := { numPids := numPids, transQueueDepth := transQueueDepth }

/-! ## What the entries stand for -/

/-- The keys of the accepted transactions that have not completed and that a packet
waits for. -/
def awaited : List Nat := ((s.queued ++ s.issued).filter fun a => a.waiter.isSome).map Access.index

/-- One entry for every such transaction, and no other. -/
def Tracks : Prop := (s.ongoingAccess.map Entry.index).Perm s.awaited

/-- The packets that wait or were answered. -/
def served : List Nat := s.ongoingAccess.map Entry.ptr ++ s.answered

structure Inv : Prop where
  tracks : s.Tracks
  needs : ∀ e ∈ s.ongoingAccess, s.needsResponse e.ptr = true
  once : s.served.Nodup
  known : ∀ p ∈ s.served, p ∈ s.accepted

variable {s : MemoryPort} {a : Access} {k ptr : Nat}

theorem inv_init (numPids transQueueDepth : Nat) : Inv (init numPids transQueueDepth) := by
  refine ⟨List.Perm.nil, fun e he => ?_, List.nodup_nil, fun p hp => ?_⟩
  · cases he
  · cases hp

theorem needsResponse_update_self (pkt : Packet) (ptr : Nat) :
    ({ s with packets := Function.update s.packets ptr (some pkt) } : MemoryPort).needsResponse ptr =
    pkt.needsResponse := by
  simp [needsResponse]

theorem needsResponse_update_ne {pkt : Option Packet} {ptr' : Nat} (h : ptr' ≠ ptr) :
    ({ s with packets := Function.update s.packets ptr pkt } : MemoryPort).needsResponse ptr' =
    s.needsResponse ptr' := by
  simp [needsResponse, h]

/-- A packet that has not been accepted comes. -/
theorem Inv.send {r : MemReq} (hI : s.Inv) (hp : r.ptr ∉ s.accepted) :
    Inv { s with packets := Function.update s.packets r.ptr (some r.pkt) } where
  tracks := hI.tracks
  needs e he := by
    have hne : e.ptr ≠ r.ptr := fun h =>
      hp (h ▸ hI.known _ (List.mem_append_left _ (List.mem_map_of_mem he)))
    rw [needsResponse_update_ne hne]
    exact hI.needs e he
  once := hI.once
  known := hI.known

/-- A packet that gets its entry together with its transaction. -/
theorem Inv.enter (hI : s.Inv) (hn : s.needsResponse ptr = true) (hp : ptr ∉ s.accepted)
    (ha : a.waiter.isSome = true) : Inv { s with
      ongoingAccess := s.ongoingAccess ++ [⟨a.index, ptr⟩]
      queued := s.queued ++ [a]
      accepted := ptr :: s.accepted } where
  tracks := by
    have hperm : (s.queued ++ [a] ++ s.issued).Perm (s.queued ++ s.issued ++ [a]) := by
      rw [List.append_assoc, List.append_assoc]
      exact List.perm_append_comm.append_left s.queued
    refine List.Perm.trans ?_ ((hperm.filter _).map Access.index).symm
    rw [List.filter_append, List.map_append, List.map_append]
    refine hI.tracks.append ?_
    rw [List.filter_singleton, ha]
    exact .refl _
  needs e he := by
    rcases List.mem_append.1 he with he | he
    · exact hI.needs e he
    · rw [List.mem_singleton.1 he]
      exact hn
  once := by
    have hperm : (s.ongoingAccess.map Entry.ptr ++ [ptr] ++ s.answered).Perm (ptr :: s.served) := by
      rw [List.append_assoc]
      exact List.perm_middle
    show ((s.ongoingAccess ++ [Entry.mk a.index ptr]).map Entry.ptr ++ s.answered).Nodup
    rw [List.map_append]
    exact hperm.nodup_iff.2 (List.nodup_cons.2 ⟨fun h => hp (hI.known _ h), hI.once⟩)
  known p hp := by
    have hp' : p ∈ s.ongoingAccess.map Entry.ptr ++ [ptr] ++ s.answered := by
      simpa [served] using hp
    rw [List.mem_append, List.mem_append, List.mem_singleton] at hp'
    rcases hp' with (hp' | rfl) | hp'
    · exact List.mem_cons_of_mem _ (hI.known p (List.mem_append_left _ hp'))
    · exact List.mem_cons_self
    · exact List.mem_cons_of_mem _ (hI.known p (List.mem_append_right _ hp'))

/-- A packet that needs a response can be answered. -/
theorem answer_ok (h : s.needsResponse ptr = true) : ∃ pkt, s.answer ptr =
      .ok { s with packets := Function.update s.packets ptr (some pkt), answered := ptr :: s.answered } := by
  unfold needsResponse at h
  cases hp : s.packets ptr with
  | none =>
    rw [hp] at h
    cases h
  | some pkt =>
    rw [hp, Option.any_some] at h
    have hreq : pkt.isRequest = true := by
      unfold Packet.needsResponse at h
      unfold Packet.isRequest
      cases hc : pkt.cmd <;> rw [hc] at h <;> first | rfl | cases h
    exact ⟨_, bind_ok.2 ⟨pkt, orFail_ok.2 hp, bind_ok.2 ⟨_, bind_ok.2 ⟨(), check_ok.2 h,
      bind_ok.2 ⟨(), check_ok.2 hreq, rfl⟩⟩, rfl⟩⟩⟩

/-- A packet that is answered at once. -/
theorem Inv.answer_once {pkt : Option Packet} (hI : s.Inv) (hp : ptr ∉ s.accepted) : Inv { s with
      packets := Function.update s.packets ptr pkt
      answered := ptr :: s.answered
      accepted := ptr :: s.accepted } where
  tracks := hI.tracks
  needs e he := by
    have hne : e.ptr ≠ ptr := fun h => hp (h ▸ hI.known _ (List.mem_append_left _ (List.mem_map_of_mem he)))
    exact (needsResponse_update_ne hne).trans (hI.needs e he)
  once := by
    have hperm : (s.ongoingAccess.map Entry.ptr ++ ptr :: s.answered).Perm (ptr :: s.served) :=
      List.perm_middle
    exact hperm.nodup_iff.2 (List.nodup_cons.2 ⟨fun h => hp (hI.known _ h), hI.once⟩)
  known p hp := by
    rcases List.mem_cons.1 (List.perm_middle.mem_iff.1 hp) with rfl | hp
    · exact List.mem_cons_self
    · exact List.mem_cons_of_mem _ (hI.known p hp)

/-- A transaction that nobody waits for. -/
theorem Inv.unawaited {ptr : Nat} {deletes : List Nat} (hI : s.Inv) (ha : a.waiter = none) :
    Inv { s with queued := s.queued ++ [a], accepted := ptr :: s.accepted, pendingDelete := deletes } where
  tracks := by
    have hsame : (s.queued ++ [a] ++ s.issued).filter (fun a => a.waiter.isSome) =
        (s.queued ++ s.issued).filter fun a => a.waiter.isSome := by
      simp [List.filter_append, ha]
    show (s.ongoingAccess.map Entry.index).Perm (((s.queued ++ [a] ++ s.issued).filter _).map Access.index)
    rw [hsame]
    exact hI.tracks
  needs := hI.needs
  once := hI.once
  known p hp := List.mem_cons_of_mem _ (hI.known p hp)

/-- A transaction leaves its queue. -/
theorem Inv.issue (hI : s.Inv) (hk : s.queued[k]? = some a) :
    Inv { s with queued := s.queued.eraseIdx k, issued := s.issued ++ [a] } where
  tracks := by
    obtain ⟨hlt, rfl⟩ := List.getElem?_eq_some_iff.1 hk
    have hperm : (s.queued.eraseIdx k ++ (s.issued ++ [s.queued[k]])).Perm (s.queued ++ s.issued) := by
      refine List.Perm.trans ?_ ((List.getElem_cons_eraseIdx_perm hlt).append_right s.issued)
      rw [← List.append_assoc]
      exact List.perm_append_singleton _ _
    exact hI.tracks.trans ((hperm.filter _).map _).symm
  needs := hI.needs
  once := hI.once
  known := hI.known

/-- What is left to complete when transaction `k` is taken out. -/
theorem awaited_erase (hk : s.issued[k]? = some a) :
    s.awaited.Perm (if a.waiter.isSome then a.index :: ({ s with issued := s.issued.eraseIdx k } : MemoryPort).awaited
      else ({ s with issued := s.issued.eraseIdx k } : MemoryPort).awaited) := by
  obtain ⟨hlt, rfl⟩ := List.getElem?_eq_some_iff.1 hk
  have hperm : (s.queued ++ s.issued).Perm (s.issued[k] :: (s.queued ++ s.issued.eraseIdx k)) :=
    ((List.getElem_cons_eraseIdx_perm hlt).symm.append_left s.queued).trans List.perm_middle
  have h := (hperm.filter fun a => a.waiter.isSome).map Access.index
  rw [List.filter_cons] at h
  split at h
  · next hw =>
    rw [if_pos hw]
    exact h
  · next hw =>
    rw [if_neg hw]
    exact h

/-- A completion that somebody waits for finds an entry, and takes it. -/
theorem Inv.complete_awaited (hI : s.Inv) (hk : s.issued[k]? = some a) (ha : a.waiter.isSome = true) :
    ∃ s', { s with issued := s.issued.eraseIdx k }.complete a.isWrite a.address = .ok s' ∧ s'.Inv := by
  have haw := awaited_erase hk
  rw [if_pos ha] at haw
  have hperm := hI.tracks.trans haw
  have hmem : a.index ∈ s.ongoingAccess.map Entry.index := hperm.mem_iff.2 List.mem_cons_self
  obtain ⟨e₀, he₀, hidx⟩ := List.mem_map.1 hmem
  obtain ⟨e, l₁, l₂, hnone, he, hl, herase⟩ :=
    List.exists_of_eraseP (p := fun e => e.index == a.index) he₀ (by simpa using hidx)
  have hfind : s.ongoingAccess.find? (fun e => e.index == a.index) = some e := by
    rw [hl, List.find?_append, List.find?_eq_none.2 hnone]
    simp [he]
  have hneeds : s.needsResponse e.ptr = true := hI.needs e (by rw [hl]; simp)
  have hserved : ((l₁ ++ l₂).map Entry.ptr ++ e.ptr :: s.answered).Perm s.served := by
    rw [served, hl, List.map_append, List.map_append, List.map_cons, List.append_assoc, List.append_assoc]
    exact List.perm_middle.append_left _
  obtain ⟨pkt, hans⟩ := answer_ok (s := { s with issued := s.issued.eraseIdx k, ongoingAccess := l₁ ++ l₂ }) hneeds
  refine ⟨{ s with
    packets := Function.update s.packets e.ptr (some pkt)
    ongoingAccess := l₁ ++ l₂
    issued := s.issued.eraseIdx k
    answered := e.ptr :: s.answered }, ?_, ?_, fun e' he' => ?_, hserved.nodup_iff.2 hI.once,
    fun p hp => hI.known p (hserved.mem_iff.1 hp)⟩
  · simp only [complete]
    rw [show accessIndex a.isWrite a.address = a.index from rfl, hfind]
    rw [herase]
    exact (if_pos hneeds).trans hans
  · have h1 : (s.ongoingAccess.map Entry.index).Perm (a.index :: (l₁ ++ l₂).map Entry.index) := by
      rw [hl, List.map_append, List.map_append, List.map_cons, show e.index = a.index by simpa using he]
      exact List.perm_middle
    exact (h1.symm.trans hperm).cons_inv
  · -- the other entries are of other packets
    have hnd := hserved.nodup_iff.2 hI.once
    have hne : e'.ptr ≠ e.ptr := fun h =>
      (List.nodup_append.1 hnd).2.2 _ (List.mem_map_of_mem he') _ List.mem_cons_self h
    refine (needsResponse_update_ne hne).trans (hI.needs e' ?_)
    rw [hl]
    rcases List.mem_append.1 he' with h | h
    · exact List.mem_append_left _ h
    · exact List.mem_append_right _ (List.mem_cons_of_mem _ h)

/-- A completion that nobody waits for and that finds no entry. -/
theorem Inv.complete_unawaited (hI : s.Inv) (hk : s.issued[k]? = some a) (ha : a.waiter = none)
    (hnone : ∀ e ∈ s.ongoingAccess, e.index ≠ a.index) :
    ∃ s', { s with issued := s.issued.eraseIdx k }.complete a.isWrite a.address = .ok s' ∧ s'.Inv := by
  have hfind : s.ongoingAccess.find? (fun e => e.index == a.index) = none := by
    rw [List.find?_eq_none]
    intro e he
    simpa using hnone e he
  have haw := awaited_erase hk
  rw [if_neg (by simp [ha])] at haw
  refine ⟨{ s with issued := s.issued.eraseIdx k }, ?_, hI.tracks.trans haw, hI.needs, hI.once, hI.known⟩
  simp only [complete]
  rw [show accessIndex a.isWrite a.address = a.index from rfl, hfind]

/-! ## Runs -/

/-- A packet is not sent again once it was accepted, one that needs a response for
a read or a write comes when its queue has room, and a write that nobody waits for
completes when no other write to its address is waited for. -/
def RequestOk (s : MemoryPort) : Action → Prop
  | .recvTimingReq r =>
    r.ptr ∉ s.accepted ∧
      (r.pkt.memInhibitAsserted = false → r.pkt.needsResponse = true → (r.pkt.isRead || r.pkt.isWrite) = true →
        s.willAcceptTransaction (s.transThread r.pkt) = true)
  | .issue _ => True
  | .complete k => ∀ a ∈ s.issued[k]?, a.waiter = none → ∀ e ∈ s.ongoingAccess, e.index ≠ a.index

theorem recvTimingReq_inv {r : MemReq} (hI : s.Inv) (hr : s.RequestOk (.recvTimingReq r)) :
    ∃ x, s.recvTimingReq r = .ok x ∧ x.1.Inv := by
  obtain ⟨hp, hroom⟩ := hr
  have hsend := hI.send (r := r) hp
  unfold recvTimingReq
  simp only
  split
  · exact ⟨_, rfl, hsend⟩
  · next hi =>
    split
    · next hn =>
      have hneeds : ({ s with packets := Function.update s.packets r.ptr (some r.pkt) } : MemoryPort).needsResponse
          r.ptr = true := (needsResponse_update_self r.pkt r.ptr).trans hn
      split
      · next hrw =>
        have hacc := hroom (by simpa using hi) hn hrw
        rw [addTransaction, if_pos (by exact hacc)]
        exact ⟨_, rfl, hsend.enter (a := ⟨!r.pkt.isRead, r.pkt.addr, s.transThread r.pkt, some r.ptr⟩) hneeds hp rfl⟩
      · obtain ⟨pkt, hans⟩ := answer_ok hneeds
        exact ⟨_, bind_ok.2 ⟨_, hans, rfl⟩, hsend.answer_once hp⟩
    · split
      · rw [addTransaction]
        split
        · exact ⟨_, rfl, hsend.unawaited rfl⟩
        · exact ⟨_, rfl, hsend⟩
      · exact ⟨_, rfl, hsend.tracks, hsend.needs, hsend.once, hsend.known⟩

theorem step_inv {a : Action} (hI : s.Inv) (ha : s.RequestOk a) : ∃ s', s.step a = .ok s' ∧ s'.Inv := by
  cases a with
  | recvTimingReq r =>
    obtain ⟨x, hx, hinv⟩ := recvTimingReq_inv hI ha
    exact ⟨x.1, bind_ok.2 ⟨x, hx, rfl⟩, hinv⟩
  | issue k =>
    simp only [step]
    cases hk : s.queued[k]? with
    | none => exact ⟨s, rfl, hI⟩
    | some a => exact ⟨_, rfl, hI.issue hk⟩
  | complete k =>
    simp only [step]
    cases hk : s.issued[k]? with
    | none => exact ⟨s, rfl, hI⟩
    | some a =>
      cases hw : a.waiter with
      | none => exact hI.complete_unawaited hk hw (ha a (by simp [hk]) hw)
      | some p => exact hI.complete_awaited hk (by simp [hw])

/-- In every such run the entries are those of the accepted transactions that a
packet waits for, and the answered packets were accepted and answered once. -/
theorem ongoingAccess_tracks (numPids transQueueDepth : Nat) (as : List Action)
    (hok : Always step RequestOk (init numPids transQueueDepth) as) :
    ∃ s, runs step (init numPids transQueueDepth) as = .ok s ∧ s.Tracks ∧ s.answered.Nodup ∧
      ∀ p ∈ s.answered, p ∈ s.accepted := by
  obtain ⟨s, hs, hI⟩ := runs_total Inv (fun s a hI ha => step_inv hI ha) (inv_init numPids transQueueDepth) hok
  exact ⟨s, hs, hI.tracks, (List.nodup_append.1 hI.once).2.1, fun p hp => hI.known p (List.mem_append_right _ hp)⟩

instance (s : MemoryPort) (a : Action) : Decidable (s.RequestOk a) := by
  unfold RequestOk
  split <;> infer_instance

def request (cmd : MemCmd) (ptr addr threadID : Nat) : Action :=
  .recvTimingReq ⟨ptr, { cmd := cmd, addr := addr, size := 64, threadID := threadID }⟩

/-- Packet 1 is refused, then accepted, and answered; its second entry is still there
when packet 2 reads the address. -/
def resent : List Action :=
  [request .readReq 0 0 0, request .readReq 1 64 0, .issue 0, request .readReq 1 64 0, .complete 0, .issue 0,
    .complete 0,
    request .readReq 2 64 0, .issue 0, .complete 0]

/-- A write of packet 0 is followed by a Writeback of another thread to the same address,
whose completion comes first. -/
def overtaken : List Action :=
  [request .writeReq 0 0 0, .issue 0, request .writeback 1 0 1, .issue 0, .complete 1]

/-- With room for one transaction in each queue: a refused packet has an entry; when it has
been answered, the completion of the next read of its address finds that entry, answers
nobody, deletes the packet that was answered and leaves the reader waiting; and the
completion of a Writeback answers another write. -/
theorem bookkeeping_fails :
    (∃ s, runs step (init 1 1) (resent.take 2) = .ok s ∧ s.accepted = [0] ∧
      s.ongoingAccess.map Entry.ptr = [0, 1]) ∧
    (∃ s, runs step (init 1 1) resent = .ok s ∧ s.accepted = [2, 1, 0] ∧ s.queued ++ s.issued = [] ∧
      s.answered = [1, 0] ∧ s.ongoingAccess.map Entry.ptr = [2] ∧ s.pendingDelete = [1]) ∧
    (∃ s, runs step (init 2 1) overtaken = .ok s ∧ s.answered = [0] ∧
      (s.queued ++ s.issued).map (·.waiter) = [some 0]) :=
  ⟨by decide +kernel, by decide +kernel, by decide +kernel⟩

/-- Two reads of one address that complete in turn. -/
theorem ongoingAccess_tracks_two_reads :
    ∃ s, runs step (init 1 2) [request .readReq 0 0 0, request .readReq 1 0 0, .issue 0, .issue 0, .complete 1] =
      .ok s ∧
      s.Tracks ∧ s.answered.Nodup := by
  obtain ⟨s, hs, ht, hn, -⟩ := ongoingAccess_tracks 1 2
    [request .readReq 0 0 0, request .readReq 1 0 0, .issue 0, .issue 0, .complete 1] (by decide +kernel)
  exact ⟨s, hs, ht, hn⟩

end MemoryPort

end DynamicCache.Dram
