import DynamicCache.Port.PacketQueue
import Mathlib.Data.List.Pairwise

/-!
# What a packet queue delivers (`packet_queue.cc`)

One queue with everything that can happen to it: packets are scheduled, the send
event fires, `retry` is called and sends return, also while a send of the queue
is running.  A packet that is being sent is not on `transmitList`, and goes back
to its front when the send is refused.

Packets are told apart by their place in the history of `schedSendTiming`
(`Ticket`).  Those that are being sent, outermost first, and those that are
queued form one list that is sorted by tick and place (`Tickets.sorted`): what
is scheduled during a send is not earlier than now, and so behind what is being
sent.  `delivery` follows.  The queues of a port are such queues (`queue_follows`).
-/

namespace DynamicCache.Port

open Lib Cache

/-! ## The list -/

namespace PacketQueue

variable {q q' : PacketQueue} {now tick : Nat} {dp : DeferredPacket}

theorem schedSendEvent_list (h : q.schedSendEvent tick = .ok q') : q'.transmitList = q.transmitList := by
  unfold schedSendEvent at h
  split at h
  · obtain ⟨-, -, h⟩ := bind_ok.1 h
    cases h
    rfl
  · split at h
    · cases h
      rfl
    · obtain rfl := Except.ok.inj h
      split
      · rfl
      · rfl

theorem insertSorted_of_le {l : List DeferredPacket} (h : ∀ d ∈ l, d.tick ≤ dp.tick) :
    insertSorted dp l = l ++ [dp] := by
  induction l with
  | nil => rfl
  | cons d l ih =>
    rw [insertSorted, if_pos (h d List.mem_cons_self), ih fun d hd => h d (List.mem_cons_of_mem _ hd)]
    rfl

/-- On a sorted list the three cases of `schedSendTiming` are one insertion. -/
theorem schedSendTiming_list (hs : q.transmitList.Pairwise fun a b => a.tick ≤ b.tick)
    (h : q.schedSendTiming now dp = .ok q') : now ≤ dp.tick ∧ q'.transmitList = insertSorted dp q.transmitList := by
  obtain ⟨_, hn, h⟩ := bind_ok.1 h
  obtain ⟨-, -, h⟩ := bind_ok.1 h
  refine ⟨of_decide_eq_true (check_ok.1 hn), ?_⟩
  cases hl : q.transmitList with
  | nil =>
    simp only [hl] at h
    exact schedSendEvent_list h
  | cons front rest =>
    rw [hl] at hs
    simp only [hl] at h
    split at h
    · next hlt =>
      rw [schedSendEvent_list h, insertSorted, if_neg (by omega)]
    · next hge =>
      rw [insertSorted, if_pos (by omega)]
      split at h
      · next hlast =>
        cases h
        have hle : ∀ d ∈ rest, d.tick ≤ dp.tick := by
          intro d hd
          exact Nat.le_trans
            (hs.rel_getLast_of_rel_getLast_getLast (List.mem_cons_of_mem _ hd) (Nat.le_refl _)) hlast
        rw [insertSorted_of_le hle]
        rfl
      · cases h
        rfl

theorem sendDeferredPacket_cases (q : PacketQueue) (now : Nat) :
    (∃ dp rest, q.transmitList = dp :: rest ∧ dp.tick ≤ now ∧
      q.sendDeferredPacket now = ({ q with transmitList := rest }, some dp)) ∨
        q.sendDeferredPacket now = (q, none) := by
  unfold sendDeferredPacket
  cases hl : q.transmitList with
  | nil => exact .inr rfl
  | cons dp rest =>
    simp only
    split
    · next hle => exact .inl ⟨dp, rest, rfl, hle, rfl⟩
    · exact .inr rfl

theorem scheduleSend_list (q : PacketQueue) (now : Nat) : (q.scheduleSend now).transmitList = q.transmitList := by
  unfold scheduleSend
  split
  · rfl
  · rfl

theorem sendReturned_list {accepted : Bool} (h : q.sendReturned now dp accepted = .ok q') :
    q'.transmitList = if accepted then q.transmitList else dp :: q.transmitList := by
  cases accepted with
  | true =>
    cases h
    exact scheduleSend_list _ now
  | false =>
    obtain ⟨-, -, h⟩ := bind_ok.1 h
    cases h
    rfl

end PacketQueue

/-! ## Tickets -/

/-- A packet and its place in the history of `schedSendTiming`. -/
abbrev Ticket : Type := DeferredPacket × Nat

namespace Ticket

/-- By tick, and in scheduling order at equal ticks. -/
def Earlier (a b : Ticket) : Prop := a.1.tick < b.1.tick ∨ a.1.tick = b.1.tick ∧ a.2 < b.2

/-- `PacketQueue.insertSorted` of tickets. -/
def insertSorted (x : Ticket) : List Ticket → List Ticket
  | [] => [x]
  | y :: l => if y.1.tick ≤ x.1.tick then y :: insertSorted x l else x :: y :: l

variable {x : Ticket} {l pre : List Ticket}

theorem map_insertSorted (x : Ticket) (l : List Ticket) :
    (insertSorted x l).map Prod.fst = PacketQueue.insertSorted x.1 (l.map Prod.fst) := by
  induction l with
  | nil => rfl
  | cons y l ih =>
    simp only [insertSorted, PacketQueue.insertSorted, List.map_cons]
    split
    · rw [List.map_cons, ih]
    · rfl

theorem insertSorted_perm (x : Ticket) (l : List Ticket) : (insertSorted x l).Perm (x :: l) := by
  induction l with
  | nil => exact .refl _
  | cons y l ih =>
    rw [insertSorted]
    split
    · exact (ih.cons y).trans (.swap x y l)
    · exact .refl _

theorem insertSorted_sorted (hl : l.Pairwise Earlier) (hnew : ∀ y ∈ l, y.2 < x.2) :
    (insertSorted x l).Pairwise Earlier := by
  induction l with
  | nil => exact List.pairwise_singleton _ _
  | cons y l ih =>
    obtain ⟨hy, hl'⟩ := List.pairwise_cons.1 hl
    have hyx := hnew y List.mem_cons_self
    rw [insertSorted]
    split
    · next hle =>
      refine List.pairwise_cons.2 ⟨fun z hz => ?_, ih hl' fun z hz => hnew z (List.mem_cons_of_mem _ hz)⟩
      obtain rfl | hz := List.mem_cons.1 ((insertSorted_perm x l).mem_iff.1 hz)
      · unfold Earlier
        omega
      · exact hy z hz
    · next hgt =>
      refine List.pairwise_cons.2 ⟨fun z hz => .inl ?_, hl⟩
      obtain rfl | hz := List.mem_cons.1 hz
      · omega
      · have := hy z hz
        unfold Earlier at this
        omega

/-- A new ticket that belongs behind `pre`. -/
theorem append_insertSorted (h : (pre ++ l).Pairwise Earlier) (hpre : ∀ y ∈ pre, y.1.tick ≤ x.1.tick)
    (hnew : ∀ y ∈ pre ++ l, y.2 < x.2) : (pre ++ insertSorted x l).Pairwise Earlier := by
  obtain ⟨h1, h2, h3⟩ := List.pairwise_append.1 h
  refine List.pairwise_append.2 ⟨h1, insertSorted_sorted h2 fun y hy => hnew y (List.mem_append_right _ hy),
    fun y hy z hz => ?_⟩
  obtain rfl | hz := List.mem_cons.1 ((insertSorted_perm x l).mem_iff.1 hz)
  · have hle := hpre y hy
    have hlt := hnew y (List.mem_append_left _ hy)
    unfold Earlier
    omega
  · exact h3 y hy z hz

end Ticket

/-! ## The queue and its callers -/

/-- A queue with its history. -/
structure Sender where
  queue : PacketQueue := {}
  now : Nat := 0
  /-- the packets of the sends that are running, innermost first -/
  calls : List DeferredPacket := []
  scheduled : List DeferredPacket := []
  /-- the calls of `sendTiming` with their tick -/
  attempts : List (DeferredPacket × Nat) := []
  /-- the packets that were accepted -/
  sent : List DeferredPacket := []
  /-- whether a send was started inside another one -/
  nested : Bool := false

namespace Sender

inductive Action where
  | advance (ticks : Nat)
  | schedSendTiming (dp : DeferredPacket)
  | processSendEvent
  | retry
  | returned (accepted : Bool)

/-- The queue is left as `r.1` and sends `r.2`. -/
def began (s : Sender) (r : PacketQueue × Option DeferredPacket) : Sender :=
  match r.2 with
  | none => { s with queue := r.1 }
  | some dp =>
    { s with
      queue := r.1
      calls := dp :: s.calls
      attempts := s.attempts ++ [(dp, s.now)]
      nested := s.nested || !s.calls.isEmpty }

/-- All calls may come at any time, also from a receiver. -/
def step (s : Sender) : Action → Res Sender
  | .advance ticks => .ok { s with now := s.now + ticks }
  | .schedSendTiming dp => do
    let q ← s.queue.schedSendTiming s.now dp
    return { s with queue := q, scheduled := s.scheduled ++ [dp] }
  | .processSendEvent =>
    if s.queue.sendEvent = some s.now then do
      let r ← ({ s.queue with sendEvent := none } : PacketQueue).processSendEvent s.now
      return s.began r
    else .ok s
  | .retry => .ok (s.began (s.queue.retry s.now))
  | .returned accepted =>
    match s.calls with
    | [] => .ok s
    | dp :: calls => do
      let q ← s.queue.sendReturned s.now dp accepted
      return { s with queue := q, calls := calls, sent := if accepted then s.sent ++ [dp] else s.sent }

end Sender

/-! ## The invariant -/

/-- Every ticket is in one place. -/
structure Tickets (s : Sender) (done flying queued : List Ticket) : Prop where
  all : (done ++ flying ++ queued).Perm s.scheduled.zipIdx
  sent : s.sent = done.map Prod.fst
  calls : s.calls = flying.map Prod.fst
  list : s.queue.transmitList = queued.map Prod.fst
  sorted : (flying.reverse ++ queued).Pairwise Ticket.Earlier
  ready : ∀ x ∈ flying, x.1.tick ≤ s.now
  ticks : ∀ x ∈ s.attempts, x.1.tick ≤ x.2
  flat : s.nested = false → flying.length ≤ 1 ∧ (∀ x ∈ done, x.1.tick ≤ s.now) ∧
    (done ++ flying ++ queued).Pairwise Ticket.Earlier

variable {q : PacketQueue} {j : Nat} {x : Ticket} {dp : DeferredPacket}

namespace Tickets

variable {s s' : Sender} {done flying queued : List Ticket}

theorem init : Tickets {} [] [] [] where
  all := .refl _
  sent := rfl
  calls := rfl
  list := rfl
  sorted := .nil
  ready x hx := by cases hx
  ticks x hx := by cases hx
  flat _ := ⟨Nat.zero_le _, (fun x hx => by cases hx), .nil⟩

theorem lt_length (h : Tickets s done flying queued) (hx : x ∈ done ++ flying ++ queued) :
    x.2 < s.scheduled.length := by
  have := List.snd_lt_of_mem_zipIdx (h.all.mem_iff.1 hx)
  omega

theorem list_sorted (h : Tickets s done flying queued) : s.queue.transmitList.Pairwise fun a b => a.tick ≤ b.tick := by
  rw [h.list]
  refine ((List.pairwise_append.1 h.sorted).2.1).map _ fun a b hab => ?_
  unfold Ticket.Earlier at hab
  omega

theorem advance (h : Tickets s done flying queued) (ticks : Nat) :
    Tickets { s with now := s.now + ticks } done flying queued :=
  { h with
    ready := fun x hx => Nat.le_add_right_of_le (h.ready x hx)
    flat := fun hn => by
      obtain ⟨h1, h2, h3⟩ := h.flat hn
      exact ⟨h1, fun x hx => Nat.le_add_right_of_le (h2 x hx), h3⟩ }

/-- A new packet goes behind everything that has been sent or is being sent. -/
theorem schedule (h : Tickets s done flying queued) (hq : s.queue.schedSendTiming s.now dp = .ok q) :
    Tickets { s with queue := q, scheduled := s.scheduled ++ [dp] } done flying
      (Ticket.insertSorted (dp, s.scheduled.length) queued) := by
  obtain ⟨hn, hl⟩ := PacketQueue.schedSendTiming_list h.list_sorted hq
  have hperm := Ticket.insertSorted_perm (dp, s.scheduled.length) queued
  exact {
    all := by
      rw [List.zipIdx_append]
      refine (hperm.append_left _).trans (List.perm_middle.trans ?_)
      refine (h.all.cons _).trans ?_
      simpa using (List.perm_append_singleton _ _).symm
    sent := h.sent
    calls := h.calls
    list := by rw [hl, h.list, Ticket.map_insertSorted]
    sorted := by
      refine Ticket.append_insertSorted h.sorted (fun y hy => ?_) fun y hy => h.lt_length ?_
      · exact Nat.le_trans (h.ready y (List.mem_reverse.1 hy)) hn
      · obtain hy | hy := List.mem_append.1 hy
        · exact List.mem_append_left _ (List.mem_append_right _ (List.mem_reverse.1 hy))
        · exact List.mem_append_right _ hy
    ready := h.ready
    ticks := h.ticks
    flat := fun hf => by
      obtain ⟨h1, h2, h3⟩ := h.flat hf
      refine ⟨h1, h2, Ticket.append_insertSorted h3 (fun y hy => ?_) fun y hy => h.lt_length hy⟩
      obtain hy | hy := List.mem_append.1 hy
      · exact Nat.le_trans (h2 y hy) hn
      · exact Nat.le_trans (h.ready y hy) hn }

/-- The first packet is taken from the list when it is ready. -/
theorem began (h : Tickets s done flying queued) (hq : q.transmitList = s.queue.transmitList) :
    ∃ flying' queued', Tickets (s.began (q.sendDeferredPacket s.now)) done flying' queued' := by
  obtain ⟨dp, rest, hl, hle, hr⟩ | hr := q.sendDeferredPacket_cases s.now
  · rw [hr]
    rw [hq, h.list] at hl
    obtain ⟨x, queued', rfl, rfl, rfl⟩ := List.map_eq_cons_iff.1 hl
    refine ⟨x :: flying, queued', ?_, h.sent, ?_, rfl, ?_, fun y hy => ?_, fun y hy => ?_, fun hn => ?_⟩
    · refine List.Perm.trans ?_ h.all
      rw [List.append_assoc, List.append_assoc]
      exact List.perm_middle.symm.append_left _
    · exact congrArg (x.1 :: ·) h.calls
    · rw [List.reverse_cons, List.append_assoc]
      exact h.sorted
    · obtain rfl | hy := List.mem_cons.1 hy
      · exact hle
      · exact h.ready y hy
    · obtain hy | hy := List.mem_append.1 hy
      · exact h.ticks y hy
      · obtain rfl := List.mem_singleton.1 hy
        exact hle
    · -- nothing else was being sent
      have hn' : (s.nested || !s.calls.isEmpty) = false := hn
      simp only [Bool.or_eq_false_iff, Bool.not_eq_false', List.isEmpty_iff, h.calls, List.map_eq_nil_iff] at hn'
      obtain ⟨hn, rfl⟩ := hn'
      obtain ⟨-, h2, h3⟩ := h.flat hn
      refine ⟨Nat.le_refl _, h2, ?_⟩
      rwa [List.append_nil, List.append_cons] at h3
  · rw [hr]
    exact ⟨flying, queued, h.all, h.sent, h.calls, hq.trans h.list, h.sorted, h.ready, h.ticks, h.flat⟩

/-- A send that is accepted. -/
theorem accepted (h : Tickets s done (x :: flying) queued) (hq : q.transmitList = s.queue.transmitList) :
    Tickets { s with queue := q, calls := flying.map Prod.fst, sent := s.sent ++ [x.1] }
      (done ++ [x]) flying queued where
  all := by
    rw [← List.append_cons]
    exact h.all
  sent := by rw [List.map_append, ← h.sent]; rfl
  calls := rfl
  list := hq.trans h.list
  sorted := by
    have hs := h.sorted
    rw [List.reverse_cons, List.append_assoc] at hs
    exact hs.sublist ((List.sublist_append_right _ _).append_left _)
  ready y hy := h.ready y (List.mem_cons_of_mem _ hy)
  ticks := h.ticks
  flat hn := by
    obtain ⟨h1, h2, h3⟩ := h.flat hn
    refine ⟨Nat.le_of_succ_le h1, fun y hy => ?_, ?_⟩
    · obtain hy | hy := List.mem_append.1 hy
      · exact h2 y hy
      · exact h.ready y (List.mem_cons.2 (.inl (List.mem_singleton.1 hy)))
    · rwa [← List.append_cons]

/-- A send that is refused: its packet was before everything on the list. -/
theorem refused (h : Tickets s done (x :: flying) queued) (hq : q.transmitList = x.1 :: s.queue.transmitList) :
    Tickets { s with queue := q, calls := flying.map Prod.fst } done flying (x :: queued) where
  all := by
    refine List.Perm.trans ?_ h.all
    rw [List.append_assoc, List.append_assoc]
    exact List.perm_middle.append_left _
  sent := h.sent
  calls := rfl
  list := by rw [hq, h.list]; rfl
  sorted := by
    have hs := h.sorted
    rwa [List.reverse_cons, List.append_assoc] at hs
  ready y hy := h.ready y (List.mem_cons_of_mem _ hy)
  ticks := h.ticks
  flat hn := by
    obtain ⟨h1, h2, h3⟩ := h.flat hn
    obtain rfl : flying = [] := List.length_eq_zero_iff.1 (by simpa using h1)
    refine ⟨Nat.zero_le _, h2, ?_⟩
    rwa [List.append_nil, List.append_cons]

theorem step {a : Sender.Action} (h : Tickets s done flying queued) (hs : s.step a = .ok s') :
    ∃ done' flying' queued', Tickets s' done' flying' queued' := by
  cases a with
  | advance ticks =>
    cases hs
    exact ⟨_, _, _, h.advance ticks⟩
  | schedSendTiming dp =>
    obtain ⟨q, hq, hs⟩ := bind_ok.1 hs
    cases hs
    exact ⟨_, _, _, h.schedule hq⟩
  | processSendEvent =>
    simp only [Sender.step] at hs
    split at hs
    · obtain ⟨r, hr, hs⟩ := bind_ok.1 hs
      obtain ⟨-, -, hr⟩ := bind_ok.1 hr
      cases hs
      cases hr
      exact ⟨done, h.began rfl⟩
    · cases hs
      exact ⟨_, _, _, h⟩
  | retry =>
    cases hs
    exact ⟨done, h.began rfl⟩
  | returned accepted =>
    simp only [Sender.step] at hs
    split at hs
    · cases hs
      exact ⟨_, _, _, h⟩
    · next dp calls hc =>
      obtain ⟨q, hq, hs⟩ := bind_ok.1 hs
      cases hs
      rw [h.calls] at hc
      obtain ⟨x, flying', rfl, rfl, rfl⟩ := List.map_eq_cons_iff.1 hc
      have hl := PacketQueue.sendReturned_list hq
      cases accepted with
      | true => exact ⟨_, _, _, h.accepted hl⟩
      | false => exact ⟨_, _, _, h.refused hl⟩

end Tickets

/-- In every run without a failed assertion: each packet that was scheduled has
been accepted once, is being sent or is on the list; the list is in the order of
ticks and of scheduling; no send comes before the tick of its packet; and if no
send was started inside another one, the packets are accepted in that order too. -/
theorem delivery (as : List Sender.Action) (s : Sender) (h : runs Sender.step {} as = .ok s) :
    ∃ done flying queued : List Ticket,
      (done ++ flying ++ queued).Perm s.scheduled.zipIdx ∧
      s.sent = done.map Prod.fst ∧ s.calls = flying.map Prod.fst ∧ s.queue.transmitList = queued.map Prod.fst ∧
      queued.Pairwise Ticket.Earlier ∧
      (∀ x ∈ s.attempts, x.1.tick ≤ x.2) ∧
      (s.nested = false → (done ++ flying ++ queued).Pairwise Ticket.Earlier) := by
  have hinv : ∃ done flying queued, Tickets s done flying queued := by
    refine runs_preserves (fun s => ∃ done flying queued, Tickets s done flying queued) ?_ ⟨_, _, _, Tickets.init⟩ h
    rintro s a s' ⟨done, flying, queued, ht⟩ hs
    exact ht.step hs
  obtain ⟨done, flying, queued, ht⟩ := hinv
  exact ⟨done, flying, queued, ht.all, ht.sent, ht.calls, ht.list, (List.pairwise_append.1 ht.sorted).2.1, ht.ticks,
    fun hn => (ht.flat hn).2.2⟩

/-- Packets of the same tick; the third is scheduled while the first is refused,
and the second is still on its way. -/
def resent : List Sender.Action :=
  let packet (addr : Nat) : DeferredPacket :=
    { tick := 5, pkt := { cmd := .readResp, addr := addr, size := 4, threadID := 0 } }
  [.schedSendTiming (packet 0), .schedSendTiming (packet 64), .advance 5, .processSendEvent,
    .schedSendTiming (packet 128), .returned false, .advance 2, .retry, .returned true, .advance 1, .processSendEvent]

theorem delivery_resent :
    ∃ s, runs Sender.step {} resent = .ok s ∧ s.sent.map (·.pkt.addr) = [0] ∧ s.calls.map (·.pkt.addr) = [64] ∧
      s.queue.transmitList.map (·.pkt.addr) = [128] ∧
      ∃ done flying queued : List Ticket,
        (done ++ flying ++ queued).Perm s.scheduled.zipIdx ∧
        s.sent = done.map Prod.fst ∧ s.calls = flying.map Prod.fst ∧ s.queue.transmitList = queued.map Prod.fst ∧
        queued.Pairwise Ticket.Earlier ∧
        (∀ x ∈ s.attempts, x.1.tick ≤ x.2) ∧
        (s.nested = false → (done ++ flying ++ queued).Pairwise Ticket.Earlier) := by
  refine exists_ok (fun s => s.sent.map (·.pkt.addr) = [0] ∧ s.calls.map (·.pkt.addr) = [64] ∧
    s.queue.transmitList.map (·.pkt.addr) = [128]) (by decide) ?_
  rintro s hs ⟨hsent, hcalls, hqueue⟩
  exact ⟨hsent, hcalls, hqueue, delivery resent s hs⟩

/-! ## The queues of a port -/

namespace CpuSidePort

/-- The packets that queue `i` is sending. -/
def sendsOf (i : Nat) : Frame → Option DeferredPacket
  | .sending j dp _ => if j = i then some dp else none
  | .retrying _ => none

/-- `u` is queue `i` of the port. -/
structure Follows (i : Nat) (s : CpuSidePort) (u : Sender) : Prop where
  queue : u.queue = s.respQueues i
  now : u.now = s.now
  calls : u.calls = s.calls.filterMap (sendsOf i)

variable {i : Nat} {s s' : CpuSidePort} {u : Sender}

theorem sendsOf_enter (i j : Nat) (f : Frame) : sendsOf i (enter j f) = sendsOf i f := by
  cases f with
  | sending k dp entered => rfl
  | retrying k => rfl

theorem filterMap_enter (i j : Nat) (l : List Frame) :
    (l.map (enter j)).filterMap (sendsOf i) = l.filterMap (sendsOf i) := by
  rw [List.filterMap_map]
  exact congrArg (List.filterMap · l) (funext fun f => sendsOf_enter i j f)

/-- A call of another queue is not noticed. -/
theorem Follows.called_other (h : Follows i s u) (hne : j ≠ i) (r : PacketQueue × Option DeferredPacket) :
    Follows i (s.called j r) u where
  queue := by
    rw [h.queue]
    exact (Function.update_of_ne hne.symm _ _).symm
  now := h.now
  calls := by
    rw [h.calls, called, List.filterMap_append, filterMap_enter]
    cases r.2 with
    | none => rfl
    | some dp => simp [sendsOf, hne]

theorem Follows.called_self (h : Follows i s u) (r : PacketQueue × Option DeferredPacket) :
    Follows i (s.called i r) (u.began r) := by
  obtain ⟨q, none | dp⟩ := r
  · refine ⟨(Function.update_self i q s.respQueues).symm, h.now, ?_⟩
    rw [called, List.filterMap_append, filterMap_enter]
    exact h.calls
  · refine ⟨(Function.update_self i q s.respQueues).symm, h.now, ?_⟩
    rw [called, List.filterMap_append, filterMap_enter, ← h.calls]
    simp [Sender.began, sendsOf]

/-- What an action of the port is for its queue `i`, which is called through the
port by its thread, by the loop of `recvRetry`, by its own event and when its send
returns. -/
def actionOf (i : Nat) (s : CpuSidePort) : Action → Option Sender.Action
  | .advance ticks =>
    if s.calls.isEmpty && s.quietUntil (s.now + ticks) then some (.advance ticks) else none
  | .schedTimingResp threadID dp => if s.open_ ∧ threadID = i then some (.schedSendTiming dp) else none
  | .recvRetry => none
  | .recvRetryOf threadID => if s.open_ ∧ threadID = i then some .retry else none
  | .resume =>
    match s.calls with
    | .retrying j :: _ => if j < s.numTcs ∧ j = i then some .retry else none
    | _ => none
  | .processSendEvent j =>
    if (s.calls.isEmpty ∧ j < s.numTcs ∧ (s.respQueues j).sendEvent = some s.now) ∧ j = i then
      some .processSendEvent
    else none
  | .returned accepted =>
    match s.calls with
    | .sending j _ _ :: _ => if j = i then some (.returned accepted) else none
    | _ => none

/-- A run of the port as queue `i` sees it. -/
def project (i : Nat) : CpuSidePort → List Action → List Sender.Action
  | _, [] => []
  | s, a :: as =>
    (s.actionOf i a).toList ++
      match s.step a with
      | .ok s' => project i s' as
      | .error _ => []

/-- The port has got to `s` with the action `b` of queue `i`, if any. -/
def Advances (i : Nat) (b : Option Sender.Action) (s : CpuSidePort) (u : Sender) : Prop :=
  ∃ u', runs Sender.step u b.toList = .ok u' ∧ Follows i s u'

theorem Follows.stays (h : Follows i s u) : Advances i none s u := ⟨u, rfl, h⟩

theorem Advances.of_step {b : Sender.Action} {u' : Sender} (hb : u.step b = .ok u') (h : Follows i s u') :
    Advances i (some b) s u := ⟨u', (runs_singleton u b).trans hb, h⟩

/-- `retry` of some queue. -/
theorem Follows.retry (h : Follows i s u) (j : Nat) :
    Advances i (if j = i then some .retry else none) (s.called j ((s.respQueues j).retry s.now)) u := by
  split
  · next hj =>
    subst hj
    refine .of_step rfl ?_
    rw [h.queue, h.now]
    exact h.called_self _
  · next hj => exact (h.called_other hj _).stays

theorem Follows.schedTimingResp (h : Follows i s u) (hq : (s.respQueues j).schedSendTiming s.now dp = .ok q) :
    Advances i (if j = i then some (.schedSendTiming dp) else none) (s.called j (q, none)) u := by
  split
  · next hj =>
    subst hj
    have hstep : u.step (.schedSendTiming dp) = .ok { u with queue := q, scheduled := u.scheduled ++ [dp] } := by
      rw [Sender.step, h.queue, h.now, hq]
      rfl
    refine .of_step hstep ⟨(Function.update_self j q s.respQueues).symm, h.now, ?_⟩
    rw [called, List.filterMap_append, filterMap_enter]
    exact h.calls
  · next hj => exact (h.called_other hj _).stays

theorem Follows.processSendEvent {r : PacketQueue × Option DeferredPacket} (h : Follows i s u)
    (hdue : (s.respQueues j).sendEvent = some s.now)
    (hr : PacketQueue.processSendEvent { s.respQueues j with sendEvent := none } s.now = .ok r) :
    Advances i (if j = i then some .processSendEvent else none) (s.called j r) u := by
  split
  · next hj =>
    subst hj
    have hstep : u.step .processSendEvent = .ok (u.began r) := by
      rw [Sender.step, h.queue, h.now, if_pos hdue, hr]
      rfl
    exact .of_step hstep (h.called_self r)
  · next hj => exact (h.called_other hj r).stays

/-- The innermost send, of queue `j`, has returned. -/
theorem Follows.returned {entered accepted : Bool} {calls : List Frame} (h : Follows i s u)
    (hc : s.calls = .sending j dp entered :: calls)
    (hq : (s.respQueues j).sendReturned s.now dp accepted = .ok q) :
    Advances i (if j = i then some (.returned accepted) else none)
      { s with respQueues := Function.update s.respQueues j q, calls := calls } u := by
  have hcalls := h.calls
  rw [hc, List.filterMap_cons] at hcalls
  split
  · next hj =>
    subst hj
    simp only [sendsOf, if_true] at hcalls
    have hstep : u.step (.returned accepted) = .ok { u with
        queue := q, calls := calls.filterMap (sendsOf j), sent := if accepted then u.sent ++ [dp] else u.sent } := by
      rw [Sender.step, hcalls, h.queue, h.now]
      simp only [hq]
      rfl
    exact .of_step hstep ⟨(Function.update_self j q s.respQueues).symm, h.now, rfl⟩
  · next hj =>
    simp only [sendsOf, if_neg hj] at hcalls
    exact Follows.stays ⟨h.queue.trans (Function.update_of_ne (Ne.symm hj) _ _).symm, h.now, hcalls⟩

/-- Each action of the port is for its queue what `actionOf` says. -/
theorem Follows.step {a : Action} (h : Follows i s u) (hs : s.step a = .ok s') :
    Advances i (s.actionOf i a) s' u := by
  cases a with
  | advance ticks =>
    cases hs
    simp only [actionOf]
    split
    · exact .of_step rfl ⟨h.queue, congrArg (· + ticks) h.now, h.calls⟩
    · exact h.stays
  | schedTimingResp threadID dp =>
    simp only [CpuSidePort.step] at hs
    split at hs
    · next ho =>
      obtain ⟨-, -, hs⟩ := bind_ok.1 hs
      obtain ⟨q, hq, hs⟩ := bind_ok.1 hs
      cases hs
      simpa only [actionOf, ho, true_and] using h.schedTimingResp hq
    · next ho =>
      cases hs
      rw [actionOf, if_neg fun hc => ho hc.1]
      exact h.stays
  | recvRetry =>
    cases hs
    split
    · exact Follows.stays ⟨h.queue, h.now, h.calls⟩
    · exact h.stays
  | recvRetryOf threadID =>
    simp only [CpuSidePort.step] at hs
    split at hs
    · next ho =>
      obtain ⟨-, -, hs⟩ := bind_ok.1 hs
      cases hs
      simpa only [actionOf, ho, true_and] using h.retry threadID
    · next ho =>
      cases hs
      rw [actionOf, if_neg fun hc => ho hc.1]
      exact h.stays
  | resume =>
    simp only [CpuSidePort.step] at hs
    split at hs
    · next j calls hc =>
      cases hs
      have hcalls : u.calls = calls.filterMap (sendsOf i) := by rw [h.calls, hc]; rfl
      simp only [actionOf, hc]
      by_cases hj : j < s.numTcs
      · simp only [hj, if_true, true_and]
        exact Follows.retry (s := { s with calls := .retrying (j + 1) :: calls }) ⟨h.queue, h.now, hcalls⟩ j
      · simp only [hj, if_false, false_and]
        exact Follows.stays ⟨h.queue, h.now, hcalls⟩
    · cases hs
      simpa only [actionOf] using h.stays
  | processSendEvent j =>
    simp only [CpuSidePort.step] at hs
    split at hs
    · next hc =>
      obtain ⟨r, hr, hs⟩ := bind_ok.1 hs
      cases hs
      simpa only [actionOf, hc, and_self, true_and] using h.processSendEvent hc.2.2 hr
    · next hc =>
      cases hs
      rw [actionOf, if_neg fun h => hc h.1]
      exact h.stays
  | returned accepted =>
    simp only [CpuSidePort.step] at hs
    split at hs
    · next j dp entered calls hc =>
      obtain ⟨q, hq, hs⟩ := bind_ok.1 hs
      cases hs
      simpa only [actionOf, hc] using h.returned hc hq
    · cases hs
      simpa only [actionOf] using h.stays

theorem Follows.run {as : List Action} (h : Follows i s u) (hr : runs CpuSidePort.step s as = .ok s') :
    ∃ u', runs Sender.step u (project i s as) = .ok u' ∧ Follows i s' u' := by
  induction as generalizing s u with
  | nil =>
    cases hr
    exact ⟨u, rfl, h⟩
  | cons a as ih =>
    obtain ⟨s₁, hs, hr⟩ := bind_ok.1 hr
    obtain ⟨u₁, hu₁, h₁⟩ := h.step hs
    obtain ⟨u', hu', h'⟩ := ih h₁ hr
    refine ⟨u', ?_, h'⟩
    rw [project, hs, runs_append hu₁]
    exact hu'

/-- In a run of the port each of its queues makes the run that the port's actions
are for it. -/
theorem queue_follows (numTcs i : Nat) (as : List Action) (h : runs step (init numTcs) as = .ok s) :
    ∃ u, runs Sender.step {} (project i (init numTcs) as) = .ok u ∧ Follows i s u :=
  Follows.run ⟨rfl, rfl, rfl⟩ h

/-- Both queues send inside the loop of `recvRetry`; six of the actions are for queue 0. -/
theorem queue_follows_refusal :
    let as := refusal ++ [.schedTimingResp 0 (response 1), .schedTimingResp 0 (response 5), .advance 1,
      .recvRetry, .resume, .returned true, .resume, .returned true, .resume, .processSendEvent 0]
    ∃ s u, runs step (init 2) as = .ok s ∧ (project 0 (init 2) as).length = 6 ∧
      runs Sender.step {} (project 0 (init 2) as) = .ok u ∧ Follows 0 s u := by
  intro as
  obtain ⟨s, hs, -⟩ : ∃ s, runs step (init 2) as = .ok s ∧ True := by decide
  obtain ⟨u, hu⟩ := queue_follows 2 0 as hs
  exact ⟨s, u, hs, by decide, hu⟩

end CpuSidePort

end DynamicCache.Port
