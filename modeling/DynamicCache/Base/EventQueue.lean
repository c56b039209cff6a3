import DynamicCache.Lib.Faults
import DynamicCache.Lib.Linked
import DynamicCache.Lib.StackQueue
import Mathlib.Data.List.Perm.Subperm
import Mathlib.Data.Prod.Lex

/-!
# The event queue (`eventq.hh`, `eventq.cc`)

Events of one tick and priority form a bin, a stack linked by `nextInBin`; the
bins are linked by the `nextBin` of their tops.  The `nextBin` of the other events
is stale and may point anywhere.  `insert` and `remove` look for the bin of an
event along `nextBin` and then change one link to it: the `nextBin` of the bin
before, or `head`.

`Rep q bins` says that the links of `q` are those of `bins`.  Both searches stop
at the same place (`insert_eq`, `remove_eq`), and `Rep.relink` is the change of
the link.  Read in the order of the bins, the queued events are a list that holds
a priority queue of stacks, and what is done to the one is done to the other
(`eventq_refines`).

Events are numbered; `numEvents` only bounds the loops.
-/

namespace DynamicCache.Base

open Lib

/-! ## Events -/

structure Event where
  when : Nat := 0
  priority : Int := 0
  nextBin : Option Nat := none
  nextInBin : Option Nat := none
  scheduled : Bool := false
  squashed : Bool := false

namespace Event

def lt (l r : Event) : Bool := l.when < r.when || (l.when == r.when && l.priority < r.priority)
def le (l r : Event) : Bool := l.when < r.when || (l.when == r.when && l.priority ≤ r.priority)
def eq (l r : Event) : Bool := l.when == r.when && l.priority == r.priority

/-- What the comparisons look at. -/
def key (e : Event) : Nat ×ₗ Int := toLex (e.when, e.priority)

theorem lt_iff {l r : Event} : l.lt r = true ↔ l.key < r.key := by
  simp [lt, key, Prod.Lex.toLex_lt_toLex]

theorem le_iff {l r : Event} : l.le r = true ↔ l.key ≤ r.key := by
  simp [le, key, Prod.Lex.toLex_le_toLex]

theorem eq_iff {l r : Event} : l.eq r = true ↔ l.key = r.key := by
  simp [eq, key]

end Event

/-- How a call can fail: an assertion, `panic`, a null pointer, or a loop that does
not end. -/
inductive EventFault where
  | assertion
  | panic
  | null
  | endless
deriving DecidableEq

structure EventQueue where
  numEvents : Nat
  events : Nat → Event := fun _ => {}
  head : Option Nat := none

namespace EventQueue

section Operations

variable (q : EventQueue)

def nextBin (e : Nat) : Option Nat := (q.events e).nextBin
def nextInBin (e : Nat) : Option Nat := (q.events e).nextInBin
def key (e : Nat) : Nat ×ₗ Int := (q.events e).key

def put (e : Nat) (v : Event) : EventQueue := { q with events := Function.update q.events e v }
def setNextBin (e : Nat) (p : Option Nat) : EventQueue := q.put e { q.events e with nextBin := p }
def setNextInBin (e : Nat) (p : Option Nat) : EventQueue := q.put e { q.events e with nextInBin := p }
def setWhen (e tick : Nat) : EventQueue := q.put e { q.events e with when := tick }
def setScheduled (e : Nat) (v : Bool) : EventQueue := q.put e { q.events e with scheduled := v }
def setSquashed (e : Nat) (v : Bool) : EventQueue := q.put e { q.events e with squashed := v }

/-- The event becomes the top of a bin before `curr`, or of the bin of `curr`. -/
def insertBefore (event : Nat) (curr : Option Nat) : EventQueue :=
  match curr with
  | none => (q.setNextBin event none).setNextInBin event none
  | some c =>
    if (q.events event).lt (q.events c) then (q.setNextBin event (some c)).setNextInBin event none
    else (q.setNextBin event (q.nextBin c)).setNextInBin event (some c)

/-- The loop of `insert` and `remove`. -/
def findBin (event head : Nat) : Except EventFault (Nat × Option Nat) :=
  orFail .endless
    (walk q.nextBin (fun c => (q.events c).lt (q.events event)) (q.numEvents + 1) head (q.nextBin head))

def insert (event : Nat) : Except EventFault EventQueue :=
  match q.head with
  | none => .ok { q.insertBefore event none with head := some event }
  | some head =>
    if (q.events event).le (q.events head) then .ok { q.insertBefore event (some head) with head := some event }
    else do
      let (prev, curr) ← q.findBin event head
      return (q.insertBefore event curr).setNextBin prev (some event)

/-- The queue and the new top of the bin. -/
def removeItem (event top : Nat) : Except EventFault (EventQueue × Option Nat) :=
  if event = top then
    match q.nextInBin top with
    | none => .ok (q, q.nextBin top)
    | some next => .ok (q.setNextBin next (q.nextBin top), some next)
  else do
    let (curr, next) ← orFail .endless
      (walk q.nextInBin (fun c => c != event) (q.numEvents + 1) top (q.nextInBin top))
    match next with
    | none => .error .panic
    | some next => .ok (q.setNextInBin curr (q.nextInBin next), some top)

def remove (event : Nat) : Except EventFault EventQueue :=
  match q.head with
  | none => .error .panic
  | some head =>
    if (q.events head).eq (q.events event) then do
      let (q, top) ← q.removeItem event head
      return { q with head := top }
    else do
      let (prev, curr) ← q.findBin event head
      match curr with
      | none => .error .panic
      | some curr =>
        if (q.events curr).eq (q.events event) then do
          let (q, top) ← q.removeItem event curr
          return q.setNextBin prev top
        else .error .panic

/-- `serviceOne` with the event that it takes, before `process` is called. -/
def serviceOne : Except EventFault (EventQueue × Nat) :=
  match q.head with
  | none => .error .null
  | some event =>
    let q := q.setScheduled event false
    let q := match q.nextInBin event with
      | some next => { q.setNextBin next (q.nextBin event) with head := some next }
      | none => { q with head := q.nextBin event }
    .ok (q.setSquashed event false, event)

def schedule (now event tick : Nat) : Except EventFault EventQueue := do
  check .assertion (decide (now ≤ tick))
  check .assertion (!(q.events event).scheduled)
  let q ← (q.setWhen event tick).insert event
  return q.setScheduled event true

def deschedule (event : Nat) : Except EventFault EventQueue := do
  check .assertion (q.events event).scheduled
  let q ← q.remove event
  return (q.setSquashed event false).setScheduled event false

/-- `reschedule` removes an event that is scheduled. -/
def unlink (event : Nat) : Except EventFault EventQueue :=
  if (q.events event).scheduled then q.remove event else .ok q

def reschedule (now event tick : Nat) (always : Bool) : Except EventFault EventQueue := do
  check .assertion (decide (now ≤ tick))
  check .assertion (always || (q.events event).scheduled)
  let q ← q.unlink event
  let q ← (q.setWhen event tick).insert event
  return (q.setSquashed event false).setScheduled event true

end Operations

section Setters

variable (q : EventQueue) (e : Nat) (p : Option Nat)

theorem nextBin_setNextBin : (q.setNextBin e p).nextBin = Function.update q.nextBin e p := by
  funext x
  simp only [nextBin, setNextBin, put, Function.update_apply]
  split
  · rfl
  · rfl

theorem nextInBin_setNextBin : (q.setNextBin e p).nextInBin = q.nextInBin := by
  funext x
  simp only [nextInBin, setNextBin, put, Function.update_apply]
  split
  · next h => rw [h]
  · rfl

theorem nextBin_setNextInBin : (q.setNextInBin e p).nextBin = q.nextBin := by
  funext x
  simp only [nextBin, setNextInBin, put, Function.update_apply]
  split
  · next h => rw [h]
  · rfl

theorem nextInBin_setNextInBin : (q.setNextInBin e p).nextInBin = Function.update q.nextInBin e p := by
  funext x
  simp only [nextInBin, setNextInBin, put, Function.update_apply]
  split
  · rfl
  · rfl

end Setters

/-! ## Bins -/

/-- The events of one key, the newest first. -/
structure Bin where
  top : Nat
  rest : List Nat

def Bin.items (b : Bin) : List Nat := b.top :: b.rest

/-- The events of some bins. -/
def flat (bins : List Bin) : List Nat := bins.flatMap Bin.items

theorem flat_append (P S : List Bin) : flat (P ++ S) = flat P ++ flat S := List.flatMap_append

theorem flat_cons (b : Bin) (S : List Bin) : flat (b :: S) = b.items ++ flat S := List.flatMap_cons

theorem top_mem_flat {b : Bin} {bins : List Bin} (hb : b ∈ bins) : b.top ∈ flat bins :=
  List.mem_flatMap.2 ⟨b, hb, List.mem_cons_self⟩

theorem rest_mem_flat {b : Bin} {bins : List Bin} {e : Nat} (hb : b ∈ bins) (he : e ∈ b.rest) : e ∈ flat bins :=
  List.mem_flatMap.2 ⟨b, hb, List.mem_cons_of_mem _ he⟩

/-- The links lead from `p` through the bins to `r`.  Nothing is said about the
`nextBin` of events that are not tops. -/
structure Chain (q : EventQueue) (p : Option Nat) (bins : List Bin) (r : Option Nat) : Prop where
  tops : Segment q.nextBin p (bins.map Bin.top) r
  inBins : ∀ b ∈ bins, Segment q.nextInBin (q.nextInBin b.top) b.rest none

section Chain

variable {q q' : EventQueue} {p r : Option Nat} {bins P S : List Bin}

theorem chain_append : Chain q p (P ++ S) r ↔ ∃ m, Chain q p P m ∧ Chain q m S r := by
  constructor
  · intro h
    have ht := h.tops
    rw [List.map_append] at ht
    obtain ⟨m, h1, h2⟩ := segment_append.1 ht
    exact ⟨m, ⟨h1, fun b hb => h.inBins b (List.mem_append_left _ hb)⟩,
      ⟨h2, fun b hb => h.inBins b (List.mem_append_right _ hb)⟩⟩
  · rintro ⟨m, h1, h2⟩
    refine ⟨?_, fun b hb => ?_⟩
    · rw [List.map_append]
      exact segment_append.2 ⟨m, h1.tops, h2.tops⟩
    · obtain hb | hb := List.mem_append.1 hb
      · exact h1.inBins b hb
      · exact h2.inBins b hb

/-- The events outside the bins do not matter. -/
theorem Chain.frame (h : Chain q p bins r)
    (hf : ∀ e ∈ flat bins, q'.nextBin e = q.nextBin e ∧ q'.nextInBin e = q.nextInBin e) : Chain q' p bins r where
  tops := h.tops.congr fun a ha => by
    obtain ⟨b, hb, rfl⟩ := List.mem_map.1 ha
    exact (hf _ (top_mem_flat hb)).1
  inBins b hb := by
    rw [(hf _ (top_mem_flat hb)).2]
    exact (h.inBins b hb).congr fun a ha => (hf a (rest_mem_flat hb ha)).2

/-- The link behind the bins `P` is set to `p`. -/
def relink (q : EventQueue) (P : List Bin) (p : Option Nat) : EventQueue :=
  match P.getLast? with
  | none => { q with head := p }
  | some b => q.setNextBin b.top p

theorem relink_concat (q : EventQueue) (P : List Bin) (b : Bin) (p : Option Nat) :
    q.relink (P ++ [b]) p = q.setNextBin b.top p := by
  simp [relink]

theorem Chain.relink {m : Option Nat} (hP : Chain q q.head P m) (hS : Chain q p S r) (hnd : (flat (P ++ S)).Nodup) :
    Chain (q.relink P p) (q.relink P p).head (P ++ S) r := by
  obtain rfl | ⟨P, b, rfl⟩ := P.eq_nil_or_concat'
  · exact ⟨hS.tops, hS.inBins⟩
  · rw [relink_concat]
    rw [flat_append, flat_append, flat_cons, List.nodup_append] at hnd
    refine ⟨?_, fun c hc => ?_⟩
    · have ht := hP.tops
      rw [List.map_append] at ht
      rw [nextBin_setNextBin, List.map_append, List.map_append, List.append_assoc]
      refine ht.relink (fun hb => ?_) hS.tops fun hb => ?_
      · obtain ⟨c, hc, he⟩ := List.mem_map.1 hb
        exact (List.nodup_append.1 hnd.1).2.2 _ (top_mem_flat hc) _ List.mem_cons_self he
      · obtain ⟨c, hc, he⟩ := List.mem_map.1 hb
        exact hnd.2.2 _ (List.mem_append_right _ List.mem_cons_self) _ (top_mem_flat hc) he.symm
    · rw [nextInBin_setNextBin]
      obtain hc | hc := List.mem_append.1 hc
      · exact hP.inBins c hc
      · exact hS.inBins c hc

end Chain

/-! ## The invariant -/

structure Rep (q : EventQueue) (bins : List Bin) : Prop where
  chain : Chain q q.head bins none
  keys : ∀ b ∈ bins, ∀ e ∈ b.rest, q.key e = q.key b.top
  sorted : bins.Pairwise fun b c => q.key b.top < q.key c.top
  nodup : (flat bins).Nodup
  lt : ∀ e ∈ flat bins, e < q.numEvents

/-- Only links have changed. -/
structure SameData (q q' : EventQueue) : Prop where
  numEvents : q'.numEvents = q.numEvents
  when : ∀ e, (q'.events e).when = (q.events e).when
  priority : ∀ e, (q'.events e).priority = (q.events e).priority
  scheduled : ∀ e, (q'.events e).scheduled = (q.events e).scheduled
  squashed : ∀ e, (q'.events e).squashed = (q.events e).squashed

section Rep

variable {q q' q'' : EventQueue} {e : Nat} {p : Option Nat} {bins P S : List Bin}

theorem SameData.refl (q : EventQueue) : SameData q q := ⟨rfl, fun _ => rfl, fun _ => rfl, fun _ => rfl, fun _ => rfl⟩

theorem SameData.trans (h : SameData q q') (h' : SameData q' q'') : SameData q q'' where
  numEvents := h'.numEvents.trans h.numEvents
  when e := (h'.when e).trans (h.when e)
  priority e := (h'.priority e).trans (h.priority e)
  scheduled e := (h'.scheduled e).trans (h.scheduled e)
  squashed e := (h'.squashed e).trans (h.squashed e)

theorem SameData.key (h : SameData q q') : q'.key = q.key := by
  funext e
  simp only [EventQueue.key, Event.key, h.when e, h.priority e]

theorem sameData_put {v : Event} (h : v.when = (q.events e).when ∧ v.priority = (q.events e).priority ∧
    v.scheduled = (q.events e).scheduled ∧ v.squashed = (q.events e).squashed) : SameData q (q.put e v) := by
  have hput : ∀ x, (q.put e v).events x = if x = e then v else q.events x := fun x => Function.update_apply ..
  refine ⟨rfl, fun x => ?_, fun x => ?_, fun x => ?_, fun x => ?_⟩
  all_goals
    rw [hput]
    split
    · next hx => simp only [hx, h]
    · rfl

theorem sameData_setNextBin (q : EventQueue) (e : Nat) (p : Option Nat) : SameData q (q.setNextBin e p) :=
  sameData_put ⟨rfl, rfl, rfl, rfl⟩

theorem sameData_setNextInBin (q : EventQueue) (e : Nat) (p : Option Nat) : SameData q (q.setNextInBin e p) :=
  sameData_put ⟨rfl, rfl, rfl, rfl⟩

theorem sameData_head (q : EventQueue) (p : Option Nat) : SameData q { q with head := p } :=
  ⟨rfl, fun _ => rfl, fun _ => rfl, fun _ => rfl, fun _ => rfl⟩

theorem sameData_relink (q : EventQueue) (P : List Bin) (p : Option Nat) : SameData q (q.relink P p) := by
  unfold relink
  split
  · exact sameData_head q p
  · exact sameData_setNextBin q _ p

theorem sameData_insertBefore (q : EventQueue) (e : Nat) (curr : Option Nat) : SameData q (q.insertBefore e curr) := by
  unfold insertBefore
  split
  · exact (sameData_setNextBin _ _ _).trans (sameData_setNextInBin _ _ _)
  · split
    · exact (sameData_setNextBin _ _ _).trans (sameData_setNextInBin _ _ _)
    · exact (sameData_setNextBin _ _ _).trans (sameData_setNextInBin _ _ _)

theorem Rep.length_le (h : Rep q bins) : (flat bins).length ≤ q.numEvents := by
  have hsub := (List.Nodup.subperm h.nodup fun e he => List.mem_range.2 (h.lt e he)).length_le
  rwa [List.length_range] at hsub

theorem length_le_flat (bins : List Bin) : bins.length ≤ (flat bins).length := by
  induction bins with
  | nil => exact Nat.le_refl _
  | cons b bins ih =>
    rw [flat_cons, List.length_append, List.length_cons, Bin.items, List.length_cons]
    omega

theorem Rep.key_of_mem (h : Rep q bins) {b : Bin} (hb : b ∈ bins) (he : e ∈ b.items) : q.key e = q.key b.top := by
  obtain rfl | he := List.mem_cons.1 he
  · rfl
  · exact h.keys b hb e he

/-- The events that come first have the smaller keys. -/
theorem Rep.flat_sorted (h : Rep q bins) : (flat bins).Pairwise fun a b => q.key a ≤ q.key b := by
  have hs := h.sorted
  rw [flat, List.pairwise_flatMap]
  refine ⟨fun b hb => ?_, hs.imp_of_mem fun hb hc hlt x hx y hy => ?_⟩
  · refine List.pairwise_of_forall_mem_list fun x hx y hy => ?_
    rw [h.key_of_mem hb hx, h.key_of_mem hb hy]
  · rw [h.key_of_mem hb hx, h.key_of_mem hc hy]
    exact hlt.le

/-- The bins before the place of a key, and those from there on. -/
theorem Rep.split (h : Rep q bins) (e : Nat) :
    ∃ P S, bins = P ++ S ∧ (∀ b ∈ P, q.key b.top < q.key e) ∧ ∀ b ∈ S, q.key e ≤ q.key b.top := by
  have hs := h.sorted
  clear h
  induction bins with
  | nil => exact ⟨[], [], rfl, (fun b hb => by cases hb), fun b hb => by cases hb⟩
  | cons b bins ih =>
    obtain ⟨hb, hs⟩ := List.pairwise_cons.1 hs
    by_cases hlt : q.key b.top < q.key e
    · obtain ⟨P, S, rfl, hP, hS⟩ := ih hs
      exact ⟨b :: P, S, rfl, List.forall_mem_cons.2 ⟨hlt, hP⟩, hS⟩
    · have hle := not_lt.1 hlt
      exact ⟨[], b :: bins, rfl, (fun b hb => by cases hb),
        List.forall_mem_cons.2 ⟨hle, fun c hc => hle.trans (hb c hc).le⟩⟩

/-- The loop from the first of some bins `c :: P` that come before the event. -/
theorem Rep.findBin_eq {c : Bin} (h : Rep q (c :: (P ++ S))) (hP : ∀ b ∈ P, q.key b.top < q.key e)
    (hS : ∀ b ∈ S, q.key e ≤ q.key b.top) :
    q.findBin e c.top = .ok (((c :: P).getLast (List.cons_ne_nil _ _)).top, S.head?.map Bin.top) := by
  have ht := h.chain.tops.2
  rw [List.map_append] at ht
  have hlen : (P.map Bin.top).length < q.numEvents + 1 := by
    have h1 := h.length_le
    have h2 := length_le_flat (c :: (P ++ S))
    simp only [List.length_append, List.length_cons, List.length_map] at h2 ⊢
    omega
  have hgo : ∀ a ∈ P.map Bin.top, (q.events a).lt (q.events e) = true := by
    intro a ha
    obtain ⟨b, hb, rfl⟩ := List.mem_map.1 ha
    exact Event.lt_iff.2 (hP b hb)
  have hstop : ∀ a, (S.map Bin.top).head? = some a → (q.events a).lt (q.events e) = false := by
    intro a ha
    obtain ⟨b, hb, rfl⟩ := List.mem_map.1 (List.mem_of_mem_head? ha)
    rw [Bool.eq_false_iff, Ne, Event.lt_iff]
    exact not_lt.2 (hS b hb)
  have hlast : (c.top :: P.map Bin.top).getLast (List.cons_ne_nil _ _) =
      ((c :: P).getLast (List.cons_ne_nil _ _)).top := List.getLast_map (f := Bin.top) (l := c :: P) (by simp)
  rw [findBin, walk_append ht hgo hstop hlen, hlast, List.head?_map]
  rfl

/-- `insert` makes the event the top of the bin at its place. -/
theorem Rep.insert_eq (h : Rep q (P ++ S)) (hP : ∀ b ∈ P, q.key b.top < q.key e)
    (hS : ∀ b ∈ S, q.key e ≤ q.key b.top) :
    q.insert e = .ok ((q.insertBefore e (S.head?.map Bin.top)).relink P (some e)) := by
  have hhead := h.chain.tops.head
  unfold insert
  cases P with
  | nil =>
    cases S with
    | nil =>
      simp only [hhead]
      rfl
    | cons b S =>
      have hle : (q.events e).le (q.events b.top) = true := Event.le_iff.2 (hS b List.mem_cons_self)
      simp only [hhead]
      exact if_pos hle
  | cons c P =>
    have hlt : ¬(q.events e).le (q.events c.top) = true := by
      rw [Event.le_iff]
      exact not_le.2 (hP c List.mem_cons_self)
    have hfind := Rep.findBin_eq (P := P) (S := S) h (fun b hb => hP b (List.mem_cons_of_mem _ hb)) hS
    simp only [hhead]
    refine (if_neg hlt).trans ?_
    rw [show (q.findBin e c.top) = _ from hfind]
    rfl

theorem Rep.remove_eq {b : Bin} (h : Rep q (P ++ b :: S)) (he : q.key e = q.key b.top) :
    q.remove e = (q.removeItem e b.top).bind fun r => .ok (r.1.relink P r.2) := by
  have hhead := h.chain.tops.head
  have hs := List.pairwise_append.1 h.sorted
  have heq : (q.events b.top).eq (q.events e) = true := Event.eq_iff.2 he.symm
  unfold remove
  cases P with
  | nil =>
    simp only [hhead]
    exact if_pos heq
  | cons c P =>
    have hlt : ∀ d ∈ c :: P, q.key d.top < q.key e := fun d hd => he ▸ hs.2.2 d hd b List.mem_cons_self
    have hne : ¬(q.events c.top).eq (q.events e) = true := by
      rw [Event.eq_iff]
      exact (hlt c List.mem_cons_self).ne
    have hS : ∀ d ∈ b :: S, q.key e ≤ q.key d.top := by
      refine List.forall_mem_cons.2 ⟨he.le, fun d hd => ?_⟩
      rw [he]
      exact ((List.pairwise_cons.1 hs.2.1).1 d hd).le
    have hfind := Rep.findBin_eq (P := P) (S := b :: S) h (fun d hd => hlt d (List.mem_cons_of_mem _ hd)) hS
    simp only [hhead]
    refine (if_neg hne).trans ?_
    rw [show (q.findBin e c.top) = _ from hfind]
    refine (if_pos heq).trans ?_
    rfl

/-! ## Inserting -/

theorem nextBin_insertBefore (q : EventQueue) (e : Nat) (curr : Option Nat) {x : Nat} (hx : x ≠ e) :
    (q.insertBefore e curr).nextBin x = q.nextBin x ∧ (q.insertBefore e curr).nextInBin x = q.nextInBin x := by
  unfold insertBefore
  split
  · simp [nextBin_setNextInBin, nextBin_setNextBin, nextInBin_setNextInBin, nextInBin_setNextBin, hx]
  · split
    · simp [nextBin_setNextInBin, nextBin_setNextBin, nextInBin_setNextInBin, nextInBin_setNextBin, hx]
    · simp [nextBin_setNextInBin, nextBin_setNextBin, nextInBin_setNextInBin, nextInBin_setNextBin, hx]

theorem head_insertBefore (q : EventQueue) (e : Nat) (curr : Option Nat) : (q.insertBefore e curr).head = q.head := by
  unfold insertBefore
  split
  · rfl
  · split
    · rfl
    · rfl

/-- The bins from the place of the event on, with the event. -/
def withEvent (q : EventQueue) (e : Nat) : List Bin → List Bin
  | [] => [⟨e, []⟩]
  | b :: S => if (q.events e).lt (q.events b.top) then ⟨e, []⟩ :: b :: S else ⟨e, b.items⟩ :: S

theorem flat_withEvent (q : EventQueue) (e : Nat) (S : List Bin) : flat (q.withEvent e S) = e :: flat S := by
  cases S with
  | nil => rfl
  | cons b S =>
    rw [withEvent]
    split
    · rfl
    · rfl

theorem Chain.insertBefore (h : Chain q p S none) (he : e ∉ flat S) :
    Chain (q.insertBefore e (S.head?.map Bin.top)) (some e) (q.withEvent e S) none := by
  have hold : Chain (q.insertBefore e (S.head?.map Bin.top)) p S none :=
    h.frame fun x hx => nextBin_insertBefore q e _ (ne_of_mem_of_not_mem hx he)
  cases S with
  | nil =>
    refine ⟨⟨rfl, ?_⟩, fun b hb => ?_⟩
    · simp [EventQueue.insertBefore, nextBin_setNextInBin, nextBin_setNextBin, Segment]
    · obtain rfl := List.mem_singleton.1 hb
      simp [EventQueue.insertBefore, nextInBin_setNextInBin, Segment]
  | cons b S =>
    have hp : p = some b.top := h.tops.1
    simp only [List.head?_cons, Option.map_some, EventQueue.insertBefore, withEvent] at hold ⊢
    split
    · next hlt =>
      rw [if_pos hlt] at hold
      refine ⟨⟨rfl, ?_⟩, fun c hc => ?_⟩
      · have ht := hold.tops
        simpa [nextBin_setNextInBin, nextBin_setNextBin, hp] using ht
      · obtain rfl | hc := List.mem_cons.1 hc
        · simp [nextInBin_setNextInBin, Segment]
        · exact hold.inBins c hc
    · next hge =>
      rw [if_neg hge] at hold
      -- the `nextBin` of the old top is copied and no longer looked at
      refine ⟨⟨rfl, ?_⟩, fun c hc => ?_⟩
      · have hb : b.top ≠ e := fun hb => he (hb ▸ List.mem_cons_self)
        have ht := hold.tops.2
        simpa [nextBin_setNextInBin, nextBin_setNextBin, hb] using ht
      · obtain rfl | hc := List.mem_cons.1 hc
        · refine ⟨?_, hold.inBins b List.mem_cons_self⟩
          simp [nextInBin_setNextInBin]
        · exact hold.inBins c (List.mem_cons_of_mem _ hc)

theorem withEvent_le (hS : ∀ b ∈ S, q.key e ≤ q.key b.top) : ∀ c ∈ q.withEvent e S, q.key e ≤ q.key c.top := by
  cases S with
  | nil => exact List.forall_mem_singleton.2 (le_refl _)
  | cons b S =>
    rw [withEvent]
    split
    · exact List.forall_mem_cons.2 ⟨le_refl _, hS⟩
    · exact List.forall_mem_cons.2 ⟨le_refl _, fun c hc => hS c (List.mem_cons_of_mem _ hc)⟩

theorem withEvent_sorted (hS : ∀ b ∈ S, q.key e ≤ q.key b.top) (hs : S.Pairwise fun b c => q.key b.top < q.key c.top) :
    (q.withEvent e S).Pairwise fun b c => q.key b.top < q.key c.top := by
  cases S with
  | nil => exact List.pairwise_singleton _ _
  | cons b S =>
    obtain ⟨hb, hs'⟩ := List.pairwise_cons.1 hs
    rw [withEvent]
    split
    · next hlt =>
      have hlt := Event.lt_iff.1 hlt
      exact List.pairwise_cons.2 ⟨List.forall_mem_cons.2 ⟨hlt, fun c hc => hlt.trans (hb c hc)⟩, hs⟩
    · exact List.pairwise_cons.2 ⟨fun c hc => (hS b List.mem_cons_self).trans_lt (hb c hc), hs'⟩

theorem withEvent_keys (hS : ∀ b ∈ S, q.key e ≤ q.key b.top) (hk : ∀ b ∈ S, ∀ x ∈ b.rest, q.key x = q.key b.top) :
    ∀ b ∈ q.withEvent e S, ∀ x ∈ b.rest, q.key x = q.key b.top := by
  intro c hc x hx
  cases S with
  | nil =>
    obtain rfl := List.mem_singleton.1 hc
    cases hx
  | cons b S =>
    rw [withEvent] at hc
    split at hc
    · obtain rfl | hc := List.mem_cons.1 hc
      · cases hx
      · exact hk c hc x hx
    · next hge =>
      obtain rfl | hc := List.mem_cons.1 hc
      · have hbe : q.key b.top = q.key e :=
          le_antisymm (not_lt.1 fun hlt => hge (Event.lt_iff.2 hlt)) (hS b List.mem_cons_self)
        obtain rfl | hx := List.mem_cons.1 hx
        · exact hbe
        · exact (hk b List.mem_cons_self x hx).trans hbe
      · exact hk c (List.mem_cons_of_mem _ hc) x hx

/-- `insert` of an event that is not queued: it comes before everything whose key
is not smaller. -/
theorem Rep.insert (h : Rep q bins) (he : e ∉ flat bins) (hlt : e < q.numEvents) :
    ∃ q' bins' l m, q.insert e = .ok q' ∧ Rep q' bins' ∧ SameData q q' ∧ flat bins = l ++ m ∧
      flat bins' = l ++ e :: m ∧ ∀ x ∈ l, q.key x < q.key e := by
  obtain ⟨P, S, rfl, hP, hS⟩ := h.split e
  rw [flat_append, List.mem_append, not_or] at he
  obtain ⟨m, hcP, hcS⟩ := chain_append.1 h.chain
  have hframe : Chain (q.insertBefore e (S.head?.map Bin.top)) q.head P m :=
    hcP.frame fun x hx => nextBin_insertBefore q e _ (ne_of_mem_of_not_mem hx he.1)
  have hflat : flat (P ++ q.withEvent e S) = flat P ++ e :: flat S := by rw [flat_append, flat_withEvent]
  have hperm : (flat (P ++ q.withEvent e S)).Perm (e :: flat (P ++ S)) := by
    rw [hflat, flat_append]
    exact List.perm_middle
  have hnd : (flat (P ++ q.withEvent e S)).Nodup := by
    rw [hperm.nodup_iff, List.nodup_cons, flat_append, List.mem_append, not_or]
    exact ⟨he, flat_append P S ▸ h.nodup⟩
  have hsame := (sameData_insertBefore q e (S.head?.map Bin.top)).trans (sameData_relink _ P (some e))
  obtain ⟨hsP, hsS, hsPS⟩ := List.pairwise_append.1 h.sorted
  refine ⟨_, P ++ q.withEvent e S, flat P, flat S, h.insert_eq hP hS, ?_, hsame, flat_append P S, hflat, fun x hx => ?_⟩
  · refine ⟨?_, ?_, ?_, hnd, fun x hx => ?_⟩
    · exact Chain.relink (head_insertBefore q e _ ▸ hframe) (hcS.insertBefore he.2) hnd
    · rw [hsame.key]
      intro b hb
      obtain hb | hb := List.mem_append.1 hb
      · exact h.keys b (List.mem_append_left _ hb)
      · exact withEvent_keys hS (fun b hb => h.keys b (List.mem_append_right _ hb)) b hb
    · rw [hsame.key]
      refine List.pairwise_append.2 ⟨hsP, withEvent_sorted hS hsS, fun b hb c hc => ?_⟩
      exact (hP b hb).trans_le (withEvent_le hS c hc)
    · rw [hsame.numEvents]
      obtain rfl | hx := List.mem_cons.1 (hperm.mem_iff.1 hx)
      · exact hlt
      · exact h.lt x hx
  · obtain ⟨b, hb, hxb⟩ := List.mem_flatMap.1 hx
    rw [h.key_of_mem (List.mem_append_left _ hb) hxb]
    exact hP b hb

/-! ## Removing -/

/-- What `removeItem` leaves of the bin `b`, and where the link to it is to point. -/
structure Removed (q : EventQueue) (e : Nat) (b : Bin) (S : List Bin) (q' : EventQueue) (p : Option Nat)
    (S' : List Bin) :
    Prop where
  chain : Chain q' p S' none
  bins : S' = S ∧ b.items.erase e = [] ∨ ∃ b', S' = b' :: S ∧ b'.items = b.items.erase e
  frame : ∀ x ∉ b.items, q'.nextBin x = q.nextBin x ∧ q'.nextInBin x = q.nextInBin x
  head : q'.head = q.head
  same : SameData q q'

theorem removeItem_top {b : Bin} (h : Chain q p (b :: S) none) (hnd : (flat (b :: S)).Nodup) :
    ∃ q' p' S', q.removeItem b.top b.top = .ok (q', p') ∧ Removed q b.top b S q' p' S' := by
  have hin := h.inBins b List.mem_cons_self
  have hitems : b.items.erase b.top = b.rest := List.erase_cons_head b.top b.rest
  have hS : Chain q (q.nextBin b.top) S none := ⟨h.tops.2, fun c hc => h.inBins c (List.mem_cons_of_mem _ hc)⟩
  unfold removeItem
  rw [if_pos rfl]
  cases hr : b.rest with
  | nil =>
    rw [hr] at hin hitems
    rw [show q.nextInBin b.top = none from hin]
    exact ⟨q, _, S, rfl, hS, .inl ⟨rfl, hitems⟩, fun _ _ => ⟨rfl, rfl⟩, rfl, .refl q⟩
  | cons n r =>
    rw [hr] at hin hitems
    rw [hin.1]
    have hn : n ∈ b.items := by
      rw [Bin.items, hr]
      exact List.mem_cons_of_mem _ List.mem_cons_self
    have hnS : n ∉ flat S := by
      exact fun h' => (List.nodup_append.1 hnd).2.2 n hn n h' rfl
    refine ⟨_, _, ⟨n, r⟩ :: S, rfl, ⟨⟨rfl, ?_⟩, fun c hc => ?_⟩, .inr ⟨_, rfl, hitems.symm⟩, fun x hx => ?_, rfl,
      sameData_setNextBin q n _⟩
    · -- the new top takes over the link to the next bin
      rw [nextBin_setNextBin, Function.update_self]
      refine hS.tops.update (fun hmem => ?_) _
      obtain ⟨c, hc, rfl⟩ := List.mem_map.1 hmem
      exact hnS (top_mem_flat hc)
    · rw [nextInBin_setNextBin]
      obtain rfl | hc := List.mem_cons.1 hc
      · exact hin.2
      · exact hS.inBins c hc
    · rw [nextBin_setNextBin, nextInBin_setNextBin, Function.update_of_ne (ne_of_mem_of_not_mem hn hx).symm]
      exact ⟨rfl, rfl⟩

theorem removeItem_rest {b : Bin} (h : Chain q p (b :: S) none) (hnd : (flat (b :: S)).Nodup) (he : e ∈ b.rest)
    (hlen : b.rest.length ≤ q.numEvents) :
    ∃ q' p' S', q.removeItem e b.top = .ok (q', p') ∧ Removed q e b S q' p' S' := by
  have hin := h.inBins b List.mem_cons_self
  obtain ⟨hnb, -, hdisj⟩ := List.nodup_append.1 hnd
  have htop : e ≠ b.top := ne_of_mem_of_not_mem he (List.nodup_cons.1 hnb).1
  obtain ⟨r₁, r₂, hr, he₁⟩ := List.eq_append_cons_of_mem he
  rw [Bin.items, hr] at hnb
  rw [hr] at hin hlen
  have hlt : r₁.length < q.numEvents + 1 := by
    rw [List.length_append, List.length_cons] at hlen
    omega
  obtain ⟨a, ha₁, hwalk, hstack⟩ := hin.unlink hnb hlt
  have ha : a ∈ b.items := by
    rw [Bin.items, hr, ← List.cons_append]
    exact List.mem_append_left _ ha₁
  refine ⟨q.setNextInBin a (q.nextInBin e), some b.top, ⟨b.top, r₁ ++ r₂⟩ :: S, ?_, ⟨⟨rfl, ?_⟩, fun c hc => ?_⟩,
    .inr ⟨_, rfl, ?_⟩, fun x hx => ?_, rfl, sameData_setNextInBin q a _⟩
  · rw [removeItem, if_neg htop, hwalk]
    rfl
  · rw [nextBin_setNextInBin]
    exact h.tops.2
  · rw [nextInBin_setNextInBin]
    obtain rfl | hc := List.mem_cons.1 hc
    · exact hstack.2
    · have haS : a ∉ flat S := fun h' => hdisj a ha a h' rfl
      rw [Function.update_of_ne (ne_of_mem_of_not_mem (top_mem_flat hc) haS)]
      exact (h.inBins c (List.mem_cons_of_mem _ hc)).update (fun h' => haS (rest_mem_flat hc h')) _
  · rw [Bin.items, Bin.items, hr, List.erase_cons_tail (by simpa using htop.symm), List.erase_append_right _ he₁,
      List.erase_cons_head]
  · rw [nextBin_setNextInBin, nextInBin_setNextInBin, Function.update_of_ne (ne_of_mem_of_not_mem ha hx).symm]
    exact ⟨rfl, rfl⟩

/-- The queue after the link to the bin was changed. -/
theorem Rep.removed {b : Bin} {S' : List Bin} (h : Rep q (P ++ b :: S)) (he : e ∈ b.items)
    (hr : Removed q e b S q' p S') :
    ∃ bins', Rep (q'.relink P p) bins' ∧ SameData q (q'.relink P p) ∧ flat bins' = (flat (P ++ b :: S)).erase e := by
  have hnd := h.nodup
  rw [flat_append, flat_cons] at hnd
  obtain ⟨-, -, hdisj⟩ := List.nodup_append.1 hnd
  have hPb : ∀ x ∈ flat P, x ∉ b.items := fun x hx hb => hdisj x hx x (List.mem_append_left _ hb) rfl
  have hflatS : flat S' = b.items.erase e ++ flat S := by
    obtain ⟨rfl, hnil⟩ | ⟨b', rfl, hb'⟩ := hr.bins
    · rw [hnil]
      rfl
    · rw [flat_cons, hb']
  have hflat : flat (P ++ S') = (flat (P ++ b :: S)).erase e := by
    rw [flat_append, flat_append, flat_cons, hflatS, List.erase_append_right _ fun hP => hPb e hP he,
      List.erase_append_left _ he]
  have hnd' : (flat (P ++ S')).Nodup := hflat ▸ h.nodup.erase e
  have hsame := hr.same.trans (sameData_relink q' P p)
  -- what is left of the bin has its key
  have hbins : (∀ c ∈ S', ∀ x ∈ c.rest, q.key x = q.key c.top) ∧
      (P ++ S').Pairwise fun b c => q.key b.top < q.key c.top := by
    have hS : ∀ c ∈ S, ∀ x ∈ c.rest, q.key x = q.key c.top := fun c hc =>
      h.keys c (List.mem_append_right _ (List.mem_cons_of_mem _ hc))
    obtain ⟨rfl, -⟩ | ⟨b', rfl, hb'⟩ := hr.bins
    · exact ⟨hS, h.sorted.sublist ((List.sublist_cons_self _ _).append_left _)⟩
    · have hitems : ∀ x ∈ b'.items, q.key x = q.key b.top := fun x hx =>
        h.key_of_mem (List.mem_append_right _ List.mem_cons_self) (List.mem_of_mem_erase (hb' ▸ hx))
      have htop := hitems b'.top List.mem_cons_self
      refine ⟨List.forall_mem_cons.2 ⟨fun x hx => ?_, hS⟩, ?_⟩
      · exact (hitems x (List.mem_cons_of_mem _ hx)).trans htop.symm
      · have hmap : (P ++ b' :: S).map (fun c => q.key c.top) = (P ++ b :: S).map fun c => q.key c.top := by
          simp [htop]
        exact List.pairwise_map.1 (hmap ▸ List.pairwise_map.2 h.sorted)
  obtain ⟨m, hcP, -⟩ := chain_append.1 h.chain
  refine ⟨P ++ S', ⟨?_, ?_, hsame.key ▸ hbins.2, hnd', fun x hx => ?_⟩, hsame, hflat⟩
  · exact Chain.relink (hr.head.symm ▸ hcP.frame fun x hx => hr.frame x (hPb x hx)) hr.chain hnd'
  · rw [hsame.key]
    intro c hc
    obtain hc | hc := List.mem_append.1 hc
    · exact h.keys c (List.mem_append_left _ hc)
    · exact hbins.1 c hc
  · rw [hsame.numEvents]
    exact h.lt x (List.mem_of_mem_erase (hflat ▸ hx))

/-- `remove` of an event that is queued. -/
theorem Rep.remove (h : Rep q bins) (he : e ∈ flat bins) :
    ∃ q' bins', q.remove e = .ok q' ∧ Rep q' bins' ∧ SameData q q' ∧ flat bins' = (flat bins).erase e := by
  obtain ⟨b, hb, heb⟩ := List.mem_flatMap.1 he
  have hkey := h.key_of_mem hb heb
  have hlen := h.length_le
  obtain ⟨P, S, rfl⟩ := List.append_of_mem hb
  obtain ⟨m, -, hc⟩ := chain_append.1 h.chain
  have hnd := h.nodup
  rw [flat_append] at hnd hlen
  have hrem : ∃ q' p' S', q.removeItem e b.top = .ok (q', p') ∧ Removed q e b S q' p' S' := by
    obtain rfl | her := List.mem_cons.1 heb
    · exact removeItem_top hc (List.nodup_append.1 hnd).2.1
    · refine removeItem_rest hc (List.nodup_append.1 hnd).2.1 her ?_
      simp only [flat_cons, Bin.items, List.length_append, List.length_cons] at hlen
      omega
  obtain ⟨q', p', S', hq, hR⟩ := hrem
  obtain ⟨bins', hrep, hsame, hflat⟩ := h.removed heb hR
  refine ⟨_, bins', ?_, hrep, hsame, hflat⟩
  rw [h.remove_eq hkey, hq]
  rfl

/-! ## Servicing -/

/-- `serviceOne` is the removal of the top of the first bin. -/
theorem serviceOne_eq (hhead : q.head = some e) :
    q.serviceOne = ((q.setScheduled e false).removeItem e e).bind fun r =>
      .ok ((r.1.relink [] r.2).setSquashed e false, e) := by
  simp only [serviceOne, hhead, removeItem, if_true]
  cases (q.setScheduled e false).nextInBin e with
  | none => rfl
  | some next => rfl

/-! ## The history -/

/-- The bins hold what the history leaves. -/
structure Holds (q : EventQueue) (bins : List Bin) (acts : List (StackQueue.Act (Nat ×ₗ Int) Nat)) : Prop where
  rep : Rep q bins
  history : StackQueue.Runs (fun _ => []) acts (StackQueue.stacksOf q.key (flat bins))

variable {acts : List (StackQueue.Act (Nat ×ₗ Int) Nat)}

theorem Holds.init (numEvents : Nat) : Holds { numEvents := numEvents } [] [] where
  rep := ⟨⟨rfl, fun b hb => by cases hb⟩, (fun b hb => by cases hb), .nil, .nil, fun e he => by cases he⟩
  history := .nil

/-- A change of an event that leaves the links and keys of the queued ones. -/
theorem Holds.put {v : Event} (h : Holds q bins acts) (hv : e ∈ flat bins →
    v.nextBin = (q.events e).nextBin ∧ v.nextInBin = (q.events e).nextInBin ∧ v.key = (q.events e).key) :
    Holds (q.put e v) bins acts := by
  have hput : ∀ x, (q.put e v).events x = if x = e then v else q.events x := fun x => Function.update_apply ..
  have hsame : ∀ x ∈ flat bins, (q.put e v).nextBin x = q.nextBin x ∧ (q.put e v).nextInBin x = q.nextInBin x ∧
      (q.put e v).key x = q.key x := by
    intro x hx
    simp only [nextBin, nextInBin, key, hput]
    split
    · next he =>
      subst he
      exact hv hx
    · exact ⟨rfl, rfl, rfl⟩
  have htop : ∀ b ∈ bins, (q.put e v).key b.top = q.key b.top := fun b hb => (hsame _ (top_mem_flat hb)).2.2
  refine ⟨⟨h.rep.chain.frame fun x hx => ⟨(hsame x hx).1, (hsame x hx).2.1⟩, fun b hb x hx => ?_, ?_, h.rep.nodup,
    h.rep.lt⟩, ?_⟩
  · rw [htop b hb, (hsame x (rest_mem_flat hb hx)).2.2]
    exact h.rep.keys b hb x hx
  · refine h.rep.sorted.imp_of_mem fun hb hc hlt => ?_
    rw [htop _ hb, htop _ hc]
    exact hlt
  · rw [StackQueue.stacksOf_congr fun x hx => (hsame x hx).2.2]
    exact h.history

theorem Holds.setScheduled (h : Holds q bins acts) (e : Nat) (v : Bool) : Holds (q.setScheduled e v) bins acts :=
  h.put fun _ => ⟨rfl, rfl, rfl⟩

theorem Holds.setSquashed (h : Holds q bins acts) (e : Nat) (v : Bool) : Holds (q.setSquashed e v) bins acts :=
  h.put fun _ => ⟨rfl, rfl, rfl⟩

theorem Holds.insert (h : Holds q bins acts) (he : e ∉ flat bins) (hlt : e < q.numEvents) :
    ∃ q' bins', q.insert e = .ok q' ∧ Holds q' bins' (acts ++ [.insert (q.key e) e]) ∧ SameData q q' ∧
      ∀ x, x ∈ flat bins' ↔ x = e ∨ x ∈ flat bins := by
  obtain ⟨q', bins', l, m, hq, hrep, hsame, hold, hnew, hl⟩ := h.rep.insert he hlt
  refine ⟨q', bins', hq, ⟨hrep, .snoc h.history ?_⟩, hsame, fun x => ?_⟩
  · rw [hsame.key, hold, hnew]
    exact StackQueue.insert_step hl (hold ▸ he)
  · rw [hold, hnew, List.perm_middle.mem_iff, List.mem_cons]

/-- The tick of an event that is not queued may be changed. -/
theorem Holds.setWhen (h : Holds q bins acts) (he : e ∉ flat bins) (tick : Nat) : Holds (q.setWhen e tick) bins acts :=
  h.put fun h' => absurd h' he

theorem Holds.remove (h : Holds q bins acts) (he : e ∈ flat bins) :
    ∃ q' bins', q.remove e = .ok q' ∧ Holds q' bins' (acts ++ [.remove e]) ∧ SameData q q' ∧
      ∀ x, x ∈ flat bins' ↔ x ≠ e ∧ x ∈ flat bins := by
  obtain ⟨q', bins', hq, hrep, hsame, hflat⟩ := h.rep.remove he
  refine ⟨q', bins', hq, ⟨hrep, .snoc h.history ?_⟩, hsame, fun x => ?_⟩
  · rw [hsame.key, hflat]
    exact StackQueue.remove_step he h.rep.nodup
  · rw [hflat, h.rep.nodup.mem_erase_iff]

theorem scheduled_setScheduled (q : EventQueue) (e x : Nat) (v : Bool) :
    ((q.setScheduled e v).events x).scheduled = if x = e then v else (q.events x).scheduled := by
  simp only [EventQueue.setScheduled, EventQueue.put, Function.update_apply]
  split
  · rfl
  · rfl

theorem scheduled_setWhen (q : EventQueue) (e x tick : Nat) :
    ((q.setWhen e tick).events x).scheduled = (q.events x).scheduled := by
  simp only [EventQueue.setWhen, EventQueue.put, Function.update_apply]
  split
  · next h => rw [h]
  · rfl

theorem key_setWhen (q : EventQueue) (e tick : Nat) :
    (q.setWhen e tick).key e = toLex (tick, (q.events e).priority) := by
  simp [EventQueue.setWhen, EventQueue.put, EventQueue.key, Event.key]

theorem scheduled_setSquashed (q : EventQueue) (e x : Nat) (v : Bool) :
    ((q.setSquashed e v).events x).scheduled = (q.events x).scheduled := by
  simp only [EventQueue.setSquashed, EventQueue.put, Function.update_apply]
  split
  · next h => rw [h]
  · rfl

/-- The event that `serviceOne` takes is the first of the first bin. -/
theorem Holds.service (h : Holds q bins acts) (hhead : q.head.isSome = true) :
    ∃ q' bins' e, q.serviceOne = .ok (q', e) ∧ Holds q' bins' (acts ++ [.service e]) ∧ q'.numEvents = q.numEvents ∧
      (∀ x, x ∈ flat bins' ↔ x ≠ e ∧ x ∈ flat bins) ∧
      ∀ x, (q'.events x).scheduled = if x = e then false else (q.events x).scheduled := by
  cases bins with
  | nil =>
    rw [h.rep.chain.tops.head] at hhead
    cases hhead
  | cons b S =>
    have h₀ := h.setScheduled b.top false
    obtain ⟨q₁, p₁, S', hq, hR⟩ := removeItem_top h₀.rep.chain h₀.rep.nodup
    obtain ⟨bins', hrep, hsame, hflat⟩ := Rep.removed (P := []) h₀.rep List.mem_cons_self hR
    have herase : flat bins' = b.rest ++ flat S := by
      rw [hflat]
      exact List.erase_cons_head _ _
    have hholds : Holds (q₁.relink [] p₁) bins' (acts ++ [.service b.top]) := by
      refine ⟨hrep, .snoc h₀.history ?_⟩
      rw [hsame.key, herase]
      exact StackQueue.service_step (List.pairwise_cons.1 h₀.rep.flat_sorted).1
    refine ⟨(q₁.relink [] p₁).setSquashed b.top false, bins', b.top, ?_, hholds.setSquashed _ _, hsame.numEvents,
      fun x => ?_, fun x => ?_⟩
    · rw [serviceOne_eq h.rep.chain.tops.head, hq]
      rfl
    · rw [hflat]
      exact h.rep.nodup.mem_erase_iff
    · rw [scheduled_setSquashed, hsame.scheduled, scheduled_setScheduled]

end Rep

/-! ## Calls -/

/-- A queue and the actions of its history. -/
structure Recorded where
  queue : EventQueue
  acts : List (StackQueue.Act (Nat ×ₗ Int) Nat) := []

inductive Call where
  /-- a new event in the place of one that was deleted -/
  | construct (event : Nat) (priority : Int)
  | schedule (now event tick : Nat)
  | deschedule (event : Nat)
  | reschedule (now event tick : Nat) (always : Bool)
  | squash (event : Nat)
  | serviceOne

namespace Recorded

variable (s : Recorded)

def step : Call → Except EventFault Recorded
  | .construct event priority => do
    check .assertion (!(s.queue.events event).scheduled)
    return { s with queue := s.queue.put event { priority := priority } }
  | .schedule now event tick => do
    let q ← s.queue.schedule now event tick
    return ⟨q, s.acts ++ [.insert ((s.queue.setWhen event tick).key event) event]⟩
  | .deschedule event => do
    let q ← s.queue.deschedule event
    return ⟨q, s.acts ++ [.remove event]⟩
  | .reschedule now event tick always => do
    let q ← s.queue.reschedule now event tick always
    let removed := if (s.queue.events event).scheduled then [.remove event] else []
    return ⟨q, s.acts ++ removed ++ [.insert ((s.queue.setWhen event tick).key event) event]⟩
  | .squash event => .ok { s with queue := s.queue.setSquashed event true }
  | .serviceOne => do
    let (q, event) ← s.queue.serviceOne
    return ⟨q, s.acts ++ [.service event]⟩

/-- The assertions of the call hold; `serviceOne` needs an event. -/
def allows : Call → Bool
  | .construct event _ => !(s.queue.events event).scheduled
  | .schedule now event tick =>
    decide (event < s.queue.numEvents) && decide (now ≤ tick) && !(s.queue.events event).scheduled
  | .deschedule event => (s.queue.events event).scheduled
  | .reschedule now event tick always => decide (event < s.queue.numEvents) && decide (now ≤ tick) &&
      (always || (s.queue.events event).scheduled)
  | .squash _ => true
  | .serviceOne => s.queue.head.isSome

/-- An event is marked as scheduled when it is in a bin. -/
structure Ok (s : Recorded) (bins : List Bin) : Prop where
  holds : Holds s.queue bins s.acts
  scheduled : ∀ e, (s.queue.events e).scheduled = true ↔ e ∈ flat bins

section Steps

variable {s : Recorded} {bins : List Bin} {e now tick : Nat}

theorem Ok.not_mem (h : Ok s bins) (he : (s.queue.events e).scheduled = false) : e ∉ flat bins := fun hmem => by
  rw [(h.scheduled e).2 hmem] at he
  cases he

theorem Ok.construct (h : Ok s bins) (he : (s.queue.events e).scheduled = false) (priority : Int) :
    Ok { s with queue := s.queue.put e { priority := priority } } bins := by
  refine ⟨h.holds.put fun hmem => absurd hmem (h.not_mem he), fun x => ?_⟩
  simp only [EventQueue.put, Function.update_apply]
  split
  · next hx =>
    subst hx
    exact iff_of_false (by simp) (h.not_mem he)
  · exact h.scheduled x

theorem Ok.schedule (h : Ok s bins) (hlt : e < s.queue.numEvents) (hn : now ≤ tick)
    (he : (s.queue.events e).scheduled = false) :
    ∃ q bins', s.queue.schedule now e tick = .ok q ∧
      Ok ⟨q, s.acts ++ [.insert ((s.queue.setWhen e tick).key e) e]⟩ bins' := by
  obtain ⟨q, bins', hq, hholds, hsame, hmem⟩ := (h.holds.setWhen (h.not_mem he) tick).insert (h.not_mem he) hlt
  refine ⟨q.setScheduled e true, bins', ?_, hholds.setScheduled e true, fun x => ?_⟩
  · simp only [EventQueue.schedule, hn, he, check, decide_true, Bool.not_false, if_true]
    rw [show (s.queue.setWhen e tick).insert e = _ from hq]
    rfl
  · rw [scheduled_setScheduled, hsame.scheduled, scheduled_setWhen, hmem]
    split
    · next hx => simp [hx]
    · next hx => simp [hx, h.scheduled x]

theorem Ok.deschedule (h : Ok s bins) (he : (s.queue.events e).scheduled = true) :
    ∃ q bins', s.queue.deschedule e = .ok q ∧ Ok ⟨q, s.acts ++ [.remove e]⟩ bins' := by
  obtain ⟨q, bins', hq, hholds, hsame, hmem⟩ := h.holds.remove ((h.scheduled e).1 he)
  refine ⟨(q.setSquashed e false).setScheduled e false, bins', ?_, (hholds.setSquashed e false).setScheduled e false,
    fun x => ?_⟩
  · simp only [EventQueue.deschedule, he, check, if_true]
    rw [show s.queue.remove e = _ from hq]
    rfl
  · rw [scheduled_setScheduled, scheduled_setSquashed, hsame.scheduled, hmem]
    split
    · next hx => simp [hx]
    · next hx => simp [hx, h.scheduled x]

theorem Ok.unlink (h : Ok s bins) (e : Nat) :
    ∃ q bins', s.queue.unlink e = .ok q ∧
      Holds q bins' (s.acts ++ if (s.queue.events e).scheduled then [.remove e] else []) ∧ SameData s.queue q ∧
      ∀ x, x ∈ flat bins' ↔ x ≠ e ∧ x ∈ flat bins := by
  unfold EventQueue.unlink
  split
  · next he => exact h.holds.remove ((h.scheduled e).1 he)
  · next he =>
    refine ⟨s.queue, bins, rfl, by simpa using h.holds, .refl _, fun x => ?_⟩
    refine (and_iff_right_of_imp fun hx => ?_).symm
    rintro rfl
    exact he ((h.scheduled x).2 hx)

theorem Ok.reschedule {always : Bool} (h : Ok s bins) (hlt : e < s.queue.numEvents) (hn : now ≤ tick)
    (he : (always || (s.queue.events e).scheduled) = true) :
    ∃ q bins', s.queue.reschedule now e tick always = .ok q ∧
      Ok ⟨q, s.acts ++ (if (s.queue.events e).scheduled then [.remove e] else []) ++
        [.insert ((s.queue.setWhen e tick).key e) e]⟩ bins' := by
  obtain ⟨q₁, bins₁, hq₁, hholds₁, hsame₁, hmem₁⟩ := h.unlink e
  have hnot : e ∉ flat bins₁ := fun h' => ((hmem₁ e).1 h').1 rfl
  have hlt₁ : e < (q₁.setWhen e tick).numEvents := lt_of_lt_of_eq hlt hsame₁.numEvents.symm
  obtain ⟨q, bins', hq, hholds, hsame, hmem⟩ := (hholds₁.setWhen hnot tick).insert hnot hlt₁
  have hkey : (q₁.setWhen e tick).key e = (s.queue.setWhen e tick).key e := by
    rw [key_setWhen, key_setWhen, hsame₁.priority]
  rw [hkey] at hholds
  refine ⟨(q.setSquashed e false).setScheduled e true, bins', ?_, (hholds.setSquashed e false).setScheduled e true,
    fun x => ?_⟩
  · simp only [EventQueue.reschedule, hn, he, check, decide_true, if_true]
    rw [hq₁]
    show ((q₁.setWhen e tick).insert e >>= _) = _
    rw [hq]
    rfl
  · rw [scheduled_setScheduled, scheduled_setSquashed, hsame.scheduled, scheduled_setWhen, hsame₁.scheduled, hmem,
      hmem₁]
    split
    · next hx => simp [hx]
    · next hx => simp [hx, h.scheduled x]

theorem Ok.serviceOne (h : Ok s bins) (hhead : s.queue.head.isSome = true) :
    ∃ q e bins', s.queue.serviceOne = .ok (q, e) ∧ Ok ⟨q, s.acts ++ [.service e]⟩ bins' := by
  obtain ⟨q, bins', e, hq, hholds, -, hmem, hsch⟩ := h.holds.service hhead
  refine ⟨q, e, bins', hq, hholds, fun x => ?_⟩
  rw [hsch, hmem]
  split
  · next hx => simp [hx]
  · next hx => simp [hx, h.scheduled x]

theorem Ok.step {c : Call} (h : Ok s bins) (hc : s.allows c = true) :
    ∃ s', s.step c = .ok s' ∧ ∃ bins', Ok s' bins' := by
  cases c with
  | construct event priority =>
    have he : (s.queue.events event).scheduled = false := by simpa [allows] using hc
    exact ⟨_, by simp only [Recorded.step, he, check]; rfl, bins, h.construct he priority⟩
  | schedule now event tick =>
    simp only [allows, Bool.and_eq_true, decide_eq_true_eq, Bool.not_eq_true'] at hc
    obtain ⟨q, bins', hq, hok⟩ := h.schedule hc.1.1 hc.1.2 hc.2
    exact ⟨_, by simp only [Recorded.step, hq]; rfl, bins', hok⟩
  | deschedule event =>
    obtain ⟨q, bins', hq, hok⟩ := h.deschedule (e := event) hc
    exact ⟨_, by simp only [Recorded.step, hq]; rfl, bins', hok⟩
  | reschedule now event tick always =>
    simp only [allows, Bool.and_eq_true, decide_eq_true_eq] at hc
    obtain ⟨q, bins', hq, hok⟩ := h.reschedule hc.1.1 hc.1.2 hc.2
    exact ⟨_, by simp only [Recorded.step, hq]; rfl, bins', hok⟩
  | squash event =>
    refine ⟨_, rfl, bins, h.holds.setSquashed event true, fun x => ?_⟩
    rw [scheduled_setSquashed]
    exact h.scheduled x
  | serviceOne =>
    obtain ⟨q, e, bins', hq, hok⟩ := h.serviceOne hc
    exact ⟨_, by simp only [Recorded.step, hq]; rfl, bins', hok⟩

end Steps

end Recorded

/-- In every run the links are those of some bins, which hold exactly the events
that are scheduled; and the history is one of a priority queue of stacks, which
ends with the stacks in the bins.  So `serviceOne` takes the newest event of the
least key, and no call comes to a `panic`. -/
theorem eventq_refines (numEvents : Nat) (calls : List Call)
    (h : Always Recorded.step (fun s c => s.allows c = true) ⟨{ numEvents := numEvents }, []⟩ calls) :
    ∃ s, runs Recorded.step ⟨{ numEvents := numEvents }, []⟩ calls = .ok s ∧
      ∃ bins, Rep s.queue bins ∧ (∀ e, (s.queue.events e).scheduled = true ↔ e ∈ flat bins) ∧
        StackQueue.Runs (fun _ => []) s.acts fun k => (flat bins).filter fun e => s.queue.key e = k := by
  have h0 : ∃ bins, Recorded.Ok ⟨{ numEvents := numEvents }, []⟩ bins :=
    ⟨[], Holds.init numEvents, fun e => iff_of_false (by simp) (by simp [flat])⟩
  have hstep : ∀ s c, (∃ bins, Recorded.Ok s bins) → s.allows c = true →
      ∃ s', s.step c = .ok s' ∧ ∃ bins', Recorded.Ok s' bins' := by
    rintro s c ⟨bins, hs⟩ hc
    exact hs.step hc
  obtain ⟨s, hs, bins, hok⟩ := runs_total (fun s => ∃ bins, Recorded.Ok s bins) hstep h0 h
  exact ⟨s, hs, bins, hok.holds.rep, hok.scheduled, hok.holds.history⟩

/-- Three events of tick 5, of which the middle one of the stack is descheduled and
the top one put off; event 3 comes first among them for its priority. -/
def stacked : List Call :=
  [.schedule 0 0 5, .schedule 0 1 5, .schedule 0 2 5, .construct 3 (-1), .schedule 0 3 5, .schedule 0 4 3,
    .deschedule 1, .serviceOne, .reschedule 3 2 9 false, .schedule 3 1 5, .squash 1, .serviceOne, .serviceOne]

theorem eventq_refines_stacked :
    ∃ s, runs Recorded.step ⟨{ numEvents := 5 }, []⟩ stacked = .ok s ∧
      s.acts.drop 10 = [.service 3, .service 1] ∧
      ∃ bins, Rep s.queue bins ∧ (∀ e, (s.queue.events e).scheduled = true ↔ e ∈ flat bins) ∧
        StackQueue.Runs (fun _ => []) s.acts fun k => (flat bins).filter fun e => s.queue.key e = k := by
  obtain ⟨s, hs, hb⟩ := eventq_refines 5 stacked (by decide)
  have h : passes (fun s : Recorded => s.acts.drop 10 == [.service 3, .service 1])
      (runs Recorded.step ⟨{ numEvents := 5 }, []⟩ stacked) = true := by
    decide
  rw [hs] at h
  exact ⟨s, hs, by simpa [passes] using h, hb⟩

end EventQueue

end DynamicCache.Base
