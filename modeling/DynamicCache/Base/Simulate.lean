import DynamicCache.Base.EventQueue

/-!
# The simulation loop (`simulate.cc`)

`simulate` schedules a limit event of its own and takes events from the main queue,
setting `curTick` to the tick of each, until it has taken an exit event.  Between
two turns come the calls that `process` makes, and those of the memory system when
it catches up with the next tick.

`curTick` is never ahead of an event in the queue (`Future`): the first event is a
least one, and what is scheduled later is asserted to be from `curTick` on.
-/

namespace DynamicCache.Base.EventQueue

open Lib

variable {q q' q'' : EventQueue} {e now tick : Nat}

/-- If the event is scheduled, then for a tick from `now` on. -/
def Coming (now : Nat) (v : Event) : Prop := v.scheduled = true → now ≤ v.when

/-- The events in the queue are not in the past. -/
def Future (now : Nat) (q : EventQueue) : Prop := ∀ e, Coming now (q.events e)

/-! ## What the operations change -/

/-- Only `e` has changed, and not to one in the past. -/
structure Moved (now e : Nat) (q q' : EventQueue) : Prop where
  other : ∀ x, x ≠ e → (q'.events x).scheduled = (q.events x).scheduled ∧ (q'.events x).when = (q.events x).when
  self : Coming now (q.events e) → Coming now (q'.events e)

theorem Moved.trans (h : Moved now e q q') (h' : Moved now e q' q'') : Moved now e q q'' where
  other x hx := ⟨(h'.other x hx).1.trans (h.other x hx).1, (h'.other x hx).2.trans (h.other x hx).2⟩
  self := h'.self ∘ h.self

theorem SameData.moved (h : SameData q q') : Moved now e q q' where
  other x _ := ⟨h.scheduled x, h.when x⟩
  self hq := by rwa [Coming, h.scheduled, h.when]

theorem Moved.put {v : Event} (hv : Coming now (q.events e) → Coming now v) : Moved now e q (q.put e v) where
  other x hx := by simp [EventQueue.put, Function.update_of_ne hx]
  self := by simpa [EventQueue.put] using hv

theorem Moved.setSquashed (v : Bool) : Moved now e q (q.setSquashed e v) := .put id

theorem Moved.unscheduled : Moved now e q (q.setScheduled e false) := .put fun _ h => by cases h

theorem Moved.future (h : Moved now e q q') (hf : Future now q) : Future now q' := by
  intro x hx
  by_cases hxe : x = e
  · subst hxe
    exact h.self (hf x) hx
  · rw [(h.other x hxe).1] at hx
    rw [(h.other x hxe).2]
    exact hf x hx

theorem sameData_insert (h : q.insert e = .ok q') : SameData q q' := by
  unfold EventQueue.insert at h
  split at h
  · cases h
    exact (sameData_insertBefore q e none).trans (sameData_head _ _)
  · split at h
    · cases h
      exact (sameData_insertBefore q e _).trans (sameData_head _ _)
    · obtain ⟨⟨prev, curr⟩, -, h⟩ := bind_ok.1 h
      cases h
      exact (sameData_insertBefore q e curr).trans (sameData_setNextBin _ _ _)

theorem sameData_removeItem {top : Nat} {p : Option Nat} (h : q.removeItem e top = .ok (q', p)) : SameData q q' := by
  unfold removeItem at h
  split at h
  · split at h
    · cases h
      exact .refl q
    · cases h
      exact sameData_setNextBin _ _ _
  · obtain ⟨⟨curr, _ | next⟩, -, h⟩ := bind_ok.1 h
    · cases h
    · cases h
      exact sameData_setNextInBin _ _ _

theorem sameData_remove (h : q.remove e = .ok q') : SameData q q' := by
  unfold EventQueue.remove at h
  split at h
  · cases h
  · split at h
    · obtain ⟨⟨q₁, top⟩, hq₁, h⟩ := bind_ok.1 h
      cases h
      exact (sameData_removeItem hq₁).trans (sameData_head _ _)
    · obtain ⟨⟨prev, _ | curr⟩, -, h⟩ := bind_ok.1 h
      · cases h
      · dsimp only at h
        split at h
        · obtain ⟨⟨q₁, top⟩, hq₁, h⟩ := bind_ok.1 h
          cases h
          exact (sameData_removeItem hq₁).trans (sameData_setNextBin _ _ _)
        · cases h

theorem moved_inserted (hn : now ≤ tick) (h : (q.setWhen e tick).insert e = .ok q') :
    Moved now e q q' ∧ now ≤ (q'.events e).when := by
  have hq := sameData_insert h
  refine ⟨(Moved.put fun _ _ => hn).trans hq.moved, ?_⟩
  rw [hq.when]
  simpa [setWhen, EventQueue.put] using hn

theorem moved_schedule (h : q.schedule now e tick = .ok q') : Moved now e q q' ∧ (q'.events e).scheduled = true := by
  simp only [EventQueue.schedule, bind_ok, check_ok, decide_eq_true_eq] at h
  obtain ⟨_, hn, _, -, q₁, hq₁, h⟩ := h
  cases h
  obtain ⟨h₁, hw⟩ := moved_inserted hn hq₁
  exact ⟨h₁.trans (.put fun _ _ => hw), (scheduled_setScheduled q₁ e e true).trans (if_pos rfl)⟩

theorem moved_reschedule {always : Bool} (h : q.reschedule now e tick always = .ok q') : Moved now e q q' := by
  simp only [EventQueue.reschedule, bind_ok, check_ok, decide_eq_true_eq] at h
  obtain ⟨_, hn, _, -, q₁, hq₁, q₂, hq₂, h⟩ := h
  cases h
  have h₁ : SameData q q₁ := by
    unfold EventQueue.unlink at hq₁
    split at hq₁
    · exact sameData_remove hq₁
    · cases hq₁
      exact .refl _
  obtain ⟨h₂, hw⟩ := moved_inserted hn hq₂
  refine (h₁.moved.trans h₂).trans ((Moved.setSquashed false).trans (.put fun _ _ => ?_))
  simpa [setSquashed, EventQueue.put] using hw

theorem moved_deschedule (h : q.deschedule e = .ok q') : Moved now e q q' := by
  simp only [EventQueue.deschedule, bind_ok] at h
  obtain ⟨_, -, q₁, hq₁, h⟩ := h
  cases h
  exact ((sameData_remove hq₁).moved.trans (.setSquashed false)).trans .unscheduled

theorem moved_serviceOne {event : Nat} (now : Nat) (hhead : q.head = some e) (h : q.serviceOne = .ok (q', event)) :
    Moved now e q q' := by
  rw [serviceOne_eq hhead] at h
  obtain ⟨⟨q₁, p⟩, hq₁, h⟩ := bind_ok.1 h
  cases h
  have h₀ := (sameData_removeItem hq₁).trans (sameData_relink q₁ [] p)
  exact (Moved.unscheduled.trans h₀.moved).trans (.setSquashed false)

/-! ## The loop -/

/-- The event that a call names. -/
def Call.event : Call → Option Nat
  | .construct event _ | .schedule _ event _ | .deschedule event | .reschedule _ event _ _ | .squash event => some event
  | .serviceOne => none

/-- The calls read `curTick()`. -/
def Call.at (now : Nat) : Call → Call
  | .schedule _ event tick => .schedule now event tick
  | .reschedule _ event tick always => .reschedule now event tick always
  | c => c

structure Simulation where
  main : Recorded
  curTick : Nat := 0
  /-- the `limit_event` of the call of `simulate` that is going on -/
  limit : Option Nat := none

inductive SimCall where
  /-- `simulate` with the event that it has constructed -/
  | simulate (limit numCycles : Nat)
  | turn
  | call (c : Call)
  /-- the event of the last turn is another exit event -/
  | leave

theorem Recorded.moved {s s' : Recorded} {c : Call} (hc : c.event = some e) (h : s.step (c.at now) = .ok s') :
    Moved now e s.queue s'.queue := by
  cases c with
  | construct event priority =>
    cases hc
    obtain ⟨-, -, h⟩ := bind_ok.1 h
    cases h
    exact .put fun _ hv => by cases hv
  | schedule _ event tick =>
    cases hc
    obtain ⟨q, hq, h⟩ := bind_ok.1 h
    cases h
    exact (moved_schedule hq).1
  | deschedule event =>
    cases hc
    obtain ⟨q, hq, h⟩ := bind_ok.1 h
    cases h
    exact moved_deschedule hq
  | reschedule _ event tick always =>
    cases hc
    obtain ⟨q, hq, h⟩ := bind_ok.1 h
    cases h
    exact moved_reschedule hq
  | squash event =>
    cases hc
    cases h
    exact .setSquashed true
  | serviceOne => cases hc

/-- The first event is one of the earliest. -/
theorem Recorded.Ok.head {s : Recorded} {bins : List Bin} (h : s.Ok bins) (he : (s.queue.events e).scheduled = true) :
    ∃ head, s.queue.head = some head ∧ (s.queue.events head).scheduled = true ∧
      Future (s.queue.events head).when s.queue := by
  cases bins with
  | nil => cases (h.scheduled e).1 he
  | cons b S =>
    refine ⟨b.top, h.holds.rep.chain.tops.head, (h.scheduled _).2 List.mem_cons_self, fun x hx => ?_⟩
    obtain rfl | hx := List.mem_cons.1 ((h.scheduled x).1 hx)
    · exact le_rfl
    · obtain hlt | heq := Prod.Lex.toLex_le_toLex.1 ((List.pairwise_cons.1 h.holds.rep.flat_sorted).1 x hx)
      · exact hlt.le
      · exact heq.1.le

namespace Simulation

def init (numEvents : Nat) : Simulation := { main := ⟨{ numEvents := numEvents }, []⟩ }

variable (s : Simulation)

def scheduled (e : Nat) : Bool := (s.main.queue.events e).scheduled

def step : SimCall → Except EventFault Simulation
  | .simulate limit numCycles => do
    let main ← s.main.step (.schedule s.curTick limit (s.curTick + numCycles))
    return { s with main := main, limit := some limit }
  | .turn => do
    let event ← orFail .assertion s.main.queue.head
    let nextTick := (s.main.queue.events event).when
    check .assertion (decide (s.curTick ≤ nextTick))
    let main ← s.main.step .serviceOne
    -- the limit event does nothing but end the loop
    let limit := if s.limit = some event then none else s.limit
    return { main := main, curTick := nextTick, limit := limit }
  | .call c => do
    let main ← s.main.step (c.at s.curTick)
    return { s with main := main }
  | .leave => do
    let limit ← orFail .null s.limit
    check .assertion (s.scheduled limit)
    let main ← s.main.step (.squash limit)
    return { s with main := main, limit := none }

/-- Nobody else knows the limit event. -/
def allows : SimCall → Bool
  | .simulate limit _ => s.limit.isNone && decide (limit < s.main.queue.numEvents) && !s.scheduled limit
  | .turn => s.limit.isSome
  | .call c => c.event.isSome && c.event != s.limit && s.main.allows (c.at s.curTick)
  | .leave => s.limit.isSome

structure Ok (s : Simulation) : Prop where
  main : ∃ bins, s.main.Ok bins
  future : Future s.curTick s.main.queue
  limit : ∀ e ∈ s.limit, s.scheduled e = true

variable {s} {c : SimCall}

theorem Ok.step (h : Ok s) (ha : s.allows c = true) : ∃ s', s.step c = .ok s' ∧ Ok s' := by
  obtain ⟨bins, hb⟩ := h.main
  cases c with
  | simulate limit numCycles =>
    simp only [allows, Bool.and_eq_true, decide_eq_true_eq, Bool.not_eq_true'] at ha
    obtain ⟨q, bins', hq, hok⟩ := hb.schedule ha.1.2 (Nat.le_add_right s.curTick numCycles) ha.2
    obtain ⟨hmoved, hsch⟩ := moved_schedule hq
    refine ⟨_, bind_ok.2 ⟨_, bind_ok.2 ⟨q, hq, rfl⟩, rfl⟩, ⟨bins', hok⟩, hmoved.future h.future, fun e he => ?_⟩
    cases he
    exact hsch
  | turn =>
    obtain ⟨l, hl⟩ := Option.isSome_iff_exists.1 ha
    obtain ⟨head, hhead, hsch, hfut⟩ := hb.head (h.limit l hl)
    have hle := h.future head hsch
    obtain ⟨q, e, bins', hq, hok⟩ := hb.serviceOne (by rw [hhead]; rfl)
    have hmoved := moved_serviceOne (s.main.queue.events head).when hhead hq
    refine ⟨_, bind_ok.2 ⟨head, orFail_ok.2 hhead, bind_ok.2 ⟨(), check_ok.2 (decide_eq_true hle),
      bind_ok.2 ⟨_, bind_ok.2 ⟨_, hq, rfl⟩, rfl⟩⟩⟩, ⟨bins', hok⟩, hmoved.future hfut, fun e he => ?_⟩
    split at he
    · cases he
    · next hne => exact (hmoved.other e fun heq => hne (heq ▸ he)).1.trans (h.limit e he)
  | call c =>
    simp only [allows, Bool.and_eq_true, bne_iff_ne, Option.isSome_iff_exists] at ha
    obtain ⟨⟨⟨e, he⟩, hne⟩, ha⟩ := ha
    obtain ⟨main, hm, hok⟩ := hb.step ha
    have hmoved := Recorded.moved he hm
    refine ⟨_, bind_ok.2 ⟨main, hm, rfl⟩, hok, hmoved.future h.future, fun x hx => ?_⟩
    exact (hmoved.other x fun hxe => hne (he.trans (hxe ▸ hx.symm))).1.trans (h.limit x hx)
  | leave =>
    obtain ⟨l, hl⟩ := Option.isSome_iff_exists.1 ha
    obtain ⟨main, hm, hok⟩ := hb.step (c := .squash l) rfl
    exact ⟨_, bind_ok.2 ⟨l, orFail_ok.2 hl, bind_ok.2 ⟨(), check_ok.2 (h.limit l hl), bind_ok.2 ⟨main, hm, rfl⟩⟩⟩, hok,
      (Recorded.moved (c := .squash l) rfl hm).future h.future, fun e he => by cases he⟩

/-- In every run no assertion fails, so time never goes back: the loop always finds
an event, which is not in the past, and the limit event is still scheduled when
another event ends the loop. -/
theorem simulate_in_order (numEvents : Nat) (calls : List SimCall)
    (h : Always step (fun s c => s.allows c = true) (init numEvents) calls) :
    ∃ s, runs step (init numEvents) calls = .ok s ∧
      ∀ e, s.scheduled e = true → s.curTick ≤ (s.main.queue.events e).when := by
  have h0 : Ok (init numEvents) := ⟨⟨[], Holds.init numEvents, fun e => iff_of_false (by simp [init]) (by simp [flat])⟩,
    (fun e he => by cases he), fun e he => by cases he⟩
  obtain ⟨s, hs, hok⟩ := runs_total Ok (fun _ _ => Ok.step) h0 h
  exact ⟨s, hs, hok.future⟩

/-- The first loop ends at its limit, the second by event 1 at tick 7; the third takes
event 2 of the same tick and the squashed limit of the second. -/
def threeLoops : List SimCall :=
  [.simulate 0 5, .call (.schedule 0 1 7), .turn, .simulate 3 4, .turn, .call (.schedule 0 2 7), .leave, .simulate 0 3,
    .turn, .turn]

theorem simulate_in_order_three_loops : ∃ s, runs step (init 4) threeLoops = .ok s ∧ s.curTick = 9 ∧
    ∀ e, s.scheduled e = true → 9 ≤ (s.main.queue.events e).when := by
  obtain ⟨s, hs, hf⟩ := simulate_in_order 4 threeLoops (by decide)
  have h : passes (fun s => s.curTick == 9) (runs step (init 4) threeLoops) = true := by decide
  rw [hs] at h
  have h9 : s.curTick = 9 := beq_iff_eq.1 h
  exact ⟨s, hs, h9, h9 ▸ hf⟩

end Simulation

end DynamicCache.Base.EventQueue
