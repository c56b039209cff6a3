import DynamicCache.Lib.Faults
import DynamicCache.Lib.Wheel
import Mathlib.Algebra.Ring.Nat

/-!
# The components of the latency model (`LatencyModel/*.rb`)

A bus layer and a memory controller keep an array `slots` whose first entry is the slot
of the cycle `time`.  `update` rotates the array to another cycle, and `cycleComplete`
goes on from a cycle, one slot at a time, to the cycle at which a request is through.
The objects are mutable and are used again, by later requests and at earlier cycles.

Whatever has been done with an object, it is what its constructor made, set to some
cycle (`BusLayer.Options.bus`, `MemoryController.Options.memory`), so `cycleComplete` is
a function of the options and of the cycle (`cycleComplete_bus`, `cycleComplete_memory`).
That function is `Paced` by the length of the array (`paced_finish`).
-/

namespace DynamicCache.Latency

open Lib

inductive Fault where
  /-- `Array#*` by a negative number. -/
  | argumentError
  /-- A search for a slot that the array does not have. -/
  | endless
  deriving Repr, DecidableEq

section Arrays

variable {α : Type}

/-- `Array#*` -/
def times (xs : List α) (n : Int) : Except Fault (List α) :=
  if n < 0 then .error .argumentError else .ok (List.replicate n.toNat xs).flatten

/-- `Array#[]`; a negative index counts from the end. -/
def index (xs : List α) (i : Int) : Option α :=
  if 0 ≤ i then xs[i.toNat]?
  else if 0 ≤ xs.length + i then xs[(xs.length + i).toNat]?
  else none

theorem times_ok {xs ys : List α} {n : Int} :
    times xs n = .ok ys ↔ 0 ≤ n ∧ ys = (List.replicate n.toNat xs).flatten := by
  unfold times
  split
  · next h => simp [h]
  · next h => simp [Int.not_lt.1 h, eq_comm]

theorem times_singleton {x : α} {ys : List α} {n : Int} :
    times [x] n = .ok ys ↔ 0 ≤ n ∧ ys = List.replicate n.toNat x := by
  rw [times_ok, List.flatten_replicate_singleton]

theorem times_replicate {x : α} {ys : List α} {m : Nat} {n : Int} :
    times (List.replicate m x) n = .ok ys ↔ 0 ≤ n ∧ ys = List.replicate (n.toNat * m) x := by
  rw [times_ok, List.flatten_replicate_replicate]

end Arrays

/-! ## `BusLayer` -/

structure BusLayer extends Wheel Bool where
  messageLength : Int
  deriving DecidableEq

inductive BusName where
  | l2l3Req
  | l3memReq
  | l3memResp
  | l2l3Resp
  deriving Repr, DecidableEq

namespace BusLayer

structure Options where
  name : BusName
  ntcs : Int := 2
  offset : Int := 0
  turnL : Int := 1
  message : Int := 1
  deriving Repr, DecidableEq

def new (o : Options) : Except Fault BusLayer := do
  let own ← times [true] o.turnL
  let other ← times [false] o.turnL
  let others ← times other (o.ntcs - 1)
  .ok { slots := turn (own ++ others) (-o.offset), time := 0, messageLength := o.message }

def update (b : BusLayer) (time : Int) : BusLayer := { b with toWheel := b.toWheel.update time }

/-- The slot of the current cycle is an own one. -/
def owned (slots : List Bool) : Bool := index slots 0 == some true

/-- `update(@time + 1) while !@slots[0]`.  After `slots.length` cycles the array is what
it was before, and a loop that has not ended then never ends. -/
def awaitOwn (b : BusLayer) : Except Fault BusLayer := do
  let w ← orFail .endless (b.toWheel.seek owned b.slots.length)
  .ok { b with toWheel := w }

/-- One cycle of a message. -/
def transfer (b : BusLayer) : Except Fault BusLayer := do
  let b ← b.awaitOwn
  .ok (b.update (b.time + 1))

def cycleComplete (b : BusLayer) (time : Int) : Except Fault (BusLayer × Int) := do
  let b ← forLoop (fun b _ => b.transfer) b.messageLength.toNat (b.update time)
  .ok (b, b.time)

namespace Options

/-- A bus layer can be made with these options. -/
structure Makes (o : Options) : Prop where
  turnL : 0 ≤ o.turnL
  ntcs : 1 ≤ o.ntcs

/-- The bus layer has slots of its own. -/
structure Valid (o : Options) : Prop where
  turnL : 1 ≤ o.turnL
  ntcs : 1 ≤ o.ntcs

/-- The slots from the beginning of the own turn on. -/
def round (o : Options) : List Bool :=
  List.replicate o.turnL.toNat true ++ List.replicate ((o.ntcs - 1).toNat * o.turnL.toNat) false

/-- The bus layer, set to cycle `t`. -/
def bus (o : Options) (t : Int) : BusLayer := ⟨.showing (turn o.round (-o.offset)) t, o.message⟩

variable {o : Options}

theorem Valid.makes (h : o.Valid) : o.Makes := ⟨by have := h.turnL; omega, h.ntcs⟩

theorem new_ok {b : BusLayer} : new o = .ok b ↔ o.Makes ∧ b = o.bus 0 := by
  have hbus : o.bus 0 = ⟨⟨turn o.round (-o.offset), 0⟩, o.message⟩ := by
    rw [bus, Wheel.showing, turn_zero]
  constructor
  · intro h
    obtain ⟨own, hown, h⟩ := bind_ok.1 h
    obtain ⟨other, hother, h⟩ := bind_ok.1 h
    obtain ⟨others, hothers, h⟩ := bind_ok.1 h
    obtain ⟨hturn, rfl⟩ := times_singleton.1 hown
    obtain ⟨-, rfl⟩ := times_singleton.1 hother
    obtain ⟨hntcs, rfl⟩ := times_replicate.1 hothers
    cases h
    exact ⟨⟨hturn, by omega⟩, hbus.symm⟩
  · rintro ⟨hm, rfl⟩
    have hntcs := hm.ntcs
    refine bind_ok.2 ⟨_, times_singleton.2 ⟨hm.turnL, rfl⟩, ?_⟩
    refine bind_ok.2 ⟨_, times_singleton.2 ⟨hm.turnL, rfl⟩, ?_⟩
    refine bind_ok.2 ⟨_, times_replicate.2 ⟨by omega, rfl⟩, ?_⟩
    rw [hbus]
    rfl

@[simp] theorem update_bus (s t : Int) : (o.bus s).update t = o.bus t := by
  rw [update, bus, Wheel.update_showing, bus]

/-- A bus layer that was made with the options, at some cycle. -/
def Object (o : Options) (b : BusLayer) : Prop := o.Makes ∧ ∃ t, b = o.bus t

theorem Object.of_new {b : BusLayer} (h : BusLayer.new o = .ok b) : o.Object b := by
  obtain ⟨hm, rfl⟩ := new_ok.1 h
  exact ⟨hm, 0, rfl⟩

/-- Whatever the options, the bus layer stays what they say. -/
theorem Object.cycleComplete {s t : Int} {b : BusLayer} {r : BusLayer × Int} (hb : o.Object b)
    (h : (b.update s).cycleComplete t = .ok r) : o.Object r.1 := by
  obtain ⟨hm, u, rfl⟩ := hb
  obtain ⟨b', hloop, h⟩ := bind_ok.1 h
  cases h
  rw [update_bus, update_bus] at hloop
  refine ⟨hm, forLoop_invariant (fun _ b => ∃ u, b = o.bus u) (fun _ b b' _ hb hstep => ?_) ⟨t, rfl⟩ hloop⟩
  obtain ⟨u, rfl⟩ := hb
  obtain ⟨b₁, hwait, hstep⟩ := bind_ok.1 hstep
  obtain ⟨w, hw, hwait⟩ := bind_ok.1 hwait
  obtain ⟨x, rfl⟩ := Wheel.exists_of_seek (orFail_ok.1 hw)
  cases hwait
  cases hstep
  exact ⟨x + 1, update_bus x (x + 1)⟩

theorem length_round (h : o.Makes) : (o.round.length : Int) = o.turnL * o.ntcs := by
  have h1 := h.turnL
  have h2 := h.ntcs
  rw [round, List.length_append, List.length_replicate, List.length_replicate, Nat.cast_add, Nat.cast_mul,
    Int.toNat_of_nonneg h1, Int.toNat_of_nonneg (by omega), Int.sub_mul]
  have := Int.mul_comm o.turnL o.ntcs
  omega

section Valid

variable (h : o.Valid)
include h

theorem owned_offset : owned (turn (turn o.round (-o.offset)) o.offset) = true := by
  have hpos := h.turnL
  rw [turn_turn, Int.add_left_neg, turn_zero]
  have hfirst : o.round[0]? = some true := by
    rw [round, List.getElem?_append_left (by simp; omega), List.getElem?_replicate, if_pos (by omega)]
  exact beq_iff_eq.2 hfirst

theorem slots_ne_nil : turn o.round (-o.offset) ≠ [] := by
  have hpos := h.turnL
  rw [← List.length_pos_iff, length_turn, round, List.length_append, List.length_replicate]
  omega

end Valid

/-- The first own cycle from `t` on. -/
def nextOwn (h : o.Valid) (t : Int) : Int := next (Wheel.recurs (slots_ne_nil h) (owned_offset h)) t

/-- The cycle at which a message that is there at `t` is through. -/
def finish (h : o.Valid) : Int → Int := ((· + 1) ∘ nextOwn h)^[o.message.toNat]

section Valid

variable (h : o.Valid)
include h

theorem transfer_bus (t : Int) : (o.bus t).transfer = .ok (o.bus (nextOwn h t + 1)) := by
  have hseek : (o.bus t).awaitOwn = .ok (o.bus (nextOwn h t)) := by
    refine bind_ok.2 ⟨_, orFail_ok.2 ?_, rfl⟩
    rw [show (o.bus t).slots.length = (turn o.round (-o.offset)).length from length_turn ..]
    exact Wheel.seek_showing (slots_ne_nil h) (owned_offset h) t
  refine bind_ok.2 ⟨_, hseek, ?_⟩
  rw [update_bus]
  rfl

theorem cycleComplete_bus (s t : Int) : (o.bus s).cycleComplete t = .ok (o.bus (finish h t), finish h t) := by
  have hloop : ∀ n, forLoop (fun b _ => b.transfer) n (o.bus t) = .ok (o.bus (((· + 1) ∘ nextOwn h)^[n] t)) := by
    intro n
    induction n with
    | zero => rfl
    | succ n ih =>
      rw [Function.iterate_succ_apply']
      exact bind_ok.2 ⟨_, ih, transfer_bus h _⟩
  refine bind_ok.2 ⟨o.bus (finish h t), ?_, rfl⟩
  rw [update_bus]
  exact hloop _

theorem owned_iff (x : Int) :
    owned (turn (turn o.round (-o.offset)) x) = true ↔ (x - o.offset) % (o.turnL * o.ntcs) < o.turnL := by
  have hpos := Int.mul_pos h.turnL h.ntcs
  have hlen := length_round h.makes
  have h0 := Int.emod_nonneg (x - o.offset) hpos.ne'
  have h1 := Int.emod_lt_of_pos (x - o.offset) hpos
  have hslot : (turn o.round (x - o.offset))[0]? =
      some (decide (((x - o.offset) % (o.turnL * o.ntcs)).toNat < o.turnL.toNat)) := by
    rw [getElem?_turn (by omega), hlen, Nat.cast_zero, Int.add_zero]
    rw [round, List.getElem?_append, List.length_replicate]
    split
    · next hlt => simp [hlt]
    · next hge =>
      rw [round, List.length_append, List.length_replicate, List.length_replicate] at hlen
      rw [List.getElem?_replicate, if_pos (by omega), decide_eq_false hge]
  have hturn : turn (turn o.round (-o.offset)) x = turn o.round (x - o.offset) := by
    rw [turn_turn, Int.add_comm, Int.sub_eq_add_neg]
  rw [hturn, owned, show index _ 0 = _ from hslot, beq_iff_eq, Option.some.injEq, decide_eq_true_iff]
  omega

theorem nextOwn_lt (t : Int) : nextOwn h t < t + o.turnL * o.ntcs := by
  obtain ⟨n, hn, hown⟩ := Wheel.exists_turn (slots_ne_nil h) (owned_offset h) t
  have hlen := length_round h.makes
  have hle := next_le (Wheel.recurs (slots_ne_nil h) (owned_offset h)) (show t ≤ t + n by omega) hown
  rw [length_turn] at hn
  unfold nextOwn
  omega

theorem paced_finish : Paced (o.turnL * o.ntcs) (finish h) := by
  have hnext := Wheel.paced_next (Wheel.recurs (slots_ne_nil h) (owned_offset h))
  rw [length_turn, length_round h.makes] at hnext
  exact ((Paced.add_const 1).comp hnext).iterate _

end Valid

end Options

end BusLayer

/-! ## `PipelinedCache` -/

structure PipelinedCache where
  tL3 : Int := 9
  deriving Repr, DecidableEq

def PipelinedCache.cycleComplete (c : PipelinedCache) (t : Int) : Int := t + c.tL3

/-! ## `MemoryController` and `NonPreemptingMC` -/

/-- `Integer#to_bus`: one and a half times, rounded up. -/
def toBus (n : Int) : Int := (3 * n + 1) / 2

inductive Slot where
  | active
  | dead
  | other
  deriving Repr, DecidableEq

structure MemoryController extends Wheel Slot where
  message : Int
  deriving DecidableEq

namespace MemoryController

structure Options where
  ntcs : Int := 2
  offset : Int := 0
  tMem : Int := toBus 44
  wc : Int := toBus 43
  wcRead : Int := toBus 24
  deriving Repr, DecidableEq

def slotsFor (o : Options) (deadTime : Int) : Except Fault (List Slot) := do
  let active ← times [.active] (o.tMem - deadTime)
  let dead ← times [.dead] deadTime
  let other ← times [.other] o.tMem
  let others ← times other (o.ntcs - 1)
  .ok (turn (active ++ dead ++ others) (-o.offset))

/-- `(t_mem - (t_mem - wc)/15.0).ceil`, or `wc` -/
def deadTime (o : Options) : Int := if o.tMem = o.wc then o.wc else o.tMem - (o.tMem - o.wc) / 15

def new (o : Options) : Except Fault MemoryController := do
  let slots ← slotsFor o (deadTime o)
  .ok { slots := slots, time := 0, message := o.wcRead }

def update (m : MemoryController) (time : Int) : MemoryController := { m with toWheel := m.toWheel.update time }

/-- `@slots[0] == :active && @slots[@message] != :other` -/
def starts (message : Int) (slots : List Slot) : Bool :=
  index slots 0 == some .active && index slots message != some .other

/-- `update(@time + 1) until ...` -/
def awaitStart (m : MemoryController) : Except Fault MemoryController := do
  let w ← orFail .endless (m.toWheel.seek (starts m.message) m.slots.length)
  .ok { m with toWheel := w }

def cycleComplete (m : MemoryController) (t : Int) : Except Fault (MemoryController × Int) := do
  let m ← (m.update t).awaitStart
  .ok (m.update (m.time + m.message), m.time + m.message)

end MemoryController

/-- The constructor of `NonPreemptingMC`. -/
def NonPreemptingMC.new (o : MemoryController.Options) : Except Fault MemoryController := do
  let m ← MemoryController.new o
  let slots ← MemoryController.slotsFor o o.wc
  .ok { m with slots := slots }

namespace MemoryController.Options

/-- A memory controller can be made with these options. -/
structure Makes (o : Options) : Prop where
  wc : 0 ≤ o.wc
  tMem : o.wc ≤ o.tMem
  ntcs : 1 ≤ o.ntcs

/-- The turn is longer than an access, and data are there before its end. -/
structure Valid (o : Options) : Prop where
  tMem : o.wc < o.tMem
  wc : o.wcRead ≤ o.wc
  wcRead : 1 ≤ o.wcRead
  ntcs : 1 ≤ o.ntcs

/-- The slots from the beginning of the own turn on. -/
def round (o : Options) : List Slot :=
  List.replicate (o.tMem - o.wc).toNat .active ++ List.replicate o.wc.toNat .dead ++
    List.replicate ((o.ntcs - 1).toNat * o.tMem.toNat) .other

/-- The memory controller, set to cycle `t`. -/
def memory (o : Options) (t : Int) : MemoryController := ⟨.showing (turn o.round (-o.offset)) t, o.wcRead⟩

variable {o : Options}

theorem Valid.makes (h : o.Valid) : o.Makes := by
  have h1 := h.wcRead
  have h2 := h.wc
  have h3 := h.tMem
  exact ⟨by omega, by omega, h.ntcs⟩

theorem slotsFor_ok {d : Int} {slots : List Slot} :
    slotsFor o d = .ok slots ↔ (0 ≤ d ∧ d ≤ o.tMem ∧ 1 ≤ o.ntcs) ∧
      slots = turn (List.replicate (o.tMem - d).toNat .active ++ List.replicate d.toNat .dead ++
        List.replicate ((o.ntcs - 1).toNat * o.tMem.toNat) .other) (-o.offset) := by
  constructor
  · intro h
    obtain ⟨active, hactive, h⟩ := bind_ok.1 h
    obtain ⟨dead, hdead, h⟩ := bind_ok.1 h
    obtain ⟨other, hother, h⟩ := bind_ok.1 h
    obtain ⟨others, hothers, h⟩ := bind_ok.1 h
    obtain ⟨h1, rfl⟩ := times_singleton.1 hactive
    obtain ⟨h2, rfl⟩ := times_singleton.1 hdead
    obtain ⟨-, rfl⟩ := times_singleton.1 hother
    obtain ⟨h3, rfl⟩ := times_replicate.1 hothers
    cases h
    exact ⟨⟨h2, by omega, by omega⟩, rfl⟩
  · rintro ⟨⟨h1, h2, h3⟩, rfl⟩
    refine bind_ok.2 ⟨_, times_singleton.2 ⟨by omega, rfl⟩, ?_⟩
    refine bind_ok.2 ⟨_, times_singleton.2 ⟨h1, rfl⟩, ?_⟩
    refine bind_ok.2 ⟨_, times_singleton.2 ⟨by omega, rfl⟩, ?_⟩
    exact bind_ok.2 ⟨_, times_replicate.2 ⟨by omega, rfl⟩, rfl⟩

theorem new_ok {m : MemoryController} : NonPreemptingMC.new o = .ok m ↔ o.Makes ∧ m = o.memory 0 := by
  have hmem : o.memory 0 = ⟨⟨turn o.round (-o.offset), 0⟩, o.wcRead⟩ := by
    rw [memory, Wheel.showing, turn_zero]
  constructor
  · intro h
    obtain ⟨m', hm', h⟩ := bind_ok.1 h
    obtain ⟨slots, hslots, h⟩ := bind_ok.1 h
    obtain ⟨slots', -, hm'⟩ := bind_ok.1 hm'
    obtain ⟨⟨h1, h2, h3⟩, rfl⟩ := slotsFor_ok.1 hslots
    cases hm'
    cases h
    exact ⟨⟨h1, h2, h3⟩, hmem.symm⟩
  · rintro ⟨hm, rfl⟩
    have h1 := hm.wc
    have h2 := hm.tMem
    -- the array of the base class, which is thrown away, has no negative part either
    have hdead : 0 ≤ deadTime o ∧ deadTime o ≤ o.tMem := by
      unfold deadTime
      split <;> omega
    refine bind_ok.2 ⟨_, bind_ok.2 ⟨_, slotsFor_ok.2 ⟨⟨hdead.1, hdead.2, hm.ntcs⟩, rfl⟩, rfl⟩, ?_⟩
    refine bind_ok.2 ⟨_, slotsFor_ok.2 ⟨⟨h1, h2, hm.ntcs⟩, rfl⟩, ?_⟩
    rw [hmem]
    rfl

@[simp] theorem update_memory (s t : Int) : (o.memory s).update t = o.memory t := by
  rw [update, memory, Wheel.update_showing, memory]

/-- A memory controller that was made with the options, at some cycle. -/
def Object (o : Options) (m : MemoryController) : Prop := o.Makes ∧ ∃ t, m = o.memory t

theorem Object.of_new {m : MemoryController} (h : NonPreemptingMC.new o = .ok m) : o.Object m := by
  obtain ⟨hm, rfl⟩ := new_ok.1 h
  exact ⟨hm, 0, rfl⟩

theorem Object.cycleComplete {s t : Int} {m : MemoryController} {r : MemoryController × Int} (hm : o.Object m)
    (h : (m.update s).cycleComplete t = .ok r) : o.Object r.1 := by
  obtain ⟨hmakes, u, rfl⟩ := hm
  obtain ⟨m', hwait, h⟩ := bind_ok.1 h
  cases h
  rw [update_memory, update_memory] at hwait
  obtain ⟨w, hw, hwait⟩ := bind_ok.1 hwait
  obtain ⟨x, rfl⟩ := Wheel.exists_of_seek (orFail_ok.1 hw)
  cases hwait
  exact ⟨hmakes, x + o.wcRead, update_memory x _⟩

theorem length_round (h : o.Makes) : (o.round.length : Int) = o.tMem * o.ntcs := by
  have h1 := h.wc
  have h2 := h.tMem
  have h3 := h.ntcs
  rw [round, List.length_append, List.length_append, List.length_replicate, List.length_replicate,
    List.length_replicate, Nat.cast_add, Nat.cast_add, Nat.cast_mul, Int.toNat_of_nonneg (by omega),
    Int.toNat_of_nonneg h1, Int.toNat_of_nonneg (by omega), Int.toNat_of_nonneg (by omega), Int.sub_mul]
  have := Int.mul_comm o.tMem o.ntcs
  omega

section Valid

variable (h : o.Valid)
include h

theorem starts_offset : starts o.wcRead (turn (turn o.round (-o.offset)) o.offset) = true := by
  have h1 := h.tMem
  have h2 := h.wc
  have h3 := h.wcRead
  rw [turn_turn, Int.add_left_neg, turn_zero]
  have hfirst : index o.round 0 = some .active := by
    rw [index, if_pos (by omega), round, List.append_assoc, List.getElem?_append_left (by simp; omega),
      List.getElem?_replicate, if_pos (by omega)]
  -- the data are there within the own turn
  have hdata : index o.round o.wcRead ≠ some .other := by
    rw [index, if_pos (by omega), round, List.getElem?_append_left (by simp; omega)]
    intro hother
    rcases List.mem_append.1 (List.mem_of_getElem? hother) with hmem | hmem
    · cases (List.mem_replicate.1 hmem).2
    · cases (List.mem_replicate.1 hmem).2
  rw [starts, hfirst, Bool.and_eq_true]
  exact ⟨rfl, bne_iff_ne.2 hdata⟩

theorem slots_ne_nil : turn o.round (-o.offset) ≠ [] := by
  have hpos := h.tMem
  rw [← List.length_pos_iff, length_turn, round, List.length_append, List.length_append, List.length_replicate]
  omega

end Valid

/-- The first cycle from `t` on at which an access can start. -/
def nextStart (h : o.Valid) (t : Int) : Int := next (Wheel.recurs (slots_ne_nil h) (starts_offset h)) t

/-- The cycle at which the data of a read that is there at `t` are available. -/
def finish (h : o.Valid) : Int → Int := (· + o.wcRead) ∘ nextStart h

section Valid

variable (h : o.Valid)
include h

theorem cycleComplete_memory (s t : Int) :
    (o.memory s).cycleComplete t = .ok (o.memory (finish h t), finish h t) := by
  have hseek : (o.memory t).awaitStart = .ok (o.memory (nextStart h t)) := by
    refine bind_ok.2 ⟨_, orFail_ok.2 ?_, rfl⟩
    rw [show (o.memory t).slots.length = (turn o.round (-o.offset)).length from length_turn ..]
    exact Wheel.seek_showing (slots_ne_nil h) (starts_offset h) t
  refine bind_ok.2 ⟨o.memory (nextStart h t), ?_, ?_⟩
  · rw [update_memory]
    exact hseek
  · rw [update_memory]
    rfl

theorem paced_finish : Paced (o.tMem * o.ntcs) (finish h) := by
  have hnext := Wheel.paced_next (Wheel.recurs (slots_ne_nil h) (starts_offset h))
  rw [length_turn, length_round h.makes] at hnext
  exact (Paced.add_const o.wcRead).comp hnext

end Valid

end MemoryController.Options

end DynamicCache.Latency
