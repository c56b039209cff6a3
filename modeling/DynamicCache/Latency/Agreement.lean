import DynamicCache.Latency.Components
import DynamicCache.Bus.Turn

/-!
# Bus layers of the latency model against `RRBus`

`BusLayer#cycle_complete` waits for own cycles one by one, and `RRBus::calcFinishTime`
computes a finish time from the first of them.  With the offsets, the turn length and
the number of threads the same, the own cycles of both are the slots of one `Rota`
(`owned_slot`): from slot `n` on, a message of `m` cycles is through one cycle after slot
`n + m - 1` for the latency model (`finish_slot`) and at slot `n + m` for the bus.

These agree as long as the message does not end with a turn, which its length and the
place of its first cycle say (`Leaves`, `cycleComplete_calcFinishTime`).  When it does, the
bus has it wait for the turns of all other threads (`response_fills_turn`).
-/

namespace DynamicCache.Latency.BusLayer.Options

open Lib Bus

variable {o : Options}

/-- The parameters of an `RRBus`, with cycles as ticks. -/
def schedule (h : o.Valid) : Params where
  numPids := o.ntcs.toNat
  tl := o.turnL.toNat
  offset := o.offset
  clock := 1
  numPids_pos := by have := h.ntcs; omega
  tl_pos := by have := h.turnL; omega
  clock_pos := Nat.one_pos

/-- The cycles of thread 0. -/
def own (h : o.Valid) : Rota := (schedule h).rota (schedule h).numPids_pos

variable (h : o.Valid)

theorem own_period : ((own h).period : Int) = o.turnL * o.ntcs := by
  have h1 := h.turnL
  have h2 := h.ntcs
  show ((o.ntcs.toNat * o.turnL.toNat : Nat) : Int) = _
  rw [Nat.cast_mul, Int.toNat_of_nonneg (by omega), Int.toNat_of_nonneg (by omega), Int.mul_comm]

theorem owned_slot (y : Nat) :
    owned (turn (turn o.round (-o.offset)) (o.offset + y)) = true ↔ (own h).Owns y := by
  have hbegin : (own h).begin_ = 0 := Nat.zero_mul _
  have hwidth : (own h).width = o.turnL.toNat := rfl
  rw [owned_iff h, Rota.Owns, hbegin, hwidth, ← own_period h, add_sub_cancel_left, ← Int.natCast_emod]
  omega

theorem exists_nextOwn {t : Int} (ht : o.offset ≤ t) : ∃ n, nextOwn h t = o.offset + (own h).slot n := by
  have hrec := Wheel.recurs (slots_ne_nil h) (owned_offset h)
  have hle : o.offset ≤ nextOwn h t := ht.trans (le_next hrec t)
  obtain ⟨y, hy⟩ := Int.eq_ofNat_of_zero_le (Int.sub_nonneg_of_le hle)
  have hx : nextOwn h t = o.offset + y := by omega
  have hown : (own h).Owns y := (owned_slot h y).1 (hx ▸ next_spec hrec t)
  obtain ⟨n, rfl⟩ := Rota.owns_iff.1 hown
  exact ⟨n, hx⟩

theorem nextOwn_succ (n : Nat) :
    nextOwn h (o.offset + (own h).slot n + 1) = o.offset + (own h).slot (n + 1) := by
  have hlt : (own h).slot n < (own h).slot (n + 1) := Rota.slot_strictMono n.lt_succ_self
  refine next_eq _ (by omega) ((owned_slot h _).2 (Rota.owns_iff.2 ⟨_, rfl⟩)) fun x hx hown => ?_
  obtain ⟨y, rfl⟩ : ∃ y : Nat, x = o.offset + y := ⟨(x - o.offset).toNat, by omega⟩
  obtain ⟨k, rfl⟩ := Rota.owns_iff.1 ((owned_slot h y).1 hown)
  have hk : n < k := Rota.slot_strictMono.lt_iff_lt.1 (show (own h).slot n < (own h).slot k by omega)
  have hle : (own h).slot (n + 1) ≤ (own h).slot k := Rota.slot_strictMono.monotone hk
  omega

/-- A message is through after the last of its slots. -/
theorem finish_slot {t : Int} {n m : Nat} (hn : nextOwn h t = o.offset + (own h).slot n)
    (hm : o.message = m + 1) : finish h t = o.offset + (own h).slot (n + m) + 1 := by
  have hiter : ∀ m, ((· + 1) ∘ nextOwn h)^[m + 1] t = o.offset + (own h).slot (n + m) + 1 := by
    intro m
    induction m with
    | zero => exact congrArg (· + 1) hn
    | succ m ih =>
      rw [Function.iterate_succ_apply', ih]
      exact congrArg (· + 1) (nextOwn_succ h (n + m))
  rw [finish, show o.message.toNat = m + 1 by omega]
  exact hiter m

theorem activeId_iff {x y : Nat} (hx : (x : Int) = o.offset + y) (hy : y < 2 ^ 64) :
    (schedule h).activeId x = 0 ↔ (own h).Owns y := by
  refine Params.activeId_edge ?_ (by rwa [show (schedule h).clock = 1 from rfl, Nat.mul_one]) (schedule h).numPids_pos
  rw [hx, Int.add_comm]
  exact (Int.mul_one _).symm

theorem calcFinishTime_slot {x n d : Nat} (hx : (x : Int) = o.offset + (own h).slot n) (hoff : 0 ≤ o.offset)
    (hfit : o.offset + (own h).slot (n + d) < 2 ^ 64) :
    ((schedule h).calcFinishTime x 0 d : Int) = o.offset + (own h).slot (n + d) := by
  have hedge : ∀ k, ((own h).slot k + (schedule h).offset) * (schedule h).clock = o.offset + (own h).slot k := by
    intro k
    rw [Int.add_comm]
    exact Int.mul_one _
  have hcycle : ((schedule h).nextCycle x : Int) = ((own h).slot n + (schedule h).offset) * (schedule h).clock := by
    rw [Params.nextCycle_of_dvd (one_dvd x), hx, hedge]
  have hslot : (own h).slot (n + d) * (schedule h).clock < 2 ^ 64 := by
    rw [show (schedule h).clock = 1 from rfl]
    omega
  rw [(Params.calcFinishTime_slot (schedule h).numPids_pos hcycle hslot (by rw [← own, hedge]; exact hfit)).1]
  exact hedge _

theorem isLeast_activeId {t : Int} {c n : Nat} (hn : nextOwn h t = o.offset + (own h).slot n)
    (hc : (c : Int) = o.offset + (own h).slot n) (hfit : (own h).slot n < 2 ^ 64) (ht : o.offset ≤ t) :
    IsLeast {c : Nat | t ≤ c ∧ (schedule h).activeId c = 0} c := by
  have hrec := Wheel.recurs (slots_ne_nil h) (owned_offset h)
  have hle : t ≤ nextOwn h t := le_next hrec t
  refine ⟨⟨by omega, (activeId_iff h hc hfit).2 (Rota.owns_iff.2 ⟨n, rfl⟩)⟩, ?_⟩
  rintro x ⟨hx, hactive⟩
  by_contra hlt
  obtain ⟨y, hy⟩ : ∃ y : Nat, (x : Int) = o.offset + y := ⟨(x - o.offset).toNat, by omega⟩
  have hown := (owned_slot h y).2 ((activeId_iff h hy (by omega)).1 hactive)
  have hmin : nextOwn h t ≤ o.offset + y := next_le hrec (by omega) hown
  omega

/-- Where in its turn the first own cycle at or after `t` is. -/
def place (o : Options) (t : Int) : Int :=
  let r := (t - o.offset) % (o.turnL * o.ntcs)
  if r < o.turnL then r else 0

theorem place_eq {t : Int} {n : Nat} (ht : o.offset ≤ t) (hn : nextOwn h t = o.offset + (own h).slot n) :
    o.place t = (n % o.turnL.toNat : Nat) := by
  have hrec := Wheel.recurs (slots_ne_nil h) (owned_offset h)
  have hbegin : (own h).begin_ = 0 := Nat.zero_mul _
  have hwidth : (own h).width = o.turnL.toNat := rfl
  obtain ⟨y, hy⟩ : ∃ y : Nat, t = o.offset + y := ⟨(t - o.offset).toNat, by omega⟩
  have hmod := (own h).slot_mod n
  rw [hbegin, hwidth, Nat.zero_add] at hmod
  have hr : (t - o.offset) % (o.turnL * o.ntcs) = (y % (own h).period : Nat) := by
    rw [← own_period h, hy, add_sub_cancel_left, Int.natCast_emod]
  have hown : (own h).Owns y ↔ y % (own h).period < o.turnL.toNat := by
    rw [Rota.Owns, hbegin, hwidth]
    omega
  unfold place
  rw [hr]
  by_cases hin : (own h).Owns y
  · -- `t` is an own cycle
    have hnext : nextOwn h t = o.offset + y :=
      next_eq hrec (by omega) ((owned_slot h y).2 hin) fun x hx _ => by omega
    have hslot : (own h).slot n = y := by omega
    rw [hown] at hin
    rw [if_pos (by omega), ← hmod, hslot]
  · -- the next turn begins after a wait
    have hnext : nextOwn h t = o.offset + (y + (own h).wait y : Nat) := by
      refine next_eq hrec (by omega) ((owned_slot h _).2 (Rota.owns_add_wait y)) fun x hx hx' => ?_
      obtain ⟨z, rfl⟩ : ∃ z : Nat, x = o.offset + (y + z : Nat) := ⟨(x - o.offset - y).toNat, by omega⟩
      by_contra hlt
      exact Rota.not_owns_add hin (show z < (own h).wait y by omega) ((owned_slot h _).1 hx')
    have hslot : (own h).slot n = y + (own h).wait y := by omega
    rw [hslot, Rota.add_wait_mod, hbegin] at hmod
    rw [hown] at hin
    rw [if_neg (by omega), ← hmod]
    rfl

/-- The message leaves a cycle of its last turn, or there is but one thread. -/
def Leaves (o : Options) (t : Int) : Prop := o.ntcs = 1 ∨ (o.place t + o.message) % o.turnL ≠ 0

theorem leaves_iff {t : Int} {n m : Nat} (ht : o.offset ≤ t) (hn : nextOwn h t = o.offset + (own h).slot n)
    (hm : o.message = m + 1) : (own h).Owns ((own h).slot (n + m) + 1) ↔ o.Leaves t := by
  have h1 := h.turnL
  have hL : (o.turnL.toNat : Int) = o.turnL := Int.toNat_of_nonneg (by omega)
  have hsum : (o.place t + o.message) % o.turnL = ((n + m + 1) % o.turnL.toNat : Nat) := by
    rw [place_eq h ht hn, hm, ← hL, Int.natCast_emod, Int.natCast_emod, Int.toNat_natCast, Int.emod_add_emod]
    rfl
  have hone : (own h).width = (own h).period ↔ o.ntcs = 1 := by
    show o.turnL.toNat = o.ntcs.toNat * o.turnL.toNat ↔ _
    rw [eq_comm, Nat.mul_eq_right (by omega)]
    omega
  rw [Rota.owns_slot_succ, hone, Leaves, hsum, or_comm]
  show _ ∨ (n + m + 1) % o.turnL.toNat ≠ 0 ↔ _
  omega

/-- The two agree exactly when the message does not end with a turn, or there are no other
turns; otherwise the bus is later by one turn of each other thread. -/
theorem cycleComplete_calcFinishTime (o : Options) (h : o.Valid) (hoff : 0 ≤ o.offset) (hm : 1 ≤ o.message)
    (t : Int) (ht : o.offset ≤ t) (hfit : t + (o.message + 1) * (o.turnL * o.ntcs) < 2 ^ 64) :
    ∃ c f : Nat, IsLeast {c : Nat | t ≤ c ∧ (schedule h).activeId c = 0} c ∧
      (∃ b b', BusLayer.new o = .ok b ∧ b.cycleComplete t = .ok (b', (f : Int))) ∧
      ((schedule h).calcFinishTime c 0 o.message.toNat = f ↔ o.Leaves t) ∧
      (¬o.Leaves t →
        (schedule h).calcFinishTime c 0 o.message.toNat = f + (o.ntcs.toNat - 1) * o.turnL.toNat) := by
  obtain ⟨n, hn⟩ := exists_nextOwn h ht
  obtain ⟨m, hm⟩ : ∃ m : Nat, o.message = m + 1 := ⟨(o.message - 1).toNat, by omega⟩
  have hf := finish_slot h hn hm
  -- everything is below 64 bits
  have hper := own_period h
  have hstart := nextOwn_lt h t
  have hlast : ((own h).slot (n + (m + 1)) : Int) ≤ (own h).slot n + (m + 1) * (own h).period := by
    exact_mod_cast (own h).slot_add_le n (m + 1)
  have hmono : (own h).slot n ≤ (own h).slot (n + m) := Rota.slot_strictMono.monotone (Nat.le_add_right ..)
  have hlt : (own h).slot (n + m) < (own h).slot (n + (m + 1)) := Rota.slot_strictMono (by omega)
  have hend : o.offset + (own h).slot (n + (m + 1)) < 2 ^ 64 := by
    rw [hm, ← hper, Int.add_mul] at hfit
    omega
  obtain ⟨c, hc⟩ : ∃ c : Nat, (c : Int) = o.offset + (own h).slot n := ⟨_, Int.toNat_of_nonneg (by omega)⟩
  obtain ⟨f, hfin⟩ : ∃ f : Nat, (f : Int) = o.offset + (own h).slot (n + m) + 1 :=
    ⟨_, Int.toNat_of_nonneg (by omega)⟩
  have hcalc := calcFinishTime_slot h hc hoff hend
  have hleaves := leaves_iff h ht hn hm
  have hsucc := Rota.slot_succ (r := own h) (n + m)
  have hmsg : o.message.toNat = m + 1 := by omega
  refine ⟨c, f, isLeast_activeId h hn hc (by omega) ht, ⟨o.bus 0, o.bus (finish h t), new_ok.2 ⟨h.makes, rfl⟩, ?_⟩,
    ?_, ?_⟩
  · rw [cycleComplete_bus h, hf, hfin]
  · rw [hmsg, ← hleaves]
    constructor
    · intro heq
      exact Rota.owns_iff.2 ⟨n + m + 1, by rw [Nat.add_assoc]; omega⟩
    · intro hown
      rw [if_pos hown, Nat.add_assoc] at hsucc
      omega
  · intro hother
    have hothers : (own h).period - (own h).width = (o.ntcs.toNat - 1) * o.turnL.toNat :=
      (Nat.sub_one_mul ..).symm
    rw [if_neg (fun hown => hother (hleaves.1 hown)), hothers, Nat.add_assoc] at hsucc
    rw [hmsg]
    omega

/-- Two threads with turns of three cycles: a message of four cycles that arrives in the
other turn takes the next own turn and a cycle of the one after it, for both. -/
theorem cycleComplete_calcFinishTime_turns :
    let o : Options := { name := .l2l3Req, ntcs := 2, offset := 1, turnL := 3, message := 4 }
    ∃ h : o.Valid, ∃ c : Nat, IsLeast {c : Nat | (4 : Int) ≤ c ∧ (schedule h).activeId c = 0} c ∧
      (∃ b b', BusLayer.new o = .ok b ∧ b.cycleComplete 4 = .ok (b', 14)) ∧
      (schedule h).calcFinishTime c 0 4 = 14 := by
  intro o
  have h : o.Valid := ⟨by decide, by decide⟩
  obtain ⟨c, f, hc, ⟨b, b', hb, hb'⟩, hiff, -⟩ :=
    cycleComplete_calcFinishTime o h (by decide) (by decide) 4 (by decide) (by decide)
  have hrun : passes (fun r => r.2 == 14) (BusLayer.new o >>= fun b => b.cycleComplete 4) = true := by
    decide +kernel
  rw [bind_ok.2 ⟨b, hb, hb'⟩] at hrun
  have hf : (f : Int) = 14 := eq_of_beq hrun
  obtain rfl : f = 14 := by exact_mod_cast hf
  exact ⟨h, c, hc, ⟨b, b', hb, hb'⟩, hiff.2 (.inr (by decide))⟩

/-- The response bus of a hit with the defaults of the model: a response of nine cycles
fills the turn of nine cycles, and is through at its end for the latency model, but one
turn later for the bus. -/
theorem response_fills_turn :
    let o : Options := { name := .l2l3Resp, ntcs := 2, offset := 0, turnL := 9, message := 9 }
    ∃ h : o.Valid, IsLeast {c : Nat | (0 : Int) ≤ c ∧ (schedule h).activeId c = 0} 0 ∧
      (∃ b b', BusLayer.new o = .ok b ∧ b.cycleComplete 0 = .ok (b', 9)) ∧
      (schedule h).calcFinishTime 0 0 9 = 18 := by
  intro o
  obtain ⟨b, hb, ⟨b', _⟩, hb', rfl⟩ : ∃ b, BusLayer.new o = .ok b ∧ ∃ r, b.cycleComplete 0 = .ok r ∧ r.2 = 9 := by
    decide +kernel
  exact ⟨⟨by decide, by decide⟩, ⟨⟨by decide, by decide⟩, fun _ _ => Nat.zero_le _⟩, ⟨b, b', hb, hb'⟩, by decide⟩

end DynamicCache.Latency.BusLayer.Options
