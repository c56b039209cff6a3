import DynamicCache.Bus.Turn

/-!
# The clock edges that a packet takes (`RRBus::calcFinishTime`)

`calcFinishTime` is asked at an edge of a thread for the edge at which `dataSize`
more cycles of that thread are over.  As long as no tick overflows the answer is an edge of
the thread, and the thread owns exactly `dataSize` of the edges up to it
(`calcFinishTime_owned`).
-/

namespace DynamicCache.Bus.Params

open Lib

variable (p : Params)

/-- A clock edge of the thread. -/
def OwnsEdge (threadID e : Nat) : Prop := p.clock ∣ e ∧ p.activeId e = threadID

instance (threadID e : Nat) : Decidable (p.OwnsEdge threadID e) := inferInstanceAs (Decidable (_ ∧ _))

/-- The ticks that `calcFinishTime` computes with fit 64 bits. -/
structure NoOverflow (tick threadID dataSize : Nat) : Prop where
  now : p.nextCycle tick - p.offset * p.clock < 2 ^ 64
  elapsed : p.elapsed tick threadID dataSize < 2 ^ 64
  finish : p.elapsed tick threadID dataSize + p.offset * p.clock < 2 ^ 64

variable {p} {tick t : Nat}

/-- The edges of a thread after a tick and up to another one are its cycles there. -/
theorem card_edges (ht : t < p.numPids) {m d e f : Nat} (he : (e : Int) = ((p.rota ht).slot m + p.offset) * p.clock)
    (hf : (f : Int) = ((p.rota ht).slot (m + d) + p.offset) * p.clock)
    (hlt : (p.rota ht).slot (m + d) * p.clock < 2 ^ 64) :
    ((Finset.Ioc e f).filter (p.OwnsEdge t)).card = d := by
  have hclock : (0 : Int) < p.clock := by exact_mod_cast p.clock_pos
  have hcycle : ∀ {x y : Nat} {a b : Int}, (a = (x + p.offset) * p.clock) → (b = (y + p.offset) * p.clock) →
      (a < b ↔ x < y) := by
    intro x y a b ha hb
    rw [ha, hb, mul_lt_mul_iff_left₀ hclock]
    omega
  rw [← Rota.card_owned (r := p.rota ht) m d]
  symm
  -- the tick of a cycle
  have htick : ∀ x, (p.rota ht).slot m < x → (((x + p.offset) * p.clock).toNat : Int) = (x + p.offset) * p.clock := by
    intro x hx
    refine Int.toNat_of_nonneg ?_
    have h1 := (hcycle he rfl).2 hx
    omega
  have howner : ∀ x, x ≤ (p.rota ht).slot (m + d) → ∀ e : Nat, (e : Int) = (x + p.offset) * p.clock →
      (p.OwnsEdge t e ↔ (p.rota ht).Owns x) := by
    intro x hx e hex
    have hx64 : x * p.clock < 2 ^ 64 := Nat.lt_of_le_of_lt (Nat.mul_le_mul_right _ hx) hlt
    rw [OwnsEdge, activeId_edge hex hx64 ht]
    exact ⟨fun h => h.2, fun h => ⟨Int.natCast_dvd_natCast.1 (hex ▸ Dvd.intro_left _ rfl), h⟩⟩
  refine Finset.card_bij (fun x _ => ((x + p.offset) * p.clock).toNat) ?_ ?_ ?_
  · intro x hx
    simp only [Finset.mem_filter, Finset.mem_Ioc] at hx ⊢
    have h1 := htick x hx.1.1
    refine ⟨⟨?_, ?_⟩, (howner x hx.1.2 _ h1).2 hx.2⟩
    · exact Int.ofNat_lt.1 ((hcycle he h1).2 hx.1.1)
    · exact Nat.le_of_not_lt fun h => Nat.not_lt.2 hx.1.2 ((hcycle hf h1).1 (Int.ofNat_lt.2 h))
  · intro x hx y hy hxy
    simp only [Finset.mem_filter, Finset.mem_Ioc] at hx hy
    have h1 := htick x hx.1.1
    have h2 := htick y hy.1.1
    rw [hxy, h2] at h1
    have := mul_right_cancel₀ hclock.ne' h1
    omega
  · intro e' he'
    simp only [Finset.mem_filter, Finset.mem_Ioc] at he'
    have hle : p.offset * p.clock ≤ e' := by
      have h1 : (0 : Int) ≤ (p.rota ht).slot m * p.clock := by positivity
      have h2 : (e : Int) < e' := Int.ofNat_lt.2 he'.1.1
      rw [he, add_mul] at h2
      omega
    obtain ⟨x, hx⟩ := exists_cycle he'.2.1 hle
    have h1 : (p.rota ht).slot m < x := (hcycle he hx).1 (Int.ofNat_lt.2 he'.1.1)
    have h2 : x ≤ (p.rota ht).slot (m + d) :=
      Nat.le_of_not_lt fun h => Nat.not_lt.2 he'.1.2 (Int.ofNat_lt.1 ((hcycle hf hx).2 h))
    refine ⟨x, ?_, ?_⟩
    · simp only [Finset.mem_filter, Finset.mem_Ioc]
      exact ⟨⟨h1, h2⟩, (howner x h2 e' hx).1 he'.2⟩
    · rw [← hx]
      rfl

/-- Asked at an edge of a thread, `calcFinishTime` answers with an edge of the thread
that is `dataSize` of its edges later. -/
theorem calcFinishTime_owned (p : Params) (tick t d : Nat)
    (hstart : p.offset * p.clock ≤ p.nextCycle tick) (hown : p.activeId tick = t) (hno : p.NoOverflow tick t d) :
    p.OwnsEdge t (p.calcFinishTime tick t d) ∧ p.nextCycle tick ≤ p.calcFinishTime tick t d ∧
      ((Finset.Ioc (p.nextCycle tick) (p.calcFinishTime tick t d)).filter (p.OwnsEdge t)).card = d := by
  have ht : t < p.numPids := hown ▸ p.activeId_lt tick
  obtain ⟨c, hc⟩ := exists_cycle (dvd_nextCycle tick) hstart
  have hc64 : c * p.clock < 2 ^ 64 := by
    have h1 := hno.now
    rw [hc, add_mul, Int.add_sub_cancel] at h1
    exact_mod_cast h1
  rw [activeId_cycle hc hc64 ht] at hown
  obtain ⟨m, rfl⟩ := Rota.owns_iff.1 hown
  have h1 := hno.elapsed
  have h2 := hno.finish
  rw [elapsed_eq ht (sinceOffset_cycle hc hc64)] at h1 h2
  have hd64 : (p.rota ht).slot (m + d) * p.clock < 2 ^ 64 := by exact_mod_cast h1
  obtain ⟨hfin, hle⟩ := calcFinishTime_slot ht (d := d) hc hd64 (by rw [add_mul]; exact_mod_cast h2)
  refine ⟨⟨?_, ?_⟩, Nat.le_trans (Nat.le_add_right ..) hle, card_edges ht hc hfin hd64⟩
  · exact Int.natCast_dvd_natCast.1 (hfin ▸ Dvd.intro_left _ rfl)
  · exact (activeId_edge hfin hd64 ht).2 (Rota.owns_iff.2 ⟨m + d, rfl⟩)

/-- Three threads with turns of two cycles that began before time zero: from the
second cycle of its turn a thread needs three more turns for five cycles. -/
theorem calcFinishTime_owned_turns :
    let p : Params := ⟨3, 2, -4, 10, by decide, by decide, by decide⟩
    p.calcFinishTime 10 2 5 = 180 ∧ p.OwnsEdge 2 180 ∧ p.nextCycle 10 ≤ 180 ∧
      ((Finset.Ioc (p.nextCycle 10) 180).filter (p.OwnsEdge 2)).card = 5 := by
  intro p
  have hfin : p.calcFinishTime 10 2 5 = 180 := by decide
  have h := calcFinishTime_owned p 10 2 5 (by decide) (by decide) ⟨by decide, by decide, by decide⟩
  rw [hfin] at h
  exact ⟨hfin, h⟩

end DynamicCache.Bus.Params
