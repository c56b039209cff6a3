import DynamicCache.Bus.RRBus

/-!
# Draining a layer of the round-robin bus (`RRBus::Layer::drain`, `releaseLayer`)

`drain` answers 0 when there is nothing to wait for, and otherwise keeps an event
that `releaseLayer` processes when the layer has become idle.  Both look at one
thread: `drain` at thread 0, `releaseLayer` at the thread whose turn it is.

`drained` records the layer at every moment when `drain` answered 0 or the event
was processed.  With one thread all is quiet at these moments, and with more than
one thread not in every run, but in those whose calls are all for thread 0
(`drain_complete`).  In `drained_with_waiting_port` a port of another thread is left
waiting.
-/

namespace DynamicCache.Bus

open Lib

/-- Nothing to do and no one waiting. -/
def Thread.Quiet (th : Thread) : Prop := th.state = .idle ∧ th.retryList = []

structure Draining where
  layer : Layer := Layer.init
  drainEvent : Option Nat := none
  /-- history, most recent first -/
  drained : List Layer := []

namespace Draining

variable (p : Params) (s : Draining)

/-- Also returns the number of objects to wait for. -/
def drain (de : Nat) : Draining × Nat :=
  if (s.layer 0).retryList ≠ [] ∨ (s.layer 0).state ≠ .idle then ({ s with drainEvent := some de }, 1)
  else ({ s with drained := s.layer :: s.drained }, 0)

/-- `releaseLayer` finds no port to retry and a drain event. -/
def Processes : Action → Prop
  | .fireRelease now u =>
    (s.layer u).releaseEvent = some now ∧ (s.layer (p.activeId now)).retryList = [] ∧ s.drainEvent.isSome
  | _ => False

instance (a : Action) : Decidable (s.Processes p a) := by
  unfold Processes
  induction a using Action.casesOn <;> infer_instance

inductive Act where
  | layer (a : Action)
  | drain (de : Nat)

def step : Act → Except Fault Draining
  | .layer a => do
    let l ← orFail .assertion (s.layer.step p a)
    return if s.Processes p a then ⟨l, none, l :: s.drained⟩ else { s with layer := l }
  | .drain de => .ok (s.drain de).1

/-- All threads of the layer are quiet. -/
def Complete (l : Layer) : Prop := ∀ u < p.numPids, (l u).Quiet

section

variable {p s} {s' : Draining}

theorem releaseLayer_quiet {th th' : Thread} {now : Nat} (h : th.releaseLayer now = some th')
    (he : th.retryList = []) : th'.Quiet := by
  obtain ⟨st, list, rel, ret, fr, log⟩ := th
  subst he
  simp only [Thread.releaseLayer, Thread.see] at h
  split at h
  · cases h
  · obtain rfl := Option.some.inj h
    exact ⟨rfl, rfl⟩

theorem busy_of_releaseLayer {th th' : Thread} {now : Nat} (h : th.releaseLayer now = some th') :
    th.state = .busy := by
  unfold Thread.releaseLayer at h
  split at h
  · cases h
  · next hc => exact not_not.1 (not_or.1 hc).1

/-- A release without a port to retry leaves the active thread, which was busy, quiet. -/
theorem release_quiet {now u : Nat} {l : Layer} (h : s.layer.step p (.fireRelease now u) = some l)
    (hp : s.Processes p (.fireRelease now u)) :
    (s.layer (p.activeId now)).state = .busy ∧ (l (p.activeId now)).Quiet := by
  obtain ⟨he, hempty, -⟩ := hp
  simp only [Layer.step, if_pos he] at h
  obtain ⟨th, hth, rfl⟩ := Option.map_eq_some_iff.1 h
  -- clearing the event changes no state and no list
  have hclear : ∀ v, (Function.update s.layer u { s.layer u with releaseEvent := none } v).state = (s.layer v).state ∧
      (Function.update s.layer u { s.layer u with releaseEvent := none } v).retryList = (s.layer v).retryList := by
    intro v
    by_cases hv : v = u
    · subst hv
      simp
    · simp [hv]
  rw [Function.update_self, ← (hclear (p.activeId now)).1]
  exact ⟨busy_of_releaseLayer hth, releaseLayer_quiet hth ((hclear _).2.trans hempty)⟩

/-- A step that ends the draining finds one thread quiet: thread 0, or one that was busy. -/
theorem step_drained {a : Act} (h : s.step p a = .ok s') :
    s'.drained = s.drained ∨ ∃ u < p.numPids, (s'.layer u).Quiet ∧ s'.drained = s'.layer :: s.drained ∧
      (u ≠ 0 → (s.layer u).state = .busy) := by
  cases a with
  | drain de =>
    cases h
    by_cases hq : (s.layer 0).retryList ≠ [] ∨ (s.layer 0).state ≠ .idle
    · exact .inl (by rw [drain, if_pos hq])
    · rw [drain, if_neg hq]
      rw [not_or, not_not, not_not] at hq
      exact .inr ⟨0, p.numPids_pos, ⟨hq.2, hq.1⟩, rfl, fun h0 => absurd rfl h0⟩
  | layer a =>
    obtain ⟨l, hl, h⟩ := bind_ok.1 h
    rw [orFail_ok] at hl
    obtain rfl := Except.ok.inj h
    by_cases hp : s.Processes p a
    · rw [if_pos hp]
      cases a with
      | fireRelease now u =>
        obtain ⟨hbusy, hquiet⟩ := release_quiet hl hp
        exact .inr ⟨p.activeId now, p.activeId_lt now, hquiet, rfl, fun _ => hbusy⟩
      | _ => exact hp.elim
    · rw [if_neg hp]
      exact .inl rfl

/-! ## One thread -/

/-- The call is for thread 0, or its event is serviced. -/
def OfThread0 : Act → Prop
  | .layer a => a.threadID = 0
  | .drain _ => True

instance (a : Act) : Decidable (OfThread0 a) := by
  unfold OfThread0
  split <;> infer_instance

/-- No thread but thread 0 has done anything. -/
def Only0 (l : Layer) : Prop := ∀ u, u ≠ 0 → l u = {}

/-- A function that fails for an idle thread runs on thread 0, if at all. -/
theorem only0_on {l l' : Layer} {v : Nat} {f : Thread → Option Thread} (hl : Only0 l) (hf : v ≠ 0 → f {} = none)
    (h : Layer.on l v f = some l') : Only0 l' := by
  obtain ⟨th, hth, rfl⟩ := Option.map_eq_some_iff.1 h
  have hv : v = 0 := by
    by_contra hv
    rw [hl v hv, hf hv] at hth
    cases hth
  intro u hu
  rw [Function.update_of_ne (hv ▸ hu)]
  exact hl u hu

theorem only0_step {l l' : Layer} {a : Action} (hl : Only0 l) (ha : a.threadID = 0) (h : l.step p a = some l') :
    Only0 l' := by
  have hclear : ∀ th, Only0 (Function.update l 0 th) := by
    intro th u hu
    rw [Function.update_of_ne hu]
    exact hl u hu
  cases a with
  | tryTiming now u port =>
    simp only [Layer.step] at h
    exact only0_on hl (fun hu => absurd ha hu) h
  | succeededTiming now busyTime u =>
    simp only [Layer.step] at h
    exact only0_on hl (fun hu => absurd ha hu) h
  | failedTiming now port busyTime u =>
    simp only [Layer.step] at h
    exact only0_on hl (fun hu => absurd ha hu) h
  | recvRetry now u =>
    simp only [Layer.step] at h
    split at h
    · exact only0_on hl (fun _ => rfl) h
    · obtain rfl := Option.some.inj h
      exact hl
  | fireRelease now u =>
    obtain rfl : u = 0 := ha
    simp only [Layer.step] at h
    split at h
    · exact only0_on (hclear _) (fun _ => rfl) h
    · obtain rfl := Option.some.inj h
      exact hl
  | fireRetry now u =>
    obtain rfl : u = 0 := ha
    simp only [Layer.step] at h
    split at h
    · exact only0_on (hclear _) (fun _ => rfl) h
    · obtain rfl := Option.some.inj h
      exact hl
  | returned u =>
    simp only [Layer.step] at h
    exact only0_on hl (fun hu => absurd ha hu) h

theorem step_only0 {a : Act} (hl : Only0 s.layer) (ha : OfThread0 a) (h : s.step p a = .ok s') : Only0 s'.layer := by
  cases a with
  | drain de =>
    cases h
    unfold drain
    split
    · exact hl
    · exact hl
  | layer a =>
    obtain ⟨l, hstep, h⟩ := bind_ok.1 h
    have hl' : Only0 l := only0_step hl ha (orFail_ok.1 hstep)
    obtain rfl := Except.ok.inj h
    split
    · exact hl'
    · exact hl'

/-- Whatever the turns are, `tryTiming` at tick 0 leaves something to do. -/
theorem tryTiming_not_quiet (u port : Nat) : ∃ th, ({} : Thread).tryTiming p 0 u port = some th ∧ ¬th.Quiet := by
  unfold Thread.tryTiming
  split
  · dsimp only
    exact ⟨_, rfl, fun hq => by cases hq.2⟩
  · exact ⟨_, rfl, fun hq => by cases hq.1⟩

/-- With more than one thread, draining may end too early. -/
theorem exists_incomplete (h : 1 < p.numPids) :
    ∃ as s, runs (step p) {} as = .ok s ∧ ∃ l ∈ s.drained, ¬Complete p l := by
  obtain ⟨th, hth, hq⟩ := tryTiming_not_quiet (p := p) 1 7
  have hlayer : Layer.init.step p (.tryTiming 0 1 7) = some (Function.update Layer.init 1 th) := by
    show ((Layer.init 1).tryTiming p 0 1 7).map _ = _
    rw [show Layer.init 1 = {} from rfl, hth]
    rfl
  refine ⟨[.layer (.tryTiming 0 1 7), .drain 9], ⟨_, none, [Function.update Layer.init 1 th]⟩,
    bind_ok.2 ⟨⟨Function.update Layer.init 1 th, none, []⟩, ?_, rfl⟩, _, List.mem_singleton_self _, fun hc => hq ?_⟩
  · exact bind_ok.2 ⟨_, orFail_ok.2 hlayer, rfl⟩
  · have := hc 1 h
    rwa [Function.update_self] at this

end

/-- Thread 1 is rejected in the turn of thread 0.  If thread 0 is idle, `drain`
answers 0; if it is busy, its release processes the drain event.  The port of thread
1 is still waiting. -/
theorem drained_with_waiting_port :
    let p : Params := ⟨2, 2, 0, 1, by decide, by decide, by decide⟩
    (∃ s l, runs (step p) {} [.layer (.tryTiming 0 1 7), .drain 9] = .ok s ∧ s.drained = [l] ∧ ¬Complete p l) ∧
    ∃ s l, runs (step p) {} [.layer (.tryTiming 0 0 5), .layer (.succeededTiming 0 1 0),
        .layer (.tryTiming 0 1 7), .drain 9, .layer (.fireRelease 1 0)] = .ok s ∧ s.drained = [l] ∧ ¬Complete p l := by
  intro p
  have hport : ∀ s : Draining, s.drained.map (fun l => (l 1).retryList) = [[7]] →
      ∃ l, s.drained = [l] ∧ ¬Complete p l := by
    intro s h
    obtain ⟨l, hl, hlist⟩ := List.map_eq_singleton_iff.1 h
    refine ⟨l, hl, fun hc => ?_⟩
    have := (hc 1 (by decide)).2
    rw [hlist] at this
    cases this
  simp only [exists_and_left]
  exact ⟨exists_ok _ (by decide +kernel) fun s _ => hport s, exists_ok _ (by decide +kernel) fun s _ => hport s⟩

/-- Draining ends only when all threads are quiet in every run of a layer with one thread, of
no other layer, and in the runs of any layer whose calls are all for thread 0. -/
theorem drain_complete (p : Params) :
    ((∀ as s, runs (step p) {} as = .ok s → ∀ l ∈ s.drained, Complete p l) ↔ p.numPids = 1) ∧
      ∀ as s, (∀ a ∈ as, OfThread0 a) → runs (step p) {} as = .ok s → ∀ l ∈ s.drained, Complete p l := by
  constructor
  · constructor
    · intro hall
      by_contra hne
      have hpos := p.numPids_pos
      obtain ⟨as, s, hr, l, hl, hc⟩ := exists_incomplete (p := p) (by omega)
      exact hc (hall as s hr l hl)
    · intro h1 as s
      refine runs_preserves (fun s : Draining => ∀ l ∈ s.drained, Complete p l) (fun s a s' hs h l hl => ?_)
        (fun l hl => absurd hl List.not_mem_nil)
      rcases step_drained h with he | ⟨u, hu, hq, he, -⟩
      · exact hs l (he ▸ hl)
      · rcases List.mem_cons.1 (he ▸ hl) with rfl | hl
        · intro v hv
          rwa [show v = u by omega]
        · exact hs l hl
  · intro as s ha hr
    refine (runs_invariant (fun s : Draining => Only0 s.layer ∧ ∀ l ∈ s.drained, Complete p l)
      (fun s a s' hs ha h => ⟨step_only0 hs.1 ha h, fun l hl => ?_⟩)
      ⟨fun _ _ => rfl, fun l hl => absurd hl List.not_mem_nil⟩
      (always_of_mem ha) hr).2
    rcases step_drained h with he | ⟨u, -, hq, he, hbusy⟩
    · exact hs.2 l (he ▸ hl)
    · rcases List.mem_cons.1 (he ▸ hl) with rfl | hl
      · intro v _
        by_cases hv : v = 0
        · -- the thread found quiet is thread 0, as all others are idle
          have hu : u = 0 := by
            by_contra hu
            have := hbusy hu
            rw [hs.1 u hu] at this
            cases this
          rwa [hv, ← hu]
        · rw [step_only0 hs.1 ha h v hv]
          exact ⟨rfl, rfl⟩
      · exact hs.2 l hl

/-- The drain event waits for the release of thread 0, and thread 1 has nothing to do. -/
theorem drain_complete_release :
    let p : Params := ⟨2, 2, 0, 1, by decide, by decide, by decide⟩
    ∃ s, runs (step p) {} [.layer (.tryTiming 0 0 5), .layer (.succeededTiming 0 1 0), .drain 9,
        .layer (.fireRelease 1 0)] = .ok s ∧ s.drained.length = 1 ∧ ∀ l ∈ s.drained, Complete p l := by
  intro p
  exact exists_ok (fun s => s.drained.length = 1) (by decide +kernel) fun s hs hp =>
    ⟨hp, (drain_complete p).2 _ s (by decide) hs⟩

end Draining

end DynamicCache.Bus
