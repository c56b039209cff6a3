import DynamicCache.Lib.Faults

/-!
# Runs of machines with outputs

A machine takes an action and either moves to a new state with an output or
fails.  `run step vis s as` runs a list of actions and keeps the outputs of the
visible ones.  Without the outputs a machine is one of `Lib.Faults` (`silent`),
and what holds of runs and loops there carries over (`runs_silent`, `loop_eq`).

`unwinding` relates two runs (of one machine or of two) whose visible actions are
the same: if a relation is kept by every invisible action on either side and by
every visible action taken on both sides, and visible actions taken in related
states give equal outputs, then the runs end in related states and show the same
outputs.  Noninterference is the case of one machine on both sides; a refinement
that forgets the actions of others is the case where the second machine is given
the visible actions only.
-/

namespace DynamicCache.Lib

section Runs

variable {σ τ α ω : Type}

/-- Runs the actions in order; outputs of visible actions are kept. -/
def run (step : σ → α → Option (σ × ω)) (vis : α → Bool) : σ → List α → Option (σ × List ω)
  | s, [] => some (s, [])
  | s, a :: as =>
    match step s a with
    | none => none
    | some (s', o) =>
      match run step vis s' as with
      | none => none
      | some (s'', os) => some (s'', if vis a then o :: os else os)

/-- The machine without its outputs. -/
def silent (step : σ → α → Option (σ × ω)) (s : σ) (a : α) : Except Unit σ :=
  orFail () ((step s a).map Prod.fst)

/-- Every action of the run is taken in a state where `ok` allows it. -/
def Along (step : σ → α → Option (σ × ω)) (ok : σ → α → Prop) (s : σ) (as : List α) : Prop :=
  Always (silent step) ok s as

instance decidableAlong (step : σ → α → Option (σ × ω)) (ok : σ → α → Prop)
    [∀ s a, Decidable (ok s a)] (as : List α) (s : σ) : Decidable (Along step ok s as) :=
  decidableAlways (silent step) ok as s

variable {step : σ → α → Option (σ × ω)} {vis : α → Bool} {ok : σ → α → Prop} {s s' : σ} {as : List α} {a : α}

theorem silent_ok : silent step s a = .ok s' ↔ ∃ o, step s a = some (s', o) := by
  simp [silent]

theorem run_cons {s'' : σ} {os : List ω} (h : run step vis s (a :: as) = some (s'', os)) :
    ∃ s' o os', step s a = some (s', o) ∧ run step vis s' as = some (s'', os') ∧
      os = if vis a then o :: os' else os' := by
  rw [run] at h
  cases hs : step s a with
  | none => rw [hs] at h; cases h
  | some p =>
    obtain ⟨s', o⟩ := p
    rw [hs] at h
    simp only at h
    cases hr : run step vis s' as with
    | none => rw [hr] at h; cases h
    | some q =>
      obtain ⟨t, os'⟩ := q
      rw [hr] at h
      simp only [Option.some.injEq, Prod.mk.injEq] at h
      exact ⟨s', o, os', rfl, by rw [hr, h.1], h.2.symm⟩

/-- What a run leaves of the state, from the first step on. -/
theorem map_run_cons {β : Type} {f : σ → β} : (run step vis s (a :: as)).map (fun r => f r.1) =
      (step s a).bind fun q => (run step vis q.1 as).map fun r => f r.1 := by
  rw [run]
  cases step s a with
  | none => rfl
  | some q =>
    dsimp only [Option.bind_some]
    cases run step vis q.1 as <;> rfl

/-- The outputs aside, `run` is the run of the silent machine. -/
theorem runs_silent : runs (silent step) s as = .ok s' ↔ ∃ os, run step vis s as = some (s', os) := by
  induction as generalizing s with
  | nil => simp [runs, run]
  | cons a as ih =>
    rw [runs, bind_ok]
    constructor
    · rintro ⟨s₁, hs, hr⟩
      obtain ⟨o, hs⟩ := silent_ok.1 hs
      obtain ⟨os, hr⟩ := ih.1 hr
      exact ⟨if vis a then o :: os else os, by simp only [run, hs, hr]⟩
    · rintro ⟨os, hr⟩
      obtain ⟨s₁, o, os', hs, hr, -⟩ := run_cons hr
      exact ⟨s₁, silent_ok.2 ⟨o, hs⟩, ih.2 ⟨os', hr⟩⟩

theorem along_cons :
    Along step ok s (a :: as) ↔ ok s a ∧ ∀ s' o, step s a = some (s', o) → Along step ok s' as := by
  simp only [Along, always_cons, silent_ok, forall_exists_index]

/-- What every allowed step keeps, every run keeps. -/
theorem run_invariant (Inv : σ → Prop) (hstep : ∀ s a s' o, Inv s → ok s a → step s a = some (s', o) → Inv s')
    {os : List ω} (hi : Inv s) (ha : Along step ok s as) (hr : run step vis s as = some (s', os)) : Inv s' := by
  refine runs_invariant Inv (fun s a s' hi hok hs => ?_) hi ha (runs_silent.2 ⟨os, hr⟩)
  obtain ⟨o, hs⟩ := silent_ok.1 hs
  exact hstep s a s' o hi hok hs

/-- A run all of whose allowed steps succeed succeeds. -/
theorem run_total (vis : α → Bool) (Inv : σ → Prop)
    (hstep : ∀ s a, Inv s → ok s a → ∃ s' o, step s a = some (s', o) ∧ Inv s') (hi : Inv s)
    (ha : Along step ok s as) : ∃ s' os, run step vis s as = some (s', os) ∧ Inv s' := by
  have htotal : ∀ s a, Inv s → ok s a → ∃ s', silent step s a = .ok s' ∧ Inv s' := by
    intro s a hi hok
    obtain ⟨s', o, hs, hi'⟩ := hstep s a hi hok
    exact ⟨s', silent_ok.2 ⟨o, hs⟩, hi'⟩
  obtain ⟨s', hr, hi'⟩ := runs_total Inv htotal hi ha
  obtain ⟨os, hr⟩ := runs_silent.1 hr
  exact ⟨s', os, hr, hi'⟩

end Runs

/-! ## Two runs -/

section TwoRuns

variable {σ τ α ω : Type}
variable {step₁ : σ → α → Option (σ × ω)} {step₂ : τ → α → Option (τ × ω)} {vis : α → Bool}
variable {ok₁ : σ → α → Prop} {ok₂ : τ → α → Prop}

/-- Invisible actions keep the relation and show nothing. -/
theorem run_invisible (R : σ → Prop)
    (hstep : ∀ s a s' o, R s → vis a = false → ok₁ s a → step₁ s a = some (s', o) → R s') :
    ∀ {as : List α} {s s' : σ} {os : List ω}, as.filter vis = [] → R s → Along step₁ ok₁ s as →
      run step₁ vis s as = some (s', os) → R s' ∧ os = [] := by
  intro as
  induction as with
  | nil =>
    intro s s' os _ hi _ hr
    simp only [run, Option.some.injEq, Prod.mk.injEq] at hr
    exact ⟨hr.1 ▸ hi, hr.2.symm⟩
  | cons a as ih =>
    intro s s'' os hf hi ha hr
    rw [along_cons] at ha
    obtain ⟨s', o, os', hs, hr', hos⟩ := run_cons hr
    have hv : vis a = false := by
      have := List.filter_eq_nil_iff.1 hf a List.mem_cons_self
      simpa using this
    rw [List.filter_cons_of_neg (by simp [hv])] at hf
    rw [hv] at hos
    obtain ⟨h1, h2⟩ := ih hf (hstep s a s' o hi hv ha.1 hs) (ha.2 s' o hs) hr'
    exact ⟨h1, by simpa [h2] using hos⟩

theorem unwinding (R : σ → τ → Prop)
    (left : ∀ s t a s' o, R s t → vis a = false → ok₁ s a → step₁ s a = some (s', o) → R s' t)
    (right : ∀ s t a t' o, R s t → vis a = false → ok₂ t a → step₂ t a = some (t', o) → R s t')
    (both : ∀ s t a s' t' o o', R s t → vis a = true → ok₁ s a → ok₂ t a →
      step₁ s a = some (s', o) → step₂ t a = some (t', o') → R s' t' ∧ o = o') :
    ∀ {as bs : List α} {s s' : σ} {t t' : τ} {os os' : List ω}, as.filter vis = bs.filter vis →
      R s t → Along step₁ ok₁ s as → Along step₂ ok₂ t bs →
      run step₁ vis s as = some (s', os) → run step₂ vis t bs = some (t', os') →
      R s' t' ∧ os = os' := by
  intro as
  induction as with
  | nil =>
    intro bs s s' t t' os os' hf hi _ hb hr ht
    obtain ⟨rfl, rfl⟩ := hr
    obtain ⟨h1, h2⟩ := run_invisible (R s) (fun t a t' o => right s t a t' o) hf.symm hi hb ht
    exact ⟨h1, h2.symm⟩
  | cons a as ih =>
    intro bs s s'' t t'' os os'' hf hi ha hb hr ht
    rw [along_cons] at ha
    obtain ⟨s', o, os', hs, hr', hos⟩ := run_cons hr
    cases hv : vis a with
    | false =>
      rw [List.filter_cons_of_neg (by simp [hv])] at hf
      rw [hv] at hos
      subst hos
      exact ih hf (left s t a s' o hi hv ha.1 hs) (ha.2 s' o hs) hb hr' ht
    | true =>
      -- the other run reaches `a` after some invisible actions of its own
      rw [List.filter_cons_of_pos hv] at hf
      induction bs generalizing t os'' with
      | nil => cases hf
      | cons b bs ihb =>
        rw [along_cons] at hb
        obtain ⟨t', p, os₂, hst, hrt, hos₂⟩ := run_cons ht
        cases hvb : vis b with
        | false =>
          rw [List.filter_cons_of_neg (by simp [hvb])] at hf
          rw [hvb] at hos₂
          subst hos₂
          exact ihb hf (right s t b t' p hi hvb hb.1 hst) (hb.2 t' p hst) hrt
        | true =>
          rw [List.filter_cons_of_pos hvb] at hf
          obtain ⟨rfl, hf'⟩ := List.cons.inj hf
          obtain ⟨hR, ho⟩ := both s t a s' t' o p hi hv ha.1 hb.1 hs hst
          obtain ⟨hR', hos'⟩ := ih hf' hR (ha.2 s' o hs) (hb.2 t' p hst) hr' hrt
          exact ⟨hR', by rw [hos, hos₂, ho, hos']⟩

end TwoRuns

/-! ## Counted loops -/

section Loops

variable {σ : Type} {body : σ → Nat → Option σ} {n : Nat} {s : σ}

def loop (body : σ → Nat → Option σ) (n : Nat) (s : σ) : Option σ :=
  (forLoop (fun s i => orFail () (body s i)) n s).toOption

theorem loop_eq {s' : σ} :
    loop body n s = some s' ↔ forLoop (fun s i => orFail () (body s i)) n s = .ok s' := by
  unfold loop
  cases forLoop (fun s i => orFail () (body s i)) n s <;> simp [Except.toOption]

theorem loop_invariant (P : Nat → σ → Prop)
    (hstep : ∀ i s s', i < n → P i s → body s i = some s' → P (i + 1) s') {s' : σ} (h0 : P 0 s)
    (h : loop body n s = some s') : P n s' :=
  forLoop_invariant P (fun i s s' hi hp hb => hstep i s s' hi hp (orFail_ok.1 hb)) h0 (loop_eq.1 h)

/-- A loop all of whose iterations succeed succeeds. -/
theorem loop_total (P : Nat → σ → Prop) (hstep : ∀ i s, i < n → P i s → ∃ s', body s i = some s' ∧ P (i + 1) s')
    (h0 : P 0 s) : ∃ s', loop body n s = some s' ∧ P n s' := by
  induction n with
  | zero => exact ⟨s, rfl, h0⟩
  | succ n ih =>
    obtain ⟨s', hs, hp⟩ := ih fun i s hi => hstep i s (by omega)
    obtain ⟨s'', hb, hp'⟩ := hstep n s' (by omega) hp
    exact ⟨s'', loop_eq.2 (bind_ok.2 ⟨s', loop_eq.1 hs, orFail_ok.2 hb⟩), hp'⟩

end Loops

end DynamicCache.Lib
