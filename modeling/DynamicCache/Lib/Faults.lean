import Mathlib.Data.List.Basic

/-!
# Computations that may fail

`Except` computations are taken apart with `bind_ok`: a sequence succeeds when
both parts do.  `check` is an assertion.  `Avoids e x` says that `x` does not
fail with `e`, and `Ensures e Q x` that its result also has the property `Q`.
`forLoop` is a loop `for (i = 0; i < n; i++)` whose body may fail; what every
iteration keeps holds after it.  `runs` runs a machine whose steps may fail;
what every allowed step keeps holds at the end of a run (`runs_invariant`).
-/

namespace DynamicCache.Lib

variable {ε α β σ : Type} {s : σ} {e : ε} {x : Except ε α}

/-- An assertion that fails with `e`. -/
def check (e : ε) (c : Bool) : Except ε Unit := if c then .ok () else .error e

@[simp] theorem check_ok {c : Bool} {u : Unit} : check e c = .ok u ↔ c = true := by
  unfold check
  split <;> simp_all

theorem bind_ok {f : α → Except ε β} {b : β} : (x >>= f) = .ok b ↔ ∃ a, x = .ok a ∧ f a = .ok b := by
  cases x with
  | error e => simp [bind, Except.bind]
  | ok a => simp [bind, Except.bind]

/-- The value of an option, or a failure. -/
def orFail (e : ε) : Option α → Except ε α
  | some a => .ok a
  | none => .error e

@[simp] theorem orFail_ok {x : Option α} {a : α} : orFail e x = .ok a ↔ x = some a := by
  cases x <;> simp [orFail]

/-! ## A fault that does not happen -/

def Avoids (e : ε) (x : Except ε α) : Prop := x ≠ .error e

section Avoids

variable {e e' : ε} {x : Except ε α}

@[simp] theorem avoids_ok (a : α) : Avoids e (.ok a) := by simp [Avoids]

@[simp] theorem avoids_pure (a : α) : Avoids e (pure a) := avoids_ok a

@[simp] theorem avoids_error : Avoids e (.error e' : Except ε α) ↔ e' ≠ e := by simp [Avoids]

@[simp] theorem avoids_bind {f : α → Except ε β} :
    Avoids e (x >>= f) ↔ Avoids e x ∧ ∀ a, x = .ok a → Avoids e (f a) := by
  cases x with
  | error e => simp [Avoids, bind, Except.bind]
  | ok a => simp [Avoids, bind, Except.bind]

@[simp] theorem avoids_ite {c : Prop} [Decidable c] {y : Except ε α} :
    Avoids e (if c then x else y) ↔ (c → Avoids e x) ∧ (¬c → Avoids e y) := by
  split <;> simp_all

@[simp] theorem avoids_map {f : α → β} : Avoids e (x.map f) ↔ Avoids e x := by
  cases x <;> simp [Avoids, Except.map]

@[simp] theorem avoids_functor_map {f : α → β} : Avoids e (f <$> x) ↔ Avoids e x := avoids_map

theorem avoids_check {c : Bool} (h : e' ≠ e) : Avoids e (check e' c) := by
  unfold check
  split
  · exact avoids_ok ()
  · exact avoids_error.2 h

theorem avoids_orFail {o : Option α} (h : o = none → e' ≠ e) : Avoids e (orFail e' o) := by
  cases o with
  | none => exact avoids_error.2 (h rfl)
  | some a => exact avoids_ok a

end Avoids

/-! ## What a computation ensures -/

/-- `x` does not fail with `e`, and its result has the property `Q`. -/
def Ensures (e : ε) (Q : α → Prop) (x : Except ε α) : Prop := Avoids e x ∧ ∀ a, x = .ok a → Q a

section Ensures

variable {e : ε} {x : Except ε α} {Q R : α → Prop} {S : β → Prop} {f : α → Except ε β}

theorem ensures_ok {a : α} (h : Q a) : Ensures e Q (.ok a) := by
  refine ⟨avoids_ok a, fun b hb => ?_⟩
  cases hb
  exact h

theorem ensures_error {e' : ε} (h : e' ≠ e) : Ensures e Q (.error e' : Except ε α) := ⟨avoids_error.2 h, nofun⟩

theorem Ensures.mono (h : Ensures e Q x) (hq : ∀ a, Q a → R a) : Ensures e R x := ⟨h.1, fun a ha => hq a (h.2 a ha)⟩

theorem Ensures.bind (h : Ensures e Q x) (hf : ∀ a, x = .ok a → Q a → Ensures e S (f a)) : Ensures e S (x >>= f) := by
  refine ⟨avoids_bind.2 ⟨h.1, fun a ha => (hf a ha (h.2 a ha)).1⟩, fun b hb => ?_⟩
  obtain ⟨a, ha, hb⟩ := bind_ok.1 hb
  exact (hf a ha (h.2 a ha)).2 b hb

/-- The result does not matter. -/
theorem Avoids.bind (h : Avoids e x) (hf : ∀ a, x = .ok a → Ensures e S (f a)) : Ensures e S (x >>= f) :=
  Ensures.bind (Q := fun _ => True) ⟨h, fun _ _ => trivial⟩ fun a ha _ => hf a ha

end Ensures

/-- A computation whose result passes a test. -/
def passes (p : α → Bool) : Except ε α → Bool
  | .ok a => p a
  | .error _ => false

theorem exists_of_passes {p : α → Bool} (h : passes p x = true) : ∃ a, x = .ok a ∧ p a = true := by
  cases x with
  | error e => cases h
  | ok a => exact ⟨a, rfl, h⟩

instance decidableExistsOk {P : α → Prop} [DecidablePred P] : (x : Except ε α) → Decidable (∃ a, x = .ok a ∧ P a)
  | .ok a => decidable_of_iff (P a) (by simp)
  | .error _ => .isFalse (by simp)

theorem exists_ok {Q : α → Prop} (P : α → Prop) (h : ∃ a, x = .ok a ∧ P a) (hq : ∀ a, x = .ok a → P a → Q a) :
    ∃ a, x = .ok a ∧ Q a := by
  obtain ⟨a, ha, hp⟩ := h
  exact ⟨a, ha, hq a ha hp⟩

/-- The fault of a computation that fails. -/
def fault : Except ε α → Option ε
  | .ok _ => none
  | .error e => some e

theorem error_of_fault (h : fault x = some e) : x = .error e := by
  cases x with
  | error e' => rw [Option.some.inj h]
  | ok a => cases h

/-! ## Loops -/

def forLoop (body : σ → Nat → Except ε σ) : Nat → σ → Except ε σ
  | 0, s => .ok s
  | n + 1, s => forLoop body n s >>= fun s' => body s' n

theorem forLoop_invariant {body : σ → Nat → Except ε σ} (P : Nat → σ → Prop) {n : Nat}
    (hstep : ∀ i s s', i < n → P i s → body s i = .ok s' → P (i + 1) s') :
    ∀ {s s' : σ}, P 0 s → forLoop body n s = .ok s' → P n s' := by
  induction n with
  | zero =>
    intro s s' h0 h
    cases h
    exact h0
  | succ n ih =>
    intro s s'' h0 h
    obtain ⟨s', hl, hb⟩ := bind_ok.1 h
    have hn : P n s' := ih (fun i s s' hi => hstep i s s' (by omega)) h0 hl
    exact hstep n s' s'' (by omega) hn hb

theorem forLoop_ensures {body : σ → Nat → Except ε σ} (P : σ → Prop) {n : Nat}
    (hstep : ∀ i s, i < n → P s → Ensures e P (body s i)) (h : P s) : Ensures e P (forLoop body n s) := by
  induction n with
  | zero => exact ensures_ok h
  | succ n ih => exact (ih fun i s hi => hstep i s (by omega)).bind fun s' _ hs => hstep n s' (by omega) hs

/-! ## Runs -/

section Runs

variable {α' : Type} {step : σ → α' → Except ε σ} {ok : σ → α' → Prop}

def runs (step : σ → α' → Except ε σ) : σ → List α' → Except ε σ
  | s, [] => .ok s
  | s, a :: as => step s a >>= fun s' => runs step s' as

/-- Every action of the run is taken in a state where `ok` allows it. -/
def Always (step : σ → α' → Except ε σ) (ok : σ → α' → Prop) : σ → List α' → Prop
  | _, [] => True
  | s, a :: as =>
    ok s a ∧
      match step s a with
      | .error _ => True
      | .ok s' => Always step ok s' as

instance decidableAlways (step : σ → α' → Except ε σ) (ok : σ → α' → Prop)
    [∀ s a, Decidable (ok s a)] : ∀ (as : List α') (s : σ), Decidable (Always step ok s as)
  | [], _ => .isTrue trivial
  | a :: as, s =>
    have : Decidable (match step s a with
        | .error _ => True
        | .ok s' => Always step ok s' as) :=
      match step s a with
      | .error _ => .isTrue trivial
      | .ok s' => decidableAlways step ok as s'
    inferInstanceAs (Decidable (ok s a ∧ _))

theorem always_cons {a : α'} {as : List α'} :
    Always step ok s (a :: as) ↔ ok s a ∧ ∀ s', step s a = .ok s' → Always step ok s' as := by
  rw [Always]
  cases step s a with
  | error e => simp
  | ok s' => simp

theorem always_of_forall (h : ∀ s a, ok s a) {as : List α'} : Always step ok s as := by
  induction as generalizing s with
  | nil => trivial
  | cons a as ih => exact always_cons.2 ⟨h s a, fun s' _ => ih⟩

theorem always_of_mem {p : α' → Prop} {as : List α'} (h : ∀ a ∈ as, p a) : Always step (fun _ => p) s as := by
  induction as generalizing s with
  | nil => trivial
  | cons a as ih =>
    exact always_cons.2 ⟨h a List.mem_cons_self, fun s' _ => ih fun b hb => h b (List.mem_cons_of_mem a hb)⟩

theorem Always.and {ok' : σ → α' → Prop} {as : List α'} (h : Always step ok s as) (h' : Always step ok' s as) :
    Always step (fun s a => ok s a ∧ ok' s a) s as := by
  induction as generalizing s with
  | nil => trivial
  | cons a as ih =>
    rw [always_cons] at h h' ⊢
    exact ⟨⟨h.1, h'.1⟩, fun s' hs => ih (h.2 s' hs) (h'.2 s' hs)⟩

theorem runs_append {as bs : List α'} {s' : σ} (h : runs step s as = .ok s') :
    runs step s (as ++ bs) = runs step s' bs := by
  induction as generalizing s with
  | nil =>
    cases h
    rfl
  | cons b as ih =>
    obtain ⟨s₁, hs, hr⟩ := bind_ok.1 h
    rw [List.cons_append, runs, hs]
    exact ih hr

theorem runs_singleton (s : σ) (a : α') : runs step s [a] = step s a := by
  rw [runs]
  cases step s a <;> rfl

theorem Always.append {as bs : List α'} {s' : σ} (h : Always step ok s as) (hr : runs step s as = .ok s')
    (hb : Always step ok s' bs) : Always step ok s (as ++ bs) := by
  induction as generalizing s with
  | nil =>
    cases hr
    exact hb
  | cons a as ih =>
    obtain ⟨s₁, hs, hr⟩ := bind_ok.1 hr
    rw [List.cons_append, always_cons]
    obtain ⟨ha, h⟩ := always_cons.1 h
    exact ⟨ha, fun s₂ hs₂ => ih (h s₂ hs₂) (by rw [hs] at hs₂; cases hs₂; exact hr)⟩

theorem runs_invariant (Inv : σ → Prop) (hstep : ∀ s a s', Inv s → ok s a → step s a = .ok s' → Inv s') :
    ∀ {as : List α'} {s s' : σ}, Inv s → Always step ok s as → runs step s as = .ok s' → Inv s' := by
  intro as
  induction as with
  | nil =>
    intro s s' hi _ hr
    cases hr
    exact hi
  | cons a as ih =>
    intro s s'' hi ha hr
    rw [always_cons] at ha
    obtain ⟨s', hs, hr'⟩ := bind_ok.1 hr
    exact ih (hstep s a s' hi ha.1 hs) (ha.2 s' hs) hr'

theorem runs_preserves (Inv : σ → Prop) (hstep : ∀ s a s', Inv s → step s a = .ok s' → Inv s') :
    ∀ {as : List α'} {s s' : σ}, Inv s → runs step s as = .ok s' → Inv s' := by
  intro as
  induction as with
  | nil =>
    intro s s' hi hr
    cases hr
    exact hi
  | cons a as ih =>
    intro s s'' hi hr
    obtain ⟨s', hs, hr'⟩ := bind_ok.1 hr
    exact ih (hstep s a s' hi hs) hr'

/-- Where no allowed step fails, no run of allowed steps does. -/
theorem runs_total (Inv : σ → Prop) (hstep : ∀ s a, Inv s → ok s a → ∃ s', step s a = .ok s' ∧ Inv s') :
    ∀ {as : List α'} {s : σ}, Inv s → Always step ok s as → ∃ s', runs step s as = .ok s' ∧ Inv s' := by
  intro as
  induction as with
  | nil => exact fun {s} hi _ => ⟨s, rfl, hi⟩
  | cons a as ih =>
    intro s hi hok
    obtain ⟨ha, hrest⟩ := always_cons.1 hok
    obtain ⟨s₁, hs, hi₁⟩ := hstep s a hi ha
    obtain ⟨s', hr, hi'⟩ := ih hi₁ (hrest s₁ hs)
    exact ⟨s', bind_ok.2 ⟨s₁, hs, hr⟩, hi'⟩

/-- A run whose steps all avoid a fault avoids it. -/
theorem runs_avoids (Inv : σ → Prop) (hstep : ∀ s a s', Inv s → ok s a → step s a = .ok s' → Inv s')
    (havoid : ∀ s a, Inv s → ok s a → Avoids e (step s a)) :
    ∀ {as : List α'} {s : σ}, Inv s → Always step ok s as → Avoids e (runs step s as) := by
  intro as
  induction as with
  | nil => exact fun _ _ => avoids_ok _
  | cons a as ih =>
    intro s h0 hok
    obtain ⟨ha, hrest⟩ := always_cons.1 hok
    rw [runs, avoids_bind]
    exact ⟨havoid s a h0 ha, fun s' hs => ih (hstep s a s' h0 ha hs) (hrest s' hs)⟩

theorem runs_ensures (Inv : σ → Prop) (hstep : ∀ s a, Inv s → Ensures e Inv (step s a)) :
    ∀ {as : List α'} {s : σ}, Inv s → Ensures e Inv (runs step s as) := by
  intro as
  induction as with
  | nil => exact fun h => ensures_ok h
  | cons a as ih => exact fun {s} h => (hstep s a h).bind fun s' _ h' => ih h'

end Runs

end DynamicCache.Lib
