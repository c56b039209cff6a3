import DynamicCache.Dram.Controller

/-!
# Banks between commands, and the power of ranks (`MemoryController::update`)

A row stays open until a command closes it (`Activated`), and a bank that is idle or
powered down counts nothing down (`Calm`).  At the end of a cycle a rank without
commands whose banks are all idle is powered down, and a rank that is needed again is
powered up; neither touches an open row (`State.powerChecks_rested`).
-/

namespace DynamicCache.Dram

/-! ## Banks -/

/-- A row that was opened and has not been read or written. -/
def Activated (b : BankState) : Prop := b.currentBankState = .rowActive ∧ b.lastCommand = .activate

/-- A bank that is idle or powered down does not count down. -/
def Calm (b : BankState) : Prop :=
  b.currentBankState = .idle ∨ b.currentBankState = .powerDown → b.stateChangeCountdown = 0

section Banks

variable {t : Timing} {now : Nat} {b : BankState} {p : BusPacket}

theorem Activated.tick (h : Activated b) : Activated (b.tick t) := by
  obtain ⟨st, row, nr, nw, na, np, last, n⟩ := b
  obtain ⟨rfl, rfl⟩ := h
  simp only [BankState.tick]
  repeat' split
  all_goals exact ⟨rfl, rfl⟩

theorem Calm.tick (h : Calm b) : Calm (b.tick t) := by
  simp only [Calm, BankState.tick] at h ⊢
  repeat' split
  all_goals simp_all

theorem tick_powerDown (h : Calm b) (hd : b.currentBankState = .powerDown) : b.tick t = b := by
  unfold BankState.tick
  rw [if_neg (by rw [h (.inr hd)]; omega)]

theorem rowActive_of_tick (h : (b.tick t).currentBankState = .rowActive) :
    b.currentBankState = .rowActive := by
  revert h
  unfold BankState.tick
  dsimp only
  repeat' split
  all_goals first | exact id | exact nofun

theorem Activated.congr {b' : BankState} (h : Activated b) (he : b'.phase = b.phase) : Activated b' := by
  simp only [BankState.phase, Prod.mk.injEq] at he
  exact ⟨he.1.trans h.1, he.2.1.trans h.2⟩

theorem Calm.congr {b' : BankState} (h : Calm b) (he : b'.phase = b.phase) : Calm b' := by
  simp only [BankState.phase, Prod.mk.injEq] at he
  unfold Calm at h ⊢
  rw [he.1, he.2.2]
  exact h

theorem activated_after_activate (hp : p.busPacketType = .activate) : Activated (b.after t now p p.rank p.bank) := by
  simp [BankState.after, hp, BankState.afterActivate, Activated]

/-- A column command leaves the row open for now. -/
theorem state_after_column (hp : p.busPacketType = .read ∨ p.busPacketType = .readP ∨ p.busPacketType = .write ∨
      p.busPacketType = .writeP) (i j : Nat) :
    (b.after t now p i j).currentBankState = b.currentBankState := by
  rcases hp with hp | hp | hp | hp <;> simp only [BankState.after, hp, BankState.afterRead, BankState.afterWrite]
  all_goals
    repeat' split
    all_goals rfl

theorem after_refresh_of_ne (hp : p.busPacketType = .refresh) {i : Nat} (hi : i ≠ p.rank) (j : Nat) :
    b.after t now p i j = b := by
  simp [BankState.after, hp, BankState.afterRefresh, hi]

theorem state_after_refresh (hp : p.busPacketType = .refresh) (j : Nat) :
    (b.after t now p p.rank j).currentBankState = .refreshing := by
  simp [BankState.after, hp, BankState.afterRefresh]

/-- What a command to another bank leaves alone. -/
theorem after_of_ne {i j : Nat} (hp : p.busPacketType ≠ .refresh) (hne : ¬(i = p.rank ∧ j = p.bank)) :
    (b.after t now p i j).currentBankState = b.currentBankState ∧ (b.after t now p i j).lastCommand = b.lastCommand ∧
      (b.after t now p i j).openRowAddress = b.openRowAddress := by
  obtain ⟨hph, hrow⟩ : (b.after t now p i j).phase = b.phase ∧ _ := BankState.after_phase_of_ne hp hne
  simp only [BankState.phase, Prod.mk.injEq] at hph
  exact ⟨hph.1, hph.2.1, hrow⟩

/-- A command to another bank changes nothing about an open row. -/
theorem Activated.after_of_ne {i j : Nat} (h : Activated b) (hp : p.busPacketType ≠ .refresh)
    (hne : ¬(i = p.rank ∧ j = p.bank)) : Activated (b.after t now p i j) :=
  h.congr (BankState.after_phase_of_ne hp hne).1

end Banks

/-! ## Banks that are powered down -/

/-- Of the banks, in a rank that is powered down and elsewhere. -/
structure Rested {π : Type} (c : Config) (s : State π) : Prop where
  calm : ∀ r b, Calm (s.bankStates r b)
  down : ∀ r, s.powerDown r = true → ∀ b < c.numBanks, (s.bankStates r b).currentBankState = .powerDown

/-- What the methods of a scheduler leave alone. -/
def Unpowered {π : Type} (s s' : State π) : Prop := s'.bankStates = s.bankStates ∧ s'.powerDown = s.powerDown

/-- A command that is for no bank that is powered down. -/
def Awake {π : Type} (c : Config) (s : State π) (p : BusPacket) : Prop :=
  match p.busPacketType with
  | .refresh => (s.bankStates p.rank 0).currentBankState ≠ .powerDown
  | .activate => p.bank < c.numBanks ∧ (s.bankStates p.rank p.bank).currentBankState ≠ .powerDown
  | _ => p.bank < c.numBanks ∧ (s.bankStates p.rank p.bank).currentBankState = .rowActive

section Rested

variable {π : Type} {c : Config} {s s' : State π} {p : BusPacket}

theorem awake_of_isIssuable (hb : p.bank < c.numBanks) (hi : s.isIssuable c p = true) : Awake c s p := by
  unfold State.isIssuable at hi
  unfold Awake
  split at hi
  case h_1 => cases hi
  case h_2 heq =>
    rw [heq]
    refine ⟨hb, fun hc => ?_⟩
    rcases (of_decide_eq_true hi).1 with h | h <;> rw [hc] at h <;> cases h
  all_goals
    next heq =>
    rw [heq]
    first | exact ⟨hb, (of_decide_eq_true hi).1.1⟩ | exact ⟨hb, (of_decide_eq_true hi).1⟩

theorem Rested.ready (h : Rested c s) (refresh : Option Nat) : Rested c (s.ready c refresh) where
  calm r b := (h.calm r b).tick
  down r hr b hb := by
    show ((s.bankStates r b).tick c.timing).currentBankState = _
    rw [tick_powerDown (h.calm r b) (h.down r hr b hb)]
    exact h.down r hr b hb

theorem Rested.refresh (h : Rested c s) (hs : Unpowered s s') (hb : 0 < c.numBanks)
    (hp : p.busPacketType = .refresh) (hup : (s.bankStates p.rank 0).currentBankState ≠ .powerDown) :
    Rested c (s'.finish c p) := by
  constructor
  · intro r b
    rw [State.finish_bankStates, hs.1]
    by_cases hr : r = p.rank
    · subst hr
      intro hc
      rcases hc with hc | hc <;> rw [state_after_refresh hp b] at hc <;> cases hc
    · rw [after_refresh_of_ne hp hr]
      exact h.calm r b
  · intro r hr b hbr
    rw [State.finish_powerDown, hs.2] at hr
    have hne : r ≠ p.rank := by
      rintro rfl
      exact hup (h.down _ hr 0 hb)
    rw [State.finish_bankStates, hs.1, after_refresh_of_ne hp hne]
    exact h.down r hr b hbr

/-- The bank of the command is busy after it. -/
theorem Rested.command (h : Rested c s) (hs : Unpowered s s')
    (hp : p.busPacketType ≠ .refresh) (hb : p.bank < c.numBanks)
    (hup : (s.bankStates p.rank p.bank).currentBankState ≠ .powerDown)
    (hself : ((s.bankStates p.rank p.bank).after c.timing s'.currentClockCycle p p.rank p.bank).currentBankState =
        .rowActive ∨
      ((s.bankStates p.rank p.bank).after c.timing s'.currentClockCycle p p.rank p.bank).currentBankState =
        .precharging) : Rested c (s'.finish c p) := by
  constructor
  · intro r b
    rw [State.finish_bankStates, hs.1]
    by_cases hne : r = p.rank ∧ b = p.bank
    · obtain ⟨rfl, rfl⟩ := hne
      intro hc
      rcases hc with hc | hc <;> rw [hc] at hself <;> rcases hself with hs | hs <;> cases hs
    · exact (h.calm r b).congr (BankState.after_phase_of_ne hp hne).1
  · intro r hr b hbr
    rw [State.finish_powerDown, hs.2] at hr
    have hne : ¬(r = p.rank ∧ b = p.bank) := by
      rintro ⟨rfl, rfl⟩
      exact hup (h.down _ hr _ hb)
    rw [State.finish_bankStates, hs.1]
    exact (after_of_ne hp hne).1.trans (h.down r hr b hbr)

theorem Rested.finish (h : Rested c s) (hs : Unpowered s s') (hb : 0 < c.numBanks)
    (hp : Awake c s p) : Rested c (s'.finish c p) := by
  unfold Awake at hp
  split at hp
  · next ht => exact h.refresh hs hb ht hp
  · next ht =>
    exact h.command hs (by rw [ht]; nofun) hp.1 hp.2 (.inl (activated_after_activate ht).1)
  · next ht ht' =>
    refine h.command hs ht hp.1 (by rw [hp.2]; nofun) ?_
    cases htype : p.busPacketType with
    | refresh => exact absurd htype ht
    | activate => exact absurd htype ht'
    | precharge => exact .inr (by simp [BankState.after, htype, BankState.afterPrecharge])
    | _ => exact .inl ((state_after_column (by simp [htype]) ..).trans hp.2)

/-- A cycle whose command, if any, is for no bank that is powered down. -/
theorem Rested.conclude (h : Rested c s) {out : Option BusPacket × State π}
    (hs : Unpowered s out.2) (hb : 0 < c.numBanks) (hp : ∀ p ∈ out.1, Awake c s p) :
    Rested c (State.conclude c out).2 := by
  obtain ⟨_ | p, s'⟩ := out
  · exact ⟨fun r b => hs.1 ▸ h.calm r b, fun r hr b hbr => hs.1 ▸ h.down r (hs.2 ▸ hr) b hbr⟩
  · exact h.finish hs hb (hp p rfl)

end Rested

namespace State

variable {π : Type} {c : Config} {s s' : State π}

/-- No open row changed, before or after. -/
def KeepsOpen (s s' : State π) : Prop :=
  ∀ r b, (s.bankStates r b).currentBankState = .rowActive ∨ (s'.bankStates r b).currentBankState = .rowActive →
    s'.bankStates r b = s.bankStates r b

theorem KeepsOpen.trans {s'' : State π} (h : KeepsOpen s s') (h' : KeepsOpen s' s'') : KeepsOpen s s'' := by
  intro r b hb
  rcases hb with hb | hb
  · have h₁ := h r b (.inl hb)
    rw [h' r b (.inl (by rw [h₁]; exact hb)), h₁]
  · have h₂ := h' r b (.inr hb)
    rw [h₂, h r b (.inr (by rw [← h₂]; exact hb))]

/-- The banks of rank `i`, which has no open row, change. -/
theorem setBanks_rested (h : Rested c s) {i : Nat} {f : BankState → BankState}
    {powerDown : Nat → Bool} {nextPowerUp : Nat → Nat}
    (hclosed : ∀ b < c.numBanks, (s.bankStates i b).currentBankState ≠ .rowActive ∧
      (f (s.bankStates i b)).currentBankState ≠ .rowActive)
    (hcalm : ∀ b < c.numBanks, Calm (f (s.bankStates i b)))
    (hself : powerDown i = true → ∀ b < c.numBanks, (f (s.bankStates i b)).currentBankState = .powerDown)
    (hother : ∀ r ≠ i, powerDown r = s.powerDown r) :
    Rested c { s.setBanks c i f with powerDown := powerDown, nextPowerUp := nextPowerUp } ∧
      KeepsOpen s { s.setBanks c i f with powerDown := powerDown, nextPowerUp := nextPowerUp } := by
  refine ⟨⟨fun r b => ?_, fun r hr b hb => ?_⟩, fun r b hb => ?_⟩
  · show Calm (if r = i ∧ b < c.numBanks then _ else _)
    split
    · next he => exact he.1 ▸ hcalm b he.2
    · exact h.calm r b
  · show (if r = i ∧ b < c.numBanks then _ else _ : BankState).currentBankState = _
    by_cases hi : r = i
    · subst hi
      rw [if_pos ⟨rfl, hb⟩]
      exact hself hr b hb
    · rw [if_neg fun he => hi he.1]
      exact h.down r (hother r hi ▸ hr) b hb
  · show (if r = i ∧ b < c.numBanks then _ else _) = _
    change _ ∨ (if r = i ∧ b < c.numBanks then _ else _ : BankState).currentBankState = _ at hb
    split
    · next he =>
      obtain ⟨rfl, hlt⟩ := he
      rw [if_pos ⟨rfl, hlt⟩] at hb
      exact (hb.elim (hclosed b hlt).1 (hclosed b hlt).2).elim
    · rfl

theorem powerCheck_rested (h : Rested c s) (isEmpty : State π → Nat → Bool) (waiting : List Nat) (clock i : Nat) :
    Rested c (powerCheck c isEmpty waiting clock s i) ∧ KeepsOpen s (powerCheck c isEmpty waiting clock s i) := by
  unfold powerCheck
  split
  · split
    · next hidle =>
      refine setBanks_rested h (fun b hb => ?_) (fun b hb _ => ?_) (fun _ _ _ => rfl) fun r hr => ?_
      · rw [hidle b hb]
        exact ⟨nofun, nofun⟩
      · exact h.calm i b (.inl (hidle b hb))
      · exact Function.update_of_ne hr ..
    · exact ⟨h, fun _ _ _ => rfl⟩
  · split
    · next hup =>
      have hdown := h.down i hup.2
      refine setBanks_rested h (fun b hb => ?_) (fun b hb _ => ?_) (fun hc => ?_) fun r hr => ?_
      · rw [hdown b hb]
        exact ⟨nofun, nofun⟩
      · exact h.calm i b (.inr (hdown b hb))
      · rw [Function.update_self] at hc
        cases hc
      · exact Function.update_of_ne hr ..
    · exact ⟨h, fun _ _ _ => rfl⟩

theorem powerChecks_rested (h : Rested c s) (isEmpty : State π → Nat → Bool) (waiting : List Nat) (clock : Nat) :
    Rested c (s.powerChecks c isEmpty waiting clock) ∧ KeepsOpen s (s.powerChecks c isEmpty waiting clock) := by
  unfold powerChecks
  split
  · generalize List.range c.numRanks = ranks
    induction ranks generalizing s with
    | nil => exact ⟨h, fun _ _ _ => rfl⟩
    | cons i ranks ih =>
      obtain ⟨hok, hkeeps⟩ := powerCheck_rested h isEmpty waiting clock i
      obtain ⟨hok', hkeeps'⟩ := ih hok
      exact ⟨hok', hkeeps.trans hkeeps'⟩
  · exact ⟨h, fun _ _ _ => rfl⟩

end State

end DynamicCache.Dram
