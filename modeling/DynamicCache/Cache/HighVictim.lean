import DynamicCache.Cache.Resize

/-!
# The victim of a High miss in `F_DynamicCache`

`F_DYNALRU` has a `findVictim` of its own that is meant to give High an invalid
frame of the set: first one of High's, then one of Low's, and the least recently
used frame of High only when there is none.  It is not virtual and the cache calls
`LRU::findVictim`, which always takes High's least recently used frame.

So a High miss gets the frame it should exactly when High has an invalid frame in the
set or Low has none, and High's block is not waiting for an upgrade: then the fill goes
to `tempBlock` (`handleFill_high`).  In `high_evicts_beside_free` it evicts a block
while all of Low is free.
-/

namespace DynamicCache.Cache.FDynamic

open Lib Tags

/-- The invalid frames of a partition in the set of an address. -/
def free (s : Lru) (addr tc : Nat) : List Nat :=
  (s.getSet (s.geo.extractSet addr) tc).filter fun f => !(s.blks f).isValid

/-- The frames a High miss should get. -/
def HighVictim (s : Lru) (addr f : Nat) : Prop :=
  if free s addr 1 ≠ [] then f ∈ free s addr 1
  else if free s addr 0 ≠ [] then f ∈ free s addr 0
  else (s.getSet (s.geo.extractSet addr) 1).getLast? = some f

instance (s : Lru) (addr f : Nat) : Decidable (HighVictim s addr f) :=
  inferInstanceAs (Decidable (ite _ _ (ite _ _ _)))

/-- High has one way of every set. -/
structure Ways (g : Geometry) (s : State Unit) : Prop where
  fit : Fit g s
  assocOfTc : s.store.tags.assocOfTc = FDynaLru.assocOfTc g.assoc

theorem effect_assocOfTc {c : Control} {pkt : Packet} {st st' : Storage Unit} {wbs : List Packet}
    (hF : Lru.Frames 2 st.tags) (he : Storage.Effect policy c pkt st st' wbs) :
    st'.tags.assocOfTc = st.tags.assocOfTc := by
  obtain hq | ⟨f, s₁, s₂, hp⟩ := he.place lawful hF.nodup
  · exact hq.assocOfTc
  · exact hp.after.assocOfTc.trans (hp.placed.assocOfTc.trans hp.before.assocOfTc)

theorem step_ways {g : Geometry} {s s' : State Unit} {a : Act} (hI : Ways g s) (h : step s a = .ok s') :
    Ways g s' := by
  refine ⟨step_fit hI.fit h, ?_⟩
  obtain ⟨-, rfl⟩ | ⟨b, -, hb⟩ := step_cases hI.fit h
  · exact hI.assocOfTc
  · obtain he | ⟨c, pkt, wbs, he⟩ := (step_moves lawful hI.fit.sound hb).effect
    · rw [he]
      exact hI.assocOfTc
    · exact (effect_assocOfTc hI.fit.sound.frames he).trans hI.assocOfTc

theorem runs_ways {cfg : Config} {geo : Geometry} {maxMasters mshrs writeBuffers : Nat} {as : List Act}
    {s : State Unit} (hr : runs step (init cfg geo maxMasters mshrs writeBuffers) as = .ok s) : Ways geo s :=
  runs_preserves (Ways geo) (fun _ _ _ => step_ways) ⟨fit_init cfg geo maxMasters mshrs writeBuffers, rfl⟩ hr

/-- The victim is the only frame of High in the set. -/
theorem Ways.victim {g : Geometry} {s : State Unit} (hI : Ways g s) (addr : Nat) :
    ∃ f, s.store.tags.getSet (s.store.tags.geo.extractSet addr) 1 = [f] ∧
      s.store.tags.findVictim addr 1 = some f := by
  have hone : s.store.tags.assocOfTc 1 = 1 := by rw [hI.assocOfTc]; rfl
  have hlen := hI.fit.sound.frames.len 1 (s.store.tags.geo.extractSet addr) (by decide)
    (s.store.tags.geo.extractSet_lt addr)
  rw [hone] at hlen
  obtain ⟨f, hf⟩ := List.length_eq_one_iff.1 hlen
  refine ⟨f, hf, ?_⟩
  rw [Lru.findVictim, hone, if_neg (by decide)]
  show (s.store.tags.sets 1 (s.store.tags.geo.extractSet addr))[0]? = some f
  rw [hf]
  rfl

theorem highVictim_iff {s : Lru} {addr f : Nat} (hf : s.getSet (s.geo.extractSet addr) 1 = [f]) :
    HighVictim s addr f ↔ free s addr 1 ≠ [] ∨ free s addr 0 = [] := by
  by_cases hv : (s.blks f).isValid = true
  · have h1 : free s addr 1 = [] := by simp [free, hf, hv]
    have hlow : f ∉ free s addr 0 := by simp [free, hv]
    rw [HighVictim, h1, hf]
    by_cases h0 : free s addr 0 = []
    · simp [h0]
    · simp [h0, hlow]
  · have h1 : free s addr 1 = [f] := by simp [free, hf, hv]
    simp [HighVictim, h1]

/-- The fill of a High miss. -/
abbrev fill (s : State Unit) (c : Control) (pkt : Packet) : Res (Storage Unit × BlkRef × List Packet) :=
  s.store.handleFill policy c s.now pkt none

/-- High's block 0 makes room for block 4, and both frames of Low are free. -/
theorem high_evicts_beside_free :
    ∃ s, runs step (init Small.cfg (Small.geo 3 (by decide)) 1 4 4) ((Small.load 1 0 false).map .cache) = .ok s ∧
      policy.lookup s.store.tags 4 1 = none ∧
      ∃ r f, fill s s.ctl { Small.packet .readReq 1 4 4 0 with cmd := .readResp } = .ok r ∧ r.2.1 = .frame f ∧
        (free s.store.tags 4 0).length = 2 ∧ ¬HighVictim s.store.tags 4 f := by
  refine exists_ok (fun s => policy.lookup s.store.tags 4 1 = none ∧ (free s.store.tags 4 0).length = 2 ∧
    ∃ r, fill s s.ctl { Small.packet .readReq 1 4 4 0 with cmd := .readResp } = .ok r ∧ r.2.1 = .frame 2 ∧
      ¬HighVictim s.store.tags 4 2) (by decide +kernel) ?_
  rintro s - ⟨hl, hfree, r, hr, hf, hv⟩
  exact ⟨hl, r, 2, hr, hf, hfree, hv⟩

/-- In every reachable state there is a victim for a High miss, and its fill allocates the
frame it should exactly when High has an invalid frame in the set or Low has none, and the
victim does not wait for an upgrade. -/
theorem handleFill_high (cfg : Config) (geo : Geometry) (maxMasters mshrs writeBuffers : Nat) (as : List Act)
    {s : State Unit} (hr : runs step (init cfg geo maxMasters mshrs writeBuffers) as = .ok s) (addr : Nat) :
    (∃ f, s.store.tags.findVictim addr 1 = some f) ∧
      ∀ c pkt st b wbs, pkt.addr = addr → pkt.threadID = 1 → fill s c pkt = .ok (st, b, wbs) →
        ((∃ f, b = .frame f ∧ HighVictim s.store.tags addr f) ↔
          (free s.store.tags addr 1 ≠ [] ∨ free s.store.tags addr 0 = []) ∧ ¬Storage.Waits c addr 1 s.store) := by
  obtain ⟨f, hset, hv⟩ := (runs_ways hr).victim addr
  refine ⟨⟨f, hv⟩, fun c pkt st b wbs ha ht hfill => ?_⟩
  obtain ⟨f₀, h0, -⟩ | ⟨-, -, f', s₁, tags, rfl, hvic, -⟩ | ⟨-, -, rfl, -, hwait, -⟩ := Storage.handleFill_cases hfill
  · cases h0
  · rw [ha, ht] at hvic
    obtain rfl : f = f' := Option.some.inj (hv.symm.trans hvic.victim)
    have hready : ¬Storage.Waits c addr 1 s.store := by
      rintro ⟨g, hg, hvalid, hmatch⟩
      obtain rfl : f = g := Option.some.inj (hv.symm.trans hg)
      rw [hvic.free hvalid] at hmatch
      cases hmatch
    rw [and_iff_left hready, ← highVictim_iff hset]
    constructor
    · rintro ⟨g, hg, h⟩
      cases hg
      exact h
    · exact fun h => ⟨f, rfl, h⟩
  · rw [ha, ht] at hwait
    constructor
    · rintro ⟨g, hg, -⟩
      cases hg
    · exact fun h => absurd hwait h.2

/-- Low's two blocks and High's block fill the set, and the next High miss evicts High's. -/
theorem handleFill_high_full :
    ∃ s, runs step (init Small.cfg (Small.geo 3 (by decide)) 1 4 4)
        ((Small.load 0 0 false ++ Small.load 0 4 false ++ Small.load 1 8 false).map .cache) = .ok s ∧
      ∃ r, fill s s.ctl { Small.packet .readReq 1 12 4 0 with cmd := .readResp } = .ok r ∧
        ∃ f, r.2.1 = .frame f ∧ (s.store.tags.blks f).isValid = true ∧ HighVictim s.store.tags 12 f := by
  refine exists_ok (fun s => (free s.store.tags 12 0 = [] ∧ s.store.tags.findVictim 12 1 = some 2 ∧
      (s.store.tags.blks 2).isValid = true ∧ (s.ctl.mshrQueues (s.store.tags.blks 2).threadID).findMatch
        (s.store.tags.geo.regenerateBlkAddr (s.store.tags.blks 2).tag (s.store.tags.blks 2).set) = none) ∧
    ∃ r, fill s s.ctl { Small.packet .readReq 1 12 4 0 with cmd := .readResp } = .ok r ∧ r.2.1 = .frame 2)
    (by decide +kernel) ?_
  rintro s hs ⟨⟨hlow, hv, hvalid, hidle⟩, ⟨st, b, wbs⟩, hr, hb⟩
  have hready : ¬Storage.Waits s.ctl 12 1 s.store := by
    rintro ⟨f, hf, -, hmatch⟩
    obtain rfl : 2 = f := Option.some.inj (hv.symm.trans hf)
    rw [hidle] at hmatch
    cases hmatch
  obtain ⟨f, hf, hvictim⟩ := ((handleFill_high Small.cfg (Small.geo 3 (by decide)) 1 4 4 _ hs 12).2 _ _ st b wbs
    rfl rfl hr).2 ⟨.inr hlow, hready⟩
  obtain rfl : 2 = f := by
    have := hb.symm.trans hf
    cases this
    rfl
  exact ⟨_, hr, 2, hf, hvalid, hvictim⟩

end DynamicCache.Cache.FDynamic
