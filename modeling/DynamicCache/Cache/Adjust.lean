import DynamicCache.Cache.Resize
import DynamicCache.Tags.UtilityMonitor

/-!
# What `adjustPartition` goes by

`C_DynamicCache` compares what one way more and one way less would be worth to
Low, from the counters of the monitor and a miss curve for High.  The counters
follow the accesses of Low over a whole run (`umon_follows`), so counter `k`
says what way `k + 1` is worth; `adjustPartition` reads the counters one place
further up (`adjustPartition_utilities`, `utilities_off_by_one`).

`F_DynamicCache` wants back the Low blocks that were not used for an interval.
It goes by the used bits, which nothing clears at the end of an interval, so it
takes none (`reclaims_iff_allUsed`, `unused_block_stays`).
-/

namespace DynamicCache.Cache

open Lib Tags Storage

variable {ε : Type}

/-! ## The part of the storage that only accesses change -/

namespace Storage

variable {s s' : Storage ε} {P : Policy ε} {c : Control} {pkt : Packet}

theorem satisfyWrite_ext (s : Storage ε) (pkt : Packet) (b : BlkRef) : (s.satisfyWrite pkt b).1.ext = s.ext := by
  have hp := (same_putBlk s b (checkWrite (s.blk b) pkt).1).ext
  unfold satisfyWrite
  simp only
  split
  · exact (same_putBlk _ b _).ext.trans hp
  · exact hp

theorem access_ext {cfg : Config} {now : Nat} {r : AccessResult ε} (h : s.access P cfg c now pkt = .ok r) :
    ∃ tags blk lat, P.accessBlock s.tags s.ext pkt.addr now pkt.threadID = some (tags, r.store.ext, blk, lat) := by
  cases access_outcome h with
  | @hit tags ext f lat s' pkt' ha hp hs =>
    refine ⟨tags, some f, lat, ?_⟩
    have he : s'.ext = ext := by
      by_cases hw : pkt.cmd = .writeback
      · rw [satisfyWriteback_eq hw hs, satisfyWrite_ext]
        rfl
      · exact ((satisfyCpuSideRequest_serve hs).1 hw).same.ext
    rw [he, ha]
  | onto ha hc => exact ⟨_, _, _, ha⟩
  | upgrade ha hp hc => exact ⟨_, _, _, ha⟩
  | @new tags tags' ext f lat s₁ wbs ha hc hv hi =>
    refine ⟨tags, none, lat, ?_⟩
    have he : s₁.ext = ext := (hv.serve (t := 0) (n := 0)).same.ext
    show _ = some (tags, s₁.ext, none, lat)
    rw [he, ha]
  | noRoom ha hc hw => exact ⟨_, _, _, ha⟩
  | failed ha hw => exact ⟨_, _, _, ha⟩
  | miss ha hc => exact ⟨_, _, _, ha⟩

theorem uncacheable_ext (h : s.uncacheable P pkt = .ok s') : s'.ext = s.ext := by
  obtain ⟨-, rfl⟩ | ⟨-, -, -, rfl⟩ | ⟨-, -, f, -, hi⟩ | ⟨-, -, rfl⟩ := uncacheable_cases h
  · rfl
  · rfl
  · exact (invalidateBlk_same hi).ext
  · rfl

theorem fillBlock_ext {b : BlkRef} {blkH : Option Nat} (h : s.fillBlock P pkt b blkH = .ok s') : s'.ext = s.ext := by
  have hm : ∀ (s : Storage ε) (k : CacheBlk → CacheBlk), (s.modify b k).ext = s.ext := fun s k =>
    (same_putBlk s b _).ext
  simp only [fillBlock, bind_ok] at h
  obtain ⟨s₁, h1, h⟩ := h
  cases h
  rw [hm]
  unfold fillData at h1
  split at h1
  · split at h1
    · cases h1
      exact (hm _ _).trans (hm _ _)
    · exact (invalidateBlk_same h1).ext.trans ((hm _ _).trans (hm _ _))
  · cases h1
    exact hm _ _

theorem Response.ext {wbs : List Packet} (h : Response P c pkt s s' wbs) : s'.ext = s.ext := by
  cases h with
  | same => rfl
  | filled hk hf hs hc =>
    rw [(State.clearTemp_serve (t := 0) (n := 0) hc).1.same.ext, hs.same.ext]
    obtain ⟨f, -, rfl, -, -, hfill⟩ | ⟨-, -, f, s₁, tags, rfl, hv, -, hfill⟩ | ⟨-, -, rfl, -, -, -, hfill⟩ :=
      handleFill_cases hf
    · exact (fillBlock_ext hfill).trans rfl
    · exact (fillBlock_ext hfill).trans (hv.serve (t := 0) (n := 0)).same.ext
    · exact (fillBlock_ext hfill).trans rfl
  | found hl hs => exact hs.same.ext

theorem Snooped.ext (h : Snooped P pkt s s') : s'.ext = s.ext := by
  obtain rfl | ⟨f, -, hs⟩ := h
  · rfl
  · exact hs.same.ext

end Storage

namespace State

variable {s s' : State ε} {P : Policy ε} {pkt : Packet}

theorem accessed_ext {r : AccessResult ε} (h : s.accessed r = .ok s') : s'.store.ext = r.store.ext := by
  unfold accessed at h
  split at h
  · rw [(satisfied_store h).1]
    unfold usePrefetched
    split
    · split <;> rfl
    · rfl
  · obtain h | ⟨-, h⟩ | ⟨-, h⟩ := missed_store h
    · rw [h]
    · rw [h]
      rfl
    · cases hb : r.blk with
      | none =>
        rw [hb] at h
        rw [hideBlock_none h]
      | some f =>
        rw [hb] at h
        exact (hideBlock_serve (x := false) (t := 0) (n := 0) h).same.ext

/-- A request that `access` looks up: the port takes it, no other cache answers
it, and it is cacheable. -/
def looksUp (s : State ε) (pkt : Packet) : Bool :=
  !s.ctl.portBlocked pkt.threadID && !pkt.isResponse && !pkt.memInhibitAsserted && !pkt.req.isUncacheable

theorem recvTimingReq_looksUp (hl : s.looksUp pkt = true) (h : s.recvTimingReq P pkt = .ok s') :
    ∃ tags blk lat, P.accessBlock s.store.tags s.store.ext pkt.addr s.now pkt.threadID =
      some (tags, s'.store.ext, blk, lat) := by
  simp only [looksUp, Bool.and_eq_true, Bool.not_eq_true'] at hl
  obtain ⟨⟨⟨hb, hr⟩, hi⟩, hu⟩ := hl
  simp only [recvTimingReq, timingAccess, hb, hr, hi, hu, Bool.not_false, Bool.and_false, Bool.false_eq_true, if_false,
    cacheableAccess, bind_ok] at h
  obtain ⟨-, -, r, hacc, s₁, hs, ctl, -, h⟩ := h
  cases h
  obtain ⟨tags, blk, lat, ha⟩ := access_ext hacc
  exact ⟨tags, blk, lat, (accessed_ext hs).symm ▸ ha⟩

theorem recvTimingReq_passes (hl : s.looksUp pkt = false) (h : s.recvTimingReq P pkt = .ok s') :
    s'.store.ext = s.store.ext := by
  unfold recvTimingReq timingAccess at h
  split at h
  · cases h
    rfl
  · next hb =>
    split at h
    · cases h
      rfl
    · next hr =>
      simp only [bind_ok] at h
      obtain ⟨-, -, h⟩ := h
      split at h
      · simp only [inhibited, bind_ok] at h
        obtain ⟨-, -, h⟩ := h
        split at h <;> cases h <;> rfl
      · next hi =>
        split at h
        · simp only [uncacheableAccess, bind_ok] at h
          obtain ⟨store, hs, ⟨ctl, ref⟩, -, -, -, h⟩ := h
          cases h
          exact uncacheable_ext hs
        · next hu => simp [looksUp, hr, hi, hu] at hl hb; exact absurd hl (by simp [hb])

end State

/-! ## The decision of `C_DynamicCache` -/

namespace CDynamic

variable {s s' : State Ext} {g : Geometry}

/-- `curr_L_assoc` -/
def currLAssoc (s : State Ext) : Nat := (tagsOf s).lAssoc

/-- `H_assoc` of `adjustPartition` -/
def currHAssoc (s : State Ext) : Nat := s.geo.assoc - currLAssoc s

/-- `lookup_umon`: an `unsigned` counter, and none outside the array. -/
def lookupUmon (s : State Ext) (index : Nat) : Option Nat :=
  if index < s.geo.assoc then some (s.store.ext.umon.counters index % 2 ^ 32) else none

/-- A miss curve of integers.  The source has `float`s, which hold these and their
differences exactly. -/
structure MissCurve where
  misses : Nat → Int
  exact : ∀ i, -2 ^ 23 ≤ misses i ∧ misses i ≤ 2 ^ 23

/-- An `unsigned` sum that is assigned to an `int`. -/
def toInt (x : Int) : Int := x.bmod (2 ^ 32)

/-- `Uinc` of `adjustPartition` -/
def uinc (s : State Ext) (missCurve : MissCurve) : Option Int :=
  if currLAssoc s = s.geo.assoc then some 0
  else
    (lookupUmon s (currLAssoc s + 1)).map fun n : Nat =>
      toInt (n + (missCurve.misses (currHAssoc s) - missCurve.misses (currHAssoc s - 1)))

/-- `Udec` of `adjustPartition` -/
def udec (s : State Ext) (missCurve : MissCurve) : Option Int :=
  if currLAssoc s = 0 then some 0
  else
    (lookupUmon s (currLAssoc s)).map fun n : Nat =>
      toInt (0 - n + (missCurve.misses (currHAssoc s) - missCurve.misses (currHAssoc s + 1)))

/-- The two tests of `adjustPartition`. -/
def decision (uinc udec : Int) : Decision :=
  if 0 < uinc ∧ udec ≤ uinc then .inc else if 0 < udec ∧ uinc ≤ udec then .dec else .keep

/-- `adjustPartition` with the decision it takes. -/
def adjustPartitionBy (s : State Ext) (missCurve : MissCurve) : Res (State Ext) := do
  let ui ← orFail .outOfArray (uinc s missCurve)
  let ud ← orFail .outOfArray (udec s missCurve)
  adjustPartition s (decision ui ud)

/-- So a run may leave the decisions open. -/
theorem adjustPartitionBy_step {missCurve : MissCurve} (h : adjustPartitionBy s missCurve = .ok s') :
    ∃ d, step s (.adjustPartition d) = .ok s' := by
  simp only [adjustPartitionBy, bind_ok] at h
  obtain ⟨ui, -, ud, -, h⟩ := h
  exact ⟨_, h⟩

/-! ## What the monitor sees in a run -/

/-- What a step is to a tag array that is fed Low's accesses. -/
def lowEvent (s : State Ext) : Act → List (Event Nat Nat)
  | .cache (.recvTimingReq pkt) =>
    if s.looksUp pkt ∧ pkt.threadID = 0 then [.access (s.geo.extractSet pkt.addr) (s.geo.extractTag pkt.addr)] else []
  | .cache _ => []
  | .adjustPartition _ => [.reset]

/-- What a run is to it. -/
def lowHistory (s : State Ext) : List Act → List (Event Nat Nat)
  | [] => []
  | a :: as =>
    lowEvent s a ++
      match step s a with
      | .error _ => []
      | .ok s' => lowHistory s' as

/-- The hits that Low would have had with `k` ways since the last adjustment. -/
def lowHits (s : State Ext) (as : List Act) (k : Nat) : Nat := (TagArray.run k (lowHistory s as)).hits

theorem writebackNow_ext {f tid : Nat} (h : s.writebackNow f tid = .ok s') : s'.store.ext = s.store.ext := by
  unfold State.writebackNow at h
  split at h
  · simp only [bind_ok] at h
    obtain ⟨⟨store, wb⟩, hw, ⟨ctl, ref⟩, -, h⟩ := h
    cases h
    obtain ⟨-, -, rfl, -⟩ := writebackBlk_ok hw
    exact (same_putBlk _ _ _).ext
  · cases h
    rfl

/-- The loops that follow the move of the frames leave the monitor alone. -/
theorem umon_of_loop {body : State Ext → Nat → Res (State Ext)} {n : Nat}
    (hbody : ∀ x x' i, body x i = .ok x' → x'.store.ext = x.store.ext) (h : forLoop body n s = .ok s') :
    s'.store.ext.umon = s.store.ext.umon := by
  refine forLoop_invariant (fun _ x => x.store.ext.umon = s.store.ext.umon) (fun i x x' _ hx hb => ?_) rfl h
  rw [hbody x x' i hb]
  exact hx

/-- Both resizes of the tag store only move frames. -/
theorem umon_of_resized {a b : Prop} [Decidable a] [Decidable b] {t t' : CDynaLru} {moved : Option Lru} {k n : Nat}
    (h : (if a then some (t, 0) else if b then none else moved.map fun lru => ({ t with lru := lru }, k)) =
      some (t', n)) : t'.umon = t.umon := by
  split at h
  · cases h
    rfl
  · split at h
    · cases h
    · obtain ⟨lru, -, he⟩ := Option.map_eq_some_iff.1 h
      cases he
      rfl

theorem incSize_umon (h : incSize s = .ok s') : s'.store.ext.umon = s.store.ext.umon := by
  simp only [incSize, bind_ok, orFail_ok] at h
  obtain ⟨⟨t, n⟩, ht, h⟩ := h
  have hbody : ∀ x x' i, incSet x i = .ok x' → x'.store.ext = x.store.ext := by
    intro x x' i hb
    simp only [incSet, bind_ok] at hb
    obtain ⟨f, -, hb⟩ := hb
    exact writebackNow_ext hb
  rw [umon_of_loop hbody h]
  exact umon_of_resized ht

theorem decSize_umon (h : decSize s = .ok s') : s'.store.ext.umon = s.store.ext.umon := by
  simp only [decSize, bind_ok, orFail_ok] at h
  obtain ⟨⟨t, n⟩, ht, h⟩ := h
  have hbody : ∀ x x' i, decSet x i = .ok x' → x'.store.ext = x.store.ext := by
    intro x x' i hb
    simp only [decSet, bind_ok] at hb
    obtain ⟨f, -, hb⟩ := hb
    split at hb
    · simp only [bind_ok] at hb
      obtain ⟨y, hy, store, hst, hb⟩ := hb
      cases hb
      exact (invalidateBlk_same hst).ext.trans (writebackNow_ext hy)
    · cases hb
      rfl
  rw [umon_of_loop hbody h]
  exact umon_of_resized ht

theorem adjustPartition_umon {d : Decision} (hg : s'.geo = g) (h : adjustPartition s d = .ok s') :
    s'.store.ext.umon = s.store.ext.umon.reset g.assoc := by
  simp only [adjustPartition, bind_ok] at h
  obtain ⟨s₁, hr, h⟩ := h
  cases h
  have hu : s₁.store.ext.umon = s.store.ext.umon := by
    cases d with
    | inc => exact incSize_umon hr
    | dec => exact decSize_umon hr
    | keep =>
      cases hr
      rfl
  rw [hu, show s₁.geo = g from hg]

/-- What is known about the monitor after the events `es`. -/
structure Monitored (g : Geometry) (s : State Ext) (es : List (Event Nat Nat)) : Prop where
  sound : Sound 2 g s
  follows : Umon.Follows g.assoc g.numSets s.store.ext.umon (Stack.run g.assoc es)

variable {es : List (Event Nat Nat)}

/-- A request of Low that is looked up is one access of the monitor. -/
theorem Monitored.request {pkt : Packet} (hM : Monitored g s es)
    (h : s.step policy (.recvTimingReq pkt) = .ok s') : Umon.Follows g.assoc g.numSets s'.store.ext.umon
      (Stack.run g.assoc (es ++ lowEvent s (.cache (.recvTimingReq pkt)))) := by
  have hgeo : s.store.tags.geo = g := hM.sound.geo
  cases hl : s.looksUp pkt with
  | false =>
    have he : s'.store.ext = s.store.ext := State.recvTimingReq_passes (by exact hl) h
    rw [lowEvent, hl, if_neg (by simp), List.append_nil, he]
    exact hM.follows
  | true =>
    obtain ⟨tags, blk, lat, ha⟩ := State.recvTimingReq_looksUp (by exact hl) h
    simp only [policy, Option.map_eq_some_iff, CDynaLru.accessBlock] at ha
    obtain ⟨⟨t, blk', lat'⟩, ha, hp⟩ := ha
    have hext : s'.store.ext.umon = t.umon := by
      have he := congrArg (fun r => r.2.1) hp
      exact (congrArg Ext.umon he).symm
    rw [hext]
    split at ha
    · cases ha
    · split at ha
      · next ht =>
        obtain ⟨u, hu, he⟩ := Option.map_eq_some_iff.1 ha
        cases he
        rw [lowEvent, if_pos ⟨hl, ht⟩, Stack.run_concat]
        obtain ⟨u', hu', hf⟩ := hM.follows.access (g.extractSet_lt pkt.addr) g.assoc_pos
        rw [hgeo, hu'] at hu
        cases hu
        rw [State.geo, hgeo]
        exact hf
      · next ht =>
        cases ha
        rw [lowEvent, if_neg (fun h => ht h.2), List.append_nil]
        exact hM.follows

/-- Nothing but a request touches the monitor. -/
theorem Monitored.other {a : Action} (hM : Monitored g s es) (h : s.step policy a = .ok s')
    (hne : ∀ pkt, a ≠ .recvTimingReq pkt) :
    Umon.Follows g.assoc g.numSets s'.store.ext.umon (Stack.run g.assoc (es ++ lowEvent s (.cache a))) := by
  have hl : lowEvent s (.cache a) = [] := by
    cases a with
    | recvTimingReq pkt => exact absurd rfl (hne pkt)
    | _ => rfl
  have he : s'.store.ext = s.store.ext := by
    cases step_moves lawful hM.sound h with
    | advance ticks => rfl
    | request he hc hr => exact absurd rfl (hne _)
    | unasked => rfl
    | response hf hfr ha hq he hc hb hn hcfg hfw => exact he.ext
    | snoop he hc hr hd => exact he.ext
    | idle => rfl
    | failed hs₁ hp hr hx hst hc hrest => rw [hst]
    | sent hs₁ hp hr hs hx hd => rw [hd.store, hs₁]
  rw [hl, List.append_nil, he]
  exact hM.follows

theorem Monitored.step {a : Act} (hM : Monitored g s es) (h : step s a = .ok s') :
    Monitored g s' (es ++ lowEvent s a) := by
  have hS := step_sound hM.sound h
  refine ⟨hS, ?_⟩
  cases a with
  | adjustPartition d =>
    rw [adjustPartition_umon hS.geo h, lowEvent, Stack.run_concat]
    exact hM.follows.reset
  | cache a =>
    cases a with
    | recvTimingReq pkt => exact hM.request h
    | advance ticks => exact hM.other h (fun pkt hp => by cases hp)
    | recvTimingResp ref r => exact hM.other h (fun pkt hp => by cases hp)
    | recvTimingSnoopReq pkt up => exact hM.other h (fun pkt hp => by cases hp)
    | send tid env => exact hM.other h (fun pkt hp => by cases hp)

theorem Monitored.runs {as : List Act} (hM : Monitored g s es) (h : Lib.runs CDynamic.step s as = .ok s') :
    Monitored g s' (es ++ lowHistory s as) := by
  induction as generalizing s es with
  | nil =>
    cases h
    rw [lowHistory, List.append_nil]
    exact hM
  | cons a as ih =>
    obtain ⟨s₁, hs, hr⟩ := bind_ok.1 h
    have h1 := ih (hM.step hs) hr
    rw [lowHistory, hs, ← List.append_assoc]
    exact h1

theorem monitored_init (cfg : Config) (p : CDynaParams) (mshrs writeBuffers : Nat) :
    Monitored p.geo (init cfg p mshrs writeBuffers) [] :=
  ⟨sound_init cfg p mshrs writeBuffers, Umon.follows_init p⟩

/-! ## Marginal utilities -/

/-- A counter is what one way more is worth. -/
theorem Monitored.counter {as : List Act} {s₀ : State Ext} (hM : Monitored g s (lowHistory s₀ as)) {k : Nat}
    (hk : k < g.assoc) :
    lowHits s₀ as (k + 1) = lowHits s₀ as k + s.store.ext.umon.counters k := by
  rw [lowHits, lowHits, ← Stack.sum_counts (show k + 1 ≤ g.assoc from hk),
    ← Stack.sum_counts (show k ≤ g.assoc by omega),
    Finset.sum_range_succ, hM.follows.counts k hk]

/-- What an `int` holds. -/
def FitsInt (x : Int) : Prop := -2 ^ 31 ≤ x ∧ x < 2 ^ 31

instance (x : Int) : Decidable (FitsInt x) := inferInstanceAs (Decidable (_ ∧ _))

theorem toInt_eq_iff {x y : Int} : toInt x = y ↔ (x - y) % 2 ^ 32 = 0 ∧ FitsInt y := by
  unfold toInt Int.bmod FitsInt
  dsimp only
  split <;> omega

/-- `adjustPartition` weighs the ways right when the counter above the two that matter
exists, all three agree and the result is an `int`. -/
theorem adjustPartition_utilities (cfg : Config) (p : CDynaParams) (mshrs writeBuffers : Nat) {as : List Act}
    {s : State Ext} (h : runs step (init cfg p mshrs writeBuffers) as = .ok s) (missCurve : MissCurve)
    (h1 : 1 ≤ currLAssoc s) (h2 : currLAssoc s < s.geo.assoc) :
    let hits := lowHits (init cfg p mshrs writeBuffers) as
    let more := hits (currLAssoc s + 1) - hits (currLAssoc s) +
      missCurve.misses (currHAssoc s) - missCurve.misses (currHAssoc s - 1)
    let less := hits (currLAssoc s - 1) - hits (currLAssoc s) +
      missCurve.misses (currHAssoc s) - missCurve.misses (currHAssoc s + 1)
    (uinc s missCurve = some more ∧ udec s missCurve = some less) ↔
      currLAssoc s + 1 < s.geo.assoc ∧ lookupUmon s (currLAssoc s + 1) = lookupUmon s (currLAssoc s) ∧
        lookupUmon s (currLAssoc s) = lookupUmon s (currLAssoc s - 1) ∧ FitsInt more ∧ FitsInt less := by
  intro hits more less
  have hM : Monitored p.geo s (lowHistory (init cfg p mshrs writeBuffers) as) :=
    (monitored_init cfg p mshrs writeBuffers).runs h
  have hg : s.geo = p.geo := hM.sound.geo
  have hup : hits (currLAssoc s + 1) = hits (currLAssoc s) + s.store.ext.umon.counters (currLAssoc s) :=
    hM.counter (show currLAssoc s < p.geo.assoc by rw [← hg]; exact h2)
  have hdown : hits (currLAssoc s - 1 + 1) =
      hits (currLAssoc s - 1) + s.store.ext.umon.counters (currLAssoc s - 1) :=
    hM.counter (show currLAssoc s - 1 < p.geo.assoc by rw [← hg]; omega)
  rw [show currLAssoc s - 1 + 1 = currLAssoc s by omega] at hdown
  rw [uinc, udec, if_neg (by omega), if_neg (by omega), lookupUmon, lookupUmon, lookupUmon, if_pos h2,
    if_pos (show currLAssoc s - 1 < s.geo.assoc by omega)]
  by_cases h3 : currLAssoc s + 1 < s.geo.assoc
  · rw [if_pos h3, Option.map_some, Option.map_some, Option.some.injEq, Option.some.injEq, Option.some.injEq,
      Option.some.injEq, toInt_eq_iff, toInt_eq_iff]
    -- the counters are compared modulo 32 bits
    have hmore' : (((s.store.ext.umon.counters (currLAssoc s + 1) % 2 ^ 32 : Nat) : Int) +
        (missCurve.misses (currHAssoc s) - missCurve.misses (currHAssoc s - 1)) - more) % 2 ^ 32 = 0 ↔
        s.store.ext.umon.counters (currLAssoc s + 1) % 2 ^ 32 = s.store.ext.umon.counters (currLAssoc s) % 2 ^ 32 := by
      omega
    have hless' : (0 - ((s.store.ext.umon.counters (currLAssoc s) % 2 ^ 32 : Nat) : Int) +
        (missCurve.misses (currHAssoc s) - missCurve.misses (currHAssoc s + 1)) - less) % 2 ^ 32 = 0 ↔
        s.store.ext.umon.counters (currLAssoc s) % 2 ^ 32 =
          s.store.ext.umon.counters (currLAssoc s - 1) % 2 ^ 32 := by
      omega
    tauto
  · -- the last way of Low is next to the end of the array
    rw [if_neg h3, Option.map_none]
    constructor
    · rintro ⟨h, -⟩
      cases h
    · rintro ⟨h, -⟩
      exact absurd h h3

/-- A small cache with `l` ways for Low. -/
def sized (assoc l : Nat) (ha : 0 < assoc) (hl : l ≤ assoc) : State Ext :=
  init Small.cfg ⟨Small.geo assoc ha, 1, l, 1, hl⟩ 4 4

/-- Low comes back to a block after one other. -/
def backAfterOne : List Act := [Small.read 0 0, Small.read 0 4, Small.read 0 0].map .cache

/-- The misses do not depend on the ways. -/
def flat : MissCurve := ⟨fun _ => 0, fun _ => by decide⟩

/-- A second way would have given Low its only hit, and the first way is worth
nothing; `adjustPartition` takes the hit for one of the first way.  With one way
left to High it reads outside the counters. -/
theorem utilities_off_by_one :
    (∃ s, runs step (sized 4 1 (by decide) (by decide)) backAfterOne = .ok s ∧ currLAssoc s = 1 ∧ s.geo.assoc = 4 ∧
      uinc s flat = some 0 ∧ udec s flat = some (-1) ∧
      lowHits (sized 4 1 (by decide) (by decide)) backAfterOne 0 = 0 ∧
      lowHits (sized 4 1 (by decide) (by decide)) backAfterOne 1 = 0 ∧
      lowHits (sized 4 1 (by decide) (by decide)) backAfterOne 2 = 1) ∧
    uinc (sized 4 3 (by decide) (by decide)) flat = none :=
  ⟨by decide +kernel, by decide +kernel⟩

/-- High has five misses less with its third way. -/
def falling : MissCurve := ⟨fun i => if i < 3 then 7 else 2, fun i => by split <;> decide⟩

/-- One hit each in the first, the second and the third way. -/
def oneHitEach : List Act :=
  [Small.read 0 0, Small.read 0 0, Small.read 0 4, Small.read 0 0, Small.read 0 8, Small.read 0 4].map .cache

/-- All three counters are 1, and the second way is worth one hit to Low and five misses to
High. -/
theorem adjustPartition_utilities_oneHitEach :
    ∃ s, runs step (sized 4 1 (by decide) (by decide)) oneHitEach = .ok s ∧ lookupUmon s 1 = some 1 ∧
      uinc s falling = some ((lowHits (sized 4 1 (by decide) (by decide)) oneHitEach 2 : Int) -
        lowHits (sized 4 1 (by decide) (by decide)) oneHitEach 1 + 2 - 7) ∧
      udec s falling = some ((lowHits (sized 4 1 (by decide) (by decide)) oneHitEach 0 : Int) -
        lowHits (sized 4 1 (by decide) (by decide)) oneHitEach 1 + 2 - 2) := by
  refine exists_ok (fun s => currLAssoc s = 1 ∧ s.geo.assoc = 4 ∧ lookupUmon s 0 = some 1 ∧ lookupUmon s 1 = some 1 ∧
    lookupUmon s 2 = some 1) (by decide +kernel) ?_
  rintro s hs ⟨h1, h2, c0, c1, c2⟩
  have hH : currHAssoc s = 3 := by rw [currHAssoc, h1, h2]
  have hu := adjustPartition_utilities Small.cfg ⟨Small.geo 4 (by decide), 1, 1, 1, by decide⟩ 4 4 hs falling
    (by omega) (by omega)
  rw [h1, h2, hH] at hu
  exact ⟨c1, hu.2 ⟨by decide, by rw [c1, c2], by rw [c0, c1], by decide +kernel, by decide +kernel⟩⟩

end CDynamic

/-! ## The decision of `F_DynamicCache` -/

namespace FDynamic

variable {g : Geometry} {s s' : State Unit}

/-- A response that fills its block. -/
def fills (m : Mshr) (pkt : Packet) : Bool := !m.isForward && (pkt.isRead || pkt.cmd == .upgradeResp) && !pkt.isError

/-- The frame that a step from `s` to `s'` accesses or fills: the one that holds
the block of a request that was looked up, or of a response that filled it. -/
def usedBy (s s' : State Unit) : Action → Option Nat
  | .recvTimingReq pkt => if s.looksUp pkt then FDynaLru.findBlock s'.store.tags pkt.addr pkt.threadID else none
  | .recvTimingResp ref r =>
    match s.bus.find? fun f => f.ref == ref with
    | some f =>
      if fills (s.ctl.mshr ref) (r.packet f.pkt) then FDynaLru.findBlock s'.store.tags f.pkt.addr f.pkt.threadID
      else none
    | none => none
  | _ => none

/-- The frames in use after a step, `u` being those before it. -/
def useStep (s : State Unit) (u : Nat → Bool) : Act → Nat → Bool
  | .adjustPartition => fun _ => false
  | .cache a =>
    match s.step policy a with
    | .error _ => u
    | .ok s' => fun f => u f || decide (usedBy s s' a = some f)

/-- The frames accessed or filled since the last `adjustPartition` of a run. -/
def usedSince (s : State Unit) (u : Nat → Bool) : List Act → Nat → Bool
  | [] => u
  | a :: as =>
    match step s a with
    | .error _ => useStep s u a
    | .ok s' => usedSince s' (useStep s u a) as

/-- The least recently used valid Low block of set `i` that is not in use. -/
def lruUnused (s : Lru) (u : Nat → Bool) (i : Nat) : Option Nat :=
  (s.sets 0 i).reverse.find? fun f => (s.blks f).isValid && !u f

/-- A Writeback waits in Low's buffer. -/
def WrittenBack (s : State Unit) (p : Packet) : Prop :=
  ∃ r ∈ (s.ctl.writeBuffers 0).allocatedList, ((s.ctl.writeBuffers 0).registers r).targets.list.map (·.pkt) = [p]

/-- In every set the least recently used of the Low blocks that are not in use is
written back if dirty and invalidated; nothing happens to the others. -/
structure Reclaimed (u : Nat → Bool) (s s' : State Unit) : Prop where
  gone : ∀ i < s.geo.numSets, ∀ f, lruUnused s.store.tags u i = some f → (s'.store.tags.blks f).isValid = false
  saved : ∀ i < s.geo.numSets, ∀ f, lruUnused s.store.tags u i = some f → (s.store.tags.blks f).isDirty = true →
    WrittenBack s' (s.store.writebackPacket (.frame f) 0)
  rest : ∀ f, (∀ i < s.geo.numSets, lruUnused s.store.tags u i ≠ some f) → s'.store.tags.blks f = s.store.tags.blks f

/-- Every valid Low block is in use. -/
def AllUsed (u : Nat → Bool) (s : State Unit) : Prop :=
  ∀ i < s.geo.numSets, ∀ f ∈ s.store.tags.sets 0 i, (s.store.tags.blks f).isValid = true → u f = true

instance (u : Nat → Bool) (s : State Unit) : Decidable (AllUsed u s) := inferInstanceAs (Decidable (∀ i < _, _))

theorem allUsed_iff {u : Nat → Bool} : AllUsed u s ↔ ∀ i < s.geo.numSets, lruUnused s.store.tags u i = none := by
  refine forall_congr' fun i => forall_congr' fun _ => ?_
  simp only [lruUnused, List.find?_eq_none, List.mem_reverse, Bool.and_eq_true, Bool.not_eq_true', not_and,
    Bool.not_eq_false]

/-- `adjustPartition` reclaims the unused Low blocks when there are none. -/
theorem reclaims_iff_allUsed (cfg : Config) (geo : Geometry) (maxMasters mshrs writeBuffers : Nat) {as : List Act}
    (h : runs step (init cfg geo maxMasters mshrs writeBuffers) as = .ok s) :
    (∃ s', adjustPartition s = .ok s' ∧
        Reclaimed (usedSince (init cfg geo maxMasters mshrs writeBuffers) (fun _ => false) as) s s') ↔
      AllUsed (usedSince (init cfg geo maxMasters mshrs writeBuffers) (fun _ => false) as) s := by
  have hI : Fit geo s :=
    runs_preserves (Fit geo) (fun _ _ _ hI h => step_fit hI h) (fit_init cfg geo maxMasters mshrs writeBuffers) h
  generalize usedSince (init cfg geo maxMasters mshrs writeBuffers) (fun _ => false) as = u
  rw [adjustPartition_eq hI.tidy, allUsed_iff]
  constructor
  · rintro ⟨s', hs, hr⟩ i hi
    obtain rfl := Except.ok.inj hs
    -- a victim would be valid before the call and invalid after it
    cases hv : lruUnused s.store.tags u i with
    | none => rfl
    | some f =>
      have hf := List.find?_some hv
      rw [hr.gone i hi f hv] at hf
      cases hf
  · intro hn
    refine ⟨s, rfl, fun i hi f hf => ?_, fun i hi f hf => ?_, fun f _ => rfl⟩
    · rw [hn i hi] at hf
      cases hf
    · rw [hn i hi] at hf
      cases hf

/-- Low fills a block, and then two intervals pass without it. -/
theorem unused_block_stays :
    ∃ s s' f, runs step (init Small.cfg (Small.geo 2 (by decide)) 1 4 4)
        ((Small.load 0 0 false).map .cache ++ [.adjustPartition]) = .ok s ∧ adjustPartition s = .ok s' ∧
      lruUnused s.store.tags (usedSince (init Small.cfg (Small.geo 2 (by decide)) 1 4 4) (fun _ => false)
        ((Small.load 0 0 false).map .cache ++ [.adjustPartition])) 0 = some f ∧
      (s'.store.tags.blks f).isValid = true := by
  obtain ⟨s, hs, hl, s', hs', hv⟩ : ∃ s, runs step (init Small.cfg (Small.geo 2 (by decide)) 1 4 4)
        ((Small.load 0 0 false).map .cache ++ [.adjustPartition]) = .ok s ∧
      lruUnused s.store.tags (usedSince (init Small.cfg (Small.geo 2 (by decide)) 1 4 4) (fun _ => false)
        ((Small.load 0 0 false).map .cache ++ [.adjustPartition])) 0 = some 0 ∧
      ∃ s', adjustPartition s = .ok s' ∧ (s'.store.tags.blks 0).isValid = true := by
    decide +kernel
  exact ⟨s, s', 0, hs, hs', hl, hv⟩

/-- The block that Low has just filled is in use. -/
theorem reclaims_iff_allUsed_filled :
    ∃ s s', runs step (init Small.cfg (Small.geo 2 (by decide)) 1 4 4) ((Small.load 0 0 false).map .cache) = .ok s ∧
      adjustPartition s = .ok s' ∧
      Reclaimed (usedSince (init Small.cfg (Small.geo 2 (by decide)) 1 4 4) (fun _ => false)
        ((Small.load 0 0 false).map .cache)) s s' := by
  simp only [exists_and_left]
  exact exists_ok (AllUsed (usedSince (init Small.cfg (Small.geo 2 (by decide)) 1 4 4) (fun _ => false)
    ((Small.load 0 0 false).map .cache))) (by decide +kernel) fun s hs =>
    (reclaims_iff_allUsed Small.cfg (Small.geo 2 (by decide)) 1 4 4 hs).2

end FDynamic

end DynamicCache.Cache
