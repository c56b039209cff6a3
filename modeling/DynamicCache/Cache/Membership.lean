import DynamicCache.Cache.Asserts
import DynamicCache.Cache.Resize
import DynamicCache.Cache.Targets

/-!
# On which lists blocks are moved

`moveToHead` and `moveToTail` run past their array when the block is not in the
list, which the model reports as `notInSet`.  Lookups and insertions move blocks
in the list where they found them.  An invalidation uses the list of the
packet's thread, and in `F_DynamicCache` and `DirtyCache` a packet of High may
find its block in Low: then the block is not in that list
(`high_takes_low_block`).  As long as no block is taken away from the other
partition, no step fails this way (`lists_hold_moved_blocks`).
-/

namespace DynamicCache.Cache

open Lib Tags

variable {ε : Type} {tid : Nat} {cause : BlockedCause} {wbs : List Packet} {c : Control} {ref : MshrRef}
  {st : Storage ε} {a : Action}

/-! ## Functions that move nothing -/

section

variable {m : Mshr} {c : Control} {ref : MshrRef} {pkt : Packet} {now addr size time tid : Nat} {b : Bool}

@[simp] theorem setBlocked_avoids : Avoids .notInSet (c.setBlocked cause tid) := by
  simp [Control.setBlocked, avoids_check (show Fault.portAssertion ≠ .notInSet by simp)]

@[simp] theorem clearBlocked_avoids : Avoids .notInSet (c.clearBlocked cause tid) := by
  simp [Control.clearBlocked, avoids_check (show Fault.portAssertion ≠ .notInSet by simp)]

@[simp] theorem setBlockedIf_avoids : Avoids .notInSet (c.setBlockedIf b cause tid) := by
  simp [Control.setBlockedIf]

@[simp] theorem clearIfFull_avoids : Avoids .notInSet (c.clearIfFull b ref tid) := by
  simp [Control.clearIfFull]

@[simp] theorem clearNoTarget_avoids : Avoids .notInSet (State.clearNoTarget c ref tid) := by
  simp [State.clearNoTarget]

@[simp] theorem allocateBufferInternal_avoids :
    Avoids .notInSet (c.allocateBufferInternal b now addr size pkt time) := by
  simp [Control.allocateBufferInternal]

@[simp] theorem allocateMissBuffer_avoids {g : Geometry} : Avoids .notInSet (c.allocateMissBuffer g now pkt time) := by
  simp [Control.allocateMissBuffer]

@[simp] theorem allocateWriteBuffer_avoids : Avoids .notInSet (c.allocateWriteBuffer now pkt time) := by
  simp [Control.allocateWriteBuffer]

@[simp] theorem allocateUncachedReadBuffer_avoids : Avoids .notInSet (c.allocateUncachedReadBuffer now pkt time) := by
  simp [Control.allocateUncachedReadBuffer]

@[simp] theorem allocateWriteBuffers_avoids :
    Avoids .notInSet (Control.allocateWriteBuffers now time wbs c) := by
  induction wbs generalizing c with
  | nil => simp [Control.allocateWriteBuffers]
  | cons wb wbs ih => simp [Control.allocateWriteBuffers, ih]

@[simp] theorem control_markInService_avoids : Avoids .notInSet (c.markInService ref pkt) := by
  simp [Control.markInService]

@[simp] theorem finishMshr_avoids : Avoids .notInSet (State.finishMshr c now ref m b tid) := by
  simp [State.finishMshr]

end

/-! ## Blocks and lists -/

/-- The request takes the block away from the cache when it is satisfied. -/
def Packet.takes (pkt : Packet) : Bool := pkt.needsExclusive && !pkt.isWrite

def Target.takes (x : Target) : Bool :=
  match x.source with
  | .fromCPU => x.pkt.takes
  | .fromPrefetcher => false
  | .fromSnoop => x.pkt.isInvalidate

/-- The response, a target or a snoop that came before it takes the block away. -/
def Mshr.Takes (m : Mshr) (pkt : Packet) : Prop :=
  pkt.isInvalidate = true ∨ m.postInvalidate = true ∨ ∃ x ∈ m.targets.list ++ m.deferredTargets.list, x.takes = true

instance (m : Mshr) (pkt : Packet) : Decidable (m.Takes pkt) := inferInstanceAs (Decidable (_ ∨ _ ∨ ∃ x ∈ _, _))

/-- Frame `f` is in the list that an invalidation for thread `t` searches. -/
def Own (s : Lru) (t f : Nat) : Prop := f ∈ s.sets t (s.blks f).set

instance (s : Lru) (t f : Nat) : Decidable (Own s t f) := inferInstanceAs (Decidable (f ∈ _))

namespace Storage

/-- Block `b` may be invalidated for thread `t`: its frame is in the list of its
set in partition `t`, or it is `tempBlock`, where the assertion on the master id
stops the program before a list is touched. -/
def Fits (s : Storage ε) (t : Nat) : BlkRef → Prop
  | .frame f => Own s.tags t f
  | .temp => s.tags.maxMasters ≤ s.tempBlock.srcMasterId

variable {x d p : Bool} {b b' : BlkRef} {t t' n f : Nat} {s s' : Storage ε} {P : Policy ε} {c : Control} {pkt : Packet}
  {cfg : Config} {now : Nat}

theorem Fits.quiet (h : Fits s t (.frame f)) (hq : Lru.Quiet s.tags s'.tags) : Fits s' t (.frame f) := by
  show f ∈ s'.tags.sets t (s'.tags.blks f).set
  rw [hq.mem_iff, hq.set]
  exact h

theorem Fits.serve (h : Fits s t b) (hl : s.tags.Nodup) (hs : Serve x b' t' n s s') : Fits s' t b := by
  cases b with
  | frame f => exact h.quiet (hs.quiet hl)
  | temp =>
    show s'.tags.maxMasters ≤ s'.tempBlock.srcMasterId
    rw [hs.temp.srcMasterId, hs.same.maxMasters]
    exact h

theorem invalidateBlk_avoids (hl : s.tags.Nodup) (h : Fits s t b) :
    Avoids .notInSet (s.invalidateBlk b t) := by
  unfold invalidateBlk
  rw [avoids_ite]
  refine ⟨fun hv => ?_, fun _ => avoids_ok _⟩
  rw [avoids_bind]
  refine ⟨assert_avoids, fun _ ha => ?_⟩
  simp only [assert, check_ok, decide_eq_true_eq] at ha
  cases b with
  | frame f =>
    simp only [avoids_bind, avoids_pure, implies_true, and_true]
    have hv' : (s.tags.blks f).isValid = true := hv
    have ha' : (s.tags.blks f).srcMasterId < s.tags.maxMasters := ha
    refine avoids_orFail fun hn => ?_
    simp only [Lru.invalidateBlk, if_pos hv', if_pos ha', Option.map_eq_none_iff, Lru.getSet,
      moveToTail_eq (hl _ _) h] at hn
    cases hn
  | temp =>
    have h' : s.tags.maxMasters ≤ s.tempBlock.srcMasterId := h
    have ha' : s.tempBlock.srcMasterId < s.tags.maxMasters := ha
    omega

theorem insertBlock_avoids {addr masterId : Nat} (h : f ∈ s.tags.sets tid (s.tags.geo.extractSet addr)) :
    Avoids .notInSet (s.insertBlock addr f masterId tid now) := by
  unfold insertBlock
  simp only [avoids_bind, avoids_pure, implies_true, and_true, assert_avoids, true_and]
  intro _ h1 _ h2
  simp only [assert, check_ok, Bool.or_eq_true, Bool.not_eq_true', decide_eq_true_eq] at h1 h2
  refine avoids_orFail fun hn => ?_
  have hc : ((s.tags.blks f).isValid = true → (s.tags.blks f).srcMasterId < s.tags.maxMasters) ∧
      masterId < s.tags.maxMasters := by
    refine ⟨fun hv => ?_, h2⟩
    obtain h1 | h1 := h1
    · rw [h1] at hv
      cases hv
    · exact h1
  simp only [Lru.insertBlock, if_pos hc, Option.map_eq_none_iff, Lru.getSet, moveToHead_eq h] at hn
  cases hn

/-! ## Serving a block -/

theorem satisfyRead_avoids (hl : s.tags.Nodup)
    (h : pkt.needsExclusive = true → Fits s pkt.threadID b) : Avoids .notInSet (s.satisfyRead cfg pkt b d p) := by
  have h1 := serve_locked (x := false) (b := b) (t := 0) (n := 0) s pkt
  unfold satisfyRead
  generalize (if pkt.isLLSC then
    s.modify b fun y => { y with lockList := pkt.req.contextId :: y.lockList } else s) = s₁ at h1
  have hl₁ : s₁.tags.Nodup := (h1.quiet hl).nodup hl
  simp only [avoids_ite, avoids_bind, avoids_pure, avoids_ok, implies_true, and_true]
  exact fun _ hx => invalidateBlk_avoids hl₁ ((h hx).serve hl h1)

theorem satisfyCpuSideRequest_avoids (hl : s.tags.Nodup)
    (h : pkt.takes = true → Fits s pkt.threadID b) : Avoids .notInSet (s.satisfyCpuSideRequest cfg pkt b d p) := by
  have htakes : pkt.needsExclusive = true → ¬pkt.isWrite = true → Fits s pkt.threadID b := by
    intro hx hw
    exact h (by simp [Packet.takes, hx, hw])
  simp only [satisfyCpuSideRequest, avoids_bind, avoids_ite, avoids_pure, assert_avoids, true_and, implies_true,
    and_true]
  refine fun _ _ =>
    ⟨fun _ => cmpAndSwap_avoids, fun _ hw => ⟨fun _ => satisfyRead_avoids hl fun hx => htakes hx hw, ?_⟩⟩
  intro _ _ hu
  simp only [assert, check_ok] at hu
  exact invalidateBlk_avoids hl (htakes (needsExclusive_of_isUpgrade _ hu) hw)

theorem handleSnoop_avoids {up : UpwardSnoop} {blk : Option BlkRef} {inval : Bool} (hl : s.tags.Nodup)
    (h : pkt.isInvalidate = true → ∀ b, blk = some b → Fits s pkt.threadID b) :
    Avoids .notInSet (s.handleSnoop cfg up pkt blk inval) := by
  unfold handleSnoop
  simp only [avoids_bind, assert_avoids, true_and, forwardSnoop_avoids]
  intro _ _ fwd _
  cases blk with
  | none => exact avoids_pure _
  | some b =>
    simp only [avoids_ite, avoids_bind, avoids_pure, assert_avoids, snoopResponse_avoids, true_and, implies_true,
      and_true, invalidateIf, avoids_ok]
    intro _ _ _ _ _ hi
    have h1 := shareIf_serve (x := false) (b := b) (t := 0) (n := 0) s (pkt.isRead && !pkt.isInvalidate)
    exact invalidateBlk_avoids ((h1.quiet hl).nodup hl) ((h hi b rfl).serve hl h1)

end Storage

/-! ## Responses -/

namespace State

open Storage

variable {e : Fill} {b : BlkRef} {blk : Option BlkRef} {t n : Nat} {s s' : Storage ε}

theorem Fill.serveTarget_avoids {x : Target} (hl : s.tags.Nodup)
    (h : e.isFill = true ∨ e.mshr.inService = true → x.takes = true → ∀ b, blk = some b → Fits s x.pkt.threadID b) :
    Avoids .notInSet (e.serveTarget s blk x) := by
  unfold serveTarget
  split
  · next hs =>
    have ha : Avoids .notInSet (e.answer s blk x.pkt) := by
      unfold answer
      simp only [avoids_ite, avoids_bind, avoids_pure, avoids_ok, assert_avoids, assertMaster, hasPostDowngrade_avoids,
        true_and, implies_true, and_true]
      refine fun hf _ _ => ⟨avoids_orFail fun _ => by decide, fun b hb => ?_⟩
      rw [orFail_ok] at hb
      refine satisfyCpuSideRequest_avoids hl fun ht => h (.inl hf) ?_ b hb
      rw [Target.takes, hs]
      exact ht
    simp [ha]
  · simp only [avoids_bind, assert_avoids, true_and]
    intro _ _
    split <;> exact avoids_pure _
  · next hs =>
    simp only [avoids_bind, avoids_pure, assert_avoids, hasPostInvalidate_avoids, true_and, implies_true, and_true]
    intro _ _ inval hinval _ _
    simp only [Mshr.hasPostInvalidate, bind_ok, assert, check_ok] at hinval
    obtain ⟨-, hserv, -⟩ := hinval
    refine handleSnoop_avoids hl fun hi => h (.inr hserv) ?_
    rw [Target.takes, hs]
    exact hi

theorem Fill.serveTargets_avoids {xs : List Target} {o : List Output} (hl : s.tags.Nodup)
    (hx : ∀ x ∈ xs, x.pkt.threadID = t ∧ s.tags.geo.blkAddr x.pkt.addr = n)
    (h : e.isFill = true ∨ e.mshr.inService = true → (∃ x ∈ xs, x.takes = true) → ∀ b, blk = some b → Fits s t b) :
    Avoids .notInSet (e.serveTargets blk xs s o) := by
  induction xs generalizing s o with
  | nil => exact avoids_ok _
  | cons x xs ih =>
    obtain ⟨ht, hn⟩ := hx x List.mem_cons_self
    simp only [serveTargets, avoids_bind]
    refine ⟨serveTarget_avoids hl fun hd htake => ?_, ?_⟩
    · rw [ht]
      exact h hd ⟨x, List.mem_cons_self, htake⟩
    · -- serving a target keeps the block in its list
      rintro ⟨s₁, o₁⟩ h1
      have hxs : ∀ y ∈ xs, y.pkt.threadID = t ∧ s.tags.geo.blkAddr y.pkt.addr = n := fun y hy =>
        hx y (List.mem_cons_of_mem x hy)
      cases blk with
      | none =>
        rw [serveTarget_none h1]
        exact ih hl hxs fun _ _ b hb => by cases hb
      | some b =>
        have hs := serveTarget_serve ht hn h1
        refine ih ((hs.quiet hl).nodup hl) (fun y hy => ?_) ?_
        · rw [hs.same.geo]
          exact hxs y hy
        · rintro hd ⟨y, hy, htake⟩ b' hb
          exact (h hd ⟨y, List.mem_cons_of_mem x hy, htake⟩ b' hb).serve hl hs

theorem Fill.afterTargets_avoids (hl : s.tags.Nodup)
    (h : e.pkt.isInvalidate = true ∨ e.mshr.inService = true ∧ e.mshr.postInvalidate = true →
      ∀ b, blk = some b → Fits s e.pkt.threadID b) : Avoids .notInSet (e.afterTargets s blk) := by
  unfold afterTargets
  split
  · exact avoids_ok _
  · next b =>
    simp only [avoids_bind, avoids_ite, avoids_pure, invalidates_avoids, hasPostDowngrade_avoids, true_and,
      implies_true,
      and_true]
    intro inval hinval hi
    subst hi
    refine invalidateBlk_avoids hl (h ?_ b rfl)
    unfold Mshr.invalidates at hinval
    split at hinval
    · next hp => exact .inl hp
    · simp only [Mshr.hasPostInvalidate, bind_ok, assert, check_ok] at hinval
      obtain ⟨-, hserv, hinval⟩ := hinval
      exact .inr ⟨hserv, Except.ok.inj hinval⟩

/-- `tempBlock` is not valid any more when it is given up. -/
theorem clearTemp_avoids : Avoids .notInSet (clearTemp s blk tid) := by
  have hi : ∀ s : Storage ε, Avoids .notInSet ((s.modify .temp fun x =>
      { x with status := { x.status with valid := false } }).invalidateBlk .temp tid) := by
    intro s
    exact avoids_ok _
  simp [clearTemp, hi]

end State

/-! ## Fills -/

namespace Storage

variable {b : BlkRef} {t n f : Nat} {s s' : Storage ε} {P : Policy ε} {c : Control} {pkt : Packet} {now : Nat}
  {view : Nat → Nat → Prop}

theorem Victim.mem {addr : Nat} (h : Victim c addr tid s s' f wbs) :
    f ∈ s'.tags.sets tid (s'.tags.geo.extractSet addr) := by
  rw [h.quiet.mem_iff, h.quiet.geo]
  exact Lru.mem_of_findVictim h.victim

theorem fillBlock_avoids {blkH : Option Nat} (hl : s.tags.Nodup)
    (h : ∀ f, blkH = some f → Fits s 1 (.frame f)) : Avoids .notInSet (s.fillBlock P pkt b blkH) := by
  have hq : ∀ (s : Storage ε) (k : CacheBlk → CacheBlk), (∀ x, (k x).set = x.set) →
      (∀ t i, ((s.modify b k).tags.sets t i) = s.tags.sets t i) ∧
        ∀ f, ((s.modify b k).tags.blks f).set = (s.tags.blks f).set := by
    intro s k hk
    cases b with
    | temp => exact ⟨fun _ _ => rfl, fun _ => rfl⟩
    | frame g =>
      refine ⟨fun _ _ => rfl, fun f => ?_⟩
      simp only [Storage.modify, putBlk, Lru.blks_putBlk, blk]
      split
      · next he => rw [hk, he]
      · rfl
  simp only [fillBlock, avoids_bind, avoids_pure, implies_true, and_true]
  unfold fillData
  rw [avoids_ite]
  refine ⟨fun _ => ?_, fun _ => avoids_ok _⟩
  split
  · exact avoids_ok _
  · next f =>
    obtain ⟨h1, h2⟩ := hq s (fun x => { x with status := fillStatus P.dirtyFill pkt x.status }) fun _ => rfl
    generalize s.modify b (fun x => { x with status := fillStatus P.dirtyFill pkt x.status }) = s₁ at h1 h2
    obtain ⟨h3, h4⟩ := hq s₁ (fun x => { x with data := (s₁.tags.blks f).data }) fun _ => rfl
    refine invalidateBlk_avoids (fun t i => ?_) ?_
    · show ((s₁.modify b fun x => { x with data := (s₁.tags.blks f).data }).tags.sets t i).Nodup
      rw [h3, h1]
      exact hl t i
    · show f ∈ (s₁.modify b fun x => { x with data := (s₁.tags.blks f).data }).tags.sets 1
        ((s₁.modify b fun x => { x with data := (s₁.tags.blks f).data }).tags.blks f).set
      rw [h3, h4, h1, h2]
      exact h f rfl

/-- The High copy that a fill moves is in High's list. -/
def FakeOk (P : Policy ε) (s : Lru) (pkt : Packet) : Prop :=
  P.lookup s pkt.addr pkt.threadID = none → ∀ f, P.fakeMiss s pkt.addr = some f → f ∈ s.sets 1 (s.blks f).set

theorem fillTarget_keeps {v : Option Nat} (h : s.fillTarget now pkt v = .ok (s', b)) :
    (∀ t i, (s'.tags.sets t i).Perm (s.tags.sets t i)) ∧ ∀ f, (s'.tags.blks f).set = (s.tags.blks f).set := by
  obtain ⟨-, -, -, rfl⟩ | ⟨g, tags, -, rfl, hi, rfl⟩ := fillTarget_cases h
  · exact ⟨fun _ _ => .refl _, fun _ => rfl⟩
  · have hins := newBlk_inserted {} hi
    refine ⟨hins.perm, fun f => ?_⟩
    by_cases he : f = g
    · rw [he, hins.set]
    · rw [hins.other f he]

theorem fillTarget_avoids {v : Option Nat}
    (h : ∀ f, v = some f → f ∈ s.tags.sets pkt.threadID (s.tags.geo.extractSet pkt.addr)) :
    Avoids .notInSet (s.fillTarget now pkt v) := by
  unfold fillTarget
  split
  · simp
  · next f => simp [insertBlock_avoids (h f rfl)]

theorem handleFill_avoids (hF : Lru.Frames n s.tags) (hfake : FakeOk P s.tags pkt) :
    Avoids .notInSet (s.handleFill P c now pkt (P.lookup s.tags pkt.addr pkt.threadID)) := by
  unfold handleFill
  split
  · next hn =>
    simp only [avoids_bind, avoids_pure, assert_avoids, allocateBlock_avoids, true_and, implies_true, and_true]
    rintro _ - ⟨s₁, v, wbs⟩ ha
    obtain ⟨hv, hq⟩ : (∀ f, v = some f → f ∈ s₁.tags.sets pkt.threadID (s₁.tags.geo.extractSet pkt.addr)) ∧
        Lru.Quiet s.tags s₁.tags := by
      obtain ⟨rfl, rfl, -, -⟩ | ⟨f, rfl, hv⟩ := allocateBlock_ok ha
      · exact ⟨fun f hf => (by cases hf), .refl _⟩
      · refine ⟨fun g hg => ?_, hv.quiet⟩
        obtain rfl := Option.some.inj hg
        exact hv.mem
    refine ⟨fillTarget_avoids hv, ?_⟩
    rintro ⟨s₂, b'⟩ ht
    -- neither the victim's writeback nor its new tag moves a frame to another list
    obtain ⟨hp, hset⟩ := fillTarget_keeps ht
    refine fillBlock_avoids (fun t i => (hp t i).nodup_iff.2 (hq.nodup hF.nodup t i)) fun f hf => ?_
    show f ∈ s₂.tags.sets 1 (s₂.tags.blks f).set
    rw [(hp _ _).mem_iff, hset, hq.mem_iff, hq.set]
    exact hfake hn f hf
  · simp only [avoids_bind, avoids_pure, assert_avoids, true_and, implies_true, and_true]
    exact fun _ _ _ _ => fillBlock_avoids hF.nodup fun f hf => by cases hf

/-- The block that a response fills may be invalidated for its thread, if that
holds for the block that was found. -/
theorem handleFill_fits (hP : P.Lawful view) (hF : Lru.Frames n s.tags)
    (hk : pkt.isRead = true ∨ pkt.cmd = .upgradeResp) (htemp : s.tags.maxMasters ≤ s.tempBlock.srcMasterId)
    (hown : ∀ f, P.lookup s.tags pkt.addr pkt.threadID = some f → Fits s pkt.threadID (.frame f))
    (h : s.handleFill P c now pkt (P.lookup s.tags pkt.addr pkt.threadID) = .ok (s', b, wbs)) :
    Fits s' pkt.threadID b ∧ s'.tags.Nodup := by
  obtain hq | ⟨f, t₁, t₂, rfl, hp⟩ := handleFill_placed hP hk hF.nodup h
  · refine ⟨?_, hq.nodup hF.nodup⟩
    obtain ⟨f, hl, rfl, -⟩ | ⟨hn, hd, f, s₁, tags, rfl, hv, hi, hfill⟩ | ⟨-, -, rfl, -, -, -, hfill⟩ :=
      handleFill_cases h
    · exact (hown f hl).quiet hq
    · obtain ⟨t₂, hp⟩ := fillNew_placed hk hF.nodup hn hd hv hi hfill
      have hf := Lru.mem_of_findVictim hv.victim
      show f ∈ s'.tags.sets pkt.threadID (s'.tags.blks f).set
      rw [hq.mem_iff, hq.set, hF.setOf f _ _ hf]
      exact hf
    · show s'.tags.maxMasters ≤ s'.tempBlock.srcMasterId
      rw [hq.maxMasters, (fillBlock_temp hfill).srcMasterId]
      exact htemp
  · have hm := hp.placed.mem
    have hm' := hp.before.mem_iff.1 hm
    refine ⟨?_, hp.nodup hF.nodup⟩
    show f ∈ s'.tags.sets pkt.threadID (s'.tags.blks f).set
    rw [hp.after.mem_iff, hp.placed.mem_iff, hp.before.mem_iff, hp.after.set, hp.placed.set, hp.before.set,
      hF.setOf f _ _ hm']
    exact hm'

end Storage

namespace State

variable {s s' : State ε} {P : Policy ε} {g : Geometry} {pkt : Packet} {view : Nat → Nat → Prop} {n : Nat}

open Storage

theorem mshr_handleFill_flags {m m' : Mshr} (h : m.handleFill pkt = .ok m') :
    m'.inService = m.inService ∧ m'.postInvalidate = m.postInvalidate := by
  obtain ⟨-, rfl⟩ | ⟨-, rfl⟩ := Mshr.handleFill_cases h
  · exact ⟨rfl, rfl⟩
  · exact ⟨rfl, rfl⟩

/-- What is left to be served after `fill`. -/
structure Served (s : State ε) (m : Mshr) (g : Geometry) (pkt : Packet) (may : Prop) (r : Filled ε) : Prop where
  has : ∀ x ∈ r.mshr.targets.list, m.Has x
  inService : r.mshr.inService = m.inService
  postInvalidate : r.mshr.postInvalidate = m.postInvalidate
  nodup : r.store.tags.Nodup
  geo : r.store.tags.geo = g
  fits : may → ∀ b, r.blk = some b → Fits r.store pkt.threadID b

theorem fill_served {m : Mshr} {isFill : Bool} {may : Prop} {r : Filled ε} (hP : P.Lawful view)
    (hF : Lru.Frames n s.store.tags) (hg : s.geo = g)
    (hk : isFill = true → pkt.isRead = true ∨ pkt.cmd = .upgradeResp)
    (htemp : s.store.tags.maxMasters ≤ s.store.tempBlock.srcMasterId)
    (hown : may → ∀ f, P.lookup s.store.tags pkt.addr pkt.threadID = some f → Own s.store.tags pkt.threadID f)
    (h : s.fill P c m pkt isFill = .ok r) : Served s m g pkt may r := by
  unfold fill at h
  split at h
  · next hfill =>
    simp only [bind_ok] at h
    obtain ⟨m', hm, ⟨store, b, wbs⟩, hf, h⟩ := h
    cases h
    rw [Bool.and_eq_true] at hfill
    obtain ⟨h1, h2⟩ := mshr_handleFill_flags hm
    have hn : store.tags.Nodup := by
      obtain hq | ⟨f, t₁, t₂, -, hp⟩ := handleFill_placed hP (hk hfill.1) hF.nodup hf
      · exact hq.nodup hF.nodup
      · exact hp.nodup hF.nodup
    refine ⟨fun x hx => has_handleFill hm (.inl hx), h1, h2, hn, (handleFill_geo hf).trans hg, fun hmay b' hb => ?_⟩
    obtain rfl := Option.some.inj hb
    exact (handleFill_fits hP hF (hk hfill.1) htemp (hown hmay) hf).1
  · cases h
    refine ⟨fun x hx => .inl hx, rfl, rfl, hF.nodup, hg, fun hmay b hb => ?_⟩
    obtain ⟨f, hf, rfl⟩ := Option.map_eq_some_iff.1 hb
    exact hown hmay f hf

theorem handleResponse_avoids {up : Nat → UpwardSnoop} (hP : P.Lawful view) (hF : Lru.Frames n s.store.tags)
    (hg : s.geo = g) (hm : ∀ x, (s.ctl.mshr ref).Has x →
      x.pkt.threadID = pkt.threadID ∧ g.blkAddr x.pkt.addr = g.blkAddr pkt.addr)
    (htemp : s.store.tags.maxMasters ≤ s.store.tempBlock.srcMasterId) (hfake : FakeOk P s.store.tags pkt)
    (hown : (!(s.ctl.mshr ref).isForward && (pkt.isRead || pkt.cmd == .upgradeResp)) = true ∨
        (s.ctl.mshr ref).inService = true ∨ pkt.isInvalidate = true → (s.ctl.mshr ref).Takes pkt →
      ∀ f, P.lookup s.store.tags pkt.addr pkt.threadID = some f → Own s.store.tags pkt.threadID f) :
    Avoids .notInSet (s.handleResponse P ref pkt up) := by
  simp only [handleResponse, avoids_bind, avoids_pure, clearNoTarget_avoids, assert_avoids, assertMaster,
    finishMshr_avoids, allocateWriteBuffers_avoids, clearTemp_avoids, true_and, implies_true, and_true]
  intro c _ _ _ _ _
  generalize hisFill : (!(s.ctl.mshr ref).isForward && (pkt.isRead || pkt.cmd == .upgradeResp)) = isFill at hown ⊢
  have hk : isFill = true → pkt.isRead = true ∨ pkt.cmd = .upgradeResp := by
    intro h
    rw [← hisFill] at h
    simp only [Bool.and_eq_true, Bool.or_eq_true, beq_iff_eq] at h
    exact h.2
  refine ⟨?_, fun r hr => ?_⟩
  · unfold fill
    simp only [avoids_ite, avoids_bind, avoids_pure, avoids_ok, mshr_handleFill_avoids, handleFill_avoids hF hfake,
      implies_true, and_true]
  have hS := fill_served (g := g) hP hF hg hk htemp
    (fun h : (isFill = true ∨ (s.ctl.mshr ref).inService = true ∨ pkt.isInvalidate = true) ∧
      (s.ctl.mshr ref).Takes pkt => hown h.1 h.2) hr
  have hx : ∀ x ∈ r.mshr.targets.list, x.pkt.threadID = pkt.threadID ∧
      r.store.tags.geo.blkAddr x.pkt.addr = g.blkAddr pkt.addr := by
    intro x hx
    rw [hS.geo]
    exact hm x (hS.has x hx)
  refine ⟨Fill.serveTargets_avoids hS.nodup hx ?_, ?_⟩
  · rintro hd ⟨x, hmem, htake⟩
    refine hS.fits ⟨?_, .inr (.inr ⟨x, List.mem_append.2 (hS.has x hmem), htake⟩)⟩
    rw [hS.inService] at hd
    exact hd.imp id .inl
  · -- the invalidation after the targets meets the block where they left it
    rintro ⟨store, out⟩ hs
    have hmay : pkt.isInvalidate = true ∨ r.mshr.inService = true ∧ r.mshr.postInvalidate = true →
        (isFill = true ∨ (s.ctl.mshr ref).inService = true ∨ pkt.isInvalidate = true) ∧
          (s.ctl.mshr ref).Takes pkt := by
      rw [hS.inService, hS.postInvalidate]
      rintro (h | ⟨h1, h2⟩)
      · exact ⟨.inr (.inr h), .inl h⟩
      · exact ⟨.inr (.inl h1), .inr (.inl h2)⟩
    cases hb : r.blk with
    | none => exact avoids_ok _
    | some b =>
      rw [hb] at hs
      have hserve := Fill.serveTargets_serve hx hs
      refine Fill.afterTargets_avoids ((hserve.quiet hS.nodup).nodup hS.nodup) fun h b' hb' => ?_
      obtain rfl := Option.some.inj hb'
      exact (hS.fits (hmay h) b hb).serve hS.nodup hserve

/-! ## Requests -/

theorem accessWriteback_avoids {now lat : Nat} {blk : Option Nat} :
    Avoids .notInSet (st.accessWriteback c now pkt blk lat) := by
  unfold accessWriteback
  simp only [avoids_bind, assert_avoids, true_and]
  intro _ _
  split
  · simp [assertMaster]
  · simp only [avoids_bind, allocateBlock_avoids, true_and]
    rintro ⟨st₁, v, wbs⟩ ha
    obtain ⟨rfl, -⟩ | ⟨f, rfl, hv⟩ := allocateBlock_ok ha
    · exact avoids_pure _
    · simp [insertBlock_avoids hv.mem]

/-- `access` moves the block in the list where it found it; an invalidation uses
the list of the packet's thread. -/
theorem access_avoids {cfg : Config} {now : Nat} (hP : P.Lawful view) (hl : st.tags.Nodup)
    (hacc : P.accessBlock st.tags st.ext pkt.addr now pkt.threadID ≠ none)
    (hown : pkt.takes = true → ∀ f, P.lookup st.tags pkt.addr pkt.threadID = some f →
      permits pkt (st.tags.blks f) = true → Own st.tags pkt.threadID f) :
    Avoids .notInSet (st.access P cfg c now pkt) := by
  simp only [access, avoids_bind]
  refine ⟨avoids_orFail fun h => absurd h hacc, ?_⟩
  rintro ⟨tags, ext, blk, lat⟩ ha
  rw [orFail_ok] at ha
  obtain ⟨hblk, ht⟩ := hP.access ha
  have hl' : tags.Nodup := ht.quiet.nodup hl
  cases blk with
  | some f =>
    simp only [avoids_bind, avoids_ite, avoids_pure, assertMaster, assert_avoids, accessWriteback_avoids, true_and,
      implies_true, and_true]
    refine fun hp _ _ => satisfyCpuSideRequest_avoids hl' fun htake => ?_
    have hp' : permits pkt (st.tags.blks f) = true := by
      rw [permits, CacheBlk.isWritable, CacheBlk.isReadable, ht.status] at hp
      exact hp
    show f ∈ tags.sets pkt.threadID (tags.blks f).set
    rw [ht.quiet.mem_iff, ht.set]
    exact hown htake f hblk.symm hp'
  | none => simp [accessWriteback_avoids]

theorem uncacheable_avoids (hl : st.tags.Nodup)
    (hown : pkt.isWrite = true → ∀ f, P.lookup st.tags pkt.addr pkt.threadID = some f →
      Own st.tags (P.locate st.tags pkt.addr pkt.threadID) f) : Avoids .notInSet (st.uncacheable P pkt) := by
  simp only [uncacheable, avoids_ite, avoids_ok, implies_true, and_true, true_and]
  intro _ hw
  split
  · exact avoids_ok _
  · next f hf => exact invalidateBlk_avoids hl (hown hw f hf)

theorem accessed_avoids {r : AccessResult ε} : Avoids .notInSet (s.accessed r) := by
  have hhide : ∀ (st : Storage ε) (p : Packet) (blk : Option Nat), Avoids .notInSet (hideBlock st p blk) := by
    intro st p blk
    unfold hideBlock
    split <;> simp
  have hmissed : Avoids .notInSet (s.missed r) := by
    unfold missed
    simp only [avoids_bind, assertMaster, assert_avoids, true_and]
    intro _ _
    split
    · simp [mshrHit]
    · simp [mshrMiss, hhide]
  simp [accessed, satisfied, hmissed]

theorem recvTimingReq_avoids (hP : P.Lawful view) (hl : s.store.tags.Nodup)
    (hacc : P.accessBlock s.store.tags s.store.ext pkt.addr s.now pkt.threadID ≠ none)
    (hown : pkt.req.isUncacheable = false → pkt.takes = true →
      ∀ f, P.lookup s.store.tags pkt.addr pkt.threadID = some f →
        permits pkt (s.store.tags.blks f) = true → Own s.store.tags pkt.threadID f)
    (hmove : pkt.req.isUncacheable = true → pkt.isWrite = true →
      ∀ f, P.lookup s.store.tags pkt.addr pkt.threadID = some f →
        Own s.store.tags (P.locate s.store.tags pkt.addr pkt.threadID) f) :
    Avoids .notInSet (s.recvTimingReq P pkt) := by
  have hinh : Avoids .notInSet (s.inhibited pkt) := by simp [inhibited]
  have huncached : Avoids .notInSet (s.allocateUncacheable pkt) := by simp [allocateUncacheable]
  simp only [recvTimingReq, timingAccess, avoids_ite, avoids_ok, avoids_bind, avoids_pure, assert_avoids, hinh,
    uncacheableAccess, cacheableAccess, huncached, accessed_avoids, allocateWriteBuffers_avoids, implies_true, and_true,
    true_and]
  intro _ _ _ _ _
  refine ⟨fun hu => uncacheable_avoids hl (hmove hu), fun hu => access_avoids hP hl hacc (hown ?_)⟩
  simpa using hu

/-! ## Snoops -/

theorem snoopWritebacks_avoids : Avoids .notInSet (s.snoopWritebacks pkt) := by
  unfold snoopWritebacks
  split
  · exact avoids_ok _
  · simp [snoopWriteback, discardIf]
  · simp

theorem snoopBlocks_avoids {blk : Option Nat} {up : UpwardSnoop} (hl : s.store.tags.Nodup)
    (hown : pkt.isInvalidate = true → ∀ f, blk = some f → Own s.store.tags pkt.threadID f) :
    Avoids .notInSet (s.snoopBlocks pkt blk up) := by
  simp only [snoopBlocks, avoids_bind, avoids_pure, snoopWritebacks_avoids, true_and, implies_true, and_true]
  rintro ⟨s₁, pkt₁⟩ hw
  obtain ⟨h1, -, h3, -, h5⟩ := snoopWritebacks_store hw
  rw [h1]
  refine handleSnoop_avoids hl fun hi b hb => ?_
  obtain ⟨f, hf, rfl⟩ := Option.map_eq_some_iff.1 hb
  rw [Packet.isInvalidate, h3] at hi
  rw [h5]
  exact hown hi f hf

theorem snoopTiming_avoids {up : UpwardSnoop} (hl : s.store.tags.Nodup)
    (hown : pkt.isInvalidate = true → ∀ f, P.findBlock s.store.tags pkt.addr pkt.threadID = some f →
      Own s.store.tags pkt.threadID f) : Avoids .notInSet (s.snoopTiming P pkt up) := by
  unfold snoopTiming
  rw [avoids_ite]
  refine ⟨fun _ => avoids_ok _, fun _ => ?_⟩
  simp only
  split
  · exact snoopBlocks_avoids hl hown
  · generalize hr : (s.ctl.mshr _).handleSnoop s.now pkt s.ctl.order = r
    obtain ⟨m, pkt', deferred⟩ := r
    simp only [avoids_ite, avoids_ok, implies_true, true_and]
    intro hd
    obtain rfl : deferred = false := by simpa using hd
    obtain rfl := mshr_handleSnoop_not_deferred hr
    exact snoopBlocks_avoids hl hown

/-! ## Sending -/

theorem sendPacket_avoids {env : SendEnv} : Avoids .notInSet (s.sendPacket ref pkt env) := by
  simp [sendPacket]

theorem sendMiss_avoids {env : SendEnv} : Avoids .notInSet (s.sendMiss P ref pkt env) := by
  simp [sendMiss, sendPacket_avoids]

theorem getNextMSHR_avoids {pf : Option Prefetch} : Avoids .notInSet (s.getNextMSHR P tid pf) := by
  unfold getNextMSHR
  split
  · exact avoids_ok _
  · split
    · exact avoids_ok _
    · simp [assertMaster]

/-- A conditional store that failed while it waited is answered here; it invalidates nothing. -/
theorem sendDeferredPacket_avoids {env : SendEnv} (hP : P.Lawful view) (hS : Sound n g s)
    (htemp : s.store.tags.maxMasters ≤ s.store.tempBlock.srcMasterId) (hfake : ∀ pkt, FakeOk P s.store.tags pkt) :
    Avoids .notInSet (s.sendDeferredPacket P tid env) := by
  simp only [sendDeferredPacket, avoids_bind, getNextMSHR_avoids, true_and]
  rintro ⟨s₁, r⟩ hn
  obtain ⟨hs₁, hrun, -, hsome⟩ := getNextMSHR_moves hS.geo hn
  cases r with
  | none => exact avoids_pure _
  | some ref =>
    simp only [avoids_bind, avoids_ite, getTarget_avoids, isForwardNoResponse_avoids, sendPacket_avoids,
      sendMiss_avoids,
      true_and, implies_true, and_true]
    intro x hx _
    have hc₁ : CtlOk g s₁.ctl := hrun.ok hS.ctl
    have hwaits : (s₁.ctl.mshr ref).inService = false := ((ready_iff hc₁).1 (hsome ref rfl).1).2
    simp only [Mshr.getTarget, orFail_ok] at hx
    rw [show s₁ = { s with ctl := s₁.ctl } from hs₁]
    refine handleResponse_avoids (g := g) hP hS.frames hS.geo (fun y hy => ?_) htemp (hfake _) fun hmay => ?_
    · have hreg := (hc₁ ref).regs ref.reg
      have h1 := hreg.mem y hy
      have h2 := hreg.mem x (.inl (List.mem_of_head? hx))
      exact ⟨h1.1.trans h2.1.symm, h1.2.trans h2.2.symm⟩
    · obtain h | h | h := hmay
      · simp [Packet.isRead, commandInfo] at h
      · rw [show (State.ctl { s with ctl := s₁.ctl }).mshr ref = s₁.ctl.mshr ref from rfl, hwaits] at h
        cases h
      · cases h

/-! ## Steps -/

/-- No block is taken away from the other partition: a request of either thread
that takes a block it may write finds it in its own partition, and so does a
response whose packet, targets or snoops take it. -/
def TakeOk (P : Policy ε) (s : State ε) : Action → Prop
  | .recvTimingReq pkt => pkt.threadID < 2 ∧ (pkt.req.isUncacheable = false → pkt.takes = true →
      ∀ f ∈ P.lookup s.store.tags pkt.addr pkt.threadID,
        permits pkt (s.store.tags.blks f) = true → Own s.store.tags pkt.threadID f)
  | .recvTimingResp ref r => ∀ q ∈ s.bus, q.ref = ref → (s.ctl.mshr ref).Takes (r.packet q.pkt) →
      ∀ f ∈ P.lookup s.store.tags q.pkt.addr q.pkt.threadID, Own s.store.tags q.pkt.threadID f
  | _ => True

/-- Uncacheable writes and snoops invalidate the block in the list it is in. -/
def MoveOk (P : Policy ε) (s : State ε) : Action → Prop
  | .recvTimingReq pkt => pkt.req.isUncacheable = true → pkt.isWrite = true →
      ∀ f ∈ P.lookup s.store.tags pkt.addr pkt.threadID,
        Own s.store.tags (P.locate s.store.tags pkt.addr pkt.threadID) f
  | .recvTimingSnoopReq pkt _ => pkt.isInvalidate = true →
      ∀ f ∈ P.findBlock s.store.tags pkt.addr pkt.threadID, Own s.store.tags pkt.threadID f
  | _ => True

instance (P : Policy ε) (s : State ε) (a : Action) : Decidable (TakeOk P s a) := by
  unfold TakeOk
  induction a using Action.casesOn <;> infer_instance

instance (P : Policy ε) (s : State ε) (a : Action) : Decidable (MoveOk P s a) := by
  unfold MoveOk
  induction a using Action.casesOn <;> infer_instance

theorem step_avoids (hP : P.Lawful view) (hS : Sound n g s)
    (htemp : s.store.tags.maxMasters ≤ s.store.tempBlock.srcMasterId) (hfake : ∀ pkt, FakeOk P s.store.tags pkt)
    (hacc : ∀ addr t, t < 2 → P.accessBlock s.store.tags s.store.ext addr s.now t ≠ none) (htake : TakeOk P s a)
    (hmove : MoveOk P s a) : Avoids .notInSet (s.step P a) := by
  cases a with
  | advance ticks => exact avoids_ok _
  | recvTimingReq pkt =>
    have hacc' : P.accessBlock s.store.tags s.store.ext ({ pkt with origin := none } : Packet).addr s.now
        ({ pkt with origin := none } : Packet).threadID ≠ none := hacc _ _ htake.1
    exact recvTimingReq_avoids hP hS.frames.nodup hacc' htake.2 hmove
  | recvTimingResp ref r =>
    show Avoids .notInSet (s.recvTimingResp P ref r)
    unfold recvTimingResp
    split
    · exact avoids_ok _
    · next f hf =>
      rw [avoids_ite]
      refine ⟨fun _ => ?_, fun _ => avoids_ok _⟩
      obtain rfl : f.ref = ref := by simpa using List.find?_some hf
      have hfm := List.mem_of_find?_eq_some hf
      exact handleResponse_avoids (g := g) hP hS.frames hS.geo (fun x hx => hS.targets hfm x hx) htemp (hfake _)
        fun _ ht f' hf' => htake f hfm rfl ht f' hf'
  | recvTimingSnoopReq pkt up => exact snoopTiming_avoids hS.frames.nodup hmove
  | send tid env => exact sendDeferredPacket_avoids hP hS htemp hfake

/-- `tempBlock` keeps a master id that no counter has. -/
theorem temp_kept {s s' : State ε} (hP : P.Lawful view) (hS : Sound n g s) (h : s.step P a = .ok s') :
    s'.store.tags.maxMasters = s.store.tags.maxMasters ∧
      s'.store.tempBlock.srcMasterId = s.store.tempBlock.srcMasterId := by
  obtain he | ⟨c, pkt, wbs, he⟩ := (step_moves hP hS h).effect
  · rw [he]
    exact ⟨rfl, rfl⟩
  · exact ⟨he.maxMasters hP hS.frames.nodup, he.temp.srcMasterId⟩

end State

/-! ## The two caches -/

section

variable {s : Lru} {n t i f addr : Nat}

theorem own_of_mem (hF : Lru.Frames n s) (h : f ∈ s.sets t i) : Own s t f := by
  rw [Own, hF.setOf f t i h]
  exact h

theorem own_of_held (hF : Lru.Frames n s) (h : Held s t addr f) : Own s t f := own_of_mem hF h.1

theorem moveToHead_ne_none {l : List Nat} (h : f ∈ l) : moveToHead l f ≠ none := by
  rw [moveToHead_eq h]
  simp

theorem FDynaLru.accessBlock_ne_none (s : Lru) (addr now : Nat) (ht : t < 2) :
    FDynaLru.accessBlock s addr now t ≠ none := by
  have hhit : ∀ t f, s.findBlock addr t = some f → FDynaLru.hit s addr now t f ≠ none := by
    intro t f hf
    rw [FDynaLru.hit, Ne, Option.map_eq_none_iff]
    exact moveToHead_ne_none (mem_of_findBlk hf)
  unfold FDynaLru.accessBlock
  split
  · split
    · next f hf => exact hhit 0 f hf
    · simp
  · next h0 =>
    obtain rfl : t = 1 := by omega
    split
    · next f hf => exact hhit 1 f hf
    · split <;> simp

/-- `locateBlock` names the list where the block was found. -/
theorem DcLru.mem_locateBlock (ht : t < 2) (h : DcLru.findBlock s addr t t = some f) :
    f ∈ s.sets (DcLru.locateBlock s addr t t) (s.geo.extractSet addr) := by
  rw [findBlock_eq] at h
  show f ∈ s.sets (if t = 1 then if (s.findBlock addr 0).isSome then 0 else 1 else 0) (s.geo.extractSet addr)
  split at h
  · next h0 =>
    rw [if_neg (by omega)]
    exact mem_of_findBlk h
  · next h0 =>
    rw [if_pos (by omega)]
    split at h
    · next hs =>
      rw [if_pos hs]
      exact mem_of_findBlk h
    · next hs =>
      rw [if_neg hs]
      exact mem_of_findBlk h

theorem DcLru.accessBlock_ne_none (s : Lru) (addr now : Nat) (ht : t < 2) :
    DcLru.accessBlock s addr now t t ≠ none := by
  unfold DcLru.accessBlock
  split
  · simp
  · next f hf =>
    rw [Ne, Option.map_eq_none_iff]
    exact moveToHead_ne_none (DcLru.mem_locateBlock ht hf)

end

open State

theorem FDynamic.fakeOk (s : Lru) (pkt : Packet) : Storage.FakeOk FDynamic.policy s pkt := fun _ _ h => by cases h

/-- Low is asked first, so a High copy is only moved when it is in High's list. -/
theorem Dirty.fakeOk {n : Nat} {s : Lru} (hF : Lru.Frames n s) (pkt : Packet) :
    Storage.FakeOk Dirty.policy s pkt := by
  intro hn f hf
  have hf' : DcLru.findBlock s pkt.addr 1 1 = some f := hf
  rw [DcLru.findBlock_eq, if_neg (by decide)] at hf'
  split at hf'
  · exact absurd (held_of_findBlock hf') (DcLru.findBlock_none hn 0 (.inl rfl) f)
  · exact own_of_held hF (held_of_findBlock hf')

/-- `DirtyCache` locates the block for an uncacheable write, and its snoops only
look into the partition of their thread. -/
theorem Dirty.moveOk {s : State Unit} {n : Nat} (hF : Lru.Frames n s.store.tags) (h : TakeOk Dirty.policy s a) :
    MoveOk Dirty.policy s a := by
  cases a with
  | recvTimingReq pkt => exact fun _ _ f hf => own_of_mem hF (DcLru.mem_locateBlock h.1 hf)
  | recvTimingSnoopReq pkt up => exact fun _ f hf => own_of_held hF (held_of_findBlock hf)
  | advance ticks => trivial
  | recvTimingResp ref r => trivial
  | send tid env => trivial

/-- Resizing moves no block. -/
def FDynamic.MemberOk (s : State Unit) : FDynamic.Act → Prop
  | .cache a => TakeOk FDynamic.policy s a ∧ MoveOk FDynamic.policy s a
  | .adjustPartition => True

instance (s : State Unit) (a : FDynamic.Act) : Decidable (FDynamic.MemberOk s a) := by
  unfold FDynamic.MemberOk
  split <;> infer_instance

/-- High reads a block of Low for ownership. -/
def takeLowBlock : List Action := Small.load 0 0 false ++ [Small.readEx 1 0]

theorem high_takes_low_block :
    runs FDynamic.step (FDynamic.init Small.cfg (Small.geo 3 (by decide)) 1 4 4) (takeLowBlock.map .cache) =
      .error .notInSet ∧
    runs Dirty.step (Dirty.init Small.cfg (Small.geo 4 (by decide)) 1 4 4) takeLowBlock = .error .notInSet :=
  ⟨error_of_fault (by decide +kernel), error_of_fault (by decide +kernel)⟩

/-- In every run in which no block is taken away from the other partition (and,
in `F_DynamicCache`, no uncacheable write or snoop of High invalidates a block of
Low), every block that is moved is in the list. -/
theorem lists_hold_moved_blocks (cfg : Config) (geo : Geometry) (maxMasters mshrs writeBuffers : Nat)
    (hm : maxMasters ≤ invldMasterId) :
    (∀ as : List FDynamic.Act,
      Always FDynamic.step FDynamic.MemberOk (FDynamic.init cfg geo maxMasters mshrs writeBuffers) as →
      runs FDynamic.step (FDynamic.init cfg geo maxMasters mshrs writeBuffers) as ≠ .error .notInSet) ∧
    ∀ as : List Action,
      Always Dirty.step (TakeOk Dirty.policy) (Dirty.init cfg geo maxMasters mshrs writeBuffers) as →
      runs Dirty.step (Dirty.init cfg geo maxMasters mshrs writeBuffers) as ≠ .error .notInSet := by
  constructor
  · intro as hok
    refine runs_avoids (fun s => FDynamic.Fit geo s ∧ s.store.tags.maxMasters ≤ s.store.tempBlock.srcMasterId)
      (fun s a s' hI _ hs => ⟨FDynamic.step_fit hI.1 hs, ?_⟩) (fun s a hI ha => ?_)
      ⟨FDynamic.fit_init cfg geo maxMasters mshrs writeBuffers, hm⟩ hok
    · obtain ⟨-, rfl⟩ | ⟨b, -, hb⟩ := FDynamic.step_cases hI.1 hs
      · exact hI.2
      · obtain ⟨h1, h2⟩ := temp_kept FDynamic.lawful hI.1.sound hb
        rw [h1, h2]
        exact hI.2
    · cases a with
      | cache a =>
        refine step_avoids FDynamic.lawful hI.1.sound hI.2 (FDynamic.fakeOk _) (fun addr t ht => ?_) ha.1 ha.2
        simpa [FDynamic.policy] using FDynaLru.accessBlock_ne_none _ addr s.now ht
      | adjustPartition =>
        show Avoids _ (FDynamic.adjustPartition s)
        rw [FDynamic.adjustPartition_eq hI.1.tidy]
        exact avoids_ok _
  · intro as hok
    refine runs_avoids (fun s => Sound 2 geo s ∧ s.store.tags.maxMasters ≤ s.store.tempBlock.srcMasterId)
      (fun s a s' hI _ hs => ⟨step_sound Dirty.lawful hI.1 hs, ?_⟩) (fun s a hI ha => ?_)
      ⟨Dirty.sound_init cfg geo maxMasters mshrs writeBuffers, hm⟩ hok
    · obtain ⟨h1, h2⟩ := temp_kept Dirty.lawful hI.1 hs
      rw [h1, h2]
      exact hI.2
    · have hF := hI.1.frames
      refine step_avoids Dirty.lawful hI.1 hI.2 (Dirty.fakeOk hF) (fun addr t ht => ?_) ha (Dirty.moveOk hF ha)
      simpa [Dirty.policy] using DcLru.accessBlock_ne_none _ addr s.now ht

/-- Low loads a block, High reads it, and both take away blocks of their own. -/
def takeOwnBlocks : List Action :=
  Small.load 0 0 false ++ [Small.read 1 0] ++ Small.load 1 4 false ++ [Small.readEx 1 4, Small.readEx 0 0]

theorem lists_hold_moved_blocks_taken :
    runs FDynamic.step (FDynamic.init Small.cfg (Small.geo 3 (by decide)) 1 4 4)
      (takeOwnBlocks.map .cache ++ [.adjustPartition]) ≠ .error .notInSet ∧
    runs Dirty.step (Dirty.init Small.cfg (Small.geo 4 (by decide)) 1 4 4) takeOwnBlocks ≠ .error .notInSet :=
  ⟨(lists_hold_moved_blocks Small.cfg (Small.geo 3 (by decide)) 1 4 4 (by decide)).1 _ (by decide +kernel),
    (lists_hold_moved_blocks Small.cfg (Small.geo 4 (by decide)) 1 4 4 (by decide)).2 _ (by decide +kernel)⟩

end DynamicCache.Cache
