import DynamicCache.Cache.Lawful

/-!
# What resizing the partitions does

`C_DynamicCache` hands the last frame of every set of one partition to the
other and then cleans it up: `Resized` says what is left, and which writebacks
were queued.  A sound state stays sound (`adjustPartition_sound`).
-/

namespace DynamicCache.Cache

open Lib Tags Storage

variable {ε : Type}

/-! ## Single frames -/

/-- Frame `f` goes through `h`, the rest of the storage stays. -/
structure Alters (s s' : State ε) (f : Nat) (h : CacheBlk → CacheBlk) : Prop where
  geo : s'.store.tags.geo = s.store.tags.geo
  maxMasters : s'.store.tags.maxMasters = s.store.tags.maxMasters
  assocOfTc : s'.store.tags.assocOfTc = s.store.tags.assocOfTc
  sets : s'.store.tags.sets = s.store.tags.sets
  self : s'.store.tags.blks f = h (s.store.tags.blks f)
  other : ∀ g, g ≠ f → s'.store.tags.blks g = s.store.tags.blks g
  temp : s'.store.tempBlock = s.store.tempBlock
  source : s'.store.source = s.store.source
  accepted : s'.store.accepted = s.store.accepted
  overwrote : s'.store.overwrote = s.store.overwrote
  rest : State.Rest s s'

variable {f i n tc tc' : Nat} {h : CacheBlk → CacheBlk} {s s' : State ε} {fr : Nat → Nat} {g : Geometry}
  {l : List Nat} {done : Nat → Prop} {mid : CDynaLru}

theorem Alters.refl (hs : h (s.store.tags.blks f) = s.store.tags.blks f) : Alters s s f h :=
  ⟨rfl, rfl, rfl, rfl, hs.symm, fun _ _ => rfl, rfl, rfl, rfl, rfl, .refl s⟩

theorem Alters.trans {s'' : State ε} {h' : CacheBlk → CacheBlk} (h1 : Alters s s' f h) (h2 : Alters s' s'' f h') :
    Alters s s'' f (h' ∘ h) where
  geo := h2.geo.trans h1.geo
  maxMasters := h2.maxMasters.trans h1.maxMasters
  assocOfTc := h2.assocOfTc.trans h1.assocOfTc
  sets := h2.sets.trans h1.sets
  self := by rw [h2.self, h1.self]; rfl
  other g hg := (h2.other g hg).trans (h1.other g hg)
  temp := h2.temp.trans h1.temp
  source := h2.source.trans h1.source
  accepted := h2.accepted.trans h1.accepted
  overwrote := h2.overwrote.trans h1.overwrote
  rest := ⟨h2.rest.bus.trans h1.rest.bus, h2.rest.now.trans h1.rest.now, h2.rest.cfg.trans h1.rest.cfg⟩

/-- The block after `writebackNow`. -/
def cleanedIf (b : CacheBlk) : CacheBlk := if b.isDirty && b.isValid then cleaned b else b

theorem alters_modify (s : State ε) (f : Nat) (h : CacheBlk → CacheBlk) :
    Alters s { s with store := s.store.modify (.frame f) h } f h where
  geo := rfl
  maxMasters := rfl
  assocOfTc := rfl
  sets := rfl
  self := by simp [Storage.modify, Storage.putBlk, Storage.blk, Lru.putBlk]
  other g hg := by simp [Storage.modify, Storage.putBlk, Lru.putBlk, hg]
  temp := rfl
  source := rfl
  accepted := rfl
  overwrote := rfl
  rest := ⟨rfl, rfl, rfl⟩

/-- The control state is not part of what `Alters` speaks of. -/
theorem Alters.withCtl (ha : Alters s s' f h) (c : Control) : Alters s { s' with ctl := c } f h :=
  ⟨ha.geo, ha.maxMasters, ha.assocOfTc, ha.sets, ha.self, ha.other, ha.temp, ha.source, ha.accepted,
    ha.overwrote, ⟨ha.rest.bus, ha.rest.now, ha.rest.cfg⟩⟩

/-- A frame whose set is known has a block-aligned address. -/
theorem blockAlign_regenerate (g : Geometry) {tag set : Nat} (h : set < g.numSets) :
    blockAlign g (g.regenerateBlkAddr tag set) = g.regenerateBlkAddr tag set := by
  rw [g.regenerateBlkAddr_eq h, blockAlign, Geometry.blkAddr, Nat.shiftLeft_shiftRight]

/-- The writeback that `writebackNow` queues for a dirty block. -/
def Evicts (s : State ε) (f tid : Nat) : Newcomer := fun w time p =>
  w = true ∧ time = s.now ∧ (s.store.tags.blks f).isValid = true ∧ (s.store.tags.blks f).isDirty = true ∧
    p = s.store.writebackPacket (.frame f) tid

theorem writebackNow_alters {tid : Nat} (hg : s.geo = g) (hset : (s.store.tags.blks f).set < g.numSets)
    (h : s.writebackNow f tid = .ok s') :
    Alters s s' f cleanedIf ∧ CtlRun g s.now none (Evicts s f tid) s.ctl s'.ctl := by
  unfold State.writebackNow at h
  split at h
  · next hd =>
    simp only [bind_ok] at h
    obtain ⟨⟨store, wb⟩, hw, ⟨ctl, ref⟩, hb, h⟩ := h
    cases h
    obtain ⟨hv, hdirty, rfl, rfl⟩ := writebackBlk_ok hw
    constructor
    · have ha := (alters_modify s f cleaned).withCtl ctl
      refine ⟨ha.geo, ha.maxMasters, ha.assocOfTc, ha.sets, ?_, ha.other, ha.temp, ha.source, ha.accepted,
        ha.overwrote, ha.rest⟩
      rw [cleanedIf, if_pos hd]
      exact ha.self
    · simp only [Control.allocateWriteBuffer, bind_ok] at hb
      obtain ⟨-, -, hb⟩ := hb
      refine allocateBufferInternal_run (g := g) ⟨rfl, rfl, hv, hdirty, rfl⟩ ?_ hb
      have hsize : (s.store.writebackPacket (.frame f) tid).size = g.blkSize := by
        rw [← hg]
        rfl
      rw [hsize]
      refine .evict rfl ?_
      show blockAlign g (s.geo.regenerateBlkAddr _ _) = s.geo.regenerateBlkAddr _ _
      rw [hg]
      exact blockAlign_regenerate g hset
  · next hd =>
    cases h
    refine ⟨.refl ?_, .refl⟩
    rw [cleanedIf, if_neg hd]

/-! ## Loops over the sets -/

/-- The frames in `done` went through `h`, the others stayed. -/
structure Swept (s s' : State ε) (h : CacheBlk → CacheBlk) (done : Nat → Prop) : Prop where
  geo : s'.store.tags.geo = s.store.tags.geo
  maxMasters : s'.store.tags.maxMasters = s.store.tags.maxMasters
  assocOfTc : s'.store.tags.assocOfTc = s.store.tags.assocOfTc
  sets : s'.store.tags.sets = s.store.tags.sets
  swept : ∀ f, done f → s'.store.tags.blks f = h (s.store.tags.blks f)
  kept : ∀ f, ¬done f → s'.store.tags.blks f = s.store.tags.blks f
  temp : s'.store.tempBlock = s.store.tempBlock
  source : s'.store.source = s.store.source
  accepted : s'.store.accepted = s.store.accepted
  overwrote : s'.store.overwrote = s.store.overwrote
  rest : State.Rest s s'

theorem Swept.start (s : State ε) (h : CacheBlk → CacheBlk) (hd : ∀ f, ¬done f) : Swept s s h done :=
  ⟨rfl, rfl, rfl, rfl, fun f hf => absurd hf (hd f), fun _ _ => rfl, rfl, rfl, rfl, rfl, .refl s⟩

/-- One more frame. -/
theorem Swept.step {x x' : State ε} {done' : Nat → Prop} (hs : Swept s x h done) (hf : ¬done f)
    (hd : ∀ g, done' g ↔ done g ∨ g = f) (ha : Alters x x' f h) : Swept s x' h done' where
  geo := ha.geo.trans hs.geo
  maxMasters := ha.maxMasters.trans hs.maxMasters
  assocOfTc := ha.assocOfTc.trans hs.assocOfTc
  sets := ha.sets.trans hs.sets
  swept g hg := by
    by_cases he : g = f
    · rw [he, ha.self, hs.kept f hf]
    · rw [ha.other g he]
      exact hs.swept g (((hd g).1 hg).resolve_right he)
  kept g hg := by
    have hne : g ≠ f := fun he => hg ((hd g).2 (.inr he))
    rw [ha.other g hne]
    exact hs.kept g fun h => hg ((hd g).2 (.inl h))
  temp := ha.temp.trans hs.temp
  source := ha.source.trans hs.source
  accepted := ha.accepted.trans hs.accepted
  overwrote := ha.overwrote.trans hs.overwrote
  rest := ⟨ha.rest.bus.trans hs.rest.bus, ha.rest.now.trans hs.rest.now, ha.rest.cfg.trans hs.rest.cfg⟩

/-- Tag and place of a block stay, and none becomes valid. -/
structure Tame (h : CacheBlk → CacheBlk) : Prop where
  tag : ∀ b, (h b).tag = b.tag
  set : ∀ b, (h b).set = b.set
  valid : ∀ b, (h b).isValid = true → b.isValid = true ∧ (h b).srcMasterId = b.srcMasterId

theorem Tame.of_cases {k : CacheBlk → CacheBlk} (hk : Tame k) (hc : ∀ b, h b = k b ∨ h b = b) : Tame h := by
  refine ⟨fun b => ?_, fun b => ?_, fun b hv => ?_⟩
  · obtain he | he := hc b
    · rw [he, hk.tag]
    · rw [he]
  · obtain he | he := hc b
    · rw [he, hk.set]
    · rw [he]
  · obtain he | he := hc b
    · rw [he] at hv ⊢
      exact hk.valid b hv
    · rw [he] at hv ⊢
      exact ⟨hv, rfl⟩

theorem tame_cleanedIf : Tame cleanedIf := by
  have hk : Tame cleaned := ⟨fun _ => rfl, fun _ => rfl, fun _ hv => ⟨hv, rfl⟩⟩
  refine hk.of_cases fun b => ?_
  unfold cleanedIf
  split
  · exact .inl rfl
  · exact .inr rfl

section

variable {s x : State ε} {h : CacheBlk → CacheBlk} {done : Nat → Prop} {f : Nat}

/-- Every block went through `h` or stayed. -/
theorem Swept.blk_cases (hs : Swept s x h done) (f : Nat) :
    x.store.tags.blks f = h (s.store.tags.blks f) ∨ x.store.tags.blks f = s.store.tags.blks f := by
  by_cases hd : done f
  · exact .inl (hs.swept f hd)
  · exact .inr (hs.kept f hd)

theorem Swept.tag (hs : Swept s x h done) (hh : Tame h) : (x.store.tags.blks f).tag = (s.store.tags.blks f).tag := by
  obtain he | he := hs.blk_cases f
  · rw [he, hh.tag]
  · rw [he]

theorem Swept.valid (hs : Swept s x h done) (hh : Tame h) (hv : (x.store.tags.blks f).isValid = true) :
    (s.store.tags.blks f).isValid = true ∧ (x.store.tags.blks f).srcMasterId = (s.store.tags.blks f).srcMasterId := by
  obtain he | he := hs.blk_cases f
  · rw [he] at hv ⊢
    exact hh.valid _ hv
  · rw [he] at hv ⊢
    exact ⟨hv, rfl⟩

theorem Swept.frames (hs : Swept s x h done) (hh : Tame h) (hF : Lru.Frames n s.store.tags) :
    Lru.Frames n x.store.tags where
  nodup t i := by
    rw [hs.sets]
    exact hF.nodup t i
  owner f t i t' i' h1 h2 := by
    rw [hs.sets] at h1 h2
    exact hF.owner f t i t' i' h1 h2
  setOf f t i hf := by
    rw [hs.sets] at hf
    obtain he | he := hs.blk_cases f
    · rw [he, hh.set, hF.setOf f t i hf]
    · rw [he, hF.setOf f t i hf]
  len t i ht hi := by
    rw [hs.sets, hs.assocOfTc]
    rw [hs.geo] at hi
    exact hF.len t i ht hi
  master f t i hf hv := by
    rw [hs.sets] at hf
    obtain ⟨h1, h2⟩ := hs.valid hh hv
    rw [h2, hs.maxMasters]
    exact hF.master f t i hf h1

end

/-- The packet depends on the block, its source and the geometry only. -/
theorem writebackPacket_eq {x : State ε} (hs : Swept s x h done) (hf : ¬done f) (tid : Nat) :
    x.store.writebackPacket (.frame f) tid = s.store.writebackPacket (.frame f) tid := by
  simp only [writebackPacket, blk, hs.kept f hf, hs.source, hs.geo]

/-- A loop that sends one frame of every set through `h`. -/
theorem swept_loop {body : State ε → Nat → Res (State ε)} {new : Newcomer}
    (hinj : ∀ i j, i < n → j < n → fr i = fr j → i = j)
    (hbody : ∀ i x x', i < n → Swept s x h (fun f => ∃ j < i, f = fr j) → body x i = .ok x' →
      Alters x x' (fr i) h ∧ CtlRun g s.now none new x.ctl x'.ctl) (hl : forLoop body n s = .ok s') :
    Swept s s' h (fun f => ∃ j < n, f = fr j) ∧ CtlRun g s.now none new s.ctl s'.ctl := by
  refine forLoop_invariant (fun k x => Swept s x h (fun f => ∃ j < k, f = fr j) ∧ CtlRun g s.now none new s.ctl x.ctl)
    (fun i x x' hi hx hb => ?_) ⟨Swept.start s h fun f ⟨j, hj, _⟩ => by omega, .refl⟩ hl
  obtain ⟨ha, hc⟩ := hbody i x x' hi hx.1 hb
  refine ⟨hx.1.step (f := fr i) ?_ (fun f => ?_) ha, hx.2.trans hc⟩
  · rintro ⟨j, hj, he⟩
    have := hinj i j hi (by omega) he
    omega
  · constructor
    · rintro ⟨j, hj, rfl⟩
      by_cases he : j = i
      · exact .inr (by rw [he])
      · exact .inl ⟨j, by omega, rfl⟩
    · rintro (⟨j, hj, rfl⟩ | rfl)
      · exact ⟨j, by omega, rfl⟩
      · exact ⟨i, by omega, rfl⟩

/-! ## C_DynamicCache -/

namespace CDynamic

open Tags.CDynaLru

variable {s s' : State Ext} {g : Geometry}

/-- The writeback of a frame that leaves partition `tc`; Low gives only its own blocks up. -/
def Leaves (s : State Ext) (tc f : Nat) : Newcomer := fun w time p =>
  (tc = 0 → (s.store.tags.blks f).threadID = 0) ∧ Evicts s f tc w time p

/-- In every set the last frame `fr i` of partition `tc` has become the last frame
of `tc'` and went through `h`; the writebacks that were queued are of these
frames, for thread `tc`. -/
structure Resized (g : Geometry) (tc tc' : Nat) (h : CacheBlk → CacheBlk) (s s' : State Ext) (mid : CDynaLru)
    (fr : Nat → Nat) : Prop where
  moved : Moved s.store.tags mid.lru tc tc' fr
  shrunk : mid.lru.assocOfTc tc + 1 = s.store.tags.assocOfTc tc
  grown : mid.lru.assocOfTc tc' = s.store.tags.assocOfTc tc' + 1
  swept : Swept (putTags s mid) s' h fun f => ∃ i < g.numSets, f = fr i
  run : CtlRun g s.now none (fun w time p => ∃ i < g.numSets, Leaves s tc (fr i) w time p) s.ctl s'.ctl

theorem Resized.withExt (hR : Resized g tc tc' h s s' mid fr) (e : Ext) :
    Resized g tc tc' h s { s' with store := { s'.store with ext := e } } mid fr :=
  have hw := hR.swept
  ⟨hR.moved, hR.shrunk, hR.grown, ⟨hw.geo, hw.maxMasters, hw.assocOfTc, hw.sets, hw.swept, hw.kept, hw.temp,
    hw.source, hw.accepted, hw.overwrote, hw.rest.bus, hw.rest.now, hw.rest.cfg⟩, hR.run⟩

/-- The frames that change hands are different. -/
theorem moved_injective {lru lru' : Lru} (hF : Lru.Frames 2 lru) (hM : Moved lru lru' tc tc' fr) (i j : Nat)
    (hi : i < lru.geo.numSets) (hj : j < lru.geo.numSets) (he : fr i = fr j) : i = j :=
  (hF.owner (fr i) tc i tc j (hM.mem_fr hi) (he ▸ hM.mem_fr hj)).2

/-- The frame that a resizing loop looks at is the last of its list. -/
theorem getEvictBlk_last {t : CDynaLru} (ht : tc < 2) (hl : t.lru.sets tc i = l ++ [f])
    (ha : t.lru.assocOfTc tc = l.length + 1) : t.getEvictBlk tc i = some f := by
  have hlast : (t.lru.sets tc i)[t.lru.assocOfTc tc - 1]? = some f := by
    rw [hl, ha]
    simp
  obtain rfl | rfl : tc = 0 ∨ tc = 1 := by omega
  · rw [getEvictBlk, if_pos rfl]
    exact hlast
  · rw [getEvictBlk, if_neg (by omega)]
    exact hlast

/-- Invalidating the last frame of a list leaves the list. -/
theorem invalidateBlk_alters {tid : Nat} {store : Storage Ext}
    (hl : s.store.tags.sets tid (s.store.tags.blks f).set = l ++ [f])
    (h : s.store.invalidateBlk (.frame f) tid = .ok store) :
    Alters s { s with store := store } f Lru.invalidated := by
  obtain ⟨tags, ht, rfl⟩ := invalidateBlk_frame h
  simp only [Lru.invalidateBlk] at ht
  split at ht
  · split at ht
    · obtain ⟨l', hm, rfl⟩ := Option.map_eq_some_iff.1 ht
      have hsame : l' = s.store.tags.sets tid (s.store.tags.blks f).set := by
        rw [Lru.getSet, moveToTail, if_pos (by rw [hl]; simp)] at hm
        exact (Option.some.inj hm).symm
      refine ⟨rfl, rfl, rfl, ?_, ?_, fun k hk => ?_, rfl, rfl, rfl, rfl, rfl, rfl, rfl⟩
      · simp [Lru.putBlk, Lru.putSet, hsame]
      · simp [Lru.putBlk]
      · simp [Lru.putBlk, Lru.putSet, hk]
    · cases ht
  · obtain rfl := Option.some.inj ht
    refine ⟨rfl, rfl, rfl, rfl, ?_, fun k hk => ?_, rfl, rfl, rfl, rfl, rfl, rfl, rfl⟩
    · simp [Lru.putBlk]
    · simp [Lru.putBlk, hk]

theorem incSet_alters {x x' : State Ext} (hg : x.geo = g) (hl : x.store.tags.sets 0 i = l ++ [f])
    (ha : x.store.tags.assocOfTc 0 = l.length + 1) (hset : (x.store.tags.blks f).set = i) (hi : i < g.numSets)
    (h : incSet x i = .ok x') : Alters x x' f cleanedIf ∧ CtlRun g x.now none (Leaves x 1 f) x.ctl x'.ctl := by
  have hf : (tagsOf x).getEvictBlk 0 i = some f := getEvictBlk_last (by omega) hl ha
  simp only [incSet, hf, bind_ok, orFail_ok] at h
  obtain ⟨f', hf', h⟩ := h
  obtain rfl := Option.some.inj hf'
  obtain ⟨h1, h2⟩ := writebackNow_alters hg (by rw [hset]; exact hi) h
  exact ⟨h1, h2.mono (fun _ h => h) fun _ _ p hp => ⟨by omega, hp⟩⟩

theorem invalidated_cleanedIf (b : CacheBlk) : Lru.invalidated (cleanedIf b) = Lru.invalidated b := by
  unfold cleanedIf
  split <;> rfl

theorem decSet_alters {x x' : State Ext} (hg : x.geo = g) (hl : x.store.tags.sets 1 i = l ++ [f])
    (ha : x.store.tags.assocOfTc 1 = l.length + 1) (hset : (x.store.tags.blks f).set = i) (hi : i < g.numSets)
    (h : decSet x i = .ok x') : Alters x x' f evicted ∧ CtlRun g x.now none (Leaves x 0 f) x.ctl x'.ctl := by
  have hf : (tagsOf x).getEvictBlk 1 i = some f := getEvictBlk_last (by omega) hl ha
  simp only [decSet, hf, bind_ok, orFail_ok] at h
  obtain ⟨f', hf', h⟩ := h
  obtain rfl := Option.some.inj hf'
  split at h
  · next h0 =>
    simp only [bind_ok] at h
    obtain ⟨y, hy, store, hst, h⟩ := h
    cases h
    obtain ⟨h1, h2⟩ := writebackNow_alters hg (by rw [hset]; exact hi) hy
    have hb : (y.store.tags.blks f).set = i := by
      rw [h1.self, cleanedIf]
      split <;> exact hset
    have h3 : Alters y { y with store := store } f Lru.invalidated :=
      invalidateBlk_alters (by rw [hb, h1.sets]; exact hl) hst
    have h4 := h1.trans (h3.trans (alters_modify { y with store := store } f fun x => { x with threadID := 1 }))
    refine ⟨⟨h4.geo, h4.maxMasters, h4.assocOfTc, h4.sets, ?_, h4.other, h4.temp, h4.source, h4.accepted,
      h4.overwrote, h4.rest⟩, h2.mono (fun _ h => h) fun _ _ p hp => ⟨fun _ => h0, hp⟩⟩
    rw [h4.self, evicted, if_pos h0, Function.comp, Function.comp, invalidated_cleanedIf]
  · next h0 =>
    cases h
    refine ⟨.refl ?_, .refl⟩
    rw [evicted, if_neg h0]

/-- The loop that follows the move of the frames. -/
theorem resized_of_loop {body : State Ext → Nat → Res (State Ext)} (hF : Lru.Frames 2 s.store.tags)
    (hg : s.geo = g) (ht : tc' < 2) (hR : Resizes (tagsOf s) mid tc tc' fr)
    (hbody : ∀ (l : List Nat) i f x x', x.geo = g → x.store.tags.sets tc' i = l ++ [f] →
      x.store.tags.assocOfTc tc' = l.length + 1 → (x.store.tags.blks f).set = i → i < g.numSets →
      body x i = .ok x' → Alters x x' f h ∧ CtlRun g x.now none (Leaves x tc f) x.ctl x'.ctl)
    (hl : forLoop body g.numSets (putTags s mid) = .ok s') : Resized g tc tc' h s s' mid fr := by
  have hM : Moved s.store.tags mid.lru tc tc' fr := hR.toMoved
  have hgs : s.store.tags.geo = g := hg
  have hinj : ∀ i j, i < g.numSets → j < g.numSets → fr i = fr j → i = j := by
    intro i j hi hj
    rw [← hgs] at hi hj
    exact moved_injective hF hM i j hi hj
  obtain ⟨h1, h2⟩ : Swept (putTags s mid) s' h (fun f => ∃ j < g.numSets, f = fr j) ∧
      CtlRun g s.now none (fun w time p => ∃ i < g.numSets, Leaves s tc (fr i) w time p) s.ctl s'.ctl := by
    refine swept_loop (s := putTags s mid) hinj (fun i x x' hi hx hb => ?_) hl
    have hi' : i < s.store.tags.geo.numSets := hgs ▸ hi
    -- the frame of this iteration is as it was at the start
    have hfresh : ¬∃ j < i, fr i = fr j := by
      rintro ⟨j, hj, he⟩
      have := hinj i j hi (by omega) he
      omega
    have hblk : x.store.tags.blks (fr i) = s.store.tags.blks (fr i) :=
      (hx.kept _ hfresh).trans (congrFun hM.blks _)
    obtain ⟨ha, hr⟩ := hbody (s.store.tags.sets tc' i) i (fr i) x x' (hx.geo.trans (hM.geo.trans hg))
      (by rw [hx.sets]; exact hM.grown i hi')
      (by rw [hx.assocOfTc, hF.len tc' i ht hi']; exact hR.grows)
      (by rw [hblk]; exact hF.setOf _ tc i (hM.mem_fr hi')) hi hb
    refine ⟨ha, ?_⟩
    rw [hx.rest.now] at hr
    refine hr.mono (fun _ h => h) fun _ _ p hp => ⟨i, hi, ?_⟩
    have hpk : x.store.writebackPacket (.frame (fr i)) tc = s.store.writebackPacket (.frame (fr i)) tc := by
      rw [writebackPacket_eq hx hfresh]
      show Storage.writebackPacket { s.store with tags := mid.lru, ext := _ } _ _ = _
      simp only [writebackPacket, blk, hM.blks, hM.geo]
    rw [Leaves, Evicts, hblk, hpk, hx.rest.now] at hp
    exact hp
  exact ⟨hM, hR.shrinks, hR.grows, h1, h2⟩

theorem incSize_resized (hF : Lru.Frames 2 s.store.tags) (hg : s.geo = g) (h : incSize s = .ok s') :
    s' = s ∨ s.store.tags.assocOfTc 1 ≠ s.store.ext.hMin ∧ ∃ mid fr, Resized g 1 0 cleanedIf s s' mid fr := by
  simp only [incSize, bind_ok, orFail_ok] at h
  obtain ⟨⟨t, n⟩, ht, h⟩ := h
  obtain ⟨-, rfl, rfl⟩ | ⟨hne, rfl, fr, hR⟩ := incSize_cases (s := tagsOf s) hF ht
  · left
    cases h
    rfl
  · right
    have hgs : (tagsOf s).lru.geo = g := hg
    rw [hgs] at h
    exact ⟨hne, t, fr, resized_of_loop hF hg (by omega) hR (fun l i f x x' => incSet_alters) h⟩

theorem decSize_resized (hF : Lru.Frames 2 s.store.tags) (hg : s.geo = g) (h : decSize s = .ok s') :
    s' = s ∨ 1 < s.store.tags.assocOfTc 0 ∧ ∃ mid fr, Resized g 0 1 evicted s s' mid fr := by
  simp only [decSize, bind_ok, orFail_ok] at h
  obtain ⟨⟨t, n⟩, ht, h⟩ := h
  obtain ⟨-, rfl, rfl⟩ | ⟨hne, rfl, fr, hR⟩ := decSize_cases (s := tagsOf s) hF ht
  · left
    cases h
    rfl
  · right
    have hgs : (tagsOf s).lru.geo = g := hg
    rw [hgs] at h
    have hpos : 1 < s.store.tags.assocOfTc 0 := by
      have hs : t.lru.assocOfTc 0 + 1 = s.store.tags.assocOfTc 0 := hR.shrinks
      have hne' : s.store.tags.assocOfTc 0 ≠ 1 := hne
      omega
    exact ⟨hpos, t, fr, resized_of_loop hF hg (by omega) hR (fun l i f x x' => decSet_alters) h⟩

theorem tame_evicted : Tame evicted := by
  have hk : Tame fun b => { Lru.invalidated b with threadID := 1 } :=
    ⟨fun _ => rfl, fun _ => rfl, fun _ hv => by cases hv⟩
  refine hk.of_cases fun b => ?_
  unfold evicted
  split
  · exact .inl rfl
  · exact .inr rfl

/-- What `adjustPartition` does: at most one way changes hands. -/
inductive Adjusts (g : Geometry) (s : State Ext) : Decision → State Ext → Prop where
  | stay {d : Decision} (e : Ext) : Adjusts g s d { s with store := { s.store with ext := e } }
  | grow {s' : State Ext} {mid : CDynaLru} {fr : Nat → Nat} (hne : s.store.tags.assocOfTc 1 ≠ s.store.ext.hMin)
      (h : Resized g 1 0 cleanedIf s s' mid fr) : Adjusts g s .inc s'
  | shrink {s' : State Ext} {mid : CDynaLru} {fr : Nat → Nat} (hne : 1 < s.store.tags.assocOfTc 0)
      (h : Resized g 0 1 evicted s s' mid fr) : Adjusts g s .dec s'

theorem adjustPartition_adjusts {d : Decision} (hF : Lru.Frames 2 s.store.tags) (hg : s.geo = g)
    (h : adjustPartition s d = .ok s') : Adjusts g s d s' := by
  simp only [adjustPartition, bind_ok] at h
  obtain ⟨s₁, hr, h⟩ := h
  cases h
  cases d with
  | inc =>
    obtain rfl | ⟨hne, mid, fr, hR⟩ := incSize_resized hF hg hr
    · exact .stay _
    · exact .grow hne (hR.withExt _)
  | dec =>
    obtain rfl | ⟨hne, mid, fr, hR⟩ := decSize_resized hF hg hr
    · exact .stay _
    · exact .shrink hne (hR.withExt _)
  | keep =>
    cases hr
    exact .stay _

/-- The invariant of the caches after a way has changed hands. -/
theorem Resized.sound (hS : Sound 2 g s) (hh : Tame h) (ht : tc + tc' = 1) (hR : Resized g tc tc' h s s' mid fr) :
    Sound 2 g s' where
  geo := hR.swept.geo.trans (hR.moved.geo.trans hS.geo)
  frames := hR.swept.frames hh (hR.moved.frames hS.frames ht hR.shrunk hR.grown)
  ctl := hR.run.ok hS.ctl
  bus := by
    rw [hR.swept.rest.bus]
    exact hS.bus.run hS.ctl hR.run

theorem Adjusts.sound {d : Decision} (hS : Sound 2 g s) (h : Adjusts g s d s') : Sound 2 g s' := by
  cases h with
  | stay e => exact ⟨hS.geo, hS.frames, hS.ctl, hS.bus⟩
  | grow hne hR => exact hR.sound hS tame_cleanedIf (by omega)
  | shrink hne hR => exact hR.sound hS tame_evicted (by omega)

theorem step_sound {a : Act} (hS : Sound 2 g s) (h : step s a = .ok s') : Sound 2 g s' := by
  cases a with
  | cache a => exact Cache.step_sound lawful hS h
  | adjustPartition d => exact (adjustPartition_adjusts hS.frames hS.geo h).sound hS

end CDynamic

/-! ## F_DynamicCache

`dec_size` looks for valid blocks whose use bit is off.  The bit is set by
`insertBlock` and only goes off when the block is invalidated, so there are
none and the partition never changes. -/

namespace FDynamic

/-- Valid blocks are in use, and no Low frame is marked. -/
structure Tidy (s : Lru) : Prop where
  used : ∀ f, (s.blks f).isValid = true → (s.blks f).isTouched = true
  unmarked : ∀ i f, f ∈ s.sets 0 i → (s.blks f).threadID = 0

theorem Tidy.quiet {s s' : Lru} (hT : Tidy s) (h : Lru.Quiet s s') : Tidy s' where
  used f hv := h.touched f hv (hT.used f (h.valid f hv).1)
  unmarked i f hf := (h.threadID f).trans (hT.unmarked i f (h.mem_iff.1 hf))

theorem Tidy.inserted {s s' : Lru} {t addr : Nat} (hT : Tidy s) (hF : Lru.Frames n s)
    (h : Lru.Inserted s s' t addr f) : Tidy s' where
  used g hv := by
    by_cases hg : g = f
    · rw [hg]
      exact h.touched
    · rw [h.other g hg] at hv ⊢
      exact hT.used g hv
  unmarked i g hg := by
    have hg' := h.mem_iff.1 hg
    by_cases he : g = f
    · rw [he] at hg' ⊢
      rw [h.threadID, (hF.owner f t _ 0 i h.mem hg').1]
    · rw [h.other g he]
      exact hT.unmarked i g hg'

theorem Tidy.markSets {s : Lru} (hT : Tidy s) (n : Nat) : FDynaLru.markSets n s = s := by
  induction n with
  | zero => rfl
  | succ n ih =>
    rw [FDynaLru.markSets, ih, FDynaLru.markSet]
    split
    · next f hf =>
      have hu := List.find?_some hf
      simp only [FDynaLru.unused, Bool.and_eq_true, Bool.not_eq_true', beq_iff_eq] at hu
      have := hT.used f hu.2
      rw [hu.1.2] at this
      cases this
    · rfl

theorem Tidy.evictSet {s : State Unit} (hT : Tidy s.store.tags) (i : Nat) : evictSet s i = .ok s := by
  have hn : (s.store.tags.sets 0 i).find? (fun f => (s.store.tags.blks f).threadID == FDynaLru.evictMark) = none := by
    rw [List.find?_eq_none]
    intro f hf
    rw [hT.unmarked i f hf]
    decide
  rw [FDynamic.evictSet, FDynaLru.getEvictBlk, hn]

/-- `adjustPartition` changes nothing. -/
theorem adjustPartition_eq {s : State Unit} (hT : Tidy s.store.tags) : adjustPartition s = .ok s := by
  have hl : ∀ n, forLoop evictSet n s = .ok s := by
    intro n
    induction n with
    | zero => rfl
    | succ n ih => rw [forLoop, ih]; exact hT.evictSet n
  rw [adjustPartition, FDynaLru.decSize]
  simp only [hT.markSets]
  exact hl _

theorem effect_tidy {c : Control} {pkt : Packet} {st st' : Storage Unit} {wbs : List Packet} (hF : Lru.Frames 2 st.tags)
    (hT : Tidy st.tags) (he : Effect policy c pkt st st' wbs) : Tidy st'.tags := by
  obtain hq | ⟨f, s₁, s₂, hp⟩ := he.place lawful hF.nodup
  · exact hT.quiet hq
  · exact ((hT.quiet hp.before).inserted (hp.before.frames hF) hp.placed).quiet hp.after

/-- The invariant of `F_DynamicCache`. -/
structure Fit (g : Geometry) (s : State Unit) : Prop where
  sound : Sound 2 g s
  tidy : Tidy s.store.tags

/-- A step that does something is one of the cache. -/
theorem step_cases {s s' : State Unit} {a : Act} (hI : Fit g s) (h : step s a = .ok s') :
    a = .adjustPartition ∧ s' = s ∨ ∃ b, a = .cache b ∧ s.step policy b = .ok s' := by
  cases a with
  | cache b => exact .inr ⟨b, rfl, h⟩
  | adjustPartition =>
    have h' : adjustPartition s = .ok s' := h
    rw [adjustPartition_eq hI.tidy] at h'
    exact .inl ⟨rfl, (Except.ok.inj h').symm⟩

theorem step_fit {s s' : State Unit} {a : Act} (hI : Fit g s) (h : step s a = .ok s') : Fit g s' := by
  obtain ⟨-, rfl⟩ | ⟨b, -, hb⟩ := step_cases hI h
  · exact hI
  have hm := step_moves lawful hI.sound hb
  refine ⟨hm.sound lawful hI.sound, ?_⟩
  obtain he | ⟨c, pkt, wbs, he⟩ := hm.effect
  · rw [he]
    exact hI.tidy
  · exact effect_tidy hI.sound.frames hI.tidy he

theorem fit_init (cfg : Config) (geo : Geometry) (maxMasters mshrs writeBuffers : Nat) :
    Fit geo (init cfg geo maxMasters mshrs writeBuffers) := by
  refine ⟨sound_init cfg geo maxMasters mshrs writeBuffers, fun f hv => ?_, fun i f hf => ?_⟩
  · cases hv
  · have hf' : f ∈ (FDynaLru.init geo maxMasters).sets 0 i := hf
    exact Lru.threadID_initSets hf'

end FDynamic

end DynamicCache.Cache
