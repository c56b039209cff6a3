import DynamicCache.Cache.Resize

/-!
# How many copies of a block there are

A block that is placed must be the only one (`Placed.unique`).  A partition of
`C_DynamicCache` holds no block twice as long as no way is handed over with a
block that the other partition holds (`cdynamic_tags_unique`); a High block that
Low kept for a while may come back after High has fetched it again
(`stale_block_returns`).  `DirtyCache` keeps one copy in both partitions as long
as no Low Writeback misses a block that High holds (`dirty_one_copy`): that path
allocates a second copy, which the fake-miss path of the fills is there to
prevent (`writeback_makes_second_copy`).
-/

namespace DynamicCache.Cache

open Lib Tags

variable {ε : Type}

instance (s : Lru) (t addr f : Nat) : Decidable (Held s t addr f) :=
  inferInstanceAs (Decidable (f ∈ _ ∧ _ = _ ∧ _ = _))

namespace Storage

variable {P : Policy ε} {c : Control} {pkt : Packet} {R : Nat → Nat → Prop}

/-- A placed block is the only copy when every other one is gone. -/
theorem Placed.unique {s s' s₁ s₂ : Lru} {f n : Nat} (hp : Placed P c pkt s s' f s₁ s₂) (hF : Lru.Frames n s)
    (hsymm : ∀ a b, R a b → R b a) (hU : Lru.Unique R s)
    (hgone : ∀ t' g, R pkt.threadID t' → Held s t' pkt.addr g → (s'.blks g).isValid = false) :
    Lru.Unique R s' := by
  have hF₁ := hp.before.frames hF
  refine hp.placed.unique hF₁ hsymm (hp.before.unique hU) hp.after fun t' g hR hg hne hv ht => ?_
  -- a copy that is still valid was valid before, in the same place
  have hv₂ := (hp.after.valid g hv).1
  rw [hp.placed.other g hne] at hv₂
  have hv₁ := (hp.before.valid g hv₂).1
  rw [hp.before.geo, hp.before.mem_iff] at hg
  rw [hp.before.tag, hp.before.geo] at ht
  have := hgone t' g hR ⟨hg, ht, hv₁⟩
  rw [hv] at this
  cases this

/-- A thread that looks into its own partition only places blocks that it does not hold. -/
theorem Effect.unique_eq {s s' : Storage ε} {wbs : List Packet} {n : Nat} (hP : P.Lawful Eq)
    (hF : Lru.Frames n s.tags) (hU : Lru.Unique Eq s.tags) (h : Effect P c pkt s s' wbs) : Lru.Unique Eq s'.tags := by
  obtain hq | ⟨f, s₁, s₂, hp⟩ := h.place hP hF.nodup
  · exact hq.unique hU
  · exact hp.unique hF (fun _ _ h => h.symm) hU fun t' g ht hg => absurd hg (hP.lookup_none hp.absent t' ht g)

end Storage

open Storage

/-! ## C_DynamicCache -/

namespace CDynamic

/-- Set `i` of partition `tc` does not hold the block of frame `f`. -/
def NoCopy (s : Lru) (tc i f : Nat) : Prop :=
  ∀ g ∈ s.sets tc i, (s.blks g).isValid = true → (s.blks f).tag ≠ (s.blks g).tag

instance (s : Lru) (tc i f : Nat) : Decidable (NoCopy s tc i f) :=
  inferInstanceAs (Decidable (∀ g ∈ s.sets tc i, _ → _))

/-- The blocks that change hands are not in the other partition.  Low gives its
own blocks up, so only blocks of High come back. -/
def ResizeOk (s : State Ext) : Act → Prop
  | .adjustPartition .inc => s.store.tags.assocOfTc 1 ≠ s.store.ext.hMin →
      ∀ i < s.geo.numSets, ∀ f ∈ (s.store.tags.sets 1 i).getLast?, (s.store.tags.blks f).isValid = true →
        NoCopy s.store.tags 0 i f
  | .adjustPartition .dec => 1 < s.store.tags.assocOfTc 0 →
      ∀ i < s.geo.numSets, ∀ f ∈ (s.store.tags.sets 0 i).getLast?, (s.store.tags.blks f).isValid = true →
        (s.store.tags.blks f).threadID ≠ 0 → NoCopy s.store.tags 1 i f
  | _ => True

instance (s : State Ext) (a : Act) : Decidable (ResizeOk s a) := by
  unfold ResizeOk
  split <;> infer_instance

variable {s s' : State Ext} {g : Geometry}

/-- A moved frame that is still valid must be the only copy in its new partition. -/
theorem Resized.unique {tc tc' : Nat} {h : CacheBlk → CacheBlk} {mid : CDynaLru} {fr : Nat → Nat}
    (hR : Resized g tc tc' h s s' mid fr) (hh : Tame h) (hg : s.geo = g) (hU : Lru.Unique Eq s.store.tags)
    (hnew : ∀ i < g.numSets, fr i ∈ (s.store.tags.sets tc i).getLast? → (s'.store.tags.blks (fr i)).isValid = true →
      NoCopy s.store.tags tc' i (fr i)) : Lru.Unique Eq s'.store.tags := by
  have hgs : s.store.tags.geo = g := hg
  have hblks : ∀ k, (putTags s mid).store.tags.blks k = s.store.tags.blks k := congrFun hR.moved.blks
  have htag : ∀ k, (s'.store.tags.blks k).tag = (s.store.tags.blks k).tag := fun k => by
    rw [hR.swept.tag hh, hblks]
  have hval : ∀ k, (s'.store.tags.blks k).isValid = true → (s.store.tags.blks k).isValid = true := fun k hv => by
    rw [← hblks]
    exact (hR.swept.valid hh hv).1
  -- the pair of a frame that moved and one that was there
  have hold : ∀ i k, i < g.numSets → k ∈ s.store.tags.sets tc' i → (s'.store.tags.blks (fr i)).isValid = true →
      (s'.store.tags.blks k).isValid = true → (s'.store.tags.blks (fr i)).tag ≠ (s'.store.tags.blks k).tag := by
    intro i k hi hk hv hvk
    rw [htag, htag]
    refine hnew i hi ?_ hv k hk (hval k hvk)
    rw [hR.moved.shrunk i (hgs ▸ hi)]
    simp
  rintro t _ i f k rfl hf hk hvf hvk ht
  rw [hR.swept.sets] at hf hk
  obtain hf | ⟨rfl, hi, rfl⟩ := hR.moved.mem_cases hf
  · obtain hk | ⟨rfl, hi, rfl⟩ := hR.moved.mem_cases hk
    · rw [htag, htag] at ht
      exact hU t t i f k rfl hf hk (hval f hvf) (hval k hvk) ht
    · exact absurd ht.symm (hold i f (hgs ▸ hi) hf hvk hvf)
  · obtain hk | ⟨-, -, rfl⟩ := hR.moved.mem_cases hk
    · exact absurd ht (hold i k (hgs ▸ hi) hk hvf hvk)
    · rfl

theorem evicted_valid {b : CacheBlk} (h : (CDynaLru.evicted b).isValid = true) : b.isValid = true ∧ b.threadID ≠ 0 := by
  unfold CDynaLru.evicted at h
  split at h
  · cases h
  · next h0 => exact ⟨h, h0⟩

theorem adjusts_unique {d : Decision} (hg : s.geo = g) (hU : Lru.Unique Eq s.store.tags)
    (hok : ResizeOk s (.adjustPartition d)) (h : Adjusts g s d s') : Lru.Unique Eq s'.store.tags := by
  cases h with
  | stay e => exact hU
  | @grow _ mid fr hne hR =>
    refine hR.unique tame_cleanedIf hg hU fun i hi hf hv => ?_
    have hv' := (hR.swept.valid tame_cleanedIf hv).1
    rw [show (putTags s mid).store.tags.blks = s.store.tags.blks from hR.moved.blks] at hv'
    exact hok hne i (hg ▸ hi) (fr i) hf hv'
  | @shrink _ mid fr hne hR =>
    refine hR.unique tame_evicted hg hU fun i hi hf hv => ?_
    rw [hR.swept.swept (fr i) ⟨i, hi, rfl⟩] at hv
    rw [show (putTags s mid).store.tags.blks = s.store.tags.blks from hR.moved.blks] at hv
    obtain ⟨h1, h2⟩ := evicted_valid hv
    exact hok hne i (hg ▸ hi) (fr i) hf h1 h2

theorem step_unique {a : Act} (hS : Sound 2 g s) (hU : Lru.Unique Eq s.store.tags) (hok : ResizeOk s a)
    (h : step s a = .ok s') : Lru.Unique Eq s'.store.tags := by
  cases a with
  | cache a =>
    obtain he | ⟨c, pkt, wbs, he⟩ := (step_moves lawful hS h).effect
    · rw [he]
      exact hU
    · exact he.unique_eq lawful hS.frames hU
  | adjustPartition d => exact adjusts_unique hS.geo hU hok (adjustPartition_adjusts hS.frames hS.geo h)

/-- Three ways, one of them Low's.  High loads two blocks, Low gets the older
one with its way, High loads it again and then gets the way back. -/
def refetch : List Act :=
  (Small.load 1 0 false ++ Small.load 1 4 false).map .cache ++ [.adjustPartition .inc] ++
    (Small.load 1 0 false).map .cache ++ [.adjustPartition .dec]

def small (assoc : Nat) (h : 0 < assoc) : State Ext :=
  init Small.cfg ⟨Small.geo assoc h, 1, 1, 1, h⟩ 4 4

theorem stale_block_returns :
    ∃ s f k, runs step (small 3 (by decide)) refetch = .ok s ∧ f ≠ k ∧ Held s.store.tags 1 0 f ∧
      Held s.store.tags 1 0 k := by
  obtain ⟨s, hs, h1, h2⟩ : ∃ s, runs step (small 3 (by decide)) refetch = .ok s ∧ Held s.store.tags 1 0 1 ∧
      Held s.store.tags 1 0 2 := by
    decide +kernel
  exact ⟨s, 1, 2, hs, by decide, h1, h2⟩

/-- In every run in which no way is handed over with a block that the other
partition holds, no set of a partition holds two valid blocks with one tag. -/
theorem cdynamic_tags_unique (cfg : Config) (p : CDynaParams) (mshrs writeBuffers : Nat) (as : List Act)
    (hok : Always step ResizeOk (init cfg p mshrs writeBuffers) as) {s : State Ext}
    (hr : runs step (init cfg p mshrs writeBuffers) as = .ok s) (t i f k : Nat) (hf : f ∈ s.store.tags.sets t i)
    (hk : k ∈ s.store.tags.sets t i) (hvf : (s.store.tags.blks f).isValid = true)
    (hvk : (s.store.tags.blks k).isValid = true) (ht : (s.store.tags.blks f).tag = (s.store.tags.blks k).tag) :
    f = k := by
  have hinv : Sound 2 p.geo s ∧ Lru.Unique Eq s.store.tags := by
    refine runs_invariant (fun s => Sound 2 p.geo s ∧ Lru.Unique Eq s.store.tags) (fun s a s' hs ha h => ?_)
      ⟨sound_init cfg p mshrs writeBuffers, fun _ _ _ _ _ _ _ _ hv => by cases hv⟩ hok hr
    exact ⟨step_sound hs.1 h, step_unique hs.1 hs.2 ha h⟩
  exact hinv.2 t t i f k rfl hf hk hvf hvk ht

/-- A block of High is in a way that goes to Low and comes back. -/
theorem cdynamic_tags_unique_returned :
    ∃ s, runs step (small 3 (by decide)) ((Small.load 1 0 false ++ Small.load 1 4 false).map .cache ++
        [.adjustPartition .inc, .cache (Small.read 1 4), .adjustPartition .dec]) = .ok s ∧
      Held s.store.tags 1 0 2 ∧ ∀ k, Held s.store.tags 1 0 k → 2 = k := by
  refine exists_ok (fun s => Held s.store.tags 1 0 2) (by decide +kernel) fun s hs hf => ⟨hf, fun k hk => ?_⟩
  exact cdynamic_tags_unique Small.cfg ⟨Small.geo 3 (by decide), 1, 1, 1, by decide⟩ 4 4 _ (by decide +kernel) hs
    1 _ 2 k hf.1 hk.1 hf.2.2 hk.2.2 (hf.2.1.trans hk.2.1.symm)

end CDynamic

/-! ## DirtyCache -/

/-- Both partitions together hold no block twice. -/
def OneCopy (s : State ε) : Prop := Lru.Unique (fun t t' => t < 2 ∧ t' < 2) s.store.tags

theorem OneCopy.eq {s : State ε} (h : OneCopy s) {t t' addr f g : Nat} (ht : t < 2) (ht' : t' < 2)
    (hf : Held s.store.tags t addr f) (hg : Held s.store.tags t' addr g) : f = g :=
  h t t' _ f g ⟨ht, ht'⟩ hf.1 hg.1 hf.2.2 hg.2.2 (hf.2.1.trans hg.2.1.symm)

theorem OneCopy.not_both {s : State ε} {n : Nat} (h : OneCopy s) (hF : Lru.Frames n s.store.tags) (addr f g : Nat) :
    ¬(Held s.store.tags 0 addr f ∧ Held s.store.tags 1 addr g) := by
  rintro ⟨hf, hg⟩
  obtain rfl := h.eq (by decide) (by decide) hf hg
  have := hF.owner f 0 _ 1 _ hf.1 hg.1
  omega

namespace Dirty

/-- A Low Writeback that misses in Low is of a block that High does not hold. -/
def WritebackOk (s : State Unit) : Action → Prop
  | .recvTimingReq pkt => pkt.cmd = .writeback → pkt.threadID = 0 → s.store.tags.findBlock pkt.addr 0 = none →
      s.store.tags.findBlock pkt.addr 1 = none
  | _ => True

instance (s : State Unit) (a : Action) : Decidable (WritebackOk s a) := by
  unfold WritebackOk
  induction a using Action.casesOn <;> infer_instance

variable {s s' : State Unit} {a : Action} {c : Control} {pkt : Packet} {wbs : List Packet}

/-- What a fill finds in High is the only High copy, and it is given up. -/
theorem held_high_gone {s₁ s₂ : Lru} {f g : Nat} (hU : OneCopy s)
    (hp : Placed policy c pkt s.store.tags s'.store.tags f s₁ s₂) (hr : pkt.cmd ≠ .writeback)
    (h0 : s.store.tags.findBlock pkt.addr 0 = none) (hg : Held s.store.tags 1 pkt.addr g) :
    (s'.store.tags.blks g).isValid = false := by
  obtain hk | ⟨-, hk⟩ := hp.kind
  · exact absurd hk hr
  · cases h1 : s.store.tags.findBlock pkt.addr 1 with
    | none => exact absurd hg (not_held_of_findBlock h1 g)
    | some g' =>
      have he : g = g' := hU.eq (by decide) (by decide) hg (held_of_findBlock h1)
      refine hk g ?_
      show DcLru.findBlock s.store.tags pkt.addr 1 1 = some g
      rw [DcLru.findBlock_eq, if_neg (by decide), h0, h1, he]
      rfl

theorem effect_oneCopy (hF : Lru.Frames 2 s.store.tags) (hU : OneCopy s)
    (he : Effect policy c pkt s.store s'.store wbs)
    (hw : pkt.cmd = .writeback → pkt.threadID = 0 → s.store.tags.findBlock pkt.addr 0 = none →
      s.store.tags.findBlock pkt.addr 1 = none) : OneCopy s' := by
  obtain hq | ⟨f, s₁, s₂, hp⟩ := he.place lawful hF.nodup
  · exact hq.unique hU
  refine hp.unique hF (fun _ _ h => ⟨h.2, h.1⟩) hU fun t' g hR hg => ?_
  have habs := lawful.lookup_none hp.absent
  by_cases ht : pkt.threadID = 0
  · have h0 : s.store.tags.findBlock pkt.addr 0 = none := by
      have := hp.absent
      rwa [show policy.lookup s.store.tags pkt.addr pkt.threadID = DcLru.findBlock s.store.tags pkt.addr
        pkt.threadID pkt.threadID from rfl, DcLru.findBlock_eq, if_pos ht] at this
    obtain rfl | rfl : t' = 0 ∨ t' = 1 := by omega
    · exact absurd hg (habs 0 (.inl rfl) g)
    · by_cases hc : pkt.cmd = .writeback
      · exact absurd hg (not_held_of_findBlock (hw hc ht h0) g)
      · exact held_high_gone hU hp hc h0 hg
  · obtain rfl | rfl : t' = 0 ∨ t' = 1 := by omega
    · exact absurd hg (habs 0 (.inl rfl) g)
    · exact absurd hg (habs 1 (.inr ⟨ht, rfl⟩) g)

/-- Only requests bring Writebacks; all other packets that place blocks are responses. -/
theorem step_oneCopy {g : Geometry} (hS : Sound 2 g s) (hU : OneCopy s) (ha : WritebackOk s a)
    (h : step s a = .ok s') : OneCopy s' := by
  cases step_moves lawful hS h with
  | advance ticks => exact hU
  | @request pkt wbs _ he hc hr =>
    exact effect_oneCopy hS.frames hU (.access he) ha
  | unasked => exact hU
  | @response ref r f c wbs _ hf hfr hans hq he hc hb hn hcfg hfw =>
    refine effect_oneCopy hS.frames hU (.response he) fun hw => ?_
    have hw' : r.cmd = .writeback := hw
    rw [hw'] at hans
    exact absurd hans (by cases f.pkt.cmd <;> decide)
  | snoop he hc hr hd =>
    exact (he.quiet hS.frames.nodup).unique hU
  | idle => exact hU
  | failed hs₁ hp hr hx hst hc hrest =>
    rw [OneCopy, hst]
    exact hU
  | @sent tid env ref x s₁ _ hs₁ hp hr hs hx hd =>
    rw [OneCopy, hd.store, hs₁]
    exact hU

theorem oneCopy_init (cfg : Config) (geo : Geometry) (maxMasters mshrs writeBuffers : Nat) :
    OneCopy (init cfg geo maxMasters mshrs writeBuffers) := by
  intro t t' i f g _ _ _ hv
  cases hv

/-- A block of High, then a Writeback of the same block by Low. -/
theorem writeback_makes_second_copy :
    ∃ s f g, runs step (init Small.cfg (Small.geo 4 (by decide)) 1 4 4)
        (Small.load 1 0 false ++ [Small.writeback 0 0 3]) = .ok s ∧
      Held s.store.tags 0 0 f ∧ Held s.store.tags 1 0 g := by
  simp only [exists_and_left]
  refine exists_ok (fun s => Held s.store.tags 0 0 1 ∧ Held s.store.tags 1 0 3) (by decide +kernel) fun s _ h => ?_
  exact ⟨1, h.1, 3, h.2⟩

/-- In every run without such Writebacks a block is in at most one of the two partitions. -/
theorem dirty_one_copy (cfg : Config) (geo : Geometry) (maxMasters mshrs writeBuffers : Nat) (as : List Action)
    (hok : Always step WritebackOk (init cfg geo maxMasters mshrs writeBuffers) as) {s : State Unit}
    (hr : runs step (init cfg geo maxMasters mshrs writeBuffers) as = .ok s) (addr f g : Nat) :
    ¬(Held s.store.tags 0 addr f ∧ Held s.store.tags 1 addr g) := by
  have hinv : Sound 2 geo s ∧ OneCopy s := by
    refine runs_invariant (fun s => Sound 2 geo s ∧ OneCopy s) (fun s a s' hs ha h => ?_)
      ⟨sound_init cfg geo maxMasters mshrs writeBuffers, oneCopy_init cfg geo maxMasters mshrs writeBuffers⟩ hok hr
    exact ⟨step_sound lawful hs.1 h, step_oneCopy hs.1 hs.2 ha h⟩
  exact hinv.2.not_both hinv.1.frames addr f g

/-- High loads a block, Low asks for it and takes it over, High reads it there. -/
theorem dirty_one_copy_taken_over :
    ∃ s, runs step (init Small.cfg (Small.geo 4 (by decide)) 1 4 4)
        (Small.load 1 0 false ++ Small.load 0 0 false ++ [Small.read 1 0]) = .ok s ∧
      Held s.store.tags 0 0 1 ∧ ∀ g, ¬(Held s.store.tags 0 0 1 ∧ Held s.store.tags 1 0 g) := by
  refine exists_ok (fun s => Held s.store.tags 0 0 1) (by decide +kernel) fun s hs hp => ⟨hp, fun g => ?_⟩
  exact dirty_one_copy Small.cfg (Small.geo 4 (by decide)) 1 4 4 _ (by decide +kernel) hs 0 1 g

end Dirty

end DynamicCache.Cache
