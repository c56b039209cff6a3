import DynamicCache.Tags.Layout
import DynamicCache.Lib.Runs

/-!
# The dirty-cache tag store (`dclru.cc`)

`DCLRU` splits every set into a Low and a High partition and looks blocks up by
a pair of labels: a Low reader sees the Low partition only, a High reader looks
into Low first and then into High.  `accessBlock` moves the block it finds to the
head of the list that `locateBlock` names, also when a High access finds the
block in Low: `high_hit_reorders_low` is a run where this decides which of its
own blocks Low finds.  Without such accesses Low's lists evolve as if High were
absent (`dclru_low_noninterference`).
-/

namespace DynamicCache.Tags

open Lib Lru

namespace DcLru

/-! ## The store -/

/-- `DCLRU::assoc_of_tc` -/
def assocOfTc (assoc tcid : Nat) : Nat := assoc / 2 + if tcid < assoc % 2 then 1 else 0

def init (geo : Geometry) (maxMasters : Nat) : Lru :=
  initSets geo maxMasters 2 (assocOfTc geo.assoc) (fun _ => 0)

/-- `DCLRU::findBlock`: the four label pairs, in the order of the source. -/
def findBlock (s : Lru) (addr readLabel writeLabel : Nat) : Option Nat :=
  let tag := s.geo.extractTag addr
  let set := s.geo.extractSet addr
  let blkL := findBlk s.blks (s.getSet set 0) tag
  let blkH := findBlk s.blks (s.getSet set 1) tag
  if readLabel = 0 ∧ writeLabel = 0 then blkL
  else if readLabel = 1 ∧ writeLabel = 1 then (if blkL.isSome then blkL else blkH)
  else if readLabel = 0 ∧ writeLabel = 1 then blkL
  else if blkL.isSome then blkL else blkH

/-- `DCLRU::locateBlock` -/
def locateBlock (s : Lru) (addr readLabel _writeLabel : Nat) : Nat :=
  if readLabel = 1 then
    if (findBlk s.blks (s.getSet (s.geo.extractSet addr) 0) (s.geo.extractTag addr)).isSome then 0 else 1
  else 0

/-- The block after a hit; unlike `LRU::accessBlock` this leaves `isTouched` alone. -/
def counted (b : CacheBlk) : CacheBlk := { b with refCount := b.refCount + 1 }

/-- `DCLRU::accessBlock` -/
def accessBlock (s : Lru) (addr now readLabel writeLabel : Nat) : Option (Lru × Option Nat × Nat) :=
  match findBlock s addr readLabel writeLabel with
  | none => some (s, none, s.geo.hitLatency)
  | some f =>
    let set := s.geo.extractSet addr
    let loc := locateBlock s addr readLabel writeLabel
    (moveToHead (s.getSet set loc) f).map fun l =>
      ((s.putSet set loc l).putBlk f (counted (s.blks f)), some f, s.hitLat now (s.blks f))

/-! ## Operations -/

/-- Operations with label pair `(0,0)`, or `(1,1)` when `high` is set. -/
inductive Op where
  | access (high : Bool) (addr now : Nat)
  | fill (high : Bool) (addr masterId now : Nat) (st : BlkStatus)
  | invalidate (high : Bool) (addr : Nat)
deriving DecidableEq

def label (high : Bool) : Nat := if high then 1 else 0

def Op.isLow : Op → Bool
  | .access high _ _ => !high
  | .fill high _ _ _ _ => !high
  | .invalidate high _ => !high

/-- One operation; an access gives its hit/miss result. -/
def step (s : Lru) : Op → Option (Lru × Option Bool)
  | .access high addr now =>
    (accessBlock s addr now (label high) (label high)).map fun r => (r.1, some r.2.1.isSome)
  | .fill high addr masterId now st =>
    (s.fill addr (label high) masterId now st).map fun r => (r.1, none)
  | .invalidate high addr =>
    match findBlock s addr (label high) (label high) with
    | none => some (s, none)
    | some f =>
      (s.invalidateBlk f (locateBlock s addr (label high) (label high))).map fun s' => (s', none)

/-- No `(1,1)` operation invalidates a Low block. -/
def KeepsLow (s : Lru) : Op → Prop
  | .invalidate true addr => s.findBlock addr 0 = none
  | _ => True

/-- No `(1,1)` access finds its block in the Low partition. -/
def MissesLow (s : Lru) : Op → Prop
  | .access true addr _ => s.findBlock addr 0 = none
  | _ => True

instance (s : Lru) (o : Op) : Decidable (KeepsLow s o) := by
  unfold KeepsLow
  split <;> infer_instance

instance (s : Lru) (o : Op) : Decidable (MissesLow s o) := by
  unfold MissesLow
  split <;> infer_instance

/-! ## A High hit in Low -/

/-- Two Low ways.  Low loads blocks 0, 4 and 8 and then asks for block 0.  Alone,
it has lost block 0; when High reads block 0 in between, Low has lost block 4. -/
theorem high_hit_reorders_low :
    let geo : Geometry := ⟨1, 4, 4, 1, by decide, by decide, by decide, by decide⟩
    let alone : List Op := [.fill false 0 0 1 {}, .fill false 4 0 2 {}, .fill false 8 0 4 {}, .access false 0 5]
    let withHigh : List Op := [.fill false 0 0 1 {}, .fill false 4 0 2 {}, .access true 0 3,
      .fill false 8 0 4 {}, .access false 0 5]
    withHigh.filter Op.isLow = alone.filter Op.isLow ∧
    Along step KeepsLow (init geo 1) withHigh ∧ Along step KeepsLow (init geo 1) alone ∧
    (run step Op.isLow (init geo 1) alone).map Prod.snd = some [none, none, none, some false] ∧
    (run step Op.isLow (init geo 1) withHigh).map Prod.snd = some [none, none, none, some true] := by
  decide +kernel

/-! ## What Low sees -/

/-- The tag of a valid block. -/
def validTag (b : CacheBlk) : Option Nat := if b.isValid then some b.tag else none

section

variable {s s' : Lru}

theorem shows_validTag (s : Lru) (t i tag : Nat) : Shows validTag s t i tag tag := fun _ _ => holds_iff

/-- A lookup that finds nothing foreign is a lookup in one's own partition. -/
theorem own_partition {high : Bool} (addr : Nat) (h : high = true → s.findBlock addr 0 = none) :
    findBlock s addr (label high) (label high) = s.findBlock addr (label high) ∧
      locateBlock s addr (label high) (label high) = label high := by
  cases high with
  | false => exact ⟨rfl, rfl⟩
  | true =>
    have h0 : findBlk s.blks (s.getSet (s.geo.extractSet addr) 0) (s.geo.extractTag addr) = none := h rfl
    simp [findBlock, locateBlock, label, h0, Lru.findBlock]

theorem accessBlock_upd {high : Bool} {addr now lat : Nat} {blk : Option Nat}
    (h : high = true → s.findBlock addr 0 = none)
    (ha : accessBlock s addr now (label high) (label high) = some (s', blk, lat)) :
    blk = s.findBlock addr (label high) ∧
      ((blk = none ∧ s' = s) ∨ ∃ f, blk = some f ∧
        Upd s s' (label high) (s.geo.extractSet addr)
          (toFront f (s.sets (label high) (s.geo.extractSet addr))) f (counted (s.blks f))) := by
  obtain ⟨hfind, hloc⟩ := own_partition addr h
  rw [accessBlock, hfind] at ha
  cases hf : s.findBlock addr (label high) with
  | none =>
    rw [hf] at ha
    simp only [Option.some.injEq, Prod.mk.injEq] at ha
    exact ⟨ha.2.1.symm, Or.inl ⟨ha.2.1.symm, ha.1.symm⟩⟩
  | some f =>
    have hm : f ∈ s.getSet (s.geo.extractSet addr) (label high) := mem_of_findBlk hf
    rw [hf] at ha
    simp only [hloc, moveToHead_eq hm, Option.map_some, Option.some.injEq, Prod.mk.injEq] at ha
    obtain ⟨rfl, rfl, -⟩ := ha
    exact ⟨rfl, Or.inr ⟨f, rfl, rfl, rfl, rfl, rfl, rfl⟩⟩

theorem invalidateBlk_found {t addr f : Nat} (hF : Frames 2 s) (hf : s.findBlock addr t = some f)
    (h : s.invalidateBlk f t = some s') :
    Upd s s' t (s.geo.extractSet addr) (toBack f (s.sets t (s.geo.extractSet addr))) f
      (invalidated (s.blks f)) := by
  have hm := mem_of_findBlk hf
  have hset : (s.blks f).set = s.geo.extractSet addr := hF.setOf f _ _ hm
  have hu := invalidateBlk_upd (by rw [hset]; exact hF.nodup _ _) (by rw [hset]; exact hm) h
  rwa [hset, if_pos (holds_of_findBlk hf).2] at hu

/-- What an operation does to the store: nothing, or an update of one frame of
one list of its own partition. -/
theorem step_cases {o : Op} {out : Option Bool} (hF : Frames 2 s) (hk : KeepsLow s o) (hm : MissesLow s o)
    (h : step s o = some (s', out)) :
    Frames 2 s' ∧ s'.geo = s.geo ∧
      (s' = s ∨ ∃ i l f b, Upd s s' (if o.isLow then 0 else 1) i l f b ∧
        f ∈ s.sets (if o.isLow then 0 else 1) i) := by
  cases o with
  | access high addr now =>
    have hown : high = true → s.findBlock addr 0 = none := by
      rintro rfl
      exact hm
    have hlab : (if (Op.access high addr now).isLow then 0 else 1) = label high := by
      cases high <;> rfl
    obtain ⟨⟨x, blk, lat⟩, hr, he⟩ := Option.map_eq_some_iff.1 h
    obtain ⟨rfl, -⟩ := Prod.mk.inj he
    rw [hlab]
    obtain ⟨hblk, ⟨-, rfl⟩ | ⟨f, rfl, hu⟩⟩ := accessBlock_upd hown hr
    · exact ⟨hF, rfl, Or.inl rfl⟩
    · have hmem := mem_of_findBlk hblk.symm
      exact ⟨hF.upd hu (toFront_perm hmem) rfl (hF.master f _ _ hmem), hu.geo,
        Or.inr ⟨_, _, f, _, hu, hmem⟩⟩
  | fill high addr masterId now st =>
    have hlab : (if (Op.fill high addr masterId now st).isLow then 0 else 1) = label high := by
      cases high <;> rfl
    obtain ⟨⟨x, f⟩, hr, he⟩ := Option.map_eq_some_iff.1 h
    obtain ⟨rfl, -⟩ := Prod.mk.inj he
    rw [hlab]
    obtain ⟨-, hmem, hmas, hu⟩ := fill_upd hr
    exact ⟨hF.upd hu (toFront_perm hmem) rfl (fun _ => hmas), hu.geo, Or.inr ⟨_, _, f, _, hu, hmem⟩⟩
  | invalidate high addr =>
    have hown : high = true → s.findBlock addr 0 = none := by
      rintro rfl
      exact hk
    have hlab : (if (Op.invalidate high addr).isLow then 0 else 1) = label high := by
      cases high <;> rfl
    obtain ⟨hfind, hloc⟩ := own_partition addr hown
    simp only [step, hfind, hloc] at h
    rw [hlab]
    cases hf : s.findBlock addr (label high) with
    | none =>
      rw [hf] at h
      obtain ⟨rfl, -⟩ := Prod.mk.inj (Option.some.inj h)
      exact ⟨hF, rfl, Or.inl rfl⟩
    | some f =>
      rw [hf] at h
      obtain ⟨x, hr, he⟩ := Option.map_eq_some_iff.1 h
      obtain ⟨rfl, -⟩ := Prod.mk.inj he
      have hmem := mem_of_findBlk hf
      have hu := invalidateBlk_found hF hf hr
      exact ⟨hF.upd hu (toBack_perm hmem) rfl (fun hv => by cases hv), hu.geo,
        Or.inr ⟨_, _, f, _, hu, hmem⟩⟩

end

/-- A Low operation on Low's slots. -/
def lowStep (geo : Geometry) (v : Nat → List (Option Nat)) : Op → (Nat → List (Option Nat)) × Option Bool
  | .access _ addr _ =>
    let i := geo.extractSet addr
    let tag := geo.extractTag addr
    if some tag ∈ v i then (Function.update v i (touch tag (v i)), some true) else (v, some false)
  | .fill _ addr _ _ _ =>
    let i := geo.extractSet addr
    (Function.update v i (load (geo.extractTag addr) (v i)), none)
  | .invalidate _ addr =>
    let i := geo.extractSet addr
    let tag := geo.extractTag addr
    if some tag ∈ v i then (Function.update v i (clear tag (v i)), none) else (v, none)

section

variable {s s' : Lru}

theorem slots_eq_update {i f : Nat} {l : List Nat} {b : CacheBlk} (hF : Frames 2 s)
    (hu : Upd s s' 0 i l f b) (hf : f ∈ s.sets 0 i) :
    slots validTag s' 0 = Function.update (slots validTag s 0) i (slots validTag s' 0 i) := by
  funext j
  rw [Function.update_apply]
  split
  · next h => rw [h]
  · next h => exact slots_other hF hu hf fun hc => h hc.2

/-- A Low operation acts on Low's slots alone. -/
theorem lowStep_of_step {o : Op} {out : Option Bool} (hF : Frames 2 s) (ho : o.isLow = true)
    (h : step s o = some (s', out)) :
    (slots validTag s' 0, out) = lowStep s.geo (slots validTag s 0) o := by
  cases o with
  | access high addr now =>
    obtain rfl : high = false := by simpa [Op.isLow] using ho
    obtain ⟨⟨x, blk, lat⟩, hr, he⟩ := Option.map_eq_some_iff.1 h
    obtain ⟨rfl, rfl⟩ := Prod.mk.inj he
    have hsh := shows_validTag s 0 (s.geo.extractSet addr) (s.geo.extractTag addr)
    obtain ⟨hblk, ⟨rfl, rfl⟩ | ⟨f, rfl, hu⟩⟩ := accessBlock_upd (fun h => by cases h) hr
    · have hmiss := (findBlock_eq_none_iff hsh).1 hblk.symm
      simp only [lowStep, if_neg hmiss]
      rfl
    · have hf : s.findBlock addr 0 = some f := hblk.symm
      have hhit : some (s.geo.extractTag addr) ∈ slots validTag s 0 (s.geo.extractSet addr) := by
        by_contra hn
        rw [(findBlock_eq_none_iff hsh).2 hn] at hf
        cases hf
      have hb : validTag (counted (s.blks f)) = validTag (s.blks f) := rfl
      simp only [lowStep, if_pos hhit]
      rw [slots_eq_update hF hu (mem_of_findBlk hf), slots_hit hsh hf hb hu]
      rfl
  | fill high addr masterId now st =>
    obtain rfl : high = false := by simpa [Op.isLow] using ho
    obtain ⟨⟨x, f⟩, hr, he⟩ := Option.map_eq_some_iff.1 h
    obtain ⟨rfl, rfl⟩ := Prod.mk.inj he
    obtain ⟨hvic, hmem, -, hu⟩ := fill_upd hr
    rw [findVictim_eq_getLast? (hF.len _ _ (by decide) (s.geo.extractSet_lt addr))] at hvic
    have hb : validTag (filled (s.blks f) (s.geo.extractTag addr) masterId (label false) st) =
        some (s.geo.extractTag addr) := rfl
    have hsl := slots_fill (hF.nodup _ _) hvic hb hu
    change slots validTag x 0 _ = _ at hsl
    rw [slots_eq_update hF hu hmem, hsl]
    rfl
  | invalidate high addr =>
    obtain rfl : high = false := by simpa [Op.isLow] using ho
    have hsh := shows_validTag s 0 (s.geo.extractSet addr) (s.geo.extractTag addr)
    change (match s.findBlock addr 0 with
      | none => some (s, none)
      | some f => (s.invalidateBlk f 0).map fun s' => (s', none)) = some (s', out) at h
    cases hf : s.findBlock addr 0 with
    | none =>
      rw [hf] at h
      obtain ⟨rfl, rfl⟩ := Prod.mk.inj (Option.some.inj h)
      simp only [lowStep, if_neg ((findBlock_eq_none_iff hsh).1 hf)]
    | some f =>
      rw [hf] at h
      obtain ⟨x, hr, he⟩ := Option.map_eq_some_iff.1 h
      obtain ⟨rfl, rfl⟩ := Prod.mk.inj he
      have hhit : some (s.geo.extractTag addr) ∈ slots validTag s 0 (s.geo.extractSet addr) := by
        by_contra hn
        rw [(findBlock_eq_none_iff hsh).2 hn] at hf
        cases hf
      have hu := invalidateBlk_found hF hf hr
      simp only [lowStep, if_pos hhit]
      rw [slots_eq_update hF hu (mem_of_findBlk hf), slots_invalidate (hF.nodup _ _) hsh hf rfl hu]

end

/-! ## Two runs -/

/-- Two sequences with the same `(0,0)` operations, in which no `(1,1)` operation
invalidates a Low block and no `(1,1)` access finds its block in Low: Low's
accesses hit and miss alike and its lists have the same recency order. -/
theorem dclru_low_noninterference (geo : Geometry) (maxMasters : Nat) (ops₁ ops₂ : List Op)
    (hlow : ops₁.filter Op.isLow = ops₂.filter Op.isLow)
    (hk₁ : Along step KeepsLow (init geo maxMasters) ops₁)
    (hk₂ : Along step KeepsLow (init geo maxMasters) ops₂)
    (hm₁ : Along step MissesLow (init geo maxMasters) ops₁)
    (hm₂ : Along step MissesLow (init geo maxMasters) ops₂)
    (s₁ s₂ : Lru) (hits₁ hits₂ : List (Option Bool))
    (hr₁ : run step Op.isLow (init geo maxMasters) ops₁ = some (s₁, hits₁))
    (hr₂ : run step Op.isLow (init geo maxMasters) ops₂ = some (s₂, hits₂)) :
    hits₁ = hits₂ ∧ ∀ i, slots validTag s₁ 0 i = slots validTag s₂ 0 i := by
  let R : Lru → Lru → Prop := fun x y =>
    Frames 2 x ∧ Frames 2 y ∧ x.geo = y.geo ∧ slots validTag x 0 = slots validTag y 0
  have hF : Frames 2 (init geo maxMasters) := frames_initSets
  -- an operation of High leaves Low's slots alone
  have hhigh : ∀ x o x' out, Frames 2 x → o.isLow = false → KeepsLow x o ∧ MissesLow x o →
      step x o = some (x', out) →
      Frames 2 x' ∧ x'.geo = x.geo ∧ slots validTag x' 0 = slots validTag x 0 := by
    intro x o x' out hx ho hok hst
    obtain ⟨hx', hg, rfl | ⟨i, l, f, b, hu, hf⟩⟩ := step_cases hx hok.1 hok.2 hst
    · exact ⟨hx', hg, rfl⟩
    · rw [ho] at hu hf
      refine ⟨hx', hg, funext fun j => slots_other hx hu hf fun hc => ?_⟩
      simp at hc
  have hrun : R s₁ s₂ ∧ hits₁ = hits₂ := by
    refine unwinding R ?_ ?_ ?_ hlow ⟨hF, hF, rfl, rfl⟩ (hk₁.and hm₁) (hk₂.and hm₂) hr₁ hr₂
    · rintro x y o x' out ⟨hx, hy, hg, hs⟩ ho hok hst
      obtain ⟨hx', hg', hs'⟩ := hhigh x o x' out hx ho hok hst
      exact ⟨hx', hy, hg'.trans hg, hs'.trans hs⟩
    · rintro x y o y' out ⟨hx, hy, hg, hs⟩ ho hok hst
      obtain ⟨hy', hg', hs'⟩ := hhigh y o y' out hy ho hok hst
      exact ⟨hx, hy', hg.trans hg'.symm, hs.trans hs'.symm⟩
    · rintro x y o x' y' out out' ⟨hx, hy, hg, hs⟩ ho hok hok' hstx hsty
      obtain ⟨hx', hgx, -⟩ := step_cases hx hok.1 hok.2 hstx
      obtain ⟨hy', hgy, -⟩ := step_cases hy hok'.1 hok'.2 hsty
      have h1 := lowStep_of_step hx ho hstx
      rw [hg, hs, ← lowStep_of_step hy ho hsty] at h1
      obtain ⟨hs', hout⟩ := Prod.mk.inj h1
      exact ⟨⟨hx', hy', hgx.trans (hg.trans hgy.symm), hs'⟩, hout⟩
  obtain ⟨⟨-, -, -, hs⟩, hh⟩ := hrun
  exact ⟨hh, fun i => congrFun hs i⟩

/-- High loads and reads a block that Low uses later, when Low does not hold it. -/
theorem dclru_low_noninterference_shared_block :
    let geo : Geometry := ⟨1, 4, 4, 1, by decide, by decide, by decide, by decide⟩
    let low : List Op := [.fill false 0 0 1 {}, .fill false 4 0 2 {}, .access false 0 5]
    let both : List Op := [.fill true 0 0 1 {}, .access true 0 1] ++ low ++ [.access true 8 6]
    ∃ s₁ s₂ hits₁ hits₂, run step Op.isLow (init geo 1) both = some (s₁, hits₁) ∧
      run step Op.isLow (init geo 1) low = some (s₂, hits₂) ∧ hits₁ = hits₂ ∧
      ∀ i, slots validTag s₁ 0 i = slots validTag s₂ 0 i := by
  intro geo low both
  obtain ⟨⟨s₁, hits₁⟩, e₁⟩ := Option.isSome_iff_exists.1
    (show (run step Op.isLow (init geo 1) both).isSome = true by decide +kernel)
  obtain ⟨⟨s₂, hits₂⟩, e₂⟩ := Option.isSome_iff_exists.1
    (show (run step Op.isLow (init geo 1) low).isSome = true by decide +kernel)
  exact ⟨s₁, s₂, hits₁, hits₂, e₁, e₂,
    dclru_low_noninterference geo 1 both low (by decide +kernel) (by decide +kernel) (by decide +kernel)
      (by decide +kernel) (by decide +kernel) s₁ s₂ hits₁ hits₂ e₁ e₂⟩

end DcLru

end DynamicCache.Tags
