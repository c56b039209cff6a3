import DynamicCache.Base.RangeMap

/-!
# Routing of the round-robin bus (`RRBus::findPort`, `recvRangeChange`, `checkPortCache`)

The bus keeps the ranges that its master ports reported in a range map, those of
the default port in a list, and the last three lookups in a cache.  A port's ranges
are replaced when the port reports again, and that empties the cache.

`recvRangeChange` ends with calls to the neighbours of the bus, which may call it
again.  A call for a port whose own call is not over does nothing, so the end of a
call is an action here (`rangeChanged`).

As long as no port reports a range that is empty or overlaps another one of the
last reports (`Reports`), the cache cannot be seen: every lookup finds what the
range map and the default range give, and that is the port whose range contains the
address (`findPort_transparent`).
-/

namespace DynamicCache.Bus

open Lib Base

/-- `fatal` ends the simulation. -/
inductive RoutingFault where
  | fatal
  | assertion
deriving DecidableEq, Repr

structure PortCache where
  valid : Bool := false
  id : Nat := 0
  start : Nat := 0
  end_ : Nat := 0
deriving DecidableEq, Repr

/-- The ports of a bus; `none` is `InvalidPortID`. -/
structure Ports where
  numMasterPorts : Nat
  defaultPortID : Option Nat
  useDefaultRange : Bool

structure Routing where
  portMap : RangeMap Nat Nat
  defaultRange : List (Range Nat)
  /-- the three entries, the newest first -/
  portCache : List PortCache
  inRecvRangeChange : List Nat

namespace Routing

/-- A bus after its constructor. -/
def init : Routing := ⟨.empty, [], List.replicate 3 {}, []⟩

variable (p : Ports) (s : Routing)

/-! ## Lookups -/

def checkPortCache (addr : Nat) : Option Nat :=
  (s.portCache.find? fun c => c.valid ∧ c.start ≤ addr ∧ addr < c.end_).map PortCache.id

def updatePortCache (id start end_ : Nat) : Routing :=
  { s with portCache := ⟨true, id, start, end_⟩ :: s.portCache.take 2 }

def clearPortCache : Routing :=
  { s with portCache := s.portCache.map fun c => { c with valid := false } }

/-- The end of `findPort`, for an address in no range of the map. -/
def defaultPort (addr : Nat) : Except RoutingFault Nat :=
  if p.useDefaultRange then
    if s.defaultRange.any fun r => r.Contains addr then orFail .fatal p.defaultPortID
    else .error .fatal
  else orFail .fatal p.defaultPortID

/-- `find(RangeSize(addr, 1))` -/
def findRange (addr : Nat) : Option (Range Nat × Nat) := s.portMap.find ⟨addr, addr⟩

def findPort (addr : Nat) : Except RoutingFault (Routing × Nat) :=
  match s.checkPortCache addr with
  | some id => .ok (s, id)
  | none =>
    match s.findRange addr with
    | some (r, id) => .ok (s.updatePortCache id r.start r.end_, id)
    | none => (s.defaultPort p addr).map fun id => (s, id)

/-- The same lookup without the cache. -/
def lookup (addr : Nat) : Except RoutingFault Nat :=
  match s.findRange addr with
  | some (_, id) => .ok id
  | none => s.defaultPort p addr

/-! ## Reports -/

/-- The loop that inserts the ranges of a port. -/
def insertRanges (id : Nat) : List (Range Nat) → RangeMap Nat Nat → Except RoutingFault (RangeMap Nat Nat)
  | [], m => .ok m
  | r :: rs, m =>
    match m.insert r id with
    | some m' => insertRanges id rs m'
    | none => .error .fatal

/-- The port reports `ranges`. -/
def recvRangeChange (id : Nat) (ranges : List (Range Nat)) : Except RoutingFault Routing :=
  if id ∈ s.inRecvRangeChange then .ok s
  else
    let s := { s.clearPortCache with inRecvRangeChange := id :: s.inRecvRangeChange }
    if p.defaultPortID = some id then
      .ok { s with defaultRange := if p.useDefaultRange then ranges else [] }
    else do
      check .assertion (decide (id < p.numMasterPorts))
      let m ← insertRanges id ranges (s.portMap.eraseIf fun d => d == id)
      return { s with portMap := m }

inductive Act where
  | findPort (addr : Nat)
  | recvRangeChange (id : Nat) (ranges : List (Range Nat))
  /-- the call of `recvRangeChange` for a port is over -/
  | rangeChanged (id : Nat)

def step : Act → Except RoutingFault Routing
  | .findPort addr => (s.findPort p addr).map Prod.fst
  | .recvRangeChange id ranges => s.recvRangeChange p id ranges
  | .rangeChanged id => .ok { s with inRecvRangeChange := s.inRecvRangeChange.erase id }

/-! ## What the ports reported -/

/-- The ranges of the last reports, with their ports. -/
def reported : List (Range Nat × Nat) :=
  s.portMap.tree ++ p.defaultPortID.toList.flatMap fun d => s.defaultRange.map fun r => (r, d)

/-- A report has no empty range and no range that overlaps another one of the last reports. -/
def Reports : Act → Prop
  | .recvRangeChange id ranges =>
    (∀ r ∈ ranges, r.start ≤ r.end_) ∧ (ranges.Pairwise fun a b => ¬a.Meets b) ∧
      ∀ e ∈ s.reported p, e.2 ≠ id → ∀ r ∈ ranges, ¬r.Meets e.1
  | _ => True

instance (a : Act) : Decidable (Reports p s a) := by
  unfold Reports
  split <;> infer_instance

/-- Every valid entry of the cache is a range of the map; the ranges of the map are
disjoint, and disjoint from those of the default port. -/
structure Mirrors : Prop where
  map : s.portMap.Disjoint
  cache : ∀ c ∈ s.portCache, c.valid = true → ((⟨c.start, c.end_⟩, c.id) : Range Nat × Nat) ∈ s.portMap.tree
  apart : ∀ e ∈ s.portMap.tree, ∀ r ∈ s.defaultRange, ¬r.Meets e.1
  owners : ∀ e ∈ s.portMap.tree, p.defaultPortID ≠ some e.2
  default : s.defaultRange ≠ [] → p.useDefaultRange = true ∧ p.defaultPortID ≠ none

section Mirrors

variable {p s} {s' : Routing} {addr : Nat}

theorem findRange_mem {e : Range Nat × Nat} (h : s.findRange addr = some e) :
    e ∈ s.portMap.tree ∧ e.1.Contains addr := by
  obtain ⟨he, hm⟩ := RangeMap.find_mem h
  exact ⟨he, Range.meets_point.1 hm⟩

/-- The cache gives what the map has. -/
theorem Mirrors.checkPortCache (hM : Mirrors p s) {id : Nat} (h : s.checkPortCache addr = some id) :
    ∃ r, s.findRange addr = some (r, id) := by
  obtain ⟨c, hc, rfl⟩ := Option.map_eq_some_iff.1 h
  have hv : c.valid = true ∧ c.start ≤ addr ∧ addr < c.end_ := by simpa using List.find?_some hc
  have hmem := hM.cache c (List.mem_of_find?_eq_some hc) hv.1
  exact ⟨_, hM.map.find_point hmem ⟨hv.2.1, hv.2.2.le⟩⟩

theorem Mirrors.findPort_eq (hM : Mirrors p s) (addr : Nat) :
    (s.findPort p addr).map Prod.snd = s.lookup p addr := by
  unfold findPort lookup
  split
  · next id hid =>
    obtain ⟨r, hr⟩ := hM.checkPortCache hid
    rw [hr]
    rfl
  · split
    · rfl
    · cases s.defaultPort p addr <;> rfl

/-- The port whose range contains the address is found. -/
theorem Mirrors.lookup_eq (hM : Mirrors p s) {e : Range Nat × Nat} (he : e ∈ s.reported p)
    (hc : e.1.Contains addr) : s.lookup p addr = .ok e.2 := by
  unfold lookup
  rcases List.mem_append.1 he with he | he
  · rw [findRange, hM.map.find_point he hc]
  · obtain ⟨d, hd, he⟩ := List.mem_flatMap.1 he
    obtain ⟨r, hr, rfl⟩ := List.mem_map.1 he
    cases hf : s.findRange addr with
    | some i =>
      obtain ⟨hi, hci⟩ := findRange_mem hf
      exact absurd (Range.Contains.meets hc hci) (hM.apart i hi r hr)
    | none =>
      have hu := (hM.default (List.ne_nil_of_mem hr)).1
      have hany : (s.defaultRange.any fun r => r.Contains addr) = true :=
        List.any_eq_true.2 ⟨r, hr, decide_eq_true hc⟩
      simp only [defaultPort, hu, hany, if_true]
      rw [Option.mem_toList.1 hd]
      rfl

/-! ## Steps -/

theorem mirrors_init : Mirrors p init where
  map := RangeMap.disjoint_empty
  cache c hc hv := by
    rw [List.eq_of_mem_replicate hc] at hv
    cases hv
  apart e he := by cases he
  owners e he := by cases he
  default h := absurd rfl h

theorem Mirrors.findPort (hM : Mirrors p s) {id : Nat} (h : s.findPort p addr = .ok (s', id)) : Mirrors p s' := by
  unfold Routing.findPort at h
  split at h
  · cases h
    exact hM
  · split at h
    · next r d hf =>
      cases h
      refine { hM with cache := fun c hc hv => ?_ }
      rcases List.mem_cons.1 hc with rfl | hc
      · exact (findRange_mem hf).1
      · exact hM.cache c (List.mem_of_mem_take hc) hv
    · cases hd : s.defaultPort p addr with
      | error e => rw [hd] at h; cases h
      | ok d =>
        rw [hd] at h
        cases h
        exact hM

/-- Ranges that overlap no stored one are all inserted. -/
theorem insertRanges_ok {id : Nat} {rs : List (Range Nat)} {m m' : RangeMap Nat Nat} (hd : m.Disjoint)
    (hne : ∀ r ∈ rs, r.start ≤ r.end_) (hrs : rs.Pairwise fun a b => ¬a.Meets b)
    (hout : ∀ e ∈ m.tree, ∀ r ∈ rs, ¬r.Meets e.1) (h : insertRanges id rs m = .ok m') :
    m'.Disjoint ∧ ∀ e ∈ m'.tree, e ∈ m.tree ∨ e.2 = id ∧ e.1 ∈ rs := by
  induction rs generalizing m with
  | nil =>
    cases h
    exact ⟨hd, fun e he => .inl he⟩
  | cons r rs ih =>
    obtain ⟨hr, hrs⟩ := List.pairwise_cons.1 hrs
    obtain ⟨m₁, hi, hperm, hd₁⟩ := hd.insert_apart (d := id) (hne r List.mem_cons_self)
      fun e he => hout e he r List.mem_cons_self
    simp only [insertRanges, hi] at h
    obtain ⟨hd', hmem⟩ := ih hd₁ (fun x hx => hne x (List.mem_cons_of_mem r hx)) hrs
      (fun e he x hx => by
        rcases List.mem_cons.1 (hperm.subset he) with rfl | he
        · exact fun hm => hr x hx hm.symm
        · exact hout e he x (List.mem_cons_of_mem r hx)) h
    refine ⟨hd', fun e he => ?_⟩
    rcases hmem e he with he | ⟨h2, hin⟩
    · rcases List.mem_cons.1 (hperm.subset he) with rfl | he
      · exact .inr ⟨rfl, List.mem_cons_self⟩
      · exact .inl he
    · exact .inr ⟨h2, List.mem_cons_of_mem r hin⟩

theorem clearPortCache_valid {c : PortCache} (h : c ∈ s.clearPortCache.portCache) : c.valid = false := by
  obtain ⟨c', -, rfl⟩ := List.mem_map.1 h
  rfl

theorem Mirrors.recvRangeChange (hM : Mirrors p s) {id : Nat} {ranges : List (Range Nat)}
    (hR : Reports p s (.recvRangeChange id ranges)) (h : s.recvRangeChange p id ranges = .ok s') : Mirrors p s' := by
  obtain ⟨hne, hapart, hout⟩ := hR
  have hmap : ∀ e ∈ s.portMap.tree, e ∈ s.reported p := fun e he => List.mem_append_left _ he
  unfold Routing.recvRangeChange at h
  split at h
  · cases h
    exact hM
  · dsimp only at h
    split at h
    · next hdef =>
      -- the default port replaces its list
      cases h
      have hnot : ∀ e ∈ s.portMap.tree, e.2 ≠ id := fun e he hid => hM.owners e he (hid ▸ hdef)
      refine { map := hM.map, owners := hM.owners, cache := ?_, apart := ?_, default := ?_ }
      · intro c hc hv
        rw [clearPortCache_valid (s := s) hc] at hv
        cases hv
      · intro e he r hr
        split at hr
        · exact hout e (hmap e he) (hnot e he) r hr
        · cases hr
      · intro hd
        refine ⟨?_, by rw [hdef]; exact Option.some_ne_none id⟩
        by_contra hu
        exact hd (if_neg hu)
    · next hdef =>
      -- another port replaces its ranges in the map
      obtain ⟨_, -, h⟩ := bind_ok.1 h
      obtain ⟨m, hm, h⟩ := bind_ok.1 h
      cases h
      have hkept : ∀ e ∈ (s.portMap.eraseIf fun d => d == id).tree, e ∈ s.portMap.tree ∧ e.2 ≠ id := by
        intro e he
        obtain ⟨he, hn⟩ := List.mem_filter.1 he
        exact ⟨he, by simpa using hn⟩
      obtain ⟨hd, hmem⟩ := insertRanges_ok (hM.map.sublist List.filter_sublist) hne hapart
        (fun e he => hout e (hmap e (hkept e he).1) (hkept e he).2) hm
      refine { map := hd, cache := ?_, apart := ?_, owners := ?_, default := hM.default }
      · intro c hc hv
        rw [clearPortCache_valid (s := s) hc] at hv
        cases hv
      · intro e he r hr
        rcases hmem e he with he | ⟨h2, hin⟩
        · exact hM.apart e (hkept e he).1 r hr
        · obtain ⟨-, hdn⟩ := hM.default (List.ne_nil_of_mem hr)
          obtain ⟨d, hd⟩ := Option.ne_none_iff_exists'.1 hdn
          have hrep : (r, d) ∈ s.reported p :=
            List.mem_append_right _ (List.mem_flatMap.2 ⟨d, Option.mem_toList.2 hd, List.mem_map.2 ⟨r, hr, rfl⟩⟩)
          have hdid : d ≠ id := fun hdid => hdef (hdid ▸ hd)
          exact fun hm => hout (r, d) hrep hdid e.1 hin hm.symm
      · intro e he
        rcases hmem e he with he | ⟨h2, -⟩
        · exact hM.owners e (hkept e he).1
        · rw [h2]
          exact hdef

theorem Mirrors.step (hM : Mirrors p s) {a : Act} (hR : Reports p s a) (h : s.step p a = .ok s') : Mirrors p s' := by
  cases a with
  | findPort addr =>
    cases hf : s.findPort p addr with
    | error e => simp only [Routing.step, hf] at h; cases h
    | ok x =>
      simp only [Routing.step, hf] at h
      cases h
      exact hM.findPort hf
  | recvRangeChange id ranges => exact hM.recvRangeChange hR h
  | rangeChanged id =>
    cases h
    exact { hM with }

end Mirrors

/-- In every run with such reports every lookup gives the port that the map and the
default range give, and a port whose range contains the address is the one that is
given. -/
theorem findPort_transparent (p : Ports) (as : List Act)
    (hok : Always (step p) (Reports p) init as) {s : Routing} (hr : runs (step p) init as = .ok s) (addr : Nat) :
    (s.findPort p addr).map Prod.snd = s.lookup p addr ∧
      ∀ e ∈ s.reported p, e.1.Contains addr → s.lookup p addr = .ok e.2 := by
  have hM : Mirrors p s :=
    runs_invariant (Mirrors p) (fun s a s' hM ha h => hM.step ha h) mirrors_init hok hr
  exact ⟨hM.findPort_eq addr, fun e he hc => hM.lookup_eq he hc⟩

/-- Two ports and the default port report, an address is looked up, and its port
moves its range. -/
def moved : List Act :=
  [.recvRangeChange 0 [⟨0, 9⟩], .recvRangeChange 1 [⟨10, 19⟩, ⟨30, 39⟩], .recvRangeChange 2 [⟨100, 199⟩],
    .findPort 3, .rangeChanged 0, .recvRangeChange 0 [⟨20, 29⟩], .findPort 39, .findPort 25]

theorem findPort_transparent_moved :
    ∃ s, runs (step ⟨2, some 2, true⟩) init moved = .ok s ∧ s.checkPortCache 25 = some 0 ∧
      (s.findPort ⟨2, some 2, true⟩ 25).map Prod.snd = s.lookup ⟨2, some 2, true⟩ 25 ∧
      ∀ e ∈ s.reported ⟨2, some 2, true⟩, e.1.Contains 25 → s.lookup ⟨2, some 2, true⟩ 25 = .ok e.2 := by
  exact exists_ok (fun s => s.checkPortCache 25 = some 0) (by decide) fun s hs hp =>
    ⟨hp, findPort_transparent ⟨2, some 2, true⟩ moved (by decide) hs 25⟩

end Routing

end DynamicCache.Bus
