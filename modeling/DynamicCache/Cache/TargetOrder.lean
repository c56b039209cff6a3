import DynamicCache.Cache.Queues

/-!
# The targets of one register

A register seen alone, with the calls that the cache makes on it.  `Use` adds to
the register what the cache is doing with it and the requests that it was given
and has served; `Use.issues` says which calls the cache makes then.  `Use.Ok`
holds between the calls: the count of the targets, the flags of the two lists,
and the order of the requests, which are those served, those in `targets` and
the deferred ones, one after the other.

`handleFill` relies on the history of a register.  `Mshr.Fillable` is what
remains of it: without a snoop in between, targets are deferred only when
ownership is not pending, and then no target needs an exclusive copy.
-/

namespace DynamicCache.Cache

open Lib

/-! ## Requests -/

/-- A target without what a snoop may change in its packet. -/
def Target.request (x : Target) : Target :=
  { x with pkt := { x.pkt with cmd := .invalidCmd, isSupplyExclusive := false } }

/-- The targets that are no snoops. -/
def requests (l : List Target) : List Target := (l.filter fun x => x.source != .fromSnoop).map Target.request

@[simp] theorem requests_nil : requests [] = [] := rfl

@[simp] theorem requests_append (l l' : List Target) : requests (l ++ l') = requests l ++ requests l' := by
  simp [requests]

theorem requests_snoop {x : Target} (h : x.source = .fromSnoop) : requests [x] = [] := by
  simp [requests, h]

/-- A target that keeps its source and its request. -/
theorem requests_cons {x y : Target} {l l' : List Target} (hs : x.source = y.source) (hr : x.request = y.request)
    (hl : requests l = requests l') : requests (x :: l) = requests (y :: l') := by
  unfold requests at hl ⊢
  simp only [List.filter_cons, hs]
  split
  · rw [List.map_cons, List.map_cons, hr, hl]
  · exact hl

theorem requests_map {f : Target → Target} (hs : ∀ x, (f x).source = x.source)
    (hr : ∀ x, (f x).request = x.request) (l : List Target) : requests (l.map f) = requests l := by
  induction l with
  | nil => rfl
  | cons x l ih => exact requests_cons (hs x) (hr x) ih

theorem requests_take_tail (l : List Target) : requests (l.take 1) ++ requests l.tail = requests l := by
  rw [← requests_append, ← List.drop_one, List.take_append_drop]

namespace TargetList

variable {l l' : TargetList} {now time order : Nat} {pkt : Packet} {source : Source}

theorem requests_add (l : TargetList) (now : Nat) (pkt : Packet) (time order : Nat) (source : Source) :
    requests (l.add now pkt time order source).list = requests l.list ++ requests [⟨now, time, order, pkt, source⟩] :=
  requests_append _ _

theorem requests_replaceUpgrades (l : TargetList) : requests l.replaceUpgrades.list = requests l.list := by
  unfold replaceUpgrades
  split
  · exact requests_map (f := fun x => { x with pkt := replaceUpgrade x.pkt }) (fun _ => rfl) (fun _ => rfl) l.list
  · rfl

/-! ## Flags -/

/-- A request for an exclusive copy is seen in the flag of its list. -/
def Marked (l : TargetList) : Prop :=
  ∀ x ∈ l.list, x.source ≠ .fromSnoop → x.pkt.needsExclusive = true → l.needsExclusive = true

theorem marked_nil (h : l.list = []) : l.Marked := by
  intro x hx
  rw [h] at hx
  cases hx

theorem Marked.of_mem (h : l.Marked) (hm : ∀ x ∈ l'.list, x ∈ l.list)
    (hn : l.needsExclusive = true → l'.needsExclusive = true) : l'.Marked :=
  fun x hx hs he => hn (h x (hm x hx) hs he)

theorem Marked.add (h : l.Marked) (now : Nat) (pkt : Packet) (time order : Nat) (source : Source) :
    (l.add now pkt time order source).Marked := by
  intro x hx hs he
  obtain hx | hx := List.mem_append.1 hx
  · have := h x hx hs he
    simp [TargetList.add, this]
  · obtain rfl := List.mem_singleton.1 hx
    have hs' : source ≠ .fromSnoop := hs
    have he' : pkt.needsExclusive = true := he
    simp [TargetList.add, hs', he']

theorem needsExclusive_replaceUpgrade (pkt : Packet) : (replaceUpgrade pkt).needsExclusive = pkt.needsExclusive := by
  unfold replaceUpgrade Packet.needsExclusive
  cases pkt.cmd <;> rfl

theorem needsExclusive_replaceUpgrades (l : TargetList) : l.replaceUpgrades.needsExclusive = l.needsExclusive := by
  unfold replaceUpgrades
  split <;> rfl

theorem Marked.replaceUpgrades (h : l.Marked) : l.replaceUpgrades.Marked := by
  intro x hx hs he
  rw [needsExclusive_replaceUpgrades]
  unfold TargetList.replaceUpgrades at hx
  split at hx
  · obtain ⟨y, hy, rfl⟩ := List.mem_map.1 hx
    exact h y hy hs (by rwa [← needsExclusive_replaceUpgrade])
  · exact h x hx hs he

/-- An empty list whose flags were reset. -/
def Idle (l : TargetList) : Prop := l.list = [] → l.isReset = true

theorem idle_add (l : TargetList) (now : Nat) (pkt : Packet) (time order : Nat) (source : Source) :
    (l.add now pkt time order source).Idle := by
  intro h
  simp [TargetList.add] at h

theorem Idle.replaceUpgrades (h : l.Idle) : l.replaceUpgrades.Idle := by
  unfold TargetList.replaceUpgrades
  split
  · intro he
    have hr := h (List.map_eq_nil_iff.1 he)
    simp only [isReset, Bool.and_eq_true] at hr ⊢
    exact ⟨hr.1, rfl⟩
  · exact h

end TargetList

/-! ## Registers -/

/-- What the deferrals of a register in service leave for `handleFill`. -/
def Mshr.Fillable (m : Mshr) : Prop :=
  m.inService = true → m.isForward = false → m.postInvalidate = false → m.postDowngrade = false →
    (m.deferredTargets.list ≠ [] → m.pendingDirty = false) ∧ (m.pendingDirty = false → m.targets.needsExclusive = false)

/-- The only assertion of `handleFill` on a register in service is the one on the targets. -/
theorem Mshr.handleFill_total {m : Mshr} (hi : m.inService = true)
    (hx : m.deferredTargets.needsExclusive = true → m.postInvalidate = false → m.postDowngrade = false →
      m.targets.needsExclusive = false) (pkt : Packet) : ∃ m', m.handleFill pkt = .ok m' := by
  simp only [handleFill, hasPostInvalidate, hasPostDowngrade, assert, check, hi, if_true]
  cases pkt.sharedAsserted with
  | true => exact ⟨m, rfl⟩
  | false =>
    cases hc : !(m.postInvalidate || m.postDowngrade) && m.deferredTargets.needsExclusive with
    | false =>
      refine ⟨m, ?_⟩
      show (if (!(m.postInvalidate || m.postDowngrade) && m.deferredTargets.needsExclusive) = true then _ else _) = _
      rw [hc]
      rfl
    | true =>
      simp only [Bool.and_eq_true, Bool.not_eq_true', Bool.or_eq_false_iff] at hc
      have hn := hx hc.2 hc.1.1 hc.1.2
      exact ⟨_, by simp only [hc.1.1, hc.1.2, hc.2, hn]; rfl⟩

inductive Phase where
  | free
  | held
  | serving
  | promoted
  | done
deriving DecidableEq, Repr

/-- A register, what the cache does with it, and the requests added to it and
taken from it so far. -/
structure Use where
  mshr : Mshr := {}
  phase : Phase := .free
  added : List Target := []
  served : List Target := []

/-- The calls on a register.  `setForward` is the assignment of `getTimingPacket`,
`shareWriteback` that of a snoop which finds a writeback. -/
inductive Call where
  | allocate (now addr size : Nat) (pkt : Packet) (whenReady order : Nat)
  | allocateTarget (now : Nat) (pkt : Packet) (whenReady order : Nat)
  | setForward (v : Bool)
  | shareWriteback
  | markInService (pkt : Packet)
  | handleSnoop (now : Nat) (pkt : Packet) (order : Nat)
  | handleFill (pkt : Packet)
  | popTarget
  | promoteDeferredTargets (now : Nat)
  | markPending
  | deallocate

variable {pkt : Packet} {u' : Use}

namespace Use

variable (u : Use)

/-- The calls that the cache makes in each phase.  A held register waits to be sent
or for its response.  The response is a fill unless the request was forwarded;
then `handleResponse` pops the targets while there are some, promotes the deferred
ones, and marks the register pending or frees it. -/
def issues : Call → Bool
  | .allocate .. => u.phase == .free
  | .allocateTarget _ pkt _ _ => u.phase == .held && pkt.cmd != .hardPFReq
  | .setForward _ => u.phase == .held && !u.mshr.inService
  | .shareWriteback => u.phase == .held
  | .markInService _ => u.phase == .held && !u.mshr.inService
  | .handleSnoop .. => u.phase == .held
  | .handleFill _ => u.phase == .held && u.mshr.inService && !u.mshr.isForward
  | .popTarget => (u.phase == .held || u.phase == .serving) && u.mshr.hasTargets
  | .promoteDeferredTargets _ => u.phase == .serving && !u.mshr.hasTargets
  | .markPending => u.phase == .promoted
  | .deallocate => u.phase == .done

/-- `markInService` takes the target of a request that gets no response. -/
def step : Call → Res Use
  | .allocate now addr size pkt time order => do
    let m ← u.mshr.allocate now addr size pkt time order
    return { u with mshr := m, phase := .held, added := u.added ++ requests m.targets.list }
  | .allocateTarget now pkt time order => do
    let m ← u.mshr.allocateTarget now pkt time order
    return { u with mshr := m, added := u.added ++ requests [⟨now, time, order, pkt, .fromCPU⟩] }
  | .setForward v => return { u with mshr := { u.mshr with isForward := v } }
  | .shareWriteback => do
    let x ← u.mshr.getTarget
    return { u with mshr := State.shareWriteback u.mshr x }
  | .markInService pkt => do
    let (m, done) ← u.mshr.markInService pkt
    if done then
      return { u with mshr := m, phase := .done, served := u.served ++ requests (u.mshr.targets.list.take 1) }
    else return { u with mshr := m }
  | .handleSnoop now pkt order => return { u with mshr := (u.mshr.handleSnoop now pkt order).1 }
  | .handleFill pkt => do
    let m ← u.mshr.handleFill pkt
    return { u with mshr := m, phase := .serving }
  | .popTarget =>
    return { u with
      mshr := u.mshr.popTarget, phase := .serving, served := u.served ++ requests (u.mshr.targets.list.take 1) }
  | .promoteDeferredTargets now => do
    let (m, promoted) ← u.mshr.promoteDeferredTargets now
    return { u with mshr := m, phase := if promoted then .promoted else .done }
  | .markPending => do
    assert u.mshr.inService
    return { u with mshr := { u.mshr with inService := false }, phase := .held }
  | .deallocate => do
    let m ← u.mshr.deallocate
    return { u with mshr := m, phase := .free }

/-! ## The invariant -/

/-- What each phase adds to the invariant. -/
def Stage : Phase → Mshr → Prop
  | .free, m => m.targets.list = [] ∧ m.deferredTargets.list = [] ∧ m.targets.isReset = true
  | .held, m => m.targets.list ≠ [] ∧ m.Fillable
  | .serving, _ => True
  | .promoted, m => m.inService = true ∧ m.targets.list ≠ [] ∧ m.deferredTargets.list = []
  | .done, m => m.getNumTargets = 0 ∧ m.deferredTargets.list = []

structure Ok (u : Use) : Prop where
  count : u.mshr.ntargets = u.mshr.targets.list.length + u.mshr.deferredTargets.list.length
  marked : u.mshr.targets.Marked
  markedDeferred : u.mshr.deferredTargets.Marked
  idle : u.mshr.deferredTargets.Idle
  waits : u.mshr.inService = false → u.mshr.deferredTargets.list = []
  order : u.served ++ requests u.mshr.targets.list ++ requests u.mshr.deferredTargets.list = u.added
  stage : Stage u.phase u.mshr

theorem ok_init : Ok {} :=
  ⟨rfl, TargetList.marked_nil rfl, TargetList.marked_nil rfl, fun _ => rfl, fun _ => rfl, rfl, rfl, rfl, rfl⟩

namespace Ok

variable {u : Use}

theorem allocate (hu : u.Ok) (hp : u.phase = .free) (now addr size : Nat) (pkt : Packet) (time order : Nat) :
    ∃ u', u.step (.allocate now addr size pkt time order) = .ok u' ∧ u'.Ok := by
  have hs := hu.stage
  rw [hp] at hs
  obtain ⟨ht, hd, hr⟩ := hs
  have hrd := hu.idle hd
  refine ⟨_, by simp only [step, Mshr.allocate, assert, check, hr, hrd, if_true]; rfl, ?_⟩
  refine ⟨?_, hu.marked.add _ _ _ _ _, hu.markedDeferred, hu.idle, fun _ => hd, ?_, by simp [TargetList.add],
    fun hi => ?_⟩
  · simp [TargetList.add, ht, hd]
  · have ho := hu.order
    simp only [ht, hd, requests_nil, List.append_nil] at ho
    simp [TargetList.requests_add, ht, hd, ho]
  · cases hi

/-- A target that the response cannot serve waits behind those deferred before. -/
theorem deferTarget (hu : u.Ok) (hp : u.phase = .held) (hd : u.mshr.defers pkt = true) (now time order : Nat) :
    Ok { u with
      mshr := { u.mshr with
        deferredTargets := u.mshr.deferredTargets.add now (if u.mshr.postInvalidate then replaceUpgrade pkt else pkt)
          time order .fromCPU
        ntargets := u.mshr.ntargets + 1 }
      added := u.added ++ requests [⟨now, time, order, pkt, .fromCPU⟩] } := by
  have hs := hu.stage
  rw [hp] at hs
  obtain ⟨ht, hf⟩ := hs
  have hi : u.mshr.inService = true := by
    simp only [Mshr.defers, Bool.and_eq_true] at hd
    exact hd.1
  have hc := hu.count
  refine ⟨?_, hu.marked, hu.markedDeferred.add _ _ _ _ _, TargetList.idle_add _ _ _ _ _ _, ?_, ?_, ?_⟩
  · simp only [TargetList.add, List.length_append, List.length_singleton]
    omega
  · exact fun hn => absurd hi (by rw [hn]; decide)
  · have hr : requests [⟨now, time, order, if u.mshr.postInvalidate then replaceUpgrade pkt else pkt, .fromCPU⟩] =
        requests [⟨now, time, order, pkt, .fromCPU⟩] := by
      split <;> rfl
    rw [TargetList.requests_add, hr, ← List.append_assoc, hu.order]
  · rw [hp]
    refine ⟨ht, fun _ hfw hpi hpd => ⟨fun _ => ?_, (hf hi hfw hpi hpd).2⟩⟩
    cases hl : u.mshr.deferredTargets.list with
    | cons x xs => exact (hf hi hfw hpi hpd).1 (by simp [hl])
    | nil =>
      have hfw' : u.mshr.isForward = false := hfw
      have hpi' : u.mshr.postInvalidate = false := hpi
      have hpd' : u.mshr.postDowngrade = false := hpd
      -- the first deferral without a snoop is for lack of ownership
      simp only [Mshr.defers, hi, hl, hfw', hpi', hpd', List.isEmpty_nil, Bool.not_true, Bool.or_false, Bool.false_or,
        Bool.true_and, Bool.and_eq_true, Bool.not_eq_true'] at hd
      exact hd.2

/-- A target that joins the others is not overtaken by a deferred one: there is none. -/
theorem joinTarget (hu : u.Ok) (hp : u.phase = .held) (hd : u.mshr.defers pkt = false) (now time order : Nat) :
    Ok { u with
      mshr := { u.mshr with
        targets := u.mshr.targets.add now pkt time order .fromCPU
        ntargets := u.mshr.ntargets + 1 }
      added := u.added ++ requests [⟨now, time, order, pkt, .fromCPU⟩] } := by
  have hs := hu.stage
  rw [hp] at hs
  obtain ⟨ht, hf⟩ := hs
  have hc := hu.count
  have hl : u.mshr.deferredTargets.list = [] := by
    cases hi : u.mshr.inService with
    | false => exact hu.waits hi
    | true =>
      simp only [Mshr.defers, hi, Bool.true_and, Bool.or_eq_false_iff, Bool.not_eq_false', List.isEmpty_iff] at hd
      exact hd.1.1
  refine ⟨?_, hu.marked.add _ _ _ _ _, hu.markedDeferred, hu.idle, hu.waits, ?_, ?_⟩
  · simp only [TargetList.add, List.length_append, List.length_singleton]
    omega
  · have ho := hu.order
    simp only [hl, requests_nil, List.append_nil] at ho ⊢
    rw [TargetList.requests_add, ← List.append_assoc, ho]
  · rw [hp]
    refine ⟨by simp [TargetList.add], fun hi hfw hpi hpd => ⟨fun hne => absurd hl hne, fun hpend => ?_⟩⟩
    have hi' : u.mshr.inService = true := hi
    have hpend' : u.mshr.pendingDirty = false := hpend
    have hold := (hf hi hfw hpi hpd).2 hpend
    have hx : pkt.needsExclusive = false := by
      simp only [Mshr.defers, hi', hpend', Bool.not_false, Bool.true_or, Bool.and_true, Bool.true_and,
        Bool.or_eq_false_iff] at hd
      exact hd.2
    simp [TargetList.add, hold, hx]

theorem allocateTarget (hu : u.Ok) (hp : u.phase = .held) (hc : pkt.cmd ≠ .hardPFReq) (now time order : Nat) :
    ∃ u', u.step (.allocateTarget now pkt time order) = .ok u' ∧ u'.Ok := by
  have hc' : (pkt.cmd != .hardPFReq) = true := by simpa using hc
  cases hd : u.mshr.defers pkt with
  | true =>
    refine ⟨_, ?_, hu.deferTarget hp hd now time order⟩
    simp only [step, Mshr.allocateTarget, assert, check, hc', hd, if_true]
    rfl
  | false =>
    refine ⟨_, ?_, hu.joinTarget hp hd now time order⟩
    simp only [step, Mshr.allocateTarget, assert, check, hc', hd, if_true, Bool.false_eq_true, if_false]
    rfl

theorem setForward (hu : u.Ok) (hp : u.phase = .held) (hi : u.mshr.inService = false) (v : Bool) :
    Ok { u with mshr := { u.mshr with isForward := v } } := by
  have hs := hu.stage
  rw [hp] at hs
  refine ⟨hu.count, hu.marked, hu.markedDeferred, hu.idle, hu.waits, hu.order, ?_⟩
  rw [hp]
  exact ⟨hs.1, fun hi' => absurd hi' (by rw [show _ = false from hi]; decide)⟩

theorem shareWriteback (hu : u.Ok) (hp : u.phase = .held) :
    ∃ u', u.step .shareWriteback = .ok u' ∧ u'.Ok := by
  have hs := hu.stage
  rw [hp] at hs
  obtain ⟨ht, hf⟩ := hs
  obtain ⟨x, xs, hl⟩ := List.exists_cons_of_ne_nil ht
  refine ⟨_, by simp only [step, Mshr.getTarget, hl, List.head?_cons, orFail]; rfl, ?_⟩
  have hc := hu.count
  have hm := hu.marked
  have ho := hu.order
  simp only [State.shareWriteback, hl, List.tail_cons] at hc ho ⊢
  refine ⟨hc, fun y hy => ?_, hu.markedDeferred, hu.idle, hu.waits, ?_, ?_⟩
  · obtain rfl | hy := List.mem_cons.1 hy
    · exact hm x (by simp [hl])
    · exact hm y (by simp [hl, hy])
  · rw [← ho]
    congr 2
    exact requests_cons rfl rfl rfl
  · rw [hp]
    exact ⟨by simp, hf⟩

theorem isForwardNoResponse_of_targets (ht : u.mshr.targets.list ≠ []) :
    ∃ done, u.mshr.isForwardNoResponse = .ok done ∧ (done = true → u.mshr.getNumTargets = 1) := by
  obtain ⟨x, xs, hl⟩ := List.exists_cons_of_ne_nil ht
  unfold Mshr.isForwardNoResponse
  split
  · next h1 => exact ⟨_, by simp only [Mshr.getTarget, hl, List.head?_cons, orFail]; rfl, fun _ => h1⟩
  · exact ⟨false, rfl, fun h => by cases h⟩

theorem popTarget (hu : u.Ok) (ht : u.mshr.targets.list ≠ []) {ph : Phase} (hs : Stage ph u.mshr.popTarget) :
    Ok { u with
      mshr := u.mshr.popTarget, phase := ph, served := u.served ++ requests (u.mshr.targets.list.take 1) } := by
  have hc := hu.count
  have hl := List.length_pos_iff.2 ht
  refine ⟨?_, hu.marked.of_mem (fun x => List.mem_of_mem_tail) id, hu.markedDeferred, hu.idle, hu.waits, ?_, hs⟩
  · simp only [Mshr.popTarget, List.length_tail]
    omega
  · rw [← hu.order]
    simp only [Mshr.popTarget, List.append_assoc]
    rw [← List.append_assoc (requests _), requests_take_tail]

theorem markInService (hu : u.Ok) (hp : u.phase = .held) (hi : u.mshr.inService = false) (pkt : Packet) :
    ∃ u', u.step (.markInService pkt) = .ok u' ∧ u'.Ok := by
  have hs := hu.stage
  rw [hp] at hs
  obtain ⟨ht, hf⟩ := hs
  obtain ⟨done, hd, h1⟩ := isForwardNoResponse_of_targets ht
  have hl := hu.waits hi
  cases done with
  | true =>
    have h0 : u.mshr.popTarget.getNumTargets = 0 := by
      have h1 := h1 rfl
      simp only [Mshr.getNumTargets, Mshr.popTarget] at h1 ⊢
      omega
    refine ⟨_, ?_, hu.popTarget ht (show Stage .done _ from ⟨h0, hl⟩)⟩
    simp only [step, Mshr.markInService, assert, check, hi, hd]
    rfl
  | false =>
    have hok : Ok { u with mshr := { u.mshr with
        inService := true
        pendingDirty := u.mshr.targets.needsExclusive || (!pkt.sharedAsserted && pkt.memInhibitAsserted)
        postInvalidate := false
        postDowngrade := false } } := by
      refine ⟨hu.count, hu.marked, hu.markedDeferred, hu.idle, (fun h => by cases h), hu.order, ?_⟩
      rw [hp]
      exact ⟨ht, fun _ _ _ _ => ⟨fun h => absurd hl h, fun h => (Bool.or_eq_false_iff.1 h).1⟩⟩
    refine ⟨_, ?_, hok⟩
    simp only [step, Mshr.markInService, assert, check, hi, hd]
    rfl

theorem handleSnoop (hu : u.Ok) (hp : u.phase = .held) (now : Nat) (pkt : Packet) (order : Nat) :
    Ok { u with mshr := (u.mshr.handleSnoop now pkt order).1 } := by
  have hs := hu.stage
  rw [hp] at hs
  obtain ⟨ht, hf⟩ := hs
  have hc := hu.count
  obtain ⟨t, d, n, inval, down, hm, hd, htn, hpost⟩ := u.mshr.handleSnoop_cases now pkt order
  rw [hm]
  -- the deferred requests are the same
  have hdl : d.list.length = u.mshr.deferredTargets.list.length := by
    obtain rfl | rfl := hd
    · rfl
    · exact RegOk.replaceUpgrades_length _
  have hdr : requests d.list = requests u.mshr.deferredTargets.list := by
    obtain rfl | rfl := hd
    · rfl
    · exact TargetList.requests_replaceUpgrades _
  have hnil : u.mshr.deferredTargets.list = [] → d.list = [] := fun h =>
    List.length_eq_zero_iff.1 (by rw [hdl, h]; rfl)
  -- and so are those of the targets, with a snoop behind them at most
  have htr : requests t.list = requests u.mshr.targets.list := by
    obtain ⟨rfl | rfl, -⟩ | ⟨rfl, -⟩ := htn
    · rfl
    · exact TargetList.requests_replaceUpgrades _
    · rw [TargetList.requests_add, requests_snoop rfl, List.append_nil]
  have htm : t.Marked := by
    obtain ⟨rfl | rfl, -⟩ | ⟨rfl, -⟩ := htn
    · exact hu.marked
    · exact hu.marked.replaceUpgrades
    · exact hu.marked.add _ _ _ _ _
  have htx : t.needsExclusive = u.mshr.targets.needsExclusive := by
    obtain ⟨rfl | rfl, -⟩ | ⟨rfl, -⟩ := htn
    · rfl
    · exact TargetList.needsExclusive_replaceUpgrades _
    · simp [TargetList.add]
  have hlen : n + u.mshr.targets.list.length = u.mshr.ntargets + t.list.length ∧ t.list ≠ [] := by
    obtain ⟨rfl | rfl, rfl⟩ | ⟨rfl, rfl⟩ := htn
    · exact ⟨rfl, ht⟩
    · have hl := RegOk.replaceUpgrades_length u.mshr.targets
      refine ⟨by rw [hl], fun h => ht (List.length_eq_zero_iff.1 ?_)⟩
      rw [← hl, h]
      rfl
    · refine ⟨?_, by simp [TargetList.add]⟩
      simp only [TargetList.add, List.length_append, List.length_singleton]
      omega
  refine ⟨?_, htm, ?_, ?_, fun hi => hnil (hu.waits hi), ?_, ?_⟩
  · show n = t.list.length + d.list.length
    omega
  · obtain rfl | rfl := hd
    · exact hu.markedDeferred
    · exact hu.markedDeferred.replaceUpgrades
  · obtain rfl | rfl := hd
    · exact hu.idle
    · exact hu.idle.replaceUpgrades
  · show u.served ++ requests t.list ++ requests d.list = u.added
    rw [htr, hdr]
    exact hu.order
  · rw [hp]
    refine ⟨hlen.2, fun hi hfw hpi hpd => ?_⟩
    obtain ⟨h1, h2⟩ := hf hi hfw (hpost hi hpi hpd).1 (hpost hi hpi hpd).2
    exact ⟨fun hne => h1 fun h => hne (hnil h), fun h => htx.trans (h2 h)⟩

theorem handleFill (hu : u.Ok) (hp : u.phase = .held) (hi : u.mshr.inService = true) (hfw : u.mshr.isForward = false)
    (pkt : Packet) : ∃ u', u.step (.handleFill pkt) = .ok u' ∧ u'.Ok := by
  have hs := hu.stage
  rw [hp] at hs
  obtain ⟨-, hf⟩ := hs
  have hc := hu.count
  -- no target needs an exclusive copy when those deferred for one are taken over
  have hx : u.mshr.deferredTargets.needsExclusive = true → u.mshr.postInvalidate = false →
      u.mshr.postDowngrade = false →
      u.mshr.targets.needsExclusive = false := by
    intro hne hpi hpd
    obtain ⟨h1, h2⟩ := hf hi hfw hpi hpd
    refine h2 (h1 fun hl => ?_)
    have hr := hu.idle hl
    simp [TargetList.isReset, hne] at hr
  obtain ⟨m, hm⟩ := Mshr.handleFill_total hi hx pkt
  refine ⟨{ u with mshr := m, phase := .serving }, by simp only [step, hm]; rfl, ?_⟩
  obtain ⟨-, rfl⟩ | ⟨-, rfl⟩ := Mshr.handleFill_cases hm
  · exact ⟨hc, hu.marked, hu.markedDeferred, hu.idle, hu.waits, hu.order, trivial⟩
  · refine ⟨?_, fun _ _ _ _ => rfl, TargetList.marked_nil rfl, fun _ => rfl, fun _ => rfl, ?_, trivial⟩
    · simp only [TargetList.resetFlags, List.length_append, List.length_nil]
      omega
    · rw [← hu.order]
      simp [TargetList.resetFlags]

/-- The assertion on the sizes holds as long as the counter does not wrap. -/
theorem promoteDeferredTargets_total (hu : u.Ok) (ht : u.mshr.targets.list = []) (hb : u.mshr.ntargets < 2 ^ 16)
    (now : Nat) : ∃ u', u.step (.promoteDeferredTargets now) = .ok u' := by
  cases hl : u.mshr.deferredTargets.list with
  | nil => exact ⟨_, by simp only [step, Mshr.promoteDeferredTargets, ht, hl, assert, check]; rfl⟩
  | cons x xs =>
    have hlen : (x :: xs).length = u.mshr.getNumTargets := by
      rw [Mshr.getNumTargets, Nat.mod_eq_of_lt hb, hu.count, ht, hl, List.length_nil, Nat.zero_add]
    exact ⟨_, by
      simp only [step, Mshr.promoteDeferredTargets, ht, hl, assert, check, hlen, beq_self_eq_true]; rfl⟩

theorem promoteDeferredTargets (hu : u.Ok) {now : Nat} (h : u.step (.promoteDeferredTargets now) = .ok u') :
    u'.Ok := by
  have hc := hu.count
  have ho := hu.order
  simp only [step, Mshr.promoteDeferredTargets, bind_ok, assert, check_ok, List.isEmpty_iff] at h
  obtain ⟨⟨m, promoted⟩, ⟨-, ht, hm⟩, h⟩ := h
  split at hm
  · next hl =>
    cases hm
    cases h
    have h0 : u.mshr.ntargets = 0 := by rw [hc, ht, hl]; rfl
    exact ⟨hc, hu.marked, hu.markedDeferred, hu.idle, hu.waits, ho, by simp [Mshr.getNumTargets, h0], hl⟩
  · next x xs hl =>
    obtain ⟨-, -, hm⟩ := bind_ok.1 hm
    cases hm
    cases h
    have hi : u.mshr.inService = true := by
      cases hi : u.mshr.inService with
      | true => rfl
      | false => rw [hu.waits hi] at hl; cases hl
    refine ⟨?_, hu.markedDeferred, TargetList.marked_nil ht, fun _ => rfl, fun _ => ht, ?_, hi, by simp [hl], ht⟩
    · simp only [TargetList.resetFlags]
      omega
    · simp only [TargetList.resetFlags]
      rw [ht, requests_nil, List.append_nil] at ho ⊢
      exact ho

theorem markPending (hu : u.Ok) (hp : u.phase = .promoted) : ∃ u', u.step .markPending = .ok u' ∧ u'.Ok := by
  have hs := hu.stage
  rw [hp] at hs
  obtain ⟨hi, ht, hl⟩ := hs
  refine ⟨_, by simp only [step, assert, check, hi]; rfl, ?_⟩
  exact ⟨hu.count, hu.marked, hu.markedDeferred, hu.idle, fun _ => hl, hu.order, ht, fun h => by cases h⟩

/-- A register that is done with has no targets, unless the counter has wrapped. -/
theorem deallocate_total (hu : u.Ok) (hp : u.phase = .done) (hb : u.mshr.ntargets < 2 ^ 16) :
    ∃ u', u.step .deallocate = .ok u' := by
  have hs := hu.stage
  rw [hp] at hs
  obtain ⟨h0, hl⟩ := hs
  have hn := hu.count
  rw [← Nat.mod_eq_of_lt hb, show u.mshr.ntargets % 2 ^ 16 = 0 from h0, hl, List.length_nil, Nat.add_zero] at hn
  have ht : u.mshr.targets.list = [] := List.length_eq_zero_iff.1 hn.symm
  exact ⟨_, by simp only [step, Mshr.deallocate, ht, hu.idle hl, h0, assert, check]; rfl⟩

theorem deallocate (hu : u.Ok) (hp : u.phase = .done) (h : u.step .deallocate = .ok u') : u'.Ok := by
  have hs := hu.stage
  rw [hp] at hs
  obtain ⟨-, hl⟩ := hs
  obtain ⟨m, hm, h⟩ := bind_ok.1 h
  obtain ⟨ht, rfl⟩ := mshr_deallocate_ok hm
  cases h
  exact ⟨hu.count, TargetList.marked_nil ht, hu.markedDeferred, hu.idle, fun _ => hl, hu.order, ht, hl, rfl⟩

/-- The invariant is kept, and no call that the cache makes fails while the counter
does not wrap. -/
theorem step (hu : u.Ok) {c : Call} (hc : u.issues c = true) :
    (∀ u', u.step c = .ok u' → u'.Ok) ∧ (u.mshr.ntargets < 2 ^ 16 → ∃ u', u.step c = .ok u') := by
  have of_total : (∃ u', u.step c = .ok u' ∧ u'.Ok) →
      (∀ u', u.step c = .ok u' → u'.Ok) ∧ (u.mshr.ntargets < 2 ^ 16 → ∃ u', u.step c = .ok u') := by
    rintro ⟨u', hs, hok⟩
    refine ⟨fun v hv => ?_, fun _ => ⟨u', hs⟩⟩
    rw [hs] at hv
    cases hv
    exact hok
  cases c with
  | allocate now addr size pkt time order =>
    exact of_total (hu.allocate (by simpa [issues] using hc) now addr size pkt time order)
  | allocateTarget now pkt time order =>
    simp only [issues, Bool.and_eq_true, beq_iff_eq, bne_iff_ne] at hc
    exact of_total (hu.allocateTarget hc.1 hc.2 now time order)
  | setForward v =>
    simp only [issues, Bool.and_eq_true, beq_iff_eq, Bool.not_eq_true'] at hc
    exact of_total ⟨_, rfl, hu.setForward hc.1 hc.2 v⟩
  | shareWriteback => exact of_total (hu.shareWriteback (by simpa [issues] using hc))
  | markInService pkt =>
    simp only [issues, Bool.and_eq_true, beq_iff_eq, Bool.not_eq_true'] at hc
    exact of_total (hu.markInService hc.1 hc.2 pkt)
  | handleSnoop now pkt order =>
    exact of_total ⟨_, rfl, hu.handleSnoop (by simpa [issues] using hc) now pkt order⟩
  | handleFill pkt =>
    simp only [issues, Bool.and_eq_true, beq_iff_eq, Bool.not_eq_true'] at hc
    exact of_total (hu.handleFill hc.1.1 hc.1.2 hc.2 pkt)
  | popTarget =>
    simp only [issues, Mshr.hasTargets, Bool.and_eq_true, Bool.not_eq_true', List.isEmpty_eq_false_iff] at hc
    exact of_total ⟨_, rfl, hu.popTarget hc.2 trivial⟩
  | promoteDeferredTargets now =>
    simp only [issues, Mshr.hasTargets, Bool.and_eq_true, Bool.not_not, List.isEmpty_iff] at hc
    exact ⟨fun u' h => hu.promoteDeferredTargets h, fun hb => hu.promoteDeferredTargets_total hc.2 hb now⟩
  | markPending => exact of_total (hu.markPending (by simpa [issues] using hc))
  | deallocate =>
    have hp : u.phase = .done := by simpa [issues] using hc
    exact ⟨fun u' h => hu.deallocate hp h, hu.deallocate_total hp⟩

end Ok

/-- There is room for one more target: the counter does not wrap. -/
def hasRoom : Call → Bool
  | .allocateTarget .. | .handleSnoop .. =>
    decide (u.mshr.targets.list.length + u.mshr.deferredTargets.list.length + 1 < 2 ^ 16)
  | _ => true

variable {u} in
theorem step_ntargets {c : Call} (hu : u.Ok) (hb : u.mshr.ntargets < 2 ^ 16) (hr : u.hasRoom c = true)
    (h : u.step c = .ok u') : u'.mshr.ntargets < 2 ^ 16 := by
  cases c with
  | allocate now addr size pkt time order =>
    simp only [step, Mshr.allocate, bind_ok] at h
    obtain ⟨m, ⟨-, -, -, -, hm⟩, h⟩ := h
    cases hm
    cases h
    exact Nat.one_lt_two_pow (by decide)
  | allocateTarget now pkt time order =>
    simp only [hasRoom, decide_eq_true_eq, ← hu.count] at hr
    simp only [step, Mshr.allocateTarget, bind_ok] at h
    obtain ⟨m, ⟨-, -, hm⟩, h⟩ := h
    cases h
    split at hm <;> cases hm <;> exact hr
  | setForward v => cases h; exact hb
  | shareWriteback =>
    obtain ⟨x, -, h⟩ := bind_ok.1 h
    cases h
    exact hb
  | markInService pkt =>
    obtain ⟨⟨m, done⟩, hm, h⟩ := bind_ok.1 h
    obtain ⟨-, ⟨rfl, -, rfl⟩ | ⟨rfl, -, -, -, -, -, hn⟩⟩ := mshr_markInService_ok hm
    · cases h
      exact (Nat.sub_le _ _).trans_lt hb
    · cases h
      exact hn ▸ hb
  | handleSnoop now pkt order =>
    simp only [hasRoom, decide_eq_true_eq, ← hu.count] at hr
    obtain ⟨t, d, n, inval, down, hm, -, htn, -⟩ := u.mshr.handleSnoop_cases now pkt order
    simp only [step, hm] at h
    cases h
    obtain ⟨-, rfl⟩ | ⟨-, rfl⟩ := htn
    · exact hb
    · exact hr
  | handleFill pkt =>
    obtain ⟨m, hm, h⟩ := bind_ok.1 h
    obtain ⟨-, rfl⟩ | ⟨-, rfl⟩ := Mshr.handleFill_cases hm <;> cases h <;> exact hb
  | popTarget => cases h; exact (Nat.sub_le _ _).trans_lt hb
  | promoteDeferredTargets now =>
    obtain ⟨⟨m, promoted⟩, hm, h⟩ := bind_ok.1 h
    cases h
    simp only [Mshr.promoteDeferredTargets, bind_ok] at hm
    obtain ⟨-, -, hm⟩ := hm
    split at hm
    · cases hm
      exact hb
    · obtain ⟨-, -, hm⟩ := bind_ok.1 hm
      cases hm
      exact hb
  | markPending =>
    obtain ⟨-, -, h⟩ := bind_ok.1 h
    cases h
    exact hb
  | deallocate =>
    obtain ⟨m, hm, h⟩ := bind_ok.1 h
    obtain ⟨-, rfl⟩ := mshr_deallocate_ok hm
    cases h
    exact hb

end Use

/-- Every read that snoops a register with ownership pending becomes a target. -/
theorem runs_replicate_snoop (hx : pkt.needsExclusive = false) (now order n : Nat) {u : Use}
    (hp : u.phase = .held) (hi : u.mshr.inService = true) (hd : u.mshr.pendingDirty = true)
    (hpi : u.mshr.postInvalidate = false) :
    Always Use.step (fun u c => u.issues c = true) u (List.replicate n (.handleSnoop now pkt order)) ∧
      ∃ u', runs Use.step u (List.replicate n (.handleSnoop now pkt order)) = .ok u' ∧
        u'.mshr.ntargets = u.mshr.ntargets + n ∧
        u'.mshr.targets.list.length = u.mshr.targets.list.length + n := by
  induction n generalizing u with
  | zero => exact ⟨trivial, u, rfl, rfl, rfl⟩
  | succ n ih =>
    have hs : u.step (.handleSnoop now pkt order) = .ok { u with mshr := { u.mshr with
        targets := u.mshr.targets.add now pkt.copyClear now order .fromSnoop
        ntargets := u.mshr.ntargets + 1
        postInvalidate := false
        postDowngrade := true } } := by
      simp only [Use.step, Mshr.handleSnoop, Mshr.handleSnoopInService, hi, hd, hpi, hx, if_true, if_false,
        Bool.false_eq_true, Bool.true_or]
      rfl
    obtain ⟨ha, u', hr, hn, hl⟩ := ih (u := { u with mshr := { u.mshr with
        targets := u.mshr.targets.add now pkt.copyClear now order .fromSnoop
        ntargets := u.mshr.ntargets + 1
        postInvalidate := false
        postDowngrade := true } }) hp hi hd rfl
    rw [List.replicate_succ]
    refine ⟨always_cons.2 ⟨by simp [Use.issues, hp], fun v hv => ?_⟩, u', ?_, ?_, ?_⟩
    · rw [hs] at hv
      cases hv
      exact ha
    · rw [runs, hs]
      exact hr
    · rw [hn]
      simp only
      omega
    · rw [hl]
      simp only [TargetList.add, List.length_append, List.length_singleton]
      omega

/-- A request for ownership is sent, and reads of other caches snoop it. -/
def snoopedRequest (n : Nat) : List Call :=
  let pkt (cmd : MemCmd) : Packet := { cmd := cmd, addr := 0, size := 64, threadID := 0 }
  .allocate 0 0 64 (pkt .readExReq) 1 0 :: .markInService (pkt .readExReq) ::
    List.replicate n (.handleSnoop 2 (pkt .readReq) 1)

/-- With 65536 targets the counter is zero. -/
theorem counter_wraps :
    Always Use.step (fun u c => u.issues c = true) {} (snoopedRequest 65535) ∧
      ∃ u, runs Use.step {} (snoopedRequest 65535) = .ok u ∧ u.mshr.getNumTargets = 0 ∧
        u.mshr.targets.list.length = 65536 := by
  obtain ⟨u, hu, hp, hi, hd, hpi, hn, hl⟩ : ∃ u, runs Use.step {} (snoopedRequest 0) = .ok u ∧ u.phase = .held ∧
      u.mshr.inService = true ∧ u.mshr.pendingDirty = true ∧ u.mshr.postInvalidate = false ∧ u.mshr.ntargets = 1 ∧
      u.mshr.targets.list.length = 1 := by
    decide
  obtain ⟨ha, u', hr, hn', hl'⟩ := @runs_replicate_snoop { cmd := .readReq, addr := 0, size := 64, threadID := 0 } rfl
    2 1 65535 u hp hi hd hpi
  refine ⟨Always.append (by decide) hu ha, u', (runs_append hu).trans hr, ?_, ?_⟩
  · simp [Mshr.getNumTargets, hn', hn]
  · rw [hl', hl]

/-- For every sequence of calls that the caches make on a register while there is
room, no assertion fails, `ntargets` counts both lists, a request for an exclusive copy
sets the flag of its list, and the requests are served in the order in which they came:
those served, the targets and the deferred targets are together the ones added. -/
theorem targets_disciplined (calls : List Call)
    (h : Always Use.step (fun u c => u.issues c = true ∧ u.hasRoom c = true) {} calls) :
    ∃ u, runs Use.step {} calls = .ok u ∧
      u.mshr.getNumTargets = u.mshr.targets.list.length + u.mshr.deferredTargets.list.length ∧
      (∀ l ∈ [u.mshr.targets, u.mshr.deferredTargets], ∀ x ∈ l.list, x.source ≠ .fromSnoop →
        x.pkt.needsExclusive = true → l.needsExclusive = true) ∧
      u.served ++ requests u.mshr.targets.list ++ requests u.mshr.deferredTargets.list = u.added := by
  obtain ⟨u, hr, hu, hb⟩ := runs_total (fun u : Use => u.Ok ∧ u.mshr.ntargets < 2 ^ 16)
    (fun u c hu hc => by
      obtain ⟨u', hs⟩ := (hu.1.step hc.1).2 hu.2
      exact ⟨u', hs, (hu.1.step hc.1).1 u' hs, Use.step_ntargets hu.1 hu.2 hc.2 hs⟩)
    ⟨Use.ok_init, by decide⟩ h
  refine ⟨u, hr, (Nat.mod_eq_of_lt hb).trans hu.count, fun l hl => ?_, hu.order⟩
  simp only [List.mem_cons, List.not_mem_nil, or_false] at hl
  obtain rfl | rfl := hl
  · exact hu.marked
  · exact hu.markedDeferred

/-- A read is sent, a write is deferred and a snoop is saved; the write is promoted and
a read joins it before it is sent, and another one is deferred then. -/
def deferredWrite : List Call :=
  let pkt (cmd : MemCmd) (addr : Nat) : Packet := { cmd := cmd, addr := addr, size := 4, threadID := 0 }
  [.allocate 0 0 64 (pkt .readReq 0) 1 0, .setForward false, .markInService (pkt .readReq 0),
    .allocateTarget 2 (pkt .writeReq 4) 3 1, .handleSnoop 4 (pkt .invalidationReq 0) 2,
    .allocateTarget 5 (pkt .upgradeReq 8) 6 3, .handleFill (pkt .readResp 0), .popTarget, .popTarget,
    .promoteDeferredTargets 9, .markPending, .allocateTarget 10 (pkt .readReq 12) 11 4,
    .markInService (pkt .readExReq 0), .allocateTarget 12 (pkt .readReq 16) 13 5, .handleFill (pkt .readExResp 0),
    .popTarget]

theorem targets_disciplined_deferredWrite :
    ∃ u, runs Use.step {} deferredWrite = .ok u ∧ u.mshr.getNumTargets = 3 ∧
      u.served.map Target.order = [0, 1] ∧ u.added.map Target.order = [0, 1, 3, 4, 5] ∧
      u.served ++ requests u.mshr.targets.list ++ requests u.mshr.deferredTargets.list = u.added := by
  obtain ⟨u, hr, -, -, ho⟩ := targets_disciplined deferredWrite (by decide)
  have hp : passes (fun u : Use => u.mshr.getNumTargets == 3 && u.served.map Target.order == [0, 1] &&
      u.added.map Target.order == [0, 1, 3, 4, 5]) (runs Use.step {} deferredWrite) = true := by decide
  rw [hr] at hp
  simp only [passes, Bool.and_eq_true, beq_iff_eq] at hp
  exact ⟨u, hr, hp.1.1, hp.1.2, hp.2, ho⟩

end DynamicCache.Cache
