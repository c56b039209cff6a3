import DynamicCache.Cache.Packet

/-!
# Miss status holding registers (`mshr.hh`, `mshr.cc`)

A register holds the targets that wait for one request and those deferred to
the next one.  The level below the modelled caches is memory, which marks no
register `downstreamPending`, and the registers of the levels above are not
part of the model, so that flag and a target's `markedPending` are left out.
-/

namespace DynamicCache.Cache

open Lib

/-! ## Targets -/

inductive Source where
  | fromCPU
  | fromSnoop
  | fromPrefetcher
deriving DecidableEq, Repr

structure Target where
  recvTime : Nat
  readyTime : Nat
  order : Nat
  pkt : Packet
  source : Source

structure TargetList where
  list : List Target := []
  needsExclusive : Bool := false
  hasUpgrade : Bool := false

namespace TargetList

variable (l : TargetList)

def resetFlags : TargetList := { l with needsExclusive := false, hasUpgrade := false }
def isReset : Bool := !l.needsExclusive && !l.hasUpgrade

def add (now : Nat) (pkt : Packet) (readyTime order : Nat) (source : Source) : TargetList :=
  { list := l.list ++ [⟨now, readyTime, order, pkt, source⟩]
    needsExclusive := l.needsExclusive || (source != .fromSnoop && pkt.needsExclusive)
    hasUpgrade := l.hasUpgrade || (source != .fromSnoop && (pkt.isUpgrade || pkt.cmd == .storeCondReq)) }

end TargetList

/-- The command that takes the place of an upgrade of a copy that was lost. -/
def replaceUpgradeCmd : MemCmd → MemCmd
  | .upgradeReq => .readExReq
  | .scUpgradeReq => .scUpgradeFailReq
  | .storeCondReq => .storeCondFailReq
  | c => c

def replaceUpgrade (pkt : Packet) : Packet := { pkt with cmd := replaceUpgradeCmd pkt.cmd }

def TargetList.replaceUpgrades (l : TargetList) : TargetList :=
  if l.hasUpgrade then
    { l with list := l.list.map fun t => { t with pkt := replaceUpgrade t.pkt }, hasUpgrade := false }
  else l

/-! ## Registers -/

structure Mshr where
  readyTime : Nat := 0
  order : Nat := 0
  addr : Nat := 0
  size : Nat := 0
  inService : Bool := false
  isForward : Bool := false
  isUncacheable : Bool := false
  pendingDirty : Bool := false
  postInvalidate : Bool := false
  postDowngrade : Bool := false
  /-- the number of targets, of which the source keeps the low 16 bits -/
  ntargets : Nat := 0
  targets : TargetList := {}
  deferredTargets : TargetList := {}

namespace Mshr

variable (m : Mshr)

def needsExclusive : Bool := m.targets.needsExclusive
def hasTargets : Bool := !m.targets.list.isEmpty

/-- The counter is an `unsigned short`. -/
def getNumTargets : Nat := m.ntargets % 2 ^ 16

def getTarget : Res Target := orFail .assertion m.targets.list.head?

/-- The accessors of the flags that are valid only in service. -/
def hasPostInvalidate : Res Bool := do
  assert m.inService
  return m.postInvalidate

def hasPostDowngrade : Res Bool := do
  assert m.inService
  return m.postDowngrade

/-- Whether the block goes after a response: the response says so, or a snoop did. -/
def invalidates (pkt : Packet) : Res Bool := if pkt.isInvalidate then .ok true else m.hasPostInvalidate

def allocate (now addr size : Nat) (target : Packet) (whenReady order : Nat) : Res Mshr := do
  assert m.targets.isReset
  assert m.deferredTargets.isReset
  let source := if target.cmd = .hardPFReq then Source.fromPrefetcher else .fromCPU
  return { m with
    addr := addr
    size := size
    readyTime := whenReady
    order := order
    isForward := false
    isUncacheable := target.req.isUncacheable
    inService := false
    ntargets := 1
    targets := m.targets.add now target whenReady order source }

def popTarget : Mshr :=
  { m with ntargets := m.ntargets - 1, targets := { m.targets with list := m.targets.list.tail } }

def isForwardNoResponse : Res Bool :=
  if m.getNumTargets = 1 then do
    let t ← m.getTarget
    return t.source == .fromCPU && !t.pkt.needsResponse
  else return false

/-- Also tells whether the request is done, since it gets no response. -/
def markInService (pkt : Packet) : Res (Mshr × Bool) := do
  assert !m.inService
  let done ← m.isForwardNoResponse
  if done then return (m.popTarget, true)
  else
    return ({ m with
      inService := true
      pendingDirty := m.targets.needsExclusive || (!pkt.sharedAsserted && pkt.memInhibitAsserted)
      postInvalidate := false
      postDowngrade := false }, false)

def deallocate : Res Mshr := do
  assert m.targets.list.isEmpty
  assert m.deferredTargets.isReset
  assert (m.getNumTargets == 0)
  return { m with targets := m.targets.resetFlags, inService := false }

/-- A target that arrives while the request is in service is deferred when the
response cannot serve it. -/
def defers (pkt : Packet) : Bool :=
  m.inService && (!m.deferredTargets.list.isEmpty || m.postInvalidate ||
    (pkt.needsExclusive && (!m.pendingDirty || m.postDowngrade || m.isForward)))

def allocateTarget (now : Nat) (pkt : Packet) (whenReady order : Nat) : Res Mshr := do
  assert (pkt.cmd != .hardPFReq)
  if m.defers pkt then
    let pkt := if m.postInvalidate then replaceUpgrade pkt else pkt
    return { m with
      deferredTargets := m.deferredTargets.add now pkt whenReady order .fromCPU
      ntargets := m.ntargets + 1 }
  else
    return { m with
      targets := m.targets.add now pkt whenReady order .fromCPU
      ntargets := m.ntargets + 1 }

/-- The part of `handleSnoop` for a request that precedes the snoop. -/
def handleSnoopInService (now : Nat) (pkt : Packet) (order : Nat) : Mshr × Packet :=
  let m := if pkt.needsExclusive then { m with deferredTargets := m.deferredTargets.replaceUpgrades } else m
  if m.postInvalidate then (m, pkt)
  else
    -- save the snoop when ownership is pending or the copy will be taken away
    let saved := m.pendingDirty || pkt.isInvalidate
    let m' := if saved then
        { m with
          targets := m.targets.add now pkt.copyClear now order .fromSnoop
          ntargets := m.ntargets + 1
          postInvalidate := pkt.needsExclusive }
      else m
    let pkt' := if saved && m.pendingDirty then
        { pkt with memInhibitAsserted := true, isSupplyExclusive := true }
      else pkt
    if pkt.needsExclusive then (m', pkt')
    else ({ m' with postDowngrade := true }, { pkt' with sharedAsserted := true })

/-- Also returns the snoop as the register leaves it and whether it was handled here. -/
def handleSnoop (now : Nat) (pkt : Packet) (order : Nat) : Mshr × Packet × Bool :=
  if m.inService then
    let r := m.handleSnoopInService now pkt order
    (r.1, r.2, true)
  else if pkt.needsExclusive then
    ({ m with targets := m.targets.replaceUpgrades, deferredTargets := m.deferredTargets.replaceUpgrades },
      pkt, false)
  else (m, pkt, false)

/-- Also tells whether there were deferred targets. -/
def promoteDeferredTargets (now : Nat) : Res (Mshr × Bool) := do
  assert m.targets.list.isEmpty
  match m.deferredTargets.list with
  | [] => return (m, false)
  | t :: _ =>
    assert (m.deferredTargets.list.length == m.getNumTargets)
    return ({ m with
      targets := m.deferredTargets
      deferredTargets := m.targets.resetFlags
      order := t.order
      readyTime := max now t.readyTime }, true)

/-- An exclusive response also serves the targets deferred for lack of one. -/
def handleFill (pkt : Packet) : Res Mshr := do
  if !pkt.sharedAsserted then
    let inval ← m.hasPostInvalidate
    let down ← m.hasPostDowngrade
    if !(inval || down) && m.deferredTargets.needsExclusive then
      assert (!m.targets.needsExclusive)
      return { m with
        targets := { m.targets with
          needsExclusive := true
          list := m.targets.list ++ m.deferredTargets.list }
        deferredTargets := { m.deferredTargets with list := [] }.resetFlags }
    else return m
  else return m

/-- An exclusive response takes the deferred targets over unless a snoop came in between. -/
theorem handleFill_cases {m m' : Mshr} {pkt : Packet} (h : m.handleFill pkt = .ok m') :
    ((!pkt.sharedAsserted && !(m.postInvalidate || m.postDowngrade) && m.deferredTargets.needsExclusive) = false ∧
        m' = m) ∨
      ((!pkt.sharedAsserted && !(m.postInvalidate || m.postDowngrade) && m.deferredTargets.needsExclusive) = true ∧
        m' = { m with
          targets := { m.targets with
            needsExclusive := true
            list := m.targets.list ++ m.deferredTargets.list }
          deferredTargets := { m.deferredTargets with list := [] }.resetFlags }) := by
  unfold Mshr.handleFill at h
  cases hs : pkt.sharedAsserted with
  | true =>
    rw [hs] at h
    cases h
    exact .inl ⟨rfl, rfl⟩
  | false =>
    rw [hs] at h
    simp only [Bool.not_false, if_true, bind_ok, hasPostInvalidate, hasPostDowngrade] at h
    obtain ⟨inval, ⟨-, -, hi⟩, down, ⟨-, -, hd⟩, h⟩ := h
    cases hi
    cases hd
    split at h
    · next hc =>
      obtain ⟨-, -, h⟩ := bind_ok.1 h
      cases h
      exact .inr ⟨hc, rfl⟩
    · next hc =>
      cases h
      exact .inl ⟨Bool.eq_false_iff.2 hc, rfl⟩

end Mshr

end DynamicCache.Cache
