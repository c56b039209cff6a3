import DynamicCache.Cache.Mshr
import DynamicCache.Port.PacketQueue
import Mathlib.Algebra.Group.Int.Defs

/-!
# Functional reads (`Packet::checkFunctional`)

A functional read takes its bytes from the buffers on the way to memory: packets
in queues, targets of registers, blocks.  `checkFunctional` is called for one
buffer after the other and keeps the bytes found so far as one interval, the
bytes from `bytesValidStart` up to but not including `bytesValidEnd`.

For a buffer inside the request the interval grows by what the buffer adds, and
nothing that was found is overwritten (`fillFrom_first`, `fillFrom_again`).
Where a buffer sticks out of the request, its overlap is taken one byte too short,
and a buffer that holds the whole request is copied over what was found before
(`sticks_out`).  So the bytes are assembled as they should be when no byte is lost
or found twice in this way.  Where the buffers have all bytes of the request, this is
also necessary: some contents of theirs show the difference (`functional_read`).
-/

namespace DynamicCache.Port

open Lib Cache

/-! ## The code -/

/-- The memory that a request is checked against; without `data` it is null. -/
structure Buffer where
  addr : Nat
  size : Nat
  data : Option (Nat → Nat)

/-- `checkFunctional(PacketPtr other)` -/
def packetBuffer (other : Packet) : Buffer := ⟨other.addr, other.size, if other.hasData then some other.data else none⟩

/-- A functional request. -/
structure Functional where
  pkt : Packet
  bytesValidStart : Nat := 0
  bytesValidEnd : Nat := 0

/-- `memcpy(dst + dstAt, src + srcAt, size)` -/
def copyBytes (dst : Nat → Nat) (dstAt : Int) (src : Nat → Nat) (srcAt size : Int) (i : Nat) : Nat :=
  if dstAt ≤ i ∧ (i : Int) < dstAt + size then src (i - dstAt + srcAt).toNat else dst i

/-- The last address of a range, in 64 bits. -/
def lastAddr (addr size : Nat) : Nat := (addr + size + (2 ^ 64 - 1)) % 2 ^ 64

def uint16 (x : Int) : Nat := (x % 2 ^ 16).toNat

structure Overlap where
  valOffset : Int
  funcOffset : Int
  size : Int

/-- Offsets and size of a partial overlap; the ends are included. -/
def partialOverlap (funcStart funcEnd valStart valEnd size : Int) : Res Overlap :=
  if valStart < funcStart ∧ valEnd ≤ funcEnd then .ok ⟨funcStart - valStart, 0, valEnd - funcStart⟩
  else if funcStart ≤ valStart ∧ funcEnd < valEnd then .ok ⟨0, valStart - funcStart, funcEnd - valStart⟩
  else if funcStart ≤ valStart ∧ valEnd ≤ funcEnd then .ok ⟨0, valStart - funcStart, size⟩
  else .error .panicked

namespace Functional

variable (f : Functional)

/-- How much of the overlap is still to be copied, so that bytes that were found are
not overwritten. -/
def mergeOverlap (data : Nat → Nat) (o : Overlap) : Res (Functional × Overlap) :=
  if f.bytesValidStart = 0 ∧ f.bytesValidEnd = 0 then
    .ok ({ f with bytesValidStart := uint16 o.funcOffset, bytesValidEnd := uint16 (o.funcOffset + o.size) }, o)
  else
    let a := o.funcOffset - f.bytesValidStart
    let b := o.funcOffset + o.size - f.bytesValidEnd
    let c := o.funcOffset - f.bytesValidEnd
    let d := o.funcOffset + o.size - f.bytesValidStart
    -- the part behind `bytesValidEnd`
    let behind : Overlap := ⟨o.valOffset + (f.bytesValidEnd - o.funcOffset), f.bytesValidEnd, b⟩
    if 0 ≤ a ∧ b ≤ 0 then .ok (f, { o with size := 0 })
    else if a < 0 ∧ 0 ≤ d ∧ b ≤ 0 then
      .ok ({ f with bytesValidStart := uint16 o.funcOffset }, { o with size := f.bytesValidStart - o.funcOffset })
    else if 0 < b ∧ c ≤ 0 ∧ 0 ≤ a then
      .ok ({ f with bytesValidEnd := uint16 (f.bytesValidEnd + b) }, behind)
    else if a < 0 ∧ 0 < b then
      .ok ({ f with
        pkt := { f.pkt with
          data := copyBytes f.pkt.data o.funcOffset data o.valOffset (f.bytesValidStart - o.funcOffset) }
        bytesValidStart := uint16 o.funcOffset
        bytesValidEnd := uint16 (f.bytesValidEnd + b) }, behind)
    else if (0 < c ∧ 0 < b) ∨ (a < 0 ∧ d < 0) then .error .panicked
    else .ok (f, o)

/-- The rest of a read with a partial overlap. -/
def fillFrom (data : Nat → Nat) (o : Overlap) : Res (Functional × Bool) := do
  let (f, o) ← f.mergeOverlap data o
  assert (decide (f.bytesValidEnd ≤ f.pkt.size))
  let f := { f with pkt := { f.pkt with data := copyBytes f.pkt.data o.funcOffset data o.valOffset o.size } }
  return (f, decide (f.bytesValidStart = 0 ∧ f.bytesValidEnd = f.pkt.size))

/-- A write changes the buffer. -/
def checkFunctional (buf : Buffer) : Res (Functional × Buffer × Bool) :=
  let funcStart := f.pkt.addr
  let funcEnd := lastAddr f.pkt.addr f.pkt.size
  let valStart := buf.addr
  let valEnd := lastAddr buf.addr buf.size
  if valEnd < funcStart ∨ funcEnd < valStart then .ok (f, buf, false)
  else if f.pkt.cmd = .printReq then .ok (f, buf, false)
  else
    match buf.data with
    | none => .ok (f, buf, false)
    | some data =>
      let offset : Int := funcStart - valStart
      if f.pkt.isRead then
        if valStart ≤ funcStart ∧ funcEnd ≤ valEnd then
          .ok ({ f with pkt := { f.pkt with data := copyBytes f.pkt.data 0 data offset f.pkt.size } }, buf, true)
        else do
          let o ← partialOverlap funcStart funcEnd valStart valEnd buf.size
          let (f, done) ← f.fillFrom data o
          return (f, buf, done)
      else if f.pkt.isWrite then
        if 0 ≤ offset then
          .ok (f, { buf with data := some (copyBytes data offset f.pkt.data 0 (min funcEnd valEnd - funcStart + 1)) },
            false)
        else
          .ok (f, { buf with data := some (copyBytes data 0 f.pkt.data (-offset) (min funcEnd valEnd - valStart + 1)) },
            false)
      else .error .panicked

/-- The loop over some buffers; it stops when the request is satisfied. -/
def checkAll (f : Functional) : List Buffer → Res (Functional × Bool)
  | [] => .ok (f, false)
  | buf :: bufs => do
    let (f, _, found) ← f.checkFunctional buf
    if found then return (f, true) else f.checkAll bufs

end Functional

/-- `PacketQueue::checkFunctional` -/
def PacketQueue.checkFunctional (q : PacketQueue) (f : Functional) : Res (Functional × Bool) :=
  f.checkAll (q.transmitList.map fun dp => packetBuffer dp.pkt)

/-- `MSHR::TargetList::checkFunctional` -/
def targetsCheckFunctional (l : TargetList) (f : Functional) : Res (Functional × Bool) :=
  f.checkAll (l.list.map fun t => packetBuffer t.pkt)

/-! ## What is to be found -/

/-- Byte `i` of the request is in the buffer. -/
def Buffer.covers (pkt : Packet) (i : Nat) (buf : Buffer) : Bool :=
  buf.data.isSome && decide (buf.addr ≤ pkt.addr + i ∧ pkt.addr + i < buf.addr + buf.size)

/-- What the buffer has for byte `i` of the request. -/
def Buffer.byte (pkt : Packet) (i : Nat) (buf : Buffer) : Nat := buf.data.getD (fun _ => 0) (pkt.addr + i - buf.addr)

/-- The byte of the first buffer that contains it. -/
def firstByte (pkt : Packet) (bufs : List Buffer) (i : Nat) : Option Nat :=
  (bufs.find? fun buf => buf.covers pkt i).map fun buf => buf.byte pkt i

/-- Byte `i` of the request is in one of the buffers. -/
def Covered (pkt : Packet) (bufs : List Buffer) (i : Nat) : Prop := ∃ b ∈ bufs, b.covers pkt i = true

/-- The bytes of the request in `buf` touch or overlap those in `bufs`. -/
def Touches (pkt : Packet) (bufs : List Buffer) (buf : Buffer) : Prop :=
  ∃ i < pkt.size, ∃ j < pkt.size, Covered pkt bufs i ∧ buf.covers pkt j = true ∧ i ≤ j + 1 ∧ j ≤ i + 1

/-- Each buffer with bytes of the request does so, when there are some before it. -/
def Contiguous (pkt : Packet) : List Buffer → List Buffer → Prop
  | _, [] => True
  | bufs, buf :: rest =>
    ((∃ i < pkt.size, Covered pkt bufs i) → (∃ j < pkt.size, buf.covers pkt j = true) → Touches pkt bufs buf) ∧
      Contiguous pkt (bufs ++ [buf]) rest

/-- The buffer holds the whole request and no byte has been found; or it is inside
the request and smaller; or it sticks out on one side, and the last of its bytes in
the request has been found. -/
def Fits (pkt : Packet) (bufs : List Buffer) (buf : Buffer) : Prop :=
  (∀ i < pkt.size, buf.covers pkt i = true ∧ ¬Covered pkt bufs i) ∨
    (pkt.addr ≤ buf.addr ∧ buf.addr + buf.size ≤ pkt.addr + pkt.size ∧ buf.size < pkt.size) ∨
    (buf.addr < pkt.addr ∧ buf.addr + buf.size < pkt.addr + pkt.size ∧
      Covered pkt bufs (buf.addr + buf.size - 1 - pkt.addr)) ∨
    (pkt.addr < buf.addr ∧ pkt.addr + pkt.size < buf.addr + buf.size ∧ Covered pkt bufs (pkt.size - 1))

/-- Each buffer with bytes of the request fits, until all bytes have been found. -/
def AllFit (pkt : Packet) : List Buffer → List Buffer → Prop
  | _, [] => True
  | bufs, buf :: rest =>
    (∀ i < pkt.size, Covered pkt bufs i) ∨
      ((∃ j < pkt.size, buf.covers pkt j = true) → Fits pkt bufs buf) ∧ AllFit pkt (bufs ++ [buf]) rest

/-- The read does not panic, is satisfied when all bytes are in the buffers, and then
has each byte from the first buffer that contains it. -/
def Reads (pkt : Packet) (bufs : List Buffer) : Prop :=
  ∃ f found, ({ pkt := pkt } : Functional).checkAll bufs = .ok (f, found) ∧
    (found = true ↔ ∀ i < pkt.size, Covered pkt bufs i) ∧
    (found = true → ∀ i < pkt.size, firstByte pkt bufs i = some (f.pkt.data i))

/-- A buffer without its contents. -/
def Buffer.shape (buf : Buffer) : Nat × Nat × Bool := (buf.addr, buf.size, buf.data.isSome)

/-- A range of 64-bit addresses that is not empty. -/
def Ranged (addr size : Nat) : Prop := 0 < size ∧ addr + size ≤ 2 ^ 64

/-- The request is a read whose size fits the counters. -/
structure Readable (pkt : Packet) : Prop where
  read : pkt.isRead = true
  ranged : Ranged pkt.addr pkt.size
  small : pkt.size < 2 ^ 16

/-- The buffer has bytes of the request. -/
structure Shares (pkt : Packet) (buf : Buffer) (data : Nat → Nat) : Prop where
  ranged : Ranged buf.addr buf.size
  data : buf.data = some data
  meets : ∃ j < pkt.size, buf.covers pkt j = true

variable {c fo os vo : Nat} {bufs : List Buffer}

theorem Ranged.lastAddr {addr size : Nat} (h : Ranged addr size) : lastAddr addr size + 1 = addr + size := by
  obtain ⟨h0, h1⟩ := h
  unfold Port.lastAddr
  omega

theorem uint16_eq {x : Int} {n : Nat} (hx : x = n) (hn : n < 2 ^ 16) : uint16 x = n := by
  unfold uint16
  omega

theorem copyBytes_eq {dst src : Nat → Nat} {dstAt srcAt size : Int} {a k n : Nat} (ha : dstAt = a) (hk : srcAt = k)
    (hn : size = n) (i : Nat) :
    copyBytes dst dstAt src srcAt size i = if a ≤ i ∧ i < a + n then src (i - a + k) else dst i := by
  unfold copyBytes
  split
  · rw [if_pos (by omega)]
    exact congrArg src (by omega)
  · rw [if_neg (by omega)]

/-! ## One buffer inside the request -/

section Fill

variable {f : Functional} {data : Nat → Nat}

/-- What `fillFrom` leaves: the bytes from `lo` to `hi` are found, and byte `i` is `new i`. -/
structure Filled (f f' : Functional) (lo hi : Nat) (new : Nat → Nat) : Prop where
  pkt : f'.pkt = { f.pkt with data := f'.pkt.data }
  start : f'.bytesValidStart = lo
  stop : f'.bytesValidEnd = hi
  data : ∀ i, f'.pkt.data i = new i

/-- The end of `fillFrom`. -/
theorem fillFrom_of_merge {o o' : Overlap} {f₁ : Functional} {lo hi : Nat} {new : Nat → Nat}
    (hm : f.mergeOverlap data o = .ok (f₁, o')) (hp : f₁.pkt = { f.pkt with data := f₁.pkt.data })
    (hlo : f₁.bytesValidStart = lo) (hhi : f₁.bytesValidEnd = hi) (hn : hi ≤ f.pkt.size)
    (hnew : ∀ i, copyBytes f₁.pkt.data o'.funcOffset data o'.valOffset o'.size i = new i) :
    ∃ f', f.fillFrom data o = .ok (f', decide (lo = 0 ∧ hi = f.pkt.size)) ∧ Filled f f' lo hi new := by
  have hsize : f₁.pkt.size = f.pkt.size := by rw [hp]
  refine ⟨{ f₁ with pkt := { f₁.pkt with data := copyBytes f₁.pkt.data o'.funcOffset data o'.valOffset o'.size } },
    ?_, ?_, hlo, hhi, hnew⟩
  · have hassert : decide (f₁.bytesValidEnd ≤ f₁.pkt.size) = true := decide_eq_true (by omega)
    simp only [Functional.fillFrom, hm]
    show (assert (decide (f₁.bytesValidEnd ≤ f₁.pkt.size)) >>= _) = _
    rw [hassert, hlo, hhi, hsize]
    rfl
  · rw [hp]

/-- The first bytes. -/
theorem fillFrom_first (data : Nat → Nat) (h0 : f.bytesValidStart = 0 ∧ f.bytesValidEnd = 0)
    (hn : fo + os ≤ f.pkt.size) (hb : f.pkt.size < 2 ^ 16) :
    ∃ f', f.fillFrom data ⟨0, fo, os⟩ = .ok (f', decide (fo = 0 ∧ fo + os = f.pkt.size)) ∧
      Filled f f' fo (fo + os) fun i => if fo ≤ i ∧ i < fo + os then data (i - fo) else f.pkt.data i := by
  have hlo : uint16 (fo : Int) = fo := uint16_eq rfl (by omega)
  have hhi : uint16 ((fo : Int) + os) = fo + os := uint16_eq (by omega) (by omega)
  exact fillFrom_of_merge (if_pos h0) rfl hlo hhi hn fun i => copyBytes_eq rfl rfl rfl i

/-- More bytes; those that were found stay. -/
theorem fillFrom_again (data : Nat → Nat) {S E : Nat} (hS : f.bytesValidStart = S) (hE : f.bytesValidEnd = E)
    (hSE : S < E) (hEn : E ≤ f.pkt.size) (hn : fo + os ≤ f.pkt.size) (hb : f.pkt.size < 2 ^ 16) (hl : fo ≤ E)
    (hr : S ≤ fo + os) :
    ∃ f', f.fillFrom data ⟨vo, fo, os⟩ = .ok (f', decide (min S fo = 0 ∧ max E (fo + os) = f.pkt.size)) ∧
      Filled f f' (min S fo) (max E (fo + os)) fun i =>
        if S ≤ i ∧ i < E then f.pkt.data i
        else if fo ≤ i ∧ i < fo + os then data (i - fo + vo) else f.pkt.data i := by
  have hne : ¬(f.bytesValidStart = 0 ∧ f.bytesValidEnd = 0) := by omega
  have hmerge : f.mergeOverlap data ⟨vo, fo, os⟩ = _ := if_neg hne
  simp only [hS, hE] at hmerge
  have hlo : fo < S → uint16 (fo : Int) = min S fo := fun h => uint16_eq (by omega) (by omega)
  have hhi : E < fo + os → uint16 ((E : Int) + (fo + os - E)) = max E (fo + os) := fun h =>
    uint16_eq (by omega) (by omega)
  have hmax : max E (fo + os) ≤ f.pkt.size := Nat.max_le.2 ⟨hEn, hn⟩
  by_cases h1 : (0 : Int) ≤ fo - S ∧ (fo : Int) + os - E ≤ 0
  · -- nothing new
    have hmin : S = min S fo := by omega
    have hsame : E = max E (fo + os) := by omega
    rw [if_pos h1] at hmerge
    refine fillFrom_of_merge hmerge rfl (hS.trans hmin) (hE.trans hsame) hmax fun i => ?_
    refine (copyBytes_eq (a := fo) (k := vo) (n := 0) rfl rfl rfl i).trans ?_
    grind
  · rw [if_neg h1] at hmerge
    by_cases h2 : (fo : Int) - S < 0 ∧ (0 : Int) ≤ fo + os - S ∧ (fo : Int) + os - E ≤ 0
    · -- bytes before those that were found
      have hsame : E = max E (fo + os) := by omega
      have hsize : (S : Int) - fo = (S - fo : Nat) := by omega
      rw [if_pos h2] at hmerge
      refine fillFrom_of_merge hmerge rfl (hlo (by omega)) hsame hmax fun i => ?_
      refine (copyBytes_eq (a := fo) (k := vo) (n := S - fo) rfl rfl hsize i).trans ?_
      grind
    · rw [if_neg h2] at hmerge
      have hsize : (fo : Int) + os - E = (fo + os - E : Nat) := by omega
      have hval : (vo : Int) + (E - fo) = (vo + (E - fo) : Nat) := by omega
      by_cases h3 : (0 : Int) < fo + os - E ∧ (fo : Int) - E ≤ 0 ∧ (0 : Int) ≤ fo - S
      · -- bytes behind
        have hmin : S = min S fo := by omega
        rw [if_pos h3] at hmerge
        refine fillFrom_of_merge hmerge rfl hmin (hhi (by omega)) hmax fun i => ?_
        refine (copyBytes_eq (a := E) (k := vo + (E - fo)) (n := fo + os - E) rfl hval hsize i).trans ?_
        grind
      · -- bytes on both sides, in two pieces
        have h4 : (fo : Int) - S < 0 ∧ (0 : Int) < fo + os - E := by omega
        have hpiece : (S : Int) - fo = (S - fo : Nat) := by omega
        rw [if_neg h3, if_pos h4] at hmerge
        refine fillFrom_of_merge hmerge rfl (hlo (by omega)) (hhi (by omega)) hmax fun i => ?_
        refine (copyBytes_eq (a := E) (k := vo + (E - fo)) (n := fo + os - E) rfl hval hsize i).trans ?_
        have hfirst : copyBytes f.pkt.data fo data vo (S - fo) i =
            if fo ≤ i ∧ i < fo + (S - fo) then data (i - fo + vo) else f.pkt.data i := copyBytes_eq rfl rfl hpiece i
        grind

end Fill

/-! ## One call after the other -/

section Bytes

variable {pkt : Packet} {bufs bufs' : List Buffer} {buf : Buffer} {i : Nat}

theorem covered_append : Covered pkt (bufs ++ bufs') i ↔ Covered pkt bufs i ∨ Covered pkt bufs' i := by
  simp [Covered, or_and_right, exists_or]

theorem covered_singleton : Covered pkt [buf] i ↔ buf.covers pkt i = true := by simp [Covered]

theorem firstByte_of_covered (h : Covered pkt bufs i) : firstByte pkt (bufs ++ bufs') i = firstByte pkt bufs i := by
  obtain ⟨b, hb, hc⟩ := h
  have hsome : (bufs.find? fun b => b.covers pkt i).isSome = true := List.find?_isSome.2 ⟨b, hb, hc⟩
  rw [firstByte, firstByte, List.find?_append, Option.or_of_isSome hsome]

theorem firstByte_of_not_covered (h : ¬Covered pkt bufs i) (hc : buf.covers pkt i = true) :
    firstByte pkt (bufs ++ [buf]) i = some (buf.byte pkt i) := by
  have hnone : (bufs.find? fun b => b.covers pkt i) = none := by
    rw [List.find?_eq_none]
    exact fun b hb hc => h ⟨b, hb, hc⟩
  simp [firstByte, List.find?_append, hnone, hc]

end Bytes

/-- What was found: the bytes from `bytesValidStart` to `bytesValidEnd`, if any. -/
structure Found (pkt : Packet) (bufs : List Buffer) (f : Functional) : Prop where
  packet : f.pkt = { pkt with data := f.pkt.data }
  empty : (∀ i < pkt.size, ¬Covered pkt bufs i) → f.bytesValidStart = 0 ∧ f.bytesValidEnd = 0
  range : (∃ i < pkt.size, Covered pkt bufs i) → f.bytesValidStart < f.bytesValidEnd ∧ f.bytesValidEnd ≤ pkt.size ∧
    ∀ i < pkt.size, Covered pkt bufs i ↔ f.bytesValidStart ≤ i ∧ i < f.bytesValidEnd
  bytes : ∀ i < pkt.size, Covered pkt bufs i → firstByte pkt bufs i = some (f.pkt.data i)

section Calls

variable {pkt : Packet} {bufs : List Buffer} {buf : Buffer} {f : Functional} {data : Nat → Nat}

theorem Found.start_le (hF : Found pkt bufs f) : f.bytesValidStart ≤ f.bytesValidEnd := by
  by_cases hany : ∃ i < pkt.size, Covered pkt bufs i
  · exact (hF.range hany).1.le
  · obtain ⟨h1, h2⟩ := hF.empty fun i hi hc => hany ⟨i, hi, hc⟩
    rw [h1, h2]

/-- Two ranges that have no byte in common. -/
theorem disjoint_of_not_covers (hr : Ranged pkt.addr pkt.size) (hb : Ranged buf.addr buf.size)
    (hd : buf.data = some data) (h : ∀ j < pkt.size, ¬buf.covers pkt j = true) :
    lastAddr buf.addr buf.size < pkt.addr ∨ lastAddr pkt.addr pkt.size < buf.addr := by
  have hf := hr.lastAddr
  have hv := hb.lastAddr
  by_contra hc
  have h0 := hr.1
  have h1 := hb.1
  have hj : buf.addr - pkt.addr < pkt.size := by omega
  refine h _ hj ?_
  simp only [Buffer.covers, hd, Option.isSome_some, Bool.true_and, decide_eq_true_eq]
  omega

theorem covers_bounds {j : Nat} (h : buf.covers pkt j = true) :
    buf.addr ≤ pkt.addr + j ∧ pkt.addr + j < buf.addr + buf.size := by
  simp only [Buffer.covers, Bool.and_eq_true, decide_eq_true_eq] at h
  exact h.2

/-- A buffer without bytes of the request changes nothing. -/
theorem checkFunctional_skip (hp : f.pkt = { pkt with data := f.pkt.data }) (hr : Ranged pkt.addr pkt.size)
    (hb : Ranged buf.addr buf.size) (h : ∀ j < pkt.size, ¬buf.covers pkt j = true) :
    f.checkFunctional buf = .ok (f, buf, false) := by
  have haddr : f.pkt.addr = pkt.addr := by rw [hp]
  have hsize : f.pkt.size = pkt.size := by rw [hp]
  simp only [Functional.checkFunctional, haddr, hsize]
  cases hd : buf.data with
  | none =>
    simp only
    split
    · rfl
    · split
      · rfl
      · rfl
  | some data => exact if_pos (disjoint_of_not_covers hr hb hd h)

theorem covers_iff (hd : buf.data = some data) (i : Nat) :
    buf.covers pkt i = true ↔ buf.addr ≤ pkt.addr + i ∧ pkt.addr + i < buf.addr + buf.size := by
  simp only [Buffer.covers, hd, Option.isSome_some, Bool.true_and, decide_eq_true_eq]

/-- A read from a buffer with bytes of the request. -/
theorem checkFunctional_read (hp : f.pkt = { pkt with data := f.pkt.data }) (hQ : Readable pkt)
    (hB : Shares pkt buf data) :
    f.checkFunctional buf =
      if buf.addr ≤ pkt.addr ∧ lastAddr pkt.addr pkt.size ≤ lastAddr buf.addr buf.size then
        .ok ({ f with pkt := { f.pkt with data := copyBytes f.pkt.data 0 data (pkt.addr - buf.addr) pkt.size } }, buf,
          true)
      else do
        let o ← partialOverlap pkt.addr (lastAddr pkt.addr pkt.size) buf.addr (lastAddr buf.addr buf.size) buf.size
        let (f, done) ← f.fillFrom data o
        return (f, buf, done) := by
  have haddr : f.pkt.addr = pkt.addr := by rw [hp]
  have hsize : f.pkt.size = pkt.size := by rw [hp]
  have hcmd : f.pkt.cmd = pkt.cmd := by rw [hp]
  have hread : f.pkt.isRead = true := by rw [Packet.isRead, hcmd]; exact hQ.read
  have hprint : ¬f.pkt.cmd = .printReq := by
    intro hc
    rw [Packet.isRead, hc] at hread
    cases hread
  have hf := hQ.ranged.lastAddr
  have hv := hB.ranged.lastAddr
  obtain ⟨j, hj, hcj⟩ := hB.meets
  have hbounds := covers_bounds hcj
  have hmeet : ¬(lastAddr buf.addr buf.size < pkt.addr ∨ lastAddr pkt.addr pkt.size < buf.addr) := by omega
  simp only [Functional.checkFunctional, haddr, hsize, if_neg hmeet, if_neg hprint, hB.data, hread, if_true]

/-- What a call leaves, and when it says that the request is satisfied. -/
structure Answer (pkt : Packet) (bufs : List Buffer) (f : Functional) (found : Bool) : Prop where
  rest : found = false → Found pkt bufs f
  bytes : found = true → ∀ i < pkt.size, firstByte pkt bufs i = some (f.pkt.data i)
  iff : found = true ↔ ∀ i < pkt.size, Covered pkt bufs i

/-- The call for `buf` after those for `bufs` does so. -/
def Answers (pkt : Packet) (bufs : List Buffer) (f : Functional) (buf : Buffer) : Prop :=
  ∃ f' found, f.checkFunctional buf = .ok (f', buf, found) ∧ Answer pkt (bufs ++ [buf]) f' found

/-- The whole request in one buffer. -/
theorem Found.whole (hF : Found pkt bufs f) (hQ : Readable pkt) (hB : Shares pkt buf data)
    (h : ∀ i < pkt.size, buf.covers pkt i = true ∧ ¬Covered pkt bufs i) : Answers pkt bufs f buf := by
  have hf := hQ.ranged.lastAddr
  have hv := hB.ranged.lastAddr
  have h0 := hQ.ranged.1
  have hfirst := covers_bounds (h 0 h0).1
  have hlast := covers_bounds (h (pkt.size - 1) (by omega)).1
  have hsub : (pkt.addr : Int) - buf.addr = (pkt.addr - buf.addr : Nat) := by omega
  refine ⟨_, true, (checkFunctional_read hF.packet hQ hB).trans (if_pos (by omega)), (fun h => by cases h),
    fun _ i hi => ?_, iff_of_true rfl fun i hi => covered_append.2 (.inr (covered_singleton.2 (h i hi).1))⟩
  rw [firstByte_of_not_covered (h i hi).2 (h i hi).1, Buffer.byte, hB.data]
  refine congrArg some ((copyBytes_eq (a := 0) rfl hsub rfl i).trans ?_).symm
  rw [if_pos (by omega)]
  exact congrArg data (by omega)

/-- The bytes that are found form an interval. -/
theorem Answer.of_range {f' : Functional} {lo hi : Nat} {new : Nat → Nat} (hp : f.pkt = { pkt with data := f.pkt.data })
    (hfill : Filled f f' lo hi new) (hlt : lo < hi) (hle : hi ≤ pkt.size)
    (hrange : ∀ i < pkt.size, Covered pkt bufs i ↔ lo ≤ i ∧ i < hi)
    (hbytes : ∀ i, lo ≤ i → i < hi → firstByte pkt bufs i = some (new i)) :
    Answer pkt bufs f' (decide (lo = 0 ∧ hi = pkt.size)) where
  rest _ := by
    refine ⟨by rw [hfill.pkt, hp], fun h => ?_, fun _ => ?_, fun i hi hc => ?_⟩
    · exact absurd ((hrange lo (by omega)).2 ⟨Nat.le_refl _, hlt⟩) (h lo (by omega))
    · rw [hfill.start, hfill.stop]
      exact ⟨hlt, hle, hrange⟩
    · rw [hfill.data]
      exact hbytes i ((hrange i hi).1 hc).1 ((hrange i hi).1 hc).2
  bytes h i hi := by
    obtain ⟨h1, h2⟩ := of_decide_eq_true h
    rw [hfill.data]
    exact hbytes i (by omega) (by omega)
  iff := by
    rw [decide_eq_true_iff]
    constructor
    · rintro ⟨h1, h2⟩ i hi
      exact (hrange i hi).2 (by omega)
    · intro h
      have h1 := (hrange 0 (by omega)).1 (h 0 (by omega))
      have h2 := (hrange (pkt.size - 1) (by omega)).1 (h (pkt.size - 1) (by omega))
      omega

/-- The overlap that the code takes from a buffer that does not hold the whole request:
`os` bytes, from `fo` in the request and `vo` in the buffer. -/
structure Part (pkt : Packet) (buf : Buffer) (data : Nat → Nat) (vo fo os : Nat) : Prop where
  misses : ¬(buf.addr ≤ pkt.addr ∧ pkt.addr + pkt.size ≤ buf.addr + buf.size)
  overlap : partialOverlap pkt.addr (lastAddr pkt.addr pkt.size) buf.addr (lastAddr buf.addr buf.size) buf.size =
    .ok ⟨vo, fo, os⟩
  le : fo + os ≤ pkt.size
  byte : ∀ i, fo ≤ i → buf.byte pkt i = data (i - fo + vo)

theorem Part.call (hP : Part pkt buf data vo fo os) (hp : f.pkt = { pkt with data := f.pkt.data })
    (hQ : Readable pkt) (hB : Shares pkt buf data) :
    f.checkFunctional buf = (f.fillFrom data ⟨vo, fo, os⟩).map fun r => (r.1, buf, r.2) := by
  have hf := hQ.ranged.lastAddr
  have hv := hB.ranged.lastAddr
  have hn := hP.misses
  rw [checkFunctional_read hp hQ hB, if_neg (by omega), hP.overlap]
  show (f.fillFrom data ⟨vo, fo, os⟩ >>= _) = _
  cases f.fillFrom data ⟨vo, fo, os⟩ with
  | error e => rfl
  | ok r => rfl

/-- The interval grows by the overlap that the code takes. -/
theorem Found.grows (hF : Found pkt bufs f) (hany : ∃ i < pkt.size, Covered pkt bufs i) (hQ : Readable pkt)
    (hB : Shares pkt buf data) (hP : Part pkt buf data vo fo os) (hl : fo ≤ f.bytesValidEnd)
    (hr : f.bytesValidStart ≤ fo + os)
    (hnew : ∀ i < pkt.size, Covered pkt (bufs ++ [buf]) i ↔ Covered pkt bufs i ∨ fo ≤ i ∧ i < fo + os)
    (hcov : ∀ i, fo ≤ i → i < fo + os → buf.covers pkt i = true) : Answers pkt bufs f buf := by
  obtain ⟨hSE, hEn, hrange⟩ := hF.range hany
  have hsize : f.pkt.size = pkt.size := by rw [hF.packet]
  have hn := hP.le
  have h16 := hQ.small
  obtain ⟨f', hfill, hF'⟩ := fillFrom_again data rfl rfl hSE (by omega) (show fo + os ≤ f.pkt.size by omega)
    (by omega) hl hr
  rw [hsize] at hfill
  refine ⟨f', _, by rw [hP.call hF.packet hQ hB, hfill]; rfl,
    Answer.of_range hF.packet hF' (by omega) (by omega) (fun i hi => ?_) fun i hlo hhi => ?_⟩
  · rw [hnew i hi, hrange i hi]
    omega
  · by_cases hold : f.bytesValidStart ≤ i ∧ i < f.bytesValidEnd
    · have hc := (hrange i (by omega)).2 hold
      rw [if_pos hold, firstByte_of_covered hc]
      exact hF.bytes i (by omega) hc
    · have hin : fo ≤ i ∧ i < fo + os := by omega
      rw [if_neg hold, if_pos hin, ← hP.byte i hin.1]
      exact firstByte_of_not_covered (fun hc => hold ((hrange i (by omega)).1 hc)) (hcov i hin.1 hin.2)

/-- A buffer inside the request. -/
theorem Found.inside (hF : Found pkt bufs f) (hQ : Readable pkt) (hB : Shares pkt buf data)
    (ht : (∃ i < pkt.size, Covered pkt bufs i) → Touches pkt bufs buf) (h1 : pkt.addr ≤ buf.addr)
    (h2 : buf.addr + buf.size ≤ pkt.addr + pkt.size) (h3 : buf.size < pkt.size) : Answers pkt bufs f buf := by
  have hf := hQ.ranged.lastAddr
  have hv := hB.ranged.lastAddr
  have h0 := hB.ranged.1
  have h16 := hQ.small
  obtain ⟨fo, hfo⟩ : ∃ fo, buf.addr = pkt.addr + fo := ⟨_, (Nat.add_sub_cancel' h1).symm⟩
  have hcov : ∀ i, buf.covers pkt i = true ↔ fo ≤ i ∧ i < fo + buf.size := by
    intro i
    rw [covers_iff hB.data]
    omega
  have hnew : ∀ i, Covered pkt (bufs ++ [buf]) i ↔ Covered pkt bufs i ∨ fo ≤ i ∧ i < fo + buf.size := by
    intro i
    rw [covered_append, covered_singleton, hcov]
  have hsize : f.pkt.size = pkt.size := by rw [hF.packet]
  have hP : Part pkt buf data 0 fo buf.size := by
    refine ⟨by omega, ?_, by omega, fun i _ => ?_⟩
    · rw [partialOverlap, if_neg (by omega), if_neg (by omega), if_pos (by omega), hfo]
      congr 2
      omega
    · rw [Buffer.byte, hB.data]
      exact congrArg data (by omega)
  by_cases hany : ∃ i < pkt.size, Covered pkt bufs i
  · obtain ⟨hSE, hEn, hrange⟩ := hF.range hany
    obtain ⟨i, hi, j, hj, hci, hcj, hij, hji⟩ := ht hany
    have hiS := (hrange i hi).1 hci
    have hjo := (hcov j).1 hcj
    exact hF.grows hany hQ hB hP (by omega) (by omega) (fun i _ => hnew i) fun i hlo hhi => (hcov i).2 ⟨hlo, hhi⟩
  · -- the first bytes
    have hnone : ∀ i < pkt.size, ¬Covered pkt bufs i := fun i hi hc => hany ⟨i, hi, hc⟩
    obtain ⟨f', hfill, hF'⟩ :=
      fillFrom_first data (hF.empty hnone) (show fo + buf.size ≤ f.pkt.size by omega) (by omega)
    rw [hsize] at hfill
    refine ⟨f', _, by rw [hP.call hF.packet hQ hB]; exact congrArg (Except.map _) hfill,
      Answer.of_range hF.packet hF' (by omega) (by omega) (fun i hi => ?_) fun i hlo hhi => ?_⟩
    · rw [hnew]
      exact or_iff_right (hnone i hi)
    · rw [if_pos ⟨hlo, hhi⟩, show data (i - fo) = buf.byte pkt i from (hP.byte i hlo).symm]
      exact firstByte_of_not_covered (hnone i (by omega)) ((hcov i).2 ⟨hlo, hhi⟩)

/-- A part to which one byte is missing, the last byte of the request in the buffer. -/
structure Sticks (pkt : Packet) (buf : Buffer) (data : Nat → Nat) (vo fo os : Nat) : Prop
    extends Part pkt buf data vo fo os where
  last : fo + os < pkt.size
  covers : ∀ i < pkt.size, buf.covers pkt i = true ↔ fo ≤ i ∧ i ≤ fo + os

/-- A buffer that begins before the request. -/
theorem Shares.sticks_left (hB : Shares pkt buf data) (hQ : Readable pkt) (h1 : buf.addr < pkt.addr)
    (h2 : buf.addr + buf.size < pkt.addr + pkt.size) :
    Sticks pkt buf data (pkt.addr - buf.addr) 0 (buf.addr + buf.size - 1 - pkt.addr) := by
  have hf := hQ.ranged.lastAddr
  have hv := hB.ranged.lastAddr
  obtain ⟨j, hj, hcj⟩ := hB.meets
  have hj' := (covers_iff hB.data j).1 hcj
  refine ⟨⟨by omega, ?_, by omega, fun i _ => ?_⟩, by omega, fun i hi => ?_⟩
  · rw [partialOverlap, if_pos (by omega)]
    congr 2
    · omega
    · omega
  · rw [Buffer.byte, hB.data]
    exact congrArg data (by omega)
  · rw [covers_iff hB.data]
    omega

/-- A buffer that ends behind it. -/
theorem Shares.sticks_right (hB : Shares pkt buf data) (hQ : Readable pkt) (h1 : pkt.addr < buf.addr)
    (h2 : pkt.addr + pkt.size < buf.addr + buf.size) :
    Sticks pkt buf data 0 (buf.addr - pkt.addr) (pkt.addr + pkt.size - 1 - buf.addr) := by
  have hf := hQ.ranged.lastAddr
  have hv := hB.ranged.lastAddr
  obtain ⟨j, hj, hcj⟩ := hB.meets
  have hj' := (covers_iff hB.data j).1 hcj
  refine ⟨⟨by omega, ?_, by omega, fun i _ => ?_⟩, by omega, fun i hi => ?_⟩
  · rw [partialOverlap, if_neg (by omega), if_pos (by omega)]
    congr 2
    · omega
    · omega
  · rw [Buffer.byte, hB.data]
    exact congrArg data (by omega)
  · rw [covers_iff hB.data]
    omega

/-- The byte that is lost has been found before. -/
theorem Found.sticks (hF : Found pkt bufs f) (hQ : Readable pkt) (hB : Shares pkt buf data)
    (hS : Sticks pkt buf data vo fo os) (hlast : Covered pkt bufs (fo + os)) : Answers pkt bufs f buf := by
  have hlt := hS.last
  have hany : ∃ i < pkt.size, Covered pkt bufs i := ⟨fo + os, hlt, hlast⟩
  obtain ⟨hSE, hEn, hrange⟩ := hF.range hany
  have hin := (hrange (fo + os) hlt).1 hlast
  refine hF.grows hany hQ hB hS.toPart (by omega) (by omega) (fun i hi => ?_) fun i hlo hhi => ?_
  · rw [covered_append, covered_singleton, hS.covers i hi, hrange i hi]
    omega
  · exact (hS.covers i (by omega)).2 (by omega)

theorem Found.call (hF : Found pkt bufs f) (hQ : Readable pkt) (hb : Ranged buf.addr buf.size)
    (hopen : ∃ i < pkt.size, ¬Covered pkt bufs i)
    (ht : (∃ i < pkt.size, Covered pkt bufs i) → (∃ j < pkt.size, buf.covers pkt j = true) → Touches pkt bufs buf)
    (hfit : (∃ j < pkt.size, buf.covers pkt j = true) → Fits pkt bufs buf) : Answers pkt bufs f buf := by
  by_cases hov : ∃ j < pkt.size, buf.covers pkt j = true
  · obtain ⟨data, hd⟩ : ∃ data, buf.data = some data := by
      obtain ⟨j, -, hj⟩ := hov
      rw [Buffer.covers, Bool.and_eq_true] at hj
      exact Option.isSome_iff_exists.1 hj.1
    have hB : Shares pkt buf data := ⟨hb, hd, hov⟩
    obtain hall | ⟨h1, h2, h3⟩ | ⟨h1, h2, h3⟩ | ⟨h1, h2, h3⟩ := hfit hov
    · exact hF.whole hQ hB hall
    · exact hF.inside hQ hB (fun h => ht h hov) h1 h2 h3
    · exact hF.sticks hQ hB (hB.sticks_left hQ h1 h2) (by rwa [Nat.zero_add])
    · refine hF.sticks hQ hB (hB.sticks_right hQ h1 h2) ?_
      rwa [show buf.addr - pkt.addr + (pkt.addr + pkt.size - 1 - buf.addr) = pkt.size - 1 by
        have := (hB.sticks_right hQ h1 h2).last
        omega]
  · have hskip : ∀ j < pkt.size, ¬buf.covers pkt j = true := fun j hj hc => hov ⟨j, hj, hc⟩
    have hsame : ∀ i < pkt.size, Covered pkt (bufs ++ [buf]) i ↔ Covered pkt bufs i := fun i hi => by
      rw [covered_append, covered_singleton]
      exact or_iff_left (hskip i hi)
    refine ⟨f, false, checkFunctional_skip hF.packet hQ.ranged hb hskip,
      fun _ => ⟨hF.packet, fun h => ?_, ?_, fun i hi hc => ?_⟩,
      (fun h => by cases h), iff_of_false Bool.false_ne_true fun h => ?_⟩
    · exact hF.empty fun i hi hc => h i hi ((hsame i hi).2 hc)
    · rintro ⟨i, hi, hc⟩
      obtain ⟨h1, h2, h3⟩ := hF.range ⟨i, hi, (hsame i hi).1 hc⟩
      exact ⟨h1, h2, fun i hi => (hsame i hi).trans (h3 i hi)⟩
    · have hc' := (hsame i hi).1 hc
      rw [firstByte_of_covered hc']
      exact hF.bytes i hi hc'
    · obtain ⟨i, hi, hn⟩ := hopen
      exact hn ((hsame i hi).1 (h i hi))

/-- The calls for the rest of the buffers. -/
theorem Found.calls {rest : List Buffer} (hQ : Readable pkt) (hb : ∀ b ∈ rest, Ranged b.addr b.size)
    (hF : Found pkt bufs f) (hopen : ∃ i < pkt.size, ¬Covered pkt bufs i)
    (hc : Contiguous pkt bufs rest) (hfit : AllFit pkt bufs rest) :
    ∃ f' found, f.checkAll rest = .ok (f', found) ∧ (found = true ↔ ∀ i < pkt.size, Covered pkt (bufs ++ rest) i) ∧
      (found = true → ∀ i < pkt.size, firstByte pkt (bufs ++ rest) i = some (f'.pkt.data i)) ∧
      (found = false → Found pkt (bufs ++ rest) f') := by
  induction rest generalizing bufs f with
  | nil =>
    refine ⟨f, false, rfl, iff_of_false Bool.false_ne_true fun h => ?_, (fun h => by cases h), fun _ => ?_⟩
    · obtain ⟨i, hi, hn⟩ := hopen
      exact hn (List.append_nil bufs ▸ h i hi)
    · rwa [List.append_nil]
  | cons buf rest ih =>
    obtain ⟨i, hi, hn⟩ := hopen
    obtain hall | ⟨hfit, hrest⟩ := hfit
    · exact absurd (hall i hi) hn
    obtain ⟨f', found, hcall, hans⟩ := hF.call hQ (hb buf List.mem_cons_self) ⟨i, hi, hn⟩ hc.1 hfit
    have happ : bufs ++ buf :: rest = (bufs ++ [buf]) ++ rest := List.append_cons bufs buf rest
    rw [happ]
    cases found with
    | true =>
      have hall := hans.iff.1 rfl
      refine ⟨f', true, ?_, iff_of_true rfl fun i hi => covered_append.2 (.inl (hall i hi)), fun _ i hi => ?_,
        fun h => by cases h⟩
      · rw [Functional.checkAll, hcall]
        rfl
      · rw [firstByte_of_covered (hall i hi)]
        exact hans.bytes rfl i hi
    | false =>
      have hopen' : ∃ i < pkt.size, ¬Covered pkt (bufs ++ [buf]) i := by
        by_contra hno
        push Not at hno
        exact Bool.false_ne_true (hans.iff.2 hno)
      obtain ⟨f'', found, hcalls, h⟩ :=
        ih (fun b hb' => hb b (List.mem_cons_of_mem _ hb')) (hans.rest rfl) hopen' hc.2 hrest
      refine ⟨f'', found, ?_, h⟩
      rw [Functional.checkAll, hcall]
      exact hcalls

theorem not_covered_nil (pkt : Packet) (i : Nat) : ¬Covered pkt [] i := fun h => by simp [Covered] at h

theorem found_nil (pkt : Packet) : Found pkt [] { pkt := pkt } := by
  refine ⟨rfl, fun _ => ⟨rfl, rfl⟩, ?_, fun i _ hi => absurd hi (not_covered_nil pkt i)⟩
  rintro ⟨i, -, hi⟩
  exact absurd hi (not_covered_nil pkt i)

theorem reads_of_allFit (hQ : Readable pkt) (hb : ∀ b ∈ bufs, Ranged b.addr b.size) (hc : Contiguous pkt [] bufs)
    (hfit : AllFit pkt [] bufs) :
    Reads pkt bufs := by
  obtain ⟨f, found, h, hiff, hbytes, -⟩ := Found.calls hQ hb (found_nil pkt)
    ⟨0, hQ.ranged.1, not_covered_nil pkt 0⟩ hc hfit
  exact ⟨f, found, h, hiff, hbytes⟩

end Calls

/-! ## Buffers that do not fit -/

section Shapes

variable {pkt : Packet} {bufs bufs' rest rest' : List Buffer} {b b' : Buffer} {i : Nat}

theorem covers_of_shape (h : b'.shape = b.shape) : b'.covers pkt i = b.covers pkt i := by
  simp only [Buffer.shape, Prod.mk.injEq] at h
  simp only [Buffer.covers, h]

theorem covered_of_shapes (h : bufs'.map Buffer.shape = bufs.map Buffer.shape) :
    Covered pkt bufs' i ↔ Covered pkt bufs i := by
  induction bufs generalizing bufs' with
  | nil => rw [List.map_eq_nil_iff.1 h]
  | cons b bufs ih =>
    obtain ⟨b', l, rfl, hb, hl⟩ := List.map_eq_cons_iff.1 h
    have hcons : ∀ (b : Buffer) l, Covered pkt (b :: l) i ↔ b.covers pkt i = true ∨ Covered pkt l i := fun b l => by
      simp [Covered]
    rw [hcons, hcons, covers_of_shape hb, ih hl]

theorem Contiguous.of_shapes (hp : bufs'.map Buffer.shape = bufs.map Buffer.shape)
    (h : rest'.map Buffer.shape = rest.map Buffer.shape) (hc : Contiguous pkt bufs rest) :
    Contiguous pkt bufs' rest' := by
  induction rest generalizing bufs bufs' rest' with
  | nil => rw [List.map_eq_nil_iff.1 h]; trivial
  | cons b rest ih =>
    obtain ⟨b', l, rfl, hb, hl⟩ := List.map_eq_cons_iff.1 h
    refine ⟨?_, ih (by simp [hp, hb]) hl hc.2⟩
    have ht := hc.1
    simp only [Touches, covers_of_shape hb, covered_of_shapes hp] at ht ⊢
    exact ht

theorem Contiguous.of_append (h : Contiguous pkt bufs (rest ++ rest')) : Contiguous pkt bufs rest := by
  induction rest generalizing bufs with
  | nil => trivial
  | cons b rest ih => exact ⟨h.1, ih h.2⟩

theorem fits_of_shapes (hp : bufs'.map Buffer.shape = bufs.map Buffer.shape) (hb : b'.shape = b.shape) :
    Fits pkt bufs' b' ↔ Fits pkt bufs b := by
  have hb' := hb
  simp only [Buffer.shape, Prod.mk.injEq] at hb'
  simp only [Fits, covers_of_shape hb, covered_of_shapes hp, hb'.1, hb'.2.1]

theorem AllFit.of_shapes (hp : bufs'.map Buffer.shape = bufs.map Buffer.shape)
    (h : rest'.map Buffer.shape = rest.map Buffer.shape) (hf : AllFit pkt bufs rest) : AllFit pkt bufs' rest' := by
  induction rest generalizing bufs bufs' rest' with
  | nil => rw [List.map_eq_nil_iff.1 h]; trivial
  | cons b rest ih =>
    obtain ⟨b', l, rfl, hb, hl⟩ := List.map_eq_cons_iff.1 h
    obtain hall | ⟨hfit, hrest⟩ := hf
    · exact .inl fun i hi => (covered_of_shapes hp).2 (hall i hi)
    · refine .inr ⟨fun hov => (fits_of_shapes hp hb).2 (hfit ?_), ih (by simp [hp, hb]) hl hrest⟩
      simpa only [covers_of_shape hb] using hov

theorem ranged_of_shapes (h : bufs'.map Buffer.shape = bufs.map Buffer.shape)
    (hb : ∀ b ∈ bufs, Ranged b.addr b.size) : ∀ b ∈ bufs', Ranged b.addr b.size := by
  intro b' hb'
  have hm := List.mem_map_of_mem (f := Buffer.shape) hb'
  rw [h] at hm
  obtain ⟨b, hm, he⟩ := List.mem_map.1 hm
  simp only [Buffer.shape, Prod.mk.injEq] at he
  rw [← he.1, ← he.2.1]
  exact hb b hm

/-- The first buffer that does not fit. -/
theorem exists_misfit (h : ¬AllFit pkt bufs rest) :
    ∃ l b r, rest = l ++ b :: r ∧ AllFit pkt bufs l ∧ (∃ i < pkt.size, ¬Covered pkt (bufs ++ l) i) ∧
      (∃ j < pkt.size, b.covers pkt j = true) ∧ ¬Fits pkt (bufs ++ l) b := by
  induction rest generalizing bufs with
  | nil => exact absurd trivial h
  | cons b rest ih =>
    obtain ⟨hopen, hrest⟩ := not_or.1 h
    by_cases hb : (∃ j < pkt.size, b.covers pkt j = true) → Fits pkt bufs b
    · obtain ⟨l, b', r, rfl, hl, hopen', hov, hfit⟩ := ih fun h => hrest ⟨hb, h⟩
      rw [← List.append_cons] at hopen' hfit
      exact ⟨b :: l, b', r, rfl, .inr ⟨hb, hl⟩, hopen', hov, hfit⟩
    · rw [Classical.not_imp] at hb
      push Not at hopen
      exact ⟨[], b, rest, rfl, trivial, by rwa [List.append_nil], hb.1, by rw [List.append_nil]; exact hb.2⟩

end Shapes

section Contents

variable {f f' : Functional} {buf : Buffer} {data : Nat → Nat} {o : Overlap} {i v : Nat} {found : Bool}

theorem copyBytes_ne {dst src : Nat → Nat} (dstAt srcAt size : Int) (hd : dst i ≠ v) (hs : ∀ k, src k ≠ v) :
    copyBytes dst dstAt src srcAt size i ≠ v := by
  unfold copyBytes
  split
  · exact hs _
  · exact hd

/-- `fillFrom` takes the overlap that is left by `mergeOverlap`. -/
theorem fillFrom_ok (h : f.fillFrom data o = .ok (f', found)) :
    ∃ f₁ o', f.mergeOverlap data o = .ok (f₁, o') ∧
      f'.pkt.data = copyBytes f₁.pkt.data o'.funcOffset data o'.valOffset o'.size := by
  simp only [Functional.fillFrom, bind_ok] at h
  obtain ⟨⟨f₁, o'⟩, hm, -, -, h⟩ := h
  cases h
  exact ⟨f₁, o', hm, rfl⟩

theorem mergeOverlap_ne {f₁ : Functional} {o' : Overlap} (hf : f.pkt.data i ≠ v) (hd : ∀ k, data k ≠ v)
    (h : f.mergeOverlap data o = .ok (f₁, o')) : f₁.pkt.data i ≠ v := by
  unfold Functional.mergeOverlap at h
  simp only at h
  split at h
  · cases h; exact hf
  split at h
  · cases h; exact hf
  split at h
  · cases h; exact hf
  split at h
  · cases h; exact hf
  split at h
  · cases h; exact copyBytes_ne _ _ _ hf hd
  split at h
  · cases h
  · cases h; exact hf

/-- A byte has the value `v` only if it had it before or the buffer has. -/
theorem checkFunctional_ne {buf' : Buffer} (hf : f.pkt.data i ≠ v) (hd : ∀ data, buf.data = some data → ∀ k, data k ≠ v)
    (h : f.checkFunctional buf = .ok (f', buf', found)) : f'.pkt.data i ≠ v := by
  unfold Functional.checkFunctional at h
  simp only at h
  split at h
  · cases h; exact hf
  split at h
  · cases h; exact hf
  split at h
  · cases h; exact hf
  next data hbuf =>
  have hd := hd data hbuf
  split at h
  · split at h
    · cases h; exact copyBytes_ne _ _ _ hf hd
    · simp only [bind_ok] at h
      obtain ⟨o, -, ⟨f₂, done⟩, hfill, h⟩ := h
      cases h
      obtain ⟨f₁, o', hm, he⟩ := fillFrom_ok hfill
      rw [he]
      exact copyBytes_ne _ _ _ (mergeOverlap_ne hf hd hm) hd
  · split at h
    · split at h <;> cases h <;> exact hf
    · cases h

theorem checkAll_ne (hf : f.pkt.data i ≠ v) (hd : ∀ b ∈ bufs, ∀ data, b.data = some data → ∀ k, data k ≠ v)
    (h : f.checkAll bufs = .ok (f', found)) : f'.pkt.data i ≠ v := by
  induction bufs generalizing f with
  | nil => cases h; exact hf
  | cons b bufs ih =>
    simp only [Functional.checkAll, bind_ok] at h
    obtain ⟨⟨f₁, b', done⟩, hc, h⟩ := h
    have h1 := checkFunctional_ne hf (hd b List.mem_cons_self) hc
    cases done with
    | true => cases h; exact h1
    | false => exact ih h1 (fun b hb => hd b (List.mem_cons_of_mem _ hb)) h

/-- Nothing is written behind the overlap. -/
theorem fillFrom_beyond (hSE : f.bytesValidStart ≤ f.bytesValidEnd) (hi : o.funcOffset + o.size ≤ i)
    (h : f.fillFrom data o = .ok (f', found)) : f'.pkt.data i = f.pkt.data i := by
  have hcopy : ∀ {dst : Nat → Nat} {dstAt srcAt size : Int}, ¬(dstAt ≤ i ∧ (i : Int) < dstAt + size) →
      copyBytes dst dstAt data srcAt size i = dst i := fun h => if_neg h
  obtain ⟨f₁, o', hm, he⟩ := fillFrom_ok h
  rw [he]
  unfold Functional.mergeOverlap at hm
  simp only at hm
  split at hm
  · cases hm; exact hcopy (by omega)
  split at hm
  · next h1 => cases hm; exact hcopy (by simp only; omega)
  split at hm
  · next h2 => cases hm; exact hcopy (by simp only; omega)
  split at hm
  · next h3 => cases hm; exact hcopy (by simp only; omega)
  split at hm
  · next h4 =>
    cases hm
    exact (hcopy (by simp only; omega)).trans (hcopy (by omega))
  split at hm
  · cases hm
  · cases hm; exact hcopy (by omega)

theorem checkAll_append {l r : List Buffer} (h : f.checkAll l = .ok (f', false)) :
    f.checkAll (l ++ r) = f'.checkAll r := by
  induction l generalizing f with
  | nil => cases h; rfl
  | cons b l ih =>
    simp only [Functional.checkAll, bind_ok] at h
    obtain ⟨⟨f₁, b', done⟩, hc, h⟩ := h
    cases done with
    | true => cases h
    | false =>
      rw [List.cons_append, Functional.checkAll, hc]
      exact ih h

/-- The buffer with `v` in all its bytes. -/
def Buffer.paint (v : Nat) (buf : Buffer) : Buffer := { buf with data := buf.data.map fun _ _ => v }

theorem paint_shape (v : Nat) (buf : Buffer) : (buf.paint v).shape = buf.shape := by
  simp [Buffer.paint, Buffer.shape]

theorem map_paint_shape (v : Nat) (l : List Buffer) :
    (l.map (Buffer.paint v)).map Buffer.shape = l.map Buffer.shape := by
  rw [List.map_map]
  exact List.map_congr_left fun b _ => paint_shape v b

theorem byte_paint {pkt : Packet} (h : buf.covers pkt i = true) : (buf.paint v).byte pkt i = v := by
  rw [Buffer.covers, Bool.and_eq_true] at h
  obtain ⟨data, hd⟩ := Option.isSome_iff_exists.1 h.1
  simp [Buffer.paint, Buffer.byte, hd]

theorem paint_ne (hc : c ≠ v) {l : List Buffer} :
    ∀ b ∈ l.map (Buffer.paint c), ∀ data, b.data = some data → ∀ k, data k ≠ v := by
  intro b hb data hd k
  obtain ⟨b₀, -, rfl⟩ := List.mem_map.1 hb
  obtain ⟨d, -, rfl⟩ := Option.map_eq_some_iff.1 hd
  exact hc

end Contents

section Misfits

variable {pkt : Packet} {l r : List Buffer} {buf : Buffer} {f : Functional}

theorem firstByte_paint {i : Nat} (h : Covered pkt l i) :
    firstByte pkt (l.map (Buffer.paint c)) i = some c := by
  have h' : Covered pkt (l.map (Buffer.paint c)) i := (covered_of_shapes (map_paint_shape c l)).2 h
  obtain ⟨b, hb⟩ := Option.isSome_iff_exists.1 (List.find?_isSome.2 h')
  obtain ⟨b₀, -, rfl⟩ := List.mem_map.1 (List.mem_of_find?_eq_some hb)
  have hc := List.find?_some hb
  rw [covers_of_shape (paint_shape c b₀)] at hc
  rw [firstByte, hb, Option.map_some, byte_paint hc]

/-- The byte `i`, which a buffer loses or writes over another one, is not the right one
in the end if the buffer has other contents than the rest. -/
theorem not_reads {v i : Nat} (hcv : c ≠ v) (hi : i < pkt.size)
    (hall : ∀ i < pkt.size, Covered pkt (l ++ buf :: r) i)
    (hl : ({ pkt := pkt } : Functional).checkAll (l.map (Buffer.paint c)) = .ok (f, false))
    (hbad : ∀ f' b' found, f.checkFunctional (buf.paint v) = .ok (f', b', found) →
      (¬Covered pkt l i ∧ buf.covers pkt i = true ∧ f'.pkt.data i ≠ v) ∨
        Covered pkt l i ∧ found = true ∧ f'.pkt.data i = v) :
    ¬Reads pkt (l.map (Buffer.paint c) ++ buf.paint v :: r.map (Buffer.paint c)) := by
  rintro ⟨f', found, hrun, hiff, hbytes⟩
  have hshape : (l.map (Buffer.paint c) ++ buf.paint v :: r.map (Buffer.paint c)).map Buffer.shape =
      (l ++ buf :: r).map Buffer.shape := by
    simp only [List.map_append, List.map_cons, map_paint_shape, paint_shape]
  have hbyte := hbytes (hiff.2 fun i hi => (covered_of_shapes hshape).2 (hall i hi)) i hi
  rw [checkAll_append hl] at hrun
  simp only [Functional.checkAll, bind_ok] at hrun
  obtain ⟨⟨f₁, b', done⟩, hcall, hrun⟩ := hrun
  obtain ⟨hn, hc, hne⟩ | ⟨hc, rfl, he⟩ := hbad f₁ b' done hcall
  · -- the byte is never taken from the buffer
    have hne' : f'.pkt.data i ≠ v := by
      cases done with
      | true => cases hrun; exact hne
      | false => exact checkAll_ne hne (paint_ne hcv) hrun
    have hc' : (buf.paint v).covers pkt i = true := by rwa [covers_of_shape (paint_shape v buf)]
    have hn' : ¬Covered pkt (l.map (Buffer.paint c)) i := by rwa [covered_of_shapes (map_paint_shape c l)]
    rw [List.append_cons, firstByte_of_covered (covered_append.2 (.inr (covered_singleton.2 hc'))),
      firstByte_of_not_covered hn' hc', byte_paint hc] at hbyte
    exact hne' (Option.some.inj hbyte).symm
  · cases hrun
    rw [firstByte_of_covered ((covered_of_shapes (map_paint_shape c l)).2 hc), firstByte_paint hc] at hbyte
    exact hcv ((Option.some.inj hbyte).trans he)

/-- What a buffer that does not fit does to some byte. -/
theorem Found.misfit {data : Nat → Nat} (hF : Found pkt bufs f) (hQ : Readable pkt) (hB : Shares pkt buf data)
    (hfit : ¬Fits pkt bufs buf) : ∃ i < pkt.size, ∀ f' b' found, f.checkFunctional buf = .ok (f', b', found) →
      (¬Covered pkt bufs i ∧ buf.covers pkt i = true ∧ f'.pkt.data i = f.pkt.data i) ∨
        Covered pkt bufs i ∧ found = true ∧ ∃ k, f'.pkt.data i = data k := by
  have hf := hQ.ranged.lastAddr
  have hv := hB.ranged.lastAddr
  simp only [Fits, not_or] at hfit
  obtain ⟨hwhole, hin, hleft, hright⟩ := hfit
  by_cases hw : buf.addr ≤ pkt.addr ∧ pkt.addr + pkt.size ≤ buf.addr + buf.size
  · -- the whole request is copied over a byte that has been found
    have hcov : ∀ i < pkt.size, buf.covers pkt i = true := fun i hi => (covers_iff hB.data i).2 (by omega)
    push Not at hwhole
    obtain ⟨i, hi, hc⟩ := hwhole
    refine ⟨i, hi, fun f' b' found h => .inr ⟨hc (hcov i hi), ?_⟩⟩
    rw [checkFunctional_read hF.packet hQ hB, if_pos (by omega)] at h
    cases h
    exact ⟨rfl, _, if_pos (by omega)⟩
  · -- the byte that is lost has not been found
    obtain ⟨vo, fo, os, hS, hn⟩ : ∃ vo fo os, Sticks pkt buf data vo fo os ∧ ¬Covered pkt bufs (fo + os) := by
      by_cases hbefore : buf.addr < pkt.addr
      · refine ⟨_, _, _, hB.sticks_left hQ hbefore (by omega), fun hc => hleft ⟨hbefore, by omega, ?_⟩⟩
        rwa [Nat.zero_add] at hc
      · have hS := hB.sticks_right hQ (by omega) (by omega)
        refine ⟨_, _, _, hS, fun hc => hright ⟨by omega, by omega, ?_⟩⟩
        have hlast := hS.last
        rwa [show buf.addr - pkt.addr + (pkt.addr + pkt.size - 1 - buf.addr) = pkt.size - 1 by omega] at hc
    refine ⟨fo + os, hS.last, fun f' b' found h => .inl ⟨hn, (hS.covers _ hS.last).2 (by omega), ?_⟩⟩
    rw [hS.call hF.packet hQ hB] at h
    cases hfill : f.fillFrom data ⟨vo, fo, os⟩ with
    | error e => rw [hfill] at h; cases h
    | ok r =>
      rw [hfill] at h
      cases h
      exact fillFrom_beyond hF.start_le (by simp) hfill

theorem exists_bound (g : Nat → Nat) (n : Nat) : ∃ v, ∀ i < n, g i < v := by
  induction n with
  | zero => exact ⟨0, fun i hi => absurd hi (Nat.not_lt_zero i)⟩
  | succ n ih =>
    obtain ⟨v, hv⟩ := ih
    refine ⟨max v (g n + 1), fun i hi => ?_⟩
    obtain hi | rfl := Nat.lt_succ_iff_lt_or_eq.1 hi
    · exact (hv i hi).trans_le (Nat.le_max_left _ _)
    · exact Nat.le_max_right _ _

theorem allFit_of_reads (hQ : Readable pkt) (hb : ∀ b ∈ bufs, Ranged b.addr b.size)
    (hc : Contiguous pkt [] bufs) (hall : ∀ i < pkt.size, Covered pkt bufs i)
    (h : ∀ bufs', bufs'.map Buffer.shape = bufs.map Buffer.shape → Reads pkt bufs') : AllFit pkt [] bufs := by
  by_contra hno
  obtain ⟨l, buf, r, rfl, hl, ⟨i₀, hi₀, hopen⟩, hov, hfit⟩ := exists_misfit hno
  -- the contents tell the buffer from the others and from the request
  obtain ⟨v, hv⟩ := exists_bound pkt.data pkt.size
  have hls := map_paint_shape (v + 1) l
  have hbl : ∀ b ∈ l, Ranged b.addr b.size := fun b hm => hb b (List.mem_append_left _ hm)
  obtain ⟨f, found, hrun, hiff, -, hfound⟩ := Found.calls hQ (ranged_of_shapes hls hbl) (found_nil pkt)
    ⟨0, hQ.ranged.1, not_covered_nil pkt 0⟩ (hc.of_append.of_shapes rfl hls) (hl.of_shapes rfl hls)
  simp only [List.nil_append] at hopen hfit hiff hfound
  cases found with
  | true => exact hopen ((covered_of_shapes hls).1 (hiff.1 rfl i₀ hi₀))
  | false =>
    have hbuf : (buf.paint v).data = some fun _ => v := by
      obtain ⟨j, -, hj⟩ := hov
      rw [Buffer.covers, Bool.and_eq_true] at hj
      obtain ⟨d, hd⟩ := Option.isSome_iff_exists.1 hj.1
      simp [Buffer.paint, hd]
    have hrange : Ranged (buf.paint v).addr (buf.paint v).size :=
      hb buf (List.mem_append_right _ List.mem_cons_self)
    obtain ⟨i, hi, hbad⟩ := (hfound rfl).misfit hQ
      ⟨hrange, hbuf, by simpa only [covers_of_shape (paint_shape v buf)] using hov⟩
        (fun hf => hfit ((fits_of_shapes hls (paint_shape v buf)).1 hf))
    have hne : f.pkt.data i ≠ v := checkAll_ne (hv i hi).ne (paint_ne (Nat.succ_ne_self v)) hrun
    refine not_reads (Nat.succ_ne_self v) hi hall hrun (fun f' b' found hcall => ?_) (h _ ?_)
    · obtain ⟨hn, hcov, he⟩ | ⟨hcov, hf, k, hk⟩ := hbad f' b' found hcall
      · rw [covered_of_shapes hls] at hn
        rw [covers_of_shape (paint_shape v buf)] at hcov
        exact .inl ⟨hn, hcov, he ▸ hne⟩
      · exact .inr ⟨(covered_of_shapes hls).1 hcov, hf, hk⟩
    · simp only [List.map_append, List.map_cons, map_paint_shape, paint_shape]

end Misfits

/-- A read of eight bytes at address 4. -/
def readEight : Packet := { cmd := .readReq, addr := 4, size := 8, threadID := 0 }

/-- `size` bytes of value `v` from `addr` on. -/
def bufferOf (v addr size : Nat) : Buffer := ⟨addr, size, some fun _ => v⟩

theorem contiguous_cons {pkt : Packet} {b : Buffer} (h : Contiguous pkt [b] bufs) :
    Contiguous pkt [] (b :: bufs) := by
  refine ⟨?_, h⟩
  rintro ⟨i, -, d, hd, -⟩
  cases hd

/-- The first buffer begins before the request and is taken one byte too short, so
that the second does not seem to touch it; and a buffer with the whole request
is copied over the bytes of the one before. -/
theorem sticks_out :
    let halves := [bufferOf 1 0 8, bufferOf 2 8 8]
    let whole := [bufferOf 1 4 4, bufferOf 2 0 16]
    Contiguous readEight [] halves ∧ (∀ i < 8, Covered readEight halves i) ∧
      ({ pkt := readEight } : Functional).checkAll halves = .error .panicked ∧
      Contiguous readEight [] whole ∧
      ∃ f, ({ pkt := readEight } : Functional).checkAll whole = .ok (f, true) ∧
        firstByte readEight whole 0 = some 1 ∧ f.pkt.data 0 = 2 := by
  intro halves whole
  obtain ⟨⟨f, _⟩, hf, rfl, hdata⟩ : ∃ r, ({ pkt := readEight } : Functional).checkAll whole = .ok r ∧ r.2 = true ∧
      r.1.pkt.data 0 = 2 := by
    decide
  refine ⟨contiguous_cons ⟨fun _ _ => ?_, trivial⟩, ?_, error_of_fault (by decide),
    contiguous_cons ⟨fun _ _ => ?_, trivial⟩, f, hf, by decide, hdata⟩
  · unfold Touches Covered
    decide
  · unfold Covered
    decide
  · unfold Touches Covered
    decide

/-- Where the buffers fit, the read does not panic, is satisfied when all bytes are in
the buffers, and has each byte from the first buffer that contains it.  Where they have
all bytes, this is so for all contents of theirs only if they fit. -/
theorem functional_read (pkt : Packet) (bufs : List Buffer) (hread : pkt.isRead = true) (hr : Ranged pkt.addr pkt.size)
    (h16 : pkt.size < 2 ^ 16) (hb : ∀ b ∈ bufs, Ranged b.addr b.size) (hc : Contiguous pkt [] bufs) :
    (AllFit pkt [] bufs → Reads pkt bufs) ∧
      ((∀ i < pkt.size, Covered pkt bufs i) →
        ((∀ bufs', bufs'.map Buffer.shape = bufs.map Buffer.shape → Reads pkt bufs') ↔ AllFit pkt [] bufs)) := by
  have hQ : Readable pkt := ⟨hread, hr, h16⟩
  refine ⟨reads_of_allFit hQ hb hc, fun hall => ⟨fun h => ?_, fun hfit bufs' hs => ?_⟩⟩
  · exact allFit_of_reads hQ hb hc hall h
  · exact reads_of_allFit hQ (ranged_of_shapes hs hb) (hc.of_shapes rfl hs) (hfit.of_shapes rfl hs)

/-- Two bytes, then four of which the last two are these, then the rest. -/
theorem functional_read_pieces :
    let bufs := [bufferOf 1 6 2, bufferOf 2 0 8, bufferOf 3 8 4]
    ∃ f, ({ pkt := readEight } : Functional).checkAll bufs = .ok (f, true) ∧
      ∀ i < 8, firstByte readEight bufs i = some (f.pkt.data i) := by
  intro bufs
  have hall : ∀ i < readEight.size, Covered readEight bufs i := by
    unfold Covered
    decide
  have hc : Contiguous readEight [] bufs := by
    refine contiguous_cons ⟨fun _ _ => ?_, fun _ _ => ?_, trivial⟩
    · unfold Touches Covered
      decide
    · unfold Touches Covered
      decide
  have hfit : AllFit readEight [] bufs := by
    refine .inr ⟨fun _ => .inr (.inl (by decide)), .inr ⟨fun _ => .inr (.inr (.inl ?_)),
      .inr ⟨fun _ => .inr (.inl (by decide)), trivial⟩⟩⟩
    unfold Covered
    decide
  have hb : ∀ b ∈ bufs, Ranged b.addr b.size := by
    unfold Ranged
    decide
  obtain ⟨f, found, hf, hiff, hbytes⟩ :=
    (functional_read readEight bufs rfl ⟨by decide, by decide⟩ (by decide) hb hc).1 hfit
  obtain rfl := hiff.2 hall
  exact ⟨f, hf, hbytes rfl⟩

end DynamicCache.Port
