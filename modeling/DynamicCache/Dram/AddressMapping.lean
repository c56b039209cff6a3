import DynamicCache.Lib.BitFields
import Mathlib.Tactic.Linarith

/-!
# Address mapping (`AddressMapping.cpp`)

The address of a transaction, without the bits inside of a transaction, is taken apart
into channel, rank, bank, row and column.  The schemes differ in the order of the fields.
In `Scheme8` the bank has one bit less than it needs; the missing top bit is not taken
from the address but tells on which side of `0x20000000` the address lies.

Schemes 1 to 7 map different transactions to different places.  `Scheme8` does so only
if the top bank bit tells the lower half of the memory from the upper one
(`addressMapping_injective_iff`).  With `>` it never does when a bank holds more than two
bursts (`HalfThreshold.upperBits_le`): also in the memory of 1 GB that the constant is made
for, `0` and `0x20000000` are the same place (`scheme8_collision`).
-/

namespace DynamicCache.Dram

open Lib

/-! ## Powers of two -/

/-- The iterations of `while (value>0) value >>= 1`. -/
def halvings (value : Nat) : Nat :=
  if 0 < value then halvings (value >>> 1) + 1 else 0
termination_by value
decreasing_by
  rw [Nat.shiftRight_eq_div_pow]
  omega

/-- `dramsim_log2`, which rounds up. -/
def dramsimLog2 (value : Nat) : Nat :=
  let logbase2 := halvings (value >>> 1)
  if 2 ^ logbase2 < value then logbase2 + 1 else logbase2

def isPowerOfTwo (x : Nat) : Prop := 2 ^ dramsimLog2 x = x

theorem halvings_two_pow (k : Nat) : halvings (2 ^ k) = k + 1 := by
  induction k with
  | zero =>
    rw [halvings, if_pos (by decide), show 2 ^ 0 >>> 1 = 0 from rfl, halvings]
    rfl
  | succ k ih =>
    rw [halvings, if_pos (Nat.two_pow_pos _), Nat.shiftRight_eq_div_pow, Nat.pow_one, Nat.pow_succ,
      Nat.mul_div_cancel _ (by decide), ih]

theorem dramsimLog2_two_pow (k : Nat) : dramsimLog2 (2 ^ k) = k := by
  have h : halvings (2 ^ k >>> 1) = k := by
    cases k with
    | zero =>
      rw [show 2 ^ 0 >>> 1 = 0 from rfl, halvings]
      rfl
    | succ k =>
      rw [Nat.shiftRight_eq_div_pow, Nat.pow_one, Nat.pow_succ, Nat.mul_div_cancel _ (by decide), halvings_two_pow]
  unfold dramsimLog2
  rw [h, if_neg (Nat.lt_irrefl _)]

/-! ## The organization of the memory -/

inductive Field where
  | channel
  | rank
  | bank
  | row
  | column
deriving DecidableEq, Repr

inductive AddressMappingScheme where
  | scheme1
  | scheme2
  | scheme3
  | scheme4
  | scheme5
  | scheme6
  | scheme7
  | scheme8
deriving DecidableEq, Repr

/-- The parameters that the mapping reads. -/
structure Organization where
  numChans : Nat
  numRanks : Nat
  numBanks : Nat
  numRows : Nat
  numCols : Nat
  jedecDataBusBits : Nat
  BL : Nat
deriving Repr

namespace Organization

variable (o : Organization)

def count : Field → Nat
  | .channel => o.numChans
  | .rank => o.numRanks
  | .bank => o.numBanks
  | .row => o.numRows
  | .column => o.numCols

/-- Bytes of a transaction; the product is an `unsigned`. -/
def transactionSize : Nat := o.jedecDataBusBits / 8 * o.BL % 2 ^ 32
def byteOffsetWidth : Nat := dramsimLog2 (o.jedecDataBusBits / 8)
def colLowBitWidth : Nat := dramsimLog2 o.transactionSize - o.byteOffsetWidth

/-- The bits of a field; of the column only those above the bits of one burst. -/
def width : Field → Nat
  | .column => dramsimLog2 o.numCols - o.colLowBitWidth
  | f => dramsimLog2 (o.count f)

/-- Bytes of the whole memory. -/
def capacity : Nat :=
  o.numChans * o.numRanks * o.numBanks * o.numRows * o.numCols * (o.jedecDataBusBits / 8)

/-- A memory of powers of two, whose addresses are 64 bits wide. -/
structure Valid : Prop where
  count : ∀ f, isPowerOfTwo (o.count f) ∧ o.count f < 2 ^ 32
  bus : isPowerOfTwo (o.jedecDataBusBits / 8)
  burst : isPowerOfTwo o.BL
  size : o.jedecDataBusBits / 8 * o.BL < 2 ^ 32
  /-- a burst lies in one row -/
  row : o.BL ≤ o.numCols
  /-- `bankBitWidth >= 1` -/
  banks : 2 ≤ o.numBanks
  capacity : o.capacity ≤ 2 ^ 64

/-- The address of a transaction in the memory. -/
structure Address (a : Nat) : Prop where
  aligned : o.transactionSize ∣ a
  lt : a < o.capacity

end Organization

/-! ## The mapping -/

/-- Takes `w` bits off the address into a field, which is an `unsigned`. -/
def takeBits (w : Nat) (f : Field) (s : Nat × (Field → Nat)) : Nat × (Field → Nat) :=
  let tempA := s.1
  let physicalAddress := s.1 >>> w
  let tempB := physicalAddress <<< w
  (physicalAddress, Function.update s.2 f ((tempA ^^^ tempB) % 2 ^ 32))

/-- The fields from the lowest bits up; in `scheme8` the bank without its top bit. -/
def AddressMappingScheme.fields : AddressMappingScheme → List Field
  | .scheme1 => [.bank, .column, .row, .rank, .channel]
  | .scheme2 => [.rank, .bank, .column, .row, .channel]
  | .scheme3 => [.row, .column, .bank, .rank, .channel]
  | .scheme4 => [.column, .row, .bank, .rank, .channel]
  | .scheme5 => [.bank, .rank, .column, .row, .channel]
  | .scheme6 => [.column, .rank, .bank, .row, .channel]
  | .scheme7 => [.channel, .bank, .rank, .column, .row]
  | .scheme8 => [.rank, .bank, .column, .row, .channel]

namespace Organization

variable (o : Organization)

def takeFields (fs : List Field) (s : Nat × (Field → Nat)) : Nat × (Field → Nat) :=
  fs.foldl (fun s f => takeBits (o.width f) f s) s

/-- How far `Scheme8` shifts `0x20000000`. -/
def thresholdShift : Nat := o.colLowBitWidth + o.byteOffsetWidth + o.width .rank + o.width .bank - 1

/-- The fields are not initialised.  The shift of the `int` in `Scheme8` is undefined for
32 bits and more. -/
def addressMapping (scheme : AddressMappingScheme) (physicalAddress : Nat) (fields : Field → Nat) :
    Option (Field → Nat) :=
  let s := (physicalAddress >>> o.byteOffsetWidth >>> o.colLowBitWidth, fields)
  if scheme = .scheme8 then
    let s := takeBits (o.width .rank) .rank s
    let s := takeBits (o.width .bank - 1) .bank s
    if o.thresholdShift < 32 then
      let s := if s.1 > 0x20000000 >>> o.thresholdShift then
          (s.1, Function.update s.2 .bank (s.2 .bank + 1 <<< (o.width .bank - 1)))
        else s
      some (o.takeFields [.column, .row, .channel] s).2
    else none
  else some (o.takeFields scheme.fields s).2

end Organization

/-! ## Fields -/

theorem xor_shiftLeft_shiftRight (n w : Nat) : n ^^^ (n >>> w) <<< w = n % 2 ^ w := by
  refine Nat.eq_of_testBit_eq fun i => ?_
  by_cases hi : w ≤ i
  · simp [hi, Nat.not_lt.2 hi]
  · simp [hi, Nat.lt_of_not_le hi]

theorem takeBits_eq {w : Nat} (hw : w < 32) (f : Field) (n : Nat) (v : Field → Nat) :
    takeBits w f (n, v) = (n / 2 ^ w, Function.update v f (n % 2 ^ w)) := by
  have hlt : n % 2 ^ w < 2 ^ 32 :=
    (Nat.mod_lt n (Nat.two_pow_pos w)).trans (Nat.pow_lt_pow_right (by decide) hw)
  unfold takeBits
  dsimp only
  rw [xor_shiftLeft_shiftRight, Nat.mod_eq_of_lt hlt, Nat.shiftRight_eq_div_pow]

namespace Organization

variable {o : Organization} {scheme : AddressMappingScheme} {n : Nat} {v : Field → Nat}

theorem takeFields_eq (hw : ∀ f, o.width f < 32) (fs : List Field) (n : Nat) (v : Field → Nat) :
    o.takeFields fs (n, v) = peel o.width fs n v := by
  induction fs generalizing n v with
  | nil => rfl
  | cons f fs ih =>
    rw [peel, ← ih, takeFields, List.foldl_cons, takeBits_eq (hw f)]
    rfl

/-! ## Widths -/

theorem width_le (o : Organization) (f : Field) : o.width f ≤ dramsimLog2 (o.count f) := by
  cases f with
  | column => exact Nat.sub_le _ _
  | _ => exact Nat.le_refl _

namespace Valid

variable (h : o.Valid)
include h

theorem two_pow_count (f : Field) : 2 ^ dramsimLog2 (o.count f) = o.count f := (h.count f).1

theorem two_pow_byteOffsetWidth : 2 ^ o.byteOffsetWidth = o.jedecDataBusBits / 8 := h.bus

theorem transactionSize_eq : o.transactionSize = 2 ^ (o.byteOffsetWidth + dramsimLog2 o.BL) := by
  rw [transactionSize, Nat.mod_eq_of_lt h.size, Nat.pow_add, h.two_pow_byteOffsetWidth, show 2 ^ _ = o.BL from h.burst]

theorem colLowBitWidth_eq : o.colLowBitWidth = dramsimLog2 o.BL := by
  rw [colLowBitWidth, h.transactionSize_eq, dramsimLog2_two_pow, Nat.add_sub_cancel_left]

theorem colLowBitWidth_le : o.colLowBitWidth ≤ dramsimLog2 o.numCols := by
  rw [h.colLowBitWidth_eq]
  refine (Nat.pow_le_pow_iff_right (show 1 < 2 by decide)).1 ?_
  rw [show 2 ^ dramsimLog2 o.BL = o.BL from h.burst, show 2 ^ dramsimLog2 o.numCols = _ from h.two_pow_count .column]
  exact h.row

theorem two_pow_width_le (f : Field) : 2 ^ o.width f ≤ o.count f :=
  (Nat.pow_le_pow_right (by decide) (o.width_le f)).trans_eq (h.two_pow_count f)

theorem width_lt (f : Field) : o.width f < 32 :=
  (Nat.pow_lt_pow_iff_right (show 1 < 2 by decide)).1 ((h.two_pow_width_le f).trans_lt (h.count f).2)

theorem width_bank_pos : 1 ≤ o.width .bank := by
  have hb : 2 ^ o.width .bank = o.numBanks := h.two_pow_count .bank
  have := h.banks
  rcases Nat.eq_zero_or_pos (o.width .bank) with h0 | h0
  · rw [h0] at hb
    omega
  · exact h0

theorem capacity_eq (scheme : AddressMappingScheme) :
    o.capacity = o.transactionSize * 2 ^ bits o.width scheme.fields := by
  have hperm : scheme.fields.Perm [.channel, .rank, .bank, .row, .column] := by
    cases scheme <;> decide
  have hcol : 2 ^ o.width .column * 2 ^ dramsimLog2 o.BL = o.numCols := by
    have hle := h.colLowBitWidth_le
    rw [← Nat.pow_add, width, ← h.colLowBitWidth_eq, Nat.sub_add_cancel hle]
    exact h.two_pow_count .column
  have hsize : o.transactionSize = o.jedecDataBusBits / 8 * 2 ^ dramsimLog2 o.BL := by
    rw [h.transactionSize_eq, Nat.pow_add, h.two_pow_byteOffsetWidth]
  rw [bits_perm hperm, hsize, Organization.capacity, ← hcol]
  simp only [bits_cons, bits_nil, Nat.pow_add]
  rw [show 2 ^ o.width .channel = o.numChans from h.two_pow_count .channel,
    show 2 ^ o.width .rank = o.numRanks from h.two_pow_count .rank,
    show 2 ^ o.width .bank = o.numBanks from h.two_pow_count .bank,
    show 2 ^ o.width .row = o.numRows from h.two_pow_count .row]
  ring

/-- What is left of an address when the bits inside of a transaction are gone. -/
theorem shifts_eq (a : Nat) : a >>> o.byteOffsetWidth >>> o.colLowBitWidth = a / o.transactionSize := by
  rw [Nat.shiftRight_eq_div_pow, Nat.shiftRight_eq_div_pow, Nat.div_div_eq_div_mul, ← Nat.pow_add,
    h.transactionSize_eq, h.colLowBitWidth_eq]

theorem addressMapping_eq (hs : scheme ≠ .scheme8) (a : Nat) (v : Field → Nat) :
    o.addressMapping scheme a v = some (peel o.width scheme.fields (a / o.transactionSize) v).2 := by
  simp only [addressMapping, if_neg hs, h.shifts_eq, takeFields_eq h.width_lt]

end Valid

/-! ## `Scheme8` -/

/-- The widths of `Scheme8`, whose bank lacks its top bit. -/
def width8 (o : Organization) : Field → Nat := Function.update o.width .bank (o.width .bank - 1)

/-- The bits above the bank in `Scheme8`. -/
def upperBits (o : Organization) : Nat := bits o.width [.column, .row, .channel]

/-- The bits of rank and bank in `Scheme8`. -/
def lowerBits (o : Organization) : Nat := o.width .rank + (o.width .bank - 1)

/-- The top bit of the bank in `Scheme8`. -/
def AboveThreshold (o : Organization) (n : Nat) : Prop := 0x20000000 >>> o.thresholdShift < n / 2 ^ o.lowerBits

instance (o : Organization) (n : Nat) : Decidable (o.AboveThreshold n) := inferInstanceAs (Decidable (_ < _))

/-- The place `Scheme8` maps to without the top bit of the bank. -/
def peel8 (o : Organization) (n : Nat) (v : Field → Nat) : Field → Nat :=
  (peel o.width8 AddressMappingScheme.scheme8.fields n v).2

theorem bits_width8 (o : Organization) :
    bits o.width8 AddressMappingScheme.scheme8.fields = o.lowerBits + o.upperBits := by
  simp [AddressMappingScheme.fields, width8, lowerBits, upperBits, Nat.add_assoc]

theorem Valid.bits_scheme8 (h : o.Valid) :
    bits o.width AddressMappingScheme.scheme8.fields = o.lowerBits + o.upperBits + 1 := by
  have := h.width_bank_pos
  simp only [AddressMappingScheme.fields, lowerBits, upperBits, bits_cons]
  omega

theorem Valid.addressMapping_scheme8 (h : o.Valid) (hk : o.thresholdShift < 32) (a : Nat) (v : Field → Nat) :
    o.addressMapping .scheme8 a v = some (Function.update (o.peel8 (a / o.transactionSize) v) .bank
      (o.peel8 (a / o.transactionSize) v .bank +
        if o.AboveThreshold (a / o.transactionSize) then 2 ^ (o.width .bank - 1) else 0)) := by
  have hb : o.width .bank - 1 < 32 := (Nat.sub_le _ _).trans_lt (h.width_lt .bank)
  have hrest : ∀ n v, peel o.width [.column, .row, .channel] n v = peel o.width8 [.column, .row, .channel] n v :=
    fun n v => peel_congr (by simp [width8]) n v
  generalize hn : a / o.transactionSize = n
  have hpeel : o.peel8 n v = (peel o.width8 [.column, .row, .channel] (peel o.width8 [.rank, .bank] n v).1
      (peel o.width8 [.rank, .bank] n v).2).2 := by
    rfl
  have htwo : takeBits (o.width .bank - 1) .bank (takeBits (o.width .rank) .rank (n, v)) =
      peel o.width8 [.rank, .bank] n v := by
    rw [takeBits_eq (h.width_lt .rank), takeBits_eq hb]
    simp [peel, width8]
  have habove : (peel o.width8 [.rank, .bank] n v).1 = n / 2 ^ o.lowerBits := by
    rw [peel_fst]
    simp [width8, lowerBits]
  have hbank : o.peel8 n v .bank = (peel o.width8 [.rank, .bank] n v).2 .bank := by
    rw [hpeel, peel_of_notMem (by decide)]
  simp only [addressMapping, if_true, h.shifts_eq, hn, htwo, if_pos hk, Option.some.injEq, gt_iff_lt]
  rw [habove, hbank]
  change (o.takeFields _ (if o.AboveThreshold n then _ else _)).2 = _
  by_cases hc : o.AboveThreshold n
  · rw [if_pos hc, if_pos hc, takeFields_eq h.width_lt, hrest, peel_update (by decide), hpeel, habove,
      Nat.one_shiftLeft]
  · rw [if_neg hc, if_neg hc, Nat.add_zero, ← hbank, Function.update_eq_self, hpeel, ← hrest,
      ← takeFields_eq h.width_lt]

/-- Two addresses are mapped to one place when they agree but for the top bit, and lie on
the same side of the threshold. -/
theorem Valid.scheme8_eq_iff (h : o.Valid) (hk : o.thresholdShift < 32) (a b : Nat) (v u : Field → Nat) :
    o.addressMapping .scheme8 a v = o.addressMapping .scheme8 b u ↔
      a / o.transactionSize % 2 ^ (o.lowerBits + o.upperBits) =
          b / o.transactionSize % 2 ^ (o.lowerBits + o.upperBits) ∧
        (o.AboveThreshold (a / o.transactionSize) ↔ o.AboveThreshold (b / o.transactionSize)) := by
  have hmem : ∀ f, f ∈ AddressMappingScheme.scheme8.fields := by
    intro f
    cases f <;> decide
  have hlt : ∀ n v, o.peel8 n v .bank < 2 ^ (o.width .bank - 1) := by
    intro n v
    have := peel_lt (w := o.width8) (hmem .bank) n v
    simpa [width8, peel8] using this
  rw [h.addressMapping_scheme8 hk, h.addressMapping_scheme8 hk, ← o.bits_width8,
    ← peel_eq_iff (w := o.width8) (by decide) (v := v) (u := u), Option.some.injEq]
  generalize a / o.transactionSize = n
  generalize b / o.transactionSize = m
  have hn := hlt n v
  have hm := hlt m u
  constructor
  · intro he
    have hbank := congrFun he .bank
    rw [Function.update_self, Function.update_self] at hbank
    have hlow : o.peel8 n v .bank = o.peel8 m u .bank ∧ (o.AboveThreshold n ↔ o.AboveThreshold m) := by
      by_cases h1 : o.AboveThreshold n
      · by_cases h2 : o.AboveThreshold m
        · rw [if_pos h1, if_pos h2] at hbank
          exact ⟨Nat.add_right_cancel hbank, fun _ => h2, fun _ => h1⟩
        · rw [if_pos h1, if_neg h2] at hbank
          omega
      · by_cases h2 : o.AboveThreshold m
        · rw [if_neg h1, if_pos h2] at hbank
          omega
        · rw [if_neg h1, if_neg h2] at hbank
          exact ⟨hbank, fun h => absurd h h1, fun h => absurd h h2⟩
    refine ⟨fun f _ => ?_, hlow.2⟩
    by_cases hf : f = .bank
    · rw [hf]
      exact hlow.1
    · have := congrFun he f
      rwa [Function.update_of_ne hf, Function.update_of_ne hf] at this
  · rintro ⟨hf, habove⟩
    have hpeel : o.peel8 n v = o.peel8 m u := funext fun f => hf f (hmem f)
    rw [hpeel, if_congr habove rfl rfl]

/-- Numbers with one bit more than the fields of `Scheme8` are told apart by the threshold
exactly if it lies in the middle. -/
theorem threshold_separates_iff (t r k : Nat) :
    (∀ n m, n < 2 ^ (r + k + 1) → m < 2 ^ (r + k + 1) → n % 2 ^ (r + k) = m % 2 ^ (r + k) →
        (t < n / 2 ^ r ↔ t < m / 2 ^ r) → n = m) ↔ t + 1 = 2 ^ k := by
  have hr : 0 < 2 ^ r := Nat.two_pow_pos r
  have hprod : 2 ^ (r + k) = 2 ^ r * 2 ^ k := Nat.pow_add 2 r k
  have hpos : 0 < 2 ^ (r + k) := Nat.two_pow_pos _
  constructor
  · intro hsep
    by_contra hne
    rcases Nat.lt_or_gt_of_ne hne with hlt | hgt
    · -- both halves lie above the threshold
      have hn : (t + 1) * 2 ^ r < 2 ^ (r + k) := by
        rw [hprod, Nat.mul_comm]
        exact Nat.mul_lt_mul_of_pos_left hlt hr
      have := hsep ((t + 1) * 2 ^ r) ((t + 1) * 2 ^ r + 2 ^ (r + k)) (by omega) (by omega)
        (by rw [Nat.add_mod_right]) (by
          rw [hprod, Nat.add_mul_div_left _ _ hr, Nat.mul_div_cancel _ hr]
          omega)
      omega
    · -- both halves start below it
      have := hsep 0 (2 ^ (r + k)) (by omega) (by omega) (by simp) (by
        rw [hprod, Nat.mul_div_cancel_left _ hr, Nat.zero_div]
        omega)
      omega
  · intro ht n m hn hm hmod hside
    have hhalf : ∀ x, t < x / 2 ^ r ↔ 2 ^ (r + k) ≤ x := by
      intro x
      rw [hprod, ← Nat.succ_le_iff, Nat.succ_eq_add_one, ht, Nat.le_div_iff_mul_le hr, Nat.mul_comm]
    rw [hhalf, hhalf] at hside
    have hcases : ∀ x, x < 2 ^ (r + k + 1) → x % 2 ^ (r + k) = if 2 ^ (r + k) ≤ x then x - 2 ^ (r + k) else x := by
      intro x hx
      split
      · next hle => rw [Nat.mod_eq_sub_mod hle, Nat.mod_eq_of_lt (by omega)]
      · next hlt => exact Nat.mod_eq_of_lt (by omega)
    rw [hcases n hn, hcases m hm] at hmod
    by_cases hle : 2 ^ (r + k) ≤ n
    · rw [if_pos hle, if_pos (hside.1 hle)] at hmod
      omega
    · rw [if_neg hle, if_neg fun h => hle (hside.2 h)] at hmod
      exact hmod

/-! ## Different transactions, different places -/

/-- The addresses of the transactions are the multiples of their size. -/
theorem Valid.address_iff (h : o.Valid) (scheme : AddressMappingScheme) (a : Nat) :
    o.Address a ↔ ∃ n < 2 ^ bits o.width scheme.fields, a = o.transactionSize * n := by
  have hpos : 0 < o.transactionSize := by
    rw [h.transactionSize_eq]
    exact Nat.two_pow_pos _
  constructor
  · rintro ⟨⟨n, rfl⟩, hlt⟩
    rw [h.capacity_eq scheme] at hlt
    exact ⟨n, Nat.lt_of_mul_lt_mul_left hlt, rfl⟩
  · rintro ⟨n, hn, rfl⟩
    refine ⟨⟨n, rfl⟩, ?_⟩
    rw [h.capacity_eq scheme]
    exact Nat.mul_lt_mul_of_pos_left hn hpos

/-- Different transactions are mapped to different places, which exist. -/
structure Injective (o : Organization) (scheme : AddressMappingScheme) : Prop where
  ne : ∀ a b v u, o.Address a → o.Address b → a ≠ b → o.addressMapping scheme a v ≠ o.addressMapping scheme b u
  lt : ∀ a v, o.Address a → ∃ p, o.addressMapping scheme a v = some p ∧ ∀ f, p f < o.count f

/-- `0x20000000`, counted in steps of the bits above the bank, is the last one of the lower half. -/
def HalfThreshold (o : Organization) : Prop :=
  o.thresholdShift < 32 ∧ 0x20000000 >>> o.thresholdShift + 1 = 2 ^ o.upperBits

theorem Valid.injective_of_ne (h : o.Valid) (hs : scheme ≠ .scheme8) : o.Injective scheme where
  ne a b v u ha hb hne he := by
    obtain ⟨n, hn, rfl⟩ := (h.address_iff scheme a).1 ha
    obtain ⟨m, hm, rfl⟩ := (h.address_iff scheme b).1 hb
    have hpos : 0 < o.transactionSize := by
      rw [h.transactionSize_eq]
      exact Nat.two_pow_pos _
    rw [h.addressMapping_eq hs, h.addressMapping_eq hs, Option.some.injEq, Nat.mul_div_cancel_left _ hpos,
      Nat.mul_div_cancel_left _ hpos] at he
    have hnodup : scheme.fields.Nodup := by cases scheme <;> decide
    have hmod := (peel_eq_iff hnodup).1 fun f _ => congrFun he f
    rw [Nat.mod_eq_of_lt hn, Nat.mod_eq_of_lt hm] at hmod
    exact hne (by rw [hmod])
  lt a v _ := by
    refine ⟨_, h.addressMapping_eq hs a v, fun f => ?_⟩
    have hmem : f ∈ scheme.fields := by cases scheme <;> cases f <;> decide
    exact (peel_lt hmem _ _).trans_le (h.two_pow_width_le f)

theorem Valid.scheme8_lt (h : o.Valid) (hk : o.thresholdShift < 32) (a : Nat) (v : Field → Nat) :
    ∃ p, o.addressMapping .scheme8 a v = some p ∧ ∀ f, p f < o.count f := by
  refine ⟨_, h.addressMapping_scheme8 hk a v, fun f => ?_⟩
  have hmem : f ∈ AddressMappingScheme.scheme8.fields := by cases f <;> decide
  have hlt := peel_lt (w := o.width8) hmem (a / o.transactionSize) v
  have hle := h.two_pow_width_le f
  by_cases hf : f = .bank
  · subst hf
    rw [Function.update_self]
    have hhalf : 2 ^ o.width .bank = 2 ^ (o.width .bank - 1) + 2 ^ (o.width .bank - 1) := by
      rw [← Nat.two_mul, ← Nat.pow_succ', Nat.succ_eq_add_one, Nat.sub_add_cancel h.width_bank_pos]
    have hlow : o.peel8 (a / o.transactionSize) v .bank < 2 ^ (o.width .bank - 1) := hlt
    split <;> omega
  · rw [Function.update_of_ne hf]
    rw [width8, Function.update_of_ne hf] at hlt
    exact lt_of_lt_of_le hlt hle

theorem Valid.scheme8_iff (h : o.Valid) : o.Injective .scheme8 ↔ o.HalfThreshold := by
  by_cases hk : o.thresholdShift < 32
  · have hpos : 0 < o.transactionSize := by
      rw [h.transactionSize_eq]
      exact Nat.two_pow_pos _
    rw [HalfThreshold, and_iff_right hk, ← threshold_separates_iff _ o.lowerBits, ← h.bits_scheme8]
    constructor
    · intro hi n m hn hm hmod hside
      by_contra hne
      have ha := (h.address_iff .scheme8 _).2 ⟨n, hn, rfl⟩
      have hb := (h.address_iff .scheme8 _).2 ⟨m, hm, rfl⟩
      refine hi.ne _ _ (fun _ => 0) (fun _ => 0) ha hb (fun he => hne (Nat.eq_of_mul_eq_mul_left hpos he)) ?_
      rw [h.scheme8_eq_iff hk, Nat.mul_div_cancel_left _ hpos, Nat.mul_div_cancel_left _ hpos]
      exact ⟨hmod, hside⟩
    · intro hsep
      refine ⟨fun a b v u ha hb hne he => ?_, fun a v _ => h.scheme8_lt hk a v⟩
      obtain ⟨n, hn, rfl⟩ := (h.address_iff .scheme8 a).1 ha
      obtain ⟨m, hm, rfl⟩ := (h.address_iff .scheme8 b).1 hb
      rw [h.scheme8_eq_iff hk, Nat.mul_div_cancel_left _ hpos, Nat.mul_div_cancel_left _ hpos] at he
      exact hne (by rw [hsep n m hn hm he.1 he.2])
  · -- there is no result at all
    constructor
    · intro hi
      have h0 := (h.address_iff .scheme8 _).2 ⟨0, Nat.two_pow_pos _, rfl⟩
      obtain ⟨p, hp, -⟩ := hi.lt _ (fun _ => 0) h0
      simp only [addressMapping, if_true, if_neg hk] at hp
      cases hp
    · exact fun hh => absurd hh.1 hk

/-- Schemes 1 to 7 map different transactions to different places of every memory;
`Scheme8` only if its threshold separates the halves of the memory. -/
theorem addressMapping_injective_iff (o : Organization) (h : o.Valid) (scheme : AddressMappingScheme) :
    o.Injective scheme ↔ (scheme = .scheme8 → o.HalfThreshold) := by
  by_cases hs : scheme = .scheme8
  · subst hs
    rw [h.scheme8_iff]
    exact ⟨fun hh _ => hh, fun hh => hh rfl⟩
  · exact ⟨fun _ hs' => absurd hs' hs, fun _ => h.injective_of_ne hs⟩

/-- One rank of `DDR3_micron_16M_8B_x8_sg15.ini` on a bus of 64 bits: 1 GB. -/
def oneGigabyte : Organization where
  numChans := 1
  numRanks := 1
  numBanks := 8
  numRows := 16384
  numCols := 1024
  jedecDataBusBits := 64
  BL := 8

theorem isPowerOfTwo_two_pow (k : Nat) : isPowerOfTwo (2 ^ k) := by rw [isPowerOfTwo, dramsimLog2_two_pow]

theorem oneGigabyte_valid : oneGigabyte.Valid where
  count f := by
    cases f with
    | channel => exact ⟨isPowerOfTwo_two_pow 0, by decide⟩
    | rank => exact ⟨isPowerOfTwo_two_pow 0, by decide⟩
    | bank => exact ⟨isPowerOfTwo_two_pow 3, by decide⟩
    | row => exact ⟨isPowerOfTwo_two_pow 14, by decide⟩
    | column => exact ⟨isPowerOfTwo_two_pow 10, by decide⟩
  bus := isPowerOfTwo_two_pow 3
  burst := isPowerOfTwo_two_pow 3
  size := by decide
  row := by decide
  banks := by decide
  capacity := by decide

theorem oneGigabyte_widths :
    oneGigabyte.transactionSize = 64 ∧ oneGigabyte.thresholdShift = 8 ∧ oneGigabyte.lowerBits = 2 ∧
      oneGigabyte.upperBits = 21 := by
  have hbus : oneGigabyte.byteOffsetWidth = 3 := dramsimLog2_two_pow 3
  have hlow : oneGigabyte.colLowBitWidth = 3 := oneGigabyte_valid.colLowBitWidth_eq.trans (dramsimLog2_two_pow 3)
  have hone : dramsimLog2 1 = 0 := dramsimLog2_two_pow 0
  have hbank : dramsimLog2 8 = 3 := dramsimLog2_two_pow 3
  have hrow : dramsimLog2 16384 = 14 := dramsimLog2_two_pow 14
  have hcol : dramsimLog2 1024 = 10 := dramsimLog2_two_pow 10
  refine ⟨rfl, ?_, ?_, ?_⟩
  · rw [thresholdShift, hbus, hlow]
    simp [width, count, oneGigabyte, hone, hbank]
  · simp [lowerBits, width, count, oneGigabyte, hone, hbank]
  · simp only [upperBits, bits_cons, bits_nil, width, hlow]
    simp [count, oneGigabyte, hone, hrow, hcol]

/-- In a memory of 1 GB the first transaction of the upper half has the place of the
first one of all. -/
theorem scheme8_collision :
    oneGigabyte.Valid ∧ oneGigabyte.Address 0 ∧ oneGigabyte.Address 0x20000000 ∧
      ∀ v, oneGigabyte.addressMapping .scheme8 0x20000000 v = oneGigabyte.addressMapping .scheme8 0 v := by
  obtain ⟨hsize, hshift, hlower, hupper⟩ := oneGigabyte_widths
  refine ⟨oneGigabyte_valid, ⟨⟨0, rfl⟩, by decide⟩, ⟨⟨0x800000, by rw [hsize]⟩, by decide⟩, fun v => ?_⟩
  rw [oneGigabyte_valid.scheme8_eq_iff (by rw [hshift]; decide), AboveThreshold, AboveThreshold, hsize, hshift,
    hlower, hupper]
  decide

theorem addressMapping_injective_oneGigabyte :
    oneGigabyte.Valid ∧ oneGigabyte.Injective .scheme2 ∧ ¬oneGigabyte.Injective .scheme8 := by
  refine ⟨oneGigabyte_valid, ?_, ?_⟩
  · exact (addressMapping_injective_iff oneGigabyte oneGigabyte_valid .scheme2).2 (by simp)
  · rw [addressMapping_injective_iff oneGigabyte oneGigabyte_valid .scheme8]
    obtain ⟨-, hshift, -, hupper⟩ := oneGigabyte_widths
    rw [HalfThreshold, hshift, hupper]
    decide

end Organization

end DynamicCache.Dram
