import DoChain.Lib.Outcome
import DoChain.Lib.HalfEven

/- The fixed-point decimals the chain computes with (`cosmossdk.io/math`).

   A `LegacyDec` is an integer `i` standing for `i / 10^18`. Sums, products and
   quotients panic when the result has more than 256 bits before the point, a
   quotient panics on a zero divisor, products and quotients round half to even,
   and the integer quotients truncate. `sdkmath.Int` is an unbounded `Int` here,
   with its 256-bit check made where the source's operation makes it. -/

namespace Sdk

/-- A decimal with 18 digits after the point. -/
structure LegacyDec where
  i : Int
  deriving DecidableEq, Repr

/-- `int64` arithmetic wraps around. -/
def wrap64 (n : Int) : Int := Int.bmod n (2 ^ 64)

theorem wrap64_eq {n : Int} (h₁ : -2 ^ 63 ≤ n) (h₂ : n < 2 ^ 63) : wrap64 n = n := by
  unfold wrap64
  rw [Int.bmod_eq_of_le] <;> norm_num at * <;> omega

/-- The `int64` that a `uint64` is converted to. -/
theorem wrap64_uint64 {n : Nat} (h : n < 2 ^ 64) :
    wrap64 n = if n < 2 ^ 63 then (n : Int) else n - 2 ^ 64 := by
  unfold wrap64 Int.bmod
  push_cast
  split_ifs <;> omega

/-- `Int.Int64` panics on a number that is none. -/
def int64 {ε : Type} (n : Int) : Outcome ε Int :=
  if -2 ^ 63 ≤ n ∧ n < 2 ^ 63 then .ok n else .panic "Int64() out of bound"

theorem int64_eq_ok {ε : Type} {n m : Int} :
    (int64 n : Outcome ε Int) = .ok m ↔ (-2 ^ 63 ≤ n ∧ n < 2 ^ 63) ∧ m = n := by
  unfold int64
  split <;> simp_all [eq_comm]

/-- `sdk.DefaultPowerReduction`: the tokens of one unit of power. -/
def powerReduction : Nat := 10 ^ 6

def tokensToConsensusPower {ε : Type} (tokens : Nat) : Outcome ε Int := int64 (tokens / powerReduction : Nat)

/-- The check of `sdkmath.Int`: at most 256 bits. -/
def checkInt {ε : Type} (n : Int) : Outcome ε Int :=
  if n.natAbs < 2 ^ 256 then .ok n else .panic "Int overflow"

@[simp] theorem checkInt_eq_ok {ε : Type} {n m : Int} :
    (checkInt n : Outcome ε Int) = .ok m ↔ n.natAbs < 2 ^ 256 ∧ n = m := by
  unfold checkInt
  split <;> simp_all

namespace LegacyDec

/-- `10^18`, what `1` is stored as. -/
def precision : Nat := 10 ^ 18

theorem precision_pos : 0 < precision := by unfold precision; norm_num

def zero : LegacyDec := ⟨0⟩
def one : LegacyDec := ⟨precision⟩

/-- `LegacyNewDecFromInt`. -/
def ofInt (n : Int) : LegacyDec := ⟨n * precision⟩

instance : LE LegacyDec := ⟨fun a b => a.i ≤ b.i⟩
instance : LT LegacyDec := ⟨fun a b => a.i < b.i⟩
instance (a b : LegacyDec) : Decidable (a ≤ b) := inferInstanceAs (Decidable (a.i ≤ b.i))
instance (a b : LegacyDec) : Decidable (a < b) := inferInstanceAs (Decidable (a.i < b.i))

theorem le_def {a b : LegacyDec} : a ≤ b ↔ a.i ≤ b.i := Iff.rfl
theorem lt_def {a b : LegacyDec} : a < b ↔ a.i < b.i := Iff.rfl

theorem le_antisymm {a b : LegacyDec} (hab : a ≤ b) (hba : b ≤ a) : a = b := by
  show (⟨a.i⟩ : LegacyDec) = ⟨b.i⟩
  rw [Int.le_antisymm hab hba]

def IsPositive (d : LegacyDec) : Prop := 0 < d.i
instance (d : LegacyDec) : Decidable d.IsPositive := inferInstanceAs (Decidable (0 < d.i))

def IsNegative (d : LegacyDec) : Prop := d.i < 0
instance (d : LegacyDec) : Decidable d.IsNegative := inferInstanceAs (Decidable (d.i < 0))

/-- The range of a decimal, `IsInValidRange`: 256 bits before the point and 18 digits after it. -/
def Fits (n : Int) : Prop := n.natAbs < 2 ^ 256 * 10 ^ 18
instance (n : Int) : Decidable (Fits n) := inferInstanceAs (Decidable (n.natAbs < 2 ^ 256 * 10 ^ 18))

theorem fits_iff {n : Int} : Fits n ↔ -(2 ^ 256 * 10 ^ 18) < n ∧ n < 2 ^ 256 * 10 ^ 18 := by
  unfold Fits
  omega

theorem fits_zero : Fits 0 := by
  rw [fits_iff]
  omega

theorem Fits.of_abs_le {n m : Int} (h : n.natAbs ≤ m.natAbs) (hm : Fits m) : Fits n :=
  lt_of_le_of_lt h hm

variable {ε : Type}

/-- The range check that ends a sum, a product or a quotient. -/
def check (n : Int) : Outcome ε LegacyDec :=
  if Fits n then .ok ⟨n⟩ else .panic "Int overflow"

@[simp] theorem check_eq_ok {n : Int} {d : LegacyDec} :
    (check n : Outcome ε LegacyDec) = .ok d ↔ Fits n ∧ d = ⟨n⟩ := by
  unfold check
  split <;> simp_all [eq_comm]

@[simp] theorem noPanic_check {n : Int} : (check n : Outcome ε LegacyDec).NoPanic ↔ Fits n := by
  unfold check
  split <;> simp_all

/-- `chopPrecisionAndRound`: drop 18 digits, rounding half to even. -/
def chopPrecisionAndRound (n : Int) : Int := HalfEven.div n precision

def add (a b : LegacyDec) : Outcome ε LegacyDec := check (a.i + b.i)

def sub (a b : LegacyDec) : Outcome ε LegacyDec := check (a.i - b.i)

/-- The stored integer of a product, before its range check. -/
def mulRaw (a b : LegacyDec) : Int := chopPrecisionAndRound (a.i * b.i)

def mul (a b : LegacyDec) : Outcome ε LegacyDec := check (mulRaw a b)

/-- The stored integer of a quotient, before its range check: 36 digits are
appended, the division truncates, and 18 digits are rounded off. -/
def quoRaw (a b : LegacyDec) : Int :=
  chopPrecisionAndRound ((a.i * (precision * precision : Nat)).tdiv b.i)

def quo (a b : LegacyDec) : Outcome ε LegacyDec :=
  if b.i = 0 then .panic "division by zero" else check (quoRaw a b)

@[simp] theorem quo_eq_ok {a b d : LegacyDec} :
    (quo a b : Outcome ε LegacyDec) = .ok d ↔ b.i ≠ 0 ∧ Fits (quoRaw a b) ∧ d = ⟨quoRaw a b⟩ := by
  unfold quo
  split <;> simp_all

@[simp] theorem noPanic_quo {a b : LegacyDec} :
    (quo a b : Outcome ε LegacyDec).NoPanic ↔ b.i ≠ 0 ∧ Fits (quoRaw a b) := by
  unfold quo
  split <;> simp_all

/-- `QuoInt64` truncates and checks nothing but its divisor. -/
def quoInt64 (a : LegacyDec) (n : Int) : Outcome ε LegacyDec :=
  if n = 0 then .panic "division by zero" else .ok ⟨a.i.tdiv n⟩

/-- `QuoInt`: the same division, by an `sdkmath.Int`. -/
def quoInt : LegacyDec → Int → Outcome ε LegacyDec := quoInt64

def mulInt (a : LegacyDec) (n : Int) : Outcome ε LegacyDec := check (a.i * n)

/-- `TruncateInt`, with the 256-bit check of the integer it makes. -/
def truncateInt (a : LegacyDec) : Outcome ε Int := checkInt (a.i.tdiv precision)

/-- `RoundInt`, with the 256-bit check of the integer it makes. -/
def roundInt (a : LegacyDec) : Outcome ε Int := checkInt (chopPrecisionAndRound a.i)

/-! ## Rounding errors -/

/-- A decimal that rounds to an integer of 256 bits is in range. -/
theorem fits_of_round_lt {n : Int} (h : (chopPrecisionAndRound n).natAbs < 2 ^ 256) : Fits n := by
  have hup := HalfEven.two_mul_div_le n precision_pos
  have hlow := HalfEven.le_two_mul_div n precision_pos
  have hprec : (precision : Int) = 10 ^ 18 := rfl
  unfold chopPrecisionAndRound at h
  rw [hprec] at hup hlow
  rw [fits_iff]
  omega

/-- A product is within half a unit of the exact one. -/
theorem mulRaw_bounds (a b : LegacyDec) :
    2 * (mulRaw a b * precision) ≤ 2 * (a.i * b.i) + precision ∧
    2 * (a.i * b.i) ≤ 2 * (mulRaw a b * precision) + precision :=
  ⟨HalfEven.two_mul_div_le _ precision_pos, HalfEven.le_two_mul_div _ precision_pos⟩

theorem mulRaw_nonneg {a b : LegacyDec} (ha : 0 ≤ a.i) (hb : 0 ≤ b.i) : 0 ≤ mulRaw a b :=
  HalfEven.div_nonneg (Int.mul_nonneg ha hb)

/-- A part of an amount is not more than it. -/
theorem mulRaw_le_self {a share : LegacyDec} (ha : 0 ≤ a.i) (hshare : share.i ≤ precision) : mulRaw a share ≤ a.i :=
  HalfEven.div_le_of_le_mul precision_pos (Int.mul_le_mul_of_nonneg_left hshare ha)

@[simp] theorem mulRaw_ofInt (n : Int) (b : LegacyDec) : mulRaw (ofInt n) b = n * b.i := by
  have h : (ofInt n).i * b.i = n * b.i * precision := by simp only [ofInt]; ring
  rw [mulRaw, h]
  exact HalfEven.div_mul_self _ precision_pos

@[simp] theorem mulRaw_zero_left (b : LegacyDec) : mulRaw ⟨0⟩ b = 0 := by
  simp [mulRaw, chopPrecisionAndRound]

@[simp] theorem quoRaw_zero_left (b : LegacyDec) : quoRaw ⟨0⟩ b = 0 := by
  simp [quoRaw, chopPrecisionAndRound]

@[simp] theorem mulRaw_one (a : LegacyDec) : mulRaw a one = a.i := by
  unfold mulRaw one
  exact HalfEven.div_mul_self _ precision_pos

@[simp] theorem quoRaw_one (a : LegacyDec) : quoRaw a one = a.i := by
  have hp : (precision : Int) ≠ 0 := by have := precision_pos; omega
  have h : a.i * (precision * precision : Nat) = a.i * precision * precision := by push_cast; ring
  unfold quoRaw one
  rw [h, Int.mul_tdiv_cancel _ hp]
  exact HalfEven.div_mul_self _ precision_pos

theorem quoRaw_nonneg {a b : LegacyDec} (ha : 0 ≤ a.i) (hb : 0 ≤ b.i) : 0 ≤ quoRaw a b :=
  HalfEven.div_nonneg (Int.tdiv_nonneg (Int.mul_nonneg ha (Int.natCast_nonneg _)) hb)

/-! ## The order of products and quotients -/

theorem mulRaw_le {a a' b : LegacyDec} (hb : 0 ≤ b.i) (h : a.i ≤ a'.i) : mulRaw a b ≤ mulRaw a' b :=
  HalfEven.div_mono precision_pos (Int.mul_le_mul_of_nonneg_right h hb)

theorem quoRaw_le {a a' b : LegacyDec} (hb : 0 < b.i) (h : a.i ≤ a'.i) : quoRaw a b ≤ quoRaw a' b := by
  apply HalfEven.div_mono precision_pos
  apply Int.tdiv_le_tdiv hb
  exact Int.mul_le_mul_of_nonneg_right h (Int.natCast_nonneg _)

/-- A larger divisor gives a smaller quotient. -/
theorem quoRaw_anti {a b b' : LegacyDec} (ha : 0 ≤ a.i) (hb : 0 < b.i) (h : b.i ≤ b'.i) :
    quoRaw a b' ≤ quoRaw a b := by
  have hnum : 0 ≤ a.i * (precision * precision : Nat) := Int.mul_nonneg ha (Int.natCast_nonneg _)
  have hb' : 0 < b'.i := hb.trans_le h
  apply HalfEven.div_mono precision_pos
  rw [Int.tdiv_eq_ediv_of_nonneg hnum, Int.tdiv_eq_ediv_of_nonneg hnum]
  apply Int.le_ediv_of_mul_le hb
  calc a.i * (precision * precision : Nat) / b'.i * b.i
      ≤ a.i * (precision * precision : Nat) / b'.i * b'.i :=
        Int.mul_le_mul_of_nonneg_left h (Int.ediv_nonneg hnum hb'.le)
    _ ≤ a.i * (precision * precision : Nat) := Int.ediv_mul_le _ hb'.ne'

/-- Rounding does not take a quotient above a decimal that it is not above. -/
theorem quoRaw_le_of_le_mul {a b : LegacyDec} {k : Int} (hb : 0 < b.i) (h : a.i * precision ≤ k * b.i) :
    quoRaw a b ≤ k := by
  apply HalfEven.div_le_of_le_mul precision_pos
  have hscaled : a.i * (precision * precision : Nat) ≤ k * precision * b.i := by
    have hmul := Int.mul_le_mul_of_nonneg_right h (Int.natCast_nonneg precision)
    push_cast
    linarith
  have hquo := Int.tdiv_le_tdiv hb hscaled
  rwa [Int.mul_tdiv_cancel _ hb.ne'] at hquo

/-- A quotient is rounded down to `k` below half a digit above it, and there if `k` is
even. -/
theorem quoRaw_le_iff_mod {a b : LegacyDec} (ha : 0 ≤ a.i) (hb : 0 < b.i) (k : Nat) :
    quoRaw a b ≤ k ↔ a.i * 10 ^ 36 < (k * 10 ^ 18 + 5 * 10 ^ 17 + (1 - k % 2)) * b.i := by
  have hnum : 0 ≤ a.i * (precision * precision : Nat) := Int.mul_nonneg ha (Int.natCast_nonneg _)
  have hprec : ((precision * precision : Nat) : Int) = 10 ^ 36 := by
    rw [precision]
    norm_num
  have hone : (precision : Int) = 10 ^ 18 := rfl
  have hround := HalfEven.div_le_iff k (Int.tdiv_nonneg hnum hb.le) precision_pos
  rw [quoRaw, chopPrecisionAndRound, hround, Int.tdiv_eq_ediv_of_nonneg hnum, hprec, hone,
    ← Int.ediv_lt_iff_lt_mul hb]
  omega

theorem quoRaw_le_iff {a b : LegacyDec} (ha : 0 ≤ a.i) (hb : 0 < b.i) {k : Nat} (hk : k % 2 = 0) :
    quoRaw a b ≤ k ↔ a.i * 10 ^ 36 < (k * 10 ^ 18 + 5 * 10 ^ 17 + 1) * b.i := by
  have hk : (k : Int) % 2 = 0 := by omega
  rw [quoRaw_le_iff_mod ha hb, hk, Int.sub_zero]

/-- A quotient is rounded to a positive decimal within half a digit of it, and at half a
digit if its last digit is even. -/
theorem quoRaw_eq_iff {a b c : LegacyDec} (ha : 0 ≤ a.i) (hb : 0 < b.i) (hc : 0 < c.i) :
    quoRaw a b = c.i ↔ (c.i * 10 ^ 18 - 5 * 10 ^ 17 + c.i % 2) * b.i ≤ a.i * 10 ^ 36 ∧
      a.i * 10 ^ 36 < (c.i * 10 ^ 18 + 5 * 10 ^ 17 + (1 - c.i % 2)) * b.i := by
  obtain ⟨k, hk⟩ : ∃ k : Nat, c.i = (k : Int) + 1 := ⟨(c.i - 1).toNat, by omega⟩
  have hlow := quoRaw_le_iff_mod ha hb k
  have hup := quoRaw_le_iff_mod ha hb (k + 1)
  rw [Nat.cast_add, Nat.cast_one, ← hk] at hup
  have hhalf : (k : Int) * 10 ^ 18 + 5 * 10 ^ 17 + (1 - k % 2)
      = c.i * 10 ^ 18 - 5 * 10 ^ 17 + c.i % 2 := by omega
  rw [hhalf] at hlow
  rw [← hup, ← not_lt, ← hlow]
  omega

/-- A quotient is rounded to zero up to half of the last digit. -/
theorem quoRaw_pos_iff {a b : LegacyDec} (ha : 0 ≤ a.i) (hb : 0 < b.i) :
    0 < quoRaw a b ↔ (5 * 10 ^ 17 + 1) * b.i ≤ a.i * 10 ^ 36 := by
  have hle := quoRaw_le_iff ha hb (k := 0) rfl
  simp only [Nat.cast_zero, zero_mul, zero_add] at hle
  rw [← not_le, hle, not_lt]

/-- Below a negative divisor a quotient of a nonnegative decimal is not positive. -/
theorem quoRaw_nonpos {a b : LegacyDec} (ha : 0 ≤ a.i) (hb : b.i < 0) : quoRaw a b ≤ 0 := by
  have hnum : 0 ≤ a.i * (precision * precision : Nat) := Int.mul_nonneg ha (Int.natCast_nonneg _)
  have hquo : (a.i * (precision * precision : Nat)).tdiv b.i ≤ 0 * (precision : Int) := by
    rw [zero_mul]
    exact Int.tdiv_nonpos_of_nonneg_of_nonpos hnum hb.le
  exact HalfEven.div_le_of_le_mul precision_pos hquo

/-- A quotient of nonnegative decimals is at most half a unit above the exact
one. -/
theorem quoRaw_upper {a b : LegacyDec} (ha : 0 ≤ a.i) (hb : 0 < b.i) :
    2 * (quoRaw a b * b.i) ≤ 2 * (a.i * precision) + b.i := by
  have hp : (0 : Int) < precision := by exact_mod_cast precision_pos
  have hnum : 0 ≤ a.i * (precision * precision : Nat) :=
    Int.mul_nonneg ha (Int.natCast_nonneg _)
  have hround := HalfEven.two_mul_div_le ((a.i * (precision * precision : Nat)).tdiv b.i) precision_pos
  have htrunc : (a.i * (precision * precision : Nat)).tdiv b.i * b.i
      ≤ a.i * (precision * precision : Nat) := by
    rw [Int.tdiv_eq_ediv_of_nonneg hnum]
    exact Int.ediv_mul_le _ hb.ne'
  change 2 * (quoRaw a b * precision) ≤ _ at hround
  push_cast at hround htrunc
  generalize (a.i * (↑precision * ↑precision)).tdiv b.i = t at hround htrunc
  -- multiply the rounding bound by the divisor and cancel one factor 10^18
  have h1 : 2 * (quoRaw a b * precision) * b.i ≤ (2 * t + precision) * b.i :=
    Int.mul_le_mul_of_nonneg_right hround hb.le
  have h2 : (2 * (quoRaw a b * b.i)) * precision ≤ (2 * (a.i * precision) + b.i) * precision := by
    nlinarith
  exact Int.le_of_mul_le_mul_right h2 hp

/-- A quotient of nonnegative decimals falls short of the exact one by at most
half a unit and the truncated 36th digit. -/
theorem quoRaw_lower {a b : LegacyDec} (ha : 0 ≤ a.i) (hb : 0 < b.i) :
    2 * (a.i * precision * precision) < 2 * (quoRaw a b * b.i * precision) + b.i * precision
      + 2 * b.i := by
  have hnum : 0 ≤ a.i * (precision * precision : Nat) :=
    Int.mul_nonneg ha (Int.natCast_nonneg _)
  have hround := HalfEven.le_two_mul_div ((a.i * (precision * precision : Nat)).tdiv b.i) precision_pos
  have htrunc : a.i * (precision * precision : Nat) <
      ((a.i * (precision * precision : Nat)).tdiv b.i + 1) * b.i := by
    rw [Int.tdiv_eq_ediv_of_nonneg hnum]
    exact Int.lt_ediv_add_one_mul_self _ hb
  change _ ≤ 2 * (quoRaw a b * precision) + precision at hround
  push_cast at hround htrunc
  generalize (a.i * (↑precision * ↑precision)).tdiv b.i = t at hround htrunc
  have h1 : 2 * t * b.i ≤ (2 * (quoRaw a b * precision) + precision) * b.i :=
    Int.mul_le_mul_of_nonneg_right hround hb.le
  nlinarith

end LegacyDec

end Sdk
