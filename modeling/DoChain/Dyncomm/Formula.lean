import DoChain.Dyncomm.Messages

/- The dynamic commission as a function of the validator's tokens.

   The formula is `(x - A) (x / C + B)` for the share `x` of the power in percent, cut off at
   the cap and at the smallest commission of the staking module. Below `A` the first factor is
   negative, so that the product falls and rises again; but there it is not positive, and the
   smallest commission takes its place. From `A` on both factors grow.

   `calculateDynCommission_eq_ok` says when the computation returns and what, and
   `dynCommission_bounded_and_monotone` is the result. -/

namespace Dyncomm

open Sdk

/-! ## The share of the power -/

/-- The share in percent, as a stored integer. -/
def votingPower (total : Int) (tokens : Nat) : Int :=
  (((tokens / powerReduction : Nat) : Int) * LegacyDec.precision).tdiv total * 100

theorem votingPower_nonneg {total : Int} (htotal : 0 < total) (tokens : Nat) : 0 ≤ votingPower total tokens :=
  Int.mul_nonneg (Int.tdiv_nonneg (Int.mul_nonneg (Int.natCast_nonneg _) (Int.natCast_nonneg _)) htotal.le)
    (by norm_num)

theorem votingPower_mono {total : Int} (htotal : 0 < total) {n n' : Nat} (h : n ≤ n') :
    votingPower total n ≤ votingPower total n' := by
  have hpower : n / powerReduction ≤ n' / powerReduction := Nat.div_le_div_right h
  have hscaled : ((n / powerReduction : Nat) : Int) * LegacyDec.precision ≤
      ((n' / powerReduction : Nat) : Int) * LegacyDec.precision :=
    Int.mul_le_mul_of_nonneg_right (Int.ofNat_le.mpr hpower) (Int.natCast_nonneg _)
  exact Int.mul_le_mul_of_nonneg_right (Int.tdiv_le_tdiv htotal hscaled) (by norm_num)

/-- A power that is an `int64` makes a share of at most 130 bits. -/
theorem votingPower_lt (total : Int) {n : Nat} (h : n / powerReduction < 2 ^ 63) :
    votingPower total n < 2 ^ 130 := by
  have hnonneg : 0 ≤ ((n / powerReduction : Nat) : Int) * LegacyDec.precision :=
    Int.mul_nonneg (Int.natCast_nonneg _) (Int.natCast_nonneg _)
  have hscaled : ((n / powerReduction : Nat) : Int) * LegacyDec.precision < 2 ^ 63 * 10 ^ 18 := by
    have hprec : (LegacyDec.precision : Int) = 10 ^ 18 := rfl
    rw [hprec]
    exact Int.mul_lt_mul_of_pos_right (by exact_mod_cast h) (by norm_num)
  have hquo := Int.ediv_le_self total hnonneg
  rw [votingPower, Int.tdiv_eq_ediv_of_nonneg hnonneg]
  omega

theorem calculateVotingPower_eq_ok {setting : Setting} {v : Validator} {total : Int} {x : LegacyDec}
    (hset : setting.lastTotalPower = some total) (htotal : 0 < total) :
    calculateVotingPower setting v = .ok x ↔
      v.tokens / powerReduction < 2 ^ 63 ∧ total < 2 ^ 63 ∧ x = ⟨votingPower total v.tokens⟩ := by
  simp only [calculateVotingPower, hset, tokensToConsensusPower, Outcome.bind_eq_ok, int64_eq_ok,
    LegacyDec.quoInt64, LegacyDec.mulInt, LegacyDec.check_eq_ok]
  refine ⟨?_, ?_⟩
  · intro h
    obtain ⟨_, ⟨hpower, rfl⟩, _, ⟨htotal', rfl⟩, share, hshare, _, rfl⟩ := h
    rw [if_neg htotal.ne'] at hshare
    cases hshare
    exact ⟨by omega, htotal'.2, rfl⟩
  · intro h
    obtain ⟨hpower, htotal', rfl⟩ := h
    have hpower' : (0 : Int) ≤ ((v.tokens / powerReduction : Nat) : Int) := Int.natCast_nonneg _
    refine ⟨_, ⟨⟨hpower'.trans' (by norm_num), by exact_mod_cast hpower⟩, rfl⟩, _, ⟨⟨by omega, htotal'⟩, rfl⟩, _,
      if_neg htotal.ne', ?_, rfl⟩
    have hlt := votingPower_lt total hpower
    have hnonneg := votingPower_nonneg htotal v.tokens
    show LegacyDec.Fits (votingPower total v.tokens)
    rw [LegacyDec.fits_iff]
    omega

/-! ## The formula -/

/-- The second factor, and the product. -/
def slope (p : Params) (x : Int) : Int := LegacyDec.quoRaw ⟨x⟩ p.slopeVpImpact + p.slopeBase.i

def product (p : Params) (x : Int) : Int := LegacyDec.mulRaw ⟨x - p.maxZero.i⟩ ⟨slope p x⟩

theorem clampRate_eq (y cap minComm : LegacyDec) :
    (clampRate y cap minComm).i = max (min y.i cap.i) minComm.i := by
  simp only [clampRate, LegacyDec.lt_def]
  split_ifs <;> omega

/-- The commission for a share. -/
def commissionFor (p : Params) (m : LegacyDec) (x : Int) : Int :=
  (max (min (product p x) (p.cap.i * 100)) (m.i * 100)).tdiv 100

section Formula

variable {p : Params} {x x' : Int}

theorem slope_nonneg (hp : p.Valid) (hx : 0 ≤ x) : 0 ≤ LegacyDec.quoRaw ⟨x⟩ p.slopeVpImpact ∧ 0 ≤ slope p x := by
  have hquo : 0 ≤ LegacyDec.quoRaw ⟨x⟩ p.slopeVpImpact := LegacyDec.quoRaw_nonneg hx hp.slopeVpImpact.le
  exact ⟨hquo, Int.add_nonneg hquo hp.slopeBase⟩

theorem slope_mono (hp : p.Valid) (h : x ≤ x') : slope p x ≤ slope p x' := by
  apply Int.add_le_add_right
  exact LegacyDec.quoRaw_le hp.slopeVpImpact h

/-- Up to `A` the product is not positive, and smaller than the second factor. -/
theorem product_nonpos (hp : p.Valid) (hx : 0 ≤ x) (h : x ≤ p.maxZero.i) :
    -slope p x ≤ product p x ∧ product p x ≤ 0 := by
  obtain ⟨_, hslope⟩ := slope_nonneg hp hx
  have hone : p.maxZero.i ≤ LegacyDec.precision := hp.maxZero.2
  refine ⟨?_, ?_⟩
  · apply HalfEven.le_div_of_mul_le LegacyDec.precision_pos
    have hfactor : -(LegacyDec.precision : Int) ≤ x - p.maxZero.i := by omega
    have hmul := Int.mul_le_mul_of_nonneg_right hfactor hslope
    show -slope p x * LegacyDec.precision ≤ (x - p.maxZero.i) * slope p x
    linarith
  · apply HalfEven.div_le_of_le_mul LegacyDec.precision_pos
    rw [zero_mul]
    exact mul_nonpos_of_nonpos_of_nonneg (by show x - p.maxZero.i ≤ 0; omega) hslope

/-- From `A` on both factors grow. -/
theorem product_mono (hp : p.Valid) (hx : 0 ≤ x) (h : p.maxZero.i ≤ x) (hle : x ≤ x') :
    0 ≤ product p x ∧ product p x ≤ product p x' := by
  obtain ⟨_, hslope⟩ := slope_nonneg hp hx
  refine ⟨LegacyDec.mulRaw_nonneg (show 0 ≤ x - p.maxZero.i by omega) hslope, ?_⟩
  apply HalfEven.div_mono LegacyDec.precision_pos
  exact Int.mul_le_mul (by show x - _ ≤ x' - _; omega) (slope_mono hp hle) hslope (by show 0 ≤ x' - _; omega)

theorem commissionFor_bounds (hp : p.Valid) {m : LegacyDec} (hm : 0 ≤ m.i) (x : Int) :
    m.i ≤ commissionFor p m x ∧ commissionFor p m x ≤ max p.cap.i m.i := by
  have hcap := hp.cap.1
  have hnonneg : 0 ≤ max (min (product p x) (p.cap.i * 100)) (m.i * 100) := by omega
  rw [commissionFor, Int.tdiv_eq_ediv_of_nonneg hnonneg]
  omega

/-- Across the sign of the product, the cap and the floor. -/
theorem commissionFor_mono (hp : p.Valid) {m : LegacyDec} (hm : 0 ≤ m.i) (hx : 0 ≤ x) (hle : x ≤ x') :
    commissionFor p m x ≤ commissionFor p m x' := by
  apply Int.tdiv_le_tdiv (by norm_num)
  by_cases h : p.maxZero.i ≤ x
  · have hmono := (product_mono hp hx h hle).2
    omega
  · have hneg := (product_nonpos hp hx (by omega)).2
    omega

/-- The quotient of a share is far from the end of the range. -/
theorem quotient_lt (hp : p.Valid) (hx : 0 ≤ x) (hlt : x < 2 ^ 130) :
    LegacyDec.quoRaw ⟨x⟩ p.slopeVpImpact < 2 ^ 190 := by
  have himpact := hp.slopeVpImpact
  have hprec : (LegacyDec.precision : Int) = 10 ^ 18 := rfl
  have hle : LegacyDec.quoRaw ⟨x⟩ p.slopeVpImpact ≤ x * LegacyDec.precision := by
    apply LegacyDec.quoRaw_le_of_le_mul himpact
    exact le_mul_of_one_le_right (Int.mul_nonneg hx (Int.natCast_nonneg _)) himpact
  rw [hprec] at hle
  omega

/-- With a slope base of at most 190 bits the formula stays in range. -/
theorem in_range_of_lt (hp : p.Valid) (hx : 0 ≤ x) (hlt : x < 2 ^ 130) (hbase : p.slopeBase.i ≤ 2 ^ 190) :
    LegacyDec.Fits (slope p x) ∧ LegacyDec.Fits (product p x) := by
  have hmax := hp.maxZero.1
  have hquo := quotient_lt hp hx hlt
  have hnonneg := (slope_nonneg hp hx).2
  have hslope : slope p x ≤ 2 ^ 191 := by
    unfold slope
    omega
  have hfits : LegacyDec.Fits (slope p x) := by
    rw [LegacyDec.fits_iff]
    omega
  refine ⟨hfits, ?_⟩
  by_cases h : p.maxZero.i ≤ x
  · have hpos := (product_mono hp hx h (Int.le_refl x)).1
    have hle : product p x ≤ 2 ^ 131 * 2 ^ 131 := by
      apply HalfEven.div_le_of_le_mul LegacyDec.precision_pos
      calc (x - p.maxZero.i) * slope p x
          ≤ 2 ^ 130 * 2 ^ 191 := Int.mul_le_mul (by omega) hslope hnonneg (by norm_num)
        _ ≤ 2 ^ 131 * 2 ^ 131 * LegacyDec.precision := by norm_num [LegacyDec.precision]
    rw [LegacyDec.fits_iff]
    omega
  · obtain ⟨hlow, hhigh⟩ := product_nonpos hp hx (by omega)
    exact .of_abs_le (by omega) hfits

end Formula

/-! ## The computation -/

section Computation

variable {setting : Setting} {v v' : Validator} {total : Int} {m r : LegacyDec}

/-- The computation returns unless the power is no `int64`, or the second factor or the product
is out of range. -/
theorem calculateDynCommission_eq_ok (hp : setting.params.Valid) (hset : setting.lastTotalPower = some total)
    (htotal : 0 < total) (hmin : setting.minCommissionRate = some m) (hm : 0 ≤ m.i ∧ m ≤ .one) :
    calculateDynCommission setting v = .ok r ↔
      v.tokens / powerReduction < 2 ^ 63 ∧ total < 2 ^ 63 ∧
      LegacyDec.Fits (slope setting.params (votingPower total v.tokens)) ∧
      LegacyDec.Fits (product setting.params (votingPower total v.tokens)) ∧
      r = ⟨commissionFor setting.params m (votingPower total v.tokens)⟩ := by
  have hcap : 0 ≤ setting.params.cap.i ∧ setting.params.cap.i ≤ 10 ^ 18 := hp.cap
  have hmax : 0 ≤ setting.params.maxZero.i ∧ setting.params.maxZero.i ≤ 10 ^ 18 := hp.maxZero
  have hm' : 0 ≤ m.i ∧ m.i ≤ 10 ^ 18 := hm
  have hcapFits : LegacyDec.Fits (setting.params.cap.i * 100) := by
    rw [LegacyDec.fits_iff]
    omega
  have hminFits : LegacyDec.Fits (m.i * 100) := by
    rw [LegacyDec.fits_iff]
    omega
  have hx := votingPower_nonneg htotal v.tokens
  simp only [calculateDynCommission, hmin, Outcome.bind_eq_ok, calculateVotingPower_eq_ok hset htotal,
    LegacyDec.mulInt, LegacyDec.sub, LegacyDec.add, LegacyDec.mul, LegacyDec.check_eq_ok, LegacyDec.quo_eq_ok]
  refine ⟨?_, ?_⟩
  · intro h
    obtain ⟨_, ⟨_, rfl⟩, _, ⟨hpower, htotal', rfl⟩, _, ⟨_, rfl⟩, _, ⟨_, _, rfl⟩, _, ⟨hslope, rfl⟩, _, ⟨_, rfl⟩,
      _, ⟨hproduct, rfl⟩, hr⟩ := h
    refine ⟨hpower, htotal', hslope, hproduct, ?_⟩
    cases hr
    rw [clampRate_eq]
    rfl
  · intro h
    obtain ⟨hpower, htotal', hslope, hproduct, rfl⟩ := h
    have hlt := votingPower_lt total hpower
    have hquo := (slope_nonneg hp hx).1
    have hquoLt := quotient_lt hp hx hlt
    have hfactor : LegacyDec.Fits (votingPower total v.tokens - setting.params.maxZero.i) := by
      rw [LegacyDec.fits_iff]
      omega
    have hquoFits : LegacyDec.Fits
        (LegacyDec.quoRaw ⟨votingPower total v.tokens⟩ setting.params.slopeVpImpact) := by
      rw [LegacyDec.fits_iff]
      omega
    refine ⟨_, ⟨hcapFits, rfl⟩, _, ⟨hpower, htotal', rfl⟩, _, ⟨hfactor, rfl⟩, _,
      ⟨hp.slopeVpImpact.ne', hquoFits, rfl⟩, _, ⟨hslope, rfl⟩, _, ⟨hminFits, rfl⟩, _, ⟨hproduct, rfl⟩, ?_⟩
    rw [LegacyDec.quoInt64, if_neg (by norm_num), clampRate_eq]
    rfl

/-- Less power keeps the computation in range. -/
theorem in_range_of_le {p : Params} (hp : p.Valid) {x x' : Int} (hx : 0 ≤ x) (hle : x ≤ x')
    (hslope : LegacyDec.Fits (slope p x')) (hproduct : LegacyDec.Fits (product p x')) :
    LegacyDec.Fits (slope p x) ∧ LegacyDec.Fits (product p x) := by
  have hnonneg := (slope_nonneg hp hx).2
  have hmono := slope_mono hp hle
  have hfits : LegacyDec.Fits (slope p x) := .of_abs_le (by omega) hslope
  refine ⟨hfits, ?_⟩
  by_cases h : p.maxZero.i ≤ x
  · obtain ⟨hnonneg', hmono'⟩ := product_mono hp hx h hle
    exact .of_abs_le (by omega) hproduct
  · obtain ⟨hlow, hhigh⟩ := product_nonpos hp hx (by omega)
    exact .of_abs_le (by omega) hfits

end Computation

/-- Where the dynamic commission can be computed, it lies between the smallest commission `m` and
the larger of the cap and `m`; for fewer tokens it can be computed too and is not larger. It can
be computed for every power that is an `int64`, unless the slope base is enormous. -/
theorem dynCommission_bounded_and_monotone (setting : Setting) {total : Int} {m : LegacyDec}
    (hp : setting.params.validate = .ok ()) (hset : setting.lastTotalPower = some total) (htotal : 0 < total)
    (hmin : setting.minCommissionRate = some m) (hm : .zero ≤ m ∧ m ≤ .one) :
    (∀ v r, calculateDynCommission setting v = .ok r → m.i ≤ r.i ∧ r.i ≤ max setting.params.cap.i m.i) ∧
    (∀ v v' r', v.tokens ≤ v'.tokens → calculateDynCommission setting v' = .ok r' →
      ∃ r, calculateDynCommission setting v = .ok r ∧ r ≤ r') ∧
    (∀ v, v.tokens / powerReduction < 2 ^ 63 → total < 2 ^ 63 → setting.params.slopeBase.i ≤ 2 ^ 190 →
      ∃ r, calculateDynCommission setting v = .ok r) := by
  have hvalid := Params.validate_eq_ok.mp hp
  refine ⟨?_, ?_, ?_⟩
  · intro v r hr
    obtain ⟨_, _, _, _, rfl⟩ := (calculateDynCommission_eq_ok hvalid hset htotal hmin hm).mp hr
    exact commissionFor_bounds hvalid hm.1 _
  · intro v v' r' hle hr'
    obtain ⟨hpower, htotal', hslope, hproduct, rfl⟩ :=
      (calculateDynCommission_eq_ok hvalid hset htotal hmin hm).mp hr'
    have hx := votingPower_nonneg htotal v.tokens
    have hmono := votingPower_mono htotal hle
    have hpower' : v.tokens / powerReduction < 2 ^ 63 := lt_of_le_of_lt (Nat.div_le_div_right hle) hpower
    obtain ⟨hslope', hproduct'⟩ := in_range_of_le hvalid hx hmono hslope hproduct
    exact ⟨_, (calculateDynCommission_eq_ok hvalid hset htotal hmin hm).mpr
      ⟨hpower', htotal', hslope', hproduct', rfl⟩, commissionFor_mono hvalid hm.1 hx hmono⟩
  · intro v hpower htotal' hbase
    obtain ⟨hslope, hproduct⟩ := in_range_of_lt hvalid (votingPower_nonneg htotal v.tokens)
      (votingPower_lt total hpower) hbase
    exact ⟨_, (calculateDynCommission_eq_ok hvalid hset htotal hmin hm).mpr
      ⟨hpower, htotal', hslope, hproduct, rfl⟩⟩

namespace Sample

/-- Half of the power that asks for 8.4 percent asks for no more than that. -/
theorem half_power_no_more : ∃ r, calculateDynCommission setting (aliceValidator .zero) = .ok r ∧
    r ≤ ⟨84 * 10 ^ 15⟩ :=
  (dynCommission_bounded_and_monotone setting (by decide +kernel) rfl (by norm_num) rfl (by decide +kernel)).2.1
    (aliceValidator .zero) { aliceValidator .zero with tokens := 4000000 } ⟨84 * 10 ^ 15⟩ (by decide)
    (by decide +kernel)

end Sample

end Dyncomm
