import DoChain.Market.Pool

/- The bounds of the spread of a swap of or for DO.

   The spread is the part of the offer that the constant product does not give back, and at
   least the least spread of the parameters. It is at most one as long as what is given back
   is not negative: of the two rounded quotients of the product that are subtracted, the one
   by the larger pool is not larger. In a swap of DO the pool before is itself a rounded
   quotient; its error is below one unit of the last digit, and an offer has at least `10^18`
   of these units.

   `spread_bounds` is the result, with what follows for the fee and the net amount. -/

namespace Market

open Sdk

/-! ## What the pool gives back -/

section Pools

variable {cp a q : LegacyDec} {d x : Int}

/-- An offer that enters the pool of DO: both quotients are of the same product. -/
theorem given_nonneg_other (hcp : 0 ≤ cp.i) (hd : 0 < d) (hx : 0 < x)
    (ha : a.i = LegacyDec.quoRaw cp ⟨d⟩) (hq : q.i = LegacyDec.quoRaw cp ⟨d + x⟩) : 0 ≤ a.i - q.i := by
  have hle : LegacyDec.quoRaw cp ⟨d + x⟩ ≤ LegacyDec.quoRaw cp ⟨d⟩ :=
    LegacyDec.quoRaw_anti hcp hd (Int.le_add_of_nonneg_right hx.le)
  omega

/-- An offer of DO of at least one unit: the pool it enters was rounded down by less than that. -/
theorem given_nonneg_do (hcp : 0 ≤ cp.i) (hd : 0 < d) (hx : (LegacyDec.precision : Int) ≤ x)
    (ha : a.i = LegacyDec.quoRaw cp ⟨d⟩) (hq : q.i = LegacyDec.quoRaw cp ⟨a.i + x⟩) : 0 ≤ d - q.i := by
  have hP : (2 : Int) ≤ LegacyDec.precision := by norm_num [LegacyDec.precision]
  have ha0 : 0 ≤ a.i := ha ▸ LegacyDec.quoRaw_nonneg hcp hd.le
  have hlow : 2 * (cp.i * LegacyDec.precision * LegacyDec.precision) <
      2 * (a.i * d * LegacyDec.precision) + d * LegacyDec.precision + 2 * d := by
    rw [ha]
    exact LegacyDec.quoRaw_lower (b := ⟨d⟩) hcp hd
  -- the product is at most the pool of DO times the grown pool
  have hprod : cp.i * LegacyDec.precision ≤ d * (a.i + x) := by
    have hdx : d * LegacyDec.precision ≤ d * x := Int.mul_le_mul_of_nonneg_left hx hd.le
    have hdP : 2 * d ≤ d * LegacyDec.precision := by
      rw [Int.mul_comm 2 d]
      exact Int.mul_le_mul_of_nonneg_left hP hd.le
    have hmul : cp.i * LegacyDec.precision * LegacyDec.precision ≤ d * (a.i + x) * LegacyDec.precision := by
      have hxP : d * LegacyDec.precision * 1 ≤ d * x * LegacyDec.precision :=
        Int.mul_le_mul hdx (by omega) (by omega) (Int.mul_nonneg hd.le (by omega))
      nlinarith
    exact Int.le_of_mul_le_mul_right hmul (by omega)
  have hle : LegacyDec.quoRaw cp ⟨a.i + x⟩ ≤ d :=
    LegacyDec.quoRaw_le_of_le_mul (show 0 < a.i + x by omega) hprod
  omega

end Pools

/-- The spread of the pool lies between the least one and one. -/
theorem poolSpread_bounds {s : State} {offerDenom : String} {offer spread : LegacyDec}
    (h : poolSpread s offerDenom offer = .ok spread) (hpool : 0 < doPool s)
    (hmin : s.params.minStabilitySpread ≤ .one) (hoffer : 0 < offer.i)
    (hunit : offerDenom = microDoDenom → (LegacyDec.precision : Int) ≤ offer.i) :
    s.params.minStabilitySpread ≤ spread ∧ spread ≤ .one := by
  obtain ⟨cp, a, q, hcp, ha, hq, hspread⟩ := poolSpread_inv h
  have hcp0 : 0 ≤ cp.i := hcp ▸ HalfEven.div_nonneg (mul_self_nonneg _)
  have hgiven : 0 ≤ (if offerDenom ≠ microDoDenom then a else ⟨doPool s⟩).i - q.i := by
    by_cases hdo : offerDenom = microDoDenom
    · simp only [hdo, ne_eq, not_true_eq_false, if_false] at hq ⊢
      exact given_nonneg_do hcp0 hpool (hunit hdo) ha hq
    · simp only [hdo, ne_eq, not_false_eq_true, if_true] at hq ⊢
      exact given_nonneg_other hcp0 hpool hoffer ha hq
  have hone : LegacyDec.quoRaw
      ⟨offer.i - ((if offerDenom ≠ microDoDenom then a else ⟨doPool s⟩).i - q.i)⟩ offer ≤
        LegacyDec.precision := by
    apply LegacyDec.quoRaw_le_of_le_mul hoffer
    rw [Int.mul_comm (LegacyDec.precision : Int)]
    exact Int.mul_le_mul_of_nonneg_right (Int.sub_le_self _ hgiven) (Int.natCast_nonneg _)
  refine ⟨?_, ?_⟩
  · show s.params.minStabilitySpread.i ≤ spread.i
    rw [hspread]
    exact le_max_left _ _
  · show spread.i ≤ LegacyDec.precision
    rw [hspread]
    exact max_le hmin hone

/-! ## The fee -/

/-- A spread of at most one takes at most everything. -/
theorem spreadFee_ok {ret : DecCoin} {spread : LegacyDec} (hret : 0 ≤ ret.amount.i)
    (hfits : LegacyDec.Fits ret.amount.i) (hvalid : validDenom ret.denom = true) (hone : spread ≤ .one) :
    ∃ fee, spreadFee ret spread = .ok fee ∧ 0 ≤ fee.amount.i ∧ fee.amount ≤ ret.amount := by
  unfold spreadFee
  split_ifs with hpos
  · have hfee0 : 0 ≤ LegacyDec.mulRaw spread ret.amount := LegacyDec.mulRaw_nonneg (le_of_lt hpos) hret
    have hle : LegacyDec.mulRaw spread ret.amount ≤ ret.amount.i := by
      have hmono : LegacyDec.mulRaw spread ret.amount ≤ LegacyDec.mulRaw .one ret.amount :=
        LegacyDec.mulRaw_le hret hone
      have hall : LegacyDec.mulRaw .one ret.amount = ret.amount.i := by
        rw [LegacyDec.mulRaw, Int.mul_comm]
        exact LegacyDec.mulRaw_one ret.amount
      omega
    have hfee : LegacyDec.Fits (LegacyDec.mulRaw spread ret.amount) := .of_abs_le (by omega) hfits
    refine ⟨⟨ret.denom, ⟨LegacyDec.mulRaw spread ret.amount⟩⟩, ?_, hfee0, hle⟩
    exact Outcome.bind_eq_ok.mpr ⟨_, LegacyDec.check_eq_ok.mpr ⟨hfee, rfl⟩,
      newDecCoinFromDec_eq_ok.mpr ⟨hvalid, hfee0, rfl⟩⟩
  · refine ⟨⟨ret.denom, LegacyDec.ofInt 0⟩, ?_, Int.le_refl 0, hret⟩
    exact newDecCoinFromCoin_eq_ok.mpr ⟨hvalid, Int.le_refl 0, rfl⟩

/-- The spread of a computed swap of or for DO lies between the least spread and one; the fee
it makes can be computed and subtracted, and leaves a net amount that is not negative. -/
theorem spread_bounds {s : State} {offer : Coin} {askDenom : String} {ret : DecCoin} {spread : LegacyDec}
    (h : computeSwap s offer askDenom = .ok (ret, spread))
    (hside : offer.denom = microDoDenom ↔ askDenom ≠ microDoDenom) (hpool : 0 < doPool s)
    (hmin : .zero ≤ s.params.minStabilitySpread ∧ s.params.minStabilitySpread ≤ .one) :
    s.params.minStabilitySpread ≤ spread ∧ spread ≤ .one ∧
      ∃ fee net, spreadFee ret spread = .ok fee ∧ .zero ≤ fee.amount ∧ fee.amount ≤ ret.amount ∧
        (ret.amount.sub fee.amount : Outcome SdkError LegacyDec) = .ok net ∧ .zero ≤ net := by
  obtain ⟨_, _, hamount, _, hret, base, hbase, _, hspread⟩ := computeSwap_inv h
  obtain ⟨hvalid, hfits⟩ := computeSwap_valid h
  have hP : (0 : Int) < LegacyDec.precision := by exact_mod_cast LegacyDec.precision_pos
  have hpoolSpread : poolSpread s offer.denom base.amount = .ok spread := by
    rw [swapSpread, if_neg (fun hc => hc.1 (hside.mpr hc.2))] at hspread
    exact hspread
  -- the offer in DO: at least one unit of it if it is DO, and not nothing otherwise
  have hunit : offer.denom = microDoDenom → (LegacyDec.precision : Int) ≤ base.amount.i := by
    intro hdo
    rw [computeInternalSwap, if_pos hdo] at hbase
    rw [← Outcome.ok.inj hbase]
    exact le_mul_of_one_le_left hP.le hamount
  have hbase0 : 0 < base.amount.i := by
    by_cases hdo : offer.denom = microDoDenom
    · exact hP.trans_le (hunit hdo)
    · obtain ⟨_, _, _, _, _, _, hpos⟩ := computeInternalSwap_inv hbase hdo
      exact hpos
  obtain ⟨hlow, hone⟩ := poolSpread_bounds hpoolSpread hpool hmin.2 hbase0 hunit
  obtain ⟨fee, hfee, hfee0, hfeeLe⟩ := spreadFee_ok hret.le hfits hvalid hone
  have hle : fee.amount.i ≤ ret.amount.i := hfeeLe
  have hnet : LegacyDec.Fits (ret.amount.i - fee.amount.i) := .of_abs_le (by omega) hfits
  exact ⟨hlow, hone, fee, _, hfee, hfee0, hfeeLe, LegacyDec.check_eq_ok.mpr ⟨hnet, rfl⟩, Int.sub_nonneg.mpr hle⟩

namespace Sample

/-- One million udo for uusd, with the default parameters. -/
theorem default_spread_bounds : ∃ ret spread fee net,
    computeSwap (stateOf (10 ^ 6)) ⟨microDoDenom, 10 ^ 6⟩ "uusd" = .ok (ret, spread) ∧
    (stateOf (10 ^ 6)).params.minStabilitySpread ≤ spread ∧ spread ≤ .one ∧
    spreadFee ret spread = .ok fee ∧ .zero ≤ fee.amount ∧ fee.amount ≤ ret.amount ∧
    (ret.amount.sub fee.amount : Outcome SdkError LegacyDec) = .ok net ∧ .zero ≤ net := by
  have hrun : (computeSwap (stateOf (10 ^ 6)) ⟨microDoDenom, 10 ^ 6⟩ "uusd").value.map (fun _ => ()) =
      some () := by decide +kernel
  obtain ⟨⟨ret, spread⟩, hok, _⟩ := Outcome.value_map_eq_some.mp hrun
  obtain ⟨hlow, hone, fee, net, hfee⟩ :=
    spread_bounds hok (by decide) (by decide +kernel) (by decide +kernel)
  exact ⟨ret, spread, fee, net, hok, hlow, hone, hfee⟩

end Sample

end Market
