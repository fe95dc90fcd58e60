import DoChain.Market.Pool
import DoChain.Market.RoundTrip

/- The value of the supply over runs of swaps.

   A swap burns its offer and mints the swap coin and the fee. `worth` is what a unit of a
   denomination is worth at the oracle's rates, in udo, and `value` the worth of the supply of
   some denominations. What a swap mints is worth no more than what it burns, but for the
   rounding of the two conversions: half of a last digit of DO and half of a last digit of the
   coin asked for (`minted_le_burnt`). Between two changes of the rates, runs of swaps by
   anybody thus raise the value of the supply by rounding only, however long they are and
   whichever denominations they pass through (`swaps_create_no_value`). -/

namespace Market

open Sdk

/-! ## Worth -/

/-- What a unit of a denomination is worth, in udo; without a rate it is worth nothing. -/
def worth (s : State) (denom : String) : ℚ :=
  match getDoExchangeRate s denom with
  | some rate => LegacyDec.precision / rate.i
  | none => 0

/-- The worth of the supply of some denominations. -/
def value (denoms : Finset String) (s : State) : ℚ := ∑ d ∈ denoms, s.bank.supply d * worth s d

/-- Half of a last digit of DO, and half of a last digit of the coin asked for. -/
def rounding (s : State) (askDenom : String) : ℚ := (1 + worth s askDenom) / (2 * LegacyDec.precision)

theorem worth_eq {s : State} {denom : String} {rate : LegacyDec}
    (h : getDoExchangeRate s denom = some rate) : worth s denom = LegacyDec.precision / rate.i := by
  simp only [worth, h]

theorem worth_congr {s s' : State} (h : s'.exchangeRates = s.exchangeRates) : worth s' = worth s := by
  funext denom
  simp only [worth, getDoExchangeRate, h]

/-! ## One swap -/

/-- A quotient that is positive has a positive divisor. -/
theorem rate_pos_of_quo {n : Int} {rate : LegacyDec} (hn : 0 ≤ n)
    (h : 0 < LegacyDec.quoRaw (LegacyDec.ofInt n) rate) : 0 < rate.i := by
  have hP : (0 : Int) ≤ LegacyDec.precision := Int.natCast_nonneg _
  rcases Int.lt_trichotomy rate.i 0 with hneg | hzero | hpos
  · have hle := LegacyDec.quoRaw_nonpos (a := LegacyDec.ofInt n) (Int.mul_nonneg hn hP) hneg
    omega
  · rw [LegacyDec.quoRaw, hzero] at h
    simp [LegacyDec.chopPrecisionAndRound] at h
  · exact hpos

/-- A product that is positive has a positive factor. -/
theorem rate_pos_of_mul {a rate : LegacyDec} (ha : 0 ≤ a.i) (h : 0 < LegacyDec.mulRaw a rate) : 0 < rate.i := by
  by_contra hneg
  have hle : LegacyDec.mulRaw a rate ≤ 0 := by
    apply HalfEven.div_le_of_le_mul LegacyDec.precision_pos
    rw [Int.zero_mul]
    exact Int.mul_nonpos_of_nonneg_of_nonpos ha (by omega)
  omega

/-- The offer in DO. -/
theorem computeInternalSwap_base {s : State} {offer : Coin} {base : DecCoin}
    (h : computeInternalSwap s ⟨offer.denom, LegacyDec.ofInt offer.amount⟩ microDoDenom = .ok base)
    (hoffer : offer.denom ≠ microDoDenom) (hamount : 0 < offer.amount) :
    ∃ a : LegacyDec, getDoExchangeRate s offer.denom = some a ∧ 0 < a.i ∧ 0 < base.amount.i ∧
      2 * (base.amount.i * a.i) ≤ 2 * (offer.amount * LegacyDec.precision * LegacyDec.precision) + a.i := by
  obtain ⟨a, one, ha, hone, _, rfl, hpos⟩ := computeInternalSwap_inv h hoffer
  rw [getDoExchangeRate, if_pos rfl] at hone
  cases hone
  rw [LegacyDec.mulRaw_one] at hpos ⊢
  have hrate : 0 < a.i := rate_pos_of_quo hamount.le hpos
  have hnonneg : 0 ≤ (LegacyDec.ofInt offer.amount).i := Int.mul_nonneg hamount.le (Int.natCast_nonneg _)
  exact ⟨a, ha, hrate, hpos, LegacyDec.quoRaw_upper hnonneg hrate⟩

/-- The converted amount: at most what the rates give, and the two halves of last digits. -/
theorem computeSwap_upper {s : State} {offer : Coin} {askDenom : String} {ret : DecCoin} {spread : LegacyDec}
    (h : computeSwap s offer askDenom = .ok (ret, spread)) :
    ∃ a b : LegacyDec, getDoExchangeRate s offer.denom = some a ∧ getDoExchangeRate s askDenom = some b ∧
      0 < a.i ∧ 0 < b.i ∧
      2 * (ret.amount.i * LegacyDec.precision * a.i) ≤
        2 * (offer.amount * (LegacyDec.precision * LegacyDec.precision) * b.i) + a.i * b.i
          + a.i * LegacyDec.precision := by
  have hP : (0 : Int) < LegacyDec.precision := by exact_mod_cast LegacyDec.precision_pos
  obtain ⟨_, _, hamount, _, hret, base, hbase, hconv, _⟩ := computeSwap_inv h
  by_cases hoffer : offer.denom = microDoDenom
  · -- an offer of DO is converted exactly
    obtain ⟨_, _, ⟨b, hb, hbpos, rfl⟩, _⟩ := computeSwap_do h hoffer
    refine ⟨.one, b, by rw [hoffer, getDoExchangeRate, if_pos rfl], hb, hP, hbpos, ?_⟩
    show 2 * (offer.amount * b.i * LegacyDec.precision * LegacyDec.precision) ≤
      2 * (offer.amount * (LegacyDec.precision * LegacyDec.precision) * b.i) + LegacyDec.precision * b.i
        + LegacyDec.precision * LegacyDec.precision
    have hpos : 0 < LegacyDec.precision * b.i + (LegacyDec.precision : Int) * LegacyDec.precision := by positivity
    linarith
  · obtain ⟨a, ha, hapos, hbasepos, hupper⟩ := computeInternalSwap_base hbase hoffer hamount
    have hdenom := computeInternalSwap_denom hbase
    by_cases hask : askDenom = microDoDenom
    · -- the offer in DO is what is asked for
      have hself : ret = base := by
        rw [hask, ← hdenom, computeInternalSwap_self] at hconv
        exact (Outcome.ok.inj hconv).symm
      refine ⟨a, .one, ha, by rw [hask, getDoExchangeRate, if_pos rfl], hapos, hP, ?_⟩
      rw [hself]
      have hscaled := Int.mul_le_mul_of_nonneg_right hupper hP.le
      have hpos : 0 < a.i * LegacyDec.precision := by positivity
      calc 2 * (base.amount.i * LegacyDec.precision * a.i)
          = 2 * (base.amount.i * a.i) * LegacyDec.precision := by ring
        _ ≤ (2 * (offer.amount * LegacyDec.precision * LegacyDec.precision) + a.i) * LegacyDec.precision := hscaled
        _ ≤ 2 * (offer.amount * (LegacyDec.precision * LegacyDec.precision) * LegacyDec.precision)
            + a.i * LegacyDec.precision + a.i * LegacyDec.precision := by linarith
    · obtain ⟨one, b, hone, hb, _, rfl, hpos⟩ := computeInternalSwap_inv hconv (hdenom ▸ Ne.symm hask)
      rw [hdenom, getDoExchangeRate, if_pos rfl] at hone
      cases hone
      rw [LegacyDec.quoRaw_one] at hpos ⊢
      have hbpos : 0 < b.i := rate_pos_of_mul hbasepos.le hpos
      have hmul := (LegacyDec.mulRaw_bounds base.amount b).1
      refine ⟨a, b, ha, hb, hapos, hbpos, ?_⟩
      calc 2 * (LegacyDec.mulRaw base.amount b * LegacyDec.precision * a.i)
          = 2 * (LegacyDec.mulRaw base.amount b * LegacyDec.precision) * a.i := by ring
        _ ≤ (2 * (base.amount.i * b.i) + LegacyDec.precision) * a.i :=
          Int.mul_le_mul_of_nonneg_right hmul hapos.le
        _ = 2 * (base.amount.i * a.i) * b.i + a.i * LegacyDec.precision := by ring
        _ ≤ (2 * (offer.amount * LegacyDec.precision * LegacyDec.precision) + a.i) * b.i
            + a.i * LegacyDec.precision := by
          apply Int.add_le_add_right
          exact Int.mul_le_mul_of_nonneg_right hupper hbpos.le
        _ = 2 * (offer.amount * (LegacyDec.precision * LegacyDec.precision) * b.i) + a.i * b.i
            + a.i * LegacyDec.precision := by ring

/-- What a swap mints is worth what it burns, and the rounding. -/
theorem minted_le_burnt {env : Env} {s s' : State} {trader receiver : AccAddress} {offer : Coin}
    {askDenom : String} {res : SwapResponse}
    (h : handleSwapRequest env s trader receiver offer askDenom = .ok (s', res)) :
    (res.swapCoin.amount + res.swapFee.amount : ℚ) * worth s askDenom ≤
      offer.amount * worth s offer.denom + rounding s askDenom := by
  obtain ⟨ret, spread, fee, _, _, hcompute, _, _, _, _, _, hcoin, _, hfee, _, _⟩ := handleSwapRequest_inv h
  obtain ⟨a, b, ha, hb, hapos, hbpos, hupper⟩ := computeSwap_upper hcompute
  have hP : (0 : Int) < LegacyDec.precision := by exact_mod_cast LegacyDec.precision_pos
  -- whole coins are minted, of what was converted
  have hminted : (res.swapCoin.amount + res.swapFee.amount) * LegacyDec.precision ≤ ret.amount.i := by
    rw [hcoin, hfee]
    show (_ / _ + _ / _) * _ ≤ _
    rw [truncated_parts, Int.sub_add_cancel]
    exact Int.ediv_mul_le _ hP.ne'
  have hbound : 2 * ((res.swapCoin.amount + res.swapFee.amount) * LegacyDec.precision * LegacyDec.precision * a.i) ≤
      2 * (offer.amount * (LegacyDec.precision * LegacyDec.precision) * b.i) + a.i * b.i
        + a.i * LegacyDec.precision := by
    refine le_trans ?_ hupper
    have hscaled := Int.mul_le_mul_of_nonneg_right hminted (Int.mul_nonneg hP.le hapos.le)
    linarith
  rw [rounding, worth_eq ha, worth_eq hb]
  have hbound : (2 * ((res.swapCoin.amount + res.swapFee.amount) * LegacyDec.precision * LegacyDec.precision * a.i) : ℚ) ≤
      2 * (offer.amount * (LegacyDec.precision * LegacyDec.precision) * b.i) + a.i * b.i
        + a.i * LegacyDec.precision := by exact_mod_cast hbound
  have hP : (0 : ℚ) < LegacyDec.precision := by exact_mod_cast hP
  have hapos : (0 : ℚ) < a.i := by exact_mod_cast hapos
  have hbpos : (0 : ℚ) < b.i := by exact_mod_cast hbpos
  have hscale : (0 : ℚ) < 2 * LegacyDec.precision * a.i * b.i := by positivity
  calc (res.swapCoin.amount + res.swapFee.amount : ℚ) * (LegacyDec.precision / b.i)
      = 2 * ((res.swapCoin.amount + res.swapFee.amount) * LegacyDec.precision * LegacyDec.precision * a.i)
        / (2 * LegacyDec.precision * a.i * b.i) := by field_simp
    _ ≤ (2 * (offer.amount * (LegacyDec.precision * LegacyDec.precision) * b.i) + a.i * b.i
        + a.i * LegacyDec.precision) / (2 * LegacyDec.precision * a.i * b.i) :=
      div_le_div_of_nonneg_right hbound hscale.le
    _ = offer.amount * (LegacyDec.precision / a.i)
        + (1 + LegacyDec.precision / b.i) / (2 * LegacyDec.precision) := by
      field_simp
      ring

/-! ## Runs at fixed rates -/

/-- What the rounding of an event may add. -/
def Event.rounding (s : State) : Event → ℚ
  | .swap m => Market.rounding s m.askDenom
  | .swapSend m => Market.rounding s m.askDenom
  | _ => 0

/-- Other events may move coins, but leave the rates and the supply. -/
def Step.AtFixedRates {env : Env} (st : Step env) : Prop :=
  st.event = .other → st.after.exchangeRates = st.before.exchangeRates ∧
    st.after.bank.supply = st.before.bank.supply

/-- A swap adds to the value of the supply what it mints and takes what it burns. -/
theorem value_swap {env : Env} {s s' : State} {trader receiver : AccAddress} {offer : Coin} {askDenom : String}
    {res : SwapResponse} {denoms : Finset String}
    (h : handleSwapRequest env s trader receiver offer askDenom = .ok (s', res))
    (hcover : ∀ d, (getDoExchangeRate s d).isSome = true → d ∈ denoms) :
    value denoms s' ≤ value denoms s + rounding s askDenom := by
  obtain ⟨_, _, _, _, _, hcompute, _⟩ := handleSwapRequest_inv h
  obtain ⟨a, b, ha, hb, _⟩ := computeSwap_upper hcompute
  obtain ⟨_, _, _, _, hsupply⟩ := handleSwapRequest_bank h
  have hoffer : offer.denom ∈ denoms := hcover _ (by rw [ha]; rfl)
  have hask : askDenom ∈ denoms := hcover _ (by rw [hb]; rfl)
  have hchange : value denoms s' = value denoms s - offer.amount * worth s offer.denom
      + (res.swapCoin.amount + res.swapFee.amount) * worth s askDenom := by
    unfold value
    rw [worth_congr (handleSwapRequest_rates h)]
    simp only [hsupply]
    push_cast
    simp only [add_mul, sub_mul, Finset.sum_add_distrib, Finset.sum_sub_distrib, ite_mul, zero_mul,
      Finset.sum_ite_eq', hoffer, hask, if_true]
  have hle := minted_le_burnt h
  linarith

/-- One event at fixed rates. -/
theorem Step.value_le {env : Env} {denoms : Finset String} (st : Step env) (hfixed : st.AtFixedRates)
    (hcover : ∀ d, (getDoExchangeRate st.before d).isSome = true → d ∈ denoms) :
    st.after.exchangeRates = st.before.exchangeRates ∧
      value denoms st.after ≤ value denoms st.before + st.event.rounding st.before := by
  obtain ⟨before, event, after, occurs⟩ := st
  cases event with
  | swap m =>
    obtain ⟨_, res, hswap⟩ := occurs
    obtain ⟨addr, _, hreq⟩ := Outcome.bind_eq_ok.mp hswap
    exact ⟨handleSwapRequest_rates hreq, value_swap hreq hcover⟩
  | swapSend m =>
    obtain ⟨_, res, hswap⟩ := occurs
    obtain ⟨fromAddr, _, hswap⟩ := Outcome.bind_eq_ok.mp hswap
    obtain ⟨toAddr, _, hreq⟩ := Outcome.bind_eq_ok.mp hswap
    exact ⟨handleSwapRequest_rates hreq, value_swap hreq hcover⟩
  | replenishPools =>
    obtain ⟨_, _, hset⟩ := Outcome.bind_eq_ok.mp occurs
    obtain ⟨delta, _, hset⟩ := Outcome.bind_eq_ok.mp hset
    have hsame : after.exchangeRates = before.exchangeRates ∧ after.bank = before.bank := by
      cases hset
      refine ⟨?_, (setDoPoolDelta_frame before delta).2.1⟩
      show (setDoPoolDelta before delta).exchangeRates = _
      unfold setDoPoolDelta
      split_ifs <;> rfl
    refine ⟨hsame.1, ?_⟩
    show value denoms after ≤ value denoms before + 0
    rw [value, value, worth_congr hsame.1, hsame.2, add_zero]
  | other =>
    obtain ⟨hrates, hsupply⟩ := hfixed rfl
    refine ⟨hrates, ?_⟩
    show value denoms after ≤ value denoms before + 0
    rw [value, value, worth_congr hrates, hsupply, add_zero]

/-- Between two changes of the rates, any run of swaps raises the worth of the supply by the
rounding of its swaps at most. -/
theorem swaps_create_no_value {env : Env} {s₀ s : State} {steps : List (Step env)} {denoms : Finset String}
    (hrun : Trace Step.before Step.after s₀ steps s) (hfixed : ∀ st ∈ steps, st.AtFixedRates)
    (hcover : ∀ d, (getDoExchangeRate s₀ d).isSome = true → d ∈ denoms) :
    value denoms s ≤ value denoms s₀ + (steps.map (fun st => st.event.rounding s₀)).sum := by
  refine hrun.growth (I := fun s => s.exchangeRates = s₀.exchangeRates) ?_ rfl
  intro st hst hrates
  have hrate : ∀ d, getDoExchangeRate st.before d = getDoExchangeRate s₀ d := by
    intro d
    rw [getDoExchangeRate, hrates]
    rfl
  have hround : st.event.rounding st.before = st.event.rounding s₀ := by
    cases hevent : st.event <;> simp only [Event.rounding, rounding, worth_congr hrates]
  obtain ⟨hkept, hvalue⟩ := st.value_le (hfixed st hst) (fun d hd => hcover d (hrate d ▸ hd))
  exact ⟨hkept.trans hrates, hround ▸ hvalue⟩

namespace Sample

open Sdk.Sample

/-- At a rate of one ubbb, 100 uaaa are worth 25 udo, and so is what comes out. -/
theorem swap_keeps_value : ∃ (steps : List (Step app)) (s : State),
    Trace Step.before Step.after (twoRates LegacyDec.precision 100) steps s ∧ steps.length = 1 ∧
    value {"uaaa", "ubbb", microDoDenom} s ≤ 25 + 1 / LegacyDec.precision := by
  let m : MsgSwap := ⟨aliceText, ⟨"uaaa", 100⟩, "ubbb"⟩
  have hrun : (swap app (twoRates LegacyDec.precision 100) m).value.map (fun _ => ()) = some () := by
    decide +kernel
  obtain ⟨⟨s', res⟩, hok, _⟩ := Outcome.value_map_eq_some.mp hrun
  have hvalid : m.validateBasic app = .ok () := by decide +kernel
  let st : Step app := ⟨_, .swap m, s', hvalid, res, hok⟩
  have htrace : Trace Step.before Step.after (twoRates LegacyDec.precision 100) [st] s' := .cons st (.nil s')
  have hcover : ∀ d, (getDoExchangeRate (twoRates LegacyDec.precision 100) d).isSome = true →
      d ∈ ({"uaaa", "ubbb", microDoDenom} : Finset String) := by
    intro d hd
    rw [getDoExchangeRate] at hd
    simp only [twoRates] at hd
    split_ifs at hd with hdo ha hb
    · simp [hdo]
    · simp [ha]
    · simp [hb]
    · cases hd
  have hfixed : ∀ x ∈ [st], x.AtFixedRates := by
    intro x hx hother
    rw [List.mem_singleton.mp hx] at hother
    cases hother
  have hbound := swaps_create_no_value htrace hfixed hcover
  refine ⟨[st], s', htrace, rfl, hbound.trans (le_of_eq ?_)⟩
  have hstart : value {"uaaa", "ubbb", microDoDenom} (twoRates LegacyDec.precision 100) = 25 := by decide +kernel
  have hround : rounding (twoRates LegacyDec.precision 100) "ubbb" = 1 / LegacyDec.precision := by decide +kernel
  show value _ _ + (rounding _ "ubbb" + 0) = _
  rw [hstart, hround, add_zero]

end Sample

end Market
