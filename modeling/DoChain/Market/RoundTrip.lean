import DoChain.Market.Swap

/- A swap of two coins other than DO, and back.

   Both conversions go through DO: the offer is divided by its rate, and the quotient is
   multiplied by the rate of the coin asked for. Each result is rounded to the nearest
   decimal, and it is only the last one that is truncated, so a swap may pay a little more
   than the rates say: half of a last digit of DO at the rate of the coin asked for, and half
   of a last digit of that coin (`swap_upper`).

   On the way back these errors are converted to the first coin. They stay below one unit for
   rates that the decimals resolve well, and are no more than the bound of
   `round_trip_gain_le` for any rates. -/

namespace Market

open Sdk

/-! ## One swap -/

/-- What a swap of two coins other than DO computes. -/
theorem computeSwap_others {s : State} {offer : Coin} {askDenom : String} {ret : DecCoin}
    {spread offerRate askRate : LegacyDec} (h : computeSwap s offer askDenom = .ok (ret, spread))
    (hoffer : offer.denom ≠ microDoDenom) (hask : askDenom ≠ microDoDenom)
    (hofferRate : s.exchangeRates offer.denom = some offerRate)
    (haskRate : s.exchangeRates askDenom = some askRate) :
    ret.amount.i =
      LegacyDec.mulRaw ⟨LegacyDec.quoRaw (LegacyDec.ofInt offer.amount) offerRate⟩ askRate := by
  obtain ⟨_, _, _, _, _, base, hbase, hret, _⟩ := computeSwap_inv h
  obtain ⟨r₁, one₁, hr₁, hone₁, _, rfl, _⟩ := computeInternalSwap_inv hbase hoffer
  obtain ⟨one₂, r₂, hone₂, hr₂, _, rfl, _⟩ := computeInternalSwap_inv hret hask.symm
  rw [getDoExchangeRate, if_neg hoffer, hofferRate] at hr₁
  rw [getDoExchangeRate, if_neg hask, haskRate] at hr₂
  rw [getDoExchangeRate, if_pos rfl] at hone₁ hone₂
  cases hr₁
  cases hr₂
  cases hone₁
  cases hone₂
  show LegacyDec.quoRaw
    ⟨LegacyDec.mulRaw ⟨LegacyDec.quoRaw ⟨LegacyDec.mulRaw _ .one⟩ offerRate⟩ askRate⟩ .one = _
  rw [LegacyDec.quoRaw_one, LegacyDec.mulRaw_one]

/-- The amount paid exceeds the one that the rates give by rounding errors only. -/
theorem swap_upper {env : Env} {s s' : State} {trader receiver : AccAddress} {offer : Coin} {askDenom : String}
    {res : SwapResponse} {offerRate askRate : LegacyDec}
    (h : handleSwapRequest env s trader receiver offer askDenom = .ok (s', res))
    (hoffer : offer.denom ≠ microDoDenom) (hask : askDenom ≠ microDoDenom)
    (hofferRate : s.exchangeRates offer.denom = some offerRate)
    (haskRate : s.exchangeRates askDenom = some askRate) (ho : 0 < offerRate.i) (ha : 0 < askRate.i) :
    2 * (res.swapCoin.amount * (LegacyDec.precision * LegacyDec.precision) * offerRate.i) ≤
      2 * (offer.amount * (LegacyDec.precision * LegacyDec.precision) * askRate.i)
        + offerRate.i * askRate.i + offerRate.i * LegacyDec.precision := by
  obtain ⟨ret, spread, fee, _, _, hcompute, hfee, _, _, _, _, hcoin, _, _, _, _⟩ := handleSwapRequest_inv h
  obtain ⟨_, _, hamount, _, _, _⟩ := computeSwap_inv hcompute
  obtain ⟨_, hfee0, _⟩ := spreadFee_inv hfee
  have hret := computeSwap_others hcompute hoffer hask hofferRate haskRate
  have hP : (0 : Int) < LegacyDec.precision := by exact_mod_cast LegacyDec.precision_pos
  have hquo := LegacyDec.quoRaw_upper (a := LegacyDec.ofInt offer.amount)
    (Int.mul_nonneg hamount.le hP.le) ho
  have hmul := (LegacyDec.mulRaw_bounds ⟨LegacyDec.quoRaw (LegacyDec.ofInt offer.amount) offerRate⟩ askRate).1
  rw [← hret] at hmul
  change 2 * (_ * offerRate.i) ≤ 2 * (offer.amount * LegacyDec.precision * LegacyDec.precision) + _ at hquo
  generalize LegacyDec.quoRaw (LegacyDec.ofInt offer.amount) offerRate = base at hquo hmul
  -- whole coins are paid, of what the fee leaves
  have hpaid : res.swapCoin.amount * LegacyDec.precision ≤ ret.amount.i := by
    have htrunc := Int.ediv_mul_le (ret.amount.i - fee.amount.i) hP.ne'
    rw [hcoin]
    show (ret.amount.i - fee.amount.i) / LegacyDec.precision * LegacyDec.precision ≤ _
    omega
  have hpaid' : res.swapCoin.amount * LegacyDec.precision * LegacyDec.precision ≤
      ret.amount.i * LegacyDec.precision := Int.mul_le_mul_of_nonneg_right hpaid hP.le
  calc 2 * (res.swapCoin.amount * (LegacyDec.precision * LegacyDec.precision) * offerRate.i)
      = 2 * (res.swapCoin.amount * LegacyDec.precision * LegacyDec.precision) * offerRate.i := by ring
    _ ≤ (2 * (base * askRate.i) + LegacyDec.precision) * offerRate.i := by
      apply Int.mul_le_mul_of_nonneg_right _ ho.le
      exact (Int.mul_le_mul_of_nonneg_left hpaid' (by norm_num)).trans hmul
    _ = 2 * (base * offerRate.i) * askRate.i + offerRate.i * LegacyDec.precision := by ring
    _ ≤ (2 * (offer.amount * LegacyDec.precision * LegacyDec.precision) + offerRate.i) * askRate.i
        + offerRate.i * LegacyDec.precision := by
      apply Int.add_le_add_right
      exact Int.mul_le_mul_of_nonneg_right hquo ha.le
    _ = 2 * (offer.amount * (LegacyDec.precision * LegacyDec.precision) * askRate.i)
        + offerRate.i * askRate.i + offerRate.i * LegacyDec.precision := by ring

/-- A swap leaves the rates as they are. -/
theorem handleSwapRequest_rates {env : Env} {s s' : State} {trader receiver : AccAddress} {offer : Coin}
    {askDenom : String} {res : SwapResponse}
    (h : handleSwapRequest env s trader receiver offer askDenom = .ok (s', res)) :
    s'.exchangeRates = s.exchangeRates := by
  obtain ⟨_, _, _, s₁, _, _, _, happly, _, _, _, _, _, _, _, hs'⟩ := handleSwapRequest_inv h
  have hsame : s₁.exchangeRates = s.exchangeRates := by
    unfold applySwapToPool at happly
    split_ifs at happly
    · cases happly
      rfl
    · obtain ⟨delta, _, hset⟩ := Outcome.bind_eq_ok.mp happly
      cases hset
      unfold setDoPoolDelta
      split_ifs <;> rfl
  rw [hs', hsame]

/-! ## There and back -/

/-- An amount `x` of `A` is swapped to `B` and all of it back to `A`, at the same rates: with the
rates `a` and `b` (as stored integers, `P` for `10^18`) what is received exceeds `x` by at most
`(2 a b + a P + b P) / (2 P² b)`, and so not at all where that is below one. -/
theorem round_trip_gain_le {env : Env} {s₁ s₁' s₂ s₂' : State} {trader₁ receiver₁ trader₂ receiver₂ : AccAddress}
    {offer : Coin} {askDenom : String} {res₁ res₂ : SwapResponse} {a b : LegacyDec}
    (hthere : handleSwapRequest env s₁ trader₁ receiver₁ offer askDenom = .ok (s₁', res₁))
    (hback : handleSwapRequest env s₂ trader₂ receiver₂ res₁.swapCoin offer.denom = .ok (s₂', res₂))
    (hoffer : offer.denom ≠ microDoDenom) (hask : askDenom ≠ microDoDenom)
    (hofferRate : s₁.exchangeRates offer.denom = some a ∧ s₂.exchangeRates offer.denom = some a)
    (haskRate : s₁.exchangeRates askDenom = some b ∧ s₂.exchangeRates askDenom = some b)
    (ha : 0 < a.i) (hb : 0 < b.i) :
    2 * ((res₂.swapCoin.amount - offer.amount) * (LegacyDec.precision * LegacyDec.precision) * b.i) ≤
      2 * (a.i * b.i) + a.i * LegacyDec.precision + b.i * LegacyDec.precision ∧
    (2 * (a.i * b.i) + a.i * LegacyDec.precision + b.i * LegacyDec.precision <
        2 * (LegacyDec.precision * LegacyDec.precision * b.i) →
      res₂.swapCoin.amount ≤ offer.amount) := by
  have hdenom : res₁.swapCoin.denom = askDenom := (handleSwapRequest_bank hthere).2.1
  have hfirst := swap_upper hthere hoffer hask hofferRate.1 haskRate.1 ha hb
  have hsecond := swap_upper hback (hdenom ▸ hask) hoffer (hdenom ▸ haskRate.2) hofferRate.2 hb ha
  have hgain : 2 * ((res₂.swapCoin.amount - offer.amount) * (LegacyDec.precision * LegacyDec.precision) * b.i) ≤
      2 * (a.i * b.i) + a.i * LegacyDec.precision + b.i * LegacyDec.precision := by linarith
  refine ⟨hgain, ?_⟩
  intro hsmall
  by_contra hlt
  have hone : 1 ≤ res₂.swapCoin.amount - offer.amount := by omega
  have hunit : (0 : Int) ≤ LegacyDec.precision * LegacyDec.precision * b.i := by positivity
  have hle := Int.mul_le_mul_of_nonneg_right hone hunit
  linarith

namespace Sample

open Sdk.Sample

/-- One udo is worth 4 uaaa and `b` units of the last digit of ubbb, without taxes; one wallet
holds `n` uaaa. -/
def twoRates (b n : Int) : State where
  height := 1
  params := params
  doPoolDelta := none
  exchangeRates denom :=
    if denom = "uaaa" then some (LegacyDec.ofInt 4) else if denom = "ubbb" then some ⟨b⟩ else none
  tobinTaxes denom := if denom = "uaaa" ∨ denom = "ubbb" then some .zero else none
  bank := ⟨fun a d => if a = alice ∧ d = "uaaa" then n else 0, fun d => if d = "uaaa" then n else 0⟩

/-- All of the wallet's uaaa for ubbb, and what is received back for uaaa. -/
def thereAndBack (b n : Int) : Outcome SdkError (SwapResponse × SwapResponse) := do
  let there ← handleSwapRequest app (twoRates b n) alice alice ⟨"uaaa", n⟩ "ubbb"
  let back ← handleSwapRequest app there.1 alice alice there.2.swapCoin "uaaa"
  .ok (there.2, back.2)

/-- At a rate of 10^-18, half of a last digit of ubbb is worth two uaaa: two more come back. -/
theorem round_trip_gains_two :
    (thereAndBack 1 (4 * 10 ^ 18 - 2)).value.map (fun r => (r.1.swapCoin, r.2.swapCoin)) =
      some (⟨"ubbb", 1⟩, ⟨"uaaa", 4 * 10 ^ 18⟩) := by
  decide +kernel

/-- At a rate of one nothing is gained. -/
theorem round_trip_gains_nothing : ∃ there back, thereAndBack LegacyDec.precision 100 = .ok (there, back) ∧
    back.swapCoin.amount ≤ 100 := by
  have hrun : (thereAndBack LegacyDec.precision 100).value.map (fun _ => ()) = some () := by decide +kernel
  obtain ⟨⟨there, back⟩, hok, _⟩ := Outcome.value_map_eq_some.mp hrun
  refine ⟨there, back, hok, ?_⟩
  obtain ⟨⟨s₁, r₁⟩, hthere, h⟩ := Outcome.bind_eq_ok.mp hok
  obtain ⟨⟨s₂, r₂⟩, hback, h⟩ := Outcome.bind_eq_ok.mp h
  obtain ⟨rfl, rfl⟩ := Prod.mk.inj (Outcome.ok.inj h)
  have hkept := handleSwapRequest_rates hthere
  exact (round_trip_gain_le (a := LegacyDec.ofInt 4) (b := .one) hthere hback (by decide) (by decide)
    ⟨rfl, congrFun hkept "uaaa"⟩ ⟨rfl, congrFun hkept "ubbb"⟩ (by decide) (by decide)).2 (by decide +kernel)

end Sample

end Market
