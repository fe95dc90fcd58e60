import DoChain.Market.Swap

/- The simulated swap of the queries (`simulateSwap` in `x/market/keeper/swap.go`).

   The query computes the fee and the truncation in code of its own. A swap takes the fee
   off the decimal amount, and where the fee is zero the query does not; a swap panics late
   where the fee is above the amount, and the query when it takes it off.

   `simulation_faithful` says that the query returns what a swap pays out. Where it returns
   something, nothing of the swap is left to fail but the update of the pool and the
   operations of the bank: the swap is `settleSwap`, which makes only these. -/

namespace Market

open Sdk

def errPanic : RegisteredError := ⟨"undefined", 111222, "panic"⟩

/-- The text of a wrapped error. -/
def errorText (e : SdkError) : String := e.text ++ ": " ++ e.root.description

/-- The coin less the fee, which is made only if it is positive. -/
def chargeFee (swapCoin : DecCoin) (spread : LegacyDec) : Outcome SdkError DecCoin :=
  if spread.IsPositive then do
    let swapFeeAmt ← spread.mul swapCoin.amount
    if swapFeeAmt.IsPositive then do
      let swapFee ← newDecCoinFromDec swapCoin.denom swapFeeAmt
      swapCoin.sub swapFee
    else .ok swapCoin
  else .ok swapCoin

def simulateSwap (s : State) (offerCoin : Coin) (askDenom : String) : Outcome SdkError Coin := do
  .failIf (askDenom = offerCoin.denom) (wrap errRecursiveSwap askDenom)
  .failIf (2 ^ 100 ≤ offerCoin.amount.natAbs) (wrap errInvalidCoins offerCoin.text)
  let (swapCoin, spread) ← (computeSwap s offerCoin askDenom).mapErr (fun e => wrap errPanic (errorText e))
  let swapCoin ← chargeFee swapCoin spread
  let (retCoin, _) ← swapCoin.truncateDecimal
  .ok retCoin

/-- The operation of the bank that sends a fee. -/
def settleFee (env : Env) (bank : Bank) (feeCoin : Coin) : Outcome SdkError Bank :=
  if 0 < feeCoin.amount then bank.sendCoins env.marketAddr env.oracleAddr [feeCoin] else .ok bank

/-- The update of the pool and the operations of the bank that a swap makes, with coins that
are computed already. -/
def settleSwap (env : Env) (s : State) (trader receiver : AccAddress) (offerCoin : Coin)
    (swapDecCoin : DecCoin) (swapCoin feeCoin : Coin) : Outcome SdkError (State × SwapResponse) := do
  let s ← applySwapToPool s offerCoin swapDecCoin
  let bank ← s.bank.sendCoins trader env.marketAddr [offerCoin]
  let bank ← bank.burnCoins env.marketAddr [offerCoin]
  let bank ← bank.mintCoins env.marketAddr [⟨swapCoin.denom, swapCoin.amount + feeCoin.amount⟩]
  let bank ← bank.sendCoinsFromModuleToAccount env.bech32 env.blocked env.marketAddr receiver [swapCoin]
  let bank ← settleFee env bank feeCoin
  .ok ({ s with bank := bank }, ⟨swapCoin, feeCoin⟩)

/-! ## The two ways to charge the fee -/

section Fee

variable {ret fee net : DecCoin} {spread : LegacyDec}

/-- Where a swap charges a fee that the amount covers, the query charges it too. -/
theorem chargeFee_of_spreadFee (h : spreadFee ret spread = .ok fee) (hfits : LegacyDec.Fits ret.amount.i)
    (hle : fee.amount.i ≤ ret.amount.i) :
    chargeFee ret spread = .ok ⟨ret.denom, ⟨ret.amount.i - fee.amount.i⟩⟩ := by
  unfold spreadFee at h
  unfold chargeFee
  split_ifs at h ⊢ with hspread
  · obtain ⟨amount, hamount, hfee⟩ := Outcome.bind_eq_ok.mp h
    obtain ⟨hvalid, hnonneg, rfl⟩ := newDecCoinFromDec_eq_ok.mp hfee
    rw [hamount, Outcome.ok_bind]
    split_ifs with hpos
    · have hle : amount.i ≤ ret.amount.i := hle
      have hsub : LegacyDec.Fits (ret.amount.i - amount.i) :=
        LegacyDec.Fits.of_abs_le (by omega) hfits
      rw [hfee, Outcome.ok_bind]
      exact DecCoin.sub_eq_ok.mpr ⟨rfl, hsub, hle, rfl⟩
    · have hzero : amount.i = 0 := le_antisymm (not_lt.mp hpos) hnonneg
      show _ = Outcome.ok (⟨ret.denom, ⟨ret.amount.i - amount.i⟩⟩ : DecCoin)
      rw [hzero, Int.sub_zero]
  · obtain ⟨_, _, rfl⟩ := newDecCoinFromCoin_eq_ok.mp h
    have hnothing : ret.amount.i - (LegacyDec.ofInt 0).i = ret.amount.i := Int.sub_zero _
    rw [hnothing]

/-- Where the query charges a fee, a swap charges it too, and the amount covers it. -/
theorem spreadFee_of_chargeFee (h : chargeFee ret spread = .ok net) (hvalid : validDenom ret.denom = true)
    (hpos : 0 < ret.amount.i) :
    ∃ fee, spreadFee ret spread = .ok fee ∧ fee.amount.i ≤ ret.amount.i ∧
      net = ⟨ret.denom, ⟨ret.amount.i - fee.amount.i⟩⟩ := by
  unfold chargeFee at h
  unfold spreadFee
  split_ifs at h ⊢ with hspread
  · obtain ⟨amount, hamount, h⟩ := Outcome.bind_eq_ok.mp h
    have hnonneg : 0 ≤ amount.i := by
      obtain ⟨_, rfl⟩ := LegacyDec.check_eq_ok.mp hamount
      exact LegacyDec.mulRaw_nonneg (Int.le_of_lt hspread) hpos.le
    refine ⟨⟨ret.denom, amount⟩, ?_, ?_⟩
    · rw [hamount, Outcome.ok_bind]
      exact newDecCoinFromDec_eq_ok.mpr ⟨hvalid, hnonneg, rfl⟩
    · split_ifs at h with hfee
      · obtain ⟨swapFee, hswapFee, h⟩ := Outcome.bind_eq_ok.mp h
        obtain ⟨_, _, rfl⟩ := newDecCoinFromDec_eq_ok.mp hswapFee
        obtain ⟨_, _, hle, rfl⟩ := DecCoin.sub_eq_ok.mp h
        exact ⟨hle, rfl⟩
      · have hzero : amount.i = 0 := le_antisymm (not_lt.mp hfee) hnonneg
        rw [← Outcome.ok.inj h, hzero, Int.sub_zero]
        exact ⟨hpos.le, rfl⟩
  · refine ⟨⟨ret.denom, .ofInt 0⟩, newDecCoinFromCoin_eq_ok.mpr ⟨hvalid, Int.le_refl 0, rfl⟩, hpos.le, ?_⟩
    have hnothing : ret.amount.i - (LegacyDec.ofInt 0).i = ret.amount.i := Int.sub_zero _
    rw [← Outcome.ok.inj h, hnothing]

end Fee

/-! ## Swaps that the query prices -/

section Settle

variable {env : Env} {s : State} {trader receiver : AccAddress} {offer coin : Coin} {askDenom : String}

/-- The amounts behind what the query returns. -/
theorem simulateSwap_inv (h : simulateSwap s offer askDenom = .ok coin) :
    ∃ ret spread fee, computeSwap s offer askDenom = .ok (ret, spread) ∧
      spreadFee ret spread = .ok fee ∧ fee.amount.i ≤ ret.amount.i ∧
      coin = ⟨ret.denom, (ret.amount.i - fee.amount.i) / LegacyDec.precision⟩ := by
  obtain ⟨_, h⟩ := Outcome.check_bind_eq_ok.mp h
  obtain ⟨_, h⟩ := Outcome.check_bind_eq_ok.mp h
  obtain ⟨⟨ret, spread⟩, hcompute, h⟩ := Outcome.bind_eq_ok.mp h
  rw [Outcome.mapErr_eq_ok] at hcompute
  obtain ⟨net, hnet, h⟩ := Outcome.bind_eq_ok.mp h
  obtain ⟨⟨whole, rest⟩, htrunc, h⟩ := Outcome.bind_eq_ok.mp h
  cases h
  obtain ⟨fee, hfee, hle, rfl⟩ := spreadFee_of_chargeFee hnet (computeSwap_valid hcompute).1
    (computeSwap_inv hcompute).2.2.2.2.1
  obtain ⟨_, _, rfl, _⟩ := DecCoin.truncateDecimal_inv htrunc
  exact ⟨ret, spread, fee, hcompute, hfee, hle, rfl⟩

/-- The whole part and the rest of an amount in range. -/
theorem truncateDecimal_eq {c : DecCoin} (hdenom : validDenom c.denom = true) (hpos : 0 ≤ c.amount.i)
    (hfits : LegacyDec.Fits c.amount.i) :
    (c.truncateDecimal : Outcome SdkError (Coin × DecCoin)) =
      .ok (⟨c.denom, c.amount.i / LegacyDec.precision⟩, ⟨c.denom, ⟨c.amount.i % LegacyDec.precision⟩⟩) := by
  obtain ⟨rest, hrest⟩ := DecCoin.truncateDecimal_ok (ε := SdkError) hdenom hpos hfits
  rw [hrest, (DecCoin.truncateDecimal_inv hrest).2.2.2]

theorem burnOffer_eq (bank : Bank) (hvalid : validDenom offer.denom = true) (hpos : 0 < offer.amount) :
    burnOffer env bank trader offer = (bank.sendCoins trader env.marketAddr [offer] >>= fun bank =>
      bank.burnCoins env.marketAddr [offer]) := by
  rw [burnOffer, newCoins_of_pos hvalid hpos, Outcome.ok_bind]

theorem payAsk_eq (bank : Bank) {denom : String} {n m : Int} (hvalid : validDenom denom = true)
    (hn : 0 < n) (hm : 0 ≤ m) (hbits : n + m < 2 ^ 256) :
    payAsk env bank receiver ⟨denom, n⟩ ⟨denom, m⟩ =
      (bank.mintCoins env.marketAddr [⟨denom, n + m⟩] >>= fun bank =>
        bank.sendCoinsFromModuleToAccount env.bech32 env.blocked env.marketAddr receiver [⟨denom, n⟩] >>=
        fun bank => settleFee env bank ⟨denom, m⟩) := by
  have hsum : (Coin.add ⟨denom, n⟩ ⟨denom, m⟩ : Outcome SdkError Coin) = .ok ⟨denom, n + m⟩ := by
    have hcheck : (checkInt (n + m) : Outcome SdkError Int) = .ok (n + m) :=
      checkInt_eq_ok.mpr ⟨by omega, rfl⟩
    rw [Coin.add, if_neg (not_not.mpr rfl), hcheck, Outcome.ok_bind]
  have hfee : ∀ bank : Bank, sendFee env bank ⟨denom, m⟩ = settleFee env bank ⟨denom, m⟩ := by
    intro bank
    unfold sendFee settleFee
    split_ifs with hpos
    · rw [newCoins_of_pos hvalid hpos, Outcome.ok_bind]
    · rfl
  have hmint : (newCoins ⟨denom, n + m⟩ : Outcome SdkError Coins) = .ok [⟨denom, n + m⟩] :=
    newCoins_of_pos hvalid (by show 0 < n + m; omega)
  have hswap : (newCoins ⟨denom, n⟩ : Outcome SdkError Coins) = .ok [⟨denom, n⟩] :=
    newCoins_of_pos hvalid hn
  simp only [payAsk, hsum, hmint, hswap, Outcome.ok_bind, hfee]

/-- The truncation and the fee of a net amount and a fee that together are in range. -/
theorem settled_amounts {denom : String} {net fee : Int} (hvalid : validDenom denom = true)
    (hnet : 0 < net / LegacyDec.precision) (hfee : 0 ≤ fee) (hfits : LegacyDec.Fits (net + fee)) :
    (DecCoin.truncateDecimal ⟨denom, ⟨net⟩⟩ : Outcome SdkError (Coin × DecCoin))
        = .ok (⟨denom, net / LegacyDec.precision⟩, ⟨denom, ⟨net % LegacyDec.precision⟩⟩) ∧
      (DecCoin.add ⟨denom, ⟨fee⟩⟩ ⟨denom, ⟨net % LegacyDec.precision⟩⟩ : Outcome SdkError DecCoin)
        = .ok ⟨denom, ⟨fee + net % LegacyDec.precision⟩⟩ ∧
      ∃ rest, (DecCoin.truncateDecimal ⟨denom, ⟨fee + net % LegacyDec.precision⟩⟩ :
          Outcome SdkError (Coin × DecCoin))
        = .ok (⟨denom, (fee + net % LegacyDec.precision) / LegacyDec.precision⟩, rest) := by
  have hp : (0 : Int) < LegacyDec.precision := by exact_mod_cast LegacyDec.precision_pos
  have hsplit := Int.mul_ediv_add_emod net LegacyDec.precision
  have hmod := Int.emod_nonneg net hp.ne'
  have hwhole : 0 < (LegacyDec.precision : Int) * (net / LegacyDec.precision) := Int.mul_pos hp hnet
  -- the rest of the amount and the fee are together at most the two
  have hnetFits : LegacyDec.Fits net := LegacyDec.Fits.of_abs_le (by omega) hfits
  have hfeeFits : LegacyDec.Fits (fee + net % LegacyDec.precision) :=
    LegacyDec.Fits.of_abs_le (by omega) hfits
  refine ⟨truncateDecimal_eq hvalid (by show 0 ≤ net; omega) hnetFits, ?_,
    DecCoin.truncateDecimal_ok hvalid (by show 0 ≤ fee + net % LegacyDec.precision; omega) hfeeFits⟩
  have hadd : (LegacyDec.add ⟨fee⟩ ⟨net % LegacyDec.precision⟩ : Outcome SdkError LegacyDec)
      = .ok ⟨fee + net % LegacyDec.precision⟩ := LegacyDec.check_eq_ok.mpr ⟨hfeeFits, rfl⟩
  rw [DecCoin.add, if_neg (not_not.mpr rfl), hadd, Outcome.ok_bind]

/-- Nothing that is computed on the way can fail. -/
theorem handleSwapRequest_eq_settleSwap (env : Env) (trader receiver : AccAddress)
    (h : simulateSwap s offer askDenom = .ok coin) (hpos : 0 < coin.amount) :
    ∃ swapDecCoin feeCoin, handleSwapRequest env s trader receiver offer askDenom =
      settleSwap env s trader receiver offer swapDecCoin coin feeCoin := by
  obtain ⟨ret, spread, fee, hcompute, hspread, hle, rfl⟩ := simulateSwap_inv h
  obtain ⟨hvalid, hfits⟩ := computeSwap_valid hcompute
  obtain ⟨_, hofferValid, hoffer, _, hret, _⟩ := computeSwap_inv hcompute
  obtain ⟨hdenom, hnonneg, _⟩ := spreadFee_inv hspread
  obtain ⟨denom, ⟨fee⟩⟩ := fee
  obtain rfl : denom = ret.denom := hdenom
  have hnet : (ret.amount.sub ⟨fee⟩ : Outcome SdkError LegacyDec) = .ok ⟨ret.amount.i - fee⟩ := by
    refine LegacyDec.check_eq_ok.mpr ⟨LegacyDec.Fits.of_abs_le ?_ hfits, rfl⟩
    have hle : fee ≤ ret.amount.i := hle
    have hnonneg : 0 ≤ fee := hnonneg
    show (ret.amount.i - fee).natAbs ≤ ret.amount.i.natAbs
    omega
  have hparts := truncated_parts (ret.amount.i - fee) fee
  rw [Int.sub_add_cancel] at hparts
  have hbits := LegacyDec.whole_lt hret.le hfits
  obtain ⟨htrunc, hadd, rest, hfeeTrunc⟩ := settled_amounts hvalid hpos hnonneg
    (by rw [Int.sub_add_cancel]; exact hfits)
  have hp : (0 : Int) < LegacyDec.precision := by exact_mod_cast LegacyDec.precision_pos
  have hfeeNonneg : 0 ≤ (fee + (ret.amount.i - fee) % LegacyDec.precision) / LegacyDec.precision :=
    Int.ediv_nonneg (Int.add_nonneg hnonneg (Int.emod_nonneg _ hp.ne')) hp.le
  refine ⟨⟨ret.denom, ⟨ret.amount.i - fee⟩⟩,
    ⟨ret.denom, (fee + (ret.amount.i - fee) % LegacyDec.precision) / LegacyDec.precision⟩, ?_⟩
  have hsome : (Outcome.failIf ((ret.amount.i - fee) / LegacyDec.precision ≤ 0)
      (⟨errZeroSwapCoin, ""⟩ : SdkError)) = .ok () := Outcome.failIf_eq_ok.mpr (not_le.mpr hpos)
  simp only [handleSwapRequest, settleSwap, hcompute, hspread, hnet, htrunc, hsome, hadd, hfeeTrunc,
    burnOffer_eq _ hofferValid hoffer, payAsk_eq _ hvalid hpos hfeeNonneg (hparts ▸ hbits),
    Outcome.ok_bind, Outcome.bind_assoc]

end Settle

/-! ## What the query says of the message -/

/-- A swap that succeeds pays the trader the coin that the query returns on the state
before it, and where the query returns something, a swap fails only in the update of the
pool or in an operation of the bank. -/
theorem simulation_faithful (env : Env) (s : State) (m : MsgSwap) (h : m.validateBasic env = .ok ()) :
    (∀ s' res, swap env s m = .ok (s', res) →
      simulateSwap s m.offerCoin m.askDenom = .ok res.swapCoin ∧ 0 < res.swapCoin.amount ∧
      ∃ trader, env.bech32.accAddressFromBech32 m.trader = .ok trader ∧
        s'.bank.balance trader m.askDenom = s.bank.balance trader m.askDenom + res.swapCoin.amount
          + if trader = env.oracleAddr then res.swapFee.amount else 0) ∧
    ∀ coin, simulateSwap s m.offerCoin m.askDenom = .ok coin → 0 < coin.amount →
      ∃ trader swapDecCoin feeCoin, env.bech32.accAddressFromBech32 m.trader = .ok trader ∧
        swap env s m = settleSwap env s trader trader m.offerCoin swapDecCoin coin feeCoin := by
  obtain ⟨trader, htrader, hoffer⟩ := Outcome.bind_eq_ok.mp h
  rw [address, Outcome.ofExcept_eq_ok] at htrader
  have hswap : swap env s m = handleSwapRequest env s trader trader m.offerCoin m.askDenom := by
    rw [swap, htrader]
    rfl
  refine ⟨?_, ?_⟩
  · intro s' res hrun
    rw [hswap] at hrun
    obtain ⟨ret, spread, fee, _, _, hcompute, hfee, _, _, hvalid, hnet, hcoin, hpos, _⟩ :=
      handleSwapRequest_inv hrun
    obtain ⟨hne, hdenom, _, hbalance, _⟩ := handleSwapRequest_bank hrun
    refine ⟨?_, hpos, trader, htrader, ?_⟩
    · obtain ⟨hrange, hother⟩ := Outcome.check_bind_eq_ok.mp hoffer
      rw [Outcome.failIf_eq_ok, not_or] at hrange
      have hfits := (computeSwap_valid hcompute).2
      have hret := (computeSwap_inv hcompute).2.2.2.2.1
      obtain ⟨_, hnonneg, _⟩ := spreadFee_inv hfee
      have hcharge := chargeFee_of_spreadFee hfee hfits (by omega)
      have htrunc := truncateDecimal_eq (c := ⟨ret.denom, ⟨ret.amount.i - fee.amount.i⟩⟩) hvalid hnet
        (LegacyDec.Fits.of_abs_le (by show (ret.amount.i - fee.amount.i).natAbs ≤ _; omega) hfits)
      have hself : ¬ m.askDenom = m.offerCoin.denom := fun heq => hne heq.symm
      have hbits : ¬ 2 ^ 100 ≤ m.offerCoin.amount.natAbs := by omega
      rw [simulateSwap, (Outcome.failIf_eq_ok (u := ())).mpr hself, Outcome.ok_bind,
        (Outcome.failIf_eq_ok (u := ())).mpr hbits,
        Outcome.ok_bind, Outcome.mapErr_eq_ok.mpr hcompute, Outcome.ok_bind]
      show (chargeFee ret spread >>= _) = _
      rw [hcharge, Outcome.ok_bind, htrunc, Outcome.ok_bind, hcoin]
    · have hother : ¬ (trader = trader ∧ m.askDenom = m.offerCoin.denom) := fun heq => hne heq.2.symm
      rw [hbalance, if_neg hother, if_pos ⟨rfl, rfl⟩, Int.sub_zero]
      simp only [and_true]
  · intro coin hcoin hpos
    obtain ⟨swapDecCoin, feeCoin, heq⟩ := handleSwapRequest_eq_settleSwap env trader trader hcoin hpos
    exact ⟨trader, swapDecCoin, feeCoin, htrader, hswap.trans heq⟩

namespace Sample

open Sdk.Sample

def aliceOffer : MsgSwap := ⟨aliceText, ⟨microDoDenom, 10 ^ 6⟩, "uusd"⟩

/-- The query returns the 1470000 uusd that Alice is paid. -/
theorem alice_swap_simulated : ∃ s' res, swap app (stateOf (10 ^ 6)) aliceOffer = .ok (s', res) ∧
    simulateSwap (stateOf (10 ^ 6)) aliceOffer.offerCoin aliceOffer.askDenom = .ok res.swapCoin ∧
    res.swapCoin = ⟨"uusd", 1470000⟩ := by
  have hrun : (swap app (stateOf (10 ^ 6)) aliceOffer).value.map (fun p => p.2.swapCoin)
      = some ⟨"uusd", 1470000⟩ := by decide +kernel
  obtain ⟨⟨s', res⟩, hok, hcoin⟩ := Outcome.value_map_eq_some.mp hrun
  have hvalid : aliceOffer.validateBasic app = .ok () := by decide +kernel
  exact ⟨s', res, hok, ((simulation_faithful app _ aliceOffer hvalid).1 s' res hok).1, hcoin⟩

end Sample

end Market
