import DoChain.Sdk.DecCoin

/- Swaps of the market (`x/market`).

   Correspondence (Go ↔ Lean):
     `keeper/swap.go`       ↔ `computeInternalSwap`, `computeSwap`, `applySwapToPool`
     `keeper/keeper.go`     ↔ `getDoPoolDelta`, `setDoPoolDelta`, `replenishPools`
     `keeper/msg_server.go` ↔ `handleSwapRequest`, `swap`, `swapSend`
     `types/msgs.go`        ↔ `MsgSwap.validateBasic`, `MsgSwapSend.validateBasic`

   A swap converts the offer at the oracle's rates, charges a spread, and moves the
   gap between the pool and its base by what left or entered the pool. The offered
   coins are burnt and the asked coins minted; the spread goes to the oracle's account.

   The events of a swap are left out.

   `swap_settles` says what a swap does to every balance and every supply. -/

namespace Market

open Sdk

def errRecursiveSwap : RegisteredError := ⟨"market", 2, "recursive swap"⟩
def errNoEffectivePrice : RegisteredError := ⟨"market", 3, "no price registered with oracle"⟩
def errZeroSwapCoin : RegisteredError := ⟨"market", 4, "zero swap coin"⟩
def errNoTobinTax : RegisteredError := ⟨"oracle", 13, "no tobin tax"⟩

/-! ## State -/

structure Params where
  basePool : LegacyDec
  poolRecoveryPeriod : Nat
  minStabilitySpread : LegacyDec

/-- What the market reads and writes: its parameters and pool, the oracle's rates and
taxes, and the bank. -/
structure State where
  height : Int
  params : Params
  doPoolDelta : Option LegacyDec
  exchangeRates : String → Option LegacyDec
  tobinTaxes : String → Option LegacyDec
  bank : Bank

structure Env where
  bech32 : Bech32
  marketAddr : AccAddress
  oracleAddr : AccAddress
  /-- the accounts that may not receive coins from a module -/
  blocked : AccAddress → Bool

/-- A DO is worth one DO; every other rate is the oracle's. -/
def getDoExchangeRate (s : State) (denom : String) : Option LegacyDec :=
  if denom = microDoDenom then some .one else s.exchangeRates denom

def getTobinTax (s : State) (denom : String) : Outcome SdkError LegacyDec :=
  .ofOption (wrap errNoTobinTax denom) (s.tobinTaxes denom)

def replayWriteOptimizationHeight : Int := 2547000

def getDoPoolDelta (s : State) : LegacyDec := s.doPoolDelta.getD .zero

/-- From some height on, a write of the value that is there is skipped. -/
def setDoPoolDelta (s : State) (delta : LegacyDec) : State :=
  if replayWriteOptimizationHeight ≤ s.height ∧ s.doPoolDelta = some delta then s
  else { s with doPoolDelta := some delta }

def replenishPools (s : State) : Outcome SdkError State := do
  let poolDelta := getDoPoolDelta s
  let poolRegressionAmt ← poolDelta.quoInt64 (wrap64 s.params.poolRecoveryPeriod)
  let poolDelta ← poolDelta.sub poolRegressionAmt
  .ok (setDoPoolDelta s poolDelta)

/-! ## Computing a swap -/

def effectivePrice (s : State) (denom : String) : Outcome SdkError LegacyDec :=
  .ofOption (wrap errNoEffectivePrice denom) (getDoExchangeRate s denom)

def computeInternalSwap (s : State) (offerCoin : DecCoin) (askDenom : String) :
    Outcome SdkError DecCoin :=
  if offerCoin.denom = askDenom then .ok offerCoin
  else do
    let offerRate ← effectivePrice s offerCoin.denom
    let askRate ← effectivePrice s askDenom
    let product ← offerCoin.amount.mul askRate
    let retAmount ← product.quo offerRate
    .failIf (retAmount ≤ .zero) (wrap errInvalidCoins offerCoin.text)
    newDecCoinFromDec askDenom retAmount

/-- The higher of the two taxes. -/
def tobinSpread (s : State) (offerDenom askDenom : String) : Outcome SdkError LegacyDec := do
  let offerTobinTax ← getTobinTax s offerDenom
  let askTobinTax ← getTobinTax s askDenom
  .ok (if offerTobinTax < askTobinTax then askTobinTax else offerTobinTax)

/-- The spread of the constant-product pool, and at least the least one. -/
def poolSpread (s : State) (offerDenom : String) (baseOfferAmount : LegacyDec) :
    Outcome SdkError LegacyDec := do
  let basePool := s.params.basePool
  let cp ← basePool.mul basePool
  let doPool ← basePool.add (getDoPoolDelta s)
  let baseAssetPool ← cp.quo doPool
  let offerPool := if offerDenom ≠ microDoDenom then doPool else baseAssetPool
  let askPool := if offerDenom ≠ microDoDenom then baseAssetPool else doPool
  let offerPool ← offerPool.add baseOfferAmount
  let left ← cp.quo offerPool
  let askBaseAmount ← askPool.sub left
  let lost ← baseOfferAmount.sub askBaseAmount
  let spread ← lost.quo baseOfferAmount
  .ok (if spread < s.params.minStabilitySpread then s.params.minStabilitySpread else spread)

def swapSpread (s : State) (offerDenom askDenom : String) (baseOfferAmount : LegacyDec) :
    Outcome SdkError LegacyDec :=
  if offerDenom ≠ microDoDenom ∧ askDenom ≠ microDoDenom then tobinSpread s offerDenom askDenom
  else poolSpread s offerDenom baseOfferAmount

def computeSwap (s : State) (offerCoin : Coin) (askDenom : String) :
    Outcome SdkError (DecCoin × LegacyDec) := do
  .failIf (offerCoin.denom = askDenom) (wrap errRecursiveSwap askDenom)
  let offerDecCoin ← newDecCoinFromCoin offerCoin
  let baseOfferDecCoin ← computeInternalSwap s offerDecCoin microDoDenom
  let retDecCoin ← computeInternalSwap s baseOfferDecCoin askDenom
  let spread ← swapSpread s offerCoin.denom askDenom baseOfferDecCoin.amount
  .ok (retDecCoin, spread)

/-- The gap after a swap: a swap for DO adds the offer to the pool, and a swap of DO
takes the asked coins out. -/
def poolDeltaAfter (s : State) (offerCoin : Coin) (askCoin : DecCoin) :
    Outcome SdkError LegacyDec :=
  if offerCoin.denom ≠ microDoDenom ∧ askCoin.denom = microDoDenom then do
    let offerDecCoin ← newDecCoinFromCoin offerCoin
    let offerBaseCoin ← computeInternalSwap s offerDecCoin microDoDenom
    (getDoPoolDelta s).add offerBaseCoin.amount
  else if offerCoin.denom = microDoDenom ∧ askCoin.denom ≠ microDoDenom then do
    let askBaseCoin ← computeInternalSwap s askCoin microDoDenom
    (getDoPoolDelta s).sub askBaseCoin.amount
  else .ok (getDoPoolDelta s)

def applySwapToPool (s : State) (offerCoin : Coin) (askCoin : DecCoin) : Outcome SdkError State :=
  if offerCoin.denom ≠ microDoDenom ∧ askCoin.denom ≠ microDoDenom then .ok s
  else do
    let doPoolDelta ← poolDeltaAfter s offerCoin askCoin
    .ok (setDoPoolDelta s doPoolDelta)

/-! ## Handling a swap -/

structure SwapResponse where
  swapCoin : Coin
  swapFee : Coin

/-- The spread of a swap, as coins. -/
def spreadFee (swapDecCoin : DecCoin) (spread : LegacyDec) : Outcome SdkError DecCoin :=
  if spread.IsPositive then do
    let amount ← spread.mul swapDecCoin.amount
    newDecCoinFromDec swapDecCoin.denom amount
  else newDecCoin swapDecCoin.denom 0

/-- The offered coins go to the market's account and are burnt. -/
def burnOffer (env : Env) (bank : Bank) (trader : AccAddress) (offerCoin : Coin) :
    Outcome SdkError Bank := do
  let offerCoins ← newCoins offerCoin
  let bank ← bank.sendCoins trader env.marketAddr offerCoins
  bank.burnCoins env.marketAddr offerCoins

/-- A fee that is not zero goes to the oracle's account. -/
def sendFee (env : Env) (bank : Bank) (feeCoin : Coin) : Outcome SdkError Bank :=
  if 0 < feeCoin.amount then do
    let feeCoins ← newCoins feeCoin
    bank.sendCoins env.marketAddr env.oracleAddr feeCoins
  else .ok bank

/-- The asked coins are minted and paid out. -/
def payAsk (env : Env) (bank : Bank) (receiver : AccAddress) (swapCoin feeCoin : Coin) :
    Outcome SdkError Bank := do
  let sum ← swapCoin.add feeCoin
  let mintCoins ← newCoins sum
  let bank ← bank.mintCoins env.marketAddr mintCoins
  let swapCoins ← newCoins swapCoin
  let bank ← bank.sendCoinsFromModuleToAccount env.bech32 env.blocked env.marketAddr receiver swapCoins
  sendFee env bank feeCoin

def handleSwapRequest (env : Env) (s : State) (trader receiver : AccAddress) (offerCoin : Coin)
    (askDenom : String) : Outcome SdkError (State × SwapResponse) := do
  let (retDecCoin, spread) ← computeSwap s offerCoin askDenom
  let feeDecCoin ← spreadFee retDecCoin spread
  let netAmount ← retDecCoin.amount.sub feeDecCoin.amount
  let swapDecCoin : DecCoin := ⟨retDecCoin.denom, netAmount⟩
  let s ← applySwapToPool s offerCoin swapDecCoin
  let bank ← burnOffer env s.bank trader offerCoin
  let (swapCoin, decimalCoin) ← swapDecCoin.truncateDecimal
  .failIf (swapCoin.amount ≤ 0) ⟨errZeroSwapCoin, ""⟩
  -- what the truncation cut off is charged too
  let feeDecCoin ← feeDecCoin.add decimalCoin
  let (feeCoin, _) ← feeDecCoin.truncateDecimal
  let bank ← payAsk env bank receiver swapCoin feeCoin
  .ok ({ s with bank := bank }, ⟨swapCoin, feeCoin⟩)

/-! ## Messages -/

/-- The checks both messages make of what is swapped. -/
def validateOffer (offerCoin : Coin) (askDenom : String) : Outcome SdkError Unit := do
  .failIf (offerCoin.amount ≤ 0 ∨ 2 ^ 100 ≤ offerCoin.amount) (wrap errInvalidCoins offerCoin.text)
  .failIf (offerCoin.denom = askDenom) (wrap errRecursiveSwap askDenom)

structure MsgSwap where
  trader : String
  offerCoin : Coin
  askDenom : String

structure MsgSwapSend where
  fromAddress : String
  toAddress : String
  offerCoin : Coin
  askDenom : String

def address (env : Env) (role text : String) : Outcome SdkError AccAddress :=
  .ofExcept (fun e => wrap errInvalidAddress ("Invalid " ++ role ++ " address (" ++ e ++ ")"))
    (env.bech32.accAddressFromBech32 text)

def MsgSwap.validateBasic (env : Env) (m : MsgSwap) : Outcome SdkError Unit := do
  let _ ← address env "trader" m.trader
  validateOffer m.offerCoin m.askDenom

def MsgSwapSend.validateBasic (env : Env) (m : MsgSwapSend) : Outcome SdkError Unit := do
  let _ ← address env "from" m.fromAddress
  let _ ← address env "to" m.toAddress
  validateOffer m.offerCoin m.askDenom

def swap (env : Env) (s : State) (m : MsgSwap) : Outcome SdkError (State × SwapResponse) := do
  let addr ← .ofExcept (wrap errInvalidAddress) (env.bech32.accAddressFromBech32 m.trader)
  handleSwapRequest env s addr addr m.offerCoin m.askDenom

def swapSend (env : Env) (s : State) (m : MsgSwapSend) :
    Outcome SdkError (State × SwapResponse) := do
  let fromAddr ← .ofExcept (wrap errInvalidAddress) (env.bech32.accAddressFromBech32 m.fromAddress)
  let toAddr ← .ofExcept (wrap errInvalidAddress) (env.bech32.accAddressFromBech32 m.toAddress)
  handleSwapRequest env s fromAddr toAddr m.offerCoin m.askDenom

/-! ## What the computations return -/

theorem computeInternalSwap_inv {s : State} {c d : DecCoin} {askDenom : String}
    (h : computeInternalSwap s c askDenom = .ok d) (hne : c.denom ≠ askDenom) :
    ∃ offerRate askRate, getDoExchangeRate s c.denom = some offerRate ∧
      getDoExchangeRate s askDenom = some askRate ∧ validDenom askDenom = true ∧
      d = ⟨askDenom, ⟨LegacyDec.quoRaw ⟨LegacyDec.mulRaw c.amount askRate⟩ offerRate⟩⟩ ∧
      0 < d.amount.i := by
  rw [computeInternalSwap, if_neg hne] at h
  simp only [effectivePrice, Outcome.bind_eq_ok, Outcome.ofOption_eq_ok, LegacyDec.mul,
    LegacyDec.check_eq_ok, LegacyDec.quo_eq_ok, Outcome.failIf_eq_ok, newDecCoinFromDec_eq_ok] at h
  obtain ⟨offerRate, hoffer, askRate, hask, _, ⟨_, rfl⟩, _, ⟨_, _, rfl⟩, _, hpos, hvalid, _, rfl⟩ := h
  exact ⟨offerRate, askRate, hoffer, hask, hvalid, rfl, not_le.mp hpos⟩

theorem computeInternalSwap_self (s : State) (c : DecCoin) :
    computeInternalSwap s c c.denom = .ok c := by
  rw [computeInternalSwap, if_pos rfl]

theorem computeInternalSwap_denom {s : State} {c d : DecCoin} {askDenom : String}
    (h : computeInternalSwap s c askDenom = .ok d) : d.denom = askDenom := by
  by_cases hd : c.denom = askDenom
  · subst hd
    rw [computeInternalSwap_self] at h
    rw [← Outcome.ok.inj h]
  · obtain ⟨_, _, _, _, _, rfl, _⟩ := computeInternalSwap_inv h hd
    rfl

/-- Nothing is converted to nothing, which is refused. -/
theorem computeInternalSwap_pos {s : State} {c d : DecCoin} {askDenom : String}
    (h : computeInternalSwap s c askDenom = .ok d) (hne : c.denom ≠ askDenom) : c.amount.i ≠ 0 := by
  obtain ⟨offerRate, askRate, _, _, _, rfl, hpos⟩ := computeInternalSwap_inv h hne
  intro hzero
  have hamount : c.amount = ⟨0⟩ := congrArg LegacyDec.mk hzero
  rw [hamount, LegacyDec.mulRaw_zero_left] at hpos
  simp at hpos

/-- A computed swap offers and returns something, in two denominations. -/
theorem computeSwap_inv {s : State} {offer : Coin} {askDenom : String} {ret : DecCoin}
    {spread : LegacyDec} (h : computeSwap s offer askDenom = .ok (ret, spread)) :
    offer.denom ≠ askDenom ∧ validDenom offer.denom = true ∧ 0 < offer.amount ∧
      ret.denom = askDenom ∧ 0 < ret.amount.i ∧
      ∃ base, computeInternalSwap s ⟨offer.denom, LegacyDec.ofInt offer.amount⟩ microDoDenom = .ok base ∧
        computeInternalSwap s base askDenom = .ok ret ∧
        swapSpread s offer.denom askDenom base.amount = .ok spread := by
  simp only [computeSwap, Outcome.bind_eq_ok, Outcome.failIf_eq_ok, newDecCoinFromCoin_eq_ok,
    Outcome.ok.injEq, Prod.mk.injEq] at h
  obtain ⟨_, hne, _, ⟨hvalid, hnonneg, rfl⟩, base, hbase, ret, hret, spread, hspread, rfl, rfl⟩ := h
  have hdenom := computeInternalSwap_denom hbase
  -- one of the two conversions is not between equal denominations
  have hpos : 0 < ret.amount.i ∧ (LegacyDec.ofInt offer.amount).i ≠ 0 := by
    by_cases hdo : offer.denom = microDoDenom
    · have hself : base = ⟨offer.denom, LegacyDec.ofInt offer.amount⟩ := by
        rw [← hdo, computeInternalSwap_self s ⟨offer.denom, LegacyDec.ofInt offer.amount⟩] at hbase
        exact (Outcome.ok.inj hbase).symm
      have hask : base.denom ≠ askDenom := by rw [hself]; exact hne
      obtain ⟨_, _, _, _, _, _, hret'⟩ := computeInternalSwap_inv hret hask
      have hzero := computeInternalSwap_pos hret hask
      rw [hself] at hzero
      exact ⟨hret', hzero⟩
    · obtain ⟨_, _, _, _, _, _, hbase'⟩ := computeInternalSwap_inv hbase hdo
      refine ⟨?_, computeInternalSwap_pos hbase hdo⟩
      by_cases hask : base.denom = askDenom
      · subst hask
        rw [computeInternalSwap_self] at hret
        rw [← Outcome.ok.inj hret]
        exact hbase'
      · obtain ⟨_, _, _, _, _, _, hret'⟩ := computeInternalSwap_inv hret hask
        exact hret'
  have hamount : offer.amount ≠ 0 := by
    intro hzero
    apply hpos.2
    rw [hzero]
    rfl
  exact ⟨hne, hvalid, by omega, computeInternalSwap_denom hret, hpos.1, base, hbase, hret, hspread⟩

theorem computeInternalSwap_fits {s : State} {c d : DecCoin} {askDenom : String}
    (h : computeInternalSwap s c askDenom = .ok d) (hne : c.denom ≠ askDenom) :
    LegacyDec.Fits d.amount.i := by
  rw [computeInternalSwap, if_neg hne] at h
  simp only [effectivePrice, Outcome.bind_eq_ok, Outcome.ofOption_eq_ok, LegacyDec.mul,
    LegacyDec.check_eq_ok, LegacyDec.quo_eq_ok, Outcome.failIf_eq_ok, newDecCoinFromDec_eq_ok] at h
  obtain ⟨_, _, _, _, _, ⟨_, rfl⟩, _, ⟨_, hfits, rfl⟩, _, _, _, _, rfl⟩ := h
  exact hfits

/-- One of the conversions is not between equal denominations, so what is returned has a
valid denomination and is in range. -/
theorem computeSwap_valid {s : State} {offer : Coin} {askDenom : String} {ret : DecCoin} {spread : LegacyDec}
    (h : computeSwap s offer askDenom = .ok (ret, spread)) :
    validDenom ret.denom = true ∧ LegacyDec.Fits ret.amount.i := by
  obtain ⟨hne, _, _, hdenom, _, base, hbase, hret, _⟩ := computeSwap_inv h
  rw [hdenom]
  by_cases hask : base.denom = askDenom
  · have hdo : microDoDenom = askDenom := (computeInternalSwap_denom hbase).symm.trans hask
    have hoffer : offer.denom ≠ microDoDenom := fun heq => hne (heq.trans hdo)
    rw [← hask, computeInternalSwap_self] at hret
    obtain ⟨_, _, _, _, hvalid, _, _⟩ := computeInternalSwap_inv hbase hoffer
    rw [← Outcome.ok.inj hret, ← hdo]
    exact ⟨hvalid, computeInternalSwap_fits hbase hoffer⟩
  · obtain ⟨_, _, _, _, hvalid, _, _⟩ := computeInternalSwap_inv hret hask
    exact ⟨hvalid, computeInternalSwap_fits hret hask⟩

theorem spreadFee_inv {ret fee : DecCoin} {spread : LegacyDec} (h : spreadFee ret spread = .ok fee) :
    fee.denom = ret.denom ∧ 0 ≤ fee.amount.i ∧
      fee.amount.i = if spread.IsPositive then LegacyDec.mulRaw spread ret.amount else 0 := by
  unfold spreadFee at h
  split_ifs at h ⊢ with hs
  · simp only [Outcome.bind_eq_ok, LegacyDec.mul, LegacyDec.check_eq_ok, newDecCoinFromDec_eq_ok] at h
    obtain ⟨_, ⟨_, rfl⟩, _, hnonneg, rfl⟩ := h
    exact ⟨rfl, hnonneg, rfl⟩
  · obtain ⟨_, _, rfl⟩ := newDecCoinFromCoin_eq_ok.mp h
    exact ⟨rfl, Int.le_refl 0, rfl⟩

/-- The pool changes nothing else. -/
theorem setDoPoolDelta_frame (s : State) (delta : LegacyDec) :
    (setDoPoolDelta s delta).params = s.params ∧ (setDoPoolDelta s delta).bank = s.bank ∧
      getDoPoolDelta (setDoPoolDelta s delta) = delta := by
  unfold setDoPoolDelta
  split_ifs with h
  · refine ⟨rfl, rfl, ?_⟩
    rw [getDoPoolDelta, h.2]
    rfl
  · exact ⟨rfl, rfl, rfl⟩

theorem applySwapToPool_frame {s s' : State} {offer : Coin} {ask : DecCoin}
    (h : applySwapToPool s offer ask = .ok s') : s'.params = s.params ∧ s'.bank = s.bank := by
  unfold applySwapToPool at h
  split_ifs at h
  · cases h
    exact ⟨rfl, rfl⟩
  · obtain ⟨delta, _, hs'⟩ := Outcome.bind_eq_ok.mp h
    cases hs'
    obtain ⟨hparams, hbank, _⟩ := setDoPoolDelta_frame s delta
    exact ⟨hparams, hbank⟩

/-! ## What a swap moves -/

theorem burnOffer_inv {env : Env} {bank bank' : Bank} {trader : AccAddress} {offer : Coin}
    (hvalid : validDenom offer.denom = true) (hpos : 0 < offer.amount)
    (h : burnOffer env bank trader offer = .ok bank') :
    (∀ a d, bank'.balance a d =
      bank.balance a d - if a = trader ∧ d = offer.denom then offer.amount else 0) ∧
    ∀ d, bank'.supply d = bank.supply d - if d = offer.denom then offer.amount else 0 := by
  have hset : Coins.IsValid [offer] := Bank.isValid_singleton.mpr ⟨hvalid, hpos⟩
  rw [burnOffer, newCoins_of_pos hvalid hpos, Outcome.ok_bind] at h
  obtain ⟨b₁, hsend, hburn⟩ := Outcome.bind_eq_ok.mp h
  obtain ⟨_, rfl⟩ := (Bank.sendCoins_one hset).mp hsend
  obtain rfl := Bank.burnCoins_one hset hburn
  refine ⟨?_, ?_⟩
  · intro a d
    simp only [Bank.addSupply_balance, Bank.addBalance_balance]
    split_ifs <;> omega
  · intro d
    simp only [Bank.addSupply_supply, Bank.addBalance_supply]
    split_ifs <;> omega

/-- A fee of nothing is not sent, which moves as much as sending it. -/
theorem sendFee_inv {env : Env} {bank bank' : Bank} {fee : Coin}
    (hvalid : validDenom fee.denom = true) (hnonneg : 0 ≤ fee.amount)
    (h : sendFee env bank fee = .ok bank') :
    (∀ a d, bank'.balance a d = bank.balance a d
      - (if a = env.marketAddr ∧ d = fee.denom then fee.amount else 0)
      + if a = env.oracleAddr ∧ d = fee.denom then fee.amount else 0) ∧
    bank'.supply = bank.supply := by
  unfold sendFee at h
  split_ifs at h with hpos
  · have hset : Coins.IsValid [fee] := Bank.isValid_singleton.mpr ⟨hvalid, hpos⟩
    rw [newCoins_of_pos hvalid hpos, Outcome.ok_bind] at h
    obtain ⟨_, rfl⟩ := (Bank.sendCoins_one hset).mp h
    refine ⟨?_, rfl⟩
    intro a d
    simp only [Bank.addBalance_balance]
    split_ifs <;> omega
  · cases h
    have hzero : fee.amount = 0 := by omega
    refine ⟨?_, rfl⟩
    intro a d
    simp [hzero]

/-- What is minted is paid out: nothing stays with the market. -/
theorem payAsk_inv {env : Env} {bank bank' : Bank} {receiver : AccAddress} {denom : String}
    {n m : Int} (hvalid : validDenom denom = true) (hn : 0 < n) (hm : 0 ≤ m)
    (h : payAsk env bank receiver ⟨denom, n⟩ ⟨denom, m⟩ = .ok bank') :
    (∀ a d, bank'.balance a d = bank.balance a d
      + (if a = receiver ∧ d = denom then n else 0)
      + if a = env.oracleAddr ∧ d = denom then m else 0) ∧
    ∀ d, bank'.supply d = bank.supply d + if d = denom then n + m else 0 := by
  obtain ⟨sum, hsum, h⟩ := Outcome.bind_eq_ok.mp h
  obtain ⟨_, rfl⟩ := Coin.add_inv hsum
  have hpos : 0 < n + m := by omega
  have hset : Coins.IsValid [⟨denom, n + m⟩] := Bank.isValid_singleton.mpr ⟨hvalid, hpos⟩
  have hswap : Coins.IsValid [⟨denom, n⟩] := Bank.isValid_singleton.mpr ⟨hvalid, hn⟩
  rw [newCoins_of_pos hvalid hpos, Outcome.ok_bind] at h
  obtain ⟨b₁, hmint, h⟩ := Outcome.bind_eq_ok.mp h
  obtain rfl := Bank.mintCoins_one hset hmint
  rw [newCoins_of_pos hvalid hn, Outcome.ok_bind] at h
  obtain ⟨b₂, hsend, hfee⟩ := Outcome.bind_eq_ok.mp h
  obtain ⟨_, hsend⟩ := Outcome.check_bind_eq_ok.mp hsend
  obtain ⟨_, rfl⟩ := (Bank.sendCoins_one hswap).mp hsend
  obtain ⟨hbal, hsupply⟩ := sendFee_inv hvalid hm hfee
  refine ⟨?_, ?_⟩
  · intro a d
    rw [hbal]
    simp only [Bank.addBalance_balance, Bank.addSupply_balance]
    split_ifs <;> omega
  · intro d
    rw [hsupply]
    rfl

/-- The steps of a swap that succeeded. -/
theorem handleSwapRequest_inv {env : Env} {s s' : State} {trader receiver : AccAddress}
    {offer : Coin} {askDenom : String} {res : SwapResponse}
    (h : handleSwapRequest env s trader receiver offer askDenom = .ok (s', res)) :
    ∃ ret spread fee s₁ bank₁,
      computeSwap s offer askDenom = .ok (ret, spread) ∧ spreadFee ret spread = .ok fee ∧
      applySwapToPool s offer ⟨ret.denom, ⟨ret.amount.i - fee.amount.i⟩⟩ = .ok s₁ ∧
      burnOffer env s₁.bank trader offer = .ok bank₁ ∧ validDenom ret.denom = true ∧
      0 ≤ ret.amount.i - fee.amount.i ∧
      res.swapCoin = ⟨ret.denom, (ret.amount.i - fee.amount.i) / LegacyDec.precision⟩ ∧
      0 < res.swapCoin.amount ∧
      res.swapFee = ⟨ret.denom, (fee.amount.i +
        (ret.amount.i - fee.amount.i) % LegacyDec.precision) / LegacyDec.precision⟩ ∧
      payAsk env bank₁ receiver res.swapCoin res.swapFee = .ok s'.bank ∧
      s' = { s₁ with bank := s'.bank } := by
  obtain ⟨⟨ret, spread⟩, hcompute, h⟩ := Outcome.bind_eq_ok.mp h
  obtain ⟨fee, hfee, h⟩ := Outcome.bind_eq_ok.mp h
  obtain ⟨net, hnet, h⟩ := Outcome.bind_eq_ok.mp h
  obtain ⟨_, rfl⟩ := LegacyDec.check_eq_ok.mp hnet
  obtain ⟨s₁, happly, h⟩ := Outcome.bind_eq_ok.mp h
  obtain ⟨bank₁, hburn, h⟩ := Outcome.bind_eq_ok.mp h
  obtain ⟨⟨swapCoin, decimalCoin⟩, htrunc, h⟩ := Outcome.bind_eq_ok.mp h
  obtain ⟨hvalid, hnonneg, rfl, rfl⟩ := DecCoin.truncateDecimal_inv htrunc
  obtain ⟨hpos, h⟩ := Outcome.check_bind_eq_ok.mp h
  rw [Outcome.failIf_eq_ok, not_le] at hpos
  obtain ⟨fee', hadd, h⟩ := Outcome.bind_eq_ok.mp h
  obtain ⟨hdenom, rfl⟩ := DecCoin.add_inv hadd
  obtain ⟨⟨feeCoin, _⟩, htrunc', h⟩ := Outcome.bind_eq_ok.mp h
  obtain ⟨_, _, rfl, _⟩ := DecCoin.truncateDecimal_inv htrunc'
  obtain ⟨bank', hpay, h⟩ := Outcome.bind_eq_ok.mp h
  cases h
  have hdenom : fee.denom = ret.denom := hdenom
  refine ⟨ret, spread, fee, s₁, bank₁, hcompute, hfee, happly, hburn, hvalid, hnonneg, rfl, hpos, ?_,
    hpay, rfl⟩
  rw [hdenom]

/-- Truncating the two parts of an amount and charging the first rest with the second
part loses nothing of the whole units. -/
theorem truncated_parts (net fee : Int) :
    net / LegacyDec.precision + (fee + net % LegacyDec.precision) / LegacyDec.precision
      = (net + fee) / LegacyDec.precision := by
  have hp : (LegacyDec.precision : Int) ≠ 0 := by
    have := LegacyDec.precision_pos
    omega
  have hsplit := Int.mul_ediv_add_emod net LegacyDec.precision
  have hsum : net + fee = (fee + net % LegacyDec.precision)
      + LegacyDec.precision * (net / LegacyDec.precision) := by omega
  rw [hsum, Int.add_mul_ediv_left _ _ hp, Int.add_comm]

/-- A swap that succeeds burns the offer and pays out the swap coin and the fee. -/
theorem handleSwapRequest_bank {env : Env} {s s' : State} {trader receiver : AccAddress} {offer : Coin}
    {askDenom : String} {res : SwapResponse}
    (h : handleSwapRequest env s trader receiver offer askDenom = .ok (s', res)) :
    offer.denom ≠ askDenom ∧ res.swapCoin.denom = askDenom ∧ res.swapFee.denom = askDenom ∧
    (∀ a d, s'.bank.balance a d = s.bank.balance a d
      - (if a = trader ∧ d = offer.denom then offer.amount else 0)
      + (if a = receiver ∧ d = askDenom then res.swapCoin.amount else 0)
      + (if a = env.oracleAddr ∧ d = askDenom then res.swapFee.amount else 0)) ∧
    (∀ d, s'.bank.supply d = s.bank.supply d
      - (if d = offer.denom then offer.amount else 0)
      + (if d = askDenom then res.swapCoin.amount + res.swapFee.amount else 0)) := by
  obtain ⟨ret, spread, fee, s₁, bank₁, hcompute, hfee, happly, hburn, hvalid, hnet, hswap, hpos,
    hswapFee, hpay, _⟩ := handleSwapRequest_inv h
  obtain ⟨hne, hofferValid, hoffer, hdenom, _, _⟩ := computeSwap_inv hcompute
  obtain ⟨_, hfeeNonneg, _⟩ := spreadFee_inv hfee
  obtain ⟨_, hbank⟩ := applySwapToPool_frame happly
  rw [hbank] at hburn
  obtain ⟨hburnBal, hburnSupply⟩ := burnOffer_inv hofferValid hoffer hburn
  have hp : (0 : Int) < LegacyDec.precision := by exact_mod_cast LegacyDec.precision_pos
  have hm : 0 ≤ (fee.amount.i + (ret.amount.i - fee.amount.i) % LegacyDec.precision)
      / LegacyDec.precision :=
    Int.ediv_nonneg (Int.add_nonneg hfeeNonneg (Int.emod_nonneg _ hp.ne')) hp.le
  rw [hswap] at hpos
  rw [hswap, hswapFee] at hpay
  obtain ⟨hpayBal, hpaySupply⟩ := payAsk_inv hvalid hpos hm hpay
  refine ⟨hne, ?_, ?_, ?_, ?_⟩
  · rw [hswap]
    exact hdenom
  · rw [hswapFee]
    exact hdenom
  · intro a d
    rw [hpayBal, hburnBal, hswap, hswapFee, hdenom]
  · intro d
    rw [hpaySupply, hburnSupply, hswap, hswapFee, hdenom]

/-- A swap that succeeds returns the whole units of the computed amount as swap coin
and fee, takes the offer off the trader, gives the swap coin to the receiver and the
fee to the oracle, and changes no other balance. -/
theorem swap_settles {env : Env} {s s' : State} {trader receiver : AccAddress} {offer : Coin}
    {askDenom : String} {res : SwapResponse}
    (h : handleSwapRequest env s trader receiver offer askDenom = .ok (s', res)) :
    ∃ ret spread, computeSwap s offer askDenom = .ok (ret, spread) ∧
      res.swapCoin.denom = askDenom ∧ res.swapFee.denom = askDenom ∧
      res.swapCoin.amount + res.swapFee.amount = ret.amount.i / LegacyDec.precision ∧
      (∀ a d, s'.bank.balance a d = s.bank.balance a d
        - (if a = trader ∧ d = offer.denom then offer.amount else 0)
        + (if a = receiver ∧ d = askDenom then res.swapCoin.amount else 0)
        + (if a = env.oracleAddr ∧ d = askDenom then res.swapFee.amount else 0)) ∧
      (∀ d, s'.bank.supply d = s.bank.supply d
        - (if d = offer.denom then offer.amount else 0)
        + (if d = askDenom then ret.amount.i / LegacyDec.precision else 0)) := by
  obtain ⟨ret, spread, fee, _, _, hcompute, _, _, _, _, _, hswap, _, hswapFee, _, _⟩ :=
    handleSwapRequest_inv h
  obtain ⟨_, hdenom, hfeeDenom, hbalance, hsupply⟩ := handleSwapRequest_bank h
  have hsum : res.swapCoin.amount + res.swapFee.amount = ret.amount.i / LegacyDec.precision := by
    rw [hswap, hswapFee]
    have hparts := truncated_parts (ret.amount.i - fee.amount.i) fee.amount.i
    rw [Int.sub_add_cancel] at hparts
    exact hparts
  rw [hsum] at hsupply
  exact ⟨ret, spread, hcompute, hdenom, hfeeDenom, hsum, hbalance, hsupply⟩

namespace Sample

open Sdk.Sample

def app : Env := ⟨bech32, market, oracle, fun a => a ∈ [dodxstaking, gov, market]⟩

/-- The default parameters. -/
def params : Params := ⟨LegacyDec.ofInt (10 ^ 12), 86400, ⟨2 * 10 ^ 16⟩⟩

/-- A market at rest: one udo is worth 1.5 uusd, and one wallet holds `n` udo. -/
def stateOf (n : Int) : State where
  height := 1
  params := params
  doPoolDelta := none
  exchangeRates denom := if denom = "uusd" then some ⟨15 * 10 ^ 17⟩ else none
  tobinTaxes _ := none
  bank := ⟨fun a d => if a = alice ∧ d = microDoDenom then n else 0,
    fun d => if d = microDoDenom then n else 0⟩

/-- Where the receiver is the oracle's account, it gains the swap coin and the fee. -/
theorem oracle_gains_both : ∃ s' res,
    handleSwapRequest app (stateOf (10 ^ 6)) alice oracle ⟨microDoDenom, 10 ^ 6⟩ "uusd" =
      .ok (s', res) ∧
    res.swapCoin = ⟨"uusd", 1470000⟩ ∧ res.swapFee = ⟨"uusd", 30000⟩ ∧
    (stateOf (10 ^ 6)).bank.balance oracle "uusd" = 0 ∧
    s'.bank.balance oracle "uusd" = 1500000 := by
  have hrun : (handleSwapRequest app (stateOf (10 ^ 6)) alice oracle ⟨microDoDenom, 10 ^ 6⟩
      "uusd").value.map (fun p => (p.2.swapCoin, p.2.swapFee, p.1.bank.balance oracle "uusd"))
      = some (⟨"uusd", 1470000⟩, ⟨"uusd", 30000⟩, 1500000) := by decide +kernel
  obtain ⟨⟨s', res⟩, hok, hvals⟩ := Outcome.value_map_eq_some.mp hrun
  simp only [Prod.mk.injEq] at hvals
  exact ⟨s', res, hok, hvals.1, hvals.2.1, by decide +kernel, hvals.2.2⟩

theorem alice_swaps : ∃ s' res,
    handleSwapRequest app (stateOf (10 ^ 6)) alice bob ⟨microDoDenom, 10 ^ 6⟩ "uusd" =
      .ok (s', res) ∧
    ∃ ret spread,
      computeSwap (stateOf (10 ^ 6)) ⟨microDoDenom, 10 ^ 6⟩ "uusd" = .ok (ret, spread) ∧
      res.swapCoin.denom = "uusd" ∧ res.swapFee.denom = "uusd" ∧
      res.swapCoin.amount + res.swapFee.amount = ret.amount.i / LegacyDec.precision ∧
      (∀ a d, s'.bank.balance a d = (stateOf (10 ^ 6)).bank.balance a d
        - (if a = alice ∧ d = microDoDenom then 10 ^ 6 else 0)
        + (if a = bob ∧ d = "uusd" then res.swapCoin.amount else 0)
        + (if a = app.oracleAddr ∧ d = "uusd" then res.swapFee.amount else 0)) ∧
      (∀ d, s'.bank.supply d = (stateOf (10 ^ 6)).bank.supply d
        - (if d = microDoDenom then 10 ^ 6 else 0)
        + (if d = "uusd" then ret.amount.i / LegacyDec.precision else 0)) := by
  have hrun : (handleSwapRequest app (stateOf (10 ^ 6)) alice bob ⟨microDoDenom, 10 ^ 6⟩
      "uusd").value.map (fun _ => ()) = some () := by decide +kernel
  obtain ⟨⟨s', res⟩, hok, _⟩ := Outcome.value_map_eq_some.mp hrun
  exact ⟨s', res, hok, swap_settles hok⟩

end Sample

end Market
