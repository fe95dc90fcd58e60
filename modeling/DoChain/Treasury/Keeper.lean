import DoChain.Market.Swap
import DoChain.Oracle.Vote

/- The treasury's parameters and store (`x/treasury`).

   Correspondence (Go ↔ Lean):
     `types/params.go`    ↔ `Params`, `Params.validate`, `Params.paramSetPairs`, `Change.validate`
     `keeper/params.go`   ↔ `setParams`
     `keeper/keeper.go`   ↔ `Store` and its operations
     `keeper/gov.go`      ↔ `handleAddBurnTaxExemptionAddressProposal` and the removal

   A parameter is changed on its own, through the check of its key; `setParams` makes the
   check of every key, and panics on the first value that is refused. `Params.validate` is
   the check of a genesis. The keys of an epoch are the 8 bytes of its number, so they are
   the numbers here.

   The YAML text of a policy, sums of coins and the list of an account's balances are
   code of the SDK. -/

namespace Treasury

open Sdk

def errNoSuchBurnTaxExemptionAddress : RegisteredError :=
  ⟨"treasury", 1, "no such address in extemption list"⟩

/-! ## Parameters -/

structure PolicyConstraints where
  rateMin : LegacyDec
  rateMax : LegacyDec
  cap : Coin
  changeRateMax : LegacyDec
  deriving DecidableEq

structure Params where
  taxPolicy : PolicyConstraints
  rewardPolicy : PolicyConstraints
  seigniorageBurdenTarget : LegacyDec
  miningIncrement : LegacyDec
  windowShort : Nat
  windowLong : Nat
  windowProbation : Nat
  burnTaxSplit : LegacyDec
  minInitialDepositRatio : LegacyDec
  oracleSplit : LegacyDec
  deriving DecidableEq

def defaultTaxPolicy : PolicyConstraints where
  rateMin := ⟨5 * 10 ^ 14⟩
  rateMax := ⟨10 ^ 16⟩
  cap := ⟨microDoDenom, 10 ^ 6⟩
  changeRateMax := ⟨25 * 10 ^ 13⟩

def defaultRewardPolicy : PolicyConstraints where
  rateMin := ⟨5 * 10 ^ 16⟩
  rateMax := ⟨50 * 10 ^ 16⟩
  cap := ⟨microDoDenom, 0⟩
  changeRateMax := ⟨25 * 10 ^ 15⟩

def defaultTaxRate : LegacyDec := ⟨10 ^ 15⟩
def defaultRewardWeight : LegacyDec := ⟨5 * 10 ^ 16⟩

def defaultParams : Params where
  taxPolicy := defaultTaxPolicy
  rewardPolicy := defaultRewardPolicy
  seigniorageBurdenTarget := ⟨67 * 10 ^ 16⟩
  miningIncrement := ⟨107 * 10 ^ 16⟩
  -- a month, a year and three months, in weeks
  windowShort := 4
  windowLong := 52
  windowProbation := 12
  burnTaxSplit := ⟨10 ^ 17⟩
  minInitialDepositRatio := .zero
  oracleSplit := .one

/-- The code of the SDK and of other modules that the treasury calls. -/
structure Env where
  bech32 : Bech32
  burnAddr : AccAddress
  allBalances : Bank → AccAddress → Coins
  /-- `Coins.Add` -/
  addCoins : Coins → Coins → Outcome SdkError Coins
  /-- the YAML of a policy, in error texts -/
  policyText : PolicyConstraints → String

def Params.validate (p : Params) : Outcome String Unit := do
  .failIf (p.taxPolicy.rateMax < p.taxPolicy.rateMin)
    ("treasury TaxPolicy.RateMax " ++ p.taxPolicy.rateMax.text ++
      " must be greater than TaxPolicy.RateMin " ++ p.taxPolicy.rateMin.text)
  .failIf p.taxPolicy.rateMin.IsNegative
    ("treasury parameter TaxPolicy.RateMin must be zero or positive: " ++ p.taxPolicy.rateMin.text)
  .failIf (p.taxPolicy.cap.isValid = false) "treasury parameter TaxPolicy.Cap is invalid"
  .failIf p.taxPolicy.changeRateMax.IsNegative
    ("treasury parameter TaxPolicy.ChangeRateMax must be positive: " ++ p.taxPolicy.changeRateMax.text)
  .failIf (p.rewardPolicy.rateMax < p.rewardPolicy.rateMin)
    ("treasury RewardPolicy.RateMax " ++ p.rewardPolicy.rateMax.text ++
      " must be greater than RewardPolicy.RateMin " ++ p.rewardPolicy.rateMin.text)
  .failIf p.rewardPolicy.rateMin.IsNegative
    ("treasury parameter RewardPolicy.RateMin must be positive: " ++ p.rewardPolicy.rateMin.text)
  .failIf p.rewardPolicy.changeRateMax.IsNegative
    ("treasury parameter RewardPolicy.ChangeRateMax must be positive: " ++ p.rewardPolicy.changeRateMax.text)
  .failIf p.seigniorageBurdenTarget.IsNegative
    ("treasury parameter SeigniorageBurdenTarget must be positive: " ++ p.seigniorageBurdenTarget.text)
  .failIf p.miningIncrement.IsNegative
    ("treasury parameter MiningIncrement must be positive: " ++ p.miningIncrement.text)
  .failIf (p.windowLong ≤ p.windowShort)
    s!"treasury parameter WindowLong must be bigger than WindowShort: ({p.windowLong}, {p.windowShort})"
  .failIf p.oracleSplit.IsNegative
    ("treasury parameter OracleSplit must be positive: " ++ p.oracleSplit.text)
  .failIf (LegacyDec.one < p.oracleSplit)
    ("treasury parameter OracleSplit must be less than or equal to 1.0: " ++ p.oracleSplit.text)

/-! ## The checks of the keys -/

def validateNonNegative (text : String) (v : LegacyDec) : Outcome String Unit :=
  .failIf v.IsNegative (text ++ v.text)

def validateFraction (negative large : String) (v : LegacyDec) : Outcome String Unit := do
  .failIf v.IsNegative (negative ++ v.text)
  .failIf (LegacyDec.one < v) (large ++ v.text)

def validateTaxPolicy (env : Env) (v : PolicyConstraints) : Outcome String Unit := do
  .failIf v.rateMin.IsNegative ("rate min must be positive: " ++ env.policyText v)
  .failIf (v.rateMax < v.rateMin) ("rate max must be bigger than rate min: " ++ env.policyText v)
  .failIf (v.cap.isValid = false) ("cap is invalid: " ++ env.policyText v)
  .failIf v.changeRateMax.IsNegative ("max change rate must be positive: " ++ env.policyText v)

/-- The cap of the reward policy is not checked. -/
def validateRewardPolicy (env : Env) (v : PolicyConstraints) : Outcome String Unit := do
  .failIf v.rateMin.IsNegative ("rate min must be positive: " ++ env.policyText v)
  .failIf (v.rateMax < v.rateMin) ("rate max must be bigger than rate min: " ++ env.policyText v)
  .failIf v.changeRateMax.IsNegative ("max change rate must be positive: " ++ env.policyText v)

def validateSeigniorageBurdenTarget : LegacyDec → Outcome String Unit :=
  validateNonNegative "seigniorage burden target must be positive: "

def validateMiningIncrement : LegacyDec → Outcome String Unit :=
  validateNonNegative "mining increment must be positive: "

/-- A window is any unsigned number. -/
def validateWindow (_ : Nat) : Outcome String Unit := .ok ()

def validateWindowShort : Nat → Outcome String Unit := validateWindow
def validateWindowLong : Nat → Outcome String Unit := validateWindow
def validateWindowProbation : Nat → Outcome String Unit := validateWindow

def validateBurnTaxSplit : LegacyDec → Outcome String Unit :=
  validateNonNegative "burn tax split must be positive: "

def validateMinInitialDepositRatio : LegacyDec → Outcome String Unit :=
  validateFraction "min initial deposit ratio must be positive: "
    "min initial deposit ratio must less than or equal 1.0: "

def validateOraceSplit : LegacyDec → Outcome String Unit :=
  validateFraction "oracle split must be positive: " "oracle split must be less than or equal to 1.0: "

/-- A key of the parameters, and a value for it. -/
inductive Change where
  | taxPolicy (v : PolicyConstraints)
  | rewardPolicy (v : PolicyConstraints)
  | seigniorageBurdenTarget (v : LegacyDec)
  | miningIncrement (v : LegacyDec)
  | windowShort (v : Nat)
  | windowLong (v : Nat)
  | windowProbation (v : Nat)
  | burnTaxSplit (v : LegacyDec)
  | minInitialDepositRatio (v : LegacyDec)
  | oracleSplit (v : LegacyDec)

def Change.validate (env : Env) : Change → Outcome String Unit
  | taxPolicy v => validateTaxPolicy env v
  | rewardPolicy v => validateRewardPolicy env v
  | seigniorageBurdenTarget v => validateSeigniorageBurdenTarget v
  | miningIncrement v => validateMiningIncrement v
  | windowShort v => validateWindowShort v
  | windowLong v => validateWindowLong v
  | windowProbation v => validateWindowProbation v
  | burnTaxSplit v => validateBurnTaxSplit v
  | minInitialDepositRatio v => validateMinInitialDepositRatio v
  | oracleSplit v => validateOraceSplit v

def Change.apply (p : Params) : Change → Params
  | taxPolicy v => { p with taxPolicy := v }
  | rewardPolicy v => { p with rewardPolicy := v }
  | seigniorageBurdenTarget v => { p with seigniorageBurdenTarget := v }
  | miningIncrement v => { p with miningIncrement := v }
  | windowShort v => { p with windowShort := v }
  | windowLong v => { p with windowLong := v }
  | windowProbation v => { p with windowProbation := v }
  | burnTaxSplit v => { p with burnTaxSplit := v }
  | minInitialDepositRatio v => { p with minInitialDepositRatio := v }
  | oracleSplit v => { p with oracleSplit := v }

def Params.paramSetPairs (p : Params) : List Change :=
  [.taxPolicy p.taxPolicy, .rewardPolicy p.rewardPolicy, .seigniorageBurdenTarget p.seigniorageBurdenTarget,
    .miningIncrement p.miningIncrement, .windowShort p.windowShort, .windowLong p.windowLong,
    .windowProbation p.windowProbation, .burnTaxSplit p.burnTaxSplit,
    .minInitialDepositRatio p.minInitialDepositRatio, .oracleSplit p.oracleSplit]

/-! ## The store -/

/-- The entries of the treasury's store. An address is exempted under the text it was
given as. -/
structure Store where
  params : Params
  taxRate : Option LegacyDec
  rewardWeight : Option LegacyDec
  taxCaps : SortedMap String Int
  taxProceeds : Option Coins
  epochInitialIssuance : Option Coins
  taxRewards : SortedMap Nat LegacyDec
  seigniorageRewards : SortedMap Nat LegacyDec
  totalStaked : SortedMap Nat Int
  burnTaxExemptions : SortedMap String Unit

/-- The store and what the treasury reads of other modules: the height, the oracle's rates
and the bank are those of the market. -/
structure World where
  store : Store
  market : Market.State
  whitelist : List Oracle.Denom
  /-- `TotalBondedTokens` of the staking module -/
  totalBondedTokens : Except String Int

/-- `core.BlocksPerWeek`. -/
def blocksPerWeek : Nat := 60 * 60 * 24 * 7

/-- The height of a block is not negative. -/
def World.height (w : World) : Nat := w.market.height.toNat

def getEpoch (w : World) : Nat := w.height / blocksPerWeek

def IsPeriodLastBlock (w : World) : Prop := (w.height + 1) % blocksPerWeek = 0
instance (w : World) : Decidable (IsPeriodLastBlock w) :=
  inferInstanceAs (Decidable ((w.height + 1) % blocksPerWeek = 0))

def setParams (env : Env) (s : Store) (p : Params) : Outcome SdkError Store := do
  setParamSet (Change.validate env) p.paramSetPairs
  .ok { s with params := p }

def getTaxRate (s : Store) : LegacyDec := s.taxRate.getD defaultTaxRate
def setTaxRate (s : Store) (taxRate : LegacyDec) : Store := { s with taxRate := some taxRate }

def getRewardWeight (s : Store) : LegacyDec := s.rewardWeight.getD defaultRewardWeight
def setRewardWeight (s : Store) (rewardWeight : LegacyDec) : Store := { s with rewardWeight := some rewardWeight }

def setTaxCap (s : Store) (denom : String) (cap : Int) : Store := { s with taxCaps := s.taxCaps.set denom cap }

def peekEpochTaxProceeds (s : Store) : Coins := s.taxProceeds.getD []
def setEpochTaxProceeds (s : Store) (taxProceeds : Coins) : Store := { s with taxProceeds := some taxProceeds }

def coinsIsZero (coins : Coins) : Bool := coins.all fun c => decide (c.amount = 0)

def recordEpochTaxProceeds (env : Env) (s : Store) (delta : Coins) : Outcome SdkError Store :=
  if coinsIsZero delta then .ok s
  else do
    let proceeds ← env.addCoins (peekEpochTaxProceeds s) delta
    .ok (setEpochTaxProceeds s proceeds)

def getEpochInitialIssuance (s : Store) : Coins := s.epochInitialIssuance.getD []
def setEpochInitialIssuance (s : Store) (issuance : Coins) : Store :=
  { s with epochInitialIssuance := some issuance }

/-- `Coins.Sort`. -/
def sortCoins (coins : Coins) : Coins := coins.insertionSort fun a b => a.denom ≤ b.denom

def getSupply (w : World) (denom : String) : Coin := ⟨denom, w.market.bank.supply denom⟩

def recordEpochInitialIssuance (w : World) : World :=
  let totalSupply := getSupply w microDoDenom :: w.whitelist.map fun denom => getSupply w denom.name
  { w with store := setEpochInitialIssuance w.store (sortCoins totalSupply) }

/-- What left the supply since the epoch began. -/
def peekEpochSeigniorage (w : World) : Outcome SdkError Int := do
  let epochIssuance := (getSupply w microDoDenom).amount
  let preEpochIssuance := Coins.amountOf (getEpochInitialIssuance w.store) microDoDenom
  let epochSeigniorage ← checkInt (preEpochIssuance - epochIssuance)
  .ok (if epochSeigniorage < 0 then 0 else epochSeigniorage)

def getTR (s : Store) (epoch : Nat) : LegacyDec := (s.taxRewards.get epoch).getD .zero
def setTR (s : Store) (epoch : Nat) (tr : LegacyDec) : Store :=
  { s with taxRewards := s.taxRewards.set epoch tr }

def getSR (s : Store) (epoch : Nat) : LegacyDec := (s.seigniorageRewards.get epoch).getD .zero
def setSR (s : Store) (epoch : Nat) (sr : LegacyDec) : Store :=
  { s with seigniorageRewards := s.seigniorageRewards.set epoch sr }

def getTSL (s : Store) (epoch : Nat) : Int := (s.totalStaked.get epoch).getD 0
def setTSL (s : Store) (epoch : Nat) (tsl : Int) : Store :=
  { s with totalStaked := s.totalStaked.set epoch tsl }

/-! ## The exemption list -/

/-- An address that does not decode is a panic. -/
def mustDecode (env : Env) (address : String) : Outcome SdkError Unit :=
  match env.bech32.accAddressFromBech32 address with
  | .ok _ => .ok ()
  | .error text => .panic text

def addBurnTaxExemptionAddress (env : Env) (s : Store) (address : String) : Outcome SdkError Store := do
  mustDecode env address
  .ok { s with burnTaxExemptions := s.burnTaxExemptions.set address () }

def removeBurnTaxExemptionAddress (env : Env) (s : Store) (address : String) : Outcome SdkError Store := do
  mustDecode env address
  .failIf (s.burnTaxExemptions.get address = none)
    (wrap errNoSuchBurnTaxExemptionAddress ("address = " ++ address))
  .ok { s with burnTaxExemptions := s.burnTaxExemptions.erase address }

def handleAddBurnTaxExemptionAddressProposal (env : Env) (s : Store) (addresses : List String) :
    Outcome SdkError Store :=
  addresses.foldlM (addBurnTaxExemptionAddress env) s

def handleRemoveBurnTaxExemptionAddressProposal (env : Env) (s : Store) (addresses : List String) :
    Outcome SdkError Store :=
  addresses.foldlM (removeBurnTaxExemptionAddress env) s

end Treasury
