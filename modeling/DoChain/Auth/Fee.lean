import DoChain.Auth.Spamming

/- The decorator of fees (`custom/auth/ante/fee.go`, `custom/auth/ante/fee_tax.go`,
   `app/helper`).

   Correspondence (Go ↔ Lean):
     `helper.IsOracleTx`          ↔ `App.isOracleTx`
     `FilterMsgAndComputeTax`     ↔ `filterMsgAndComputeTax`
     `FeeDecorator.checkTxFee`    ↔ `checkTxFee`
     `FeeDecorator.checkDeductFee` ↔ `checkDeductFee`
     `DeductFees`                 ↔ `deductFees`
     `FeeDecorator.AnteHandle`    ↔ `anteHandleFee`, up to the call of the next decorator,
                                    which gets the new state and the priority

   The allowances of fee grants are code of the SDK, and so is `LegacyDec.Ceil`. The events
   are left out.

   `fee_settled` says what a transaction that passes has paid, and who has. -/

namespace Auth

open Sdk App

def errUnknownAddress : RegisteredError := ⟨"sdk", 9, "unknown address"⟩
def errInsufficientFee : RegisteredError := ⟨"sdk", 13, "insufficient fee"⟩

/-- A `FeeTx`, with what the decorator reads of it. -/
structure FeeTx where
  gas : Nat
  gas_lt : gas < 2 ^ 64
  fee : Coins
  feePayer : AccAddress
  feeGranter : Option AccAddress
  /-- `GetSigners`, of a transaction with signatures -/
  signers : Option (Except String (List AccAddress))
  msgs : List TxMsg

structure FeeContext where
  blockHeight : Int
  minGasPrices : List DecCoin

/-- The balances and the allowances. -/
structure FeeState (G : Type) where
  bank : Bank
  grants : G

structure FeeEnv (G : Type) where
  feeCollector : Option AccAddress
  useGrantedFees : Option (G → AccAddress → AccAddress → Coins → List TxMsg → Outcome SdkError G)
  hasAccount : AccAddress → Bool
  /-- the bytes of an address, printed as they are -/
  rawText : Bytes → String

/-! ## The required fee -/

/-- There are no taxes any more. -/
def filterMsgAndComputeTax (_ : List TxMsg) : Coins × Coins := ([], [])

/-- `LegacyDec.Ceil`. -/
def ceil (d : LegacyDec) : Outcome SdkError LegacyDec :=
  let quo := d.i.tdiv LegacyDec.precision
  if d.i.tmod LegacyDec.precision ≤ 0 then .ok (LegacyDec.ofInt quo)
  else LegacyDec.check (LegacyDec.ofInt (quo + 1)).i

def requiredFee (gas : Nat) (gp : DecCoin) : Outcome SdkError Coin := do
  let fee ← gp.amount.mul (LegacyDec.ofInt (wrap64 gas))
  let fee ← ceil fee
  let amount ← fee.roundInt
  newCoin gp.denom amount

def requiredFees (gas : Nat) : List DecCoin → Outcome SdkError Coins
  | [] => .ok []
  | gp :: rest => do
    let fee ← requiredFee gas gp
    let fees ← requiredFees gas rest
    .ok (fee :: fees)

/-- `Coins.IsAnyGTE`: a coin that is required, and enough of it. -/
def isAnyGTE (coinsB : Coins) : Coins → Outcome SdkError Bool
  | [] => .ok false
  | c :: rest =>
    if coinsB = [] then .ok false
    else do
      mustValidateDenom c.denom
      if coinsB.amountOf c.denom ≤ c.amount ∧ coinsB.amountOf c.denom ≠ 0 then .ok true
      else isAnyGTE coinsB rest

/-- The highest price of gas that a fee coin offers, of those that are `int64`. -/
def raisePriority (gas : Nat) (priority : Int) (c : Coin) : Outcome SdkError Int :=
  if wrap64 gas = 0 then .panic "Division by zero"
  else
    let gasPrice := c.amount.tdiv (wrap64 gas)
    .ok (if -2 ^ 63 ≤ gasPrice ∧ gasPrice < 2 ^ 63 ∧ priority < gasPrice then gasPrice else priority)

def pricesAreZero (prices : List DecCoin) : Bool := prices.all (fun gp => decide (gp.amount.i = 0))

/-- Oracle transactions need no fee. -/
def checkMinimumFee (ctx : FeeContext) (tx : FeeTx) : Outcome SdkError Unit :=
  if isOracleTx tx.msgs then .ok ()
  else if pricesAreZero ctx.minGasPrices then .ok ()
  else do
    let required ← requiredFees tx.gas ctx.minGasPrices
    let enough ← isAnyGTE required tx.fee
    .failIf (enough = false) (wrap errInsufficientFee ("insufficient fee; got: " ++ Bank.coinsText tx.fee ++
      " required: " ++ Bank.coinsText required))

/-- The priority is that of the fee coins, also of a transaction that does not pay them. -/
def checkTxFee (ctx : FeeContext) (tx : FeeTx) : Outcome SdkError Int := do
  checkMinimumFee ctx tx
  tx.fee.foldlM (raisePriority tx.gas) 0

/-! ## Deducting the fee -/

variable {G : Type} (env : FeeEnv G)

def feeError (text : String) : SdkError := wrap errInternal text

/-- `errorsmod.Wrapf` of an error that may be wrapped already. -/
def rewrap (e : SdkError) (text : String) : SdkError :=
  ⟨e.root, if e.text = "" then text else text ++ ": " ++ e.text⟩

/-- The payer a transaction names, or its first signer. -/
def feePayerOf (tx : FeeTx) : Outcome SdkError AccAddress :=
  if tx.feePayer ≠ [] then .ok tx.feePayer
  else
    match tx.signers with
    | none => .err (feeError "fee payer address not found and cannot cast to SigVerifiableTx")
    | some (.error e) => .err (feeError ("fee payer address not found and cannot get signers: " ++ e))
    | some (.ok []) => .err (feeError "fee payer address not found and no signers available")
    | some (.ok (signer :: _)) => .ok signer

/-- The allowances after the fee of a granter is used, and the account that pays. -/
def useGrant (tx : FeeTx) (fee : Coins) (grants : G) (feePayer : AccAddress) :
    Outcome SdkError (G × AccAddress) :=
  match tx.feeGranter with
  | none => .ok (grants, feePayer)
  | some feeGranter =>
    match env.useGrantedFees with
    | none => .err (wrap errInvalidRequest "fee grants are not enabled")
    | some useGrantedFees =>
      if feeGranter = feePayer then .ok (grants, feeGranter)
      else do
        let grants ← .mapErr (fun e => rewrap e (env.rawText feeGranter ++
            " does not not allow to pay fees for " ++ env.rawText feePayer))
          (useGrantedFees grants feeGranter feePayer fee tx.msgs)
        .ok (grants, feeGranter)

def coinsAreZero (coins : Coins) : Bool := coins.all (fun c => decide (c.amount = 0))

def deductFees (bank : Bank) (acc feeCollector : AccAddress) (fees : Coins) : Outcome SdkError Bank := do
  .failIf (¬ fees.IsValid) (wrap errInsufficientFee ("invalid fee amount: " ++ Bank.coinsText fees))
  .mapErr (fun e => wrap errInsufficientFunds (e.text ++ ": " ++ e.root.description))
    (bank.sendCoins acc feeCollector fees)

/-- A fee of nothing is not sent. -/
def payFees (bank : Bank) (acc feeCollector : AccAddress) (fees : Coins) : Outcome SdkError Bank :=
  if coinsAreZero fees then .ok bank else deductFees bank acc feeCollector fees

def checkDeductFee (s : FeeState G) (tx : FeeTx) (taxes : Coins) (simulate : Bool) :
    Outcome SdkError (FeeState G) := do
  let feeCollector ← .ofOption (feeError "fee collector module account (fee_collector) has not been set")
    env.feeCollector
  let fee := if isOracleTx tx.msgs then [] else tx.fee
  let feePayer ← feePayerOf tx
  let (grants, deductFeesFrom) ← useGrant env tx fee s.grants feePayer
  .failIf (env.hasAccount deductFeesFrom = false)
    (wrap errUnknownAddress ("fee payer address: " ++ env.rawText deductFeesFrom ++ " does not exist"))
  let feesToDeduct := if simulate && coinsAreZero fee then taxes else fee
  let bank ← payFees s.bank deductFeesFrom feeCollector feesToDeduct
  .ok ⟨bank, grants⟩

/-- A simulation checks no fee. -/
def priorityOf (ctx : FeeContext) (tx : FeeTx) (simulate : Bool) : Outcome SdkError Int :=
  if simulate then .ok 0 else checkTxFee ctx tx

/-- What the next decorator gets: the new state and the priority. -/
def anteHandleFee (ctx : FeeContext) (s : FeeState G) (tx : Option FeeTx) (simulate : Bool) :
    Outcome SdkError (FeeState G × Int) := do
  let tx ← .ofOption (wrap errTxDecode "Tx must be a FeeTx") tx
  .failIf (simulate = false ∧ 0 < ctx.blockHeight ∧ tx.gas = 0)
    (wrap errInvalidGasLimit "must provide positive gas")
  let (taxes, _) := filterMsgAndComputeTax tx.msgs
  let priority ← priorityOf ctx tx simulate
  let s ← checkDeductFee env s tx taxes simulate
  .ok (s, priority)

/-! ## What passes -/

variable {env}

/-- Rounded up to a whole number. -/
theorem ceil_inv {d e : LegacyDec} (h : ceil d = .ok e) :
    ∃ n, e = LegacyDec.ofInt n ∧ d.i ≤ n * LegacyDec.precision ∧
      n * LegacyDec.precision < d.i + LegacyDec.precision := by
  have hP : (0 : Int) < LegacyDec.precision := by exact_mod_cast LegacyDec.precision_pos
  have hsplit := Int.mul_tdiv_add_tmod d.i LegacyDec.precision
  have hupper := Int.tmod_lt_of_pos d.i hP
  have hlower := Int.lt_tmod_of_pos d.i hP
  rw [Int.mul_comm] at hsplit
  unfold ceil at h
  split_ifs at h with hrest
  · cases h
    exact ⟨_, rfl, by omega, by omega⟩
  · obtain ⟨_, rfl⟩ := LegacyDec.check_eq_ok.mp h
    refine ⟨_, rfl, ?_, ?_⟩ <;> rw [Int.add_mul, Int.one_mul] <;> omega

/-- A required fee is the price of the gas, rounded up. -/
theorem requiredFee_inv {gas : Nat} {gp : DecCoin} {c : Coin} (h : requiredFee gas gp = .ok c) :
    c.denom = gp.denom ∧ 0 ≤ c.amount ∧ gp.amount.i * wrap64 gas ≤ c.amount * LegacyDec.precision ∧
      c.amount * LegacyDec.precision < gp.amount.i * wrap64 gas + LegacyDec.precision := by
  obtain ⟨product, hproduct, h⟩ := Outcome.bind_eq_ok.mp h
  obtain ⟨rounded, hceil, h⟩ := Outcome.bind_eq_ok.mp h
  obtain ⟨amount, hround, h⟩ := Outcome.bind_eq_ok.mp h
  obtain ⟨_, rfl⟩ := LegacyDec.check_eq_ok.mp hproduct
  obtain ⟨n, rfl, hle, hlt⟩ := ceil_inv hceil
  obtain ⟨_, rfl⟩ := checkInt_eq_ok.mp hround
  obtain ⟨_, hnonneg, rfl⟩ := newCoin_eq_ok.mp h
  have hwhole : LegacyDec.chopPrecisionAndRound (LegacyDec.ofInt n).i = n :=
    HalfEven.div_mul_self n LegacyDec.precision_pos
  have hexact : LegacyDec.mulRaw gp.amount (LegacyDec.ofInt (wrap64 gas)) = gp.amount.i * wrap64 gas := by
    rw [LegacyDec.mulRaw, Int.mul_comm]
    exact (LegacyDec.mulRaw_ofInt _ _).trans (Int.mul_comm _ _)
  rw [hwhole] at hnonneg ⊢
  rw [hexact] at hle hlt
  exact ⟨rfl, hnonneg, hle, hlt⟩

/-- Every required fee is that of a price. -/
theorem requiredFees_inv {gas : Nat} {prices : List DecCoin} {fees : Coins}
    (h : requiredFees gas prices = .ok fees) : ∀ c ∈ fees, ∃ gp ∈ prices, requiredFee gas gp = .ok c := by
  induction prices generalizing fees with
  | nil =>
    cases h
    simp
  | cons gp rest ih =>
    obtain ⟨c, hc, h⟩ := Outcome.bind_eq_ok.mp h
    obtain ⟨cs, hcs, h⟩ := Outcome.bind_eq_ok.mp h
    cases h
    intro y hy
    rcases List.mem_cons.mp hy with rfl | hy
    · exact ⟨gp, List.mem_cons_self, hc⟩
    · obtain ⟨x, hx, heq⟩ := ih hcs y hy
      exact ⟨x, List.mem_cons_of_mem gp hx, heq⟩

/-- Some coin of the fee is at least what is required of its denomination. -/
theorem isAnyGTE_inv {coinsB coins : Coins} (h : isAnyGTE coinsB coins = .ok true) :
    ∃ c ∈ coins, ∃ b ∈ coinsB, b.denom = c.denom ∧ b.amount ≤ c.amount ∧ b.amount ≠ 0 := by
  induction coins with
  | nil => cases h
  | cons c rest ih =>
    by_cases hnil : coinsB = []
    · rw [isAnyGTE, if_pos hnil] at h
      cases h
    rw [isAnyGTE, if_neg hnil] at h
    obtain ⟨_, h⟩ := Outcome.check_bind_eq_ok.mp h
    split_ifs at h with hgte
    · cases hfind : Coins.find c.denom coinsB with
      | none =>
        rw [Coins.amountOf, hfind] at hgte
        exact absurd rfl hgte.2
      | some b =>
        obtain ⟨hb, hdenom⟩ := Coins.findFuel_mem hfind
        rw [Coins.amountOf, hfind] at hgte
        exact ⟨c, List.mem_cons_self, b, hb, hdenom, hgte.1, hgte.2⟩
    · obtain ⟨x, hx, b, hb, hfacts⟩ := ih h
      exact ⟨x, List.mem_cons_of_mem c hx, b, hb, hfacts⟩

/-- The fee of a transaction is enough for its gas at the node's prices. -/
def PaysForGas (ctx : FeeContext) (tx : FeeTx) : Prop :=
  tx.gas < 2 ^ 63 ∧ ∃ gp ∈ ctx.minGasPrices, ∃ c ∈ tx.fee, c.denom = gp.denom ∧ 0 < c.amount ∧
    gp.amount.i * tx.gas ≤ c.amount * LegacyDec.precision

/-- Gas from 2^63 on is negative as an `int64`, and so is a fee that would be required for it:
it is no coin. -/
theorem checkMinimumFee_inv {ctx : FeeContext} {tx : FeeTx} (h : checkMinimumFee ctx tx = .ok ())
    (horacle : isOracleTx tx.msgs = false) (hprices : ∀ gp ∈ ctx.minGasPrices, 0 ≤ gp.amount.i)
    (hsome : ∃ gp ∈ ctx.minGasPrices, 0 < gp.amount.i) : PaysForGas ctx tx := by
  obtain ⟨gp₀, hgp₀, hpos⟩ := hsome
  have hnonzero : pricesAreZero ctx.minGasPrices = false := by
    rw [pricesAreZero, List.all_eq_false]
    exact ⟨gp₀, hgp₀, by simpa using hpos.ne'⟩
  rw [checkMinimumFee, horacle, hnonzero, if_neg Bool.false_ne_true, if_neg Bool.false_ne_true] at h
  obtain ⟨required, hrequired, h⟩ := Outcome.bind_eq_ok.mp h
  obtain ⟨enough, henough, h⟩ := Outcome.bind_eq_ok.mp h
  rw [Outcome.failIf_eq_ok, Bool.not_eq_false] at h
  rw [h] at henough
  obtain ⟨c, hc, b, hb, hdenom, hle, hne⟩ := isAnyGTE_inv henough
  obtain ⟨gp, hgp, hfee⟩ := requiredFees_inv hrequired b hb
  obtain ⟨hdenom', hnonneg, hlower, hupper⟩ := requiredFee_inv hfee
  have hP : (0 : Int) < LegacyDec.precision := by exact_mod_cast LegacyDec.precision_pos
  have hwrap := wrap64_uint64 tx.gas_lt
  have hgas : tx.gas < 2 ^ 63 := by
    by_contra hlarge
    rw [if_neg hlarge] at hwrap
    have hneg : gp.amount.i * wrap64 tx.gas ≤ 0 := by
      have hlt := tx.gas_lt
      exact Int.mul_nonpos_of_nonneg_of_nonpos (hprices gp hgp) (by omega)
    have hone : LegacyDec.precision ≤ b.amount * LegacyDec.precision :=
      le_mul_of_one_le_left hP.le (by omega)
    omega
  rw [if_pos hgas] at hwrap
  rw [hwrap] at hlower
  refine ⟨hgas, gp, hgp, c, hc, hdenom ▸ hdenom', by omega, hlower.trans ?_⟩
  exact Int.mul_le_mul_of_nonneg_right hle hP.le

/-- What a transaction owes of a denomination; oracle transactions owe nothing. -/
def due (tx : FeeTx) (denom : String) : Int := if isOracleTx tx.msgs then 0 else tx.fee.total denom

/-- The allowances after a fee. -/
def Granted (env : FeeEnv G) (tx : FeeTx) (payer : AccAddress) (grants grants' : G) : Prop :=
  match tx.feeGranter with
  | none => grants' = grants
  | some granter => if granter = payer then grants' = grants
    else ∃ useGrantedFees, env.useGrantedFees = some useGrantedFees ∧
      useGrantedFees grants granter payer (if isOracleTx tx.msgs then [] else tx.fee) tx.msgs = .ok grants'

theorem useGrant_inv {tx : FeeTx} {fee : Coins} {grants grants' : G} {payer account : AccAddress}
    (hfee : fee = if isOracleTx tx.msgs then [] else tx.fee)
    (h : useGrant env tx fee grants payer = .ok (grants', account)) :
    account = tx.feeGranter.getD payer ∧ Granted env tx payer grants grants' := by
  unfold useGrant at h
  unfold Granted
  rw [← hfee]
  cases hgranter : tx.feeGranter with
  | none =>
    rw [hgranter] at h
    cases h
    exact ⟨rfl, rfl⟩
  | some granter =>
    rw [hgranter] at h
    dsimp only at h ⊢
    cases henv : env.useGrantedFees with
    | none =>
      rw [henv] at h
      cases h
    | some useGrantedFees =>
      rw [henv] at h
      dsimp only at h
      split_ifs at h ⊢ with hsame
      · cases h
        exact ⟨rfl, rfl⟩
      · obtain ⟨g, hg, h⟩ := Outcome.bind_eq_ok.mp h
        cases h
        exact ⟨rfl, useGrantedFees, rfl, Outcome.mapErr_eq_ok.mp hg⟩

theorem total_of_zero {coins : Coins} (h : coinsAreZero coins = true) (denom : String) : coins.total denom = 0 := by
  apply List.sum_eq_zero
  intro n hn
  obtain ⟨c, hc, rfl⟩ := List.mem_map.mp hn
  have hzero : c.amount = 0 := by simpa using List.all_eq_true.mp h c hc
  rw [hzero, ite_self]

theorem payFees_inv {bank bank' : Bank} {acc feeCollector : AccAddress} {fees : Coins}
    (h : payFees bank acc feeCollector fees = .ok bank') :
    (∀ a d, bank'.balance a d = bank.balance a d - (if a = acc then fees.total d else 0)
      + if a = feeCollector then fees.total d else 0) ∧ bank'.supply = bank.supply := by
  unfold payFees at h
  split_ifs at h with hzero
  · cases h
    refine ⟨fun a d => ?_, rfl⟩
    rw [total_of_zero hzero, ite_self, ite_self]
    omega
  · obtain ⟨_, hsend⟩ := Outcome.check_bind_eq_ok.mp h
    exact Bank.sendCoins_inv (Outcome.mapErr_eq_ok.mp hsend)

/-- A transaction that passes outside of a simulation has paid its fee, and nothing else has
moved: the account is that of the granter, whose allowance was used, or of the payer. Above
height zero it has gas, and on a node with a positive price the fee is enough for its gas,
unless it is one of the oracle. -/
theorem fee_settled {ctx : FeeContext} {s s' : FeeState G} {tx : FeeTx} {priority : Int}
    (h : anteHandleFee env ctx s (some tx) false = .ok (s', priority)) :
    (0 < ctx.blockHeight → tx.gas ≠ 0) ∧
    (isOracleTx tx.msgs = false → (∀ gp ∈ ctx.minGasPrices, 0 ≤ gp.amount.i) →
      (∃ gp ∈ ctx.minGasPrices, 0 < gp.amount.i) → PaysForGas ctx tx) ∧
    ∃ feeCollector payer, env.feeCollector = some feeCollector ∧ feePayerOf tx = .ok payer ∧
      env.hasAccount (tx.feeGranter.getD payer) = true ∧ Granted env tx payer s.grants s'.grants ∧
      (∀ a d, s'.bank.balance a d = s.bank.balance a d
        - (if a = tx.feeGranter.getD payer then due tx d else 0) + if a = feeCollector then due tx d else 0) ∧
      s'.bank.supply = s.bank.supply := by
  obtain ⟨_, htx, h⟩ := Outcome.bind_eq_ok.mp h
  cases htx
  obtain ⟨hgas, h⟩ := Outcome.check_bind_eq_ok.mp h
  rw [Outcome.failIf_eq_ok] at hgas
  obtain ⟨_, hprice, h⟩ := Outcome.bind_eq_ok.mp h
  obtain ⟨s₁, hdeduct, h⟩ := Outcome.bind_eq_ok.mp h
  cases h
  obtain ⟨hminimum, _⟩ := Outcome.check_bind_eq_ok.mp hprice
  refine ⟨fun hheight hzero => hgas ⟨rfl, hheight, hzero⟩, checkMinimumFee_inv hminimum, ?_⟩
  obtain ⟨feeCollector, hcollector, hdeduct⟩ := Outcome.bind_eq_ok.mp hdeduct
  obtain ⟨payer, hpayer, hdeduct⟩ := Outcome.bind_eq_ok.mp hdeduct
  obtain ⟨⟨grants, account⟩, hgrant, hdeduct⟩ := Outcome.bind_eq_ok.mp hdeduct
  obtain ⟨haccount, hdeduct⟩ := Outcome.check_bind_eq_ok.mp hdeduct
  obtain ⟨bank, hbank, hdeduct⟩ := Outcome.bind_eq_ok.mp hdeduct
  cases hdeduct
  obtain ⟨rfl, hgranted⟩ := useGrant_inv rfl hgrant
  rw [Outcome.failIf_eq_ok, Bool.not_eq_false] at haccount
  refine ⟨feeCollector, payer, Outcome.ofOption_eq_ok.mp hcollector, hpayer, haccount, hgranted, ?_⟩
  have hdue : ∀ d, due tx d = Coins.total (if isOracleTx tx.msgs then [] else tx.fee) d := by
    intro d
    unfold due
    split_ifs <;> rfl
  rw [Bool.false_and, if_neg Bool.false_ne_true] at hbank
  obtain ⟨hbalance, hsupply⟩ := payFees_inv hbank
  refine ⟨fun a d => ?_, hsupply⟩
  rw [hbalance, hdue]

namespace Sample

open Sdk.Sample (alice)

def feeCollector : AccAddress :=
  [241, 130, 150, 118, 219, 87, 118, 130, 233, 68, 252, 52, 147, 212, 81, 182, 127, 243, 226, 159]

/-- No allowances are kept. -/
def feeApp : FeeEnv Unit where
  feeCollector := some feeCollector
  useGrantedFees := none
  hasAccount := fun a => decide (a = alice)
  rawText := fun _ => ""

/-- A node that asks for 1.5 udo a unit of gas. -/
def feeContext : FeeContext := ⟨1, [⟨microDoDenom, ⟨15 * 10 ^ 17⟩⟩]⟩

/-- Alice holds 100 udo. -/
def wallet : FeeState Unit := ⟨⟨fun a d => if a = alice ∧ d = microDoDenom then 100 else 0, fun _ => 100⟩, ()⟩

/-- A transaction of another module, with 10 gas and a fee of 20 udo. -/
def feeTx : FeeTx := ⟨10, by decide, [⟨microDoDenom, 20⟩], alice, none, none, [.other]⟩

/-- Alice pays 20 udo, of which 15 were asked for. -/
theorem alice_pays_fee : ∃ s' priority, anteHandleFee feeApp feeContext wallet (some feeTx) false = .ok (s', priority) ∧
    s'.bank.balance alice microDoDenom = 80 ∧ s'.bank.balance feeCollector microDoDenom = 20 ∧
    PaysForGas feeContext feeTx := by
  have hrun : (anteHandleFee feeApp feeContext wallet (some feeTx) false).value.isSome = true := by decide +kernel
  obtain ⟨⟨s', priority⟩, hok⟩ := Option.isSome_iff_exists.mp hrun
  have hok := Outcome.value_eq_some.mp hok
  obtain ⟨_, hpays, collector, payer, hcollector, hpayer, _, _, hbalance, _⟩ := fee_settled hok
  cases hcollector
  cases hpayer
  refine ⟨s', priority, hok, ?_, ?_, hpays rfl (by decide) ⟨_, List.mem_cons_self, by decide⟩⟩
  · rw [hbalance]
    decide +kernel
  · rw [hbalance]
    decide +kernel

end Sample

end Auth
