import DoChain.Lib.Trace
import DoChain.Treasury.Keeper

/- The treasury at the end of a block (`x/treasury`).

   Correspondence (Go ↔ Lean):
     `abci.go: EndBlocker`        ↔ `endBlocker`
     `keeper/burn_account.go`     ↔ `burnCoinsFromBurnAccount`
     `keeper/indicator.go`        ↔ `alignCoins`, `updateIndicators`, `sumIndicator` and the rest
     `keeper/policy.go`           ↔ `updateTaxPolicy`, `updateRewardPolicy`, `updateTaxCap`
     `types/constraint.go: Clamp` ↔ `PolicyConstraints.clamp`

   At the last block of an epoch the treasury records the indicators of the epoch, moves
   the tax rate and the reward weight, converts the tax cap, and records the supply. The
   events are left out.

   `endBlocker_inv` says what a block's end can do to the store, and `policy_bounds` what
   a run of them does to the two rates. -/

namespace Treasury

open Sdk

/-! ## Indicators -/

/-- `NewDecCoinsFromCoins`: every zero coin leaves an unset coin at the end. -/
def newDecCoins (coins : Coins) : Outcome SdkError (List (Option DecCoin)) :=
  let newCoins := sortCoins (coins.filter fun c => c.amount ≠ 0)
  if Coins.IsValid newCoins then
    .ok (newCoins.map (fun c => some ⟨c.denom, LegacyDec.ofInt c.amount⟩) ++
      List.replicate (coins.length - newCoins.length) none)
  else .panic ("invalid coin set " ++ Bank.coinsText newCoins)

/-- A coin that cannot be converted is skipped. -/
def alignCoin (s : Market.State) (denom : String) (aligned : LegacyDec) :
    Option DecCoin → Outcome SdkError LegacyDec
  | some coin =>
    if coin.denom ≠ denom then
      match Market.computeInternalSwap s coin denom with
      | .ok swapped => aligned.add swapped.amount
      | .err _ => .ok aligned
      | .panic text => .panic text
    else aligned.add coin.amount
  -- an unset coin has an empty denomination and no amount to multiply
  | none =>
    match s.exchangeRates "" with
    | none => .ok aligned
    | some _ => .panic "invalid memory address or nil pointer dereference"

def alignCoins (s : Market.State) (coins : List (Option DecCoin)) (denom : String) :
    Outcome SdkError LegacyDec :=
  coins.foldlM (alignCoin s denom) .zero

def updateIndicators (w : World) : Outcome SdkError World := do
  let epoch := getEpoch w
  let totalStakedDo := match w.totalBondedTokens with
    | .ok tokens => tokens
    | .error _ => 0
  let store := setTSL w.store epoch totalStakedDo
  let taxRewards ← newDecCoins (peekEpochTaxProceeds store)
  let tr ← alignCoins w.market taxRewards microDoDenom
  let store := setEpochTaxProceeds (setTR store epoch tr) []
  let seigniorage ← peekEpochSeigniorage { w with store }
  let seigniorageRewardsAmt ← (getRewardWeight store).mulInt seigniorage
  let seigniorageReward ← newDecCoinFromDec microDoDenom seigniorageRewardsAmt
  let sr ← alignCoins w.market [some seigniorageReward] microDoDenom
  .ok { w with store := setSR store epoch sr }

/-- Tax rewards for each staked DO. -/
def TRL (s : Store) (epoch : Nat) : Outcome SdkError LegacyDec :=
  let tr := getTR s epoch
  let tsl := getTSL s epoch
  if tr.i = 0 ∨ tsl = 0 then .ok .zero else tr.quoInt tsl

def SR (s : Store) (epoch : Nat) : Outcome SdkError LegacyDec := .ok (getSR s epoch)

/-- Mining rewards: seigniorage and taxes. -/
def MR (s : Store) (epoch : Nat) : Outcome SdkError LegacyDec := (getTR s epoch).add (getSR s epoch)

/-- The loop over the epochs, downwards from the one before `next`: the sum, and the epoch
it stopped at. -/
def sumEpochs (indicator : Nat → Outcome SdkError LegacyDec) (stop : Int) :
    (next : Nat) → LegacyDec → Outcome SdkError (LegacyDec × Int)
  | 0, sum => .ok (sum, -1)
  | i + 1, sum =>
    if stop < i then do
      let val ← indicator i
      let sum ← sum.add val
      sumEpochs indicator stop i sum
    else .ok (sum, i)

/-- The indicator over the last epochs; the number of epochs is a signed one. -/
def sumIndicator (w : World) (epochs : Int) (indicator : Store → Nat → Outcome SdkError LegacyDec) :
    Outcome SdkError LegacyDec := do
  let curEpoch := getEpoch w
  let (sum, _) ← sumEpochs (indicator w.store) (wrap64 (curEpoch - epochs)) (curEpoch + 1) .zero
  .ok sum

def rollingAverageIndicator (w : World) (epochs : Int)
    (indicator : Store → Nat → Outcome SdkError LegacyDec) : Outcome SdkError LegacyDec := do
  let curEpoch := getEpoch w
  let (sum, i) ← sumEpochs (indicator w.store) (wrap64 (curEpoch - epochs)) (curEpoch + 1) .zero
  let computedEpochs := (curEpoch : Int) - i
  if computedEpochs = 0 then .ok sum else sum.quoInt64 computedEpochs

/-! ## Policies -/

/-- The step, if it is not too large. -/
def PolicyConstraints.limitStep (pc : PolicyConstraints) (prevRate newRate delta : LegacyDec) :
    Outcome SdkError LegacyDec :=
  if prevRate < newRate then
    if pc.changeRateMax < delta then prevRate.add pc.changeRateMax else .ok newRate
  else
    if pc.changeRateMax.i < |delta.i| then prevRate.sub pc.changeRateMax else .ok newRate

def PolicyConstraints.limitRange (pc : PolicyConstraints) (newRate : LegacyDec) : LegacyDec :=
  if newRate < pc.rateMin then pc.rateMin
  else if pc.rateMax < newRate then pc.rateMax
  else newRate

def PolicyConstraints.clamp (pc : PolicyConstraints) (prevRate newRate : LegacyDec) :
    Outcome SdkError LegacyDec := do
  let delta ← newRate.sub prevRate
  let newRate ← pc.limitStep prevRate newRate delta
  .ok (pc.limitRange newRate)

/-- Without revenues the rate is raised as far as it goes. -/
def nextTaxRate (params : Params) (oldTaxRate tlYear tlMonth : LegacyDec) : Outcome SdkError LegacyDec :=
  if tlMonth.i = 0 then .ok params.taxPolicy.rateMax
  else do
    let grown ← tlYear.mul params.miningIncrement
    let product ← oldTaxRate.mul grown
    product.quo tlMonth

def updateTaxPolicy (w : World) : Outcome SdkError (World × LegacyDec) := do
  let params := w.store.params
  let oldTaxRate := getTaxRate w.store
  let tlYear ← rollingAverageIndicator w (wrap64 params.windowLong) TRL
  let tlMonth ← rollingAverageIndicator w (wrap64 params.windowShort) TRL
  let newTaxRate ← nextTaxRate params oldTaxRate tlYear tlMonth
  let newTaxRate ← params.taxPolicy.clamp oldTaxRate newTaxRate
  .ok ({ w with store := setTaxRate w.store newTaxRate }, newTaxRate)

def nextRewardWeight (params : Params) (oldWeight seigniorageSum totalSum : LegacyDec) :
    Outcome SdkError LegacyDec :=
  if totalSum.i = 0 ∨ seigniorageSum.i = 0 then .ok params.rewardPolicy.rateMax
  else do
    let sb ← seigniorageSum.quo totalSum
    let factor ← params.seigniorageBurdenTarget.quo sb
    oldWeight.mul factor

def updateRewardPolicy (w : World) : Outcome SdkError (World × LegacyDec) := do
  let params := w.store.params
  let oldWeight := getRewardWeight w.store
  let seigniorageSum ← sumIndicator w (wrap64 params.windowShort) SR
  let totalSum ← sumIndicator w (wrap64 params.windowShort) MR
  let newRewardWeight ← nextRewardWeight params oldWeight seigniorageSum totalSum
  let newRewardWeight ← params.rewardPolicy.clamp oldWeight newRewardWeight
  .ok ({ w with store := setRewardWeight w.store newRewardWeight }, newRewardWeight)

/-- The cap in one more denomination; one without a price is skipped. -/
def convertTaxCap (s : Market.State) (taxPolicyCap : DecCoin) (acc : Store × Coins) (denom : Oracle.Denom) :
    Outcome SdkError (Store × Coins) :=
  if denom.name = taxPolicyCap.denom then .ok acc
  else
    match Market.computeInternalSwap s taxPolicyCap denom.name with
    | .ok newDecCap => do
      let (newCap, _) ← newDecCap.truncateDecimal
      .ok (setTaxCap acc.1 newCap.denom newCap.amount, acc.2 ++ [newCap])
    | .err _ => .ok acc
    | .panic text => .panic text

def updateTaxCap (w : World) : Outcome SdkError (World × Coins) := do
  let taxPolicyCap ← newDecCoinFromCoin w.store.params.taxPolicy.cap
  let (store, newCaps) ← w.whitelist.foldlM (convertTaxCap w.market taxPolicyCap) (w.store, [])
  .ok ({ w with store }, newCaps)

/-! ## The end of a block -/

def burnCoinsFromBurnAccount (env : Env) (w : World) : Outcome SdkError World :=
  let coins := env.allBalances w.market.bank env.burnAddr
  if coinsIsZero coins then .ok w
  else
    match w.market.bank.burnCoins env.burnAddr coins with
    | .ok bank => .ok { w with market := { w.market with bank } }
    | .err e => .panic e.text
    | .panic text => .panic text

/-- The number of blocks of the probation is an unsigned product, read as a signed one. -/
def InProbation (w : World) : Prop :=
  (w.height : Int) < wrap64 (blocksPerWeek * w.store.params.windowProbation : Nat)
instance (w : World) : Decidable (InProbation w) :=
  inferInstanceAs (Decidable ((w.height : Int) < _))

def updatePolicies (w : World) : Outcome SdkError World :=
  if InProbation w then .ok w
  else do
    let (w, _) ← updateTaxPolicy w
    let (w, _) ← updateRewardPolicy w
    let (w, _) ← updateTaxCap w
    .ok w

/-- The supply is recorded last, also in the probation. -/
def endBlocker (env : Env) (w : World) : Outcome SdkError World := do
  let w ← burnCoinsFromBurnAccount env w
  if ¬ IsPeriodLastBlock w then .ok w
  else do
    let w ← updateIndicators w
    let w ← updatePolicies w
    .ok (recordEpochInitialIssuance w)

/-! ## What the parts change -/

theorem burnCoinsFromBurnAccount_inv {env : Env} {w w' : World}
    (h : burnCoinsFromBurnAccount env w = .ok w') :
    ∃ bank, w' = { w with market := { w.market with bank } } := by
  simp only [burnCoinsFromBurnAccount] at h
  split_ifs at h with hzero
  · cases h
    exact ⟨w.market.bank, rfl⟩
  · split at h
    · cases h
      exact ⟨_, rfl⟩
    · cases h
    · cases h

/-- The indicators of the current epoch are recorded. -/
def recordIndicators (s : Store) (epoch : Nat) (tr sr : LegacyDec) (tsl : Int) : Store :=
  setSR (setEpochTaxProceeds (setTR (setTSL s epoch tsl) epoch tr) []) epoch sr

theorem updateIndicators_inv {w w' : World} (h : updateIndicators w = .ok w') :
    ∃ tr sr tsl, w' = { w with store := recordIndicators w.store (getEpoch w) tr sr tsl } := by
  obtain ⟨taxRewards, _, h⟩ := Outcome.bind_eq_ok.mp h
  obtain ⟨tr, _, h⟩ := Outcome.bind_eq_ok.mp h
  obtain ⟨seigniorage, _, h⟩ := Outcome.bind_eq_ok.mp h
  obtain ⟨amount, _, h⟩ := Outcome.bind_eq_ok.mp h
  obtain ⟨reward, _, h⟩ := Outcome.bind_eq_ok.mp h
  obtain ⟨sr, _, h⟩ := Outcome.bind_eq_ok.mp h
  cases h
  exact ⟨tr, sr, _, rfl⟩

theorem updateTaxPolicy_inv {w w' : World} {rate : LegacyDec} (h : updateTaxPolicy w = .ok (w', rate)) :
    (∃ target, w.store.params.taxPolicy.clamp (getTaxRate w.store) target = .ok rate) ∧
      w' = { w with store := setTaxRate w.store rate } := by
  obtain ⟨tlYear, _, h⟩ := Outcome.bind_eq_ok.mp h
  obtain ⟨tlMonth, _, h⟩ := Outcome.bind_eq_ok.mp h
  obtain ⟨target, _, h⟩ := Outcome.bind_eq_ok.mp h
  obtain ⟨clamped, hclamp, h⟩ := Outcome.bind_eq_ok.mp h
  cases h
  exact ⟨⟨target, hclamp⟩, rfl⟩

theorem updateRewardPolicy_inv {w w' : World} {rate : LegacyDec} (h : updateRewardPolicy w = .ok (w', rate)) :
    (∃ target, w.store.params.rewardPolicy.clamp (getRewardWeight w.store) target = .ok rate) ∧
      w' = { w with store := setRewardWeight w.store rate } := by
  obtain ⟨seigniorageSum, _, h⟩ := Outcome.bind_eq_ok.mp h
  obtain ⟨totalSum, _, h⟩ := Outcome.bind_eq_ok.mp h
  obtain ⟨target, _, h⟩ := Outcome.bind_eq_ok.mp h
  obtain ⟨clamped, hclamp, h⟩ := Outcome.bind_eq_ok.mp h
  cases h
  exact ⟨⟨target, hclamp⟩, rfl⟩

theorem convertTaxCap_inv {s : Market.State} {cap : DecCoin} {acc acc' : Store × Coins} {denom : Oracle.Denom}
    (h : convertTaxCap s cap acc denom = .ok acc') : ∃ taxCaps, acc'.1 = { acc.1 with taxCaps } := by
  unfold convertTaxCap at h
  split_ifs at h with hsame
  · cases h
    exact ⟨acc.1.taxCaps, rfl⟩
  · split at h
    · obtain ⟨truncated, _, h⟩ := Outcome.bind_eq_ok.mp h
      cases h
      exact ⟨_, rfl⟩
    · cases h
      exact ⟨acc.1.taxCaps, rfl⟩
    · cases h

theorem updateTaxCap_inv {w w' : World} {newCaps : Coins} (h : updateTaxCap w = .ok (w', newCaps)) :
    ∃ taxCaps, w' = { w with store := { w.store with taxCaps } } := by
  obtain ⟨cap, _, h⟩ := Outcome.bind_eq_ok.mp h
  obtain ⟨acc, hacc, h⟩ := Outcome.bind_eq_ok.mp h
  cases h
  have hcaps : ∃ taxCaps, acc.1 = { w.store with taxCaps } := by
    apply Outcome.foldlM_invariant (P := fun acc => ∃ taxCaps, acc.1 = { w.store with taxCaps }) _ _ hacc
    · intro b b' denom _ hb hstep
      obtain ⟨taxCaps, hb⟩ := hb
      obtain ⟨taxCaps', hb'⟩ := convertTaxCap_inv hstep
      rw [hb] at hb'
      exact ⟨taxCaps', hb'⟩
    · exact ⟨w.store.taxCaps, rfl⟩
  obtain ⟨taxCaps, hcaps⟩ := hcaps
  exact ⟨taxCaps, by rw [hcaps]⟩

/-! ## What the end of a block changes -/

/-- The rate of each policy. -/
inductive Rate where
  | tax
  | reward

def Rate.policy (p : Params) : Rate → PolicyConstraints
  | tax => p.taxPolicy
  | reward => p.rewardPolicy

def Rate.get (s : Store) : Rate → LegacyDec
  | tax => getTaxRate s
  | reward => getRewardWeight s

def Rate.isSet (s : Store) : Rate → Bool
  | tax => s.taxRate.isSome
  | reward => s.rewardWeight.isSome

/-- What the policies write. -/
structure Rates where
  taxRate : Option LegacyDec
  rewardWeight : Option LegacyDec
  taxCaps : SortedMap String Int

def Store.withRates (s : Store) (r : Rates) : Store :=
  { s with taxRate := r.taxRate, rewardWeight := r.rewardWeight, taxCaps := r.taxCaps }

/-- In the probation the rates stay; after it, each is clamped by its policy. -/
structure Moved (w : World) (s : Store) : Prop where
  probation : InProbation w → ∀ r : Rate, r.get s = r.get w.store
  clamped : ¬ InProbation w → ∀ r : Rate, ∃ target,
    (r.policy w.store.params).clamp (r.get w.store) target = .ok (r.get s)
  isSet : ∀ r : Rate, r.isSet w.store = true → r.isSet s = true

theorem updatePolicies_inv {w w' : World} (h : updatePolicies w = .ok w') :
    ∃ r, w' = { w with store := w.store.withRates r } ∧ Moved w w'.store := by
  unfold updatePolicies at h
  split_ifs at h with hprob
  · cases h
    exact ⟨⟨w.store.taxRate, w.store.rewardWeight, w.store.taxCaps⟩, rfl, fun _ _ => rfl,
      fun hout => absurd hprob hout, fun _ hset => hset⟩
  · obtain ⟨⟨w₁, rate⟩, htax, h⟩ := Outcome.bind_eq_ok.mp h
    obtain ⟨⟨w₂, weight⟩, hreward, h⟩ := Outcome.bind_eq_ok.mp h
    obtain ⟨⟨w₃, caps⟩, hcap, h⟩ := Outcome.bind_eq_ok.mp h
    cases h
    obtain ⟨hrate, rfl⟩ := updateTaxPolicy_inv htax
    obtain ⟨hweight, rfl⟩ := updateRewardPolicy_inv hreward
    obtain ⟨taxCaps, rfl⟩ := updateTaxCap_inv hcap
    refine ⟨⟨some rate, some weight, taxCaps⟩, rfl, fun hin => absurd hin hprob, ?_, ?_⟩
    · intro _ r
      cases r with
      | tax => exact hrate
      | reward => exact hweight
    · intro r _
      cases r <;> rfl

/-- At the end of an epoch its indicators, the rates and the supply are written; at the end
of any other block, coins are burnt and the store stays. -/
theorem endBlocker_inv {env : Env} {w w' : World} (h : endBlocker env w = .ok w') :
    (∃ bank, w'.market = { w.market with bank }) ∧
    ((¬ IsPeriodLastBlock w ∧ w'.store = w.store) ∨
      (IsPeriodLastBlock w ∧ Moved w w'.store ∧ ∃ tr sr tsl r issuance, w'.store =
        setEpochInitialIssuance ((recordIndicators w.store (getEpoch w) tr sr tsl).withRates r) issuance)) := by
  obtain ⟨w₁, hburn, h⟩ := Outcome.bind_eq_ok.mp h
  obtain ⟨bank, rfl⟩ := burnCoinsFromBurnAccount_inv hburn
  split_ifs at h with hlast
  · obtain ⟨w₂, hind, h⟩ := Outcome.bind_eq_ok.mp h
    obtain ⟨w₃, hpol, h⟩ := Outcome.bind_eq_ok.mp h
    cases h
    obtain ⟨tr, sr, tsl, rfl⟩ := updateIndicators_inv hind
    obtain ⟨r, rfl, hmoved⟩ := updatePolicies_inv hpol
    -- neither the indicators nor the burn touch what the policies read of the rates
    exact ⟨⟨bank, rfl⟩, .inr ⟨hlast, ⟨hmoved.probation, hmoved.clamped, hmoved.isSet⟩, tr, sr, tsl, r, _, rfl⟩⟩
  · cases h
    exact ⟨⟨bank, rfl⟩, .inl ⟨hlast, rfl⟩⟩

theorem endBlocker_params {env : Env} {w w' : World} (h : endBlocker env w = .ok w') :
    w'.store.params = w.store.params := by
  obtain ⟨_, hstore | hstore⟩ := endBlocker_inv h
  · rw [hstore.2]
  · obtain ⟨_, _, tr, sr, tsl, r, issuance, hstore⟩ := hstore
    rw [hstore]
    rfl

/-! ## Bounds -/

def PolicyConstraints.InRange (pc : PolicyConstraints) (rate : LegacyDec) : Prop :=
  pc.rateMin ≤ rate ∧ rate ≤ pc.rateMax
instance (pc : PolicyConstraints) (rate : LegacyDec) : Decidable (pc.InRange rate) :=
  inferInstanceAs (Decidable (_ ∧ _))

/-- What the check of the parameters asks of a policy. -/
theorem Params.policy_proper {p : Params} (h : p.validate = .ok ()) (r : Rate) :
    (r.policy p).rateMin ≤ (r.policy p).rateMax ∧ 0 ≤ (r.policy p).changeRateMax.i := by
  simp only [Params.validate, Outcome.check_bind_eq_ok, Outcome.failIf_eq_ok] at h
  obtain ⟨htax, _, _, htaxStep, hreward, _, hrewardStep, _⟩ := h
  cases r with
  | tax => exact ⟨Int.not_lt.mp htax, Int.not_lt.mp htaxStep⟩
  | reward => exact ⟨Int.not_lt.mp hreward, Int.not_lt.mp hrewardStep⟩

theorem PolicyConstraints.limitStep_near {pc : PolicyConstraints} {prevRate newRate delta rate : LegacyDec}
    (hstep : 0 ≤ pc.changeRateMax.i) (hdelta : delta.i = newRate.i - prevRate.i)
    (h : pc.limitStep prevRate newRate delta = .ok rate) : |rate.i - prevRate.i| ≤ pc.changeRateMax.i := by
  unfold limitStep at h
  simp only [LegacyDec.lt_def, hdelta] at h
  rw [abs_le]
  split_ifs at h with hup hfar hfar
  · obtain ⟨_, rfl⟩ := LegacyDec.check_eq_ok.mp h
    show _ ≤ prevRate.i + pc.changeRateMax.i - prevRate.i ∧ prevRate.i + pc.changeRateMax.i - prevRate.i ≤ _
    omega
  · cases h
    omega
  · obtain ⟨_, rfl⟩ := LegacyDec.check_eq_ok.mp h
    show _ ≤ prevRate.i - pc.changeRateMax.i - prevRate.i ∧ prevRate.i - pc.changeRateMax.i - prevRate.i ≤ _
    omega
  · cases h
    have hnear := abs_le.mp (not_lt.mp hfar)
    omega

theorem PolicyConstraints.limitRange_inRange {pc : PolicyConstraints} (hproper : pc.rateMin ≤ pc.rateMax)
    (rate : LegacyDec) : pc.InRange (pc.limitRange rate) := by
  simp only [InRange, limitRange, LegacyDec.lt_def, LegacyDec.le_def] at hproper ⊢
  split_ifs <;> omega

/-- The range moves a rate towards every rate that is in it. -/
theorem PolicyConstraints.limitRange_near {pc : PolicyConstraints} {prevRate : LegacyDec}
    (hprev : pc.InRange prevRate) (rate : LegacyDec) :
    |(pc.limitRange rate).i - prevRate.i| ≤ |rate.i - prevRate.i| := by
  obtain ⟨hmin, hmax⟩ := hprev
  simp only [limitRange, LegacyDec.lt_def, LegacyDec.le_def] at hmin hmax ⊢
  split_ifs with hlow hhigh
  · rw [abs_of_nonpos (by omega), abs_of_nonpos (by omega)]
    omega
  · rw [abs_of_nonneg (by omega), abs_of_nonneg (by omega)]
    omega
  · exact le_rfl

theorem PolicyConstraints.clamp_bounds {pc : PolicyConstraints} {prevRate newRate rate : LegacyDec}
    (hproper : pc.rateMin ≤ pc.rateMax ∧ 0 ≤ pc.changeRateMax.i) (h : pc.clamp prevRate newRate = .ok rate) :
    pc.InRange rate ∧ (pc.InRange prevRate → |rate.i - prevRate.i| ≤ pc.changeRateMax.i) := by
  obtain ⟨delta, hdelta, h⟩ := Outcome.bind_eq_ok.mp h
  obtain ⟨limited, hlimited, h⟩ := Outcome.bind_eq_ok.mp h
  cases h
  obtain ⟨_, rfl⟩ := LegacyDec.check_eq_ok.mp hdelta
  refine ⟨limitRange_inRange hproper.1 limited, ?_⟩
  intro hprev
  exact (limitRange_near hprev limited).trans (limitStep_near hproper.2 rfl hlimited)

/-! ## Runs -/

inductive Event where
  | endBlock
  /-- anything that keeps the parameters and the rates -/
  | other

def Event.Occurs (env : Env) (w w' : World) : Event → Prop
  | endBlock => endBlocker env w = .ok w'
  | other => w'.store.params = w.store.params ∧ ∀ r : Rate, r.get w'.store = r.get w.store

structure Step (env : Env) where
  before : World
  after : World
  event : Event
  occurs : event.Occurs env before after

/-- The step ends an epoch. -/
def Step.EndsEpoch {env : Env} (st : Step env) : Bool :=
  match st.event with
  | .endBlock => decide (IsPeriodLastBlock st.before)
  | .other => false

/-- The block ends an epoch after the probation. -/
def UpdatesPolicies (w : World) : Prop := IsPeriodLastBlock w ∧ ¬ InProbation w
instance (w : World) : Decidable (UpdatesPolicies w) := inferInstanceAs (Decidable (_ ∧ _))

theorem endBlocker_rates {env : Env} {w w' : World} (hvalid : w.store.params.validate = .ok ())
    (h : endBlocker env w = .ok w') (r : Rate) :
    (¬ UpdatesPolicies w → r.get w'.store = r.get w.store) ∧
    (UpdatesPolicies w → (r.policy w.store.params).InRange (r.get w'.store) ∧
      ((r.policy w.store.params).InRange (r.get w.store) →
        |(r.get w'.store).i - (r.get w.store).i| ≤ (r.policy w.store.params).changeRateMax.i)) := by
  obtain ⟨_, hstore | hstore⟩ := endBlocker_inv h
  · refine ⟨fun _ => ?_, fun hup => absurd hup.1 hstore.1⟩
    rw [hstore.2]
  · obtain ⟨hlast, hmoved, _⟩ := hstore
    refine ⟨fun hno => hmoved.probation ?_ r, fun hup => ?_⟩
    · exact not_not.mp fun hprob => hno ⟨hlast, hprob⟩
    · obtain ⟨target, hclamp⟩ := hmoved.clamped hup.2 r
      exact PolicyConstraints.clamp_bounds (Params.policy_proper hvalid r) hclamp

/-- The parameters are these, and the rate is in the range they give. -/
def KeepsRange (p : Params) (r : Rate) (w : World) : Prop :=
  w.store.params = p ∧ (r.policy p).InRange (r.get w.store)

/-- One step keeps the parameters and a rate in its range, and only the end of an epoch
moves the rate, by at most the largest change. -/
theorem Step.keeps_range {env : Env} {p : Params} (hvalid : p.validate = .ok ()) (r : Rate) (st : Step env)
    (hkeeps : KeepsRange p r st.before) :
    KeepsRange p r st.after ∧
    |(r.get st.after.store).i - (r.get st.before.store).i| ≤
      if st.EndsEpoch then (r.policy p).changeRateMax.i else 0 := by
  obtain ⟨before, after, event, occurs⟩ := st
  obtain ⟨rfl, hrange⟩ := hkeeps
  cases event with
  | endBlock =>
    obtain ⟨hstay, hmove⟩ := endBlocker_rates hvalid occurs r
    by_cases hup : UpdatesPolicies before
    · refine ⟨⟨endBlocker_params occurs, (hmove hup).1⟩, ?_⟩
      have hend : Step.EndsEpoch ⟨before, after, .endBlock, occurs⟩ = true := decide_eq_true hup.1
      rw [if_pos hend]
      exact (hmove hup).2 hrange
    · refine ⟨⟨endBlocker_params occurs, (hstay hup).symm ▸ hrange⟩, ?_⟩
      have hstep := (Params.policy_proper hvalid r).2
      simp only [hstay hup, sub_self, abs_zero]
      split_ifs <;> omega
  | other =>
    refine ⟨⟨occurs.1, (occurs.2 r).symm ▸ hrange⟩, ?_⟩
    simp [occurs.2 r, EndsEpoch]

/-- With valid parameters, a policy update brings its rate into the range, and moves a rate
that is in the range by at most the largest change. Over any run with unchanged parameters a
rate in the range stays there, and moves by at most that change for each epoch that ends. -/
theorem policy_bounds (env : Env) (r : Rate) :
    (∀ w w', w.store.params.validate = .ok () → endBlocker env w = .ok w' → UpdatesPolicies w →
      (r.policy w.store.params).InRange (r.get w'.store) ∧
      ((r.policy w.store.params).InRange (r.get w.store) →
        |(r.get w'.store).i - (r.get w.store).i| ≤ (r.policy w.store.params).changeRateMax.i)) ∧
    (∀ w (steps : List (Step env)) w', w.store.params.validate = .ok () →
      Trace Step.before Step.after w steps w' → (r.policy w.store.params).InRange (r.get w.store) →
      (∀ st ∈ steps, (r.policy w.store.params).InRange (r.get st.after.store)) ∧
      (r.policy w.store.params).InRange (r.get w'.store) ∧
      |(r.get w'.store).i - (r.get w.store).i| ≤
        steps.countP Step.EndsEpoch * (r.policy w.store.params).changeRateMax.i) := by
  refine ⟨?_, ?_⟩
  · intro w w' hvalid h hup
    exact (endBlocker_rates hvalid h r).2 hup
  · intro w steps w' hvalid hrun hrange
    have hmove : ∀ st ∈ steps, KeepsRange w.store.params r st.before →
        KeepsRange w.store.params r st.after ∧
        |(r.get st.after.store).i - (r.get st.before.store).i| ≤
          if st.EndsEpoch then (r.policy w.store.params).changeRateMax.i else 0 :=
      fun st _ hst => st.keeps_range hvalid r hst
    have hkeep : ∀ st ∈ steps, KeepsRange w.store.params r st.before → KeepsRange w.store.params r st.after :=
      fun st hst hin => (hmove st hst hin).1
    have hall := hrun.always hkeep ⟨rfl, hrange⟩
    refine ⟨fun st hst => (hall st hst).2.2, (hrun.invariant hkeep ⟨rfl, hrange⟩).2, ?_⟩
    exact hrun.drift (I := KeepsRange w.store.params r) (f := fun w => (r.get w.store).i)
      (p := Step.EndsEpoch) hmove ⟨rfl, hrange⟩

namespace Sample

def burn : AccAddress :=
  [133, 159, 172, 197, 164, 201, 184, 10, 194, 238, 247, 137, 22, 193, 149, 59, 204, 202, 171, 96]

def app : Env where
  bech32 := Sdk.Sample.bech32
  burnAddr := burn
  allBalances _ _ := []
  addCoins proceeds delta := .ok (sortCoins (proceeds ++ delta))
  policyText _ := ""

/-- The default parameters, and nothing recorded but a supply of a million udo. -/
def store : Store where
  params := defaultParams
  taxRate := some defaultTaxRate
  rewardWeight := some defaultRewardWeight
  taxCaps := .empty
  taxProceeds := some []
  epochInitialIssuance := some [⟨microDoDenom, 10 ^ 6⟩]
  taxRewards := .empty
  seigniorageRewards := .empty
  totalStaked := .empty
  burnTaxExemptions := .empty

/-- The last block of the 13th week, the first one after the probation. -/
def weekEnd : World where
  store := store
  market := { Market.Sample.stateOf (10 ^ 6) with height := 13 * 604800 - 1 }
  whitelist := [⟨microDoDenom, .zero⟩, ⟨"uusd", .zero⟩]
  totalBondedTokens := .ok (10 ^ 5)

/-- Without taxes the rate is raised from 0.1 to 0.125 percent. -/
theorem tax_rate_raised : ∃ w', endBlocker app weekEnd = .ok w' ∧
    Rate.tax.get w'.store = ⟨125 * 10 ^ 13⟩ ∧
    defaultTaxPolicy.InRange (Rate.tax.get w'.store) ∧
    |(Rate.tax.get w'.store).i - defaultTaxRate.i| ≤ 1 * defaultTaxPolicy.changeRateMax.i := by
  have hrun : (endBlocker app weekEnd).value.map (fun w => Rate.tax.get w.store) = some ⟨125 * 10 ^ 13⟩ := by
    decide +kernel
  obtain ⟨w', hok, hrate⟩ := Outcome.value_map_eq_some.mp hrun
  have hvalid : weekEnd.store.params.validate = .ok () := by decide +kernel
  obtain ⟨hstep, hruns⟩ := policy_bounds app .tax
  let week : Step app := ⟨weekEnd, w', .endBlock, hok⟩
  have htrace : Trace Step.before Step.after weekEnd [week] w' := Trace.cons week (.nil w')
  have hone := (hruns weekEnd [week] w' hvalid htrace (by decide)).2.2
  have hends : week.EndsEpoch = true := by
    show decide (IsPeriodLastBlock weekEnd) = true
    decide +kernel
  rw [List.countP_cons_of_pos hends, List.countP_nil] at hone
  exact ⟨w', hok, hrate, (hstep weekEnd w' hvalid hok (by decide +kernel)).1, hone⟩

end Sample

end Treasury
