import DoChain.Sdk.Coins
import Mathlib.Data.Prod.Lex

/- The preparation of a genesis at height zero (`app/export.go: prepForZeroHeightGenesis`), as
   far as it handles the state of the distribution module.

   Correspondence (Go ↔ Lean):
     the first pass over the validators       ↔ `withdrawCommissions`
     the first pass over the delegations      ↔ `withdrawRewards`
     `DeleteAllValidatorSlashEvents`, `DeleteAllValidatorHistoricalRewards` ↔ `clearHistory`
     the second pass over the validators      ↔ `reinitialiseValidators`
     the second pass over the delegations     ↔ `reinitialiseDelegation`
     `Hooks.AfterValidatorCreated`            ↔ `afterValidatorCreated`

   A validator is stored under its address, and its record holds the text of the address.
   The two passes over the validators convert that text to bytes without decoding it
   (`operatorBytes`), and call the distribution module with the result. The calls are logged.
   What the withdrawals and the hooks for delegations do in the distribution module and in
   the bank is data; the errors they return are discarded. The keys of the distribution store
   take 255 bytes; the panic on a longer text is not modelled.

   `keeps_accounting_iff`: the passes address the validators of the staking store if and only
   if there are none. -/

namespace Export

open Sdk

abbrev ValAddress := Bytes

/-! ## State -/

structure CurrentRewards where
  rewards : DecCoins
  period : Nat

structure HistoricalRewards where
  cumulativeRewardRatio : DecCoins
  referenceCount : Nat

structure Distribution where
  outstandingRewards : SortedMap ValAddress DecCoins
  accumulatedCommission : SortedMap ValAddress DecCoins
  currentRewards : SortedMap ValAddress CurrentRewards
  /-- by the validator and the period -/
  historicalRewards : SortedMap (ValAddress ×ₗ ℕ) HistoricalRewards
  /-- by the validator, the height and the period -/
  slashEvents : SortedMap (ValAddress ×ₗ ℕ ×ₗ ℕ) LegacyDec
  communityPool : DecCoins

structure Validator where
  operatorAddress : String

def Validator.getOperator (val : Validator) : String := val.operatorAddress

structure Delegation where
  delegatorAddress : String
  validatorAddress : String

structure Chain where
  validators : SortedMap ValAddress Validator
  delegations : List Delegation
  distribution : Distribution
  bank : Bank

/-- The same validators and delegations. -/
def Chain.SameStaking (c c' : Chain) : Prop := c.validators = c'.validators ∧ c.delegations = c'.delegations

/-- What the calls of the distribution module leave behind. A withdrawal of rewards does not
write the store of the staking module. -/
structure Env where
  accBech32 : Bech32
  valBech32 : Bech32
  withdrawValidatorCommission : Chain → ValAddress → Chain
  withdrawDelegationRewards : Chain → AccAddress → ValAddress → Chain
  withdrawDelegationRewards_staking : ∀ c d a, (withdrawDelegationRewards c d a).SameStaking c
  /-- the hooks, at a height -/
  beforeDelegationCreated : Int → Chain → AccAddress → ValAddress → Chain
  afterDelegationModified : Int → Chain → AccAddress → ValAddress → Chain

/-- A call for a validator. -/
inductive Call where
  | withdrawCommission (valAddr : ValAddress)
  | donate (valAddr : ValAddress)
  | reinitialise (valAddr : ValAddress)
  deriving DecidableEq

/-- The state, and the calls so far. -/
structure Run where
  chain : Chain
  calls : List Call

/-! ## The passes -/

section Passes

variable (env : Env)

/-- `sdk.ValAddress(val.GetOperator())`: the bytes of the text. -/
def operatorBytes (val : Validator) : ValAddress := val.getOperator.toUTF8.data.toList

def withdrawCommission (r : Run) (e : ValAddress × Validator) : Run :=
  ⟨env.withdrawValidatorCommission r.chain (operatorBytes e.2), r.calls ++ [.withdrawCommission (operatorBytes e.2)]⟩

def withdrawCommissions (r : Run) : Run := r.chain.validators.entries.foldl (withdrawCommission env) r

/-- The addresses of a delegation. One that does not decode panics. -/
def delegationAddrs (d : Delegation) : Outcome String (AccAddress × ValAddress) := do
  let valAddr ← .orPanic (env.valBech32.accAddressFromBech32 d.validatorAddress)
  let delAddr ← .orPanic (env.accBech32.accAddressFromBech32 d.delegatorAddress)
  .ok (delAddr, valAddr)

def withdrawRewards (c : Chain) (d : Delegation) : Outcome String Chain := do
  let (delAddr, valAddr) ← delegationAddrs env d
  .ok (env.withdrawDelegationRewards c delAddr valAddr)

def clearHistory (c : Chain) : Chain :=
  { c with distribution :=
    { c.distribution with slashEvents := SortedMap.empty, historicalRewards := SortedMap.empty } }

/-- The commission and the rewards are withdrawn, and what the rewards were computed from is
deleted. -/
def withdrawAll (c : Chain) : Outcome String Run := do
  let r := withdrawCommissions env ⟨c, []⟩
  let chain ← r.chain.delegations.foldlM (withdrawRewards env) r.chain
  .ok ⟨clearHistory chain, r.calls⟩

/-- `initializeValidator` of the distribution module. -/
def initializeValidator (d : Distribution) (valBz : ValAddress) : Distribution :=
  { d with
    historicalRewards := d.historicalRewards.set (toLex (valBz, 0)) ⟨SortedMap.empty, 1⟩
    currentRewards := d.currentRewards.set valBz ⟨SortedMap.empty, 1⟩
    accumulatedCommission := d.accumulatedCommission.set valBz SortedMap.empty
    outstandingRewards := d.outstandingRewards.set valBz SortedMap.empty }

/-- An address without a validator is an error, which is discarded. -/
def afterValidatorCreated (c : Chain) (valAddr : ValAddress) : Chain :=
  match c.validators.get valAddr with
  | none => c
  | some val =>
    match env.valBech32.accAddressFromBech32 val.getOperator with
    | .error _ => c
    | .ok valBz => { c with distribution := initializeValidator c.distribution valBz }

/-- Rewards that are not stored are none. -/
def getValidatorOutstandingRewardsCoins (c : Chain) (valAddr : ValAddress) : DecCoins :=
  (c.distribution.outstandingRewards.get valAddr).getD SortedMap.empty

/-- `DecCoins.Add` of several coins. -/
def addAll (coins more : DecCoins) : Outcome String DecCoins :=
  more.entries.foldlM (fun coins e => DecCoins.add coins ⟨e.1, e.2⟩) coins

/-- What is left of the rewards goes to the community pool, and the records begin anew. -/
def reinitialiseValidator (r : Run) (e : ValAddress × Validator) : Outcome String Run := do
  let valAddr := operatorBytes e.2
  let scraps := getValidatorOutstandingRewardsCoins r.chain valAddr
  let communityPool ← addAll r.chain.distribution.communityPool scraps
  let chain := { r.chain with distribution := { r.chain.distribution with communityPool := communityPool } }
  .ok ⟨afterValidatorCreated env chain valAddr, r.calls ++ [.donate valAddr, .reinitialise valAddr]⟩

def reinitialiseValidators (r : Run) : Outcome String Run :=
  r.chain.validators.entries.foldlM (reinitialiseValidator env) r

def reinitialiseDelegation (c : Chain) (d : Delegation) : Outcome String Chain := do
  let (delAddr, valAddr) ← delegationAddrs env d
  .ok (env.afterDelegationModified 0 (env.beforeDelegationCreated 0 c delAddr valAddr) delAddr valAddr)

/-- The process exits on an address of the allow list that does not decode. -/
def checkAllowedAddrs (jailAllowedAddrs : List String) : Outcome String Unit :=
  jailAllowedAddrs.forM (fun addr => do
    let _ ← .orPanic (env.valBech32.accAddressFromBech32 addr)
    .ok ())

def prepForZeroHeightGenesis (jailAllowedAddrs : List String) (c : Chain) : Outcome String Run := do
  checkAllowedAddrs env jailAllowedAddrs
  let withdrawn ← withdrawAll env c
  let donated ← reinitialiseValidators env withdrawn
  -- the delegations that were read for the withdrawals
  let dels := (withdrawCommissions env ⟨c, []⟩).chain.delegations
  let chain ← dels.foldlM (reinitialiseDelegation env) donated.chain
  .ok ⟨chain, donated.calls⟩

/-! ## What the passes are for -/

def amountOf (coins : DecCoins) (denom : String) : Int := ((coins.get denom).map LegacyDec.i).getD 0

/-- The keys of the validators in the staking store. -/
def Chain.operators (c : Chain) : List ValAddress := c.validators.entries.map Prod.fst

/-- The passes are over the validators of the staking store, each under its key, and the
community pool gets the rewards that are left. -/
def KeepsAccounting (jailAllowedAddrs : List String) (c : Chain) : Prop :=
  ∃ withdrawn donated final, withdrawAll env c = .ok withdrawn ∧
    reinitialiseValidators env withdrawn = .ok donated ∧
    prepForZeroHeightGenesis env jailAllowedAddrs c = .ok final ∧
    withdrawn.calls = c.operators.map .withdrawCommission ∧
    donated.calls = withdrawn.calls ++ c.operators.flatMap (fun a => [.donate a, .reinitialise a]) ∧
    ∀ denom, amountOf donated.chain.distribution.communityPool denom =
      amountOf withdrawn.chain.distribution.communityPool denom +
        (c.operators.map (fun a => amountOf (getValidatorOutstandingRewardsCoins withdrawn.chain a) denom)).sum

/-- The store of the staking module: a validator's record holds the text of its key, and the
addresses of the delegations decode. -/
structure WellFormed (c : Chain) : Prop where
  operator : ∀ a val, c.validators.get a = some val → env.valBech32.accAddressFromBech32 val.getOperator = .ok a
  delegations : ∀ d ∈ c.delegations, ∃ addrs, delegationAddrs env d = .ok addrs

variable {env}

theorem length_operatorBytes (val : Validator) : (operatorBytes val).length = val.getOperator.utf8ByteSize := rfl

theorem withdrawCommissions_calls (r : Run) (es : List (ValAddress × Validator)) :
    (es.foldl (withdrawCommission env) r).calls =
      r.calls ++ es.map (fun e => Call.withdrawCommission (operatorBytes e.2)) := by
  induction es generalizing r with
  | nil => simp
  | cons e rest ih =>
    rw [List.foldl_cons, ih, withdrawCommission, List.map_cons]
    simp

/-- The calls of the first pass are for the bytes of the texts. -/
theorem withdrawAll_calls {c : Chain} {r : Run} (h : withdrawAll env c = .ok r) :
    r.calls = c.validators.entries.map (fun e => Call.withdrawCommission (operatorBytes e.2)) := by
  obtain ⟨chain, _, hr⟩ := Outcome.bind_eq_ok.mp h
  cases hr
  exact withdrawCommissions_calls ⟨c, []⟩ _

theorem withdrawRewards_staking {ds : List Delegation} {c c' : Chain}
    (h : ds.foldlM (withdrawRewards env) c = .ok c') : c'.validators = c.validators := by
  refine Outcome.foldlM_invariant (P := fun c' : Chain => c'.validators = c.validators) ?_ rfl h
  intro b b' d _ hb hstep
  obtain ⟨addrs, _, hok⟩ := Outcome.bind_eq_ok.mp hstep
  cases hok
  exact (env.withdrawDelegationRewards_staking b _ _).1.trans hb

/-- A pass over the delegations returns where it only decodes their addresses. -/
theorem WellFormed.foldlM_ok {c : Chain} (hwf : WellFormed env c) {f : Chain → Delegation → Outcome String Chain}
    (hf : ∀ b d addrs, delegationAddrs env d = .ok addrs → ∃ b', f b d = .ok b') (b : Chain) :
    ∃ b', c.delegations.foldlM f b = .ok b' := by
  refine Outcome.foldlM_ok ?_ hwf.delegations b
  intro b d _ hd
  obtain ⟨addrs, haddrs⟩ := hd
  exact hf b d addrs haddrs

/-- Without validators there is no call, and the delegations are handled. -/
theorem withdrawAll_empty {c : Chain} (hwf : WellFormed env c) (hempty : c.validators = SortedMap.empty) :
    ∃ chain, withdrawAll env c = .ok ⟨chain, []⟩ ∧ chain.validators = SortedMap.empty := by
  have hnone : withdrawCommissions env ⟨c, []⟩ = ⟨c, []⟩ := by
    rw [withdrawCommissions, hempty]
    rfl
  obtain ⟨chain, hchain⟩ := hwf.foldlM_ok (f := withdrawRewards env)
    (fun _ _ _ haddrs => ⟨_, Outcome.bind_eq_ok.mpr ⟨_, haddrs, rfl⟩⟩) c
  refine ⟨clearHistory chain, ?_, (withdrawRewards_staking hchain).trans hempty⟩
  rw [withdrawAll, hnone]
  exact Outcome.bind_eq_ok.mpr ⟨chain, hchain, rfl⟩

theorem checkAllowedAddrs_ok {jailAllowedAddrs : List String}
    (h : ∀ addr ∈ jailAllowedAddrs, ∃ a, env.valBech32.accAddressFromBech32 addr = .ok a) :
    checkAllowedAddrs env jailAllowedAddrs = .ok () := by
  refine Outcome.forM_eq_ok.mpr ?_
  intro addr haddr
  obtain ⟨a, ha⟩ := h addr haddr
  rw [ha]
  rfl

/-- The first call would have to be for the key of the first validator, which is shorter than
the text. -/
theorem KeepsAccounting.no_validators
    (hlonger : ∀ text a, env.valBech32.accAddressFromBech32 text = .ok a → a.length < text.utf8ByteSize)
    {jailAllowedAddrs : List String} {c : Chain} (hwf : WellFormed env c)
    (h : KeepsAccounting env jailAllowedAddrs c) : c.validators = SortedMap.empty := by
  obtain ⟨withdrawn, _, _, hwithdrawn, _, _, hcalls, _⟩ := h
  rw [withdrawAll_calls hwithdrawn, Chain.operators, List.map_map] at hcalls
  apply SortedMap.entries_injective
  cases hentries : c.validators.entries with
  | nil => rfl
  | cons e rest =>
    rw [hentries, List.map_cons, List.map_cons] at hcalls
    have hfirst : operatorBytes e.2 = e.1 := Call.withdrawCommission.inj (List.cons.inj hcalls).1
    have hget : c.validators.get e.1 = some e.2 := by
      rw [SortedMap.get_eq_some, hentries]
      exact List.mem_cons_self
    have hlt := hlonger _ _ (hwf.operator e.1 e.2 hget)
    rw [← length_operatorBytes, hfirst] at hlt
    exact absurd hlt (lt_irrefl _)

/-- Without validators the whole preparation makes no call, and returns. -/
theorem prepForZeroHeightGenesis_empty {jailAllowedAddrs : List String}
    (hallowed : ∀ addr ∈ jailAllowedAddrs, ∃ a, env.valBech32.accAddressFromBech32 addr = .ok a)
    {c : Chain} (hwf : WellFormed env c) (hempty : c.validators = SortedMap.empty) :
    ∃ chain final, withdrawAll env c = .ok ⟨chain, []⟩ ∧ reinitialiseValidators env ⟨chain, []⟩ = .ok ⟨chain, []⟩ ∧
      prepForZeroHeightGenesis env jailAllowedAddrs c = .ok ⟨final, []⟩ := by
  obtain ⟨chain, hwithdrawn, hnone⟩ := withdrawAll_empty hwf hempty
  have hdonated : reinitialiseValidators env ⟨chain, []⟩ = .ok ⟨chain, []⟩ := by
    rw [reinitialiseValidators, hnone]
    rfl
  have hdels : (withdrawCommissions env ⟨c, []⟩).chain.delegations = c.delegations := by
    rw [withdrawCommissions, hempty]
    rfl
  obtain ⟨final, hfinal⟩ := hwf.foldlM_ok (f := reinitialiseDelegation env)
    (fun _ _ _ haddrs => ⟨_, Outcome.bind_eq_ok.mpr ⟨_, haddrs, rfl⟩⟩) chain
  refine ⟨chain, final, hwithdrawn, hdonated, ?_⟩
  rw [prepForZeroHeightGenesis, checkAllowedAddrs_ok hallowed, Outcome.ok_bind, hwithdrawn, Outcome.ok_bind,
    hdonated, Outcome.ok_bind, hdels]
  exact Outcome.bind_eq_ok.mpr ⟨final, hfinal, rfl⟩

variable (env)

/-- A text is longer than the address it stands for. So in no state with a validator do the
passes address it. -/
theorem keeps_accounting_iff
    (hlonger : ∀ text a, env.valBech32.accAddressFromBech32 text = .ok a → a.length < text.utf8ByteSize)
    {jailAllowedAddrs : List String}
    (hallowed : ∀ addr ∈ jailAllowedAddrs, ∃ a, env.valBech32.accAddressFromBech32 addr = .ok a)
    {c : Chain} (hwf : WellFormed env c) :
    KeepsAccounting env jailAllowedAddrs c ↔ c.validators = SortedMap.empty := by
  refine ⟨KeepsAccounting.no_validators hlonger hwf, ?_⟩
  intro hempty
  obtain ⟨chain, final, hwithdrawn, hdonated, hfinal⟩ := prepForZeroHeightGenesis_empty hallowed hwf hempty
  have hoperators : c.operators = [] := by
    rw [Chain.operators, hempty]
    rfl
  refine ⟨_, _, _, hwithdrawn, hdonated, hfinal, ?_, ?_, ?_⟩
  · rw [hoperators]
    rfl
  · rw [hoperators]
    rfl
  · intro denom
    rw [hoperators]
    exact (Int.add_zero _).symm

end Passes

/-! ### Two exports -/

namespace Sample

open Sdk.Sample

/-- The commission of a validator, in `udo`, goes from its rewards to its account. -/
def withdrawValidatorCommission (c : Chain) (a : ValAddress) : Chain :=
  match c.distribution.accumulatedCommission.get a with
  | none => c
  | some commission =>
    let outstanding := getValidatorOutstandingRewardsCoins c a
    let left := amountOf outstanding "udo" - amountOf commission "udo"
    { c with
      distribution := { c.distribution with
        accumulatedCommission := c.distribution.accumulatedCommission.set a SortedMap.empty
        outstandingRewards := c.distribution.outstandingRewards.set a (outstanding.set "udo" ⟨left⟩) }
      bank := c.bank.addBalance a "udo" (amountOf commission "udo" / 10 ^ 18) }

def env : Env where
  accBech32 := Sdk.Sample.bech32
  valBech32 := Sdk.Sample.valBech32
  withdrawValidatorCommission := withdrawValidatorCommission
  withdrawDelegationRewards c _ _ := c
  withdrawDelegationRewards_staking _ _ _ := ⟨rfl, rfl⟩
  beforeDelegationCreated _ c _ _ := c
  afterDelegationModified _ c _ _ := c

theorem valBech32_longer (text : String) (a : ValAddress)
    (h : env.valBech32.accAddressFromBech32 text = .ok a) : a.length < text.utf8ByteSize := by
  have hall : ∀ e ∈ Sdk.Sample.operators, e.1.length < e.2.utf8ByteSize := by decide
  exact hall _ (mem_of_decode h)

def udo (amount : Int) : DecCoins := SortedMap.empty.set "udo" ⟨amount * 10 ^ 18⟩

/-- No validator has been created; the pool holds a coin. -/
def fresh : Chain where
  validators := SortedMap.empty
  delegations := []
  distribution :=
    { outstandingRewards := SortedMap.empty
      accumulatedCommission := SortedMap.empty
      currentRewards := SortedMap.empty
      historicalRewards := SortedMap.empty
      slashEvents := SortedMap.empty
      communityPool := udo 1 }
  bank := ⟨fun _ _ => 0, fun _ => 0⟩

/-- Alice's validator has 5 coins of rewards, 2 of them commission. -/
def rewarded : Chain where
  validators := SortedMap.empty.set alice ⟨aliceOperator⟩
  delegations := []
  distribution :=
    { outstandingRewards := SortedMap.empty.set alice (udo 5)
      accumulatedCommission := SortedMap.empty.set alice (udo 2)
      currentRewards := SortedMap.empty.set alice ⟨udo 3, 7⟩
      historicalRewards := SortedMap.empty.set (toLex (alice, 6)) ⟨udo 0, 1⟩
      slashEvents := SortedMap.empty
      communityPool := udo 1 }
  bank := ⟨fun _ _ => 0, fun _ => 0⟩

theorem rewarded_wellFormed : WellFormed env rewarded where
  operator := by
    intro a val h
    rw [rewarded, SortedMap.get_set] at h
    split_ifs at h with ha
    · cases h
      exact ha ▸ rfl
    · cases h
  delegations := by
    intro d hd
    cases hd

/-- The accounting is kept without a validator, and not with Alice's. -/
theorem kept_fresh_not_rewarded :
    KeepsAccounting env [aliceOperator] fresh ∧ ¬ KeepsAccounting env [aliceOperator] rewarded := by
  have hallowed : ∀ addr ∈ [aliceOperator], ∃ a, env.valBech32.accAddressFromBech32 addr = .ok a := by
    intro addr haddr
    rw [List.mem_singleton.mp haddr]
    exact ⟨alice, rfl⟩
  refine ⟨(keeps_accounting_iff env valBech32_longer hallowed ⟨?_, ?_⟩).mpr rfl, ?_⟩
  · intro a val h
    cases h
  · intro d hd
    cases hd
  · intro h
    have hnone := (keeps_accounting_iff env valBech32_longer hallowed rewarded_wellFormed).mp h
    have hsome : rewarded.validators.get alice = some ⟨aliceOperator⟩ := rfl
    rw [hnone] at hsome
    cases hsome

/-- The commission and the rewards stay where they are, the pool gets nothing, and the records
of the new period are not written: those of the old one are deleted. -/
theorem rewarded_left_behind :
    ¬ KeepsAccounting env [] rewarded ∧
      (prepForZeroHeightGenesis env [] rewarded).value.map (fun r =>
        (amountOf (getValidatorOutstandingRewardsCoins r.chain alice) "udo",
          (r.chain.distribution.accumulatedCommission.get alice).map (amountOf · "udo"),
          amountOf r.chain.distribution.communityPool "udo",
          (r.chain.distribution.currentRewards.get alice).map CurrentRewards.period,
          r.chain.distribution.historicalRewards.entries.length)) =
        some (5 * 10 ^ 18, some (2 * 10 ^ 18), 10 ^ 18, some 7, 0) := by
  refine ⟨?_, by decide +kernel⟩
  intro h
  obtain ⟨withdrawn, _, _, hwithdrawn, _, _, hcalls, _⟩ := h
  rw [withdrawAll_calls hwithdrawn] at hcalls
  revert hcalls
  decide +kernel

end Sample

end Export
