import DoChain.Oracle.Period
import DoChain.Sdk.Coins

/- The rewards of a vote period (`x/oracle/keeper/reward.go`).

   Correspondence (Go ↔ Lean):
     `Keeper.GetRewardPool`        ↔ `getRewardPool`
     `Keeper.RewardBallotWinners`  ↔ `rewardBallotWinners`

   A share of the oracle's account, the vote period over the distribution window, is
   split among the winners by the weight of their claims, and moved to the distribution
   module, which credits each of them. What the distribution module keeps is a type `D`
   of its own. The log lines are left out; the miss counter that one of them shows is
   only read.

   `rewardBallotWinners_order` says that neither the vote targets nor the winners need
   be visited in any order. -/

namespace Oracle

open Sdk

/-- What the end of a block uses of the other modules, besides the bank and what it reads of the
staking module. Errors of a slash, a jail and an allocation are not looked at. -/
structure Keepers (D : Type) where
  oracleAddr : AccAddress
  distrAddr : AccAddress
  allocateTokensToValidator : D → Validator → DecCoins → D
  slash : Staking → List UInt8 → Int → Int → LegacyDec → Staking
  jail : Staking → List UInt8 → Staking
  /-- `strings.ToUpper`, on the bytes of a text -/
  toUpper : List UInt8 → List UInt8

variable {D : Type} (keepers : Keepers D) (ord : Orders)

/-- The denominations of the pool that is shared out: the vote targets, and DO once. -/
def rewardDenoms (voteTargets : SortedMap String LegacyDec) : List String :=
  ((ord.targets.range voteTargets).map Prod.fst).foldl
    (fun denoms denom => if denom ∈ denoms then denoms else denoms ++ [denom]) [microDoDenom]

/-- The sum of the weights, in `int64`. -/
def ballotPowerSum (winners : ClaimMap) : Int :=
  (ord.weights.range winners).foldl (fun sum e => wrap64 (sum + e.2.weight)) 0

/-- The balance of the oracle's account. It is read as a coin, which checks the denomination
even where there is none of it. -/
def getRewardPool (bank : Bank) (denom : String) : Outcome SdkError Coin :=
  newCoin denom (bank.balance keepers.oracleAddr denom)

/-- The coin that one denomination adds to the rewards of the period. -/
def poolReward (bank : Bank) (distributionRatio : LegacyDec) (denom : String) :
    Outcome SdkError (Option DecCoin) := do
  let rewardPool ← getRewardPool keepers bank denom
  if rewardPool.amount = 0 then .ok none
  else do
    let amount ← (LegacyDec.ofInt rewardPool.amount).mul distributionRatio
    let coin ← newDecCoinFromDec denom amount
    .ok (some coin)

def addCoin (rewards : DecCoins) : Option DecCoin → Outcome SdkError DecCoins
  | none => .ok rewards
  | some coin => rewards.add coin

def addReward (bank : Bank) (distributionRatio : LegacyDec) (rewards : DecCoins) (denom : String) :
    Outcome SdkError DecCoins := do
  let coin ← poolReward keepers bank distributionRatio denom
  addCoin rewards coin

/-- The part of the rewards that a weight is worth. -/
def rewardOf (periodRewards : DecCoins) (sum weight : Int) : Outcome SdkError CoinSet := do
  let share ← (LegacyDec.ofInt weight).quoInt64 sum
  let coins ← periodRewards.mulDec share
  coins.truncateDecimal

/-- What a winner gets. One that is no validator any more gets nothing. -/
def rewardFor (staking : Staking) (periodRewards : DecCoins) (sum : Int) (winner : Claim) :
    Outcome SdkError (Option (Validator × CoinSet)) :=
  match staking.validator winner.recipient with
  | none => .ok none
  | some receiverVal => do
    let rewardCoins ← rewardOf periodRewards sum winner.weight
    .ok (if rewardCoins.isZero then none else some (receiverVal, rewardCoins))

/-- Credit a reward, and add it to what is moved. -/
def giveReward (acc : D × CoinSet) : Option (Validator × CoinSet) → Outcome SdkError (D × CoinSet)
  | none => .ok acc
  | some (receiverVal, rewardCoins) => do
    let distributedReward ← CoinSet.addAll acc.2 rewardCoins
    .ok (keepers.allocateTokensToValidator acc.1 receiverVal (newDecCoinsFromCoins rewardCoins),
      distributedReward)

def rewardWinner (staking : Staking) (periodRewards : DecCoins) (sum : Int) (acc : D × CoinSet)
    (e : String × Claim) : Outcome SdkError (D × CoinSet) := do
  let reward ← rewardFor staking periodRewards sum e.2
  giveReward keepers acc reward

/-- An error of the transfer is a panic. -/
def sendReward (bank : Bank) (distributedReward : CoinSet) : Outcome SdkError Bank :=
  match bank.sendCoins keepers.oracleAddr keepers.distrAddr distributedReward.toCoins with
  | .err e => .panic ("[oracle] Failed to send coins to distribution module " ++ e.text)
  | sent => sent

def rewardBallotWinners (staking : Staking) (votePeriod rewardDistributionWindow : Int)
    (voteTargets : SortedMap String LegacyDec) (winners : ClaimMap) (bank : Bank) (distribution : D) :
    Outcome SdkError (Bank × D) :=
  let sum := ballotPowerSum ord winners
  if sum = 0 then .ok (bank, distribution)
  else do
    let distributionRatio ← (LegacyDec.ofInt votePeriod).quoInt64 rewardDistributionWindow
    let periodRewards ← (rewardDenoms ord voteTargets).foldlM (addReward keepers bank distributionRatio)
      SortedMap.empty
    let (distribution, distributedReward) ← (ord.winners.range winners).foldlM
      (rewardWinner keepers staking periodRewards sum) (distribution, SortedMap.empty)
    let bank ← sendReward keepers bank distributedReward
    .ok (bank, distribution)

/-! ## In any order -/

section Order

variable {ord ord' : Orders} {keepers}

theorem rewardDenoms_eq (ord : Orders) (voteTargets : SortedMap String LegacyDec) :
    rewardDenoms ord voteTargets = microDoDenom ::
      ((ord.targets.range voteTargets).map Prod.fst).filter (fun d => decide (d ≠ microDoDenom)) := by
  have hfold : ∀ (l denoms : List String), l.Nodup → (∀ d ∈ l, d ∈ denoms → d = microDoDenom) →
      microDoDenom ∈ denoms →
      l.foldl (fun denoms denom => if denom ∈ denoms then denoms else denoms ++ [denom]) denoms =
        denoms ++ l.filter (fun d => decide (d ≠ microDoDenom)) := by
    intro l
    induction l with
    | nil => simp
    | cons d rest ih =>
      intro denoms hnd hnew hdo
      obtain ⟨hfresh, hnd⟩ := List.nodup_cons.mp hnd
      have hnew' := fun x hx => hnew x (List.mem_cons_of_mem d hx)
      rw [List.foldl_cons]
      by_cases hd : d = microDoDenom
      · rw [List.filter_cons_of_neg (by simp [hd]), if_pos (hd ▸ hdo)]
        exact ih denoms hnd hnew' hdo
      · have hout : d ∉ denoms := fun hmem => hd (hnew d List.mem_cons_self hmem)
        rw [List.filter_cons_of_pos (by simpa using hd), if_neg hout, List.append_cons denoms d (List.filter _ rest)]
        apply ih _ hnd _ (List.mem_append_left _ hdo)
        intro x hx hmem
        rcases List.mem_append.mp hmem with hmem | hmem
        · exact hnew' x hx hmem
        · exact absurd (List.mem_singleton.mp hmem ▸ hx) hfresh
  rw [rewardDenoms, hfold _ _ SortedMap.RangeOrder.keys_nodup (by simp) (by simp)]
  rfl

theorem rewardDenoms_perm (ord ord' : Orders) (voteTargets : SortedMap String LegacyDec) :
    (rewardDenoms ord voteTargets).Perm (rewardDenoms ord' voteTargets) := by
  have hperm := ((ord.targets.perm voteTargets).trans (ord'.targets.perm voteTargets).symm).map Prod.fst
  rw [rewardDenoms_eq, rewardDenoms_eq]
  exact (hperm.filter _).cons _

theorem ballotPowerSum_order (ord ord' : Orders) (winners : ClaimMap) :
    ballotPowerSum ord winners = ballotPowerSum ord' winners := by
  apply ((ord.weights.perm winners).trans (ord'.weights.perm winners).symm).foldl_eq'
  intro e _ e' _ sum
  unfold wrap64
  rw [Int.bmod_add_bmod, Int.bmod_add_bmod, Int.add_right_comm]

theorem poolReward_denom {bank : Bank} {ratio : LegacyDec} {denom : String} {coin : DecCoin}
    (h : poolReward keepers bank ratio denom = .ok (some coin)) : coin.denom = denom := by
  obtain ⟨rewardPool, _, h⟩ := Outcome.bind_eq_ok.mp h
  split_ifs at h
  · cases h
  · obtain ⟨amount, _, h⟩ := Outcome.bind_eq_ok.mp h
    obtain ⟨coin', hcoin, h⟩ := Outcome.bind_eq_ok.mp h
    cases h
    rw [(newDecCoinFromDec_eq_ok.mp hcoin).2.2]

theorem addReward_swap {d d' : String} (hne : d ≠ d') (bank : Bank) (ratio : LegacyDec)
    (rewards : DecCoins) :
    (addReward keepers bank ratio rewards d >>= fun rewards => addReward keepers bank ratio rewards d').value =
      (addReward keepers bank ratio rewards d' >>= fun rewards =>
        addReward keepers bank ratio rewards d).value := by
  refine Outcome.swap_of_apply (f := addReward keepers bank ratio) (h := fun rewards _ o => addCoin rewards o)
    (fun _ _ => rfl) ?_ rewards
  intro rewards o o' hc hc'
  match o, o' with
  | none, none => rfl
  | none, some coin' => exact congrArg _ (Outcome.bind_ok _).symm
  | some coin, none => exact congrArg _ (Outcome.bind_ok _)
  | some coin, some coin' =>
    have hcoins : coin.denom ≠ coin'.denom := by
      rw [poolReward_denom hc, poolReward_denom hc']
      exact hne
    exact addAmount_swap_of_ne hcoins coin.amount coin'.amount rewards

theorem rewardFor_validator {staking : Staking} {rewards : DecCoins} {sum : Int} {winner : Claim}
    {v : Validator} {coins : CoinSet}
    (h : rewardFor staking rewards sum winner = .ok (some (v, coins))) :
    staking.validator winner.recipient = some v := by
  unfold rewardFor at h
  cases hv : staking.validator winner.recipient with
  | none => simp [hv] at h
  | some w =>
    simp only [hv] at h
    obtain ⟨c, _, h⟩ := Outcome.bind_eq_ok.mp h
    split_ifs at h
    · cases h
    · cases h
      rfl

/-- Two rewards: the coins of both are moved, and both are credited. -/
theorem giveReward_two (acc : D × CoinSet) (v v' : Validator) (coins coins' : CoinSet) :
    (giveReward keepers acc (some (v, coins)) >>= fun acc => giveReward keepers acc (some (v', coins'))).value =
      (CoinSet.addAll acc.2 coins >>= fun moved =>
        (CoinSet.addAll moved coins' : Outcome SdkError CoinSet)).value.map (fun moved =>
          (keepers.allocateTokensToValidator
            (keepers.allocateTokensToValidator acc.1 v (newDecCoinsFromCoins coins)) v'
            (newDecCoinsFromCoins coins'), moved)) := by
  simp only [giveReward]
  cases (CoinSet.addAll acc.2 coins : Outcome SdkError CoinSet) with
  | ok moved =>
    simp only [Outcome.ok_bind]
    cases (CoinSet.addAll moved coins' : Outcome SdkError CoinSet) <;> rfl
  | err e => rfl
  | panic m => rfl

/-- Rewards of different validators can be given in any order. -/
theorem rewardWinner_swap {staking : Staking} {rewards : DecCoins} {sum : Int} {e e' : String × Claim}
    (hcredit : ∀ v v', staking.validator e.2.recipient = some v →
      staking.validator e'.2.recipient = some v' → ∀ d x y,
      keepers.allocateTokensToValidator (keepers.allocateTokensToValidator d v x) v' y =
        keepers.allocateTokensToValidator (keepers.allocateTokensToValidator d v' y) v x)
    (acc : D × CoinSet) :
    (rewardWinner keepers staking rewards sum acc e >>= fun acc =>
        rewardWinner keepers staking rewards sum acc e').value =
      (rewardWinner keepers staking rewards sum acc e' >>= fun acc =>
        rewardWinner keepers staking rewards sum acc e).value := by
  refine Outcome.swap_of_apply (f := rewardWinner keepers staking rewards sum)
    (h := fun acc _ o => giveReward keepers acc o) (fun _ _ => rfl) ?_ acc
  intro acc o o' hc hc'
  match o, o' with
  | none, none => rfl
  | none, some (v', coins') => exact congrArg _ (Outcome.bind_ok _).symm
  | some (v, coins), none => exact congrArg _ (Outcome.bind_ok _)
  | some (v, coins), some (v', coins') =>
    rw [giveReward_two, giveReward_two, CoinSet.addAll_swap,
      hcredit v v' (rewardFor_validator hc) (rewardFor_validator hc')]

/-- Two claims of one validator are one. -/
def DistinctRecipients (staking : Staking) (winners : ClaimMap) : Prop :=
  ∀ key key' claim claim', winners.get key = some claim → winners.get key' = some claim' →
    (staking.validator claim.recipient).isSome = true → claim.recipient = claim'.recipient → key = key'

/-- The rewards do not depend on the order in which the vote targets and the winners are
visited, as long as those of different validators can be credited in any order. -/
theorem rewardBallotWinners_order {env : Env} (ord ord' : Orders) {staking : Staking}
    (hindexed : staking.Indexed env)
    (hcredit : ∀ v v', v.operator ≠ v'.operator → ∀ d x y,
      keepers.allocateTokensToValidator (keepers.allocateTokensToValidator d v x) v' y =
        keepers.allocateTokensToValidator (keepers.allocateTokensToValidator d v' y) v x)
    {winners : ClaimMap} (hrecipients : DistinctRecipients staking winners) (votePeriod window : Int)
    (voteTargets : SortedMap String LegacyDec) (bank : Bank) (distribution : D) :
    (rewardBallotWinners keepers ord staking votePeriod window voteTargets winners bank distribution).value =
      (rewardBallotWinners keepers ord' staking votePeriod window voteTargets winners bank
        distribution).value := by
  have hrewards : ∀ ratio,
      ((rewardDenoms ord voteTargets).foldlM (addReward keepers bank ratio) SortedMap.empty).value =
        ((rewardDenoms ord' voteTargets).foldlM (addReward keepers bank ratio) SortedMap.empty).value := by
    intro ratio
    apply Outcome.foldlM_perm (rewardDenoms_perm ord ord' voteTargets)
    intro d _ d' _ rewards
    by_cases hd : d = d'
    · rw [hd]
    · exact addReward_swap hd bank ratio rewards
  have hwinners : ∀ rewards sum acc,
      ((ord.winners.range winners).foldlM (rewardWinner keepers staking rewards sum) acc).value =
        ((ord'.winners.range winners).foldlM (rewardWinner keepers staking rewards sum) acc).value := by
    intro rewards sum acc
    apply Outcome.foldlM_perm ((ord.winners.perm winners).trans (ord'.winners.perm winners).symm)
    intro e he e' he' acc
    by_cases hkey : e.1 = e'.1
    · rw [SortedMap.RangeOrder.eq_of_key he he' hkey]
    · apply rewardWinner_swap
      intro v v' hv hv'
      apply hcredit
      -- one operator is found under one address
      intro hop
      have haddr := hindexed.operator _ _ hv
      rw [hop, hindexed.operator _ _ hv'] at haddr
      apply hkey
      exact hrecipients _ _ _ _ (SortedMap.RangeOrder.mem_range.mp he)
        (SortedMap.RangeOrder.mem_range.mp he') (by rw [hv]; rfl) (Except.ok.inj haddr).symm
  simp only [rewardBallotWinners, ballotPowerSum_order ord ord']
  split_ifs with hsum
  · rfl
  · simp only [Outcome.value_bind, hrewards, hwinners]

end Order

end Oracle
