import DoChain.Oracle.EndBlock
import DoChain.Oracle.Params

/- The rewards of a period are covered by the oracle's account.

   A share of a pool is rounded twice: the part of the weight is truncated, and the product is
   rounded half to even. With fewer than `10^18` winners the roundings up do not add to half
   of a coin, so the whole coins that are given out are at most the pool
   (`rewards_le_pool`), and the transfer at the end cannot fail.

   What can fail is the computation of the rewards of the period: reading a balance panics
   for a vote target whose name is no denomination. A pool is an integer of at most 256 bits and
   the ratio is at most one, so their product is in the range of a decimal (`poolShare_fits`).
   `rewards_covered_iff` says that nothing else can go wrong. -/

namespace Oracle

open Sdk

variable {D : Type}

/-! ## The rewards of a period -/

section Period

variable {keepers : Keepers D} {bank : Bank} {ratio : LegacyDec}

/-- The balances of the oracle's account are integers of at most 256 bits. -/
def PoolsFit (keepers : Keepers D) (bank : Bank) : Prop :=
  ∀ d, 0 ≤ bank.balance keepers.oracleAddr d ∧ bank.balance keepers.oracleAddr d < 2 ^ 256

/-- The part of a pool that is shared out in a period. -/
structure IsRatio (ratio : LegacyDec) : Prop where
  nonneg : 0 ≤ ratio.i
  le_one : ratio.i ≤ 10 ^ 18

/-- What a denomination adds to the rewards. -/
def poolShare (keepers : Keepers D) (bank : Bank) (ratio : LegacyDec) (denom : String) : LegacyDec :=
  ⟨bank.balance keepers.oracleAddr denom * ratio.i⟩

theorem validDenom_of_addReward {rewards rewards' : DecCoins} {denom : String}
    (h : addReward keepers bank ratio rewards denom = .ok rewards') : validDenom denom = true := by
  obtain ⟨coin, hcoin, _⟩ := Outcome.bind_eq_ok.mp h
  obtain ⟨pool, hpool, _⟩ := Outcome.bind_eq_ok.mp hcoin
  exact (newCoin_eq_ok.mp hpool).1

theorem poolShare_nonneg (hbank : PoolsFit keepers bank) (hratio : IsRatio ratio) (denom : String) :
    0 ≤ (poolShare keepers bank ratio denom).i :=
  Int.mul_nonneg (hbank denom).1 hratio.nonneg

theorem poolShare_le (hbank : PoolsFit keepers bank) (hratio : IsRatio ratio) (denom : String) :
    (poolShare keepers bank ratio denom).i ≤ bank.balance keepers.oracleAddr denom * 10 ^ 18 :=
  Int.mul_le_mul_of_nonneg_left hratio.le_one (hbank denom).1

theorem poolShare_fits (hbank : PoolsFit keepers bank) (hratio : IsRatio ratio) (denom : String) :
    LegacyDec.Fits (poolShare keepers bank ratio denom).i := by
  have hnonneg := poolShare_nonneg hbank hratio denom
  have hle := poolShare_le hbank hratio denom
  have hbits := (hbank denom).2
  rw [LegacyDec.fits_iff]
  omega

theorem addReward_fresh (hbank : PoolsFit keepers bank) (hratio : IsRatio ratio) {rewards : DecCoins}
    {denom : String} (h : validDenom denom = true) (hfresh : rewards.get denom = none) :
    addReward keepers bank ratio rewards denom =
      .ok (rewards.update denom (nonZero .zero (poolShare keepers bank ratio denom))) := by
  have hpool : getRewardPool keepers bank denom = .ok ⟨denom, bank.balance keepers.oracleAddr denom⟩ :=
    newCoin_eq_ok.mpr ⟨h, (hbank denom).1, rfl⟩
  have hnonneg := poolShare_nonneg hbank hratio denom
  have hfits : LegacyDec.Fits (bank.balance keepers.oracleAddr denom * ratio.i) :=
    poolShare_fits hbank hratio denom
  rw [addReward, poolReward, hpool, Outcome.ok_bind]
  dsimp only
  split_ifs with hzero
  · have hnone : nonZero LegacyDec.zero (poolShare keepers bank ratio denom) = none := by
      rw [poolShare, hzero, zero_mul]
      rfl
    rw [hnone, SortedMap.update_of_get hfresh]
    rfl
  · have hcoin : newDecCoinFromDec denom ⟨bank.balance keepers.oracleAddr denom * ratio.i⟩ =
        (.ok ⟨denom, poolShare keepers bank ratio denom⟩ : Outcome SdkError DecCoin) :=
      newDecCoinFromDec_eq_ok.mpr ⟨h, hnonneg, rfl⟩
    rw [LegacyDec.mul, LegacyDec.mulRaw_ofInt, LegacyDec.check, if_pos hfits, Outcome.ok_bind, hcoin,
      Outcome.ok_bind, Outcome.ok_bind]
    apply addAmount_eq
    rw [hfresh, Option.getD_none, LegacyDec.add, LegacyDec.zero, zero_add]
    exact LegacyDec.check_eq_ok.mpr ⟨hfits, rfl⟩

theorem rewardDenoms_nodup (ord : Orders) (voteTargets : SortedMap String LegacyDec) :
    (rewardDenoms ord voteTargets).Nodup := by
  rw [rewardDenoms_eq, List.nodup_cons]
  refine ⟨?_, SortedMap.RangeOrder.keys_nodup.filter _⟩
  intro hmem
  simpa using (List.mem_filter.mp hmem).2

theorem mem_rewardDenoms {ord : Orders} {voteTargets : SortedMap String LegacyDec} {denom : String} :
    denom ∈ rewardDenoms ord voteTargets ↔
      denom ∈ microDoDenom :: voteTargets.entries.map Prod.fst := by
  have hperm := ((ord.targets.perm voteTargets).map Prod.fst).mem_iff (a := denom)
  rw [rewardDenoms_eq, List.mem_cons, List.mem_cons, List.mem_filter, hperm]
  by_cases hdo : denom = microDoDenom
  · simp [hdo]
  · simp [hdo]

/-- The rewards of the period, where every denomination is valid. -/
structure IsPeriodRewards (keepers : Keepers D) (bank : Bank) (ratio : LegacyDec) (denoms : List String)
    (rewards : DecCoins) : Prop where
  share : ∀ d ∈ denoms, rewards.get d = nonZero .zero (poolShare keepers bank ratio d)
  other : ∀ d ∉ denoms, rewards.get d = none

theorem periodRewards_ok (hbank : PoolsFit keepers bank) (hratio : IsRatio ratio) {denoms : List String}
    (hnodup : denoms.Nodup) (h : ∀ d ∈ denoms, validDenom d = true) :
    ∃ rewards, denoms.foldlM (addReward keepers bank ratio) SortedMap.empty = .ok rewards ∧
      IsPeriodRewards keepers bank ratio denoms rewards := by
  obtain ⟨rewards, hrun, hin, hout⟩ := foldlM_fresh LegacyDec.zero id (poolShare keepers bank ratio)
    (f := addReward keepers bank ratio) (l := denoms) (m := SortedMap.empty) (by rwa [List.map_id])
    (fun d hd rewards hfresh => addReward_fresh hbank hratio (h d hd) hfresh) (fun _ _ => rfl)
  rw [List.map_id] at hout
  exact ⟨rewards, hrun, hin, hout⟩

/-- An entry of the rewards is the share of a denomination. -/
theorem IsPeriodRewards.entry {denoms : List String} {rewards : DecCoins}
    (h : IsPeriodRewards keepers bank ratio denoms rewards) {d : String} {a : LegacyDec}
    (hget : rewards.get d = some a) : d ∈ denoms ∧ a = poolShare keepers bank ratio d := by
  by_cases hd : d ∈ denoms
  · have hshare := h.share d hd
    rw [hget, nonZero] at hshare
    split_ifs at hshare
    exact ⟨hd, Option.some.inj hshare⟩
  · rw [h.other d hd] at hget
    cases hget

end Period

/-! ## The reward of a winner -/

section Winner

/-- The whole coins that a part of the rewards is worth. -/
def rewardAmount (rewards : DecCoins) (share : LegacyDec) (denom : String) : Nat :=
  (((rewards.get denom).getD .zero).mulRaw share / LegacyDec.precision).toNat

/-- Rewards whose parts can be computed. -/
def Payable (rewards : DecCoins) : Prop :=
  ∀ d a, rewards.get d = some a → validDenom d = true ∧ 0 ≤ a.i ∧ LegacyDec.Fits a.i

/-- The shares of valid denominations can be paid. -/
theorem IsPeriodRewards.payable {keepers : Keepers D} {bank : Bank} {ratio : LegacyDec} {denoms : List String}
    {rewards : DecCoins} (hrewards : IsPeriodRewards keepers bank ratio denoms rewards)
    (hbank : PoolsFit keepers bank) (hratio : IsRatio ratio) (h : ∀ d ∈ denoms, validDenom d = true) :
    Payable rewards := by
  intro d a hget
  obtain ⟨hd, rfl⟩ := hrewards.entry hget
  exact ⟨h d hd, poolShare_nonneg hbank hratio d, poolShare_fits hbank hratio d⟩

/-- The share of a denomination is at most what the oracle's account has of it, whether or not
there is an entry. -/
theorem IsPeriodRewards.share_bounds {keepers : Keepers D} {bank : Bank} {ratio : LegacyDec} {denoms : List String}
    {rewards : DecCoins} (hrewards : IsPeriodRewards keepers bank ratio denoms rewards)
    (hbank : PoolsFit keepers bank) (hratio : IsRatio ratio) (d : String) :
    0 ≤ ((rewards.get d).getD .zero).i ∧
      ((rewards.get d).getD .zero).i ≤ bank.balance keepers.oracleAddr d * 10 ^ 18 := by
  cases hget : rewards.get d with
  | none => exact ⟨Int.le_refl 0, Int.mul_nonneg (hbank d).1 (by norm_num)⟩
  | some a =>
    obtain ⟨_, rfl⟩ := hrewards.entry hget
    exact ⟨poolShare_nonneg hbank hratio d, poolShare_le hbank hratio d⟩

/-- The reward of a weight: its whole coins. -/
structure IsReward (rewards : DecCoins) (share : LegacyDec) (coins : CoinSet) : Prop where
  clean : CoinSet.Clean coins
  amount : ∀ d, (coins.get d).getD 0 = rewardAmount rewards share d
  denom : ∀ d n, coins.get d = some n → validDenom d = true

theorem rewardOf_ok {rewards : DecCoins} (hrewards : Payable rewards) {sum weight : Int} (hsum : sum ≠ 0)
    {share : LegacyDec} (hshare : share = ⟨(weight * 10 ^ 18).tdiv sum⟩) (hlow : 0 ≤ share.i)
    (hhigh : share.i ≤ 10 ^ 18) :
    ∃ coins, rewardOf rewards sum weight = .ok coins ∧ IsReward rewards share coins := by
  have hquo : (LegacyDec.ofInt weight).quoInt64 sum = (.ok share : Outcome SdkError LegacyDec) := by
    rw [LegacyDec.quoInt64, if_neg hsum, hshare]
    rfl
  have hpart : ∀ d a, rewards.get d = some a → 0 ≤ a.mulRaw share ∧ LegacyDec.Fits (a.mulRaw share) := by
    intro d a hget
    obtain ⟨_, hpos, hfits⟩ := hrewards d a hget
    have hnonneg := LegacyDec.mulRaw_nonneg hpos hlow
    have hle := LegacyDec.mulRaw_le_self hpos hhigh
    exact ⟨hnonneg, LegacyDec.Fits.of_abs_le (by omega) hfits⟩
  have hfits : ∀ e ∈ rewards.entries, LegacyDec.Fits (e.2.mulRaw share) :=
    fun e he => (hpart e.1 e.2 (SortedMap.get_eq_some.mpr he)).2
  obtain ⟨parts, hparts, hparts_get⟩ := DecCoins.mulDec_ok (ε := SdkError) hfits
  have hentry : ∀ d b, parts.get d = some b → ∃ a, rewards.get d = some a ∧ b = ⟨a.mulRaw share⟩ := by
    intro d b hb
    rw [hparts_get] at hb
    obtain ⟨a, ha, hb⟩ := Option.bind_eq_some_iff.mp hb
    rw [nonZero] at hb
    split_ifs at hb
    exact ⟨a, ha, (Option.some.inj hb).symm⟩
  have hvalid : ∀ e ∈ parts.entries, validDenom e.1 = true ∧ 0 ≤ e.2.i ∧ LegacyDec.Fits e.2.i := by
    intro e he
    obtain ⟨a, ha, hb⟩ := hentry e.1 e.2 (SortedMap.get_eq_some.mpr he)
    rw [hb]
    exact ⟨(hrewards _ a ha).1, hpart _ a ha⟩
  obtain ⟨coins, hcoins, hcoins_get⟩ := DecCoins.truncateDecimal_ok (ε := SdkError) hvalid
  refine ⟨coins, ?_, ?_, ?_, ?_⟩
  · rw [rewardOf, hquo, Outcome.ok_bind, hparts, Outcome.ok_bind, hcoins]
  · intro d
    rw [hcoins_get]
    cases parts.get d with
    | none =>
      intro h
      cases h
    | some b => exact nonZero_ne_zero _
  · intro d
    have hmul : ((parts.get d).getD .zero).i = ((rewards.get d).getD .zero).mulRaw share := by
      rw [hparts_get]
      cases rewards.get d with
      | none => simp [LegacyDec.zero]
      | some a =>
        show ((nonZero LegacyDec.zero ⟨a.mulRaw share⟩).getD .zero).i = _
        rw [nonZero_getD]
        rfl
    rw [rewardAmount, ← hmul, hcoins_get]
    cases parts.get d with
    | none => rfl
    | some b => exact nonZero_getD _
  · intro d n hn
    rw [hcoins_get] at hn
    obtain ⟨b, hb, _⟩ := Option.bind_eq_some_iff.mp hn
    obtain ⟨a, ha, _⟩ := hentry d b hb
    exact (hrewards d a ha).1

/-- The part of a weight in the sum, as the source truncates it. -/
def shareOf (sum weight : Int) : LegacyDec := ⟨(weight * 10 ^ 18).tdiv sum⟩

/-- What a claim is allocated, if anything. -/
def allocation (staking : Staking) (rewards : DecCoins) (sum : Int) (e : String × Claim) :
    Option (Validator × CoinSet) :=
  (rewardFor staking rewards sum e.2).value.join

theorem rewardFor_ok (staking : Staking) {rewards : DecCoins} (hrewards : Payable rewards) {sum : Int}
    {e : String × Claim} (hsum : 0 < sum) (hlow : 0 ≤ e.2.weight) (hhigh : e.2.weight ≤ sum) :
    rewardFor staking rewards sum e.2 = .ok (allocation staking rewards sum e) ∧
      ∀ v coins, allocation staking rewards sum e = some (v, coins) →
        IsReward rewards (shareOf sum e.2.weight) coins := by
  have hnum : 0 ≤ e.2.weight * 10 ^ 18 := by omega
  have hshare : 0 ≤ (shareOf sum e.2.weight).i ∧ (shareOf sum e.2.weight).i ≤ 10 ^ 18 := by
    refine ⟨Int.tdiv_nonneg hnum hsum.le, ?_⟩
    rw [shareOf, Int.tdiv_eq_ediv_of_nonneg hnum]
    exact Int.ediv_le_of_le_mul hsum (by nlinarith)
  obtain ⟨coins, hcoins, hreward⟩ := rewardOf_ok hrewards hsum.ne'
    (rfl : shareOf sum e.2.weight = ⟨(e.2.weight * 10 ^ 18).tdiv sum⟩) hshare.1 hshare.2
  have hfor : rewardFor staking rewards sum e.2 =
      .ok ((staking.validator e.2.recipient).bind fun v =>
        if coins.isZero then none else some (v, coins)) := by
    rw [rewardFor]
    cases staking.validator e.2.recipient with
    | none => rfl
    | some v =>
      show (rewardOf rewards sum e.2.weight >>= _) = _
      rw [hcoins]
      rfl
  have hall : allocation staking rewards sum e = (staking.validator e.2.recipient).bind fun v =>
      if coins.isZero then none else some (v, coins) := by
    rw [allocation, hfor]
    rfl
  refine ⟨by rw [hfor, hall], ?_⟩
  intro v coins' h
  rw [hall] at h
  obtain ⟨v', _, h⟩ := Option.bind_eq_some_iff.mp h
  split_ifs at h
  cases h
  exact hreward

end Winner

/-! ## All rewards -/

section All

variable {keepers : Keepers D} {staking : Staking} {rewards : DecCoins} {sum : Int}

/-- Credit the rewards, one after another. -/
def credit (keepers : Keepers D) (given : List (Validator × CoinSet)) (distribution : D) : D :=
  given.foldl (fun d r => keepers.allocateTokensToValidator d r.1 (newDecCoinsFromCoins r.2)) distribution

/-- What is given of a denomination. -/
def total (given : List (Validator × CoinSet)) (denom : String) : Nat :=
  (given.map fun r => (r.2.get denom).getD 0).sum

theorem total_cons (r : Validator × CoinSet) (given : List (Validator × CoinSet)) (denom : String) :
    total (r :: given) denom = (r.2.get denom).getD 0 + total given denom :=
  List.sum_cons

/-- A denomination that is given is in one of the rewards. -/
theorem exists_of_total_ne_zero {given : List (Validator × CoinSet)} {denom : String}
    (h : total given denom ≠ 0) : ∃ r ∈ given, ∃ n, r.2.get denom = some n := by
  by_contra hnone
  apply h
  apply List.sum_eq_zero
  intro x hx
  obtain ⟨r, hr, rfl⟩ := List.mem_map.mp hx
  cases hget : r.2.get denom with
  | none => rfl
  | some n => exact absurd ⟨r, hr, n, hget⟩ hnone

/-- The loop credits every allocation, and gathers them. -/
theorem rewardLoop_ok (keepers : Keepers D) {g : String × Claim → Option (Validator × CoinSet)}
    {l : List (String × Claim)} (hg : ∀ e ∈ l, rewardFor staking rewards sum e.2 = .ok (g e)) (distribution : D)
    {moved : CoinSet}
    (hclean : CoinSet.Clean moved) (hlt : ∀ d, (moved.get d).getD 0 + total (l.filterMap g) d < 2 ^ 256) :
    ∃ moved' : CoinSet, l.foldlM (rewardWinner keepers staking rewards sum) (distribution, moved) =
        .ok (credit keepers (l.filterMap g) distribution, moved') ∧ CoinSet.Clean moved' ∧
      ∀ d, (moved'.get d).getD 0 = (moved.get d).getD 0 + total (l.filterMap g) d := by
  induction l generalizing distribution moved with
  | nil => exact ⟨moved, rfl, hclean, fun d => rfl⟩
  | cons e rest ih =>
    obtain ⟨he, hrest⟩ := List.forall_mem_cons.mp hg
    rw [List.foldlM_cons, rewardWinner, he, Outcome.ok_bind]
    cases hge : g e with
    | none =>
      rw [List.filterMap_cons_none hge] at hlt ⊢
      exact ih hrest distribution hclean hlt
    | some r =>
      obtain ⟨v, coins⟩ := r
      rw [List.filterMap_cons_some hge] at hlt ⊢
      simp only [total_cons] at hlt ⊢
      have hfits : ∀ d, (moved.get d).getD 0 + (coins.get d).getD 0 < 2 ^ 256 := by
        intro d
        exact lt_of_le_of_lt (by omega) (hlt d)
      obtain ⟨moved₁, hadd, hclean₁, hsum₁⟩ := CoinSet.addAll_ok (ε := SdkError) hclean hfits
      obtain ⟨moved', hrun, hclean', hsum'⟩ := ih hrest
        (keepers.allocateTokensToValidator distribution v (newDecCoinsFromCoins coins)) hclean₁
        (fun d => by rw [hsum₁, add_assoc]; exact hlt d)
      refine ⟨moved', ?_, hclean', fun d => by rw [hsum', hsum₁, add_assoc]⟩
      rw [giveReward, hadd]
      exact hrun

/-- One reward, times the sum of the weights: the roundings add at most half a unit. -/
theorem rewardAmount_le {denom : String} (hpos : 0 ≤ ((rewards.get denom).getD .zero).i) (hsum : 0 < sum)
    {weight : Int} (hweight : 0 ≤ weight) :
    2 * (rewardAmount rewards (shareOf sum weight) denom : Int) * 10 ^ 36 * sum ≤
      2 * ((rewards.get denom).getD .zero).i * 10 ^ 18 * weight + 10 ^ 18 * sum := by
  rw [rewardAmount]
  generalize (rewards.get denom).getD .zero = a at hpos
  have hprec : (LegacyDec.precision : Int) = 10 ^ 18 := rfl
  have hnum : 0 ≤ weight * 10 ^ 18 := by omega
  have hshare : 0 ≤ (shareOf sum weight).i := Int.tdiv_nonneg hnum hsum.le
  have hpart : (shareOf sum weight).i * sum ≤ weight * 10 ^ 18 := by
    rw [shareOf, Int.tdiv_eq_ediv_of_nonneg hnum]
    exact Int.ediv_mul_le _ hsum.ne'
  have hround := (LegacyDec.mulRaw_bounds a (shareOf sum weight)).1
  have hnonneg := LegacyDec.mulRaw_nonneg hpos hshare
  have hwhole : (((a.mulRaw (shareOf sum weight) / LegacyDec.precision).toNat : Nat) : Int) * 10 ^ 18 ≤
      a.mulRaw (shareOf sum weight) := by
    rw [hprec]
    omega
  rw [hprec] at hround
  generalize (shareOf sum weight).i = share at hpart hround
  generalize a.mulRaw (shareOf sum weight) = product at hwhole hround ⊢
  generalize (((product / LegacyDec.precision).toNat : Nat) : Int) = amount at hwhole ⊢
  calc 2 * amount * 10 ^ 36 * sum = 2 * (amount * 10 ^ 18 * 10 ^ 18) * sum := by ring
    _ ≤ 2 * (product * 10 ^ 18) * sum := by gcongr
    _ ≤ (2 * (a.i * share) + 10 ^ 18) * sum := by gcongr
    _ = 2 * a.i * (share * sum) + 10 ^ 18 * sum := by ring
    _ ≤ 2 * a.i * (weight * 10 ^ 18) + 10 ^ 18 * sum := by gcongr
    _ = 2 * a.i * 10 ^ 18 * weight + 10 ^ 18 * sum := by ring

/-- All rewards of a denomination. -/
theorem total_le_weights {denom : String} (hpos : 0 ≤ ((rewards.get denom).getD .zero).i) (hsum : 0 < sum)
    {l : List (String × Claim)} (hweights : ∀ e ∈ l, 0 ≤ e.2.weight)
    (hall : ∀ e ∈ l, ∀ v coins, allocation staking rewards sum e = some (v, coins) →
      IsReward rewards (shareOf sum e.2.weight) coins) :
    2 * (total (l.filterMap (allocation staking rewards sum)) denom : Int) * 10 ^ 36 * sum ≤
      2 * ((rewards.get denom).getD .zero).i * 10 ^ 18 * (l.map fun e => e.2.weight).sum +
        10 ^ 18 * sum * l.length := by
  induction l with
  | nil => simp [total]
  | cons e rest ih =>
    obtain ⟨he, hrest⟩ := List.forall_mem_cons.mp hweights
    obtain ⟨hreward, hothers⟩ := List.forall_mem_cons.mp hall
    have hih := ih hrest hothers
    have hone := rewardAmount_le hpos hsum he
    have hrhs : 2 * ((rewards.get denom).getD .zero).i * 10 ^ 18 *
          ((e :: rest).map fun e => e.2.weight).sum + 10 ^ 18 * sum * (e :: rest).length =
        (2 * ((rewards.get denom).getD .zero).i * 10 ^ 18 * e.2.weight + 10 ^ 18 * sum) +
        (2 * ((rewards.get denom).getD .zero).i * 10 ^ 18 * (rest.map fun e => e.2.weight).sum +
          10 ^ 18 * sum * rest.length) := by
      rw [List.map_cons, List.sum_cons, List.length_cons]
      push_cast
      ring
    rw [hrhs]
    cases hge : allocation staking rewards sum e with
    | none =>
      rw [List.filterMap_cons_none hge]
      have hamount : 0 ≤ 2 * (rewardAmount rewards (shareOf sum e.2.weight) denom : Int) * 10 ^ 36 * sum := by
        positivity
      omega
    | some r =>
      obtain ⟨v, coins⟩ := r
      have hcons : (total ((v, coins) :: rest.filterMap (allocation staking rewards sum)) denom : Int) =
          rewardAmount rewards (shareOf sum e.2.weight) denom +
            total (rest.filterMap (allocation staking rewards sum)) denom := by
        rw [total_cons, (hreward v coins hge).amount]
        exact Nat.cast_add _ _
      rw [List.filterMap_cons_some hge, hcons]
      calc _ = 2 * (rewardAmount rewards (shareOf sum e.2.weight) denom : Int) * 10 ^ 36 * sum +
            2 * (total (rest.filterMap (allocation staking rewards sum)) denom : Int) * 10 ^ 36 * sum := by ring
        _ ≤ _ := add_le_add hone hih

/-- With fewer than `10^18` claims the rewards are at most the pool. -/
theorem rewards_le_pool {denom : String} {pool : Int} (hpos : 0 ≤ ((rewards.get denom).getD .zero).i)
    (hpool : ((rewards.get denom).getD .zero).i ≤ pool * 10 ^ 18) (hsum : 0 < sum)
    {l : List (String × Claim)} (hlength : l.length < 10 ^ 18) (hweights : ∀ e ∈ l, 0 ≤ e.2.weight)
    (htotal : (l.map fun e => e.2.weight).sum = sum)
    (hall : ∀ e ∈ l, ∀ v coins, allocation staking rewards sum e = some (v, coins) →
      IsReward rewards (shareOf sum e.2.weight) coins) :
    (total (l.filterMap (allocation staking rewards sum)) denom : Int) ≤ pool := by
  have hle := total_le_weights hpos hsum hweights hall
  rw [htotal] at hle
  generalize total (l.filterMap (allocation staking rewards sum)) denom = given at hle ⊢
  generalize ((rewards.get denom).getD .zero).i = a at hpos hpool hle
  have hcancel : 2 * (given : Int) * 10 ^ 36 ≤ 2 * a * 10 ^ 18 + 10 ^ 18 * l.length := by
    apply Int.le_of_mul_le_mul_right _ hsum
    linarith
  omega

end All

/-! ## The whole call -/

section Call

variable {keepers : Keepers D} {ord : Orders} {staking : Staking} {winners : ClaimMap} {bank : Bank}

/-- The sum of the weights. -/
def weightSum (winners : ClaimMap) : Int := (winners.entries.map fun e => e.2.weight).sum

theorem weights_nonneg {l : List (String × Claim)} (h : ∀ e ∈ l, 0 ≤ e.2.weight) :
    ∀ x ∈ l.map fun e => e.2.weight, 0 ≤ x := by
  intro x hx
  obtain ⟨e, he, rfl⟩ := List.mem_map.mp hx
  exact h e he

theorem foldl_wrap64_eq {l : List (String × Claim)} (hl : ∀ e ∈ l, 0 ≤ e.2.weight) {s : Int} (hs : 0 ≤ s)
    (hlt : s + (l.map fun e => e.2.weight).sum < 2 ^ 63) :
    l.foldl (fun sum e => wrap64 (sum + e.2.weight)) s = s + (l.map fun e => e.2.weight).sum := by
  induction l generalizing s with
  | nil => simp
  | cons e rest ih =>
    obtain ⟨he, hrest⟩ := List.forall_mem_cons.mp hl
    have hothers := List.sum_nonneg (weights_nonneg hrest)
    rw [List.map_cons, List.sum_cons] at hlt ⊢
    rw [List.foldl_cons, wrap64_eq (by omega) (by omega), ih hrest (by omega) (by omega), add_assoc]

/-- The sum does not wrap around if it is an `int64`. -/
theorem ballotPowerSum_eq (hweights : ∀ e ∈ winners.entries, 0 ≤ e.2.weight) (hsum : weightSum winners < 2 ^ 63) :
    ballotPowerSum ord winners = weightSum winners := by
  have hperm := ord.weights.perm winners
  have hrange : ((ord.weights.range winners).map fun e => e.2.weight).sum = weightSum winners :=
    (hperm.map _).sum_eq
  rw [ballotPowerSum, foldl_wrap64_eq (fun e he => hweights e (hperm.mem_iff.mp he)) (Int.le_refl 0)
    (by rw [hrange]; omega), hrange, zero_add]

/-- A winner has at most the sum. -/
theorem weight_bounds (hweights : ∀ e ∈ winners.entries, 0 ≤ e.2.weight) {e : String × Claim}
    (he : e ∈ ord.winners.range winners) : 0 ≤ e.2.weight ∧ e.2.weight ≤ weightSum winners := by
  have hmem := (ord.winners.perm winners).mem_iff.mp he
  exact ⟨hweights e hmem, List.single_le_sum (weights_nonneg hweights) _ (List.mem_map_of_mem hmem)⟩

variable (keepers ord staking winners bank)

/-- The first part of the call: the rewards of the period. -/
def periodRewards (votePeriod rewardDistributionWindow : Int) (voteTargets : SortedMap String LegacyDec) :
    Outcome SdkError DecCoins := do
  let distributionRatio ← (LegacyDec.ofInt votePeriod).quoInt64 rewardDistributionWindow
  (rewardDenoms ord voteTargets).foldlM (addReward keepers bank distributionRatio) SortedMap.empty

/-- What the call allocates, in its order. -/
def allocations (votePeriod rewardDistributionWindow : Int) (voteTargets : SortedMap String LegacyDec) :
    List (Validator × CoinSet) :=
  match periodRewards keepers ord bank votePeriod rewardDistributionWindow voteTargets with
  | .ok rewards =>
    (ord.winners.range winners).filterMap (allocation staking rewards (ballotPowerSum ord winners))
  | _ => []

variable {keepers ord staking winners bank}

/-- Without a weight nothing is allocated. -/
theorem allocation_zero (rewards : DecCoins) (e : String × Claim) : allocation staking rewards 0 e = none := by
  rw [allocation, rewardFor]
  cases staking.validator e.2.recipient with
  | none => rfl
  | some v => rfl

theorem allocations_zero (hzero : ballotPowerSum ord winners = 0) (votePeriod window : Int)
    (voteTargets : SortedMap String LegacyDec) :
    allocations keepers ord staking winners bank votePeriod window voteTargets = [] := by
  unfold allocations
  cases periodRewards keepers ord bank votePeriod window voteTargets with
  | ok rewards =>
    rw [hzero]
    exact List.filterMap_eq_nil_iff.mpr fun e _ => allocation_zero rewards e
  | err e => rfl
  | panic m => rfl

/-- Coins that are covered can be sent. -/
theorem sendReward_ok {moved : CoinSet} (hclean : CoinSet.Clean moved)
    (hdenom : ∀ d n, moved.get d = some n → validDenom d = true)
    (hcovered : ∀ d, ((moved.get d).getD 0 : Int) ≤ bank.balance keepers.oracleAddr d) :
    ∃ bank', bank.sendCoins keepers.oracleAddr keepers.distrAddr moved.toCoins = .ok bank' ∧
      sendReward keepers bank moved = .ok bank' := by
  obtain ⟨bank', hsend⟩ := Bank.sendCoins_ok (b := bank) (x := keepers.oracleAddr) (y := keepers.distrAddr)
    (CoinSet.toCoins_isValid hclean hdenom) (by
      intro c hc
      obtain ⟨e, he, rfl⟩ := List.mem_map.mp hc
      have hle := hcovered e.1
      rw [SortedMap.get_eq_some.mpr he] at hle
      exact hle)
  refine ⟨bank', hsend, ?_⟩
  rw [sendReward, hsend]

/-- A call that returns: what it moves is the sum of what it allocates, and is covered by the
oracle's account. -/
def Covered (keepers : Keepers D) (ord : Orders) (staking : Staking) (votePeriod window : Int)
    (voteTargets : SortedMap String LegacyDec) (winners : ClaimMap) (bank : Bank) (distribution : D) : Prop :=
  ∃ (bank' : Bank) (moved : CoinSet),
    rewardBallotWinners keepers ord staking votePeriod window voteTargets winners bank distribution =
      .ok (bank', credit keepers (allocations keepers ord staking winners bank votePeriod window voteTargets)
        distribution) ∧
    (∀ d, (moved.get d).getD 0 =
      total (allocations keepers ord staking winners bank votePeriod window voteTargets) d) ∧
    (∀ d, ((moved.get d).getD 0 : Int) ≤ bank.balance keepers.oracleAddr d) ∧
    bank.sendCoins keepers.oracleAddr keepers.distrAddr moved.toCoins = .ok bank'

/-- Without a weight the call returns at once. -/
theorem covered_of_zero (hbank : PoolsFit keepers bank)
    (hzero : ballotPowerSum ord winners = 0) (votePeriod window : Int)
    (voteTargets : SortedMap String LegacyDec) (distribution : D) :
    Covered keepers ord staking votePeriod window voteTargets winners bank distribution := by
  refine ⟨bank, SortedMap.empty, ?_, ?_, fun d => (hbank d).1, rfl⟩
  · rw [allocations_zero hzero, rewardBallotWinners]
    simp only [hzero, if_true]
    rfl
  · intro d
    rw [allocations_zero hzero]
    rfl

/-- With valid denominations, every step succeeds. -/
theorem covered_of_validDenoms (hbank : PoolsFit keepers bank)
    (hlength : winners.entries.length < 10 ^ 18) (hweights : ∀ e ∈ winners.entries, 0 ≤ e.2.weight)
    (hsum : weightSum winners < 2 ^ 63) (hpos : 0 < weightSum winners) {votePeriod window : Int}
    {ratio : LegacyDec} (hratio : (LegacyDec.ofInt votePeriod).quoInt64 window = (.ok ratio : Outcome SdkError _))
    (hpart : IsRatio ratio) {voteTargets : SortedMap String LegacyDec}
    (h : ∀ d ∈ rewardDenoms ord voteTargets, validDenom d = true) (distribution : D) :
    Covered keepers ord staking votePeriod window voteTargets winners bank distribution := by
  have hpower : ballotPowerSum ord winners = weightSum winners := ballotPowerSum_eq hweights hsum
  obtain ⟨rewards, hrun, hrewards⟩ := periodRewards_ok hbank hpart (rewardDenoms_nodup ord voteTargets) h
  have hperm := ord.winners.perm winners
  have hpayable := hrewards.payable hbank hpart h
  have hclaims : ∀ e ∈ ord.winners.range winners, 0 ≤ e.2.weight ∧ e.2.weight ≤ weightSum winners :=
    fun e he => weight_bounds hweights he
  have hfor := fun e he => rewardFor_ok staking hpayable hpos (hclaims e he).1 (hclaims e he).2
  generalize hgiven : (ord.winners.range winners).filterMap (allocation staking rewards (weightSum winners)) = given
  have hbound : ∀ d, (total given d : Int) ≤ bank.balance keepers.oracleAddr d := by
    intro d
    have hshare := hrewards.share_bounds hbank hpart d
    rw [← hgiven]
    exact rewards_le_pool hshare.1 hshare.2 hpos (hperm.length_eq ▸ hlength)
      (fun e he => (hclaims e he).1) (hperm.map _).sum_eq (fun e he => (hfor e he).2)
  have hclean : CoinSet.Clean SortedMap.empty := by
    intro d hget
    cases hget
  obtain ⟨moved, hloop, hmoved, htotal⟩ := rewardLoop_ok keepers (fun e he => (hfor e he).1)
    distribution hclean (by
      intro d
      rw [hgiven, SortedMap.get_empty, Option.getD_none, zero_add]
      exact_mod_cast lt_of_le_of_lt (hbound d) (hbank d).2)
  rw [hgiven] at hloop htotal
  have hamount : ∀ d, (moved.get d).getD 0 = total given d := by
    intro d
    rw [htotal, SortedMap.get_empty, Option.getD_none, zero_add]
  have hcovered : ∀ d, ((moved.get d).getD 0 : Int) ≤ bank.balance keepers.oracleAddr d := by
    intro d
    rw [hamount]
    exact hbound d
  have hdenom : ∀ d n, moved.get d = some n → validDenom d = true := by
    intro d n hn
    have hne : total given d ≠ 0 := by
      rw [← hamount, hn]
      exact fun hzero => hmoved d (hn.trans (congrArg some hzero))
    obtain ⟨r, hr, m, hm⟩ := exists_of_total_ne_zero hne
    rw [← hgiven] at hr
    obtain ⟨e, he, hall⟩ := List.mem_filterMap.mp hr
    exact ((hfor e he).2 r.1 r.2 hall).denom d m hm
  obtain ⟨bank', hsend, hreward⟩ := sendReward_ok hmoved hdenom hcovered
  have hperiod : periodRewards keepers ord bank votePeriod window voteTargets = .ok rewards := by
    rw [periodRewards, hratio, Outcome.ok_bind, hrun]
  have hall : allocations keepers ord staking winners bank votePeriod window voteTargets = given := by
    rw [allocations, hperiod, hpower, ← hgiven]
  refine ⟨bank', moved, ?_, by rw [hall]; exact hamount, hcovered, hsend⟩
  simp only [rewardBallotWinners, hpower, hpos.ne', if_false, hratio, Outcome.ok_bind, hrun, hloop, hreward, hall]

/-- With valid parameters, the call returns, moves what it allocates and no more than the
oracle's account has, exactly if the weights are zero or every denomination is valid. -/
theorem rewards_covered_iff (keepers : Keepers D) (ord : Orders) (staking : Staking) (params : Params)
    (hparams : params.validate = .ok ()) (hperiod : params.votePeriod < 2 ^ 63)
    (hwindow : params.rewardDistributionWindow < 2 ^ 63) (voteTargets : SortedMap String LegacyDec)
    (winners : ClaimMap) (hlength : winners.entries.length < 10 ^ 18)
    (hweights : ∀ e ∈ winners.entries, 0 ≤ e.2.weight) (hsum : weightSum winners < 2 ^ 63) (bank : Bank)
    (hbank : PoolsFit keepers bank) (distribution : D) :
    Covered keepers ord staking (wrap64 params.votePeriod) (wrap64 params.rewardDistributionWindow) voteTargets
        winners bank distribution ↔
      weightSum winners = 0 ∨ ∀ d ∈ microDoDenom :: voteTargets.entries.map Prod.fst, validDenom d = true := by
  obtain ⟨hshared, _, hle, _⟩ := params.validate_eq_ok.mp hparams
  have hpos : (0 : Int) < params.rewardDistributionWindow := by
    have := hshared.votePeriod
    omega
  have hnum : (0 : Int) ≤ params.votePeriod * 10 ^ 18 := by omega
  have hpower : ballotPowerSum ord winners = weightSum winners := ballotPowerSum_eq hweights hsum
  rw [wrap64_eq (by omega) (by omega), wrap64_eq (by omega) (by omega)]
  generalize hi : (params.votePeriod : Int) * 10 ^ 18 / params.rewardDistributionWindow = i
  have hratio : (LegacyDec.ofInt params.votePeriod).quoInt64 params.rewardDistributionWindow =
      (.ok ⟨i⟩ : Outcome SdkError LegacyDec) := by
    rw [LegacyDec.quoInt64, if_neg hpos.ne', ← hi, ← Int.tdiv_eq_ediv_of_nonneg hnum]
    rfl
  have hlow : 0 ≤ i := hi ▸ Int.ediv_nonneg hnum hpos.le
  have hhigh : i ≤ 10 ^ 18 := by
    rw [← hi]
    exact Int.ediv_le_of_le_mul hpos (by omega)
  refine ⟨?_, ?_⟩
  · intro h
    by_cases hzero : weightSum winners = 0
    · exact .inl hzero
    · obtain ⟨bank', moved, hcall, _⟩ := h
      simp only [rewardBallotWinners, hpower, hzero, if_false, hratio, Outcome.ok_bind] at hcall
      obtain ⟨rewards, hrun, _⟩ := Outcome.bind_eq_ok.mp hcall
      refine .inr ?_
      intro d hd
      obtain ⟨_, _, hstep⟩ := Outcome.foldlM_step hrun (mem_rewardDenoms.mpr hd)
      exact validDenom_of_addReward hstep
  · intro h
    by_cases hzero : weightSum winners = 0
    · exact covered_of_zero hbank (hpower.trans hzero) _ _ voteTargets distribution
    · have hnonneg : 0 ≤ weightSum winners := List.sum_nonneg (weights_nonneg hweights)
      exact covered_of_validDenoms hbank hlength hweights hsum (by omega) hratio ⟨hlow, hhigh⟩
        (fun d hd => h.resolve_left hzero d (mem_rewardDenoms.mp hd)) distribution

end Call

namespace Sample

open Sdk.Sample (alice bob aliceOperator bobOperator)

/-- Alice and Bob have won with a weight of one each. -/
def twoWinners : ClaimMap :=
  (SortedMap.empty.set aliceOperator ⟨1, 1, 1, alice⟩).set bobOperator ⟨1, 1, 1, bob⟩

/-- The oracle's account holds 1000 udo, and they share it. -/
theorem two_winners_covered :
    Covered modules byKey staking (wrap64 params.votePeriod) (wrap64 params.rewardDistributionWindow)
      (SortedMap.empty.set "uusd" .zero) twoWinners (world (voted [] [])).bank (fun _ _ => 0) :=
  (rewards_covered_iff modules byKey staking params (by decide +kernel) (by decide) (by decide)
    (SortedMap.empty.set "uusd" .zero) twoWinners (by decide +kernel) (by decide +kernel) (by decide +kernel)
    (world (voted [] [])).bank (by
      intro d
      simp only [world]
      split_ifs <;> decide) (fun _ _ => 0)).mpr (.inr (by decide +kernel))

/-- The parameters accept a vote target of one letter. Reading the balance of it panics, so
no period can be ended. -/
theorem short_target_panics :
    let targets := [⟨"uusd", .zero⟩, ⟨"x", .zero⟩]
    Params.validate { params with whitelist := targets } = .ok () ∧
    rewardBallotWinners modules byKey staking (wrap64 params.votePeriod)
        (wrap64 params.rewardDistributionWindow) ((SortedMap.empty.set "uusd" .zero).set "x" .zero)
        twoWinners (world (voted [] [])).bank (fun _ _ => 0) = .panic "invalid denom: x" := by
  exact ⟨by decide +kernel, Outcome.panicText_eq_some.mp (by decide +kernel)⟩

end Sample

end Oracle
