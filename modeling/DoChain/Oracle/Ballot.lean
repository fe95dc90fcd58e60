import DoChain.Lib.SortedMap
import DoChain.Lib.WeightedMedian
import DoChain.Sdk.LegacyDec
import DoChain.Sdk.Types

/- Ballots of exchange-rate votes (`x/oracle/types/ballot.go`, `x/oracle/tally.go`).

   Correspondence (Go ↔ Lean):
     `ExchangeRateBallot.ToMap`                ↔ `toMap`
     `ExchangeRateBallot.ToCrossRateWithSort`  ↔ `toCrossRateWithSort`
     `ExchangeRateBallot.Power`                ↔ `power`
     `ExchangeRateBallot.WeightedMedian`       ↔ `weightedMedian`
     `ExchangeRateBallot.StandardDeviation`    ↔ `standardDeviation`
     `Tally`                                   ↔ `tally`

   Powers are `int64`, and their sums wrap around. A vote that is no positive rate
   abstains: it has no power. The sort need not be stable, so it is any function that
   returns the same votes in order. The standard deviation is a floating-point square
   root printed and parsed again; it is a function with the range of a decimal, and a
   panic while the variance is summed makes it zero.

   What the later results need is when a ballot's arithmetic panics: `crossVotes` where
   a quotient leaves the range, and `tally` where the median and the reward spread
   together do (`tally_ok`, `tally_panic`). `Median` says what the median of a ballot is
   without a loop; `WeightedMedian` computes it where the powers do not wrap around. -/

namespace Oracle

open Sdk

/-- Operator addresses. -/
abbrev ValAddress := AccAddress

structure VoteForTally where
  denom : String
  exchangeRate : LegacyDec
  voter : ValAddress
  power : Int
  deriving DecidableEq

abbrev ExchangeRateBallot := List VoteForTally

structure Claim where
  power : Int
  weight : Int
  winCount : Int
  recipient : ValAddress
  deriving DecidableEq

abbrev ClaimMap := SortedMap String Claim

/-- What the ballots use of the standard library. -/
structure BallotOps where
  /-- `sort.Sort` by rate -/
  sort : ExchangeRateBallot → ExchangeRateBallot
  sort_perm : ∀ pb, (sort pb).Perm pb
  sort_sorted : ∀ pb, (sort pb).Pairwise (fun v w => v.exchangeRate ≤ w.exchangeRate)
  /-- the square root in floating point, printed with six digits and parsed -/
  sqrtDec : LegacyDec → LegacyDec
  sqrtDec_nonneg : ∀ d, 0 ≤ (sqrtDec d).i
  sqrtDec_fits : ∀ d, LegacyDec.Fits (sqrtDec d).i

variable {ε : Type}

/-! ## Powers and medians -/

def power (pb : ExchangeRateBallot) : Int := pb.foldl (fun total v => wrap64 (total + v.power)) 0

/-- The loop of the median, from the pivot on. -/
def medianFrom (half pivot : Int) : ExchangeRateBallot → Option LegacyDec
  | [] => none
  | v :: rest =>
    if half ≤ wrap64 (pivot + v.power) then some v.exchangeRate
    else medianFrom half (wrap64 (pivot + v.power)) rest

def weightedMedian (pb : ExchangeRateBallot) : LegacyDec :=
  (medianFrom ((power pb).tdiv 2) 0 pb).getD .zero

def sumSquares (median : LegacyDec) (pb : ExchangeRateBallot) : Outcome ε LegacyDec :=
  pb.foldlM (fun sum v => do
    let deviation ← v.exchangeRate.sub median
    let square ← deviation.mul deviation
    sum.add square) .zero

def standardDeviation (ops : BallotOps) (pb : ExchangeRateBallot) (median : LegacyDec) : LegacyDec :=
  if pb = [] then .zero
  else
    match (sumSquares median pb : Outcome Unit LegacyDec) with
    | .ok sum => ops.sqrtDec ⟨sum.i.tdiv pb.length⟩
    | _ => .zero

/-! ## Cross rates -/

/-- The positive rates of a ballot, by voter. -/
def toMap (pb : ExchangeRateBallot) : SortedMap ValAddress LegacyDec :=
  pb.foldl (fun m v => if v.exchangeRate.IsPositive then m.set v.voter v.exchangeRate else m)
    SortedMap.empty

def VoteForTally.abstain (v : VoteForTally) : VoteForTally :=
  { v with exchangeRate := .zero, power := 0 }

/-- A vote at the rate of its voter's reference vote, or an abstention. -/
def crossVote (bases : SortedMap ValAddress LegacyDec) (v : VoteForTally) : Outcome ε VoteForTally :=
  match bases.get v.voter with
  | none => .ok v.abstain
  | some exchangeRateRT =>
    if v.exchangeRate.IsPositive then do
      let rate ← exchangeRateRT.quo v.exchangeRate
      .ok { v with exchangeRate := rate }
    else .ok v.abstain

def crossVotes (bases : SortedMap ValAddress LegacyDec) :
    ExchangeRateBallot → Outcome ε ExchangeRateBallot
  | [] => .ok []
  | v :: rest => do
    let v ← crossVote bases v
    let rest ← crossVotes bases rest
    .ok (v :: rest)

def toCrossRateWithSort (ops : BallotOps) (bases : SortedMap ValAddress LegacyDec)
    (pb : ExchangeRateBallot) : Outcome ε ExchangeRateBallot := do
  let cb ← crossVotes bases pb
  .ok (ops.sort cb)

/-! ## Tallying -/

/-- The spread around the median within which a vote is rewarded. -/
def rewardSpread (ops : BallotOps) (pb : ExchangeRateBallot) (rewardBand : LegacyDec) :
    Outcome ε LegacyDec := do
  let band ← rewardBand.quoInt64 2
  let spread ← (weightedMedian pb).mul band
  let deviation := standardDeviation ops pb (weightedMedian pb)
  .ok (if spread < deviation then deviation else spread)

/-- The upper bound is computed only for a vote that meets the lower one. -/
def meetsUpper (median spread low rate : LegacyDec) : Outcome ε Bool :=
  if low ≤ rate then do
    let high ← median.add spread
    .ok (decide (rate ≤ high))
  else .ok false

def isWinner (median spread rate : LegacyDec) : Outcome ε Bool := do
  let low ← median.sub spread
  let inside ← meetsUpper median spread low rate
  .ok (inside || !decide rate.IsPositive)

/-- A winner's claim is looked up by its address, and made where there is none. -/
def creditWinner (valString : ValAddress → String) (claims : ClaimMap) (v : VoteForTally) : ClaimMap :=
  let claim := (claims.get (valString v.voter)).getD ⟨0, 0, 0, []⟩
  claims.set (valString v.voter)
    { claim with weight := wrap64 (claim.weight + v.power), winCount := wrap64 (claim.winCount + 1) }

def tallyVote (valString : ValAddress → String) (median spread : LegacyDec) (claims : ClaimMap)
    (v : VoteForTally) : Outcome ε ClaimMap := do
  let wins ← isWinner median spread v.exchangeRate
  .ok (if wins then creditWinner valString claims v else claims)

def tally (ops : BallotOps) (valString : ValAddress → String) (pb : ExchangeRateBallot)
    (rewardBand : LegacyDec) (claims : ClaimMap) : Outcome ε (LegacyDec × ClaimMap) := do
  let spread ← rewardSpread ops pb rewardBand
  let claims ← pb.foldlM (tallyVote valString (weightedMedian pb) spread) claims
  .ok (weightedMedian pb, claims)

/-! ## Winners

Who wins does not depend on the claims, so a tally finds the winners and then credits
them. -/

def winners (median spread : LegacyDec) : ExchangeRateBallot → Outcome ε ExchangeRateBallot
  | [] => .ok []
  | v :: rest => do
    let wins ← isWinner median spread v.exchangeRate
    let others ← winners median spread rest
    .ok (if wins then v :: others else others)

/-- The median of a ballot and its winners. -/
def tallied (ops : BallotOps) (pb : ExchangeRateBallot) (rewardBand : LegacyDec) :
    Outcome ε (LegacyDec × ExchangeRateBallot) := do
  let spread ← rewardSpread ops pb rewardBand
  let winners ← winners (weightedMedian pb) spread pb
  .ok (weightedMedian pb, winners)

theorem foldlM_tallyVote (valString : ValAddress → String) (median spread : LegacyDec)
    (pb : ExchangeRateBallot) (claims : ClaimMap) :
    (pb.foldlM (tallyVote valString median spread) claims : Outcome ε ClaimMap) =
      (winners median spread pb >>= fun ws => .ok (ws.foldl (creditWinner valString) claims)) := by
  induction pb generalizing claims with
  | nil => rfl
  | cons v rest ih =>
    rw [List.foldlM_cons, tallyVote, winners]
    cases isWinner median spread v.exchangeRate with
    | ok wins =>
      simp only [Outcome.ok_bind, ih]
      cases (winners median spread rest : Outcome ε ExchangeRateBallot) <;> cases wins <;> rfl
    | err e => rfl
    | panic m => rfl

theorem tally_eq (ops : BallotOps) (valString : ValAddress → String) (pb : ExchangeRateBallot)
    (rewardBand : LegacyDec) (claims : ClaimMap) :
    (tally ops valString pb rewardBand claims : Outcome ε (LegacyDec × ClaimMap)) =
      (tallied ops pb rewardBand >>= fun r => .ok (r.1, r.2.foldl (creditWinner valString) claims)) := by
  rw [tally, tallied]
  cases (rewardSpread ops pb rewardBand : Outcome ε LegacyDec) with
  | ok spread =>
    simp only [Outcome.ok_bind, foldlM_tallyVote]
    cases (winners (weightedMedian pb) spread pb : Outcome ε ExchangeRateBallot) <;> rfl
  | err e => rfl
  | panic m => rfl

/-- Within the spread around the median, or an abstention. -/
def Wins (median spread rate : LegacyDec) : Prop :=
  (median.i - spread.i ≤ rate.i ∧ rate.i ≤ median.i + spread.i) ∨ ¬ 0 < rate.i

instance (median spread rate : LegacyDec) : Decidable (Wins median spread rate) :=
  inferInstanceAs (Decidable (_ ∨ _))

theorem isWinner_inv {median spread rate : LegacyDec} {wins : Bool}
    (h : (isWinner median spread rate : Outcome ε Bool) = .ok wins) :
    wins = true ↔ Wins median spread rate := by
  obtain ⟨low, hlow, h₁⟩ := Outcome.bind_eq_ok.mp h
  obtain ⟨_, rfl⟩ := LegacyDec.check_eq_ok.mp hlow
  obtain ⟨inside, hinside, h₂⟩ := Outcome.bind_eq_ok.mp h₁
  have hin : inside = true ↔ median.i - spread.i ≤ rate.i ∧ rate.i ≤ median.i + spread.i := by
    unfold meetsUpper at hinside
    split_ifs at hinside with hmeets
    · obtain ⟨high, hhigh, hle⟩ := Outcome.bind_eq_ok.mp hinside
      obtain ⟨_, rfl⟩ := LegacyDec.check_eq_ok.mp hhigh
      rw [← Outcome.ok.inj hle, decide_eq_true_iff]
      exact ⟨fun hle => ⟨hmeets, hle⟩, fun hle => hle.2⟩
    · rw [← Outcome.ok.inj hinside]
      exact ⟨fun hf => absurd hf Bool.false_ne_true, fun hle => absurd hle.1 hmeets⟩
  rw [← Outcome.ok.inj h₂, Bool.or_eq_true, hin, Bool.not_eq_true', decide_eq_false_iff_not]
  rfl

theorem winners_inv {median spread : LegacyDec} {pb ws : ExchangeRateBallot}
    (h : (winners median spread pb : Outcome ε ExchangeRateBallot) = .ok ws) :
    ws = pb.filter (fun v => decide (Wins median spread v.exchangeRate)) := by
  induction pb generalizing ws with
  | nil =>
    cases h
    rfl
  | cons v rest ih =>
    obtain ⟨wins, hwins, h₁⟩ := Outcome.bind_eq_ok.mp h
    obtain ⟨others, hothers, h₂⟩ := Outcome.bind_eq_ok.mp h₁
    have hiff := isWinner_inv hwins
    rw [← Outcome.ok.inj h₂, ih hothers]
    by_cases hw : Wins median spread v.exchangeRate
    · rw [List.filter_cons_of_pos (by simpa using hw), if_pos (hiff.mpr hw)]
    · rw [List.filter_cons_of_neg (by simpa using hw), if_neg (mt hiff.mp hw)]

/-- Credits can be given in any order. -/
theorem creditWinner_comm (valString : ValAddress → String) (claims : ClaimMap) (v w : VoteForTally) :
    creditWinner valString (creditWinner valString claims v) w =
      creditWinner valString (creditWinner valString claims w) v := by
  by_cases hkey : valString v.voter = valString w.voter
  · have hwrap : ∀ a b c : Int, wrap64 (wrap64 (a + b) + c) = wrap64 (wrap64 (a + c) + b) := by
      intro a b c
      unfold wrap64
      rw [Int.bmod_add_bmod, Int.bmod_add_bmod, Int.add_right_comm]
    apply SortedMap.ext_get
    intro x
    simp only [creditWinner, hkey, SortedMap.get_set_self, SortedMap.get_set, Option.getD_some]
    rw [hwrap]
    split_ifs <;> rfl
  · have hkey' : valString w.voter ≠ valString v.voter := fun h => hkey h.symm
    simp only [creditWinner, SortedMap.get_set, if_neg hkey, if_neg hkey']
    exact SortedMap.set_comm hkey _ _ _

theorem foldl_creditWinner_comm (valString : ValAddress → String) (claims : ClaimMap)
    (vs ws : ExchangeRateBallot) :
    ws.foldl (creditWinner valString) (vs.foldl (creditWinner valString) claims) =
      vs.foldl (creditWinner valString) (ws.foldl (creditWinner valString) claims) := by
  rw [← List.foldl_append, ← List.foldl_append]
  exact List.perm_append_comm.foldl_eq' (fun v _ w _ claims => creditWinner_comm valString claims v w) _

/-! ## Ranges -/

/-- The rates are no negative numbers and in the range of a decimal. -/
def InRange (pb : ExchangeRateBallot) : Prop :=
  ∀ v ∈ pb, 0 ≤ v.exchangeRate.i ∧ LegacyDec.Fits v.exchangeRate.i

theorem InRange.sort {ops : BallotOps} {pb : ExchangeRateBallot} (h : InRange pb) :
    InRange (ops.sort pb) :=
  fun v hv => h v ((ops.sort_perm pb).mem_iff.mp hv)

theorem medianFrom_mem {half pivot : Int} {pb : ExchangeRateBallot} {d : LegacyDec}
    (h : medianFrom half pivot pb = some d) : ∃ v ∈ pb, v.exchangeRate = d := by
  induction pb generalizing pivot with
  | nil => cases h
  | cons v rest ih =>
    rw [medianFrom] at h
    split_ifs at h
    · exact ⟨v, List.mem_cons_self, Option.some.inj h⟩
    · obtain ⟨w, hw, heq⟩ := ih h
      exact ⟨w, List.mem_cons_of_mem v hw, heq⟩

/-- The median is the rate of a vote, or zero. -/
theorem weightedMedian_cases (pb : ExchangeRateBallot) :
    weightedMedian pb = .zero ∨ ∃ v ∈ pb, v.exchangeRate = weightedMedian pb := by
  rw [weightedMedian]
  cases h : medianFrom ((power pb).tdiv 2) 0 pb with
  | none => exact .inl rfl
  | some d => exact .inr (medianFrom_mem h)

theorem InRange.median {pb : ExchangeRateBallot} (h : InRange pb) :
    0 ≤ (weightedMedian pb).i ∧ LegacyDec.Fits (weightedMedian pb).i := by
  cases weightedMedian_cases pb with
  | inl hzero =>
    rw [hzero]
    exact ⟨Int.le_refl 0, LegacyDec.fits_zero⟩
  | inr hmem =>
    obtain ⟨v, hv, heq⟩ := hmem
    rw [← heq]
    exact h v hv

theorem standardDeviation_range (ops : BallotOps) (pb : ExchangeRateBallot) (median : LegacyDec) :
    0 ≤ (standardDeviation ops pb median).i ∧ LegacyDec.Fits (standardDeviation ops pb median).i := by
  unfold standardDeviation
  split_ifs
  · exact ⟨Int.le_refl 0, LegacyDec.fits_zero⟩
  · split
    · exact ⟨ops.sqrtDec_nonneg _, ops.sqrtDec_fits _⟩
    · exact ⟨Int.le_refl 0, LegacyDec.fits_zero⟩

/-! ## What the median is -/

def totalPower (pb : ExchangeRateBallot) : Int := (pb.map VoteForTally.power).sum

/-- The powers are no negative numbers, and their sum is an `int64`. -/
def Bounded (pb : ExchangeRateBallot) : Prop :=
  (∀ v ∈ pb, 0 ≤ v.power) ∧ totalPower pb < 2 ^ 63

/-- A ballot that the votes of a period make. -/
structure WellFormed (pb : ExchangeRateBallot) : Prop where
  inRange : InRange pb
  bounded : Bounded pb
  sorted : pb.Pairwise (fun v w => v.exchangeRate ≤ w.exchangeRate)
  nonempty : pb ≠ []

/-- The least rate of a vote such that the votes up to it have half of the power. -/
def Median (pb : ExchangeRateBallot) (r : LegacyDec) : Prop :=
  WeightedMedian.IsMedian VoteForTally.power (fun v => v.exchangeRate.i) ((totalPower pb).tdiv 2) pb
    r.i

/-- The votes without a positive rate do not decide the median: there is none of them,
or they have less than half of the power. -/
def Supported (pb : ExchangeRateBallot) : Prop :=
  (∃ v ∈ pb, ¬ 0 < v.exchangeRate.i) →
    WeightedMedian.weight VoteForTally.power (fun v => ¬ 0 < v.exchangeRate.i) pb
      < (totalPower pb).tdiv 2

theorem totalPower_cons (v : VoteForTally) (pb : ExchangeRateBallot) :
    totalPower (v :: pb) = v.power + totalPower pb := by
  rw [totalPower, List.map_cons, List.sum_cons]
  rfl

theorem totalPower_nonneg {pb : ExchangeRateBallot} (h : ∀ v ∈ pb, 0 ≤ v.power) :
    0 ≤ totalPower pb := by
  apply List.sum_map_nonneg
  intro v hv
  exact h v hv

/-- Without an overflow the running power is the sum. -/
theorem foldl_power {pb : ExchangeRateBallot} {total : Int} (h : ∀ v ∈ pb, 0 ≤ v.power)
    (htotal : 0 ≤ total) (hsum : total + totalPower pb < 2 ^ 63) :
    pb.foldl (fun total v => wrap64 (total + v.power)) total = total + totalPower pb := by
  induction pb generalizing total with
  | nil => rw [totalPower, List.map_nil, List.sum_nil, Int.add_zero, List.foldl_nil]
  | cons v rest ih =>
    have hv := h v List.mem_cons_self
    have hrest := fun w hw => h w (List.mem_cons_of_mem v hw)
    have hnonneg := totalPower_nonneg hrest
    rw [totalPower_cons] at hsum ⊢
    rw [List.foldl_cons, wrap64_eq (by omega) (by omega), ih hrest (by omega) (by omega)]
    omega

theorem Bounded.power_eq {pb : ExchangeRateBallot} (h : Bounded pb) : power pb = totalPower pb := by
  have hsum := h.2
  rw [power, foldl_power h.1 (Int.le_refl 0) (by omega), Int.zero_add]

/-- Without an overflow the loop of the median is the one over integers. -/
theorem medianFrom_eq {half pivot : Int} {pb : ExchangeRateBallot} (h : ∀ v ∈ pb, 0 ≤ v.power)
    (hpivot : 0 ≤ pivot) (hsum : pivot + totalPower pb < 2 ^ 63) :
    medianFrom half pivot pb
      = (WeightedMedian.reach VoteForTally.power half pivot pb).map VoteForTally.exchangeRate := by
  induction pb generalizing pivot with
  | nil => rfl
  | cons v rest ih =>
    have hv := h v List.mem_cons_self
    have hrest := fun w hw => h w (List.mem_cons_of_mem v hw)
    have hnonneg := totalPower_nonneg hrest
    rw [totalPower_cons] at hsum
    rw [medianFrom, WeightedMedian.reach, wrap64_eq (by omega) (by omega),
      ih hrest (by omega) (by omega)]
    split_ifs <;> rfl

/-- The median that is computed is the median. -/
theorem weightedMedian_isMedian {pb : ExchangeRateBallot} (hbounded : Bounded pb)
    (hsorted : pb.Pairwise (fun v w => v.exchangeRate ≤ w.exchangeRate)) (hne : pb ≠ []) :
    Median pb (weightedMedian pb) := by
  obtain ⟨hpower, hsum⟩ := hbounded
  have hnonneg := totalPower_nonneg hpower
  rw [weightedMedian, Bounded.power_eq ⟨hpower, hsum⟩, medianFrom_eq hpower (Int.le_refl 0) (by omega)]
  cases hreach : WeightedMedian.reach VoteForTally.power ((totalPower pb).tdiv 2) 0 pb with
  | none =>
    -- the whole ballot has half of its power
    have hhalf : (totalPower pb).tdiv 2 ≤ totalPower pb := by
      rw [Int.tdiv_eq_ediv_of_nonneg hnonneg]
      omega
    cases WeightedMedian.reach_eq_none hreach with
    | inl hnil => exact absurd hnil hne
    | inr hlt =>
      have hlt : 0 + totalPower pb < (totalPower pb).tdiv 2 := hlt
      omega
  | some v => exact WeightedMedian.reach_isMedian hpower hsorted hreach

theorem WellFormed.median_iff {pb : ExchangeRateBallot} (h : WellFormed pb) {r : LegacyDec} :
    Median pb r ↔ r = weightedMedian pb := by
  have hmedian := weightedMedian_isMedian h.bounded h.sorted h.nonempty
  refine ⟨?_, ?_⟩
  · intro hr
    have heq : r.i = (weightedMedian pb).i := hr.unique hmedian
    show (⟨r.i⟩ : LegacyDec) = ⟨(weightedMedian pb).i⟩
    rw [heq]
  · intro hr
    rw [hr]
    exact hmedian

/-- The median is not zero exactly if the ballot is supported. -/
theorem WellFormed.median_ne_zero_iff {pb : ExchangeRateBallot} (h : WellFormed pb) :
    (weightedMedian pb).i ≠ 0 ↔ Supported pb := by
  have hmedian : Median pb (weightedMedian pb) := h.median_iff.mpr rfl
  have hlow := hmedian.lower_iff (q := fun s => ¬ 0 < s) h.bounded.1 (fun s t hst ht => by omega)
  have hnonneg := h.inRange.median.1
  rw [Supported]
  refine ⟨?_, ?_⟩
  · intro hne hlost
    by_contra hle
    have hzero := hlow.mpr ⟨hlost, not_lt.mp hle⟩
    omega
  · intro hsupported hzero
    obtain ⟨hlost, hle⟩ := hlow.mp (by omega)
    exact absurd (hsupported hlost) (not_lt.mpr hle)

theorem Bounded.sort {ops : BallotOps} {pb : ExchangeRateBallot} (h : Bounded pb) :
    Bounded (ops.sort pb) := by
  refine ⟨fun v hv => h.1 v ((ops.sort_perm pb).mem_iff.mp hv), ?_⟩
  rw [totalPower, ((ops.sort_perm pb).map VoteForTally.power).sum_eq]
  exact h.2

theorem supported_sort {ops : BallotOps} {pb : ExchangeRateBallot} :
    Supported (ops.sort pb) ↔ Supported pb := by
  have hperm := ops.sort_perm pb
  have htotal : totalPower (ops.sort pb) = totalPower pb := (hperm.map VoteForTally.power).sum_eq
  rw [Supported, Supported, WeightedMedian.weight_perm hperm, htotal]
  simp only [hperm.mem_iff]

/-! ## When the cross rates panic -/

/-- The quotient of a vote and its voter's reference vote is in range. -/
def CrossFits (bases : SortedMap ValAddress LegacyDec) (v : VoteForTally) : Prop :=
  ∀ base, bases.get v.voter = some base → v.exchangeRate.IsPositive →
    LegacyDec.Fits (LegacyDec.quoRaw base v.exchangeRate)

/-- The vote at its cross rate, whatever its size. -/
def crossed (bases : SortedMap ValAddress LegacyDec) (v : VoteForTally) : VoteForTally :=
  match bases.get v.voter with
  | none => v.abstain
  | some base =>
    if v.exchangeRate.IsPositive then
      { v with exchangeRate := ⟨LegacyDec.quoRaw base v.exchangeRate⟩ }
    else v.abstain

variable {bases : SortedMap ValAddress LegacyDec}

theorem crossVote_ok {v : VoteForTally} (h : CrossFits bases v) :
    (crossVote bases v : Outcome ε VoteForTally) = .ok (crossed bases v) := by
  unfold crossVote crossed
  cases hbase : bases.get v.voter with
  | none => rfl
  | some base =>
    by_cases hpos : v.exchangeRate.IsPositive
    · have hquo : (base.quo v.exchangeRate : Outcome ε LegacyDec)
          = .ok ⟨LegacyDec.quoRaw base v.exchangeRate⟩ :=
        LegacyDec.quo_eq_ok.mpr ⟨ne_of_gt hpos, h base hbase hpos, rfl⟩
      simp only [hpos, if_true, hquo, Outcome.ok_bind]
    · simp only [hpos, if_false]

theorem crossVote_panic {v : VoteForTally} (h : ¬ CrossFits bases v) :
    ∃ m, (crossVote bases v : Outcome ε VoteForTally) = .panic m := by
  simp only [CrossFits, not_forall] at h
  obtain ⟨base, hbase, hpos, hfits⟩ := h
  have hne : v.exchangeRate.i ≠ 0 := ne_of_gt hpos
  refine ⟨"Int overflow", ?_⟩
  simp only [crossVote, hbase, hpos, if_true, LegacyDec.quo, hne, if_false, LegacyDec.check, hfits]
  rfl

theorem crossVotes_ok {pb : ExchangeRateBallot} (h : ∀ v ∈ pb, CrossFits bases v) :
    (crossVotes bases pb : Outcome ε ExchangeRateBallot) = .ok (pb.map (crossed bases)) := by
  induction pb with
  | nil => rfl
  | cons v rest ih =>
    rw [crossVotes, crossVote_ok (h v List.mem_cons_self), Outcome.ok_bind,
      ih (fun w hw => h w (List.mem_cons_of_mem v hw))]
    rfl

theorem crossVotes_panic {pb : ExchangeRateBallot} (h : ¬ ∀ v ∈ pb, CrossFits bases v) :
    ∃ m, (crossVotes bases pb : Outcome ε ExchangeRateBallot) = .panic m := by
  induction pb with
  | nil => exact absurd (fun v hv => absurd hv List.not_mem_nil) h
  | cons v rest ih =>
    by_cases hv : CrossFits bases v
    · have hrest : ¬ ∀ w ∈ rest, CrossFits bases w := by
        intro hrest
        apply h
        intro w hw
        cases List.mem_cons.mp hw with
        | inl heq => exact heq ▸ hv
        | inr hw => exact hrest w hw
      obtain ⟨m, hm⟩ := ih hrest
      exact ⟨m, by rw [crossVotes, crossVote_ok hv, Outcome.ok_bind, hm]; rfl⟩
    · obtain ⟨m, hm⟩ := crossVote_panic (ε := ε) hv
      exact ⟨m, by rw [crossVotes, hm]; rfl⟩

/-- Cross rates that fit are no negative numbers. -/
theorem InRange.crossed {pb : ExchangeRateBallot} (h : InRange pb)
    (hbases : ∀ a base, bases.get a = some base → 0 ≤ base.i)
    (hfits : ∀ v ∈ pb, CrossFits bases v) : InRange (pb.map (crossed bases)) := by
  intro w hw
  obtain ⟨v, hv, rfl⟩ := List.mem_map.mp hw
  unfold Oracle.crossed
  cases hbase : bases.get v.voter with
  | none => exact ⟨Int.le_refl 0, LegacyDec.fits_zero⟩
  | some base =>
    by_cases hpos : v.exchangeRate.IsPositive
    · simp only [hpos, if_true]
      exact ⟨LegacyDec.quoRaw_nonneg (hbases _ _ hbase) (h v hv).1, hfits v hv base hbase hpos⟩
    · simp only [hpos, if_false]
      exact ⟨Int.le_refl 0, LegacyDec.fits_zero⟩

/-- A vote loses its power or keeps it. -/
theorem Bounded.crossed {pb : ExchangeRateBallot} (h : Bounded pb) :
    Bounded (pb.map (crossed bases)) := by
  have hpower : ∀ v ∈ pb, 0 ≤ (Oracle.crossed bases v).power ∧ (Oracle.crossed bases v).power ≤ v.power := by
    intro v hv
    have hnonneg := h.1 v hv
    unfold Oracle.crossed
    cases bases.get v.voter with
    | none => exact ⟨Int.le_refl 0, hnonneg⟩
    | some base =>
      by_cases hpos : v.exchangeRate.IsPositive
      · simp only [hpos, if_true]
        exact ⟨hnonneg, Int.le_refl v.power⟩
      · simp only [hpos, if_false]
        exact ⟨Int.le_refl 0, hnonneg⟩
  refine ⟨?_, ?_⟩
  · intro w hw
    obtain ⟨v, hv, rfl⟩ := List.mem_map.mp hw
    exact (hpower v hv).1
  · rw [totalPower, List.map_map]
    exact lt_of_le_of_lt (List.sum_le_sum (fun v hv => (hpower v hv).2)) h.2

/-- The reference rates are positive. -/
theorem toMap_pos (pb : ExchangeRateBallot) (a : ValAddress) (base : LegacyDec)
    (h : (toMap pb).get a = some base) : 0 < base.i := by
  have hfold : ∀ (vs : ExchangeRateBallot) (m : SortedMap ValAddress LegacyDec),
      (∀ a base, m.get a = some base → 0 < base.i) → ∀ a base,
      (vs.foldl (fun m v => if v.exchangeRate.IsPositive then m.set v.voter v.exchangeRate else m)
        m).get a = some base → 0 < base.i := by
    intro vs
    induction vs with
    | nil => exact fun m hm => hm
    | cons v rest ih =>
      intro m hm
      rw [List.foldl_cons]
      apply ih
      intro a base hget
      split_ifs at hget with hpos
      · rw [SortedMap.get_set] at hget
        split_ifs at hget
        · rw [← Option.some.inj hget]
          exact hpos
        · exact hm a base hget
      · exact hm a base hget
  exact hfold pb SortedMap.empty (by simp) a base h

/-! ## When a tally panics -/

/-- The reward spread around a median, whatever its size. -/
def spreadAt (ops : BallotOps) (pb : ExchangeRateBallot) (rewardBand median : LegacyDec) : LegacyDec :=
  let spread : LegacyDec := ⟨LegacyDec.mulRaw median ⟨rewardBand.i.tdiv 2⟩⟩
  let deviation := standardDeviation ops pb median
  if spread < deviation then deviation else spread

variable {ops : BallotOps} {pb : ExchangeRateBallot} {rewardBand : LegacyDec}

/-- A band of at most one makes a spread of at most the median. -/
theorem mulRaw_band_range {median : LegacyDec} (hm : 0 ≤ median.i) (hfits : LegacyDec.Fits median.i)
    (hb : 0 ≤ rewardBand.i) (hb' : rewardBand ≤ .one) :
    0 ≤ LegacyDec.mulRaw median ⟨rewardBand.i.tdiv 2⟩ ∧
      LegacyDec.Fits (LegacyDec.mulRaw median ⟨rewardBand.i.tdiv 2⟩) := by
  have hhalf : 0 ≤ rewardBand.i.tdiv 2 := Int.tdiv_nonneg hb (by decide)
  have hle : rewardBand.i.tdiv 2 ≤ LegacyDec.precision := by
    have hone : rewardBand.i ≤ LegacyDec.precision := hb'
    rw [Int.tdiv_eq_ediv_of_nonneg hb]
    omega
  have hnonneg := LegacyDec.mulRaw_nonneg (b := ⟨rewardBand.i.tdiv 2⟩) hm hhalf
  have hupper : LegacyDec.mulRaw median ⟨rewardBand.i.tdiv 2⟩ ≤ median.i := LegacyDec.mulRaw_le_self hm hle
  exact ⟨hnonneg, LegacyDec.Fits.of_abs_le (by omega) hfits⟩

theorem rewardSpread_ok (ops : BallotOps) (h : InRange pb) (hb : 0 ≤ rewardBand.i) (hb' : rewardBand ≤ .one) :
    (rewardSpread ops pb rewardBand : Outcome ε LegacyDec) = .ok (spreadAt ops pb rewardBand (weightedMedian pb)) ∧
      0 ≤ (spreadAt ops pb rewardBand (weightedMedian pb)).i ∧ LegacyDec.Fits (spreadAt ops pb rewardBand (weightedMedian pb)).i := by
  obtain ⟨hm, hfits⟩ := h.median
  obtain ⟨hnonneg, hrange⟩ := mulRaw_band_range hm hfits hb hb'
  obtain ⟨hdev, hdevFits⟩ := standardDeviation_range ops pb (weightedMedian pb)
  refine ⟨?_, ?_⟩
  · have hmul : ((weightedMedian pb).mul ⟨rewardBand.i.tdiv 2⟩ : Outcome ε LegacyDec)
        = .ok ⟨LegacyDec.mulRaw (weightedMedian pb) ⟨rewardBand.i.tdiv 2⟩⟩ :=
      LegacyDec.check_eq_ok.mpr ⟨hrange, rfl⟩
    rw [rewardSpread, LegacyDec.quoInt64, if_neg (by decide), Outcome.ok_bind, hmul, Outcome.ok_bind]
    rfl
  · dsimp only [spreadAt]
    split_ifs
    · exact ⟨hdev, hdevFits⟩
    · exact ⟨hnonneg, hrange⟩

/-- The bounds of the spread are computed for a vote without a panic, unless the
vote meets the lower one and the upper one is out of range. -/
theorem isWinner_cases {median spread : LegacyDec} (rate : LegacyDec) (hm : 0 ≤ median.i)
    (hfits : LegacyDec.Fits median.i) (hs : 0 ≤ spread.i) (hsfits : LegacyDec.Fits spread.i) :
    ((median.i - spread.i ≤ rate.i → LegacyDec.Fits (median.i + spread.i)) →
      ∃ wins, (isWinner median spread rate : Outcome ε Bool) = .ok wins) ∧
    (¬ (median.i - spread.i ≤ rate.i → LegacyDec.Fits (median.i + spread.i)) →
      ∃ m, (isWinner median spread rate : Outcome ε Bool) = .panic m) := by
  have hlow : (median.sub spread : Outcome ε LegacyDec) = .ok ⟨median.i - spread.i⟩ := by
    refine LegacyDec.check_eq_ok.mpr ⟨?_, rfl⟩
    rw [LegacyDec.fits_iff] at hfits hsfits ⊢
    omega
  rw [isWinner, hlow, Outcome.ok_bind, meetsUpper]
  by_cases hmeets : median.i - spread.i ≤ rate.i
  · have hif : (⟨median.i - spread.i⟩ : LegacyDec) ≤ rate := hmeets
    rw [if_pos hif]
    by_cases hfit : LegacyDec.Fits (median.i + spread.i)
    · have hadd : (median.add spread : Outcome ε LegacyDec) = .ok ⟨median.i + spread.i⟩ :=
        LegacyDec.check_eq_ok.mpr ⟨hfit, rfl⟩
      rw [hadd]
      exact ⟨fun _ => ⟨_, rfl⟩, fun hn => absurd (fun _ => hfit) hn⟩
    · have hadd : (median.add spread : Outcome ε LegacyDec) = .panic "Int overflow" := by
        rw [LegacyDec.add, LegacyDec.check, if_neg hfit]
      rw [hadd]
      exact ⟨fun hn => absurd (hn hmeets) hfit, fun _ => ⟨_, rfl⟩⟩
  · have hif : ¬ (⟨median.i - spread.i⟩ : LegacyDec) ≤ rate := hmeets
    rw [if_neg hif]
    exact ⟨fun _ => ⟨_, rfl⟩, fun hn => absurd (fun hc => absurd hc hmeets) hn⟩

/-- The upper bound of the spread is in range. -/
def TallyFits (ops : BallotOps) (pb : ExchangeRateBallot) (rewardBand median : LegacyDec) : Prop :=
  LegacyDec.Fits (median.i + (spreadAt ops pb rewardBand median).i)

theorem tally_ok (valString : ValAddress → String) (claims : ClaimMap) (h : InRange pb)
    (hb : 0 ≤ rewardBand.i) (hb' : rewardBand ≤ .one)
    (hfits : TallyFits ops pb rewardBand (weightedMedian pb)) :
    ∃ claims', (tally ops valString pb rewardBand claims : Outcome ε (LegacyDec × ClaimMap))
      = .ok (weightedMedian pb, claims') := by
  obtain ⟨hspread, hs, hsfits⟩ := rewardSpread_ok (ε := ε) ops h hb hb'
  obtain ⟨hm, hmfits⟩ := h.median
  have hstep : ∀ claims, ∀ v ∈ pb, True → ∃ claims', (tallyVote valString (weightedMedian pb)
      (spreadAt ops pb rewardBand (weightedMedian pb)) claims v : Outcome ε ClaimMap) = .ok claims' := by
    intro claims v _ _
    obtain ⟨wins, hwins⟩ := (isWinner_cases (ε := ε) v.exchangeRate hm hmfits hs hsfits).1
      (fun _ => hfits)
    exact ⟨_, by rw [tallyVote, hwins]; rfl⟩
  obtain ⟨claims', hfold⟩ := Outcome.foldlM_ok hstep (fun _ _ => trivial) claims
  refine ⟨claims', ?_⟩
  rw [tally, hspread, Outcome.ok_bind, hfold]
  rfl

/-- The vote whose rate is the median meets the lower bound, so an upper bound out of
range is reached. -/
theorem tally_panic (valString : ValAddress → String) (claims : ClaimMap) (h : InRange pb)
    (hb : 0 ≤ rewardBand.i) (hb' : rewardBand ≤ .one)
    (hfits : ¬ TallyFits ops pb rewardBand (weightedMedian pb)) :
    ∃ m, (tally ops valString pb rewardBand claims : Outcome ε (LegacyDec × ClaimMap)) = .panic m := by
  obtain ⟨hspread, hs, hsfits⟩ := rewardSpread_ok (ε := ε) ops h hb hb'
  obtain ⟨hm, hmfits⟩ := h.median
  have hmem : ∃ v ∈ pb, v.exchangeRate = weightedMedian pb := by
    cases weightedMedian_cases pb with
    | inl hzero =>
      apply absurd _ hfits
      rw [TallyFits, hzero]
      show LegacyDec.Fits (0 + (spreadAt ops pb rewardBand .zero).i)
      rw [Int.zero_add, ← hzero]
      exact hsfits
    | inr hmem => exact hmem
  obtain ⟨v, hv, hrate⟩ := hmem
  have hmeets : (weightedMedian pb).i - (spreadAt ops pb rewardBand (weightedMedian pb)).i ≤ v.exchangeRate.i := by
    rw [hrate]
    omega
  obtain ⟨m, hfold⟩ := Outcome.foldlM_panic (l := pb)
    (f := tallyVote valString (weightedMedian pb) (spreadAt ops pb rewardBand (weightedMedian pb)))
    (C := fun v => (weightedMedian pb).i - (spreadAt ops pb rewardBand (weightedMedian pb)).i ≤ v.exchangeRate.i →
      TallyFits ops pb rewardBand (weightedMedian pb))
    (fun claims v _ hv => by
      obtain ⟨wins, hwins⟩ := (isWinner_cases (ε := ε) v.exchangeRate hm hmfits hs hsfits).1 hv
      exact ⟨_, by rw [tallyVote, hwins]; rfl⟩)
    (fun claims v _ hv => by
      obtain ⟨m, hm⟩ := (isWinner_cases (ε := ε) v.exchangeRate hm hmfits hs hsfits).2 hv
      exact ⟨m, by rw [tallyVote, hm]; rfl⟩)
    (fun hall => hfits (hall v hv hmeets)) claims
  refine ⟨m, ?_⟩
  rw [tally, hspread, Outcome.ok_bind, hfold]
  rfl

end Oracle
