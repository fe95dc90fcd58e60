import DoChain.Oracle.Ballot

/- Who decides the weighted median (`WeightedMedian` in `x/oracle/types/ballot.go`).

   The loop adds up the powers in the order of the rates and stops at the first vote
   with which the sum is half of the total power, rounded down. `Reaches` says that it
   stops within a part of the ballot, and a property that passes to lower rates holds of
   the median exactly if the votes with it are such a part (`medianFrom_lower_iff`).
   Nothing there needs the sums to be in the range of an `int64`.

   Two things follow from the rounding. Where the total is odd, votes that hold less
   than half of it can hold the rounded half, so they decide the median against a
   majority (`majority_decides_iff`). Where the total is one, the half is zero and the
   first vote is the median, an abstention too (`abstentions_neutral_iff`). -/

namespace Oracle

open Sdk

/-! ## Where the loop stops -/

/-- The pivot of the loop after some votes. -/
def pivotAfter (pivot : Int) (pb : ExchangeRateBallot) : Int :=
  pb.foldl (fun total v => wrap64 (total + v.power)) pivot

/-- The pivot comes to the half within the votes. -/
def Reaches (half pivot : Int) (pb : ExchangeRateBallot) : Prop :=
  ∃ votes, votes ≠ [] ∧ votes <+: pb ∧ half ≤ pivotAfter pivot votes

variable {half pivot : Int} {pb : ExchangeRateBallot} {a b d : LegacyDec}

theorem not_reaches_nil : ¬ Reaches half pivot [] := by
  intro h
  obtain ⟨votes, hne, hprefix, _⟩ := h
  exact hne (List.prefix_nil.mp hprefix)

theorem reaches_cons {v : VoteForTally} :
    Reaches half pivot (v :: pb) ↔
      half ≤ wrap64 (pivot + v.power) ∨ Reaches half (wrap64 (pivot + v.power)) pb := by
  refine ⟨?_, ?_⟩
  · intro h
    obtain ⟨votes, hne, hprefix, hhalf⟩ := h
    cases votes with
    | nil => exact absurd rfl hne
    | cons w votes =>
      obtain ⟨rfl, hrest⟩ := List.cons_prefix_cons.mp hprefix
      cases votes with
      | nil => exact .inl hhalf
      | cons u votes => exact .inr ⟨u :: votes, List.cons_ne_nil u votes, hrest, hhalf⟩
  · intro h
    cases h with
    | inl hhalf => exact ⟨[v], List.cons_ne_nil v [], List.cons_prefix_cons.mpr ⟨rfl, List.nil_prefix⟩, hhalf⟩
    | inr h =>
      obtain ⟨votes, _, hprefix, hhalf⟩ := h
      exact ⟨v :: votes, List.cons_ne_nil v votes, List.cons_prefix_cons.mpr ⟨rfl, hprefix⟩, hhalf⟩

/-- A property of rates that passes to lower ones holds of the median exactly if the
pivot comes to the half within the votes that have it. -/
theorem medianFrom_lower_iff {p : LegacyDec → Prop} [DecidablePred p]
    (hp : ∀ r s : LegacyDec, r ≤ s → p s → p r)
    (hsorted : pb.Pairwise (fun v w => v.exchangeRate ≤ w.exchangeRate))
    (h : medianFrom half pivot pb = some d) :
    p d ↔ Reaches half pivot (pb.filter (fun v => decide (p v.exchangeRate))) := by
  induction pb generalizing pivot with
  | nil => cases h
  | cons v rest ih =>
    obtain ⟨hfirst, hsorted⟩ := List.pairwise_cons.mp hsorted
    rw [medianFrom] at h
    by_cases hv : p v.exchangeRate
    · rw [List.filter_cons_of_pos (by simpa using hv), reaches_cons]
      split_ifs at h with hhalf
      · rw [← Option.some.inj h]
        exact ⟨fun _ => .inl hhalf, fun _ => hv⟩
      · rw [ih hsorted h, or_iff_right hhalf]
    · -- no later vote has the property either
      have hrest : ∀ w ∈ rest, ¬ p w.exchangeRate := fun w hw hpw => hv (hp _ _ (hfirst w hw) hpw)
      have hnil : rest.filter (fun w => decide (p w.exchangeRate)) = [] :=
        List.filter_eq_nil_iff.mpr (fun w hw => by simpa using hrest w hw)
      rw [List.filter_cons_of_neg (by simpa using hv), hnil, iff_false_right not_reaches_nil]
      split_ifs at h with hhalf
      · rw [← Option.some.inj h]
        exact hv
      · rw [ih hsorted h, hnil]
        exact not_reaches_nil

theorem exists_medianFrom_of_le (hne : pb ≠ []) (h : half ≤ pivotAfter pivot pb) :
    ∃ d, medianFrom half pivot pb = some d := by
  induction pb generalizing pivot with
  | nil => exact absurd rfl hne
  | cons v rest ih =>
    rw [medianFrom]
    split_ifs with hhalf
    · exact ⟨v.exchangeRate, rfl⟩
    · cases rest with
      | nil => exact absurd h hhalf
      | cons w rest => exact ih (List.cons_ne_nil w rest) h

/-- The half of a total is rounded towards zero. -/
theorem half_nonpos_iff {total : Int} : total.tdiv 2 ≤ 0 ↔ total ≤ 1 := by
  cases Int.le_total 0 total with
  | inl hpos =>
    rw [Int.tdiv_eq_ediv_of_nonneg hpos]
    omega
  | inr hneg =>
    have hopp : 0 ≤ (-total).tdiv 2 := Int.tdiv_nonneg (by omega) (by decide)
    rw [Int.neg_tdiv] at hopp
    omega

/-- With no half to come to, the loop stops at the first vote. -/
theorem medianFrom_first {v : VoteForTally} (hv : 0 ≤ v.power ∧ v.power < 2 ^ 63) (hhalf : half ≤ 0) :
    medianFrom half 0 (v :: pb) = some v.exchangeRate := by
  have hpivot : wrap64 (0 + v.power) = v.power := by
    rw [Int.zero_add]
    exact wrap64_eq (by omega) hv.2
  rw [medianFrom, hpivot, if_pos (by omega)]

/-- A ballot with a vote has a median. -/
theorem medianFrom_eq_weightedMedian (hpowers : ∀ v ∈ pb, 0 ≤ v.power ∧ v.power < 2 ^ 63)
    (hne : pb ≠ []) : medianFrom ((power pb).tdiv 2) 0 pb = some (weightedMedian pb) := by
  obtain ⟨d, hd⟩ : ∃ d, medianFrom ((power pb).tdiv 2) 0 pb = some d := by
    by_cases hpower : 0 ≤ power pb
    · apply exists_medianFrom_of_le hne
      show (power pb).tdiv 2 ≤ power pb
      rw [Int.tdiv_eq_ediv_of_nonneg hpower]
      omega
    · -- a sum that has wrapped around to a negative number is reached at once
      cases pb with
      | nil => exact absurd rfl hne
      | cons v rest => exact ⟨_, medianFrom_first (hpowers v List.mem_cons_self) (half_nonpos_iff.mpr (by omega))⟩
  rw [weightedMedian, hd, Option.getD_some]

/-! ## Majorities -/

/-- The power of the votes with a rate below the interval. -/
def powerBelow (a : LegacyDec) (pb : ExchangeRateBallot) : Int :=
  WeightedMedian.weight VoteForTally.power (fun v => v.exchangeRate < a) pb

/-- The power of the votes with a rate in the interval. -/
def powerWithin (a b : LegacyDec) (pb : ExchangeRateBallot) : Int :=
  WeightedMedian.weight VoteForTally.power (fun v => a ≤ v.exchangeRate ∧ v.exchangeRate ≤ b) pb

/-- The votes below the interval do not decide the median: there is none of them, or they
have less than half of the power, rounded down. Where the sum of the powers is no `int64`,
it is the sums as the code wraps them around that come to the half within the interval. -/
def Decides (a b : LegacyDec) (pb : ExchangeRateBallot) : Prop :=
  if totalPower pb < 2 ^ 63 then
    (∃ v ∈ pb, v.exchangeRate < a) → powerBelow a pb < (totalPower pb).tdiv 2
  else
    ¬ Reaches ((power pb).tdiv 2) 0 (pb.filter (fun v => decide (v.exchangeRate < a))) ∧
      Reaches ((power pb).tdiv 2) 0 (pb.filter (fun v => decide (v.exchangeRate ≤ b)))

/-- The majority is at most what is not above the interval. -/
theorem powerWithin_le (hpowers : ∀ v ∈ pb, 0 ≤ v.power) :
    powerWithin a b pb
      ≤ WeightedMedian.weight VoteForTally.power (fun v => v.exchangeRate.i ≤ b.i) pb :=
  WeightedMedian.weight_mono hpowers (fun _ _ hv => hv.2)

theorem exists_within (h : 0 < powerWithin a b pb) :
    ∃ v ∈ pb, a ≤ v.exchangeRate ∧ v.exchangeRate ≤ b := by
  by_contra hnone
  have hzero : powerWithin a b pb = 0 :=
    WeightedMedian.weight_eq_zero (fun v hv hin => hnone ⟨v, hv, hin⟩)
  omega

/-- The rates of votes with more than half of the power contain the median exactly if the
votes below them do not decide it. -/
theorem majority_decides_iff (pb : ExchangeRateBallot) (a b : LegacyDec)
    (hsorted : pb.Pairwise (fun v w => v.exchangeRate ≤ w.exchangeRate))
    (hpowers : ∀ v ∈ pb, 0 ≤ v.power ∧ v.power < 2 ^ 63)
    (hmajority : totalPower pb < 2 * powerWithin a b pb) :
    (a ≤ weightedMedian pb ∧ weightedMedian pb ≤ b) ↔ Decides a b pb := by
  have hnonneg : ∀ v ∈ pb, 0 ≤ v.power := fun v hv => (hpowers v hv).1
  have htotal := totalPower_nonneg hnonneg
  obtain ⟨v, hv, _, hvb⟩ := exists_within (by omega : 0 < powerWithin a b pb)
  have hne : pb ≠ [] := List.ne_nil_of_mem hv
  have hnot : a ≤ weightedMedian pb ↔ ¬ weightedMedian pb < a := by
    rw [LegacyDec.le_def, LegacyDec.lt_def, not_lt]
  rw [hnot, Decides]
  split_ifs with hbounded
  · have hmedian := weightedMedian_isMedian ⟨hnonneg, hbounded⟩ hsorted hne
    have hlow := hmedian.lower_iff (q := fun s => s < a.i) hnonneg (fun s t hst ht => by omega)
    have hupper := hmedian.lower_iff (q := fun s => s ≤ b.i) hnonneg (fun s t hst ht => by omega)
    have hle : weightedMedian pb ≤ b := by
      refine hupper.mpr ⟨⟨v, hv, hvb⟩, ?_⟩
      have hwithin := powerWithin_le (a := a) (b := b) hnonneg
      rw [Int.tdiv_eq_ediv_of_nonneg htotal]
      omega
    rw [and_iff_left hle]
    show ¬ (weightedMedian pb).i < a.i ↔ _
    rw [hlow, not_and, not_le]
    rfl
  · have hmedian := medianFrom_eq_weightedMedian hpowers hne
    rw [medianFrom_lower_iff (p := fun r => r < a) (fun r s hrs hs => lt_of_le_of_lt (α := Int) hrs hs)
      hsorted hmedian, medianFrom_lower_iff (p := fun r => r ≤ b)
      (fun r s hrs hs => le_trans (α := Int) hrs hs) hsorted hmedian]

namespace Sample

/-- A ballot of two votes, at one and at five, with these powers. -/
def oneAndFive (m n : Int) : ExchangeRateBallot :=
  [⟨"uusd", .one, [1], m⟩, ⟨"uusd", .ofInt 5, [2], n⟩]

theorem three_of_four_decide :
    Decides (.ofInt 5) (.ofInt 5) (oneAndFive 1 3) ∧
      .ofInt 5 ≤ weightedMedian (oneAndFive 1 3) ∧ weightedMedian (oneAndFive 1 3) ≤ .ofInt 5 := by
  have hdecides : Decides (.ofInt 5) (.ofInt 5) (oneAndFive 1 3) := by
    rw [Decides, if_pos (by decide)]
    intro _
    decide
  exact ⟨hdecides, (majority_decides_iff (oneAndFive 1 3) (.ofInt 5) (.ofInt 5) (by decide) (by decide)
    (by decide)).mpr hdecides⟩

/-- Two thirds of the power are at five, and the median is one. -/
theorem one_of_three_decides :
    ((oneAndFive 1 2).Pairwise (fun v w => v.exchangeRate ≤ w.exchangeRate) ∧
      (∀ v ∈ oneAndFive 1 2, 0 ≤ v.power ∧ v.power < 2 ^ 63) ∧
      totalPower (oneAndFive 1 2) < 2 * powerWithin (.ofInt 5) (.ofInt 5) (oneAndFive 1 2)) ∧
    weightedMedian (oneAndFive 1 2) = .one ∧ ¬ LegacyDec.ofInt 5 ≤ weightedMedian (oneAndFive 1 2) := by
  decide

end Sample

/-! ## Abstentions -/

/-- A vote as `ToCrossRateWithSort` makes it of one that it cannot convert. -/
def Abstains (v : VoteForTally) : Prop := v.exchangeRate = .zero ∧ v.power = 0

instance (v : VoteForTally) : Decidable (Abstains v) := inferInstanceAs (Decidable (_ ∧ _))

/-- The votes of a ballot that do not abstain. -/
def voting (pb : ExchangeRateBallot) : ExchangeRateBallot := pb.filter (fun v => !decide (Abstains v))

/-- Whatever abstentions there are in the ballot, its median is the same, and a vote with
power is at that rate. -/
def AbstentionsNeutral (pb : ExchangeRateBallot) : Prop :=
  (∀ pb' : ExchangeRateBallot, pb'.Pairwise (fun v w => v.exchangeRate ≤ w.exchangeRate) →
    voting pb' = voting pb → weightedMedian pb' = weightedMedian pb) ∧
  ∃ v ∈ pb, 0 < v.power ∧ v.exchangeRate = weightedMedian pb

theorem wrap64_wrap64 (n : Int) : wrap64 (wrap64 n) = wrap64 n := Int.bmod_bmod

/-- Abstentions leave the pivot as it is. -/
theorem pivotAfter_voting (hpivot : wrap64 pivot = pivot) (pb : ExchangeRateBallot) :
    pivotAfter pivot (voting pb) = pivotAfter pivot pb := by
  induction pb generalizing pivot with
  | nil => rfl
  | cons v rest ih =>
    by_cases hv : Abstains v
    · have hkeep : wrap64 (pivot + v.power) = pivot := by rw [hv.2, Int.add_zero, hpivot]
      rw [voting, List.filter_cons_of_neg (by simpa using hv), ← voting, ih hpivot]
      rw [pivotAfter, pivotAfter, List.foldl_cons, hkeep]
    · rw [voting, List.filter_cons_of_pos (by simpa using hv), ← voting]
      exact ih (wrap64_wrap64 _)

theorem power_voting (pb : ExchangeRateBallot) : power (voting pb) = power pb :=
  pivotAfter_voting (by decide) pb

/-- Before the half the loop does not stop at an abstention. -/
theorem medianFrom_voting (hpivot : wrap64 pivot = pivot) (hhalf : pivot < half)
    (pb : ExchangeRateBallot) : medianFrom half pivot (voting pb) = medianFrom half pivot pb := by
  induction pb generalizing pivot with
  | nil => rfl
  | cons v rest ih =>
    by_cases hv : Abstains v
    · have hkeep : wrap64 (pivot + v.power) = pivot := by rw [hv.2, Int.add_zero, hpivot]
      rw [voting, List.filter_cons_of_neg (by simpa using hv), ← voting, ih hpivot hhalf, medianFrom, hkeep,
        if_neg (by omega)]
    · rw [voting, List.filter_cons_of_pos (by simpa using hv), ← voting, medianFrom, medianFrom]
      split_ifs with hstop
      · rfl
      · exact ih (wrap64_wrap64 _) (by omega)

/-- Before the half the loop stops at a vote with power. -/
theorem medianFrom_power (hpowers : ∀ v ∈ pb, 0 ≤ v.power) (hpivot : wrap64 pivot = pivot)
    (hhalf : pivot < half) (h : medianFrom half pivot pb = some d) :
    ∃ v ∈ pb, 0 < v.power ∧ v.exchangeRate = d := by
  induction pb generalizing pivot with
  | nil => cases h
  | cons v rest ih =>
    rw [medianFrom] at h
    split_ifs at h with hstop
    · refine ⟨v, List.mem_cons_self, ?_, Option.some.inj h⟩
      by_contra hnone
      have hzero : v.power = 0 := by
        have hv := hpowers v List.mem_cons_self
        omega
      rw [hzero, Int.add_zero, hpivot] at hstop
      omega
    · obtain ⟨w, hw, hpower, hrate⟩ :=
        ih (fun w hw => hpowers w (List.mem_cons_of_mem v hw)) (wrap64_wrap64 _) (by omega) h
      exact ⟨w, List.mem_cons_of_mem v hw, hpower, hrate⟩

/-- From a total of two on, abstentions are neutral. -/
theorem abstentionsNeutral_of_power (hpowers : ∀ v ∈ pb, 0 ≤ v.power ∧ v.power < 2 ^ 63)
    (hne : pb ≠ []) (hpower : 2 ≤ power pb) : AbstentionsNeutral pb := by
  have hhalf : 0 < (power pb).tdiv 2 := by
    rw [Int.tdiv_eq_ediv_of_nonneg (by omega)]
    omega
  refine ⟨?_, ?_⟩
  · intro pb' _ hcast
    have hsame : power pb' = power pb := by rw [← power_voting pb', hcast, power_voting]
    rw [weightedMedian, weightedMedian, hsame, ← medianFrom_voting (by decide) hhalf pb', hcast,
      medianFrom_voting (by decide) hhalf pb]
  · exact medianFrom_power (fun v hv => (hpowers v hv).1) (by decide) hhalf
      (medianFrom_eq_weightedMedian hpowers hne)

/-- Up to a total of one, the first vote is the median. -/
theorem weightedMedian_first {v : VoteForTally} (hv : 0 ≤ v.power ∧ v.power < 2 ^ 63)
    (hpower : power (v :: pb) ≤ 1) : weightedMedian (v :: pb) = v.exchangeRate := by
  rw [weightedMedian, medianFrom_first hv (half_nonpos_iff.mpr hpower), Option.getD_some]

theorem weightedMedian_least {v : VoteForTally}
    (hsorted : pb.Pairwise (fun v w => v.exchangeRate ≤ w.exchangeRate))
    (hpowers : ∀ v ∈ pb, 0 ≤ v.power ∧ v.power < 2 ^ 63) (hpower : power pb ≤ 1) (hv : v ∈ pb) :
    weightedMedian pb ≤ v.exchangeRate := by
  cases pb with
  | nil => exact absurd hv List.not_mem_nil
  | cons w rest =>
    rw [weightedMedian_first (hpowers w List.mem_cons_self) hpower]
    cases List.mem_cons.mp hv with
    | inl heq => exact heq ▸ Int.le_refl v.exchangeRate.i
    | inr hv => exact (List.pairwise_cons.mp hsorted).1 v hv

theorem mem_voting {v : VoteForTally} : v ∈ voting pb ↔ v ∈ pb ∧ ¬ Abstains v := by
  rw [voting, List.mem_filter, Bool.not_eq_true', decide_eq_false_iff_not]

/-- A vote with power that has the least rate, and no positive one, stays the median
whatever abstentions there are. -/
theorem weightedMedian_eq_least {pb' : ExchangeRateBallot} {v : VoteForTally}
    (hsorted' : pb'.Pairwise (fun v w => v.exchangeRate ≤ w.exchangeRate))
    (hpowers : ∀ v ∈ pb, 0 ≤ v.power ∧ v.power < 2 ^ 63) (hcast : voting pb' = voting pb)
    (hpower : power pb ≤ 1) (hv : v ∈ pb) (hvpower : 0 < v.power)
    (hnonpos : ¬ v.exchangeRate.IsPositive) (hleast : ∀ w ∈ pb, v.exchangeRate ≤ w.exchangeRate) :
    weightedMedian pb' = v.exchangeRate := by
  have hmem : ∀ w ∈ pb', Abstains w ∨ w ∈ pb := by
    intro w hw
    by_cases habstains : Abstains w
    · exact .inl habstains
    · have hwcast : w ∈ voting pb' := mem_voting.mpr ⟨hw, habstains⟩
      rw [hcast] at hwcast
      exact .inr (mem_voting.mp hwcast).1
  have hpowers' : ∀ w ∈ pb', 0 ≤ w.power ∧ w.power < 2 ^ 63 := by
    intro w hw
    cases hmem w hw with
    | inl habstains =>
      rw [habstains.2]
      decide
    | inr hw => exact hpowers w hw
  have hpower' : power pb' ≤ 1 := by
    rw [← power_voting, hcast, power_voting]
    exact hpower
  have hv' : v ∈ pb' := by
    have hvcast : v ∈ voting pb := mem_voting.mpr ⟨hv, fun habstains => by
      rw [habstains.2] at hvpower
      exact absurd hvpower (Int.lt_irrefl 0)⟩
    rw [← hcast] at hvcast
    exact (mem_voting.mp hvcast).1
  have hzero : v.exchangeRate ≤ .zero := not_lt.mp hnonpos
  have hupper := weightedMedian_least hsorted' hpowers' hpower' hv'
  have hlower : v.exchangeRate ≤ weightedMedian pb' := by
    cases weightedMedian_cases pb' with
    | inl hmedian => rw [hmedian]; exact hzero
    | inr hmedian =>
      obtain ⟨w, hw, hrate⟩ := hmedian
      rw [← hrate]
      cases hmem w hw with
      | inl habstains => rw [habstains.1]; exact hzero
      | inr hw => exact hleast w hw
  exact LegacyDec.le_antisymm hupper hlower

/-- Abstentions are neutral exactly if the total power is two or more, or a vote with power
and without a positive rate has the least rate. -/
theorem abstentions_neutral_iff (pb : ExchangeRateBallot)
    (hsorted : pb.Pairwise (fun v w => v.exchangeRate ≤ w.exchangeRate))
    (hpowers : ∀ v ∈ pb, 0 ≤ v.power ∧ v.power < 2 ^ 63) :
    AbstentionsNeutral pb ↔ 2 ≤ power pb ∨ ∃ v ∈ pb, 0 < v.power ∧ ¬ v.exchangeRate.IsPositive ∧
      ∀ w ∈ pb, v.exchangeRate ≤ w.exchangeRate := by
  by_cases hpower : 2 ≤ power pb
  · rw [or_iff_left_of_imp (fun _ => hpower), iff_true_right hpower]
    refine abstentionsNeutral_of_power hpowers ?_ hpower
    intro hnil
    rw [hnil] at hpower
    exact absurd hpower (by decide)
  have hone : power pb ≤ 1 := by omega
  rw [or_iff_right hpower]
  refine ⟨?_, ?_⟩
  · intro h
    obtain ⟨hneutral, v, hv, hvpower, hrate⟩ := h
    have hleast : ∀ w ∈ pb, v.exchangeRate ≤ w.exchangeRate := by
      intro w hw
      rw [hrate]
      exact weightedMedian_least hsorted hpowers hone hw
    refine ⟨v, hv, hvpower, ?_, hleast⟩
    -- below positive rates there is place for an abstention, and it is the median then
    intro hpos
    have hcast : voting (v.abstain :: pb) = voting pb := rfl
    have hsorted' : (v.abstain :: pb).Pairwise (fun v w => v.exchangeRate ≤ w.exchangeRate) := by
      refine List.pairwise_cons.mpr ⟨fun w hw => ?_, hsorted⟩
      exact le_trans (Int.le_of_lt hpos) (hleast w hw)
    have hpower' : power (v.abstain :: pb) ≤ 1 := by
      rw [← power_voting, hcast, power_voting]
      exact hone
    have hzero : weightedMedian (v.abstain :: pb) = .zero :=
      weightedMedian_first ⟨Int.le_refl 0, (by decide : (0 : Int) < 2 ^ 63)⟩ hpower'
    rw [hneutral _ hsorted' hcast, ← hrate] at hzero
    rw [hzero] at hpos
    exact absurd hpos (by decide)
  · intro h
    obtain ⟨v, hv, hvpower, hnonpos, hleast⟩ := h
    have hmedian : ∀ pb' : ExchangeRateBallot,
        pb'.Pairwise (fun v w => v.exchangeRate ≤ w.exchangeRate) → voting pb' = voting pb →
        weightedMedian pb' = v.exchangeRate := fun pb' hsorted' hcast =>
      weightedMedian_eq_least hsorted' hpowers hcast hone hv hvpower hnonpos hleast
    have hrate := hmedian pb hsorted rfl
    exact ⟨fun pb' hsorted' hcast => (hmedian pb' hsorted' hcast).trans hrate.symm,
      v, hv, hvpower, hrate.symm⟩

namespace Sample

theorem abstentions_neutral_of_four :
    2 ≤ power (oneAndFive 1 3) ∧ AbstentionsNeutral (oneAndFive 1 3) :=
  ⟨by decide, (abstentions_neutral_iff (oneAndFive 1 3) (by decide) (by decide)).mpr (.inl (by decide))⟩

def loneVote : VoteForTally := ⟨"uusd", .ofInt 5, [2], 1⟩

/-- A vote of power one is the median alone, and an abstention is the median beside it. -/
theorem abstention_decides :
    (totalPower [loneVote] = 1 ∧ voting [loneVote.abstain, loneVote] = voting [loneVote] ∧
      [loneVote.abstain, loneVote].Pairwise (fun v w => v.exchangeRate ≤ w.exchangeRate)) ∧
    weightedMedian [loneVote] = .ofInt 5 ∧ weightedMedian [loneVote.abstain, loneVote] = .zero := by
  decide

end Sample

end Oracle
