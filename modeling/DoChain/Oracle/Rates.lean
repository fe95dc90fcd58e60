import DoChain.Oracle.Period

/- The exchange rates of a period: when updating them panics.

   The ballot of each denomination that counts is tallied, the others at the cross
   rates with the reference, and its median converted back. The arithmetic leaves the
   range of a decimal, or divides by zero, for some votes: `WithinRange` says for which
   ones it does not, in terms of the votes, and `rates_noPanic_iff` that this is
   exact. A division by zero is one by the median of a ballot in which the votes without
   a positive cross rate have half of the power. -/

namespace Oracle

open Sdk

variable {env : Env} {ord : Orders}

/-! ## When a rate panics -/

variable (env) in
/-- A ballot as it is tallied: the reference's own, or at cross rates. -/
def quotedBallot (ref : Reference) (e : String × ExchangeRateBallot) : ExchangeRateBallot :=
  if e.1 = ref.denom then e.2 else env.sort (e.2.map (crossed ref.rates))

variable (env) in
/-- The arithmetic on a ballot stays in range, with the median that is computed. -/
def RateFits (ref : Reference) (rewardBand : LegacyDec) (e : String × ExchangeRateBallot) : Prop :=
  (e.1 ≠ ref.denom → ∀ v ∈ e.2, CrossFits ref.rates v) ∧
  TallyFits env.toBallotOps (quotedBallot env ref e) rewardBand
    (weightedMedian (quotedBallot env ref e)) ∧
  (e.1 ≠ ref.denom → (weightedMedian (quotedBallot env ref e)).i ≠ 0 ∧
    LegacyDec.Fits (LegacyDec.quoRaw ref.median (weightedMedian (quotedBallot env ref e))))

section Rates

variable {ref : Reference} {rewardBand : LegacyDec} {e : String × ExchangeRateBallot}

theorem crossBallot_ok (h : e.1 ≠ ref.denom → ∀ v ∈ e.2, CrossFits ref.rates v) :
    crossBallot env ref e.1 e.2 = .ok (quotedBallot env ref e) := by
  unfold crossBallot quotedBallot
  by_cases hd : e.1 = ref.denom
  · rw [if_neg (not_not.mpr hd), if_pos hd]
  · rw [if_pos hd, if_neg hd, toCrossRateWithSort, crossVotes_ok (h hd)]
    rfl

variable (env) in
theorem crossBallot_panic (h : ¬ (e.1 ≠ ref.denom → ∀ v ∈ e.2, CrossFits ref.rates v)) :
    ∃ m, crossBallot env ref e.1 e.2 = .panic m := by
  rw [Classical.not_imp] at h
  obtain ⟨m, hm⟩ := crossVotes_panic (ε := SdkError) h.2
  exact ⟨m, by rw [crossBallot, if_pos h.1, toCrossRateWithSort, hm]; rfl⟩

theorem quotedBallot_wellFormed (he : WellFormed e.2)
    (hbases : ∀ a base, ref.rates.get a = some base → 0 ≤ base.i)
    (h : e.1 ≠ ref.denom → ∀ v ∈ e.2, CrossFits ref.rates v) :
    WellFormed (quotedBallot env ref e) := by
  unfold quotedBallot
  split_ifs with hd
  · exact he
  · refine ⟨(he.inRange.crossed hbases (h hd)).sort, he.bounded.crossed.sort, env.sort_sorted _, ?_⟩
    intro hnil
    have hperm := env.sort_perm (e.2.map (crossed ref.rates))
    rw [hnil] at hperm
    exact he.nonempty (List.map_eq_nil_iff.mp hperm.symm.eq_nil)

theorem updateRate_ok (he : WellFormed e.2)
    (hbases : ∀ a base, ref.rates.get a = some base → 0 ≤ base.i) (hb : 0 ≤ rewardBand.i)
    (hb' : rewardBand ≤ .one) (h : RateFits env ref rewardBand e)
    (acc : SortedMap String LegacyDec × ClaimMap) :
    ∃ acc', updateRate env ref rewardBand acc e = .ok acc' := by
  obtain ⟨hcross, htally, hback⟩ := h
  obtain ⟨claims, hclaims⟩ := tally_ok (ε := SdkError) env.valBech32.string acc.2
    (quotedBallot_wellFormed he hbases hcross).inRange hb hb' htally
  have hquote : ∃ rate, quoteBack ref e.1 (weightedMedian (quotedBallot env ref e)) = .ok rate := by
    unfold quoteBack
    split_ifs with hd
    · exact ⟨_, LegacyDec.quo_eq_ok.mpr ⟨(hback hd).1, (hback hd).2, rfl⟩⟩
    · exact ⟨_, rfl⟩
  obtain ⟨rate, hrate⟩ := hquote
  refine ⟨(acc.1.set e.1 rate, claims), ?_⟩
  rw [updateRate, crossBallot_ok hcross, Outcome.ok_bind, hclaims, Outcome.ok_bind]
  show (quoteBack ref e.1 (weightedMedian (quotedBallot env ref e)) >>= _) = _
  rw [hrate]
  rfl

theorem updateRate_panic (he : WellFormed e.2)
    (hbases : ∀ a base, ref.rates.get a = some base → 0 ≤ base.i) (hb : 0 ≤ rewardBand.i)
    (hb' : rewardBand ≤ .one) (h : ¬ RateFits env ref rewardBand e)
    (acc : SortedMap String LegacyDec × ClaimMap) :
    ∃ m, updateRate env ref rewardBand acc e = .panic m := by
  by_cases hcross : e.1 ≠ ref.denom → ∀ v ∈ e.2, CrossFits ref.rates v
  · have hrange : InRange (quotedBallot env ref e) :=
      (quotedBallot_wellFormed he hbases hcross).inRange
    rw [updateRate, crossBallot_ok hcross, Outcome.ok_bind]
    by_cases htally : TallyFits env.toBallotOps (quotedBallot env ref e) rewardBand
        (weightedMedian (quotedBallot env ref e))
    · -- the median is found, and converting it back fails
      obtain ⟨claims, hclaims⟩ := tally_ok (ε := SdkError) env.valBech32.string acc.2
        hrange hb hb' htally
      have hback : ¬ (e.1 ≠ ref.denom → (weightedMedian (quotedBallot env ref e)).i ≠ 0 ∧
          LegacyDec.Fits (LegacyDec.quoRaw ref.median (weightedMedian (quotedBallot env ref e)))) :=
        fun hback => h ⟨hcross, htally, hback⟩
      rw [Classical.not_imp] at hback
      have hquote : ∃ m, quoteBack ref e.1 (weightedMedian (quotedBallot env ref e)) = .panic m := by
        rw [quoteBack, if_pos hback.1, LegacyDec.quo]
        by_cases hzero : (weightedMedian (quotedBallot env ref e)).i = 0
        · exact ⟨_, if_pos hzero⟩
        · rw [if_neg hzero, LegacyDec.check, if_neg (fun hf => hback.2 ⟨hzero, hf⟩)]
          exact ⟨_, rfl⟩
      obtain ⟨m, hm⟩ := hquote
      refine ⟨m, ?_⟩
      rw [hclaims, Outcome.ok_bind]
      show (quoteBack ref e.1 (weightedMedian (quotedBallot env ref e)) >>= _) = _
      rw [hm]
      rfl
    · obtain ⟨m, hm⟩ := tally_panic (ε := SdkError) env.valBech32.string acc.2
        hrange hb hb' htally
      exact ⟨m, by rw [hm]; rfl⟩
  · obtain ⟨m, hm⟩ := crossBallot_panic env hcross
    exact ⟨m, by rw [updateRate, hm]; rfl⟩

end Rates

/-! ## The end of the period -/

variable (env) in
/-- The arithmetic on a ballot stays in range. Every quotient of the rates of a voter
does; the votes without a positive cross rate do not decide the median; and with the
medians, so do the sum of the median and its spread and the quotient of the medians. -/
def RateInRange (ref : String × ExchangeRateBallot) (rewardBand : LegacyDec)
    (e : String × ExchangeRateBallot) : Prop :=
  (e.1 ≠ ref.1 →
    (∀ v ∈ e.2, CrossFits (toMap ref.2) v) ∧
    Supported (e.2.map (crossed (toMap ref.2))) ∧
    ∀ base median, Median ref.2 base → Median (quotedBallot env (.ofBallot ref.1 ref.2) e) median →
      LegacyDec.Fits (LegacyDec.quoRaw base median)) ∧
  ∀ median, Median (quotedBallot env (.ofBallot ref.1 ref.2) e) median →
    TallyFits env.toBallotOps (quotedBallot env (.ofBallot ref.1 ref.2) e) rewardBand median

variable (env) in
/-- The number of votes a ballot needs is in range, and so is the arithmetic on every
ballot that counts, against the reference. -/
def WithinRange (staking : Staking) (k : Store) : Prop :=
  staking.ThresholdFits k.params ∧
  ∀ ref, IsReference (staking.threshold k.params) k.tobinTaxes (periodBallots env staking k).entries ref →
    ∀ e ∈ (periodBallots env staking k).entries,
      Passing (staking.threshold k.params) k.tobinTaxes e →
      RateInRange env ref k.params.rewardBand e

/-- The medians that are computed are the medians. -/
theorem rateInRange_iff {ref e : String × ExchangeRateBallot} {rewardBand : LegacyDec}
    (href : WellFormed ref.2) (he : WellFormed e.2) :
    RateInRange env ref rewardBand e ↔ RateFits env (.ofBallot ref.1 ref.2) rewardBand e := by
  have hbases : ∀ a base, (toMap ref.2).get a = some base → 0 ≤ base.i :=
    fun a base hbase => (toMap_pos ref.2 a base hbase).le
  by_cases hd : e.1 = ref.1
  · have hquoted : WellFormed (quotedBallot env (.ofBallot ref.1 ref.2) e) :=
      quotedBallot_wellFormed he hbases (fun hne => absurd hd hne)
    refine ⟨?_, ?_⟩
    · intro h
      exact ⟨fun hne => absurd hd hne, h.2 _ (hquoted.median_iff.mpr rfl), fun hne => absurd hd hne⟩
    · intro h
      refine ⟨fun hne => absurd hd hne, ?_⟩
      intro median hmedian
      rw [hquoted.median_iff.mp hmedian]
      exact h.2.1
  · by_cases hcross : ∀ v ∈ e.2, CrossFits (toMap ref.2) v
    · have hquoted : WellFormed (quotedBallot env (.ofBallot ref.1 ref.2) e) :=
        quotedBallot_wellFormed he hbases (fun _ => hcross)
      have hsupported : Supported (e.2.map (crossed (toMap ref.2))) ↔
          (weightedMedian (quotedBallot env (.ofBallot ref.1 ref.2) e)).i ≠ 0 := by
        have hballot : quotedBallot env (.ofBallot ref.1 ref.2) e =
            env.sort (e.2.map (crossed (toMap ref.2))) := if_neg hd
        rw [hquoted.median_ne_zero_iff, hballot, supported_sort]
      simp only [RateInRange, RateFits, href.median_iff, hquoted.median_iff, hsupported]
      refine ⟨?_, ?_⟩
      · intro h
        exact ⟨fun _ => hcross, h.2 _ rfl, fun hne => ⟨(h.1 hne).2.1, (h.1 hne).2.2 _ _ rfl rfl⟩⟩
      · intro h
        refine ⟨fun hne => ⟨hcross, (h.2.2 hne).1, ?_⟩, ?_⟩
        · intro base median hbase hmedian
          rw [hbase, hmedian]
          exact (h.2.2 hne).2
        · intro median hmedian
          rw [hmedian]
          exact h.2.1
    · refine ⟨?_, ?_⟩
      · intro h
        exact absurd (h.1 hd).1 hcross
      · intro h
        exact absurd (h.1 hd) hcross

theorem Params.validate_inv {p : Params} (h : p.validate = .ok ()) :
    0 ≤ p.rewardBand.i ∧ p.rewardBand ≤ .one := by
  simp only [Params.validate, Outcome.bind_eq_ok, Outcome.failIf_eq_ok, not_or] at h
  obtain ⟨_, _, _, _, _, ⟨hband, hband'⟩, _⟩ := h
  have hband : p.rewardBand.i ≤ LegacyDec.one.i := not_lt.mp hband
  exact ⟨not_lt.mp hband', hband⟩

/-- The ballots that are left after a search, and the reference among them. -/
theorem withinRange_iff (ord : Orders) {staking : Staking} {k : Store} {sel : Selection} {ballot : ExchangeRateBallot}
    (hvotes : ∀ a v, k.votes.get a = some v → Cast env a v)
    (hfits : staking.ThresholdFits k.params)
    (hsel : Selected (staking.threshold k.params) k.tobinTaxes (periodBallots env staking k) sel)
    (href : IsReference (staking.threshold k.params) k.tobinTaxes
      (periodBallots env staking k).entries (sel.referenceDo, ballot)) :
    WithinRange env staking k ↔ ∀ e ∈ ord.rates.range sel.voteMap,
      RateFits env (.ofBallot sel.referenceDo ballot) k.params.rewardBand e := by
  have hrefwf : WellFormed ballot :=
    (periodBallots_wellFormed hvotes (SortedMap.get_eq_some.mpr href.1)).2
  refine ⟨?_, ?_⟩
  · intro hwithin e he
    obtain ⟨hget, hp⟩ := (hsel.ballots_left _ _).mp (SortedMap.RangeOrder.mem_range.mp he)
    have hwf := (periodBallots_wellFormed hvotes hget).2
    exact (rateInRange_iff hrefwf hwf).mp (hwithin.2 _ href e (SortedMap.get_eq_some.mp hget) hp)
  · intro hall
    refine ⟨hfits, ?_⟩
    intro ref href' e he hp
    have hget := SortedMap.get_eq_some.mpr he
    rw [← href.unique href']
    apply (rateInRange_iff hrefwf (periodBallots_wellFormed hvotes hget).2).mpr
    exact hall e (SortedMap.RangeOrder.mem_range.mpr ((hsel.ballots_left _ _).mpr ⟨hget, hp⟩))

/-- Updating the rates of votes that were cast returns or panics, and the votes decide
which. -/
theorem updateExchangeRates_cases (ord : Orders) {staking : Staking} {k : Store}
    (hband : 0 ≤ k.params.rewardBand.i) (hband' : k.params.rewardBand ≤ .one)
    (hvotes : ∀ a v, k.votes.get a = some v → Cast env a v) :
    (WithinRange env staking k → ∃ p, updateExchangeRates env ord staking k = .ok p) ∧
    (¬ WithinRange env staking k → ∃ m, updateExchangeRates env ord staking k = .panic m) := by
  by_cases hfits : staking.ThresholdFits k.params
  · obtain ⟨sel, hpick, hsel⟩ := pickReferenceDo_spec ord k.tobinTaxes
      (periodBallots env staking k) hfits
    rw [updateExchangeRates, organize_eq, ← periodBallots, hpick, Outcome.ok_bind]
    cases hsel.reference with
    | inl hnone =>
      -- no ballot counts: nothing is updated
      rw [updateRates, if_pos hnone.1]
      refine ⟨fun _ => ⟨_, rfl⟩, fun hn => absurd ⟨hfits, ?_⟩ hn⟩
      intro ref href
      exact absurd href.2.1 (hnone.2 ref href.1)
    | inr href =>
      obtain ⟨ballot, href⟩ := href
      have hget : (periodBallots env staking k).get sel.referenceDo = some ballot :=
        SortedMap.get_eq_some.mpr href.1
      have hne : sel.referenceDo ≠ "" := (periodBallots_wellFormed hvotes hget).1
      have hballot : sel.voteMap.get sel.referenceDo = some ballot :=
        (hsel.ballots_left _ _).mpr ⟨hget, href.2.1⟩
      have hbases : ∀ a base, (Reference.ofBallot sel.referenceDo ballot).rates.get a = some base →
          0 ≤ base.i := fun a base hbase => (toMap_pos ballot a base hbase).le
      have hwf : ∀ e ∈ ord.rates.range sel.voteMap, WellFormed e.2 := by
        intro e he
        have hleft := (hsel.ballots_left _ _).mp (SortedMap.RangeOrder.mem_range.mp he)
        exact (periodBallots_wellFormed hvotes hleft.1).2
      rw [withinRange_iff ord hvotes hfits hsel href, updateRates, if_neg hne, hballot]
      refine ⟨?_, ?_⟩
      · intro hall
        obtain ⟨acc, hacc⟩ := Outcome.foldlM_ok
          (fun acc e he hfit => updateRate_ok (hwf e he) hbases hband hband' hfit acc) hall
          (SortedMap.empty, activeClaims env staking.maxValidators staking.byPower SortedMap.empty)
        exact ⟨_, by rw [Option.getD_some, hacc]; rfl⟩
      · intro hall
        obtain ⟨m, hm⟩ := Outcome.foldlM_panic
          (fun acc e he hfit => updateRate_ok (hwf e he) hbases hband hband' hfit acc)
          (fun acc e he hfit => updateRate_panic (hwf e he) hbases hband hband' hfit acc) hall
          (SortedMap.empty, activeClaims env staking.maxValidators staking.byPower SortedMap.empty)
        exact ⟨m, by rw [Option.getD_some, hm]; rfl⟩
  · refine ⟨fun h => absurd h.1 hfits, fun _ => ⟨"Int overflow", ?_⟩⟩
    rw [updateExchangeRates, pickReferenceDo, thresholdVotes_panic hfits]
    rfl

namespace Sample

open Sdk.Sample (alice bob aliceText bobText aliceOperator bobOperator)

def parseDecCoin (text : String) : Except String DecCoin :=
  if text = "1.0ukrw" then .ok ⟨"ukrw", .one⟩
  else if text = "1.0uusd" then .ok ⟨"uusd", .one⟩
  else if text = "0.0uusd" then .ok ⟨"uusd", .zero⟩
  else .error ("invalid decimal coin expression: " ++ text)

/-- The hashes of the votes below. -/
def truncatedHash (text : String) : String :=
  if text = "salt:1.0uusd:" ++ aliceOperator then "fca30b9adc6fafa671b60b6858a03b6f69753e18"
  else if text = "salt:1.0ukrw:" ++ bobOperator then "a8182bdcd903dadd0d17625ca1c30c15626f76b0"
  else if text = "salt:0.0uusd:" ++ bobOperator then "4c198c503411519193fb77601a3d6d356780d5f5"
  else if text = "salt:1.0ukrw,1.0uusd:" ++ aliceOperator then
    "b05db53fdec42b35786f404d301395ea4f0c4860"
  else if text = "salt:1.0ukrw,1.0uusd:" ++ bobOperator then
    "dcbdf150ebfd8cb7760d7e81614ad9f72a6c78e7"
  else ""

def RateLE (v w : VoteForTally) : Prop := v.exchangeRate ≤ w.exchangeRate

instance : DecidableRel RateLE := fun v w => inferInstanceAs (Decidable (v.exchangeRate ≤ w.exchangeRate))

instance : Std.Total RateLE := ⟨fun v w => Int.le_total v.exchangeRate.i w.exchangeRate.i⟩

instance : IsTrans VoteForTally RateLE := ⟨fun _ _ _ h h' => Int.le_trans h h'⟩

/-- Three coins are parsed and five votes hashed; the positive votes on a denomination are
equal, so the deviation is zero. -/
def app : Env where
  sort := List.insertionSort RateLE
  sort_perm := List.perm_insertionSort RateLE
  sort_sorted := List.pairwise_insertionSort RateLE
  sqrtDec := fun _ => .zero
  sqrtDec_nonneg := fun _ => Int.le_refl 0
  sqrtDec_fits := fun _ => LegacyDec.fits_zero
  accBech32 := Sdk.Sample.bech32
  valBech32 := Sdk.Sample.valBech32
  trimSpace := id
  parseDecCoin := parseDecCoin
  parseDecCoin_valid := by
    have hukrw : validDenom "ukrw" = true ∧ 0 ≤ LegacyDec.one.i := by decide +kernel
    have huusd : validDenom "uusd" = true ∧ 0 ≤ LegacyDec.one.i := by decide +kernel
    intro s c h
    unfold parseDecCoin at h
    split_ifs at h <;> cases h
    · exact hukrw
    · exact huusd
    · exact ⟨huusd.1, Int.le_refl 0⟩
  truncatedHash := truncatedHash

/-- Maps are ranged over by their keys. -/
def byKey : Orders :=
  ⟨.byKey, .byKey, .byKey, .byKey, .byKey, .byKey, .byKey⟩

def params : Params where
  votePeriod := 5
  voteThreshold := ⟨50 * 10 ^ 16⟩
  rewardBand := ⟨2 * 10 ^ 16⟩
  rewardDistributionWindow := 5
  whitelist := [⟨"ukrw", .zero⟩, ⟨"uusd", .zero⟩]
  slashFraction := .zero
  slashWindow := 5
  minValidPerWindow := .zero

/-- A bonded validator with the power of one token. -/
def validator (operator : String) : Validator := ⟨operator, true, false, 1, .ok []⟩

def staking : Staking where
  validator := fun a =>
    if a = alice then some (validator aliceOperator)
    else if a = bob then some (validator bobOperator)
    else none
  byPower := [validator aliceOperator, validator bobOperator]
  consensusPower_nonneg := by decide
  totalPower_lt := by decide
  maxValidators := 100
  totalBondedTokens := 2 * 10 ^ 6
  totalBondedTokens_nonneg := by decide
  powerReduction := 10 ^ 6
  powerReduction_pos := by decide

/-- A store with one prevote, of block zero. -/
def prevoted (a : ValAddress) (hash : String) : Store where
  params := params
  exchangeRates := SortedMap.empty
  feederDelegations := SortedMap.empty
  missCounters := SortedMap.empty
  prevotes := SortedMap.empty.set a ⟨hash, Sdk.Sample.valBech32.string a, 0⟩
  votes := SortedMap.empty
  tobinTaxes := (SortedMap.empty.set "ukrw" .zero).set "uusd" .zero

def message (feeder operator rates : String) : MsgAggregateDoRateVote :=
  ⟨"salt", rates, feeder, operator⟩

/-- The store after Alice and Bob have voted. -/
def voted (aliceRates bobRates : List DoRateTuple) : Store where
  params := params
  exchangeRates := SortedMap.empty
  feederDelegations := SortedMap.empty
  missCounters := SortedMap.empty
  prevotes := SortedMap.empty
  votes := (SortedMap.empty.set alice ⟨aliceRates, aliceOperator⟩).set bob ⟨bobRates, bobOperator⟩
  tobinTaxes := (SortedMap.empty.set "ukrw" .zero).set "uusd" .zero

theorem cast_of_message {a : ValAddress} {v : AggregateDoRateVote} (feeder operator rates hash : String)
    (hbasic : MsgAggregateDoRateVote.validateBasic app (message feeder operator rates) = .ok ())
    (haddr : Sdk.Sample.valBech32.accAddressFromBech32 operator = .ok a)
    (hvote : (aggregateDoRateVote app staking 5 (prevoted a hash)
      (message feeder operator rates)).value.map (fun k' => k'.votes.get a) = some (some v)) :
    Cast app a v := by
  obtain ⟨k', hk', hget⟩ := Outcome.value_map_eq_some.mp hvote
  exact ⟨staking, 5, prevoted a hash, k', message feeder operator rates, hbasic, hk', haddr, hget⟩

theorem cast_of_voted {aliceRates bobRates : List DoRateTuple}
    (halice : Cast app alice ⟨aliceRates, aliceOperator⟩)
    (hbob : Cast app bob ⟨bobRates, bobOperator⟩) :
    ∀ a v, (voted aliceRates bobRates).votes.get a = some v → Cast app a v := by
  intro a v h
  rw [voted, SortedMap.get_set, SortedMap.get_set, SortedMap.get_empty] at h
  split_ifs at h with hb ha
  · cases h
    exact hb ▸ hbob
  · cases h
    exact ha ▸ halice

theorem alice_casts_uusd : Cast app alice ⟨[⟨"uusd", .one⟩], aliceOperator⟩ :=
  cast_of_message aliceText aliceOperator "1.0uusd"
    "fca30b9adc6fafa671b60b6858a03b6f69753e18" (by decide +kernel) (by rfl) (by decide +kernel)

theorem bob_casts_ukrw : Cast app bob ⟨[⟨"ukrw", .one⟩], bobOperator⟩ :=
  cast_of_message bobText bobOperator "1.0ukrw"
    "a8182bdcd903dadd0d17625ca1c30c15626f76b0" (by decide +kernel) (by rfl) (by decide +kernel)

theorem alice_casts_both : Cast app alice ⟨[⟨"ukrw", .one⟩, ⟨"uusd", .one⟩], aliceOperator⟩ :=
  cast_of_message aliceText aliceOperator "1.0ukrw,1.0uusd"
    "b05db53fdec42b35786f404d301395ea4f0c4860" (by decide +kernel) (by rfl) (by decide +kernel)

theorem bob_casts_both : Cast app bob ⟨[⟨"ukrw", .one⟩, ⟨"uusd", .one⟩], bobOperator⟩ :=
  cast_of_message bobText bobOperator "1.0ukrw,1.0uusd"
    "dcbdf150ebfd8cb7760d7e81614ad9f72a6c78e7" (by decide +kernel) (by rfl) (by decide +kernel)

end Sample

end Oracle
