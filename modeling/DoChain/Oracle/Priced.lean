import DoChain.Oracle.EndBlock

/- Which denominations have a rate after a vote period, and when it is positive.

   A run of the update that returns is read back: `rateOf_inv` for one ballot,
   `updateRates_inv` for the loop over them, `updateExchangeRates_inv` for all of it.

   A denomination is priced exactly if its ballot counts. The rate need not be
   positive: the median of the reference is the rate of an abstention where the
   abstentions reach half of the power (they do where that half is rounded down to
   zero), and a quotient of medians can round to zero. `rates_positive_iff` says when
   neither happens, in terms of the votes. -/

namespace Oracle

open Sdk

variable {env : Env} {ord : Orders}

/-! ## Reading a run back -/

theorem rewardSpread_inv {ops : BallotOps} {pb : ExchangeRateBallot} {rewardBand spread : LegacyDec}
    (h : (rewardSpread ops pb rewardBand : Outcome SdkError LegacyDec) = .ok spread) :
    spread = spreadAt ops pb rewardBand (weightedMedian pb) := by
  obtain ⟨band, hband, h⟩ := Outcome.bind_eq_ok.mp h
  obtain ⟨product, hproduct, h⟩ := Outcome.bind_eq_ok.mp h
  obtain ⟨_, rfl⟩ := LegacyDec.check_eq_ok.mp hproduct
  rw [LegacyDec.quoInt64, if_neg (by decide)] at hband
  cases hband
  exact (Outcome.ok.inj h).symm

/-- The rate of a ballot is its median, converted back, and its winners are the votes
within the spread and the abstentions. -/
theorem rateOf_inv {ref : Reference} {rewardBand : LegacyDec} {e : String × ExchangeRateBallot}
    {rate : LegacyDec} {ws : ExchangeRateBallot} (h : rateOf env ref rewardBand e = .ok (rate, ws)) :
    (e.1 ≠ ref.denom → ∀ v ∈ e.2, CrossFits ref.rates v) ∧
    (e.1 ≠ ref.denom → (weightedMedian (quotedBallot env ref e)).i ≠ 0) ∧
    rate = (if e.1 = ref.denom then weightedMedian (quotedBallot env ref e)
      else ⟨LegacyDec.quoRaw ref.median (weightedMedian (quotedBallot env ref e))⟩) ∧
    ws = (quotedBallot env ref e).filter (fun v => decide (Wins
      (weightedMedian (quotedBallot env ref e))
      (spreadAt env.toBallotOps (quotedBallot env ref e) rewardBand
        (weightedMedian (quotedBallot env ref e))) v.exchangeRate)) := by
  obtain ⟨ballot, hballot, h⟩ := Outcome.bind_eq_ok.mp h
  obtain ⟨r, htallied, h⟩ := Outcome.bind_eq_ok.mp h
  obtain ⟨back, hback, h⟩ := Outcome.bind_eq_ok.mp h
  cases h
  have hcross : e.1 ≠ ref.denom → ∀ v ∈ e.2, CrossFits ref.rates v := by
    by_contra hn
    obtain ⟨m, hm⟩ := crossBallot_panic env hn
    rw [hm] at hballot
    cases hballot
  rw [crossBallot_ok hcross] at hballot
  obtain rfl := Outcome.ok.inj hballot
  obtain ⟨spread, hspread, htallied⟩ := Outcome.bind_eq_ok.mp htallied
  obtain ⟨winners, hwinners, htallied⟩ := Outcome.bind_eq_ok.mp htallied
  cases htallied
  have hquote : (e.1 ≠ ref.denom → (weightedMedian (quotedBallot env ref e)).i ≠ 0) ∧
      rate = (if e.1 = ref.denom then weightedMedian (quotedBallot env ref e)
        else ⟨LegacyDec.quoRaw ref.median (weightedMedian (quotedBallot env ref e))⟩) := by
    unfold quoteBack at hback
    split_ifs at hback with hd
    · obtain ⟨hzero, _, rfl⟩ := LegacyDec.quo_eq_ok.mp hback
      exact ⟨fun _ => hzero, (if_neg hd).symm⟩
    · rw [if_pos (not_not.mp hd)]
      exact ⟨fun hne => absurd hne hd, (Outcome.ok.inj hback).symm⟩
  refine ⟨hcross, hquote.1, hquote.2, ?_⟩
  · rw [winners_inv hwinners, rewardSpread_inv hspread]

/-- The reference of a selection, as the loop over the ballots uses it. -/
def Selection.ref (sel : Selection) : Reference :=
  .ofBallot sel.referenceDo ((sel.voteMap.get sel.referenceDo).getD [])

variable (env) in
/-- The winners that the loop found in a ballot. -/
def winnersOf (sel : Selection) (params : Params) (e : String × ExchangeRateBallot) : ExchangeRateBallot :=
  ((rateOf env sel.ref params.rewardBand e).value.map Prod.snd).getD []

/-- Every ballot that is left has a rate, its denomination gets it, and its winners are
credited. -/
theorem updateRates_inv {params : Params} {sel : Selection} {claims claims' : ClaimMap}
    {rates : SortedMap String LegacyDec}
    (h : updateRates env ord params sel claims = .ok (rates, claims')) (href : sel.referenceDo ≠ "") :
    (∀ d ballot, sel.voteMap.get d = some ballot →
      ∃ r, rateOf env sel.ref params.rewardBand (d, ballot) = .ok r) ∧
    (∀ d, rates.get d = (sel.voteMap.get d).bind (fun ballot =>
      (rateOf env sel.ref params.rewardBand (d, ballot)).value.map Prod.fst)) ∧
    claims' = ((ord.rates.range sel.voteMap).flatMap (winnersOf env sel params)).foldl
      (creditWinner env.valBech32.string) claims := by
  rw [updateRates, if_neg href] at h
  obtain ⟨hall, hacc⟩ := Outcome.foldlM_apply
    (h := fun acc e (r : LegacyDec × ExchangeRateBallot) =>
      (acc.1.set e.1 r.1, r.2.foldl (creditWinner env.valBech32.string) acc.2)) (updateRate_eq env _ _) h
  -- the two components of the loop
  have hsplit : ∀ (es : List (String × ExchangeRateBallot)) (acc : SortedMap String LegacyDec × ClaimMap),
      (∀ e ∈ es, ∃ r, rateOf env sel.ref params.rewardBand e = .ok r) →
      es.foldl (fun acc e => ((rateOf env sel.ref params.rewardBand e).value.map (fun r =>
        (acc.1.set e.1 r.1, r.2.foldl (creditWinner env.valBech32.string) acc.2))).getD acc) acc =
      (es.foldl (fun m e => m.update e.1 ((rateOf env sel.ref params.rewardBand e).value.map Prod.fst)) acc.1,
        (es.flatMap (winnersOf env sel params)).foldl (creditWinner env.valBech32.string) acc.2) := by
    intro es
    induction es with
    | nil => exact fun _ _ => rfl
    | cons e rest ih =>
      intro acc hes
      obtain ⟨r, hr⟩ := hes e List.mem_cons_self
      rw [List.foldl_cons, ih _ (fun x hx => hes x (List.mem_cons_of_mem e hx)), List.foldl_cons,
        List.flatMap_cons, List.foldl_append, winnersOf, hr]
      rfl
  have hall' : ∀ e ∈ ord.rates.range sel.voteMap,
      ∃ r, rateOf env sel.ref params.rewardBand e = .ok r := hall
  have hpair := hacc.trans (hsplit _ _ hall')
  refine ⟨?_, ?_, congrArg Prod.snd hpair⟩
  · intro d ballot hget
    exact hall (d, ballot) (SortedMap.RangeOrder.mem_range.mpr hget)
  · intro d
    have hrates : rates = _ := congrArg Prod.fst hpair
    rw [hrates, SortedMap.get_foldl_update _ SortedMap.RangeOrder.keys_nodup,
      SortedMap.RangeOrder.find_range]
    cases sel.voteMap.get d <;> rfl

/-- What a run leaves: the ballots that count, the vote targets without a failed ballot,
and the rates and claims of the loop. -/
theorem updateExchangeRates_inv {staking : Staking} {k : Store} {p : PeriodEnd}
    (h : updateExchangeRates env ord staking k = .ok p) :
    ∃ sel, Selected (staking.threshold k.params) k.tobinTaxes (periodBallots env staking k) sel ∧
      p.voteTargets = sel.voteTargets ∧
      updateRates env ord k.params sel
        (activeClaims env staking.maxValidators staking.byPower SortedMap.empty)
        = .ok (p.exchangeRates, p.claims) := by
  by_cases hfits : staking.ThresholdFits k.params
  · obtain ⟨sel, hpick, hsel⟩ := pickReferenceDo_spec ord k.tobinTaxes
      (periodBallots env staking k) hfits
    rw [updateExchangeRates, organize_eq, ← periodBallots, hpick, Outcome.ok_bind] at h
    obtain ⟨acc, hrates, h⟩ := Outcome.bind_eq_ok.mp h
    cases h
    exact ⟨sel, hsel, rfl, hrates⟩
  · rw [updateExchangeRates, pickReferenceDo, thresholdVotes_panic hfits] at h
    cases h

/-! ## Priced denominations -/

/-- The ballots that count, and the reference among them. -/
theorem Selected.reference_cases {staking : Staking} {k : Store} {sel : Selection}
    (hvotes : ∀ a v, k.votes.get a = some v → Cast env a v)
    (hsel : Selected (staking.threshold k.params) k.tobinTaxes (periodBallots env staking k) sel) :
    (sel.referenceDo = "" ∧ ∀ d, sel.voteMap.get d = none) ∨
    (sel.referenceDo ≠ "" ∧ ∃ ballot, sel.voteMap.get sel.referenceDo = some ballot ∧
      IsReference (staking.threshold k.params) k.tobinTaxes (periodBallots env staking k).entries
        (sel.referenceDo, ballot)) := by
  rcases hsel.reference with ⟨hnone, hall⟩ | ⟨ballot, href⟩
  · refine .inl ⟨hnone, ?_⟩
    intro d
    cases hget : sel.voteMap.get d with
    | none => rfl
    | some ballot =>
      obtain ⟨hin, hp⟩ := (hsel.ballots_left d ballot).mp hget
      exact absurd hp (hall _ (SortedMap.get_eq_some.mp hin))
  · have hget := SortedMap.get_eq_some.mpr href.1
    refine .inr ⟨(periodBallots_wellFormed hvotes hget).1, ballot, ?_, href⟩
    exact (hsel.ballots_left _ _).mpr ⟨hget, href.2.1⟩

/-- A denomination is priced exactly if its ballot counts, and the rate is that of its
ballot against the reference. -/
theorem rates_get {staking : Staking} {k : Store} {p : PeriodEnd}
    (hvotes : ∀ a v, k.votes.get a = some v → Cast env a v)
    (h : updateExchangeRates env ord staking k = .ok p) (d : String) :
    ((p.exchangeRates.get d).isSome = true ↔ ∃ ballot, (periodBallots env staking k).get d = some ballot ∧
      Passing (staking.threshold k.params) k.tobinTaxes (d, ballot)) ∧
    ∀ rate, p.exchangeRates.get d = some rate → ∃ ref ballot ws,
      IsReference (staking.threshold k.params) k.tobinTaxes (periodBallots env staking k).entries ref ∧
      (periodBallots env staking k).get d = some ballot ∧
      Passing (staking.threshold k.params) k.tobinTaxes (d, ballot) ∧
      rateOf env (.ofBallot ref.1 ref.2) k.params.rewardBand (d, ballot) = .ok (rate, ws) := by
  obtain ⟨sel, hsel, _, hrates⟩ := updateExchangeRates_inv h
  rcases hsel.reference_cases hvotes with ⟨hnone, hempty⟩ | ⟨hne, refBallot, hrefGet, href⟩
  · -- no ballot counts, and nothing is priced
    rw [updateRates, if_pos hnone] at hrates
    have hrates : p.exchangeRates = SortedMap.empty := (congrArg Prod.fst (Outcome.ok.inj hrates)).symm
    rw [hrates, SortedMap.get_empty]
    refine ⟨⟨fun hsome => absurd hsome (by simp), ?_⟩, fun rate hrate => absurd hrate (by simp)⟩
    intro hcounts
    obtain ⟨ballot, hget, hp⟩ := hcounts
    have hleft := (hsel.ballots_left d ballot).mpr ⟨hget, hp⟩
    rw [hempty d] at hleft
    cases hleft
  · obtain ⟨hall, hget, _⟩ := updateRates_inv hrates hne
    have hrefEq : sel.ref = .ofBallot sel.referenceDo refBallot := by
      rw [Selection.ref, hrefGet]
      rfl
    rw [hget d]
    cases hballot : sel.voteMap.get d with
    | none =>
      refine ⟨⟨fun hsome => absurd hsome (by simp), ?_⟩, fun rate hrate => absurd hrate (by simp)⟩
      intro hcounts
      obtain ⟨ballot, hin, hp⟩ := hcounts
      rw [(hsel.ballots_left d ballot).mpr ⟨hin, hp⟩] at hballot
      cases hballot
    | some ballot =>
      obtain ⟨hin, hp⟩ := (hsel.ballots_left d ballot).mp hballot
      obtain ⟨r, hr⟩ := hall d ballot hballot
      rw [Option.bind_some, hr]
      refine ⟨⟨fun _ => ⟨ballot, hin, hp⟩, fun _ => rfl⟩, ?_⟩
      intro rate hrate
      rw [hrefEq] at hr
      refine ⟨_, ballot, r.2, href, hin, hp, ?_⟩
      rw [hr, ← Option.some.inj hrate]

/-! ## Positive rates -/

variable (env) in
/-- The abstentions do not decide the median of the reference, and no quotient of its
median with that of another ballot that counts rounds to zero: it is more than half of the
last digit. -/
def PositiveRates (staking : Staking) (k : Store) : Prop :=
  ∀ ref, IsReference (staking.threshold k.params) k.tobinTaxes (periodBallots env staking k).entries ref →
    Supported ref.2 ∧
    ∀ e ∈ (periodBallots env staking k).entries, Passing (staking.threshold k.params) k.tobinTaxes e →
      e.1 ≠ ref.1 → ∀ base median, Median ref.2 base →
        Median (quotedBallot env (.ofBallot ref.1 ref.2) e) median →
        (5 * 10 ^ 17 + 1) * median.i ≤ base.i * 10 ^ 36

section Positive

variable {ref e : String × ExchangeRateBallot} {rewardBand rate : LegacyDec} {ws : ExchangeRateBallot}

/-- The rate of the reference is its median. -/
theorem rateOf_reference_pos (hwf : WellFormed ref.2)
    (h : rateOf env (.ofBallot ref.1 ref.2) rewardBand ref = .ok (rate, ws)) :
    0 < rate.i ↔ Supported ref.2 := by
  obtain ⟨_, _, hrate, _⟩ := rateOf_inv h
  have hquoted : quotedBallot env (.ofBallot ref.1 ref.2) ref = ref.2 := if_pos rfl
  have hself : ref.1 = (Reference.ofBallot ref.1 ref.2).denom := rfl
  have hnonneg := hwf.inRange.median.1
  rw [hrate, if_pos hself, hquoted, ← hwf.median_ne_zero_iff]
  constructor <;> intro hpos <;> omega

/-- The rate of another ballot is the quotient of the medians. -/
theorem rateOf_other_pos (href : WellFormed ref.2) (he : WellFormed e.2) (hne : e.1 ≠ ref.1)
    (h : rateOf env (.ofBallot ref.1 ref.2) rewardBand e = .ok (rate, ws)) :
    0 < rate.i ↔ ∀ base median, Median ref.2 base →
      Median (quotedBallot env (.ofBallot ref.1 ref.2) e) median →
      (5 * 10 ^ 17 + 1) * median.i ≤ base.i * 10 ^ 36 := by
  obtain ⟨hcross, hzero, hrate, _⟩ := rateOf_inv h
  have hquoted : WellFormed (quotedBallot env (.ofBallot ref.1 ref.2) e) :=
    quotedBallot_wellFormed he (fun a base hbase => (toMap_pos ref.2 a base hbase).le) hcross
  have hpos : 0 < (weightedMedian (quotedBallot env (.ofBallot ref.1 ref.2) e)).i :=
    lt_of_le_of_ne hquoted.inRange.median.1 (hzero hne).symm
  have hother : e.1 ≠ (Reference.ofBallot ref.1 ref.2).denom := hne
  rw [hrate, if_neg hother]
  show 0 < LegacyDec.quoRaw (weightedMedian ref.2) _ ↔ _
  rw [LegacyDec.quoRaw_pos_iff href.inRange.median.1 hpos]
  refine ⟨?_, ?_⟩
  · intro hle base median hbase hmedian
    rw [href.median_iff.mp hbase, hquoted.median_iff.mp hmedian]
    exact hle
  · intro hall
    exact hall _ _ (href.median_iff.mpr rfl) (hquoted.median_iff.mpr rfl)

end Positive

/-- The rates after a block are those of the update. -/
theorem endBlocker_rates {D : Type} {keepers : Keepers D} {height : Nat} {w w' : World D}
    (hlast : isPeriodLastBlock height w.oracle.params.votePeriod = .ok true)
    (h : endBlocker env keepers ord height w = .ok w') :
    ∃ p, updateExchangeRates env ord w.staking w.oracle = .ok p ∧
      w'.oracle.exchangeRates = p.exchangeRates := by
  obtain ⟨w₁, counters, hperiod, hw'⟩ := endBlocker_inv h hlast
  obtain ⟨p, taxes, metadata, hp, _, hw₁⟩ := endPeriod_inv hperiod
  exact ⟨p, hp, by rw [hw', hw₁]⟩

namespace Sample

open Sdk.Sample (alice bob aliceText bobText aliceOperator bobOperator)

theorem cast_both : ∀ a v, (voted [⟨"ukrw", .one⟩, ⟨"uusd", .one⟩]
    [⟨"ukrw", .one⟩, ⟨"uusd", .one⟩]).votes.get a = some v → Cast app a v :=
  cast_of_voted alice_casts_both bob_casts_both

end Sample

end Oracle
