import DoChain.Oracle.Priced

/- The misses of a vote period.

   The loop over the claims compares the number of ballots a validator won with the
   number of vote targets that the search for the reference has left. `Missed` is what
   this means for the votes: a target got no vote, or has a ballot that counts in which
   the validator has no vote or one outside of the spread. `misses_counted` says that the
   two agree, and so whose counters are raised.

   The argument counts: a validator wins at most once in a ballot, the ballots that count
   are of different targets that are left, and every other target that is left has no
   ballot. So all targets are won only if each has a ballot and is won. -/

namespace Oracle

open Sdk

variable {env : Env} {ord : Orders}

/-! ## Credits -/

/-- What crediting winners does to a claim: it counts those under its key. -/
theorem get_foldl_creditWinner (valString : ValAddress → String) (ws : ExchangeRateBallot)
    {claims : ClaimMap} {key : String} {claim : Claim} {n : Nat} (hget : claims.get key = some claim)
    (hn : claim.winCount = n)
    (hlt : n + ws.countP (fun v => decide (valString v.voter = key)) < 2 ^ 63) :
    ∃ claim', (ws.foldl (creditWinner valString) claims).get key = some claim' ∧
      claim'.recipient = claim.recipient ∧
      claim'.winCount = (n + ws.countP (fun v => decide (valString v.voter = key)) : Nat) := by
  induction ws generalizing claims claim n with
  | nil => exact ⟨claim, hget, rfl, hn⟩
  | cons v rest ih =>
    rw [List.foldl_cons]
    by_cases hkey : valString v.voter = key
    · rw [List.countP_cons_of_pos (by simpa using hkey)] at hlt ⊢
      have hnext : (creditWinner valString claims v).get key = some
          { claim with weight := wrap64 (claim.weight + v.power), winCount := wrap64 (claim.winCount + 1) } := by
        rw [creditWinner, hkey, hget, SortedMap.get_set_self]
        rfl
      have hwrap : wrap64 (claim.winCount + 1) = ((n + 1 : Nat) : Int) := by
        rw [hn, wrap64_eq (by omega) (by omega)]
        push_cast
        rfl
      obtain ⟨claim', hget', hrec, hcount⟩ := ih hnext hwrap (by omega)
      refine ⟨claim', hget', hrec, ?_⟩
      rw [hcount]
      congr 1
      omega
    · rw [List.countP_cons_of_neg (by simpa using hkey)] at hlt ⊢
      have hnext : (creditWinner valString claims v).get key = some claim := by
        rw [creditWinner, SortedMap.get_set, if_neg (fun h => hkey h.symm), hget]
      exact ih hnext hn hlt

/-- Winners with a claim make no new one. -/
theorem get_foldl_creditWinner_none (valString : ValAddress → String) {ws : ExchangeRateBallot}
    {claims : ClaimMap} {key : String} (hget : claims.get key = none)
    (hws : ∀ v ∈ ws, valString v.voter ≠ key) :
    (ws.foldl (creditWinner valString) claims).get key = none := by
  induction ws generalizing claims with
  | nil => exact hget
  | cons v rest ih =>
    rw [List.foldl_cons]
    apply ih
    · rw [creditWinner, SortedMap.get_set, if_neg (hws v List.mem_cons_self).symm, hget]
    · exact fun w hw => hws w (List.mem_cons_of_mem v hw)

/-! ## Voters -/

section Voters

variable {claims : ClaimMap} {d : String}

/-- An aggregate vote has at most one vote on a denomination. -/
theorem castVotes_voters {e : ValAddress × AggregateDoRateVote} (he : Cast env e.1 e.2) :
    (((castVotes claims e).filter (fun v => decide (v.denom = d))).map VoteForTally.voter).Nodup ∧
      ∀ a ∈ ((castVotes claims e).filter (fun v => decide (v.denom = d))).map VoteForTally.voter, a = e.1 := by
  have hvoter : ∀ a ∈ ((castVotes claims e).filter (fun v => decide (v.denom = d))).map VoteForTally.voter,
      a = e.1 := by
    intro a ha
    obtain ⟨v, hv, rfl⟩ := List.mem_map.mp ha
    obtain ⟨claim, _, t, _, rfl⟩ := mem_castVotes (List.mem_filter.mp hv).1
    rfl
  refine ⟨?_, hvoter⟩
  have hdenoms : ((castVotes claims e).map VoteForTally.denom).Nodup := by
    unfold castVotes
    cases claims.get e.2.voter with
    | none => exact List.nodup_nil
    | some claim =>
      rw [List.map_map]
      exact he.valid.2.1
  -- two votes of the list are on one denomination
  have hpair : ((castVotes claims e).filter (fun v => decide (v.denom = d))).Pairwise
      (fun v w => v.voter ≠ w.voter) := by
    have hne := (List.pairwise_map.mp hdenoms).filter (fun v => decide (v.denom = d))
    refine hne.imp_of_mem ?_
    intro v w hv hw hdenom
    have hv := of_decide_eq_true (List.mem_filter.mp hv).2
    have hw := of_decide_eq_true (List.mem_filter.mp hw).2
    exact absurd (hv.trans hw.symm) hdenom
  exact List.pairwise_map.mpr hpair

/-- A validator has at most one vote in a ballot. -/
theorem votesOn_voters {es : List (ValAddress × AggregateDoRateVote)}
    (hes : ∀ e ∈ es, Cast env e.1 e.2) (hnd : (es.map Prod.fst).Nodup) :
    ((votesOn claims d es).map VoteForTally.voter).Nodup := by
  rw [votesOn, List.filter_flatMap, List.map_flatMap, List.nodup_flatMap]
  refine ⟨fun e he => (castVotes_voters (hes e he)).1, ?_⟩
  refine (List.pairwise_map.mp hnd).imp_of_mem ?_
  intro e e' he he' hne a ha ha'
  exact hne (((castVotes_voters (hes e he)).2 a ha).symm.trans ((castVotes_voters (hes e' he')).2 a ha'))

theorem crossed_voter (bases : SortedMap ValAddress LegacyDec) (v : VoteForTally) :
    (crossed bases v).voter = v.voter := by
  unfold crossed
  cases bases.get v.voter with
  | none => rfl
  | some base =>
    by_cases hpos : v.exchangeRate.IsPositive
    · simp only [hpos, if_true]
    · simp only [hpos, if_false]
      rfl

variable (env) in
/-- Cross rates are of the same voters. -/
theorem quotedBallot_voters (ref : Reference) (e : String × ExchangeRateBallot) :
    ((quotedBallot env ref e).map VoteForTally.voter).Perm (e.2.map VoteForTally.voter) := by
  unfold quotedBallot
  split_ifs
  · exact .refl _
  · have hperm := (env.sort_perm (e.2.map (crossed ref.rates))).map VoteForTally.voter
    rw [List.map_map] at hperm
    have hsame : VoteForTally.voter ∘ crossed ref.rates = VoteForTally.voter := by
      funext v
      exact crossed_voter ref.rates v
    rw [hsame] at hperm
    exact hperm

/-- The ballots of votes that were cast: every voter has a claim, and one vote. -/
theorem periodBallots_voters {staking : Staking} {k : Store}
    (hvotes : ∀ a v, k.votes.get a = some v → Cast env a v) {ballot : ExchangeRateBallot}
    (h : (periodBallots env staking k).get d = some ballot) :
    (ballot.map VoteForTally.voter).Nodup ∧ ∀ a ∈ ballot.map VoteForTally.voter, ∃ claim,
      (activeClaims env staking.maxValidators staking.byPower SortedMap.empty).get
        (env.valBech32.string a) = some claim := by
  have hes : ∀ e ∈ k.votes.entries, Cast env e.1 e.2 :=
    fun e he => hvotes e.1 e.2 (SortedMap.get_eq_some.mpr he)
  rw [periodBallots_get rfl] at h
  split_ifs at h
  cases h
  have hperm := (env.sort_perm (votesOn (activeClaims env staking.maxValidators staking.byPower
    SortedMap.empty) d k.votes.entries)).map VoteForTally.voter
  refine ⟨hperm.nodup_iff.mpr (votesOn_voters hes k.votes.keys_nodup), ?_⟩
  intro a ha
  obtain ⟨v, hv, rfl⟩ := List.mem_map.mp (hperm.mem_iff.mp ha)
  obtain ⟨e, he, claim, hclaim, t, _, _, rfl⟩ := mem_votesOn hv
  rw [(hes e he).valid.1] at hclaim
  exact ⟨claim, hclaim⟩

end Voters

/-- The claim under a voter's text is that of the voter. -/
theorem Staking.Indexed.text_eq_iff {staking : Staking} (hindexed : staking.Indexed env)
    {claims : ClaimMap} (hactive : Active env staking claims) {key : String} {claim claim' : Claim}
    {a : ValAddress} (hkey : claims.get key = some claim)
    (ha : claims.get (env.valBech32.string a) = some claim') :
    env.valBech32.string a = key ↔ a = claim.recipient := by
  obtain ⟨hdecode, ⟨v, hv, hop⟩, _⟩ := hactive key claim hkey
  obtain ⟨hdecode', ⟨v', hv', hop'⟩, _⟩ := hactive _ claim' ha
  have hrec : claim'.recipient = a := env.valBech32.eq_of_decode hdecode'
  refine ⟨?_, ?_⟩
  · intro heq
    rw [heq, hkey] at ha
    rw [← hrec, Option.some.inj ha]
  · intro heq
    rw [← hop, ← heq] at hdecode
    rw [← hop', hrec] at hdecode'
    rw [← hop, ← hop', hindexed.operator_unique hv hv' hdecode hdecode']

/-! ## Counting the ballots won -/

/-- Somebody is among the winners. -/
def isAmong (a : ValAddress) (ws : ExchangeRateBallot) : Bool := ws.any (fun v => decide (v.voter = a))

theorem isAmong_iff {a : ValAddress} {ws : ExchangeRateBallot} :
    isAmong a ws = true ↔ a ∈ ws.map VoteForTally.voter := by
  simp [isAmong]

theorem countP_voter {ws : ExchangeRateBallot} (hnd : (ws.map VoteForTally.voter).Nodup)
    (a : ValAddress) :
    ws.countP (fun v => decide (v.voter = a)) = if isAmong a ws = true then 1 else 0 := by
  have hcount := hnd.count (a := a)
  rw [List.count_eq_countP, List.countP_map] at hcount
  calc ws.countP (fun v => decide (v.voter = a))
      = ws.countP ((fun b => b == a) ∘ VoteForTally.voter) := by
        apply List.countP_congr
        intro v _
        simp
    _ = if isAmong a ws = true then 1 else 0 := by simp only [hcount, isAmong_iff]

/-- Winners of several ballots, counted by ballot. -/
theorem countP_flatMap_voter {α : Type} {es : List α} {winners : α → ExchangeRateBallot}
    (hnd : ∀ e ∈ es, ((winners e).map VoteForTally.voter).Nodup) (a : ValAddress) :
    (es.flatMap winners).countP (fun v => decide (v.voter = a)) =
      es.countP (fun e => isAmong a (winners e)) := by
  induction es with
  | nil => rfl
  | cons e rest ih =>
    rw [List.flatMap_cons, List.countP_append, List.countP_cons, countP_voter (hnd e List.mem_cons_self),
      ih (fun x hx => hnd x (List.mem_cons_of_mem e hx)), Nat.add_comm]

section Run

variable {staking : Staking} {k : Store} {p : PeriodEnd} {sel : Selection}

/-- The votes within the spread and the abstentions are the winners of a ballot that is
left. -/
theorem winnersOf_eq {claims claims' : ClaimMap} {rates : SortedMap String LegacyDec}
    (hrates : updateRates env ord k.params sel claims = .ok (rates, claims')) (hne : sel.referenceDo ≠ "")
    {e : String × ExchangeRateBallot} (he : e ∈ ord.rates.range sel.voteMap) :
    winnersOf env sel k.params e = (quotedBallot env sel.ref e).filter (fun v => decide (Wins
      (weightedMedian (quotedBallot env sel.ref e))
      (spreadAt env.toBallotOps (quotedBallot env sel.ref e) k.params.rewardBand
        (weightedMedian (quotedBallot env sel.ref e))) v.exchangeRate)) := by
  obtain ⟨r, hr⟩ := (updateRates_inv hrates hne).1 e.1 e.2 (SortedMap.RangeOrder.mem_range.mp he)
  obtain ⟨_, _, _, hws⟩ := rateOf_inv hr
  rw [winnersOf, hr]
  exact hws

/-- The claims after the loop over the ballots; without a reference there is none to
range over. -/
theorem claims_eq {claims : ClaimMap} (hvotes : ∀ a v, k.votes.get a = some v → Cast env a v)
    (hsel : Selected (staking.threshold k.params) k.tobinTaxes (periodBallots env staking k) sel)
    (hrates : updateRates env ord k.params sel claims = .ok (p.exchangeRates, p.claims)) :
    p.claims = ((ord.rates.range sel.voteMap).flatMap (winnersOf env sel k.params)).foldl
      (creditWinner env.valBech32.string) claims := by
  rcases hsel.reference_cases hvotes with ⟨hnone, hempty⟩ | ⟨hne, _⟩
  · have hnil : ord.rates.range sel.voteMap = [] := by
      apply List.eq_nil_iff_forall_not_mem.mpr
      intro e he
      have hget := SortedMap.RangeOrder.mem_range.mp he
      rw [hempty] at hget
      cases hget
    rw [updateRates, if_pos hnone] at hrates
    rw [hnil]
    exact (congrArg Prod.snd (Outcome.ok.inj hrates)).symm
  · exact (updateRates_inv hrates hne).2.2

/-- The winners of a ballot that is left are voters of it. -/
theorem winnersOf_voters {claims : ClaimMap} (hvotes : ∀ a v, k.votes.get a = some v → Cast env a v)
    (hsel : Selected (staking.threshold k.params) k.tobinTaxes (periodBallots env staking k) sel)
    (hrates : updateRates env ord k.params sel claims = .ok (p.exchangeRates, p.claims))
    {e : String × ExchangeRateBallot} (he : e ∈ ord.rates.range sel.voteMap) :
    ((winnersOf env sel k.params e).map VoteForTally.voter).Nodup ∧
      ∀ v ∈ winnersOf env sel k.params e, v.voter ∈ e.2.map VoteForTally.voter := by
  have hget := SortedMap.RangeOrder.mem_range.mp he
  rcases hsel.reference_cases hvotes with ⟨_, hempty⟩ | ⟨hne, _⟩
  · rw [hempty] at hget
    cases hget
  · have hballot := ((hsel.ballots_left e.1 e.2).mp hget).1
    have hperm := quotedBallot_voters env sel.ref e
    have hnd := hperm.nodup_iff.mpr (periodBallots_voters hvotes hballot).1
    rw [winnersOf_eq hrates hne he]
    refine ⟨hnd.sublist (List.filter_sublist.map _), ?_⟩
    intro v hv
    exact hperm.mem_iff.mp (List.mem_map.mpr ⟨v, (List.mem_filter.mp hv).1, rfl⟩)

/-- After the loop every claim counts the ballots its validator won, and there is no new
claim. -/
theorem claims_get (hvotes : ∀ a v, k.votes.get a = some v → Cast env a v)
    (hindexed : staking.Indexed env) (hlen : k.tobinTaxes.entries.length < 2 ^ 63)
    (hsel : Selected (staking.threshold k.params) k.tobinTaxes (periodBallots env staking k) sel)
    {claims : ClaimMap}
    (hclaims : claims = activeClaims env staking.maxValidators staking.byPower SortedMap.empty)
    (hrates : updateRates env ord k.params sel claims = .ok (p.exchangeRates, p.claims)) (key : String) :
    (claims.get key = none → p.claims.get key = none) ∧
    ∀ claim, claims.get key = some claim → ∃ claim', p.claims.get key = some claim' ∧
      claim'.recipient = claim.recipient ∧
      claim'.winCount = ((ord.rates.range sel.voteMap).countP
        (fun e => isAmong claim.recipient (winnersOf env sel k.params e)) : Nat) := by
  have hactive : Active env staking claims := hclaims ▸ active_claims env staking
  -- every winner has a claim
  have hwinner : ∀ v ∈ (ord.rates.range sel.voteMap).flatMap (winnersOf env sel k.params),
      ∃ claim, claims.get (env.valBech32.string v.voter) = some claim := by
    intro v hv
    obtain ⟨e, he, hv⟩ := List.mem_flatMap.mp hv
    have hballot := ((hsel.ballots_left e.1 e.2).mp (SortedMap.RangeOrder.mem_range.mp he)).1
    have hvoter := (winnersOf_voters hvotes hsel hrates he).2 v hv
    exact hclaims ▸ (periodBallots_voters hvotes hballot).2 v.voter hvoter
  rw [claims_eq hvotes hsel hrates]
  refine ⟨?_, ?_⟩
  · intro hnone
    apply get_foldl_creditWinner_none _ hnone
    intro v hv hkey
    obtain ⟨claim, hclaim⟩ := hwinner v hv
    rw [hkey, hnone] at hclaim
    cases hclaim
  · intro claim hget
    have hcount : ((ord.rates.range sel.voteMap).flatMap (winnersOf env sel k.params)).countP
          (fun v => decide (env.valBech32.string v.voter = key)) =
        (ord.rates.range sel.voteMap).countP
          (fun e => isAmong claim.recipient (winnersOf env sel k.params e)) := by
      rw [← countP_flatMap_voter (fun e he => (winnersOf_voters hvotes hsel hrates he).1)]
      apply List.countP_congr
      intro v hv
      obtain ⟨claim', hclaim'⟩ := hwinner v hv
      rw [decide_eq_true_iff, decide_eq_true_iff]
      exact hindexed.text_eq_iff hactive hget hclaim'
    -- there are no more ballots than vote targets
    have hballots : (ord.rates.range sel.voteMap).length ≤ k.tobinTaxes.entries.length := by
      refine (SortedMap.length_le_of_keys SortedMap.RangeOrder.keys_nodup ?_).2
      intro e he
      exact ((hsel.ballots_left e.1 e.2).mp (SortedMap.RangeOrder.mem_range.mp he)).2.1
    have hle := List.countP_le_length (l := ord.rates.range sel.voteMap)
      (p := fun e => isAmong claim.recipient (winnersOf env sel k.params e))
    obtain ⟨claim', hget', hrec, hwon⟩ := get_foldl_creditWinner env.valBech32.string
      ((ord.rates.range sel.voteMap).flatMap (winnersOf env sel k.params)) hget
      (n := 0) (hactive key claim hget).2.2
      (by rw [hcount]; omega)
    refine ⟨claim', hget', hrec, ?_⟩
    rw [hwon, hcount, Nat.zero_add]

end Run

/-! ## Misses -/

/-- A positive rate outside of the spread around the median. -/
def Outside (median spread rate : LegacyDec) : Prop :=
  0 < rate.i ∧ (rate.i < median.i - spread.i ∨ median.i + spread.i < rate.i)

theorem outside_iff {median spread rate : LegacyDec} :
    Outside median spread rate ↔ ¬ Wins median spread rate := by
  unfold Outside Wins
  omega

variable (env) in
/-- A validator misses a period through a vote target nobody voted on, or through a
ballot that counts in which it has no vote, or one outside of the spread. -/
def Missed (staking : Staking) (k : Store) (a : ValAddress) : Prop :=
  ∃ d, (k.tobinTaxes.get d).isSome = true ∧
    ((periodBallots env staking k).get d = none ∨
      ∃ ballot ref, (periodBallots env staking k).get d = some ballot ∧
        Passing (staking.threshold k.params) k.tobinTaxes (d, ballot) ∧
        IsReference (staking.threshold k.params) k.tobinTaxes (periodBallots env staking k).entries ref ∧
        ((∀ v ∈ ballot, v.voter ≠ a) ∨
          ∃ v ∈ quotedBallot env (.ofBallot ref.1 ref.2) (d, ballot), v.voter = a ∧ Outside
            (weightedMedian (quotedBallot env (.ofBallot ref.1 ref.2) (d, ballot)))
            (spreadAt env.toBallotOps (quotedBallot env (.ofBallot ref.1 ref.2) (d, ballot))
              k.params.rewardBand (weightedMedian (quotedBallot env (.ofBallot ref.1 ref.2) (d, ballot))))
            v.exchangeRate))

section Missed

variable {staking : Staking} {k : Store} {p : PeriodEnd} {sel : Selection}

/-- Who has a vote in a ballot that counts wins it, or the vote is outside of the
spread. -/
theorem isAmong_winnersOf {claims : ClaimMap} (hvotes : ∀ a v, k.votes.get a = some v → Cast env a v)
    (hsel : Selected (staking.threshold k.params) k.tobinTaxes (periodBallots env staking k) sel)
    (hrates : updateRates env ord k.params sel claims = .ok (p.exchangeRates, p.claims))
    (hne : sel.referenceDo ≠ "") {e : String × ExchangeRateBallot}
    (he : e ∈ ord.rates.range sel.voteMap) (a : ValAddress) :
    isAmong a (winnersOf env sel k.params e) = true ↔
      ¬ ((∀ v ∈ e.2, v.voter ≠ a) ∨ ∃ v ∈ quotedBallot env sel.ref e, v.voter = a ∧ Outside
        (weightedMedian (quotedBallot env sel.ref e))
        (spreadAt env.toBallotOps (quotedBallot env sel.ref e) k.params.rewardBand
          (weightedMedian (quotedBallot env sel.ref e))) v.exchangeRate) := by
  have hballot := ((hsel.ballots_left e.1 e.2).mp (SortedMap.RangeOrder.mem_range.mp he)).1
  have hperm := quotedBallot_voters env sel.ref e
  have hnd := hperm.nodup_iff.mpr (periodBallots_voters hvotes hballot).1
  rw [isAmong_iff, winnersOf_eq hrates hne he]
  refine ⟨?_, ?_⟩
  · intro hwon
    obtain ⟨v, hv, rfl⟩ := List.mem_map.mp hwon
    obtain ⟨hin, hwins⟩ := List.mem_filter.mp hv
    intro hmiss
    rcases hmiss with hnone | ⟨w, hw, hsame, houtside⟩
    · obtain ⟨u, hu, heq⟩ := List.mem_map.mp (hperm.mem_iff.mp (List.mem_map.mpr ⟨v, hin, rfl⟩))
      exact hnone u hu heq
    · -- a validator has one vote
      rw [List.inj_on_of_nodup_map hnd hw hin hsame] at houtside
      exact outside_iff.mp houtside (of_decide_eq_true hwins)
  · intro hmiss
    rw [not_or, not_forall] at hmiss
    obtain ⟨⟨u, hu⟩, hinside⟩ := hmiss
    obtain ⟨hu, heq⟩ := Classical.not_imp.mp hu
    have hquoted := hperm.mem_iff.mpr (List.mem_map.mpr ⟨u, hu, not_not.mp heq⟩)
    obtain ⟨v, hv, hvoter⟩ := List.mem_map.mp hquoted
    refine List.mem_map.mpr ⟨v, List.mem_filter.mpr ⟨hv, ?_⟩, hvoter⟩
    apply decide_eq_true
    by_contra hwins
    exact hinside ⟨v, hv, hvoter, outside_iff.mpr hwins⟩

/-- A ballot that counts is one of a target that is left. -/
theorem target_of_counted
    (hsel : Selected (staking.threshold k.params) k.tobinTaxes (periodBallots env staking k) sel)
    {e : String × ExchangeRateBallot} (he : e ∈ ord.rates.range sel.voteMap) :
    (sel.voteTargets.get e.1).isSome = true := by
  obtain ⟨hget, hp⟩ := (hsel.ballots_left e.1 e.2).mp (SortedMap.RangeOrder.mem_range.mp he)
  obtain ⟨t, ht⟩ := Option.isSome_iff_exists.mp hp.1
  rw [(hsel.targets_left e.1 t).mpr ⟨ht, fun b hb => by rw [hget] at hb; cases hb; exact hp⟩]
  rfl

/-- If some ballot counts, the selection has the reference that the ballots determine. -/
theorem reference_of_counted (hvotes : ∀ a v, k.votes.get a = some v → Cast env a v)
    (hsel : Selected (staking.threshold k.params) k.tobinTaxes (periodBallots env staking k) sel)
    {e : String × ExchangeRateBallot} (he : e ∈ ord.rates.range sel.voteMap) :
    sel.referenceDo ≠ "" ∧
      ∃ ref, IsReference (staking.threshold k.params) k.tobinTaxes (periodBallots env staking k).entries ref ∧
        sel.ref = .ofBallot ref.1 ref.2 := by
  rcases hsel.reference_cases hvotes with ⟨_, hempty⟩ | ⟨hne, ballot, hget, href⟩
  · have hget := SortedMap.RangeOrder.mem_range.mp he
    rw [hempty] at hget
    cases hget
  · refine ⟨hne, (sel.referenceDo, ballot), href, ?_⟩
    rw [Selection.ref, hget]
    rfl

/-- All targets that are left are won exactly if the period is not missed. -/
theorem won_all_iff {claims : ClaimMap} (hvotes : ∀ a v, k.votes.get a = some v → Cast env a v)
    (hsel : Selected (staking.threshold k.params) k.tobinTaxes (periodBallots env staking k) sel)
    (hrates : updateRates env ord k.params sel claims = .ok (p.exchangeRates, p.claims)) (a : ValAddress) :
    (ord.rates.range sel.voteMap).countP (fun e => isAmong a (winnersOf env sel k.params e)) =
      sel.voteTargets.entries.length ↔ ¬ Missed env staking k a := by
  rw [SortedMap.countP_eq_length_iff SortedMap.RangeOrder.keys_nodup (fun e he => target_of_counted hsel he)]
  refine ⟨?_, ?_⟩
  · intro h hmissed
    obtain ⟨hwon, hall⟩ := h
    obtain ⟨d, hd, hcase⟩ := hmissed
    rcases hcase with hnone | ⟨ballot, ref, hget, hp, hisref, hmiss⟩
    · obtain ⟨t, ht⟩ := Option.isSome_iff_exists.mp hd
      have hstays := (hsel.targets_left d t).mpr ⟨ht, fun b hb => by rw [hnone] at hb; cases hb⟩
      obtain ⟨e, he, rfl⟩ := List.mem_map.mp (hall d (by rw [hstays]; rfl))
      have hballot := ((hsel.ballots_left e.1 e.2).mp (SortedMap.RangeOrder.mem_range.mp he)).1
      rw [hnone] at hballot
      cases hballot
    · have he : (d, ballot) ∈ ord.rates.range sel.voteMap :=
        SortedMap.RangeOrder.mem_range.mpr ((hsel.ballots_left d ballot).mpr ⟨hget, hp⟩)
      obtain ⟨hne, ref', hisref', hsame⟩ := reference_of_counted hvotes hsel he
      rw [← hisref'.unique hisref, ← hsame] at hmiss
      exact (isAmong_winnersOf hvotes hsel hrates hne he a).mp (hwon _ he) hmiss
  · intro hmissed
    refine ⟨?_, ?_⟩
    · intro e he
      obtain ⟨hne, ref, hisref, hsame⟩ := reference_of_counted hvotes hsel he
      obtain ⟨hget, hp⟩ := (hsel.ballots_left e.1 e.2).mp (SortedMap.RangeOrder.mem_range.mp he)
      apply (isAmong_winnersOf hvotes hsel hrates hne he a).mpr
      intro hmiss
      rw [hsame] at hmiss
      exact hmissed ⟨e.1, hp.1, .inr ⟨e.2, ref, hget, hp, hisref, hmiss⟩⟩
    · intro d hd
      obtain ⟨t, ht⟩ := Option.isSome_iff_exists.mp hd
      obtain ⟨htarget, hstands⟩ := (hsel.targets_left d t).mp ht
      cases hget : (periodBallots env staking k).get d with
      | none => exact absurd ⟨d, by rw [htarget]; rfl, .inl hget⟩ hmissed
      | some ballot =>
        have hin := (hsel.ballots_left d ballot).mpr ⟨hget, hstands ballot hget⟩
        exact List.mem_map.mpr ⟨(d, ballot), SortedMap.RangeOrder.mem_range.mpr hin, rfl⟩

end Missed

/-! ## Counters -/

section Counters

variable {len : Int} {es : List (String × Claim)} {a : ValAddress}

theorem get_countMiss_of_ne {counters : SortedMap ValAddress Nat} {e : String × Claim}
    (h : e.2.recipient = a → e.2.winCount = len) : (countMiss len counters e).get a = counters.get a := by
  unfold countMiss
  split_ifs with hwon
  · rfl
  · rw [SortedMap.get_set, if_neg (fun heq => hwon (h heq.symm))]

/-- A counter stays without a claim that missed. -/
theorem get_foldl_countMiss_of_won (h : ∀ e ∈ es, e.2.recipient = a → e.2.winCount = len)
    (counters : SortedMap ValAddress Nat) : (es.foldl (countMiss len) counters).get a = counters.get a := by
  induction es generalizing counters with
  | nil => rfl
  | cons e rest ih =>
    rw [List.foldl_cons, ih (fun x hx => h x (List.mem_cons_of_mem e hx)),
      get_countMiss_of_ne (h e List.mem_cons_self)]

/-- The counter of a claim that missed is raised, once. -/
theorem get_foldl_countMiss_of_missed (hnd : (es.map (fun e => e.2.recipient)).Nodup)
    {e : String × Claim} (he : e ∈ es) (hmissed : e.2.winCount ≠ len) (counters : SortedMap ValAddress Nat) :
    (es.foldl (countMiss len) counters).get e.2.recipient =
      some ((getMissCounter counters e.2.recipient + 1) % 2 ^ 64) := by
  induction es generalizing counters with
  | nil => cases he
  | cons x rest ih =>
    obtain ⟨hfresh, hnd⟩ := List.nodup_cons.mp hnd
    rw [List.foldl_cons]
    rcases List.mem_cons.mp he with rfl | he
    · rw [get_foldl_countMiss_of_won, countMiss, if_neg hmissed, SortedMap.get_set_self]
      intro y hy hsame
      exact absurd (List.mem_map.mpr ⟨y, hy, hsame⟩) hfresh
    · have hkeep : (countMiss len counters x).get e.2.recipient = counters.get e.2.recipient := by
        apply get_countMiss_of_ne
        intro hsame
        exact absurd (List.mem_map.mpr ⟨e, he, hsame.symm⟩) hfresh
      rw [ih hnd he, getMissCounter, hkeep, ← getMissCounter]

end Counters

section Visited

variable {staking : Staking} {k : Store} {p : PeriodEnd}

/-- A claim that the count visits is one of an active validator, with its wins. -/
theorem visited_claim (hvotes : ∀ a v, k.votes.get a = some v → Cast env a v) (hindexed : staking.Indexed env)
    (hlen : k.tobinTaxes.entries.length < 2 ^ 63) (h : updateExchangeRates env ord staking k = .ok p)
    {e : String × Claim} (he : e ∈ ord.misses.range p.claims) :
    ∃ claim, (activeClaims env staking.maxValidators staking.byPower SortedMap.empty).get e.1 = some claim ∧
      e.2.recipient = claim.recipient ∧
      (e.2.winCount = (p.voteTargets.entries.length : Nat) ↔ ¬ Missed env staking k e.2.recipient) := by
  obtain ⟨sel, hsel, htargets, hrates⟩ := updateExchangeRates_inv h
  have hclaims := claims_get hvotes hindexed hlen hsel rfl hrates
  have hget := SortedMap.RangeOrder.mem_range.mp he
  cases hold : (activeClaims env staking.maxValidators staking.byPower SortedMap.empty).get e.1 with
  | none =>
    rw [(hclaims e.1).1 hold] at hget
    cases hget
  | some claim =>
    obtain ⟨claim', hget', hrec, hcount⟩ := (hclaims e.1).2 claim hold
    rw [hget] at hget'
    cases hget'
    refine ⟨claim, rfl, hrec, ?_⟩
    rw [hcount, htargets, Int.natCast_inj, hrec]
    exact won_all_iff hvotes hsel hrates claim.recipient

/-- Two claims have different recipients. -/
theorem visited_recipients_nodup (hvotes : ∀ a v, k.votes.get a = some v → Cast env a v)
    (hindexed : staking.Indexed env) (hlen : k.tobinTaxes.entries.length < 2 ^ 63)
    (h : updateExchangeRates env ord staking k = .ok p) :
    ((ord.misses.range p.claims).map (fun e => e.2.recipient)).Nodup := by
  apply List.pairwise_map.mpr
  have hkeys : (ord.misses.range p.claims).Pairwise (fun e e' => e.1 ≠ e'.1) :=
    List.pairwise_map.mp SortedMap.RangeOrder.keys_nodup
  refine hkeys.imp_of_mem ?_
  intro e e' he he' hne hsame
  obtain ⟨claim, hget, hrec, _⟩ := visited_claim hvotes hindexed hlen h he
  obtain ⟨claim', hget', hrec', _⟩ := visited_claim hvotes hindexed hlen h he'
  obtain ⟨hdecode, ⟨v, hv, hop⟩, _⟩ := active_claims env staking e.1 claim hget
  obtain ⟨hdecode', ⟨v', hv', hop'⟩, _⟩ := active_claims env staking e'.1 claim' hget'
  rw [← hrec, hsame, hrec', ← hop] at hdecode
  rw [← hop'] at hdecode'
  apply hne
  rw [← hop, ← hop', hindexed.operator_unique hv hv' hdecode hdecode']

end Visited

/-- The count of the misses of a vote period: the counter of an active validator is
raised by one, as a `uint64`, exactly if the validator missed the period, and no other
counter changes. -/
theorem misses_counted {staking : Staking} {k : Store} {p : PeriodEnd}
    (hvotes : ∀ a v, k.votes.get a = some v → Cast env a v) (hindexed : staking.Indexed env)
    (hlen : k.tobinTaxes.entries.length < 2 ^ 63)
    (h : updateExchangeRates env ord staking k = .ok p) (a : ValAddress) :
    (∀ operator claim, (activeClaims env staking.maxValidators staking.byPower SortedMap.empty).get
        operator = some claim → claim.recipient = a →
      (Missed env staking k a → getMissCounter (countMisses ord p k.missCounters) a =
        (getMissCounter k.missCounters a + 1) % 2 ^ 64) ∧
      (¬ Missed env staking k a → (countMisses ord p k.missCounters).get a = k.missCounters.get a)) ∧
    ((∀ operator claim, (activeClaims env staking.maxValidators staking.byPower SortedMap.empty).get
        operator = some claim → claim.recipient ≠ a) →
      (countMisses ord p k.missCounters).get a = k.missCounters.get a) := by
  obtain ⟨sel, hsel, _, hrates⟩ := updateExchangeRates_inv h
  have hclaims := claims_get hvotes hindexed hlen hsel rfl hrates
  have hnd := visited_recipients_nodup hvotes hindexed hlen h
  refine ⟨?_, ?_⟩
  · intro operator claim hget ha
    refine ⟨?_, ?_⟩
    · intro hmissed
      obtain ⟨claim', hget', hrec, _⟩ := (hclaims operator).2 claim hget
      have hin : (operator, claim') ∈ ord.misses.range p.claims := SortedMap.RangeOrder.mem_range.mpr hget'
      obtain ⟨_, _, _, hwon⟩ := visited_claim hvotes hindexed hlen h hin
      have hrec : claim'.recipient = a := hrec.trans ha
      have hlost : claim'.winCount ≠ (p.voteTargets.entries.length : Nat) := by
        intro hall
        exact hwon.mp hall (hrec ▸ hmissed)
      have hraised := get_foldl_countMiss_of_missed hnd hin hlost k.missCounters
      rw [getMissCounter, ← hrec, countMisses, hraised]
      rfl
    · intro hmissed
      apply get_foldl_countMiss_of_won
      intro e he hrec
      obtain ⟨_, _, _, hwon⟩ := visited_claim hvotes hindexed hlen h he
      exact hwon.mpr (hrec ▸ hmissed)
  · intro hother
    apply get_foldl_countMiss_of_won
    intro e he hrec
    obtain ⟨claim, hget, hrec', _⟩ := visited_claim hvotes hindexed hlen h he
    exact absurd (hrec'.symm.trans hrec) (hother e.1 claim hget)

namespace Sample

open Sdk.Sample (alice bob aliceText bobText aliceOperator bobOperator)

/-- Alice votes on both denominations and Bob on one. -/
def incomplete (counters : SortedMap ValAddress Nat) : Store :=
  { voted [⟨"ukrw", .one⟩, ⟨"uusd", .one⟩] [⟨"ukrw", .one⟩] with missCounters := counters }

/-- The ballot on the other denomination counts, without Bob. -/
theorem bob_missed : Missed app staking (incomplete SortedMap.empty) bob := by
  have hballots : (periodBallots app staking (incomplete SortedMap.empty)).entries =
      [("ukrw", [⟨"ukrw", .one, alice, 1⟩, ⟨"ukrw", .one, bob, 1⟩]), ("uusd", [⟨"uusd", .one, alice, 1⟩])] := by
    decide +kernel
  have hget : (periodBallots app staking (incomplete SortedMap.empty)).get "uusd" =
      some [⟨"uusd", .one, alice, 1⟩] :=
    SortedMap.get_eq_some.mpr (hballots ▸ List.mem_cons_of_mem _ List.mem_cons_self)
  refine ⟨"uusd", by decide +kernel, .inr ⟨[⟨"uusd", .one, alice, 1⟩],
    ("ukrw", [⟨"ukrw", .one, alice, 1⟩, ⟨"ukrw", .one, bob, 1⟩]), hget, by decide +kernel, ?_, .inl (by decide)⟩⟩
  rw [hballots]
  exact ⟨List.mem_cons_self, by decide +kernel, by decide +kernel⟩

theorem incomplete_cast (counters : SortedMap ValAddress Nat) :
    ∀ a v, (incomplete counters).votes.get a = some v → Cast app a v :=
  cast_of_voted alice_casts_both bob_casts_ukrw

/-- A counter of `uint64` does not grow for ever. -/
theorem counter_starts_again :
    Missed app staking (incomplete (SortedMap.empty.set bob (2 ^ 64 - 1))) bob ∧
    (∀ a v, (incomplete (SortedMap.empty.set bob (2 ^ 64 - 1))).votes.get a = some v → Cast app a v) ∧
    (updateExchangeRates app byKey staking (incomplete (SortedMap.empty.set bob (2 ^ 64 - 1)))).value.map
      (fun p => getMissCounter (countMisses byKey p (SortedMap.empty.set bob (2 ^ 64 - 1))) bob)
      = some 0 := by
  refine ⟨bob_missed, incomplete_cast _, by decide +kernel⟩

/-- Bob's counter is raised. -/
theorem bob_miss_counted : ∃ p,
    updateExchangeRates app byKey staking (incomplete SortedMap.empty) = .ok p ∧
    getMissCounter (countMisses byKey p SortedMap.empty) bob = 1 := by
  -- one evaluation, in which the texts of the operators are compared once
  have heval : (updateExchangeRates app byKey staking (incomplete SortedMap.empty)).value.map
        (fun p => p.exchangeRates.entries) = some [("ukrw", .one), ("uusd", .one)] ∧
      (activeClaims app staking.maxValidators staking.byPower SortedMap.empty).get bobOperator
        = some ⟨1, 0, 0, bob⟩ := by
    decide +kernel
  obtain ⟨hrun, hclaim⟩ := heval
  obtain ⟨p, hp, _⟩ := Outcome.value_map_eq_some.mp hrun
  refine ⟨p, hp, ?_⟩
  exact ((misses_counted (incomplete_cast _) staking_indexed (by decide +kernel) hp bob).1
    bobOperator _ hclaim rfl).1 bob_missed

end Sample

end Oracle
