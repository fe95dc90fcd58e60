import DoChain.Oracle.Median
import DoChain.Oracle.Priced

/- What a unanimous vote stores.

   All active validators vote the same rates on all vote targets. Then every ballot has
   the same voters with the same powers and one rate (`votesOn_unanimous`), so all count
   or none does, and the reference is the target whose name comes first.

   The rate of the reference is stored as it was voted. Another one is the quotient of
   the reference rate and the cross rate, and both that quotient and the cross rate are
   rounded to 18 digits: `unanimity_iff` says that all rates are stored as they were voted
   exactly if the two divisions give back every rate. -/

namespace Oracle

open Sdk

variable {env : Env} {ord : Orders}

/-! ## Unanimous votes -/

/-- The claims that a period starts with. -/
def Staking.claims (env : Env) (staking : Staking) : ClaimMap :=
  activeClaims env staking.maxValidators staking.byPower SortedMap.empty

/-- The power of the active validators. -/
def Staking.activePower (env : Env) (staking : Staking) : Int :=
  SortedMap.sumOf (fun _ claim => claim.power) (staking.claims env)

/-- There are active validators, and each of them has voted these rates on the vote
targets, and nothing else. -/
structure Unanimous (env : Env) (staking : Staking) (k : Store) (rates : String → LegacyDec) : Prop where
  active : ∃ key claim, (staking.claims env).get key = some claim
  positive : ∀ d, IsTarget k d → (rates d).IsPositive
  voted : ∀ key claim, (staking.claims env).get key = some claim →
    ∃ a vote, k.votes.get a = some vote ∧ vote.voter = key ∧
      ∀ t : DoRateTuple, t ∈ vote.exchangeRateTuples ↔ IsTarget k t.denom ∧ t.exchangeRate = rates t.denom

/-- The voters with a claim, and their power. -/
def activeVoters (claims : ClaimMap) (es : List (ValAddress × AggregateDoRateVote)) :
    List (ValAddress × Int) :=
  es.filterMap (fun e => (claims.get e.2.voter).map (fun claim => (e.1, claim.power)))

theorem activeVoters_cons_none {claims : ClaimMap} {e : ValAddress × AggregateDoRateVote}
    (h : claims.get e.2.voter = none) (es : List (ValAddress × AggregateDoRateVote)) :
    activeVoters claims (e :: es) = activeVoters claims es :=
  List.filterMap_cons_none (by rw [h]; rfl)

theorem activeVoters_cons_some {claims : ClaimMap} {e : ValAddress × AggregateDoRateVote} {claim : Claim}
    (h : claims.get e.2.voter = some claim) (es : List (ValAddress × AggregateDoRateVote)) :
    activeVoters claims (e :: es) = (e.1, claim.power) :: activeVoters claims es :=
  List.filterMap_cons_some (by rw [h]; rfl)

def voteAt (d : String) (r : LegacyDec) (voter : ValAddress × Int) : VoteForTally :=
  ⟨d, r, voter.1, voter.2⟩

/-- Of tuples with distinct denominations, one is on a denomination. -/
theorem filter_denom {ts : List DoRateTuple} (hnd : (ts.map DoRateTuple.denom).Nodup) {t : DoRateTuple}
    (ht : t ∈ ts) : ts.filter (fun u => decide (u.denom = t.denom)) = [t] := by
  induction ts with
  | nil => exact absurd ht List.not_mem_nil
  | cons u rest ih =>
    obtain ⟨hfresh, hnd⟩ := List.nodup_cons.mp hnd
    cases List.mem_cons.mp ht with
    | inl heq =>
      subst heq
      have hnil : rest.filter (fun u => decide (u.denom = t.denom)) = [] := by
        apply List.filter_eq_nil_iff.mpr
        intro u hu heq
        have heq : u.denom = t.denom := of_decide_eq_true heq
        exact hfresh (heq ▸ List.mem_map_of_mem hu)
      rw [List.filter_cons_of_pos (by simp), hnil]
    | inr ht =>
      have hne : u.denom ≠ t.denom := fun heq => hfresh (heq ▸ List.mem_map_of_mem ht)
      rw [List.filter_cons_of_neg (by simpa using hne)]
      exact ih hnd ht

section Votes

variable {staking : Staking} {k : Store} {rates : String → LegacyDec}

/-- The tuples of an active voter. -/
theorem Unanimous.tuples (h : Unanimous env staking k rates)
    (hvotes : ∀ a v, k.votes.get a = some v → Cast env a v) {e : ValAddress × AggregateDoRateVote}
    (he : e ∈ k.votes.entries) {claim : Claim} (hclaim : (staking.claims env).get e.2.voter = some claim)
    (t : DoRateTuple) :
    t ∈ e.2.exchangeRateTuples ↔ IsTarget k t.denom ∧ t.exchangeRate = rates t.denom := by
  have hget : k.votes.get e.1 = some e.2 := SortedMap.get_eq_some.mpr he
  obtain ⟨a, vote, hvote, hvoter, htuples⟩ := h.voted _ _ hclaim
  -- the voter's text is that of its address
  have haddr : a = e.1 := by
    apply env.valBech32.string_injective
    rw [← (hvotes a vote hvote).valid.1, hvoter, (hvotes e.1 e.2 hget).valid.1]
  rw [haddr, hget] at hvote
  rw [Option.some.inj hvote]
  exact htuples t

theorem Unanimous.castVotes_filter (h : Unanimous env staking k rates)
    (hvotes : ∀ a v, k.votes.get a = some v → Cast env a v) {e : ValAddress × AggregateDoRateVote}
    (he : e ∈ k.votes.entries) {claim : Claim} (hclaim : (staking.claims env).get e.2.voter = some claim)
    {d : String} (hd : IsTarget k d) :
    (castVotes (staking.claims env) e).filter (fun v => decide (v.denom = d))
      = [voteAt d (rates d) (e.1, claim.power)] := by
  have hnd := (hvotes e.1 e.2 (SortedMap.get_eq_some.mpr he)).valid.2.1
  have hmem : (⟨d, rates d⟩ : DoRateTuple) ∈ e.2.exchangeRateTuples :=
    (h.tuples hvotes he hclaim ⟨d, rates d⟩).mpr ⟨hd, rfl⟩
  have hfilter : (fun v : VoteForTally => decide (v.denom = d)) ∘ voteForTally e.1 claim.power
      = fun t => decide (t.denom = d) := rfl
  simp only [castVotes, hclaim]
  rw [List.filter_map, hfilter, filter_denom hnd hmem, List.map_singleton, voteForTally, if_pos (h.positive d hd)]
  rfl

/-- A ballot on a target has one vote of each active voter, at the rate of the target. -/
theorem Unanimous.votesOn_eq (h : Unanimous env staking k rates)
    (hvotes : ∀ a v, k.votes.get a = some v → Cast env a v) {d : String} (hd : IsTarget k d) :
    votesOn (staking.claims env) d k.votes.entries
      = (activeVoters (staking.claims env) k.votes.entries).map (voteAt d (rates d)) := by
  have hall : ∀ es : List (ValAddress × AggregateDoRateVote), (∀ e ∈ es, e ∈ k.votes.entries) →
      votesOn (staking.claims env) d es
        = (activeVoters (staking.claims env) es).map (voteAt d (rates d)) := by
    intro es
    induction es with
    | nil => exact fun _ => rfl
    | cons e rest ih =>
      intro hes
      have hrest := ih (fun x hx => hes x (List.mem_cons_of_mem e hx))
      rw [votesOn, List.flatMap_cons, List.filter_append, ← votesOn, hrest]
      cases hclaim : (staking.claims env).get e.2.voter with
      | none =>
        rw [activeVoters_cons_none hclaim]
        simp only [castVotes, hclaim, List.filter_nil, List.nil_append]
      | some claim =>
        rw [h.castVotes_filter hvotes (hes e List.mem_cons_self) hclaim hd, activeVoters_cons_some hclaim]
        rfl
  exact hall _ (fun e he => he)

theorem Unanimous.votesOn_nil (h : Unanimous env staking k rates)
    (hvotes : ∀ a v, k.votes.get a = some v → Cast env a v) {d : String} (hd : ¬ IsTarget k d) :
    votesOn (staking.claims env) d k.votes.entries = [] := by
  by_contra hne
  obtain ⟨v, hv⟩ := List.exists_mem_of_ne_nil _ hne
  obtain ⟨e, he, claim, hclaim, t, ht, hdenom, _⟩ := mem_votesOn hv
  have htarget := ((h.tuples hvotes he hclaim t).mp ht).1
  rw [hdenom] at htarget
  exact hd htarget

theorem Unanimous.voters_ne_nil (h : Unanimous env staking k rates) :
    activeVoters (staking.claims env) k.votes.entries ≠ [] := by
  obtain ⟨key, claim, hclaim⟩ := h.active
  obtain ⟨a, vote, hvote, hvoter, _⟩ := h.voted key claim hclaim
  apply List.ne_nil_of_mem (a := (a, claim.power))
  refine List.mem_filterMap.mpr ⟨(a, vote), SortedMap.get_eq_some.mp hvote, ?_⟩
  rw [show ((a, vote) : ValAddress × AggregateDoRateVote).2.voter = key from hvoter, hclaim]
  rfl

/-- The voters have the power of all active validators. -/
theorem Unanimous.voters_power (h : Unanimous env staking k rates)
    (hvotes : ∀ a v, k.votes.get a = some v → Cast env a v) :
    ((activeVoters (staking.claims env) k.votes.entries).map Prod.snd).sum = staking.activePower env := by
  have hsum : ∀ es : List (ValAddress × AggregateDoRateVote),
      ((activeVoters (staking.claims env) es).map Prod.snd).sum =
        ((es.map (fun e => e.2.voter)).map (fun key =>
          (((staking.claims env).get key).map Claim.power).getD 0)).sum := by
    intro es
    induction es with
    | nil => rfl
    | cons e rest ih =>
      rw [List.map_cons, List.map_cons, List.sum_cons, ← ih]
      cases hclaim : (staking.claims env).get e.2.voter with
      | none =>
        rw [activeVoters_cons_none hclaim]
        exact (Int.zero_add _).symm
      | some claim =>
        rw [activeVoters_cons_some hclaim]
        rfl
  have hcast : ∀ e ∈ k.votes.entries, Cast env e.1 e.2 :=
    fun e he => hvotes e.1 e.2 (SortedMap.get_eq_some.mpr he)
  rw [hsum]
  apply SortedMap.sum_getD_eq (voters_nodup hcast k.votes.keys_nodup)
  intro key claim hclaim
  obtain ⟨a, vote, hvote, hvoter, _⟩ := h.voted key claim hclaim
  exact List.mem_map.mpr ⟨(a, vote), SortedMap.get_eq_some.mp hvote, hvoter⟩

end Votes

/-! ## Ballots at one rate -/

/-- All votes of the ballot are at the rate. -/
def AllAt (r : LegacyDec) (pb : ExchangeRateBallot) : Prop := ∀ v ∈ pb, v.exchangeRate = r

section OneRate

variable {pb : ExchangeRateBallot} {r : LegacyDec}

theorem AllAt.sort {ops : BallotOps} (h : AllAt r pb) : AllAt r (ops.sort pb) :=
  fun v hv => h v ((ops.sort_perm pb).mem_iff.mp hv)

theorem AllAt.weightedMedian_eq (h : AllAt r pb) (hwf : WellFormed pb) : weightedMedian pb = r := by
  have hmedian := weightedMedian_isMedian hwf.bounded hwf.sorted hwf.nonempty
  obtain ⟨v, hv, heq⟩ := List.mem_map.mp hmedian.1.1
  have heq : v.exchangeRate.i = (weightedMedian pb).i := heq
  rw [h v hv] at heq
  exact LegacyDec.le_antisymm heq.ge heq.le

/-- The voters of the ballot have the rate as their reference rate. -/
theorem AllAt.toMap_get (h : AllAt r pb) (hr : r.IsPositive) {v : VoteForTally} (hv : v ∈ pb) :
    (toMap pb).get v.voter = some r := by
  have hfold : ∀ (vs : ExchangeRateBallot) (m : SortedMap ValAddress LegacyDec), AllAt r vs →
      (v ∈ vs ∨ m.get v.voter = some r) →
      (vs.foldl (fun m v => if v.exchangeRate.IsPositive then m.set v.voter v.exchangeRate else m)
        m).get v.voter = some r := by
    intro vs
    induction vs with
    | nil => exact fun m _ hm => hm.resolve_left List.not_mem_nil
    | cons w rest ih =>
      intro m hall hm
      have hw := hall w List.mem_cons_self
      rw [List.foldl_cons, hw, if_pos hr]
      apply ih _ (fun u hu => hall u (List.mem_cons_of_mem w hu))
      rw [SortedMap.get_set]
      by_cases hsame : v.voter = w.voter
      · exact .inr (if_pos hsame)
      · rw [if_neg hsame]
        refine hm.imp_left ?_
        intro hin
        exact (List.mem_cons.mp hin).resolve_left (fun heq => hsame (congrArg VoteForTally.voter heq))
  exact hfold pb SortedMap.empty h (.inl hv)

theorem AllAt.sumSquares_eq (h : AllAt r pb) : (sumSquares r pb : Outcome Unit LegacyDec) = .ok .zero := by
  have hsub : (r.sub r : Outcome Unit LegacyDec) = .ok .zero := by
    refine LegacyDec.check_eq_ok.mpr ⟨?_, ?_⟩
    · rw [Int.sub_self]
      exact LegacyDec.fits_zero
    · rw [Int.sub_self]
      rfl
  unfold sumSquares
  induction pb with
  | nil => rfl
  | cons v rest ih =>
    have hzero : (do
        let square ← LegacyDec.zero.mul .zero
        LegacyDec.zero.add square : Outcome Unit LegacyDec) = .ok .zero := by decide +kernel
    rw [List.foldlM_cons, h v List.mem_cons_self, hsub, Outcome.ok_bind, hzero, Outcome.ok_bind]
    exact ih (fun w hw => h w (List.mem_cons_of_mem v hw))

/-- The sum of a rate and its part in the reward band is in range. -/
def BandFits (rewardBand r : LegacyDec) : Prop :=
  LegacyDec.Fits (r.i + LegacyDec.mulRaw r ⟨rewardBand.i.tdiv 2⟩)

instance (rewardBand r : LegacyDec) : Decidable (BandFits rewardBand r) :=
  inferInstanceAs (Decidable (LegacyDec.Fits _))

/-- Around the one rate of a ballot the spread is its part in the reward band. -/
theorem AllAt.tallyFits_iff {ops : BallotOps} {rewardBand : LegacyDec} (h : AllAt r pb) (hr : 0 ≤ r.i)
    (hband : 0 ≤ rewardBand.i) (hsqrt : ops.sqrtDec .zero = .zero) :
    TallyFits ops pb rewardBand r ↔ BandFits rewardBand r := by
  have hdeviation : standardDeviation ops pb r = .zero := by
    unfold standardDeviation
    split_ifs
    · rfl
    · rw [h.sumSquares_eq]
      show ops.sqrtDec ⟨(0 : Int).tdiv pb.length⟩ = .zero
      rw [Int.zero_tdiv]
      exact hsqrt
  have hspread : ¬ (⟨LegacyDec.mulRaw r ⟨rewardBand.i.tdiv 2⟩⟩ : LegacyDec) < .zero :=
    not_lt.mpr (LegacyDec.mulRaw_nonneg hr (Int.tdiv_nonneg hband (by decide)))
  simp only [TallyFits, spreadAt, hdeviation, if_neg hspread]
  rfl

end OneRate

/-! ## The ballots of a unanimous vote -/

/-- The first of the vote targets. -/
def IsFirst (k : Store) (first : String) : Prop :=
  IsTarget k first ∧ ∀ d, IsTarget k d → first ≤ d

/-- The rate is within half of the last digit of the base divided by the cross rate, which
is the quotient of the two to 18 digits. At half of the digit an even one is taken. -/
def GivenBack (base rate : LegacyDec) : Prop :=
  (rate.i * 10 ^ 18 - 5 * 10 ^ 17 + rate.i % 2) * LegacyDec.quoRaw base rate ≤ base.i * 10 ^ 36 ∧
    base.i * 10 ^ 36 < (rate.i * 10 ^ 18 + 5 * 10 ^ 17 + (1 - rate.i % 2)) * LegacyDec.quoRaw base rate

/-- Every other rate is given back by its cross rate with the first target's, and no sum of
a rate that is tallied and its part in the reward band leaves the range of a decimal. -/
def Recovered (k : Store) (rates : String → LegacyDec) : Prop :=
  ∀ first, IsFirst k first → BandFits k.params.rewardBand (rates first) ∧
    ∀ d, IsTarget k d → d ≠ first → GivenBack (rates first) (rates d) ∧
      BandFits k.params.rewardBand ⟨LegacyDec.quoRaw (rates first) (rates d)⟩

/-- The rate is given back exactly if there is a cross rate and the quotient with it is the
rate. -/
theorem givenBack_iff {base rate : LegacyDec} (hbase : 0 < base.i) (hrate : 0 < rate.i) :
    GivenBack base rate ↔ LegacyDec.quoRaw base rate ≠ 0 ∧
      LegacyDec.quoRaw base ⟨LegacyDec.quoRaw base rate⟩ = rate.i := by
  by_cases hzero : LegacyDec.quoRaw base rate = 0
  · rw [GivenBack, hzero, Int.mul_zero, Int.mul_zero]
    exact iff_of_false (fun h => absurd h.2 (by omega)) (fun h => h.1 rfl)
  · have hpos : 0 < LegacyDec.quoRaw base rate :=
      lt_of_le_of_ne (LegacyDec.quoRaw_nonneg hbase.le hrate.le) (Ne.symm hzero)
    have hback := LegacyDec.quoRaw_eq_iff hbase.le (b := ⟨LegacyDec.quoRaw base rate⟩) hpos hrate
    rw [GivenBack, ← hback]
    exact ⟨fun h => ⟨hzero, h⟩, fun h => h.2⟩

/-- No division of the period leaves the range of a decimal. -/
def DivisionsFit (k : Store) (rates : String → LegacyDec) : Prop :=
  ∀ first, IsFirst k first → ∀ d, IsTarget k d → d ≠ first →
    LegacyDec.Fits (LegacyDec.quoRaw (rates first) (rates d)) ∧
    LegacyDec.Fits (LegacyDec.quoRaw (rates first) ⟨LegacyDec.quoRaw (rates first) (rates d)⟩)

variable (env) in
/-- The ballot of a target. -/
def ballotAt (staking : Staking) (k : Store) (rates : String → LegacyDec) (d : String) :
    ExchangeRateBallot :=
  env.sort ((activeVoters (staking.claims env) k.votes.entries).map (voteAt d (rates d)))

section Ballots

variable {staking : Staking} {k : Store} {rates : String → LegacyDec} {d first : String}

theorem allAt_ballotAt : AllAt (rates d) (ballotAt env staking k rates d) := by
  apply AllAt.sort
  intro v hv
  obtain ⟨voter, _, rfl⟩ := List.mem_map.mp hv
  rfl

/-- The voters of two ballots are the same. -/
theorem mem_ballotAt_voter {v : VoteForTally} (d' : String) (hv : v ∈ ballotAt env staking k rates d) :
    ∃ w ∈ ballotAt env staking k rates d', w.voter = v.voter := by
  obtain ⟨voter, hvoter, rfl⟩ := List.mem_map.mp ((env.sort_perm _).mem_iff.mp hv)
  exact ⟨voteAt d' (rates d') voter, (env.sort_perm _).mem_iff.mpr (List.mem_map_of_mem hvoter), rfl⟩

/-- Every voter has the reference rate, so a vote is at the quotient with it. -/
theorem Unanimous.crossed_eq (h : Unanimous env staking k rates) (hfirst : IsTarget k first)
    (hd : IsTarget k d) {v : VoteForTally} (hv : v ∈ ballotAt env staking k rates d) :
    (toMap (ballotAt env staking k rates first)).get v.voter = some (rates first) ∧
      (crossed (toMap (ballotAt env staking k rates first)) v).exchangeRate
        = ⟨LegacyDec.quoRaw (rates first) (rates d)⟩ := by
  obtain ⟨w, hw, hvoter⟩ := mem_ballotAt_voter first hv
  have hbase := allAt_ballotAt.toMap_get (h.positive first hfirst) hw
  rw [hvoter] at hbase
  refine ⟨hbase, ?_⟩
  have hrate := allAt_ballotAt v hv
  simp only [crossed, hbase, hrate, if_pos (h.positive d hd)]

variable (env) (staking) (k) (rates) in
/-- The reference, if the target is it. -/
def referenceAt (first : String) : Reference := .ofBallot first (ballotAt env staking k rates first)

/-- A ballot as it is tallied is at one rate. -/
theorem Unanimous.allAt_quoted (h : Unanimous env staking k rates) (hfirst : IsTarget k first)
    (hd : IsTarget k d) (hne : d ≠ first) :
    AllAt ⟨LegacyDec.quoRaw (rates first) (rates d)⟩ (quotedBallot env
      (referenceAt env staking k rates first) (d, ballotAt env staking k rates d)) := by
  have hquoted : quotedBallot env (referenceAt env staking k rates first) (d, ballotAt env staking k rates d)
      = env.sort ((ballotAt env staking k rates d).map (crossed (toMap (ballotAt env staking k rates first)))) :=
    if_neg hne
  rw [hquoted]
  apply AllAt.sort
  intro v hv
  obtain ⟨w, hw, rfl⟩ := List.mem_map.mp hv
  exact (h.crossed_eq hfirst hd hw).2

theorem Unanimous.crossFits (h : Unanimous env staking k rates) (hfirst : IsFirst k first)
    (hdiv : DivisionsFit k rates) (hd : IsTarget k d) :
    d ≠ first → ∀ v ∈ ballotAt env staking k rates d,
      CrossFits (toMap (ballotAt env staking k rates first)) v := by
  intro hne v hv base hbase _
  rw [(h.crossed_eq hfirst.1 hd hv).1] at hbase
  rw [← Option.some.inj hbase, allAt_ballotAt v hv]
  exact (hdiv first hfirst d hd hne).1

variable (h : Unanimous env staking k rates) (hvotes : ∀ a v, k.votes.get a = some v → Cast env a v)

include h hvotes

theorem Unanimous.periodBallots_target (hd : IsTarget k d) :
    (periodBallots env staking k).get d = some (ballotAt env staking k rates d) := by
  have hne : (activeVoters (staking.claims env) k.votes.entries).map (voteAt d (rates d)) ≠ [] :=
    fun hnil => h.voters_ne_nil (List.map_eq_nil_iff.mp hnil)
  rw [periodBallots_get (rfl : staking.claims env = _), h.votesOn_eq hvotes hd, if_neg hne]
  rfl

theorem Unanimous.periodBallots_eq {ballot : ExchangeRateBallot}
    (hget : (periodBallots env staking k).get d = some ballot) :
    IsTarget k d ∧ ballot = ballotAt env staking k rates d := by
  by_cases hd : IsTarget k d
  · rw [h.periodBallots_target hvotes hd] at hget
    exact ⟨hd, (Option.some.inj hget).symm⟩
  · rw [periodBallots_get (rfl : staking.claims env = _), h.votesOn_nil hvotes hd, if_pos rfl] at hget
    cases hget

theorem Unanimous.wellFormed (hd : IsTarget k d) : WellFormed (ballotAt env staking k rates d) :=
  (periodBallots_wellFormed hvotes (h.periodBallots_target hvotes hd)).2

theorem Unanimous.power_ballotAt (hd : IsTarget k d) :
    power (ballotAt env staking k rates d) = staking.activePower env := by
  rw [(h.wellFormed hvotes hd).bounded.power_eq, ← h.voters_power hvotes, totalPower, ballotAt,
    ((env.sort_perm _).map VoteForTally.power).sum_eq, List.map_map]
  rfl

/-- Every ballot counts, or none does. -/
theorem Unanimous.passing_iff (hd : IsTarget k d) {threshold : Int} :
    Passing threshold k.tobinTaxes (d, ballotAt env staking k rates d) ↔
      staking.activePower env ≠ 0 ∧ threshold ≤ staking.activePower env := by
  rw [Passing, h.power_ballotAt hvotes hd]
  exact ⟨fun hp => hp.2, fun hp => ⟨hd, hp⟩⟩

/-- The reference is the first target. -/
theorem Unanimous.isReference (hfirst : IsFirst k first) {threshold : Int}
    (hpower : staking.activePower env ≠ 0) (hmeets : threshold ≤ staking.activePower env) :
    IsReference threshold k.tobinTaxes (periodBallots env staking k).entries
      (first, ballotAt env staking k rates first) := by
  refine ⟨SortedMap.get_eq_some.mp (h.periodBallots_target hvotes hfirst.1),
    (h.passing_iff hvotes hfirst.1).mpr ⟨hpower, hmeets⟩, ?_⟩
  intro e he _
  obtain ⟨htarget, hballot⟩ := h.periodBallots_eq hvotes (SortedMap.get_eq_some.mpr he)
  rw [hballot, h.power_ballotAt hvotes htarget, h.power_ballotAt hvotes hfirst.1]
  exact .inr ⟨rfl, hfirst.2 e.1 htarget⟩

theorem Unanimous.wellFormed_quoted (hfirst : IsFirst k first) (hdiv : DivisionsFit k rates)
    (hd : IsTarget k d) : WellFormed (quotedBallot env (referenceAt env staking k rates first)
      (d, ballotAt env staking k rates d)) :=
  quotedBallot_wellFormed (h.wellFormed hvotes hd)
    (fun a base hbase => (toMap_pos _ a base hbase).le) (h.crossFits hfirst hdiv hd)

theorem Unanimous.median_first (hfirst : IsFirst k first) :
    (referenceAt env staking k rates first).median = rates first :=
  allAt_ballotAt.weightedMedian_eq (h.wellFormed hvotes hfirst.1)

/-- The ballot of the first target is tallied as it is. -/
theorem Unanimous.rateFits_first (hfirst : IsFirst k first) {rewardBand : LegacyDec}
    (hband : 0 ≤ rewardBand.i) (hsqrt : env.sqrtDec .zero = .zero) :
    RateFits env (referenceAt env staking k rates first) rewardBand
        (first, ballotAt env staking k rates first) ↔ BandFits rewardBand (rates first) := by
  have hquoted : quotedBallot env (referenceAt env staking k rates first)
      (first, ballotAt env staking k rates first) = ballotAt env staking k rates first := if_pos rfl
  have hpos : 0 ≤ (rates first).i := Int.le_of_lt (h.positive first hfirst.1)
  have hall : AllAt (rates first) (ballotAt env staking k rates first) := allAt_ballotAt
  rw [RateFits, hquoted, hall.weightedMedian_eq (h.wellFormed hvotes hfirst.1),
    hall.tallyFits_iff hpos hband hsqrt]
  refine ⟨fun hfits => hfits.2.1, fun hfits => ⟨fun hne => absurd rfl hne, hfits, fun hne => absurd rfl hne⟩⟩

/-- The ballot of another target is tallied at the cross rate. -/
theorem Unanimous.rateFits_other (hfirst : IsFirst k first) (hdiv : DivisionsFit k rates)
    (hd : IsTarget k d) (hne : d ≠ first) {rewardBand : LegacyDec} (hband : 0 ≤ rewardBand.i)
    (hsqrt : env.sqrtDec .zero = .zero) :
    RateFits env (referenceAt env staking k rates first) rewardBand
        (d, ballotAt env staking k rates d) ↔
      BandFits rewardBand ⟨LegacyDec.quoRaw (rates first) (rates d)⟩ ∧
        LegacyDec.quoRaw (rates first) (rates d) ≠ 0 := by
  have hall := h.allAt_quoted hfirst.1 hd hne
  have hwf := h.wellFormed_quoted hvotes hfirst hdiv hd
  have hpos : 0 ≤ LegacyDec.quoRaw (rates first) (rates d) :=
    LegacyDec.quoRaw_nonneg (Int.le_of_lt (h.positive first hfirst.1)) (Int.le_of_lt (h.positive d hd))
  rw [RateFits, hall.weightedMedian_eq hwf, hall.tallyFits_iff hpos hband hsqrt,
    h.median_first hvotes hfirst]
  refine ⟨fun hfits => ⟨hfits.2.1, (hfits.2.2 hne).1⟩, fun hfits => ⟨?_, hfits.1, fun _ => ⟨hfits.2, ?_⟩⟩⟩
  · exact h.crossFits hfirst hdiv hd
  · exact (hdiv first hfirst d hd hne).2

/-- The rate of a target is the one that was voted, or what two divisions make of it. -/
theorem Unanimous.rateOf_inv (hfirst : IsFirst k first) (hdiv : DivisionsFit k rates) (hd : IsTarget k d)
    {rewardBand rate : LegacyDec} {ws : ExchangeRateBallot}
    (hrate : rateOf env (referenceAt env staking k rates first) rewardBand
      (d, ballotAt env staking k rates d) = .ok (rate, ws)) :
    rate = if d = first then rates d
      else ⟨LegacyDec.quoRaw (rates first) ⟨LegacyDec.quoRaw (rates first) (rates d)⟩⟩ := by
  obtain ⟨_, _, hrate, _⟩ := Oracle.rateOf_inv hrate
  have hwf := h.wellFormed_quoted hvotes hfirst hdiv hd
  by_cases hne : d = first
  · subst hne
    have hquoted : quotedBallot env (referenceAt env staking k rates d) (d, ballotAt env staking k rates d)
        = ballotAt env staking k rates d := if_pos rfl
    have hself : d = (referenceAt env staking k rates d).denom := rfl
    rw [hrate, if_pos hself, if_pos rfl, hquoted]
    exact allAt_ballotAt.weightedMedian_eq (h.wellFormed hvotes hd)
  · have hother : ¬ d = (referenceAt env staking k rates first).denom := hne
    rw [hrate, if_neg hother, if_neg hne, (h.allAt_quoted hfirst.1 hd hne).weightedMedian_eq hwf,
      h.median_first hvotes hfirst]

end Ballots

/-! ## What is stored -/

variable (env) (ord) in
/-- Updating the rates returns, with the rate that was voted for every target. -/
def StoresVoted (staking : Staking) (k : Store) (rates : String → LegacyDec) : Prop :=
  ∃ p, updateExchangeRates env ord staking k = .ok p ∧
    ∀ d, IsTarget k d → p.exchangeRates.get d = some (rates d)

section Stored

variable {staking : Staking} {k : Store} {rates : String → LegacyDec}

theorem exists_isFirst {d : String} (hd : IsTarget k d) : ∃ first, IsFirst k first := by
  cases hentries : k.tobinTaxes.entries with
  | nil =>
    have hmem := SortedMap.mem_keys.mpr hd
    rw [hentries] at hmem
    exact absurd hmem List.not_mem_nil
  | cons e rest =>
    refine ⟨e.1, SortedMap.mem_keys.mp (by rw [hentries]; exact List.mem_cons_self), ?_⟩
    intro d hd
    have hmem := SortedMap.mem_keys.mpr hd
    have hsorted := k.tobinTaxes.sorted
    rw [hentries] at hmem hsorted
    cases List.mem_cons.mp hmem with
    | inl heq => exact heq ▸ le_refl _
    | inr hmem =>
      obtain ⟨x, hx, rfl⟩ := List.mem_map.mp hmem
      exact ((List.pairwise_cons.mp hsorted).1 x hx).le

/-- With power, the arithmetic is in range exactly if it is on every ballot, against the
first target's. -/
theorem Unanimous.withinRange_iff (h : Unanimous env staking k rates)
    (hvotes : ∀ a v, k.votes.get a = some v → Cast env a v)
    (hfits : staking.ThresholdFits k.params)
    (hpower : staking.activePower env ≠ 0)
    (hmeets : staking.threshold k.params ≤ staking.activePower env) :
    WithinRange env staking k ↔ ∀ first, IsFirst k first → ∀ d, IsTarget k d →
      RateFits env (referenceAt env staking k rates first) k.params.rewardBand
        (d, ballotAt env staking k rates d) := by
  refine ⟨?_, ?_⟩
  · intro hrange first hfirst d hd
    have hin := hrange.2 _ (h.isReference hvotes hfirst hpower hmeets) (d, ballotAt env staking k rates d)
      (SortedMap.get_eq_some.mp (h.periodBallots_target hvotes hd))
      ((h.passing_iff hvotes hd).mpr ⟨hpower, hmeets⟩)
    exact (rateInRange_iff (h.wellFormed hvotes hfirst.1) (h.wellFormed hvotes hd)).mp hin
  · intro hall
    refine ⟨hfits, ?_⟩
    intro ref href e he _
    obtain ⟨hd, hballot⟩ := h.periodBallots_eq hvotes (SortedMap.get_eq_some.mpr he)
    obtain ⟨first, hfirst⟩ := exists_isFirst hd
    have heq := href.unique (h.isReference hvotes hfirst hpower hmeets)
    have he' : e = (e.1, ballotAt env staking k rates e.1) := Prod.ext rfl hballot
    rw [heq, he']
    exact (rateInRange_iff (h.wellFormed hvotes hfirst.1) (h.wellFormed hvotes hd)).mpr
      (hall first hfirst e.1 hd)

/-- Without power no ballot counts. -/
theorem Unanimous.not_priced (h : Unanimous env staking k rates)
    (hvotes : ∀ a v, k.votes.get a = some v → Cast env a v) (hpower : staking.activePower env = 0)
    {p : PeriodEnd} (hp : updateExchangeRates env ord staking k = .ok p) (d : String) :
    p.exchangeRates.get d = none := by
  rw [← Option.isNone_iff_eq_none, ← Option.not_isSome, Bool.not_eq_true', ← Bool.not_eq_true,
    (rates_get hvotes hp d).1]
  intro hcounts
  obtain ⟨ballot, hget, hpass⟩ := hcounts
  obtain ⟨hd, rfl⟩ := h.periodBallots_eq hvotes hget
  exact ((h.passing_iff hvotes hd).mp hpass).1 hpower

/-- What is stored where the update returns. -/
theorem Unanimous.rates_eq (h : Unanimous env staking k rates)
    (hvotes : ∀ a v, k.votes.get a = some v → Cast env a v)
    (hpower : staking.activePower env ≠ 0)
    (hmeets : staking.threshold k.params ≤ staking.activePower env) (hdiv : DivisionsFit k rates)
    {p : PeriodEnd} (hp : updateExchangeRates env ord staking k = .ok p) {first d : String}
    (hfirst : IsFirst k first) (hd : IsTarget k d) :
    p.exchangeRates.get d = some (if d = first then rates d
      else ⟨LegacyDec.quoRaw (rates first) ⟨LegacyDec.quoRaw (rates first) (rates d)⟩⟩) := by
  obtain ⟨hpriced, hrate⟩ := rates_get hvotes hp d
  obtain ⟨rate, hget⟩ := Option.isSome_iff_exists.mp (hpriced.mpr ⟨_, h.periodBallots_target hvotes hd,
    (h.passing_iff hvotes hd).mpr ⟨hpower, hmeets⟩⟩)
  obtain ⟨ref, ballot, ws, href, hballot, _, hrateOf⟩ := hrate rate hget
  obtain ⟨_, rfl⟩ := h.periodBallots_eq hvotes hballot
  obtain rfl := href.unique (h.isReference hvotes hfirst hpower hmeets)
  rw [hget, h.rateOf_inv hvotes hfirst hdiv hd hrateOf]

theorem Staking.activePower_nonneg (staking : Staking) : 0 ≤ staking.activePower env := by
  have hclaims := (activeClaims_power env staking.consensusPower_nonneg staking.maxValidators
    SortedMap.empty (by simp)).1
  apply List.sum_map_nonneg
  intro e he
  exact hclaims e.1 e.2 (SortedMap.get_eq_some.mpr he)

theorem fits_of_thresholdVotes {params : Params} {threshold : Int}
    (h : thresholdVotes staking params = .ok threshold) :
    staking.ThresholdFits params ∧
      staking.threshold params = threshold := by
  by_cases hfits : staking.ThresholdFits params
  · rw [thresholdVotes_ok hfits] at h
    exact ⟨hfits, Outcome.ok.inj h⟩
  · rw [thresholdVotes_panic hfits] at h
    cases h

/-- On every ballot the arithmetic is in range and gives the rates back. -/
theorem Unanimous.recovered_iff (h : Unanimous env staking k rates)
    (hvotes : ∀ a v, k.votes.get a = some v → Cast env a v) (hsqrt : env.sqrtDec .zero = .zero)
    (hband : 0 ≤ k.params.rewardBand.i) (hdiv : DivisionsFit k rates) :
    Recovered k rates ↔ ∀ first, IsFirst k first → ∀ d, IsTarget k d →
      RateFits env (referenceAt env staking k rates first) k.params.rewardBand
        (d, ballotAt env staking k rates d) ∧
      (d ≠ first → LegacyDec.quoRaw (rates first) ⟨LegacyDec.quoRaw (rates first) (rates d)⟩
        = (rates d).i) := by
  refine forall_congr' (fun first => forall_congr' (fun hfirst => ?_))
  have hpos := h.positive first hfirst.1
  refine ⟨?_, ?_⟩
  · intro hrec d hd
    by_cases hne : d = first
    · rw [hne]
      exact ⟨(h.rateFits_first hvotes hfirst hband hsqrt).mpr hrec.1, fun hself => absurd rfl hself⟩
    · obtain ⟨hback, hfits⟩ := hrec.2 d hd hne
      obtain ⟨hzero, hrate⟩ := (givenBack_iff hpos (h.positive d hd)).mp hback
      exact ⟨(h.rateFits_other hvotes hfirst hdiv hd hne hband hsqrt).mpr ⟨hfits, hzero⟩, fun _ => hrate⟩
  · intro hall
    refine ⟨(h.rateFits_first hvotes hfirst hband hsqrt).mp (hall first hfirst.1).1, ?_⟩
    intro d hd hne
    obtain ⟨hfits, hrate⟩ := hall d hd
    obtain ⟨hbandFits, hzero⟩ := (h.rateFits_other hvotes hfirst hdiv hd hne hband hsqrt).mp hfits
    exact ⟨(givenBack_iff hpos (h.positive d hd)).mpr ⟨hzero, hrate hne⟩, hbandFits⟩

theorem Unanimous.storesVoted_iff (h : Unanimous env staking k rates) (ord : Orders)
    (hvotes : ∀ a v, k.votes.get a = some v → Cast env a v) (hsqrt : env.sqrtDec .zero = .zero)
    (hband : 0 ≤ k.params.rewardBand.i ∧ k.params.rewardBand ≤ .one) {threshold : Int}
    (hthreshold : thresholdVotes staking k.params = .ok threshold)
    (hmeets : threshold ≤ staking.activePower env) (hdiv : DivisionsFit k rates) :
    StoresVoted env ord staking k rates ↔
      (∀ d, IsTarget k d → 0 < staking.activePower env) ∧ Recovered k rates := by
  obtain ⟨hfits, rfl⟩ := fits_of_thresholdVotes hthreshold
  obtain ⟨hok, hpanic⟩ := updateExchangeRates_cases ord hband.1 hband.2 hvotes
  have hnonneg : 0 ≤ staking.activePower env := staking.activePower_nonneg
  refine ⟨?_, ?_⟩
  · intro hstored
    obtain ⟨p, hp, hrates⟩ := hstored
    have hpower : ∀ d, IsTarget k d → 0 < staking.activePower env := by
      intro d hd
      by_contra hzero
      have hnone := h.not_priced hvotes (by omega) hp d
      rw [hrates d hd] at hnone
      cases hnone
    refine ⟨hpower, (h.recovered_iff hvotes hsqrt hband.1 hdiv).mpr ?_⟩
    intro first hfirst d hd
    have hpos := (hpower d hd).ne'
    have hrange : WithinRange env staking k := by
      by_contra hrange
      obtain ⟨m, hm⟩ := hpanic hrange
      rw [hp] at hm
      cases hm
    refine ⟨(h.withinRange_iff hvotes hfits hpos hmeets).mp hrange first hfirst d hd, ?_⟩
    intro hne
    have hget := h.rates_eq hvotes hpos hmeets hdiv hp hfirst hd
    rw [hrates d hd, if_neg hne] at hget
    exact (congrArg LegacyDec.i (Option.some.inj hget)).symm
  · intro hcond
    obtain ⟨hpower, hrec⟩ := hcond
    have hall := (h.recovered_iff hvotes hsqrt hband.1 hdiv).mp hrec
    by_cases htarget : ∃ d, IsTarget k d
    · obtain ⟨d₀, hd₀⟩ := htarget
      have hpos := (hpower d₀ hd₀).ne'
      obtain ⟨p, hp⟩ := hok ((h.withinRange_iff hvotes hfits hpos hmeets).mpr
        (fun first hfirst d hd => (hall first hfirst d hd).1))
      refine ⟨p, hp, ?_⟩
      intro d hd
      obtain ⟨first, hfirst⟩ := exists_isFirst hd
      rw [h.rates_eq hvotes hpos hmeets hdiv hp hfirst hd]
      split_ifs with hne
      · rfl
      · rw [(hall first hfirst d hd).2 hne]
    · -- without a target there is no ballot
      have hrange : WithinRange env staking k := by
        refine ⟨hfits, ?_⟩
        intro ref href
        exact absurd ⟨ref.1, href.2.1.1⟩ htarget
      obtain ⟨p, hp⟩ := hok hrange
      exact ⟨p, hp, fun d hd => absurd ⟨d, hd⟩ htarget⟩

end Stored

namespace Sample

open Sdk.Sample (alice aliceText aliceOperator)

/-- Alice is the only validator. -/
def loneStaking : Staking :=
  { staking with
    byPower := [validator aliceOperator]
    consensusPower_nonneg := fun v hv => List.mem_singleton.mp hv ▸ Int.one_nonneg
    totalPower_lt := by decide
    totalBondedTokens := 10 ^ 6
    totalBondedTokens_nonneg := by decide }

/-- Alice has voted one on the first denomination and `r` on the second. -/
def lone (r : LegacyDec) : Store :=
  { voted [] [] with votes := SortedMap.empty.set alice ⟨[⟨"ukrw", .one⟩, ⟨"uusd", r⟩], aliceOperator⟩ }

def loneWorld (r : LegacyDec) : World (String → String → Int) :=
  { world (lone r) with staking := loneStaking }

def loneRates (r : LegacyDec) (d : String) : LegacyDec := if d = "uusd" then r else .one

/-- The one vote of Alice that is hashed is at one and at three. -/
def threes : Env :=
  { app with
    parseDecCoin := fun text => if text = "3.0uusd" then .ok ⟨"uusd", .ofInt 3⟩ else parseDecCoin text
    parseDecCoin_valid := by
      intro s c h
      split_ifs at h
      · cases h
        exact ⟨by decide +kernel, by decide⟩
      · exact app.parseDecCoin_valid h
    truncatedHash := fun text =>
      if text = "salt:1.0ukrw,3.0uusd:" ++ aliceOperator then "346dfa1564c6f6a82bb02697dba69a9882917218"
      else "" }

theorem isTarget_lone {r : LegacyDec} {d : String} : IsTarget (lone r) d ↔ d = "ukrw" ∨ d = "uusd" := by
  show (((SortedMap.empty.set "ukrw" LegacyDec.zero).set "uusd" .zero).get d).isSome = true ↔ _
  rw [SortedMap.get_set, SortedMap.get_set, SortedMap.get_empty]
  split_ifs with husd hkrw
  · exact iff_of_true rfl (.inr husd)
  · exact iff_of_true rfl (.inl hkrw)
  · exact iff_of_false (by decide) (fun h => h.elim hkrw husd)

theorem isFirst_lone {r : LegacyDec} {d : String} (h : IsFirst (lone r) d) : d = "ukrw" := by
  cases isTarget_lone.mp h.1 with
  | inl heq => exact heq
  | inr heq =>
    have hle := h.2 "ukrw" (isTarget_lone.mpr (.inl rfl))
    rw [heq] at hle
    exact absurd hle (by decide)

theorem lone_unanimous {env : Env} {r : LegacyDec} (hr : r.IsPositive)
    (hclaims : loneStaking.claims env = SortedMap.empty.set aliceOperator ⟨1, 0, 0, alice⟩) :
    Unanimous env loneStaking (lone r) (loneRates r) := by
  refine ⟨⟨aliceOperator, ⟨1, 0, 0, alice⟩, ?_⟩, ?_, ?_⟩
  · rw [hclaims, SortedMap.get_set_self]
  · intro d _
    unfold loneRates
    split_ifs
    · exact hr
    · decide
  · intro key claim hclaim
    rw [hclaims, SortedMap.get_set, SortedMap.get_empty] at hclaim
    split_ifs at hclaim with hkey
    refine ⟨alice, _, SortedMap.get_set_self _ _ _, hkey.symm, ?_⟩
    intro t
    rw [isTarget_lone, List.mem_cons, List.mem_singleton]
    refine ⟨?_, ?_⟩
    · intro ht
      cases ht with
      | inl heq => exact heq ▸ ⟨.inl rfl, rfl⟩
      | inr heq => exact heq ▸ ⟨.inr rfl, rfl⟩
    · intro ht
      obtain ⟨hdenom, hrate⟩ := ht
      have ht : t = ⟨t.denom, loneRates r t.denom⟩ := by rw [← hrate]
      cases hdenom with
      | inl heq => exact .inl (by rw [ht, heq]; rfl)
      | inr heq => exact .inr (by rw [ht, heq]; rfl)

theorem lone_cast {env : Env} {r : LegacyDec}
    (h : Cast env alice ⟨[⟨"ukrw", .one⟩, ⟨"uusd", r⟩], aliceOperator⟩) :
    ∀ a v, (lone r).votes.get a = some v → Cast env a v := by
  intro a v hget
  rw [lone, SortedMap.get_set, SortedMap.get_empty] at hget
  split_ifs at hget with ha
  rw [ha, ← Option.some.inj hget]
  exact h

theorem divisionsFit_lone {r : LegacyDec}
    (hfits : LegacyDec.Fits (LegacyDec.quoRaw .one r) ∧
      LegacyDec.Fits (LegacyDec.quoRaw .one ⟨LegacyDec.quoRaw .one r⟩)) :
    DivisionsFit (lone r) (loneRates r) := by
  intro first hfirst d hd hne
  obtain rfl := isFirst_lone hfirst
  obtain rfl := (isTarget_lone.mp hd).resolve_left hne
  exact hfits

end Sample

end Oracle
