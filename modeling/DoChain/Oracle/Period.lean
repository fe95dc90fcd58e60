import DoChain.Oracle.Vote

/- The end of a vote period (`x/oracle/abci.go`, `x/oracle/tally.go`,
   `x/oracle/keeper/ballot.go`).

   Correspondence (Go ↔ Lean):
     the claims of `EndBlocker`         ↔ `activeClaims`
     `Keeper.OrganizeBallotByDenom`     ↔ `organizeBallotByDenom`
     `PickReferenceDo`                  ↔ `pickReferenceDo`
     the loop over the ballots          ↔ `updateRate`; what it does with one ballot
                                          is `rateOf`, whatever the others are
     `EndBlocker` up to the stored rates ↔ `updateExchangeRates`

   A map is ranged over in any order, and in another one by each loop: `Orders`. The
   calls of the staking module return no errors.

   `periodBallots_wellFormed` says what the ballots of votes that were cast are like,
   and `pickReferenceDo_spec` which of them are left and which is the reference,
   whatever the order. -/

namespace Oracle

open Sdk

/-- The orders in which the loops of a block range over their maps. -/
structure Orders where
  /-- the sort of the ballots -/
  organize : SortedMap.RangeOrder String ExchangeRateBallot
  /-- the search for the reference -/
  pick : SortedMap.RangeOrder String ExchangeRateBallot
  /-- the update of the rates -/
  rates : SortedMap.RangeOrder String ExchangeRateBallot
  /-- the count of the misses -/
  misses : SortedMap.RangeOrder String Claim
  /-- the denominations that are rewarded -/
  targets : SortedMap.RangeOrder String LegacyDec
  /-- the sum of the weights -/
  weights : SortedMap.RangeOrder String Claim
  /-- the rewards -/
  winners : SortedMap.RangeOrder String Claim

variable (env : Env) (ord : Orders)

/-! ## Organising the ballots -/

/-- The claims of the bonded validators with the most power. -/
def activeClaims : Nat → List Validator → ClaimMap → ClaimMap
  | _, [], claims => claims
  | 0, _, claims => claims
  | n + 1, v :: rest, claims =>
    if v.bonded = false then activeClaims (n + 1) rest claims
    else
      match env.valBech32.accAddressFromBech32 v.operator with
      | .error _ => activeClaims (n + 1) rest claims
      | .ok valAddr =>
        activeClaims n rest (claims.set v.operator ⟨v.consensusPower, 0, 0, valAddr⟩)

/-- An abstention has no power. -/
def voteForTally (valAddr : ValAddress) (power : Int) (t : DoRateTuple) : VoteForTally :=
  ⟨t.denom, t.exchangeRate, valAddr, if t.exchangeRate.IsPositive then power else 0⟩

def addVote (votes : SortedMap String ExchangeRateBallot) (v : VoteForTally) :
    SortedMap String ExchangeRateBallot :=
  votes.set v.denom ((votes.get v.denom).getD [] ++ [v])

/-- The tuples of a vote go to the ballots where the voter is active. -/
def addAggregateVote (claims : ClaimMap) (votes : SortedMap String ExchangeRateBallot)
    (e : ValAddress × AggregateDoRateVote) : SortedMap String ExchangeRateBallot :=
  match claims.get e.2.voter with
  | none => votes
  | some claim => (e.2.exchangeRateTuples.map (voteForTally e.1 claim.power)).foldl addVote votes

def organizeBallotByDenom (votes : SortedMap ValAddress AggregateDoRateVote) (claims : ClaimMap) :
    SortedMap String ExchangeRateBallot :=
  let ballots := votes.entries.foldl (addAggregateVote claims) SortedMap.empty
  (ord.organize.range ballots).foldl (fun ballots e => ballots.set e.1 (env.sort e.2)) ballots

/-! ## Picking the reference -/

/-- What the loop over the ballots has left and found. -/
structure Selection where
  voteTargets : SortedMap String LegacyDec
  voteMap : SortedMap String ExchangeRateBallot
  largestBallotPower : Int
  referenceDo : String

def ballotIsPassing (thresholdVotes : Int) (ballot : ExchangeRateBallot) : Bool :=
  decide (power ballot ≠ 0) && decide (thresholdVotes ≤ power ballot)

def Selection.step (thresholdVotes : Int) (sel : Selection) (e : String × ExchangeRateBallot) :
    Selection :=
  if (sel.voteTargets.get e.1).isNone then { sel with voteMap := sel.voteMap.erase e.1 }
  else if ballotIsPassing thresholdVotes e.2 = false then
    { sel with voteTargets := sel.voteTargets.erase e.1, voteMap := sel.voteMap.erase e.1 }
  else if sel.largestBallotPower < power e.2 ∨ sel.largestBallotPower = 0 then
    { sel with referenceDo := e.1, largestBallotPower := power e.2 }
  else if sel.largestBallotPower = power e.2 ∧ e.1 < sel.referenceDo then
    { sel with referenceDo := e.1 }
  else sel

def Staking.totalBondedPower (staking : Staking) : Int :=
  staking.totalBondedTokens.tdiv staking.powerReduction

def thresholdVotes (staking : Staking) (params : Params) : Outcome SdkError Int := do
  let votes ← params.voteThreshold.mulInt staking.totalBondedPower
  votes.roundInt

def pickReferenceDo (staking : Staking) (params : Params) (voteTargets : SortedMap String LegacyDec)
    (voteMap : SortedMap String ExchangeRateBallot) : Outcome SdkError Selection := do
  let threshold ← thresholdVotes staking params
  .ok ((ord.pick.range voteMap).foldl (Selection.step threshold) ⟨voteTargets, voteMap, 0, ""⟩)

/-! ## Updating the rates -/

/-- The reference ballot, as the other ballots use it. -/
structure Reference where
  denom : String
  rates : SortedMap ValAddress LegacyDec
  median : LegacyDec

def Reference.ofBallot (denom : String) (ballot : ExchangeRateBallot) : Reference :=
  ⟨denom, toMap ballot, weightedMedian ballot⟩

def crossBallot (ref : Reference) (denom : String) (ballot : ExchangeRateBallot) :
    Outcome SdkError ExchangeRateBallot :=
  if denom ≠ ref.denom then toCrossRateWithSort env.toBallotOps ref.rates ballot else .ok ballot

def quoteBack (ref : Reference) (denom : String) (rate : LegacyDec) : Outcome SdkError LegacyDec :=
  if denom ≠ ref.denom then ref.median.quo rate else .ok rate

def updateRate (ref : Reference) (rewardBand : LegacyDec) (acc : SortedMap String LegacyDec × ClaimMap)
    (e : String × ExchangeRateBallot) : Outcome SdkError (SortedMap String LegacyDec × ClaimMap) := do
  let ballot ← crossBallot env ref e.1 e.2
  let (exchangeRate, claims) ← tally env.toBallotOps env.valBech32.string ballot rewardBand acc.2
  let exchangeRate ← quoteBack ref e.1 exchangeRate
  .ok (acc.1.set e.1 exchangeRate, claims)

/-- The rate of a ballot and its winners. -/
def rateOf (ref : Reference) (rewardBand : LegacyDec) (e : String × ExchangeRateBallot) :
    Outcome SdkError (LegacyDec × ExchangeRateBallot) := do
  let ballot ← crossBallot env ref e.1 e.2
  let (median, winners) ← tallied env.toBallotOps ballot rewardBand
  let exchangeRate ← quoteBack ref e.1 median
  .ok (exchangeRate, winners)

theorem updateRate_eq (ref : Reference) (rewardBand : LegacyDec)
    (acc : SortedMap String LegacyDec × ClaimMap) (e : String × ExchangeRateBallot) :
    updateRate env ref rewardBand acc e = (rateOf env ref rewardBand e >>= fun r =>
      .ok (acc.1.set e.1 r.1, r.2.foldl (creditWinner env.valBech32.string) acc.2)) := by
  rw [updateRate, rateOf]
  cases crossBallot env ref e.1 e.2 with
  | ok ballot =>
    simp only [Outcome.ok_bind, tally_eq]
    cases (tallied env.toBallotOps ballot rewardBand : Outcome SdkError _) with
    | ok r =>
      simp only [Outcome.ok_bind]
      cases quoteBack ref e.1 r.1 <;> rfl
    | err e => rfl
    | panic m => rfl
  | err e => rfl
  | panic m => rfl

/-- What the rest of the end of the period works with. -/
structure PeriodEnd where
  exchangeRates : SortedMap String LegacyDec
  claims : ClaimMap
  voteTargets : SortedMap String LegacyDec

/-- The rates of the ballots that are left; the rates of the last period are gone. -/
def updateRates (params : Params) (sel : Selection) (claims : ClaimMap) :
    Outcome SdkError (SortedMap String LegacyDec × ClaimMap) :=
  if sel.referenceDo = "" then .ok (SortedMap.empty, claims)
  else
    let ballotRT := (sel.voteMap.get sel.referenceDo).getD []
    (ord.rates.range sel.voteMap).foldlM
      (updateRate env (.ofBallot sel.referenceDo ballotRT) params.rewardBand)
      (SortedMap.empty, claims)

def updateExchangeRates (staking : Staking) (k : Store) : Outcome SdkError PeriodEnd := do
  let claims := activeClaims env staking.maxValidators staking.byPower SortedMap.empty
  let voteMap := organizeBallotByDenom env ord k.votes claims
  let sel ← pickReferenceDo ord staking k.params k.tobinTaxes voteMap
  let (exchangeRates, claims) ← updateRates env ord k.params sel claims
  .ok ⟨exchangeRates, claims, sel.voteTargets⟩

/-! ## What the ballots hold -/

/-- The ballots of the votes of the period. -/
def periodBallots (staking : Staking) (k : Store) : SortedMap String ExchangeRateBallot :=
  (k.votes.entries.foldl (addAggregateVote
    (activeClaims env staking.maxValidators staking.byPower SortedMap.empty)) SortedMap.empty).mapVals
    env.sort

theorem organize_eq (votes : SortedMap ValAddress AggregateDoRateVote) (claims : ClaimMap) :
    organizeBallotByDenom env ord votes claims =
      (votes.entries.foldl (addAggregateVote claims) SortedMap.empty).mapVals env.sort :=
  ord.organize.foldl_set env.sort _

/-- The staking module finds a validator under its operator address. -/
structure Staking.Indexed (staking : Staking) : Prop where
  operator : ∀ a v, staking.validator a = some v → env.valBech32.accAddressFromBech32 v.operator = .ok a
  byPower : ∀ v ∈ staking.byPower, ∃ a, staking.validator a = some v
  nil : staking.validator [] = none

variable {env} {ord}

/-- The votes that an aggregate vote brings to the ballots. -/
def castVotes (claims : ClaimMap) (e : ValAddress × AggregateDoRateVote) : List VoteForTally :=
  match claims.get e.2.voter with
  | none => []
  | some claim => e.2.exchangeRateTuples.map (voteForTally e.1 claim.power)

/-- The votes on one denomination, in the order of their voters. -/
def votesOn (claims : ClaimMap) (denom : String) (es : List (ValAddress × AggregateDoRateVote)) :
    ExchangeRateBallot :=
  (es.flatMap (castVotes claims)).filter (fun v => decide (v.denom = denom))

theorem get_foldl_addVote (vs : List VoteForTally) (votes : SortedMap String ExchangeRateBallot)
    (denom : String) :
    (vs.foldl addVote votes).get denom =
      if vs.filter (fun v => decide (v.denom = denom)) = [] then votes.get denom
      else some ((votes.get denom).getD [] ++ vs.filter (fun v => decide (v.denom = denom))) := by
  have hpush := SortedMap.get_foldl_push VoteForTally.denom id vs votes denom
  rw [List.map_id] at hpush
  exact hpush

theorem foldl_addAggregateVote (claims : ClaimMap) (es : List (ValAddress × AggregateDoRateVote))
    (votes : SortedMap String ExchangeRateBallot) :
    es.foldl (addAggregateVote claims) votes = (es.flatMap (castVotes claims)).foldl addVote votes := by
  have hstep : addAggregateVote claims = fun votes e => (castVotes claims e).foldl addVote votes := by
    funext votes e
    unfold addAggregateVote castVotes
    cases claims.get e.2.voter <;> rfl
  rw [List.foldl_flatMap, hstep]

/-- A denomination has a ballot if there are votes on it, and the ballot holds them,
sorted. -/
theorem periodBallots_get {staking : Staking} {k : Store} {claims : ClaimMap}
    (hclaims : claims = activeClaims env staking.maxValidators staking.byPower SortedMap.empty)
    (denom : String) :
    (periodBallots env staking k).get denom =
      if votesOn claims denom k.votes.entries = [] then none
      else some (env.sort (votesOn claims denom k.votes.entries)) := by
  rw [periodBallots, ← hclaims, SortedMap.get_mapVals, foldl_addAggregateVote, get_foldl_addVote,
    SortedMap.get_empty, ← votesOn]
  split_ifs <;> rfl

theorem mem_castVotes {claims : ClaimMap} {e : ValAddress × AggregateDoRateVote} {v : VoteForTally}
    (h : v ∈ castVotes claims e) :
    ∃ claim, claims.get e.2.voter = some claim ∧
      ∃ t ∈ e.2.exchangeRateTuples, v = voteForTally e.1 claim.power t := by
  unfold castVotes at h
  cases hclaim : claims.get e.2.voter with
  | none => simp [hclaim] at h
  | some claim =>
    simp only [hclaim] at h
    obtain ⟨t, ht, rfl⟩ := List.mem_map.mp h
    exact ⟨claim, rfl, t, ht, rfl⟩

theorem mem_votesOn {claims : ClaimMap} {denom : String}
    {es : List (ValAddress × AggregateDoRateVote)} {v : VoteForTally}
    (h : v ∈ votesOn claims denom es) :
    ∃ e ∈ es, ∃ claim, claims.get e.2.voter = some claim ∧
      ∃ t ∈ e.2.exchangeRateTuples, t.denom = denom ∧ v = voteForTally e.1 claim.power t := by
  obtain ⟨hmem, hdenom⟩ := List.mem_filter.mp h
  obtain ⟨e, he, hv⟩ := List.mem_flatMap.mp hmem
  obtain ⟨claim, hclaim, t, ht, rfl⟩ := mem_castVotes hv
  exact ⟨e, he, claim, hclaim, t, ht, of_decide_eq_true hdenom, rfl⟩

/-! ## The power of a ballot -/

theorem voteForTally_power {a : ValAddress} {p : Int} {t : DoRateTuple} (hp : 0 ≤ p) :
    0 ≤ (voteForTally a p t).power ∧ (voteForTally a p t).power ≤ p := by
  show 0 ≤ (if _ then p else 0) ∧ (if _ then p else 0) ≤ p
  split_ifs <;> omega

/-- An aggregate vote names a denomination once. -/
theorem totalPower_filter_le {a : ValAddress} {p : Int} (hp : 0 ≤ p) {denom : String}
    {ts : List DoRateTuple} (hnd : (ts.map DoRateTuple.denom).Nodup) :
    totalPower ((ts.map (voteForTally a p)).filter (fun v => decide (v.denom = denom))) ≤ p := by
  induction ts with
  | nil => exact hp
  | cons t rest ih =>
    obtain ⟨hfresh, hnd⟩ := List.nodup_cons.mp hnd
    rw [List.map_cons]
    by_cases hd : t.denom = denom
    · have hnil : (rest.map (voteForTally a p)).filter (fun v => decide (v.denom = denom)) = [] := by
        apply List.filter_eq_nil_iff.mpr
        intro v hv heq
        obtain ⟨t', ht', rfl⟩ := List.mem_map.mp hv
        have heq : t'.denom = denom := of_decide_eq_true heq
        exact hfresh (List.mem_map.mpr ⟨t', ht', heq.trans hd.symm⟩)
      have hsame : (voteForTally a p t).denom = denom := hd
      rw [List.filter_cons_of_pos (by simpa using hsame), hnil]
      have hle := (voteForTally_power (a := a) (t := t) hp).2
      show (voteForTally a p t).power + 0 ≤ p
      omega
    · have hother : (voteForTally a p t).denom ≠ denom := hd
      rw [List.filter_cons_of_neg (by simpa using hother)]
      exact ih hnd

/-- Votes of different validators name different voters. -/
theorem voters_nodup {es : List (ValAddress × AggregateDoRateVote)} (hes : ∀ e ∈ es, Cast env e.1 e.2)
    (hnd : (es.map Prod.fst).Nodup) : (es.map (fun e => e.2.voter)).Nodup := by
  have htexts : es.map (fun e => e.2.voter) = (es.map Prod.fst).map env.valBech32.string := by
    rw [List.map_map]
    exact List.map_congr_left (fun e he => (hes e he).valid.1)
  rw [htexts]
  exact hnd.map env.valBech32.string_injective

/-- The votes on a denomination have no more power than all claims together. -/
theorem totalPower_votesOn_le {claims : ClaimMap} (denom : String)
    {es : List (ValAddress × AggregateDoRateVote)}
    (hclaims : ∀ key claim, claims.get key = some claim → 0 ≤ claim.power)
    (hes : ∀ e ∈ es, Cast env e.1 e.2) (hnd : (es.map Prod.fst).Nodup) :
    totalPower (votesOn claims denom es) ≤ SortedMap.sumOf (fun _ claim => claim.power) claims := by
  have hone : ∀ e ∈ es, totalPower ((castVotes claims e).filter (fun v => decide (v.denom = denom))) ≤
      ((claims.get e.2.voter).map Claim.power).getD 0 := by
    intro e he
    unfold castVotes
    cases hclaim : claims.get e.2.voter with
    | none => exact Int.le_refl 0
    | some claim => exact totalPower_filter_le (hclaims _ _ hclaim) (hes e he).valid.2.1
  calc totalPower (votesOn claims denom es)
      = (es.map (fun e => totalPower
          ((castVotes claims e).filter (fun v => decide (v.denom = denom))))).sum := by
        rw [totalPower, votesOn, List.filter_flatMap, List.map_flatMap, List.flatMap_def,
          List.sum_flatten, List.map_map]
        rfl
    _ ≤ (es.map (fun e => ((claims.get e.2.voter).map Claim.power).getD 0)).sum :=
        List.sum_le_sum hone
    _ = ((es.map (fun e => e.2.voter)).map
          (fun key => ((claims.get key).map Claim.power).getD 0)).sum := by
        rw [List.map_map]
        rfl
    _ ≤ SortedMap.sumOf (fun _ claim => claim.power) claims := SortedMap.sum_getD_le hclaims (voters_nodup hes hnd)

variable (env) in
/-- The claims have no more power than the validators. -/
theorem activeClaims_power {vs : List Validator} (hvs : ∀ v ∈ vs, 0 ≤ v.consensusPower) (n : Nat)
    (claims : ClaimMap) (hclaims : ∀ key claim, claims.get key = some claim → 0 ≤ claim.power) :
    (∀ key claim, (activeClaims env n vs claims).get key = some claim → 0 ≤ claim.power) ∧
    SortedMap.sumOf (fun _ claim => claim.power) (activeClaims env n vs claims) ≤
      SortedMap.sumOf (fun _ claim => claim.power) claims +
        (vs.map Validator.consensusPower).sum := by
  induction vs generalizing n claims with
  | nil =>
    cases n <;> exact ⟨hclaims, by simp [activeClaims]⟩
  | cons v rest ih =>
    have hv := hvs v List.mem_cons_self
    have hrest := fun w hw => hvs w (List.mem_cons_of_mem v hw)
    have hsum : 0 ≤ (rest.map Validator.consensusPower).sum := by
      apply List.sum_map_nonneg
      intro w hw
      exact hrest w hw
    rw [List.map_cons, List.sum_cons]
    cases n with
    | zero =>
      have hstop : activeClaims env 0 (v :: rest) claims = claims := by simp [activeClaims]
      rw [hstop]
      exact ⟨hclaims, by omega⟩
    | succ n =>
      -- a validator that is skipped only adds to the bound
      have hskip := ih hrest (n + 1) claims hclaims
      rw [activeClaims]
      split_ifs with hbonded
      · exact ⟨hskip.1, by omega⟩
      · split
        · exact ⟨hskip.1, by omega⟩
        · rename_i valAddr _
          obtain ⟨hnonneg, hle⟩ := ih hrest n
            (claims.set v.operator ⟨v.consensusPower, 0, 0, valAddr⟩) (by
              intro key claim hget
              rw [SortedMap.get_set] at hget
              split_ifs at hget
              · cases hget
                exact hv
              · exact hclaims key claim hget)
          have hset : SortedMap.sumOf (fun _ claim => claim.power)
                (claims.set v.operator ⟨v.consensusPower, 0, 0, valAddr⟩) +
              ((claims.get v.operator).map Claim.power).getD 0 =
              SortedMap.sumOf (fun _ claim => claim.power) claims + v.consensusPower :=
            SortedMap.sumOf_set (fun _ claim => claim.power) claims v.operator _
          have hold : 0 ≤ ((claims.get v.operator).map Claim.power).getD 0 := by
            cases hget : claims.get v.operator with
            | none => exact Int.le_refl 0
            | some claim => exact hclaims _ _ hget
          exact ⟨hnonneg, by omega⟩

/-- The ballots of votes that were cast are well formed. -/
theorem periodBallots_wellFormed {staking : Staking} {k : Store}
    (hvotes : ∀ a v, k.votes.get a = some v → Cast env a v) {denom : String}
    {ballot : ExchangeRateBallot} (h : (periodBallots env staking k).get denom = some ballot) :
    denom ≠ "" ∧ WellFormed ballot := by
  rw [periodBallots_get rfl] at h
  split_ifs at h with hne
  cases h
  have hes : ∀ e ∈ k.votes.entries, Cast env e.1 e.2 :=
    fun e he => hvotes e.1 e.2 (SortedMap.get_eq_some.mpr he)
  obtain ⟨hclaims, hsum⟩ := activeClaims_power env staking.consensusPower_nonneg
    staking.maxValidators SortedMap.empty (by simp)
  have htotal := totalPower_votesOn_le denom hclaims hes k.votes.keys_nodup
  have hbound := staking.totalPower_lt
  rw [SortedMap.sumOf_empty] at hsum
  refine ⟨?_, ?_⟩
  · -- a vote on it was parsed
    obtain ⟨v, hv⟩ := List.exists_mem_of_ne_nil _ hne
    obtain ⟨e, he, _, _, t, ht, hdenom, _⟩ := mem_votesOn hv
    have hvalid := ((hes e he).valid.2.2 t ht).1
    intro hempty
    rw [hdenom, hempty] at hvalid
    exact absurd hvalid (by decide)
  · refine ⟨InRange.sort ?_, Bounded.sort ⟨?_, by omega⟩, env.sort_sorted _, ?_⟩
    · intro v hv
      obtain ⟨e, he, _, _, t, ht, _, rfl⟩ := mem_votesOn hv
      obtain ⟨_, hnonneg, hbits⟩ := (hes e he).valid.2.2 t ht
      exact ⟨hnonneg, hbits.fits⟩
    · intro v hv
      obtain ⟨e, _, claim, hclaim, t, _, _, rfl⟩ := mem_votesOn hv
      exact (voteForTally_power (hclaims _ _ hclaim)).1
    · intro hnil
      have hperm := env.sort_perm (votesOn
        (activeClaims env staking.maxValidators staking.byPower SortedMap.empty) denom k.votes.entries)
      rw [hnil] at hperm
      exact hne hperm.symm.eq_nil

/-! ## The ballots that are left -/

/-- A ballot that counts: its denomination is a vote target, and its power is not
zero and meets the threshold. -/
def Passing (threshold : Int) (voteTargets : SortedMap String LegacyDec)
    (e : String × ExchangeRateBallot) : Prop :=
  (voteTargets.get e.1).isSome = true ∧ power e.2 ≠ 0 ∧ threshold ≤ power e.2

/-- The ballot with the most power among those that count, and of two with the same
power the one whose name comes first. -/
def IsReference (threshold : Int) (voteTargets : SortedMap String LegacyDec)
    (es : List (String × ExchangeRateBallot)) (ref : String × ExchangeRateBallot) : Prop :=
  ref ∈ es ∧ Passing threshold voteTargets ref ∧
    ∀ e ∈ es, Passing threshold voteTargets e →
      power e.2 < power ref.2 ∨ power e.2 = power ref.2 ∧ ref.1 ≤ e.1

section Selecting

variable {threshold : Int} {targets : SortedMap String LegacyDec}

instance (e : String × ExchangeRateBallot) : Decidable (Passing threshold targets e) :=
  inferInstanceAs (Decidable (_ ∧ _))

theorem Selection.step_eq (threshold : Int) {sel : Selection} {e : String × ExchangeRateBallot}
    (h : sel.voteTargets.get e.1 = targets.get e.1) :
    (Passing threshold targets e →
      (Selection.step threshold sel e).voteTargets = sel.voteTargets ∧
      (Selection.step threshold sel e).voteMap = sel.voteMap ∧
      ((Selection.step threshold sel e).referenceDo,
          (Selection.step threshold sel e).largestBallotPower) =
        if sel.largestBallotPower < power e.2 ∨ sel.largestBallotPower = 0 then (e.1, power e.2)
        else if sel.largestBallotPower = power e.2 ∧ e.1 < sel.referenceDo then
          (e.1, sel.largestBallotPower)
        else (sel.referenceDo, sel.largestBallotPower)) ∧
    (¬ Passing threshold targets e →
      (∀ d, (Selection.step threshold sel e).voteTargets.get d =
        if d = e.1 then none else sel.voteTargets.get d) ∧
      (Selection.step threshold sel e).voteMap = sel.voteMap.erase e.1 ∧
      (Selection.step threshold sel e).referenceDo = sel.referenceDo ∧
      (Selection.step threshold sel e).largestBallotPower = sel.largestBallotPower) := by
  have hpass : Passing threshold targets e ↔
      (sel.voteTargets.get e.1).isNone = false ∧ ballotIsPassing threshold e.2 = true := by
    rw [Passing, ← h, ballotIsPassing, Bool.and_eq_true, decide_eq_true_iff, decide_eq_true_iff]
    cases sel.voteTargets.get e.1 <;> simp
  rw [hpass]
  refine ⟨?_, ?_⟩
  · intro hp
    rw [Selection.step, hp.1, hp.2, if_neg Bool.false_ne_true, if_neg Bool.false_ne_true.symm]
    split_ifs <;> exact ⟨rfl, rfl, rfl⟩
  · intro hp
    cases hnone : (sel.voteTargets.get e.1).isNone with
    | true =>
      rw [Selection.step, hnone, if_pos rfl]
      refine ⟨?_, rfl, rfl, rfl⟩
      intro d
      split_ifs with hd
      · rw [hd]
        exact Option.isNone_iff_eq_none.mp hnone
      · rfl
    | false =>
      have hfail : ballotIsPassing threshold e.2 = false := by
        cases hb : ballotIsPassing threshold e.2 with
        | false => rfl
        | true => exact absurd ⟨hnone, hb⟩ hp
      rw [Selection.step, hnone, hfail, if_neg Bool.false_ne_true, if_pos rfl]
      exact ⟨fun d => SortedMap.get_erase _ _ d, rfl, rfl, rfl⟩

/-- The reference found among the ballots seen so far. -/
def Found (threshold : Int) (targets : SortedMap String LegacyDec)
    (seen : List (String × ExchangeRateBallot)) (ref : String) (largest : Int) : Prop :=
  (largest = 0 ∧ ref = "" ∧ ∀ e ∈ seen, ¬ Passing threshold targets e) ∨
  ∃ ballot, IsReference threshold targets seen (ref, ballot) ∧ largest = power ballot

theorem Found.skip {seen : List (String × ExchangeRateBallot)} {ref : String} {largest : Int}
    (h : Found threshold targets seen ref largest) {e : String × ExchangeRateBallot}
    (he : ¬ Passing threshold targets e) : Found threshold targets (seen ++ [e]) ref largest := by
  have hmem : ∀ x ∈ seen ++ [e], Passing threshold targets x → x ∈ seen := by
    intro x hx hp
    cases List.mem_append.mp hx with
    | inl hx => exact hx
    | inr hx => exact absurd (List.mem_singleton.mp hx ▸ hp) he
  cases h with
  | inl h =>
    refine .inl ⟨h.1, h.2.1, ?_⟩
    intro x hx hp
    exact h.2.2 x (hmem x hx hp) hp
  | inr h =>
    obtain ⟨ballot, ⟨hin, hp, hbest⟩, hpow⟩ := h
    exact .inr ⟨ballot, ⟨List.mem_append_left _ hin, hp,
      fun x hx hpx => hbest x (hmem x hx hpx) hpx⟩, hpow⟩

/-- A ballot that counts is compared with the best one so far. -/
theorem Found.take {seen : List (String × ExchangeRateBallot)} {ref : String} {largest : Int}
    (h : Found threshold targets seen ref largest) {e : String × ExchangeRateBallot}
    (he : Passing threshold targets e) {ref' : String} {largest' : Int}
    (hnext : (ref', largest') =
      if largest < power e.2 ∨ largest = 0 then (e.1, power e.2)
      else if largest = power e.2 ∧ e.1 < ref then (e.1, largest) else (ref, largest)) :
    Found threshold targets (seen ++ [e]) ref' largest' := by
  have hlast : e ∈ seen ++ [e] := List.mem_append_right _ (List.mem_singleton_self e)
  cases h with
  | inl h =>
    rw [if_pos (.inr h.1)] at hnext
    cases hnext
    refine .inr ⟨e.2, ⟨hlast, he, List.forall_mem_append.mpr ⟨?_, List.forall_mem_singleton.mpr ?_⟩⟩, rfl⟩
    · intro x hx hp
      exact absurd hp (h.2.2 x hx)
    · exact fun _ => .inr ⟨rfl, le_rfl⟩
  | inr h =>
    obtain ⟨ballot, ⟨hin, hp, hbest⟩, rfl⟩ := h
    have hne : power ballot ≠ 0 := hp.2.1
    split_ifs at hnext with h₁ h₂
    · -- more power than any before
      cases hnext
      have hlt : power ballot < power e.2 := h₁.resolve_right hne
      refine .inr ⟨e.2, ⟨hlast, he, List.forall_mem_append.mpr ⟨?_, List.forall_mem_singleton.mpr ?_⟩⟩, rfl⟩
      · intro x hx hpx
        left
        cases hbest x hx hpx with
        | inl hlt' => exact hlt'.trans hlt
        | inr heq => exact heq.1 ▸ hlt
      · exact fun _ => .inr ⟨rfl, le_rfl⟩
    · -- the same power and a name that comes before
      cases hnext
      refine .inr ⟨e.2, ⟨hlast, he, List.forall_mem_append.mpr ⟨?_, List.forall_mem_singleton.mpr ?_⟩⟩, h₂.1⟩
      · intro x hx hpx
        cases hbest x hx hpx with
        | inl hlt' => exact .inl (h₂.1 ▸ hlt')
        | inr heq => exact .inr ⟨heq.1.trans h₂.1, h₂.2.le.trans heq.2⟩
      · exact fun _ => .inr ⟨rfl, le_rfl⟩
    · -- the best one stays
      cases hnext
      refine .inr ⟨ballot, ⟨List.mem_append_left _ hin, hp,
        List.forall_mem_append.mpr ⟨hbest, List.forall_mem_singleton.mpr ?_⟩⟩, rfl⟩
      intro _
      rw [not_or, not_lt] at h₁
      cases lt_or_eq_of_le h₁.1 with
      | inl hlt => exact .inl hlt
      | inr heq => exact .inr ⟨heq, not_lt.mp (fun hlt => h₂ ⟨heq.symm, hlt⟩)⟩

/-- What the loop over all ballots leaves and finds, from any point of it on. -/
theorem Selection.foldl_step {es : List (String × ExchangeRateBallot)}
    (hnd : (es.map Prod.fst).Nodup) {seen : List (String × ExchangeRateBallot)} (sel : Selection)
    (htargets : ∀ e ∈ es, sel.voteTargets.get e.1 = targets.get e.1)
    (hfound : Found threshold targets seen sel.referenceDo sel.largestBallotPower) :
    Found threshold targets (seen ++ es) (es.foldl (Selection.step threshold) sel).referenceDo
      (es.foldl (Selection.step threshold) sel).largestBallotPower ∧
    (∀ d b, (es.foldl (Selection.step threshold) sel).voteMap.get d = some b ↔
      sel.voteMap.get d = some b ∧ ∀ e ∈ es, e.1 = d → Passing threshold targets e) ∧
    (∀ d t, (es.foldl (Selection.step threshold) sel).voteTargets.get d = some t ↔
      sel.voteTargets.get d = some t ∧ ∀ e ∈ es, e.1 = d → Passing threshold targets e) := by
  induction es generalizing seen sel with
  | nil =>
    rw [List.append_nil]
    exact ⟨hfound, fun d b => by simp, fun d t => by simp⟩
  | cons e rest ih =>
    obtain ⟨hfresh, hnd⟩ := List.nodup_cons.mp hnd
    obtain ⟨htake, hskip⟩ := Selection.step_eq threshold (htargets e List.mem_cons_self)
    have hother : ∀ e' ∈ rest, e'.1 ≠ e.1 := by
      intro e' he' heq
      exact hfresh (List.mem_map.mpr ⟨e', he', heq⟩)
    rw [List.foldl_cons, List.append_cons seen e rest]
    by_cases hp : Passing threshold targets e
    · obtain ⟨ht, hm, hr⟩ := htake hp
      obtain ⟨hfound', hmap, hleft⟩ := ih hnd _
        (fun e' he' => by rw [ht]; exact htargets e' (List.mem_cons_of_mem e he'))
        (hfound.take hp hr)
      have hall : ∀ d, (∀ e' ∈ rest, e'.1 = d → Passing threshold targets e') ↔
          ∀ e' ∈ e :: rest, e'.1 = d → Passing threshold targets e' := by
        intro d
        rw [List.forall_mem_cons]
        exact ⟨fun h => ⟨fun _ => hp, h⟩, fun h => h.2⟩
      exact ⟨hfound', fun d b => by rw [hmap, hm, hall], fun d t => by rw [hleft, ht, hall]⟩
    · obtain ⟨ht, hm, hr, hl⟩ := hskip hp
      obtain ⟨hfound', hmap, hleft⟩ := ih hnd _
        (fun e' he' => by
          rw [ht e'.1, if_neg (hother e' he')]
          exact htargets e' (List.mem_cons_of_mem e he'))
        (by rw [hr, hl]; exact hfound.skip hp)
      refine ⟨hfound', ?_, ?_⟩
      · intro d b
        rw [hmap, hm, SortedMap.get_erase, List.forall_mem_cons]
        by_cases hd : d = e.1
        · subst hd
          simp [hp]
        · rw [if_neg hd]
          refine and_congr_right (fun _ => ?_)
          exact ⟨fun h => ⟨fun heq => absurd heq.symm hd, h⟩, fun h => h.2⟩
      · intro d t
        rw [hleft, ht, List.forall_mem_cons]
        by_cases hd : d = e.1
        · subst hd
          simp [hp]
        · rw [if_neg hd]
          refine and_congr_right (fun _ => ?_)
          exact ⟨fun h => ⟨fun heq => absurd heq.symm hd, h⟩, fun h => h.2⟩

end Selecting

/-! ## What the reference is -/

/-- The votes a ballot needs, whatever their number. -/
def Staking.threshold (staking : Staking) (params : Params) : Int :=
  LegacyDec.chopPrecisionAndRound (params.voteThreshold.i * staking.totalBondedPower)

/-- The number is an integer of at most 256 bits. -/
def Staking.ThresholdFits (staking : Staking) (params : Params) : Prop :=
  (staking.threshold params).natAbs < 2 ^ 256

instance (staking : Staking) (params : Params) : Decidable (staking.ThresholdFits params) :=
  inferInstanceAs (Decidable ((staking.threshold params).natAbs < 2 ^ 256))

theorem thresholdVotes_ok {staking : Staking} {params : Params} (h : staking.ThresholdFits params) :
    thresholdVotes staking params = .ok (staking.threshold params) := by
  have hmul : (params.voteThreshold.mulInt staking.totalBondedPower : Outcome SdkError LegacyDec)
      = .ok ⟨params.voteThreshold.i * staking.totalBondedPower⟩ :=
    LegacyDec.check_eq_ok.mpr ⟨LegacyDec.fits_of_round_lt h, rfl⟩
  rw [thresholdVotes, hmul, Outcome.ok_bind]
  exact checkInt_eq_ok.mpr ⟨h, rfl⟩

/-- The product overflows, or else the integer it is rounded to. -/
theorem thresholdVotes_panic {staking : Staking} {params : Params} (h : ¬ staking.ThresholdFits params) :
    thresholdVotes staking params = .panic "Int overflow" := by
  rw [thresholdVotes, LegacyDec.mulInt, LegacyDec.check]
  split_ifs
  · rw [Outcome.ok_bind, LegacyDec.roundInt, checkInt]
    exact if_neg h
  · rfl

theorem IsReference.unique {threshold : Int} {targets : SortedMap String LegacyDec}
    {voteMap : SortedMap String ExchangeRateBallot} {r r' : String × ExchangeRateBallot}
    (h : IsReference threshold targets voteMap.entries r)
    (h' : IsReference threshold targets voteMap.entries r') : r = r' := by
  have hname : r.1 = r'.1 := by
    cases h.2.2 r' h'.1 h'.2.1 with
    | inl hlt =>
      cases h'.2.2 r h.1 h.2.1 with
      | inl hlt' => exact absurd hlt' hlt.not_gt
      | inr heq => exact absurd heq.1 hlt.ne'
    | inr heq =>
      cases h'.2.2 r h.1 h.2.1 with
      | inl hlt' => exact absurd heq.1 hlt'.ne'
      | inr heq' => exact le_antisymm heq.2 heq'.2
  have hget := SortedMap.get_eq_some.mpr h.1
  rw [hname, SortedMap.get_eq_some.mpr h'.1] at hget
  exact Prod.ext hname (Option.some.inj hget).symm

/-- What a search for the reference leaves and finds: the ballots that count, the vote
targets but for those whose ballot does not count, and the reference, if a ballot
counts. -/
structure Selected (threshold : Int) (targets : SortedMap String LegacyDec)
    (voteMap : SortedMap String ExchangeRateBallot) (sel : Selection) : Prop where
  ballots_left : ∀ d b, sel.voteMap.get d = some b ↔
    voteMap.get d = some b ∧ Passing threshold targets (d, b)
  targets_left : ∀ d t, sel.voteTargets.get d = some t ↔
    targets.get d = some t ∧ ∀ b, voteMap.get d = some b → Passing threshold targets (d, b)
  reference : (sel.referenceDo = "" ∧ ∀ e ∈ voteMap.entries, ¬ Passing threshold targets e) ∨
    ∃ ballot, IsReference threshold targets voteMap.entries (sel.referenceDo, ballot)

/-- Whatever the order, one search leaves and finds what another does. -/
theorem Selected.agree {threshold : Int} {targets : SortedMap String LegacyDec}
    {voteMap : SortedMap String ExchangeRateBallot} {sel sel' : Selection}
    (h : Selected threshold targets voteMap sel) (h' : Selected threshold targets voteMap sel') :
    sel.voteMap = sel'.voteMap ∧ sel.voteTargets = sel'.voteTargets ∧
      sel.referenceDo = sel'.referenceDo := by
  refine ⟨?_, ?_, ?_⟩
  · apply SortedMap.ext_get
    intro d
    apply Option.ext
    intro b
    rw [h.ballots_left, h'.ballots_left]
  · apply SortedMap.ext_get
    intro d
    apply Option.ext
    intro t
    rw [h.targets_left, h'.targets_left]
  · cases h.reference with
    | inl hnone =>
      cases h'.reference with
      | inl hnone' => rw [hnone.1, hnone'.1]
      | inr href' =>
        obtain ⟨ballot, hr⟩ := href'
        exact absurd hr.2.1 (hnone.2 _ hr.1)
    | inr href =>
      obtain ⟨ballot, hr⟩ := href
      cases h'.reference with
      | inl hnone' => exact absurd hr.2.1 (hnone'.2 _ hr.1)
      | inr href' =>
        obtain ⟨ballot', hr'⟩ := href'
        exact congrArg Prod.fst (hr.unique hr')

theorem pickReferenceDo_spec (ord : Orders) {staking : Staking} {params : Params}
    (targets : SortedMap String LegacyDec) (voteMap : SortedMap String ExchangeRateBallot)
    (hfits : staking.ThresholdFits params) :
    ∃ sel, pickReferenceDo ord staking params targets voteMap = .ok sel ∧
      Selected (staking.threshold params) targets voteMap sel := by
  have hperm := ord.pick.perm voteMap
  have hstart : Found (staking.threshold params) targets [] "" 0 := .inl ⟨rfl, rfl, by simp⟩
  obtain ⟨hfound, hmap, hleft⟩ := Selection.foldl_step ord.pick.keys_nodup
    ⟨targets, voteMap, 0, ""⟩ (fun _ _ => rfl) hstart
  -- the loop visits the one ballot of a denomination
  have hvisit : ∀ d, (∀ e ∈ ord.pick.range voteMap, e.1 = d →
      Passing (staking.threshold params) targets e) ↔
      ∀ b, voteMap.get d = some b → Passing (staking.threshold params) targets (d, b) := by
    intro d
    refine ⟨?_, ?_⟩
    · intro hall b hget
      exact hall (d, b) (SortedMap.RangeOrder.mem_range.mpr hget) rfl
    · intro hall e he hd
      subst hd
      exact hall e.2 (SortedMap.RangeOrder.mem_range.mp he)
  refine ⟨_, by rw [pickReferenceDo, thresholdVotes_ok hfits]; rfl, ?_, ?_, ?_⟩
  · intro d b
    rw [hmap, hvisit]
    refine and_congr_right (fun hget => ?_)
    refine ⟨?_, ?_⟩
    · intro hall
      exact hall b hget
    · intro hp b' hget'
      rw [show voteMap.get d = some b from hget] at hget'
      cases hget'
      exact hp
  · intro d t
    rw [hleft, hvisit]
  · rw [List.nil_append] at hfound
    cases hfound with
    | inl hnone => exact .inl ⟨hnone.2.1, fun e he => hnone.2.2 e (hperm.mem_iff.mpr he)⟩
    | inr href =>
      obtain ⟨ballot, ⟨hin, hp, hbest⟩, _⟩ := href
      exact .inr ⟨ballot, hperm.mem_iff.mp hin, hp,
        fun e he hpe => hbest e (hperm.mem_iff.mpr he) hpe⟩

end Oracle
