import DoChain.Oracle.Misses
import DoChain.Oracle.Unanimity

/- What a minority of the voting power can do to the rates of a vote period.

   Correspondence (Go ↔ Lean):
   - `EndBlocker` (`x/oracle/abci.go`)                 ↔ `endBlocker`
   - `PickReferenceDo`, `Tally` (`x/oracle/tally.go`)  ↔ `IsReference`, `weightedMedian`
   - `ToCrossRateWithSort` (`x/oracle/types/ballot.go`) ↔ `quotedBallot`

   The active validators are divided by their operator address, in honest ones and others.
   An honest one votes on every target, at a rate between two bounds for the target; the
   others vote as they like, or not at all. In a ballot on a target the honest votes have
   all the honest power (`HonestVotes.power_honest`) and the other votes at most the power
   of the others (`powerIn_ballot_le`), and a conversion to cross rates takes power from the
   others only (`HonestVotes.crossed_eq`). A median is then between the bounds
   (`WeightedMedian.IsMedian.within`), and the stored rates are between what the code makes
   of the bounds. -/

namespace Oracle

open Sdk

variable {env : Env} {ord : Orders}

/-! ## The power of a class of validators -/

/-- The claims of the validators in a class. -/
def ClaimMap.only (p : String → Prop) [DecidablePred p] (claims : ClaimMap) : ClaimMap :=
  claims.filterMap (fun key claim => if p key then some claim else none)

variable (env) in
/-- The power of the active validators in a class. -/
def Staking.powerOf (staking : Staking) (p : String → Prop) [DecidablePred p] : Int :=
  SortedMap.sumOf (fun _ claim => claim.power) (ClaimMap.only p (staking.claims env))

variable (env) in
/-- The power in a ballot of the votes of a class. -/
def powerIn (p : String → Prop) [DecidablePred p] (pb : ExchangeRateBallot) : Int :=
  WeightedMedian.weight VoteForTally.power (fun v => p (env.valBech32.string v.voter)) pb

section Classes

variable {p : String → Prop} [DecidablePred p] {claims : ClaimMap}
  {es : List (ValAddress × AggregateDoRateVote)} {d : String}

theorem only_get_eq_some {key : String} {claim : Claim} :
    (ClaimMap.only p claims).get key = some claim ↔ claims.get key = some claim ∧ p key := by
  rw [ClaimMap.only, SortedMap.get_filterMap]
  cases claims.get key with
  | none => simp
  | some c =>
    rw [Option.bind_some]
    split_ifs with hp <;> simp [hp]

theorem castVotes_filter_voter {e : ValAddress × AggregateDoRateVote} (he : Cast env e.1 e.2) :
    (castVotes claims e).filter (fun v => decide (p (env.valBech32.string v.voter)))
      = castVotes (ClaimMap.only p claims) e := by
  have hvoter : ∀ v ∈ castVotes claims e, env.valBech32.string v.voter = e.2.voter := by
    intro v hv
    obtain ⟨claim, _, t, _, rfl⟩ := mem_castVotes hv
    exact he.valid.1.symm
  by_cases hp : p e.2.voter
  · have hsame : (ClaimMap.only p claims).get e.2.voter = claims.get e.2.voter := by
      apply Option.ext
      intro claim
      rw [only_get_eq_some]
      exact and_iff_left hp
    rw [List.filter_eq_self.mpr (fun v hv => by simpa [hvoter v hv] using hp), castVotes, castVotes, hsame]
  · have hnone : (ClaimMap.only p claims).get e.2.voter = none := by
      apply Option.eq_none_iff_forall_ne_some.mpr
      intro claim hget
      exact hp (only_get_eq_some.mp hget).2
    rw [List.filter_eq_nil_iff.mpr (fun v hv => by simpa [hvoter v hv] using hp), castVotes, hnone]

/-- The votes of a class on a denomination are those that its own claims bring. -/
theorem votesOn_filter_voter (hes : ∀ e ∈ es, Cast env e.1 e.2) :
    (votesOn claims d es).filter (fun v => decide (p (env.valBech32.string v.voter)))
      = votesOn (ClaimMap.only p claims) d es := by
  induction es with
  | nil => rfl
  | cons e rest ih =>
    have hrest := ih (fun x hx => hes x (List.mem_cons_of_mem e hx))
    have hone : (castVotes claims e).filter (fun v => decide (p (env.valBech32.string v.voter)))
        = castVotes (ClaimMap.only p claims) e := castVotes_filter_voter (hes e List.mem_cons_self)
    rw [votesOn, List.flatMap_cons, List.filter_append, List.filter_append, ← votesOn, hrest,
      List.filter_filter, votesOn, votesOn, List.flatMap_cons, List.filter_append, ← hone, List.filter_filter]
    simp only [Bool.and_comm]

theorem powerIn_votesOn (hes : ∀ e ∈ es, Cast env e.1 e.2) :
    powerIn env p (votesOn claims d es) = totalPower (votesOn (ClaimMap.only p claims) d es) := by
  rw [← votesOn_filter_voter hes]
  rfl

theorem cast_entries {votes : SortedMap ValAddress AggregateDoRateVote}
    (hvotes : ∀ a v, votes.get a = some v → Cast env a v) : ∀ e ∈ votes.entries, Cast env e.1 e.2 :=
  fun e he => hvotes e.1 e.2 (SortedMap.get_eq_some.mpr he)

theorem claims_power_nonneg (env : Env) (staking : Staking) :
    ∀ key claim, (staking.claims env).get key = some claim → 0 ≤ claim.power :=
  (activeClaims_power env staking.consensusPower_nonneg staking.maxValidators SortedMap.empty (by simp)).1

/-- A period's ballot on a denomination, and the power of a class in it. -/
theorem powerIn_ballot {staking : Staking} {k : Store} {ballot : ExchangeRateBallot}
    (hvotes : ∀ a v, k.votes.get a = some v → Cast env a v)
    (hget : (periodBallots env staking k).get d = some ballot) :
    powerIn env p ballot = totalPower (votesOn (ClaimMap.only p (staking.claims env)) d k.votes.entries) := by
  rw [periodBallots_get (rfl : staking.claims env = _)] at hget
  split_ifs at hget
  rw [← Option.some.inj hget, powerIn, WeightedMedian.weight_perm (env.sort_perm _)]
  exact powerIn_votesOn (cast_entries hvotes)

/-- The votes of a class have no more power than the class. -/
theorem powerIn_ballot_le {staking : Staking} {k : Store} {ballot : ExchangeRateBallot}
    (hvotes : ∀ a v, k.votes.get a = some v → Cast env a v)
    (hget : (periodBallots env staking k).get d = some ballot) :
    powerIn env p ballot ≤ staking.powerOf env p := by
  rw [powerIn_ballot hvotes hget]
  apply totalPower_votesOn_le d _ (cast_entries hvotes) k.votes.keys_nodup
  intro key claim hclaim
  exact claims_power_nonneg env staking key claim (only_get_eq_some.mp hclaim).1

/-- Where every validator with a claim has a positive rate on a denomination, all their power
is in the votes on it. -/
theorem totalPower_votesOn_eq (hes : ∀ e ∈ es, Cast env e.1 e.2) (hnd : (es.map Prod.fst).Nodup)
    (hall : ∀ key claim, claims.get key = some claim → ∃ e ∈ es, e.2.voter = key)
    (hrates : ∀ e ∈ es, ∀ claim, claims.get e.2.voter = some claim →
      ∃ r : LegacyDec, r.IsPositive ∧ ⟨d, r⟩ ∈ e.2.exchangeRateTuples) :
    totalPower (votesOn claims d es) = SortedMap.sumOf (fun _ claim => claim.power) claims := by
  have hone : ∀ e ∈ es, totalPower ((castVotes claims e).filter (fun v => decide (v.denom = d))) =
      ((claims.get e.2.voter).map Claim.power).getD 0 := by
    intro e he
    cases hclaim : claims.get e.2.voter with
    | none =>
      rw [castVotes, hclaim]
      rfl
    | some claim =>
      obtain ⟨r, hr, ht⟩ := hrates e he claim hclaim
      have hfilter : (fun v : VoteForTally => decide (v.denom = d)) ∘ voteForTally e.1 claim.power
          = fun t => decide (t.denom = d) := rfl
      simp only [castVotes, hclaim]
      rw [List.filter_map, hfilter, filter_denom (hes e he).valid.2.1 ht, List.map_singleton, voteForTally,
        if_pos hr]
      exact Int.add_zero claim.power
  calc totalPower (votesOn claims d es)
      = (es.map (fun e => totalPower
          ((castVotes claims e).filter (fun v => decide (v.denom = d))))).sum := by
        rw [totalPower, votesOn, List.filter_flatMap, List.map_flatMap, List.flatMap_def,
          List.sum_flatten, List.map_map]
        rfl
    _ = (es.map (fun e => ((claims.get e.2.voter).map Claim.power).getD 0)).sum :=
        congrArg List.sum (List.map_congr_left hone)
    _ = ((es.map (fun e => e.2.voter)).map
          (fun key => ((claims.get key).map Claim.power).getD 0)).sum := by
        rw [List.map_map]
        rfl
    _ = SortedMap.sumOf (fun _ claim => claim.power) claims := by
        apply SortedMap.sum_getD_eq (voters_nodup hes hnd)
        intro key claim hclaim
        obtain ⟨e, he, rfl⟩ := hall key claim hclaim
        exact List.mem_map_of_mem he

end Classes

/-! ## Honest votes -/

/-- Each active validator of a class has voted on every target, and always between the
bounds of the denomination, which are positive for a target. -/
structure HonestVotes (env : Env) (staking : Staking) (k : Store) (honest : String → Prop)
    (low high : String → LegacyDec) : Prop where
  positive : ∀ d, IsTarget k d → (low d).IsPositive
  voted : ∀ key claim, (staking.claims env).get key = some claim → honest key →
    ∃ a vote, k.votes.get a = some vote ∧ vote.voter = key ∧
      (∀ d, IsTarget k d → ∃ r, ⟨d, r⟩ ∈ vote.exchangeRateTuples) ∧
      ∀ t ∈ vote.exchangeRateTuples, low t.denom ≤ t.exchangeRate ∧ t.exchangeRate ≤ high t.denom

section Honest

variable {staking : Staking} {k : Store} {honest : String → Prop} [DecidablePred honest]
  {low high : String → LegacyDec} {d : String} {ballot : ExchangeRateBallot}

variable (h : HonestVotes env staking k honest low high)
  (hvotes : ∀ a v, k.votes.get a = some v → Cast env a v)

include h hvotes

omit [DecidablePred honest] in
/-- The vote of an honest voter is the one that was stored for it. -/
theorem HonestVotes.tuples {e : ValAddress × AggregateDoRateVote} (he : e ∈ k.votes.entries) {claim : Claim}
    (hclaim : (staking.claims env).get e.2.voter = some claim) (hhonest : honest e.2.voter) :
    (∀ d, IsTarget k d → ∃ r, ⟨d, r⟩ ∈ e.2.exchangeRateTuples) ∧
      ∀ t ∈ e.2.exchangeRateTuples, low t.denom ≤ t.exchangeRate ∧ t.exchangeRate ≤ high t.denom := by
  have hget : k.votes.get e.1 = some e.2 := SortedMap.get_eq_some.mpr he
  obtain ⟨a, vote, hvote, hvoter, htuples⟩ := h.voted _ _ hclaim hhonest
  have haddr : a = e.1 := by
    apply env.valBech32.string_injective
    rw [← (hvotes a vote hvote).valid.1, hvoter, (hvotes e.1 e.2 hget).valid.1]
  rw [haddr, hget] at hvote
  rw [Option.some.inj hvote]
  exact htuples

/-- The honest votes on a target have all the honest power. -/
theorem HonestVotes.power_votesOn (hd : IsTarget k d) :
    totalPower (votesOn (ClaimMap.only honest (staking.claims env)) d k.votes.entries)
      = staking.powerOf env honest := by
  apply totalPower_votesOn_eq (cast_entries hvotes) k.votes.keys_nodup
  · intro key claim hclaim
    obtain ⟨hclaim, hhonest⟩ := only_get_eq_some.mp hclaim
    obtain ⟨a, vote, hvote, hvoter, _⟩ := h.voted key claim hclaim hhonest
    exact ⟨(a, vote), SortedMap.get_eq_some.mp hvote, hvoter⟩
  · intro e he claim hclaim
    obtain ⟨hclaim, hhonest⟩ := only_get_eq_some.mp hclaim
    obtain ⟨hall, hbounds⟩ := h.tuples hvotes he hclaim hhonest
    obtain ⟨r, hr⟩ := hall d hd
    exact ⟨r, lt_of_lt_of_le (h.positive d hd) (hbounds _ hr).1, hr⟩

theorem HonestVotes.power_honest (hd : IsTarget k d)
    (hget : (periodBallots env staking k).get d = some ballot) :
    powerIn env honest ballot = staking.powerOf env honest := by
  rw [powerIn_ballot hvotes hget]
  exact h.power_votesOn hvotes hd

omit [DecidablePred honest] in
/-- A vote of an honest voter in a ballot is one of the rates that were stored for it. -/
theorem HonestVotes.entry (hget : (periodBallots env staking k).get d = some ballot) {v : VoteForTally}
    (hv : v ∈ ballot) (hhonest : honest (env.valBech32.string v.voter)) :
    ∃ e ∈ k.votes.entries, ∃ claim, (staking.claims env).get e.2.voter = some claim ∧
      (∃ t ∈ e.2.exchangeRateTuples, t.denom = d ∧ v = voteForTally e.1 claim.power t) ∧
      (∀ d, IsTarget k d → ∃ r, ⟨d, r⟩ ∈ e.2.exchangeRateTuples) ∧
      ∀ t ∈ e.2.exchangeRateTuples, low t.denom ≤ t.exchangeRate ∧ t.exchangeRate ≤ high t.denom := by
  rw [periodBallots_get (rfl : staking.claims env = _)] at hget
  split_ifs at hget
  rw [← Option.some.inj hget, (env.sort_perm _).mem_iff] at hv
  obtain ⟨e, he, claim, hclaim, t, ht, hdenom, rfl⟩ := mem_votesOn hv
  have hvoter : env.valBech32.string e.1 = e.2.voter := (cast_entries hvotes e he).valid.1.symm
  have hhonest : honest e.2.voter := hvoter ▸ hhonest
  exact ⟨e, he, claim, hclaim, ⟨t, ht, hdenom, rfl⟩, h.tuples hvotes he hclaim hhonest⟩

omit [DecidablePred honest] in
/-- The votes of an honest voter are between the bounds. -/
theorem HonestVotes.bounds (hget : (periodBallots env staking k).get d = some ballot) {v : VoteForTally}
    (hv : v ∈ ballot) (hhonest : honest (env.valBech32.string v.voter)) :
    low d ≤ v.exchangeRate ∧ v.exchangeRate ≤ high d := by
  obtain ⟨e, _, claim, _, ⟨t, ht, rfl, rfl⟩, _, hbounds⟩ := h.entry hvotes hget hv hhonest
  exact hbounds t ht

omit [DecidablePred honest] in
/-- An honest voter has voted on every other target too. -/
theorem HonestVotes.exists_vote {d' : String} {ballot' : ExchangeRateBallot} (hd' : IsTarget k d')
    (hget : (periodBallots env staking k).get d = some ballot)
    (hget' : (periodBallots env staking k).get d' = some ballot') {v : VoteForTally} (hv : v ∈ ballot)
    (hhonest : honest (env.valBech32.string v.voter)) :
    ∃ v' ∈ ballot', v'.voter = v.voter ∧ v'.exchangeRate.IsPositive := by
  obtain ⟨e, he, claim, hclaim, ⟨t, _, _, rfl⟩, hall, hbounds⟩ := h.entry hvotes hget hv hhonest
  obtain ⟨r, hr⟩ := hall d' hd'
  rw [periodBallots_get (rfl : staking.claims env = _)] at hget'
  split_ifs at hget'
  refine ⟨voteForTally e.1 claim.power ⟨d', r⟩, ?_, rfl, lt_of_lt_of_le (h.positive d' hd') (hbounds _ hr).1⟩
  rw [← Option.some.inj hget', (env.sort_perm _).mem_iff]
  refine List.mem_filter.mpr ⟨List.mem_flatMap.mpr ⟨e, he, ?_⟩, decide_eq_true rfl⟩
  simp only [castVotes, hclaim]
  exact List.mem_map_of_mem hr

end Honest

/-! ## Medians -/

section Medians

variable {honest : String → Prop} [DecidablePred honest] {pb : ExchangeRateBallot}

/-- The honest votes outweigh the others, by one unit more than a strict majority: half of the
power is rounded down. -/
def Outweighs (env : Env) (honest : String → Prop) [DecidablePred honest] (pb : ExchangeRateBallot) : Prop :=
  powerIn env (fun key => ¬ honest key) pb + 2 ≤ powerIn env honest pb

theorem Outweighs.median_within {a b : LegacyDec} (h : Outweighs env honest pb) (hwf : WellFormed pb)
    (hbounds : ∀ v ∈ pb, honest (env.valBech32.string v.voter) → a ≤ v.exchangeRate ∧ v.exchangeRate ≤ b) :
    a ≤ weightedMedian pb ∧ weightedMedian pb ≤ b := by
  have hmedian := weightedMedian_isMedian hwf.bounded hwf.sorted hwf.nonempty
  have hsum : powerIn env honest pb + powerIn env (fun key => ¬ honest key) pb = totalPower pb :=
    WeightedMedian.weight_add_not pb
  have hothers : 0 ≤ powerIn env (fun key => ¬ honest key) pb := WeightedMedian.weight_nonneg hwf.bounded.1
  unfold Outweighs at h
  apply WeightedMedian.IsMedian.within hmedian (fun v => honest (env.valBech32.string v.voter))
    hwf.bounded.1 hbounds
  · show powerIn env (fun key => ¬ honest key) pb < _
    rw [Int.tdiv_eq_ediv_of_nonneg (by omega)]
    omega
  · show _ ≤ powerIn env honest pb
    rw [Int.tdiv_eq_ediv_of_nonneg (by omega)]
    omega

/-- The reference rate of a voter is that of one of its votes. -/
theorem toMap_mem {a : ValAddress} {base : LegacyDec} (h : (toMap pb).get a = some base) :
    ∃ v ∈ pb, v.voter = a ∧ v.exchangeRate = base := by
  have hfold : ∀ (vs : ExchangeRateBallot) (m : SortedMap ValAddress LegacyDec),
      (vs.foldl (fun m v => if v.exchangeRate.IsPositive then m.set v.voter v.exchangeRate else m)
        m).get a = some base → m.get a = some base ∨ ∃ v ∈ vs, v.voter = a ∧ v.exchangeRate = base := by
    intro vs
    induction vs with
    | nil => exact fun m hm => .inl hm
    | cons v rest ih =>
      intro m hget
      rw [List.foldl_cons] at hget
      rcases ih _ hget with hm | ⟨w, hw, heq⟩
      · split_ifs at hm with hpos
        · rw [SortedMap.get_set] at hm
          split_ifs at hm with ha
          · exact .inr ⟨v, List.mem_cons_self, ha.symm, Option.some.inj hm⟩
          · exact .inl hm
        · exact .inl hm
      · exact .inr ⟨w, List.mem_cons_of_mem v hw, heq⟩
  exact (hfold pb SortedMap.empty h).resolve_left (by simp)

/-- A voter with a positive rate has a reference rate. -/
theorem toMap_isSome {v : VoteForTally} (hv : v ∈ pb) (hpos : v.exchangeRate.IsPositive) :
    ((toMap pb).get v.voter).isSome = true := by
  have hfold : ∀ (vs : ExchangeRateBallot) (m : SortedMap ValAddress LegacyDec),
      (v ∈ vs ∨ (m.get v.voter).isSome = true) →
      ((vs.foldl (fun m v => if v.exchangeRate.IsPositive then m.set v.voter v.exchangeRate else m)
        m).get v.voter).isSome = true := by
    intro vs
    induction vs with
    | nil => exact fun m hm => hm.resolve_left List.not_mem_nil
    | cons w rest ih =>
      intro m hm
      rw [List.foldl_cons]
      apply ih
      rcases hm with hin | hm
      · rcases List.mem_cons.mp hin with rfl | hin
        · exact .inr (by simp [hpos])
        · exact .inl hin
      · refine .inr ?_
        split_ifs
        · rw [SortedMap.get_set]
          split_ifs
          · rfl
          · exact hm
        · exact hm
  exact hfold pb SortedMap.empty (.inl hv)

theorem crossed_power_le (bases : SortedMap ValAddress LegacyDec) {v : VoteForTally} (hv : 0 ≤ v.power) :
    (crossed bases v).power ≤ v.power := by
  unfold crossed
  cases bases.get v.voter with
  | none => exact hv
  | some base =>
    dsimp only
    split_ifs
    · exact Int.le_refl v.power
    · exact hv

/-- A conversion in which the honest votes keep their power leaves them the majority. -/
theorem Outweighs.crossed {bases : SortedMap ValAddress LegacyDec} (h : Outweighs env honest pb)
    (hpowers : ∀ v ∈ pb, 0 ≤ v.power)
    (hkept : ∀ v ∈ pb, honest (env.valBech32.string v.voter) → (Oracle.crossed bases v).power = v.power) :
    Outweighs env honest (env.sort (pb.map (Oracle.crossed bases))) := by
  have hsame : powerIn env honest (env.sort (pb.map (Oracle.crossed bases))) = powerIn env honest pb := by
    rw [powerIn, WeightedMedian.weight_perm (env.sort_perm _)]
    exact WeightedMedian.weight_map_eq (fun v => by rw [crossed_voter]) hkept
  have hless : powerIn env (fun key => ¬ honest key) (env.sort (pb.map (Oracle.crossed bases)))
      ≤ powerIn env (fun key => ¬ honest key) pb := by
    rw [powerIn, WeightedMedian.weight_perm (env.sort_perm _)]
    exact WeightedMedian.weight_map_le (fun v => by rw [crossed_voter])
      (fun v hv _ => crossed_power_le bases (hpowers v hv))
  unfold Outweighs at h ⊢
  omega

end Medians

/-! ## Rates -/

section Rates

variable {staking : Staking} {k : Store} {honest : String → Prop} [DecidablePred honest]
  {low high : String → LegacyDec}

variable (h : HonestVotes env staking k honest low high)
  (hvotes : ∀ a v, k.votes.get a = some v → Cast env a v)
  (hmajority : staking.powerOf env (fun key => ¬ honest key) + 2 ≤ staking.powerOf env honest)

include h hvotes

omit [DecidablePred honest] in
/-- An honest vote at its cross rate: the quotient of two honest rates, at its full power. -/
theorem HonestVotes.crossed_eq {d f : String} {ballot refBallot : ExchangeRateBallot} (hd : IsTarget k d)
    (hf : IsTarget k f) (hget : (periodBallots env staking k).get d = some ballot)
    (href : (periodBallots env staking k).get f = some refBallot) {v : VoteForTally} (hv : v ∈ ballot)
    (hhonest : honest (env.valBech32.string v.voter)) :
    ∃ base : LegacyDec, low f ≤ base ∧ base ≤ high f ∧
      crossed (toMap refBallot) v = { v with exchangeRate := ⟨LegacyDec.quoRaw base v.exchangeRate⟩ } := by
  obtain ⟨v', hv', hvoter, hpos'⟩ := h.exists_vote hvotes hf hget href hv hhonest
  obtain ⟨base, hbase⟩ := Option.isSome_iff_exists.mp (toMap_isSome hv' hpos')
  rw [hvoter] at hbase
  obtain ⟨u, hu, huvoter, rfl⟩ := toMap_mem hbase
  have hbounds := h.bounds hvotes href hu (huvoter ▸ hhonest)
  have hpos : v.exchangeRate.IsPositive :=
    lt_of_lt_of_le (h.positive d hd) (h.bounds hvotes hget hv hhonest).1
  refine ⟨u.exchangeRate, hbounds.1, hbounds.2, ?_⟩
  simp only [crossed, hbase, hpos, if_true]

include hmajority

theorem HonestVotes.outweighs {d : String} {ballot : ExchangeRateBallot} (hd : IsTarget k d)
    (hget : (periodBallots env staking k).get d = some ballot) : Outweighs env honest ballot := by
  have hhonest := h.power_honest hvotes hd hget
  have hothers : powerIn env (fun key => ¬ honest key) ballot ≤ _ := powerIn_ballot_le hvotes hget
  unfold Outweighs
  omega

/-- The median of a ballot on a target is between the honest rates. -/
theorem HonestVotes.median {d : String} {ballot : ExchangeRateBallot} (hd : IsTarget k d)
    (hget : (periodBallots env staking k).get d = some ballot) :
    low d ≤ weightedMedian ballot ∧ weightedMedian ballot ≤ high d :=
  (h.outweighs hvotes hmajority hd hget).median_within (periodBallots_wellFormed hvotes hget).2
    (fun _ hv hhonest => h.bounds hvotes hget hv hhonest)

/-- The median at cross rates is between the quotients of the honest rates. -/
theorem HonestVotes.crossMedian {d f : String} {ballot refBallot : ExchangeRateBallot} (hd : IsTarget k d)
    (hf : IsTarget k f) (hget : (periodBallots env staking k).get d = some ballot)
    (href : (periodBallots env staking k).get f = some refBallot) (hne : d ≠ f)
    (hcross : ∀ v ∈ ballot, CrossFits (toMap refBallot) v) :
    LegacyDec.quoRaw (low f) (high d) ≤
        (weightedMedian (quotedBallot env (.ofBallot f refBallot) (d, ballot))).i ∧
      (weightedMedian (quotedBallot env (.ofBallot f refBallot) (d, ballot))).i ≤
        LegacyDec.quoRaw (high f) (low d) := by
  have hwf := (periodBallots_wellFormed hvotes hget).2
  have hquoted : quotedBallot env (.ofBallot f refBallot) (d, ballot)
      = env.sort (ballot.map (crossed (toMap refBallot))) := if_neg hne
  have hwf' : WellFormed (quotedBallot env (.ofBallot f refBallot) (d, ballot)) :=
    quotedBallot_wellFormed hwf (fun a base hbase => le_of_lt (toMap_pos refBallot a base hbase))
      (fun _ => hcross)
  rw [hquoted] at hwf' ⊢
  have hout : Outweighs env honest (env.sort (ballot.map (crossed (toMap refBallot)))) := by
    apply (h.outweighs hvotes hmajority hd hget).crossed hwf.bounded.1
    intro v hv hhonest
    obtain ⟨base, _, _, heq⟩ := h.crossed_eq hvotes hd hf hget href hv hhonest
    rw [heq]
  refine hout.median_within (a := ⟨_⟩) (b := ⟨_⟩) hwf' ?_
  intro w hw hhonest
  obtain ⟨v, hv, rfl⟩ := List.mem_map.mp ((env.sort_perm _).mem_iff.mp hw)
  rw [crossed_voter] at hhonest
  obtain ⟨base, hlow, hhigh, heq⟩ := h.crossed_eq hvotes hd hf hget href hv hhonest
  obtain ⟨hvlow, hvhigh⟩ := h.bounds hvotes hget hv hhonest
  have hposf : 0 < (low f).i := h.positive f hf
  have hposd : 0 < (low d).i := h.positive d hd
  have hpos : 0 < v.exchangeRate.i := lt_of_lt_of_le hposd hvlow
  have hbase : 0 < base.i := lt_of_lt_of_le hposf hlow
  rw [heq]
  refine ⟨?_, ?_⟩
  · calc LegacyDec.quoRaw (low f) (high d)
        ≤ LegacyDec.quoRaw (low f) v.exchangeRate := LegacyDec.quoRaw_anti (le_of_lt hposf) hpos hvhigh
      _ ≤ LegacyDec.quoRaw base v.exchangeRate := LegacyDec.quoRaw_le hpos hlow
  · calc LegacyDec.quoRaw base v.exchangeRate
        ≤ LegacyDec.quoRaw (high f) v.exchangeRate := LegacyDec.quoRaw_le hpos hhigh
      _ ≤ LegacyDec.quoRaw (high f) (low d) :=
        LegacyDec.quoRaw_anti (le_trans (le_of_lt hbase) hhigh) hposd hvlow

/-- What a rate may be, with this reference: between the honest rates for the reference itself,
and between the quotients that the code makes of them for another denomination. A median at
cross rates that is divided by is at least one of the last digit. -/
def BetweenHonest (low high : String → LegacyDec) (f d : String) (rate : LegacyDec) : Prop :=
  if d = f then low d ≤ rate ∧ rate ≤ high d
  else
    LegacyDec.quoRaw (low f) ⟨LegacyDec.quoRaw (high f) (low d)⟩ ≤ rate.i ∧
      rate.i ≤ LegacyDec.quoRaw (high f) ⟨max 1 (LegacyDec.quoRaw (low f) (high d))⟩

theorem HonestVotes.rateOf {d f : String} {ballot refBallot ws : ExchangeRateBallot} {rewardBand rate : LegacyDec}
    (hd : IsTarget k d) (hf : IsTarget k f) (hget : (periodBallots env staking k).get d = some ballot)
    (href : (periodBallots env staking k).get f = some refBallot)
    (hrate : Oracle.rateOf env (.ofBallot f refBallot) rewardBand (d, ballot) = .ok (rate, ws)) :
    BetweenHonest low high f d rate := by
  obtain ⟨hcross, hzero, hrate, _⟩ := rateOf_inv hrate
  unfold BetweenHonest
  have hself : (Reference.ofBallot f refBallot).denom = f := rfl
  have hmedian : (Reference.ofBallot f refBallot).median = weightedMedian refBallot := rfl
  dsimp only at hcross hzero hrate
  rw [hself] at hcross hzero hrate
  split_ifs at hrate ⊢ with heq
  · have hquoted : quotedBallot env (.ofBallot f refBallot) (d, ballot) = ballot := if_pos heq
    rw [hrate, hquoted]
    exact h.median hvotes hmajority hd hget
  · obtain ⟨hlow, hhigh⟩ := h.crossMedian hvotes hmajority hd hf hget href heq (hcross heq)
    obtain ⟨hreflow, hrefhigh⟩ := h.median hvotes hmajority hf href
    have hposf : 0 < (low f).i := h.positive f hf
    have hposd : 0 < (low d).i := h.positive d hd
    have hmedians : (low d).i ≤ (weightedMedian ballot).i ∧ (weightedMedian ballot).i ≤ (high d).i :=
      h.median hvotes hmajority hd hget
    have hnonneg : 0 ≤ LegacyDec.quoRaw (low f) (high d) :=
      LegacyDec.quoRaw_nonneg (le_of_lt hposf) (by omega)
    have hne := hzero heq
    rw [hmedian] at hrate
    rw [hrate]
    generalize weightedMedian (quotedBallot env (.ofBallot f refBallot) (d, ballot)) = median at *
    have hpos : 0 < median.i := by omega
    refine ⟨?_, ?_⟩
    · calc LegacyDec.quoRaw (low f) ⟨LegacyDec.quoRaw (high f) (low d)⟩
          ≤ LegacyDec.quoRaw (low f) median := LegacyDec.quoRaw_anti (le_of_lt hposf) hpos hhigh
        _ ≤ LegacyDec.quoRaw (weightedMedian refBallot) median := LegacyDec.quoRaw_le hpos hreflow
    · have hmax : (max 1 (LegacyDec.quoRaw (low f) (high d))) ≤ median.i := max_le (by omega) hlow
      have hone : 0 < max 1 (LegacyDec.quoRaw (low f) (high d)) := lt_of_lt_of_le (by decide) (le_max_left _ _)
      calc LegacyDec.quoRaw (weightedMedian refBallot) median
          ≤ LegacyDec.quoRaw (high f) median := LegacyDec.quoRaw_le hpos hrefhigh
        _ ≤ LegacyDec.quoRaw (high f) ⟨max 1 (LegacyDec.quoRaw (low f) (high d))⟩ :=
          LegacyDec.quoRaw_anti (le_trans (le_of_lt hposf) (le_trans hreflow hrefhigh)) hone hmax

/-- Every target has a rate, if the honest power reaches the threshold. -/
theorem HonestVotes.passing {d : String} (hd : IsTarget k d) {threshold : Int}
    (hthreshold : threshold ≤ staking.powerOf env honest) :
    ∃ ballot, (periodBallots env staking k).get d = some ballot ∧ Passing threshold k.tobinTaxes (d, ballot) := by
  have hothers : 0 ≤ staking.powerOf env (fun key => ¬ honest key) := by
    apply List.sum_nonneg
    intro x hx
    obtain ⟨e, he, rfl⟩ := List.mem_map.mp hx
    exact claims_power_nonneg env staking e.1 e.2 (only_get_eq_some.mp (SortedMap.get_eq_some.mpr he)).1
  -- the honest power is in the votes, so there is one
  have hvote : votesOn (staking.claims env) d k.votes.entries ≠ [] := by
    intro hnil
    have hpower := h.power_votesOn hvotes hd
    rw [← votesOn_filter_voter (cast_entries hvotes), hnil] at hpower
    have hpower : 0 = staking.powerOf env honest := hpower
    omega
  have hget := periodBallots_get (rfl : staking.claims env = _) (k := k) d
  rw [if_neg hvote] at hget
  have hwf := (periodBallots_wellFormed hvotes hget).2
  have hhonest := h.power_honest hvotes hd hget
  have hrest : 0 ≤ powerIn env (fun key => ¬ honest key) _ := WeightedMedian.weight_nonneg hwf.bounded.1
  have hsum : powerIn env honest _ + powerIn env (fun key => ¬ honest key) _ = totalPower _ :=
    WeightedMedian.weight_add_not (env.sort (votesOn (staking.claims env) d k.votes.entries))
  have hpower := hwf.bounded.power_eq
  refine ⟨_, hget, hd, ?_⟩
  dsimp only
  omega

end Rates

namespace Sample

open Sdk.Sample (alice bob aliceOperator bobOperator)

/-- Alice has three quarters of the power. -/
def weighted : Staking :=
  { staking with
    byPower := [{ validator aliceOperator with consensusPower := 3 }, validator bobOperator]
    consensusPower_nonneg := by decide
    totalPower_lt := by decide
    totalBondedTokens := 4000000
    totalBondedTokens_nonneg := by decide }

/-- Alice has voted on both targets, and Bob on one of them. -/
def bobSkips : World (String → String → Int) :=
  { world (voted [⟨"ukrw", .one⟩, ⟨"uusd", .one⟩] [⟨"ukrw", .one⟩]) with staking := weighted }

theorem alice_honest : HonestVotes app bobSkips.staking bobSkips.oracle (fun key => key = aliceOperator)
    (fun _ => .one) (fun _ => .one) := by
  refine ⟨fun _ _ => by decide, ?_⟩
  intro key claim _ hkey
  refine ⟨alice, ⟨[⟨"ukrw", .one⟩, ⟨"uusd", .one⟩], aliceOperator⟩, by decide, hkey.symm, ?_, by decide⟩
  intro d hd
  have hd : d = "ukrw" ∨ d = "uusd" := isTarget_lone (r := .one).mp hd
  rcases hd with rfl | rfl
  · exact ⟨.one, by decide⟩
  · exact ⟨.one, by decide⟩

end Sample

end Oracle
