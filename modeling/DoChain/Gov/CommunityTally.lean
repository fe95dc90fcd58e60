import DoChain.Gov.Tally

/- What the capped tally returns (`app/keepers/gov_tally.go: DoCommunityTallyFn`).

   With community governance active and DODx governance not enabled, a voter counts with the
   bonded value of the delegations, at most 2.5% of all bonded tokens, and the operator of a
   validator of the tally does not count. The definitions say so over the votes as a whole,
   with the stored integers of the decimals; the walk computes them one vote at a time.

   `communityVote_counted` is what one vote adds, `foldlM_communityVote` what a walk over any
   list of votes comes to. `community_tally` puts them together: the total and the results,
   the cap on each vote, that the order of the votes is without effect, and that the votes
   are gone. It needs that the numbers of the tally fit their type, and that a vote names
   each option once: rounded shares of one option can add up to more than the power. -/

namespace Gov

open Sdk

/-! ## Powers and shares -/

/-- What a delegation counts for: nothing, to a validator that is not in the tally. -/
def delegationValue (validators : Validators) (d : Delegation) : Int :=
  match validators.get d.validatorAddr with
  | none => 0
  | some val => LegacyDec.quoRaw ⟨d.shares.i * val.bondedTokens⟩ val.delegatorShares

/-- The bonded value of all delegations of the voter. -/
def voterPower (s : State) (validators : Validators) (e : VoteKey × Vote) : Int :=
  ((s.delegations (ofLex e.1).2).map (delegationValue validators)).sum

/-- 2.5% of the bonded tokens. -/
def powerCap (s : State) : Int := s.totalBonded * LegacyDec.precision * 25 / 1000

def contribution (s : State) (validators : Validators) (e : VoteKey × Vote) : Int :=
  min (voterPower s validators e) (powerCap s)

variable (env : Env)

/-- The voter operates a validator of the tally. -/
def operates (validators : Validators) (e : VoteKey × Vote) : Bool :=
  match env.valAddressString (ofLex e.1).2 with
  | .ok valAddrStr => (validators.get valAddrStr).isSome
  | .error _ => false

/-- The votes that count. -/
def countedVotes (validators : Validators) (es : List (VoteKey × Vote)) : List (VoteKey × Vote) :=
  es.filter (fun e => !operates env validators e)

/-- What a power gives to an option, by the weights a vote has for it. -/
def shareOf (power : Int) (options : List WeightedVoteOption) (o : VoteOption) : Int :=
  ((options.filter (fun w => w.option = o)).map (fun w => LegacyDec.mulRaw ⟨power⟩ ⟨weightOf env w⟩)).sum

/-- What a vote adds to an option. -/
def optionShare (s : State) (validators : Validators) (o : VoteOption) (e : VoteKey × Vote) : Int :=
  shareOf env (contribution s validators e) e.2.options o

/-- The contributions of the votes that count. -/
def totalOf (s : State) (validators : Validators) (es : List (VoteKey × Vote)) : Int :=
  ((countedVotes env validators es).map (contribution s validators)).sum

/-- Their shares of an option. -/
def resultOf (s : State) (validators : Validators) (es : List (VoteKey × Vote)) (o : VoteOption) : Int :=
  ((countedVotes env validators es).map (optionShare env s validators o)).sum

/-- A weight between zero and one. -/
def WeightOK (w : WeightedVoteOption) : Prop :=
  ∃ d, env.decFromStr w.weight = some d ∧ 0 ≤ d.i ∧ d.i ≤ LegacyDec.precision

/-- A vote under its voter's address, which names each option once. -/
structure CommunityVote (e : VoteKey × Vote) : Prop where
  voter : env.bech32.accAddressFromBech32 e.2.voter = .ok (ofLex e.1).2
  operator : ∃ valAddrStr, env.valAddressString (ofLex e.1).2 = .ok valAddrStr
  weights : ∀ w ∈ e.2.options, WeightOK env w
  distinct : (e.2.options.map WeightedVoteOption.option).Nodup

/-- A delegation to a validator of the tally, as the staking module keeps it, whose product
with the tokens fits. -/
def DelegationFits (validators : Validators) (d : Delegation) : Prop :=
  ∀ val, validators.get d.validatorAddr = some val →
    0 ≤ d.shares.i ∧ 0 ≤ val.bondedTokens ∧ 0 < val.delegatorShares.i ∧
    LegacyDec.Fits (d.shares.i * val.bondedTokens)

/-- The delegations of the voter, and their value. -/
def VoterFits (s : State) (validators : Validators) (e : VoteKey × Vote) : Prop :=
  (∀ d ∈ s.delegations (ofLex e.1).2, DelegationFits validators d) ∧ LegacyDec.Fits (voterPower s validators e)

/-- There are bonded tokens where there are validators. -/
structure BondedTokens (s : State) (validators : Validators) : Prop where
  nonneg : 0 ≤ s.totalBonded
  positive : ∀ addr val, validators.get addr = some val → 0 < s.totalBonded
  fits : LegacyDec.Fits (s.totalBonded * LegacyDec.precision * 25)

variable {env} {s : State} {validators : Validators}

/-! ## The power of a voter -/

theorem delegationValue_nonneg {d : Delegation} (h : DelegationFits validators d) :
    0 ≤ delegationValue validators d := by
  rw [delegationValue]
  cases hget : validators.get d.validatorAddr with
  | none => exact Int.le_refl 0
  | some val =>
    obtain ⟨hshares, htokens, hpos, _⟩ := h val hget
    exact LegacyDec.quoRaw_nonneg (Int.mul_nonneg hshares htokens) hpos.le

/-- The loop over the delegations adds up their values. -/
theorem delegatedPower_eq {ds : List Delegation} (hds : ∀ d ∈ ds, DelegationFits validators d) {power : LegacyDec}
    (hpower : 0 ≤ power.i) (hfit : LegacyDec.Fits (power.i + (ds.map (delegationValue validators)).sum)) :
    delegatedPower validators power ds = .ok ⟨power.i + (ds.map (delegationValue validators)).sum⟩ := by
  induction ds generalizing power with
  | nil => simp [delegatedPower]
  | cons d rest ih =>
    obtain ⟨hd, hrest⟩ := List.forall_mem_cons.mp hds
    have hvalue := delegationValue_nonneg hd
    have hsum : 0 ≤ (rest.map (delegationValue validators)).sum := by
      apply List.sum_map_nonneg
      intro d' hd'
      exact delegationValue_nonneg (hrest d' hd')
    rw [List.map_cons, List.sum_cons, ← Int.add_assoc] at hfit ⊢
    rw [delegatedPower]
    cases hget : validators.get d.validatorAddr with
    | none =>
      have hzero : delegationValue validators d = 0 := by rw [delegationValue, hget]
      rw [hzero, Int.add_zero] at hfit ⊢
      exact ih hrest hpower hfit
    | some val =>
      obtain ⟨_, _, hpos, hproduct⟩ := hd val hget
      have hquo : delegationValue validators d =
          LegacyDec.quoRaw ⟨d.shares.i * val.bondedTokens⟩ val.delegatorShares := by rw [delegationValue, hget]
      have hbonded : bondedValue d.shares val = .ok ⟨delegationValue validators d⟩ := by
        rw [bondedValue, LegacyDec.mulInt, LegacyDec.check_eq_ok.mpr ⟨hproduct, rfl⟩, Outcome.ok_bind,
          LegacyDec.quo_eq_ok, hquo]
        refine ⟨hpos.ne', LegacyDec.Fits.of_abs_le ?_ hfit, rfl⟩
        rw [← hquo]
        omega
      have hadd : (power.add ⟨delegationValue validators d⟩ : Outcome String LegacyDec) =
          .ok ⟨power.i + delegationValue validators d⟩ := by
        refine LegacyDec.check_eq_ok.mpr ⟨LegacyDec.Fits.of_abs_le ?_ hfit, rfl⟩
        show (power.i + delegationValue validators d).natAbs ≤ _
        omega
      simp only [hbonded, hadd, Outcome.ok_bind]
      exact ih hrest (Int.add_nonneg hpower hvalue) hfit

theorem voterPower_nonneg {e : VoteKey × Vote} (h : VoterFits s validators e) : 0 ≤ voterPower s validators e := by
  apply List.sum_map_nonneg
  intro d hd
  exact delegationValue_nonneg (h.1 d hd)

/-- Without validators no delegation counts, so a cap of zero takes nothing away. -/
theorem voterPower_eq_zero (hbonded : BondedTokens s validators) (hzero : powerCap s = 0) (e : VoteKey × Vote) :
    voterPower s validators e = 0 := by
  have hnone : ∀ addr, validators.get addr = none := by
    intro addr
    cases hget : validators.get addr with
    | none => rfl
    | some val =>
      have hpos := hbonded.positive addr val hget
      rw [powerCap, LegacyDec.precision] at hzero
      omega
  apply List.sum_eq_zero
  intro x hx
  obtain ⟨d, _, rfl⟩ := List.mem_map.mp hx
  rw [delegationValue, hnone]

theorem powerCap_nonneg (hbonded : BondedTokens s validators) : 0 ≤ powerCap s := by
  have hnonneg := hbonded.nonneg
  rw [powerCap, LegacyDec.precision]
  omega

theorem capCommunityVoterPower_eq (hbonded : BondedTokens s validators) (e : VoteKey × Vote) :
    capCommunityVoterPower ⟨voterPower s validators e⟩ ⟨powerCap s⟩ = ⟨contribution s validators e⟩ := by
  rw [capCommunityVoterPower, contribution]
  by_cases hle : voterPower s validators e ≤ powerCap s
  · rw [if_pos (.inr hle), min_eq_left hle]
  · rw [if_neg, min_eq_right (not_le.mp hle).le]
    rw [not_or]
    refine ⟨?_, hle⟩
    intro hcap
    have hzero : powerCap s = 0 := congrArg LegacyDec.i hcap
    rw [voterPower_eq_zero hbonded hzero, hzero] at hle
    exact hle (Int.le_refl 0)

theorem contribution_nonneg (hbonded : BondedTokens s validators) {e : VoteKey × Vote}
    (he : VoterFits s validators e) : 0 ≤ contribution s validators e :=
  le_min (voterPower_nonneg he) (powerCap_nonneg hbonded)

/-! ## The shares of the options -/

theorem weightOf_eq {w : WeightedVoteOption} {d : LegacyDec} (h : env.decFromStr w.weight = some d) :
    (⟨weightOf env w⟩ : LegacyDec) = d := by
  rw [weightOf, h]
  rfl

theorem shareOf_cons (power : Int) (w : WeightedVoteOption) (rest : List WeightedVoteOption) (o : VoteOption) :
    shareOf env power (w :: rest) o =
      (if w.option = o then LegacyDec.mulRaw ⟨power⟩ ⟨weightOf env w⟩ else 0) + shareOf env power rest o := by
  rw [shareOf, List.filter_cons]
  by_cases ho : w.option = o <;> simp [ho, shareOf]

theorem shareOf_nonneg {power : Int} (hpower : 0 ≤ power) {options : List WeightedVoteOption}
    (hw : ∀ w ∈ options, WeightOK env w) (o : VoteOption) : 0 ≤ shareOf env power options o := by
  apply List.sum_map_nonneg
  intro w hmem
  obtain ⟨d, hd, hnonneg, _⟩ := hw w (List.mem_of_mem_filter hmem)
  rw [weightOf_eq hd]
  exact LegacyDec.mulRaw_nonneg hpower hnonneg

/-- A vote that names each option once gives no option more than the power. -/
theorem shareOf_le {power : Int} (hpower : 0 ≤ power) {options : List WeightedVoteOption}
    (hw : ∀ w ∈ options, WeightOK env w) (hnd : (options.map WeightedVoteOption.option).Nodup) (o : VoteOption) :
    shareOf env power options o ≤ power := by
  induction options with
  | nil => exact hpower
  | cons w rest ih =>
    obtain ⟨hhead, hrest⟩ := List.forall_mem_cons.mp hw
    rw [List.map_cons, List.nodup_cons] at hnd
    rw [shareOf_cons]
    by_cases ho : w.option = o
    · -- no other weight is for this option
      have hzero : shareOf env power rest o = 0 := by
        have hnone : rest.filter (fun w => w.option = o) = [] := by
          rw [List.filter_eq_nil_iff]
          intro w' hw' heq
          rw [decide_eq_true_iff] at heq
          exact hnd.1 (List.mem_map.mpr ⟨w', hw', heq.trans ho.symm⟩)
        rw [shareOf, hnone]
        rfl
      obtain ⟨d, hd, _, hle⟩ := hhead
      rw [if_pos ho, hzero, Int.add_zero, weightOf_eq hd]
      exact LegacyDec.mulRaw_le_self (a := ⟨power⟩) hpower hle
    · rw [if_neg ho, Int.zero_add]
      exact ih hrest hnd.2

/-- The loop over the options gives each its shares. -/
theorem addOptions_eq {power : Int} (hpower : 0 ≤ power) {options : List WeightedVoteOption}
    (hw : ∀ w ∈ options, WeightOK env w) {r : Results} (hr : ∀ o, 0 ≤ (r o).i)
    (hfit : ∀ o, LegacyDec.Fits ((r o).i + shareOf env power options o)) :
    addOptions env ⟨power⟩ r options = .ok (fun o => ⟨(r o).i + shareOf env power options o⟩) := by
  induction options generalizing r with
  | nil => simp [addOptions, shareOf]
  | cons w rest ih =>
    obtain ⟨⟨d, hd, hnonneg, _⟩, hrest⟩ := List.forall_mem_cons.mp hw
    have hshare := LegacyDec.mulRaw_nonneg (a := ⟨power⟩) hpower hnonneg
    have hafter := shareOf_nonneg hpower hrest w.option
    have hro := hr w.option
    have hhead := hfit w.option
    rw [shareOf_cons, if_pos rfl, weightOf_eq hd] at hhead
    have hmul : (LegacyDec.mul ⟨power⟩ d : Outcome String LegacyDec) = .ok ⟨LegacyDec.mulRaw ⟨power⟩ d⟩ :=
      LegacyDec.check_eq_ok.mpr ⟨LegacyDec.Fits.of_abs_le (by omega) hhead, rfl⟩
    have hadd : ((r w.option).add ⟨LegacyDec.mulRaw ⟨power⟩ d⟩ : Outcome String LegacyDec) =
        .ok ⟨(r w.option).i + LegacyDec.mulRaw ⟨power⟩ d⟩ := by
      refine LegacyDec.check_eq_ok.mpr ⟨LegacyDec.Fits.of_abs_le ?_ hhead, rfl⟩
      show ((r w.option).i + LegacyDec.mulRaw ⟨power⟩ d).natAbs ≤ _
      omega
    -- the results with this share, and what the rest makes of them
    have hstep : ∀ o, (Function.update r w.option ⟨(r w.option).i + LegacyDec.mulRaw ⟨power⟩ d⟩ o).i +
        shareOf env power rest o = (r o).i + shareOf env power (w :: rest) o := by
      intro o
      rw [shareOf_cons, weightOf_eq hd, Function.update_apply]
      by_cases ho : o = w.option
      · rw [if_pos ho, if_pos ho.symm, ho]
        exact Int.add_assoc _ _ _
      · rw [if_neg ho, if_neg (Ne.symm ho), Int.zero_add]
    rw [addOptions, optionWeight, hd, Outcome.ok_bind, hmul, Outcome.ok_bind, hadd, Outcome.ok_bind]
    rw [ih hrest]
    · simp only [hstep]
    · intro o
      rw [Function.update_apply]
      split_ifs
      · exact Int.add_nonneg hro hshare
      · exact hr o
    · intro o
      rw [hstep]
      exact hfit o

/-! ## One vote -/

/-- No option has more than the total. -/
def Accum.Within (acc : Accum) : Prop := ∀ o, 0 ≤ (acc.results o).i ∧ (acc.results o).i ≤ acc.totalVotingPower.i

theorem Accum.within_empty : Accum.empty.Within := fun _ => ⟨Int.le_refl 0, Int.le_refl 0⟩

theorem communityVote_operator {e : VoteKey × Vote} (he : CommunityVote env e) (h : operates env validators e = true)
    (cap : LegacyDec) (acc : Accum) : communityVote env s validators cap acc e = .ok (acc.remove e.1) := by
  obtain ⟨valAddrStr, haddr⟩ := he.operator
  rw [operates, haddr] at h
  simp only [communityVote, voterAddr, he.voter, haddr, Outcome.ofExcept, Outcome.ok_bind]
  rw [if_pos h]

/-- A vote that counts adds its contribution to the total and its shares to the options. -/
theorem communityVote_counted {e : VoteKey × Vote} (he : CommunityVote env e)
    (h : operates env validators e = false) (hbonded : BondedTokens s validators) (hvoter : VoterFits s validators e)
    {acc : Accum} (hacc : acc.Within)
    (hfit : LegacyDec.Fits (acc.totalVotingPower.i + contribution s validators e)) :
    communityVote env s validators ⟨powerCap s⟩ acc e =
      .ok ⟨⟨acc.totalVotingPower.i + contribution s validators e⟩,
        fun o => ⟨(acc.results o).i + optionShare env s validators o e⟩, acc.votesToRemove ++ [e.1]⟩ := by
  obtain ⟨valAddrStr, haddr⟩ := he.operator
  rw [operates, haddr] at h
  have hpower : delegatedPower validators .zero (s.delegations (ofLex e.1).2) = .ok ⟨voterPower s validators e⟩ := by
    have hsum : LegacyDec.zero.i + voterPower s validators e = voterPower s validators e := Int.zero_add _
    have hzero : 0 ≤ LegacyDec.zero.i := Int.le_refl 0
    rw [delegatedPower_eq hvoter.1 hzero (hsum.symm ▸ hvoter.2)]
    exact congrArg (fun n => Outcome.ok (LegacyDec.mk n)) hsum
  have hnonneg := contribution_nonneg hbonded hvoter
  have hoptions : addOptions env ⟨contribution s validators e⟩ acc.results e.2.options =
      .ok (fun o => ⟨(acc.results o).i + optionShare env s validators o e⟩) := by
    refine addOptions_eq hnonneg he.weights (fun o => (hacc o).1) ?_
    intro o
    have hshare := shareOf_nonneg hnonneg he.weights o
    have hle := shareOf_le hnonneg he.weights he.distinct o
    obtain ⟨hlow, hhigh⟩ := hacc o
    exact LegacyDec.Fits.of_abs_le (by omega) hfit
  have htotal : (acc.totalVotingPower.add ⟨contribution s validators e⟩ : Outcome String LegacyDec) =
      .ok ⟨acc.totalVotingPower.i + contribution s validators e⟩ := LegacyDec.check_eq_ok.mpr ⟨hfit, rfl⟩
  simp only [communityVote, voterAddr, he.voter, haddr, Outcome.ofExcept, Outcome.ok_bind]
  rw [if_neg (Bool.not_eq_true _ ▸ h)]
  simp only [hpower, Outcome.ok_bind, capCommunityVoterPower_eq hbonded, credit, hoptions, htotal]
  rfl

/-! ## A walk over votes -/

theorem countedVotes_cons (e : VoteKey × Vote) (rest : List (VoteKey × Vote)) :
    countedVotes env validators (e :: rest) =
      if operates env validators e = true then countedVotes env validators rest
      else e :: countedVotes env validators rest := by
  rw [countedVotes, List.filter_cons]
  cases operates env validators e <;> rfl

/-- A walk over any list of votes comes to the sums over those that count. -/
theorem foldlM_communityVote (hbonded : BondedTokens s validators) {es : List (VoteKey × Vote)}
    (hes : ∀ e ∈ es, CommunityVote env e) (hvoters : ∀ e ∈ countedVotes env validators es, VoterFits s validators e)
    {acc : Accum} (hacc : acc.Within)
    (hfit : LegacyDec.Fits (acc.totalVotingPower.i + totalOf env s validators es)) :
    es.foldlM (communityVote env s validators ⟨powerCap s⟩) acc =
      .ok ⟨⟨acc.totalVotingPower.i + totalOf env s validators es⟩,
        fun o => ⟨(acc.results o).i + resultOf env s validators es o⟩, acc.votesToRemove ++ es.map Prod.fst⟩ := by
  simp only [totalOf, resultOf] at hfit ⊢
  induction es generalizing acc with
  | nil => simp [countedVotes]
  | cons e rest ih =>
    obtain ⟨he, hrest⟩ := List.forall_mem_cons.mp hes
    rw [List.foldlM_cons]
    rw [countedVotes_cons] at hvoters hfit ⊢
    by_cases hop : operates env validators e = true
    · rw [if_pos hop] at hvoters hfit ⊢
      have hacc' : (acc.remove e.1).Within := hacc
      rw [communityVote_operator he hop, Outcome.ok_bind, ih hrest hvoters hacc' hfit]
      simp [Accum.remove]
    · rw [if_neg hop] at hvoters hfit ⊢
      obtain ⟨hvoter, hvoters⟩ := List.forall_mem_cons.mp hvoters
      have hnonneg := contribution_nonneg hbonded hvoter
      have hlater : 0 ≤ ((countedVotes env validators rest).map (contribution s validators)).sum := by
        apply List.sum_map_nonneg
        intro e' he'
        exact contribution_nonneg hbonded (hvoters e' he')
      have htotal := (hacc .yes).1.trans (hacc .yes).2
      rw [List.map_cons, List.sum_cons, ← Int.add_assoc] at hfit ⊢
      have hstep := communityVote_counted he (Bool.not_eq_true _ ▸ hop) hbonded hvoter hacc
        (LegacyDec.Fits.of_abs_le (by omega) hfit)
      have hacc' : Accum.Within ⟨⟨acc.totalVotingPower.i + contribution s validators e⟩,
          fun o => ⟨(acc.results o).i + optionShare env s validators o e⟩, acc.votesToRemove ++ [e.1]⟩ := by
        intro o
        have hshare := shareOf_nonneg hnonneg he.weights o
        have hle := shareOf_le hnonneg he.weights he.distinct o
        obtain ⟨hlow, hhigh⟩ := hacc o
        exact ⟨Int.add_nonneg hlow hshare, Int.add_le_add hhigh hle⟩
      rw [hstep, Outcome.ok_bind, ih hrest hvoters hacc' hfit]
      simp [Int.add_assoc]

/-! ## The tally -/

/-- The order of the votes is without effect. -/
theorem foldlM_perm (hbonded : BondedTokens s validators) {es es' : List (VoteKey × Vote)} (hperm : es'.Perm es)
    (hes : ∀ e ∈ es, CommunityVote env e) (hvoters : ∀ e ∈ countedVotes env validators es, VoterFits s validators e)
    (hfit : LegacyDec.Fits (totalOf env s validators es)) :
    es'.foldlM (communityVote env s validators ⟨powerCap s⟩) Accum.empty =
      .ok ⟨⟨totalOf env s validators es⟩, fun o => ⟨resultOf env s validators es o⟩, es'.map Prod.fst⟩ := by
  have hcounted : (countedVotes env validators es').Perm (countedVotes env validators es) := hperm.filter _
  have htotal : totalOf env s validators es' = totalOf env s validators es :=
    (hcounted.map (contribution s validators)).sum_eq
  have hresult : ∀ o, resultOf env s validators es' o = resultOf env s validators es o :=
    fun o => (hcounted.map (optionShare env s validators o)).sum_eq
  have hzero : ∀ n, LegacyDec.zero.i + n = n := Int.zero_add
  rw [foldlM_communityVote hbonded (fun e he => hes e (hperm.mem_iff.mp he))
    (fun e he => hvoters e (hcounted.mem_iff.mp he)) Accum.within_empty]
  · simp only [Accum.empty, emptyCommunityTallyResults, hzero, htotal, hresult, List.nil_append]
  · show LegacyDec.Fits (LegacyDec.zero.i + _)
    rw [hzero, htotal]
    exact hfit

theorem voterPowerCap_eq (hbonded : BondedTokens s validators) :
    ((LegacyDec.ofInt s.totalBonded).mulInt communityVoterPowerCapNumerator : Outcome String LegacyDec) =
      .ok ⟨s.totalBonded * LegacyDec.precision * 25⟩ ∧
    (LegacyDec.quoInt64 ⟨s.totalBonded * LegacyDec.precision * 25⟩ communityVoterPowerCapDenominator :
      Outcome String LegacyDec) = .ok ⟨powerCap s⟩ := by
  have hnonneg : 0 ≤ s.totalBonded * LegacyDec.precision * 25 := by
    have h := hbonded.nonneg
    rw [LegacyDec.precision]
    omega
  refine ⟨LegacyDec.check_eq_ok.mpr ⟨hbonded.fits, rfl⟩, ?_⟩
  rw [LegacyDec.quoInt64, communityVoterPowerCapDenominator, if_neg (by norm_num), powerCap,
    Int.tdiv_eq_ediv_of_nonneg hnonneg]

/-- With community governance active and DODx governance not enabled, and numbers that fit,
the tally returns the sum of the contributions of the voters that operate no validator of
it. No vote gives the total or an option more than the cap, the votes can be walked in any
order, and those of the proposal are removed. -/
theorem community_tally {proposalId : Nat} (hactive : doCommunityGovernanceActive s = true)
    (hdodx : s.dodx.governanceEnabled = false) (hvotes : ∀ e ∈ s.votesOf proposalId, CommunityVote env e)
    (hbonded : BondedTokens s validators)
    (hvoters : ∀ e ∈ countedVotes env validators (s.votesOf proposalId), VoterFits s validators e)
    (hfit : LegacyDec.Fits (totalOf env s validators (s.votesOf proposalId))) :
    ∃ s' t, doCommunityTallyFn env s proposalId validators = .ok (s', t) ∧
      t.totalVotingPower = ⟨((countedVotes env validators (s.votesOf proposalId)).map
        (fun e => min (voterPower s validators e) (powerCap s))).sum⟩ ∧
      (∀ o, t.results o = ⟨((countedVotes env validators (s.votesOf proposalId)).map
        (optionShare env s validators o)).sum⟩) ∧
      (∀ e ∈ countedVotes env validators (s.votesOf proposalId),
        min (voterPower s validators e) (powerCap s) ≤ powerCap s ∧
        ∀ o, optionShare env s validators o e ≤ powerCap s) ∧
      (∀ es : List (VoteKey × Vote), es.Perm (s.votesOf proposalId) →
        ∃ acc, es.foldlM (communityVote env s validators ⟨powerCap s⟩) Accum.empty = .ok acc ∧
          acc.totalVotingPower = t.totalVotingPower ∧ acc.results = t.results) ∧
      (∀ k, s'.votes.get k = if (ofLex k).1 = proposalId then none else s.votes.get k) ∧
      s' = { s with votes := s'.votes } := by
  obtain ⟨hmul, hquo⟩ := voterPowerCap_eq hbonded
  have hwalk := foldlM_perm hbonded (List.Perm.refl _) hvotes hvoters hfit
  have htally : doCommunityTallyFn env s proposalId validators =
      .ok (removeVotes s ((s.votesOf proposalId).map Prod.fst),
        ⟨⟨totalOf env s validators (s.votesOf proposalId)⟩,
          fun o => ⟨resultOf env s validators (s.votesOf proposalId) o⟩⟩) := by
    rw [doCommunityTallyFn, hactive, hdodx, if_neg (by simp), if_neg (by simp), cappedCommunityTallyFn, hmul,
      Outcome.ok_bind, hquo, Outcome.ok_bind, walk, hwalk]
    rfl
  refine ⟨_, _, htally, rfl, fun _ => rfl, ?_, ?_, get_removeVotes s proposalId, rfl⟩
  · intro e he
    refine ⟨min_le_right _ _, ?_⟩
    intro o
    obtain ⟨hmem, _⟩ := List.mem_filter.mp he
    have hnonneg := contribution_nonneg hbonded (hvoters e he)
    exact (shareOf_le hnonneg (hvotes e hmem).weights (hvotes e hmem).distinct o).trans (min_le_right _ _)
  · intro es hperm
    exact ⟨_, foldlM_perm hbonded hperm hvotes hvoters hfit, rfl, rfl⟩

namespace Sample

open Sdk.Sample

/-- The weights of a vote that splits one option. -/
def splitWeights : List String :=
  ["0.000000000000000025", "0.000000000000000025", "0.000000000000000025", "0.999999999999999925"]

def community : Env :=
  { gov with
    valAddressString := fun a => .ok (valBech32.string a)
    decFromStr := fun text =>
      if text = "0.000000000000000025" then some ⟨25⟩
      else if text = "0.999999999999999925" then some ⟨10 ^ 18 - 75⟩
      else decFromStr text }

/-- Alice operates the only validator, which has `n` tokens, and all of its shares are
Bob's. -/
def validatorsOf (n : Int) : Validators := SortedMap.empty.set aliceOperator ⟨n, .ofInt n, .zero, []⟩

def communityState (votes : SortedMap VoteKey Vote) (n : Int) : State :=
  ⟨doCommunityGovernanceHeight, votes, .empty, fun a => if a = bob then [⟨aliceOperator, .ofInt n⟩] else [], n⟩

theorem votesOf_community (n : Int) : (communityState votes n).votesOf 1 =
    [(toLex (1, alice), aliceVote), (toLex (1, bob), bobVote)] := by rfl

theorem communityVotes (n : Int) : ∀ e ∈ (communityState votes n).votesOf 1, CommunityVote community e := by
  rw [votesOf_community, List.forall_mem_cons, List.forall_mem_singleton]
  refine ⟨⟨by decide +kernel, ⟨_, rfl⟩, ?_, by decide⟩, ⟨by decide +kernel, ⟨_, rfl⟩, ?_, by decide⟩⟩
  · rw [aliceVote, List.forall_mem_cons, List.forall_mem_singleton]
    exact ⟨⟨⟨4 * 10 ^ 17⟩, by decide +kernel⟩, ⟨⟨6 * 10 ^ 17⟩, by decide +kernel⟩⟩
  · rw [bobVote, List.forall_mem_singleton]
    exact ⟨.one, by decide +kernel⟩

theorem countedVotes_community : countedVotes community (validatorsOf 100) ((communityState votes 100).votesOf 1) =
    [(toLex (1, bob), bobVote)] := by
  rw [votesOf_community, countedVotes_cons, countedVotes_cons, if_pos (by decide +kernel), if_neg (by decide +kernel)]
  rfl

/-- Alice's vote does not count, and Bob's counts with two and a half of their hundred
tokens. -/
theorem bob_capped :
    ∃ s' t, doCommunityTallyFn community (communityState votes 100) 1 (validatorsOf 100) = .ok (s', t) ∧
      t.totalVotingPower = ⟨25 * 10 ^ 17⟩ ∧ t.results .yes = ⟨25 * 10 ^ 17⟩ ∧
      ∀ k, s'.votes.get k = if (ofLex k).1 = 1 then none else votes.get k := by
  have hbonded : BondedTokens (communityState votes 100) (validatorsOf 100) :=
    ⟨by decide, fun _ _ _ => by decide, by decide +kernel⟩
  have hvoters : ∀ e ∈ countedVotes community (validatorsOf 100) ((communityState votes 100).votesOf 1),
      VoterFits (communityState votes 100) (validatorsOf 100) e := by
    rw [countedVotes_community, List.forall_mem_singleton]
    refine ⟨?_, by decide +kernel⟩
    intro d hd val hget
    obtain rfl : d = ⟨aliceOperator, .ofInt 100⟩ := List.mem_singleton.mp hd
    obtain rfl : val = ⟨100, .ofInt 100, .zero, []⟩ := (Option.some.inj hget).symm
    decide +kernel
  obtain ⟨s', t, htally, htotal, hresults, _, _, hremoved, _⟩ := community_tally (by decide) rfl
    (communityVotes 100) hbonded hvoters (by rw [totalOf, countedVotes_community]; decide +kernel)
  rw [countedVotes_community] at htotal hresults
  refine ⟨s', t, htally, htotal.trans (by decide +kernel), (hresults .yes).trans (by decide +kernel), hremoved⟩

/-- Bob splits a vote for one option. -/
def splitVote : Vote := ⟨bobText, splitWeights.map (fun w => ⟨.yes, w⟩)⟩

def splitVotes : SortedMap VoteKey Vote := SortedMap.empty.set (toLex (1, bob)) splitVote

/-- The weights add up to one, and their rounded shares to more than the cap; and as many
bonded tokens as an `Int` holds are more than a decimal holds. -/
theorem split_vote_exceeds_cap :
    (∀ e ∈ (communityState splitVotes 1).votesOf 1, StoredVote community e) ∧
    (doCommunityTallyFn community (communityState splitVotes 1) 1 (validatorsOf 1)).value.map
      (fun r => (r.2.totalVotingPower, r.2.results .yes)) = some (⟨25 * 10 ^ 15⟩, ⟨25 * 10 ^ 15 + 1⟩) ∧
    powerCap (communityState splitVotes 1) = 25 * 10 ^ 15 ∧
    doCommunityTallyFn community (communityState votes (2 ^ 256 - 1)) 1 (validatorsOf (2 ^ 256 - 1)) =
      .panic "Int overflow" := by
  refine ⟨?_, by decide +kernel, by decide, Outcome.panicText_eq_some.mp (by decide +kernel)⟩
  have hvotes : (communityState splitVotes 1).votesOf 1 = [(toLex (1, bob), splitVote)] := by rfl
  rw [hvotes, List.forall_mem_singleton]
  refine ⟨by decide +kernel, ?_, by decide +kernel⟩
  intro o ho
  obtain ⟨text, htext, rfl⟩ := List.mem_map.mp ho
  have hall : ∀ text ∈ splitWeights, 0 < ((community.decFromStr text).map LegacyDec.i).getD 0 := by decide +kernel
  have hpos := hall text htext
  cases hw : community.decFromStr text with
  | none =>
    rw [hw] at hpos
    exact absurd hpos (by decide)
  | some w =>
    rw [hw] at hpos
    exact ⟨w, rfl, hpos⟩

end Sample

end Gov
