import DoChain.Gov.CommunityTally

/- The tally before community governance (`app/keepers/gov_tally.go: defaultCommunityTallyFn`).

   A voter's delegations count by the bonded tokens of their shares, for the options of the
   voter. The shares are deducted from what the validator speaks for: its operator's vote counts
   with the shares that are left. The walk changes the validators as it goes, and at the end the
   code ranges over a map of them.

   `Ready` has what the governance and the staking module provide. The walk is told over the votes
   as a whole: `afterVotes` is the validators it leaves, `foldlM_defaultVote` what it gathers.
   `default_tally` says what the tally returns, whatever the order of the map, and that no share
   counts twice: the total is at most the bonded tokens, but for half a unit of the last digit for
   each quotient. -/

namespace Gov

open Sdk

/-! ## The tally over the votes as a whole -/

/-- The shares of a validator among delegations. -/
def sharesIn (ds : List Delegation) (addr : String) : Int :=
  (ds.map fun d => if d.validatorAddr = addr then d.shares.i else 0).sum

/-- The delegations of the voters. -/
def votedDelegations (s : State) (es : List (VoteKey × Vote)) : List Delegation :=
  es.flatMap fun e => s.delegations (ofLex e.1).2

variable (env : Env)

/-- The text of the voter's operator address. -/
def operatorOf (e : VoteKey × Vote) : Option String :=
  match env.valAddressString (ofLex e.1).2 with
  | .ok valAddrStr => some valAddrStr
  | .error _ => none

/-- The options of the operator's vote, if there is one. -/
def operatorVote (es : List (VoteKey × Vote)) (addr : String) (options : List WeightedVoteOption) :
    List WeightedVoteOption :=
  es.foldl (fun options e => if operatorOf env e = some addr then e.2.options else options) options

/-- The validators after votes: with the shares of the voters deducted, and with the votes of their
operators. -/
def afterVotes (s : State) (es : List (VoteKey × Vote)) (validators : Validators) : Validators :=
  validators.filterMap fun addr val => some { val with
    delegatorDeductions := ⟨val.delegatorDeductions.i + sharesIn (votedDelegations s es) addr⟩
    vote := operatorVote env es addr val.vote }

/-- The bonded value of the voters' delegations. -/
def delegatedTotal (s : State) (validators : Validators) (es : List (VoteKey × Vote)) : Int :=
  ((votedDelegations s es).map (delegationValue validators)).sum

/-- What the delegations of the voters give to an option. -/
def delegatedShare (s : State) (validators : Validators) (es : List (VoteKey × Vote)) (o : VoteOption) : Int :=
  (es.map fun e => ((s.delegations (ofLex e.1).2).map fun d =>
    shareOf env (delegationValue validators d) e.2.options o).sum).sum

/-- What a validator speaks for: the shares of those who did not vote, if its operator did. -/
def validatorPower (val : ValidatorGovInfo) : Int :=
  if val.vote = [] then 0
  else LegacyDec.quoRaw ⟨(val.delegatorShares.i - val.delegatorDeductions.i) * val.bondedTokens⟩ val.delegatorShares

def validatorShare (o : VoteOption) (val : ValidatorGovInfo) : Int := shareOf env (validatorPower val) val.vote o

/-- The total of the tally. -/
def defaultTotal (s : State) (validators : Validators) (es : List (VoteKey × Vote)) : Int :=
  delegatedTotal s validators es + (afterVotes env s es validators).sumOf fun _ val => validatorPower val

/-- The result of an option. -/
def defaultResult (s : State) (validators : Validators) (es : List (VoteKey × Vote)) (o : VoteOption) : Int :=
  delegatedShare env s validators es o + (afterVotes env s es validators).sumOf fun _ val => validatorShare env o val

/-- A validator of the tally as the governance module sets it up from the staking module's, whose
tokens fit: the voters have no more shares of it than there are. -/
structure ValidatorReady (s : State) (es : List (VoteKey × Vote)) (addr : String) (val : ValidatorGovInfo) :
    Prop where
  tokens : 0 ≤ val.bondedTokens
  shares : 0 < val.delegatorShares.i
  deductions : val.delegatorDeductions = .zero
  vote : val.vote = []
  voted : sharesIn (votedDelegations s es) addr ≤ val.delegatorShares.i
  fits : LegacyDec.Fits val.delegatorShares.i
  product : LegacyDec.Fits (val.delegatorShares.i * val.bondedTokens)

structure Ready (s : State) (validators : Validators) (es : List (VoteKey × Vote)) : Prop where
  votes : ∀ e ∈ es, CommunityVote env e
  delegations : ∀ d ∈ votedDelegations s es, 0 ≤ d.shares.i
  validators : ∀ addr val, validators.get addr = some val → ValidatorReady s es addr val

variable {env} {s : State} {validators : Validators}

/-! ## Giving a power to options -/

theorem shareOf_zero (options : List WeightedVoteOption) (o : VoteOption) : shareOf env 0 options o = 0 := by
  apply List.sum_eq_zero
  intro x hx
  obtain ⟨w, _, rfl⟩ := List.mem_map.mp hx
  simp [LegacyDec.mulRaw, LegacyDec.chopPrecisionAndRound]

theorem credit_eq {acc : Accum} (hacc : acc.Within) {power : Int} (hpower : 0 ≤ power)
    {options : List WeightedVoteOption} (hw : ∀ w ∈ options, WeightOK env w)
    (hnd : (options.map WeightedVoteOption.option).Nodup)
    (hfit : LegacyDec.Fits (acc.totalVotingPower.i + power)) :
    credit env acc ⟨power⟩ options = .ok ⟨⟨acc.totalVotingPower.i + power⟩,
      fun o => ⟨(acc.results o).i + shareOf env power options o⟩, acc.votesToRemove⟩ ∧
    Accum.Within ⟨⟨acc.totalVotingPower.i + power⟩,
      fun o => ⟨(acc.results o).i + shareOf env power options o⟩, acc.votesToRemove⟩ := by
  have hshare := shareOf_nonneg hpower hw
  have hle := shareOf_le hpower hw hnd
  refine ⟨?_, ?_⟩
  · have hoptions : addOptions env ⟨power⟩ acc.results options =
        .ok (fun o => ⟨(acc.results o).i + shareOf env power options o⟩) := by
      refine addOptions_eq hpower hw (fun o => (hacc o).1) ?_
      intro o
      obtain ⟨hlow, hhigh⟩ := hacc o
      have hs := hshare o
      have hl := hle o
      exact LegacyDec.Fits.of_abs_le (by omega) hfit
    have htotal : (acc.totalVotingPower.add ⟨power⟩ : Outcome String LegacyDec) =
        .ok ⟨acc.totalVotingPower.i + power⟩ := LegacyDec.check_eq_ok.mpr ⟨hfit, rfl⟩
    rw [credit, hoptions, Outcome.ok_bind, htotal, Outcome.ok_bind]
  · intro o
    exact ⟨Int.add_nonneg (hacc o).1 (hshare o), Int.add_le_add (hacc o).2 (hle o)⟩

/-! ## The delegations of a voter -/

@[simp] theorem sharesIn_nil (addr : String) : sharesIn [] addr = 0 := rfl

theorem sharesIn_cons (d : Delegation) (ds : List Delegation) (addr : String) :
    sharesIn (d :: ds) addr = (if d.validatorAddr = addr then d.shares.i else 0) + sharesIn ds addr := rfl

theorem sharesIn_append (ds ds' : List Delegation) (addr : String) :
    sharesIn (ds ++ ds') addr = sharesIn ds addr + sharesIn ds' addr := by
  rw [sharesIn, List.map_append, List.sum_append]
  rfl

theorem sharesIn_nonneg {ds : List Delegation} (hds : ∀ d ∈ ds, 0 ≤ d.shares.i) (addr : String) :
    0 ≤ sharesIn ds addr := by
  apply List.sum_map_nonneg
  intro d hd
  split_ifs
  · exact hds d hd
  · exact Int.le_refl 0

/-- The shares of a validator that are deducted, or are to be, are no more than there are. -/
structure Deductible (ds : List Delegation) (addr : String) (val : ValidatorGovInfo) : Prop where
  tokens : 0 ≤ val.bondedTokens
  shares : 0 < val.delegatorShares.i
  nonneg : 0 ≤ val.delegatorDeductions.i
  covered : val.delegatorDeductions.i + sharesIn ds addr ≤ val.delegatorShares.i
  fits : LegacyDec.Fits val.delegatorShares.i
  product : LegacyDec.Fits (val.delegatorShares.i * val.bondedTokens)

/-- The validators with the shares of delegations deducted. -/
def deducted (ds : List Delegation) (validators : Validators) : Validators :=
  validators.filterMap fun addr val =>
    some { val with delegatorDeductions := ⟨val.delegatorDeductions.i + sharesIn ds addr⟩ }

theorem get_deducted (ds : List Delegation) (validators : Validators) (addr : String) :
    (deducted ds validators).get addr = (validators.get addr).map fun val =>
      { val with delegatorDeductions := ⟨val.delegatorDeductions.i + sharesIn ds addr⟩ } := by
  rw [deducted, SortedMap.get_filterMap]
  cases validators.get addr <;> rfl

theorem deducted_cons (d : Delegation) (ds : List Delegation) (validators : Validators) :
    deducted ds (deducted [d] validators) = deducted (d :: ds) validators := by
  apply SortedMap.ext_get
  intro addr
  rw [get_deducted, get_deducted, get_deducted, sharesIn_cons, sharesIn_cons, sharesIn_nil]
  cases validators.get addr with
  | none => rfl
  | some val => simp [Int.add_assoc]

/-- A delegation to a validator that is not in the tally deducts nothing. -/
theorem deducted_none {d : Delegation} (hget : validators.get d.validatorAddr = none) :
    deducted [d] validators = validators := by
  apply SortedMap.ext_get
  intro addr
  rw [get_deducted, sharesIn_cons, sharesIn_nil]
  by_cases haddr : d.validatorAddr = addr
  · rw [← haddr, hget]
    rfl
  · rw [if_neg haddr]
    cases validators.get addr with
    | none => rfl
    | some val => simp

theorem set_deducted {d : Delegation} {val : ValidatorGovInfo} (hget : validators.get d.validatorAddr = some val) :
    validators.set d.validatorAddr { val with
      delegatorDeductions := ⟨val.delegatorDeductions.i + d.shares.i⟩ } = deducted [d] validators := by
  apply SortedMap.ext_get
  intro addr
  rw [get_deducted, SortedMap.get_set, sharesIn_cons, sharesIn_nil]
  by_cases haddr : d.validatorAddr = addr
  · rw [if_pos haddr.symm, if_pos haddr, ← haddr, hget]
    simp
  · rw [if_neg (Ne.symm haddr), if_neg haddr]
    cases validators.get addr with
    | none => rfl
    | some val => simp

/-- The value of a delegation depends on the tokens and the shares of the validator alone. -/
theorem delegationValue_filterMap {g : String → ValidatorGovInfo → ValidatorGovInfo}
    (hg : ∀ addr val, (g addr val).bondedTokens = val.bondedTokens ∧
      (g addr val).delegatorShares = val.delegatorShares) :
    delegationValue (validators.filterMap fun addr val => some (g addr val)) = delegationValue validators := by
  funext d
  rw [delegationValue, delegationValue, SortedMap.get_filterMap]
  cases validators.get d.validatorAddr with
  | none => rfl
  | some val =>
    obtain ⟨htokens, hshares⟩ := hg d.validatorAddr val
    simp only [Option.bind_some, htokens, hshares]

theorem delegationValue_deducted (ds : List Delegation) :
    delegationValue (deducted ds validators) = delegationValue validators :=
  delegationValue_filterMap fun _ _ => ⟨rfl, rfl⟩

/-- Less is to be deducted after one delegation. -/
theorem Deductible.tail {d : Delegation} {ds : List Delegation} (hd : 0 ≤ d.shares.i)
    (h : ∀ addr val, validators.get addr = some val → Deductible (d :: ds) addr val) :
    ∀ addr val, (deducted [d] validators).get addr = some val → Deductible ds addr val := by
  intro addr val hget
  rw [get_deducted, sharesIn_cons, sharesIn_nil] at hget
  obtain ⟨val, hval, rfl⟩ := Option.map_eq_some_iff.mp hget
  have hold := h addr val hval
  have hcovered := hold.covered
  have hnonneg := hold.nonneg
  rw [sharesIn_cons] at hcovered
  refine ⟨hold.tokens, hold.shares, ?_, ?_, hold.fits, hold.product⟩
  · show 0 ≤ val.delegatorDeductions.i + _
    split_ifs <;> omega
  · show val.delegatorDeductions.i + _ + _ ≤ val.delegatorShares.i
    omega

theorem Deductible.value_nonneg {ds : List Delegation} (hds : ∀ d ∈ ds, 0 ≤ d.shares.i)
    (h : ∀ addr val, validators.get addr = some val → Deductible ds addr val) {d : Delegation} (hd : d ∈ ds) :
    0 ≤ delegationValue validators d := by
  rw [delegationValue]
  cases hget : validators.get d.validatorAddr with
  | none => exact Int.le_refl 0
  | some val =>
    have hval := h _ _ hget
    exact LegacyDec.quoRaw_nonneg (Int.mul_nonneg (hds d hd) hval.tokens) hval.shares.le

/-- A part of the shares: its product with the tokens fits, and its value is that of the quotient. -/
theorem bondedValue_eq {val : ValidatorGovInfo} {shares : Int} (htokens : 0 ≤ val.bondedTokens)
    (hpos : 0 < val.delegatorShares.i) (hproduct : LegacyDec.Fits (val.delegatorShares.i * val.bondedTokens))
    (hshares : 0 ≤ shares) (hle : shares ≤ val.delegatorShares.i)
    (hfit : LegacyDec.Fits (LegacyDec.quoRaw ⟨shares * val.bondedTokens⟩ val.delegatorShares)) :
    bondedValue ⟨shares⟩ val = .ok ⟨LegacyDec.quoRaw ⟨shares * val.bondedTokens⟩ val.delegatorShares⟩ := by
  have hpart : 0 ≤ shares * val.bondedTokens := Int.mul_nonneg hshares htokens
  have hwhole : shares * val.bondedTokens ≤ val.delegatorShares.i * val.bondedTokens :=
    Int.mul_le_mul_of_nonneg_right hle htokens
  have hmul : (LegacyDec.mulInt ⟨shares⟩ val.bondedTokens : Outcome String LegacyDec) =
      .ok ⟨shares * val.bondedTokens⟩ := by
    refine LegacyDec.check_eq_ok.mpr ⟨LegacyDec.Fits.of_abs_le ?_ hproduct, rfl⟩
    show (shares * val.bondedTokens).natAbs ≤ _
    omega
  rw [bondedValue, hmul, Outcome.ok_bind, LegacyDec.quo_eq_ok]
  exact ⟨hpos.ne', hfit, rfl⟩

/-- The loop over a voter's delegations gathers their values, and deducts their shares. -/
theorem creditDelegations_eq {options : List WeightedVoteOption} (hw : ∀ w ∈ options, WeightOK env w)
    (hnd : (options.map WeightedVoteOption.option).Nodup) {ds : List Delegation} (hds : ∀ d ∈ ds, 0 ≤ d.shares.i)
    (hval : ∀ addr val, validators.get addr = some val → Deductible ds addr val) {acc : Accum} (hacc : acc.Within)
    (hfit : LegacyDec.Fits (acc.totalVotingPower.i + (ds.map (delegationValue validators)).sum)) :
    ∃ acc', creditDelegations env options acc validators ds = .ok (acc', deducted ds validators) ∧ acc'.Within ∧
      acc' = ⟨⟨acc.totalVotingPower.i + (ds.map (delegationValue validators)).sum⟩,
        fun o => ⟨(acc.results o).i + (ds.map fun d => shareOf env (delegationValue validators d) options o).sum⟩,
        acc.votesToRemove⟩ := by
  induction ds generalizing acc validators with
  | nil =>
    have hsame : deducted [] validators = validators := by
      apply SortedMap.ext_get
      intro addr
      rw [get_deducted]
      cases validators.get addr <;> simp
    refine ⟨acc, ?_, hacc, by simp⟩
    rw [creditDelegations, hsame]
  | cons d rest ih =>
    obtain ⟨hd, hrest⟩ := List.forall_mem_cons.mp hds
    have hvalue := Deductible.value_nonneg hds hval List.mem_cons_self
    have hlater : 0 ≤ (rest.map (delegationValue validators)).sum := by
      apply List.sum_map_nonneg
      intro d' hd'
      exact Deductible.value_nonneg hds hval (List.mem_cons_of_mem d hd')
    have htotal := (hacc .yes).1.trans (hacc .yes).2
    have htail := Deductible.tail hd hval
    rw [List.map_cons, List.sum_cons, ← Int.add_assoc] at hfit
    have hpower : LegacyDec.Fits (acc.totalVotingPower.i + delegationValue validators d) :=
      LegacyDec.Fits.of_abs_le (by omega) hfit
    obtain ⟨hcredit, hwithin⟩ := credit_eq hacc hvalue hw hnd hpower
    have hnext := ih hrest htail hwithin
    rw [delegationValue_deducted, deducted_cons] at hnext
    obtain ⟨acc', hrun, hwithin', hacc'⟩ := hnext hfit
    refine ⟨acc', ?_, hwithin', ?_⟩
    · rw [creditDelegations]
      cases hget : validators.get d.validatorAddr with
      | none =>
        have hzero : delegationValue validators d = 0 := by rw [delegationValue, hget]
        rw [deducted_none hget] at hrun
        simpa only [hzero, shareOf_zero, Int.add_zero] using hrun
      | some val =>
        have hold := hval _ _ hget
        have hcovered := hold.covered
        have hnonneg := hold.nonneg
        have hothers := sharesIn_nonneg hrest d.validatorAddr
        rw [sharesIn_cons, if_pos rfl] at hcovered
        have hquo : delegationValue validators d =
            LegacyDec.quoRaw ⟨d.shares.i * val.bondedTokens⟩ val.delegatorShares := by rw [delegationValue, hget]
        have hadd : (val.delegatorDeductions.add d.shares : Outcome String LegacyDec) =
            .ok ⟨val.delegatorDeductions.i + d.shares.i⟩ :=
          LegacyDec.check_eq_ok.mpr ⟨LegacyDec.Fits.of_abs_le (by omega) hold.fits, rfl⟩
        have hbonded : bondedValue d.shares { val with
            delegatorDeductions := ⟨val.delegatorDeductions.i + d.shares.i⟩ } =
            .ok ⟨delegationValue validators d⟩ := by
          have hsmall : LegacyDec.Fits (delegationValue validators d) :=
            LegacyDec.Fits.of_abs_le (by omega) hpower
          have hle : d.shares.i ≤ val.delegatorShares.i := by omega
          rw [hquo] at hsmall ⊢
          exact bondedValue_eq hold.tokens hold.shares hold.product hd hle hsmall
        simp only [hadd, hbonded, hcredit, Outcome.ok_bind, set_deducted hget]
        exact hrun
    · rw [hacc']
      simp only [List.map_cons, List.sum_cons, Int.add_assoc]

/-! ## A walk over votes -/

theorem get_recordVote (valAddrStr : String) (options : List WeightedVoteOption) (addr : String) :
    (recordVote validators valAddrStr options).get addr = (validators.get addr).map fun val =>
      { val with vote := if valAddrStr = addr then options else val.vote } := by
  rw [recordVote]
  cases hget : validators.get valAddrStr with
  | none =>
    dsimp only
    by_cases haddr : valAddrStr = addr
    · rw [← haddr, hget]
      rfl
    · simp only [if_neg haddr]
      cases validators.get addr <;> rfl
  | some val =>
    dsimp only
    rw [SortedMap.get_set]
    by_cases haddr : valAddrStr = addr
    · rw [if_pos haddr.symm, ← haddr, hget]
      simp
    · rw [if_neg (Ne.symm haddr)]
      simp only [if_neg haddr]
      cases validators.get addr <;> rfl

theorem delegationValue_recordVote (valAddrStr : String) (options : List WeightedVoteOption) :
    delegationValue (recordVote validators valAddrStr options) = delegationValue validators := by
  funext d
  rw [delegationValue, delegationValue, get_recordVote]
  cases validators.get d.validatorAddr <;> rfl

theorem votedDelegations_cons (e : VoteKey × Vote) (rest : List (VoteKey × Vote)) :
    votedDelegations s (e :: rest) = s.delegations (ofLex e.1).2 ++ votedDelegations s rest := rfl

/-- The validators after the first vote, and then after the others. -/
theorem afterVotes_cons {e : VoteKey × Vote} {valAddrStr : String} (he : operatorOf env e = some valAddrStr)
    (rest : List (VoteKey × Vote)) :
    afterVotes env s (e :: rest) validators = afterVotes env s rest
      (deducted (s.delegations (ofLex e.1).2) (recordVote validators valAddrStr e.2.options)) := by
  apply SortedMap.ext_get
  intro addr
  rw [afterVotes, afterVotes, SortedMap.get_filterMap, SortedMap.get_filterMap, get_deducted, get_recordVote,
    votedDelegations_cons, sharesIn_append]
  cases validators.get addr with
  | none => rfl
  | some val => simp [operatorVote, he, Int.add_assoc]

/-- What is to be deducted for the votes of a walk, after the first of them. -/
theorem Deductible.vote {ds ds' : List Delegation} (hds : ∀ d ∈ ds, 0 ≤ d.shares.i) (valAddrStr : String)
    (options : List WeightedVoteOption)
    (h : ∀ addr val, validators.get addr = some val → Deductible (ds ++ ds') addr val) :
    ∀ addr val, (deducted ds (recordVote validators valAddrStr options)).get addr = some val →
      Deductible ds' addr val := by
  intro addr val hget
  rw [get_deducted, get_recordVote] at hget
  obtain ⟨val₁, hval₁, rfl⟩ := Option.map_eq_some_iff.mp hget
  obtain ⟨val₀, hval₀, rfl⟩ := Option.map_eq_some_iff.mp hval₁
  have hold := h addr val₀ hval₀
  have hcovered := hold.covered
  rw [sharesIn_append, ← Int.add_assoc] at hcovered
  exact ⟨hold.tokens, hold.shares, Int.add_nonneg hold.nonneg (sharesIn_nonneg hds addr), hcovered, hold.fits,
    hold.product⟩

theorem Deductible.recorded {ds ds' : List Delegation} (hds' : ∀ d ∈ ds', 0 ≤ d.shares.i) (valAddrStr : String)
    (options : List WeightedVoteOption)
    (h : ∀ addr val, validators.get addr = some val → Deductible (ds ++ ds') addr val) :
    ∀ addr val, (recordVote validators valAddrStr options).get addr = some val → Deductible ds addr val := by
  intro addr val hget
  rw [get_recordVote] at hget
  obtain ⟨val, hval, rfl⟩ := Option.map_eq_some_iff.mp hget
  have hold := h addr val hval
  have hcovered := hold.covered
  have hlater := sharesIn_nonneg hds' addr
  rw [sharesIn_append] at hcovered
  exact ⟨hold.tokens, hold.shares, hold.nonneg, by show val.delegatorDeductions.i + _ ≤ val.delegatorShares.i; omega,
    hold.fits, hold.product⟩

/-- A walk over votes gathers the values of the voters' delegations, and leaves the validators with
their deductions and votes. -/
theorem foldlM_defaultVote {es : List (VoteKey × Vote)} (hes : ∀ e ∈ es, CommunityVote env e)
    (hds : ∀ d ∈ votedDelegations s es, 0 ≤ d.shares.i)
    (hval : ∀ addr val, validators.get addr = some val → Deductible (votedDelegations s es) addr val)
    {acc : Accum} (hacc : acc.Within)
    (hfit : LegacyDec.Fits (acc.totalVotingPower.i + delegatedTotal s validators es)) :
    ∃ acc', es.foldlM (defaultVote env s) (acc, validators) = .ok (acc', afterVotes env s es validators) ∧
      acc'.Within ∧ acc' = ⟨⟨acc.totalVotingPower.i + delegatedTotal s validators es⟩,
        fun o => ⟨(acc.results o).i + delegatedShare env s validators es o⟩,
        acc.votesToRemove ++ es.map Prod.fst⟩ := by
  induction es generalizing acc validators with
  | nil =>
    have hsame : afterVotes env s [] validators = validators := by
      apply SortedMap.ext_get
      intro addr
      rw [afterVotes, SortedMap.get_filterMap]
      cases validators.get addr <;> simp [votedDelegations, operatorVote]
    refine ⟨acc, ?_, hacc, by simp [delegatedTotal, delegatedShare, votedDelegations]⟩
    rw [hsame]
    rfl
  | cons e rest ih =>
    obtain ⟨he, hrest⟩ := List.forall_mem_cons.mp hes
    obtain ⟨valAddrStr, haddr⟩ := he.operator
    have hoperator : operatorOf env e = some valAddrStr := by rw [operatorOf, haddr]
    rw [votedDelegations_cons] at hds hval
    have hfirst : ∀ d ∈ s.delegations (ofLex e.1).2, 0 ≤ d.shares.i :=
      fun d hd => hds d (List.mem_append_left _ hd)
    have hlater : ∀ d ∈ votedDelegations s rest, 0 ≤ d.shares.i := fun d hd => hds d (List.mem_append_right _ hd)
    have hsplit : delegatedTotal s validators (e :: rest) =
        ((s.delegations (ofLex e.1).2).map (delegationValue validators)).sum + delegatedTotal s validators rest := by
      rw [delegatedTotal, votedDelegations_cons, List.map_append, List.sum_append]
      rfl
    have hothers : 0 ≤ delegatedTotal s validators rest := by
      apply List.sum_map_nonneg
      intro d hd
      exact Deductible.value_nonneg hds hval (List.mem_append_right _ hd)
    have hown : 0 ≤ ((s.delegations (ofLex e.1).2).map (delegationValue validators)).sum := by
      apply List.sum_map_nonneg
      intro d hd
      exact Deductible.value_nonneg hds hval (List.mem_append_left _ hd)
    have htotal := (hacc .yes).1.trans (hacc .yes).2
    rw [hsplit, ← Int.add_assoc] at hfit
    have hcredit := creditDelegations_eq he.weights he.distinct hfirst
      (Deductible.recorded hlater valAddrStr e.2.options hval) hacc
    rw [delegationValue_recordVote] at hcredit
    obtain ⟨acc₁, hrun, hwithin, hacc₁⟩ := hcredit (LegacyDec.Fits.of_abs_le (by omega) hfit)
    have hstep : defaultVote env s (acc, validators) e = .ok (acc₁.remove e.1,
        deducted (s.delegations (ofLex e.1).2) (recordVote validators valAddrStr e.2.options)) := by
      simp only [defaultVote, voterAddr, he.voter, haddr, Outcome.ofExcept, Outcome.ok_bind, hrun]
    have hvalues : delegationValue (deducted (s.delegations (ofLex e.1).2)
        (recordVote validators valAddrStr e.2.options)) = delegationValue validators :=
      (delegationValue_deducted _).trans (delegationValue_recordVote _ _)
    have hwithin' : (acc₁.remove e.1).Within := hwithin
    have hnext := ih hrest hlater (Deductible.vote hfirst valAddrStr e.2.options hval) hwithin'
    unfold delegatedTotal delegatedShare at hnext
    unfold delegatedTotal at hfit
    rw [hvalues, ← afterVotes_cons hoperator, hacc₁] at hnext
    obtain ⟨acc', hrest', hwithin'', hacc'⟩ := hnext hfit
    refine ⟨acc', ?_, hwithin'', ?_⟩
    · rw [List.foldlM_cons, hstep, Outcome.ok_bind, hacc₁]
      exact hrest'
    · rw [hacc', hsplit]
      simp [delegatedTotal, delegatedShare, Accum.remove, Int.add_assoc]

/-! ## The validators -/

/-- A validator after the walk: what is left of its shares fits, and its vote is one. -/
structure Speaks (env : Env) (val : ValidatorGovInfo) : Prop where
  deductible : 0 ≤ val.bondedTokens ∧ 0 < val.delegatorShares.i ∧ 0 ≤ val.delegatorDeductions.i ∧
    val.delegatorDeductions.i ≤ val.delegatorShares.i
  fits : LegacyDec.Fits val.delegatorShares.i
  product : LegacyDec.Fits (val.delegatorShares.i * val.bondedTokens)
  weights : ∀ w ∈ val.vote, WeightOK env w
  distinct : (val.vote.map WeightedVoteOption.option).Nodup

theorem Speaks.power_nonneg {val : ValidatorGovInfo} (h : Speaks env val) : 0 ≤ validatorPower val := by
  obtain ⟨htokens, hpos, _, hle⟩ := h.deductible
  unfold validatorPower
  split_ifs
  · exact Int.le_refl 0
  · exact LegacyDec.quoRaw_nonneg (Int.mul_nonneg (by omega) htokens) hpos.le

/-- What one validator adds. -/
theorem creditValidator_eq {val : ValidatorGovInfo} (h : Speaks env val) {acc : Accum} (hacc : acc.Within)
    (hfit : LegacyDec.Fits (acc.totalVotingPower.i + validatorPower val)) :
    ∃ acc', creditValidator env acc val = .ok acc' ∧ acc'.Within ∧
      acc' = ⟨⟨acc.totalVotingPower.i + validatorPower val⟩,
        fun o => ⟨(acc.results o).i + validatorShare env o val⟩, acc.votesToRemove⟩ := by
  have hpower := h.power_nonneg
  have htotal := (hacc .yes).1.trans (hacc .yes).2
  cases hvote : val.vote with
  | nil =>
    have hzero : validatorPower val = 0 := if_pos hvote
    refine ⟨acc, ?_, hacc, ?_⟩
    · rw [creditValidator, hvote]
    · simp only [validatorShare, hzero, shareOf_zero, Int.add_zero]
  | cons w rest =>
    have hquo : validatorPower val = LegacyDec.quoRaw
        ⟨(val.delegatorShares.i - val.delegatorDeductions.i) * val.bondedTokens⟩ val.delegatorShares :=
      if_neg (by rw [hvote]; exact List.cons_ne_nil w rest)
    obtain ⟨htokens, hpos, hnonneg, hle⟩ := h.deductible
    have hsub : (val.delegatorShares.sub val.delegatorDeductions : Outcome String LegacyDec) =
        .ok ⟨val.delegatorShares.i - val.delegatorDeductions.i⟩ :=
      LegacyDec.check_eq_ok.mpr ⟨LegacyDec.Fits.of_abs_le (by omega) h.fits, rfl⟩
    have hbonded : bondedValue ⟨val.delegatorShares.i - val.delegatorDeductions.i⟩ val = .ok ⟨validatorPower val⟩ := by
      have hsmall : LegacyDec.Fits (validatorPower val) := LegacyDec.Fits.of_abs_le (by omega) hfit
      rw [hquo] at hsmall ⊢
      exact bondedValue_eq htokens hpos h.product (by omega) (by omega) hsmall
    obtain ⟨hcredit, hwithin⟩ := credit_eq hacc hpower h.weights h.distinct hfit
    refine ⟨_, ?_, hwithin, rfl⟩
    rw [hvote] at hcredit
    rw [creditValidator, hvote]
    simp only [hsub, hbonded, Outcome.ok_bind]
    rw [hcredit]

theorem foldlM_creditValidator {vals : List ValidatorGovInfo} (hvals : ∀ val ∈ vals, Speaks env val) {acc : Accum}
    (hacc : acc.Within) (hfit : LegacyDec.Fits (acc.totalVotingPower.i + (vals.map validatorPower).sum)) :
    vals.foldlM (creditValidator env) acc = .ok ⟨⟨acc.totalVotingPower.i + (vals.map validatorPower).sum⟩,
      fun o => ⟨(acc.results o).i + (vals.map (validatorShare env o)).sum⟩, acc.votesToRemove⟩ := by
  induction vals generalizing acc with
  | nil => simp
  | cons val rest ih =>
    obtain ⟨hval, hrest⟩ := List.forall_mem_cons.mp hvals
    have hpower := hval.power_nonneg
    have hlater : 0 ≤ (rest.map validatorPower).sum := by
      apply List.sum_map_nonneg
      intro val' hval'
      exact (hrest val' hval').power_nonneg
    have htotal := (hacc .yes).1.trans (hacc .yes).2
    rw [List.map_cons, List.sum_cons, ← Int.add_assoc] at hfit
    obtain ⟨acc₁, hrun, hwithin, rfl⟩ := creditValidator_eq hval hacc (LegacyDec.Fits.of_abs_le (by omega) hfit)
    rw [List.foldlM_cons, hrun, Outcome.ok_bind, ih hrest hwithin hfit]
    simp [Int.add_assoc]

variable (env) in
/-- The vote of an operator is one of the votes. -/
theorem operatorVote_mem (es : List (VoteKey × Vote)) (addr : String) (options : List WeightedVoteOption) :
    operatorVote env es addr options = options ∨ ∃ e ∈ es, operatorVote env es addr options = e.2.options := by
  induction es generalizing options with
  | nil => exact .inl rfl
  | cons e rest ih =>
    rw [operatorVote, List.foldl_cons]
    split_ifs with hop
    · rcases ih e.2.options with hsame | ⟨e', he', heq⟩
      · exact .inr ⟨e, List.mem_cons_self, hsame⟩
      · exact .inr ⟨e', List.mem_cons_of_mem e he', heq⟩
    · rcases ih options with hsame | ⟨e', he', heq⟩
      · exact .inl hsame
      · exact .inr ⟨e', List.mem_cons_of_mem e he', heq⟩

theorem Ready.speaks {es : List (VoteKey × Vote)} (h : Ready env s validators es) {addr : String}
    {val : ValidatorGovInfo} (hget : (afterVotes env s es validators).get addr = some val) : Speaks env val := by
  rw [afterVotes, SortedMap.get_filterMap] at hget
  obtain ⟨val₀, hval₀, heq⟩ := Option.bind_eq_some_iff.mp hget
  cases heq
  have hready := h.validators addr val₀ hval₀
  have hvoted := sharesIn_nonneg h.delegations addr
  have hdeductions : (val₀.delegatorDeductions.i + sharesIn (votedDelegations s es) addr) =
      sharesIn (votedDelegations s es) addr := by
    rw [hready.deductions]
    exact Int.zero_add _
  rw [hready.vote, hdeductions]
  refine ⟨⟨hready.tokens, hready.shares, hvoted, hready.voted⟩, hready.fits, hready.product, ?_, ?_⟩
  · rcases operatorVote_mem env es addr [] with hnone | ⟨e, he, heq⟩
    · dsimp only
      rw [hnone]
      simp
    · dsimp only
      rw [heq]
      exact (h.votes e he).weights
  · rcases operatorVote_mem env es addr [] with hnone | ⟨e, he, heq⟩
    · dsimp only
      rw [hnone]
      exact List.nodup_nil
    · dsimp only
      rw [heq]
      exact (h.votes e he).distinct

theorem Ready.deductible {es : List (VoteKey × Vote)} (h : Ready env s validators es) :
    ∀ addr val, validators.get addr = some val → Deductible (votedDelegations s es) addr val := by
  intro addr val hget
  have hready := h.validators addr val hget
  have hzero : val.delegatorDeductions.i = 0 := congrArg LegacyDec.i hready.deductions
  exact ⟨hready.tokens, hready.shares, hzero.ge, by rw [hzero, Int.zero_add]; exact hready.voted, hready.fits,
    hready.product⟩

/-! ## No share counts twice -/

/-- The values of the delegations to one validator. -/
def valueTo (val : ValidatorGovInfo) (ds : List Delegation) (addr : String) : Int :=
  (ds.map fun d => if addr = d.validatorAddr then
    LegacyDec.quoRaw ⟨d.shares.i * val.bondedTokens⟩ val.delegatorShares else 0).sum

/-- The number of delegations to one validator. -/
def countTo (ds : List Delegation) (addr : String) : Int :=
  (ds.map fun d => if addr = d.validatorAddr then (1 : Int) else 0).sum

/-- Delegation by delegation, or validator by validator. -/
theorem sum_delegationValue (ds : List Delegation) :
    (ds.map (delegationValue validators)).sum = validators.sumOf fun addr val => valueTo val ds addr := by
  induction ds with
  | nil =>
    symm
    apply List.sum_eq_zero
    intro x hx
    obtain ⟨e, _, rfl⟩ := List.mem_map.mp hx
    rfl
  | cons d rest ih =>
    have hone : delegationValue validators d = validators.sumOf fun addr val =>
        if addr = d.validatorAddr then LegacyDec.quoRaw ⟨d.shares.i * val.bondedTokens⟩ val.delegatorShares else 0 := by
      rw [SortedMap.sumOf_single (fun _ (val : ValidatorGovInfo) =>
        LegacyDec.quoRaw ⟨d.shares.i * val.bondedTokens⟩ val.delegatorShares), delegationValue]
      cases validators.get d.validatorAddr <;> rfl
    rw [List.map_cons, List.sum_cons, hone, ih]
    exact (List.sum_map_add).symm

variable (validators) in
theorem sum_countTo_le (ds : List Delegation) :
    (validators.sumOf fun addr _ => countTo ds addr) ≤ ds.length := by
  induction ds with
  | nil =>
    apply le_of_eq
    apply List.sum_eq_zero
    intro x hx
    obtain ⟨e, _, rfl⟩ := List.mem_map.mp hx
    rfl
  | cons d rest ih =>
    have hone : (validators.sumOf fun addr _ => if addr = d.validatorAddr then (1 : Int) else 0) ≤ 1 := by
      rw [SortedMap.sumOf_single (fun _ _ => (1 : Int))]
      cases validators.get d.validatorAddr <;> simp
    have hsplit : (validators.sumOf fun addr _ => countTo (d :: rest) addr) =
        (validators.sumOf fun addr _ => if addr = d.validatorAddr then (1 : Int) else 0) +
          validators.sumOf fun addr _ => countTo rest addr := List.sum_map_add
    rw [hsplit, List.length_cons]
    push_cast
    omega

/-- The delegations to a validator count for their part of its tokens, up to the rounding. -/
theorem valueTo_le {ds : List Delegation} (hds : ∀ d ∈ ds, 0 ≤ d.shares.i) {val : ValidatorGovInfo}
    (htokens : 0 ≤ val.bondedTokens) (hpos : 0 < val.delegatorShares.i) (addr : String) :
    2 * (valueTo val ds addr * val.delegatorShares.i) ≤
      2 * (sharesIn ds addr * val.bondedTokens * LegacyDec.precision) + countTo ds addr * val.delegatorShares.i := by
  induction ds with
  | nil => simp [valueTo, countTo]
  | cons d rest ih =>
    obtain ⟨hd, hrest⟩ := List.forall_mem_cons.mp hds
    have hnext := ih hrest
    have hvalue : valueTo val (d :: rest) addr = (if addr = d.validatorAddr then
        LegacyDec.quoRaw ⟨d.shares.i * val.bondedTokens⟩ val.delegatorShares else 0) + valueTo val rest addr := rfl
    have hcount : countTo (d :: rest) addr = (if addr = d.validatorAddr then 1 else 0) + countTo rest addr := rfl
    rw [hvalue, hcount, sharesIn_cons]
    by_cases haddr : addr = d.validatorAddr
    · have hupper := LegacyDec.quoRaw_upper (a := ⟨d.shares.i * val.bondedTokens⟩) (Int.mul_nonneg hd htokens) hpos
      rw [if_pos haddr, if_pos haddr, if_pos haddr.symm]
      linarith
    · rw [if_neg haddr, if_neg haddr, if_neg (Ne.symm haddr), Int.zero_add, Int.zero_add, Int.zero_add]
      exact hnext

/-- The delegations to a validator and what its operator speaks for, together: no more than its
tokens, up to the rounding. -/
theorem validator_le {ds : List Delegation} (hds : ∀ d ∈ ds, 0 ≤ d.shares.i) {val : ValidatorGovInfo} {addr : String}
    (htokens : 0 ≤ val.bondedTokens) (hpos : 0 < val.delegatorShares.i)
    (hvoted : sharesIn ds addr ≤ val.delegatorShares.i) (vote : List WeightedVoteOption) :
    2 * (valueTo val ds addr + validatorPower { val with delegatorDeductions := ⟨sharesIn ds addr⟩, vote }) ≤
      2 * (val.bondedTokens * LegacyDec.precision) + countTo ds addr + 1 := by
  have hP : (0 : Int) ≤ LegacyDec.precision := Int.natCast_nonneg _
  have hdelegated := valueTo_le hds htokens hpos addr
  have hleft : 0 ≤ (val.delegatorShares.i - sharesIn ds addr) * val.bondedTokens :=
    Int.mul_nonneg (by omega) htokens
  have hoperator : 2 * (validatorPower { val with delegatorDeductions := ⟨sharesIn ds addr⟩, vote } *
      val.delegatorShares.i) ≤ 2 * ((val.delegatorShares.i - sharesIn ds addr) * val.bondedTokens *
        LegacyDec.precision) + val.delegatorShares.i := by
    unfold validatorPower
    split_ifs
    · have hproduct := Int.mul_nonneg hleft hP
      omega
    · exact LegacyDec.quoRaw_upper (a := ⟨(val.delegatorShares.i - sharesIn ds addr) * val.bondedTokens⟩) hleft hpos
  refine Int.le_of_mul_le_mul_right ?_ hpos
  linarith

theorem Ready.total_le {es : List (VoteKey × Vote)} (h : Ready env s validators es) :
    2 * defaultTotal env s validators es ≤
      2 * (validators.sumOf fun _ val => val.bondedTokens * (LegacyDec.precision : Int)) +
        (votedDelegations s es).length + validators.entries.length := by
  have hcount := sum_countTo_le validators (votedDelegations s es)
  have hafter : (afterVotes env s es validators).sumOf (fun _ val => validatorPower val) =
      validators.sumOf fun addr val => validatorPower { val with
        delegatorDeductions := ⟨val.delegatorDeductions.i + sharesIn (votedDelegations s es) addr⟩
        vote := operatorVote env es addr val.vote } := SortedMap.sumOf_filterMap _ _ _
  -- validator by validator
  have heach : ∀ e ∈ validators.entries,
      2 * (valueTo e.2 (votedDelegations s es) e.1 + validatorPower { e.2 with
        delegatorDeductions := ⟨e.2.delegatorDeductions.i + sharesIn (votedDelegations s es) e.1⟩
        vote := operatorVote env es e.1 e.2.vote }) ≤
      2 * (e.2.bondedTokens * (LegacyDec.precision : Int)) + countTo (votedDelegations s es) e.1 + 1 := by
    intro e he
    have hready := h.validators e.1 e.2 (SortedMap.get_eq_some.mpr he)
    have hzero : e.2.delegatorDeductions.i = 0 := congrArg LegacyDec.i hready.deductions
    rw [hzero, Int.zero_add]
    exact validator_le h.delegations hready.tokens hready.shares hready.voted _
  have hsum := List.sum_le_sum heach
  simp only [List.sum_map_add, List.sum_map_mul_left, List.map_const', List.sum_replicate, mul_one,
    nsmul_eq_mul] at hsum
  rw [defaultTotal, delegatedTotal, sum_delegationValue, hafter]
  unfold SortedMap.sumOf at hcount ⊢
  dsimp only at hcount ⊢
  omega

/-! ## The tally -/

theorem doCommunityTallyFn_default {proposalId : Nat} (hactive : doCommunityGovernanceActive s = false)
    (hready : Ready env s validators (s.votesOf proposalId))
    (hfit : LegacyDec.Fits (defaultTotal env s validators (s.votesOf proposalId))) :
    doCommunityTallyFn env s proposalId validators = .ok (removeVotes s ((s.votesOf proposalId).map Prod.fst),
      ⟨⟨defaultTotal env s validators (s.votesOf proposalId)⟩,
        fun o => ⟨defaultResult env s validators (s.votesOf proposalId) o⟩⟩) := by
  obtain ⟨after, hafter⟩ : ∃ after, afterVotes env s (s.votesOf proposalId) validators = after := ⟨_, rfl⟩
  have hspeaks : ∀ val ∈ env.rangeOrder after, Speaks env val := by
    intro val hmem
    obtain ⟨e, he, rfl⟩ := List.mem_map.mp ((env.rangeOrder_perm after).mem_iff.mp hmem)
    exact hready.speaks (hafter ▸ SortedMap.get_eq_some.mpr he)
  -- in the order of the map, or in that of the keys
  have hsum : ∀ f : ValidatorGovInfo → Int, ((env.rangeOrder after).map f).sum = after.sumOf fun _ val => f val := by
    intro f
    rw [((env.rangeOrder_perm after).map f).sum_eq, List.map_map]
    rfl
  have hspoken : 0 ≤ ((env.rangeOrder after).map validatorPower).sum := by
    apply List.sum_map_nonneg
    intro val hmem
    exact (hspeaks val hmem).power_nonneg
  have hdelegated : 0 ≤ delegatedTotal s validators (s.votesOf proposalId) := by
    apply List.sum_map_nonneg
    intro d hd
    exact Deductible.value_nonneg hready.delegations hready.deductible hd
  have hzero : ∀ n, LegacyDec.zero.i + n = n := Int.zero_add
  rw [defaultTotal, hafter, ← hsum] at hfit ⊢
  have hwalk := foldlM_defaultVote hready.votes hready.delegations hready.deductible Accum.within_empty
    (LegacyDec.Fits.of_abs_le (by rw [Accum.empty, hzero]; omega) hfit)
  rw [hafter] at hwalk
  obtain ⟨acc, hrun, hwithin, rfl⟩ := hwalk
  have hfold := foldlM_creditValidator hspeaks hwithin (by
    rw [Accum.empty]
    dsimp only
    rw [hzero]
    exact hfit)
  rw [doCommunityTallyFn, if_pos hactive, defaultCommunityTallyFn, walk, hrun]
  simp only [Outcome.mapErr, Outcome.ok_bind, hfold]
  simp only [Accum.empty, emptyCommunityTallyResults, hzero, List.nil_append, defaultResult, hafter, hsum]

/-- Before community governance, with numbers that fit, the tally returns the bonded value of the
voters' delegations and, for each validator whose operator voted, that of the shares whose
delegators did not. It is the same for every order in which the map of validators is ranged over.
Each share counts once: the total is at most the bonded tokens, but for half a unit of the last
digit for each quotient. The votes of the proposal are removed. -/
theorem default_tally {proposalId : Nat} (hactive : doCommunityGovernanceActive s = false)
    (hready : Ready env s validators (s.votesOf proposalId))
    (hfit : LegacyDec.Fits (defaultTotal env s validators (s.votesOf proposalId))) :
    ∃ s' t, doCommunityTallyFn env s proposalId validators = .ok (s', t) ∧
      t.totalVotingPower = ⟨defaultTotal env s validators (s.votesOf proposalId)⟩ ∧
      (∀ o, t.results o = ⟨defaultResult env s validators (s.votesOf proposalId) o⟩) ∧
      (∀ order horder, doCommunityTallyFn { env with rangeOrder := order, rangeOrder_perm := horder } s proposalId
        validators = .ok (s', t)) ∧
      2 * t.totalVotingPower.i ≤ 2 * (validators.sumOf fun _ val => val.bondedTokens * (LegacyDec.precision : Int)) +
        (votedDelegations s (s.votesOf proposalId)).length + validators.entries.length ∧
      (∀ k, s'.votes.get k = if (ofLex k).1 = proposalId then none else s.votes.get k) ∧
      s' = { s with votes := s'.votes } := by
  refine ⟨_, _, doCommunityTallyFn_default hactive hready hfit, rfl, fun _ => rfl, ?_, hready.total_le,
    get_removeVotes s proposalId, rfl⟩
  intro order horder
  -- the votes are as well formed with another order
  have hother : Ready { env with rangeOrder := order, rangeOrder_perm := horder } s validators
      (s.votesOf proposalId) :=
    ⟨fun e he => ⟨(hready.votes e he).voter, (hready.votes e he).operator, (hready.votes e he).weights,
      (hready.votes e he).distinct⟩, hready.delegations, hready.validators⟩
  exact doCommunityTallyFn_default hactive hother hfit

namespace Sample

open Sdk.Sample

/-- Alice operates the only validator, all of its hundred shares are Bob's, and both vote. -/
def before : State := { communityState votes 100 with height := 1 }

/-- Bob's shares count for Bob's vote, and no more for Alice's. -/
theorem bob_overrides_alice :
    ∃ s' t, doCommunityTallyFn community before 1 (validatorsOf 100) = .ok (s', t) ∧
      t.totalVotingPower = ⟨100 * 10 ^ 18⟩ ∧ t.results .yes = ⟨100 * 10 ^ 18⟩ ∧ t.results .no = ⟨0⟩ := by
  have hvotes : before.votesOf 1 = [(toLex (1, alice), aliceVote), (toLex (1, bob), bobVote)] := by rfl
  have hready : Ready community before (validatorsOf 100) (before.votesOf 1) := by
    refine ⟨communityVotes 100, ?_, ?_⟩
    · rw [hvotes]
      decide +kernel
    · intro addr val hget
      rw [validatorsOf, SortedMap.get_set] at hget
      split_ifs at hget with haddr
      · cases hget
        rw [haddr]
        exact ⟨by decide, by decide, rfl, rfl, by decide +kernel, by decide +kernel, by decide +kernel⟩
      · cases hget
  obtain ⟨s', t, htally, htotal, hresults, _⟩ := default_tally (by decide) hready (by decide +kernel)
  exact ⟨s', t, htally, htotal.trans (by decide +kernel), (hresults .yes).trans (by decide +kernel),
    (hresults .no).trans (by decide +kernel)⟩

end Sample

end Gov
