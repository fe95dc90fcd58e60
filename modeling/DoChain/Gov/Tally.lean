import DoChain.Dodx.Keeper
import Mathlib.Data.Prod.Lex

/- The tally of governance votes (`app/keepers/gov_tally.go`).

   Correspondence (Go ↔ Lean):
     `DoCommunityTallyFn`      ↔ `doCommunityTallyFn`
     `dodxStakedTallyFn`       ↔ `dodxStakedTallyFn`
     `defaultCommunityTallyFn` ↔ `defaultCommunityTallyFn`
     `capCommunityVoterPower`  ↔ `capCommunityVoterPower`

   The votes are a store keyed by proposal and voter; a walk over one proposal's votes
   is a fold over the entries with its number. Before the fork height the tally is the
   usual one by delegations, after it each voter's power is capped, and with DODx
   governance the power is the DODx stake and nothing else.

   A weight that does not parse is a nil decimal, and multiplying by it panics. The
   errors of the store itself (reading the bonded tokens, removing a key that was read)
   are left out.

   `tally_exact` says what the DODx tally returns: the stakes of the voters, split
   among the options without loss. -/

namespace Gov

open Sdk

/-! ## State -/

inductive VoteOption where
  | yes
  | abstain
  | no
  | noWithVeto
  deriving DecidableEq, Repr

structure WeightedVoteOption where
  option : VoteOption
  weight : String

structure Vote where
  voter : String
  options : List WeightedVoteOption

/-- A vote's key: the proposal, then the voter. -/
abbrev VoteKey := ℕ ×ₗ AccAddress

structure Delegation where
  validatorAddr : String
  shares : LegacyDec

structure ValidatorGovInfo where
  bondedTokens : Int
  delegatorShares : LegacyDec
  delegatorDeductions : LegacyDec
  vote : List WeightedVoteOption

abbrev Validators := SortedMap String ValidatorGovInfo

/-- What the tally calls of the SDK and of the language. -/
structure Env where
  bech32 : Bech32
  /-- the text of an operator address -/
  valAddressString : AccAddress → Except String String
  /-- `LegacyNewDecFromStr` -/
  decFromStr : String → Option LegacyDec
  /-- the order in which a map is ranged over -/
  rangeOrder : Validators → List ValidatorGovInfo
  rangeOrder_perm : ∀ vs, (rangeOrder vs).Perm (vs.entries.map Prod.snd)

/-- The part of the chain's state that a tally reads or writes. -/
structure State where
  height : Int
  votes : SortedMap VoteKey Vote
  dodx : Dodx.Store
  delegations : AccAddress → List Delegation
  totalBonded : Int

abbrev Results := VoteOption → LegacyDec

def emptyCommunityTallyResults : Results := fun _ => .zero

/-- What a walk over the votes has gathered. -/
structure Accum where
  totalVotingPower : LegacyDec
  results : Results
  votesToRemove : List VoteKey

def Accum.empty : Accum := ⟨.zero, emptyCommunityTallyResults, []⟩

def Accum.remove (acc : Accum) (key : VoteKey) : Accum :=
  { acc with votesToRemove := acc.votesToRemove ++ [key] }

/-- What a tally returns. -/
structure Tally where
  totalVotingPower : LegacyDec
  results : Results

variable (env : Env)

/-! ## One vote -/

def optionWeight (text : String) : Outcome String LegacyDec :=
  match env.decFromStr text with
  | some w => .ok w
  | none => .panic "invalid memory address or nil pointer dereference"

/-- The loop over a vote's options. -/
def addOptions (votingPower : LegacyDec) (results : Results) :
    List WeightedVoteOption → Outcome String Results
  | [] => .ok results
  | o :: rest => do
    let weight ← optionWeight env o.weight
    let share ← votingPower.mul weight
    let sum ← (results o.option).add share
    addOptions votingPower (Function.update results o.option sum) rest

/-- Give a power to the options of a vote and to the total. -/
def credit (acc : Accum) (votingPower : LegacyDec) (options : List WeightedVoteOption) :
    Outcome String Accum := do
  let results ← addOptions env votingPower acc.results options
  let total ← acc.totalVotingPower.add votingPower
  .ok { acc with totalVotingPower := total, results := results }

def voterAddr (vote : Vote) : Outcome String AccAddress :=
  .ofExcept id (env.bech32.accAddressFromBech32 vote.voter)

/-- The bonded tokens that shares of a validator stand for. -/
def bondedValue (shares : LegacyDec) (val : ValidatorGovInfo) : Outcome String LegacyDec := do
  let tokens ← shares.mulInt val.bondedTokens
  tokens.quo val.delegatorShares

/-! ## Walking the votes of a proposal -/

def State.votesOf (s : State) (proposalId : Nat) : List (VoteKey × Vote) :=
  s.votes.entries.filter (fun e => (ofLex e.1).1 = proposalId)

def walk {α : Type} (f : α → VoteKey × Vote → Outcome String α) (s : State) (proposalId : Nat)
    (acc : α) : Outcome String α :=
  (s.votesOf proposalId).foldlM f acc

def removeVotes (s : State) (keys : List VoteKey) : State :=
  { s with votes := keys.foldl SortedMap.erase s.votes }

/-! ## By DODx stake -/

def dodxVote (dodx : Dodx.Store) (acc : Accum) (e : VoteKey × Vote) : Outcome String Accum := do
  let voter ← voterAddr env e.2
  let votingPower := LegacyDec.ofInt (Dodx.getStakeAmount dodx voter)
  let acc ← credit env acc votingPower e.2.options
  .ok (acc.remove e.1)

def dodxStakedTallyFn (s : State) (proposalId : Nat) : Outcome String (State × Tally) := do
  let acc ← (walk (dodxVote env s.dodx) s proposalId Accum.empty).mapErr
    ("error while iterating DODx governance votes: " ++ ·)
  .ok (removeVotes s acc.votesToRemove, ⟨acc.totalVotingPower, acc.results⟩)

/-! ## By delegations, with a cap -/

def communityVoterPowerCapNumerator : Int := 25
def communityVoterPowerCapDenominator : Int := 1000

def capCommunityVoterPower (votingPower cap : LegacyDec) : LegacyDec :=
  if cap = .zero ∨ votingPower ≤ cap then votingPower else cap

/-- The loop over a voter's delegations. -/
def delegatedPower (validators : Validators) (power : LegacyDec) :
    List Delegation → Outcome String LegacyDec
  | [] => .ok power
  | d :: rest =>
    match validators.get d.validatorAddr with
    | none => delegatedPower validators power rest
    | some val => do
      let votingPower ← bondedValue d.shares val
      let power ← power.add votingPower
      delegatedPower validators power rest

def communityVote (s : State) (validators : Validators) (voterPowerCap : LegacyDec) (acc : Accum)
    (e : VoteKey × Vote) : Outcome String Accum := do
  let voter ← voterAddr env e.2
  let valAddrStr ← .ofExcept id (env.valAddressString voter)
  if (validators.get valAddrStr).isSome then .ok (acc.remove e.1)
  else do
    let power ← delegatedPower validators .zero (s.delegations voter)
    let acc ← credit env acc (capCommunityVoterPower power voterPowerCap) e.2.options
    .ok (acc.remove e.1)

def cappedCommunityTallyFn (s : State) (proposalId : Nat) (validators : Validators) :
    Outcome String (State × Tally) := do
  let bonded ← (LegacyDec.ofInt s.totalBonded).mulInt communityVoterPowerCapNumerator
  let voterPowerCap ← bonded.quoInt64 communityVoterPowerCapDenominator
  let acc ← (walk (communityVote env s validators voterPowerCap) s proposalId Accum.empty).mapErr
    ("error while iterating delegations: " ++ ·)
  .ok (removeVotes s acc.votesToRemove, ⟨acc.totalVotingPower, acc.results⟩)

/-! ## By delegations, before the fork -/

/-- A validator that votes is given the vote's options. -/
def recordVote (validators : Validators) (valAddrStr : String) (options : List WeightedVoteOption) :
    Validators :=
  match validators.get valAddrStr with
  | none => validators
  | some val => validators.set valAddrStr { val with vote := options }

/-- The loop over a voter's delegations, with the deductions it records. -/
def creditDelegations (options : List WeightedVoteOption) (acc : Accum) (validators : Validators) :
    List Delegation → Outcome String (Accum × Validators)
  | [] => .ok (acc, validators)
  | d :: rest =>
    match validators.get d.validatorAddr with
    | none => creditDelegations options acc validators rest
    | some val => do
      let deductions ← val.delegatorDeductions.add d.shares
      let val := { val with delegatorDeductions := deductions }
      let votingPower ← bondedValue d.shares val
      let acc ← credit env acc votingPower options
      creditDelegations options acc (validators.set d.validatorAddr val) rest

def defaultVote (s : State) (acc : Accum × Validators) (e : VoteKey × Vote) :
    Outcome String (Accum × Validators) := do
  let voter ← voterAddr env e.2
  let valAddrStr ← .ofExcept id (env.valAddressString voter)
  let validators := recordVote acc.2 valAddrStr e.2.options
  let (acc, validators) ← creditDelegations env e.2.options acc.1 validators (s.delegations voter)
  .ok (acc.remove e.1, validators)

/-- What a validator that voted adds for the shares whose delegators did not. -/
def creditValidator (acc : Accum) (val : ValidatorGovInfo) : Outcome String Accum :=
  match val.vote with
  | [] => .ok acc
  | options => do
    let sharesAfterDeductions ← val.delegatorShares.sub val.delegatorDeductions
    let votingPower ← bondedValue sharesAfterDeductions val
    credit env acc votingPower options

def defaultCommunityTallyFn (s : State) (proposalId : Nat) (validators : Validators) :
    Outcome String (State × Tally) := do
  let (acc, validators) ← (walk (defaultVote env s) s proposalId (Accum.empty, validators)).mapErr
    ("error while iterating delegations: " ++ ·)
  let s := removeVotes s acc.votesToRemove
  let acc ← (env.rangeOrder validators).foldlM (creditValidator env) acc
  .ok (s, ⟨acc.totalVotingPower, acc.results⟩)

/-! ## The choice of the tally -/

def doCommunityGovernanceHeight : Int := 1540500

def doCommunityGovernanceActive (s : State) : Bool :=
  decide (0 < doCommunityGovernanceHeight) && decide (doCommunityGovernanceHeight ≤ s.height)

def doCommunityTallyFn (s : State) (proposalId : Nat) (validators : Validators) :
    Outcome String (State × Tally) :=
  if doCommunityGovernanceActive s = false then defaultCommunityTallyFn env s proposalId validators
  else if s.dodx.governanceEnabled then dodxStakedTallyFn env s proposalId
  else cappedCommunityTallyFn env s proposalId validators

/-! ## What a vote adds -/

/-- The stored integer of an option's weight. -/
def weightOf (o : WeightedVoteOption) : Int := ((env.decFromStr o.weight).map LegacyDec.i).getD 0

/-- A vote as the governance module stores it: under its voter's address, with
positive weights that add up to one. -/
structure StoredVote (e : VoteKey × Vote) : Prop where
  voter : env.bech32.accAddressFromBech32 e.2.voter = .ok (ofLex e.1).2
  positive : ∀ o ∈ e.2.options, ∃ w, env.decFromStr o.weight = some w ∧ 0 < w.i
  sum_one : (e.2.options.map (weightOf env)).sum = LegacyDec.precision

/-- The sum of the four results. -/
def Results.sum (r : Results) : Int :=
  (r .yes).i + (r .abstain).i + (r .no).i + (r .noWithVeto).i

variable {env}

theorem Results.sum_update (r : Results) (o : VoteOption) (d : LegacyDec) :
    Results.sum (Function.update r o d) = r.sum + d.i - (r o).i := by
  cases o <;> simp [Results.sum, Function.update] <;> omega

theorem Results.le_sum {r : Results} (h : ∀ o, 0 ≤ (r o).i) (o : VoteOption) : (r o).i ≤ r.sum := by
  have hy := h .yes
  have ha := h .abstain
  have hn := h .no
  have hv := h .noWithVeto
  cases o <;> simp only [Results.sum] <;> omega

/-- A power that fits is split among the options by their weights. -/
theorem addOptions_spec {n : Int} (hn : 0 ≤ n) {options : List WeightedVoteOption} {r : Results}
    (hw : ∀ o ∈ options, ∃ w, env.decFromStr o.weight = some w ∧ 0 < w.i) (hr : ∀ o, 0 ≤ (r o).i)
    (hfit : LegacyDec.Fits (r.sum + n * (options.map (weightOf env)).sum)) :
    ∃ r', addOptions env (LegacyDec.ofInt n) r options = .ok r' ∧ (∀ o, 0 ≤ (r' o).i) ∧
      r'.sum = r.sum + n * (options.map (weightOf env)).sum := by
  induction options generalizing r with
  | nil => exact ⟨r, rfl, hr, by simp⟩
  | cons o rest ih =>
    obtain ⟨w, hparse, hpos⟩ := hw o List.mem_cons_self
    have hrest : ∀ o ∈ rest, ∃ w, env.decFromStr o.weight = some w ∧ 0 < w.i :=
      fun o ho => hw o (List.mem_cons_of_mem _ ho)
    have hweight : weightOf env o = w.i := by rw [weightOf, hparse]; rfl
    have hleft : 0 ≤ n * (rest.map (weightOf env)).sum := by
      apply Int.mul_nonneg hn
      apply List.sum_map_nonneg
      intro o' ho'
      obtain ⟨w', hw', hpos'⟩ := hrest o' ho'
      rw [weightOf, hw']
      exact hpos'.le
    have hshare : 0 ≤ n * w.i := Int.mul_nonneg hn hpos.le
    have hle := Results.le_sum hr o.option
    have hro := hr o.option
    rw [List.map_cons, List.sum_cons, hweight, Int.mul_add] at hfit ⊢
    have hbound := LegacyDec.fits_iff.mp hfit
    have hmul : ((LegacyDec.ofInt n).mul w : Outcome String LegacyDec) = .ok ⟨n * w.i⟩ := by
      rw [LegacyDec.mul, LegacyDec.mulRaw_ofInt]
      refine LegacyDec.check_eq_ok.mpr ⟨?_, rfl⟩
      rw [LegacyDec.fits_iff]
      omega
    have hadd : ((r o.option).add ⟨n * w.i⟩ : Outcome String LegacyDec)
        = .ok ⟨(r o.option).i + n * w.i⟩ := by
      refine LegacyDec.check_eq_ok.mpr ⟨LegacyDec.fits_iff.mpr ?_, rfl⟩
      dsimp only
      omega
    have hsum : Results.sum (Function.update r o.option ⟨(r o.option).i + n * w.i⟩)
        = r.sum + n * w.i := by
      rw [Results.sum_update]
      show r.sum + ((r o.option).i + n * w.i) - (r o.option).i = _
      omega
    have hnonneg : ∀ o', 0 ≤ (Function.update r o.option ⟨(r o.option).i + n * w.i⟩ o').i := by
      intro o'
      rw [Function.update_apply]
      split_ifs
      · show 0 ≤ (r o.option).i + n * w.i
        omega
      · exact hr o'
    obtain ⟨r', hr', hnn, hres⟩ := ih hrest hnonneg (by
      rw [hsum, Int.add_assoc]
      exact hfit)
    refine ⟨r', ?_, hnn, by omega⟩
    rw [addOptions, optionWeight, hparse, Outcome.ok_bind, hmul, Outcome.ok_bind, hadd]
    exact hr'

/-- The power that the votes of a list stand for. -/
def stakesOf (dodx : Dodx.Store) (es : List (VoteKey × Vote)) : Int :=
  (es.map (fun e => Dodx.getStakeAmount dodx (ofLex e.1).2)).sum

/-- What has been given out so far, for a power of `n` DODx. -/
structure Accum.Gathered (acc : Accum) (n : Int) : Prop where
  nonneg : ∀ o, 0 ≤ (acc.results o).i
  results_eq : Results.sum acc.results = n * LegacyDec.precision
  power_eq : acc.totalVotingPower = LegacyDec.ofInt n

theorem Accum.gathered_empty : Accum.empty.Gathered 0 :=
  ⟨fun _ => Int.le_refl 0, rfl, rfl⟩

theorem Accum.Gathered.sum_nonneg {acc : Accum} {n : Int} (h : acc.Gathered n) : 0 ≤ n * LegacyDec.precision := by
  rw [← h.results_eq]
  exact (h.nonneg .yes).trans (Results.le_sum h.nonneg .yes)

/-- One vote adds its voter's stake to the total and, in all, to the options. -/
theorem dodxVote_spec {dodx : Dodx.Store} {acc : Accum} {n : Int} {e : VoteKey × Vote}
    (hacc : acc.Gathered n) (he : StoredVote env e)
    (hstake : 0 ≤ Dodx.getStakeAmount dodx (ofLex e.1).2)
    (hfit : LegacyDec.Fits ((n + Dodx.getStakeAmount dodx (ofLex e.1).2) * LegacyDec.precision)) :
    ∃ acc', dodxVote env dodx acc e = .ok acc' ∧
      acc'.Gathered (n + Dodx.getStakeAmount dodx (ofLex e.1).2) ∧
      acc'.votesToRemove = acc.votesToRemove ++ [e.1] := by
  obtain ⟨k, hk⟩ : ∃ k, Dodx.getStakeAmount dodx (ofLex e.1).2 = k := ⟨_, rfl⟩
  rw [hk] at hstake hfit ⊢
  rw [Int.add_mul] at hfit
  obtain ⟨r, hr, hnonneg, hsum⟩ := addOptions_spec hstake he.positive hacc.nonneg (by
    rw [hacc.results_eq, he.sum_one]
    exact hfit)
  have hadd : (acc.totalVotingPower.add (LegacyDec.ofInt k) : Outcome String LegacyDec)
      = .ok (LegacyDec.ofInt (n + k)) := by
    rw [hacc.power_eq]
    refine LegacyDec.check_eq_ok.mpr ⟨hfit, ?_⟩
    rw [LegacyDec.ofInt, Int.add_mul]
    rfl
  refine ⟨⟨LegacyDec.ofInt (n + k), r, acc.votesToRemove ++ [e.1]⟩, ?_, ⟨hnonneg, ?_, rfl⟩, rfl⟩
  · simp only [dodxVote, voterAddr, he.voter, Outcome.ofExcept, Outcome.ok_bind, credit, hk, hr, hadd]
    rfl
  · show r.sum = _
    rw [hsum, hacc.results_eq, he.sum_one, Int.add_mul]

/-- A walk over votes gathers the stakes of their voters and the keys of all. -/
theorem foldlM_dodxVote {dodx : Dodx.Store} (hdodx : ∀ a, 0 ≤ Dodx.getStakeAmount dodx a)
    {es : List (VoteKey × Vote)} (hes : ∀ e ∈ es, StoredVote env e) {acc : Accum} {n : Int}
    (hacc : acc.Gathered n) (hfit : LegacyDec.Fits ((n + stakesOf dodx es) * LegacyDec.precision)) :
    ∃ acc', es.foldlM (dodxVote env dodx) acc = .ok acc' ∧ acc'.Gathered (n + stakesOf dodx es) ∧
      acc'.votesToRemove = acc.votesToRemove ++ es.map Prod.fst := by
  induction es generalizing acc n with
  | nil =>
    refine ⟨acc, rfl, ?_, (List.append_nil _).symm⟩
    rw [show n + stakesOf dodx [] = n from Int.add_zero n]
    exact hacc
  | cons e rest ih =>
    have hcons : n + stakesOf dodx (e :: rest)
        = n + Dodx.getStakeAmount dodx (ofLex e.1).2 + stakesOf dodx rest := by
      rw [stakesOf, List.map_cons, List.sum_cons, ← Int.add_assoc]
      rfl
    rw [hcons] at hfit ⊢
    have hrest : 0 ≤ stakesOf dodx rest := by
      apply List.sum_map_nonneg
      intro e' _
      exact hdodx _
    have hstep : LegacyDec.Fits ((n + Dodx.getStakeAmount dodx (ofLex e.1).2) * LegacyDec.precision) := by
      have hlow : 0 ≤ (n + Dodx.getStakeAmount dodx (ofLex e.1).2) * (LegacyDec.precision : Int) := by
        rw [Int.add_mul]
        exact Int.add_nonneg hacc.sum_nonneg (Int.mul_nonneg (hdodx _) (Int.natCast_nonneg _))
      have hle : (n + Dodx.getStakeAmount dodx (ofLex e.1).2) * (LegacyDec.precision : Int) ≤
          (n + Dodx.getStakeAmount dodx (ofLex e.1).2 + stakesOf dodx rest) * LegacyDec.precision :=
        Int.mul_le_mul_of_nonneg_right (by omega) (Int.natCast_nonneg _)
      exact .of_abs_le (by omega) hfit
    obtain ⟨acc₁, hvote, hacc₁, hrem₁⟩ :=
      dodxVote_spec hacc (hes e List.mem_cons_self) (hdodx _) hstep
    obtain ⟨acc', hfold, hacc', hrem⟩ :=
      ih (fun e' he' => hes e' (List.mem_cons_of_mem _ he')) hacc₁ hfit
    refine ⟨acc', ?_, hacc', ?_⟩
    · rw [List.foldlM_cons, hvote]
      exact hfold
    · rw [hrem, hrem₁, List.append_assoc]
      rfl

/-! ## The votes of a proposal -/

/-- The voters of a proposal. -/
def State.voters (s : State) (proposalId : Nat) : List AccAddress :=
  (s.votesOf proposalId).map (fun e => (ofLex e.1).2)

theorem State.mem_votesOf {s : State} {proposalId : Nat} {e : VoteKey × Vote} :
    e ∈ s.votesOf proposalId ↔ s.votes.get e.1 = some e.2 ∧ (ofLex e.1).1 = proposalId := by
  rw [votesOf, List.mem_filter, decide_eq_true_iff, ← SortedMap.get_eq_some]

/-- Each voter of a proposal has one vote on it. -/
theorem State.voters_nodup (s : State) (proposalId : Nat) : (s.voters proposalId).Nodup := by
  have hsorted : (s.votesOf proposalId).Pairwise (fun a b => a.1 < b.1) := s.votes.sorted.filter _
  refine List.pairwise_map.mpr ?_
  refine hsorted.imp_of_mem ?_
  intro a b ha hb hlt heq
  -- keys of one proposal differ in the voter
  have hid : (ofLex a.1).1 = (ofLex b.1).1 :=
    (State.mem_votesOf.mp ha).2.trans (State.mem_votesOf.mp hb).2.symm
  have hkey : a.1 = b.1 := congrArg toLex (Prod.ext hid heq)
  exact hlt.ne hkey

/-- Removing the keys of the votes that were walked removes the proposal's votes and
no others. -/
theorem get_removeVotes (s : State) (proposalId : Nat) (k : VoteKey) :
    (removeVotes s ((s.votesOf proposalId).map Prod.fst)).votes.get k =
      if (ofLex k).1 = proposalId then none else s.votes.get k := by
  rw [removeVotes, SortedMap.get_foldl_erase]
  by_cases hid : (ofLex k).1 = proposalId
  · rw [if_pos hid]
    split_ifs with hmem
    · rfl
    · cases hget : s.votes.get k with
      | none => rfl
      | some v =>
        have hin : (k, v) ∈ s.votesOf proposalId := State.mem_votesOf.mpr ⟨hget, hid⟩
        exact absurd (List.mem_map_of_mem (f := Prod.fst) hin) hmem
  · rw [if_neg hid, if_neg]
    intro hmem
    obtain ⟨e, he, rfl⟩ := List.mem_map.mp hmem
    exact hid (State.mem_votesOf.mp he).2

/-- The DODx tally returns the sum of the voters' stakes, splits it among the options without
loss, reads no delegation, and leaves the votes of the other proposals. The total stake has at
most 256 bits, so the sum is in the range of a decimal. -/
theorem tally_exact {dodxEnv : Dodx.Env} {bank : Bank} {s : State} {proposalId : Nat}
    (hreach : Dodx.Reachable dodxEnv ⟨s.dodx, bank⟩) (henabled : s.dodx.governanceEnabled = true)
    (hvotes : ∀ e ∈ s.votesOf proposalId, StoredVote env e) :
    ∃ s' t, dodxStakedTallyFn env s proposalId = .ok (s', t) ∧
      t.totalVotingPower =
        LegacyDec.ofInt ((s.voters proposalId).map (Dodx.getStakeAmount s.dodx)).sum ∧
      Results.sum t.results = t.totalVotingPower.i ∧
      t.totalVotingPower ≤ LegacyDec.ofInt s.dodx.totalStaked ∧
      (∀ delegations totalBonded,
        dodxStakedTallyFn env { s with delegations := delegations, totalBonded := totalBonded }
          proposalId =
        .ok ({ s' with delegations := delegations, totalBonded := totalBonded }, t)) ∧
      (∀ k, s'.votes.get k = if (ofLex k).1 = proposalId then none else s.votes.get k) ∧
      s' = { s with votes := s'.votes } ∧
      (doCommunityGovernanceActive s = true → ∀ validators,
        doCommunityTallyFn env s proposalId validators = .ok (s', t)) := by
  have hbal : Dodx.Balanced s.dodx := hreach.balanced
  have hsum : stakesOf s.dodx (s.votesOf proposalId)
      = ((s.voters proposalId).map (Dodx.getStakeAmount s.dodx)).sum := by
    rw [State.voters, List.map_map]
    rfl
  have hle := hbal.stakes_le (s.voters_nodup proposalId)
  have hbits := hbal.bounded
  have hnonneg : 0 ≤ ((s.voters proposalId).map (Dodx.getStakeAmount s.dodx)).sum :=
    List.sum_map_nonneg fun a _ => hbal.stake_nonneg a
  have hprec : (LegacyDec.precision : Int) = 10 ^ 18 := rfl
  have hfit : LegacyDec.Fits (stakesOf s.dodx (s.votesOf proposalId) * LegacyDec.precision) := by
    rw [hsum, hprec, LegacyDec.fits_iff]
    omega
  obtain ⟨acc, hwalk, hacc, hrem⟩ := foldlM_dodxVote (fun a => hbal.stake_nonneg a) hvotes
    Accum.gathered_empty (by rw [Int.zero_add]; exact hfit)
  rw [Int.zero_add, hsum] at hacc
  have hrem : acc.votesToRemove = (s.votesOf proposalId).map Prod.fst := hrem
  have htally : dodxStakedTallyFn env s proposalId =
      .ok (removeVotes s acc.votesToRemove, ⟨acc.totalVotingPower, acc.results⟩) := by
    rw [dodxStakedTallyFn, walk, hwalk]
    rfl
  refine ⟨_, _, htally, hacc.power_eq, ?_, ?_, ?_, ?_, rfl, ?_⟩
  · rw [hacc.results_eq, hacc.power_eq]
    rfl
  · show acc.totalVotingPower.i ≤ _
    rw [hacc.power_eq]
    exact Int.mul_le_mul_of_nonneg_right hle (Int.natCast_nonneg _)
  · intro delegations totalBonded
    -- the walk reads the votes and the stakes only
    show ((s.votesOf proposalId).foldlM (dodxVote env s.dodx) Accum.empty).mapErr _ >>= _ = _
    rw [hwalk]
    rfl
  · intro k
    rw [hrem]
    exact get_removeVotes s proposalId k
  · intro hactive validators
    rw [doCommunityTallyFn, hactive, henabled]
    exact htally

namespace Sample

open Sdk.Sample

def decFromStr (text : String) : Option LegacyDec :=
  if text = "1.000000000000000000" then some .one
  else if text = "0.400000000000000000" then some ⟨4 * 10 ^ 17⟩
  else if text = "0.600000000000000000" then some ⟨6 * 10 ^ 17⟩
  else none

def gov : Env where
  bech32 := bech32
  valAddressString _ := .ok "dovaloper1"
  decFromStr := decFromStr
  rangeOrder vs := vs.entries.map Prod.snd
  rangeOrder_perm _ := .refl _

def bobVote : Vote := ⟨bobText, [⟨.yes, "1.000000000000000000"⟩]⟩
def aliceVote : Vote :=
  ⟨aliceText, [⟨.no, "0.400000000000000000"⟩, ⟨.abstain, "0.600000000000000000"⟩]⟩

/-- Both vote on proposal 1, and one of them on proposal 2; only the other has a
stake. -/
def votes : SortedMap VoteKey Vote :=
  ((SortedMap.empty.set (toLex (1, bob)) bobVote).set (toLex (1, alice)) aliceVote).set
    (toLex (2, alice)) aliceVote

/-- The staking store after a genesis in which one account has the stake `n`. -/
def dodxOf (n : Int) : Dodx.Store := ⟨SortedMap.empty.set bob n, n, true⟩

def stateOf (n : Int) : State := ⟨doCommunityGovernanceHeight, votes, dodxOf n, fun _ => [], 0⟩

theorem stateOf_votes (n : Int) : ∀ e ∈ (stateOf n).votesOf 1, StoredVote gov e := by
  have hvotes : (stateOf n).votesOf 1 =
      [(toLex (1, alice), aliceVote), (toLex (1, bob), bobVote)] := by rfl
  intro e he
  rw [hvotes, List.mem_cons, List.mem_singleton] at he
  cases he with
  | inl he =>
    subst he
    refine ⟨by decide +kernel, ?_, by decide +kernel⟩
    intro o ho
    cases List.mem_cons.mp ho with
    | inl ho => exact ⟨⟨4 * 10 ^ 17⟩, by rw [ho]; decide +kernel, by decide⟩
    | inr ho => exact ⟨⟨6 * 10 ^ 17⟩, by rw [List.mem_singleton.mp ho]; decide +kernel, by decide⟩
  | inr he =>
    subst he
    refine ⟨by decide +kernel, ?_, by decide +kernel⟩
    intro o ho
    exact ⟨.one, by rw [List.mem_singleton.mp ho]; decide +kernel, by decide⟩

theorem dodxOf_reachable {n : Int} (hvalid : Dodx.validateGenesis Dodx.Sample.app
    (Dodx.Sample.genesisOf bobText n) = .ok ()) (hinit : Dodx.initGenesis Dodx.Sample.app
    (Dodx.Sample.genesisOf bobText n) = .ok (dodxOf n)) :
    Dodx.Reachable Dodx.Sample.app ⟨(stateOf n).dodx, Dodx.Sample.bankOf n⟩ :=
  .genesis _ hvalid hinit

theorem stateOf_tally :
    ∃ s' t, dodxStakedTallyFn gov (stateOf 7) 1 = .ok (s', t) ∧
      t.totalVotingPower =
        LegacyDec.ofInt (((stateOf 7).voters 1).map (Dodx.getStakeAmount (stateOf 7).dodx)).sum ∧
      Results.sum t.results = t.totalVotingPower.i ∧
      t.totalVotingPower ≤ LegacyDec.ofInt (stateOf 7).dodx.totalStaked ∧
      (∀ delegations totalBonded,
        dodxStakedTallyFn gov
          { stateOf 7 with delegations := delegations, totalBonded := totalBonded } 1 =
        .ok ({ s' with delegations := delegations, totalBonded := totalBonded }, t)) ∧
      (∀ k, s'.votes.get k = if (ofLex k).1 = 1 then none else (stateOf 7).votes.get k) ∧
      s' = { stateOf 7 with votes := s'.votes } ∧
      (doCommunityGovernanceActive (stateOf 7) = true → ∀ validators,
        doCommunityTallyFn gov (stateOf 7) 1 validators = .ok (s', t)) :=
  tally_exact (dodxOf_reachable (by decide +kernel) rfl) rfl (stateOf_votes 7)

end Sample

end Gov
