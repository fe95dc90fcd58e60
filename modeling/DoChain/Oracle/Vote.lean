import DoChain.Oracle.Ballot
import DoChain.Sdk.DecCoin

/- Votes of the oracle, as they reach the store (`x/oracle`).

   Correspondence (Go ↔ Lean):
     `types/vote.go: ParseDoRateTuples`              ↔ `parseDoRateTuples`
     `types/msgs.go: MsgAggregateDoRateVote`         ↔ `MsgAggregateDoRateVote.validateBasic`
     `keeper/msg_server.go: AggregateDoRateVote`     ↔ `aggregateDoRateVote`
     `keeper/keeper.go: ValidateFeeder`              ↔ `validateFeeder`
     `types/params.go: Params.Validate`              ↔ `Params.validate`

   Parsing one coin, trimming blanks, the truncated hash and the bech32 codecs are code
   of the SDK and of the standard library. A parsed coin has a valid denomination and
   no negative amount.

   `Cast` says of a stored vote that a message brought it there; what the tally needs
   of it is in `Cast.valid`. -/

namespace Oracle

open Sdk

def errInvalidExchangeRate : RegisteredError := ⟨"oracle", 2, "invalid exchange rate"⟩
def errNoVotingPermission : RegisteredError := ⟨"oracle", 5, "unauthorized voter"⟩
def errVerificationFailed : RegisteredError := ⟨"oracle", 8, "hash verification failed"⟩
def errRevealPeriodMissMatch : RegisteredError :=
  ⟨"oracle", 9, "reveal period of submitted vote do not match with registered prevote"⟩
def errInvalidSaltLength : RegisteredError :=
  ⟨"oracle", 10, "invalid salt length; should be 1~64"⟩
def errNoAggregatePrevote : RegisteredError := ⟨"oracle", 11, "no aggregate prevote"⟩
def errUnknownDenom : RegisteredError := ⟨"oracle", 14, "unknown denom"⟩
def errNoValidatorFound : RegisteredError := ⟨"staking", 3, "validator does not exist"⟩

/-! ## State -/

structure Denom where
  name : String
  tobinTax : LegacyDec

structure Params where
  votePeriod : Nat
  voteThreshold : LegacyDec
  rewardBand : LegacyDec
  rewardDistributionWindow : Nat
  whitelist : List Denom
  slashFraction : LegacyDec
  slashWindow : Nat
  minValidPerWindow : LegacyDec

structure DoRateTuple where
  denom : String
  exchangeRate : LegacyDec
deriving DecidableEq

structure AggregateDoRatePrevote where
  hash : String
  voter : String
  submitBlock : Nat

structure AggregateDoRateVote where
  exchangeRateTuples : List DoRateTuple
  voter : String
deriving DecidableEq

structure Store where
  params : Params
  exchangeRates : SortedMap String LegacyDec
  feederDelegations : SortedMap ValAddress AccAddress
  missCounters : SortedMap ValAddress Nat
  prevotes : SortedMap ValAddress AggregateDoRatePrevote
  votes : SortedMap ValAddress AggregateDoRateVote
  tobinTaxes : SortedMap String LegacyDec

structure Validator where
  operator : String
  bonded : Bool
  jailed : Bool
  consensusPower : Int
  consAddr : Except String (List UInt8)

/-- What the oracle reads of the staking module. The consensus engine bounds the sum of
all powers by an eighth of the largest `int64`. -/
structure Staking where
  validator : ValAddress → Option Validator
  /-- the validators in the order of their power -/
  byPower : List Validator
  consensusPower_nonneg : ∀ v ∈ byPower, 0 ≤ v.consensusPower
  totalPower_lt : (byPower.map Validator.consensusPower).sum < 2 ^ 63
  maxValidators : Nat
  totalBondedTokens : Int
  totalBondedTokens_nonneg : 0 ≤ totalBondedTokens
  powerReduction : Int
  powerReduction_pos : 0 < powerReduction

structure Env extends BallotOps where
  accBech32 : Bech32
  valBech32 : Bech32
  trimSpace : String → String
  parseDecCoin : String → Except String DecCoin
  parseDecCoin_valid : ∀ {s c}, parseDecCoin s = .ok c → validDenom c.denom = true ∧ 0 ≤ c.amount.i
  /-- the truncated SHA-256 hash of a text, in hexadecimal -/
  truncatedHash : String → String

variable (env : Env)

/-! ## Parameters -/

def Params.validateWhitelist : List Denom → Outcome String Unit
  | [] => .ok ()
  | d :: rest => do
    .failIf (LegacyDec.one < d.tobinTax ∨ d.tobinTax.IsNegative)
      "oracle parameter Whitelist Denom must have TobinTax between [0, 1]"
    .failIf (d.name = "") "oracle parameter Whitelist Denom must have name"
    validateWhitelist rest

def Params.validate (p : Params) : Outcome String Unit := do
  .failIf (p.votePeriod = 0) s!"oracle parameter VotePeriod must be > 0, is {p.votePeriod}"
  .failIf (p.voteThreshold ≤ ⟨33 * 10 ^ 16⟩)
    "oracle parameter VoteThreshold must be greater than 33 percent"
  .failIf (LegacyDec.one < p.rewardBand ∨ p.rewardBand.IsNegative)
    "oracle parameter RewardBand must be between [0, 1]"
  .failIf (p.rewardDistributionWindow < p.votePeriod)
    "oracle parameter RewardDistributionWindow must be greater than or equal with VotePeriod"
  .failIf (LegacyDec.one < p.slashFraction ∨ p.slashFraction.IsNegative)
    "oracle parameter SlashFraction must be between [0, 1]"
  .failIf (p.slashWindow < p.votePeriod)
    "oracle parameter SlashWindow must be greater than or equal with VotePeriod"
  .failIf (LegacyDec.one < p.minValidPerWindow ∨ p.minValidPerWindow.IsNegative)
    "oracle parameter MinValidPerWindow must be between [0, 1]"
  validateWhitelist p.whitelist

/-! ## Parsing rates -/

/-- `strings.Split` at one character. -/
def splitAt (sep : Char) : List Char → List (List Char)
  | [] => [[]]
  | c :: rest =>
    if c = sep then [] :: splitAt sep rest
    else
      match splitAt sep rest with
      | [] => [[c]]
      | word :: words => (c :: word) :: words

/-- The loop over the texts, with the denominations seen so far. -/
def parseTuples (seen : List String) : List String → Except String (List DoRateTuple)
  | [] => .ok []
  | text :: rest =>
    match env.parseDecCoin text with
    | .error e => .error e
    | .ok decCoin =>
      if decCoin.denom ∈ seen then .error ("duplicated denom " ++ decCoin.denom)
      else
        match parseTuples (decCoin.denom :: seen) rest with
        | .error e => .error e
        | .ok tuples => .ok (⟨decCoin.denom, decCoin.amount⟩ :: tuples)

def parseDoRateTuples (text : String) : Except String (List DoRateTuple) :=
  if env.trimSpace text = "" then .ok []
  else parseTuples env [] ((splitAt ',' (env.trimSpace text).toList).map String.ofList)

/-! ## The vote message -/

structure MsgAggregateDoRateVote where
  salt : String
  exchangeRates : String
  feeder : String
  validator : String

def address (bech32 : Bech32) (role text : String) : Outcome SdkError AccAddress :=
  .ofExcept (fun e => wrap errInvalidAddress ("Invalid " ++ role ++ " address (" ++ e ++ ")"))
    (bech32.accAddressFromBech32 text)

/-- At most 315 bits, which the message asks of a rate. -/
def WithinBitLen (rate : LegacyDec) : Prop := rate.i.natAbs < 2 ^ 315
instance (rate : LegacyDec) : Decidable (WithinBitLen rate) := inferInstanceAs (Decidable (rate.i.natAbs < 2 ^ 315))

theorem WithinBitLen.fits {rate : LegacyDec} (h : WithinBitLen rate) : LegacyDec.Fits rate.i := by
  have hexp : 315 = 256 + 59 := rfl
  rw [WithinBitLen, hexp, pow_add] at h
  exact lt_trans h (Nat.mul_lt_mul_of_pos_left (by norm_num) (by positivity))

def MsgAggregateDoRateVote.validateBasic (msg : MsgAggregateDoRateVote) : Outcome SdkError Unit := do
  let _ ← address env.accBech32 "feeder" msg.feeder
  let _ ← address env.valBech32 "operator" msg.validator
  .failIf (msg.exchangeRates.utf8ByteSize = 0)
    (wrap errUnknownRequest "must provide at least one oracle exchange rate")
  .failIf (4096 < msg.exchangeRates.utf8ByteSize)
    (wrap errInvalidRequest "exchange rates string can not exceed 4096 characters")
  let tuples ← .ofExcept
    (fun e => wrap errInvalidCoins ("failed to parse exchange rates string cause: " ++ e))
    (parseDoRateTuples env msg.exchangeRates)
  .failIf (∃ t ∈ tuples, ¬ WithinBitLen t.exchangeRate) (wrap errInvalidExchangeRate "overflow")
  .failIf (64 < msg.salt.utf8ByteSize ∨ msg.salt.utf8ByteSize < 1)
    (wrap errInvalidSaltLength "salt length must be [1, 64]")

/-- The operator is its own feeder unless it named another. -/
def getFeederDelegation (k : Store) (operator : ValAddress) : AccAddress :=
  (k.feederDelegations.get operator).getD operator

def isBonded (staking : Staking) (addr : ValAddress) : Bool :=
  ((staking.validator addr).map Validator.bonded).getD false

def validateFeeder (staking : Staking) (k : Store) (feederAddr : AccAddress)
    (validatorAddr : ValAddress) : Outcome SdkError Unit := do
  .failIf (feederAddr ≠ validatorAddr ∧ getFeederDelegation k validatorAddr ≠ feederAddr)
    (wrap errNoVotingPermission (env.accBech32.string feederAddr))
  .failIf (isBonded staking validatorAddr = false)
    (wrap errNoValidatorFound
      ("validator " ++ env.valBech32.string validatorAddr ++ " is not active set"))

/-- A vote reveals the prevote of the period before; the difference is one of
`uint64`. -/
def checkRevealPeriod (height submitBlock votePeriod : Nat) : Outcome SdkError Unit :=
  if votePeriod = 0 then .panic "integer divide by zero"
  else .failIf ((height / votePeriod + 2 ^ 64 - submitBlock / votePeriod) % 2 ^ 64 ≠ 1)
    ⟨errRevealPeriodMissMatch, ""⟩

/-- The loop that looks for a denomination that is no vote target. -/
def checkVoteTargets (k : Store) : List DoRateTuple → Outcome SdkError Unit
  | [] => .ok ()
  | t :: rest => do
    .failIf ((k.tobinTaxes.get t.denom).isNone = true) (wrap errUnknownDenom t.denom)
    checkVoteTargets k rest

def IsTarget (k : Store) (d : String) : Prop := (k.tobinTaxes.get d).isSome = true

def getAggregateVoteHash (salt exchangeRates : String) (voter : ValAddress) : String :=
  env.truncatedHash (salt ++ ":" ++ exchangeRates ++ ":" ++ env.valBech32.string voter)

def aggregateDoRateVote (staking : Staking) (height : Nat) (k : Store)
    (msg : MsgAggregateDoRateVote) : Outcome SdkError Store := do
  let valAddr ← .ofExcept (wrap errInvalidAddress) (env.valBech32.accAddressFromBech32 msg.validator)
  let feederAddr ← .ofExcept (wrap errInvalidAddress) (env.accBech32.accAddressFromBech32 msg.feeder)
  validateFeeder env staking k feederAddr valAddr
  let prevote ← .ofOption (wrap errNoAggregatePrevote msg.validator) (k.prevotes.get valAddr)
  checkRevealPeriod height prevote.submitBlock k.params.votePeriod
  let tuples ← .ofExcept (wrap errInvalidCoins) (parseDoRateTuples env msg.exchangeRates)
  checkVoteTargets k tuples
  let hash := getAggregateVoteHash env msg.salt msg.exchangeRates valAddr
  .failIf (prevote.hash ≠ hash)
    (wrap errVerificationFailed ("must be given " ++ prevote.hash ++ " not " ++ hash))
  .ok { k with
    votes := k.votes.set valAddr ⟨tuples, env.valBech32.string valAddr⟩
    prevotes := k.prevotes.erase valAddr }

/-- A message that passed its checks and its handler put the vote into the store. -/
def Cast (valAddr : ValAddress) (vote : AggregateDoRateVote) : Prop :=
  ∃ staking height k k' msg, MsgAggregateDoRateVote.validateBasic env msg = .ok () ∧
    aggregateDoRateVote env staking height k msg = .ok k' ∧
    env.valBech32.accAddressFromBech32 msg.validator = .ok valAddr ∧
    k'.votes.get valAddr = some vote

variable {env}

/-- Parsed rates are of distinct valid denominations, none of them seen before, and no
negative numbers. -/
theorem parseTuples_valid {seen : List String} {texts : List String} {tuples : List DoRateTuple}
    (h : parseTuples env seen texts = .ok tuples) :
    (tuples.map DoRateTuple.denom).Nodup ∧
      ∀ t ∈ tuples, t.denom ∉ seen ∧ validDenom t.denom = true ∧ 0 ≤ t.exchangeRate.i := by
  induction texts generalizing seen tuples with
  | nil =>
    cases h
    exact ⟨List.nodup_nil, by simp⟩
  | cons text rest ih =>
    rw [parseTuples] at h
    cases hparse : env.parseDecCoin text with
    | error e => simp [hparse] at h
    | ok decCoin =>
      simp only [hparse] at h
      split_ifs at h with hseen
      cases hrest : parseTuples env (decCoin.denom :: seen) rest with
      | error e => simp [hrest] at h
      | ok tail =>
        simp only [hrest] at h
        cases h
        obtain ⟨hnd, htail⟩ := ih hrest
        refine ⟨List.nodup_cons.mpr ⟨?_, hnd⟩, ?_⟩
        · intro hmem
          obtain ⟨t, ht, heq⟩ := List.mem_map.mp hmem
          have heq : t.denom = decCoin.denom := heq
          exact (htail t ht).1 (heq ▸ List.mem_cons_self)
        · intro t ht
          cases List.mem_cons.mp ht with
          | inl heq => exact heq ▸ ⟨hseen, env.parseDecCoin_valid hparse⟩
          | inr ht =>
            obtain ⟨hfresh, hvalid⟩ := htail t ht
            exact ⟨fun hmem => hfresh (List.mem_cons_of_mem _ hmem), hvalid⟩

theorem parseDoRateTuples_valid {text : String} {tuples : List DoRateTuple}
    (h : parseDoRateTuples env text = .ok tuples) :
    (tuples.map DoRateTuple.denom).Nodup ∧
      ∀ t ∈ tuples, validDenom t.denom = true ∧ 0 ≤ t.exchangeRate.i := by
  unfold parseDoRateTuples at h
  split_ifs at h
  · cases h
    exact ⟨List.nodup_nil, by simp⟩
  · obtain ⟨hnd, hvalid⟩ := parseTuples_valid h
    exact ⟨hnd, fun t ht => (hvalid t ht).2⟩

/-- A vote that was cast names its voter, and has distinct valid denominations and rates
in range. -/
theorem Cast.valid {valAddr : ValAddress} {vote : AggregateDoRateVote} (h : Cast env valAddr vote) :
    vote.voter = env.valBech32.string valAddr ∧
      (vote.exchangeRateTuples.map DoRateTuple.denom).Nodup ∧
      ∀ t ∈ vote.exchangeRateTuples, validDenom t.denom = true ∧ 0 ≤ t.exchangeRate.i ∧
        WithinBitLen t.exchangeRate := by
  obtain ⟨staking, height, k, k', msg, hbasic, hhandled, haddr, hget⟩ := h
  simp only [MsgAggregateDoRateVote.validateBasic, Outcome.bind_eq_ok, Outcome.ofExcept_eq_ok,
    Outcome.failIf_eq_ok] at hbasic
  obtain ⟨_, _, _, _, _, _, _, _, tuples, hparse, _, hfits, _⟩ := hbasic
  simp only [aggregateDoRateVote, Outcome.bind_eq_ok, Outcome.ofExcept_eq_ok, haddr,
    Except.ok.injEq] at hhandled
  obtain ⟨_, rfl, _, _, _, _, _, _, _, _, tuples', hparse', _, _, _, _, hk'⟩ := hhandled
  obtain rfl : tuples = tuples' := Except.ok.inj (hparse.symm.trans hparse')
  cases hk'
  rw [SortedMap.get_set_self] at hget
  cases hget
  obtain ⟨hnd, hvalid⟩ := parseDoRateTuples_valid hparse
  refine ⟨rfl, hnd, ?_⟩
  intro t ht
  obtain ⟨hdenom, hnonneg⟩ := hvalid t ht
  refine ⟨hdenom, hnonneg, ?_⟩
  by_contra hn
  exact hfits ⟨t, ht, hn⟩

end Oracle
