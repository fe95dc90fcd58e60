import DoChain.Lib.Trace
import DoChain.Oracle.EndBlock

/- Runs of prevotes, votes and vote periods (`x/oracle/keeper/msg_server.go`,
   `x/oracle/types/msgs.go`, `x/oracle/types/hash.go`).

   Correspondence (Go ↔ Lean):
     `AggregateVoteHashFromHexString`     ↔ `aggregateVoteHashFromHexString`
     `AggregateVoteHash.String`           ↔ `hexString`
     `msgServer.AggregateDoRatePrevote`   ↔ `aggregateDoRatePrevote`
     `msgServer.DelegateFeedConsent`      ↔ `delegateFeedConsent`
     `ValidateBasic` of the two messages  ↔ `validateBasic`

   A run is a trace of steps: a message that passed its checks and its handler, the end
   of a block, which raises the height by one, and steps of other modules. These may
   change anything but the prevotes, the votes, the feeders and the vote period. The
   height is an `int64`.

   `Step.effect` says once what a step does to the prevotes and to the votes, and
   `History` is what holds of the steps taken so far and the state they led to. -/

namespace Oracle

open Sdk

def errInvalidHash : RegisteredError := ⟨"oracle", 6, "invalid hash"⟩
def errInvalidHashLength : RegisteredError := ⟨"oracle", 7, "invalid hash length; should equal 20"⟩

/-! ## Hashes -/

def fromHexChar (c : UInt8) : Option UInt8 :=
  if 48 ≤ c ∧ c ≤ 57 then some (c - 48)
  else if 97 ≤ c ∧ c ≤ 102 then some (c - 87)
  else if 65 ≤ c ∧ c ≤ 70 then some (c - 55)
  else none

def hexDigit (upper : Bool) (n : UInt8) : Char :=
  if n < 10 then Char.ofNat (48 + n.toNat)
  else Char.ofNat ((if upper then 55 else 87) + n.toNat)

/-- The error of `encoding/hex`; a byte that can be printed is. -/
def invalidByte (c : UInt8) : String :=
  "encoding/hex: invalid byte: U+00" ++ String.ofList [hexDigit true (c / 16), hexDigit true (c % 16)] ++
    if (32 ≤ c ∧ c ≤ 126) ∨ (161 ≤ c ∧ c ≠ 173) then " '" ++ String.ofList [Char.ofNat c.toNat] ++ "'" else ""

def hexDecode : List UInt8 → Except String (List UInt8)
  | [] => .ok []
  | [p] =>
    match fromHexChar p with
    | none => .error (invalidByte p)
    | some _ => .error "encoding/hex: odd length hex string"
  | p :: q :: rest =>
    match fromHexChar p with
    | none => .error (invalidByte p)
    | some a =>
      match fromHexChar q with
      | none => .error (invalidByte q)
      | some b =>
        match hexDecode rest with
        | .error e => .error e
        | .ok bs => .ok ((a * 16 + b) :: bs)

def aggregateVoteHashFromHexString (s : String) : Except String (List UInt8) := hexDecode (bytes s)

def hexString (hash : List UInt8) : String :=
  String.ofList (hash.flatMap (fun b => [hexDigit false (b / 16), hexDigit false (b % 16)]))

/-! ## Messages -/

structure MsgAggregateDoRatePrevote where
  hash : String
  feeder : String
  validator : String

structure MsgDelegateFeedConsent where
  operator : String
  delegate : String

variable (env : Env)

def MsgAggregateDoRatePrevote.validateBasic (msg : MsgAggregateDoRatePrevote) : Outcome SdkError Unit := do
  let _ ← .ofExcept (fun e => wrap errInvalidHash ("Invalid vote hash (" ++ e ++ ")"))
    (aggregateVoteHashFromHexString msg.hash)
  .failIf (msg.hash.utf8ByteSize ≠ 40) ⟨errInvalidHashLength, ""⟩
  let _ ← address env.accBech32 "feeder" msg.feeder
  let _ ← address env.valBech32 "operator" msg.validator
  .ok ()

def MsgDelegateFeedConsent.validateBasic (msg : MsgDelegateFeedConsent) : Outcome SdkError Unit := do
  let _ ← address env.valBech32 "operator" msg.operator
  let _ ← address env.accBech32 "delegate" msg.delegate
  .ok ()

def aggregateDoRatePrevote (staking : Staking) (height : Nat) (k : Store)
    (msg : MsgAggregateDoRatePrevote) : Outcome SdkError Store := do
  let valAddr ← .ofExcept (wrap errInvalidAddress) (env.valBech32.accAddressFromBech32 msg.validator)
  let feederAddr ← .ofExcept (wrap errInvalidAddress) (env.accBech32.accAddressFromBech32 msg.feeder)
  validateFeeder env staking k feederAddr valAddr
  let voteHash ← .ofExcept (wrap errInvalidHash) (aggregateVoteHashFromHexString msg.hash)
  .ok { k with prevotes := k.prevotes.set valAddr ⟨hexString voteHash, env.valBech32.string valAddr, height⟩ }

def delegateFeedConsent (staking : Staking) (k : Store) (msg : MsgDelegateFeedConsent) :
    Outcome SdkError Store := do
  let operatorAddr ← .ofExcept (wrap errInvalidAddress) (env.valBech32.accAddressFromBech32 msg.operator)
  let delegateAddr ← .ofExcept (wrap errInvalidAddress) (env.accBech32.accAddressFromBech32 msg.delegate)
  .failIf ((staking.validator operatorAddr).isNone = true) (wrap errNoValidatorFound msg.operator)
  .ok { k with feederDelegations := k.feederDelegations.set operatorAddr delegateAddr }

/-! ## Steps -/

structure Chain (D : Type) where
  height : Nat
  height_lt : height < 2 ^ 63
  world : World D

inductive Action where
  | prevote (msg : MsgAggregateDoRatePrevote)
  | vote (msg : MsgAggregateDoRateVote)
  | delegate (msg : MsgDelegateFeedConsent)
  | endBlock (ord : Orders)
  | other

variable {D : Type} (keepers : Keepers D)

def Chain.oracle (c : Chain D) : Store := c.world.oracle

def Chain.setOracle (c : Chain D) (k : Store) : Chain D := { c with world := { c.world with oracle := k } }

def Action.Occurs (before after : Chain D) : Action → Prop
  | .prevote msg => msg.validateBasic env = .ok () ∧ ∃ k,
      aggregateDoRatePrevote env before.world.staking before.height before.oracle msg = .ok k ∧
        after = before.setOracle k
  | .vote msg => msg.validateBasic env = .ok () ∧ ∃ k,
      aggregateDoRateVote env before.world.staking before.height before.oracle msg = .ok k ∧
        after = before.setOracle k
  | .delegate msg => msg.validateBasic env = .ok () ∧ ∃ k,
      delegateFeedConsent env before.world.staking before.oracle msg = .ok k ∧ after = before.setOracle k
  | .endBlock ord => endBlocker env keepers ord before.height before.world = .ok after.world ∧
      after.height = before.height + 1
  | .other => after.height = before.height ∧ after.oracle.prevotes = before.oracle.prevotes ∧
      after.oracle.votes = before.oracle.votes ∧
      after.oracle.feederDelegations = before.oracle.feederDelegations ∧
      after.oracle.params.votePeriod = before.oracle.params.votePeriod

structure ChainStep where
  before : Chain D
  action : Action
  after : Chain D
  occurs : action.Occurs env keepers before after

variable {env} {keepers}

/-- A prevote for a validator. -/
def ChainStep.Prevotes (st : ChainStep env keepers) (v : ValAddress) (msg : MsgAggregateDoRatePrevote) : Prop :=
  st.action = .prevote msg ∧ env.valBech32.accAddressFromBech32 msg.validator = .ok v

/-- A vote for a validator. -/
def ChainStep.Votes (st : ChainStep env keepers) (v : ValAddress) (msg : MsgAggregateDoRateVote) : Prop :=
  st.action = .vote msg ∧ env.valBech32.accAddressFromBech32 msg.validator = .ok v

/-! ## What the handlers and the end of a block do -/

theorem aggregateDoRatePrevote_inv {staking : Staking} {height : Nat} {k k' : Store}
    {msg : MsgAggregateDoRatePrevote} (h : aggregateDoRatePrevote env staking height k msg = .ok k') :
    ∃ v hash, env.valBech32.accAddressFromBech32 msg.validator = .ok v ∧
      aggregateVoteHashFromHexString msg.hash = .ok hash ∧
      k' = { k with prevotes := k.prevotes.set v ⟨hexString hash, env.valBech32.string v, height⟩ } := by
  simp only [aggregateDoRatePrevote, Outcome.bind_eq_ok, Outcome.ofExcept_eq_ok] at h
  obtain ⟨v, hv, _, _, _, _, hash, hhash, hk'⟩ := h
  cases hk'
  exact ⟨v, hash, hv, hhash, rfl⟩

theorem delegateFeedConsent_inv {staking : Staking} {k k' : Store} {msg : MsgDelegateFeedConsent}
    (h : delegateFeedConsent env staking k msg = .ok k') :
    ∃ v feeder, env.valBech32.accAddressFromBech32 msg.operator = .ok v ∧
      env.accBech32.accAddressFromBech32 msg.delegate = .ok feeder ∧
      k' = { k with feederDelegations := k.feederDelegations.set v feeder } := by
  simp only [delegateFeedConsent, Outcome.bind_eq_ok, Outcome.ofExcept_eq_ok] at h
  obtain ⟨v, hv, feeder, hfeeder, _, _, hk'⟩ := h
  cases hk'
  exact ⟨v, feeder, hv, hfeeder, rfl⟩

theorem checkRevealPeriod_inv {height submitBlock votePeriod : Nat}
    (hheight : height < 2 ^ 63) (hsubmit : submitBlock ≤ height)
    (h : checkRevealPeriod height submitBlock votePeriod = .ok ()) :
    submitBlock / votePeriod + 1 = height / votePeriod := by
  unfold checkRevealPeriod at h
  split_ifs at h
  rw [Outcome.failIf_eq_ok, not_not] at h
  have hle : submitBlock / votePeriod ≤ height / votePeriod := Nat.div_le_div_right hsubmit
  have hlt : height / votePeriod ≤ height := Nat.div_le_self _ _
  generalize submitBlock / votePeriod = before at *
  generalize height / votePeriod = now at *
  omega

theorem aggregateDoRateVote_inv {staking : Staking} {height : Nat} {k k' : Store}
    {msg : MsgAggregateDoRateVote} (h : aggregateDoRateVote env staking height k msg = .ok k') :
    ∃ v feeder prevote tuples, env.valBech32.accAddressFromBech32 msg.validator = .ok v ∧
      env.accBech32.accAddressFromBech32 msg.feeder = .ok feeder ∧
      (feeder = v ∨ feeder = getFeederDelegation k v) ∧ isBonded staking v = true ∧
      k.prevotes.get v = some prevote ∧
      checkRevealPeriod height prevote.submitBlock k.params.votePeriod = .ok () ∧
      parseDoRateTuples env msg.exchangeRates = .ok tuples ∧
      prevote.hash = getAggregateVoteHash env msg.salt msg.exchangeRates v ∧
      k' = { k with
        votes := k.votes.set v ⟨tuples, env.valBech32.string v⟩
        prevotes := k.prevotes.erase v } := by
  simp only [aggregateDoRateVote, validateFeeder, Outcome.bind_eq_ok, Outcome.ofExcept_eq_ok,
    Outcome.ofOption_eq_ok, Outcome.failIf_eq_ok] at h
  obtain ⟨v, hv, feeder, hfeeder, _, ⟨_, hallowed, hbonded⟩, prevote, hprevote, _, hperiod, tuples, htuples,
    _, _, _, hhash, hk'⟩ := h
  cases hk'
  refine ⟨v, feeder, prevote, tuples, hv, hfeeder, ?_, ?_, hprevote, hperiod, htuples, not_not.mp hhash, rfl⟩
  · rcases not_and_or.mp hallowed with hself | hdelegate
    · exact .inl (not_not.mp hself)
    · exact .inr (not_not.mp hdelegate).symm
  · exact Bool.not_eq_false _ ▸ hbonded

/-- A prevote that is not old stays. -/
theorem clearPrevotes_get {height votePeriod : Nat} {prevotes : SortedMap ValAddress AggregateDoRatePrevote}
    {v : ValAddress} {prevote : AggregateDoRatePrevote} :
    (clearPrevotes height votePeriod prevotes).get v = some prevote ↔
      prevotes.get v = some prevote ∧ isOldPrevote height votePeriod prevote = false := by
  have hfold : clearPrevotes height votePeriod prevotes =
      ((prevotes.entries.filter (fun e => isOldPrevote height votePeriod e.2)).map Prod.fst).foldl
        SortedMap.erase prevotes := by
    rw [List.foldl_map, List.foldl_filter]
    rfl
  rw [hfold, SortedMap.get_foldl_erase]
  split_ifs with hold
  · -- the key of an old prevote
    obtain ⟨e, he, rfl⟩ := List.mem_map.mp hold
    obtain ⟨hin, hisOld⟩ := List.mem_filter.mp he
    rw [SortedMap.get_eq_some.mpr hin]
    refine ⟨?_, ?_⟩
    · intro h
      cases h
    · intro h
      obtain ⟨heq, hnot⟩ := h
      cases heq
      rw [hisOld] at hnot
      cases hnot
  · refine ⟨fun hget => ⟨hget, ?_⟩, fun h => h.1⟩
    rw [Bool.eq_false_iff]
    intro hisOld
    exact hold (List.mem_map.mpr ⟨(v, prevote), List.mem_filter.mpr ⟨SortedMap.get_eq_some.mp hget, hisOld⟩, rfl⟩)

/-- At the end of a vote period the votes are gone and the old prevotes, and before it
none of them. -/
theorem endBlocker_ballots {ord : Orders} {height : Nat} {w w' : World D}
    (h : endBlocker env keepers ord height w = .ok w') :
    w'.oracle.params = w.oracle.params ∧
    ((isPeriodLastBlock height w.oracle.params.votePeriod = .ok true ∧ w'.oracle.votes = SortedMap.empty ∧
        w'.oracle.prevotes = clearPrevotes height w.oracle.params.votePeriod w.oracle.prevotes) ∨
      (isPeriodLastBlock height w.oracle.params.votePeriod = .ok false ∧ w'.oracle.votes = w.oracle.votes ∧
        w'.oracle.prevotes = w.oracle.prevotes)) := by
  obtain ⟨w₁, hperiod, hslash⟩ := Outcome.bind_eq_ok.mp h
  -- slashing changes counters only
  obtain ⟨counters, hw'⟩ : ∃ counters, w'.oracle = { w₁.oracle with missCounters := counters } := by
    rcases atPeriodEnd_inv hslash with ⟨_, hslash⟩ | ⟨_, rfl⟩
    · exact slashAndReset_oracle hslash
    · exact ⟨w₁.oracle.missCounters, rfl⟩
  rw [hw']
  rcases atPeriodEnd_inv hperiod with ⟨hlast, hperiod⟩ | ⟨hlast, rfl⟩
  · obtain ⟨p, taxes, metadata, _, _, hw₁⟩ := endPeriod_inv hperiod
    rw [hw₁]
    exact ⟨rfl, .inl ⟨hlast, SortedMap.clear_eq_empty _, rfl⟩⟩
  · exact ⟨rfl, .inr ⟨hlast, rfl, rfl⟩⟩

theorem isPeriodLastBlock_eq {height votePeriod : Nat} (hheight : height < 2 ^ 63) {last : Bool}
    (h : isPeriodLastBlock height votePeriod = .ok last) :
    0 < votePeriod ∧ (last = true ↔ (height + 1) % votePeriod = 0) := by
  unfold isPeriodLastBlock at h
  split_ifs at h with hzero
  rw [Nat.mod_eq_of_lt (by omega : height + 1 < 2 ^ 64)] at h
  refine ⟨Nat.pos_of_ne_zero hzero, ?_⟩
  rw [← Outcome.ok.inj h, decide_eq_true_iff]

/-! ## What a step does -/

/-- What an accepted vote has met at its time. -/
structure ChainStep.Accepted (st : ChainStep env keepers) (v : ValAddress) (msg : MsgAggregateDoRateVote)
    (vote : AggregateDoRateVote) : Prop where
  votes : st.Votes v msg
  feeder : ∃ feeder, env.accBech32.accAddressFromBech32 msg.feeder = .ok feeder ∧
    (feeder = v ∨ feeder = getFeederDelegation st.before.oracle v)
  bonded : isBonded st.before.world.staking v = true
  rates : ∃ tuples, parseDoRateTuples env msg.exchangeRates = .ok tuples ∧
    vote = ⟨tuples, env.valBech32.string v⟩
  cast : Cast env v vote

/-- A step neither prevotes nor votes for a validator. -/
def ChainStep.Quiet (st : ChainStep env keepers) (v : ValAddress) : Prop :=
  (∀ msg, ¬ st.Prevotes v msg) ∧ ∀ msg, ¬ st.Votes v msg

/-- What a step does to the prevotes and to the votes. -/
structure ChainStep.Effect (st : ChainStep env keepers) : Prop where
  height : st.before.height ≤ st.after.height
  votePeriod : st.after.oracle.params.votePeriod = st.before.oracle.params.votePeriod
  /-- a prevote was there before, or the step brought it -/
  prevotes : ∀ v prevote, st.after.oracle.prevotes.get v = some prevote →
    (st.before.oracle.prevotes.get v = some prevote ∧ st.Quiet v) ∨
    ∃ msg hash, st.Prevotes v msg ∧ aggregateVoteHashFromHexString msg.hash = .ok hash ∧
      prevote = ⟨hexString hash, env.valBech32.string v, st.before.height⟩
  /-- so was a vote, within the period, or the step cast it -/
  votes : ∀ v vote, st.after.oracle.votes.get v = some vote →
    (st.before.oracle.votes.get v = some vote ∧
      st.before.height / st.before.oracle.params.votePeriod =
        st.after.height / st.before.oracle.params.votePeriod) ∨
    ∃ msg, st.Accepted v msg vote ∧ st.after.height = st.before.height
  /-- a vote reveals the prevote in the store -/
  reveals : ∀ v msg, st.Votes v msg → ∃ prevote, st.before.oracle.prevotes.get v = some prevote ∧
    prevote.hash = getAggregateVoteHash env msg.salt msg.exchangeRates v ∧
    checkRevealPeriod st.before.height prevote.submitBlock st.before.oracle.params.votePeriod = .ok ()

section Effect

variable {st : ChainStep env keepers}

theorem ChainStep.quiet_of_action (hprevote : ∀ msg, st.action ≠ .prevote msg)
    (hvote : ∀ msg, st.action ≠ .vote msg) (v : ValAddress) : st.Quiet v :=
  ⟨fun msg h => hprevote msg h.1, fun msg h => hvote msg h.1⟩

theorem ChainStep.effect_prevote {msg : MsgAggregateDoRatePrevote} (haction : st.action = .prevote msg) :
    st.Effect := by
  have hoccurs := st.occurs
  rw [haction] at hoccurs
  obtain ⟨_, k, hk, hafter⟩ := hoccurs
  obtain ⟨v, hash, hv, hhash, rfl⟩ := aggregateDoRatePrevote_inv hk
  have hnovote : ∀ u m, ¬ st.Votes u m := by
    intro u m hvotes
    have hsame := hvotes.1
    rw [haction] at hsame
    cases hsame
  refine ⟨by rw [hafter]; exact Nat.le_refl _, by rw [hafter]; rfl, ?_, ?_, ?_⟩
  · intro u prevote hget
    rw [hafter] at hget
    have hset : (st.before.oracle.prevotes.set v
        ⟨hexString hash, env.valBech32.string v, st.before.height⟩).get u = some prevote := hget
    rw [SortedMap.get_set] at hset
    split_ifs at hset with hu
    · subst hu
      exact .inr ⟨msg, hash, ⟨haction, hv⟩, hhash, (Option.some.inj hset).symm⟩
    · refine .inl ⟨hset, ?_, hnovote u⟩
      intro m hm
      obtain ⟨hsame, hu'⟩ := hm
      rw [haction] at hsame
      cases hsame
      rw [hv] at hu'
      exact hu (Except.ok.inj hu').symm
  · intro u vote hget
    rw [hafter] at hget ⊢
    exact .inl ⟨hget, rfl⟩
  · intro u m hvotes
    exact absurd hvotes (hnovote u m)

theorem ChainStep.effect_vote {msg : MsgAggregateDoRateVote} (haction : st.action = .vote msg) :
    st.Effect := by
  have hoccurs := st.occurs
  rw [haction] at hoccurs
  obtain ⟨hbasic, k, hk, hafter⟩ := hoccurs
  have hcast : ∀ u vote, env.valBech32.accAddressFromBech32 msg.validator = .ok u →
      k.votes.get u = some vote → Cast env u vote :=
    fun u vote hu hget => ⟨_, _, _, _, msg, hbasic, hk, hu, hget⟩
  obtain ⟨v, feeder, prevote, tuples, hv, hfeeder, hallowed, hbonded, hprevote, hperiod, htuples, hhash, hk⟩ :=
    aggregateDoRateVote_inv hk
  have hvoter : ∀ u m, st.Votes u m → u = v ∧ m = msg := by
    intro u m hvotes
    obtain ⟨hsame, hu⟩ := hvotes
    rw [haction] at hsame
    cases hsame
    rw [hv] at hu
    exact ⟨(Except.ok.inj hu).symm, rfl⟩
  refine ⟨by rw [hafter]; exact Nat.le_refl _, by rw [hafter, hk]; rfl, ?_, ?_, ?_⟩
  · intro u p hget
    rw [hafter, hk] at hget
    have hget : (st.before.oracle.prevotes.erase v).get u = some p := hget
    rw [SortedMap.get_erase] at hget
    split_ifs at hget with hu
    refine .inl ⟨hget, ?_, fun m hm => hu (hvoter u m hm).1⟩
    intro m hm
    have hsame := hm.1
    rw [haction] at hsame
    cases hsame
  · intro u vote hget
    rw [hafter] at hget ⊢
    have hget' : k.votes.get u = some vote := hget
    rw [hk] at hget'
    have hget' : (st.before.oracle.votes.set v ⟨tuples, env.valBech32.string v⟩).get u = some vote := hget'
    rw [SortedMap.get_set] at hget'
    split_ifs at hget' with hu
    · subst hu
      refine .inr ⟨msg, ⟨⟨haction, hv⟩, ⟨feeder, hfeeder, hallowed⟩, hbonded, ?_, hcast u vote hv hget⟩, rfl⟩
      exact ⟨tuples, htuples, (Option.some.inj hget').symm⟩
    · exact .inl ⟨hget', rfl⟩
  · intro u m hvotes
    obtain ⟨rfl, rfl⟩ := hvoter u m hvotes
    exact ⟨prevote, hprevote, hhash, hperiod⟩

/-- A step that is no message about rates and keeps the two tables, but for entries it
deletes. -/
theorem ChainStep.effect_of_kept (hquiet : ∀ v, st.Quiet v) (hheight : st.before.height ≤ st.after.height)
    (hperiod : st.after.oracle.params.votePeriod = st.before.oracle.params.votePeriod)
    (hprevotes : ∀ v prevote, st.after.oracle.prevotes.get v = some prevote →
      st.before.oracle.prevotes.get v = some prevote)
    (hvotes : ∀ v vote, st.after.oracle.votes.get v = some vote →
      st.before.oracle.votes.get v = some vote ∧
        st.before.height / st.before.oracle.params.votePeriod =
          st.after.height / st.before.oracle.params.votePeriod) : st.Effect := by
  refine ⟨hheight, hperiod, ?_, ?_, ?_⟩
  · exact fun v prevote hget => .inl ⟨hprevotes v prevote hget, hquiet v⟩
  · exact fun v vote hget => .inl (hvotes v vote hget)
  · exact fun v msg hvote => absurd hvote ((hquiet v).2 msg)

theorem ChainStep.effect_endBlock {ord : Orders} (haction : st.action = .endBlock ord) : st.Effect := by
  have hoccurs := st.occurs
  rw [haction] at hoccurs
  obtain ⟨hrun, hheight⟩ := hoccurs
  obtain ⟨hparams, hballots⟩ := endBlocker_ballots hrun
  refine effect_of_kept (quiet_of_action (by simp [haction]) (by simp [haction])) (by omega)
    (congrArg Params.votePeriod hparams) ?_ ?_
  · intro v prevote hget
    rcases hballots with ⟨_, _, hprevotes⟩ | ⟨_, _, hprevotes⟩
    · rw [Chain.oracle, hprevotes] at hget
      exact (clearPrevotes_get.mp hget).1
    · rw [Chain.oracle, hprevotes] at hget
      exact hget
  · intro v vote hget
    rcases hballots with ⟨_, hvotes, _⟩ | ⟨hlast, hvotes, _⟩
    · rw [Chain.oracle, hvotes, SortedMap.get_empty] at hget
      cases hget
    · rw [Chain.oracle, hvotes] at hget
      -- the next block is one of the same period
      obtain ⟨hpos, hmod⟩ := isPeriodLastBlock_eq st.before.height_lt hlast
      refine ⟨hget, ?_⟩
      rw [hheight, Nat.succ_div_of_not_dvd]
      intro hdvd
      exact Bool.false_ne_true (hmod.mpr (Nat.mod_eq_zero_of_dvd hdvd))

/-- Every step has its effect. -/
theorem ChainStep.effect (st : ChainStep env keepers) : st.Effect := by
  have hoccurs := st.occurs
  cases haction : st.action with
  | prevote msg => exact effect_prevote haction
  | vote msg => exact effect_vote haction
  | delegate msg =>
    rw [haction] at hoccurs
    obtain ⟨_, k, hk, hafter⟩ := hoccurs
    obtain ⟨_, _, _, _, rfl⟩ := delegateFeedConsent_inv hk
    refine effect_of_kept (quiet_of_action (by simp [haction]) (by simp [haction])) ?_ ?_ ?_ ?_
    · rw [hafter]
      exact Nat.le_refl _
    · rw [hafter]
      rfl
    · intro v prevote hget
      rw [hafter] at hget
      exact hget
    · intro v vote hget
      rw [hafter] at hget ⊢
      exact ⟨hget, rfl⟩
  | endBlock ord => exact effect_endBlock haction
  | other =>
    rw [haction] at hoccurs
    obtain ⟨hheight, hprevotes, hvotes, _, hperiod⟩ := hoccurs
    refine effect_of_kept (quiet_of_action (by simp [haction]) (by simp [haction])) hheight.ge hperiod ?_ ?_
    · intro v prevote hget
      rw [← hprevotes]
      exact hget
    · intro v vote hget
      rw [← hvotes, hheight]
      exact ⟨hget, rfl⟩

end Effect

/-! ## Runs -/

section Runs

variable {P : Nat} {past steps : List (ChainStep env keepers)} {v : ValAddress} {i j : Nat}

/-- A prevote for a validator, and no later one before a step. -/
structure LatestPrevote (steps : List (ChainStep env keepers)) (v : ValAddress) (i j : Nat) : Prop where
  lt : i < j
  prevote : ∃ st msg, steps[i]? = some st ∧ st.Prevotes v msg
  latest : ∀ m st, i < m → m < j → steps[m]? = some st → ∀ msg, ¬ st.Prevotes v msg

/-- A vote that reveals the latest prevote, one of the period before, and no other vote
between the two. -/
structure Revealed (P : Nat) (steps : List (ChainStep env keepers)) (v : ValAddress) (i j : Nat) : Prop
    extends LatestPrevote steps v i j where
  opens : ∃ st st' msg msg' hash, steps[i]? = some st ∧ st.Prevotes v msg ∧
    steps[j]? = some st' ∧ st'.Votes v msg' ∧ aggregateVoteHashFromHexString msg.hash = .ok hash ∧
    hexString hash = getAggregateVoteHash env msg'.salt msg'.exchangeRates v ∧
    st.before.height / P + 1 = st'.before.height / P
  unused : ∀ m st, i < m → m < j → steps[m]? = some st → ∀ msg, ¬ st.Votes v msg

/-- What holds of a state and of the steps that led to it. -/
structure History (P : Nat) (past : List (ChainStep env keepers)) (c : Chain D) : Prop where
  votePeriod : c.oracle.params.votePeriod = P
  /-- a prevote in the store is the latest one, and no vote used it -/
  prevotes : ∀ v prevote, c.oracle.prevotes.get v = some prevote → prevote.submitBlock ≤ c.height ∧
    ∃ (i : Nat) (st : ChainStep env keepers) (msg : MsgAggregateDoRatePrevote) (hash : List UInt8),
      past[i]? = some st ∧ st.Prevotes v msg ∧
      aggregateVoteHashFromHexString msg.hash = .ok hash ∧
      prevote = ⟨hexString hash, env.valBech32.string v, st.before.height⟩ ∧
      ∀ (m : Nat) (st : ChainStep env keepers), i < m → past[m]? = some st → st.Quiet v
  /-- a vote in the store was cast in this period -/
  votes : ∀ v vote, c.oracle.votes.get v = some vote →
    ∃ (j : Nat) (st : ChainStep env keepers) (msg : MsgAggregateDoRateVote), past[j]? = some st ∧
    st.Accepted v msg vote ∧ st.before.height / P = c.height / P
  revealed : ∀ v (j : Nat) (st : ChainStep env keepers) msg, past[j]? = some st → st.Votes v msg → ∃ i, Revealed P past v i j

theorem getElem?_snoc {st x : ChainStep env keepers} {m : Nat} (h : (past ++ [st])[m]? = some x) :
    past[m]? = some x ∨ (m = past.length ∧ x = st) := by
  rcases Nat.lt_trichotomy m past.length with hlt | rfl | hgt
  · rw [List.getElem?_append_left hlt] at h
    exact .inl h
  · rw [List.getElem?_concat_length] at h
    exact .inr ⟨rfl, (Option.some.inj h).symm⟩
  · rw [List.getElem?_eq_none (by rw [List.length_append, List.length_singleton]; omega)] at h
    cases h

theorem getElem?_past {x : ChainStep env keepers} {m : Nat} (h : past[m]? = some x)
    (rest : List (ChainStep env keepers)) : (past ++ rest)[m]? = some x := by
  rw [List.getElem?_append_left (List.getElem?_eq_some_iff.mp h).1]
  exact h

/-- More steps do not change what was revealed. -/
theorem Revealed.append (h : Revealed P past v i j) (st : ChainStep env keepers) :
    Revealed P (past ++ [st]) v i j := by
  obtain ⟨⟨hlt, ⟨st₁, msg₁, hget₁, hprevotes⟩, hlatest⟩, hopens, hunused⟩ := h
  obtain ⟨a, b, msg, msg', hash, ha, hmsg, hb, hopens⟩ := hopens
  have hj : j < past.length := (List.getElem?_eq_some_iff.mp hb).1
  -- a step before the vote is one of the past
  have hpast : ∀ m x, m < j → (past ++ [st])[m]? = some x → past[m]? = some x := by
    intro m x hm hx
    rcases getElem?_snoc hx with hx | ⟨rfl, _⟩
    · exact hx
    · omega
  exact ⟨⟨hlt, ⟨st₁, msg₁, getElem?_past hget₁ _, hprevotes⟩,
      fun m x him hmj hx => hlatest m x him hmj (hpast m x hmj hx)⟩,
    ⟨a, b, msg, msg', hash, getElem?_past ha _, hmsg, getElem?_past hb _, hopens⟩,
    fun m x him hmj hx => hunused m x him hmj (hpast m x hmj hx)⟩

/-- A step adds to the history. -/
theorem History.step (past : List (ChainStep env keepers)) (st : ChainStep env keepers)
    (h : History P past st.before) : History P (past ++ [st]) st.after := by
  have heffect := st.effect
  refine ⟨heffect.votePeriod.trans h.votePeriod, ?_, ?_, ?_⟩
  · intro v prevote hget
    rcases heffect.prevotes v prevote hget with ⟨hbefore, hquiet⟩ | ⟨msg, hash, hprevotes, hhash, rfl⟩
    · obtain ⟨hle, i, x, msg, hash, hx, hprevotes, hhash, heq, hlater⟩ := h.prevotes v prevote hbefore
      refine ⟨hle.trans heffect.height, i, x, msg, hash, getElem?_past hx _, hprevotes, hhash, heq, ?_⟩
      intro m y him hy
      rcases getElem?_snoc hy with hy | ⟨_, rfl⟩
      · exact hlater m y him hy
      · exact hquiet
    · refine ⟨heffect.height, past.length, st, msg, hash, List.getElem?_concat_length, hprevotes, hhash, rfl, ?_⟩
      intro m y him hy
      rcases getElem?_snoc hy with hy | ⟨hm, _⟩
      · have hm := (List.getElem?_eq_some_iff.mp hy).1
        omega
      · omega
  · intro v vote hget
    rcases heffect.votes v vote hget with ⟨hbefore, hperiod⟩ | ⟨msg, haccepted, hheight⟩
    · obtain ⟨j, x, msg, hx, haccepted, hsame⟩ := h.votes v vote hbefore
      rw [h.votePeriod] at hperiod
      exact ⟨j, x, msg, getElem?_past hx _, haccepted, hsame.trans hperiod⟩
    · exact ⟨past.length, st, msg, List.getElem?_concat_length, haccepted, by rw [hheight]⟩
  · intro v j x msg hx hvotes
    rcases getElem?_snoc hx with hx | ⟨rfl, rfl⟩
    · obtain ⟨i, hrevealed⟩ := h.revealed v j x msg hx hvotes
      exact ⟨i, hrevealed.append st⟩
    · -- the vote of this step reveals the prevote in the store
      obtain ⟨prevote, hget, hhash', hperiod⟩ := heffect.reveals v msg hvotes
      obtain ⟨hle, i, y, msg', hash, hy, hprevotes, hhash, rfl, hlater⟩ := h.prevotes v prevote hget
      have hi : i < past.length := (List.getElem?_eq_some_iff.mp hy).1
      have hquiet : ∀ m z, i < m → m < past.length → (past ++ [x])[m]? = some z → z.Quiet v := by
        intro m z him hm hz
        rcases getElem?_snoc hz with hz | ⟨hm', _⟩
        · exact hlater m z him hz
        · omega
      rw [h.votePeriod] at hperiod
      refine ⟨i, ⟨hi, ⟨y, msg', getElem?_past hy _, hprevotes⟩,
        fun m z him hm hz => (hquiet m z him hm hz).1⟩, ?_, fun m z him hm hz => (hquiet m z him hm hz).2⟩
      exact ⟨y, x, msg', msg, hash, getElem?_past hy _, hprevotes, List.getElem?_concat_length, hvotes, hhash,
        hhash', checkRevealPeriod_inv x.before.height_lt hle hperiod⟩

theorem History.of_run {c₀ c : Chain D} (hperiod : c₀.oracle.params.votePeriod = P)
    (hprevotes : c₀.oracle.prevotes = SortedMap.empty) (hvotes : c₀.oracle.votes = SortedMap.empty)
    (hrun : Trace ChainStep.before ChainStep.after c₀ steps c) : History P steps c := by
  have hstart : History P ([] : List (ChainStep env keepers)) c₀ := by
    refine ⟨hperiod, ?_, ?_, ?_⟩
    · intro v prevote hget
      rw [hprevotes, SortedMap.get_empty] at hget
      cases hget
    · intro v vote hget
      rw [hvotes, SortedMap.get_empty] at hget
      cases hget
    · intro v j st msg hget
      cases hget
  exact Trace.history History.step hrun [] hstart

/-- Every vote that a run leads to was cast by a message. -/
theorem votes_cast {c₀ c : Chain D} (hprevotes : c₀.oracle.prevotes = SortedMap.empty)
    (hvotes : c₀.oracle.votes = SortedMap.empty)
    (hrun : Trace ChainStep.before ChainStep.after c₀ steps c) :
    ∀ a v, c.oracle.votes.get a = some v → Cast env a v := by
  intro a v hget
  obtain ⟨_, _, _, _, haccepted, _⟩ := (History.of_run rfl hprevotes hvotes hrun).votes a v hget
  exact haccepted.cast

/-- The latest prevote before a step is one. -/
theorem LatestPrevote.unique {i' : Nat} (h : LatestPrevote steps v i j) (h' : LatestPrevote steps v i' j) :
    i = i' := by
  obtain ⟨a, m, ha, hm⟩ := h.prevote
  obtain ⟨a', m', ha', hm'⟩ := h'.prevote
  rcases Nat.lt_trichotomy i i' with hlt | heq | hgt
  · exact absurd hm' (h.latest i' a' hlt h'.lt ha' m')
  · exact heq
  · exact absurd hm (h'.latest i a hgt h.lt ha m)

/-- A prevote is revealed by one vote only. -/
theorem History.used_once {c : Chain D} (h : History P steps c) {st' : ChainStep env keepers}
    {msg' : MsgAggregateDoRateVote} {j' : Nat} (hrevealed : Revealed P steps v i j)
    (hget' : steps[j']? = some st') (hvotes' : st'.Votes v msg') (hlatest' : LatestPrevote steps v i j') :
    j' = j := by
  obtain ⟨_, st, _, msg, _, _, _, hget, hvotes, _⟩ := hrevealed.opens
  obtain ⟨i', hrevealed'⟩ := h.revealed v j' st' msg' hget' hvotes'
  obtain rfl := hrevealed'.toLatestPrevote.unique hlatest'
  rcases Nat.lt_trichotomy j' j with hlt | heq | hgt
  · exact absurd hvotes' (hrevealed.unused j' st' hrevealed'.lt hlt hget' msg')
  · exact heq
  · exact absurd hvotes (hrevealed'.unused j st hrevealed.lt hgt hget msg)

/-- A prevote that can still be revealed is not old. -/
theorem not_isOldPrevote {height : Nat} {prevote : AggregateDoRatePrevote} (hheight : height < 2 ^ 63)
    (hlast : isPeriodLastBlock height P = .ok true) (hfits : prevote.submitBlock + P < 2 ^ 63) {later : Nat}
    (hlater : height < later) (hperiod : later / P = prevote.submitBlock / P + 1) :
    isOldPrevote height P prevote = false := by
  obtain ⟨hpos, hmod⟩ := isPeriodLastBlock_eq hheight hlast
  obtain ⟨n, hn⟩ := Nat.dvd_of_mod_eq_zero (hmod.mp rfl)
  -- the period that ends is the prevote's at the latest
  have hle : n ≤ prevote.submitBlock / P + 1 := by
    rw [← hperiod, Nat.le_div_iff_mul_le hpos, Nat.mul_comm]
    omega
  have hsubmit : P * (prevote.submitBlock / P) ≤ prevote.submitBlock := Nat.mul_div_le _ _
  have hend : height + 1 ≤ prevote.submitBlock + P :=
    calc height + 1 = P * n := hn
      _ ≤ P * (prevote.submitBlock / P + 1) := Nat.mul_le_mul_left P hle
      _ = P * (prevote.submitBlock / P) + P := by rw [Nat.mul_add, Nat.mul_one]
      _ ≤ prevote.submitBlock + P := by omega
  rw [isOldPrevote, decide_eq_false_iff_not, wrap64_eq (by omega) (by omega)]
  omega

/-- Commit and reveal: in every run from a store without prevotes and votes, a vote in
the store was cast in this period and reveals the latest prevote of its validator, one of
the period before, which no other vote reveals. The end of a period takes all votes, and
it leaves every prevote that can still be revealed, as long as the end of its time is an
`int64`. -/
theorem commit_reveal {c₀ c : Chain D} (hperiod : c₀.oracle.params.votePeriod = P)
    (hprevotes : c₀.oracle.prevotes = SortedMap.empty) (hvotes : c₀.oracle.votes = SortedMap.empty)
    (hrun : Trace ChainStep.before ChainStep.after c₀ steps c) :
    (∀ v vote, c.oracle.votes.get v = some vote →
      ∃ (i j : Nat) (st : ChainStep env keepers) (msg : MsgAggregateDoRateVote), steps[j]? = some st ∧
      st.Accepted v msg vote ∧ st.before.height / P = c.height / P ∧ Revealed P steps v i j ∧
      ∀ (j' : Nat) (st' : ChainStep env keepers) msg', steps[j']? = some st' → st'.Votes v msg' →
        LatestPrevote steps v i j' → j' = j) ∧
    ∀ ord w', endBlocker env keepers ord c.height c.world = .ok w' →
      (isPeriodLastBlock c.height P = .ok true → w'.oracle.votes = SortedMap.empty) ∧
      ∀ v prevote, c.oracle.prevotes.get v = some prevote → prevote.submitBlock + P < 2 ^ 63 →
        (∃ later, c.height < later ∧ later / P = prevote.submitBlock / P + 1) →
        w'.oracle.prevotes.get v = some prevote := by
  have h := History.of_run hperiod hprevotes hvotes hrun
  refine ⟨?_, ?_⟩
  · intro v vote hget
    obtain ⟨j, st, msg, hst, haccepted, hsame⟩ := h.votes v vote hget
    obtain ⟨i, hrevealed⟩ := h.revealed v j st msg hst haccepted.votes
    exact ⟨i, j, st, msg, hst, haccepted, hsame, hrevealed,
      fun j' st' msg' hget' hvotes' hlatest' => h.used_once hrevealed hget' hvotes' hlatest'⟩
  · intro ord w' hend
    have hP : c.world.oracle.params.votePeriod = P := h.votePeriod
    obtain ⟨_, hballots⟩ := endBlocker_ballots hend
    rw [hP] at hballots
    rcases hballots with ⟨hlast, hgone, hcleared⟩ | ⟨hlast, _, hkept⟩
    · refine ⟨fun _ => hgone, ?_⟩
      intro v prevote hget hfits hlater
      obtain ⟨later, hlt, hnext⟩ := hlater
      rw [hcleared]
      exact clearPrevotes_get.mpr ⟨hget, not_isOldPrevote c.height_lt hlast hfits hlt hnext⟩
    · refine ⟨?_, ?_⟩
      · intro htrue
        rw [hlast] at htrue
        cases htrue
      · intro v prevote hget _ _
        rw [hkept]
        exact hget

end Runs

namespace Sample

open Sdk.Sample (alice aliceText aliceOperator)

def prevoteMessage : MsgAggregateDoRatePrevote :=
  ⟨"fca30b9adc6fafa671b60b6858a03b6f69753e18", aliceText, aliceOperator⟩

/-- A chain without prevotes and votes. -/
def fresh (height : Nat) (hlt : height < 2 ^ 63) (votePeriod : Nat) : Chain (String → String → Int) :=
  ⟨height, hlt, world { voted [] [] with
    params := { params with
      votePeriod := votePeriod, rewardDistributionWindow := votePeriod, slashWindow := votePeriod }
    votes := SortedMap.empty }⟩

/-- With a vote period of three quarters of the heights, the end of a prevote's time is no
`int64`: Alice prevotes in the last block of a period, which deletes the prevote, and in
the next block it could be revealed. -/
theorem long_period_loses_prevote :
    ∃ (steps : List (ChainStep app modules)) (c : Chain (String → String → Int)) (w' : World _),
      Trace ChainStep.before ChainStep.after
        (fresh (3 * 2 ^ 61 - 1) (by decide) (3 * 2 ^ 61)) steps c ∧
      (c.oracle.prevotes.get alice).map AggregateDoRatePrevote.submitBlock = some (3 * 2 ^ 61 - 1) ∧
      c.height + 1 < 2 ^ 63 ∧ (c.height + 1) / (3 * 2 ^ 61) = (3 * 2 ^ 61 - 1) / (3 * 2 ^ 61) + 1 ∧
      endBlocker app modules byKey c.height c.world = .ok w' ∧
      (w'.oracle.prevotes.get alice).isNone = true := by
  let c₀ := fresh (3 * 2 ^ 61 - 1) (by decide) (3 * 2 ^ 61)
  have hrun : (aggregateDoRatePrevote app c₀.world.staking c₀.height c₀.oracle prevoteMessage).value.map
      (fun k => ((k.prevotes.get alice).map AggregateDoRatePrevote.submitBlock,
        (endBlocker app modules byKey c₀.height (c₀.setOracle k).world).value.map
          (fun w => (w.oracle.prevotes.get alice).isNone))) = some (some (3 * 2 ^ 61 - 1), some true) := by
    decide +kernel
  obtain ⟨k, hk, hfacts⟩ := Outcome.value_map_eq_some.mp hrun
  obtain ⟨hprevote, hend⟩ := Prod.mk.inj hfacts
  obtain ⟨w', hw', hgone⟩ := Outcome.value_map_eq_some.mp hend
  let st : ChainStep app modules :=
    ⟨c₀, .prevote prevoteMessage, c₀.setOracle k, by decide +kernel, k, hk, rfl⟩
  have hnext : 3 * 2 ^ 61 - 1 + 1 < 2 ^ 63 ∧
      (3 * 2 ^ 61 - 1 + 1) / (3 * 2 ^ 61) = (3 * 2 ^ 61 - 1) / (3 * 2 ^ 61) + 1 := by decide
  exact ⟨[st], c₀.setOracle k, w', Trace.cons st (.nil _), hprevote, hnext.1, hnext.2, hw', hgone⟩

/-- Alice prevotes in block four and votes in block five. -/
theorem vote_reveals_prevote :
    ∃ (steps : List (ChainStep app modules)) (c : Chain (String → String → Int)),
      Trace ChainStep.before ChainStep.after (fresh 4 (by decide) 5) steps c ∧
      c.oracle.votes.get alice = some ⟨[⟨"uusd", .one⟩], aliceOperator⟩ ∧
      ∃ i j, Revealed 5 steps alice i j := by
  let c₀ := fresh 4 (by decide) 5
  let msg := message aliceText aliceOperator "1.0uusd"
  have hrun : (aggregateDoRatePrevote app c₀.world.staking c₀.height c₀.oracle prevoteMessage).value.map
      (fun k => (endBlocker app modules byKey c₀.height (c₀.setOracle k).world).value.map
        (fun w => (aggregateDoRateVote app w.staking 5 w.oracle msg).value.map
          (fun k' => k'.votes.get alice))) =
      some (some (some (some ⟨[⟨"uusd", .one⟩], aliceOperator⟩))) := by
    decide +kernel
  obtain ⟨k, hk, hrun⟩ := Outcome.value_map_eq_some.mp hrun
  obtain ⟨w, hw, hrun⟩ := Outcome.value_map_eq_some.mp hrun
  obtain ⟨k', hk', hvote⟩ := Outcome.value_map_eq_some.mp hrun
  let c₁ : Chain (String → String → Int) := ⟨5, by decide, w⟩
  let prevoted : ChainStep app modules :=
    ⟨c₀, .prevote prevoteMessage, c₀.setOracle k, by decide +kernel, k, hk, rfl⟩
  let ended : ChainStep app modules := ⟨c₀.setOracle k, .endBlock byKey, c₁, hw, rfl⟩
  let revealed : ChainStep app modules :=
    ⟨c₁, .vote msg, c₁.setOracle k', by decide +kernel, k', hk', rfl⟩
  have htrace : Trace ChainStep.before ChainStep.after c₀ [prevoted, ended, revealed] (c₁.setOracle k') :=
    Trace.cons prevoted (Trace.cons ended (Trace.cons revealed (.nil _)))
  refine ⟨[prevoted, ended, revealed], c₁.setOracle k', htrace, hvote, ?_⟩
  obtain ⟨i, j, _, _, _, _, _, hrevealed, _⟩ := (commit_reveal rfl rfl rfl htrace).1 alice _ hvote
  exact ⟨i, j, hrevealed⟩

end Sample

end Oracle
