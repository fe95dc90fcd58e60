import DoChain.Gov.Tally
import DoChain.Oracle.Rates
import DoChain.Oracle.Reward

/- The end of a block of the oracle (`x/oracle/abci.go`, `x/oracle/keeper/ballot.go`,
   `x/oracle/keeper/slash.go`).

   Correspondence (Go ↔ Lean):
     `core.IsPeriodLastBlock`              ↔ `isPeriodLastBlock`
     the loop over the misses              ↔ `countMiss`, `countMisses`
     `Keeper.ClearBallots`                 ↔ `clearPrevotes`, and the votes are erased
     `Keeper.ApplyWhitelist`               ↔ `applyWhitelist`
     `Keeper.IterateMissCounters`          ↔ `iterateMissCounters`
     `Keeper.SlashAndResetMissCounters`    ↔ `slashAndResetMissCounters`
     `EndBlocker`                          ↔ `endBlocker`; `endPeriod` is what it does
                                             at the end of a vote period

   The state is what the block's end reads and changes: the oracle's store, balances and
   denomination metadata of the bank, and the states of the distribution and of the
   staking module. Events are left out. Votes and prevotes are stored under addresses that
   were read from a text, which are not empty; misses may be counted for the empty one.

   `endBlocker_deterministic` says that the orders in which the maps are ranged over
   do not matter: two of them lead to one state, or both to a panic. -/

namespace Oracle

open Sdk

/-! ## State -/

structure DenomUnit where
  denom : List UInt8
  exponent : Nat
  aliases : List (List UInt8)
  deriving DecidableEq

/-- Denomination metadata of the bank; the texts are bytes, as they are cut between
bytes. -/
structure Metadata where
  description : List UInt8
  denomUnits : List DenomUnit
  base : List UInt8
  display : List UInt8
  name : List UInt8
  symbol : List UInt8
  deriving DecidableEq

structure World (D : Type) where
  oracle : Store
  bank : Bank
  metadata : SortedMap String Metadata
  distribution : D
  staking : Staking

variable {D : Type} (env : Env) (keepers : Keepers D) (ord : Orders)

/-- The sum is one of `uint64`, and so is the remainder. -/
def isPeriodLastBlock (height blocksPerPeriod : Nat) : Outcome SdkError Bool :=
  if blocksPerPeriod = 0 then .panic "integer divide by zero"
  else .ok (decide ((height + 1) % 2 ^ 64 % blocksPerPeriod = 0))

/-! ## Misses -/

def getMissCounter (counters : SortedMap ValAddress Nat) (operator : ValAddress) : Nat :=
  (counters.get operator).getD 0

/-- A validator that did not win on every vote target missed; the counter is a
`uint64`. -/
def countMiss (voteTargetsLen : Int) (counters : SortedMap ValAddress Nat) (e : String × Claim) :
    SortedMap ValAddress Nat :=
  if e.2.winCount = voteTargetsLen then counters
  else counters.set e.2.recipient ((getMissCounter counters e.2.recipient + 1) % 2 ^ 64)

def countMisses (p : PeriodEnd) (counters : SortedMap ValAddress Nat) : SortedMap ValAddress Nat :=
  (ord.misses.range p.claims).foldl (countMiss (p.voteTargets.entries.length : Nat)) counters

/-! ## Clearing the ballots -/

/-- A prevote is old once its block is more than a vote period ago; the sum is one of
`uint64`, compared as an `int64`. -/
def isOldPrevote (height votePeriod : Nat) (prevote : AggregateDoRatePrevote) : Bool :=
  decide (wrap64 (prevote.submitBlock + votePeriod : Nat) < height)

def clearPrevotes (height votePeriod : Nat) (prevotes : SortedMap ValAddress AggregateDoRatePrevote) :
    SortedMap ValAddress AggregateDoRatePrevote :=
  prevotes.entries.foldl (fun prevotes e =>
    if isOldPrevote height votePeriod e.2 then prevotes.erase e.1 else prevotes) prevotes

/-! ## The whitelist -/

def updateRequired (whitelist : List Denom) (voteTargets : SortedMap String LegacyDec) : Bool :=
  if voteTargets.entries.length ≠ whitelist.length then true
  else whitelist.any (fun item => decide (voteTargets.get item.name ≠ some item.tobinTax))

def bytes (s : String) : List UInt8 := s.toUTF8.toList

/-- The metadata of a denomination; names of one byte have none. -/
def newMetadata (name : String) : Outcome SdkError Metadata :=
  match bytes name with
  | [] => .panic "slice bounds out of range [1:0]"
  | [_] => .panic "slice bounds out of range [:-1]"
  | _ :: display => .ok {
      description := bytes "The native stable token of the do Columbus."
      denomUnits := [
        ⟨bytes "u" ++ display, 0, [bytes "micro" ++ display]⟩,
        ⟨bytes "m" ++ display, 3, [bytes "milli" ++ display]⟩,
        ⟨display, 6, []⟩]
      base := bytes name
      display := display
      name := keepers.toUpper display ++ bytes " do"
      symbol := keepers.toUpper display.dropLast ++ bytes "T" }

/-- Existing metadata are left as they are. -/
def registerMetadata (metadata : SortedMap String Metadata) (name : String) :
    Outcome SdkError (SortedMap String Metadata) :=
  match metadata.get name with
  | some _ => .ok metadata
  | none => do
    let m ← newMetadata keepers name
    .ok (metadata.set name m)

def listDenom (acc : SortedMap String LegacyDec × SortedMap String Metadata) (item : Denom) :
    Outcome SdkError (SortedMap String LegacyDec × SortedMap String Metadata) := do
  let metadata ← registerMetadata keepers acc.2 item.name
  .ok (acc.1.set item.name item.tobinTax, metadata)

/-- The taxes are written anew where the whitelist is not what the vote targets are. -/
def applyWhitelist (whitelist : List Denom) (voteTargets tobinTaxes : SortedMap String LegacyDec)
    (metadata : SortedMap String Metadata) :
    Outcome SdkError (SortedMap String LegacyDec × SortedMap String Metadata) :=
  if updateRequired whitelist voteTargets then
    whitelist.foldlM (listDenom keepers) (tobinTaxes.clear, metadata)
  else .ok (tobinTaxes, metadata)

/-! ## Slashing -/

/-- `uint64` of the quotient of the windows. -/
def votePeriodsPerWindow (params : Params) : Outcome SdkError Nat := do
  let periods ← (LegacyDec.ofInt (wrap64 params.slashWindow)).quoInt64 (wrap64 params.votePeriod)
  let n := periods.i.tdiv LegacyDec.precision
  if -2 ^ 63 ≤ n ∧ n < 2 ^ 63 then .ok (n % 2 ^ 64).toNat else .panic "Int64() out of bound"

def validVoteRate (periods missCounter : Nat) : Outcome SdkError LegacyDec :=
  (LegacyDec.ofInt (wrap64 ((periods : Int) - missCounter))).quoInt64 (wrap64 periods)

def doOracleJailOnlyActive (height : Nat) : Bool :=
  decide (0 < Gov.doCommunityGovernanceHeight) && decide (Gov.doCommunityGovernanceHeight ≤ height)

/-- Slash, unless validators are only jailed, and jail. -/
def penalize (height : Nat) (slashFraction : LegacyDec) (staking : Staking) (v : Validator) :
    Outcome SdkError Staking :=
  if v.bonded && !v.jailed then
    match v.consAddr with
    | .error e => .panic e
    | .ok consAddr =>
      let staking := if doOracleJailOnlyActive height then staking
        else keepers.slash staking consAddr ((height : Int) - 1 - 1) v.consensusPower slashFraction
      .ok (keepers.jail staking consAddr)
  else .ok staking

/-- The entries of a family of the store with addresses for keys. The key of the empty address
is the byte of the family alone, and comes first: `Key()[2:]` panics before an entry is
handled. -/
def iterate {V : Type} (m : SortedMap ValAddress V) : Outcome SdkError (List (ValAddress × V)) :=
  match m.get [] with
  | some _ => .panic "slice bounds out of range [2:1]"
  | none => .ok m.entries

def iterateMissCounters (k : Store) : Outcome SdkError (List (ValAddress × Nat)) := iterate k.missCounters

/-- The counter of an operator that is to be penalized and no validator stays. -/
def slashOperator (height periods : Nat) (params : Params)
    (acc : Staking × SortedMap ValAddress Nat) (e : ValAddress × Nat) :
    Outcome SdkError (Staking × SortedMap ValAddress Nat) := do
  let rate ← validVoteRate periods e.2
  if rate < params.minValidPerWindow then
    match acc.1.validator e.1 with
    | none => .ok acc
    | some v => do
      let staking ← penalize keepers height params.slashFraction acc.1 v
      .ok (staking, acc.2.erase e.1)
  else .ok (acc.1, acc.2.erase e.1)

def slashAndResetMissCounters (height : Nat) (w : World D) : Outcome SdkError (World D) := do
  let periods ← votePeriodsPerWindow w.oracle.params
  let counters ← iterateMissCounters w.oracle
  let (staking, missCounters) ← counters.foldlM
    (slashOperator keepers height periods w.oracle.params) (w.staking, w.oracle.missCounters)
  .ok { w with staking, oracle := { w.oracle with missCounters } }

/-! ## The end of a block -/

def endPeriod (height : Nat) (w : World D) : Outcome SdkError (World D) := do
  let params := w.oracle.params
  let p ← updateExchangeRates env ord w.staking w.oracle
  let (bank, distribution) ← rewardBallotWinners keepers ord w.staking (wrap64 params.votePeriod)
    (wrap64 params.rewardDistributionWindow) p.voteTargets p.claims w.bank w.distribution
  let (tobinTaxes, metadata) ← applyWhitelist keepers params.whitelist p.voteTargets w.oracle.tobinTaxes
    w.metadata
  .ok { w with
    oracle := { w.oracle with
      exchangeRates := p.exchangeRates
      missCounters := countMisses ord p w.oracle.missCounters
      prevotes := clearPrevotes height params.votePeriod w.oracle.prevotes
      votes := w.oracle.votes.clear
      tobinTaxes }
    bank, metadata, distribution }

/-- What is done at the last block of a period. -/
def atPeriodEnd (height blocksPerPeriod : Nat) (f : World D → Outcome SdkError (World D)) (w : World D) :
    Outcome SdkError (World D) := do
  let last ← isPeriodLastBlock height blocksPerPeriod
  if last then f w else .ok w

def endBlocker (height : Nat) (w : World D) : Outcome SdkError (World D) := do
  let params := w.oracle.params
  let w ← atPeriodEnd height params.votePeriod (endPeriod env keepers ord height) w
  atPeriodEnd height params.slashWindow (slashAndResetMissCounters keepers height) w

/-! ## Reading a run back -/

section Inversion

variable {env} {keepers} {ord} {height : Nat} {w w' : World D}

theorem endPeriod_inv (h : endPeriod env keepers ord height w = .ok w') :
    ∃ p taxes metadata, updateExchangeRates env ord w.staking w.oracle = .ok p ∧
      applyWhitelist keepers w.oracle.params.whitelist p.voteTargets w.oracle.tobinTaxes w.metadata
        = .ok (taxes, metadata) ∧
      w'.oracle = { w.oracle with
        exchangeRates := p.exchangeRates
        missCounters := countMisses ord p w.oracle.missCounters
        prevotes := clearPrevotes height w.oracle.params.votePeriod w.oracle.prevotes
        votes := w.oracle.votes.clear
        tobinTaxes := taxes } := by
  obtain ⟨p, hp, h⟩ := Outcome.bind_eq_ok.mp h
  obtain ⟨_, _, h⟩ := Outcome.bind_eq_ok.mp h
  obtain ⟨taxes, htaxes, h⟩ := Outcome.bind_eq_ok.mp h
  cases h
  exact ⟨p, taxes.1, taxes.2, hp, htaxes, rfl⟩

theorem atPeriodEnd_inv {blocksPerPeriod : Nat} {f : World D → Outcome SdkError (World D)}
    (h : atPeriodEnd height blocksPerPeriod f w = .ok w') :
    (isPeriodLastBlock height blocksPerPeriod = .ok true ∧ f w = .ok w') ∨
      (isPeriodLastBlock height blocksPerPeriod = .ok false ∧ w = w') := by
  obtain ⟨last, hlast, h⟩ := Outcome.bind_eq_ok.mp h
  cases last with
  | true => exact .inl ⟨hlast, h⟩
  | false => exact .inr ⟨hlast, Outcome.ok.inj h⟩

theorem iterate_eq_ok {V : Type} {m : SortedMap ValAddress V} {es : List (ValAddress × V)} :
    iterate m = .ok es ↔ m.get [] = none ∧ m.entries = es := by
  unfold iterate
  split
  · rename_i v hv
    simp only [hv, reduceCtorEq, false_and]
  · rename_i hnone
    rw [and_iff_right hnone, Outcome.ok.injEq]

/-- Slashing goes from operator to operator; none is the empty one. -/
theorem slashAndReset_inv (h : slashAndResetMissCounters keepers height w = .ok w') :
    ∃ periods acc, votePeriodsPerWindow w.oracle.params = .ok periods ∧ w.oracle.missCounters.get [] = none ∧
      w.oracle.missCounters.entries.foldlM (slashOperator keepers height periods w.oracle.params)
        (w.staking, w.oracle.missCounters) = .ok acc ∧
      w' = { w with staking := acc.1, oracle := { w.oracle with missCounters := acc.2 } } := by
  obtain ⟨periods, hperiods, h⟩ := Outcome.bind_eq_ok.mp h
  obtain ⟨counters, hcounters, h⟩ := Outcome.bind_eq_ok.mp h
  obtain ⟨hnil, rfl⟩ := iterate_eq_ok.mp hcounters
  obtain ⟨acc, hfold, h⟩ := Outcome.bind_eq_ok.mp h
  exact ⟨periods, acc, hperiods, hnil, hfold, (Outcome.ok.inj h).symm⟩

/-- Of the oracle's store it changes the counters only. -/
theorem slashAndReset_oracle (h : slashAndResetMissCounters keepers height w = .ok w') :
    ∃ counters, w'.oracle = { w.oracle with missCounters := counters } := by
  obtain ⟨_, acc, _, _, _, rfl⟩ := slashAndReset_inv h
  exact ⟨acc.2, rfl⟩

/-- At the last block of a vote period the period ends, and then only counters change. -/
theorem endBlocker_inv (h : endBlocker env keepers ord height w = .ok w')
    (hlast : isPeriodLastBlock height w.oracle.params.votePeriod = .ok true) :
    ∃ w₁ counters, endPeriod env keepers ord height w = .ok w₁ ∧
      w'.oracle = { w₁.oracle with missCounters := counters } := by
  obtain ⟨w₁, hperiod, h⟩ := Outcome.bind_eq_ok.mp h
  rcases atPeriodEnd_inv hperiod with ⟨_, hperiod⟩ | ⟨hfalse, _⟩
  · refine ⟨w₁, ?_⟩
    rcases atPeriodEnd_inv h with ⟨_, hslash⟩ | ⟨_, rfl⟩
    · obtain ⟨counters, hcounters⟩ := slashAndReset_oracle hslash
      exact ⟨counters, hperiod, hcounters⟩
    · exact ⟨w₁.oracle.missCounters, hperiod, rfl⟩
  · rw [hlast] at hfalse
    cases hfalse

end Inversion

/-! ## In any order -/

section Order

variable {env} {keepers}

/-- The rates, the claims and the vote targets that are left do not depend on the
orders. -/
theorem updateExchangeRates_order (ord ord' : Orders) (staking : Staking) (k : Store) :
    (updateExchangeRates env ord staking k).value = (updateExchangeRates env ord' staking k).value := by
  rw [updateExchangeRates, updateExchangeRates, organize_eq, organize_eq]
  by_cases hfits : staking.ThresholdFits k.params
  · obtain ⟨sel, hpick, hsel⟩ := pickReferenceDo_spec ord k.tobinTaxes
      (periodBallots env staking k) hfits
    obtain ⟨sel', hpick', hsel'⟩ := pickReferenceDo_spec ord' k.tobinTaxes
      (periodBallots env staking k) hfits
    obtain ⟨hmap, htargets, href⟩ := hsel.agree hsel'
    rw [← periodBallots, hpick, hpick', Outcome.ok_bind, Outcome.ok_bind, Outcome.value_bind,
      Outcome.value_bind, htargets]
    have hrates : ∀ claims, (updateRates env ord k.params sel claims).value =
        (updateRates env ord' k.params sel' claims).value := by
      intro claims
      unfold updateRates
      rw [href, hmap]
      split_ifs
      · rfl
      · apply Outcome.foldlM_perm ((ord.rates.perm _).trans (ord'.rates.perm _).symm)
        intro e he e' he' acc
        by_cases hkey : e.1 = e'.1
        · rw [SortedMap.RangeOrder.eq_of_key he he' hkey]
        · apply Outcome.swap_of_apply (updateRate_eq env _ _)
          intro acc r r' _ _
          show some _ = some _
          rw [SortedMap.set_comm hkey, foldl_creditWinner_comm]
    rw [hrates]
  · simp only [pickReferenceDo, thresholdVotes_panic hfits]
    rfl

theorem countMisses_order (ord ord' : Orders) (p : PeriodEnd) (counters : SortedMap ValAddress Nat) :
    countMisses ord p counters = countMisses ord' p counters := by
  apply ((ord.misses.perm p.claims).trans (ord'.misses.perm p.claims).symm).foldl_eq'
  intro e _ e' _ counters
  unfold countMiss
  by_cases hwon : e.2.winCount = (p.voteTargets.entries.length : Nat)
  · simp only [hwon, if_true]
  · by_cases hwon' : e'.2.winCount = (p.voteTargets.entries.length : Nat)
    · simp only [hwon', if_true]
    · simp only [hwon, hwon', if_false]
      by_cases hsame : e.2.recipient = e'.2.recipient
      · rw [hsame]
      · have hsame' : e'.2.recipient ≠ e.2.recipient := fun h => hsame h.symm
        simp only [getMissCounter, SortedMap.get_set, if_neg hsame, if_neg hsame']
        exact SortedMap.set_comm hsame _ _ _

variable (env) in
/-- Every claim is that of an active validator, under its operator's text, and nothing is
won yet. -/
def Active (staking : Staking) (claims : ClaimMap) : Prop :=
  ∀ key claim, claims.get key = some claim →
    env.valBech32.accAddressFromBech32 key = .ok claim.recipient ∧
      (∃ v ∈ staking.byPower, v.operator = key) ∧ claim.winCount = 0

theorem active_activeClaims {staking : Staking} {vs : List Validator}
    (hvs : ∀ v ∈ vs, v ∈ staking.byPower) (n : Nat) {claims : ClaimMap}
    (h : Active env staking claims) : Active env staking (activeClaims env n vs claims) := by
  induction vs generalizing n claims with
  | nil => cases n <;> exact h
  | cons v rest ih =>
    have hrest := fun w hw => hvs w (List.mem_cons_of_mem v hw)
    cases n with
    | zero => exact h
    | succ n =>
      rw [activeClaims]
      split_ifs
      · exact ih hrest (n + 1) h
      · split
        · exact ih hrest (n + 1) h
        · rename_i valAddr hdecode
          apply ih hrest n
          intro key claim hget
          rw [SortedMap.get_set] at hget
          split_ifs at hget with hkey
          · cases hget
            subst hkey
            exact ⟨hdecode, ⟨v, hvs v List.mem_cons_self, rfl⟩, rfl⟩
          · exact h key claim hget

variable (env) in
theorem active_claims (staking : Staking) : Active env staking
    (activeClaims env staking.maxValidators staking.byPower SortedMap.empty) :=
  active_activeClaims (fun _ hv => hv) _ (by intro key claim hget; simp at hget)

/-- Operators that decode to one address are one. -/
theorem Staking.Indexed.operator_unique {staking : Staking} (h : staking.Indexed env) {v v' : Validator}
    (hv : v ∈ staking.byPower) (hv' : v' ∈ staking.byPower) {a : ValAddress}
    (ha : env.valBech32.accAddressFromBech32 v.operator = .ok a)
    (ha' : env.valBech32.accAddressFromBech32 v'.operator = .ok a) : v = v' := by
  have hfound : ∀ u ∈ staking.byPower, env.valBech32.accAddressFromBech32 u.operator = .ok a →
      staking.validator a = some u := by
    intro u hu hdecode
    obtain ⟨b, hb⟩ := h.byPower u hu
    have haddr := h.operator b u hb
    rw [hdecode] at haddr
    exact Except.ok.inj haddr ▸ hb
  have heq := hfound v hv ha
  rw [hfound v' hv' ha'] at heq
  exact (Option.some.inj heq).symm

variable (env) in
/-- A claim is that of an active validator, or one without a recipient, made for a voter
without a claim. -/
def OfActive (staking : Staking) (claims : ClaimMap) : Prop :=
  ∀ key claim, claims.get key = some claim → claim.recipient = [] ∨
    (env.valBech32.accAddressFromBech32 key = .ok claim.recipient ∧
      ∃ v ∈ staking.byPower, v.operator = key)

theorem OfActive.foldl_creditWinner {staking : Staking} {claims : ClaimMap}
    (h : OfActive env staking claims) (valString : ValAddress → String) (ws : ExchangeRateBallot) :
    OfActive env staking (ws.foldl (creditWinner valString) claims) := by
  induction ws generalizing claims with
  | nil => exact h
  | cons v rest ih =>
    apply ih
    intro key claim hget
    rw [creditWinner, SortedMap.get_set] at hget
    split_ifs at hget with hkey
    · cases hget
      cases hold : claims.get (valString v.voter) with
      | none => exact .inl rfl
      | some old => exact hkey ▸ h (valString v.voter) old hold
    · exact h key claim hget

theorem ofActive_updateExchangeRates {ord : Orders} {staking : Staking} {k : Store} {p : PeriodEnd}
    (h : updateExchangeRates env ord staking k = .ok p) : OfActive env staking p.claims := by
  have hstart : OfActive env staking
      (activeClaims env staking.maxValidators staking.byPower SortedMap.empty) :=
    fun key claim hget =>
      have hactive := active_claims env staking key claim hget
      .inr ⟨hactive.1, hactive.2.1⟩
  obtain ⟨sel, _, h⟩ := Outcome.bind_eq_ok.mp h
  obtain ⟨acc, hrates, h⟩ := Outcome.bind_eq_ok.mp h
  cases h
  show OfActive env staking acc.2
  unfold updateRates at hrates
  split_ifs at hrates
  · cases hrates
    exact hstart
  · refine Outcome.foldlM_invariant (P := fun acc => OfActive env staking acc.2) ?_ hstart hrates
    intro acc acc' e _ hacc hstep
    rw [updateRate_eq] at hstep
    obtain ⟨r, _, hstep⟩ := Outcome.bind_eq_ok.mp hstep
    cases hstep
    exact hacc.foldl_creditWinner _ r.2

/-- One validator has one claim: two operators that decode to one address are one. -/
theorem OfActive.distinctRecipients {staking : Staking} (hindexed : staking.Indexed env)
    {claims : ClaimMap} (h : OfActive env staking claims) : DistinctRecipients staking claims := by
  intro key key' claim claim' hget hget' hsome hsame
  have hne : claim.recipient ≠ [] := by
    intro hnil
    rw [hnil, hindexed.nil] at hsome
    cases hsome
  obtain ⟨hdecode, v, hv, hop⟩ := (h key claim hget).resolve_left hne
  obtain ⟨hdecode', v', hv', hop'⟩ := (h key' claim' hget').resolve_left (hsame ▸ hne)
  rw [← hop] at hdecode ⊢
  rw [← hop', ← hsame] at hdecode'
  rw [← hop', hindexed.operator_unique hv hv' hdecode hdecode']

/-- The end of a block does not depend on the orders in which maps are ranged over, as
long as rewards of different validators can be credited in any order. -/
theorem endBlocker_deterministic (ord ord' : Orders) (height : Nat) (w : World D)
    (hindexed : w.staking.Indexed env)
    (hcredit : ∀ v v', v.operator ≠ v'.operator → ∀ d x y,
      keepers.allocateTokensToValidator (keepers.allocateTokensToValidator d v x) v' y =
        keepers.allocateTokensToValidator (keepers.allocateTokensToValidator d v' y) v x) :
    (endBlocker env keepers ord height w).value = (endBlocker env keepers ord' height w).value := by
  have hperiod : (endPeriod env keepers ord height w).value = (endPeriod env keepers ord' height w).value := by
    simp only [endPeriod]
    rw [Outcome.value_bind, Outcome.value_bind, updateExchangeRates_order ord ord']
    apply Option.bind_congr
    intro p hp
    have hclaims := (ofActive_updateExchangeRates (Outcome.value_eq_some.mp hp)).distinctRecipients hindexed
    rw [Outcome.value_bind, Outcome.value_bind,
      rewardBallotWinners_order ord ord' hindexed hcredit hclaims]
    simp only [countMisses_order ord ord']
  have hat : (atPeriodEnd height w.oracle.params.votePeriod (endPeriod env keepers ord height) w).value =
      (atPeriodEnd height w.oracle.params.votePeriod (endPeriod env keepers ord' height) w).value := by
    unfold atPeriodEnd
    rw [Outcome.value_bind, Outcome.value_bind]
    apply Option.bind_congr
    intro last _
    split_ifs
    · exact hperiod
    · rfl
  simp only [endBlocker]
  rw [Outcome.value_bind, Outcome.value_bind, hat]

end Order

namespace Sample

open Sdk.Sample (alice bob aliceOperator bobOperator)

/-- Maps are ranged over from the last key on. -/
def backwards : Orders :=
  ⟨⟨fun m => m.entries.reverse, fun m => m.entries.reverse_perm⟩,
    ⟨fun m => m.entries.reverse, fun m => m.entries.reverse_perm⟩,
    ⟨fun m => m.entries.reverse, fun m => m.entries.reverse_perm⟩,
    ⟨fun m => m.entries.reverse, fun m => m.entries.reverse_perm⟩,
    ⟨fun m => m.entries.reverse, fun m => m.entries.reverse_perm⟩,
    ⟨fun m => m.entries.reverse, fun m => m.entries.reverse_perm⟩,
    ⟨fun m => m.entries.reverse, fun m => m.entries.reverse_perm⟩⟩

def distr : AccAddress :=
  [147, 53, 72, 69, 3, 2, 116, 205, 75, 241, 104, 106, 189, 96, 171, 40, 236, 82, 225, 167]

/-- The distribution module keeps what each operator was credited. -/
def modules : Keepers (String → String → Int) where
  oracleAddr := Sdk.Sample.oracle
  distrAddr := distr
  allocateTokensToValidator := fun rewards v coins operator denom =>
    rewards operator denom + if operator = v.operator then ((coins.get denom).getD .zero).i else 0
  slash := fun staking _ _ _ _ => staking
  jail := fun staking _ => staking
  toUpper := List.map (fun b => if 97 ≤ b ∧ b ≤ 122 then b - 32 else b)

/-- The oracle's account holds 1000 udo. -/
def world (k : Store) : World (String → String → Int) where
  oracle := k
  bank := ⟨fun a denom => if a = Sdk.Sample.oracle ∧ denom = "udo" then 1000 else 0, fun _ => 1000⟩
  metadata := SortedMap.empty
  distribution := fun _ _ => 0
  staking := staking

theorem staking_indexed : staking.Indexed app := by
  refine ⟨?_, ?_, by decide⟩
  · intro a v h
    simp only [staking] at h
    split_ifs at h with halice hbob
    · cases h
      rw [halice]
      rfl
    · cases h
      rw [hbob]
      rfl
  · intro v hv
    rcases List.mem_cons.mp hv with rfl | hv
    · exact ⟨alice, rfl⟩
    · rw [List.mem_singleton.mp hv]
      exact ⟨bob, rfl⟩

/-- Alice and Bob vote alike on both denominations and get 500 udo each, forwards and
backwards. -/
theorem backwards_alike :
    (endBlocker app modules byKey 4 (world
      (voted [⟨"ukrw", .one⟩, ⟨"uusd", .one⟩] [⟨"ukrw", .one⟩, ⟨"uusd", .one⟩]))).value.map
        (fun w => (w.distribution aliceOperator "udo", w.bank.balance distr "udo"))
      = some (500 * 10 ^ 18, 1000) ∧
    (endBlocker app modules byKey 4 (world
      (voted [⟨"ukrw", .one⟩, ⟨"uusd", .one⟩] [⟨"ukrw", .one⟩, ⟨"uusd", .one⟩]))).value =
    (endBlocker app modules backwards 4 (world
      (voted [⟨"ukrw", .one⟩, ⟨"uusd", .one⟩] [⟨"ukrw", .one⟩, ⟨"uusd", .one⟩]))).value := by
  refine ⟨by decide +kernel, endBlocker_deterministic byKey backwards 4 _ staking_indexed ?_⟩
  intro v v' hne d x y
  funext operator denom
  simp only [modules]
  omega

end Sample

end Oracle
