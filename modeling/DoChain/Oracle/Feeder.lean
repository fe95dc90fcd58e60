import DoChain.Oracle.CommitReveal

/- Who may speak for a validator (`x/oracle/types/msgs.go`, `x/oracle/keeper/keeper.go`).

   Correspondence (Go ↔ Lean):
     `GetSigners` of the three messages   ↔ `getSigners`
     `Keeper.ValidateFeeder`              ↔ `validateFeeder`, `validateFeeder_eq_ok`

   The signatures of a transaction are checked for the signers that its messages name. A
   prevote or a vote names its feeder as the signer, and a consent the operator. So an
   account speaks for a validator in a run only if it is the operator's, or if the operator
   signed a consent for it and none for another account since (`speaks_authorized`). -/

namespace Oracle

open Sdk

/-! ## Signers -/

section Signers

variable (env : Env)

/-- The account with an address; a text that is none panics. -/
def signerOf (codec : Bech32) (text : String) : Outcome SdkError (List AccAddress) := do
  let addr ← .orPanic (codec.accAddressFromBech32 text)
  .ok [addr]

def MsgAggregateDoRatePrevote.getSigners (msg : MsgAggregateDoRatePrevote) : Outcome SdkError (List AccAddress) :=
  signerOf env.accBech32 msg.feeder

def MsgAggregateDoRateVote.getSigners (msg : MsgAggregateDoRateVote) : Outcome SdkError (List AccAddress) :=
  signerOf env.accBech32 msg.feeder

def MsgDelegateFeedConsent.getSigners (msg : MsgDelegateFeedConsent) : Outcome SdkError (List AccAddress) :=
  signerOf env.valBech32 msg.operator

end Signers

variable {env : Env} {D : Type} {keepers : Keepers D}

theorem signerOf_eq_ok {codec : Bech32} {text : String} {a : AccAddress} :
    signerOf codec text = .ok [a] ↔ codec.accAddressFromBech32 text = .ok a := by
  rw [signerOf, Outcome.bind_eq_ok]
  refine ⟨?_, fun h => ⟨a, Outcome.orPanic_eq_ok.mpr h, rfl⟩⟩
  intro h
  obtain ⟨b, hb, heq⟩ := h
  cases heq
  exact Outcome.orPanic_eq_ok.mp hb

/-! ## Consents -/

/-- The account that a step's consent names for a validator. -/
def ChainStep.consents (st : ChainStep env keepers) (v : ValAddress) : Option AccAddress :=
  match st.action with
  | .delegate msg =>
    if env.valBech32.accAddressFromBech32 msg.operator = .ok v then
      (env.accBech32.accAddressFromBech32 msg.delegate).toOption
    else none
  | _ => none

/-- A consent is signed by the operator. -/
theorem ChainStep.consents_signed {st : ChainStep env keepers} {v : ValAddress} {feeder : AccAddress}
    (h : st.consents v = some feeder) :
    ∃ msg, st.action = .delegate msg ∧ msg.getSigners env = .ok [v] ∧
      env.accBech32.accAddressFromBech32 msg.delegate = .ok feeder := by
  unfold consents at h
  split at h
  · rename_i msg haction
    split_ifs at h with hoperator
    refine ⟨msg, haction, signerOf_eq_ok.mpr hoperator, ?_⟩
    cases hdelegate : env.accBech32.accAddressFromBech32 msg.delegate with
    | error e =>
      rw [hdelegate] at h
      cases h
    | ok a =>
      rw [hdelegate] at h
      exact congrArg _ (Option.some.inj h)
  · cases h

/-- The end of a block leaves the feeders. -/
theorem endBlocker_feeders {ord : Orders} {height : Nat} {w w' : World D}
    (h : endBlocker env keepers ord height w = .ok w') :
    w'.oracle.feederDelegations = w.oracle.feederDelegations := by
  obtain ⟨w₁, hperiod, hslash⟩ := Outcome.bind_eq_ok.mp h
  have hslash : w'.oracle.feederDelegations = w₁.oracle.feederDelegations := by
    rcases atPeriodEnd_inv hslash with ⟨_, hslash⟩ | ⟨_, rfl⟩
    · obtain ⟨_, hw'⟩ := slashAndReset_oracle hslash
      rw [hw']
    · rfl
  rcases atPeriodEnd_inv hperiod with ⟨_, hperiod⟩ | ⟨_, rfl⟩
  · obtain ⟨_, _, _, _, _, hw₁⟩ := endPeriod_inv hperiod
    rw [hslash, hw₁]
  · exact hslash

/-- A step leaves the feeder of a validator, or sets the one of a consent. -/
theorem ChainStep.feeder (st : ChainStep env keepers) (v : ValAddress) :
    getFeederDelegation st.after.oracle v = (st.consents v).getD (getFeederDelegation st.before.oracle v) := by
  have hoccurs := st.occurs
  unfold consents
  cases haction : st.action with
  | prevote msg =>
    rw [haction] at hoccurs
    obtain ⟨_, k, hk, hafter⟩ := hoccurs
    obtain ⟨_, _, _, _, rfl⟩ := aggregateDoRatePrevote_inv hk
    rw [hafter]
    rfl
  | vote msg =>
    rw [haction] at hoccurs
    obtain ⟨_, k, hk, hafter⟩ := hoccurs
    obtain ⟨_, _, _, _, _, _, _, _, _, _, _, _, rfl⟩ := aggregateDoRateVote_inv hk
    rw [hafter]
    rfl
  | delegate msg =>
    rw [haction] at hoccurs
    obtain ⟨_, k, hk, hafter⟩ := hoccurs
    obtain ⟨operator, feeder, hoperator, hfeeder, rfl⟩ := delegateFeedConsent_inv hk
    rw [hafter]
    show ((st.before.oracle.feederDelegations.set operator feeder).get v).getD v = _
    dsimp only
    rw [SortedMap.get_set, hoperator, hfeeder]
    by_cases hv : v = operator
    · rw [if_pos hv, if_pos (hv ▸ rfl)]
      rfl
    · have hne : ¬ (Except.ok operator : Except String ValAddress) = .ok v := by
        intro heq
        exact hv (Except.ok.inj heq).symm
      rw [if_neg hv, if_neg hne]
      rfl
  | endBlock ord =>
    rw [haction] at hoccurs
    rw [Chain.oracle, Chain.oracle, getFeederDelegation, endBlocker_feeders hoccurs.1]
    rfl
  | other =>
    rw [haction] at hoccurs
    rw [getFeederDelegation, hoccurs.2.2.2.1]
    rfl

/-! ## Speaking for a validator -/

/-- A prevote or a vote for a validator, with its signer. -/
def ChainStep.Speaks (st : ChainStep env keepers) (v : ValAddress) (signer : AccAddress) : Prop :=
  (∃ msg, st.Prevotes v msg ∧ msg.getSigners env = .ok [signer]) ∨
    ∃ msg, st.Votes v msg ∧ msg.getSigners env = .ok [signer]

theorem validateFeeder_eq_ok {staking : Staking} {k : Store} {feeder : AccAddress} {v : ValAddress}
    (h : validateFeeder env staking k feeder v = .ok ()) :
    (feeder = v ∨ feeder = getFeederDelegation k v) ∧ isBonded staking v = true := by
  obtain ⟨_, hallowed, hbonded⟩ := Outcome.bind_eq_ok.mp h
  rw [Outcome.failIf_eq_ok] at hallowed hbonded
  refine ⟨?_, Bool.not_eq_false _ ▸ hbonded⟩
  rcases not_and_or.mp hallowed with hself | hdelegate
  · exact .inl (not_not.mp hself)
  · exact .inr (not_not.mp hdelegate).symm

/-- Whoever speaks for a bonded validator is its operator or its feeder. -/
theorem ChainStep.Speaks.feeder {st : ChainStep env keepers} {v : ValAddress} {signer : AccAddress}
    (h : st.Speaks v signer) : (signer = v ∨ signer = getFeederDelegation st.before.oracle v) ∧
      isBonded st.before.world.staking v = true := by
  have hoccurs := st.occurs
  rcases h with ⟨msg, ⟨haction, hv⟩, hsigner⟩ | ⟨msg, ⟨haction, hv⟩, hsigner⟩
  · rw [haction] at hoccurs
    obtain ⟨_, k, hk, _⟩ := hoccurs
    simp only [aggregateDoRatePrevote, Outcome.bind_eq_ok, Outcome.ofExcept_eq_ok] at hk
    obtain ⟨u, hu, feeder, hfeeder, _, hvalid, _⟩ := hk
    rw [hv] at hu
    rw [signerOf_eq_ok.mp hsigner] at hfeeder
    cases hu
    cases hfeeder
    exact validateFeeder_eq_ok hvalid
  · rw [haction] at hoccurs
    obtain ⟨_, k, hk, _⟩ := hoccurs
    obtain ⟨u, feeder, _, _, hu, hfeeder, hallowed, hbonded, _⟩ := aggregateDoRateVote_inv hk
    rw [hv] at hu
    rw [signerOf_eq_ok.mp hsigner] at hfeeder
    cases hu
    cases hfeeder
    exact ⟨hallowed, hbonded⟩

/-- In every run from a chain without feeders, a prevote or vote for a validator that is
accepted is one for a bonded validator, and its signer is the operator or the account of the
last consent that the operator signed. -/
theorem speaks_authorized {c₀ c : Chain D} {past rest : List (ChainStep env keepers)}
    {st : ChainStep env keepers} {v : ValAddress} {signer : AccAddress}
    (hstart : c₀.oracle.feederDelegations = SortedMap.empty)
    (hrun : Trace ChainStep.before ChainStep.after c₀ (past ++ st :: rest) c) (hspeaks : st.Speaks v signer) :
    isBonded st.before.world.staking v = true ∧ (signer = v ∨
      ∃ (earlier later : List (ChainStep env keepers)) (consent : ChainStep env keepers)
        (msg : MsgDelegateFeedConsent), past = earlier ++ consent :: later ∧
        consent.action = .delegate msg ∧ msg.getSigners env = .ok [v] ∧
        env.accBech32.accAddressFromBech32 msg.delegate = .ok signer ∧
        ∀ x ∈ later, x.consents v = none) := by
  obtain ⟨hallowed, hbonded⟩ := hspeaks.feeder
  refine ⟨hbonded, ?_⟩
  rcases hallowed with hself | hfeeder
  · exact .inl hself
  · rcases hrun.upTo.last_write (fun c => getFeederDelegation c.oracle v) (fun st => st.consents v)
      (fun st _ => st.feeder v) with
      ⟨earlier, consent, later, hsplit, hwrote, hlater⟩ | ⟨_, hread⟩
    · obtain ⟨msg, haction, hsigned, hdelegate⟩ := ChainStep.consents_signed hwrote
      exact .inr ⟨earlier, later, consent, msg, hsplit, haction, hsigned, hfeeder ▸ hdelegate, hlater⟩
    · -- nobody consented, and the feeder is the operator
      have hdefault : getFeederDelegation c₀.oracle v = v := by
        rw [getFeederDelegation, hstart]
        rfl
      exact .inl (hfeeder.trans (hread.trans hdefault))

namespace Sample

open Sdk.Sample (alice bob aliceText bobText aliceOperator)

/-- Alice consents to Bob, and Bob prevotes for Alice. -/
theorem bob_speaks_for_alice :
    ∃ (consent prevote : ChainStep app modules) (c : Chain (String → String → Int)),
      Trace ChainStep.before ChainStep.after (fresh 4 (by decide) 5) ([consent] ++ prevote :: []) c ∧
      prevote.Speaks alice bob ∧ isBonded prevote.before.world.staking alice = true ∧
      ∃ st ∈ [consent], ∃ msg, st.action = .delegate msg ∧ msg.getSigners app = .ok [alice] := by
  let c₀ := fresh 4 (by decide) 5
  let consentMsg : MsgDelegateFeedConsent := ⟨aliceOperator, bobText⟩
  let prevoteMsg : MsgAggregateDoRatePrevote := { prevoteMessage with feeder := bobText }
  have hrun : (delegateFeedConsent app c₀.world.staking c₀.oracle consentMsg).value.map
      (fun k => (aggregateDoRatePrevote app c₀.world.staking c₀.height k prevoteMsg).value.isSome) =
        some true := by
    decide +kernel
  have hbasic : (consentMsg.validateBasic app).value = some () ∧ (prevoteMsg.validateBasic app).value = some () := by
    decide +kernel
  obtain ⟨k, hk, hrun⟩ := Outcome.value_map_eq_some.mp hrun
  obtain ⟨k', hk'⟩ := Option.isSome_iff_exists.mp hrun
  let consent : ChainStep app modules :=
    ⟨c₀, .delegate consentMsg, c₀.setOracle k, Outcome.value_eq_some.mp hbasic.1, k, hk, rfl⟩
  let prevote : ChainStep app modules :=
    ⟨c₀.setOracle k, .prevote prevoteMsg, (c₀.setOracle k).setOracle k', Outcome.value_eq_some.mp hbasic.2, k',
      Outcome.value_eq_some.mp hk', rfl⟩
  have htrace : Trace ChainStep.before ChainStep.after c₀ ([consent] ++ prevote :: []) _ :=
    .cons consent (.cons prevote (.nil _))
  have hspeaks : prevote.Speaks alice bob := .inl ⟨prevoteMsg, ⟨rfl, rfl⟩, rfl⟩
  obtain ⟨hbonded, hauthorized⟩ := speaks_authorized rfl htrace hspeaks
  have hne : bob ≠ alice := by decide
  obtain ⟨earlier, later, st, msg, hsplit, haction, hsigned, _, _⟩ := hauthorized.resolve_left hne
  have hmem : st ∈ [consent] := hsplit ▸ List.mem_append_right earlier List.mem_cons_self
  exact ⟨consent, prevote, _, htrace, hspeaks, hbonded, st, hmem, msg, haction, hsigned⟩

end Sample

end Oracle
