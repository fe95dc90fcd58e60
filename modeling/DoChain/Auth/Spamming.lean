import DoChain.App.Helper
import DoChain.Oracle.CommitReveal

/- The decorator against oracle spam (`custom/auth/ante/spamming_prevention.go`).

   Correspondence (Go ↔ Lean):
     `SpammingPreventionDecorator`  ↔ `Maps`, `newSpammingPreventionDecorator`
     `AnteHandle`                   ↔ `anteHandle`
     `CheckOracleSpamming`          ↔ `checkOracleSpamming`
     `containsOracleMsg`            ↔ `containsOracleMsg`

   The decorator holds two maps in memory, for prevotes and for votes: the height of the last
   transaction for a validator. They are no part of the state that a failed transaction rolls
   back. The other decorators of `NewAnteHandler` are data of a call: `earlier` is what those
   before this one return and `later` what those after it do, such as the fee and the
   signatures. What the decorator reads of the chain is data too, since a rejected
   transaction leaves no trace there.

   `removal_iff`: a rejected transaction can be taken out of the history, whatever comes
   later, if and only if it records nothing. -/

namespace Auth

open Sdk App

def maxOracleGasLimit : Nat := 1000000

def errTxDecode : RegisteredError := ⟨"sdk", 2, "tx parse error"⟩
def errInvalidGasLimit : RegisteredError := ⟨"sdk", 41, "invalid gas limit"⟩
/-- An error that no module has registered. -/
def errInternal : RegisteredError := ⟨"undefined", 1, "internal"⟩

/-- `oraclePrevoteMap` and `oracleVoteMap`: heights by the validator's text. -/
abbrev Maps := Kind → SortedMap String Int

def newSpammingPreventionDecorator : Maps := fun _ => SortedMap.empty

/-- A call of `CheckTx`. -/
structure CheckTx where
  isReCheckTx : Bool
  isCheckTx : Bool
  simulate : Bool
  blockHeight : Int
  staking : Oracle.Staking
  oracle : Oracle.Store
  /-- the gas of a `FeeTx` -/
  gas : Option Nat
  msgs : List TxMsg
  earlier : Outcome SdkError Unit
  later : Outcome SdkError Unit

variable (env : Oracle.Env)

/-! ## The decorator -/

/-- One message of a feeder: the map of its kind, with the height recorded. -/
def checkSubmission (call : CheckTx) (kind : Kind) (submitted : SortedMap String Int)
    (feeder validator : String) : Outcome SdkError (SortedMap String Int) := do
  let feederAddr ← .ofExcept (wrap errInternal) (env.accBech32.accAddressFromBech32 feeder)
  let valAddr ← .ofExcept (wrap errInternal) (env.valBech32.accAddressFromBech32 validator)
  Oracle.validateFeeder env call.staking call.oracle feederAddr valAddr
  .failIf (submitted.get validator = some call.blockHeight)
    (wrap errInvalidRequest
      ("the validator has already been submitted " ++ kind.text ++ " at the current height"))
  .ok (submitted.set validator call.blockHeight)

/-- The loop over the messages. It ends at the first message of another module, and what it
has recorded stays when it fails. -/
def checkOracleSpamming (call : CheckTx) (maps : Maps) : List TxMsg → Maps × Outcome SdkError Unit
  | [] => (maps, .ok ())
  | .oracle kind feeder validator :: rest =>
    match checkSubmission env call kind (maps kind) feeder validator with
    | .ok submitted => checkOracleSpamming call (Function.update maps kind submitted) rest
    | .err e => (maps, .err e)
    | .panic p => (maps, .panic p)
  | .other :: _ => (maps, .ok ())

def containsOracleMsg (msgs : List TxMsg) : Bool := msgs.any (fun msg => msg ≠ .other)

def checkGas (call : CheckTx) : Outcome SdkError Unit :=
  if containsOracleMsg call.msgs then do
    let gas ← .ofOption (wrap errTxDecode "oracle tx must be a FeeTx") call.gas
    .failIf (maxOracleGasLimit < gas)
      (wrap errInvalidGasLimit
        ("oracle tx gas limit " ++ toString gas ++ " exceeds maximum " ++ toString maxOracleGasLimit))
  else .ok ()

def anteHandle (maps : Maps) (call : CheckTx) : Maps × Outcome SdkError Unit :=
  if call.isReCheckTx then (maps, call.later)
  else if call.simulate = false ∧ call.isCheckTx = true then
    match checkGas call with
    | .ok _ =>
      let (maps, verdict) := checkOracleSpamming env call maps call.msgs
      (maps, verdict.bind fun _ => call.later)
    | failed => (maps, failed)
  else (maps, call.later)

/-- The ante chain. -/
def checkTx (maps : Maps) (call : CheckTx) : Maps × Outcome SdkError Unit :=
  match call.earlier with
  | .ok _ => anteHandle env maps call
  | failed => (maps, failed)

/-! ## Histories -/

/-- The maps after a history. -/
def after (maps : Maps) (history : List CheckTx) : Maps :=
  history.foldl (fun maps call => (checkTx env maps call).1) maps

/-- The results of the calls of a history, one after another. -/
def results (maps : Maps) : List CheckTx → List (Outcome SdkError Unit)
  | [] => []
  | call :: rest => (checkTx env maps call).2 :: results (checkTx env maps call).1 rest

/-- The decorator or a later one rejects the call. -/
def Rejected (maps : Maps) (call : CheckTx) : Prop :=
  call.earlier = .ok () ∧ (checkTx env maps call).2 ≠ .ok ()

/-- The loop over the messages is entered. -/
def Checked (call : CheckTx) : Prop :=
  call.isReCheckTx = false ∧ call.simulate = false ∧ call.isCheckTx = true ∧ checkGas call = .ok ()

/-- The addresses can be read, the feeder may submit for the validator, and nothing is
recorded for the validator at this height. -/
def Submits (call : CheckTx) (maps : Maps) (kind : Kind) (feeder validator : String) : Prop :=
  (∃ feederAddr valAddr, env.accBech32.accAddressFromBech32 feeder = .ok feederAddr ∧
    env.valBech32.accAddressFromBech32 validator = .ok valAddr ∧
    Oracle.validateFeeder env call.staking call.oracle feederAddr valAddr = .ok ()) ∧
  (maps kind).get validator ≠ some call.blockHeight

/-- The call is not checked, or its first message is not one that submits. -/
def RecordsNothing (maps : Maps) (call : CheckTx) : Prop :=
  ¬ Checked call ∨ ∀ kind feeder validator, call.msgs.head? = some (.oracle kind feeder validator) →
    ¬ Submits env call maps kind feeder validator

variable {env}

theorem checkSubmission_eq_ok {call : CheckTx} {maps : Maps} {kind : Kind} {feeder validator : String}
    {submitted : SortedMap String Int} :
    checkSubmission env call kind (maps kind) feeder validator = .ok submitted ↔
      Submits env call maps kind feeder validator ∧
        submitted = (maps kind).set validator call.blockHeight := by
  simp only [checkSubmission, Outcome.bind_eq_ok, Outcome.ofExcept_eq_ok, Outcome.failIf_eq_ok,
    Outcome.ok.injEq, Submits]
  refine ⟨?_, ?_⟩
  · intro h
    obtain ⟨f, hf, v, hv, _, hfeeder, _, hnew, hset⟩ := h
    exact ⟨⟨⟨f, v, hf, hv, hfeeder⟩, hnew⟩, hset.symm⟩
  · intro h
    obtain ⟨⟨⟨f, v, hf, hv, hfeeder⟩, hnew⟩, hset⟩ := h
    exact ⟨f, hf, v, hv, (), hfeeder, (), hnew, hset.symm⟩

/-- A height that is recorded stays: the loop only writes the height of the call. -/
theorem checkOracleSpamming_keeps {call : CheckTx} {maps : Maps} {msgs : List TxMsg} {kind : Kind}
    {validator : String} (h : (maps kind).get validator = some call.blockHeight) :
    ((checkOracleSpamming env call maps msgs).1 kind).get validator = some call.blockHeight := by
  induction msgs generalizing maps with
  | nil => exact h
  | cons msg rest ih =>
    cases msg with
    | other => exact h
    | oracle kind' feeder validator' =>
      rw [checkOracleSpamming]
      cases hsub : checkSubmission env call kind' (maps kind') feeder validator' with
      | err e => exact h
      | panic p => exact h
      | ok submitted =>
        apply ih
        obtain ⟨_, rfl⟩ := checkSubmission_eq_ok.mp hsub
        by_cases hkind : kind = kind'
        · subst hkind
          rw [Function.update_self, SortedMap.get_set]
          split_ifs <;> [rfl; exact h]
        · rw [Function.update_of_ne hkind]
          exact h

/-- A loop whose first message submits records its validator. -/
theorem checkOracleSpamming_records {call : CheckTx} {maps : Maps} {kind : Kind} {feeder validator : String}
    {rest : List TxMsg} (h : Submits env call maps kind feeder validator) :
    ((checkOracleSpamming env call maps (.oracle kind feeder validator :: rest)).1 kind).get validator
      = some call.blockHeight := by
  rw [checkOracleSpamming, checkSubmission_eq_ok.mpr ⟨h, rfl⟩]
  apply checkOracleSpamming_keeps
  rw [Function.update_self, SortedMap.get_set, if_pos rfl]

/-- A loop whose first message does not submit writes nothing. -/
theorem checkOracleSpamming_unchanged {call : CheckTx} {maps : Maps} {msgs : List TxMsg}
    (h : ∀ kind feeder validator, msgs.head? = some (.oracle kind feeder validator) →
      ¬ Submits env call maps kind feeder validator) :
    (checkOracleSpamming env call maps msgs).1 = maps := by
  cases msgs with
  | nil => rfl
  | cons msg rest =>
    cases msg with
    | other => rfl
    | oracle kind feeder validator =>
      rw [checkOracleSpamming]
      cases hsub : checkSubmission env call kind (maps kind) feeder validator with
      | err e => rfl
      | panic p => rfl
      | ok submitted => exact absurd (checkSubmission_eq_ok.mp hsub).1 (h _ _ _ rfl)

theorem anteHandle_checked {call : CheckTx} (h : Checked call) (maps : Maps) :
    anteHandle env maps call =
      ((checkOracleSpamming env call maps call.msgs).1,
        (checkOracleSpamming env call maps call.msgs).2.bind fun _ => call.later) := by
  obtain ⟨hre, hsim, hcheck, hgas⟩ := h
  simp [anteHandle, hre, hsim, hcheck, hgas]

theorem anteHandle_unchecked {call : CheckTx} (h : ¬ Checked call) (maps : Maps) :
    (anteHandle env maps call).1 = maps := by
  unfold anteHandle
  split_ifs with hre hcheck
  · rfl
  · cases hgas : checkGas call with
    | ok u => exact absurd ⟨Bool.not_eq_true _ ▸ hre, hcheck.1, hcheck.2, hgas⟩ h
    | err e => rfl
    | panic p => rfl
  · rfl

/-- A call that records nothing leaves the maps as they are. -/
theorem checkTx_unchanged {call : CheckTx} {maps : Maps} (h : RecordsNothing env maps call) :
    (checkTx env maps call).1 = maps := by
  unfold checkTx
  cases call.earlier with
  | err e => rfl
  | panic p => rfl
  | ok u =>
    show (anteHandle env maps call).1 = maps
    by_cases hchecked : Checked call
    · rw [anteHandle_checked hchecked]
      exact checkOracleSpamming_unchanged (h.resolve_left (not_not.mpr hchecked))
    · exact anteHandle_unchecked hchecked maps

/-! ## Probing the maps -/

/-- The call with one message only, which the other decorators accept. -/
def probe (call : CheckTx) (kind : Kind) (feeder validator : String) : CheckTx :=
  { call with gas := some 0, msgs := [.oracle kind feeder validator], earlier := .ok (), later := .ok () }

theorem probe_accepted_iff {call : CheckTx} (h : Checked call) {maps : Maps} {kind : Kind}
    {feeder validator : String} :
    (checkTx env maps (probe call kind feeder validator)).2 = .ok () ↔
      Submits env call maps kind feeder validator := by
  have hchecked : Checked (probe call kind feeder validator) := ⟨h.1, h.2.1, h.2.2.1, rfl⟩
  have hsame : checkSubmission env (probe call kind feeder validator) kind (maps kind) feeder validator =
      checkSubmission env call kind (maps kind) feeder validator := rfl
  show (anteHandle env maps (probe call kind feeder validator)).2 = .ok () ↔ _
  rw [anteHandle_checked hchecked]
  simp only [probe, checkOracleSpamming] at hsame ⊢
  rw [hsame]
  cases hsub : checkSubmission env call kind (maps kind) feeder validator with
  | ok submitted => exact iff_of_true rfl (checkSubmission_eq_ok.mp hsub).1
  | err e =>
    refine iff_of_false (by simp [Outcome.bind]) (fun hs => ?_)
    rw [checkSubmission_eq_ok.mpr ⟨hs, rfl⟩] at hsub
    cases hsub
  | panic p =>
    refine iff_of_false (by simp [Outcome.bind]) (fun hs => ?_)
    rw [checkSubmission_eq_ok.mpr ⟨hs, rfl⟩] at hsub
    cases hsub

/-- What a call records keeps a later call at the same height out that would be accepted
without it. -/
theorem probe_blocked {call : CheckTx} (hearlier : call.earlier = .ok ()) {maps : Maps}
    (h : ¬ RecordsNothing env maps call) :
    ∃ later, (checkTx env maps later).2 = .ok () ∧
      (checkTx env (checkTx env maps call).1 later).2 ≠ .ok () := by
  obtain ⟨hchecked, hfirst⟩ := not_or.mp h
  rw [not_not] at hchecked
  push Not at hfirst
  obtain ⟨kind, feeder, validator, hhead, hsub⟩ := hfirst
  obtain ⟨rest, hmsgs⟩ := List.head?_eq_some_iff.mp hhead
  refine ⟨probe call kind feeder validator, (probe_accepted_iff hchecked).mpr hsub, ?_⟩
  rw [Ne, probe_accepted_iff hchecked]
  intro hagain
  apply hagain.2
  simp only [checkTx, hearlier, anteHandle_checked hchecked, hmsgs]
  exact checkOracleSpamming_records hsub

variable (env)

/-- A rejected call can be taken out of the history without any effect on the results of
later calls, whatever these are, exactly if it records nothing. -/
theorem removal_iff (history : List CheckTx) (call : CheckTx)
    (hrejected : Rejected env (after env newSpammingPreventionDecorator history) call) :
    (∀ later, results env (after env newSpammingPreventionDecorator (history ++ [call])) later =
        results env (after env newSpammingPreventionDecorator history) later) ↔
      RecordsNothing env (after env newSpammingPreventionDecorator history) call := by
  generalize hmaps : after env newSpammingPreventionDecorator history = maps at hrejected ⊢
  have hafter : after env newSpammingPreventionDecorator (history ++ [call]) = (checkTx env maps call).1 := by
    rw [← hmaps]
    simp [after]
  rw [hafter]
  refine ⟨?_, ?_⟩
  · intro h
    by_contra hrecords
    obtain ⟨later, hok, hblocked⟩ := probe_blocked hrejected.1 hrecords
    have hone := h [later]
    simp only [results, List.cons.injEq, and_true] at hone
    exact hblocked (hone.trans hok)
  · intro h later
    rw [checkTx_unchanged h]

namespace Sample

open Sdk.Sample (alice bob aliceText bobText aliceOperator)
open Oracle.Sample (app staking voted)

/-- A transaction at height seven with one prevote for Alice's validator. -/
def prevoteFrom (feeder : String) (later : Outcome SdkError Unit) : CheckTx :=
  ⟨false, true, false, 7, staking, voted [] [], some 100000, [.oracle .prevote feeder aliceOperator],
    .ok (), later⟩

theorem bob_records_nothing : RecordsNothing app newSpammingPreventionDecorator (prevoteFrom bobText (.ok ())) := by
  refine .inr ?_
  intro kind feeder validator hhead hsub
  obtain ⟨rfl, rfl, rfl⟩ : kind = .prevote ∧ feeder = bobText ∧ validator = aliceOperator := by
    simpa [prevoteFrom, eq_comm] using hhead
  have hok := congrArg Outcome.value (checkSubmission_eq_ok.mpr ⟨hsub, rfl⟩)
  have hnone : (checkSubmission app (prevoteFrom bobText (.ok ())) .prevote SortedMap.empty bobText
      aliceOperator).value = none := by decide +kernel
  cases hnone.symm.trans hok

/-- Bob may not prevote for Alice, and their rejected transaction does not keep Alice's own
out. -/
theorem foreign_feeder_removed :
    results app (after app newSpammingPreventionDecorator ([] ++ [prevoteFrom bobText (.ok ())]))
        [prevoteFrom aliceText (.ok ())] =
      results app (after app newSpammingPreventionDecorator []) [prevoteFrom aliceText (.ok ())] :=
  (removal_iff app [] (prevoteFrom bobText (.ok ())) ⟨rfl, by decide +kernel⟩).mpr bob_records_nothing _

/-- Someone sends Alice's prevote with a wrong signature. The later decorator rejects it, and
then the decorator rejects Alice's own prevote at this height. -/
theorem rejected_prevote_blocks_feeder :
    let forged := prevoteFrom aliceText (.err (wrap errUnauthorized "signature verification failed"))
    let own := prevoteFrom aliceText (.ok ())
    Rejected app (after app newSpammingPreventionDecorator []) forged ∧
    results app (after app newSpammingPreventionDecorator [forged]) [own] =
      [.err (wrap errInvalidRequest "the validator has already been submitted prevote at the current height")] ∧
    results app (after app newSpammingPreventionDecorator []) [own] = [.ok ()] := by
  refine ⟨⟨rfl, ?_⟩, ?_, ?_⟩
  all_goals decide +kernel

end Sample

end Auth
