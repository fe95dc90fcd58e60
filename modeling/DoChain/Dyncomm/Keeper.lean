import DoChain.Lib.SortedMap
import DoChain.Sdk.DecCoin

/- Dynamic commissions (`x/dyncomm/keeper/dyncomm.go`, `types/params.go`).

   Correspondence (Go ↔ Lean):
     `Params.Validate`, `ParamSetPairs`   ↔ `Params.validate`, `Change`
     `CalculateVotingPower`               ↔ `calculateVotingPower`
     `CalculateDynCommission`             ↔ `calculateDynCommission`
     `SetDynCommissionRate` and the rest  ↔ `setDynCommissionRate` and the rest
     `UpdateValidatorMinRates`            ↔ `updateValidatorMinRates`
     `UpdateAllBondedValidatorRates`      ↔ `updateAllBondedValidatorRates`

   The module keeps, under the text of an operator's address, the smallest commission the
   validator may have and the one it asked for. An update computes the first from the
   validator's share of the power, and sets the commission to the larger of both.
   `updateAll_bonded` says what an update does to a bonded validator, and `updateAll_other`
   that it leaves everything else alone.

   What an update reads and does not change is a `Setting`. The staking module's reads may
   fail there, as the source allows for. -/

namespace Dyncomm

open Sdk

/-! ## Parameters -/

structure Params where
  maxZero : LegacyDec
  slopeBase : LegacyDec
  slopeVpImpact : LegacyDec
  cap : LegacyDec
  deriving DecidableEq

/-- A parameter from 0 to 1. -/
def validateUnit (name : String) (v : LegacyDec) : Outcome String Unit := do
  .failIf v.IsNegative (name ++ " shall be 0 or positive: " ++ v.text)
  .failIf (LegacyDec.one < v) (name ++ " shall be less than 1.0: " ++ v.text)

def validateMaxZero : LegacyDec → Outcome String Unit := validateUnit "max zero"

def validateCap : LegacyDec → Outcome String Unit := validateUnit "cap"

def validateSlopeBase (v : LegacyDec) : Outcome String Unit :=
  .failIf v.IsNegative ("slope base must be positive or Zero: " ++ v.text)

def validateSlopeVpImpact (v : LegacyDec) : Outcome String Unit :=
  .failIf (¬ v.IsPositive) ("slope vp impact must be positive: " ++ v.text)

/-- The checks of `Params.Validate` are those of the keys, in another order and partly with
other texts. -/
def Params.validate (p : Params) : Outcome String Unit := do
  .failIf p.slopeBase.IsNegative ("slope base must be positive or zero, is " ++ p.slopeBase.text)
  .failIf (¬ p.slopeVpImpact.IsPositive) ("solpe vp impact should be positive, is " ++ p.slopeVpImpact.text)
  validateUnit "cap" p.cap
  validateUnit "max zero" p.maxZero

/-- A key of the parameters, and a value for it. -/
inductive Change where
  | maxZero (v : LegacyDec)
  | slopeBase (v : LegacyDec)
  | slopeVpImpact (v : LegacyDec)
  | cap (v : LegacyDec)

def Change.validate : Change → Outcome String Unit
  | maxZero v => validateMaxZero v
  | slopeBase v => validateSlopeBase v
  | slopeVpImpact v => validateSlopeVpImpact v
  | cap v => validateCap v

def Change.apply (p : Params) : Change → Params
  | maxZero v => { p with maxZero := v }
  | slopeBase v => { p with slopeBase := v }
  | slopeVpImpact v => { p with slopeVpImpact := v }
  | cap v => { p with cap := v }

structure Params.Valid (p : Params) : Prop where
  maxZero : 0 ≤ p.maxZero.i ∧ p.maxZero ≤ .one
  slopeBase : 0 ≤ p.slopeBase.i
  slopeVpImpact : 0 < p.slopeVpImpact.i
  cap : 0 ≤ p.cap.i ∧ p.cap ≤ .one

theorem validateUnit_eq_ok {name : String} {v : LegacyDec} :
    validateUnit name v = .ok () ↔ 0 ≤ v.i ∧ v ≤ .one := by
  simp only [validateUnit, Outcome.check_bind_eq_ok, Outcome.failIf_eq_ok]
  exact and_congr Int.not_lt Int.not_lt

theorem Params.validate_eq_ok {p : Params} : p.validate = .ok () ↔ p.Valid := by
  have hbase : ¬ p.slopeBase.IsNegative ↔ 0 ≤ p.slopeBase.i := Int.not_lt
  have himpact : ¬ ¬ p.slopeVpImpact.IsPositive ↔ 0 < p.slopeVpImpact.i := not_not
  simp only [Params.validate, Outcome.check_bind_eq_ok, Outcome.failIf_eq_ok, validateUnit_eq_ok, hbase, himpact]
  exact ⟨fun h => ⟨h.2.2.2, h.1, h.2.1, h.2.2.1⟩, fun h => ⟨h.slopeBase, h.slopeVpImpact, h.cap, h.maxZero⟩⟩

/-- A change that its key accepts keeps parameters valid. -/
theorem Change.apply_valid {p : Params} (hp : p.Valid) {c : Change} (hc : c.validate = .ok ()) :
    (c.apply p).Valid := by
  cases c with
  | maxZero v => exact ⟨validateUnit_eq_ok.mp hc, hp.slopeBase, hp.slopeVpImpact, hp.cap⟩
  | slopeBase v => exact ⟨hp.maxZero, Int.not_lt.mp (Outcome.failIf_eq_ok.mp hc), hp.slopeVpImpact, hp.cap⟩
  | slopeVpImpact v => exact ⟨hp.maxZero, hp.slopeBase, not_not.mp (Outcome.failIf_eq_ok.mp hc), hp.cap⟩
  | cap v => exact ⟨hp.maxZero, hp.slopeBase, hp.slopeVpImpact, validateUnit_eq_ok.mp hc⟩

/-! ## Validators and rates -/

/-- `stakingtypes.Commission`. -/
structure Commission where
  rate : LegacyDec
  maxRate : LegacyDec
  maxChangeRate : LegacyDec
  updateTime : Int
  deriving DecidableEq

/-- The fields of `stakingtypes.Validator` that the module reads and writes. -/
structure Validator where
  operatorAddress : String
  bonded : Bool
  tokens : Nat
  commission : Commission
  deriving DecidableEq

structure ValidatorCommissionRate where
  validatorAddress : String
  minCommissionRate : LegacyDec
  targetCommissionRate : LegacyDec
  deriving DecidableEq

/-- What an update reads: the parameters, and the staking module's total power and smallest
commission. -/
structure Setting where
  params : Params
  lastTotalPower : Option Int
  minCommissionRate : Option LegacyDec

/-- What an update writes: the module's rates, by text, and the validators, by address. -/
structure Store where
  rates : SortedMap String ValidatorCommissionRate
  validators : SortedMap Bytes Validator
  deriving DecidableEq

section Rates

variable (rates : SortedMap String ValidatorCommissionRate) (validator : String)

def getDynCommissionRate : LegacyDec :=
  ((rates.get validator).map ValidatorCommissionRate.minCommissionRate).getD .zero

def getTargetCommissionRate : LegacyDec :=
  ((rates.get validator).map ValidatorCommissionRate.targetCommissionRate).getD .zero

def setDynCommissionRate (rate : LegacyDec) : SortedMap String ValidatorCommissionRate :=
  rates.set validator ⟨validator, rate, getTargetCommissionRate rates validator⟩

def setTargetCommissionRate (rate : LegacyDec) : SortedMap String ValidatorCommissionRate :=
  rates.set validator ⟨validator, getDynCommissionRate rates validator, rate⟩

variable {rates validator}

theorem getTarget_setTarget (rate : LegacyDec) (k : String) :
    getTargetCommissionRate (setTargetCommissionRate rates validator rate) k =
      if k = validator then rate else getTargetCommissionRate rates k := by
  unfold getTargetCommissionRate setTargetCommissionRate
  rw [SortedMap.get_set]
  split_ifs <;> rfl

end Rates

/-! ## The smallest commission -/

/-- The validator's share of the power, in percent. -/
def calculateVotingPower (setting : Setting) (validator : Validator) : Outcome SdkError LegacyDec :=
  match setting.lastTotalPower with
  | none => .ok .zero
  | some totalPower => do
    let validatorPower ← tokensToConsensusPower validator.tokens
    let total ← int64 totalPower
    let share ← (LegacyDec.ofInt validatorPower).quoInt64 total
    share.mulInt 100

/-- `y`, at most the cap and at least the smallest commission, in percent. -/
def clampRate (y cap minComm : LegacyDec) : LegacyDec :=
  let y := if cap < y then cap else y
  if y < minComm then minComm else y

def calculateDynCommission (setting : Setting) (validator : Validator) : Outcome SdkError LegacyDec := do
  let D ← setting.params.cap.mulInt 100
  let x ← calculateVotingPower setting validator
  let factorA ← x.sub setting.params.maxZero
  let quotient ← x.quo setting.params.slopeVpImpact
  let factorB ← quotient.add setting.params.slopeBase
  match setting.minCommissionRate with
  | none => .ok .zero
  | some minComm => do
    let minComm ← minComm.mulInt 100
    let y ← factorA.mul factorB
    (clampRate y D minComm).quoInt64 100

/-- The parameters are valid, and the staking module's smallest commission is a fraction. -/
structure Setting.Valid (setting : Setting) : Prop where
  params : setting.params.Valid
  minCommissionRate : ∀ m, setting.minCommissionRate = some m → 0 ≤ m.i ∧ m.i ≤ 10 ^ 18

theorem clampRate_bounds {y cap minComm : LegacyDec} (hcap : cap.i ≤ 100 * 10 ^ 18)
    (hlow : 0 ≤ minComm.i) (hhigh : minComm.i ≤ 100 * 10 ^ 18) :
    0 ≤ (clampRate y cap minComm).i ∧ (clampRate y cap minComm).i ≤ 100 * 10 ^ 18 := by
  simp only [clampRate, LegacyDec.lt_def]
  split_ifs <;> omega

/-- The smallest commission is a fraction. -/
theorem calculateDynCommission_bounds {setting : Setting} (h : setting.Valid) {v : Validator} {m : LegacyDec}
    (hm : calculateDynCommission setting v = .ok m) : 0 ≤ m.i ∧ m.i ≤ 10 ^ 18 := by
  have hcap : setting.params.cap.i ≤ 10 ^ 18 := h.params.cap.2
  obtain ⟨D, hD, hm⟩ := Outcome.bind_eq_ok.mp hm
  obtain ⟨_, rfl⟩ := LegacyDec.check_eq_ok.mp hD
  obtain ⟨x, _, hm⟩ := Outcome.bind_eq_ok.mp hm
  obtain ⟨factorA, _, hm⟩ := Outcome.bind_eq_ok.mp hm
  obtain ⟨quotient, _, hm⟩ := Outcome.bind_eq_ok.mp hm
  obtain ⟨factorB, _, hm⟩ := Outcome.bind_eq_ok.mp hm
  cases hmin : setting.minCommissionRate with
  | none =>
    rw [hmin] at hm
    cases hm
    exact ⟨Int.le_refl 0, by norm_num [LegacyDec.zero]⟩
  | some minComm =>
    rw [hmin] at hm
    obtain ⟨hlow, hhigh⟩ := h.minCommissionRate minComm hmin
    obtain ⟨scaled, hscaled, hm⟩ := Outcome.bind_eq_ok.mp hm
    obtain ⟨_, rfl⟩ := LegacyDec.check_eq_ok.mp hscaled
    obtain ⟨y, _, hm⟩ := Outcome.bind_eq_ok.mp hm
    have hclamp : 0 ≤ (clampRate y ⟨setting.params.cap.i * 100⟩ ⟨minComm.i * 100⟩).i ∧
        (clampRate y ⟨setting.params.cap.i * 100⟩ ⟨minComm.i * 100⟩).i ≤ 100 * 10 ^ 18 :=
      clampRate_bounds (by show _ * 100 ≤ _; omega) (by show 0 ≤ _ * 100; omega) (by show _ * 100 ≤ _; omega)
    obtain rfl : ⟨(clampRate y ⟨setting.params.cap.i * 100⟩ ⟨minComm.i * 100⟩).i.tdiv 100⟩ = m :=
      Outcome.ok.inj hm
    show 0 ≤ Int.tdiv _ 100 ∧ Int.tdiv _ 100 ≤ _
    rw [Int.tdiv_eq_ediv_of_nonneg hclamp.1]
    omega

/-! ## Updates -/

variable (bech32 : Bech32) (setting : Setting)

/-- `SetValidator`: the key is the address that the text stands for. -/
def setValidator (validators : SortedMap Bytes Validator) (v : Validator) : SortedMap Bytes Validator :=
  match bech32.accAddressFromBech32 v.operatorAddress with
  | .ok a => validators.set a v
  | .error _ => validators

/-- The validator with the larger of both rates, and a maximum that is not below the
smallest. -/
def Validator.updated (v : Validator) (minRate targetRate : LegacyDec) : Validator :=
  { v with commission :=
    { v.commission with
      rate := if targetRate < minRate then minRate else targetRate
      maxRate := if v.commission.maxRate < minRate then minRate else v.commission.maxRate } }

def updateValidatorMinRates (st : Store) (v : Validator) : Outcome SdkError Store := do
  let minRate ← calculateDynCommission setting v
  let targetRate := getTargetCommissionRate st.rates v.operatorAddress
  .ok { rates := setDynCommissionRate st.rates v.operatorAddress minRate
        validators := setValidator bech32 st.validators (v.updated minRate targetRate) }

/-- One validator of the loop. -/
def updateEntry (st : Store) (e : Bytes × Validator) : Outcome SdkError Store :=
  if e.2.bonded then updateValidatorMinRates bech32 setting st e.2 else .ok st

def updateAllBondedValidatorRates (st : Store) : Outcome SdkError Store :=
  st.validators.entries.foldlM (updateEntry bech32 setting) st

variable {bech32 setting}

/-- What an update leaves of a bonded validator. -/
structure Updated (setting : Setting) (before after : Store) (a : Bytes) (v : Validator) (m : LegacyDec) :
    Prop where
  minRate : calculateDynCommission setting v = .ok m
  validator : after.validators.get a =
    some (v.updated m (getTargetCommissionRate before.rates v.operatorAddress))
  rates : after.rates.get v.operatorAddress =
    some ⟨v.operatorAddress, m, getTargetCommissionRate before.rates v.operatorAddress⟩

/-- A bonded validator gets a new minimum, and is stored with it. -/
theorem updateEntry_bonded {e : Bytes × Validator}
    (hkey : bech32.accAddressFromBech32 e.2.operatorAddress = .ok e.1) (hbonded : e.2.bonded = true)
    {st st' : Store} (h : updateEntry bech32 setting st e = .ok st') :
    ∃ m, calculateDynCommission setting e.2 = .ok m ∧
      st'.validators =
        st.validators.set e.1 (e.2.updated m (getTargetCommissionRate st.rates e.2.operatorAddress)) ∧
      st'.rates = setDynCommissionRate st.rates e.2.operatorAddress m := by
  rw [updateEntry, if_pos hbonded] at h
  obtain ⟨m, hm, h⟩ := Outcome.bind_eq_ok.mp h
  cases h
  refine ⟨m, hm, ?_, rfl⟩
  show setValidator bech32 st.validators _ = _
  unfold setValidator
  show (match bech32.accAddressFromBech32 e.2.operatorAddress with
    | .ok a => _
    | .error _ => _) = _
  rw [hkey]

/-- The loop over the validators. -/
theorem updateLoop_inv {l : List (Bytes × Validator)}
    (hkeyed : ∀ e ∈ l, bech32.accAddressFromBech32 e.2.operatorAddress = .ok e.1)
    (hnodup : (l.map Prod.fst).Nodup) {st st' : Store} (h : l.foldlM (updateEntry bech32 setting) st = .ok st') :
    (∀ e ∈ l, e.2.bonded = true → ∃ m, Updated setting st st' e.1 e.2 m) ∧
    (∀ a, (∀ e ∈ l, e.2.bonded = true → e.1 ≠ a) → st'.validators.get a = st.validators.get a) ∧
    (∀ k, (∀ e ∈ l, e.2.bonded = true → e.2.operatorAddress ≠ k) → st'.rates.get k = st.rates.get k) := by
  induction l generalizing st with
  | nil =>
    cases h
    refine ⟨?_, fun _ _ => rfl, fun _ _ => rfl⟩
    intro e he
    cases he
  | cons e rest ih =>
    obtain ⟨hkey, hkeyed⟩ := List.forall_mem_cons.mp hkeyed
    rw [List.map_cons, List.nodup_cons] at hnodup
    rw [List.foldlM_cons] at h
    obtain ⟨st₁, hst₁, h⟩ := Outcome.bind_eq_ok.mp h
    obtain ⟨hin, haddr, hrates⟩ := ih hkeyed hnodup.2 h
    -- the others have other addresses, so other texts
    have haddr_ne : ∀ e' ∈ rest, e'.1 ≠ e.1 := fun e' he' heq => hnodup.1 (heq ▸ List.mem_map_of_mem he')
    have htext_ne : ∀ e' ∈ rest, e'.2.operatorAddress ≠ e.2.operatorAddress := by
      intro e' he' heq
      have hkey' := hkeyed e' he'
      rw [heq, hkey] at hkey'
      exact haddr_ne e' he' (Except.ok.inj hkey').symm
    by_cases hbonded : e.2.bonded = true
    · obtain ⟨m, hm, hvalidators, hrates₁⟩ := updateEntry_bonded hkey hbonded hst₁
      have htarget : ∀ e' ∈ rest, getTargetCommissionRate st₁.rates e'.2.operatorAddress =
          getTargetCommissionRate st.rates e'.2.operatorAddress := by
        intro e' he'
        unfold getTargetCommissionRate
        rw [hrates₁, setDynCommissionRate, SortedMap.get_set, if_neg (htext_ne e' he')]
      refine ⟨?_, ?_, ?_⟩
      · intro e' he' hb
        rcases List.mem_cons.mp he' with rfl | he'
        · refine ⟨m, hm, ?_, ?_⟩
          · rw [haddr _ fun x hx _ => haddr_ne x hx, hvalidators, SortedMap.get_set, if_pos rfl]
          · rw [hrates _ fun x hx _ => htext_ne x hx, hrates₁, setDynCommissionRate, SortedMap.get_set, if_pos rfl]
        · obtain ⟨m', hupdated⟩ := hin e' he' hb
          refine ⟨m', hupdated.minRate, ?_, ?_⟩
          · rw [hupdated.validator, htarget e' he']
          · rw [hupdated.rates, htarget e' he']
      · intro a ha
        obtain ⟨hne, hrest⟩ := List.forall_mem_cons.mp ha
        rw [haddr a hrest, hvalidators, SortedMap.get_set, if_neg (hne hbonded).symm]
      · intro k hk
        obtain ⟨hne, hrest⟩ := List.forall_mem_cons.mp hk
        rw [hrates k hrest, hrates₁, setDynCommissionRate, SortedMap.get_set, if_neg (hne hbonded).symm]
    · rw [updateEntry, if_neg hbonded] at hst₁
      cases hst₁
      refine ⟨?_, ?_, ?_⟩
      · intro e' he' hb
        rcases List.mem_cons.mp he' with rfl | he'
        · exact absurd hb hbonded
        · exact hin e' he' hb
      · exact fun a ha => haddr a (List.forall_mem_cons.mp ha).2
      · exact fun k hk => hrates k (List.forall_mem_cons.mp hk).2

/-- Every validator is stored under the address of its operator. -/
def Store.Keyed (bech32 : Bech32) (st : Store) : Prop :=
  ∀ a v, st.validators.get a = some v → bech32.accAddressFromBech32 v.operatorAddress = .ok a

section All

variable {st st' : Store} (hkeyed : st.Keyed bech32)
  (h : updateAllBondedValidatorRates bech32 setting st = .ok st')

include hkeyed h

theorem updateAll_bonded {a : Bytes} {v : Validator} (hget : st.validators.get a = some v)
    (hbonded : v.bonded = true) : ∃ m, Updated setting st st' a v m :=
  (updateLoop_inv (fun e he => hkeyed e.1 e.2 (SortedMap.get_eq_some.mpr he)) st.validators.keys_nodup h).1
    (a, v) (SortedMap.get_eq_some.mp hget) hbonded

/-- A validator that is not bonded keeps its commission and its rates. -/
theorem updateAll_other {a : Bytes} {v : Validator} (hget : st.validators.get a = some v)
    (hbonded : v.bonded = false) :
    st'.validators.get a = some v ∧ st'.rates.get v.operatorAddress = st.rates.get v.operatorAddress := by
  obtain ⟨_, haddr, hrates⟩ :=
    updateLoop_inv (fun e he => hkeyed e.1 e.2 (SortedMap.get_eq_some.mpr he)) st.validators.keys_nodup h
  refine ⟨?_, ?_⟩
  · rw [haddr, hget]
    intro e he hb heq
    have hv := SortedMap.get_eq_some.mpr he
    rw [heq, hget] at hv
    rw [← Option.some.inj hv, hbonded] at hb
    cases hb
  · apply hrates
    intro e he hb heq
    have hv := SortedMap.get_eq_some.mpr he
    have haddr' := hkeyed _ _ hv
    rw [heq, hkeyed a v hget] at haddr'
    rw [← Except.ok.inj haddr', hget] at hv
    rw [← Option.some.inj hv, hbonded] at hb
    cases hb

/-- No validator is added. -/
theorem updateAll_none {a : Bytes} (hget : st.validators.get a = none) : st'.validators.get a = none := by
  obtain ⟨_, haddr, _⟩ :=
    updateLoop_inv (fun e he => hkeyed e.1 e.2 (SortedMap.get_eq_some.mpr he)) st.validators.keys_nodup h
  rw [haddr, hget]
  intro e he _ heq
  rw [← heq, SortedMap.get_eq_some.mpr he] at hget
  cases hget

end All

end Dyncomm
