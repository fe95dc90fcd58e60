import DoChain.Dyncomm.Commission

/- Export and import of the commissions (`x/dyncomm/genesis.go`).

   Correspondence (Go ↔ Lean):
     `types.GenesisState` ↔ `GenesisState`
     `InitGenesis`        ↔ `importGenesis`
     `ExportGenesis`      ↔ `exportGenesis`

   The export lists the stored rates, and the import does not read them: the target of every
   validator becomes its current commission, and the minima are computed from the current
   stake. `Later` are the changes of stake and the updates that may follow on both chains.

   `Resumes` is what a chain needs to go on as before; `import_resumes_iff` says when it
   holds. -/

namespace Dyncomm

open Sdk

structure GenesisState where
  params : Params
  validatorCommissionRates : List ValidatorCommissionRate

def exportGenesis (s : State) : GenesisState where
  params := s.setting.params
  validatorCommissionRates := s.store.rates.entries.map Prod.snd

def Params.paramSetPairs (p : Params) : List Change :=
  [.maxZero p.maxZero, .slopeBase p.slopeBase, .slopeVpImpact p.slopeVpImpact, .cap p.cap]

def setParams (setting : Setting) (p : Params) : Outcome SdkError Setting := do
  setParamSet Change.validate p.paramSetPairs
  .ok { setting with params := p }

section Import

variable (bech32 : Bech32)

/-- The rates of the genesis are not read. -/
def importGenesis (setting : Setting) (validators : SortedMap Bytes Validator) (data : GenesisState) :
    Outcome SdkError State := do
  let setting ← setParams setting data.params
  let store ← initGenesis bech32 setting validators
  .ok ⟨setting, store⟩

/-! ## What follows on a chain -/

/-- A change of stake gives every validator a status and its tokens, or removes it. -/
inductive Later where
  | stake (lastTotalPower : Option Int) (change : Bytes → Option (Bool × Nat))
  | update

def restake (change : Bytes → Option (Bool × Nat)) (validators : SortedMap Bytes Validator) :
    SortedMap Bytes Validator :=
  validators.filterMap fun a v => (change a).map fun c => { v with bonded := c.1, tokens := c.2 }

def Later.apply (s : State) : Later → Outcome SdkError State
  | stake lastTotalPower change =>
    .ok ⟨{ s.setting with lastTotalPower }, ⟨s.store.rates, restake change s.store.validators⟩⟩
  | update => do
    let store ← updateAllBondedValidatorRates bech32 s.setting s.store
    .ok ⟨s.setting, store⟩

def runLater (s : State) (later : List Later) : Outcome SdkError State := later.foldlM (Later.apply bech32) s

end Import

def commissionRates (s : State) : SortedMap Bytes LegacyDec :=
  s.store.validators.mapVals fun v => v.commission.rate

/-- The second state has the stored rates of the first, and whatever stake changes and
updates follow, both chains return with the same commissions, or none does. -/
structure Resumes (bech32 : Bech32) (s t : State) : Prop where
  target : ∀ a v, s.store.validators.get a = some v →
    getTargetCommissionRate t.store.rates v.operatorAddress =
      getTargetCommissionRate s.store.rates v.operatorAddress
  minRate : ∀ a v, s.store.validators.get a = some v → v.bonded = true →
    getDynCommissionRate t.store.rates v.operatorAddress = getDynCommissionRate s.store.rates v.operatorAddress
  later : ∀ later, (runLater bech32 t later).value.map commissionRates =
    (runLater bech32 s later).value.map commissionRates

/-- Every validator asks for the commission it has, and the stored minimum of a bonded one is
that of its current stake, and not above its commission. -/
structure Settled (s : State) : Prop where
  target : ∀ a v, s.store.validators.get a = some v →
    getTargetCommissionRate s.store.rates v.operatorAddress = v.commission.rate
  minRate : ∀ a v, s.store.validators.get a = some v → v.bonded = true →
    calculateDynCommission s.setting v = .ok (getDynCommissionRate s.store.rates v.operatorAddress) ∧
      getDynCommissionRate s.store.rates v.operatorAddress ≤ v.commission.rate

/-! ## Two chains side by side -/

section Chains

variable {bech32 : Bech32} {setting : Setting}

theorem calculateDynCommission_congr {v w : Validator} (h : v.tokens = w.tokens) :
    calculateDynCommission setting v = calculateDynCommission setting w := by
  simp only [calculateDynCommission, calculateVotingPower, h]

/-- An update returns if the minimum of every bonded validator can be computed. -/
theorem updateAll_isOk {st : Store} (hkeyed : st.Keyed bech32) :
    (∃ st', updateAllBondedValidatorRates bech32 setting st = .ok st') ↔
      ∀ a v, st.validators.get a = some v → v.bonded = true → ∃ m, calculateDynCommission setting v = .ok m := by
  refine ⟨?_, ?_⟩
  · intro h a v hget hbonded
    obtain ⟨st', h⟩ := h
    obtain ⟨m, hupdated⟩ := updateAll_bonded hkeyed h hget hbonded
    exact ⟨m, hupdated.minRate⟩
  · intro h
    refine Outcome.foldlM_ok (C := fun e => e.2.bonded = true → ∃ m, calculateDynCommission setting e.2 = .ok m)
      ?_ (fun e he => h e.1 e.2 (SortedMap.get_eq_some.mpr he)) st
    intro b e _ hm
    unfold updateEntry
    split_ifs with hbonded
    · obtain ⟨m, hm⟩ := hm hbonded
      exact ⟨_, Outcome.bind_eq_ok.mpr ⟨m, hm, rfl⟩⟩
    · exact ⟨b, rfl⟩

theorem updateAll_keyed {st st' : Store} (hkeyed : st.Keyed bech32)
    (h : updateAllBondedValidatorRates bech32 setting st = .ok st') : st'.Keyed bech32 := by
  intro a v' hget
  obtain ⟨v, hv, hfrom⟩ := updateAll_from hkeyed h hget
  cases hfrom with
  | inl hother => exact hother.2.1 ▸ hkeyed a v hv
  | inr hbonded =>
    obtain ⟨_, m, _, rfl⟩ := hbonded
    exact hkeyed a v hv

/-- Two validators with one stake, one commission and one stored target. -/
structure Alike (rates rates' : SortedMap String ValidatorCommissionRate) (v w : Validator) : Prop where
  operatorAddress : w.operatorAddress = v.operatorAddress
  bonded : w.bonded = v.bonded
  tokens : w.tokens = v.tokens
  rate : w.commission.rate = v.commission.rate
  target : getTargetCommissionRate rates' v.operatorAddress = getTargetCommissionRate rates v.operatorAddress

/-- Two chains with alike validators. -/
structure Agree (bech32 : Bech32) (s t : State) : Prop where
  setting : t.setting = s.setting
  keyed : s.store.Keyed bech32 ∧ t.store.Keyed bech32
  alike : ∀ a v, s.store.validators.get a = some v →
    ∃ w, t.store.validators.get a = some w ∧ Alike s.store.rates t.store.rates v w
  absent : ∀ a, s.store.validators.get a = none → t.store.validators.get a = none

theorem Agree.commissionRates_eq {s t : State} (h : Agree bech32 s t) : commissionRates t = commissionRates s := by
  apply SortedMap.ext_get
  intro a
  rw [commissionRates, commissionRates, SortedMap.get_mapVals, SortedMap.get_mapVals]
  cases hv : s.store.validators.get a with
  | none => rw [h.absent a hv]
  | some v =>
    obtain ⟨w, hw, halike⟩ := h.alike a v hv
    rw [hw]
    exact congrArg some halike.rate

/-- A validator of the second chain has one on the first. -/
theorem Agree.alike_left {s t : State} (h : Agree bech32 s t) {a : Bytes} {w : Validator}
    (hw : t.store.validators.get a = some w) :
    ∃ v, s.store.validators.get a = some v ∧ Alike s.store.rates t.store.rates v w := by
  cases hv : s.store.validators.get a with
  | none =>
    rw [h.absent a hv] at hw
    cases hw
  | some v =>
    obtain ⟨w', hw', halike⟩ := h.alike a v hv
    rw [hw] at hw'
    exact ⟨v, rfl, Option.some.inj hw' ▸ halike⟩

theorem get_restake (change : Bytes → Option (Bool × Nat)) (validators : SortedMap Bytes Validator) (a : Bytes) :
    (restake change validators).get a = (validators.get a).bind fun v =>
      (change a).map fun c => { v with bonded := c.1, tokens := c.2 } :=
  SortedMap.get_filterMap _ _ _

theorem restake_keyed {rates : SortedMap String ValidatorCommissionRate} {validators : SortedMap Bytes Validator}
    (h : Store.Keyed bech32 ⟨rates, validators⟩) (change : Bytes → Option (Bool × Nat)) :
    Store.Keyed bech32 ⟨rates, restake change validators⟩ := by
  intro a v' hget
  obtain ⟨v, hv, hchange⟩ := Option.bind_eq_some_iff.mp ((get_restake change validators a).symm.trans hget)
  obtain ⟨c, _, rfl⟩ := Option.map_eq_some_iff.mp hchange
  exact h a v hv

theorem Agree.stake {s t : State} (h : Agree bech32 s t) (power : Option Int)
    (change : Bytes → Option (Bool × Nat)) :
    Agree bech32 ⟨{ s.setting with lastTotalPower := power }, ⟨s.store.rates, restake change s.store.validators⟩⟩
      ⟨{ t.setting with lastTotalPower := power }, ⟨t.store.rates, restake change t.store.validators⟩⟩ := by
  refine ⟨by rw [h.setting], ⟨restake_keyed h.keyed.1 change, restake_keyed h.keyed.2 change⟩, ?_, ?_⟩
  · intro a v' hget
    obtain ⟨v, hv, hchange⟩ := Option.bind_eq_some_iff.mp ((get_restake change _ a).symm.trans hget)
    obtain ⟨c, hc, rfl⟩ := Option.map_eq_some_iff.mp hchange
    obtain ⟨w, hw, halike⟩ := h.alike a v hv
    refine ⟨{ w with bonded := c.1, tokens := c.2 }, ?_, ?_⟩
    · show (restake change t.store.validators).get a = _
      rw [get_restake, hw, hc]
      rfl
    · exact ⟨halike.operatorAddress, rfl, rfl, halike.rate, halike.target⟩
  · intro a hget
    have hnone : (restake change s.store.validators).get a = none := hget
    show (restake change t.store.validators).get a = none
    rw [get_restake] at hnone ⊢
    cases hv : s.store.validators.get a with
    | none => rw [h.absent a hv, Option.bind_none]
    | some v =>
      obtain ⟨w, hw, _⟩ := h.alike a v hv
      rw [hv, Option.bind_some, Option.map_eq_none_iff] at hnone
      rw [hw, Option.bind_some, hnone, Option.map_none]

theorem Agree.update {s t : State} (h : Agree bech32 s t) {st st' : Store}
    (hs : updateAllBondedValidatorRates bech32 s.setting s.store = .ok st)
    (ht : updateAllBondedValidatorRates bech32 t.setting t.store = .ok st') :
    Agree bech32 ⟨s.setting, st⟩ ⟨t.setting, st'⟩ := by
  refine ⟨h.setting, ⟨updateAll_keyed h.keyed.1 hs, updateAll_keyed h.keyed.2 ht⟩, ?_, ?_⟩
  · intro a v' hget
    obtain ⟨v, hv, hfrom⟩ := updateAll_from h.keyed.1 hs hget
    obtain ⟨w, hw, halike⟩ := h.alike a v hv
    cases hfrom with
    | inl hother =>
      obtain ⟨hbonded, rfl, hrates⟩ := hother
      obtain ⟨hw', hrates'⟩ := updateAll_other h.keyed.2 ht hw (halike.bonded.trans hbonded)
      refine ⟨w, hw', halike.operatorAddress, halike.bonded, halike.tokens, halike.rate, ?_⟩
      rw [halike.operatorAddress] at hrates'
      rw [getTargetCommissionRate, hrates', getTargetCommissionRate, hrates]
      exact halike.target
    | inr hbonded =>
      obtain ⟨hbonded, m, hupdated, rfl⟩ := hbonded
      obtain ⟨m', hupdated'⟩ := updateAll_bonded h.keyed.2 ht hw (halike.bonded.trans hbonded)
      -- both minima come from one stake
      have hm := hupdated'.minRate
      rw [h.setting, calculateDynCommission_congr halike.tokens, hupdated.minRate] at hm
      obtain rfl := Outcome.ok.inj hm
      have htarget : getTargetCommissionRate t.store.rates w.operatorAddress =
          getTargetCommissionRate s.store.rates v.operatorAddress := by
        rw [halike.operatorAddress, halike.target]
      refine ⟨_, hupdated'.validator, halike.operatorAddress, halike.bonded, halike.tokens, ?_, ?_⟩
      · rw [htarget]
        rfl
      · show getTargetCommissionRate st'.rates v.operatorAddress = getTargetCommissionRate st.rates v.operatorAddress
        have hafter := hupdated'.getTarget
        rw [htarget, halike.operatorAddress] at hafter
        rw [hafter, hupdated.getTarget]
  · intro a hget
    cases hv : s.store.validators.get a with
    | none => exact updateAll_none h.keyed.2 ht (h.absent a hv)
    | some v =>
      exfalso
      cases hb : v.bonded with
      | false => rw [show st.validators.get a = some v from (updateAll_other h.keyed.1 hs hv hb).1] at hget; cases hget
      | true =>
        obtain ⟨m, hupdated⟩ := updateAll_bonded h.keyed.1 hs hv hb
        rw [show st.validators.get a = some _ from hupdated.validator] at hget
        cases hget

theorem update_value_none {s : State}
    (h : ¬ ∃ st, updateAllBondedValidatorRates bech32 s.setting s.store = .ok st) :
    (Later.update.apply bech32 s).value = none := by
  rw [Later.apply, Outcome.value_bind]
  cases hrun : updateAllBondedValidatorRates bech32 s.setting s.store with
  | ok st => exact absurd ⟨st, hrun⟩ h
  | err e => rfl
  | panic m => rfl

/-- On chains that agree, what follows returns on both or on none, and they agree after it. -/
theorem Agree.apply {s t : State} (h : Agree bech32 s t) (x : Later) :
    (∃ s' t', x.apply bech32 s = .ok s' ∧ x.apply bech32 t = .ok t' ∧ Agree bech32 s' t') ∨
      ((x.apply bech32 s).value = none ∧ (x.apply bech32 t).value = none) := by
  cases x with
  | stake power change => exact .inl ⟨_, _, rfl, rfl, h.stake power change⟩
  | update =>
    by_cases hok : ∃ st, updateAllBondedValidatorRates bech32 s.setting s.store = .ok st
    · -- the minima that one chain can compute are those of the other
      have hok' : ∃ st', updateAllBondedValidatorRates bech32 t.setting t.store = .ok st' := by
        rw [updateAll_isOk h.keyed.2]
        intro a w hw hbonded
        obtain ⟨v, hv, halike⟩ := h.alike_left hw
        rw [h.setting, calculateDynCommission_congr halike.tokens]
        exact (updateAll_isOk h.keyed.1).mp hok a v hv (halike.bonded ▸ hbonded)
      obtain ⟨st, hs⟩ := hok
      obtain ⟨st', ht⟩ := hok'
      refine .inl ⟨⟨s.setting, st⟩, ⟨t.setting, st'⟩, ?_, ?_, h.update hs ht⟩
      · exact Outcome.bind_eq_ok.mpr ⟨st, hs, rfl⟩
      · exact Outcome.bind_eq_ok.mpr ⟨st', ht, rfl⟩
    · have hok' : ¬ ∃ st', updateAllBondedValidatorRates bech32 t.setting t.store = .ok st' := by
        intro hok'
        apply hok
        rw [updateAll_isOk h.keyed.1]
        intro a v hv hbonded
        obtain ⟨w, hw, halike⟩ := h.alike a v hv
        rw [← calculateDynCommission_congr halike.tokens, ← h.setting]
        exact (updateAll_isOk h.keyed.2).mp hok' a w hw (halike.bonded.trans hbonded)
      exact .inr ⟨update_value_none hok, update_value_none hok'⟩

theorem Agree.run {s t : State} (h : Agree bech32 s t) (later : List Later) :
    (runLater bech32 t later).value.map commissionRates = (runLater bech32 s later).value.map commissionRates := by
  induction later generalizing s t with
  | nil => exact congrArg some h.commissionRates_eq
  | cons x rest ih =>
    rw [runLater, List.foldlM_cons, runLater, List.foldlM_cons]
    cases h.apply x with
    | inl hok =>
      obtain ⟨s', t', hs', ht', hagree⟩ := hok
      rw [hs', ht']
      exact ih hagree
    | inr hnone => rw [Outcome.value_bind, Outcome.value_bind, hnone.1, hnone.2]

/-! ## The import -/

theorem setParams_of_valid {setting : Setting} {p : Params} (h : p.Valid) :
    setParams setting p = .ok { setting with params := p } := by
  refine Outcome.check_bind_eq_ok.mpr ⟨setParamSet_eq_ok.mpr ?_, rfl⟩
  intro c hc
  simp only [Params.paramSetPairs, List.mem_cons, List.not_mem_nil, or_false] at hc
  rcases hc with rfl | rfl | rfl | rfl
  · exact validateUnit_eq_ok.mpr h.maxZero
  · exact Outcome.failIf_eq_ok.mpr (Int.not_lt.mpr h.slopeBase)
  · exact Outcome.failIf_eq_ok.mpr (not_not.mpr h.slopeVpImpact)
  · exact validateUnit_eq_ok.mpr h.cap

/-- What holds of every state: the keys have checked the parameters, and the staking module
stores a validator under the address of its operator. -/
structure State.WellKept (bech32 : Bech32) (s : State) : Prop where
  params : s.setting.params.Valid
  keyed : s.store.Keyed bech32

theorem run_wellKept {floatText : LegacyDec → String} {s₀ s : State} (hgenesis : Genesis bech32 s₀)
    {past : List (Step bech32 floatText)} (hpast : Trace Step.before Step.after s₀ past s) :
    s.WellKept bech32 := by
  have hsound := run_sound hpast hgenesis.sound
  exact ⟨hsound.setting.params, hsound.store.keyed⟩

/-- The import of an export takes the targets from the commissions, and updates. -/
theorem importGenesis_eq_ok {s t : State} (h : s.WellKept bech32) (p₀ : Params) :
    importGenesis bech32 { s.setting with params := p₀ } s.store.validators (exportGenesis s) = .ok t ↔
      t.setting = s.setting ∧ initGenesis bech32 s.setting s.store.validators = .ok t.store := by
  have hset : setParams { s.setting with params := p₀ } (exportGenesis s).params = .ok s.setting :=
    setParams_of_valid h.params
  rw [importGenesis, hset, Outcome.ok_bind]
  refine ⟨?_, ?_⟩
  · intro himport
    obtain ⟨store, hstore, himport⟩ := Outcome.bind_eq_ok.mp himport
    cases himport
    exact ⟨rfl, hstore⟩
  · intro himport
    refine Outcome.bind_eq_ok.mpr ⟨t.store, himport.2, ?_⟩
    rw [← himport.1]

/-- What the import updates: the commission of every validator is its target. -/
def startStore (s : State) : Store where
  rates := s.store.validators.entries.foldl
    (fun rates e => setTargetCommissionRate rates e.2.operatorAddress e.2.commission.rate) SortedMap.empty
  validators := s.store.validators

/-- A state that an import leaves, next to the state it was exported from. -/
structure Imported (bech32 : Bech32) (s t : State) : Prop where
  keyed : (startStore s).Keyed bech32
  setting : t.setting = s.setting
  store : updateAllBondedValidatorRates bech32 s.setting (startStore s) = .ok t.store

section

variable {s t : State} (h : Imported bech32 s t)

include h

theorem Imported.start {a : Bytes} {v : Validator} (hget : s.store.validators.get a = some v) :
    getTargetCommissionRate (startStore s).rates v.operatorAddress = v.commission.rate :=
  genesis_target_eq h.keyed hget

theorem Imported.target {a : Bytes} {v : Validator} (hget : s.store.validators.get a = some v) :
    getTargetCommissionRate t.store.rates v.operatorAddress = v.commission.rate := by
  cases hb : v.bonded with
  | false =>
    have hrates := (updateAll_other h.keyed h.store hget hb).2
    rw [getTargetCommissionRate, hrates]
    exact h.start hget
  | true =>
    obtain ⟨m, hupdated⟩ := updateAll_bonded h.keyed h.store hget hb
    rw [hupdated.getTarget]
    exact h.start hget

theorem Imported.bonded {a : Bytes} {v : Validator} (hget : s.store.validators.get a = some v)
    (hbonded : v.bonded = true) :
    ∃ m, calculateDynCommission s.setting v = .ok m ∧
      getDynCommissionRate t.store.rates v.operatorAddress = m ∧
      t.store.validators.get a = some (v.updated m v.commission.rate) := by
  obtain ⟨m, hupdated⟩ := updateAll_bonded h.keyed h.store hget hbonded
  have hvalidator := hupdated.validator
  rw [h.start hget] at hvalidator
  exact ⟨m, hupdated.minRate, hupdated.getDyn, hvalidator⟩

end

/-- A commission that is not below the minimum is kept by an update. -/
theorem updated_rate_eq {v : Validator} {m : LegacyDec} :
    (v.updated m v.commission.rate).commission.rate = v.commission.rate ↔ m ≤ v.commission.rate := by
  show (if v.commission.rate < m then m else v.commission.rate) = v.commission.rate ↔ _
  split_ifs with hlt
  · refine iff_of_false ?_ (Int.not_le.mpr hlt)
    intro heq
    rw [← heq] at hlt
    exact absurd hlt (Int.lt_irrefl _)
  · exact iff_of_true rfl (Int.not_lt.mp hlt)

theorem Settled.agree {s t : State} (hsettled : Settled s) (h : Imported bech32 s t) : Agree bech32 s t := by
  refine ⟨h.setting, ⟨h.keyed, updateAll_keyed h.keyed h.store⟩, ?_, ?_⟩
  · intro a v hget
    have htarget := (h.target hget).trans (hsettled.target a v hget).symm
    cases hb : v.bonded with
    | false =>
      exact ⟨v, (updateAll_other h.keyed h.store hget hb).1, rfl, rfl, rfl, rfl, htarget⟩
    | true =>
      obtain ⟨m, hm, _, hvalidator⟩ := h.bonded hget hb
      obtain ⟨hmin, hle⟩ := hsettled.minRate a v hget hb
      rw [hm] at hmin
      refine ⟨_, hvalidator, rfl, rfl, rfl, ?_, htarget⟩
      exact updated_rate_eq.mpr (Outcome.ok.inj hmin ▸ hle)
  · intro a hget
    exact updateAll_none h.keyed h.store hget

theorem Resumes.settled {s t : State} (hresumes : Resumes bech32 s t) (h : Imported bech32 s t) : Settled s := by
  refine ⟨fun a v hget => (hresumes.target a v hget).symm.trans (h.target hget), ?_⟩
  intro a v hget hbonded
  obtain ⟨m, hm, hdyn, hvalidator⟩ := h.bonded hget hbonded
  have hstored : getDynCommissionRate s.store.rates v.operatorAddress = m :=
    (hresumes.minRate a v hget hbonded).symm.trans hdyn
  rw [hstored]
  refine ⟨hm, ?_⟩
  -- before anything follows, the commissions are the same already
  have hrates : commissionRates t = commissionRates s := Option.some.inj (hresumes.later [])
  have hrate : (commissionRates t).get a = (commissionRates s).get a := by rw [hrates]
  rw [commissionRates, commissionRates, SortedMap.get_mapVals, SortedMap.get_mapVals, hvalidator, hget] at hrate
  exact updated_rate_eq.mp (Option.some.inj hrate)

/-- The import of the export, with the same stake and parameters, returns with the same rates
and the same commissions from then on exactly if every validator asks for the commission it
has, and the stored minima are those of the current stake. -/
theorem import_resumes_iff {s : State} (hs : s.WellKept bech32) (p₀ : Params) :
    (∃ t, importGenesis bech32 { s.setting with params := p₀ } s.store.validators (exportGenesis s) = .ok t ∧
      Resumes bech32 s t) ↔ Settled s := by
  have hstart : (startStore s).Keyed bech32 := hs.keyed
  refine ⟨?_, ?_⟩
  · intro h
    obtain ⟨t, himport, hresumes⟩ := h
    obtain ⟨hsetting, hstore⟩ := (importGenesis_eq_ok hs p₀).mp himport
    exact hresumes.settled ⟨hstart, hsetting, hstore⟩
  · intro h
    have hok : ∃ st, updateAllBondedValidatorRates bech32 s.setting (startStore s) = .ok st := by
      refine (updateAll_isOk hstart).mpr ?_
      intro a v hget hbonded
      exact ⟨_, (h.minRate a v hget hbonded).1⟩
    obtain ⟨st, hst⟩ := hok
    have himported : Imported bech32 s ⟨s.setting, st⟩ := ⟨hstart, rfl, hst⟩
    refine ⟨⟨s.setting, st⟩, (importGenesis_eq_ok hs p₀).mpr ⟨rfl, hst⟩, ?_, ?_, ?_⟩
    · intro a v hget
      exact (himported.target hget).trans (h.target a v hget).symm
    · intro a v hget hbonded
      obtain ⟨m, hm, hdyn, _⟩ := himported.bonded hget hbonded
      have hmin := (h.minRate a v hget hbonded).1
      rw [hm] at hmin
      exact hdyn.trans (Outcome.ok.inj hmin)
    · exact (h.agree himported).run

end Chains

namespace Sample

open Sdk.Sample (alice aliceOperator valBech32)

def fivePercent : LegacyDec := ⟨5 * 10 ^ 16⟩

/-- Alice's validator asks for more than the 3.3 percent of its power. -/
def settled : State :=
  ⟨setting, ⟨SortedMap.empty.set aliceOperator ⟨aliceOperator, ⟨33 * 10 ^ 15⟩, fivePercent⟩,
    SortedMap.empty.set alice (aliceValidator fivePercent)⟩⟩

theorem settled_get {a : Bytes} {v : Validator} (hget : settled.store.validators.get a = some v) :
    a = alice ∧ v = aliceValidator fivePercent := by
  rw [settled, SortedMap.get_set] at hget
  split_ifs at hget with ha
  · exact ⟨ha, (Option.some.inj hget).symm⟩
  · cases hget

theorem settled_genesis : Genesis valBech32 settled := by
  refine ⟨setting_valid, settled.store.validators, ?_, Outcome.value_eq_some.mp (by decide +kernel)⟩
  intro a v hget
  obtain ⟨rfl, rfl⟩ := settled_get hget
  exact ⟨rfl, by decide, by decide⟩

theorem settled_resumes :
    ∃ t, importGenesis valBech32 setting settled.store.validators (exportGenesis settled) = .ok t ∧
      Resumes valBech32 settled t := by
  have hpast : Trace Step.before Step.after settled ([] : List (Step valBech32 LegacyDec.text)) settled :=
    .nil settled
  refine (import_resumes_iff (run_wellKept settled_genesis hpast) setting.params).mpr ⟨?_, ?_⟩
  · intro a v hget
    obtain ⟨rfl, rfl⟩ := settled_get hget
    decide +kernel
  · intro a v hget _
    obtain ⟨rfl, rfl⟩ := settled_get hget
    exact ⟨Outcome.value_eq_some.mp (by decide +kernel), by decide +kernel⟩

/-- What the export of `updated` imports as. -/
def forgetful : State :=
  ⟨setting, ⟨SortedMap.empty.set aliceOperator ⟨aliceOperator, ⟨33 * 10 ^ 15⟩, ⟨33 * 10 ^ 15⟩⟩,
    updated.store.validators⟩⟩

/-- Ten times the power, and an update. -/
def diluted : List Later := [.stake (some 1000) fun _ => some (true, 2000000), .update]

/-- A validator that asks for two percent and was raised to 3.3: after the import it asks for
3.3, and keeps that commission when its share of the power has shrunk. -/
theorem target_forgotten : Genesis valBech32 empty ∧
    Trace Step.before Step.after empty [createStep, bondStep, updateStep] updated ∧
    ∃ t, importGenesis valBech32 setting updated.store.validators (exportGenesis updated) = .ok t ∧
      getTargetCommissionRate updated.store.rates aliceOperator = twoPercent ∧
      getTargetCommissionRate t.store.rates aliceOperator = ⟨33 * 10 ^ 15⟩ ∧
      (runLater valBech32 updated diluted).value.map commissionRates =
        some (SortedMap.empty.set alice twoPercent) ∧
      (runLater valBech32 t diluted).value.map commissionRates =
        some (SortedMap.empty.set alice ⟨33 * 10 ^ 15⟩) := by
  refine ⟨empty_genesis, .cons createStep (.cons bondStep (.cons updateStep (.nil updated))), ?_⟩
  refine ⟨forgetful, ?_, by decide +kernel, by decide +kernel, by decide +kernel, by decide +kernel⟩
  have hstore : initGenesis valBech32 setting updated.store.validators = .ok forgetful.store :=
    Outcome.value_eq_some.mp (by decide +kernel)
  have hparams : setParams setting setting.params = .ok setting := setParams_of_valid setting_valid.params
  show (setParams setting setting.params >>= fun setting => _) = _
  rw [hparams, Outcome.ok_bind, hstore]
  rfl

end Sample

end Dyncomm
