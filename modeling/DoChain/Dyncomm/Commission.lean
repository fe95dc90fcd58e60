import DoChain.Dyncomm.Messages
import DoChain.Lib.Trace

/- The commissions over a run (`x/dyncomm/genesis.go`, and the keeper and the decorators).

   A run is made of transactions, changes of stake, changes of parameters and updates, from
   the state that `InitGenesis` leaves. The staking module's handlers are code outside the
   source: `Creates` and `Edits` have what they check and what they write. A transaction
   passes the decorator, executes its messages one after another with any changes of stake
   between them, and passes the post decorator.

   `State.Sound` is what every step keeps (`Step.sound`): the stored target of a validator is
   at most its maximal commission, which is at most one. `commission_invariant` is what it
   means for the commissions after each update. -/

namespace Dyncomm

open Sdk

/-! ## States -/

structure State where
  setting : Setting
  store : Store

/-- What holds of one validator. -/
structure Validator.Sound (bech32 : Bech32) (rates : SortedMap String ValidatorCommissionRate) (a : Bytes)
    (v : Validator) : Prop where
  keyed : bech32.accAddressFromBech32 v.operatorAddress = .ok a
  target : getTargetCommissionRate rates v.operatorAddress ≤ v.commission.maxRate
  maxRate : v.commission.maxRate ≤ .one

def Store.Sound (bech32 : Bech32) (st : Store) : Prop :=
  ∀ a v, st.validators.get a = some v → v.Sound bech32 st.rates a

structure State.Sound (bech32 : Bech32) (s : State) : Prop where
  setting : s.setting.Valid
  store : s.store.Sound bech32

theorem Store.Sound.keyed {bech32 : Bech32} {st : Store} (h : st.Sound bech32) : st.Keyed bech32 :=
  fun a v hget => (h a v hget).keyed

section Runs

/-! ## Steps -/

variable (bech32 : Bech32) (setting : Setting)

/-- `MsgCreateValidator` is executed: a new validator, with a commission that passes the
staking module's checks. -/
structure Creates (validators after : SortedMap Bytes Validator) (text : String) (commission : Commission)
    (a : Bytes) (tokens : Nat) : Prop where
  address : bech32.accAddressFromBech32 text = .ok a
  isNew : validators.get a = none
  rate : 0 ≤ commission.rate.i ∧ commission.rate ≤ commission.maxRate
  maxRate : commission.maxRate ≤ .one
  minRate : ∀ m, setting.minCommissionRate = some m → m ≤ commission.rate
  after_eq : after = validators.set a ⟨text, false, tokens, commission⟩

/-- `MsgEditValidator` with a commission is executed. -/
structure Edits (validators after : SortedMap Bytes Validator) (text : String) (rate : LegacyDec)
    (a : Bytes) (v : Validator) (blockTime : Int) : Prop where
  address : bech32.accAddressFromBech32 text = .ok a
  validator : validators.get a = some v
  accepted : 0 ≤ rate.i ∧ rate ≤ v.commission.maxRate
  minRate : ∀ m, setting.minCommissionRate = some m → m ≤ rate
  after_eq : after =
    validators.set a { v with commission := { v.commission with rate := rate, updateTime := blockTime } }

/-- Stake moves: validators are bonded, slashed or removed, and keep their commissions. -/
def Restakes (validators after : SortedMap Bytes Validator) : Prop :=
  ∀ a v', after.get a = some v' → ∃ v, validators.get a = some v ∧
    v'.operatorAddress = v.operatorAddress ∧ v'.commission = v.commission

/-- A message of a transaction, or a change of stake by a message of another kind. -/
inductive TxAction where
  | msg (msg : Msg)
  | stake

def TxAction.msg? : TxAction → Option Msg
  | msg m => some m
  | stake => none

/-- An action executes. Only messages of the transaction itself create and edit validators in
these runs. -/
def TxAction.Executes (validators after : SortedMap Bytes Validator) : TxAction → Prop
  | msg (.createValidator text commission) =>
    ∃ a tokens, Creates bech32 setting validators after text commission a tokens
  | msg (.editValidator text (some rate)) =>
    ∃ a v blockTime, Edits bech32 setting validators after text rate a v blockTime
  | msg (.editValidator _ none) => after = validators
  | msg _ => False
  | stake => Restakes validators after

/-- The actions of a transaction execute, one after another. -/
inductive ExecutesAll : SortedMap Bytes Validator → List TxAction → SortedMap Bytes Validator → Prop where
  | nil (validators : SortedMap Bytes Validator) : ExecutesAll validators [] validators
  | cons {act : TxAction} {acts : List TxAction} {validators mid after : SortedMap Bytes Validator} :
      act.Executes bech32 setting validators mid → ExecutesAll mid acts after →
      ExecutesAll validators (act :: acts) after

inductive Action where
  | tx (acts : List TxAction)
  | stake (lastTotalPower : Option Int)
  | param (change : Change)
  | minCommissionRate (rate : LegacyDec)
  | update

variable (floatText : LegacyDec → String)

/-- An action leads from one state to another. -/
def Action.Occurs (s s' : State) : Action → Prop
  | tx acts =>
    filterMsgsAndProcessMsgs floatText s.store.rates (acts.filterMap TxAction.msg?) = .ok () ∧
    ∃ validators, ExecutesAll bech32 s.setting s.store.validators acts validators ∧
      s' = ⟨s.setting, ⟨postHandle false false s.store.rates (acts.filterMap TxAction.msg?), validators⟩⟩
  | stake lastTotalPower =>
    ∃ validators, Restakes s.store.validators validators ∧
      s' = ⟨{ s.setting with lastTotalPower }, ⟨s.store.rates, validators⟩⟩
  | param change =>
    change.validate = .ok () ∧ s' = ⟨{ s.setting with params := change.apply s.setting.params }, s.store⟩
  | minCommissionRate rate =>
    (0 ≤ rate.i ∧ rate ≤ .one) ∧ s' = ⟨{ s.setting with minCommissionRate := some rate }, s.store⟩
  | update => ∃ store, updateAllBondedValidatorRates bech32 s.setting s.store = .ok store ∧
      s' = ⟨s.setting, store⟩

structure Step where
  before : State
  action : Action
  after : State
  occurs : action.Occurs bech32 floatText before after

/-- A transaction with a message that creates a validator at the address. -/
def Step.CreatesAt (st : Step bech32 floatText) (a : Bytes) : Prop :=
  ∃ acts text commission, st.action = .tx acts ∧ .msg (.createValidator text commission) ∈ acts ∧
    bech32.accAddressFromBech32 text = .ok a

/-- `InitGenesis`, after the parameters: the targets are the commissions of the validators. -/
def initGenesis (validators : SortedMap Bytes Validator) : Outcome SdkError Store :=
  let rates := validators.entries.foldl
    (fun rates e => setTargetCommissionRate rates e.2.operatorAddress e.2.commission.rate) SortedMap.empty
  updateAllBondedValidatorRates bech32 setting ⟨rates, validators⟩

/-- A state at genesis, with validators whose commissions pass the staking module's checks. -/
def Genesis (s : State) : Prop :=
  s.setting.Valid ∧ ∃ validators : SortedMap Bytes Validator,
    (∀ a v, validators.get a = some v → bech32.accAddressFromBech32 v.operatorAddress = .ok a ∧
      v.commission.rate ≤ v.commission.maxRate ∧ v.commission.maxRate ≤ .one) ∧
    initGenesis bech32 s.setting validators = .ok s.store

/-! ## What an update keeps -/

variable {bech32 setting floatText}

theorem updated_maxRate (v : Validator) (m target : LegacyDec) :
    (v.updated m target).commission.maxRate.i = max v.commission.maxRate.i m.i := by
  show (if v.commission.maxRate < m then m else v.commission.maxRate).i = _
  split_ifs with h
  · exact (max_eq_right (Int.le_of_lt h)).symm
  · exact (max_eq_left (Int.not_lt.mp h)).symm

theorem Updated.getTarget {st st' : Store} {a : Bytes} {v : Validator} {m : LegacyDec}
    (h : Updated setting st st' a v m) :
    getTargetCommissionRate st'.rates v.operatorAddress = getTargetCommissionRate st.rates v.operatorAddress := by
  rw [getTargetCommissionRate, h.rates]
  rfl

theorem Updated.getDyn {st st' : Store} {a : Bytes} {v : Validator} {m : LegacyDec}
    (h : Updated setting st st' a v m) : getDynCommissionRate st'.rates v.operatorAddress = m := by
  rw [getDynCommissionRate, h.rates]
  rfl

/-- Where a validator after an update comes from. -/
theorem updateAll_from {st st' : Store} (hkeyed : st.Keyed bech32)
    (h : updateAllBondedValidatorRates bech32 setting st = .ok st') {a : Bytes} {v' : Validator}
    (hget : st'.validators.get a = some v') :
    ∃ v, st.validators.get a = some v ∧
      ((v.bonded = false ∧ v' = v ∧ st'.rates.get v.operatorAddress = st.rates.get v.operatorAddress) ∨
        (v.bonded = true ∧ ∃ m, Updated setting st st' a v m ∧
          v' = v.updated m (getTargetCommissionRate st.rates v.operatorAddress))) := by
  cases hv : st.validators.get a with
  | none =>
    rw [updateAll_none hkeyed h hv] at hget
    cases hget
  | some v =>
    refine ⟨v, rfl, ?_⟩
    cases hb : v.bonded with
    | false =>
      obtain ⟨hsame, hrates⟩ := updateAll_other hkeyed h hv hb
      rw [hsame] at hget
      exact .inl ⟨rfl, (Option.some.inj hget).symm, hrates⟩
    | true =>
      obtain ⟨m, hupdated⟩ := updateAll_bonded hkeyed h hv hb
      have hv' := hget
      rw [hupdated.validator] at hv'
      exact .inr ⟨rfl, m, hupdated, (Option.some.inj hv').symm⟩

theorem updateAll_sound {st st' : Store} (hsetting : setting.Valid) (hsound : st.Sound bech32)
    (h : updateAllBondedValidatorRates bech32 setting st = .ok st') : st'.Sound bech32 := by
  intro a v' hget
  obtain ⟨v, hv, hfrom⟩ := updateAll_from hsound.keyed h hget
  have hold := hsound a v hv
  rcases hfrom with ⟨_, rfl, hrates⟩ | ⟨_, m, hupdated, rfl⟩
  · refine ⟨hold.keyed, ?_, hold.maxRate⟩
    rw [getTargetCommissionRate, hrates]
    exact hold.target
  · have hbounds := calculateDynCommission_bounds hsetting hupdated.minRate
    have htarget : (getTargetCommissionRate st.rates v.operatorAddress).i ≤ v.commission.maxRate.i := hold.target
    have hmax : v.commission.maxRate.i ≤ 10 ^ 18 := hold.maxRate
    refine ⟨hold.keyed, ?_, ?_⟩
    · rw [LegacyDec.le_def, updated_maxRate]
      show (getTargetCommissionRate st'.rates v.operatorAddress).i ≤ _
      rw [hupdated.getTarget]
      exact le_max_of_le_left htarget
    · rw [LegacyDec.le_def, updated_maxRate]
      exact max_le hmax hbounds.2

/-! ## What a transaction keeps -/

/-- What the post decorator does for an action. -/
def TxAction.process (rates : SortedMap String ValidatorCommissionRate) (act : TxAction) :
    SortedMap String ValidatorCommissionRate :=
  match act.msg? with
  | some m => processMsg rates m
  | none => rates

theorem postHandle_acts (rates : SortedMap String ValidatorCommissionRate) (acts : List TxAction) :
    postHandle false false rates (acts.filterMap TxAction.msg?) = acts.foldl TxAction.process rates := by
  show (acts.filterMap TxAction.msg?).foldl processMsg rates = _
  rw [List.foldl_filterMap]
  refine congrArg (fun f => acts.foldl f rates) ?_
  funext rates act
  cases act <;> rfl

/-- The validator at an address is changed, and its text gets a target; the others keep
theirs, since a text stands for one address. -/
theorem sound_set {st : Store} (hsound : st.Sound bech32) {a : Bytes} {v : Validator} {text : String}
    {rate : LegacyDec} (haddr : bech32.accAddressFromBech32 text = .ok a)
    (hv : v.Sound bech32 (setTargetCommissionRate st.rates text rate) a) :
    Store.Sound bech32 ⟨setTargetCommissionRate st.rates text rate, st.validators.set a v⟩ := by
  intro b w hget
  rw [SortedMap.get_set] at hget
  split_ifs at hget with hb
  · subst hb
    exact Option.some.inj hget ▸ hv
  · have hold := hsound b w hget
    refine ⟨hold.keyed, ?_, hold.maxRate⟩
    have hne : w.operatorAddress ≠ text := by
      intro heq
      have hkeyed := hold.keyed
      rw [heq, haddr] at hkeyed
      exact hb (Except.ok.inj hkeyed).symm
    rw [getTarget_setTarget, if_neg hne]
    exact hold.target

theorem restakes_sound {st : Store} (hsound : st.Sound bech32) {after : SortedMap Bytes Validator}
    (h : Restakes st.validators after) : Store.Sound bech32 ⟨st.rates, after⟩ := by
  intro a v' hget
  obtain ⟨v, hv, htext, hcommission⟩ := h a v' hget
  have hold := hsound a v hv
  refine ⟨?_, ?_, ?_⟩
  · rw [htext]
    exact hold.keyed
  · rw [htext, hcommission]
    exact hold.target
  · rw [hcommission]
    exact hold.maxRate

theorem TxAction.sound {st : Store} (hsound : st.Sound bech32) {after : SortedMap Bytes Validator}
    {act : TxAction} (h : act.Executes bech32 setting st.validators after) :
    Store.Sound bech32 ⟨act.process st.rates, after⟩ := by
  cases act with
  | stake => exact restakes_sound hsound h
  | msg m =>
    cases m with
    | createValidator text commission =>
      obtain ⟨a, tokens, hcreates⟩ := h
      rw [hcreates.after_eq]
      refine sound_set hsound hcreates.address ⟨hcreates.address, ?_, hcreates.maxRate⟩
      rw [getTarget_setTarget, if_pos rfl]
      exact hcreates.rate.2
    | editValidator text rate =>
      cases rate with
      | none =>
        rw [show after = st.validators from h]
        exact hsound
      | some rate =>
        obtain ⟨a, v, blockTime, hedits⟩ := h
        have hold := hsound a v hedits.validator
        rw [hedits.after_eq]
        refine sound_set hsound hedits.address ⟨hold.keyed, ?_, hold.maxRate⟩
        -- the target is written under the text of the message, or under another spelling
        rw [getTarget_setTarget]
        split_ifs
        · exact hedits.accepted.2
        · exact hold.target
    | exec readable msgs => exact h.elim
    | recvPacket packet executed msgs => exact h.elim
    | other => exact h.elim

theorem ExecutesAll.sound {validators after : SortedMap Bytes Validator} {acts : List TxAction}
    (h : ExecutesAll bech32 setting validators acts after) {rates : SortedMap String ValidatorCommissionRate}
    (hsound : Store.Sound bech32 ⟨rates, validators⟩) :
    Store.Sound bech32 ⟨acts.foldl TxAction.process rates, after⟩ := by
  induction h generalizing rates with
  | nil validators => exact hsound
  | cons hact _ ih => exact ih (TxAction.sound hsound hact)

/-! ## What every step keeps -/

/-- No step of a run leads to a state that is not sound. -/
theorem Step.sound (st : Step bech32 floatText) (h : st.before.Sound bech32) : st.after.Sound bech32 := by
  obtain ⟨before, action, after, occurs⟩ := st
  dsimp only at h ⊢
  cases action with
  | tx acts =>
    obtain ⟨_, validators, hexecutes, rfl⟩ := occurs
    refine ⟨h.setting, ?_⟩
    rw [postHandle_acts]
    exact hexecutes.sound h.store
  | stake lastTotalPower =>
    obtain ⟨validators, hrestakes, rfl⟩ := occurs
    exact ⟨⟨h.setting.params, h.setting.minCommissionRate⟩, restakes_sound h.store hrestakes⟩
  | param change =>
    obtain ⟨hchange, rfl⟩ := occurs
    exact ⟨⟨Change.apply_valid h.setting.params hchange, h.setting.minCommissionRate⟩, h.store⟩
  | minCommissionRate rate =>
    obtain ⟨hrate, rfl⟩ := occurs
    refine ⟨⟨h.setting.params, ?_⟩, h.store⟩
    intro m hm
    obtain rfl := Option.some.inj hm
    exact hrate
  | update =>
    obtain ⟨store, hupdate, rfl⟩ := occurs
    exact ⟨h.setting, updateAll_sound h.setting h.store hupdate⟩

theorem run_sound {s s' : State} {steps : List (Step bech32 floatText)}
    (htrace : Trace Step.before Step.after s steps s') (h : s.Sound bech32) : s'.Sound bech32 :=
  htrace.invariant (fun st _ => st.sound) h

/-! ## Genesis -/

/-- The targets at genesis: the last entry with the text has written it. -/
theorem genesis_target (l : List (Bytes × Validator)) (rates : SortedMap String ValidatorCommissionRate)
    (text : String) (hin : ∃ e ∈ l, e.2.operatorAddress = text) :
    ∃ e ∈ l, e.2.operatorAddress = text ∧
      getTargetCommissionRate (l.foldl
        (fun rates e => setTargetCommissionRate rates e.2.operatorAddress e.2.commission.rate) rates) text =
        e.2.commission.rate := by
  induction l using List.reverseRecOn with
  | nil =>
    obtain ⟨e, he, _⟩ := hin
    cases he
  | append_singleton l e ih =>
    rw [List.foldl_append, List.foldl_cons, List.foldl_nil, getTarget_setTarget]
    by_cases htext : text = e.2.operatorAddress
    · refine ⟨e, List.mem_append_right l List.mem_cons_self, htext.symm, ?_⟩
      rw [if_pos htext]
    · rw [if_neg htext]
      obtain ⟨x, hx, hxtext⟩ := hin
      have hxl : x ∈ l := by
        rcases List.mem_append.mp hx with hx | hx
        · exact hx
        · rw [List.mem_singleton.mp hx] at hxtext
          exact absurd hxtext.symm htext
      obtain ⟨y, hy, hytext, htarget⟩ := ih ⟨x, hxl, hxtext⟩
      exact ⟨y, List.mem_append_left [e] hy, hytext, htarget⟩

/-- The entry with the text of a validator is the validator's own. -/
theorem genesis_target_eq {validators : SortedMap Bytes Validator}
    (hkeyed : ∀ a v, validators.get a = some v → bech32.accAddressFromBech32 v.operatorAddress = .ok a)
    {a : Bytes} {v : Validator} (hget : validators.get a = some v) :
    getTargetCommissionRate (validators.entries.foldl
      (fun rates e => setTargetCommissionRate rates e.2.operatorAddress e.2.commission.rate) SortedMap.empty)
      v.operatorAddress = v.commission.rate := by
  obtain ⟨e, he, htext, htarget⟩ := genesis_target validators.entries SortedMap.empty v.operatorAddress
    ⟨(a, v), SortedMap.get_eq_some.mp hget, rfl⟩
  have heget := SortedMap.get_eq_some.mpr he
  have haddr := hkeyed e.1 e.2 heget
  rw [htext, hkeyed a v hget] at haddr
  rw [← Except.ok.inj haddr, hget] at heget
  rw [htarget, ← Option.some.inj heget]

theorem Genesis.sound {s : State} (h : Genesis bech32 s) : s.Sound bech32 := by
  obtain ⟨hsetting, validators, hvalidators, hinit⟩ := h
  refine ⟨hsetting, updateAll_sound hsetting ?_ hinit⟩
  intro a v hget
  obtain ⟨hkeyed, hrate, hmax⟩ := hvalidators a v hget
  refine ⟨hkeyed, ?_, hmax⟩
  show getTargetCommissionRate (validators.entries.foldl _ SortedMap.empty) v.operatorAddress ≤ _
  rw [genesis_target_eq (fun a v hget => (hvalidators a v hget).1) hget]
  exact hrate

/-! ## The commissions -/

/-- What an update makes of a validator's commission. -/
structure CommissionHolds (rates : SortedMap String ValidatorCommissionRate) (v : Validator) : Prop where
  min_nonneg : 0 ≤ (getDynCommissionRate rates v.operatorAddress).i
  min_le_rate : getDynCommissionRate rates v.operatorAddress ≤ v.commission.rate
  rate_le_max : v.commission.rate ≤ v.commission.maxRate
  max_le_one : v.commission.maxRate ≤ .one
  rate_eq : v.commission.rate.i =
    max (getTargetCommissionRate rates v.operatorAddress).i (getDynCommissionRate rates v.operatorAddress).i

theorem updateAll_commission {st st' : Store} (hsetting : setting.Valid) (hsound : st.Sound bech32)
    (h : updateAllBondedValidatorRates bech32 setting st = .ok st') {a : Bytes} {v' : Validator}
    (hget : st'.validators.get a = some v') (hbonded : v'.bonded = true) : CommissionHolds st'.rates v' := by
  have hmax := (updateAll_sound hsetting hsound h a v' hget).maxRate
  obtain ⟨v, hv, hfrom⟩ := updateAll_from hsound.keyed h hget
  rcases hfrom with ⟨hnot, rfl, _⟩ | ⟨_, m, hupdated, rfl⟩
  · rw [hnot] at hbonded
    cases hbonded
  have htarget : (getTargetCommissionRate st.rates v.operatorAddress).i ≤ v.commission.maxRate.i :=
    (hsound a v hv).target
  have hdyn : getDynCommissionRate st'.rates
      (v.updated m (getTargetCommissionRate st.rates v.operatorAddress)).operatorAddress = m := hupdated.getDyn
  refine ⟨?_, ?_, ?_, hmax, ?_⟩
  · rw [hdyn]
    exact (calculateDynCommission_bounds hsetting hupdated.minRate).1
  · rw [hdyn, LegacyDec.le_def, updated_rate]
    exact le_max_right _ _
  · rw [LegacyDec.le_def, updated_rate, updated_maxRate]
    exact max_le_max htarget (Int.le_refl m.i)
  · rw [hdyn, updated_rate]
    show _ = max (getTargetCommissionRate st'.rates v.operatorAddress).i m.i
    rw [hupdated.getTarget]

/-! ## The maximal commission only grows -/

/-- The validator at the address was there before, with a maximal commission that was not
larger. -/
def Grows (validators after : SortedMap Bytes Validator) (a : Bytes) : Prop :=
  ∀ v', after.get a = some v' → ∃ v, validators.get a = some v ∧ v.commission.maxRate ≤ v'.commission.maxRate

theorem Grows.refl (validators : SortedMap Bytes Validator) (a : Bytes) : Grows validators validators a :=
  fun v hget => ⟨v, hget, Int.le_refl _⟩

theorem Grows.trans {validators mid after : SortedMap Bytes Validator} {a : Bytes}
    (h₁ : Grows validators mid a) (h₂ : Grows mid after a) : Grows validators after a := by
  intro v'' hget
  obtain ⟨v', hv', hle'⟩ := h₂ v'' hget
  obtain ⟨v, hv, hle⟩ := h₁ v' hv'
  exact ⟨v, hv, Int.le_trans hle hle'⟩

theorem restakes_grows {validators after : SortedMap Bytes Validator} (h : Restakes validators after)
    (a : Bytes) : Grows validators after a := by
  intro v' hget
  obtain ⟨v, hv, _, hcommission⟩ := h a v' hget
  refine ⟨v, hv, ?_⟩
  rw [hcommission]
  exact Int.le_refl _

theorem TxAction.grows {validators after : SortedMap Bytes Validator} {act : TxAction} {a : Bytes}
    (h : act.Executes bech32 setting validators after)
    (hnot : ∀ text commission, act = .msg (.createValidator text commission) →
      bech32.accAddressFromBech32 text ≠ .ok a) : Grows validators after a := by
  cases act with
  | stake => exact restakes_grows h a
  | msg m =>
    cases m with
    | createValidator text commission =>
      obtain ⟨b, tokens, hcreates⟩ := h
      have hne : a ≠ b := fun heq => hnot text commission rfl (heq ▸ hcreates.address)
      intro v' hget
      rw [hcreates.after_eq, SortedMap.get_set, if_neg hne] at hget
      exact Grows.refl validators a v' hget
    | editValidator text rate =>
      cases rate with
      | none =>
        rw [show after = validators from h]
        exact Grows.refl validators a
      | some rate =>
        obtain ⟨b, v, blockTime, hedits⟩ := h
        intro v' hget
        rw [hedits.after_eq, SortedMap.get_set] at hget
        split_ifs at hget with hb
        · refine ⟨v, hb ▸ hedits.validator, ?_⟩
          rw [← Option.some.inj hget]
          exact Int.le_refl _
        · exact Grows.refl validators a v' hget
    | exec readable msgs => exact h.elim
    | recvPacket packet executed msgs => exact h.elim
    | other => exact h.elim

theorem ExecutesAll.grows {validators after : SortedMap Bytes Validator} {acts : List TxAction} {a : Bytes}
    (h : ExecutesAll bech32 setting validators acts after)
    (hnot : ∀ text commission, .msg (.createValidator text commission) ∈ acts →
      bech32.accAddressFromBech32 text ≠ .ok a) : Grows validators after a := by
  induction h with
  | nil validators => exact Grows.refl validators a
  | cons hact _ ih =>
    have hfirst := TxAction.grows hact fun text commission hact =>
      hnot text commission (hact ▸ List.mem_cons_self)
    exact hfirst.trans (ih fun text commission hin => hnot text commission (List.mem_cons_of_mem _ hin))

theorem Step.grows (st : Step bech32 floatText) (h : st.before.Sound bech32) {a : Bytes}
    (hnot : ¬ st.CreatesAt bech32 floatText a) :
    Grows st.before.store.validators st.after.store.validators a := by
  obtain ⟨before, action, after, occurs⟩ := st
  dsimp only at h ⊢
  cases action with
  | tx acts =>
    obtain ⟨_, validators, hexecutes, rfl⟩ := occurs
    exact hexecutes.grows fun text commission hin haddr => hnot ⟨acts, text, commission, rfl, hin, haddr⟩
  | stake lastTotalPower =>
    obtain ⟨validators, hrestakes, rfl⟩ := occurs
    exact restakes_grows hrestakes a
  | param change =>
    obtain ⟨_, rfl⟩ := occurs
    exact Grows.refl _ a
  | minCommissionRate rate =>
    obtain ⟨_, rfl⟩ := occurs
    exact Grows.refl _ a
  | update =>
    obtain ⟨store, hupdate, rfl⟩ := occurs
    intro v' hget
    obtain ⟨v, hv, hfrom⟩ := updateAll_from h.store.keyed hupdate hget
    refine ⟨v, hv, ?_⟩
    rcases hfrom with ⟨_, rfl, _⟩ | ⟨_, m, _, rfl⟩
    · exact Int.le_refl _
    · rw [LegacyDec.le_def, updated_maxRate]
      exact le_max_left _ _

theorem run_grows {s s' : State} {steps : List (Step bech32 floatText)}
    (htrace : Trace Step.before Step.after s steps s') (h : s.Sound bech32) {a : Bytes}
    (hnot : ∀ st ∈ steps, ¬ st.CreatesAt bech32 floatText a) :
    Grows s.store.validators s'.store.validators a := by
  refine (htrace.invariant (I := fun x => x.Sound bech32 ∧ Grows s.store.validators x.store.validators a)
    ?_ ⟨h, Grows.refl _ a⟩).2
  intro st hst hbefore
  exact ⟨st.sound hbefore.1, hbefore.2.trans (st.grows hbefore.1 (hnot st hst))⟩

/-- In every run from genesis, each update leaves the bonded validators with commissions that
are the larger of target and minimum, and within their bounds; and no validator's maximal
commission decreases while the validator exists. -/
theorem commission_invariant {s₀ s s' : State} (hgenesis : Genesis bech32 s₀)
    {past steps : List (Step bech32 floatText)} (hpast : Trace Step.before Step.after s₀ past s)
    (hsteps : Trace Step.before Step.after s steps s') :
    (∀ st ∈ steps, st.action = .update → ∀ a v, st.after.store.validators.get a = some v →
      v.bonded = true → CommissionHolds st.after.store.rates v) ∧
    (∀ a v v', s.store.validators.get a = some v → s'.store.validators.get a = some v' →
      (∀ st ∈ steps, ¬ st.CreatesAt bech32 floatText a) → v.commission.maxRate ≤ v'.commission.maxRate) := by
  have hsound := run_sound hpast hgenesis.sound
  refine ⟨?_, ?_⟩
  · intro st hst hupdate a v hget hbonded
    have hbefore := (hsteps.always (fun st _ => st.sound) hsound st hst).1
    have hoccurs := st.occurs
    rw [hupdate] at hoccurs
    obtain ⟨store, hstore, hafter⟩ := hoccurs
    rw [hafter] at hget ⊢
    exact updateAll_commission hbefore.setting hbefore.store hstore hget hbonded
  · intro a v v' hv hv' hnot
    obtain ⟨w, hw, hle⟩ := run_grows hsteps hsound hnot v' hv'
    rw [hv] at hw
    rw [Option.some.inj hw]
    exact hle

end Runs

namespace Sample

open Sdk.Sample (alice aliceOperator valBech32)

def twoPercent : LegacyDec := ⟨2 * 10 ^ 16⟩

def empty : State := ⟨setting, ⟨SortedMap.empty, SortedMap.empty⟩⟩

/-- Alice's validator has been created, with two percent. -/
def created : State :=
  ⟨setting, ⟨setTargetCommissionRate SortedMap.empty aliceOperator twoPercent,
    SortedMap.empty.set alice { aliceValidator twoPercent with bonded := false }⟩⟩

def bonded : State :=
  ⟨setting, ⟨created.store.rates, SortedMap.empty.set alice (aliceValidator twoPercent)⟩⟩

/-- The power of two percent asks for a commission of 3.3 percent. -/
def updated : State :=
  ⟨setting, ⟨SortedMap.empty.set aliceOperator ⟨aliceOperator, ⟨33 * 10 ^ 15⟩, twoPercent⟩,
    SortedMap.empty.set alice (aliceValidator ⟨33 * 10 ^ 15⟩)⟩⟩

theorem setting_valid : setting.Valid := by
  refine ⟨Params.validate_eq_ok.mp (by decide +kernel), ?_⟩
  intro m hm
  rw [← Option.some.inj hm]
  decide +kernel

theorem empty_genesis : Genesis valBech32 empty :=
  ⟨setting_valid, SortedMap.empty, fun _ _ h => (nomatch h), rfl⟩

def createStep : Step valBech32 LegacyDec.text where
  before := empty
  action := .tx [.msg (.createValidator aliceOperator (aliceValidator twoPercent).commission)]
  after := created
  occurs := by
    refine ⟨by decide +kernel, created.store.validators, .cons ⟨alice, 2000000, ?_⟩ (.nil _), rfl⟩
    exact ⟨rfl, rfl, by decide +kernel, by decide +kernel,
      fun m hm => Option.some.inj hm ▸ by decide +kernel, rfl⟩

def bondStep : Step valBech32 LegacyDec.text where
  before := created
  action := .stake (some 100)
  after := bonded
  occurs := by
    refine ⟨bonded.store.validators, ?_, rfl⟩
    intro a v' hget
    rw [bonded, SortedMap.get_set] at hget
    split_ifs at hget with ha
    · refine ⟨{ aliceValidator twoPercent with bonded := false }, ?_, ?_⟩
      · rw [created, SortedMap.get_set, if_pos ha]
      · rw [← Option.some.inj hget]
        exact ⟨rfl, rfl⟩
    · cases hget

def updateStep : Step valBech32 LegacyDec.text where
  before := bonded
  action := .update
  after := updated
  occurs := ⟨updated.store, Outcome.value_eq_some.mp (by decide +kernel), rfl⟩

/-- A validator is created and bonded, and the next update raises its commission. -/
theorem created_then_updated :
    CommissionHolds updated.store.rates (aliceValidator ⟨33 * 10 ^ 15⟩) ∧
      (aliceValidator twoPercent).commission.maxRate ≤ (aliceValidator ⟨33 * 10 ^ 15⟩).commission.maxRate := by
  have hpast : Trace Step.before Step.after empty [createStep, bondStep] bonded :=
    .cons createStep (.cons bondStep (.nil bonded))
  have hsteps : Trace Step.before Step.after bonded [updateStep] updated := .cons updateStep (.nil updated)
  obtain ⟨hholds, hgrows⟩ := commission_invariant empty_genesis hpast hsteps
  refine ⟨hholds updateStep List.mem_cons_self rfl alice _ (by decide +kernel) rfl, ?_⟩
  refine hgrows alice _ _ (by decide +kernel) (by decide +kernel) ?_
  intro st hst hcreates
  obtain ⟨acts, text, commission, haction, _⟩ := hcreates
  rw [List.mem_singleton.mp hst] at haction
  cases haction

end Sample

end Dyncomm
