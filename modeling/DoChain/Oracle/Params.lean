import DoChain.Oracle.Vote
import DoChain.Sdk.DecCoin

/- The two checks of the oracle's parameters (`x/oracle/types/params.go`).

   Correspondence (Go ↔ Lean):
     `DefaultParams`                   ↔ `defaultParams`
     `validateVotePeriod` and the rest ↔ `validateVotePeriod` and the rest
     `Params.ParamSetPairs`            ↔ `Params.paramSetPairs`
     `Params.Validate`                 ↔ `Params.validate`

   A parameter is changed on its own, through the check of its key; `Params.validate`
   looks at all of them together. `Change` is one key with a value for it. The check that
   a value has the type of its key is left out.

   The checks of the keys do not compare one parameter with another, and have other bounds
   for the vote threshold. `Params.ChecksAgree` says where both come to the same result,
   and `Change.Keeps` which changes keep parameters valid. -/

namespace Oracle

open Sdk

def defaultParams : Params where
  votePeriod := 60 / 2
  voteThreshold := ⟨50 * 10 ^ 16⟩
  rewardBand := ⟨2 * 10 ^ 16⟩
  -- a year, with a block a second
  rewardDistributionWindow := 60 * 60 * 24 * 365
  whitelist := [⟨"udo", .zero⟩, ⟨"uusd", ⟨25 * 10 ^ 14⟩⟩]
  slashFraction := ⟨10 ^ 14⟩
  -- a week
  slashWindow := 60 * 60 * 24 * 7
  minValidPerWindow := ⟨5 * 10 ^ 16⟩

/-! ## The checks of the keys -/

/-- A number of blocks must not be zero. -/
def validatePositive (text : String) (v : Nat) : Outcome String Unit :=
  .failIf (v = 0) (text ++ toString v)

/-- A fraction must be from 0 to 1. -/
def validateFraction (negative large : String) (v : LegacyDec) : Outcome String Unit := do
  .failIf v.IsNegative (negative ++ v.text)
  .failIf (LegacyDec.one < v) (large ++ v.text)

def validateVotePeriod : Nat → Outcome String Unit := validatePositive "vote period must be positive: "

def validateVoteThreshold (v : LegacyDec) : Outcome String Unit := do
  .failIf (v < ⟨33 * 10 ^ 16⟩) ("vote threshold must be bigger than 33%: " ++ v.text)
  .failIf (LegacyDec.one < v) ("vote threshold too large: " ++ v.text)

def validateRewardBand : LegacyDec → Outcome String Unit :=
  validateFraction "reward band must be positive: " "reward band is too large: "

def validateRewardDistributionWindow : Nat → Outcome String Unit :=
  validatePositive "reward distribution window must be positive: "

/-- The same loop, with the same texts, as in `Params.validate`. -/
def validateWhitelist : List Denom → Outcome String Unit := Params.validateWhitelist

def validateSlashFraction : LegacyDec → Outcome String Unit :=
  validateFraction "slash fraction must be positive: " "slash fraction is too large: "

def validateSlashWindow : Nat → Outcome String Unit := validatePositive "slash window must be positive: "

def validateMinValidPerWindow : LegacyDec → Outcome String Unit :=
  validateFraction "min valid per window must be positive: " "min valid per window is too large: "

/-! ## Changes of one parameter -/

/-- A key of the parameters, and a value for it. -/
inductive Change where
  | votePeriod (v : Nat)
  | voteThreshold (v : LegacyDec)
  | rewardBand (v : LegacyDec)
  | rewardDistributionWindow (v : Nat)
  | whitelist (v : List Denom)
  | slashFraction (v : LegacyDec)
  | slashWindow (v : Nat)
  | minValidPerWindow (v : LegacyDec)

/-- The check of the key. -/
def Change.validate : Change → Outcome String Unit
  | votePeriod v => validateVotePeriod v
  | voteThreshold v => validateVoteThreshold v
  | rewardBand v => validateRewardBand v
  | rewardDistributionWindow v => validateRewardDistributionWindow v
  | whitelist v => validateWhitelist v
  | slashFraction v => validateSlashFraction v
  | slashWindow v => validateSlashWindow v
  | minValidPerWindow v => validateMinValidPerWindow v

def Change.apply (p : Params) : Change → Params
  | votePeriod v => { p with votePeriod := v }
  | voteThreshold v => { p with voteThreshold := v }
  | rewardBand v => { p with rewardBand := v }
  | rewardDistributionWindow v => { p with rewardDistributionWindow := v }
  | whitelist v => { p with whitelist := v }
  | slashFraction v => { p with slashFraction := v }
  | slashWindow v => { p with slashWindow := v }
  | minValidPerWindow v => { p with minValidPerWindow := v }

def Params.paramSetPairs (p : Params) : List Change :=
  [.votePeriod p.votePeriod, .voteThreshold p.voteThreshold, .rewardBand p.rewardBand,
    .rewardDistributionWindow p.rewardDistributionWindow, .whitelist p.whitelist,
    .slashFraction p.slashFraction, .slashWindow p.slashWindow, .minValidPerWindow p.minValidPerWindow]

/-! ## What the checks ask for -/

/-- A fraction from 0 to 1. -/
def IsFraction (v : LegacyDec) : Prop := 0 ≤ v.i ∧ v ≤ .one

theorem validateFraction_eq_ok {negative large : String} {v : LegacyDec} :
    validateFraction negative large v = .ok () ↔ IsFraction v := by
  simp only [validateFraction, Outcome.check_bind_eq_ok, Outcome.failIf_eq_ok]
  exact and_congr Int.not_lt Int.not_lt

theorem validatePositive_eq_ok {text : String} {v : Nat} : validatePositive text v = .ok () ↔ v ≠ 0 := by
  rw [validatePositive, Outcome.failIf_eq_ok]

theorem validateVoteThreshold_eq_ok {v : LegacyDec} :
    validateVoteThreshold v = .ok () ↔ 33 * 10 ^ 16 ≤ v.i ∧ v ≤ .one := by
  simp only [validateVoteThreshold, Outcome.check_bind_eq_ok, Outcome.failIf_eq_ok]
  exact and_congr Int.not_lt Int.not_lt

/-- What both checks ask for. -/
structure Params.Shared (p : Params) : Prop where
  votePeriod : p.votePeriod ≠ 0
  rewardBand : IsFraction p.rewardBand
  slashFraction : IsFraction p.slashFraction
  minValidPerWindow : IsFraction p.minValidPerWindow
  whitelist : Params.validateWhitelist p.whitelist = .ok ()

/-- All keys accept their parameters. -/
theorem Params.paramSetPairs_accepted (p : Params) :
    (∀ c ∈ p.paramSetPairs, c.validate = .ok ()) ↔
      p.Shared ∧ (33 * 10 ^ 16 ≤ p.voteThreshold.i ∧ p.voteThreshold ≤ .one) ∧
        p.rewardDistributionWindow ≠ 0 ∧ p.slashWindow ≠ 0 := by
  simp only [paramSetPairs, List.forall_mem_cons, Change.validate, validateVotePeriod, validateRewardBand,
    validateRewardDistributionWindow, validateSlashFraction, validateSlashWindow,
    validateMinValidPerWindow, validateFraction_eq_ok, validatePositive_eq_ok, validateVoteThreshold_eq_ok]
  refine ⟨?_, ?_⟩
  · intro h
    obtain ⟨hperiod, hthreshold, hband, hwindow, hlist, hfraction, hslash, hmin, _⟩ := h
    exact ⟨⟨hperiod, hband, hfraction, hmin, hlist⟩, hthreshold, hwindow, hslash⟩
  · intro h
    obtain ⟨hshared, hthreshold, hwindow, hslash⟩ := h
    exact ⟨hshared.votePeriod, hthreshold, hshared.rewardBand, hwindow, hshared.whitelist,
      hshared.slashFraction, hslash, hshared.minValidPerWindow, by simp⟩

/-- The check of all parameters together. -/
theorem Params.validate_eq_ok (p : Params) :
    p.validate = .ok () ↔ p.Shared ∧ 33 * 10 ^ 16 < p.voteThreshold.i ∧
      p.votePeriod ≤ p.rewardDistributionWindow ∧ p.votePeriod ≤ p.slashWindow := by
  have hfraction : ∀ v : LegacyDec, ¬ (LegacyDec.one < v ∨ v.IsNegative) ↔ IsFraction v := by
    intro v
    rw [not_or, and_comm]
    exact and_congr Int.not_lt Int.not_lt
  have hthreshold : ¬ p.voteThreshold ≤ ⟨33 * 10 ^ 16⟩ ↔ 33 * 10 ^ 16 < p.voteThreshold.i := Int.not_le
  simp only [validate, Outcome.check_bind_eq_ok, Outcome.failIf_eq_ok, hfraction, hthreshold, not_lt]
  refine ⟨?_, ?_⟩
  · intro h
    obtain ⟨hperiod, hthr, hband, hwindow, hslashed, hslash, hmin, hlist⟩ := h
    exact ⟨⟨hperiod, hband, hslashed, hmin, hlist⟩, hthr, hwindow, hslash⟩
  · intro h
    obtain ⟨hshared, hthr, hwindow, hslash⟩ := h
    exact ⟨hshared.votePeriod, hthr, hshared.rewardBand, hwindow, hshared.slashFraction, hslash,
      hshared.minValidPerWindow, hshared.whitelist⟩

/-! ## Where they agree -/

/-- Parameters on which both checks come to the same result. -/
def Params.ChecksAgree (p : Params) : Prop :=
  ¬ p.Shared ∨ p.voteThreshold.i < 33 * 10 ^ 16 ∨
    (p.voteThreshold.i = 33 * 10 ^ 16 ∧ (p.rewardDistributionWindow = 0 ∨ p.slashWindow = 0)) ∨
    (33 * 10 ^ 16 < p.voteThreshold.i ∧ p.voteThreshold ≤ .one ∧
      (p.rewardDistributionWindow = 0 ∨ p.slashWindow = 0 ∨
        p.votePeriod ≤ p.rewardDistributionWindow ∧ p.votePeriod ≤ p.slashWindow)) ∨
    (LegacyDec.one < p.voteThreshold ∧
      (p.rewardDistributionWindow < p.votePeriod ∨ p.slashWindow < p.votePeriod))

theorem Params.checksAgree_iff (p : Params) :
    ((∀ c ∈ p.paramSetPairs, c.validate = .ok ()) ↔ p.validate = .ok ()) ↔ p.ChecksAgree := by
  rw [paramSetPairs_accepted, validate_eq_ok, ChecksAgree]
  by_cases hshared : p.Shared
  · have hperiod := hshared.votePeriod
    have hone : LegacyDec.one.i = 10 ^ 18 := rfl
    simp only [hshared, true_and, not_true_eq_false, false_or, LegacyDec.le_def, LegacyDec.lt_def, hone]
    omega
  · simp [hshared]

/-- A change that keeps valid parameters valid. -/
def Change.Keeps (p : Params) : Change → Prop
  | votePeriod v => v ≤ p.rewardDistributionWindow ∧ v ≤ p.slashWindow
  | voteThreshold v => v.i ≠ 33 * 10 ^ 16
  | rewardDistributionWindow v => p.votePeriod ≤ v
  | slashWindow v => p.votePeriod ≤ v
  | _ => True

instance (p : Params) (c : Change) : Decidable (c.Keeps p) := by
  cases c <;> unfold Change.Keeps <;> infer_instance

theorem Change.keeps_iff {p : Params} (hp : p.validate = .ok ()) {c : Change} (hc : c.validate = .ok ()) :
    (c.apply p).validate = .ok () ↔ c.Keeps p := by
  obtain ⟨hshared, hthreshold, hwindow, hslash⟩ := p.validate_eq_ok.mp hp
  rw [Params.validate_eq_ok]
  cases c with
  | votePeriod v =>
    have hpos : v ≠ 0 := validatePositive_eq_ok.mp hc
    refine ⟨fun h => ⟨h.2.2.1, h.2.2.2⟩, fun h => ⟨?_, hthreshold, h.1, h.2⟩⟩
    exact { hshared with votePeriod := hpos }
  | voteThreshold v =>
    obtain ⟨hlow, _⟩ := validateVoteThreshold_eq_ok.mp hc
    refine ⟨fun h => h.2.1.ne', fun h => ⟨⟨hshared.1, hshared.2, hshared.3, hshared.4, hshared.5⟩, ?_, hwindow, hslash⟩⟩
    exact lt_of_le_of_ne hlow (Ne.symm h)
  | rewardBand v =>
    have hband : IsFraction v := validateFraction_eq_ok.mp hc
    exact iff_of_true ⟨{ hshared with rewardBand := hband }, hthreshold, hwindow, hslash⟩ trivial
  | rewardDistributionWindow v =>
    refine ⟨fun h => h.2.2.1, fun h => ⟨⟨hshared.1, hshared.2, hshared.3, hshared.4, hshared.5⟩, hthreshold, h, hslash⟩⟩
  | whitelist v =>
    have hlist : Params.validateWhitelist v = .ok () := hc
    exact iff_of_true ⟨{ hshared with whitelist := hlist }, hthreshold, hwindow, hslash⟩ trivial
  | slashFraction v =>
    have hfraction : IsFraction v := validateFraction_eq_ok.mp hc
    exact iff_of_true ⟨{ hshared with slashFraction := hfraction }, hthreshold, hwindow, hslash⟩ trivial
  | slashWindow v =>
    refine ⟨fun h => h.2.2.2, fun h => ⟨⟨hshared.1, hshared.2, hshared.3, hshared.4, hshared.5⟩, hthreshold, hwindow, h⟩⟩
  | minValidPerWindow v =>
    have hmin : IsFraction v := validateFraction_eq_ok.mp hc
    exact iff_of_true ⟨{ hshared with minValidPerWindow := hmin }, hthreshold, hwindow, hslash⟩ trivial

/-- Every change keeps the parameters it is made to. -/
def AllKeep : Params → List Change → Prop
  | _, [] => True
  | p, c :: rest => c.Keeps p ∧ AllKeep (c.apply p) rest

/-- Changes that the keys accept, one after another, reach only valid parameters if each
keeps the parameters it is made to. -/
theorem allKeep_iff {p : Params} (hp : p.validate = .ok ()) {changes : List Change}
    (hchanges : ∀ c ∈ changes, c.validate = .ok ()) :
    (∀ q ∈ changes.scanl Change.apply p, q.validate = .ok ()) ↔ AllKeep p changes := by
  induction changes generalizing p with
  | nil => simp [AllKeep, hp]
  | cons c rest ih =>
    obtain ⟨hc, hrest⟩ := List.forall_mem_cons.mp hchanges
    rw [List.scanl_cons, List.forall_mem_cons, AllKeep, ← Change.keeps_iff hp hc]
    refine ⟨?_, ?_⟩
    · intro h
      have hnext : (c.apply p).validate = .ok () := h.2 _ (by cases rest <;> simp)
      exact ⟨hnext, (ih hnext hrest).mp h.2⟩
    · intro h
      exact ⟨hp, (ih h.1 hrest).mpr h.2⟩

/-- The checks of the keys and the check of all parameters agree on these parameters, and
these changes never reach parameters that the latter refuses. -/
theorem param_checks_agree_iff (p : Params) (changes : List Change) :
    (((∀ c ∈ p.paramSetPairs, c.validate = .ok ()) ↔ p.validate = .ok ()) ↔ p.ChecksAgree) ∧
    (p.validate = .ok () → (∀ c ∈ changes, c.validate = .ok ()) →
      ((∀ q ∈ changes.scanl Change.apply p, q.validate = .ok ()) ↔ AllKeep p changes)) := by
  refine ⟨p.checksAgree_iff, ?_⟩
  intro hp hchanges
  exact allKeep_iff hp hchanges

namespace Sample

/-- Both checks accept the default parameters, and a longer vote period with a higher
threshold is reached through valid parameters only. -/
theorem longer_period_keeps :
    ((∀ c ∈ defaultParams.paramSetPairs, c.validate = .ok ()) ↔ defaultParams.validate = .ok ()) ∧
    ∀ q ∈ [Change.votePeriod 60, .voteThreshold .one].scanl Change.apply defaultParams,
      q.validate = .ok () := by
  obtain ⟨hagree, hkeep⟩ := param_checks_agree_iff defaultParams [.votePeriod 60, .voteThreshold .one]
  refine ⟨hagree.mpr ?_, (hkeep (by decide +kernel) (by decide +kernel)).mpr ?_⟩
  · exact .inr (.inr (.inr (.inl ⟨by decide, by decide, .inr (.inr ⟨by decide, by decide⟩)⟩)))
  · exact ⟨⟨by decide, by decide⟩, by decide, trivial⟩

/-- A vote period longer than the slash window, and a threshold of 33 percent, are each
accepted by every key and refused by the check of all parameters. -/
theorem keys_accept_invalid_params :
    defaultParams.validate = .ok () ∧
    ∀ c ∈ [Change.votePeriod (defaultParams.slashWindow + 1), .voteThreshold ⟨33 * 10 ^ 16⟩],
      c.validate = .ok () ∧ (∀ d ∈ (c.apply defaultParams).paramSetPairs, d.validate = .ok ()) ∧
        (c.apply defaultParams).validate ≠ .ok () := by
  decide +kernel

end Sample

end Oracle
