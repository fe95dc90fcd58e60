import DoChain.Market.Pool

/- Replenishing the pool, block after block (`ReplenishPools` of `x/market/keeper/keeper.go`).

   Each block takes the gap divided by the recovery period off the gap. The period is a
   `uint64` that the parameter check (`Params.Validate` of `x/market/types/params.go`) only
   asks to be positive, and it is converted to an `int64` for the division: from 2^63 on it is
   negative there, and the gap grows by the quotient instead. The quotient is truncated, so
   that nothing happens where the gap is smaller than the divisor.

   `replenish_contracts_iff` says for which states every run without swaps only ever shrinks
   the gap. -/

namespace Market

open Sdk

def Params.validate (p : Params) : Outcome String Unit := do
  .failIf p.basePool.IsNegative ("market base pool should be positive or zero, is " ++ p.basePool.text)
  .failIf (p.poolRecoveryPeriod = 0)
    ("pool recovery period should be positive, is " ++ toString p.poolRecoveryPeriod)
  .failIf (p.minStabilitySpread.IsNegative ∨ .one < p.minStabilitySpread)
    ("market minimum stability spread should be a value between [0,1], is " ++ p.minStabilitySpread.text)

theorem Params.validate_eq_ok {p : Params} : p.validate = .ok () ↔
    0 ≤ p.basePool.i ∧ 1 ≤ p.poolRecoveryPeriod ∧
      0 ≤ p.minStabilitySpread.i ∧ p.minStabilitySpread.i ≤ LegacyDec.precision := by
  simp only [Params.validate, Outcome.check_bind_eq_ok, Outcome.failIf_eq_ok, not_or]
  refine and_congr not_lt (and_congr ?_ (and_congr not_lt Int.not_lt))
  omega

/-! ## One block -/

/-- No larger, and of the same sign or zero. -/
structure Contracts (d d' : Int) : Prop where
  natAbs_le : d'.natAbs ≤ d.natAbs
  nonneg : 0 ≤ d → 0 ≤ d'
  nonpos : d ≤ 0 → d' ≤ 0

theorem Contracts.refl (d : Int) : Contracts d d := ⟨Nat.le_refl _, id, id⟩

theorem Contracts.trans {d₁ d₂ d₃ : Int} (h : Contracts d₁ d₂) (h' : Contracts d₂ d₃) : Contracts d₁ d₃ :=
  ⟨h'.natAbs_le.trans h.natAbs_le, fun hd => h'.nonneg (h.nonneg hd), fun hd => h'.nonpos (h.nonpos hd)⟩

/-- The period is an `int64`, or the gap is smaller than the negative number it becomes. -/
def Regresses (s : State) : Prop :=
  s.params.poolRecoveryPeriod < 2 ^ 63 ∨
    (getDoPoolDelta s).i.natAbs < 2 ^ 64 - s.params.poolRecoveryPeriod

theorem contracts_sub_tdiv {p : Int} (hp : 0 < p) (d : Int) : Contracts d (d - d.tdiv p) := by
  obtain ⟨hup, hdown⟩ := tdiv_between hp d
  refine ⟨?_, ?_, ?_⟩ <;> omega

/-- A negative divisor of a larger magnitude changes nothing, and any other one makes the gap
grow. -/
theorem contracts_neg_iff {m : Nat} (hm : 0 < m) (d : Int) :
    Contracts d (d - d.tdiv (-m)) ↔ d.natAbs < m := by
  have hquo : (d.tdiv m).natAbs = d.natAbs / m := Int.natAbs_tdiv d m
  obtain ⟨hup, hdown⟩ := tdiv_between (Int.natCast_pos.mpr hm) d
  rw [Int.tdiv_neg, sub_neg_eq_add]
  refine ⟨?_, ?_⟩
  · intro h
    have hle := h.natAbs_le
    have hzero : d.natAbs / m = 0 := by omega
    exact (Nat.div_eq_zero_iff_lt hm).mp hzero
  · intro h
    have hzero : d.tdiv m = 0 := by
      rw [(Nat.div_eq_zero_iff_lt hm).mpr h] at hquo
      omega
    rw [hzero, add_zero]
    exact Contracts.refl d

/-- What a block does to the gap, if the result is in range. -/
theorem replenishPools_iff {s s' : State} (hperiod : 1 ≤ s.params.poolRecoveryPeriod)
    (h64 : s.params.poolRecoveryPeriod < 2 ^ 64) :
    replenishPools s = .ok s' ↔
      LegacyDec.Fits ((getDoPoolDelta s).i - (getDoPoolDelta s).i.tdiv (wrap64 s.params.poolRecoveryPeriod)) ∧
      s' = setDoPoolDelta s
        ⟨(getDoPoolDelta s).i - (getDoPoolDelta s).i.tdiv (wrap64 s.params.poolRecoveryPeriod)⟩ := by
  have hne : wrap64 s.params.poolRecoveryPeriod ≠ 0 := by
    rw [wrap64_uint64 h64]
    split_ifs <;> omega
  simp only [replenishPools, LegacyDec.quoInt64, hne, if_false, Outcome.ok_bind, LegacyDec.sub,
    Outcome.bind_eq_ok, LegacyDec.check_eq_ok, Outcome.ok.injEq]
  refine ⟨?_, ?_⟩
  · intro h
    obtain ⟨_, ⟨hfits, rfl⟩, hs'⟩ := h
    exact ⟨hfits, hs'.symm⟩
  · intro h
    exact ⟨_, ⟨h.1, rfl⟩, h.2.symm⟩

/-- One block contracts the gap exactly if the condition holds. -/
theorem replenishPools_contracts {s : State} (hperiod : 1 ≤ s.params.poolRecoveryPeriod)
    (h64 : s.params.poolRecoveryPeriod < 2 ^ 64) (hfits : LegacyDec.Fits (getDoPoolDelta s).i) :
    (∃ s', replenishPools s = .ok s' ∧ Contracts (getDoPoolDelta s).i (getDoPoolDelta s').i) ↔
      Regresses s := by
  have hcontracts : Contracts (getDoPoolDelta s).i
      ((getDoPoolDelta s).i - (getDoPoolDelta s).i.tdiv (wrap64 s.params.poolRecoveryPeriod)) ↔ Regresses s := by
    rw [wrap64_uint64 h64, Regresses]
    split_ifs with hsmall
    · exact iff_of_true (contracts_sub_tdiv (by omega) _) (.inl hsmall)
    · have hneg : (s.params.poolRecoveryPeriod : Int) - 2 ^ 64 =
          -((2 ^ 64 - s.params.poolRecoveryPeriod : Nat) : Int) := by omega
      rw [hneg, contracts_neg_iff (by omega), or_iff_right hsmall]
  refine Iff.trans ⟨?_, ?_⟩ hcontracts
  · intro h
    obtain ⟨s', hs', h⟩ := h
    obtain ⟨_, rfl⟩ := (replenishPools_iff hperiod h64).mp hs'
    rw [(setDoPoolDelta_frame s _).2.2] at h
    exact h
  · intro h
    refine ⟨_, (replenishPools_iff hperiod h64).mpr ⟨LegacyDec.Fits.of_abs_le h.natAbs_le hfits, rfl⟩, ?_⟩
    rw [(setDoPoolDelta_frame s _).2.2]
    exact h

/-- What contracts the gap keeps the condition. -/
theorem Regresses.of_contracts {s s' : State} (h : Regresses s) (hparams : s'.params = s.params)
    (hcontracts : Contracts (getDoPoolDelta s).i (getDoPoolDelta s').i) : Regresses s' := by
  unfold Regresses at h ⊢
  rw [hparams]
  exact h.imp_right fun hlt => lt_of_le_of_lt hcontracts.natAbs_le hlt

/-! ## Blocks without swaps -/

def Event.NoSwap : Event → Prop
  | .replenishPools | .other => True
  | .swap _ | .swapSend _ => False

section Runs

variable {env : Env} {s₀ s : State} {steps : List (Step env)}

/-- Within a run without swaps the parameters stay, and the gap contracts. -/
theorem noSwap_contracts (hperiod : 1 ≤ s₀.params.poolRecoveryPeriod)
    (h64 : s₀.params.poolRecoveryPeriod < 2 ^ 64) (hfits : LegacyDec.Fits (getDoPoolDelta s₀).i)
    (hreg : Regresses s₀) (hrun : Trace Step.before Step.after s₀ steps s)
    (hno : ∀ st ∈ steps, st.event.NoSwap) :
    s.params = s₀.params ∧ Contracts (getDoPoolDelta s₀).i (getDoPoolDelta s).i := by
  refine hrun.invariant
    (I := fun s => s.params = s₀.params ∧ Contracts (getDoPoolDelta s₀).i (getDoPoolDelta s).i)
    ?_ ⟨rfl, Contracts.refl _⟩
  intro st hst h
  obtain ⟨before, event, after, occurs⟩ := st
  obtain ⟨hparams, hcontracts⟩ := h
  cases event with
  | swap m => exact (hno _ hst).elim
  | swapSend m => exact (hno _ hst).elim
  | replenishPools =>
    have hbefore := (replenishPools_contracts (hparams ▸ hperiod) (hparams ▸ h64)
      (.of_abs_le hcontracts.natAbs_le hfits)).mpr (hreg.of_contracts hparams hcontracts)
    obtain ⟨after', hafter, hstep⟩ := hbefore
    obtain rfl : after' = after := Outcome.ok.inj (hafter.symm.trans occurs)
    exact ⟨(replenishPools_params hafter).trans hparams, hcontracts.trans hstep⟩
  | other =>
    have hsame : getDoPoolDelta after = getDoPoolDelta before := by
      rw [getDoPoolDelta, getDoPoolDelta, occurs.2]
    exact ⟨occurs.1.trans hparams, hsame ▸ hcontracts⟩

end Runs

/-- Along every run without swaps, each replenishment returns, and none lets the gap grow or
change its sign, exactly if the condition holds in the first state. -/
theorem replenish_contracts_iff (env : Env) (s₀ : State) (hparams : s₀.params.validate = .ok ())
    (h64 : s₀.params.poolRecoveryPeriod < 2 ^ 64) (hfits : LegacyDec.Fits (getDoPoolDelta s₀).i) :
    (∀ (steps : List (Step env)) (s : State), Trace Step.before Step.after s₀ steps s →
      (∀ st ∈ steps, st.event.NoSwap) →
      Contracts (getDoPoolDelta s₀).i (getDoPoolDelta s).i ∧
      ∃ s', replenishPools s = .ok s' ∧ Contracts (getDoPoolDelta s).i (getDoPoolDelta s').i) ↔
    Regresses s₀ := by
  have hperiod := (Params.validate_eq_ok.mp hparams).2.1
  refine ⟨?_, ?_⟩
  · intro h
    obtain ⟨_, hstep⟩ := h [] s₀ (.nil s₀) (by simp)
    exact (replenishPools_contracts hperiod h64 hfits).mp hstep
  · intro hreg steps s hrun hno
    obtain ⟨hsame, hcontracts⟩ := noSwap_contracts hperiod h64 hfits hreg hrun hno
    exact ⟨hcontracts, (replenishPools_contracts (hsame ▸ hperiod) (hsame ▸ h64)
      (.of_abs_le hcontracts.natAbs_le hfits)).mpr (hreg.of_contracts hsame hcontracts)⟩

namespace Sample

/-- A pool with a gap, and a recovery period. -/
def poolOf (delta : Int) (period : Nat) : State :=
  { stateOf 0 with
    doPoolDelta := some ⟨delta⟩
    params := { params with poolRecoveryPeriod := period } }

/-- With the default period a block takes its part off a gap of 86400. -/
theorem gap_shrinks : ∃ s', replenishPools (poolOf 86400 86400) = .ok s' ∧
    Contracts (getDoPoolDelta (poolOf 86400 86400)).i (getDoPoolDelta s').i :=
  ((replenish_contracts_iff app (poolOf 86400 86400) (by decide +kernel) (by decide) (by decide +kernel)).mpr
    (.inl (by decide)) [] _ (.nil _) (by simp)).2

/-- The period 2^64 - 1 is accepted and becomes the divisor -1: each block doubles the gap. -/
theorem gap_doubles : (poolOf 5 (2 ^ 64 - 1)).params.validate = .ok () ∧
    (do
      let s ← replenishPools (poolOf 5 (2 ^ 64 - 1))
      let s ← replenishPools s
      .ok (getDoPoolDelta s)) = .ok ⟨20⟩ := by
  decide +kernel

end Sample

end Market
