import DoChain.Lib.SortedMap
import DoChain.Sdk.LegacyDec
import DoChain.Sdk.Types

/- The limit on a validator's share of the power (`custom/staking/hook.go`).

   Correspondence (Go ↔ Lean):
     `DoStakingHooks.AfterDelegationModified` ↔ `afterDelegationModified`
     `sdk.TokensToConsensusPower`             ↔ `tokensToConsensusPower`
     `GetAllValidators`                       ↔ the entries of the table

   The staking module calls the hook after every change of a delegation that is left with
   shares. The hook is given the validator's address and the table of validators, and no
   more: it cannot tell a delegation from an undelegation. `power_limit_iff` says for which
   tables it returns nil. A table stands for any moment of a change, before or after the
   validator's tokens are lowered. The prints are left out. -/

namespace Staking

open Sdk

/-- The fields of `stakingtypes.Validator` that the hook reads. -/
structure StakedValidator where
  tokens : Nat
  bonded : Bool
  deriving DecidableEq, Repr

/-- The chain id of the limited chain. -/
def columbusChainID : String := "cookie-1"

/-- The loop over all validators; the sum is an `int64`. -/
def sumBonded (totalPower : Int) : List StakedValidator → Outcome String Int
  | [] => .ok totalPower
  | v :: rest =>
    if v.bonded then do
      let valPower ← tokensToConsensusPower v.tokens
      sumBonded (wrap64 (totalPower + valPower)) rest
    else sumBonded totalPower rest

/-- The validators of the staking store, by address. -/
abbrev Validators := SortedMap Bytes StakedValidator

def Validators.all (table : Validators) : List StakedValidator := table.entries.map Prod.snd

/-- The last part of the hook: the validator's share of the total. -/
def checkShare (validatorPower totalPower : Int) : Outcome String Unit := do
  let validatorDelegationPercent ← LegacyDec.quo (.ofInt validatorPower) (.ofInt totalPower)
  .failIf (⟨20 * 10 ^ 16⟩ < validatorDelegationPercent) "validator power is over the allowed limit"

def afterDelegationModified (chainID : String) (blockHeight : Int) (table : Validators)
    (valAddr : Bytes) : Outcome String Unit :=
  if chainID ≠ columbusChainID then .ok ()
  -- genesis
  else if blockHeight = 0 then .ok ()
  else
    match table.get valAddr with
    | none => .ok ()
    | some validator => do
      let validatorPower ← tokensToConsensusPower validator.tokens
      let totalPower ← sumBonded 0 table.all
      if totalPower = 0 then .ok () else checkShare validatorPower totalPower

/-! ## The sum -/

def StakedValidator.power (v : StakedValidator) : Nat := v.tokens / powerReduction

/-- The powers of the bonded validators, added up. -/
def bondedPower (vals : List StakedValidator) : Nat :=
  ((vals.filter StakedValidator.bonded).map StakedValidator.power).sum

theorem tokensToConsensusPower_eq_ok {v : StakedValidator} {p : Int} :
    (tokensToConsensusPower v.tokens : Outcome String Int) = .ok p ↔ v.power < 2 ^ 63 ∧ p = v.power := by
  rw [tokensToConsensusPower, int64_eq_ok]
  show (-2 ^ 63 ≤ (v.power : Int) ∧ (v.power : Int) < 2 ^ 63) ∧ p = v.power ↔ _
  omega

theorem wrap64_add_wrap64 (n m : Int) : wrap64 (wrap64 n + m) = wrap64 (n + m) :=
  Int.bmod_add_bmod

/-- The loop ends if every bonded validator's power is an `int64`, with the sum up to
multiples of `2^64`. -/
theorem sumBonded_eq_ok {n t : Int} {vals : List StakedValidator} :
    sumBonded (wrap64 n) vals = .ok t ↔
      (∀ v ∈ vals, v.bonded = true → v.power < 2 ^ 63) ∧ t = wrap64 (n + bondedPower vals) := by
  induction vals generalizing n with
  | nil =>
    simp only [sumBonded, bondedPower, List.filter_nil, List.map_nil, List.sum_nil, Nat.cast_zero, add_zero,
      Outcome.ok.injEq, List.not_mem_nil, false_imp_iff, implies_true, true_and]
    exact eq_comm
  | cons v rest ih =>
    rw [List.forall_mem_cons]
    by_cases hb : v.bonded = true
    · have hsum : ((bondedPower (v :: rest) : Nat) : Int) = v.power + bondedPower rest := by
        simp [bondedPower, hb]
      simp only [sumBonded, hb, if_true, Outcome.bind_eq_ok, tokensToConsensusPower_eq_ok, true_imp_iff,
        hsum, ← add_assoc]
      refine ⟨?_, ?_⟩
      · intro h
        obtain ⟨p, ⟨hp, rfl⟩, h⟩ := h
        rw [wrap64_add_wrap64] at h
        exact ⟨⟨hp, (ih.mp h).1⟩, (ih.mp h).2⟩
      · intro h
        refine ⟨v.power, ⟨h.1.1, rfl⟩, ?_⟩
        rw [wrap64_add_wrap64]
        exact ih.mpr ⟨h.1.2, h.2⟩
    · have hsum : bondedPower (v :: rest) = bondedPower rest := by simp [bondedPower, hb]
      simp only [sumBonded, hb, Bool.false_eq_true, if_false, hsum, false_imp_iff, true_and]
      exact ih

/-! ## The share -/

theorem ofInt_quo_le_fifth {p : Nat} {t : Int} (ht : 0 < t) :
    LegacyDec.quoRaw (.ofInt p) (.ofInt t) ≤ 20 * 10 ^ 16 ↔
      p * 10 ^ 36 < t * (2 * 10 ^ 35 + 5 * 10 ^ 17 + 1) := by
  have hprec : (LegacyDec.precision : Int) = 10 ^ 18 := rfl
  have hnum : 0 ≤ (LegacyDec.ofInt p).i := by simp only [LegacyDec.ofInt, hprec]; omega
  have hden : 0 < (LegacyDec.ofInt t).i := by simp only [LegacyDec.ofInt, hprec]; omega
  have hle := LegacyDec.quoRaw_le_iff hnum hden (k := 20 * 10 ^ 16) (by decide)
  rw [show (20 * 10 ^ 16 : Int) = ((20 * 10 ^ 16 : Nat) : Int) by norm_num, hle]
  simp only [LegacyDec.ofInt, hprec]
  omega

/-- The share of an `int64` is far inside the range of a decimal. -/
theorem fits_quo_ofInt {p : Nat} (t : Int) (hp : p < 2 ^ 63) :
    LegacyDec.Fits (LegacyDec.quoRaw (.ofInt p) (.ofInt t)) := by
  have hprec : (LegacyDec.precision : Int) = 10 ^ 18 := rfl
  generalize hn : (LegacyDec.ofInt p).i * (LegacyDec.precision * LegacyDec.precision : Nat) = n
  have habs : (n.tdiv (LegacyDec.ofInt t).i).natAbs ≤ n.natAbs := by
    rw [Int.natAbs_tdiv]
    exact Nat.div_le_self _ _
  have hbound : n.natAbs = p * 10 ^ 36 * 10 ^ 18 := by
    rw [← hn, LegacyDec.ofInt, Int.natAbs_mul, Int.natAbs_mul]
    simp only [LegacyDec.precision, Int.natAbs_natCast]
    ring
  have hupper : LegacyDec.quoRaw (.ofInt p) (.ofInt t) ≤ (p * 10 ^ 36 : Nat) := by
    rw [LegacyDec.quoRaw, hn]
    apply HalfEven.div_le_of_le_mul LegacyDec.precision_pos
    rw [hprec]
    omega
  have hlower : -((p * 10 ^ 36 : Nat) : Int) ≤ LegacyDec.quoRaw (.ofInt p) (.ofInt t) := by
    rw [LegacyDec.quoRaw, hn]
    apply HalfEven.le_div_of_mul_le LegacyDec.precision_pos
    rw [hprec]
    omega
  rw [LegacyDec.fits_iff]
  omega

/-! ## When the hook returns nil -/

/-- The validator's power is at most a fifth of the bonded power, up to the rounding of the
eighteenth digit. An unknown validator is not limited, nor is any when nothing is bonded. -/
def WithinLimit (table : Validators) (valAddr : Bytes) : Prop :=
  ∀ v, table.get valAddr = some v →
    v.power < 2 ^ 63 ∧ (∀ w ∈ table.all, w.bonded = true → w.power < 2 ^ 63) ∧
      (wrap64 (bondedPower table.all) ≤ 0 ∨
        v.power * 10 ^ 36 < wrap64 (bondedPower table.all) * (2 * 10 ^ 35 + 5 * 10 ^ 17 + 1))

theorem checkShare_eq_ok {p : Nat} {t : Int} (hp : p < 2 ^ 63) (ht : t ≠ 0) :
    checkShare p t = .ok () ↔ t ≤ 0 ∨ p * 10 ^ 36 < t * (2 * 10 ^ 35 + 5 * 10 ^ 17 + 1) := by
  have hprec : (LegacyDec.precision : Int) = 10 ^ 18 := rfl
  have hden : (LegacyDec.ofInt t).i ≠ 0 := by simp only [LegacyDec.ofInt, hprec]; omega
  have hshare : checkShare p t = .ok () ↔ LegacyDec.quoRaw (.ofInt p) (.ofInt t) ≤ 20 * 10 ^ 16 := by
    rw [checkShare, LegacyDec.quo_eq_ok.mpr ⟨hden, fits_quo_ofInt t hp, rfl⟩]
    exact Outcome.failIf_eq_ok.trans Int.not_lt
  rw [hshare]
  rcases lt_or_gt_of_ne ht with hneg | hpos
  · -- the sum has wrapped around
    have hnum : 0 ≤ (LegacyDec.ofInt p).i := by simp only [LegacyDec.ofInt, hprec]; omega
    have hneg' : (LegacyDec.ofInt t).i < 0 := by simp only [LegacyDec.ofInt, hprec]; omega
    exact iff_of_true ((LegacyDec.quoRaw_nonpos hnum hneg').trans (by norm_num)) (.inl hneg.le)
  · rw [ofInt_quo_le_fifth hpos]
    exact (or_iff_right (by omega)).symm

/-- On the limited chain after genesis, the hook returns nil for the validators that are
within the limit. -/
theorem power_limit_iff (table : Validators) (valAddr : Bytes) {blockHeight : Int}
    (hheight : 0 < blockHeight) :
    afterDelegationModified columbusChainID blockHeight table valAddr = .ok () ↔
      WithinLimit table valAddr := by
  have hsum : sumBonded 0 table.all = sumBonded (wrap64 0) table.all := rfl
  simp only [afterDelegationModified, ne_eq, not_true_eq_false, if_false, hheight.ne']
  cases hget : table.get valAddr with
  | none => simp [WithinLimit, hget]
  | some v =>
    simp only [WithinLimit, hget, Option.some.injEq, forall_eq', Outcome.bind_eq_ok (α := Int),
      tokensToConsensusPower_eq_ok, hsum, sumBonded_eq_ok, zero_add]
    refine ⟨?_, ?_⟩
    · intro h
      obtain ⟨p, hpower, t, htotal, h⟩ := h
      rw [hpower.2, htotal.2] at h
      refine ⟨hpower.1, htotal.1, ?_⟩
      split_ifs at h with ht
      · exact .inl ht.le
      · exact (checkShare_eq_ok hpower.1 ht).mp h
    · intro h
      refine ⟨v.power, ⟨h.1, rfl⟩, wrap64 (bondedPower table.all), ⟨h.2.1, rfl⟩, ?_⟩
      split_ifs with ht
      · rfl
      · exact (checkShare_eq_ok h.1 ht).mpr h.2.2

namespace Sample

/-- Five validators with these bonded tokens, the first with its own. -/
def bondedTable (first others : Nat) : Validators :=
  [[2], [3], [4], [5]].foldl (fun table valAddr => table.set valAddr ⟨others, true⟩)
    (SortedMap.empty.set [1] ⟨first, true⟩)

/-- Of five validators with equal tokens each has a fifth, and can be left. -/
theorem fifth_within_limit :
    afterDelegationModified columbusChainID 1 (bondedTable 2000000 2000000) [1] = .ok () :=
  (power_limit_iff _ _ (by decide)).mpr (by
    intro v hv
    have hfirst : (bondedTable 2000000 2000000).get [1] = some ⟨2000000, true⟩ := by decide +kernel
    obtain rfl := Option.some.inj (hfirst.symm.trans hv)
    decide +kernel)

/-- Once others have left, the largest validator is over the limit, and lowering its tokens
from 60 to 59 power fails: the hook returns the error on the table before the change and on
the one after it. -/
theorem undelegation_over_limit_fails :
    let before := bondedTable 60000000 10000000
    let after := bondedTable 59000000 10000000
    afterDelegationModified columbusChainID 1 before [1]
        = .err "validator power is over the allowed limit" ∧
      afterDelegationModified columbusChainID 1 after [1]
        = .err "validator power is over the allowed limit" := by
  decide +kernel

end Sample

end Staking
