import DoChain.Treasury.Indicators

/- When the policy updates complete (`x/treasury/keeper/policy.go`).

   `taxTarget` and `rewardTarget` are the formulas of the two updates, with every product and
   quotient rounded as a decimal, and `nearest` is what a clamp comes to. The tax policy
   divides by an average that it has compared with zero. The reward policy compares two sums
   with zero, and divides by their rounded quotient.

   `policies_complete_iff`: with valid parameters and indicators below `2^200`, both updates
   set the clamped value of their formula if and only if the share of the seigniorage is not
   rounded to zero and the formulas stay in the range of a decimal. -/

namespace Treasury

open Sdk LegacyDec

/-! ## Clamping -/

/-- The rate that is nearest to the target, of those near enough to the old rate and in the
range. -/
def PolicyConstraints.nearest (pc : PolicyConstraints) (old target : LegacyDec) : LegacyDec :=
  ⟨max pc.rateMin.i (min pc.rateMax.i
    (max (old.i - pc.changeRateMax.i) (min (old.i + pc.changeRateMax.i) target.i)))⟩

section Clamp

variable {pc : PolicyConstraints} {old target : LegacyDec}

/-- A step that is cut short ends between the old rate and the target. -/
theorem PolicyConstraints.limitStep_eq (hstep : 0 ≤ pc.changeRateMax.i) (hold : Fits old.i)
    (htarget : Fits target.i) :
    pc.limitStep old target ⟨target.i - old.i⟩ =
      .ok ⟨max (old.i - pc.changeRateMax.i) (min (old.i + pc.changeRateMax.i) target.i)⟩ := by
  rw [fits_iff] at hold htarget
  simp only [limitStep, LegacyDec.lt_def]
  split_ifs with hup hfar hfar
  · refine check_eq_ok.mpr ⟨?_, ?_⟩
    · rw [fits_iff]
      omega
    · rw [min_eq_left (by omega), max_eq_right (by omega)]
  · rw [min_eq_right (by omega), max_eq_right (by omega)]
  · rw [lt_abs] at hfar
    refine check_eq_ok.mpr ⟨?_, ?_⟩
    · rw [fits_iff]
      omega
    · rw [max_eq_left]
      exact (min_le_right _ _).trans (by omega)
  · have hnear := abs_le.mp (not_lt.mp hfar)
    rw [min_eq_right (by omega), max_eq_right (by omega)]

theorem PolicyConstraints.limitRange_eq (hrange : pc.rateMin ≤ pc.rateMax) (rate : LegacyDec) :
    pc.limitRange rate = ⟨max pc.rateMin.i (min pc.rateMax.i rate.i)⟩ := by
  simp only [LegacyDec.le_def] at hrange
  simp only [limitRange, LegacyDec.lt_def]
  split_ifs with hlow hhigh
  · rw [min_eq_right (by omega), max_eq_left (by omega)]
  · rw [min_eq_left (by omega), max_eq_right (by omega)]
  · rw [min_eq_right (by omega), max_eq_right (by omega)]

theorem PolicyConstraints.clamp_eq (hproper : pc.rateMin ≤ pc.rateMax ∧ 0 ≤ pc.changeRateMax.i)
    (hold : Fits old.i) (htarget : Fits target.i) :
    pc.clamp old target =
      if Fits (target.i - old.i) then .ok (pc.nearest old target) else .panic "Int overflow" := by
  rw [clamp, LegacyDec.sub, check]
  split_ifs with hdelta
  · rw [Outcome.ok_bind, limitStep_eq hproper.2 hold htarget, Outcome.ok_bind, limitRange_eq hproper.1]
    rfl
  · rfl

end Clamp

/-! ## The formulas -/

/-- What the tax rate aims at: the old rate times the average tax reward of the long window
times the increment, over the average of the short window. -/
def taxTarget (p : Params) (old tlYear tlMonth : LegacyDec) : LegacyDec :=
  if tlMonth.i = 0 then p.taxPolicy.rateMax
  else ⟨quoRaw ⟨mulRaw old ⟨mulRaw tlYear p.miningIncrement⟩⟩ tlMonth⟩

/-- The products and the quotient of the tax formula are in the range of a decimal. -/
def TaxFits (p : Params) (old tlYear tlMonth : LegacyDec) : Prop :=
  tlMonth.i ≠ 0 → Fits (mulRaw tlYear p.miningIncrement) ∧
    Fits (mulRaw old ⟨mulRaw tlYear p.miningIncrement⟩) ∧ Fits (taxTarget p old tlYear tlMonth).i
instance (p : Params) (old tlYear tlMonth : LegacyDec) : Decidable (TaxFits p old tlYear tlMonth) :=
  inferInstanceAs (Decidable (_ → _))

theorem nextTaxRate_eq_ok {p : Params} {old tlYear tlMonth rate : LegacyDec} :
    nextTaxRate p old tlYear tlMonth = .ok rate ↔
      TaxFits p old tlYear tlMonth ∧ rate = taxTarget p old tlYear tlMonth := by
  unfold nextTaxRate TaxFits taxTarget
  split_ifs with hzero
  · simp [hzero, eq_comm]
  · simp only [LegacyDec.mul, Outcome.bind_eq_ok, check_eq_ok, quo_eq_ok]
    refine ⟨?_, ?_⟩
    · intro h
      obtain ⟨_, ⟨hgrown, rfl⟩, _, ⟨hproduct, rfl⟩, _, hquo, rfl⟩ := h
      exact ⟨fun _ => ⟨hgrown, hproduct, hquo⟩, rfl⟩
    · intro h
      obtain ⟨hfits, rfl⟩ := h
      obtain ⟨hgrown, hproduct, hquo⟩ := hfits hzero
      exact ⟨_, ⟨hgrown, rfl⟩, _, ⟨hproduct, rfl⟩, hzero, hquo, rfl⟩

/-- What the reward weight aims at: the old weight times the target burden over the share of
the seigniorage. -/
def rewardTarget (p : Params) (old seigniorage total : LegacyDec) : LegacyDec :=
  if total.i = 0 ∨ seigniorage.i = 0 then p.rewardPolicy.rateMax
  else ⟨mulRaw old ⟨quoRaw p.seigniorageBurdenTarget ⟨quoRaw seigniorage total⟩⟩⟩

/-- The quotient and the product of the reward formula are in the range of a decimal. -/
def RewardFits (p : Params) (old seigniorage total : LegacyDec) : Prop :=
  ¬ (total.i = 0 ∨ seigniorage.i = 0) →
    Fits (quoRaw p.seigniorageBurdenTarget ⟨quoRaw seigniorage total⟩) ∧
      Fits (rewardTarget p old seigniorage total).i
instance (p : Params) (old seigniorage total : LegacyDec) : Decidable (RewardFits p old seigniorage total) :=
  inferInstanceAs (Decidable (_ → _))

/-- There are no rewards, or the share of the seigniorage is more than half of the last digit
of a decimal. -/
def ShareVisible (seigniorage total : LegacyDec) : Prop :=
  (total.i = 0 ∨ seigniorage.i = 0) ∨ (5 * 10 ^ 17 + 1) * total.i ≤ seigniorage.i * 10 ^ 36
instance (seigniorage total : LegacyDec) : Decidable (ShareVisible seigniorage total) :=
  inferInstanceAs (Decidable (_ ∨ _))

theorem nextRewardWeight_eq_ok {p : Params} {old seigniorage total weight : LegacyDec}
    (hnonneg : 0 ≤ seigniorage.i) (hpart : seigniorage.i ≤ total.i) :
    nextRewardWeight p old seigniorage total = .ok weight ↔
      (ShareVisible seigniorage total ∧ RewardFits p old seigniorage total) ∧
        weight = rewardTarget p old seigniorage total := by
  unfold nextRewardWeight ShareVisible RewardFits rewardTarget
  split_ifs with hzero
  · simp [hzero, eq_comm]
  · -- the share is at most one, and its rounded value is the divisor
    have htotal : 0 < total.i := by omega
    have hone : quoRaw seigniorage total ≤ precision :=
      quoRaw_le_of_le_mul htotal (by rw [mul_comm]; exact Int.mul_le_mul_of_nonneg_left hpart (by simp))
    have hshare := quoRaw_nonneg hnonneg htotal.le
    have hfits : Fits (quoRaw seigniorage total) := by
      unfold Fits
      unfold precision at hone
      omega
    have hvisible : quoRaw seigniorage total ≠ 0 ↔ (5 * 10 ^ 17 + 1) * total.i ≤ seigniorage.i * 10 ^ 36 := by
      rw [← quoRaw_pos_iff hnonneg htotal]
      omega
    simp only [LegacyDec.mul, Outcome.bind_eq_ok, check_eq_ok, quo_eq_ok, hzero, false_or, ← hvisible,
      not_false_eq_true, true_implies]
    refine ⟨?_, ?_⟩
    · intro h
      obtain ⟨_, ⟨_, _, rfl⟩, _, ⟨hsb, hfactor, rfl⟩, hweight, rfl⟩ := h
      exact ⟨⟨hsb, hfactor, hweight⟩, rfl⟩
    · intro h
      obtain ⟨⟨hsb, hfactor, hweight⟩, rfl⟩ := h
      exact ⟨_, ⟨htotal.ne', hfits, rfl⟩, _, ⟨hsb, hfactor, rfl⟩, hweight, rfl⟩

/-! ## What the updates read -/

/-- The tax rewards for each staked DO; without a stake they are zero. -/
def trlValue (s : Store) (epoch : Nat) : LegacyDec := ⟨(getTR s epoch).i.tdiv (getTSL s epoch)⟩

def mrValue (s : Store) (epoch : Nat) : LegacyDec := ⟨(getTR s epoch).i + (getSR s epoch).i⟩

theorem TRL_eq (s : Store) (epoch : Nat) : TRL s epoch = .ok (trlValue s epoch) := by
  unfold TRL trlValue
  dsimp only
  split_ifs with hzero
  · cases hzero with
    | inl htr => rw [htr, Int.zero_tdiv]; rfl
    | inr htsl => rw [htsl, Int.tdiv_zero]; rfl
  · rw [quoInt, quoInt64, if_neg (fun htsl => hzero (.inr htsl))]

/-- A reward that is not negative and below `2^200`. -/
def Moderate (d : LegacyDec) : Prop := 0 ≤ d.i ∧ d.i < 2 ^ 200 * precision

/-- The rewards of every epoch are moderate, and the decimals that the updates compare and
clamp are in the range of a decimal. -/
structure Stored (s : Store) : Prop where
  taxRewards : ∀ e, Moderate (getTR s e)
  seigniorageRewards : ∀ e, Moderate (getSR s e)
  taxRate : Fits (getTaxRate s).i
  rewardWeight : Fits (getRewardWeight s).i
  taxRateMax : Fits s.params.taxPolicy.rateMax.i
  rewardRateMax : Fits s.params.rewardPolicy.rateMax.i

theorem windowSum_abs_le {value : Nat → LegacyDec} {bound : Int} (h : ∀ e, |(value e).i| ≤ bound) (next n : Nat) :
    |windowSum value next n| ≤ n * bound := by
  have hbound : 0 ≤ bound := (abs_nonneg _).trans (h 0)
  have hcard : ((Finset.Ico (next - n) next).card : Int) ≤ n := by
    rw [Nat.card_Ico]
    omega
  calc |windowSum value next n| ≤ ∑ e ∈ Finset.Ico (next - n) next, |(value e).i| := Finset.abs_sum_le_sum_abs _ _
    _ ≤ (Finset.Ico (next - n) next).card • bound := Finset.sum_le_card_nsmul _ _ _ (fun e _ => h e)
    _ ≤ n * bound := by
      rw [nsmul_eq_mul]
      exact Int.mul_le_mul_of_nonneg_right hcard hbound

theorem windowEpochs_le (w : World) (epochs : Int) : windowEpochs w epochs ≤ getEpoch w + 1 := by
  unfold windowEpochs epochsAbove
  omega

section Reads

variable {w : World}

/-- With values below `2^261`, no sum over the epochs of a chain leaves the range. -/
theorem runningFits_of_moderate (hheight : w.market.height < 2 ^ 63) {value : Nat → LegacyDec}
    (h : ∀ e, |(value e).i| ≤ 2 ^ 261) (epochs : Int) :
    RunningFits value (getEpoch w + 1) (windowEpochs w epochs) 0 := by
  intro m hm
  have hepoch := getEpoch_lt hheight
  have hcount := windowEpochs_le w epochs
  have hsum := windowSum_abs_le h (getEpoch w + 1) m
  have hm : (m : Int) ≤ 2 ^ 44 := by
    have : m ≤ 2 ^ 44 := by omega
    exact_mod_cast this
  have hle : (m : Int) * 2 ^ 261 ≤ 2 ^ 44 * 2 ^ 261 := Int.mul_le_mul_of_nonneg_right hm (by positivity)
  rw [zero_add, Fits]
  rw [Int.abs_eq_natAbs] at hsum
  omega

theorem trlValue_abs_le {s : Store} (h : Stored s) (e : Nat) : |(trlValue s e).i| ≤ 2 ^ 261 := by
  obtain ⟨hnonneg, hlt⟩ := h.taxRewards e
  have hdiv : |(trlValue s e).i| ≤ (getTR s e).i := by
    rw [Int.abs_eq_natAbs]
    show (((getTR s e).i.tdiv (getTSL s e)).natAbs : Int) ≤ _
    rw [Int.natAbs_tdiv]
    have hle : (getTR s e).i.natAbs.div (getTSL s e).natAbs ≤ (getTR s e).i.natAbs := Nat.div_le_self _ _
    omega
  unfold precision at hlt
  exact hdiv.trans (by omega)

theorem getSR_abs_le {s : Store} (h : Stored s) (e : Nat) : |(getSR s e).i| ≤ 2 ^ 261 := by
  obtain ⟨hnonneg, hlt⟩ := h.seigniorageRewards e
  unfold precision at hlt
  rw [abs_of_nonneg hnonneg]
  omega

theorem mrValue_abs_le {s : Store} (h : Stored s) (e : Nat) : |(mrValue s e).i| ≤ 2 ^ 261 := by
  obtain ⟨hnonneg, hlt⟩ := h.seigniorageRewards e
  obtain ⟨hnonneg', hlt'⟩ := h.taxRewards e
  unfold precision at hlt hlt'
  show |(getTR s e).i + (getSR s e).i| ≤ _
  rw [abs_of_nonneg (by omega)]
  omega

theorem MR_eq {s : Store} (h : Stored s) (e : Nat) : MR s e = .ok (mrValue s e) := by
  have hbound : |(getTR s e).i + (getSR s e).i| ≤ 2 ^ 261 := mrValue_abs_le h e
  rw [Int.abs_eq_natAbs] at hbound
  rw [MR, LegacyDec.add, check_eq_ok, Fits]
  exact ⟨by omega, rfl⟩

/-- The tax rewards for each staked DO, averaged over a window. -/
def taxRewardAverage (w : World) (window : Nat) : LegacyDec :=
  windowAverage (trlValue w.store) (getEpoch w + 1) (windowEpochs w (wrap64 window))

/-- The seigniorage rewards of the short window. -/
def seigniorageSum (w : World) : LegacyDec :=
  ⟨windowSum (getSR w.store) (getEpoch w + 1) (windowEpochs w (wrap64 w.store.params.windowShort))⟩

/-- The seigniorage and tax rewards of the short window. -/
def miningSum (w : World) : LegacyDec :=
  ⟨windowSum (mrValue w.store) (getEpoch w + 1) (windowEpochs w (wrap64 w.store.params.windowShort))⟩

theorem rollingAverage_TRL (hheight : w.market.height < 2 ^ 63) (h : Stored w.store) (window : Nat) :
    rollingAverageIndicator w (wrap64 window) TRL = .ok (taxRewardAverage w window) := by
  rw [rollingAverageIndicator_eq (fun e _ => TRL_eq w.store e),
    if_pos (runningFits_of_moderate hheight (trlValue_abs_le h) _)]
  rfl

theorem sum_SR (hheight : w.market.height < 2 ^ 63) (h : Stored w.store) :
    sumIndicator w (wrap64 w.store.params.windowShort) SR = .ok (seigniorageSum w) := by
  rw [sumIndicator_eq (fun _ _ => rfl), if_pos (runningFits_of_moderate hheight (getSR_abs_le h) _)]
  rfl

theorem sum_MR (hheight : w.market.height < 2 ^ 63) (h : Stored w.store) :
    sumIndicator w (wrap64 w.store.params.windowShort) MR = .ok (miningSum w) := by
  rw [sumIndicator_eq (fun e _ => MR_eq h e), if_pos (runningFits_of_moderate hheight (mrValue_abs_le h) _)]
  rfl

theorem seigniorageSum_nonneg (h : Stored w.store) : 0 ≤ (seigniorageSum w).i := by
  simp only [seigniorageSum, windowSum]
  exact Finset.sum_nonneg (fun e _ => (h.seigniorageRewards e).1)

theorem seigniorageSum_le (h : Stored w.store) : (seigniorageSum w).i ≤ (miningSum w).i := by
  simp only [seigniorageSum, miningSum, windowSum]
  apply Finset.sum_le_sum
  intro e _
  have htax := (h.taxRewards e).1
  show (getSR w.store e).i ≤ (getTR w.store e).i + (getSR w.store e).i
  omega

end Reads

/-! ## The updates -/

/-- What the tax rate aims at. -/
def taxAim (w : World) : LegacyDec :=
  taxTarget w.store.params (getTaxRate w.store) (taxRewardAverage w w.store.params.windowLong)
    (taxRewardAverage w w.store.params.windowShort)

/-- What the reward weight aims at. -/
def rewardAim (w : World) : LegacyDec :=
  rewardTarget w.store.params (getRewardWeight w.store) (seigniorageSum w) (miningSum w)

/-- The tax rate that an update should set. -/
def nextRate (w : World) : LegacyDec := w.store.params.taxPolicy.nearest (getTaxRate w.store) (taxAim w)

/-- The reward weight that an update should set. -/
def nextWeight (w : World) : LegacyDec := w.store.params.rewardPolicy.nearest (getRewardWeight w.store) (rewardAim w)

/-- The formulas, and the distances from the old rates, are in the range of a decimal. -/
structure FormulasFit (w : World) : Prop where
  tax : TaxFits w.store.params (getTaxRate w.store) (taxRewardAverage w w.store.params.windowLong)
    (taxRewardAverage w w.store.params.windowShort)
  taxStep : Fits ((taxAim w).i - (getTaxRate w.store).i)
  reward : RewardFits w.store.params (getRewardWeight w.store) (seigniorageSum w) (miningSum w)
  rewardStep : Fits ((rewardAim w).i - (getRewardWeight w.store).i)

section Updates

variable {w : World}

theorem taxAim_fits (h : Stored w.store) (htax : TaxFits w.store.params (getTaxRate w.store)
      (taxRewardAverage w w.store.params.windowLong) (taxRewardAverage w w.store.params.windowShort)) :
    Fits (taxAim w).i := by
  by_cases hzero : (taxRewardAverage w w.store.params.windowShort).i = 0
  · rw [taxAim, taxTarget, if_pos hzero]
    exact h.taxRateMax
  · exact (htax hzero).2.2

theorem rewardAim_fits (h : Stored w.store)
    (hreward : RewardFits w.store.params (getRewardWeight w.store) (seigniorageSum w) (miningSum w)) :
    Fits (rewardAim w).i := by
  by_cases hzero : (miningSum w).i = 0 ∨ (seigniorageSum w).i = 0
  · rw [rewardAim, rewardTarget, if_pos hzero]
    exact h.rewardRateMax
  · exact (hreward hzero).2

theorem updateTaxPolicy_eq_ok (hvalid : w.store.params.validate = .ok ()) (hheight : w.market.height < 2 ^ 63)
    (h : Stored w.store) :
    updateTaxPolicy w = .ok ({ w with store := setTaxRate w.store (nextRate w) }, nextRate w) ↔
      TaxFits w.store.params (getTaxRate w.store) (taxRewardAverage w w.store.params.windowLong)
          (taxRewardAverage w w.store.params.windowShort) ∧
        Fits ((taxAim w).i - (getTaxRate w.store).i) := by
  have hproper := Params.policy_proper hvalid .tax
  simp only [updateTaxPolicy, rollingAverage_TRL hheight h, Outcome.ok_bind, Outcome.bind_eq_ok, nextTaxRate_eq_ok]
  refine ⟨?_, ?_⟩
  · intro hrun
    obtain ⟨_, ⟨htax, rfl⟩, rate, hclamp, _⟩ := hrun
    refine ⟨htax, ?_⟩
    obtain ⟨delta, hdelta, _⟩ := Outcome.bind_eq_ok.mp hclamp
    exact (check_eq_ok.mp hdelta).1
  · intro hfits
    obtain ⟨htax, hstep⟩ := hfits
    refine ⟨_, ⟨htax, rfl⟩, nextRate w, ?_, rfl⟩
    exact (PolicyConstraints.clamp_eq hproper h.taxRate (taxAim_fits h htax)).trans (if_pos hstep)

theorem updateRewardPolicy_eq_ok (hvalid : w.store.params.validate = .ok ()) (hheight : w.market.height < 2 ^ 63)
    (h : Stored w.store) :
    updateRewardPolicy w = .ok ({ w with store := setRewardWeight w.store (nextWeight w) }, nextWeight w) ↔
      ShareVisible (seigniorageSum w) (miningSum w) ∧
        RewardFits w.store.params (getRewardWeight w.store) (seigniorageSum w) (miningSum w) ∧
        Fits ((rewardAim w).i - (getRewardWeight w.store).i) := by
  have hproper := Params.policy_proper hvalid .reward
  simp only [updateRewardPolicy, sum_SR hheight h, sum_MR hheight h, Outcome.ok_bind, Outcome.bind_eq_ok,
    nextRewardWeight_eq_ok (seigniorageSum_nonneg h) (seigniorageSum_le h)]
  refine ⟨?_, ?_⟩
  · intro hrun
    obtain ⟨_, ⟨⟨hvisible, hreward⟩, rfl⟩, weight, hclamp, _⟩ := hrun
    refine ⟨hvisible, hreward, ?_⟩
    obtain ⟨delta, hdelta, _⟩ := Outcome.bind_eq_ok.mp hclamp
    exact (check_eq_ok.mp hdelta).1
  · intro hfits
    obtain ⟨hvisible, hreward, hstep⟩ := hfits
    refine ⟨_, ⟨⟨hvisible, hreward⟩, rfl⟩, nextWeight w, ?_, rfl⟩
    exact (PolicyConstraints.clamp_eq hproper h.rewardWeight (rewardAim_fits h hreward)).trans (if_pos hstep)

end Updates

/-- Both updates complete and set the clamped value of their formula exactly if the share of
the seigniorage in the rewards of the short window is not rounded to zero and the formulas
stay in the range of a decimal. -/
theorem policies_complete_iff (w : World) (hvalid : w.store.params.validate = .ok ())
    (hheight : w.market.height < 2 ^ 63) (hstored : Stored w.store) :
    (updateTaxPolicy w = .ok ({ w with store := setTaxRate w.store (nextRate w) }, nextRate w) ∧
      updateRewardPolicy w = .ok ({ w with store := setRewardWeight w.store (nextWeight w) }, nextWeight w)) ↔
    ShareVisible (seigniorageSum w) (miningSum w) ∧ FormulasFit w := by
  rw [updateTaxPolicy_eq_ok hvalid hheight hstored, updateRewardPolicy_eq_ok hvalid hheight hstored]
  refine ⟨?_, ?_⟩
  · intro h
    obtain ⟨⟨htax, htaxStep⟩, hvisible, hreward, hrewardStep⟩ := h
    exact ⟨hvisible, htax, htaxStep, hreward, hrewardStep⟩
  · intro h
    obtain ⟨hvisible, hfits⟩ := h
    exact ⟨⟨hfits.tax, hfits.taxStep⟩, hvisible, hfits.reward, hfits.rewardStep⟩

namespace Sample

/-- The 13th week ends with these tax and seigniorage rewards recorded for it. -/
def rewarded (tr sr : LegacyDec) : World :=
  { weekEnd with store := { store with
      taxRewards := SortedMap.empty.set 12 tr
      seigniorageRewards := SortedMap.empty.set 12 sr
      totalStaked := SortedMap.empty.set 12 (10 ^ 5) } }

theorem moderate_single {d : LegacyDec} (h : Moderate d) (e : Nat) :
    Moderate (((SortedMap.empty.set 12 d).get e).getD .zero) := by
  rw [SortedMap.get_set]
  split_ifs
  · exact h
  · exact ⟨le_rfl, show (0 : Int) < _ by decide⟩

theorem rewarded_stored {tr sr : LegacyDec} (htr : Moderate tr) (hsr : Moderate sr) :
    Stored (rewarded tr sr).store where
  taxRewards := moderate_single htr
  seigniorageRewards := moderate_single hsr
  taxRate := show Fits defaultTaxRate.i by decide +kernel
  rewardWeight := show Fits defaultRewardWeight.i by decide +kernel
  taxRateMax := show Fits defaultTaxPolicy.rateMax.i by decide +kernel
  rewardRateMax := show Fits defaultRewardPolicy.rateMax.i by decide +kernel

/-- The seigniorage has the share it should have. -/
def onTarget : World := rewarded ⟨33 * 10 ^ 22⟩ ⟨67 * 10 ^ 22⟩

/-- The weight of the seigniorage is kept, and the tax rate is lowered by the largest step. -/
theorem onTarget_complete :
    updateTaxPolicy onTarget =
      .ok ({ onTarget with store := setTaxRate onTarget.store (nextRate onTarget) }, nextRate onTarget) ∧
    updateRewardPolicy onTarget =
      .ok ({ onTarget with store := setRewardWeight onTarget.store (nextWeight onTarget) }, nextWeight onTarget) ∧
    nextRate onTarget = ⟨75 * 10 ^ 13⟩ ∧ nextWeight onTarget = ⟨5 * 10 ^ 16⟩ := by
  have hcomplete := (policies_complete_iff onTarget (by decide +kernel) (by decide)
    (rewarded_stored (by unfold Moderate; decide) (by unfold Moderate; decide))).mpr
    ⟨by decide +kernel, by decide +kernel, by decide +kernel, by decide +kernel, by decide +kernel⟩
  exact ⟨hcomplete.1, hcomplete.2, by decide +kernel⟩

/-- The reward weight has come down to its last digit, one udo left the supply, and three were
paid as taxes. -/
def faintSeigniorage : World :=
  { weekEnd with store := { store with
      params := { defaultParams with rewardPolicy := { defaultRewardPolicy with rateMin := .zero } }
      rewardWeight := some ⟨1⟩
      taxProceeds := some [⟨microDoDenom, 3⟩]
      epochInitialIssuance := some [⟨microDoDenom, 10 ^ 6 + 1⟩] } }

/-- A share that is rounded to zero is divided by, also at the end of a block. -/
theorem faint_share_divided_by :
    (rewarded ⟨3 * 10 ^ 18⟩ ⟨1⟩).store.params.validate = .ok () ∧
    Stored (rewarded ⟨3 * 10 ^ 18⟩ ⟨1⟩).store ∧
    updateRewardPolicy (rewarded ⟨3 * 10 ^ 18⟩ ⟨1⟩) = .panic "division by zero" ∧
    faintSeigniorage.store.params.validate = .ok () ∧
    endBlocker app faintSeigniorage = .panic "division by zero" := by
  refine ⟨by decide +kernel, rewarded_stored (by unfold Moderate; decide) (by unfold Moderate; decide), ?_,
    by decide +kernel, ?_⟩
  all_goals exact Outcome.panicText_eq_some.mp (by decide +kernel)

end Sample

end Treasury
