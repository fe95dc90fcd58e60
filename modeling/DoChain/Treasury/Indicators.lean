import DoChain.Treasury.Policy
import Mathlib.Algebra.BigOperators.Intervals

/- Sums and averages of an indicator over a window (`x/treasury/keeper/indicator.go`).

   The loop of `sumIndicator` and `rollingAverageIndicator` runs downwards from the
   current epoch; the number of epochs of an average is read off its counter. `sumEpochs_eq`
   says what the loop returns: the sum over the epochs above its bound, if every running sum
   is in the range of a decimal, and else a panic.

   `rolling_average` says what the two functions return for a window that is an `int64` and
   not negative, and that no epoch out of the window is read. -/

namespace Treasury

open Sdk

/-! ## Windows -/

/-- The sum of the values of the last `n` epochs before `next`. -/
def windowSum (value : Nat → LegacyDec) (next n : Nat) : Int := ∑ e ∈ Finset.Ico (next - n) next, (value e).i

@[simp] theorem windowSum_zero (value : Nat → LegacyDec) (next : Nat) : windowSum value next 0 = 0 := by
  rw [windowSum, Nat.sub_zero, Finset.Ico_self, Finset.sum_empty]

theorem windowSum_succ (value : Nat → LegacyDec) (next n : Nat) :
    windowSum value (next + 1) (n + 1) = (value next).i + windowSum value next n := by
  rw [windowSum, Nat.add_sub_add_right, Finset.sum_Ico_succ_top (Nat.sub_le next n), add_comm]
  rfl

/-- No running sum, from the last epoch downwards, leaves the range of a decimal. -/
def RunningFits (value : Nat → LegacyDec) (next n : Nat) (sum : Int) : Prop :=
  ∀ m < n + 1, LegacyDec.Fits (sum + windowSum value next m)
instance (value : Nat → LegacyDec) (next n : Nat) (sum : Int) : Decidable (RunningFits value next n sum) :=
  inferInstanceAs (Decidable (∀ m < n + 1, _))

theorem runningFits_zero {value : Nat → LegacyDec} {next : Nat} {sum : Int} (h : LegacyDec.Fits sum) :
    RunningFits value next 0 sum := by
  intro m hm
  obtain rfl : m = 0 := by omega
  rw [windowSum_zero, add_zero]
  exact h

theorem runningFits_succ {value : Nat → LegacyDec} {next n : Nat} {sum : Int} (h : LegacyDec.Fits sum) :
    RunningFits value (next + 1) (n + 1) sum ↔ RunningFits value next n (sum + (value next).i) := by
  refine ⟨?_, ?_⟩
  · intro hfits m hm
    rw [add_assoc, ← windowSum_succ]
    exact hfits (m + 1) (by omega)
  · intro hfits m hm
    cases m with
    | zero =>
      rw [windowSum_zero, add_zero]
      exact h
    | succ m =>
      rw [windowSum_succ, ← add_assoc]
      exact hfits m (by omega)

/-! ## The loop -/

/-- The number of epochs below `next` that are above the bound. -/
def epochsAbove (stop : Int) (next : Nat) : Nat := ((next : Int) - 1 - max stop (-1)).toNat

theorem epochsAbove_succ {stop : Int} {next : Nat} (h : stop < next) :
    epochsAbove stop (next + 1) = epochsAbove stop next + 1 := by
  unfold epochsAbove
  omega

theorem epochsAbove_eq_zero {stop : Int} {next : Nat} (h : ¬ stop < next) : epochsAbove stop (next + 1) = 0 := by
  unfold epochsAbove
  omega

theorem sumEpochs_eq {indicator : Nat → Outcome SdkError LegacyDec} {value : Nat → LegacyDec} {stop : Int}
    {next : Nat} (hvalue : ∀ e : Nat, stop < e → e < next → indicator e = .ok (value e)) {sum : LegacyDec}
    (hsum : LegacyDec.Fits sum.i) :
    sumEpochs indicator stop next sum =
      if RunningFits value next (epochsAbove stop next) sum.i then
        .ok (⟨sum.i + windowSum value next (epochsAbove stop next)⟩, next - 1 - epochsAbove stop next)
      else .panic "Int overflow" := by
  induction next generalizing sum with
  | zero =>
    have hnone : epochsAbove stop 0 = 0 := by
      unfold epochsAbove
      omega
    rw [hnone, if_pos (runningFits_zero hsum), windowSum_zero, add_zero]
    rfl
  | succ next ih =>
    rw [sumEpochs]
    by_cases hread : stop < next
    · -- the epoch is read, and the loop goes on with the sum so far
      rw [if_pos hread, epochsAbove_succ hread, hvalue next hread (Nat.lt_succ_self next), Outcome.ok_bind,
        LegacyDec.add, LegacyDec.check]
      simp only [runningFits_succ hsum]
      split_ifs with hadd hrest hrest
      · rw [Outcome.ok_bind, ih (fun e habove hlt => hvalue e habove (by omega)) hadd, if_pos hrest, windowSum_succ,
          add_assoc]
        push_cast
        congr 2
        ring
      · rw [Outcome.ok_bind, ih (fun e habove hlt => hvalue e habove (by omega)) hadd, if_neg hrest]
      · have hfirst := hrest 0 (by omega)
        rw [windowSum_zero, add_zero] at hfirst
        exact absurd hfirst hadd
      · rfl
    · rw [if_neg hread, epochsAbove_eq_zero hread, if_pos (runningFits_zero hsum), windowSum_zero, add_zero]
      push_cast
      congr 2
      ring

/-- The loop reads no epoch but those above its bound. -/
theorem sumEpochs_congr {indicator indicator' : Nat → Outcome SdkError LegacyDec} {stop : Int} {next : Nat}
    (h : ∀ e : Nat, stop < e → e < next → indicator e = indicator' e) (sum : LegacyDec) :
    sumEpochs indicator stop next sum = sumEpochs indicator' stop next sum := by
  induction next generalizing sum with
  | zero => rfl
  | succ next ih =>
    rw [sumEpochs, sumEpochs]
    by_cases hread : stop < next
    · rw [if_pos hread, if_pos hread, h next hread (Nat.lt_succ_self next)]
      simp only [ih (fun e habove hlt => h e habove (by omega))]
    · rw [if_neg hread, if_neg hread]

/-! ## A window at a height -/

/-- The number of epochs that a window, as an `int64`, reads. -/
def windowEpochs (w : World) (epochs : Int) : Nat :=
  epochsAbove (wrap64 (getEpoch w - epochs)) (getEpoch w + 1)

/-- The epoch is one of the last `n`. -/
def AmongLast (w : World) (n e : Nat) : Prop := getEpoch w < e + n ∧ e ≤ getEpoch w

theorem among_windowEpochs {w : World} {epochs : Int} {e : Nat} :
    AmongLast w (windowEpochs w epochs) e ↔ wrap64 (getEpoch w - epochs) < e ∧ e < getEpoch w + 1 := by
  unfold AmongLast windowEpochs epochsAbove
  omega

section Window

variable {w : World} {epochs : Int} {indicator : Store → Nat → Outcome SdkError LegacyDec}
  {value : Nat → LegacyDec}

theorem sumEpochs_window
    (hvalue : ∀ e, AmongLast w (windowEpochs w epochs) e → indicator w.store e = .ok (value e)) :
    sumEpochs (indicator w.store) (wrap64 (getEpoch w - epochs)) (getEpoch w + 1) .zero =
      if RunningFits value (getEpoch w + 1) (windowEpochs w epochs) 0 then
        .ok (⟨windowSum value (getEpoch w + 1) (windowEpochs w epochs)⟩, getEpoch w - windowEpochs w epochs)
      else .panic "Int overflow" := by
  have hzero : LegacyDec.Fits LegacyDec.zero.i := LegacyDec.fits_zero
  rw [sumEpochs_eq (fun e habove hlt => hvalue e (among_windowEpochs.mpr ⟨habove, hlt⟩)) hzero]
  have hnext : ((getEpoch w + 1 : Nat) : Int) - 1 = getEpoch w := by omega
  rw [hnext]
  simp only [LegacyDec.zero, zero_add]
  rfl

theorem sumIndicator_eq
    (hvalue : ∀ e, AmongLast w (windowEpochs w epochs) e → indicator w.store e = .ok (value e)) :
    sumIndicator w epochs indicator =
      if RunningFits value (getEpoch w + 1) (windowEpochs w epochs) 0 then
        .ok ⟨windowSum value (getEpoch w + 1) (windowEpochs w epochs)⟩
      else .panic "Int overflow" := by
  rw [sumIndicator, sumEpochs_window hvalue]
  split_ifs <;> rfl

/-- The average of a window; that of an empty one is zero. -/
def windowAverage (value : Nat → LegacyDec) (next n : Nat) : LegacyDec := ⟨(windowSum value next n).tdiv n⟩

theorem rollingAverageIndicator_eq
    (hvalue : ∀ e, AmongLast w (windowEpochs w epochs) e → indicator w.store e = .ok (value e)) :
    rollingAverageIndicator w epochs indicator =
      if RunningFits value (getEpoch w + 1) (windowEpochs w epochs) 0 then
        .ok (windowAverage value (getEpoch w + 1) (windowEpochs w epochs))
      else .panic "Int overflow" := by
  rw [rollingAverageIndicator, sumEpochs_window hvalue]
  split_ifs with hfits
  · -- the counter stopped as many epochs below the current one as were read
    simp only [Outcome.ok_bind, sub_sub_cancel, Int.natCast_eq_zero]
    split_ifs with hempty
    · rw [hempty, windowAverage, windowSum_zero, Int.zero_tdiv]
    · rw [LegacyDec.quoInt64, if_neg (by exact_mod_cast hempty)]
      rfl
  · rfl

/-- Two stores and indicators that agree on the epochs of the window have the same sum and
the same average. -/
theorem window_congr {w' : World} {indicator' : Store → Nat → Outcome SdkError LegacyDec}
    (hepoch : getEpoch w' = getEpoch w)
    (h : ∀ e, AmongLast w (windowEpochs w epochs) e → indicator' w'.store e = indicator w.store e) :
    sumIndicator w' epochs indicator' = sumIndicator w epochs indicator ∧
      rollingAverageIndicator w' epochs indicator' = rollingAverageIndicator w epochs indicator := by
  have hloop : sumEpochs (indicator' w'.store) (wrap64 (getEpoch w - epochs)) (getEpoch w + 1) .zero =
      sumEpochs (indicator w.store) (wrap64 (getEpoch w - epochs)) (getEpoch w + 1) .zero :=
    sumEpochs_congr (fun e habove hlt => h e (among_windowEpochs.mpr ⟨habove, hlt⟩)) _
  simp only [sumIndicator, rollingAverageIndicator, hepoch, hloop, and_self]

end Window

theorem getEpoch_lt {w : World} (hheight : w.market.height < 2 ^ 63) : getEpoch w < 2 ^ 44 := by
  unfold getEpoch World.height blocksPerWeek
  omega

/-- A window that is not negative is as long as it says, up to the first epoch. -/
theorem windowEpochs_eq {w : World} (hheight : w.market.height < 2 ^ 63) {epochs : Int} (hnonneg : 0 ≤ epochs)
    (hint : epochs < 2 ^ 63) : windowEpochs w epochs = min epochs.toNat (getEpoch w + 1) := by
  have hepoch := getEpoch_lt hheight
  unfold windowEpochs epochsAbove
  rw [wrap64_eq (by omega) (by omega)]
  omega

/-- With a window of `epochs`, the last `n` epochs are read, where `n` is the window or, on a
younger chain, all epochs there are. The sum is that of their values and the average its
truncated quotient by `n`, if every running sum is in the range of a decimal; if not, both
functions panic. The average over no epoch is zero. -/
theorem rolling_average (w : World) (epochs : Int) (indicator : Store → Nat → Outcome SdkError LegacyDec)
    (value : Nat → LegacyDec) {n : Nat} (hheight : w.market.height < 2 ^ 63) (hnonneg : 0 ≤ epochs)
    (hint : epochs < 2 ^ 63) (hn : n = min epochs.toNat (getEpoch w + 1))
    (hvalue : ∀ e, AmongLast w n e → indicator w.store e = .ok (value e)) :
    (RunningFits value (getEpoch w + 1) n 0 →
      sumIndicator w epochs indicator = .ok ⟨windowSum value (getEpoch w + 1) n⟩ ∧
      rollingAverageIndicator w epochs indicator = .ok ⟨(windowSum value (getEpoch w + 1) n).tdiv n⟩) ∧
    (¬ RunningFits value (getEpoch w + 1) n 0 →
      sumIndicator w epochs indicator = .panic "Int overflow" ∧
      rollingAverageIndicator w epochs indicator = .panic "Int overflow") ∧
    (epochs = 0 → rollingAverageIndicator w epochs indicator = .ok .zero) ∧
    (∀ w' indicator', w'.market.height = w.market.height →
      (∀ e, AmongLast w n e → indicator' w'.store e = indicator w.store e) →
      sumIndicator w' epochs indicator' = sumIndicator w epochs indicator ∧
      rollingAverageIndicator w' epochs indicator' = rollingAverageIndicator w epochs indicator) := by
  rw [← windowEpochs_eq hheight hnonneg hint] at hn
  subst hn
  rw [sumIndicator_eq hvalue, rollingAverageIndicator_eq hvalue]
  refine ⟨?_, ?_, ?_, ?_⟩
  · intro hfits
    rw [if_pos hfits, if_pos hfits]
    exact ⟨rfl, rfl⟩
  · intro hfits
    rw [if_neg hfits, if_neg hfits]
    exact ⟨rfl, rfl⟩
  · intro hzero
    have hempty : windowEpochs w epochs = 0 := by
      rw [windowEpochs_eq hheight hnonneg hint, hzero, Int.toNat_zero, Nat.zero_min]
    rw [hempty, if_pos (runningFits_zero LegacyDec.fits_zero), windowAverage, windowSum_zero, Int.zero_tdiv]
    rfl
  · intro w' indicator' hsame hagree
    have hepoch : getEpoch w' = getEpoch w := by rw [getEpoch, getEpoch, World.height, World.height, hsame]
    rw [← sumIndicator_eq hvalue, ← rollingAverageIndicator_eq hvalue]
    exact window_congr hepoch hagree

namespace Sample

/-- The second week, with seigniorage rewards in both. -/
def secondWeek (first second : Int) : World where
  store := { store with seigniorageRewards := (SortedMap.empty.set 0 ⟨first⟩).set 1 ⟨second⟩ }
  market := { Market.Sample.stateOf (10 ^ 6) with height := 604800 }
  whitelist := []
  totalBondedTokens := .ok 0

/-- Two decimals whose sum has 257 bits before the point. -/
theorem large_rewards_panic :
    (secondWeek (2 ^ 255 * 10 ^ 18) (2 ^ 255 * 10 ^ 18)).market.height < 2 ^ 63 ∧
    LegacyDec.Fits (2 ^ 255 * 10 ^ 18) ∧
    sumIndicator (secondWeek (2 ^ 255 * 10 ^ 18) (2 ^ 255 * 10 ^ 18)) 2 SR = .panic "Int overflow" ∧
    rollingAverageIndicator (secondWeek (2 ^ 255 * 10 ^ 18) (2 ^ 255 * 10 ^ 18)) 2 SR = .panic "Int overflow" := by
  refine ⟨by decide, by decide +kernel, ?_, ?_⟩
  all_goals exact Outcome.panicText_eq_some.mp (by decide +kernel)

/-- A window of ten weeks in the second week averages the two weeks there are. -/
theorem two_weeks_averaged :
    rollingAverageIndicator (secondWeek 5 8) 10 SR = .ok ⟨6⟩ ∧
    sumIndicator (secondWeek 5 8) 10 SR = .ok ⟨13⟩ := by
  have hsums := (rolling_average (secondWeek 5 8) 10 SR (getSR (secondWeek 5 8).store) (by decide) (by decide)
    (by decide) rfl (fun _ _ => rfl)).1 (by decide +kernel)
  have hsum : windowSum (getSR (secondWeek 5 8).store) (getEpoch (secondWeek 5 8) + 1)
      (min (10 : Int).toNat (getEpoch (secondWeek 5 8) + 1)) = 13 := by decide +kernel
  rw [hsum] at hsums
  exact ⟨hsums.2, hsums.1⟩

end Sample

end Treasury
