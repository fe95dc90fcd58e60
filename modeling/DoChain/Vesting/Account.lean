import DoChain.Sdk.Coins

/- Lazy graded vesting accounts (`x/vesting/types/schedule.go` and `vesting_account.go`).

   Correspondence (Go ↔ Lean):
     `Schedule.Validate`                   ↔ `Schedule.validate`
     `VestingSchedule.GetVestedRatio`      ↔ `VestingSchedule.getVestedRatio`
     `VestingSchedule.Validate`            ↔ `VestingSchedule.validate`
     `GetVestingSchedule`                  ↔ `getVestingSchedule`
     `GetVestedCoins`, `GetVestingCoins`   ↔ `getVestedCoins`, `getVestingCoins`
     `LockedCoins`                         ↔ `lockedCoins`
     `LazyGradedVestingAccount.Validate`   ↔ `LazyGradedVestingAccount.validate`
     `BaseVestingAccount.Validate`         ↔ `LazyGradedVestingAccount.baseValidate`

   Times are seconds, as `int64`. Coins are sorted, one for each denomination, and not
   negative: the SDK's check of the account refuses other original coins. Their amounts are
   integers of at most 256 bits (`AmountsFit`).

   The ratios of a denomination are to add up to one, but the sum is rounded to nine digits
   before it is compared, so that it may be above one by half of the ninth digit. Every
   schedule vests at most its ratio, and all of it in the end, so it is the sum that decides
   whether more than the original amount vests: `vested_le_original_iff`. -/

namespace Vesting

open Sdk

/-! ## Schedules -/

structure Schedule where
  startTime : Int
  endTime : Int
  ratio : LegacyDec
  endTime_lt : endTime < 2 ^ 63

def Schedule.validate (s : Schedule) : Outcome String Unit := do
  .failIf (s.startTime < 0) "vesting start-time cannot be negative"
  .failIf (s.endTime < s.startTime) "vesting start-time cannot be before end-time"
  .failIf (s.ratio ≤ .zero) "vesting ratio cannot be smaller than or equal with zero"

structure VestingSchedule where
  denom : String
  schedules : List Schedule

/-- The ratio of a schedule that has started. -/
def Schedule.ratioAt (s : Schedule) (blockTime : Int) : Outcome String LegacyDec :=
  if blockTime < s.endTime then do
    let scaled ← s.ratio.mulInt (blockTime - s.startTime)
    scaled.quoInt64 (s.endTime - s.startTime)
  else .ok s.ratio

/-- The loop of `GetVestedRatio`. -/
def addVested (blockTime : Int) (sumRatio : LegacyDec) : List Schedule → Outcome String LegacyDec
  | [] => .ok sumRatio
  | s :: rest =>
    if blockTime < s.startTime then addVested blockTime sumRatio rest
    else do
      let ratio ← s.ratioAt blockTime
      let sumRatio ← sumRatio.add ratio
      addVested blockTime sumRatio rest

def VestingSchedule.getVestedRatio (vs : VestingSchedule) (blockTime : Int) : Outcome String LegacyDec :=
  addVested blockTime .zero vs.schedules

/-- The loop of `Validate`. -/
def addValid (sumRatio : LegacyDec) : List Schedule → Outcome String LegacyDec
  | [] => .ok sumRatio
  | s :: rest => do
    s.validate
    let sumRatio ← sumRatio.add s.ratio
    addValid sumRatio rest

def fixedPointDecimals : Int := 1000000000

/-- `RoundInt64`. -/
def roundInt64 (d : LegacyDec) : Outcome String Int := int64 (LegacyDec.chopPrecisionAndRound d.i)

def VestingSchedule.validate (vs : VestingSchedule) : Outcome String Unit := do
  let sumRatio ← addValid .zero vs.schedules
  let scaled ← sumRatio.mulInt fixedPointDecimals
  let rounded ← roundInt64 scaled
  let total ← (LegacyDec.ofInt rounded).quoInt64 fixedPointDecimals
  .failIf (total ≠ .one) "vesting total ratio must be one"

/-! ## Accounts -/

structure LazyGradedVestingAccount where
  originalVesting : CoinSet
  delegatedVesting : CoinSet
  endTime : Int
  vestingSchedules : List VestingSchedule
  /-- what `BaseAccount.Validate` returns -/
  baseAccount : Outcome String Unit

namespace LazyGradedVestingAccount

variable (acc : LazyGradedVestingAccount)

def getVestingSchedule (denom : String) : Option VestingSchedule :=
  acc.vestingSchedules.find? (fun vs => vs.denom = denom)

/-- The coin that is appended to the vested ones; a zero amount is skipped. -/
def appended (denom : String) (vestedAmt : Int) : Outcome String Coins :=
  if vestedAmt = 0 then .ok []
  else do
    let coin ← newCoin denom vestedAmt
    .ok [coin]

/-- One original coin: what is vested of it, if anything. -/
def vestedCoin (blockTime : Int) (denom : String) (amount : Nat) : Outcome String Coins :=
  match acc.getVestingSchedule denom with
  | some vestingSchedule => do
    let vestedRatio ← vestingSchedule.getVestedRatio blockTime
    let product ← (LegacyDec.ofInt amount).mul vestedRatio
    let vestedAmt ← product.roundInt
    appended denom vestedAmt
  | none => do
    let coin ← newCoin denom amount
    .ok [coin]

def vestedCoins (blockTime : Int) : List (String × Nat) → Outcome String Coins
  | [] => .ok []
  | e :: rest => do
    let coin ← acc.vestedCoin blockTime e.1 e.2
    let coins ← vestedCoins blockTime rest
    .ok (coin ++ coins)

def getVestedCoins (blockTime : Int) : Outcome String Coins :=
  acc.vestedCoins blockTime acc.originalVesting.entries

def getVestingCoins (blockTime : Int) : Outcome String CoinSet := do
  let vested ← acc.getVestedCoins blockTime
  CoinSet.sub acc.originalVesting vested

/-- `LockedCoinsFromVesting` of the vesting coins. -/
def lockedCoins (blockTime : Int) : Outcome String CoinSet := do
  let vesting ← acc.getVestingCoins blockTime
  CoinSet.sub vesting (CoinSet.min vesting acc.delegatedVesting)

/-- The loop of `Validate`, with the denominations seen so far. -/
def validateSchedules (denomMap : List String) : List VestingSchedule → Outcome String Unit
  | [] => .ok ()
  | vs :: rest => do
    .failIf (vs.denom ∈ denomMap) ("cannot have multiple vesting schedules for " ++ vs.denom)
    vs.validate
    validateSchedules (vs.denom :: denomMap) rest

def baseValidate : Outcome String Unit := do
  .failIf (acc.endTime < 0) "end time cannot be negative"
  .failIf (acc.originalVesting.entries = [] ∨
      ¬ ∀ e ∈ acc.originalVesting.entries, validDenom e.1 = true ∧ 0 < e.2)
    ("invalid coins: " ++ String.intercalate ","
      (acc.originalVesting.entries.map fun e => toString e.2 ++ e.1))
  .failIf (¬ ∀ e ∈ acc.delegatedVesting.entries, e.2 ≤ (acc.originalVesting.get e.1).getD 0)
    "delegated vesting amount cannot be greater than the original vesting amount"
  acc.baseAccount

def validate : Outcome String Unit := do
  validateSchedules [] acc.vestingSchedules
  acc.baseValidate

end LazyGradedVestingAccount

/-! ## Valid schedules -/

structure Schedule.Valid (s : Schedule) : Prop where
  start_nonneg : 0 ≤ s.startTime
  start_le_end : s.startTime ≤ s.endTime
  ratio_pos : 0 < s.ratio.i

theorem Schedule.validate_eq_ok {s : Schedule} : s.validate = .ok () ↔ s.Valid := by
  simp only [Schedule.validate, Outcome.check_bind_eq_ok, Outcome.failIf_eq_ok, not_lt]
  refine ⟨?_, ?_⟩
  · intro h
    exact ⟨h.1, h.2.1, Int.not_le.mp h.2.2⟩
  · intro h
    exact ⟨h.start_nonneg, h.start_le_end, Int.not_le.mpr h.ratio_pos⟩

/-- The sum of the ratios. -/
def ratioSum (l : List Schedule) : Int := (l.map fun s => s.ratio.i).sum

@[simp] theorem ratioSum_cons (s : Schedule) (l : List Schedule) :
    ratioSum (s :: l) = s.ratio.i + ratioSum l := by
  simp [ratioSum]

theorem addValid_inv {l : List Schedule} {d t : LegacyDec} (h : addValid d l = .ok t) :
    (∀ s ∈ l, s.Valid) ∧ t.i = d.i + ratioSum l := by
  induction l generalizing d with
  | nil =>
    cases h
    simp [ratioSum]
  | cons s rest ih =>
    obtain ⟨hs, h⟩ := Outcome.check_bind_eq_ok.mp h
    obtain ⟨sum, hsum, h⟩ := Outcome.bind_eq_ok.mp h
    obtain ⟨_, rfl⟩ := LegacyDec.check_eq_ok.mp hsum
    obtain ⟨hrest, ht⟩ := ih h
    refine ⟨List.forall_mem_cons.mpr ⟨Schedule.validate_eq_ok.mp hs, hrest⟩, ?_⟩
    rw [ht, ratioSum_cons]
    exact add_assoc _ _ _

/-- Schedules that are accepted: the sum of the ratios is one, up to half of the ninth
digit. -/
structure VestingSchedule.Valid (vs : VestingSchedule) : Prop where
  valid : ∀ s ∈ vs.schedules, s.Valid
  low : 10 ^ 18 - 5 * 10 ^ 8 ≤ ratioSum vs.schedules
  high : ratioSum vs.schedules ≤ 10 ^ 18 + 5 * 10 ^ 8

theorem VestingSchedule.validate_inv {vs : VestingSchedule} (h : vs.validate = .ok ()) : vs.Valid := by
  obtain ⟨sum, hsum, h⟩ := Outcome.bind_eq_ok.mp h
  obtain ⟨scaled, hscaled, h⟩ := Outcome.bind_eq_ok.mp h
  obtain ⟨rounded, hrounded, h⟩ := Outcome.bind_eq_ok.mp h
  obtain ⟨total, htotal, h⟩ := Outcome.bind_eq_ok.mp h
  obtain ⟨hvalid, hsum⟩ := addValid_inv hsum
  obtain ⟨_, hscaled⟩ := LegacyDec.check_eq_ok.mp hscaled
  rw [hscaled] at hrounded
  have hone : total = .one := not_not.mp (Outcome.failIf_eq_ok.mp h)
  have hround : rounded = LegacyDec.chopPrecisionAndRound (sum.i * fixedPointDecimals) :=
    (int64_eq_ok.mp hrounded).2
  have hnine : rounded = 10 ^ 9 := by
    have hquo : total.i = (rounded * 10 ^ 18).tdiv (10 ^ 9) := by
      cases htotal
      rfl
    have hmul : rounded * 10 ^ 18 = rounded * 10 ^ 9 * 10 ^ 9 := by ring
    rw [hone, hmul, Int.mul_tdiv_cancel _ (by norm_num)] at hquo
    change (10 ^ 18 : Int) = _ at hquo
    omega
  have hlow := HalfEven.le_two_mul_div (sum.i * fixedPointDecimals) LegacyDec.precision_pos
  have hhigh := HalfEven.two_mul_div_le (sum.i * fixedPointDecimals) LegacyDec.precision_pos
  have hdiv : HalfEven.div (sum.i * fixedPointDecimals) LegacyDec.precision = 10 ^ 9 := hround.symm.trans hnine
  have hprec : (LegacyDec.precision : Int) = 10 ^ 18 := rfl
  have hzero : LegacyDec.zero.i = 0 := rfl
  rw [hdiv, hprec, fixedPointDecimals] at hlow hhigh
  rw [hzero, zero_add] at hsum
  exact ⟨hvalid, by omega, by omega⟩

/-! ## The vested ratio -/

/-- The ratio of a schedule that is vested at a time. -/
def Schedule.vested (s : Schedule) (blockTime : Int) : Int :=
  if blockTime < s.startTime then 0
  else if blockTime < s.endTime then
    (s.ratio.i * (blockTime - s.startTime)).tdiv (s.endTime - s.startTime)
  else s.ratio.i

namespace Schedule

variable {s : Schedule} {blockTime : Int}

theorem vested_nonneg (h : s.Valid) : 0 ≤ s.vested blockTime := by
  have hratio := h.ratio_pos
  unfold vested
  split_ifs with hstart hend
  · exact Int.le_refl 0
  · exact Int.tdiv_nonneg (Int.mul_nonneg hratio.le (by omega)) (by omega)
  · exact hratio.le

/-- A part of the time vests a part of the ratio. -/
theorem vested_le (h : s.Valid) : s.vested blockTime ≤ s.ratio.i := by
  have hratio := h.ratio_pos
  unfold vested
  split_ifs with hstart hend
  · exact hratio.le
  · have hpart : 0 ≤ s.ratio.i * (blockTime - s.startTime) := Int.mul_nonneg hratio.le (by omega)
    rw [Int.tdiv_eq_ediv_of_nonneg hpart]
    apply Int.ediv_le_of_le_mul (by omega)
    exact Int.mul_le_mul_of_nonneg_left (by omega) hratio.le
  · exact Int.le_refl _

theorem ratioAt_eq (h : s.Valid) (hsmall : s.ratio.i ≤ 2 * 10 ^ 18) (hstart : ¬ blockTime < s.startTime) :
    s.ratioAt blockTime = .ok ⟨s.vested blockTime⟩ := by
  have hratio := h.ratio_pos
  unfold ratioAt vested
  rw [if_neg hstart]
  split_ifs with hend
  · have hspan : blockTime - s.startTime ≤ 2 ^ 63 := by
      have := s.endTime_lt
      have := h.start_nonneg
      omega
    have hfits : LegacyDec.Fits (s.ratio.i * (blockTime - s.startTime)) := by
      have hle : s.ratio.i * (blockTime - s.startTime) ≤ 2 * 10 ^ 18 * 2 ^ 63 :=
        Int.mul_le_mul hsmall hspan (by omega) (by norm_num)
      have hpart : 0 ≤ s.ratio.i * (blockTime - s.startTime) := Int.mul_nonneg hratio.le (by omega)
      rw [LegacyDec.fits_iff]
      omega
    rw [LegacyDec.mulInt, LegacyDec.check, if_pos hfits, Outcome.ok_bind, LegacyDec.quoInt64,
      if_neg (by omega)]
  · rfl

end Schedule

/-- The sum of the vested ratios. -/
def vestedSum (blockTime : Int) (l : List Schedule) : Int := (l.map fun s => s.vested blockTime).sum

theorem vestedSum_nonneg {l : List Schedule} (h : ∀ s ∈ l, s.Valid) (blockTime : Int) :
    0 ≤ vestedSum blockTime l := by
  apply List.sum_map_nonneg
  intro s hs
  exact Schedule.vested_nonneg (h s hs)

theorem vestedSum_le {l : List Schedule} (h : ∀ s ∈ l, s.Valid) (blockTime : Int) :
    vestedSum blockTime l ≤ ratioSum l :=
  List.sum_le_sum fun s hs => Schedule.vested_le (h s hs)

/-- After the end of all schedules every ratio is vested as a whole. -/
theorem vestedSum_ended {l : List Schedule} (h : ∀ s ∈ l, s.Valid) {blockTime : Int}
    (hend : ∀ s ∈ l, s.endTime ≤ blockTime) : vestedSum blockTime l = ratioSum l := by
  unfold vestedSum ratioSum
  congr 1
  apply List.map_congr_left
  intro s hs
  have hle := hend s hs
  have hstart := (h s hs).start_le_end
  rw [Schedule.vested, if_neg (by omega), if_neg (by omega)]

theorem vestedSum_last {l : List Schedule} (h : ∀ s ∈ l, s.Valid) :
    vestedSum (2 ^ 63 - 1) l = ratioSum l :=
  vestedSum_ended h fun s _ => Int.le_sub_one_of_lt s.endTime_lt

/-- The loop adds the vested ratios; none of its steps is out of range. -/
theorem addVested_eq {l : List Schedule} (h : ∀ s ∈ l, s.Valid) {d : LegacyDec} (hd : 0 ≤ d.i)
    (hsum : d.i + ratioSum l ≤ 2 * 10 ^ 18) (blockTime : Int) :
    addVested blockTime d l = .ok ⟨d.i + vestedSum blockTime l⟩ := by
  induction l generalizing d with
  | nil => simp [addVested, vestedSum]
  | cons s rest ih =>
    obtain ⟨hs, hrest⟩ := List.forall_mem_cons.mp h
    have hratio := hs.ratio_pos
    have hle : s.vested blockTime ≤ s.ratio.i := Schedule.vested_le hs
    have hnonneg : 0 ≤ s.vested blockTime := Schedule.vested_nonneg hs
    have hothers : 0 ≤ ratioSum rest := le_trans (vestedSum_nonneg hrest 0) (vestedSum_le hrest 0)
    have hcons : vestedSum blockTime (s :: rest) = s.vested blockTime + vestedSum blockTime rest := by
      simp [vestedSum]
    rw [ratioSum_cons] at hsum
    rw [addVested, hcons]
    split_ifs with hstart
    · have hzero : s.vested blockTime = 0 := by rw [Schedule.vested, if_pos hstart]
      rw [ih hrest hd (by omega), hzero, zero_add]
    · have hfits : LegacyDec.Fits (d.i + s.vested blockTime) := by
        rw [LegacyDec.fits_iff]
        omega
      have hadd : d.add ⟨s.vested blockTime⟩ = (.ok ⟨d.i + s.vested blockTime⟩ : Outcome String LegacyDec) :=
        LegacyDec.check_eq_ok.mpr ⟨hfits, rfl⟩
      have hnext : 0 ≤ d.i + s.vested blockTime := by omega
      have hbound : d.i + s.vested blockTime + ratioSum rest ≤ 2 * 10 ^ 18 := by omega
      rw [Schedule.ratioAt_eq hs (by omega) hstart, Outcome.ok_bind, hadd, Outcome.ok_bind,
        ih hrest hnext hbound, add_assoc]

theorem VestingSchedule.Valid.getVestedRatio_eq {vs : VestingSchedule} (h : vs.Valid) (blockTime : Int) :
    vs.getVestedRatio blockTime = .ok ⟨vestedSum blockTime vs.schedules⟩ := by
  have hzero : LegacyDec.zero.i = 0 := rfl
  have hbound : LegacyDec.zero.i + ratioSum vs.schedules ≤ 2 * 10 ^ 18 := by
    have hhigh := h.high
    omega
  rw [VestingSchedule.getVestedRatio, addVested_eq h.valid hzero.ge hbound, hzero, zero_add]

/-! ## Vested coins -/

/-- A rounded amount, and the coin made of it. -/
def vestedAmount (amount : Nat) (ratio : Int) : Int := HalfEven.div (amount * ratio) LegacyDec.precision

namespace LazyGradedVestingAccount

variable {acc : LazyGradedVestingAccount} {blockTime : Int} {denom : String} {amount : Nat}

theorem appended_eq {v : Int} (hdenom : validDenom denom = true) (hv : 0 ≤ v) :
    appended denom v = .ok (if v = 0 then [] else [⟨denom, v⟩]) := by
  unfold appended
  split_ifs
  · rfl
  · rw [newCoin_eq_ok.mpr ⟨hdenom, hv, rfl⟩, Outcome.ok_bind]

/-- What is vested of a coin with a schedule: the rounded amount, if it has at most 256 bits. The
product it is rounded from is then in range. -/
theorem vestedCoin_eq_ok {vs : VestingSchedule} (hfind : acc.getVestingSchedule denom = some vs)
    (hvs : vs.Valid) (hdenom : validDenom denom = true) {coins : Coins} :
    acc.vestedCoin blockTime denom amount = .ok coins ↔
      (vestedAmount amount (vestedSum blockTime vs.schedules)).natAbs < 2 ^ 256 ∧
      coins = if vestedAmount amount (vestedSum blockTime vs.schedules) = 0 then []
        else [⟨denom, vestedAmount amount (vestedSum blockTime vs.schedules)⟩] := by
  have hnonneg : 0 ≤ vestedAmount amount (vestedSum blockTime vs.schedules) :=
    HalfEven.div_nonneg (Int.mul_nonneg (Int.natCast_nonneg _) (vestedSum_nonneg hvs.valid _))
  simp only [vestedCoin, hfind, hvs.getVestedRatio_eq, Outcome.ok_bind, LegacyDec.mul, LegacyDec.mulRaw_ofInt,
    Outcome.bind_eq_ok (α := LegacyDec), LegacyDec.check_eq_ok]
  refine ⟨?_, ?_⟩
  · intro h
    obtain ⟨product, ⟨_, rfl⟩, h⟩ := h
    obtain ⟨v, hv, h⟩ := Outcome.bind_eq_ok.mp h
    obtain ⟨hbits, rfl⟩ := checkInt_eq_ok.mp hv
    refine ⟨hbits, ?_⟩
    exact Outcome.ok.inj (h.symm.trans (appended_eq hdenom hnonneg))
  · intro h
    obtain ⟨hbits, rfl⟩ := h
    refine ⟨_, ⟨LegacyDec.fits_of_round_lt hbits, rfl⟩, Outcome.bind_eq_ok.mpr ⟨_, checkInt_eq_ok.mpr ⟨hbits, rfl⟩, ?_⟩⟩
    exact appended_eq hdenom hnonneg

/-- The vested coins are those of the original ones, one after another. -/
theorem vestedCoins_inv {es : List (String × Nat)} {coins : Coins} (h : acc.vestedCoins blockTime es = .ok coins)
    {e : String × Nat} (he : e ∈ es) :
    ∃ part, acc.vestedCoin blockTime e.1 e.2 = .ok part ∧ part ⊆ coins := by
  induction es generalizing coins with
  | nil => cases he
  | cons x rest ih =>
    obtain ⟨part, hpart, h⟩ := Outcome.bind_eq_ok.mp h
    obtain ⟨others, hothers, h⟩ := Outcome.bind_eq_ok.mp h
    cases h
    cases he with
    | head => exact ⟨part, hpart, List.subset_append_left _ _⟩
    | tail _ hrest =>
      obtain ⟨part', hpart', hsub⟩ := ih hothers hrest
      exact ⟨part', hpart', List.Subset.trans hsub (List.subset_append_right _ _)⟩

/-- Nothing, or a coin of at most the original amount. -/
def AtMost (e : String × Nat) (part : Coins) : Prop :=
  part = [] ∨ ∃ v : Int, v ≤ e.2 ∧ part = [⟨e.1, v⟩]

theorem vestedCoins_ok {es : List (String × Nat)}
    (h : ∀ e ∈ es, ∃ part, acc.vestedCoin blockTime e.1 e.2 = .ok part ∧ AtMost e part) :
    ∃ coins, acc.vestedCoins blockTime es = .ok coins ∧
      (coins.map Coin.denom).Sublist (es.map Prod.fst) ∧
      ∀ c ∈ coins, ∃ e ∈ es, c.denom = e.1 ∧ c.amount ≤ e.2 := by
  induction es with
  | nil => exact ⟨[], rfl, .refl _, fun c hc => nomatch hc⟩
  | cons x rest ih =>
    obtain ⟨⟨part, hpart, hmost⟩, hrest⟩ := List.forall_mem_cons.mp h
    obtain ⟨others, hothers, hsub, hbound⟩ := ih hrest
    have hbound' : ∀ c ∈ others, ∃ e ∈ x :: rest, c.denom = e.1 ∧ c.amount ≤ e.2 := by
      intro c hc
      obtain ⟨e, he, hle⟩ := hbound c hc
      exact ⟨e, List.mem_cons_of_mem _ he, hle⟩
    refine ⟨part ++ others, ?_, ?_, ?_⟩
    · rw [vestedCoins, hpart, Outcome.ok_bind, hothers, Outcome.ok_bind]
    · rcases hmost with rfl | ⟨v, _, rfl⟩
      · exact hsub.cons _
      · exact hsub.cons_cons _
    · rcases hmost with rfl | ⟨v, hv, rfl⟩
      · exact hbound'
      · intro c hc
        rcases List.mem_cons.mp hc with rfl | hc
        · exact ⟨x, List.mem_cons_self, rfl, hv⟩
        · exact hbound' c hc

/-! ## Valid accounts -/

theorem validateSchedules_inv {denomMap : List String} {l : List VestingSchedule}
    (h : validateSchedules denomMap l = .ok ()) :
    (∀ vs ∈ l, vs.Valid ∧ vs.denom ∉ denomMap) ∧ (l.map VestingSchedule.denom).Nodup := by
  induction l generalizing denomMap with
  | nil => exact ⟨fun vs hvs => (nomatch hvs), List.nodup_nil⟩
  | cons vs rest ih =>
    obtain ⟨hnew, h⟩ := Outcome.check_bind_eq_ok.mp h
    obtain ⟨hvs, h⟩ := Outcome.check_bind_eq_ok.mp h
    obtain ⟨hrest, hnodup⟩ := ih h
    refine ⟨?_, ?_⟩
    · intro vs' hvs'
      rcases List.mem_cons.mp hvs' with rfl | hvs'
      · exact ⟨VestingSchedule.validate_inv hvs, Outcome.failIf_eq_ok.mp hnew⟩
      · exact ⟨(hrest vs' hvs').1, fun hmem => (hrest vs' hvs').2 (List.mem_cons_of_mem _ hmem)⟩
    · rw [List.map_cons, List.nodup_cons]
      refine ⟨?_, hnodup⟩
      intro hmem
      obtain ⟨vs', hvs', heq⟩ := List.mem_map.mp hmem
      exact (hrest vs' hvs').2 (heq ▸ List.mem_cons_self)

structure Valid (acc : LazyGradedVestingAccount) : Prop where
  schedules : ∀ vs ∈ acc.vestingSchedules, vs.Valid
  nodup : (acc.vestingSchedules.map VestingSchedule.denom).Nodup
  original : ∀ e ∈ acc.originalVesting.entries, validDenom e.1 = true

theorem validate_inv (h : acc.validate = .ok ()) : acc.Valid := by
  obtain ⟨hschedules, h⟩ := Outcome.check_bind_eq_ok.mp h
  obtain ⟨_, h⟩ := Outcome.check_bind_eq_ok.mp h
  obtain ⟨horiginal, _⟩ := Outcome.check_bind_eq_ok.mp h
  obtain ⟨hvalid, hnodup⟩ := validateSchedules_inv hschedules
  obtain ⟨_, hcoins⟩ := not_or.mp (Outcome.failIf_eq_ok.mp horiginal)
  exact ⟨fun vs hvs => (hvalid vs hvs).1, hnodup, fun e he => (not_not.mp hcoins e he).1⟩

/-- The denominations differ, so the first schedule found is the one. -/
theorem Valid.getVestingSchedule_eq (h : acc.Valid) {vs : VestingSchedule} (hvs : vs ∈ acc.vestingSchedules) :
    acc.getVestingSchedule vs.denom = some vs := by
  cases hfind : acc.getVestingSchedule vs.denom with
  | none => simpa using List.find?_eq_none.mp hfind vs hvs
  | some vs' =>
    have hdenom : vs'.denom = vs.denom := by simpa using List.find?_some hfind
    rw [List.inj_on_of_nodup_map h.nodup (List.mem_of_find?_eq_some hfind) hvs hdenom]

end LazyGradedVestingAccount

/-! ## When no more than the original amount vests -/

/-- An amount of which the ratios vest no more than there is: what their sum is above one is
rounded off. -/
def Covers (amount : Nat) (sum : Int) : Prop :=
  2 * amount * (sum - 10 ^ 18) < 10 ^ 18 ∨ (2 * amount * (sum - 10 ^ 18) = 10 ^ 18 ∧ amount % 2 = 0)

instance (amount : Nat) (sum : Int) : Decidable (Covers amount sum) := by
  unfold Covers
  infer_instance

theorem vestedAmount_le_iff {amount : Nat} {sum : Int} (hsum : 0 ≤ sum) :
    vestedAmount amount sum ≤ amount ↔ Covers amount sum := by
  have hprec : (LegacyDec.precision : Int) = 10 ^ 18 := rfl
  have hleft : 2 * ((amount : Int) * sum) = 2 * amount * (sum - 10 ^ 18) + 2 * amount * 10 ^ 18 := by ring
  have hright : (2 * (amount : Int) + 1) * 10 ^ 18 = 10 ^ 18 + 2 * amount * 10 ^ 18 := by ring
  rw [Covers, vestedAmount, HalfEven.div_le_iff amount (Int.mul_nonneg (Int.natCast_nonneg _) hsum)
    LegacyDec.precision_pos, hprec, hleft, hright, add_lt_add_iff_right, add_left_inj]

namespace LazyGradedVestingAccount

variable {acc : LazyGradedVestingAccount}

/-- The original amounts are integers of at most 256 bits. -/
def AmountsFit (acc : LazyGradedVestingAccount) : Prop := ∀ e ∈ acc.originalVesting.entries, e.2 < 2 ^ 256

/-- Each original coin with a schedule is covered. -/
def WithinOriginal (acc : LazyGradedVestingAccount) : Prop :=
  ∀ vs ∈ acc.vestingSchedules, ∀ amount, acc.originalVesting.get vs.denom = some amount →
    Covers amount (ratioSum vs.schedules)

/-- A covered coin vests at most its amount, at any time. -/
theorem vestedCoin_atMost {vs : VestingSchedule} {denom : String} {amount : Nat}
    (hfind : acc.getVestingSchedule denom = some vs) (hvs : vs.Valid) (hdenom : validDenom denom = true)
    (hbits : amount < 2 ^ 256) (hcovers : Covers amount (ratioSum vs.schedules)) (blockTime : Int) :
    ∃ part, acc.vestedCoin blockTime denom amount = .ok part ∧ AtMost (denom, amount) part := by
  have hlow := hvs.low
  have hnonneg := vestedSum_nonneg hvs.valid blockTime
  have hle := Int.mul_le_mul_of_nonneg_left (vestedSum_le hvs.valid blockTime) (Int.natCast_nonneg amount)
  have hmost : vestedAmount amount (vestedSum blockTime vs.schedules) ≤ amount :=
    (HalfEven.div_mono LegacyDec.precision_pos hle).trans ((vestedAmount_le_iff (by omega)).mpr hcovers)
  have hzero : 0 ≤ vestedAmount amount (vestedSum blockTime vs.schedules) :=
    HalfEven.div_nonneg (Int.mul_nonneg (Int.natCast_nonneg _) hnonneg)
  refine ⟨_, (vestedCoin_eq_ok hfind hvs hdenom).mpr ⟨by omega, rfl⟩, ?_⟩
  split_ifs
  · exact .inl rfl
  · exact .inr ⟨_, hmost, rfl⟩

/-- At the end of all schedules a coin is vested by the sum of its ratios. -/
theorem covers_of_vested {vs : VestingSchedule} {denom : String} {amount : Nat}
    (hfind : acc.getVestingSchedule denom = some vs) (hvs : vs.Valid) (hdenom : validDenom denom = true)
    {part : Coins} (hpart : acc.vestedCoin (2 ^ 63 - 1) denom amount = .ok part)
    (hle : ∀ c ∈ part, c.denom = denom → c.amount ≤ amount) : Covers amount (ratioSum vs.schedules) := by
  have hlow := hvs.low
  obtain ⟨_, rfl⟩ := (vestedCoin_eq_ok hfind hvs hdenom).mp hpart
  rw [vestedSum_last hvs.valid] at hle
  apply (vestedAmount_le_iff (by omega)).mp
  split_ifs at hle with hzero
  · omega
  · exact hle _ (List.mem_singleton_self _) rfl

/-- At every time at most the original coins are vested, and the vesting and the locked coins
can be computed, exactly if each original coin with a schedule is covered. -/
theorem vested_le_original_iff (acc : LazyGradedVestingAccount) (hvalid : acc.validate = .ok ())
    (hamounts : acc.AmountsFit) :
    (∀ blockTime, ∃ vested vesting locked, acc.getVestedCoins blockTime = .ok vested ∧
      (∀ c ∈ vested, c.amount ≤ (acc.originalVesting.get c.denom).getD 0) ∧
      acc.getVestingCoins blockTime = .ok vesting ∧ acc.lockedCoins blockTime = .ok locked) ↔
    acc.WithinOriginal := by
  have hacc := validate_inv hvalid
  refine ⟨?_, ?_⟩
  · intro h vs hvs amount hamount
    obtain ⟨vested, _, _, hvested, hle, _⟩ := h (2 ^ 63 - 1)
    have he := SortedMap.get_eq_some.mp hamount
    obtain ⟨part, hpart, hsub⟩ := vestedCoins_inv hvested he
    refine covers_of_vested (hacc.getVestingSchedule_eq hvs) (hacc.schedules vs hvs) (hacc.original _ he)
      hpart ?_
    intro c hc hdenom
    have hcoin := hle c (hsub hc)
    rw [hdenom, hamount] at hcoin
    exact hcoin
  · intro h blockTime
    have hparts : ∀ e ∈ acc.originalVesting.entries,
        ∃ part, acc.vestedCoin blockTime e.1 e.2 = .ok part ∧ AtMost e part := by
      intro e he
      cases hfind : acc.getVestingSchedule e.1 with
      | none =>
        refine ⟨[⟨e.1, e.2⟩], ?_, .inr ⟨e.2, Int.le_refl _, rfl⟩⟩
        rw [vestedCoin, hfind]
        show (newCoin e.1 e.2 >>= fun coin => .ok [coin]) = _
        rw [newCoin_eq_ok.mpr ⟨hacc.original e he, Int.natCast_nonneg _, rfl⟩, Outcome.ok_bind]
      | some vs =>
        have hvs := List.mem_of_find?_eq_some hfind
        have hdenom : vs.denom = e.1 := by simpa using List.find?_some hfind
        exact vestedCoin_atMost hfind (hacc.schedules vs hvs) (hacc.original e he) (hamounts e he)
          (h vs hvs e.2 (hdenom ▸ SortedMap.get_eq_some.mpr he)) blockTime
    obtain ⟨vested, hvested, hsub, hbound⟩ := vestedCoins_ok hparts
    have hle : ∀ c ∈ vested, c.amount ≤ (acc.originalVesting.get c.denom).getD 0 := by
      intro c hc
      obtain ⟨e, he, hdenom, hamount⟩ := hbound c hc
      rw [hdenom, SortedMap.get_eq_some.mpr he]
      exact hamount
    obtain ⟨vesting, hvesting⟩ := CoinSet.sub_ok (ε := String) (acc.originalVesting.keys_nodup.sublist hsub) hle
    obtain ⟨locked, hlocked⟩ := CoinSet.sub_min_ok (ε := String) vesting acc.delegatedVesting
    have hvesting' : acc.getVestingCoins blockTime = .ok vesting :=
      Outcome.bind_eq_ok.mpr ⟨vested, hvested, hvesting⟩
    exact ⟨vested, vesting, locked, hvested, hle, hvesting',
      Outcome.bind_eq_ok.mpr ⟨vesting, hvesting', hlocked⟩⟩

namespace Sample

/-- An account with one schedule, from time 0 to 100. -/
def account (amount : Nat) (ratio : LegacyDec) : LazyGradedVestingAccount where
  originalVesting := SortedMap.empty.set "udo" amount
  delegatedVesting := SortedMap.empty
  endTime := 0
  vestingSchedules := [⟨"udo", [⟨0, 100, ratio, by norm_num⟩]⟩]
  baseAccount := .ok ()

theorem account_fits (ratio : LegacyDec) : (account (10 ^ 10) ratio).AmountsFit := by
  intro e he
  obtain rfl := List.mem_singleton.mp he
  norm_num

/-- With a ratio of one, the coins of an account are never exceeded. -/
theorem whole_ratio_within :
    ∃ vested vesting locked, (account (10 ^ 10) .one).getVestedCoins 50 = .ok vested ∧
      (∀ c ∈ vested, c.amount ≤ ((account (10 ^ 10) .one).originalVesting.get c.denom).getD 0) ∧
      (account (10 ^ 10) .one).getVestingCoins 50 = .ok vesting ∧
      (account (10 ^ 10) .one).lockedCoins 50 = .ok locked :=
  (vested_le_original_iff (account (10 ^ 10) .one) (by decide +kernel) (account_fits _)).mpr (by
    intro vs hvs amount hamount
    obtain rfl := List.mem_singleton.mp hvs
    obtain rfl : 10 ^ 10 = amount := Option.some.inj hamount
    decide +kernel) 50

/-- The ratio 1.0000000004 is accepted, and four coins more vest than there are: the coins
that are still vesting cannot be computed. -/
theorem ratio_above_one_vests_more :
    let acc := account (10 ^ 10) ⟨10 ^ 18 + 4 * 10 ^ 8⟩
    acc.validate = .ok () ∧ acc.getVestedCoins 100 = .ok [⟨"udo", 10 ^ 10 + 4⟩] ∧
      acc.getVestingCoins 100 = .panic "negative coin amount" ∧
      acc.lockedCoins 100 = .panic "negative coin amount" := by
  decide +kernel

end Sample

end LazyGradedVestingAccount

end Vesting
