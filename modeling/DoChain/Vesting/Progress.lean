import DoChain.Vesting.Account

/- How the coins of a vesting account are released as time goes by.

   What is vested of a coin is a function of the sum of the vested ratios (`vestedOf`), and
   `getVestedCoins` returns these amounts, without the zero ones, whenever none of them needs
   more than 256 bits (`getVestedCoins_eq_ok`).

   Each schedule is a ramp: nothing before its start, the truncated part of the ratio between
   start and end, all of it from the end on. A ramp never falls, sums and the rounding keep
   the order, so that vesting is monotone (`vested_mono`). Whether it completes is decided by
   the sum of the ratios, which is only near one: `vesting_completes_iff`. -/

namespace Vesting

open Sdk

/-! ## The coins vested at a time -/

namespace LazyGradedVestingAccount

variable {acc : LazyGradedVestingAccount} {blockTime : Int} {denom : String}

/-- What is vested of an original coin. -/
def vestedOf (acc : LazyGradedVestingAccount) (blockTime : Int) (e : String × Nat) : Int :=
  match acc.getVestingSchedule e.1 with
  | some vs => vestedAmount e.2 (vestedSum blockTime vs.schedules)
  | none => e.2

/-- The vested amount has at most 256 bits. -/
def InRange (acc : LazyGradedVestingAccount) (blockTime : Int) (e : String × Nat) : Prop :=
  ∀ vs, acc.getVestingSchedule e.1 = some vs →
    (vestedAmount e.2 (vestedSum blockTime vs.schedules)).natAbs < 2 ^ 256

theorem Valid.of_getVestingSchedule (h : acc.Valid) {vs : VestingSchedule}
    (hfind : acc.getVestingSchedule denom = some vs) :
    vs ∈ acc.vestingSchedules ∧ vs.Valid ∧ vs.denom = denom := by
  have hmem := List.mem_of_find?_eq_some hfind
  exact ⟨hmem, h.schedules vs hmem, by simpa using List.find?_some hfind⟩

theorem vestedCoin_iff (hacc : acc.Valid) {e : String × Nat} (hdenom : validDenom e.1 = true) (hpos : 0 < e.2)
    {coins : Coins} :
    acc.vestedCoin blockTime e.1 e.2 = .ok coins ↔ acc.InRange blockTime e ∧
      coins = if acc.vestedOf blockTime e = 0 then [] else [⟨e.1, acc.vestedOf blockTime e⟩] := by
  unfold InRange vestedOf
  cases hfind : acc.getVestingSchedule e.1 with
  | some vs =>
    rw [vestedCoin_eq_ok hfind (hacc.of_getVestingSchedule hfind).2.1 hdenom]
    refine ⟨?_, ?_⟩
    · intro h
      refine ⟨?_, h.2⟩
      intro vs' hvs'
      cases hvs'
      exact h.1
    · intro h
      exact ⟨h.1 vs rfl, h.2⟩
  | none =>
    have hcoin : acc.vestedCoin blockTime e.1 e.2 = .ok [⟨e.1, e.2⟩] := by
      rw [vestedCoin, hfind]
      exact Outcome.bind_eq_ok.mpr ⟨_, newCoin_eq_ok.mpr ⟨hdenom, Int.natCast_nonneg _, rfl⟩, rfl⟩
    have hne : ((e.2 : Nat) : Int) ≠ 0 := by omega
    rw [hcoin, Outcome.ok.injEq, if_neg hne]
    refine ⟨?_, ?_⟩
    · intro h
      refine ⟨?_, h.symm⟩
      intro vs hvs
      cases hvs
    · intro h
      exact h.2.symm

/-- The vested amounts of coins; zero ones are left out. -/
def vestedList (acc : LazyGradedVestingAccount) (blockTime : Int) (es : List (String × Nat)) : Coins :=
  (es.map fun e => (⟨e.1, acc.vestedOf blockTime e⟩ : Coin)).filter (fun c => c.amount ≠ 0)

theorem vestedCoins_iff (hacc : acc.Valid) {es : List (String × Nat)}
    (hes : ∀ e ∈ es, validDenom e.1 = true ∧ 0 < e.2) {coins : Coins} :
    acc.vestedCoins blockTime es = .ok coins ↔
      (∀ e ∈ es, acc.InRange blockTime e) ∧ coins = acc.vestedList blockTime es := by
  induction es generalizing coins with
  | nil => simp [vestedCoins, vestedList, eq_comm]
  | cons e rest ih =>
    obtain ⟨⟨hdenom, hpos⟩, hrest⟩ := List.forall_mem_cons.mp hes
    have hlist : acc.vestedList blockTime (e :: rest) =
        (if acc.vestedOf blockTime e = 0 then [] else [⟨e.1, acc.vestedOf blockTime e⟩]) ++
          acc.vestedList blockTime rest := by
      unfold vestedList
      rw [List.map_cons, List.filter_cons]
      split_ifs with hkeep hzero hzero
      · simp [hzero] at hkeep
      · rfl
      · rfl
      · simp [hzero] at hkeep
    rw [List.forall_mem_cons, hlist, vestedCoins, Outcome.bind_eq_ok]
    refine ⟨?_, ?_⟩
    · intro h
      obtain ⟨part, hpart, h⟩ := h
      obtain ⟨others, hothers, h⟩ := Outcome.bind_eq_ok.mp h
      obtain ⟨hrange, rfl⟩ := (vestedCoin_iff hacc hdenom hpos).mp hpart
      obtain ⟨hranges, rfl⟩ := (ih hrest).mp hothers
      exact ⟨⟨hrange, hranges⟩, (Outcome.ok.inj h).symm⟩
    · intro h
      obtain ⟨⟨hrange, hranges⟩, rfl⟩ := h
      exact ⟨_, (vestedCoin_iff hacc hdenom hpos).mpr ⟨hrange, rfl⟩,
        Outcome.bind_eq_ok.mpr ⟨_, (ih hrest).mpr ⟨hranges, rfl⟩, rfl⟩⟩

/-- The original coins are valid ones. -/
theorem original_valid (hvalid : acc.validate = .ok ()) :
    ∀ e ∈ acc.originalVesting.entries, validDenom e.1 = true ∧ 0 < e.2 := by
  obtain ⟨_, h⟩ := Outcome.check_bind_eq_ok.mp hvalid
  obtain ⟨_, h⟩ := Outcome.check_bind_eq_ok.mp h
  obtain ⟨horiginal, _⟩ := Outcome.check_bind_eq_ok.mp h
  exact not_not.mp (not_or.mp (Outcome.failIf_eq_ok.mp horiginal)).2

theorem getVestedCoins_eq_ok (hvalid : acc.validate = .ok ()) {coins : Coins} :
    acc.getVestedCoins blockTime = .ok coins ↔
      (∀ e ∈ acc.originalVesting.entries, acc.InRange blockTime e) ∧
        coins = acc.vestedList blockTime acc.originalVesting.entries :=
  vestedCoins_iff (validate_inv hvalid) (original_valid hvalid)

theorem vestedOf_nonneg (hacc : acc.Valid) (blockTime : Int) (e : String × Nat) :
    0 ≤ acc.vestedOf blockTime e := by
  unfold vestedOf
  cases hfind : acc.getVestingSchedule e.1 with
  | some vs =>
    have hsum := vestedSum_nonneg (hacc.of_getVestingSchedule hfind).2.1.valid blockTime
    exact HalfEven.div_nonneg (Int.mul_nonneg (Int.natCast_nonneg _) hsum)
  | none => exact Int.natCast_nonneg _

theorem vestedList_isValid (hvalid : acc.validate = .ok ()) (blockTime : Int) :
    (acc.vestedList blockTime acc.originalVesting.entries).IsValid := by
  refine ⟨?_, ?_⟩
  · intro c hc
    obtain ⟨hc, hne⟩ := List.mem_filter.mp hc
    obtain ⟨e, he, rfl⟩ := List.mem_map.mp hc
    have hnonneg := vestedOf_nonneg (validate_inv hvalid) blockTime e
    have hne' : acc.vestedOf blockTime e ≠ 0 := by simpa using hne
    exact ⟨(original_valid hvalid e he).1, lt_of_le_of_ne hnonneg hne'.symm⟩
  · apply List.Pairwise.filter
    exact List.pairwise_map.mpr acc.originalVesting.sorted

/-- The amounts of the vested coins. -/
theorem amountOf_vestedList (hvalid : acc.validate = .ok ()) (blockTime : Int) (denom : String) :
    (acc.vestedList blockTime acc.originalVesting.entries).amountOf denom =
      ((acc.originalVesting.get denom).map fun amount => acc.vestedOf blockTime (denom, amount)).getD 0 := by
  have hof : ∀ c ∈ acc.vestedList blockTime acc.originalVesting.entries,
      ∃ amount, acc.originalVesting.get c.denom = some amount ∧
        c.amount = acc.vestedOf blockTime (c.denom, amount) ∧ c.amount ≠ 0 := by
    intro c hc
    obtain ⟨hc, hne⟩ := List.mem_filter.mp hc
    obtain ⟨e, he, rfl⟩ := List.mem_map.mp hc
    exact ⟨e.2, SortedMap.get_eq_some.mpr he, rfl, by simpa using hne⟩
  cases hget : acc.originalVesting.get denom with
  | none =>
    apply Coins.amountOf_eq_zero
    intro c hc hdenom
    obtain ⟨amount, hamount, _⟩ := hof c hc
    rw [hdenom, hget] at hamount
    cases hamount
  | some amount =>
    rw [Option.map_some, Option.getD_some]
    by_cases hzero : acc.vestedOf blockTime (denom, amount) = 0
    · rw [hzero]
      apply Coins.amountOf_eq_zero
      intro c hc hdenom
      obtain ⟨amount', hamount, heq, hne⟩ := hof c hc
      rw [hdenom, hget] at hamount
      cases hamount
      exact hne (heq.trans (hdenom ▸ hzero))
    · have hmem : (⟨denom, acc.vestedOf blockTime (denom, amount)⟩ : Coin) ∈
          acc.vestedList blockTime acc.originalVesting.entries :=
        List.mem_filter.mpr ⟨List.mem_map.mpr ⟨(denom, amount), SortedMap.get_eq_some.mp hget, rfl⟩,
          by simpa using hzero⟩
      exact Coins.amountOf_eq (vestedList_isValid hvalid blockTime) hmem

end LazyGradedVestingAccount

/-! ## Vesting is monotone -/

/-- A ramp does not fall. -/
theorem Schedule.vested_le_of_le {s : Schedule} (h : s.Valid) {t₁ t₂ : Int} (ht : t₁ ≤ t₂) :
    s.vested t₁ ≤ s.vested t₂ := by
  have hratio := h.ratio_pos
  by_cases hstart : t₁ < s.startTime
  · rw [Schedule.vested, if_pos hstart]
    exact Schedule.vested_nonneg h
  · by_cases hend : t₂ < s.endTime
    · -- both times are on the ramp
      have hpart : 0 ≤ s.ratio.i * (t₁ - s.startTime) := Int.mul_nonneg hratio.le (by omega)
      have hle : s.ratio.i * (t₁ - s.startTime) ≤ s.ratio.i * (t₂ - s.startTime) :=
        Int.mul_le_mul_of_nonneg_left (by omega) hratio.le
      unfold Schedule.vested
      rw [if_neg hstart, if_pos (by omega), if_neg (by omega), if_pos hend,
        Int.tdiv_eq_ediv_of_nonneg hpart, Int.tdiv_eq_ediv_of_nonneg (hpart.trans hle)]
      exact Int.ediv_le_ediv (by omega) hle
    · have htop : s.vested t₂ = s.ratio.i := by rw [Schedule.vested, if_neg (by omega), if_neg hend]
      rw [htop]
      exact Schedule.vested_le h

theorem vestedSum_mono {l : List Schedule} (h : ∀ s ∈ l, s.Valid) {t₁ t₂ : Int} (ht : t₁ ≤ t₂) :
    vestedSum t₁ l ≤ vestedSum t₂ l :=
  List.sum_le_sum fun s hs => Schedule.vested_le_of_le (h s hs) ht

namespace LazyGradedVestingAccount

variable {acc : LazyGradedVestingAccount} {blockTime : Int}

/-- The vested amounts grow with the time. -/
theorem vestedAmount_mono (hacc : acc.Valid) {vs : VestingSchedule} {denom : String}
    (hfind : acc.getVestingSchedule denom = some vs) (amount : Nat) {t₁ t₂ : Int} (ht : t₁ ≤ t₂) :
    0 ≤ vestedAmount amount (vestedSum t₁ vs.schedules) ∧
      vestedAmount amount (vestedSum t₁ vs.schedules) ≤ vestedAmount amount (vestedSum t₂ vs.schedules) := by
  have hvs := (hacc.of_getVestingSchedule hfind).2.1.valid
  refine ⟨HalfEven.div_nonneg (Int.mul_nonneg (Int.natCast_nonneg _) (vestedSum_nonneg hvs _)), ?_⟩
  apply HalfEven.div_mono LegacyDec.precision_pos
  exact Int.mul_le_mul_of_nonneg_left (vestedSum_mono hvs ht) (Int.natCast_nonneg _)

theorem vestedOf_mono (hacc : acc.Valid) {t₁ t₂ : Int} (ht : t₁ ≤ t₂) (e : String × Nat) :
    acc.vestedOf t₁ e ≤ acc.vestedOf t₂ e := by
  unfold vestedOf
  cases hfind : acc.getVestingSchedule e.1 with
  | some vs => exact (vestedAmount_mono hacc hfind e.2 ht).2
  | none => exact Int.le_refl _

theorem InRange.of_le (hacc : acc.Valid) {t₁ t₂ : Int} (ht : t₁ ≤ t₂) {e : String × Nat}
    (h : acc.InRange t₂ e) : acc.InRange t₁ e := by
  intro vs hfind
  obtain ⟨hnonneg, hle⟩ := vestedAmount_mono hacc hfind e.2 ht
  have hlater := h vs hfind
  omega

/-- An amount below 2^255 is in range at every time: the sum of the ratios is near one. -/
theorem inRange_of_lt (hacc : acc.Valid) {e : String × Nat} (h : e.2 < 2 ^ 255) : acc.InRange blockTime e := by
  intro vs hfind
  have hvs := (hacc.of_getVestingSchedule hfind).2.1
  have hhigh := hvs.high
  have hnonneg := vestedSum_nonneg hvs.valid blockTime
  have hsum := vestedSum_le hvs.valid blockTime
  have hprod : (e.2 : Int) * vestedSum blockTime vs.schedules ≤ 2 ^ 255 * (10 ^ 18 + 5 * 10 ^ 8) :=
    Int.mul_le_mul (by omega) (by omega) hnonneg (by norm_num)
  have hle : vestedAmount e.2 (vestedSum blockTime vs.schedules) ≤ 2 ^ 256 - 1 :=
    HalfEven.div_le_of_le_mul LegacyDec.precision_pos (hprod.trans (by decide))
  have hzero := (vestedAmount_mono hacc hfind e.2 (Int.le_refl blockTime)).1
  omega

/-- The coins vested at a later time are at least those of an earlier one, coin by coin: where
they can be computed at the later time, they can at the earlier one. They can at every time if
the original amounts are below 2^255. -/
theorem vested_mono (acc : LazyGradedVestingAccount) (hvalid : acc.validate = .ok ()) {t₁ t₂ : Int}
    (ht : t₁ ≤ t₂) :
    (∀ later, acc.getVestedCoins t₂ = .ok later → ∃ earlier, acc.getVestedCoins t₁ = .ok earlier ∧
      ∀ denom, earlier.amountOf denom ≤ later.amountOf denom) ∧
    ((∀ e ∈ acc.originalVesting.entries, e.2 < 2 ^ 255) → ∃ later, acc.getVestedCoins t₂ = .ok later) := by
  have hacc := validate_inv hvalid
  refine ⟨?_, ?_⟩
  · intro later hlater
    obtain ⟨hrange, rfl⟩ := (getVestedCoins_eq_ok hvalid).mp hlater
    refine ⟨_, (getVestedCoins_eq_ok hvalid).mpr ⟨fun e he => (hrange e he).of_le hacc ht, rfl⟩, ?_⟩
    intro denom
    rw [amountOf_vestedList hvalid, amountOf_vestedList hvalid]
    cases acc.originalVesting.get denom with
    | none => exact Int.le_refl _
    | some amount => exact vestedOf_mono hacc ht (denom, amount)
  · intro hsmall
    exact ⟨_, (getVestedCoins_eq_ok hvalid).mpr ⟨fun e he => inRange_of_lt hacc (hsmall e he), rfl⟩⟩

namespace Sample

/-- At two times of one ramp. -/
theorem half_vested_before_all :
    ∃ earlier, (account (10 ^ 10) .one).getVestedCoins 50 = .ok earlier ∧
      ∀ denom, earlier.amountOf denom ≤ Coins.amountOf [⟨"udo", 10 ^ 10⟩] denom :=
  have htimes : (50 : Int) ≤ 100 := by norm_num
  (vested_mono (account (10 ^ 10) .one) (by decide +kernel) htimes).1 _ (by decide +kernel)

end Sample

/-! ## When vesting completes -/

end LazyGradedVestingAccount

/-- An amount that the ratios vest exactly: what their sum is off one is rounded away. -/
def Completes (amount : Nat) (sum : Int) : Prop :=
  2 * (amount * (sum - 10 ^ 18)).natAbs < 10 ^ 18 ∨
    (2 * (amount * (sum - 10 ^ 18)).natAbs = 10 ^ 18 ∧ amount % 2 = 0)

instance decidableCompletes (amount : Nat) (sum : Int) : Decidable (Completes amount sum) := by
  unfold Completes
  infer_instance

theorem vestedAmount_eq_iff {amount : Nat} {sum : Int} (hsum : 0 ≤ sum) :
    vestedAmount amount sum = amount ↔ Completes amount sum := by
  have hprec : (LegacyDec.precision : Int) = 10 ^ 18 := rfl
  have hoff : (amount : Int) * sum - amount * LegacyDec.precision = amount * (sum - 10 ^ 18) := by
    rw [hprec]
    ring
  rw [vestedAmount, HalfEven.div_eq_iff amount (Int.mul_nonneg (Int.natCast_nonneg _) hsum)
    LegacyDec.precision_pos, hoff]
  rfl

namespace LazyGradedVestingAccount

variable {acc : LazyGradedVestingAccount} {blockTime : Int}

/-- All schedules are over. -/
def Ended (acc : LazyGradedVestingAccount) (blockTime : Int) : Prop :=
  ∀ vs ∈ acc.vestingSchedules, ∀ s ∈ vs.schedules, s.endTime ≤ blockTime

/-- Each original coin with a schedule is vested exactly. -/
def VestsOriginal (acc : LazyGradedVestingAccount) : Prop :=
  ∀ vs ∈ acc.vestingSchedules, ∀ amount, acc.originalVesting.get vs.denom = some amount →
    Completes amount (ratioSum vs.schedules)

/-- After the end a coin is vested exactly if its schedule completes. -/
theorem ended_iff (hacc : acc.Valid) (hend : acc.Ended blockTime) {vs : VestingSchedule} {denom : String}
    {amount : Nat} (hbits : amount < 2 ^ 256) (hfind : acc.getVestingSchedule denom = some vs) :
    acc.InRange blockTime (denom, amount) ∧ acc.vestedOf blockTime (denom, amount) = amount ↔
      Completes amount (ratioSum vs.schedules) := by
  obtain ⟨hmem, hvs, _⟩ := hacc.of_getVestingSchedule hfind
  have hsum : vestedSum blockTime vs.schedules = ratioSum vs.schedules :=
    vestedSum_ended hvs.valid (hend vs hmem)
  have hlow := hvs.low
  have hof : acc.vestedOf blockTime (denom, amount) = vestedAmount amount (ratioSum vs.schedules) := by
    simp only [vestedOf, hfind, hsum]
  rw [hof, ← vestedAmount_eq_iff (by omega), InRange]
  simp only [hfind, Option.some.injEq, forall_eq', hsum]
  exact and_iff_right_of_imp fun hwhole => by omega

theorem vestedList_eq_iff (hvalid : acc.validate = .ok ()) :
    acc.vestedList blockTime acc.originalVesting.entries = acc.originalVesting.toCoins ↔
      ∀ e ∈ acc.originalVesting.entries, acc.vestedOf blockTime e = e.2 := by
  refine ⟨?_, ?_⟩
  · intro h e he
    have hmem : (⟨e.1, e.2⟩ : Coin) ∈ acc.vestedList blockTime acc.originalVesting.entries :=
      h ▸ List.mem_map.mpr ⟨e, he, rfl⟩
    obtain ⟨e', he', heq⟩ := List.mem_map.mp (List.mem_filter.mp hmem).1
    obtain ⟨hkey, hvested⟩ := Coin.mk.inj heq
    have hsame : e' = e := List.inj_on_of_nodup_map acc.originalVesting.keys_nodup he' he hkey
    exact hsame ▸ hvested
  · intro h
    have hmap : acc.originalVesting.entries.map (fun e => (⟨e.1, acc.vestedOf blockTime e⟩ : Coin)) =
        acc.originalVesting.toCoins :=
      List.map_congr_left fun e he => by rw [h e he]
    unfold vestedList
    rw [hmap, List.filter_eq_self]
    intro c hc
    obtain ⟨e, he, rfl⟩ := List.mem_map.mp hc
    have hpos := (original_valid hvalid e he).2
    simp only [ne_eq, decide_not, Bool.not_eq_true', decide_eq_false_iff_not]
    omega

/-- After the end of its schedules an account has all of its coins and none that is still
vesting, exactly if each original coin with a schedule is vested exactly. -/
theorem vesting_completes_iff (acc : LazyGradedVestingAccount) (hvalid : acc.validate = .ok ())
    (hamounts : acc.AmountsFit) :
    (∀ blockTime, acc.Ended blockTime →
      acc.getVestedCoins blockTime = .ok acc.originalVesting.toCoins ∧
      acc.getVestingCoins blockTime = .ok SortedMap.empty) ↔ acc.VestsOriginal := by
  have hacc := validate_inv hvalid
  refine ⟨?_, ?_⟩
  · intro h vs hvs amount hamount
    -- the last second of the clock is after the end of every schedule
    have hend : acc.Ended (2 ^ 63 - 1) := fun _ _ s _ => Int.le_sub_one_of_lt s.endTime_lt
    obtain ⟨hrange, hlist⟩ := (getVestedCoins_eq_ok hvalid).mp (h _ hend).1
    have he := SortedMap.get_eq_some.mp hamount
    exact (ended_iff hacc hend (hamounts _ he) (hacc.getVestingSchedule_eq hvs)).mp
      ⟨hrange _ he, (vestedList_eq_iff hvalid).mp hlist.symm _ he⟩
  · intro h blockTime hend
    have hexact : ∀ e ∈ acc.originalVesting.entries,
        acc.InRange blockTime e ∧ acc.vestedOf blockTime e = e.2 := by
      intro e he
      cases hfind : acc.getVestingSchedule e.1 with
      | some vs =>
        obtain ⟨hmem, _, hdenom⟩ := hacc.of_getVestingSchedule hfind
        exact (ended_iff hacc hend (hamounts e he) hfind).mpr
          (h vs hmem e.2 (hdenom ▸ SortedMap.get_eq_some.mpr he))
      | none =>
        refine ⟨?_, ?_⟩
        · intro vs hvs
          rw [hfind] at hvs
          cases hvs
        · simp only [vestedOf, hfind]
    have hvested : acc.getVestedCoins blockTime = .ok acc.originalVesting.toCoins :=
      (getVestedCoins_eq_ok hvalid).mpr ⟨fun e he => (hexact e he).1,
        ((vestedList_eq_iff hvalid).mpr fun e he => (hexact e he).2).symm⟩
    exact ⟨hvested, Outcome.bind_eq_ok.mpr ⟨_, hvested, CoinSet.sub_self _⟩⟩

namespace Sample

/-- With a ratio of one nothing is left. -/
theorem whole_ratio_completes :
    (account (10 ^ 10) .one).getVestedCoins 100 = .ok (account (10 ^ 10) .one).originalVesting.toCoins ∧
      (account (10 ^ 10) .one).getVestingCoins 100 = .ok SortedMap.empty :=
  (vesting_completes_iff (account (10 ^ 10) .one) (by decide +kernel) (account_fits _)).mpr (by
    intro vs hvs amount hamount
    obtain rfl := List.mem_singleton.mp hvs
    obtain rfl : 10 ^ 10 = amount := Option.some.inj hamount
    decide +kernel) 100 (by
    intro vs hvs s hs
    obtain rfl := List.mem_singleton.mp hvs
    obtain rfl := List.mem_singleton.mp hs
    exact Int.le_refl _)

/-- The ratio 0.9999999996 is accepted, and four of the coins stay locked for ever. -/
theorem ratio_below_one_stays_locked :
    let acc := account (10 ^ 10) ⟨10 ^ 18 - 4 * 10 ^ 8⟩
    acc.validate = .ok () ∧ acc.getVestedCoins 100 = .ok [⟨"udo", 10 ^ 10 - 4⟩] ∧
      acc.getVestingCoins 100 = .ok (SortedMap.empty.set "udo" 4) ∧
      acc.getVestingCoins (2 ^ 63 - 1) = .ok (SortedMap.empty.set "udo" 4) := by
  decide +kernel

end Sample

end LazyGradedVestingAccount

end Vesting
