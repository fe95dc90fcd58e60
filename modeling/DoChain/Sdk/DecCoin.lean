import DoChain.Sdk.Bank

/- Coins with decimal amounts (`DecCoin`), as the market computes with them.

   Making a coin checks its denomination and that its amount is not negative, and
   panics where a check fails. `TruncateDecimal` splits an amount into its whole part
   and the rest. -/

namespace Sdk

/-- `LegacyDec.String`: 18 digits after the point. -/
def LegacyDec.text (d : LegacyDec) : String :=
  let digits := toString (d.i.natAbs % LegacyDec.precision)
  (if d.i < 0 then "-" else "") ++ toString (d.i.natAbs / LegacyDec.precision) ++ "." ++
    String.ofList (List.replicate (18 - digits.length) '0') ++ digits

structure DecCoin where
  denom : String
  amount : LegacyDec
  deriving DecidableEq

def DecCoin.text (c : DecCoin) : String := c.amount.text ++ c.denom

variable {ε : Type}

def mustValidateDenom (denom : String) : Outcome ε Unit :=
  if validDenom denom then .ok () else .panic ("invalid denom: " ++ denom)

/-- `NewCoin`. -/
def newCoin (denom : String) (amount : Int) : Outcome ε Coin := do
  mustValidateDenom denom
  if amount < 0 then .panic s!"negative coin amount: {amount}" else .ok ⟨denom, amount⟩

def newDecCoinFromCoin (c : Coin) : Outcome ε DecCoin := do
  let c ← newCoin c.denom c.amount
  .ok ⟨c.denom, LegacyDec.ofInt c.amount⟩

def newDecCoin (denom : String) (amount : Int) : Outcome ε DecCoin :=
  newDecCoinFromCoin ⟨denom, amount⟩

def newDecCoinFromDec (denom : String) (amount : LegacyDec) : Outcome ε DecCoin := do
  mustValidateDenom denom
  if amount.IsNegative then .panic ("negative decimal coin amount: " ++ amount.text)
  else .ok ⟨denom, amount⟩

def DecCoin.add (a b : DecCoin) : Outcome ε DecCoin :=
  if a.denom ≠ b.denom then
    .panic ("coin denom different: " ++ a.denom ++ " " ++ b.denom)
  else do
    let amount ← a.amount.add b.amount
    .ok ⟨a.denom, amount⟩

def DecCoin.sub (a b : DecCoin) : Outcome ε DecCoin :=
  if a.denom ≠ b.denom then
    .panic ("coin denom different: " ++ a.denom ++ " " ++ b.denom)
  else do
    let amount ← a.amount.sub b.amount
    if amount.IsNegative then .panic "negative decimal coin amount" else .ok ⟨a.denom, amount⟩

/-- The whole part of an amount, and what is left. -/
def DecCoin.truncateDecimal (c : DecCoin) : Outcome ε (Coin × DecCoin) := do
  let truncated ← c.amount.truncateInt
  let change ← c.amount.sub (LegacyDec.ofInt truncated)
  let coin ← newCoin c.denom truncated
  let rest ← newDecCoinFromDec c.denom change
  .ok (coin, rest)

/-- `Coin.Add`. -/
def Coin.add (a b : Coin) : Outcome ε Coin :=
  if a.denom ≠ b.denom then
    .panic ("invalid coin denominations; " ++ a.denom ++ ", " ++ b.denom)
  else do
    let amount ← checkInt (a.amount + b.amount)
    .ok ⟨a.denom, amount⟩

/-! ## When they succeed -/

@[simp] theorem mustValidateDenom_eq_ok {denom : String} {u : Unit} :
    (mustValidateDenom denom : Outcome ε Unit) = .ok u ↔ validDenom denom = true := by
  unfold mustValidateDenom
  split <;> simp_all

@[simp] theorem newCoin_eq_ok {denom : String} {amount : Int} {c : Coin} :
    (newCoin denom amount : Outcome ε Coin) = .ok c ↔
      validDenom denom = true ∧ 0 ≤ amount ∧ c = ⟨denom, amount⟩ := by
  rw [newCoin, Outcome.check_bind_eq_ok, mustValidateDenom_eq_ok]
  by_cases h : amount < 0
  · have hneg : ¬ 0 ≤ amount := not_le.mpr h
    simp [h, hneg]
  · rw [if_neg h, Outcome.ok.injEq]
    exact and_congr_right (fun _ => ⟨fun hc => ⟨not_lt.mp h, hc.symm⟩, fun hc => hc.2.symm⟩)

@[simp] theorem newDecCoinFromCoin_eq_ok {c : Coin} {d : DecCoin} :
    (newDecCoinFromCoin c : Outcome ε DecCoin) = .ok d ↔
      validDenom c.denom = true ∧ 0 ≤ c.amount ∧ d = ⟨c.denom, LegacyDec.ofInt c.amount⟩ := by
  simp only [newDecCoinFromCoin, Outcome.bind_eq_ok, newCoin_eq_ok, Outcome.ok.injEq]
  refine ⟨?_, ?_⟩
  · intro h
    obtain ⟨_, ⟨hv, hn, rfl⟩, rfl⟩ := h
    exact ⟨hv, hn, rfl⟩
  · intro h
    obtain ⟨hv, hn, rfl⟩ := h
    exact ⟨_, ⟨hv, hn, rfl⟩, rfl⟩

@[simp] theorem newDecCoinFromDec_eq_ok {denom : String} {amount : LegacyDec} {d : DecCoin} :
    (newDecCoinFromDec denom amount : Outcome ε DecCoin) = .ok d ↔
      validDenom denom = true ∧ 0 ≤ amount.i ∧ d = ⟨denom, amount⟩ := by
  rw [newDecCoinFromDec, Outcome.check_bind_eq_ok, mustValidateDenom_eq_ok]
  by_cases h : amount.IsNegative
  · have hneg : ¬ 0 ≤ amount.i := not_le.mpr h
    simp [h, hneg]
  · rw [if_neg h, Outcome.ok.injEq]
    exact and_congr_right (fun _ => ⟨fun hc => ⟨not_lt.mp h, hc.symm⟩, fun hc => hc.2.symm⟩)

theorem DecCoin.add_inv {a b c : DecCoin} (h : (a.add b : Outcome ε DecCoin) = .ok c) :
    a.denom = b.denom ∧ c = ⟨a.denom, ⟨a.amount.i + b.amount.i⟩⟩ := by
  simp only [DecCoin.add, ne_eq, ite_not] at h
  split_ifs at h with hd
  obtain ⟨amount, hadd, hc⟩ := Outcome.bind_eq_ok.mp h
  obtain ⟨_, rfl⟩ := LegacyDec.check_eq_ok.mp hadd
  cases hc
  exact ⟨hd, rfl⟩

@[simp] theorem DecCoin.sub_eq_ok {a b c : DecCoin} :
    (a.sub b : Outcome ε DecCoin) = .ok c ↔ a.denom = b.denom ∧ LegacyDec.Fits (a.amount.i - b.amount.i) ∧
      b.amount.i ≤ a.amount.i ∧ c = ⟨a.denom, ⟨a.amount.i - b.amount.i⟩⟩ := by
  unfold DecCoin.sub
  by_cases hd : a.denom = b.denom
  · rw [if_neg (not_not.mpr hd), Outcome.bind_eq_ok]
    simp only [LegacyDec.sub, LegacyDec.check_eq_ok]
    refine ⟨?_, ?_⟩
    · intro h
      obtain ⟨_, ⟨hfits, rfl⟩, h⟩ := h
      split_ifs at h with hneg
      have hle : 0 ≤ a.amount.i - b.amount.i := not_lt.mp hneg
      exact ⟨hd, hfits, by omega, (Outcome.ok.inj h).symm⟩
    · intro h
      obtain ⟨_, hfits, hle, rfl⟩ := h
      have hneg : ¬ (⟨a.amount.i - b.amount.i⟩ : LegacyDec).IsNegative := by
        show ¬ a.amount.i - b.amount.i < 0
        omega
      exact ⟨_, ⟨hfits, rfl⟩, if_neg hneg⟩
  · rw [if_pos hd]
    exact iff_of_false (fun h => by cases h) (fun h => hd h.1)

theorem Coin.add_inv {a b c : Coin} (h : (a.add b : Outcome ε Coin) = .ok c) :
    a.denom = b.denom ∧ c = ⟨a.denom, a.amount + b.amount⟩ := by
  simp only [Coin.add, ne_eq, ite_not] at h
  split_ifs at h with hd
  obtain ⟨amount, hadd, hc⟩ := Outcome.bind_eq_ok.mp h
  obtain ⟨_, rfl⟩ := checkInt_eq_ok.mp hadd
  cases hc
  exact ⟨hd, rfl⟩

/-- A truncated amount is its whole part and a rest below one unit, for an amount that
is not negative: a negative whole part or rest panics. -/
theorem DecCoin.truncateDecimal_inv {c : DecCoin} {coin : Coin} {rest : DecCoin}
    (h : (c.truncateDecimal : Outcome ε (Coin × DecCoin)) = .ok (coin, rest)) :
    validDenom c.denom = true ∧ 0 ≤ c.amount.i ∧
      coin = ⟨c.denom, c.amount.i / LegacyDec.precision⟩ ∧
      rest = ⟨c.denom, ⟨c.amount.i % LegacyDec.precision⟩⟩ := by
  simp only [DecCoin.truncateDecimal, Outcome.bind_eq_ok, LegacyDec.truncateInt, LegacyDec.sub,
    checkInt_eq_ok, LegacyDec.check_eq_ok, newCoin_eq_ok, newDecCoinFromDec_eq_ok,
    Outcome.ok.injEq, Prod.mk.injEq] at h
  obtain ⟨_, ⟨_, rfl⟩, _, ⟨_, rfl⟩, _, ⟨hv, hn, rfl⟩, _, ⟨_, hr, rfl⟩, rfl, rfl⟩ := h
  have hp : (0 : Int) < LegacyDec.precision := by exact_mod_cast LegacyDec.precision_pos
  have hamount : 0 ≤ c.amount.i := by
    have hprod : 0 ≤ c.amount.i.tdiv LegacyDec.precision * LegacyDec.precision :=
      Int.mul_nonneg hn hp.le
    simp only [LegacyDec.ofInt] at hr
    omega
  have hdiv := Int.mul_ediv_add_emod c.amount.i LegacyDec.precision
  have htrunc := Int.tdiv_eq_ediv_of_nonneg hamount (b := (LegacyDec.precision : Int))
  refine ⟨hv, hamount, ?_, ?_⟩
  · rw [htrunc]
  · simp only [LegacyDec.ofInt, htrunc, DecCoin.mk.injEq, LegacyDec.mk.injEq, true_and]
    rw [Int.mul_comm]
    omega

/-- A whole part has at most 256 bits. -/
theorem LegacyDec.whole_lt {n : Int} (hpos : 0 ≤ n) (hfits : LegacyDec.Fits n) :
    n / (LegacyDec.precision : Int) < 2 ^ 256 := by
  have hprec : (LegacyDec.precision : Int) = 10 ^ 18 := rfl
  rw [LegacyDec.fits_iff] at hfits
  rw [hprec]
  omega

theorem DecCoin.truncateDecimal_ok {c : DecCoin} (hdenom : validDenom c.denom = true) (hpos : 0 ≤ c.amount.i)
    (hfits : LegacyDec.Fits c.amount.i) :
    ∃ rest, (c.truncateDecimal : Outcome ε (Coin × DecCoin)) =
      .ok (⟨c.denom, c.amount.i / LegacyDec.precision⟩, rest) := by
  have hp : (0 : Int) < LegacyDec.precision := by exact_mod_cast LegacyDec.precision_pos
  have htrunc := Int.tdiv_eq_ediv_of_nonneg hpos (b := (LegacyDec.precision : Int))
  have hwhole : 0 ≤ c.amount.i / (LegacyDec.precision : Int) := Int.ediv_nonneg hpos hp.le
  have hlt := LegacyDec.whole_lt hpos hfits
  have hint : c.amount.truncateInt = (.ok (c.amount.i / LegacyDec.precision) : Outcome ε Int) := by
    rw [LegacyDec.truncateInt, htrunc]
    exact checkInt_eq_ok.mpr ⟨by omega, rfl⟩
  have hrest : c.amount.i - c.amount.i / LegacyDec.precision * LegacyDec.precision =
      c.amount.i % LegacyDec.precision := by
    have hdiv := Int.mul_ediv_add_emod c.amount.i LegacyDec.precision
    rw [Int.mul_comm]
    omega
  have hmod := Int.emod_nonneg c.amount.i hp.ne'
  have hle := Int.emod_lt_of_pos c.amount.i hp
  have hsub : c.amount.sub (LegacyDec.ofInt (c.amount.i / LegacyDec.precision)) =
      (.ok ⟨c.amount.i % LegacyDec.precision⟩ : Outcome ε LegacyDec) := by
    rw [LegacyDec.sub, LegacyDec.ofInt, hrest]
    refine LegacyDec.check_eq_ok.mpr ⟨?_, rfl⟩
    have hprec : (LegacyDec.precision : Int) = 10 ^ 18 := rfl
    rw [LegacyDec.fits_iff]
    omega
  refine ⟨⟨c.denom, ⟨c.amount.i % LegacyDec.precision⟩⟩, ?_⟩
  rw [truncateDecimal, hint, Outcome.ok_bind, hsub, Outcome.ok_bind, newCoin_eq_ok.mpr ⟨hdenom, hwhole, rfl⟩,
    Outcome.ok_bind, newDecCoinFromDec_eq_ok.mpr ⟨hdenom, hmod, rfl⟩, Outcome.ok_bind]

end Sdk
