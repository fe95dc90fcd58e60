import Mathlib.Tactic

/- Division rounded half to even.

   `HalfEven.div n d` is the integer nearest to `n / d`, and of the two nearest
   ones the even one: the rounding that fixed-point decimal arithmetic calls
   banker's. It is computed on the magnitude and the sign put back, so it is
   odd in `n`. What its users need is the error bound (`two_mul_div_le`,
   `le_two_mul_div`: at most half a unit either way), that it is exact on
   multiples, and that it is monotone. -/

namespace HalfEven

/-- The nearest integer to `n / d`, ties to even, on magnitudes. -/
def natDiv (n d : Nat) : Nat :=
  if 2 * (n % d) < d then n / d
  else if d < 2 * (n % d) then n / d + 1
  else if (n / d) % 2 = 0 then n / d
  else n / d + 1

/-- The nearest integer to `n / d`, ties to even. -/
def div (n : Int) (d : Nat) : Int :=
  if n < 0 then -(natDiv n.natAbs d : Int) else natDiv n.natAbs d

theorem natDiv_bounds (n : Nat) {d : Nat} (hd : 0 < d) :
    2 * (natDiv n d * d) ≤ 2 * n + d ∧ 2 * n ≤ 2 * (natDiv n d * d) + d := by
  have hdm := Nat.div_add_mod n d
  have hlt := Nat.mod_lt n hd
  have hs : (n / d + 1) * d = d * (n / d) + d := by ring
  have hc : n / d * d = d * (n / d) := Nat.mul_comm _ _
  unfold natDiv
  split
  · omega
  · split
    · omega
    · split <;> omega

theorem natDiv_mul_self (k : Nat) {d : Nat} (hd : 0 < d) : natDiv (k * d) d = k := by
  simp [natDiv, Nat.mul_mod_left, Nat.mul_div_cancel k hd, hd]

theorem natDiv_mono {n m d : Nat} (hd : 0 < d) (h : n ≤ m) : natDiv n d ≤ natDiv m d := by
  by_contra hlt
  push Not at hlt
  obtain ⟨hn, -⟩ := natDiv_bounds n hd
  obtain ⟨-, hm⟩ := natDiv_bounds m hd
  -- a full step apart, the two errors leave room for equality only
  have hstep : (natDiv m d + 1) * d ≤ natDiv n d * d := Nat.mul_le_mul_right d hlt
  have hexp : (natDiv m d + 1) * d = natDiv m d * d + d := by ring
  have hnm : n = m := by omega
  subst hnm
  exact lt_irrefl _ hlt

variable {d : Nat}

@[simp] theorem div_neg (n : Int) : div (-n) d = -div n d := by
  unfold div
  rcases lt_trichotomy n 0 with h | h | h
  · rw [if_neg (by omega), if_pos h, neg_neg, Int.natAbs_neg]
  · subst h; simp [natDiv]
  · rw [if_pos (by omega), if_neg (by omega), Int.natAbs_neg]

theorem div_natCast (n : Nat) : div (n : Int) d = natDiv n d := by
  have : ¬ (n : Int) < 0 := by omega
  simp [div, this]

@[simp] theorem div_zero_left : div 0 d = 0 := by
  have : div 0 d = -div 0 d := by rw [← div_neg]; rfl
  omega

theorem div_nonneg {n : Int} (h : 0 ≤ n) : 0 ≤ div n d := by
  obtain ⟨k, rfl⟩ := Int.eq_ofNat_of_zero_le h
  rw [div_natCast]; exact Int.natCast_nonneg _

/-- The rounded quotient is at most half a unit above the exact one. -/
theorem two_mul_div_le (n : Int) (hd : 0 < d) : 2 * (div n d * d) ≤ 2 * n + d := by
  rcases Int.le_total 0 n with h | h
  · obtain ⟨k, rfl⟩ := Int.eq_ofNat_of_zero_le h
    rw [div_natCast]
    exact_mod_cast (natDiv_bounds k hd).1
  · obtain ⟨k, hk⟩ := Int.eq_ofNat_of_zero_le (Int.neg_nonneg_of_nonpos h)
    obtain rfl : n = -(k : Int) := by omega
    rw [div_neg, div_natCast]
    have := (natDiv_bounds k hd).2
    zify at this
    linarith

/-- The rounded quotient is at most half a unit below the exact one. -/
theorem le_two_mul_div (n : Int) (hd : 0 < d) : 2 * n ≤ 2 * (div n d * d) + d := by
  have h := two_mul_div_le (-n) hd
  rw [div_neg] at h
  linarith

theorem div_mul_self (k : Int) (hd : 0 < d) : div (k * d) d = k := by
  rcases Int.le_total 0 k with h | h
  · obtain ⟨m, rfl⟩ := Int.eq_ofNat_of_zero_le h
    have := natDiv_mul_self m hd
    rw [← Nat.cast_mul, div_natCast, this]
  · obtain ⟨m, hm⟩ := Int.eq_ofNat_of_zero_le (Int.neg_nonneg_of_nonpos h)
    obtain rfl : k = -(m : Int) := by omega
    have := natDiv_mul_self m hd
    rw [neg_mul, div_neg, ← Nat.cast_mul, div_natCast, this]

theorem div_mono {n m : Int} (hd : 0 < d) (h : n ≤ m) : div n d ≤ div m d := by
  rcases Int.le_total 0 n with h0 | h0
  · obtain ⟨a, rfl⟩ := Int.eq_ofNat_of_zero_le h0
    obtain ⟨b, rfl⟩ := Int.eq_ofNat_of_zero_le (h0.trans h)
    rw [div_natCast, div_natCast]
    exact_mod_cast natDiv_mono hd (by exact_mod_cast h)
  · obtain ⟨a, ha⟩ := Int.eq_ofNat_of_zero_le (Int.neg_nonneg_of_nonpos h0)
    obtain rfl : n = -(a : Int) := by omega
    rcases Int.le_total 0 m with h1 | h1
    · have hm := div_nonneg (d := d) h1
      rw [div_neg, div_natCast]
      omega
    · obtain ⟨b, hb⟩ := Int.eq_ofNat_of_zero_le (Int.neg_nonneg_of_nonpos h1)
      obtain rfl : m = -(b : Int) := by omega
      rw [div_neg, div_neg, div_natCast, div_natCast]
      have := natDiv_mono hd (show b ≤ a by omega)
      omega

/-- Rounding does not cross an integer bound. -/
theorem div_le_of_le_mul {n k : Int} (hd : 0 < d) (h : n ≤ k * d) : div n d ≤ k := by
  have := div_mono hd h
  rwa [div_mul_self k hd] at this

theorem le_div_of_mul_le {n k : Int} (hd : 0 < d) (h : k * d ≤ n) : k ≤ div n d := by
  have := div_mono hd h
  rwa [div_mul_self k hd] at this

/-- A quotient is rounded down to `k` below `k` and a half, and at `k` and a half if `k` is
even. -/
theorem natDiv_le_iff (n k : Nat) (hd : 0 < d) :
    natDiv n d ≤ k ↔ 2 * n < (2 * k + 1) * d ∨ (2 * n = (2 * k + 1) * d ∧ k % 2 = 0) := by
  have hdm := Nat.div_add_mod n d
  have hlt := Nat.mod_lt n hd
  have hk : (2 * k + 1) * d = 2 * (d * k) + d := by ring
  unfold natDiv
  rcases Nat.lt_trichotomy (n / d) k with h | h | h
  · -- the quotient is below k, rounded up or not
    have hmul : d * (n / d + 1) ≤ d * k := Nat.mul_le_mul_left d h
    rw [Nat.mul_add] at hmul
    refine iff_of_true ?_ (.inl (by omega))
    split_ifs <;> omega
  · subst h
    split_ifs <;> omega
  · have hmul : d * (k + 1) ≤ d * (n / d) := Nat.mul_le_mul_left d h
    rw [Nat.mul_add] at hmul
    refine iff_of_false ?_ (by omega)
    split_ifs <;> omega

theorem div_le_iff {n : Int} (k : Nat) (h : 0 ≤ n) (hd : 0 < d) :
    div n d ≤ k ↔ 2 * n < (2 * k + 1) * d ∨ (2 * n = (2 * k + 1) * d ∧ k % 2 = 0) := by
  obtain ⟨m, rfl⟩ := Int.eq_ofNat_of_zero_le h
  rw [div_natCast]
  exact_mod_cast natDiv_le_iff m k hd

/-- The quotient is rounded to `k` if it is less than half a unit from it, or half a unit and
`k` is even. -/
theorem div_eq_iff {n : Int} (k : Nat) (h : 0 ≤ n) (hd : 0 < d) :
    div n d = k ↔ 2 * (n - k * d).natAbs < d ∨ (2 * (n - k * d).natAbs = d ∧ k % 2 = 0) := by
  have hup := div_le_iff k h hd
  have hexp : (2 * (k : Int) + 1) * d = 2 * (k * d) + d := by ring
  rw [hexp] at hup
  cases k with
  | zero =>
    have hnonneg : 0 ≤ div n d := div_nonneg h
    simp only [Nat.cast_zero, zero_mul, mul_zero, zero_add, sub_zero, Nat.zero_mod, and_true] at hup ⊢
    omega
  | succ k =>
    have hlow := div_le_iff k h hd
    have hexp' : (2 * (k : Int) + 1) * d = 2 * (((k + 1 : Nat) : Int) * d) - d := by
      push_cast
      ring
    rw [hexp'] at hlow
    generalize ((k + 1 : Nat) : Int) * d = p at hup hlow ⊢
    omega

end HalfEven
