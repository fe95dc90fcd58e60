import DoChain.Lib.Trace
import DoChain.Market.Swap

/- The pool over runs of swaps and replenishments.

   A swap of DO takes the value of the net amount out of the pool, and that amount is
   the offer less a spread rounded to 18 digits: the error grows with the offer, while
   what the constant product leaves in the pool shrinks with it. `WithinLimit` bounds
   the offer by the pool so that the error stays below what is left; every swap for DO
   and every replenishment keeps the pool positive by itself.

   `pool_stays_positive` is the result for whole runs. -/

namespace Market

open Sdk

/-- The pool of DO, as a stored integer. -/
def doPool (s : State) : Int := s.params.basePool.i + (getDoPoolDelta s).i

/-- An offer of `n` udo to a pool of `d` udo with the base `b`:
`(n + 2 d + 4) (b² + n d) ≤ 10^18 b² d`. -/
def WithinLimit (s : State) (offer : Coin) : Prop :=
  offer.denom = microDoDenom →
    (offer.amount * LegacyDec.precision + 2 * doPool s + 4 * LegacyDec.precision) *
        (s.params.basePool.i * s.params.basePool.i + offer.amount * LegacyDec.precision * doPool s)
      ≤ LegacyDec.precision * doPool s * (s.params.basePool.i * s.params.basePool.i)

/-! ## Runs -/

inductive Event where
  | swap (m : MsgSwap)
  | swapSend (m : MsgSwapSend)
  | replenishPools
  /-- the oracle's rates, balances and the height change -/
  | other

/-- An event that succeeds, with the states around it. -/
def Event.Occurs (env : Env) (s s' : State) : Event → Prop
  | .swap m => m.validateBasic env = .ok () ∧ ∃ res, Market.swap env s m = .ok (s', res)
  | .swapSend m => m.validateBasic env = .ok () ∧ ∃ res, Market.swapSend env s m = .ok (s', res)
  | .replenishPools => Market.replenishPools s = .ok s'
  | .other => s'.params = s.params ∧ s'.doPoolDelta = s.doPoolDelta

def Event.WithinLimit (s : State) : Event → Prop
  | .swap m => Market.WithinLimit s m.offerCoin
  | .swapSend m => Market.WithinLimit s m.offerCoin
  | _ => True

structure Step (env : Env) where
  before : State
  event : Event
  after : State
  occurs : event.Occurs env before after

/-! ## The arithmetic of a swap of DO

`P` is `10^18`, `b` the base, `d` the pool, `cp` the product and `a` the other pool,
`n` the offer, `r` the rate, `q` what the product leaves, and `net` and `m` the net
amount and its value. -/

section Arithmetic

variable {P b d cp a n r q net m : Int}

/-- The net amount exceeds the value of `d - q` by the error of the spread, which
grows with the offer. -/
theorem net_upper {x s₀ s fee : Int} (hP : 0 < P) (hn : 0 < n) (hr : 0 < r)
    (hx : x = n * P - (d - q))
    (hs₀ : 2 * (x * P * P) < 2 * (s₀ * (n * P) * P) + n * P * P + 2 * (n * P)) (hs : s₀ ≤ s)
    (hfee : 2 * (s * (n * r)) ≤ 2 * (fee * P) + P) (hnet : net = n * r - fee) :
    2 * (net * P * P) < 2 * ((d - q) * P * r) + n * P * r + 2 * (n * r) + P * P := by
  have hspread : 2 * (x * P) < 2 * (s₀ * n * P) + n * P + 2 * n := by
    have hmul : 2 * (x * P) * P < (2 * (s₀ * n * P) + n * P + 2 * n) * P := by linarith
    exact lt_of_mul_lt_mul_right hmul hP.le
  have hscaled : 2 * (x * P) * r < (2 * (s₀ * n * P) + n * P + 2 * n) * r :=
    mul_lt_mul_of_pos_right hspread hr
  have hcharged : s₀ * (n * r) ≤ s * (n * r) := mul_le_mul_of_nonneg_right hs (by positivity)
  have hfee' : (2 * (s₀ * (n * r))) * P ≤ (2 * (fee * P) + P) * P :=
    mul_le_mul_of_nonneg_right (by linarith) hP.le
  subst hx hnet
  linarith

/-- Where the value of the net amount is the pool or more, the product left little. -/
theorem left_upper (hP : 12 ≤ P) (hn : 1 ≤ n) (hr : 0 < r) (hq : 0 ≤ q)
    (hnet : 2 * (net * P * P) < 2 * ((d - q) * P * r) + n * P * r + 2 * (n * r) + P * P)
    (hunit : P ≤ net) (hm : 2 * (m * r) ≤ 2 * (net * P) + r) (hdm : d ≤ m) :
    2 * (q * P) < n * P + 4 * n + P + 2 * d := by
  have hP0 : 0 < P := by omega
  have hvalue : 2 * (d * r) * P ≤ (2 * (net * P) + r) * P := by
    have hdr : d * r ≤ m * r := mul_le_mul_of_nonneg_right hdm hr.le
    exact mul_le_mul_of_nonneg_right (by linarith) hP0.le
  have hleft : 2 * (q * P * r) < n * P * r + 2 * (n * r) + P * P + r * P := by linarith
  -- a unit of the asked coin was paid, so the rate is not too small
  have hrate : P * P < r * (2 * d + 2 * n) := by
    have hpaid : P * P * P ≤ net * P * P := by
      have hPP : 0 ≤ P * P := by positivity
      have := mul_le_mul_of_nonneg_right hunit hPP
      linarith
    have hcube : P * P ≤ P * P * P := by
      have hPP : 0 ≤ P * P := by positivity
      have := mul_le_mul_of_nonneg_left (show 1 ≤ P by omega) hPP
      linarith
    have hqr : 0 ≤ q * P * r := by positivity
    have hnr : 2 * (n * r) ≤ n * P * r := by
      have hnr0 : 0 ≤ n * r := by positivity
      have := mul_le_mul_of_nonneg_right (show 2 ≤ P by omega) hnr0
      linarith
    have hmul : P * P * P < r * (2 * d + 2 * n) * P := by linarith
    exact lt_of_mul_lt_mul_right hmul hP0.le
  have hscaled : 2 * (q * P) * r < (n * P + 4 * n + P + 2 * d) * r := by linarith
  exact lt_of_mul_lt_mul_right hscaled hr.le

/-- What the constant product leaves, from the base and the pool before. -/
theorem left_lower {y : Int} (hP : 0 < P) (hn : 0 ≤ n) (hd : 0 < d) (ha : 0 ≤ a)
    (hq : 2 * (cp * P * P) < 2 * (q * (a + n * P) * P) + (a + n * P) * P + 2 * (a + n * P))
    (hpool : 2 * (a * d) ≤ 2 * (cp * P) + d) (hcp : 2 * (cp * P) ≤ 2 * (b * b) + P)
    (hcp' : 2 * (b * b) ≤ 2 * (cp * P) + P) (hy : 2 * (q * P) + P + 2 ≤ y) (hy0 : 0 ≤ y) :
    2 * d * P * (2 * (b * b) - P) < y * (2 * (b * b) + P + d + 2 * (n * P * d)) := by
  have hsum : 0 ≤ a + n * P := by positivity
  have hbound : (2 * (q * P) + P + 2) * (a + n * P) ≤ y * (a + n * P) :=
    mul_le_mul_of_nonneg_right hy hsum
  have hprod : 2 * (cp * P * P) < y * (a + n * P) := by linarith
  have hpools : 2 * d * (a + n * P) ≤ 2 * (b * b) + P + d + 2 * (n * P * d) := by linarith
  calc 2 * d * P * (2 * (b * b) - P)
      ≤ 2 * d * P * (2 * (cp * P)) := by
        apply mul_le_mul_of_nonneg_left (by linarith)
        positivity
    _ = 2 * d * (2 * (cp * P * P)) := by ring
    _ < 2 * d * (y * (a + n * P)) := mul_lt_mul_of_pos_left hprod (by omega)
    _ = y * (2 * d * (a + n * P)) := by ring
    _ ≤ y * (2 * (b * b) + P + d + 2 * (n * P * d)) := mul_le_mul_of_nonneg_left hpools hy0

/-- Within the limit the base is not small against the offer. -/
theorem base_lower (hP : 0 < P) (hn : 1 ≤ n) (hd : 0 < d)
    (hlim : (n * P + 2 * d + 4 * P) * (b * b + n * P * d) ≤ P * d * (b * b)) :
    5 * P ≤ b * b := by
  have hbb : 0 ≤ b * b := mul_self_nonneg b
  have hPd : 0 < P * d := by positivity
  have hoffer : 5 * P * (P * d) ≤ (n * P + 2 * d + 4 * P) * (b * b + n * P * d) := by
    have hfirst : 5 * P ≤ n * P + 2 * d + 4 * P := by
      have := mul_le_mul_of_nonneg_right hn hP.le
      linarith
    have hsecond : P * d ≤ b * b + n * P * d := by
      have := mul_le_mul_of_nonneg_right hn hPd.le
      linarith
    exact mul_le_mul hfirst hsecond hPd.le (by linarith)
  have hmul : 5 * P * (P * d) ≤ b * b * (P * d) := by linarith
  exact le_of_mul_le_mul_right hmul hPd

/-- Within the limit, a swap of DO leaves something in the pool. -/
theorem value_lt_pool (hP : 12 ≤ P) (hn : 1 ≤ n) (hr : 0 < r) (hd : 0 < d) (ha : 0 ≤ a)
    (hq0 : 0 ≤ q)
    (hnet : 2 * (net * P * P) < 2 * ((d - q) * P * r) + n * P * r + 2 * (n * r) + P * P)
    (hunit : P ≤ net) (hm : 2 * (m * r) ≤ 2 * (net * P) + r)
    (hq : 2 * (cp * P * P) < 2 * (q * (a + n * P) * P) + (a + n * P) * P + 2 * (a + n * P))
    (hpool : 2 * (a * d) ≤ 2 * (cp * P) + d) (hcp : 2 * (cp * P) ≤ 2 * (b * b) + P)
    (hcp' : 2 * (b * b) ≤ 2 * (cp * P) + P)
    (hlim : (n * P + 2 * d + 4 * P) * (b * b + n * P * d) ≤ P * d * (b * b)) : m < d := by
  by_contra hdm
  have hP0 : 0 < P := by omega
  have hleft := left_upper hP hn hr hq0 hnet hunit hm (not_lt.mp hdm)
  have hnP : 12 * n ≤ n * P := by
    have := mul_le_mul_of_nonneg_left hP (show 0 ≤ n by omega)
    linarith
  have hlower := left_lower hP0 (by omega) hd ha hq hpool hcp hcp'
    (show 2 * (q * P) + P + 2 ≤ n * P + 4 * n + 2 * d + 2 * P + 2 by linarith) (by linarith)
  have hbase := base_lower hP0 hn hd hlim
  generalize hy : n * P + 4 * n + 2 * d + 2 * P + 2 = y at hlower
  generalize hw : 2 * (b * b) + 2 * (n * P * d) = w
  have hPd : 0 < P * d := by positivity
  have hnPd : P * d ≤ n * P * d := by
    have := mul_le_mul_of_nonneg_right hn hPd.le
    linarith
  have hdPd : d ≤ P * d := by
    have := mul_le_mul_of_nonneg_right (show 1 ≤ P by omega) hd.le
    linarith
  have hw₁ : 2 * (P + d) ≤ w := by linarith
  have hw₂ : 2 * (P * d) ≤ w := by linarith
  -- the limit leaves more room than the rounding takes
  have hroom : (2 * (n * P + 2 * d + 4 * P) - y) * w < y * (P + d) + 2 * d * P * P := by
    have hlim' : 2 * (n * P + 2 * d + 4 * P) * w ≤ 2 * (2 * (P * d * (b * b))) := by
      rw [← hw]
      linarith
    have hlower' : 2 * (2 * (P * d * (b * b))) - 2 * d * P * P < y * (w + (P + d)) := by
      rw [← hw]
      linarith
    linarith
  have hgap : y + 6 * P ≤ 2 * (2 * (n * P + 2 * d + 4 * P) - y) := by linarith
  have hwide : (y + 6 * P) * w ≤ 2 * (2 * (n * P + 2 * d + 4 * P) - y) * w :=
    mul_le_mul_of_nonneg_right hgap (by linarith)
  have hyw : y * (2 * (P + d)) ≤ y * w := mul_le_mul_of_nonneg_left hw₁ (by linarith)
  have hPw : 6 * P * (2 * (P * d)) ≤ 6 * P * w := mul_le_mul_of_nonneg_left hw₂ (by linarith)
  have hPPd : 0 < P * P * d := by positivity
  linarith

end Arithmetic

/-! ## What an event does to the pool -/

/-- How the spread of the pool is computed: an offer of DO enters the pool of the other assets
and is paid from the pool of DO, any other offer the other way round. -/
theorem poolSpread_inv {s : State} {offerDenom : String} {offer spread : LegacyDec}
    (h : poolSpread s offerDenom offer = .ok spread) :
    ∃ cp a q : LegacyDec, cp.i = LegacyDec.mulRaw s.params.basePool s.params.basePool ∧
      a.i = LegacyDec.quoRaw cp ⟨doPool s⟩ ∧
      q.i = LegacyDec.quoRaw cp ⟨(if offerDenom ≠ microDoDenom then ⟨doPool s⟩ else a).i + offer.i⟩ ∧
      spread.i = max s.params.minStabilitySpread.i (LegacyDec.quoRaw
        ⟨offer.i - ((if offerDenom ≠ microDoDenom then a else ⟨doPool s⟩).i - q.i)⟩ offer) := by
  have hmax : ∀ x m : LegacyDec, (if x < m then m else x).i = max m.i x.i := by
    intro x m
    split_ifs with hlt
    · exact (max_eq_left (le_of_lt hlt)).symm
    · exact (max_eq_right (Int.not_lt.mp hlt)).symm
  simp only [poolSpread, Outcome.bind_eq_ok, LegacyDec.mul, LegacyDec.add, LegacyDec.sub,
    LegacyDec.check_eq_ok, LegacyDec.quo_eq_ok, Outcome.ok.injEq] at h
  obtain ⟨cp, ⟨_, rfl⟩, pool, ⟨_, rfl⟩, a, ⟨_, _, rfl⟩, sum, ⟨_, rfl⟩, q, ⟨_, _, rfl⟩, _, ⟨_, rfl⟩, _,
    ⟨_, rfl⟩, spread₀, ⟨_, _, rfl⟩, rfl⟩ := h
  exact ⟨_, _, _, rfl, rfl, rfl, hmax _ _⟩

/-- The spread of a swap of DO is no smaller than the one the pool gives. -/
theorem poolSpread_do {s : State} {offer spread : LegacyDec}
    (h : poolSpread s microDoDenom offer = .ok spread) :
    ∃ cp a q : LegacyDec, cp.i = LegacyDec.mulRaw s.params.basePool s.params.basePool ∧
      a.i = LegacyDec.quoRaw cp ⟨doPool s⟩ ∧ q.i = LegacyDec.quoRaw cp ⟨a.i + offer.i⟩ ∧
      LegacyDec.quoRaw ⟨offer.i - (doPool s - q.i)⟩ offer ≤ spread.i := by
  obtain ⟨cp, a, q, hcp, ha, hq, hspread⟩ := poolSpread_inv h
  rw [if_neg (not_not.mpr rfl)] at hq hspread
  exact ⟨cp, a, q, hcp, ha, hq, hspread ▸ le_max_right _ _⟩

theorem computeSwap_do {s : State} {offer : Coin} {askDenom : String} {ret : DecCoin}
    {spread : LegacyDec} (h : computeSwap s offer askDenom = .ok (ret, spread))
    (hdo : offer.denom = microDoDenom) :
    askDenom ≠ microDoDenom ∧ 0 < offer.amount ∧
      (∃ rate, getDoExchangeRate s askDenom = some rate ∧ 0 < rate.i ∧
        ret = ⟨askDenom, ⟨offer.amount * rate.i⟩⟩) ∧
      poolSpread s microDoDenom (LegacyDec.ofInt offer.amount) = .ok spread := by
  obtain ⟨hne, _, hpos, _, hret, base, hbase, hconv, hspread⟩ := computeSwap_inv h
  rw [hdo] at hne hbase hspread
  obtain rfl : ⟨microDoDenom, LegacyDec.ofInt offer.amount⟩ = base := by
    rw [computeInternalSwap, if_pos rfl] at hbase
    exact Outcome.ok.inj hbase
  obtain ⟨offerRate, askRate, hone, hrate, _, rfl, _⟩ := computeInternalSwap_inv hconv hne
  obtain rfl : LegacyDec.one = offerRate := by
    rw [getDoExchangeRate, if_pos rfl] at hone
    exact Option.some.inj hone
  rw [LegacyDec.quoRaw_one, LegacyDec.mulRaw_ofInt] at hret ⊢
  rw [swapSpread, if_neg (fun hc => hc.1 rfl)] at hspread
  exact ⟨hne.symm, hpos, ⟨askRate, hrate, pos_of_mul_pos_right hret hpos.le, rfl⟩, hspread⟩

/-- A swap of DO lowers the pool by the value of the net amount. -/
theorem applySwapToPool_do {s s' : State} {offer : Coin} {askDenom : String} {net rate : LegacyDec}
    (h : applySwapToPool s offer ⟨askDenom, net⟩ = .ok s') (hdo : offer.denom = microDoDenom)
    (hask : askDenom ≠ microDoDenom) (hrate : getDoExchangeRate s askDenom = some rate) :
    doPool s' = doPool s - LegacyDec.quoRaw net rate := by
  simp only [applySwapToPool, poolDeltaAfter, hdo, hask, ne_eq, not_true_eq_false, false_and,
    not_false_eq_true, and_self, if_false, if_true, Outcome.bind_eq_ok, LegacyDec.sub,
    LegacyDec.check_eq_ok, Outcome.ok.injEq] at h
  obtain ⟨delta, ⟨value, hconv, _, rfl⟩, rfl⟩ := h
  obtain ⟨offerRate, askRate, hoffer, hone, _, rfl, _⟩ := computeInternalSwap_inv hconv hask
  obtain rfl : LegacyDec.one = askRate := by
    rw [getDoExchangeRate, if_pos rfl] at hone
    exact Option.some.inj hone
  obtain rfl : rate = offerRate := Option.some.inj (hrate.symm.trans hoffer)
  obtain ⟨hparams, _, hdelta⟩ := setDoPoolDelta_frame s
    ⟨(getDoPoolDelta s).i - LegacyDec.quoRaw ⟨LegacyDec.mulRaw net .one⟩ rate⟩
  rw [doPool, doPool, hparams, hdelta, LegacyDec.mulRaw_one]
  show s.params.basePool.i + ((getDoPoolDelta s).i - LegacyDec.quoRaw net rate) = _
  omega

/-- A swap for DO, or of two other coins, does not lower the pool. -/
theorem applySwapToPool_other {s s' : State} {offer : Coin} {ask : DecCoin}
    (h : applySwapToPool s offer ask = .ok s') (hdo : offer.denom ≠ microDoDenom) :
    doPool s ≤ doPool s' := by
  by_cases hask : ask.denom = microDoDenom
  · simp only [applySwapToPool, poolDeltaAfter, hdo, hask, ne_eq, not_true_eq_false,
      not_false_eq_true, and_false, and_self, if_false, if_true, Outcome.bind_eq_ok,
      newDecCoinFromCoin_eq_ok, LegacyDec.add, LegacyDec.check_eq_ok, Outcome.ok.injEq] at h
    obtain ⟨delta, ⟨_, ⟨_, _, rfl⟩, value, hconv, _, rfl⟩, rfl⟩ := h
    obtain ⟨_, _, _, _, _, _, hpos⟩ := computeInternalSwap_inv hconv hdo
    obtain ⟨hparams, _, hdelta⟩ := setDoPoolDelta_frame s ⟨(getDoPoolDelta s).i + value.amount.i⟩
    rw [doPool, doPool, hparams, hdelta]
    show _ ≤ s.params.basePool.i + ((getDoPoolDelta s).i + value.amount.i)
    omega
  · rw [applySwapToPool, if_pos ⟨hdo, hask⟩] at h
    cases h
    exact Int.le_refl _

/-- Within the limit, the value of what a swap of DO pays is less than the pool. -/
theorem paid_lt_pool {s : State} {n : Int} {rate spread fee : LegacyDec} (hpool : 0 < doPool s)
    (hn : 0 < n) (hr : 0 < rate.i)
    (hspread : poolSpread s microDoDenom (LegacyDec.ofInt n) = .ok spread) (hfee0 : 0 ≤ fee.i)
    (hfee : fee.i = if spread.IsPositive then LegacyDec.mulRaw spread ⟨n * rate.i⟩ else 0)
    (hunit : (LegacyDec.precision : Int) ≤ n * rate.i - fee.i)
    (hlim : WithinLimit s ⟨microDoDenom, n⟩) :
    LegacyDec.quoRaw ⟨n * rate.i - fee.i⟩ rate < doPool s := by
  have hP : (12 : Int) ≤ LegacyDec.precision := by norm_num [LegacyDec.precision]
  have hP0 : (0 : Int) < LegacyDec.precision := by omega
  have hoffer : 0 < n * LegacyDec.precision := Int.mul_pos hn hP0
  obtain ⟨cp, a, q, hcp, ha, hq, hs₀⟩ := poolSpread_do hspread
  have hcp0 : 0 ≤ cp.i := by
    rw [hcp]
    exact HalfEven.div_nonneg (mul_self_nonneg _)
  have ha0 : 0 ≤ a.i := by
    rw [ha]
    exact LegacyDec.quoRaw_nonneg hcp0 hpool.le
  have hsum : 0 < a.i + n * LegacyDec.precision := by omega
  have hq0 : 0 ≤ q.i := by
    rw [hq]
    exact LegacyDec.quoRaw_nonneg hcp0 hsum.le
  have hvalue := LegacyDec.quoRaw_upper (a := ⟨n * rate.i - fee.i⟩)
    (show 0 ≤ n * rate.i - fee.i by omega) hr
  generalize LegacyDec.quoRaw ⟨n * rate.i - fee.i⟩ rate = m at hvalue ⊢
  by_cases hx : 0 ≤ n * LegacyDec.precision - (doPool s - q.i)
  · -- the spread is that of the pool or higher
    have hcharged : 2 * (spread.i * (n * rate.i)) ≤ 2 * (fee.i * LegacyDec.precision)
        + LegacyDec.precision := by
      rw [hfee]
      split_ifs with hs
      · exact (LegacyDec.mulRaw_bounds spread ⟨n * rate.i⟩).2
      · have hnonpos : spread.i * (n * rate.i) ≤ 0 :=
          mul_nonpos_of_nonpos_of_nonneg (not_lt.mp hs) (Int.mul_pos hn hr).le
        omega
    have hnet := net_upper hP0 hn hr rfl
      (LegacyDec.quoRaw_lower (a := ⟨n * LegacyDec.precision - (doPool s - q.i)⟩)
        (b := LegacyDec.ofInt n) hx hoffer) hs₀ hcharged rfl
    have hqlow := LegacyDec.quoRaw_lower (b := ⟨a.i + n * LegacyDec.precision⟩) hcp0 hsum
    have hapool := LegacyDec.quoRaw_upper (b := ⟨doPool s⟩) hcp0 hpool
    have hbounds := LegacyDec.mulRaw_bounds s.params.basePool s.params.basePool
    rw [← hcp] at hbounds
    rw [← ha] at hapool
    change q.i = LegacyDec.quoRaw cp ⟨a.i + n * LegacyDec.precision⟩ at hq
    rw [← hq] at hqlow
    exact value_lt_pool hP hn hr hpool ha0 hq0 hnet hunit hvalue hqlow hapool hbounds.1 hbounds.2
      (hlim rfl)
  · -- the offer alone is less than the pool
    have hle : m * rate.i ≤ n * LegacyDec.precision * rate.i := by
      have hfeeP : 0 ≤ fee.i * LegacyDec.precision := Int.mul_nonneg hfee0 hP0.le
      by_contra hlt
      have hstep : (n * LegacyDec.precision + 1) * rate.i ≤ m * rate.i := by
        apply Int.mul_le_mul_of_nonneg_right ?_ hr.le
        exact Int.add_one_le_iff.mpr (lt_of_mul_lt_mul_right (not_le.mp hlt) hr.le)
      linarith
    have hmn : m ≤ n * LegacyDec.precision := le_of_mul_le_mul_right hle hr
    omega

theorem doPool_swap {env : Env} {s s' : State} {trader receiver : AccAddress} {offer : Coin}
    {askDenom : String} {res : SwapResponse}
    (h : handleSwapRequest env s trader receiver offer askDenom = .ok (s', res))
    (hpool : 0 < doPool s) (hlim : WithinLimit s offer) : 0 < doPool s' := by
  obtain ⟨ret, spread, fee, s₁, _, hcompute, hfee, happly, _, _, _, hcoin, hpos, _, _, hs'⟩ :=
    handleSwapRequest_inv h
  have hsame : doPool s' = doPool s₁ := by rw [hs']; rfl
  rw [hsame]
  by_cases hdo : offer.denom = microDoDenom
  · obtain ⟨hask, hn, ⟨rate, hrate, hr, rfl⟩, hspread⟩ := computeSwap_do hcompute hdo
    obtain ⟨_, hfee0, hfeeEq⟩ := spreadFee_inv hfee
    have hP0 : (0 : Int) < LegacyDec.precision := by exact_mod_cast LegacyDec.precision_pos
    have hunit : (LegacyDec.precision : Int) ≤ offer.amount * rate.i - fee.amount.i := by
      have hcoin' : res.swapCoin.amount
          = (offer.amount * rate.i - fee.amount.i) / LegacyDec.precision := by rw [hcoin]
      rw [hcoin'] at hpos
      have hone := Int.mul_le_of_le_ediv hP0 (Int.add_one_le_iff.mpr hpos)
      omega
    have hlim' : WithinLimit s ⟨microDoDenom, offer.amount⟩ := fun _ => hlim hdo
    have hlt := paid_lt_pool hpool hn hr hspread hfee0 hfeeEq hunit hlim'
    rw [applySwapToPool_do happly hdo hask hrate]
    exact Int.sub_pos_of_lt hlt
  · have hle := applySwapToPool_other happly hdo
    omega

/-- A truncated part of a number lies between zero and the number. -/
theorem tdiv_between {p : Int} (hp : 0 < p) (d : Int) :
    (0 ≤ d → 0 ≤ d.tdiv p ∧ d.tdiv p ≤ d) ∧ (d ≤ 0 → d ≤ d.tdiv p ∧ d.tdiv p ≤ 0) := by
  refine ⟨?_, ?_⟩
  · intro hd
    rw [Int.tdiv_eq_ediv_of_nonneg hd]
    exact ⟨Int.ediv_nonneg hd hp.le, Int.ediv_le_self _ hd⟩
  · intro hd
    have hneg : 0 ≤ -d := by omega
    have hopp : (-d).tdiv p = -d / p := Int.tdiv_eq_ediv_of_nonneg hneg
    have hnonneg : 0 ≤ -d / p := Int.ediv_nonneg hneg hp.le
    have hle : -d / p ≤ -d := Int.ediv_le_self p hneg
    rw [Int.neg_tdiv] at hopp
    omega

/-- Replenishing moves the pool towards its base. -/
theorem doPool_replenish {s s' : State} (h : replenishPools s = .ok s')
    (hbase : 0 < s.params.basePool.i) (hperiod : 1 ≤ s.params.poolRecoveryPeriod)
    (hint : s.params.poolRecoveryPeriod < 2 ^ 63) (hpool : 0 < doPool s) : 0 < doPool s' := by
  have hwrap : wrap64 s.params.poolRecoveryPeriod = s.params.poolRecoveryPeriod :=
    wrap64_eq (by omega) (by omega)
  have hne : (s.params.poolRecoveryPeriod : Int) ≠ 0 := by omega
  simp only [replenishPools, hwrap, LegacyDec.quoInt64, hne, if_false, Outcome.ok_bind,
    LegacyDec.sub, Outcome.bind_eq_ok, LegacyDec.check_eq_ok, Outcome.ok.injEq] at h
  obtain ⟨delta, ⟨_, rfl⟩, rfl⟩ := h
  obtain ⟨hparams, _, hdelta⟩ := setDoPoolDelta_frame s
    ⟨(getDoPoolDelta s).i - (getDoPoolDelta s).i.tdiv s.params.poolRecoveryPeriod⟩
  rw [doPool, hparams, hdelta]
  rw [doPool] at hpool
  have hpart := tdiv_between (p := s.params.poolRecoveryPeriod) (by omega) (getDoPoolDelta s).i
  show 0 < s.params.basePool.i +
    ((getDoPoolDelta s).i - (getDoPoolDelta s).i.tdiv s.params.poolRecoveryPeriod)
  omega

/-! ## Whole runs -/

theorem handleSwapRequest_params {env : Env} {s s' : State} {trader receiver : AccAddress}
    {offer : Coin} {askDenom : String} {res : SwapResponse}
    (h : handleSwapRequest env s trader receiver offer askDenom = .ok (s', res)) :
    s'.params = s.params := by
  obtain ⟨_, _, _, _, _, _, _, happly, _, _, _, _, _, _, _, hs'⟩ := handleSwapRequest_inv h
  rw [hs']
  exact (applySwapToPool_frame happly).1

theorem replenishPools_params {s s' : State} (h : replenishPools s = .ok s') : s'.params = s.params := by
  obtain ⟨_, _, h⟩ := Outcome.bind_eq_ok.mp h
  obtain ⟨delta, _, hset⟩ := Outcome.bind_eq_ok.mp h
  cases hset
  exact (setDoPoolDelta_frame s delta).1

/-- One event within the limit keeps the parameters and a positive pool. -/
theorem Step.keeps_pool {env : Env} (st : Step env) {p : Params} (hbase : 0 < p.basePool.i)
    (hperiod : 1 ≤ p.poolRecoveryPeriod) (hint : p.poolRecoveryPeriod < 2 ^ 63)
    (hlim : st.event.WithinLimit st.before)
    (h : st.before.params = p ∧ 0 < doPool st.before) :
    st.after.params = p ∧ 0 < doPool st.after := by
  obtain ⟨before, event, after, occurs⟩ := st
  obtain ⟨rfl, hpool⟩ := h
  cases event with
  | swap m =>
    obtain ⟨_, res, hswap⟩ := occurs
    obtain ⟨addr, _, hreq⟩ := Outcome.bind_eq_ok.mp hswap
    exact ⟨handleSwapRequest_params hreq, doPool_swap hreq hpool hlim⟩
  | swapSend m =>
    obtain ⟨_, res, hswap⟩ := occurs
    obtain ⟨fromAddr, _, hswap⟩ := Outcome.bind_eq_ok.mp hswap
    obtain ⟨toAddr, _, hreq⟩ := Outcome.bind_eq_ok.mp hswap
    exact ⟨handleSwapRequest_params hreq, doPool_swap hreq hpool hlim⟩
  | replenishPools =>
    exact ⟨replenishPools_params occurs, doPool_replenish occurs hbase hperiod hint hpool⟩
  | other =>
    refine ⟨occurs.1, ?_⟩
    show 0 < after.params.basePool.i + (after.doPoolDelta.getD .zero).i
    rw [occurs.1, occurs.2]
    exact hpool

/-- From a pool at its base, a run whose swaps are within the limit never empties the
pool. -/
theorem pool_stays_positive {env : Env} {s₀ s : State} {steps : List (Step env)}
    (hbase : 0 < s₀.params.basePool.i) (hperiod : 1 ≤ s₀.params.poolRecoveryPeriod)
    (hint : s₀.params.poolRecoveryPeriod < 2 ^ 63) (hdelta : getDoPoolDelta s₀ = .zero)
    (hrun : Trace Step.before Step.after s₀ steps s)
    (hlim : ∀ st ∈ steps, st.event.WithinLimit st.before) :
    0 < doPool s ∧ ∀ st ∈ steps, 0 < doPool st.before ∧ 0 < doPool st.after := by
  have hstart : s₀.params = s₀.params ∧ 0 < doPool s₀ := by
    refine ⟨rfl, ?_⟩
    rw [doPool, hdelta]
    show 0 < s₀.params.basePool.i + 0
    omega
  have hstep : ∀ st ∈ steps, (st.before.params = s₀.params ∧ 0 < doPool st.before) →
      st.after.params = s₀.params ∧ 0 < doPool st.after :=
    fun st hst => st.keeps_pool hbase hperiod hint (hlim st hst)
  refine ⟨(hrun.invariant (I := fun s => s.params = s₀.params ∧ 0 < doPool s) hstep hstart).2, ?_⟩
  intro st hst
  obtain ⟨hbefore, hafter⟩ :=
    hrun.always (I := fun s => s.params = s₀.params ∧ 0 < doPool s) hstep hstart st hst
  exact ⟨hbefore.2, hafter.2⟩

namespace Sample

open Sdk.Sample

def aliceSwaps (n : Int) : MsgSwap := ⟨aliceText, ⟨microDoDenom, n⟩, "uusd"⟩

/-- With the default parameters, one swap of 1.2 * 10^30 udo takes the whole pool and
more. -/
theorem one_swap_empties : ∃ (steps : List (Step app)) (s : State),
    Trace Step.before Step.after (stateOf (12 * 10 ^ 29)) steps s ∧
    getDoPoolDelta (stateOf (12 * 10 ^ 29)) = .zero ∧ ¬ 0 < doPool s := by
  have hrun : (swap app (stateOf (12 * 10 ^ 29)) (aliceSwaps (12 * 10 ^ 29))).value.map
      (fun p => doPool p.1) = some (-(2 * 10 ^ 29)) := by decide +kernel
  obtain ⟨⟨s', res⟩, hok, hpool⟩ := Outcome.value_map_eq_some.mp hrun
  have hvalid : (aliceSwaps (12 * 10 ^ 29)).validateBasic app = .ok () := by decide +kernel
  let st : Step app := ⟨_, .swap (aliceSwaps (12 * 10 ^ 29)), s', hvalid, res, hok⟩
  refine ⟨[st], s', Trace.cons st (.nil s'), rfl, ?_⟩
  have hneg : doPool s' = -(2 * 10 ^ 29) := hpool
  omega

theorem small_swap_keeps_pool : ∃ (steps : List (Step app)) (s : State),
    Trace Step.before Step.after (stateOf (10 ^ 6)) steps s ∧ steps.length = 1 ∧
    0 < doPool s ∧ ∀ st ∈ steps, 0 < doPool st.before ∧ 0 < doPool st.after := by
  have hrun : (swap app (stateOf (10 ^ 6)) (aliceSwaps (10 ^ 6))).value.map (fun _ => ())
      = some () := by decide +kernel
  have hlim : Market.WithinLimit (stateOf (10 ^ 6)) (aliceSwaps (10 ^ 6)).offerCoin := by
    intro _
    decide +kernel
  obtain ⟨⟨s', res⟩, hok, _⟩ := Outcome.value_map_eq_some.mp hrun
  have hvalid : (aliceSwaps (10 ^ 6)).validateBasic app = .ok () := by decide +kernel
  let st : Step app := ⟨_, .swap (aliceSwaps (10 ^ 6)), s', hvalid, res, hok⟩
  have htrace : Trace Step.before Step.after (stateOf (10 ^ 6)) [st] s' := Trace.cons st (.nil s')
  refine ⟨[st], s', htrace, rfl, ?_⟩
  refine pool_stays_positive (by decide +kernel) (by decide) (by decide) rfl htrace ?_
  intro x hx
  rw [List.mem_singleton.mp hx]
  exact hlim

end Sample

end Market
