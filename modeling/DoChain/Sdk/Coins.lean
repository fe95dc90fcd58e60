import DoChain.Lib.SortedMap
import DoChain.Sdk.DecCoin

/- Sets of coins (`Coins`, `DecCoins`): an amount for each denomination, none of them
   zero, in the order of the denominations.

   Correspondence (Go ↔ Lean):
     `Coins.Add`, `DecCoins.Add`   ↔ `addAmount`, at the two kinds of amounts
     `DecCoins.MulDec`             ↔ `DecCoins.mulDec`
     `DecCoins.TruncateDecimal`    ↔ `DecCoins.truncateDecimal`, of which the
                                     truncated coins are used
     `NewDecCoinsFromCoins`        ↔ `newDecCoinsFromCoins`
     `Coins.Sub`, `Coins.Min`      ↔ `CoinSet.sub`, `CoinSet.min`

   A sum of whole amounts panics above 256 bits. Amounts are not negative, so whether
   one of several additions panics does not depend on their order (`add_swap`). -/

namespace Sdk

variable {ε : Type}

/-- The amount after an addition; none where it is zero. An amount is in range already,
so that adding it to zero checks nothing new. -/
def merged {A : Type} [DecidableEq A] (add : A → A → Outcome ε A) (zero : A) (old : Option A) (a : A) :
    Outcome ε (Option A) := do
  let sum ← add (old.getD zero) a
  .ok (if sum = zero then none else some sum)

def addAmount {A : Type} [DecidableEq A] (add : A → A → Outcome ε A) (zero : A)
    (coins : SortedMap String A) (denom : String) (a : A) : Outcome ε (SortedMap String A) := do
  let left ← merged add zero (coins.get denom) a
  .ok (coins.update denom left)

/-! ## Decimal coins -/

abbrev DecCoins := SortedMap String LegacyDec

def DecCoins.add (coins : DecCoins) (c : DecCoin) : Outcome ε DecCoins :=
  addAmount LegacyDec.add .zero coins c.denom c.amount

def DecCoins.mulDec (coins : DecCoins) (d : LegacyDec) : Outcome ε DecCoins :=
  coins.entries.foldlM (fun res e => do
    let product ← e.2.mul d
    if product = .zero then .ok res else DecCoins.add res ⟨e.1, product⟩) SortedMap.empty

/-! ## Whole coins -/

abbrev CoinSet := SortedMap String Nat

/-- `Int.Add` of amounts. -/
def addInt (a b : Nat) : Outcome ε Nat :=
  if a + b < 2 ^ 256 then .ok (a + b) else .panic "Int overflow"

def CoinSet.add (coins : CoinSet) (denom : String) (amount : Nat) : Outcome ε CoinSet :=
  addAmount addInt 0 coins denom amount

def CoinSet.addAll (coins : CoinSet) (more : CoinSet) : Outcome ε CoinSet :=
  more.entries.foldlM (fun coins e => CoinSet.add coins e.1 e.2) coins

def CoinSet.isZero (coins : CoinSet) : Bool := coins.entries.all (fun e => decide (e.2 = 0))

def CoinSet.toCoins (coins : CoinSet) : Coins := coins.entries.map (fun e => ⟨e.1, e.2⟩)

def DecCoins.truncateDecimal (coins : DecCoins) : Outcome ε CoinSet :=
  coins.entries.foldlM (fun res e => do
    let (truncated, _) ← DecCoin.truncateDecimal ⟨e.1, e.2⟩
    if truncated.amount = 0 then .ok res else CoinSet.add res e.1 truncated.amount.toNat) SortedMap.empty

/-- One coin of those that are subtracted. -/
def CoinSet.subCoin (coins : CoinSet) (c : Coin) : Outcome ε CoinSet :=
  let left : Int := ((coins.get c.denom).getD 0 : Nat) - c.amount
  if left < 0 then .panic "negative coin amount"
  else .ok (coins.update c.denom (if left = 0 then none else some left.toNat))

def CoinSet.sub (coins : CoinSet) (less : Coins) : Outcome ε CoinSet := less.foldlM subCoin coins

/-- The smaller amount of each denomination that both have. -/
def CoinSet.min (coins coinsB : CoinSet) : Coins :=
  (coins.entries.map fun e => (⟨e.1, (Nat.min e.2 ((coinsB.get e.1).getD 0) : Nat)⟩ : Coin)).filter
    (fun c => c.amount ≠ 0)

def newDecCoinsFromCoins (coins : CoinSet) : DecCoins := coins.mapVals (fun n : Nat => LegacyDec.ofInt n)

/-! ## Subtractions that succeed -/

/-- Coins of different denominations are subtracted apart. -/
theorem CoinSet.sub_ok {coins : CoinSet} {less : Coins} (hnodup : (less.map Coin.denom).Nodup)
    (h : ∀ c ∈ less, c.amount ≤ (coins.get c.denom).getD 0) :
    ∃ left, (CoinSet.sub coins less : Outcome ε CoinSet) = .ok left := by
  induction less generalizing coins with
  | nil => exact ⟨coins, rfl⟩
  | cons c rest ih =>
    rw [List.map_cons, List.nodup_cons] at hnodup
    obtain ⟨hc, hrest⟩ := List.forall_mem_cons.mp h
    have hleft : ¬ ((((coins.get c.denom).getD 0 : Nat) : Int) - c.amount < 0) := by omega
    rw [CoinSet.sub, List.foldlM_cons, CoinSet.subCoin]
    simp only [hleft, if_false, Outcome.ok_bind]
    apply ih hnodup.2
    intro c' hc'
    have hne : c'.denom ≠ c.denom := fun heq => hnodup.1 (heq ▸ List.mem_map_of_mem hc')
    rw [SortedMap.get_update, if_neg hne]
    exact hrest c' hc'

/-- The smaller amounts can be subtracted. -/
theorem CoinSet.sub_min_ok (coins coinsB : CoinSet) :
    ∃ left, (CoinSet.sub coins (CoinSet.min coins coinsB) : Outcome ε CoinSet) = .ok left := by
  apply CoinSet.sub_ok
  · refine List.Nodup.sublist (List.filter_sublist.map Coin.denom) ?_
    rw [List.map_map]
    exact coins.keys_nodup
  · intro c hc
    obtain ⟨e, he, rfl⟩ := List.mem_map.mp (List.mem_filter.mp hc).1
    have hget : coins.get e.1 = some e.2 := SortedMap.get_eq_some.mpr he
    have hmin : Nat.min e.2 ((coinsB.get e.1).getD 0) ≤ e.2 := Nat.min_le_left _ _
    show ((Nat.min e.2 ((coinsB.get e.1).getD 0) : Nat) : Int) ≤ _
    rw [hget, Option.getD_some]
    exact Int.ofNat_le.mpr hmin

/-- Without its own coins a set is empty. -/
theorem CoinSet.sub_self (coins : CoinSet) :
    (CoinSet.sub coins coins.toCoins : Outcome ε CoinSet) = .ok SortedMap.empty := by
  obtain ⟨entries, hsorted⟩ := coins
  induction entries with
  | nil => rfl
  | cons e rest ih =>
    have hget : SortedMap.get (⟨e :: rest, hsorted⟩ : CoinSet) e.1 = some e.2 :=
      SortedMap.get_eq_some.mpr List.mem_cons_self
    have hdrop : SortedMap.update (⟨e :: rest, hsorted⟩ : CoinSet) e.1 none =
        ⟨rest, (List.pairwise_cons.mp hsorted).2⟩ := by
      apply SortedMap.ext_get
      intro k
      rw [SortedMap.get_update]
      split_ifs with hk
      · refine (SortedMap.find_eq_none ?_).symm
        intro e' he'
        exact hk ▸ ((List.pairwise_cons.mp hsorted).1 e' he').ne
      · exact if_neg hk
    have hfirst : (CoinSet.subCoin ⟨e :: rest, hsorted⟩ ⟨e.1, e.2⟩ : Outcome ε CoinSet) =
        .ok ⟨rest, (List.pairwise_cons.mp hsorted).2⟩ := by
      simp only [CoinSet.subCoin, hget, Option.getD_some, Int.sub_self, lt_self_iff_false, if_false, if_true,
        hdrop]
    exact Outcome.bind_eq_ok.mpr ⟨_, hfirst, ih _⟩

/-! ## Amounts that are added once -/

section Fresh

variable {A : Type} [DecidableEq A] {add : A → A → Outcome ε A} {zero : A}

/-- An amount as an entry: none where it is zero. -/
def nonZero (zero a : A) : Option A := if a = zero then none else some a

theorem nonZero_getD (a : A) : (nonZero zero a).getD zero = a := by
  unfold nonZero
  split_ifs with h
  · exact h.symm
  · rfl

theorem addAmount_eq {coins : SortedMap String A} {denom : String} {a sum : A}
    (hadd : add ((coins.get denom).getD zero) a = .ok sum) :
    addAmount add zero coins denom a = .ok (coins.update denom (nonZero zero sum)) := by
  rw [addAmount, merged, hadd]
  rfl

/-- A loop that adds one amount under each of several denominations. -/
theorem foldlM_fresh {α : Type} (zero : A) (key : α → String) (val : α → A)
    {f : SortedMap String A → α → Outcome ε (SortedMap String A)} {l : List α} (hnodup : (l.map key).Nodup)
    (hf : ∀ x ∈ l, ∀ m, m.get (key x) = none → f m x = .ok (m.update (key x) (nonZero zero (val x))))
    {m : SortedMap String A} (hm : ∀ x ∈ l, m.get (key x) = none) :
    ∃ m', l.foldlM f m = .ok m' ∧ (∀ x ∈ l, m'.get (key x) = nonZero zero (val x)) ∧
      ∀ k ∉ l.map key, m'.get k = m.get k := by
  induction l generalizing m with
  | nil => exact ⟨m, rfl, fun x hx => (nomatch hx), fun k _ => rfl⟩
  | cons x rest ih =>
    rw [List.map_cons, List.nodup_cons] at hnodup
    obtain ⟨hx, hrest⟩ := List.forall_mem_cons.mp hf
    obtain ⟨hmx, hmrest⟩ := List.forall_mem_cons.mp hm
    have hother : ∀ y ∈ rest, key y ≠ key x := fun y hy heq => hnodup.1 (heq ▸ List.mem_map_of_mem hy)
    obtain ⟨m', hm', hin, hout⟩ := ih hnodup.2 hrest (m := m.update (key x) (nonZero zero (val x))) (by
      intro y hy
      rw [SortedMap.get_update, if_neg (hother y hy)]
      exact hmrest y hy)
    refine ⟨m', ?_, ?_, ?_⟩
    · rw [List.foldlM_cons, hx m hmx]
      exact hm'
    · refine List.forall_mem_cons.mpr ⟨?_, hin⟩
      rw [hout _ hnodup.1, SortedMap.get_update, if_pos rfl]
    · intro k hk
      rw [List.map_cons, List.mem_cons, not_or] at hk
      rw [hout k hk.2, SortedMap.get_update, if_neg hk.1]

/-- The same for the entries of a map, into an empty one. -/
theorem foldlM_entries {V : Type} (zero : A) (val : String × V → A) {coins : SortedMap String V}
    {f : SortedMap String A → String × V → Outcome ε (SortedMap String A)}
    (hf : ∀ e ∈ coins.entries, ∀ m, m.get e.1 = none → f m e = .ok (m.update e.1 (nonZero zero (val e)))) :
    ∃ m', coins.entries.foldlM f SortedMap.empty = .ok m' ∧
      ∀ d, m'.get d = (coins.get d).bind fun v => nonZero zero (val (d, v)) := by
  obtain ⟨m', hm', hin, hout⟩ := foldlM_fresh zero Prod.fst val coins.keys_nodup hf (m := SortedMap.empty) (fun _ _ => rfl)
  refine ⟨m', hm', ?_⟩
  intro d
  cases hd : coins.get d with
  | some v => exact hin (d, v) (SortedMap.get_eq_some.mp hd)
  | none =>
    refine hout d ?_
    intro hmem
    obtain ⟨e, he, rfl⟩ := List.mem_map.mp hmem
    rw [SortedMap.get_eq_some.mpr he] at hd
    cases hd

end Fresh

theorem DecCoins.mulDec_ok {coins : DecCoins} {d : LegacyDec}
    (h : ∀ e ∈ coins.entries, LegacyDec.Fits (e.2.mulRaw d)) :
    ∃ m : DecCoins, (DecCoins.mulDec coins d : Outcome ε DecCoins) = .ok m ∧
      ∀ k, m.get k = (coins.get k).bind fun a => nonZero .zero ⟨a.mulRaw d⟩ := by
  refine foldlM_entries LegacyDec.zero (fun e : String × LegacyDec => ⟨e.2.mulRaw d⟩) ?_
  intro e he m hm
  have hfits := h e he
  rw [LegacyDec.mul, LegacyDec.check, if_pos hfits, Outcome.ok_bind]
  split_ifs with hzero
  · rw [nonZero, if_pos hzero, SortedMap.update_of_get hm]
  · apply addAmount_eq
    rw [hm, Option.getD_none, LegacyDec.add, LegacyDec.zero, zero_add]
    exact LegacyDec.check_eq_ok.mpr ⟨hfits, rfl⟩

theorem DecCoins.truncateDecimal_ok {coins : DecCoins}
    (h : ∀ e ∈ coins.entries, validDenom e.1 = true ∧ 0 ≤ e.2.i ∧ LegacyDec.Fits e.2.i) :
    ∃ m : CoinSet, (DecCoins.truncateDecimal coins : Outcome ε CoinSet) = .ok m ∧
      ∀ k, m.get k = (coins.get k).bind fun a => nonZero 0 (a.i / LegacyDec.precision).toNat := by
  refine foldlM_entries 0 (fun e : String × LegacyDec => (e.2.i / LegacyDec.precision).toNat) ?_
  intro e he m hm
  obtain ⟨hdenom, hpos, hfits⟩ := h e he
  obtain ⟨rest, htrunc⟩ := DecCoin.truncateDecimal_ok (c := ⟨e.1, e.2⟩) hdenom hpos hfits
  rw [htrunc, Outcome.ok_bind]
  have hwhole : 0 ≤ e.2.i / (LegacyDec.precision : Int) := Int.ediv_nonneg hpos (Int.natCast_nonneg _)
  have hbits := LegacyDec.whole_lt hpos hfits
  dsimp only
  split_ifs with hzero
  · rw [hzero, Int.toNat_zero, nonZero, if_pos rfl, SortedMap.update_of_get hm]
  · apply addAmount_eq
    rw [hm, Option.getD_none, addInt, zero_add, if_pos (by omega)]

/-! ## Sums of whole coins -/

/-- No entry is zero. -/
def CoinSet.Clean (coins : CoinSet) : Prop := ∀ d, coins.get d ≠ some 0

theorem nonZero_ne_zero (a : Nat) : nonZero 0 a ≠ some 0 := by
  unfold nonZero
  split_ifs with h
  · intro heq
    cases heq
  · exact fun heq => h (Option.some.inj heq)

/-- Coins are added entry by entry, as long as every sum has at most 256 bits. -/
theorem CoinSet.addAll_ok {coins more : CoinSet} (hclean : CoinSet.Clean coins)
    (h : ∀ d, (coins.get d).getD 0 + (more.get d).getD 0 < 2 ^ 256) :
    ∃ sum : CoinSet, (CoinSet.addAll coins more : Outcome ε CoinSet) = .ok sum ∧ CoinSet.Clean sum ∧
      ∀ d, (sum.get d).getD 0 = (coins.get d).getD 0 + (more.get d).getD 0 := by
  have hloop : ∀ (es : List (String × Nat)), (es.map Prod.fst).Nodup → ∀ coins : CoinSet,
      CoinSet.Clean coins → (∀ d, (coins.get d).getD 0 + (SortedMap.find d es).getD 0 < 2 ^ 256) →
      ∃ sum : CoinSet, (es.foldlM (fun coins e => CoinSet.add coins e.1 e.2) coins : Outcome ε CoinSet) = .ok sum ∧
        CoinSet.Clean sum ∧ ∀ d, (sum.get d).getD 0 = (coins.get d).getD 0 + (SortedMap.find d es).getD 0 := by
    intro es
    induction es with
    | nil => exact fun _ coins hclean _ => ⟨coins, rfl, hclean, fun d => rfl⟩
    | cons e rest ih =>
      intro hnodup coins hclean hlt
      obtain ⟨hfresh, hnodup⟩ := List.nodup_cons.mp hnodup
      have hnone : SortedMap.find e.1 rest = none :=
        SortedMap.find_eq_none fun e' he' heq => hfresh (List.mem_map.mpr ⟨e', he', heq.symm⟩)
      have hsum : (coins.get e.1).getD 0 + e.2 < 2 ^ 256 := by simpa [SortedMap.find] using hlt e.1
      have hadd : (CoinSet.add coins e.1 e.2 : Outcome ε CoinSet) =
          .ok (coins.update e.1 (nonZero 0 ((coins.get e.1).getD 0 + e.2))) :=
        addAmount_eq (if_pos hsum)
      have hget : ∀ d, ((coins.update e.1 (nonZero 0 ((coins.get e.1).getD 0 + e.2))).get d).getD 0 +
          (SortedMap.find d rest).getD 0 = (coins.get d).getD 0 + (SortedMap.find d (e :: rest)).getD 0 := by
        intro d
        rw [SortedMap.get_update, SortedMap.find]
        split_ifs with hd
        · rw [hd, nonZero_getD, hnone]
          rfl
        · rfl
      obtain ⟨sum, hrun, hclean', heq⟩ := ih hnodup (coins.update e.1 (nonZero 0 ((coins.get e.1).getD 0 + e.2)))
        (by
          intro d
          rw [SortedMap.get_update]
          split_ifs
          · exact nonZero_ne_zero _
          · exact hclean d)
        (fun d => by rw [hget]; exact hlt d)
      refine ⟨sum, ?_, hclean', fun d => (heq d).trans (hget d)⟩
      rw [List.foldlM_cons, hadd]
      exact hrun
  exact hloop more.entries more.keys_nodup coins hclean h

theorem CoinSet.toCoins_isValid {coins : CoinSet} (hclean : CoinSet.Clean coins)
    (hdenom : ∀ d n, coins.get d = some n → validDenom d = true) : Coins.IsValid coins.toCoins := by
  refine ⟨?_, ?_⟩
  · intro c hc
    obtain ⟨e, he, rfl⟩ := List.mem_map.mp hc
    have hget : coins.get e.1 = some e.2 := SortedMap.get_eq_some.mpr he
    have hne : e.2 ≠ 0 := fun hzero => hclean e.1 (hzero ▸ hget)
    exact ⟨hdenom _ _ hget, Int.natCast_pos.mpr (Nat.pos_of_ne_zero hne)⟩
  · exact List.pairwise_map.mpr coins.sorted

/-! ## Additions in another order -/

section Swap

variable {A : Type} [DecidableEq A] {add : A → A → Outcome ε A} {zero : A}

/-- Amounts of different denominations are added apart. -/
theorem addAmount_swap_of_ne {d d' : String} (hne : d ≠ d') (a a' : A) (coins : SortedMap String A) :
    (addAmount add zero coins d a >>= fun coins => addAmount add zero coins d' a').value =
      (addAmount add zero coins d' a' >>= fun coins => addAmount add zero coins d a).value := by
  have hget : ∀ o, (coins.update d o).get d' = coins.get d' := by
    intro o
    rw [SortedMap.get_update, if_neg hne.symm]
  have hget' : ∀ o, (coins.update d' o).get d = coins.get d := by
    intro o
    rw [SortedMap.get_update, if_neg hne]
  unfold addAmount
  cases hm : merged add zero (coins.get d) a <;> cases hm' : merged add zero (coins.get d') a' <;>
    simp [hget, hget', hm, hm', Outcome.value, SortedMap.update_comm hne]

theorem addAmount_swap {d d' : String} (a a' : A) (coins : SortedMap String A)
    (hsame : ∀ old, (merged add zero old a >>= fun old => merged add zero old a').value =
      (merged add zero old a' >>= fun old => merged add zero old a).value) :
    (addAmount add zero coins d a >>= fun coins => addAmount add zero coins d' a').value =
      (addAmount add zero coins d' a' >>= fun coins => addAmount add zero coins d a).value := by
  by_cases hd : d = d'
  · subst hd
    have htwo : ∀ x y, (addAmount add zero coins d x >>= fun coins => addAmount add zero coins d y).value =
        (merged add zero (coins.get d) x >>= fun old => merged add zero old y).value.map
          (fun left => coins.update d left) := by
      intro x y
      unfold addAmount
      cases merged add zero (coins.get d) x with
      | ok left =>
        simp only [Outcome.ok_bind, SortedMap.get_update, if_true, SortedMap.update_update]
        cases merged add zero left y <;> rfl
      | err e => rfl
      | panic m => rfl
    rw [htwo, htwo, hsame]
  · exact addAmount_swap_of_ne hd a a' coins

end Swap

/-- Two amounts are added in either order: the sum of both is the larger one. -/
theorem merged_addInt_swap (a a' : Nat) (old : Option Nat) :
    (merged addInt 0 old a >>= fun old => (merged addInt 0 old a' : Outcome ε (Option Nat))).value =
      (merged addInt 0 old a' >>= fun old => (merged addInt 0 old a : Outcome ε (Option Nat))).value := by
  have hgetD : ∀ n : Nat, (if n = 0 then none else some n).getD 0 = n := by
    intro n
    split_ifs with hn
    · exact hn.symm
    · rfl
  have htwo : ∀ x y, (merged addInt 0 old x >>= fun old =>
      (merged addInt 0 old y : Outcome ε (Option Nat))).value =
      if old.getD 0 + x + y < 2 ^ 256 then
        some (if old.getD 0 + x + y = 0 then none else some (old.getD 0 + x + y))
      else none := by
    intro x y
    unfold merged addInt
    by_cases hx : old.getD 0 + x < 2 ^ 256
    · rw [if_pos hx, Outcome.ok_bind, Outcome.ok_bind, hgetD]
      by_cases hy : old.getD 0 + x + y < 2 ^ 256
      · rw [if_pos hy, if_pos hy]
        rfl
      · rw [if_neg hy, if_neg hy]
        rfl
    · rw [if_neg hx, if_neg (by omega)]
      rfl
  rw [htwo, htwo, Nat.add_right_comm]

theorem CoinSet.add_swap (coins : CoinSet) (d d' : String) (a a' : Nat) :
    (CoinSet.add coins d a >>= fun coins => (CoinSet.add coins d' a' : Outcome ε CoinSet)).value =
      (CoinSet.add coins d' a' >>= fun coins => (CoinSet.add coins d a : Outcome ε CoinSet)).value :=
  addAmount_swap a a' coins (merged_addInt_swap a a')

theorem CoinSet.addAll_swap (coins x y : CoinSet) :
    (CoinSet.addAll coins x >>= fun coins => (CoinSet.addAll coins y : Outcome ε CoinSet)).value =
      (CoinSet.addAll coins y >>= fun coins => (CoinSet.addAll coins x : Outcome ε CoinSet)).value := by
  have happend : ∀ x y : CoinSet,
      (CoinSet.addAll coins x >>= fun coins => (CoinSet.addAll coins y : Outcome ε CoinSet)) =
        (x.entries ++ y.entries).foldlM (fun coins e => CoinSet.add coins e.1 e.2) coins := by
    intro x y
    rw [Outcome.foldlM_append]
    rfl
  rw [happend, happend]
  apply Outcome.foldlM_perm List.perm_append_comm
  intro e _ e' _ coins
  exact CoinSet.add_swap coins e.1 e'.1 e.2 e'.2

end Sdk
