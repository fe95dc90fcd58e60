import DoChain.Lib.Trim
import DoChain.Sdk.DecCoin

/- Decimal coins as texts: an amount, blanks, a denomination.

   Correspondence (Go ↔ Lean):
     `strings.TrimSpace`          ↔ `trimSpace`
     `math.LegacyNewDecFromStr`   ↔ `newDecFromStr`, for texts without a sign
     `sdk.ParseDecCoin`           ↔ `parseDecCoin`

   The regular expression of a coin is deterministic: `splitCoin` is its match. -/

namespace Sdk

/-- The class `[[:space:]]` of a regular expression. -/
def isASCIISpace (c : Char) : Bool := [9, 10, 11, 12, 13, 32].contains c.toNat

/-- `unicode.IsSpace`. -/
def isSpace (c : Char) : Bool :=
  isASCIISpace c || [133, 160, 5760, 8232, 8233, 8239, 8287, 12288].contains c.toNat ||
    (decide (8192 ≤ c.toNat) && decide (c.toNat ≤ 8202))

def trimSpace (s : String) : String := String.ofList (Trim.trim isSpace s.toList)

/-! ## Amounts -/

/-- The digits before and after the point, scaled to 18 of the latter. The numbers of bits that
the range error names are left out. -/
def scaleDigits (str whole frac : List Char) : Except String LegacyDec :=
  if 18 < frac.length then
    .error ("value '" ++ String.ofList str ++ "' exceeds max precision by " ++
      toString ((18 : Int) - frac.length) ++ " decimal places: max precision 18")
  else
    let combined := whole ++ frac ++ List.replicate (18 - frac.length) '0'
    if combined.all Char.isDigit then
      let n := Nat.ofDigitChars 10 combined 0
      if LegacyDec.Fits n then .ok ⟨n⟩
      else .error ("decimal '" ++ String.ofList str ++ "' out of range")
    else .error ("failed to set decimal string with base 10: " ++ String.ofList combined)

def newDecFromStr (str : List Char) : Except String LegacyDec :=
  if str = [] then .error "decimal string cannot be empty"
  else
    let whole := str.takeWhile (fun c => c != '.')
    match str.dropWhile (fun c => c != '.') with
    | [] => scaleDigits str whole []
    | _ :: frac =>
      if '.' ∈ frac then .error "invalid decimal string"
      else if frac = [] ∨ whole = [] then .error "invalid decimal length"
      else scaleDigits str whole frac

/-! ## Coins -/

/-- The amount at the start of a coin, and what follows it. -/
def splitAmount (l : List Char) : Option (List Char × List Char) :=
  let whole := l.takeWhile Char.isDigit
  match l.dropWhile Char.isDigit with
  | '.' :: rest =>
    if rest.takeWhile Char.isDigit = [] then none
    else some (whole ++ '.' :: rest.takeWhile Char.isDigit, rest.dropWhile Char.isDigit)
  | rest => if whole = [] then none else some (whole, rest)

/-- The amount and the denomination of a coin. -/
def splitCoin (l : List Char) : Option (List Char × String) :=
  match splitAmount l with
  | none => none
  | some (amount, rest) =>
    let denom := String.ofList (rest.dropWhile isASCIISpace)
    if validDenom denom then some (amount, denom) else none

def parseDecCoin (s : String) : Except String DecCoin :=
  match splitCoin (trimSpace s).toList with
  | none => .error ("invalid decimal coin expression: " ++ trimSpace s)
  | some (amount, denom) =>
    match newDecFromStr amount with
    | .error e => .error ("failed to parse decimal coin amount: " ++ String.ofList amount ++ ": " ++ e)
    | .ok d => .ok ⟨denom, d⟩

/-! ## What is parsed -/

theorem scaleDigits_range {str whole frac : List Char} {d : LegacyDec} (h : scaleDigits str whole frac = .ok d) :
    0 ≤ d.i ∧ LegacyDec.Fits d.i := by
  unfold scaleDigits at h
  dsimp only at h
  split_ifs at h with hprecision hdigits hfits
  cases h
  exact ⟨Int.natCast_nonneg _, hfits⟩

theorem newDecFromStr_range {str : List Char} {d : LegacyDec} (h : newDecFromStr str = .ok d) :
    0 ≤ d.i ∧ LegacyDec.Fits d.i := by
  unfold newDecFromStr at h
  split_ifs at h
  dsimp only at h
  split at h
  · exact scaleDigits_range h
  · split_ifs at h
    exact scaleDigits_range h

theorem splitAmount_shape {l amount rest : List Char} (h : splitAmount l = some (amount, rest)) :
    l = amount ++ rest ∧ amount ≠ [] ∧ ∀ c ∈ amount, c.isDigit = true ∨ c = '.' := by
  have hdigits : ∀ l : List Char, ∀ c ∈ l.takeWhile Char.isDigit, c.isDigit = true :=
    fun l c hc => List.mem_takeWhile_imp hc
  unfold splitAmount at h
  dsimp only at h
  split at h
  · rename_i tail heq
    split_ifs at h
    cases h
    refine ⟨?_, by simp, ?_⟩
    · rw [List.append_assoc, List.cons_append, List.takeWhile_append_dropWhile, ← heq,
        List.takeWhile_append_dropWhile]
    · intro c hc
      rcases List.mem_append.mp hc with hc | hc
      · exact .inl (hdigits _ c hc)
      · rcases List.mem_cons.mp hc with hc | hc
        · exact .inr hc
        · exact .inl (hdigits _ c hc)
  · split_ifs at h with hne
    cases h
    exact ⟨List.takeWhile_append_dropWhile.symm, hne, fun c hc => .inl (hdigits _ c hc)⟩

theorem isSpace_of_ascii {c : Char} (h : isASCIISpace c = true) : isSpace c = true := by
  rw [isSpace, h]
  rfl

theorem parseDecCoin_inv {s : String} {c : DecCoin} (h : parseDecCoin s = .ok c) :
    ∃ amount rest, splitAmount (trimSpace s).toList = some (amount, rest) ∧
      c.denom = String.ofList (rest.dropWhile isASCIISpace) ∧ validDenom c.denom = true ∧
      newDecFromStr amount = .ok c.amount := by
  unfold parseDecCoin splitCoin at h
  cases hsplit : splitAmount (trimSpace s).toList with
  | none =>
    rw [hsplit] at h
    cases h
  | some parts =>
    obtain ⟨amount, rest⟩ := parts
    rw [hsplit] at h
    dsimp only at h
    by_cases hdenom : validDenom (String.ofList (rest.dropWhile isASCIISpace)) = true
    · rw [if_pos hdenom] at h
      dsimp only at h
      split at h
      · cases h
      · rename_i d hamount
        cases h
        exact ⟨amount, rest, rfl, rfl, hdenom, hamount⟩
    · rw [if_neg hdenom] at h
      cases h

/-- A coin that is parsed: blanks, digits and points, blanks, the denomination, blanks. -/
theorem parseDecCoin_shape {s : String} {c : DecCoin} (h : parseDecCoin s = .ok c) :
    ∃ lead amount gap trail, s.toList = lead ++ (amount ++ (gap ++ (c.denom.toList ++ trail))) ∧ amount ≠ [] ∧
      (∀ x ∈ amount, x.isDigit = true ∨ x = '.') ∧ ∀ x ∈ lead ++ (gap ++ trail), isSpace x = true := by
  obtain ⟨amount, rest, hsplit, hdenom, _, _⟩ := parseDecCoin_inv h
  obtain ⟨heq, hne, hamount⟩ := splitAmount_shape hsplit
  obtain ⟨lead, trail, hs, hlead, htrail⟩ := Trim.exists_trim isSpace s.toList
  refine ⟨lead, amount, rest.takeWhile isASCIISpace, trail, ?_, hne, hamount, ?_⟩
  · rw [trimSpace, String.toList_ofList] at heq
    rw [hdenom, String.toList_ofList, ← List.append_assoc (List.takeWhile _ _), List.takeWhile_append_dropWhile,
      ← List.append_assoc amount, ← heq, ← List.append_assoc]
    exact hs
  · intro x hx
    rcases List.mem_append.mp hx with hx | hx
    · exact hlead x hx
    · rcases List.mem_append.mp hx with hx | hx
      · exact isSpace_of_ascii (List.mem_takeWhile_imp hx)
      · exact htrail x hx

theorem parseDecCoin_valid {s : String} {c : DecCoin} (h : parseDecCoin s = .ok c) :
    validDenom c.denom = true ∧ 0 ≤ c.amount.i ∧ LegacyDec.Fits c.amount.i := by
  obtain ⟨_, _, _, _, hdenom, hamount⟩ := parseDecCoin_inv h
  exact ⟨hdenom, newDecFromStr_range hamount⟩

/-- Blanks around a coin do not matter. -/
theorem parseDecCoin_trimSpace (s : String) : parseDecCoin (trimSpace s) = parseDecCoin s := by
  have htrim : trimSpace (trimSpace s) = trimSpace s := by
    rw [trimSpace, trimSpace, String.toList_ofList, Trim.trim_trim]
  rw [parseDecCoin, htrim, parseDecCoin]

/-! ## Denominations -/

theorem isAlpha_iff {c : Char} :
    c.isAlpha = true ↔ (65 ≤ c.toNat ∧ c.toNat ≤ 90) ∨ (97 ≤ c.toNat ∧ c.toNat ≤ 122) := by
  change (decide (c.val ≥ 65 ∧ c.val ≤ 90) || (decide (c.val ≥ 97) && decide (c.val ≤ 122))) = true ↔ _
  simp only [Bool.or_eq_true, Bool.and_eq_true, decide_eq_true_eq, ge_iff_le, UInt32.le_iff_toNat_le]
  rfl

theorem isDigit_iff {c : Char} : c.isDigit = true ↔ 48 ≤ c.toNat ∧ c.toNat ≤ 57 :=
  Char.isDigit_iff_toNat

theorem denomChar_range {c : Char} (h : denomChar c = true) : 45 ≤ c.toNat ∧ c.toNat ≤ 122 := by
  change ((c.isAlpha || c.isDigit) || _ || _ || _ || _ || _) = true at h
  simp only [Bool.or_eq_true, decide_eq_true_eq, isAlpha_iff, isDigit_iff] at h
  rcases h with ((((h | rfl) | rfl) | rfl) | rfl) | rfl
  · omega
  all_goals decide

/-- The characters of a denomination are no blanks. -/
theorem denomChar_not_space {c : Char} (h : denomChar c = true) : isSpace c = false := by
  obtain ⟨hmin, hmax⟩ := denomChar_range h
  simp [isSpace, isASCIISpace]
  omega

theorem validDenom_chars {d : String} (h : validDenom d = true) :
    ∃ c rest, d.toList = c :: rest ∧ c.isAlpha = true ∧ rest.length ≤ 127 ∧
      ∀ x ∈ d.toList, denomChar x = true := by
  unfold validDenom at h
  split at h
  · cases h
  · rename_i c rest heq
    simp only [Bool.and_eq_true, decide_eq_true_eq, List.all_eq_true] at h
    obtain ⟨⟨⟨hc, _⟩, hlen⟩, hrest⟩ := h
    refine ⟨c, rest, heq, hc, hlen, ?_⟩
    rw [heq]
    refine List.forall_mem_cons.mpr ⟨?_, hrest⟩
    rw [denomChar, show c.isAlphanum = true from Bool.or_eq_true_iff.mpr (.inl hc)]
    rfl

theorem isDigit_of_isAlpha {c : Char} (h : c.isAlpha = true) : c.isDigit = false := by
  rw [isAlpha_iff] at h
  rw [Bool.eq_false_iff, ne_eq, isDigit_iff]
  omega

/-- One of any denomination. -/
theorem parseDecCoin_one {d : String} (h : validDenom d = true) : parseDecCoin ("1" ++ d) = .ok ⟨d, .one⟩ := by
  obtain ⟨c, rest, hd, halpha, _, hchars⟩ := validDenom_chars h
  have htext : ("1" ++ d).toList = '1' :: d.toList := String.toList_append
  have hdigit : c.isDigit = false := isDigit_of_isAlpha halpha
  have hblanks : ∀ x ∈ '1' :: d.toList, isSpace x = false :=
    List.forall_mem_cons.mpr ⟨by decide, fun x hx => denomChar_not_space (hchars x hx)⟩
  have htrim : (trimSpace ("1" ++ d)).toList = '1' :: d.toList := by
    rw [trimSpace, String.toList_ofList, htext, Trim.trim_eq_self hblanks]
  have hamount : splitAmount ('1' :: d.toList) = some (['1'], d.toList) := by
    have hpoint : c ≠ '.' := by
      intro heq
      rw [heq] at halpha
      cases halpha
    have hone : ('1').isDigit = true := rfl
    simp [splitAmount, hd, hone, hdigit, hpoint]
  have hdenom : d.toList.dropWhile isASCIISpace = d.toList := by
    have hblank : isASCIISpace c = false := by
      by_contra hspace
      have hc := hblanks c (List.mem_cons_of_mem _ (hd ▸ List.mem_cons_self))
      rw [isSpace_of_ascii (Bool.not_eq_false _ ▸ hspace)] at hc
      cases hc
    rw [hd, List.dropWhile_cons, hblank, if_neg Bool.false_ne_true]
  have hone : newDecFromStr ['1'] = .ok .one := by decide +kernel
  simp only [parseDecCoin, splitCoin, htrim, hamount, hdenom, String.ofList_toList, h, hone, if_true]

end Sdk
