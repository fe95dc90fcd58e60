import DoChain.Lib.Outcome
import Mathlib.Data.List.Basic
import Mathlib.Data.List.Lex
import Mathlib.Data.String.Basic

/- What the modules share of the Cosmos SDK: registered errors, the checks of
   parameters, addresses and their bech32 spelling, coins and coin sets.

   The bech32 codec is code of the SDK, so it is a structure of functions with
   the laws every caller relies on: rendering an address is injective, what was
   decoded can be rendered and decoded again, and a rendered address decodes to
   nothing else. An address has more
   than one accepted spelling (all upper case is one), which is why the callers
   render again what they decoded. -/

namespace Sdk

abbrev Bytes := List UInt8

/-- Account and operator addresses are byte strings. -/
abbrev AccAddress := Bytes

/-- Byte strings are ordered as a store orders its keys. -/
instance instLinearOrderByte : LinearOrder UInt8 where
  le_refl a := UInt8.le_refl a
  le_trans _ _ _ := UInt8.le_trans
  le_antisymm _ _ := UInt8.le_antisymm
  le_total a b := UInt8.le_total a b
  toDecidableLE := inferInstance
  toDecidableEq := inferInstance
  toDecidableLT := inferInstance
  lt_iff_le_not_ge a b := by
    rw [UInt8.lt_iff_toNat_lt, UInt8.le_iff_toNat_le, UInt8.le_iff_toNat_le]
    omega

instance instLawfulBEqBytes : LawfulBEq Bytes := inferInstance

/-- An error registered by a module: its codespace, code and description. -/
structure RegisteredError where
  codespace : String
  code : Nat
  description : String
  deriving DecidableEq, Repr

/-- A registered error with the text it was wrapped in. -/
structure SdkError where
  root : RegisteredError
  text : String
  deriving DecidableEq, Repr

/-- `errorsmod.Wrap`. -/
def wrap (e : RegisteredError) (text : String) : SdkError := ⟨e, text⟩

def errUnauthorized : RegisteredError := ⟨"sdk", 4, "unauthorized"⟩
def errInsufficientFunds : RegisteredError := ⟨"sdk", 5, "insufficient funds"⟩
def errUnknownRequest : RegisteredError := ⟨"sdk", 6, "unknown request"⟩
def errInvalidAddress : RegisteredError := ⟨"sdk", 7, "invalid address"⟩
def errInvalidCoins : RegisteredError := ⟨"sdk", 10, "invalid coins"⟩
def errInvalidRequest : RegisteredError := ⟨"sdk", 18, "invalid request"⟩

/-! ## Parameters -/

/-- `SetParamSet`: the check of its key must accept every parameter. -/
def setParamSet {C : Type} (validate : C → Outcome String Unit) (pairs : List C) : Outcome SdkError Unit :=
  forM pairs fun c =>
    match validate c with
    | .ok () => .ok ()
    | .err text => .panic ("value from ParamSetPair is invalid: " ++ text)
    | .panic text => .panic text

theorem setParamSet_eq_ok {C : Type} {validate : C → Outcome String Unit} {pairs : List C} :
    setParamSet validate pairs = .ok () ↔ ∀ c ∈ pairs, validate c = .ok () := by
  rw [setParamSet, Outcome.forM_eq_ok]
  refine forall₂_congr fun c _ => ?_
  cases validate c <;> simp

/-! ## Bech32 -/

/-- The bech32 codec of addresses: `AccAddressFromBech32` and
`AccAddress.String`. -/
structure Bech32 where
  accAddressFromBech32 : String → Except String AccAddress
  string : AccAddress → String
  string_injective : Function.Injective string
  decode_string : ∀ {s a}, accAddressFromBech32 s = .ok a → accAddressFromBech32 (string a) = .ok a
  eq_of_decode : ∀ {a a'}, accAddressFromBech32 (string a) = .ok a' → a' = a

/-! ## Coins -/

structure Coin where
  denom : String
  amount : Int
  deriving DecidableEq, Repr

abbrev Coins := List Coin

def microDoDenom : String := "udo"
def microDODxDenom : String := "udodx"

def denomChar (c : Char) : Bool :=
  c.isAlphanum || c = '/' || c = ':' || c = '.' || c = '_' || c = '-'

/-- `ValidateDenom`: a letter and 2 to 127 further characters. -/
def validDenom (s : String) : Bool :=
  match s.toList with
  | [] => false
  | c :: rest => c.isAlpha && decide (2 ≤ rest.length) && decide (rest.length ≤ 127) && rest.all denomChar

/-- `Coin.IsValid`: a valid denomination and no negative amount. -/
def Coin.isValid (c : Coin) : Bool := validDenom c.denom && decide (0 ≤ c.amount)

/-- `Coins.IsValid`: valid denominations in strictly increasing order, each with
a positive amount. -/
def Coins.IsValid (cs : Coins) : Prop :=
  (∀ c ∈ cs, validDenom c.denom = true ∧ 0 < c.amount) ∧
  cs.Pairwise (fun a b => a.denom < b.denom)

instance (cs : Coins) : Decidable cs.IsValid := inferInstanceAs (Decidable (_ ∧ _))

/-- `Coin.String`. -/
def Coin.text (c : Coin) : String := s!"{c.amount}{c.denom}"

/-- `sdk.NewCoins` of one coin: a zero coin is dropped, and an invalid one
panics. -/
def newCoins {ε : Type} (c : Coin) : Outcome ε Coins :=
  if c.amount = 0 then .ok []
  else if validDenom c.denom = false then .panic ("invalid denom: " ++ c.denom)
  else if c.amount < 0 then .panic ("coin " ++ c.text ++ " amount is not positive")
  else .ok [c]

/-- `Coins.Find`, the binary search of a coin set, with the number of halvings
that are left. -/
def Coins.findFuel (denom : String) : Nat → Coins → Option Coin
  | 0, _ => none
  | fuel + 1, cs =>
    match cs with
    | [] => none
    | [c] => if c.denom = denom then some c else none
    | cs =>
      match cs.drop (cs.length / 2) with
      | [] => none
      | mid :: after =>
        if denom < mid.denom then findFuel denom fuel (cs.take (cs.length / 2))
        else if denom = mid.denom then some mid
        else findFuel denom fuel after

def Coins.find (denom : String) (cs : Coins) : Option Coin := Coins.findFuel denom (cs.length + 1) cs

/-- `Coins.AmountOf`. On a list that is not a sorted set the search can miss a
coin the list holds. -/
def Coins.amountOf (cs : Coins) (denom : String) : Int :=
  ((Coins.find denom cs).map Coin.amount).getD 0

/-- In a set sorted by denomination the search finds the coin that is there. -/
theorem Coins.findFuel_eq (denom : String) : ∀ (fuel : Nat) (cs : Coins), cs.length < fuel →
    cs.Pairwise (fun a b => a.denom < b.denom) → ∀ c ∈ cs, c.denom = denom →
    Coins.findFuel denom fuel cs = some c := by
  intro fuel
  induction fuel with
  | zero => intro cs h; omega
  | succ fuel ih =>
    intro cs hlen hs c hc hd
    match cs, hlen, hs, hc with
    | [x], _, _, hc =>
      obtain rfl : c = x := by simpa using hc
      simp [findFuel, hd]
    | x :: y :: rest, hlen, hs, hc =>
      have hsplit := List.take_append_drop ((x :: y :: rest).length / 2) (x :: y :: rest)
      generalize hn : (x :: y :: rest).length / 2 = n at hsplit
      have hn2 : n < (x :: y :: rest).length := by simp at hn ⊢; omega
      have hn0 : 0 < n := by simp at hn; omega
      cases hdrop : (x :: y :: rest).drop n with
      | nil => simp [List.drop_eq_nil_iff] at hdrop; simp at hn2; omega
      | cons mid after =>
        rw [hdrop] at hsplit
        rw [← hsplit, List.pairwise_append, List.pairwise_cons] at hs
        obtain ⟨hsl, ⟨hmid, hsr⟩, hcross⟩ := hs
        have hlt : (List.take n (x :: y :: rest)).length < fuel := by
          rw [List.length_take]; omega
        have hrt : after.length < fuel := by
          have := congrArg List.length hdrop
          simp only [List.length_drop, List.length_cons] at this
          simp only [List.length_cons] at hlen
          omega
        simp only [findFuel, hn, hdrop]
        rw [← hsplit, List.mem_append, List.mem_cons] at hc
        rcases hc with hc | rfl | hc
        · -- the coin is in the lower half
          have hlow : denom < mid.denom := hd ▸ hcross c hc mid List.mem_cons_self
          rw [if_pos hlow]
          exact ih _ hlt hsl c hc hd
        · rw [if_neg (by rw [hd]; exact lt_irrefl _), if_pos hd.symm]
        · have hhigh : mid.denom < denom := hd ▸ hmid c hc
          rw [if_neg hhigh.not_gt, if_neg hhigh.ne']
          exact ih _ hrt hsr c hc hd

/-- The amount of a coin that a valid set holds. -/
theorem Coins.amountOf_eq {cs : Coins} (h : cs.IsValid) {c : Coin} (hc : c ∈ cs) :
    cs.amountOf c.denom = c.amount := by
  have hfind : Coins.find c.denom cs = some c :=
    Coins.findFuel_eq c.denom (cs.length + 1) cs (Nat.lt_succ_self _) h.2 c hc rfl
  simp [amountOf, hfind]

/-- What the search finds is a coin of the list. -/
theorem Coins.findFuel_mem {denom : String} {fuel : Nat} {cs : Coins} {c : Coin}
    (h : Coins.findFuel denom fuel cs = some c) : c ∈ cs ∧ c.denom = denom := by
  induction fuel generalizing cs with
  | zero => cases h
  | succ fuel ih =>
    rcases cs with _ | ⟨x, _ | ⟨y, rest⟩⟩
    · cases h
    · obtain ⟨hx, hc⟩ := Option.ite_none_right_eq_some.mp h
      obtain rfl := Option.some.inj hc
      exact ⟨List.mem_singleton_self _, hx⟩
    · simp only [findFuel] at h
      cases hdrop : (x :: y :: rest).drop ((x :: y :: rest).length / 2) with
      | nil =>
        rw [hdrop] at h
        cases h
      | cons mid after =>
        have hsub : ∀ c' ∈ mid :: after, c' ∈ x :: y :: rest :=
          fun c' hc' => List.mem_of_mem_drop (hdrop ▸ hc')
        simp only [hdrop] at h
        split_ifs at h with hlow hmid
        · exact ⟨List.mem_of_mem_take (ih h).1, (ih h).2⟩
        · cases h
          exact ⟨hsub _ List.mem_cons_self, hmid.symm⟩
        · exact ⟨hsub _ (List.mem_cons_of_mem _ (ih h).1), (ih h).2⟩

theorem Coins.amountOf_eq_zero {cs : Coins} {denom : String} (h : ∀ c ∈ cs, c.denom ≠ denom) :
    cs.amountOf denom = 0 := by
  unfold amountOf
  cases hfind : Coins.find denom cs with
  | none => rfl
  | some c => exact absurd (Coins.findFuel_mem hfind).2 (h c (Coins.findFuel_mem hfind).1)

/-- The search misses a coin of a list that is not sorted. -/
example : Coins.amountOf [⟨"udo", 5⟩, ⟨"aaa", 1⟩] "udo" = 0 := by decide

/-! ## A codec with known accounts

The laws of `Bech32` can be met: a codec that spells two wallets and the accounts of
four modules as the chain does, and gives every other address a text no account
has. -/

namespace Sample

def alice : AccAddress :=
  [51, 185, 75, 112, 187, 212, 52, 240, 173, 1, 146, 86, 105, 190, 223, 52, 105, 131, 43, 88]

def bob : AccAddress :=
  [124, 138, 160, 249, 247, 207, 44, 244, 20, 87, 33, 63, 128, 137, 233, 91, 143, 150, 210, 208]

def dodxstaking : AccAddress :=
  [146, 72, 32, 153, 24, 196, 130, 81, 168, 139, 249, 153, 234, 157, 51, 152, 51, 176, 247, 225]

def gov : AccAddress :=
  [123, 95, 226, 43, 84, 70, 247, 198, 46, 162, 123, 139, 215, 28, 239, 148, 224, 63, 61, 242]

def market : AccAddress :=
  [228, 214, 147, 210, 78, 100, 108, 183, 135, 132, 38, 34, 93, 144, 210, 96, 127, 212, 14, 46]

def oracle : AccAddress :=
  [146, 2, 175, 108, 233, 37, 178, 106, 230, 178, 90, 223, 255, 11, 39, 5, 20, 126, 25, 95]

def aliceText : String := "do1xwu5ku9m6s60ptgpjftxn0klx35cx26cvkh0rd"
def bobText : String := "do10j92p70heuk0g9zhyylcpz0ftw8ed5ks0jm234"
def dodxstakingText : String := "do1jfyzpxgccjp9r2ytlxv748fnnqempalp2wewkf"
def govText : String := "do10d07y265gmmuvt4z0w9aw880jnsr700jslsmp2"
def marketText : String := "do1untf85jwv3kt0puyyc39myxjvplagr3wuj3wpf"
def oracleText : String := "do1jgp27m8fykex4e4jtt0l7ze8q528ux2lmvmf6s"

def accounts : List (AccAddress × String) :=
  [(alice, aliceText), (bob, bobText), (dodxstaking, dodxstakingText), (gov, govText),
    (market, marketText), (oracle, oracleText)]

def aliceOperator : String := "dovaloper1xwu5ku9m6s60ptgpjftxn0klx35cx26cdx3a6e"
def bobOperator : String := "dovaloper10j92p70heuk0g9zhyylcpz0ftw8ed5kswzacgp"

def operators : List (AccAddress × String) := [(alice, aliceOperator), (bob, bobOperator)]

/-- The text of an address that is not in the table. -/
def fallback (a : AccAddress) : String :=
  String.ofList ('x' :: a.map (fun b => Char.ofNat b.toNat))

theorem fallback_injective : Function.Injective fallback := by
  have hchar (b : UInt8) : (Char.ofNat b.toNat).toNat = b.toNat := by
    have hv : b.toNat.isValidChar := .inl (by have := b.toNat_lt; omega)
    rw [Char.ofNat, dif_pos hv]
    rfl
  intro a b h
  have hmap := (List.cons.inj (String.ofList_injective h)).2
  refine List.map_injective_iff.mpr ?_ hmap
  intro x y hxy
  apply UInt8.toNat_inj.mp
  rw [← hchar x, ← hchar y]
  exact congrArg Char.toNat hxy

/-! A codec from a table of addresses and texts. -/

section Table

variable {table : List (AccAddress × String)}

def encode (table : List (AccAddress × String)) (a : AccAddress) : String :=
  match table.find? (fun e => e.1 = a) with
  | some e => e.2
  | none => fallback a

def decode (table : List (AccAddress × String)) (s : String) : Except String AccAddress :=
  match table.find? (fun e => e.2 = s) with
  | some e => .ok e.1
  | none => .error "decoding bech32 failed"

/-- No text stands for two addresses, no address has two texts, and no text is a
fallback. -/
structure IsTable (table : List (AccAddress × String)) : Prop where
  text_inj : ∀ e ∈ table, ∀ e' ∈ table, e.2 = e'.2 → e = e'
  head_ne : ∀ e ∈ table, e.2.toList.head? ≠ some 'x'
  encode_eq : ∀ e ∈ table, encode table e.1 = e.2

theorem IsTable.fallback_ne (ht : IsTable table) (a : AccAddress) {e : AccAddress × String}
    (he : e ∈ table) : fallback a ≠ e.2 := by
  intro heq
  apply ht.head_ne e he
  rw [← heq, fallback, String.toList_ofList]
  rfl

theorem encode_cases (table : List (AccAddress × String)) (a : AccAddress) :
    (a, encode table a) ∈ table ∨ encode table a = fallback a := by
  rw [encode]
  cases h : table.find? (fun e => e.1 = a) with
  | none => exact .inr rfl
  | some e =>
    have ha : e.1 = a := by simpa using List.find?_some h
    rw [← ha]
    exact .inl (List.mem_of_find?_eq_some h)

/-- A text that no entry has and that is no fallback is the text of no address. -/
theorem encode_ne {text : String} (htable : ∀ e ∈ table, e.2 ≠ text) (hhead : text.toList.head? ≠ some 'x')
    (a : AccAddress) : encode table a ≠ text := by
  intro heq
  cases encode_cases table a with
  | inl hmem => exact htable _ hmem heq
  | inr hfallback =>
    apply hhead
    rw [← heq, hfallback, fallback, String.toList_ofList]
    rfl

theorem mem_of_decode {s : String} {a : AccAddress} (h : decode table s = .ok a) :
    (a, s) ∈ table := by
  rw [decode] at h
  split at h
  · rename_i e he
    cases h
    have hs : e.2 = s := by simpa using List.find?_some he
    rw [← hs]
    exact List.mem_of_find?_eq_some he
  · cases h

def codec (table : List (AccAddress × String)) (ht : IsTable table) : Bech32 where
  accAddressFromBech32 := decode table
  string := encode table
  string_injective := by
    intro a b h
    cases encode_cases table a with
    | inl ha =>
      cases encode_cases table b with
      | inl hb => exact congrArg Prod.fst (ht.text_inj _ ha _ hb h)
      | inr hb => exact absurd (hb.symm.trans h.symm) (ht.fallback_ne b ha)
    | inr ha =>
      cases encode_cases table b with
      | inl hb => exact absurd (ha.symm.trans h) (ht.fallback_ne a hb)
      | inr hb => exact fallback_injective (ha.symm.trans (h.trans hb))
  decode_string := by
    intro s a h
    rw [ht.encode_eq _ (mem_of_decode h)]
    exact h
  eq_of_decode := by
    intro a a' h
    have hmem := mem_of_decode h
    cases encode_cases table a with
    | inl ha => exact (congrArg Prod.fst (ht.text_inj _ ha _ hmem rfl)).symm
    | inr ha => exact absurd ha.symm (ht.fallback_ne a hmem)

end Table

/-- A codec that accepts one more spelling of an address. -/
def withSpelling (b : Bech32) (text : String) (addr : AccAddress) (hfresh : ∀ a, b.string a ≠ text)
    (haddr : b.accAddressFromBech32 (b.string addr) = .ok addr) : Bech32 where
  accAddressFromBech32 s := if s = text then .ok addr else b.accAddressFromBech32 s
  string := b.string
  string_injective := b.string_injective
  decode_string := by
    intro s a h
    rw [if_neg (hfresh a)]
    split_ifs at h with hs
    · cases h
      exact haddr
    · exact b.decode_string h
  eq_of_decode := by
    intro a a' h
    rw [if_neg (hfresh a)] at h
    exact b.eq_of_decode h

/-- The codec of account addresses. -/
def bech32 : Bech32 := codec accounts ⟨by decide, by decide, by decide⟩

/-- The codec of operator addresses. -/
def valBech32 : Bech32 := codec operators ⟨by decide, by decide, by decide⟩

end Sample

end Sdk
