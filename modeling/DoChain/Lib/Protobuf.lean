import Mathlib.Tactic

/- The wire format of protocol buffers, as generated code writes and reads it.

   A message is a list of fields. A field is a tag, which holds its number and how its value
   is written, and the value: a varint, or bytes behind their length. The reader knows the
   kinds of some numbers. A field of a known number that is written otherwise is an error,
   and one of an unknown number is skipped, with the groups in it.

   `decodeFields_encodeFields`: fields of known numbers are read back as they were written.
   `decodeFields_mismatch`: a first field that is written otherwise than it is known is an
   error, whatever follows. -/

namespace Protobuf

/-! ## Varints -/

/-- Seven bits a byte, the lowest first; every byte but the last has the eighth bit. -/
def encodeVarintFuel : Nat → Nat → List UInt8
  | 0, _ => []
  | fuel + 1, n =>
    if n < 128 then [UInt8.ofNat n] else UInt8.ofNat (n % 128 + 128) :: encodeVarintFuel fuel (n / 128)

/-- A number of 64 bits takes ten bytes at most. -/
def encodeVarint (n : Nat) : List UInt8 := encodeVarintFuel 10 n

/-- The loop of a reader, with the bytes that are left, the shift and the bits so far. The
bits of the bytes do not meet, so they are added; those beyond 64 are lost. -/
def readVarintFrom : Nat → Nat → Nat → List UInt8 → Option (Nat × List UInt8)
  | 0, _, _, _ => none
  | _ + 1, _, _, [] => none
  | left + 1, shift, acc, b :: rest =>
    let acc := (acc + b.toNat % 128 * 2 ^ shift) % 2 ^ 64
    if b < 0x80 then some (acc, rest) else readVarintFrom left (shift + 7) acc rest

def readVarint (bs : List UInt8) : Option (Nat × List UInt8) := readVarintFrom 10 0 0 bs

theorem readVarintFrom_encode {fuel left : Nat} (hleft : fuel ≤ left) {n shift acc : Nat} (hpos : 0 < fuel)
    (hn : n < 128 ^ fuel) (hfit : acc + n * 2 ^ shift < 2 ^ 64) (rest : List UInt8) :
    readVarintFrom left shift acc (encodeVarintFuel fuel n ++ rest) = some (acc + n * 2 ^ shift, rest) := by
  induction fuel generalizing left n shift acc with
  | zero => omega
  | succ fuel ih =>
    cases left with
    | zero => omega
    | succ left =>
      rw [encodeVarintFuel]
      by_cases hlast : n < 128
      · have hbyte : (UInt8.ofNat n).toNat = n := UInt8.toNat_ofNat_of_lt (show n < 256 by omega)
        have hend : UInt8.ofNat n < 0x80 := by
          rw [UInt8.lt_iff_toNat_lt, hbyte]
          exact hlast
        rw [if_pos hlast, List.singleton_append, readVarintFrom, if_pos hend, hbyte, Nat.mod_eq_of_lt hlast,
          Nat.mod_eq_of_lt hfit]
      · have hbyte : (UInt8.ofNat (n % 128 + 128)).toNat = n % 128 + 128 :=
          UInt8.toNat_ofNat_of_lt (show n % 128 + 128 < 256 by omega)
        have hmore : ¬ UInt8.ofNat (n % 128 + 128) < 0x80 := by
          rw [UInt8.lt_iff_toNat_lt, hbyte]
          show ¬ n % 128 + 128 < 128
          omega
        -- what this byte and the later ones stand for
        have hsplit : acc + n % 128 * 2 ^ shift + n / 128 * 2 ^ (shift + 7) = acc + n * 2 ^ shift := by
          have hpow : n / 128 * 2 ^ (shift + 7) = 128 * (n / 128) * 2 ^ shift := by
            rw [Nat.pow_add]
            ring
          rw [hpow, Nat.add_assoc, ← Nat.add_mul, Nat.mod_add_div]
        have hfuel : 0 < fuel := by
          rcases Nat.eq_zero_or_pos fuel with rfl | hfuel
          · omega
          · exact hfuel
        have hdiv : n / 128 < 128 ^ fuel := by
          rw [Nat.div_lt_iff_lt_mul (by norm_num), ← Nat.pow_succ]
          exact hn
        rw [if_neg hlast, List.cons_append, readVarintFrom, if_neg hmore, hbyte]
        have hmod : (n % 128 + 128) % 128 = n % 128 := by omega
        have hacc : (acc + n % 128 * 2 ^ shift) % 2 ^ 64 = acc + n % 128 * 2 ^ shift := Nat.mod_eq_of_lt (by omega)
        rw [hmod, hacc, ih (by omega) hfuel hdiv (hsplit ▸ hfit), hsplit]

/-- A number of 64 bits is read back. -/
theorem readVarint_encodeVarint {n : Nat} (hn : n < 2 ^ 64) (rest : List UInt8) :
    readVarint (encodeVarint n ++ rest) = some (n, rest) := by
  have hfit : 0 + n * 2 ^ 0 < 2 ^ 64 := by omega
  have hread := readVarintFrom_encode (Nat.le_refl 10) (by norm_num) (show n < 128 ^ 10 by omega) hfit rest
  rw [Nat.zero_add, Nat.pow_zero, Nat.mul_one] at hread
  exact hread

theorem encodeVarint_ne_nil (n : Nat) : encodeVarint n ≠ [] := by
  rw [encodeVarint, encodeVarintFuel]
  split_ifs <;> simp

/-! ## Fields -/

inductive Kind where
  | varint
  | bytes
  deriving DecidableEq, Repr

inductive Value where
  | varint (n : Nat)
  | bytes (bs : List UInt8)
  deriving DecidableEq, Repr

structure Field where
  number : Nat
  value : Value
  deriving DecidableEq, Repr

def Kind.wireType : Kind → Nat
  | varint => 0
  | bytes => 2

def Value.kind : Value → Kind
  | varint _ => .varint
  | bytes _ => .bytes

def encodeValue : Value → List UInt8
  | .varint n => encodeVarint n
  | .bytes bs => encodeVarint bs.length ++ bs

def encodeField (f : Field) : List UInt8 :=
  encodeVarint (f.number * 8 + f.value.kind.wireType) ++ encodeValue f.value

def encodeFields (fs : List Field) : List UInt8 := fs.flatMap encodeField

theorem encodeFields_append (fs gs : List Field) : encodeFields (fs ++ gs) = encodeFields fs ++ encodeFields gs :=
  List.flatMap_append

theorem encodeFields_cons (f : Field) (fs : List Field) : encodeFields (f :: fs) = encodeField f ++ encodeFields fs :=
  List.flatMap_cons

/-- A length with the sign bit is negative. -/
def readBytes (bs : List UInt8) : Option (List UInt8 × List UInt8) := do
  let (n, rest) ← readVarint bs
  if 2 ^ 63 ≤ n ∨ rest.length < n then none else some (rest.take n, rest.drop n)

def readValue : Kind → List UInt8 → Option (Value × List UInt8)
  | .varint, bs => (readVarint bs).map (fun r => (.varint r.1, r.2))
  | .bytes, bs => (readBytes bs).map (fun r => (.bytes r.1, r.2))

/-- A field of any kind, and the groups it opens. To run over the end is an error. -/
def skipFrom : Nat → Nat → List UInt8 → Option (List UInt8)
  | 0, _, _ => none
  | _ + 1, _, [] => none
  | fuel + 1, depth, bs => do
    let (wire, rest) ← readVarint bs
    let (depth, rest) ←
      match wire % 8 with
      | 0 => (readVarint rest).map (fun r => (depth, r.2))
      | 1 => if rest.length < 8 then none else some (depth, rest.drop 8)
      | 2 => (readBytes rest).map (fun r => (depth, r.2))
      | 3 => some (depth + 1, rest)
      | 4 => if depth = 0 then none else some (depth - 1, rest)
      | 5 => if rest.length < 4 then none else some (depth, rest.drop 4)
      | _ => none
    if depth = 0 then some rest else skipFrom fuel depth rest

def skip (bs : List UInt8) : Option (List UInt8) := skipFrom bs.length 0 bs

/-- The loop of a reader that knows the kinds of some numbers. The number of a tag is one of
32 bits with a sign. -/
def decodeFieldsFuel (kinds : Nat → Option Kind) : Nat → List UInt8 → Option (List Field)
  | _, [] => some []
  | 0, _ => none
  | fuel + 1, bs => do
    let (wire, rest) ← readVarint bs
    let number := wire / 8 % 2 ^ 32
    if wire % 8 = 4 ∨ number = 0 ∨ 2 ^ 31 ≤ number then none
    else
      match kinds number with
      | some kind =>
        if wire % 8 ≠ kind.wireType then none
        else do
          let (value, rest) ← readValue kind rest
          let fields ← decodeFieldsFuel kinds fuel rest
          some (⟨number, value⟩ :: fields)
      | none => do
        let rest ← skip bs
        decodeFieldsFuel kinds fuel rest

/-- Every field takes a byte at least. -/
def decodeFields (kinds : Nat → Option Kind) (bs : List UInt8) : Option (List Field) :=
  decodeFieldsFuel kinds bs.length bs

/-! ## What is written is read -/

/-- A number a tag can hold, and a value its length or its 64 bits can. -/
def Field.Writable (f : Field) : Prop :=
  0 < f.number ∧ f.number < 2 ^ 29 ∧
    match f.value with
    | .varint n => n < 2 ^ 64
    | .bytes bs => bs.length < 2 ^ 63

theorem writable_varint {number n : Nat} (hnumber : 0 < number ∧ number < 2 ^ 29) (hn : n < 2 ^ 64) :
    Field.Writable ⟨number, .varint n⟩ := ⟨hnumber.1, hnumber.2, hn⟩

theorem writable_bytes {number : Nat} {bs : List UInt8} (hnumber : 0 < number ∧ number < 2 ^ 29)
    (hbs : bs.length < 2 ^ 63) : Field.Writable ⟨number, .bytes bs⟩ := ⟨hnumber.1, hnumber.2, hbs⟩

theorem readValue_encodeValue {f : Field} (h : f.Writable) (rest : List UInt8) :
    readValue f.value.kind (encodeValue f.value ++ rest) = some (f.value, rest) := by
  obtain ⟨number, value⟩ := f
  obtain ⟨_, _, hvalue⟩ := h
  cases value with
  | varint n =>
    simp only [Value.kind, readValue, encodeValue, readVarint_encodeVarint hvalue, Option.map_some]
  | bytes bs =>
    have hlength : bs.length < 2 ^ 63 := hvalue
    have hread : readBytes (encodeVarint bs.length ++ bs ++ rest) = some (bs, rest) := by
      rw [readBytes, List.append_assoc, readVarint_encodeVarint (by omega)]
      have hin : ¬ (2 ^ 63 ≤ bs.length ∨ (bs ++ rest).length < bs.length) := by
        rw [List.length_append]
        omega
      simp only [Option.bind_eq_bind, Option.bind_some, if_neg hin, List.take_left, List.drop_left]
    simp only [Value.kind, readValue, encodeValue, hread, Option.map_some]

/-- What the reader makes of a tag. -/
theorem readVarint_tag {f : Field} (h : f.Writable) (rest : List UInt8) :
    readVarint (encodeField f ++ rest) =
      some (f.number * 8 + f.value.kind.wireType, encodeValue f.value ++ rest) := by
  have hkind : f.value.kind.wireType < 8 := by cases f.value.kind <;> simp [Kind.wireType]
  obtain ⟨_, hnumber, _⟩ := h
  rw [encodeField, List.append_assoc]
  exact readVarint_encodeVarint (by omega) _

theorem tag_fields {f : Field} (h : f.Writable) :
    (f.number * 8 + f.value.kind.wireType) / 8 % 2 ^ 32 = f.number ∧
    (f.number * 8 + f.value.kind.wireType) % 8 = f.value.kind.wireType ∧
    ¬ (f.value.kind.wireType = 4 ∨ f.number = 0 ∨ 2 ^ 31 ≤ f.number) := by
  obtain ⟨hpos, hnumber, _⟩ := h
  have hkind : f.value.kind.wireType < 4 := by cases f.value.kind <;> simp [Kind.wireType]
  refine ⟨by omega, by omega, by omega⟩

theorem encodeField_ne_nil (f : Field) : encodeField f ≠ [] := by
  rw [encodeField]
  simp [encodeVarint_ne_nil]

/-- A first field that is known: it is read if it is written as it is known. -/
theorem decodeFieldsFuel_field (kinds : Nat → Option Kind) (fuel : Nat) {f : Field} (h : f.Writable)
    (rest : List UInt8) {kind : Kind} (hkind : kinds f.number = some kind) :
    decodeFieldsFuel kinds (fuel + 1) (encodeField f ++ rest) =
      if f.value.kind = kind then (decodeFieldsFuel kinds fuel rest).map (f :: ·) else none := by
  obtain ⟨hnumber, htype, hlegal⟩ := tag_fields h
  have hne : encodeField f ++ rest ≠ [] := by simp [encodeField_ne_nil]
  rw [decodeFieldsFuel.eq_3 kinds _ fuel hne, readVarint_tag h rest]
  simp only [Option.bind_eq_bind, Option.bind_some, hnumber, htype, if_neg hlegal, hkind]
  by_cases hsame : f.value.kind = kind
  · rw [if_neg (not_not.mpr (congrArg Kind.wireType hsame)), if_pos hsame, ← hsame, readValue_encodeValue h,
      Option.bind_some]
    cases decodeFieldsFuel kinds fuel rest <;> rfl
  · have hwire : f.value.kind.wireType ≠ kind.wireType := by
      intro hwire
      apply hsame
      generalize f.value.kind = k at hwire
      cases k <;> cases kind <;> first | rfl | simp [Kind.wireType] at hwire
    rw [if_pos hwire, if_neg hsame]

/-- Fields of known numbers are read back as they were written. -/
theorem decodeFields_encodeFields {kinds : Nat → Option Kind} {fs : List Field}
    (h : ∀ f ∈ fs, f.Writable ∧ kinds f.number = some f.value.kind) :
    decodeFields kinds (encodeFields fs) = some fs := by
  have hfuel : ∀ fuel, fs.length ≤ fuel → decodeFieldsFuel kinds fuel (encodeFields fs) = some fs := by
    induction fs with
    | nil =>
      intro fuel _
      cases fuel <;> rfl
    | cons f rest ih =>
      intro fuel hlength
      obtain ⟨hf, hrest⟩ := List.forall_mem_cons.mp h
      cases fuel with
      | zero => cases hlength
      | succ fuel =>
        rw [encodeFields_cons, decodeFieldsFuel_field kinds fuel hf.1 _ hf.2, if_pos rfl,
          ih hrest fuel (Nat.le_of_succ_le_succ hlength)]
        rfl
  apply hfuel
  -- every field takes a byte
  clear h hfuel
  induction fs with
  | nil => exact Nat.zero_le _
  | cons f rest ih =>
    have hpos := List.length_pos_iff.mpr (encodeField_ne_nil f)
    rw [encodeFields_cons, List.length_append, List.length_cons]
    omega

/-- A first field that is written otherwise than it is known is an error. -/
theorem decodeFields_mismatch {kinds : Nat → Option Kind} {f : Field} (h : f.Writable) {kind : Kind}
    (hkind : kinds f.number = some kind) (hne : f.value.kind ≠ kind) (rest : List UInt8) :
    decodeFields kinds (encodeField f ++ rest) = none := by
  have hpos := List.length_pos_iff.mpr (encodeField_ne_nil f)
  obtain ⟨fuel, hfuel⟩ : ∃ fuel, (encodeField f ++ rest).length = fuel + 1 := by
    refine ⟨(encodeField f ++ rest).length - 1, ?_⟩
    rw [List.length_append]
    omega
  rw [decodeFields, hfuel, decodeFieldsFuel_field kinds fuel h rest hkind, if_neg hne]

/-! ## The values of a message

A number that is not zero and bytes that are not empty are written; of several fields with
one number the last is kept. -/

def varintField (number n : Nat) : List Field := if n = 0 then [] else [⟨number, .varint n⟩]

def bytesField (number : Nat) (bs : List UInt8) : List Field := if bs = [] then [] else [⟨number, .bytes bs⟩]

theorem forall_mem_varintField {P : Field → Prop} {number n : Nat} :
    (∀ f ∈ varintField number n, P f) ↔ (n ≠ 0 → P ⟨number, .varint n⟩) := by
  rw [varintField]
  by_cases hn : n = 0 <;> simp [hn]

theorem forall_mem_bytesField {P : Field → Prop} {number : Nat} {bs : List UInt8} :
    (∀ f ∈ bytesField number bs, P f) ↔ (bs ≠ [] → P ⟨number, .bytes bs⟩) := by
  rw [bytesField]
  by_cases hbs : bs = [] <;> simp [hbs]

/-- Bytes are no longer than what is written of them. -/
theorem length_le_bytesField (number : Nat) (bs : List UInt8) :
    bs.length ≤ (encodeFields (bytesField number bs)).length := by
  rw [bytesField]
  split_ifs with hbs
  · simp [hbs]
  · rw [encodeFields_cons, encodeField, encodeValue]
    simp only [List.length_append]
    omega

def lastVarint (number n : Nat) (fs : List Field) : Nat :=
  fs.foldl (fun n f =>
    match f.value with
    | .varint m => if f.number = number then m else n
    | .bytes _ => n) n

def lastBytes (number : Nat) (bs : List UInt8) (fs : List Field) : List UInt8 :=
  fs.foldl (fun bs f =>
    match f.value with
    | .varint _ => bs
    | .bytes b => if f.number = number then b else bs) bs

@[simp] theorem lastVarint_append (number n : Nat) (fs gs : List Field) :
    lastVarint number n (fs ++ gs) = lastVarint number (lastVarint number n fs) gs := List.foldl_append

@[simp] theorem lastBytes_append (number : Nat) (bs : List UInt8) (fs gs : List Field) :
    lastBytes number bs (fs ++ gs) = lastBytes number (lastBytes number bs fs) gs := List.foldl_append

@[simp] theorem lastVarint_varintField (number m : Nat) : lastVarint number 0 (varintField number m) = m := by
  rw [varintField]
  by_cases hm : m = 0 <;> simp [lastVarint, hm]

@[simp] theorem lastVarint_bytesField (number k n : Nat) (bs : List UInt8) :
    lastVarint number n (bytesField k bs) = n := by
  rw [bytesField]
  split_ifs <;> rfl

@[simp] theorem lastBytes_varintField (number k m : Nat) (bs : List UInt8) :
    lastBytes number bs (varintField k m) = bs := by
  rw [varintField]
  split_ifs <;> rfl

@[simp] theorem lastBytes_bytesField (number : Nat) (b : List UInt8) :
    lastBytes number [] (bytesField number b) = b := by
  rw [bytesField]
  by_cases hb : b = [] <;> simp [lastBytes, hb]

@[simp] theorem lastBytes_bytesField_ne {number k : Nat} (h : k ≠ number) (bs b : List UInt8) :
    lastBytes number bs (bytesField k b) = bs := by
  rw [bytesField]
  by_cases hb : b = [] <;> simp [lastBytes, hb, h]

end Protobuf
