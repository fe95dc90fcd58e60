import DoChain.Lib.Protobuf
import DoChain.Wasm.LegacyStore

/- The values of the legacy wasm store, as bytes (`custom/wasm/legacy_store.go`).

   Correspondence (Go ↔ Lean):
     `custom/wasm/types/legacy/wasm.pb.go`          ↔ `LegacyCodeInfo.marshal`, `.unmarshal`,
                                                       `LegacyContractInfo.marshal`, `.unmarshal`
     `third_party/wasmd/x/wasm/types/types.pb.go`   ↔ `CodeInfo.marshal`, `ContractInfo.marshal`

   The records of the old and of the new module stand under the same keys after the keys are
   translated, and which of the two a value is shows only in whether the old codec reads it.
   The first field of the old record of a code is a number and that of the new one is bytes;
   for a contract it is the other way. So a new value is refused at its first tag, and an old
   one is read as it was written.

   `values_translated` says both. -/

namespace Wasm

open Sdk Protobuf

/-! ## The records of wasmd -/

structure AccessConfig where
  permission : Int32
  addresses : List Bytes

structure CodeInfo where
  codeHash : Bytes
  creator : Bytes
  instantiateConfig : AccessConfig

structure AbsoluteTxPosition where
  blockHeight : UInt64
  txIndex : UInt64

/-- `types.Any`. -/
structure AnyValue where
  typeUrl : Bytes
  value : Bytes

structure ContractInfo where
  codeID : UInt64
  creator : Bytes
  admin : Bytes
  label : Bytes
  created : Option AbsoluteTxPosition
  ibcPortID : Bytes
  ext : Option AnyValue
  ibc2PortID : Bytes

/-- A message inside of a message. -/
def messageField (number : Nat) (fs : List Field) : Field := ⟨number, .bytes (encodeFields fs)⟩

/-- An enumeration is written as a number of 64 bits, and every address, also an empty one. -/
def AccessConfig.fields (c : AccessConfig) : List Field :=
  varintField 1 c.permission.toInt64.toUInt64.toNat ++ c.addresses.map (fun a => ⟨3, .bytes a⟩)

/-- The access config is written even if it is empty. -/
def CodeInfo.fields (c : CodeInfo) : List Field :=
  bytesField 1 c.codeHash ++ (bytesField 2 c.creator ++ [messageField 5 c.instantiateConfig.fields])

def CodeInfo.marshal (c : CodeInfo) : Bytes := encodeFields c.fields

def AbsoluteTxPosition.fields (p : AbsoluteTxPosition) : List Field :=
  varintField 1 p.blockHeight.toNat ++ varintField 2 p.txIndex.toNat

def AnyValue.fields (a : AnyValue) : List Field := bytesField 1 a.typeUrl ++ bytesField 2 a.value

def ContractInfo.fields (c : ContractInfo) : List Field :=
  varintField 1 c.codeID.toNat ++ (bytesField 2 c.creator ++ bytesField 3 c.admin ++ bytesField 4 c.label ++
    (c.created.map (fun p => messageField 5 p.fields)).toList ++ bytesField 6 c.ibcPortID ++
    (c.ext.map (fun a => messageField 7 a.fields)).toList ++ bytesField 8 c.ibc2PortID)

def ContractInfo.marshal (c : ContractInfo) : Bytes := encodeFields c.fields

/-! ## The legacy records -/

def LegacyCodeInfo.fields (c : LegacyCodeInfo) : List Field :=
  varintField 1 c.codeID.toNat ++ bytesField 2 c.codeHash ++ bytesField 3 c.creator

def LegacyCodeInfo.marshal (c : LegacyCodeInfo) : Bytes := encodeFields c.fields

def LegacyCodeInfo.kinds (number : Nat) : Option Kind :=
  if number = 1 then some .varint else if number = 2 ∨ number = 3 then some .bytes else none

def LegacyCodeInfo.unmarshal (bs : Bytes) : Option LegacyCodeInfo := do
  let fs ← decodeFields LegacyCodeInfo.kinds bs
  some ⟨UInt64.ofNat (lastVarint 1 0 fs), lastBytes 2 [] fs, lastBytes 3 [] fs⟩

def LegacyContractInfo.fields (c : LegacyContractInfo) : List Field :=
  bytesField 1 c.address ++ bytesField 2 c.creator ++ bytesField 3 c.admin ++ varintField 4 c.codeID.toNat ++
    bytesField 5 c.initMsg

def LegacyContractInfo.marshal (c : LegacyContractInfo) : Bytes := encodeFields c.fields

def LegacyContractInfo.kinds (number : Nat) : Option Kind :=
  if number = 4 then some .varint
  else if number = 1 ∨ number = 2 ∨ number = 3 ∨ number = 5 then some .bytes
  else none

def LegacyContractInfo.unmarshal (bs : Bytes) : Option LegacyContractInfo := do
  let fs ← decodeFields LegacyContractInfo.kinds bs
  some ⟨lastBytes 1 [] fs, lastBytes 2 [] fs, lastBytes 3 [] fs, UInt64.ofNat (lastVarint 4 0 fs), lastBytes 5 [] fs⟩

/-- The record of wasmd that a legacy record is translated to. -/
def LegacyCodeInfo.translated (c : LegacyCodeInfo) : CodeInfo := ⟨c.codeHash, c.creator, ⟨0, []⟩⟩

def LegacyContractInfo.translated (c : LegacyContractInfo) : ContractInfo :=
  ⟨c.codeID, c.creator, c.admin, [], none, [], none, []⟩

/-- The generated codecs. -/
def protoCodec : ValueCodec where
  unmarshalLegacyCodeInfo := LegacyCodeInfo.unmarshal
  marshalCodeInfo c := some c.translated.marshal
  unmarshalLegacyContractInfo := LegacyContractInfo.unmarshal
  marshalContractInfo c := some c.translated.marshal

/-! ## Old values are read back -/

theorem unmarshal_legacyCodeInfo {c : LegacyCodeInfo} (hlength : c.marshal.length < 2 ^ 63) :
    LegacyCodeInfo.unmarshal c.marshal = some c := by
  have hid := c.codeID.toNat_lt
  have hhash := length_le_bytesField 2 c.codeHash
  have hcreator := length_le_bytesField 3 c.creator
  simp only [LegacyCodeInfo.marshal, LegacyCodeInfo.fields, encodeFields_append, List.length_append] at hlength
  have hfields : decodeFields LegacyCodeInfo.kinds (encodeFields c.fields) = some c.fields := by
    apply decodeFields_encodeFields
    simp only [LegacyCodeInfo.fields, List.forall_mem_append, forall_mem_varintField, forall_mem_bytesField]
    refine ⟨⟨?_, ?_⟩, ?_⟩ <;> intro _
    · exact ⟨writable_varint (by decide) hid, rfl⟩
    · exact ⟨writable_bytes (by decide) (by omega), rfl⟩
    · exact ⟨writable_bytes (by decide) (by omega), rfl⟩
  rw [LegacyCodeInfo.unmarshal, LegacyCodeInfo.marshal, hfields]
  simp [LegacyCodeInfo.fields]

theorem unmarshal_legacyContractInfo {c : LegacyContractInfo} (hlength : c.marshal.length < 2 ^ 63) :
    LegacyContractInfo.unmarshal c.marshal = some c := by
  have hid := c.codeID.toNat_lt
  have haddress := length_le_bytesField 1 c.address
  have hcreator := length_le_bytesField 2 c.creator
  have hadmin := length_le_bytesField 3 c.admin
  have hinit := length_le_bytesField 5 c.initMsg
  simp only [LegacyContractInfo.marshal, LegacyContractInfo.fields, encodeFields_append,
    List.length_append] at hlength
  have hfields : decodeFields LegacyContractInfo.kinds (encodeFields c.fields) = some c.fields := by
    apply decodeFields_encodeFields
    simp only [LegacyContractInfo.fields, List.forall_mem_append, forall_mem_varintField, forall_mem_bytesField]
    refine ⟨⟨⟨⟨?_, ?_⟩, ?_⟩, ?_⟩, ?_⟩ <;> intro _
    · exact ⟨writable_bytes (by decide) (by omega), rfl⟩
    · exact ⟨writable_bytes (by decide) (by omega), rfl⟩
    · exact ⟨writable_bytes (by decide) (by omega), rfl⟩
    · exact ⟨writable_varint (by decide) hid, rfl⟩
    · exact ⟨writable_bytes (by decide) (by omega), rfl⟩
  rw [LegacyContractInfo.unmarshal, LegacyContractInfo.marshal, hfields]
  simp [LegacyContractInfo.fields]

/-! ## New values are refused -/

/-- The first field of a new code is bytes, where the old codec knows a number. -/
theorem unmarshal_codeInfo {c : CodeInfo} (hhash : c.codeHash ≠ []) (hlength : c.marshal.length < 2 ^ 63) :
    LegacyCodeInfo.unmarshal c.marshal = none := by
  have hle := length_le_bytesField 1 c.codeHash
  simp only [CodeInfo.marshal, CodeInfo.fields, encodeFields_append, List.length_append] at hlength
  have hfirst : bytesField 1 c.codeHash = [⟨1, .bytes c.codeHash⟩] := if_neg hhash
  have hdecode : decodeFields LegacyCodeInfo.kinds c.marshal = none := by
    rw [CodeInfo.marshal, CodeInfo.fields, hfirst, List.singleton_append, encodeFields_cons]
    exact decodeFields_mismatch (writable_bytes (by decide) (by omega)) rfl (show Kind.bytes ≠ .varint by decide) _
  rw [LegacyCodeInfo.unmarshal, hdecode]
  rfl

/-- The first field of a new contract is a number, where the old codec knows bytes. -/
theorem unmarshal_contractInfo {c : ContractInfo} (hid : 0 < c.codeID) :
    LegacyContractInfo.unmarshal c.marshal = none := by
  have hne : c.codeID.toNat ≠ 0 := by
    have hpos : 0 < c.codeID.toNat := hid
    omega
  have hfirst : varintField 1 c.codeID.toNat = [⟨1, .varint c.codeID.toNat⟩] := if_neg hne
  have hdecode : decodeFields LegacyContractInfo.kinds c.marshal = none := by
    rw [ContractInfo.marshal, ContractInfo.fields, hfirst, List.singleton_append, encodeFields_cons]
    exact decodeFields_mismatch (writable_varint (by decide) c.codeID.toNat_lt) rfl (show Kind.varint ≠ .bytes by decide) _
  rw [LegacyContractInfo.unmarshal, hdecode]
  rfl

theorem translate_code (key value : Bytes) : translateLegacyValueForKey protoCodec (0x01 :: key) value =
    match LegacyCodeInfo.unmarshal value with
    | none => value
    | some c => c.translated.marshal := rfl

theorem translate_contract (key value : Bytes) : translateLegacyValueForKey protoCodec (0x02 :: key) value =
    match LegacyContractInfo.unmarshal value with
    | none => value
    | some c => c.translated.marshal := rfl

/-- Under the keys of codes and of contracts the values of wasmd are returned as they are,
and those of the legacy module as the records of wasmd with the same contents. -/
theorem values_translated (key : Bytes) :
    (∀ c : CodeInfo, c.codeHash ≠ [] → c.marshal.length < 2 ^ 63 →
      translateLegacyValueForKey protoCodec (0x01 :: key) c.marshal = c.marshal) ∧
    (∀ c : ContractInfo, 0 < c.codeID →
      translateLegacyValueForKey protoCodec (0x02 :: key) c.marshal = c.marshal) ∧
    (∀ c : LegacyCodeInfo, c.marshal.length < 2 ^ 63 →
      ∃ new : CodeInfo, translateLegacyValueForKey protoCodec (0x01 :: key) c.marshal = new.marshal ∧
        new.codeHash = c.codeHash ∧ new.creator = c.creator) ∧
    (∀ c : LegacyContractInfo, c.marshal.length < 2 ^ 63 →
      ∃ new : ContractInfo, translateLegacyValueForKey protoCodec (0x02 :: key) c.marshal = new.marshal ∧
        new.codeID = c.codeID ∧ new.creator = c.creator ∧ new.admin = c.admin) := by
  refine ⟨?_, ?_, ?_, ?_⟩
  · intro c hhash hlength
    rw [translate_code, unmarshal_codeInfo hhash hlength]
  · intro c hid
    rw [translate_contract, unmarshal_contractInfo hid]
  · intro c hlength
    refine ⟨c.translated, ?_, rfl, rfl⟩
    rw [translate_code, unmarshal_legacyCodeInfo hlength]
  · intro c hlength
    refine ⟨c.translated, ?_, rfl, rfl, rfl⟩
    rw [translate_contract, unmarshal_legacyContractInfo hlength]

namespace Sample

/-- The same hash and creator in both formats. -/
def newCode : CodeInfo := ⟨[7, 7], [97], ⟨3, [[98]]⟩⟩
def oldCode : LegacyCodeInfo := ⟨5, [7, 7], [97]⟩

def newContract : ContractInfo := ⟨300, [97], [], [108], some ⟨9, 0⟩, [], none, []⟩
def oldContract : LegacyContractInfo := ⟨[120], [97], [], 300, [123, 125]⟩

theorem mixed_values_translated :
    translateLegacyValueForKey protoCodec [0x01, 5] newCode.marshal = newCode.marshal ∧
    translateLegacyValueForKey protoCodec [0x02, 5] newContract.marshal = newContract.marshal ∧
    (∃ new : CodeInfo, translateLegacyValueForKey protoCodec [0x01, 5] oldCode.marshal = new.marshal ∧
      new.codeHash = [7, 7] ∧ new.creator = [97]) ∧
    (∃ new : ContractInfo, translateLegacyValueForKey protoCodec [0x02, 5] oldContract.marshal = new.marshal ∧
      new.codeID = 300 ∧ new.creator = [97] ∧ new.admin = []) := by
  obtain ⟨hcode, hcontract, holdCode, holdContract⟩ := values_translated [5]
  exact ⟨hcode newCode (by decide) (by decide +kernel), hcontract newContract (by decide),
    holdCode oldCode (by decide +kernel), holdContract oldContract (by decide +kernel)⟩

/-- The bytes of an old code, and of what it is translated to. -/
example : oldCode.marshal = [0x08, 5, 0x12, 2, 7, 7, 0x1a, 1, 97] ∧
    translateLegacyValueForKey protoCodec [0x01, 5] oldCode.marshal = [0x0a, 2, 7, 7, 0x12, 1, 97, 0x2a, 0] := by
  decide +kernel

end Sample

end Wasm
