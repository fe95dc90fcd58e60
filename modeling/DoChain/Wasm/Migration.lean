import DoChain.Lib.Rekey
import DoChain.Wasm.LegacyKeys

/- The migration of the contract store's keys (`app/upgrades/v13/upgrades.go`).

   Correspondence (Go ↔ Lean):
     `migrateWasmKeys`                     ↔ `migrateWasmKeys`
     `saveSequenceKeys`                    ↔ `saveSequenceKeys`
     `migrateSequenceKeys`                 ↔ `migrateSequenceKeys`
     `migratePrefix` and the loops like it ↔ `migrateUnder`
     `rebuildCompositeKey`                 ↔ `rebuildCompositeKey`
     `removeLengthPrefixIfNeeded`          ↔ `removeLengthPrefixIfNeeded`

   Old and new first bytes overlap: each pass moves entries to a first byte that an
   earlier pass has emptied. `LegacyKey.pass` numbers the passes and `LegacyKey.stage` is
   a key after so many of them; the store then holds every legacy entry at its stage
   (`SortedMap.Holds`), pass by pass. -/

namespace Wasm

open Sdk

/-- `sdk.VerifyAddressFormat` with the verifier of the chain, which accepts the addresses
of accounts and of contracts. -/
structure AddressVerifier where
  verifyAddressFormat : Bytes → Except String Unit
  accepts_iff : ∀ b, verifyAddressFormat b = .ok () ↔ b.length = 20 ∨ b.length = 32

variable (verifier : AddressVerifier)

/-! ## Keys -/

def removeLengthPrefixIfNeeded (b : Bytes) : Bytes × Bool :=
  match verifier.verifyAddressFormat b with
  | .ok _ => (b, false)
  | .error _ =>
    match b with
    | [] => (b, false)
    | len :: payload =>
      if 1 < b.length ∧ len.toNat = b.length - 1 then
        match verifier.verifyAddressFormat payload with
        | .ok _ => (payload, true)
        | .error _ => (b, false)
      else (b, false)

def rebuildCompositeKey (originalKey : Bytes) : Bytes :=
  match originalKey with
  | [] => originalKey
  | len :: _ =>
    if 1 < originalKey.length ∧ len.toNat + 1 ≤ originalKey.length then
      match removeLengthPrefixIfNeeded verifier (originalKey.take (len.toNat + 1)) with
      | (unprefHead, true) => unprefHead ++ originalKey.drop (len.toNat + 1)
      | (_, false) => originalKey
    else originalKey

/-! ## Passes -/

/-- The entries of the store under a first byte, without it. -/
def entriesUnder (store : KVStore) (first : UInt8) : List (Bytes × Bytes) :=
  (store.iterator (some [first]) (prefixEndBytes [first])).map (fun e => (e.1.drop 1, e.2))

/-- A pass over the entries under one first byte: each is written under another and then
deleted. -/
def migrateUnder (oldFirst newFirst : UInt8) (rebuild : Bytes → Bytes) (store : KVStore) : KVStore :=
  (entriesUnder store oldFirst).foldl
    (fun store e => (store.set (newFirst :: rebuild e.1) e.2).erase (oldFirst :: e.1)) store

def migrateContractKeys (store : KVStore) : KVStore :=
  migrateUnder 0x04 0x02 (fun key => (removeLengthPrefixIfNeeded verifier key).1) store

def migrateCodeKeys (store : KVStore) : KVStore := migrateUnder 0x03 0x01 id store

def migrateContractStoreKeys (store : KVStore) : KVStore :=
  migrateUnder 0x05 0x03 (rebuildCompositeKey verifier) store

def migrateContractHistoryKey (store : KVStore) : KVStore := migrateUnder 0x06 0x05 id store

def migrateSecondaryIndexKeys (store : KVStore) : KVStore := migrateUnder 0x10 0x06 id store

def migrateParamsKey (store : KVStore) : KVStore :=
  match store.get [0x11] with
  | none => store
  | some value => (store.set [0x10] value).erase [0x11]

structure SequenceKeys where
  codeIDValue : Option Bytes
  instanceIDValue : Option Bytes

/-- A key is read, and deleted if it is there. -/
def takeKey (key : Bytes) (store : KVStore) : Option Bytes × KVStore :=
  match store.get key with
  | some v => (some v, store.erase key)
  | none => (none, store)

def saveSequenceKeys (store : KVStore) : SequenceKeys × KVStore :=
  let (codeIDValue, store) := takeKey [0x01] store
  let (instanceIDValue, store) := takeKey [0x02] store
  (⟨codeIDValue, instanceIDValue⟩, store)

/-- A sequence is written unless it is there, with zero where none was saved. -/
def putSequence (newKey : Bytes) (value : Option Bytes) (store : KVStore) : KVStore :=
  if (store.get newKey).isSome then store
  else store.set newKey (value.getD [0, 0, 0, 0, 0, 0, 0, 0])

def migrateSequenceKeys (seq : SequenceKeys) (store : KVStore) : KVStore :=
  putSequence (0x04 :: lastContractIDKey) seq.instanceIDValue
    (putSequence (0x04 :: lastCodeIDKey) seq.codeIDValue store)

def migrateWasmKeys (store : KVStore) : KVStore :=
  let (seq, store) := saveSequenceKeys store
  let store := migrateContractKeys verifier store
  let store := migrateSequenceKeys seq store
  let store := migrateCodeKeys store
  let store := migrateContractStoreKeys verifier store
  let store := migrateContractHistoryKey store
  let store := migrateSecondaryIndexKeys store
  migrateParamsKey store

/-! ## What becomes of a key -/

section Keys

variable {verifier}

theorem verify_error {b : Bytes} (h : ¬ (b.length = 20 ∨ b.length = 32)) :
    ∃ e, verifier.verifyAddressFormat b = .error e := by
  cases hv : verifier.verifyAddressFormat b with
  | error e => exact ⟨e, rfl⟩
  | ok _ => exact absurd ((verifier.accepts_iff b).mp hv) h

/-- The length byte of an address goes: with it there are 21 or 33 bytes, and they are no
address. -/
theorem removeLengthPrefix_addr (a : ContractAddr) :
    removeLengthPrefixIfNeeded verifier (a.len :: a.1) = (a.1, true) := by
  have hlen := a.len_toNat
  obtain ⟨e, he⟩ : ∃ e, verifier.verifyAddressFormat (a.len :: a.1) = .error e := by
    apply verify_error
    rw [List.length_cons]
    have ha := a.2
    omega
  have hok : verifier.verifyAddressFormat a.1 = .ok () := (verifier.accepts_iff _).mpr a.2
  have hcond : 1 < (a.len :: a.1).length ∧ a.len.toNat = (a.len :: a.1).length - 1 := by
    rw [List.length_cons, hlen]
    have ha := a.2
    omega
  rw [removeLengthPrefixIfNeeded, he]
  simp only [if_pos hcond, hok]

theorem rebuildCompositeKey_storage (a : ContractAddr) (k : Bytes) :
    rebuildCompositeKey verifier (a.len :: (a.1 ++ k)) = a.1 ++ k := by
  have hlen := a.len_toNat
  have htake : (a.len :: (a.1 ++ k)).take (a.len.toNat + 1) = a.len :: a.1 := by
    rw [hlen, List.take_succ_cons, List.take_left]
  have hdrop : (a.len :: (a.1 ++ k)).drop (a.len.toNat + 1) = k := by
    rw [hlen, List.drop_succ_cons, List.drop_left]
  have hcond : 1 < (a.len :: (a.1 ++ k)).length ∧ a.len.toNat + 1 ≤ (a.len :: (a.1 ++ k)).length := by
    rw [List.length_cons, List.length_append, hlen]
    have ha := a.2
    omega
  rw [rebuildCompositeKey]
  simp only [if_pos hcond, htake, hdrop, removeLengthPrefix_addr]

/-- What a pass makes of a key. -/
def moveKey (oldFirst newFirst : UInt8) (rebuild : Bytes → Bytes) : Bytes → Bytes
  | [] => []
  | b :: rest => if b = oldFirst then newFirst :: rebuild rest else b :: rest

/-- The pass that moves a key; keys that stay have none. -/
def LegacyKey.pass : LegacyKey → Nat
  | .contract _ => 1
  | .codeSequence => 2
  | .instanceSequence => 2
  | .code _ => 3
  | .storage _ _ => 4
  | .history _ => 5
  | .secondaryIndex _ => 6
  | .params => 7
  | _ => 8

/-- A key after so many passes. -/
def LegacyKey.stage (n : Nat) (lk : LegacyKey) : Bytes := if lk.pass ≤ n then lk.newKey else lk.encode

/-! ## Passes over a store that holds the legacy entries -/

theorem mem_iterator_first {store : KVStore} {first : UInt8} {e : Bytes × Bytes} :
    e ∈ store.iterator (some [first]) (prefixEndBytes [first]) ↔
      store.get e.1 = some e.2 ∧ decide ([first] <+: e.1) = true := by
  rw [KVStore.mem_iterator, inDomain_prefixEndBytes, decide_eq_true_iff]

/-- A pass is one over whole keys. -/
theorem migrateUnder_eq_rekey (oldFirst newFirst : UInt8) (rebuild : Bytes → Bytes) (store : KVStore) :
    migrateUnder oldFirst newFirst rebuild store = SortedMap.rekey (moveKey oldFirst newFirst rebuild)
      (store.iterator (some [oldFirst]) (prefixEndBytes [oldFirst])) store := by
  rw [migrateUnder, entriesUnder, List.foldl_map, SortedMap.rekey]
  apply List.foldl_ext
  intro store' e he
  obtain ⟨rest, hrest⟩ := of_decide_eq_true (mem_iterator_first.mp he).2
  rw [← hrest]
  simp [moveKey]

variable {src : LegacyKey → Option Bytes} {store : KVStore} {key : LegacyKey → Bytes}

/-- A pass moves the entries under its first byte, if none is under the new one yet and
rebuilding keeps them apart. -/
theorem holds_migrateUnder {oldFirst newFirst : UInt8} {rebuild : Bytes → Bytes}
    (h : SortedMap.Holds store src key)
    (hinj : ∀ i j x y, (src i).isSome = true → (src j).isSome = true → key i = oldFirst :: x →
      key j = oldFirst :: y → rebuild x = rebuild y → x = y)
    (hfree : ∀ i, (src i).isSome = true → ∀ x, key i ≠ newFirst :: x) :
    SortedMap.Holds (migrateUnder oldFirst newFirst rebuild store) src
      (fun i => moveKey oldFirst newFirst rebuild (key i)) := by
  have hmove : ∀ x, moveKey oldFirst newFirst rebuild (oldFirst :: x) = newFirst :: rebuild x :=
    fun x => if_pos rfl
  rw [migrateUnder_eq_rekey]
  have hpass := h.rekey (fun k => decide ([oldFirst] <+: k)) (moveKey oldFirst newFirst rebuild)
    (fun e => mem_iterator_first)
    (List.pairwise_map.mpr ((KVStore.iterator_sorted store _ _).imp (fun hlt => hlt.ne))) ?_ ?_
  · refine hpass.congr ?_
    intro i _
    split_ifs with hp
    · rfl
    · -- a key of another first byte stays
      cases hkey : key i with
      | nil => rfl
      | cons b rest =>
        have hb : b ≠ oldFirst := by
          intro heq
          apply hp
          rw [hkey, heq]
          exact decide_eq_true (List.prefix_append [oldFirst] rest)
        exact (if_neg hb).symm
  · intro i j hi hj hpi hpj heq
    obtain ⟨x, hx⟩ := of_decide_eq_true hpi
    obtain ⟨y, hy⟩ := of_decide_eq_true hpj
    rw [← hx, ← hy, List.singleton_append, List.singleton_append, hmove, hmove] at heq
    rw [← hx, ← hy, hinj i j x y hi hj hx.symm hy.symm (List.cons.inj heq).2]
  · intro i j _ hj hpi
    obtain ⟨x, hx⟩ := of_decide_eq_true hpi
    rw [← hx, List.singleton_append, hmove]
    exact hfree j hj (rebuild x)

/-- A pass whose key changes are those of a stage. -/
theorem holds_pass {n : Nat} {oldFirst newFirst : UInt8} {rebuild : Bytes → Bytes}
    (h : SortedMap.Holds store src (LegacyKey.stage n))
    (hmove : ∀ lk, (src lk).isSome = true →
      moveKey oldFirst newFirst rebuild (lk.stage n) = lk.stage (n + 1))
    (hinj : ∀ i j x y, (src i).isSome = true → (src j).isSome = true → i.stage n = oldFirst :: x →
      j.stage n = oldFirst :: y → rebuild x = rebuild y → x = y)
    (hfree : ∀ i, (src i).isSome = true → ∀ x, i.stage n ≠ newFirst :: x) :
    SortedMap.Holds (migrateUnder oldFirst newFirst rebuild store) src (LegacyKey.stage (n + 1)) :=
  (holds_migrateUnder h hinj hfree).congr hmove

/-- A pass that changes the first byte only. -/
theorem holds_plainPass {n : Nat} {oldFirst newFirst : UInt8}
    (h : SortedMap.Holds store src (LegacyKey.stage n))
    (hmove : ∀ lk : LegacyKey, moveKey oldFirst newFirst id (lk.stage n) = lk.stage (n + 1))
    (hfree : ∀ (lk : LegacyKey) x, lk.stage n ≠ newFirst :: x) :
    SortedMap.Holds (migrateUnder oldFirst newFirst id store) src (LegacyKey.stage (n + 1)) :=
  holds_pass h (fun lk _ => hmove lk) (fun _ _ _ _ _ _ _ _ heq => heq) (fun lk _ => hfree lk)

variable (verifier) in
theorem holds_migrateContractKeys (h : SortedMap.Holds store src (LegacyKey.stage 0))
    (hinstance : src .instanceSequence = none) :
    SortedMap.Holds (migrateContractKeys verifier store) src (LegacyKey.stage 1) := by
  refine holds_pass h ?_ ?_ ?_
  · intro lk _
    cases lk <;> simp [LegacyKey.stage, LegacyKey.pass, LegacyKey.newKey, LegacyKey.encode, moveKey,
      removeLengthPrefix_addr]
  · -- two contracts
    intro i j x y _ _ hi hj heq
    cases i <;> simp [LegacyKey.stage, LegacyKey.pass, LegacyKey.encode] at hi
    cases j <;> simp [LegacyKey.stage, LegacyKey.pass, LegacyKey.encode] at hj
    rename_i a b
    rw [← hi, ← hj, removeLengthPrefix_addr, removeLengthPrefix_addr] at heq
    rw [← hi, ← hj, Subtype.ext heq]
  · intro lk hlk x
    cases lk <;> simp [LegacyKey.stage, LegacyKey.pass, LegacyKey.encode]
    rw [hinstance] at hlk
    cases hlk

variable (verifier) in
/-- Addresses that are no prefixes of each other keep the storage of contracts apart. -/
theorem holds_migrateContractStoreKeys (h : SortedMap.Holds store src (LegacyKey.stage 3))
    (happart : ∀ a b k l, (src (.storage a k)).isSome = true → (src (.storage b l)).isSome = true →
      a.1 ++ k = b.1 ++ l → a = b ∧ k = l) :
    SortedMap.Holds (migrateContractStoreKeys verifier store) src (LegacyKey.stage 4) := by
  refine holds_pass h ?_ ?_ ?_
  · intro lk _
    cases lk <;> simp [LegacyKey.stage, LegacyKey.pass, LegacyKey.newKey, LegacyKey.encode, moveKey,
      rebuildCompositeKey_storage]
  · intro i j x y hsi hsj hi hj heq
    cases i <;> simp [LegacyKey.stage, LegacyKey.pass, LegacyKey.newKey, LegacyKey.encode] at hi
    cases j <;> simp [LegacyKey.stage, LegacyKey.pass, LegacyKey.newKey, LegacyKey.encode] at hj
    rename_i a k b l
    rw [← hi, ← hj, rebuildCompositeKey_storage, rebuildCompositeKey_storage] at heq
    obtain ⟨rfl, rfl⟩ := happart a b k l hsi hsj heq
    rw [← hi, ← hj]
  · intro lk _ x
    cases lk <;> simp [LegacyKey.stage, LegacyKey.pass, LegacyKey.newKey, LegacyKey.encode]

/-- The parameters move once nothing is left under their new first byte. -/
theorem holds_migrateParamsKey (h : SortedMap.Holds store src (LegacyKey.stage 6)) :
    SortedMap.Holds (migrateParamsKey store) src LegacyKey.newKey := by
  have hsame : ∀ lk : LegacyKey, lk ≠ .params → lk.stage 6 = lk.newKey ∧ lk.newKey ≠ [0x10] ∧
      lk.newKey ≠ [0x11] := by
    intro lk hne
    cases lk <;> simp [LegacyKey.stage, LegacyKey.pass, LegacyKey.newKey, LegacyKey.encode] at hne ⊢
  cases hparams : store.get [0x11] with
  | none =>
    rw [migrateParamsKey, hparams]
    refine h.congr ?_
    intro lk hlk
    by_cases hp : lk = .params
    · subst hp
      obtain ⟨v, hv⟩ := Option.isSome_iff_exists.mp hlk
      have hget : store.get [0x11] = some v := h.get hv
      rw [hparams] at hget
      cases hget
    · exact (hsame lk hp).1
  | some value =>
    have hrekey : migrateParamsKey store = SortedMap.rekey (fun _ => [0x10]) [([0x11], value)] store := by
      rw [migrateParamsKey, hparams]
      rfl
    rw [hrekey]
    have hentry : ∀ e : Bytes × Bytes, e ∈ [(([0x11] : Bytes), value)] ↔
        store.get e.1 = some e.2 ∧ decide (e.1 = [0x11]) = true := by
      intro e
      rw [List.mem_singleton, decide_eq_true_iff]
      refine ⟨?_, ?_⟩
      · intro he
        subst he
        exact ⟨hparams, rfl⟩
      · intro he
        obtain ⟨hget, hkey⟩ := he
        rw [hkey, hparams] at hget
        exact Prod.ext hkey (Option.some.inj hget).symm
    have hpass := h.rekey (fun k => decide (k = [0x11])) (fun _ => [0x10]) hentry
      (List.nodup_singleton _) ?_ ?_
    · refine hpass.congr ?_
      intro lk _
      by_cases hp : lk = .params
      · subst hp
        rfl
      · obtain ⟨hstage, _, hne⟩ := hsame lk hp
        rw [hstage, if_neg (by simpa using hne)]
    · intro i j _ _ hi hj _
      rw [of_decide_eq_true hi, of_decide_eq_true hj]
    · intro i j _ _ _ heq
      by_cases hp : j = .params
      · subst hp
        exact absurd heq (by decide)
      · obtain ⟨hstage, hne, _⟩ := hsame j hp
        exact hne (hstage ▸ heq)

/-! ## Sequences -/

theorem takeKey_eq (k : Bytes) (store : KVStore) :
    (takeKey k store).1 = store.get k ∧
      ∀ x, (takeKey k store).2.get x = if x = k then none else store.get x := by
  unfold takeKey
  cases hget : store.get k with
  | some v =>
    refine ⟨rfl, ?_⟩
    intro x
    show (SortedMap.erase store k).get x = _
    rw [SortedMap.get_erase]
    split_ifs <;> rfl
  | none =>
    refine ⟨rfl, ?_⟩
    intro x
    split_ifs with hx
    · rw [hx]
      exact hget
    · rfl

/-- The values of the legacy entries, but for the sequences. -/
def unsequenced (S : KVStore) : LegacyKey → Option Bytes
  | .codeSequence => none
  | .instanceSequence => none
  | lk => S.get lk.encode

theorem saveSequenceKeys_spec {S : KVStore} (hwf : WellFormed S) :
    (saveSequenceKeys S).1 = ⟨S.get [0x01], S.get [0x02]⟩ ∧
      SortedMap.Holds (saveSequenceKeys S).2 (unsequenced S) (LegacyKey.stage 0) := by
  obtain ⟨hcode, hrest⟩ := takeKey_eq [0x01] S
  obtain ⟨hinstance, hleft⟩ := takeKey_eq [0x02] (takeKey [0x01] S).2
  rw [hrest, if_neg (by decide)] at hinstance
  refine ⟨?_, ?_⟩
  · show SequenceKeys.mk (takeKey [0x01] S).1 (takeKey [0x02] (takeKey [0x01] S).2).1 = _
    rw [hcode, hinstance]
  · intro k v
    show (takeKey [0x02] (takeKey [0x01] S).2).2.get k = some v ↔ _
    rw [hleft, hrest]
    refine ⟨?_, ?_⟩
    · intro hget
      split_ifs at hget with h₂ h₁
      obtain ⟨lk, rfl⟩ := hwf.keys k (by rw [hget]; rfl)
      refine ⟨lk, ?_, ?_⟩
      · cases lk <;> first | exact absurd rfl h₁ | exact absurd rfl h₂ | exact hget
      · cases lk <;> rfl
    · intro hex
      obtain ⟨lk, hlk, rfl⟩ := hex
      cases lk <;> simp [unsequenced, LegacyKey.stage, LegacyKey.pass, LegacyKey.encode] at hlk ⊢ <;> exact hlk

/-- The values of all entries; a sequence that was absent is zero. -/
def sequenced (S : KVStore) : LegacyKey → Option Bytes :=
  Function.update (Function.update (unsequenced S) .codeSequence
    (some ((S.get [0x01]).getD [0, 0, 0, 0, 0, 0, 0, 0]))) .instanceSequence
    (some ((S.get [0x02]).getD [0, 0, 0, 0, 0, 0, 0, 0]))

theorem holds_putSequence (h : SortedMap.Holds store src (LegacyKey.stage 2)) (lk : LegacyKey)
    (hfree : ∀ i, (src i).isSome = true → i.stage 2 ≠ lk.stage 2) (value : Option Bytes) :
    SortedMap.Holds (putSequence (lk.stage 2) value store)
      (Function.update src lk (some (value.getD [0, 0, 0, 0, 0, 0, 0, 0]))) (LegacyKey.stage 2) := by
  have hnone := h.free hfree
  rw [putSequence, hnone]
  exact h.set hnone _

/-- After the contracts nothing is left where the sequences go. -/
theorem holds_migrateSequenceKeys {S : KVStore}
    (h : SortedMap.Holds store (unsequenced S) (LegacyKey.stage 1)) :
    SortedMap.Holds (migrateSequenceKeys ⟨S.get [0x01], S.get [0x02]⟩ store) (sequenced S)
      (LegacyKey.stage 2) := by
  have hstage : SortedMap.Holds store (unsequenced S) (LegacyKey.stage 2) := by
    refine h.congr ?_
    intro lk hlk
    cases lk <;> first | rfl | exact absurd hlk Bool.false_ne_true
  -- a key at the second stage begins with the byte of the sequences for them only
  have hother : ∀ (lk : LegacyKey) x, lk.stage 2 = 0x04 :: x → lk = .codeSequence ∨ lk = .instanceSequence := by
    intro lk x heq
    cases lk <;> simp [LegacyKey.stage, LegacyKey.pass, LegacyKey.newKey, LegacyKey.encode] at heq ⊢
  have hcode := holds_putSequence hstage .codeSequence ?_ (S.get [0x01])
  · refine holds_putSequence hcode .instanceSequence ?_ (S.get [0x02])
    intro lk hlk heq
    rcases hother lk _ heq with rfl | rfl
    · exact absurd heq (by decide +kernel)
    · rw [Function.update_of_ne (by decide)] at hlk
      exact Bool.false_ne_true hlk
  · intro lk hlk heq
    rcases hother lk _ heq with rfl | rfl
    · exact Bool.false_ne_true hlk
    · exact Bool.false_ne_true hlk

/-! ## The migration -/

variable (verifier) in
/-- After the migration the store holds every legacy entry at its new key. -/
theorem holds_migrateWasmKeys {S : KVStore} (hwf : WellFormed S) :
    SortedMap.Holds (migrateWasmKeys verifier S) (sequenced S) LegacyKey.newKey := by
  obtain ⟨hseq, h₀⟩ := saveSequenceKeys_spec hwf
  have h₁ : SortedMap.Holds _ _ (LegacyKey.stage 1) := holds_migrateContractKeys verifier h₀ rfl
  have h₂ := holds_migrateSequenceKeys h₁
  have h₃ : SortedMap.Holds (migrateCodeKeys _) _ (LegacyKey.stage 3) := holds_plainPass h₂
    (fun lk => by cases lk <;> simp [LegacyKey.stage, LegacyKey.pass, LegacyKey.newKey, LegacyKey.encode, moveKey])
    (fun lk x => by cases lk <;> simp [LegacyKey.stage, LegacyKey.pass, LegacyKey.newKey, LegacyKey.encode])
  have hstorage : ∀ a k, (sequenced S (.storage a k)).isSome = true → HasAddr S a :=
    fun a k hsome => hasAddr_storage hsome
  have h₄ := holds_migrateContractStoreKeys verifier h₃
    (fun a b k l ha hb heq => hwf.storage_unique (hstorage a k ha) (hstorage b l hb) heq)
  have h₅ : SortedMap.Holds (migrateContractHistoryKey _) _ (LegacyKey.stage 5) := holds_plainPass h₄
    (fun lk => by cases lk <;> simp [LegacyKey.stage, LegacyKey.pass, LegacyKey.newKey, LegacyKey.encode, moveKey])
    (fun lk x => by cases lk <;> simp [LegacyKey.stage, LegacyKey.pass, LegacyKey.newKey, LegacyKey.encode])
  have h₆ : SortedMap.Holds (migrateSecondaryIndexKeys _) _ (LegacyKey.stage 6) := holds_plainPass h₅
    (fun lk => by cases lk <;> simp [LegacyKey.stage, LegacyKey.pass, LegacyKey.newKey, LegacyKey.encode, moveKey])
    (fun lk x => by cases lk <;> simp [LegacyKey.stage, LegacyKey.pass, LegacyKey.newKey, LegacyKey.encode])
  have h₇ := holds_migrateParamsKey h₆
  rw [migrateWasmKeys]
  simp only [hseq]
  exact h₇

/-- What the sequences of the store stand for. -/
theorem sequenced_eq_some {S : KVStore} {lk : LegacyKey} {v : Bytes} :
    sequenced S lk = some v ↔ S.get lk.encode = some v ∨
      (v = [0, 0, 0, 0, 0, 0, 0, 0] ∧ ¬ Present S lk ∧ (lk = .codeSequence ∨ lk = .instanceSequence)) := by
  have hdefault : ∀ o : Option Bytes, some (o.getD [0, 0, 0, 0, 0, 0, 0, 0]) = some v ↔
      o = some v ∨ (v = [0, 0, 0, 0, 0, 0, 0, 0] ∧ ¬ o.isSome = true) := by
    intro o
    cases o <;> simp [eq_comm]
  cases lk with
  | codeSequence =>
    rw [sequenced, Function.update_of_ne (by decide), Function.update_self, hdefault]
    simp [Present, LegacyKey.encode]
  | instanceSequence =>
    rw [sequenced, Function.update_self, hdefault]
    simp [Present, LegacyKey.encode]
  | _ => simp [sequenced, unsequenced]

end Keys

/-- The migration loses nothing: every legacy entry is found unchanged at its new key,
two entries end at different keys, and there is nothing else but sequences that were
absent, with zero. -/
theorem migration_loses_nothing {S : KVStore} (hwf : WellFormed S) :
    (∀ (lk : LegacyKey) v, S.get lk.encode = some v → (migrateWasmKeys verifier S).get lk.newKey = some v) ∧
    (∀ lk lk', Present S lk → Present S lk' → lk.newKey = lk'.newKey → lk = lk') ∧
    ∀ k v, (migrateWasmKeys verifier S).get k = some v →
      (∃ lk : LegacyKey, S.get lk.encode = some v ∧ lk.newKey = k) ∨
      (v = [0, 0, 0, 0, 0, 0, 0, 0] ∧
        ((k = LegacyKey.newKey .codeSequence ∧ ¬ Present S .codeSequence) ∨
          (k = LegacyKey.newKey .instanceSequence ∧ ¬ Present S .instanceSequence))) := by
  have hholds := holds_migrateWasmKeys verifier hwf
  refine ⟨?_, ?_, ?_⟩
  · intro lk v hget
    exact hholds.get (sequenced_eq_some.mpr (.inl hget))
  · intro lk lk' hlk hlk' heq
    exact hwf.newKey_unique hlk hlk' heq
  · intro k v hget
    obtain ⟨lk, hlk, rfl⟩ := (hholds k v).mp hget
    rcases sequenced_eq_some.mp hlk with hget | ⟨hzero, habsent, rfl | rfl⟩
    · exact .inl ⟨lk, hget, rfl⟩
    · exact .inr ⟨hzero, .inl ⟨rfl, habsent⟩⟩
    · exact .inr ⟨hzero, .inr ⟨rfl, habsent⟩⟩

namespace Sample

def lengthVerifier : AddressVerifier where
  verifyAddressFormat := fun b =>
    if b.length = 20 ∨ b.length = 32 then .ok () else .error "address length must be 20 or 32"
  accepts_iff := by
    intro b
    split_ifs with h <;> simp [h]

def shortAddr : ContractAddr := ⟨List.replicate 20 7, .inl rfl⟩
def longAddr : ContractAddr := ⟨List.replicate 32 9, .inr rfl⟩

/-- Two contracts with storage, and no sequence of instances. -/
def legacyEntries : List (LegacyKey × Bytes) :=
  [(.codeSequence, [0, 0, 0, 0, 0, 0, 0, 2]), (.code [0, 0, 0, 0, 0, 0, 0, 1], [42]),
    (.contract shortAddr, [1]), (.storage shortAddr [20, 9], [2]), (.contract longAddr, [3]),
    (.storage longAddr [], [4]), (.history [5], [5]), (.pinned [6], []), (.secondaryIndex [7], []),
    (.params, [8])]

theorem legacyEntries_wellFormed : WellFormed (storeOf legacyEntries) :=
  wellFormed_storeOf (by decide +kernel)

/-- The length bytes are gone, and the sequence of instances is zero. -/
theorem legacy_entries_migrated :
    (migrateWasmKeys lengthVerifier (storeOf legacyEntries)).get (0x03 :: (shortAddr.1 ++ [20, 9])) = some [2] ∧
    (migrateWasmKeys lengthVerifier (storeOf legacyEntries)).get (0x02 :: longAddr.1) = some [3] ∧
    (migrateWasmKeys lengthVerifier (storeOf legacyEntries)).get (0x04 :: lastContractIDKey)
      = some [0, 0, 0, 0, 0, 0, 0, 0] := by
  have hlossless := (migration_loses_nothing lengthVerifier legacyEntries_wellFormed).1
  exact ⟨hlossless (.storage shortAddr [20, 9]) [2] (by decide +kernel),
    hlossless (.contract longAddr) [3] (by decide +kernel), by decide +kernel⟩

end Sample

end Wasm
