import DoChain.Sdk.KVStore

/- The keys of the contract store, before and after the migration
   (`app/upgrades/v13/constants.go`, and the key types of the `wasm` module).

   A legacy key is one of eleven kinds. `LegacyKey.encode` spells it as it is in the store
   of a historical height, with a length byte before an address, and `LegacyKey.newKey`
   as it is afterwards. A store is well formed if it has such keys only, and no address in
   it is a proper prefix of another. -/

namespace Wasm

open Sdk

/-- Contract addresses have 20 or 32 bytes. -/
abbrev ContractAddr := { a : Bytes // a.length = 20 ∨ a.length = 32 }

namespace ContractAddr

/-- The length byte. -/
def len (a : ContractAddr) : UInt8 := UInt8.ofNat a.1.length

theorem len_cases (a : ContractAddr) :
    (a.1.length = 20 ∧ a.len = 20) ∨ (a.1.length = 32 ∧ a.len = 32) := by
  rcases a.2 with h | h
  · exact .inl ⟨h, by rw [len, h]; rfl⟩
  · exact .inr ⟨h, by rw [len, h]; rfl⟩

theorem len_toNat (a : ContractAddr) : a.len.toNat = a.1.length := by
  rcases a.len_cases with ⟨h, hlen⟩ | ⟨h, hlen⟩
  · rw [h, hlen]
    rfl
  · rw [h, hlen]
    rfl

end ContractAddr

def lastCodeIDKey : Bytes := "lastCodeId".toUTF8.toList

def lastContractIDKey : Bytes := "lastContractId".toUTF8.toList

inductive LegacyKey where
  | codeSequence
  | instanceSequence
  | code (id : Bytes)
  | contract (addr : ContractAddr)
  | storage (addr : ContractAddr) (key : Bytes)
  | history (rest : Bytes)
  | pinned (rest : Bytes)
  | txCounter (rest : Bytes)
  | byCreator (rest : Bytes)
  | secondaryIndex (rest : Bytes)
  | params
  deriving DecidableEq

namespace LegacyKey

def encode : LegacyKey → Bytes
  | codeSequence => [0x01]
  | instanceSequence => [0x02]
  | code id => 0x03 :: id
  | contract addr => 0x04 :: addr.len :: addr.1
  | storage addr key => 0x05 :: addr.len :: (addr.1 ++ key)
  | history rest => 0x06 :: rest
  | pinned rest => 0x07 :: rest
  | txCounter rest => 0x08 :: rest
  | byCreator rest => 0x09 :: rest
  | secondaryIndex rest => 0x10 :: rest
  | params => [0x11]

def newKey : LegacyKey → Bytes
  | codeSequence => 0x04 :: lastCodeIDKey
  | instanceSequence => 0x04 :: lastContractIDKey
  | code id => 0x01 :: id
  | contract addr => 0x02 :: addr.1
  | storage addr key => 0x03 :: (addr.1 ++ key)
  | history rest => 0x05 :: rest
  | pinned rest => 0x07 :: rest
  | txCounter rest => 0x08 :: rest
  | byCreator rest => 0x09 :: rest
  | secondaryIndex rest => 0x06 :: rest
  | params => [0x10]

/-- The length byte tells where an address ends. -/
theorem encode_injective : Function.Injective encode := by
  have haddr : ∀ (a b : ContractAddr) (k l : Bytes), a.len = b.len → a.1 ++ k = b.1 ++ l → a = b ∧ k = l := by
    intro a b k l hlen heq
    have hlength : a.1.length = b.1.length := by rw [← a.len_toNat, ← b.len_toNat, hlen]
    obtain ⟨hsame, hrest⟩ := List.append_inj heq hlength
    exact ⟨Subtype.ext hsame, hrest⟩
  intro lk lk' heq
  cases lk <;> cases lk' <;> simp [encode] at heq ⊢
  case code.code => exact heq
  case contract.contract a b => exact (haddr a b [] [] heq.1 (by rw [heq.2])).1
  case storage.storage a k b l => exact haddr a b k l heq.1 heq.2
  case history.history => exact heq
  case pinned.pinned => exact heq
  case txCounter.txCounter => exact heq
  case byCreator.byCreator => exact heq
  case secondaryIndex.secondaryIndex => exact heq

/-- Only storage keys can be spelled alike. -/
theorem eq_of_newKey {lk lk' : LegacyKey} (h : lk.newKey = lk'.newKey) :
    lk = lk' ∨ ∃ a k b l, lk = .storage a k ∧ lk' = .storage b l ∧ a.1 ++ k = b.1 ++ l := by
  have hsequences : lastCodeIDKey ≠ lastContractIDKey := by decide +kernel
  cases lk <;> cases lk' <;> simp [newKey, hsequences, hsequences.symm] at h ⊢
  case code.code => exact h
  case contract.contract a b => exact Subtype.ext h
  case storage.storage a k b l => exact .inr h
  case history.history => exact h
  case pinned.pinned => exact h
  case txCounter.txCounter => exact h
  case byCreator.byCreator => exact h
  case secondaryIndex.secondaryIndex => exact h

/-- The address in a key. -/
def addr? : LegacyKey → Option ContractAddr
  | contract addr => some addr
  | storage addr _ => some addr
  | _ => none

end LegacyKey

/-! ## Well-formed stores -/

/-- The store has an entry at a legacy key. -/
def Present (S : KVStore) (lk : LegacyKey) : Prop := (S.get lk.encode).isSome = true

instance (S : KVStore) (lk : LegacyKey) : Decidable (Present S lk) := inferInstanceAs (Decidable (_ = true))

/-- The address is one of a contract that the store has, or has storage of. -/
def HasAddr (S : KVStore) (a : ContractAddr) : Prop := ∃ lk, Present S lk ∧ lk.addr? = some a

structure WellFormed (S : KVStore) : Prop where
  /-- there are legacy keys only -/
  keys : ∀ k, (S.get k).isSome = true → ∃ lk : LegacyKey, lk.encode = k
  /-- no address is a proper prefix of another -/
  addrs : ∀ a b, HasAddr S a → HasAddr S b → a.1 <+: b.1 → a = b

theorem present_of_get {S : KVStore} {lk : LegacyKey} {v : Bytes} (h : S.get lk.encode = some v) :
    Present S lk := by
  rw [Present, h]
  rfl

theorem hasAddr_storage {S : KVStore} {a : ContractAddr} {k : Bytes} (h : Present S (.storage a k)) :
    HasAddr S a :=
  ⟨_, h, rfl⟩

/-- What stands behind the first byte of contracts. -/
theorem WellFormed.contract_of_get {S : KVStore} (hwf : WellFormed S) {x v : Bytes}
    (h : S.get (0x04 :: x) = some v) : ∃ a : ContractAddr, x = a.len :: a.1 := by
  obtain ⟨lk, hlk⟩ := hwf.keys _ (by rw [h]; rfl)
  cases lk <;> simp [LegacyKey.encode] at hlk
  exact ⟨_, hlk.symm⟩

/-- What stands behind the first byte of storage. -/
theorem WellFormed.storage_of_get {S : KVStore} (hwf : WellFormed S) {x v : Bytes}
    (h : S.get (0x05 :: x) = some v) :
    ∃ (a : ContractAddr) (k : Bytes), x = a.len :: (a.1 ++ k) ∧ Present S (.storage a k) := by
  obtain ⟨lk, hlk⟩ := hwf.keys _ (by rw [h]; rfl)
  have hpresent : Present S lk := present_of_get (hlk ▸ h)
  cases lk <;> simp [LegacyKey.encode] at hlk
  exact ⟨_, _, hlk.symm, hpresent⟩

/-- Two addresses that begin one string are one. -/
theorem WellFormed.addr_unique {S : KVStore} (hwf : WellFormed S) {a b : ContractAddr} (ha : HasAddr S a)
    (hb : HasAddr S b) {x : Bytes} (hax : a.1 <+: x) (hbx : b.1 <+: x) : a = b := by
  rcases Nat.le_total a.1.length b.1.length with hle | hle
  · exact hwf.addrs a b ha hb (List.prefix_of_prefix_length_le hax hbx hle)
  · exact (hwf.addrs b a hb ha (List.prefix_of_prefix_length_le hbx hax hle)).symm

/-- So a storage key is that of one contract. -/
theorem WellFormed.storage_unique {S : KVStore} (hwf : WellFormed S) {a b : ContractAddr} (ha : HasAddr S a)
    (hb : HasAddr S b) {k l : Bytes} (h : a.1 ++ k = b.1 ++ l) : a = b ∧ k = l := by
  have hsame : a = b := hwf.addr_unique ha hb (List.prefix_append a.1 k) (h ▸ List.prefix_append b.1 l)
  subst hsame
  exact ⟨rfl, List.append_cancel_left h⟩

/-- Entries under different legacy keys have different new keys. -/
theorem WellFormed.newKey_unique {S : KVStore} (hwf : WellFormed S) {lk lk' : LegacyKey} (h : Present S lk)
    (h' : Present S lk') (heq : lk.newKey = lk'.newKey) : lk = lk' := by
  rcases LegacyKey.eq_of_newKey heq with hsame | ⟨a, k, b, l, rfl, rfl, hkey⟩
  · exact hsame
  · obtain ⟨rfl, rfl⟩ := hwf.storage_unique (hasAddr_storage h) (hasAddr_storage h') hkey
    rfl

namespace Sample

/-- A store with these entries. -/
def storeOf (es : List (LegacyKey × Bytes)) : KVStore :=
  es.foldl (fun store e => store.set e.1.encode e.2) SortedMap.empty

theorem mem_of_storeOf {es : List (LegacyKey × Bytes)} {k : Bytes}
    (h : ((storeOf es).get k).isSome = true) : ∃ e ∈ es, e.1.encode = k := by
  have hfold : ∀ store : KVStore, ((es.foldl (fun store e => store.set e.1.encode e.2) store).get k).isSome = true →
      (store.get k).isSome = true ∨ ∃ e ∈ es, e.1.encode = k := by
    clear h
    induction es with
    | nil => exact fun store hget => .inl hget
    | cons e rest ih =>
      intro store hget
      rcases ih _ hget with hget | ⟨x, hx, hk⟩
      · rw [SortedMap.get_set] at hget
        split_ifs at hget with hk
        · exact .inr ⟨e, List.mem_cons_self, hk.symm⟩
        · exact .inl hget
      · exact .inr ⟨x, List.mem_cons_of_mem e hx, hk⟩
  rcases hfold SortedMap.empty h with hget | hex
  · exact absurd hget Bool.false_ne_true
  · exact hex

theorem wellFormed_storeOf {es : List (LegacyKey × Bytes)}
    (haddrs : ∀ a ∈ es.filterMap (fun e => e.1.addr?), ∀ b ∈ es.filterMap (fun e => e.1.addr?),
      a.1 <+: b.1 → a = b) : WellFormed (storeOf es) := by
  have hmem : ∀ a, HasAddr (storeOf es) a → a ∈ es.filterMap (fun e => e.1.addr?) := by
    intro a ha
    obtain ⟨lk, hlk, haddr⟩ := ha
    obtain ⟨e, he, heq⟩ := mem_of_storeOf hlk
    exact List.mem_filterMap.mpr ⟨e, he, LegacyKey.encode_injective heq ▸ haddr⟩
  refine ⟨?_, fun a b ha hb => haddrs a (hmem a ha) b (hmem b hb)⟩
  intro k hk
  obtain ⟨e, _, he⟩ := mem_of_storeOf hk
  exact ⟨e.1, he⟩

end Sample

end Wasm
