import DoChain.Wasm.LegacyStore

/- Iteration over the storage of one contract at a historical height
   (`legacyWasmStore.Iterator` and `ReverseIterator` with bounds under `0x03`).

   A range `[s, e)` of the storage keys of a contract has the bounds of a store with the
   prefix `0x03|A`; without an end it ends at the incremented prefix. `Scans` says what is
   to be yielded. Whatever is yielded is an entry of the range, in order, because the new
   keys are compared with the bounds again. So all that can go wrong is that the
   translated bounds leave out entries (`scans_iff`).

   The length byte of a bound is looked up in the store. For a bound that begins with the
   address of a contract with storage it is the right one (`lengthPrefix_of_storage`). The
   incremented prefix begins with another address, or with none: `EndFound`. -/

namespace Wasm

open Sdk

/-! ## Looking up the length byte -/

section Lookup

variable {codec : ValueCodec} {S : KVStore}

theorem LegacyWasmStore.probe_iff {key : Bytes} :
    LegacyWasmStore.probe ⟨codec, S⟩ key = true ↔ ∃ rest, (S.get (key ++ rest)).isSome = true := by
  have hmem : LegacyWasmStore.probe ⟨codec, S⟩ key = true ↔
      ∃ e, e ∈ S.iterator (some key) (prefixEndBytes key) := by
    rw [probe, Bool.not_eq_true', List.isEmpty_eq_false_iff_exists_mem]
  rw [hmem]
  refine ⟨?_, ?_⟩
  · intro h
    obtain ⟨e, he⟩ := h
    obtain ⟨hget, hdom⟩ := KVStore.mem_iterator.mp he
    obtain ⟨rest, hrest⟩ := inDomain_prefixEndBytes.mp hdom
    exact ⟨rest, by rw [hrest, hget]; rfl⟩
  · intro h
    obtain ⟨rest, hrest⟩ := h
    obtain ⟨v, hv⟩ := Option.isSome_iff_exists.mp hrest
    exact ⟨(key ++ rest, v), KVStore.mem_iterator.mpr ⟨hv, inDomain_prefixEndBytes.mpr (List.prefix_append _ _)⟩⟩

/-- The lookup of a length byte and an address finds the storage under it. -/
theorem probe_storage_iff {a : ContractAddr} :
    LegacyWasmStore.probe ⟨codec, S⟩ (0x05 :: a.len :: a.1) = true ↔ ∃ k, Present S (.storage a k) := by
  rw [LegacyWasmStore.probe_iff]
  rfl

/-- No contract is found under the first 20 bytes of a longer address. -/
theorem probe_of_long (hwf : WellFormed S) {a : ContractAddr} (ha : HasAddr S a) (hlong : a.1.length = 32) :
    LegacyWasmStore.probe ⟨codec, S⟩ (0x05 :: 0x14 :: a.1.take 20) = false := by
  rw [Bool.eq_false_iff]
  intro hprobe
  have hlength : (a.1.take 20).length = 20 := by
    rw [List.length_take, hlong]
    rfl
  obtain ⟨b, hb⟩ : ∃ b : ContractAddr, b.1 = a.1.take 20 := ⟨⟨a.1.take 20, .inl hlength⟩, rfl⟩
  have hblen : b.len = 0x14 := by
    rw [ContractAddr.len, hb, hlength]
    rfl
  rw [← hb, ← hblen] at hprobe
  obtain ⟨k, hk⟩ := probe_storage_iff.mp hprobe
  have hsame : b = a := hwf.addrs b a (hasAddr_storage hk) ha (hb ▸ List.take_prefix 20 a.1)
  rw [← hb, hsame, hlong] at hlength
  omega

/-- What is found for an address that begins like one of 32 bytes. -/
theorem lengthPrefix_of_long (hwf : WellFormed S) {a b : ContractAddr} (ha : HasAddr S a)
    (hlong : a.1.length = 32) (hblong : b.1.length = 32) (htake : b.1.take 20 = a.1.take 20) (x : Bytes) :
    LegacyWasmStore.getAddressLengthPrefix ⟨codec, S⟩ (b.1 ++ x) =
      if LegacyWasmStore.probe ⟨codec, S⟩ (0x05 :: b.len :: b.1) = true then some b.len else some 0x14 := by
  have hlen : b.len = 0x20 := by
    rw [ContractAddr.len, hblong]
    rfl
  have h20 : (b.1 ++ x).take 20 = a.1.take 20 := by
    rw [List.take_append_of_le_length (by omega), htake]
  have h32 : (b.1 ++ x).take 32 = b.1 := List.take_left' hblong
  have hfits : ¬ (b.1 ++ x).length < 20 ∧ 32 ≤ (b.1 ++ x).length := by
    rw [List.length_append]
    omega
  rw [LegacyWasmStore.getAddressLengthPrefix, h20, h32, probe_of_long hwf ha hlong, hlen, if_neg hfits.1,
    if_neg Bool.false_ne_true]
  simp only [hfits.2, true_and]

/-- The length byte of a contract with storage is found. -/
theorem lengthPrefix_of_storage (hwf : WellFormed S) {a : ContractAddr} {k : Bytes}
    (hk : Present S (.storage a k)) (x : Bytes) :
    LegacyWasmStore.getAddressLengthPrefix ⟨codec, S⟩ (a.1 ++ x) = some a.len := by
  have hprobe : LegacyWasmStore.probe ⟨codec, S⟩ (0x05 :: a.len :: a.1) = true := probe_storage_iff.mpr ⟨k, hk⟩
  rcases a.len_cases with ⟨hlength, hlen⟩ | ⟨hlength, _⟩
  · have h20 : (a.1 ++ x).take 20 = a.1 := List.take_left' hlength
    rw [hlen] at hprobe ⊢
    rw [LegacyWasmStore.getAddressLengthPrefix, h20, if_neg (by rw [List.length_append]; omega)]
    exact if_pos hprobe
  · rw [lengthPrefix_of_long hwf (hasAddr_storage hk) hlength hlength rfl, if_pos hprobe]

/-- The length byte that is found fits the bytes it is looked up for. -/
theorem lengthPrefix_eq_some {x : Bytes} {len : UInt8}
    (h : LegacyWasmStore.getAddressLengthPrefix ⟨codec, S⟩ x = some len) :
    20 ≤ x.length ∧ (len = 0x14 ∨ len = 0x20 ∧ 32 ≤ x.length) := by
  rw [LegacyWasmStore.getAddressLengthPrefix] at h
  split_ifs at h with hshort h20 h32
  · exact ⟨not_lt.mp hshort, .inl (Option.some.inj h).symm⟩
  · exact ⟨not_lt.mp hshort, .inr ⟨(Option.some.inj h).symm, h32.1⟩⟩
  · exact ⟨not_lt.mp hshort, .inl (Option.some.inj h).symm⟩

theorem lengthPrefix_of_twenty {x : Bytes} (h : x.length = 20) :
    LegacyWasmStore.getAddressLengthPrefix ⟨codec, S⟩ x = some 0x14 := by
  rw [LegacyWasmStore.getAddressLengthPrefix, h]
  simp

end Lookup

/-! ## What is to be yielded -/

/-- The entries of a contract in a range of its storage keys, in order. -/
def Scans (S : KVStore) (a : ContractAddr) (s : Bytes) (e : Option Bytes) (l : List (Bytes × Bytes)) : Prop :=
  l.Pairwise (fun x y => x.1 < y.1) ∧
    ∀ key v, (key, v) ∈ l ↔ ∃ k, key = (LegacyKey.storage a k).newKey ∧ inDomain (some s) e k = true ∧
      S.get (LegacyKey.storage a k).encode = some v

section Range

variable {codec : ValueCodec} {S : KVStore} {a : ContractAddr} {s : Bytes} {e : Option Bytes}

theorem shown_storage {lk : LegacyKey} {x : Bytes} (h : lk.shown = some (0x03 :: x)) :
    ∃ b k, lk = .storage b k ∧ x = b.1 ++ k := by
  cases lk <;> simp [LegacyKey.shown, LegacyKey.newKey] at h
  exact ⟨_, _, rfl, h.symm⟩

/-- What is shown in the range of a contract is an entry of it. -/
theorem shows_storage (hwf : WellFormed S) (ha : HasAddr S a) {lk : LegacyKey} {key : Bytes}
    (hlk : Present S lk) (h : Shows codec S (some (0x03 :: (a.1 ++ s))) (prefixEnd (0x03 :: a.1) e) lk key) :
    ∃ k, lk = .storage a k ∧ key = (LegacyKey.storage a k).newKey ∧ inDomain (some s) e k = true := by
  obtain ⟨_, hshown, hin⟩ := h
  obtain ⟨k, rfl, hk⟩ := (inDomain_prefixEnd (p := 0x03 :: a.1)).mp hin
  obtain ⟨b, l, rfl, hkey⟩ := shown_storage hshown
  obtain ⟨rfl, rfl⟩ := hwf.storage_unique ha (hasAddr_storage hlk) hkey
  exact ⟨k, rfl, rfl, hk⟩

/-- A scan is right if the translated bounds leave out no entry. -/
theorem scans_iff (hwf : WellFormed S) (ha : HasAddr S a) :
    Scans S a s e ((LegacyWasmStore.iterator ⟨codec, S⟩ (some (0x03 :: (a.1 ++ s)))
        (prefixEnd (0x03 :: a.1) e)).all codec) ↔
      ∀ k, Present S (.storage a k) → inDomain (some s) e k = true →
        Shows codec S (some (0x03 :: (a.1 ++ s))) (prefixEnd (0x03 :: a.1) e) (.storage a k)
          (LegacyKey.storage a k).newKey := by
  refine ⟨?_, ?_⟩
  · intro h k hk hin
    obtain ⟨v, hv⟩ := Option.isSome_iff_exists.mp hk
    obtain ⟨lk, w, hget, hshows, _⟩ := hwf.mem_iterator.mp ((h.2 _ v).mpr ⟨k, rfl, hin, hv⟩)
    obtain ⟨l, rfl, hkey, _⟩ := shows_storage hwf ha (present_of_get hget) hshows
    have hsame : k = l := by simpa [LegacyKey.newKey] using hkey
    exact hsame ▸ hshows
  · intro h
    refine ⟨hwf.iterator_pairwise_iff.mpr ?_, ?_⟩
    · -- both keys are of the contract, and ordered by what follows its address
      intro lk lk' key key' hlk hlk' hlt hshows hshows'
      obtain ⟨k, rfl, rfl, _⟩ := shows_storage hwf ha hlk hshows
      obtain ⟨k', rfl, rfl, _⟩ := shows_storage hwf ha hlk' hshows'
      have hkeys : k < k' := (ListOrder.append_lt_append_iff (p := 0x05 :: a.len :: a.1)).mp hlt
      exact (ListOrder.append_lt_append_iff (p := 0x03 :: a.1)).mpr hkeys
    · intro key v
      rw [hwf.mem_iterator]
      refine ⟨?_, ?_⟩
      · intro hmem
        obtain ⟨lk, w, hget, hshows, rfl⟩ := hmem
        obtain ⟨k, rfl, rfl, hin⟩ := shows_storage hwf ha (present_of_get hget) hshows
        exact ⟨k, rfl, hin, hget⟩
      · intro hmem
        obtain ⟨k, rfl, hin, hget⟩ := hmem
        exact ⟨_, v, hget, h k (present_of_get hget) hin, rfl⟩

end Range

/-! ## The translated bounds -/

/-- The end of a range of the contract's storage gets the length byte of its address: it
begins with the address; or there is none, the bytes of the address being the largest; or
it is the incremented address of as many bytes, and of 20 or itself one with storage. -/
def EndFound (S : KVStore) (a : ContractAddr) (e : Option Bytes) : Prop :=
  e ≠ none ∨ (∀ b ∈ a.1, b = 255) ∨
    ∃ next : ContractAddr, prefixEndBytes a.1 = some next.1 ∧ next.len = a.len ∧
      (a.1.length = 20 ∨ ∃ k, Present S (.storage next k))

section Bounds

variable {codec : ValueCodec} {S : KVStore} {a : ContractAddr} {k : Bytes}

theorem translateBounds_storage (body : Bytes) (stop : Option Bytes) :
    LegacyWasmStore.translateBoundsForIteration ⟨codec, S⟩ (some (0x03 :: body)) stop =
      LegacyWasmStore.translateStorageBounds ⟨codec, S⟩ body stop := by
  rw [LegacyWasmStore.translateBoundsForIteration, if_neg (by simp)]

/-- With the length byte of the contract before it, the end of its storage is found. -/
theorem inDomain_of_end {s : Bytes} {e : Option Bytes} (hin : inDomain (some s) e k = true)
    {stop : Option Bytes} (hstop : stop = prefixEnd (0x05 :: a.len :: a.1) e ∨ stop = none) :
    inDomain (some (0x05 :: a.len :: (a.1 ++ s))) stop (LegacyKey.storage a k).encode = true := by
  have hdom : inDomain (some (0x05 :: a.len :: (a.1 ++ s))) (prefixEnd (0x05 :: a.len :: a.1) e)
      (LegacyKey.storage a k).encode = true :=
    (inDomain_append_iff (p := 0x05 :: a.len :: a.1)).mpr hin
  rcases hstop with rfl | rfl
  · exact hdom
  · rw [inDomain_some_iff] at hdom ⊢
    exact ⟨hdom.1, fun _ h => nomatch h⟩

/-- With another one the range is empty. -/
theorem not_inDomain_of_length {s r : Bytes} (hlong : a.len = 32) :
    inDomain (some (0x05 :: a.len :: (a.1 ++ s))) (some (0x05 :: 0x14 :: r)) (LegacyKey.storage a k).encode =
      false := by
  rw [Bool.eq_false_iff]
  intro h
  have hlt := (inDomain_some_iff.mp h).2 _ rfl
  rw [LegacyKey.encode, hlong, List.cons_lt_cons_iff, List.cons_lt_cons_iff] at hlt
  revert hlt
  simp

/-- The bounds of a range of the storage of a contract, with the end as it is looked up. -/
theorem translateStorageBounds_end (hwf : WellFormed S) (hk : Present S (.storage a k)) (s bodyEnd : Bytes) :
    LegacyWasmStore.translateStorageBounds ⟨codec, S⟩ (a.1 ++ s) (some (0x03 :: bodyEnd)) =
      (some (0x05 :: a.len :: (a.1 ++ s)),
        some (match LegacyWasmStore.getAddressLengthPrefix ⟨codec, S⟩ bodyEnd with
          | some len => 0x05 :: len :: bodyEnd
          | none => 0x05 :: a.len :: (a.1 ++ s))) := by
  simp only [LegacyWasmStore.translateStorageBounds, lengthPrefix_of_storage hwf hk]
  cases LegacyWasmStore.getAddressLengthPrefix ⟨codec, S⟩ bodyEnd with
  | none => rfl
  | some len => rfl

/-- The incremented address, as an end. -/
theorem inDomain_next_iff (hwf : WellFormed S) (hk : Present S (.storage a k)) {s r : Bytes}
    (hin : inDomain (some s) none k = true) (hr : prefixEndBytes a.1 = some r) :
    inDomain (LegacyWasmStore.translateStorageBounds ⟨codec, S⟩ (a.1 ++ s) (some (0x03 :: r))).1
        (LegacyWasmStore.translateStorageBounds ⟨codec, S⟩ (a.1 ++ s) (some (0x03 :: r))).2
        (LegacyKey.storage a k).encode = true ↔
      LegacyWasmStore.getAddressLengthPrefix ⟨codec, S⟩ r = some a.len := by
  have hend : prefixEnd (0x05 :: a.len :: a.1) none = some (0x05 :: a.len :: r) := by
    simp [prefixEnd, prefixEndBytes, hr]
  rw [translateStorageBounds_end hwf hk]
  cases hlookup : LegacyWasmStore.getAddressLengthPrefix ⟨codec, S⟩ r with
  | none =>
    -- start and end are the same
    refine iff_of_false ?_ (by simp)
    intro h
    obtain ⟨hlow, hhigh⟩ := inDomain_some_iff.mp h
    exact absurd (hhigh _ rfl) (not_lt.mpr hlow)
  | some len =>
    rw [Option.some_inj]
    refine ⟨?_, ?_⟩
    · intro h
      obtain ⟨_, hlen⟩ := lengthPrefix_eq_some hlookup
      rcases a.len_cases with ⟨hlength, halen⟩ | ⟨_, halen⟩
      · -- the incremented address is not longer
        have hshort := (prefixEndBytes_take hr).1
        rcases hlen with rfl | ⟨_, h32⟩
        · exact halen.symm
        · omega
      · rcases hlen with rfl | ⟨rfl, _⟩
        · exact absurd h (by rw [not_inDomain_of_length halen]; exact Bool.false_ne_true)
        · exact halen.symm
    · intro h
      subst h
      exact inDomain_of_end hin (.inl hend.symm)

/-- Which length byte is found for the incremented address. -/
theorem lengthPrefix_next_iff (hwf : WellFormed S) (ha : HasAddr S a) {r : Bytes}
    (hr : prefixEndBytes a.1 = some r) :
    LegacyWasmStore.getAddressLengthPrefix ⟨codec, S⟩ r = some a.len ↔
      ∃ next : ContractAddr, r = next.1 ∧ next.len = a.len ∧
        (a.1.length = 20 ∨ ∃ k, Present S (.storage next k)) := by
  obtain ⟨hshort, htake⟩ := prefixEndBytes_take hr
  rcases a.len_cases with ⟨hlength, halen⟩ | ⟨hlength, halen⟩
  · refine ⟨?_, ?_⟩
    · intro h
      have hr20 : r.length = 20 := by
        have hlow := (lengthPrefix_eq_some h).1
        omega
      refine ⟨⟨r, .inl hr20⟩, rfl, ?_, .inl hlength⟩
      show UInt8.ofNat r.length = a.len
      rw [hr20, halen]
      rfl
    · intro h
      obtain ⟨next, rfl, hlen, _⟩ := h
      have hr20 : next.1.length = 20 := by rw [← next.len_toNat, hlen, a.len_toNat, hlength]
      rw [lengthPrefix_of_twenty hr20, halen]
  · -- the first 20 bytes are those of the contract's address
    have hlookup : ∀ next : ContractAddr, r = next.1 → next.1.length = 32 →
        (LegacyWasmStore.getAddressLengthPrefix ⟨codec, S⟩ r = some a.len ↔ ∃ k, Present S (.storage next k)) := by
      intro next heq hnext
      have h20 : next.1.take 20 = a.1.take 20 := by
        rw [← heq]
        exact htake 20 (by rw [heq, hnext]; omega)
      have hlen : next.len = 32 := by
        rw [ContractAddr.len, hnext]
        rfl
      have hprobe : LegacyWasmStore.probe ⟨codec, S⟩ (0x05 :: next.len :: next.1) = true ↔
          ∃ k, Present S (.storage next k) := probe_storage_iff
      rw [← hprobe, heq, ← List.append_nil next.1, lengthPrefix_of_long hwf ha hlength hnext h20 [],
        List.append_nil, hlen, halen]
      split_ifs with hfound
      · exact iff_of_true rfl hfound
      · exact iff_of_false (by decide) hfound
    refine ⟨?_, ?_⟩
    · intro h
      have hr32 : r.length = 32 := by
        rcases (lengthPrefix_eq_some h).2 with h20 | ⟨_, h32⟩
        · exact absurd (halen.symm.trans h20) (by decide)
        · omega
      refine ⟨⟨r, .inr hr32⟩, rfl, ?_, .inr ((hlookup ⟨r, .inr hr32⟩ rfl hr32).mp h)⟩
      show UInt8.ofNat r.length = a.len
      rw [hr32, halen]
      rfl
    · intro h
      obtain ⟨next, heq, hlen, hnext⟩ := h
      have hr32 : next.1.length = 32 := by rw [← next.len_toNat, hlen, a.len_toNat, hlength]
      exact (hlookup next heq hr32).mpr (hnext.resolve_left (by omega))

/-- The translated bounds keep the entries of the range if the end is found. -/
theorem inDomain_bounds_iff (hwf : WellFormed S) (hk : Present S (.storage a k)) {s : Bytes} {e : Option Bytes}
    (hin : inDomain (some s) e k = true) :
    inDomain (LegacyWasmStore.translateStorageBounds ⟨codec, S⟩ (a.1 ++ s) (prefixEnd (0x03 :: a.1) e)).1
        (LegacyWasmStore.translateStorageBounds ⟨codec, S⟩ (a.1 ++ s) (prefixEnd (0x03 :: a.1) e)).2
        (LegacyKey.storage a k).encode = true ↔ EndFound S a e := by
  cases e with
  | some e =>
    refine iff_of_true ?_ (.inl (by simp))
    rw [prefixEnd, List.cons_append, translateStorageBounds_end hwf hk, lengthPrefix_of_storage hwf hk]
    exact inDomain_of_end hin (.inl rfl)
  | none =>
    cases hr : prefixEndBytes a.1 with
    | none =>
      -- the end is the next first byte, for which there is no old end
      refine iff_of_true ?_ (.inr (.inl (prefixEndBytes_eq_none.mp hr)))
      have hstop : prefixEnd (0x03 :: a.1) none = some [0x04] := by
        simp [prefixEnd, prefixEndBytes, hr]
      simp only [hstop, LegacyWasmStore.translateStorageBounds, lengthPrefix_of_storage hwf hk]
      exact inDomain_of_end hin (.inr rfl)
    | some r =>
      have hstop : prefixEnd (0x03 :: a.1) none = some (0x03 :: r) := by
        simp [prefixEnd, prefixEndBytes, hr]
      have hmax : ¬ ∀ b ∈ a.1, b = 255 := by
        rw [← prefixEndBytes_eq_none, hr]
        simp
      rw [hstop, inDomain_next_iff hwf hk hin hr, lengthPrefix_next_iff hwf (hasAddr_storage hk) hr, EndFound, hr]
      simp [hmax]

end Bounds

/-- The storage of a contract is scanned as it is, in both directions, if nothing of it is
in the range or the end of the range is found. -/
theorem storage_scan_iff (codec : ValueCodec) {S : KVStore} (hwf : WellFormed S) {a : ContractAddr}
    (ha : HasAddr S a) (s : Bytes) (e : Option Bytes) :
    (Scans S a s e ((LegacyWasmStore.iterator ⟨codec, S⟩ (some (0x03 :: (a.1 ++ s)))
        (prefixEnd (0x03 :: a.1) e)).all codec) ∧
      Scans S a s e ((LegacyWasmStore.reverseIterator ⟨codec, S⟩ (some (0x03 :: (a.1 ++ s)))
        (prefixEnd (0x03 :: a.1) e)).all codec).reverse) ↔
      (∀ k, Present S (.storage a k) → inDomain (some s) e k = false) ∨ EndFound S a e := by
  rw [LegacyWasmStore.reverseIterator_all _ _ ⟨codec, S⟩, List.reverse_reverse, and_self, scans_iff hwf ha]
  refine ⟨?_, ?_⟩
  · intro h
    by_cases hex : ∃ k, Present S (.storage a k) ∧ inDomain (some s) e k = true
    · obtain ⟨k, hk, hin⟩ := hex
      have hdom := (h k hk hin).1
      rw [translateBounds_storage] at hdom
      exact .inr ((inDomain_bounds_iff hwf hk hin).mp hdom)
    · refine .inl (fun k hk => ?_)
      rw [Bool.eq_false_iff]
      exact fun hin => hex ⟨k, hk, hin⟩
  · intro h k hk hin
    rcases h with hnone | hend
    · exact absurd hin (by rw [hnone k hk]; exact Bool.false_ne_true)
    · refine ⟨?_, rfl, (inDomain_append_iff (p := 0x03 :: a.1)).mpr hin⟩
      rw [translateBounds_storage]
      exact (inDomain_bounds_iff hwf hk hin).mpr hend

namespace Sample

/-- One contract with an address of 32 bytes, and two entries of storage. -/
def longEntries : List (LegacyKey × Bytes) :=
  [(.contract longAddr, [1]), (.storage longAddr [1], [5]), (.storage longAddr [2], [6])]

theorem longEntries_wellFormed : WellFormed (storeOf longEntries) :=
  wellFormed_storeOf (by decide +kernel)

/-- The incremented address has no storage, so that the end gets the length byte of a
shorter one and nothing is left of the range. -/
theorem long_contract_has_no_scan :
    WellFormed (storeOf longEntries) ∧ HasAddr (storeOf longEntries) longAddr ∧
    (storeOf longEntries).get (LegacyKey.storage longAddr [1]).encode = some [5] ∧
    (LegacyWasmStore.iterator ⟨noCodec, storeOf longEntries⟩ (some (0x03 :: longAddr.1))
      (prefixEndBytes (0x03 :: longAddr.1))).all noCodec = [] ∧
    ¬ Scans (storeOf longEntries) longAddr [] none
      ((LegacyWasmStore.iterator ⟨noCodec, storeOf longEntries⟩ (some (0x03 :: (longAddr.1 ++ [])))
        (prefixEnd (0x03 :: longAddr.1) none)).all noCodec) := by
  have hget : (storeOf longEntries).get (LegacyKey.storage longAddr [1]).encode = some [5] := by decide +kernel
  have hall : (LegacyWasmStore.iterator ⟨noCodec, storeOf longEntries⟩ (some (0x03 :: longAddr.1))
      (prefixEndBytes (0x03 :: longAddr.1))).all noCodec = [] := by decide +kernel
  refine ⟨longEntries_wellFormed, hasAddr_storage (present_of_get hget), hget, hall, ?_⟩
  intro h
  have hmem := (h.2 (LegacyKey.storage longAddr [1]).newKey [5]).mpr ⟨[1], rfl, by decide, hget⟩
  rw [List.append_nil, prefixEnd, hall] at hmem
  cases hmem

def shortEntries : List (LegacyKey × Bytes) :=
  [(.contract shortAddr, [1]), (.storage shortAddr [1], [5]), (.storage shortAddr [2], [6])]

theorem shortEntries_wellFormed : WellFormed (storeOf shortEntries) :=
  wellFormed_storeOf (by decide +kernel)

/-- The whole storage of a contract with an address of 20 bytes. -/
theorem short_contract_scanned :
    Scans (storeOf shortEntries) shortAddr [] none
      ((LegacyWasmStore.iterator ⟨noCodec, storeOf shortEntries⟩ (some (0x03 :: (shortAddr.1 ++ [])))
        (prefixEnd (0x03 :: shortAddr.1) none)).all noCodec) ∧
    Scans (storeOf shortEntries) shortAddr [] none
      ((LegacyWasmStore.reverseIterator ⟨noCodec, storeOf shortEntries⟩ (some (0x03 :: (shortAddr.1 ++ [])))
        (prefixEnd (0x03 :: shortAddr.1) none)).all noCodec).reverse := by
  have hpresent : Present (storeOf shortEntries) (.storage shortAddr [1]) := by decide +kernel
  refine (storage_scan_iff noCodec shortEntries_wellFormed (hasAddr_storage hpresent) [] none).mpr (.inr ?_)
  refine .inr (.inr ⟨⟨List.replicate 19 7 ++ [8], .inl rfl⟩, ?_, ?_, .inl rfl⟩)
  · decide
  · decide

end Sample

end Wasm
