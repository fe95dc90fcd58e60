import DoChain.Wasm.Migration

/- The store that answers queries of historical heights (`custom/wasm/legacy_store.go`).

   Correspondence (Go ↔ Lean):
     `translateNewToOld`, `buildLenVariants`  ↔ `translateNewToOld`, `buildLenVariants`
     `mapOldToNew`                            ↔ `mapOldToNew`
     `translateLegacyValueForKey`             ↔ `translateLegacyValueForKey`
     `legacyWasmStore.Get`, `Has`             ↔ `LegacyWasmStore.get`, `has`
     `getAddressLengthPrefix`                 ↔ `getAddressLengthPrefix`
     `translateBoundsForIteration`            ↔ `translateBoundsForIteration`
     `legacyIterator`                         ↔ `LegacyIterator`
     `legacyWasmStore.Iterator`, `Reverse`    ↔ `LegacyWasmStore.iterator`, `reverseIterator`

   The protobuf codecs of the values are generated code: `ValueCodec`. The current key and
   value of an iterator are one option, `none` where it is not valid. Writes to this store
   do nothing and are left out.

   Iterators keep a step behind the one they wrap; `LegacyIterator.all_eq` says what they
   yield in the end. `get_eq_migrated_iff` compares a point read with the migrated
   store. -/

namespace Wasm

open Sdk

/-- A text is bytes: the codecs do not ask for UTF-8. -/
structure LegacyCodeInfo where
  codeID : UInt64
  codeHash : Bytes
  creator : Bytes

structure LegacyContractInfo where
  address : Bytes
  creator : Bytes
  admin : Bytes
  codeID : UInt64
  initMsg : Bytes

/-- What the translation of values uses of the protobuf codecs. -/
structure ValueCodec where
  unmarshalLegacyCodeInfo : Bytes → Option LegacyCodeInfo
  marshalCodeInfo : LegacyCodeInfo → Option Bytes
  unmarshalLegacyContractInfo : Bytes → Option LegacyContractInfo
  marshalContractInfo : LegacyContractInfo → Option Bytes

structure LegacyWasmStore where
  codec : ValueCodec
  parent : KVStore

/-! ## Keys -/

def newToOldSimple (b : UInt8) : Option UInt8 :=
  if b = 0x01 then some 0x03
  else if b = 0x02 then some 0x04
  else if b = 0x03 then some 0x05
  else if b = 0x05 then some 0x06
  else if b = 0x06 then some 0x10
  else none

def oldToNewSimple (b : UInt8) : Option UInt8 :=
  if b = 0x03 then some 0x01
  else if b = 0x04 then some 0x02
  else if b = 0x05 then some 0x03
  else if b = 0x06 then some 0x05
  else if b = 0x10 then some 0x06
  else none

/-- The key as it is, and with each length byte that fits. -/
def buildLenVariants (first : UInt8) (rest : Bytes) : List Bytes :=
  [first :: rest] ++
    (if 20 ≤ rest.length then [first :: 20 :: (rest.take 20 ++ rest.drop 20)] else []) ++
    (if 32 ≤ rest.length then [first :: 32 :: (rest.take 32 ++ rest.drop 32)] else [])

def translateNewToOld (newKey : Bytes) : List Bytes :=
  match newKey with
  | [] => [newKey]
  | first :: body =>
    if newKey = 0x04 :: lastCodeIDKey then [[0x01]]
    else if newKey = 0x04 :: lastContractIDKey then [[0x02]]
    else if newKey = [0x10] then [[0x11]]
    else
      match newToOldSimple first with
      | none => [newKey]
      | some old =>
        if first = 0x02 ∨ first = 0x03 then buildLenVariants old body else [old :: body]

def stripLegacyLenPrefix (b : Bytes) : Bytes :=
  match b with
  | [] => b
  | len :: rest => if 21 ≤ b.length ∧ len = 20 ∧ len.toNat = b.length - 1 then rest else b

def rebuildContractStoreBody (body : Bytes) : Bytes :=
  match body with
  | [] => body
  | len :: rest => if (len = 20 ∨ len = 32) ∧ 1 + len.toNat ≤ body.length then rest else body

/-- The new key of an old one; `none` for keys that are skipped. -/
def mapOldToNew (old : Bytes) : Option Bytes :=
  match old with
  | [] => none
  | first :: body =>
    if old = [0x01] then some (0x04 :: lastCodeIDKey)
    else if old = [0x02] then some (0x04 :: lastContractIDKey)
    else if old = [0x11] then some [0x10]
    else
      match oldToNewSimple first with
      | none => none
      | some new =>
        if first = 0x04 then some (new :: stripLegacyLenPrefix body)
        else if first = 0x05 then some (new :: rebuildContractStoreBody body)
        else some (new :: body)

/-! ## Values -/

def translateLegacyCodeInfoValue (codec : ValueCodec) (value : Bytes) : Bytes :=
  match codec.unmarshalLegacyCodeInfo value with
  | none => value
  | some info => (codec.marshalCodeInfo info).getD value

def translateLegacyContractInfoValue (codec : ValueCodec) (value : Bytes) : Bytes :=
  match codec.unmarshalLegacyContractInfo value with
  | none => value
  | some info => (codec.marshalContractInfo info).getD value

def translateLegacyValueForKey (codec : ValueCodec) (newKey value : Bytes) : Bytes :=
  match newKey with
  | [] => value
  | first :: _ =>
    if first = 0x01 then translateLegacyCodeInfoValue codec value
    else if first = 0x02 then translateLegacyContractInfoValue codec value
    else value

/-! ## Iterators -/

def rangeOK (k : Bytes) (start stop : Option Bytes) : Bool := inDomain start stop k

structure LegacyIterator where
  under : List (Bytes × Bytes)
  start : Option Bytes
  stop : Option Bytes
  current : Option (Bytes × Bytes)

/-- The loop of `advance`: entries that have no new key or one out of range are skipped. -/
def LegacyIterator.advance (codec : ValueCodec) (start stop : Option Bytes) :
    List (Bytes × Bytes) → LegacyIterator
  | [] => ⟨[], start, stop, none⟩
  | (oldKey, value) :: under =>
    match mapOldToNew oldKey with
    | none => advance codec start stop under
    | some newKey =>
      if rangeOK newKey start stop = false then advance codec start stop under
      else ⟨under, start, stop, some (newKey, translateLegacyValueForKey codec newKey value)⟩

def LegacyIterator.next (codec : ValueCodec) (it : LegacyIterator) : LegacyIterator :=
  advance codec it.start it.stop it.under

/-- What an iterator yields in so many steps. -/
def LegacyIterator.take (codec : ValueCodec) : Nat → LegacyIterator → List (Bytes × Bytes)
  | 0, _ => []
  | n + 1, it =>
    match it.current with
    | none => []
    | some e => e :: take codec n (it.next codec)

/-- What an iterator yields until it is not valid any more. -/
def LegacyIterator.all (codec : ValueCodec) (it : LegacyIterator) : List (Bytes × Bytes) :=
  it.take codec (it.under.length + 1)

namespace LegacyWasmStore

variable (s : LegacyWasmStore)

/-- The first candidate that the store has. -/
def get (key : Bytes) : Option Bytes :=
  (translateNewToOld key).findSome? (fun cand =>
    (s.parent.get cand).map (translateLegacyValueForKey s.codec key))

def has (key : Bytes) : Bool := (translateNewToOld key).any (fun cand => (s.parent.get cand).isSome)

/-- The store has keys that begin so. -/
def probe (key : Bytes) : Bool := !(s.parent.iterator (some key) (prefixEndBytes key)).isEmpty

/-- The length byte of the address at the beginning, as far as the store tells. -/
def getAddressLengthPrefix (body : Bytes) : Option UInt8 :=
  if body.length < 20 then none
  else if s.probe (0x05 :: 0x14 :: body.take 20) = true then some 0x14
  else if 32 ≤ body.length ∧ s.probe (0x05 :: 0x20 :: body.take 32) = true then some 0x20
  else some 0x14

/-- The least or the greatest of the candidates, as the comparison picks it. -/
def pickBound (better : Bytes → Bytes → Bool) (candidates : List Bytes) : Option Bytes :=
  match candidates with
  | [] => none
  | c :: rest => some (rest.foldl (fun best c => if better c best then c else best) c)

def translateBound (better : Bytes → Bytes → Bool) (bound : Option Bytes) : Option Bytes :=
  match bound with
  | none => none
  | some [] => none
  | some b => pickBound better (translateNewToOld b)

/-- The bounds of contract storage have their length byte looked up; an address that is
too short makes the range empty. -/
def translateStorageBounds (body : Bytes) (stop : Option Bytes) : Option Bytes × Option Bytes :=
  match s.getAddressLengthPrefix body with
  | none => (some [0x05, 0xff], some [0x05, 0xff])
  | some len =>
    let oldStart := 0x05 :: len :: body
    match stop with
    | some (0x03 :: bodyEnd) =>
      match s.getAddressLengthPrefix bodyEnd with
      | some len => (some oldStart, some (0x05 :: len :: bodyEnd))
      | none => (some oldStart, some oldStart)
    | _ => (some oldStart, none)

def translateBoundsForIteration (start stop : Option Bytes) : Option Bytes × Option Bytes :=
  if start.getD [] = [] ∧ stop.getD [] = [] then (none, none)
  else
    match start with
    | some (0x03 :: body) => s.translateStorageBounds body stop
    | _ => (translateBound (fun c best => decide (c < best)) start,
        translateBound (fun c best => decide (best < c)) stop)

def iterator (start stop : Option Bytes) : LegacyIterator :=
  let bounds := s.translateBoundsForIteration start stop
  LegacyIterator.advance s.codec start stop (s.parent.iterator bounds.1 bounds.2)

def reverseIterator (start stop : Option Bytes) : LegacyIterator :=
  let bounds := s.translateBoundsForIteration start stop
  LegacyIterator.advance s.codec start stop (s.parent.reverseIterator bounds.1 bounds.2)

end LegacyWasmStore

/-! ## What iterators yield -/

section Yields

variable (codec : ValueCodec) (start stop : Option Bytes)

/-- What becomes of an old entry. -/
def yielded (e : Bytes × Bytes) : Option (Bytes × Bytes) :=
  (mapOldToNew e.1).bind (fun newKey =>
    if rangeOK newKey start stop = true then
      some (newKey, translateLegacyValueForKey codec newKey e.2) else none)

/-- An iterator stands at the first entry it can yield. -/
theorem LegacyIterator.advance_cons (e : Bytes × Bytes) (under : List (Bytes × Bytes)) :
    advance codec start stop (e :: under) =
      match yielded codec start stop e with
      | none => advance codec start stop under
      | some y => ⟨under, start, stop, some y⟩ := by
  rw [advance, yielded]
  cases mapOldToNew e.1 with
  | none => rfl
  | some newKey => cases hr : rangeOK newKey start stop <;> simp [hr]

/-- An iterator that is valid has left an entry behind. -/
theorem LegacyIterator.advance_under (under : List (Bytes × Bytes)) :
    (advance codec start stop under).current = none ∨
      (advance codec start stop under).under.length < under.length := by
  induction under with
  | nil => exact .inl rfl
  | cons e under ih =>
    rw [advance_cons, List.length_cons]
    cases yielded codec start stop e with
    | none =>
      rcases ih with hnone | hlt
      · exact .inl hnone
      · exact .inr (Nat.lt_succ_of_lt hlt)
    | some y => exact .inr (Nat.lt_succ_self _)

theorem LegacyIterator.take_advance (n : Nat) (under : List (Bytes × Bytes))
    (h : (advance codec start stop under).current = none ∨
      (advance codec start stop under).under.length < n) :
    (advance codec start stop under).take codec n = under.filterMap (yielded codec start stop) := by
  induction under generalizing n with
  | nil => cases n <;> rfl
  | cons e under ih =>
    rw [advance_cons] at h ⊢
    rw [List.filterMap_cons]
    cases hy : yielded codec start stop e with
    | none =>
      rw [hy] at h
      exact ih n h
    | some y =>
      rw [hy] at h
      have hlt : under.length < n := h.resolve_left (by simp)
      cases n with
      | zero => omega
      | succ n =>
        show y :: take codec n (next codec ⟨under, start, stop, some y⟩) = _
        rw [next, ih n]
        rcases advance_under codec start stop under with hnone | hless
        · exact .inl hnone
        · exact .inr (by omega)

/-- An iterator yields the entries of the one it wraps, under their new keys, as far as
these are in range. -/
theorem LegacyIterator.all_eq (under : List (Bytes × Bytes)) :
    (advance codec start stop under).all codec = under.filterMap (yielded codec start stop) :=
  take_advance codec start stop _ under (.inr (Nat.lt_succ_self _))

theorem LegacyWasmStore.iterator_all (s : LegacyWasmStore) :
    (s.iterator start stop).all s.codec =
      (s.parent.iterator (s.translateBoundsForIteration start stop).1
        (s.translateBoundsForIteration start stop).2).filterMap (yielded s.codec start stop) :=
  LegacyIterator.all_eq _ _ _ _

/-- Both directions yield the same. -/
theorem LegacyWasmStore.reverseIterator_all (s : LegacyWasmStore) :
    (s.reverseIterator start stop).all s.codec = ((s.iterator start stop).all s.codec).reverse := by
  rw [iterator_all, ← List.filterMap_reverse]
  exact LegacyIterator.all_eq _ _ _ _

end Yields

/-- The key under which iteration shows an entry. -/
def LegacyKey.shown : LegacyKey → Option Bytes
  | contract addr => some (0x02 :: (if addr.1.length = 20 then addr.1 else addr.len :: addr.1))
  | pinned _ => none
  | txCounter _ => none
  | byCreator _ => none
  | lk => some lk.newKey

theorem mapOldToNew_encode (lk : LegacyKey) : mapOldToNew lk.encode = lk.shown := by
  cases lk with
  | contract a =>
    rcases a.len_cases with ⟨hlength, hlen⟩ | ⟨hlength, hlen⟩
    · simp [mapOldToNew, LegacyKey.encode, LegacyKey.shown, oldToNewSimple, stripLegacyLenPrefix, hlength, hlen]
    · simp [mapOldToNew, LegacyKey.encode, LegacyKey.shown, oldToNewSimple, stripLegacyLenPrefix, hlength, hlen]
  | storage a k =>
    have hfits : (a.len = 20 ∨ a.len = 32) ∧ 1 + a.len.toNat ≤ (a.len :: (a.1 ++ k)).length := by
      rw [a.len_toNat, List.length_cons, List.length_append]
      refine ⟨?_, by omega⟩
      rcases a.len_cases with ⟨_, hlen⟩ | ⟨_, hlen⟩
      · exact .inl hlen
      · exact .inr hlen
    have hbody : rebuildContractStoreBody (a.len :: (a.1 ++ k)) = a.1 ++ k := if_pos hfits
    simp [mapOldToNew, LegacyKey.encode, LegacyKey.shown, LegacyKey.newKey, oldToNewSimple, hbody]
  | _ => simp [mapOldToNew, LegacyKey.encode, LegacyKey.shown, LegacyKey.newKey, oldToNewSimple]

section Shown

variable {codec : ValueCodec} {S : KVStore} {start stop : Option Bytes}

/-- An entry that is between the translated bounds and shown in the range, and its key there. -/
def Shows (codec : ValueCodec) (S : KVStore) (start stop : Option Bytes) (lk : LegacyKey) (key : Bytes) : Prop :=
  inDomain (LegacyWasmStore.translateBoundsForIteration ⟨codec, S⟩ start stop).1
    (LegacyWasmStore.translateBoundsForIteration ⟨codec, S⟩ start stop).2 lk.encode = true ∧
    lk.shown = some key ∧ inDomain start stop key = true

theorem yielded_encode {lk : LegacyKey} {w : Bytes} {y : Bytes × Bytes} :
    yielded codec start stop (lk.encode, w) = some y ↔
      lk.shown = some y.1 ∧ inDomain start stop y.1 = true ∧ y.2 = translateLegacyValueForKey codec y.1 w := by
  rw [yielded, mapOldToNew_encode, Option.bind_eq_some_iff]
  refine ⟨?_, ?_⟩
  · intro h
    obtain ⟨key, hshown, hrange⟩ := h
    obtain ⟨hin, heq⟩ := Option.ite_none_right_eq_some.mp hrange
    obtain rfl := Option.some.inj heq
    exact ⟨hshown, hin, rfl⟩
  · intro h
    obtain ⟨hshown, hin, hv⟩ := h
    exact ⟨y.1, hshown, Option.ite_none_right_eq_some.mpr ⟨hin, by rw [← hv]⟩⟩

/-- What iteration yields of a well-formed store. -/
theorem WellFormed.mem_iterator (hwf : WellFormed S) {key v : Bytes} :
    (key, v) ∈ (LegacyWasmStore.iterator ⟨codec, S⟩ start stop).all codec ↔
      ∃ (lk : LegacyKey) (w : Bytes), S.get lk.encode = some w ∧ Shows codec S start stop lk key ∧
        v = translateLegacyValueForKey codec key w := by
  rw [LegacyWasmStore.iterator_all start stop ⟨codec, S⟩, List.mem_filterMap]
  refine ⟨?_, ?_⟩
  · intro h
    obtain ⟨⟨old, w⟩, hmem, hy⟩ := h
    obtain ⟨hget, hdom⟩ := KVStore.mem_iterator.mp hmem
    obtain ⟨lk, rfl⟩ := hwf.keys old (by rw [hget]; rfl)
    obtain ⟨hshown, hin, hv⟩ := yielded_encode.mp hy
    exact ⟨lk, w, hget, ⟨hdom, hshown, hin⟩, hv⟩
  · intro h
    obtain ⟨lk, w, hget, ⟨hdom, hshown, hin⟩, hv⟩ := h
    exact ⟨(lk.encode, w), KVStore.mem_iterator.mpr ⟨hget, hdom⟩, yielded_encode.mpr ⟨hshown, hin, hv⟩⟩

/-- Iteration is in order if the entries are shown in their order. -/
theorem WellFormed.iterator_pairwise_iff (hwf : WellFormed S) :
    ((LegacyWasmStore.iterator ⟨codec, S⟩ start stop).all codec).Pairwise (fun a b => a.1 < b.1) ↔
      ∀ (lk lk' : LegacyKey) (key key' : Bytes), Present S lk → Present S lk' → lk.encode < lk'.encode →
        Shows codec S start stop lk key → Shows codec S start stop lk' key' → key < key' := by
  rw [LegacyWasmStore.iterator_all start stop ⟨codec, S⟩, List.pairwise_filterMap,
    ListOrder.pairwise_iff_of_sorted (KVStore.iterator_sorted _ _ _)]
  refine ⟨?_, ?_⟩
  · intro h lk lk' key key' hlk hlk' hlt hshows hshows'
    obtain ⟨w, hw⟩ := Option.isSome_iff_exists.mp hlk
    obtain ⟨w', hw'⟩ := Option.isSome_iff_exists.mp hlk'
    have hy : yielded codec start stop (lk.encode, w) = some (key, translateLegacyValueForKey codec key w) :=
      yielded_encode.mpr ⟨hshows.2.1, hshows.2.2, rfl⟩
    have hy' : yielded codec start stop (lk'.encode, w') = some (key', translateLegacyValueForKey codec key' w') :=
      yielded_encode.mpr ⟨hshows'.2.1, hshows'.2.2, rfl⟩
    exact h (lk.encode, w) (KVStore.mem_iterator.mpr ⟨hw, hshows.1⟩) (lk'.encode, w')
      (KVStore.mem_iterator.mpr ⟨hw', hshows'.1⟩) hlt _ hy _ hy'
  · intro h e hold e' hold' hlt y hy y' hy'
    obtain ⟨old, w⟩ := e
    obtain ⟨old', w'⟩ := e'
    obtain ⟨hget, hdom⟩ := KVStore.mem_iterator.mp hold
    obtain ⟨hget', hdom'⟩ := KVStore.mem_iterator.mp hold'
    obtain ⟨lk, rfl⟩ := hwf.keys old (by rw [hget]; rfl)
    obtain ⟨lk', rfl⟩ := hwf.keys old' (by rw [hget']; rfl)
    obtain ⟨hshown, hin, _⟩ := yielded_encode.mp hy
    obtain ⟨hshown', hin', _⟩ := yielded_encode.mp hy'
    exact h lk lk' _ _ (present_of_get hget) (present_of_get hget') hlt ⟨hdom, hshown, hin⟩
      ⟨hdom', hshown', hin'⟩

end Shown

/-! ## Point reads -/

section Reads

variable (s : LegacyWasmStore)

theorem LegacyWasmStore.get_of_single {key old : Bytes} (h : translateNewToOld key = [old]) :
    s.get key = (s.parent.get old).map (translateLegacyValueForKey s.codec key) := by
  rw [get, h, List.findSome?_singleton]

/-- Keys without an address have one candidate. -/
theorem translateNewToOld_newKey {lk : LegacyKey} (haddr : lk.addr? = none) :
    translateNewToOld lk.newKey = [lk.encode] := by
  have hsequences : lastContractIDKey ≠ lastCodeIDKey := by decide +kernel
  cases lk <;> simp [LegacyKey.addr?] at haddr <;>
    simp [translateNewToOld, LegacyKey.newKey, LegacyKey.encode, newToOldSimple, hsequences]

theorem translateNewToOld_variants {first old : UInt8} (hfirst : first = 0x02 ∨ first = 0x03)
    (hold : newToOldSimple first = some old) (x : Bytes) :
    translateNewToOld (first :: x) = buildLenVariants old x := by
  rw [translateNewToOld]
  rcases hfirst with rfl | rfl <;> simp [hold]

/-- Keys with an address are tried as they are and with each length byte. -/
theorem LegacyWasmStore.get_variants {first old : UInt8} (hfirst : first = 0x02 ∨ first = 0x03)
    (hold : newToOldSimple first = some old) (x : Bytes) :
    s.get (first :: x) = ((s.parent.get (old :: x)).or
      ((if 20 ≤ x.length then s.parent.get (old :: 20 :: x) else none).or
        (if 32 ≤ x.length then s.parent.get (old :: 32 :: x) else none))).map
      (translateLegacyValueForKey s.codec (first :: x)) := by
  rw [get, translateNewToOld_variants hfirst hold, buildLenVariants, List.take_append_drop, List.take_append_drop, List.findSome?_append,
    List.findSome?_append, List.findSome?_singleton, Option.or_assoc]
  cases s.parent.get (old :: x) with
  | some v => rfl
  | none =>
    rw [Option.map_none, Option.none_or, Option.none_or]
    split_ifs with h20 h32 h32
    · rw [List.findSome?_singleton, List.findSome?_singleton]
      cases s.parent.get (old :: 20 :: x) <;> rfl
    · rw [List.findSome?_singleton]
      cases s.parent.get (old :: 20 :: x) <;> rfl
    · omega
    · rfl

end Reads

/-! ## Point reads and the migration -/

section Migrated

variable (verifier : AddressVerifier) {S : KVStore}

theorem migrated_get (hwf : WellFormed S) {lk : LegacyKey} (hlk : ∀ a k, lk ≠ .storage a k) :
    (migrateWasmKeys verifier S).get lk.newKey = sequenced S lk := by
  apply Option.ext
  intro v
  rw [holds_migrateWasmKeys verifier hwf lk.newKey v]
  refine ⟨?_, fun h => ⟨lk, h, rfl⟩⟩
  intro h
  obtain ⟨lk', hlk', heq⟩ := h
  rcases LegacyKey.eq_of_newKey heq with rfl | ⟨_, _, b, l, _, hstorage, _⟩
  · exact hlk'
  · exact absurd hstorage (hlk b l)

/-- A storage key is found in the migrated store if it was there with a length byte. -/
theorem migrated_storage (hwf : WellFormed S) {x v : Bytes} :
    (migrateWasmKeys verifier S).get (0x03 :: x) = some v ↔
      S.get (0x05 :: 20 :: x) = some v ∨ S.get (0x05 :: 32 :: x) = some v := by
  rw [holds_migrateWasmKeys verifier hwf (0x03 :: x) v]
  refine ⟨?_, ?_⟩
  · intro h
    obtain ⟨lk, hlk, hkey⟩ := h
    cases lk <;> simp [LegacyKey.newKey] at hkey
    rename_i a k
    subst hkey
    rcases a.len_cases with ⟨_, hlen⟩ | ⟨_, hlen⟩
    · exact .inl (hlen ▸ hlk)
    · exact .inr (hlen ▸ hlk)
  · -- a length byte is followed by an address
    have hback : ∀ len, S.get (0x05 :: len :: x) = some v →
        ∃ lk, sequenced S lk = some v ∧ lk.newKey = 0x03 :: x := by
      intro len hget
      obtain ⟨a, k, hx, _⟩ := hwf.storage_of_get hget
      obtain ⟨rfl, rfl⟩ := List.cons.inj hx
      exact ⟨.storage a k, hget, rfl⟩
    intro h
    rcases h with hget | hget
    · exact hback 20 hget
    · exact hback 32 hget

/-- No entry stands where a storage key leads without its length byte, or the entry of the
key itself has the same value. -/
def Unshadowed (S : KVStore) : LegacyKey → Prop
  | .storage a k => ∀ v, S.get (0x05 :: (a.1 ++ k)) = some v →
      S.get (0x05 :: 20 :: (a.1 ++ k)) = some v ∨ S.get (0x05 :: 32 :: (a.1 ++ k)) = some v
  | _ => True

/-- A storage key of one contract is read with one length byte. -/
theorem storage_variants (hwf : WellFormed S) {x : Bytes} (hx : 20 ≤ x.length) :
    (if 20 ≤ x.length then S.get (0x05 :: 20 :: x) else none).or
      (if 32 ≤ x.length then S.get (0x05 :: 32 :: x) else none) =
      (migrateWasmKeys verifier S).get (0x03 :: x) := by
  have hlong : (if 32 ≤ x.length then S.get (0x05 :: 32 :: x) else none) = S.get (0x05 :: 32 :: x) := by
    split_ifs with h32
    · rfl
    · -- too short for an address of 32 bytes
      cases hget : S.get (0x05 :: 32 :: x) with
      | none => rfl
      | some v =>
        obtain ⟨a, k, hkey, _⟩ := hwf.storage_of_get hget
        obtain ⟨hlen, rfl⟩ := List.cons.inj hkey
        have hlength := a.len_toNat
        rw [← hlen, List.length_append] at *
        have h32' : (32 : UInt8).toNat = 32 := rfl
        omega
  rw [if_pos hx, hlong]
  apply Option.ext
  intro v
  rw [migrated_storage verifier hwf]
  cases h20 : S.get (0x05 :: 20 :: x) with
  | none => simp
  | some w =>
    refine ⟨fun h => .inl h, ?_⟩
    intro h
    rcases h with h | h
    · exact h
    · -- one key of two contracts
      obtain ⟨a, k, ha, hpa⟩ := hwf.storage_of_get h20
      obtain ⟨b, l, hb, hpb⟩ := hwf.storage_of_get h
      obtain ⟨hlena, hxa⟩ := List.cons.inj ha
      obtain ⟨hlenb, hxb⟩ := List.cons.inj hb
      obtain ⟨rfl, _⟩ := hwf.storage_unique (hasAddr_storage hpa) (hasAddr_storage hpb) (hxa.symm.trans hxb)
      exact absurd (hlena.trans hlenb.symm) (by decide)

/-- A contract is read with the length byte of its address. -/
theorem contract_variants (hwf : WellFormed S) (a : ContractAddr) :
    (S.get (0x04 :: a.1)).or
      ((if 20 ≤ a.1.length then S.get (0x04 :: 20 :: a.1) else none).or
        (if 32 ≤ a.1.length then S.get (0x04 :: 32 :: a.1) else none)) =
      S.get (LegacyKey.contract a).encode := by
  -- bytes of another length than the address before them says are no key
  have hnone : ∀ len, len ≠ a.len → S.get (0x04 :: len :: a.1) = none := by
    intro len hne
    cases hget : S.get (0x04 :: len :: a.1) with
    | none => rfl
    | some v =>
      obtain ⟨b, hb⟩ := hwf.contract_of_get hget
      obtain ⟨hlen, heq⟩ := List.cons.inj hb
      exact absurd (hlen.trans (congrArg ContractAddr.len (Subtype.ext heq)).symm) hne
  have hraw : S.get (0x04 :: a.1) = none := by
    cases hget : S.get (0x04 :: a.1) with
    | none => rfl
    | some v =>
      obtain ⟨b, hb⟩ := hwf.contract_of_get hget
      have hlength := congrArg List.length hb
      rw [List.length_cons] at hlength
      have ha := a.2
      have hb := b.2
      omega
  rw [hraw, Option.none_or, LegacyKey.encode]
  rcases a.len_cases with ⟨hlength, hlen⟩ | ⟨hlength, hlen⟩
  · rw [hlength, hlen, if_pos (by omega), if_neg (by omega), Option.or_none]
  · rw [hlength, hlen, if_pos (by omega), if_pos (by omega), hnone 20 (by rw [hlen]; decide), Option.none_or]

end Migrated

/-- A read of a historical height is one of the migrated store, but for a storage key
whose bytes without the length byte are another entry's key. -/
theorem get_eq_migrated_iff (verifier : AddressVerifier) (codec : ValueCodec) {S : KVStore}
    (hwf : WellFormed S) (hcode : Present S .codeSequence) (hinstance : Present S .instanceSequence)
    (lk : LegacyKey) :
    LegacyWasmStore.get ⟨codec, S⟩ lk.newKey =
      ((migrateWasmKeys verifier S).get lk.newKey).map (translateLegacyValueForKey codec lk.newKey) ↔
      Unshadowed S lk := by
  have hpresent : ∀ lk, Present S lk → sequenced S lk = S.get lk.encode := by
    intro lk hlk
    obtain ⟨v, hv⟩ := Option.isSome_iff_exists.mp hlk
    rw [hv, sequenced_eq_some]
    exact .inl hv
  by_cases haddr : lk.addr? = none
  · -- one candidate, and one entry
    have hlk : ∀ a k, lk ≠ .storage a k := by
      intro a k heq
      rw [heq] at haddr
      cases haddr
    have hsame : sequenced S lk = S.get lk.encode := by
      cases lk with
      | codeSequence => exact hpresent _ hcode
      | instanceSequence => exact hpresent _ hinstance
      | _ => rfl
    rw [LegacyWasmStore.get_of_single _ (translateNewToOld_newKey haddr), migrated_get verifier hwf hlk, hsame]
    cases lk <;> first | exact iff_of_true rfl trivial | cases haddr
  · cases lk <;> first | exact absurd rfl haddr | skip
    case contract a =>
      rw [migrated_get verifier hwf (by intro _ _ h; cases h)]
      show LegacyWasmStore.get ⟨codec, S⟩ (0x02 :: a.1) = _ ↔ _
      rw [LegacyWasmStore.get_variants _ (.inl rfl) rfl]
      rw [contract_variants hwf]
      exact iff_of_true rfl trivial
    case storage a k =>
      have hx : 20 ≤ (a.1 ++ k).length := by
        rw [List.length_append]
        have ha := a.2
        omega
      have hid : translateLegacyValueForKey codec (0x03 :: (a.1 ++ k)) = id := by
        funext v
        rfl
      show LegacyWasmStore.get ⟨codec, S⟩ (0x03 :: (a.1 ++ k)) =
        ((migrateWasmKeys verifier S).get (0x03 :: (a.1 ++ k))).map
          (translateLegacyValueForKey codec (0x03 :: (a.1 ++ k))) ↔ _
      rw [LegacyWasmStore.get_variants _ (.inr rfl) rfl, storage_variants verifier hwf hx, hid, Option.map_id_apply,
        Option.map_id_apply]
      -- the entry without the length byte is found first
      simp only [Unshadowed, ← migrated_storage verifier hwf]
      show (S.get (0x05 :: (a.1 ++ k))).or _ = _ ↔ _
      cases S.get (0x05 :: (a.1 ++ k)) with
      | none => simp
      | some w => simp [eq_comm]

namespace Sample

/-- A codec that reads no values. -/
def noCodec : ValueCodec := ⟨fun _ => none, fun _ => none, fun _ => none, fun _ => none⟩

/-- An address of bytes that are its length. -/
def repeatedAddr : ContractAddr := ⟨List.replicate 20 20, .inl rfl⟩

def repeatedEntries : List (LegacyKey × Bytes) :=
  [(.codeSequence, [0, 0, 0, 0, 0, 0, 0, 2]), (.instanceSequence, [0, 0, 0, 0, 0, 0, 0, 2]),
    (.contract repeatedAddr, [1]), (.storage repeatedAddr [1], [5])]

theorem repeatedEntries_wellFormed : WellFormed (storeOf repeatedEntries) :=
  wellFormed_storeOf (by decide +kernel)

/-- One contract with one entry. Its key with a length byte before it is spelled like
another key of the contract, which the migrated store does not have. -/
theorem repeated_length_byte :
    WellFormed (storeOf repeatedEntries) ∧
    (∀ a, HasAddr (storeOf repeatedEntries) a → a = repeatedAddr) ∧
    Present (storeOf repeatedEntries) .codeSequence ∧ Present (storeOf repeatedEntries) .instanceSequence ∧
    LegacyWasmStore.get ⟨noCodec, storeOf repeatedEntries⟩ (LegacyKey.storage repeatedAddr [20, 1]).newKey
      = some [5] ∧
    (migrateWasmKeys lengthVerifier (storeOf repeatedEntries)).get
      (LegacyKey.storage repeatedAddr [20, 1]).newKey = none := by
  refine ⟨repeatedEntries_wellFormed, ?_, by decide +kernel, by decide +kernel, by decide +kernel,
    by decide +kernel⟩
  intro a ha
  obtain ⟨lk, hlk, haddr⟩ := ha
  obtain ⟨e, he, heq⟩ := mem_of_storeOf hlk
  rw [← LegacyKey.encode_injective heq] at haddr
  have hall : ∀ e ∈ repeatedEntries, ∀ b ∈ e.1.addr?, b = repeatedAddr := by decide +kernel
  exact hall e he a haddr

/-- The entry itself is read as it is after the migration. -/
theorem entry_read_alike :
    LegacyWasmStore.get ⟨noCodec, storeOf repeatedEntries⟩ (LegacyKey.storage repeatedAddr [1]).newKey =
      ((migrateWasmKeys lengthVerifier (storeOf repeatedEntries)).get
        (LegacyKey.storage repeatedAddr [1]).newKey).map
        (translateLegacyValueForKey noCodec (LegacyKey.storage repeatedAddr [1]).newKey) := by
  refine (get_eq_migrated_iff lengthVerifier noCodec repeatedEntries_wellFormed (by decide +kernel)
    (by decide +kernel) _).mpr ?_
  intro v hget
  have hnone : (storeOf repeatedEntries).get (0x05 :: (repeatedAddr.1 ++ [1])) = none := by decide +kernel
  rw [hnone] at hget
  cases hget

end Sample

end Wasm
