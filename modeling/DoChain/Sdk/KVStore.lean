import DoChain.Lib.ListOrder
import DoChain.Lib.SortedMap
import DoChain.Sdk.Types

/- The key-value stores of the SDK, as far as they are read and written.

   Correspondence (Go ↔ Lean):
     `KVStore.Get`, `Set`, `Delete`        ↔ `SortedMap.get`, `set`, `erase`
     `KVStore.Iterator`, `ReverseIterator` ↔ `iterator`, `reverseIterator`
     `PrefixEndBytes`                      ↔ `prefixEndBytes`
     the end bound of a prefix store       ↔ `prefixEnd`

   A bound that is nil is `none`. An iterator is the list of the entries it yields; it is
   not affected by writes outside of its domain nor by deletes behind its position, so a
   loop that moves entries away ranges over the entries it began with. -/

namespace Sdk

abbrev KVStore := SortedMap Bytes Bytes

/-- The end of the keys with a prefix: the last byte that can be is incremented. -/
def prefixEndBytes : Bytes → Option Bytes
  | [] => none
  | b :: rest =>
    match prefixEndBytes rest with
    | some rest => some (b :: rest)
    | none => if b = 255 then none else some [b + 1]

/-- The end of a range of the keys behind a prefix. -/
def prefixEnd (p : Bytes) : Option Bytes → Option Bytes
  | none => prefixEndBytes p
  | some e => some (p ++ e)

def inDomain (start stop : Option Bytes) (k : Bytes) : Bool :=
  start.all (fun s => decide (s ≤ k)) && stop.all (fun e => decide (k < e))

namespace KVStore

def iterator (store : KVStore) (start stop : Option Bytes) : List (Bytes × Bytes) :=
  store.entries.filter (fun e => inDomain start stop e.1)

def reverseIterator (store : KVStore) (start stop : Option Bytes) : List (Bytes × Bytes) :=
  (store.iterator start stop).reverse

theorem mem_iterator {store : KVStore} {start stop : Option Bytes} {e : Bytes × Bytes} :
    e ∈ store.iterator start stop ↔ store.get e.1 = some e.2 ∧ inDomain start stop e.1 = true := by
  rw [SortedMap.get_eq_some]
  exact List.mem_filter

theorem iterator_sorted (store : KVStore) (start stop : Option Bytes) :
    (store.iterator start stop).Pairwise (fun a b => a.1 < b.1) :=
  store.sorted.filter _

end KVStore

theorem inDomain_iff {start stop : Option Bytes} {k : Bytes} :
    inDomain start stop k = true ↔ (∀ s, start = some s → s ≤ k) ∧ ∀ e, stop = some e → k < e := by
  cases start <;> cases stop <;> simp [inDomain]

theorem byte_lt_succ_iff {b c : UInt8} (hb : b ≠ 255) : c < b + 1 ↔ c ≤ b := by
  have hne : b.toNat ≠ 255 := fun h => hb (UInt8.toNat_inj.mp h)
  have hlt := b.toNat_lt
  rw [UInt8.lt_iff_toNat_lt, UInt8.le_iff_toNat_le, UInt8.toNat_add]
  have hsum : (b.toNat + (1 : UInt8).toNat) % 2 ^ 8 = b.toNat + 1 := Nat.mod_eq_of_lt (by
    show b.toNat + 1 < 2 ^ 8
    omega)
  rw [hsum]
  omega

theorem byte_le_max (c : UInt8) : c ≤ 255 := by
  rw [UInt8.le_iff_toNat_le]
  have hlt := c.toNat_lt
  show c.toNat ≤ 255
  omega

/-- The keys from a prefix to its end are those that have it. -/
theorem lt_prefixEndBytes_iff {p k : Bytes} (hle : p ≤ k) :
    (∀ e, prefixEndBytes p = some e → k < e) ↔ p <+: k := by
  induction p generalizing k with
  | nil => simp [prefixEndBytes]
  | cons b p ih =>
    cases k with
    | nil => exact absurd hle ListOrder.not_cons_le_nil
    | cons c k =>
      rw [ListOrder.cons_le_cons_iff] at hle
      rw [List.cons_prefix_cons, prefixEndBytes]
      cases hend : prefixEndBytes p with
      | some e =>
        -- the end keeps the first byte
        rw [hend] at ih
        have hiff : (∀ e', some (b :: e) = some e' → c :: k < e') ↔ c < b ∨ c = b ∧ k < e := by
          rw [← List.cons_lt_cons_iff]
          exact ⟨fun h => h _ rfl, fun h e' he' => Option.some.inj he' ▸ h⟩
        rw [hiff]
        rcases hle with hlt | ⟨rfl, hle⟩
        · simp [hlt.not_gt, hlt.ne, hlt.ne']
        · rw [← ih hle]
          simp
      | none =>
        rw [hend] at ih
        by_cases hmax : b = 255
        · -- there is no end: the prefix is of largest bytes
          have hbc : b = c := by
            rcases hle with hlt | ⟨heq, _⟩
            · exact absurd hlt (not_lt.mpr (hmax ▸ byte_le_max c))
            · exact heq
          have hrest : p ≤ k := by
            rcases hle with hlt | ⟨_, hle⟩
            · exact absurd hbc hlt.ne
            · exact hle
          have hpre := (ih hrest).mp (by simp)
          simp [hmax, ← hbc, hpre]
        · have hiff : (∀ e', some [b + 1] = some e' → c :: k < e') ↔ c ≤ b := by
            rw [← byte_lt_succ_iff hmax]
            have hcons : c :: k < [b + 1] ↔ c < b + 1 := by
              rw [List.cons_lt_cons_iff]
              simp
            rw [← hcons]
            exact ⟨fun h => h _ rfl, fun h e' he' => Option.some.inj he' ▸ h⟩
          rw [if_neg hmax, hiff]
          rcases hle with hlt | ⟨rfl, hle⟩
          · simp [hlt.not_ge, hlt.ne]
          · have hpre := (ih hle).mp (by simp)
            simp [hpre]

/-- The domain of a prefix. -/
theorem inDomain_prefixEndBytes {p k : Bytes} :
    inDomain (some p) (prefixEndBytes p) k = true ↔ p <+: k := by
  rw [inDomain_iff]
  refine ⟨?_, ?_⟩
  · intro h
    exact (lt_prefixEndBytes_iff (h.1 p rfl)).mp h.2
  · intro h
    have hle : p ≤ k := by
      obtain ⟨rest, rfl⟩ := h
      exact ListOrder.le_append
    exact ⟨fun s hs => Option.some.inj hs ▸ hle, (lt_prefixEndBytes_iff hle).mpr h⟩

theorem inDomain_some_iff {start k : Bytes} {stop : Option Bytes} :
    inDomain (some start) stop k = true ↔ start ≤ k ∧ ∀ e, stop = some e → k < e := by
  rw [inDomain_iff]
  simp

/-- A range of the keys behind a prefix is one of the keys. -/
theorem inDomain_append_iff {p s k : Bytes} {e : Option Bytes} :
    inDomain (some (p ++ s)) (prefixEnd p e) (p ++ k) = true ↔ inDomain (some s) e k = true := by
  rw [inDomain_some_iff, inDomain_some_iff, ListOrder.append_le_append_iff]
  refine and_congr_right (fun _ => ?_)
  cases e with
  | none =>
    show (∀ e, prefixEndBytes p = some e → p ++ k < e) ↔ _
    rw [lt_prefixEndBytes_iff ListOrder.le_append]
    simp
  | some e => simp [prefixEnd, ListOrder.append_lt_append_iff]

theorem inDomain_prefixEnd {p s x : Bytes} {e : Option Bytes} :
    inDomain (some (p ++ s)) (prefixEnd p e) x = true ↔ ∃ k, x = p ++ k ∧ inDomain (some s) e k = true := by
  refine ⟨?_, ?_⟩
  · intro h
    obtain ⟨hlow, hhigh⟩ := inDomain_some_iff.mp h
    have hpre : p <+: x := by
      cases e with
      | none => exact (lt_prefixEndBytes_iff (le_trans ListOrder.le_append hlow)).mp hhigh
      | some e => exact ListOrder.isPrefix_of_between hlow (hhigh _ rfl)
    obtain ⟨k, rfl⟩ := hpre
    exact ⟨k, rfl, inDomain_append_iff.mp h⟩
  · intro h
    obtain ⟨k, rfl, hk⟩ := h
    exact inDomain_append_iff.mpr hk

/-- The end of a prefix is made of its first bytes, of which the last is incremented. -/
theorem prefixEndBytes_take {p r : Bytes} (h : prefixEndBytes p = some r) :
    r.length ≤ p.length ∧ ∀ n, n < r.length → r.take n = p.take n := by
  induction p generalizing r with
  | nil => cases h
  | cons b p ih =>
    rw [prefixEndBytes] at h
    cases hend : prefixEndBytes p with
    | some e =>
      rw [hend] at h
      obtain rfl := Option.some.inj h
      obtain ⟨hlength, htake⟩ := ih hend
      refine ⟨Nat.succ_le_succ hlength, ?_⟩
      intro n hn
      cases n with
      | zero => rfl
      | succ n => rw [List.take_succ_cons, List.take_succ_cons, htake n (Nat.lt_of_succ_lt_succ hn)]
    | none =>
      rw [hend] at h
      by_cases hmax : b = 255
      · simp [hmax] at h
      · simp only [hmax, if_false, Option.some.injEq] at h
        subst h
        refine ⟨by simp, ?_⟩
        intro n hn
        have hzero : n = 0 := by simpa using hn
        rw [hzero]
        rfl

theorem prefixEndBytes_eq_none {p : Bytes} : prefixEndBytes p = none ↔ ∀ b ∈ p, b = 255 := by
  induction p with
  | nil => simp [prefixEndBytes]
  | cons b p ih =>
    rw [prefixEndBytes, List.forall_mem_cons, ← ih]
    cases prefixEndBytes p with
    | some e => simp
    | none => simp

end Sdk
