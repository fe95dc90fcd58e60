import DoChain.Wasm.LegacyStore

/- Iteration over a family of keys at a historical height, against point reads
   (`legacyWasmStore.Iterator` and `Get` under `0x01`, `0x02`, `0x05`, `0x06`, `0x07`, `0x09`).

   Point reads go from new keys to old ones, iteration from old keys to new ones, between
   translated bounds. `Agrees` says that both tell the same of a range `[s, e)` of a
   family; without an end it ends at the next first byte.

   The families other than contracts have one old key for a new one (`Plain`). They agree
   up to entries that iteration does not show and to an end that is translated to a byte
   below the family. Contracts are read with and without a length byte, and shown with it if
   the address has 32 bytes: `ContractsApart`. -/

namespace Wasm

open Sdk

/-- The families of keys outside of contract storage. -/
inductive Family where
  | code
  | contract
  | history
  | codeIndex
  | pinned
  | byCreator
  deriving DecidableEq

def Family.first : Family → UInt8
  | code => 0x01
  | contract => 0x02
  | history => 0x05
  | codeIndex => 0x06
  | pinned => 0x07
  | byCreator => 0x09

/-- The keys of a range that a point read finds, in order, with what is read. -/
def Agrees (store : LegacyWasmStore) (first : UInt8) (s : Bytes) (e : Option Bytes)
    (l : List (Bytes × Bytes)) : Prop :=
  l.Pairwise (fun x y => x.1 < y.1) ∧
    ∀ key v, (key, v) ∈ l ↔
      (∃ x, key = first :: x ∧ inDomain (some s) e x = true) ∧ store.get key = some v

/-! ## Families with one old key for a new one -/

structure Plain (first old : UInt8) (lk : Bytes → LegacyKey) : Prop where
  encode : ∀ x, (lk x).encode = old :: x
  newKey : ∀ x, (lk x).newKey = first :: x
  addr : ∀ x, (lk x).addr? = none
  shown : ∀ other x, LegacyKey.shown other = some (first :: x) → other = lk x

namespace Plain

variable {codec : ValueCodec} {S : KVStore} {first old : UInt8} {lk : Bytes → LegacyKey}
variable {s x : Bytes} {e : Option Bytes}

theorem candidates (hp : Plain first old lk) (x : Bytes) : translateNewToOld (first :: x) = [old :: x] := by
  rw [← hp.newKey, ← hp.encode]
  exact translateNewToOld_newKey (hp.addr x)

theorem get (hp : Plain first old lk) (x : Bytes) :
    LegacyWasmStore.get ⟨codec, S⟩ (first :: x) =
      (S.get (lk x).encode).map (translateLegacyValueForKey codec (first :: x)) := by
  rw [LegacyWasmStore.get_of_single _ (hp.candidates x), hp.encode]

/-- Iteration agrees with point reads if all entries of the range are shown. -/
theorem agrees_iff (hp : Plain first old lk) (hwf : WellFormed S) :
    Agrees ⟨codec, S⟩ first s e
        ((LegacyWasmStore.iterator ⟨codec, S⟩ (some (first :: s)) (prefixEnd [first] e)).all codec) ↔
      ∀ x, Present S (lk x) → inDomain (some s) e x = true →
        Shows codec S (some (first :: s)) (prefixEnd [first] e) (lk x) (first :: x) := by
  -- what is shown in the range is of the family
  have hfamily : ∀ other key, Shows codec S (some (first :: s)) (prefixEnd [first] e) other key →
      ∃ x, other = lk x ∧ key = first :: x ∧ inDomain (some s) e x = true := by
    intro other key h
    obtain ⟨_, hshown, hin⟩ := h
    obtain ⟨x, rfl, hx⟩ := (inDomain_prefixEnd (p := [first])).mp hin
    exact ⟨x, hp.shown other x hshown, rfl, hx⟩
  refine ⟨?_, ?_⟩
  · intro h x hx hin
    obtain ⟨w, hw⟩ := Option.isSome_iff_exists.mp hx
    have hget : LegacyWasmStore.get ⟨codec, S⟩ (first :: x) =
        some (translateLegacyValueForKey codec (first :: x) w) := by rw [hp.get, hw, Option.map_some]
    obtain ⟨other, _, _, hshows, _⟩ := hwf.mem_iterator.mp ((h.2 _ _).mpr ⟨⟨x, rfl, hin⟩, hget⟩)
    exact hp.shown other x hshows.2.1 ▸ hshows
  · intro h
    refine ⟨hwf.iterator_pairwise_iff.mpr ?_, ?_⟩
    · intro other other' key key' _ _ hlt hshows hshows'
      obtain ⟨x, rfl, rfl, _⟩ := hfamily other key hshows
      obtain ⟨x', rfl, rfl, _⟩ := hfamily other' key' hshows'
      rw [hp.encode, hp.encode] at hlt
      have hbodies : x < x' := (ListOrder.append_lt_append_iff (p := [old])).mp hlt
      exact (ListOrder.append_lt_append_iff (p := [first])).mpr hbodies
    · intro key v
      rw [hwf.mem_iterator]
      refine ⟨?_, ?_⟩
      · intro hmem
        obtain ⟨other, w, hget, hshows, rfl⟩ := hmem
        obtain ⟨x, rfl, rfl, hin⟩ := hfamily other key hshows
        exact ⟨⟨x, rfl, hin⟩, by rw [hp.get, hget, Option.map_some]⟩
      · intro hmem
        obtain ⟨⟨x, rfl, hin⟩, hget⟩ := hmem
        rw [hp.get] at hget
        obtain ⟨w, hw, rfl⟩ := Option.map_eq_some_iff.mp hget
        exact ⟨lk x, w, hw, h x (present_of_get hw) hin, rfl⟩

theorem bounds (hp : Plain first old lk) (hfirst : first ≠ 0x03) (s : Bytes) (stop : Option Bytes) :
    LegacyWasmStore.translateBoundsForIteration ⟨codec, S⟩ (some (first :: s)) stop =
      (some (old :: s), LegacyWasmStore.translateBound (fun c best => decide (best < c)) stop) := by
  rw [LegacyWasmStore.translateBoundsForIteration, if_neg (by simp)]
  · show (LegacyWasmStore.pickBound _ (translateNewToOld (first :: s)), _) = _
    rw [hp.candidates]
    rfl
  · intro body heq
    exact hfirst (List.cons.inj (Option.some.inj heq)).1

/-- An entry of the range is shown if iteration shows the family, and the byte that the end
of the family is translated to comes after it. -/
theorem shows_iff (hp : Plain first old lk) (hfirst : first ≠ 0x03) {next : UInt8}
    (hnext : LegacyWasmStore.translateBound (fun c best => decide (best < c)) (prefixEnd [first] none) =
      some [next]) (hin : inDomain (some s) e x = true) :
    Shows codec S (some (first :: s)) (prefixEnd [first] e) (lk x) (first :: x) ↔
      (lk x).shown = some (first :: x) ∧ (e ≠ none ∨ old < next) := by
  have hrange : inDomain (some (first :: s)) (prefixEnd [first] e) (first :: x) = true :=
    (inDomain_append_iff (p := [first])).mpr hin
  have hold : inDomain (some (old :: s)) (prefixEnd [old] e) (old :: x) = true :=
    (inDomain_append_iff (p := [old])).mpr hin
  rw [Shows, hp.bounds hfirst, hp.encode]
  simp only [hrange, and_true]
  rw [and_comm]
  refine and_congr_right (fun _ => ?_)
  cases e with
  | some e =>
    refine iff_of_true ?_ (.inl (by simp))
    show inDomain _ (LegacyWasmStore.pickBound _ (translateNewToOld (first :: e))) _ = true
    rw [hp.candidates]
    exact hold
  | none =>
    rw [hnext, inDomain_some_iff]
    have hlow := (inDomain_some_iff.mp hold).1
    have hhigh : old :: x < [next] ↔ old < next := by
      rw [List.cons_lt_cons_iff]
      simp
    simp [hlow, hhigh]

/-- A family that is shown agrees if the end is one of its own or comes after the family,
or nothing is in the range. -/
theorem agrees_iff_end (hp : Plain first old lk) (hwf : WellFormed S) (hfirst : first ≠ 0x03)
    (hshown : ∀ x, (lk x).shown = some (first :: x)) {next : UInt8}
    (hnext : LegacyWasmStore.translateBound (fun c best => decide (best < c)) (prefixEnd [first] none) =
      some [next]) :
    Agrees ⟨codec, S⟩ first s e
        ((LegacyWasmStore.iterator ⟨codec, S⟩ (some (first :: s)) (prefixEnd [first] e)).all codec) ↔
      (e ≠ none ∨ old < next) ∨ ∀ x, Present S (lk x) → inDomain (some s) e x = false := by
  rw [hp.agrees_iff hwf]
  refine ⟨?_, ?_⟩
  · intro h
    by_cases hex : ∃ x, Present S (lk x) ∧ inDomain (some s) e x = true
    · obtain ⟨x, hx, hin⟩ := hex
      exact .inl ((hp.shows_iff hfirst hnext hin).mp (h x hx hin)).2
    · refine .inr (fun x hx => ?_)
      rw [Bool.eq_false_iff]
      exact fun hin => hex ⟨x, hx, hin⟩
  · intro h x hx hin
    rcases h with hend | hnone
    · exact (hp.shows_iff hfirst hnext hin).mpr ⟨hshown x, hend⟩
    · exact absurd hin (by rw [hnone x hx]; exact Bool.false_ne_true)

/-- A family that is not shown agrees if nothing is in the range. -/
theorem agrees_iff_none (hp : Plain first old lk) (hwf : WellFormed S) (hshown : ∀ x, (lk x).shown = none) :
    Agrees ⟨codec, S⟩ first s e
        ((LegacyWasmStore.iterator ⟨codec, S⟩ (some (first :: s)) (prefixEnd [first] e)).all codec) ↔
      ∀ x, Present S (lk x) → inDomain (some s) e x = false := by
  rw [hp.agrees_iff hwf]
  refine ⟨?_, ?_⟩
  · intro h x hx
    rw [Bool.eq_false_iff]
    intro hin
    exact absurd (h x hx hin).2.1 (by rw [hshown x]; simp)
  · intro h x hx hin
    exact absurd hin (by rw [h x hx]; exact Bool.false_ne_true)

end Plain

theorem plain_code : Plain 0x01 0x03 .code := by
  refine ⟨fun _ => rfl, fun _ => rfl, fun _ => rfl, ?_⟩
  intro other x h
  cases other <;> simp [LegacyKey.shown, LegacyKey.newKey] at h
  rw [h]

theorem plain_history : Plain 0x05 0x06 .history := by
  refine ⟨fun _ => rfl, fun _ => rfl, fun _ => rfl, ?_⟩
  intro other x h
  cases other <;> simp [LegacyKey.shown, LegacyKey.newKey] at h
  rw [h]

theorem plain_secondaryIndex : Plain 0x06 0x10 .secondaryIndex := by
  refine ⟨fun _ => rfl, fun _ => rfl, fun _ => rfl, ?_⟩
  intro other x h
  cases other <;> simp [LegacyKey.shown, LegacyKey.newKey] at h
  rw [h]

theorem plain_pinned : Plain 0x07 0x07 .pinned := by
  refine ⟨fun _ => rfl, fun _ => rfl, fun _ => rfl, ?_⟩
  intro other x h
  cases other <;> simp [LegacyKey.shown, LegacyKey.newKey] at h

theorem plain_byCreator : Plain 0x09 0x09 .byCreator := by
  refine ⟨fun _ => rfl, fun _ => rfl, fun _ => rfl, ?_⟩
  intro other x h
  cases other <;> simp [LegacyKey.shown, LegacyKey.newKey] at h

/-! ## Contracts -/

/-- The bound that is picked is a candidate, and before all others in the order. -/
theorem pickBound_best {better : Bytes → Bytes → Bool} {R : Bytes → Bytes → Prop}
    (hrefl : ∀ c, R c c) (htrans : ∀ a b c, R a b → R b c → R a c)
    (hbetter : ∀ c best, if better c best = true then R c best else R best c)
    {candidates : List Bytes} {m : Bytes} (h : LegacyWasmStore.pickBound better candidates = some m) :
    m ∈ candidates ∧ ∀ c ∈ candidates, R m c := by
  cases candidates with
  | nil => cases h
  | cons c rest =>
    obtain rfl := Option.some.inj h
    clear h
    induction rest generalizing c with
    | nil => simp [hrefl]
    | cons d rest ih =>
      rw [List.foldl_cons]
      obtain ⟨hmem, hbest⟩ := ih (if better d c = true then d else c)
      have hstep := hbest _ List.mem_cons_self
      have hdc := hbetter d c
      refine ⟨?_, ?_⟩
      · rcases List.mem_cons.mp hmem with heq | hrest
        · rw [heq]
          split_ifs <;> simp
        · exact List.mem_cons_of_mem _ (List.mem_cons_of_mem _ hrest)
      · -- the better of the first two is before both
        have hfirst : R (if better d c = true then d else c) d ∧ R (if better d c = true then d else c) c := by
          split_ifs with hd
          · rw [if_pos hd] at hdc
            exact ⟨hrefl d, hdc⟩
          · rw [if_neg hd] at hdc
            exact ⟨hdc, hrefl c⟩
        intro x hx
        rcases List.mem_cons.mp hx with rfl | hx
        · exact htrans _ _ _ hstep hfirst.2
        · rcases List.mem_cons.mp hx with rfl | hx
          · exact htrans _ _ _ hstep hfirst.1
          · exact hbest x (List.mem_cons_of_mem _ hx)

theorem mem_buildLenVariants {first : UInt8} {rest c : Bytes} :
    c ∈ buildLenVariants first rest ↔ c = first :: rest ∨ 20 ≤ rest.length ∧ c = first :: 20 :: rest ∨
      32 ≤ rest.length ∧ c = first :: 32 :: rest := by
  rw [buildLenVariants, List.take_append_drop, List.take_append_drop, List.mem_append, List.mem_append]
  split_ifs with h20 h32 h32 <;> simp [h20, h32, or_assoc]

theorem pickBound_variants (better : Bytes → Bytes → Bool) (first : UInt8) (rest : Bytes) :
    ∃ m, LegacyWasmStore.pickBound better (buildLenVariants first rest) = some m := ⟨_, rfl⟩

theorem le_of_lt_or_not (a b : Bytes) : if decide (a < b) = true then a ≤ b else b ≤ a := by
  split_ifs with hlt
  · exact (of_decide_eq_true hlt).le
  · exact not_lt.mp (fun hgt => hlt (decide_eq_true hgt))

/-- A key is from the least candidate on if it is from some candidate on. -/
theorem least_le_iff {candidates : List Bytes} {m k : Bytes}
    (h : LegacyWasmStore.pickBound (fun c best => decide (c < best)) candidates = some m) :
    m ≤ k ↔ ∃ c ∈ candidates, c ≤ k := by
  obtain ⟨hmem, hbest⟩ := pickBound_best (R := fun a b => a ≤ b) (fun c => le_refl c) (fun _ _ _ => le_trans)
    (fun c best => le_of_lt_or_not c best) h
  refine ⟨fun hle => ⟨m, hmem, hle⟩, ?_⟩
  intro hex
  obtain ⟨c, hc, hle⟩ := hex
  exact le_trans (hbest c hc) hle

/-- A key is before the greatest candidate if it is before some candidate. -/
theorem lt_greatest_iff {candidates : List Bytes} {m k : Bytes}
    (h : LegacyWasmStore.pickBound (fun c best => decide (best < c)) candidates = some m) :
    k < m ↔ ∃ c ∈ candidates, k < c := by
  obtain ⟨hmem, hbest⟩ := pickBound_best (R := fun a b => b ≤ a) (fun c => le_refl c)
    (fun _ _ _ hab hbc => le_trans hbc hab) (fun c best => le_of_lt_or_not best c) h
  refine ⟨fun hlt => ⟨m, hmem, hlt⟩, ?_⟩
  intro hex
  obtain ⟨c, hc, hlt⟩ := hex
  exact lt_of_lt_of_le hlt (hbest c hc)

/-- What stands behind the first byte where a contract is shown. -/
def shownBody (a : ContractAddr) : Bytes := if a.1.length = 20 then a.1 else a.len :: a.1

/-- Contracts under which point reads and iteration of a range agree. -/
structure ContractsApart (S : KVStore) (s : Bytes) (e : Option Bytes) : Prop where
  /-- no address of 20 bytes is in the range with its length byte -/
  short : ∀ a, Present S (.contract a) → a.1.length = 20 → inDomain (some s) e (a.len :: a.1) = false
  /-- no address of 32 bytes is in the range without its length byte -/
  long : ∀ a, Present S (.contract a) → a.1.length = 32 → inDomain (some s) e a.1 = false
  /-- a bound that an address of 20 bytes with its length byte is outside of has 20 bytes -/
  bounds : ∀ a, Present S (.contract a) → a.1.length = 20 → inDomain (some s) e a.1 = true →
    (s ≤ a.len :: a.1 ∨ 20 ≤ s.length) ∧ ∀ e', e = some e' → a.len :: a.1 < e' ∨ 20 ≤ e'.length
  /-- addresses of 20 bytes are before those of 32 bytes with their length byte -/
  order : ∀ a b, Present S (.contract a) → Present S (.contract b) → a.1.length = 20 → b.1.length = 32 →
    inDomain (some s) e a.1 = true → inDomain (some s) e (b.len :: b.1) = true → a.1 < b.len :: b.1

section Contracts

variable {codec : ValueCodec} {S : KVStore} {a : ContractAddr} {s : Bytes} {e : Option Bytes}

theorem shown_contract {lk : LegacyKey} {y : Bytes} (h : lk.shown = some (0x02 :: y)) :
    ∃ a, lk = .contract a ∧ y = shownBody a := by
  cases lk <;> simp [LegacyKey.shown, LegacyKey.newKey] at h
  exact ⟨_, rfl, h.symm⟩

theorem shownBody_short (h : a.1.length = 20) : shownBody a = a.1 := if_pos h

theorem shownBody_long (h : a.1.length = 32) : shownBody a = a.len :: a.1 := if_neg (by omega)

/-- What a point read finds: a contract by its address, with its length byte or without. -/
theorem get_contract_iff (hwf : WellFormed S) {y v : Bytes} :
    LegacyWasmStore.get ⟨codec, S⟩ (0x02 :: y) = some v ↔
      ∃ a w, (y = a.1 ∨ y = a.len :: a.1) ∧ S.get (LegacyKey.contract a).encode = some w ∧
        v = translateLegacyValueForKey codec (0x02 :: y) w := by
  rw [LegacyWasmStore.get_variants _ (.inl rfl) rfl, Option.map_eq_some_iff]
  refine ⟨?_, ?_⟩
  · intro h
    obtain ⟨w, hget, rfl⟩ := h
    -- with a length byte before it, what is read is an address
    have hbehind : ∀ len, S.get (0x04 :: len :: y) = some w →
        ∃ a : ContractAddr, y = a.1 ∧ S.get (LegacyKey.contract a).encode = some w := by
      intro len hlen
      obtain ⟨a, ha⟩ := hwf.contract_of_get hlen
      obtain ⟨rfl, rfl⟩ := List.cons.inj ha
      exact ⟨a, rfl, hlen⟩
    rcases Option.or_eq_some_iff.mp hget with hraw | ⟨_, hget⟩
    · obtain ⟨a, rfl⟩ := hwf.contract_of_get hraw
      exact ⟨a, w, .inr rfl, hraw, rfl⟩
    · rcases Option.or_eq_some_iff.mp hget with h20 | ⟨_, h32⟩
      · obtain ⟨a, hy, ha⟩ := hbehind 20 (Option.ite_none_right_eq_some.mp h20).2
        exact ⟨a, w, .inl hy, ha, rfl⟩
      · obtain ⟨a, hy, ha⟩ := hbehind 32 (Option.ite_none_right_eq_some.mp h32).2
        exact ⟨a, w, .inl hy, ha, rfl⟩
  · intro h
    obtain ⟨a, w, hy, hget, rfl⟩ := h
    refine ⟨w, ?_, rfl⟩
    rcases hy with rfl | rfl
    · exact (contract_variants hwf a).trans hget
    · exact Option.or_eq_some_iff.mpr (.inl hget)

/-- A contract that is shown from a bound on comes after its least candidate. -/
theorem least_le_contract_iff {m : Bytes}
    (hm : LegacyWasmStore.pickBound (fun c best => decide (c < best)) (buildLenVariants 0x04 s) = some m)
    (hs : s ≤ shownBody a) :
    m ≤ (LegacyKey.contract a).encode ↔ (a.1.length = 20 → s ≤ a.len :: a.1 ∨ 20 ≤ s.length) := by
  rw [least_le_iff hm]
  simp only [mem_buildLenVariants, LegacyKey.encode]
  have hraw : (0x04 :: s ≤ 0x04 :: a.len :: a.1) ↔ s ≤ a.len :: a.1 :=
    ListOrder.append_le_append_iff (p := [0x04])
  rcases a.len_cases with ⟨hlength, hlen⟩ | ⟨hlength, _⟩
  · rw [shownBody_short hlength] at hs
    rw [hlen] at hraw ⊢
    have h20 : (0x04 :: 20 :: s ≤ 0x04 :: 20 :: a.1) := (ListOrder.append_le_append_iff (p := [0x04, 20])).mpr hs
    refine ⟨?_, ?_⟩
    · intro h _
      obtain ⟨c, hc, hle⟩ := h
      rcases hc with rfl | ⟨hshort, _⟩ | ⟨hlong, _⟩
      · exact .inl (hraw.mp hle)
      · exact .inr hshort
      · exact .inr (by omega)
    · intro h
      rcases h hlength with hle | hshort
      · exact ⟨_, .inl rfl, hraw.mpr hle⟩
      · exact ⟨_, .inr (.inl ⟨hshort, rfl⟩), h20⟩
  · rw [shownBody_long hlength] at hs
    exact iff_of_true ⟨_, .inl rfl, hraw.mpr hs⟩ (fun h => by omega)

/-- A contract that is shown before a bound comes before its greatest candidate. -/
theorem contract_lt_greatest_iff {m e : Bytes}
    (hm : LegacyWasmStore.pickBound (fun c best => decide (best < c)) (buildLenVariants 0x04 e) = some m)
    (he : shownBody a < e) :
    (LegacyKey.contract a).encode < m ↔ (a.1.length = 20 → a.len :: a.1 < e ∨ 20 ≤ e.length) := by
  rw [lt_greatest_iff hm]
  simp only [mem_buildLenVariants, LegacyKey.encode]
  have hraw : (0x04 :: a.len :: a.1 < 0x04 :: e) ↔ a.len :: a.1 < e :=
    ListOrder.append_lt_append_iff (p := [0x04])
  rcases a.len_cases with ⟨hlength, hlen⟩ | ⟨hlength, _⟩
  · rw [shownBody_short hlength] at he
    rw [hlen] at hraw ⊢
    have h20 : (0x04 :: 20 :: a.1 < 0x04 :: 20 :: e) := (ListOrder.append_lt_append_iff (p := [0x04, 20])).mpr he
    refine ⟨?_, ?_⟩
    · intro h _
      obtain ⟨c, hc, hlt⟩ := h
      rcases hc with rfl | ⟨hshort, _⟩ | ⟨hlong, _⟩
      · exact .inl (hraw.mp hlt)
      · exact .inr hshort
      · exact .inr (by omega)
    · intro h
      rcases h hlength with hlt | hshort
      · exact ⟨_, .inl rfl, hraw.mpr hlt⟩
      · exact ⟨_, .inr (.inl ⟨hshort, rfl⟩), h20⟩
  · rw [shownBody_long hlength] at he
    exact iff_of_true ⟨_, .inl rfl, hraw.mpr he⟩ (fun h => by omega)

/-- The translated bounds of a range of contracts keep a contract that is shown in it, but
for bounds that are too short for its length byte. -/
theorem contract_inDomain_iff (hin : inDomain (some s) e (shownBody a) = true) :
    inDomain (LegacyWasmStore.translateBoundsForIteration ⟨codec, S⟩ (some (0x02 :: s)) (prefixEnd [0x02] e)).1
        (LegacyWasmStore.translateBoundsForIteration ⟨codec, S⟩ (some (0x02 :: s)) (prefixEnd [0x02] e)).2
        (LegacyKey.contract a).encode = true ↔
      (a.1.length = 20 → (s ≤ a.len :: a.1 ∨ 20 ≤ s.length) ∧
        ∀ e', e = some e' → a.len :: a.1 < e' ∨ 20 ≤ e'.length) := by
  obtain ⟨hs, he⟩ := inDomain_some_iff.mp hin
  obtain ⟨low, hlow⟩ := pickBound_variants (fun c best => decide (c < best)) 0x04 s
  have hstart : LegacyWasmStore.translateBound (fun c best => decide (c < best)) (some (0x02 :: s)) = some low := by
    show LegacyWasmStore.pickBound _ (translateNewToOld (0x02 :: s)) = some low
    rw [translateNewToOld_variants (.inl rfl) rfl, hlow]
  have hbounds : LegacyWasmStore.translateBoundsForIteration ⟨codec, S⟩ (some (0x02 :: s)) (prefixEnd [0x02] e) =
      (some low, LegacyWasmStore.translateBound (fun c best => decide (best < c)) (prefixEnd [0x02] e)) := by
    rw [LegacyWasmStore.translateBoundsForIteration, if_neg (by simp), hstart]
    intro body heq
    cases heq
  rw [hbounds, inDomain_some_iff, least_le_contract_iff hlow hs, forall_and]
  refine and_congr_right (fun _ => ?_)
  cases e with
  | none =>
    -- contracts come before the first byte of storage
    refine iff_of_true ?_ (fun _ _ h => nomatch h)
    intro m hm
    obtain rfl : [0x05] = m := Option.some.inj hm
    rw [LegacyKey.encode, List.cons_lt_cons_iff]
    exact .inl (by decide)
  | some e =>
    obtain ⟨high, hhigh⟩ := pickBound_variants (fun c best => decide (best < c)) 0x04 e
    have hstop : LegacyWasmStore.translateBound (fun c best => decide (best < c)) (prefixEnd [0x02] (some e)) =
        some high := by
      show LegacyWasmStore.pickBound _ (translateNewToOld (0x02 :: e)) = some high
      rw [translateNewToOld_variants (.inl rfl) rfl, hhigh]
    rw [hstop]
    simp only [Option.some.injEq, forall_eq']
    exact contract_lt_greatest_iff hhigh (he e rfl)

/-- What is shown in a range of contracts. -/
theorem shows_contract {lk : LegacyKey} {key : Bytes}
    (h : Shows codec S (some (0x02 :: s)) (prefixEnd [0x02] e) lk key) :
    ∃ a, lk = .contract a ∧ key = 0x02 :: shownBody a ∧ inDomain (some s) e (shownBody a) = true := by
  obtain ⟨_, hshown, hin⟩ := h
  obtain ⟨y, rfl, hy⟩ := (inDomain_prefixEnd (p := [0x02])).mp hin
  obtain ⟨a, rfl, rfl⟩ := shown_contract hshown
  exact ⟨a, rfl, rfl, hy⟩

theorem shows_contract_iff (hin : inDomain (some s) e (shownBody a) = true) :
    Shows codec S (some (0x02 :: s)) (prefixEnd [0x02] e) (.contract a) (0x02 :: shownBody a) ↔
      (a.1.length = 20 → (s ≤ a.len :: a.1 ∨ 20 ≤ s.length) ∧
        ∀ e', e = some e' → a.len :: a.1 < e' ∨ 20 ≤ e'.length) := by
  refine ⟨fun h => (contract_inDomain_iff hin).mp h.1, ?_⟩
  intro h
  exact ⟨(contract_inDomain_iff hin).mpr h, rfl, (inDomain_append_iff (p := [0x02])).mpr hin⟩

/-- Where iteration agrees with point reads, a contract that is read in the range is shown. -/
theorem Agrees.shows (hwf : WellFormed S)
    (h : Agrees ⟨codec, S⟩ 0x02 s e
      ((LegacyWasmStore.iterator ⟨codec, S⟩ (some (0x02 :: s)) (prefixEnd [0x02] e)).all codec))
    (ha : Present S (.contract a)) {y : Bytes} (hy : y = a.1 ∨ y = a.len :: a.1)
    (hin : inDomain (some s) e y = true) :
    ∃ b, y = shownBody b ∧ Shows codec S (some (0x02 :: s)) (prefixEnd [0x02] e) (.contract b) (0x02 :: y) := by
  obtain ⟨w, hw⟩ := Option.isSome_iff_exists.mp ha
  have hget : LegacyWasmStore.get ⟨codec, S⟩ (0x02 :: y) = some (translateLegacyValueForKey codec (0x02 :: y) w) :=
    (get_contract_iff hwf).mpr ⟨a, w, hy, hw, rfl⟩
  obtain ⟨lk, _, _, hshows, _⟩ := hwf.mem_iterator.mp ((h.2 _ _).mpr ⟨⟨y, rfl, hin⟩, hget⟩)
  obtain ⟨b, rfl, hkey, _⟩ := shows_contract hshows
  exact ⟨b, (List.cons.inj hkey).2, hshows⟩

/-- The length tells what is shown of a contract. -/
theorem shownBody_length (b : ContractAddr) :
    (b.1.length = 20 ∧ (shownBody b).length = 20) ∨ (b.1.length = 32 ∧ (shownBody b).length = 33) := by
  rcases b.2 with hlength | hlength
  · exact .inl ⟨hlength, by rw [shownBody_short hlength, hlength]⟩
  · exact .inr ⟨hlength, by rw [shownBody_long hlength, List.length_cons, hlength]⟩

theorem ContractsApart.of_agrees (hwf : WellFormed S)
    (h : Agrees ⟨codec, S⟩ 0x02 s e
      ((LegacyWasmStore.iterator ⟨codec, S⟩ (some (0x02 :: s)) (prefixEnd [0x02] e)).all codec)) :
    ContractsApart S s e := by
  -- a contract in the range as it is shown is shown itself
  have hself : ∀ a, Present S (.contract a) → inDomain (some s) e (shownBody a) = true →
      Shows codec S (some (0x02 :: s)) (prefixEnd [0x02] e) (.contract a) (0x02 :: shownBody a) := by
    intro a ha hin
    have hy : shownBody a = a.1 ∨ shownBody a = a.len :: a.1 := by
      rcases a.2 with hlength | hlength
      · exact .inl (shownBody_short hlength)
      · exact .inr (shownBody_long hlength)
    obtain ⟨b, hb, hshows⟩ := h.shows hwf ha hy hin
    have hsame : a = b := by
      have ha := shownBody_length a
      have hblen := shownBody_length b
      rw [hb] at ha
      apply Subtype.ext
      rcases ha with ⟨hlength, hbody⟩ | ⟨hlength, hbody⟩
      · have hb20 : b.1.length = 20 := by omega
        rw [← shownBody_short hlength, hb, shownBody_short hb20]
      · have hb32 : b.1.length = 32 := by omega
        rw [shownBody_long hlength, shownBody_long hb32] at hb
        exact (List.cons.inj hb).2
    exact hsame ▸ hshows
  refine ⟨?_, ?_, ?_, ?_⟩
  · intro a ha hlength
    rw [Bool.eq_false_iff]
    intro hin
    obtain ⟨b, hb, _⟩ := h.shows hwf ha (.inr rfl) hin
    have hlen := congrArg List.length hb
    have hbody := shownBody_length b
    rw [List.length_cons] at hlen
    omega
  · intro a ha hlength
    rw [Bool.eq_false_iff]
    intro hin
    obtain ⟨b, hb, _⟩ := h.shows hwf ha (.inl rfl) hin
    have hlen := congrArg List.length hb
    have hbody := shownBody_length b
    omega
  · intro a ha hlength hin
    have hin : inDomain (some s) e (shownBody a) = true := by rw [shownBody_short hlength, hin]
    exact (shows_contract_iff hin).mp (hself a ha hin) hlength
  · intro a b ha hb hlength hlength' hin hin'
    rw [← shownBody_short hlength] at hin ⊢
    rw [← shownBody_long hlength'] at hin' ⊢
    have hlt : (LegacyKey.contract a).encode < (LegacyKey.contract b).encode := by
      rw [LegacyKey.encode, LegacyKey.encode, ContractAddr.len, ContractAddr.len, hlength, hlength']
      exact (ListOrder.append_lt_append_iff (p := [0x04])).mpr (List.cons_lt_cons_iff.mpr (.inl (by decide)))
    have hkeys := hwf.iterator_pairwise_iff.mp h.1 _ _ _ _ ha hb hlt (hself a ha hin) (hself b hb hin')
    exact (ListOrder.append_lt_append_iff (p := [0x02])).mp hkeys

theorem ContractsApart.agrees (hwf : WellFormed S) (h : ContractsApart S s e) :
    Agrees ⟨codec, S⟩ 0x02 s e
      ((LegacyWasmStore.iterator ⟨codec, S⟩ (some (0x02 :: s)) (prefixEnd [0x02] e)).all codec) := by
  refine ⟨hwf.iterator_pairwise_iff.mpr ?_, ?_⟩
  · intro lk lk' key key' hlk hlk' hlt hshows hshows'
    obtain ⟨a, rfl, rfl, hin⟩ := shows_contract hshows
    obtain ⟨b, rfl, rfl, hin'⟩ := shows_contract hshows'
    have hbodies : a.len :: a.1 < b.len :: b.1 := (ListOrder.append_lt_append_iff (p := [0x04])).mp hlt
    suffices hshown : shownBody a < shownBody b from (ListOrder.append_lt_append_iff (p := [0x02])).mpr hshown
    rcases a.len_cases with ⟨hlength, hlen⟩ | ⟨hlength, hlen⟩
    · rcases b.len_cases with ⟨hlength', hlen'⟩ | ⟨hlength', hlen'⟩
      · rw [hlen, hlen'] at hbodies
        rw [shownBody_short hlength, shownBody_short hlength']
        exact (ListOrder.append_lt_append_iff (p := [20])).mp hbodies
      · rw [shownBody_short hlength] at hin ⊢
        rw [shownBody_long hlength'] at hin' ⊢
        exact h.order a b hlk hlk' hlength hlength' hin hin'
    · rcases b.len_cases with ⟨hlength', hlen'⟩ | ⟨hlength', hlen'⟩
      · -- addresses of 32 bytes come last
        rw [hlen, hlen', List.cons_lt_cons_iff] at hbodies
        exact absurd hbodies (by simp)
      · rw [shownBody_long hlength, shownBody_long hlength']
        exact hbodies
  · intro key v
    rw [hwf.mem_iterator]
    refine ⟨?_, ?_⟩
    · intro hmem
      obtain ⟨lk, w, hget, hshows, rfl⟩ := hmem
      obtain ⟨a, rfl, rfl, hin⟩ := shows_contract hshows
      refine ⟨⟨shownBody a, rfl, hin⟩, (get_contract_iff hwf).mpr ⟨a, w, ?_, hget, rfl⟩⟩
      rcases a.2 with hlength | hlength
      · exact .inl (shownBody_short hlength)
      · exact .inr (shownBody_long hlength)
    · intro hmem
      obtain ⟨⟨y, rfl, hin⟩, hget⟩ := hmem
      obtain ⟨a, w, hy, hw, rfl⟩ := (get_contract_iff hwf).mp hget
      have ha : Present S (.contract a) := present_of_get hw
      -- the range has the contract as it is shown only
      have hbody : y = shownBody a := by
        rcases a.2 with hlength | hlength
        · rcases hy with rfl | rfl
          · exact (shownBody_short hlength).symm
          · exact absurd hin (by rw [h.short a ha hlength]; exact Bool.false_ne_true)
        · rcases hy with rfl | rfl
          · exact absurd hin (by rw [h.long a ha hlength]; exact Bool.false_ne_true)
          · exact (shownBody_long hlength).symm
      subst hbody
      refine ⟨.contract a, w, hw, (shows_contract_iff hin).mpr ?_, rfl⟩
      intro hlength
      exact h.bounds a ha hlength (by rw [← shownBody_short hlength, hin])

end Contracts

/-! ## All families -/

/-- What a range of a family needs for point reads and iteration to agree. -/
def Family.Covered (S : KVStore) (s : Bytes) (e : Option Bytes) : Family → Prop
  | code => True
  | contract => ContractsApart S s e
  | history => True
  | codeIndex => e ≠ none ∨ ∀ x, Present S (.secondaryIndex x) → inDomain (some s) e x = false
  | pinned => ∀ x, Present S (.pinned x) → inDomain (some s) e x = false
  | byCreator => ∀ x, Present S (.byCreator x) → inDomain (some s) e x = false

/-- Iteration over a family agrees with point reads if the range is covered. -/
theorem family_scan_iff (codec : ValueCodec) {S : KVStore} (hwf : WellFormed S) (family : Family) (s : Bytes)
    (e : Option Bytes) :
    Agrees ⟨codec, S⟩ family.first s e
        ((LegacyWasmStore.iterator ⟨codec, S⟩ (some (family.first :: s)) (prefixEnd [family.first] e)).all codec) ↔
      family.Covered S s e := by
  cases family with
  | code =>
    have hnext : LegacyWasmStore.translateBound (fun c best => decide (best < c)) (prefixEnd [0x01] none) =
        some [0x04] := rfl
    exact iff_of_true ((plain_code.agrees_iff_end hwf (by decide) (fun _ => rfl) hnext).mpr
      (.inl (.inr (by decide)))) trivial
  | contract => exact ⟨ContractsApart.of_agrees hwf, ContractsApart.agrees hwf⟩
  | history =>
    have hnext : LegacyWasmStore.translateBound (fun c best => decide (best < c)) (prefixEnd [0x05] none) =
        some [0x10] := rfl
    exact iff_of_true ((plain_history.agrees_iff_end hwf (by decide) (fun _ => rfl) hnext).mpr
      (.inl (.inr (by decide)))) trivial
  | codeIndex =>
    -- the byte after the index is not translated, and old keys of the index are above it
    have hnext : LegacyWasmStore.translateBound (fun c best => decide (best < c)) (prefixEnd [0x06] none) =
        some [0x07] := rfl
    have hbelow : ¬ (0x10 : UInt8) < 0x07 := by decide
    refine (plain_secondaryIndex.agrees_iff_end hwf (by decide) (fun _ => rfl) hnext).trans ?_
    rw [or_iff_left hbelow]
    rfl
  | pinned => exact plain_pinned.agrees_iff_none hwf (fun _ => rfl)
  | byCreator => exact plain_byCreator.agrees_iff_none hwf (fun _ => rfl)

namespace Sample

/-- One pinned code and one code. -/
def pinnedEntries : List (LegacyKey × Bytes) :=
  [(.code [1], [3]), (.pinned [1], [])]

theorem pinnedEntries_wellFormed : WellFormed (storeOf pinnedEntries) :=
  wellFormed_storeOf (by decide +kernel)

/-- The pinned code is read, and not shown. -/
theorem pinned_code_not_shown :
    WellFormed (storeOf pinnedEntries) ∧
    LegacyWasmStore.get ⟨noCodec, storeOf pinnedEntries⟩ [0x07, 1] = some [] ∧
    (LegacyWasmStore.iterator ⟨noCodec, storeOf pinnedEntries⟩ (some [0x07]) (some [0x08])).all noCodec = [] ∧
    ¬ Agrees ⟨noCodec, storeOf pinnedEntries⟩ 0x07 [] none
      ((LegacyWasmStore.iterator ⟨noCodec, storeOf pinnedEntries⟩ (some [0x07]) (prefixEnd [0x07] none)).all
        noCodec) := by
  have hget : LegacyWasmStore.get ⟨noCodec, storeOf pinnedEntries⟩ [0x07, 1] = some [] := by decide +kernel
  have hall : (LegacyWasmStore.iterator ⟨noCodec, storeOf pinnedEntries⟩ (some [0x07]) (some [0x08])).all
      noCodec = [] := by decide +kernel
  refine ⟨pinnedEntries_wellFormed, hget, hall, ?_⟩
  intro h
  have hend : prefixEnd [0x07] none = some [0x08] := rfl
  have hmem := (h.2 [0x07, 1] []).mpr ⟨⟨[1], rfl, by decide⟩, hget⟩
  rw [hend, hall] at hmem
  cases hmem

/-- All codes are shown as they are read. -/
theorem codes_agree :
    Agrees ⟨noCodec, storeOf pinnedEntries⟩ Family.code.first [] none
      ((LegacyWasmStore.iterator ⟨noCodec, storeOf pinnedEntries⟩ (some [Family.code.first])
        (prefixEnd [Family.code.first] none)).all noCodec) :=
  (family_scan_iff noCodec pinnedEntries_wellFormed .code [] none).mpr trivial

end Sample

end Wasm
