import Mathlib.Tactic
import Mathlib.Order.Basic
import Mathlib.Data.List.Perm.Basic

/- Finite maps as key-sorted entry lists.

   A key-value store iterates in key order, so its content is a list of entries
   with strictly increasing keys. `SortedMap K V` carries that order as a field:
   two maps that answer every lookup alike are equal (`ext_get`), and a fold over
   the entries is a fold over the store. `sumOf` is the sum of a measure over the
   entries, with what a write and a delete do to it: the form in which a running
   total is compared with the map it summarises. `patch` applies a list of writes
   and deletes. A loop over an unordered map visits the entries in any order:
   `RangeOrder`. -/

/-- A finite map from `K` to `V`, as its entries in increasing key order. -/
structure SortedMap (K V : Type) [LinearOrder K] where
  entries : List (K × V)
  sorted : entries.Pairwise (fun a b => a.1 < b.1)
  deriving DecidableEq

/-- A sum of integers that are not negative. -/
theorem List.sum_map_nonneg {α : Type*} {l : List α} {f : α → Int} (h : ∀ x ∈ l, 0 ≤ f x) : 0 ≤ (l.map f).sum := by
  apply List.sum_nonneg
  intro n hn
  obtain ⟨x, hx, rfl⟩ := List.mem_map.mp hn
  exact h x hx

namespace SortedMap

variable {K V : Type} [LinearOrder K]

/-! ## Lookup -/

/-- The value an entry list holds at a key. -/
def find (k : K) : List (K × V) → Option V
  | [] => none
  | (k', v) :: rest => if k = k' then some v else find k rest

/-- The value at a key, if there is one. -/
def get (m : SortedMap K V) (k : K) : Option V := find k m.entries

/-- The map without entries. -/
def empty : SortedMap K V := ⟨[], List.Pairwise.nil⟩

@[simp] theorem get_empty (k : K) : (empty : SortedMap K V).get k = none := rfl

theorem find_eq_none {k : K} {l : List (K × V)} (h : ∀ e ∈ l, k ≠ e.1) : find k l = none := by
  induction l with
  | nil => rfl
  | cons e rest ih =>
    simp only [find, h e List.mem_cons_self, if_false]
    exact ih (fun x hx => h x (List.mem_cons_of_mem e hx))

theorem mem_of_find {k : K} {v : V} {l : List (K × V)} (h : find k l = some v) : (k, v) ∈ l := by
  induction l with
  | nil => simp [find] at h
  | cons e rest ih =>
    by_cases hk : k = e.1
    · simp only [find, hk, if_true, Option.some.injEq] at h
      subst hk; subst h
      exact List.mem_cons_self
    · simp only [find, hk, if_false] at h
      exact List.mem_cons_of_mem e (ih h)

theorem find_of_mem {k : K} {v : V} {l : List (K × V)} (hnd : (l.map Prod.fst).Nodup)
    (h : (k, v) ∈ l) : find k l = some v := by
  induction l with
  | nil => simp at h
  | cons e rest ih =>
    obtain ⟨hfresh, hnd⟩ := List.nodup_cons.mp hnd
    rcases List.mem_cons.mp h with rfl | hr
    · simp [find]
    · have hne : k ≠ e.1 := fun heq => hfresh (heq ▸ List.mem_map_of_mem hr)
      simp only [find, hne, if_false]
      exact ih hnd hr

/-- The order of the entries does not matter where every key comes once. -/
theorem find_perm {l l' : List (K × V)} (h : l.Perm l') (hnd : (l.map Prod.fst).Nodup) (k : K) :
    find k l = find k l' := by
  apply Option.ext
  intro v
  refine ⟨?_, ?_⟩
  · intro hfind
    exact find_of_mem ((h.map Prod.fst).nodup_iff.mp hnd) (h.mem_iff.mp (mem_of_find hfind))
  · intro hfind
    exact find_of_mem hnd (h.mem_iff.mpr (mem_of_find hfind))

theorem keys_nodup (m : SortedMap K V) : (m.entries.map Prod.fst).Nodup :=
  List.pairwise_map.mpr (m.sorted.imp ne_of_lt)

/-- A key holds a value exactly when the pair is an entry. -/
theorem get_eq_some {m : SortedMap K V} {k : K} {v : V} : m.get k = some v ↔ (k, v) ∈ m.entries :=
  ⟨mem_of_find, find_of_mem m.keys_nodup⟩

theorem entries_injective {m m' : SortedMap K V} (h : m.entries = m'.entries) : m = m' := by
  cases m; cases m'; simp_all

/-- Maps that answer every lookup alike are equal. -/
theorem ext_get {m m' : SortedMap K V} (h : ∀ k, m.get k = m'.get k) : m = m' := by
  apply entries_injective
  have hmem : ∀ e, e ∈ m.entries ↔ e ∈ m'.entries := by
    intro e
    obtain ⟨k, v⟩ := e
    rw [← get_eq_some, ← get_eq_some, h k]
  have nodup (x : SortedMap K V) : x.entries.Nodup :=
    x.sorted.imp (fun hab heq => (heq ▸ hab).false)
  refine ((List.perm_ext_iff_of_nodup (nodup m) (nodup m')).mpr hmem).eq_of_pairwise ?_
    m.sorted m'.sorted
  intro a b _ _ hab hba
  exact absurd (hab.trans hba) (lt_irrefl _)

/-! ## Writing and deleting -/

/-- An entry list with the key's value replaced or inserted in order. -/
def insertEntry (k : K) (v : V) : List (K × V) → List (K × V)
  | [] => [(k, v)]
  | (k', v') :: rest =>
    if k < k' then (k, v) :: (k', v') :: rest
    else if k = k' then (k, v) :: rest
    else (k', v') :: insertEntry k v rest

theorem mem_insertEntry {k : K} {v : V} {e : K × V} {l : List (K × V)}
    (h : e ∈ insertEntry k v l) : e = (k, v) ∨ e ∈ l := by
  induction l with
  | nil => simpa [insertEntry] using h
  | cons x rest ih =>
    simp only [insertEntry] at h
    split_ifs at h with h1 h2
    · simpa using h
    · rcases List.mem_cons.mp h with h | h
      · exact .inl h
      · exact .inr (List.mem_cons_of_mem x h)
    · rcases List.mem_cons.mp h with h | h
      · exact .inr (h ▸ List.mem_cons_self)
      · exact (ih h).imp id (List.mem_cons_of_mem x)

theorem insertEntry_sorted (k : K) (v : V) {l : List (K × V)}
    (h : l.Pairwise (fun a b => a.1 < b.1)) :
    (insertEntry k v l).Pairwise (fun a b => a.1 < b.1) := by
  induction l with
  | nil => simp [insertEntry]
  | cons x rest ih =>
    have hx := List.pairwise_cons.mp h
    simp only [insertEntry]
    split_ifs with h1 h2
    · refine List.pairwise_cons.mpr ⟨?_, h⟩
      intro e he
      rcases List.mem_cons.mp he with rfl | he
      · exact h1
      · exact h1.trans (hx.1 e he)
    · refine List.pairwise_cons.mpr ⟨?_, hx.2⟩
      intro e he
      exact h2 ▸ hx.1 e he
    · refine List.pairwise_cons.mpr ⟨?_, ih hx.2⟩
      intro e he
      rcases mem_insertEntry he with rfl | he
      · exact lt_of_le_of_ne (not_lt.mp h1) (Ne.symm h2)
      · exact hx.1 e he

/-- The map with `v` written at `k`. -/
def set (m : SortedMap K V) (k : K) (v : V) : SortedMap K V :=
  ⟨insertEntry k v m.entries, insertEntry_sorted k v m.sorted⟩

/-- The map with `k` deleted. -/
def erase (m : SortedMap K V) (k : K) : SortedMap K V :=
  ⟨m.entries.filter (fun e => e.1 ≠ k), m.sorted.filter _⟩

theorem find_insertEntry (k k' : K) (v : V) (l : List (K × V)) :
    find k' (insertEntry k v l) = if k' = k then some v else find k' l := by
  induction l with
  | nil => simp [insertEntry, find]
  | cons x rest ih =>
    simp only [insertEntry]
    split_ifs with h1 h2 h3 <;> simp_all [find]

theorem get_set (m : SortedMap K V) (k k' : K) (v : V) :
    (m.set k v).get k' = if k' = k then some v else m.get k' :=
  find_insertEntry k k' v m.entries

@[simp] theorem get_set_self (m : SortedMap K V) (k : K) (v : V) : (m.set k v).get k = some v := by
  simp [get_set]

theorem find_filter_ne (k k' : K) (l : List (K × V)) :
    find k' (l.filter (fun e => e.1 ≠ k)) = if k' = k then none else find k' l := by
  induction l with
  | nil => simp [find]
  | cons x rest ih =>
    by_cases hx : x.1 = k
    · rw [List.filter_cons_of_neg (by simpa using hx), ih]
      by_cases hk : k' = k <;> simp [find, hk, hx]
    · rw [List.filter_cons_of_pos (by simpa using hx)]
      by_cases hk : k' = k
      · subst hk
        simp only [find, if_true] at ih ⊢
        rw [if_neg (fun h => hx h.symm), ih]
      · simp only [find, hk, if_false] at ih ⊢
        rw [ih]

theorem get_erase (m : SortedMap K V) (k k' : K) :
    (m.erase k).get k' = if k' = k then none else m.get k' :=
  find_filter_ne k k' m.entries

@[simp] theorem get_erase_self (m : SortedMap K V) (k : K) : (m.erase k).get k = none := by
  simp [get_erase]

theorem get_foldl_erase (m : SortedMap K V) (ks : List K) (k : K) :
    (ks.foldl erase m).get k = if k ∈ ks then none else m.get k := by
  induction ks generalizing m with
  | nil => simp
  | cons k' ks ih =>
    rw [List.foldl_cons, ih, get_erase]
    by_cases hk : k = k' <;> simp [hk]

/-! A property of all entries, kept by writes and deletes. -/

def All (P : K → V → Prop) (m : SortedMap K V) : Prop := ∀ k v, m.get k = some v → P k v

theorem all_empty {P : K → V → Prop} : (empty : SortedMap K V).All P := by
  intro k v hget
  rw [get_empty] at hget
  cases hget

theorem All.set {P : K → V → Prop} {m : SortedMap K V} (h : m.All P) {k : K} {v : V} (hkv : P k v) :
    (m.set k v).All P := by
  intro k' v' hget
  rw [get_set] at hget
  split_ifs at hget with hk
  · cases hget
    exact hk ▸ hkv
  · exact h k' v' hget

theorem All.erase {P : K → V → Prop} {m : SortedMap K V} (h : m.All P) (k : K) : (m.erase k).All P := by
  intro k' v' hget
  rw [get_erase] at hget
  split_ifs at hget with hk
  exact h k' v' hget

/-! Lists under keys, in the order in which they were added. -/

def push (m : SortedMap K (List V)) (k : K) (v : V) : SortedMap K (List V) := m.set k ((m.get k).getD [] ++ [v])

theorem get_foldl_push {α : Type} (key : α → K) (val : α → V) (es : List α) (m : SortedMap K (List V)) (k : K) :
    (es.foldl (fun m e => m.push (key e) (val e)) m).get k =
      if es.filter (fun e => decide (key e = k)) = [] then m.get k
      else some ((m.get k).getD [] ++ (es.filter (fun e => decide (key e = k))).map val) := by
  induction es generalizing m with
  | nil => simp
  | cons e rest ih =>
    rw [List.foldl_cons, ih, push, get_set]
    by_cases hk : key e = k
    · rw [List.filter_cons_of_pos (by simpa using hk), if_pos hk.symm, hk, if_neg (List.cons_ne_nil _ _)]
      split_ifs with hnil
      · rw [hnil]
        rfl
      · rw [Option.getD_some, List.append_assoc, List.map_cons, List.singleton_append]
    · have hk' : k ≠ key e := fun heq => hk heq.symm
      rw [List.filter_cons_of_neg (by simpa using hk), if_neg hk']

theorem getD_foldl_push {α : Type} (key : α → K) (val : α → V) (es : List α) (m : SortedMap K (List V)) (k : K) :
    ((es.foldl (fun m e => m.push (key e) (val e)) m).get k).getD [] =
      (m.get k).getD [] ++ (es.filter (fun e => decide (key e = k))).map val := by
  rw [get_foldl_push]
  split_ifs with hnil
  · rw [hnil, List.map_nil, List.append_nil]
  · rfl

/-- The map with every key deleted, one after another. -/
def clear (m : SortedMap K V) : SortedMap K V := (m.entries.map Prod.fst).foldl erase m

theorem clear_eq_empty (m : SortedMap K V) : m.clear = empty := by
  apply ext_get
  intro k
  rw [clear, get_foldl_erase, get_empty]
  split_ifs with hk
  · rfl
  · cases hget : m.get k with
    | none => rfl
    | some v => exact absurd (List.mem_map_of_mem (get_eq_some.mp hget)) hk

/-- Write a value, or delete the key where there is none. -/
def update (m : SortedMap K V) (k : K) : Option V → SortedMap K V
  | some v => m.set k v
  | none => m.erase k

theorem get_update (m : SortedMap K V) (k k' : K) (o : Option V) :
    (m.update k o).get k' = if k' = k then o else m.get k' := by
  cases o with
  | none => exact get_erase m k k'
  | some v => exact get_set m k k' v

/-- Writing back what a key holds changes nothing. -/
theorem update_of_get {m : SortedMap K V} {k : K} {o : Option V} (h : m.get k = o) : m.update k o = m := by
  apply ext_get
  intro k'
  rw [get_update]
  split_ifs with hk
  · rw [hk, h]
  · rfl

theorem update_comm {k k' : K} (h : k ≠ k') (m : SortedMap K V) (o o' : Option V) :
    (m.update k o).update k' o' = (m.update k' o').update k o := by
  apply ext_get
  intro x
  simp only [get_update]
  by_cases hx : x = k'
  · simp [hx, h.symm]
  · simp [hx]

theorem update_update (m : SortedMap K V) (k : K) (o o' : Option V) :
    (m.update k o).update k o' = m.update k o' := by
  apply ext_get
  intro x
  simp only [get_update]
  split_ifs <;> rfl

/-- Writes under different keys can be swapped. -/
theorem set_comm {k k' : K} (h : k ≠ k') (m : SortedMap K V) (v v' : V) :
    (m.set k v).set k' v' = (m.set k' v').set k v :=
  update_comm h m (some v) (some v')

/-! ## Changing every value -/

def mapVals {W : Type} (f : V → W) (m : SortedMap K V) : SortedMap K W :=
  ⟨m.entries.map (fun e => (e.1, f e.2)), List.pairwise_map.mpr m.sorted⟩

theorem get_mapVals {W : Type} (f : V → W) (m : SortedMap K V) (k : K) :
    (m.mapVals f).get k = (m.get k).map f := by
  have hfind : ∀ l : List (K × V), find k (l.map (fun e => (e.1, f e.2))) = (find k l).map f := by
    intro l
    induction l with
    | nil => rfl
    | cons e rest ih =>
      simp only [List.map_cons, find]
      split_ifs
      · rfl
      · exact ih
  exact hfind m.entries

/-! ## Keeping some entries -/

def filter (p : K × V → Bool) (m : SortedMap K V) : SortedMap K V :=
  ⟨m.entries.filter p, m.sorted.filter p⟩

theorem get_filter {p : K × V → Bool} {m : SortedMap K V} {k : K} {v : V} :
    (m.filter p).get k = some v ↔ m.get k = some v ∧ p (k, v) = true := by
  rw [get_eq_some, get_eq_some]
  exact List.mem_filter

/-! ## Patches -/

/-- Change or drop each entry. -/
def filterMap {W : Type} (f : K → V → Option W) (m : SortedMap K V) : SortedMap K W where
  entries := m.entries.filterMap fun e => (f e.1 e.2).map fun w => (e.1, w)
  sorted := by
    refine List.Pairwise.filterMap _ ?_ m.sorted
    intro a a' hlt b hb b' hb'
    obtain ⟨w, _, rfl⟩ := Option.map_eq_some_iff.mp hb
    obtain ⟨w', _, rfl⟩ := Option.map_eq_some_iff.mp hb'
    exact hlt

theorem get_filterMap {W : Type} (f : K → V → Option W) (m : SortedMap K V) (k : K) :
    (m.filterMap f).get k = (m.get k).bind (f k) := by
  apply Option.ext
  intro w
  rw [get_eq_some, Option.bind_eq_some_iff]
  show (k, w) ∈ m.entries.filterMap _ ↔ _
  rw [List.mem_filterMap]
  refine ⟨?_, ?_⟩
  · intro h
    obtain ⟨e, he, hw⟩ := h
    obtain ⟨w', hf, heq⟩ := Option.map_eq_some_iff.mp hw
    cases heq
    exact ⟨e.2, get_eq_some.mpr he, hf⟩
  · intro h
    obtain ⟨v, hv, hf⟩ := h
    exact ⟨(k, v), get_eq_some.mp hv, by rw [hf]; rfl⟩

/-- The map after a list of writes (`some`) and deletes (`none`). -/
def patch (m : SortedMap K V) : List (K × Option V) → SortedMap K V
  | [] => m
  | (k, some v) :: rest => patch (m.set k v) rest
  | (k, none) :: rest => patch (m.erase k) rest

theorem get_patch_of_notMem {us : List (K × Option V)} {k : K} (h : k ∉ us.map Prod.fst)
    (m : SortedMap K V) : (m.patch us).get k = m.get k := by
  induction us generalizing m with
  | nil => rfl
  | cons u rest ih =>
    rw [List.map_cons, List.mem_cons, not_or] at h
    match u, h with
    | (k', some v), h => rw [patch, ih h.2, get_set, if_neg h.1]
    | (k', none), h => rw [patch, ih h.2, get_erase, if_neg h.1]

/-- A key that is patched once gets what the patch says. -/
theorem get_patch_of_mem {us : List (K × Option V)} (hnd : (us.map Prod.fst).Nodup) {k : K}
    {o : Option V} (h : (k, o) ∈ us) (m : SortedMap K V) : (m.patch us).get k = o := by
  induction us generalizing m with
  | nil => simp at h
  | cons u rest ih =>
    rw [List.map_cons, List.nodup_cons] at hnd
    cases List.mem_cons.mp h with
    | inl heq =>
      subst heq
      cases o with
      | none => rw [patch, get_patch_of_notMem hnd.1, get_erase_self]
      | some v => rw [patch, get_patch_of_notMem hnd.1, get_set_self]
    | inr hrest =>
      match u with
      | (k', some v) => exact ih hnd.2 hrest _
      | (k', none) => exact ih hnd.2 hrest _

/-! ## Sums over the entries -/

variable {M : Type} [AddCommMonoid M]

/-- The sum of a measure over the entries. -/
def sumOf (f : K → V → M) (m : SortedMap K V) : M := (m.entries.map (fun e => f e.1 e.2)).sum

@[simp] theorem sumOf_empty (f : K → V → M) : sumOf f (empty : SortedMap K V) = 0 := rfl

theorem sum_insertEntry (f : K → V → M) (k : K) (v : V) {l : List (K × V)}
    (hs : l.Pairwise (fun a b => a.1 < b.1)) :
    ((insertEntry k v l).map (fun e => f e.1 e.2)).sum + ((find k l).map (f k)).getD 0 =
      (l.map (fun e => f e.1 e.2)).sum + f k v := by
  induction l with
  | nil => simp [insertEntry, find]
  | cons x rest ih =>
    have hx := List.pairwise_cons.mp hs
    simp only [insertEntry]
    split_ifs with h1 h2
    · have hnone : find k (x :: rest) = none := by
        apply find_eq_none
        intro e he
        rcases List.mem_cons.mp he with rfl | he
        · exact h1.ne
        · exact (h1.trans (hx.1 e he)).ne
      rw [hnone]
      simp only [List.map_cons, List.sum_cons, Option.map_none, Option.getD_none, add_zero]
      abel
    · subst h2
      simp only [find, if_true, List.map_cons, List.sum_cons, Option.map_some, Option.getD_some]
      abel
    · simp only [find, h2, if_false, List.map_cons, List.sum_cons, add_assoc]
      rw [ih hx.2]

/-- A write adds the new value's measure in place of the old one's. -/
theorem sumOf_set (f : K → V → M) (m : SortedMap K V) (k : K) (v : V) :
    sumOf f (m.set k v) + ((m.get k).map (f k)).getD 0 = sumOf f m + f k v :=
  sum_insertEntry f k v m.sorted

theorem sum_filter_ne (f : K → V → M) (k : K) {l : List (K × V)}
    (hs : l.Pairwise (fun a b => a.1 < b.1)) :
    ((l.filter (fun e => e.1 ≠ k)).map (fun e => f e.1 e.2)).sum + ((find k l).map (f k)).getD 0 =
      (l.map (fun e => f e.1 e.2)).sum := by
  induction l with
  | nil => simp [find]
  | cons x rest ih =>
    have hx := List.pairwise_cons.mp hs
    by_cases hk : x.1 = k
    · subst hk
      have hrest : rest.filter (fun e => e.1 ≠ x.1) = rest := by
        rw [List.filter_eq_self]
        intro e he
        simpa using (hx.1 e he).ne'
      rw [List.filter_cons_of_neg (by simp), hrest]
      simp only [find, if_true, List.map_cons, List.sum_cons, Option.map_some, Option.getD_some]
      abel
    · rw [List.filter_cons_of_pos (by simpa using hk)]
      simp only [find, Ne.symm hk, if_false, List.map_cons, List.sum_cons, add_assoc]
      rw [ih hx.2]

/-- A delete takes the old value's measure out. -/
theorem sumOf_erase (f : K → V → M) (m : SortedMap K V) (k : K) :
    sumOf f (m.erase k) + ((m.get k).map (f k)).getD 0 = sumOf f m :=
  sum_filter_ne f k m.sorted

/-- A measure that is zero but at one key. -/
theorem sumOf_single (f : K → V → M) (m : SortedMap K V) (key : K) :
    sumOf (fun k v => if k = key then f k v else 0) m = ((m.get key).map (f key)).getD 0 := by
  have herase := sumOf_erase (fun k v => if k = key then f k v else 0) m key
  have hzero : sumOf (fun k v => if k = key then f k v else 0) (m.erase key) = 0 := by
    apply List.sum_eq_zero
    intro x hx
    obtain ⟨e, he, rfl⟩ := List.mem_map.mp hx
    have hget := get_eq_some.mpr he
    rw [get_erase] at hget
    split_ifs at hget with hkey
    exact if_neg hkey
  rw [hzero, zero_add] at herase
  rw [← herase]
  cases m.get key <;> simp

theorem sumOf_filterMap {W : Type} (g : K → V → W) (f : K → W → M) (m : SortedMap K V) :
    sumOf f (m.filterMap fun k v => some (g k v)) = sumOf (fun k v => f k (g k v)) m := by
  unfold sumOf filterMap
  simp [Function.comp_def]

/-- The other keys read the same after one is deleted. -/
theorem map_getD_erase {m : SortedMap K V} (f : K → V → M) {k : K} {ks : List K} (hk : k ∉ ks) :
    ks.map (fun k' => (((m.erase k).get k').map (f k')).getD 0) =
      ks.map (fun k' => ((m.get k').map (f k')).getD 0) := by
  apply List.map_congr_left
  intro k' hk'
  have hne : k' ≠ k := fun h => hk (h ▸ hk')
  rw [get_erase, if_neg hne]

/-- Where no entry has a negative measure, distinct keys together hold no more than
the sum. -/
theorem sum_getD_le {m : SortedMap K V} {f : K → V → Int}
    (hf : ∀ k v, m.get k = some v → 0 ≤ f k v) {ks : List K} (hnd : ks.Nodup) :
    (ks.map (fun k => ((m.get k).map (f k)).getD 0)).sum ≤ sumOf f m := by
  induction ks generalizing m with
  | nil =>
    apply List.sum_map_nonneg
    intro e he
    exact hf e.1 e.2 (get_eq_some.mpr he)
  | cons k ks ih =>
    obtain ⟨hk, hnd⟩ := List.nodup_cons.mp hnd
    have hle := ih (m := m.erase k) (by
      intro k' v hv
      rw [get_erase] at hv
      split_ifs at hv
      exact hf k' v hv) hnd
    rw [map_getD_erase f hk] at hle
    have hsum := sumOf_erase f m k
    rw [List.map_cons, List.sum_cons]
    omega

/-- Distinct keys that are all keys of the map together hold the sum. -/
theorem sum_getD_eq {m : SortedMap K V} {f : K → V → Int} {ks : List K} (hnd : ks.Nodup)
    (hall : ∀ k v, m.get k = some v → k ∈ ks) :
    (ks.map (fun k => ((m.get k).map (f k)).getD 0)).sum = sumOf f m := by
  induction ks generalizing m with
  | nil =>
    have hempty : m = empty := by
      apply ext_get
      intro k
      cases hget : m.get k with
      | none => rw [get_empty]
      | some v => exact absurd (hall k v hget) List.not_mem_nil
    rw [hempty]
    rfl
  | cons k ks ih =>
    obtain ⟨hk, hnd⟩ := List.nodup_cons.mp hnd
    have heq := ih (m := m.erase k) hnd (by
      intro k' v hv
      rw [get_erase] at hv
      split_ifs at hv with hkey
      exact (List.mem_cons.mp (hall k' v hv)).resolve_left hkey)
    rw [map_getD_erase f hk] at heq
    have hsum := sumOf_erase f m k
    rw [List.map_cons, List.sum_cons]
    omega

/-! ## Counting -/

theorem mem_keys {m : SortedMap K V} {k : K} :
    k ∈ m.entries.map Prod.fst ↔ (m.get k).isSome = true := by
  rw [Option.isSome_iff_exists, List.mem_map]
  refine ⟨?_, ?_⟩
  · intro h
    obtain ⟨e, he, rfl⟩ := h
    exact ⟨e.2, get_eq_some.mpr he⟩
  · intro h
    obtain ⟨v, hv⟩ := h
    exact ⟨(k, v), get_eq_some.mp hv, rfl⟩

/-- Entries under distinct keys of a map are no more than it has. -/
theorem length_le_of_keys {W : Type} {m : SortedMap K V} {es : List (K × W)}
    (hnd : (es.map Prod.fst).Nodup) (hsub : ∀ e ∈ es, (m.get e.1).isSome = true) :
    (es.map Prod.fst).Subperm (m.entries.map Prod.fst) ∧ es.length ≤ m.entries.length := by
  have hkeys : es.map Prod.fst ⊆ m.entries.map Prod.fst := by
    intro k hk
    obtain ⟨e, he, rfl⟩ := List.mem_map.mp hk
    exact mem_keys.mpr (hsub e he)
  have hsubperm := hnd.subperm hkeys
  have hle := hsubperm.length_le
  rw [List.length_map, List.length_map] at hle
  exact ⟨hsubperm, hle⟩

/-- Entries under distinct keys of a map are as many as the map has only if every key is
among them; and those that meet a condition, only if all of them do as well. -/
theorem countP_eq_length_iff {W : Type} {m : SortedMap K V} {es : List (K × W)}
    (hnd : (es.map Prod.fst).Nodup) (hsub : ∀ e ∈ es, (m.get e.1).isSome = true) (p : K × W → Bool) :
    es.countP p = m.entries.length ↔
      (∀ e ∈ es, p e = true) ∧ ∀ k, (m.get k).isSome = true → k ∈ es.map Prod.fst := by
  obtain ⟨hsubperm, hle⟩ := length_le_of_keys hnd hsub
  have hcount := List.countP_le_length (p := p) (l := es)
  refine ⟨?_, ?_⟩
  · intro h
    refine ⟨List.countP_eq_length.mp (by omega), ?_⟩
    intro k hk
    have hperm := hsubperm.perm_of_length_le (by rw [List.length_map, List.length_map]; omega)
    exact hperm.mem_iff.mpr (mem_keys.mpr hk)
  · intro h
    have hback : m.entries.map Prod.fst ⊆ es.map Prod.fst := fun k hk => h.2 k (mem_keys.mp hk)
    have hge := (m.keys_nodup.subperm hback).length_le
    rw [List.length_map, List.length_map] at hge
    rw [List.countP_eq_length.mpr h.1]
    omega

/-! ## Ranging over a map -/

/-- An order in which a loop visits the entries of a map. -/
structure RangeOrder (K V : Type) [LinearOrder K] where
  range : SortedMap K V → List (K × V)
  perm : ∀ m, (range m).Perm m.entries

/-- The order of the keys. -/
def RangeOrder.byKey : RangeOrder K V := ⟨entries, fun _ => .refl _⟩

variable {ord : RangeOrder K V} {m : SortedMap K V}

theorem RangeOrder.mem_range {e : K × V} : e ∈ ord.range m ↔ m.get e.1 = some e.2 := by
  rw [(ord.perm m).mem_iff, get_eq_some]

theorem RangeOrder.keys_nodup : ((ord.range m).map Prod.fst).Nodup :=
  ((ord.perm m).map Prod.fst).nodup_iff.mpr m.keys_nodup

/-- Every arrangement of the entries is what some order makes of the map. -/
theorem RangeOrder.exists_range {l : List (K × V)} (h : l.Perm m.entries) :
    ∃ ord : RangeOrder K V, ord.range m = l := by
  classical
  refine ⟨⟨fun x => if x = m then l else x.entries, ?_⟩, if_pos rfl⟩
  intro x
  split_ifs with hx
  · exact hx ▸ h
  · exact .refl _

/-- Two entries that a loop visits under one key are one. -/
theorem RangeOrder.eq_of_key {e e' : K × V} (he : e ∈ ord.range m) (he' : e' ∈ ord.range m)
    (hkey : e.1 = e'.1) : e = e' := by
  have hget := mem_range.mp he
  rw [hkey, mem_range.mp he'] at hget
  exact Prod.ext hkey (Option.some.inj hget).symm

theorem RangeOrder.find_range (k : K) : find k (ord.range m) = m.get k :=
  find_perm (ord.perm m) keys_nodup k

/-- A loop that writes once under each key. -/
theorem get_foldl_update {W : Type} (g : K × W → Option V) {es : List (K × W)}
    (hnd : (es.map Prod.fst).Nodup) (m : SortedMap K V) (k : K) :
    (es.foldl (fun m e => m.update e.1 (g e)) m).get k =
      ((find k es).map (fun w => g (k, w))).getD (m.get k) := by
  induction es generalizing m with
  | nil => rfl
  | cons e rest ih =>
    obtain ⟨hfresh, hnd⟩ := List.nodup_cons.mp hnd
    rw [List.foldl_cons, ih hnd, get_update, find]
    by_cases hk : k = e.1
    · have hnone : find k rest = none :=
        find_eq_none (fun e' he' heq => hfresh (List.mem_map.mpr ⟨e', he', heq.symm.trans hk⟩))
      rw [hnone, if_pos hk, if_pos hk, hk]
      rfl
    · rw [if_neg hk, if_neg hk]

/-- A loop that writes every entry into an empty map makes the map again. -/
theorem foldl_set_entries (m : SortedMap K V) : m.entries.foldl (fun r e => r.set e.1 e.2) empty = m := by
  apply ext_get
  intro k
  refine (get_foldl_update (fun e => some e.2) m.keys_nodup empty k).trans ?_
  show ((m.get k).map some).getD none = m.get k
  cases m.get k <;> rfl

/-- A loop that keeps some entries, in a map of its own. -/
theorem RangeOrder.foldl_filter (ord : RangeOrder K V) (p : K × V → Bool) (m : SortedMap K V) :
    (ord.range m).foldl (fun r e => if p e then r.set e.1 e.2 else r) empty = m.filter p := by
  have hnd : (((ord.range m).filter p).map Prod.fst).Nodup :=
    (List.filter_sublist.map Prod.fst).nodup keys_nodup
  rw [← List.foldl_filter]
  apply ext_get
  intro k
  refine (get_foldl_update (fun e => some e.2) hnd empty k).trans ?_
  rw [find_perm ((ord.perm m).filter p) hnd]
  show _ = find k (m.entries.filter p)
  cases find k (m.entries.filter p) <;> rfl

/-- A loop that writes each entry back, changed, changes every value. -/
theorem RangeOrder.foldl_set (ord : RangeOrder K V) (f : V → V) (m : SortedMap K V) :
    (ord.range m).foldl (fun m e => m.set e.1 (f e.2)) m = m.mapVals f := by
  apply ext_get
  intro k
  have hnd : ((ord.range m).map Prod.fst).Nodup := keys_nodup
  have hget := get_foldl_update (fun e => some (f e.2)) hnd m k
  rw [RangeOrder.find_range] at hget
  refine hget.trans ?_
  rw [get_mapVals]
  cases m.get k <;> rfl

end SortedMap
