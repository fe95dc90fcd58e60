import DoChain.Lib.SortedMap

/- Moving the entries of a map to other keys, in place.

   `rekey` writes entries under new keys and deletes them under their old ones, one
   after another, as a migration of a store does. Where the new keys are free and
   distinct nothing is overwritten (`get_rekey`).

   Several passes over one map are followed with a family of entries: `Holds m src key`
   says that the map holds the value of each member under its current key, and nothing
   else. A pass changes only the keys (`Holds.rekey`). -/

namespace SortedMap

variable {K V : Type} [LinearOrder K]

/-- Entries are written under new keys and deleted under their old ones. -/
def rekey (newKey : K → K) (es : List (K × V)) (m : SortedMap K V) : SortedMap K V :=
  es.foldl (fun m e => (m.set (newKey e.1) e.2).erase e.1) m

theorem rekey_eq_patch (newKey : K → K) (es : List (K × V)) (m : SortedMap K V) :
    rekey newKey es m = m.patch (es.flatMap (fun e => [(newKey e.1, some e.2), (e.1, none)])) := by
  induction es generalizing m with
  | nil => rfl
  | cons e rest ih =>
    rw [List.flatMap_cons, List.cons_append, List.cons_append, List.nil_append, patch, patch]
    exact ih _

omit [LinearOrder K] in
/-- Where no new key is an old one, every key is written once. -/
theorem rekey_writes_nodup {newKey : K → K} {es : List (K × V)} (hnd : (es.map Prod.fst).Nodup)
    (hinj : ∀ e ∈ es, ∀ e' ∈ es, newKey e.1 = newKey e'.1 → e.1 = e'.1)
    (hother : ∀ e ∈ es, ∀ e' ∈ es, newKey e.1 ≠ e'.1) :
    ((es.flatMap (fun e => [(newKey e.1, some e.2), (e.1, none)])).map Prod.fst).Nodup := by
  rw [List.map_flatMap]
  refine List.nodup_flatMap.mpr ⟨?_, ?_⟩
  · intro e he
    simpa using hother e he e he
  · refine (List.pairwise_map.mp hnd).imp_of_mem ?_
    intro e e' he he' hne
    have hnew : newKey e'.1 ≠ newKey e.1 := fun heq => hne (hinj e' he' e he heq).symm
    simp [hnew, hother e' he' e he, (hother e he e' he').symm, hne.symm]

/-- Entries whose new keys are free and distinct are found under them, and the others
where they were. -/
theorem get_rekey {newKey : K → K} {es : List (K × V)} {m : SortedMap K V}
    (hnd : (es.map Prod.fst).Nodup) (hin : ∀ e ∈ es, m.get e.1 = some e.2)
    (hinj : ∀ e ∈ es, ∀ e' ∈ es, newKey e.1 = newKey e'.1 → e.1 = e'.1)
    (hfree : ∀ e ∈ es, m.get (newKey e.1) = none) {k : K} {v : V} :
    (rekey newKey es m).get k = some v ↔
      (m.get k = some v ∧ k ∉ es.map Prod.fst) ∨ ∃ e ∈ es, newKey e.1 = k ∧ e.2 = v := by
  -- a new key is no old one
  have hother : ∀ e ∈ es, ∀ e' ∈ es, newKey e.1 ≠ e'.1 := by
    intro e he e' he' heq
    have hget := hfree e he
    rw [heq, hin e' he'] at hget
    cases hget
  have hkeys := rekey_writes_nodup hnd hinj hother
  rw [rekey_eq_patch]
  by_cases hmem : k ∈ (es.flatMap (fun e => [(newKey e.1, some e.2), (e.1, (none : Option V))])).map Prod.fst
  · obtain ⟨u, hu, rfl⟩ := List.mem_map.mp hmem
    rw [get_patch_of_mem hkeys hu]
    obtain ⟨e, he, hu⟩ := List.mem_flatMap.mp hu
    rcases List.mem_cons.mp hu with rfl | hu
    · -- a new key
      refine ⟨?_, ?_⟩
      · intro hv
        exact .inr ⟨e, he, rfl, Option.some.inj hv⟩
      · intro h
        rcases h with ⟨hget, _⟩ | ⟨e', he', heq, rfl⟩
        · rw [hfree e he] at hget
          cases hget
        · have hval := hin e' he'
          rw [hinj e' he' e he heq, hin e he] at hval
          exact hval
    · -- an old key
      obtain rfl := List.mem_singleton.mp hu
      refine ⟨?_, ?_⟩
      · intro hv
        cases hv
      · intro h
        rcases h with ⟨_, hnot⟩ | ⟨e', he', heq, _⟩
        · exact absurd (List.mem_map.mpr ⟨e, he, rfl⟩) hnot
        · exact absurd heq (hother e' he' e he)
  · rw [get_patch_of_notMem hmem]
    have hold : k ∉ es.map Prod.fst := by
      intro hk
      obtain ⟨e, he, rfl⟩ := List.mem_map.mp hk
      exact hmem (List.mem_map.mpr ⟨(e.1, none), List.mem_flatMap.mpr ⟨e, he, by simp⟩, rfl⟩)
    refine ⟨fun hget => .inl ⟨hget, hold⟩, ?_⟩
    intro h
    rcases h with ⟨hget, _⟩ | ⟨e, he, rfl, _⟩
    · exact hget
    · exact absurd (List.mem_map.mpr ⟨(newKey e.1, some e.2), List.mem_flatMap.mpr ⟨e, he, by simp⟩, rfl⟩) hmem

/-! ## Families of entries -/

variable {ι : Type}

/-- The map holds the value of each member of a family under its key, and nothing
else. -/
def Holds (m : SortedMap K V) (src : ι → Option V) (key : ι → K) : Prop :=
  ∀ k v, m.get k = some v ↔ ∃ i, src i = some v ∧ key i = k

section Holds

variable {m : SortedMap K V} {src : ι → Option V} {key : ι → K}

theorem Holds.get (h : Holds m src key) {i : ι} {v : V} (hi : src i = some v) : m.get (key i) = some v :=
  (h _ _).mpr ⟨i, hi, rfl⟩

theorem Holds.free (h : Holds m src key) {k : K} (hk : ∀ i, (src i).isSome = true → key i ≠ k) :
    m.get k = none := by
  cases hget : m.get k with
  | none => rfl
  | some v =>
    obtain ⟨i, hi, heq⟩ := (h k v).mp hget
    exact absurd heq (hk i (by rw [hi]; rfl))

/-- Only the keys of members with a value count. -/
theorem Holds.congr (h : Holds m src key) {key' : ι → K}
    (hkey : ∀ i, (src i).isSome = true → key i = key' i) : Holds m src key' := by
  intro k v
  rw [h k v]
  apply exists_congr
  intro i
  apply and_congr_right
  intro hi
  rw [hkey i (by rw [hi]; rfl)]

/-- A member without a value gets one under its key, if that is free. -/
theorem Holds.set [DecidableEq ι] (h : Holds m src key) {i : ι} (hfree : m.get (key i) = none) (v : V) :
    Holds (m.set (key i) v) (Function.update src i (some v)) key := by
  -- other members have other keys
  have hother : ∀ j w, src j = some w → key j ≠ key i := by
    intro j w hj heq
    have hget := h.get hj
    rw [heq, hfree] at hget
    cases hget
  intro k w
  rw [SortedMap.get_set]
  split_ifs with hk
  · subst hk
    refine ⟨fun hv => ⟨i, by rw [Function.update_self, hv], rfl⟩, ?_⟩
    intro hex
    obtain ⟨j, hj, heq⟩ := hex
    by_cases hij : j = i
    · subst hij
      rw [Function.update_self] at hj
      exact hj
    · rw [Function.update_of_ne hij] at hj
      exact absurd heq (hother j w hj)
  · rw [h k w]
    apply exists_congr
    intro j
    by_cases hij : j = i
    · subst hij
      refine ⟨?_, fun hex => absurd hex.2.symm hk⟩
      intro hex
      exact absurd hex.2.symm hk
    · rw [Function.update_of_ne hij]

/-- A pass over the entries whose keys meet a condition moves these. -/
theorem Holds.rekey (h : Holds m src key) (p : K → Bool) (newKey : K → K) {es : List (K × V)}
    (hes : ∀ e, e ∈ es ↔ m.get e.1 = some e.2 ∧ p e.1 = true) (hnd : (es.map Prod.fst).Nodup)
    (hinj : ∀ i j, (src i).isSome = true → (src j).isSome = true → p (key i) = true → p (key j) = true →
      newKey (key i) = newKey (key j) → key i = key j)
    (hfree : ∀ i j, (src i).isSome = true → (src j).isSome = true → p (key i) = true →
      key j ≠ newKey (key i)) :
    Holds (rekey newKey es m) src (fun i => if p (key i) = true then newKey (key i) else key i) := by
  -- an entry of the pass is a member
  have hmember : ∀ e ∈ es, ∃ i, src i = some e.2 ∧ key i = e.1 ∧ p (key i) = true := by
    intro e he
    obtain ⟨hget, hp⟩ := (hes e).mp he
    obtain ⟨i, hi, heq⟩ := (h _ _).mp hget
    exact ⟨i, hi, heq, heq ▸ hp⟩
  have hmem : ∀ i v, src i = some v → p (key i) = true → (key i, v) ∈ es :=
    fun i v hi hp => (hes _).mpr ⟨h.get hi, hp⟩
  intro k v
  rw [get_rekey hnd (fun e he => ((hes e).mp he).1)]
  · refine ⟨?_, ?_⟩
    · intro hcase
      rcases hcase with ⟨hget, hnot⟩ | ⟨e, he, rfl, rfl⟩
      · obtain ⟨i, hi, rfl⟩ := (h k v).mp hget
        have hp : p (key i) ≠ true := fun hp => hnot (List.mem_map.mpr ⟨_, hmem i v hi hp, rfl⟩)
        exact ⟨i, hi, if_neg hp⟩
      · obtain ⟨i, hi, heq, hp⟩ := hmember e he
        exact ⟨i, hi, (if_pos hp).trans (congrArg newKey heq)⟩
    · intro hcase
      obtain ⟨i, hi, heq⟩ := hcase
      dsimp only at heq
      split_ifs at heq with hp
      · exact .inr ⟨(key i, v), hmem i v hi hp, heq, rfl⟩
      · subst heq
        refine .inl ⟨h.get hi, ?_⟩
        intro hk
        obtain ⟨e, he, heq⟩ := List.mem_map.mp hk
        exact hp (heq ▸ ((hes e).mp he).2)
  · intro e he e' he' heq
    obtain ⟨i, hi, hkey, hp⟩ := hmember e he
    obtain ⟨j, hj, hkey', hp'⟩ := hmember e' he'
    rw [← hkey, ← hkey'] at heq ⊢
    exact hinj i j (by rw [hi]; rfl) (by rw [hj]; rfl) hp hp' heq
  · intro e he
    obtain ⟨i, hi, hkey, hp⟩ := hmember e he
    rw [← hkey]
    exact h.free (fun j hj => hfree i j (by rw [hi]; rfl) hj hp)

end Holds

end SortedMap
