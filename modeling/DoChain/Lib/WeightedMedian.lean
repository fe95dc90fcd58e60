import Mathlib.Algebra.Order.BigOperators.Group.List
import Mathlib.Data.Finset.Max
import Mathlib.Order.Bounds.Basic
import Mathlib.Tactic

/- Weighted medians.

   The elements of a list have a rate, in a linear order, and a weight. The median of
   the list for a part of its weight is the least rate such that the elements up to it
   have that part. `reach` finds it in a list sorted by rate, in one pass with a running
   sum (`reach_isMedian`).

   What the median satisfies can be read off the weights: a property that passes to
   lower rates holds of the median exactly if the elements with the property have the
   part (`IsMedian.lower_iff`). The order of the list does not matter there. -/

namespace WeightedMedian

variable {α K : Type*} (w : α → Int)

/-- The weight of the elements with a property. -/
def weight (p : α → Prop) [DecidablePred p] (l : List α) : Int :=
  ((l.filter (fun x => decide (p x))).map w).sum

/-- The first element at which the running sum has the part. -/
def reach (part : Int) : Int → List α → Option α
  | _, [] => none
  | pivot, x :: rest =>
    if part ≤ pivot + w x then some x else reach part (pivot + w x) rest

section Weights

variable {w} {p q : α → Prop} [DecidablePred p] [DecidablePred q]

theorem weight_cons (x : α) (l : List α) :
    weight w p (x :: l) = (if p x then w x else 0) + weight w p l := by
  unfold weight
  by_cases hx : p x <;> simp [hx]

theorem weight_nonneg {l : List α} (hw : ∀ x ∈ l, 0 ≤ w x) : 0 ≤ weight w p l := by
  apply List.sum_nonneg
  intro n hn
  obtain ⟨x, hx, rfl⟩ := List.mem_map.mp hn
  exact hw x (List.mem_filter.mp hx).1

theorem weight_mono {l : List α} (hw : ∀ x ∈ l, 0 ≤ w x) (h : ∀ x ∈ l, p x → q x) :
    weight w p l ≤ weight w q l := by
  induction l with
  | nil => exact Int.le_refl 0
  | cons x rest ih =>
    have hrest := ih (fun y hy => hw y (List.mem_cons_of_mem x hy))
      (fun y hy => h y (List.mem_cons_of_mem x hy))
    have hx := hw x List.mem_cons_self
    have hpq := h x List.mem_cons_self
    rw [weight_cons, weight_cons]
    split_ifs with hp hq hq
    · omega
    · exact absurd (hpq hp) hq
    · omega
    · omega

theorem weight_eq_zero {l : List α} (h : ∀ x ∈ l, ¬ p x) : weight w p l = 0 := by
  unfold weight
  rw [List.filter_eq_nil_iff.mpr (fun x hx => by simpa using h x hx)]
  rfl

theorem weight_perm {l l' : List α} (h : l.Perm l') : weight w p l = weight w p l' :=
  ((h.filter _).map w).sum_eq

theorem weight_add_not (l : List α) : weight w p l + weight w (fun x => ¬ p x) l = (l.map w).sum := by
  induction l with
  | nil => rfl
  | cons x rest ih =>
    rw [weight_cons, weight_cons, List.map_cons, List.sum_cons, ← ih]
    split_ifs <;> omega

/-- Elements may be changed where that does not change the property. -/
theorem weight_map_le {f : α → α} (hf : ∀ x, p (f x) ↔ p x) {l : List α} (h : ∀ x ∈ l, p x → w (f x) ≤ w x) :
    weight w p (l.map f) ≤ weight w p l := by
  induction l with
  | nil => exact Int.le_refl 0
  | cons x rest ih =>
    have hrest := ih (fun y hy => h y (List.mem_cons_of_mem x hy))
    have hx := h x List.mem_cons_self
    rw [List.map_cons, weight_cons, weight_cons, if_congr (hf x) rfl rfl]
    split_ifs with hp
    · have hle := hx hp
      omega
    · omega

theorem weight_map_eq {f : α → α} (hf : ∀ x, p (f x) ↔ p x) {l : List α} (h : ∀ x ∈ l, p x → w (f x) = w x) :
    weight w p (l.map f) = weight w p l := by
  induction l with
  | nil => rfl
  | cons x rest ih =>
    have hx := h x List.mem_cons_self
    rw [List.map_cons, weight_cons, weight_cons, if_congr (hf x) rfl rfl,
      ih (fun y hy => h y (List.mem_cons_of_mem x hy))]
    split_ifs with hp
    · rw [hx hp]
    · rfl

theorem exists_of_weight_pos {l : List α} (h : 0 < weight w p l) : ∃ x ∈ l, p x := by
  by_contra hnone
  have hzero := weight_eq_zero (w := w) (fun x hx hp => hnone ⟨x, hx, hp⟩)
  omega

end Weights

variable [LinearOrder K] (rate : α → K)

/-- The least rate of an element up to which the elements have the part. -/
def IsMedian (part : Int) (l : List α) (r : K) : Prop :=
  IsLeast {s | s ∈ l.map rate ∧ part ≤ weight w (fun x => rate x ≤ s) l} r

section Median

variable {w} {rate} {part : Int} {l : List α}

theorem reach_eq_none {pivot : Int} (h : reach w part pivot l = none) :
    l = [] ∨ pivot + (l.map w).sum < part := by
  induction l generalizing pivot with
  | nil => exact .inl rfl
  | cons x rest ih =>
    rw [reach] at h
    split_ifs at h with hx
    refine .inr ?_
    rw [List.map_cons, List.sum_cons]
    cases ih h with
    | inl hnil =>
      rw [hnil, List.map_nil, List.sum_nil]
      omega
    | inr hlt => omega

/-- Where the running sum stops, from any point of a sorted list on. -/
theorem reach_spec {pivot : Int} {x : α} (hw : ∀ y ∈ l, 0 ≤ w y)
    (hsorted : l.Pairwise (fun y z => rate y ≤ rate z)) (h : reach w part pivot l = some x) :
    x ∈ l ∧ part ≤ pivot + weight w (fun y => rate y ≤ rate x) l ∧
      ∀ s, s < rate x → (∃ y ∈ l, rate y ≤ s) →
        pivot + weight w (fun y => rate y ≤ s) l < part := by
  induction l generalizing pivot with
  | nil => cases h
  | cons a rest ih =>
    obtain ⟨hfirst, hsorted⟩ := List.pairwise_cons.mp hsorted
    have hrest : ∀ y ∈ rest, 0 ≤ w y := fun y hy => hw y (List.mem_cons_of_mem a hy)
    rw [reach] at h
    split_ifs at h with ha
    · -- it stops at the first element, and none is below it
      obtain rfl : a = x := Option.some.inj h
      refine ⟨List.mem_cons_self, ?_, ?_⟩
      · have hnonneg := weight_nonneg (p := fun y => rate y ≤ rate a) hrest
        rw [weight_cons, if_pos le_rfl]
        omega
      · intro s hs hex
        obtain ⟨y, hy, hys⟩ := hex
        cases List.mem_cons.mp hy with
        | inl heq => exact absurd (heq ▸ hys) (not_le.mpr hs)
        | inr hy => exact absurd (le_trans (hfirst y hy) hys) (not_le.mpr hs)
    · obtain ⟨hx, hreached, hbelow⟩ := ih hrest hsorted h
      refine ⟨List.mem_cons_of_mem a hx, ?_, ?_⟩
      · rw [weight_cons, if_pos (hfirst x hx)]
        omega
      · intro s hs hex
        rw [weight_cons]
        by_cases hle : rate a ≤ s
        · rw [if_pos hle]
          by_cases hmore : ∃ y ∈ rest, rate y ≤ s
          · have hlt := hbelow s hs hmore
            omega
          · rw [weight_eq_zero (fun y hy hys => hmore ⟨y, hy, hys⟩)]
            omega
        · -- the first element is above it, so all are
          obtain ⟨y, hy, hys⟩ := hex
          cases List.mem_cons.mp hy with
          | inl heq => exact absurd (heq ▸ hys) hle
          | inr hy => exact absurd (le_trans (hfirst y hy) hys) hle

theorem reach_isMedian {x : α} (hw : ∀ y ∈ l, 0 ≤ w y)
    (hsorted : l.Pairwise (fun y z => rate y ≤ rate z)) (h : reach w part 0 l = some x) :
    IsMedian w rate part l (rate x) := by
  obtain ⟨hx, hreached, hbelow⟩ := reach_spec hw hsorted h
  refine ⟨⟨List.mem_map_of_mem hx, by omega⟩, ?_⟩
  intro s hs
  obtain ⟨hmem, hpart⟩ := hs
  obtain ⟨y, hy, rfl⟩ := List.mem_map.mp hmem
  by_contra hlt
  have hless := hbelow (rate y) (not_le.mp hlt) ⟨y, hy, le_rfl⟩
  omega

/-- A property of rates that passes to lower ones holds of the median exactly if some
element has it, and those that have it have the part. -/
theorem IsMedian.lower_iff {r : K} {q : K → Prop} [DecidablePred q]
    (h : IsMedian w rate part l r) (hw : ∀ x ∈ l, 0 ≤ w x)
    (hq : ∀ s t, s ≤ t → q t → q s) :
    q r ↔ (∃ x ∈ l, q (rate x)) ∧ part ≤ weight w (fun x => q (rate x)) l := by
  obtain ⟨⟨hmem, hpart⟩, hleast⟩ := h
  refine ⟨?_, ?_⟩
  · intro hr
    obtain ⟨x, hx, rfl⟩ := List.mem_map.mp hmem
    refine ⟨⟨x, hx, hr⟩, ?_⟩
    exact le_trans hpart (weight_mono hw (fun y _ hy => hq _ _ hy hr))
  · intro hlow
    obtain ⟨⟨x, hx, hqx⟩, hweight⟩ := hlow
    -- the largest rate with the property has the part, so the median is no larger
    have hne : ((l.filter (fun y => decide (q (rate y))) : List α) : Multiset α) ≠ 0 := by
      intro hnil
      have hmem : x ∈ l.filter (fun y => decide (q (rate y))) :=
        List.mem_filter.mpr ⟨hx, decide_eq_true hqx⟩
      rw [← Multiset.mem_coe, hnil] at hmem
      exact Multiset.notMem_zero x hmem
    obtain ⟨m, hm, hmax⟩ := Multiset.exists_max_image rate hne
    obtain ⟨hml, hqm⟩ := List.mem_filter.mp (Multiset.mem_coe.mp hm)
    apply hq r (rate m) _ (of_decide_eq_true hqm)
    apply hleast
    refine ⟨List.mem_map_of_mem hml, le_trans hweight (weight_mono hw ?_)⟩
    intro y hy hqy
    exact hmax y (List.mem_filter.mpr ⟨hy, decide_eq_true hqy⟩)

/-- Elements that have the part between two bounds keep the median there, if the others
do not have the part. -/
theorem IsMedian.within {low high r : K} (h : IsMedian w rate part l r) (good : α → Prop) [DecidablePred good]
    (hw : ∀ x ∈ l, 0 ≤ w x)
    (hgood : ∀ x ∈ l, good x → low ≤ rate x ∧ rate x ≤ high)
    (hothers : weight w (fun x => ¬ good x) l < part) (hpart : part ≤ weight w good l) :
    low ≤ r ∧ r ≤ high := by
  refine ⟨?_, ?_⟩
  · by_contra hlt
    -- what is below is not good
    have hbelow := ((h.lower_iff (q := fun s => s < low) hw (fun _ _ => lt_of_le_of_lt)).mp (not_le.mp hlt)).2
    have hmono : weight w (fun x => rate x < low) l ≤ weight w (fun x => ¬ good x) l :=
      weight_mono hw (fun x hx hlow hg => absurd (hgood x hx hg).1 (not_le.mpr hlow))
    omega
  · have hnonneg := weight_nonneg (p := fun x => ¬ good x) hw
    obtain ⟨x, hx, hg⟩ := exists_of_weight_pos (by omega : 0 < weight w good l)
    apply (h.lower_iff (q := fun s => s ≤ high) hw (fun _ _ => le_trans)).mpr
    refine ⟨⟨x, hx, (hgood x hx hg).2⟩, ?_⟩
    exact le_trans hpart (weight_mono hw (fun y hy hg => (hgood y hy hg).2))

end Median

end WeightedMedian
