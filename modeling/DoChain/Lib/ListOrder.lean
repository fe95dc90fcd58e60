import Mathlib.Data.List.Lex
import Mathlib.Tactic

/- The lexicographic order of lists, and prefixes.

   Two lists that begin alike are ordered by what follows (`append_lt_append_iff`), a
   prefix comes first (`le_append`), and what lies between two lists with a common
   prefix has it as well (`isPrefix_of_between`). So a range of keys whose bounds
   share a prefix is a range of the keys behind it.

   In a list that is sorted by a key, pairs in the order of the list are pairs in the
   order of their keys (`pairwise_iff_of_sorted`). -/

namespace ListOrder

variable {α : Type} [LinearOrder α] {a b : α} {p s e x y : List α}

theorem cons_le_cons_iff : a :: x ≤ b :: y ↔ a < b ∨ a = b ∧ x ≤ y := by
  rw [← not_lt, List.cons_lt_cons_iff, ← not_lt]
  rcases lt_trichotomy a b with hlt | rfl | hgt
  · simp [hlt, hlt.not_gt, hlt.ne']
  · simp
  · simp [hgt, hgt.not_gt, hgt.ne']

theorem not_cons_le_nil : ¬ a :: x ≤ [] := by
  rw [not_le]
  exact List.nil_lt_cons a x

theorem append_lt_append_iff : p ++ x < p ++ y ↔ x < y := by
  induction p with
  | nil => rfl
  | cons c p ih =>
    rw [List.cons_append, List.cons_append, List.cons_lt_cons_iff, ih]
    simp

theorem append_le_append_iff : p ++ x ≤ p ++ y ↔ x ≤ y := by
  rw [← not_lt, ← not_lt, append_lt_append_iff]

theorem le_append : p ≤ p ++ x := by
  have hle : p ++ [] ≤ p ++ x := append_le_append_iff.mpr (not_lt.mp (List.not_lt_nil x))
  rwa [List.append_nil] at hle

/-- What lies between two lists with a common prefix has it. -/
theorem isPrefix_of_between (hlow : p ++ s ≤ x) (hhigh : x < p ++ e) : p <+: x := by
  induction p generalizing x with
  | nil => exact List.nil_prefix
  | cons c p ih =>
    cases x with
    | nil => exact absurd hlow not_cons_le_nil
    | cons d x =>
      rw [List.cons_append, cons_le_cons_iff] at hlow
      rw [List.cons_append, List.cons_lt_cons_iff] at hhigh
      rcases hlow with hlt | ⟨rfl, hlow⟩
      · rcases hhigh with hgt | ⟨rfl, _⟩
        · exact absurd hgt hlt.not_gt
        · exact absurd hlt (lt_irrefl _)
      · rcases hhigh with hgt | ⟨_, hhigh⟩
        · exact absurd hgt (lt_irrefl _)
        · exact List.cons_prefix_cons.mpr ⟨rfl, ih hlow hhigh⟩

theorem pairwise_iff_of_sorted {β : Type} {f : β → α} {R : β → β → Prop} {l : List β}
    (hsorted : l.Pairwise (fun x y => f x < f y)) :
    l.Pairwise R ↔ ∀ x ∈ l, ∀ y ∈ l, f x < f y → R x y := by
  refine ⟨?_, ?_⟩
  · intro h
    -- stated for pairs in either order, which is symmetric
    have hboth : l.Pairwise (fun x y => (f x < f y → R x y) ∧ (f y < f x → R y x)) := by
      refine (hsorted.and h).imp ?_
      intro x y hxy
      exact ⟨fun _ => hxy.2, fun hgt => absurd hgt hxy.1.not_gt⟩
    have : Std.Symm (fun x y => (f x < f y → R x y) ∧ (f y < f x → R y x)) := ⟨fun _ _ hxy => hxy.symm⟩
    have hself : ∀ x ∈ l, (f x < f x → R x x) ∧ (f x < f x → R x x) := fun x _ =>
      ⟨fun hlt => absurd hlt (lt_irrefl _), fun hlt => absurd hlt (lt_irrefl _)⟩
    intro x hx y hy
    exact (List.Pairwise.forall_of_forall hself hboth hx hy).1
  · intro h
    refine hsorted.imp_of_mem ?_
    intro x y hx hy hlt
    exact h x hx y hy hlt

end ListOrder
