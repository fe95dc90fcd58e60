import Mathlib.Data.List.DropRight
import Mathlib.Tactic

/- Lists without the elements at both ends that satisfy a predicate, and where an element stands
   in a list of several parts. -/

namespace Trim

variable {α : Type} (p : α → Bool)

def trim (l : List α) : List α := (l.dropWhile p).rdropWhile p

variable {p} {l lead trail : List α}

theorem rdropWhile_append (h : ∀ x ∈ trail, p x = true) : (l ++ trail).rdropWhile p = l.rdropWhile p := by
  have hdrop : trail.reverse.dropWhile p = [] :=
    List.dropWhile_eq_nil_iff.mpr fun x hx => h x (List.mem_reverse.mp hx)
  rw [List.rdropWhile, List.rdropWhile, List.reverse_append, List.dropWhile_append, hdrop, List.isEmpty_nil,
    if_pos rfl]

theorem trim_append (hlead : ∀ x ∈ lead, p x = true) (htrail : ∀ x ∈ trail, p x = true) :
    trim p (lead ++ l ++ trail) = trim p l := by
  have hdrop : lead.dropWhile p = [] := List.dropWhile_eq_nil_iff.mpr hlead
  rw [trim, List.append_assoc, List.dropWhile_append, hdrop, List.isEmpty_nil, if_pos rfl, List.dropWhile_append,
    trim]
  cases hl : l.dropWhile p with
  | nil =>
    rw [List.isEmpty_nil, if_pos rfl, List.dropWhile_eq_nil_iff.mpr htrail]
  | cons x rest =>
    rw [List.isEmpty_cons, if_neg Bool.false_ne_true, rdropWhile_append htrail]

theorem exists_trim (p : α → Bool) (l : List α) :
    ∃ lead trail, l = lead ++ trim p l ++ trail ∧ (∀ x ∈ lead, p x = true) ∧ ∀ x ∈ trail, p x = true := by
  refine ⟨l.takeWhile p, (l.dropWhile p).rtakeWhile p, ?_, fun x hx => List.mem_takeWhile_imp hx,
    fun x hx => List.mem_rtakeWhile_imp hx⟩
  rw [List.append_assoc, trim, List.rdropWhile_append_rtakeWhile, List.takeWhile_append_dropWhile]

theorem trim_trim (l : List α) : trim p (trim p l) = trim p l := by
  obtain ⟨lead, trail, heq, hlead, htrail⟩ := exists_trim p l
  have h : trim p (lead ++ trim p l ++ trail) = trim p (trim p l) := trim_append hlead htrail
  rw [← heq] at h
  exact h.symm

theorem trim_eq_self (h : ∀ x ∈ l, p x = false) : trim p l = l := by
  have hdrop : l.dropWhile p = l := by
    refine List.dropWhile_eq_self_iff.mpr fun hl => ?_
    rw [h _ (List.getElem_mem hl)]
    exact Bool.false_ne_true
  rw [trim, hdrop]
  refine List.rdropWhile_eq_self_iff.mpr fun hl => ?_
  rw [h _ (List.getLast_mem hl)]
  exact Bool.false_ne_true

theorem trim_append_right (hl : ∀ x ∈ l, p x = false) (htrail : ∀ x ∈ trail, p x = true) :
    trim p (l ++ trail) = l := by
  have hnil : ∀ x ∈ ([] : List α), p x = true := fun x hx => absurd hx List.not_mem_nil
  calc
    trim p (l ++ trail) = trim p ([] ++ l ++ trail) := rfl
    _ = trim p l := trim_append hnil htrail
    _ = l := trim_eq_self hl

/-- The first of several fields, of a list and of the trimmed list. -/
theorem trim_takeWhile_trim {q : α → Bool} (hq : ∀ x, p x = true → q x = true) (l : List α) :
    trim p ((trim p l).takeWhile q) = trim p (l.takeWhile q) := by
  obtain ⟨lead, trail, heq, hlead, htrail⟩ := exists_trim p l
  have hskip : l.takeWhile q = lead ++ (trim p l ++ trail).takeWhile q := by
    conv_lhs => rw [heq, List.append_assoc]
    exact List.takeWhile_append_of_pos fun x hx => hq x (hlead x hx)
  rw [hskip, List.takeWhile_append]
  split_ifs with hall
  · -- one field: the blanks behind it are of the field
    have htail : trail.takeWhile q = trail := List.takeWhile_eq_self_iff.mpr fun x hx => hq x (htrail x hx)
    have hself : (trim p l).takeWhile q = trim p l := (List.takeWhile_prefix q).eq_of_length hall
    rw [htail, hself, ← List.append_assoc, trim_append hlead htrail]
  · have hnil : ∀ x ∈ ([] : List α), p x = true := fun x hx => absurd hx List.not_mem_nil
    have h : trim p (lead ++ (trim p l).takeWhile q ++ []) = trim p ((trim p l).takeWhile q) :=
      trim_append hlead hnil
    rw [List.append_nil] at h
    exact h.symm

/-- An element that is neither in the first nor in the last part splits the middle one. -/
theorem split_middle {c : α} {mid before after : List α} (hlead : c ∉ lead) (htrail : c ∉ trail)
    (h : lead ++ (mid ++ trail) = before ++ c :: after) :
    ∃ left right, before = lead ++ left ∧ mid = left ++ c :: right ∧ after = right ++ trail := by
  have hleft : ∃ left, before = lead ++ left ∧ mid ++ trail = left ++ c :: after := by
    rcases List.append_eq_append_iff.mp h with h | ⟨rest, hrest, hafter⟩
    · exact h
    · cases rest with
      | nil => exact ⟨[], by simpa using hrest.symm, by simpa using hafter.symm⟩
      | cons x rest =>
        have hx : c = x := (List.cons.inj hafter).1
        exact absurd (by simp [hrest, hx]) hlead
  obtain ⟨left, hbefore, hrest⟩ := hleft
  rcases List.append_eq_append_iff.mp hrest with ⟨right, _, hmid⟩ | ⟨right, hmid, hafter⟩
  · exact absurd (by simp [hmid]) htrail
  · cases right with
    | nil => exact absurd (by simp [← show c :: after = trail from hafter]) htrail
    | cons x right =>
      obtain ⟨hx, hafter⟩ := List.cons.inj hafter
      exact ⟨left, right, hbefore, hx ▸ hmid, hafter⟩

end Trim
