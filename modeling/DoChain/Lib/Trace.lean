import Mathlib.Tactic

/- Runs of a system as lists of steps.

   A step is any record with a state before and a state after; a trace is a list
   of steps in which each begins where the one before it ended. A property of the
   state that every step keeps holds at the end of a trace (`Trace.invariant`) and
   around every step of it (`Trace.always`),
   and a property of the state and of the steps taken so far grows with the trace
   (`Trace.history`). A number that some of the steps move by at most `d`, and the others
   not at all, moves by at most `d` for each of them (`Trace.drift`), and what grows at each step
   by at most an allowance grows by at most their sum (`Trace.growth`). A statement about one step of a trace is proved from the trace
   up to it (`Trace.upTo`), and a trace ends where its last step does (`Trace.snoc_inv`). What
   only some steps write is at the end what the last of them wrote (`Trace.last_write`). -/

variable {σ τ : Type}

/-- Steps that lead from the first state to the last. -/
inductive Trace (before after : τ → σ) : σ → List τ → σ → Prop where
  | nil (s : σ) : Trace before after s [] s
  | cons (st : τ) {steps : List τ} {s : σ} :
      Trace before after (after st) steps s → Trace before after (before st) (st :: steps) s

namespace Trace

variable {before after : τ → σ}

/-- A trace begins where its first step does. -/
theorem cons_inv {s s' : σ} {st : τ} {steps : List τ}
    (h : Trace before after s (st :: steps) s') :
    before st = s ∧ Trace before after (after st) steps s' := by
  cases h with
  | cons _ hrest => exact ⟨rfl, hrest⟩

/-- What a step adds to the past and to the state, a trace adds as a whole. -/
theorem history {Inv : List τ → σ → Prop}
    (hstep : ∀ past st, Inv past (before st) → Inv (past ++ [st]) (after st))
    {s s' : σ} {steps : List τ} (h : Trace before after s steps s') (past : List τ)
    (hs : Inv past s) : Inv (past ++ steps) s' := by
  induction h generalizing past with
  | nil s =>
    rw [List.append_nil]
    exact hs
  | cons st _ ih =>
    have hnext := ih (past ++ [st]) (hstep past st hs)
    rw [List.append_assoc] at hnext
    exact hnext

/-- What every step keeps holds at the end. -/
theorem invariant {I : σ → Prop} {s s' : σ} {steps : List τ} (h : Trace before after s steps s')
    (hstep : ∀ st ∈ steps, I (before st) → I (after st)) (hs : I s) : I s' := by
  induction h with
  | nil s => exact hs
  | cons st _ ih =>
    exact ih (fun x hx => hstep x (List.mem_cons_of_mem st hx)) (hstep st List.mem_cons_self hs)

/-- What every step keeps holds around each step. -/
theorem always {I : σ → Prop} {s s' : σ} {steps : List τ} (h : Trace before after s steps s')
    (hstep : ∀ st ∈ steps, I (before st) → I (after st)) (hs : I s) :
    ∀ st ∈ steps, I (before st) ∧ I (after st) := by
  induction h with
  | nil s => simp
  | cons st _ ih =>
    have hnext := hstep st List.mem_cons_self hs
    intro x hx
    cases List.mem_cons.mp hx with
    | inl heq => exact heq ▸ ⟨hs, hnext⟩
    | inr hx => exact ih (fun y hy => hstep y (List.mem_cons_of_mem st hy)) hnext x hx

/-- A number moves along a trace by at most `d` for each step that moves it. -/
theorem drift {I : σ → Prop} {f : σ → Int} {p : τ → Bool} {d : Int} {s s' : σ} {steps : List τ}
    (h : Trace before after s steps s')
    (hstep : ∀ st ∈ steps, I (before st) →
      I (after st) ∧ |f (after st) - f (before st)| ≤ if p st then d else 0) (hs : I s) :
    |f s' - f s| ≤ steps.countP p * d := by
  induction h with
  | nil s => simp
  | @cons st steps s' _ ih =>
    obtain ⟨hnext, hmove⟩ := hstep st List.mem_cons_self hs
    have hrest := ih (fun x hx => hstep x (List.mem_cons_of_mem st hx)) hnext
    calc |f s' - f (before st)|
        = |(f s' - f (after st)) + (f (after st) - f (before st))| := by rw [sub_add_sub_cancel]
      _ ≤ |f s' - f (after st)| + |f (after st) - f (before st)| := abs_add_le _ _
      _ ≤ steps.countP p * d + if p st then d else 0 := add_le_add hrest hmove
      _ = (st :: steps).countP p * d := by
        rw [List.countP_cons]
        split_ifs <;> push_cast <;> ring

/-- What grows at each step by at most an allowance of the step grows by at most their sum. -/
theorem growth {M : Type} [AddCommMonoid M] [PartialOrder M] [IsOrderedAddMonoid M] {I : σ → Prop}
    {f : σ → M} {allowance : τ → M} {s s' : σ} {steps : List τ} (h : Trace before after s steps s')
    (hstep : ∀ st ∈ steps, I (before st) →
      I (after st) ∧ f (after st) ≤ f (before st) + allowance st) (hs : I s) :
    f s' ≤ f s + (steps.map allowance).sum := by
  induction h with
  | nil s => simp
  | @cons st steps s' _ ih =>
    obtain ⟨hnext, hgrows⟩ := hstep st List.mem_cons_self hs
    have hrest := ih (fun x hx => hstep x (List.mem_cons_of_mem st hx)) hnext
    calc f s' ≤ f (after st) + (steps.map allowance).sum := hrest
      _ ≤ f (before st) + allowance st + (steps.map allowance).sum := add_le_add_left hgrows _
      _ = f (before st) + ((st :: steps).map allowance).sum := by
        rw [List.map_cons, List.sum_cons, add_assoc]

/-- A step of a trace begins in a state that the steps before it lead to. -/
theorem upTo {s s' : σ} {past rest : List τ} {st : τ}
    (h : Trace before after s (past ++ st :: rest) s') : Trace before after s past (before st) := by
  induction past generalizing s with
  | nil =>
    obtain ⟨rfl, _⟩ := h.cons_inv
    exact .nil _
  | cons x past ih =>
    obtain ⟨rfl, hrest⟩ := h.cons_inv
    exact .cons x (ih hrest)

/-- What some of the steps write, and the others leave, is at the end what the last of them
wrote, or what it was at the beginning. -/
theorem last_write {V : Type} {s s' : σ} {steps : List τ} (h : Trace before after s steps s')
    (read : σ → V) (writes : τ → Option V)
    (hstep : ∀ st ∈ steps, read (after st) = (writes st).getD (read (before st))) :
    (∃ past st rest, steps = past ++ st :: rest ∧ writes st = some (read s') ∧ ∀ x ∈ rest, writes x = none) ∨
      ((∀ x ∈ steps, writes x = none) ∧ read s' = read s) := by
  induction h with
  | nil s => exact .inr ⟨by simp, rfl⟩
  | @cons st steps s' _ ih =>
    rcases ih (fun x hx => hstep x (List.mem_cons_of_mem st hx)) with
      ⟨past, x, rest, rfl, hx, hrest⟩ | ⟨hnone, hread⟩
    · exact .inl ⟨st :: past, x, rest, rfl, hx, hrest⟩
    · have hfirst := hstep st List.mem_cons_self
      cases hwrites : writes st with
      | none =>
        rw [hwrites] at hfirst
        refine .inr ⟨?_, hread.trans hfirst⟩
        intro x hx
        exact (List.mem_cons.mp hx).elim (fun heq => heq ▸ hwrites) (hnone x)
      | some v =>
        rw [hwrites] at hfirst
        exact .inl ⟨[], st, steps, rfl, by rw [hwrites, hread, hfirst]; rfl, hnone⟩

theorem nil_inv {s s' : σ} (h : Trace before after s [] s') : s' = s := by
  cases h with
  | nil _ => rfl

/-- A trace ends where its last step does. -/
theorem snoc_inv {s s' : σ} {past : List τ} {st : τ} (h : Trace before after s (past ++ [st]) s') :
    Trace before after s past (before st) ∧ s' = after st := by
  refine ⟨h.upTo, ?_⟩
  induction past generalizing s with
  | nil => exact h.cons_inv.2.nil_inv
  | cons x past ih => exact ih h.cons_inv.2

end Trace
