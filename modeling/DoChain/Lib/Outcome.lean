import Mathlib.Tactic

/- What a call in a language with errors and panics can do.

   A call returns a value, returns an error value, or panics. `Outcome ε` is
   the monad of such calls: the first error or panic ends the rest. A
   transaction treats an error and a panic alike (both roll it back), but code
   that runs outside a transaction does not, so the two are kept apart and
   `NoPanic` is the statement that a panic is not reached. -/

/-- A call's result: a value, an error, or a panic with its text. -/
inductive Outcome (ε α : Type) where
  | ok : α → Outcome ε α
  | err : ε → Outcome ε α
  | panic : String → Outcome ε α
  deriving DecidableEq, Repr

namespace Outcome

variable {ε α β : Type}

protected def bind : Outcome ε α → (α → Outcome ε β) → Outcome ε β
  | ok a, f => f a
  | err e, _ => err e
  | panic m, _ => panic m

instance : Monad (Outcome ε) where
  pure := ok
  bind := Outcome.bind

@[simp] theorem pure_eq (a : α) : (pure a : Outcome ε α) = ok a := rfl
@[simp] theorem ok_bind (a : α) (f : α → Outcome ε β) : (ok a >>= f) = f a := rfl
@[simp] theorem err_bind (e : ε) (f : α → Outcome ε β) : (err e >>= f) = err e := rfl
@[simp] theorem panic_bind (m : String) (f : α → Outcome ε β) : (panic m >>= f) = panic m := rfl

@[simp] theorem bind_ok (x : Outcome ε α) : (x >>= fun a => ok a) = x := by
  cases x <;> rfl

theorem bind_assoc {γ : Type} (x : Outcome ε α) (f : α → Outcome ε β) (g : β → Outcome ε γ) :
    (x >>= f >>= g) = (x >>= fun a => f a >>= g) := by
  cases x <;> rfl

/-- A sequence returns a value exactly when both of its parts do. -/
theorem bind_eq_ok {x : Outcome ε α} {f : α → Outcome ε β} {b : β} :
    (x >>= f) = ok b ↔ ∃ a, x = ok a ∧ f a = ok b := by
  cases x <;> simp

/-- The same for a first part that only checks. -/
theorem check_bind_eq_ok {x : Outcome ε Unit} {f : Unit → Outcome ε β} {b : β} :
    (x >>= f) = ok b ↔ x = ok () ∧ f () = ok b := by
  cases x <;> simp

/-- An error returned where `c` holds, and nothing otherwise. -/
def failIf (c : Prop) [Decidable c] (e : ε) : Outcome ε Unit :=
  if c then err e else ok ()

@[simp] theorem failIf_eq_ok {c : Prop} [Decidable c] {e : ε} {u : Unit} :
    failIf c e = ok u ↔ ¬ c := by
  unfold failIf
  split <;> simp_all

/-- A value, or the error `e` where there is none. -/
def ofOption (e : ε) : Option α → Outcome ε α
  | some a => ok a
  | none => err e

@[simp] theorem ofOption_eq_ok {e : ε} {o : Option α} {a : α} :
    ofOption e o = ok a ↔ o = some a := by
  cases o <;> simp [ofOption]

/-- The result of a foreign call, its error translated. -/
def ofExcept {δ : Type} (f : δ → ε) : Except δ α → Outcome ε α
  | .ok a => ok a
  | .error e => err (f e)

@[simp] theorem ofExcept_eq_ok {δ : Type} {f : δ → ε} {x : Except δ α} {a : α} :
    ofExcept f x = ok a ↔ x = .ok a := by
  cases x <;> simp [ofExcept]

/-- The result of a foreign call whose error is a panic. -/
def orPanic : Except String α → Outcome ε α
  | .ok a => ok a
  | .error e => panic e

@[simp] theorem orPanic_eq_ok {x : Except String α} {a : α} : (orPanic x : Outcome ε α) = ok a ↔ x = .ok a := by
  cases x <;> simp [orPanic]

/-- The same call with its error translated. -/
def mapErr {δ : Type} (f : ε → δ) : Outcome ε α → Outcome δ α
  | ok a => ok a
  | err e => err (f e)
  | panic m => panic m

@[simp] theorem mapErr_eq_ok {δ : Type} {f : ε → δ} {x : Outcome ε α} {a : α} :
    mapErr f x = ok a ↔ x = ok a := by
  cases x <;> simp [mapErr]

/-- The value returned, if there was one. -/
def value : Outcome ε α → Option α
  | ok a => some a
  | _ => none

theorem value_eq_some {x : Outcome ε α} {a : α} : x.value = some a ↔ x = ok a := by
  cases x <;> simp [value]

theorem value_map_eq_some {x : Outcome ε α} {f : α → β} {b : β} :
    x.value.map f = some b ↔ ∃ a, x = ok a ∧ f a = b := by
  cases x <;> simp [value]

/-- The text of a panic, if there was one. -/
def panicText : Outcome ε α → Option String
  | panic m => some m
  | _ => none

theorem panicText_eq_some {x : Outcome ε α} {m : String} : x.panicText = some m ↔ x = panic m := by
  cases x <;> simp [panicText]

/-- No panic is reached. -/
def NoPanic (x : Outcome ε α) : Prop := ∀ m, x ≠ panic m

@[simp] theorem noPanic_ok (a : α) : NoPanic (ok a : Outcome ε α) := by
  intro m h; cases h

@[simp] theorem noPanic_err (e : ε) : NoPanic (err e : Outcome ε α) := by
  intro m h; cases h

@[simp] theorem not_noPanic_panic (m : String) : ¬ NoPanic (panic m : Outcome ε α) :=
  fun h => h m rfl

/-- A sequence panics in its first part, or in its second on the value the
first returned. -/
theorem noPanic_bind {x : Outcome ε α} {f : α → Outcome ε β} :
    NoPanic (x >>= f) ↔ NoPanic x ∧ ∀ a, x = ok a → NoPanic (f a) := by
  cases x <;> simp

/-! ## Calls that fail on a condition -/

/-- The call fails exactly if `c` holds, and returns `a` if not. -/
def FailsIff (x : Outcome ε α) (c : Prop) (a : α) : Prop :=
  (c → ∃ e, x = err e) ∧ (¬ c → x = ok a)

namespace FailsIff

variable {x : Outcome ε α} {c d : Prop} {a : α} {b : β}

theorem ok (a : α) : FailsIff (ok a : Outcome ε α) False a := ⟨False.elim, fun _ => rfl⟩

theorem failIf (c : Prop) [Decidable c] (e : ε) : (failIf c e).FailsIff c () :=
  ⟨fun h => ⟨e, if_pos h⟩, fun h => if_neg h⟩

theorem mapErr {δ : Type} {f : ε → δ} (h : x.FailsIff c a) : (mapErr f x).FailsIff c a := by
  refine ⟨fun hc => ?_, fun hc => ?_⟩
  · obtain ⟨e, he⟩ := h.1 hc
    exact ⟨f e, by rw [he]; rfl⟩
  · rw [h.2 hc]
    rfl

/-- A sequence fails in its first part, or in its second. -/
theorem bind {f : α → Outcome ε β} (h : x.FailsIff c a) (hf : (f a).FailsIff d b) :
    (x >>= f).FailsIff (c ∨ d) b := by
  by_cases hc : c
  · obtain ⟨e, he⟩ := h.1 hc
    refine ⟨fun _ => ⟨e, by rw [he]; rfl⟩, fun hcd => absurd (.inl hc) hcd⟩
  · rw [h.2 hc]
    exact ⟨fun hcd => hf.1 (hcd.resolve_left hc), fun hcd => hf.2 (fun hd => hcd (.inr hd))⟩

theorem congr (h : x.FailsIff c a) (hcd : c ↔ d) : x.FailsIff d a :=
  ⟨fun hd => h.1 (hcd.mpr hd), fun hd => h.2 (fun hc => hd (hcd.mp hc))⟩

theorem exists_err (h : x.FailsIff c a) : (∃ e, x = err e) ↔ c := by
  refine ⟨fun hfails => ?_, h.1⟩
  obtain ⟨e, he⟩ := hfails
  by_contra hc
  rw [h.2 hc] at he
  cases he

end FailsIff

/-! ## Loops

A loop whose steps return a value where a condition on the element holds, and panic
where it fails, whatever the loop has gathered so far. -/

section Loops

variable {f : β → α → Outcome ε β} {C : α → Prop} {l : List α}

theorem foldlM_ok (hok : ∀ b, ∀ x ∈ l, C x → ∃ b', f b x = ok b') (hC : ∀ x ∈ l, C x) (b : β) :
    ∃ b', l.foldlM f b = ok b' := by
  induction l generalizing b with
  | nil => exact ⟨b, rfl⟩
  | cons x rest ih =>
    obtain ⟨b₁, hb₁⟩ := hok b x List.mem_cons_self (hC x List.mem_cons_self)
    obtain ⟨b', hb'⟩ := ih (fun b y hy => hok b y (List.mem_cons_of_mem x hy))
      (fun y hy => hC y (List.mem_cons_of_mem x hy)) b₁
    refine ⟨b', ?_⟩
    rw [List.foldlM_cons, hb₁]
    exact hb'

theorem foldlM_panic (hok : ∀ b, ∀ x ∈ l, C x → ∃ b', f b x = ok b')
    (hpanic : ∀ b, ∀ x ∈ l, ¬ C x → ∃ m, f b x = panic m) (hC : ¬ ∀ x ∈ l, C x) (b : β) :
    ∃ m, l.foldlM f b = panic m := by
  induction l generalizing b with
  | nil => exact absurd (fun x hx => absurd hx List.not_mem_nil) hC
  | cons x rest ih =>
    rw [List.foldlM_cons]
    by_cases hx : C x
    · -- the first element that fails comes later
      obtain ⟨b₁, hb₁⟩ := hok b x List.mem_cons_self hx
      rw [hb₁]
      apply ih (fun b y hy => hok b y (List.mem_cons_of_mem x hy))
        (fun b y hy => hpanic b y (List.mem_cons_of_mem x hy))
      intro hrest
      apply hC
      intro y hy
      cases List.mem_cons.mp hy with
      | inl heq => exact heq ▸ hx
      | inr hy => exact hrest y hy
    · obtain ⟨m, hm⟩ := hpanic b x List.mem_cons_self hx
      exact ⟨m, by rw [hm]; rfl⟩

/-- A loop of checks passes if every check does. -/
theorem forM_eq_ok {check : α → Outcome ε Unit} : forM l check = ok () ↔ ∀ x ∈ l, check x = ok () := by
  induction l with
  | nil => simp
  | cons x rest ih => rw [List.forM_cons, check_bind_eq_ok, ih, List.forall_mem_cons]

/-- A loop whose steps all return comes to the plain loop. -/
theorem foldlM_eq_foldl {g : β → α → β} (h : ∀ x ∈ l, ∀ b, f b x = ok (g b x)) (b : β) :
    l.foldlM f b = ok (l.foldl g b) := by
  induction l generalizing b with
  | nil => rfl
  | cons x rest ih =>
    rw [List.foldlM_cons, h x List.mem_cons_self b]
    exact ih (fun y hy => h y (List.mem_cons_of_mem x hy)) (g b x)

/-- What every step keeps, the loop keeps. -/
theorem foldlM_invariant {P : β → Prop} (hstep : ∀ b b', ∀ x ∈ l, P b → f b x = ok b' → P b')
    {b b' : β} (hb : P b) (hrun : l.foldlM f b = ok b') : P b' := by
  induction l generalizing b with
  | nil =>
    cases hrun
    exact hb
  | cons x rest ih =>
    rw [List.foldlM_cons] at hrun
    obtain ⟨b₁, hb₁, hrest⟩ := bind_eq_ok.mp hrun
    exact ih (fun b b' y hy => hstep b b' y (List.mem_cons_of_mem x hy))
      (hstep b b₁ x List.mem_cons_self hb hb₁) hrest

/-- Every step of a loop that returns has returned. -/
theorem foldlM_step {b b' : β} (hrun : l.foldlM f b = ok b') {x : α} (hx : x ∈ l) :
    ∃ c c', f c x = ok c' := by
  induction l generalizing b with
  | nil => cases hx
  | cons y rest ih =>
    rw [List.foldlM_cons] at hrun
    obtain ⟨c, hc, hrest⟩ := bind_eq_ok.mp hrun
    cases hx with
    | head => exact ⟨b, c, hc⟩
    | tail _ hx => exact ih hrest hx

theorem foldlM_append (l l' : List α) (b : β) :
    (l ++ l').foldlM f b = (l.foldlM f b >>= fun b' => l'.foldlM f b') := by
  induction l generalizing b with
  | nil => rfl
  | cons x rest ih =>
    rw [List.cons_append, List.foldlM_cons, List.foldlM_cons]
    cases f b x with
    | ok b' => exact ih b'
    | err e => rfl
    | panic m => rfl

/-! A loop over elements in another order. -/

theorem value_bind (x : Outcome ε α) (g : α → Outcome ε β) :
    (x >>= g).value = x.value.bind (fun a => (g a).value) := by
  cases x <;> rfl

/-- Where any two steps can be swapped, the order of the elements does not matter. -/
theorem foldlM_perm {l' : List α} (hperm : l.Perm l')
    (hswap : ∀ x ∈ l, ∀ y ∈ l, ∀ b,
      (f b x >>= fun b' => f b' y).value = (f b y >>= fun b' => f b' x).value) (b : β) :
    (l.foldlM f b).value = (l'.foldlM f b).value := by
  induction hperm generalizing b with
  | nil => rfl
  | cons x _ ih =>
    have hrest := ih (fun y hy z hz => hswap y (List.mem_cons_of_mem x hy) z (List.mem_cons_of_mem x hz))
    rw [List.foldlM_cons, List.foldlM_cons, value_bind, value_bind]
    simp only [hrest]
  | swap x y l =>
    have hpair : ∀ u v, ((v :: u :: l).foldlM f b).value
        = (f b v >>= fun b' => f b' u).value.bind (fun b' => (l.foldlM f b').value) := by
      intro u v
      rw [List.foldlM_cons, value_bind, value_bind, Option.bind_assoc]
      simp only [List.foldlM_cons, value_bind]
    rw [hpair, hpair, hswap y List.mem_cons_self x (List.mem_cons_of_mem y List.mem_cons_self)]
  | trans hp _ ih₁ ih₂ =>
    rw [ih₁ hswap]
    apply ih₂
    intro x hx y hy
    exact hswap x (hp.mem_iff.mpr hx) y (hp.mem_iff.mpr hy)

theorem value_bind_none (x : Outcome ε α) {g : α → Outcome ε β} (h : ∀ a, (g a).value = none) :
    (x >>= g).value = none := by
  rw [value_bind]
  cases x.value with
  | none => rfl
  | some a => exact h a

/-- Steps that compute something of the element alone, and then apply it, can be swapped
where what they apply can. -/
theorem swap_of_apply {δ : Type} {g : α → Outcome ε δ} {h : β → α → δ → Outcome ε β}
    (hf : ∀ b x, f b x = (g x >>= fun d => h b x d)) {x y : α}
    (hh : ∀ b d d', g x = ok d → g y = ok d' →
      (h b x d >>= fun b' => h b' y d').value = (h b y d' >>= fun b' => h b' x d).value) (b : β) :
    (f b x >>= fun b' => f b' y).value = (f b y >>= fun b' => f b' x).value := by
  have hlost : ∀ u v, (∀ d, g u ≠ ok d) → (f b v >>= fun b' => f b' u).value = none := by
    intro u v hu
    apply value_bind_none
    intro b'
    rw [hf]
    cases hg : g u with
    | ok d => exact absurd hg (hu d)
    | err e => rfl
    | panic m => rfl
  have hnone : ∀ u v, (∀ d, g u ≠ ok d) → (f b u >>= fun b' => f b' v).value = none := by
    intro u v hu
    rw [hf]
    cases hg : g u with
    | ok d => exact absurd hg (hu d)
    | err e => rfl
    | panic m => rfl
  by_cases hx : ∃ d, g x = ok d
  · by_cases hy : ∃ d', g y = ok d'
    · obtain ⟨d, hd⟩ := hx
      obtain ⟨d', hd'⟩ := hy
      simp only [hf, hd, hd', ok_bind]
      exact hh b d d' hd hd'
    · rw [hlost y x (not_exists.mp hy), hnone y x (not_exists.mp hy)]
  · rw [hnone x y (not_exists.mp hx), hlost x y (not_exists.mp hx)]

/-- What a loop of such steps comes to. -/
theorem foldlM_apply {δ : Type} {g : α → Outcome ε δ} {h : β → α → δ → β}
    (hf : ∀ b x, f b x = (g x >>= fun d => ok (h b x d))) {b b' : β} (hrun : l.foldlM f b = ok b') :
    (∀ x ∈ l, ∃ d, g x = ok d) ∧
      b' = l.foldl (fun b x => ((g x).value.map (h b x)).getD b) b := by
  induction l generalizing b with
  | nil =>
    cases hrun
    exact ⟨by simp, rfl⟩
  | cons x rest ih =>
    rw [List.foldlM_cons, hf] at hrun
    obtain ⟨b₁, hstep, hrest⟩ := bind_eq_ok.mp hrun
    obtain ⟨d, hd, hb₁⟩ := bind_eq_ok.mp hstep
    cases hb₁
    obtain ⟨hall, hb'⟩ := ih hrest
    refine ⟨List.forall_mem_cons.mpr ⟨⟨d, hd⟩, hall⟩, ?_⟩
    rw [List.foldl_cons, hd]
    exact hb'

end Loops

/-! ## Calls that do the same on related states -/

/-- The same error or panic, or values that are related. -/
inductive Related (R : α → β → Prop) : Outcome ε α → Outcome ε β → Prop
  | ok {a : α} {b : β} (h : R a b) : Related R (ok a) (ok b)
  | err (e : ε) : Related R (err e) (err e)
  | panic (m : String) : Related R (panic m) (panic m)

namespace Related

variable {γ δ : Type} {R : α → β → Prop} {S : γ → δ → Prop} {x : Outcome ε α} {y : Outcome ε β}

theorem bind {f : α → Outcome ε γ} {g : β → Outcome ε δ} (h : Related R x y)
    (hf : ∀ a b, R a b → Related S (f a) (g b)) : Related S (x >>= f) (y >>= g) := by
  cases h with
  | ok h => exact hf _ _ h
  | err e => exact .err e
  | panic m => exact .panic m

/-- A part that both calls have in common. -/
theorem bind_same {f : α → Outcome ε γ} {g : α → Outcome ε δ} (h : ∀ a, x = .ok a → Related S (f a) (g a)) :
    Related S (x >>= f) (x >>= g) := by
  cases x with
  | ok a => exact h a rfl
  | err e => exact .err e
  | panic m => exact .panic m

theorem of_ok_left {a : α} (h : Related R x y) (hx : x = .ok a) : ∃ b, y = .ok b ∧ R a b := by
  cases hx
  cases h with
  | ok h => exact ⟨_, rfl, h⟩

theorem of_ok_right {b : β} (h : Related R x y) (hy : y = .ok b) : ∃ a, x = .ok a ∧ R a b := by
  cases hy
  cases h with
  | ok h => exact ⟨_, rfl, h⟩

end Related

end Outcome
