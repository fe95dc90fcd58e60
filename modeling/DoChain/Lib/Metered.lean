import DoChain.Lib.Outcome

/- Calls whose reads are counted.

   A metered call has an outcome and the number of reads it made before it ended; what it
   read before an error or a panic counts too. Forgetting the count gives the plain call
   (`outcome_bind`).

   Two runs of a call look the same from outside if they end in the same verdict after as many
   reads (`Same`). `checkEach` is a loop that ends at the first check that fails. In whatever
   order it visits its elements, it looks the same exactly if the checks of all elements end in
   one verdict (`checkEach_same_iff`). -/

/-- How a call ended: with a value, with an error of a code, or with a panic. -/
inductive Verdict (κ : Type) where
  | accept
  | fail (code : κ)
  | panic
  deriving DecidableEq

def Outcome.verdict {ε α κ : Type} (code : ε → κ) : Outcome ε α → Verdict κ
  | .ok _ => .accept
  | .err e => .fail (code e)
  | .panic _ => .panic

theorem Outcome.verdict_eq_accept {ε κ : Type} {code : ε → κ} {x : Outcome ε Unit} :
    x.verdict code = .accept ↔ x = .ok () := by
  cases x <;> simp [Outcome.verdict]

/-- What a call did, and how often it read before it ended. -/
structure Metered (ε α : Type) where
  reads : Nat
  outcome : Outcome ε α

namespace Metered

variable {ε α β κ : Type}

/-- A call that reads nothing. -/
def lift (x : Outcome ε α) : Metered ε α := ⟨0, x⟩

/-- A call that reads once. -/
def once (x : Outcome ε α) : Metered ε α := ⟨1, x⟩

protected def bind (x : Metered ε α) (f : α → Metered ε β) : Metered ε β :=
  match x.outcome with
  | .ok a => ⟨x.reads + (f a).reads, (f a).outcome⟩
  | .err e => ⟨x.reads, .err e⟩
  | .panic m => ⟨x.reads, .panic m⟩

instance instMonad : Monad (Metered ε) where
  pure a := ⟨0, .ok a⟩
  bind := Metered.bind

@[simp] theorem outcome_pure (a : α) : (pure a : Metered ε α).outcome = .ok a := rfl
@[simp] theorem outcome_lift (x : Outcome ε α) : (lift x).outcome = x := rfl
@[simp] theorem outcome_once (x : Outcome ε α) : (once x).outcome = x := rfl

/-- Without the count, a sequence is the sequence of the plain calls. -/
@[simp] theorem outcome_bind (x : Metered ε α) (f : α → Metered ε β) :
    (x >>= f).outcome = x.outcome >>= fun a => (f a).outcome := by
  obtain ⟨reads, outcome⟩ := x
  cases outcome <;> rfl

theorem bind_of_ok {x : Metered ε α} {a : α} (h : x.outcome = .ok a) (f : α → Metered ε β) :
    (x >>= f) = ⟨x.reads + (f a).reads, (f a).outcome⟩ := by
  show x.bind f = _
  rw [Metered.bind, h]

theorem lift_ok_bind (a : α) (f : α → Metered ε β) : (lift (.ok a) >>= f) = f a := by
  rw [bind_of_ok (outcome_lift _)]
  show (⟨0 + (f a).reads, (f a).outcome⟩ : Metered ε β) = f a
  rw [Nat.zero_add]

/-! ## Runs that look the same -/

/-- The same verdict after as many reads. -/
structure Same (c : ε → κ) (x y : Metered ε α) : Prop where
  verdict : x.outcome.verdict c = y.outcome.verdict c
  reads : x.reads = y.reads

variable {c : ε → κ}

theorem Same.refl (x : Metered ε α) : Same c x x := ⟨rfl, rfl⟩

/-- After one beginning, the rest decides. -/
theorem bind_same_iff {x : Metered ε α} {f g : α → Metered ε β} :
    Same c (x >>= f) (x >>= g) ↔ ∀ a, x.outcome = .ok a → Same c (f a) (g a) := by
  obtain ⟨reads, outcome⟩ := x
  cases outcome with
  | ok a =>
    refine ⟨?_, ?_⟩
    · intro h b hb
      obtain rfl := Outcome.ok.inj hb
      exact ⟨h.verdict, Nat.add_left_cancel h.reads⟩
    · intro h
      have hsame := h a rfl
      exact ⟨hsame.verdict, congrArg (reads + ·) hsame.reads⟩
  | err e => exact ⟨fun _ _ hb => (nomatch hb), fun _ => Same.refl _⟩
  | panic m => exact ⟨fun _ _ hb => (nomatch hb), fun _ => Same.refl _⟩

/-- A check that fails ends the sequence. -/
theorem bind_of_fail {x : Metered ε Unit} (h : x.outcome ≠ .ok ()) (f : Unit → Metered ε β) :
    (x >>= f).outcome.verdict c = x.outcome.verdict c ∧ (x >>= f).reads = x.reads := by
  obtain ⟨reads, outcome⟩ := x
  cases outcome with
  | ok u => exact absurd rfl h
  | err e => exact ⟨rfl, rfl⟩
  | panic m => exact ⟨rfl, rfl⟩

/-! ## A loop that ends at the first failure -/

variable {f : α → Outcome ε Unit}

/-- Each check reads once. -/
def checkEach (f : α → Outcome ε Unit) : List α → Metered ε Unit
  | [] => pure ()
  | a :: l => do
    once (f a)
    checkEach f l

theorem checkEach_eq_ok {l : List α} : (checkEach f l).outcome = .ok () ↔ ∀ a ∈ l, f a = .ok () := by
  induction l with
  | nil => simp [checkEach]
  | cons a l ih => simp [checkEach, Outcome.check_bind_eq_ok, ih]

theorem checkEach_of_ok {l : List α} (h : ∀ a ∈ l, f a = .ok ()) : checkEach f l = ⟨l.length, .ok ()⟩ := by
  induction l with
  | nil => rfl
  | cons a l ih =>
    obtain ⟨ha, hl⟩ := List.forall_mem_cons.mp h
    rw [checkEach, bind_of_ok (x := once (f a)) ha, ih hl, List.length_cons, Nat.add_comm]
    rfl

theorem checkEach_of_fail {a : α} (h : f a ≠ .ok ()) (l : List α) :
    (checkEach f (a :: l)).outcome.verdict c = (f a).verdict c ∧ (checkEach f (a :: l)).reads = 1 :=
  bind_of_fail (x := once (f a)) h _

theorem one_le_reads {a : α} {l : List α} : 1 ≤ (checkEach f (a :: l)).reads := by
  by_cases h : f a = .ok ()
  · rw [checkEach, bind_of_ok (x := once (f a)) h]
    exact Nat.le_add_right 1 _
  · exact Nat.le_of_eq (checkEach_of_fail (c := id) h l).2.symm

/-- A loop that comes to a second check reads more than one that fails at its first. -/
theorem two_le_reads {a : α} {l : List α} (ha : f a = .ok ()) (hl : l ≠ []) :
    2 ≤ (checkEach f (a :: l)).reads := by
  obtain ⟨b, rest, rfl⟩ := List.exists_cons_of_ne_nil hl
  have hrest : 1 ≤ (checkEach f (b :: rest)).reads := one_le_reads
  rw [checkEach, bind_of_ok (x := once (f a)) ha]
  exact Nat.add_le_add_left hrest 1

/-- An element can be visited first. -/
theorem exists_first {a : α} {l : List α} (h : a ∈ l) : ∃ rest, (a :: rest).Perm l := by
  obtain ⟨before, after, rfl⟩ := List.append_of_mem h
  exact ⟨before ++ after, List.perm_middle.symm⟩

section Orders

variable {g : Unit → Metered ε β} {l : List α}

/-- Where one check passes and another fails, the number of reads depends on the order. -/
theorem reads_differ {a b : α} (ha : a ∈ l) (hb : b ∈ l) (hpass : f a = .ok ()) (hfail : f b ≠ .ok ())
    (h : ∀ l₁ l₂ : List α, l₁.Perm l → l₂.Perm l → Same c (checkEach f l₁ >>= g) (checkEach f l₂ >>= g)) :
    False := by
  obtain ⟨rest, hrest⟩ := exists_first ha
  obtain ⟨rest', hrest'⟩ := exists_first hb
  have hne : rest ≠ [] := by
    intro hnil
    have hin := hrest.mem_iff.mpr hb
    rw [hnil, List.mem_singleton] at hin
    exact hfail (hin ▸ hpass)
  have hnot : (checkEach f (a :: rest)).outcome ≠ .ok () := fun hok =>
    hfail (checkEach_eq_ok.mp hok b (hrest.mem_iff.mpr hb))
  have hnot' : (checkEach f (b :: rest')).outcome ≠ .ok () := fun hok =>
    hfail (checkEach_eq_ok.mp hok b List.mem_cons_self)
  have hreads := (h _ _ hrest hrest').reads
  rw [(bind_of_fail (c := c) hnot g).2, (bind_of_fail (c := c) hnot' g).2,
    (checkEach_of_fail (c := c) hfail rest').2] at hreads
  have htwo := two_le_reads hpass hne
  omega

/-- The loop, with what follows it, looks the same in every order exactly if the checks of all
elements end in one verdict. -/
theorem checkEach_same_iff :
    (∀ l₁ l₂ : List α, l₁.Perm l → l₂.Perm l → Same c (checkEach f l₁ >>= g) (checkEach f l₂ >>= g)) ↔
      ∀ a ∈ l, ∀ b ∈ l, (f a).verdict c = (f b).verdict c := by
  refine ⟨?_, ?_⟩
  · intro h a ha b hb
    by_cases hpass : f a = .ok ()
    · by_cases hpass' : f b = .ok ()
      · rw [hpass, hpass']
      · exact (reads_differ ha hb hpass hpass' h).elim
    · by_cases hpass' : f b = .ok ()
      · exact (reads_differ hb ha hpass' hpass h).elim
      · obtain ⟨rest, hrest⟩ := exists_first ha
        obtain ⟨rest', hrest'⟩ := exists_first hb
        have hnot : (checkEach f (a :: rest)).outcome ≠ .ok () := fun hok =>
          hpass (checkEach_eq_ok.mp hok a List.mem_cons_self)
        have hnot' : (checkEach f (b :: rest')).outcome ≠ .ok () := fun hok =>
          hpass' (checkEach_eq_ok.mp hok b List.mem_cons_self)
        have hverdict := (h _ _ hrest hrest').verdict
        rw [(bind_of_fail (c := c) hnot g).1, (bind_of_fail (c := c) hnot' g).1,
          (checkEach_of_fail hpass rest).1, (checkEach_of_fail hpass' rest').1] at hverdict
        exact hverdict
  · intro h l₁ l₂ h₁ h₂
    by_cases hall : ∀ a ∈ l, f a = .ok ()
    · rw [checkEach_of_ok fun a ha => hall a (h₁.mem_iff.mp ha), checkEach_of_ok fun a ha =>
        hall a (h₂.mem_iff.mp ha), h₁.length_eq, h₂.length_eq]
      exact Same.refl _
    · -- one check fails, so all do, and the loop ends at the first
      push Not at hall
      obtain ⟨a, ha, hfail⟩ := hall
      have hfails : ∀ b ∈ l, f b ≠ .ok () := by
        intro b hb hok
        have hverdict := h a ha b hb
        rw [hok] at hverdict
        exact hfail (Outcome.verdict_eq_accept.mp hverdict)
      have hlooks : ∀ l' : List α, l'.Perm l →
          (checkEach f l' >>= g).outcome.verdict c = (f a).verdict c ∧ (checkEach f l' >>= g).reads = 1 := by
        intro l' hperm
        cases l' with
        | nil => exact absurd (hperm.mem_iff.mpr ha) List.not_mem_nil
        | cons b rest =>
          have hb := hperm.mem_iff.mp List.mem_cons_self
          have hnot : (checkEach f (b :: rest)).outcome ≠ .ok () := fun hok =>
            hfails b hb (checkEach_eq_ok.mp hok b List.mem_cons_self)
          obtain ⟨hverdict, hreads⟩ := bind_of_fail (c := c) hnot g
          obtain ⟨hverdict', hreads'⟩ := checkEach_of_fail (c := c) (hfails b hb) rest
          exact ⟨hverdict.trans (hverdict'.trans (h b hb a ha)), hreads.trans hreads'⟩
      obtain ⟨hv₁, hr₁⟩ := hlooks l₁ h₁
      obtain ⟨hv₂, hr₂⟩ := hlooks l₂ h₂
      exact ⟨hv₁.trans hv₂.symm, hr₁.trans hr₂.symm⟩

end Orders

end Metered
