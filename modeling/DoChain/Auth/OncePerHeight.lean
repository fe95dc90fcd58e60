import DoChain.Auth.Spamming

/- The oracle messages that the decorator lets through at one height
   (`custom/auth/ante/spamming_prevention.go`).

   The loop over the messages of a transaction ends at the first message of another module,
   and the maps are keyed by the text of the validator. So a message behind a foreign one is
   not checked at all, and two spellings of one validator are two keys.

   `checkOracleSpamming_passes` is the step: what the loop lets through was authorised, was
   not recorded before and is recorded after. `through_checked` is the run: among the
   transactions let through, the checked messages are authorised and no two of a kind have
   the same text for the validator. `once_per_height_iff` says what is missing. -/

namespace Auth

open Sdk App

variable (env : Oracle.Env)

/-! ## What is let through -/

/-- A first check of a transaction at the height. -/
def CheckTx.IsNew (height : Int) (call : CheckTx) : Prop :=
  call.isReCheckTx = false ∧ call.simulate = false ∧ call.isCheckTx = true ∧ call.blockHeight = height

/-- The decorator is reached, and calls the next one. -/
def LetThrough (maps : Maps) (call : CheckTx) : Prop :=
  call.earlier = .ok () ∧ checkGas call = .ok () ∧ (checkOracleSpamming env call maps call.msgs).2 = .ok ()

instance (maps : Maps) (call : CheckTx) : Decidable (LetThrough env maps call) :=
  inferInstanceAs (Decidable (_ ∧ _))

/-- The transactions of a history that are let through. -/
def through (maps : Maps) : List CheckTx → List CheckTx
  | [] => []
  | call :: rest =>
    let passed := through (checkTx env maps call).1 rest
    if LetThrough env maps call then call :: passed else passed

/-- A message of a feeder in a transaction, and whether the loop came to it. -/
structure Submission where
  call : CheckTx
  kind : Kind
  feeder : String
  validator : String
  checked : Bool

/-- The messages of feeders: those behind a message of another module are not checked. -/
def submissionsFrom (call : CheckTx) (checked : Bool) : List TxMsg → List Submission
  | [] => []
  | .oracle kind feeder validator :: rest =>
    ⟨call, kind, feeder, validator, checked⟩ :: submissionsFrom call checked rest
  | .other :: rest => submissionsFrom call false rest

def submissions (txs : List CheckTx) : List Submission :=
  txs.flatMap (fun call => submissionsFrom call true call.msgs)

/-- The feeder may submit for the validator, in the state the transaction is checked in. -/
def Submission.Authorised (s : Submission) : Prop :=
  ∃ feederAddr valAddr, env.accBech32.accAddressFromBech32 s.feeder = .ok feederAddr ∧
    env.valBech32.accAddressFromBech32 s.validator = .ok valAddr ∧
    Oracle.validateFeeder env s.call.staking s.call.oracle feederAddr valAddr = .ok ()

/-- Two messages of a kind for one validator, however it is spelled. -/
def Submission.SameAs (s t : Submission) : Prop :=
  s.kind = t.kind ∧ ∃ valAddr, env.valBech32.accAddressFromBech32 s.validator = .ok valAddr ∧
    env.valBech32.accAddressFromBech32 t.validator = .ok valAddr

/-- At most one message of each kind for each validator, from its feeder. -/
def OncePerHeight (txs : List CheckTx) : Prop :=
  (submissions txs).Pairwise (fun s t => ¬ s.SameAs env t) ∧ ∀ s ∈ submissions txs, s.Authorised env

/-- Every message behind a foreign one is from the feeder and for a validator that no other
message of its kind is for, and no two others of a kind spell a validator differently. -/
def Unhidden (txs : List CheckTx) : Prop :=
  (∀ s ∈ submissions txs, s.checked = false → s.Authorised env) ∧
  (submissions txs).Pairwise (fun s t => s.checked = false ∨ t.checked = false → ¬ s.SameAs env t) ∧
  ∀ s ∈ submissions txs, ∀ t ∈ submissions txs, s.checked = true → t.checked = true →
    s.SameAs env t → s.validator = t.validator

/-! ## One transaction -/

variable {env} {height : Int}

/-- The maps hold the height for a validator's text. -/
def Recorded (maps : Maps) (height : Int) (s : Submission) : Prop :=
  (maps s.kind).get s.validator = some height

theorem checked_eq_false (call : CheckTx) (msgs : List TxMsg) :
    ∀ s ∈ submissionsFrom call false msgs, s.checked = false := by
  induction msgs with
  | nil => simp [submissionsFrom]
  | cons msg rest ih =>
    cases msg with
    | other => exact ih
    | oracle kind feeder validator => exact List.forall_mem_cons.mpr ⟨rfl, ih⟩

theorem recorded_update {maps : Maps} {kind : Kind} {validator : String} {s : Submission} :
    Recorded (Function.update maps kind ((maps kind).set validator height)) height s ↔
      (s.kind = kind ∧ s.validator = validator) ∨ Recorded maps height s := by
  rw [Recorded, Recorded]
  by_cases hkind : s.kind = kind
  · rw [hkind, Function.update_self, SortedMap.get_set]
    by_cases hval : s.validator = validator <;> simp [hval]
  · rw [Function.update_of_ne hkind]
    simp [hkind]

theorem checkTx_keeps {maps : Maps} {call : CheckTx} (hheight : call.blockHeight = height) {s : Submission}
    (h : Recorded maps height s) : Recorded (checkTx env maps call).1 height s := by
  subst hheight
  unfold checkTx
  cases call.earlier with
  | err e => exact h
  | panic p => exact h
  | ok u =>
    show Recorded (anteHandle env maps call).1 _ s
    by_cases hchecked : Checked call
    · rw [anteHandle_checked hchecked]
      exact checkOracleSpamming_keeps h
    · rw [anteHandle_unchecked hchecked]
      exact h

/-- What the loop lets through: a message that it came to is authorised, was not recorded
and is recorded after, and no two of a kind have the same text. -/
theorem checkOracleSpamming_passes {call : CheckTx} (hheight : call.blockHeight = height) {maps : Maps}
    {msgs : List TxMsg} (h : (checkOracleSpamming env call maps msgs).2 = .ok ()) :
    (∀ s ∈ submissionsFrom call true msgs, s.checked = true → s.Authorised env ∧ ¬ Recorded maps height s ∧
      Recorded (checkOracleSpamming env call maps msgs).1 height s) ∧
    (submissionsFrom call true msgs).Pairwise (fun s t => s.checked = true → t.checked = true →
      s.kind = t.kind → s.validator ≠ t.validator) := by
  subst hheight
  induction msgs generalizing maps with
  | nil => exact ⟨by simp [submissionsFrom], .nil⟩
  | cons msg rest ih =>
    cases msg with
    | other =>
      -- the loop ends here, and what follows is not checked
      have hnone := checked_eq_false call rest
      refine ⟨?_, ?_⟩
      · intro s hs hchecked
        exact absurd (hnone s hs) (by simp [hchecked])
      · refine List.pairwise_iff_forall_sublist.mpr ?_
        intro s t hsub hchecked
        have hs : s ∈ submissionsFrom call false rest := hsub.subset List.mem_cons_self
        exact absurd (hnone s hs) (by simp [hchecked])
    | oracle kind feeder validator =>
      rw [checkOracleSpamming] at h ⊢
      cases hsub : checkSubmission env call kind (maps kind) feeder validator with
      | err e =>
        rw [hsub] at h
        cases h
      | panic p =>
        rw [hsub] at h
        cases h
      | ok submitted =>
        rw [hsub] at h
        obtain ⟨⟨hauth, hnew⟩, rfl⟩ := checkSubmission_eq_ok.mp hsub
        obtain ⟨hrest, hpair⟩ := ih h
        refine ⟨List.forall_mem_cons.mpr ⟨?_, ?_⟩, List.pairwise_cons.mpr ⟨?_, hpair⟩⟩
        · intro _
          refine ⟨hauth, hnew, ?_⟩
          exact checkOracleSpamming_keeps (recorded_update (s := ⟨call, kind, feeder, validator, true⟩).mpr
            (.inl ⟨rfl, rfl⟩))
        · intro s hs hchecked
          obtain ⟨hs, hnot, hafter⟩ := hrest s hs hchecked
          exact ⟨hs, fun hrec => hnot (recorded_update.mpr (.inr hrec)), hafter⟩
        · intro t ht _ hchecked hkind hval
          exact (hrest t ht hchecked).2.1 (recorded_update.mpr (.inl ⟨hkind.symm, hval.symm⟩))

/-! ## A history -/

theorem checkTx_letThrough {maps : Maps} {call : CheckTx} (hnew : call.IsNew height)
    (h : LetThrough env maps call) : (checkTx env maps call).1 = (checkOracleSpamming env call maps call.msgs).1 := by
  have hchecked : Checked call := ⟨hnew.1, hnew.2.1, hnew.2.2.1, h.2.1⟩
  rw [checkTx, h.1]
  show (anteHandle env maps call).1 = _
  rw [anteHandle_checked hchecked]

variable (env)

/-- The messages that were checked, of the transactions let through, are authorised and new,
and no two of a kind have the same text. -/
theorem through_checked {history : List CheckTx} (hnew : ∀ call ∈ history, call.IsNew height) (maps : Maps) :
    (∀ s ∈ submissions (through env maps history), s.checked = true → s.Authorised env ∧ ¬ Recorded maps height s) ∧
    (submissions (through env maps history)).Pairwise (fun s t => s.checked = true → t.checked = true →
      s.kind = t.kind → s.validator ≠ t.validator) := by
  induction history generalizing maps with
  | nil => exact ⟨by simp [submissions, through], .nil⟩
  | cons call rest ih =>
    obtain ⟨hcall, hrest⟩ := List.forall_mem_cons.mp hnew
    obtain ⟨hlater, hpair⟩ := ih hrest (checkTx env maps call).1
    -- what is recorded before stays recorded, so what is new later is new now
    have hfresh : ∀ s ∈ submissions (through env (checkTx env maps call).1 rest), s.checked = true →
        s.Authorised env ∧ ¬ Recorded maps height s := by
      intro s hs hchecked
      obtain ⟨hauth, hnot⟩ := hlater s hs hchecked
      exact ⟨hauth, fun hrec => hnot (checkTx_keeps hcall.2.2.2 hrec)⟩
    rw [through]
    split_ifs with hthrough
    · obtain ⟨hown, hownPair⟩ := checkOracleSpamming_passes hcall.2.2.2 hthrough.2.2
      rw [← checkTx_letThrough hcall hthrough] at hown
      rw [submissions, List.flatMap_cons]
      refine ⟨List.forall_mem_append.mpr ⟨?_, hfresh⟩, List.pairwise_append.mpr ⟨hownPair, hpair, ?_⟩⟩
      · intro s hs hchecked
        obtain ⟨hauth, hnot, _⟩ := hown s hs hchecked
        exact ⟨hauth, hnot⟩
      · intro s hs t ht hs' ht' hkind hval
        obtain ⟨_, _, hrec⟩ := hown s hs hs'
        apply (hlater t ht ht').2
        rwa [Recorded, ← hkind, ← hval]
    · exact ⟨hfresh, hpair⟩

/-- Whatever the maps hold, and whatever the transactions at a height: those let through
hold at most one message of each kind for each validator, each from its feeder, exactly if
no message hides behind a foreign one or under another spelling. -/
theorem once_per_height_iff {history : List CheckTx} (hnew : ∀ call ∈ history, call.IsNew height) (maps : Maps) :
    OncePerHeight env (through env maps history) ↔ Unhidden env (through env maps history) := by
  obtain ⟨hchecked, hpair⟩ := through_checked env hnew maps
  generalize through env maps history = txs at hchecked hpair ⊢
  refine ⟨?_, ?_⟩
  · intro h
    obtain ⟨honce, hauth⟩ := h
    have hhidden : (submissions txs).Pairwise (fun s t =>
        s.checked = false ∨ t.checked = false → ¬ s.SameAs env t) := by
      refine honce.imp ?_
      intro s t hst _
      exact hst
    refine ⟨fun s hs _ => hauth s hs, hhidden, ?_⟩
    intro s hs t ht _ _ hsame
    by_contra hne
    have hsymm : Std.Symm (fun s t : Submission => ¬ s.SameAs env t) := by
      refine ⟨?_⟩
      intro s t hst hts
      obtain ⟨hkind, addr, ht, hs⟩ := hts
      exact hst ⟨hkind.symm, addr, hs, ht⟩
    exact honce.forall hs ht (fun heq => hne (congrArg Submission.validator heq)) hsame
  · intro h
    obtain ⟨hauth, hhidden, hspelling⟩ := h
    refine ⟨?_, ?_⟩
    · refine List.Pairwise.imp_of_mem ?_ (hhidden.and hpair)
      intro s t hs ht hst hsame
      obtain ⟨hhidden, hpair⟩ := hst
      by_cases hboth : s.checked = true ∧ t.checked = true
      · exact hpair hboth.1 hboth.2 hsame.1 (hspelling s hs t ht hboth.1 hboth.2 hsame)
      · refine hhidden ?_ hsame
        rw [not_and_or, Bool.not_eq_true, Bool.not_eq_true] at hboth
        exact hboth
    · intro s hs
      by_cases hs' : s.checked = true
      · exact (hchecked s hs hs').1
      · exact hauth s hs (Bool.not_eq_true _ ▸ hs')

namespace Sample

open Sdk.Sample (alice bob aliceText bobText aliceOperator operators encode_ne withSpelling valBech32)
open Oracle.Sample (app staking voted)

/-- A transaction at height seven. -/
def txOf (msgs : List TxMsg) : CheckTx :=
  ⟨false, true, false, 7, staking, voted [] [], some 100000, msgs, .ok (), .ok ()⟩

/-- Alice's prevote, a second time. -/
def repeated : List CheckTx :=
  [txOf [.oracle .prevote aliceText aliceOperator], txOf [.oracle .prevote aliceText aliceOperator]]

theorem through_repeated :
    through app newSpammingPreventionDecorator repeated = [txOf [.oracle .prevote aliceText aliceOperator]] := by
  rw [repeated, through, through, through]
  rw [if_pos (by decide +kernel), if_neg (by decide +kernel)]

theorem repeated_once : OncePerHeight app (through app newSpammingPreventionDecorator repeated) := by
  have hnew : ∀ call ∈ repeated, call.IsNew 7 := by simp [repeated, txOf, CheckTx.IsNew]
  refine (once_per_height_iff app hnew newSpammingPreventionDecorator).mpr ?_
  rw [through_repeated]
  refine ⟨?_, List.pairwise_singleton _ _, ?_⟩
  · simp [submissions, submissionsFrom, txOf]
  · simp [submissions, submissionsFrom, txOf]

/-- Behind a message of another module, Bob prevotes for Alice's validator, twice. -/
def hidden : CheckTx :=
  txOf [.other, .oracle .prevote bobText aliceOperator, .oracle .prevote bobText aliceOperator]

/-- All upper case. -/
def aliceOperatorUpper : String := "DOVALOPER1XWU5KU9M6S60PTGPJFTXN0KLX35CX26CDX3A6E"

theorem string_ne_aliceOperatorUpper (a : AccAddress) : valBech32.string a ≠ aliceOperatorUpper :=
  encode_ne (by decide) (by decide) a

def spelled : Oracle.Env :=
  { app with valBech32 := withSpelling valBech32 aliceOperatorUpper alice string_ne_aliceOperatorUpper (by decide) }

/-- Alice's prevote, and again with the validator in upper case. -/
def twice : List CheckTx :=
  [txOf [.oracle .prevote aliceText aliceOperator], txOf [.oracle .prevote aliceText aliceOperatorUpper]]

theorem hidden_not_authorised : ∀ s ∈ submissions [hidden], ¬ s.Authorised app := by
  have hone : ¬ Submission.Authorised app ⟨hidden, .prevote, bobText, aliceOperator, false⟩ := by
    intro h
    obtain ⟨feederAddr, valAddr, hfeeder, hval, hauth⟩ := h
    obtain rfl : feederAddr = bob := Except.ok.inj (hfeeder.symm.trans (by decide +kernel))
    obtain rfl : valAddr = alice := Except.ok.inj (hval.symm.trans (by decide +kernel))
    revert hauth
    decide +kernel
  simpa [submissions, submissionsFrom, hidden, txOf] using hone

/-- All are let through: a message behind a foreign one is not checked, and the maps are
keyed by the text. -/
theorem more_than_once :
    (through app newSpammingPreventionDecorator [hidden] = [hidden] ∧
      ¬ OncePerHeight app (through app newSpammingPreventionDecorator [hidden]) ∧
      ∀ s ∈ submissions [hidden], ¬ s.Authorised app) ∧
    (through spelled newSpammingPreventionDecorator twice = twice ∧
      ¬ OncePerHeight spelled (through spelled newSpammingPreventionDecorator twice)) := by
  have hhidden : through app newSpammingPreventionDecorator [hidden] = [hidden] := by
    rw [through, through, if_pos (by decide +kernel)]
  have htwice : through spelled newSpammingPreventionDecorator twice = twice := by
    rw [twice, through, through, through, if_pos (by decide +kernel), if_pos (by decide +kernel)]
  refine ⟨⟨hhidden, ?_, hidden_not_authorised⟩, htwice, ?_⟩
  · rw [hhidden]
    intro h
    exact (List.pairwise_cons.mp h.1).1 _ List.mem_cons_self ⟨rfl, alice, by decide +kernel, by decide +kernel⟩
  · rw [htwice]
    intro h
    exact (List.pairwise_cons.mp h.1).1 _ List.mem_cons_self ⟨rfl, alice, by decide +kernel, by decide +kernel⟩

end Sample

end Auth
