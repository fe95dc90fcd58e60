import DoChain.Lib.Metered
import DoChain.Mfa.Guardian

/- The order in which Go ranges over the accounts (`x/mfa/ante/ante.go`).

   The requirement decorator ranges over two maps: the accounts it protects, to find those with
   a policy, and the accounts it requires an approval of. Here each loop has an order of
   its own, and every `GetPolicy` is counted: `Reads.requirement` is the decorator of
   `DoChain.Mfa.Ante` with the reads (`Reads.requirement_outcome`).

   The first loop visits every account (`Reads.accountsWithPolicy_eq`). The second one ends at
   the first account whose approval is refused, so its order shows in the error and in the
   number of reads, unless the checks of all required accounts end alike
   (`deterministic_iff`). -/

namespace Mfa

open Sdk

/-- An order in which a loop visits accounts. -/
abbrev Order := SortedMap.RangeOrder String AccAddress

namespace Reads

variable (env : Env)

def getPolicy (s : PolicyStore env.bech32) (a : AccAddress) : Metered SdkError (Option Policy) :=
  .once (.ok (env.policy s a))

/-! ## What a control action requires -/

def accountWithPolicy (s : PolicyStore env.bech32) (text account noPolicy : String) :
    Metered SdkError (AccAddress × Policy) := do
  let addr ← .lift (env.account text account)
  let found ← getPolicy env s addr
  let policy ← .lift (.ofOption (wrap errInvalidMFAPolicy noPolicy) found)
  pure (addr, policy)

def requireEnable (s : PolicyStore env.bech32) (accounts : Accounts) (e : MemoEnable) :
    Metered SdkError Accounts := do
  let addr ← .lift (env.account "invalid mfa enable account: " e.account)
  let found ← getPolicy env s addr
  pure (if found.isSome then accounts.set (env.bech32.string addr) addr else accounts)

def requireDisable (s : PolicyStore env.bech32) (accounts : Accounts) (d : MemoDisable) :
    Metered SdkError Accounts := do
  let (addr, _) ← accountWithPolicy env s "invalid mfa disable account: " d.account
    "cannot disable mfa for an account without an active mfa policy"
  pure (accounts.set (env.bech32.string addr) addr)

def requireSetGuardian (s : PolicyStore env.bech32) (accounts : Accounts) (g : MemoSetGuardian) :
    Metered SdkError Accounts := do
  let (addr, _) ← accountWithPolicy env s "invalid mfa guardian account: " g.account
    "cannot set a guardian for an account without an active mfa policy"
  .lift (validateOptionalGuardianAddress env g.guardianAddress)
  pure (accounts.set (env.bech32.string addr) addr)

def requireRecoveryStart (s : PolicyStore env.bech32) (r : MemoRecoveryStart) : Metered SdkError Unit := do
  let _ ← accountWithPolicy env s "invalid mfa recovery account: " r.account
    "cannot start recovery for an account without an active mfa policy"
  .lift (validateRecoveryRequest env r.action r.approvalPubKey)

def requireRecoveryCancel (s : PolicyStore env.bech32) (r : MemoRecoveryCancel) : Metered SdkError Unit := do
  let _ ← accountWithPolicy env s "invalid mfa recovery account: " r.account
    "cannot cancel recovery for an account without an active mfa policy"
  pure ()

def requireRecoveryExecute (s : PolicyStore env.bech32) (r : MemoRecoveryExecute) :
    Metered SdkError Unit := do
  let (_, policy) ← accountWithPolicy env s "invalid mfa recovery account: " r.account
    "cannot execute recovery for an account without an active mfa policy"
  .lift (.failIf (policy.pendingRecovery = none) (wrap errInvalidMFAPolicy "no pending mfa recovery request"))

def whenPresent {α β : Type} (o : Option α) (b : β) (f : α → Metered SdkError β) : Metered SdkError β :=
  match o with
  | none => pure b
  | some a => f a

def addControlRequirements (s : PolicyStore env.bech32) (accounts : Accounts) (m : MemoMFA) :
    Metered SdkError Accounts := do
  let accounts ← whenPresent m.enable accounts (requireEnable env s accounts)
  let accounts ← whenPresent m.disable accounts (requireDisable env s accounts)
  let accounts ← whenPresent m.setGuardian accounts (requireSetGuardian env s accounts)
  whenPresent m.recoveryStart () (requireRecoveryStart env s)
  whenPresent m.recoveryCancel () (requireRecoveryCancel env s)
  whenPresent m.recoveryExecute () (requireRecoveryExecute env s)
  pure accounts

def requiredCandidates (s : PolicyStore env.bech32) (tx : Tx) (m : Option MemoMFA) :
    Metered SdkError Accounts := do
  let accounts ← .lift (protectedAccounts env tx.msgs)
  whenPresent m accounts (fun m => do
    .lift (validateControlActionCount m)
    let accounts ← addControlRequirements env s accounts m
    .lift (applyBypass env tx accounts m))

/-! ## The two loops -/

/-- The loop of `accountsWithPolicy`. -/
def collect (s : PolicyStore env.bech32) (required : Accounts) :
    List (String × AccAddress) → Metered SdkError Accounts
  | [] => pure required
  | e :: rest => do
    let found ← getPolicy env s e.2
    collect s (if found.isSome then required.set e.1 e.2 else required) rest

def accountsWithPolicy (order : Order) (s : PolicyStore env.bech32) (accounts : Accounts) :
    Metered SdkError Accounts :=
  collect env s SortedMap.empty (order.range accounts)

/-- Each turn of the loop reads the policy of its account. -/
def verifyApprovals (order : Order) (ctx : Ctx) (s : PolicyStore env.bech32) (tx : Tx) (required : Accounts)
    (m : MemoMFA) : Metered SdkError Unit := do
  let (msgsHash, signers) ← .lift (payloadParts env ctx tx)
  .checkEach (fun e => verifyRequired env ctx s m tx.timeoutHeight msgsHash signers e.1 e.2)
    (order.range required)

/-! ## The decorator -/

def checkApprovals (order : Order) (ctx : Ctx) (s : PolicyStore env.bech32) (tx : Tx) (required : Accounts) :
    Metered SdkError Unit :=
  if required.entries ≠ [] then
    match parseMFAMemo env tx with
    | .error e => .lift (.err (wrap errInvalidMFAApproval e))
    | .ok none => .lift (.err (wrap errMFARequired "missing mfa memo"))
    | .ok (some m) => verifyApprovals env order ctx s tx required m
  else
    match parseMFAMemo env tx with
    | .error e => .lift (.failIf (env.containsMFAKey tx.memo = true) (wrap errInvalidMFAApproval e))
    | .ok _ => pure ()

/-- The policy of the account is read once; what is checked after it reads no policy. -/
def verifyInitialEnableApproval (ctx : Ctx) (s : PolicyStore env.bech32) (tx : Tx) (m : MemoMFA) :
    Metered SdkError Unit :=
  whenPresent m.enable () (fun e => do
    let account ← .lift (env.account "invalid mfa enable account: " e.account)
    let _ ← getPolicy env s account
    .lift (Mfa.verifyInitialEnableApproval env ctx s tx m))

/-- `MFARequirementDecorator.AnteHandle` up to `next`, with the orders of its two loops. -/
def requirement (protectedOrder requiredOrder : Order) (ctx : Ctx) (s : PolicyStore env.bech32) (tx : Tx) :
    Metered SdkError Unit := do
  let memo := (parseMFAMemo env tx).toOption.join
  let candidates ← requiredCandidates env s tx memo
  let required ← accountsWithPolicy env protectedOrder s candidates
  checkApprovals env requiredOrder ctx s tx required
  whenPresent memo () (verifyInitialEnableApproval env ctx s tx)

/-! ## Without the count -/

section Erase

variable {env} {s : PolicyStore env.bech32} {tx : Tx} {ctx : Ctx}

@[simp] theorem getPolicy_outcome (a : AccAddress) : (getPolicy env s a).outcome = .ok (env.policy s a) := rfl

@[simp] theorem whenPresent_outcome {α β : Type} (o : Option α) (b : β) (f : α → Metered SdkError β) :
    (whenPresent o b f).outcome = Mfa.whenPresent o b fun a => (f a).outcome := by
  cases o <;> rfl

@[simp] theorem accountWithPolicy_outcome (text account noPolicy : String) :
    (accountWithPolicy env s text account noPolicy).outcome =
      Mfa.accountWithPolicy env s text account noPolicy := by
  simp [accountWithPolicy, Mfa.accountWithPolicy]

theorem addControlRequirements_outcome (accounts : Accounts) (m : MemoMFA) :
    (addControlRequirements env s accounts m).outcome = Mfa.addControlRequirements env s accounts m := by
  simp only [addControlRequirements, Mfa.addControlRequirements, Metered.outcome_bind, Metered.outcome_pure,
    whenPresent_outcome, requireEnable, requireDisable, requireSetGuardian, requireRecoveryStart,
    requireRecoveryCancel, requireRecoveryExecute, getPolicy_outcome, accountWithPolicy_outcome,
    Metered.outcome_lift, Outcome.ok_bind]
  rfl

theorem requiredCandidates_outcome (m : Option MemoMFA) :
    (requiredCandidates env s tx m).outcome = Mfa.requiredCandidates env s tx m := by
  simp only [requiredCandidates, Mfa.requiredCandidates, Metered.outcome_bind, Metered.outcome_lift,
    whenPresent_outcome, addControlRequirements_outcome]

/-- In every order the loop reads each policy, and finds the same accounts. -/
theorem accountsWithPolicy_eq (order : Order) (accounts : Accounts) :
    accountsWithPolicy env order s accounts =
      ⟨accounts.entries.length, .ok (Mfa.accountsWithPolicy env s accounts)⟩ := by
  have hcollect : ∀ (l : List (String × AccAddress)) (required : Accounts), collect env s required l =
      ⟨l.length, .ok (l.foldl (fun r e => if (env.policy s e.2).isSome then r.set e.1 e.2 else r) required)⟩ := by
    intro l
    induction l with
    | nil => exact fun _ => rfl
    | cons e rest ih =>
      intro required
      rw [collect, Metered.bind_of_ok (getPolicy_outcome e.2), ih, List.length_cons, Nat.add_comm]
      rfl
  rw [accountsWithPolicy, hcollect, (order.perm accounts).length_eq,
    order.foldl_filter fun e => (env.policy s e.2).isSome]
  rfl

theorem checkEach_outcome (m : MemoMFA) (th : Nat) (msgsHash : String) (signers : List SignerSequence)
    (l : List (String × AccAddress)) :
    (Metered.checkEach (fun e => verifyRequired env ctx s m th msgsHash signers e.1 e.2) l).outcome =
      verifyAll env ctx s m th msgsHash signers l := by
  induction l with
  | nil => rfl
  | cons e rest ih =>
    rw [Metered.checkEach, Metered.outcome_bind, ih]
    rfl

theorem verifyInitialEnableApproval_outcome (m : MemoMFA) :
    (verifyInitialEnableApproval env ctx s tx m).outcome = Mfa.verifyInitialEnableApproval env ctx s tx m := by
  cases he : m.enable with
  | none =>
    rw [verifyInitialEnableApproval, Mfa.verifyInitialEnableApproval, he]
    rfl
  | some e =>
    rw [verifyInitialEnableApproval, whenPresent_outcome, he, Mfa.whenPresent_some]
    simp only [Metered.outcome_bind, Metered.outcome_lift, getPolicy_outcome, Outcome.ok_bind]
    -- the account is decoded once more in the rest, with the same result
    cases haccount : env.account "invalid mfa enable account: " e.account with
    | ok a => rfl
    | err text =>
      rw [Mfa.verifyInitialEnableApproval, he, Mfa.whenPresent_some, haccount]
      rfl
    | panic text =>
      rw [Mfa.verifyInitialEnableApproval, he, Mfa.whenPresent_some, haccount]
      rfl

end Erase

end Reads

/-- The order of the loops of `requirement`. -/
def Env.order (env : Env) : Order := ⟨fun m => env.range m.entries, fun m => env.range_perm m.entries⟩

section

variable (env : Env) (ctx : Ctx) (s : PolicyStore env.bech32) (tx : Tx)

theorem Reads.checkApprovals_outcome (required : Accounts) :
    (Reads.checkApprovals env env.order ctx s tx required).outcome = Mfa.checkApprovals env ctx s tx required := by
  unfold Reads.checkApprovals Mfa.checkApprovals
  cases parseMFAMemo env tx with
  | error e => split_ifs <;> rfl
  | ok memo =>
    cases memo with
    | none => split_ifs <;> rfl
    | some m =>
      split_ifs
      · simp only [Reads.verifyApprovals, Metered.outcome_bind, Metered.outcome_lift, Reads.checkEach_outcome]
        rfl
      · rfl

/-- Without the count this is the decorator; the order of the first loop does not show. -/
theorem Reads.requirement_outcome (order : Order) :
    (Reads.requirement env order env.order ctx s tx).outcome = Mfa.requirement env ctx s tx := by
  simp only [Reads.requirement, Mfa.requirement, Metered.outcome_bind, Reads.requiredCandidates_outcome,
    Reads.accountsWithPolicy_eq, Outcome.ok_bind, Reads.checkApprovals_outcome, Reads.whenPresent_outcome,
    Reads.verifyInitialEnableApproval_outcome]

/-- In every order of both loops the decorator ends alike, after as many reads. -/
def Deterministic : Prop :=
  ∀ o₁ o₂ o₁' o₂' : Order,
    Metered.Same SdkError.root (Reads.requirement env o₁ o₂ ctx s tx) (Reads.requirement env o₁' o₂' ctx s tx)

/-- The checks of all accounts that an approval is required of end alike. -/
def SameVerdicts : Prop :=
  ∀ m candidates msgsHash signers, parseMFAMemo env tx = .ok (some m) →
    requiredCandidates env s tx (some m) = .ok candidates → payloadParts env ctx tx = .ok (msgsHash, signers) →
    ∀ e ∈ (accountsWithPolicy env s candidates).entries, ∀ e' ∈ (accountsWithPolicy env s candidates).entries,
      (verifyRequired env ctx s m tx.timeoutHeight msgsHash signers e.1 e.2).verdict SdkError.root =
        (verifyRequired env ctx s m tx.timeoutHeight msgsHash signers e'.1 e'.2).verdict SdkError.root

variable {env ctx s tx}

/-- The second loop, with what follows it. -/
theorem checkApprovals_same_iff {required : Accounts} {g : Unit → Metered SdkError Unit} :
    (∀ o o' : Order, Metered.Same SdkError.root (Reads.checkApprovals env o ctx s tx required >>= g)
      (Reads.checkApprovals env o' ctx s tx required >>= g)) ↔
      ∀ m msgsHash signers, parseMFAMemo env tx = .ok (some m) →
        payloadParts env ctx tx = .ok (msgsHash, signers) → ∀ e ∈ required.entries, ∀ e' ∈ required.entries,
          (verifyRequired env ctx s m tx.timeoutHeight msgsHash signers e.1 e.2).verdict SdkError.root =
            (verifyRequired env ctx s m tx.timeoutHeight msgsHash signers e'.1 e'.2).verdict SdkError.root := by
  by_cases hne : required.entries = []
  · rw [hne]
    refine ⟨fun _ _ _ _ _ _ _ he => absurd he List.not_mem_nil, ?_⟩
    intro _ o o'
    unfold Reads.checkApprovals
    rw [if_neg (not_not.mpr hne), if_neg (not_not.mpr hne)]
    exact Metered.Same.refl _
  unfold Reads.checkApprovals
  simp only [if_pos hne]
  -- without the loop nothing depends on the order
  cases hm : parseMFAMemo env tx with
  | error e => simp [Metered.Same.refl]
  | ok memo =>
    cases memo with
    | none => simp [Metered.Same.refl]
    | some m =>
      simp only [Reads.verifyApprovals]
      cases hparts : payloadParts env ctx tx with
      | err e =>
        refine ⟨?_, fun _ _ _ => Metered.Same.refl _⟩
        intro _ _ _ _ _ hok
        cases hok
      | panic text =>
        refine ⟨?_, fun _ _ _ => Metered.Same.refl _⟩
        intro _ _ _ _ _ hok
        cases hok
      | ok parts =>
        simp only [Metered.lift_ok_bind]
        refine ⟨?_, ?_⟩
        · intro h m' msgsHash signers hm' hparts'
          cases hm'
          cases hparts'
          refine (Metered.checkEach_same_iff (g := g)).mp ?_
          intro l₁ l₂ h₁ h₂
          obtain ⟨o, ho⟩ := SortedMap.RangeOrder.exists_range h₁
          obtain ⟨o', ho'⟩ := SortedMap.RangeOrder.exists_range h₂
          have hsame := h o o'
          rw [ho, ho'] at hsame
          exact hsame
        · intro h o o'
          exact Metered.checkEach_same_iff.mpr (h m parts.1 parts.2 rfl rfl) _ _ (o.perm required)
            (o'.perm required)

/-- The decorator is deterministic exactly if the checks of all required accounts end alike. -/
theorem deterministic_iff (env : Env) (ctx : Ctx) (s : PolicyStore env.bech32) (tx : Tx) :
    Deterministic env ctx s tx ↔ SameVerdicts env ctx s tx := by
  have hloop : Deterministic env ctx s tx ↔
      ∀ candidates, requiredCandidates env s tx (parseMFAMemo env tx).toOption.join = .ok candidates →
        ∀ o o' : Order, Metered.Same SdkError.root
          (Reads.checkApprovals env o ctx s tx (accountsWithPolicy env s candidates) >>= fun _ =>
            Reads.whenPresent (parseMFAMemo env tx).toOption.join ()
              (Reads.verifyInitialEnableApproval env ctx s tx))
          (Reads.checkApprovals env o' ctx s tx (accountsWithPolicy env s candidates) >>= fun _ =>
            Reads.whenPresent (parseMFAMemo env tx).toOption.join ()
              (Reads.verifyInitialEnableApproval env ctx s tx)) := by
    simp only [Deterministic, Reads.requirement, Reads.accountsWithPolicy_eq, Metered.bind_same_iff,
      Reads.requiredCandidates_outcome]
    refine ⟨?_, ?_⟩
    · intro h candidates hc o o'
      exact h o o o' o' candidates hc _ rfl
    · intro h o₁ o₂ o₁' o₂' candidates hc required hrequired
      cases hrequired
      exact h candidates hc o₂ o₂'
  rw [hloop]
  refine ⟨?_, ?_⟩
  · intro h m candidates msgsHash signers hm hc hparts
    refine checkApprovals_same_iff.mp (h candidates ?_) m msgsHash signers hm hparts
    rw [hm]
    exact hc
  · intro h candidates hc
    refine checkApprovals_same_iff.mpr ?_
    intro m msgsHash signers hm hparts
    rw [hm] at hc
    exact h m candidates msgsHash signers hm hc hparts

end

namespace Sample

open Sdk.Sample

/-- The wallet's self-send needs one approval, so there is one order. -/
theorem self_send_deterministic : Deterministic approvedChain start store (carrierTx approvedText) := by
  refine (deterministic_iff approvedChain start store (carrierTx approvedText)).mpr ?_
  intro m candidates msgsHash signers hm hc _ e he e' he'
  cases approvedText_memo.symm.trans hm
  have hcandidates : requiredCandidates approvedChain store (carrierTx approvedText) (some approvedMemo) =
      .ok (SortedMap.empty.set aliceText alice) := by
    decide +kernel
  cases hcandidates.symm.trans hc
  rw [List.mem_singleton.mp (mem_accountsWithPolicy.mp he).1, List.mem_singleton.mp (mem_accountsWithPolicy.mp he').1]

/-- Alice's approval has expired, and there is none for Bob. -/
def expiredMemo : MemoMFA := ⟨[⟨aliceText, 1600000000, signatureText⟩], none, none, none, none, none, none, none⟩

def expiredText : String :=
  String.ofList ("\x7b\"dochain_mfa\":\x7b\"approvals\":[\x7b\"account\":\"".toList ++ aliceText.toList ++
    "\",\"expires_at\":1600000000,\"signature\":\"".toList ++ signatureText.toList ++ "\"\x7d]\x7d\x7d".toList)

def expiredChain : Env := exchangeChain fun text =>
  if text = expiredText then .ok (some expiredMemo) else .error "invalid character"

def backwards : Order := ⟨fun m => m.entries.reverse, fun m => m.entries.reverse_perm⟩

/-- Two accounts have a policy and spend. In one order the transaction fails with the expired
approval, in the other with the missing one. -/
theorem order_decides_error :
    ((Reads.requirement expiredChain .byKey .byKey start guardedStore (exchangeTx expiredText)).outcome.verdict
        SdkError.root = .fail errMFARequired) ∧
    ((Reads.requirement expiredChain .byKey backwards start guardedStore (exchangeTx expiredText)).outcome.verdict
        SdkError.root = .fail errExpiredMFAApproval) ∧
    ¬ Deterministic expiredChain start guardedStore (exchangeTx expiredText) := by
  have hforwards : (Reads.requirement expiredChain .byKey .byKey start guardedStore
      (exchangeTx expiredText)).outcome.verdict SdkError.root = .fail errMFARequired := by
    decide +kernel
  have hbackwards : (Reads.requirement expiredChain .byKey backwards start guardedStore
      (exchangeTx expiredText)).outcome.verdict SdkError.root = .fail errExpiredMFAApproval := by
    decide +kernel
  refine ⟨hforwards, hbackwards, ?_⟩
  intro h
  have hsame := (h .byKey .byKey .byKey backwards).verdict
  rw [hforwards, hbackwards] at hsame
  cases hsame

end Sample

end Mfa
