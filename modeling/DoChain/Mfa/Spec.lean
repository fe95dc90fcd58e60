import DoChain.Mfa.Ante

/- What an accepted transaction shows.

   The decorators read six optional control fields, of which at most one may be
   present. `Control` is that one action, and on a memo whose count was checked
   the two decorators are functions of it (`addControlRequirements_eq`,
   `applyControlActions_eq`). The rest of this module inverts acceptance: an
   account that was asked for an approval has one (`required_approved`), and a
   control action that was applied is one of six, each with what it checked. -/

namespace Mfa

open Sdk

variable {env : Env} {ctx : Ctx} {s s' : PolicyStore env.bech32} {tx : Tx} {m : MemoMFA}

/-! ## Small inversions -/

@[simp] theorem account_eq_ok {text t : String} {a : AccAddress} :
    env.account text t = .ok a ↔ env.bech32.accAddressFromBech32 t = .ok a := by
  simp [Env.account]

@[simp] theorem whenPresent_none {α β : Type} (b : β) (f : α → Outcome SdkError β) :
    whenPresent none b f = .ok b := rfl

@[simp] theorem whenPresent_some {α β : Type} (a : α) (b : β) (f : α → Outcome SdkError β) :
    whenPresent (some a) b f = f a := rfl

/-- The account is among the transaction's signers. -/
def Tx.SignedBy (tx : Tx) (a : AccAddress) : Prop := ∃ signers, tx.signers = .ok signers ∧ a ∈ signers

@[simp] theorem requireTxSigner_eq_ok {a : AccAddress} {u : Unit} :
    requireTxSigner env tx a = .ok u ↔ tx.SignedBy a := by
  simp [requireTxSigner, Outcome.bind_eq_ok, Tx.SignedBy]

theorem accountWithPolicy_eq_ok {text t noPolicy : String} {a : AccAddress} {p : Policy} :
    accountWithPolicy env s text t noPolicy = .ok (a, p) ↔
      env.bech32.accAddressFromBech32 t = .ok a ∧ env.policy s a = some p := by
  simp only [accountWithPolicy, Outcome.bind_eq_ok, account_eq_ok, Outcome.ofOption_eq_ok]
  refine ⟨?_, ?_⟩
  · intro hmeets
    obtain ⟨b, hb, q, hq, h⟩ := hmeets
    cases h
    exact ⟨hb, hq⟩
  · intro hmeets
    obtain ⟨ha, hp⟩ := hmeets
    exact ⟨a, ha, p, hp, rfl⟩

theorem signedPolicy_eq_ok {text t noPolicy : String} {a : AccAddress} {p : Policy} :
    signedPolicy env tx s text t noPolicy = .ok (a, p) ↔
      env.bech32.accAddressFromBech32 t = .ok a ∧ tx.SignedBy a ∧ env.policy s a = some p := by
  simp only [signedPolicy, Outcome.bind_eq_ok, account_eq_ok, Outcome.ofOption_eq_ok,
    requireTxSigner_eq_ok]
  refine ⟨?_, ?_⟩
  · intro hmeets
    obtain ⟨b, hb, _, hs, q, hq, h⟩ := hmeets
    cases h
    exact ⟨hb, hs, hq⟩
  · intro hmeets
    obtain ⟨ha, hs, hp⟩ := hmeets
    exact ⟨a, ha, (), hs, p, hp, rfl⟩

/-! ## The one control action of a memo -/

/-- A control action the memo can carry. -/
inductive Control where
  | enable (e : MemoEnable)
  | disable (d : MemoDisable)
  | setGuardian (g : MemoSetGuardian)
  | recoveryStart (r : MemoRecoveryStart)
  | recoveryCancel (r : MemoRecoveryCancel)
  | recoveryExecute (r : MemoRecoveryExecute)
  deriving DecidableEq, Repr

/-- The account text an action names. -/
def Control.account : Control → String
  | enable e => e.account
  | disable d => d.account
  | setGuardian g => g.account
  | recoveryStart r => r.account
  | recoveryCancel r => r.account
  | recoveryExecute r => r.account

/-- The action of a memo, the first that is present. -/
def MemoMFA.control (m : MemoMFA) : Option Control :=
  m.enable.map .enable <|> m.disable.map .disable <|> m.setGuardian.map .setGuardian <|>
    m.recoveryStart.map .recoveryStart <|> m.recoveryCancel.map .recoveryCancel <|>
    m.recoveryExecute.map .recoveryExecute

/-- The memo with its control fields replaced by one action or none. -/
def MemoMFA.withControl (m : MemoMFA) (c : Option Control) : MemoMFA where
  approvals := m.approvals
  enable := c.bind (fun | .enable e => some e | _ => none)
  disable := c.bind (fun | .disable d => some d | _ => none)
  setGuardian := c.bind (fun | .setGuardian g => some g | _ => none)
  recoveryStart := c.bind (fun | .recoveryStart r => some r | _ => none)
  recoveryCancel := c.bind (fun | .recoveryCancel r => some r | _ => none)
  recoveryExecute := c.bind (fun | .recoveryExecute r => some r | _ => none)
  guardianApproval := m.guardianApproval

@[simp] theorem withControl_approvals (m : MemoMFA) (c : Option Control) :
    (m.withControl c).approvals = m.approvals := rfl

@[simp] theorem withControl_guardianApproval (m : MemoMFA) (c : Option Control) :
    (m.withControl c).guardianApproval = m.guardianApproval := rfl

@[simp] theorem control_withControl (m : MemoMFA) (c : Option Control) :
    (m.withControl c).control = c := by
  cases c with
  | none => rfl
  | some c => cases c <;> rfl

@[simp] theorem withControl_withControl (m : MemoMFA) (c c' : Option Control) :
    (m.withControl c).withControl c' = m.withControl c' := rfl

/-- One action or none passes the count. -/
@[simp] theorem validateControlActionCount_withControl (m : MemoMFA) (c : Option Control) :
    validateControlActionCount (m.withControl c) = .ok () := by
  cases c with
  | none => rfl
  | some c => cases c <;> rfl

/-- A memo that passes the count carries its one action and nothing else. -/
theorem withControl_control (h : validateControlActionCount m = .ok ()) :
    m.withControl m.control = m := by
  obtain ⟨ap, en, di, sg, rs, rc, re, ga⟩ := m
  simp only [validateControlActionCount, Outcome.failIf_eq_ok, not_lt] at h
  cases en <;> cases di <;> cases sg <;> cases rs <;> cases rc <;> cases re <;>
    first
    | rfl
    | simp at h

/-- `addControlRequirements` by the one action of the memo. -/
def requireControl (env : Env) (s : PolicyStore env.bech32) (accounts : Accounts) :
    Option Control → Outcome SdkError Accounts
  | none => .ok accounts
  | some (.enable e) => requireEnable env s accounts e
  | some (.disable d) => requireDisable env s accounts d
  | some (.setGuardian g) => requireSetGuardian env s accounts g
  | some (.recoveryStart r) => do requireRecoveryStart env s r; .ok accounts
  | some (.recoveryCancel r) => do requireRecoveryCancel env s r; .ok accounts
  | some (.recoveryExecute r) => do requireRecoveryExecute env s r; .ok accounts

theorem addControlRequirements_eq (accounts : Accounts) (m : MemoMFA) (c : Option Control) :
    addControlRequirements env s accounts (m.withControl c) = requireControl env s accounts c := by
  cases c with
  | none => rfl
  | some c => cases c <;> first | rfl | exact Outcome.bind_ok _

/-- `applyControlActions` by the one action of the memo. -/
def applyControl (env : Env) (ctx : Ctx) (tx : Tx) (s : PolicyStore env.bech32) :
    Option Control → Outcome SdkError (PolicyStore env.bech32)
  | none => .ok s
  | some (.enable e) => applyEnable env tx s e
  | some (.disable d) => applyDisable env tx s d
  | some (.setGuardian g) => applySetGuardian env tx s g
  | some (.recoveryStart r) => applyRecoveryStart env ctx tx s r
  | some (.recoveryCancel r) => applyRecoveryCancel env tx s r
  | some (.recoveryExecute r) => applyRecoveryExecute env ctx tx s r

theorem applyControlActions_eq (m : MemoMFA) (c : Option Control) :
    applyControlActions env ctx tx s (m.withControl c) = applyControl env ctx tx s c := by
  cases c with
  | none => rfl
  | some c => cases c <;> first | rfl | exact Outcome.bind_ok _

theorem controlApply_eq (hm : parseMFAMemo env tx = .ok (some m)) :
    controlApply env ctx tx s = .ok s' ↔
      validateControlActionCount m = .ok () ∧ applyControl env ctx tx s m.control = .ok s' := by
  simp only [controlApply, hm, Outcome.check_bind_eq_ok]
  refine and_congr_right (fun hcount => ?_)
  rw [← applyControlActions_eq m, withControl_control hcount]

/-! ## What a control action does -/

/-- A policy that was written is read back, and no other account's is touched. -/
theorem policy_of_setPolicy {a : AccAddress} {p : Policy} (h : setPolicy env s p = .ok s')
    (hacc : p.account = env.bech32.string a) (hen : p.enabled = true) :
    (∀ a', a' ≠ a → env.policy s' a' = env.policy s a') ∧ env.policy s' a = some p := by
  simp only [setPolicy, Outcome.ofExcept_eq_ok, PolicyStore.setPolicy_eq_ok] at h
  obtain ⟨hv, rfl⟩ := h
  refine ⟨?_, ?_⟩
  · intro a' hne
    rw [Env.policy, PolicyStore.getPolicy_put, hacc, if_neg]
    · rfl
    · intro heq
      exact hne (env.bech32.string_injective heq)
  · rw [Env.policy, PolicyStore.getPolicy_put, if_pos hacc.symm]
    simp [hen]

theorem policy_deletePolicy (env : Env) (s : PolicyStore env.bech32) (a : AccAddress) :
    (∀ a', a' ≠ a → env.policy (s.deletePolicy a) a' = env.policy s a') ∧
      env.policy (s.deletePolicy a) a = none := by
  refine ⟨?_, ?_⟩
  · intro a' hne
    rw [Env.policy, PolicyStore.getPolicy_deletePolicy, if_neg hne]
    rfl
  · rw [Env.policy, PolicyStore.getPolicy_deletePolicy, if_pos rfl]

/-- What a control action makes of the policy of the account it names. -/
def Effect (env : Env) (ctx : Ctx) (s s' : PolicyStore env.bech32) (b : AccAddress) : Control → Prop
  | .enable e => ∃ key, env.decodeBase64 e.approvalPubKey = .ok key ∧
      env.policy s' b = some { newPolicy env.bech32 b key with
        guardianAddress :=
          if e.guardianAddress = "" then ((env.policy s b).map Policy.guardianAddress).getD ""
          else e.guardianAddress }
  | .disable _ => env.policy s' b = none
  | .setGuardian g => ∃ p, env.policy s b = some p ∧
      env.policy s' b = some { p with guardianAddress := g.guardianAddress }
  | .recoveryStart r => ∃ p key, env.policy s b = some p ∧
      recoveryApprovalPubKey env r.action r.approvalPubKey = .ok key ∧
      env.policy s' b = some { p with
        pendingRecovery := some ⟨r.action, key, ctx.blockTime,
          wrap64 (ctx.blockTime + recoveryDelaySeconds)⟩ }
  | .recoveryCancel _ => ∃ p, env.policy s b = some p ∧
      env.policy s' b = some { p with pendingRecovery := none }
  | .recoveryExecute _ => ∃ p r, env.policy s b = some p ∧ p.pendingRecovery = some r ∧
      r.executeAfter ≤ ctx.blockTime ∧
      ((r.action = recoveryActionDisable ∧ env.policy s' b = none) ∨
       (r.action = recoveryActionRotate ∧
        env.policy s' b = some { newPolicy env.bech32 b r.approvalPubKey with
          guardianAddress := p.guardianAddress }))

/-- An action that was applied names an account that signs the transaction, has
its effect on that account, and leaves every other account alone. -/
theorem applyControl_effect {c : Control} (h : applyControl env ctx tx s (some c) = .ok s') :
    ∃ b, env.bech32.accAddressFromBech32 c.account = .ok b ∧ tx.SignedBy b ∧
      (∀ a, a ≠ b → env.policy s' a = env.policy s a) ∧ Effect env ctx s s' b c := by
  cases c with
  | enable e =>
    simp only [applyControl, applyEnable, Outcome.bind_eq_ok,
      account_eq_ok, requireTxSigner_eq_ok, Outcome.ofExcept_eq_ok] at h
    obtain ⟨b, hb, _, hsig, key, hkey, _, _, hset⟩ := h
    obtain ⟨hframe, hpol⟩ := policy_of_setPolicy (a := b) hset rfl rfl
    exact ⟨b, hb, hsig, hframe, key, hkey, hpol⟩
  | disable d =>
    simp only [applyControl, applyDisable, Outcome.bind_eq_ok,
      account_eq_ok, requireTxSigner_eq_ok] at h
    obtain ⟨b, hb, _, hsig, hs'⟩ := h
    cases hs'
    obtain ⟨hframe, hpol⟩ := policy_deletePolicy env s b
    exact ⟨b, hb, hsig, hframe, hpol⟩
  | setGuardian g =>
    simp only [applyControl, applySetGuardian, Outcome.bind_eq_ok,
      account_eq_ok, requireTxSigner_eq_ok, Outcome.ofOption_eq_ok] at h
    obtain ⟨b, hb, _, hsig, _, _, p, hp, hset⟩ := h
    obtain ⟨hacc, hen, _⟩ := PolicyStore.getPolicy_spec hp
    obtain ⟨hframe, hpol⟩ := policy_of_setPolicy hset hacc hen
    exact ⟨b, hb, hsig, hframe, p, hp, hpol⟩
  | recoveryStart r =>
    simp only [applyControl, applyRecoveryStart, Outcome.bind_eq_ok] at h
    obtain ⟨⟨b, p⟩, hsp, key, hkey, hset⟩ := h
    obtain ⟨hb, hsig, hp⟩ := signedPolicy_eq_ok.mp hsp
    obtain ⟨hacc, hen, _⟩ := PolicyStore.getPolicy_spec hp
    obtain ⟨hframe, hpol⟩ := policy_of_setPolicy hset hacc hen
    exact ⟨b, hb, hsig, hframe, p, key, hp, hkey, hpol⟩
  | recoveryCancel r =>
    simp only [applyControl, applyRecoveryCancel, Outcome.bind_eq_ok] at h
    obtain ⟨⟨b, p⟩, hsp, hset⟩ := h
    obtain ⟨hb, hsig, hp⟩ := signedPolicy_eq_ok.mp hsp
    obtain ⟨hacc, hen, _⟩ := PolicyStore.getPolicy_spec hp
    obtain ⟨hframe, hpol⟩ := policy_of_setPolicy hset hacc hen
    exact ⟨b, hb, hsig, hframe, p, hp, hpol⟩
  | recoveryExecute r =>
    simp only [applyControl, applyRecoveryExecute, Outcome.bind_eq_ok,
      Outcome.ofOption_eq_ok, Outcome.failIf_eq_ok, not_lt] at h
    obtain ⟨⟨b, p⟩, hsp, pending, hpend, _, htime, h⟩ := h
    obtain ⟨hb, hsig, hp⟩ := signedPolicy_eq_ok.mp hsp
    split_ifs at h with hdis hrot
    · cases h
      obtain ⟨hframe, hpol⟩ := policy_deletePolicy env s b
      exact ⟨b, hb, hsig, hframe, p, pending, hp, hpend, htime, .inl ⟨hdis, hpol⟩⟩
    · obtain ⟨hframe, hpol⟩ := policy_of_setPolicy (a := b) h rfl rfl
      exact ⟨b, hb, hsig, hframe, p, pending, hp, hpend, htime, .inr ⟨hrot, hpol⟩⟩

/-! ## Approvals -/

/-- The memo carries an unexpired approval for the account, and its signature
verifies under the key over the payload of this transaction. -/
def ApprovedBy (env : Env) (ctx : Ctx) (tx : Tx) (m : MemoMFA) (key : Bytes) (account : String) :
    Prop :=
  ∃ approval ∈ m.approvals, approval.account = account ∧ ctx.blockTime < approval.expiresAt ∧
    ∃ signature msgsHash signers, env.decodeBase64 approval.signature = .ok signature ∧
      payloadParts env ctx tx = .ok (msgsHash, signers) ∧
      env.verifySignature key
        ((newApprovalPayload ctx account approval.expiresAt tx.timeoutHeight msgsHash
          signers).signBytes env.sortedNumber) signature = true

/-- The memo carries an unexpired guardian approval for the account: it names the
memo's own action, and it verifies under a key whose address is the guardian. -/
def GuardianApproved (env : Env) (ctx : Ctx) (tx : Tx) (m : MemoMFA) (guardian account : String) :
    Prop :=
  ∃ approval, m.guardianApproval = some approval ∧ approval.account = account ∧
    ctx.blockTime < approval.expiresAt ∧
    ∃ action newKey key signature msgsHash signers,
      guardianControlAction m = some (action, newKey) ∧
      env.decodeBase64 approval.guardianPubKey = .ok key ∧
      env.bech32.string (env.pubKeyAddress key) = guardian ∧
      env.decodeBase64 approval.signature = .ok signature ∧
      payloadParts env ctx tx = .ok (msgsHash, signers) ∧
      env.verifySignature key
        ((newGuardianApprovalPayload ctx account guardian action newKey approval.expiresAt
          tx.timeoutHeight msgsHash signers).signBytes env.sortedNumber) signature = true

theorem verifyApproval_eq_ok {account : String} {key : Bytes} {approval : MemoApproval} {th : Nat}
    {parts : Outcome SdkError (String × List SignerSequence)} {e₁ e₂ e₃ : SdkError} {u : Unit} :
    verifyApproval env ctx account key approval th parts e₁ e₂ e₃ = .ok u ↔
      ctx.blockTime < approval.expiresAt ∧
      ∃ signature msgsHash signers, env.decodeBase64 approval.signature = .ok signature ∧
        parts = .ok (msgsHash, signers) ∧
        env.verifySignature key ((newApprovalPayload ctx account approval.expiresAt th msgsHash
          signers).signBytes env.sortedNumber) signature = true := by
  simp only [verifyApproval, Outcome.bind_eq_ok, Outcome.failIf_eq_ok, Outcome.ofExcept_eq_ok,
    not_le, Bool.not_eq_false]
  refine ⟨?_, ?_⟩
  · intro hmeets
    obtain ⟨_, ht, sig, hsig, ⟨h, ss⟩, hp, hv⟩ := hmeets
    exact ⟨ht, sig, h, ss, hsig, hp, hv⟩
  · intro hmeets
    obtain ⟨ht, sig, h, ss, hsig, hp, hv⟩ := hmeets
    exact ⟨(), ht, sig, hsig, (h, ss), hp, hv⟩

theorem guardianKeyAddress_eq_ok {key : Bytes} {a : AccAddress} :
    guardianKeyAddress env key = .ok a ↔ key.length = pubKeySize ∧ env.pubKeyAddress key = a := by
  simp only [guardianKeyAddress]
  split <;> simp_all

theorem verifyGuardianApproval_true {account : String} {p : Policy} {msgsHash : String}
    {signers : List SignerSequence} (hparts : payloadParts env ctx tx = .ok (msgsHash, signers))
    (h : verifyGuardianApproval env ctx account p m tx.timeoutHeight msgsHash signers = .ok true) :
    GuardianApproved env ctx tx m p.guardianAddress account := by
  cases hg : m.guardianApproval with
  | none => simp [verifyGuardianApproval, hg] at h
  | some approval =>
    simp only [verifyGuardianApproval, hg, Outcome.bind_eq_ok, Outcome.failIf_eq_ok,
      Outcome.ofOption_eq_ok] at h
    obtain ⟨_, _, ⟨action, newKey⟩, haction, h⟩ := h
    by_cases hacc : approval.account = account
    · simp only [hacc, ne_eq, not_true_eq_false, if_false, Outcome.bind_eq_ok,
        Outcome.failIf_eq_ok, Outcome.ofExcept_eq_ok, guardianKeyAddress_eq_ok, not_le, not_not,
        Bool.not_eq_false] at h
      obtain ⟨_, _, _, _, _, htime, key, hkey, _, ⟨_, rfl⟩, _, hguard, sig, hsig, _, hv, _⟩ := h
      refine ⟨approval, hg, hacc, htime, action, newKey, key, sig, msgsHash, signers, haction, hkey,
        hguard, hsig, hparts, hv⟩
    · simp [hacc] at h

theorem approvalByAccount_some {approvals : List MemoApproval} {account : String}
    {a : MemoApproval} (h : approvalByAccount approvals account = some a) :
    a ∈ approvals ∧ a.account = account :=
  ⟨List.mem_reverse.mp (List.mem_of_find?_eq_some h), by simpa using List.find?_some h⟩

theorem approvalForAccount_some {approvals : List MemoApproval} {account : String}
    {a : MemoApproval} (h : approvalForAccount approvals account = some a) :
    a ∈ approvals ∧ a.account = account :=
  ⟨List.mem_of_find?_eq_some h, by simpa using List.find?_some h⟩

/-- An account with a policy passes the loop by an approval of its key or of its
guardian. -/
theorem verifyRequired_approved {account : String} {a : AccAddress} {p : Policy} {msgsHash : String}
    {signers : List SignerSequence} (hparts : payloadParts env ctx tx = .ok (msgsHash, signers))
    (hp : env.policy s a = some p)
    (h : verifyRequired env ctx s m tx.timeoutHeight msgsHash signers account a = .ok ()) :
    ApprovedBy env ctx tx m p.approvalPubKey account ∨
      GuardianApproved env ctx tx m p.guardianAddress account := by
  simp only [verifyRequired, hp] at h
  cases happ : approvalByAccount m.approvals account with
  | some approval =>
    simp only [happ, verifyApproval_eq_ok] at h
    obtain ⟨htime, sig, mh, ss, hsig, hok, hv⟩ := h
    cases hok
    obtain ⟨hmem, hacc⟩ := approvalByAccount_some happ
    exact .inl ⟨approval, hmem, hacc, htime, sig, msgsHash, signers, hsig, hparts, hv⟩
  | none =>
    simp only [happ, Outcome.bind_eq_ok, Outcome.failIf_eq_ok, Bool.not_eq_false] at h
    obtain ⟨_, hg, rfl⟩ := h
    exact .inr (verifyGuardianApproval_true hparts hg)

theorem verifyAll_eq_ok {th : Nat} {msgsHash : String} {signers : List SignerSequence}
    {l : List (String × AccAddress)} :
    verifyAll env ctx s m th msgsHash signers l = .ok () ↔
      ∀ e ∈ l, verifyRequired env ctx s m th msgsHash signers e.1 e.2 = .ok () := by
  induction l with
  | nil => simp [verifyAll]
  | cons e rest ih => simp [verifyAll, Outcome.check_bind_eq_ok, ih]

/-! ## The requirement decorator, inverted -/

/-- What the requirement decorator established before it called `next`. -/
theorem requirement_inv (h : requirement env ctx s tx = .ok ()) :
    ∃ candidates, requiredCandidates env s tx (parseMFAMemo env tx).toOption.join = .ok candidates ∧
      ((accountsWithPolicy env s candidates).entries ≠ [] → ∃ m, parseMFAMemo env tx = .ok (some m) ∧
        verifyApprovals env ctx s tx (accountsWithPolicy env s candidates) m = .ok ()) ∧
      ∀ m, parseMFAMemo env tx = .ok (some m) →
        verifyInitialEnableApproval env ctx s tx m = .ok () := by
  simp only [requirement, Outcome.bind_eq_ok] at h
  obtain ⟨candidates, hc, _, hv, hi⟩ := h
  refine ⟨candidates, hc, ?_, ?_⟩
  · intro hne
    simp only [checkApprovals, if_pos hne] at hv
    cases hp : parseMFAMemo env tx with
    | error e => simp [hp] at hv
    | ok o =>
      cases o with
      | none => simp [hp] at hv
      | some m => exact ⟨m, rfl, by simpa [hp] using hv⟩
  · intro m hm
    simpa [hm, Except.toOption] using hi

/-- The requirement decorator on a memo that was read. -/
theorem requirement_of_memo (hm : parseMFAMemo env tx = .ok (some m)) :
    requirement env ctx s tx = (do
      let candidates ← requiredCandidates env s tx (some m)
      if (accountsWithPolicy env s candidates).entries ≠ [] then
        verifyApprovals env ctx s tx (accountsWithPolicy env s candidates) m
      else .ok ()
      verifyInitialEnableApproval env ctx s tx m) := by
  simp only [requirement, checkApprovals, hm, Except.toOption, Option.join_some, whenPresent_some]
  refine congrArg _ (funext ?_)
  intro candidates
  split_ifs <;> rfl

theorem mem_accountsWithPolicy {accounts : Accounts} {e : String × AccAddress} :
    e ∈ (accountsWithPolicy env s accounts).entries ↔
      e ∈ accounts.entries ∧ (env.policy s e.2).isSome := by
  simp [accountsWithPolicy]

/-- A candidate with a policy went through the loop of `verifyApprovals`. -/
theorem required_verified {candidates : Accounts} {account : String} {a : AccAddress} {p : Policy}
    (hv : (accountsWithPolicy env s candidates).entries ≠ [] → ∃ m, parseMFAMemo env tx = .ok (some m) ∧
        verifyApprovals env ctx s tx (accountsWithPolicy env s candidates) m = .ok ())
    (ha : candidates.get account = some a) (hp : env.policy s a = some p) :
    ∃ m msgsHash signers, parseMFAMemo env tx = .ok (some m) ∧
      payloadParts env ctx tx = .ok (msgsHash, signers) ∧
      verifyRequired env ctx s m tx.timeoutHeight msgsHash signers account a = .ok () := by
  have hmem : (account, a) ∈ (accountsWithPolicy env s candidates).entries :=
    mem_accountsWithPolicy.mpr ⟨SortedMap.get_eq_some.mp ha, by simp [hp]⟩
  obtain ⟨m, hm, hver⟩ := hv (List.ne_nil_of_mem hmem)
  simp only [verifyApprovals, Outcome.bind_eq_ok] at hver
  obtain ⟨⟨msgsHash, signers⟩, hparts, hall⟩ := hver
  exact ⟨m, msgsHash, signers, hm, hparts,
    verifyAll_eq_ok.mp hall (account, a) ((env.range_perm _).mem_iff.mpr hmem)⟩

/-- A candidate with a policy has been approved, by its key or by its guardian. -/
theorem required_approved {candidates : Accounts} {account : String} {a : AccAddress} {p : Policy}
    (hv : (accountsWithPolicy env s candidates).entries ≠ [] → ∃ m, parseMFAMemo env tx = .ok (some m) ∧
        verifyApprovals env ctx s tx (accountsWithPolicy env s candidates) m = .ok ())
    (ha : candidates.get account = some a) (hp : env.policy s a = some p) :
    ∃ m, parseMFAMemo env tx = .ok (some m) ∧
      (ApprovedBy env ctx tx m p.approvalPubKey account ∨
        GuardianApproved env ctx tx m p.guardianAddress account) := by
  obtain ⟨m, msgsHash, signers, hm, hparts, hone⟩ := required_verified hv ha hp
  exact ⟨m, hm, verifyRequired_approved hparts hp hone⟩

end Mfa
