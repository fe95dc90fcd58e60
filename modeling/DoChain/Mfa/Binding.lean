import DoChain.Mfa.Protected

/- What an approval binds.

   An approval signs the chain, the account, its expiry, the timeout height, the
   hash of the messages and the signers' sequences. It does not sign the memo,
   and the control action stands in the memo. `approval_binds_iff` says for which
   transactions an approval still fixes everything: those the account does not
   sign itself, so that no control action on it can be applied, and whose messages
   and timeout height are the only ones with their sorted JSON.

   `Env.Sound` collects what this needs of the surroundings: a signature verifies
   for one document per key, SHA-256 has no collisions, the sorted JSON of the
   messages shows who spends `udo`, and a memo can be written again with another
   control action. -/

namespace Mfa

open Sdk

variable {env : Env} {ctx : Ctx} {s s' : PolicyStore env.bech32} {t t₁ t₂ : Tx}
  {m m₁ m₂ : MemoMFA} {a : AccAddress} {sig : Bytes}

/-! ## Control actions on one account -/

/-- A control action without the account it names. -/
inductive Action where
  | enable (newKey : Except String Bytes) (guardian : String)
  | disable
  | setGuardian (guardian : String)
  | recoveryStart (action newKey : String)
  | recoveryCancel
  | recoveryExecute
  deriving DecidableEq

def Control.action (env : Env) : Control → Action
  | .enable e => .enable (env.decodeBase64 e.approvalPubKey) e.guardianAddress
  | .disable _ => .disable
  | .setGuardian g => .setGuardian g.guardianAddress
  | .recoveryStart r => .recoveryStart r.action r.approvalPubKey
  | .recoveryCancel _ => .recoveryCancel
  | .recoveryExecute _ => .recoveryExecute

/-- The action of a memo on an account, if it has one. -/
def controlOn (env : Env) (m : MemoMFA) (a : AccAddress) : Option Action :=
  match m.control with
  | none => none
  | some c =>
    if env.bech32.accAddressFromBech32 c.account = .ok a then some (c.action env) else none

/-- An account that does not sign is not acted on, and keeps its policy. -/
theorem unsigned_untouched (hm : parseMFAMemo env t = .ok (some m))
    (h : controlApply env ctx t s = .ok s') (hsig : ¬ t.SignedBy a) :
    controlOn env m a = none ∧ env.policy s' a = env.policy s a := by
  obtain ⟨_, happ⟩ := (controlApply_eq hm).mp h
  cases hc : m.control with
  | none =>
    rw [hc] at happ
    cases happ
    exact ⟨by rw [controlOn, hc], rfl⟩
  | some c =>
    rw [hc] at happ
    obtain ⟨b, hb, hsigned, hframe, _⟩ := applyControl_effect happ
    have hne : a ≠ b := by
      intro hab
      exact hsig (hab ▸ hsigned)
    refine ⟨?_, hframe a hne⟩
    simp only [controlOn, hc]
    rw [if_neg]
    intro ha
    rw [ha] at hb
    exact hne (Except.ok.inj hb)

/-! ## The payload -/

theorem hexDigit_injective : ∀ i < 16, ∀ j < 16, hexDigit i = hexDigit j → i = j := by decide

theorem hexEncode_injective : Function.Injective hexEncode := by
  intro b c h
  replace h := String.ofList_injective h
  induction b generalizing c with
  | nil =>
    cases c with
    | nil => rfl
    | cons y c => simp at h
  | cons x b ih =>
    cases c with
    | nil => simp at h
    | cons y c =>
      simp only [List.flatMap_cons, List.cons_append, List.nil_append, List.cons.injEq] at h
      obtain ⟨hhigh, hlow, hrest⟩ := h
      have hx := x.toNat_lt
      have hy := y.toNat_lt
      have h1 : x.toNat / 16 = y.toNat / 16 := hexDigit_injective _ (by omega) _ (by omega) hhigh
      have h2 : x.toNat % 16 = y.toNat % 16 := hexDigit_injective _ (by omega) _ (by omega) hlow
      have hxy : x = y := UInt8.toNat_inj.mp (by omega)
      rw [hxy, ih hrest]

theorem payloadParts_eq_ok {msgsHash : String} {signers : List SignerSequence} :
    payloadParts env ctx t = .ok (msgsHash, signers) ↔
      ∃ input addrs, hashInput env t.msgs = .ok input ∧ msgsHash = hexEncode (env.sha256 input) ∧
        t.signers = .ok addrs ∧
        signers = addrs.map (fun x => ⟨env.bech32.string x, (ctx.sequenceOf x).getD 0⟩) := by
  simp only [payloadParts, messagesHash, signerSequences, Outcome.bind_eq_ok,
    Outcome.ofExcept_eq_ok]
  refine ⟨?_, ?_⟩
  · intro h
    obtain ⟨_, ⟨input, hin, h1⟩, _, ⟨addrs, hsig, h2⟩, h3⟩ := h
    cases h1
    cases h2
    cases h3
    exact ⟨input, addrs, hin, rfl, hsig, rfl⟩
  · intro h
    obtain ⟨input, addrs, hin, rfl, hsig, rfl⟩ := h
    exact ⟨_, ⟨input, hin, rfl⟩, _, ⟨addrs, hsig, rfl⟩, rfl⟩

/-- What the sign bytes of an approval determine. -/
theorem signBytes_inj {p q : ApprovalPayload}
    (h : p.signBytes env.sortedNumber = q.signBytes env.sortedNumber) :
    env.sortedNumber p.timeoutHeight = env.sortedNumber q.timeoutHeight ∧
      p.messagesHash = q.messagesHash ∧
      p.signers.map SignerSequence.address = q.signers.map SignerSequence.address := by
  simp only [ApprovalPayload.signBytes, signersJson, List.cons.injEq, Prod.mk.injEq,
    JsonValue.str.injEq, JsonValue.num.injEq, JsonValue.signers.injEq, true_and, and_true] at h
  obtain ⟨_, _, _, hhash, hsigners, htimeout, _⟩ := h
  refine ⟨htimeout, hhash, ?_⟩
  have hfst := congrArg (List.map Prod.fst) hsigners
  simpa [List.map_map, Function.comp_def] using hfst

/-! ## A requirement met by an approval -/

/-- The surroundings behave as their documentation says. -/
structure Env.Sound (env : Env) : Prop where
  one_document : ∀ key sig doc doc', env.verifySignature key doc sig = true →
    env.verifySignature key doc' sig = true → doc = doc'
  sha256_injective : Function.Injective env.sha256
  json_shows_spenders : ∀ msgs msgs' input, hashInput env msgs = .ok input →
    hashInput env msgs' = .ok input → protectedAccounts env msgs = protectedAccounts env msgs'
  memo_rewritable : ∀ text m, env.unmarshalMemo text = .ok (some m) → ∀ account,
    (∃ text', text' ≠ "" ∧
      env.unmarshalMemo text' = .ok (some (m.withControl (some (.disable ⟨account⟩))))) ∧
    (∃ text', text' ≠ "" ∧
      env.unmarshalMemo text' = .ok (some (m.withControl (some (.setGuardian ⟨account, ""⟩)))))

/-- The transaction needs the account's approval, and its memo gives it with this
signature and without a guardian. -/
structure SatisfiedBy (env : Env) (s : PolicyStore env.bech32) (t : Tx) (m : MemoMFA)
    (a : AccAddress) (sig : Bytes) : Prop where
  memo : parseMFAMemo env t = .ok (some m)
  no_guardian : m.guardianApproval = none
  required : ∃ candidates, requiredCandidates env s t (some m) = .ok candidates ∧
    Has env candidates a
  policy : (env.policy s a).isSome
  approval : ∃ approval, approvalByAccount m.approvals (env.bech32.string a) = some approval ∧
    env.decodeBase64 approval.signature = .ok sig

/-- No other height below `2^64` has the same number in sorted JSON. -/
def ExactHeight (env : Env) (height : Nat) : Prop :=
  ∀ h' : Nat, h' < 2 ^ 64 → env.sortedNumber h' = env.sortedNumber height → h' = height

/-- No other messages have the same sorted JSON. -/
def ExactMsgs (env : Env) (msgs : List Msg) : Prop :=
  ∀ msgs', hashInput env msgs' = hashInput env msgs → msgs' = msgs

/-- The signature of an accepted transaction verifies under the stored key, over
the payload of the transaction. -/
theorem SatisfiedBy.verified (h : SatisfiedBy env s t m a sig)
    (hr : requirement env ctx s t = .ok ()) :
    ∃ p expiresAt msgsHash signers, env.policy s a = some p ∧
      payloadParts env ctx t = .ok (msgsHash, signers) ∧
      env.verifySignature p.approvalPubKey ((newApprovalPayload ctx (env.bech32.string a) expiresAt
        t.timeoutHeight msgsHash signers).signBytes env.sortedNumber) sig = true := by
  obtain ⟨p, hp⟩ := Option.isSome_iff_exists.mp h.policy
  obtain ⟨approval, happ, hsig⟩ := h.approval
  obtain ⟨candidates, hc, ha⟩ := h.required
  obtain ⟨candidates', hc', hv, _⟩ := requirement_inv hr
  rw [h.memo] at hc'
  obtain rfl : candidates = candidates' := Outcome.ok.inj (hc.symm.trans hc')
  obtain ⟨m', msgsHash, signers, hm', hparts, hone⟩ := required_verified hv ha hp
  obtain rfl : m = m' := Option.some.inj (Except.ok.inj (h.memo.symm.trans hm'))
  simp only [verifyRequired, hp, happ, verifyApproval_eq_ok] at hone
  obtain ⟨_, sig', _, _, hsig', hok, hver⟩ := hone
  rw [hsig] at hsig'
  cases hsig'
  cases hok
  exact ⟨p, approval.expiresAt, msgsHash, signers, hp, hparts, hver⟩

/-- Two transactions accepted with one signature agree on all that is signed. -/
theorem same_payload (hs : env.Sound) (hr₁ : requirement env ctx s t₁ = .ok ())
    (hr₂ : requirement env ctx s t₂ = .ok ()) (h₁ : SatisfiedBy env s t₁ m₁ a sig)
    (h₂ : SatisfiedBy env s t₂ m₂ a sig) :
    hashInput env t₂.msgs = hashInput env t₁.msgs ∧ t₁.signers = t₂.signers ∧
      env.sortedNumber t₂.timeoutHeight = env.sortedNumber t₁.timeoutHeight := by
  obtain ⟨p₁, e₁, hash₁, ss₁, hp₁, hparts₁, hver₁⟩ := h₁.verified hr₁
  obtain ⟨p₂, e₂, hash₂, ss₂, hp₂, hparts₂, hver₂⟩ := h₂.verified hr₂
  obtain rfl : p₁ = p₂ := Option.some.inj (hp₁.symm.trans hp₂)
  obtain ⟨htimeout, hhash, haddr⟩ := signBytes_inj (hs.one_document _ _ _ _ hver₁ hver₂)
  obtain ⟨in₁, addrs₁, hin₁, rfl, hsig₁, rfl⟩ := payloadParts_eq_ok.mp hparts₁
  obtain ⟨in₂, addrs₂, hin₂, rfl, hsig₂, rfl⟩ := payloadParts_eq_ok.mp hparts₂
  have hin : in₁ = in₂ := hs.sha256_injective (hexEncode_injective hhash)
  have haddrs : addrs₁ = addrs₂ := by
    simp only [newApprovalPayload, List.map_map] at haddr
    exact List.map_injective_iff.mpr env.bech32.string_injective haddr
  exact ⟨by rw [hin₁, hin₂, hin], by rw [hsig₁, hsig₂, haddrs], htimeout.symm⟩

/-! ## Another transaction under the same approval -/

/-- The timeout height enters an approval only by its number in sorted JSON. -/
theorem verifyApproval_congr {account : String} {key : Bytes} {approval : MemoApproval}
    {parts : Outcome SdkError (String × List SignerSequence)} {e₁ e₂ e₃ : SdkError} {h₁ h₂ : Nat}
    (hh : env.sortedNumber h₂ = env.sortedNumber h₁) :
    verifyApproval env ctx account key approval h₂ parts e₁ e₂ e₃ =
      verifyApproval env ctx account key approval h₁ parts e₁ e₂ e₃ := by
  have hbytes : ∀ msgsHash signers,
      (newApprovalPayload ctx account approval.expiresAt h₂ msgsHash signers).signBytes
        env.sortedNumber =
      (newApprovalPayload ctx account approval.expiresAt h₁ msgsHash signers).signBytes
        env.sortedNumber := by
    intro msgsHash signers
    simp only [ApprovalPayload.signBytes, newApprovalPayload, hh]
  refine congrArg _ (funext fun _ => congrArg _ (funext fun _ => congrArg _ (funext ?_)))
  intro ⟨msgsHash, signers⟩
  dsimp only
  rw [hbytes]

theorem verifyRequired_congr {account : String} {x : AccAddress} {msgsHash : String}
    {signers : List SignerSequence} {h₁ h₂ : Nat} (happ : m₂.approvals = m₁.approvals)
    (hg₁ : m₁.guardianApproval = none) (hg₂ : m₂.guardianApproval = none)
    (hh : env.sortedNumber h₂ = env.sortedNumber h₁) :
    verifyRequired env ctx s m₂ h₂ msgsHash signers account x =
      verifyRequired env ctx s m₁ h₁ msgsHash signers account x := by
  simp only [verifyRequired, verifyGuardianApproval, happ, hg₁, hg₂, verifyApproval_congr hh]

/-- A transaction that asks for no more accounts, with the same approvals over the
same payload, passes where the other did. -/
theorem requirement_transfer {cand₁ cand₂ : Accounts} (hr₁ : requirement env ctx s t₁ = .ok ())
    (hm₁ : parseMFAMemo env t₁ = .ok (some m₁)) (hg₁ : m₁.guardianApproval = none)
    (hc₁ : requiredCandidates env s t₁ (some m₁) = .ok cand₁)
    (hm₂ : parseMFAMemo env t₂ = .ok (some m₂)) (hg₂ : m₂.guardianApproval = none)
    (hc₂ : requiredCandidates env s t₂ (some m₂) = .ok cand₂)
    (happ : m₂.approvals = m₁.approvals)
    (hparts : payloadParts env ctx t₂ = payloadParts env ctx t₁)
    (hh : env.sortedNumber t₂.timeoutHeight = env.sortedNumber t₁.timeoutHeight)
    (hsub : ∀ e ∈ cand₂.entries, e ∈ cand₁.entries)
    (hinit : verifyInitialEnableApproval env ctx s t₂ m₂ = .ok ()) :
    requirement env ctx s t₂ = .ok () := by
  obtain ⟨cand₁', hc₁', hv, _⟩ := requirement_inv hr₁
  rw [hm₁] at hc₁'
  obtain rfl : cand₁ = cand₁' := Outcome.ok.inj (hc₁.symm.trans hc₁')
  rw [requirement_of_memo hm₂, hc₂, Outcome.ok_bind, hinit]
  split_ifs with hne
  · -- whoever is asked now was asked before, and the check is the same
    have hsub' : ∀ e ∈ (accountsWithPolicy env s cand₂).entries,
        e ∈ (accountsWithPolicy env s cand₁).entries := by
      intro e he
      rw [mem_accountsWithPolicy] at he ⊢
      exact ⟨hsub e he.1, he.2⟩
    obtain ⟨e, he⟩ := List.exists_mem_of_ne_nil _ hne
    obtain ⟨m, hm, hver⟩ := hv (List.ne_nil_of_mem (hsub' e he))
    obtain rfl : m₁ = m := Option.some.inj (Except.ok.inj (hm₁.symm.trans hm))
    obtain ⟨parts, hok, hall⟩ := Outcome.bind_eq_ok.mp hver
    refine Outcome.check_bind_eq_ok.mpr ⟨Outcome.bind_eq_ok.mpr
      ⟨parts, hparts.trans hok, verifyAll_eq_ok.mpr ?_⟩, rfl⟩
    intro e he
    rw [verifyRequired_congr happ hg₁ hg₂ hh]
    refine verifyAll_eq_ok.mp hall e ((env.range_perm _).mem_iff.mpr ?_)
    exact hsub' e ((env.range_perm _).mem_iff.mp he)
  · rfl

theorem verifyInitialEnableApproval_congr (hsig : t₂.signers = t₁.signers)
    (hparts : payloadParts env ctx t₂ = payloadParts env ctx t₁)
    (hh : env.sortedNumber t₂.timeoutHeight = env.sortedNumber t₁.timeoutHeight) :
    verifyInitialEnableApproval env ctx s t₂ m = verifyInitialEnableApproval env ctx s t₁ m := by
  simp only [verifyInitialEnableApproval, requireTxSigner, hsig, hparts, verifyApproval_congr hh]

/-- Where the memo carries a recovery, the control requirement adds no account. -/
theorem requireControl_recovery {accounts accounts' : Accounts} {c : Option Control} {text : String}
    (hrec : recoveryAccountText (m.withControl c) = some text)
    (h : requireControl env s accounts c = .ok accounts') : accounts' = accounts := by
  match c, hrec, h with
  | some (.recoveryStart r), _, h | some (.recoveryCancel r), _, h
  | some (.recoveryExecute r), _, h =>
    obtain ⟨_, h⟩ := Outcome.check_bind_eq_ok.mp h
    exact (Outcome.ok.inj h).symm

/-- The carrier of a recovery protects no account but its own. -/
theorem carrier_protects {accounts : Accounts} {b : AccAddress}
    (hcar : requireRecoveryControlCarrier env t b = .ok ())
    (hprot : protectedAccounts env t.msgs = .ok accounts) (ha : Has env accounts a) : a = b := by
  by_cases hne : t.msgs = []
  · rw [hne] at hprot
    cases hprot
    simp [Has] at ha
  · rw [requireRecoveryControlCarrier_inv hcar hne] at hprot
    obtain ⟨accounts', hadd, hnil⟩ := Outcome.bind_eq_ok.mp hprot
    cases hnil
    obtain ⟨x, hx, rfl⟩ := addAccount_eq_ok.mp hadd
    have hxb : x = b := env.bech32.eq_of_decode hx
    simp only [Has, SortedMap.get_set, SortedMap.get_empty] at ha
    split_ifs at ha with heq
    rw [← hxb]
    exact (Option.some.inj ha).symm

/-- A transaction that asks for an account's approval bypasses nobody. -/
theorem requiredCandidates_inv {candidates : Accounts}
    (hc : requiredCandidates env s t (some m) = .ok candidates) (ha : Has env candidates a) :
    ∃ accounts, protectedAccounts env t.msgs = .ok accounts ∧
      validateControlActionCount m = .ok () ∧
      requireControl env s accounts m.control = .ok candidates ∧
      recoveryBypassAccount env m = .ok none := by
  obtain ⟨accounts, hprot, hc⟩ := Outcome.bind_eq_ok.mp hc
  obtain ⟨hcount, hc⟩ := Outcome.check_bind_eq_ok.mp hc
  obtain ⟨mid, hmid, hby⟩ := Outcome.bind_eq_ok.mp hc
  rw [← withControl_control hcount, addControlRequirements_eq] at hmid
  obtain ⟨o, ho, hby⟩ := Outcome.bind_eq_ok.mp hby
  refine ⟨accounts, hprot, hcount, ?_⟩
  cases o with
  | none =>
    cases hby
    exact ⟨hmid, ho⟩
  | some b =>
    -- the bypassed account would be the only candidate, and it is taken out
    exfalso
    obtain ⟨hcar, hcand⟩ := Outcome.check_bind_eq_ok.mp hby
    cases hcand
    cases hrec : recoveryAccountText m with
    | none => simp [recoveryBypassAccount, hrec] at ho
    | some text =>
      rw [← withControl_control hcount] at hrec
      rw [requireControl_recovery hrec hmid] at ha
      simp only [Has, SortedMap.get_erase] at ha
      split_ifs at ha with heq
      exact heq (congrArg _ (carrier_protects hcar hprot ha))

/-- Every protected account stands under its rendered address. -/
theorem protectedAccounts_keyed {accounts : Accounts} {msgs : List Msg}
    (h : protectedAccounts env msgs = .ok accounts) {k : String} {x : AccAddress}
    (hx : accounts.get k = some x) : k = env.bech32.string x := by
  have hkeyed : ∀ k x, accounts.get k = some x → k = env.bech32.string x := by
    refine addProtectedList_preserves
      (P := fun acc => ∀ k x, acc.get k = some x → k = env.bech32.string x) ?_ h ?_
    · intro acc b hacc k x hx
      rw [SortedMap.get_set] at hx
      split_ifs at hx with hk
      · rw [hk, Option.some.inj hx]
      · exact hacc k x hx
    · intro k x hx
      simp at hx
  exact hkeyed k x hx

/-- An account with a policy can be written and read. -/
theorem decode_of_policy {p : Policy} (hp : env.policy s a = some p) :
    env.bech32.accAddressFromBech32 (env.bech32.string a) = .ok a := by
  obtain ⟨hacc, _, hv⟩ := PolicyStore.getPolicy_spec hp
  cases hd : env.bech32.accAddressFromBech32 (env.bech32.string a) with
  | error e => simp [Policy.validateBasic, hacc, hd] at hv
  | ok a' => rw [env.bech32.eq_of_decode hd]

theorem validateBasic_without_guardian {b : Bech32} {p : Policy} (h : p.validateBasic b = .ok ()) :
    ({ p with guardianAddress := "" } : Policy).validateBasic b = .ok () := by
  simp only [Policy.validateBasic] at h ⊢
  cases hd : b.accAddressFromBech32 p.account with
  | error e => simp [hd] at h
  | ok x =>
    simp only [hd] at h ⊢
    split_ifs at h ⊢ with hen hkey
    · rfl
    · split at h
      · cases h
      · exact h
    · split at h
      · cases h
      · exact h

/-- The two actions that any signer with a policy can take on its account. -/
def Retarget (env : Env) (a : AccAddress) (c : Control) : Prop :=
  c = .disable ⟨env.bech32.string a⟩ ∨ c = .setGuardian ⟨env.bech32.string a, ""⟩

theorem requireControl_retarget {accounts : Accounts} {p : Policy} {c : Control}
    (hp : env.policy s a = some p) (hc : Retarget env a c) :
    requireControl env s accounts (some c) = .ok (accounts.set (env.bech32.string a) a) := by
  have hd := decode_of_policy hp
  cases hc with
  | inl hc =>
    rw [hc]
    exact Outcome.bind_eq_ok.mpr ⟨(a, p), accountWithPolicy_eq_ok.mpr ⟨hd, hp⟩, rfl⟩
  | inr hc =>
    rw [hc]
    exact Outcome.bind_eq_ok.mpr ⟨(a, p), accountWithPolicy_eq_ok.mpr ⟨hd, hp⟩, rfl⟩

theorem applyControl_retarget (ctx : Ctx) (t : Tx) {p : Policy} {c : Control}
    (hp : env.policy s a = some p) (hsig : t.SignedBy a) (hc : Retarget env a c) :
    ∃ s', applyControl env ctx t s (some c) = .ok s' := by
  have hd := decode_of_policy hp
  cases hc with
  | inl hc =>
    refine ⟨s.deletePolicy a, ?_⟩
    rw [hc]
    exact Outcome.bind_eq_ok.mpr ⟨a, account_eq_ok.mpr hd,
      Outcome.check_bind_eq_ok.mpr ⟨requireTxSigner_eq_ok.mpr hsig, rfl⟩⟩
  | inr hc =>
    have hv := validateBasic_without_guardian (PolicyStore.getPolicy_spec hp).2.2
    refine ⟨s.put _ hv, ?_⟩
    rw [hc]
    refine Outcome.bind_eq_ok.mpr ⟨a, account_eq_ok.mpr hd,
      Outcome.check_bind_eq_ok.mpr ⟨requireTxSigner_eq_ok.mpr hsig,
      Outcome.check_bind_eq_ok.mpr ⟨rfl,
      Outcome.bind_eq_ok.mpr ⟨p, Outcome.ofOption_eq_ok.mpr hp, ?_⟩⟩⟩⟩
    exact Outcome.ofExcept_eq_ok.mpr (PolicyStore.setPolicy_eq_ok.mpr ⟨hv, rfl⟩)

/-- A transaction that its account signs is accepted as well with another control
action on the account in its memo, under the same approval. -/
theorem accepts_retarget {text : String} {c : Control} (hacc : Accepts env ctx s t s')
    (h : SatisfiedBy env s t m a sig) (hsig : t.SignedBy a) (hc : Retarget env a c)
    (hne : text ≠ "") (htext : env.unmarshalMemo text = .ok (some (m.withControl (some c)))) :
    ∃ s₂, Accepts env ctx s { t with memo := text } s₂ ∧
      SatisfiedBy env s { t with memo := text } (m.withControl (some c)) a sig := by
  obtain ⟨p, hp⟩ := Option.isSome_iff_exists.mp h.policy
  obtain ⟨candidates, hcand, hhas⟩ := h.required
  obtain ⟨accounts, hprot, _, hreq, _⟩ := requiredCandidates_inv hcand hhas
  have hm : parseMFAMemo env { t with memo := text } = .ok (some (m.withControl (some c))) := by
    rw [parseMFAMemo, if_neg hne, htext]
  have hcand₂ : requiredCandidates env s { t with memo := text } (some (m.withControl (some c))) =
      .ok (accounts.set (env.bech32.string a) a) := by
    refine Outcome.bind_eq_ok.mpr ⟨accounts, hprot, Outcome.check_bind_eq_ok.mpr
      ⟨validateControlActionCount_withControl m _, Outcome.bind_eq_ok.mpr
        ⟨accounts.set (env.bech32.string a) a, ?_, ?_⟩⟩⟩
    · rw [addControlRequirements_eq]
      exact requireControl_retarget hp hc
    · cases hc with
      | inl hc => rw [hc]; rfl
      | inr hc => rw [hc]; rfl
  have hsub : ∀ e ∈ (accounts.set (env.bech32.string a) a).entries, e ∈ candidates.entries := by
    intro e he
    obtain ⟨k, x⟩ := e
    rw [← SortedMap.get_eq_some] at he ⊢
    rw [SortedMap.get_set] at he
    split_ifs at he with hk
    · rw [hk, ← Option.some.inj he]
      exact hhas
    · obtain rfl := protectedAccounts_keyed hprot he
      exact requireControl_has hreq he
  have hinit : verifyInitialEnableApproval env ctx s { t with memo := text }
      (m.withControl (some c)) = .ok () := by
    cases hc with
    | inl hc => rw [hc]; rfl
    | inr hc => rw [hc]; rfl
  have hr := requirement_transfer hacc.1 h.memo h.no_guardian hcand hm h.no_guardian hcand₂ rfl rfl
    rfl hsub hinit
  obtain ⟨s₂, hs₂⟩ := applyControl_retarget ctx { t with memo := text } hp hsig hc
  refine ⟨s₂, ⟨hr, ?_⟩, hm, h.no_guardian, ⟨_, hcand₂, has_set_self accounts a⟩, h.policy,
    h.approval⟩
  rw [controlApply_eq hm, control_withControl]
  exact ⟨validateControlActionCount_withControl m _, hs₂⟩

/-- The same transaction with a height or messages of the same sorted JSON is
accepted under the same approval. -/
theorem accepts_same_json (t₂ : Tx) (hacc : Accepts env ctx s t₁ s')
    (h : SatisfiedBy env s t₁ m a sig)
    (hmemo : t₂.memo = t₁.memo) (hsig : t₂.signers = t₁.signers)
    (hin : hashInput env t₂.msgs = hashInput env t₁.msgs)
    (hprot : protectedAccounts env t₂.msgs = protectedAccounts env t₁.msgs)
    (hh : env.sortedNumber t₂.timeoutHeight = env.sortedNumber t₁.timeoutHeight) :
    Accepts env ctx s t₂ s' ∧ SatisfiedBy env s t₂ m a sig := by
  obtain ⟨candidates, hcand, hhas⟩ := h.required
  obtain ⟨accounts, hprot₁, hcount, hreq, hby⟩ := requiredCandidates_inv hcand hhas
  have hm : parseMFAMemo env t₂ = .ok (some m) := by
    rw [parseMFAMemo, hmemo]
    exact h.memo
  have hparts : payloadParts env ctx t₂ = payloadParts env ctx t₁ := by
    simp only [payloadParts, messagesHash, signerSequences, hin, hsig]
  have hcand₂ : requiredCandidates env s t₂ (some m) = .ok candidates := by
    refine Outcome.bind_eq_ok.mpr ⟨accounts, hprot.trans hprot₁, Outcome.check_bind_eq_ok.mpr
      ⟨hcount, Outcome.bind_eq_ok.mpr ⟨candidates, ?_, ?_⟩⟩⟩
    · rw [← addControlRequirements_eq accounts m, withControl_control hcount] at hreq
      exact hreq
    · exact Outcome.bind_eq_ok.mpr ⟨none, hby, rfl⟩
  have hinit : verifyInitialEnableApproval env ctx s t₂ m = .ok () := by
    rw [verifyInitialEnableApproval_congr hsig hparts hh]
    obtain ⟨_, _, _, hinit⟩ := requirement_inv hacc.1
    exact hinit m h.memo
  refine ⟨⟨?_, ?_⟩, hm, h.no_guardian, ⟨candidates, hcand₂, hhas⟩, h.policy, h.approval⟩
  · exact requirement_transfer hacc.1 h.memo h.no_guardian hcand hm h.no_guardian hcand₂ rfl hparts
      hh (fun _ he => he) hinit
  · have hctl := hacc.2
    rw [controlApply_eq h.memo] at hctl
    rw [controlApply_eq hm]
    refine ⟨hctl.1, ?_⟩
    rw [← hctl.2]
    cases m.control with
    | none => rfl
    | some c =>
      cases c <;> simp only [applyControl, applyEnable, applyDisable, applySetGuardian,
        applyRecoveryStart, applyRecoveryCancel, applyRecoveryExecute, signedPolicy,
        requireTxSigner, hsig]

/-- An accepted approval of an account fixes the messages, the signers, the timeout
height, the control action on the account and the policy it is left with, in any
other accepted transaction with the same signature, exactly when the account does
not sign the transaction itself and its messages and timeout height are the only
ones with their sorted JSON. -/
theorem approval_binds_iff (env : Env) (hs : env.Sound) (ctx : Ctx) (s s₁ : PolicyStore env.bech32)
    (t₁ : Tx) (m₁ : MemoMFA) (a : AccAddress) (sig : Bytes) (hacc₁ : Accepts env ctx s t₁ s₁)
    (h₁ : SatisfiedBy env s t₁ m₁ a sig) :
    (∀ t₂ m₂ s₂, Accepts env ctx s t₂ s₂ → SatisfiedBy env s t₂ m₂ a sig →
      t₁.msgs = t₂.msgs ∧ t₁.signers = t₂.signers ∧ t₁.timeoutHeight = t₂.timeoutHeight ∧
      controlOn env m₁ a = controlOn env m₂ a ∧ env.policy s₁ a = env.policy s₂ a) ↔
    ¬ t₁.SignedBy a ∧ ExactMsgs env t₁.msgs ∧ ExactHeight env t₁.timeoutHeight := by
  refine ⟨?_, ?_⟩
  · intro hbind
    refine ⟨?_, ?_, ?_⟩
    · -- a signer can take another action under the same approval
      intro hsig
      have hmemo : env.unmarshalMemo t₁.memo = .ok (some m₁) := by
        have hm := h₁.memo
        rw [parseMFAMemo] at hm
        split_ifs at hm
        · cases hm
        · exact hm
      obtain ⟨⟨d, hdne, hd⟩, g, hgne, hg⟩ := hs.memo_rewritable _ _ hmemo (env.bech32.string a)
      obtain ⟨p, hp⟩ := Option.isSome_iff_exists.mp h₁.policy
      have hdec := decode_of_policy hp
      obtain ⟨s₂, hacc₂, h₂⟩ := accepts_retarget hacc₁ h₁ hsig (.inl rfl) hdne hd
      obtain ⟨s₃, hacc₃, h₃⟩ := accepts_retarget hacc₁ h₁ hsig (.inr rfl) hgne hg
      obtain ⟨_, _, _, hctl₂, _⟩ := hbind _ _ _ hacc₂ h₂
      obtain ⟨_, _, _, hctl₃, _⟩ := hbind _ _ _ hacc₃ h₃
      have hne := hctl₂.symm.trans hctl₃
      simp [controlOn, Control.account, Control.action, hdec] at hne
    · intro msgs' hin
      obtain ⟨_, _, _, _, _, hparts, _⟩ := h₁.verified hacc₁.1
      obtain ⟨input, _, hin₁, _⟩ := payloadParts_eq_ok.mp hparts
      have hprot := hs.json_shows_spenders _ _ _ (hin.trans hin₁) hin₁
      obtain ⟨hacc₂, h₂⟩ := accepts_same_json { t₁ with msgs := msgs' } hacc₁ h₁ rfl rfl hin
        hprot rfl
      exact (hbind _ _ _ hacc₂ h₂).1.symm
    · intro h' hlt hnum
      obtain ⟨hacc₂, h₂⟩ := accepts_same_json
        { t₁ with timeoutHeight := h', timeout_uint64 := hlt } hacc₁ h₁ rfl rfl rfl rfl hnum
      exact (hbind _ _ _ hacc₂ h₂).2.2.1.symm
  · intro hcond t₂ m₂ s₂ hacc₂ h₂
    obtain ⟨hsig, hmsgs, hheight⟩ := hcond
    obtain ⟨hin, hsigners, hnum⟩ := same_payload hs hacc₁.1 hacc₂.1 h₁ h₂
    have hsig₂ : ¬ t₂.SignedBy a := by
      rw [Tx.SignedBy, ← hsigners]
      exact hsig
    obtain ⟨hctl₁, hpol₁⟩ := unsigned_untouched h₁.memo hacc₁.2 hsig
    obtain ⟨hctl₂, hpol₂⟩ := unsigned_untouched h₂.memo hacc₂.2 hsig₂
    refine ⟨(hmsgs _ hin).symm, hsigners, (hheight _ t₂.timeout_uint64 hnum).symm, ?_, ?_⟩
    · rw [hctl₁, hctl₂]
    · rw [hpol₁, hpol₂]

/-! ## The wallet again

The approved self-send, and the same approval with `disable` written behind it in
the memo. -/

namespace Sample

open Sdk.Sample

def disableField : List Char := ",\"disable\":\x7b\"account\":\"".toList
def guardianField : List Char := ",\"set_guardian\":\x7b\"account\":\"".toList
def controlEnd : List Char := "\"\x7d\x7d\x7d".toList
def memoEnd : List Char := "\x7d\x7d".toList

/-- What stands between a start and an end of a text. -/
def between (start finish text : List Char) : Option String :=
  let rest := text.drop start.length
  if text.take start.length = start ∧ rest.drop (rest.length - finish.length) = finish then
    some (String.ofList (rest.take (rest.length - finish.length)))
  else none

theorem between_append (start finish x : List Char) :
    between start finish (start ++ (x ++ finish)) = some (String.ofList x) := by
  simp [between]

/-- A start that goes on otherwise than the text does is not found. -/
theorem between_eq_none {c d x finish : List Char} (h : x.take d.length ≠ d) :
    between (c ++ d) finish (c ++ x) = none := by
  rw [between, if_neg]
  intro hand
  rw [List.length_append, List.take_length_add_append] at hand
  exact h (List.append_cancel_left hand.1)

/-- The memos with the approval, and with either action on an account or none. -/
def readControl (c : List Char) (text : String) : Except String (Option MemoMFA) :=
  match between (c ++ disableField) controlEnd text.toList with
  | some account => .ok (some (approvedMemo.withControl (some (.disable ⟨account⟩))))
  | none =>
    match between (c ++ guardianField) controlEnd text.toList with
    | some account => .ok (some (approvedMemo.withControl (some (.setGuardian ⟨account, ""⟩))))
    | none =>
      if text = String.ofList (c ++ memoEnd) then .ok (some approvedMemo)
      else .error "invalid character"

section

variable {c : List Char}

theorem readControl_disable (account : String) :
    readControl c (String.ofList (c ++ disableField ++ (account.toList ++ controlEnd))) =
      .ok (some (approvedMemo.withControl (some (.disable ⟨account⟩)))) := by
  simp only [readControl, String.toList_ofList, between_append, String.ofList_toList]

theorem readControl_setGuardian (account : String) :
    readControl c (String.ofList (c ++ guardianField ++ (account.toList ++ controlEnd))) =
      .ok (some (approvedMemo.withControl (some (.setGuardian ⟨account, ""⟩)))) := by
  have hnone : between (c ++ disableField) controlEnd
      (c ++ guardianField ++ (account.toList ++ controlEnd)) = none := by
    rw [List.append_assoc]
    apply between_eq_none
    rw [List.take_append_of_le_length (by decide)]
    decide
  simp only [readControl, String.toList_ofList, hnone, between_append, String.ofList_toList]

theorem readControl_none :
    readControl c (String.ofList (c ++ memoEnd)) = .ok (some approvedMemo) := by
  have h1 : between (c ++ disableField) controlEnd (c ++ memoEnd) = none :=
    between_eq_none (by decide)
  have h2 : between (c ++ guardianField) controlEnd (c ++ memoEnd) = none :=
    between_eq_none (by decide)
  simp only [readControl, String.toList_ofList, h1, h2, if_true]

/-- Every memo that is read has the one approval and no guardian's. -/
theorem readControl_withControl {text : String} {m : MemoMFA}
    (h : readControl c text = .ok (some m)) (k : Option Control) :
    m.withControl k = approvedMemo.withControl k := by
  unfold readControl at h
  split at h
  · cases h
    rfl
  · split at h
    · cases h
      rfl
    · split_ifs at h
      cases h
      rfl

end

def controlChain : Env := chain (readControl approvalsChars)

theorem sortedMsgJSON_eq_ok {msg : Msg} {bz : Bytes} (h : sortedMsgJSON msg = .ok bz) :
    msg = carrier ∧ bz = carrierJSON := by
  unfold sortedMsgJSON at h
  split at h
  · split_ifs at h with hc
    · obtain ⟨rfl, rfl, rfl⟩ := hc
      exact ⟨rfl, (Except.ok.inj h).symm⟩
  · cases h

theorem hashInput_eq_ok {msgs : List Msg} {input : Bytes}
    (h : hashInput controlChain msgs = .ok input) :
    msgs = List.replicate msgs.length carrier ∧
      input.length = msgs.length * carrierJSON.length := by
  induction msgs generalizing input with
  | nil =>
    cases h
    exact ⟨rfl, by simp⟩
  | cons msg rest ih =>
    simp only [hashInput] at h
    split at h
    · cases h
    · rename_i bz hbz
      split at h
      · cases h
      · rename_i tail htail
        obtain ⟨hmsg, hjson⟩ := sortedMsgJSON_eq_ok hbz
        obtain ⟨hrest, hlen⟩ := ih htail
        cases h
        refine ⟨?_, ?_⟩
        · rw [hmsg, List.length_cons, List.replicate_succ, ← hrest]
        · rw [List.length_append, hlen, hjson, List.length_cons]
          ring

theorem sha256_injective : Function.Injective sha256 := by
  intro b c h
  have hlen (x : Bytes) : carrierDigest ≠ List.replicate 33 0 ++ x := by
    intro heq
    have hl := congrArg List.length heq
    rw [List.length_append, List.length_replicate] at hl
    have hd : carrierDigest.length = 32 := rfl
    omega
  simp only [sha256] at h
  split_ifs at h with hb hc hc
  · rw [hb, hc]
  · exact absurd h (hlen c)
  · exact absurd h.symm (hlen b)
  · exact List.append_cancel_left h

theorem controlChain_sound : controlChain.Sound where
  one_document := by
    intro key sig doc doc' h h'
    have hd := (of_decide_eq_true h).2.1
    have hd' := (of_decide_eq_true h').2.1
    rw [hd, hd']
  sha256_injective := sha256_injective
  json_shows_spenders := by
    intro msgs msgs' input h h'
    obtain ⟨hm, hlen⟩ := hashInput_eq_ok h
    obtain ⟨hm', hlen'⟩ := hashInput_eq_ok h'
    have hpos : 0 < carrierJSON.length := by decide +kernel
    have heq : msgs.length = msgs'.length :=
      Nat.eq_of_mul_eq_mul_right hpos (hlen.symm.trans hlen')
    rw [hm, hm', heq]
  memo_rewritable := by
    intro text m h account
    rw [controlChain, chain_unmarshalMemo] at h ⊢
    have hne (d : List Char) (hd : d ≠ []) :
        String.ofList (approvalsChars ++ d ++ (account.toList ++ controlEnd)) ≠ "" := by
      intro hempty
      rw [String.ofList_eq_empty_iff] at hempty
      simp [hd] at hempty
    refine ⟨⟨_, hne disableField (by decide), ?_⟩, ⟨_, hne guardianField (by decide), ?_⟩⟩
    · rw [readControl_withControl h (some (.disable ⟨account⟩))]
      exact readControl_disable account
    · rw [readControl_withControl h (some (.setGuardian ⟨account, ""⟩))]
      exact readControl_setGuardian account

def plainTx : Tx := carrierTx (String.ofList (approvalsChars ++ memoEnd))

def disableTx : Tx :=
  carrierTx (String.ofList (approvalsChars ++ disableField ++ (aliceText.toList ++ controlEnd)))

def disableMemo : MemoMFA := approvedMemo.withControl (some (.disable ⟨aliceText⟩))

theorem plainTx_memo : parseMFAMemo controlChain plainTx = .ok (some approvedMemo) :=
  (chain_parseMFAMemo _ (by decide)).trans readControl_none

theorem disableTx_memo : parseMFAMemo controlChain disableTx = .ok (some disableMemo) :=
  (chain_parseMFAMemo _ (by decide)).trans (readControl_disable aliceText)

theorem plainTx_satisfied : SatisfiedBy controlChain store plainTx approvedMemo alice signature where
  memo := plainTx_memo
  no_guardian := rfl
  required := ⟨SortedMap.empty.set aliceText alice, by decide +kernel, has_set_self _ alice⟩
  policy := by decide
  approval := ⟨_, rfl, by decide⟩

theorem disableTx_satisfied :
    SatisfiedBy controlChain store disableTx disableMemo alice signature where
  memo := disableTx_memo
  no_guardian := rfl
  required := ⟨SortedMap.empty.set aliceText alice, by decide +kernel, has_set_self _ alice⟩
  policy := by decide
  approval := ⟨_, rfl, by decide⟩

theorem plainTx_accepts : Accepts controlChain start store plainTx store :=
  ⟨(requirement_of_memo plainTx_memo).trans (by decide +kernel),
    (controlApply_eq plainTx_memo).mpr ⟨rfl, rfl⟩⟩

theorem disableTx_accepts :
    Accepts controlChain start store disableTx (store.deletePolicy alice) :=
  ⟨(requirement_of_memo disableTx_memo).trans (by decide +kernel),
    (controlApply_eq disableTx_memo).mpr ⟨rfl, rfl⟩⟩

/-- One signature, two accepted transactions: the second deletes the policy that
the first leaves in place. -/
theorem approval_reused_to_disable :
    Accepts controlChain start store plainTx store ∧
    SatisfiedBy controlChain store plainTx approvedMemo alice signature ∧
    Accepts controlChain start store disableTx (store.deletePolicy alice) ∧
    SatisfiedBy controlChain store disableTx disableMemo alice signature ∧
    controlOn controlChain approvedMemo alice = none ∧
    controlOn controlChain disableMemo alice = some .disable ∧
    controlChain.policy store alice = some policy ∧
    controlChain.policy (store.deletePolicy alice) alice = none :=
  ⟨plainTx_accepts, plainTx_satisfied, disableTx_accepts, disableTx_satisfied, by decide, by decide,
    by decide, by decide⟩

/-- The wallet signs its own self-send, so its approval does not bind. -/
theorem plainTx_not_bound :
    ¬ ∀ t₂ m₂ s₂, Accepts controlChain start store t₂ s₂ →
      SatisfiedBy controlChain store t₂ m₂ alice signature →
      plainTx.msgs = t₂.msgs ∧ plainTx.signers = t₂.signers ∧
      plainTx.timeoutHeight = t₂.timeoutHeight ∧
      controlOn controlChain approvedMemo alice = controlOn controlChain m₂ alice ∧
      controlChain.policy store alice = controlChain.policy s₂ alice := by
  intro h
  have hcond := (approval_binds_iff controlChain controlChain_sound start store store plainTx
    approvedMemo alice signature plainTx_accepts plainTx_satisfied).mp h
  exact hcond.1 ⟨[alice], rfl, List.mem_singleton_self alice⟩

end Sample

end Mfa
