import DoChain.Lib.Trace
import DoChain.Mfa.Protected

/- How a policy changes over a run.

   A run is a sequence of transactions that both decorators accept, each starting
   from the store the one before it left. `policy_change_justified` says what stands
   behind every change of an account's policy: the account signed the transaction,
   and the new key approved the creation, the stored key or the stored guardian
   approved a replacement or a deletion, or a recovery that the account itself had
   started three days before came due. A recovery in between touches nothing but
   the pending request.

   A pending request remembers its start: `PendingFromStart` says that the last
   action on the account that sets or clears the request is the start it came from.
   Enabling clears the request with the rest of the old policy, so it counts among
   these actions. -/

namespace Mfa

open Sdk

variable {env : Env}

/-! ## Runs -/

/-- An accepted transaction, with the stores around it. -/
structure Step (env : Env) where
  ctx : Ctx
  tx : Tx
  before : PolicyStore env.bech32
  after : PolicyStore env.bech32
  accepted : Accepts env ctx before tx after

abbrev Run (env : Env) := Trace (@Step.before env) Step.after

/-- The control action of a step on an account. -/
def Step.action (st : Step env) (a : AccAddress) : Option Control :=
  (parseMFAMemo env st.tx).toOption.join.bind (fun m =>
    m.control.filter (fun c => env.bech32.accAddressFromBech32 c.account = .ok a))

/-- The actions that set or clear a pending recovery and leave a policy. -/
def Control.changesPending : Control → Bool
  | .enable _ => true
  | .recoveryStart _ => true
  | .recoveryCancel _ => true
  | _ => false

/-- The last action on the account that changes its pending recovery. -/
def LastPendingChange (steps : List (Step env)) (a : AccAddress) (st : Step env) (c : Control) :
    Prop :=
  ∃ past rest, steps = past ++ st :: rest ∧ st.action a = some c ∧ c.changesPending = true ∧
    ∀ st' ∈ rest, ∀ c', st'.action a = some c' → c'.changesPending = false

theorem LastPendingChange.last {past : List (Step env)} {a : AccAddress} {st : Step env}
    {c : Control} (h : st.action a = some c) (hc : c.changesPending = true) :
    LastPendingChange (past ++ [st]) a st c :=
  ⟨past, [], rfl, h, hc, by simp⟩

theorem LastPendingChange.snoc {steps : List (Step env)} {a : AccAddress} {st st' : Step env}
    {c : Control} (h : LastPendingChange steps a st c)
    (hkeep : ∀ c', st'.action a = some c' → c'.changesPending = false) :
    LastPendingChange (steps ++ [st']) a st c := by
  obtain ⟨past, rest, rfl, hact, hc, hrest⟩ := h
  refine ⟨past, rest ++ [st'], by simp, hact, hc, ?_⟩
  intro x hx
  cases List.mem_append.mp hx with
  | inl hx => exact hrest x hx
  | inr hx =>
    rw [List.mem_singleton.mp hx]
    exact hkeep

/-! ## One step -/

theorem Step.action_eq_some {st : Step env} {a : AccAddress} {c : Control}
    (h : st.action a = some c) :
    ∃ m, parseMFAMemo env st.tx = .ok (some m) ∧ m.control = some c ∧
      env.bech32.accAddressFromBech32 c.account = .ok a := by
  obtain ⟨m, hm, hc⟩ := Option.bind_eq_some_iff.mp h
  obtain ⟨hctl, hdec⟩ := Option.filter_eq_some_iff.mp hc
  refine ⟨m, ?_, hctl, by simpa using hdec⟩
  cases hp : parseMFAMemo env st.tx with
  | error e => simp [hp, Except.toOption] at hm
  | ok o => simpa [hp, Except.toOption] using hm

/-- An account that a step does not act on keeps its policy. -/
theorem Step.policy_of_no_action {st : Step env} {a : AccAddress} (h : st.action a = none) :
    env.policy st.after a = env.policy st.before a := by
  have hctl := st.accepted.2
  simp only [controlApply] at hctl
  split at hctl
  · split_ifs at hctl
    rw [Outcome.ok.inj hctl]
  · rw [Outcome.ok.inj hctl]
  · rename_i m hm
    obtain ⟨_, happ⟩ := (controlApply_eq hm).mp st.accepted.2
    cases hc : m.control with
    | none =>
      rw [hc] at happ
      rw [Outcome.ok.inj happ]
    | some c =>
      rw [hc] at happ
      obtain ⟨b, hb, _, hframe, _⟩ := applyControl_effect happ
      apply hframe
      intro hab
      simp [Step.action, hm, Except.toOption, hc, hab, hb] at h

/-- An account that a step acts on signs the transaction, and the action has its
effect. -/
theorem Step.effect {st : Step env} {a : AccAddress} {c : Control} (h : st.action a = some c) :
    st.tx.SignedBy a ∧ Effect env st.ctx st.before st.after a c := by
  obtain ⟨m, hm, hc, ha⟩ := Step.action_eq_some h
  obtain ⟨_, happ⟩ := (controlApply_eq hm).mp st.accepted.2
  rw [hc] at happ
  obtain ⟨b, hb, hsig, _, heff⟩ := applyControl_effect happ
  obtain rfl : a = b := Except.ok.inj (ha.symm.trans hb)
  exact ⟨hsig, heff⟩

/-- The transaction carries an approval of the account's stored key or of its
stored guardian. -/
def Step.Authorised (st : Step env) (a : AccAddress) (p : Policy) : Prop :=
  ∃ m, parseMFAMemo env st.tx = .ok (some m) ∧
    (ApprovedBy env st.ctx st.tx m p.approvalPubKey (env.bech32.string a) ∨
     GuardianApproved env st.ctx st.tx m p.guardianAddress (env.bech32.string a))

/-- The actions that ask for an approval of the account. -/
def Control.asksApproval : Control → Bool
  | .enable _ => true
  | .disable _ => true
  | .setGuardian _ => true
  | _ => false

/-- Such an action makes its account a candidate if it has a policy, and only
enabling works without one. -/
theorem requireControl_asks {s : PolicyStore env.bech32} {accounts accounts' : Accounts}
    {c : Control} {a : AccAddress} (h : requireControl env s accounts (some c) = .ok accounts')
    (hasks : c.asksApproval = true) (ha : env.bech32.accAddressFromBech32 c.account = .ok a) :
    (∀ p, env.policy s a = some p → Has env accounts' a) ∧
      (env.policy s a = none → ∃ e, c = .enable e) := by
  cases c with
  | enable e =>
    obtain ⟨b, hb, h⟩ := Outcome.bind_eq_ok.mp h
    obtain rfl : a = b := Except.ok.inj (ha.symm.trans (account_eq_ok.mp hb))
    refine ⟨?_, fun _ => ⟨e, rfl⟩⟩
    intro p hp
    rw [hp] at h
    cases h
    exact has_set_self accounts a
  | disable d =>
    obtain ⟨⟨b, p⟩, hb, h⟩ := Outcome.bind_eq_ok.mp h
    obtain ⟨hb, hp⟩ := accountWithPolicy_eq_ok.mp hb
    obtain rfl : a = b := Except.ok.inj (ha.symm.trans hb)
    cases h
    exact ⟨fun _ _ => has_set_self accounts a, fun hnone => by simp [hnone] at hp⟩
  | setGuardian g =>
    obtain ⟨⟨b, p⟩, hb, h⟩ := Outcome.bind_eq_ok.mp h
    obtain ⟨hb, hp⟩ := accountWithPolicy_eq_ok.mp hb
    obtain rfl : a = b := Except.ok.inj (ha.symm.trans hb)
    obtain ⟨_, h⟩ := Outcome.check_bind_eq_ok.mp h
    cases h
    exact ⟨fun _ _ => has_set_self accounts a, fun hnone => by simp [hnone] at hp⟩
  | _ => cases hasks

/-- Nobody is bypassed by an action that is no recovery. -/
theorem applyBypass_asks {tx : Tx} {accounts : Accounts} {m : MemoMFA} {c : Control}
    (hasks : c.asksApproval = true) :
    applyBypass env tx accounts (m.withControl (some c)) = .ok accounts := by
  cases c with
  | enable e => rfl
  | disable d => rfl
  | setGuardian g => rfl
  | _ => cases hasks

/-- An action that asks for an approval got it from the stored key or guardian,
or it enables an account without a policy. -/
theorem Step.asks_authorised {st : Step env} {a : AccAddress} {c : Control}
    (h : st.action a = some c) (hasks : c.asksApproval = true) :
    (∀ p, env.policy st.before a = some p → st.Authorised a p) ∧
      (env.policy st.before a = none → ∃ e, c = .enable e) := by
  obtain ⟨m, hm, hc, ha⟩ := Step.action_eq_some h
  obtain ⟨candidates, hcand, hv, _⟩ := requirement_inv st.accepted.1
  rw [hm] at hcand
  obtain ⟨accounts, _, hcand⟩ := Outcome.bind_eq_ok.mp hcand
  obtain ⟨hcount, hcand⟩ := Outcome.check_bind_eq_ok.mp hcand
  obtain ⟨mid, hmid, hby⟩ := Outcome.bind_eq_ok.mp hcand
  rw [← withControl_control hcount, hc] at hmid hby
  rw [addControlRequirements_eq] at hmid
  rw [applyBypass_asks hasks] at hby
  cases hby
  obtain ⟨hhas, hnone⟩ := requireControl_asks hmid hasks ha
  exact ⟨fun p hp => required_approved hv (hhas p hp) hp, hnone⟩

/-- An account gets its first policy by an approval of the new key. -/
theorem Step.created_approved {st : Step env} {a : AccAddress} {e : MemoEnable}
    (h : st.action a = some (.enable e)) (hnone : env.policy st.before a = none) :
    ∃ m key, parseMFAMemo env st.tx = .ok (some m) ∧ env.decodeBase64 e.approvalPubKey = .ok key ∧
      ApprovedBy env st.ctx st.tx m key (env.bech32.string a) := by
  obtain ⟨m, hm, hc, ha⟩ := Step.action_eq_some h
  obtain ⟨hcount, _⟩ := (controlApply_eq hm).mp st.accepted.2
  obtain ⟨_, _, _, hinit⟩ := requirement_inv st.accepted.1
  have hen : m.enable = some e := by
    rw [← withControl_control hcount, hc]
    rfl
  have hver := hinit m hm
  rw [verifyInitialEnableApproval, hen, whenPresent_some] at hver
  obtain ⟨b, hb, hver⟩ := Outcome.bind_eq_ok.mp hver
  obtain rfl : a = b := Except.ok.inj (ha.symm.trans (account_eq_ok.mp hb))
  rw [hnone] at hver
  simp only [Option.isSome_none, Bool.false_eq_true, if_false, Outcome.bind_eq_ok,
    Outcome.ofExcept_eq_ok, Outcome.ofOption_eq_ok, verifyApproval_eq_ok] at hver
  obtain ⟨_, _, key, hkey, _, _, _, _, approval, happ, htime, sig, hash, signers, hsig, hparts,
    hsigned⟩ := hver
  obtain ⟨hmem, hacc⟩ := approvalForAccount_some happ
  exact ⟨m, key, hm, hkey, approval, hmem, hacc, htime, sig, hash, signers, hsig, hparts, hsigned⟩

/-! ## Pending recoveries along a run -/

/-- The request came from this start, three days before it is due. -/
def StartedBy (a : AccAddress) (r : PendingRecovery) (st : Step env) (q : MemoRecoveryStart) : Prop :=
  st.tx.SignedBy a ∧ q.action = r.action ∧
    recoveryApprovalPubKey env q.action q.approvalPubKey = .ok r.approvalPubKey ∧
    r.executeAfter = st.ctx.blockTime + recoveryDelaySeconds

/-- Every pending request came from the last action that could set it. -/
def PendingFromStart (past : List (Step env)) (s : PolicyStore env.bech32) : Prop :=
  ∀ a p r, env.policy s a = some p → p.pendingRecovery = some r →
    ∃ st q, LastPendingChange past a st (.recoveryStart q) ∧ StartedBy a r st q

/-- Block times are far from the end of `int64`, so the due time does not wrap. -/
theorem wrap64_due (ctx : Ctx) :
    wrap64 (ctx.blockTime + recoveryDelaySeconds) = ctx.blockTime + recoveryDelaySeconds := by
  have hl := ctx.time_lower
  have hu := ctx.time_upper
  apply wrap64_eq <;> simp only [recoveryDelaySeconds] <;> omega

theorem pendingFromStart_step (past : List (Step env)) (st : Step env)
    (h : PendingFromStart past st.before) : PendingFromStart (past ++ [st]) st.after := by
  intro a p r hp hr
  cases hact : st.action a with
  | none =>
    rw [Step.policy_of_no_action hact] at hp
    obtain ⟨st₀, q, hlast, hstart⟩ := h a p r hp hr
    exact ⟨st₀, q, hlast.snoc (by simp [hact]), hstart⟩
  | some c =>
    obtain ⟨hsig, heff⟩ := Step.effect hact
    cases c with
    | enable e =>
      obtain ⟨key, _, hpol⟩ := heff
      rw [hpol] at hp
      cases hp
      cases hr
    | disable d =>
      rw [show env.policy st.after a = none from heff] at hp
      cases hp
    | setGuardian g =>
      -- the request stays, and so does its start
      obtain ⟨p₀, hp₀, hpol⟩ := heff
      rw [hpol] at hp
      cases hp
      obtain ⟨st₀, q, hlast, hstart⟩ := h a p₀ r hp₀ hr
      refine ⟨st₀, q, hlast.snoc ?_, hstart⟩
      intro c' hc'
      rw [hact] at hc'
      cases hc'
      rfl
    | recoveryStart q =>
      obtain ⟨p₀, key, hp₀, hkey, hpol⟩ := heff
      rw [hpol] at hp
      cases hp
      cases hr
      exact ⟨st, q, .last hact rfl, hsig, rfl, hkey, wrap64_due st.ctx⟩
    | recoveryCancel q =>
      obtain ⟨p₀, _, hpol⟩ := heff
      rw [hpol] at hp
      cases hp
      cases hr
    | recoveryExecute q =>
      obtain ⟨p₀, r₀, _, _, _, hdone⟩ := heff
      cases hdone with
      | inl hdone =>
        rw [hdone.2] at hp
        cases hp
      | inr hdone =>
        rw [hdone.2] at hp
        cases hp
        cases hr

/-! ## Every change is justified -/

/-- What stands behind an action that changed the policy of an account, given the
steps before it. -/
def Justified (past : List (Step env)) (st : Step env) (a : AccAddress) : Control → Prop
  | .enable e =>
    match env.policy st.before a with
    | none => ∃ m key, parseMFAMemo env st.tx = .ok (some m) ∧
        env.decodeBase64 e.approvalPubKey = .ok key ∧
        ApprovedBy env st.ctx st.tx m key (env.bech32.string a)
    | some p => st.Authorised a p
  | .disable _ => ∃ p, env.policy st.before a = some p ∧ st.Authorised a p
  | .setGuardian _ => ∃ p, env.policy st.before a = some p ∧ st.Authorised a p
  | .recoveryStart _ => ∃ p pending, env.policy st.before a = some p ∧
      env.policy st.after a = some { p with pendingRecovery := pending }
  | .recoveryCancel _ => ∃ p pending, env.policy st.before a = some p ∧
      env.policy st.after a = some { p with pendingRecovery := pending }
  | .recoveryExecute _ => ∃ p r st₀ q, env.policy st.before a = some p ∧
      p.pendingRecovery = some r ∧ LastPendingChange past a st₀ (.recoveryStart q) ∧
      st₀.tx.SignedBy a ∧ q.action = r.action ∧
      recoveryApprovalPubKey env q.action q.approvalPubKey = .ok r.approvalPubKey ∧
      st₀.ctx.blockTime + 259200 ≤ st.ctx.blockTime

/-- Along every run from a store without pending recoveries, a step that changes the
policy of an account carries a control action on it that the account signed, with
the action's effect, and the action is justified. -/
theorem policy_change_justified (env : Env) (s s' : PolicyStore env.bech32)
    (steps : List (Step env)) (hrun : Run env s steps s')
    (hstart : ∀ a p, env.policy s a = some p → p.pendingRecovery = none)
    (past rest : List (Step env)) (st : Step env) (hsplit : steps = past ++ st :: rest)
    (a : AccAddress) (hchange : env.policy st.after a ≠ env.policy st.before a) :
    ∃ c, st.action a = some c ∧ st.tx.SignedBy a ∧ Effect env st.ctx st.before st.after a c ∧
      Justified past st a c := by
  cases hact : st.action a with
  | none => exact absurd (Step.policy_of_no_action hact) hchange
  | some c =>
    obtain ⟨hsig, heff⟩ := Step.effect hact
    refine ⟨c, rfl, hsig, heff, ?_⟩
    cases c with
    | enable e =>
      cases hp : env.policy st.before a with
      | none =>
        simp only [Justified, hp]
        exact Step.created_approved hact hp
      | some p =>
        simp only [Justified, hp]
        exact (Step.asks_authorised hact rfl).1 p hp
    | disable d =>
      obtain ⟨hauth, hnone⟩ := Step.asks_authorised hact rfl
      cases hp : env.policy st.before a with
      | none => obtain ⟨_, h⟩ := hnone hp; cases h
      | some p => exact ⟨p, hp, hauth p hp⟩
    | setGuardian g =>
      obtain ⟨p, hp, _⟩ := heff
      exact ⟨p, hp, (Step.asks_authorised hact rfl).1 p hp⟩
    | recoveryStart q =>
      obtain ⟨p, key, hp, _, hpol⟩ := heff
      exact ⟨p, _, hp, hpol⟩
    | recoveryCancel q =>
      obtain ⟨p, hp, hpol⟩ := heff
      exact ⟨p, none, hp, hpol⟩
    | recoveryExecute q =>
      obtain ⟨p, r, hp, hr, hdue, _⟩ := heff
      -- the request was pending in the store the past leads to
      rw [hsplit] at hrun
      have hinv : PendingFromStart past st.before := by
        refine Trace.history pendingFromStart_step hrun.upTo [] ?_
        intro b p₀ r₀ hp₀ hr₀
        rw [hstart b p₀ hp₀] at hr₀
        cases hr₀
      obtain ⟨st₀, q₀, hlast, hsig₀, haction, hkey, htime⟩ := hinv a p r hp hr
      refine ⟨p, r, st₀, q₀, hp, hr, hlast, hsig₀, haction, hkey, ?_⟩
      rw [htime] at hdue
      exact hdue

/-! ## A wallet that recovers

The wallet enables MFA, starts a recovery ten minutes later, and executes it after
three days. -/

namespace Sample

open Sdk.Sample

def enableText : String :=
  String.ofList (approvalsChars ++ (",\"enable\":\x7b\"account\":\"".toList ++ aliceText.toList ++
    "\",\"approval_pub_key\":\"".toList ++ approvalKeyText.toList ++ "\"\x7d\x7d\x7d".toList))

def startText : String :=
  String.ofList ("\x7b\"dochain_mfa\":\x7b\"recovery_start\":\x7b\"account\":\"".toList ++
    aliceText.toList ++ "\",\"action\":\"disable\"\x7d\x7d\x7d".toList)

def executeText : String :=
  String.ofList ("\x7b\"dochain_mfa\":\x7b\"recovery_execute\":\x7b\"account\":\"".toList ++
    aliceText.toList ++ "\"\x7d\x7d\x7d".toList)

def enableMemo : MemoMFA :=
  approvedMemo.withControl (some (.enable ⟨aliceText, approvalKeyText, ""⟩))

def noApproval : MemoMFA := ⟨[], none, none, none, none, none, none, none⟩

def startMemo : MemoMFA :=
  noApproval.withControl (some (.recoveryStart ⟨aliceText, "disable", ""⟩))

def executeMemo : MemoMFA := noApproval.withControl (some (.recoveryExecute ⟨aliceText⟩))

def recoveryChain : Env := chain (fun text =>
  if text = startText then .ok (some startMemo)
  else if text = executeText then .ok (some executeMemo)
  else if text = enableText then .ok (some enableMemo)
  else .error "invalid character")

theorem startText_memo : parseMFAMemo recoveryChain (carrierTx startText) = .ok (some startMemo) :=
  (chain_parseMFAMemo _ (by decide)).trans (if_pos rfl)

theorem executeText_memo :
    parseMFAMemo recoveryChain (carrierTx executeText) = .ok (some executeMemo) := by
  have h : executeText ≠ startText :=
    mt String.ofList_injective (by decide +kernel)
  exact (chain_parseMFAMemo _ (by decide)).trans ((if_neg h).trans (if_pos rfl))

theorem enableText_memo :
    parseMFAMemo recoveryChain (carrierTx enableText) = .ok (some enableMemo) := by
  have h₁ : enableText ≠ startText :=
    mt String.ofList_injective (by decide +kernel)
  have h₂ : enableText ≠ executeText :=
    mt String.ofList_injective (by decide +kernel)
  exact (chain_parseMFAMemo _ (by decide)).trans
    ((if_neg h₁).trans ((if_neg h₂).trans (if_pos rfl)))

def pending : PendingRecovery := ⟨"disable", [], 1700000600, 1700259800⟩

def pendingStore : PolicyStore bech32 :=
  store.put { policy with pendingRecovery := some pending } (by decide)

def enableStep : Step recoveryChain where
  ctx := start
  tx := carrierTx enableText
  before := PolicyStore.empty
  after := store
  accepted := ⟨(requirement_of_memo enableText_memo).trans (by decide +kernel),
    (controlApply_eq enableText_memo).mpr ⟨rfl, rfl⟩⟩

def startStep : Step recoveryChain where
  ctx := ctxAt 1700000600 (by decide) (by decide)
  tx := carrierTx startText
  before := store
  after := pendingStore
  accepted := ⟨(requirement_of_memo startText_memo).trans (by decide +kernel),
    (controlApply_eq startText_memo).mpr ⟨rfl, rfl⟩⟩

def executeStep : Step recoveryChain where
  ctx := ctxAt 1700259800 (by decide) (by decide)
  tx := carrierTx executeText
  before := pendingStore
  after := pendingStore.deletePolicy alice
  accepted := ⟨(requirement_of_memo executeText_memo).trans (by decide +kernel),
    (controlApply_eq executeText_memo).mpr ⟨rfl, rfl⟩⟩

/-- The execution of the recovery is justified by the start before it. -/
theorem executeStep_justified :
    ∃ c, executeStep.action alice = some c ∧ executeStep.tx.SignedBy alice ∧
      Effect recoveryChain executeStep.ctx executeStep.before executeStep.after alice c ∧
      Justified [enableStep, startStep] executeStep alice c :=
  policy_change_justified recoveryChain PolicyStore.empty (pendingStore.deletePolicy alice)
    [enableStep, startStep, executeStep]
    (.cons enableStep (.cons startStep (.cons executeStep (.nil _))))
    (by intro a p h; cases h) [enableStep, startStep] [] executeStep rfl alice (by decide)

end Sample

end Mfa
