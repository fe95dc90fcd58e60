import DoChain.Mfa.Spec

/- A protected spend is approved.

   The documented protected actions (`x/mfa/README.md`) move `udo` of the account
   they name, at the top of a transaction or below any number of `MsgExec`. This
   module shows that the requirement decorator finds every one of them:
   `protected_spend_approved` says that a transaction it passes on, and that spends
   `udo` of an account with a policy, carries an approval of the account's key, an
   approval of its guardian, or is the recovery carrier of that account.

   A coin list that is not a valid set moves nothing: every handler of these
   messages refuses it. The decorator looks coins up by binary search, and on such
   a list it can miss one. -/

namespace Mfa

open Sdk

variable {env : Env} {ctx : Ctx} {s : PolicyStore env.bech32} {tx : Tx}

/-- A valid coin set that holds `udo`. -/
def SpendsDo (coins : Coins) : Prop := coins.IsValid ∧ ∃ c ∈ coins, c.denom = microDoDenom

/-- The message is of a protected kind and spends `udo` of the account, however
the account is spelled. -/
def Spends (b : Bech32) (a : AccAddress) : Msg → Prop
  | .send fromAddress _ amount => b.accAddressFromBech32 fromAddress = .ok a ∧ SpendsDo amount
  | .multiSend inputs _ =>
    ∃ input ∈ inputs, b.accAddressFromBech32 input.address = .ok a ∧ SpendsDo input.coins
  | .undelegate delegatorAddress _ amount =>
    b.accAddressFromBech32 delegatorAddress = .ok a ∧ amount.denom = microDoDenom
  | .beginRedelegate delegatorAddress _ _ amount =>
    b.accAddressFromBech32 delegatorAddress = .ok a ∧ amount.denom = microDoDenom
  | .transfer _ _ token sender _ _ _ _ _ =>
    b.accAddressFromBech32 sender = .ok a ∧ token.denom = microDoDenom
  | .executeContract sender _ _ funds => b.accAddressFromBech32 sender = .ok a ∧ SpendsDo funds
  | .legacyExecuteContract sender _ _ coins =>
    b.accAddressFromBech32 sender = .ok a ∧ SpendsDo coins
  | .swapSend fromAddress _ offerCoin _ =>
    b.accAddressFromBech32 fromAddress = .ok a ∧ offerCoin.denom = microDoDenom
  | .swap trader offerCoin _ =>
    b.accAddressFromBech32 trader = .ok a ∧ offerCoin.denom = microDoDenom
  | .exec _ _ => False
  | .other _ _ => False
  | .notMsg _ _ => False

theorem containsDo_of_spendsDo {coins : Coins} (h : SpendsDo coins) : containsDo coins = true := by
  obtain ⟨hv, c, hc, hd⟩ := h
  have hamt : coins.amountOf microDoDenom = c.amount := by
    rw [← hd]
    exact Coins.amountOf_eq hv hc
  have hpos := (hv.1 c hc).2
  simp [containsDo, hamt, hpos]

/-! ## What going through the messages does to the set -/

/-- The set holds the account under its rendered address. -/
def Has (env : Env) (accounts : Accounts) (a : AccAddress) : Prop :=
  accounts.get (env.bech32.string a) = some a

theorem Has.set (a : AccAddress) (accounts : Accounts) (b : AccAddress) (h : Has env accounts a) :
    Has env (accounts.set (env.bech32.string b) b) a := by
  simp only [Has, SortedMap.get_set]
  split
  · rename_i heq
    rw [env.bech32.string_injective heq]
  · exact h

theorem has_set_self (accounts : Accounts) (a : AccAddress) :
    Has env (accounts.set (env.bech32.string a) a) a := by
  simp [Has]

theorem Has.erase {accounts : Accounts} {a b : AccAddress} (h : Has env accounts a) (hne : a ≠ b) :
    Has env (accounts.erase (env.bech32.string b)) a := by
  simp only [Has, SortedMap.get_erase, env.bech32.string_injective.eq_iff, hne, if_false]
  exact h

theorem addAccount_eq_ok {accounts accounts' : Accounts} {address : String} :
    addAccount env accounts address = .ok accounts' ↔
      ∃ a, env.bech32.accAddressFromBech32 address = .ok a ∧
        accounts' = accounts.set (env.bech32.string a) a := by
  simp only [addAccount, Outcome.bind_eq_ok, account_eq_ok, Outcome.ok.injEq]
  exact exists_congr (fun a => and_congr_right (fun _ => eq_comm))

/-! All that happens to the set is that an account is written under its rendered
address; a property that survives this survives the whole tree. -/

theorem addAccountIf_preserves {P : Accounts → Prop}
    (hset : ∀ accounts b, P accounts → P (accounts.set (env.bech32.string b) b))
    {accounts accounts' : Accounts} {spends : Bool} {address : String}
    (h : addAccountIf env accounts spends address = .ok accounts') (hP : P accounts) :
    P accounts' := by
  cases spends with
  | false =>
    cases h
    exact hP
  | true =>
    obtain ⟨b, _, rfl⟩ := addAccount_eq_ok.mp h
    exact hset accounts b hP

theorem addInputs_preserves {P : Accounts → Prop}
    (hset : ∀ accounts b, P accounts → P (accounts.set (env.bech32.string b) b))
    {accounts accounts' : Accounts} {inputs : List BankInput}
    (h : addInputs env accounts inputs = .ok accounts') (hP : P accounts) : P accounts' := by
  induction inputs generalizing accounts with
  | nil =>
    cases h
    exact hP
  | cons input rest ih =>
    obtain ⟨mid, hmid, hrest⟩ := Outcome.bind_eq_ok.mp h
    exact ih hrest (addAccountIf_preserves hset hmid hP)

mutual

theorem addProtectedAccounts_preserves {P : Accounts → Prop}
    (hset : ∀ accounts b, P accounts → P (accounts.set (env.bech32.string b) b))
    {accounts accounts' : Accounts} {msg : Msg}
    (h : addProtectedAccounts env accounts msg = .ok accounts') (hP : P accounts) :
    P accounts' := by
  cases msg with
  | multiSend inputs outputs => exact addInputs_preserves hset h hP
  | exec grantee msgs =>
    simp only [addProtectedAccounts] at h
    split at h
    · cases h
    · exact addProtectedList_preserves hset h hP
  | other u v =>
    cases h
    exact hP
  | notMsg u v =>
    cases h
    exact hP
  | _ => exact addAccountIf_preserves hset h hP

theorem addProtectedList_preserves {P : Accounts → Prop}
    (hset : ∀ accounts b, P accounts → P (accounts.set (env.bech32.string b) b))
    {accounts accounts' : Accounts} {msgs : List Msg}
    (h : addProtectedList env accounts msgs = .ok accounts') (hP : P accounts) :
    P accounts' := by
  cases msgs with
  | nil =>
    cases h
    exact hP
  | cons msg rest =>
    simp only [addProtectedList, Outcome.bind_eq_ok] at h
    obtain ⟨mid, hmid, hrest⟩ := h
    exact addProtectedList_preserves hset hrest (addProtectedAccounts_preserves hset hmid hP)

end

theorem addAccountIf_has {accounts accounts' : Accounts} {address : String}
    (h : addAccountIf env accounts true address = .ok accounts') {a : AccAddress}
    (ha : env.bech32.accAddressFromBech32 address = .ok a) : Has env accounts' a := by
  obtain ⟨b, hb, rfl⟩ := addAccount_eq_ok.mp h
  rw [ha] at hb
  cases hb
  exact has_set_self accounts a

theorem addInputs_has {accounts accounts' : Accounts} {inputs : List BankInput}
    (h : addInputs env accounts inputs = .ok accounts') {input : BankInput} (hi : input ∈ inputs)
    (hd : containsDo input.coins = true) {a : AccAddress}
    (ha : env.bech32.accAddressFromBech32 input.address = .ok a) : Has env accounts' a := by
  induction inputs generalizing accounts with
  | nil => simp at hi
  | cons x rest ih =>
    obtain ⟨mid, hmid, hrest⟩ := Outcome.bind_eq_ok.mp h
    cases List.mem_cons.mp hi with
    | inl heq =>
      subst heq
      rw [hd] at hmid
      exact addInputs_preserves (Has.set a) hrest (addAccountIf_has hmid ha)
    | inr hi => exact ih hrest hi

/-- A message that spends `udo` of an account protects it. -/
theorem addProtectedAccounts_spends {accounts accounts' : Accounts} {msg : Msg}
    (h : addProtectedAccounts env accounts msg = .ok accounts') {a : AccAddress}
    (hs : Spends env.bech32 a msg) : Has env accounts' a := by
  cases msg with
  | multiSend inputs outputs =>
    obtain ⟨i, hi, hdec, hd⟩ := hs
    exact addInputs_has h hi (containsDo_of_spendsDo hd) hdec
  | exec grantee msgs => exact hs.elim
  | other u v => exact hs.elim
  | notMsg u v => exact hs.elim
  | send | executeContract | legacyExecuteContract =>
    -- a coin set
    obtain ⟨ha, hd⟩ := hs
    simp only [addProtectedAccounts, containsDo_of_spendsDo hd] at h
    exact addAccountIf_has h ha
  | _ =>
    -- one coin
    obtain ⟨ha, hd⟩ := hs
    simp only [addProtectedAccounts, hd, decide_true] at h
    exact addAccountIf_has h ha

/-- Every message of a list was gone through, and what it protected is kept. -/
theorem addProtectedList_mem {accounts accounts' : Accounts} {msgs : List Msg}
    (h : addProtectedList env accounts msgs = .ok accounts') {msg : Msg} (hm : msg ∈ msgs) :
    ∃ before after, addProtectedAccounts env before msg = .ok after ∧
      ∀ a, Has env after a → Has env accounts' a := by
  induction msgs generalizing accounts with
  | nil => simp at hm
  | cons x rest ih =>
    simp only [addProtectedList, Outcome.bind_eq_ok] at h
    obtain ⟨mid, hmid, hrest⟩ := h
    cases List.mem_cons.mp hm with
    | inl heq =>
      subst heq
      exact ⟨accounts, mid, hmid, fun a ha => addProtectedList_preserves (Has.set a) hrest ha⟩
    | inr hm => exact ih hrest hm

/-- A spend at any depth protects its account. -/
theorem addProtectedList_spends {msg : Msg} {msgs : List Msg} (hin : msg.Within msgs)
    {a : AccAddress} (hs : Spends env.bech32 a msg) : ∀ {accounts accounts' : Accounts},
    addProtectedList env accounts msgs = .ok accounts' → Has env accounts' a := by
  induction hin with
  | here hm =>
    intro accounts accounts' h
    obtain ⟨before, after, hmsg, hkeep⟩ := addProtectedList_mem h hm
    exact hkeep a (addProtectedAccounts_spends hmsg hs)
  | inExec hm _ ih =>
    intro accounts accounts' h
    obtain ⟨before, after, hmsg, hkeep⟩ := addProtectedList_mem h hm
    simp only [addProtectedAccounts] at hmsg
    split at hmsg
    · cases hmsg
    · exact hkeep a (ih hmsg)

/-! ## Control requirements and the bypass -/

theorem requireControl_has {accounts accounts' : Accounts} {c : Option Control}
    (h : requireControl env s accounts c = .ok accounts') {a : AccAddress}
    (ha : Has env accounts a) : Has env accounts' a := by
  match c, h with
  | none, h =>
    cases h
    exact ha
  | some (.enable e), h =>
    simp only [requireControl, requireEnable, Outcome.bind_eq_ok] at h
    obtain ⟨b, _, h⟩ := h
    cases h
    split
    · exact ha.set _ _ b
    · exact ha
  | some (.disable d), h =>
    simp only [requireControl, requireDisable, Outcome.bind_eq_ok] at h
    obtain ⟨⟨b, _⟩, _, h⟩ := h
    cases h
    exact ha.set _ _ b
  | some (.setGuardian g), h =>
    simp only [requireControl, requireSetGuardian, Outcome.bind_eq_ok] at h
    obtain ⟨⟨b, _⟩, _, _, _, h⟩ := h
    cases h
    exact ha.set _ _ b
  | some (.recoveryStart r), h =>
    obtain ⟨_, h⟩ := Outcome.check_bind_eq_ok.mp h
    cases h
    exact ha
  | some (.recoveryCancel r), h =>
    obtain ⟨_, h⟩ := Outcome.check_bind_eq_ok.mp h
    cases h
    exact ha
  | some (.recoveryExecute r), h =>
    obtain ⟨_, h⟩ := Outcome.check_bind_eq_ok.mp h
    cases h
    exact ha

/-- The control action is a recovery of the account, and the only message is the
account sending `1udo` to itself. -/
def RecoveryCarrier (env : Env) (tx : Tx) (m : MemoMFA) (a : AccAddress) : Prop :=
  (∃ c, m.control = some c ∧ ((∃ r, c = .recoveryStart r) ∨ (∃ r, c = .recoveryCancel r) ∨
      (∃ r, c = .recoveryExecute r)) ∧ env.bech32.accAddressFromBech32 c.account = .ok a) ∧
    tx.msgs = [.send (env.bech32.string a) (env.bech32.string a) [⟨microDoDenom, 1⟩]]

theorem requireRecoveryControlCarrier_inv {a : AccAddress}
    (h : requireRecoveryControlCarrier env tx a = .ok ()) (hne : tx.msgs ≠ []) :
    tx.msgs = [.send (env.bech32.string a) (env.bech32.string a) [⟨microDoDenom, 1⟩]] := by
  simp only [requireRecoveryControlCarrier] at h
  split at h
  · rename_i hnil
    exact absurd hnil hne
  · rename_i f t amount hmsgs
    simp only [Outcome.check_bind_eq_ok, Outcome.failIf_eq_ok, not_or, not_not, isOneDo,
      decide_eq_false_iff_not] at h
    obtain ⟨⟨hf, ht⟩, _, hamt⟩ := h
    rw [hmsgs, hf, ht, hamt]
  · cases h
  · cases h

/-- The bypass takes no other account out, and takes the account out only of its
own recovery carrier. -/
theorem applyBypass_has {accounts accounts' : Accounts} {m : MemoMFA} {c : Option Control}
    (h : applyBypass env tx accounts (m.withControl c) = .ok accounts') (hne : tx.msgs ≠ [])
    {a : AccAddress} (ha : Has env accounts a) :
    Has env accounts' a ∨ RecoveryCarrier env tx (m.withControl c) a := by
  simp only [applyBypass, Outcome.bind_eq_ok] at h
  obtain ⟨o, ho, h⟩ := h
  cases o with
  | none =>
    cases h
    exact .inl ha
  | some b =>
    obtain ⟨hcar, hacc⟩ := Outcome.check_bind_eq_ok.mp h
    cases hacc
    by_cases hab : a = b
    · subst hab
      refine .inr ⟨?_, requireRecoveryControlCarrier_inv hcar hne⟩
      -- the bypass account is the one a recovery action of the memo names
      match c, ho with
      | some (.recoveryStart r), ho =>
        refine ⟨_, control_withControl _ _, .inl ⟨r, rfl⟩, ?_⟩
        simpa [recoveryBypassAccount, recoveryAccountText, MemoMFA.withControl,
          Outcome.bind_eq_ok, Control.account] using ho
      | some (.recoveryCancel r), ho =>
        refine ⟨_, control_withControl _ _, .inr (.inl ⟨r, rfl⟩), ?_⟩
        simpa [recoveryBypassAccount, recoveryAccountText, MemoMFA.withControl,
          Outcome.bind_eq_ok, Control.account] using ho
      | some (.recoveryExecute r), ho =>
        refine ⟨_, control_withControl _ _, .inr (.inr ⟨r, rfl⟩), ?_⟩
        simpa [recoveryBypassAccount, recoveryAccountText, MemoMFA.withControl,
          Outcome.bind_eq_ok, Control.account] using ho
      | none, ho => cases ho
      | some (.enable e), ho => cases ho
      | some (.disable d), ho => cases ho
      | some (.setGuardian g), ho => cases ho
    · exact .inl (ha.erase hab)

/-- A spend at any depth makes its account a candidate, unless the transaction
is the account's recovery carrier. -/
theorem requiredCandidates_spends {candidates : Accounts} {o : Option MemoMFA} {msg : Msg}
    (h : requiredCandidates env s tx o = .ok candidates) (hin : msg.Within tx.msgs)
    {a : AccAddress} (hs : Spends env.bech32 a msg) :
    Has env candidates a ∨ ∃ m, o = some m ∧ RecoveryCarrier env tx m a := by
  simp only [requiredCandidates, Outcome.bind_eq_ok] at h
  obtain ⟨accounts, hprot, h⟩ := h
  have ha : Has env accounts a := addProtectedList_spends hin hs hprot
  have hne : tx.msgs ≠ [] := by
    cases hin with
    | here hm => exact List.ne_nil_of_mem hm
    | inExec hm _ => exact List.ne_nil_of_mem hm
  cases o with
  | none =>
    cases h
    exact .inl ha
  | some m =>
    obtain ⟨hcount, h⟩ := Outcome.check_bind_eq_ok.mp h
    obtain ⟨mid, hmid, hby⟩ := Outcome.bind_eq_ok.mp h
    rw [← withControl_control hcount] at hmid hby ⊢
    rw [addControlRequirements_eq] at hmid
    exact (applyBypass_has hby hne (requireControl_has hmid ha)).imp id (fun hc => ⟨_, rfl, hc⟩)

/-- A transaction that the requirement decorator passes on, and that spends `udo`
of an account with an enabled policy at any depth, carries an unexpired approval
of the account's key or of its guardian over this transaction, or it is the
account's recovery carrier. -/
theorem protected_spend_approved (env : Env) (ctx : Ctx) (s : PolicyStore env.bech32) (tx : Tx)
    (h : requirement env ctx s tx = .ok ()) (msg : Msg) (hin : msg.Within tx.msgs)
    (a : AccAddress) (hs : Spends env.bech32 a msg) (policy : Policy)
    (hp : env.policy s a = some policy) :
    ∃ m, parseMFAMemo env tx = .ok (some m) ∧
      (ApprovedBy env ctx tx m policy.approvalPubKey (env.bech32.string a) ∨
       GuardianApproved env ctx tx m policy.guardianAddress (env.bech32.string a) ∨
       RecoveryCarrier env tx m a) := by
  obtain ⟨candidates, hc, hv, _⟩ := requirement_inv h
  cases requiredCandidates_spends hc hin hs with
  | inl ha =>
    obtain ⟨m, hm, happ⟩ := required_approved hv ha hp
    exact ⟨m, hm, happ.imp id .inl⟩
  | inr hcar =>
    obtain ⟨m, hm, hcar⟩ := hcar
    refine ⟨m, ?_, .inr (.inr hcar)⟩
    cases hparse : parseMFAMemo env tx with
    | error e => simp [hparse, Except.toOption] at hm
    | ok o => simpa [hparse, Except.toOption] using hm

/-! ## One account on one chain

A wallet with a policy, its self-send of `1udo`, and an approval of it. The codecs
and the signature check are given by their values on this transaction. -/

namespace Sample

open Sdk.Sample

def approvalKey : Bytes :=
  [3, 219, 40, 11, 97, 66, 25, 149, 27, 87, 127, 61, 111, 191, 168, 164, 236, 142, 27, 94, 217, 147,
    172, 157, 192, 59, 209, 1, 109, 97, 231, 90, 201]

def approvalKeyText : String := "A9soC2FCGZUbV389b7+opOyOG17Zk6ydwDvRAW1h51rJ"

def signature : Bytes :=
  [195, 130, 98, 218, 221, 219, 78, 166, 108, 71, 253, 132, 4, 159, 19, 116, 89, 27, 226, 94, 222,
    106, 54, 129, 232, 254, 179, 116, 176, 219, 127, 74, 90, 66, 125, 14, 222, 149, 81, 130, 33, 99,
    219, 235, 59, 142, 143, 50, 75, 207, 167, 57, 208, 164, 18, 172, 181, 156, 222, 192, 204, 1, 234,
    115]

def signatureText : String :=
  "w4Ji2t3bTqZsR/2EBJ8TdFkb4l7eajaB6P6zdLDbf0paQn0O3pVRgiFj2+s7jo8yS8+nOdCkEqy1nN7AzAHqcw=="

/-- The wallet's self-send. -/
def carrier : Msg := .send aliceText aliceText [⟨microDoDenom, 1⟩]

def ascii (s : String) : Bytes := s.toList.map (fun c => UInt8.ofNat c.toNat)

def carrierJSON : Bytes :=
  ascii "\x7b\"@type\":\"/cosmos.bank.v1beta1.MsgSend\"," ++
    ascii "\"amount\":[\x7b\"amount\":\"1\",\"denom\":\"udo\"\x7d]," ++
    ascii "\"from_address\":\"" ++ ascii aliceText ++ ascii "\",\"to_address\":\"" ++
    ascii aliceText ++ ascii "\"\x7d"

def carrierDigest : Bytes :=
  [226, 152, 48, 94, 89, 46, 47, 218, 187, 115, 79, 98, 218, 151, 104, 88, 231, 247, 121, 224, 171,
    28, 70, 47, 176, 83, 79, 189, 28, 231, 179, 148]

/-- The document the approval key signed. -/
def signedDoc : SignBytes :=
  [("account", .str aliceText), ("chain_id", .str "Do-Chain"), ("expires_at", .num 1800000000),
    ("messages_hash", .str "e298305e592e2fdabb734f62da976858e7f779e0ab1c462fb0534fbd1ce7b394"),
    ("signers", .signers [(aliceText, 0)]), ("timeout_height", .num 0),
    ("version", .str "dochain-mfa-v1")]

def decodeBase64 (s : String) : Except String Bytes :=
  if s = approvalKeyText then .ok approvalKey
  else if s = signatureText then .ok signature
  else .error "illegal base64 data"

def sortedMsgJSON : Msg → Except String Bytes
  | .send fromAddress toAddress [coin] =>
    if fromAddress = aliceText ∧ toAddress = aliceText ∧ coin = ⟨microDoDenom, 1⟩ then
      .ok carrierJSON
    else .error "unknown message"
  | _ => .error "unknown message"

/-- Longer than a digest on any other input, so that no two inputs collide. -/
def sha256 (b : Bytes) : Bytes := if b = carrierJSON then carrierDigest else List.replicate 33 0 ++ b

def verifySignature (key : Bytes) (doc : SignBytes) (sig : Bytes) : Bool :=
  decide (key = approvalKey ∧ doc = signedDoc ∧ sig = signature)

/-- The chain's surroundings, with the memos that can be read. -/
def chain (unmarshalMemo : String → Except String (Option MemoMFA)) : Env where
  bech32 := bech32
  unmarshalMemo := unmarshalMemo
  containsMFAKey := fun s => (unmarshalMemo s).toOption.join.isSome
  decodeBase64 := decodeBase64
  sortedMsgJSON := sortedMsgJSON
  sha256 := sha256
  sortedNumber := id
  verifySignature := verifySignature
  pubKeyAddress := fun key => key.take 20
  range := id
  range_perm := fun _ => .rfl

theorem chain_unmarshalMemo (f : String → Except String (Option MemoMFA)) :
    (chain f).unmarshalMemo = f := rfl

def ctxAt (time : Int) (hl : -62135596800 ≤ time) (hu : time ≤ 253402300799) : Ctx :=
  ⟨"Do-Chain", time, fun _ => some 0, hl, hu⟩

def policy : Policy := ⟨aliceText, approvalKey, true, "", none⟩

def store : PolicyStore bech32 := PolicyStore.empty.put policy (by decide)

def approvedMemo : MemoMFA :=
  ⟨[⟨aliceText, 1800000000, signatureText⟩], none, none, none, none, none, none, none⟩

/-- The memo up to the end of its approvals. -/
def approvalsChars : List Char :=
  "\x7b\"dochain_mfa\":\x7b\"approvals\":[\x7b\"account\":\"".toList ++ aliceText.toList ++
    "\",\"expires_at\":1800000000,\"signature\":\"".toList ++ signatureText.toList ++
    "\"\x7d]".toList

def approvedText : String := String.ofList (approvalsChars ++ "\x7d\x7d".toList)

def carrierTx (memo : String) : Tx := ⟨[carrier], memo, 0, .ok [alice], by decide⟩

/-- A memo with a last character goes to the codec. -/
theorem chain_parseMFAMemo (f : String → Except String (Option MemoMFA)) {l r : List Char}
    (hr : r ≠ []) :
    parseMFAMemo (chain f) (carrierTx (String.ofList (l ++ r))) = f (String.ofList (l ++ r)) := by
  have hne : String.ofList (l ++ r) ≠ "" := by
    intro hempty
    rw [String.ofList_eq_empty_iff, List.append_eq_nil_iff] at hempty
    exact hr hempty.2
  rw [parseMFAMemo, if_neg (by exact hne), chain_unmarshalMemo]
  rfl

/-- A chain that reads this one memo. -/
def approvedChain : Env :=
  chain (fun s => if s = approvedText then .ok (some approvedMemo) else .error "invalid character")

def start : Ctx := ctxAt 1700000000 (by decide) (by decide)

theorem approvedText_memo :
    parseMFAMemo approvedChain (carrierTx approvedText) = .ok (some approvedMemo) :=
  (chain_parseMFAMemo _ (by decide)).trans (if_pos rfl)

/-- The self-send with its approval passes, and carries what the theorem says. -/
theorem carrier_spend_approved :
    ∃ m, parseMFAMemo approvedChain (carrierTx approvedText) = .ok (some m) ∧
      (ApprovedBy approvedChain start (carrierTx approvedText) m approvalKey aliceText ∨
       GuardianApproved approvedChain start (carrierTx approvedText) m "" aliceText ∨
       RecoveryCarrier approvedChain (carrierTx approvedText) m alice) :=
  protected_spend_approved approvedChain start store (carrierTx approvedText)
    ((requirement_of_memo approvedText_memo).trans (by decide +kernel)) carrier (.here (List.mem_singleton_self _)) alice
    ⟨by decide, ⟨by decide, by decide⟩, ⟨microDoDenom, 1⟩, List.mem_singleton_self _, rfl⟩ policy
    (by decide)

end Sample

end Mfa
