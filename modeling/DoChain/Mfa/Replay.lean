import DoChain.Lib.Trace
import DoChain.Mfa.Protected

/- No approval is used twice.

   Every document that the requirement decorator verifies carries the signers of the
   transaction with their sequences (`verifiedDocs_signers`), and a transaction that is
   committed increments them. Over a run no document comes again, as long as the documents
   tell the sequences apart (`no_doc_twice`): the sort of the document reads numbers as floats,
   which are exact below `2^53`. From there on two sequences can be written alike, and an
   approval that was used is accepted once more.

   A step is a transaction that passes, with the context and the policies it meets; policies
   are not followed from step to step, since they do not matter here. -/

namespace Mfa

open Sdk

variable {env : Env} {ctx : Ctx} {s : PolicyStore env.bech32} {tx : Tx} {m : MemoMFA}

/-! ## The documents of a transaction -/

/-- The document whose signature the loop of `verifyApprovals` checks for an account. -/
def requiredDoc (env : Env) (ctx : Ctx) (m : MemoMFA) (timeoutHeight : Nat) (msgsHash : String)
    (signers : List SignerSequence) (account : String) (policy : Policy) : Option SignBytes :=
  match approvalByAccount m.approvals account with
  | some approval => some ((newApprovalPayload ctx account approval.expiresAt timeoutHeight msgsHash
      signers).signBytes env.sortedNumber)
  | none =>
    match m.guardianApproval, guardianControlAction m with
    | some approval, some (action, approvalPubKey) =>
      some ((newGuardianApprovalPayload ctx account policy.guardianAddress action approvalPubKey
        approval.expiresAt timeoutHeight msgsHash signers).signBytes env.sortedNumber)
    | _, _ => none

/-- The document that `verifyInitialEnableApproval` checks. -/
def enableDoc (env : Env) (ctx : Ctx) (s : PolicyStore env.bech32) (m : MemoMFA) (timeoutHeight : Nat)
    (msgsHash : String) (signers : List SignerSequence) : Option SignBytes := do
  let e ← m.enable
  let account ← (env.bech32.accAddressFromBech32 e.account).toOption
  if (env.policy s account).isSome then none
  else do
    let approval ← approvalForAccount m.approvals (env.bech32.string account)
    some ((newApprovalPayload ctx (env.bech32.string account) approval.expiresAt timeoutHeight msgsHash
      signers).signBytes env.sortedNumber)

/-- The documents of a transaction that passes. -/
def verifiedDocs (env : Env) (ctx : Ctx) (s : PolicyStore env.bech32) (tx : Tx) : List SignBytes :=
  match parseMFAMemo env tx with
  | .ok (some m) =>
    match requiredCandidates env s tx (some m), payloadParts env ctx tx with
    | .ok candidates, .ok (msgsHash, signers) =>
      (accountsWithPolicy env s candidates).entries.filterMap (fun e =>
        (env.policy s e.2).bind (requiredDoc env ctx m tx.timeoutHeight msgsHash signers e.1)) ++
      (enableDoc env ctx s m tx.timeoutHeight msgsHash signers).toList
    | _, _ => []
  | _ => []

theorem verifiedDocs_of_memo (hm : parseMFAMemo env tx = .ok (some m)) :
    verifiedDocs env ctx s tx =
      match requiredCandidates env s tx (some m), payloadParts env ctx tx with
      | .ok candidates, .ok (msgsHash, signers) =>
        (accountsWithPolicy env s candidates).entries.filterMap (fun e =>
          (env.policy s e.2).bind (requiredDoc env ctx m tx.timeoutHeight msgsHash signers e.1)) ++
        (enableDoc env ctx s m tx.timeoutHeight msgsHash signers).toList
      | _, _ => [] := by
  rw [verifiedDocs, hm]

/-- Where a document of a transaction comes from. -/
theorem mem_verifiedDocs {doc : SignBytes} (h : doc ∈ verifiedDocs env ctx s tx) :
    ∃ m candidates msgsHash signers, parseMFAMemo env tx = .ok (some m) ∧
      requiredCandidates env s tx (some m) = .ok candidates ∧
      payloadParts env ctx tx = .ok (msgsHash, signers) ∧
      ((∃ account a p, candidates.get account = some a ∧ env.policy s a = some p ∧
          requiredDoc env ctx m tx.timeoutHeight msgsHash signers account p = some doc) ∨
        enableDoc env ctx s m tx.timeoutHeight msgsHash signers = some doc) := by
  unfold verifiedDocs at h
  split at h
  · rename_i m hm
    split at h
    · rename_i candidates msgsHash signers hc hparts
      refine ⟨m, candidates, msgsHash, signers, hm, hc, hparts, ?_⟩
      rcases List.mem_append.mp h with h | h
      · obtain ⟨e, he, hdoc⟩ := List.mem_filterMap.mp h
        obtain ⟨p, hp, hdoc⟩ := Option.bind_eq_some_iff.mp hdoc
        exact .inl ⟨e.1, e.2, p, SortedMap.get_eq_some.mpr (mem_accountsWithPolicy.mp he).1, hp, hdoc⟩
      · exact .inr (Option.mem_toList.mp h)
    · cases h
  · cases h

/-! ## They were verified -/

theorem verifyRequired_doc {account : String} {a : AccAddress} {p : Policy} {msgsHash : String}
    {signers : List SignerSequence} {doc : SignBytes}
    (hparts : payloadParts env ctx tx = .ok (msgsHash, signers)) (hp : env.policy s a = some p)
    (h : verifyRequired env ctx s m tx.timeoutHeight msgsHash signers account a = .ok ())
    (hdoc : requiredDoc env ctx m tx.timeoutHeight msgsHash signers account p = some doc) :
    ∃ key sig, env.verifySignature key doc sig = true := by
  simp only [verifyRequired, hp] at h
  cases happ : approvalByAccount m.approvals account with
  | some approval =>
    simp only [happ, verifyApproval_eq_ok] at h
    obtain ⟨_, sig, _, _, _, hok, hverify⟩ := h
    cases hok
    simp only [requiredDoc, happ] at hdoc
    cases hdoc
    exact ⟨p.approvalPubKey, sig, hverify⟩
  | none =>
    simp only [happ, Outcome.bind_eq_ok, Outcome.failIf_eq_ok, Bool.not_eq_false] at h
    obtain ⟨_, hguardian, rfl⟩ := h
    obtain ⟨approval, happroval, _, _, action, newKey, key, sig, _, _, haction, _, _, _, hparts', hverify⟩ :=
      verifyGuardianApproval_true hparts hguardian
    cases hparts.symm.trans hparts'
    simp only [requiredDoc, happ, happroval, haction] at hdoc
    cases hdoc
    exact ⟨key, sig, hverify⟩

theorem verifyInitialEnable_doc {msgsHash : String} {signers : List SignerSequence} {doc : SignBytes}
    (hparts : payloadParts env ctx tx = .ok (msgsHash, signers))
    (h : verifyInitialEnableApproval env ctx s tx m = .ok ())
    (hdoc : enableDoc env ctx s m tx.timeoutHeight msgsHash signers = some doc) :
    ∃ key sig, env.verifySignature key doc sig = true := by
  obtain ⟨e, he, hdoc⟩ := Option.bind_eq_some_iff.mp hdoc
  obtain ⟨account, haccount, hdoc⟩ := Option.bind_eq_some_iff.mp hdoc
  split_ifs at hdoc with hpolicy
  obtain ⟨approval, happ, hdoc⟩ := Option.bind_eq_some_iff.mp hdoc
  have haddr : env.bech32.accAddressFromBech32 e.account = .ok account := by
    cases hb : env.bech32.accAddressFromBech32 e.account with
    | error text =>
      rw [hb] at haccount
      cases haccount
    | ok b =>
      rw [hb] at haccount
      cases haccount
      rfl
  rw [verifyInitialEnableApproval, he, whenPresent_some] at h
  obtain ⟨account', haccount', h⟩ := Outcome.bind_eq_ok.mp h
  cases haddr.symm.trans (account_eq_ok.mp haccount')
  rw [if_neg hpolicy] at h
  obtain ⟨_, _, h⟩ := Outcome.bind_eq_ok.mp h
  obtain ⟨key, _, h⟩ := Outcome.bind_eq_ok.mp h
  obtain ⟨_, _, h⟩ := Outcome.bind_eq_ok.mp h
  obtain ⟨_, _, h⟩ := Outcome.bind_eq_ok.mp h
  obtain ⟨approval', happ', h⟩ := Outcome.bind_eq_ok.mp h
  cases happ.symm.trans (Outcome.ofOption_eq_ok.mp happ')
  obtain ⟨_, sig, _, _, _, hparts', hverify⟩ := verifyApproval_eq_ok.mp h
  cases hparts.symm.trans hparts'
  cases hdoc
  exact ⟨key, sig, hverify⟩

/-- Each of the documents was verified, under some key, before the transaction passed. -/
theorem verifiedDocs_verified (h : requirement env ctx s tx = .ok ()) {doc : SignBytes}
    (hdoc : doc ∈ verifiedDocs env ctx s tx) : ∃ key sig, env.verifySignature key doc sig = true := by
  obtain ⟨m, candidates, msgsHash, signers, hm, hc, hparts, hfrom⟩ := mem_verifiedDocs hdoc
  obtain ⟨candidates', hc', hv, hinitial⟩ := requirement_inv h
  rw [hm] at hc'
  obtain rfl := Outcome.ok.inj (hc.symm.trans hc')
  rcases hfrom with ⟨account, a, p, hget, hp, hdoc⟩ | hdoc
  · obtain ⟨m', msgsHash', signers', hm', hparts', hone⟩ := required_verified hv hget hp
    cases hm.symm.trans hm'
    cases hparts.symm.trans hparts'
    exact verifyRequired_doc hparts hp hone hdoc
  · exact verifyInitialEnable_doc hparts (hinitial m hm) hdoc

/-! ## What the documents carry -/

theorem ApprovalPayload.lookup_signers (number : Int → Int) (p : ApprovalPayload) :
    (p.signBytes number).lookup "signers" = some (signersJson number p.signers) := rfl

theorem GuardianApprovalPayload.lookup_signers (number : Int → Int) (p : GuardianApprovalPayload) :
    (p.signBytes number).lookup "signers" = some (signersJson number p.signers) := by
  unfold GuardianApprovalPayload.signBytes
  split_ifs <;> rfl

theorem verifiedDocs_signers {signers : List AccAddress} (hsigners : tx.signers = .ok signers) {doc : SignBytes}
    (hdoc : doc ∈ verifiedDocs env ctx s tx) :
    doc.lookup "signers" = some (.signers (signers.map fun a =>
      (env.bech32.string a, env.sortedNumber ((ctx.sequenceOf a).getD 0 : Nat)))) := by
  obtain ⟨m, candidates, msgsHash, sequences, hm, hc, hparts, hfrom⟩ := mem_verifiedDocs hdoc
  have hsequences : sequences = signers.map fun a => ⟨env.bech32.string a, (ctx.sequenceOf a).getD 0⟩ := by
    obtain ⟨_, _, hparts⟩ := Outcome.bind_eq_ok.mp hparts
    obtain ⟨_, hs, hparts⟩ := Outcome.bind_eq_ok.mp hparts
    rw [signerSequences, hsigners] at hs
    cases hs
    cases hparts
    rfl
  have hjson : signersJson env.sortedNumber sequences = .signers (signers.map fun a =>
      (env.bech32.string a, env.sortedNumber ((ctx.sequenceOf a).getD 0 : Nat))) := by
    rw [hsequences, signersJson, List.map_map]
    rfl
  rw [← hjson]
  rcases hfrom with ⟨account, a, p, _, _, hdoc⟩ | hdoc
  · unfold requiredDoc at hdoc
    split at hdoc
    · cases hdoc
      exact ApprovalPayload.lookup_signers _ _
    · split at hdoc
      · cases hdoc
        exact GuardianApprovalPayload.lookup_signers _ _
      · cases hdoc
  · obtain ⟨e, _, hdoc⟩ := Option.bind_eq_some_iff.mp hdoc
    obtain ⟨account, _, hdoc⟩ := Option.bind_eq_some_iff.mp hdoc
    split_ifs at hdoc
    obtain ⟨approval, _, hdoc⟩ := Option.bind_eq_some_iff.mp hdoc
    cases hdoc
    exact ApprovalPayload.lookup_signers _ _

/-! ## Runs -/

/-- The sequence of an account; one that is not stored starts at zero. -/
def Ctx.sequence (ctx : Ctx) (a : AccAddress) : Nat := (ctx.sequenceOf a).getD 0

/-- A transaction that is committed: it passes the decorator, and the sequence of each of its
signers goes up by one, in 64 bits. -/
structure Commit (env : Env) where
  ctx : Ctx
  store : PolicyStore env.bech32
  tx : Tx
  signers : List AccAddress
  after : AccAddress → Nat
  signed : tx.signers = .ok signers
  signers_ne_nil : signers ≠ []
  passes : requirement env ctx store tx = .ok ()
  increments : ∀ a ∈ signers, after a = (ctx.sequence a + 1) % 2 ^ 64
  others : ∀ a, a ∉ signers → after a = ctx.sequence a

def Commit.before (c : Commit env) : AccAddress → Nat := c.ctx.sequence

def Commit.docs (c : Commit env) : List SignBytes := verifiedDocs env c.ctx c.store c.tx

/-- The sequences that the transaction signs are below `2^53`. -/
def Commit.Small (c : Commit env) : Prop := ∀ a ∈ c.signers, c.ctx.sequence a < 2 ^ 53

/-- No document is verified in two of the transactions. -/
def NoDocTwice (commits : List (Commit env)) : Prop :=
  commits.Pairwise fun c c' => ∀ doc ∈ c.docs, doc ∉ c'.docs

/-- The sort reads a number as a float of 53 bits, so it keeps small ones apart. -/
def Env.SmallNumbersApart (env : Env) : Prop :=
  ∀ n n' : Nat, n < 2 ^ 53 → n' < 2 ^ 53 → env.sortedNumber n = env.sortedNumber n' → n = n'

theorem Commit.after_signer {c : Commit env} (h : c.Small) {a : AccAddress} (ha : a ∈ c.signers) :
    c.after a = c.before a + 1 := by
  have hsmall := h a ha
  rw [c.increments a ha]
  exact Nat.mod_eq_of_lt (by omega)

theorem Commit.before_le_after {c : Commit env} (h : c.Small) (a : AccAddress) : c.before a ≤ c.after a := by
  by_cases ha : a ∈ c.signers
  · rw [Commit.after_signer h ha]
    exact Nat.le_succ _
  · exact Nat.le_of_eq (c.others a ha).symm

/-- A document of two transactions has the same signers in both, with the same sequences. -/
theorem Commit.same_sequence (hnumbers : env.SmallNumbersApart) {c c' : Commit env} (h : c.Small)
    (h' : c'.Small) {doc : SignBytes} (hdoc : doc ∈ c.docs) (hdoc' : doc ∈ c'.docs) {a : AccAddress}
    (ha : a ∈ c.signers) : c.before a = c'.before a := by
  have hsame := (verifiedDocs_signers c.signed hdoc).symm.trans (verifiedDocs_signers c'.signed hdoc')
  have hlist := JsonValue.signers.inj (Option.some.inj hsame)
  have hmem : (env.bech32.string a, env.sortedNumber (c.ctx.sequence a)) ∈ c'.signers.map fun b =>
      (env.bech32.string b, env.sortedNumber (c'.ctx.sequence b)) := by
    have hin := List.mem_map_of_mem (f := fun b =>
      (env.bech32.string b, env.sortedNumber (c.ctx.sequence b))) ha
    exact hlist ▸ hin
  obtain ⟨b, hb, heq⟩ := List.mem_map.mp hmem
  obtain ⟨htext, hnumber⟩ := Prod.mk.inj heq
  obtain rfl := env.bech32.string_injective htext
  exact hnumbers _ _ (h b ha) (h' b hb) hnumber.symm

/-- In a run in which every sequence is below `2^53` when it is signed, no document is
verified twice. -/
theorem no_doc_twice (env : Env) (hnumbers : env.SmallNumbersApart) {s s' : AccAddress → Nat}
    {commits : List (Commit env)} (htrace : Trace Commit.before Commit.after s commits s')
    (hsmall : ∀ c ∈ commits, c.Small) : NoDocTwice commits := by
  induction htrace with
  | nil s => exact List.Pairwise.nil
  | cons c hrest ih =>
    obtain ⟨hc, hrest_small⟩ := List.forall_mem_cons.mp hsmall
    refine List.Pairwise.cons ?_ (ih hrest_small)
    intro c' hc' doc hdoc hdoc'
    obtain ⟨a, ha⟩ := List.exists_mem_of_ne_nil _ c.signers_ne_nil
    -- the sequence of a signer has grown, and does not come down again
    have hgrown : c.before a + 1 ≤ c'.before a :=
      (hrest.always (I := fun x => c.before a + 1 ≤ x a)
        (fun d hd hle => Nat.le_trans hle (Commit.before_le_after (hrest_small d hd) a))
        (Nat.le_of_eq (Commit.after_signer hc ha).symm) c' hc').1
    have hsame := Commit.same_sequence hnumbers hc (hrest_small c' hc') hdoc hdoc' ha
    omega

namespace Sample

open Sdk.Sample

/-- The nearest number with 53 binary digits, and of two the even one. -/
def roundDouble (n : Nat) : Nat :=
  let ulp := 2 ^ (n.log2 - 52)
  let q := n / ulp
  let r := n % ulp
  (if ulp < 2 * r ∨ (2 * r = ulp ∧ q % 2 = 1) then q + 1 else q) * ulp

def double : Int → Int
  | .ofNat n => roundDouble n
  | .negSucc n => -roundDouble (n + 1)

theorem roundDouble_small {n : Nat} (h : n < 2 ^ 53) : roundDouble n = n := by
  have hlog : n.log2 - 52 = 0 := by
    by_cases hn : n = 0
    · rw [hn]
      rfl
    · have hlt := (Nat.log2_lt hn).mpr h
      omega
  simp [roundDouble, hlog, Nat.mod_one]

/-- The document of the wallet's self-send at a sequence. -/
def docAt (sequence : Int) : SignBytes :=
  [("account", .str aliceText), ("chain_id", .str "Do-Chain"), ("expires_at", .num 1800000000),
    ("messages_hash", .str "e298305e592e2fdabb734f62da976858e7f779e0ab1c462fb0534fbd1ce7b394"),
    ("signers", .signers [(aliceText, sequence)]), ("timeout_height", .num 0),
    ("version", .str "dochain-mfa-v1")]

/-- The surroundings with floats in the sort, and a key that has signed this document. -/
def withFloats (env : Env) (doc : SignBytes) : Env :=
  { env with
    sortedNumber := double
    verifySignature := fun key d sig => decide (key = approvalKey ∧ d = doc ∧ sig = signature) }

theorem withFloats_parse (env : Env) (doc : SignBytes) (tx : Tx) :
    parseMFAMemo (withFloats env doc) tx = parseMFAMemo env tx := rfl

def floatChain (doc : SignBytes) : Env := withFloats approvedChain doc

theorem floatChain_numbers (doc : SignBytes) : (floatChain doc).SmallNumbersApart := by
  intro n n' hn hn' heq
  have heq : (roundDouble n : Int) = roundDouble n' := heq
  rw [roundDouble_small hn, roundDouble_small hn'] at heq
  exact Int.ofNat.inj heq

theorem floatChain_memo (doc : SignBytes) :
    parseMFAMemo (floatChain doc) (carrierTx approvedText) = .ok (some approvedMemo) :=
  (withFloats_parse approvedChain doc _).trans approvedText_memo

/-- Alice's account has this sequence. -/
def ctxSeq (n : Nat) : Ctx := { start with sequenceOf := fun a => if a = alice then some n else none }

theorem ctxSeq_others (n n' : Nat) (a : AccAddress) (ha : a ∉ [alice]) :
    (ctxSeq n).sequence a = (ctxSeq n').sequence a := by
  have hne : a ≠ alice := fun heq => ha (List.mem_singleton.mpr heq)
  show (if a = alice then _ else none).getD 0 = (if a = alice then _ else none).getD 0
  rw [if_neg hne, if_neg hne]

theorem ctxSeq_alice (n : Nat) (a : AccAddress) (ha : a ∈ [alice]) : (ctxSeq n).sequence a = n := by
  rw [List.mem_singleton.mp ha]
  show (if alice = alice then some n else none).getD 0 = n
  rw [if_pos rfl]
  rfl

/-- The self-send with its approval, at a sequence. -/
def approvedSend (doc : SignBytes) (n : Nat) (hn : n + 1 < 2 ^ 64)
    (h : requirement (floatChain doc) (ctxSeq n) store (carrierTx approvedText) = .ok ()) :
    Commit (floatChain doc) where
  ctx := ctxSeq n
  store := store
  tx := carrierTx approvedText
  signers := [alice]
  after := (ctxSeq (n + 1)).sequence
  signed := rfl
  signers_ne_nil := by decide
  passes := h
  increments := by
    intro a ha
    rw [ctxSeq_alice _ a ha, ctxSeq_alice _ a ha, Nat.mod_eq_of_lt hn]
  others := ctxSeq_others (n + 1) n

/-- A transaction that needs no approval, at sequence 1. -/
def plainSend : Commit (floatChain (docAt 0)) where
  ctx := ctxSeq 1
  store := store
  tx := { carrierTx "" with msgs := [.other "/cosmos.staking.v1beta1.MsgDelegate" []] }
  signers := [alice]
  after := (ctxSeq 2).sequence
  signed := rfl
  signers_ne_nil := by decide
  passes := by decide +kernel
  increments := by
    intro a ha
    rw [ctxSeq_alice _ a ha, ctxSeq_alice _ a ha]
    decide
  others := ctxSeq_others 2 1

def firstSend : Commit (floatChain (docAt 0)) :=
  approvedSend (docAt 0) 0 (by decide) ((requirement_of_memo (floatChain_memo _)).trans (by decide +kernel))

/-- An approved spend, and a transaction after it. -/
theorem first_sends_no_doc_twice : NoDocTwice [firstSend, plainSend] := by
  refine no_doc_twice (floatChain (docAt 0)) (floatChain_numbers _) (.cons firstSend (.cons plainSend (.nil _))) ?_
  intro c hc a ha
  rcases List.mem_cons.mp hc with rfl | hc
  · exact (ctxSeq_alice 0 a ha).trans_lt (by decide)
  · rw [List.mem_singleton.mp hc] at ha ⊢
    exact (ctxSeq_alice 1 a ha).trans_lt (by decide)

def usedSend : Commit (floatChain (docAt (2 ^ 53))) :=
  approvedSend (docAt (2 ^ 53)) (2 ^ 53) (by decide)
    ((requirement_of_memo (floatChain_memo _)).trans (by decide +kernel))

def replayedSend : Commit (floatChain (docAt (2 ^ 53))) :=
  approvedSend (docAt (2 ^ 53)) (2 ^ 53 + 1) (by decide)
    ((requirement_of_memo (floatChain_memo _)).trans (by decide +kernel))

/-- The sequences `2^53` and `2^53 + 1` are written alike, and the approval of the first
transaction passes in the second, which spends once more. -/
theorem approval_replayed :
    (floatChain (docAt (2 ^ 53))).SmallNumbersApart ∧
    Trace Commit.before Commit.after (ctxSeq (2 ^ 53)).sequence [usedSend, replayedSend]
      (ctxSeq (2 ^ 53 + 2)).sequence ∧
    docAt (2 ^ 53) ∈ usedSend.docs ∧ docAt (2 ^ 53) ∈ replayedSend.docs ∧
    ¬ NoDocTwice [usedSend, replayedSend] := by
  have hused : usedSend.docs = [docAt (2 ^ 53)] :=
    (verifiedDocs_of_memo (floatChain_memo _)).trans (by decide +kernel)
  have hreplayed : replayedSend.docs = [docAt (2 ^ 53)] :=
    (verifiedDocs_of_memo (floatChain_memo _)).trans (by decide +kernel)
  have hin : docAt (2 ^ 53) ∈ usedSend.docs := hused ▸ List.mem_cons_self
  have hagain : docAt (2 ^ 53) ∈ replayedSend.docs := hreplayed ▸ List.mem_cons_self
  refine ⟨floatChain_numbers _, .cons usedSend (.cons replayedSend (.nil _)), hin, hagain, ?_⟩
  intro hno
  exact (List.pairwise_cons.mp hno).1 replayedSend List.mem_cons_self _ hin hagain

end Sample

end Mfa
