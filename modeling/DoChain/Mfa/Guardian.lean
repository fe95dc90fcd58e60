import DoChain.Mfa.Protected

/- What a guardian's approval is used for.

   The guardian signs for one account and one action, a disable or a rotation, and
   `verifyGuardianApproval` compares the action with the one in the memo. Whose account
   the memo's action names is not compared. `guardian_only_iff` says what follows: a guardian's
   approval ends in the deletion of the account's policy, or in a policy with the approved
   key, exactly for the memos whose action names the account. With another account in the memo
   the approval lets a spend pass, and the policy stays as it is. -/

namespace Mfa

open Sdk

variable {env : Env} {ctx : Ctx} {s s' : PolicyStore env.bech32} {tx : Tx} {m : MemoMFA} {a : AccAddress}
  {approval : MemoGuardianApproval}

/-- The transaction needs the account's approval, and its memo has the guardian's in place
of one by the account's own key. -/
structure MetByGuardian (env : Env) (s : PolicyStore env.bech32) (tx : Tx) (m : MemoMFA) (a : AccAddress)
    (approval : MemoGuardianApproval) : Prop where
  memo : parseMFAMemo env tx = .ok (some m)
  required : ∃ candidates, requiredCandidates env s tx (some m) = .ok candidates ∧ Has env candidates a
  policy : (env.policy s a).isSome
  no_approval : approvalByAccount m.approvals (env.bech32.string a) = none
  guardian : m.guardianApproval = some approval

/-- The memo disables the account and its policy is gone, or rotates the account to the key
that the guardian approved and its policy carries that key. -/
def DisablesOrRotates (env : Env) (m : MemoMFA) (approval : MemoGuardianApproval) (s' : PolicyStore env.bech32)
    (a : AccAddress) : Prop :=
  match m.control with
  | some (.disable d) => env.bech32.accAddressFromBech32 d.account = .ok a ∧ env.policy s' a = none
  | some (.enable e) => env.bech32.accAddressFromBech32 e.account = .ok a ∧
      e.approvalPubKey = approval.approvalPubKey ∧
      ∃ key p, env.decodeBase64 approval.approvalPubKey = .ok key ∧ env.policy s' a = some p ∧
        p.approvalPubKey = key
  | _ => False

/-! ## The action that was approved -/

/-- An approval that passed names the action and the key of the memo. -/
theorem verifyGuardianApproval_action {account : String} {p : Policy} {th : Nat} {msgsHash : String}
    {signers : List SignerSequence} (hg : m.guardianApproval = some approval)
    (h : verifyGuardianApproval env ctx account p m th msgsHash signers = .ok true) :
    guardianControlAction m = some (approval.action, approval.approvalPubKey) := by
  simp only [verifyGuardianApproval, hg, Outcome.bind_eq_ok, Outcome.failIf_eq_ok,
    Outcome.ofOption_eq_ok] at h
  obtain ⟨_, _, ⟨action, newKey⟩, haction, h⟩ := h
  split_ifs at h with hacc
  · cases h
  · obtain ⟨_, _, h⟩ := Outcome.bind_eq_ok.mp h
    obtain ⟨_, hsame, _⟩ := Outcome.bind_eq_ok.mp h
    obtain ⟨hact, hkey⟩ := not_or.mp (Outcome.failIf_eq_ok.mp hsame)
    rw [haction, not_ne_iff.mp hact, not_ne_iff.mp hkey]

/-- The account's turn of the loop passed by the guardian. -/
theorem MetByGuardian.action (h : MetByGuardian env s tx m a approval)
    (hr : requirement env ctx s tx = .ok ()) :
    guardianControlAction m = some (approval.action, approval.approvalPubKey) := by
  obtain ⟨p, hp⟩ := Option.isSome_iff_exists.mp h.policy
  obtain ⟨candidates, hc, hv, _⟩ := requirement_inv hr
  obtain ⟨candidates', hc', hhas⟩ := h.required
  rw [h.memo] at hc
  obtain rfl := Outcome.ok.inj (hc'.symm.trans hc)
  obtain ⟨m', msgsHash, signers, hm', _, hone⟩ := required_verified hv hhas hp
  obtain rfl := Option.some.inj (Except.ok.inj (h.memo.symm.trans hm'))
  simp only [verifyRequired, hp, h.no_approval] at hone
  obtain ⟨ok, hok, hpass⟩ := Outcome.bind_eq_ok.mp hone
  rw [Outcome.failIf_eq_ok, Bool.not_eq_false] at hpass
  rw [hpass] at hok
  exact verifyGuardianApproval_action h.guardian hok

/-- Only a disable and an enable are actions for a guardian. -/
theorem guardianControlAction_withControl (m : MemoMFA) (c : Option Control) :
    guardianControlAction (m.withControl c) =
      match c with
      | some (.disable _) => some (recoveryActionDisable, "")
      | some (.enable e) => some (recoveryActionRotate, e.approvalPubKey)
      | _ => none := by
  cases c with
  | none => rfl
  | some c => cases c <;> rfl

/-! ## Whose policy changes -/

/-- The guardian's approval disables or rotates the account exactly if the memo's action
names it. -/
theorem guardian_only_iff (env : Env) (ctx : Ctx) (s s' : PolicyStore env.bech32) (tx : Tx) (m : MemoMFA)
    (a : AccAddress) (approval : MemoGuardianApproval) (haccepts : Accepts env ctx s tx s')
    (hmet : MetByGuardian env s tx m a approval) :
    DisablesOrRotates env m approval s' a ↔
      ∃ c, m.control = some c ∧ env.bech32.accAddressFromBech32 c.account = .ok a := by
  obtain ⟨hcount, happly⟩ := (controlApply_eq hmet.memo).mp haccepts.2
  have haction := hmet.action haccepts.1
  rw [← withControl_control hcount, guardianControlAction_withControl] at haction
  unfold DisablesOrRotates
  cases hc : m.control with
  | none =>
    rw [hc] at haction
    cases haction
  | some c =>
    rw [hc] at haction happly
    obtain ⟨b, hb, _, _, heffect⟩ := applyControl_effect happly
    refine ⟨?_, ?_⟩
    · intro h
      refine ⟨c, rfl, ?_⟩
      cases c with
      | disable d => exact h.1
      | enable e => exact h.1
      | setGuardian g => exact h.elim
      | recoveryStart r => exact h.elim
      | recoveryCancel r => exact h.elim
      | recoveryExecute r => exact h.elim
    · intro h
      obtain ⟨c', hc', ha⟩ := h
      obtain rfl := Option.some.inj hc'
      obtain rfl : b = a := Except.ok.inj (hb.symm.trans ha)
      cases c with
      | disable d => exact ⟨ha, heffect⟩
      | enable e =>
        obtain ⟨key, hkey, hpolicy⟩ := heffect
        have hsame : e.approvalPubKey = approval.approvalPubKey := congrArg Prod.snd (Option.some.inj haction)
        exact ⟨ha, hsame, key, _, hsame ▸ hkey, hpolicy, rfl⟩
      -- an accepted guardian approval stands beside no other action
      | setGuardian g => cases haction
      | recoveryStart r => cases haction
      | recoveryCancel r => cases haction
      | recoveryExecute r => cases haction

namespace Sample

open Sdk.Sample

/-- Alice's guardian is Bob. This is the key of Bob's account. -/
def guardianKey : Bytes :=
  [2, 162, 101, 26, 89, 42, 157, 220, 37, 86, 58, 250, 61, 250, 36, 69, 178, 222, 74, 8, 59, 177,
    63, 179, 26, 33, 95, 114, 215, 184, 68, 139, 0]

def guardianKeyText : String := "AqJlGlkqndwlVjr6PfokRbLeSgg7sT+zGiFfcte4RIsA"

/-- The key of Bob's own policy. -/
def bobKey : Bytes :=
  [3, 220, 235, 49, 231, 195, 130, 197, 191, 114, 132, 203, 158, 236, 149, 48, 204, 237, 66, 25,
    68, 140, 11, 60, 105, 116, 237, 110, 3, 243, 136, 56, 209]

def bobSignature : Bytes :=
  [166, 136, 194, 206, 71, 165, 94, 16, 252, 78, 127, 83, 50, 234, 219, 225, 198, 114, 254, 177,
    16, 173, 26, 236, 156, 76, 225, 25, 23, 83, 142, 185, 14, 135, 238, 177, 87, 229, 174, 78, 164,
    122, 233, 86, 229, 208, 242, 63, 34, 93, 166, 52, 208, 39, 89, 164, 184, 139, 224, 77, 74, 56,
    199, 228]

def bobSignatureText : String :=
  "pojCzkelXhD8Tn9TMurb4cZy/rEQrRrsnEzhGRdTjrkOh+6xV+WuTqR66Vbl0PI/Il2mNNAnWaS4i+BNSjjH5A=="

def guardianSignature : Bytes :=
  [222, 209, 207, 249, 14, 224, 211, 42, 194, 185, 132, 188, 105, 163, 5, 25, 253, 179, 116, 242,
    117, 229, 69, 190, 254, 24, 156, 255, 208, 218, 88, 158, 235, 93, 185, 203, 213, 240, 97, 208,
    151, 56, 59, 231, 67, 163, 172, 106, 173, 204, 34, 169, 186, 73, 234, 107, 187, 56, 49, 13,
    255, 80, 226, 103]

def guardianSignatureText : String :=
  "3tHP+Q7g0yrCuYS8aaMFGf2zdPJ15UW+/hic/9DaWJ7rXbnL1fBh0Jc4O+dDo6xqrcwiqbpJ6mu7ODEN/1DiZw=="

def aliceSend : Msg := .send aliceText bobText [⟨microDoDenom, 5000000⟩]

def bobSend : Msg := .send bobText aliceText [⟨microDoDenom, 1⟩]

def sendJSON (fromAddress toAddress amount : String) : Bytes :=
  ascii "\x7b\"@type\":\"/cosmos.bank.v1beta1.MsgSend\",\"amount\":[\x7b\"amount\":\"" ++ ascii amount ++
    ascii "\",\"denom\":\"udo\"\x7d],\"from_address\":\"" ++ ascii fromAddress ++
    ascii "\",\"to_address\":\"" ++ ascii toAddress ++ ascii "\"\x7d"

def exchangeJSON : Msg → Except String Bytes
  | .send fromAddress toAddress [coin] =>
    if fromAddress = aliceText ∧ toAddress = bobText ∧ coin = ⟨microDoDenom, 5000000⟩ then
      .ok (sendJSON aliceText bobText "5000000")
    else if fromAddress = bobText ∧ toAddress = aliceText ∧ coin = ⟨microDoDenom, 1⟩ then
      .ok (sendJSON bobText aliceText "1")
    else .error "unknown message"
  | _ => .error "unknown message"

def exchangeDigest : Bytes :=
  [122, 233, 115, 108, 229, 186, 31, 118, 175, 201, 68, 40, 156, 96, 52, 75, 2, 248, 19, 132, 83,
    32, 58, 244, 27, 170, 51, 240, 117, 208, 224, 60]

def exchangeHash : String := "7ae9736ce5ba1f76afc944289c60344b02f8138453203af41baa33f075d0e03c"

/-- What Bob signed, for the own account. -/
def bobDoc : SignBytes :=
  [("account", .str bobText), ("chain_id", .str "Do-Chain"), ("expires_at", .num 1800000000),
    ("messages_hash", .str exchangeHash), ("signers", .signers [(aliceText, 0), (bobText, 0)]),
    ("timeout_height", .num 0), ("version", .str "dochain-mfa-v1")]

/-- What Bob signed as the guardian: Alice's policy shall be disabled. -/
def guardianDoc : SignBytes :=
  [("account", .str aliceText), ("action", .str "disable"), ("chain_id", .str "Do-Chain"),
    ("expires_at", .num 1800000000), ("guardian_address", .str bobText),
    ("messages_hash", .str exchangeHash), ("signers", .signers [(aliceText, 0), (bobText, 0)]),
    ("timeout_height", .num 0), ("version", .str "dochain-mfa-guardian-v1")]

def guardianApproval : MemoGuardianApproval :=
  ⟨aliceText, bobText, "disable", "", guardianKeyText, 1800000000, guardianSignatureText⟩

/-- The memo, with the account that it disables. -/
def guardianMemo (account : String) : MemoMFA :=
  ⟨[⟨bobText, 1800000000, bobSignatureText⟩], none, some ⟨account⟩, none, none, none, none,
    some guardianApproval⟩

/-- The memo up to the account that it disables. -/
def guardianStart : List Char :=
  "\x7b\"dochain_mfa\":\x7b\"approvals\":[\x7b\"account\":\"".toList ++ bobText.toList ++
    "\",\"expires_at\":1800000000,\"signature\":\"".toList ++ bobSignatureText.toList ++
    "\"\x7d],\"disable\":\x7b\"account\":\"".toList

def guardianEnd : List Char :=
  "\"\x7d,\"guardian_approval\":\x7b\"account\":\"".toList ++ aliceText.toList ++
    "\",\"guardian_address\":\"".toList ++ bobText.toList ++
    "\",\"action\":\"disable\",\"guardian_pub_key\":\"".toList ++ guardianKeyText.toList ++
    "\",\"expires_at\":1800000000,\"signature\":\"".toList ++ guardianSignatureText.toList ++
    "\"\x7d\x7d\x7d".toList

def guardianText (account : String) : String :=
  String.ofList (guardianStart ++ account.toList ++ guardianEnd)

def readGuardian (account text : String) : Except String (Option MemoMFA) :=
  if text = guardianText account then .ok (some (guardianMemo account)) else .error "invalid character"

/-- The surroundings of the exchange, with the memos that can be read. -/
def exchangeChain (unmarshalMemo : String → Except String (Option MemoMFA)) : Env :=
  { chain unmarshalMemo with
    decodeBase64 := fun s =>
      if s = guardianKeyText then .ok guardianKey
      else if s = bobSignatureText then .ok bobSignature
      else if s = guardianSignatureText then .ok guardianSignature
      else .error "illegal base64 data"
    sortedMsgJSON := exchangeJSON
    sha256 := fun b =>
      if b = sendJSON aliceText bobText "5000000" ++ sendJSON bobText aliceText "1" then exchangeDigest
      else List.replicate 33 0 ++ b
    verifySignature := fun key doc sig =>
      decide ((key = bobKey ∧ doc = bobDoc ∧ sig = bobSignature) ∨
        (key = guardianKey ∧ doc = guardianDoc ∧ sig = guardianSignature))
    pubKeyAddress := fun key => if key = guardianKey then bob else key.take 20 }

def alicePolicy : Policy := ⟨aliceText, approvalKey, true, bobText, none⟩

def bobPolicy : Policy := ⟨bobText, bobKey, true, "", none⟩

def guardedStore : PolicyStore bech32 :=
  (PolicyStore.empty.put alicePolicy (by decide)).put bobPolicy (by decide)

def exchangeTx (memo : String) : Tx :=
  { carrierTx memo with msgs := [aliceSend, bobSend], signers := .ok [alice, bob] }

theorem exchangeTx_memo (memo : String) : (exchangeTx memo).memo = memo := rfl

theorem exchangeChain_unmarshalMemo (f : String → Except String (Option MemoMFA)) :
    (exchangeChain f).unmarshalMemo = f := rfl

/-- The surroundings with the memo that disables this account. The guardian's key and the
signatures are placeholders: they do not verify on the curve, and stand for those of a real
guardian, of which `verifySignature` says what the curve would. -/
def guardianChain (account : String) : Env := exchangeChain (readGuardian account)

theorem guardianText_memo (account : String) :
    parseMFAMemo (guardianChain account) (exchangeTx (guardianText account)) =
      .ok (some (guardianMemo account)) := by
  have hne : guardianText account ≠ "" := by
    intro hempty
    rw [guardianText, String.ofList_eq_empty_iff, List.append_eq_nil_iff] at hempty
    have hend : guardianEnd ≠ [] := by decide +kernel
    exact hend hempty.2
  rw [parseMFAMemo, exchangeTx_memo, if_neg hne, guardianChain, exchangeChain_unmarshalMemo, readGuardian,
    if_pos rfl]

theorem disable_alice_accepts :
    Accepts (guardianChain aliceText) start guardedStore (exchangeTx (guardianText aliceText))
      (guardedStore.deletePolicy alice) :=
  ⟨(requirement_of_memo (guardianText_memo aliceText)).trans (by decide +kernel),
    (controlApply_eq (guardianText_memo aliceText)).mpr ⟨rfl, rfl⟩⟩

theorem disable_alice_met :
    MetByGuardian (guardianChain aliceText) guardedStore (exchangeTx (guardianText aliceText))
      (guardianMemo aliceText) alice guardianApproval where
  memo := guardianText_memo aliceText
  required := ⟨(SortedMap.empty.set aliceText alice).set bobText bob, by decide +kernel,
    (has_set_self _ alice).set alice _ bob⟩
  policy := by decide +kernel
  no_approval := by decide +kernel
  guardian := rfl

/-- Alice and Bob exchange coins. Bob approves for the own account and, as the guardian, that
Alice's policy is disabled; and the memo disables it. -/
theorem guardian_disables_alice :
    DisablesOrRotates (guardianChain aliceText) (guardianMemo aliceText) guardianApproval
      (guardedStore.deletePolicy alice) alice :=
  (guardian_only_iff (guardianChain aliceText) start guardedStore (guardedStore.deletePolicy alice)
    (exchangeTx (guardianText aliceText)) (guardianMemo aliceText) alice guardianApproval
    disable_alice_accepts disable_alice_met).mpr ⟨.disable ⟨aliceText⟩, rfl, by decide +kernel⟩

/-- With the same approvals the memo disables Bob's policy. The guardian's approval lets
Alice's coins go, and Alice keeps the policy. -/
theorem guardian_approval_spends :
    Accepts (guardianChain bobText) start guardedStore (exchangeTx (guardianText bobText))
      (guardedStore.deletePolicy bob) ∧
    MetByGuardian (guardianChain bobText) guardedStore (exchangeTx (guardianText bobText))
      (guardianMemo bobText) alice guardianApproval ∧
    (guardianChain bobText).policy (guardedStore.deletePolicy bob) alice = some alicePolicy ∧
    ¬ DisablesOrRotates (guardianChain bobText) (guardianMemo bobText) guardianApproval
      (guardedStore.deletePolicy bob) alice := by
  refine ⟨⟨?_, ?_⟩, ⟨guardianText_memo bobText, ?_, ?_, ?_, rfl⟩, ?_, ?_⟩
  · exact (requirement_of_memo (guardianText_memo bobText)).trans (by decide +kernel)
  · exact (controlApply_eq (guardianText_memo bobText)).mpr ⟨rfl, rfl⟩
  · exact ⟨(SortedMap.empty.set aliceText alice).set bobText bob, by decide +kernel,
    (has_set_self _ alice).set alice _ bob⟩
  · decide +kernel
  · decide +kernel
  · decide +kernel
  · intro h
    have hother : (guardianChain bobText).bech32.accAddressFromBech32 bobText ≠ .ok alice := by decide +kernel
    exact hother h.1

end Sample

end Mfa
