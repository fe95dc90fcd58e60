import DoChain.Mfa.Types
import DoChain.Sdk.Msg

/- The two MFA decorators of the ante handler (`x/mfa/ante/ante.go`).

   `requirement` is `MFARequirementDecorator.AnteHandle` up to the call of
   `next`, `controlApply` is `MFAControlApplyDecorator.AnteHandle`: it returns
   the policy store the rest of the chain sees. What they call outside the
   module is `Env`: the JSON codec, base64, SHA-256, secp256k1, bech32, and the
   order in which Go ranges over a map. Only two things are known of it, the
   bech32 laws and that ranging visits every entry once; a result that needs more
   says so. The keeper is never nil in the application, so its nil branch is
   left out, and so are the events. -/

namespace Mfa

open Sdk

/-! ## The context of a transaction -/

/-- What the decorators call outside the module. -/
structure Env where
  bech32 : Bech32
  /-- `json.Unmarshal` into `MemoEnvelope`, and its `dochain_mfa` field. -/
  unmarshalMemo : String → Except String (Option MemoMFA)
  /-- The memo is a JSON object with the key `dochain_mfa`. -/
  containsMFAKey : String → Bool
  /-- `base64.StdEncoding.DecodeString`. -/
  decodeBase64 : String → Except String Bytes
  /-- `MustSortJSON` of `MarshalInterfaceJSON`. -/
  sortedMsgJSON : Msg → Except String Bytes
  sha256 : Bytes → Bytes
  /-- What `MustSortJSON` makes of a number. -/
  sortedNumber : Int → Int
  /-- `secp256k1.PubKey.VerifySignature`. -/
  verifySignature : Bytes → SignBytes → Bytes → Bool
  /-- `secp256k1.PubKey.Address` of a key of the right length. -/
  pubKeyAddress : Bytes → AccAddress
  /-- The order in which Go ranges over a map with these entries. -/
  range : List (String × AccAddress) → List (String × AccAddress)
  range_perm : ∀ l, (range l).Perm l

/-- The context: chain, block time in Unix seconds, and the stored sequence of
each account. Block times are protobuf timestamps, so they end with the year
9999. -/
structure Ctx where
  chainID : String
  blockTime : Int
  sequenceOf : AccAddress → Option Nat
  time_lower : -62135596800 ≤ blockTime
  time_upper : blockTime ≤ 253402300799

structure Tx where
  msgs : List Msg
  memo : String
  timeoutHeight : Nat
  signers : Except String (List AccAddress)
  timeout_uint64 : timeoutHeight < 2 ^ 64

/-- Accounts by their rendered address. -/
abbrev Accounts := SortedMap String AccAddress

variable (env : Env)

/-- The account a memo or a message names. -/
def Env.account (text s : String) : Outcome SdkError AccAddress :=
  .ofExcept (fun e => wrap errInvalidAddress (text ++ e)) (env.bech32.accAddressFromBech32 s)

def Env.policy (s : PolicyStore env.bech32) (a : AccAddress) : Option Policy := s.getPolicy a

/-! ## Memo -/

/-- `parseMFAMemo`. -/
def parseMFAMemo (tx : Tx) : Except String (Option MemoMFA) :=
  if tx.memo = "" then .ok none else env.unmarshalMemo tx.memo

def validateControlActionCount (m : MemoMFA) : Outcome SdkError Unit :=
  .failIf (1 < m.enable.toList.length + m.disable.toList.length + m.setGuardian.toList.length +
      m.recoveryStart.toList.length + m.recoveryCancel.toList.length +
      m.recoveryExecute.toList.length)
    (wrap errInvalidMFAApproval "memo can only contain one mfa control action")

/-- `approvalByAccount` of `verifyApprovals`: of several approvals naming an
account the last one counts. -/
def approvalByAccount (approvals : List MemoApproval) (account : String) : Option MemoApproval :=
  approvals.reverse.find? (fun a => a.account = account)

/-- `approvalForAccount`: here the first one counts. -/
def approvalForAccount (approvals : List MemoApproval) (account : String) : Option MemoApproval :=
  approvals.find? (fun a => a.account = account)

def validateOptionalGuardianAddress (address : String) : Outcome SdkError Unit :=
  if address = "" then .ok ()
  else do
    let _ ← env.account "invalid mfa guardian address: " address
    .ok ()

def recoveryApprovalPubKey (action encodedPubKey : String) : Outcome SdkError Bytes :=
  if action = recoveryActionDisable then
    if encodedPubKey ≠ "" then
      .err (wrap errInvalidMFAPolicy "disable recovery must not include an approval public key")
    else .ok []
  else do
    let pubKey ← .ofExcept
      (fun _ => wrap errInvalidMFAPolicy "invalid recovery approval public key encoding")
      (env.decodeBase64 encodedPubKey)
    .failIf (pubKey.length ≠ pubKeySize)
      (wrap errInvalidMFAPolicy s!"invalid recovery approval public key length: {pubKey.length}")
    .ok pubKey

def validateRecoveryRequest (action approvalPubKey : String) : Outcome SdkError Unit := do
  .failIf (isRecoveryAction action = false)
    (wrap errInvalidMFAPolicy ("invalid mfa recovery action: " ++ action))
  let _ ← recoveryApprovalPubKey env action approvalPubKey
  .ok ()

/-! ## Protected accounts -/

def containsDo (coins : Coins) : Bool := decide (0 < coins.amountOf microDoDenom)

def addAccount (accounts : Accounts) (address : String) : Outcome SdkError Accounts := do
  let account ← env.account ("invalid protected account address " ++ address ++ ": ") address
  .ok (accounts.set (env.bech32.string account) account)

/-- Protect the spender where the message spends `udo`. -/
def addAccountIf (accounts : Accounts) (spends : Bool) (address : String) :
    Outcome SdkError Accounts :=
  if spends then addAccount env accounts address else .ok accounts

/-- The inputs of a `MsgMultiSend`, one after another. -/
def addInputs (accounts : Accounts) : List BankInput → Outcome SdkError Accounts
  | [] => .ok accounts
  | input :: rest => do
    let accounts ← addAccountIf env accounts (containsDo input.coins) input.address
    addInputs accounts rest

mutual

def addProtectedAccounts (accounts : Accounts) : Msg → Outcome SdkError Accounts
  | .send fromAddress _ amount => addAccountIf env accounts (containsDo amount) fromAddress
  | .multiSend inputs _ => addInputs env accounts inputs
  | .undelegate delegatorAddress _ amount =>
    addAccountIf env accounts (amount.denom = microDoDenom) delegatorAddress
  | .beginRedelegate delegatorAddress _ _ amount =>
    addAccountIf env accounts (amount.denom = microDoDenom) delegatorAddress
  | .transfer _ _ token sender _ _ _ _ _ =>
    addAccountIf env accounts (token.denom = microDoDenom) sender
  | .executeContract sender _ _ funds => addAccountIf env accounts (containsDo funds) sender
  | .legacyExecuteContract sender _ _ coins => addAccountIf env accounts (containsDo coins) sender
  | .swapSend fromAddress _ offerCoin _ =>
    addAccountIf env accounts (offerCoin.denom = microDoDenom) fromAddress
  | .swap trader offerCoin _ =>
    addAccountIf env accounts (offerCoin.denom = microDoDenom) trader
  | .exec _ msgs =>
    -- `GetMessages` fails before any inner message is looked at
    if msgs.any Msg.isNotMsg then
      .err (wrap errInvalidMFAApproval "messages contains an entry which is not a sdk.MsgRequest")
    else addProtectedList accounts msgs
  | .other _ _ => .ok accounts
  | .notMsg _ _ => .ok accounts

def addProtectedList (accounts : Accounts) : List Msg → Outcome SdkError Accounts
  | [] => .ok accounts
  | msg :: rest => do
    let accounts ← addProtectedAccounts accounts msg
    addProtectedList accounts rest

end

def protectedAccounts (msgs : List Msg) : Outcome SdkError Accounts :=
  addProtectedList env SortedMap.empty msgs

/-! ## What a control action requires -/

/-- The account of a control action that needs an active policy. -/
def accountWithPolicy (s : PolicyStore env.bech32) (text account noPolicy : String) :
    Outcome SdkError (AccAddress × Policy) := do
  let addr ← env.account text account
  let policy ← .ofOption (wrap errInvalidMFAPolicy noPolicy) (env.policy s addr)
  .ok (addr, policy)

def requireEnable (s : PolicyStore env.bech32) (accounts : Accounts) (e : MemoEnable) :
    Outcome SdkError Accounts := do
  let addr ← env.account "invalid mfa enable account: " e.account
  .ok (if (env.policy s addr).isSome then accounts.set (env.bech32.string addr) addr else accounts)

def requireDisable (s : PolicyStore env.bech32) (accounts : Accounts) (d : MemoDisable) :
    Outcome SdkError Accounts := do
  let (addr, _) ← accountWithPolicy env s "invalid mfa disable account: " d.account
    "cannot disable mfa for an account without an active mfa policy"
  .ok (accounts.set (env.bech32.string addr) addr)

def requireSetGuardian (s : PolicyStore env.bech32) (accounts : Accounts) (g : MemoSetGuardian) :
    Outcome SdkError Accounts := do
  let (addr, _) ← accountWithPolicy env s "invalid mfa guardian account: " g.account
    "cannot set a guardian for an account without an active mfa policy"
  validateOptionalGuardianAddress env g.guardianAddress
  .ok (accounts.set (env.bech32.string addr) addr)

def requireRecoveryStart (s : PolicyStore env.bech32) (r : MemoRecoveryStart) : Outcome SdkError Unit := do
  let _ ← accountWithPolicy env s "invalid mfa recovery account: " r.account
    "cannot start recovery for an account without an active mfa policy"
  validateRecoveryRequest env r.action r.approvalPubKey

def requireRecoveryCancel (s : PolicyStore env.bech32) (r : MemoRecoveryCancel) : Outcome SdkError Unit := do
  let _ ← accountWithPolicy env s "invalid mfa recovery account: " r.account
    "cannot cancel recovery for an account without an active mfa policy"
  .ok ()

def requireRecoveryExecute (s : PolicyStore env.bech32) (r : MemoRecoveryExecute) : Outcome SdkError Unit := do
  let (_, policy) ← accountWithPolicy env s "invalid mfa recovery account: " r.account
    "cannot execute recovery for an account without an active mfa policy"
  .failIf (policy.pendingRecovery = none)
    (wrap errInvalidMFAPolicy "no pending mfa recovery request")

/-- Run a check or an update only where the memo carries the action. -/
def whenPresent {α β : Type} (o : Option α) (b : β) (f : α → Outcome SdkError β) :
    Outcome SdkError β :=
  match o with
  | none => .ok b
  | some a => f a

def addControlRequirements (s : PolicyStore env.bech32) (accounts : Accounts) (m : MemoMFA) :
    Outcome SdkError Accounts := do
  let accounts ← whenPresent m.enable accounts (requireEnable env s accounts)
  let accounts ← whenPresent m.disable accounts (requireDisable env s accounts)
  let accounts ← whenPresent m.setGuardian accounts (requireSetGuardian env s accounts)
  whenPresent m.recoveryStart () (requireRecoveryStart env s)
  whenPresent m.recoveryCancel () (requireRecoveryCancel env s)
  whenPresent m.recoveryExecute () (requireRecoveryExecute env s)
  .ok accounts

/-- The account named by a recovery action, the first present in this order. -/
def recoveryAccountText (m : MemoMFA) : Option String :=
  match m.recoveryStart, m.recoveryCancel, m.recoveryExecute with
  | some r, _, _ => some r.account
  | none, some r, _ => some r.account
  | none, none, some r => some r.account
  | none, none, none => none

def recoveryBypassAccount (m : MemoMFA) : Outcome SdkError (Option AccAddress) :=
  match recoveryAccountText m with
  | none => .ok none
  | some account => do
    let addr ← env.account "invalid mfa recovery account: " account
    .ok (some addr)

/-- `Coins.Equal` with `1udo`: both lists are sorted and compared. -/
def isOneDo (amount : Coins) : Bool := amount = [⟨microDoDenom, 1⟩]

def requireRecoveryControlCarrier (tx : Tx) (account : AccAddress) : Outcome SdkError Unit :=
  match tx.msgs with
  | [] => .ok ()
  | [.send fromAddress toAddress amount] => do
    .failIf (fromAddress ≠ env.bech32.string account ∨ toAddress ≠ env.bech32.string account)
      (wrap errInvalidMFAApproval "mfa recovery control transaction must be a self-send")
    .failIf (amount.amountOf microDoDenom ≠ 1 ∨ isOneDo amount = false)
      (wrap errInvalidMFAApproval
        "mfa recovery control transaction must send exactly 1 udo to self")
  | [_] => .err (wrap errInvalidMFAApproval
      "mfa recovery transaction must use the wallet self-send control message")
  | _ => .err (wrap errInvalidMFAApproval
      "mfa recovery transaction cannot include other messages")

/-- The recovery bypass: the carrier is checked and the account is not asked for
an approval. -/
def applyBypass (tx : Tx) (accounts : Accounts) (m : MemoMFA) : Outcome SdkError Accounts := do
  match ← recoveryBypassAccount env m with
  | none => .ok accounts
  | some account => do
    requireRecoveryControlCarrier env tx account
    .ok (accounts.erase (env.bech32.string account))

/-- `accountsWithPolicy`. -/
def accountsWithPolicy (s : PolicyStore env.bech32) (accounts : Accounts) : Accounts where
  entries := accounts.entries.filter (fun e => (env.policy s e.2).isSome)
  sorted := accounts.sorted.filter _

/-! ## Payloads -/

def hexDigit (n : Nat) : Char := Char.ofNat (if n < 10 then 48 + n else 87 + n)

/-- `hex.EncodeToString`. -/
def hexEncode (b : Bytes) : String :=
  String.ofList (b.flatMap (fun x => [hexDigit (x.toNat / 16), hexDigit (x.toNat % 16)]))

/-- What the message hash is taken of: the sorted JSON of every message, one
after another. -/
def hashInput : List Msg → Except String Bytes
  | [] => .ok []
  | msg :: rest =>
    match env.sortedMsgJSON msg with
    | .error e => .error ("cannot hash msg " ++ msg.typeURL ++ ": " ++ e)
    | .ok bz =>
      match hashInput rest with
      | .error e => .error e
      | .ok tail => .ok (bz ++ tail)

def messagesHash (msgs : List Msg) : Outcome SdkError String := do
  let input ← .ofExcept (wrap errInvalidMFAApproval) (hashInput env msgs)
  .ok (hexEncode (env.sha256 input))

def signerSequences (ctx : Ctx) (tx : Tx) : Outcome SdkError (List SignerSequence) := do
  let signers ← .ofExcept (wrap errInvalidMFAApproval) tx.signers
  .ok (signers.map (fun a => ⟨env.bech32.string a, (ctx.sequenceOf a).getD 0⟩))

def newApprovalPayload (ctx : Ctx) (account : String) (expiresAt : Int) (timeoutHeight : Nat)
    (messagesHash : String) (signers : List SignerSequence) : ApprovalPayload :=
  ⟨approvalVersion, ctx.chainID, account, expiresAt, timeoutHeight, messagesHash, signers⟩

def newGuardianApprovalPayload (ctx : Ctx) (account guardianAddress action approvalPubKey : String)
    (expiresAt : Int) (timeoutHeight : Nat) (messagesHash : String)
    (signers : List SignerSequence) : GuardianApprovalPayload :=
  ⟨guardianApprovalVersion, ctx.chainID, account, guardianAddress, action, approvalPubKey,
    expiresAt, timeoutHeight, messagesHash, signers⟩

/-! ## Verification -/

def guardianControlAction (m : MemoMFA) : Option (String × String) :=
  match m.disable, m.enable with
  | some _, _ => some (recoveryActionDisable, "")
  | none, some e => some (recoveryActionRotate, e.approvalPubKey)
  | none, none => none

/-- `secp256k1.PubKey.Address`, which panics on a key of the wrong length. -/
def guardianKeyAddress (key : Bytes) : Outcome SdkError AccAddress :=
  if key.length = pubKeySize then .ok (env.pubKeyAddress key)
  else .panic "length of pubkey is incorrect"

/-- `verifyGuardianApproval`. -/
def verifyGuardianApproval (ctx : Ctx) (account : String) (policy : Policy) (m : MemoMFA)
    (timeoutHeight : Nat) (msgsHash : String) (signers : List SignerSequence) :
    Outcome SdkError Bool :=
  match m.guardianApproval with
  | none => .ok false
  | some approval => do
    .failIf (policy.guardianAddress = "")
      (wrap errInvalidMFAApproval "account has no mfa guardian")
    let (action, approvalPubKey) ← .ofOption
      (wrap errInvalidMFAApproval "guardian approval can only be used for disable or rotate")
      (guardianControlAction m)
    if approval.account ≠ account then .ok false
    else do
      .failIf (approval.guardianAddress ≠ policy.guardianAddress)
        (wrap errInvalidMFAApproval "guardian approval does not match policy guardian")
      .failIf (approval.action ≠ action ∨ approval.approvalPubKey ≠ approvalPubKey)
        (wrap errInvalidMFAApproval "guardian approval does not match requested mfa action")
      .failIf (approval.expiresAt ≤ ctx.blockTime)
        (wrap errExpiredMFAApproval ("guardian approval for " ++ account ++ " expired"))
      let guardianPubKey ← .ofExcept
        (fun _ => wrap errInvalidMFAApproval "invalid guardian public key encoding")
        (env.decodeBase64 approval.guardianPubKey)
      let address ← guardianKeyAddress env guardianPubKey
      .failIf (env.bech32.string address ≠ policy.guardianAddress)
        (wrap errInvalidMFAApproval "guardian public key does not match policy guardian address")
      let signature ← .ofExcept
        (fun _ => wrap errInvalidMFAApproval "invalid guardian signature encoding")
        (env.decodeBase64 approval.signature)
      let payload := newGuardianApprovalPayload ctx account policy.guardianAddress action
        approvalPubKey approval.expiresAt timeoutHeight msgsHash signers
      .failIf (env.verifySignature guardianPubKey (payload.signBytes env.sortedNumber) signature
          = false)
        (wrap errInvalidMFAApproval "guardian signature does not match requested mfa action")
      .ok true

/-- An approval by a key over the payload of the transaction; `parts` makes the
message hash and the signer sequences. -/
def verifyApproval (ctx : Ctx) (account : String) (key : Bytes) (approval : MemoApproval)
    (timeoutHeight : Nat) (parts : Outcome SdkError (String × List SignerSequence))
    (expired encoding mismatch : SdkError) : Outcome SdkError Unit := do
  .failIf (approval.expiresAt ≤ ctx.blockTime) expired
  let signature ← .ofExcept (fun _ => encoding) (env.decodeBase64 approval.signature)
  let (msgsHash, signers) ← parts
  let payload := newApprovalPayload ctx account approval.expiresAt timeoutHeight msgsHash signers
  .failIf (env.verifySignature key (payload.signBytes env.sortedNumber) signature = false) mismatch

/-- One turn of the loop of `verifyApprovals`. -/
def verifyRequired (ctx : Ctx) (s : PolicyStore env.bech32) (m : MemoMFA) (timeoutHeight : Nat)
    (msgsHash : String) (signers : List SignerSequence) (account : String) (addr : AccAddress) :
    Outcome SdkError Unit :=
  match env.policy s addr with
  | none => .ok ()
  | some policy =>
    match approvalByAccount m.approvals account with
    | some approval =>
      verifyApproval env ctx account policy.approvalPubKey approval timeoutHeight
        (.ok (msgsHash, signers))
        (wrap errExpiredMFAApproval ("mfa approval for " ++ account ++ " expired"))
        (wrap errInvalidMFAApproval ("invalid mfa signature encoding for " ++ account))
        (wrap errInvalidMFAApproval ("mfa signature does not match policy for " ++ account))
    | none => do
      let guardianOK ← verifyGuardianApproval env ctx account policy m timeoutHeight msgsHash signers
      .failIf (guardianOK = false)
        (wrap errMFARequired ("missing mfa approval for " ++ account))

def verifyAll (ctx : Ctx) (s : PolicyStore env.bech32) (m : MemoMFA) (timeoutHeight : Nat) (msgsHash : String)
    (signers : List SignerSequence) : List (String × AccAddress) → Outcome SdkError Unit
  | [] => .ok ()
  | (account, addr) :: rest => do
    verifyRequired env ctx s m timeoutHeight msgsHash signers account addr
    verifyAll ctx s m timeoutHeight msgsHash signers rest

/-- The message hash and the signer sequences of a transaction. -/
def payloadParts (ctx : Ctx) (tx : Tx) : Outcome SdkError (String × List SignerSequence) := do
  let msgsHash ← messagesHash env tx.msgs
  let signers ← signerSequences env ctx tx
  .ok (msgsHash, signers)

def verifyApprovals (ctx : Ctx) (s : PolicyStore env.bech32) (tx : Tx) (required : Accounts) (m : MemoMFA) :
    Outcome SdkError Unit := do
  let (msgsHash, signers) ← payloadParts env ctx tx
  verifyAll env ctx s m tx.timeoutHeight msgsHash signers (env.range required.entries)

def requireTxSigner (tx : Tx) (account : AccAddress) : Outcome SdkError Unit := do
  let signers ← .ofExcept (wrap errInvalidMFAApproval) tx.signers
  .failIf (account ∉ signers)
    (wrap errUnauthorized
      ("mfa control account " ++ env.bech32.string account ++ " must sign the transaction"))

/-- `verifyInitialEnableApproval`: an account without a policy shows that the
new key approves. -/
def verifyInitialEnableApproval (ctx : Ctx) (s : PolicyStore env.bech32) (tx : Tx) (m : MemoMFA) :
    Outcome SdkError Unit :=
  whenPresent m.enable () (fun e => do
    let account ← env.account "invalid mfa enable account: " e.account
    if (env.policy s account).isSome then .ok ()
    else do
      requireTxSigner env tx account
      let pubKey ← .ofExcept
        (fun _ => wrap errInvalidMFAPolicy "invalid mfa approval public key encoding")
        (env.decodeBase64 e.approvalPubKey)
      .ofExcept (wrap errInvalidMFAPolicy)
        ((newPolicy env.bech32 account pubKey).validateBasic env.bech32)
      validateOptionalGuardianAddress env e.guardianAddress
      let approval ← .ofOption
        (wrap errMFARequired "initial mfa enable requires an approval from the new mfa key")
        (approvalForAccount m.approvals (env.bech32.string account))
      verifyApproval env ctx (env.bech32.string account) pubKey approval tx.timeoutHeight
        (payloadParts env ctx tx)
        (wrap errExpiredMFAApproval
          ("mfa enable approval for " ++ env.bech32.string account ++ " expired"))
        (wrap errInvalidMFAApproval "invalid mfa enable signature encoding")
        (wrap errInvalidMFAApproval "mfa enable signature does not match the new policy key"))

/-! ## The requirement decorator -/

/-- The accounts whose approval the transaction needs, before the ones without a
policy are dropped. -/
def requiredCandidates (s : PolicyStore env.bech32) (tx : Tx) (m : Option MemoMFA) :
    Outcome SdkError Accounts := do
  let accounts ← protectedAccounts env tx.msgs
  whenPresent m accounts (fun m => do
    validateControlActionCount m
    let accounts ← addControlRequirements env s accounts m
    applyBypass env tx accounts m)

/-- The approvals of the required accounts. An unreadable memo is refused where
an approval is needed, or where it has the MFA key. -/
def checkApprovals (ctx : Ctx) (s : PolicyStore env.bech32) (tx : Tx) (required : Accounts) :
    Outcome SdkError Unit :=
  if required.entries ≠ [] then
    match parseMFAMemo env tx with
    | .error e => .err (wrap errInvalidMFAApproval e)
    | .ok none => .err (wrap errMFARequired "missing mfa memo")
    | .ok (some m) => verifyApprovals env ctx s tx required m
  else
    match parseMFAMemo env tx with
    | .error e => .failIf (env.containsMFAKey tx.memo = true) (wrap errInvalidMFAApproval e)
    | .ok _ => .ok ()

/-- `MFARequirementDecorator.AnteHandle`: what it does before `next`. -/
def requirement (ctx : Ctx) (s : PolicyStore env.bech32) (tx : Tx) : Outcome SdkError Unit := do
  -- an unreadable memo is no memo until an approval is needed
  let memo := (parseMFAMemo env tx).toOption.join
  let candidates ← requiredCandidates env s tx memo
  checkApprovals env ctx s tx (accountsWithPolicy env s candidates)
  whenPresent memo () (verifyInitialEnableApproval env ctx s tx)

/-! ## The control decorator -/

def setPolicy (s : PolicyStore env.bech32) (p : Policy) : Outcome SdkError (PolicyStore env.bech32) :=
  .ofExcept (wrap errInvalidMFAPolicy) (s.setPolicy p)

def applyEnable (tx : Tx) (s : PolicyStore env.bech32) (e : MemoEnable) : Outcome SdkError (PolicyStore env.bech32) := do
  let account ← env.account "invalid mfa enable account: " e.account
  requireTxSigner env tx account
  let pubKey ← .ofExcept
    (fun _ => wrap errInvalidMFAPolicy "invalid mfa approval public key encoding")
    (env.decodeBase64 e.approvalPubKey)
  -- an empty guardian keeps the one of the policy that is replaced
  let guardianAddress :=
    if e.guardianAddress = "" then ((env.policy s account).map Policy.guardianAddress).getD ""
    else e.guardianAddress
  validateOptionalGuardianAddress env guardianAddress
  setPolicy env s { newPolicy env.bech32 account pubKey with guardianAddress := guardianAddress }

def applyDisable (tx : Tx) (s : PolicyStore env.bech32) (d : MemoDisable) : Outcome SdkError (PolicyStore env.bech32) := do
  let account ← env.account "invalid mfa disable account: " d.account
  requireTxSigner env tx account
  .ok (s.deletePolicy account)

/-- The signing account of a control action on an active policy. -/
def signedPolicy (tx : Tx) (s : PolicyStore env.bech32) (text account noPolicy : String) :
    Outcome SdkError (AccAddress × Policy) := do
  let addr ← env.account text account
  requireTxSigner env tx addr
  let policy ← .ofOption (wrap errInvalidMFAPolicy noPolicy) (env.policy s addr)
  .ok (addr, policy)

def applySetGuardian (tx : Tx) (s : PolicyStore env.bech32) (g : MemoSetGuardian) :
    Outcome SdkError (PolicyStore env.bech32) := do
  let account ← env.account "invalid mfa guardian account: " g.account
  requireTxSigner env tx account
  validateOptionalGuardianAddress env g.guardianAddress
  let policy ← .ofOption
    (wrap errInvalidMFAPolicy "cannot set a guardian for an account without an active mfa policy")
    (env.policy s account)
  setPolicy env s { policy with guardianAddress := g.guardianAddress }

def applyRecoveryStart (ctx : Ctx) (tx : Tx) (s : PolicyStore env.bech32) (r : MemoRecoveryStart) :
    Outcome SdkError (PolicyStore env.bech32) := do
  let (_, policy) ← signedPolicy env tx s "invalid mfa recovery account: " r.account
    "cannot start recovery for an account without an active mfa policy"
  let approvalPubKey ← recoveryApprovalPubKey env r.action r.approvalPubKey
  let pending : PendingRecovery :=
    ⟨r.action, approvalPubKey, ctx.blockTime, wrap64 (ctx.blockTime + recoveryDelaySeconds)⟩
  setPolicy env s { policy with pendingRecovery := some pending }

def applyRecoveryCancel (tx : Tx) (s : PolicyStore env.bech32) (r : MemoRecoveryCancel) :
    Outcome SdkError (PolicyStore env.bech32) := do
  let (_, policy) ← signedPolicy env tx s "invalid mfa recovery account: " r.account
    "cannot cancel recovery for an account without an active mfa policy"
  setPolicy env s { policy with pendingRecovery := none }

def applyRecoveryExecute (ctx : Ctx) (tx : Tx) (s : PolicyStore env.bech32) (r : MemoRecoveryExecute) :
    Outcome SdkError (PolicyStore env.bech32) := do
  let (account, policy) ← signedPolicy env tx s "invalid mfa recovery account: " r.account
    "cannot execute recovery for an account without an active mfa policy"
  let pending ← .ofOption (wrap errInvalidMFAPolicy "no pending mfa recovery request")
    policy.pendingRecovery
  .failIf (ctx.blockTime < pending.executeAfter)
    (wrap errMFARequired s!"mfa recovery cannot execute before {pending.executeAfter}")
  if pending.action = recoveryActionDisable then .ok (s.deletePolicy account)
  else if pending.action = recoveryActionRotate then
    setPolicy env s { newPolicy env.bech32 account pending.approvalPubKey with
      guardianAddress := policy.guardianAddress }
  else .err (wrap errInvalidMFAPolicy ("invalid mfa recovery action: " ++ pending.action))

def applyControlActions (ctx : Ctx) (tx : Tx) (s : PolicyStore env.bech32) (m : MemoMFA) :
    Outcome SdkError (PolicyStore env.bech32) := do
  let s ← whenPresent m.enable s (applyEnable env tx s)
  let s ← whenPresent m.disable s (applyDisable env tx s)
  let s ← whenPresent m.setGuardian s (applySetGuardian env tx s)
  let s ← whenPresent m.recoveryStart s (applyRecoveryStart env ctx tx s)
  let s ← whenPresent m.recoveryCancel s (applyRecoveryCancel env tx s)
  whenPresent m.recoveryExecute s (applyRecoveryExecute env ctx tx s)

/-- `MFAControlApplyDecorator.AnteHandle`. -/
def controlApply (ctx : Ctx) (tx : Tx) (s : PolicyStore env.bech32) : Outcome SdkError (PolicyStore env.bech32) :=
  match parseMFAMemo env tx with
  | .error e =>
    if env.containsMFAKey tx.memo then .err (wrap errInvalidMFAApproval e) else .ok s
  | .ok none => .ok s
  | .ok (some m) => do
    validateControlActionCount m
    applyControlActions env ctx tx s m

/-- A transaction that both decorators accept, and the store they leave. -/
def Accepts (ctx : Ctx) (s : PolicyStore env.bech32) (tx : Tx) (s' : PolicyStore env.bech32) : Prop :=
  requirement env ctx s tx = .ok () ∧ controlApply env ctx tx s = .ok s'

end Mfa
