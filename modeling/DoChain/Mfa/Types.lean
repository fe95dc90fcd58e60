import DoChain.Lib.Outcome
import DoChain.Lib.SortedMap
import DoChain.Sdk.LegacyDec
import DoChain.Sdk.Types

/- The MFA module's data: what the memo can carry, the payloads an approval
   signs, and the policy store.

   Correspondence (Go ↔ Lean):
     `x/mfa/types/approval.go`   ↔ the memo records, `ApprovalPayload`, `signBytes`
     `x/mfa/types/policy.go`     ↔ `Policy`, `PendingRecovery`, `validateBasic`
     `x/mfa/keeper/policy.go`    ↔ `setPolicy`, `getPolicy`, `deletePolicy`

   A policy is stored as its JSON under `0x01 | account`; the store here maps the
   account text to the policy, with the invariant `SetPolicy` gives it: a policy
   passed its check and sits under the account it names. Sign bytes are the text of a sorted
   JSON document and stand here as that document, which the text determines. -/

namespace Mfa

open Sdk

def errMFARequired : RegisteredError := ⟨"mfa", 2, "mfa approval required"⟩
def errInvalidMFAApproval : RegisteredError := ⟨"mfa", 3, "invalid mfa approval"⟩
def errExpiredMFAApproval : RegisteredError := ⟨"mfa", 4, "expired mfa approval"⟩
def errInvalidMFAPolicy : RegisteredError := ⟨"mfa", 5, "invalid mfa policy"⟩

def approvalVersion : String := "dochain-mfa-v1"
def guardianApprovalVersion : String := "dochain-mfa-guardian-v1"
def recoveryActionDisable : String := "disable"
def recoveryActionRotate : String := "rotate"

/-- `secp256k1.PubKeySize`. -/
def pubKeySize : Nat := 33

/-- 72 hours. -/
def recoveryDelaySeconds : Int := 72 * 60 * 60

/-! ## The memo -/

structure MemoEnable where
  account : String
  approvalPubKey : String
  guardianAddress : String
  deriving DecidableEq, Repr

structure MemoDisable where
  account : String
  deriving DecidableEq, Repr

structure MemoSetGuardian where
  account : String
  guardianAddress : String
  deriving DecidableEq, Repr

structure MemoRecoveryStart where
  account : String
  action : String
  approvalPubKey : String
  deriving DecidableEq, Repr

structure MemoRecoveryCancel where
  account : String
  deriving DecidableEq, Repr

structure MemoRecoveryExecute where
  account : String
  deriving DecidableEq, Repr

structure MemoApproval where
  account : String
  expiresAt : Int
  signature : String
  deriving DecidableEq, Repr

structure MemoGuardianApproval where
  account : String
  guardianAddress : String
  action : String
  approvalPubKey : String
  guardianPubKey : String
  expiresAt : Int
  signature : String
  deriving DecidableEq, Repr

structure MemoMFA where
  approvals : List MemoApproval
  enable : Option MemoEnable
  disable : Option MemoDisable
  setGuardian : Option MemoSetGuardian
  recoveryStart : Option MemoRecoveryStart
  recoveryCancel : Option MemoRecoveryCancel
  recoveryExecute : Option MemoRecoveryExecute
  guardianApproval : Option MemoGuardianApproval
  deriving DecidableEq, Repr

/-! ## Signed payloads -/

/-- A value of a sorted JSON object that is signed. -/
inductive JsonValue where
  | str : String → JsonValue
  | num : Int → JsonValue
  /-- the objects `{"address": .., "sequence": ..}` -/
  | signers : List (String × Int) → JsonValue
  deriving DecidableEq, Repr

/-- Sign bytes: a JSON object, its keys in order. -/
abbrev SignBytes := List (String × JsonValue)

structure SignerSequence where
  address : String
  sequence : Nat
  deriving DecidableEq, Repr

structure ApprovalPayload where
  version : String
  chainID : String
  account : String
  expiresAt : Int
  timeoutHeight : Nat
  messagesHash : String
  signers : List SignerSequence
  deriving DecidableEq, Repr

structure GuardianApprovalPayload where
  version : String
  chainID : String
  account : String
  guardianAddress : String
  action : String
  approvalPubKey : String
  expiresAt : Int
  timeoutHeight : Nat
  messagesHash : String
  signers : List SignerSequence
  deriving DecidableEq, Repr

/-- `number` is what sorting makes of a number: the sort reads the document into
Go's generic JSON values, where a number is a float. -/
def signersJson (number : Int → Int) (signers : List SignerSequence) : JsonValue :=
  .signers (signers.map (fun s => (s.address, number s.sequence)))

def ApprovalPayload.signBytes (number : Int → Int) (p : ApprovalPayload) : SignBytes :=
  [("account", .str p.account), ("chain_id", .str p.chainID),
    ("expires_at", .num (number p.expiresAt)), ("messages_hash", .str p.messagesHash),
    ("signers", signersJson number p.signers),
    ("timeout_height", .num (number p.timeoutHeight)), ("version", .str p.version)]

/-- An empty `approval_pub_key` is left out (`omitempty`). -/
def GuardianApprovalPayload.signBytes (number : Int → Int) (p : GuardianApprovalPayload) :
    SignBytes :=
  [("account", .str p.account), ("action", .str p.action)] ++
    (if p.approvalPubKey = "" then [] else [("approval_pub_key", .str p.approvalPubKey)]) ++
    [("chain_id", .str p.chainID), ("expires_at", .num (number p.expiresAt)),
      ("guardian_address", .str p.guardianAddress), ("messages_hash", .str p.messagesHash),
      ("signers", signersJson number p.signers),
      ("timeout_height", .num (number p.timeoutHeight)), ("version", .str p.version)]

/-! ## Policies -/

structure PendingRecovery where
  action : String
  approvalPubKey : Bytes
  requestedAt : Int
  executeAfter : Int
  deriving DecidableEq, Repr

structure Policy where
  account : String
  approvalPubKey : Bytes
  enabled : Bool
  guardianAddress : String
  pendingRecovery : Option PendingRecovery
  deriving DecidableEq, Repr

def newPolicy (b : Bech32) (account : AccAddress) (approvalPubKey : Bytes) : Policy :=
  ⟨b.string account, approvalPubKey, true, "", none⟩

def isRecoveryAction (action : String) : Bool :=
  action = recoveryActionDisable || action = recoveryActionRotate

def PendingRecovery.validateBasic (r : PendingRecovery) : Except String Unit :=
  if isRecoveryAction r.action = false then
    .error ("invalid mfa recovery action: " ++ r.action)
  else if r.action = recoveryActionRotate ∧ r.approvalPubKey.length ≠ pubKeySize then
    .error s!"invalid mfa recovery approval public key length: {r.approvalPubKey.length}"
  else if r.action = recoveryActionDisable ∧ r.approvalPubKey.length ≠ 0 then
    .error "disable recovery must not include an approval public key"
  else if r.requestedAt ≤ 0 then
    .error s!"invalid mfa recovery request time: {r.requestedAt}"
  else if r.executeAfter < wrap64 (r.requestedAt + recoveryDelaySeconds) then
    .error "mfa recovery delay is too short"
  else .ok ()

def Policy.validateBasic (b : Bech32) (p : Policy) : Except String Unit :=
  match b.accAddressFromBech32 p.account with
  | .error e => .error ("invalid mfa account: " ++ e)
  | .ok _ =>
    if p.enabled = false then .ok ()
    else if p.approvalPubKey.length ≠ pubKeySize then
      .error s!"invalid mfa approval public key length: {p.approvalPubKey.length}"
    else
      match (if p.guardianAddress = "" then none
          else some (b.accAddressFromBech32 p.guardianAddress)) with
      | some (.error e) => .error ("invalid mfa guardian address: " ++ e)
      | _ =>
        match p.pendingRecovery with
        | some r => r.validateBasic
        | none => .ok ()

/-! ## The policy store -/

/-- The stored policies: each under the account it names, and each passed its
check when it was written. -/
structure PolicyStore (b : Bech32) where
  policies : SortedMap String Policy
  keyed : ∀ {k p}, policies.get k = some p → p.account = k
  valid : ∀ {k p}, policies.get k = some p → p.validateBasic b = .ok ()

namespace PolicyStore

variable {b : Bech32}

def empty : PolicyStore b where
  policies := SortedMap.empty
  keyed := by intro k p h; simp at h
  valid := by intro k p h; simp at h

/-- Write a policy that passed its check under the account it names. -/
def put (s : PolicyStore b) (p : Policy) (hp : p.validateBasic b = .ok ()) : PolicyStore b where
  policies := s.policies.set p.account p
  keyed := by
    intro k q h
    rw [SortedMap.get_set] at h
    split at h
    · rename_i hk
      cases h; exact hk.symm
    · exact s.keyed h
  valid := by
    intro k q h
    rw [SortedMap.get_set] at h
    split at h
    · cases h; exact hp
    · exact s.valid h

def setPolicy (s : PolicyStore b) (p : Policy) : Except String (PolicyStore b) :=
  match h : p.validateBasic b with
  | .error e => .error e
  | .ok () => .ok (s.put p h)

/-- The enabled policy of an account: a disabled one reads as absent. -/
def getPolicy (s : PolicyStore b) (account : AccAddress) : Option Policy :=
  (s.policies.get (b.string account)).filter Policy.enabled

def deletePolicy (s : PolicyStore b) (account : AccAddress) : PolicyStore b where
  policies := s.policies.erase (b.string account)
  keyed := by
    intro k q h
    rw [SortedMap.get_erase] at h
    split at h
    · cases h
    · exact s.keyed h
  valid := by
    intro k q h
    rw [SortedMap.get_erase] at h
    split at h
    · cases h
    · exact s.valid h

theorem setPolicy_eq_ok {s s' : PolicyStore b} {p : Policy} :
    s.setPolicy p = .ok s' ↔ ∃ h : p.validateBasic b = .ok (), s' = s.put p h := by
  simp only [setPolicy]
  split
  · rename_i e he
    simp [he]
  · rename_i he
    simp [he, eq_comm]

/-- What is read after a write: the policy written, if it is enabled, under the
account it names, and what was there before elsewhere. -/
theorem getPolicy_put (s : PolicyStore b) (p : Policy) (hp : p.validateBasic b = .ok ())
    (a : AccAddress) :
    (s.put p hp).getPolicy a =
      if b.string a = p.account then (some p).filter Policy.enabled else s.getPolicy a := by
  simp only [getPolicy, put, SortedMap.get_set]
  split <;> rfl

theorem getPolicy_deletePolicy (s : PolicyStore b) (a a' : AccAddress) :
    (s.deletePolicy a).getPolicy a' = if a' = a then none else s.getPolicy a' := by
  simp only [getPolicy, deletePolicy, SortedMap.get_erase, b.string_injective.eq_iff]
  split <;> rfl

/-- A policy that is read names the account it is read for, is enabled, and
passed its check. -/
theorem getPolicy_spec {s : PolicyStore b} {a : AccAddress} {p : Policy}
    (h : s.getPolicy a = some p) :
    p.account = b.string a ∧ p.enabled = true ∧ p.validateBasic b = .ok () := by
  obtain ⟨hget, hen⟩ := Option.filter_eq_some_iff.mp h
  exact ⟨s.keyed hget, hen, s.valid hget⟩

end PolicyStore

end Mfa
