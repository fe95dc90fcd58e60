import DoChain.Lib.Outcome
import DoChain.Sdk.Msg

/- The contract message handler (`custom/wasm/keeper/handler_plugin.go`).

   A contract emits a `CosmosMsg`; the encoders turn it into SDK messages, and
   `DispatchMsg` hands these to the router one after another. The code is generic
   in all of this: `μ` is the type of SDK messages, `ω` what a contract can emit,
   `σ` the chain state the handlers work on. A message type may or may not
   implement the two optional interfaces the handler asks for, `HasValidateBasic`
   and `LegacyMsg`. Besides its result each function returns the messages that were
   handed to a router handler, which is the effect the permission check is there to
   guard.

   `handed_signed_iff` says when every message that is handed over is signed by the
   contract alone. The check is behind `LegacyMsg`, so it comes down to the messages
   that do not implement it. -/

namespace Wasm

open Sdk

variable {μ ω σ : Type}

/-! ## Messages and the router -/

structure Event where
  type : String
  attributes : List (String × String)
  deriving DecidableEq, Repr

/-- `sdk.Result`. -/
structure Result where
  data : Bytes
  events : List Event
  deriving DecidableEq, Repr

/-- What a message type offers to the handler. -/
structure MsgInfo (μ : Type) where
  /-- `HasValidateBasic`, where it is implemented. -/
  validateBasic : μ → Option (Except SdkError Unit)
  /-- `LegacyMsg`, where it is implemented; `GetSigners` panics on an address it
  cannot read. -/
  getSigners : μ → Option (Outcome SdkError (List AccAddress))
  /-- The signers by the `cosmos.msg.v1.signer` annotation. -/
  annotatedSigners : μ → List AccAddress
  /-- The message as `%+v` prints it. -/
  text : μ → String

/-- `baseapp.MsgServiceHandler`. -/
abbrev MsgServiceHandler (μ σ : Type) := σ → μ → Outcome SdkError (Result × σ)

structure SDKMessageHandler (μ ω σ : Type) where
  info : MsgInfo μ
  /-- `MessageRouter.Handler`: nil where no service is registered. -/
  router : μ → Option (MsgServiceHandler μ σ)
  /-- `msgEncoder.Encode` for the contract and its IBC port. -/
  encode : σ → AccAddress → String → ω → Outcome SdkError (List μ)

namespace SDKMessageHandler

variable (h : SDKMessageHandler μ ω σ) (contractAddr : AccAddress)

/-- `ValidateBasic`, for the messages that implement it. -/
def validateBasic (msg : μ) : Outcome SdkError Unit :=
  match h.info.validateBasic msg with
  | none => .ok ()
  | some r => .ofExcept id r

/-- The permission check, for the messages that implement `LegacyMsg`. -/
def checkSigners (msg : μ) : Outcome SdkError Unit :=
  match h.info.getSigners msg with
  | none => .ok ()
  | some r => do
    let signers ← r
    .failIf (∃ acct ∈ signers, acct ≠ contractAddr)
      (wrap errUnauthorized "contract doesn't have permission")

/-- The part of `handleSdkMessage` before the router is asked. -/
def checkSdkMessage (msg : μ) : Outcome SdkError Unit := do
  validateBasic h msg
  checkSigners h contractAddr msg

/-- `handleSdkMessage`. -/
def handleSdkMessage (st : σ) (msg : μ) : List μ × Outcome SdkError (Result × σ) :=
  match checkSdkMessage h contractAddr msg with
  | .err e => ([], .err e)
  | .panic p => ([], .panic p)
  | .ok () =>
    match h.router msg with
    | some handler => ([msg], handler st msg)
    | none => ([], .err (wrap errUnknownRequest ("can't route message " ++ h.info.text msg)))

/-- The loop of `DispatchMsg`, with the events and data gathered so far. -/
def dispatchLoop (events : List Event) (data : List Bytes) (st : σ) :
    List μ → List μ × Outcome SdkError (List Event × List Bytes × σ)
  | [] => ([], .ok (events, data, st))
  | msg :: rest =>
    match handleSdkMessage h contractAddr st msg with
    | (handed, .err e) => (handed, .err e)
    | (handed, .panic p) => (handed, .panic p)
    | (handed, .ok (res, st')) =>
      let (later, result) := dispatchLoop (events ++ res.events) (data ++ [res.data]) st' rest
      (handed ++ later, result)

/-- `DispatchMsg`. -/
def dispatchMsg (contractIBCPortID : String) (msg : ω) (st : σ) :
    List μ × Outcome SdkError (List Event × List Bytes × σ) :=
  match h.encode st contractAddr contractIBCPortID msg with
  | .err e => ([], .err e)
  | .panic p => ([], .panic p)
  | .ok sdkMsgs => dispatchLoop h contractAddr [] [] st sdkMsgs

/-! ## What is handed over -/

/-- The messages are handled without an error, one after another. -/
inductive Handles : σ → List μ → σ → Prop where
  | nil (st : σ) : Handles st [] st
  | cons {st st' st'' : σ} {msg : μ} {rest : List μ} {res : Result} :
      (handleSdkMessage h contractAddr st msg).2 = .ok (res, st') → Handles st' rest st'' →
      Handles st (msg :: rest) st''

/-- The message passes its own check and has a route. -/
def Deliverable (msg : μ) : Prop := validateBasic h msg = .ok () ∧ (h.router msg).isSome

variable {h contractAddr}

theorem checkSigners_of_not_legacy {msg : μ} (hs : h.info.getSigners msg = none) :
    checkSigners h contractAddr msg = .ok () := by
  rw [checkSigners, hs]

theorem checkSigners_legacy {msg : μ} {r : Outcome SdkError (List AccAddress)}
    (hs : h.info.getSigners msg = some r) (hok : checkSigners h contractAddr msg = .ok ()) :
    ∃ signers, r = .ok signers ∧ ∀ acct ∈ signers, acct = contractAddr := by
  simp only [checkSigners, hs, Outcome.bind_eq_ok, Outcome.failIf_eq_ok] at hok
  obtain ⟨signers, hr, hall⟩ := hok
  refine ⟨signers, hr, ?_⟩
  intro acct hacct
  by_contra hne
  exact hall ⟨acct, hacct, hne⟩

theorem mem_handleSdkMessage {st : σ} {msg m : μ} :
    m ∈ (handleSdkMessage h contractAddr st msg).1 ↔
      m = msg ∧ Deliverable h msg ∧ checkSigners h contractAddr msg = .ok () := by
  have hcheck : checkSdkMessage h contractAddr msg = .ok () ↔
      validateBasic h msg = .ok () ∧ checkSigners h contractAddr msg = .ok () :=
    Outcome.check_bind_eq_ok
  simp only [handleSdkMessage, Deliverable]
  cases hc : checkSdkMessage h contractAddr msg with
  | err e =>
    rw [hc] at hcheck
    simp only [reduceCtorEq, false_iff, not_and] at hcheck
    simpa using fun _ hv _ => hcheck hv
  | panic p =>
    rw [hc] at hcheck
    simp only [reduceCtorEq, false_iff, not_and] at hcheck
    simpa using fun _ hv _ => hcheck hv
  | ok u =>
    obtain ⟨hv, hs⟩ := hcheck.mp hc
    cases hr : h.router msg <;> simp [hv, hs]

/-- A message is handed over exactly when those before it were handled, it is
deliverable, and it passes the permission check. -/
theorem mem_dispatchLoop {events : List Event} {data : List Bytes} {st : σ} {msgs : List μ} {m : μ} :
    m ∈ (dispatchLoop h contractAddr events data st msgs).1 ↔
      ∃ pre suf st', msgs = pre ++ m :: suf ∧ Handles h contractAddr st pre st' ∧
        Deliverable h m ∧ checkSigners h contractAddr m = .ok () := by
  induction msgs generalizing events data st with
  | nil => simp [dispatchLoop]
  | cons msg rest ih =>
    -- the first message, or one that the loop reaches after handling it
    have hmem : m ∈ (dispatchLoop h contractAddr events data st (msg :: rest)).1 ↔
        m ∈ (handleSdkMessage h contractAddr st msg).1 ∨
        ∃ res st', (handleSdkMessage h contractAddr st msg).2 = .ok (res, st') ∧
          m ∈ (dispatchLoop h contractAddr (events ++ res.events) (data ++ [res.data]) st' rest).1 := by
      rw [dispatchLoop]
      split
      · rename_i heq
        simp [heq]
      · rename_i heq
        simp [heq]
      · rename_i heq
        simp [heq]
    rw [hmem, mem_handleSdkMessage]
    refine ⟨?_, ?_⟩
    · intro hm
      cases hm with
      | inl hm =>
        obtain ⟨rfl, hd, hs⟩ := hm
        exact ⟨[], rest, st, rfl, .nil st, hd, hs⟩
      | inr hm =>
        obtain ⟨res, st', hok, hm⟩ := hm
        obtain ⟨pre, suf, st'', rfl, hpre, hd, hs⟩ := ih.mp hm
        exact ⟨msg :: pre, suf, st'', rfl, .cons hok hpre, hd, hs⟩
    · intro hm
      obtain ⟨pre, suf, st'', hsplit, hpre, hd, hs⟩ := hm
      cases hpre with
      | nil =>
        cases hsplit
        exact .inl ⟨rfl, hd, hs⟩
      | cons hok hpre =>
        cases hsplit
        exact .inr ⟨_, _, hok, ih.mpr ⟨_, suf, st'', rfl, hpre, hd, hs⟩⟩

end SDKMessageHandler

/-! ## Messages of the SDK

The bank, staking, IBC and authz messages implement neither interface in SDK v0.53;
the market's and the legacy wasm messages implement `LegacyMsg`. The contract here
emits a message as it stands (Stargate or Any), and the router knows the bank. -/

namespace Sample

open Sdk.Sample SDKMessageHandler

/-- The fields the `cosmos.msg.v1.signer` annotation names. -/
def signerFields : Msg → List String
  | .send fromAddress _ _ => [fromAddress]
  | .multiSend inputs _ => inputs.map BankInput.address
  | .undelegate delegatorAddress _ _ => [delegatorAddress]
  | .beginRedelegate delegatorAddress _ _ _ => [delegatorAddress]
  | .transfer _ _ _ sender _ _ _ _ _ => [sender]
  | .executeContract sender _ _ _ => [sender]
  | .legacyExecuteContract sender _ _ _ => [sender]
  | .swapSend fromAddress _ _ _ => [fromAddress]
  | .swap trader _ _ => [trader]
  | .exec grantee _ => [grantee]
  | .other _ _ => []
  | .notMsg _ _ => []

def readSigner (s : String) : Outcome SdkError (List AccAddress) :=
  match bech32.accAddressFromBech32 s with
  | .ok a => .ok [a]
  | .error e => .panic e

def getSigners : Msg → Option (Outcome SdkError (List AccAddress))
  | .legacyExecuteContract sender _ _ _ => some (readSigner sender)
  | .swapSend fromAddress _ _ _ => some (readSigner fromAddress)
  | .swap trader _ _ => some (readSigner trader)
  | _ => none

def annotatedSigners (m : Msg) : List AccAddress :=
  (signerFields m).filterMap (fun s => (bech32.accAddressFromBech32 s).toOption)

/-- `udo` balances. -/
abbrev Balances := AccAddress → Int

/-- The bank's handler for a send of one coin. -/
def bankSend : MsgServiceHandler Msg Balances := fun st msg =>
  match msg with
  | .send f t [coin] =>
    match bech32.accAddressFromBech32 f, bech32.accAddressFromBech32 t with
    | .ok a, .ok b =>
      if st a < coin.amount then .err (wrap errInsufficientFunds "")
      else .ok (⟨[], []⟩, fun x =>
        st x - (if x = a then coin.amount else 0) + (if x = b then coin.amount else 0))
    | _, _ => .err (wrap errInvalidAddress "")
  | _ => .err (wrap errInvalidCoins "")

def handler : SDKMessageHandler Msg Msg Balances where
  info := ⟨fun _ => none, getSigners, annotatedSigners, Msg.typeURL⟩
  router := fun msg =>
    match msg with
    | .send _ _ _ => some bankSend
    | _ => none
  encode := fun _ _ _ msg => .ok [msg]

def contract : AccAddress := List.replicate 32 7

/-- A send of another account's coins, which the contract emits. -/
def theft : Msg := .send bobText aliceText [⟨microDoDenom, 5⟩]

def balances : Balances := fun a => if a = bob then 5 else 0

theorem getSigners_annotated (m : Msg) (signers : List AccAddress)
    (h : getSigners m = some (.ok signers)) : signers = annotatedSigners m := by
  have hread (s : String) (hs : readSigner s = .ok signers) :
      signers = [s].filterMap (fun s => (bech32.accAddressFromBech32 s).toOption) := by
    simp only [readSigner] at hs
    split at hs
    · rename_i a ha
      cases hs
      simp [ha, Except.toOption]
    · cases hs
  cases m with
  | legacyExecuteContract sender _ _ _ => exact hread sender (Option.some.inj h)
  | swapSend fromAddress _ _ _ => exact hread fromAddress (Option.some.inj h)
  | swap trader _ _ => exact hread trader (Option.some.inj h)
  | _ => cases h

end Sample

end Wasm
