import DoChain.Sdk.DecCoin
import DoChain.Sdk.Msg
import DoChain.Treasury.Keeper

/- The decorator of the minimum initial deposit (`custom/auth/ante/min_initial_deposit.go`).

   Correspondence (Go ↔ Lean):
     `IsMsgSubmitProposal`           ↔ `isMsgSubmitProposal`
     `HandleCheckMinInitialDeposit`  ↔ `handleCheckMinInitialDeposit`
     `AnteHandle`                    ↔ `anteHandle`

   A proposal is a message of one of the two versions of the governance module, known by its
   type, and the deposit is what its bytes hold. The decorator looks at the messages of the
   transaction itself; those that a `MsgExec` holds are run as well. The proposals that can be
   run are those whose deposit is a valid set of coins: the governance module refuses others.

   `proposals_funded_iff`: every proposal that an accepted transaction runs has the minimum
   deposit if and only if every proposal below a `MsgExec` has it. -/

namespace Auth.MinDeposit

open Sdk

/-! ## Proposals -/

def submitProposalV1beta1 : String := "/cosmos.gov.v1beta1.MsgSubmitProposal"
def submitProposalV1 : String := "/cosmos.gov.v1.MsgSubmitProposal"

/-- `GetInitialDeposit` of the two versions, of the bytes of a message. -/
structure GovCodec where
  initialDepositV1beta1 : Bytes → Coins
  initialDepositV1 : Bytes → Coins

variable (gov : GovCodec)

/-- The initial deposit of a message that is a proposal. -/
def getInitialDeposit : Msg → Option Coins
  | .other typeURL value =>
    if typeURL = submitProposalV1beta1 then some (gov.initialDepositV1beta1 value)
    else if typeURL = submitProposalV1 then some (gov.initialDepositV1 value)
    else none
  | _ => none

def isMsgSubmitProposal (msg : Msg) : Bool := (getInitialDeposit gov msg).isSome

/-! ## The decorator -/

/-- `Coins.IsAllGTE`, for coins whose denominations are valid. -/
def isAllGTE (coins coinsB : Coins) : Bool :=
  if coinsB = [] then true
  else if coins = [] then false
  else coinsB.all (fun b => decide (b.amount ≤ coins.amountOf b.denom))

/-- What the decorator reads: the parameter of the governance module, and those of the
treasury. -/
structure Context where
  govMinDeposit : Except String Coins
  treasury : Treasury.Params

def requiredDeposit (ctx : Context) (minDeposit : Coin) : Outcome String Coins := do
  let product ← (LegacyDec.ofInt minDeposit.amount).mul ctx.treasury.minInitialDepositRatio
  let requiredAmount ← product.truncateInt
  let coin ← newCoin minDeposit.denom requiredAmount
  newCoins coin

def handleCheckMinInitialDeposit (ctx : Context) (msg : Msg) : Outcome String Unit :=
  match getInitialDeposit gov msg with
  | none => .err "could not dereference msg as MsgSubmitProposal"
  | some initialDepositCoins => do
    let minDeposits ← .ofExcept id ctx.govMinDeposit
    match minDeposits with
    | [] => .err "governance min deposit is not configured"
    | minDeposit :: _ => do
      let requiredDepositCoins ← requiredDeposit ctx minDeposit
      .failIf (isAllGTE initialDepositCoins requiredDepositCoins = false)
        ("not enough initial deposit provided. Expected \"" ++ Bank.coinsText requiredDepositCoins ++ "\"; got \"" ++
          Bank.coinsText initialDepositCoins ++ "\"")

def checkMsgs (ctx : Context) : List Msg → Outcome SdkError Unit
  | [] => .ok ()
  | msg :: rest =>
    if isMsgSubmitProposal gov msg then do
      .mapErr (fun e => wrap errUnauthorized ("MinInitialDepositDecorator: " ++ e))
        (handleCheckMinInitialDeposit gov ctx msg)
      checkMsgs ctx rest
    else checkMsgs ctx rest

def anteHandle (ctx : Context) (simulate : Bool) (msgs : List Msg) (next : Outcome SdkError Unit) :
    Outcome SdkError Unit :=
  if simulate then next
  else do
    checkMsgs gov ctx msgs
    next

/-! ## What the check asks for -/

/-- The required amount, rounded down. -/
def required (ctx : Context) (minDeposit : Coin) : Int :=
  minDeposit.amount * ctx.treasury.minInitialDepositRatio.i / LegacyDec.precision

/-- A message that, if it is a proposal which can be run, has the deposit. -/
def Funded (ctx : Context) (minDeposit : Coin) (m : Msg) : Prop :=
  ∀ deposit, getInitialDeposit gov m = some deposit → deposit.IsValid →
    required ctx minDeposit ≤ deposit.amountOf minDeposit.denom

variable {gov} {ctx : Context} {minDeposit : Coin}

theorem amountOf_nonneg {coins : Coins} (h : coins.IsValid) (denom : String) : 0 ≤ coins.amountOf denom := by
  by_cases hmem : ∃ c ∈ coins, c.denom = denom
  · obtain ⟨c, hc, rfl⟩ := hmem
    rw [Coins.amountOf_eq h hc]
    exact (h.1 c hc).2.le
  · rw [Coins.amountOf_eq_zero (fun c hc heq => hmem ⟨c, hc, heq⟩)]

/-- The product is exact, so the required coins are those of the amount rounded down; none
are required where that is not positive. -/
theorem requiredDeposit_inv {coins : Coins} (h : requiredDeposit ctx minDeposit = .ok coins) :
    required ctx minDeposit ≤ 0 ∨ coins = [⟨minDeposit.denom, required ctx minDeposit⟩] := by
  simp only [requiredDeposit, LegacyDec.mul, Outcome.bind_eq_ok, LegacyDec.check_eq_ok, LegacyDec.mulRaw_ofInt,
    LegacyDec.truncateInt, checkInt_eq_ok, newCoin_eq_ok] at h
  obtain ⟨_, ⟨_, rfl⟩, _, ⟨_, rfl⟩, _, ⟨hdenom, hnonneg, rfl⟩, hcoins⟩ := h
  have hpos : (0 : Int) < LegacyDec.precision := Int.natCast_pos.mpr LegacyDec.precision_pos
  by_cases hproduct : 0 ≤ minDeposit.amount * ctx.treasury.minInitialDepositRatio.i
  · rw [Int.tdiv_eq_ediv_of_nonneg hproduct] at hcoins hnonneg
    change newCoins ⟨minDeposit.denom, required ctx minDeposit⟩ = _ at hcoins
    rcases hnonneg.eq_or_lt with hzero | hlt
    · exact .inl hzero.ge
    · have hset : newCoins ⟨minDeposit.denom, required ctx minDeposit⟩ =
          (.ok [⟨minDeposit.denom, required ctx minDeposit⟩] : Outcome String Coins) := newCoins_of_pos hdenom hlt
      rw [hset] at hcoins
      cases hcoins
      exact .inr rfl
  · exact .inl (Int.ediv_neg_of_neg_of_pos (not_le.mp hproduct) hpos).le

theorem handleCheckMinInitialDeposit_funded {rest : Coins} (hparams : ctx.govMinDeposit = .ok (minDeposit :: rest))
    {m : Msg} (h : handleCheckMinInitialDeposit gov ctx m = .ok ()) : Funded gov ctx minDeposit m := by
  intro deposit hdeposit hvalid
  simp only [handleCheckMinInitialDeposit, hdeposit, hparams, Outcome.ofExcept, Outcome.ok_bind,
    Outcome.bind_eq_ok, Outcome.failIf_eq_ok, Bool.not_eq_false] at h
  obtain ⟨coins, hcoins, hall⟩ := h
  rcases requiredDeposit_inv hcoins with hzero | rfl
  · exact hzero.trans (amountOf_nonneg hvalid _)
  · rw [isAllGTE, if_neg (List.cons_ne_nil _ _)] at hall
    split_ifs at hall
    rw [List.all_cons, Bool.and_eq_true, decide_eq_true_iff] at hall
    exact hall.1

/-- The loop checks every message of the transaction itself. -/
theorem checkMsgs_funded {rest : Coins} (hparams : ctx.govMinDeposit = .ok (minDeposit :: rest)) {msgs : List Msg}
    (h : checkMsgs gov ctx msgs = .ok ()) : ∀ m ∈ msgs, Funded gov ctx minDeposit m := by
  induction msgs with
  | nil => simp
  | cons msg msgs ih =>
    rw [List.forall_mem_cons]
    rw [checkMsgs] at h
    by_cases hproposal : isMsgSubmitProposal gov msg = true
    · rw [if_pos hproposal, Outcome.check_bind_eq_ok, Outcome.mapErr_eq_ok] at h
      exact ⟨handleCheckMinInitialDeposit_funded hparams h.1, ih h.2⟩
    · rw [if_neg hproposal] at h
      refine ⟨?_, ih h⟩
      intro deposit hdeposit
      rw [isMsgSubmitProposal, hdeposit] at hproposal
      exact absurd rfl hproposal

/-- In an accepted transaction every proposal that is run has the minimum deposit if and
only if those below a `MsgExec` have it. -/
theorem proposals_funded_iff {rest : Coins} (hparams : ctx.govMinDeposit = .ok (minDeposit :: rest)) {msgs : List Msg}
    (haccepts : anteHandle gov ctx false msgs (.ok ()) = .ok ()) :
    (∀ m, Msg.Within m msgs → Funded gov ctx minDeposit m) ↔
      ∀ m grantee inner, Msg.exec grantee inner ∈ msgs → Msg.Within m inner → Funded gov ctx minDeposit m := by
  rw [anteHandle, if_neg Bool.false_ne_true, Outcome.check_bind_eq_ok] at haccepts
  refine ⟨?_, ?_⟩
  · intro h m grantee inner hexec hm
    exact h m (.inExec hexec hm)
  · intro h m hm
    cases hm with
    | here hmem => exact checkMsgs_funded hparams haccepts.1 m hmem
    | inExec hexec hm => exact h m _ _ hexec hm

namespace Sample

open Sdk.Sample

/-- The bytes of a proposal are those of the amount of udo. -/
def govCodec : GovCodec where
  initialDepositV1beta1 := fun value => value.map (fun b => ⟨microDoDenom, b.toNat⟩)
  initialDepositV1 := fun value => value.map (fun b => ⟨microDoDenom, b.toNat⟩)

/-- A tenth of a hundred and nine udo. -/
def tenth : Context where
  govMinDeposit := .ok [⟨microDoDenom, 109⟩]
  treasury := { Treasury.defaultParams with minInitialDepositRatio := ⟨10 ^ 17⟩ }

def proposal (deposit : Bytes) : Msg := .other submitProposalV1 deposit

/-- A proposal with no deposit at all, in a `MsgExec` of the proposer's own. -/
def wrapped : List Msg := [.exec bobText [proposal []]]

theorem wrapped_proposal_unfunded :
    anteHandle govCodec tenth false wrapped (.ok ()) = .ok () ∧
    Msg.Within (proposal []) wrapped ∧ ¬ Funded govCodec tenth ⟨microDoDenom, 109⟩ (proposal []) ∧
    (anteHandle govCodec tenth false [proposal []] (.ok ())).value = none := by
  refine ⟨by decide +kernel, ?_, ?_, by decide +kernel⟩
  · exact .inExec List.mem_cons_self (.here List.mem_cons_self)
  · intro h
    have hle := h [] (by decide +kernel) (by decide +kernel)
    revert hle
    decide +kernel

/-- A proposal of the transaction itself, and one in a `MsgExec`. -/
def funded : List Msg := [proposal [10], .exec bobText [proposal [11]]]

theorem proposal_funded : Funded govCodec tenth ⟨microDoDenom, 109⟩ (proposal [11]) := by
  intro deposit hdeposit _
  have hcoins : deposit = [⟨microDoDenom, 11⟩] := Option.some.inj (hdeposit.symm.trans (by decide +kernel))
  rw [hcoins]
  decide +kernel

theorem funded_proposals_accepted :
    anteHandle govCodec tenth false funded (.ok ()) = .ok () ∧
    ∀ m, Msg.Within m funded → Funded govCodec tenth ⟨microDoDenom, 109⟩ m := by
  have haccepts : anteHandle govCodec tenth false funded (.ok ()) = .ok () := by decide +kernel
  have hparams : tenth.govMinDeposit = .ok (⟨microDoDenom, 109⟩ :: []) := rfl
  refine ⟨haccepts, (proposals_funded_iff hparams haccepts).mpr ?_⟩
  intro m grantee inner hexec hm
  simp only [funded, proposal, List.mem_cons, List.not_mem_nil, or_false, reduceCtorEq, false_or,
    Msg.exec.injEq] at hexec
  obtain ⟨_, rfl⟩ := hexec
  cases hm with
  | here hmem =>
    rw [List.mem_singleton.mp hmem]
    exact proposal_funded
  | inExec hexec _ => simp [reduceCtorEq] at hexec

end Sample

end Auth.MinDeposit
