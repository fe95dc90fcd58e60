import DoChain.Sdk.Types

/- The messages of a transaction, as the tree `authz.MsgExec` makes of them.

   The kinds are those the ante handlers look at, with the fields of their
   protobuf types; any other message is `other`, its type URL and its bytes. A
   contract's call is the JSON text the sender wrote. The entries of a `MsgExec`
   are `Any` values, and one whose content is not a message makes `GetMessages`
   fail: `notMsg`. -/

namespace Sdk

structure BankInput where
  address : String
  coins : Coins
  deriving DecidableEq, Repr

inductive Msg where
  /-- `bank.MsgSend` -/
  | send (fromAddress toAddress : String) (amount : Coins)
  /-- `bank.MsgMultiSend` -/
  | multiSend (inputs outputs : List BankInput)
  /-- `staking.MsgUndelegate` -/
  | undelegate (delegatorAddress validatorAddress : String) (amount : Coin)
  /-- `staking.MsgBeginRedelegate` -/
  | beginRedelegate (delegatorAddress validatorSrcAddress validatorDstAddress : String)
      (amount : Coin)
  /-- `ibc transfer MsgTransfer` -/
  | transfer (sourcePort sourceChannel : String) (token : Coin) (sender receiver : String)
      (revisionNumber revisionHeight timeoutTimestamp : Nat) (memo : String)
  /-- `wasm.MsgExecuteContract` -/
  | executeContract (sender contract : String) (msg : Bytes) (funds : Coins)
  /-- the legacy `wasm.MsgExecuteContract` -/
  | legacyExecuteContract (sender contract : String) (executeMsg : Bytes) (coins : Coins)
  /-- `market.MsgSwapSend` -/
  | swapSend (fromAddress toAddress : String) (offerCoin : Coin) (askDenom : String)
  /-- `market.MsgSwap` -/
  | swap (trader : String) (offerCoin : Coin) (askDenom : String)
  /-- `authz.MsgExec` -/
  | exec (grantee : String) (msgs : List Msg)
  | other (typeURL : String) (value : Bytes)
  /-- an `Any` inside a `MsgExec` that holds no message -/
  | notMsg (typeURL : String) (value : Bytes)

namespace Msg

/-- `sdk.MsgTypeURL`. -/
def typeURL : Msg → String
  | send _ _ _ => "/cosmos.bank.v1beta1.MsgSend"
  | multiSend _ _ => "/cosmos.bank.v1beta1.MsgMultiSend"
  | undelegate _ _ _ => "/cosmos.staking.v1beta1.MsgUndelegate"
  | beginRedelegate _ _ _ _ => "/cosmos.staking.v1beta1.MsgBeginRedelegate"
  | transfer _ _ _ _ _ _ _ _ _ => "/ibc.applications.transfer.v1.MsgTransfer"
  | executeContract _ _ _ _ => "/cosmwasm.wasm.v1.MsgExecuteContract"
  | legacyExecuteContract _ _ _ _ => "/do.wasm.v1beta1.MsgExecuteContract"
  | swapSend _ _ _ _ => "/do.market.v1beta1.MsgSwapSend"
  | swap _ _ _ => "/do.market.v1beta1.MsgSwap"
  | exec _ _ => "/cosmos.authz.v1beta1.MsgExec"
  | other typeURL _ => typeURL
  | notMsg typeURL _ => typeURL

def isNotMsg : Msg → Bool
  | notMsg _ _ => true
  | _ => false

/-- `m` stands somewhere in the tree: in the list itself, or below a `MsgExec`
of it. -/
inductive Within (m : Msg) : List Msg → Prop where
  | here {ms : List Msg} : m ∈ ms → Within m ms
  | inExec {ms inner : List Msg} {grantee : String} :
      exec grantee inner ∈ ms → Within m inner → Within m ms

end Msg

end Sdk
