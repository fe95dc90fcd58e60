import DoChain.Sdk.Types

/- The messages of the oracle's feeders (`app/helper/helper.go`).

   Correspondence (Go ↔ Lean):
     `MsgAggregateDoRatePrevote`, `MsgAggregateDoRateVote` ↔ `TxMsg.oracle` of a `Kind`
     `helper.IsOracleTx`                                   ↔ `isOracleTx`

   The mempool, the decorator against spam and the decorator of fees tell transactions of
   feeders from others by them. -/

namespace App

/-- The two messages of a feeder: `MsgAggregateDoRatePrevote` and
`MsgAggregateDoRateVote`. -/
inductive Kind where
  | prevote
  | vote
  deriving DecidableEq, Repr

def Kind.text : Kind → String
  | prevote => "prevote"
  | vote => "vote"

/-- A message of a transaction, with what is read of it before it is handled. -/
inductive TxMsg where
  | oracle (kind : Kind) (feeder validator : String)
  | other
  deriving DecidableEq, Repr

/-- Prevotes and votes only, and at least one. -/
def isOracleTx (msgs : List TxMsg) : Bool := !msgs.isEmpty && msgs.all (fun msg => msg ≠ .other)

end App
