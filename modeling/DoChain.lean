import DoChain.App.Export
import DoChain.App.Helper
import DoChain.App.Mempool
import DoChain.Auth.Fee
import DoChain.Auth.MinDeposit
import DoChain.Auth.OncePerHeight
import DoChain.Auth.Spamming
import DoChain.Dodx.Genesis
import DoChain.Dodx.Keeper
import DoChain.Dyncomm.Commission
import DoChain.Dyncomm.Filter
import DoChain.Dyncomm.Formula
import DoChain.Dyncomm.Genesis
import DoChain.Dyncomm.Keeper
import DoChain.Dyncomm.Messages
import DoChain.Gov.CommunityTally
import DoChain.Gov.DefaultTally
import DoChain.Gov.Tally
import DoChain.Lib.HalfEven
import DoChain.Lib.ListOrder
import DoChain.Lib.Metered
import DoChain.Lib.Outcome
import DoChain.Lib.Protobuf
import DoChain.Lib.Rekey
import DoChain.Lib.SortedMap
import DoChain.Lib.Trace
import DoChain.Lib.Trim
import DoChain.Lib.WeightedMedian
import DoChain.Market.Pool
import DoChain.Market.Query
import DoChain.Market.Replenish
import DoChain.Market.RoundTrip
import DoChain.Market.Spread
import DoChain.Market.Swap
import DoChain.Market.Value
import DoChain.Mfa.Ante
import DoChain.Mfa.Binding
import DoChain.Mfa.Genesis
import DoChain.Mfa.Guardian
import DoChain.Mfa.Order
import DoChain.Mfa.Protected
import DoChain.Mfa.Recovery
import DoChain.Mfa.Replay
import DoChain.Mfa.Spec
import DoChain.Mfa.Types
import DoChain.Oracle.Ballot
import DoChain.Oracle.CommitReveal
import DoChain.Oracle.Commitment
import DoChain.Oracle.EndBlock
import DoChain.Oracle.Feeder
import DoChain.Oracle.Genesis
import DoChain.Oracle.Median
import DoChain.Oracle.Minority
import DoChain.Oracle.Misses
import DoChain.Oracle.Params
import DoChain.Oracle.Period
import DoChain.Oracle.Priced
import DoChain.Oracle.Rates
import DoChain.Oracle.Reward
import DoChain.Oracle.RewardBound
import DoChain.Oracle.SlashWindow
import DoChain.Oracle.Unanimity
import DoChain.Oracle.Vote
import DoChain.Oracle.Whitelist
import DoChain.Oracle.WindowRuns
import DoChain.Sdk.Bank
import DoChain.Sdk.Coins
import DoChain.Sdk.DecCoin
import DoChain.Sdk.KVStore
import DoChain.Sdk.LegacyDec
import DoChain.Sdk.Msg
import DoChain.Sdk.ParseCoin
import DoChain.Sdk.Types
import DoChain.Server.TxLogs
import DoChain.Staking.EqualPower
import DoChain.Staking.PowerLimit
import DoChain.Staking.StoredUpdates
import DoChain.Treasury.Genesis
import DoChain.Treasury.Indicators
import DoChain.Treasury.Keeper
import DoChain.Treasury.Policy
import DoChain.Treasury.Updates
import DoChain.Vesting.Account
import DoChain.Vesting.Progress
import DoChain.Wasm.FamilyScan
import DoChain.Wasm.Handler
import DoChain.Wasm.LegacyKeys
import DoChain.Wasm.LegacyStore
import DoChain.Wasm.LegacyValues
import DoChain.Wasm.Migration
import DoChain.Wasm.StorageScan
