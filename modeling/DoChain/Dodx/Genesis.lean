import DoChain.Dodx.Keeper
import DoChain.Sdk.DecCoin
import DoChain.Sdk.KVStore

/- The bytes of the DODx staking store, and its genesis (`x/dodxstaking`).

   Correspondence (Go ↔ Lean):
     `types/keys.go`              ↔ `stakeKey`, `totalStakedKey`, `governanceEnabledKey`
     `keeper/keeper.go`           ↔ `KV.getStakeAmount`, `KV.setStakeAmount` and the rest
     `genesis.go: InitGenesis`    ↔ `KV.initGenesis`
     `genesis.go: ExportGenesis`  ↔ `KV.exportGenesis`

   One store holds the stakes, the total and the governance flag, each under its first byte.
   The functions of `KV` work on its bytes. `Encodes` says which bytes a `Store` has, and the
   operations on bytes do to them what those of the keeper do to the `Store`: each is
   `Outcome.Related` to its counterpart.

   `genesis_round_trip`: what a reachable store exports is a valid genesis, and an empty
   store that is initialised from it has the same bytes. -/

namespace Dodx

open Sdk

/-! ## Keys and values -/

def stakeKeyPrefix : UInt8 := 0x01
def totalStakedKey : Bytes := [0x02]
def governanceEnabledKey : Bytes := [0x03]
def governanceEnabledFlag : Bytes := [0x01]

def stakeKey (addr : AccAddress) : Bytes := stakeKeyPrefix :: addr

/-- The protobuf codec of `sdk.IntProto`. -/
structure IntCodec where
  marshal : Int → Bytes
  unmarshal : Bytes → Except String Int
  unmarshal_marshal : ∀ {n : Int}, n.natAbs < 2 ^ 256 → unmarshal (marshal n) = .ok n

variable (codec : IntCodec)

/-! ## The keeper, on bytes -/

namespace KV

/-- An amount that is not stored is zero. -/
def getAmount (kv : KVStore) (key : Bytes) : Outcome SdkError Int :=
  match kv.get key with
  | none => .ok 0
  | some bz => .orPanic (codec.unmarshal bz)

/-- An amount of zero is deleted. -/
def setAmount (kv : KVStore) (key : Bytes) (amount : Int) : KVStore :=
  if amount = 0 then kv.erase key else kv.set key (codec.marshal amount)

def getStakeAmount (kv : KVStore) (addr : AccAddress) : Outcome SdkError Int := getAmount codec kv (stakeKey addr)
def setStakeAmount (kv : KVStore) (addr : AccAddress) (amount : Int) : KVStore :=
  setAmount codec kv (stakeKey addr) amount

def getTotalStakedAmount (kv : KVStore) : Outcome SdkError Int := getAmount codec kv totalStakedKey
def setTotalStakedAmount (kv : KVStore) (amount : Int) : KVStore := setAmount codec kv totalStakedKey amount

def addStake (kv : KVStore) (addr : AccAddress) (amount : Int) : Outcome SdkError KVStore := do
  let current ← getStakeAmount codec kv addr
  let stake ← checkInt (current + amount)
  let kv := setStakeAmount codec kv addr stake
  let staked ← getTotalStakedAmount codec kv
  let total ← checkInt (staked + amount)
  .ok (setTotalStakedAmount codec kv total)

def removeStake (kv : KVStore) (addr : AccAddress) (amount : Int) : Outcome SdkError KVStore := do
  let current ← getStakeAmount codec kv addr
  .failIf (current < amount) ⟨errInsufficientStake, ""⟩
  let stake ← checkInt (current - amount)
  let kv := setStakeAmount codec kv addr stake
  let staked ← getTotalStakedAmount codec kv
  let total ← checkInt (staked - amount)
  .ok (setTotalStakedAmount codec kv total)

def setGovernanceEnabled (kv : KVStore) (enabled : Bool) : KVStore :=
  if enabled then kv.set governanceEnabledKey governanceEnabledFlag else kv.erase governanceEnabledKey

def governanceEnabled (kv : KVStore) : Bool := (kv.get governanceEnabledKey).isSome

/-- The loop over the entries of an iterator; the handler says when to stop. -/
def eachStake {β : Type} (handler : β → AccAddress → Int → Outcome SdkError (β × Bool)) (b : β) :
    List (Bytes × Bytes) → Outcome SdkError β
  | [] => .ok b
  | e :: rest => do
    let amount ← .orPanic (codec.unmarshal e.2)
    let (b, stop) ← handler b (e.1.drop 1) amount
    if stop then .ok b else eachStake handler b rest

def iterateStakes {β : Type} (kv : KVStore) (handler : β → AccAddress → Int → Outcome SdkError (β × Bool)) (b : β) :
    Outcome SdkError β :=
  eachStake codec handler b (kv.iterator (some [stakeKeyPrefix]) (prefixEndBytes [stakeKeyPrefix]))

/-! ## Messages and genesis, on bytes -/

/-- The bytes of the store with the bank. -/
structure Chain where
  kv : KVStore
  bank : Bank

/-- `msgServer.Stake`. -/
def stake (env : Env) (c : Chain) (staker : String) (amount : Coin) : Outcome SdkError Chain := do
  validateStakeMsg env staker amount
  let addr ← stakerAddr env staker
  let coins ← newCoins amount
  let bank ← c.bank.sendCoins addr env.moduleAddr coins
  let kv ← addStake codec c.kv addr amount.amount
  .ok ⟨kv, bank⟩

/-- `msgServer.Unstake`. -/
def unstake (env : Env) (c : Chain) (staker : String) (amount : Coin) : Outcome SdkError Chain := do
  validateStakeMsg env staker amount
  let addr ← stakerAddr env staker
  let kv ← removeStake codec c.kv addr amount.amount
  let coins ← newCoins amount
  let bank ← c.bank.sendCoinsFromModuleToAccount env.bech32 env.blocked env.moduleAddr addr coins
  .ok ⟨kv, bank⟩

def handle (env : Env) (c : Chain) : Message → Outcome SdkError Chain
  | .stake staker amount => stake codec env c staker amount
  | .unstake staker amount => unstake codec env c staker amount

/-- A message with its failure rolled back. -/
def deliver (env : Env) (c : Chain) (m : Message) : Chain :=
  match handle codec env c m with
  | .ok c' => c'
  | _ => c

/-- The loop of `InitGenesis`. -/
def initStakes (env : Env) (kv : KVStore) : List StakeRecord → Outcome SdkError KVStore
  | [] => .ok kv
  | r :: rest =>
    match env.bech32.accAddressFromBech32 r.address with
    | .error e => .panic e
    | .ok addr => do
      let kv := setStakeAmount codec kv addr r.amount.amount
      let staked ← getTotalStakedAmount codec kv
      let total ← checkInt (staked + r.amount.amount)
      initStakes env (setTotalStakedAmount codec kv total) rest

def initGenesis (env : Env) (kv : KVStore) (data : GenesisState) : Outcome SdkError KVStore := do
  let kv ← initStakes codec env kv data.stakes
  .ok (setGovernanceEnabled kv data.governanceEnabled)

def exportGenesis (env : Env) (kv : KVStore) : Outcome SdkError GenesisState := do
  let stakes ← iterateStakes codec kv (fun stakes addr amount => do
    let coin ← newCoin microDODxDenom amount
    .ok (stakes ++ [⟨env.bech32.string addr, coin⟩], false)) []
  .ok ⟨stakes, governanceEnabled kv⟩

/-- The states the chain can come to from a valid genesis. -/
inductive Reachable (env : Env) : Chain → Prop where
  | genesis {data : GenesisState} {kv : KVStore} (bank : Bank) :
      validateGenesis env data = .ok () → initGenesis codec env .empty data = .ok kv →
      Reachable env ⟨kv, bank⟩
  | message {c : Chain} (m : Message) : Reachable env c → Reachable env (deliver codec env c m)
  | transfer {c : Chain} (bank : Bank) : Reachable env c → Reachable env ⟨c.kv, bank⟩
  | setGovernanceEnabled {c : Chain} (enabled : Bool) : Reachable env c →
      Reachable env ⟨setGovernanceEnabled c.kv enabled, c.bank⟩

end KV

/-! ## The bytes of a store -/

theorem stakeKey_injective : Function.Injective stakeKey := List.cons_injective

theorem total_ne_stakeKey (a : AccAddress) : totalStakedKey ≠ stakeKey a := by
  simp [totalStakedKey, stakeKey, stakeKeyPrefix]

theorem governance_ne_stakeKey (a : AccAddress) : governanceEnabledKey ≠ stakeKey a := by
  simp [governanceEnabledKey, stakeKey, stakeKeyPrefix]

theorem governance_ne_total : governanceEnabledKey ≠ totalStakedKey := by decide

/-- What is stored for an amount. -/
def storedAmount (n : Int) : Option Bytes := if n = 0 then none else some (codec.marshal n)

/-- The bytes hold the stakes, the total and the flag of the store, and nothing else. -/
structure Encodes (kv : KVStore) (s : Store) : Prop where
  stake : ∀ a, kv.get (stakeKey a) = (s.stakes.get a).map codec.marshal
  total : kv.get totalStakedKey = storedAmount codec s.totalStaked
  flag : kv.get governanceEnabledKey = if s.governanceEnabled then some governanceEnabledFlag else none
  other : ∀ k, (∀ a, k ≠ stakeKey a) → k ≠ totalStakedKey → k ≠ governanceEnabledKey → kv.get k = none

variable {codec} {env : Env} {kv kv' : KVStore} {s : Store}

theorem Encodes.unique (h : Encodes codec kv s) (h' : Encodes codec kv' s) : kv = kv' := by
  apply SortedMap.ext_get
  intro k
  by_cases hstake : ∃ a, k = stakeKey a
  · obtain ⟨a, rfl⟩ := hstake
    rw [h.stake, h'.stake]
  · rw [not_exists] at hstake
    by_cases htotal : k = totalStakedKey
    · rw [htotal, h.total, h'.total]
    · by_cases hflag : k = governanceEnabledKey
      · rw [hflag, h.flag, h'.flag]
      · rw [h.other k hstake htotal hflag, h'.other k hstake htotal hflag]

theorem encodes_empty : Encodes codec .empty Store.empty := ⟨fun _ => rfl, rfl, rfl, fun _ _ _ _ => rfl⟩

/-! ## The operations on bytes -/

theorem KV.get_setAmount (kv : KVStore) (key k : Bytes) (n : Int) :
    (KV.setAmount codec kv key n).get k = if k = key then storedAmount codec n else kv.get k := by
  rw [KV.setAmount, storedAmount]
  by_cases hn : n = 0
  · rw [if_pos hn, if_pos hn, SortedMap.get_erase]
    split_ifs <;> rfl
  · rw [if_neg hn, if_neg hn, SortedMap.get_set]
    split_ifs <;> rfl

theorem KV.get_setGovernanceEnabled (kv : KVStore) (enabled : Bool) (k : Bytes) :
    (KV.setGovernanceEnabled kv enabled).get k =
      if k = governanceEnabledKey then (if enabled then some governanceEnabledFlag else none) else kv.get k := by
  cases enabled with
  | true =>
    rw [KV.setGovernanceEnabled, if_pos rfl, if_pos rfl, SortedMap.get_set]
    split_ifs <;> rfl
  | false =>
    rw [KV.setGovernanceEnabled, if_neg Bool.false_ne_true, if_neg Bool.false_ne_true, SortedMap.get_erase]
    split_ifs <;> rfl

theorem Encodes.setStakeAmount (h : Encodes codec kv s) (a : AccAddress) (n : Int) :
    Encodes codec (KV.setStakeAmount codec kv a n) (Dodx.setStakeAmount s a n) where
  stake b := by
    simp only [KV.setStakeAmount, KV.get_setAmount, h.stake, stakeKey_injective.eq_iff,
      Dodx.setStakeAmount, storedAmount]
    by_cases hn : n = 0
    · simp only [hn, if_true, SortedMap.get_erase]
      split_ifs <;> rfl
    · simp only [hn, if_false, SortedMap.get_set]
      split_ifs <;> rfl
  total := by
    rw [KV.setStakeAmount, KV.get_setAmount, if_neg (total_ne_stakeKey a)]
    exact h.total
  flag := by
    rw [KV.setStakeAmount, KV.get_setAmount, if_neg (governance_ne_stakeKey a)]
    exact h.flag
  other k hstake htotal hflag := by
    rw [KV.setStakeAmount, KV.get_setAmount, if_neg (hstake a)]
    exact h.other k hstake htotal hflag

theorem Encodes.setTotalStakedAmount (h : Encodes codec kv s) (n : Int) :
    Encodes codec (KV.setTotalStakedAmount codec kv n) (Dodx.setTotalStakedAmount s n) where
  stake a := by
    rw [KV.setTotalStakedAmount, KV.get_setAmount, if_neg (total_ne_stakeKey a).symm]
    exact h.stake a
  total := by
    rw [KV.setTotalStakedAmount, KV.get_setAmount, if_pos rfl]
    rfl
  flag := by
    rw [KV.setTotalStakedAmount, KV.get_setAmount, if_neg governance_ne_total]
    exact h.flag
  other k hstake htotal hflag := by
    rw [KV.setTotalStakedAmount, KV.get_setAmount, if_neg htotal]
    exact h.other k hstake htotal hflag

theorem Encodes.setGovernanceEnabled (h : Encodes codec kv s) (enabled : Bool) :
    Encodes codec (KV.setGovernanceEnabled kv enabled) (Dodx.setGovernanceEnabled s enabled) where
  stake a := by
    rw [KV.get_setGovernanceEnabled, if_neg (governance_ne_stakeKey a).symm]
    exact h.stake a
  total := by
    rw [KV.get_setGovernanceEnabled, if_neg governance_ne_total.symm]
    exact h.total
  flag := by
    rw [KV.get_setGovernanceEnabled, if_pos rfl]
    rfl
  other k hstake htotal hflag := by
    rw [KV.get_setGovernanceEnabled, if_neg hflag]
    exact h.other k hstake htotal hflag

theorem Encodes.getStakeAmount (h : Encodes codec kv s) (hs : Balanced s) (a : AccAddress) :
    KV.getStakeAmount codec kv a = .ok (Dodx.getStakeAmount s a) := by
  have hle := hs.stake_le a
  have hnonneg := hs.stake_nonneg a
  have hbound := hs.bounded
  rw [KV.getStakeAmount, KV.getAmount, h.stake]
  rw [Dodx.getStakeAmount] at hle hnonneg ⊢
  cases hget : s.stakes.get a with
  | none => rfl
  | some n =>
    rw [hget, Option.getD_some] at hle hnonneg
    exact Outcome.orPanic_eq_ok.mpr (codec.unmarshal_marshal (by omega))

theorem Encodes.getTotalStakedAmount (h : Encodes codec kv s) (hbound : s.totalStaked.natAbs < 2 ^ 256) :
    KV.getTotalStakedAmount codec kv = .ok s.totalStaked := by
  rw [KV.getTotalStakedAmount, KV.getAmount, h.total, storedAmount]
  by_cases hzero : s.totalStaked = 0
  · rw [if_pos hzero, hzero]
  · rw [if_neg hzero]
    exact Outcome.orPanic_eq_ok.mpr (codec.unmarshal_marshal hbound)

theorem Encodes.governanceEnabled (h : Encodes codec kv s) :
    KV.governanceEnabled kv = s.governanceEnabled := by
  rw [KV.governanceEnabled, h.flag]
  cases s.governanceEnabled <;> rfl

theorem Encodes.addStake (h : Encodes codec kv s) (hs : Balanced s) (a : AccAddress) (n : Int) :
    Outcome.Related (Encodes codec) (KV.addStake codec kv a n) (Dodx.addStake s a n) := by
  simp only [KV.addStake, Dodx.addStake, h.getStakeAmount hs, Outcome.ok_bind]
  apply Outcome.Related.bind_same
  intro stake _
  have hwrite := h.setStakeAmount a stake
  rw [hwrite.getTotalStakedAmount hs.bounded, Outcome.ok_bind]
  apply Outcome.Related.bind_same
  intro total _
  exact .ok (hwrite.setTotalStakedAmount total)

theorem Encodes.removeStake (h : Encodes codec kv s) (hs : Balanced s) (a : AccAddress) (n : Int) :
    Outcome.Related (Encodes codec) (KV.removeStake codec kv a n) (Dodx.removeStake s a n) := by
  simp only [KV.removeStake, Dodx.removeStake, h.getStakeAmount hs, Outcome.ok_bind]
  apply Outcome.Related.bind_same
  intro _ _
  apply Outcome.Related.bind_same
  intro stake _
  have hwrite := h.setStakeAmount a stake
  rw [hwrite.getTotalStakedAmount hs.bounded, Outcome.ok_bind]
  apply Outcome.Related.bind_same
  intro total _
  exact .ok (hwrite.setTotalStakedAmount total)

theorem Encodes.initStakes (h : Encodes codec kv s) (hbound : s.totalStaked.natAbs < 2 ^ 256)
    (rs : List StakeRecord) :
    Outcome.Related (Encodes codec) (KV.initStakes codec env kv rs) (Dodx.initStakes env s rs) := by
  induction rs generalizing kv s with
  | nil => exact .ok h
  | cons r rest ih =>
    rw [KV.initStakes, Dodx.initStakes]
    cases env.bech32.accAddressFromBech32 r.address with
    | error e => exact .panic e
    | ok addr =>
      have hwrite := h.setStakeAmount addr r.amount.amount
      simp only [hwrite.getTotalStakedAmount hbound, Outcome.ok_bind]
      apply Outcome.Related.bind_same
      intro total htotal
      obtain ⟨hfits, rfl⟩ := checkInt_eq_ok.mp htotal
      exact ih (hwrite.setTotalStakedAmount _) hfits

theorem KV.initGenesis_related (data : GenesisState) :
    Outcome.Related (Encodes codec) (KV.initGenesis codec env .empty data) (Dodx.initGenesis env data) :=
  (encodes_empty.initStakes (by decide) data.stakes).bind
    (fun _ _ h => .ok (h.setGovernanceEnabled data.governanceEnabled))

/-! ## Reachable bytes -/

/-- A chain of bytes and one of the model, with the same balances. -/
def EncodesChain (codec : IntCodec) (c : KV.Chain) (c' : Chain) : Prop :=
  Encodes codec c.kv c'.store ∧ c.bank = c'.bank

theorem EncodesChain.handle {c : KV.Chain} {c' : Chain} (h : EncodesChain codec c c') (hs : Balanced c'.store)
    (m : Message) : Outcome.Related (EncodesChain codec) (KV.handle codec env c m) (Dodx.handle env c' m) := by
  obtain ⟨henc, hbank⟩ := h
  cases m with
  | stake staker amount =>
    simp only [KV.handle, Dodx.handle, KV.stake, Dodx.stake, hbank]
    refine .bind_same (fun _ _ => .bind_same (fun addr _ => .bind_same (fun coins _ => .bind_same ?_)))
    intro bank _
    exact (henc.addStake hs addr amount.amount).bind (fun _ _ hadd => .ok ⟨hadd, rfl⟩)
  | unstake staker amount =>
    simp only [KV.handle, Dodx.handle, KV.unstake, Dodx.unstake, hbank]
    refine .bind_same (fun _ _ => .bind_same (fun addr _ => ?_))
    refine (henc.removeStake hs addr amount.amount).bind (fun _ _ hremove => ?_)
    exact .bind_same (fun coins _ => .bind_same (fun bank _ => .ok ⟨hremove, rfl⟩))

theorem EncodesChain.deliver {c : KV.Chain} {c' : Chain} (h : EncodesChain codec c c') (hs : Balanced c'.store)
    (m : Message) : EncodesChain codec (KV.deliver codec env c m) (Dodx.deliver env c' m) := by
  have hrel : Outcome.Related (EncodesChain codec) (KV.handle codec env c m) (Dodx.handle env c' m) := h.handle hs m
  rw [KV.deliver, Dodx.deliver]
  generalize KV.handle codec env c m = x at hrel
  generalize Dodx.handle env c' m = y at hrel
  cases hrel with
  | ok hafter => exact hafter
  | err e => exact h
  | panic text => exact h

/-- Reachable bytes are those of a reachable store. -/
theorem KV.Reachable.encodes {c : KV.Chain} (h : KV.Reachable codec env c) :
    ∃ c', Dodx.Reachable env c' ∧ EncodesChain codec c c' := by
  induction h with
  | genesis bank hvalid hinit =>
    obtain ⟨store, hstore, henc⟩ := (KV.initGenesis_related _).of_ok_left hinit
    exact ⟨⟨store, bank⟩, .genesis bank hvalid hstore, henc, rfl⟩
  | message m _ ih =>
    obtain ⟨c', hreach, henc⟩ := ih
    exact ⟨_, .message m hreach, henc.deliver hreach.balanced m⟩
  | transfer bank _ ih =>
    obtain ⟨c', hreach, henc⟩ := ih
    exact ⟨_, .transfer bank hreach, henc.1, rfl⟩
  | setGovernanceEnabled enabled _ ih =>
    obtain ⟨c', hreach, henc⟩ := ih
    exact ⟨_, .setGovernanceEnabled enabled hreach, henc.1.setGovernanceEnabled enabled, henc.2⟩

/-! ## Stakers have addresses -/

/-- Every staker has a text that is read as the address. -/
def Named (env : Env) (s : Store) : Prop :=
  s.stakes.All (fun a _ => env.bech32.accAddressFromBech32 (env.bech32.string a) = .ok a)

theorem Named.setStakeAmount (h : Named env s) {a : AccAddress} {text : String}
    (ha : env.bech32.accAddressFromBech32 text = .ok a) (n : Int) : Named env (Dodx.setStakeAmount s a n) := by
  rw [Named, Dodx.setStakeAmount]
  dsimp only
  split_ifs
  · exact SortedMap.All.erase h a
  · exact SortedMap.All.set h (env.bech32.decode_string ha)

theorem Named.initStakes (h : Named env s) {rs : List StakeRecord} {s' : Store}
    (hinit : Dodx.initStakes env s rs = .ok s') : Named env s' := by
  induction rs generalizing s with
  | nil =>
    cases hinit
    exact h
  | cons r rest ih =>
    rw [Dodx.initStakes] at hinit
    cases haddr : env.bech32.accAddressFromBech32 r.address with
    | error e =>
      rw [haddr] at hinit
      cases hinit
    | ok addr =>
      rw [haddr] at hinit
      obtain ⟨total, _, hrest⟩ := Outcome.bind_eq_ok.mp hinit
      have hwrite := h.setStakeAmount haddr r.amount.amount
      exact ih (s := setTotalStakedAmount (Dodx.setStakeAmount s addr r.amount.amount) total) hwrite hrest

theorem Named.deliver {c : Chain} (h : Named env c.store) (m : Message) :
    Named env (Dodx.deliver env c m).store := by
  rw [Dodx.deliver]
  split
  · rename_i c' hc'
    cases m with
    | stake staker amount =>
      obtain ⟨addr, haddr, _, _, hadd, _⟩ := stake_inv hc'
      rw [(addStake_inv hadd).1]
      exact h.setStakeAmount haddr _
    | unstake staker amount =>
      obtain ⟨addr, haddr, _, _, _, _, _, hremove, _⟩ := unstake_eq_ok.mp hc'
      rw [(removeStake_inv hremove).2.1]
      exact h.setStakeAmount haddr _
  · exact h

theorem Reachable.named {c : Chain} (h : Reachable env c) : Named env c.store := by
  induction h with
  | genesis bank hvalid hinit =>
    obtain ⟨s, hstakes, hs⟩ := Outcome.bind_eq_ok.mp hinit
    cases hs
    have hempty : Named env Store.empty := SortedMap.all_empty
    have hnamed := hempty.initStakes hstakes
    exact hnamed
  | message m _ ih => exact ih.deliver m
  | transfer _ _ ih => exact ih
  | setGovernanceEnabled _ _ ih => exact ih

/-! ## Export -/

/-- The records of some stakes. -/
def stakeRecords (env : Env) (es : List (AccAddress × Int)) : List StakeRecord :=
  es.map (fun e => ⟨env.bech32.string e.1, ⟨microDODxDenom, e.2⟩⟩)

/-- The iterator over the stake keys yields the stakes in their order. -/
theorem Encodes.iterator (h : Encodes codec kv s) :
    kv.iterator (some [stakeKeyPrefix]) (prefixEndBytes [stakeKeyPrefix]) =
      s.stakes.entries.map (fun e => (stakeKey e.1, codec.marshal e.2)) := by
  have hsorted : (s.stakes.entries.map (fun e => (stakeKey e.1, codec.marshal e.2))).Pairwise
      (fun a b => a.1 < b.1) := by
    refine List.pairwise_map.mpr (s.stakes.sorted.imp ?_)
    intro a b hlt
    exact List.cons_lt_cons_iff.mpr (.inr ⟨rfl, hlt⟩)
  -- two sorted lists of the same entries
  have hiter := KVStore.iterator_sorted kv (some [stakeKeyPrefix]) (prefixEndBytes [stakeKeyPrefix])
  have heq : (⟨_, hiter⟩ : KVStore) = ⟨_, hsorted⟩ := by
    apply SortedMap.ext_get
    intro k
    apply Option.ext
    intro v
    rw [SortedMap.get_eq_some, SortedMap.get_eq_some, KVStore.mem_iterator, inDomain_prefixEndBytes, List.mem_map]
    refine ⟨?_, ?_⟩
    · intro hmem
      obtain ⟨hget, a, rfl⟩ := hmem
      have hstake := (h.stake a).symm.trans hget
      obtain ⟨n, hn, hv⟩ := Option.map_eq_some_iff.mp hstake
      exact ⟨(a, n), SortedMap.get_eq_some.mp hn, Prod.ext rfl hv⟩
    · intro hmem
      obtain ⟨e, he, heq⟩ := hmem
      cases heq
      refine ⟨?_, ⟨e.1, rfl⟩⟩
      rw [h.stake, SortedMap.get_eq_some.mpr he]
      rfl
  exact congrArg SortedMap.entries heq

theorem exportGenesis_loop {es : List (AccAddress × Int)} (hes : ∀ e ∈ es, 0 < e.2 ∧ e.2 < 2 ^ 256)
    (acc : List StakeRecord) :
    KV.eachStake codec (fun stakes addr amount => do
      let coin ← newCoin microDODxDenom amount
      .ok (stakes ++ [⟨env.bech32.string addr, coin⟩], false)) acc
      (es.map (fun e => (stakeKey e.1, codec.marshal e.2))) = .ok (acc ++ stakeRecords env es) := by
  induction es generalizing acc with
  | nil => simp [KV.eachStake, stakeRecords]
  | cons e rest ih =>
    obtain ⟨hpos, hlt⟩ := hes e List.mem_cons_self
    have hread : codec.unmarshal (codec.marshal e.2) = .ok e.2 := codec.unmarshal_marshal (by omega)
    have hcoin : (newCoin microDODxDenom e.2 : Outcome SdkError Coin) = .ok ⟨microDODxDenom, e.2⟩ :=
      newCoin_eq_ok.mpr ⟨by decide, hpos.le, rfl⟩
    rw [List.map_cons, KV.eachStake]
    simp only [hread, hcoin, Outcome.orPanic, Outcome.ok_bind, Bool.false_eq_true, if_false]
    rw [show (stakeKey e.1).drop 1 = e.1 from rfl, ih (fun e' he' => hes e' (List.mem_cons_of_mem _ he'))]
    simp [stakeRecords]

theorem validateStakes_records {es : List (AccAddress × Int)} (hnd : (es.map Prod.fst).Nodup)
    (hes : ∀ e ∈ es, env.bech32.accAddressFromBech32 (env.bech32.string e.1) = .ok e.1 ∧ 0 < e.2)
    {seen : List String} (hseen : ∀ e ∈ es, env.bech32.string e.1 ∉ seen) :
    validateStakes env seen (stakeRecords env es) = .ok () := by
  induction es generalizing seen with
  | nil => rfl
  | cons e rest ih =>
    obtain ⟨haddr, hpos⟩ := hes e List.mem_cons_self
    rw [List.map_cons, List.nodup_cons] at hnd
    have hvalid : Coin.isValid ⟨microDODxDenom, e.2⟩ = true := by
      rw [Coin.isValid, Bool.and_eq_true, decide_eq_true_iff]
      exact ⟨show validDenom microDODxDenom = true by decide, hpos.le⟩
    have hrest : ∀ e' ∈ rest, env.bech32.string e'.1 ∉ env.bech32.string e.1 :: seen := by
      intro e' he' hmem
      rcases List.mem_cons.mp hmem with heq | hmem
      · -- another entry would have the same key
        exact hnd.1 (List.mem_map.mpr ⟨e', he', env.bech32.string_injective heq⟩)
      · exact hseen e' (List.mem_cons_of_mem _ he') hmem
    simp only [stakeRecords, List.map_cons, validateStakes, haddr, Outcome.ofExcept, Outcome.ok_bind]
    simp only [Outcome.check_bind_eq_ok, Outcome.failIf_eq_ok, hvalid, Bool.true_eq_false, false_or, not_not]
    exact ⟨hseen e List.mem_cons_self, trivial, hpos, ih hnd.2 (fun e' he' => hes e' (List.mem_cons_of_mem _ he')) hrest⟩

/-- Records are written one after the other. -/
theorem initStakes_records {es : List (AccAddress × Int)}
    (hes : ∀ e ∈ es, env.bech32.accAddressFromBech32 (env.bech32.string e.1) = .ok e.1 ∧ 0 < e.2)
    {s s' : Store} (h : initStakes env s (stakeRecords env es) = .ok s') :
    s'.stakes = es.foldl (fun m e => m.set e.1 e.2) s.stakes ∧ s'.governanceEnabled = s.governanceEnabled := by
  induction es generalizing s with
  | nil =>
    cases h
    exact ⟨rfl, rfl⟩
  | cons e rest ih =>
    obtain ⟨haddr, hpos⟩ := hes e List.mem_cons_self
    simp only [stakeRecords, List.map_cons, initStakes, haddr] at h
    obtain ⟨total, _, hrest⟩ := Outcome.bind_eq_ok.mp h
    obtain ⟨hstakes, hflag⟩ := ih (fun e' he' => hes e' (List.mem_cons_of_mem _ he')) hrest
    refine ⟨hstakes.trans ?_, hflag⟩
    rw [List.foldl_cons, setTotalStakedAmount, setStakeAmount, if_neg hpos.ne']

/-- The records of a store that adds up make the store again. -/
theorem initGenesis_records {s : Store} (hs : Balanced s) (hnamed : Named env s) :
    validateGenesis env ⟨stakeRecords env s.stakes.entries, s.governanceEnabled⟩ = .ok () ∧
      initGenesis env ⟨stakeRecords env s.stakes.entries, s.governanceEnabled⟩ = .ok s := by
  have hes : ∀ e ∈ s.stakes.entries,
      env.bech32.accAddressFromBech32 (env.bech32.string e.1) = .ok e.1 ∧ 0 < e.2 := by
    intro e he
    have hget := SortedMap.get_eq_some.mpr he
    exact ⟨hnamed e.1 e.2 hget, hs.positive e.1 e.2 hget⟩
  have hvalid : validateGenesis env ⟨stakeRecords env s.stakes.entries, s.governanceEnabled⟩ = .ok () :=
    validateStakes_records s.stakes.keys_nodup hes (fun _ _ => List.not_mem_nil)
  have hsum : GenesisState.sum ⟨stakeRecords env s.stakes.entries, s.governanceEnabled⟩ = s.totalStaked := by
    rw [← hs.sum_eq, GenesisState.sum, stakeRecords, List.map_map]
    rfl
  have hbound := hs.bounded
  obtain ⟨s', hinit⟩ := initGenesis_succeeds hvalid (by omega)
  obtain ⟨_, htotal⟩ := initGenesis_balanced hvalid hinit
  obtain ⟨s₀, hstakes, hs'⟩ := Outcome.bind_eq_ok.mp hinit
  cases hs'
  obtain ⟨hmap, _⟩ := initStakes_records hes hstakes
  refine ⟨hvalid, hinit.trans ?_⟩
  -- stakes, total and flag
  have hentries : s₀.stakes = s.stakes := hmap.trans s.stakes.foldl_set_entries
  have htotal' : s₀.totalStaked = s.totalStaked := htotal.trans hsum
  rw [setGovernanceEnabled, hentries, htotal']

theorem Encodes.exportGenesis (h : Encodes codec kv s) (hs : Balanced s) :
    KV.exportGenesis codec env kv = .ok ⟨stakeRecords env s.stakes.entries, s.governanceEnabled⟩ := by
  have hes : ∀ e ∈ s.stakes.entries, 0 < e.2 ∧ e.2 < 2 ^ 256 := by
    intro e he
    have hget := SortedMap.get_eq_some.mpr he
    have hle := hs.stake_le e.1
    have hbound := hs.bounded
    rw [Dodx.getStakeAmount, hget, Option.getD_some] at hle
    exact ⟨hs.positive e.1 e.2 hget, by omega⟩
  rw [KV.exportGenesis, KV.iterateStakes, h.iterator, exportGenesis_loop hes, Outcome.ok_bind, h.governanceEnabled]
  rfl

/-- What a reachable store exports is a valid genesis, and initialising an empty store
from it makes the same bytes: every stake, the total and the flag. -/
theorem genesis_round_trip {c : KV.Chain} (h : KV.Reachable codec env c) :
    ∃ data, KV.exportGenesis codec env c.kv = .ok data ∧ validateGenesis env data = .ok () ∧
      KV.initGenesis codec env .empty data = .ok c.kv := by
  obtain ⟨c', hreach, henc, _⟩ := h.encodes
  obtain ⟨hvalid, hinit⟩ := initGenesis_records hreach.balanced hreach.named
  obtain ⟨kv, hkv, hsame⟩ := (KV.initGenesis_related _).of_ok_right hinit
  refine ⟨_, henc.exportGenesis hreach.balanced, hvalid, ?_⟩
  rw [hkv, hsame.unique henc]

namespace Sample

open Sdk.Sample

/-- A sign, and the digits of the amount. -/
def marshalInt (n : Int) : Bytes := (if n < 0 then 1 else 0) :: (Nat.digits 256 n.natAbs).map UInt8.ofNat

def unmarshalInt (bs : Bytes) : Except String Int :=
  match bs with
  | [] => .error "unexpected EOF"
  | sign :: digits =>
    let abs : Nat := Nat.ofDigits 256 (digits.map UInt8.toNat)
    .ok (if sign = 1 then -abs else abs)

theorem unmarshalInt_marshalInt (n : Int) : unmarshalInt (marshalInt n) = .ok n := by
  have hdigits : (Nat.digits 256 n.natAbs).map (UInt8.toNat ∘ UInt8.ofNat) = Nat.digits 256 n.natAbs := by
    refine (List.map_congr_left ?_).trans (List.map_id _)
    intro d hd
    have hlt : d < 256 := Nat.digits_lt_base (by norm_num) hd
    exact UInt8.toNat_ofNat_of_lt hlt
  simp only [marshalInt, unmarshalInt, List.map_map, hdigits, Nat.ofDigits_digits, Except.ok.injEq]
  by_cases hneg : n < 0
  · simp only [hneg, if_true]
    omega
  · simp only [hneg, if_false, show (0 : UInt8) ≠ 1 by decide]
    omega

def intCodec : IntCodec := ⟨marshalInt, unmarshalInt, fun _ => unmarshalInt_marshalInt _⟩

/-- The bytes after a genesis in which bob stakes seven udodx. -/
def bobStaked : KVStore := ((KV.initGenesis intCodec app .empty (genesisOf bobText 7)).value).getD .empty

/-- Two of them are taken back. -/
def bobUnstaked : KV.Chain := KV.deliver intCodec app ⟨bobStaked, bankOf 9⟩ (.unstake bobText ⟨microDODxDenom, 2⟩)

theorem bob_exported :
    KV.getStakeAmount intCodec bobUnstaked.kv bob = .ok 5 ∧
    ∃ data, KV.exportGenesis intCodec app bobUnstaked.kv = .ok data ∧ validateGenesis app data = .ok () ∧
      KV.initGenesis intCodec app .empty data = .ok bobUnstaked.kv := by
  refine ⟨by decide +kernel, ?_⟩
  have hstaked : KV.initGenesis intCodec app .empty (genesisOf bobText 7) = .ok bobStaked := by decide +kernel
  exact genesis_round_trip (.message _ (.genesis (bankOf 9) (by decide +kernel) hstaked))

end Sample

end Dodx
