import DoChain.Lib.SortedMap
import DoChain.Lib.Trace
import DoChain.Sdk.Bank

/- DODx staking (`x/dodxstaking`).

   Correspondence (Go ↔ Lean):
     `keeper/keeper.go`      ↔ `Store`, `setStakeAmount`, `addStake`, `removeStake`
     `keeper/msg_server.go`  ↔ `stake`, `unstake`
     `types/msgs.go`         ↔ `validateStakeMsg`
     `types/genesis.go`, `genesis.go` ↔ `validateGenesis`, `initGenesis`

   A stake of zero is deleted, and a stored total of zero is deleted and read as zero.
   The module keeps the staked coins in its account; what a message does to the
   balances goes through the bank. A failed message is rolled back (`deliver`).

   `Solvent` is the invariant: the stakes add up to the total, each is positive, and
   the module's balance covers the total. `staking_solvent` says it holds along every
   run, and that a staker gets back what the stake covers. -/

namespace Dodx

open Sdk

def errInvalidAmount : RegisteredError := ⟨"dodxstaking", 2, "invalid DODx staking amount"⟩
def errInsufficientStake : RegisteredError := ⟨"dodxstaking", 3, "insufficient staked DODx"⟩
def errInvalidStakeDenom : RegisteredError := ⟨"dodxstaking", 4, "DODx staking only accepts udodx"⟩
def errDuplicateStake : RegisteredError := ⟨"dodxstaking", 5, "duplicate DODx stake record"⟩

/-! ## The store -/

structure Store where
  stakes : SortedMap AccAddress Int
  totalStaked : Int
  governanceEnabled : Bool

def Store.empty : Store := ⟨SortedMap.empty, 0, false⟩

def getStakeAmount (s : Store) (addr : AccAddress) : Int := (s.stakes.get addr).getD 0

def setStakeAmount (s : Store) (addr : AccAddress) (amount : Int) : Store :=
  { s with stakes := if amount = 0 then s.stakes.erase addr else s.stakes.set addr amount }

def setTotalStakedAmount (s : Store) (amount : Int) : Store := { s with totalStaked := amount }

def setGovernanceEnabled (s : Store) (enabled : Bool) : Store :=
  { s with governanceEnabled := enabled }

def addStake (s : Store) (addr : AccAddress) (amount : Int) : Outcome SdkError Store := do
  let stake ← checkInt (getStakeAmount s addr + amount)
  let s := setStakeAmount s addr stake
  let total ← checkInt (s.totalStaked + amount)
  .ok (setTotalStakedAmount s total)

def removeStake (s : Store) (addr : AccAddress) (amount : Int) : Outcome SdkError Store := do
  .failIf (getStakeAmount s addr < amount) ⟨errInsufficientStake, ""⟩
  let stake ← checkInt (getStakeAmount s addr - amount)
  let s := setStakeAmount s addr stake
  let total ← checkInt (s.totalStaked - amount)
  .ok (setTotalStakedAmount s total)

/-! ## Messages -/

/-- What the messages need of the application. -/
structure Env where
  bech32 : Bech32
  /-- the account of the module -/
  moduleAddr : AccAddress
  /-- the accounts that may not receive coins from a module -/
  blocked : AccAddress → Bool

/-- The store with the bank. -/
structure Chain where
  store : Store
  bank : Bank

variable (env : Env)

def validateStakeMsg (staker : String) (amount : Coin) : Outcome SdkError Unit := do
  let _ ← .ofExcept (fun e => wrap errInvalidAddress ("invalid staker address (" ++ e ++ ")"))
    (env.bech32.accAddressFromBech32 staker)
  .failIf (amount.denom ≠ microDODxDenom) (wrap errInvalidStakeDenom ("got " ++ amount.denom))
  .failIf (amount.isValid = false ∨ amount.amount ≤ 0 ∨ 2 ^ 100 ≤ amount.amount)
    (wrap errInvalidAmount amount.text)

/-- The staker of a message whose address was checked. -/
def stakerAddr (staker : String) : Outcome SdkError AccAddress :=
  .ofExcept (wrap errInvalidAddress) (env.bech32.accAddressFromBech32 staker)

/-- `msgServer.Stake`. -/
def stake (c : Chain) (staker : String) (amount : Coin) : Outcome SdkError Chain := do
  validateStakeMsg env staker amount
  let addr ← stakerAddr env staker
  let coins ← newCoins amount
  let bank ← c.bank.sendCoins addr env.moduleAddr coins
  let store ← addStake c.store addr amount.amount
  .ok ⟨store, bank⟩

/-- `msgServer.Unstake`. -/
def unstake (c : Chain) (staker : String) (amount : Coin) : Outcome SdkError Chain := do
  validateStakeMsg env staker amount
  let addr ← stakerAddr env staker
  let store ← removeStake c.store addr amount.amount
  let coins ← newCoins amount
  let bank ← c.bank.sendCoinsFromModuleToAccount env.bech32 env.blocked env.moduleAddr addr coins
  .ok ⟨store, bank⟩

/-! ## Genesis -/

structure StakeRecord where
  address : String
  amount : Coin

structure GenesisState where
  stakes : List StakeRecord
  governanceEnabled : Bool

/-- The loop of `ValidateGenesis`, with the addresses seen so far. -/
def validateStakes (seen : List String) : List StakeRecord → Outcome SdkError Unit
  | [] => .ok ()
  | r :: rest => do
    let addr ← .ofExcept (wrap errInvalidAddress) (env.bech32.accAddressFromBech32 r.address)
    .failIf (env.bech32.string addr ∈ seen) ⟨errDuplicateStake, ""⟩
    .failIf (r.amount.denom ≠ microDODxDenom) ⟨errInvalidStakeDenom, ""⟩
    .failIf (r.amount.isValid = false ∨ ¬ 0 < r.amount.amount) ⟨errInvalidAmount, ""⟩
    validateStakes (env.bech32.string addr :: seen) rest

def validateGenesis (data : GenesisState) : Outcome SdkError Unit :=
  validateStakes env [] data.stakes

/-- The loop of `InitGenesis`. -/
def initStakes (s : Store) : List StakeRecord → Outcome SdkError Store
  | [] => .ok s
  | r :: rest =>
    match env.bech32.accAddressFromBech32 r.address with
    | .error e => .panic e
    | .ok addr => do
      let s := setStakeAmount s addr r.amount.amount
      let total ← checkInt (s.totalStaked + r.amount.amount)
      initStakes (setTotalStakedAmount s total) rest

def initGenesis (data : GenesisState) : Outcome SdkError Store := do
  let s ← initStakes env Store.empty data.stakes
  .ok (setGovernanceEnabled s data.governanceEnabled)

/-! ## What an operation does to the sum -/

/-- The sum of all stored stakes. -/
def Store.sum (s : Store) : Int := s.stakes.sumOf (fun _ n => n)

/-- The stakes are positive and add up to the total, which is an `Int` of the chain. -/
structure Balanced (s : Store) : Prop where
  sum_eq : s.sum = s.totalStaked
  positive : ∀ a n, s.stakes.get a = some n → 0 < n
  bounded : s.totalStaked.natAbs < 2 ^ 256

variable {env}

/-- A write puts the new stake in place of the old one. -/
theorem sum_setStakeAmount (s : Store) (a : AccAddress) (n : Int) :
    (setStakeAmount s a n).sum + getStakeAmount s a = s.sum + n := by
  have hget : ((s.stakes.get a).map (fun n : Int => n)).getD 0 = getStakeAmount s a := by
    simp [getStakeAmount]
  by_cases hn : n = 0
  · have hsum := SortedMap.sumOf_erase (fun _ n => n) s.stakes a
    rw [hget] at hsum
    simp only [Store.sum, setStakeAmount, hn, if_true]
    omega
  · have hsum := SortedMap.sumOf_set (fun _ n => n) s.stakes a n
    rw [hget] at hsum
    simp only [Store.sum, setStakeAmount, hn, if_false]
    omega

theorem positive_setStakeAmount {s : Store} {a : AccAddress} {n : Int} (hn : 0 ≤ n)
    (h : ∀ b m, s.stakes.get b = some m → 0 < m) (b : AccAddress) (m : Int)
    (hm : (setStakeAmount s a n).stakes.get b = some m) : 0 < m := by
  simp only [setStakeAmount] at hm
  split_ifs at hm with h0
  · rw [SortedMap.get_erase] at hm
    split_ifs at hm
    exact h b m hm
  · rw [SortedMap.get_set] at hm
    split_ifs at hm
    · rw [← Option.some.inj hm]
      omega
    · exact h b m hm

theorem Balanced.stake_nonneg {s : Store} (h : Balanced s) (a : AccAddress) :
    0 ≤ getStakeAmount s a := by
  rw [getStakeAmount]
  cases ha : s.stakes.get a with
  | none => simp
  | some n => exact (h.positive a n ha).le

/-- Distinct stakers together have no more than the total. -/
theorem Balanced.stakes_le {s : Store} (h : Balanced s) {as : List AccAddress} (hnd : as.Nodup) :
    (as.map (getStakeAmount s)).sum ≤ s.totalStaked := by
  have hnn : ∀ a n, s.stakes.get a = some n → 0 ≤ n := by
    intro a n ha
    exact (h.positive a n ha).le
  have hmap : ∀ a ∈ as, getStakeAmount s a = ((s.stakes.get a).map (fun n => n)).getD 0 := by
    intro a _
    rw [getStakeAmount, Option.map_id']
  rw [← h.sum_eq, List.map_congr_left hmap]
  exact SortedMap.sum_getD_le hnn hnd

theorem Balanced.stake_le {s : Store} (h : Balanced s) (a : AccAddress) :
    getStakeAmount s a ≤ s.totalStaked := by
  have hle := h.stakes_le (List.nodup_singleton a)
  rw [List.map_singleton, List.sum_singleton] at hle
  exact hle

theorem Balanced.write {s : Store} (h : Balanced s) {a : AccAddress} {n total : Int} (hn : 0 ≤ n)
    (htotal : total + getStakeAmount s a = s.totalStaked + n) (hb : total.natAbs < 2 ^ 256) :
    Balanced (setTotalStakedAmount (setStakeAmount s a n) total) where
  sum_eq := by
    have hsum := sum_setStakeAmount s a n
    have heq := h.sum_eq
    change (setStakeAmount s a n).sum = total
    omega
  positive := positive_setStakeAmount hn h.positive
  bounded := hb

theorem addStake_inv {s s' : Store} {a : AccAddress} {n : Int} (h : addStake s a n = .ok s') :
    s' = setTotalStakedAmount (setStakeAmount s a (getStakeAmount s a + n)) (s.totalStaked + n) ∧
      (s.totalStaked + n).natAbs < 2 ^ 256 := by
  simp only [addStake, Outcome.bind_eq_ok, checkInt_eq_ok] at h
  obtain ⟨_, ⟨_, rfl⟩, _, ⟨hb, rfl⟩, h⟩ := h
  cases h
  exact ⟨rfl, hb⟩

theorem removeStake_inv {s s' : Store} {a : AccAddress} {n : Int} (h : removeStake s a n = .ok s') :
    n ≤ getStakeAmount s a ∧
      s' = setTotalStakedAmount (setStakeAmount s a (getStakeAmount s a - n)) (s.totalStaked - n) ∧
      (s.totalStaked - n).natAbs < 2 ^ 256 := by
  simp only [removeStake, Outcome.bind_eq_ok, Outcome.failIf_eq_ok, checkInt_eq_ok, not_lt] at h
  obtain ⟨_, hle, _, ⟨_, rfl⟩, _, ⟨hb, rfl⟩, h⟩ := h
  cases h
  exact ⟨hle, rfl, hb⟩

theorem Balanced.addStake {s s' : Store} (h : Balanced s) {a : AccAddress} {n : Int} (hn : 0 < n)
    (hadd : Dodx.addStake s a n = .ok s') : Balanced s' := by
  obtain ⟨rfl, hbound⟩ := addStake_inv hadd
  have hnonneg := h.stake_nonneg a
  exact h.write (by omega) (by omega) hbound

theorem Balanced.removeStake {s s' : Store} (h : Balanced s) {a : AccAddress} {n : Int}
    (hremove : Dodx.removeStake s a n = .ok s') : Balanced s' := by
  obtain ⟨hle, rfl, hbound⟩ := removeStake_inv hremove
  exact h.write (by omega) (by omega) hbound

theorem Balanced.setGovernanceEnabled {s : Store} (h : Balanced s) (enabled : Bool) :
    Balanced (Dodx.setGovernanceEnabled s enabled) :=
  ⟨h.sum_eq, h.positive, h.bounded⟩

/-! ## What a message does -/

theorem validateStakeMsg_inv {staker : String} {amount : Coin}
    (h : validateStakeMsg env staker amount = .ok ()) :
    amount.denom = microDODxDenom ∧ 0 < amount.amount ∧ amount.amount < 2 ^ 100 := by
  simp only [validateStakeMsg, Outcome.bind_eq_ok, Outcome.failIf_eq_ok, not_or, not_not, not_le] at h
  obtain ⟨_, _, _, hdenom, _, hpos, hbits⟩ := h
  exact ⟨hdenom, hpos, hbits⟩

/-- A valid amount of udodx is a coin set of its own. -/
theorem newCoins_udodx {ε : Type} {amount : Coin} (hd : amount.denom = microDODxDenom)
    (hpos : 0 < amount.amount) :
    (newCoins amount : Outcome ε Coins) = .ok [amount] ∧ Coins.IsValid [amount] := by
  have hvalid : validDenom amount.denom = true := by
    rw [hd]
    decide
  exact ⟨newCoins_of_pos hvalid hpos, Bank.isValid_singleton.mpr ⟨hvalid, hpos⟩⟩

/-- A message that succeeds moves its amount between the staker and the module, and
the stake and the total with it. -/
theorem stake_inv {c c' : Chain} {staker : String} {amount : Coin}
    (h : stake env c staker amount = .ok c') :
    ∃ addr, env.bech32.accAddressFromBech32 staker = .ok addr ∧
      amount.denom = microDODxDenom ∧ 0 < amount.amount ∧
      addStake c.store addr amount.amount = .ok c'.store ∧
      c'.bank = (c.bank.addBalance addr amount.denom (-amount.amount)).addBalance env.moduleAddr
        amount.denom amount.amount := by
  simp only [stake, Outcome.bind_eq_ok, stakerAddr, Outcome.ofExcept_eq_ok] at h
  obtain ⟨_, hvalid, addr, haddr, coins, hcoins, bank, hsend, store, hadd, h⟩ := h
  obtain ⟨hdenom, hpos, _⟩ := validateStakeMsg_inv hvalid
  obtain ⟨hnew, hset⟩ := newCoins_udodx (ε := SdkError) hdenom hpos
  rw [hnew] at hcoins
  cases hcoins
  obtain ⟨_, rfl⟩ := (Bank.sendCoins_one hset).mp hsend
  cases h
  exact ⟨addr, haddr, hdenom, hpos, hadd, rfl⟩

theorem unstake_eq_ok {c c' : Chain} {staker : String} {amount : Coin} :
    unstake env c staker amount = .ok c' ↔
      ∃ addr, env.bech32.accAddressFromBech32 staker = .ok addr ∧
        amount.denom = microDODxDenom ∧ 0 < amount.amount ∧ amount.amount < 2 ^ 100 ∧
        env.blocked addr = false ∧
        amount.amount ≤ c.bank.balance env.moduleAddr amount.denom ∧
        removeStake c.store addr amount.amount = .ok c'.store ∧
        c'.bank = (c.bank.addBalance env.moduleAddr amount.denom (-amount.amount)).addBalance addr
          amount.denom amount.amount := by
  simp only [unstake, Outcome.bind_eq_ok, stakerAddr, Outcome.ofExcept_eq_ok,
    Bank.sendCoinsFromModuleToAccount, Outcome.failIf_eq_ok, Bool.not_eq_true]
  refine ⟨?_, ?_⟩
  · intro h
    obtain ⟨_, hvalid, addr, haddr, store, hremove, coins, hcoins, bank, ⟨_, hblocked, hsend⟩, h⟩ := h
    obtain ⟨hdenom, hpos, hbits⟩ := validateStakeMsg_inv hvalid
    obtain ⟨hnew, hset⟩ := newCoins_udodx (ε := SdkError) hdenom hpos
    rw [hnew] at hcoins
    cases hcoins
    obtain ⟨hle, rfl⟩ := (Bank.sendCoins_one hset).mp hsend
    cases h
    exact ⟨addr, haddr, hdenom, hpos, hbits, hblocked, hle, hremove, rfl⟩
  · intro h
    obtain ⟨addr, haddr, hdenom, hpos, hbits, hblocked, hle, hremove, hbank⟩ := h
    obtain ⟨hnew, hset⟩ := newCoins_udodx (ε := SdkError) hdenom hpos
    have hvalid : validateStakeMsg env staker amount = .ok () := by
      simp only [validateStakeMsg, haddr, Outcome.ofExcept, Outcome.ok_bind]
      rw [Outcome.check_bind_eq_ok, Outcome.failIf_eq_ok, Outcome.failIf_eq_ok]
      refine ⟨not_not.mpr hdenom, ?_⟩
      have hcoin : amount.isValid = true := by
        rw [Coin.isValid, (Bank.isValid_singleton.mp hset).1, Bool.true_and, decide_eq_true_iff]
        exact hpos.le
      simp only [hcoin, Bool.true_eq_false, false_or, not_or, not_le]
      exact ⟨hpos, hbits⟩
    refine ⟨(), hvalid, addr, haddr, c'.store, hremove, [amount], hnew, c'.bank, ?_, rfl⟩
    exact ⟨(), hblocked, (Bank.sendCoins_one hset).mpr ⟨hle, hbank⟩⟩

/-! ## Solvency

A step is a message with its failure rolled back, or a change of the bank that takes
no udodx from the module. The module account has no key, so it stakes nothing. -/

inductive Message where
  | stake (staker : String) (amount : Coin)
  | unstake (staker : String) (amount : Coin)

variable (env)

def handle (c : Chain) : Message → Outcome SdkError Chain
  | .stake staker amount => stake env c staker amount
  | .unstake staker amount => unstake env c staker amount

/-- A message with its failure rolled back. -/
def deliver (c : Chain) (m : Message) : Chain :=
  match handle env c m with
  | .ok c' => c'
  | _ => c

/-- The udodx balance of the module. -/
def Chain.held (c : Chain) : Int := c.bank.balance env.moduleAddr microDODxDenom

inductive Event where
  | message (m : Message)
  | transfer (bank : Bank)

def Event.apply (c : Chain) : Event → Chain
  | .message m => deliver env c m
  | .transfer bank => { c with bank := bank }

def Event.Allowed (c : Chain) : Event → Prop
  | .message (.stake staker _) => env.bech32.accAddressFromBech32 staker ≠ .ok env.moduleAddr
  | .message (.unstake _ _) => True
  | .transfer bank => c.held env ≤ Chain.held env { c with bank := bank }

structure Step where
  before : Chain
  event : Event
  allowed : event.Allowed env before

/-- The stakes are backed by the module's coins. -/
structure Solvent (c : Chain) : Prop extends Balanced c.store where
  covered : c.store.totalStaked ≤ c.held env

variable {env}

def Step.after (st : Step env) : Chain := st.event.apply env st.before

theorem Solvent.stake {c c' : Chain} (h : Solvent env c) {staker : String} {amount : Coin}
    (hne : env.bech32.accAddressFromBech32 staker ≠ .ok env.moduleAddr)
    (hs : Dodx.stake env c staker amount = .ok c') : Solvent env c' := by
  obtain ⟨addr, haddr, hdenom, hpos, hadd, hbank⟩ := stake_inv hs
  obtain ⟨hstore, _⟩ := addStake_inv hadd
  have hother : env.moduleAddr ≠ addr := by
    intro heq
    exact hne (heq ▸ haddr)
  have hheld : c'.held env = c.held env + amount.amount := by
    simp [Chain.held, hbank, hdenom, hother]
  have hcov := h.covered
  refine ⟨h.addStake hpos hadd, ?_⟩
  rw [hheld, hstore]
  show c.store.totalStaked + amount.amount ≤ _
  omega

theorem Solvent.unstake {c c' : Chain} (h : Solvent env c) {staker : String} {amount : Coin}
    (hs : Dodx.unstake env c staker amount = .ok c') : Solvent env c' := by
  obtain ⟨addr, _, hdenom, hpos, _, _, _, hremove, hbank⟩ := unstake_eq_ok.mp hs
  obtain ⟨_, hstore, _⟩ := removeStake_inv hremove
  have hheld : c.held env - amount.amount ≤ c'.held env := by
    simp only [Chain.held, hbank, hdenom, Bank.addBalance_balance, and_self, and_true, if_true]
    split_ifs <;> omega
  have hcov := h.covered
  refine ⟨h.removeStake hremove, ?_⟩
  rw [hstore]
  show c.store.totalStaked - amount.amount ≤ _
  omega

/-- Every step keeps the module solvent. -/
theorem Solvent.step (st : Step env) (h : Solvent env st.before) : Solvent env st.after := by
  obtain ⟨c, event, allowed⟩ := st
  cases event with
  | transfer bank => exact ⟨h.toBalanced, h.covered.trans allowed⟩
  | message m =>
    simp only [Step.after, Event.apply, deliver]
    split
    · rename_i c' hc'
      cases m with
      | stake staker amount => exact h.stake allowed hc'
      | unstake staker amount => exact h.unstake hc'
    · exact h

/-- What is staked can be taken back. -/
theorem Solvent.unstake_succeeds {c : Chain} (h : Solvent env c) {staker : String}
    {addr : AccAddress} (haddr : env.bech32.accAddressFromBech32 staker = .ok addr)
    (hblocked : env.blocked addr = false) {n : Int} (hpos : 0 < n) (hbits : n < 2 ^ 100)
    (hn : n ≤ getStakeAmount c.store addr) :
    ∃ c', Dodx.unstake env c staker ⟨microDODxDenom, n⟩ = .ok c' := by
  have hle := h.stake_le addr
  have hbound := h.bounded
  have hremove : removeStake c.store addr n = .ok (setTotalStakedAmount
      (setStakeAmount c.store addr (getStakeAmount c.store addr - n)) (c.store.totalStaked - n)) := by
    simp only [removeStake, Outcome.bind_eq_ok, Outcome.failIf_eq_ok, checkInt_eq_ok, not_lt]
    refine ⟨(), hn, _, ⟨?_, rfl⟩, _, ⟨?_, rfl⟩, rfl⟩
    · omega
    · show (c.store.totalStaked - n).natAbs < _
      omega
  refine ⟨⟨_, _⟩, unstake_eq_ok.mpr ⟨addr, haddr, rfl, hpos, hbits, hblocked, ?_, hremove, rfl⟩⟩
  calc n ≤ c.store.totalStaked := by omega
    _ ≤ c.bank.balance env.moduleAddr microDODxDenom := h.covered

/-! ## Genesis is solvent -/

/-- The sum of the genesis stakes. -/
def GenesisState.sum (data : GenesisState) : Int := (data.stakes.map (fun r => r.amount.amount)).sum

theorem balanced_empty : Balanced Store.empty := ⟨rfl, by simp [Store.empty], by simp [Store.empty]⟩

theorem validateStakes_cons {seen : List String} {r : StakeRecord} {rest : List StakeRecord}
    (h : validateStakes env seen (r :: rest) = .ok ()) :
    ∃ addr, env.bech32.accAddressFromBech32 r.address = .ok addr ∧
      env.bech32.string addr ∉ seen ∧ 0 < r.amount.amount ∧
      validateStakes env (env.bech32.string addr :: seen) rest = .ok () := by
  simp only [validateStakes, Outcome.bind_eq_ok, Outcome.ofExcept_eq_ok, Outcome.failIf_eq_ok,
    not_or, not_not] at h
  obtain ⟨addr, haddr, _, hseen, _, _, _, ⟨_, hpos⟩, hrest⟩ := h
  exact ⟨addr, haddr, hseen, hpos, hrest⟩

/-- Records with distinct addresses are written one by one, and each adds its
amount. -/
theorem Balanced.initStakes {seen : List String} {rs : List StakeRecord}
    (hvalid : validateStakes env seen rs = .ok ()) {s s' : Store} (hs : Balanced s)
    (hseen : ∀ a n, s.stakes.get a = some n → env.bech32.string a ∈ seen)
    (hinit : Dodx.initStakes env s rs = .ok s') :
    Balanced s' ∧ s'.totalStaked = s.totalStaked + (rs.map (fun r => r.amount.amount)).sum := by
  induction rs generalizing seen s with
  | nil =>
    cases hinit
    exact ⟨hs, by simp⟩
  | cons r rest ih =>
    obtain ⟨addr, haddr, hnew, hpos, hrest⟩ := validateStakes_cons hvalid
    simp only [Dodx.initStakes, haddr, Outcome.bind_eq_ok, checkInt_eq_ok] at hinit
    obtain ⟨_, ⟨hbound, rfl⟩, hinit⟩ := hinit
    -- the address has no stake yet
    have hzero : getStakeAmount s addr = 0 := by
      rw [getStakeAmount]
      cases hg : s.stakes.get addr with
      | none => rfl
      | some n => exact absurd (hseen addr n hg) hnew
    have htotal : s.totalStaked + r.amount.amount + getStakeAmount s addr
        = s.totalStaked + r.amount.amount := by omega
    have hseen' : ∀ a n, (setStakeAmount s addr r.amount.amount).stakes.get a = some n →
        env.bech32.string a ∈ env.bech32.string addr :: seen := by
      intro a n hg
      simp only [setStakeAmount, hpos.ne', if_false, SortedMap.get_set] at hg
      split_ifs at hg with ha
      · rw [ha]
        exact List.mem_cons_self
      · exact List.mem_cons_of_mem _ (hseen a n hg)
    obtain ⟨hbal, hsum⟩ := ih hrest (hs.write hpos.le htotal hbound) hseen' hinit
    refine ⟨hbal, ?_⟩
    calc s'.totalStaked
        = s.totalStaked + r.amount.amount + (rest.map (fun r => r.amount.amount)).sum := hsum
      _ = s.totalStaked + ((r :: rest).map (fun r => r.amount.amount)).sum := by
        rw [List.map_cons, List.sum_cons, add_assoc]

theorem validateStakes_nonneg {seen : List String} {rs : List StakeRecord}
    (h : validateStakes env seen rs = .ok ()) : 0 ≤ (rs.map (fun r => r.amount.amount)).sum := by
  induction rs generalizing seen with
  | nil => simp
  | cons r rest ih =>
    obtain ⟨addr, _, _, hpos, hrest⟩ := validateStakes_cons h
    have hsum := ih hrest
    rw [List.map_cons, List.sum_cons]
    omega

/-- Records that were checked are written, unless their sum is no `Int` of the
chain. -/
theorem initStakes_succeeds {seen : List String} {rs : List StakeRecord}
    (hvalid : validateStakes env seen rs = .ok ()) {s : Store} (hs : 0 ≤ s.totalStaked)
    (hbound : s.totalStaked + (rs.map (fun r => r.amount.amount)).sum < 2 ^ 256) :
    ∃ s', initStakes env s rs = .ok s' := by
  induction rs generalizing seen s with
  | nil => exact ⟨s, rfl⟩
  | cons r rest ih =>
    obtain ⟨addr, haddr, _, hpos, hrest⟩ := validateStakes_cons hvalid
    have hsum := validateStakes_nonneg hrest
    rw [List.map_cons, List.sum_cons] at hbound
    have hnext : 0 ≤ s.totalStaked + r.amount.amount := by omega
    have hleft : s.totalStaked + r.amount.amount + (rest.map (fun r => r.amount.amount)).sum
        < 2 ^ 256 := by omega
    obtain ⟨s', hs'⟩ := ih hrest (s := setTotalStakedAmount (setStakeAmount s addr r.amount.amount)
      (s.totalStaked + r.amount.amount)) hnext hleft
    refine ⟨s', ?_⟩
    simp only [initStakes, haddr, Outcome.bind_eq_ok, checkInt_eq_ok]
    refine ⟨_, ⟨?_, rfl⟩, hs'⟩
    show (s.totalStaked + r.amount.amount).natAbs < _
    omega

theorem initGenesis_balanced {data : GenesisState} {s : Store}
    (hvalid : validateGenesis env data = .ok ()) (hinit : initGenesis env data = .ok s) :
    Balanced s ∧ s.totalStaked = data.sum := by
  obtain ⟨s₀, hstakes, hs⟩ := Outcome.bind_eq_ok.mp hinit
  cases hs
  obtain ⟨hbal, hsum⟩ := balanced_empty.initStakes hvalid (by simp [Store.empty]) hstakes
  exact ⟨hbal.setGovernanceEnabled _, hsum.trans (Int.zero_add _)⟩

theorem initGenesis_succeeds {data : GenesisState} (hvalid : validateGenesis env data = .ok ())
    (hbound : data.sum < 2 ^ 256) : ∃ s, initGenesis env data = .ok s := by
  obtain ⟨s, hs⟩ := initStakes_succeeds hvalid (s := Store.empty) (Int.le_refl 0)
    (show 0 + data.sum < 2 ^ 256 by omega)
  exact ⟨_, Outcome.bind_eq_ok.mpr ⟨s, hs, rfl⟩⟩

/-! ## Reachable states

The store adds up in every state the chain can come to, also where the module account
stakes: only the balance can then fall behind. -/

inductive Reachable (env : Env) : Chain → Prop where
  | genesis {data : GenesisState} {store : Store} (bank : Bank) :
      validateGenesis env data = .ok () → initGenesis env data = .ok store →
      Reachable env ⟨store, bank⟩
  | message {c : Chain} (m : Message) : Reachable env c → Reachable env (deliver env c m)
  | transfer {c : Chain} (bank : Bank) : Reachable env c → Reachable env ⟨c.store, bank⟩
  | setGovernanceEnabled {c : Chain} (enabled : Bool) : Reachable env c →
      Reachable env ⟨setGovernanceEnabled c.store enabled, c.bank⟩

theorem Balanced.deliver {c : Chain} (h : Balanced c.store) (m : Message) :
    Balanced (Dodx.deliver env c m).store := by
  simp only [Dodx.deliver]
  split
  · rename_i c' hc'
    cases m with
    | stake staker amount =>
      obtain ⟨_, _, _, hpos, hadd, _⟩ := stake_inv hc'
      exact h.addStake hpos hadd
    | unstake staker amount =>
      obtain ⟨_, _, _, _, _, _, _, hremove, _⟩ := unstake_eq_ok.mp hc'
      exact h.removeStake hremove
  · exact h

theorem Reachable.balanced {c : Chain} (h : Reachable env c) : Balanced c.store := by
  induction h with
  | genesis _ hvalid hinit => exact (initGenesis_balanced hvalid hinit).1
  | message m _ ih => exact ih.deliver m
  | transfer _ _ ih => exact ih
  | setGovernanceEnabled enabled _ ih => exact ih.setGovernanceEnabled enabled

/-- From a valid genesis whose stakes the module's balance covers, every run of
messages and transfers keeps the module solvent, and whoever may receive coins can
take back any part of the stake that one message can name. -/
theorem staking_solvent {data : GenesisState} {bank : Bank}
    (hvalid : validateGenesis env data = .ok ())
    (hcover : data.sum ≤ bank.balance env.moduleAddr microDODxDenom)
    (hint : bank.balance env.moduleAddr microDODxDenom < 2 ^ 256) :
    ∃ store, initGenesis env data = .ok store ∧
      ∀ (steps : List (Step env)) (c : Chain),
        Trace Step.before Step.after ⟨store, bank⟩ steps c →
        c.store.sum = c.store.totalStaked ∧
        c.store.totalStaked ≤ c.bank.balance env.moduleAddr microDODxDenom ∧
        (∀ a n, c.store.stakes.get a = some n → 0 < n) ∧
        ∀ staker addr n, env.bech32.accAddressFromBech32 staker = .ok addr →
          env.blocked addr = false → 0 < n → n < 2 ^ 100 → n ≤ getStakeAmount c.store addr →
          ∃ c', unstake env c staker ⟨microDODxDenom, n⟩ = .ok c' := by
  obtain ⟨store, hinit⟩ := initGenesis_succeeds hvalid (by omega)
  obtain ⟨hbal, hsum⟩ := initGenesis_balanced hvalid hinit
  refine ⟨store, hinit, ?_⟩
  intro steps c hrun
  have hstart : Solvent env ⟨store, bank⟩ := ⟨hbal, hsum.trans_le hcover⟩
  have hc : Solvent env c := hrun.invariant (fun st _ => Solvent.step st) hstart
  refine ⟨hc.sum_eq, hc.covered, hc.positive, ?_⟩
  intro staker addr n haddr hblocked hpos hbits hn
  exact hc.unstake_succeeds haddr hblocked hpos hbits hn

namespace Sample

open Sdk.Sample

/-- The accounts of the modules are blocked, except those that may receive. -/
def app : Env := ⟨bech32, dodxstaking, fun a => a ∈ [dodxstaking, gov, market]⟩

/-- A bank in which the module holds `n` udodx. -/
def bankOf (n : Int) : Bank :=
  ⟨fun a d => if a = dodxstaking ∧ d = microDODxDenom then n else 0, fun _ => n⟩

def genesisOf (staker : String) (n : Int) : GenesisState := ⟨[⟨staker, ⟨microDODxDenom, n⟩⟩], true⟩

/-- The module account's stake raises the total without raising its balance; a
module account that stakes cannot unstake; and a stake that takes more than 100 bits
cannot be taken back at once. -/
theorem stake_not_returned :
    (validateGenesis app ⟨[], true⟩ = .ok () ∧ initGenesis app ⟨[], true⟩ = .ok ⟨.empty, 0, true⟩ ∧
      let c := (deliver app ⟨⟨.empty, 0, true⟩, bankOf 5⟩ (.stake dodxstakingText ⟨microDODxDenom, 5⟩))
      let c' := deliver app c (.stake dodxstakingText ⟨microDODxDenom, 5⟩)
      c'.store.totalStaked = 10 ∧ c'.bank.balance app.moduleAddr microDODxDenom = 5) ∧
    (validateGenesis app (genesisOf govText 5) = .ok () ∧
      ∃ store, initGenesis app (genesisOf govText 5) = .ok store ∧
        getStakeAmount store gov = 5 ∧
        ¬ ∃ c', unstake app ⟨store, bankOf 5⟩ govText ⟨microDODxDenom, 5⟩ = .ok c') ∧
    (validateGenesis app (genesisOf bobText (2 ^ 100)) = .ok () ∧
      ∃ store, initGenesis app (genesisOf bobText (2 ^ 100)) = .ok store ∧
        getStakeAmount store bob = 2 ^ 100 ∧
        ¬ ∃ c', unstake app ⟨store, bankOf (2 ^ 100)⟩ bobText ⟨microDODxDenom, 2 ^ 100⟩ = .ok c') := by
  refine ⟨⟨rfl, rfl, ?_⟩, ⟨by decide +kernel, ?_⟩, ⟨by decide +kernel, ?_⟩⟩
  · decide +kernel
  · refine ⟨_, rfl, by decide +kernel, ?_⟩
    intro h
    obtain ⟨c', h⟩ := h
    obtain ⟨addr, haddr, _, _, _, hblocked, _⟩ := unstake_eq_ok.mp h
    cases haddr
    revert hblocked
    decide
  · refine ⟨_, rfl, by decide +kernel, ?_⟩
    intro h
    obtain ⟨c', h⟩ := h
    obtain ⟨addr, _, _, _, hbits, _⟩ := unstake_eq_ok.mp h
    exact absurd hbits (lt_irrefl _)

theorem bob_unstakes :
    ∃ store, initGenesis app (genesisOf bobText 7) = .ok store ∧
      ∀ (steps : List (Step app)) (c : Chain),
        Trace Step.before Step.after ⟨store, bankOf 9⟩ steps c →
        c.store.sum = c.store.totalStaked ∧
        c.store.totalStaked ≤ c.bank.balance app.moduleAddr microDODxDenom ∧
        (∀ a n, c.store.stakes.get a = some n → 0 < n) ∧
        ∀ staker addr n, app.bech32.accAddressFromBech32 staker = .ok addr →
          app.blocked addr = false → 0 < n → n < 2 ^ 100 → n ≤ getStakeAmount c.store addr →
          ∃ c', unstake app c staker ⟨microDODxDenom, n⟩ = .ok c' :=
  staking_solvent (by decide +kernel) (by decide +kernel) (by decide +kernel)

end Sample

end Dodx
