import DoChain.Sdk.LegacyDec
import DoChain.Sdk.Types

/- The bank, as the modules use it: sends, mints and burns.

   A balance is an amount per account and denomination, and the supply an amount
   per denomination. A send fails where the sender's balance is too small, and a
   send from a module fails for a blocked recipient. Locked coins of vesting
   accounts are left out: they only make more sends fail. Adding to a balance never
   overflows, since no balance exceeds the supply, and minting checks the supply. -/

namespace Sdk

structure Bank where
  balance : AccAddress → String → Int
  supply : String → Int

/-- What a list of coins holds of a denomination. -/
def Coins.total (amt : Coins) (denom : String) : Int :=
  (amt.map (fun c => if c.denom = denom then c.amount else 0)).sum

theorem Coins.total_cons (c : Coin) (rest : Coins) (denom : String) :
    Coins.total (c :: rest) denom = (if c.denom = denom then c.amount else 0) + Coins.total rest denom := rfl

namespace Bank

/-- Change one balance. -/
def addBalance (b : Bank) (a : AccAddress) (denom : String) (n : Int) : Bank :=
  { b with balance := fun x d => b.balance x d + if x = a ∧ d = denom then n else 0 }

def addSupply (b : Bank) (denom : String) (n : Int) : Bank :=
  { b with supply := fun d => b.supply d + if d = denom then n else 0 }

@[simp] theorem addBalance_balance (b : Bank) (a x : AccAddress) (denom d : String) (n : Int) :
    (b.addBalance a denom n).balance x d =
      b.balance x d + if x = a ∧ d = denom then n else 0 := rfl

@[simp] theorem addBalance_supply (b : Bank) (a : AccAddress) (denom : String) (n : Int) :
    (b.addBalance a denom n).supply = b.supply := rfl

@[simp] theorem addSupply_balance (b : Bank) (denom : String) (n : Int) :
    (b.addSupply denom n).balance = b.balance := rfl

@[simp] theorem addSupply_supply (b : Bank) (denom d : String) (n : Int) :
    (b.addSupply denom n).supply d = b.supply d + if d = denom then n else 0 := rfl

def coinsText (amt : Coins) : String := ",".intercalate (amt.map Coin.text)

/-- Take the coins off an account, one after another. -/
def subEach (b : Bank) (a : AccAddress) : Coins → Outcome SdkError Bank
  | [] => .ok b
  | c :: rest => do
    .failIf (b.balance a c.denom < c.amount)
      (wrap errInsufficientFunds ("spendable balance " ++ Coin.text ⟨c.denom, b.balance a c.denom⟩ ++
        " is smaller than " ++ c.text))
    subEach (b.addBalance a c.denom (-c.amount)) a rest

def addEach (b : Bank) (a : AccAddress) : Coins → Bank
  | [] => b
  | c :: rest => addEach (b.addBalance a c.denom c.amount) a rest

def subUnlockedCoins (b : Bank) (a : AccAddress) (amt : Coins) : Outcome SdkError Bank := do
  .failIf (¬ amt.IsValid) (wrap errInvalidCoins (coinsText amt))
  subEach b a amt

def addCoins (b : Bank) (a : AccAddress) (amt : Coins) : Outcome SdkError Bank := do
  .failIf (¬ amt.IsValid) (wrap errInvalidCoins (coinsText amt))
  .ok (addEach b a amt)

def sendCoins (b : Bank) (fromAddr toAddr : AccAddress) (amt : Coins) : Outcome SdkError Bank := do
  let b ← b.subUnlockedCoins fromAddr amt
  b.addCoins toAddr amt

/-- `SendCoinsFromModuleToAccount`. -/
def sendCoinsFromModuleToAccount (bech32 : Bech32) (blocked : AccAddress → Bool) (b : Bank)
    (moduleAddr recipient : AccAddress) (amt : Coins) : Outcome SdkError Bank := do
  .failIf (blocked recipient = true)
    (wrap errUnauthorized (bech32.string recipient ++ " is not allowed to receive funds"))
  b.sendCoins moduleAddr recipient amt

def addSupplyEach (b : Bank) : Coins → Outcome SdkError Bank
  | [] => .ok b
  | c :: rest => do
    let _ ← checkInt (b.supply c.denom + c.amount)
    addSupplyEach (b.addSupply c.denom c.amount) rest

def subSupplyEach (b : Bank) : Coins → Outcome SdkError Bank
  | [] => .ok b
  | c :: rest =>
    if b.supply c.denom < c.amount then .panic "negative coin amount"
    else subSupplyEach (b.addSupply c.denom (-c.amount)) rest

/-- `MintCoins` of a module with the permission. -/
def mintCoins (b : Bank) (moduleAddr : AccAddress) (amt : Coins) : Outcome SdkError Bank := do
  let b ← b.addCoins moduleAddr amt
  b.addSupplyEach amt

/-- `BurnCoins` of a module with the permission. -/
def burnCoins (b : Bank) (moduleAddr : AccAddress) (amt : Coins) : Outcome SdkError Bank := do
  let b ← b.subUnlockedCoins moduleAddr amt
  b.subSupplyEach amt

/-! ## Several coins -/

/-- Coins of different denominations can be taken off if the account has each of them. -/
theorem subEach_ok {b : Bank} {a : AccAddress} {amt : Coins} (hnodup : (amt.map Coin.denom).Nodup)
    (h : ∀ c ∈ amt, c.amount ≤ b.balance a c.denom) : ∃ b', b.subEach a amt = .ok b' := by
  induction amt generalizing b with
  | nil => exact ⟨b, rfl⟩
  | cons c rest ih =>
    rw [List.map_cons, List.nodup_cons] at hnodup
    obtain ⟨hc, hrest⟩ := List.forall_mem_cons.mp h
    obtain ⟨b', hb'⟩ := ih (b := b.addBalance a c.denom (-c.amount)) hnodup.2 (by
      intro c' hc'
      have hne : c'.denom ≠ c.denom := fun heq => hnodup.1 (heq ▸ List.mem_map_of_mem hc')
      rw [addBalance_balance, if_neg (fun heq => hne heq.2), add_zero]
      exact hrest c' hc')
    refine ⟨b', ?_⟩
    rw [subEach, Outcome.check_bind_eq_ok, Outcome.failIf_eq_ok, not_lt]
    exact ⟨hc, hb'⟩

theorem sendCoins_ok {b : Bank} {x y : AccAddress} {amt : Coins} (hv : amt.IsValid)
    (h : ∀ c ∈ amt, c.amount ≤ b.balance x c.denom) : ∃ b', b.sendCoins x y amt = .ok b' := by
  have hnodup : (amt.map Coin.denom).Nodup := List.pairwise_map.mpr (hv.2.imp ne_of_lt)
  obtain ⟨b₁, hsub⟩ := subEach_ok hnodup h
  refine ⟨b₁.addEach y amt, ?_⟩
  simp only [sendCoins, subUnlockedCoins, addCoins, Outcome.bind_eq_ok, Outcome.failIf_eq_ok, not_not]
  exact ⟨b₁, ⟨(), hv, hsub⟩, (), hv, rfl⟩

theorem addEach_inv (b : Bank) (x : AccAddress) (amt : Coins) :
    (∀ a d, (b.addEach x amt).balance a d = b.balance a d + if a = x then amt.total d else 0) ∧
      (b.addEach x amt).supply = b.supply := by
  induction amt generalizing b with
  | nil => exact ⟨fun a d => by simp [addEach, Coins.total], rfl⟩
  | cons c rest ih =>
    obtain ⟨hbalance, hsupply⟩ := ih (b.addBalance x c.denom c.amount)
    refine ⟨?_, hsupply⟩
    intro a d
    rw [addEach, hbalance, addBalance_balance, Coins.total_cons]
    grind

theorem subEach_inv {b b' : Bank} {x : AccAddress} {amt : Coins} (h : b.subEach x amt = .ok b') :
    (∀ a d, b'.balance a d = b.balance a d - if a = x then amt.total d else 0) ∧ b'.supply = b.supply := by
  induction amt generalizing b with
  | nil =>
    cases h
    exact ⟨fun a d => by simp [Coins.total], rfl⟩
  | cons c rest ih =>
    obtain ⟨_, h⟩ := Outcome.check_bind_eq_ok.mp h
    obtain ⟨hbalance, hsupply⟩ := ih h
    refine ⟨?_, hsupply⟩
    intro a d
    rw [hbalance, addBalance_balance, Coins.total_cons]
    grind

/-- What a send moves. -/
theorem sendCoins_inv {b b' : Bank} {x y : AccAddress} {amt : Coins} (h : b.sendCoins x y amt = .ok b') :
    (∀ a d, b'.balance a d = b.balance a d - (if a = x then amt.total d else 0)
      + if a = y then amt.total d else 0) ∧ b'.supply = b.supply := by
  obtain ⟨b₁, hsub, hadd⟩ := Outcome.bind_eq_ok.mp h
  obtain ⟨_, hsub⟩ := Outcome.check_bind_eq_ok.mp hsub
  obtain ⟨_, hadd⟩ := Outcome.check_bind_eq_ok.mp hadd
  cases hadd
  obtain ⟨hbalance, hsupply⟩ := subEach_inv hsub
  obtain ⟨hbalance', hsupply'⟩ := addEach_inv b₁ y amt
  refine ⟨?_, hsupply'.trans hsupply⟩
  intro a d
  rw [hbalance', hbalance]

/-! ## One coin -/

theorem isValid_singleton {c : Coin} :
    Coins.IsValid [c] ↔ validDenom c.denom = true ∧ 0 < c.amount := by
  simp [Coins.IsValid]

theorem subUnlockedCoins_one {b b' : Bank} {a : AccAddress} {c : Coin} (hv : Coins.IsValid [c]) :
    b.subUnlockedCoins a [c] = .ok b' ↔
      c.amount ≤ b.balance a c.denom ∧ b' = b.addBalance a c.denom (-c.amount) := by
  simp only [subUnlockedCoins, subEach, Outcome.check_bind_eq_ok, Outcome.failIf_eq_ok, not_not, hv,
    true_and, not_lt, Outcome.ok.injEq]
  exact and_congr_right (fun _ => eq_comm)

theorem addCoins_one (b : Bank) (a : AccAddress) {c : Coin} (hv : Coins.IsValid [c]) :
    b.addCoins a [c] = .ok (b.addBalance a c.denom c.amount) := by
  rw [addCoins, Outcome.check_bind_eq_ok, Outcome.failIf_eq_ok, not_not]
  exact ⟨hv, rfl⟩

theorem sendCoins_one {b b' : Bank} {x y : AccAddress} {c : Coin} (hv : Coins.IsValid [c]) :
    b.sendCoins x y [c] = .ok b' ↔ c.amount ≤ b.balance x c.denom ∧
      b' = (b.addBalance x c.denom (-c.amount)).addBalance y c.denom c.amount := by
  rw [sendCoins, Outcome.bind_eq_ok]
  refine ⟨?_, ?_⟩
  · intro h
    obtain ⟨b₁, hsub, hadd⟩ := h
    obtain ⟨hle, rfl⟩ := (subUnlockedCoins_one hv).mp hsub
    rw [addCoins_one _ _ hv] at hadd
    exact ⟨hle, (Outcome.ok.inj hadd).symm⟩
  · intro h
    obtain ⟨hle, rfl⟩ := h
    exact ⟨_, (subUnlockedCoins_one hv).mpr ⟨hle, rfl⟩, addCoins_one _ _ hv⟩

theorem mintCoins_one {b b' : Bank} {a : AccAddress} {c : Coin} (hv : Coins.IsValid [c])
    (h : b.mintCoins a [c] = .ok b') :
    b' = (b.addBalance a c.denom c.amount).addSupply c.denom c.amount := by
  simp only [mintCoins, addCoins_one _ _ hv, Outcome.ok_bind, addSupplyEach, Outcome.bind_eq_ok,
    Outcome.ok.injEq] at h
  obtain ⟨_, _, h⟩ := h
  exact h.symm

theorem burnCoins_one {b b' : Bank} {a : AccAddress} {c : Coin} (hv : Coins.IsValid [c])
    (h : b.burnCoins a [c] = .ok b') :
    b' = (b.addBalance a c.denom (-c.amount)).addSupply c.denom (-c.amount) := by
  obtain ⟨b₁, hsub, hsupply⟩ := Outcome.bind_eq_ok.mp h
  obtain ⟨_, rfl⟩ := (subUnlockedCoins_one hv).mp hsub
  simp only [subSupplyEach] at hsupply
  split_ifs at hsupply
  exact (Outcome.ok.inj hsupply).symm

end Bank

theorem newCoins_of_pos {ε : Type} {c : Coin} (hv : validDenom c.denom = true)
    (hpos : 0 < c.amount) : (newCoins c : Outcome ε Coins) = .ok [c] := by
  rw [newCoins, if_neg hpos.ne', if_neg (by simp [hv]), if_neg hpos.not_gt]

end Sdk
