import DoChain.Lib.Outcome
import DoChain.Lib.SortedMap
import DoChain.Lib.Trace
import DoChain.Sdk.Types

/- One validator, one power (`custom/staking/module.go`).

   The module wraps the SDK's staking module. `endBlock` is its `EndBlock`: it runs
   the SDK's `EndBlocker`, stores the full list of equal-power updates, and returns
   the SDK's own updates with every positive power set to one. `InitGenesis` is the
   SDK's, with stake-weighted powers.

   The SDK's keeper is code outside the module: `StakingKeeper` has its calls and
   the two laws the module relies on. `EndBlocker` returns exactly the bonded
   validators whose stake-weighted power changed, with power zero for those that
   left, and storing the updates changes no power.

   CometBFT folds the lists into its validator set. `equal_power_iff` says for which
   runs the set is, after every block, the bonded validators with power one each:
   those in whose first block every genesis validator with another power changes its
   stake-weighted power or leaves. -/

namespace Staking

open Sdk

variable {Key σ : Type} [LinearOrder Key]

/-- `core.ReplayWriteOptimizationHeight`. -/
def replayWriteOptimizationHeight : Int := 2547000

def equalValidatorConsensusPower : Int := 1

/-- `abci.ValidatorUpdate`. -/
structure ValidatorUpdate (Key : Type) where
  pubKey : Key
  power : Int
  deriving DecidableEq, Repr

/-- A bonded validator; its consensus key may fail to convert. -/
structure Validator (Key : Type) where
  tmConsPublicKey : Except SdkError Key

/-- The updates list the keys whose power differs between the two maps, each once,
with the new power or zero. -/
structure IsDiff (old new : SortedMap Key Int) (us : List (ValidatorUpdate Key)) : Prop where
  nodup : (us.map ValidatorUpdate.pubKey).Nodup
  mem : ∀ k p, ⟨k, p⟩ ∈ us ↔ (new.get k = some p ∧ old.get k ≠ some p) ∨
    (p = 0 ∧ new.get k = none ∧ old.get k ≠ none)

/-- The SDK's staking keeper. `powers` are the stake-weighted powers of the bonded
validators, by consensus key, as of the last `EndBlocker`. -/
structure StakingKeeper (Key σ : Type) [LinearOrder Key] where
  endBlocker : σ → Outcome SdkError (List (ValidatorUpdate Key) × σ)
  getBondedValidatorsByPower : σ → Outcome SdkError (List (Validator Key))
  getValidatorUpdates : σ → Outcome SdkError (List (ValidatorUpdate Key))
  setValidatorUpdates : σ → List (ValidatorUpdate Key) → Outcome SdkError σ
  powers : σ → SortedMap Key Int
  powers_pos : ∀ st k p, (powers st).get k = some p → 0 < p
  endBlocker_diff : ∀ st us st', endBlocker st = .ok (us, st') →
    IsDiff (powers st) (powers st') us
  setValidatorUpdates_powers : ∀ st us st', setValidatorUpdates st us = .ok st' →
    powers st' = powers st

variable (K : StakingKeeper Key σ)

/-! ## EndBlock -/

def equalPowerValidatorUpdate (v : Validator Key) : Outcome SdkError (ValidatorUpdate Key) := do
  let pubKey ← .ofExcept id v.tmConsPublicKey
  .ok ⟨pubKey, equalValidatorConsensusPower⟩

/-- The equal-power updates of the active validators, one after another. -/
def activeUpdates : List (Validator Key) → Outcome SdkError (List (ValidatorUpdate Key))
  | [] => .ok []
  | v :: rest => do
    let update ← equalPowerValidatorUpdate v
    let updates ← activeUpdates rest
    .ok (update :: updates)

def fullEqualValidatorPowerUpdates (st : σ) (standardUpdates : List (ValidatorUpdate Key)) :
    Outcome SdkError (List (ValidatorUpdate Key)) := do
  let activeValidators ← K.getBondedValidatorsByPower st
  let active ← activeUpdates activeValidators
  .ok (standardUpdates.filter (fun u => u.power = 0) ++ active)

def compactEqualValidatorPowerUpdates (standardUpdates : List (ValidatorUpdate Key)) :
    List (ValidatorUpdate Key) :=
  standardUpdates.map (fun u => if 0 < u.power then { u with power := equalValidatorConsensusPower }
    else u)

def replayWriteOptimizationActive (height : Int) : Bool :=
  decide (replayWriteOptimizationHeight ≤ height)

/-- The stored updates need no write: nothing changed, and there are some. -/
def writeNotNeeded (height : Int) (st : σ) (standardUpdates : List (ValidatorUpdate Key)) :
    Outcome SdkError Bool :=
  if replayWriteOptimizationActive height ∧ standardUpdates = [] then do
    let existingUpdates ← K.getValidatorUpdates st
    .ok (existingUpdates ≠ [])
  else .ok false

/-- `AppModule.EndBlock`. -/
def endBlock (height : Int) (st : σ) : Outcome SdkError (List (ValidatorUpdate Key) × σ) := do
  let (standardUpdates, st) ← K.endBlocker st
  let storedUpdates ← fullEqualValidatorPowerUpdates K st standardUpdates
  let skip ← writeNotNeeded K height st standardUpdates
  if skip then .ok ([], st)
  else do
    let st ← K.setValidatorUpdates st storedUpdates
    .ok (compactEqualValidatorPowerUpdates standardUpdates, st)

variable {K}

/-- `EndBlock` returns the compacted updates of the SDK's `EndBlocker`, and leaves
the powers it leaves. -/
theorem endBlock_inv {height : Int} {st st' : σ} {us : List (ValidatorUpdate Key)}
    (h : endBlock K height st = .ok (us, st')) :
    ∃ std, us = compactEqualValidatorPowerUpdates std ∧
      IsDiff (K.powers st) (K.powers st') std := by
  simp only [endBlock, Outcome.bind_eq_ok] at h
  obtain ⟨⟨std, st₁⟩, hend, _, _, skip, hskip, h⟩ := h
  have hdiff := K.endBlocker_diff _ _ _ hend
  refine ⟨std, ?_⟩
  cases skip with
  | true =>
    cases h
    -- the write is only skipped when there are no updates
    simp only [writeNotNeeded] at hskip
    split_ifs at hskip with hc
    · exact ⟨by rw [hc.2]; rfl, hdiff⟩
    · cases hskip
  | false =>
    obtain ⟨st₂, hset, h⟩ := Outcome.bind_eq_ok.mp h
    cases h
    rw [K.setValidatorUpdates_powers _ _ _ hset]
    exact ⟨rfl, hdiff⟩

/-! ## CometBFT -/

/-- CometBFT's validator set after an update list: power zero removes. -/
def applyUpdates (set : SortedMap Key Int) (us : List (ValidatorUpdate Key)) : SortedMap Key Int :=
  set.patch (us.map (fun u => (u.pubKey, if u.power = 0 then none else some u.power)))

/-- The staking state with CometBFT's validator set. -/
structure Chain (Key σ : Type) [LinearOrder Key] where
  staking : σ
  comet : SortedMap Key Int

/-- The chain after `InitGenesis`, which returns every bonded validator with its
stake-weighted power. -/
structure Genesis (K : StakingKeeper Key σ) where
  staking : σ
  updates : List (ValidatorUpdate Key)
  stake_weighted : IsDiff SortedMap.empty (K.powers staking) updates

def Genesis.chain (g : Genesis K) : Chain Key σ := ⟨g.staking, applyUpdates SortedMap.empty g.updates⟩

/-- A block: its transactions leave a staking state with the same last powers, and
`EndBlock` takes it from there. -/
structure Block (K : StakingKeeper Key σ) where
  before : Chain Key σ
  height : Int
  staked : σ
  staked_powers : K.powers staked = K.powers before.staking
  updates : List (ValidatorUpdate Key)
  ended : σ
  endBlock_ok : endBlock K height staked = .ok (updates, ended)

def Block.after (b : Block K) : Chain Key σ := ⟨b.ended, applyUpdates b.before.comet b.updates⟩

/-- CometBFT has exactly the bonded validators, each with power one. -/
def OneEach (K : StakingKeeper Key σ) (c : Chain Key σ) : Prop :=
  ∀ k, c.comet.get k = ((K.powers c.staking).get k).map (fun _ => 1)

/-! ## One block -/

theorem get_applyUpdates_of_mem {us : List (ValidatorUpdate Key)}
    (hnd : (us.map ValidatorUpdate.pubKey).Nodup) {u : ValidatorUpdate Key} (hu : u ∈ us)
    (set : SortedMap Key Int) :
    (applyUpdates set us).get u.pubKey = if u.power = 0 then none else some u.power := by
  apply SortedMap.get_patch_of_mem
  · rw [List.map_map]
    exact hnd
  · exact List.mem_map.mpr ⟨u, hu, rfl⟩

theorem get_applyUpdates_of_notMem {us : List (ValidatorUpdate Key)} {k : Key}
    (hk : ∀ u ∈ us, u.pubKey ≠ k) (set : SortedMap Key Int) :
    (applyUpdates set us).get k = set.get k := by
  apply SortedMap.get_patch_of_notMem
  rw [List.map_map, List.mem_map]
  intro h
  obtain ⟨u, hu, heq⟩ := h
  exact hk u hu heq

/-- A key that no update lists has the same power in both maps. -/
theorem IsDiff.get_eq {old new : SortedMap Key Int} {us : List (ValidatorUpdate Key)}
    (h : IsDiff old new us) {k : Key} (hk : ∀ u ∈ us, u.pubKey ≠ k) : new.get k = old.get k := by
  by_contra hne
  cases hn : new.get k with
  | none =>
    rw [hn] at hne
    exact hk ⟨k, 0⟩ ((h.mem k 0).mpr (.inr ⟨rfl, hn, fun ho => hne ho.symm⟩)) rfl
  | some p =>
    rw [hn] at hne
    exact hk ⟨k, p⟩ ((h.mem k p).mpr (.inl ⟨hn, fun ho => hne ho.symm⟩)) rfl

/-- What the compacted updates make of the validator set: a changed key has power
one or is gone, and any other keeps what it had. -/
theorem get_applyUpdates_compact {old new set : SortedMap Key Int}
    {std : List (ValidatorUpdate Key)} (h : IsDiff old new std)
    (hpos : ∀ k p, new.get k = some p → 0 < p) (k : Key) :
    (applyUpdates set (compactEqualValidatorPowerUpdates std)).get k =
      if new.get k = old.get k then set.get k else (new.get k).map (fun _ => 1) := by
  have hkeys : (compactEqualValidatorPowerUpdates std).map ValidatorUpdate.pubKey =
      std.map ValidatorUpdate.pubKey := by
    rw [compactEqualValidatorPowerUpdates, List.map_map]
    apply List.map_congr_left
    intro u _
    simp only [Function.comp_apply]
    split_ifs <;> rfl
  by_cases hmem : ∃ u ∈ std, u.pubKey = k
  · obtain ⟨⟨k', p⟩, hu, rfl⟩ := hmem
    have hnd : ((compactEqualValidatorPowerUpdates std).map ValidatorUpdate.pubKey).Nodup := by
      rw [hkeys]
      exact h.nodup
    cases (h.mem k' p).mp hu with
    | inl hchanged =>
      obtain ⟨hn, ho⟩ := hchanged
      have hp := hpos k' p hn
      have hu' : ⟨k', 1⟩ ∈ compactEqualValidatorPowerUpdates std :=
        List.mem_map.mpr ⟨⟨k', p⟩, hu, by rw [if_pos hp]; rfl⟩
      rw [get_applyUpdates_of_mem hnd hu', if_neg one_ne_zero, hn, if_neg (fun h => ho h.symm)]
      rfl
    | inr hgone =>
      obtain ⟨rfl, hn, ho⟩ := hgone
      have hu' : ⟨k', 0⟩ ∈ compactEqualValidatorPowerUpdates std :=
        List.mem_map.mpr ⟨⟨k', 0⟩, hu, if_neg (lt_irrefl 0)⟩
      rw [get_applyUpdates_of_mem hnd hu', if_pos rfl, hn, if_neg (fun h => ho h.symm)]
      rfl
  · have hstd : ∀ u ∈ std, u.pubKey ≠ k := by
      intro u hu heq
      exact hmem ⟨u, hu, heq⟩
    rw [if_pos (h.get_eq hstd)]
    apply get_applyUpdates_of_notMem
    intro u hu heq
    have hin : u.pubKey ∈ std.map ValidatorUpdate.pubKey := by
      rw [← hkeys]
      exact List.mem_map_of_mem hu
    obtain ⟨u', hu', heq'⟩ := List.mem_map.mp hin
    exact hstd u' hu' (heq'.trans heq)

theorem Block.get_comet (b : Block K) (k : Key) :
    b.after.comet.get k =
      if (K.powers b.ended).get k = (K.powers b.before.staking).get k then b.before.comet.get k
      else ((K.powers b.ended).get k).map (fun _ => 1) := by
  obtain ⟨std, hus, hdiff⟩ := endBlock_inv b.endBlock_ok
  rw [b.staked_powers] at hdiff
  rw [Block.after, hus]
  exact get_applyUpdates_compact hdiff (K.powers_pos b.ended) k

/-- A block keeps a set of equal powers. -/
theorem Block.oneEach_after (b : Block K) (h : OneEach K b.before) : OneEach K b.after := by
  intro k
  rw [b.get_comet k, h k]
  split_ifs with heq
  · rw [← heq]
    rfl
  · rfl

/-! ## Runs from genesis -/

/-- CometBFT starts with the stake-weighted powers. -/
theorem Genesis.get_comet (g : Genesis K) (k : Key) :
    g.chain.comet.get k = (K.powers g.staking).get k := by
  by_cases hmem : ∃ u ∈ g.updates, u.pubKey = k
  · obtain ⟨⟨k', p⟩, hu, rfl⟩ := hmem
    rw [Genesis.chain, get_applyUpdates_of_mem g.stake_weighted.nodup hu]
    cases (g.stake_weighted.mem k' p).mp hu with
    | inl hin =>
      have hp := K.powers_pos _ _ _ hin.1
      rw [if_neg hp.ne', hin.1]
    | inr hgone => exact absurd rfl hgone.2.2
  · have hno : ∀ u ∈ g.updates, u.pubKey ≠ k := by
      intro u hu heq
      exact hmem ⟨u, hu, heq⟩
    rw [Genesis.chain, get_applyUpdates_of_notMem hno, g.stake_weighted.get_eq hno]

/-- After every block of a run from genesis CometBFT has exactly the bonded validators
with power one each, if and only if in the first block every genesis validator with a
power other than one changes its stake-weighted power or leaves. -/
theorem equal_power_iff (K : StakingKeeper Key σ) (g : Genesis K) (first : Block K)
    (rest : List (Block K)) (last : Chain Key σ)
    (hrun : Trace Block.before Block.after g.chain (first :: rest) last) :
    (∀ b ∈ first :: rest, OneEach K b.after) ↔
      ∀ k p, (K.powers g.staking).get k = some p → p ≠ 1 →
        (K.powers first.ended).get k ≠ some p := by
  obtain ⟨hstart, hrest⟩ := hrun.cons_inv
  have hfirst : OneEach K first.after ↔ ∀ k p, (K.powers g.staking).get k = some p → p ≠ 1 →
      (K.powers first.ended).get k ≠ some p := by
    have hget (k : Key) := first.get_comet k
    simp only [hstart, g.get_comet] at hget
    refine ⟨?_, ?_⟩
    · intro hone k p hp hne hsame
      have hk := (hget k).symm.trans (hone k)
      rw [show g.chain.staking = g.staking from rfl, hp, hsame, if_pos rfl] at hk
      rw [show first.after.staking = first.ended from rfl, hsame] at hk
      exact hne (Option.some.inj hk)
    · intro hcond k
      rw [hget k, show g.chain.staking = g.staking from rfl,
        show first.after.staking = first.ended from rfl]
      split_ifs with hsame
      · cases hp : (K.powers g.staking).get k with
        | none => rw [hsame, hp]; rfl
        | some p =>
          have hp1 : p = 1 := by
            by_contra hne
            exact hcond k p hp hne (hsame.trans hp)
          rw [hsame, hp, hp1]
          rfl
      · rfl
  refine ⟨?_, ?_⟩
  · intro hall
    exact hfirst.mp (hall first List.mem_cons_self)
  · intro hcond b hb
    have hone := hfirst.mpr hcond
    cases List.mem_cons.mp hb with
    | inl heq => exact heq ▸ hone
    | inr hb => exact (hrest.always (fun b _ => Block.oneEach_after b) hone b hb).2

/-! ## One validator

A keeper whose state holds the powers the next `EndBlocker` will find, and a chain
with one validator that starts with power ten. -/

namespace Sample

/-- The changes from one power map to another. -/
def diff (old new : SortedMap String Int) : List (ValidatorUpdate String) :=
  (new.entries.filter (fun e => old.get e.1 ≠ some e.2)).map (fun e => ⟨e.1, e.2⟩) ++
    (old.entries.filter (fun e => new.get e.1 = none)).map (fun e => ⟨e.1, 0⟩)

theorem isDiff_diff (old new : SortedMap String Int) : IsDiff old new (diff old new) where
  nodup := by
    rw [diff, List.map_append, List.map_map, List.map_map]
    refine List.nodup_append.mpr ⟨?_, ?_, ?_⟩
    · exact new.keys_nodup.sublist (List.filter_sublist.map _)
    · exact old.keys_nodup.sublist (List.filter_sublist.map _)
    · -- a listed key is in the new map in the first part and not in the second
      intro k hk k' hk' heq
      obtain ⟨⟨x, p⟩, hx, rfl⟩ := List.mem_map.mp hk
      obtain ⟨⟨y, q⟩, hy, rfl⟩ := List.mem_map.mp hk'
      have hin := SortedMap.get_eq_some.mpr (List.mem_filter.mp hx).1
      have hout := of_decide_eq_true (List.mem_filter.mp hy).2
      simp only [Function.comp_apply] at heq hout
      rw [← heq, hin] at hout
      cases hout
  mem := by
    intro k p
    simp only [diff, List.mem_append, List.mem_map, List.mem_filter, decide_eq_true_eq]
    refine or_congr ?_ ?_
    · refine ⟨?_, ?_⟩
      · intro h
        obtain ⟨⟨x, q⟩, ⟨hin, hne⟩, heq⟩ := h
        cases heq
        exact ⟨SortedMap.get_eq_some.mpr hin, hne⟩
      · intro ⟨hin, hne⟩
        exact ⟨(k, p), ⟨SortedMap.get_eq_some.mp hin, hne⟩, rfl⟩
    · refine ⟨?_, ?_⟩
      · intro h
        obtain ⟨⟨x, q⟩, ⟨hin, hout⟩, heq⟩ := h
        cases heq
        refine ⟨rfl, hout, ?_⟩
        rw [SortedMap.get_eq_some.mpr hin]
        exact Option.some_ne_none q
      · intro ⟨hp, hout, hin⟩
        obtain ⟨q, hq⟩ := Option.ne_none_iff_exists'.mp hin
        exact ⟨(k, q), ⟨SortedMap.get_eq_some.mp hq, hout⟩, by rw [hp]⟩

/-- The last powers, those the next `EndBlocker` will find, and the stored updates. -/
structure Stakes where
  powers : SortedMap String Int
  target : SortedMap String Int
  stored : List (ValidatorUpdate String)
  powers_pos : ∀ k p, powers.get k = some p → 0 < p
  target_pos : ∀ k p, target.get k = some p → 0 < p

def keeper : StakingKeeper String Stakes where
  endBlocker := fun st =>
    .ok (diff st.powers st.target, ⟨st.target, st.target, st.stored, st.target_pos, st.target_pos⟩)
  getBondedValidatorsByPower := fun st => .ok (st.powers.entries.map (fun e => ⟨.ok e.1⟩))
  getValidatorUpdates := fun st => .ok st.stored
  setValidatorUpdates := fun st us => .ok ⟨st.powers, st.target, us, st.powers_pos, st.target_pos⟩
  powers := Stakes.powers
  powers_pos := Stakes.powers_pos
  endBlocker_diff := by
    intro st us st' h
    cases h
    exact isDiff_diff _ _
  setValidatorUpdates_powers := by
    intro st us st' h
    cases h
    rfl

/-- One validator with a power. -/
def one (p : Int) : SortedMap String Int := SortedMap.empty.set "validator" p

theorem one_pos {p : Int} (hp : 0 < p) (k : String) (q : Int) (h : (one p).get k = some q) :
    0 < q := by
  rw [one, SortedMap.get_set] at h
  split_ifs at h
  · exact Option.some.inj h ▸ hp
  · cases h

def stakes (now next : Int) (hnow : 0 < now) (hnext : 0 < next)
    (stored : List (ValidatorUpdate String)) : Stakes :=
  ⟨one now, one next, stored, one_pos hnow, one_pos hnext⟩

def genesis : Genesis keeper where
  staking := stakes 10 10 (by decide) (by decide) []
  updates := diff SortedMap.empty (one 10)
  stake_weighted := isDiff_diff _ _

/-- The first block, with nothing staked in it. -/
def quietBlock : Block keeper where
  before := genesis.chain
  height := 1
  staked := stakes 10 10 (by decide) (by decide) []
  staked_powers := rfl
  updates := []
  ended := stakes 10 10 (by decide) (by decide) [⟨"validator", 1⟩]
  endBlock_ok := rfl

/-- The first block, in which the validator's stake doubles. -/
def stakingBlock : Block keeper where
  before := genesis.chain
  height := 1
  staked := stakes 10 20 (by decide) (by decide) []
  staked_powers := rfl
  updates := [⟨"validator", 1⟩]
  ended := stakes 20 20 (by decide) (by decide) [⟨"validator", 1⟩]
  endBlock_ok := rfl

/-- After a first block without changes CometBFT still has the validator with the
stake-weighted power of genesis. -/
theorem quietBlock_keeps_genesis_power :
    quietBlock.before = genesis.chain ∧
    (keeper.powers quietBlock.after.staking).get "validator" = some 10 ∧
    quietBlock.after.comet.get "validator" = some 10 ∧ ¬ OneEach keeper quietBlock.after := by
  refine ⟨rfl, rfl, rfl, ?_⟩
  intro h
  exact absurd (h "validator") (by decide)

/-- Where the stake changes in the first block, the power is one from then on. -/
theorem stakingBlock_oneEach :
    stakingBlock.after.comet.get "validator" = some 1 ∧ OneEach keeper stakingBlock.after := by
  refine ⟨rfl, (equal_power_iff keeper genesis stakingBlock [] stakingBlock.after
    (.cons stakingBlock (.nil _))).mpr ?_ stakingBlock List.mem_cons_self⟩
  intro k p hp _ hsame
  have hten : (one 10).get k = some p := hp
  have htwenty : (one 20).get k = some p := hsame
  rw [one, SortedMap.get_set] at hten htwenty
  split_ifs at hten htwenty with hk
  · exact absurd (hten.trans htwenty.symm) (by decide)
  · cases hten

end Sample

end Staking
