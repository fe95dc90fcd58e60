import DoChain.Treasury.Policy

/- Export and import of the treasury (`x/treasury/genesis.go`).

   Correspondence (Go ↔ Lean):
     `types.GenesisState` ↔ `GenesisState`
     `InitGenesis`        ↔ `initGenesis`
     `ExportGenesis`      ↔ `exportGenesis`

   The checks that the module accounts exist are left out: the keeper is not built without
   them. `Reachable` are the worlds that an import, the end of blocks, proposals and changes
   of parameters lead to.

   The export has no place for the exemption list, and its epochs are those the height
   counts. `genesis_round_trip_iff` says for which stores nothing is lost. -/

namespace Treasury

open Sdk

structure TaxCap where
  denom : String
  taxCap : Int

structure EpochState where
  epoch : Nat
  taxReward : LegacyDec
  seigniorageReward : LegacyDec
  totalStakedDo : Int

structure GenesisState where
  params : Params
  taxRate : LegacyDec
  rewardWeight : LegacyDec
  taxCaps : List TaxCap
  taxProceeds : Coins
  epochInitialIssuance : Coins
  epochStates : List EpochState

/-- A store without entries; the parameters are set before they are read. -/
def Store.empty (params : Params) : Store where
  params := params
  taxRate := none
  rewardWeight := none
  taxCaps := .empty
  taxProceeds := none
  epochInitialIssuance := none
  taxRewards := .empty
  seigniorageRewards := .empty
  totalStaked := .empty
  burnTaxExemptions := .empty

def setEpochState (s : Store) (e : EpochState) : Store :=
  setTSL (setSR (setTR s e.epoch e.taxReward) e.epoch e.seigniorageReward) e.epoch e.totalStakedDo

/-- An empty issuance is taken from the supply. -/
def initIssuance (w : World) (issuance : Coins) : World :=
  if coinsIsZero issuance then recordEpochInitialIssuance w
  else { w with store := setEpochInitialIssuance w.store issuance }

def initGenesis (env : Env) (w : World) (data : GenesisState) : Outcome SdkError World := do
  let store ← setParams env w.store data.params
  let store := setTaxRate store data.taxRate
  let store := setRewardWeight store data.rewardWeight
  let store := setEpochTaxProceeds store data.taxProceeds
  let w := initIssuance { w with store } data.epochInitialIssuance
  let store := data.taxCaps.foldl (fun s cap => setTaxCap s cap.denom cap.taxCap) w.store
  let store := data.epochStates.foldl setEpochState store
  .ok { w with store }

/-- The epochs that have ended: the current one too, at its last block. -/
def endedEpochs (w : World) : Nat := if IsPeriodLastBlock w then getEpoch w + 1 else getEpoch w

def exportGenesis (w : World) : GenesisState where
  params := w.store.params
  taxRate := getTaxRate w.store
  rewardWeight := getRewardWeight w.store
  taxCaps := w.store.taxCaps.entries.map fun e => ⟨e.1, e.2⟩
  taxProceeds := peekEpochTaxProceeds w.store
  epochInitialIssuance := getEpochInitialIssuance w.store
  epochStates := (List.range (endedEpochs w)).map fun e =>
    ⟨e, getTR w.store e, getSR w.store e, getTSL w.store e⟩

/-! ## Reachable worlds -/

/-- The upgrade that ends the tax. -/
def endTax (env : Env) (s : Store) : Outcome SdkError Store :=
  let s := setTaxRate s .zero
  setParams env s { s.params with
    taxPolicy := { s.params.taxPolicy with rateMax := .zero, rateMin := .zero } }

/-- What writes to the treasury's store after its import. -/
inductive Update (env : Env) (w : World) : World → Prop where
  | endBlock {w'} : endBlocker env w = .ok w' → Update env w w'
  | recordTaxProceeds {s} (delta : Coins) :
      recordEpochTaxProceeds env w.store delta = .ok s → Update env w { w with store := s }
  | addExemptions {s} (addresses : List String) :
      handleAddBurnTaxExemptionAddressProposal env w.store addresses = .ok s →
        Update env w { w with store := s }
  | removeExemptions {s} (addresses : List String) :
      handleRemoveBurnTaxExemptionAddressProposal env w.store addresses = .ok s →
        Update env w { w with store := s }
  | changeParam (c : Change) : c.validate env = .ok () →
      Update env w { w with store := { w.store with params := c.apply w.store.params } }
  | endTax {s} : Treasury.endTax env w.store = .ok s → Update env w { w with store := s }
  /-- the other modules -/
  | other {w'} : w'.store = w.store → Update env w w'

inductive Reachable (env : Env) : World → Prop where
  | init {w₀ w : World} (data : GenesisState) : w₀.store = .empty w₀.store.params →
      initGenesis env w₀ data = .ok w → Reachable env w
  | step {w w' : World} : Reachable env w → Update env w w' → Reachable env w'

/-- Every key accepts its parameter. -/
def Params.Accepted (env : Env) (p : Params) : Prop := ∀ c ∈ p.paramSetPairs, c.validate env = .ok ()

theorem setParams_eq_ok {env : Env} {s s' : Store} {p : Params} :
    setParams env s p = .ok s' ↔ p.Accepted env ∧ s' = { s with params := p } := by
  rw [setParams, Outcome.check_bind_eq_ok, setParamSet_eq_ok, Outcome.ok.injEq, eq_comm (b := s')]
  rfl

/-- A change replaces one of the pairs. -/
theorem Change.paramSetPairs_apply (c : Change) (p : Params) :
    ∃ i, (c.apply p).paramSetPairs = p.paramSetPairs.set i c := by
  cases c with
  | taxPolicy v => exact ⟨0, rfl⟩
  | rewardPolicy v => exact ⟨1, rfl⟩
  | seigniorageBurdenTarget v => exact ⟨2, rfl⟩
  | miningIncrement v => exact ⟨3, rfl⟩
  | windowShort v => exact ⟨4, rfl⟩
  | windowLong v => exact ⟨5, rfl⟩
  | windowProbation v => exact ⟨6, rfl⟩
  | burnTaxSplit v => exact ⟨7, rfl⟩
  | minInitialDepositRatio v => exact ⟨8, rfl⟩
  | oracleSplit v => exact ⟨9, rfl⟩

theorem Change.apply_accepted {env : Env} {c : Change} {p : Params} (hc : c.validate env = .ok ())
    (hp : p.Accepted env) : (c.apply p).Accepted env := by
  obtain ⟨i, hpairs⟩ := c.paramSetPairs_apply p
  intro d hd
  rw [hpairs] at hd
  cases List.mem_or_eq_of_mem_set hd with
  | inl hold => exact hp d hold
  | inr heq => exact heq ▸ hc

theorem foldl_setTaxCap (caps : List TaxCap) (s : Store) :
    caps.foldl (fun s cap => setTaxCap s cap.denom cap.taxCap) s =
      { s with taxCaps := caps.foldl (fun m cap => m.set cap.denom cap.taxCap) s.taxCaps } := by
  induction caps generalizing s with
  | nil => rfl
  | cons cap rest ih =>
    rw [List.foldl_cons, ih]
    rfl

theorem foldl_setEpochState (es : List EpochState) (s : Store) :
    es.foldl setEpochState s =
      { s with
        taxRewards := es.foldl (fun m e => m.set e.epoch e.taxReward) s.taxRewards
        seigniorageRewards := es.foldl (fun m e => m.set e.epoch e.seigniorageReward) s.seigniorageRewards
        totalStaked := es.foldl (fun m e => m.set e.epoch e.totalStakedDo) s.totalStaked } := by
  induction es generalizing s with
  | nil => rfl
  | cons e rest ih =>
    rw [List.foldl_cons, ih]
    rfl

/-- The keys accept the parameters, and every single value is set. -/
structure Store.Filled (env : Env) (s : Store) : Prop where
  params : s.params.Accepted env
  rates : ∀ r : Rate, r.isSet s = true
  taxProceeds : s.taxProceeds.isSome = true
  epochInitialIssuance : s.epochInitialIssuance.isSome = true

theorem initIssuance_filled {env : Env} {w : World} {issuance : Coins} (hparams : w.store.params.Accepted env)
    (hrates : ∀ r : Rate, r.isSet w.store = true) (hproceeds : w.store.taxProceeds.isSome = true) :
    (initIssuance w issuance).store.Filled env := by
  unfold initIssuance
  split_ifs
  · exact ⟨hparams, hrates, hproceeds, rfl⟩
  · exact ⟨hparams, hrates, hproceeds, rfl⟩

theorem initGenesis_filled {env : Env} {w₀ w : World} {data : GenesisState}
    (h : initGenesis env w₀ data = .ok w) : w.store.Filled env := by
  obtain ⟨store, hparams, h⟩ := Outcome.bind_eq_ok.mp h
  obtain ⟨haccepted, rfl⟩ := setParams_eq_ok.mp hparams
  cases h
  simp only [foldl_setTaxCap, foldl_setEpochState]
  have hfilled : (initIssuance { w₀ with store := setEpochTaxProceeds (setRewardWeight (setTaxRate
      { w₀.store with params := data.params } data.taxRate) data.rewardWeight) data.taxProceeds }
      data.epochInitialIssuance).store.Filled env :=
    initIssuance_filled haccepted (fun r => by cases r <;> rfl) rfl
  exact ⟨hfilled.params, hfilled.rates, hfilled.taxProceeds, hfilled.epochInitialIssuance⟩

theorem endBlocker_filled {env : Env} {w w' : World} (h : endBlocker env w = .ok w')
    (hw : w.store.Filled env) : w'.store.Filled env := by
  obtain ⟨_, hstore | hstore⟩ := endBlocker_inv h
  · rw [hstore.2]
    exact hw
  · obtain ⟨_, hmoved, tr, sr, tsl, r, issuance, hstore⟩ := hstore
    refine ⟨?_, fun r => hmoved.isSet r (hw.rates r), ?_, ?_⟩
    · rw [endBlocker_params h]
      exact hw.params
    · rw [hstore]
      rfl
    · rw [hstore]
      rfl

theorem addBurnTaxExemptionAddress_filled {env : Env} {s s' : Store} {address : String}
    (h : addBurnTaxExemptionAddress env s address = .ok s') (hs : s.Filled env) : s'.Filled env := by
  obtain ⟨_, h⟩ := Outcome.check_bind_eq_ok.mp h
  cases h
  exact ⟨hs.params, hs.rates, hs.taxProceeds, hs.epochInitialIssuance⟩

theorem removeBurnTaxExemptionAddress_filled {env : Env} {s s' : Store} {address : String}
    (h : removeBurnTaxExemptionAddress env s address = .ok s') (hs : s.Filled env) : s'.Filled env := by
  obtain ⟨_, h⟩ := Outcome.check_bind_eq_ok.mp h
  obtain ⟨_, h⟩ := Outcome.check_bind_eq_ok.mp h
  cases h
  exact ⟨hs.params, hs.rates, hs.taxProceeds, hs.epochInitialIssuance⟩

theorem recordEpochTaxProceeds_filled {env : Env} {s s' : Store} {delta : Coins}
    (h : recordEpochTaxProceeds env s delta = .ok s') (hs : s.Filled env) : s'.Filled env := by
  unfold recordEpochTaxProceeds at h
  split_ifs at h with hzero
  · cases h
    exact hs
  · obtain ⟨proceeds, _, h⟩ := Outcome.bind_eq_ok.mp h
    cases h
    exact ⟨hs.params, hs.rates, rfl, hs.epochInitialIssuance⟩

/-- Parameters only change through the checks of their keys, and no value is deleted. -/
theorem Update.filled {env : Env} {w w' : World} (h : Update env w w')
    (hw : w.store.Filled env) : w'.store.Filled env := by
  cases h with
  | endBlock hrun => exact endBlocker_filled hrun hw
  | recordTaxProceeds delta hrun => exact recordEpochTaxProceeds_filled hrun hw
  | addExemptions addresses hrun =>
    exact Outcome.foldlM_invariant (P := fun s => s.Filled env)
      (fun s s' address _ hs hstep => addBurnTaxExemptionAddress_filled hstep hs) hw hrun
  | removeExemptions addresses hrun =>
    exact Outcome.foldlM_invariant (P := fun s => s.Filled env)
      (fun s s' address _ hs hstep => removeBurnTaxExemptionAddress_filled hstep hs) hw hrun
  | changeParam c hc =>
    exact ⟨Change.apply_accepted hc hw.params, hw.rates, hw.taxProceeds, hw.epochInitialIssuance⟩
  | endTax hrun =>
    obtain ⟨haccepted, rfl⟩ := setParams_eq_ok.mp hrun
    refine ⟨haccepted, ?_, hw.taxProceeds, hw.epochInitialIssuance⟩
    intro r
    cases r with
    | tax => rfl
    | reward => exact hw.rates .reward
  | other hstore =>
    rw [hstore]
    exact hw

theorem Reachable.filled {env : Env} {w : World} (h : Reachable env w) : w.store.Filled env := by
  induction h with
  | init data _ hrun => exact initGenesis_filled hrun
  | step _ hupdate ih => exact hupdate.filled ih

/-! ## The round trip -/

/-- A value for each of the first epochs. -/
def firstEpochs {V : Type} (n : Nat) (f : Nat → V) : SortedMap Nat V :=
  (List.range n).foldl (fun m e => m.set e (f e)) .empty

theorem get_firstEpochs {V : Type} (n : Nat) (f : Nat → V) (e : Nat) :
    (firstEpochs n f).get e = if e < n then some (f e) else none := by
  induction n with
  | zero => rfl
  | succ n ih =>
    have hlast : firstEpochs (n + 1) f = (firstEpochs n f).set n (f n) := by
      rw [firstEpochs, List.range_succ, List.foldl_append]
      rfl
    rw [hlast, SortedMap.get_set, ih]
    by_cases heq : e = n
    · rw [if_pos heq, if_pos (by omega), heq]
    · rw [if_neg heq]
      exact if_congr (by omega) rfl rfl

/-- What the export of a world imports as. -/
def importedStore (w : World) : Store where
  params := w.store.params
  taxRate := some (getTaxRate w.store)
  rewardWeight := some (getRewardWeight w.store)
  taxCaps := w.store.taxCaps
  taxProceeds := some (peekEpochTaxProceeds w.store)
  epochInitialIssuance := some (getEpochInitialIssuance w.store)
  taxRewards := firstEpochs (endedEpochs w) (getTR w.store)
  seigniorageRewards := firstEpochs (endedEpochs w) (getSR w.store)
  totalStaked := firstEpochs (endedEpochs w) (getTSL w.store)
  burnTaxExemptions := .empty

theorem initGenesis_exportGenesis {env : Env} {w : World} (haccepted : w.store.params.Accepted env)
    (hissuance : coinsIsZero (getEpochInitialIssuance w.store) = false) (w₀ : World) (p : Params) :
    initGenesis env { w₀ with store := .empty p } (exportGenesis w) = .ok { w₀ with store := importedStore w } := by
  refine Outcome.bind_eq_ok.mpr ⟨_, setParams_eq_ok.mpr ⟨haccepted, rfl⟩, ?_⟩
  have hcaps : (exportGenesis w).taxCaps.foldl (fun m cap => m.set cap.denom cap.taxCap) SortedMap.empty =
      w.store.taxCaps := by
    rw [exportGenesis, List.foldl_map]
    exact w.store.taxCaps.foldl_set_entries
  simp only [initIssuance, exportGenesis, hissuance, Bool.false_eq_true, if_false, foldl_setTaxCap,
    foldl_setEpochState] at hcaps ⊢
  simp only [setEpochInitialIssuance, setEpochTaxProceeds, setRewardWeight, setTaxRate, Store.empty, hcaps,
    List.foldl_map]
  rfl

/-- Every entry of the first store is in the second. -/
structure Reproduces (s s' : Store) : Prop where
  params : s'.params = s.params
  taxRate : ∀ rate, s.taxRate = some rate → s'.taxRate = some rate
  rewardWeight : ∀ weight, s.rewardWeight = some weight → s'.rewardWeight = some weight
  taxCaps : s'.taxCaps = s.taxCaps
  taxProceeds : ∀ coins, s.taxProceeds = some coins → s'.taxProceeds = some coins
  epochInitialIssuance : ∀ coins, s.epochInitialIssuance = some coins → s'.epochInitialIssuance = some coins
  taxRewards : ∀ e tr, s.taxRewards.get e = some tr → s'.taxRewards.get e = some tr
  seigniorageRewards : ∀ e sr, s.seigniorageRewards.get e = some sr → s'.seigniorageRewards.get e = some sr
  totalStaked : ∀ e tsl, s.totalStaked.get e = some tsl → s'.totalStaked.get e = some tsl
  burnTaxExemptions : s'.burnTaxExemptions = s.burnTaxExemptions

/-- No address is exempted, and nothing is recorded for an epoch that has not ended. -/
structure Exportable (w : World) : Prop where
  burnTaxExemptions : w.store.burnTaxExemptions.entries = []
  taxRewards : ∀ e ∈ w.store.taxRewards.entries, e.1 < endedEpochs w
  seigniorageRewards : ∀ e ∈ w.store.seigniorageRewards.entries, e.1 < endedEpochs w
  totalStaked : ∀ e ∈ w.store.totalStaked.entries, e.1 < endedEpochs w

/-- Every epoch that has ended has its indicators. -/
structure Complete (w : World) : Prop where
  taxRewards : ∀ e < endedEpochs w, (w.store.taxRewards.get e).isSome = true
  seigniorageRewards : ∀ e < endedEpochs w, (w.store.seigniorageRewards.get e).isSome = true
  totalStaked : ∀ e < endedEpochs w, (w.store.totalStaked.get e).isSome = true

/-- The first epochs of a record hold all of it if it has no others. -/
theorem firstEpochs_reproduces {V : Type} {m : SortedMap Nat V} {n : Nat} {f : Nat → V}
    (hf : ∀ e v, m.get e = some v → f e = v) :
    (∀ e v, m.get e = some v → (firstEpochs n f).get e = some v) ↔ ∀ e ∈ m.entries, e.1 < n := by
  refine ⟨?_, ?_⟩
  · intro h e he
    have hget := h e.1 e.2 (SortedMap.get_eq_some.mpr he)
    rw [get_firstEpochs] at hget
    by_contra hlate
    rw [if_neg hlate] at hget
    cases hget
  · intro h e v hget
    rw [get_firstEpochs, if_pos (h (e, v) (SortedMap.get_eq_some.mp hget)), hf e v hget]

/-- They are the record if it has all of them, too. -/
theorem firstEpochs_eq_iff {V : Type} {m : SortedMap Nat V} {n : Nat} {f : Nat → V}
    (hf : ∀ e v, m.get e = some v → f e = v) :
    firstEpochs n f = m ↔ (∀ e ∈ m.entries, e.1 < n) ∧ ∀ e < n, (m.get e).isSome = true := by
  rw [← firstEpochs_reproduces hf]
  refine ⟨?_, ?_⟩
  · intro h
    refine ⟨fun e v hget => h ▸ hget, ?_⟩
    intro e he
    rw [← h, get_firstEpochs, if_pos he]
    rfl
  · intro h
    apply SortedMap.ext_get
    intro e
    cases hget : m.get e with
    | some v => exact h.1 e v hget
    | none =>
      have hlate : ¬ e < n := by
        intro he
        have hsome := h.2 e he
        rw [hget] at hsome
        cases hsome
      rw [get_firstEpochs, if_neg hlate]

theorem getTR_of_get {s : Store} {e : Nat} {tr : LegacyDec} (h : s.taxRewards.get e = some tr) :
    getTR s e = tr := by
  rw [getTR, h]
  rfl

theorem getSR_of_get {s : Store} {e : Nat} {sr : LegacyDec} (h : s.seigniorageRewards.get e = some sr) :
    getSR s e = sr := by
  rw [getSR, h]
  rfl

theorem getTSL_of_get {s : Store} {e : Nat} {tsl : Int} (h : s.totalStaked.get e = some tsl) :
    getTSL s e = tsl := by
  rw [getTSL, h]
  rfl

theorem reproduces_importedStore_iff (w : World) : Reproduces w.store (importedStore w) ↔ Exportable w := by
  have htr := firstEpochs_reproduces (n := endedEpochs w) fun _ _ => getTR_of_get (s := w.store)
  have hsr := firstEpochs_reproduces (n := endedEpochs w) fun _ _ => getSR_of_get (s := w.store)
  have htsl := firstEpochs_reproduces (n := endedEpochs w) fun _ _ => getTSL_of_get (s := w.store)
  refine ⟨?_, ?_⟩
  · intro h
    refine ⟨?_, htr.mp h.taxRewards, hsr.mp h.seigniorageRewards, htsl.mp h.totalStaked⟩
    rw [← h.burnTaxExemptions]
    rfl
  · intro h
    refine ⟨rfl, ?_, ?_, rfl, ?_, ?_, htr.mpr h.taxRewards, hsr.mpr h.seigniorageRewards,
      htsl.mpr h.totalStaked, SortedMap.entries_injective h.burnTaxExemptions.symm⟩
    · intro rate hrate
      rw [importedStore, getTaxRate, hrate]
      rfl
    · intro weight hweight
      rw [importedStore, getRewardWeight, hweight]
      rfl
    · intro coins hcoins
      rw [importedStore, peekEpochTaxProceeds, hcoins]
      rfl
    · intro coins hcoins
      rw [importedStore, getEpochInitialIssuance, hcoins]
      rfl

theorem importedStore_eq_iff {env : Env} {w : World} (hw : w.store.Filled env) :
    importedStore w = w.store ↔ Exportable w ∧ Complete w := by
  have htr := firstEpochs_eq_iff (n := endedEpochs w) fun _ _ => getTR_of_get (s := w.store)
  have hsr := firstEpochs_eq_iff (n := endedEpochs w) fun _ _ => getSR_of_get (s := w.store)
  have htsl := firstEpochs_eq_iff (n := endedEpochs w) fun _ _ => getTSL_of_get (s := w.store)
  have hsingle : ∀ {V : Type} {o : Option V} {d : V}, o.isSome = true → some (o.getD d) = o := by
    intro V o d hsome
    cases o with
    | some v => rfl
    | none => cases hsome
  refine ⟨?_, ?_⟩
  · intro h
    obtain ⟨hlateTR, hallTR⟩ := htr.mp (congrArg Store.taxRewards h)
    obtain ⟨hlateSR, hallSR⟩ := hsr.mp (congrArg Store.seigniorageRewards h)
    obtain ⟨hlateTSL, hallTSL⟩ := htsl.mp (congrArg Store.totalStaked h)
    refine ⟨⟨?_, hlateTR, hlateSR, hlateTSL⟩, hallTR, hallSR, hallTSL⟩
    rw [← h]
    rfl
  · intro h
    obtain ⟨hexport, hcomplete⟩ := h
    have hexempt : w.store.burnTaxExemptions = .empty := SortedMap.entries_injective hexport.burnTaxExemptions
    have hrate : some (getTaxRate w.store) = w.store.taxRate := hsingle (hw.rates .tax)
    have hweight : some (getRewardWeight w.store) = w.store.rewardWeight := hsingle (hw.rates .reward)
    have hproceeds : some (peekEpochTaxProceeds w.store) = w.store.taxProceeds := hsingle hw.taxProceeds
    have hissuance : some (getEpochInitialIssuance w.store) = w.store.epochInitialIssuance :=
      hsingle hw.epochInitialIssuance
    rw [importedStore, hrate, hweight, hproceeds, hissuance, htr.mpr ⟨hexport.taxRewards, hcomplete.taxRewards⟩,
      hsr.mpr ⟨hexport.seigniorageRewards, hcomplete.seigniorageRewards⟩,
      htsl.mpr ⟨hexport.totalStaked, hcomplete.totalStaked⟩, ← hexempt]

/-- A reachable store with a recorded issuance comes back from its export, on any chain with
an empty store, exactly if it exempts no address and records no epoch that has not ended; it
comes back without further entries if every epoch that has ended is recorded, too. -/
theorem genesis_round_trip_iff {env : Env} {w : World} (hreach : Reachable env w)
    (hissuance : coinsIsZero (getEpochInitialIssuance w.store) = false) (w₀ : World)
    (hempty : w₀.store = .empty w₀.store.params) :
    ((∃ w', initGenesis env w₀ (exportGenesis w) = .ok w' ∧ Reproduces w.store w'.store) ↔ Exportable w) ∧
    ((∃ w', initGenesis env w₀ (exportGenesis w) = .ok w' ∧ w'.store = w.store) ↔
      Exportable w ∧ Complete w) := by
  have himport := initGenesis_exportGenesis hreach.filled.params hissuance w₀ w₀.store.params
  rw [← hempty] at himport
  rw [← importedStore_eq_iff hreach.filled, ← reproduces_importedStore_iff, himport]
  refine ⟨⟨?_, fun h => ⟨_, rfl, h⟩⟩, ?_, fun h => ⟨_, rfl, h⟩⟩
  · intro h
    obtain ⟨w', hrun, hreproduces⟩ := h
    cases hrun
    exact hreproduces
  · intro h
    obtain ⟨w', hrun, heq⟩ := h
    cases hrun
    exact heq

namespace Sample

open Sdk.Sample

def firstBlock : World := { weekEnd with market := Market.Sample.stateOf (10 ^ 6) }

def fresh : World := { firstBlock with store := .empty defaultParams }

theorem firstBlock_reachable : Reachable app firstBlock := by
  have haccepted : ∀ c ∈ defaultParams.paramSetPairs, c.validate app = .ok () := by decide +kernel
  have hempty : fresh.store = .empty fresh.store.params := rfl
  exact .init (exportGenesis firstBlock) hempty
    (initGenesis_exportGenesis (w := firstBlock) haccepted (by decide) fresh defaultParams)

/-- A store without exemptions comes back. -/
theorem firstBlock_round_trip : ∃ w', initGenesis app fresh (exportGenesis firstBlock) = .ok w' ∧
    Reproduces firstBlock.store w'.store := by
  apply (genesis_round_trip_iff firstBlock_reachable (by decide) fresh rfl).1.mpr
  have hnone {V : Type} : ∀ e ∈ (SortedMap.empty : SortedMap Nat V).entries, e.1 < endedEpochs firstBlock :=
    fun e he => absurd he List.not_mem_nil
  exact ⟨rfl, hnone, hnone, hnone⟩

/-- A proposal exempts one address. -/
def exempted : World :=
  { firstBlock with store := { store with burnTaxExemptions := SortedMap.empty.set aliceText () } }

/-- The exempted address is not in the export. -/
theorem exemption_lost : Reachable app exempted ∧
    coinsIsZero (getEpochInitialIssuance exempted.store) = false ∧
    fresh.store = .empty fresh.store.params ∧
    ∃ w', initGenesis app fresh (exportGenesis exempted) = .ok w' ∧
      exempted.store.burnTaxExemptions.get aliceText = some () ∧
      w'.store.burnTaxExemptions.get aliceText = none := by
  have hadd : handleAddBurnTaxExemptionAddressProposal app firstBlock.store [aliceText] = .ok exempted.store := rfl
  have hreach : Reachable app exempted := firstBlock_reachable.step (.addExemptions [aliceText] hadd)
  refine ⟨hreach, by decide, rfl, _,
    initGenesis_exportGenesis hreach.filled.params (by decide) fresh defaultParams, ?_, rfl⟩
  exact SortedMap.get_set_self _ _ _

end Sample

end Treasury
