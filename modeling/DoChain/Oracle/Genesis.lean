import DoChain.Oracle.CommitReveal
import DoChain.Oracle.Params

/- Export and import of the oracle's store (`x/oracle/genesis.go`).

   Correspondence (Go ↔ Lean):
     `types.GenesisState` ↔ `GenesisState`
     `InitGenesis`        ↔ `initGenesis`
     `ExportGenesis`      ↔ `exportGenesis`
     `Keeper.IterateFeederDelegations`, `IterateAggregateDoRatePrevotes`,
     `IterateAggregateDoRateVotes` ↔ the definitions of these names

   Each loop of the import writes one family of the store. The addresses of feeders and of
   miss counters are exported as texts; prevotes and votes are exported as they are stored
   and filed under the address their voter's text decodes to. A genesis without Tobin taxes
   gets those of its whitelist. The check that the module account exists is left out. The
   export panics where a family has an entry of the empty address, as the end of a slash
   window does.

   `Store.Readable` holds of every reachable store, and makes the import of its export
   return; `export_reimported_iff` says which stores come back as they were. -/

namespace Oracle

open Sdk

structure FeederDelegation where
  feederAddress : String
  validatorAddress : String

structure MissCounter where
  validatorAddress : String
  missCounter : Nat

structure TobinTax where
  denom : String
  tobinTax : LegacyDec

structure GenesisState where
  params : Params
  feederDelegations : List FeederDelegation
  exchangeRates : List DoRateTuple
  missCounters : List MissCounter
  aggregateExchangeRatePrevotes : List AggregateDoRatePrevote
  aggregateExchangeRateVotes : List AggregateDoRateVote
  tobinTaxes : List TobinTax

/-- A store without entries; the parameters are set before they are read. -/
def Store.empty (unset : Params) : Store where
  params := unset
  exchangeRates := .empty
  feederDelegations := .empty
  missCounters := .empty
  prevotes := .empty
  votes := .empty
  tobinTaxes := .empty

variable (env : Env)

/-! ## Import and export -/

def initFeederDelegation (feeders : SortedMap ValAddress AccAddress) (d : FeederDelegation) :
    Outcome SdkError (SortedMap ValAddress AccAddress) := do
  let voter ← .orPanic (env.valBech32.accAddressFromBech32 d.validatorAddress)
  let feeder ← .orPanic (env.accBech32.accAddressFromBech32 d.feederAddress)
  .ok (feeders.set voter feeder)

def initMissCounter (counters : SortedMap ValAddress Nat) (mc : MissCounter) :
    Outcome SdkError (SortedMap ValAddress Nat) := do
  let operator ← .orPanic (env.valBech32.accAddressFromBech32 mc.validatorAddress)
  .ok (counters.set operator mc.missCounter)

/-- A prevote or a vote, under the address of its voter. -/
def initByVoter {V : Type} (voter : V → String) (m : SortedMap ValAddress V) (v : V) :
    Outcome SdkError (SortedMap ValAddress V) := do
  let valAddr ← .orPanic (env.valBech32.accAddressFromBech32 (voter v))
  .ok (m.set valAddr v)

def initTobinTaxes (taxes : SortedMap String LegacyDec) (data : GenesisState) : SortedMap String LegacyDec :=
  if 0 < data.tobinTaxes.length then data.tobinTaxes.foldl (fun m tt => m.set tt.denom tt.tobinTax) taxes
  else data.params.whitelist.foldl (fun m item => m.set item.name item.tobinTax) taxes

def initGenesis (k : Store) (data : GenesisState) : Outcome SdkError Store := do
  let feederDelegations ← data.feederDelegations.foldlM (initFeederDelegation env) k.feederDelegations
  let exchangeRates := data.exchangeRates.foldl (fun m ex => m.set ex.denom ex.exchangeRate) k.exchangeRates
  let missCounters ← data.missCounters.foldlM (initMissCounter env) k.missCounters
  let prevotes ← data.aggregateExchangeRatePrevotes.foldlM
    (initByVoter env AggregateDoRatePrevote.voter) k.prevotes
  let votes ← data.aggregateExchangeRateVotes.foldlM (initByVoter env AggregateDoRateVote.voter) k.votes
  let tobinTaxes := initTobinTaxes k.tobinTaxes data
  setParamSet Change.validate data.params.paramSetPairs
  .ok { params := data.params, exchangeRates, feederDelegations, missCounters, prevotes, votes, tobinTaxes }

def iterateFeederDelegations (k : Store) : Outcome SdkError (List (ValAddress × AccAddress)) :=
  iterate k.feederDelegations

def iterateAggregateDoRatePrevotes (k : Store) : Outcome SdkError (List (ValAddress × AggregateDoRatePrevote)) :=
  iterate k.prevotes

def iterateAggregateDoRateVotes (k : Store) : Outcome SdkError (List (ValAddress × AggregateDoRateVote)) :=
  iterate k.votes

def exportGenesis (k : Store) : Outcome SdkError GenesisState := do
  let feeders ← iterateFeederDelegations k
  let counters ← iterateMissCounters k
  let prevotes ← iterateAggregateDoRatePrevotes k
  let votes ← iterateAggregateDoRateVotes k
  .ok {
    params := k.params
    feederDelegations := feeders.map fun e => ⟨env.accBech32.string e.2, env.valBech32.string e.1⟩
    exchangeRates := k.exchangeRates.entries.map fun e => ⟨e.1, e.2⟩
    missCounters := counters.map fun e => ⟨env.valBech32.string e.1, e.2⟩
    aggregateExchangeRatePrevotes := prevotes.map Prod.snd
    aggregateExchangeRateVotes := votes.map Prod.snd
    tobinTaxes := k.tobinTaxes.entries.map fun e => ⟨e.1, e.2⟩ }

/-! ## Reachable stores -/

variable {D : Type} (keepers : Keepers D)

inductive Reachable : Chain D → Prop where
  | init {c : Chain D} (unset : Params) (data : GenesisState) :
      initGenesis env (.empty unset) data = .ok c.oracle → Reachable c
  /-- a message or the end of a block -/
  | step (st : ChainStep env keepers) : st.action ≠ .other → Reachable st.before → Reachable st.after
  | changeParam {c : Chain D} (change : Change) : change.validate = .ok () → Reachable c →
      Reachable (c.setOracle { c.oracle with params := change.apply c.oracle.params })
  /-- the other modules -/
  | others {c c' : Chain D} : c'.oracle = c.oracle → Reachable c → Reachable c'

/-- The text of an address decodes to it. -/
def ReadsBack (b : Bech32) (a : AccAddress) : Prop := b.accAddressFromBech32 (b.string a) = .ok a

/-- The keys accept their parameters, and what is written as a text can be read again. Only
a miss counter may be one of the empty address, which has no text. -/
structure Store.Readable (k : Store) : Prop where
  params : ∀ c ∈ k.params.paramSetPairs, c.validate = .ok ()
  feederDelegations : k.feederDelegations.All fun v f => ReadsBack env.valBech32 v ∧ ReadsBack env.accBech32 f
  missCounters : k.missCounters.All fun v _ => v = [] ∨ ReadsBack env.valBech32 v
  prevotes : k.prevotes.All fun v p => env.valBech32.accAddressFromBech32 p.voter = .ok v
  votes : k.votes.All fun v p => env.valBech32.accAddressFromBech32 p.voter = .ok v

variable {env} {keepers}

theorem initByVoter_all {V : Type} {voter : V → String} {vs : List V} {m m' : SortedMap ValAddress V}
    (hm : m.All fun a v => env.valBech32.accAddressFromBech32 (voter v) = .ok a)
    (h : vs.foldlM (initByVoter env voter) m = .ok m') :
    m'.All fun a v => env.valBech32.accAddressFromBech32 (voter v) = .ok a := by
  refine Outcome.foldlM_invariant (P := fun m => m.All fun a v =>
    env.valBech32.accAddressFromBech32 (voter v) = .ok a) ?_ hm h
  intro m m' v _ hm hstep
  obtain ⟨a, ha, hstep⟩ := Outcome.bind_eq_ok.mp hstep
  cases hstep
  exact hm.set (Outcome.orPanic_eq_ok.mp ha)

/-- An import that returns has read every address. -/
theorem initGenesis_readable {unset : Params} {data : GenesisState} {k : Store}
    (h : initGenesis env (.empty unset) data = .ok k) : k.Readable env := by
  obtain ⟨feeders, hfeeders, h⟩ := Outcome.bind_eq_ok.mp h
  obtain ⟨counters, hcounters, h⟩ := Outcome.bind_eq_ok.mp h
  obtain ⟨prevotes, hprevotes, h⟩ := Outcome.bind_eq_ok.mp h
  obtain ⟨votes, hvotes, h⟩ := Outcome.bind_eq_ok.mp h
  obtain ⟨hparams, h⟩ := Outcome.check_bind_eq_ok.mp h
  cases h
  refine ⟨setParamSet_eq_ok.mp hparams, ?_, ?_, initByVoter_all SortedMap.all_empty hprevotes,
    initByVoter_all SortedMap.all_empty hvotes⟩
  · refine Outcome.foldlM_invariant (P := fun m => m.All fun v f =>
      ReadsBack env.valBech32 v ∧ ReadsBack env.accBech32 f) ?_ SortedMap.all_empty hfeeders
    intro m m' d _ hm hstep
    obtain ⟨voter, hvoter, hstep⟩ := Outcome.bind_eq_ok.mp hstep
    obtain ⟨feeder, hfeeder, hstep⟩ := Outcome.bind_eq_ok.mp hstep
    cases hstep
    exact hm.set ⟨env.valBech32.decode_string (Outcome.orPanic_eq_ok.mp hvoter),
      env.accBech32.decode_string (Outcome.orPanic_eq_ok.mp hfeeder)⟩
  · refine Outcome.foldlM_invariant (P := fun m => m.All fun v _ =>
      v = [] ∨ ReadsBack env.valBech32 v) ?_ SortedMap.all_empty hcounters
    intro m m' mc _ hm hstep
    obtain ⟨operator, hoperator, hstep⟩ := Outcome.bind_eq_ok.mp hstep
    cases hstep
    exact hm.set (.inr (env.valBech32.decode_string (Outcome.orPanic_eq_ok.mp hoperator)))

/-! ## What a step keeps -/

/-- A change replaces one of the pairs. -/
theorem Change.paramSetPairs_apply (c : Change) (p : Params) :
    ∃ i, (c.apply p).paramSetPairs = p.paramSetPairs.set i c := by
  cases c with
  | votePeriod v => exact ⟨0, rfl⟩
  | voteThreshold v => exact ⟨1, rfl⟩
  | rewardBand v => exact ⟨2, rfl⟩
  | rewardDistributionWindow v => exact ⟨3, rfl⟩
  | whitelist v => exact ⟨4, rfl⟩
  | slashFraction v => exact ⟨5, rfl⟩
  | slashWindow v => exact ⟨6, rfl⟩
  | minValidPerWindow v => exact ⟨7, rfl⟩

theorem Store.Readable.changeParam {k : Store} (hk : k.Readable env) {c : Change} (hc : c.validate = .ok ()) :
    { k with params := c.apply k.params }.Readable env := by
  obtain ⟨i, hpairs⟩ := c.paramSetPairs_apply k.params
  refine ⟨?_, hk.feederDelegations, hk.missCounters, hk.prevotes, hk.votes⟩
  intro d hd
  rw [hpairs] at hd
  cases List.mem_or_eq_of_mem_set hd with
  | inl hold => exact hk.params d hold
  | inr heq => exact heq ▸ hc

/-- Misses are counted for recipients of claims. -/
theorem countMisses_readable {ord : Orders} {staking : Staking} {p : PeriodEnd}
    (hclaims : OfActive env staking p.claims) {counters : SortedMap ValAddress Nat}
    (h : counters.All fun v _ => v = [] ∨ ReadsBack env.valBech32 v) :
    (countMisses ord p counters).All fun v _ => v = [] ∨ ReadsBack env.valBech32 v := by
  unfold countMisses
  refine List.foldlRecOn _ _ h ?_
  intro counters hcounters e he
  unfold countMiss
  split_ifs
  · exact hcounters
  · apply hcounters.set
    cases hclaims e.1 e.2 (SortedMap.RangeOrder.mem_range.mp he) with
    | inl hnone => exact .inl hnone
    | inr hactive => exact .inr (env.valBech32.decode_string hactive.1)

theorem endPeriod_readable {ord : Orders} {height : Nat} {w w' : World D}
    (h : endPeriod env keepers ord height w = .ok w') (hw : w.oracle.Readable env) :
    w'.oracle.Readable env := by
  obtain ⟨p, taxes, metadata, hp, _, hw'⟩ := endPeriod_inv h
  rw [hw']
  refine ⟨hw.params, hw.feederDelegations, ?_, ?_, ?_⟩
  · exact countMisses_readable (ofActive_updateExchangeRates hp) hw.missCounters
  · intro v prevote hget
    exact hw.prevotes v prevote (clearPrevotes_get.mp hget).1
  · rw [SortedMap.clear_eq_empty]
    exact SortedMap.all_empty

/-- Slashing only deletes counters. -/
theorem slashAndReset_readable {height : Nat} {w w' : World D}
    (h : slashAndResetMissCounters keepers height w = .ok w') (hw : w.oracle.Readable env) :
    w'.oracle.Readable env := by
  obtain ⟨periods, acc, _, _, hacc, rfl⟩ := slashAndReset_inv h
  refine ⟨hw.params, hw.feederDelegations, ?_, hw.prevotes, hw.votes⟩
  refine Outcome.foldlM_invariant (P := fun acc => acc.2.All fun v _ => v = [] ∨ ReadsBack env.valBech32 v)
    ?_ hw.missCounters hacc
  intro acc acc' e _ hacc hstep
  obtain ⟨rate, _, hstep⟩ := Outcome.bind_eq_ok.mp hstep
  split_ifs at hstep with hlow
  · split at hstep
    · cases hstep
      exact hacc
    · obtain ⟨staking, _, hstep⟩ := Outcome.bind_eq_ok.mp hstep
      cases hstep
      exact hacc.erase e.1
  · cases hstep
    exact hacc.erase e.1

theorem endBlocker_readable {ord : Orders} {height : Nat} {w w' : World D}
    (h : endBlocker env keepers ord height w = .ok w') (hw : w.oracle.Readable env) :
    w'.oracle.Readable env := by
  obtain ⟨w₁, hperiod, h⟩ := Outcome.bind_eq_ok.mp h
  have hw₁ : w₁.oracle.Readable env := by
    cases atPeriodEnd_inv hperiod with
    | inl hend => exact endPeriod_readable hend.2 hw
    | inr hsame => exact hsame.2 ▸ hw
  cases atPeriodEnd_inv h with
  | inl hslash => exact slashAndReset_readable hslash.2 hw₁
  | inr hsame => exact hsame.2 ▸ hw₁

theorem ChainStep.readable (st : ChainStep env keepers) (hother : st.action ≠ .other)
    (h : st.before.oracle.Readable env) : st.after.oracle.Readable env := by
  have hoccurs := st.occurs
  cases haction : st.action with
  | prevote msg =>
    rw [haction] at hoccurs
    obtain ⟨_, k, hk, hafter⟩ := hoccurs
    obtain ⟨v, hash, hv, _, rfl⟩ := aggregateDoRatePrevote_inv hk
    rw [hafter]
    exact ⟨h.params, h.feederDelegations, h.missCounters,
      h.prevotes.set (env.valBech32.decode_string hv), h.votes⟩
  | vote msg =>
    rw [haction] at hoccurs
    obtain ⟨_, k, hk, hafter⟩ := hoccurs
    obtain ⟨v, _, _, _, hv, _, _, _, _, _, _, _, rfl⟩ := aggregateDoRateVote_inv hk
    rw [hafter]
    exact ⟨h.params, h.feederDelegations, h.missCounters, h.prevotes.erase v,
      h.votes.set (env.valBech32.decode_string hv)⟩
  | delegate msg =>
    rw [haction] at hoccurs
    obtain ⟨_, k, hk, hafter⟩ := hoccurs
    obtain ⟨v, feeder, hv, hfeeder, rfl⟩ := delegateFeedConsent_inv hk
    rw [hafter]
    have hread := And.intro (env.valBech32.decode_string hv) (env.accBech32.decode_string hfeeder)
    exact ⟨h.params, h.feederDelegations.set hread, h.missCounters, h.prevotes, h.votes⟩
  | endBlock ord =>
    rw [haction] at hoccurs
    exact endBlocker_readable hoccurs.1 h
  | other => exact absurd haction hother

theorem Reachable.readable {c : Chain D} (h : Reachable env keepers c) : c.oracle.Readable env := by
  induction h with
  | init unset data hrun => exact initGenesis_readable hrun
  | step st hother _ ih => exact st.readable hother ih
  | changeParam change hvalid _ ih => exact ih.changeParam hvalid
  | others hsame _ ih =>
    rw [hsame]
    exact ih

/-! ## The round trip -/

/-- An export of entries that each import as they were imports as the map. -/
theorem foldlM_export {V β : Type} {m : SortedMap ValAddress V} {render : ValAddress × V → β}
    {f : SortedMap ValAddress V → β → Outcome SdkError (SortedMap ValAddress V)}
    (h : ∀ e ∈ m.entries, ∀ r, f r (render e) = .ok (r.set e.1 e.2)) :
    (m.entries.map render).foldlM f .empty = .ok m := by
  rw [List.foldlM_map, Outcome.foldlM_eq_foldl (g := fun r e => r.set e.1 e.2) h, m.foldl_set_entries]

theorem foldlM_initByVoter {V : Type} {voter : V → String} {m : SortedMap ValAddress V}
    (h : m.All fun a v => env.valBech32.accAddressFromBech32 (voter v) = .ok a) :
    (m.entries.map Prod.snd).foldlM (initByVoter env voter) .empty = .ok m := by
  apply foldlM_export
  intro e he r
  rw [initByVoter, h e.1 e.2 (SortedMap.get_eq_some.mpr he)]
  rfl

/-- The Tobin taxes that an export imports as. -/
def importedTaxes (k : Store) : SortedMap String LegacyDec :=
  if k.tobinTaxes.entries = [] then
    k.params.whitelist.foldl (fun m item => m.set item.name item.tobinTax) .empty
  else k.tobinTaxes

theorem initTobinTaxes_exported {k : Store} {data : GenesisState} (hparams : data.params = k.params)
    (htaxes : data.tobinTaxes = k.tobinTaxes.entries.map fun e => ⟨e.1, e.2⟩) :
    initTobinTaxes .empty data = importedTaxes k := by
  unfold initTobinTaxes importedTaxes
  rw [hparams, htaxes]
  by_cases hnone : k.tobinTaxes.entries = []
  · rw [if_pos hnone, if_neg (by simp [hnone])]
  · rw [if_neg hnone, if_pos (by simpa [List.length_pos_iff] using hnone), List.foldl_map]
    exact k.tobinTaxes.foldl_set_entries

/-- Texts are read as addresses that have a text. -/
theorem ne_nil_of_decode (hempty : ∀ a, env.valBech32.accAddressFromBech32 (env.valBech32.string []) ≠ .ok a)
    {text : String} {a : ValAddress} (h : env.valBech32.accAddressFromBech32 text = .ok a) : a ≠ [] := by
  intro hnil
  subst hnil
  exact hempty [] (env.valBech32.decode_string h)

/-- Only a counter may be one of the empty address. -/
theorem Store.Readable.ne_nil {k : Store} (hk : k.Readable env)
    (hempty : ∀ a, env.valBech32.accAddressFromBech32 (env.valBech32.string []) ≠ .ok a) :
    (k.feederDelegations.All fun a _ => a ≠ []) ∧ (k.prevotes.All fun a _ => a ≠ []) ∧
      k.votes.All fun a _ => a ≠ [] := by
  refine ⟨?_, ?_, ?_⟩
  · intro a feeder hget
    exact ne_nil_of_decode hempty (hk.feederDelegations a feeder hget).1
  · intro a prevote hget
    exact ne_nil_of_decode hempty (hk.prevotes a prevote hget)
  · intro a vote hget
    exact ne_nil_of_decode hempty (hk.votes a vote hget)

/-- A family without an entry of the empty address is exported. -/
theorem iterate_of_ne_nil {V : Type} {m : SortedMap ValAddress V} (h : m.All fun a _ => a ≠ []) :
    iterate m = .ok m.entries :=
  iterate_eq_ok.mpr ⟨Option.eq_none_iff_forall_not_mem.mpr fun v hget => h [] v hget rfl, rfl⟩

/-- Every other family comes back. -/
theorem initGenesis_exportGenesis {k : Store} (hk : k.Readable env)
    (hempty : ∀ a, env.valBech32.accAddressFromBech32 (env.valBech32.string []) ≠ .ok a)
    (hnil : ∀ e ∈ k.missCounters.entries, e.1 ≠ []) (unset : Params) :
    exportGenesis env k >>= initGenesis env (.empty unset) = .ok { k with tobinTaxes := importedTaxes k } := by
  have hcounters : k.missCounters.All fun a _ => a ≠ [] := fun a n hget => hnil _ (SortedMap.get_eq_some.mp hget)
  obtain ⟨hfeeders, hprevotes, hvotes⟩ := hk.ne_nil hempty
  simp only [exportGenesis, iterateFeederDelegations, iterateMissCounters, iterateAggregateDoRatePrevotes,
    iterateAggregateDoRateVotes, iterate_of_ne_nil hfeeders, iterate_of_ne_nil hcounters,
    iterate_of_ne_nil hprevotes, iterate_of_ne_nil hvotes, Outcome.ok_bind]
  -- each loop of the import reads a family back
  have hfeeders : (k.feederDelegations.entries.map fun e => (⟨env.accBech32.string e.2,
      env.valBech32.string e.1⟩ : FeederDelegation)).foldlM (initFeederDelegation env) .empty =
      .ok k.feederDelegations := by
    apply foldlM_export
    intro e he r
    obtain ⟨hv, hf⟩ := hk.feederDelegations e.1 e.2 (SortedMap.get_eq_some.mpr he)
    rw [initFeederDelegation, hv, hf]
    rfl
  have hcounters : (k.missCounters.entries.map fun e => (⟨env.valBech32.string e.1, e.2⟩ : MissCounter)).foldlM
      (initMissCounter env) .empty = .ok k.missCounters := by
    apply foldlM_export
    intro e he r
    have hv := (hk.missCounters e.1 e.2 (SortedMap.get_eq_some.mpr he)).resolve_left (hnil e he)
    rw [initMissCounter, hv]
    rfl
  have hrates : (k.exchangeRates.entries.map fun e => (⟨e.1, e.2⟩ : DoRateTuple)).foldl
      (fun m ex => m.set ex.denom ex.exchangeRate) .empty = k.exchangeRates := by
    rw [List.foldl_map]
    exact k.exchangeRates.foldl_set_entries
  have hprevotes : (k.prevotes.entries.map Prod.snd).foldlM
      (initByVoter env AggregateDoRatePrevote.voter) .empty = .ok k.prevotes := foldlM_initByVoter hk.prevotes
  have hvotes : (k.votes.entries.map Prod.snd).foldlM
      (initByVoter env AggregateDoRateVote.voter) .empty = .ok k.votes := foldlM_initByVoter hk.votes
  have hparams := setParamSet_eq_ok.mpr hk.params
  simp only [initGenesis, Store.empty, hfeeders, hrates, hcounters, hprevotes, hvotes, hparams, Outcome.ok_bind]
  rw [initTobinTaxes_exported (k := k) rfl rfl]

theorem foldl_set_ne_empty {items : List Denom} (h : items ≠ []) (m : SortedMap String LegacyDec) :
    items.foldl (fun m item => m.set item.name item.tobinTax) m ≠ .empty := by
  obtain ⟨before, item, rfl⟩ := (List.eq_nil_or_concat items).resolve_left h
  intro hempty
  rw [List.concat_eq_append, List.foldl_append] at hempty
  have hget := congrArg (fun m => m.get item.name) hempty
  simp at hget

theorem importedTaxes_eq_iff (k : Store) :
    importedTaxes k = k.tobinTaxes ↔ (k.tobinTaxes.entries = [] → k.params.whitelist = []) := by
  unfold importedTaxes
  split_ifs with hnone
  · have hempty : k.tobinTaxes = .empty := SortedMap.entries_injective hnone
    rw [hempty]
    refine ⟨?_, ?_⟩
    · intro htaxes _
      by_contra hlisted
      exact foldl_set_ne_empty hlisted .empty htaxes
    · intro hlist
      rw [hlist rfl]
      rfl
  · exact iff_of_true rfl (fun h => absurd h hnone)

/-- A reachable store comes back from its export exactly if it has Tobin taxes or nothing is
whitelisted, and no miss was counted for the empty address. -/
theorem export_reimported_iff
    -- the empty address is rendered as the empty text, which is refused
    (hempty : ∀ a, env.valBech32.accAddressFromBech32 (env.valBech32.string []) ≠ .ok a)
    {c : Chain D} (hreach : Reachable env keepers c) (unset : Params) :
    exportGenesis env c.oracle >>= initGenesis env (.empty unset) = .ok c.oracle ↔
      (c.oracle.tobinTaxes.entries = [] → c.oracle.params.whitelist = []) ∧
        ∀ e ∈ c.oracle.missCounters.entries, e.1 ≠ [] := by
  rw [← importedTaxes_eq_iff]
  refine ⟨?_, ?_⟩
  · intro h
    have hnil : ∀ e ∈ c.oracle.missCounters.entries, e.1 ≠ [] := by
      intro e he hnil
      obtain ⟨data, hexport, _⟩ := Outcome.bind_eq_ok.mp h
      obtain ⟨_, _, hexport⟩ := Outcome.bind_eq_ok.mp hexport
      obtain ⟨_, hcounters, _⟩ := Outcome.bind_eq_ok.mp hexport
      have hget := SortedMap.get_eq_some.mpr he
      rw [hnil, (iterate_eq_ok.mp hcounters).1] at hget
      cases hget
    rw [initGenesis_exportGenesis hreach.readable hempty hnil] at h
    exact ⟨congrArg Store.tobinTaxes (Outcome.ok.inj h), hnil⟩
  · intro h
    rw [initGenesis_exportGenesis hreach.readable hempty h.2, h.1]

theorem Store.empty_readable {p : Params} (hp : ∀ c ∈ p.paramSetPairs, c.validate = .ok ()) :
    (Store.empty p).Readable env :=
  ⟨hp, SortedMap.all_empty, SortedMap.all_empty, SortedMap.all_empty, SortedMap.all_empty⟩

namespace Sample

/-- The store of a chain that starts with these parameters, and nothing else. -/
def launched (p : Params) : Store := { Store.empty p with tobinTaxes := importedTaxes (Store.empty p) }

def launchedChain (p : Params) : Chain (String → String → Int) := ⟨4, by decide, world (launched p)⟩

theorem no_empty_operator : ∀ a, app.valBech32.accAddressFromBech32 (app.valBech32.string []) ≠ .ok a := by
  intro a h
  have hnone : (app.valBech32.accAddressFromBech32 (app.valBech32.string [])).isOk = false := by
    decide +kernel
  rw [h] at hnone
  cases hnone

theorem launched_reachable {p : Params} (hp : ∀ c ∈ p.paramSetPairs, c.validate = .ok ()) :
    Reachable app modules (launchedChain p) := by
  have hrun := initGenesis_exportGenesis (Store.empty_readable hp) no_empty_operator
    (fun _ he => absurd he List.not_mem_nil) p
  obtain ⟨data, _, hinit⟩ := Outcome.bind_eq_ok.mp hrun
  exact .init p data hinit

/-- A store with a prevote comes back. -/
theorem prevote_reimported : ∃ k,
    aggregateDoRatePrevote app staking 4 (launched params) prevoteMessage = .ok k ∧
    exportGenesis app k >>= initGenesis app (.empty params) = .ok k := by
  have hparams : ∀ c ∈ params.paramSetPairs, c.validate = .ok () := by decide +kernel
  have hrun : (aggregateDoRatePrevote app staking 4 (launched params) prevoteMessage).value.isSome := by
    decide +kernel
  obtain ⟨k, hk⟩ := Option.isSome_iff_exists.mp hrun
  have hk := Outcome.value_eq_some.mp hk
  let c := launchedChain params
  let st : ChainStep app modules := ⟨c, .prevote prevoteMessage, c.setOracle k, by decide +kernel, k, hk, rfl⟩
  have hreach : Reachable app modules st.after := .step st (by simp [st]) (launched_reachable hparams)
  obtain ⟨v, hash, _, _, hset⟩ := aggregateDoRatePrevote_inv hk
  refine ⟨k, hk, (export_reimported_iff no_empty_operator hreach params).mpr ?_⟩
  show (k.tobinTaxes.entries = [] → k.params.whitelist = []) ∧ ∀ e ∈ k.missCounters.entries, e.1 ≠ []
  rw [hset]
  have htaxes : (launched params).tobinTaxes.entries ≠ [] := by decide +kernel
  exact ⟨fun hnone => absurd hnone htaxes, fun _ he => absurd he List.not_mem_nil⟩

/-- A chain starts without a whitelist, and a parameter change lists one denomination: until
the end of the vote period it has no tax, but the import of the export has one. -/
theorem whitelist_imported_as_taxes :
    ∃ (c : Chain (String → String → Int)) (k : Store), Reachable app modules c ∧
      (∀ a, app.valBech32.accAddressFromBech32 (app.valBech32.string []) ≠ .ok a) ∧
      exportGenesis app c.oracle >>= initGenesis app (.empty params) = .ok k ∧
      c.oracle.tobinTaxes.get "uusd" = none ∧ k.tobinTaxes.get "uusd" = some .zero := by
  have hparams : ∀ c ∈ { params with whitelist := [] }.paramSetPairs, c.validate = .ok () := by decide +kernel
  have hreach : Reachable app modules _ :=
    .changeParam (.whitelist [⟨"uusd", .zero⟩]) (by decide +kernel) (launched_reachable hparams)
  exact ⟨_, _, hreach, no_empty_operator,
    initGenesis_exportGenesis hreach.readable no_empty_operator (fun _ he => absurd he List.not_mem_nil) params,
    rfl, by decide +kernel⟩

end Sample

end Oracle
