import DoChain.Oracle.Priced

/- The vote targets after a vote period, against the whitelist of the parameters.

   `ApplyWhitelist` writes the taxes anew where the whitelist differs from the vote
   targets. It is given the targets that the search for the reference has left: those
   with a failed ballot are gone. A target that is no longer on the whitelist is kept
   where its ballot failed, for the others can then be just what is on the whitelist.
   `targets_follow_whitelist_iff` says exactly when the taxes are those of the
   whitelist.

   Listed denominations without metadata are registered with the bank on the way, from the
   second byte of their names on. `whitelist_applied_iff` says exactly when all of them are. -/

namespace Oracle

open Sdk

/-! ## Writing the whitelist -/

/-- The tax that a whitelist has for a name; of several entries the last one counts. -/
def taxOf (whitelist : List Denom) (d : String) : Option LegacyDec :=
  (whitelist.reverse.find? (fun item => decide (item.name = d))).map Denom.tobinTax

theorem taxOf_cons (item : Denom) (rest : List Denom) (d : String) :
    taxOf (item :: rest) d = (taxOf rest d).or (if item.name = d then some item.tobinTax else none) := by
  rw [taxOf, taxOf, List.reverse_cons, List.find?_append]
  cases rest.reverse.find? (fun item => decide (item.name = d)) with
  | some found => rfl
  | none =>
    by_cases hd : item.name = d
    · simp [hd]
    · simp [hd]

variable {D : Type} {keepers : Keepers D}

/-- The loop over the whitelist. -/
theorem foldlM_listDenom {whitelist : List Denom}
    {acc acc' : SortedMap String LegacyDec × SortedMap String Metadata}
    (h : whitelist.foldlM (listDenom keepers) acc = .ok acc') (d : String) :
    acc'.1.get d = (taxOf whitelist d).or (acc.1.get d) := by
  induction whitelist generalizing acc with
  | nil =>
    cases h
    rfl
  | cons item rest ih =>
    rw [List.foldlM_cons] at h
    obtain ⟨acc₁, hstep, hrest⟩ := Outcome.bind_eq_ok.mp h
    obtain ⟨metadata, _, hacc₁⟩ := Outcome.bind_eq_ok.mp hstep
    cases hacc₁
    rw [ih hrest, taxOf_cons, SortedMap.get_set, Option.or_assoc]
    by_cases hd : item.name = d
    · simp [hd]
    · have hd' : d ≠ item.name := fun heq => hd heq.symm
      simp [hd, hd']

/-- The whitelist is not what the targets are: they differ in number, or an entry is not
a target with its tax. -/
def Differs (whitelist : List Denom) (targets : SortedMap String LegacyDec) : Prop :=
  targets.entries.length ≠ whitelist.length ∨
    ∃ item ∈ whitelist, targets.get item.name ≠ some item.tobinTax

instance (whitelist : List Denom) (targets : SortedMap String LegacyDec) :
    Decidable (Differs whitelist targets) := inferInstanceAs (Decidable (_ ∨ _))

theorem updateRequired_iff (whitelist : List Denom) (targets : SortedMap String LegacyDec) :
    updateRequired whitelist targets = true ↔ Differs whitelist targets := by
  unfold updateRequired Differs
  split_ifs with hlen
  · simp [hlen]
  · simp [hlen]

/-- The taxes after the update. -/
theorem applyWhitelist_get {whitelist : List Denom} {targets taxes taxes' : SortedMap String LegacyDec}
    {metadata metadata' : SortedMap String Metadata}
    (h : applyWhitelist keepers whitelist targets taxes metadata = .ok (taxes', metadata')) :
    (Differs whitelist targets → ∀ d, taxes'.get d = taxOf whitelist d) ∧
    (¬ Differs whitelist targets → taxes' = taxes) := by
  unfold applyWhitelist at h
  split_ifs at h with hupdate
  · refine ⟨?_, fun hsame => absurd ((updateRequired_iff _ _).mp hupdate) hsame⟩
    intro _ d
    rw [foldlM_listDenom h d, SortedMap.clear_eq_empty, SortedMap.get_empty, Option.or_none]
  · refine ⟨fun hdiff => absurd ((updateRequired_iff _ _).mpr hdiff) hupdate, ?_⟩
    intro _
    exact (congrArg Prod.fst (Outcome.ok.inj h)).symm

/-! ## Registering metadata -/

/-- Metadata can be made for names of two bytes or more. -/
theorem newMetadata_ok (keepers : Keepers D) {name : String} (h : 2 ≤ (bytes name).length) :
    ∃ m, newMetadata keepers name = .ok m := by
  unfold newMetadata
  rcases hname : bytes name with _ | ⟨b, _ | ⟨b', rest⟩⟩
  · simp [hname] at h
  · simp [hname] at h
  · exact ⟨_, rfl⟩

theorem newMetadata_inv {name : String} {m : Metadata} (h : newMetadata keepers name = .ok m) :
    2 ≤ (bytes name).length ∧ m.base = bytes name := by
  unfold newMetadata at h
  rcases hname : bytes name with _ | ⟨b, _ | ⟨b', rest⟩⟩
  · rw [hname] at h
    cases h
  · rw [hname] at h
    cases h
  · rw [hname] at h
    cases h
    exact ⟨by simp, rfl⟩

/-- One name: what it leads to for the name, and that nothing else changes. -/
theorem registerMetadata_inv {metadata metadata' : SortedMap String Metadata} {name : String}
    (h : registerMetadata keepers metadata name = .ok metadata') :
    (metadata.get name = none → 2 ≤ (bytes name).length ∧
      ∃ m, metadata'.get name = some m ∧ m.base = bytes name) ∧
    (∀ d, d ≠ name ∨ metadata.get d ≠ none → metadata'.get d = metadata.get d) := by
  unfold registerMetadata at h
  cases hget : metadata.get name with
  | some m =>
    rw [hget] at h
    cases h
    refine ⟨?_, fun d _ => rfl⟩
    intro hnone
    cases hnone
  | none =>
    rw [hget] at h
    obtain ⟨m, hm, h⟩ := Outcome.bind_eq_ok.mp h
    cases h
    obtain ⟨hlen, hbase⟩ := newMetadata_inv hm
    refine ⟨fun _ => ⟨hlen, m, SortedMap.get_set_self _ _ _, hbase⟩, ?_⟩
    intro d hd
    have hne : d ≠ name := by
      intro heq
      rw [heq] at hd
      exact hd.elim (fun hne => hne rfl) fun hsome => hsome hget
    rw [SortedMap.get_set, if_neg hne]

theorem registerMetadata_ok (keepers : Keepers D) {metadata : SortedMap String Metadata} {name : String}
    (h : metadata.get name = none → 2 ≤ (bytes name).length) :
    ∃ metadata', registerMetadata keepers metadata name = .ok metadata' := by
  unfold registerMetadata
  cases hget : metadata.get name with
  | some m => exact ⟨_, rfl⟩
  | none =>
    obtain ⟨m, hm⟩ := newMetadata_ok keepers (h hget)
    exact ⟨_, Outcome.bind_eq_ok.mpr ⟨m, hm, rfl⟩⟩

/-- The loop registers every name that had no metadata, and keeps what was there. -/
theorem foldlM_listDenom_metadata {whitelist : List Denom}
    {acc acc' : SortedMap String LegacyDec × SortedMap String Metadata}
    (h : whitelist.foldlM (listDenom keepers) acc = .ok acc') :
    (∀ d m, acc.2.get d = some m → acc'.2.get d = some m) ∧
    ∀ item ∈ whitelist, acc.2.get item.name = none → 2 ≤ (bytes item.name).length ∧
      ∃ m, acc'.2.get item.name = some m ∧ m.base = bytes item.name := by
  induction whitelist generalizing acc with
  | nil =>
    cases h
    exact ⟨fun _ _ hget => hget, by simp⟩
  | cons x rest ih =>
    rw [List.foldlM_cons] at h
    obtain ⟨acc₁, hstep, hrest⟩ := Outcome.bind_eq_ok.mp h
    obtain ⟨metadata, hreg, hacc₁⟩ := Outcome.bind_eq_ok.mp hstep
    cases hacc₁
    obtain ⟨hnew, hsame⟩ := registerMetadata_inv hreg
    obtain ⟨hkept, hlisted⟩ := ih hrest
    refine ⟨?_, List.forall_mem_cons.mpr ⟨?_, ?_⟩⟩
    · intro d m hget
      refine hkept d m ?_
      show metadata.get d = some m
      rw [hsame d (.inr (by rw [hget]; exact Option.some_ne_none m)), hget]
    · intro hnone
      obtain ⟨hlen, m, hm, hbase⟩ := hnew hnone
      exact ⟨hlen, m, hkept _ m hm, hbase⟩
    · intro item hitem hnone
      by_cases hname : item.name = x.name
      · rw [hname] at hnone ⊢
        obtain ⟨hlen, m, hm, hbase⟩ := hnew hnone
        exact ⟨hlen, m, hkept _ m hm, hbase⟩
      · exact hlisted item hitem ((hsame _ (.inl hname)).trans hnone)

theorem foldlM_listDenom_ok (keepers : Keepers D) {whitelist : List Denom}
    (acc : SortedMap String LegacyDec × SortedMap String Metadata)
    (h : ∀ item ∈ whitelist, acc.2.get item.name = none → 2 ≤ (bytes item.name).length) :
    ∃ acc', whitelist.foldlM (listDenom keepers) acc = .ok acc' := by
  induction whitelist generalizing acc with
  | nil => exact ⟨acc, rfl⟩
  | cons x rest ih =>
    obtain ⟨hx, hrest⟩ := List.forall_mem_cons.mp h
    obtain ⟨metadata, hreg⟩ := registerMetadata_ok keepers hx
    have hsame := (registerMetadata_inv hreg).2
    obtain ⟨acc', hacc'⟩ := ih (acc.1.set x.name x.tobinTax, metadata) (by
      intro item hitem hnone
      apply hrest item hitem
      -- what has no metadata after the first name had none before
      by_contra hsome
      exact hsome ((hsame _ (.inr hsome)).symm.trans hnone))
    refine ⟨acc', ?_⟩
    rw [List.foldlM_cons]
    exact Outcome.bind_eq_ok.mpr ⟨_, Outcome.bind_eq_ok.mpr ⟨metadata, hreg, rfl⟩, hacc'⟩

theorem taxOf_of_mem {whitelist : List Denom} {item : Denom} (hitem : item ∈ whitelist) :
    ∃ other ∈ whitelist, other.name = item.name ∧ taxOf whitelist item.name = some other.tobinTax := by
  unfold taxOf
  cases hfind : whitelist.reverse.find? (fun x => decide (x.name = item.name)) with
  | none => simpa using List.find?_eq_none.mp hfind item (List.mem_reverse.mpr hitem)
  | some other =>
    refine ⟨other, List.mem_reverse.mp (List.mem_of_find?_eq_some hfind), ?_, rfl⟩
    simpa using List.find?_some hfind

/-- Applying a whitelist returns, with the tax of every listed name and metadata for each of
them, exactly if a listed name without metadata has two bytes or more and the whitelist is not
what the targets are already. The targets are taxes of the store. -/
theorem whitelist_applied_iff (keepers : Keepers D) (whitelist : List Denom)
    {targets taxes : SortedMap String LegacyDec} (metadata : SortedMap String Metadata)
    (htargets : ∀ d t, targets.get d = some t → taxes.get d = some t) :
    (∃ taxes' metadata', applyWhitelist keepers whitelist targets taxes metadata = .ok (taxes', metadata') ∧
      (∀ item ∈ whitelist, taxes'.get item.name = taxOf whitelist item.name) ∧
      (∀ item ∈ whitelist, metadata.get item.name = none →
        ∃ m, metadata'.get item.name = some m ∧ m.base = bytes item.name) ∧
      ∀ d m, metadata.get d = some m → metadata'.get d = some m) ↔
    ∀ item ∈ whitelist, metadata.get item.name = none →
      Differs whitelist targets ∧ 2 ≤ (bytes item.name).length := by
  refine ⟨?_, ?_⟩
  · intro h item hitem hnone
    obtain ⟨taxes', metadata', happly, _, hreg, _⟩ := h
    unfold applyWhitelist at happly
    split_ifs at happly with hupdate
    · exact ⟨(updateRequired_iff _ _).mp hupdate, ((foldlM_listDenom_metadata happly).2 item hitem hnone).1⟩
    · -- nothing is done, so nothing is registered
      obtain ⟨_, rfl⟩ := Prod.mk.inj (Outcome.ok.inj happly)
      obtain ⟨m, hm, _⟩ := hreg item hitem hnone
      rw [hnone] at hm
      cases hm
  · intro h
    by_cases hdiff : Differs whitelist targets
    · obtain ⟨⟨taxes', metadata'⟩, hrun⟩ := foldlM_listDenom_ok keepers
        (taxes.clear, metadata) fun item hitem hnone => (h item hitem hnone).2
      have happly : applyWhitelist keepers whitelist targets taxes metadata = .ok (taxes', metadata') := by
        rw [applyWhitelist, if_pos ((updateRequired_iff _ _).mpr hdiff)]
        exact hrun
      obtain ⟨hkept, hlisted⟩ := foldlM_listDenom_metadata hrun
      exact ⟨taxes', metadata', happly, fun item _ => (applyWhitelist_get happly).1 hdiff item.name,
        fun item hitem hnone => (hlisted item hitem hnone).2, hkept⟩
    · have happly : applyWhitelist keepers whitelist targets taxes metadata = .ok (taxes, metadata) := by
        rw [applyWhitelist, if_neg fun hupdate => hdiff ((updateRequired_iff _ _).mp hupdate)]
      refine ⟨taxes, metadata, happly, ?_, ?_, fun d m hget => hget⟩
      · intro item hitem
        obtain ⟨other, hother, hname, htax⟩ := taxOf_of_mem hitem
        have hsame : targets.get other.name = some other.tobinTax := by
          by_contra hne
          exact hdiff (.inr ⟨other, hother, hne⟩)
        rw [htax, ← hname]
        exact htargets _ _ hsame
      · intro item hitem hnone
        exact absurd (h item hitem hnone).1 hdiff

namespace Sample

/-- A name of four bytes is registered. -/
theorem ukrw_registered : ∃ taxes' metadata',
    applyWhitelist modules [⟨"ukrw", .zero⟩] SortedMap.empty SortedMap.empty SortedMap.empty =
      .ok (taxes', metadata') ∧
    taxes'.get "ukrw" = some .zero ∧ ∃ m, metadata'.get "ukrw" = some m ∧ m.base = bytes "ukrw" := by
  have htargets : ∀ d t, (SortedMap.empty : SortedMap String LegacyDec).get d = some t →
      (SortedMap.empty : SortedMap String LegacyDec).get d = some t := fun _ _ h => h
  obtain ⟨taxes', metadata', happly, htaxes, hreg, _⟩ :=
    (whitelist_applied_iff modules [⟨"ukrw", .zero⟩] SortedMap.empty htargets).mpr (by decide +kernel)
  exact ⟨taxes', metadata', happly, htaxes _ (List.mem_singleton_self _),
    hreg _ (List.mem_singleton_self _) rfl⟩

/-- A name of one byte is accepted, and its metadata cannot be made: the end of the vote period
panics. -/
theorem one_byte_name_panics :
    Params.validateWhitelist [⟨"u", .zero⟩] = .ok () ∧
    (applyWhitelist modules [⟨"u", .zero⟩] SortedMap.empty SortedMap.empty SortedMap.empty).panicText =
      some "slice bounds out of range [:-1]" ∧
    (endBlocker app modules byKey 4 (world { voted [] [] with
      params := { params with whitelist := [⟨"u", .zero⟩] } })).panicText =
      some "slice bounds out of range [:-1]" := by
  decide +kernel

end Sample

/-! ## The targets that are compared -/

section Standing

variable (env : Env) (staking : Staking) (k : Store)

/-- No ballot of the denomination failed: it has none, or one that counts. -/
def Standing (d : String) : Prop :=
  ∀ ballot, (periodBallots env staking k).get d = some ballot →
    Passing (staking.threshold k.params) k.tobinTaxes (d, ballot)

instance (d : String) : Decidable (Standing env staking k d) :=
  match h : (periodBallots env staking k).get d with
  | none => .isTrue (fun ballot hget => by rw [h] at hget; cases hget)
  | some ballot =>
    decidable_of_iff (Passing (staking.threshold k.params) k.tobinTaxes (d, ballot))
      ⟨fun hp ballot' hget => by rw [h] at hget; cases hget; exact hp, fun hs => hs ballot h⟩

/-- The vote targets without a failed ballot. -/
def standingTargets : SortedMap String LegacyDec :=
  k.tobinTaxes.filter (fun e => decide (Standing env staking k e.1))

variable {env staking k}

theorem Selected.standing {sel : Selection}
    (h : Selected (staking.threshold k.params) k.tobinTaxes (periodBallots env staking k) sel) :
    sel.voteTargets = standingTargets env staking k := by
  apply SortedMap.ext_get
  intro d
  apply Option.ext
  intro t
  rw [h.targets_left, standingTargets, SortedMap.get_filter, decide_eq_true_iff]
  rfl

end Standing

variable {env : Env} {ord : Orders}

/-- After a vote period the taxes are those of the whitelist exactly if they were before,
or if the whitelist differs from the targets without a failed ballot. -/
theorem targets_follow_whitelist_iff {height : Nat} {w w' : World D}
    (hlast : isPeriodLastBlock height w.oracle.params.votePeriod = .ok true)
    (h : endBlocker env keepers ord height w = .ok w') :
    (∀ d, w'.oracle.tobinTaxes.get d = taxOf w.oracle.params.whitelist d) ↔
      (∀ d, w.oracle.tobinTaxes.get d = taxOf w.oracle.params.whitelist d) ∨
        Differs w.oracle.params.whitelist (standingTargets env w.staking w.oracle) := by
  obtain ⟨w₁, counters, hperiod, hw'⟩ := endBlocker_inv h hlast
  obtain ⟨p, taxes, metadata, hp, hlist, hw₁⟩ := endPeriod_inv hperiod
  obtain ⟨sel, hsel, htargets, _⟩ := updateExchangeRates_inv hp
  have htaxes : w'.oracle.tobinTaxes = taxes := by rw [hw', hw₁]
  rw [htargets, hsel.standing] at hlist
  obtain ⟨hupdate, hkeep⟩ := applyWhitelist_get hlist
  rw [htaxes]
  by_cases hdiff : Differs w.oracle.params.whitelist (standingTargets env w.staking w.oracle)
  · exact ⟨fun _ => .inr hdiff, fun _ => hupdate hdiff⟩
  · rw [hkeep hdiff]
    exact ⟨fun hall => .inl hall, fun hall => hall.resolve_right hdiff⟩

namespace Sample

open Sdk.Sample (alice aliceText aliceOperator)

/-- Both denominations are targets, and only one of them is still on the whitelist. -/
def delisted (votes : SortedMap ValAddress AggregateDoRateVote) : Store :=
  { voted [] [] with
    params := { params with voteThreshold := ⟨90 * 10 ^ 16⟩, whitelist := [⟨"ukrw", .zero⟩] }
    votes := votes }

/-- Alice alone votes on the denomination that is not on the whitelist any more. Its
ballot fails, and it stays a target. -/
theorem failed_ballot_keeps_target :
    (delisted SortedMap.empty).params.validate = .ok () ∧
    Cast app alice ⟨[⟨"uusd", .one⟩], aliceOperator⟩ ∧
    (endBlocker app modules byKey 4 (world (delisted
      (SortedMap.empty.set alice ⟨[⟨"uusd", .one⟩], aliceOperator⟩)))).value.map
      (fun w => w.oracle.tobinTaxes.get "uusd") = some (some .zero) ∧
    taxOf (delisted SortedMap.empty).params.whitelist "uusd" = none := by
  exact ⟨by decide +kernel, alice_casts_uusd, by decide +kernel, by decide +kernel⟩

/-- Without votes the whitelist is applied. -/
theorem quiet_period_delists :
    ∃ w', endBlocker app modules byKey 4 (world (delisted SortedMap.empty)) = .ok w' ∧
      ∀ d, w'.oracle.tobinTaxes.get d = taxOf [⟨"ukrw", .zero⟩] d := by
  have hrun : (endBlocker app modules byKey 4 (world (delisted SortedMap.empty))).value.map
      (fun w => w.oracle.tobinTaxes.get "uusd") = some none := by decide +kernel
  obtain ⟨w', hw', _⟩ := Outcome.value_map_eq_some.mp hrun
  refine ⟨w', hw', (targets_follow_whitelist_iff (by decide +kernel) hw').mpr (.inr ?_)⟩
  decide +kernel

end Sample

end Oracle
