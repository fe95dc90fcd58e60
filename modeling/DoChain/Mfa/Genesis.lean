import DoChain.Mfa.Types

/- Export and import of the MFA policies (`x/mfa/genesis.go`).

   Correspondence (Go ↔ Lean):
     `types/policy.go: ValidateGenesis` ↔ `validateGenesis`
     `genesis.go: InitGenesis`          ↔ `initGenesis`
     `genesis.go: ExportGenesis`        ↔ `exportGenesis`

   A policy is written under the text of its account, and read under the text that its
   address is rendered as. An address has other accepted spellings, and the check of a
   genesis compares texts. `genesis_enforced_iff` says for which genesis the stored
   policies are those it lists. -/

namespace Mfa

open Sdk

structure GenesisState where
  policies : List Policy

variable {b : Bech32}

/-- The loop over the policies, with the accounts it has seen. -/
def validatePolicies (b : Bech32) (seen : List String) : List Policy → Except String Unit
  | [] => .ok ()
  | policy :: rest =>
    match policy.validateBasic b with
    | .error e => .error e
    | .ok () =>
      if policy.account ∈ seen then .error ("duplicate mfa policy for account " ++ policy.account)
      else validatePolicies b (policy.account :: seen) rest

def validateGenesis (b : Bech32) (gs : GenesisState) : Except String Unit := validatePolicies b [] gs.policies

def initPolicy (s : PolicyStore b) (policy : Policy) : Outcome String (PolicyStore b) :=
  .orPanic (s.setPolicy policy)

def initGenesis (s : PolicyStore b) (gs : GenesisState) : Outcome String (PolicyStore b) := do
  .orPanic (validateGenesis b gs)
  gs.policies.foldlM initPolicy s

/-- A key that does not decode, or whose account has no enabled policy, is skipped. -/
def exportGenesis (s : PolicyStore b) : GenesisState where
  policies := s.policies.entries.filterMap fun e =>
    match b.accAddressFromBech32 e.1 with
    | .error _ => none
    | .ok addr => s.getPolicy addr

/-! ## What is stored -/

theorem validatePolicies_eq_ok {seen : List String} {ps : List Policy} :
    validatePolicies b seen ps = .ok () ↔
      (∀ p ∈ ps, p.validateBasic b = .ok ()) ∧ (∀ p ∈ ps, p.account ∉ seen) ∧ (ps.map Policy.account).Nodup := by
  induction ps generalizing seen with
  | nil => simp [validatePolicies]
  | cons p rest ih =>
    rw [validatePolicies]
    cases hp : p.validateBasic b with
    | error e => simp [hp]
    | ok =>
      by_cases hseen : p.account ∈ seen
      · simp [hseen]
      · simp only [if_neg hseen]
        rw [ih, List.forall_mem_cons, List.forall_mem_cons, List.map_cons, List.nodup_cons]
        refine ⟨?_, ?_⟩
        · intro h
          obtain ⟨hvalid, hfresh, hnd⟩ := h
          refine ⟨⟨hp, hvalid⟩, ⟨hseen, fun q hq => List.not_mem_of_not_mem_cons (hfresh q hq)⟩, ?_, hnd⟩
          intro hmem
          obtain ⟨q, hq, heq⟩ := List.mem_map.mp hmem
          exact List.ne_of_not_mem_cons (hfresh q hq) heq
        · intro h
          obtain ⟨hvalid, hfresh, hhead, hnd⟩ := h
          refine ⟨hvalid.2, fun q hq => List.not_mem_cons_of_ne_of_not_mem ?_ (hfresh.2 q hq), hnd⟩
          intro heq
          exact hhead (List.mem_map.mpr ⟨q, hq, heq⟩)

theorem validateGenesis_eq_ok {gs : GenesisState} :
    validateGenesis b gs = .ok () ↔
      (∀ p ∈ gs.policies, p.validateBasic b = .ok ()) ∧ (gs.policies.map Policy.account).Nodup := by
  rw [validateGenesis, validatePolicies_eq_ok]
  simp

/-- The account of a policy that passed its check decodes. -/
theorem Policy.decodes {p : Policy} (h : p.validateBasic b = .ok ()) :
    ∃ a, b.accAddressFromBech32 p.account = .ok a := by
  unfold validateBasic at h
  split at h
  · cases h
  · exact ⟨_, ‹_›⟩

/-- Policies that pass their checks are written one after another. -/
theorem foldlM_setPolicy {ps : List Policy} (hvalid : ∀ p ∈ ps, p.validateBasic b = .ok ()) (s : PolicyStore b) :
    ∃ s', ps.foldlM initPolicy s = .ok s' ∧
      s'.policies = ps.foldl (fun m p => m.set p.account p) s.policies := by
  induction ps generalizing s with
  | nil => exact ⟨s, rfl, rfl⟩
  | cons p rest ih =>
    obtain ⟨hp, hrest⟩ := List.forall_mem_cons.mp hvalid
    obtain ⟨s', hrun, hmap⟩ := ih hrest (s.put p hp)
    have hset : s.setPolicy p = .ok (s.put p hp) := PolicyStore.setPolicy_eq_ok.mpr ⟨hp, rfl⟩
    refine ⟨s', ?_, hmap⟩
    rw [List.foldlM_cons, initPolicy, hset]
    exact hrun

theorem get_foldl_account {ps : List Policy} (hnd : (ps.map Policy.account).Nodup) {k : String} {p : Policy} :
    (ps.foldl (fun m p => m.set p.account p) (SortedMap.empty : SortedMap String Policy)).get k = some p ↔
      p ∈ ps ∧ p.account = k := by
  have hkeys : ((ps.map fun p => (p.account, p)).map Prod.fst).Nodup := by
    rw [List.map_map]
    exact hnd
  have hfold := SortedMap.get_foldl_update (fun e : String × Policy => some e.2) hkeys SortedMap.empty k
  rw [List.foldl_map] at hfold
  have hfind : SortedMap.find k (ps.map fun p => (p.account, p)) = some p ↔ p ∈ ps ∧ p.account = k := by
    refine ⟨?_, ?_⟩
    · intro h
      obtain ⟨q, hq, heq⟩ := List.mem_map.mp (SortedMap.mem_of_find h)
      cases heq
      exact ⟨hq, rfl⟩
    · intro h
      obtain ⟨hp, rfl⟩ := h
      exact SortedMap.find_of_mem hkeys (List.mem_map.mpr ⟨p, hp, rfl⟩)
  rw [← hfind]
  refine (Eq.congr_left hfold).trans ?_
  cases SortedMap.find k (ps.map fun p => (p.account, p)) <;> simp

/-- The import of an accepted genesis returns a store with its policies, each under the
text of its account. -/
theorem initGenesis_ok {gs : GenesisState} (h : validateGenesis b gs = .ok ()) :
    ∃ s, initGenesis (PolicyStore.empty : PolicyStore b) gs = .ok s ∧
      ∀ k p, s.policies.get k = some p ↔ p ∈ gs.policies ∧ p.account = k := by
  obtain ⟨hvalid, hnd⟩ := validateGenesis_eq_ok.mp h
  obtain ⟨s, hrun, hmap⟩ := foldlM_setPolicy hvalid (PolicyStore.empty : PolicyStore b)
  refine ⟨s, ?_, ?_⟩
  · rw [initGenesis, h]
    exact hrun
  · intro k p
    rw [hmap]
    exact get_foldl_account hnd

/-! ## What is read -/

/-- The stored policies are those of the genesis: an enabled one is read for its address,
no two have one address, and the enabled ones are exported. -/
structure Enforced (gs : GenesisState) (s : PolicyStore b) : Prop where
  read : ∀ p ∈ gs.policies, p.enabled = true →
    ∀ a, b.accAddressFromBech32 p.account = .ok a → s.getPolicy a = some p
  apart : gs.policies.Pairwise fun p q => b.accAddressFromBech32 p.account ≠ b.accAddressFromBech32 q.account
  exported : ∀ p, p ∈ (exportGenesis s).policies ↔ p ∈ gs.policies ∧ p.enabled = true

/-- The account of every policy is the text that its address is rendered as, or else the
policy is disabled and no other account is a spelling of the address. -/
def Canonical (b : Bech32) (gs : GenesisState) : Prop :=
  ∀ p ∈ gs.policies, ∀ a, b.accAddressFromBech32 p.account = .ok a → p.account = b.string a ∨
    (p.enabled = false ∧ ∀ q ∈ gs.policies, q.account ≠ p.account → b.accAddressFromBech32 q.account ≠ .ok a)

section

variable {gs : GenesisState} {s : PolicyStore b}

theorem getPolicy_eq_some (hs : ∀ k p, s.policies.get k = some p ↔ p ∈ gs.policies ∧ p.account = k)
    {a : AccAddress} {p : Policy} :
    s.getPolicy a = some p ↔ p ∈ gs.policies ∧ p.account = b.string a ∧ p.enabled = true := by
  rw [PolicyStore.getPolicy, Option.filter_eq_some_iff, hs, and_assoc]

theorem mem_exportGenesis (hs : ∀ k p, s.policies.get k = some p ↔ p ∈ gs.policies ∧ p.account = k)
    {p : Policy} :
    p ∈ (exportGenesis s).policies ↔
      (∃ q ∈ gs.policies, ∃ a, b.accAddressFromBech32 q.account = .ok a ∧ p.account = b.string a) ∧
        p ∈ gs.policies ∧ p.enabled = true := by
  simp only [exportGenesis, List.mem_filterMap]
  refine ⟨?_, ?_⟩
  · intro h
    obtain ⟨e, he, hread⟩ := h
    obtain ⟨hq, hkey⟩ := (hs e.1 e.2).mp (SortedMap.get_eq_some.mpr he)
    split at hread
    · cases hread
    · rename_i a ha
      obtain ⟨hp, haccount, henabled⟩ := (getPolicy_eq_some hs).mp hread
      exact ⟨⟨e.2, hq, a, hkey ▸ ha, haccount⟩, hp, henabled⟩
  · intro h
    obtain ⟨⟨q, hq, a, ha, haccount⟩, hp, henabled⟩ := h
    refine ⟨(q.account, q), SortedMap.get_eq_some.mp ((hs _ _).mpr ⟨hq, rfl⟩), ?_⟩
    simp only [ha]
    exact (getPolicy_eq_some hs).mpr ⟨hp, haccount, henabled⟩

/-- A policy that is not under its canonical text is read for no address. -/
theorem Enforced.canonical (hs : ∀ k p, s.policies.get k = some p ↔ p ∈ gs.policies ∧ p.account = k)
    (h : Enforced gs s) : Canonical b gs := by
  intro p hp a ha
  by_cases henabled : p.enabled = true
  · obtain ⟨_, haccount, _⟩ := (getPolicy_eq_some hs).mp (h.read p hp henabled a ha)
    exact .inl haccount
  · refine .inr ⟨by simpa using henabled, ?_⟩
    intro q hq hne hqa
    have hsymm : Std.Symm fun p q : Policy =>
        b.accAddressFromBech32 p.account ≠ b.accAddressFromBech32 q.account := ⟨fun _ _ => Ne.symm⟩
    have hpq : q ≠ p := fun heq => hne (congrArg Policy.account heq)
    exact h.apart.forall hq hp hpq (hqa.trans ha.symm)

theorem Canonical.enforced (hs : ∀ k p, s.policies.get k = some p ↔ p ∈ gs.policies ∧ p.account = k)
    (hvalid : validateGenesis b gs = .ok ()) (h : Canonical b gs) : Enforced gs s := by
  obtain ⟨hpolicies, hnd⟩ := validateGenesis_eq_ok.mp hvalid
  have henabled : ∀ p ∈ gs.policies, p.enabled = true →
      ∀ a, b.accAddressFromBech32 p.account = .ok a → p.account = b.string a := by
    intro p hp henabled a ha
    cases h p hp a ha with
    | inl heq => exact heq
    | inr hodd => exact absurd (henabled.symm.trans hodd.1) (by decide)
  refine ⟨?_, ?_, ?_⟩
  · intro p hp hen a ha
    exact (getPolicy_eq_some hs).mpr ⟨hp, henabled p hp hen a ha, hen⟩
  · -- two spellings of one address cannot both be the canonical one
    refine (List.pairwise_map.mp hnd).imp_of_mem ?_
    intro p q hp hq hne heq
    obtain ⟨a, ha⟩ := Policy.decodes (hpolicies p hp)
    have hqa := heq.symm.trans ha
    cases h p hp a ha with
    | inr hodd => exact hodd.2 q hq (Ne.symm hne) hqa
    | inl hpcanon =>
      cases h q hq a hqa with
      | inr hodd => exact hodd.2 p hp hne ha
      | inl hqcanon => exact hne (hpcanon.trans hqcanon.symm)
  · intro p
    rw [mem_exportGenesis hs]
    refine ⟨fun hmem => hmem.2, fun hmem => ⟨?_, hmem⟩⟩
    obtain ⟨a, ha⟩ := Policy.decodes (hpolicies p hmem.1)
    exact ⟨p, hmem.1, a, ha, henabled p hmem.1 hmem.2 a ha⟩

end

/-- An accepted genesis is stored, read and exported as it is written exactly if every
account is spelled as its address is rendered, up to disabled policies whose address no
other policy has. -/
theorem genesis_enforced_iff {gs : GenesisState} (hvalid : validateGenesis b gs = .ok ()) :
    (∃ s, initGenesis (PolicyStore.empty : PolicyStore b) gs = .ok s ∧ Enforced gs s) ↔ Canonical b gs := by
  obtain ⟨s, hrun, hs⟩ := initGenesis_ok hvalid
  refine ⟨?_, ?_⟩
  · intro h
    obtain ⟨s', hrun', henforced⟩ := h
    rw [hrun] at hrun'
    cases hrun'
    exact henforced.canonical hs
  · intro h
    exact ⟨s, hrun, h.enforced hs hvalid⟩

namespace Sample

open Sdk.Sample

/-- All upper case. -/
def aliceUpper : String := "DO1XWU5KU9M6S60PTGPJFTXN0KLX35CX26CVKH0RD"

theorem string_ne_aliceUpper (a : AccAddress) : bech32.string a ≠ aliceUpper :=
  encode_ne (by decide) (by decide) a

def spelled : Bech32 := withSpelling bech32 aliceUpper alice string_ne_aliceUpper (by decide)

def policyOf (account : String) : Policy := ⟨account, List.replicate 33 2, true, "", none⟩

/-- Policies of two accounts, each under its canonical text. -/
def canonicalGenesis : GenesisState := ⟨[policyOf aliceText, policyOf bobText]⟩

theorem canonical_enforced :
    ∃ s, initGenesis (PolicyStore.empty : PolicyStore spelled) canonicalGenesis = .ok s ∧
      Enforced canonicalGenesis s := by
  apply (genesis_enforced_iff (by decide +kernel)).mpr
  have hcanon : ∀ p ∈ canonicalGenesis.policies, ∃ a,
      spelled.accAddressFromBech32 p.account = .ok a ∧ p.account = spelled.string a := by
    refine List.forall_mem_cons.mpr ⟨⟨alice, ?_, ?_⟩, List.forall_mem_cons.mpr ⟨⟨bob, ?_, ?_⟩, by simp⟩⟩ <;>
      decide +kernel
  intro p hp a ha
  obtain ⟨a', ha', htext⟩ := hcanon p hp
  rw [ha'] at ha
  cases ha
  exact .inl htext

/-- An enabled policy under the upper-case text, next to one under the canonical text. -/
def spelledGenesis : GenesisState := ⟨[policyOf aliceUpper, policyOf aliceText]⟩

/-- Both are accepted, though they have one address, and the first is read for no account
and not exported. -/
theorem spelling_not_enforced : validateGenesis spelled spelledGenesis = .ok () ∧
    spelled.accAddressFromBech32 aliceUpper = spelled.accAddressFromBech32 aliceText ∧
    ∃ s, initGenesis (PolicyStore.empty : PolicyStore spelled) spelledGenesis = .ok s ∧
      s.getPolicy alice = some (policyOf aliceText) ∧
      policyOf aliceUpper ∉ (exportGenesis s).policies := by
  have hvalid : validateGenesis spelled spelledGenesis = .ok () := by decide +kernel
  obtain ⟨s, hrun, hs⟩ := initGenesis_ok hvalid
  refine ⟨hvalid, by decide +kernel, s, hrun, ?_, ?_⟩
  · exact (getPolicy_eq_some hs).mpr ⟨by simp [spelledGenesis], by decide +kernel, rfl⟩
  · intro hmem
    obtain ⟨⟨q, _, a, _, htext⟩, _⟩ := (mem_exportGenesis hs).mp hmem
    exact string_ne_aliceUpper a htext.symm

end Sample

end Mfa
