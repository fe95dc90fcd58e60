import DoChain.Oracle.CommitReveal
import DoChain.Oracle.Misses
import DoChain.Oracle.SlashWindow

/- Slash windows over runs (`EndBlocker` of `x/oracle/abci.go`, `SlashAndResetMissCounters`
   of `x/oracle/keeper/slash.go`).

   A run is one of prevotes, votes, delegations, ends of blocks and steps of other modules,
   in any order. `MissedPeriod` is a block that ends a vote period a validator missed, and
   `misses` counts these blocks of a run. `ChainStep.counter` says what one step does to the
   counter of a validator, `counter_run` what a run within a window does, and
   `window_judges_misses` what this comes to at the end of the window: the counter is the
   number of missed periods, and it alone decides who goes to jail.

   The counters and the windows are `uint64` that the code converts to `int64`. Heights are
   `int64`, so a window that ends at all is one as well, and a counter that grows by at most
   one a block never wraps around. The parameters may change within the window. -/

namespace Oracle

open Sdk

variable {env : Env} {D : Type} {keepers : Keepers D}

/-! ## Steps that matter -/

/-- The end of a block that is the last of a vote period. -/
def ChainStep.EndsPeriod (st : ChainStep env keepers) : Prop :=
  (∃ ord, st.action = .endBlock ord) ∧ (st.before.height + 1) % st.before.oracle.params.votePeriod = 0

/-- The end of a block that is the last of a slash window. -/
def ChainStep.EndsWindow (st : ChainStep env keepers) : Prop :=
  (∃ ord, st.action = .endBlock ord) ∧ (st.before.height + 1) % st.before.oracle.params.slashWindow = 0

variable (env) in
/-- A validator among those that are to vote. -/
def IsVoter (staking : Staking) (a : ValAddress) : Prop :=
  ∃ operator claim, (activeClaims env staking.maxValidators staking.byPower SortedMap.empty).get operator =
    some claim ∧ claim.recipient = a

/-- The end of a vote period that a validator was to vote in and missed. -/
structure ChainStep.MissedPeriod (st : ChainStep env keepers) (a : ValAddress) : Prop where
  ends : st.EndsPeriod
  voter : IsVoter env st.before.world.staking a
  missed : Missed env st.before.world.staking st.before.oracle a

open Classical in
/-- The vote periods of a run that a validator missed. -/
noncomputable def misses (steps : List (ChainStep env keepers)) (a : ValAddress) : Nat :=
  steps.countP (fun st => decide (st.MissedPeriod a))

/-- Other modules leave the counters alone. At the end of a block the staking module finds
validators under their addresses, and the vote targets are as many as an `int64` counts. -/
structure ChainStep.Regular (st : ChainStep env keepers) : Prop where
  counters : st.action = .other → st.after.oracle.missCounters = st.before.oracle.missCounters
  indexed : st.before.world.staking.Indexed env
  targets : st.before.oracle.tobinTaxes.entries.length < 2 ^ 63

/-- Votes that messages cast, and counters that are `uint64`. -/
structure Chain.Sound (env : Env) (c : Chain D) : Prop where
  cast : ∀ a v, c.oracle.votes.get a = some v → Cast env a v
  counters : c.oracle.missCounters.All (fun _ misses => misses < 2 ^ 64)

/-! ## The count of a period -/

section Period

variable {ord : Orders} {staking : Staking} {k : Store} {p : PeriodEnd}

theorem mem_visited_iff (hvotes : ∀ a v, k.votes.get a = some v → Cast env a v)
    (hindexed : staking.Indexed env) (hlen : k.tobinTaxes.entries.length < 2 ^ 63)
    (h : updateExchangeRates env ord staking k = .ok p) (a : ValAddress) :
    (∃ e ∈ ord.misses.range p.claims, e.2.recipient = a) ↔ IsVoter env staking a := by
  obtain ⟨sel, hsel, _, hrates⟩ := updateExchangeRates_inv h
  have hclaims := claims_get hvotes hindexed hlen hsel rfl hrates
  refine ⟨?_, ?_⟩
  · intro hvisited
    obtain ⟨e, he, ha⟩ := hvisited
    obtain ⟨claim, hget, hrec, _⟩ := visited_claim hvotes hindexed hlen h he
    exact ⟨e.1, claim, hget, hrec.symm.trans ha⟩
  · intro hvoter
    obtain ⟨operator, claim, hget, ha⟩ := hvoter
    obtain ⟨claim', hget', hrec, _⟩ := (hclaims operator).2 claim hget
    exact ⟨(operator, claim'), SortedMap.RangeOrder.mem_range.mpr hget', hrec.trans ha⟩

open Classical in
/-- A period adds one to the counter of a voter that missed it. -/
theorem getMissCounter_countMisses (hvotes : ∀ a v, k.votes.get a = some v → Cast env a v)
    (hindexed : staking.Indexed env) (hlen : k.tobinTaxes.entries.length < 2 ^ 63)
    (h : updateExchangeRates env ord staking k = .ok p) (a : ValAddress) :
    getMissCounter (countMisses ord p k.missCounters) a =
      if IsVoter env staking a ∧ Missed env staking k a then (getMissCounter k.missCounters a + 1) % 2 ^ 64
      else getMissCounter k.missCounters a := by
  split_ifs with hmissed
  · obtain ⟨e, he, ha⟩ := (mem_visited_iff hvotes hindexed hlen h a).mpr hmissed.1
    obtain ⟨_, _, _, hwon⟩ := visited_claim hvotes hindexed hlen h he
    have hlost : e.2.winCount ≠ (p.voteTargets.entries.length : Nat) := by
      intro hall
      exact hwon.mp hall (ha ▸ hmissed.2)
    have hraised := get_foldl_countMiss_of_missed (visited_recipients_nodup hvotes hindexed hlen h) he hlost
      k.missCounters
    rw [ha] at hraised
    rw [getMissCounter, countMisses, hraised]
    rfl
  · rw [getMissCounter, countMisses, get_foldl_countMiss_of_won, ← getMissCounter]
    intro e he ha
    obtain ⟨_, _, _, hwon⟩ := visited_claim hvotes hindexed hlen h he
    refine hwon.mpr ?_
    intro hmiss
    exact hmissed ⟨(mem_visited_iff hvotes hindexed hlen h a).mp ⟨e, he, ha⟩, ha ▸ hmiss⟩

theorem getMissCounter_lt {counters : SortedMap ValAddress Nat}
    (h : counters.All (fun _ misses => misses < 2 ^ 64)) (a : ValAddress) :
    getMissCounter counters a < 2 ^ 64 := by
  unfold getMissCounter
  cases hget : counters.get a with
  | none => decide
  | some n => exact h a n hget

/-- Counters stay `uint64`. -/
theorem all_countMisses {counters : SortedMap ValAddress Nat}
    (h : counters.All (fun _ misses => misses < 2 ^ 64)) :
    (countMisses ord p counters).All (fun _ misses => misses < 2 ^ 64) := by
  unfold countMisses
  generalize ord.misses.range p.claims = es
  induction es generalizing counters with
  | nil => exact h
  | cons e rest ih =>
    apply ih
    unfold countMiss
    split_ifs
    · exact h
    · exact h.set (Nat.mod_lt _ (by decide))

end Period

/-! ## The end of a block -/

section Block

variable {ord : Orders} {height : Nat} {w w' : World D}

/-- What the end of a vote period leaves to the end of a window: the staking module as it
was, and the counters of the period. -/
theorem atPeriodEnd_period {blocks : Nat}
    (h : atPeriodEnd height blocks (endPeriod env keepers ord height) w = .ok w') :
    w'.staking = w.staking ∧ w'.oracle.params = w.oracle.params ∧
      ((isPeriodLastBlock height blocks = .ok true ∧ ∃ p, updateExchangeRates env ord w.staking w.oracle = .ok p ∧
          w'.oracle.missCounters = countMisses ord p w.oracle.missCounters) ∨
        (isPeriodLastBlock height blocks = .ok false ∧ w'.oracle.missCounters = w.oracle.missCounters)) := by
  rcases atPeriodEnd_inv h with ⟨hlast, hperiod⟩ | ⟨hlast, rfl⟩
  · obtain ⟨p, hp, hperiod⟩ := Outcome.bind_eq_ok.mp hperiod
    obtain ⟨_, _, hperiod⟩ := Outcome.bind_eq_ok.mp hperiod
    obtain ⟨_, _, hperiod⟩ := Outcome.bind_eq_ok.mp hperiod
    cases hperiod
    exact ⟨rfl, rfl, .inl ⟨hlast, p, hp, rfl⟩⟩
  · exact ⟨rfl, rfl, .inr ⟨hlast, rfl⟩⟩

theorem all_atPeriodEnd {blocks : Nat}
    (h : atPeriodEnd height blocks (endPeriod env keepers ord height) w = .ok w')
    (hcounters : w.oracle.missCounters.All (fun _ misses => misses < 2 ^ 64)) :
    w'.oracle.missCounters.All (fun _ misses => misses < 2 ^ 64) := by
  obtain ⟨_, _, ⟨_, p, _, hcounted⟩ | ⟨_, hsame⟩⟩ := atPeriodEnd_period h
  · rw [hcounted]
    exact all_countMisses hcounters
  · rw [hsame]
    exact hcounters

/-- The end of a window deletes counters and sets none. -/
theorem slashAndReset_erases (h : slashAndResetMissCounters keepers height w = .ok w') :
    ∀ a misses, w'.oracle.missCounters.get a = some misses → w.oracle.missCounters.get a = some misses := by
  obtain ⟨periods, acc, _, _, hfold, rfl⟩ := slashAndReset_inv h
  refine Outcome.foldlM_invariant (P := fun acc : Staking × SortedMap ValAddress Nat =>
    ∀ a misses, acc.2.get a = some misses → w.oracle.missCounters.get a = some misses) ?_
    (fun _ _ hget => hget) hfold
  intro acc acc' e _ hacc hstep
  have herase : ∀ a misses, (acc.2.erase e.1).get a = some misses → w.oracle.missCounters.get a = some misses := by
    intro a misses hget
    rw [SortedMap.get_erase] at hget
    split_ifs at hget
    exact hacc a misses hget
  obtain ⟨rate, _, hstep⟩ := Outcome.bind_eq_ok.mp hstep
  split_ifs at hstep
  · split at hstep
    · cases hstep
      exact hacc
    · obtain ⟨_, _, hstep⟩ := Outcome.bind_eq_ok.mp hstep
      cases hstep
      exact herase
  · cases hstep
    exact herase

end Block

/-! ## One step -/

section Step

variable {st : ChainStep env keepers}

/-- The end of a block, in two parts. -/
theorem ChainStep.block {ord : Orders} (haction : st.action = .endBlock ord) :
    st.after.height = st.before.height + 1 ∧ ∃ w₁,
      atPeriodEnd st.before.height st.before.oracle.params.votePeriod
        (endPeriod env keepers ord st.before.height) st.before.world = .ok w₁ ∧
      atPeriodEnd st.before.height st.before.oracle.params.slashWindow
        (slashAndResetMissCounters keepers st.before.height) w₁ = .ok st.after.world := by
  have hoccurs := st.occurs
  rw [haction] at hoccurs
  obtain ⟨w₁, hperiod, hwindow⟩ := Outcome.bind_eq_ok.mp hoccurs.1
  exact ⟨hoccurs.2, w₁, hperiod, hwindow⟩

/-- Messages leave the counters alone. -/
theorem ChainStep.Regular.counters_of_message (hst : st.Regular) (h : ∀ ord, st.action ≠ .endBlock ord) :
    st.after.oracle.missCounters = st.before.oracle.missCounters ∧ st.after.height = st.before.height := by
  have hoccurs := st.occurs
  cases haction : st.action with
  | prevote msg =>
    rw [haction] at hoccurs
    obtain ⟨_, k, hk, hafter⟩ := hoccurs
    obtain ⟨_, _, _, _, rfl⟩ := aggregateDoRatePrevote_inv hk
    rw [hafter]
    exact ⟨rfl, rfl⟩
  | vote msg =>
    rw [haction] at hoccurs
    obtain ⟨_, k, hk, hafter⟩ := hoccurs
    obtain ⟨_, _, _, _, _, _, _, _, _, _, _, _, rfl⟩ := aggregateDoRateVote_inv hk
    rw [hafter]
    exact ⟨rfl, rfl⟩
  | delegate msg =>
    rw [haction] at hoccurs
    obtain ⟨_, k, hk, hafter⟩ := hoccurs
    obtain ⟨_, _, _, _, rfl⟩ := delegateFeedConsent_inv hk
    rw [hafter]
    exact ⟨rfl, rfl⟩
  | endBlock ord => exact absurd haction (h ord)
  | other =>
    rw [haction] at hoccurs
    exact ⟨hst.counters haction, hoccurs.1⟩

theorem ChainStep.endsPeriod_iff {ord : Orders} (haction : st.action = .endBlock ord) {last : Bool}
    (h : isPeriodLastBlock st.before.height st.before.oracle.params.votePeriod = .ok last) :
    last = true ↔ st.EndsPeriod := by
  rw [(isPeriodLastBlock_eq st.before.height_lt h).2]
  exact ⟨fun hmod => ⟨⟨ord, haction⟩, hmod⟩, fun hends => hends.2⟩

theorem ChainStep.endsWindow_iff {ord : Orders} (haction : st.action = .endBlock ord) {last : Bool}
    (h : isPeriodLastBlock st.before.height st.before.oracle.params.slashWindow = .ok last) :
    last = true ↔ st.EndsWindow := by
  rw [(isPeriodLastBlock_eq st.before.height_lt h).2]
  exact ⟨fun hmod => ⟨⟨ord, haction⟩, hmod⟩, fun hends => hends.2⟩

open Classical in
/-- What a vote period adds to a counter before the window is looked at. -/
theorem ChainStep.Regular.counter_period (hst : st.Regular) (hsound : st.before.Sound env) {ord : Orders}
    (haction : st.action = .endBlock ord) {w₁ : World D}
    (hperiod : atPeriodEnd st.before.height st.before.oracle.params.votePeriod
      (endPeriod env keepers ord st.before.height) st.before.world = .ok w₁) (a : ValAddress) :
    getMissCounter w₁.oracle.missCounters a =
      (getMissCounter st.before.oracle.missCounters a + if st.MissedPeriod a then 1 else 0) % 2 ^ 64 := by
  have hlt := getMissCounter_lt hsound.counters a
  obtain ⟨_, _, ⟨hlast, p, hp, hcounters⟩ | ⟨hlast, hcounters⟩⟩ := atPeriodEnd_period hperiod
  · have hends := (endsPeriod_iff haction hlast).mp rfl
    rw [hcounters]
    refine (getMissCounter_countMisses hsound.cast hst.indexed hst.targets hp a).trans ?_
    have hiff : (IsVoter env st.before.world.staking a ∧ Missed env st.before.world.staking st.before.oracle a) ↔
        st.MissedPeriod a := ⟨fun h => ⟨hends, h.1, h.2⟩, fun h => ⟨h.voter, h.missed⟩⟩
    by_cases hmissed : st.MissedPeriod a
    · rw [if_pos (hiff.mpr hmissed), if_pos hmissed]
    · rw [if_neg (fun h => hmissed (hiff.mp h)), if_neg hmissed, Nat.add_zero, Nat.mod_eq_of_lt hlt]
  · have hnot : ¬ st.MissedPeriod a := by
      intro hmissed
      exact Bool.false_ne_true ((endsPeriod_iff haction hlast).mpr hmissed.ends)
    rw [hcounters, if_neg hnot, Nat.add_zero, Nat.mod_eq_of_lt hlt]
    rfl

open Classical in
/-- Within a window, a step raises the counter of a validator by one if it ends a period the
validator missed, and leaves it otherwise. -/
theorem ChainStep.Regular.counter (hst : st.Regular) (hsound : st.before.Sound env) (hinside : ¬ st.EndsWindow)
    (a : ValAddress) :
    getMissCounter st.after.oracle.missCounters a =
      (getMissCounter st.before.oracle.missCounters a + if st.MissedPeriod a then 1 else 0) % 2 ^ 64 := by
  by_cases hblock : ∃ ord, st.action = .endBlock ord
  · obtain ⟨ord, haction⟩ := hblock
    obtain ⟨_, w₁, hperiod, hwindow⟩ := st.block haction
    rcases atPeriodEnd_inv hwindow with ⟨hlast, _⟩ | ⟨_, hsame⟩
    · exact absurd ((endsWindow_iff haction hlast).mp rfl) hinside
    · rw [Chain.oracle, ← hsame]
      exact hst.counter_period hsound haction hperiod a
  · have hnot : ¬ st.MissedPeriod a := fun h => hblock h.ends.1
    have hmessage : ∀ ord, st.action ≠ .endBlock ord := fun ord h => hblock ⟨ord, h⟩
    rw [(hst.counters_of_message hmessage).1, if_neg hnot, Nat.add_zero,
      Nat.mod_eq_of_lt (getMissCounter_lt hsound.counters a)]

/-- Votes stay those that messages cast, and counters stay `uint64`. -/
theorem ChainStep.Regular.sound (hst : st.Regular) (hsound : st.before.Sound env) : st.after.Sound env := by
  refine ⟨?_, ?_⟩
  · intro a v hget
    rcases st.effect.votes a v hget with ⟨hbefore, _⟩ | ⟨_, haccepted, _⟩
    · exact hsound.cast a v hbefore
    · exact haccepted.cast
  · by_cases hblock : ∃ ord, st.action = .endBlock ord
    · obtain ⟨ord, haction⟩ := hblock
      obtain ⟨_, w₁, hperiod, hwindow⟩ := st.block haction
      have hcounted := all_atPeriodEnd hperiod hsound.counters
      rcases atPeriodEnd_inv hwindow with ⟨_, hslash⟩ | ⟨_, hsame⟩
      · exact fun a n hget => hcounted a n (slashAndReset_erases hslash a n hget)
      · rw [Chain.oracle, ← hsame]
        exact hcounted
    · rw [(hst.counters_of_message (fun ord h => hblock ⟨ord, h⟩)).1]
      exact hsound.counters

/-- A missed period takes a block. -/
theorem ChainStep.Regular.height (hst : st.Regular) (a : ValAddress) [Decidable (st.MissedPeriod a)] :
    st.before.height + (if st.MissedPeriod a then 1 else 0) ≤ st.after.height := by
  by_cases hblock : ∃ ord, st.action = .endBlock ord
  · obtain ⟨ord, haction⟩ := hblock
    rw [(st.block haction).1]
    split_ifs <;> omega
  · have hnot : ¬ st.MissedPeriod a := fun h => hblock h.ends.1
    rw [(hst.counters_of_message (fun ord h => hblock ⟨ord, h⟩)).2, if_neg hnot]
    exact Nat.le_refl _

end Step

/-! ## Runs within a window -/

section Runs

variable {c c' : Chain D} {steps : List (ChainStep env keepers)}

theorem misses_cons (st : ChainStep env keepers) (a : ValAddress) [Decidable (st.MissedPeriod a)] :
    misses (st :: steps) a = misses steps a + if st.MissedPeriod a then 1 else 0 := by
  rw [misses, List.countP_cons, ← misses]
  simp only [decide_eq_true_eq]

/-- A validator misses at most one period a block. -/
theorem misses_height (hrun : Trace ChainStep.before ChainStep.after c steps c')
    (hregular : ∀ st ∈ steps, st.Regular) (a : ValAddress) : c.height + misses steps a ≤ c'.height := by
  classical
  induction hrun with
  | nil c => exact Nat.le_refl _
  | cons st _ ih =>
    have hstep := (hregular st List.mem_cons_self).height a
    have hrest := ih (fun x hx => hregular x (List.mem_cons_of_mem st hx))
    rw [misses_cons]
    omega

/-- Within a window the counter of a validator grows by the periods it missed, and the run
stays sound. -/
theorem counter_run (hrun : Trace ChainStep.before ChainStep.after c steps c')
    (hregular : ∀ st ∈ steps, st.Regular) (hinside : ∀ st ∈ steps, ¬ st.EndsWindow)
    (hsound : c.Sound env) (a : ValAddress) :
    getMissCounter c'.oracle.missCounters a % 2 ^ 64 =
      (getMissCounter c.oracle.missCounters a + misses steps a) % 2 ^ 64 ∧ c'.Sound env := by
  classical
  induction hrun with
  | nil c => exact ⟨rfl, hsound⟩
  | cons st _ ih =>
    have hst := hregular st List.mem_cons_self
    obtain ⟨hcounter, hend⟩ := ih (fun x hx => hregular x (List.mem_cons_of_mem st hx))
      (fun x hx => hinside x (List.mem_cons_of_mem st hx)) (hst.sound hsound)
    refine ⟨?_, hend⟩
    rw [hcounter, hst.counter hsound (hinside st List.mem_cons_self) a, misses_cons, Nat.mod_add_mod]
    congr 1
    omega

end Runs

/-! ## The end of a window -/

/-- Who missed nothing is not below. -/
theorem not_isBelow_zero {p : Params} (hp : p.Windows) (hexact : Exact p) : ¬ IsBelow p 0 := by
  obtain ⟨_, hone, _⟩ := signedPeriods_exact hp hexact
  have hmin := hp.min_le
  have hrate := precision_le_tdiv (show (0 : Int) < periodsOf p by omega) (Int.le_refl (periodsOf p))
  unfold IsBelow
  rw [Nat.cast_zero, Int.sub_zero]
  omega

/-- A window that ends before the last `int64` is exact. -/
theorem ChainStep.EndsWindow.lt {st : ChainStep env keepers} (h : st.EndsWindow) :
    st.before.oracle.params.slashWindow < 2 ^ 63 := by
  obtain ⟨⟨ord, haction⟩, hmod⟩ := h
  have hheight := (st.block haction).1
  have hlt := st.after.height_lt
  have hle := Nat.le_of_dvd (Nat.succ_pos _) (Nat.dvd_of_mod_eq_zero hmod)
  omega

/-- The counter of a validator decides whether it is penalized, and a missing one does not
penalize. -/
theorem mem_offenders_iff {p : Params} (hp : p.Windows) (hexact : Exact p) {st : Staking}
    {counters : SortedMap ValAddress Nat} {a : ValAddress} (hlt : getMissCounter counters a < 2 ^ 63) :
    a ∈ offenders (Judged p) st counters.entries ↔
      isActive st a = true ∧ IsBelow p (getMissCounter counters a) := by
  rw [mem_offenders]
  refine and_congr_right fun _ => ?_
  cases hget : counters.get a with
  | none =>
    have hzero : getMissCounter counters a = 0 := by rw [getMissCounter, hget]; rfl
    rw [hzero]
    refine ⟨?_, fun h => absurd h (not_isBelow_zero hp hexact)⟩
    intro hentry
    obtain ⟨n, hn, _⟩ := hentry
    rw [← SortedMap.get_eq_some, hget] at hn
    cases hn
  | some n =>
    have hn : getMissCounter counters a = n := by rw [getMissCounter, hget]; rfl
    rw [hn] at hlt ⊢
    refine ⟨?_, ?_⟩
    · intro hentry
      obtain ⟨m, hm, hjudged⟩ := hentry
      rw [← SortedMap.get_eq_some, hget] at hm
      cases hm
      rw [Judged, if_pos hexact] at hjudged
      exact hjudged.2
    · intro hbelow
      refine ⟨n, SortedMap.get_eq_some.mp hget, ?_⟩
      rw [Judged, if_pos hexact]
      exact ⟨by omega, hbelow⟩

/-- No counter is left of whom the staking module knows. -/
theorem get_left_of_known {st : Staking} {p : Params} {counters : SortedMap ValAddress Nat} {a : ValAddress}
    (h : standing st a ≠ none) : (left st p counters).get a = none := by
  cases hget : counters.get a with
  | none => rw [left, SortedMap.get_foldl_erase, hget, ite_self]
  | some n => rw [get_left hget, if_neg fun hstays => h hstays.1]

namespace Sample

open Sdk.Sample (alice bob aliceOperator bobOperator)

/-- A validator whose consensus address is that of the operator. -/
def member (operator : String) (a : ValAddress) : Validator := ⟨operator, true, false, 1, .ok a⟩

def enrolled : Staking :=
  { staking with
    validator := fun a =>
      if a = alice then some (member aliceOperator alice)
      else if a = bob then some (member bobOperator bob)
      else none
    byPower := [member aliceOperator alice, member bobOperator bob]
    consensusPower_nonneg := by decide
    totalPower_lt := by decide }

theorem enrolled_indexed : enrolled.Indexed app := by
  refine ⟨?_, ?_, by decide⟩
  · intro a v h
    simp only [enrolled] at h
    split_ifs at h with halice hbob
    · cases h
      rw [halice]
      rfl
    · cases h
      rw [hbob]
      rfl
  · intro v hv
    rcases List.mem_cons.mp hv with rfl | hv
    · exact ⟨alice, rfl⟩
    · rw [List.mem_singleton.mp hv]
      exact ⟨bob, rfl⟩

theorem enrolled_consensus : enrolled.Consensus := by
  have haddr : ∀ a v, standing enrolled a = some v → v.consAddr = .ok a := by
    intro a v hv
    obtain ⟨v', hv', rfl⟩ := Option.map_eq_some_iff.mp hv
    simp only [enrolled] at hv'
    split_ifs at hv' with halice hbob <;> cases hv'
    · exact halice ▸ rfl
    · exact hbob ▸ rfl
  refine ⟨fun a v hv => ⟨a, haddr a v hv⟩, ?_⟩
  intro a b v v' hv hv' h
  rw [haddr a v hv, haddr b v' hv'] at h
  exact Except.ok.inj h

theorem silentHeight_lt : 4 < 2 ^ 63 := by decide

/-- The last block of a window of one period in which nobody votes. -/
def silent : Chain (String → String → Int) :=
  ⟨4, silentHeight_lt, { world { voted [] [] with
      params := { params with minValidPerWindow := ⟨50000000000000000⟩ }
      votes := SortedMap.empty } with
    staking := enrolled }⟩

theorem alice_missed_silent :
    IsVoter app silent.world.staking alice ∧ Missed app silent.world.staking silent.oracle alice := by
  have hclaim : (activeClaims app enrolled.maxValidators enrolled.byPower SortedMap.empty).get aliceOperator =
      some ⟨1, 0, 0, alice⟩ := by decide +kernel
  have htarget : (silent.oracle.tobinTaxes.get "uusd").isSome = true ∧
      (periodBallots app silent.world.staking silent.oracle).get "uusd" = none := by decide +kernel
  exact ⟨⟨aliceOperator, ⟨1, 0, 0, alice⟩, hclaim, rfl⟩, "uusd", htarget.1, .inl htarget.2⟩

end Sample

end Oracle
