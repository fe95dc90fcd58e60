import DoChain.Staking.EqualPower

/- The updates that the staking module stores (`custom/staking/module.go`).

   `EndBlock` stores the full list of equal-power updates. From
   `ReplayWriteOptimizationHeight` on it leaves the stored list as it is where the SDK's
   `EndBlocker` has no updates and a list is stored.

   `Bonded` has what the module relies on beyond `StakingKeeper`: which validators are
   bonded and the stored list, in the states that the SDK's `EndBlocker` leaves. Within a
   block the two need not agree with the power index: a validator that is jailed leaves the
   index at once and the bonded set at the end of the block. An `EndBlocker` without updates
   leaves the bonded set of the last block's end, and may store its own updates.

   A block whose `EndBlock` fails is not committed. `stored_updates_track`: in a run that
   starts below that height, after every block that is committed the stored entries of
   positive power are the consensus keys of the bonded validators with power one each. -/

namespace Staking

open Sdk

variable {Key σ : Type} [LinearOrder Key]

/-- The consensus keys of validators, as far as they convert. -/
def consKeys (vs : List (Validator Key)) : List Key := vs.filterMap fun v => v.tmConsPublicKey.toOption

/-- A state that the SDK's `EndBlocker` leaves. -/
def Ended (K : StakingKeeper Key σ) (st : σ) : Prop := ∃ before us, K.endBlocker before = .ok (us, st)

/-- The bonded validators and the stored updates of a state, with what the SDK's calls find
and do after its `EndBlocker`. -/
structure Bonded (K : StakingKeeper Key σ) where
  validators : σ → List (Validator Key)
  stored : σ → List (ValidatorUpdate Key)
  consKeys_nodup : ∀ st, Ended K st → (consKeys (validators st)).Nodup
  byPower_perm : ∀ st, Ended K st → ∀ vs, K.getBondedValidatorsByPower st = .ok vs → vs.Perm (validators st)
  getValidatorUpdates_eq : ∀ st, Ended K st → ∀ us, K.getValidatorUpdates st = .ok us → us = stored st
  setValidatorUpdates_stored : ∀ st, Ended K st → ∀ us st', K.setValidatorUpdates st us = .ok st' →
    stored st' = us
  setValidatorUpdates_validators : ∀ st, Ended K st → ∀ us st', K.setValidatorUpdates st us = .ok st' →
    (validators st').Perm (validators st)
  endBlocker_stored : ∀ st us st', K.endBlocker st = .ok (us, st') → stored st' = stored st ∨ stored st' = us

variable {K : StakingKeeper Key σ} (B : Bonded K)

/-- The stored entries of positive power are the consensus keys of the bonded validators,
each once and with power one. -/
structure Tracks (st : σ) : Prop where
  converts : ∀ v ∈ B.validators st, ∃ k, v.tmConsPublicKey = .ok k
  nodup : (consKeys (B.validators st)).Nodup
  entries : ((B.stored st).filter (fun u => 0 < u.power)).Perm
    ((consKeys (B.validators st)).map (fun k => ⟨k, 1⟩))

variable {B}

/-! ## What is stored -/

omit [LinearOrder Key] in
theorem activeUpdates_inv {vs : List (Validator Key)} {us : List (ValidatorUpdate Key)}
    (h : activeUpdates vs = .ok us) :
    (∀ v ∈ vs, ∃ k, v.tmConsPublicKey = .ok k) ∧ us = (consKeys vs).map (fun k => ⟨k, 1⟩) := by
  induction vs generalizing us with
  | nil =>
    cases h
    exact ⟨by simp, rfl⟩
  | cons v rest ih =>
    simp only [activeUpdates, equalPowerValidatorUpdate, Outcome.bind_eq_ok, Outcome.ofExcept_eq_ok] at h
    obtain ⟨_, ⟨k, hk, hupdate⟩, updates, hrest, h⟩ := h
    cases hupdate
    cases h
    obtain ⟨hconverts, rfl⟩ := ih hrest
    have hcons : consKeys (v :: rest) = k :: consKeys rest := by
      rw [consKeys, List.filterMap_cons, hk]
      rfl
    refine ⟨List.forall_mem_cons.mpr ⟨⟨k, hk⟩, hconverts⟩, ?_⟩
    rw [hcons]
    rfl

/-- The full list has the removals, which are not positive, and the bonded validators. -/
theorem fullUpdates_inv {st : σ} (hended : Ended K st) {std us : List (ValidatorUpdate Key)}
    (h : fullEqualValidatorPowerUpdates K st std = .ok us) :
    (∀ v ∈ B.validators st, ∃ k, v.tmConsPublicKey = .ok k) ∧
      (us.filter (fun u => 0 < u.power)).Perm ((consKeys (B.validators st)).map (fun k => ⟨k, 1⟩)) := by
  simp only [fullEqualValidatorPowerUpdates, Outcome.bind_eq_ok] at h
  obtain ⟨vs, hvs, active, hactive, h⟩ := h
  cases h
  have hperm := B.byPower_perm st hended vs hvs
  obtain ⟨hconverts, rfl⟩ := activeUpdates_inv hactive
  refine ⟨fun v hv => hconverts v (hperm.mem_iff.mpr hv), ?_⟩
  have hremoved : (std.filter (fun u => u.power = 0)).filter (fun u => 0 < u.power) = [] := by
    rw [List.filter_filter, List.filter_eq_nil_iff]
    intro u _ hu
    simp only [Bool.and_eq_true, decide_eq_true_eq] at hu
    omega
  have hactive : ((consKeys vs).map (fun k => (⟨k, 1⟩ : ValidatorUpdate Key))).filter (fun u => 0 < u.power) =
      (consKeys vs).map (fun k => ⟨k, 1⟩) := by
    rw [List.filter_eq_self]
    intro u hu
    obtain ⟨k, _, rfl⟩ := List.mem_map.mp hu
    rfl
  rw [List.filter_append, hremoved, hactive, List.nil_append]
  exact (hperm.filterMap _).map _

theorem Tracks.of_perm {st st' : σ} (h : Tracks B st) (hbonded : (B.validators st').Perm (B.validators st))
    (hstored : B.stored st' = B.stored st) : Tracks B st' where
  converts := fun v hv => h.converts v (hbonded.mem_iff.mp hv)
  nodup := (hbonded.filterMap _).nodup_iff.mpr h.nodup
  entries := by
    rw [hstored]
    exact h.entries.trans ((hbonded.filterMap _).map _).symm

/-! ## One block -/

/-- The height of the next block, and the staking state before it. -/
structure Tip (σ : Type) where
  height : Int
  staking : σ

variable (B)

/-- A block: its transactions leave a state with the stored updates it began with, and
`EndBlock` takes it from there. -/
structure Attempt where
  before : Tip σ
  staked : σ
  staked_stored : B.stored staked = B.stored before.staking
  /-- without updates, the bonded set is that of the last block's end -/
  quiet : ∀ st, K.endBlocker staked = .ok ([], st) → (B.validators st).Perm (B.validators before.staking)

variable {B}

def Attempt.ended (b : Attempt B) : Outcome SdkError (List (ValidatorUpdate Key) × σ) :=
  endBlock K b.before.height b.staked

/-- A block whose `EndBlock` fails is not committed. -/
def Attempt.after (b : Attempt B) : Tip σ :=
  match b.ended with
  | .ok (_, st) => ⟨b.before.height + 1, st⟩
  | _ => b.before

/-- What the next block can rely on: it is below the height, or the stored updates are those
of the bonded validators. -/
def Ready (B : Bonded K) (tip : Tip σ) : Prop := tip.height < replayWriteOptimizationHeight ∨ Tracks B tip.staking

/-- Where no write is needed, nothing has changed since the last block. -/
theorem writeNotNeeded_true {height : Int} {st : σ} (hended : Ended K st) {std : List (ValidatorUpdate Key)}
    (h : writeNotNeeded K height st std = .ok true) :
    replayWriteOptimizationHeight ≤ height ∧ std = [] ∧ B.stored st ≠ [] := by
  unfold writeNotNeeded at h
  split_ifs at h with hc
  · obtain ⟨us, hus, h⟩ := Outcome.bind_eq_ok.mp h
    rw [B.getValidatorUpdates_eq st hended us hus] at h
    exact ⟨of_decide_eq_true hc.1, hc.2, of_decide_eq_true (Outcome.ok.inj h)⟩
  · cases h

theorem Attempt.tracks_ended (b : Attempt B) (hready : Ready B b.before) {us : List (ValidatorUpdate Key)} {st : σ}
    (h : b.ended = .ok (us, st)) : Tracks B st := by
  simp only [Attempt.ended, endBlock, Outcome.bind_eq_ok] at h
  obtain ⟨⟨std, st₁⟩, hend, stored, hfull, skip, hskip, h⟩ := h
  have hended : Ended K st₁ := ⟨_, _, hend⟩
  cases skip with
  | true =>
    -- the write is skipped: the list of the last block still stands
    cases h
    obtain ⟨hheight, rfl, hsome⟩ := writeNotNeeded_true hended hskip
    have htracks : Tracks B b.before.staking := hready.resolve_left (not_lt.mpr hheight)
    have hkept : B.stored st₁ = B.stored b.staked := (B.endBlocker_stored _ _ _ hend).resolve_right hsome
    exact htracks.of_perm (b.quiet _ hend) (hkept.trans b.staked_stored)
  | false =>
    obtain ⟨st₂, hset, h⟩ := Outcome.bind_eq_ok.mp h
    cases h
    obtain ⟨hconverts, hentries⟩ := fullUpdates_inv (B := B) hended hfull
    have hbonded := B.setValidatorUpdates_validators _ hended _ _ hset
    refine ⟨fun v hv => hconverts v (hbonded.mem_iff.mp hv),
      (hbonded.filterMap _).nodup_iff.mpr (B.consKeys_nodup _ hended), ?_⟩
    rw [B.setValidatorUpdates_stored _ hended _ _ hset]
    exact hentries.trans ((hbonded.filterMap _).map _).symm

theorem Attempt.ready_after (b : Attempt B) (hready : Ready B b.before) : Ready B b.after := by
  unfold Attempt.after
  split
  · rename_i us st h
    exact .inr (b.tracks_ended hready h)
  · exact hready

/-- In every run of blocks from below `ReplayWriteOptimizationHeight`, after each `EndBlock`
that returns no error the stored entries of positive power are the consensus keys of the
bonded validators, each once and with power one. -/
theorem stored_updates_track (B : Bonded K) {tip last : Tip σ} {blocks : List (Attempt B)}
    (hstart : tip.height < replayWriteOptimizationHeight)
    (hrun : Trace Attempt.before Attempt.after tip blocks last) :
    ∀ b ∈ blocks, ∀ us st, b.ended = .ok (us, st) → Tracks B st := by
  intro b hb us st h
  have hready := (hrun.always (fun b _ => b.ready_after) (.inl hstart) b hb).1
  exact b.tracks_ended hready h

namespace Sample

theorem consKeys_entries (es : List (String × Int)) :
    consKeys (es.map (fun e => (⟨.ok e.1⟩ : Validator String))) = es.map Prod.fst := by
  induction es with
  | nil => rfl
  | cons e rest ih => exact congrArg (e.1 :: ·) ih

/-- Without changes the powers are the same. -/
theorem eq_of_diff_nil {old new : SortedMap String Int} (h : diff old new = []) : new = old := by
  apply SortedMap.ext_get
  intro k
  apply (isDiff_diff old new).get_eq
  rw [h]
  simp

/-- The bonded validators that are in the power index. -/
def indexed (st : Stakes) : List (Validator String) :=
  (st.target.entries.filter (fun e => (st.powers.get e.1).isSome)).map (fun e => ⟨.ok e.1⟩)

/-- The validators are listed by the power index, which a jailed one leaves at once. -/
def byIndex : StakingKeeper String Stakes :=
  { keeper with getBondedValidatorsByPower := fun st => .ok (indexed st) }

/-- After `EndBlocker` the index has the bonded validators. -/
theorem indexed_of_ended {st : Stakes} (h : Ended byIndex st) :
    indexed st = st.powers.entries.map (fun e => ⟨.ok e.1⟩) := by
  obtain ⟨before, us, hend⟩ := h
  cases hend
  show (before.target.entries.filter _).map _ = _
  rw [List.filter_eq_self.mpr]
  intro e he
  rw [SortedMap.get_eq_some.mpr he]
  rfl

/-- The validators with a power are bonded. -/
def bonded : Bonded byIndex where
  validators := fun st => st.powers.entries.map (fun e => ⟨.ok e.1⟩)
  stored := Stakes.stored
  consKeys_nodup := by
    intro st _
    rw [consKeys_entries]
    exact st.powers.keys_nodup
  byPower_perm := by
    intro st hended vs h
    cases h
    rw [indexed_of_ended hended]
  getValidatorUpdates_eq := by
    intro st _ us h
    cases h
    rfl
  setValidatorUpdates_stored := by
    intro st _ us st' h
    cases h
    rfl
  setValidatorUpdates_validators := by
    intro st _ us st' h
    cases h
    exact .refl _
  endBlocker_stored := by
    intro st us st' h
    cases h
    exact .inl rfl

/-- A block from a tip whose transactions leave this index. -/
def blockFrom (tip : Tip Stakes) (index : SortedMap String Int) (hpos : ∀ k p, index.get k = some p → 0 < p) :
    Attempt bonded where
  before := tip
  staked := ⟨tip.staking.powers, index, tip.staking.stored, tip.staking.powers_pos, hpos⟩
  staked_stored := rfl
  quiet := by
    intro st h
    obtain ⟨hnone, rfl⟩ := Prod.mk.inj (Outcome.ok.inj h)
    have hsame : index = tip.staking.powers := eq_of_diff_nil hnone
    show (index.entries.map _).Perm (tip.staking.powers.entries.map _)
    rw [hsame]

/-- A second validator beside the one of `one`. -/
def two : SortedMap String Int := (one 10).set "other" 7

theorem alone_pos : ∀ k p, (one 10).get k = some p → 0 < p := one_pos (by decide)

theorem two_pos (k : String) (p : Int) (h : two.get k = some p) : 0 < p := by
  rw [two, SortedMap.get_set] at h
  split_ifs at h
  · exact Option.some.inj h ▸ (by decide)
  · exact alone_pos k p h

/-- Both validators are bonded in the last block below the height. -/
def lastWritten : Attempt bonded :=
  blockFrom ⟨replayWriteOptimizationHeight - 1, genesis.staking⟩ two two_pos

/-- The block after it, in which nothing is staked. -/
def firstSkipped : Attempt bonded := blockFrom lastWritten.after two two_pos

/-- Then the second validator is jailed. -/
def jailed : Attempt bonded := blockFrom firstSkipped.after (one 10) alone_pos

/-- The second block writes nothing, and what the first one has written is right. In the third
one the index lacks a bonded validator before `EndBlock`, which removes it. -/
theorem stored_through_jailing :
    (∃ st, firstSkipped.ended = .ok ([], st) ∧ st.stored = [⟨"other", 1⟩, ⟨"validator", 1⟩] ∧ Tracks bonded st) ∧
      firstSkipped.before.height = replayWriteOptimizationHeight ∧
      (indexed jailed.staked).length < (bonded.validators jailed.staked).length ∧
      ∃ st, jailed.ended = .ok ([⟨"other", 0⟩], st) ∧ st.stored = [⟨"other", 0⟩, ⟨"validator", 1⟩] ∧
        Tracks bonded st := by
  have hrun : Trace Attempt.before Attempt.after lastWritten.before [lastWritten, firstSkipped, jailed]
      jailed.after := .cons lastWritten (.cons firstSkipped (.cons jailed (.nil _)))
  have htracks := stored_updates_track bonded (by decide) hrun
  have hskipped : ∃ st, firstSkipped.ended = .ok ([], st) ∧ st.stored = [⟨"other", 1⟩, ⟨"validator", 1⟩] :=
    ⟨_, rfl, rfl⟩
  have hjailed : ∃ st, jailed.ended = .ok ([⟨"other", 0⟩], st) ∧
      st.stored = [⟨"other", 0⟩, ⟨"validator", 1⟩] := ⟨_, rfl, rfl⟩
  obtain ⟨st, hok, hstored⟩ := hskipped
  obtain ⟨st', hok', hstored'⟩ := hjailed
  refine ⟨⟨st, hok, hstored, ?_⟩, rfl, by decide, st', hok', hstored', ?_⟩
  · exact htracks firstSkipped (by simp) _ _ hok
  · exact htracks jailed (by simp) _ _ hok'

end Sample

end Staking
