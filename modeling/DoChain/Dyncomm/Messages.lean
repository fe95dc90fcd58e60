import DoChain.Dyncomm.Keeper

/- The decorators of dynamic commissions (`x/dyncomm/ante/ante.go`, `post/post.go`).

   Correspondence (Go ↔ Lean):
     `ante: FilterMsgsAndProcessMsgs`, `ProcessEditValidator`  ↔ `filterMsgsAndProcessMsgs` with the
                                                                 loop `filterLoop`,
                                                                 `processEditValidator`
     `post: PostHandle`, `FilterMsgsAndProcessMsgs`            ↔ `postHandle`, `processMsg`

   The decorator before a transaction looks into `MsgExec` and into packets for interchain
   accounts, at any depth. The one after it, which stores the commissions that were asked
   for, looks at the messages of the transaction only. `executedMsgs` lists what a
   transaction executes: the messages of a packet are executed or not without a change to
   the result of the transaction.

   `remembered_iff` says when the last commission that was executed for a validator is the
   one that is stored. -/

namespace Dyncomm

open Sdk

/-- What a received packet is read as: no data of an interchain account, with the error of
reading it; data of another type; messages that cannot be read; or messages to execute, in one
of the two encodings of a channel. -/
inductive Packet where
  | notICA (error : String)
  | otherType
  | unreadable
  | executeTx
  | executeTxJSON
  deriving DecidableEq, Repr

inductive Msg where
  | editValidator (validatorAddress : String) (commissionRate : Option LegacyDec)
  | createValidator (validatorAddress : String) (commission : Commission)
  | exec (readable : Bool) (msgs : List Msg)
  | recvPacket (packet : Packet) (executed : Bool) (msgs : List Msg)
  | other

/-! ## Before the messages -/

section Ante

variable (floatText : LegacyDec → String) (rates : SortedMap String ValidatorCommissionRate)

def processEditValidator (operator : String) : Option LegacyDec → Outcome String Unit
  | none => .ok ()
  | some newIntendedRate =>
    let dynMinRate := getDynCommissionRate rates operator
    .failIf (newIntendedRate < dynMinRate)
      ("commission for " ++ operator ++ " must be at least " ++ floatText dynMinRate)

/-- `Error` of a wrapped error. -/
def errorText (e : SdkError) : String := e.text ++ ": " ++ e.root.description

mutual

/-- One case of the switch: the error that ends the loop, or `err` as the next message finds
it. Messages that cannot be read leave it as it is, and it is looked at after them. Packets are
read in one encoding only. -/
def filterMsg (err : Option String) : Msg → Outcome String (Option String)
  | .editValidator operator rate => do
    processEditValidator floatText rates operator rate
    .ok none
  | .exec true msgs => do
    .mapErr errorText (filterLoop none msgs)
    .ok none
  | .exec false _ =>
    match err with
    | some e => .err e
    | none => .ok none
  | .recvPacket (.notICA e) _ _ => .ok (some e)
  | .recvPacket .executeTx _ msgs => do
    .mapErr errorText (filterLoop none msgs)
    .ok none
  | .recvPacket _ _ _ => .ok none
  | .createValidator _ _ => .ok err
  | .other => .ok err

def filterLoop (err : Option String) : List Msg → Outcome SdkError Unit
  | [] => .ok ()
  | msg :: rest => do
    let err ← .mapErr (wrap errUnauthorized) (filterMsg err msg)
    filterLoop err rest

end

def filterMsgsAndProcessMsgs : List Msg → Outcome SdkError Unit := filterLoop floatText rates none

end Ante

/-! ## After the messages -/

/-- The commission a message asks for, and the text it names the validator by. -/
def Msg.asked : Msg → Option (String × LegacyDec)
  | .editValidator validatorAddress (some rate) => some (validatorAddress, rate)
  | .createValidator validatorAddress commission => some (validatorAddress, commission.rate)
  | _ => none

/-- `ProcessEditValidator` and `ProcessCreateValidator`. -/
def processMsg (rates : SortedMap String ValidatorCommissionRate) (msg : Msg) :
    SortedMap String ValidatorCommissionRate :=
  match msg.asked with
  | some (validatorAddress, rate) => setTargetCommissionRate rates validatorAddress rate
  | none => rates

def postHandle (simulate isCheckTx : Bool) (rates : SortedMap String ValidatorCommissionRate)
    (msgs : List Msg) : SortedMap String ValidatorCommissionRate :=
  if simulate then rates
  else if isCheckTx then rates
  else msgs.foldl processMsg rates

/-! ## What is executed -/

mutual

/-- The messages to the staking module that a message executes, in their order. -/
def executedMsg : Msg → List Msg
  | .editValidator validatorAddress rate => [.editValidator validatorAddress rate]
  | .createValidator validatorAddress commission => [.createValidator validatorAddress commission]
  | .exec true msgs => executedMsgs msgs
  | .recvPacket .executeTx true msgs => executedMsgs msgs
  | .recvPacket .executeTxJSON true msgs => executedMsgs msgs
  | _ => []

def executedMsgs : List Msg → List Msg
  | [] => []
  | msg :: rest => executedMsg msg ++ executedMsgs rest

end

variable (bech32 : Bech32)

/-- The commission that a message asks for, for the operator with this address. -/
def Msg.askedFor (a : Bytes) (msg : Msg) : Option LegacyDec :=
  match msg.asked with
  | some (text, rate) => if bech32.accAddressFromBech32 text = .ok a then some rate else none
  | none => none

/-- The last commission that is executed for the operator with this address. -/
def lastExecuted (a : Bytes) (msgs : List Msg) : Option LegacyDec :=
  ((executedMsgs msgs).filterMap (Msg.askedFor bech32 a)).getLast?

/-- The commission that a message asks for under this text. -/
def Msg.askedUnder (text : String) (msg : Msg) : Option LegacyDec :=
  match msg.asked with
  | some (text', rate) => if text = text' then some rate else none
  | none => none

/-- The last commission that a message of the transaction itself asks for under this text. -/
def lastWritten (text : String) (msgs : List Msg) : Option LegacyDec :=
  (msgs.filterMap (Msg.askedUnder text)).getLast?

variable {bech32}

theorem getTarget_processMsg (rates : SortedMap String ValidatorCommissionRate) (msg : Msg) (text : String) :
    getTargetCommissionRate (processMsg rates msg) text =
      (msg.askedUnder text).getD (getTargetCommissionRate rates text) := by
  unfold processMsg Msg.askedUnder
  cases msg.asked with
  | none => rfl
  | some asked =>
    show getTargetCommissionRate (setTargetCommissionRate rates asked.1 asked.2) text = _
    rw [getTarget_setTarget]
    dsimp only
    split_ifs <;> rfl

/-- The stored target is the last one written under the text. -/
theorem getTarget_post (rates : SortedMap String ValidatorCommissionRate) (msgs : List Msg) (text : String) :
    getTargetCommissionRate (postHandle false false rates msgs) text =
      (lastWritten text msgs).getD (getTargetCommissionRate rates text) := by
  show getTargetCommissionRate (msgs.foldl processMsg rates) text = _
  induction msgs using List.reverseRecOn with
  | nil => rfl
  | append_singleton msgs msg ih =>
    rw [List.foldl_append, List.foldl_cons, List.foldl_nil, getTarget_processMsg, ih, lastWritten, lastWritten,
      List.filterMap_append, List.filterMap_cons, List.filterMap_nil]
    cases msg.askedUnder text with
    | none => rw [List.append_nil, Option.getD_none]
    | some rate => rw [List.getLast?_append, List.getLast?_singleton, Option.some_or, Option.getD_some,
        Option.getD_some]

/-! ## When the commission is remembered -/

/-- The last commission that a transaction executes for a validator is stored, and the next
update sets the larger of it and of the smallest commission. The messages have been executed
in `st`, which holds the rates from before. -/
def Remembered (bech32 : Bech32) (setting : Setting) (st : Store) (msgs : List Msg) (a : Bytes)
    (v : Validator) : Prop :=
  ∀ rate, lastExecuted bech32 a msgs = some rate →
    getTargetCommissionRate (postHandle false false st.rates msgs) v.operatorAddress = rate ∧
    ∀ st', updateAllBondedValidatorRates bech32 setting
        { st with rates := postHandle false false st.rates msgs } = .ok st' →
      v.bonded = true → ∃ m v', calculateDynCommission setting v = .ok m ∧
        st'.validators.get a = some v' ∧ v'.commission.rate.i = max rate.i m.i

theorem updated_rate (v : Validator) (m target : LegacyDec) :
    (v.updated m target).commission.rate.i = max target.i m.i := by
  show (if target < m then m else target).i = _
  split_ifs with h
  · exact (max_eq_right (Int.le_of_lt h)).symm
  · exact (max_eq_left (Int.not_lt.mp h)).symm

/-- The commission is remembered exactly if the last message of the transaction itself that
names the validator by its text asks for the same one, or there is none and the same one is
stored already. -/
theorem remembered_iff (bech32 : Bech32) (setting : Setting) (st : Store) (hkeyed : st.Keyed bech32)
    (msgs : List Msg) (a : Bytes) (v : Validator) (hv : st.validators.get a = some v) :
    Remembered bech32 setting st msgs a v ↔
      ∀ rate, lastExecuted bech32 a msgs = some rate →
        lastWritten v.operatorAddress msgs = some rate ∨
          (lastWritten v.operatorAddress msgs = none ∧
            getTargetCommissionRate st.rates v.operatorAddress = rate) := by
  refine forall_congr' fun rate => imp_congr_right fun _ => ?_
  have hstored : getTargetCommissionRate (postHandle false false st.rates msgs) v.operatorAddress = rate ↔
      lastWritten v.operatorAddress msgs = some rate ∨
        (lastWritten v.operatorAddress msgs = none ∧
          getTargetCommissionRate st.rates v.operatorAddress = rate) := by
    rw [getTarget_post]
    cases lastWritten v.operatorAddress msgs <;> simp
  rw [hstored]
  refine and_iff_left_of_imp ?_
  intro hwritten st' hupdate hbonded
  have hkeyed' : Store.Keyed bech32 { st with rates := postHandle false false st.rates msgs } := hkeyed
  obtain ⟨m, hupdated⟩ := updateAll_bonded hkeyed' hupdate hv hbonded
  refine ⟨m, _, hupdated.minRate, hupdated.validator, ?_⟩
  rw [updated_rate]
  exact congrArg (max · m.i) (congrArg LegacyDec.i (hstored.mpr hwritten))

namespace Sample

open Sdk.Sample (alice aliceOperator)

/-- The default parameters, a total power of 100 and no smallest commission of the staking
module. -/
def setting : Setting where
  params := ⟨⟨5 * 10 ^ 17⟩, ⟨2 * 10 ^ 18⟩, ⟨10 * 10 ^ 18⟩, ⟨2 * 10 ^ 17⟩⟩
  lastTotalPower := some 100
  minCommissionRate := some .zero

/-- Alice's validator, bonded with two of the power. -/
def aliceValidator (rate : LegacyDec) : Validator :=
  ⟨aliceOperator, true, 2000000, ⟨rate, ⟨2 * 10 ^ 17⟩, ⟨10 ^ 16⟩, 0⟩⟩

/-- Alice's commission has just been set; five percent were asked for before. -/
def aliceStore (rate : LegacyDec) : Store where
  rates := SortedMap.empty.set aliceOperator ⟨aliceOperator, .zero, ⟨5 * 10 ^ 16⟩⟩
  validators := SortedMap.empty.set alice (aliceValidator rate)

def tenPercent : LegacyDec := ⟨10 ^ 17⟩

theorem aliceStore_keyed (rate : LegacyDec) : (aliceStore rate).Keyed Sdk.Sample.valBech32 := by
  intro a v h
  rw [aliceStore, SortedMap.get_set] at h
  split_ifs at h with ha
  · obtain rfl := Option.some.inj h
    rw [ha]
    rfl
  · cases h

/-- Alice edits the validator to ten percent. -/
theorem edit_remembered :
    Remembered Sdk.Sample.valBech32 setting (aliceStore tenPercent)
      [.editValidator aliceOperator (some tenPercent)] alice (aliceValidator tenPercent) :=
  (remembered_iff Sdk.Sample.valBech32 setting (aliceStore tenPercent) (aliceStore_keyed tenPercent)
    [.editValidator aliceOperator (some tenPercent)] alice (aliceValidator tenPercent) (by decide +kernel)).mpr
    fun rate hrate => .inl (hrate ▸ by decide +kernel)

/-- The same edit through `MsgExec` passes the decorator and is executed, but the stored
target stays at five percent, and so does the commission after the next update. -/
theorem nested_edit_forgotten :
    let msgs := [Msg.exec true [.editValidator aliceOperator (some tenPercent)]]
    let rates := postHandle false false (aliceStore tenPercent).rates msgs
    filterMsgsAndProcessMsgs LegacyDec.text (aliceStore tenPercent).rates msgs = .ok () ∧
    lastExecuted Sdk.Sample.valBech32 alice msgs = some tenPercent ∧
    getTargetCommissionRate rates aliceOperator = ⟨5 * 10 ^ 16⟩ ∧
    ((updateAllBondedValidatorRates Sdk.Sample.valBech32 setting
        { aliceStore tenPercent with rates }).value.bind fun st => st.validators.get alice) =
      some (aliceValidator ⟨5 * 10 ^ 16⟩) := by
  decide +kernel

end Sample

end Dyncomm
