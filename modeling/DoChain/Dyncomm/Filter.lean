import DoChain.Dyncomm.Messages

/- What the decorator before the messages refuses (`x/dyncomm/ante/ante.go`).

   It is there to refuse a transaction with an edit of a validator to less than its smallest
   commission, wherever the edit stands in the tree of messages. It errs in both directions. An
   edit is looked up by the text of its address, where the store has the text that the validator
   was created with, and packets are read in one of two encodings: such edits are overlooked. And
   the error of reading a packet that is none of interchain accounts stays in the variable of the
   loop, where a later `MsgExec` that cannot be read finds it: such transactions are refused for
   nothing.

   `filterLoop_spec` says what is refused. `filter_exact_iff` compares it with what should be. -/

namespace Dyncomm

open Sdk

/-! ## The tree -/

/-- A list that the decorator loops over. -/
inductive Seen (l : List Msg) : List Msg → Prop where
  | here : Seen l l
  | exec {ms inner : List Msg} : .exec true inner ∈ ms → Seen l inner → Seen l ms
  | packet {ms inner : List Msg} {executed : Bool} :
      .recvPacket .executeTx executed inner ∈ ms → Seen l inner → Seen l ms

/-- A message anywhere in the tree: packets are read in both encodings. -/
inductive Reached (m : Msg) : List Msg → Prop where
  | here {ms : List Msg} : m ∈ ms → Reached m ms
  | exec {ms inner : List Msg} : .exec true inner ∈ ms → Reached m inner → Reached m ms
  | packet {ms inner : List Msg} {packet : Packet} {executed : Bool} :
      .recvPacket packet executed inner ∈ ms → packet = .executeTx ∨ packet = .executeTxJSON →
      Reached m inner → Reached m ms

theorem Seen.reached {l ms : List Msg} {m : Msg} (h : Seen l ms) (hm : m ∈ l) : Reached m ms := by
  induction h with
  | here => exact .here hm
  | exec hin _ ih => exact .exec hin ih
  | packet hin _ ih => exact .packet hin (.inl rfl) ih

/-! ## What is refused -/

/-- The list starts with messages that are skipped and a `MsgExec` that cannot be read. -/
def trips : List Msg → Bool
  | .exec false _ :: _ => true
  | .createValidator _ _ :: rest => trips rest
  | .other :: rest => trips rest
  | _ => false

/-- A packet that is none of interchain accounts leaves its error to such a `MsgExec`. -/
def leavesError : List Msg → Bool
  | [] => false
  | .recvPacket (.notICA _) _ _ :: rest => trips rest || leavesError rest
  | _ :: rest => leavesError rest

section Refused

variable (rates : SortedMap String ValidatorCommissionRate)

/-- Some list that the decorator loops over has an edit to less than what is stored under the
text of its address, or an error left to be found. -/
def Refused (ms : List Msg) : Prop :=
  ∃ l, Seen l ms ∧ (leavesError l = true ∨
    ∃ text rate, .editValidator text (some rate) ∈ l ∧ rate < getDynCommissionRate rates text)

/-- The part of the first message in it. -/
def RefusedAt (rest : List Msg) : Msg → Prop
  | .editValidator text (some rate) => rate < getDynCommissionRate rates text
  | .exec true inner => Refused rates inner
  | .recvPacket .executeTx _ inner => Refused rates inner
  | .recvPacket (.notICA _) _ _ => trips rest = true
  | _ => False

variable {rates}

theorem refused_nil : ¬ Refused rates [] := by
  intro hrefused
  obtain ⟨l, hseen, h⟩ := hrefused
  cases hseen with
  | here =>
    rcases h with h | ⟨_, _, hmem, _⟩
    · cases h
    · cases hmem
  | exec hin _ => cases hin
  | packet hin _ => cases hin

theorem leavesError_cons {m : Msg} {rest : List Msg} (h : leavesError (m :: rest) = true) :
    RefusedAt rates rest m ∨ leavesError rest = true := by
  unfold leavesError at h
  split at h
  · cases h
  · rename_i heq
    cases heq
    exact Bool.or_eq_true_iff.mp h
  · rename_i heq
    cases heq
    exact .inr h

theorem leavesError_tail (m : Msg) {rest : List Msg} (h : leavesError rest = true) :
    leavesError (m :: rest) = true := by
  unfold leavesError
  split
  · rename_i heq
    cases heq
  · rename_i heq
    cases heq
    rw [h, Bool.or_true]
  · rename_i heq
    cases heq
    exact h

theorem refused_cons {m : Msg} {rest : List Msg} :
    Refused rates (m :: rest) ↔ RefusedAt rates rest m ∨ Refused rates rest := by
  refine ⟨?_, ?_⟩
  · intro hrefused
    obtain ⟨l, hseen, h⟩ := hrefused
    cases hseen with
    | here =>
      rcases h with h | ⟨text, rate, hmem, hlow⟩
      · exact (leavesError_cons h).imp_right fun h => ⟨rest, .here, .inl h⟩
      · rcases List.mem_cons.mp hmem with rfl | hmem
        · exact .inl hlow
        · exact .inr ⟨rest, .here, .inr ⟨text, rate, hmem, hlow⟩⟩
    | exec hin hseen =>
      rcases List.mem_cons.mp hin with rfl | hin
      · exact .inl ⟨l, hseen, h⟩
      · exact .inr ⟨l, .exec hin hseen, h⟩
    | packet hin hseen =>
      rcases List.mem_cons.mp hin with rfl | hin
      · exact .inl ⟨l, hseen, h⟩
      · exact .inr ⟨l, .packet hin hseen, h⟩
  · intro h
    rcases h with h | ⟨l, hseen, h⟩
    · unfold RefusedAt at h
      split at h
      · exact ⟨_, .here, .inr ⟨_, _, List.mem_cons_self, h⟩⟩
      · obtain ⟨l, hseen, h⟩ := h
        exact ⟨l, .exec List.mem_cons_self hseen, h⟩
      · obtain ⟨l, hseen, h⟩ := h
        exact ⟨l, .packet List.mem_cons_self hseen, h⟩
      · exact ⟨_, .here, .inl (Bool.or_eq_true_iff.mpr (.inl h))⟩
      · exact h.elim
    · cases hseen with
      | here =>
        refine ⟨_, .here, h.imp (leavesError_tail m) ?_⟩
        intro hedit
        obtain ⟨text, rate, hmem, hlow⟩ := hedit
        exact ⟨text, rate, List.mem_cons_of_mem m hmem, hlow⟩
      | exec hin hseen => exact ⟨l, .exec (List.mem_cons_of_mem m hin) hseen, h⟩
      | packet hin hseen => exact ⟨l, .packet (List.mem_cons_of_mem m hin) hseen, h⟩

variable {floatText : LegacyDec → String}

theorem processEditValidator_spec (text : String) (rate : LegacyDec) :
    (processEditValidator floatText rates text (some rate)).FailsIff
      (rate < getDynCommissionRate rates text) () :=
  .failIf _ _

/-- One message of the loop: where it fails, and what it leaves to the others. -/
theorem filterLoop_cons {err err' : Option String} {m : Msg} {rest : List Msg} {c : Prop}
    (hmsg : (filterMsg floatText rates err m).FailsIff c err')
    (hrest : (filterLoop floatText rates err' rest).FailsIff
      ((err'.isSome = true ∧ trips rest = true) ∨ Refused rates rest) ())
    (hhead : (err.isSome = true ∧ trips (m :: rest) = true) ∨ RefusedAt rates rest m ↔
      c ∨ (err'.isSome = true ∧ trips rest = true)) :
    (filterLoop floatText rates err (m :: rest)).FailsIff
      ((err.isSome = true ∧ trips (m :: rest) = true) ∨ Refused rates (m :: rest)) () := by
  rw [filterLoop]
  refine (hmsg.mapErr.bind hrest).congr ?_
  rw [refused_cons, ← or_assoc, ← or_assoc, hhead]

/-- The loop, with an error that was left or none, returns an error exactly if one is to be
found or the messages are refused. -/
theorem filterLoop_spec (err : Option String) (ms : List Msg) :
    (filterLoop floatText rates err ms).FailsIff
      ((err.isSome = true ∧ trips ms = true) ∨ Refused rates ms) () := by
  -- the induction is on the size of the tree: the lists inside the first message, and the rest
  match ms with
  | [] =>
    refine (Outcome.FailsIff.ok ()).congr ⟨False.elim, ?_⟩
    intro h
    rcases h with ⟨_, h⟩ | h
    · cases h
    · exact refused_nil h
  | .editValidator text none :: rest =>
    exact filterLoop_cons (c := False) (.ok none) (filterLoop_spec none rest) (by simp [trips, RefusedAt])
  | .editValidator text (some rate) :: rest =>
    exact filterLoop_cons (c := _ ∨ False) ((processEditValidator_spec text rate).bind (.ok none))
      (filterLoop_spec none rest) (by simp [trips, RefusedAt])
  | .createValidator text commission :: rest =>
    exact filterLoop_cons (c := False) (.ok err) (filterLoop_spec err rest) (by simp [trips, RefusedAt])
  | .exec true inner :: rest =>
    exact filterLoop_cons (c := _ ∨ False) ((filterLoop_spec none inner).mapErr.bind (.ok none))
      (filterLoop_spec none rest) (by simp [trips, RefusedAt])
  | .exec false inner :: rest =>
    have hfound : (filterMsg floatText rates err (.exec false inner)).FailsIff (err.isSome = true) none := by
      cases err with
      | none => exact ⟨fun h => absurd h Bool.false_ne_true, fun _ => rfl⟩
      | some e => exact ⟨fun _ => ⟨e, rfl⟩, fun h => absurd rfl h⟩
    exact filterLoop_cons hfound (filterLoop_spec none rest) (by simp [trips, RefusedAt])
  | .recvPacket (.notICA e) executed inner :: rest =>
    exact filterLoop_cons (c := False) (.ok (some e)) (filterLoop_spec (some e) rest)
      (by simp [trips, RefusedAt])
  | .recvPacket .executeTx executed inner :: rest =>
    exact filterLoop_cons (c := _ ∨ False) ((filterLoop_spec none inner).mapErr.bind (.ok none))
      (filterLoop_spec none rest) (by simp [trips, RefusedAt])
  | .recvPacket .otherType executed inner :: rest
  | .recvPacket .unreadable executed inner :: rest
  | .recvPacket .executeTxJSON executed inner :: rest =>
    exact filterLoop_cons (c := False) (.ok none) (filterLoop_spec none rest) (by simp [trips, RefusedAt])
  | .other :: rest =>
    exact filterLoop_cons (c := False) (.ok err) (filterLoop_spec err rest) (by simp [trips, RefusedAt])

end Refused

/-! ## What should be -/

section Exact

variable (bech32 : Bech32) (st : Store)

/-- The text that the rates of an operator are stored under: the one that the validator was
created with. -/
def Store.textOf (a : Bytes) : String :=
  ((st.validators.get a).map Validator.operatorAddress).getD (bech32.string a)

/-- A rate below the smallest commission of the validator that a text stands for. -/
def Below (text : String) (rate : LegacyDec) : Prop :=
  ∃ a, bech32.accAddressFromBech32 text = .ok a ∧ rate < getDynCommissionRate st.rates (st.textOf bech32 a)

/-- An edit that the decorator looks at, and finds too low by its text. -/
def FoundLow (rates : SortedMap String ValidatorCommissionRate) (text : String) (rate : LegacyDec)
    (ms : List Msg) : Prop :=
  (∃ l, Seen l ms ∧ .editValidator text (some rate) ∈ l) ∧ rate < getDynCommissionRate rates text

/-- An edit is refused and should be. -/
def RefusedRightly (ms : List Msg) : Prop :=
  ∃ text rate, FoundLow st.rates text rate ms ∧ Below bech32 st text rate

/-- An error is left to be found, or an edit is refused and should not be. -/
def RefusedWrongly (ms : List Msg) : Prop :=
  (∃ l, Seen l ms ∧ leavesError l = true) ∨
    ∃ text rate, FoundLow st.rates text rate ms ∧ ¬ Below bech32 st text rate

/-- An edit should be refused and is not looked at, or not found to be too low. -/
def Overlooked (ms : List Msg) : Prop :=
  ∃ text rate, Reached (.editValidator text (some rate)) ms ∧ Below bech32 st text rate ∧
    ¬ FoundLow st.rates text rate ms

variable {bech32 st} {ms : List Msg}

theorem refused_iff (bech32 : Bech32) :
    Refused st.rates ms ↔ RefusedRightly bech32 st ms ∨ RefusedWrongly bech32 st ms := by
  refine ⟨?_, ?_⟩
  · intro hrefused
    obtain ⟨l, hseen, h⟩ := hrefused
    rcases h with h | ⟨text, rate, hmem, hlow⟩
    · exact .inr (.inl ⟨l, hseen, h⟩)
    · by_cases hbelow : Below bech32 st text rate
      · exact .inl ⟨text, rate, ⟨⟨l, hseen, hmem⟩, hlow⟩, hbelow⟩
      · exact .inr (.inr ⟨text, rate, ⟨⟨l, hseen, hmem⟩, hlow⟩, hbelow⟩)
  · intro h
    have hfound : ∀ {text rate}, FoundLow st.rates text rate ms → Refused st.rates ms := by
      intro text rate hfound
      obtain ⟨⟨l, hseen, hmem⟩, hlow⟩ := hfound
      exact ⟨l, hseen, .inr ⟨text, rate, hmem, hlow⟩⟩
    rcases h with ⟨_, _, h, _⟩ | ⟨l, hseen, h⟩ | ⟨_, _, h, _⟩
    · exact hfound h
    · exact ⟨l, hseen, .inl h⟩
    · exact hfound h

theorem below_iff :
    (∃ text rate, Reached (.editValidator text (some rate)) ms ∧ Below bech32 st text rate) ↔
      RefusedRightly bech32 st ms ∨ Overlooked bech32 st ms := by
  refine ⟨?_, ?_⟩
  · intro hedit
    obtain ⟨text, rate, hreached, hbelow⟩ := hedit
    by_cases hfound : FoundLow st.rates text rate ms
    · exact .inl ⟨text, rate, hfound, hbelow⟩
    · exact .inr ⟨text, rate, hreached, hbelow, hfound⟩
  · intro h
    rcases h with ⟨text, rate, ⟨⟨l, hseen, hmem⟩, _⟩, hbelow⟩ | ⟨text, rate, hreached, hbelow, _⟩
    · exact ⟨text, rate, hseen.reached hmem, hbelow⟩
    · exact ⟨text, rate, hreached, hbelow⟩

/-- An error is returned exactly for the trees with an edit below the smallest commission,
wherever an edit is refused rightly, or nothing is refused wrongly and nothing overlooked, or
both happen at once. -/
theorem filter_exact_iff (floatText : LegacyDec → String) (bech32 : Bech32) (st : Store) (ms : List Msg) :
    ((∃ e, filterMsgsAndProcessMsgs floatText st.rates ms = .err e) ↔
      ∃ text rate, Reached (.editValidator text (some rate)) ms ∧ Below bech32 st text rate) ↔
    RefusedRightly bech32 st ms ∨ (RefusedWrongly bech32 st ms ↔ Overlooked bech32 st ms) := by
  have hfails : (∃ e, filterMsgsAndProcessMsgs floatText st.rates ms = .err e) ↔ Refused st.rates ms := by
    refine (filterLoop_spec none ms).exists_err.trans (or_iff_right ?_)
    intro hleft
    cases hleft.1
  rw [hfails, refused_iff bech32, below_iff]
  by_cases hright : RefusedRightly bech32 st ms
  · simp only [hright, true_or]
  · simp only [hright, false_or]

end Exact

namespace Sample

open Sdk.Sample (alice aliceOperator valBech32)

/-- Alice has to take ten percent. -/
def tenPercentStore : Store :=
  { aliceStore tenPercent with
    rates := SortedMap.empty.set aliceOperator ⟨aliceOperator, tenPercent, tenPercent⟩ }

def toZero : Msg := .editValidator aliceOperator (some .zero)

theorem toZero_below : Below valBech32 tenPercentStore aliceOperator .zero :=
  ⟨alice, by decide +kernel, by decide +kernel⟩

/-- An edit to zero in a packet, within a `MsgExec`, is refused. -/
theorem nested_edit_refused :
    ∃ e, filterMsgsAndProcessMsgs LegacyDec.text tenPercentStore.rates
      [.recvPacket .executeTx true [.exec true [toZero]]] = .err e := by
  have hseen : Seen [toZero] [.recvPacket .executeTx true [.exec true [toZero]]] :=
    .packet List.mem_cons_self (.exec List.mem_cons_self .here)
  have hlow : LegacyDec.zero < getDynCommissionRate tenPercentStore.rates aliceOperator := by decide +kernel
  have hexact := (filter_exact_iff LegacyDec.text valBech32 tenPercentStore
    [.recvPacket .executeTx true [.exec true [toZero]]]).mpr
    (.inl ⟨aliceOperator, .zero, ⟨⟨_, hseen, List.mem_cons_self⟩, hlow⟩, toZero_below⟩)
  exact hexact.mpr ⟨aliceOperator, .zero, hseen.reached List.mem_cons_self, toZero_below⟩

/-- In a packet in the other encoding it is not; and a relayed packet of another application,
with a `MsgExec` that cannot be read after it, is. -/
theorem json_edit_passes_and_relay_refused :
    filterMsgsAndProcessMsgs LegacyDec.text tenPercentStore.rates
      [.recvPacket .executeTxJSON true [toZero]] = .ok () ∧
    (∃ text rate, Reached (.editValidator text (some rate)) [.recvPacket .executeTxJSON true [toZero]] ∧
      Below valBech32 tenPercentStore text rate) ∧
    filterMsgsAndProcessMsgs LegacyDec.text tenPercentStore.rates
      [.recvPacket (.notICA "unknown field") true [], .exec false []] =
        .err (wrap errUnauthorized "unknown field") := by
  refine ⟨rfl, ⟨aliceOperator, .zero, ?_, toZero_below⟩, rfl⟩
  exact .packet List.mem_cons_self (.inr rfl) (.here List.mem_cons_self)

end Sample

end Dyncomm
