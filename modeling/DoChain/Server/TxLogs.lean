import DoChain.Lib.Outcome
import DoChain.Lib.SortedMap
import DoChain.Sdk.LegacyDec

/- The logs of a transaction, rebuilt from its events (`server/tx_logs_middleware.go`).

   Correspondence (Go ↔ Lean):
     `transformTxResponse` ↔ `transformTxResponse`
     `reconstructLogs`     ↔ `reconstructLogs`; `Grouping.add` is the body of its first loop,
                             `buildLogs` the second
     `extractMsgIndex`     ↔ `extractMsgIndex`; `attrMsgIndex` is the body of its loop
     `copyEventForLogs`    ↔ `copyEventForLogs`, `copyAttribute`
     `toInt`               ↔ `toInt`
     `strconv.Atoi`        ↔ `atoi`

   A decoded document has numbers of type `float64`, which are left abstract with their
   conversion to `int`; decoding and encoding are code of the standard library. The
   capacity of the logs is taken from the largest index, and `make` panics where that is
   too large.

   The index of an event is the first that one of its attributes states, and the SDK appends
   its own last. `SdkEvent` is an event with the index that the SDK appended, and
   `logs_partition_iff` says when the logs are the events by those indices. -/

namespace Server

open Sdk (wrap64)

/-- A value of a document: what the decoder makes of it, and the `int`s and slices of maps
that the logs are made of. -/
inductive Json (F : Type) where
  | null
  | bool (b : Bool)
  | float (x : F)
  | int (i : Int)
  | str (s : String)
  | arr (items : List (Json F))
  | obj (fields : List (String × Json F))
  | objs (items : List (List (String × Json F)))

abbrev Fields (F : Type) := List (String × Json F)

variable {F : Type}

/-! ## Type assertions -/

def Json.str? : Json F → Option String
  | str s => some s
  | _ => none

def Json.arr? : Json F → Option (List (Json F))
  | arr items => some items
  | _ => none

def Json.obj? : Json F → Option (Fields F)
  | obj fields => some fields
  | _ => none

def setField (fields : Fields F) (k : String) (v : Json F) : Fields F :=
  (k, v) :: fields.filter fun e => decide (e.1 ≠ k)

/-! ## Integers -/

def parseDigits (ds : List Char) : Option Nat :=
  if ds ≠ [] ∧ ds.all Char.isDigit = true then some (Nat.ofDigitChars 10 ds 0) else none

def parsePositive (ds : List Char) : Option Int := do
  let n ← parseDigits ds
  if n < 2 ^ 63 then some n else none

def parseNegative (ds : List Char) : Option Int := do
  let n ← parseDigits ds
  if n ≤ 2 ^ 63 then some (-n) else none

/-- A decimal number with or without a sign, if it is an `int64`. -/
def atoi (s : String) : Option Int :=
  match s.toList with
  | '-' :: ds => parseNegative ds
  | '+' :: ds => parsePositive ds
  | ds => parsePositive ds

section Logs

variable (trunc : F → Int)

def toInt : Json F → Int
  | .int i => i
  | .float x => trunc x
  | .str s => (atoi s).getD 0
  | _ => 0

/-! ## Events -/

/-- The index that an attribute states, in a field of its own or as its value. -/
def attrMsgIndex (attr : Json F) : Option Int :=
  match attr.obj? with
  | none => none
  | some attr =>
    match attr.lookup "msg_index" with
    | some msgIndex => some (toInt trunc msgIndex)
    | none =>
      if (attr.lookup "key").bind Json.str? = some "msg_index" then
        ((attr.lookup "value").bind Json.str?).bind atoi
      else none

def extractMsgIndex (event : Fields F) : Int :=
  match (event.lookup "attributes").bind Json.arr? with
  | none => 0
  | some attributes => (attributes.findSome? (attrMsgIndex trunc)).getD 0

def copyAttribute (attr : Fields F) : Fields F :=
  (((attr.lookup "key").bind Json.str?).map fun key => ("key", .str key)).toList ++
    ((attr.lookup "value").map fun value => ("value", value)).toList

def copyEventForLogs (event : Fields F) : Fields F :=
  (((event.lookup "type").bind Json.str?).map fun eventType => ("type", .str eventType)).toList ++
    (((event.lookup "attributes").bind Json.arr?).map fun attributes =>
      ("attributes", .objs ((attributes.filterMap Json.obj?).map copyAttribute))).toList

/-! ## Logs -/

structure Log (F : Type) where
  msgIndex : Nat
  events : List (Fields F)

def Log.fields (log : Log F) : Fields F :=
  [("msg_index", .int log.msgIndex), ("log", .str ""), ("events", .objs log.events)]

structure Grouping (F : Type) where
  maxMsgIndex : Int
  eventsByMsgIndex : SortedMap Int (List (Fields F))

def Grouping.add (g : Grouping F) (event : Json F) : Grouping F :=
  match event.obj? with
  | none => g
  | some event =>
    let msgIndex := extractMsgIndex trunc event
    { maxMsgIndex := if g.maxMsgIndex < msgIndex then msgIndex else g.maxMsgIndex
      eventsByMsgIndex := g.eventsByMsgIndex.push msgIndex (copyEventForLogs event) }

def groupEvents (events : List (Json F)) : Grouping F := events.foldl (Grouping.add trunc) ⟨0, .empty⟩

/-- The most bytes that can be allocated. -/
def maxAlloc : Int := 2 ^ 48

/-- `make` of a slice of maps, which are pointers. -/
def makeLogs (capacity : Int) : Outcome String Unit :=
  if capacity < 0 ∨ maxAlloc < 8 * capacity then .panic "runtime error: makeslice: cap out of range"
  else .ok ()

def Grouping.logAt (g : Grouping F) (i : Nat) : Option (Log F) :=
  match (g.eventsByMsgIndex.get i).getD [] with
  | [] => none
  | msgEvents => some ⟨i, msgEvents⟩

/-- An index without events has no log. -/
def buildLogs (g : Grouping F) : List (Log F) :=
  (List.range (g.maxMsgIndex + 1).toNat).filterMap g.logAt

def reconstructLogs (txResponse : Fields F) : Outcome String (Fields F) :=
  match (txResponse.lookup "logs").bind Json.arr? with
  | some (_ :: _) => .ok txResponse
  | _ =>
    match (txResponse.lookup "events").bind Json.arr? with
    | some (event :: rest) => do
      let g := groupEvents trunc (event :: rest)
      makeLogs (wrap64 (g.maxMsgIndex + 1))
      match buildLogs g with
      | [] => .ok txResponse
      | logs => .ok (setField txResponse "logs" (.objs (logs.map Log.fields)))
    | _ => .ok txResponse

/-! ## Documents -/

/-- Decoding a document to a map, and encoding it. -/
structure Codec (F : Type) where
  unmarshal : List UInt8 → Except String (Fields F)
  marshal : Fields F → Except String (List UInt8)

/-- The logs of a transaction in a document; other values stay. -/
def transformTx : Json F → Outcome String (Json F)
  | .obj txResponse => do
    let txResponse ← reconstructLogs trunc txResponse
    .ok (.obj txResponse)
  | value => .ok value

def transformSingle (response : Fields F) : Outcome String (Fields F) :=
  match response.lookup "tx_response" with
  | some (.obj txResponse) => do
    let txResponse ← reconstructLogs trunc txResponse
    .ok (setField response "tx_response" (.obj txResponse))
  | _ => .ok response

def transformTxs : List (Json F) → Outcome String (List (Json F))
  | [] => .ok []
  | txResp :: rest => do
    let txResp ← transformTx trunc txResp
    let rest ← transformTxs rest
    .ok (txResp :: rest)

def transformList (response : Fields F) : Outcome String (Fields F) :=
  match response.lookup "tx_responses" with
  | some (.arr txResponses) => do
    let txResponses ← transformTxs trunc txResponses
    .ok (setField response "tx_responses" (.arr txResponses))
  | _ => .ok response

def transformTxResponse (codec : Codec F) (body : List UInt8) : Outcome String (List UInt8) := do
  let response ← .ofExcept id (codec.unmarshal body)
  let response ← transformSingle trunc response
  let response ← transformList trunc response
  .ofExcept id (codec.marshal response)

end Logs

theorem lookup_setField_of_ne {k k' : String} (h : k' ≠ k) (fields : Fields F) (v : Json F) :
    (setField fields k v).lookup k' = fields.lookup k' := by
  have hbeq : ∀ s : String, (k' == s) = decide (k' = s) := fun s => rfl
  rw [setField, List.lookup_cons, hbeq, decide_eq_false h]
  induction fields with
  | nil => rfl
  | cons e rest ih =>
    by_cases he : e.1 = k
    · rw [List.filter_cons_of_neg (by simpa using he), ih, List.lookup_cons, hbeq,
        decide_eq_false (he ▸ h)]
    · rw [List.filter_cons_of_pos (by simpa using he), List.lookup_cons, List.lookup_cons, ← ih]

section Documents

variable {trunc : F → Int} {response : Fields F}

theorem transformSingle_noPanic
    (h : ∀ tx, response.lookup "tx_response" = some (.obj tx) → (reconstructLogs trunc tx).NoPanic) :
    (transformSingle trunc response).NoPanic := by
  unfold transformSingle
  split
  · rename_i tx htx
    rw [Outcome.noPanic_bind]
    exact ⟨h tx htx, fun _ _ => Outcome.noPanic_ok _⟩
  · exact Outcome.noPanic_ok _

theorem transformTxs_noPanic {txs : List (Json F)}
    (h : ∀ tx, .obj tx ∈ txs → (reconstructLogs trunc tx).NoPanic) : (transformTxs trunc txs).NoPanic := by
  induction txs with
  | nil => exact Outcome.noPanic_ok _
  | cons txResp rest ih =>
    have hfirst : (transformTx trunc txResp).NoPanic := by
      unfold transformTx
      split
      · rw [Outcome.noPanic_bind]
        exact ⟨h _ List.mem_cons_self, fun _ _ => Outcome.noPanic_ok _⟩
      · exact Outcome.noPanic_ok _
    simp only [transformTxs, Outcome.noPanic_bind]
    refine ⟨hfirst, fun _ _ => ⟨?_, fun _ _ => Outcome.noPanic_ok _⟩⟩
    exact ih fun tx htx => h tx (List.mem_cons_of_mem _ htx)

/-- The other fields stay. -/
theorem transformSingle_lookup {response' : Fields F} (h : transformSingle trunc response = .ok response')
    {k : String} (hk : k ≠ "tx_response") : response'.lookup k = response.lookup k := by
  unfold transformSingle at h
  split at h
  · obtain ⟨tx, _, h⟩ := Outcome.bind_eq_ok.mp h
    cases h
    exact lookup_setField_of_ne hk _ _
  · cases h
    rfl

/-- Only the transactions of a document can make its rewriting panic. -/
theorem transformTxResponse_noPanic {codec : Codec F} {body : List UInt8}
    (hbody : codec.unmarshal body = .ok response)
    (hsingle : ∀ tx, response.lookup "tx_response" = some (.obj tx) → (reconstructLogs trunc tx).NoPanic)
    (hlist : ∀ txs tx, response.lookup "tx_responses" = some (.arr txs) → .obj tx ∈ txs →
      (reconstructLogs trunc tx).NoPanic) :
    (transformTxResponse trunc codec body).NoPanic := by
  have hmarshal : ∀ fields, (Outcome.ofExcept id (codec.marshal fields) : Outcome String _).NoPanic := by
    intro fields
    cases codec.marshal fields with
    | ok bytes => exact Outcome.noPanic_ok _
    | error e => exact Outcome.noPanic_err _
  rw [transformTxResponse, hbody]
  simp only [Outcome.ofExcept, Outcome.ok_bind, Outcome.noPanic_bind]
  refine ⟨transformSingle_noPanic hsingle, ?_⟩
  intro response' hresponse'
  refine ⟨?_, fun fields _ => hmarshal fields⟩
  unfold transformList
  split
  · rename_i txs htxs
    rw [transformSingle_lookup hresponse' (by decide)] at htxs
    rw [Outcome.noPanic_bind]
    exact ⟨transformTxs_noPanic fun tx htx => hlist txs tx htxs htx, fun _ _ => Outcome.noPanic_ok _⟩
  · exact Outcome.noPanic_ok _

end Documents

/-! ## Events of the SDK -/

/-- The attribute that the SDK appends. -/
structure IsMsgIndexAttribute (attr : Fields F) (n : Nat) : Prop where
  key : attr.lookup "key" = some (.str "msg_index")
  value : attr.lookup "value" = some (.str (toString n))
  field : attr.lookup "msg_index" = none

/-- An event with the index of the message that emitted it, if it was one. The index is
appended as the last attribute; so many logs can be allocated. -/
structure SdkEvent (F : Type) where
  event : Fields F
  msgIndex : Option Nat
  appended : ∀ n, msgIndex = some n → ∃ attrs last,
    event.lookup "attributes" = some (.arr (attrs ++ [.obj last])) ∧ IsMsgIndexAttribute last n
  small : ∀ n, msgIndex = some n → 8 * ((n : Int) + 1) ≤ maxAlloc

def SdkEvent.index (e : SdkEvent F) : Nat := e.msgIndex.getD 0

/-- The first attribute that states an index states that of the SDK. -/
def SdkEvent.Undisturbed (trunc : F → Int) (e : SdkEvent F) : Prop :=
  ∀ attrs, e.event.lookup "attributes" = some (.arr attrs) →
    ∀ before attr after i, attrs = before ++ attr :: after → (∀ a ∈ before, attrMsgIndex trunc a = none) →
      attrMsgIndex trunc attr = some i → i = e.index

/-- No attribute has a field for an index, as it is with attributes of the SDK. -/
def SdkEvent.Plain (e : SdkEvent F) : Prop :=
  ∀ attrs, e.event.lookup "attributes" = some (.arr attrs) →
    ∀ attr, .obj attr ∈ attrs → attr.lookup "msg_index" = none

/-- There are no logs yet. -/
def NoLogs (txResponse : Fields F) : Prop :=
  txResponse.lookup "logs" = none ∨ txResponse.lookup "logs" = some .null ∨
    txResponse.lookup "logs" = some (.arr [])

def logsOf (txResponse : Fields F) : List (Fields F) :=
  match txResponse.lookup "logs" with
  | some (.objs logs) => logs
  | _ => []

/-- The logs hold every event once, under the index of the SDK, in increasing order of the
indices and in the order of the events within each. -/
structure Partition (logs : List (Log F)) (es : List (SdkEvent F)) : Prop where
  increasing : (logs.map Log.msgIndex).Pairwise (· < ·)
  events : ∀ i, (logs.filter fun log => decide (log.msgIndex = i)).flatMap Log.events =
    (es.filter fun e => decide (e.index = i)).map fun e => copyEventForLogs e.event

/-- Rebuilding returns, with logs that partition the events. -/
def Partitioned (trunc : F → Int) (txResponse : Fields F) (es : List (SdkEvent F)) : Prop :=
  ∃ txResponse' logs, reconstructLogs trunc txResponse = .ok txResponse' ∧
    logsOf txResponse' = logs.map Log.fields ∧ Partition logs es

/-! ## Indices -/

/-- The decimal text of a number is read as the number. -/
theorem atoi_toString {n : Nat} (hn : n < 2 ^ 63) : atoi (toString n) = some (n : Int) := by
  have hlist : (toString n).toList = Nat.toDigits 10 n := Nat.toList_repr
  have hdigits : ∀ c ∈ Nat.toDigits 10 n, c.isDigit = true := by
    intro c hc
    exact Nat.isDigit_of_mem_toDigits (by decide) (by decide) hc
  have hpositive : parsePositive (Nat.toDigits 10 n) = some (n : Int) := by
    have hparse : parseDigits (Nat.toDigits 10 n) = some n := by
      rw [parseDigits, if_pos ⟨Nat.toDigits_ne_nil, List.all_eq_true.mpr hdigits⟩,
        Nat.ofDigitChars_toDigits (by decide) (by decide)]
    rw [parsePositive, hparse]
    exact if_pos hn
  rw [atoi, hlist]
  -- the first digit is no sign
  split
  · rename_i ds heq
    exact absurd (hdigits '-' (heq ▸ List.mem_cons_self)) (by decide)
  · rename_i ds heq
    exact absurd (hdigits '+' (heq ▸ List.mem_cons_self)) (by decide)
  · exact hpositive

section Events

variable {trunc : F → Int}

theorem IsMsgIndexAttribute.states {attr : Fields F} {n : Nat} (h : IsMsgIndexAttribute attr n)
    (hn : n < 2 ^ 63) : attrMsgIndex trunc (.obj attr) = some (n : Int) := by
  simp only [attrMsgIndex, Json.obj?, h.field, h.key, h.value, Option.bind_some, Json.str?, if_true]
  exact atoi_toString hn

theorem SdkEvent.small_index (e : SdkEvent F) : 8 * ((e.index : Int) + 1) ≤ maxAlloc := by
  cases hindex : e.msgIndex with
  | none =>
    rw [SdkEvent.index, hindex]
    decide
  | some n =>
    rw [SdkEvent.index, hindex]
    exact e.small n hindex

theorem arr?_eq_some {o : Option (Json F)} {items : List (Json F)} :
    o.bind Json.arr? = some items ↔ o = some (.arr items) := by
  cases o with
  | none => simp
  | some v => cases v <;> simp [Json.arr?]

variable (trunc) in
/-- The first index that an attribute states. -/
def statedIndex (event : Fields F) : Option Int :=
  ((event.lookup "attributes").bind Json.arr?).bind fun attrs => attrs.findSome? (attrMsgIndex trunc)

theorem extractMsgIndex_eq (event : Fields F) :
    extractMsgIndex trunc event = (statedIndex trunc event).getD 0 := by
  unfold extractMsgIndex statedIndex
  cases (event.lookup "attributes").bind Json.arr? <;> rfl

theorem statedIndex_eq_some {event : Fields F} {i : Int} :
    statedIndex trunc event = some i ↔ ∃ attrs, event.lookup "attributes" = some (.arr attrs) ∧
      ∃ before attr after, attrs = before ++ attr :: after ∧ attrMsgIndex trunc attr = some i ∧
        ∀ a ∈ before, attrMsgIndex trunc a = none := by
  rw [statedIndex, Option.bind_eq_some_iff]
  simp only [arr?_eq_some, List.findSome?_eq_some_iff]

/-- The appended attribute states an index, if no other does before. -/
theorem SdkEvent.statedIndex_isSome (e : SdkEvent F) {n : Nat} (hn : e.msgIndex = some n) :
    (statedIndex trunc e.event).isSome = true := by
  obtain ⟨attrs, last, hlookup, hlast⟩ := e.appended n hn
  have hsmall := e.small n hn
  have hstates : attrMsgIndex trunc (.obj last) = some (n : Int) :=
    hlast.states (by unfold maxAlloc at hsmall; omega)
  rw [statedIndex, arr?_eq_some.mpr hlookup, Option.bind_some, List.findSome?_isSome_iff]
  exact ⟨.obj last, List.mem_append_right _ List.mem_cons_self, by rw [hstates]; rfl⟩

/-- The code finds the index of the SDK exactly if nothing disturbs it. -/
theorem SdkEvent.extractMsgIndex_eq_iff (e : SdkEvent F) :
    extractMsgIndex trunc e.event = e.index ↔ e.Undisturbed trunc := by
  rw [extractMsgIndex_eq]
  cases hstated : statedIndex trunc e.event with
  | none =>
    have hnone : e.msgIndex = none := by
      cases hindex : e.msgIndex with
      | none => rfl
      | some n =>
        have hsome : (statedIndex trunc e.event).isSome = true := e.statedIndex_isSome hindex
        rw [hstated] at hsome
        cases hsome
    refine iff_of_true (by rw [SdkEvent.index, hnone]; rfl) ?_
    intro attrs hlookup before attr after i hsplit hbefore hi
    have hsome := statedIndex_eq_some.mpr ⟨attrs, hlookup, before, attr, after, hsplit, hi, hbefore⟩
    rw [hstated] at hsome
    cases hsome
  | some i =>
    refine ⟨?_, ?_⟩
    · intro hindex attrs hlookup before attr after j hsplit hbefore hj
      have hsome := statedIndex_eq_some.mpr ⟨attrs, hlookup, before, attr, after, hsplit, hj, hbefore⟩
      rw [hstated] at hsome
      cases hsome
      exact hindex
    · intro hundisturbed
      obtain ⟨attrs, hlookup, before, attr, after, hsplit, hi, hbefore⟩ := statedIndex_eq_some.mp hstated
      exact hundisturbed attrs hlookup before attr after i hsplit hbefore hi

/-! ## Copies -/

/-- The copy of a plain attribute states the same index. -/
theorem attrMsgIndex_copyAttribute {attr : Fields F} (h : attr.lookup "msg_index" = none) :
    attrMsgIndex trunc (.obj (copyAttribute attr)) = attrMsgIndex trunc (.obj attr) := by
  have hfield : (copyAttribute attr).lookup "msg_index" = none := by
    unfold copyAttribute
    cases (attr.lookup "key").bind Json.str? <;> cases attr.lookup "value" <;> rfl
  have hkey : ((copyAttribute attr).lookup "key").bind Json.str? = (attr.lookup "key").bind Json.str? := by
    unfold copyAttribute
    cases (attr.lookup "key").bind Json.str? <;> cases attr.lookup "value" <;> rfl
  have hvalue : (copyAttribute attr).lookup "value" = attr.lookup "value" := by
    unfold copyAttribute
    cases (attr.lookup "key").bind Json.str? <;> cases attr.lookup "value" <;> rfl
  simp only [attrMsgIndex, Json.obj?, hfield, hkey, hvalue, h]

variable (trunc) in
/-- The index that a copy of an event states. -/
def copiedIndex (copy : Fields F) : Int :=
  match copy.lookup "attributes" with
  | some (.objs attrs) => (attrs.findSome? fun attr => attrMsgIndex trunc (.obj attr)).getD 0
  | _ => 0

theorem findSome?_copies {attrs : List (Json F)}
    (h : ∀ attr, .obj attr ∈ attrs → attr.lookup "msg_index" = none) :
    ((attrs.filterMap Json.obj?).map copyAttribute).findSome? (fun attr => attrMsgIndex trunc (.obj attr)) =
      attrs.findSome? (attrMsgIndex trunc) := by
  induction attrs with
  | nil => rfl
  | cons a rest ih =>
    have hrest := ih (fun attr hattr => h attr (List.mem_cons_of_mem a hattr))
    cases a with
    | obj attr =>
      have hcopy : attrMsgIndex trunc (.obj (copyAttribute attr)) = attrMsgIndex trunc (.obj attr) :=
        attrMsgIndex_copyAttribute (h attr List.mem_cons_self)
      show (copyAttribute attr :: (rest.filterMap Json.obj?).map copyAttribute).findSome? _ = _
      rw [List.findSome?_cons, List.findSome?_cons, hcopy, hrest]
    | _ => exact hrest

theorem SdkEvent.copiedIndex_eq (e : SdkEvent F) (h : e.Plain) :
    copiedIndex trunc (copyEventForLogs e.event) = extractMsgIndex trunc e.event := by
  have hlookup : (copyEventForLogs e.event).lookup "attributes" =
      ((e.event.lookup "attributes").bind Json.arr?).map fun attributes =>
        .objs ((attributes.filterMap Json.obj?).map copyAttribute) := by
    unfold copyEventForLogs
    cases (e.event.lookup "type").bind Json.str? <;>
      cases (e.event.lookup "attributes").bind Json.arr? <;> rfl
  rw [copiedIndex, hlookup, extractMsgIndex]
  cases hattrs : (e.event.lookup "attributes").bind Json.arr? with
  | none => rfl
  | some attrs => exact congrArg (Option.getD · 0) (findSome?_copies (h attrs (arr?_eq_some.mp hattrs)))

/-! ## Groups -/

theorem groupEvents_get (events : List (Fields F)) (i : Int) :
    ((groupEvents trunc (events.map Json.obj)).eventsByMsgIndex.get i).getD [] =
      (events.filter fun e => decide (extractMsgIndex trunc e = i)).map copyEventForLogs := by
  have hfold : ∀ (es : List (Fields F)) (g : Grouping F),
      ((es.map Json.obj).foldl (Grouping.add trunc) g).eventsByMsgIndex =
        es.foldl (fun m e => m.push (extractMsgIndex trunc e) (copyEventForLogs e)) g.eventsByMsgIndex := by
    intro es
    induction es with
    | nil => exact fun g => rfl
    | cons e rest ih => exact fun g => ih _
  rw [groupEvents, hfold, SortedMap.getD_foldl_push]
  rfl

/-- The largest index is the least that is not below zero and not below that of any event. -/
theorem groupEvents_max_le {events : List (Fields F)} {bound : Int} :
    (groupEvents trunc (events.map Json.obj)).maxMsgIndex ≤ bound ↔
      0 ≤ bound ∧ ∀ e ∈ events, extractMsgIndex trunc e ≤ bound := by
  have hfold : ∀ (es : List (Fields F)) (g : Grouping F),
      ((es.map Json.obj).foldl (Grouping.add trunc) g).maxMsgIndex ≤ bound ↔
        g.maxMsgIndex ≤ bound ∧ ∀ e ∈ es, extractMsgIndex trunc e ≤ bound := by
    intro es
    induction es with
    | nil => simp
    | cons e rest ih =>
      intro g
      have hstep : (g.add trunc (.obj e)).maxMsgIndex ≤ bound ↔
          g.maxMsgIndex ≤ bound ∧ extractMsgIndex trunc e ≤ bound := by
        show (if g.maxMsgIndex < extractMsgIndex trunc e then _ else _) ≤ bound ↔ _
        split_ifs <;> omega
      rw [List.map_cons, List.foldl_cons, ih, hstep, List.forall_mem_cons, and_assoc]
  exact hfold events ⟨0, .empty⟩

variable (trunc) in
theorem le_maxMsgIndex (events : List (Fields F)) :
    0 ≤ (groupEvents trunc (events.map Json.obj)).maxMsgIndex ∧
      ∀ e ∈ events, extractMsgIndex trunc e ≤ (groupEvents trunc (events.map Json.obj)).maxMsgIndex :=
  groupEvents_max_le.mp (Int.le_refl _)

end Events

section Build

variable (g : Grouping F)

theorem Grouping.logAt_msgIndex {i : Nat} {log : Log F} (h : g.logAt i = some log) : log.msgIndex = i := by
  unfold Grouping.logAt at h
  split at h
  · cases h
  · cases h
    rfl

theorem Grouping.logAt_events (i : Nat) :
    (g.logAt i).toList.flatMap Log.events = (g.eventsByMsgIndex.get i).getD [] := by
  unfold Grouping.logAt
  split <;> simp_all

/-- The logs among the first indices that are of one index. -/
theorem filter_logAt (n i : Nat) :
    ((List.range n).filterMap g.logAt).filter (fun log => decide (log.msgIndex = i)) =
      if i < n then (g.logAt i).toList else [] := by
  induction n with
  | zero => rfl
  | succ n ih =>
    rw [List.range_succ, List.filterMap_append, List.filter_append, ih]
    have hlast : ([n].filterMap g.logAt).filter (fun log => decide (log.msgIndex = i)) =
        if i = n then (g.logAt n).toList else [] := by
      cases hlog : g.logAt n with
      | none => simp [hlog]
      | some log =>
        have hindex := g.logAt_msgIndex hlog
        by_cases heq : i = n
        · simp [hlog, hindex, heq]
        · simp [hlog, hindex, heq, Ne.symm heq]
    rw [hlast]
    by_cases heq : i = n
    · subst heq
      simp
    · by_cases hlt : i < n
      · rw [if_pos hlt, if_neg heq, if_pos (by omega), List.append_nil]
      · rw [if_neg hlt, if_neg heq, if_neg (by omega), List.append_nil]

theorem buildLogs_increasing : ((buildLogs g).map Log.msgIndex).Pairwise (· < ·) := by
  rw [buildLogs, List.pairwise_map, List.pairwise_filterMap]
  refine List.pairwise_lt_range.imp ?_
  intro i j hlt log hlog log' hlog'
  rw [g.logAt_msgIndex hlog, g.logAt_msgIndex hlog']
  exact hlt

end Build

section Rebuilt

variable {trunc : F → Int}

/-- The log of an index has the events for which the code finds it. -/
theorem buildLogs_events (events : List (Fields F)) (i : Nat) :
    ((buildLogs (groupEvents trunc (events.map Json.obj))).filter fun log =>
        decide (log.msgIndex = i)).flatMap Log.events =
      (events.filter fun e => decide (extractMsgIndex trunc e = i)).map copyEventForLogs := by
  rw [buildLogs, filter_logAt]
  split_ifs with hlt
  · rw [Grouping.logAt_events, groupEvents_get]
  · -- no event has an index above the largest
    obtain ⟨_, hle⟩ := le_maxMsgIndex trunc events
    have hnone : events.filter (fun e => decide (extractMsgIndex trunc e = i)) = [] := by
      rw [List.filter_eq_nil_iff]
      intro e he heq
      have hindex := of_decide_eq_true heq
      have hmax := hle e he
      omega
    rw [hnone]
    rfl

theorem NoLogs.logsOf_eq {txResponse : Fields F} (h : NoLogs txResponse) : logsOf txResponse = [] := by
  unfold logsOf
  rcases h with h | h | h <;> rw [h]

theorem logsOf_setField (txResponse : Fields F) (logs : List (Fields F)) :
    logsOf (setField txResponse "logs" (.objs logs)) = logs := rfl

variable (trunc) in
/-- Events without logs are grouped, if the logs can be allocated. -/
theorem reconstructLogs_eq {txResponse : Fields F} {events : List (Fields F)} (hlogs : NoLogs txResponse)
    (hevents : txResponse.lookup "events" = some (.arr (events.map Json.obj))) :
    let g := groupEvents trunc (events.map Json.obj)
    (makeLogs (wrap64 (g.maxMsgIndex + 1)) = .ok () → ∃ tx, reconstructLogs trunc txResponse = .ok tx) ∧
    ∀ tx, reconstructLogs trunc txResponse = .ok tx → logsOf tx = (buildLogs g).map Log.fields := by
  intro g
  have hnone : ∀ log rest, (txResponse.lookup "logs").bind Json.arr? ≠ some (log :: rest) := by
    intro log rest
    rcases hlogs with h | h | h <;> rw [h] <;> simp [Json.arr?]
  cases events with
  | nil =>
    have hrun : reconstructLogs trunc txResponse = .ok txResponse := by
      unfold reconstructLogs
      split
      · rfl
      · rw [hevents]
        rfl
    refine ⟨fun _ => ⟨txResponse, hrun⟩, ?_⟩
    intro tx htx
    rw [hrun] at htx
    cases htx
    exact hlogs.logsOf_eq
  | cons event rest =>
    have hrun : reconstructLogs trunc txResponse = (do
        makeLogs (wrap64 (g.maxMsgIndex + 1))
        match buildLogs g with
        | [] => .ok txResponse
        | logs => .ok (setField txResponse "logs" (.objs (logs.map Log.fields)))) := by
      unfold reconstructLogs
      split
      · rename_i heq
        exact absurd heq (hnone _ _)
      · rw [hevents]
        rfl
    rw [hrun]
    refine ⟨?_, ?_⟩
    · intro hmake
      rw [hmake, Outcome.ok_bind]
      cases buildLogs g with
      | nil => exact ⟨_, rfl⟩
      | cons log logs => exact ⟨_, rfl⟩
    · intro tx htx
      obtain ⟨_, htx⟩ := Outcome.check_bind_eq_ok.mp htx
      cases hbuilt : buildLogs g with
      | nil =>
        rw [hbuilt] at htx
        cases htx
        exact hlogs.logsOf_eq
      | cons log logs =>
        rw [hbuilt] at htx
        cases htx
        exact logsOf_setField _ _

theorem Log.fields_injective : Function.Injective (Log.fields : Log F → Fields F) := by
  intro log log' h
  cases log
  cases log'
  simp only [Log.fields, List.cons.injEq, Prod.mk.injEq, Json.int.injEq, Json.objs.injEq, Nat.cast_inj] at h
  simp [h]

end Rebuilt

section Partitions

variable {trunc : F → Int} {txResponse : Fields F} {es : List (SdkEvent F)}

theorem filter_map_event (p : Fields F → Bool) :
    ((es.map SdkEvent.event).filter p).map copyEventForLogs =
      (es.filter fun e => p e.event).map fun e => copyEventForLogs e.event := by
  rw [List.filter_map, List.map_map]
  rfl

/-- Undisturbed events are found under their indices, and the logs can be allocated. -/
theorem partitioned_of_undisturbed (hlogs : NoLogs txResponse)
    (hevents : txResponse.lookup "events" = some (.arr ((es.map SdkEvent.event).map Json.obj)))
    (h : ∀ e ∈ es, e.Undisturbed trunc) : Partitioned trunc txResponse es := by
  have hindex : ∀ e ∈ es, extractMsgIndex trunc e.event = e.index :=
    fun e he => e.extractMsgIndex_eq_iff.mpr (h e he)
  obtain ⟨hok, hbuilt⟩ := reconstructLogs_eq trunc hlogs hevents
  have hmax : (groupEvents trunc ((es.map SdkEvent.event).map Json.obj)).maxMsgIndex ≤ 2 ^ 45 - 1 := by
    rw [groupEvents_max_le]
    refine ⟨by decide, ?_⟩
    intro event hevent
    obtain ⟨e, he, rfl⟩ := List.mem_map.mp hevent
    rw [hindex e he]
    have hsmall := e.small_index
    unfold maxAlloc at hsmall
    omega
  obtain ⟨hmin, _⟩ := le_maxMsgIndex trunc (es.map SdkEvent.event)
  have hmake : makeLogs
      (wrap64 ((groupEvents trunc ((es.map SdkEvent.event).map Json.obj)).maxMsgIndex + 1)) = .ok () := by
    rw [Sdk.wrap64_eq (by omega) (by omega), makeLogs, if_neg]
    unfold maxAlloc
    omega
  obtain ⟨tx, htx⟩ := hok hmake
  refine ⟨tx, _, htx, hbuilt tx htx, buildLogs_increasing _, ?_⟩
  intro i
  rw [buildLogs_events, filter_map_event]
  congr 1
  apply List.filter_congr
  intro e he
  rw [hindex e he]
  simp

/-- Where the logs partition plain events, the code has found every index. -/
theorem undisturbed_of_partitioned (hlogs : NoLogs txResponse)
    (hevents : txResponse.lookup "events" = some (.arr ((es.map SdkEvent.event).map Json.obj)))
    (hplain : ∀ e ∈ es, e.Plain) (h : Partitioned trunc txResponse es) : ∀ e ∈ es, e.Undisturbed trunc := by
  obtain ⟨tx, logs, htx, hread, hpartition⟩ := h
  have hbuilt := (reconstructLogs_eq trunc hlogs hevents).2 tx htx
  rw [hread] at hbuilt
  have hsame := List.map_injective_iff.mpr Log.fields_injective hbuilt
  intro e he
  rw [← e.extractMsgIndex_eq_iff]
  have hgroup := hpartition.events e.index
  rw [hsame, buildLogs_events, filter_map_event] at hgroup
  -- the copy of the event is one of an event for which the code has found that index
  have hcopy : copyEventForLogs e.event ∈
      (es.filter fun e' => decide (extractMsgIndex trunc e'.event = e.index)).map
        fun e' => copyEventForLogs e'.event := by
    rw [hgroup]
    exact List.mem_map.mpr ⟨e, List.mem_filter.mpr ⟨he, decide_eq_true rfl⟩, rfl⟩
  obtain ⟨e', he', heq⟩ := List.mem_map.mp hcopy
  obtain ⟨hin, hindex⟩ := List.mem_filter.mp he'
  calc extractMsgIndex trunc e.event
      = copiedIndex trunc (copyEventForLogs e.event) := (e.copiedIndex_eq (hplain e he)).symm
    _ = copiedIndex trunc (copyEventForLogs e'.event) := by rw [heq]
    _ = extractMsgIndex trunc e'.event := e'.copiedIndex_eq (hplain e' hin)
    _ = e.index := of_decide_eq_true hindex

/-- The rebuilt logs partition the events if in each the first attribute that states an
index states that of the SDK, and, where indices are stated by key and value only, in no
other case. -/
theorem logs_partition_iff (hlogs : NoLogs txResponse)
    (hevents : txResponse.lookup "events" = some (.arr ((es.map SdkEvent.event).map Json.obj))) :
    ((∀ e ∈ es, e.Undisturbed trunc) → Partitioned trunc txResponse es) ∧
    ((∀ e ∈ es, e.Plain) → (Partitioned trunc txResponse es ↔ ∀ e ∈ es, e.Undisturbed trunc)) := by
  refine ⟨partitioned_of_undisturbed hlogs hevents, ?_⟩
  intro hplain
  exact ⟨undisturbed_of_partitioned hlogs hevents hplain, partitioned_of_undisturbed hlogs hevents⟩

end Partitions

namespace Sample

def attr (key value : String) : Json Int :=
  .obj [("key", .str key), ("value", .str value), ("index", .bool true)]

/-- An event of a contract, with one attribute of its own. -/
def contractEvent (key value : String) (n : Nat) (hn : 8 * ((n : Int) + 1) ≤ maxAlloc) : SdkEvent Int where
  event := [("type", .str "wasm"),
    ("attributes", .arr [attr key value, attr "msg_index" (toString n)])]
  msgIndex := some n
  appended := by
    intro m hm
    cases hm
    exact ⟨[attr key value], _, rfl, rfl, rfl, rfl⟩
  small := by
    intro m hm
    cases hm
    exact hn

/-- The event of the fee, which no message emits. -/
def feeEvent : SdkEvent Int where
  event := [("type", .str "tx"), ("attributes", .arr [attr "fee" "1000udo"])]
  msgIndex := none
  appended := by
    intro m hm
    cases hm
  small := by
    intro m hm
    cases hm

def txResponse (es : List (SdkEvent Int)) : Fields Int :=
  [("code", .float 0), ("logs", .arr []), ("events", .arr ((es.map SdkEvent.event).map Json.obj))]

/-- Events of two messages, and one of none. -/
def minted : List (SdkEvent Int) :=
  [feeEvent, contractEvent "action" "mint" 1 (by decide), contractEvent "action" "burn" 0 (by decide)]

theorem minted_partitioned : Partitioned id (txResponse minted) minted := by
  have hindex : ∀ e ∈ minted, extractMsgIndex id e.event = e.index := by decide +kernel
  refine (logs_partition_iff (.inr (.inr rfl)) rfl).1 ?_
  exact fun e he => e.extractMsgIndex_eq_iff.mp (hindex e he)

/-- A message of index 0 whose contract names its attribute `msg_index`. -/
def tagged (value : String) : Fields Int := txResponse [contractEvent "msg_index" value 0 (by decide)]

/-- The value of such an attribute moves the event to another log, removes it from the logs,
or makes the allocation panic. -/
theorem attribute_moves_event :
    ((reconstructLogs id (tagged "7")).value.map fun tx =>
      (logsOf tx).map fun log => (log.lookup "msg_index").map (toInt id)) = some [some 7] ∧
    ((reconstructLogs id (tagged "-1")).value.map fun tx => (logsOf tx).length) = some 0 ∧
    (reconstructLogs id (tagged "9223372036854775807")).panicText =
      some "runtime error: makeslice: cap out of range" := by
  decide +kernel

end Sample

end Server
