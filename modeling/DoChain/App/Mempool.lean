import DoChain.App.Helper
import DoChain.Lib.Outcome

/- The application's mempool (`app/mempool/mempool_fifo.go`).

   Correspondence (Go ↔ Lean):
     `helper.IsOracleTx`      ↔ `App.isOracleTx`
     `getTxKey`               ↔ `getTxKey`
     `FifoMempool`            ↔ `FifoMempool`; the lists hold elements, which are
                                pointers there and numbered here
     `Insert`, `Remove`       ↔ `insert`, `remove`: the mempool after the call, and
                                what the call returns
     `CountTx`                ↔ `countTx`
     `Select`, then `Next` to the end ↔ `select`

   The lookup maps are keyed by the first signer and its sequence alone, so a second
   transaction with the key of one that is still in its queue takes its place in the map.

   `Pool` is what the mempool is for: two queues of transactions. As long as no call
   uses the key of another transaction of its queue, the mempool shows the pool and
   removes from it what it is asked to (`fifo_refines_pool`). -/

namespace Mempool

open Sdk App

/-! ## Transactions -/

structure Signature where
  pubKey : Option AccAddress
  sequence : Nat
  deriving DecidableEq

/-- A transaction as the mempool sees it; `body` is the rest of it. -/
structure Tx where
  msgs : List TxMsg
  signatures : Except String (List Signature)
  body : List UInt8
  deriving DecidableEq

structure TxKey where
  address : String
  nonce : Nat
  deriving DecidableEq

variable (bech32 : Bech32)

/-- The address of a missing key is not read: the call panics. -/
def getTxKey (tx : Tx) : Outcome String TxKey :=
  match tx.signatures with
  | .error e => .err e
  | .ok [] => .err "tx must have at least one signer"
  | .ok (sig :: _) =>
    match sig.pubKey with
    | none => .panic "invalid memory address or nil pointer dereference"
    | some addr => .ok ⟨bech32.string addr, sig.sequence⟩

/-! ## The mempool -/

/-- An element of a list, with its identity. -/
structure Element where
  id : Nat
  tx : Tx
  deriving DecidableEq

abbrev TxMap := TxKey → Option Element

def TxMap.store (m : TxMap) (key : TxKey) (e : Element) : TxMap := Function.update m key (some e)

def TxMap.delete (m : TxMap) (key : TxKey) : TxMap := Function.update m key none

def TxMap.empty : TxMap := fun _ => none

/-- One of the two queues with its lookup map. -/
structure Queue where
  txs : List Element
  txsMap : TxMap

structure FifoMempool where
  regular : Queue
  oracle : Queue
  maxTx : Int
  /-- the identity of the next element -/
  next : Nat

def newFifoMempool (maxTx : Int) : FifoMempool := ⟨⟨[], TxMap.empty⟩, ⟨[], TxMap.empty⟩, maxTx, 0⟩

def FifoMempool.queue (mp : FifoMempool) (isOracle : Bool) : Queue :=
  if isOracle then mp.oracle else mp.regular

def FifoMempool.setQueue (mp : FifoMempool) (isOracle : Bool) (q : Queue) : FifoMempool :=
  if isOracle then { mp with oracle := q } else { mp with regular := q }

def FifoMempool.countTx (mp : FifoMempool) : Nat := mp.regular.txs.length + mp.oracle.txs.length

def Queue.pushBack (q : Queue) (key : TxKey) (e : Element) : Queue :=
  ⟨q.txs ++ [e], q.txsMap.store key e⟩

def FifoMempool.insert (mp : FifoMempool) (tx : Tx) : FifoMempool × Outcome String Unit :=
  if 0 ≤ mp.maxTx ∧ mp.maxTx ≤ mp.countTx then (mp, .err "pool reached max tx capacity")
  else if mp.maxTx < 0 then (mp, .ok ())
  else
    match getTxKey bech32 tx with
    | .err e => (mp, .err e)
    | .panic m => (mp, .panic m)
    | .ok key =>
      let q := (mp.queue (isOracleTx tx.msgs)).pushBack key ⟨mp.next, tx⟩
      ({ mp.setQueue (isOracleTx tx.msgs) q with next := mp.next + 1 }, .ok ())

def Queue.removeElement (q : Queue) (key : TxKey) (e : Element) : Queue :=
  ⟨q.txs.filter (fun x => decide (x.id ≠ e.id)), q.txsMap.delete key⟩

def FifoMempool.remove (mp : FifoMempool) (tx : Tx) : FifoMempool × Outcome String Unit :=
  match getTxKey bech32 tx with
  | .err e => (mp, .err e)
  | .panic m => (mp, .panic m)
  | .ok key =>
    match (mp.queue (isOracleTx tx.msgs)).txsMap key with
    | none => (mp, .err "tx not found in mempool")
    | some e =>
      (mp.setQueue (isOracleTx tx.msgs) ((mp.queue (isOracleTx tx.msgs)).removeElement key e), .ok ())

/-- The key in an iteration; it is the zero key where there is none. -/
def listKey (e : Element) : TxKey :=
  match getTxKey bech32 e.tx with
  | .ok key => key
  | _ => ⟨"", 0⟩

/-- The map that an iteration makes of a queue. -/
def newMap (es : List Element) : TxMap :=
  es.foldl (fun m e => m.store (listKey bech32 e) e) TxMap.empty

/-- The transactions that `Next` comes by. -/
def iterate : List TxKey → TxMap → TxMap → List Tx
  | [], _, _ => []
  | key :: keys, mapTxsOracle, mapTxs =>
    match mapTxsOracle key with
    | some e => e.tx :: iterate keys (mapTxsOracle.delete key) mapTxs
    | none =>
      match mapTxs key with
      | some e => e.tx :: iterate keys mapTxsOracle (mapTxs.delete key)
      | none => iterate keys mapTxsOracle mapTxs

def FifoMempool.select (mp : FifoMempool) : List Tx :=
  iterate (mp.oracle.txs.map (listKey bech32) ++ mp.regular.txs.map (listKey bech32))
    (newMap bech32 mp.oracle.txs) (newMap bech32 mp.regular.txs)

/-! ## Calls and the pool -/

inductive Call where
  | insert (tx : Tx)
  | remove (tx : Tx)

def Call.tx : Call → Tx
  | .insert tx => tx
  | .remove tx => tx

def FifoMempool.call (mp : FifoMempool) : Call → FifoMempool × Outcome String Unit
  | .insert tx => mp.insert bech32 tx
  | .remove tx => mp.remove bech32 tx

/-- The transactions that were inserted and not yet removed, in the order of their
insertion. -/
structure Pool where
  oracle : List Tx
  regular : List Tx

def Pool.queue (p : Pool) (isOracle : Bool) : List Tx := if isOracle then p.oracle else p.regular

def Pool.setQueue (p : Pool) (isOracle : Bool) (txs : List Tx) : Pool :=
  if isOracle then { p with oracle := txs } else { p with regular := txs }

/-- What a call that returned no error means for the pool. -/
def Pool.record (p : Pool) (c : Call) : Outcome String Unit → Pool
  | .ok () =>
    match c with
    | .insert tx => p.setQueue (isOracleTx tx.msgs) (p.queue (isOracleTx tx.msgs) ++ [tx])
    | .remove tx => p.setQueue (isOracleTx tx.msgs) ((p.queue (isOracleTx tx.msgs)).erase tx)
  | _ => p

def step (s : FifoMempool × Pool) (c : Call) : FifoMempool × Pool :=
  ((s.1.call bech32 c).1, s.2.record c (s.1.call bech32 c).2)

/-- The mempool and the pool after a sequence of calls. -/
def play (maxTx : Int) (calls : List Call) : FifoMempool × Pool :=
  calls.foldl (step bech32) (newFifoMempool maxTx, ⟨[], []⟩)

/-- No call uses the key of another transaction of its queue: an insert that of none,
a remove only that of the transaction to remove. -/
def OwnKey (p : Pool) : Call → Prop
  | .insert tx => ∀ tx' ∈ p.queue (isOracleTx tx.msgs), getTxKey bech32 tx' ≠ getTxKey bech32 tx
  | .remove tx => ∀ tx' ∈ p.queue (isOracleTx tx.msgs),
      getTxKey bech32 tx' = getTxKey bech32 tx → tx' = tx

/-- An iteration shows the pool, oracle transactions first; the count is that of the
pool and within the limit; and each transaction can be removed, alone. -/
structure Shows (maxTx : Int) (mp : FifoMempool) (p : Pool) : Prop where
  select_eq : mp.select bech32 = p.oracle ++ p.regular
  count_eq : mp.countTx = (mp.select bech32).length
  count_le : (mp.countTx : Int) ≤ maxTx
  remove_eq : ∀ tx ∈ mp.select bech32, (mp.remove bech32 tx).2 = .ok () ∧
    (mp.remove bech32 tx).1.select bech32 = (mp.select bech32).erase tx

/-! ## The maps of an iteration -/

variable {bech32}

theorem newMap_append (es : List Element) (e : Element) :
    newMap bech32 (es ++ [e]) = (newMap bech32 es).store (listKey bech32 e) e := by
  rw [newMap, List.foldl_append]
  rfl

/-- Where the keys are distinct, the map finds every element. -/
theorem newMap_eq_some {es : List Element} (hnd : (es.map (listKey bech32)).Nodup) {key : TxKey}
    {e : Element} : newMap bech32 es key = some e ↔ e ∈ es ∧ listKey bech32 e = key := by
  induction es using List.reverseRecOn with
  | nil => simp [newMap, TxMap.empty]
  | append_singleton es x ih =>
    rw [List.map_append, List.nodup_append] at hnd
    obtain ⟨hnd, _, hfresh⟩ := hnd
    rw [newMap_append, TxMap.store]
    by_cases hk : key = listKey bech32 x
    · rw [hk, Function.update_self]
      refine ⟨?_, ?_⟩
      · intro h
        cases h
        exact ⟨List.mem_append_right _ List.mem_cons_self, rfl⟩
      · intro h
        obtain ⟨hmem, hkey⟩ := h
        cases List.mem_append.mp hmem with
        | inl hmem =>
          exact absurd hkey (hfresh _ (List.mem_map_of_mem hmem) _ (by simp))
        | inr hmem => rw [List.mem_singleton.mp hmem]
    · rw [Function.update_of_ne hk, ih hnd, List.mem_append, List.mem_singleton]
      refine ⟨?_, ?_⟩
      · intro h
        exact ⟨.inl h.1, h.2⟩
      · intro h
        refine ⟨h.1.resolve_right ?_, h.2⟩
        intro heq
        exact hk (heq ▸ h.2).symm

/-- Deleting the key of an element leaves the map of the others. -/
theorem newMap_delete {es es' : List Element} (hnd : (es.map (listKey bech32)).Nodup)
    (hsub : es'.Sublist es) {key : TxKey}
    (hleft : ∀ e ∈ es, e ∈ es' ↔ listKey bech32 e ≠ key) :
    (newMap bech32 es).delete key = newMap bech32 es' := by
  have hnd' := hnd.sublist (hsub.map (listKey bech32))
  funext k
  apply Option.ext
  intro e
  rw [newMap_eq_some hnd', TxMap.delete]
  by_cases hk : k = key
  · rw [hk, Function.update_self]
    refine ⟨?_, ?_⟩
    · intro h
      cases h
    · intro h
      exact absurd h.2 ((hleft e (hsub.subset h.1)).mp h.1)
  · rw [Function.update_of_ne hk, newMap_eq_some hnd]
    refine ⟨?_, ?_⟩
    · intro h
      exact ⟨(hleft e h.1).mpr (h.2 ▸ hk), h.2⟩
    · intro h
      exact ⟨hsub.subset h.1, h.2⟩

theorem newMap_delete_head {e : Element} {es : List Element}
    (hnd : ((e :: es).map (listKey bech32)).Nodup) :
    (newMap bech32 (e :: es)).delete (listKey bech32 e) = newMap bech32 es := by
  obtain ⟨hfresh, _⟩ := List.nodup_cons.mp hnd
  apply newMap_delete hnd (List.sublist_cons_self e es)
  intro x hx
  refine ⟨?_, ?_⟩
  · intro hmem hkey
    exact hfresh (hkey ▸ List.mem_map_of_mem hmem)
  · intro hne
    exact (List.mem_cons.mp hx).resolve_left (fun heq => hne (heq ▸ rfl))

/-- An iteration comes by the oracle transactions first, in their order. -/
theorem iterate_oracle {es : List Element} (hnd : (es.map (listKey bech32)).Nodup)
    (keys : List TxKey) (m : TxMap) :
    iterate (es.map (listKey bech32) ++ keys) (newMap bech32 es) m =
      es.map Element.tx ++ iterate keys TxMap.empty m := by
  induction es with
  | nil => rfl
  | cons e es ih =>
    have hget : newMap bech32 (e :: es) (listKey bech32 e) = some e :=
      (newMap_eq_some hnd).mpr ⟨List.mem_cons_self, rfl⟩
    simp only [List.map_cons, List.cons_append, iterate, hget, newMap_delete_head hnd]
    rw [ih (List.nodup_cons.mp hnd).2]

/-- Then by the regular ones. -/
theorem iterate_regular {es : List Element} (hnd : (es.map (listKey bech32)).Nodup) :
    iterate (es.map (listKey bech32)) TxMap.empty (newMap bech32 es) = es.map Element.tx := by
  induction es with
  | nil => rfl
  | cons e es ih =>
    have hget : newMap bech32 (e :: es) (listKey bech32 e) = some e :=
      (newMap_eq_some hnd).mpr ⟨List.mem_cons_self, rfl⟩
    have hempty : TxMap.empty (listKey bech32 e) = none := rfl
    simp only [List.map_cons, iterate, hempty, hget, newMap_delete_head hnd]
    rw [ih (List.nodup_cons.mp hnd).2]

/-! ## A queue and its map -/

/-- A queue holds transactions of its class with distinct keys, and its map is the one
an iteration makes. -/
structure Queue.Holds (bech32 : Bech32) (next : Nat) (isOracle : Bool) (q : Queue) (txs : List Tx) :
    Prop where
  txs_eq : q.txs.map Element.tx = txs
  kind : ∀ e ∈ q.txs, isOracleTx e.tx.msgs = isOracle
  keyed : ∀ e ∈ q.txs, getTxKey bech32 e.tx = .ok (listKey bech32 e)
  distinct : (q.txs.map (listKey bech32)).Nodup
  mapped : q.txsMap = newMap bech32 q.txs
  ids : (q.txs.map Element.id).Nodup
  ids_lt : ∀ e ∈ q.txs, e.id < next

section Queues

variable {next : Nat} {isOracle : Bool} {q : Queue} {txs : List Tx}

theorem listKey_eq {e : Element} {key : TxKey} (h : getTxKey bech32 e.tx = .ok key) :
    listKey bech32 e = key := by
  rw [listKey, h]

theorem Queue.Holds.next_le (h : q.Holds bech32 next isOracle txs) {next' : Nat}
    (hle : next ≤ next') : q.Holds bech32 next' isOracle txs :=
  { h with ids_lt := fun e he => lt_of_lt_of_le (h.ids_lt e he) hle }

theorem Queue.Holds.pushBack (h : q.Holds bech32 next isOracle txs) {tx : Tx} {key : TxKey}
    (hkey : getTxKey bech32 tx = .ok key) (hkind : isOracleTx tx.msgs = isOracle)
    (hfresh : ∀ tx' ∈ txs, getTxKey bech32 tx' ≠ getTxKey bech32 tx) :
    (q.pushBack key ⟨next, tx⟩).Holds bech32 (next + 1) isOracle (txs ++ [tx]) := by
  have hlist : listKey bech32 ⟨next, tx⟩ = key := listKey_eq hkey
  have hcases : ∀ e ∈ q.txs ++ [⟨next, tx⟩], e ∈ q.txs ∨ e = ⟨next, tx⟩ := by
    intro e he
    exact (List.mem_append.mp he).imp_right List.mem_singleton.mp
  refine ⟨?_, ?_, ?_, ?_, ?_, ?_, ?_⟩
  · show (q.txs ++ [Element.mk next tx]).map Element.tx = txs ++ [tx]
    rw [List.map_append, h.txs_eq]
    rfl
  · intro e he
    cases hcases e he with
    | inl he => exact h.kind e he
    | inr he => exact he ▸ hkind
  · intro e he
    cases hcases e he with
    | inl he => exact h.keyed e he
    | inr he =>
      rw [he, hlist]
      exact hkey
  · show ((q.txs ++ [Element.mk next tx]).map (listKey bech32)).Nodup
    rw [List.map_append]
    refine List.nodup_append.mpr ⟨h.distinct, List.nodup_singleton _, ?_⟩
    intro k hk k' hk' heq
    obtain ⟨e, he, rfl⟩ := List.mem_map.mp hk
    obtain rfl : k' = key := (List.mem_singleton.mp hk').trans hlist
    have hin : e.tx ∈ txs := h.txs_eq ▸ List.mem_map_of_mem he
    exact hfresh e.tx hin (by rw [h.keyed e he, hkey, heq])
  · show q.txsMap.store key ⟨next, tx⟩ = newMap bech32 (q.txs ++ [⟨next, tx⟩])
    rw [newMap_append, h.mapped, hlist]
  · show ((q.txs ++ [Element.mk next tx]).map Element.id).Nodup
    rw [List.map_append]
    refine List.nodup_append.mpr ⟨h.ids, List.nodup_singleton _, ?_⟩
    intro n hn n' hn' heq
    obtain ⟨e, he, rfl⟩ := List.mem_map.mp hn
    have hlt := h.ids_lt e he
    have hnext : n' = next := List.mem_singleton.mp hn'
    omega
  · intro e he
    cases hcases e he with
    | inl he => exact Nat.lt_succ_of_lt (h.ids_lt e he)
    | inr he =>
      rw [he]
      exact Nat.lt_succ_self next

/-- Elements with distinct keys and identities: dropping one drops its transaction. -/
theorem map_filter_id {es : List Element} {e : Element} (he : e ∈ es)
    (hids : (es.map Element.id).Nodup) (hkeys : (es.map (listKey bech32)).Nodup) :
    (es.filter (fun x => decide (x.id ≠ e.id))).map Element.tx = (es.map Element.tx).erase e.tx := by
  induction es with
  | nil => cases he
  | cons x es ih =>
    obtain ⟨hid, hids⟩ := List.nodup_cons.mp hids
    obtain ⟨hkey, hkeys⟩ := List.nodup_cons.mp hkeys
    by_cases hx : x = e
    · -- it is the first one, and the others have other identities
      have hall : es.filter (fun y => decide (y.id ≠ e.id)) = es := by
        apply List.filter_eq_self.mpr
        intro y hy
        apply decide_eq_true
        intro heq
        exact hid (hx ▸ heq ▸ List.mem_map_of_mem hy)
      rw [List.filter_cons_of_neg (by simp [hx]), hall, List.map_cons, hx, List.erase_cons_head]
    · have hmem : e ∈ es := (List.mem_cons.mp he).resolve_left (fun heq => hx heq.symm)
      have hne : x.id ≠ e.id := fun heq => hid (heq ▸ List.mem_map_of_mem hmem)
      have htx : x.tx ≠ e.tx := by
        intro heq
        have hsame : listKey bech32 x = listKey bech32 e := by
          rw [listKey, listKey, heq]
        exact hkey (hsame ▸ List.mem_map_of_mem hmem)
      rw [List.filter_cons_of_pos (by simpa using hne), List.map_cons, List.map_cons,
        List.erase_cons_tail (by simpa using htx), ih hmem hids hkeys]

theorem Queue.Holds.removeElement (h : q.Holds bech32 next isOracle txs) {e : Element}
    (he : e ∈ q.txs) :
    (q.removeElement (listKey bech32 e) e).Holds bech32 next isOracle (txs.erase e.tx) := by
  have hsub : (q.txs.filter (fun x => decide (x.id ≠ e.id))).Sublist q.txs := List.filter_sublist
  have hkey : ∀ x ∈ q.txs, listKey bech32 x = listKey bech32 e → x = e :=
    fun x hx heq => List.inj_on_of_nodup_map h.distinct hx he heq
  refine ⟨?_, ?_, ?_, ?_, ?_, ?_, ?_⟩
  · show (q.txs.filter _).map Element.tx = _
    rw [map_filter_id he h.ids h.distinct, h.txs_eq]
  · exact fun x hx => h.kind x (hsub.subset hx)
  · exact fun x hx => h.keyed x (hsub.subset hx)
  · exact h.distinct.sublist (hsub.map _)
  · show q.txsMap.delete (listKey bech32 e) = newMap bech32 (q.txs.filter _)
    rw [h.mapped]
    apply newMap_delete h.distinct hsub
    intro x hx
    rw [List.mem_filter]
    refine ⟨?_, ?_⟩
    · intro hmem heq
      exact absurd (congrArg Element.id (hkey x hx heq)) (of_decide_eq_true hmem.2)
    · intro hne
      refine ⟨hx, decide_eq_true (fun heq => hne ?_)⟩
      rw [List.inj_on_of_nodup_map h.ids hx he heq]
  · exact h.ids.sublist (hsub.map _)
  · exact fun x hx => h.ids_lt x (hsub.subset hx)

/-- A transaction of the queue is found under its key. -/
theorem Queue.Holds.find (h : q.Holds bech32 next isOracle txs) {tx : Tx} (htx : tx ∈ txs) :
    ∃ e ∈ q.txs, e.tx = tx ∧ getTxKey bech32 tx = .ok (listKey bech32 e) ∧
      q.txsMap (listKey bech32 e) = some e := by
  rw [← h.txs_eq] at htx
  obtain ⟨e, he, rfl⟩ := List.mem_map.mp htx
  refine ⟨e, he, rfl, h.keyed e he, ?_⟩
  rw [h.mapped]
  exact (newMap_eq_some h.distinct).mpr ⟨he, rfl⟩

end Queues

/-! ## The mempool and the pool -/

/-- Both queues hold the pool, within the limit. -/
structure Consistent (bech32 : Bech32) (maxTx : Int) (mp : FifoMempool) (p : Pool) : Prop where
  regular : mp.regular.Holds bech32 mp.next false p.regular
  oracle : mp.oracle.Holds bech32 mp.next true p.oracle
  limit : mp.maxTx = maxTx
  count_le : (mp.countTx : Int) ≤ maxTx

section Pools

variable {maxTx : Int} {mp : FifoMempool} {p : Pool}

theorem Consistent.queue (h : Consistent bech32 maxTx mp p) (isOracle : Bool) :
    (mp.queue isOracle).Holds bech32 mp.next isOracle (p.queue isOracle) := by
  cases isOracle with
  | false => exact h.regular
  | true => exact h.oracle

theorem Consistent.select_eq (h : Consistent bech32 maxTx mp p) :
    mp.select bech32 = p.oracle ++ p.regular := by
  rw [FifoMempool.select, iterate_oracle h.oracle.distinct, iterate_regular h.regular.distinct,
    h.oracle.txs_eq, h.regular.txs_eq]

theorem Consistent.count_eq (h : Consistent bech32 maxTx mp p) :
    mp.countTx = (mp.select bech32).length := by
  rw [h.select_eq, FifoMempool.countTx, List.length_append, ← h.oracle.txs_eq, ← h.regular.txs_eq,
    List.length_map, List.length_map]
  omega

theorem Consistent.remove (h : Consistent bech32 maxTx mp p) (tx : Tx)
    (htx : tx ∈ p.queue (isOracleTx tx.msgs)) :
    (mp.remove bech32 tx).2 = .ok () ∧ Consistent bech32 maxTx (mp.remove bech32 tx).1
      (p.setQueue (isOracleTx tx.msgs) ((p.queue (isOracleTx tx.msgs)).erase tx)) := by
  obtain ⟨e, he, rfl, hkey, hfind⟩ := (h.queue (isOracleTx tx.msgs)).find htx
  have hholds := (h.queue (isOracleTx e.tx.msgs)).removeElement he
  have hlength : ((mp.queue (isOracleTx e.tx.msgs)).removeElement (listKey bech32 e) e).txs.length ≤
      (mp.queue (isOracleTx e.tx.msgs)).txs.length := List.length_filter_le _ _
  have hcount := h.count_le
  simp only [FifoMempool.remove, hkey, hfind]
  refine ⟨trivial, ?_⟩
  cases hclass : isOracleTx e.tx.msgs with
  | false =>
    rw [hclass] at hholds hlength
    refine ⟨hholds, h.oracle, h.limit, ?_⟩
    show (((mp.regular.removeElement (listKey bech32 e) e).txs.length + mp.oracle.txs.length : Nat) : Int)
      ≤ maxTx
    have hle : (mp.regular.removeElement (listKey bech32 e) e).txs.length ≤ mp.regular.txs.length := hlength
    rw [FifoMempool.countTx] at hcount
    omega
  | true =>
    rw [hclass] at hholds hlength
    refine ⟨h.regular, hholds, h.limit, ?_⟩
    show ((mp.regular.txs.length + (mp.oracle.removeElement (listKey bech32 e) e).txs.length : Nat) : Int)
      ≤ maxTx
    have hle : (mp.oracle.removeElement (listKey bech32 e) e).txs.length ≤ mp.oracle.txs.length := hlength
    rw [FifoMempool.countTx] at hcount
    omega

/-- An insert that uses no key of its queue leads to the pool with the transaction. -/
theorem Consistent.insert (h : Consistent bech32 maxTx mp p) {tx : Tx}
    (hown : OwnKey bech32 p (.insert tx)) (hmax : 0 < maxTx) :
    Consistent bech32 maxTx (mp.insert bech32 tx).1
      (p.record (.insert tx) (mp.insert bech32 tx).2) := by
  have hpos : ¬ mp.maxTx < 0 := by
    rw [h.limit]
    omega
  unfold FifoMempool.insert
  split_ifs with hfull
  · exact h
  · have hroom : (mp.countTx : Int) < maxTx := by
      rw [h.limit] at hfull
      omega
    cases hkey : getTxKey bech32 tx with
    | err e => exact h
    | panic m => exact h
    | ok key =>
      have hholds := (h.queue (isOracleTx tx.msgs)).pushBack hkey rfl hown
      have hlength : ∀ q : Queue, (q.pushBack key ⟨mp.next, tx⟩).txs.length = q.txs.length + 1 :=
        fun q => by rw [Queue.pushBack, List.length_append]; rfl
      rw [FifoMempool.countTx] at hroom
      cases hclass : isOracleTx tx.msgs with
      | false =>
        rw [hclass] at hholds
        simp only [Pool.record, hclass]
        refine ⟨hholds, h.oracle.next_le (Nat.le_succ _), h.limit, ?_⟩
        show (((mp.regular.pushBack key ⟨mp.next, tx⟩).txs.length + mp.oracle.txs.length : Nat) : Int)
          ≤ maxTx
        rw [hlength]
        omega
      | true =>
        rw [hclass] at hholds
        simp only [Pool.record, hclass]
        refine ⟨h.regular.next_le (Nat.le_succ _), hholds, h.limit, ?_⟩
        show ((mp.regular.txs.length + (mp.oracle.pushBack key ⟨mp.next, tx⟩).txs.length : Nat) : Int)
          ≤ maxTx
        rw [hlength]
        omega

/-- What one call keeps. -/
theorem Consistent.step (h : Consistent bech32 maxTx mp p) (hmax : 0 < maxTx) {c : Call}
    (hown : OwnKey bech32 p c) :
    Consistent bech32 maxTx (Mempool.step bech32 (mp, p) c).1 (Mempool.step bech32 (mp, p) c).2 := by
  cases c with
  | insert tx => exact h.insert hown hmax
  | remove tx =>
    by_cases htx : tx ∈ p.queue (isOracleTx tx.msgs)
    · obtain ⟨hok, hnext⟩ := h.remove tx htx
      show Consistent bech32 maxTx (mp.remove bech32 tx).1 (p.record (.remove tx) (mp.remove bech32 tx).2)
      rw [hok]
      exact hnext
    · -- no transaction of the queue has its key
      have hsame : (mp.remove bech32 tx).1 = mp ∧ (mp.remove bech32 tx).2 ≠ .ok () := by
        unfold FifoMempool.remove
        cases hkey : getTxKey bech32 tx with
        | err e => exact ⟨rfl, by simp⟩
        | panic m => exact ⟨rfl, by simp⟩
        | ok key =>
          have hq := h.queue (isOracleTx tx.msgs)
          cases hfind : (mp.queue (isOracleTx tx.msgs)).txsMap key with
          | none => simp [hfind]
          | some e =>
            rw [hq.mapped, newMap_eq_some hq.distinct] at hfind
            have hin : e.tx ∈ p.queue (isOracleTx tx.msgs) :=
              hq.txs_eq ▸ List.mem_map_of_mem hfind.1
            have heq : e.tx = tx := hown e.tx hin (by rw [hq.keyed e hfind.1, hfind.2, hkey])
            exact absurd (heq ▸ hin) htx
      show Consistent bech32 maxTx (mp.remove bech32 tx).1 (p.record (.remove tx) (mp.remove bech32 tx).2)
      rw [hsame.1]
      cases hres : (mp.remove bech32 tx).2 with
      | ok u => exact absurd hres hsame.2
      | err e => exact h
      | panic m => exact h

theorem Consistent.shows (h : Consistent bech32 maxTx mp p) : Shows bech32 maxTx mp p := by
  refine ⟨h.select_eq, h.count_eq, h.count_le, ?_⟩
  intro tx htx
  rw [h.select_eq] at htx ⊢
  -- an oracle transaction is in the first queue only
  have horacle : ∀ tx ∈ p.oracle, isOracleTx tx.msgs = true := by
    intro tx htx
    rw [← h.oracle.txs_eq] at htx
    obtain ⟨e, he, rfl⟩ := List.mem_map.mp htx
    exact h.oracle.kind e he
  have hregular : ∀ tx ∈ p.regular, isOracleTx tx.msgs = false := by
    intro tx htx
    rw [← h.regular.txs_eq] at htx
    obtain ⟨e, he, rfl⟩ := List.mem_map.mp htx
    exact h.regular.kind e he
  cases List.mem_append.mp htx with
  | inl hin =>
    have hclass := horacle tx hin
    obtain ⟨hok, hnext⟩ := h.remove tx (by rw [hclass]; exact hin)
    refine ⟨hok, ?_⟩
    rw [hnext.select_eq, hclass, List.erase_append_left _ hin]
    rfl
  | inr hin =>
    have hclass := hregular tx hin
    have hnot : tx ∉ p.oracle := fun hmem => by
      rw [horacle tx hmem] at hclass
      cases hclass
    obtain ⟨hok, hnext⟩ := h.remove tx (by rw [hclass]; exact hin)
    refine ⟨hok, ?_⟩
    rw [hnext.select_eq, hclass, List.erase_append_right _ hnot]
    rfl

end Pools

theorem consistent_new {maxTx : Int} (hmax : 0 < maxTx) :
    Consistent bech32 maxTx (newFifoMempool maxTx) ⟨[], []⟩ := by
  have hempty : ∀ isOracle, (⟨[], TxMap.empty⟩ : Queue).Holds bech32 0 isOracle [] := fun isOracle =>
    ⟨rfl, by simp, by simp, List.nodup_nil, rfl, List.nodup_nil, by simp⟩
  refine ⟨hempty false, hempty true, rfl, ?_⟩
  show (0 : Int) ≤ maxTx
  omega

/-- After any sequence of calls none of which uses the key of another transaction of its
queue, the mempool shows the pool. -/
theorem fifo_refines_pool {maxTx : Int} (hmax : 0 < maxTx) {calls : List Call}
    (hown : ∀ past c rest, calls = past ++ c :: rest → OwnKey bech32 (play bech32 maxTx past).2 c) :
    Shows bech32 maxTx (play bech32 maxTx calls).1 (play bech32 maxTx calls).2 := by
  apply Consistent.shows
  induction calls using List.reverseRecOn with
  | nil => exact consistent_new hmax
  | append_singleton past c ih =>
    have hpast := ih (fun past' c' rest heq => hown past' c' (rest ++ [c]) (by rw [heq]; simp))
    have hstep : play bech32 maxTx (past ++ [c]) = step bech32 (play bech32 maxTx past) c := by
      rw [play, List.foldl_append]
      rfl
    rw [hstep]
    exact hpast.step hmax (hown past c [] rfl)

namespace Sample

open Sdk.Sample (alice aliceText aliceOperator)

def tx (a : AccAddress) (sequence : Nat) (msgs : List TxMsg) (body : List UInt8) : Tx :=
  ⟨msgs, .ok [⟨some a, sequence⟩], body⟩

/-- Two transactions of one signer with one sequence: the first is not shown as long as the
second is there. -/
theorem same_key_hidden :
    (play Sdk.Sample.bech32 5000
      [.insert (tx alice 7 [.other] [1]), .insert (tx alice 7 [.other] [2])]).2.regular
      = [tx alice 7 [.other] [1], tx alice 7 [.other] [2]] ∧
    (play Sdk.Sample.bech32 5000
      [.insert (tx alice 7 [.other] [1]), .insert (tx alice 7 [.other] [2])]).1.select
      Sdk.Sample.bech32 = [tx alice 7 [.other] [2]] ∧
    (play Sdk.Sample.bech32 5000
      [.insert (tx alice 7 [.other] [1]), .insert (tx alice 7 [.other] [2])]).1.countTx = 2 := by
  decide +kernel

def aliceVote : TxMsg := .oracle .vote aliceText aliceOperator

/-- An oracle and a regular transaction of one signer with one sequence. -/
theorem vote_before_transfer :
    Shows Sdk.Sample.bech32 5000
      (play Sdk.Sample.bech32 5000
        [.insert (tx alice 7 [.other] [1]), .insert (tx alice 7 [aliceVote] [2])]).1
      ⟨[tx alice 7 [aliceVote] [2]], [tx alice 7 [.other] [1]]⟩ := by
  refine fifo_refines_pool (by decide) ?_
  intro past c rest heq
  match past, heq with
  | [], heq =>
    cases heq
    intro tx' htx'
    cases htx'
  | [_], heq =>
    cases heq
    intro tx' htx'
    cases htx'
  | [_, _], heq => cases heq
  | _ :: _ :: _ :: _, heq => cases heq

end Sample

end Mempool
