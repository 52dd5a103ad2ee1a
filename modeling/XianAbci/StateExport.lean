import XianAbci.Block
import XianAbci.StateRoot

/-!
# Importing an exported state (`state_export.py`, `state_root.py`)

`import_state` checks an exported document against the root it advertises, empties the store, and
writes the document's entries and a latest-block marker in one commit. The root covers the consensus
keys that hold a value; the writes take every entry of the document.
-/

namespace XianAbci

open StateRootCache (toItems)

/-- A value in a key's place. -/
def Key.ofValue : Value → Key
  | .str s => .str s
  | _ => .other "object"

/-- The items whose key is a string. -/
def stringKeys (items : List (Key × Value)) : List (String × Value) :=
  items.filterMap fun p => match p.1 with
    | .str s => some (s, p.2)
    | .other _ => none

structure ImportResult where
  height : Int
  appHash : String
  nanos : Int
  keysImported : Nat

section Import

variable (B : Builtins)

def exportedStateItems (exportedState : Value) : Except PyErr (List (Key × Value)) := do
  let entries ← (← exportedState.get "genesis" (.list [])).iter
  let genesis ← entries.mapM fun entry => do
    return (Key.ofValue (← entry.index "key"), ← entry.index "value")
  let nonces ← (← exportedState.get "nonces" (.list [])).iter
  let nonceItems ← nonces.mapM fun nonce => do
    let key := Key.str ("__n" ++ indexSeparator ++ B.format (← nonce.index "key"))
    return (key, ← nonce.index "value")
  return genesis ++ nonceItems

def computeExportedStateRoot (exportedState : Value) : Except PyErr Bytes := do
  merkleRootFromItems (← exportedStateItems B exportedState)

/-- `bytes.fromhex(v)`. -/
def bytesFromHexValue : Value → Except PyErr Bytes
  | .str s => bytesFromHex s
  | _ => .error (.typeError "fromhex() argument must be str")

/-- What `import_state` checks before it touches the store: the root it will accept. -/
def verifyExportedState (exportedState : Value) (durable : PyDict String Value) : Except PyErr Bytes := do
  validateGenesisExecutionPolicy exportedState
  let _ ← validatePersistedExecutionPolicy durable
  let stateRoot ← computeExportedStateRoot B exportedState
  let advertisedHash ← bytesFromHexValue (← exportedState.get "hash" (.str ""))
  require (advertisedHash = stateRoot) (.valueError "exported state root mismatch")
  return stateRoot

/-- The write set, the height and the time of the document. The two loops that fill the write set
evaluate what `exportedStateItems` evaluated; every key is a string, as the root was computed. -/
def importedWrites (exportedState : Value) : Except PyErr (PyDict String Value × Int × Int) := do
  let items ← exportedStateItems B exportedState
  let height ← B.toInt (← exportedState.get "number" (.int 0))
  let nanos ← B.toInt (← exportedState.get "nanos" (.int 0))
  return (.ofList (stringKeys items), height, nanos)

variable {D : Type} [Driver D]

/-- `import_state`, with the exception the storage transaction raises, if it does. The second
component is the storage afterwards. -/
def importState (exportedState : Value) (commitError : Option PyErr) (storage : D) :
    Except PyErr ImportResult × D :=
  match verifyExportedState B exportedState (Driver.durable storage) with
  | .error e => (.error e, storage)
  | .ok stateRoot =>
    let driver := Driver.flushFull (Driver.fresh storage)
    match importedWrites B exportedState with
    | .error e => (.error e, driver)
    | .ok (writes, height, nanos) =>
      match stageLatestBlock B driver stateRoot height nanos with
      | .error e => (.error e, driver)
      | .ok (_, staged) =>
        let staged := Driver.applyWrites staged writes
        match commitError with
        | some e => (.error e, staged)
        | none =>
          let committed := Driver.commit staged
          match computeDriverStateRoot (Driver.durable committed) with
          | .error e => (.error e, committed)
          | .ok root =>
            if root ≠ stateRoot then (.error (.valueError "imported state root mismatch"), committed)
            else (.ok ⟨height, bytesHex stateRoot, nanos, writes.items.length⟩, committed)

end Import

/-! ### What the store holds after an import -/

theorem lookup_stringKeys (items : List (Key × Value)) (k : String) :
    (stringKeys items).lookup k = items.lookup (.str k) := by
  induction items with
  | nil => rfl
  | cons p rest ih =>
    obtain ⟨key, v⟩ := p
    rw [PyDict.lookup_cons_ite]
    cases key with
    | other t => rw [if_neg (by simp)]; exact ih
    | str s =>
      rw [show stringKeys ((Key.str s, v) :: rest) = (s, v) :: stringKeys rest from rfl,
        PyDict.lookup_cons_ite, ih]
      simp only [Key.str.injEq]

theorem get?_ofList_stringKeys (items : List (Key × Value)) (k : String) :
    (PyDict.ofList (stringKeys items)).get? k = items.reverse.lookup (.str k) := by
  rw [PyDict.get?_ofList, ← lookup_stringKeys, stringKeys, stringKeys, List.filterMap_reverse]

/-- The pending write a key has when the import commits: the last entry of the document under it, and
under the marker's key, where the document has none, the marker. -/
def importPending (items : List (Key × Value)) (marker : LatestBlock) (k : String) : Option Value :=
  (items.reverse.lookup (.str k)).or (if k = latestBlockKey then some marker.value else none)

section Spec

variable {B : Builtins} {D : Type} [Driver D] {doc : Value} {commitError : Option PyErr} {storage driver : D}

/-- The document a successful import read. -/
structure Imported (B : Builtins) (doc : Value) (r : ImportResult) (root : Bytes)
    (items : List (Key × Value)) : Prop where
  items_eq : exportedStateItems B doc = .ok items
  root_eq : merkleRootFromItems items = .ok root
  appHash : r.appHash = bytesHex root
  number : (doc.get "number" (.int 0) >>= B.toInt) = .ok r.height
  nanos : (doc.get "nanos" (.int 0) >>= B.toInt) = .ok r.nanos

theorem verifyExportedState_ok {durable : PyDict String Value} {root : Bytes}
    (h : verifyExportedState B doc durable = .ok root) :
    ∃ items, exportedStateItems B doc = .ok items ∧ merkleRootFromItems items = .ok root := by
  simp only [verifyExportedState, bind_eq_ok, require_eq_ok] at h
  obtain ⟨-, -, -, -, root', hroot, -, -, adv, -, -, -, h⟩ := h
  cases h
  simpa only [computeExportedStateRoot, bind_eq_ok] using hroot

theorem importedWrites_ok {writes : PyDict String Value} {height nanos : Int}
    (h : importedWrites B doc = .ok (writes, height, nanos)) :
    ∃ items, exportedStateItems B doc = .ok items ∧ writes = .ofList (stringKeys items) ∧
      (doc.get "number" (.int 0) >>= B.toInt) = .ok height ∧
      (doc.get "nanos" (.int 0) >>= B.toInt) = .ok nanos := by
  simp only [importedWrites, bind_eq_ok] at h
  obtain ⟨items, hitems, n, hn, i, hi, t, ht, j, hj, h⟩ := h
  cases h
  exact ⟨items, hitems, rfl, bind_eq_ok.2 ⟨n, hn, hi⟩, bind_eq_ok.2 ⟨t, ht, hj⟩⟩

theorem pending_import (driver : D) (items : List (Key × Value)) (marker : LatestBlock) (k : String) :
    ((Driver.pending (Driver.applyWrites (Driver.applyWrites (Driver.flushFull driver)
      (.ofList [(latestBlockKey, marker.value)])) (.ofList (stringKeys items)))).get? k) =
      importPending items marker k := by
  rw [Driver.pending_applyWrites, Driver.pending_applyWrites, Driver.pending_flushFull,
    PyDict.get?_update_items, PyDict.get?_update_items, get?_ofList_stringKeys, PyDict.get?_ofList,
    importPending, List.reverse_singleton, PyDict.lookup_cons_ite, List.lookup_nil, PyDict.get?_empty,
    Option.or_none]

/-- A successful import: the document is read, and each key holds what the write set leaves. -/
theorem importState_ok {r : ImportResult} (h : importState B doc commitError storage = (.ok r, driver)) :
    ∃ root items, Imported B doc r root items ∧
      (∀ k, (Driver.durable driver).get? k = committedValue (Driver.stored D) none
        (importPending items ⟨bytesHex root, r.height, r.nanos⟩ k)) ∧
      computeDriverStateRoot (Driver.durable driver) = .ok root := by
  unfold importState at h
  split at h
  · cases h
  rename_i root hroot
  dsimp only at h
  split at h
  · cases h
  rename_i writes height nanos hwrites
  rw [stageLatestBlock_eq] at h
  dsimp only at h
  split at h
  · cases h
  split at h
  · cases h
  rename_i root' hroot'
  split at h
  · cases h
  rename_i heq
  rw [not_not] at heq
  subst heq
  obtain ⟨rfl, rfl⟩ := Prod.mk.inj h |>.imp (fun h => Except.ok.inj h) id
  obtain ⟨items, hitems, hroot⟩ := verifyExportedState_ok hroot
  obtain ⟨items', hitems', rfl, hnum, hnan⟩ := importedWrites_ok hwrites
  rw [hitems] at hitems'
  cases hitems'
  refine ⟨root', items, ⟨hitems, hroot, rfl, hnum, hnan⟩, fun k => ?_, hroot'⟩
  rw [Driver.get?_durable_commit, pending_import]
  simp

end Spec

end XianAbci
