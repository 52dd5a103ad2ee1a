import XianAbci.Lib.PyDict
import XianAbci.Lib.Treap
import XianAbci.Encoding
import XianAbci.ExecutionPolicy

/-!
# The state root (`state_root.py`)

`StateRootCache` keeps the Merkle root of the consensus state: a treap over the leaf digests, the
digests by key, and the digests the staged write set replaced. The tree is edited in place; here the
edits return the new tree.
-/

namespace XianAbci

/-- A dictionary key as the code receives it: a string, or some other object. -/
inductive Key
  | str (s : String)
  | other (typeName : String)
deriving DecidableEq, Repr

/-- `s.startswith(p)`. -/
def startsWith (s p : String) : Bool := p.toList.isPrefixOf s.toList

def indexSeparator : String := "."
def delimiter : String := ":"

def stateRootVersion : String := "xian-state-root-v2"
def emptyStateRoot : Bytes := sha256 (encodeStr (stateRootVersion ++ ":empty"))
def leafPrefix : Bytes := encodeStr (stateRootVersion ++ ":leaf:")
def nodePrefix : Bytes := encodeStr (stateRootVersion ++ ":node:")
def priorityPrefix : Bytes := encodeStr (stateRootVersion ++ ":priority:")

def isConsensusStateKey (key : String) : Bool :=
  key == executionPolicyKey || !startsWith key "__" || startsWith key ("__n" ++ indexSeparator)

def lengthPrefixed (payload : Bytes) : Bytes := toBytesBig 8 payload.length ++ payload

def hashPriority (key : String) : Nat := fromBytesBig (sha256 (priorityPrefix ++ encodeStr key))

def hashLeaf (key : String) (value : Value) : Except PyErr Bytes := do
  let valueBytes ← encodeAbciJson value
  return sha256 (leafPrefix ++ lengthPrefixed (encodeStr key) ++ lengthPrefixed valueBytes)

def hashNode (left leafHash right : Bytes) : Bytes := sha256 (nodePrefix ++ left ++ leafHash ++ right)

/-- `_TreapNode | None`, hashed with SHA-256. -/
abbrev TreapNode := Treap String Nat Bytes

def treapHashing : Treap.Hashing String Nat Bytes where
  empty := emptyStateRoot
  hashNode := hashNode
  priority := hashPriority

structure StateRootCache where
  root : TreapNode
  leafHashes : PyDict String Bytes
  stagedOldLeafHashes : PyDict String (Option Bytes)

namespace StateRootCache

def rootHash (c : StateRootCache) : Bytes := Treap.subtreeHash treapHashing c.root

def setLeafHash (c : StateRootCache) (key : String) : Option Bytes → StateRootCache
  | none =>
    { c with leafHashes := c.leafHashes.erase key, root := Treap.delete treapHashing key c.root }
  | some leafHash =>
    { c with
      leafHashes := c.leafHashes.set key leafHash
      root := Treap.insertOrUpdate treapHashing key leafHash c.root }

def commit (c : StateRootCache) : StateRootCache := { c with stagedOldLeafHashes := .empty }

def restoreLeaves (c : StateRootCache) (staged : List (String × Option Bytes)) : StateRootCache :=
  staged.foldl (fun c p => c.setLeafHash p.1 p.2) c

/-- `rollback`; the early return on an empty staged set is the empty fold. -/
def rollback (c : StateRootCache) : StateRootCache :=
  { c.restoreLeaves c.stagedOldLeafHashes.items.reverse with stagedOldLeafHashes := .empty }

/-- The loop of `rebuild`. A raising item leaves the items before it in the cache. -/
def rebuildItems : List (Key × Value) → StateRootCache → Except PyErr Unit × StateRootCache
  | [], c => (.ok (), c)
  | (.other _, _) :: _, c => (.error (.typeError "state root keys must be strings"), c)
  | (.str key, value) :: rest, c =>
    if value = .none ∨ ¬ isConsensusStateKey key then rebuildItems rest c
    else if c.leafHashes.contains key then
      (.error (.valueError ("duplicate consensus state key: " ++ key)), c)
    else match hashLeaf key value with
      | .error e => (.error e, c)
      | .ok leafHash => rebuildItems rest (c.setLeafHash key (some leafHash))

def rebuild (c : StateRootCache) (items : List (Key × Value)) : Except PyErr Bytes × StateRootCache :=
  match rebuildItems items { c.rollback with root := .nil, leafHashes := .empty } with
  | (.ok _, c') => (.ok c'.rootHash, c')
  | (.error e, c') => (.error e, c')

/-- `None if value is None else _hash_leaf(key, value)`. -/
def newLeafHash (key : String) (value : Value) : Except PyErr (Option Bytes) :=
  if value = .none then .ok none else (hashLeaf key value).map some

/-- The loop of `prepare`. A raising write leaves the writes before it staged. -/
def prepareWrites : List (Key × Value) → StateRootCache → Except PyErr Unit × StateRootCache
  | [], c => (.ok (), c)
  | (.other _, _) :: _, c => (.error (.typeError "state root keys must be strings"), c)
  | (.str key, value) :: rest, c =>
    if ¬ isConsensusStateKey key then prepareWrites rest c
    else match newLeafHash key value with
      | .error e => (.error e, c)
      | .ok newHash =>
        let oldHash := c.leafHashes.get? key
        if oldHash = newHash then prepareWrites rest c
        else
          let staged := { c with stagedOldLeafHashes := c.stagedOldLeafHashes.set key oldHash }
          prepareWrites rest (staged.setLeafHash key newHash)

def prepare (c : StateRootCache) (writes : PyDict Key Value) : Except PyErr Bytes × StateRootCache :=
  match prepareWrites writes.items c.rollback with
  | (.ok _, c') => (.ok c'.rootHash, c')
  | (.error e, c') => (.error e, c')

/-- `StateRootCache(items)`. -/
def new (items : List (Key × Value)) : Except PyErr StateRootCache :=
  match rebuild ⟨.nil, .empty, .empty⟩ items with
  | (.ok _, c) => .ok c
  | (.error e, _) => .error e

/-- The bindings of a map as items, in the map's order. -/
def toItems (m : PyDict String Value) : List (Key × Value) := m.items.map fun p => (.str p.1, p.2)

end StateRootCache

def merkleRootFromItems (items : List (Key × Value)) : Except PyErr Bytes :=
  (StateRootCache.new items).map StateRootCache.rootHash

/-- `compute_driver_state_root` of a driver with nothing pending. -/
def computeDriverStateRoot (durable : PyDict String Value) : Except PyErr Bytes :=
  merkleRootFromItems (StateRootCache.toItems durable)

end XianAbci
