import XianAbci.Driver

/-!
# The latest-block marker (`utils/block.py`)

The height, app hash and time of the last committed block are kept under `__latest_block`, written in
the same storage transaction as the block's state. The JSON file beside the store only mirrors the
marker and is not modelled.
-/

namespace XianAbci

def latestBlockKey : String := "__latest_block"

/-- A normalised marker. -/
structure LatestBlock where
  hash : String
  height : Int
  nanos : Int
deriving DecidableEq, Repr

namespace LatestBlock

def default : LatestBlock := ⟨"", 0, 0⟩

def value (b : LatestBlock) : Value :=
  .dict [("hash", .str b.hash), ("height", .int b.height), ("nanos", .int b.nanos)]

theorem value_injective : Function.Injective value := by
  rintro ⟨h, n, t⟩ ⟨h', n', t'⟩ heq
  simp only [value, Value.dict.injEq, List.cons.injEq, Prod.mk.injEq, Value.str.injEq, Value.int.injEq,
    true_and, and_true] at heq
  obtain ⟨rfl, rfl, rfl⟩ := heq
  rfl

theorem value_ne_none (b : LatestBlock) : b.value ≠ .none := fun h => by cases h

end LatestBlock

section Marker

variable (B : Builtins)

/-- `value or default`. -/
def orDefault (value default : Value) : Value := if B.truthy value then value else default

def normalizeLatestBlock (latestBlock : Value) : Except PyErr LatestBlock := do
  let hash := B.format (orDefault B (← latestBlock.get "hash" (.str "")) (.str ""))
  let height ← B.toInt (orDefault B (← latestBlock.get "height" (.int 0)) (.int 0))
  let nanos ← B.toInt (orDefault B (← latestBlock.get "nanos" (.int 0)) (.int 0))
  return ⟨hash, height, nanos⟩

def loadCommittedLatestBlock (durable : PyDict String Value) : Except PyErr (Option LatestBlock) :=
  match durable.get? latestBlockKey with
  | none | some .none => .ok none
  | some (.dict entries) => do
    let normalized ← normalizeLatestBlock B (.dict entries)
    match bytesFromHex normalized.hash with
    | .ok _ => return some normalized
    | .error _ => throw (.valueError "committed latest-block marker has an invalid app hash")
  | some _ => .error (.valueError "committed latest-block marker must be a mapping")

def getCommittedLatestBlock (durable : PyDict String Value) : Except PyErr LatestBlock :=
  (loadCommittedLatestBlock B durable).map fun committed => committed.getD .default

variable {D : Type} [Driver D]

def stageLatestBlock (driver : D) (blockHash : Bytes) (height nanos : Int) : Except PyErr (LatestBlock × D) := do
  let latestBlock ← normalizeLatestBlock B
    (.dict [("hash", .str (bytesHex blockHash)), ("height", .int height), ("nanos", .int nanos)])
  return (latestBlock, Driver.applyWrites driver (.ofList [(latestBlockKey, latestBlock.value)]))

variable {B}

/-- Normalising a marker gives it back. -/
@[simp] theorem normalizeLatestBlock_value (b : LatestBlock) : normalizeLatestBlock B b.value = .ok b := by
  have hash : B.format (orDefault B (.str b.hash) (.str "")) = b.hash := by
    by_cases h : b.hash = "" <;> simp [orDefault, B.truthy_str, B.format_str, h]
  have int : ∀ i : Int, B.toInt (orDefault B (.int i) (.int 0)) = .ok i := fun i => by
    by_cases h : i = 0 <;> simp [orDefault, B.truthy_int, B.toInt_int, h]
  simp only [normalizeLatestBlock, LatestBlock.value, Value.get, List.lookup_cons, bind, Except.bind,
    Option.getD_some, show ("height" == "hash") = false from rfl, show ("nanos" == "hash") = false from rfl,
    show ("nanos" == "height") = false from rfl, beq_self_eq_true, hash, int]
  rfl

@[simp] theorem stageLatestBlock_eq (driver : D) (blockHash : Bytes) (height nanos : Int) :
    stageLatestBlock B driver blockHash height nanos =
      .ok (⟨bytesHex blockHash, height, nanos⟩, Driver.applyWrites driver
        (.ofList [(latestBlockKey, (LatestBlock.mk (bytesHex blockHash) height nanos).value)])) := by
  unfold stageLatestBlock
  rw [show (Value.dict [("hash", .str (bytesHex blockHash)), ("height", .int height), ("nanos", .int nanos)]) =
    (LatestBlock.mk (bytesHex blockHash) height nanos).value from rfl, normalizeLatestBlock_value]
  rfl

/-- A stored marker whose hash is hexadecimal text is read back. -/
theorem getCommittedLatestBlock_value {durable : PyDict String Value} {blockHash : Bytes} {height nanos : Int}
    (h : durable.get? latestBlockKey = some (LatestBlock.mk (bytesHex blockHash) height nanos).value) :
    getCommittedLatestBlock B durable = .ok ⟨bytesHex blockHash, height, nanos⟩ := by
  have hn := normalizeLatestBlock_value (B := B) ⟨bytesHex blockHash, height, nanos⟩
  rw [LatestBlock.value] at hn h
  rw [getCommittedLatestBlock, loadCommittedLatestBlock, h]
  dsimp only
  rw [hn]
  simp only [bind, Except.bind, bytesFromHex_bytesHex]
  rfl

end Marker

end XianAbci
