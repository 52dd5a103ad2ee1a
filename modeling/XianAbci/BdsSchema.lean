import XianAbci.Encoding
import XianAbci.Lib.Tables

/-!
# The tables of the block data service (`services/bds/sql.py`)

The columns, unique keys and references of the index, as the database checks them. A text holds every
character but NUL, and a JSON document no NUL in any string of it and no number but a finite one. The values of
the state carry a generated numeric column, so a value is refused too where its projection is no number for
the database; `casts` is what the database takes for one.
-/

namespace XianAbci

inductive Cell
  | null
  | int (i : Int)
  | bool (b : Bool)
  | text (s : String)
  -- microseconds of the epoch
  | timestamp (micros : Int)
  | numeric (d : ContractingDecimal)
  | json (j : Json)
deriving DecidableEq

def Cell.isNull : Cell → Bool
  | .null => true
  | _ => false

inductive BdsTable
  | bdsMeta
  | blocks
  | transactions
  | addresses
  | stateChanges
  | state
  | events
  | rewards
  | shieldedOutputs
  | shieldedOutputTags
  | contracts
  | statePatches
deriving DecidableEq, Repr

/-! ### Column types -/

def pgText (s : String) : Bool := !s.toList.contains (Char.ofNat 0)

mutual
/-- What `jsonb` takes. -/
def pgJson : Json → Bool
  | .str s => pgText s
  | .float repr => repr ≠ "nan" ∧ repr ≠ "inf" ∧ repr ≠ "-inf"
  | .arr items => pgJsonItems items
  | .obj entries => pgJsonEntries entries
  | _ => true

def pgJsonItems : List Json → Bool
  | [] => true
  | j :: rest => pgJson j && pgJsonItems rest

def pgJsonEntries : List (String × Json) → Bool
  | [] => true
  | (k, j) :: rest => pgText k && pgJson j && pgJsonEntries rest
end

def int4 (i : Int) : Bool := -2 ^ 31 ≤ i ∧ i < 2 ^ 31

def int8 (i : Int) : Bool := -2 ^ 63 ≤ i ∧ i < 2 ^ 63

/-- `[0-9]+`, and the rest. -/
def someDigits (s : List Char) : Option (List Char) :=
  if s.takeWhile Char.isDigit = [] then none else some (s.dropWhile Char.isDigit)

/-- `^-?[0-9]+(\.[0-9]+)?([eE][+-]?[0-9]+)?$`. -/
def isNumberText (s : List Char) : Bool :=
  let unsigned := match s with
    | '-' :: rest => rest
    | s => s
  let fraction : List Char → List Char
    | '.' :: rest => (someDigits rest).getD ('.' :: rest)
    | s => s
  let exponent : List Char → Bool
    | [] => true
    | e :: rest => (e = 'e' ∨ e = 'E') ∧ someDigits (match rest with
        | '+' :: rest => rest
        | '-' :: rest => rest
        | rest => rest) = some []
  match someDigits unsigned with
  | none => false
  | some rest => exponent (fraction rest)

section Projection

variable (casts : String → Bool)

/-- `(column ->> key)::numeric`. -/
def castsJson : Json → Bool
  | .str s => casts s
  | .bool _ => false
  | .arr _ => false
  | .obj _ => false
  | _ => true

/-- `_numeric_projection` raises nothing. -/
def projects : Json → Bool
  | .str s => !isNumberText s.toList || casts s
  | .obj entries => match entries.lookup "__fixed__" with
    | some j => castsJson casts j
    | none => match entries.lookup "__big_int__" with
      | some j => castsJson casts j
      | none => true
  | _ => true

inductive SqlType
  | bigint
  | integer
  | text
  | boolean
  | timestamptz
  | numeric
  | jsonb
  -- `jsonb` with a generated numeric column beside it
  | projected
  -- identities and counts of rows; that 2 ^ 63 of them run out of a `BIGINT` is left out
  | counter

def SqlType.holds : SqlType → Cell → Bool
  | .bigint, .int i => int8 i
  | .integer, .int i => int4 i
  | .text, .text s => pgText s
  | .boolean, .bool _ => true
  | .timestamptz, .timestamp _ => true
  | .numeric, .numeric _ => true
  | .jsonb, .json j => pgJson j
  | .projected, .json j => pgJson j && projects casts j
  | .counter, .int _ => true
  | _, _ => false

/-- A column that may be `NULL`. -/
def nullable (type : SqlType) (cell : Cell) : Bool := cell.isNull || type.holds casts cell

def notNull (type : SqlType) (cell : Cell) : Bool := type.holds casts cell

@[simp] theorem nullable_null (type : SqlType) : nullable casts type .null = true := rfl

@[simp] theorem nullable_int (type : SqlType) (i : Int) :
    nullable casts type (.int i) = type.holds casts (.int i) := rfl

@[simp] theorem nullable_text (type : SqlType) (s : String) :
    nullable casts type (.text s) = type.holds casts (.text s) := rfl

@[simp] theorem nullable_json (type : SqlType) (j : Json) :
    nullable casts type (.json j) = type.holds casts (.json j) := rfl

/-! ### The tables -/

def bdsSchema (t : BdsTable) : TableSchema BdsTable Cell :=
  let nn := notNull casts
  let null := nullable casts
  match t with
  | .bdsMeta => ⟨[nn .text, nn .text, nn .timestamptz], [[0]], []⟩
  -- height, block_hash, block_time, block_time_iso, tx_count, app_hash, created_at
  | .blocks => ⟨[nn .bigint, nn .text, nn .bigint, nn .timestamptz, nn .integer, nn .text, nn .timestamptz],
      [[0], [1]], []⟩
  -- hash, block_height, block_hash, block_time, tx_index, sender, nonce, contract, function, success, status_code,
  -- chi_used, result, payload, envelope, created_at
  | .transactions => ⟨[nn .text, nn .bigint, nn .text, nn .bigint, nn .integer, nn .text, nn .bigint, nn .text,
      nn .text, nn .boolean, nn .integer, nn .bigint, null .jsonb, nn .jsonb, nn .jsonb, nn .timestamptz],
      [[0], [1, 4]], [(1, .blocks, 0)]⟩
  -- address, tx_count, first_block_height, first_seen, last_block_height, last_tx_index, last_seen, last_tx_hash,
  -- last_contract, last_function, updated_at
  | .addresses => ⟨[nn .text, nn .counter, nn .bigint, nn .timestamptz, nn .bigint, nn .integer, nn .timestamptz,
      null .text, nn .text, nn .text, nn .timestamptz], [[0]], [(7, .transactions, 0)]⟩
  -- change_id, block_height, block_hash, block_time, tx_hash, tx_index, write_index, key, new_value,
  -- previous_change_id, previous_tx_hash, origin_type, created_at
  | .stateChanges => ⟨[nn .counter, nn .bigint, nn .text, nn .bigint, null .text, nn .integer, nn .integer, nn .text,
      null .projected, null .counter, null .text, nn .text, nn .timestamptz],
      [[0], [1, 5, 6]], [(1, .blocks, 0), (4, .transactions, 0)]⟩
  -- key, value, last_change_id, last_tx_hash, last_block_height, updated_at
  | .state => ⟨[nn .text, null .projected, nn .counter, null .text, nn .bigint, nn .timestamptz], [[0]], []⟩
  -- id, block_height, tx_hash, tx_index, event_index, contract, event, signer, caller, data_indexed, data, created_at
  | .events => ⟨[nn .counter, nn .bigint, nn .text, nn .integer, nn .integer, nn .text, nn .text, nn .text, nn .text,
      nn .jsonb, nn .jsonb, nn .timestamptz], [[0], [2, 4]], [(1, .blocks, 0), (2, .transactions, 0)]⟩
  -- id, block_height, tx_hash, tx_index, reward_index, type, recipient_key, source_contract, value, created_at
  | .rewards => ⟨[nn .counter, nn .bigint, null .text, nn .integer, nn .integer, nn .text, null .text, null .text,
      nn .numeric, nn .timestamptz], [[0], [1, 3, 4]], [(1, .blocks, 0), (2, .transactions, 0)]⟩
  -- id, block_height, tx_hash, tx_index, contract, function, action, output_index, note_index, commitment, new_root,
  -- payload_hash, created_at
  | .shieldedOutputs => ⟨[nn .counter, nn .bigint, nn .text, nn .integer, nn .text, nn .text, nn .text, nn .integer,
      null .integer, nn .text, nn .text, nn .text, nn .timestamptz],
      [[0], [2, 7]], [(1, .blocks, 0), (2, .transactions, 0)]⟩
  -- the same columns up to payload_hash, tag_kind, tag_value, created_at
  | .shieldedOutputTags => ⟨[nn .counter, nn .bigint, nn .text, nn .integer, nn .text, nn .text, nn .text,
      nn .integer, null .integer, nn .text, nn .text, nn .text, nn .text, nn .text, nn .timestamptz],
      [[0], [2, 7, 12, 13]], [(1, .blocks, 0), (2, .transactions, 0)]⟩
  -- name, last_tx_hash, submitted_at_block, submitted_at, source, xsc001
  | .contracts => ⟨[nn .text, nn .text, nn .bigint, nn .timestamptz, nn .text, nn .boolean],
      [[0]], [(1, .transactions, 0), (2, .blocks, 0)]⟩
  -- hash, block_height, block_hash, block_time, patch_count, patches, created_at
  | .statePatches => ⟨[nn .text, nn .bigint, nn .text, nn .bigint, nn .integer, nn .jsonb, nn .timestamptz],
      [[0]], [(1, .blocks, 0)]⟩

end Projection

end XianAbci
