import XianAbci.Lib.Base64
import XianAbci.Lib.Binary64
import XianAbci.Lib.Civil
import XianAbci.SpoolFormat
import XianAbci.TransactionBytes

/-!
# Rebuilding a block of the index (`services/bds/reindex.py`)

A block that the node did not index when it finalized it is built again from what CometBFT reports: the block, its
results, and the state patches of its height. The results were written as ABCI JSON, the time is a text, and the app
hash of a header is the one of the block before.
-/

namespace XianAbci

/-! ### Times -/

/-- `%Y-%m-%dT%H:%M:%S` of seconds of the epoch. -/
def dateTimeText (seconds : Int) : List Char :=
  let date := Civil.ofDays (seconds / 86400)
  let time := seconds % 86400
  digitsFixed 4 date.year.toNat ++ '-' :: (digitsFixed 2 date.month.toNat ++ '-' :: (digitsFixed 2 date.day.toNat ++
    'T' :: (digitsFixed 2 (time / 3600).toNat ++ ':' :: (digitsFixed 2 (time / 60 % 60).toNat ++
    ':' :: digitsFixed 2 (time % 60).toNat))))

/-- `datetime` reads the texts of UTC times with six digits of a second or none, and the decoder goes through a dict
without a type tag key by key. -/
structure RpcRuntime extends SpoolRuntime where
  fromisoformat_seconds : ∀ seconds, isDatetime (seconds * 1000000) →
    fromisoformat (String.ofList (dateTimeText seconds ++ "+00:00".toList)) = .ok (seconds * 1000000)
  fromisoformat_micros : ∀ seconds micros : Int, 0 ≤ micros → micros < 1000000 →
    isDatetime (seconds * 1000000 + micros) →
    fromisoformat (String.ofList (dateTimeText seconds ++ '.' :: (digitsFixed 6 micros.toNat ++ "+00:00".toList))) =
      .ok (seconds * 1000000 + micros)
  convertDict_int : ∀ i, convertDict (.int i) = .ok (.int i)
  convertDict_str : ∀ s, convertDict (.str s) = .ok (.str s)
  convertDict_dict : ∀ entries : List (String × Value), (∀ p ∈ entries, reserved p.1 = false) →
    convertDict (.dict entries) =
      (entries.mapM fun (p : String × Value) => do return (p.1, ← convertDict p.2)).map .dict

/-- The fraction of a second and the offset behind the point. -/
def splitOffset (tail : List Char) : List Char × List Char :=
  if '+' ∈ tail then (tail.takeWhile (· ≠ '+'), tail.dropWhile (· ≠ '+'))
  else if '-' ∈ tail then (tail.takeWhile (· ≠ '-'), tail.dropWhile (· ≠ '-'))
  else (tail, [])

/-- `fraction[:6].ljust(6, "0")`. -/
def sixDigits (fraction : List Char) : List Char :=
  fraction.take 6 ++ List.replicate (6 - (fraction.take 6).length) '0'

/-- `parse_rfc3339_nano`, in microseconds of the epoch. -/
def parseRfc3339Nano (R : RpcRuntime) (value : String) : Except PyErr Int :=
  let text := if value.toList.getLast? = some 'Z' then value.toList.dropLast ++ "+00:00".toList else value.toList
  if '.' ∈ text then
    let split := splitOffset (text.dropWhile (· ≠ '.')).tail
    R.fromisoformat (String.ofList (text.takeWhile (· ≠ '.') ++ '.' :: (sixDigits split.1 ++ split.2)))
  else R.fromisoformat (String.ofList text)

/-- `int(x)` of a float. -/
def truncate (q : ℚ) : Int := if 0 ≤ q then ⌊q⌋ else ⌈q⌉

/-- `datetime_to_nanos` of microseconds of the epoch; `timestamp()` is their quotient rounded to a float. -/
def datetimeToNanos (micros : Int) : Int :=
  truncate (Binary64.nearest (micros / 1000000)) * 1000000000 + micros % 1000000 * 1000

/-! ### Sources -/

/-- An `RpcBlockSource`. -/
structure BlockSource where
  executionPolicy : Except PyErr Value
  block : Int → Except PyErr Value
  blockResults : Int → Except PyErr Value

/-- `_validate_source_policies`; asking again gives the same policies. -/
def validateSourcePolicies (source : BlockSource) (trusted : Option BlockSource) : Except PyErr Unit := do
  validateExecutionPolicy (← source.executionPolicy)
  match trusted with
  | none => return ()
  | some trusted => validateExecutionPolicy (← trusted.executionPolicy)

section Build

variable (R : RpcRuntime) (B : Builtins)

/-- `str(v).upper()` of a hash. -/
def upperText (v : Value) : String := upperHex (B.format v)

/-- What `what` names in two blocks is the same, in upper case. -/
def verifyHash (what : String) (height : Int) (source trusted : Value) : Except PyErr Unit :=
  require (upperText B source = upperText B trusted) (.valueError ("block " ++ toString height ++ " " ++ what ++
    " mismatch: source=" ++ upperText B source ++ " trusted=" ++ upperText B trusted))

def blockHashOf (blockResponse : Value) : Except PyErr Value := do (← blockResponse.index "block_id").index "hash"

def headerOf (blockResponse : Value) : Except PyErr Value := do (← blockResponse.index "block").index "header"

/-- `_verify_block_against_trusted_source`. -/
def verifyBlockAgainstTrustedSource (trusted : Option BlockSource) (height : Int) (blockResponse : Value) :
    Except PyErr Unit :=
  match trusted with
  | none => return ()
  | some trusted => do
    let trustedBlock ← trusted.block height
    verifyHash B "hash" height (← blockHashOf blockResponse) (← blockHashOf trustedBlock)
    verifyHash B "app hash" height (← (← headerOf blockResponse).index "app_hash")
      (← (← headerOf trustedBlock).index "app_hash")

/-- The items of `v or []`. -/
def itemsOrEmpty (v : Value) : Except PyErr (List Value) := if B.truthy v then v.iter else return []

/-- `_extract_block_txs`. -/
def extractBlockTxs (block : Value) : Except PyErr (List Value) := do
  match ← block.get "data" (.dict []) with
  | .dict entries => itemsOrEmpty B ((entries.lookup "txs").getD .none)
  | .list items => return items
  | _ => return []

/-- `binascii.a2b_base64`. -/
def a2bBase64 (s : List Char) : Except PyErr Bytes :=
  match Base64.decode s with
  | .ok bytes => .ok bytes
  | .error .padding => .error (.valueError "Incorrect padding")
  | .error .dataCharacters =>
    .error (.valueError "number of data characters cannot be 1 more than a multiple of 4")

/-- `base64.b64decode`. -/
def b64decode : Value → Except PyErr Bytes
  | .str s =>
    if s.toList.all (·.toNat < 128) then a2bBase64 s.toList
    else .error (.valueError "string argument should contain only ASCII characters")
  | .bytes b => a2bBase64 (b.map fun x => Char.ofNat x.toNat)
  | _ => .error (.typeError "argument should be a bytes-like object or ASCII string")

/-- A dict's entries. -/
def dictEntries : Value → Option (List (String × Value))
  | .dict entries => some entries
  | _ => none

/-- `_decode_tx_result_data`: a dict, or nothing. -/
def decodeTxResultData (data : Value) : Except PyErr (Option (List (String × Value))) := do
  if B.truthy data then
    let text ← decodeUtf8 (← b64decode data)
    return dictEntries (← R.convertDict (jsonValue (← loads text.toList)))
  else return none

/-- `_is_indexable_tx_result`. -/
def isIndexableTxResult (txResult : List (String × Value)) : Bool :=
  ["status", "state", "chi_used"].all fun key => (txResult.lookup key).isSome

/-- `d.setdefault(k, v)`. -/
def setDefault (key : String) (v : Value) (entries : List (String × Value)) : List (String × Value) :=
  if (entries.lookup key).isSome then entries else entries ++ [(key, v)]

/-- The result of an indexable transaction, with CometBFT's hash. -/
def rebuiltResult (txHash : String) (decoded : List (String × Value)) (rpcResult : Value) : Except PyErr Value := do
  let txResult := PyDict.setItems "hash" (.str txHash) decoded
  let status ← B.toInt ((txResult.lookup "status").getD (← rpcResult.index "code"))
  let txResult := PyDict.setItems "status" (.int status) txResult
  let chiUsed ← B.toInt ((txResult.lookup "chi_used").getD (← rpcResult.get "gas_used" (.int 0)))
  let txResult := PyDict.setItems "chi_used" (.int chiUsed) txResult
  return .dict (setDefault "rewards" (.dict []) (setDefault "events" (.list [])
    (setDefault "state" (.list []) txResult)))

/-- What becomes of a decoded result. -/
def indexableTransaction (txIndex : Nat) (rawTx : Bytes) (envelope rpcResult : Value) :
    Option (List (String × Value)) → Except PyErr (Option SpoolTransaction)
  | none => return none
  | some decoded =>
    if isIndexableTxResult decoded then do
      let txResult ← rebuiltResult B (upperHex (sha256Hex rawTx)) decoded rpcResult
      return some ⟨.int txIndex, envelope, ← envelope.index "payload", txResult⟩
    else return none

/-- `_build_transaction_payload`. -/
def buildTransactionPayload (txB64 : Value) (txIndex : Nat) (rpcResult : Value) :
    Except PyErr (Option SpoolTransaction) := do
  let rawTx ← b64decode txB64
  let tx ← decodeTransactionBytes rawTx
  let decoded ← decodeTxResultData R B (← rpcResult.get "data" .none)
  indexableTransaction B txIndex rawTx (jsonValue tx.1) rpcResult decoded

/-- The loop over the transactions of a block and their results, from an index on. -/
def buildTransactions (i : Nat) (txs txResults : List Value) : Except PyErr (List (Option SpoolTransaction)) :=
  ((txs.zip txResults).zipIdx i).mapM fun tx => buildTransactionPayload R B tx.1.1 tx.2 tx.1.2

/-- The time of a header, which is a text. -/
def headerTime : Value → Except PyErr Int
  | .str time => parseRfc3339Nano R time
  | _ => .error (.attributeError "object has no attribute 'endswith'")

/-- `build_payload`, where `patches` is `build_applied_patches_for_block`. -/
def buildPayload (source : BlockSource) (trusted : Option BlockSource)
    (patches : Int → Except PyErr (Option String × List Value)) (height : Int) : Except PyErr SpoolPayload := do
  validateSourcePolicies source trusted
  let blockResponse ← source.block height
  verifyBlockAgainstTrustedSource B trusted height blockResponse
  let blockResults ← source.blockResults height
  let block ← blockResponse.index "block"
  let header ← block.index "header"
  let blockTime ← headerTime R (← header.index "time")
  let txs ← extractBlockTxs B block
  let txResults ← itemsOrEmpty B (← blockResults.get "txs_results" .none)
  require (txs.length = txResults.length) (.valueError ("block " ++ toString height ++ " tx/result count mismatch: " ++
    toString txs.length ++ " txs vs " ++ toString txResults.length ++ " results"))
  let transactions ← buildTransactions R B 0 txs txResults
  let found ← patches height
  return {
    executionPolicy := .dict currentExecutionPolicy
    blockMeta := .dict [("height", .int (← B.toInt (← header.index "height"))),
      ("hash", .str (upperText B (← blockHashOf blockResponse))), ("nanos", .int (datetimeToNanos blockTime))]
    blockTime
    appHash := .str (upperText B (← header.index "app_hash"))
    transactions := transactions.reduceOption
    statePatches := .list found.2
    statePatchHash := found.1.elim .none .str }

end Build

/-! ### The time of a header -/

section Times

variable {R : RpcRuntime}

end Times

end XianAbci
