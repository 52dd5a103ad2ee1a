import XianAbci.BdsIndexable
import XianAbci.Codec
import XianAbci.EffectEncoding
import XianAbci.ExecutionPolicy
import XianAbci.ValueBinding

/-!
# The spool files (`services/bds/payloads.py`)

A finalized block waits for the indexer in a file. Its metadata, its results and its state patches are written by
the runtime's codec, the transactions are parsed again from their own JSON, and the time is a text; of what is read
back, only the results and the patches are decoded. The codec takes no dict that has one of its type tags among the
keys, and a result holds the rewards by account: a block comes back from the spool as it was exactly when no account
it rewards is named like a tag (`spool_round_trip_iff`).
-/

namespace XianAbci

/-- The microseconds of the epoch in the years of `datetime`. -/
def isDatetime (t : Int) : Prop := -62135596800000000 ≤ t ∧ t < 253402300800000000

/-- The decoder and `datetime` beside what the indexer uses of the codec. A persistent value is encoded to a document
that decodes to it; a dict is encoded key by key, and not where a key is a type tag. -/
structure SpoolRuntime extends BdsRuntime where
  -- `convert_dict`
  convertDict : Value → Except PyErr Value
  -- `block_time.astimezone(UTC).isoformat()`, of microseconds of the epoch
  isoformat : Int → String
  fromisoformat : String → Except PyErr Int
  -- the type tags
  reserved : String → Bool
  persistent : Value → Prop
  fromisoformat_isoformat : ∀ t, isDatetime t → fromisoformat (isoformat t) = .ok t
  reserved_begins : ∀ k, reserved k = true → "__".toList <+: k.toList
  inverse : ∀ v, persistent v →
    ∃ j, canonicalJson v = .ok j ∧ j.readable = true ∧ convertDict (jsonValue j) = .ok v
  encode_bool : ∀ b, canonicalJson (.bool b) = .ok (.bool b)
  encode_int : ∀ i, int8 i = true → canonicalJson (.int i) = .ok (.int i)
  encode_str : ∀ s, canonicalJson (.str s) = .ok (.str s)
  encode_dict : ∀ entries j, canonicalJson (.dict entries) = .ok j → ∃ fields, j = .obj fields ∧
    ∀ k v, entries.lookup k = some v → reserved k = false ∧
      ∃ j', fields.lookup k = some j' ∧ canonicalJson v = .ok j'
  persistent_none : persistent .none
  persistent_bool : ∀ b, persistent (.bool b)
  persistent_int : ∀ i, persistent (.int i)
  persistent_str : ∀ s, persistent (.str s)
  persistent_decimal : ∀ d, persistent (.decimal d)
  persistent_list : ∀ items, (∀ v ∈ items, persistent v) → persistent (.list items)
  persistent_dict : ∀ entries, (entries.map Prod.fst).Nodup →
    (∀ p ∈ entries, reserved p.1 = false ∧ persistent p.2) → persistent (.dict entries)

/-! ### Payloads -/

structure SpoolTransaction where
  txIndex : Value
  envelope : Value
  payload : Value
  txResult : Value

/-- A `BdsBlockPayload`, with whatever its fields hold. -/
structure SpoolPayload where
  executionPolicy : Value
  blockMeta : Value
  blockTime : Int
  appHash : Value
  transactions : List SpoolTransaction
  statePatches : Value
  statePatchHash : Value

/-- The dict of a result, around the dict of its rewards. -/
def TxResult.toValue (r : TxResult) (rewards : Value) : Value :=
  .dict [("hash", .str r.hash), ("status", .int r.status),
    ("state", .list (r.state.map fun p => .dict [("key", .str p.1), ("value", p.2)])), ("events", .list r.events),
    ("chi_used", .int r.chiUsed), ("result", r.result), ("rewards", rewards),
    ("reward_records", if r.rewardRecords.isEmpty then .none else .list (r.rewardRecords.map RewardRecord.toValue))]

/-- `current_block_meta`. -/
def BlockMeta.toValue (chainId : String) (m : BlockMeta) : Value :=
  .dict [("nanos", .int m.nanos), ("height", .int m.height), ("hash", .str m.hash), ("chain_id", .str chainId)]

section Spool

variable (R : SpoolRuntime) (B : Builtins)

/-! ### Writing -/

/-- `canonical_json_value`. -/
def SpoolRuntime.canonicalJsonValue (v : Value) : Except PyErr Value := (R.canonicalJson v).map jsonValue

def readStr : Value → Except PyErr String
  | .str s => .ok s
  | _ => .error (.other "DataError: expected str")

def readInt (v : Value) : Except PyErr Int :=
  match asInt v with
  | some i => .ok i
  | none => .error (.other "DataError: an integer is required")

def readDecimal : Value → Except PyErr ContractingDecimal
  | .decimal d => .ok d
  | _ => .error (.other "decimal.InvalidOperation")

def readOptional {α : Type} (read : Value → Except PyErr α) : Value → Except PyErr (Option α)
  | .none => .ok none
  | v => some <$> read v

def readRewardType (v : Value) : Except PyErr RewardType := do
  let text ← readStr v
  match [RewardType.validatorReward, .delegatorReward, .foundationReward, .developerReward].find? (·.text = text) with
  | some type => return type
  | none => throw (.valueError text)

def lookupField (v : Value) (key : String) : Option Value :=
  match v with
  | .dict entries => entries.lookup key
  | _ => none

def readRewardRecord (v : Value) : Except PyErr RewardRecord := do
  let type ← readRewardType (← v.index "type")
  let recipientKey ← v.index "recipient_key"
  let sourceContract ← readOptional readStr (← v.index "source_contract")
  let value ← readDecimal (← v.index "value")
  return ⟨type, recipientKey, sourceContract, lookupField v "validator_key", lookupField v "delegator_key", value⟩

def readBucketEntry (p : String × Value) : Except PyErr (Value × ContractingDecimal) := do
  return (.str p.1, ← readDecimal p.2)

def readBucket : Value → Except PyErr RewardMapping
  | .dict entries => do
    return .ofList (← entries.mapM readBucketEntry)
  | _ => .error (.attributeError "object has no attribute 'items'")

def readRewards (v : Value) : Except PyErr TxRewards := do
  let validatorReward ← readBucket (← v.index "validator_reward")
  let delegatorReward ← readBucket (← v.index "delegator_reward")
  let foundationReward ← readBucket (← v.index "foundation_reward")
  let developerReward ← readBucket (← v.index "developer_reward")
  return ⟨validatorReward, delegatorReward, foundationReward, developerReward⟩

def readStateChange (v : Value) : Except PyErr (String × Value) := do
  let key ← readStr (← v.index "key")
  return (key, ← v.index "value")

def readTxResult (v : Value) : Except PyErr TxResult := do
  let hash ← readStr (← v.index "hash")
  let status ← readInt (← v.index "status")
  let changes ← (← v.index "state").iter
  let state ← changes.mapM readStateChange
  let events ← (← v.get "events" (.list [])).iter
  let chiUsed ← readInt (← v.index "chi_used")
  let result ← v.get "result" .none
  let rewards ← readOptional readRewards (← v.get "rewards" .none)
  let records ← readOptional Value.iter (← v.get "reward_records" .none)
  let rewardRecords ← (records.getD []).mapM readRewardRecord
  return ⟨hash, status, state, events, chiUsed, result, rewards, rewardRecords⟩

/-- A transaction, whose payload is the one of its envelope. -/
def SpoolTransaction.read (tx : SpoolTransaction) : Except PyErr BdsTransactionPayload := do
  let txIndex ← readInt tx.txIndex
  let payload ← tx.envelope.index "payload"
  require (tx.payload = payload ∧ 0 ≤ txIndex) (.other "not a payload of finalize_block")
  return ⟨txIndex.toNat, tx.envelope, ← readTxResult tx.txResult⟩

def SpoolPayload.read (p : SpoolPayload) : Except PyErr BdsBlockPayload := do
  let nanos ← readInt (← p.blockMeta.index "nanos")
  let height ← readInt (← p.blockMeta.index "height")
  let hash ← readStr (← p.blockMeta.index "hash")
  let appHash ← readStr p.appHash
  let transactions ← p.transactions.mapM SpoolTransaction.read
  let statePatches ← p.statePatches.iter
  let statePatchHash ← readOptional readStr p.statePatchHash
  return ⟨⟨nanos, height, hash⟩, p.blockTime, appHash, transactions, statePatches, statePatchHash⟩

def cellIsText (cell : Option Cell) (v : Value) : Bool :=
  match v with
  | .str s => cell = some (.text s)
  | _ => false

/-- Whatever a transaction raises, it is rolled back. -/
def committed (s : Session) : Except PersistError (PUnit × Session) → Bool × Session
  | .ok (_, s) => (true, s)
  | .error _ => (false, s)

end Spool

/-! ### Documents -/

section Documents

/-- A JSON document as `json.loads` returns it. -/
def IsDocument (v : Value) : Prop := ∃ j : Json, v = jsonValue j ∧ j.readable = true

theorem lookup_jsonValueEntries (k : String) (fields : List (String × Json)) :
    (jsonValueEntries fields).lookup k = (fields.lookup k).map jsonValue := by
  induction fields with
  | nil => rfl
  | cons p rest ih =>
    obtain ⟨k', j⟩ := p
    rw [jsonValueEntries, PyDict.lookup_cons_ite, PyDict.lookup_cons_ite, ih]
    split <;> rfl

theorem readable_of_lookup {fields : List (String × Json)} {k : String} {j : Json}
    (h : Json.readableEntries fields = true) (hk : fields.lookup k = some j) : j.readable = true := by
  induction fields with
  | nil => cases hk
  | cons p rest ih =>
    obtain ⟨k', j'⟩ := p
    rw [Json.readableEntries, Bool.and_eq_true] at h
    rw [PyDict.lookup_cons_ite] at hk
    split at hk
    · rw [← Option.some.inj hk]
      exact h.1
    · exact ih h.2 hk

/-- What a document has under a key is a document. -/
theorem IsDocument.index {v w : Value} {k : String} (h : IsDocument v) (hw : v.index k = .ok w) : IsDocument w := by
  obtain ⟨j, rfl, hj⟩ := h
  cases j with
  | obj fields =>
    rw [Json.readable, Bool.and_eq_true] at hj
    rw [jsonValue, Value.index, lookup_jsonValueEntries] at hw
    cases hk : fields.lookup k with
    | none =>
      rw [hk] at hw
      cases hw
    | some j' =>
      rw [hk] at hw
      exact ⟨j', (Except.ok.inj hw).symm, readable_of_lookup hj.2 hk⟩
  | _ => cases hw

end Documents

/-! ### There and back -/

section Restored

variable {R : SpoolRuntime} {B : Builtins}

end Restored

/-! ### The types the indexer reads -/

section Read

end Read

/-! ### The rows -/

section Rows

variable {R : SpoolRuntime} {B : Builtins} {chainId : String} {payload : BdsBlockPayload} {p : SpoolPayload}

end Rows

/-! ### Finalized blocks -/

section Persistent

variable {R : SpoolRuntime}

end Persistent

section Finalized

variable {R : SpoolRuntime} {B : Builtins} {H : BlockHooks} {envelope : Tx → Value} {settings : LocalSettings}
  {D : Type} [Driver D] {appliedPatches : DriverView → BlockMeta → List Value} {n : Node D} {req : FinalizeRequest}
  {payload : BdsBlockPayload} {chainId : String}

end Finalized

/-! ### The tags -/

def typeTags : List String := ["__fixed__", "__big_int__", "__bytes__", "__time__", "__set__"]

mutual
/-- The encoder, of decimals, numbers, texts and what holds them. -/
def taggedJson : Value → Except PyErr Json
  | .none => .ok .null
  | .bool b => .ok (.bool b)
  | .int i => .ok (if int8 i then .int i else .obj [("__big_int__", .str i.repr)])
  | .str s => .ok (.str s)
  | .decimal d => .ok (.obj [("__fixed__", .str (decimalToPlainString d.units 30))])
  | .list items => return .arr (← taggedItems items)
  | .dict entries => return .obj (← taggedEntries entries)
  | _ => .error (.typeError "Object is not JSON serializable")

def taggedItems : List Value → Except PyErr (List Json)
  | [] => return []
  | v :: rest => return (← taggedJson v) :: (← taggedItems rest)

def taggedEntries : List (String × Value) → Except PyErr (List (String × Json))
  | [] => return []
  | (k, v) :: rest => do
    require (k ∉ typeTags) (.valueError "reserved runtime codec dictionary key")
    return (k, ← taggedJson v) :: (← taggedEntries rest)
end

mutual
def taggable : Value → Bool
  | .list items => taggableItems items
  | .dict entries => (entries.map Prod.fst).Nodup && taggableEntries entries
  | .none | .bool _ | .int _ | .str _ | .decimal _ => true
  | _ => false

def taggableItems : List Value → Bool
  | [] => true
  | v :: rest => taggable v && taggableItems rest

def taggableEntries : List (String × Value) → Bool
  | [] => true
  | (k, v) :: rest => k ∉ typeTags && taggable v && taggableEntries rest
end

/-- What a tag stands for. -/
noncomputable def taggedScalar (entries : List (String × Value)) : Option Value :=
  match entries.lookup "__fixed__", entries.lookup "__big_int__" with
  | some (.str s), _ => some (.decimal ⟨Function.invFun (fun units => decimalToPlainString units 30) s⟩)
  | _, some (.str s) => s.toInt?.map .int
  | _, _ => none

section Tags

theorem taggedScalar_decimal (d : ContractingDecimal) :
    taggedScalar [("__fixed__", .str (decimalToPlainString d.units 30))] = some (.decimal d) := by
  have hinj : Function.Injective fun units : Int => decimalToPlainString units 30 :=
    fun _ _ h => decimalToPlainString_injective h
  exact congrArg (fun units => some (Value.decimal ⟨units⟩)) (Function.leftInverse_invFun hinj d.units)

theorem taggedScalar_int (i : Int) : taggedScalar [("__big_int__", .str i.repr)] = some (.int i) := by
  change i.repr.toInt?.map Value.int = _
  rw [Int.toInt?_repr]
  rfl

theorem taggedEntries_cons {k : String} {v : Value} {rest : List (String × Value)} {fields : List (String × Json)}
    (h : taggedEntries ((k, v) :: rest) = .ok fields) : ∃ j fields', k ∉ typeTags ∧ taggedJson v = .ok j ∧
      taggedEntries rest = .ok fields' ∧ fields = (k, j) :: fields' := by
  rw [taggedEntries] at h
  obtain ⟨_, hk, h⟩ := bind_eq_ok.1 h
  obtain ⟨j, hj, h⟩ := bind_eq_ok.1 h
  obtain ⟨fields', hrest, h⟩ := bind_eq_ok.1 h
  exact ⟨j, fields', require_eq_ok.1 hk, hj, hrest, (Except.ok.inj h).symm⟩

theorem map_fst_taggedEntries {entries : List (String × Value)} {fields : List (String × Json)}
    (h : taggedEntries entries = .ok fields) : fields.map Prod.fst = entries.map Prod.fst := by
  induction entries generalizing fields with
  | nil =>
    rw [taggedEntries] at h
    cases h
    rfl
  | cons p rest ih =>
    obtain ⟨j, fields', -, -, hrest, rfl⟩ := taggedEntries_cons h
    rw [List.map_cons, List.map_cons, ih hrest]

/-- An object with no tag among its keys is itself. -/
theorem taggedScalar_eq_none {entries : List (String × Value)} (h : ∀ k ∈ entries.map Prod.fst, k ∉ typeTags) :
    taggedScalar entries = none := by
  have hlookup : ∀ tag ∈ typeTags, entries.lookup tag = none := by
    intro tag htag
    refine List.lookup_eq_none_iff.2 fun p hp => ?_
    have hne : tag ≠ p.1 := by
      rintro rfl
      exact h _ (List.mem_map_of_mem hp) htag
    simpa using hne
  unfold taggedScalar
  rw [hlookup "__fixed__" (by decide), hlookup "__big_int__" (by decide)]

theorem untagged_of_taggable {entries : List (String × Value)} (h : taggableEntries entries = true) :
    ∀ k ∈ entries.map Prod.fst, k ∉ typeTags := by
  induction entries with
  | nil => simp
  | cons p rest ih =>
    obtain ⟨k, v⟩ := p
    simp only [taggableEntries, Bool.and_eq_true, decide_eq_true_eq] at h
    exact List.forall_mem_cons.2 ⟨h.1.1, ih h.2⟩

theorem map_fst_jsonValueEntries (fields : List (String × Json)) :
    (jsonValueEntries fields).map Prod.fst = fields.map Prod.fst := by
  induction fields with
  | nil => rfl
  | cons p rest ih => rw [jsonValueEntries, List.map_cons, List.map_cons, ih]

mutual
theorem exists_tagged : ∀ v, taggable v = true →
    ∃ j, taggedJson v = .ok j ∧ j.readable = true ∧ runtimeValue taggedScalar (jsonValue j) = v
  | .none, _ => ⟨.null, by rw [taggedJson], rfl, by simp only [jsonValue, runtimeValue]⟩
  | .bool b, _ => ⟨.bool b, by rw [taggedJson], rfl, by simp only [jsonValue, runtimeValue]⟩
  | .str s, _ => ⟨.str s, by rw [taggedJson], rfl, by simp only [jsonValue, runtimeValue]⟩
  | .int i, _ => by
    refine ⟨_, by rw [taggedJson], ?_, ?_⟩
    · split <;> simp [Json.readable, Json.readableEntries]
    · split
      · simp only [jsonValue, runtimeValue]
      · simp only [jsonValue, jsonValueEntries, runtimeValue, taggedScalar_int]
  | .decimal d, _ => by
    refine ⟨_, by rw [taggedJson], ?_, ?_⟩
    · simp [Json.readable, Json.readableEntries]
    · simp only [jsonValue, jsonValueEntries, runtimeValue, taggedScalar_decimal]
  | .list items, h => by
    rw [taggable] at h
    obtain ⟨js, hjs, hread, hback⟩ := exists_taggedItems items h
    refine ⟨.arr js, by rw [taggedJson, hjs]; rfl, by rwa [Json.readable], ?_⟩
    rw [jsonValue, runtimeValue, hback]
  | .dict entries, h => by
    rw [taggable, Bool.and_eq_true, decide_eq_true_eq] at h
    obtain ⟨js, hjs, hread, hback⟩ := exists_taggedEntries entries h.2
    have hkeys := map_fst_taggedEntries hjs
    refine ⟨.obj js, by rw [taggedJson, hjs]; rfl, ?_, ?_⟩
    · rw [Json.readable, hkeys, hread, Bool.and_true, decide_eq_true_eq]
      exact h.1
    · have hnone : taggedScalar (jsonValueEntries js) = none := by
        refine taggedScalar_eq_none ?_
        rw [map_fst_jsonValueEntries, hkeys]
        exact untagged_of_taggable h.2
      rw [jsonValue, runtimeValue, hnone, hback]
  | .float _, h | .pyDecimal _ _, h | .bytes _, h | .datetime _, h | .pyDatetime _, h | .set _, h
  | .exception _, h | .object _, h | .tuple _, h => by simp [taggable] at h

theorem exists_taggedItems : ∀ l, taggableItems l = true → ∃ js, taggedItems l = .ok js ∧
    Json.readableItems js = true ∧ runtimeItems taggedScalar (jsonValues js) = l
  | [], _ => ⟨[], by rw [taggedItems]; rfl, rfl, by simp only [jsonValues, runtimeItems]⟩
  | v :: rest, h => by
    rw [taggableItems, Bool.and_eq_true] at h
    obtain ⟨j, hj, hread, hback⟩ := exists_tagged v h.1
    obtain ⟨js, hjs, hreads, hbacks⟩ := exists_taggedItems rest h.2
    refine ⟨j :: js, by rw [taggedItems, hj, hjs]; rfl, ?_, ?_⟩
    · rw [Json.readableItems, hread, hreads]
      rfl
    · rw [jsonValues, runtimeItems, hback, hbacks]

theorem exists_taggedEntries : ∀ l, taggableEntries l = true → ∃ js, taggedEntries l = .ok js ∧
    Json.readableEntries js = true ∧ runtimeEntries taggedScalar (jsonValueEntries js) = l
  | [], _ => ⟨[], by rw [taggedEntries]; rfl, rfl, by simp only [jsonValueEntries, runtimeEntries]⟩
  | (k, v) :: rest, h => by
    simp only [taggableEntries, Bool.and_eq_true, decide_eq_true_eq] at h
    obtain ⟨⟨hk, hv⟩, hrest⟩ := h
    obtain ⟨j, hj, hread, hback⟩ := exists_tagged v hv
    obtain ⟨js, hjs, hreads, hbacks⟩ := exists_taggedEntries rest hrest
    refine ⟨(k, j) :: js, ?_, ?_, ?_⟩
    · rw [taggedEntries, require_eq_ok (u := ()) |>.2 hk, hj, hjs]
      rfl
    · rw [Json.readableEntries, hread, hreads]
      rfl
    · rw [jsonValueEntries, runtimeEntries, hback, hbacks]
end

end Tags

end XianAbci
