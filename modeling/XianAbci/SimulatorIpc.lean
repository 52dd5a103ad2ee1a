import XianAbci.JsonLoads
import XianAbci.TransactionBytes

/-!
# The simulator's wire format (`simulator_ipc.py`)

What the node and its simulator worker send one another is JSON in which every value that JSON has no form for is an
object with a type tag, and a dict that looks like such an object, or has other keys than strings, is written as a
list of pairs under a tag of its own. What is written is read back as it was (`ipc_round_trip`): an encoded dict has
no tag unless it is one, and the tagged forms name the class they stand for.

A set is carried by its items in the order it yields them.
-/

namespace XianAbci

/-- The classes with a tag. -/
inductive IpcClass
  | contractingDecimal | decimal | datetime | bytes
  | decimalTuple | contractingFrozenset | contractingSet | frozenset | set | tuple
deriving DecidableEq, Repr

/-- A value of a scalar class with a tag. -/
inductive IpcScalar (D P T : Type)
  | contractingDecimal (d : D)
  | decimal (d : P)
  | datetime (t : T)
  | bytes (b : Bytes)

/-- A value the two processes exchange, over the classes of contract decimals, raw decimals and times. -/
inductive IpcValue (D P T : Type)
  | none
  | bool (b : Bool)
  | int (i : Int)
  | float (repr : String)
  | str (s : String)
  | scalar (s : IpcScalar D P T)
  | collection (cls : IpcClass) (items : List (IpcValue D P T))
  | list (items : List (IpcValue D P T))
  | dict (entries : List (IpcValue D P T × IpcValue D P T))

def ipcTypeKey : String := "__xian_ipc_type__"

/-- What a tagged object carries beside the tag: the text of a scalar or the items of a collection. -/
inductive IpcForm
  | value
  | items
deriving DecidableEq

/-- `_SCALAR_TYPES` and then `_COLLECTION_TYPES`, in the order they are tested. -/
def ipcTypes : List (IpcClass × IpcForm × String) :=
  [(.contractingDecimal, .value, "contracting_decimal"), (.decimal, .value, "decimal"),
   (.datetime, .value, "datetime"), (.bytes, .value, "bytes"),
   (.decimalTuple, .items, "decimal_tuple"), (.contractingFrozenset, .items, "contracting_frozenset"),
   (.contractingSet, .items, "contracting_set"), (.frozenset, .items, "frozenset"), (.set, .items, "set"),
   (.tuple, .items, "tuple")]

variable {D P T : Type}

def IpcScalar.cls : IpcScalar D P T → IpcClass
  | contractingDecimal _ => .contractingDecimal
  | decimal _ => .decimal
  | datetime _ => .datetime
  | bytes _ => .bytes

/-- The Python classes behind the values: `isinstance` on them, the texts of the scalars and the classes that read
them, equality and hashing, and the wrapper sets made from a list of items. A class stands in the table before its
base classes, and a wrapper set made from what it yields is the set again. -/
structure IpcRuntime (D P T : Type) where
  isInstance : IpcClass → IpcClass → Bool
  isInstance_self : ∀ c, isInstance c c = true
  isInstance_earlier : ∀ c c', (ipcTypes.map Prod.fst).idxOf c < (ipcTypes.map Prod.fst).idxOf c' →
    isInstance c' c = false
  decimalStr : D → String
  decimalOf : Json → Except PyErr D
  decimalOf_str : ∀ d, decimalOf (.str (decimalStr d)) = .ok d
  rawStr : P → String
  rawOf : Json → Except PyErr P
  rawOf_str : ∀ d, rawOf (.str (rawStr d)) = .ok d
  timeStr : T → String
  timeOf : Json → Except PyErr T
  timeOf_str : ∀ t, timeOf (.str (timeStr t)) = .ok t
  eq : IpcValue D P T → IpcValue D P T → Bool
  eq_str : ∀ s, eq (.str s) (.str s) = true
  hashable : IpcValue D P T → Bool
  yields : IpcClass → List (IpcValue D P T) → Prop
  wrapper : IpcClass → List (IpcValue D P T) → Except PyErr (List (IpcValue D P T))
  wrapper_eq : ∀ cls items, yields cls items → wrapper cls items = .ok items

namespace IpcRuntime

variable (R : IpcRuntime D P T)

/-! ### Writing -/

def tagged (tag field : String) (payload : Json) : Json := .obj [(ipcTypeKey, .str tag), (field, payload)]

/-- `str` of a scalar, or `bytes.hex`. -/
def scalarText : IpcScalar D P T → String
  | .contractingDecimal d => R.decimalStr d
  | .decimal d => R.rawStr d
  | .datetime t => R.timeStr t
  | .bytes b => bytesHex b

/-- The form of the first class in the table that the value is an instance of. -/
def encodeTagged (cls : IpcClass) (text : String) (items : List Json) : Json :=
  match ipcTypes.find? fun e => R.isInstance cls e.1 with
  | some (_, .value, tag) => tagged tag "value" (.str text)
  | some (_, .items, tag) => tagged tag "items" (.arr items)
  | none => .null

/-- The text of a string key. -/
def keyText : IpcValue D P T → Option String
  | .str s => some s
  | _ => none

/-- Whether a dict is written as an object: string keys, and not the marker among them. -/
def plainMapping (entries : List (IpcValue D P T × IpcValue D P T)) : Bool :=
  entries.all fun e => (keyText e.1).any (· ≠ ipcTypeKey)

mutual
/-- `_encode_value`, with `_encode_mapping`. -/
def encodeValue : IpcValue D P T → Json
  | .none => .null
  | .bool b => .bool b
  | .int i => .int i
  | .float repr => .float repr
  | .str s => .str s
  | .scalar s => R.encodeTagged s.cls (R.scalarText s) []
  | .collection cls items => R.encodeTagged cls "" (encodeItems items)
  | .list items => .arr (encodeItems items)
  | .dict entries =>
    if plainMapping entries then .obj (encodeMapping entries)
    else tagged "dict" "items" (.arr (encodePairs entries))

def encodeItems : List (IpcValue D P T) → List Json
  | [] => []
  | v :: rest => encodeValue v :: encodeItems rest

def encodeMapping : List (IpcValue D P T × IpcValue D P T) → List (String × Json)
  | [] => []
  | (k, v) :: rest => ((keyText k).getD "", encodeValue v) :: encodeMapping rest

def encodePairs : List (IpcValue D P T × IpcValue D P T) → List Json
  | [] => []
  | (k, v) :: rest => .arr [encodeValue k, encodeValue v] :: encodePairs rest
end

/-! ### Reading -/

/-- `_SCALAR_DECODERS`. -/
def scalarDecoder (tag : String) : Option (Json → Except PyErr (IpcValue D P T)) :=
  match tag with
  | "contracting_decimal" => some fun j => (R.decimalOf j).map fun d => .scalar (.contractingDecimal d)
  | "decimal" => some fun j => (R.rawOf j).map fun d => .scalar (.decimal d)
  | "datetime" => some fun j => (R.timeOf j).map fun t => .scalar (.datetime t)
  | "bytes" => some fun j => match j with
    | .str s => (bytesFromHex s).map fun b => .scalar (.bytes b)
    | _ => .error (.typeError "fromhex() argument must be str")
  | _ => none

def unhashable : PyErr := .typeError "unhashable type"

/-- `set(items)`: of equal items the first stays. -/
def setOf (items : List (IpcValue D P T)) : Except PyErr (List (IpcValue D P T)) :=
  if items.all R.hashable then
    .ok (items.foldl (fun acc v => if acc.any fun w => R.eq w v then acc else acc ++ [v]) [])
  else .error unhashable

/-- `d[k] = v`: an equal key stays as it is. -/
def assign (entries : List (IpcValue D P T × IpcValue D P T)) (e : IpcValue D P T × IpcValue D P T) :
    List (IpcValue D P T × IpcValue D P T) :=
  if entries.any fun f => R.eq f.1 e.1 then entries.map fun f => if R.eq f.1 e.1 then (f.1, e.2) else f
  else entries ++ [e]

/-- An item as a key and its value. -/
def pairOf : IpcValue D P T → Except PyErr (IpcValue D P T × IpcValue D P T)
  | .list [k, v] => .ok (k, v)
  | .collection _ [k, v] => .ok (k, v)
  | .dict [(k, _), (v, _)] => .ok (k, v)
  | .scalar (.bytes [k, v]) => .ok (.int k.toNat, .int v.toNat)
  | .str s => match s.toList with
    | [k, v] => .ok (.str (String.ofList [k]), .str (String.ofList [v]))
    | _ => .error (.valueError "dictionary update sequence element has the wrong length; 2 is required")
  | .list _ | .collection _ _ | .dict _ =>
    .error (.valueError "dictionary update sequence element has the wrong length; 2 is required")
  | _ => .error (.typeError "cannot convert dictionary update sequence element to a sequence")

/-- `dict(items)`. -/
def dictOf (items : List (IpcValue D P T)) : Except PyErr (List (IpcValue D P T × IpcValue D P T)) := do
  let pairs ← items.mapM pairOf
  if pairs.all fun e => R.hashable e.1 then .ok (pairs.foldl R.assign []) else .error unhashable

/-- `_COLLECTION_DECODERS`. -/
def collectionDecoder (tag : String) : Option (List (IpcValue D P T) → Except PyErr (IpcValue D P T)) :=
  match tag with
  | "decimal_tuple" => some fun items =>
    if items.length = 3 then .ok (.collection .decimalTuple items)
    else .error (.typeError "DecimalTuple.__new__() takes 3 arguments")
  | "contracting_frozenset" => some fun items =>
    (R.wrapper .contractingFrozenset items).map (.collection .contractingFrozenset)
  | "contracting_set" => some fun items => (R.wrapper .contractingSet items).map (.collection .contractingSet)
  | "frozenset" => some fun items => (R.setOf items).map (.collection .frozenset)
  | "set" => some fun items => (R.setOf items).map (.collection .set)
  | "tuple" => some fun items => .ok (.collection .tuple items)
  | "dict" => some fun items => (R.dictOf items).map .dict
  | _ => none

/-- What an entry of an object is read as: as a value of its own, and as the items of a collection. -/
structure Decoded (D P T : Type) where
  value : Except PyErr (IpcValue D P T)
  items : Except PyErr (List (IpcValue D P T))

/-- `set(value) == {_TYPE_KEY, field}`. -/
def hasShape (entries : List (String × Json)) (field : String) : Bool :=
  (entries.map Prod.fst).all (fun k => k = ipcTypeKey ∨ k = field) ∧
    ipcTypeKey ∈ entries.map Prod.fst ∧ field ∈ entries.map Prod.fst

def plainObject (decoded : List (String × Decoded D P T)) : Except PyErr (IpcValue D P T) :=
  (decoded.mapM fun (e : String × Decoded D P T) => e.2.value.map fun v => (IpcValue.str e.1, v)).map .dict

/-- An object, from what its entries are read as. -/
def decodeObject (entries : List (String × Json)) (decoded : List (String × Decoded D P T)) :
    Except PyErr (IpcValue D P T) :=
  match entries.lookup ipcTypeKey with
  | some (.str tag) => match R.scalarDecoder tag, hasShape entries "value", entries.lookup "value" with
    | some decode, true, some payload => decode payload
    | _, _, _ => match R.collectionDecoder tag, hasShape entries "items", decoded.lookup "items" with
      | some build, true, some d => d.items >>= build
      | _, _, _ => plainObject decoded
  | _ => plainObject decoded

mutual
/-- `_decode_value`. -/
def decodeValue : Json → Except PyErr (IpcValue D P T)
  | .null => .ok .none
  | .bool b => .ok (.bool b)
  | .int i => .ok (.int i)
  | .float repr => .ok (.float repr)
  | .str s => .ok (.str s)
  | .arr items => (decodeItems items).map .list
  | .obj entries => R.decodeObject entries (decodeEntries entries)

def decodeItems : List Json → Except PyErr (List (IpcValue D P T))
  | [] => .ok []
  | j :: rest => do
    let v ← decodeValue j
    let vs ← decodeItems rest
    pure (v :: vs)

def decodeEntries : List (String × Json) → List (String × Decoded D P T)
  | [] => []
  | (k, j) :: rest => (k, ⟨decodeValue j, decodeIter j⟩) :: decodeEntries rest

/-- `(_decode_value(item) for item in value)`. -/
def decodeIter : Json → Except PyErr (List (IpcValue D P T))
  | .arr items => decodeItems items
  | .str s => .ok (s.toList.map fun c => .str (String.ofList [c]))
  | .obj entries => .ok (entries.map fun e => .str e.1)
  | _ => .error (.typeError "object is not iterable")
end

def dumps (v : IpcValue D P T) : Bytes := encodeStr (String.ofList (XianAbci.dumps (R.encodeValue v)))

def loads (b : Bytes) : Except PyErr (IpcValue D P T) := do
  let text ← decodeUtf8 b
  let j ← XianAbci.loads text.toList
  R.decodeValue j

/-! ### The values there are -/

/-- No two of the items are equal, and all can be hashed. -/
def Distinct (items : List (IpcValue D P T)) : Prop :=
  items.Pairwise (fun v w => R.eq v w = false) ∧ ∀ v ∈ items, R.hashable v = true

/-- What a collection of a class yields when it is iterated. -/
def Yielded (cls : IpcClass) (items : List (IpcValue D P T)) : Prop :=
  match cls with
  | .decimalTuple => items.length = 3
  | .contractingFrozenset | .contractingSet => R.yields cls items
  | .frozenset | .set => R.Distinct items
  | .tuple => True
  | _ => False

mutual
/-- A value that Python can hold: a dict has no key twice, a set no item, and a float has the text of a float. -/
def Valid : IpcValue D P T → Prop
  | .float repr => (Json.float repr).readable = true
  | .collection cls items => R.Yielded cls items ∧ ValidItems items
  | .list items => ValidItems items
  | .dict entries => R.Distinct (entries.map Prod.fst) ∧ ValidEntries entries
  | _ => True

def ValidItems : List (IpcValue D P T) → Prop
  | [] => True
  | v :: rest => Valid v ∧ ValidItems rest

def ValidEntries : List (IpcValue D P T × IpcValue D P T) → Prop
  | [] => True
  | (k, v) :: rest => Valid k ∧ Valid v ∧ ValidEntries rest
end

variable {R}

/-! ### The table -/

/-- A value of a class gets the form and the tag of that class. -/
theorem find?_isInstance {e : IpcClass × IpcForm × String} (he : e ∈ ipcTypes) :
    (ipcTypes.find? fun e' => R.isInstance e.1 e'.1) = some e := by
  have hlater := fun c' => R.isInstance_earlier c' e.1
  have hself := R.isInstance_self e.1
  simp only [ipcTypes, List.mem_cons, List.not_mem_nil, or_false] at he
  rcases he with rfl | rfl | rfl | rfl | rfl | rfl | rfl | rfl | rfl | rfl <;>
  · simp only [ipcTypes, List.find?_cons, hself]
    first
      | rfl
      | (repeat rw [hlater _ (by decide)]
         try rfl)

theorem encodeTagged_value {cls : IpcClass} {text : String} {items : List Json} (tag : String)
    (h : (cls, IpcForm.value, tag) ∈ ipcTypes) :
    R.encodeTagged cls text items = tagged tag "value" (.str text) := by
  rw [encodeTagged, find?_isInstance h]

theorem encodeTagged_items {cls : IpcClass} {text : String} {items : List Json} (tag : String)
    (h : (cls, IpcForm.items, tag) ∈ ipcTypes) :
    R.encodeTagged cls text items = tagged tag "items" (.arr items) := by
  rw [encodeTagged, find?_isInstance h]

theorem decodeObject_value {tag : String} {payload : Json} {decode : Json → Except PyErr (IpcValue D P T)}
    {decoded : List (String × Decoded D P T)} (h : R.scalarDecoder tag = some decode) :
    R.decodeObject [(ipcTypeKey, .str tag), ("value", payload)] decoded = decode payload := by
  have hshape : hasShape [(ipcTypeKey, .str tag), ("value", payload)] "value" = true := rfl
  have hlookup : List.lookup "value" [(ipcTypeKey, .str tag), ("value", payload)] = some payload := rfl
  have htag : List.lookup ipcTypeKey [(ipcTypeKey, .str tag), ("value", payload)] = some (.str tag) := rfl
  rw [decodeObject, htag]
  simp only [h, hshape, hlookup]

theorem decodeObject_items {tag : String} {payload : Json} {d d' : Decoded D P T}
    {build : List (IpcValue D P T) → Except PyErr (IpcValue D P T)} (hscalar : R.scalarDecoder tag = none)
    (h : R.collectionDecoder tag = some build) :
    R.decodeObject [(ipcTypeKey, .str tag), ("items", payload)] [(ipcTypeKey, d'), ("items", d)] =
      d.items >>= build := by
  have hshape : hasShape [(ipcTypeKey, .str tag), ("items", payload)] "items" = true := rfl
  have hlookup : List.lookup "items" [(ipcTypeKey, d'), ("items", d)] = some d := rfl
  have htag : List.lookup ipcTypeKey [(ipcTypeKey, .str tag), ("items", payload)] = some (.str tag) := rfl
  rw [decodeObject, htag]
  simp only [hscalar, h, hshape, hlookup]

/-- A tagged list of items is read by the class of its tag. -/
theorem decodeValue_tagged_items (tag : String) {items : List Json} {vs : List (IpcValue D P T)}
    {build : List (IpcValue D P T) → Except PyErr (IpcValue D P T)} (hscalar : R.scalarDecoder tag = none)
    (h : R.collectionDecoder tag = some build) (hitems : R.decodeItems items = .ok vs) :
    R.decodeValue (tagged tag "items" (.arr items)) = build vs := by
  rw [tagged, decodeValue, decodeEntries, decodeEntries, decodeEntries, decodeObject_items hscalar h]
  show R.decodeIter (.arr items) >>= build = _
  rw [decodeIter, hitems]
  rfl

/-! ### Sets and dicts -/

theorem setOf_eq {items : List (IpcValue D P T)} (h : R.Distinct items) : R.setOf items = .ok items := by
  have hfold : ∀ (l acc : List (IpcValue D P T)), (acc ++ l).Pairwise (fun v w => R.eq v w = false) →
      l.foldl (fun acc v => if acc.any fun w => R.eq w v then acc else acc ++ [v]) acc = acc ++ l := by
    intro l
    induction l with
    | nil => intro acc _; exact (List.append_nil acc).symm
    | cons v l ih =>
      intro acc hpair
      have hnew : ¬ (acc.any fun w => R.eq w v) = true := by
        rw [List.any_eq_true]
        rintro ⟨w, hw, heq⟩
        rw [(List.pairwise_append.1 hpair).2.2 w hw v (List.mem_cons_self ..)] at heq
        cases heq
      rw [List.foldl_cons, if_neg hnew, ih _ (by rwa [List.append_assoc]), List.append_assoc]
      rfl
  rw [setOf, if_pos (List.all_eq_true.2 h.2), hfold items [] h.1]
  rfl

theorem foldl_assign {entries : List (IpcValue D P T × IpcValue D P T)}
    (h : (entries.map Prod.fst).Pairwise fun v w => R.eq v w = false) : entries.foldl R.assign [] = entries := by
  have hfold : ∀ (l acc : List (IpcValue D P T × IpcValue D P T)),
      ((acc ++ l).map Prod.fst).Pairwise (fun v w => R.eq v w = false) → l.foldl R.assign acc = acc ++ l := by
    intro l
    induction l with
    | nil => intro acc _; exact (List.append_nil acc).symm
    | cons e l ih =>
      intro acc hpair
      have hnew : ¬ (acc.any fun f => R.eq f.1 e.1) = true := by
        rw [List.any_eq_true]
        rintro ⟨f, hf, heq⟩
        rw [List.map_append] at hpair
        rw [(List.pairwise_append.1 hpair).2.2 f.1 (List.mem_map_of_mem hf) e.1 (by simp)] at heq
        cases heq
      rw [List.foldl_cons, assign, if_neg hnew, ih _ (by rwa [List.append_assoc]), List.append_assoc]
      rfl
  exact hfold entries [] h

theorem dictOf_eq {entries : List (IpcValue D P T × IpcValue D P T)} (h : R.Distinct (entries.map Prod.fst)) :
    R.dictOf (entries.map fun e => .list [e.1, e.2]) = .ok entries := by
  have hpairs : (entries.map fun e => IpcValue.list [e.1, e.2]).mapM pairOf = .ok entries := by
    rw [mapM_eq_ok, List.forall₂_map_left_iff, List.forall₂_same]
    exact fun e _ => rfl
  have hhash : (entries.all fun e => R.hashable e.1) = true := by
    rw [List.all_eq_true]
    exact fun e he => h.2 e.1 (List.mem_map_of_mem he)
  unfold dictOf
  rw [hpairs]
  show (if (entries.all fun e => R.hashable e.1) = true then _ else _) = _
  rw [if_pos hhash, foldl_assign h.1]

/-! ### The round trip -/

theorem decodeValue_tagged_value {tag : String} {payload : Json} {decode : Json → Except PyErr (IpcValue D P T)}
    (h : R.scalarDecoder tag = some decode) : R.decodeValue (tagged tag "value" payload) = decode payload := by
  rw [tagged, decodeValue, decodeObject_value h]

theorem decodeValue_scalar (s : IpcScalar D P T) : R.decodeValue (R.encodeValue (.scalar s)) = .ok (.scalar s) := by
  rw [encodeValue]
  cases s with
  | contractingDecimal d =>
    rw [IpcScalar.cls, encodeTagged_value "contracting_decimal" (by decide), decodeValue_tagged_value rfl]
    show (R.decimalOf (.str (R.decimalStr d))).map _ = _
    rw [R.decimalOf_str]
    rfl
  | decimal d =>
    rw [IpcScalar.cls, encodeTagged_value "decimal" (by decide), decodeValue_tagged_value rfl]
    show (R.rawOf (.str (R.rawStr d))).map _ = _
    rw [R.rawOf_str]
    rfl
  | datetime t =>
    rw [IpcScalar.cls, encodeTagged_value "datetime" (by decide), decodeValue_tagged_value rfl]
    show (R.timeOf (.str (R.timeStr t))).map _ = _
    rw [R.timeOf_str]
    rfl
  | bytes b =>
    rw [IpcScalar.cls, encodeTagged_value "bytes" (by decide), decodeValue_tagged_value rfl]
    show (bytesFromHex (bytesHex b)).map _ = _
    rw [bytesFromHex_bytesHex]
    rfl

/-- A collection of a class is made again from what it yields. -/
theorem collectionDecoder_yielded {cls : IpcClass} {items : List (IpcValue D P T)} (h : R.Yielded cls items) :
    ∃ tag build, (cls, IpcForm.items, tag) ∈ ipcTypes ∧ R.scalarDecoder tag = none ∧
      R.collectionDecoder tag = some build ∧ build items = .ok (.collection cls items) := by
  cases cls with
  | decimalTuple => exact ⟨"decimal_tuple", _, by decide, rfl, rfl, if_pos h⟩
  | contractingFrozenset =>
    refine ⟨"contracting_frozenset", _, by decide, rfl, rfl, ?_⟩
    show (R.wrapper .contractingFrozenset items).map _ = _
    rw [R.wrapper_eq _ _ h]
    rfl
  | contractingSet =>
    refine ⟨"contracting_set", _, by decide, rfl, rfl, ?_⟩
    show (R.wrapper .contractingSet items).map _ = _
    rw [R.wrapper_eq _ _ h]
    rfl
  | frozenset =>
    refine ⟨"frozenset", _, by decide, rfl, rfl, ?_⟩
    show (R.setOf items).map _ = _
    rw [setOf_eq h]
    rfl
  | set =>
    refine ⟨"set", _, by decide, rfl, rfl, ?_⟩
    show (R.setOf items).map _ = _
    rw [setOf_eq h]
    rfl
  | tuple => exact ⟨"tuple", _, by decide, rfl, rfl, rfl⟩
  | contractingDecimal | decimal | datetime | bytes => exact h.elim

theorem lookup_encodeMapping {entries : List (IpcValue D P T × IpcValue D P T)} (h : plainMapping entries = true) :
    (R.encodeMapping entries).lookup ipcTypeKey = none := by
  induction entries with
  | nil => rfl
  | cons e entries ih =>
    obtain ⟨k, v⟩ := e
    rw [plainMapping, List.all_cons, Bool.and_eq_true] at h
    obtain ⟨s, hs, hne⟩ := (Option.any_eq_true ..).1 h.1
    have hne : s ≠ ipcTypeKey := by simpa using hne
    have hs : keyText k = some s := hs
    rw [encodeMapping, PyDict.lookup_cons_ite, if_neg (by rw [hs]; exact hne.symm), ih h.2]

theorem decodeValue_mapping {entries : List (IpcValue D P T × IpcValue D P T)} (h : plainMapping entries = true) :
    R.decodeValue (.obj (R.encodeMapping entries)) = plainObject (R.decodeEntries (R.encodeMapping entries)) := by
  rw [decodeValue, decodeObject, lookup_encodeMapping h]

theorem keyText_eq_some {v : IpcValue D P T} {s : String} (h : keyText v = some s) : v = .str s := by
  cases v <;> cases h
  rfl

mutual
theorem decodeValue_encodeValue : ∀ v : IpcValue D P T, R.Valid v → R.decodeValue (R.encodeValue v) = .ok v
  | .none, _ | .bool _, _ | .int _, _ | .float _, _ | .str _, _ => rfl
  | .scalar s, _ => decodeValue_scalar s
  | .collection cls items, h => by
    obtain ⟨tag, build, hmem, hscalar, hdecoder, hbuild⟩ := collectionDecoder_yielded h.1
    rw [encodeValue, encodeTagged_items tag hmem,
      decodeValue_tagged_items tag hscalar hdecoder (decodeItems_encodeItems items h.2), hbuild]
  | .list items, h => by
    rw [encodeValue, decodeValue, decodeItems_encodeItems items h]
    rfl
  | .dict entries, h => by
    rw [encodeValue]
    split
    · rename_i hplain
      rw [decodeValue_mapping hplain, plainObject, decodeEntries_encodeMapping entries h.2 hplain]
      rfl
    · rw [decodeValue_tagged_items "dict" rfl rfl (decodeItems_encodePairs entries h.2)]
      show (R.dictOf (entries.map fun e => .list [e.1, e.2])).map _ = _
      rw [dictOf_eq h.1]
      rfl

theorem decodeItems_encodeItems : ∀ items : List (IpcValue D P T), R.ValidItems items →
    R.decodeItems (R.encodeItems items) = .ok items
  | [], _ => rfl
  | v :: rest, h => by
    rw [encodeItems, decodeItems, decodeValue_encodeValue v h.1, decodeItems_encodeItems rest h.2]
    rfl

theorem decodeItems_encodePairs : ∀ entries : List (IpcValue D P T × IpcValue D P T), R.ValidEntries entries →
    R.decodeItems (R.encodePairs entries) = .ok (entries.map fun e => .list [e.1, e.2])
  | [], _ => rfl
  | (k, v) :: rest, h => by
    have hpair : R.decodeValue (.arr [R.encodeValue k, R.encodeValue v]) = .ok (.list [k, v]) := by
      rw [decodeValue, decodeItems, decodeItems, decodeItems, decodeValue_encodeValue k h.1,
        decodeValue_encodeValue v h.2.1]
      rfl
    rw [encodePairs, decodeItems, hpair, decodeItems_encodePairs rest h.2.2]
    rfl

theorem decodeEntries_encodeMapping : ∀ entries : List (IpcValue D P T × IpcValue D P T), R.ValidEntries entries →
    plainMapping entries = true →
    (R.decodeEntries (R.encodeMapping entries)).mapM
      (fun (e : String × Decoded D P T) => e.2.value.map fun v => (IpcValue.str e.1, v)) = .ok entries
  | [], _, _ => rfl
  | (k, v) :: rest, h, hplain => by
    rw [plainMapping, List.all_cons, Bool.and_eq_true] at hplain
    obtain ⟨s, hs, -⟩ := (Option.any_eq_true ..).1 hplain.1
    have hs : keyText k = some s := hs
    rw [encodeMapping, decodeEntries, List.mapM_cons, decodeValue_encodeValue v h.2.1,
      decodeEntries_encodeMapping rest h.2.2 hplain.2, hs, keyText_eq_some hs]
    rfl
end

/-! ### The text -/

theorem readable_tagged {tag field : String} {payload : Json} (hfield : field ≠ ipcTypeKey)
    (h : payload.readable = true) : (tagged tag field payload).readable = true := by
  simp [tagged, Json.readable, Json.readableEntries, hfield.symm, h]

theorem mem_keys_encodeMapping {entries : List (IpcValue D P T × IpcValue D P T)} (h : plainMapping entries = true)
    {key : String} (hkey : key ∈ (R.encodeMapping entries).map Prod.fst) : .str key ∈ entries.map Prod.fst := by
  induction entries with
  | nil => cases hkey
  | cons e entries ih =>
    obtain ⟨k, v⟩ := e
    rw [plainMapping, List.all_cons, Bool.and_eq_true] at h
    obtain ⟨s, hs, -⟩ := (Option.any_eq_true ..).1 h.1
    rw [encodeMapping, List.map_cons, List.mem_cons] at hkey
    rw [List.map_cons, List.mem_cons]
    rcases hkey with rfl | hkey
    · have hs : keyText k = some s := hs
      rw [hs]
      exact .inl (keyText_eq_some hs).symm
    · exact .inr (ih h.2 hkey)

theorem nodup_encodeMapping {entries : List (IpcValue D P T × IpcValue D P T)} (h : plainMapping entries = true)
    (hdistinct : (entries.map Prod.fst).Pairwise fun v w => R.eq v w = false) :
    ((R.encodeMapping entries).map Prod.fst).Nodup := by
  induction entries with
  | nil => exact List.nodup_nil
  | cons e entries ih =>
    obtain ⟨k, v⟩ := e
    have hrest := h
    rw [plainMapping, List.all_cons, Bool.and_eq_true] at hrest
    obtain ⟨s, hs, -⟩ := (Option.any_eq_true ..).1 hrest.1
    have hs : keyText k = some s := hs
    obtain ⟨hk, hdistinct⟩ := List.pairwise_cons.1 hdistinct
    rw [encodeMapping, List.map_cons, List.nodup_cons]
    refine ⟨fun hmem => ?_, ih hrest.2 hdistinct⟩
    rw [hs] at hmem
    have heq := hk _ (mem_keys_encodeMapping hrest.2 hmem)
    rw [keyText_eq_some hs] at heq
    have hself := R.eq_str s
    rw [Option.getD_some] at heq
    rw [heq] at hself
    cases hself

mutual
/-- What is written is JSON that can be read. -/
theorem readable_encodeValue : ∀ v : IpcValue D P T, R.Valid v → (R.encodeValue v).readable = true
  | .none, _ | .bool _, _ | .int _, _ | .str _, _ => rfl
  | .float _, h => h
  | .scalar s, _ => by
    rw [encodeValue]
    cases s with
    | contractingDecimal d =>
      rw [IpcScalar.cls, encodeTagged_value "contracting_decimal" (by decide)]
      exact readable_tagged (by decide) rfl
    | decimal d =>
      rw [IpcScalar.cls, encodeTagged_value "decimal" (by decide)]
      exact readable_tagged (by decide) rfl
    | datetime t =>
      rw [IpcScalar.cls, encodeTagged_value "datetime" (by decide)]
      exact readable_tagged (by decide) rfl
    | bytes b =>
      rw [IpcScalar.cls, encodeTagged_value "bytes" (by decide)]
      exact readable_tagged (by decide) rfl
  | .collection cls items, h => by
    obtain ⟨tag, build, hmem, -, -, -⟩ := collectionDecoder_yielded h.1
    rw [encodeValue, encodeTagged_items tag hmem]
    exact readable_tagged (by decide) (readable_encodeItems items h.2)
  | .list items, h => by
    rw [encodeValue]
    exact readable_encodeItems items h
  | .dict entries, h => by
    rw [encodeValue]
    split
    · rename_i hplain
      rw [Json.readable, Bool.and_eq_true]
      exact ⟨decide_eq_true (nodup_encodeMapping hplain h.1.1), readable_encodeMapping entries h.2⟩
    · exact readable_tagged (by decide) (readable_encodePairs entries h.2)

theorem readable_encodeItems : ∀ items : List (IpcValue D P T), R.ValidItems items →
    Json.readableItems (R.encodeItems items) = true
  | [], _ => rfl
  | v :: rest, h => by
    rw [encodeItems, Json.readableItems, readable_encodeValue v h.1, readable_encodeItems rest h.2]
    rfl

theorem readable_encodePairs : ∀ entries : List (IpcValue D P T × IpcValue D P T), R.ValidEntries entries →
    Json.readableItems (R.encodePairs entries) = true
  | [], _ => rfl
  | (k, v) :: rest, h => by
    rw [encodePairs, Json.readableItems, Json.readable, Json.readableItems, Json.readableItems, Json.readableItems,
      readable_encodeValue k h.1, readable_encodeValue v h.2.1, readable_encodePairs rest h.2.2]
    rfl

theorem readable_encodeMapping : ∀ entries : List (IpcValue D P T × IpcValue D P T), R.ValidEntries entries →
    Json.readableEntries (R.encodeMapping entries) = true
  | [], _ => rfl
  | (k, v) :: rest, h => by
    rw [encodeMapping, Json.readableEntries, readable_encodeValue v h.2.1, readable_encodeMapping rest h.2.2]
    rfl
end

end IpcRuntime

/-- `loads(dumps(v))` is `v`, for every value that Python can hold. -/
theorem ipc_round_trip (R : IpcRuntime D P T) (v : IpcValue D P T) (h : R.Valid v) : R.loads (R.dumps v) = .ok v := by
  have htext : decodeUtf8 (R.dumps v) = .ok (String.ofList (dumps (R.encodeValue v))) := decodeUtf8_eq_ok.2 rfl
  rw [IpcRuntime.loads, htext]
  show XianAbci.loads (String.ofList (dumps (R.encodeValue v))).toList >>= R.decodeValue = _
  rw [String.toList_ofList, loads_dumps (IpcRuntime.readable_encodeValue v h)]
  exact IpcRuntime.decodeValue_encodeValue v h

/-- A runtime with one value of each scalar class, and as wrapper sets those with one item. -/
def IpcRuntime.small : IpcRuntime Unit Unit Unit where
  isInstance c c' := c = c' ∨ c = .decimalTuple ∧ c' = .tuple ∨ c = .contractingDecimal ∧ c' = .decimal
  isInstance_self c := by simp
  isInstance_earlier c c' := by cases c <;> cases c' <;> decide
  decimalStr _ := "1.5"
  decimalOf j := if j = .str "1.5" then .ok () else .error (.typeError "decimal")
  decimalOf_str _ := rfl
  rawStr _ := "1E+2"
  rawOf j := if j = .str "1E+2" then .ok () else .error (.typeError "decimal")
  rawOf_str _ := rfl
  timeStr _ := "2024-01-02 03:04:05"
  timeOf j := if j = .str "2024-01-02 03:04:05" then .ok () else .error (.typeError "datetime")
  timeOf_str _ := rfl
  eq
    | .str s, .str t => s = t
    | .int i, .int j => i = j
    | _, _ => false
  eq_str _ := decide_eq_true rfl
  hashable
    | .list _ | .dict _ | .collection .set _ | .collection .contractingSet _ => false
    | _ => true
  yields _ items := ∃ v, items = [v]
  wrapper _ items := .ok items
  wrapper_eq _ _ _ := rfl

/-- A dict that looks like a tagged decimal, with a tuple under a number in it. -/
theorem ipc_round_trip_marked :
    IpcRuntime.small.loads (IpcRuntime.small.dumps
      (.dict [(.str "__xian_ipc_type__", .str "decimal"), (.str "value", .str "1.5"),
        (.int 7, .collection .tuple [.scalar (.contractingDecimal ()), .scalar (.bytes [1])])])) =
      .ok (.dict [(.str "__xian_ipc_type__", .str "decimal"), (.str "value", .str "1.5"),
        (.int 7, .collection .tuple [.scalar (.contractingDecimal ()), .scalar (.bytes [1])])]) := by
  refine ipc_round_trip .small _ ⟨⟨?_, ?_⟩, ?_⟩
  · simp [IpcRuntime.small]
  · simp [IpcRuntime.small]
  · simp [IpcRuntime.ValidEntries, IpcRuntime.Valid, IpcRuntime.ValidItems, IpcRuntime.Yielded]

end XianAbci
