import XianAbci.ExecutionPolicy
import XianAbci.Lib.StableSort
import XianAbci.StatePatches
import XianAbci.TransactionCodec

/-!
# Patch bundles (`utils/state_patches.py`)

A bundle is a JSON file. Loading checks its header and its changes one after the other, and hashes the payload
with the changes in the order of their keys; the bundle itself keeps them in the order of the file.
-/

namespace XianAbci
open StableSort

/-! ### Documents -/

mutual
/-- What `json.loads` returns: no key twice in an object. A float is carried by the text `json.dumps` writes. -/
def isDocument : Value → Bool
  | .dict entries => (entries.map Prod.fst).Nodup && isDocumentEntries entries
  | .list items => isDocumentItems items
  | .float repr => isFloatText repr
  | .none => true
  | .bool _ => true
  | .int _ => true
  | .str _ => true
  | _ => false

def isDocumentItems : List Value → Bool
  | [] => true
  | v :: rest => isDocument v && isDocumentItems rest

def isDocumentEntries : List (String × Value) → Bool
  | [] => true
  | (_, v) :: rest => isDocument v && isDocumentEntries rest
end

mutual
theorem isJson_of_isDocument : ∀ v, isDocument v = true → isJson v = true
  | .dict entries, h => by
    rw [isDocument, Bool.and_eq_true] at h
    rw [isJson]
    exact isJsonEntries_of_isDocument entries h.2
  | .list items, h => by
    rw [isDocument] at h
    rw [isJson]
    exact isJsonItems_of_isDocument items h
  | .none, _ | .bool _, _ | .int _, _ | .float _, _ | .str _, _ => rfl
  | .decimal _, h | .pyDecimal _ _, h | .bytes _, h | .datetime _, h | .pyDatetime _, h | .set _, h
  | .exception _, h | .object _, h | .tuple _, h => by cases h

theorem isJsonItems_of_isDocument : ∀ l, isDocumentItems l = true → isJsonItems l = true
  | [], _ => rfl
  | v :: rest, h => by
    rw [isDocumentItems, Bool.and_eq_true] at h
    rw [isJsonItems, isJson_of_isDocument v h.1, isJsonItems_of_isDocument rest h.2]
    rfl

theorem isJsonEntries_of_isDocument : ∀ l, isDocumentEntries l = true → isJsonEntries l = true
  | [], _ => rfl
  | (_, v) :: rest, h => by
    rw [isDocumentEntries, Bool.and_eq_true] at h
    rw [isJsonEntries, isJson_of_isDocument v h.1, isJsonEntries_of_isDocument rest h.2]
    rfl
end

theorem isDocumentItems_mem {l : List Value} (h : isDocumentItems l = true) : ∀ v ∈ l, isDocument v = true := by
  induction l with
  | nil => intro v hv; cases hv
  | cons w rest ih =>
    rw [isDocumentItems, Bool.and_eq_true] at h
    intro v hv
    rcases List.mem_cons.1 hv with rfl | hv
    · exact h.1
    · exact ih h.2 v hv

theorem isDocumentEntries_lookup {l : List (String × Value)} (h : isDocumentEntries l = true) {k : String} {v : Value}
    (hv : l.lookup k = some v) : isDocument v = true := by
  induction l with
  | nil => cases hv
  | cons p rest ih =>
    obtain ⟨a, w⟩ := p
    rw [isDocumentEntries, Bool.and_eq_true] at h
    rw [PyDict.lookup_cons_ite] at hv
    split at hv
    · cases hv
      exact h.1
    · exact ih h.2 hv

/-- A document `json.loads` returns. -/
structure Document where
  value : Value
  wellFormed : isDocument value = true
deriving DecidableEq

namespace Document

def ofStr (s : String) : Document := ⟨.str s, rfl⟩

instance : Inhabited Document := ⟨⟨.none, rfl⟩⟩

/-- `d.get(key, default)`. -/
def get (d : Document) (key : String) (default : Document) : Except PyErr Document :=
  match h : d.value with
  | .dict entries => match hv : entries.lookup key with
    | some v => .ok ⟨v, by
      have hd := d.wellFormed
      rw [h, isDocument, Bool.and_eq_true] at hd
      exact isDocumentEntries_lookup hd.2 hv⟩
    | none => .ok default
  | _ => .error (.attributeError "object has no attribute 'get'")

/-- The items of a list. -/
def items? (d : Document) : Option (List Document) :=
  match h : d.value with
  | .list items => some (items.attach.map fun v => ⟨v.1, by
    have hd := d.wellFormed
    rw [h, isDocument] at hd
    exact isDocumentItems_mem hd v.1 v.2⟩)
  | _ => none

end Document

/-! ### Canonical text -/

/-- `_canonical_json`. -/
def canonicalPatchJson (v : Value) : Except PyErr (List Char) := do
  return dumps (← plainJson v).sorted

/-- `text.encode("utf-8")`. -/
def utf8Bytes (text : List Char) : Bytes := text.flatMap String.utf8EncodeChar

/-- `_hash_text`. -/
def hashText (text : List Char) : String := sha256Hex (utf8Bytes text)

/-! ### Changes -/

/-- A change of a bundle, or one recorded for it. -/
structure BundleChange where
  key : String
  value : Document
  comment : Document
deriving DecidableEq

/-- `_canonical_change`. -/
def canonicalChange (change : BundleChange) : Value :=
  .dict [("comment", change.comment.value), ("key", .str change.key), ("value", change.value.value)]

def canonicalChanges (changes : List BundleChange) : Value :=
  .list ((sortBy BundleChange.key changes).map canonicalChange)

/-- The keys a bundle may set. -/
structure PatchableKey (key : String) : Prop where
  nonempty : key ≠ ""
  policy : key ≠ executionPolicyKey
  code : ¬ ".__code__".toList <:+ key.toList
  vmIr : ¬ ("." ++ xianVmV1IrKey).toList <:+ key.toList

/-- The changes of a bundle that loads, in the order of the file. -/
structure BundleChanges where
  items : List BundleChange
  distinct : (items.map BundleChange.key).Nodup
  patchable : ∀ change ∈ items, PatchableKey change.key

def BundleChanges.empty : BundleChanges := ⟨[], List.nodup_nil, fun _ h => by cases h⟩

/-- One turn of the loop over the changes of a file. -/
def BundleChanges.normalize (path : String) (seen : BundleChanges) (raw : Document) : Except PyErr BundleChanges :=
  match raw.value with
  | .dict _ => do
    let rawKey ← raw.get "key" default
    let value ← raw.get "value" default
    let comment ← raw.get "comment" (.ofStr "")
    match rawKey.value with
    | .str key =>
      if hempty : key = "" then .error (.valueError (path ++ " contains a patch change with no key"))
      else if hseen : key ∈ seen.items.map BundleChange.key then
        .error (.valueError (path ++ " contains duplicate key '" ++ key ++ "'"))
      else if hpolicy : key = executionPolicyKey then
        .error (.valueError (path ++ " cannot patch the protected execution policy"))
      else if hcode : ".__code__".toList <:+ key.toList then
        .error (.valueError (path ++ " cannot patch __code__ directly; use __source__"))
      else if hvmIr : ("." ++ xianVmV1IrKey).toList <:+ key.toList then
        .error (.valueError (path ++ " cannot patch " ++ xianVmV1IrKey ++ " directly; use __source__"))
      else .ok {
        items := seen.items ++ [⟨key, value, comment⟩]
        distinct := by
          rw [List.map_append, List.nodup_append]
          refine ⟨seen.distinct, List.nodup_singleton _, fun a ha b hb => ?_⟩
          rintro rfl
          rw [List.mem_singleton.1 hb] at ha
          exact hseen ha
        patchable := fun change hchange => by
          rcases List.mem_append.1 hchange with h | h
          · exact seen.patchable change h
          · rw [List.mem_singleton.1 h]
            exact ⟨hempty, hpolicy, hcode, hvmIr⟩ }
    | _ => .error (.valueError (path ++ " contains a patch change with no key"))
  | _ => .error (.valueError (path ++ " contains a non-object patch change"))

def BundleChanges.read (path : String) (changes : Document) : Except PyErr BundleChanges :=
  match changes.items? with
  | some (change :: rest) => (change :: rest).foldlM (BundleChanges.normalize path) .empty
  | _ => .error (.valueError (path ++ " must define a non-empty changes list"))

/-! ### Bundles -/

def statePatchBundleVersion : Int := 1

def isPatchIdLetter (c : Char) : Bool := 'a' ≤ c && c ≤ 'z' || c.isDigit

/-- `PATCH_ID_PATTERN.fullmatch(s)`. -/
def isPatchId (s : String) : Bool :=
  match s.toList with
  | [] => false
  | c :: rest =>
    isPatchIdLetter c && rest.all (fun c => isPatchIdLetter c || c == '_' || c == '-') &&
      2 ≤ rest.length && rest.length ≤ 127

/-- A text with a letter in it. -/
def nonemptyText (v : Value) (e : PyErr) : Except PyErr String :=
  match v with
  | .str s => if s = "" then .error e else .ok s
  | _ => .error e

def optionalText (v : Value) (e : PyErr) : Except PyErr (Option String) :=
  if v = .none then .ok none else some <$> nonemptyText v e

/-- The payload that is hashed. -/
structure BundlePayload where
  version : Document
  patchId : String
  activationHeight : Document
  governanceContract : String
  chainId : Option String
  summary : Document
  uri : Document
  changes : BundleChanges

def optionText : Option String → Value
  | none => .none
  | some s => .str s

def BundlePayload.canonical (p : BundlePayload) : Value := .dict [
  ("activation_height", p.activationHeight.value),
  ("chain_id", optionText p.chainId),
  ("changes", canonicalChanges p.changes.items),
  ("governance_contract", .str p.governanceContract),
  ("patch_id", .str p.patchId),
  ("summary", p.summary.value),
  ("uri", p.uri.value),
  ("version", p.version.value)]

/-- `_hash_from_bundle_payload`. -/
def hashFromBundlePayload (p : BundlePayload) : Except PyErr String := do
  return hashText (← canonicalPatchJson p.canonical)

structure StatePatchBundle where
  patchId : String
  activationHeight : Value
  governanceContract : String
  bundleHash : String
  summary : Value
  uri : Value
  chainId : Option String
  changes : BundleChanges
  filePath : String

/-- A bundle file: where it lies, and the document in it. -/
structure BundleFile where
  path : String
  document : Document

section Load

variable (B : Builtins)

/-- The checks of `_load_bundle_file`. -/
def readPayload (governanceContract : String) (file : BundleFile) : Except PyErr BundlePayload := do
  let payload := file.document
  let version ← payload.get "version" default
  require (B.eq version.value (.int statePatchBundleVersion))
    (.valueError (file.path ++ " has unsupported state patch bundle version"))
  let patchId ← nonemptyText (← payload.get "patch_id" default).value (.valueError (file.path ++ " has invalid patch_id"))
  require (isPatchId patchId) (.valueError (file.path ++ " has invalid patch_id"))
  let activationHeight ← payload.get "activation_height" default
  require (∃ i ∈ asInt activationHeight.value, 0 < i)
    (.valueError (file.path ++ " must set a positive activation_height"))
  let governance ← nonemptyText (← payload.get "governance_contract" (.ofStr governanceContract)).value
    (.valueError (file.path ++ " has invalid governance_contract"))
  let chainId ← optionalText (← payload.get "chain_id" default).value
    (.valueError (file.path ++ " has invalid chain_id"))
  let changes ← BundleChanges.read file.path (← payload.get "changes" default)
  return {
    version, patchId, activationHeight, governanceContract := governance, chainId
    summary := ← payload.get "summary" (.ofStr "")
    uri := ← payload.get "uri" (.ofStr "")
    changes }

def loadBundleFile (governanceContract : String) (file : BundleFile) : Except PyErr StatePatchBundle := do
  let payload ← readPayload B governanceContract file
  return {
    patchId := payload.patchId
    activationHeight := payload.activationHeight.value
    governanceContract := payload.governanceContract
    bundleHash := ← hashFromBundlePayload payload
    summary := payload.summary.value
    uri := payload.uri.value
    chainId := payload.chainId
    changes := payload.changes
    filePath := file.path }

end Load

end XianAbci
