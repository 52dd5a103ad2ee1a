import XianAbci.TransactionCodec

/-!
# The format of a transaction (`formatting.py`, `utils/tx.py`)

`checkTxFormatting` compares a decoded transaction with a table of rules; the message that its sender has to
have signed is built from named fields of the payload. The table asks for exactly these fields, so the message
is the text of the whole payload, and equal messages are of equal payloads (`signature_covers_payload`).

`verify_message` of the accounts package and `is_safe_contract_name` of the runtime are parameters.
-/

namespace XianAbci

/-! ### `formatting.py` -/

def minJsonInteger : Int := -2 ^ 63

def maxJsonInteger : Int := 2 ^ 64 - 1

/-- `[0-9a-fA-F]{n}`. -/
def hexIsFormatted (n : Nat) : Json → Bool
  | .str s => s.length = n && s.toList.all fun c => (hexVal c).isSome
  | _ => false

def Json.vkIsFormatted : Json → Bool := hexIsFormatted 64

def signatureIsFormatted : Json → Bool := hexIsFormatted 128

def isAsciiLetter (c : Char) : Bool := 65 ≤ c.toNat ∧ c.toNat ≤ 90 ∨ 97 ≤ c.toNat ∧ c.toNat ≤ 122

/-- `[a-zA-Z][a-zA-Z0-9_]*`. -/
def matchesIdentifier : List Char → Bool
  | [] => false
  | c :: rest => isAsciiLetter c && rest.all fun c => isAsciiLetter c || c.isDigit || c = '_'

def identifierIsFormatted : Json → Bool
  | .str s => matchesIdentifier s.toList
  | _ => false

mutual
def jsonValueIsFormatted : Json → Bool
  | .obj entries => jsonEntriesAreFormatted entries
  | .arr items => jsonItemsAreFormatted items
  | .int i => minJsonInteger ≤ i ∧ i ≤ maxJsonInteger
  | .float _ => false
  | .null => true
  | .bool _ => true
  | .str _ => true

def jsonItemsAreFormatted : List Json → Bool
  | [] => true
  | v :: rest => jsonValueIsFormatted v && jsonItemsAreFormatted rest

def jsonEntriesAreFormatted : List (String × Json) → Bool
  | [] => true
  | (_, v) :: rest => jsonValueIsFormatted v && jsonEntriesAreFormatted rest
end

def kwargsAreFormatted : Json → Bool
  | .obj entries => (entries.all fun p => identifierIsFormatted (.str p.1)) && jsonValueIsFormatted (.obj entries)
  | _ => false

/-- A `bool` is not of type `int`. -/
def numberIsFormatted : Json → Bool
  | .int i => 0 ≤ i ∧ i ≤ maxJsonInteger
  | _ => false

def cidIdFormated : Json → Bool
  | .str _ => true
  | _ => false

/-- A check of a value, or a table of checks of its entries. -/
inductive Rule
  | check (rule : Json → Bool)
  | fields (rules : List (String × Rule))

def transactionPayloadRules : List (String × Rule) := [
  ("sender", .check Json.vkIsFormatted),
  ("nonce", .check numberIsFormatted),
  ("chi_supplied", .check numberIsFormatted),
  ("contract", .check identifierIsFormatted),
  ("function", .check identifierIsFormatted),
  ("kwargs", .check kwargsAreFormatted),
  ("chain_id", .check cidIdFormated)]

def transactionMetadataRules : List (String × Rule) := [("signature", .check signatureIsFormatted)]

def transactionRules : List (String × Rule) :=
  [("metadata", .fields transactionMetadataRules), ("payload", .fields transactionPayloadRules)]

/-! ### The checks of `utils/tx.py` -/

/-- `key in d`. -/
def Json.hasKey (key : String) : Json → Except PyErr Bool
  | .obj entries => .ok (entries.lookup key).isSome
  | .arr items => .ok (items.any (· == .str key))
  | .str s => .ok (decide (key.toList <:+: s.toList))
  | _ => .error (.typeError "argument is not iterable")

/-- `d[key]`. -/
def Json.getItem (key : String) : Json → Except PyErr Json
  | .obj entries => match entries.lookup key with
    | some v => .ok v
    | none => .error (.keyError key)
  | .arr _ => .error (.typeError "list indices must be integers or slices, not str")
  | .str _ => .error (.typeError "string indices must be integers, not 'str'")
  | _ => .error (.typeError "object is not subscriptable")

/-- The items of a list one after another, up to the first that fails. -/
def allItems (f : Json → Except PyErr Bool) : List Json → Except PyErr Bool
  | [] => .ok true
  | a :: rest => do if ← f a then allItems f rest else return false

mutual
/-- The loop over the table. -/
def recurseFields : List (String × Rule) → Json → Except PyErr Bool
  | [], _ => .ok true
  | (key, subrule) :: rest, d => do
    if ← d.hasKey key then
      if ← recurseEntry subrule (← d.getItem key) then recurseFields rest d else return false
    else return false

def recurseEntry : Rule → Json → Except PyErr Bool
  | .check rule, arg => .ok (rule arg)
  | .fields rules, .obj entries => recurseFields rules (.obj entries)
  | .fields rules, .arr items => allItems (recurseFields rules) items
  | .fields _, _ => .ok false
end

def recurseRules (d : Json) : Rule → Except PyErr Bool
  | .check rule => .ok (rule d)
  | .fields rules => recurseFields rules d

def dictHasKeys (d : List (String × Json)) (keys : List String) : Bool :=
  (d.all fun p => keys.contains p.1) && keys.all fun key => (d.lookup key).isSome

def checkFormat (d : List (String × Json)) (rule : List (String × Rule)) : Except PyErr Unit := do
  require (dictHasKeys d (rule.map Prod.fst)) (.transactionException "Transaction has unexpected or missing keys")
  require (← recurseRules (.obj d) (.fields rule))
    (.transactionException "Transaction has wrongly formatted dictionary")

/-- An entry that has to be a dictionary with something in it. -/
def dictOf (message : String) : Option Json → Except PyErr (List (String × Json))
  | some (.obj (p :: entries)) => .ok (p :: entries)
  | _ => .error (.transactionException message)

def requiredPayloadKeys : List String := ["sender", "contract", "function", "chi_supplied"]

def checkRequiredKey (payload : List (String × Json)) (key : String) : Except PyErr Unit :=
  match payload.lookup key with
  | none | some .null | some (.str "") => .error (.transactionException s!"Payload key '{key}' is missing")
  | some _ => .ok ()

def checkTxKeys (tx : List (String × Json)) : Except PyErr Unit := do
  let metadata ← dictOf "Metadata is missing" (tx.lookup "metadata")
  require (metadata.length = 1) (.transactionException "Wrong number of metadata entries")
  let payload ← dictOf "Payload is missing" (tx.lookup "payload")
  require (payload.all fun p => (transactionPayloadRules.map Prod.fst).contains p.1)
    (.transactionException "Payload keys are not valid")
  requiredPayloadKeys.forM (checkRequiredKey payload)

def checkTxFormatting : Json → Except PyErr Unit
  | .obj tx => do
    checkTxKeys tx
    checkFormat tx transactionRules
  | _ => .error (.attributeError "object has no attribute 'get'")

/-! ### The signed message -/

def formatDictionary (d : Json) : Json := d.sorted

def canonicalJson (value : Json) : String := String.ofList (dumpsWith escapeUnicode (formatDictionary value))

/-- `d.get(key, default)`. -/
def Json.getD (d : Json) (key : String) (default : Json) : Except PyErr Json :=
  match d with
  | .obj entries => .ok ((entries.lookup key).getD default)
  | _ => .error (.attributeError "object has no attribute 'get'")

def unpackTransaction (tx : Json) : Except PyErr (Json × Json × String) := do
  let metadata ← tx.getItem "metadata"
  let _timestamp ← metadata.getD "timestamp" .null
  let payload ← tx.getItem "payload"
  let chainId ← payload.getD "chain_id" (.str "")
  let sender ← payload.getItem "sender"
  let signature ← metadata.getItem "signature"
  let txForVerification := Json.obj [
    ("chain_id", chainId),
    ("contract", ← payload.getItem "contract"),
    ("function", ← payload.getItem "function"),
    ("kwargs", ← payload.getItem "kwargs"),
    ("nonce", ← payload.getItem "nonce"),
    ("sender", ← payload.getItem "sender"),
    ("chi_supplied", ← payload.getItem "chi_supplied")]
  return (sender, signature, canonicalJson txForVerification)

section Static

variable (verify : Json → String → Json → Bool) (isSafeContractName : Json → Bool)

/-- A name that is not a string has no prefix; the runtime's check refuses it first. -/
def contractNameIsFormatted (name : Json) : Except PyErr Bool :=
  if isSafeContractName name then match name with
    | .str s => .ok (decide ("con_".toList <+: s.toList))
    | _ => .error (.attributeError "object has no attribute 'startswith'")
  else .ok false

def checkContractName (contract function name : Json) : Except PyErr Unit := do
  if contract = .str "submission" ∧ function = .str "submit_contract" then
    require (← contractNameIsFormatted isSafeContractName name)
      (.transactionException "Transaction contract name is invalid")

def validateTransactionStatic (tx : Json) (chainId : String) : Except PyErr Unit := do
  checkTxFormatting tx
  let (sender, signature, payload) ← unpackTransaction tx
  require (verify sender payload signature) (.transactionException "Bad signature")
  let txPayload ← tx.getItem "payload"
  let txChainId ← txPayload.getD "chain_id" (.str "")
  require (txChainId = .str chainId) (.transactionException "Wrong chain_id")
  let name ← (← txPayload.getItem "kwargs").getD "name" .null
  checkContractName isSafeContractName (← txPayload.getItem "contract") (← txPayload.getItem "function") name

end Static

/-! ### What the checks say -/

theorem getItem_obj {entries : List (String × Json)} {key : String} {v : Json}
    (h : (Json.obj entries).getItem key = .ok v) : entries.lookup key = some v := by
  unfold Json.getItem at h
  dsimp only at h
  split at h
  · rename_i hv
    cases h
    exact hv
  · cases h

theorem recurseFields_mem {entries : List (String × Json)} {rules : List (String × Rule)}
    (h : recurseFields rules (.obj entries) = .ok true) :
    ∀ p ∈ rules, ∃ v, entries.lookup p.1 = some v ∧ recurseEntry p.2 v = .ok true := by
  induction rules with
  | nil => intro p hp; cases hp
  | cons p rest ih =>
    obtain ⟨key, subrule⟩ := p
    rw [recurseFields] at h
    obtain ⟨present, -, h⟩ := bind_eq_ok.1 h
    split at h
    · obtain ⟨v, hv, h⟩ := bind_eq_ok.1 h
      obtain ⟨passed, hpassed, h⟩ := bind_eq_ok.1 h
      split at h
      · rename_i hp
        rw [hp] at hpassed
        exact List.forall_mem_cons.2 ⟨⟨v, getItem_obj hv, hpassed⟩, ih h⟩
      · cases h
    · cases h

theorem dictOf_eq_ok {message : String} {v : Option Json} {entries : List (String × Json)}
    (h : dictOf message v = .ok entries) : v = some (.obj entries) := by
  unfold dictOf at h
  split at h
  · cases h
    rfl
  · cases h

/-- An accepted transaction has a signature and a payload with the fields of the table and no others. -/
theorem checkTxFormatting_eq_ok {j : Json} (h : checkTxFormatting j = .ok ()) : ∃ tx metadata payload,
    j = .obj tx ∧ (∀ p ∈ tx, p.1 ∈ transactionRules.map Prod.fst) ∧
    tx.lookup "metadata" = some (.obj metadata) ∧ tx.lookup "payload" = some (.obj payload) ∧ metadata.length = 1 ∧
    (∃ signature, metadata.lookup "signature" = some signature ∧ signatureIsFormatted signature = true) ∧
    (∀ p ∈ payload, p.1 ∈ transactionPayloadRules.map Prod.fst) ∧
    ∀ key ∈ transactionPayloadRules.map Prod.fst, ∃ v, payload.lookup key = some v := by
  unfold checkTxFormatting at h
  split at h
  · rename_i tx
    obtain ⟨⟨⟩, hkeys, hformat⟩ := bind_eq_ok.1 h
    unfold checkTxKeys at hkeys
    obtain ⟨metadata, hmetadata, hkeys⟩ := bind_eq_ok.1 hkeys
    obtain ⟨⟨⟩, hlength, hkeys⟩ := bind_eq_ok.1 hkeys
    obtain ⟨payload, hpayload, hkeys⟩ := bind_eq_ok.1 hkeys
    obtain ⟨u, hvalid, -⟩ := bind_eq_ok.1 hkeys
    have hmetadata := dictOf_eq_ok hmetadata
    have hpayload := dictOf_eq_ok hpayload
    have hnames : ∀ p ∈ payload, p.1 ∈ transactionPayloadRules.map Prod.fst := by
      intro p hp
      exact List.contains_iff_mem.1 (List.all_eq_true.1 (require_eq_ok.1 hvalid) p hp)
    unfold checkFormat at hformat
    obtain ⟨⟨⟩, hsections, hformat⟩ := bind_eq_ok.1 hformat
    have hsections : ∀ p ∈ tx, p.1 ∈ transactionRules.map Prod.fst := by
      intro p hp
      have hall := (Bool.and_eq_true_iff.1 (require_eq_ok.1 hsections)).1
      exact List.contains_iff_mem.1 (List.all_eq_true.1 hall p hp)
    obtain ⟨passed, hpassed, hformat⟩ := bind_eq_ok.1 hformat
    rw [require_eq_ok.1 hformat, recurseRules] at hpassed
    have hrules := recurseFields_mem hpassed
    have hbelow : ∀ {key rules entries}, (key, Rule.fields rules) ∈ transactionRules →
        tx.lookup key = some (.obj entries) → recurseFields rules (.obj entries) = .ok true := by
      intro key rules entries hmem hlookup
      obtain ⟨v, hv, hpassed⟩ := hrules _ hmem
      obtain rfl := Option.some.inj (hv.symm.trans hlookup)
      exact hpassed
    have hsignature := recurseFields_mem (hbelow (List.mem_cons_self ..) hmetadata) _ (List.mem_cons_self ..)
    have hfields := recurseFields_mem (hbelow (List.mem_cons_of_mem _ (List.mem_cons_self ..)) hpayload)
    refine ⟨tx, metadata, payload, rfl, hsections, hmetadata, hpayload, require_eq_ok.1 hlength,
      hsignature.imp fun _ h => ⟨h.1, Except.ok.inj h.2⟩, hnames, fun key hkey => ?_⟩
    obtain ⟨r, hr, rfl⟩ := List.mem_map.1 hkey
    exact (hfields r hr).imp fun _ h => h.1
  · cases h

/-! ### The message is the text of the payload -/

theorem sortedEntries_eq_map (l : List (String × Json)) :
    Json.sortedEntries l = l.map fun p => (p.1, p.2.sorted) := by
  induction l with
  | nil => rfl
  | cons p rest ih => rw [Json.sortedEntries, ih, List.map_cons]

/-- Entries with different keys have one sorted order. -/
theorem sortEntries_eq_of_perm {l m : List (String × Json)} (h : l.Perm m) (hkeys : (l.map Prod.fst).Nodup) :
    sortEntries l = sortEntries m := by
  have hperm : (sortEntries l).Perm (sortEntries m) := (sortEntries_perm l).trans (h.trans (sortEntries_perm m).symm)
  refine hperm.eq_of_pairwise (fun p q hp hq hpq hqp => ?_) (keysSorted_sortEntries l) (keysSorted_sortEntries m)
  have hp := (sortEntries_perm l).mem_iff.1 hp
  have hq := h.mem_iff.2 ((sortEntries_perm m).mem_iff.1 hq)
  exact List.inj_on_of_nodup_map hkeys hp hq (le_antisymm hpq hqp)

theorem sorted_obj_of_perm {l m : List (String × Json)} (h : l.Perm m) (hkeys : (l.map Prod.fst).Nodup) :
    (Json.obj l).sorted = (Json.obj m).sorted := by
  have hperm : (Json.sortedEntries l).Perm (Json.sortedEntries m) := by
    rw [sortedEntries_eq_map, sortedEntries_eq_map]
    exact h.map _
  rw [Json.sorted, Json.sorted, sortEntries_eq_of_perm hperm (by rw [map_fst_sortedEntries]; exact hkeys)]

/-- A payload with the fields of the table and no others is signed as a whole. -/
theorem unpackTransaction_eq {tx metadata payload : List (String × Json)} {signature : Json}
    (hmetadata : tx.lookup "metadata" = some (.obj metadata)) (hpayload : tx.lookup "payload" = some (.obj payload))
    (hsignature : metadata.lookup "signature" = some signature)
    (hnames : ∀ p ∈ payload, p.1 ∈ transactionPayloadRules.map Prod.fst)
    (hfields : ∀ key ∈ transactionPayloadRules.map Prod.fst, ∃ v, payload.lookup key = some v)
    (hkeys : (payload.map Prod.fst).Nodup) :
    ∃ sender, payload.lookup "sender" = some sender ∧
      unpackTransaction (.obj tx) = .ok (sender, signature, canonicalJson (.obj payload)) := by
  obtain ⟨sender, hsender⟩ := hfields "sender" (by decide)
  obtain ⟨nonce, hnonce⟩ := hfields "nonce" (by decide)
  obtain ⟨chi, hchi⟩ := hfields "chi_supplied" (by decide)
  obtain ⟨contract, hcontract⟩ := hfields "contract" (by decide)
  obtain ⟨function, hfunction⟩ := hfields "function" (by decide)
  obtain ⟨kwargs, hkwargs⟩ := hfields "kwargs" (by decide)
  obtain ⟨chainId, hchain⟩ := hfields "chain_id" (by decide)
  set signed : List (String × Json) := [("chain_id", chainId), ("contract", contract), ("function", function),
    ("kwargs", kwargs), ("nonce", nonce), ("sender", sender), ("chi_supplied", chi)] with hsigned
  have hsignedKeys : (signed.map Prod.fst).Nodup := by
    show ["chain_id", "contract", "function", "kwargs", "nonce", "sender", "chi_supplied"].Nodup
    decide
  have hmem : ∀ {k v}, (k, v) ∈ payload ↔ payload.lookup k = some v := PyDict.mem_items_iff (d := ⟨payload, hkeys⟩)
  have hsub : ∀ p ∈ signed, p ∈ payload := by
    simp only [hsigned, List.forall_mem_cons, hmem]
    exact ⟨hchain, hcontract, hfunction, hkwargs, hnonce, hsender, hchi, fun p hp => absurd hp List.not_mem_nil⟩
  have hperm : payload.Perm signed := by
    refine (List.perm_ext_iff_of_nodup (.of_map _ hkeys) (.of_map _ hsignedKeys)).2 fun p => ⟨fun hp => ?_, hsub p⟩
    obtain ⟨k, v⟩ := p
    -- the key is one of the seven, and the payload has one value for it
    have hk : k ∈ signed.map Prod.fst := by
      have := hnames _ hp
      simp only [transactionPayloadRules, List.map_cons, List.map_nil, List.mem_cons, List.not_mem_nil] at this
      simp only [hsigned, List.map_cons, List.map_nil, List.mem_cons, List.not_mem_nil]
      tauto
    obtain ⟨q, hq, rfl⟩ := List.mem_map.1 hk
    have := (hmem.1 hp).symm.trans (hmem.1 (hsub q hq))
    rw [Option.some.inj this]
    exact hq
  refine ⟨sender, hsender, ?_⟩
  rw [canonicalJson, formatDictionary, sorted_obj_of_perm hperm hkeys]
  simp only [unpackTransaction, Json.getItem, Json.getD, hmetadata, hpayload, hsignature, hsender, hnonce, hchi, hcontract,
    hfunction, hkwargs, hchain, Option.getD_some, pure, Except.pure, bind, Except.bind]
  rfl

/-- The payload of a decoded transaction is within the limits and sorted, as the transaction is. -/
theorem decoded_payload {raw : Bytes} {entries payload : List (String × Json)} {payloadText : String}
    (hdecode : decodeTransactionBytes raw = .ok (.obj entries, payloadText))
    (hpayload : entries.lookup "payload" = some (.obj payload)) :
    (∃ n < maxCanonicalJsonDepth, (Json.obj payload).codable n = true) ∧ (Json.obj payload).sorted = .obj payload ∧
      payloadText = String.ofList (dumpsWith escapeUnicode (.obj payload)) := by
  obtain ⟨hcodable, hsorted, payload', hpayload', htext⟩ := decoded_sorted hdecode
  rw [payloadOf, hpayload] at hpayload'
  obtain rfl := Except.ok.inj hpayload'
  rw [Json.codable, Bool.and_eq_true, decide_eq_true_eq] at hcodable
  have hmem : ("payload", Json.obj payload) ∈ entries := PyDict.mem_items_iff (d := ⟨entries, hcodable.1⟩).2 hpayload
  obtain ⟨m, hm, hbelow⟩ := codableEntries_iff.1 hcodable.2 _ hmem
  have hsortedPayload : (Json.obj payload).sorted = .obj payload := by
    rw [Json.sorted, Json.obj.injEq] at hsorted
    have hmem' : ("payload", Json.obj payload) ∈ Json.sortedEntries entries := by
      rw [← (sortEntries_perm _).mem_iff, hsorted]
      exact hmem
    exact sorted_of_mem_sortedEntries entries _ hmem'
  obtain ⟨hwritten, -, -⟩ := canonicalJsonText_of_codable hbelow (by omega)
  rw [hsortedPayload] at hwritten
  exact ⟨⟨m, by omega, hbelow⟩, hsortedPayload, (Except.ok.inj (hwritten.symm.trans htext)).symm⟩

/-- The payload of a decoded transaction that passes the checks, with the message signed for it. -/
theorem signed_payload {raw : Bytes} {tx : Json} {payloadText : String}
    (hdecode : decodeTransactionBytes raw = .ok (tx, payloadText)) (haccepted : checkTxFormatting tx = .ok ()) :
    ∃ sender signature payload, payloadOf tx = .ok payload ∧
      unpackTransaction tx = .ok (sender, signature, canonicalJson payload) ∧ canonicalJson payload = payloadText ∧
      loads payloadText.toList = .ok payload := by
  obtain ⟨entries, metadata, payload, rfl, -, hmetadata, hpayload, -, ⟨signature, hsignature, -⟩, hnames, hfields⟩ :=
    checkTxFormatting_eq_ok haccepted
  have hpayloadOf : payloadOf (.obj entries) = .ok (.obj payload) := by rw [payloadOf, hpayload]
  obtain ⟨⟨n, hn, hcodable⟩, hsorted, rfl⟩ := decoded_payload hdecode hpayload
  obtain ⟨-, -, hread⟩ := canonicalJsonText_of_codable hcodable hn.le
  rw [hsorted] at hread
  have hkeys : (payload.map Prod.fst).Nodup := by
    rw [Json.codable, Bool.and_eq_true, decide_eq_true_eq] at hcodable
    exact hcodable.1
  obtain ⟨sender, -, hunpack⟩ := unpackTransaction_eq hmetadata hpayload hsignature hnames hfields hkeys
  refine ⟨sender, signature, .obj payload, hpayloadOf, hunpack, ?_, ?_⟩
  · rw [canonicalJson, formatDictionary, hsorted]
  · rw [String.toList_ofList, hread]

/-- The message that the sender of an accepted transaction has to have signed is the canonical text of the
whole payload, and two accepted transactions with one message have one payload. -/
theorem signature_covers_payload {raw : Bytes} {tx : Json} {payloadText : String}
    (hdecode : decodeTransactionBytes raw = .ok (tx, payloadText)) (haccepted : checkTxFormatting tx = .ok ()) :
    ∃ sender signature payload, payloadOf tx = .ok payload ∧
      unpackTransaction tx = .ok (sender, signature, canonicalJson payload) ∧ canonicalJson payload = payloadText ∧
      (∀ verify isSafeContractName chainId,
        validateTransactionStatic verify isSafeContractName tx chainId = .ok () →
        verify sender (canonicalJson payload) signature = true) ∧
      ∀ raw' tx' payloadText', decodeTransactionBytes raw' = .ok (tx', payloadText') →
        checkTxFormatting tx' = .ok () →
        ∀ sender' signature', unpackTransaction tx' = .ok (sender', signature', canonicalJson payload) →
        payloadOf tx' = .ok payload := by
  obtain ⟨sender, signature, payload, hpayload, hunpack, htext, hread⟩ := signed_payload hdecode haccepted
  refine ⟨sender, signature, payload, hpayload, hunpack, htext, ?_, ?_⟩
  · intro verify isSafeContractName chainId h
    unfold validateTransactionStatic at h
    obtain ⟨-, -, h⟩ := bind_eq_ok.1 h
    rw [hunpack] at h
    obtain ⟨unpacked, hunpacked, h⟩ := bind_eq_ok.1 h
    cases hunpacked
    obtain ⟨u, hverify, -⟩ := bind_eq_ok.1 h
    exact require_eq_ok.1 hverify
  · intro raw' tx' payloadText' hdecode' haccepted' sender' signature' hunpack'
    obtain ⟨_, _, payload', hpayload', hunpacked, htext', hread'⟩ := signed_payload hdecode' haccepted'
    have hmessage := congrArg (fun p => p.2.2) (Except.ok.inj (hunpack'.symm.trans hunpacked))
    -- the message is read back as the payload
    have hsame : payloadText' = payloadText := htext'.symm.trans (hmessage.symm.trans htext)
    rw [hsame] at hread'
    rw [hpayload', Except.ok.inj (hread.symm.trans hread')]

/-! ### A signed transfer -/

def signedPayload : Json := .obj [
  ("chain_id", .str "xian-1"),
  ("chi_supplied", .int 100),
  ("contract", .str "currency"),
  ("function", .str "transfer"),
  ("kwargs", .obj [("amount", .int 5), ("memo", .str "☃"), ("to", .str "bob")]),
  ("nonce", .int 0),
  ("sender", .str (String.ofList (List.replicate 64 'a')))]

def signedTx : Json := .obj [
  ("metadata", .obj [("signature", .str (String.ofList (List.replicate 128 'F')))]), ("payload", signedPayload)]

theorem signature_covers_payload_transfer : ∃ raw payloadText,
    decodeTransactionBytes raw = .ok (signedTx, payloadText) ∧ checkTxFormatting signedTx = .ok () ∧
    ∃ sender signature, unpackTransaction signedTx = .ok (sender, signature, canonicalJson signedPayload) := by
  have hcodable : signedTx.codable maxCanonicalJsonDepth = true := by decide +kernel
  have hsorted : signedTx.sorted = signedTx := by decide +kernel
  have hpayloadCodable : signedPayload.codable 127 = true := by decide +kernel
  have haccepted : checkTxFormatting signedTx = .ok () := by decide +kernel
  obtain ⟨htext, -, hread⟩ := canonicalJsonText_of_codable hcodable le_rfl
  obtain ⟨hpayloadText, -, -⟩ := canonicalJsonText_of_codable hpayloadCodable (by decide)
  rw [hsorted] at htext hread
  have hdecode := decodeTransactionBytes_eq_ok.2 ⟨_, _, signedPayload, rfl, bytesFromHex_bytesHex _,
    by rw [String.toList_ofList]; exact hread, htext, rfl, hpayloadText⟩
  obtain ⟨sender, signature, payload, hpayload, hunpack, -⟩ := signature_covers_payload hdecode haccepted
  obtain rfl : signedPayload = payload := Except.ok.inj hpayload
  exact ⟨_, _, hdecode, haccepted, sender, signature, hunpack⟩

end XianAbci
