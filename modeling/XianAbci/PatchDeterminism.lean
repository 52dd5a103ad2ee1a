import XianAbci.PatchReplay
import XianAbci.ValueBinding

/-!
# What the hash of a bundle determines

The canonical text binds a document up to the order of its objects' entries, so two bundles of one hash have the
same header and the same changes at every key. A key of the file is written once and comes out alike. The VM module
of a contract is written for each of its sources: the last one in the file is kept, and the recorded changes hold
them in the order of the file, which the hash does not see.
-/

namespace XianAbci
open StableSort

/-! ### Canonical text -/

mutual
/-- A document is what `json.loads` makes of a JSON text. -/
theorem exists_json : ∀ v, isDocument v = true → ∃ j, v = jsonValue j ∧ j.floatTexts = true
  | .none, _ => ⟨.null, rfl, rfl⟩
  | .bool b, _ => ⟨.bool b, rfl, rfl⟩
  | .int i, _ => ⟨.int i, rfl, rfl⟩
  | .float repr, h => ⟨.float repr, rfl, h⟩
  | .str s, _ => ⟨.str s, rfl, rfl⟩
  | .list items, h => by
    rw [isDocument] at h
    obtain ⟨js, rfl, hjs⟩ := exists_jsonItems items h
    exact ⟨.arr js, by rw [jsonValue], hjs⟩
  | .dict entries, h => by
    rw [isDocument, Bool.and_eq_true] at h
    obtain ⟨js, rfl, hjs⟩ := exists_jsonEntries entries h.2
    exact ⟨.obj js, by rw [jsonValue], hjs⟩
  | .decimal _, h | .pyDecimal _ _, h | .bytes _, h | .datetime _, h | .pyDatetime _, h | .set _, h
  | .exception _, h | .object _, h | .tuple _, h => by cases h

theorem exists_jsonItems : ∀ l, isDocumentItems l = true → ∃ js, l = jsonValues js ∧ Json.floatTextsItems js = true
  | [], _ => ⟨[], rfl, rfl⟩
  | v :: rest, h => by
    rw [isDocumentItems, Bool.and_eq_true] at h
    obtain ⟨j, rfl, hj⟩ := exists_json v h.1
    obtain ⟨js, rfl, hjs⟩ := exists_jsonItems rest h.2
    exact ⟨j :: js, by rw [jsonValues], by rw [Json.floatTextsItems, hj, hjs]; rfl⟩

theorem exists_jsonEntries : ∀ l, isDocumentEntries l = true →
    ∃ js, l = jsonValueEntries js ∧ Json.floatTextsEntries js = true
  | [], _ => ⟨[], rfl, rfl⟩
  | (k, v) :: rest, h => by
    rw [isDocumentEntries, Bool.and_eq_true] at h
    obtain ⟨j, rfl, hj⟩ := exists_json v h.1
    obtain ⟨js, rfl, hjs⟩ := exists_jsonEntries rest h.2
    exact ⟨(k, j) :: js, by rw [jsonValueEntries], by rw [Json.floatTextsEntries, hj, hjs]; rfl⟩
end

theorem jsonValueEntries_insertEntry (k : String) (j : Json) (l : List (String × Json)) :
    jsonValueEntries (insertEntry k j l) = insertEntry k (jsonValue j) (jsonValueEntries l) := by
  induction l with
  | nil => simp [insertEntry, jsonValueEntries]
  | cons p l ih =>
    obtain ⟨k', j'⟩ := p
    rw [jsonValueEntries, insertEntry, insertEntry]
    split
    · rw [jsonValueEntries, jsonValueEntries]
    · rw [jsonValueEntries, ih]

mutual
/-- Sorting a document and sorting its value come to the same. -/
theorem canonical_jsonValue : ∀ j : Json, canonical (jsonValue j) = jsonValue j.sorted
  | .null | .bool _ | .int _ | .float _ | .str _ => by simp [jsonValue, canonical, Json.sorted]
  | .arr items => by rw [jsonValue, canonical, Json.sorted, jsonValue, canonicalItems_jsonValues items]
  | .obj entries => by rw [jsonValue, canonical, Json.sorted, jsonValue, canonicalEntries_jsonValueEntries entries]

theorem canonicalItems_jsonValues : ∀ l : List Json, canonicalItems (jsonValues l) = jsonValues (Json.sortedItems l)
  | [] => by simp [jsonValues, canonicalItems, Json.sortedItems]
  | j :: rest => by
    rw [jsonValues, canonicalItems, Json.sortedItems, jsonValues, canonical_jsonValue j, canonicalItems_jsonValues rest]

theorem canonicalEntries_jsonValueEntries : ∀ l : List (String × Json),
    canonicalEntries (jsonValueEntries l) = jsonValueEntries (sortEntries (Json.sortedEntries l))
  | [] => by simp [jsonValueEntries, canonicalEntries, Json.sortedEntries, sortEntries]
  | (k, j) :: rest => by
    have hsort : sortEntries (Json.sortedEntries ((k, j) :: rest)) =
        insertEntry k j.sorted (sortEntries (Json.sortedEntries rest)) := by
      rw [Json.sortedEntries]
      rfl
    rw [jsonValueEntries, canonicalEntries, hsort, jsonValueEntries_insertEntry, canonical_jsonValue j,
      canonicalEntries_jsonValueEntries rest]
end

theorem floatTextsEntries_insertEntry {k : String} {j : Json} {l : List (String × Json)} (hj : j.floatTexts = true)
    (hl : Json.floatTextsEntries l = true) : Json.floatTextsEntries (insertEntry k j l) = true := by
  induction l with
  | nil => simp [insertEntry, Json.floatTextsEntries, hj]
  | cons p l ih =>
    obtain ⟨k', j'⟩ := p
    rw [Json.floatTextsEntries, Bool.and_eq_true] at hl
    unfold insertEntry
    split
    · simp [Json.floatTextsEntries, hj, hl]
    · simp [Json.floatTextsEntries, hl.1, ih hl.2]

mutual
theorem floatTexts_sorted : ∀ j : Json, j.floatTexts = true → j.sorted.floatTexts = true
  | .null, _ | .bool _, _ | .int _, _ | .str _, _ => by simp [Json.sorted, Json.floatTexts]
  | .float _, h => by rwa [Json.sorted]
  | .arr items, h => by
    rw [Json.sorted, Json.floatTexts]
    exact floatTexts_sortedItems items h
  | .obj entries, h => by
    rw [Json.sorted, Json.floatTexts]
    exact floatTexts_sortedEntries entries h

theorem floatTexts_sortedItems : ∀ l : List Json, Json.floatTextsItems l = true →
    Json.floatTextsItems (Json.sortedItems l) = true
  | [], _ => by simp [Json.sortedItems, Json.floatTextsItems]
  | j :: rest, h => by
    rw [Json.floatTextsItems, Bool.and_eq_true] at h
    rw [Json.sortedItems, Json.floatTextsItems, floatTexts_sorted j h.1, floatTexts_sortedItems rest h.2]
    rfl

theorem floatTexts_sortedEntries : ∀ l : List (String × Json), Json.floatTextsEntries l = true →
    Json.floatTextsEntries (sortEntries (Json.sortedEntries l)) = true
  | [], _ => by simp [Json.sortedEntries, sortEntries, Json.floatTextsEntries]
  | (k, j) :: rest, h => by
    rw [Json.floatTextsEntries, Bool.and_eq_true] at h
    rw [Json.sortedEntries]
    exact floatTextsEntries_insertEntry (floatTexts_sorted j h.1) (floatTexts_sortedEntries rest h.2)
end

theorem utf8Bytes_injective : Function.Injective utf8Bytes := fun a b h => by
  unfold utf8Bytes at h
  rw [← encodeStr_ofList, ← encodeStr_ofList] at h
  exact String.ofList_inj.1 (encodeStr_injective h)

theorem canonicalPatchJson_jsonValue (j : Json) :
    canonicalPatchJson (jsonValue j) = .ok (dumps j.sorted) := by
  rw [canonicalPatchJson, plainJson_jsonValue]
  rfl

/-- The canonical text of a document binds it, up to the order of the entries of its objects. -/
theorem canonicalPatchJson_inj {v w : Value} (hv : isDocument v = true) (hw : isDocument w = true) :
    canonicalPatchJson v = canonicalPatchJson w ↔ canonical v = canonical w := by
  obtain ⟨j, rfl, hj⟩ := exists_json v hv
  obtain ⟨j', rfl, hj'⟩ := exists_json w hw
  rw [canonicalPatchJson_jsonValue, canonicalPatchJson_jsonValue, canonical_jsonValue, canonical_jsonValue,
    jsonValue_injective.eq_iff, Except.ok.injEq]
  exact ⟨dumps_injective_of_floatTexts (floatTexts_sorted j hj) (floatTexts_sorted j' hj'), fun h => by rw [h]⟩

theorem canonicalItems_eq (l : List Value) : canonicalItems l = l.map canonical := by
  induction l with
  | nil => rw [canonicalItems, List.map_nil]
  | cons v l ih => rw [canonicalItems, ih, List.map_cons]

theorem canonicalEntries_eq (l : List (String × Value)) :
    canonicalEntries l = sortEntries (l.map fun p => (p.1, canonical p.2)) := by
  induction l with
  | nil => rw [canonicalEntries]; rfl
  | cons p l ih =>
    rw [canonicalEntries, ih]
    rfl

theorem keysSorted_of_keys {β : Type} {l : List (String × β)} (h : (l.map Prod.fst).Pairwise (· ≤ ·)) :
    KeysSorted l := List.pairwise_map.1 h

theorem canonical_dict {l : List (String × Value)} (h : (l.map Prod.fst).Pairwise (· ≤ ·)) :
    canonical (.dict l) = .dict (l.map fun p => (p.1, canonical p.2)) := by
  have hsorted : KeysSorted (l.map fun p => (p.1, canonical p.2)) :=
    keysSorted_of_keys (by rw [List.map_map]; exact h)
  rw [canonical, canonicalEntries_eq, hsorted.sortEntries]

/-! ### Bundles of one hash -/

/-- A change up to the order of the entries of its objects. -/
def BundleChange.view (change : BundleChange) : String × Value × Value :=
  (change.key, canonical change.value.value, canonical change.comment.value)

theorem canonical_canonicalChange (c : BundleChange) : canonical (canonicalChange c) =
    .dict [("comment", c.view.2.2), ("key", .str c.view.1), ("value", c.view.2.1)] := by
  rw [canonicalChange, canonical_dict (by simp only [List.map_cons, List.map_nil]; decide)]
  simp [BundleChange.view, canonical]

theorem canonical_canonicalChanges_inj {l l' : List BundleChange} :
    canonical (canonicalChanges l) = canonical (canonicalChanges l') ↔
      ∀ k, atKey Prod.fst k (l.map BundleChange.view) = atKey Prod.fst k (l'.map BundleChange.view) := by
  have hview : Function.Injective fun v : String × Value × Value =>
      Value.dict [("comment", v.2.2), ("key", .str v.1), ("value", v.2.1)] := by
    rintro ⟨k, v, c⟩ ⟨k', v', c'⟩ h
    simp only [Value.dict.injEq, List.cons.injEq, Prod.mk.injEq, Value.str.injEq, true_and, and_true] at h
    obtain ⟨rfl, rfl, rfl⟩ := h
    rfl
  have hmap : ∀ l : List BundleChange, canonicalItems ((sortBy BundleChange.key l).map canonicalChange) =
      (sortBy Prod.fst (l.map BundleChange.view)).map fun v : String × Value × Value =>
        Value.dict [("comment", v.2.2), ("key", .str v.1), ("value", v.2.1)] := fun l => by
    have hsort : sortBy Prod.fst (l.map BundleChange.view) = (sortBy BundleChange.key l).map BundleChange.view :=
      sortBy_map _ _
    rw [canonicalItems_eq, hsort, List.map_map, List.map_map]
    exact List.map_congr_left fun c _ => canonical_canonicalChange c
  rw [canonicalChanges, canonicalChanges, canonical, canonical, Value.list.injEq, hmap, hmap,
    (List.map_injective_iff.2 hview).eq_iff, sortBy_eq_iff]

theorem isDocumentItems_map {α : Type} {f : α → Value} {l : List α} (h : ∀ a ∈ l, isDocument (f a) = true) :
    isDocumentItems (l.map f) = true := by
  induction l with
  | nil => rfl
  | cons a l ih =>
    rw [List.map_cons, isDocumentItems, h a (List.mem_cons_self ..), ih fun a ha => h a (List.mem_cons_of_mem _ ha)]
    rfl

theorem isDocument_canonicalChanges (l : List BundleChange) : isDocument (canonicalChanges l) = true := by
  rw [canonicalChanges, isDocument]
  refine isDocumentItems_map fun c _ => ?_
  simp [canonicalChange, isDocument, isDocumentEntries, c.comment.wellFormed, c.value.wellFormed]

theorem isDocument_optionText (s : Option String) : isDocument (optionText s) = true := by
  cases s <;> rfl

theorem BundlePayload.isDocument_canonical (p : BundlePayload) : isDocument p.canonical = true := by
  simp [BundlePayload.canonical, isDocument, isDocumentEntries, p.activationHeight.wellFormed, p.version.wellFormed,
    p.summary.wellFormed, p.uri.wellFormed, isDocument_canonicalChanges, isDocument_optionText]

/-- What two bundles of one hash have in common. -/
structure SameBundle (b b' : StatePatchBundle) : Prop where
  patchId : b.patchId = b'.patchId
  activationHeight : b.activationHeight = b'.activationHeight
  governanceContract : b.governanceContract = b'.governanceContract
  bundleHash : b.bundleHash = b'.bundleHash
  chainId : b.chainId = b'.chainId
  changes : ∀ k, atKey Prod.fst k (b.changes.items.map BundleChange.view) =
    atKey Prod.fst k (b'.changes.items.map BundleChange.view)

theorem canonical_optionText {s s' : Option String} (h : canonical (optionText s) = canonical (optionText s')) :
    s = s' := by
  cases s <;> cases s' <;> simp_all [optionText, canonical]

/-- An integer is read as itself. -/
theorem eq_of_canonical_asInt {v w : Value} (hv : (asInt v).isSome) (hw : (asInt w).isSome)
    (h : canonical v = canonical w) : v = w := by
  cases v <;> cases w <;> simp_all [asInt, canonical]

section Load

variable {B : Builtins} {governanceContract : String}

theorem readPayload_ok {file : BundleFile} {p : BundlePayload} (h : readPayload B governanceContract file = .ok p) :
    (asInt p.activationHeight.value).isSome := by
  obtain ⟨version, -, h⟩ := bind_eq_ok.1 h
  obtain ⟨_, -, h⟩ := bind_eq_ok.1 h
  obtain ⟨rawId, -, h⟩ := bind_eq_ok.1 h
  obtain ⟨patchId, -, h⟩ := bind_eq_ok.1 h
  obtain ⟨_, -, h⟩ := bind_eq_ok.1 h
  obtain ⟨activationHeight, -, h⟩ := bind_eq_ok.1 h
  obtain ⟨_, hint, h⟩ := bind_eq_ok.1 h
  obtain ⟨rawGovernance, -, h⟩ := bind_eq_ok.1 h
  obtain ⟨governance, -, h⟩ := bind_eq_ok.1 h
  obtain ⟨rawChainId, -, h⟩ := bind_eq_ok.1 h
  obtain ⟨chainId, -, h⟩ := bind_eq_ok.1 h
  obtain ⟨rawChanges, -, h⟩ := bind_eq_ok.1 h
  obtain ⟨changes, -, h⟩ := bind_eq_ok.1 h
  obtain ⟨summary, -, h⟩ := bind_eq_ok.1 h
  obtain ⟨uri, -, h⟩ := bind_eq_ok.1 h
  cases h
  obtain ⟨i, hi, -⟩ := require_eq_ok.1 hint
  rw [Option.mem_def.1 hi]
  rfl

/-- A loaded bundle shows the payload that was hashed for it. -/
theorem loadBundleFile_ok {file : BundleFile} {b : StatePatchBundle}
    (h : loadBundleFile B governanceContract file = .ok b) : ∃ p text, readPayload B governanceContract file = .ok p ∧
      canonicalPatchJson p.canonical = .ok text ∧ b.bundleHash = hashText text ∧ b.patchId = p.patchId ∧
      b.activationHeight = p.activationHeight.value ∧ b.governanceContract = p.governanceContract ∧
      b.chainId = p.chainId ∧ b.changes = p.changes := by
  obtain ⟨p, hp, h⟩ := bind_eq_ok.1 h
  obtain ⟨hash, hhash, h⟩ := bind_eq_ok.1 h
  obtain ⟨text, htext, hhash⟩ := bind_eq_ok.1 hhash
  cases hhash
  cases h
  exact ⟨p, text, hp, htext, rfl, rfl, rfl, rfl, rfl, rfl⟩

theorem hashText_inj {T : Set Bytes} (hT : Set.InjOn sha256 T) {text text' : List Char} (h : utf8Bytes text ∈ T)
    (h' : utf8Bytes text' ∈ T) : hashText text = hashText text' ↔ text = text' := by
  refine ⟨fun heq => ?_, fun heq => by rw [heq]⟩
  exact utf8Bytes_injective (hT h h' (bytesHex_injective heq))

/-- Bundles of one hash are the same bundle, where the digest does not collide on their payloads. -/
theorem sameBundle_of_hash {T : Set Bytes} (hT : Set.InjOn sha256 T) {file file' : BundleFile} {b b' : StatePatchBundle}
    (hfile : loadBundleFile B governanceContract file = .ok b)
    (hfile' : loadBundleFile B governanceContract file' = .ok b')
    (htext : ∀ p text, readPayload B governanceContract file = .ok p → canonicalPatchJson p.canonical = .ok text →
      utf8Bytes text ∈ T)
    (htext' : ∀ p text, readPayload B governanceContract file' = .ok p → canonicalPatchJson p.canonical = .ok text →
      utf8Bytes text ∈ T)
    (hhash : b.bundleHash = b'.bundleHash) : SameBundle b b' := by
  obtain ⟨p, text, hp, htextp, hb, hid, hheight, hgov, hchain, hchanges⟩ := loadBundleFile_ok hfile
  obtain ⟨p', text', hp', htextp', hb', hid', hheight', hgov', hchain', hchanges'⟩ := loadBundleFile_ok hfile'
  have hsame : text = text' := (hashText_inj hT (htext p text hp htextp) (htext' p' text' hp' htextp')).1
    (by rw [← hb, ← hb', hhash])
  have hcanonical : canonical p.canonical = canonical p'.canonical :=
    (canonicalPatchJson_inj p.isDocument_canonical p'.isDocument_canonical).1 (by rw [htextp, htextp', hsame])
  unfold BundlePayload.canonical at hcanonical
  rw [canonical_dict (by simp only [List.map_cons, List.map_nil]; decide), canonical_dict (by simp only [List.map_cons, List.map_nil]; decide)] at hcanonical
  simp only [List.map_cons, List.map_nil, Value.dict.injEq, List.cons.injEq, Prod.mk.injEq, true_and, and_true]
    at hcanonical
  obtain ⟨hheights, hchains, hitems, hgovs, hids, -⟩ := hcanonical
  simp only [canonical, Value.str.injEq] at hgovs hids
  refine ⟨by rw [hid, hid', hids], ?_, by rw [hgov, hgov', hgovs], hhash, ?_, ?_⟩
  · rw [hheight, hheight', eq_of_canonical_asInt (readPayload_ok hp) (readPayload_ok hp') hheights]
  · rw [hchain, hchain', canonical_optionText hchains]
  · rw [hchanges, hchanges']
    exact canonical_canonicalChanges_inj.1 hitems

end Load

/-! ### What a bundle expands to -/

section Expand

variable {B : Builtins} {buildContractArtifacts : String → Value → Except PyErr (String × String)}

def vmIrKeyOf (contractName : String) : String := contractName ++ "." ++ xianVmV1IrKey

/-- The VM module of a change that is a source of the contract, with the text of its comment. -/
def sourceModule (B : Builtins) (buildContractArtifacts : String → Value → Except PyErr (String × String))
    (contractName : String) (c : BundleChange) : Option (String × String) :=
  if c.toPatchChange.isSource ∧ (keyParts c.key).headD "" = contractName then
    (buildContractArtifacts contractName c.value.value).toOption.map fun a => (a.2, B.format c.comment.value)
  else none

/-- The modules of a contract's sources, in the order of the file. -/
def sourceModules (B : Builtins) (buildContractArtifacts : String → Value → Except PyErr (String × String))
    (changes : List BundleChange) (contractName : String) : List (String × String) :=
  changes.filterMap (sourceModule B buildContractArtifacts contractName)

/-- In both files the modules of every contract come in the same order. -/
def ModulesAgree (B : Builtins) (buildContractArtifacts : String → Value → Except PyErr (String × String))
    (b b' : StatePatchBundle) : Prop :=
  ∀ contractName, sourceModules B buildContractArtifacts b.changes.items contractName =
    sourceModules B buildContractArtifacts b'.changes.items contractName

/-- What is recorded under the key of a change itself. -/
def ownChange (buildContractArtifacts : String → Value → Except PyErr (String × String)) (change : BundleChange) :
    Except PyErr BundleChange :=
  if change.toPatchChange.isSource then do
    let (source, _) ← buildContractArtifacts ((keyParts change.key).headD "") change.value.value
    return { change with value := .ofStr source }
  else .ok change

/-- A recorded VM module. -/
def moduleChange (contractName : String) (p : String × String) : BundleChange :=
  ⟨vmIrKeyOf contractName, .ofStr p.1, .ofStr ("Persisted VM IR for " ++ p.2)⟩

theorem vmIrKeyOf_injective : Function.Injective vmIrKeyOf := fun a b h => by
  have hlist := congrArg String.toList h
  simp only [vmIrKeyOf, String.toList_append, List.append_assoc] at hlist
  exact String.toList_inj.1 (List.append_cancel_right hlist)

theorem PatchableKey.ne_vmIrKeyOf {key : String} (h : PatchableKey key) (contractName : String) :
    key ≠ vmIrKeyOf contractName := by
  rintro rfl
  refine h.vmIr ⟨contractName.toList, ?_⟩
  simp [vmIrKeyOf, List.append_assoc]

theorem atKey_single {c : BundleChange} {k : String} : atKey BundleChange.key k [c] = if c.key = k then [c] else [] := by
  simp [atKey, List.filter_cons]

theorem atKey_moduleChange (contractName k : String) (p : String × String) :
    atKey BundleChange.key k [moduleChange contractName p] =
      if vmIrKeyOf contractName = k then [moduleChange contractName p] else [] := atKey_single

theorem ownChange_key {c o : BundleChange} (h : ownChange buildContractArtifacts c = .ok o) : o.key = c.key := by
  unfold ownChange at h
  split at h
  · obtain ⟨_, -, h⟩ := bind_eq_ok.1 h
    cases h
    rfl
  · cases h
    rfl

/-- A change is recorded under its own key, and a source under the key of its contract's module too. -/
theorem recordedChanges_own {c : BundleChange} {l : List BundleChange}
    (h : recordedChanges B buildContractArtifacts c = .ok l) : ∃ o, ownChange buildContractArtifacts c = .ok o ∧
      (c.toPatchChange.isSource ≠ true ∧ l = [o] ∨
        ∃ a, c.toPatchChange.isSource = true ∧
          buildContractArtifacts ((keyParts c.key).headD "") c.value.value = .ok a ∧
          l = [o, moduleChange ((keyParts c.key).headD "") (a.2, B.format c.comment.value)]) := by
  unfold ownChange
  by_cases hsource : c.toPatchChange.isSource = true
  · obtain ⟨source, ir, hbuild, rfl⟩ := (recordedChanges_of_isSource hsource).1 h
    rw [if_pos hsource]
    exact ⟨_, bind_eq_ok.2 ⟨_, hbuild, rfl⟩, .inr ⟨(source, ir), hsource, hbuild, rfl⟩⟩
  · rw [if_neg hsource]
    exact ⟨c, rfl, .inl ⟨hsource, (recordedChanges_of_not_isSource hsource).1 h⟩⟩

/-- Under the key of a contract's module stand the modules of its sources, in the order of the file. -/
theorem atKey_vmIr {changes : List BundleChange} {ls : List (List BundleChange)} (hkeys : ∀ c ∈ changes, PatchableKey c.key)
    (h : List.Forall₂ (fun c l => recordedChanges B buildContractArtifacts c = .ok l) changes ls)
    (contractName : String) : atKey BundleChange.key (vmIrKeyOf contractName) ls.flatten =
      (sourceModules B buildContractArtifacts changes contractName).map (moduleChange contractName) := by
  induction h with
  | nil => rfl
  | @cons c l changes ls hc _ ih =>
    have hown : ∀ o, ownChange buildContractArtifacts c = .ok o →
        atKey BundleChange.key (vmIrKeyOf contractName) [o] = [] := fun o ho => by
      rw [atKey_single, ownChange_key ho, if_neg ((hkeys c (List.mem_cons_self ..)).ne_vmIrKeyOf contractName)]
    have hcons : sourceModules B buildContractArtifacts (c :: changes) contractName = _ := List.filterMap_cons
    rw [List.flatten_cons, atKey_append, ih fun c hc => hkeys c (List.mem_cons_of_mem _ hc), hcons, sourceModule]
    obtain ⟨o, ho, ⟨hsource, rfl⟩ | ⟨a, hsource, hbuild, rfl⟩⟩ := recordedChanges_own hc
    · rw [hown o ho, if_neg fun h => hsource h.1]
      rfl
    · rw [← List.singleton_append, atKey_append, hown o ho, List.nil_append, atKey_moduleChange]
      by_cases hname : (keyParts c.key).headD "" = contractName
      · subst hname
        rw [if_pos rfl, if_pos ⟨hsource, rfl⟩, hbuild]
        rfl
      · rw [if_neg fun h => hname (vmIrKeyOf_injective h), if_neg fun h => hname h.2]
        rfl

/-- Under any other key stand the changes of that key. -/
theorem atKey_own {changes : List BundleChange} {ls : List (List BundleChange)}
    (h : List.Forall₂ (fun c l => recordedChanges B buildContractArtifacts c = .ok l) changes ls) {k : String}
    (hk : ∀ contractName, k ≠ vmIrKeyOf contractName) :
    List.Forall₂ (fun c o => ownChange buildContractArtifacts c = .ok o) (atKey BundleChange.key k changes)
      (atKey BundleChange.key k ls.flatten) := by
  induction h with
  | nil => exact .nil
  | @cons c l changes ls hc _ ih =>
    obtain ⟨o, ho, hl⟩ := recordedChanges_own hc
    have hrecorded : atKey BundleChange.key k l = atKey BundleChange.key k [o] := by
      rcases hl with ⟨-, rfl⟩ | ⟨a, -, -, rfl⟩
      · rfl
      · have hmodule : atKey BundleChange.key k [moduleChange ((keyParts c.key).headD "")
            (a.2, B.format c.comment.value)] = [] := by
          rw [atKey_moduleChange, if_neg fun h => hk _ h.symm]
        rw [← List.singleton_append, atKey_append, hmodule, List.append_nil]
    rw [List.flatten_cons, atKey_append, hrecorded, ← List.singleton_append, atKey_append, atKey_single, atKey_single,
      ownChange_key ho]
    refine List.rel_append ?_ ih
    split
    · exact .cons ho .nil
    · exact .nil

/-- Files that list their sources in the same order agree. -/
theorem modulesAgree_of_sources {b b' : StatePatchBundle}
    (h : b.changes.items.filter (fun c => c.toPatchChange.isSource) =
      b'.changes.items.filter fun c => c.toPatchChange.isSource) :
    ModulesAgree B buildContractArtifacts b b' := by
  have hfilter : ∀ (changes : List BundleChange) contractName, sourceModules B buildContractArtifacts changes contractName =
      sourceModules B buildContractArtifacts (changes.filter fun c => c.toPatchChange.isSource) contractName := by
    intro changes contractName
    unfold sourceModules
    rw [List.filterMap_filter]
    refine List.filterMap_congr fun c _ => ?_
    unfold sourceModule
    by_cases hsource : c.toPatchChange.isSource = true <;> simp [hsource]
  intro contractName
  rw [hfilter, h, ← hfilter]

/-- Building the artifacts of a contract is deterministic: equal sources, equal artifacts. -/
def DeterministicBuild (buildContractArtifacts : String → Value → Except PyErr (String × String)) : Prop :=
  ∀ contractName v w, canonical v = canonical w →
    buildContractArtifacts contractName v = buildContractArtifacts contractName w

theorem view_eq_iff {c c' : BundleChange} : c.view = c'.view ↔ c.key = c'.key ∧
    canonical c.value.value = canonical c'.value.value ∧ canonical c.comment.value = canonical c'.comment.value := by
  simp [BundleChange.view]

theorem isSource_congr {c c' : BundleChange} (h : c.key = c'.key) :
    c.toPatchChange.isSource = c'.toPatchChange.isSource := by
  unfold PatchChange.isSource
  exact congrArg (fun key : String => decide ((keyParts key)[1]? = some "__source__")) h

theorem recordedChanges_of_view (hdet : DeterministicBuild buildContractArtifacts) {c c' : BundleChange}
    (h : c.view = c'.view) {l : List BundleChange} (hl : recordedChanges B buildContractArtifacts c = .ok l) :
    ∃ l', recordedChanges B buildContractArtifacts c' = .ok l' := by
  obtain ⟨hkey, hvalue, -⟩ := view_eq_iff.1 h
  by_cases hsource : c.toPatchChange.isSource = true
  · obtain ⟨source, ir, hbuild, -⟩ := (recordedChanges_of_isSource hsource).1 hl
    rw [hdet _ _ _ hvalue, hkey] at hbuild
    rw [isSource_congr hkey] at hsource
    exact ⟨_, (recordedChanges_of_isSource hsource).2 ⟨source, ir, hbuild, rfl⟩⟩
  · rw [isSource_congr hkey] at hsource
    exact ⟨_, (recordedChanges_of_not_isSource hsource).2 rfl⟩

theorem ownChange_view (hdet : DeterministicBuild buildContractArtifacts) {c c' o o' : BundleChange}
    (h : c.view = c'.view) (ho : ownChange buildContractArtifacts c = .ok o)
    (ho' : ownChange buildContractArtifacts c' = .ok o') : o.view = o'.view := by
  obtain ⟨hkey, hvalue, hcomment⟩ := view_eq_iff.1 h
  unfold ownChange at ho ho'
  rw [← isSource_congr hkey] at ho'
  split at ho
  · rename_i hsource
    rw [if_pos hsource, ← hkey, ← hdet _ _ _ hvalue] at ho'
    obtain ⟨a, hbuild, ho⟩ := bind_eq_ok.1 ho
    obtain ⟨a', hbuild', ho'⟩ := bind_eq_ok.1 ho'
    cases hbuild.symm.trans hbuild'
    cases ho
    cases ho'
    exact view_eq_iff.2 ⟨rfl, rfl, hcomment⟩
  · rename_i hsource
    rw [if_neg hsource] at ho'
    cases ho
    cases ho'
    exact h

theorem ownChanges_view (hdet : DeterministicBuild buildContractArtifacts) {cs os cs' os' : List BundleChange}
    (h : List.Forall₂ (fun c o => ownChange buildContractArtifacts c = .ok o) cs os)
    (h' : List.Forall₂ (fun c o => ownChange buildContractArtifacts c = .ok o) cs' os')
    (hview : cs.map BundleChange.view = cs'.map BundleChange.view) :
    os.map BundleChange.view = os'.map BundleChange.view := by
  induction h generalizing cs' os' with
  | nil =>
    obtain rfl : cs' = [] := List.map_eq_nil_iff.1 hview.symm
    cases h'
    rfl
  | cons ho _ ih =>
    cases h' with
    | nil => cases hview
    | cons ho' h' =>
      simp only [List.map_cons, List.cons.injEq] at hview ⊢
      exact ⟨ownChange_view hdet hview.1 ho ho', ih h' hview.2⟩

theorem atKey_view (k : String) (l : List BundleChange) :
    atKey Prod.fst k (l.map BundleChange.view) = (atKey BundleChange.key k l).map BundleChange.view := atKey_map _ _

theorem moduleChange_view_injective (contractName : String) :
    Function.Injective fun p : String × String => (moduleChange contractName p).view := by
  rintro ⟨ir, text⟩ ⟨ir', text'⟩ h
  simp only [view_eq_iff, moduleChange, Document.ofStr, canonical, Value.str.injEq, true_and] at h
  obtain ⟨rfl, htext⟩ := h
  have hlist := congrArg String.toList htext
  simp only [String.toList_append] at hlist
  rw [String.toList_inj.1 (List.append_cancel_left hlist)]

theorem map_moduleChange (contractName : String) (l : List (String × String)) :
    (l.map (moduleChange contractName)).map BundleChange.view =
      l.map fun p => (moduleChange contractName p).view := by
  rw [List.map_map]
  rfl

/-- What two files of one bundle expand to differs, if at all, in the order of the modules of a contract. -/
theorem expanded_views_iff (hdet : DeterministicBuild buildContractArtifacts) {b b' : StatePatchBundle}
    (hsame : SameBundle b b') {l l' : List BundleChange}
    (hl : expandChanges B buildContractArtifacts b.changes.items = .ok l)
    (hl' : expandChanges B buildContractArtifacts b'.changes.items = .ok l') :
    (∀ k, atKey Prod.fst k (l.map BundleChange.view) = atKey Prod.fst k (l'.map BundleChange.view)) ↔
      ModulesAgree B buildContractArtifacts b b' := by
  obtain ⟨ls, rfl, hls⟩ := expandChanges_eq_ok.1 hl
  obtain ⟨ls', rfl, hls'⟩ := expandChanges_eq_ok.1 hl'
  have hmodules : ∀ contractName,
      atKey Prod.fst (vmIrKeyOf contractName) (ls.flatten.map BundleChange.view) =
        atKey Prod.fst (vmIrKeyOf contractName) (ls'.flatten.map BundleChange.view) ↔
      sourceModules B buildContractArtifacts b.changes.items contractName =
        sourceModules B buildContractArtifacts b'.changes.items contractName := fun contractName => by
    rw [atKey_view, atKey_view, atKey_vmIr b.changes.patchable hls, atKey_vmIr b'.changes.patchable hls',
      map_moduleChange, map_moduleChange, (List.map_injective_iff.2 (moduleChange_view_injective contractName)).eq_iff]
  refine ⟨fun h contractName => (hmodules contractName).1 (h _), fun h k => ?_⟩
  by_cases hk : ∃ contractName, k = vmIrKeyOf contractName
  · obtain ⟨contractName, rfl⟩ := hk
    exact (hmodules contractName).2 (h contractName)
  · have hne : ∀ contractName, k ≠ vmIrKeyOf contractName := fun contractName hkey => hk ⟨contractName, hkey⟩
    have hchanges := hsame.changes k
    rw [atKey_view, atKey_view] at hchanges ⊢
    exact ownChanges_view hdet (atKey_own hls hne) (atKey_own hls' hne) hchanges

theorem exists_expandChanges_iff {changes : List BundleChange} :
    (∃ l, expandChanges B buildContractArtifacts changes = .ok l) ↔
      ∀ c ∈ changes, ∃ l, recordedChanges B buildContractArtifacts c = .ok l := by
  simp only [expandChanges_eq_ok]
  constructor
  · rintro ⟨_, ls, -, h⟩ c hc
    induction h with
    | nil => cases hc
    | cons hl _ ih =>
      rcases List.mem_cons.1 hc with rfl | hc
      · exact ⟨_, hl⟩
      · exact ih hc
  · intro h
    induction changes with
    | nil => exact ⟨[], [], rfl, .nil⟩
    | cons c changes ih =>
      obtain ⟨l, hl⟩ := h c (List.mem_cons_self ..)
      obtain ⟨_, ls, -, hls⟩ := ih fun c hc => h c (List.mem_cons_of_mem _ hc)
      exact ⟨_, l :: ls, rfl, .cons hl hls⟩

theorem exists_expandChanges_of_same (hdet : DeterministicBuild buildContractArtifacts) {b b' : StatePatchBundle}
    (hsame : SameBundle b b') {l : List BundleChange}
    (h : expandChanges B buildContractArtifacts b.changes.items = .ok l) :
    ∃ l', expandChanges B buildContractArtifacts b'.changes.items = .ok l' := by
  refine exists_expandChanges_iff.2 fun c' hc' => ?_
  have hview : c'.view ∈ atKey Prod.fst c'.key (b.changes.items.map BundleChange.view) := by
    rw [hsame.changes c'.key]
    exact mem_atKey.2 ⟨List.mem_map_of_mem hc', rfl⟩
  obtain ⟨c, hc, hcc'⟩ := List.mem_map.1 (mem_atKey.1 hview).1
  obtain ⟨l, hl⟩ := exists_expandChanges_iff.1 ⟨l, h⟩ c hc
  exact recordedChanges_of_view hdet hcc' hl

end Expand

/-! ### The hash of an execution -/

/-- The text an execution is hashed over, around that of its changes. -/
theorem canonical_executionPayload (record : ScheduledPatchRecord) : ∃ head tail : Json → List Char,
    ∀ changes j, canonicalChanges changes = jsonValue j → canonicalPatchJson (executionPayload record changes) = do
      let x ← plainJson record.activationHeight
      let y ← plainJson record.proposalId
      return head x ++ (dumps j.sorted ++ tail y) := by
  refine ⟨fun x => '{' :: (dumpsStr "activation_height" ++ ':' :: (dumps x.sorted ++ ',' :: (dumpsStr "bundle_hash" ++
      ':' :: (dumps (.str record.bundleHash) ++ ',' :: (dumpsStr "changes" ++ [':']))))),
    fun y => dumpsEntries [("emergency", .bool record.emergency),
      ("governance_contract", .str record.governanceContract), ("patch_id", .str record.patchId),
      ("proposal_id", y.sorted)], fun changes j hj => ?_⟩
  rw [canonicalPatchJson, executionPayload, plainJson]
  simp only [plainJsonEntries, hj, plainJson_jsonValue, plainJson]
  cases plainJson record.activationHeight with
  | error e => rfl
  | ok x =>
    cases plainJson record.proposalId with
    | error e => rfl
    | ok y =>
      have hsorted : KeysSorted [("activation_height", x.sorted), ("bundle_hash", Json.str record.bundleHash),
          ("changes", j.sorted), ("emergency", .bool record.emergency),
          ("governance_contract", .str record.governanceContract), ("patch_id", .str record.patchId),
          ("proposal_id", y.sorted)] := by
        refine keysSorted_of_keys ?_
        simp only [List.map_cons, List.map_nil]
        decide
      show Except.ok _ = Except.ok _
      simp only [Json.sorted, Json.sortedEntries, hsorted.sortEntries]
      simp only [dumps, dumpsEntries, List.cons_append, List.append_assoc, List.nil_append]

theorem canonicalChanges_json (changes : List BundleChange) :
    ∃ j, canonicalChanges changes = jsonValue j ∧ j.floatTexts = true :=
  exists_json _ (isDocument_canonicalChanges changes)

/-- Two executions of one record are hashed over the same text exactly when their changes are the same at every key. -/
theorem executionPayload_text {record : ScheduledPatchRecord} {l : List BundleChange} (l' : List BundleChange)
    {text : List Char} (h : canonicalPatchJson (executionPayload record l) = .ok text) :
    ∃ text', canonicalPatchJson (executionPayload record l') = .ok text' ∧ (text = text' ↔
      ∀ k, atKey Prod.fst k (l.map BundleChange.view) = atKey Prod.fst k (l'.map BundleChange.view)) := by
  obtain ⟨head, tail, htext⟩ := canonical_executionPayload record
  obtain ⟨j, hj, hfloats⟩ := canonicalChanges_json l
  obtain ⟨j', hj', hfloats'⟩ := canonicalChanges_json l'
  rw [htext l j hj] at h
  obtain ⟨x, hx, h⟩ := bind_eq_ok.1 h
  obtain ⟨y, hy, h⟩ := bind_eq_ok.1 h
  cases h
  refine ⟨_, (htext l' j' hj').trans (bind_eq_ok.2 ⟨x, hx, bind_eq_ok.2 ⟨y, hy, rfl⟩⟩), ?_⟩
  rw [← canonical_canonicalChanges_inj, hj, hj', canonical_jsonValue, canonical_jsonValue, jsonValue_injective.eq_iff,
    List.append_right_inj, List.append_left_inj]
  exact ⟨dumps_injective_of_floatTexts (floatTexts_sorted j hfloats) (floatTexts_sorted j' hfloats'),
    fun h => by rw [h]⟩

/-! ### Two inventories -/

theorem forall₂_mem {α β : Type} {R : α → β → Prop} {l : List α} {l' : List β} (h : List.Forall₂ R l l') :
    List.Forall₂ (fun a b => a ∈ l ∧ b ∈ l' ∧ R a b) l l' := by
  induction h with
  | nil => exact .nil
  | cons hab _ ih =>
    refine .cons ⟨List.mem_cons_self .., List.mem_cons_self .., hab⟩ (ih.imp fun a b h => ?_)
    exact ⟨List.mem_cons_of_mem _ h.1, List.mem_cons_of_mem _ h.2.1, h.2.2⟩

/-- Where the images of two related lists are equal, so are those of every related pair. -/
theorem exists_of_forall₂_map {α β γ : Type} {R : α → β → Prop} {f : α → γ} {g : β → γ} {l : List α} {l' : List β}
    (h : List.Forall₂ R l l') (hmap : l.map f = l'.map g) {a : α} (ha : a ∈ l) : ∃ b ∈ l', R a b ∧ f a = g b := by
  induction h with
  | nil => cases ha
  | cons hab _ ih =>
    simp only [List.map_cons, List.cons.injEq] at hmap
    rcases List.mem_cons.1 ha with rfl | ha
    · exact ⟨_, List.mem_cons_self .., hab, hmap.1⟩
    · obtain ⟨b, hb, hR, heq⟩ := ih hmap.2 ha
      exact ⟨b, List.mem_cons_of_mem _ hb, hR, heq⟩

/-- Converting a dict does not see the order of its entries. -/
def OrderBlind (C : Codec) : Prop :=
  ∀ e e', canonical (.dict e) = canonical (.dict e') → canonical (C.convertDict e) = canonical (C.convertDict e')

theorem canonical_patchValue {C : Codec} (hcodec : OrderBlind C) {v w : Value} (h : canonical v = canonical w) :
    canonical (patchValue C v) = canonical (patchValue C w) := by
  cases v <;> cases w <;> first | exact h | exact hcodec _ _ h | simp [canonical] at h

theorem map_eq_of_map_eq {α β γ : Type} {f : α → β} {g : α → γ} (h : ∀ a b, f a = f b → g a = g b) {l l' : List α}
    (heq : l.map f = l'.map f) : l.map g = l'.map g := by
  induction l generalizing l' with
  | nil => rw [List.map_eq_nil_iff.1 heq.symm]
  | cons a l ih =>
    cases l' with
    | nil => cases heq
    | cons b l' =>
      simp only [List.map_cons, List.cons.injEq] at heq ⊢
      exact ⟨h a b heq.1, ih heq.2⟩

section Inventories

variable {B : Builtins} {C : Codec} {buildContractArtifacts : String → Value → Except PyErr (String × String)}

/-- The bytes of a text that is hashed. -/
def textBytes : Except PyErr (List Char) → List Bytes
  | .ok text => [utf8Bytes text]
  | .error _ => []

namespace StatePatchManager

variable {m₀ m m' : StatePatchManager} {files files' : List BundleFile} {D : Type} [Driver D]

/-- What is hashed for the bundles of some files, and for the patches approved at a height. -/
def hashedTexts (B : Builtins) (buildContractArtifacts : String → Value → Except PyErr (String × String))
    (m : StatePatchManager) (files : List BundleFile) (driver : D) (height : Int) : List Bytes :=
  (files.flatMap fun file =>
    textBytes (readPayload B m.governanceContract file >>= fun p => canonicalPatchJson p.canonical)) ++
  (((m.buildExecutions B buildContractArtifacts driver height false).toOption).getD []).flatMap fun e =>
    textBytes (canonicalPatchJson (executionPayload e.record e.appliedChanges))

theorem mem_hashedTexts_file {driver : D} {height : Int} {file : BundleFile} (hfile : file ∈ files) {p : BundlePayload}
    {text : List Char} (hp : readPayload B m.governanceContract file = .ok p)
    (htext : canonicalPatchJson p.canonical = .ok text) :
    utf8Bytes text ∈ m.hashedTexts B buildContractArtifacts files driver height := by
  refine List.mem_append_left _ (List.mem_flatMap.2 ⟨file, hfile, ?_⟩)
  rw [bind_eq_ok.2 ⟨p, hp, htext⟩]
  exact List.mem_singleton_self _

theorem mem_hashedTexts_execution {driver : D} {height : Int} {executions : List PatchExecution}
    (hbuild : m.buildExecutions B buildContractArtifacts driver height false = .ok executions) {e : PatchExecution}
    (he : e ∈ executions) {text : List Char}
    (htext : canonicalPatchJson (executionPayload e.record e.appliedChanges) = .ok text) :
    utf8Bytes text ∈ m.hashedTexts B buildContractArtifacts files driver height := by
  refine List.mem_append_right _ ?_
  rw [hbuild]
  refine List.mem_flatMap.2 ⟨e, he, ?_⟩
  rw [htext]
  exact List.mem_singleton_self _

theorem collect_loaded {bundles loaded : PyDict String StatePatchBundle} {P : StatePatchBundle → Prop}
    (hfiles : ∀ file ∈ files, ∀ b, loadBundleFile B m₀.governanceContract file = .ok b → P b)
    (hbundles : ∀ patchId b, bundles.get? patchId = some b → P b) (h : m₀.collect B files bundles = .ok loaded) :
    ∀ patchId b, loaded.get? patchId = some b → P b := by
  induction files generalizing bundles with
  | nil =>
    cases h
    exact hbundles
  | cons file rest ih =>
    obtain ⟨bundle, hbundle, h⟩ := bind_eq_ok.1 h
    obtain ⟨_, -, h⟩ := bind_eq_ok.1 h
    refine ih (fun file hfile => hfiles file (List.mem_cons_of_mem _ hfile)) (fun patchId b hb => ?_) h
    rw [PyDict.get?_set] at hb
    split at hb
    · cases hb
      exact hfiles file (List.mem_cons_self ..) bundle hbundle
    · exact hbundles patchId b hb

/-- A manager that loaded some files keeps its settings and has the bundles of the files. -/
theorem loadPatches_ok (h : m₀.loadPatches B (some files) = (.ok (), m)) :
    m = { m₀ with localBundles := m.localBundles, loaded := true } ∧
    ∀ patchId b, m.localBundles.get? patchId = some b →
      ∃ file ∈ files, loadBundleFile B m₀.governanceContract file = .ok b := by
  unfold loadPatches at h
  dsimp only at h
  split at h
  · rename_i bundles hcollect
    obtain ⟨-, rfl⟩ := Prod.mk.inj h
    exact ⟨rfl, collect_loaded (fun file hfile b hb => ⟨file, hfile, hb⟩) (fun _ _ hb => by cases hb) hcollect⟩
  · cases h

/-- The executions of one record under two inventories. -/
structure SameExecution (B : Builtins) (buildContractArtifacts : String → Value → Except PyErr (String × String))
    (m m' : StatePatchManager) (e e' : PatchExecution) : Prop where
  record : e.record = e'.record
  bundle : SameBundle e.bundle e'.bundle
  built : e.Built B buildContractArtifacts m
  built' : e'.Built B buildContractArtifacts m'

/-- Two inventories with the same bundles, loaded by managers with the same settings. -/
structure SameInventory (m m' : StatePatchManager) : Prop where
  settings : m' = { m with localBundles := m'.localBundles }
  bundles : ∀ patchId b, m.localBundles.get? patchId = some b →
    ∃ b', m'.localBundles.get? patchId = some b' ∧ SameBundle b b'

theorem validate_same {b b' : StatePatchBundle} (hchain : m'.chainId = m.chainId) (hsame : SameBundle b b')
    (record : ScheduledPatchRecord) :
    m.validateBundleAgainstRecord B b record = m'.validateBundleAgainstRecord B b' record := by
  unfold validateBundleAgainstRecord
  rw [hsame.bundleHash, hsame.activationHeight, hsame.governanceContract, hsame.chainId, hchain]

theorem buildExecution_same (hdet : DeterministicBuild buildContractArtifacts) (h : SameInventory m m')
    {record : ScheduledPatchRecord} {e : PatchExecution}
    (he : m.buildExecution B buildContractArtifacts record = .ok e) :
    ∃ e', m'.buildExecution B buildContractArtifacts record = .ok e' ∧
      SameExecution B buildContractArtifacts m m' e e' := by
  obtain ⟨rfl, hbuilt⟩ := built_of_buildExecution he
  obtain ⟨b', hb', hsame⟩ := h.bundles _ _ hbuilt.bundle
  obtain ⟨l', hl'⟩ := exists_expandChanges_of_same hdet hsame hbuilt.expand
  obtain ⟨text, htext, -⟩ := bind_eq_ok.1 hbuilt.hash
  obtain ⟨text', htext', -⟩ := executionPayload_text (sortBy BundleChange.key l') htext
  have hvalid : m'.validateBundleAgainstRecord B b' e.record = .ok () := by
    rw [← validate_same (by rw [h.settings]) hsame]
    exact hbuilt.valid
  have he' : m'.buildExecution B buildContractArtifacts e.record =
      .ok ⟨e.record, b', hashText text', sortBy BundleChange.key l'⟩ := by
    unfold buildExecution
    rw [hb']
    exact bind_eq_ok.2 ⟨_, hvalid, bind_eq_ok.2 ⟨_, bind_eq_ok.2 ⟨_, hl', rfl⟩,
      bind_eq_ok.2 ⟨_, bind_eq_ok.2 ⟨_, htext', rfl⟩, rfl⟩⟩⟩
  exact ⟨_, he', rfl, hsame, hbuilt, (built_of_buildExecution he').2⟩

theorem buildExecutions_same (hdet : DeterministicBuild buildContractArtifacts) (h : SameInventory m m') {driver : D}
    {height : Int} {executions : List PatchExecution}
    (hbuild : m.buildExecutions B buildContractArtifacts driver height false = .ok executions) :
    ∃ executions', m'.buildExecutions B buildContractArtifacts driver height false = .ok executions' ∧
      List.Forall₂ (SameExecution B buildContractArtifacts m m') executions executions' := by
  obtain ⟨_, hloaded, hread⟩ := bind_eq_ok.1 hbuild
  obtain ⟨records, hrecords, hexecutions⟩ := bind_eq_ok.1 hread
  have hloaded' : m'.loaded = true := by
    rw [h.settings]
    exact require_eq_ok.1 hloaded
  have hrecords' : m'.readScheduledPatchRecords B driver height false = .ok records := by
    rw [h.settings]
    exact hrecords
  have hall := mapM_eq_ok.1 hexecutions
  have hsame : ∃ executions', List.Forall₂ (fun record e => m'.buildExecution B buildContractArtifacts record = .ok e)
      records executions' ∧ List.Forall₂ (SameExecution B buildContractArtifacts m m') executions executions' := by
    clear hbuild hread hexecutions hrecords hrecords'
    induction hall with
    | nil => exact ⟨[], .nil, .nil⟩
    | cons he _ ih =>
      obtain ⟨e', he', hsame⟩ := buildExecution_same hdet h he
      obtain ⟨rest', hrest', hsames⟩ := ih
      exact ⟨e' :: rest', .cons he' hrest', .cons hsame hsames⟩
  obtain ⟨executions', hexecutions', hsames⟩ := hsame
  exact ⟨executions', bind_eq_ok.2 ⟨(), require_eq_ok.2 hloaded', bind_eq_ok.2 ⟨records, hrecords',
    mapM_eq_ok.2 hexecutions'⟩⟩, hsames⟩

/-! ### Two outcomes -/

/-- Two calls return the same hashes, or both raise, and leave the same values, up to the order of dicts. -/
structure SameOutcome (r r' : Except PyErr (Option String × List PatchPayload) × D) : Prop where
  raised : r.1.isOk = r'.1.isOk
  hashes : ∀ x x', r.1 = .ok x → r'.1 = .ok x' →
    x.1 = x'.1 ∧ x.2.map PatchPayload.executionHash = x'.2.map PatchPayload.executionHash
  stored : Driver.durable r.2 = Driver.durable r'.2
  written : ∀ k, ((Driver.pending r.2).get? k).map canonical = ((Driver.pending r'.2).get? k).map canonical

variable {executions executions' : List PatchExecution}

/-- The hashes of two executions of one record agree exactly when the order of the modules does. -/
theorem executionHash_same_iff (hdet : DeterministicBuild buildContractArtifacts) {e e' : PatchExecution}
    (h : SameExecution B buildContractArtifacts m m' e e') {T : Set Bytes} (hT : Set.InjOn sha256 T)
    (htext : ∀ text, canonicalPatchJson (executionPayload e.record e.appliedChanges) = .ok text → utf8Bytes text ∈ T)
    (htext' : ∀ text, canonicalPatchJson (executionPayload e'.record e'.appliedChanges) = .ok text →
      utf8Bytes text ∈ T) :
    e.executionHash = e'.executionHash ↔ ModulesAgree B buildContractArtifacts e.bundle e'.bundle := by
  obtain ⟨text, htextEq, hhash⟩ := bind_eq_ok.1 h.built.hash
  obtain ⟨text', htextEq', hhash'⟩ := bind_eq_ok.1 h.built'.hash
  have hmem := htext text htextEq
  have hmem' := htext' text' htextEq'
  rw [← h.record] at htextEq'
  obtain ⟨text'', htext'', hiff⟩ := executionPayload_text e'.appliedChanges htextEq
  cases htextEq'.symm.trans htext''
  have hviews := expanded_views_iff hdet h.bundle h.built.expand h.built'.expand
  rw [← Except.ok.inj hhash, ← Except.ok.inj hhash', hashText_inj hT hmem hmem', hiff, ← hviews]
  have hsorted : ∀ (l : List BundleChange) k, atKey Prod.fst k ((sortBy BundleChange.key l).map BundleChange.view) =
      atKey Prod.fst k (l.map BundleChange.view) := fun l k => by
    rw [atKey_view, atKey_view, atKey_sortBy]
  rw [h.built.applied, h.built'.applied]
  simp only [hsorted]

def canonicalWrite (p : String × Value) : String × Value := (p.1, canonical p.2)

/-- Executions that agree write the same, at every key in the same order. -/
theorem writes_same (hcodec : OrderBlind C) (hdet : DeterministicBuild buildContractArtifacts) (height nanos : Int)
    (blockHash : Option String) (hgov : m'.governanceContract = m.governanceContract)
    (hall : List.Forall₂ (fun e e' => SameExecution B buildContractArtifacts m m' e e' ∧
      ModulesAgree B buildContractArtifacts e.bundle e'.bundle ∧ e.executionHash = e'.executionHash)
      executions executions') (k : String) :
    atKey Prod.fst k ((executions.flatMap
        (m.executionWrites B C buildContractArtifacts height nanos blockHash)).map canonicalWrite) =
      atKey Prod.fst k ((executions'.flatMap
        (m'.executionWrites B C buildContractArtifacts height nanos blockHash)).map canonicalWrite) := by
  induction hall with
  | nil => rfl
  | @cons e e' rest rest' he _ ih =>
    obtain ⟨hsame, hagree, hhash⟩ := he
    have hviews := (expanded_views_iff hdet hsame.bundle hsame.built.expand hsame.built'.expand).2 hagree k
    have hfile : atKey Prod.fst k (((e.fileChanges B buildContractArtifacts).map (BundleChange.write C)).map
        canonicalWrite) =
        atKey Prod.fst k (((e'.fileChanges B buildContractArtifacts).map (BundleChange.write C)).map
          canonicalWrite) := by
      have hmap : ∀ l : List BundleChange, atKey Prod.fst k ((l.map (BundleChange.write C)).map canonicalWrite) =
          (atKey BundleChange.key k l).map fun c => canonicalWrite (c.write C) := fun l => by
        rw [List.map_map, atKey_map]
        rfl
      rw [atKey_view, atKey_view] at hviews
      rw [hmap, hmap]
      refine map_eq_of_map_eq (fun c c' hview => ?_) hviews
      obtain ⟨hkey, hvalue, -⟩ := view_eq_iff.1 hview
      exact Prod.ext hkey (canonical_patchValue hcodec hvalue)
    have hmarks : m.marks e height nanos blockHash = m'.marks e' height nanos blockHash := by
      unfold marks patchKey
      rw [hsame.record, hhash, hgov]
    rw [List.flatMap_cons, List.flatMap_cons, List.map_append, List.map_append, atKey_append, atKey_append, ih,
      executionWrites, executionWrites, List.map_append, List.map_append, atKey_append, atKey_append, hfile, hmarks]

theorem lookup_canonicalWrite {l l' : List (String × Value)} {k : String}
    (h : atKey Prod.fst k (l.map canonicalWrite) = atKey Prod.fst k (l'.map canonicalWrite)) :
    (l.reverse.lookup k).map canonical = (l'.reverse.lookup k).map canonical := by
  have hlookup := lookup_reverse_congr h
  rwa [← List.map_reverse, ← List.map_reverse,
    show List.map canonicalWrite l.reverse = l.reverse.map fun p => (p.1, canonical p.2) from rfl,
    show List.map canonicalWrite l'.reverse = l'.reverse.map fun p => (p.1, canonical p.2) from rfl,
    lookup_map_snd, lookup_map_snd] at hlookup

theorem aggregateHash_ok (executions : List PatchExecution) : ∃ hash, aggregateHash executions = .ok hash := by
  have hdocument : isDocument (.list (executions.map fun e => .str e.executionHash)) = true := by
    rw [isDocument]
    exact isDocumentItems_map fun _ _ => rfl
  obtain ⟨j, hj, -⟩ := exists_json _ hdocument
  exact ⟨_, bind_eq_ok.2 ⟨_, by rw [hj]; exact canonicalPatchJson_jsonValue j, rfl⟩⟩

theorem report_ok (executions : List PatchExecution) : ∃ hash, report executions =
    .ok (hash, executions.map PatchExecution.toPayloadDict) := by
  unfold report
  split
  · rename_i hempty
    rw [List.isEmpty_iff.1 hempty]
    exact ⟨none, rfl⟩
  · obtain ⟨hash, hhash⟩ := aggregateHash_ok executions
    exact ⟨some hash, bind_eq_ok.2 ⟨hash, hhash, rfl⟩⟩

theorem report_congr (h : executions.map PatchExecution.executionHash = executions'.map PatchExecution.executionHash)
    {x x' : Option String × List PatchPayload} (hx : report executions = .ok x) (hx' : report executions' = .ok x') :
    x.1 = x'.1 := by
  have hlength : executions.isEmpty = executions'.isEmpty := by
    have hlen := congrArg List.length h
    rw [List.length_map, List.length_map] at hlen
    cases executions <;> cases executions' <;> simp_all
  have haggregate : aggregateHash executions = aggregateHash executions' := by
    have hmap : ∀ l : List PatchExecution, l.map (fun e => Value.str e.executionHash) =
        (l.map PatchExecution.executionHash).map Value.str := fun l => by rw [List.map_map]; rfl
    unfold aggregateHash
    rw [hmap, hmap, h]
  unfold report at hx hx'
  rw [← hlength] at hx'
  split at hx
  · rename_i hempty
    rw [if_pos hempty] at hx'
    cases hx
    cases hx'
    rfl
  · rename_i hempty
    rw [if_neg hempty, ← haggregate] at hx'
    obtain ⟨hash, hhash, hx⟩ := bind_eq_ok.1 hx
    obtain ⟨hash', hhash', hx'⟩ := bind_eq_ok.1 hx'
    cases hhash.symm.trans hhash'
    cases hx
    cases hx'
    rfl

variable {driver : D} {height nanos : Int} {blockHash : Option String}

theorem applyPatchesForBlock_built
    (h : m.buildExecutions B buildContractArtifacts driver height false = .ok executions) : ∃ hash driver',
    m.applyPatchesForBlock B C buildContractArtifacts driver height nanos blockHash =
      (.ok (hash, executions.map PatchExecution.toPayloadDict), driver') ∧
    report executions = .ok (hash, executions.map PatchExecution.toPayloadDict) ∧
    Driver.durable driver' = Driver.durable driver ∧
    Driver.pending driver' = (Driver.pending driver).update
      (executions.flatMap (m.executionWrites B C buildContractArtifacts height nanos blockHash)) := by
  obtain ⟨hash, hreport⟩ := report_ok executions
  have happly := applyExecutions_built (built_of_buildExecutions h) C height nanos blockHash driver
  refine ⟨hash, (m.applyExecutions C buildContractArtifacts height nanos blockHash executions driver).2, ?_, hreport,
    happly.2⟩
  unfold applyPatchesForBlock
  rw [h]
  dsimp only
  generalize m.applyExecutions C buildContractArtifacts height nanos blockHash executions driver = applied at happly
  obtain ⟨result, applied⟩ := applied
  obtain ⟨hok, -⟩ := happly
  dsimp only at hok ⊢
  subst hok
  rw [← hreport]

theorem applyPatchesForBlock_error {e : PyErr}
    (h : m.buildExecutions B buildContractArtifacts driver height false = .error e) :
    m.applyPatchesForBlock B C buildContractArtifacts driver height nanos blockHash = (.error e, driver) := by
  unfold applyPatchesForBlock
  rw [h]

theorem payload_hashes (executions : List PatchExecution) :
    (executions.map PatchExecution.toPayloadDict).map PatchPayload.executionHash =
      executions.map PatchExecution.executionHash := by
  rw [List.map_map]
  rfl

end StatePatchManager

open StatePatchManager in
/-- Two inventories of bundles with the same hashes, loaded from files by one manager, have the same outcome on a
driver exactly when, in every patch that is applied, the modules of each contract and the texts of their comments
come in the same order in both files. -/
theorem patch_determined_iff {m₀ m m' : StatePatchManager} {files files' : List BundleFile}
    (hload : m₀.loadPatches B (some files) = (.ok (), m)) (hload' : m₀.loadPatches B (some files') = (.ok (), m'))
    (hhash : ∀ patchId, (m.localBundles.get? patchId).map StatePatchBundle.bundleHash =
      (m'.localBundles.get? patchId).map StatePatchBundle.bundleHash)
    (hdet : DeterministicBuild buildContractArtifacts) (hcodec : OrderBlind C) {D : Type} [Driver D] (driver : D)
    (height nanos : Int) (blockHash : Option String)
    (hsha : Set.InjOn sha256 {t | t ∈ m.hashedTexts B buildContractArtifacts files driver height ++
      m'.hashedTexts B buildContractArtifacts files' driver height}) :
    SameOutcome (m.applyPatchesForBlock B C buildContractArtifacts driver height nanos blockHash)
      (m'.applyPatchesForBlock B C buildContractArtifacts driver height nanos blockHash) ↔
    ∀ executions, m.buildExecutions B buildContractArtifacts driver height false = .ok executions →
      ∀ e ∈ executions, ∀ bundle', m'.localBundles.get? e.record.patchId = some bundle' →
        ModulesAgree B buildContractArtifacts e.bundle bundle' := by
  obtain ⟨hm, hbundles⟩ := loadPatches_ok hload
  obtain ⟨hm', hbundles'⟩ := loadPatches_ok hload'
  have hgov : m.governanceContract = m₀.governanceContract := by rw [hm]
  have hgov' : m'.governanceContract = m₀.governanceContract := by rw [hm']
  have hpair : ∀ patchId b b', m.localBundles.get? patchId = some b → m'.localBundles.get? patchId = some b' →
      SameBundle b b' := fun patchId b b' hb hb' => by
    obtain ⟨file, hfile, hbundle⟩ := hbundles patchId b hb
    obtain ⟨file', hfile', hbundle'⟩ := hbundles' patchId b' hb'
    refine sameBundle_of_hash hsha hbundle hbundle'
      (fun p text hp htext => List.mem_append_left _ (mem_hashedTexts_file hfile (hgov ▸ hp) htext))
      (fun p text hp htext => List.mem_append_right _ (mem_hashedTexts_file hfile' (hgov' ▸ hp) htext)) ?_
    have h := hhash patchId
    rw [hb, hb'] at h
    exact Option.some.inj h
  have hsame : SameInventory m m' := by
    refine ⟨by rw [hm', hm], fun patchId b hb => ?_⟩
    have h := hhash patchId
    rw [hb] at h
    obtain ⟨b', hb', -⟩ := Option.map_eq_some_iff.1 h.symm
    exact ⟨b', hb', hpair patchId b b' hb hb'⟩
  have hsame' : SameInventory m' m := by
    refine ⟨by rw [hm, hm'], fun patchId b' hb' => ?_⟩
    have h := hhash patchId
    rw [hb'] at h
    obtain ⟨b, hb, -⟩ := Option.map_eq_some_iff.1 h
    obtain ⟨hid, hheight, hcontract, hbundle, hchain, hchanges⟩ := hpair patchId b b' hb hb'
    exact ⟨b, hb, hid.symm, hheight.symm, hcontract.symm, hbundle.symm, hchain.symm, fun k => (hchanges k).symm⟩
  cases hbuild : m.buildExecutions B buildContractArtifacts driver height false with
  | error e =>
    -- both raise before any write
    refine ⟨fun _ executions h => (nomatch h), fun _ => ?_⟩
    cases hbuild' : m'.buildExecutions B buildContractArtifacts driver height false with
    | error e' =>
      rw [applyPatchesForBlock_error hbuild, applyPatchesForBlock_error hbuild']
      exact ⟨rfl, fun _ _ h => (nomatch h), rfl, fun _ => rfl⟩
    | ok executions' =>
      obtain ⟨executions, h, -⟩ := buildExecutions_same hdet hsame' hbuild'
      cases hbuild.symm.trans h
  | ok executions =>
    obtain ⟨executions', hbuild', hall⟩ := buildExecutions_same hdet hsame hbuild
    have hiff : ∀ e ∈ executions, ∀ e' ∈ executions', SameExecution B buildContractArtifacts m m' e e' →
        (e.executionHash = e'.executionHash ↔ ModulesAgree B buildContractArtifacts e.bundle e'.bundle) :=
      fun e he e' he' hee => executionHash_same_iff hdet hee hsha
        (fun text htext => List.mem_append_left _ (mem_hashedTexts_execution hbuild he htext))
        (fun text htext => List.mem_append_right _ (mem_hashedTexts_execution hbuild' he' htext))
    obtain ⟨hash, driver₁, happly, hreport, hdurable, hpending⟩ :=
      applyPatchesForBlock_built (C := C) hbuild
    obtain ⟨hash', driver₂, happly', hreport', hdurable', hpending'⟩ :=
      applyPatchesForBlock_built (C := C) hbuild'
    have hbundle' : ∀ e e', SameExecution B buildContractArtifacts m m' e e' →
        m'.localBundles.get? e.record.patchId = some e'.bundle := fun e e' hee => by
      rw [hee.record]
      exact hee.built'.bundle
    rw [happly, happly']
    constructor
    · intro hout executions₁ h e he bundle' hget
      cases h
      obtain ⟨-, hhashes⟩ := hout.hashes _ _ rfl rfl
      rw [payload_hashes, payload_hashes] at hhashes
      obtain ⟨e', he', hee, heq⟩ := exists_of_forall₂_map hall hhashes he
      cases (hbundle' e e' hee).symm.trans hget
      exact (hiff e he e' he' hee).1 heq
    · intro hagree
      have hall' := (forall₂_mem hall).imp fun e e' ⟨he, he', hee⟩ =>
        have hmodules := hagree executions rfl e he e'.bundle (hbundle' e e' hee)
        (⟨hee, hmodules, (hiff e he e' he' hee).2 hmodules⟩ : _ ∧ _ ∧ e.executionHash = e'.executionHash)
      have hhashes : executions.map PatchExecution.executionHash = executions'.map PatchExecution.executionHash :=
        List.forall₂_eq_eq_eq ▸ (List.forall₂_map_left_iff.2 (List.forall₂_map_right_iff.2
          (hall'.imp fun _ _ h => h.2.2)))
      refine ⟨rfl, fun x x' hx hx' => ?_, hdurable.trans hdurable'.symm, fun k => ?_⟩
      · cases hx
        cases hx'
        rw [payload_hashes, payload_hashes]
        exact ⟨report_congr hhashes hreport hreport', hhashes⟩
      · have hwrites := writes_same hcodec hdet height nanos blockHash (hgov'.trans hgov.symm) hall' k
        rw [hpending, hpending', PyDict.get?_update, PyDict.get?_update, Option.map_or, Option.map_or,
          lookup_canonicalWrite hwrites]

end Inventories

/-! ### Two orders of a file -/

/-- The codec of values without markers. -/
def unmarkedCodec : Codec where
  typed _ := none
  convertDict e := runtimeValue (fun _ => none) (.dict e)
  typed_keys _ _ _ := Iff.rfl
  typed_fixed _ _ h := nomatch h
  convertDict_eq _ := rfl

mutual
theorem canonical_runtimeValue_unmarked : ∀ v, canonical (runtimeValue (fun _ => none) v) = canonical v
  | .dict entries => by rw [runtimeValue, canonical, canonical, canonicalEntries_runtimeEntries entries]
  | .list items => by rw [runtimeValue, canonical, canonical, canonicalItems_runtimeItems items]
  | .tuple items => by rw [runtimeValue, canonical, canonical, canonicalItems_runtimeItems items]
  | .none | .bool _ | .int _ | .float _ | .str _ | .decimal _ | .pyDecimal _ _ | .bytes _ | .datetime _
  | .pyDatetime _ | .set _ | .exception _ | .object _ => by simp only [runtimeValue]

theorem canonicalItems_runtimeItems : ∀ l, canonicalItems (runtimeItems (fun _ => none) l) = canonicalItems l
  | [] => by rw [runtimeItems]
  | v :: rest => by
    rw [runtimeItems, canonicalItems, canonicalItems, canonical_runtimeValue_unmarked v,
      canonicalItems_runtimeItems rest]

theorem canonicalEntries_runtimeEntries : ∀ l, canonicalEntries (runtimeEntries (fun _ => none) l) = canonicalEntries l
  | [] => by rw [runtimeEntries]
  | (k, v) :: rest => by
    rw [runtimeEntries, canonicalEntries, canonicalEntries, canonical_runtimeValue_unmarked v,
      canonicalEntries_runtimeEntries rest]
end

theorem orderBlind_unmarked : OrderBlind unmarkedCodec := fun e e' h => by
  show canonical (runtimeValue (fun _ => none) (.dict e)) = canonical (runtimeValue (fun _ => none) (.dict e'))
  rw [canonical_runtimeValue_unmarked, canonical_runtimeValue_unmarked, h]

theorem deterministic_copyArtifacts : DeterministicBuild copyArtifacts := fun _ v w h => by
  cases v <;> cases w <;> simp_all [copyArtifacts, canonical]

/-- A file with the patch `fix-1` of some changes. -/
def fixFileOf (changes : List (String × String)) : BundleFile := ⟨"fix-1.json", .dict [
  ("version", .int 1),
  ("patch_id", .str "fix-1"),
  ("activation_height", .int 5),
  ("changes", .list (changes.map fun p => changeEntry p.1 (.str p.2)))], by
    have hchanges : isDocumentItems (changes.map fun p => changeEntry p.1 (.str p.2)) = true :=
      isDocumentItems_map fun _ _ => rfl
    simp [isDocument, isDocumentEntries, hchanges]⟩

/-- The bundle hashes of two inventories, patch by patch. -/
theorem bundleHash_of_items {m m' : StatePatchManager}
    (h : m.localBundles.items.map (fun p => (p.1, p.2.bundleHash)) =
      m'.localBundles.items.map fun p => (p.1, p.2.bundleHash)) (patchId : String) :
    (m.localBundles.get? patchId).map StatePatchBundle.bundleHash =
      (m'.localBundles.get? patchId).map StatePatchBundle.bundleHash := by
  have hlookup := congrArg (List.lookup patchId) h
  rwa [lookup_map_snd, lookup_map_snd] at hlookup

theorem injOn_of_nodup {l : List Bytes} (h : (l.dedup.map sha256).Nodup) : Set.InjOn sha256 {t | t ∈ l} :=
  fun _ ht _ hu => List.inj_on_of_nodup_map h (List.mem_dedup.2 ht) (List.mem_dedup.2 hu)

theorem loadPatches_managerOf {files : List BundleFile}
    (h : (StatePatchManager.loadPatches .plain ⟨none, "governance", .empty, false⟩ (some files)).1.isOk = true) :
    StatePatchManager.loadPatches .plain ⟨none, "governance", .empty, false⟩ (some files) =
      (.ok (), managerOf files) := by
  obtain ⟨_, hok⟩ := exists_ok_of_isOk h
  exact Prod.ext hok rfl

def forwardFile : BundleFile := fixFileOf [("con.S:x", "1"), ("con.__source__", "a = 1")]

def backwardFile : BundleFile := fixFileOf [("con.__source__", "a = 1"), ("con.S:x", "1")]

/-- The call at height 5 over some files, on the state that approved the patch of a file. -/
def applyFiles (approved : BundleFile) (files : List BundleFile) :
    Except PyErr (Option String × List PatchPayload) × MemoryDriver :=
  (managerOf files).applyPatchesForBlock .plain unmarkedCodec copyArtifacts (approvingDriver (managerOf [approved])) 5
    1000 none

theorem patch_determined_iff_backward :
    StatePatchManager.SameOutcome (applyFiles forwardFile [forwardFile]) (applyFiles forwardFile [backwardFile]) ∧
      (applyFiles forwardFile [forwardFile]).1.isOk = true := by
  have hsources : ∀ p ∈ (managerOf [forwardFile]).localBundles.items,
      ∀ q ∈ (managerOf [backwardFile]).localBundles.items,
        p.2.changes.items.filter (fun c => c.toPatchChange.isSource) =
          q.2.changes.items.filter fun c => c.toPatchChange.isSource := by decide +kernel
  have htexts : ((((managerOf [forwardFile]).hashedTexts .plain copyArtifacts [forwardFile]
      (approvingDriver (managerOf [forwardFile])) 5 ++ (managerOf [backwardFile]).hashedTexts .plain copyArtifacts
      [backwardFile] (approvingDriver (managerOf [forwardFile])) 5).dedup).map sha256).Nodup := by decide +kernel
  refine ⟨(patch_determined_iff (loadPatches_managerOf (by decide +kernel)) (loadPatches_managerOf (by decide +kernel))
    (bundleHash_of_items (by decide +kernel)) deterministic_copyArtifacts orderBlind_unmarked
    (approvingDriver (managerOf [forwardFile])) 5 1000 none (injOn_of_nodup htexts)).2
    fun executions hbuild e he bundle' hbundle' => modulesAgree_of_sources ?_, by decide +kernel⟩
  exact hsources _ (PyDict.mem_items_iff.2 (StatePatchManager.built_of_buildExecutions hbuild e he).bundle) _
    (PyDict.mem_items_iff.2 hbundle')

/-! ### Two sources of one contract -/

def sourcesFile : BundleFile := fixFileOf [("con.__source__", "a = 1"), ("con.__source__.old", "a = 2")]

def swappedFile : BundleFile := fixFileOf [("con.__source__.old", "a = 2"), ("con.__source__", "a = 1")]

theorem swapped_module : ((Driver.pending (applyFiles sourcesFile [sourcesFile]).2).get? "con.__xian_ir_v1__").map
    canonical ≠ ((Driver.pending (applyFiles sourcesFile [swappedFile]).2).get? "con.__xian_ir_v1__").map canonical := by
  decide +kernel

/-- Two files with the same two sources of one contract, in either order: one bundle hash, and two outcomes. -/
theorem bundle_hash_does_not_determine : ∃ (m₀ m m' : StatePatchManager) (files files' : List BundleFile)
    (driver : MemoryDriver), m₀.loadPatches .plain (some files) = (.ok (), m) ∧
      m₀.loadPatches .plain (some files') = (.ok (), m') ∧
      (∀ patchId, (m.localBundles.get? patchId).map StatePatchBundle.bundleHash =
        (m'.localBundles.get? patchId).map StatePatchBundle.bundleHash) ∧
      DeterministicBuild copyArtifacts ∧ OrderBlind unmarkedCodec ∧
      Set.InjOn sha256 {t | t ∈ m.hashedTexts .plain copyArtifacts files driver 5 ++
        m'.hashedTexts .plain copyArtifacts files' driver 5} ∧
      ¬ StatePatchManager.SameOutcome (m.applyPatchesForBlock .plain unmarkedCodec copyArtifacts driver 5 1000 none)
        (m'.applyPatchesForBlock .plain unmarkedCodec copyArtifacts driver 5 1000 none) := by
  have htexts : ((((managerOf [sourcesFile]).hashedTexts .plain copyArtifacts [sourcesFile]
      (approvingDriver (managerOf [sourcesFile])) 5 ++ (managerOf [swappedFile]).hashedTexts .plain copyArtifacts
      [swappedFile] (approvingDriver (managerOf [sourcesFile])) 5).dedup).map sha256).Nodup := by decide +kernel
  exact ⟨_, managerOf [sourcesFile], managerOf [swappedFile], [sourcesFile], [swappedFile],
    approvingDriver (managerOf [sourcesFile]), loadPatches_managerOf (by decide +kernel),
    loadPatches_managerOf (by decide +kernel), bundleHash_of_items (by decide +kernel), deterministic_copyArtifacts,
    orderBlind_unmarked, injOn_of_nodup htexts, fun h => swapped_module (h.written _)⟩

end XianAbci
