import XianAbci.StateImport
import XianAbci.StatePatches
import XianAbci.TransactionBytes

/-!
# Exporting a state (`state_export.py`)

`build_exported_state` splits a committed state into contract entries, nonces and the execution policy, and
refuses a marker whose app hash is not the root of what it writes. `import_state` joins the parts again.

The state is read through `get_all_contract_state` and `get_run_state` of the storage driver (`ExportSource`).
The file is JSON: `encode` is what a value is written as, `runtimeValue` what it is read as.
-/

namespace XianAbci

open StateRootCache

/-- The document, with the lists of keys and values it is made of. -/
structure ExportedState where
  hash : String
  number : Value
  nanos : Value
  signature : String
  sender : String
  genesis : List (String × Value)
  nonces : List (String × Value)

namespace ExportedState

def entry (p : String × Value) : Value := .dict [("key", .str p.1), ("value", p.2)]

def document (e : ExportedState) : Value := .dict [
  ("hash", .str e.hash),
  ("number", e.number),
  ("nanos", e.nanos),
  ("origin", .dict [("signature", .str e.signature), ("sender", .str e.sender)]),
  ("genesis", .list (e.genesis.map entry)),
  ("nonces", .list (e.nonces.map entry))]

/-- The document with every value replaced. -/
def mapValues (f : Value → Value) (e : ExportedState) : ExportedState := { e with
  number := f e.number
  nanos := f e.nanos
  genesis := e.genesis.map fun p => (p.1, f p.2)
  nonces := e.nonces.map fun p => (p.1, f p.2) }

end ExportedState

/-- `_load_latest_block` reads the JSON mirror beside the store. -/
def getLatestBlockHash (mirror : Except PyErr LatestBlock) : Except PyErr Bytes := do
  bytesFromHex (← mirror).hash

section Export

variable (B : Builtins)
  -- the founder's public key and the signature over the hash of the entries; raises on entries without a JSON form
  (signOrigin : String → List (String × Value) → Except PyErr (String × String))

def noncePrefix : String := "__n."

/-- The app hash, the height and the time to export: the arguments, and the mirror for those that are missing. -/
def exportMarker (latestBlockHash : Option Bytes) (latestBlockHeight latestBlockNanos : Option Int)
    (mirror : Except PyErr LatestBlock) : Except PyErr (Bytes × Int × Int) := do
  let latestAppHash ← match latestBlockHash with
    | some hash => pure hash
    | none => getLatestBlockHash mirror
  let blockHeight ← match latestBlockHeight with
    | some height => pure height
    | none => mirror.map (·.height)
  let blockNanos ← match latestBlockNanos with
    | some nanos => pure nanos
    | none => mirror.map (·.nanos)
  return (latestAppHash, blockHeight, blockNanos)

def buildExportedState (founderPrivateKey : Option String) (contractState runState : PyDict String Value)
    (latestBlockHash : Option Bytes) (latestBlockHeight latestBlockNanos : Option Int)
    (mirror : Except PyErr LatestBlock) : Except PyErr ExportedState := do
  let executionPolicy := (runState.get? executionPolicyKey).getD .none
  validateExecutionPolicy executionPolicy
  let (latestAppHash, blockHeight, blockNanos) ←
    exportMarker latestBlockHash latestBlockHeight latestBlockNanos mirror
  let nonces := (runState.items.filter fun p => startsWith p.1 noncePrefix).map fun p =>
    (String.ofList (p.1.toList.drop 4), p.2)
  let genesis := (contractState.items.filter fun p => p.2 ≠ .none) ++ [(executionPolicyKey, executionPolicy)]
  let exportedState : ExportedState := {
    hash := ""
    number := .int blockHeight
    nanos := .int blockNanos
    signature := ""
    sender := ""
    genesis := sortEntries genesis
    nonces := sortEntries nonces }
  let stateRoot ← computeExportedStateRoot B exportedState.document
  require (latestAppHash = [] ∨ latestAppHash = stateRoot)
    (.valueError "exported state root does not match latest block app hash")
  let exportedState := { exportedState with hash := bytesHex stateRoot }
  match founderPrivateKey with
  | none | some "" => return exportedState
  | some key =>
    let (sender, signature) ← signOrigin key exportedState.genesis
    return { exportedState with sender := sender, signature := signature }

end Export

/-! ### The document read back -/

section Document

variable {B : Builtins} {C : Codec}

theorem mapM_map_ok {α β γ : Type} {f : β → Except PyErr γ} {h : α → β} {g : α → γ} (hf : ∀ a, f (h a) = .ok (g a))
    (l : List α) : (l.map h).mapM f = .ok (l.map g) := by
  induction l with
  | nil => rfl
  | cons a l ih =>
    rw [List.map_cons, List.mapM_cons, hf a, ih]
    rfl

/-- The items an import and the state root read. -/
def ExportedState.items (e : ExportedState) : List (Key × Value) :=
  e.genesis.map (fun p => (Key.str p.1, p.2)) ++ e.nonces.map fun p => (Key.str ("__n" ++ indexSeparator ++ p.1), p.2)

theorem exportedStateItems_document (e : ExportedState) : exportedStateItems B e.document = .ok e.items := by
  unfold exportedStateItems
  have hget : e.document.get "genesis" (.list []) = .ok (.list (e.genesis.map ExportedState.entry)) := rfl
  have hget' : e.document.get "nonces" (.list []) = .ok (.list (e.nonces.map ExportedState.entry)) := rfl
  have hgenesis := mapM_map_ok (f := fun entry : Value => do return (Key.ofValue (← entry.index "key"), ← entry.index "value"))
    (h := ExportedState.entry) (g := fun p : String × Value => (Key.str p.1, p.2)) (fun p => rfl) e.genesis
  have hnonces := mapM_map_ok (f := fun nonce : Value => do
      return (Key.str ("__n" ++ indexSeparator ++ B.format (← nonce.index "key")), ← nonce.index "value"))
    (h := ExportedState.entry) (g := fun p : String × Value => (Key.str ("__n" ++ indexSeparator ++ p.1), p.2)) (fun p => by
      show Except.ok (Key.str ("__n" ++ indexSeparator ++ B.format (.str p.1)), p.2) = _
      rw [B.format_str]) e.nonces
  simp only [hget, hget', Value.iter, bind, Except.bind] at hgenesis hnonces ⊢
  rw [hgenesis]
  dsimp only
  rw [hnonces]
  rfl

/-- Names that do not start with `__` mark no object. -/
def Codec.PlainNames (C : Codec) : Prop := ∀ e, (∀ p ∈ e, startsWith p.1 "__" = false) → C.typed e = none

theorem runtimeValue_plain (hplain : C.PlainNames) {e : List (String × Value)} {names : List String}
    (hnames : e.map Prod.fst = names) (h : (names.all fun name => !startsWith name "__") = true) :
    runtimeValue C.typed (.dict e) = .dict (runtimeEntries C.typed e) := by
  have htyped : C.typed e = none := by
    apply hplain
    intro p hp
    have := List.all_eq_true.1 h p.1 (hnames ▸ List.mem_map_of_mem hp)
    simpa using this
  rw [runtimeValue, htyped]

theorem runtimeItems_eq_map (l : List Value) : runtimeItems C.typed l = l.map (runtimeValue C.typed) := by
  induction l with
  | nil => rfl
  | cons v l ih => rw [runtimeItems, ih, List.map_cons]

/-- Reading the document reads its values. -/
theorem runtimeValue_document (hplain : C.PlainNames) (e : ExportedState) :
    runtimeValue C.typed e.document = (e.mapValues (runtimeValue C.typed)).document := by
  have hentry : ∀ p, runtimeValue C.typed (ExportedState.entry p) =
      ExportedState.entry (p.1, runtimeValue C.typed p.2) := by
    intro p
    rw [ExportedState.entry, runtimeValue_plain hplain (show _ = ["key", "value"] from rfl) (by decide +kernel)]
    rfl
  have hlist : ∀ l : List (String × Value), runtimeValue C.typed (.list (l.map ExportedState.entry)) =
      .list ((l.map fun p => (p.1, runtimeValue C.typed p.2)).map ExportedState.entry) := by
    intro l
    rw [runtimeValue, runtimeItems_eq_map, List.map_map, List.map_map]
    congr 1
    exact List.map_congr_left fun p _ => hentry p
  rw [ExportedState.document, runtimeValue_plain hplain
    (show _ = ["hash", "number", "nanos", "origin", "genesis", "nonces"] from rfl) (by decide +kernel)]
  simp only [runtimeEntries, hlist]
  rw [runtimeValue_plain hplain (show _ = ["signature", "sender"] from rfl) (by decide +kernel)]
  rfl

end Document

/-! ### What is exported of a state -/

/-- What the export is given of a store: its contract state and its run state, split by the names that start
with `__`. -/
structure ExportSource (durable contractState runState : PyDict String Value) : Prop where
  contract : ∀ k v, contractState.get? k = some v ↔ durable.get? k = some v ∧ startsWith k "__" = false
  run : ∀ k v, runState.get? k = some v ↔ durable.get? k = some v ∧ startsWith k "__" = true

/-- A committed value was read from the store: it is not `None`, and it is read back from what it is written as. -/
def CommittedValues (C : Codec) (encode : Value → Value) (durable : PyDict String Value) : Prop :=
  ∀ k v, durable.get? k = some v → v ≠ .none ∧ isJson (encode v) = true ∧ runtimeValue C.typed (encode v) = v

theorem startsWith_iff {s p : String} : startsWith s p = true ↔ p.toList <+: s.toList := List.isPrefixOf_iff_prefix

/-- A nonce's key is cut and put together again. -/
theorem noncePrefix_drop {k : String} (h : startsWith k noncePrefix = true) :
    "__n" ++ indexSeparator ++ String.ofList (k.toList.drop 4) = k := by
  obtain ⟨rest, hrest⟩ := startsWith_iff.1 h
  have hlist : k.toList = "__n.".toList ++ k.toList.drop 4 := by
    rw [← hrest]
    rfl
  have hname : "__n" ++ indexSeparator = "__n." := by decide
  apply String.toList_inj.1
  rw [hname, String.toList_append]
  exact (congrArg ("__n.".toList ++ ·) String.toList_ofList).trans hlist.symm

section Source

variable {durable contractState runState : PyDict String Value}

theorem mem_sorted_iff {β : Type} {p : String × β} {l : List (String × β)} : p ∈ sortEntries l ↔ p ∈ l :=
  (sortEntries_perm l).mem_iff

/-- The two lists of the document, as they are made from the two parts of the state. -/
structure ExportedState.Parts (e : ExportedState) (contractState runState : PyDict String Value) (policy : Value) :
    Prop where
  genesis : e.genesis =
    sortEntries ((contractState.items.filter fun p => p.2 ≠ .none) ++ [(executionPolicyKey, policy)])
  nonces : e.nonces = sortEntries ((runState.items.filter fun p => startsWith p.1 noncePrefix).map fun p =>
    (String.ofList (p.1.toList.drop 4), p.2))

variable {e : ExportedState} {policy : Value}

theorem mem_genesis (hsource : ExportSource durable contractState runState)
    (hvalues : ∀ k v, durable.get? k = some v → v ≠ .none) (h : e.Parts contractState runState policy)
    {k : String} {v : Value} : (k, v) ∈ e.genesis ↔
      startsWith k "__" = false ∧ durable.get? k = some v ∨ k = executionPolicyKey ∧ v = policy := by
  rw [h.genesis, mem_sorted_iff, List.mem_append, List.mem_filter, PyDict.mem_items_iff, hsource.contract,
    List.mem_singleton, Prod.mk.injEq]
  refine or_congr_left ⟨fun h => ⟨h.1.2, h.1.1⟩, fun h => ⟨⟨h.2, h.1⟩, ?_⟩⟩
  simpa using hvalues k v h.2

theorem startsWith_run {k : String} (h : startsWith k noncePrefix = true) : startsWith k "__" = true := by
  rw [startsWith_iff] at h ⊢
  exact List.IsPrefix.trans ⟨['n', '.'], rfl⟩ h

theorem mem_nonces (hsource : ExportSource durable contractState runState) (h : e.Parts contractState runState policy)
    {k : String} {v : Value} : (Key.str k, v) ∈ e.nonces.map (fun p => (Key.str ("__n" ++ indexSeparator ++ p.1), p.2)) ↔
      startsWith k noncePrefix = true ∧ durable.get? k = some v := by
  rw [h.nonces]
  simp only [List.mem_map, mem_sorted_iff, List.mem_filter, PyDict.mem_items_iff, Prod.exists, Prod.mk.injEq,
    Key.str.injEq]
  constructor
  · rintro ⟨_, _, ⟨k', v', ⟨hget, hstarts⟩, rfl, rfl⟩, hk, rfl⟩
    rw [noncePrefix_drop hstarts] at hk
    subst hk
    exact ⟨hstarts, ((hsource.run _ _).1 hget).1⟩
  · rintro ⟨hstarts, hget⟩
    exact ⟨_, v, ⟨k, v, ⟨(hsource.run k v).2 ⟨hget, startsWith_run hstarts⟩, hstarts⟩, rfl, rfl⟩,
      noncePrefix_drop hstarts, rfl⟩

/-- The entries of the document are the consensus keys of the store, each with its value. -/
theorem mem_exported_items (hsource : ExportSource durable contractState runState)
    (hvalues : ∀ k v, durable.get? k = some v → v ≠ .none) (hpolicy : durable.get? executionPolicyKey = some policy)
    (h : e.Parts contractState runState policy) (k : String) (v : Value) :
    (Key.str k, v) ∈ e.items ↔ isConsensusStateKey k = true ∧ durable.get? k = some v := by
  have hgenesis : (Key.str k, v) ∈ e.genesis.map (fun p => (Key.str p.1, p.2)) ↔ (k, v) ∈ e.genesis := by
    simp
  have hname : "__n" ++ indexSeparator = noncePrefix := by decide
  rw [ExportedState.items, List.mem_append, hgenesis, mem_genesis hsource hvalues h, mem_nonces hsource h,
    isConsensusStateKey, hname]
  constructor
  · rintro ((⟨hk, hget⟩ | ⟨rfl, rfl⟩) | ⟨hk, hget⟩)
    · exact ⟨by simp [hk], hget⟩
    · exact ⟨by simp, hpolicy⟩
    · exact ⟨by simp [hk], hget⟩
  · rintro ⟨hk, hget⟩
    rw [Bool.or_eq_true, Bool.or_eq_true, beq_iff_eq, Bool.not_eq_true'] at hk
    rcases hk with (rfl | hk) | hk
    · exact .inl (.inr ⟨rfl, Option.some.inj (hget.symm.trans hpolicy)⟩)
    · exact .inl (.inl ⟨hk, hget⟩)
    · exact .inr ⟨hk, hget⟩

/-- No key is exported twice. -/
theorem nodup_exported_items (hsource : ExportSource durable contractState runState)
    (h : e.Parts contractState runState policy) : (e.items.map Prod.fst).Nodup := by
  have hpolicyRun : startsWith executionPolicyKey "__" = true := by decide
  have hpolicyNonce : startsWith executionPolicyKey noncePrefix = false := by decide
  have hcontract : ∀ k ∈ (contractState.items.filter fun p => p.2 ≠ .none).map Prod.fst, startsWith k "__" = false := by
    intro k hk
    obtain ⟨p, hp, rfl⟩ := List.mem_map.1 hk
    exact ((hsource.contract _ _).1 (PyDict.mem_items_iff.1 (List.mem_filter.1 hp).1)).2
  have hgenesisPerm : (e.genesis.map Prod.fst).Perm
      ((contractState.items.filter fun p => p.2 ≠ .none).map Prod.fst ++ [executionPolicyKey]) := by
    rw [h.genesis]
    refine ((sortEntries_perm _).map Prod.fst).trans ?_
    rw [List.map_append, List.map_singleton]
  have hnoncesPerm : (e.nonces.map fun p => "__n" ++ indexSeparator ++ p.1).Perm
      ((runState.items.filter fun p => startsWith p.1 noncePrefix).map Prod.fst) := by
    rw [h.nonces]
    refine ((sortEntries_perm _).map _).trans ?_
    rw [List.map_map]
    refine (List.map_congr_left fun p hp => ?_) ▸ List.Perm.refl _
    exact (noncePrefix_drop (List.mem_filter.1 hp).2).symm
  have hgenesis : (e.genesis.map Prod.fst).Nodup := by
    rw [hgenesisPerm.nodup_iff, List.nodup_append]
    refine ⟨contractState.nodup.sublist (List.filter_sublist.map _), List.nodup_singleton _, fun a ha b hb hab => ?_⟩
    rw [List.mem_singleton.1 hb] at hab
    rw [← hab, hcontract a ha] at hpolicyRun
    cases hpolicyRun
  have hnonces : (e.nonces.map fun p => "__n" ++ indexSeparator ++ p.1).Nodup := by
    rw [hnoncesPerm.nodup_iff]
    exact runState.nodup.sublist (List.filter_sublist.map _)
  have hdisjoint : ∀ a ∈ e.genesis.map Prod.fst, ∀ b ∈ e.nonces.map (fun p => "__n" ++ indexSeparator ++ p.1), a ≠ b := by
    rintro a ha b hb rfl
    obtain ⟨p, hp, rfl⟩ := List.mem_map.1 (hnoncesPerm.mem_iff.1 hb)
    have hstarts := (List.mem_filter.1 hp).2
    rcases List.mem_append.1 (hgenesisPerm.mem_iff.1 ha) with ha | ha
    · have := hcontract _ ha
      rw [startsWith_run hstarts] at this
      cases this
    · rw [List.mem_singleton.1 ha, hpolicyNonce] at hstarts
      cases hstarts
  have hkeys : e.items.map Prod.fst =
      ((e.genesis.map Prod.fst) ++ e.nonces.map fun p => "__n" ++ indexSeparator ++ p.1).map Key.str := by
    simp [ExportedState.items, Function.comp_def]
  rw [hkeys]
  exact (List.nodup_append.2 ⟨hgenesis, hnonces, hdisjoint⟩).map fun a b hab => Key.str.inj hab

/-- Consensus entries of a map, in any order, have the map's root. -/
theorem merkleRootFromItems_of_map {items : List (Key × Value)} {root : Bytes}
    (hK : Set.InjOn hashPriority (consensusKeys (toItems durable))) (hroot : computeDriverStateRoot durable = .ok root)
    (hvalues : ∀ k v, durable.get? k = some v → v ≠ .none) (hnodup : (items.map Prod.fst).Nodup)
    (hstr : ∀ p ∈ items, ∃ k, p.1 = .str k)
    (hitems : ∀ k v, (Key.str k, v) ∈ items ↔ isConsensusStateKey k = true ∧ durable.get? k = some v) :
    merkleRootFromItems items = .ok root := by
  have hkeys : consensusKeys items ⊆ consensusKeys (toItems durable) := by
    rintro k ⟨hcons, hk⟩
    obtain ⟨⟨key, v⟩, hp, rfl⟩ := List.mem_map.1 hk
    have hget := ((hitems k v).1 hp).2
    exact ⟨hcons, List.mem_map.2 ⟨(Key.str k, v), mem_toItems.2 ⟨k, rfl, hget⟩, rfl⟩⟩
  obtain ⟨c, hc, hcroot⟩ := merkleRootFromItems_eq_ok.1 hroot
  obtain ⟨-, hhash, -⟩ := rebuildItems_ok hK (toItems durable) subset_rfl (Wf.empty (s := .empty)) hc
  obtain ⟨-, -, -, hok⟩ := rebuildItems_spec (m := .empty) hK items hnodup hkeys (Wf.empty (s := .empty))
    (fun _ => rfl) fun _ _ => rfl
  have hok := hok fun p hp => by
    obtain ⟨key, v⟩ := p
    obtain ⟨k, rfl⟩ := hstr _ hp
    exact hhash _ (mem_toItems.2 ⟨k, rfl, ((hitems k v).1 hp).2⟩)
  -- the entries have some root, and the map has the same one
  have hsome : merkleRootFromItems items = .ok (rebuildItems items ⟨.nil, .empty, .empty⟩).2.rootHash :=
    merkleRootFromItems_eq_ok.2 ⟨_, Prod.ext hok rfl, rfl⟩
  have hsame := computeDriverStateRoot_eq (m := durable) (hK.mono hkeys) hsome
    (fun k v hget hcons => ⟨hvalues k v hget, (hitems k v).2 ⟨hcons, hget⟩⟩)
    (fun k v hcons hmem _ => by rw [((hitems k v).1 hmem).2]; simp)
  rw [hsome, ← hsame, hroot]

/-- The entries of the document have the root of the store. -/
theorem merkleRootFromItems_exported {root : Bytes} (hK : Set.InjOn hashPriority (consensusKeys (toItems durable)))
    (hroot : computeDriverStateRoot durable = .ok root) (hvalues : ∀ k v, durable.get? k = some v → v ≠ .none)
    (hsource : ExportSource durable contractState runState) (hpolicy : durable.get? executionPolicyKey = some policy)
    (h : e.Parts contractState runState policy) : merkleRootFromItems e.items = .ok root := by
  refine merkleRootFromItems_of_map hK hroot hvalues (nodup_exported_items hsource h) (fun p hp => ?_)
    (mem_exported_items hsource hvalues hpolicy h)
  rcases List.mem_append.1 hp with hp | hp
  · obtain ⟨q, -, rfl⟩ := List.mem_map.1 hp
    exact ⟨_, rfl⟩
  · obtain ⟨q, -, rfl⟩ := List.mem_map.1 hp
    exact ⟨_, rfl⟩

/-- The root is one of the consensus keys. -/
theorem computeDriverStateRoot_congr {m : PyDict String Value} {root : Bytes}
    (hK : Set.InjOn hashPriority (consensusKeys (toItems durable))) (hroot : computeDriverStateRoot durable = .ok root)
    (hvalues : ∀ k v, durable.get? k = some v → v ≠ .none)
    (hm : ∀ k, isConsensusStateKey k = true → m.get? k = durable.get? k) : computeDriverStateRoot m = .ok root := by
  refine computeDriverStateRoot_eq hK hroot (fun k v hget hcons => ?_) fun k v hcons hmem _ => ?_
  · rw [hm k hcons] at hget
    exact ⟨hvalues k v hget, mem_toItems.2 ⟨k, rfl, hget⟩⟩
  · obtain ⟨k', hk', hget⟩ := mem_toItems.1 hmem
    cases hk'
    rw [hm k hcons, hget]
    simp

end Source

/-! ### The import of an exported state -/

section RoundTrip

variable {B : Builtins} {C : Codec} {encode : Value → Value} {D : Type} [Driver D]
  {durable contractState runState : PyDict String Value} {e : ExportedState} {policy : Value}

/-- What is read of the file is what was exported. -/
theorem runtimeValue_written (hplain : C.PlainNames) (hint : ∀ i, runtimeValue C.typed (encode (.int i)) = .int i)
    (hvalues : CommittedValues C encode durable) (hsource : ExportSource durable contractState runState)
    (hpolicy : durable.get? executionPolicyKey = some policy) (h : e.Parts contractState runState policy)
    {height nanos : Int} (hheight : e.number = .int height) (hnanos : e.nanos = .int nanos) :
    runtimeValue C.typed (e.mapValues encode).document = e.document := by
  have hread : ∀ k v, durable.get? k = some v → runtimeValue C.typed (encode v) = v := fun k v hv => (hvalues k v hv).2.2
  have hvalue : ∀ l : List (String × Value), (∀ p ∈ l, runtimeValue C.typed (encode p.2) = p.2) →
      (l.map fun p => (p.1, encode p.2)).map (fun p => (p.1, runtimeValue C.typed p.2)) = l := by
    intro l hl
    rw [List.map_map]
    conv_rhs => rw [← List.map_id l]
    refine List.map_congr_left fun p hp => ?_
    exact Prod.ext rfl (hl p hp)
  have hgenesis := hvalue e.genesis fun p hp => by
    rcases (mem_genesis hsource (fun k v hv => (hvalues k v hv).1) h).1 hp with ⟨-, hget⟩ | ⟨-, hv⟩
    · exact hread _ _ hget
    · rw [hv]
      exact hread _ _ hpolicy
  have hnonces := hvalue e.nonces fun p hp =>
    hread _ _ ((mem_nonces hsource h).1 (List.mem_map.2 ⟨p, hp, rfl⟩)).2
  rw [runtimeValue_document hplain]
  congr 1
  simp only [ExportedState.mapValues, hgenesis, hnonces, hheight, hnanos, hint]
  rw [← hheight, ← hnanos]

/-- The one policy of a document is the one that is validated. -/
theorem validateGenesis_document (h : (e.genesis.map ExportedState.entry).filterMap policyEntry = [policy]) :
    validateGenesisExecutionPolicy e.document = validateExecutionPolicy policy := by
  have hget : e.document.get "abci_genesis" e.document = .ok e.document := rfl
  have hgenesis : e.document.get "genesis" (.list []) = .ok (.list (e.genesis.map ExportedState.entry)) := rfl
  rw [ExportedState.document] at hget hgenesis ⊢
  simp only [validateGenesisExecutionPolicy, hget, hgenesis, Value.iter, h, bind, Except.bind]

/-- A policy stands in the document once. -/
theorem policyEntries_document (hsource : ExportSource durable contractState runState)
    (h : e.Parts contractState runState policy) :
    (e.genesis.map ExportedState.entry).filterMap policyEntry = [policy] := by
  have hentry : ∀ p, policyEntry (ExportedState.entry p) = if p.1 = executionPolicyKey then some p.2 else none := by
    intro p
    simp [policyEntry, ExportedState.entry, List.lookup_cons]
  have hcontract : (contractState.items.filter fun p => p.2 ≠ .none).filterMap
      (fun p => if p.1 = executionPolicyKey then some p.2 else none) = [] := by
    refine List.filterMap_eq_nil_iff.2 fun p hp => if_neg fun hk => ?_
    have hget := PyDict.mem_items_iff.1 (List.mem_filter.1 hp).1
    have hname := ((hsource.contract _ _).1 hget).2
    rw [hk] at hname
    exact absurd hname (by decide)
  apply List.perm_singleton.1
  rw [List.filterMap_map, show policyEntry ∘ ExportedState.entry = _ from funext hentry, h.genesis]
  refine ((sortEntries_perm _).filterMap _).trans ?_
  rw [List.filterMap_append, hcontract]
  simp

/-- The import of an exported state goes through, and leaves the consensus keys of the store it was taken from,
under a marker with the root. -/
theorem importState_exported (hstored : ∀ v, Driver.stored D v = runtimeValue C.typed v)
    (hvalues : CommittedValues C encode durable) (hsource : ExportSource durable contractState runState)
    (hpolicy : durable.get? executionPolicyKey = some policy) (hvalid : validateExecutionPolicy policy = .ok ())
    (h : e.Parts contractState runState policy) {height nanos : Int} {root : Bytes} (hheight : e.number = .int height)
    (hnanos : e.nanos = .int nanos) (hhash : e.hash = bytesHex root)
    (hK : Set.InjOn hashPriority (consensusKeys (toItems durable))) (hroot : computeDriverStateRoot durable = .ok root)
    {target : D} {persisted : Bool} (htarget : validatePersistedExecutionPolicy (Driver.durable target) = .ok persisted) :
    ∃ r driver, importState B e.document none target = (.ok r, driver) ∧
      (∀ k, isConsensusStateKey k = true → (Driver.durable driver).get? k = durable.get? k) ∧
      computeDriverStateRoot (Driver.durable driver) = .ok root ∧
      (Driver.durable driver).get? latestBlockKey = some (LatestBlock.mk (bytesHex root) height nanos).value := by
  have hne : ∀ k v, durable.get? k = some v → v ≠ .none := fun k v hv => (hvalues k v hv).1
  have hmem := mem_exported_items hsource hne hpolicy h
  have hnodup := nodup_exported_items hsource h
  have hitemsRoot := merkleRootFromItems_exported hK hroot hne hsource hpolicy h
  have hlookup : ∀ k v, e.items.reverse.lookup (.str k) = some v ↔
      isConsensusStateKey k = true ∧ durable.get? k = some v := by
    intro k v
    rw [← hmem k v, PyDict.lookup_reverse_items (d := ⟨e.items, hnodup⟩)]
    exact PyDict.mem_items_iff.symm
  -- the checks before the store is touched
  have hverify : verifyExportedState B e.document (Driver.durable target) = .ok root := by
    have hgenesis : validateGenesisExecutionPolicy e.document = .ok () := by
      rw [validateGenesis_document (policyEntries_document hsource h), hvalid]
    have hitems : computeExportedStateRoot B e.document = .ok root := by
      rw [computeExportedStateRoot, exportedStateItems_document]
      exact hitemsRoot
    have hadvertised : (e.document.get "hash" (.str "") >>= bytesFromHexValue) = .ok root := by
      show bytesFromHex e.hash = .ok root
      rw [hhash, bytesFromHex_bytesHex]
    obtain ⟨hashValue, hget, hbytes⟩ := bind_eq_ok.1 hadvertised
    simp only [verifyExportedState, hgenesis, htarget, hitems, hget, hbytes, bind, Except.bind, require, if_true, pure,
      Except.pure]
  have hwrites : importedWrites B e.document = .ok (.ofList (stringKeys e.items), height, nanos) := by
    have hnumber : e.document.get "number" (.int 0) = .ok (.int height) := congrArg Except.ok hheight
    have htime : e.document.get "nanos" (.int 0) = .ok (.int nanos) := congrArg Except.ok hnanos
    simp only [importedWrites, exportedStateItems_document, hnumber, htime, B.toInt_int, bind, Except.bind, pure,
      Except.pure]
  set marker : LatestBlock := ⟨bytesHex root, height, nanos⟩ with hmarker
  set committed : D := Driver.commit (Driver.applyWrites (Driver.applyWrites (Driver.flushFull (Driver.fresh target))
    (.ofList [(latestBlockKey, marker.value)])) (.ofList (stringKeys e.items))) with hcommitted
  have hdurable : ∀ k, (Driver.durable committed).get? k = committedValue (Driver.stored D) none
      (importPending e.items marker k) := by
    intro k
    rw [hcommitted, Driver.get?_durable_commit, pending_import]
    simp
  have hconsensus : ∀ k, isConsensusStateKey k = true → (Driver.durable committed).get? k = durable.get? k := by
    intro k hk
    have hlocal : k ≠ latestBlockKey := by
      rintro rfl
      rw [latestBlockKey_local] at hk
      cases hk
    rw [hdurable, importPending, if_neg hlocal, Option.or_none]
    rcases hget : durable.get? k with _ | v
    · have hnone : e.items.reverse.lookup (.str k) = none := by
        rw [Option.eq_none_iff_forall_ne_some]
        intro v hv
        rw [((hlookup k v).1 hv).2] at hget
        cases hget
      rw [hnone]
      rfl
    · obtain ⟨hvn, -, hread⟩ := hvalues k v hget
      rw [(hlookup k v).2 ⟨hk, hget⟩, committedValue, if_neg hvn, hstored]
      conv_lhs => rw [← hread, runtimeValue_idem, hread]
  have hcommittedRoot := computeDriverStateRoot_congr hK hroot hne hconsensus
  refine ⟨⟨height, bytesHex root, nanos, (PyDict.ofList (stringKeys e.items)).items.length⟩, committed, ?_, hconsensus,
    hcommittedRoot, ?_⟩
  · rw [importState, hverify]
    dsimp only
    rw [hwrites]
    dsimp only
    rw [stageLatestBlock_eq]
    dsimp only
    rw [← hmarker, ← hcommitted, hcommittedRoot]
    exact if_neg (by simp)
  · have hnone : e.items.reverse.lookup (.str latestBlockKey) = none := by
      rw [Option.eq_none_iff_forall_ne_some]
      intro v hv
      have := ((hlookup _ v).1 hv).1
      rw [latestBlockKey_local] at this
      cases this
    rw [hdurable, importPending, hnone, Option.none_or, if_pos rfl, committedValue, if_neg marker.value_ne_none,
      LatestBlock.value, Driver.stored_latestBlock]

/-- What a document that was built is made of. -/
theorem buildExportedState_eq_ok {signOrigin : String → List (String × Value) → Except PyErr (String × String)}
    {founder : Option String} {latestBlockHash : Option Bytes} {latestBlockHeight latestBlockNanos : Option Int}
    {mirror : Except PyErr LatestBlock}
    (hbuilt : buildExportedState B signOrigin founder contractState runState latestBlockHash latestBlockHeight
      latestBlockNanos mirror = .ok e) :
    ∃ hash height nanos root, exportMarker latestBlockHash latestBlockHeight latestBlockNanos mirror =
        .ok (hash, height, nanos) ∧
      validateExecutionPolicy ((runState.get? executionPolicyKey).getD .none) = .ok () ∧
      e.Parts contractState runState ((runState.get? executionPolicyKey).getD .none) ∧ e.number = .int height ∧
      e.nanos = .int nanos ∧ e.hash = bytesHex root ∧ merkleRootFromItems e.items = .ok root ∧
      (hash = [] ∨ hash = root) := by
  unfold buildExportedState at hbuilt
  obtain ⟨⟨⟩, hvalid, hbuilt⟩ := bind_eq_ok.1 hbuilt
  obtain ⟨⟨hash, height, nanos⟩, hmarker, hbuilt⟩ := bind_eq_ok.1 hbuilt
  dsimp only at hbuilt
  obtain ⟨root, hroot, hbuilt⟩ := bind_eq_ok.1 hbuilt
  rw [computeExportedStateRoot, exportedStateItems_document] at hroot
  obtain ⟨⟨⟩, hguard, hbuilt⟩ := bind_eq_ok.1 hbuilt
  refine ⟨hash, height, nanos, root, hmarker, hvalid, ?_⟩
  have hguard := require_eq_ok.1 hguard
  split at hbuilt
  · cases hbuilt
    exact ⟨⟨rfl, rfl⟩, rfl, rfl, rfl, hroot, hguard⟩
  · cases hbuilt
    exact ⟨⟨rfl, rfl⟩, rfl, rfl, rfl, hroot, hguard⟩
  · obtain ⟨⟨sender, signature⟩, -, hbuilt⟩ := bind_eq_ok.1 hbuilt
    cases hbuilt
    exact ⟨⟨rfl, rfl⟩, rfl, rfl, rfl, hroot, hguard⟩

/-- Without a founder's key the export of a state with a root goes through where the marker's hash is that root or
is missing. -/
theorem buildExportedState_ok {signOrigin : String → List (String × Value) → Except PyErr (String × String)}
    {latestBlockHash : Option Bytes} {latestBlockHeight latestBlockNanos : Option Int} {mirror : Except PyErr LatestBlock}
    (hvalues : ∀ k v, durable.get? k = some v → v ≠ .none) (hsource : ExportSource durable contractState runState)
    (hpolicy : durable.get? executionPolicyKey = some policy) (hvalid : validateExecutionPolicy policy = .ok ())
    (hK : Set.InjOn hashPriority (consensusKeys (toItems durable))) {root hash : Bytes} {height nanos : Int}
    (hroot : computeDriverStateRoot durable = .ok root)
    (hmarker : exportMarker latestBlockHash latestBlockHeight latestBlockNanos mirror = .ok (hash, height, nanos))
    (hhash : hash = [] ∨ hash = root) :
    ∃ e, buildExportedState B signOrigin none contractState runState latestBlockHash latestBlockHeight
      latestBlockNanos mirror = .ok e := by
  have hrun : runState.get? executionPolicyKey = some policy := (hsource.run _ _).2 ⟨hpolicy, by decide⟩
  have hexported : ∀ e : ExportedState, e.Parts contractState runState policy →
      computeExportedStateRoot B e.document = .ok root := by
    intro e h
    rw [computeExportedStateRoot, exportedStateItems_document]
    exact merkleRootFromItems_exported hK hroot hvalues hsource hpolicy h
  unfold buildExportedState
  rw [hrun, Option.getD_some]
  dsimp only
  rw [hvalid, hmarker]
  dsimp only [bind, Except.bind]
  rw [hexported _ ⟨rfl, rfl⟩]
  dsimp only
  rw [require, if_pos hhash]
  exact ⟨_, rfl⟩

/-- A committed state is exported with its marker and imported again: the consensus keys, the root and the marker
are the ones of the original. The marker has the state's root for its app hash, as every committed block's has. -/
theorem export_import_round_trip (B : Builtins)
    (signOrigin : String → List (String × Value) → Except PyErr (String × String)) (founder : Option String)
    {latestBlockHash : Option Bytes} {latestBlockHeight latestBlockNanos : Option Int}
    {mirror : Except PyErr LatestBlock} {root : Bytes} {height nanos : Int} {persisted : Bool} {storage target : D}
    (hplain : C.PlainNames) (hint : ∀ i, runtimeValue C.typed (encode (.int i)) = .int i)
    (hstored : ∀ v, Driver.stored D v = runtimeValue C.typed v)
    (hvalues : CommittedValues C encode (Driver.durable storage))
    (hsource : ExportSource (Driver.durable storage) contractState runState)
    (hK : Set.InjOn hashPriority (consensusKeys (toItems (Driver.durable storage))))
    (hpolicy : (Driver.durable storage).get? executionPolicyKey = some policy)
    (hvalid : validateExecutionPolicy policy = .ok ())
    (hroot : computeDriverStateRoot (Driver.durable storage) = .ok root)
    (hblock : (Driver.durable storage).get? latestBlockKey = some (LatestBlock.mk (bytesHex root) height nanos).value)
    (hmarker : exportMarker latestBlockHash latestBlockHeight latestBlockNanos mirror = .ok (root, height, nanos))
    (htarget : validatePersistedExecutionPolicy (Driver.durable target) = .ok persisted) :
    (founder = none → ∃ e, buildExportedState B signOrigin founder contractState runState latestBlockHash
      latestBlockHeight latestBlockNanos mirror = .ok e) ∧
    ∀ e, buildExportedState B signOrigin founder contractState runState latestBlockHash latestBlockHeight
        latestBlockNanos mirror = .ok e →
      ∃ r driver, importState B (runtimeValue C.typed (e.mapValues encode).document) none target = (.ok r, driver) ∧
        (∀ k, isConsensusStateKey k = true → (Driver.durable driver).get? k = (Driver.durable storage).get? k) ∧
        computeDriverStateRoot (Driver.durable driver) = .ok root ∧
        (Driver.durable driver).get? latestBlockKey = (Driver.durable storage).get? latestBlockKey := by
  have hne : ∀ k v, (Driver.durable storage).get? k = some v → v ≠ .none := fun k v hv => (hvalues k v hv).1
  refine ⟨?_, fun e hbuilt => ?_⟩
  · rintro rfl
    exact buildExportedState_ok hne hsource hpolicy hvalid hK hroot hmarker (.inr rfl)
  · obtain ⟨hash, height', nanos', root', hmarker', -, hparts, hheight, hnanos, hhash, hitems, -⟩ :=
      buildExportedState_eq_ok hbuilt
    cases hmarker.symm.trans hmarker'
    have hrun : runState.get? executionPolicyKey = some policy := (hsource.run _ _).2 ⟨hpolicy, by decide⟩
    rw [hrun, Option.getD_some] at hparts
    obtain rfl : root = root' := by
      have := merkleRootFromItems_exported hK hroot hne hsource hpolicy hparts
      exact Except.ok.inj (this.symm.trans hitems)
    rw [runtimeValue_written hplain hint hvalues hsource hpolicy hparts hheight hnanos, hblock]
    exact importState_exported hstored hvalues hsource hpolicy hvalid hparts hheight hnanos hhash hK hroot htarget

end RoundTrip

/-! ### A state with a nonce -/

def policyValue : Value := .dict currentExecutionPolicy

def nonceKeys : PyDict String Value := ⟨[(executionPolicyKey, policyValue), ("__n.alice:", .int 5)], by decide⟩

def nonceRoot : Bytes := match computeDriverStateRoot nonceKeys with
  | .ok root => root
  | .error _ => []

/-- The state with its marker. -/
def nonceState (marker : LatestBlock) : PyDict String Value := nonceKeys.set latestBlockKey marker.value

theorem computeDriverStateRoot_nonceKeys : computeDriverStateRoot nonceKeys = .ok nonceRoot := by
  have hok : (computeDriverStateRoot nonceKeys).toOption.isSome = true := by decide +kernel
  rw [nonceRoot]
  generalize computeDriverStateRoot nonceKeys = root at hok ⊢
  rcases root with e | root
  · cases hok
  · rfl

theorem get?_nonceKeys {k : String} {v : Value} (h : nonceKeys.get? k = some v) :
    k = executionPolicyKey ∧ v = policyValue ∨ k = "__n.alice:" ∧ v = .int 5 := by
  have hmem := PyDict.mem_items_iff.2 h
  simpa [nonceKeys] using hmem

theorem get?_nonceState {marker : LatestBlock} {k : String} {v : Value} (h : (nonceState marker).get? k = some v) :
    nonceKeys.get? k = some v ∨ k = latestBlockKey ∧ v = marker.value := by
  rw [nonceState, PyDict.get?_set] at h
  split at h
  · rename_i hk
    exact .inr ⟨hk, (Option.some.inj h).symm⟩
  · exact .inl h

theorem plainNames_fixedCodec : fixedCodec.PlainNames := by
  intro e he
  show fixedMarker e = none
  unfold fixedMarker
  split
  · rename_i hkeys
    rcases e with _ | ⟨p, e⟩
    · cases hkeys
    · have hp := he p (List.mem_cons_self ..)
      rw [(List.cons.inj hkeys).1] at hp
      exact absurd hp (by decide)
  · rfl

theorem committedValues_nonceState (marker : LatestBlock) : CommittedValues fixedCodec id (nonceState marker) := by
  intro k v hv
  rcases get?_nonceState hv with hv | ⟨-, rfl⟩
  · rcases get?_nonceKeys hv with ⟨-, rfl⟩ | ⟨-, rfl⟩
    · exact ⟨by decide, by decide +kernel, by decide +kernel⟩
    · exact ⟨by decide, by decide +kernel, by decide +kernel⟩
  · exact ⟨marker.value_ne_none, rfl, fixedStore.stored_latestBlock ..⟩

/-- Every key of the state is one of the run state. -/
theorem exportSource_nonceState (marker : LatestBlock) : ExportSource (nonceState marker) .empty (nonceState marker) := by
  have hrun : ∀ k v, (nonceState marker).get? k = some v → startsWith k "__" = true := by
    intro k v hv
    rcases get?_nonceState hv with hv | ⟨rfl, -⟩
    · rcases get?_nonceKeys hv with ⟨rfl, -⟩ | ⟨rfl, -⟩
      · decide
      · decide
    · decide
  refine ⟨fun k v => ⟨nofun, fun h => ?_⟩, fun k v => ⟨fun h => ⟨h, hrun k v h⟩, fun h => h.1⟩⟩
  rw [hrun k v h.1] at h
  cases h.2

theorem consensusKeys_nonceState (marker : LatestBlock) :
    consensusKeys (toItems (nonceState marker)) ⊆ consensusKeys (toItems nonceKeys) := by
  rintro k ⟨hcons, hk⟩
  obtain ⟨p, hp, hpk⟩ := List.mem_map.1 hk
  obtain ⟨k', hk', hget⟩ := mem_toItems.1 (show (p.1, p.2) ∈ _ from hp)
  cases hpk.symm.trans hk'
  rcases get?_nonceState hget with hget | ⟨rfl, -⟩
  · exact ⟨hcons, List.mem_map.2 ⟨(.str k, p.2), mem_toItems.2 ⟨k, rfl, hget⟩, rfl⟩⟩
  · rw [latestBlockKey_local] at hcons
    cases hcons

theorem injOn_nonceKeys : Set.InjOn hashPriority (consensusKeys (toItems nonceKeys)) := by
  have hne : hashPriority executionPolicyKey ≠ hashPriority "__n.alice:" := by decide +kernel
  have hsub : consensusKeys (toItems nonceKeys) ⊆ {executionPolicyKey, "__n.alice:"} := by
    rintro k ⟨hcons, hk⟩
    obtain ⟨p, hp, hpk⟩ := List.mem_map.1 hk
    obtain ⟨k', hk', hget⟩ := mem_toItems.1 (show (p.1, p.2) ∈ _ from hp)
    cases hpk.symm.trans hk'
    rcases get?_nonceKeys hget with ⟨rfl, -⟩ | ⟨rfl, -⟩
    · exact .inl rfl
    · exact .inr rfl
  refine Set.InjOn.mono hsub ?_
  rw [Set.injOn_pair]
  exact fun h => absurd h hne

theorem computeDriverStateRoot_nonceState (marker : LatestBlock) :
    computeDriverStateRoot (nonceState marker) = .ok nonceRoot := by
  refine computeDriverStateRoot_congr injOn_nonceKeys computeDriverStateRoot_nonceKeys (fun k v hv => ?_) fun k hk => ?_
  · rcases get?_nonceKeys hv with ⟨-, rfl⟩ | ⟨-, rfl⟩
    · decide
    · decide
  · rw [nonceState, PyDict.get?_set, if_neg]
    rintro rfl
    rw [latestBlockKey_local] at hk
    cases hk

/-- No founder signs. -/
def noSignature (_ : String) (_ : List (String × Value)) : Except PyErr (String × String) := .error (.other "no key")

def nonceMarker : LatestBlock := ⟨bytesHex nonceRoot, 7, 1⟩

def nonceStore (marker : LatestBlock) : CodecDriver fixedStore := ⟨nonceState marker, .empty⟩

def emptyStore : CodecDriver fixedStore := ⟨.empty, .empty⟩

theorem stored_fixedStore (v : Value) : Driver.stored (CodecDriver fixedStore) v = runtimeValue fixedCodec.typed v := rfl

theorem export_import_round_trip_nonce :
    ∃ e r driver, buildExportedState .plain noSignature none .empty (nonceState nonceMarker) (some nonceRoot) (some 7)
        (some 1) (.ok .default) = .ok e ∧
      importState .plain (runtimeValue fixedCodec.typed (e.mapValues id).document) none emptyStore = (.ok r, driver) ∧
      (Driver.durable driver).get? "__n.alice:" = some (.int 5) ∧
      (Driver.durable driver).get? latestBlockKey = some nonceMarker.value := by
  have hvalues : CommittedValues fixedCodec id (Driver.durable (nonceStore nonceMarker)) :=
    committedValues_nonceState nonceMarker
  have hblock : (nonceState nonceMarker).get? latestBlockKey = some nonceMarker.value := by
    rw [nonceState, PyDict.get?_set, if_pos rfl]
  have hpolicy : (nonceState nonceMarker).get? executionPolicyKey = some policyValue := by decide +kernel
  have hmarker : exportMarker (some nonceRoot) (some 7) (some 1) (.ok .default) = .ok (nonceRoot, 7, 1) := rfl
  have htarget : validatePersistedExecutionPolicy (Driver.durable emptyStore) = .ok false := rfl
  obtain ⟨hexported, himported⟩ := export_import_round_trip .plain noSignature none plainNames_fixedCodec
    (fun i => rfl) stored_fixedStore hvalues (exportSource_nonceState nonceMarker)
    (injOn_nonceKeys.mono (consensusKeys_nonceState nonceMarker)) hpolicy (by decide +kernel)
    (computeDriverStateRoot_nonceState nonceMarker) hblock hmarker htarget
  obtain ⟨e, he⟩ := hexported rfl
  obtain ⟨r, driver, himport, hconsensus, -, hkept⟩ := himported e he
  refine ⟨e, r, driver, he, himport, ?_, hkept.trans hblock⟩
  rw [hconsensus _ (by decide)]
  show (nonceState nonceMarker).get? "__n.alice:" = _
  rw [nonceState, PyDict.get?_set, if_neg (by decide)]
  rfl

/-- A marker without an app hash is exported too; the import commits one with the root. -/
theorem missing_hash_not_kept :
    ∃ e r driver, buildExportedState .plain noSignature none .empty (nonceState .default) (some []) (some 0) (some 0)
        (.ok .default) = .ok e ∧
      importState .plain (runtimeValue fixedCodec.typed (e.mapValues id).document) none emptyStore = (.ok r, driver) ∧
      (nonceState .default).get? latestBlockKey = some LatestBlock.default.value ∧
      (Driver.durable driver).get? latestBlockKey ≠ (nonceState .default).get? latestBlockKey := by
  have hvalues := committedValues_nonceState .default
  have hne : ∀ k v, (nonceState .default).get? k = some v → v ≠ .none := fun k v hv => (hvalues k v hv).1
  have hsource := exportSource_nonceState .default
  have hpolicy : (nonceState .default).get? executionPolicyKey = some policyValue := by decide +kernel
  have hvalid : validateExecutionPolicy policyValue = .ok () := by decide +kernel
  have hblock : (nonceState .default).get? latestBlockKey = some LatestBlock.default.value := by
    rw [nonceState, PyDict.get?_set, if_pos rfl]
  have hK := injOn_nonceKeys.mono (consensusKeys_nonceState .default)
  have hroot := computeDriverStateRoot_nonceState .default
  have hmarker : exportMarker (some []) (some 0) (some 0) (.ok .default) = .ok ([], 0, 0) := rfl
  have htarget : validatePersistedExecutionPolicy (Driver.durable emptyStore) = .ok false := rfl
  obtain ⟨e, he⟩ : ∃ e, buildExportedState .plain noSignature none .empty (nonceState .default) (some []) (some 0)
      (some 0) (.ok .default) = .ok e :=
    buildExportedState_ok hne hsource hpolicy hvalid hK hroot hmarker (.inl rfl)
  obtain ⟨hash, height, nanos, root, hmarker', -, hparts, hheight, hnanos, hhash, hitems, -⟩ :=
    buildExportedState_eq_ok he
  cases hmarker.symm.trans hmarker'
  rw [hpolicy, Option.getD_some] at hparts
  obtain rfl : nonceRoot = root := by
    have := merkleRootFromItems_exported hK hroot hne hsource hpolicy hparts
    exact Except.ok.inj (this.symm.trans hitems)
  obtain ⟨r, driver, himport, -, -, hkept⟩ := importState_exported (B := .plain) stored_fixedStore hvalues hsource hpolicy
    hvalid hparts hheight hnanos hhash hK hroot htarget
  have hread := runtimeValue_written plainNames_fixedCodec (fun i => rfl) hvalues hsource hpolicy hparts hheight hnanos
  refine ⟨e, r, driver, he, by rw [hread]; exact himport, hblock, ?_⟩
  rw [hkept, hblock]
  intro heq
  have hhex := congrArg LatestBlock.hash (LatestBlock.value_injective (Option.some.inj heq))
  exact absurd hhex (by decide +kernel)

end XianAbci
