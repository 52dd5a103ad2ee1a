import XianAbci.Codec
import XianAbci.RestartRoot

/-!
# Governed state patches and genesis writes (`utils/state_patches.py`, `utils/block.py`)

Both paths take JSON documents and set values in the driver. Genesis converts every value with
`_convert_runtime_value`, lists included; a patch converts a dict and passes everything else on, so a
list keeps the marked objects inside it. The running node hashes the list as it is, a restarted one
hashes what storage makes of it.
-/

namespace XianAbci

/-- A change of a patch bundle; bundles are JSON files. -/
structure PatchChange where
  key : String
  value : Value
  json : isJson value = true

def splitDots : List Char → List (List Char)
  | [] => [[]]
  | c :: rest =>
    if c = '.' then [] :: splitDots rest
    else match splitDots rest with
      | [] => [[c]]
      | part :: parts => (c :: part) :: parts

/-- `key.split(".")`. -/
def keyParts (key : String) : List String := (splitDots key.toList).map String.ofList

def xianVmV1IrKey : String := "__xian_ir_v1__"

def nonceFilename : String := "__n"

/-- `len(parts) > 1 and parts[1] == "__source__"`. -/
def PatchChange.isSource (change : PatchChange) : Bool := (keyParts change.key)[1]? = some "__source__"

section Writes

variable (C : Codec)
  -- `build_contract_artifacts`: the normalised source and the VM module of a contract source
  (buildContractArtifacts : String → Value → Except PyErr (String × String))

/-- The value a patch sets. -/
def patchValue : Value → Value
  | .dict entries => C.convertDict entries
  | value => value

/-- The calls of `raw_driver.set` a change makes, in order. -/
def patchSets (change : PatchChange) : List (Except PyErr (String × Value)) :=
  if change.isSource then
    let contractName := (keyParts change.key).headD ""
    match buildContractArtifacts contractName change.value with
    | .error e => [.error e]
    | .ok (source, ir) => [.ok (change.key, .str source), .ok (contractName ++ "." ++ xianVmV1IrKey, .str ir)]
  else [.ok (change.key, patchValue C change.value)]

/-- A key `raw_driver.set` takes. -/
def stringKey : Value → Except PyErr String
  | .str s => .ok s
  | _ => .error (.typeError "driver keys must be strings")

/-- `s["value"] = _convert_runtime_value(s["value"]); raw_driver.set(s["key"], s["value"])`. -/
def stateSet (entry : Value) : Except PyErr (String × Value) := do
  let value ← entry.index "value"
  let key ← stringKey (← entry.index "key")
  return (key, convertRuntimeValue C value)

/-- `nonce_storage.set_nonce(n["key"], n["value"])`. -/
def nonceSet (entry : Value) : Except PyErr (String × Value) := do
  let sender ← stringKey (← entry.index "key")
  let value ← entry.index "value"
  return (nonceFilename ++ indexSeparator ++ sender ++ delimiter, value)

/-- One call for each item of a document's list. -/
def setsOf (items : Except PyErr Value) (set : Value → Except PyErr (String × Value)) :
    List (Except PyErr (String × Value)) :=
  match items >>= Value.iter with
  | .ok items => items.map set
  | .error e => [.error e]

/-- The calls `apply_state_changes_from_block` makes. -/
def blockSets (block : Value) : List (Except PyErr (String × Value)) :=
  setsOf (block.get "genesis" (.list [])) (stateSet C) ++ setsOf (block.get "nonces" (.list [])) nonceSet ++
    setsOf (block.get "rewards" (.list [])) (stateSet C)

variable {D : Type} [Driver D]

/-- The calls one after the other; the first one that raises ends them. -/
def setEach : List (Except PyErr (String × Value)) → D → Except PyErr Unit × D
  | [], driver => (.ok (), driver)
  | .error e :: _, driver => (.error e, driver)
  | .ok (key, value) :: rest, driver => setEach rest (Driver.applyWrites driver (.ofList [(key, value)]))

def applySingleBundle (changes : List PatchChange) (driver : D) : Except PyErr Unit × D :=
  setEach (changes.flatMap (patchSets C buildContractArtifacts)) driver

def applyStateChangesFromBlock (block : Value) (driver : D) : Except PyErr Unit × D :=
  match setEach (blockSets C block) driver with
  | (.error e, driver) => (.error e, driver)
  | (.ok _, driver) => (.ok (), Driver.commit driver)

end Writes

/-! ### Which values survive storage -/

section Stable

variable {C : Codec} {buildContractArtifacts : String → Value → Except PyErr (String × String)}

/-- A value that a patch passes on without a marked object left in it that storage would change. -/
def SettledPatch (C : Codec) : Value → Prop
  | .list items => SettledItems C.typed items
  | _ => True

def PatchChange.Settled (C : Codec) (change : PatchChange) : Prop :=
  change.isSource = true ∨ SettledPatch C change.value

theorem hashLeaf_congr {k : String} {v w : Value} (h : normalizeForAbciJson v = normalizeForAbciJson w) :
    hashLeaf k v = hashLeaf k w := by
  unfold hashLeaf encodeAbciJson
  rw [h]

/-- What `convert_dict` and the codec return is stored as itself. -/
theorem leafStable_runtimeValue (k : String) (v : Value) :
    LeafStable (runtimeValue C.typed) k (runtimeValue C.typed v) := by
  rw [LeafStable, runtimeValue_idem]

theorem leafStable_str (k s : String) : LeafStable (runtimeValue C.typed) k (.str s) := by
  simp [LeafStable, runtimeValue]

/-- A settled JSON value keeps its leaf. -/
theorem leafStable_of_settled {k : String} {v : Value} (hjson : isJson v = true) (h : Settled C.typed v) :
    LeafStable (runtimeValue C.typed) k v :=
  hashLeaf_congr ((normalize_runtimeValue_iff C.typed v hjson).2 h)

theorem leafStable_patchValue {k : String} : ∀ v, isJson v = true → SettledPatch C v →
    LeafStable (runtimeValue C.typed) k (patchValue C v)
  | .dict entries, _, _ => by
    rw [patchValue, C.convertDict_eq]
    exact leafStable_runtimeValue k _
  | .list items, hjson, h => by
    show LeafStable _ k (.list items)
    have hset : Settled C.typed (.list items) := by
      rw [Settled]
      exact h
    exact leafStable_of_settled hjson hset
  | .none, _, _ | .bool _, _, _ | .int _, _, _ | .float _, _, _ | .str _, _, _ => by
    simp [patchValue, LeafStable, runtimeValue]

theorem patchSets_leafStable {change : PatchChange} (h : change.Settled C) {k : String} {v : Value}
    (hk : .ok (k, v) ∈ patchSets C buildContractArtifacts change) : LeafStable (runtimeValue C.typed) k v := by
  unfold patchSets at hk
  by_cases hsource : change.isSource = true
  · rw [if_pos hsource] at hk
    dsimp only at hk
    split at hk
    · simp at hk
    · simp only [List.mem_cons, Except.ok.injEq, Prod.mk.injEq, List.not_mem_nil, or_false] at hk
      rcases hk with ⟨-, rfl⟩ | ⟨-, rfl⟩ <;> exact leafStable_str _ _
  · simp only [hsource, Bool.false_eq_true, ↓reduceIte, List.mem_singleton, Except.ok.injEq, Prod.mk.injEq] at hk
    obtain ⟨-, rfl⟩ := hk
    exact leafStable_patchValue change.value change.json (h.resolve_left hsource)

/-- A change keeps the leaves of what it sets exactly when it is settled, as long as the leaf digest does
not collide on the value and what storage makes of it. -/
theorem patchSets_leafStable_iff (change : PatchChange)
    (hleaf : LeafStable (runtimeValue C.typed) change.key change.value →
      normalizeForAbciJson (runtimeValue C.typed change.value) = normalizeForAbciJson change.value) :
    (∀ k v, .ok (k, v) ∈ patchSets C buildContractArtifacts change → LeafStable (runtimeValue C.typed) k v) ↔
      change.Settled C := by
  refine ⟨fun h => ?_, fun h k v hk => patchSets_leafStable h hk⟩
  by_cases hsource : change.isSource = true
  · exact .inl hsource
  right
  unfold patchSets at h
  simp only [hsource, Bool.false_eq_true, ↓reduceIte, List.mem_singleton, Except.ok.injEq, Prod.mk.injEq] at h
  have hself := h _ _ ⟨rfl, rfl⟩
  have hiff := normalize_runtimeValue_iff C.typed change.value change.json
  obtain ⟨key, value, json⟩ := change
  cases value with
  | list items =>
    have hset : Settled C.typed (.list items) := hiff.1 (hleaf hself)
    rwa [Settled] at hset
  | _ => trivial

theorem mem_setsOf {items : Except PyErr Value} {set : Value → Except PyErr (String × Value)}
    {k : String} {v : Value} : .ok (k, v) ∈ setsOf items set ↔
      ∃ doc l, items = .ok doc ∧ doc.iter = .ok l ∧ ∃ e ∈ l, set e = .ok (k, v) := by
  unfold setsOf
  cases h : items >>= Value.iter with
  | error e =>
    constructor
    · intro hmem
      cases List.mem_singleton.1 hmem
    · rintro ⟨doc, l, rfl, hl, -⟩
      cases h.symm.trans (bind_eq_ok.2 ⟨doc, rfl, hl⟩)
  | ok l =>
    obtain ⟨doc, rfl, hl⟩ := bind_eq_ok.1 h
    rw [List.mem_map]
    constructor
    · rintro ⟨e, he, hset⟩
      exact ⟨doc, l, rfl, hl, e, he, hset⟩
    · rintro ⟨doc', l', hdoc, hl', e, he, hset⟩
      cases hdoc
      cases hl.symm.trans hl'
      exact ⟨e, he, hset⟩

/-- The nonce values of a genesis block hold no marked object that storage would change. -/
def NoncesSettled (C : Codec) (block : Value) : Prop :=
  ∀ k v, .ok (k, v) ∈ setsOf (block.get "nonces" (.list [])) nonceSet → Settled C.typed v

theorem stateSet_leafStable {doc : Value} {key k : String} {v : Value} (hjson : isJson doc = true)
    (h : .ok (k, v) ∈ setsOf (doc.get key (.list [])) (stateSet C)) : LeafStable (runtimeValue C.typed) k v := by
  obtain ⟨items, l, hitems, hl, e, he, hset⟩ := mem_setsOf.1 h
  simp only [stateSet, bind_eq_ok] at hset
  obtain ⟨value, hvalue, _, -, _, -, hset⟩ := hset
  cases hset
  have hval := isJson_index (isJson_iter (isJson_get hjson hitems) hl e he) hvalue
  rw [convertRuntimeValue_eq value hval]
  exact leafStable_runtimeValue k value

theorem nonceSet_json {doc : Value} {k : String} {v : Value} (hjson : isJson doc = true)
    (h : .ok (k, v) ∈ setsOf (doc.get "nonces" (.list [])) nonceSet) : isJson v = true := by
  obtain ⟨items, l, hitems, hl, e, he, hset⟩ := mem_setsOf.1 h
  simp only [nonceSet, bind_eq_ok] at hset
  obtain ⟨_, -, _, -, value, hvalue, hset⟩ := hset
  cases hset
  exact isJson_index (isJson_iter (isJson_get hjson hitems) hl e he) hvalue

/-- Genesis keeps the leaf of every value but, where they are unsettled, of nonces. -/
theorem blockSets_leafStable_iff {block : Value} (hjson : isJson block = true)
    (hleaf : ∀ k v, .ok (k, v) ∈ setsOf (block.get "nonces" (.list [])) nonceSet →
      LeafStable (runtimeValue C.typed) k v →
        normalizeForAbciJson (runtimeValue C.typed v) = normalizeForAbciJson v) :
    (∀ k v, .ok (k, v) ∈ blockSets C block → LeafStable (runtimeValue C.typed) k v) ↔ NoncesSettled C block := by
  have hnonce : ∀ k v, .ok (k, v) ∈ setsOf (block.get "nonces" (.list [])) nonceSet →
      (LeafStable (runtimeValue C.typed) k v ↔ Settled C.typed v) := fun k v h =>
    ⟨fun hst => (normalize_runtimeValue_iff C.typed v (nonceSet_json hjson h)).1 (hleaf k v h hst),
      leafStable_of_settled (nonceSet_json hjson h)⟩
  unfold blockSets
  constructor
  · intro h k v hk
    exact (hnonce k v hk).1 (h k v (by simp [hk]))
  · intro h k v hk
    simp only [List.mem_append] at hk
    rcases hk with (hk | hk) | hk
    · exact stateSet_leafStable hjson hk
    · exact (hnonce k v hk).2 (h k v hk)
    · exact stateSet_leafStable hjson hk

end Stable

/-! ### Blocks with patches, and a restart after any of them -/

/-- The driver and the root cache of a running node. -/
structure RootState (D : Type) where
  driver : D
  cache : StateRootCache

/-- What a block writes: the writes of its transactions, and then the patches it activates. -/
structure PatchBlock where
  writes : PyDict String Value
  changes : List PatchChange

section Run

variable (C : Codec) (buildContractArtifacts : String → Value → Except PyErr (String × String))
  {D : Type} [Driver D]

/-- The block is executed and committed; its app hash, if nothing raises. -/
def commitPatchBlock (s : RootState D) (b : PatchBlock) : Option (Bytes × RootState D) :=
  match applySingleBundle C buildContractArtifacts b.changes (Driver.applyWrites s.driver b.writes) with
  | (.error _, _) => none
  | (.ok _, driver) =>
    match s.cache.prepare (keyed (Driver.pending driver)) with
    | (.error _, _) => none
    | (.ok root, cache) => some (root, ⟨Driver.commit driver, cache.commit⟩)

/-- The app hash and the state after each block, up to one that raises. -/
def patchBlockRun (s : RootState D) : List PatchBlock → List (Bytes × RootState D)
  | [] => []
  | b :: rest =>
    match commitPatchBlock C buildContractArtifacts s b with
    | none => []
    | some (root, s') => (root, s') :: patchBlockRun s' rest

variable {C buildContractArtifacts}

/-- The consensus keys of a block are in `K`. -/
def PatchBlock.KeysIn (C : Codec) (buildContractArtifacts : String → Value → Except PyErr (String × String))
    (K : Set String) (b : PatchBlock) : Prop :=
  (∀ k v, b.writes.get? k = some v → isConsensusStateKey k → k ∈ K) ∧
    ∀ change ∈ b.changes, ∀ k v, .ok (k, v) ∈ patchSets C buildContractArtifacts change →
      isConsensusStateKey k → k ∈ K

/-- What the cache stands for is what the store has, and nothing is pending. -/
structure InSync (K : Set String) (s : RootState D) : Prop where
  mirrored : ∃ L, StateRootCache.Inv K s.cache L ∧ Mirrors K (Driver.durable s.driver) L.committed
  nothingPending : Driver.pending s.driver = .empty

/-- A property of the pending writes that every call keeps holds after the calls. -/
theorem setEach_pending {P : String → Value → Prop} (sets : List (Except PyErr (String × Value))) (driver : D)
    (hsets : ∀ k v, .ok (k, v) ∈ sets → P k v) (h : ∀ k v, (Driver.pending driver).get? k = some v → P k v) :
    (∀ k v, (Driver.pending (setEach sets driver).2).get? k = some v → P k v) ∧
      Driver.durable (setEach sets driver).2 = Driver.durable driver := by
  induction sets generalizing driver with
  | nil => exact ⟨h, rfl⟩
  | cons set rest ih =>
    cases set with
    | error e => exact ⟨h, rfl⟩
    | ok p =>
      obtain ⟨key, value⟩ := p
      unfold setEach
      obtain ⟨hp, hd⟩ := ih (Driver.applyWrites driver (.ofList [(key, value)]))
        (fun k v hk => hsets k v (List.mem_cons_of_mem _ hk)) fun k v hk => by
          rw [Driver.pending_applyWrites, PyDict.get?_update_items, PyDict.get?_ofList, List.reverse_singleton,
            PyDict.lookup_cons_ite] at hk
          split at hk
          · rename_i hkey
            cases hk
            rw [hkey]
            exact hsets key value (List.mem_cons_self ..)
          · exact h k v (by simpa using hk)
      exact ⟨hp, hd.trans (Driver.durable_applyWrites ..)⟩

/-- Calls that all have their arguments write them one after another. -/
theorem setEach_map_ok (l : List (String × Value)) (driver : D) :
    (setEach (l.map .ok) driver).1 = .ok () ∧
    Driver.durable (setEach (l.map .ok) driver).2 = Driver.durable driver ∧
    Driver.pending (setEach (l.map .ok) driver).2 = (Driver.pending driver).update l := by
  induction l generalizing driver with
  | nil => exact ⟨rfl, rfl, rfl⟩
  | cons p l ih =>
    obtain ⟨key, value⟩ := p
    obtain ⟨hok, hdurable, hpending⟩ := ih (Driver.applyWrites driver (.ofList [(key, value)]))
    refine ⟨hok, hdurable.trans (Driver.durable_applyWrites ..), ?_⟩
    show Driver.pending (setEach (l.map .ok) _).2 = _
    rw [hpending, Driver.pending_applyWrites]
    rfl

theorem setEach_ok (l : List (String × Value)) (driver : D) :
    (setEach (l.map .ok) driver).1 = .ok () ∧
    Driver.durable (setEach (l.map .ok) driver).2 = Driver.durable driver ∧
    ∀ k, (Driver.pending (setEach (l.map .ok) driver).2).get? k = (l.reverse.lookup k).or ((Driver.pending driver).get? k) := by
  obtain ⟨hok, hdurable, hpending⟩ := setEach_map_ok l driver
  exact ⟨hok, hdurable, fun k => by rw [hpending, PyDict.get?_update]⟩

omit [Driver D] in
theorem patchValue_ne_none : ∀ v, isJson v = true → patchValue C v ≠ .none →
    runtimeValue C.typed (patchValue C v) ≠ .none
  | .dict entries, _, hv => by
    rw [patchValue, C.convertDict_eq] at hv ⊢
    rwa [runtimeValue_idem]
  | .none, _, hv => absurd rfl hv
  | .list _, _, _ | .bool _, _, _ | .int _, _, _ | .float _, _, _ | .str _, _, _ => by
    simp [patchValue, runtimeValue]

theorem patchSets_ne_none {change : PatchChange} {k : String} {v : Value}
    (h : .ok (k, v) ∈ patchSets C buildContractArtifacts change) (hv : v ≠ .none) :
    runtimeValue C.typed v ≠ .none := by
  unfold patchSets at h
  split at h
  · dsimp only at h
    split at h
    · simp at h
    · simp only [List.mem_cons, Except.ok.injEq, Prod.mk.injEq, List.not_mem_nil, or_false] at h
      rcases h with ⟨-, rfl⟩ | ⟨-, rfl⟩ <;> simp [runtimeValue]
  · simp only [List.mem_singleton, Except.ok.injEq, Prod.mk.injEq] at h
    obtain ⟨-, rfl⟩ := h
    exact patchValue_ne_none change.value change.json hv

variable {K : Set String} {s : RootState D} {b : PatchBlock}

/-- A block keeps store and cache together and its app hash is the root of the store. -/
theorem InSync.commitPatchBlock (hK : Set.InjOn hashPriority K)
    (hstored : ∀ v, Driver.stored D v = runtimeValue C.typed v) (h : InSync K s)
    (hkeys : b.KeysIn C buildContractArtifacts K)
    (hwrites : ∀ k v, b.writes.get? k = some v → v ≠ .none →
      Driver.stored D v ≠ .none ∧ LeafStable (Driver.stored D) k v)
    (hchanges : ∀ change ∈ b.changes, ∀ k v, .ok (k, v) ∈ patchSets C buildContractArtifacts change →
      LeafStable (runtimeValue C.typed) k v) {root : Bytes} {s' : RootState D}
    (hblock : XianAbci.commitPatchBlock C buildContractArtifacts s b = some (root, s')) :
    InSync K s' ∧ computeDriverStateRoot (Driver.durable s'.driver) = .ok root := by
  obtain ⟨⟨L, hinv, hmir⟩, hpend⟩ := h
  have hst : Driver.stored D = runtimeValue C.typed := funext hstored
  -- what the block leaves pending
  have hset := setEach_pending (D := D)
    (P := fun k v => (isConsensusStateKey k → k ∈ K) ∧
      (v ≠ .none → Driver.stored D v ≠ .none ∧ LeafStable (Driver.stored D) k v))
    (b.changes.flatMap (patchSets C buildContractArtifacts)) (Driver.applyWrites s.driver b.writes)
    (fun k v hk => by
      obtain ⟨change, hchange, hk⟩ := List.mem_flatMap.1 hk
      refine ⟨hkeys.2 change hchange k v hk, fun hv => ?_⟩
      rw [hst]
      exact ⟨patchSets_ne_none hk hv, hchanges change hchange k v hk⟩)
    (fun k v hk => by
      rw [Driver.pending_applyWrites, hpend, PyDict.get?_update_items, PyDict.get?_empty, Option.or_none] at hk
      exact ⟨hkeys.1 k v hk, hwrites k v hk⟩)
  unfold XianAbci.commitPatchBlock applySingleBundle at hblock
  generalize setEach (b.changes.flatMap (patchSets C buildContractArtifacts))
    (Driver.applyWrites s.driver b.writes) = applied at hset hblock
  obtain ⟨_ | _, driver⟩ := applied
  · cases hblock
  obtain ⟨hpending, hdurable⟩ := hset
  dsimp only at hblock hpending hdurable
  rw [Driver.durable_applyWrites] at hdurable
  have hwritesK : consensusKeys (StateRootCache.toItems (Driver.pending driver)) ⊆ K := by
    intro k hk
    obtain ⟨hcons, v, hv⟩ := (consensusKeys_toItems _ k).1 hk
    exact (hpending k v hv).1 hcons
  have hprep := hinv.prepare hK (keyed (Driver.pending driver)) hwritesK
  have hok := @prepare_ok s.cache (keyed (Driver.pending driver))
  generalize s.cache.prepare (keyed (Driver.pending driver)) = prepared at hblock hprep hok
  obtain ⟨_ | root', cache⟩ := prepared
  · cases hblock
  cases hblock
  obtain ⟨hrootEq, hhash⟩ := hok rfl
  have hmir' : Mirrors K (Driver.durable (Driver.commit driver)) _ := hmir.commit hwritesK hhash
    (fun k v hk _ hv => (hpending k v hk).2 hv)
    (fun k _ => by rw [Driver.get?_durable_commit, hdurable])
  refine ⟨⟨⟨_, hprep.commit, hmir'⟩, Driver.pending_commit _⟩, ?_⟩
  rw [hrootEq]
  exact hmir'.root hK (L := ⟨_, _⟩) hprep

/-- What a block must bring so that the next restart agrees. -/
structure PatchBlock.Survives (C : Codec) (buildContractArtifacts : String → Value → Except PyErr (String × String))
    (K : Set String) (stored : Value → Value) (b : PatchBlock) : Prop where
  keys : b.KeysIn C buildContractArtifacts K
  writes : ∀ k v, b.writes.get? k = some v → v ≠ .none → stored v ≠ .none ∧ LeafStable stored k v
  settled : ∀ change ∈ b.changes, change.Settled C

theorem patchBlockRun_root (hK : Set.InjOn hashPriority K)
    (hstored : ∀ v, Driver.stored D v = runtimeValue C.typed v) (h : InSync K s) (blocks : List PatchBlock)
    (hblocks : ∀ b ∈ blocks, b.Survives C buildContractArtifacts K (Driver.stored D)) :
    ∀ r ∈ patchBlockRun C buildContractArtifacts s blocks,
      computeDriverStateRoot (Driver.durable r.2.driver) = .ok r.1 := by
  induction blocks generalizing s with
  | nil => intro r hr; cases hr
  | cons b rest ih =>
    intro r hr
    unfold patchBlockRun at hr
    cases hb : XianAbci.commitPatchBlock C buildContractArtifacts s b with
    | none => rw [hb] at hr; cases hr
    | some committed =>
      obtain ⟨root, s'⟩ := committed
      have hsurvives := hblocks b (List.mem_cons_self ..)
      obtain ⟨hsync, hroot⟩ := h.commitPatchBlock hK hstored hsurvives.keys hsurvives.writes
        (fun change hchange k v hk => patchSets_leafStable (hsurvives.settled change hchange) hk) hb
      rw [hb] at hr
      rcases List.mem_cons.1 hr with rfl | hr
      · exact hroot
      · exact ih hsync (fun b hb => hblocks b (List.mem_cons_of_mem _ hb)) r hr

variable (C buildContractArtifacts)

/-- Patches and genesis keep the leaf of a value through storage exactly when no list set by a patch,
and no nonce of the genesis block, holds a marked object that storage would change; and then the app
hash of every block is the root of the store it leaves, whatever else leaf-stable the blocks write. -/
theorem app_hash_survives_restart_iff (hstored : ∀ v, Driver.stored D v = runtimeValue C.typed v) :
    (∀ change : PatchChange,
      (LeafStable (Driver.stored D) change.key change.value →
        normalizeForAbciJson (Driver.stored D change.value) = normalizeForAbciJson change.value) →
      ((∀ k v, .ok (k, v) ∈ patchSets C buildContractArtifacts change → LeafStable (Driver.stored D) k v) ↔
        change.Settled C)) ∧
    (∀ block, isJson block = true →
      (∀ k v, .ok (k, v) ∈ setsOf (block.get "nonces" (.list [])) nonceSet → LeafStable (Driver.stored D) k v →
        normalizeForAbciJson (Driver.stored D v) = normalizeForAbciJson v) →
      ((∀ k v, .ok (k, v) ∈ blockSets C block → LeafStable (Driver.stored D) k v) ↔ NoncesSettled C block)) ∧
    ∀ (K : Set String) (s : RootState D) (blocks : List PatchBlock), Set.InjOn hashPriority K → InSync K s →
      (∀ b ∈ blocks, b.Survives C buildContractArtifacts K (Driver.stored D)) →
      ∀ r ∈ patchBlockRun C buildContractArtifacts s blocks,
        computeDriverStateRoot (Driver.durable r.2.driver) = .ok r.1 := by
  have hst : Driver.stored D = runtimeValue C.typed := funext hstored
  refine ⟨fun change hleaf => ?_, fun block hjson hleaf => ?_, fun K s blocks hK hsync hblocks => ?_⟩
  · rw [hst] at hleaf ⊢
    exact patchSets_leafStable_iff change hleaf
  · rw [hst] at hleaf ⊢
    exact blockSets_leafStable_iff hjson hleaf
  · exact patchBlockRun_root hK hstored hsync blocks hblocks

end Run

/-! ### A codec with one marker -/

def digitsValue (l : List Char) : Nat := l.foldl (fun n c => 10 * n + (c.toNat - 48)) 0

/-- `ContractingDecimal(s)` of a plain numeral without a sign. -/
def plainDecimal (s : String) : ContractingDecimal :=
  let whole := s.toList.takeWhile (· ≠ '.')
  let fraction := (s.toList.dropWhile (· ≠ '.')).drop 1
  ⟨digitsValue (whole ++ (fraction ++ List.replicate 30 '0').take 30)⟩

def fixedMarker (entries : List (String × Value)) : Option Value :=
  if entries.map Prod.fst = ["__fixed__"] then
    match entries with
    | [(_, .str s)] => some (.decimal (plainDecimal s))
    | _ => some .none
  else none

def fixedCodec : Codec where
  typed := fixedMarker
  convertDict e := runtimeValue fixedMarker (.dict e)
  typed_keys e e' h := by
    unfold fixedMarker
    rw [h]
    split
    · constructor <;> intro <;> split <;> rfl
    · rfl
  typed_fixed e v h := by
    unfold fixedMarker at h
    split at h
    · split at h <;> cases h <;> simp [runtimeValue]
    · cases h
  convertDict_eq _ := rfl

def fixedStore : StoreCodec where
  stored := runtimeValue fixedMarker
  stored_latestBlock hash height nanos := by
    simp [runtimeValue, runtimeEntries, fixedMarker]

/-- A node over an empty store, with the marker codec. -/
def emptyNode : RootState (CodecDriver fixedStore) := ⟨⟨.empty, .empty⟩, ⟨.nil, .empty, .empty⟩⟩

/-- No source is compiled. -/
def noArtifacts (_ : String) (_ : Value) : Except PyErr (String × String) := .error (.other "no compiler")

def oneAndAHalf : Value := .dict [("__fixed__", .str "1.5")]

def fixedChange : PatchChange := ⟨"con.S:x", oneAndAHalf, rfl⟩

def fixedListChange : PatchChange := ⟨"con.S:x", .list [oneAndAHalf], rfl⟩

/-- A genesis block with a marked decimal in a list, and a nonce. -/
def fixedGenesis : Value := .dict [
  ("genesis", .list [.dict [("key", .str "con.S:x"), ("value", .list [oneAndAHalf])]]),
  ("nonces", .list [.dict [("key", .str "alice"), ("value", .int 3)]])]

theorem inSync_emptyNode : InSync {"con.S:x"} emptyNode := by
  have hinv := StateRootCache.rebuild_inv (K := {"con.S:x"}) (Set.injOn_singleton ..) ⟨.nil, .empty, .empty⟩ .empty
    (fun k hk => by cases hk.2)
  exact ⟨⟨_, hinv, ⟨fun _ _ => rfl, fun k v hv => by cases hv⟩⟩, rfl⟩

theorem fixedChange_run :
    (patchBlockRun fixedCodec noArtifacts emptyNode [⟨.empty, [fixedChange]⟩]).length = 1 := by
  decide +kernel

theorem app_hash_survives_restart_iff_fixed :
    ((∀ k v, .ok (k, v) ∈ patchSets fixedCodec noArtifacts fixedChange →
        LeafStable (Driver.stored (CodecDriver fixedStore)) k v) ↔ fixedChange.Settled fixedCodec) ∧
    ((∀ k v, .ok (k, v) ∈ blockSets fixedCodec fixedGenesis →
        LeafStable (Driver.stored (CodecDriver fixedStore)) k v) ↔ NoncesSettled fixedCodec fixedGenesis) ∧
    ∃ r ∈ patchBlockRun fixedCodec noArtifacts emptyNode [⟨.empty, [fixedChange]⟩],
      computeDriverStateRoot (Driver.durable r.2.driver) = .ok r.1 := by
  obtain ⟨hpatch, hgenesis, hrun⟩ := app_hash_survives_restart_iff (D := CodecDriver fixedStore)
    fixedCodec noArtifacts fun _ => rfl
  refine ⟨hpatch fixedChange ?_, hgenesis _ rfl ?_, ?_⟩
  · intro h
    have hne : hashLeaf "con.S:x" (runtimeValue fixedMarker oneAndAHalf) ≠ hashLeaf "con.S:x" oneAndAHalf := by
      decide +kernel
    exact absurd h hne
  · intro k v h _
    cases List.mem_singleton.1 h
    rfl
  · obtain ⟨r, hr⟩ := List.exists_mem_of_length_pos
      (show 0 < (patchBlockRun fixedCodec noArtifacts emptyNode [⟨.empty, [fixedChange]⟩]).length by
        rw [fixedChange_run]; omega)
    refine ⟨r, hr, hrun {"con.S:x"} emptyNode _ (Set.injOn_singleton ..) inSync_emptyNode ?_ r hr⟩
    intro b hb
    obtain rfl := List.mem_singleton.1 hb
    refine ⟨⟨fun k v hk => (by cases hk), fun change hchange k v hk _ => ?_⟩, fun k v hk => (by cases hk), ?_⟩
    · obtain rfl := List.mem_singleton.1 hchange
      cases List.mem_singleton.1 hk
      rfl
    · intro change hchange
      obtain rfl := List.mem_singleton.1 hchange
      exact .inr trivial

theorem fixedListChange_root : (match commitPatchBlock fixedCodec noArtifacts emptyNode ⟨.empty, [fixedListChange]⟩ with
    | some (root, s') => decide (computeDriverStateRoot s'.driver.durable ≠ .ok root)
    | none => false) = true := by
  decide +kernel

/-- A list with a marked decimal in it: the committed app hash is not the root a restarted node computes. -/
theorem app_hash_lost_at_restart : ∃ root s',
    commitPatchBlock fixedCodec noArtifacts emptyNode ⟨.empty, [fixedListChange]⟩ = some (root, s') ∧
      computeDriverStateRoot (Driver.durable s'.driver) ≠ .ok root := by
  have h := fixedListChange_root
  split at h
  · rename_i root s' hcommit
    exact ⟨root, s', hcommit, of_decide_eq_true h⟩
  · cases h

end XianAbci
