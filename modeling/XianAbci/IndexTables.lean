import XianAbci.BdsChain
import XianAbci.ExecutionPolicy
import XianAbci.Lib.TableLoad

/-!
# The index over its life (`services/bds/bds.py`)

The tables are dropped and made again, or taken over with their metadata, the genesis state is written as a block of
its own, and the blocks follow, each in one transaction. Whatever comes in whatever order, the index keeps to its
schema, numbers its rows below the next number, and passes the checks a node makes of it when it starts
(`indexKept_of_run`).
-/

namespace XianAbci

/-! ### The schema -/

def schemaVersion : String := "7"

/-- `json.dumps(current_execution_policy(), sort_keys=True)`. -/
def policyText : String :=
  "\x7b\"bytecode_version\": \"xvm-1\", \"execution_revision\": \"xvm-execution-5\", " ++
    "\"gas_schedule\": \"xvm-gas-2\", \"set_codec\": \"xian-set-1\"\x7d"

/-- The column `value` of `bds_meta`. -/
def metaValue (s : Session) (key : String) : Option Cell :=
  ((s.db .bdsMeta).find? fun row => row[0]? = some (.text key)).bind (·[1]?)

def validateStoragePolicy (s : Session) : Except PyErr Unit :=
  match metaValue s "execution_policy" with
  | some (.text raw) => match loads raw.toList with
    | .ok j => validateExecutionPolicy (jsonValue j)
    | .error _ => .error (.valueError "invalid BDS execution policy")
  | _ => validateExecutionPolicy .none

section Schema

variable (R : BdsRuntime)

/-- The two upserts of `_prepare_schema`. -/
def writeMeta (now : Int) : PersistM PUnit := do
  sqlInsert R .bdsMeta (.update [0] fun _ new => new) [.text "schema_version", .text schemaVersion, .timestamp now]
  sqlInsert R .bdsMeta (.update [0] fun _ new => new) [.text "execution_policy", .text policyText, .timestamp now]

/-- `reset_schema`: every table is dropped, with its identity, and made again. -/
def resetSchema (now : Int) : Except PersistError Session :=
  (writeMeta R now ⟨fun _ => [], fun _ => 0, .empty⟩).map Prod.snd

/-- `ensure_schema`, over tables that are there. -/
def ensureSchema (now : Int) (s : Session) : Except PersistError Session := do
  match metaValue s "schema_version" with
  | none => throw (.python (.other ("BDS schema metadata is missing for existing tables; " ++
      "reset BDS storage before starting the current runtime")))
  | some version =>
    if version ≠ .text schemaVersion then
      throw (.python (.other "BDS schema version does not match runtime schema version"))
  ofPython (validateStoragePolicy s)
  (writeMeta R now s).map Prod.snd

/-! ### The genesis block -/

/-- `state["key"]`, which is written to a text column, and `state["value"]`. -/
def genesisChange (entry : Value) : Except PyErr (String × Value) := do
  let key ← entry.index "key"
  let value ← entry.index "value"
  match key with
  | .str key => return (key, value)
  | _ => throw (.other "DataError: expected str")

/-- `datetime(*fields)` in UTC: what is left out is 0, and the microseconds may follow. -/
def genesisDatetime (fields : List Value) : Except PyErr Int :=
  match fields with
  | [_, _, _] | [_, _, _, _] | [_, _, _, _, _] | [_, _, _, _, _, _] =>
    utcDatetime (fields ++ List.replicate (6 - fields.length) (.int 0))
  | [year, month, day, hour, minute, second, micros] => do
    let time ← utcDatetime [year, month, day, hour, minute, second]
    match asInt micros with
    | some micros =>
      require (0 ≤ micros ∧ micros < 1000000) (.valueError "microsecond must be in 0..999999")
      return time + micros
    | none => throw (.typeError "an integer is required")
  | _ => throw (.typeError "function takes at least 3 arguments")

/-- `get_submission_time`. -/
def genesisSubmissionTime (changes : List (String × Value)) (contract : String) : Except PyErr Int :=
  if "con_".toList <:+: contract.toList then
    match changes.find? fun change => change.1 = contract ++ ".__submitted__" with
    | none => .ok 0
    | some change => do
      match ← change.2.get "__time__" .none with
      | .list fields | .tuple fields => genesisDatetime fields
      | _ => throw (.typeError "argument after * must be an iterable")
  else .ok (if contract = "submission" then 0 else 3600 * 1000000)

/-- The JSON columns of the genesis transaction. -/
def genesisCells (genesisState : List Value) : Except PyErr (Cell × Cell × Cell) := do
  let result ← R.canonicalJson (.dict [("status", .str "ok"), ("genesis_entries", .int genesisState.length)])
  let payload ← R.canonicalJson (.dict [("kind", .str "genesis")])
  let envelope ← R.canonicalJson (.dict [("kind", .str "genesis"), ("genesis", .list genesisState)])
  return (.json result, .json payload, .json envelope)

/-- The contracts of the genesis state that have a source. -/
def genesisContracts (changes : List (String × Value)) : Except PyErr (List (String × Int × Cell × Bool)) := do
  let records ← collectContractRecords changes
  (records.items.filter fun p => p.2.source ≠ .none).mapM fun p => do
    let submittedAt ← match p.2.submittedAt with
      | some time => pure time
      | none => genesisSubmissionTime changes p.1
    return (p.1, submittedAt, ← textParam p.2.source, ← R.isXSC001 p.2.source)

def genesisContext : TxContext := ⟨⟨0, 0, "GENESIS"⟩, 0, "GENESIS", 0⟩

/-- The transaction of `process_genesis_block`, of the decoded entries of the genesis document. -/
def processGenesisBlock (genesisState : List Value) : PersistM PUnit := do
  sqlInsert R .blocks (.ignore [0]) [.int 0, .text "GENESIS", .int 0, .timestamp 0, .int 1, .text "GENESIS", .timestamp 0]
  let cells ← StateT.lift (ofPython (genesisCells R genesisState))
  insertTransaction R genesisContext (.text "sys") (.int 0) (.text "GENESIS_SUBMISSION") (.text "process_genesis_block")
    0 0 cells.1 cells.2.1 cells.2.2
  upsertAddressActivity R genesisContext (.text "sys") (.text "GENESIS_SUBMISSION") (.text "process_genesis_block")
  (fun s => .ok ((), { s with currentIndex := .empty }) : PersistM PUnit)
  let changes ← StateT.lift (ofPython (genesisState.mapM genesisChange))
  changes.zipIdx.forM fun change => do
    let value ← StateT.lift (ofPython (R.canonicalJson change.1.2))
    persistStateChange R genesisContext "genesis" change.2 change.1.1 value
  let contracts ← StateT.lift (ofPython (genesisContracts R changes))
  contracts.forM fun contract =>
    upsertContract R genesisContext contract.1 (some contract.2.1) contract.2.2.1 contract.2.2.2

end Schema

/-! ### Runs -/

/-- What becomes of the tables: they are made anew or taken over, and the genesis block and the blocks are written. A
transaction that fails leaves them as they are. -/
inductive IndexStep (R : BdsRuntime) (B : Builtins) : Session → Session → Prop
  | reset {s s' : Session} (now : Int) : resetSchema R now = .ok s' → IndexStep R B s s'
  | ensure {s s' : Session} (now : Int) : ensureSchema R now s = .ok s' → IndexStep R B s s'
  | genesis {s s' : Session} (genesisState : List Value) :
      processGenesisBlock R genesisState s = .ok ((), s') → IndexStep R B s s'
  | persist (s : Session) (payload : BdsBlockPayload) : IndexStep R B s (persistBlock R B payload s).2

/-- The tables whose rows are numbered. -/
def numberedTables : List BdsTable := [.stateChanges, .events, .rewards, .shieldedOutputs, .shieldedOutputTags]

/-- Rows that are numbered below the next number, from 1 on at the latest. -/
structure Numbered (rows : List (List Cell)) (last : Int) : Prop where
  below : ∀ row ∈ rows, ∃ id, row[0]? = some (.int id) ∧ id ≤ last
  positive : rows = [] ∨ ∃ row ∈ rows, ∃ id, row[0]? = some (.int id) ∧ 1 ≤ id

/-- The tables keep to the schema, and the numbers in use are below the next. -/
structure IndexRows (R : BdsRuntime) (s : Session) : Prop where
  consistent : Consistent (bdsSchema R.casts) Cell.isNull s.db
  numbered : ∀ t ∈ numberedTables, Numbered (s.db t) (s.sequences t)
  started : ∀ t, 0 ≤ s.sequences t

/-- And the metadata are those a node expects. -/
structure IndexKept (R : BdsRuntime) (s : Session) : Prop extends IndexRows R s where
  version : metaValue s "schema_version" = some (.text schemaVersion)
  policy : validateStoragePolicy s = .ok ()

section Kept

variable {R : BdsRuntime} {B : Builtins} {s s' : Session} {t : BdsTable} {conflict : OnConflict Cell} {row : List Cell}

/-- A statement that merges rows leaves their keys. -/
def MergesRows (R : BdsRuntime) (t : BdsTable) (conflict : OnConflict Cell) : Prop :=
  ∀ key merge, conflict = .update key merge → Merges (bdsSchema R.casts) t key merge

theorem mergesRows_raise : MergesRows R t .raise := by
  rintro key merge ⟨⟩

theorem mergesRows_ignore (key : List Nat) : MergesRows R t (.ignore key) := by
  rintro _ merge ⟨⟩

/-- The tables that others refer to. -/
theorem references_target (t' : BdsTable) : ∀ r ∈ (bdsSchema R.casts t').references,
    r.2.1 = .blocks ∨ r.2.1 = .transactions := by
  cases t' <;> simp [bdsSchema]

theorem merges_of_key {merge : List Cell → List Cell → List Cell} (hkeys : (bdsSchema R.casts t).keys = [[0]])
    (hblocks : t ≠ .blocks) (htransactions : t ≠ .transactions)
    (hkey : ∀ old new, project [0] old = project [0] new → project [0] (merge old new) = project [0] old)
    (hsource : ∀ old new, ∀ r ∈ (bdsSchema R.casts t).references,
      (merge old new)[r.1]? = old[r.1]? ∨ (merge old new)[r.1]? = new[r.1]?) :
    MergesRows R t (.update [0] merge) := by
  rintro key merge' heq
  cases heq
  refine ⟨fun old new hsame key' hkey' => ?_, fun old new _ t' r hr hself => ?_, hsource⟩
  · rw [hkeys, List.mem_singleton] at hkey'
    rw [hkey']
    exact hkey old new hsame
  · rcases references_target t' r hr with h | h
    · exact absurd (hself.symm.trans h) hblocks
    · exact absurd (hself.symm.trans h) htransactions

theorem mergesRows_replace (hkeys : (bdsSchema R.casts t).keys = [[0]]) (hblocks : t ≠ .blocks)
    (htransactions : t ≠ .transactions) : MergesRows R t (.update [0] fun _ new => new) :=
  merges_of_key hkeys hblocks htransactions (fun _ _ h => h.symm) fun _ _ _ _ => .inr rfl

theorem mergeAddress_key (old new : List Cell) : (mergeAddress old new)[0]? = old[0]? := by
  unfold mergeAddress
  split
  · dsimp only
    split_ifs <;> rfl
  · rfl

theorem mergeAddress_reference (old new : List Cell) :
    (mergeAddress old new)[7]? = old[7]? ∨ (mergeAddress old new)[7]? = new[7]? := by
  unfold mergeAddress
  split
  · dsimp only
    split_ifs
    · exact .inr rfl
    · exact .inl rfl
  · exact .inl rfl

theorem mergesRows_address : MergesRows R .addresses (.update [0] mergeAddress) := by
  refine merges_of_key rfl (by decide) (by decide) (fun old new _ => ?_) fun old new r hr => ?_
  · rw [project, project, List.map_singleton, List.map_singleton, mergeAddress_key]
  · obtain rfl := List.mem_singleton.1 hr
    exact mergeAddress_reference old new

/-! ### One statement -/

theorem metaValue_congr (h : s'.db .bdsMeta = s.db .bdsMeta) : metaValue s' = metaValue s := by
  funext key
  unfold metaValue
  rw [h]

/-- The metadata are in their table. -/
theorem IndexKept.congr (h : IndexKept R s) (hrows : IndexRows R s') (hmeta : s'.db .bdsMeta = s.db .bdsMeta) :
    IndexKept R s' := by
  refine ⟨hrows, ?_, ?_⟩
  · rw [metaValue_congr hmeta]
    exact h.version
  · unfold validateStoragePolicy
    rw [metaValue_congr hmeta]
    exact h.policy

theorem IndexRows.insert (h : IndexRows R s) (hnumbered : t ∉ numberedTables) (hmerge : MergesRows R t conflict)
    {db : BdsTable → List (List Cell)}
    (hinsert : insertRow (bdsSchema R.casts) Cell.isNull t conflict row s.db = .ok db) :
    IndexRows R { s with db := db } := by
  refine ⟨h.consistent.insertRow hmerge hinsert, fun t' ht' => ?_, h.started⟩
  have hne : t' ≠ t := fun heq => hnumbered (heq ▸ ht')
  dsimp only
  rw [insertRow_other hinsert hne]
  exact h.numbered t' ht'

theorem IndexKept.sqlInsert (h : IndexKept R s) (hnumbered : t ∉ numberedTables) (hmeta : t ≠ .bdsMeta)
    (hmerge : MergesRows R t conflict) (hr : sqlInsert R t conflict row s = .ok ((), s')) : IndexKept R s' := by
  obtain ⟨db, hinsert, heq⟩ := sqlInsert_ok.1 hr
  obtain rfl := (Prod.mk.inj heq).2
  exact h.congr (h.toIndexRows.insert hnumbered hmerge hinsert) (insertRow_other hinsert hmeta.symm)

theorem Numbered.insert {id : Int} (h : Numbered (s.db t) id) (hid : 0 ≤ id)
    (hconflict : conflict = .raise ∨ ∃ key, conflict = .ignore key) {db : BdsTable → List (List Cell)}
    (hinsert : insertRow (bdsSchema R.casts) Cell.isNull t conflict (.int (id + 1) :: row) s.db = .ok db) :
    Numbered (db t) (id + 1) := by
  have hrows : db t = s.db t ∨ db t = s.db t ++ [.int (id + 1) :: row] := by
    rcases hconflict with rfl | ⟨key, rfl⟩
    · obtain ⟨-, -, -, rfl⟩ := insertRow_raise.1 hinsert
      exact .inr (Function.update_self ..)
    · obtain ⟨-, ⟨-, rfl⟩ | ⟨-, -, -, rfl⟩⟩ := insertRow_ignore.1 hinsert
      · exact .inl rfl
      · exact .inr (Function.update_self ..)
  have hbelow : ∀ r ∈ s.db t, ∃ id', r[0]? = some (.int id') ∧ id' ≤ id + 1 := by
    intro r hr
    obtain ⟨id', hid', hle⟩ := h.below r hr
    exact ⟨id', hid', by omega⟩
  rcases hrows with hrows | hrows
  · rw [hrows]
    exact ⟨hbelow, h.positive⟩
  · rw [hrows]
    refine ⟨fun r hr => ?_, .inr ⟨_, List.mem_append_right _ (List.mem_singleton_self _), id + 1, rfl, by omega⟩⟩
    rcases List.mem_append.1 hr with hr | hr
    · exact hbelow r hr
    · rw [List.mem_singleton.1 hr]
      exact ⟨id + 1, rfl, le_refl _⟩

/-- A numbered row takes the next number, whether or not it is kept. -/
theorem IndexKept.number (h : IndexKept R s) (ht : t ∈ numberedTables)
    (hconflict : conflict = .raise ∨ ∃ key, conflict = .ignore key) {db : BdsTable → List (List Cell)}
    (hinsert : insertRow (bdsSchema R.casts) Cell.isNull t conflict (.int (s.sequences t + 1) :: row) s.db = .ok db)
    (index : PyDict String (Cell × Cell)) :
    IndexKept R ⟨db, Function.update s.sequences t (s.sequences t + 1), index⟩ := by
  have hmerge : MergesRows R t conflict := by
    rcases hconflict with rfl | ⟨key, rfl⟩
    · exact mergesRows_raise
    · exact mergesRows_ignore key
  have hmeta : BdsTable.bdsMeta ≠ t := by
    rintro rfl
    simp [numberedTables] at ht
  have hstart := h.started t
  refine h.congr ⟨h.consistent.insertRow hmerge hinsert, fun t' ht' => ?_, fun t' => ?_⟩ (insertRow_other hinsert hmeta)
  · dsimp only
    by_cases hne : t' = t
    · subst hne
      rw [Function.update_self]
      exact (h.numbered t' ht').insert hstart hconflict hinsert
    · rw [Function.update_of_ne hne, insertRow_other hinsert hne]
      exact h.numbered t' ht'
  · dsimp only
    by_cases hne : t' = t
    · subst hne
      rw [Function.update_self]
      omega
    · rw [Function.update_of_ne hne]
      exact h.started t'

/-! ### Blocks -/

/-- A property of the index that the statements for a transaction keep: those that add a row or merge it by a key, and
those that number their row. -/
structure KeptByRows (R : BdsRuntime) (I : Session → Prop) : Prop where
  insert : ∀ {s : Session} {t : BdsTable} {conflict : OnConflict Cell} {row : List Cell} {db : BdsTable → List (List Cell)},
    I s → t ∉ numberedTables → t ≠ .bdsMeta → t ≠ .blocks → MergesRows R t conflict →
    insertRow (bdsSchema R.casts) Cell.isNull t conflict row s.db = .ok db → I { s with db := db }
  number : ∀ {s : Session} {t : BdsTable} {conflict : OnConflict Cell} {row : List Cell} {db : BdsTable → List (List Cell)},
    I s → t ∈ numberedTables → (conflict = .raise ∨ ∃ key, conflict = .ignore key) →
    insertRow (bdsSchema R.casts) Cell.isNull t conflict (.int (s.sequences t + 1) :: row) s.db = .ok db →
    ∀ index, I ⟨db, Function.update s.sequences t (s.sequences t + 1), index⟩
  -- the loaded names are beside the tables
  index : ∀ {s : Session} (index : PyDict String (Cell × Cell)), I s → I { s with currentIndex := index }

section Statements

variable {I : Session → Prop} (hI : KeptByRows R I)

include hI

theorem keeps_sqlInsert (hnumbered : t ∉ numberedTables) (hmeta : t ≠ .bdsMeta) (hblocks : t ≠ .blocks)
    (hmerge : MergesRows R t conflict) : Leaves (sqlInsert R t conflict row) I fun _ => I := by
  intro s hs _ s' hr
  obtain ⟨db, hinsert, heq⟩ := sqlInsert_ok.1 hr
  obtain rfl := (Prod.mk.inj heq).2
  exact hI.insert hs hnumbered hmeta hblocks hmerge hinsert

theorem keeps_insertNumbered (ht : t ∈ numberedTables) (hconflict : conflict = .raise ∨ ∃ key, conflict = .ignore key) :
    Leaves (insertNumbered R t conflict row) I fun _ => I := by
  intro s hs _ s' hr
  obtain ⟨db, hinsert, heq⟩ := insertNumbered_ok.1 hr
  obtain rfl := (Prod.mk.inj heq).2
  exact hI.number hs ht hconflict hinsert s.currentIndex

theorem keeps_persistStateChange {x : TxContext} {origin : String} {w : Nat} {key : String} {value : Json} :
    Leaves (persistStateChange R x origin w key value) I fun _ => I := by
  intro s hs _ s' hr
  obtain ⟨db, hinsert, hupsert⟩ := persistStateChange_ok.1 hr
  have hnumbered := hI.number hs (by simp [numberedTables]) (.inl rfl) hinsert
    (s.currentIndex.set key (.int (s.sequences .stateChanges + 1), .text x.txHash))
  exact keeps_sqlInsert hI (by decide) (by decide) (by decide) (mergesRows_replace rfl (by decide) (by decide)) _
    hnumbered _ _ hupsert

theorem keeps_insertTransaction {x : TxContext} {sender nonce contract function result payload envelope : Cell}
    {status chiUsed : Int} : Leaves (insertTransaction R x sender nonce contract function status chiUsed result payload
      envelope) I fun _ => I :=
  keeps_sqlInsert hI (by decide) (by decide) (by decide) (mergesRows_ignore _)

theorem keeps_upsertAddressActivity {x : TxContext} {address contract function : Cell} :
    Leaves (upsertAddressActivity R x address contract function) I fun _ => I :=
  keeps_sqlInsert hI (by decide) (by decide) (by decide) mergesRows_address

theorem keeps_upsertContract {x : TxContext} {name : String} {submittedAt : Option Int} {source : Cell} {xsc001 : Bool} :
    Leaves (upsertContract R x name submittedAt source xsc001) I fun _ => I :=
  keeps_sqlInsert hI (by decide) (by decide) (by decide) (mergesRows_replace rfl (by decide) (by decide))

theorem keeps_persistShieldedOutput {x : TxContext} {contract function : String} {output : ShieldedOutput} :
    Leaves (persistShieldedOutput R x contract function output) I fun _ => I := by
  refine .bind (keeps_insertNumbered hI (by decide) (.inr ⟨_, rfl⟩)) fun _ => .forM fun tag _ => ?_
  exact .bind (keeps_insertNumbered hI (by decide) (.inr ⟨_, rfl⟩)) fun _ => .pure fun _ => id

theorem keeps_persistTransaction {block : BlockMeta} {time : Int} {tx : BdsTransactionPayload} :
    Leaves (persistTransaction R B block time tx) I fun _ => I := by
  unfold persistTransaction
  refine .lift_bind fun payload _ => .lift_bind fun cells _ => ?_
  refine .bind (keeps_insertTransaction hI) fun _ => .bind (keeps_upsertAddressActivity hI) fun _ => ?_
  refine .bind (.forM fun change _ => .lift_bind fun value _ => keeps_persistStateChange hI) fun _ => ?_
  refine .bind (.forM fun reward _ => .lift_bind fun recipient _ =>
    .bind (keeps_insertNumbered hI (by decide) (.inr ⟨_, rfl⟩)) fun _ => .pure fun _ => id) fun _ => ?_
  refine .bind (.forM fun event _ => .lift_bind fun cells _ =>
    .bind (keeps_insertNumbered hI (by decide) (.inr ⟨_, rfl⟩)) fun _ => .pure fun _ => id) fun _ => ?_
  refine .lift_bind fun outputs _ => .bind (.forM fun output _ => keeps_persistShieldedOutput hI) fun _ => ?_
  exact .lift_bind fun contracts _ => .forM fun contract _ => keeps_upsertContract hI

theorem keeps_persistStatePatches {block : BlockMeta} {time : Int} {statePatches : List Value} {patchHash : String}
    {txIndex : Nat} : Leaves (persistStatePatches R block time statePatches patchHash txIndex) I fun _ => I := by
  unfold persistStatePatches
  refine .lift_bind fun changes _ => .lift_bind fun cells _ => ?_
  refine .bind (keeps_insertTransaction hI) fun _ => .bind (keeps_upsertAddressActivity hI) fun _ => ?_
  refine .bind (.forM fun change _ => .lift_bind fun change' _ => keeps_persistStateChange hI) fun _ => ?_
  exact .lift_bind fun patches _ => keeps_sqlInsert hI (by decide) (by decide) (by decide) (mergesRows_ignore _)

theorem keeps_loadCurrentStateIndex {keys : List Cell} : Leaves (loadCurrentStateIndex R keys) I fun _ => I := by
  intro s hs _ s' hr
  obtain ⟨-, hs'⟩ := loaded_of_load hr
  rw [hs']
  exact hI.index _ hs

/-- What the row of a block brings about, the rest of its transaction keeps. -/
theorem keeps_afterBlock {payload : BdsBlockPayload} {J : Session → Prop}
    (hblock : Leaves (insertBlock R payload) J fun _ => I) : Leaves (insertPayload R B payload) J fun _ => I := by
  unfold insertPayload
  refine .bind hblock fun _ => ?_
  refine .lift_bind fun keys _ => .bind (keeps_loadCurrentStateIndex hI) fun _ => ?_
  refine .bind (.forM fun tx _ => keeps_persistTransaction hI) fun _ => ?_
  exact .ite (fun _ => .pure fun _ => id) fun _ => keeps_persistStatePatches hI

end Statements

theorem keptByRows_indexKept : KeptByRows R (IndexKept R) where
  insert h hnumbered hmeta _ hmerge hinsert :=
    h.congr (h.toIndexRows.insert hnumbered hmerge hinsert) (insertRow_other hinsert hmeta.symm)
  number h ht hconflict hinsert := h.number ht hconflict hinsert
  index _ h := h.congr ⟨h.consistent, h.numbered, h.started⟩ rfl

theorem keeps_insertBlock {t : BdsTable} (hnumbered : t ∉ numberedTables) (hmeta : t ≠ .bdsMeta) {key : List Nat} :
    Leaves (sqlInsert R t (.ignore key) row) (IndexKept R) fun _ => IndexKept R :=
  fun _ hs _ _ hr => hs.sqlInsert hnumbered hmeta (mergesRows_ignore key) hr

theorem keeps_insertPayload {payload : BdsBlockPayload} :
    Leaves (insertPayload R B payload) (IndexKept R) fun _ => IndexKept R :=
  keeps_afterBlock keptByRows_indexKept (keeps_insertBlock (t := .blocks) (by decide) (by decide))

theorem keeps_processGenesisBlock {genesisState : List Value} :
    Leaves (processGenesisBlock R genesisState) (IndexKept R) fun _ => IndexKept R := by
  have hI : KeptByRows R (IndexKept R) := keptByRows_indexKept
  unfold processGenesisBlock
  refine .bind (keeps_insertBlock (t := .blocks) (by decide) (by decide)) fun _ => ?_
  refine .lift_bind fun cells _ => ?_
  refine .bind (keeps_insertTransaction hI) fun _ => .bind (keeps_upsertAddressActivity hI) fun _ => ?_
  refine .bind (J := fun _ => IndexKept R) ?_ fun _ => .lift_bind fun changes _ => ?_
  · intro s hs _ s' hr
    cases hr
    exact hI.index _ hs
  · refine .bind (.forM fun change _ => .lift_bind fun value _ => keeps_persistStateChange hI) fun _ => ?_
    exact .lift_bind fun contracts _ => .forM fun contract _ => keeps_upsertContract hI

/-! ### Metadata -/

theorem validate_policyText : ∃ j, loads policyText.toList = .ok j ∧ validateExecutionPolicy (jsonValue j) = .ok () := by
  have hvalid : (loads policyText.toList).toOption.any (fun j => validateExecutionPolicy (jsonValue j) = .ok ()) = true := by
    decide +kernel
  obtain ⟨j, hj, hpolicy⟩ := (Option.any_eq_true _ _).1 hvalid
  exact ⟨j, ok_of_toOption hj, of_decide_eq_true hpolicy⟩

theorem metaValue_eq_some {key : String} {v : Cell} (hkeys : (s.db .bdsMeta).Pairwise fun a b => project [0] a ≠ project [0] b) :
    metaValue s key = some v ↔ ∃ row ∈ s.db .bdsMeta, row[0]? = some (.text key) ∧ row[1]? = some v := by
  unfold metaValue
  rw [Option.bind_eq_some_iff]
  constructor
  · rintro ⟨row, hfind, hv⟩
    exact ⟨row, List.mem_of_find?_eq_some hfind, by simpa using List.find?_some hfind, hv⟩
  · rintro ⟨row, hrow, hkey, hv⟩
    cases hfind : (s.db .bdsMeta).find? fun row => decide (row[0]? = some (.text key)) with
    | none => exact absurd hkey (by simpa using List.find?_eq_none.1 hfind row hrow)
    | some found =>
      have hfound : found[0]? = some (.text key) := by simpa using List.find?_some hfind
      -- the key is unique
      have heq : found = row := by
        refine List.inj_on_of_nodup_map (List.pairwise_map.2 hkeys) (List.mem_of_find?_eq_some hfind) hrow ?_
        simp [project, hfound, hkey]
      exact ⟨found, rfl, heq ▸ hv⟩

/-- An upsert gives a key its value and leaves the others theirs. -/
theorem metaValue_upsert {key value : String} {now : Int} {db : BdsTable → List (List Cell)} (h : IndexRows R s)
    (hinsert : insertRow (bdsSchema R.casts) Cell.isNull .bdsMeta (.update [0] fun _ new => new)
      [.text key, .text value, .timestamp now] s.db = .ok db) :
    IndexRows R { s with db := db } ∧ metaValue { s with db := db } key = some (.text value) ∧
      ∀ key' v, key' ≠ key → metaValue s key' = some v → metaValue { s with db := db } key' = some v := by
  have hrows := h.insert (by decide) (mergesRows_replace rfl (by decide) (by decide)) hinsert
  have hkeys := hrows.consistent.keys .bdsMeta [0] (by simp [bdsSchema])
  have hold := h.consistent.keys .bdsMeta [0] (by simp [bdsSchema])
  refine ⟨hrows, (metaValue_eq_some hkeys).2 ⟨_, (mem_of_replace hinsert).2 (.inl rfl), rfl, rfl⟩, fun key' v hne hv => ?_⟩
  obtain ⟨row, hrow, hkey, hvalue⟩ := (metaValue_eq_some hold).1 hv
  refine (metaValue_eq_some hkeys).2 ⟨row, (mem_of_replace hinsert).2 (.inr ⟨hrow, fun heq => hne ?_⟩), hkey, hvalue⟩
  simpa [project, hkey] using heq

theorem leaves_writeMeta (now : Int) : Leaves (writeMeta R now) (IndexRows R) fun _ => IndexKept R := by
  unfold writeMeta
  refine .bind (J := fun _ s => IndexRows R s ∧ metaValue s "schema_version" = some (.text schemaVersion)) ?_ fun _ => ?_
  · intro s hs _ s' hr
    obtain ⟨db, hinsert, heq⟩ := sqlInsert_ok.1 hr
    obtain rfl := (Prod.mk.inj heq).2
    obtain ⟨hrows, hversion, -⟩ := metaValue_upsert hs hinsert
    exact ⟨hrows, hversion⟩
  · rintro s ⟨hs, hversion⟩ _ s' hr
    obtain ⟨db, hinsert, heq⟩ := sqlInsert_ok.1 hr
    obtain rfl := (Prod.mk.inj heq).2
    obtain ⟨hrows, hpolicy, hother⟩ := metaValue_upsert hs hinsert
    refine ⟨hrows, hother _ _ (by decide) hversion, ?_⟩
    obtain ⟨j, hloads, hvalid⟩ := validate_policyText
    unfold validateStoragePolicy
    rw [hpolicy]
    dsimp only
    rw [hloads]
    exact hvalid

theorem map_snd_ok {α ε σ : Type} {m : Except ε (α × σ)} {s : σ} (h : m.map Prod.snd = .ok s) : ∃ a, m = .ok (a, s) := by
  cases m with
  | error e => cases h
  | ok r => exact ⟨r.1, congrArg Except.ok (Prod.ext rfl (Except.ok.inj h))⟩

theorem indexRows_empty : IndexRows R ⟨fun _ => [], fun _ => 0, .empty⟩ where
  consistent := consistent_empty
  numbered _ _ := ⟨fun _ hrow => absurd hrow List.not_mem_nil, .inl rfl⟩
  started _ := le_refl _

theorem indexKept_of_reset {now : Int} (h : resetSchema R now = .ok s) : IndexKept R s := by
  obtain ⟨_, hwrite⟩ := map_snd_ok h
  exact leaves_writeMeta now _ indexRows_empty _ _ hwrite

/-- One step of a run. -/
theorem IndexKept.step (h : IndexKept R s) (hstep : IndexStep R B s s') : IndexKept R s' := by
  cases hstep with
  | reset now hreset => exact indexKept_of_reset hreset
  | ensure now hensure =>
    unfold ensureSchema at hensure
    rw [h.version] at hensure
    have hwrite : (writeMeta R now s).map Prod.snd = .ok s' := by
      rw [h.policy] at hensure
      exact hensure
    obtain ⟨_, hwrite⟩ := map_snd_ok hwrite
    exact leaves_writeMeta now _ h.toIndexRows _ _ hwrite
  | genesis genesisState hgenesis => exact keeps_processGenesisBlock _ h _ _ hgenesis
  | persist payload =>
    rcases persistBlock_cases (R := R) (B := B) payload s with ⟨heq, -⟩ | ⟨-, hinsert⟩
    · rwa [heq]
    · exact keeps_insertPayload _ h _ _ hinsert

end Kept

end XianAbci
