import XianAbci.PatchManager

/-!
# What a patch records is what it writes, once

The loop that records a change and the loop that writes it go over the file in the same order, so a key's recorded
values stand in the order of its writes, sorted or not, and the last one is what the driver holds. The writes leave
the records of governance alone but for the five fields of an applied patch; a second call then finds no approved
patch, and a replay finds the same records under another status.
-/

namespace XianAbci
open StableSort

section Manager

variable {B : Builtins} {C : Codec} {buildContractArtifacts : String → Value → Except PyErr (String × String)}

/-! ### The writes of an execution -/

/-- What a recorded change sets. -/
def BundleChange.write (C : Codec) (change : BundleChange) : String × Value :=
  (change.key, patchValue C change.value.value)

/-- The recorded changes of an execution in the order of the file. -/
def PatchExecution.fileChanges (B : Builtins)
    (buildContractArtifacts : String → Value → Except PyErr (String × String)) (e : PatchExecution) :
    List BundleChange :=
  ((expandChanges B buildContractArtifacts e.bundle.changes.items).toOption).getD []

/-- An execution as `_build_executions` makes it. -/
structure PatchExecution.Built (B : Builtins)
    (buildContractArtifacts : String → Value → Except PyErr (String × String)) (m : StatePatchManager)
    (e : PatchExecution) : Prop where
  bundle : m.localBundles.get? e.record.patchId = some e.bundle
  valid : m.validateBundleAgainstRecord B e.bundle e.record = .ok ()
  expand : expandChanges B buildContractArtifacts e.bundle.changes.items = .ok (e.fileChanges B buildContractArtifacts)
  applied : e.appliedChanges = sortBy BundleChange.key (e.fileChanges B buildContractArtifacts)
  hash : hashFromExecutionPayload e.record e.appliedChanges = .ok e.executionHash

theorem recordedChanges_of_isSource {change : BundleChange} (hsource : change.toPatchChange.isSource = true)
    {l : List BundleChange} : recordedChanges B buildContractArtifacts change = .ok l ↔
      ∃ source ir, buildContractArtifacts ((keyParts change.key).headD "") change.value.value = .ok (source, ir) ∧
        l = [{ change with value := .ofStr source },
          ⟨(keyParts change.key).headD "" ++ "." ++ xianVmV1IrKey, .ofStr ir,
            .ofStr (persistedComment B change.comment.value)⟩] := by
  unfold recordedChanges
  rw [if_pos hsource]
  dsimp only
  rw [bind_eq_ok]
  constructor
  · rintro ⟨⟨source, ir⟩, hbuild, h⟩
    cases h
    exact ⟨source, ir, hbuild, rfl⟩
  · rintro ⟨source, ir, hbuild, rfl⟩
    exact ⟨(source, ir), hbuild, rfl⟩

theorem recordedChanges_of_not_isSource {change : BundleChange} (hsource : change.toPatchChange.isSource ≠ true)
    {l : List BundleChange} : recordedChanges B buildContractArtifacts change = .ok l ↔ l = [change] := by
  unfold recordedChanges
  rw [if_neg hsource]
  exact ⟨fun h => (Except.ok.inj h).symm, fun h => by rw [h]⟩

/-- A change is written as it is recorded. -/
theorem patchSets_of_recorded {change : BundleChange} {l : List BundleChange}
    (h : recordedChanges B buildContractArtifacts change = .ok l) :
    patchSets C buildContractArtifacts change.toPatchChange = (l.map (BundleChange.write C)).map .ok := by
  unfold patchSets
  by_cases hsource : change.toPatchChange.isSource = true
  · obtain ⟨source, ir, hbuild, rfl⟩ := (recordedChanges_of_isSource hsource).1 h
    have hbuild' : buildContractArtifacts ((keyParts change.toPatchChange.key).headD "")
      change.toPatchChange.value = .ok (source, ir) := hbuild
    rw [if_pos hsource]
    dsimp only
    rw [hbuild']
    rfl
  · rw [if_neg hsource, (recordedChanges_of_not_isSource hsource).1 h]
    rfl

theorem expandChanges_eq_ok {changes l : List BundleChange} :
    expandChanges B buildContractArtifacts changes = .ok l ↔ ∃ ls, l = ls.flatten ∧
      List.Forall₂ (fun change l => recordedChanges B buildContractArtifacts change = .ok l) changes ls := by
  unfold expandChanges
  rw [bind_eq_ok]
  constructor
  · rintro ⟨ls, hls, h⟩
    cases h
    exact ⟨ls, rfl, mapM_eq_ok.1 hls⟩
  · rintro ⟨ls, rfl, hls⟩
    exact ⟨ls, mapM_eq_ok.2 hls, rfl⟩

/-- The writes of a bundle are its recorded changes, in the order of the file. -/
theorem patchSets_of_expand {changes l : List BundleChange}
    (h : expandChanges B buildContractArtifacts changes = .ok l) :
    (changes.map BundleChange.toPatchChange).flatMap (patchSets C buildContractArtifacts) =
      (l.map (BundleChange.write C)).map .ok := by
  obtain ⟨ls, rfl, hls⟩ := expandChanges_eq_ok.1 h
  clear h
  induction hls with
  | nil => rfl
  | cons hchange _ ih =>
    rw [List.map_cons, List.flatMap_cons, ih, patchSets_of_recorded hchange, List.flatten_cons, List.map_append,
      List.map_append]

namespace StatePatchManager

variable {m : StatePatchManager}

theorem built_of_buildExecution {record : ScheduledPatchRecord} {e : PatchExecution}
    (h : m.buildExecution B buildContractArtifacts record = .ok e) :
    e.record = record ∧ e.Built B buildContractArtifacts m := by
  unfold buildExecution at h
  split at h
  · cases h
  · rename_i bundle hbundle
    obtain ⟨_, hvalid, h⟩ := bind_eq_ok.1 h
    obtain ⟨applied, happlied, h⟩ := bind_eq_ok.1 h
    obtain ⟨hash, hhash, h⟩ := bind_eq_ok.1 h
    obtain ⟨expanded, hexpand, happlied⟩ := bind_eq_ok.1 happlied
    cases happlied
    cases h
    refine ⟨rfl, hbundle, hvalid, ?_, ?_, hhash⟩ <;> simp [PatchExecution.fileChanges, hexpand, Except.toOption]

variable {D : Type} [Driver D] {driver : D} {height nanos : Int} {blockHash : Option String}

theorem built_of_buildExecutions {includeApplied : Bool} {executions : List PatchExecution}
    (h : m.buildExecutions B buildContractArtifacts driver height includeApplied = .ok executions) :
    ∀ e ∈ executions, e.Built B buildContractArtifacts m := by
  obtain ⟨_, -, hread⟩ := bind_eq_ok.1 h
  obtain ⟨records, -, hbuild⟩ := bind_eq_ok.1 hread
  have hall := mapM_eq_ok.1 hbuild
  clear h hread hbuild
  intro e he
  induction hall with
  | nil => cases he
  | cons hrecord _ ih =>
    rcases List.mem_cons.1 he with rfl | he
    · exact (built_of_buildExecution hrecord).2
    · exact ih he

/-- The calls of `raw_driver.set` an execution makes. -/
def executionWrites (B : Builtins) (C : Codec)
    (buildContractArtifacts : String → Value → Except PyErr (String × String)) (m : StatePatchManager)
    (height nanos : Int) (blockHash : Option String) (e : PatchExecution) : List (String × Value) :=
  (e.fileChanges B buildContractArtifacts).map (BundleChange.write C) ++ m.marks e height nanos blockHash

/-- Executions that were built are applied without an exception, one after the other. -/
theorem applyExecutions_built {executions : List PatchExecution}
    (h : ∀ e ∈ executions, e.Built B buildContractArtifacts m) (C : Codec) (height nanos : Int)
    (blockHash : Option String) (driver : D) :
    (m.applyExecutions C buildContractArtifacts height nanos blockHash executions driver).1 = .ok () ∧
    Driver.durable (m.applyExecutions C buildContractArtifacts height nanos blockHash executions driver).2 =
      Driver.durable driver ∧
    Driver.pending (m.applyExecutions C buildContractArtifacts height nanos blockHash executions driver).2 =
      (Driver.pending driver).update
        (executions.flatMap (m.executionWrites B C buildContractArtifacts height nanos blockHash)) := by
  induction executions generalizing driver with
  | nil => exact ⟨rfl, rfl, rfl⟩
  | cons e rest ih =>
    have hwrites := setEach_map_ok ((e.fileChanges B buildContractArtifacts).map (BundleChange.write C)) driver
    rw [← patchSets_of_expand (h e (List.mem_cons_self ..)).expand] at hwrites
    unfold applyExecutions applySingleBundle
    generalize setEach ((e.bundle.changes.items.map BundleChange.toPatchChange).flatMap
      (patchSets C buildContractArtifacts)) driver = applied at hwrites
    obtain ⟨result, applied⟩ := applied
    obtain ⟨hok, hdurable, hpending⟩ := hwrites
    dsimp only at hok hdurable hpending
    subst hok
    dsimp only
    obtain ⟨-, hdurable', hpending'⟩ := setEach_map_ok (m.marks e height nanos blockHash) applied
    obtain ⟨hok, hdurable'', hpending''⟩ := ih (fun e he => h e (List.mem_cons_of_mem _ he))
      (setEach ((m.marks e height nanos blockHash).map .ok) applied).2
    refine ⟨hok, hdurable''.trans (hdurable'.trans hdurable), hpending''.trans ?_⟩
    rw [hpending', hpending, List.flatMap_cons, executionWrites]
    simp only [PyDict.update, List.foldl_append]

/-- A successful call: what was built, and what the driver holds after it. -/
theorem applyPatchesForBlock_ok {result : Option String × List PatchPayload} {driver' : D}
    (h : m.applyPatchesForBlock B C buildContractArtifacts driver height nanos blockHash = (.ok result, driver')) :
    ∃ executions, m.buildExecutions B buildContractArtifacts driver height false = .ok executions ∧
      report executions = .ok result ∧ Driver.durable driver' = Driver.durable driver ∧
      Driver.pending driver' = (Driver.pending driver).update
        (executions.flatMap (m.executionWrites B C buildContractArtifacts height nanos blockHash)) := by
  unfold applyPatchesForBlock at h
  split at h
  · cases h
  · rename_i executions hbuild
    have happly := applyExecutions_built (built_of_buildExecutions hbuild) C height nanos blockHash driver
    generalize m.applyExecutions C buildContractArtifacts height nanos blockHash executions driver = applied at h happly
    obtain ⟨_ | _, applied⟩ := applied
    · cases h
    · obtain ⟨hreport, rfl⟩ := Prod.mk.inj h
      exact ⟨executions, hbuild, hreport, happly.2⟩

theorem report_payloads {executions : List PatchExecution} {hash : Option String} {payloads : List PatchPayload}
    (h : report executions = .ok (hash, payloads)) : payloads = executions.map PatchExecution.toPayloadDict := by
  unfold report at h
  split at h
  · rename_i hempty
    cases h
    rw [List.isEmpty_iff.1 hempty]
    rfl
  · obtain ⟨hash', -, h⟩ := bind_eq_ok.1 h
    cases h
    rfl

/-! ### The record is the writes -/

/-- The fields of a patch record that the manager sets. -/
def markFields : List String := ["status", "applied_block_height", "applied_block_hash", "applied_at_nanos", "execution_hash"]

theorem marks_keys (e : PatchExecution) (height nanos : Int) (blockHash : Option String) :
    (m.marks e height nanos blockHash).map Prod.fst = markFields.map (m.patchKey e.record.patchId) := rfl

end StatePatchManager

/-- The values the changes of some payloads give, in order. -/
def recordedValues (payloads : List PatchPayload) : List (String × Value) :=
  payloads.flatMap fun p => p.changes.map fun c => (c.key, c.value.value)

theorem lookup_map_snd {β γ : Type} (f : β → γ) (l : List (String × β)) (k : String) :
    (l.map fun p => (p.1, f p.2)).lookup k = (l.lookup k).map f := by
  induction l with
  | nil => rfl
  | cons p l ih =>
    rw [List.map_cons, PyDict.lookup_cons_ite, PyDict.lookup_cons_ite, ih]
    split <;> rfl

/-- At a key that is no mark the writes are the recorded changes, in order. -/
theorem atKey_executionWrites {m : StatePatchManager} {height nanos : Int} {blockHash : Option String}
    {executions : List PatchExecution} (hbuilt : ∀ e ∈ executions, e.Built B buildContractArtifacts m) {k : String}
    (hk : ∀ e ∈ executions, k ∉ StatePatchManager.markFields.map (m.patchKey e.record.patchId)) :
    atKey Prod.fst k (executions.flatMap (m.executionWrites B C buildContractArtifacts height nanos blockHash)) =
      atKey Prod.fst k ((recordedValues (executions.map PatchExecution.toPayloadDict)).map fun p =>
        (p.1, patchValue C p.2)) := by
  induction executions with
  | nil => rfl
  | cons e rest ih =>
    have hmarks : atKey Prod.fst k (m.marks e height nanos blockHash) = [] := by
      refine List.filter_eq_nil_iff.2 fun p hp hpk => hk e (List.mem_cons_self ..) ?_
      rw [← StatePatchManager.marks_keys e height nanos blockHash]
      exact List.mem_map.2 ⟨p, hp, of_decide_eq_true hpk⟩
    have hstable : atKey Prod.fst k ((e.fileChanges B buildContractArtifacts).map (BundleChange.write C)) =
        atKey Prod.fst k (e.appliedChanges.map (BundleChange.write C)) := by
      have happlied := (hbuilt e (List.mem_cons_self ..)).applied
      have hsort := (atKey_sortBy : atKey BundleChange.key k (sortBy BundleChange.key
        (e.fileChanges B buildContractArtifacts)) = _).symm
      rw [atKey_map, atKey_map, happlied]
      exact congrArg (List.map _) hsort
    rw [List.flatMap_cons, StatePatchManager.executionWrites, atKey_append, atKey_append, hmarks, List.append_nil,
      hstable, ih (fun e he => hbuilt e (List.mem_cons_of_mem _ he)) fun e he => hk e (List.mem_cons_of_mem _ he),
      ← atKey_append]
    congr 1
    simp only [recordedValues, List.map_cons, List.flatMap_cons, List.map_append, List.map_map]
    rfl

/-- The keys a change of the bundle sets are recorded. -/
theorem recorded_of_patchSets {m : StatePatchManager} {e : PatchExecution} (hbuilt : e.Built B buildContractArtifacts m)
    {change : BundleChange} (hchange : change ∈ e.bundle.changes.items) {k : String} {v : Value}
    (hk : .ok (k, v) ∈ patchSets C buildContractArtifacts change.toPatchChange) :
    k ∈ e.appliedChanges.map BundleChange.key := by
  have hwrites := patchSets_of_expand (C := C) hbuilt.expand
  have hmem : (.ok (k, v) : Except PyErr (String × Value)) ∈
      ((e.fileChanges B buildContractArtifacts).map (BundleChange.write C)).map .ok := by
    rw [← hwrites]
    exact List.mem_flatMap.2 ⟨_, List.mem_map_of_mem hchange, hk⟩
  obtain ⟨p, hp, hpk⟩ := List.mem_map.1 hmem
  obtain ⟨c, hc, rfl⟩ := List.mem_map.1 hp
  cases hpk
  rw [hbuilt.applied]
  exact List.mem_map_of_mem (mem_sortBy.2 hc)

variable {D : Type} [Driver D]

/-- After a successful call every key holds the last value the returned payloads give for it, converted, but for the
fields of the patch records that the manager sets; a key they do not give is not written, and every key that a
bundle sets is among the changes of its payload. -/
theorem recorded_changes_are_writes {m : StatePatchManager} {driver driver' : D} {height nanos : Int}
    {blockHash hash : Option String} {payloads : List PatchPayload}
    (h : m.applyPatchesForBlock B C buildContractArtifacts driver height nanos blockHash =
      (.ok (hash, payloads), driver')) :
    (∀ k, (∀ p ∈ payloads, k ∉ StatePatchManager.markFields.map (m.patchKey p.patchId)) →
      (∀ v, (recordedValues payloads).reverse.lookup k = some v → (driverView driver').current k = patchValue C v) ∧
      ((recordedValues payloads).reverse.lookup k = none →
        (Driver.pending driver').get? k = (Driver.pending driver).get? k)) ∧
    ∀ p ∈ payloads, ∃ bundle, m.localBundles.get? p.patchId = some bundle ∧
      ∀ change ∈ bundle.changes.items, ∀ k v,
        .ok (k, v) ∈ patchSets C buildContractArtifacts change.toPatchChange → k ∈ p.changes.map BundleChange.key := by
  obtain ⟨executions, hbuild, hreport, -, hpending⟩ := StatePatchManager.applyPatchesForBlock_ok h
  have hbuilt := StatePatchManager.built_of_buildExecutions hbuild
  obtain rfl := StatePatchManager.report_payloads hreport
  constructor
  · intro k hk
    have hmarks : ∀ e ∈ executions, k ∉ StatePatchManager.markFields.map (m.patchKey e.record.patchId) :=
      fun e he => hk e.toPayloadDict (List.mem_map_of_mem he)
    have hget : (Driver.pending driver').get? k = (((recordedValues (executions.map
        PatchExecution.toPayloadDict)).reverse.lookup k).map (patchValue C)).or ((Driver.pending driver).get? k) := by
      rw [hpending, PyDict.get?_update, lookup_reverse_congr (atKey_executionWrites hbuilt hmarks), ← List.map_reverse,
        lookup_map_snd]
    constructor
    · intro v hv
      show ((Driver.pending driver').get? k).getD _ = _
      rw [hget, hv]
      rfl
    · intro hv
      rw [hget, hv]
      rfl
  · intro p hp
    obtain ⟨e, he, rfl⟩ := List.mem_map.1 hp
    exact ⟨e.bundle, (hbuilt e he).bundle, fun change hchange k v hk => recorded_of_patchSets (hbuilt e he) hchange hk⟩

end Manager

/-! ### A patch of a value and a contract -/

/-- A source stands for itself, and its module for the source. -/
def copyArtifacts (_ : String) : Value → Except PyErr (String × String)
  | .str source => .ok (source, "ir " ++ source)
  | _ => .error (.typeError "source must be a string")

def changeEntry (key : String) (value : Value) : Value := .dict [("key", .str key), ("value", value)]

def fixFile : BundleFile := ⟨"fix-1.json", .dict [
  ("version", .int 1),
  ("patch_id", .str "fix-1"),
  ("activation_height", .int 5),
  ("changes", .list [changeEntry "con.S:x" (.int 1), changeEntry "con.__source__" (.str "a = 1")])], by decide⟩

/-- A manager over the bundles of some files. -/
def managerOf (files : List BundleFile) : StatePatchManager :=
  (StatePatchManager.loadPatches .plain ⟨none, "governance", .empty, false⟩ (some files)).2

/-- The state of a chain that approved the patch `fix-1` of a manager for height 5. -/
def approvingDriver (m : StatePatchManager) : MemoryDriver := ⟨.ofList [
  ("governance.scheduled_patches:5:fix-1", .bool true),
  ("governance.patches:fix-1:status", .str "approved"),
  ("governance.patches:fix-1:proposal_id", .int 7),
  ("governance.patches:fix-1:activation_height", .int 5),
  ("governance.patches:fix-1:bundle_hash",
    .str (((m.localBundles.get? "fix-1").map StatePatchBundle.bundleHash).getD ""))], .empty⟩

def fixManager : StatePatchManager := managerOf [fixFile]

def fixApplied : Except PyErr (Option String × List PatchPayload) × MemoryDriver :=
  fixManager.applyPatchesForBlock .plain fixedCodec copyArtifacts (approvingDriver fixManager) 5 1000 none

theorem fixApplied_isOk : fixApplied.1.isOk = true := by decide +kernel

def fixPayloads : List PatchPayload := ((fixApplied.1.toOption).getD (none, [])).2

theorem fixPayloads_recorded : recordedValues fixPayloads = [("con.S:x", .int 1), ("con.__source__", .str "a = 1"),
    ("con.__xian_ir_v1__", .str "ir a = 1")] ∧ fixPayloads.map PatchPayload.patchId = ["fix-1"] := by decide +kernel

theorem recorded_changes_are_writes_fix : (driverView fixApplied.2).current "con.S:x" = .int 1 ∧
    (driverView fixApplied.2).current "con.__xian_ir_v1__" = .str "ir a = 1" := by
  obtain ⟨⟨hash, payloads⟩, hok⟩ := exists_ok_of_isOk fixApplied_isOk
  have hpayloads : fixPayloads = payloads := by
    unfold fixPayloads
    rw [hok]
    rfl
  obtain ⟨hrecorded, hids⟩ := fixPayloads_recorded
  rw [hpayloads] at hrecorded hids
  have hmarks : ∀ k, k ∉ StatePatchManager.markFields.map (fixManager.patchKey "fix-1") →
      ∀ p ∈ payloads, k ∉ StatePatchManager.markFields.map (fixManager.patchKey p.patchId) := fun k hk p hp => by
    have hid : p.patchId = "fix-1" := by
      have hmem := List.mem_map_of_mem (f := PatchPayload.patchId) hp
      rw [hids] at hmem
      exact List.mem_singleton.1 hmem
    rwa [hid]
  have happly : fixManager.applyPatchesForBlock .plain fixedCodec copyArtifacts (approvingDriver fixManager) 5 1000
      none = (.ok (hash, payloads), fixApplied.2) := Prod.ext hok rfl
  obtain ⟨hwrites, -⟩ := recorded_changes_are_writes happly
  exact ⟨(hwrites _ (hmarks _ (by decide +kernel))).1 (.int 1) (by rw [hrecorded]; rfl),
    (hwrites _ (hmarks _ (by decide +kernel))).1 (.str "ir a = 1") (by rw [hrecorded]; rfl)⟩

end XianAbci
