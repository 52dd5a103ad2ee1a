import XianAbci.PatchReplay

/-!
# A patch is applied once and replayed to the same record

Governance keeps a patch under `patches:{id}:{field}`, where no field has a colon, so a key names one patch and one
field. Of these an applied patch changes five; the schedule, and what a record is read from, stay as they were.
-/

namespace XianAbci
open StableSort

/-! ### Keys -/

theorem dot_not_mem_head_splitDots (l : List Char) : '.' ∉ (splitDots l).headD [] := by
  induction l with
  | nil => simp [splitDots]
  | cons c rest ih =>
    unfold splitDots
    by_cases hc : c = '.'
    · simp [hc]
    · rw [if_neg hc]
      split
      · simpa using Ne.symm hc
      · rename_i part parts hsplit
        rw [hsplit] at ih
        simpa [Ne.symm hc] using ih

/-- The contract a source key names has no dot. -/
theorem dot_not_mem_contractName (key : String) : '.' ∉ ((keyParts key).headD "").toList := by
  have h := dot_not_mem_head_splitDots key.toList
  unfold keyParts
  cases hsplit : splitDots key.toList with
  | nil => simp
  | cons part parts =>
    rw [hsplit] at h
    simpa using h

namespace StatePatchManager

variable {m : StatePatchManager}

def recordPrefix (m : StatePatchManager) (var : String) : String :=
  m.governanceContract ++ indexSeparator ++ var ++ delimiter

/-- A key of the records or the schedule of patches. -/
def GovernsPatches (m : StatePatchManager) (k : String) : Prop :=
  (m.recordPrefix "patches").toList <+: k.toList ∨ (m.recordPrefix "scheduled_patches").toList <+: k.toList

theorem toList_patchKey (patchId field : String) : (m.patchKey patchId field).toList =
    (m.recordPrefix "patches").toList ++ (patchId.toList ++ ':' :: field.toList) := by
  simp [patchKey, makeKey, recordPrefix, delimiter, List.append_assoc]

theorem toList_scheduledPrefix (height : Int) : (m.scheduledPrefix height).toList =
    (m.recordPrefix "scheduled_patches").toList ++ ((toString height).toList ++ [':']) := by
  simp [scheduledPrefix, makeKey, recordPrefix, delimiter, List.append_assoc]

/-- A key names one patch and one field. -/
theorem patchKey_inj {patchId patchId' field field' : String} (hfield : ':' ∉ field.toList)
    (hfield' : ':' ∉ field'.toList) (h : m.patchKey patchId field = m.patchKey patchId' field') :
    patchId = patchId' ∧ field = field' := by
  have hlist := congrArg String.toList h
  rw [toList_patchKey, toList_patchKey, List.append_cancel_left_eq] at hlist
  have hreverse := congrArg List.reverse hlist
  simp only [List.reverse_append, List.reverse_cons, List.append_assoc, List.singleton_append] at hreverse
  have hcolon : ∀ s : List Char, ∀ c ∈ (':' :: s).head?, decide (c ≠ ':') = false := by
    intro s c hc
    cases hc
    decide
  obtain ⟨hfields, hids⟩ := takeWhile_cancel (p := fun c => decide (c ≠ ':'))
    (fun c hc => by
      rw [decide_eq_true_eq]
      rintro rfl
      exact hfield (List.mem_reverse.1 hc))
    (fun c hc => by
      rw [decide_eq_true_eq]
      rintro rfl
      exact hfield' (List.mem_reverse.1 hc)) (hcolon _) (hcolon _) hreverse
  exact ⟨String.toList_inj.1 (List.reverse_injective (List.cons.inj hids).2),
    String.toList_inj.1 (List.reverse_injective hfields)⟩

/-- The key of a VM module is no key of the governance records. -/
theorem not_governsPatches_vmIr {name : String} (hname : '.' ∉ name.toList) :
    ¬ m.GovernsPatches (name ++ "." ++ xianVmV1IrKey) := by
  have hnone : ∀ var : String, ¬ (m.recordPrefix var).toList <+: (name ++ "." ++ xianVmV1IrKey).toList := by
    rintro var ⟨rest, h⟩
    have hlist : m.governanceContract.toList ++ '.' :: (var.toList ++ ':' :: rest) =
        name.toList ++ '.' :: xianVmV1IrKey.toList := by
      simpa [recordPrefix, indexSeparator, delimiter, List.append_assoc] using h
    -- one dot on the right, so none in the contract's name on the left
    have hcount := congrArg (List.count '.') hlist
    have hname' : name.toList.count '.' = 0 := List.count_eq_zero.2 hname
    have hir : xianVmV1IrKey.toList.count '.' = 0 := by decide
    simp only [List.count_append, List.count_cons_self, hname', hir] at hcount
    have hgov : '.' ∉ m.governanceContract.toList := List.count_eq_zero.1 (by omega)
    have hdot : ∀ s : List Char, ∀ c ∈ ('.' :: s).head?, decide (c ≠ '.') = false := by
      intro s c hc
      cases hc
      decide
    obtain ⟨-, htail⟩ := takeWhile_cancel (p := fun c => decide (c ≠ '.'))
      (fun c hc => by
        rw [decide_eq_true_eq]
        rintro rfl
        exact hgov hc)
      (fun c hc => by
        rw [decide_eq_true_eq]
        rintro rfl
        exact hname hc) (hdot _) (hdot _) hlist
    have hcolon : ':' ∈ xianVmV1IrKey.toList := by
      rw [← (List.cons.inj htail).2]
      simp
    exact absurd hcolon (by decide)
  rintro (h | h)
  · exact hnone _ h
  · exact hnone _ h

theorem governsPatches_patchKey (patchId field : String) : m.GovernsPatches (m.patchKey patchId field) := by
  left
  rw [toList_patchKey]
  exact List.prefix_append ..

theorem governsPatches_of_scheduled {height : Int} {k : String} (h : (m.scheduledPrefix height).toList <+: k.toList) :
    m.GovernsPatches k := by
  right
  rw [toList_scheduledPrefix] at h
  exact (List.prefix_append ..).trans h

/-- No field of a record is in the schedule. -/
theorem not_scheduled_patchKey (height : Int) (patchId field : String) :
    ¬ (m.scheduledPrefix height).toList <+: (m.patchKey patchId field).toList := by
  rw [toList_scheduledPrefix, toList_patchKey]
  simp only [recordPrefix, String.toList_append, List.append_assoc, List.prefix_append_right_inj]
  intro h
  simp at h

end StatePatchManager

/-! ### What the call leaves -/

def ScheduledPatchRecord.markApplied (record : ScheduledPatchRecord) : ScheduledPatchRecord :=
  { record with status := "applied" }

def PatchExecution.markApplied (e : PatchExecution) : PatchExecution := { e with record := e.record.markApplied }

section Manager

variable {B : Builtins} {C : Codec} {buildContractArtifacts : String → Value → Except PyErr (String × String)}
  {m : StatePatchManager}

theorem mapM_ok_map {α β : Type} [Inhabited β] {f : α → Except PyErr β} {l : List α} {l' : List β}
    (h : l.mapM f = .ok l') : ∃ g : α → β, l' = l.map g ∧ ∀ a ∈ l, f a = .ok (g a) := by
  refine ⟨fun a => ((f a).toOption).getD default, ?_⟩
  have hall := mapM_eq_ok.1 h
  clear h
  induction hall with
  | nil => exact ⟨rfl, fun a ha => by cases ha⟩
  | cons hab _ ih =>
    refine ⟨by rw [List.map_cons, ← ih.1, hab]; rfl, fun a ha => ?_⟩
    rcases List.mem_cons.1 ha with rfl | ha
    · simp [hab, Except.toOption]
    · exact ih.2 a ha

theorem mapM_of_forall {α β : Type} {f : α → Except PyErr β} {g : α → β} {l : List α}
    (h : ∀ a ∈ l, f a = .ok (g a)) : l.mapM f = .ok (l.map g) := by
  induction l with
  | nil => rfl
  | cons a l ih =>
    rw [List.mapM_cons, h a (List.mem_cons_self ..), ih fun a ha => h a (List.mem_cons_of_mem _ ha)]
    rfl

/-- A recorded change has the key of a change of the file, or is the VM module of a contract. -/
theorem fileChanges_key {e : PatchExecution} (hbuilt : e.Built B buildContractArtifacts m) {c : BundleChange}
    (hc : c ∈ e.fileChanges B buildContractArtifacts) :
    (∃ change ∈ e.bundle.changes.items, c.key = change.key) ∨
      ∃ name, '.' ∉ name.toList ∧ c.key = name ++ "." ++ xianVmV1IrKey := by
  obtain ⟨ls, hls, hall⟩ := expandChanges_eq_ok.1 hbuilt.expand
  rw [hls] at hc
  obtain ⟨l, hl, hcl⟩ := List.mem_flatten.1 hc
  clear hls hc
  generalize e.bundle.changes.items = changes at hall
  induction hall with
  | nil => cases hl
  | @cons change l' changes ls hchange _ ih =>
    rcases List.mem_cons.1 hl with rfl | hl
    · by_cases hsource : change.toPatchChange.isSource = true
      · obtain ⟨source, ir, -, rfl⟩ := (recordedChanges_of_isSource hsource).1 hchange
        rcases List.mem_cons.1 hcl with rfl | hcl
        · exact .inl ⟨change, List.mem_cons_self .., rfl⟩
        · rw [List.mem_singleton.1 hcl]
          exact .inr ⟨_, dot_not_mem_contractName change.key, rfl⟩
      · rw [(recordedChanges_of_not_isSource hsource).1 hchange] at hcl
        rw [List.mem_singleton.1 hcl]
        exact .inl ⟨change, List.mem_cons_self .., rfl⟩
    · rcases ih hl with ⟨change, hchange, hkey⟩ | hname
      · exact .inl ⟨change, List.mem_cons_of_mem _ hchange, hkey⟩
      · exact .inr hname

namespace StatePatchManager

/-- No local bundle sets a key of the governance records. -/
def SparesRecords (m : StatePatchManager) : Prop :=
  ∀ patchId bundle, m.localBundles.get? patchId = some bundle → ∀ change ∈ bundle.changes.items,
    ¬ m.GovernsPatches change.key

variable {height nanos : Int} {blockHash : Option String} {executions : List PatchExecution}

/-- At a key of the governance records only the marks are written. -/
theorem atKey_record (hspares : m.SparesRecords) (hbuilt : ∀ e ∈ executions, e.Built B buildContractArtifacts m)
    {k : String} (hk : m.GovernsPatches k) :
    atKey Prod.fst k (executions.flatMap (m.executionWrites B C buildContractArtifacts height nanos blockHash)) =
      atKey Prod.fst k (executions.flatMap fun e => m.marks e height nanos blockHash) := by
  induction executions with
  | nil => rfl
  | cons e rest ih =>
    have hnone : atKey Prod.fst k ((e.fileChanges B buildContractArtifacts).map (BundleChange.write C)) = [] := by
      refine List.filter_eq_nil_iff.2 fun p hp hpk => ?_
      obtain ⟨c, hc, rfl⟩ := List.mem_map.1 hp
      obtain rfl : c.key = k := of_decide_eq_true hpk
      have he := hbuilt e (List.mem_cons_self ..)
      rcases fileChanges_key he hc with ⟨change, hchange, hkey⟩ | ⟨name, hname, hkey⟩
      · rw [hkey] at hk
        exact hspares _ _ he.bundle change hchange hk
      · rw [hkey] at hk
        exact not_governsPatches_vmIr hname hk
    rw [List.flatMap_cons, List.flatMap_cons, atKey_append, atKey_append, executionWrites, atKey_append, hnone,
      List.nil_append, ih fun e he => hbuilt e (List.mem_cons_of_mem _ he)]

theorem mem_marks {p : String × Value} (h : p ∈ executions.flatMap fun e => m.marks e height nanos blockHash) :
    ∃ e ∈ executions, ∃ field ∈ markFields, p.1 = m.patchKey e.record.patchId field ∧
      (field = "status" → p.2 = .str "applied") := by
  obtain ⟨e, he, hp⟩ := List.mem_flatMap.1 h
  simp only [marks, List.mem_cons, List.not_mem_nil, or_false] at hp
  refine ⟨e, he, ?_⟩
  rcases hp with rfl | rfl | rfl | rfl | rfl
  · exact ⟨"status", by decide, rfl, fun _ => rfl⟩
  · exact ⟨"applied_block_height", by decide, rfl, fun h => absurd h (by decide)⟩
  · exact ⟨"applied_block_hash", by decide, rfl, fun h => absurd h (by decide)⟩
  · exact ⟨"applied_at_nanos", by decide, rfl, fun h => absurd h (by decide)⟩
  · exact ⟨"execution_hash", by decide, rfl, fun h => absurd h (by decide)⟩

theorem colon_not_mem_markFields : ∀ field ∈ markFields, ':' ∉ field.toList := by decide

variable {D : Type} [Driver D] {driver driver' : D}

/-- What a call leaves behind, as far as governance is concerned. -/
structure Applied (B : Builtins) (m : StatePatchManager) (height : Int) (executions : List PatchExecution)
    (driver driver' : D) : Prop where
  scheduled : m.scheduledIds B driver' height = m.scheduledIds B driver height
  status : ∀ e ∈ executions, (driverView driver').current (m.patchKey e.record.patchId "status") = .str "applied"
  kept : ∀ patchId field, ':' ∉ field.toList →
    (field ∉ markFields ∨ ∀ e ∈ executions, e.record.patchId ≠ patchId) →
      (driverView driver').current (m.patchKey patchId field) = (driverView driver).current (m.patchKey patchId field)

theorem applied_of_writes (hspares : m.SparesRecords) (hbuilt : ∀ e ∈ executions, e.Built B buildContractArtifacts m)
    (hdurable : Driver.durable driver' = Driver.durable driver)
    (hpending : Driver.pending driver' = (Driver.pending driver).update
      (executions.flatMap (m.executionWrites B C buildContractArtifacts height nanos blockHash))) :
    m.Applied B height executions driver driver' := by
  have hlookup : ∀ k, m.GovernsPatches k → (Driver.pending driver').get? k =
      (((executions.flatMap fun e => m.marks e height nanos blockHash).reverse.lookup k).or
        ((Driver.pending driver).get? k)) := fun k hk => by
    rw [hpending, PyDict.get?_update, lookup_reverse_congr (atKey_record hspares hbuilt hk)]
  refine ⟨?_, fun e he => ?_, fun patchId field hfield hother => ?_⟩
  · -- the schedule: no write has its prefix
    have hnone : (executions.flatMap (m.executionWrites B C buildContractArtifacts height nanos blockHash)).filter
        (fun p => (m.scheduledPrefix height).toList.isPrefixOf p.1.toList) = [] := by
      refine List.filter_eq_nil_iff.2 fun p hp hprefix => ?_
      have hprefix := List.isPrefixOf_iff_prefix.1 hprefix
      have hmem : p ∈ atKey Prod.fst p.1
          (executions.flatMap (m.executionWrites B C buildContractArtifacts height nanos blockHash)) :=
        mem_atKey.2 ⟨hp, rfl⟩
      rw [atKey_record hspares hbuilt (governsPatches_of_scheduled hprefix)] at hmem
      obtain ⟨e, -, field, -, hkey, -⟩ := mem_marks (mem_atKey.1 hmem).1
      rw [hkey] at hprefix
      exact not_scheduled_patchKey height _ _ hprefix
    have hitems : driverItems driver' (m.scheduledPrefix height) = driverItems driver (m.scheduledPrefix height) := by
      have hfiltered := congrArg PyDict.items (PyDict.filter_update
        (fun k => (m.scheduledPrefix height).toList.isPrefixOf k.toList) (Driver.pending driver)
        (executions.flatMap (m.executionWrites B C buildContractArtifacts height nanos blockHash)))
      rw [hnone] at hfiltered
      unfold driverItems
      rw [hdurable, hpending, PyDict.filter_update, PyDict.filter_update]
      exact congrArg (PyDict.update _) hfiltered
    unfold scheduledIds
    rw [hitems]
  · have hmem : (m.patchKey e.record.patchId "status", Value.str "applied") ∈
        executions.flatMap fun e => m.marks e height nanos blockHash :=
      List.mem_flatMap.2 ⟨e, he, List.mem_cons_self ..⟩
    obtain ⟨v, hv⟩ : ∃ v, (executions.flatMap fun e => m.marks e height nanos blockHash).reverse.lookup
        (m.patchKey e.record.patchId "status") = some v := by
      by_contra hnone
      rw [← Option.ne_none_iff_exists', not_not, List.lookup_eq_none_iff] at hnone
      exact absurd (hnone _ (List.mem_reverse.2 hmem)) (by simp)
    obtain ⟨e', -, field, hfield, hkey, hvalue⟩ := mem_marks (PyDict.mem_of_lookup_reverse hv)
    obtain ⟨-, rfl⟩ := patchKey_inj (by decide) (colon_not_mem_markFields field hfield) hkey
    show ((Driver.pending driver').get? _).getD _ = _
    rw [hlookup _ (governsPatches_patchKey ..), hv, show v = .str "applied" from hvalue rfl]
    rfl
  · have hnone : (executions.flatMap fun e => m.marks e height nanos blockHash).reverse.lookup
        (m.patchKey patchId field) = none := by
      rw [List.lookup_eq_none_iff]
      intro p hp
      obtain ⟨e, he, field', hfield', hkey, -⟩ := mem_marks (List.mem_reverse.1 hp)
      rw [bne_iff_ne]
      intro heq
      obtain ⟨hid, rfl⟩ := patchKey_inj hfield (colon_not_mem_markFields field' hfield') (heq.trans hkey)
      rcases hother with hother | hother
      · exact hother hfield'
      · exact hother e he hid.symm
    show ((Driver.pending driver').get? _).getD (((Driver.durable driver').get? _).getD _) = _
    rw [hlookup _ (governsPatches_patchKey ..), hnone, hdurable]
    rfl

/-! ### The records read again -/

theorem patchRecord_patchId {read : String → Value} {patchId status : String} {record : ScheduledPatchRecord}
    (h : m.patchRecord B read height patchId status = .ok record) : record.patchId = patchId := by
  obtain ⟨_, -, h⟩ := bind_eq_ok.1 h
  obtain ⟨_, -, h⟩ := bind_eq_ok.1 h
  obtain ⟨_, -, h⟩ := bind_eq_ok.1 h
  cases h
  rfl

/-- The fields of a record are read alike where they are kept. -/
theorem patchRecord_of_kept {read read' : String → Value} {patchId : String}
    (h : ∀ field, ':' ∉ field.toList → field ∉ markFields →
      read' (m.patchKey patchId field) = read (m.patchKey patchId field)) (status : String) :
    m.patchRecord B read' height patchId status = m.patchRecord B read height patchId status := by
  unfold patchRecord
  simp only [h "proposal_id" (by decide) (by decide), h "bundle_hash" (by decide) (by decide),
    h "activation_height" (by decide) (by decide), h "summary" (by decide) (by decide), h "uri" (by decide) (by decide),
    h "emergency" (by decide) (by decide)]

theorem patchRecord_markApplied {read : String → Value} {patchId status : String} {record : ScheduledPatchRecord}
    (h : m.patchRecord B read height patchId status = .ok record) :
    m.patchRecord B read height patchId "applied" = .ok record.markApplied := by
  obtain ⟨_, hproposal, h⟩ := bind_eq_ok.1 h
  obtain ⟨hash, hhash, h⟩ := bind_eq_ok.1 h
  obtain ⟨_, hheight, h⟩ := bind_eq_ok.1 h
  cases h
  unfold patchRecord
  exact bind_eq_ok.2 ⟨_, hproposal, bind_eq_ok.2 ⟨_, hhash, bind_eq_ok.2 ⟨_, hheight, rfl⟩⟩⟩

/-- What was selected is passed over the second time, and a replay selects it. -/
theorem scheduledRecord_again (h : m.Applied B height executions driver driver') {patchId : String}
    {found : Option ScheduledPatchRecord}
    (hfound : m.scheduledRecord B (driverView driver).current height false patchId = .ok found)
    (hexecuted : ∀ record, found = some record → ∃ e ∈ executions, e.record = record)
    (hothers : found = none → ∀ e ∈ executions, e.record.patchId ≠ patchId) :
    m.scheduledRecord B (driverView driver').current height false patchId = .ok none ∧
    ((driverView driver).current (m.patchKey patchId "status") ≠ .str "applied" →
      m.scheduledRecord B (driverView driver').current height true patchId =
        .ok (found.map ScheduledPatchRecord.markApplied)) := by
  obtain ⟨_, hhash, hrest⟩ := bind_eq_ok.1 hfound
  by_cases happroved : (driverView driver).current (m.patchKey patchId "status") = .str "approved"
  · rw [if_pos happroved] at hrest
    obtain ⟨record, hrecord, hrest⟩ := bind_eq_ok.1 hrest
    cases hrest
    obtain ⟨e, he, rfl⟩ := hexecuted record rfl
    have hid := patchRecord_patchId hrecord
    have hstatus := h.status e he
    rw [hid] at hstatus
    have hrecord' : m.patchRecord B (driverView driver').current height patchId "applied" = .ok e.record.markApplied := by
      rw [patchRecord_of_kept fun field hfield hmark => h.kept patchId field hfield (.inl hmark)]
      exact patchRecord_markApplied hrecord
    constructor
    · unfold scheduledRecord
      simp [hstatus, requireHashable]
    · intro _
      unfold scheduledRecord
      simp only [hstatus, requireHashable, Value.str.injEq, String.reduceEq, ↓reduceIte, and_self, hrecord']
      rfl
  · rw [if_neg happroved, if_neg (by simp)] at hrest
    cases hrest
    have hstatus := h.kept patchId "status" (by decide) (.inr (hothers rfl))
    constructor
    · refine bind_eq_ok.2 ⟨(), by rw [hstatus]; exact hhash, ?_⟩
      rw [hstatus, if_neg happroved, if_neg (by simp)]
      rfl
    · intro happlied
      refine bind_eq_ok.2 ⟨(), by rw [hstatus]; exact hhash, ?_⟩
      rw [hstatus, if_neg happroved, if_neg fun hstatus => happlied hstatus.1]
      rfl

/-- The executions of the first call, and their records. -/
theorem buildExecutions_ok {includeApplied : Bool}
    (h : m.buildExecutions B buildContractArtifacts driver height includeApplied = .ok executions) :
    m.loaded = true ∧ ∃ found : String → Option ScheduledPatchRecord,
      (∀ patchId ∈ m.scheduledIds B driver height,
        m.scheduledRecord B (driverView driver).current height includeApplied patchId = .ok (found patchId)) ∧
      executions.map PatchExecution.record = sortBy ScheduledPatchRecord.patchId
        (((m.scheduledIds B driver height).map found).filterMap id) ∧
      List.Forall₂ (fun record e => m.buildExecution B buildContractArtifacts record = .ok e)
        (executions.map PatchExecution.record) executions := by
  obtain ⟨_, hloaded, h⟩ := bind_eq_ok.1 h
  obtain ⟨records, hrecords, h⟩ := bind_eq_ok.1 h
  obtain ⟨founds, hfounds, hrecords⟩ := bind_eq_ok.1 hrecords
  cases hrecords
  obtain ⟨found, rfl, hfound⟩ := mapM_ok_map hfounds
  have hall := mapM_eq_ok.1 h
  have hmap : ∀ {records : List ScheduledPatchRecord} {executions : List PatchExecution},
      List.Forall₂ (fun record e => m.buildExecution B buildContractArtifacts record = .ok e) records executions →
        executions.map PatchExecution.record = records := by
    intro records executions hall
    induction hall with
    | nil => rfl
    | cons hrecord _ ih => rw [List.map_cons, ih, (built_of_buildExecution hrecord).1]
  refine ⟨require_eq_ok.1 hloaded, found, hfound, hmap hall, ?_⟩
  rw [hmap hall]
  exact hall

theorem buildExecution_markApplied {record : ScheduledPatchRecord} {e : PatchExecution}
    (h : m.buildExecution B buildContractArtifacts record = .ok e) :
    m.buildExecution B buildContractArtifacts record.markApplied = .ok e.markApplied := by
  obtain ⟨rfl, hbuilt⟩ := built_of_buildExecution h
  unfold buildExecution
  have hbundle : m.localBundles.get? e.record.markApplied.patchId = some e.bundle := hbuilt.bundle
  have hexpand : buildAppliedChanges B buildContractArtifacts e.bundle = .ok e.appliedChanges := by
    rw [hbuilt.applied]
    exact bind_eq_ok.2 ⟨_, hbuilt.expand, rfl⟩
  rw [hbundle]
  exact bind_eq_ok.2 ⟨(), hbuilt.valid, bind_eq_ok.2 ⟨_, hexpand, bind_eq_ok.2 ⟨_, hbuilt.hash, rfl⟩⟩⟩

theorem report_markApplied (executions : List PatchExecution) :
    report (executions.map PatchExecution.markApplied) = report executions := by
  cases executions with
  | nil => rfl
  | cons e rest =>
    have hhashes : aggregateHash ((e :: rest).map PatchExecution.markApplied) = aggregateHash (e :: rest) := by
      unfold aggregateHash
      rw [List.map_map]
      rfl
    have hpayloads : ((e :: rest).map PatchExecution.markApplied).map PatchExecution.toPayloadDict =
        (e :: rest).map PatchExecution.toPayloadDict := by
      rw [List.map_map]
      rfl
    unfold report
    rw [hhashes, hpayloads]
    rfl

theorem patchId_of_scheduledRecord {read : String → Value} {includeApplied : Bool} {patchId : String}
    {record : ScheduledPatchRecord}
    (h : m.scheduledRecord B read height includeApplied patchId = .ok (some record)) : record.patchId = patchId := by
  obtain ⟨_, -, h⟩ := bind_eq_ok.1 h
  split at h
  · obtain ⟨record', hrecord, h⟩ := bind_eq_ok.1 h
    cases h
    exact patchRecord_patchId hrecord
  · split at h
    · obtain ⟨record', hrecord, h⟩ := bind_eq_ok.1 h
      cases h
      exact patchRecord_patchId hrecord
    · cases h

/-- Building again after the call: nothing is left to apply, and a replay builds the same executions. -/
theorem buildExecutions_again (hbuild : m.buildExecutions B buildContractArtifacts driver height false = .ok executions)
    (h : m.Applied B height executions driver driver') :
    m.buildExecutions B buildContractArtifacts driver' height false = .ok [] ∧
    ((∀ patchId ∈ m.scheduledIds B driver height,
        (driverView driver).current (m.patchKey patchId "status") ≠ .str "applied") →
      m.buildExecutions B buildContractArtifacts driver' height true =
        .ok (executions.map PatchExecution.markApplied)) := by
  obtain ⟨hloaded, found, hfound, hrecords, hall⟩ := buildExecutions_ok hbuild
  have hmem : ∀ record, record ∈ executions.map PatchExecution.record ↔
      ∃ patchId ∈ m.scheduledIds B driver height, found patchId = some record := fun record => by
    rw [hrecords, mem_sortBy]
    simp
  have hagain : ∀ patchId ∈ m.scheduledIds B driver height,
      m.scheduledRecord B (driverView driver').current height false patchId = .ok none ∧
      ((driverView driver).current (m.patchKey patchId "status") ≠ .str "applied" →
        m.scheduledRecord B (driverView driver').current height true patchId =
          .ok ((found patchId).map ScheduledPatchRecord.markApplied)) := fun patchId hid => by
    refine scheduledRecord_again h (hfound patchId hid) (fun record hrecord => ?_) fun hnone e he hpatchId => ?_
    · exact List.mem_map.1 ((hmem record).2 ⟨patchId, hid, hrecord⟩)
    · obtain ⟨patchId', hid', hrecord⟩ := (hmem e.record).1 (List.mem_map_of_mem he)
      have hsame := patchId_of_scheduledRecord ((hfound patchId' hid').trans (congrArg Except.ok hrecord))
      rw [← hsame, hpatchId, hnone] at hrecord
      cases hrecord
  constructor
  · refine bind_eq_ok.2 ⟨(), require_eq_ok.2 hloaded, bind_eq_ok.2 ⟨[], ?_, rfl⟩⟩
    unfold readScheduledPatchRecords
    rw [h.scheduled, mapM_of_forall fun patchId hid => (hagain patchId hid).1]
    show Except.ok (sortBy _ (List.filterMap id ((m.scheduledIds B driver height).map fun _ => none))) = _
    rw [List.filterMap_map]
    simp [sortBy]
  · intro hfresh
    refine bind_eq_ok.2 ⟨(), require_eq_ok.2 hloaded,
      bind_eq_ok.2 ⟨(executions.map PatchExecution.record).map ScheduledPatchRecord.markApplied, ?_, ?_⟩⟩
    · unfold readScheduledPatchRecords
      rw [h.scheduled, mapM_of_forall fun patchId hid => (hagain patchId hid).2 (hfresh patchId hid)]
      have hmarked : (((m.scheduledIds B driver height).map fun patchId =>
          (found patchId).map ScheduledPatchRecord.markApplied).filterMap id) =
          (((m.scheduledIds B driver height).map found).filterMap id).map ScheduledPatchRecord.markApplied := by
        rw [List.filterMap_map, List.filterMap_map, List.map_filterMap]
        rfl
      have hsort : sortBy ScheduledPatchRecord.patchId ((((m.scheduledIds B driver height).map found).filterMap
          id).map ScheduledPatchRecord.markApplied) = _ := sortBy_map _ _
      show Except.ok (sortBy ScheduledPatchRecord.patchId _) = _
      rw [hmarked, hrecords]
      exact congrArg Except.ok hsort
    · rw [mapM_eq_ok, List.forall₂_map_left_iff, List.forall₂_map_right_iff]
      exact hall.imp fun _ _ hrecord => buildExecution_markApplied hrecord

end StatePatchManager

/-- Where the local bundles leave the records of governance alone, a second call at the height of a successful one
writes nothing and returns nothing, at whatever time and in whatever block; and a replay on the resulting state
returns what the first call returned, where no patch of the height was applied before it. -/
theorem patches_apply_once {D : Type} [Driver D] {driver driver' : D} {height nanos : Int} {blockHash : Option String}
    {result : Option String × List PatchPayload} (hspares : m.SparesRecords)
    (h : m.applyPatchesForBlock B C buildContractArtifacts driver height nanos blockHash = (.ok result, driver')) :
    (∀ nanos' blockHash', m.applyPatchesForBlock B C buildContractArtifacts driver' height nanos' blockHash' =
      (.ok (none, []), driver')) ∧
    ((∀ patchId ∈ m.scheduledIds B driver height,
        (driverView driver).current (m.patchKey patchId "status") ≠ .str "applied") →
      m.buildAppliedPatchesForBlock B buildContractArtifacts driver' height = .ok result) := by
  obtain ⟨executions, hbuild, hreport, hdurable, hpending⟩ := StatePatchManager.applyPatchesForBlock_ok h
  obtain ⟨hnone, hreplay⟩ := StatePatchManager.buildExecutions_again hbuild
    (StatePatchManager.applied_of_writes hspares (StatePatchManager.built_of_buildExecutions hbuild) hdurable hpending)
  constructor
  · intro nanos' blockHash'
    unfold StatePatchManager.applyPatchesForBlock
    rw [hnone]
    rfl
  · intro hfresh
    refine bind_eq_ok.2 ⟨_, hreplay hfresh, ?_⟩
    rw [StatePatchManager.report_markApplied]
    exact hreport

end Manager

instance (m : StatePatchManager) (k : String) : Decidable (m.GovernsPatches k) := inferInstanceAs (Decidable (_ ∨ _))

theorem fixManager_spares : fixManager.SparesRecords := by
  have hitems : ∀ p ∈ fixManager.localBundles.items, ∀ change ∈ p.2.changes.items,
      ¬ fixManager.GovernsPatches change.key := by decide +kernel
  exact fun patchId bundle hbundle => hitems (patchId, bundle) (PyDict.mem_items_iff.2 hbundle)

theorem patches_apply_once_fix : ∃ result, fixApplied.1 = .ok result ∧
    fixManager.applyPatchesForBlock .plain fixedCodec copyArtifacts fixApplied.2 5 2000 none =
      (.ok (none, []), fixApplied.2) ∧
    fixManager.buildAppliedPatchesForBlock .plain copyArtifacts fixApplied.2 5 = .ok result := by
  obtain ⟨result, hok⟩ := exists_ok_of_isOk fixApplied_isOk
  have happly : fixManager.applyPatchesForBlock .plain fixedCodec copyArtifacts (approvingDriver fixManager) 5 1000
      none = (.ok result, fixApplied.2) := Prod.ext hok rfl
  obtain ⟨honce, hreplay⟩ := patches_apply_once fixManager_spares happly
  exact ⟨result, hok, honce 2000 none, hreplay (by decide +kernel)⟩

end XianAbci
