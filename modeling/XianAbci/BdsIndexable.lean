import XianAbci.BdsRows

/-!
# Which blocks can be indexed

A block is written exactly when each of its strings and numbers fits the column it goes to and the rows
find their places free. Among the places only one can be taken: the state patches are filed as a transaction
whose index is the number of indexed transactions of the block, and rejected transactions leave gaps, so that
index may belong to a transaction already (`SlotFree`).
-/

namespace XianAbci

variable {R : BdsRuntime} {B : Builtins} {payload : BdsBlockPayload} {s₀ : Session}

/-! ### The beginning of a block's transaction -/

/-- The index holds earlier blocks, as the database keeps them: rows that fit, references that are met, generated
numbers below the next. -/
structure HoldsEarlier (R : BdsRuntime) (block : BlockMeta) (s : Session) : Prop where
  fits : ∀ t, ∀ row ∈ s.db t, fitsColumns (bdsSchema R.casts t).columns row = true
  refers : ∀ t, ∀ row ∈ s.db t, Refers (bdsSchema R.casts) Cell.isNull s.db t row
  heights : ∀ row ∈ s.db .blocks, ∃ h, row[0]? = some (.int h) ∧ h < block.height
  hashes : ¬ Has (s.db .blocks) [1] [some (.text block.hash)]
  ids : ∀ t, t.numbered = true → ∀ row ∈ s.db t, ∃ i rest, row = .int i :: rest ∧ i ≤ s.sequences t

/-- The transaction hashes of the index. -/
def indexedHashes (s : Session) (hash : String) : Prop := Has (s.db .transactions) [0] [some (.text hash)]

theorem HoldsEarlier.no_block {block : BlockMeta} (h : HoldsEarlier R block s₀) :
    ¬ Has (s₀.db .blocks) [0] [some (.int block.height)] := by
  rintro ⟨row, hrow, hheight⟩
  obtain ⟨h', hh', hlt⟩ := h.heights row hrow
  have heq : row[0]? = some (.int block.height) := by simpa [project] using hheight
  rw [hh'] at heq
  obtain rfl : h' = block.height := by simpa using heq
  omega

/-- No row of an earlier block refers to this one. -/
theorem HoldsEarlier.no_row {block : BlockMeta} (h : HoldsEarlier R block s₀) {t : BdsTable}
    (href : (1, .blocks, 0) ∈ (bdsSchema R.casts t).references) {row : List Cell} (hrow : row ∈ s₀.db t) :
    row[1]? ≠ some (.int block.height) := by
  intro hheight
  rcases h.refers t row hrow _ href _ hheight with hnull | hblock
  · simp [Cell.isNull] at hnull
  · exact h.no_block hblock

def blockRow (payload : BdsBlockPayload) : List Cell :=
  [.int payload.blockMeta.height, .text payload.blockMeta.hash, .int payload.blockMeta.nanos,
    .timestamp payload.blockTime, .int payload.transactions.length, .text payload.appHash, .timestamp payload.blockTime]

def BlockFits (payload : BdsBlockPayload) : Prop :=
  int8 payload.blockMeta.height = true ∧ pgText payload.blockMeta.hash = true ∧
    int8 payload.blockMeta.nanos = true ∧ int4 payload.transactions.length = true ∧ pgText payload.appHash = true

/-- The block's row is written. -/
structure BlockWritten (s₀ : Session) (payload : BdsBlockPayload) (s : Session) : Prop where
  db : s.db = Function.update s₀.db .blocks (s₀.db .blocks ++ [blockRow payload])
  sequences : s.sequences = s₀.sequences
  fits : BlockFits payload

theorem exactly_insertBlock (h : HoldsEarlier R payload.blockMeta s₀) :
    Exactly (insertBlock R payload) (· = s₀) (BlockFits payload) fun _ => BlockWritten s₀ payload := by
  have hfits : fitsColumns (bdsSchema R.casts .blocks).columns (blockRow payload) = true ↔ BlockFits payload := by
    simp [blockRow, BlockFits, bdsSchema, notNull, SqlType.holds]
  have hhas : ¬ Has (s₀.db .blocks) [0] (project [0] (blockRow payload)) := h.no_block
  constructor
  · rintro s rfl
    constructor
    · rintro ⟨r, hr⟩
      obtain ⟨db, hinsert, -⟩ := sqlInsert_ok.1 hr
      exact hfits.1 (insertRow_ignore.1 hinsert).1
    · intro hblock
      refine ⟨_, sqlInsert_ok.2 ⟨_, insertRow_ignore.2 ⟨hfits.2 hblock, .inr ⟨hhas, ?_, ?_, rfl⟩⟩, rfl⟩⟩
      · rintro ⟨key, hkey, htaken⟩
        rcases List.mem_cons.1 (show key ∈ [[0], [1]] from hkey) with rfl | hkey
        · exact hhas htaken
        · obtain rfl := List.mem_singleton.1 hkey
          exact h.hashes htaken
      · intro r hr
        exact absurd (show r ∈ ([] : List (Nat × BdsTable × Nat)) from hr) List.not_mem_nil
  · rintro s rfl _ s' hr
    obtain ⟨db, hinsert, hs'⟩ := sqlInsert_ok.1 hr
    obtain rfl := (Prod.mk.inj hs').2
    obtain ⟨hrow, ⟨hhas', -⟩ | ⟨-, -, -, rfl⟩⟩ := insertRow_ignore.1 hinsert
    · exact absurd hhas' hhas
    · exact ⟨rfl, rfl, hfits.1 hrow⟩

/-- Rows that fit one schema and another row that fits. -/
theorem BlockWritten.fits_rows (h : HoldsEarlier R payload.blockMeta s₀) {s : Session} (hs : BlockWritten s₀ payload s) :
    ∀ t, ∀ row ∈ s.db t, fitsColumns (bdsSchema R.casts t).columns row = true := by
  intro t row hrow
  rw [hs.db] at hrow
  by_cases ht : t = .blocks
  · subst ht
    rw [Function.update_self] at hrow
    rcases List.mem_append.1 hrow with hrow | hrow
    · exact h.fits _ row hrow
    · rw [List.mem_singleton.1 hrow]
      simpa [blockRow, BlockFits, bdsSchema, notNull, SqlType.holds] using hs.fits
  · rw [Function.update_of_ne ht] at hrow
    exact h.fits t row hrow

/-- The current rows of the touched keys. -/
theorem currentIndex_fits {keys : List Cell} {s s' : Session} (h : loadCurrentStateIndex R keys s = .ok ((), s'))
    (hfits : ∀ row ∈ s.db .state, fitsColumns (bdsSchema R.casts .state).columns row = true) {k : String}
    {p : Cell × Cell} (hp : s'.currentIndex.get? k = some p) :
    nullable R.casts .counter p.1 = true ∧ nullable R.casts .text p.2 = true := by
  unfold loadCurrentStateIndex at h
  split_ifs at h
  obtain rfl := (Prod.mk.inj (Except.ok.inj h)).2
  dsimp only at hp
  rw [PyDict.get?_ofList] at hp
  obtain ⟨row, hrow, heq⟩ := List.mem_filterMap.1 (PyDict.mem_of_lookup_reverse hp)
  have hrowFits := hfits row hrow
  split at heq
  · split_ifs at heq
    obtain ⟨rfl, rfl⟩ := Prod.mk.inj (Option.some.inj heq)
    simp only [bdsSchema, fitsColumns_cons, Bool.and_eq_true] at hrowFits
    obtain ⟨-, -, hid, hhash, -⟩ := hrowFits
    exact ⟨Bool.or_eq_true_iff.2 (.inr hid), hhash⟩
  · cases heq

theorem exactly_load (h : HoldsEarlier R payload.blockMeta s₀) (keys : List Cell) :
    Exactly (loadCurrentStateIndex R keys) (BlockWritten s₀ payload) (∀ key ∈ keys, nullable R.casts .text key = true)
      fun _ => Live R payload.blockMeta.height (indexedHashes s₀) (fun _ => False) fun _ _ => False := by
  constructor
  · intro s _
    unfold loadCurrentStateIndex
    split_ifs with hkeys
    · simpa using hkeys
    · simpa using hkeys
  · intro s hs _ s' hr
    have hindex : ∀ k p, s'.currentIndex.get? k = some p →
        nullable R.casts .counter p.1 = true ∧ nullable R.casts .text p.2 = true := fun k p hp =>
      currentIndex_fits hr (hs.fits_rows h .state) hp
    unfold loadCurrentStateIndex at hr
    split_ifs at hr
    obtain rfl := (Prod.mk.inj (Except.ok.inj hr)).2
    have hother : ∀ t, t ≠ .blocks → s.db t = s₀.db t := by
      intro t ht
      rw [hs.db, Function.update_of_ne ht]
    have hheight : ∀ row : List Cell, ∀ key cells, project (1 :: key) row = some (.int payload.blockMeta.height) :: cells →
        row[1]? = some (.int payload.blockMeta.height) := fun row key cells hrow => (List.cons.inj hrow).1
    refine ⟨?_, fun hash => ?_, fun i => ?_, fun i w => ?_, hs.fits_rows h, hindex, fun t ht row hrow => ?_⟩
    · dsimp only
      rw [hs.db, Function.update_self, has_append]
      exact .inr rfl
    · dsimp only
      rw [hother _ (by decide), indexedHashes]
    · refine iff_of_false ?_ not_false
      dsimp only
      rw [hother _ (by decide)]
      rintro ⟨row, hrow, heq⟩
      exact h.no_row (by simp [bdsSchema]) hrow (hheight row _ _ heq)
    · refine iff_of_false ?_ not_false
      dsimp only
      rw [hother _ (by decide)]
      rintro ⟨row, hrow, heq⟩
      exact h.no_row (by simp [bdsSchema]) hrow (hheight row _ _ heq)
    · dsimp only at hrow ⊢
      rw [hother t (by rintro rfl; cases ht)] at hrow
      rw [hs.sequences]
      exact h.ids t ht row hrow

/-! ### The transactions of a block -/

/-- A hash of the index, or of one of these transactions. -/
def KnownAfter (known : String → Prop) (done : List BdsTransactionPayload) (hash : String) : Prop :=
  known hash ∨ ∃ tx ∈ done, tx.txResult.hash = hash

/-- An index of the block that these transactions take: a transaction whose hash is known takes none. -/
def SlotTaken (known : String → Prop) (done : List BdsTransactionPayload) (i : Int) : Prop :=
  ∃ pre tx post, done = pre ++ tx :: post ∧ ¬ KnownAfter known pre tx.txResult.hash ∧ i = tx.txIndex

/-- A place for a state change that these transactions take. -/
def ChangeTaken (done : List BdsTransactionPayload) (i : Int) (w : Nat) : Prop :=
  ∃ tx ∈ done, i = tx.txIndex ∧ w < tx.txResult.state.length

variable {known : String → Prop} {done : List BdsTransactionPayload} {tx : BdsTransactionPayload}

theorem knownAfter_append {hash : String} :
    KnownAfter known (done ++ [tx]) hash ↔ KnownAfter known done hash ∨ hash = tx.txResult.hash := by
  simp only [KnownAfter, List.mem_append, List.mem_singleton, or_and_right, exists_or, exists_eq_left, or_assoc,
    eq_comm (a := hash)]

theorem slotTaken_append {i : Int} : SlotTaken known (done ++ [tx]) i ↔
    SlotTaken known done i ∨ ¬ KnownAfter known done tx.txResult.hash ∧ i = tx.txIndex := by
  constructor
  · rintro ⟨pre, tx', post, hdone, hnew, hi⟩
    rcases List.eq_nil_or_concat post with rfl | ⟨post, last, rfl⟩
    · obtain ⟨rfl, htx⟩ := List.append_inj' hdone rfl
      obtain rfl := List.singleton_inj.1 htx
      exact .inr ⟨hnew, hi⟩
    · have hsplit : done ++ [tx] = (pre ++ tx' :: post) ++ [last] := by simpa using hdone
      obtain ⟨rfl, -⟩ := List.append_inj' hsplit rfl
      exact .inl ⟨pre, tx', post, rfl, hnew, hi⟩
  · rintro (⟨pre, tx', post, rfl, hnew, hi⟩ | ⟨hnew, hi⟩)
    · exact ⟨pre, tx', post ++ [tx], by simp, hnew, hi⟩
    · exact ⟨done, tx, [], rfl, hnew, hi⟩

theorem changeTaken_append {i : Int} {w : Nat} : ChangeTaken (done ++ [tx]) i w ↔
    ChangeTaken done i w ∨ i = tx.txIndex ∧ w < tx.txResult.state.length := by
  simp only [ChangeTaken, List.mem_append, List.mem_singleton, or_and_right, exists_or, exists_eq_left]

theorem exactly_transactions {block : BlockMeta} {time : Int} {transactions : List BdsTransactionPayload}
    (hincreasing : transactions.Pairwise fun a b => a.txIndex < b.txIndex) :
    Exactly (transactions.forM fun tx => persistTransaction R B block time tx)
      (Live R block.height known (fun _ => False) fun _ _ => False)
      (∀ tx ∈ transactions, ∃ payload, tx.envelope.index "payload" = .ok payload ∧
        TxStorable R B ⟨block, time, tx.txResult.hash, tx.txIndex⟩ tx payload)
      fun _ => Live R block.height (KnownAfter known transactions) (SlotTaken known transactions)
        (ChangeTaken transactions) := by
  have hloop : Exactly (transactions.forM fun tx => persistTransaction R B block time tx)
      (Live R block.height (KnownAfter known []) (SlotTaken known []) (ChangeTaken []))
      (∀ pre tx post, transactions = pre ++ tx :: post → ∃ payload, tx.envelope.index "payload" = .ok payload ∧
        TxStorable R B ⟨block, time, tx.txResult.hash, tx.txIndex⟩ tx payload)
      fun _ => Live R block.height (KnownAfter known transactions) (SlotTaken known transactions)
        (ChangeTaken transactions) := by
    refine Exactly.forM_prefix
      (I := fun done => Live R block.height (KnownAfter known done) (SlotTaken known done) (ChangeTaken done))
      (c := fun _ tx => ∃ payload, tx.envelope.index "payload" = .ok payload ∧
        TxStorable R B ⟨block, time, tx.txResult.hash, tx.txIndex⟩ tx payload) fun pre tx post hsplit => ?_
    -- the indexes of the transactions that are done are smaller
    have hbefore : ∀ t ∈ pre, t.txIndex < tx.txIndex := by
      intro t ht
      rw [hsplit] at hincreasing
      exact (List.pairwise_append.1 hincreasing).2.2 t ht tx (by simp)
    refine (exactly_persistTransaction ?_ ?_).conseq (fun _ => id) Iff.rfl fun _ s hs =>
      hs.iff (fun _ => knownAfter_append.symm) (fun _ => slotTaken_append.symm) fun _ _ => changeTaken_append.symm
    · rintro ⟨pre', t, post', rfl, -, hi⟩
      have hlt := hbefore t (by simp)
      omega
    · rintro w ⟨t, ht, hi, -⟩
      have hlt := hbefore t ht
      omega
  refine hloop.conseq (fun s hs => hs.iff ?_ ?_ ?_) ?_ fun _ _ => id
  · simp [KnownAfter]
  · simp [SlotTaken]
  · simp [ChangeTaken]
  · constructor
    · intro hall tx htx
      obtain ⟨pre, post, hsplit⟩ := List.append_of_mem htx
      exact hall pre tx post hsplit
    · intro hall pre tx post hsplit
      exact hall tx (by rw [hsplit]; simp)

/-! ### Blocks -/

/-- Each text and number of the block fits the column it goes to. -/
structure Storable (R : BdsRuntime) (B : Builtins) (payload : BdsBlockPayload) : Prop where
  block : BlockFits payload
  keys : ∃ keys, touchedKeys payload = .ok keys ∧ ∀ key ∈ keys, nullable R.casts .text key = true
  transactions : ∀ tx ∈ payload.transactions, ∃ p, tx.envelope.index "payload" = .ok p ∧
    TxStorable R B ⟨payload.blockMeta, payload.blockTime, tx.txResult.hash, tx.txIndex⟩ tx p
  patches : payload.statePatches ≠ [] → ∃ patchChanges, flattenedChanges payload.statePatches = .ok patchChanges ∧
    PatchesStorable R ⟨payload.blockMeta, payload.blockTime, patchHashOf payload, payload.transactions.length⟩
      payload.statePatches patchChanges

/-- The state patches find their index free, or are known already, and no state change is filed under it. -/
def SlotFree (known : String → Prop) (payload : BdsBlockPayload) : Prop :=
  payload.statePatches ≠ [] → (KnownAfter known payload.transactions (patchHashOf payload) ∨
      ¬ SlotTaken known payload.transactions payload.transactions.length) ∧
    ∀ patchChanges, flattenedChanges payload.statePatches = .ok patchChanges → ∀ w < patchChanges.length,
      ¬ ChangeTaken payload.transactions payload.transactions.length w

theorem exactly_insertPayload (hearlier : HoldsEarlier R payload.blockMeta s₀)
    (hincreasing : payload.transactions.Pairwise fun a b => a.txIndex < b.txIndex) :
    Exactly (insertPayload R B payload) (· = s₀) (Storable R B payload ∧ SlotFree (indexedHashes s₀) payload)
      fun _ _ => True := by
  unfold insertPayload
  apply Exactly.iff
  · apply Exactly.bind (exactly_insertBlock hearlier)
    intro _ _
    apply exactly_python
    intro keys _
    apply Exactly.bind (exactly_load hearlier keys)
    intro _ _
    apply Exactly.bind (exactly_transactions hincreasing)
    intro _ _
    exact .ite (fun _ => .pure fun _ _ => trivial) fun _ => exactly_statePatches
  · constructor
    · rintro ⟨hblock, keys, hkeys, hkeyFits, htransactions, hpatches⟩
      refine ⟨⟨hblock, ⟨keys, hkeys, hkeyFits⟩, htransactions, fun hsome => ?_⟩, fun hsome => ?_⟩
      · rw [if_neg hsome] at hpatches
        obtain ⟨patchChanges, hchanges, hstorable, -⟩ := hpatches
        exact ⟨patchChanges, hchanges, hstorable⟩
      · rw [if_neg hsome] at hpatches
        obtain ⟨patchChanges, hchanges, -, hslot, hfree⟩ := hpatches
        refine ⟨hslot, fun patchChanges' hchanges' => ?_⟩
        obtain rfl := Except.ok.inj (hchanges.symm.trans hchanges')
        exact hfree
    · rintro ⟨⟨hblock, ⟨keys, hkeys, hkeyFits⟩, htransactions, hpatches⟩, hslot⟩
      refine ⟨hblock, keys, hkeys, hkeyFits, htransactions, ?_⟩
      by_cases hnone : payload.statePatches = []
      · rw [if_pos hnone]
        trivial
      · rw [if_neg hnone]
        obtain ⟨patchChanges, hchanges, hstorable⟩ := hpatches hnone
        exact ⟨patchChanges, hchanges, hstorable, (hslot hnone).1, (hslot hnone).2 patchChanges hchanges⟩

theorem persistBlock_iff (hearlier : HoldsEarlier R payload.blockMeta s₀)
    (hincreasing : payload.transactions.Pairwise fun a b => a.txIndex < b.txIndex) :
    (persistBlock R B payload s₀).1 = true ↔ Storable R B payload ∧ SlotFree (indexedHashes s₀) payload := by
  rw [← (exactly_insertPayload hearlier hincreasing).succeeds s₀ rfl]
  have hfind : (s₀.db .blocks).find? (fun row => row[0]? = some (.int payload.blockMeta.height)) = none := by
    refine List.find?_eq_none.2 fun row hrow heq => hearlier.no_block ⟨row, hrow, ?_⟩
    simpa [project] using heq
  unfold persistBlock
  rw [hfind]
  dsimp only
  rcases insertPayload R B payload s₀ with e | ⟨_, s⟩
  · simp
  · simp

/-! ### Finalized blocks -/

section Finalized

variable {H : BlockHooks} {envelope : Tx → Value} {settings : LocalSettings} {D : Type} [Driver D]
  {appliedPatches : DriverView → BlockMeta → List Value} {n : Node D} {req : FinalizeRequest}

/-- The indexed transactions of a block are in order, from this position on. -/
theorem assembleIndexed_increasing {i : Nat} {entries : List (Bytes × Except String Tx)}
    {results : List (Option TxResult)} {view : DriverView} {assembled : Assembled} {sets : List (String × Value)}
    (h : assembleIndexed H envelope settings i entries results view = (.ok assembled, sets)) :
    assembled.bdsTransactions.Pairwise (fun a b => a.txIndex < b.txIndex) ∧
      ∀ tx ∈ assembled.bdsTransactions, i ≤ tx.txIndex := by
  induction entries generalizing i results view assembled sets with
  | nil =>
    rw [assembleIndexed] at h
    obtain rfl := Except.ok.inj (Prod.mk.inj h).1
    simp
  | cons entry entries ih =>
    -- the entry brings its own transaction or none
    have hentry : ∀ {rest : Assembled} {results : List (Option TxResult)} {view : DriverView}
        {sets : List (String × Value)} (txResult : ExecTxResult) (bds : List BdsTransactionPayload) (log : List LogLine),
        assembleIndexed H envelope settings (i + 1) entries results view = (.ok rest, sets) →
        (bds = [] ∨ ∃ t, bds = [t] ∧ t.txIndex = i) →
        (Assembled.cons txResult bds log rest).bdsTransactions.Pairwise (fun a b => a.txIndex < b.txIndex) ∧
          ∀ tx ∈ (Assembled.cons txResult bds log rest).bdsTransactions, i ≤ tx.txIndex := by
      intro rest results view sets txResult bds log hrest hbds
      obtain ⟨hpairwise, hle⟩ := ih hrest
      rcases hbds with rfl | ⟨t, rfl, ht⟩
      · refine ⟨hpairwise, fun tx htx => ?_⟩
        have hlt := hle tx htx
        omega
      · refine ⟨List.pairwise_cons.2 ⟨fun tx htx => ?_, hpairwise⟩, fun tx htx => ?_⟩
        · have hlt := hle tx htx
          omega
        · rcases List.mem_cons.1 htx with rfl | htx
          · omega
          · have hlt := hle tx htx
            omega
    have hskip : ∀ {txResult : ExecTxResult} {results : List (Option TxResult)},
        (do return Assembled.cons txResult [] [] (← assembleIndexed H envelope settings (i + 1) entries results))
          view = (.ok assembled, sets) →
        assembled.bdsTransactions.Pairwise (fun a b => a.txIndex < b.txIndex) ∧
          ∀ tx ∈ assembled.bdsTransactions, i ≤ tx.txIndex := by
      intro txResult results h
      obtain ⟨rest, _, _, hrest, hcons, -⟩ := BlockM.bind_ok h
      obtain rfl := Except.ok.inj (Prod.mk.inj hcons).1
      exact hentry _ _ _ hrest (.inl rfl)
    rcases entry with ⟨txBytes, message | tx⟩
    · rw [assembleIndexed] at h
      exact hskip h
    · rcases results with _ | ⟨_ | result, results⟩
      · rw [assembleIndexed] at h
        exact hskip h
      · rw [assembleIndexed] at h
        exact hskip h
      · rw [assembleIndexed] at h
        by_cases hhash : result.hash = ""
        · rw [if_pos hhash] at h
          exact hskip h
        · rw [if_neg hhash] at h
          obtain ⟨_, _, _, -, h, -⟩ := BlockM.bind_ok h
          obtain ⟨data, _, _, -, h, -⟩ := BlockM.bind_ok h
          obtain ⟨rest, _, _, hrest, hcons, -⟩ := BlockM.bind_ok h
          obtain rfl := Except.ok.inj (Prod.mk.inj hcons).1
          refine hentry _ _ _ hrest ?_
          split_ifs
          · exact .inr ⟨_, rfl, rfl⟩
          · exact .inl rfl

/-- A payload and the transactions it was assembled from. -/
structure Enqueued (H : BlockHooks) (envelope : Tx → Value) (settings : LocalSettings)
    (appliedPatches : DriverView → BlockMeta → List Value) (req : FinalizeRequest) (payload : BdsBlockPayload)
    (view : DriverView) (results : List (Option TxResult)) (assembled : Assembled) : Prop where
  datetime : ∃ u, H.blockDatetime req.nanos = .ok u
  executed : ∃ view' sets, H.executeTransactions ((H.decodeBlockTransactions req view.current).filterMap
    Except.toOption) view' = (.ok results, sets)
  assembles : ∃ view' sets, assembleIndexed H envelope settings 0
    (req.txs.zip (H.decodeBlockTransactions req view.current)) results view' = (.ok assembled, sets)
  live : ∃ patchHash root, payload = livePayload appliedPatches req view assembled patchHash root

theorem exists_enqueued (h : (finalizeBlockLocal H envelope settings appliedPatches n req).2 = some payload) :
    ∃ view results assembled, Enqueued H envelope settings appliedPatches req payload view results assembled := by
  have hbody : (finalizeBlockBodyLocal H envelope settings appliedPatches n req).2 = some payload := by
    unfold finalizeBlockLocal at h
    split at h
    · rename_i heq
      rw [heq]
      exact h
    · rename_i heq
      rw [heq]
      exact h
  unfold finalizeBlockBodyLocal at hbody
  have hdatetime : (∃ n', initializeBlock H n req = .ok n') → ∃ u, H.blockDatetime req.nanos = .ok u := by
    rintro ⟨n', hn'⟩
    unfold initializeBlock at hn'
    cases hu : H.blockDatetime req.nanos with
    | error e =>
      rw [hu] at hn'
      cases hn'
    | ok u => exact ⟨u, rfl⟩
  rcases hinit : initializeBlock H n req with e | n'
  · rw [hinit] at hbody
    cases hbody
  rw [hinit] at hbody
  dsimp only at hbody
  rcases hstages : blockStagesLocal H envelope settings req (driverView n'.driver) with ⟨e | ⟨r, assembled, patchHash⟩, sets⟩
  · rw [hstages] at hbody
    cases hbody
  rw [hstages] at hbody
  dsimp only at hbody
  have hpayload : ∃ root, payload = livePayload appliedPatches req (driverView n'.driver) assembled patchHash root := by
    split at hbody
    · cases hbody
    · rename_i root cache _
      refine ⟨root, ?_⟩
      split at hbody
      · split_ifs at hbody
        exact (Option.some.inj hbody).symm
      · split_ifs at hbody
        exact (Option.some.inj hbody).symm
  obtain ⟨root, rfl⟩ := hpayload
  obtain ⟨entries, _, _, hentries, hstages, -⟩ := BlockM.bind_ok hstages
  obtain rfl := Except.ok.inj (Prod.mk.inj hentries).1
  obtain ⟨results, sets', _, hresults, hstages, -⟩ := BlockM.bind_ok hstages
  obtain ⟨assembled', sets'', _, hassembled, hstages, -⟩ := BlockM.bind_ok hstages
  obtain ⟨_, _, _, -, hstages, -⟩ := BlockM.bind_ok hstages
  obtain ⟨_, _, _, -, hstages, -⟩ := BlockM.bind_ok hstages
  obtain ⟨_, _, _, -, hstages, -⟩ := BlockM.bind_ok hstages
  obtain ⟨_, _, _, -, hstages, -⟩ := BlockM.bind_ok hstages
  obtain ⟨-, hrest⟩ := Prod.mk.inj (Except.ok.inj (Prod.mk.inj hstages).1)
  obtain rfl := (Prod.mk.inj hrest).1
  exact ⟨driverView n'.driver, results, assembled', hdatetime ⟨n', hinit⟩, ⟨_, _, hresults⟩, ⟨_, _, hassembled⟩,
    patchHash, root, rfl⟩

/-- A finalized block is written to an index of the earlier blocks exactly when its texts and numbers fit and its
state patches find their index free. -/
theorem finalized_block_indexed_iff
    (hpayload : (finalizeBlockLocal H envelope settings appliedPatches n req).2 = some payload)
    (hearlier : HoldsEarlier R payload.blockMeta s₀) :
    (persistBlock R B payload s₀).1 = true ↔ Storable R B payload ∧ SlotFree (indexedHashes s₀) payload := by
  obtain ⟨view, results, assembled, henqueued⟩ := exists_enqueued hpayload
  obtain ⟨view', sets, hassembled⟩ := henqueued.assembles
  obtain ⟨patchHash, root, rfl⟩ := henqueued.live
  exact persistBlock_iff hearlier (assembleIndexed_increasing hassembled).1

end Finalized

/-! ### A gap and a state patch -/

def plainRuntime : BdsRuntime := ⟨plainJson, fun _ => true, fun _ => .ok false⟩

def emptyIndex : Session := ⟨fun _ => [], fun _ => 0, .empty⟩

theorem holdsEarlier_emptyIndex (block : BlockMeta) : HoldsEarlier R block emptyIndex where
  fits _ _ hrow := absurd hrow List.not_mem_nil
  refers _ _ hrow := absurd hrow List.not_mem_nil
  heights _ hrow := absurd hrow List.not_mem_nil
  hashes := by
    rintro ⟨_, hrow, -⟩
    exact absurd hrow List.not_mem_nil
  ids _ _ _ hrow := absurd hrow List.not_mem_nil

def gapTx : Tx := ⟨"ab", "currency", "transfer", .dict [], .int 0, 10, "aa", .none, 40⟩

def gapEnvelope (tx : Tx) : Value :=
  .dict [("payload", .dict [("sender", .str tx.sender), ("nonce", tx.nonce), ("contract", .str tx.contract),
    ("function", .str tx.function), ("kwargs", tx.kwargs)])]

def gapResult : TxResult := ⟨"aa", 0, [("currency.balances:ab", .int 1)], [], 1, .none, none, []⟩

/-- The first transaction is rejected, the second executed; a patch is due. -/
def gapHooks : BlockHooks :=
  { patchedHooks with
    decodeBlockTransactions := fun _ _ => [.error "Transaction is not valid", .ok gapTx]
    executeTransactions := fun _ => pure [some gapResult]
    buildValidatorUpdates := fun _ => pure []
    applyPatchesForBlock := fun _ => pure (some "f0") }

def duePatch (_ : DriverView) (_ : BlockMeta) : List Value :=
  [.dict [("changes", .list [.dict [("key", .str "con.x"), ("value", .int 1)]])]]

/-- Does the database refuse a row of the block for a key that is taken? -/
def refusedAsTaken (payload : BdsBlockPayload) (s : Session) : Bool :=
  match insertPayload plainRuntime .plain payload s with
  | .error (.sql .uniqueViolation) => true
  | _ => false

theorem gap_block_refused : ∃ payload,
    (finalizeBlockLocal gapHooks gapEnvelope ⟨100, true, false, false⟩ duePatch idleNode
      ⟨1, 5000, [7], [[1], [2]], []⟩).2 = some payload ∧
    HoldsEarlier plainRuntime payload.blockMeta emptyIndex ∧ refusedAsTaken payload emptyIndex = true ∧
    (persistBlock plainRuntime .plain payload emptyIndex).1 = false := by
  have hrun : ((finalizeBlockLocal gapHooks gapEnvelope ⟨100, true, false, false⟩ duePatch idleNode
      ⟨1, 5000, [7], [[1], [2]], []⟩).2.any fun payload => refusedAsTaken payload emptyIndex &&
        !(persistBlock plainRuntime .plain payload emptyIndex).1) = true := by decide +kernel
  obtain ⟨payload, hpayload, hrefused⟩ := (Option.any_eq_true _ _).1 hrun
  obtain ⟨htaken, hkept⟩ := Bool.and_eq_true_iff.1 hrefused
  exact ⟨payload, hpayload, holdsEarlier_emptyIndex _, htaken, by simpa using hkept⟩

/-- Without a patch the same block is indexed. -/
theorem finalized_block_indexed_gap : ∃ payload,
    (finalizeBlockLocal gapHooks gapEnvelope ⟨100, true, false, false⟩ (fun _ _ => []) idleNode
      ⟨1, 5000, [7], [[1], [2]], []⟩).2 = some payload ∧
    Storable plainRuntime .plain payload ∧ SlotFree (indexedHashes emptyIndex) payload := by
  have hrun : ((finalizeBlockLocal gapHooks gapEnvelope ⟨100, true, false, false⟩ (fun _ _ => []) idleNode
      ⟨1, 5000, [7], [[1], [2]], []⟩).2.any fun payload =>
        (persistBlock plainRuntime .plain payload emptyIndex).1) = true := by decide +kernel
  obtain ⟨payload, hpayload, hindexed⟩ := (Option.any_eq_true _ _).1 hrun
  exact ⟨payload, hpayload,
    (finalized_block_indexed_iff hpayload (holdsEarlier_emptyIndex _)).1 hindexed⟩

end XianAbci
