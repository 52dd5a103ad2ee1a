import XianAbci.BdsIndexable
import XianAbci.Lib.Leaves
import XianAbci.Lib.VersionChain
import Mathlib.Data.Prod.Lex

/-!
# The chain of state changes

Each row of `state_changes` names the change of its key before it, and the row of `state` names the last one.
`persist_block` takes these names from rows that it loads for the keys of its transactions; the keys of a state
patch are in the changes of its executions, where it does not look. A block keeps the chain exactly when its
patches change no other key that has been changed before, and its changes come in the order of the chain
(`complete_iff_linksChanges`).
-/

namespace XianAbci

/-! ### The log of changes -/

/-- What the chain is about in a row of `state_changes`. -/
structure StateChange where
  changeId : Int
  blockHeight : Int
  txHash : Cell
  txIndex : Int
  writeIndex : Int
  key : String
  newValue : Cell
  previousChangeId : Cell
  previousTxHash : Cell

def StateChange.ofRow : List Cell → Option StateChange
  | [.int changeId, .int blockHeight, _, _, txHash, .int txIndex, .int writeIndex, .text key, newValue,
      previousChangeId, previousTxHash, _, _] =>
    some ⟨changeId, blockHeight, txHash, txIndex, writeIndex, key, newValue, previousChangeId, previousTxHash⟩
  | _ => none

/-- The order by height, transaction and write. -/
def changePlace (blockHeight txIndex writeIndex : Int) : ℤ ×ₗ ℤ ×ₗ ℤ := toLex (blockHeight, toLex (txIndex, writeIndex))

def changeLog : VersionLog StateChange String (ℤ ×ₗ ℤ ×ₗ ℤ) (Cell × Cell) Cell where
  key := StateChange.key
  place c := changePlace c.blockHeight c.txIndex c.writeIndex
  ref c := (.int c.changeId, c.txHash)
  previous c := (c.previousChangeId, c.previousTxHash)
  value := StateChange.newValue
  first := (.null, .null)

def stateChangeRows (s : Session) : List StateChange := (s.db .stateChanges).filterMap StateChange.ofRow

/-- The row of `state` for a key, with the change it points to and its value. -/
def IsStateRow (s : Session) (key : String) (last : Cell × Cell) (value : Cell) : Prop :=
  ∃ height updatedAt, [.text key, value, last.1, last.2, height, updatedAt] ∈ s.db .state

/-- Each change names the latest earlier one of its key, or none where there is none, and the row of each key points
to its last change and holds its value. -/
def ChainComplete (s : Session) : Prop := changeLog.Complete (stateChangeRows s) (IsStateRow s)

/-- What the database sees to: rows that fit their columns, and unique keys of the changes. -/
structure RowsStored (R : BdsRuntime) (s : Session) : Prop where
  fits : ∀ t, ∀ row ∈ s.db t, fitsColumns (bdsSchema R.casts t).columns row = true
  ids : (s.db .stateChanges).Pairwise fun a b => project [0] a ≠ project [0] b
  places : (s.db .stateChanges).Pairwise fun a b => project [1, 5, 6] a ≠ project [1, 5, 6] b

variable {R : BdsRuntime} {B : Builtins} {s s' s₀ : Session}

theorem RowsStored.congr (h : RowsStored R s) (hchanges : s'.db .stateChanges = s.db .stateChanges)
    (hfits : ∀ t, ∀ row ∈ s'.db t, fitsColumns (bdsSchema R.casts t).columns row = true) : RowsStored R s' :=
  ⟨hfits, hchanges ▸ h.ids, hchanges ▸ h.places⟩

theorem StateChange.eq_of_ofRow {row : List Cell} {c : StateChange} (h : StateChange.ofRow row = some c) :
    project [0] row = [some (.int c.changeId)] ∧
      project [1, 5, 6] row = [some (.int c.blockHeight), some (.int c.txIndex), some (.int c.writeIndex)] := by
  unfold StateChange.ofRow at h
  split at h
  · obtain rfl := Option.some.inj h
    exact ⟨rfl, rfl⟩
  · cases h

theorem changePlace_inj {h i w h' i' w' : Int} (heq : changePlace h i w = changePlace h' i' w') :
    h = h' ∧ i = i' ∧ w = w' := by
  simpa [changePlace] using heq

theorem RowsStored.distinct (h : RowsStored R s) : changeLog.Distinct (stateChangeRows s) where
  refs := by
    refine List.pairwise_filterMap.2 (h.ids.imp fun hne c hc d hd href => hne ?_)
    have hid : c.changeId = d.changeId := by
      simpa using congrArg Prod.fst (show ((Cell.int c.changeId, c.txHash) : Cell × Cell) = (.int d.changeId, d.txHash) from href)
    rw [(StateChange.eq_of_ofRow hc).1, (StateChange.eq_of_ofRow hd).1, hid]
  places := by
    refine List.pairwise_filterMap.2 (h.places.imp fun hne c hc d hd hplace => hne ?_)
    obtain ⟨hheight, hindex, hwrite⟩ := changePlace_inj hplace
    rw [(StateChange.eq_of_ofRow hc).2, (StateChange.eq_of_ofRow hd).2, hheight, hindex, hwrite]
  named c _ heq := by cases congrArg Prod.fst heq

/-! ### What a block writes -/

structure BlockWrite where
  key : String
  txIndex : Int
  writeIndex : Int

def StateChange.write (c : StateChange) : BlockWrite := ⟨c.key, c.txIndex, c.writeIndex⟩

def txWrites (tx : BdsTransactionPayload) : List BlockWrite :=
  tx.txResult.state.zipIdx.map fun change => ⟨change.1.1, tx.txIndex, change.2⟩

/-- The changes of the state patches, as those of a transaction after the others. -/
def patchWrites (payload : BdsBlockPayload) : List BlockWrite :=
  match flattenedChanges payload.statePatches with
  | .ok changes => changes.zipIdx.filterMap fun change =>
      (asStr change.1.1).map fun key => ⟨key, payload.transactions.length, change.2⟩
  | .error _ => []

def blockWrites (payload : BdsBlockPayload) : List BlockWrite :=
  payload.transactions.flatMap txWrites ++ patchWrites payload

/-- The names that a block knows for its keys: those of the loaded rows. -/
def Loaded (s₀ : Session) (keys : List Cell) (start : String → Cell × Cell) : Prop :=
  ∀ k, if .text k ∈ keys then (∃ v, IsStateRow s₀ k (start k) v) ∨ (∀ r v, ¬ IsStateRow s₀ k r v) ∧ start k = (.null, .null)
    else start k = (.null, .null)

/-- Inside the transaction of a block, after some writes: they are linked to each other and to the names loaded. -/
structure Wrote (R : BdsRuntime) (s₀ : Session) (keys : List Cell) (height : Int) (writes : List BlockWrite)
    (s : Session) : Prop where
  stored : RowsStored R s
  linked : ∃ start new, Loaded s₀ keys start ∧ stateChangeRows s = stateChangeRows s₀ ++ new ∧
    new.map StateChange.write = writes ∧ (∀ c ∈ new, c.blockHeight = height) ∧ changeLog.Chained start new ∧
    (∀ k r v, IsStateRow s k r v ↔ changeLog.headsAfter (IsStateRow s₀) new k r v) ∧
    ∀ k, (s.currentIndex.get? k).getD (.null, .null) = changeLog.refAfter start new k

variable {keys : List Cell} {height : Int} {writes : List BlockWrite}

/-- Neither the changes nor the state nor the names have moved. -/
theorem Wrote.congr (h : Wrote R s₀ keys height writes s) (hchanges : s'.db .stateChanges = s.db .stateChanges)
    (hstate : s'.db .state = s.db .state) (hindex : s'.currentIndex = s.currentIndex)
    (hfits : ∀ t, ∀ row ∈ s'.db t, fitsColumns (bdsSchema R.casts t).columns row = true) :
    Wrote R s₀ keys height writes s' where
  stored := h.stored.congr hchanges hfits
  linked := by
    unfold stateChangeRows IsStateRow
    rw [hchanges, hstate, hindex]
    exact h.linked

theorem leaves_sqlInsert {t : BdsTable} {conflict : OnConflict Cell} {row : List Cell} (hchanges : t ≠ .stateChanges)
    (hstate : t ≠ .state) : Leaves (sqlInsert R t conflict row) (Wrote R s₀ keys height writes)
      fun _ => Wrote R s₀ keys height writes := by
  intro s hs _ s' hr
  obtain ⟨db, hinsert, heq⟩ := sqlInsert_ok.1 hr
  obtain rfl := (Prod.mk.inj heq).2
  exact hs.congr (insertRow_other hinsert hchanges.symm) (insertRow_other hinsert hstate.symm) rfl
    (insertRow_fits hinsert hs.stored.fits)

theorem leaves_insertNumbered {t : BdsTable} {conflict : OnConflict Cell} {row : List Cell}
    (hchanges : t ≠ .stateChanges) (hstate : t ≠ .state) : Leaves (insertNumbered R t conflict row)
      (Wrote R s₀ keys height writes) fun _ => Wrote R s₀ keys height writes := by
  intro s hs _ s' hr
  obtain ⟨db, hinsert, heq⟩ := insertNumbered_ok.1 hr
  obtain rfl := (Prod.mk.inj heq).2
  exact hs.congr (insertRow_other hinsert hchanges.symm) (insertRow_other hinsert hstate.symm) rfl
    (insertRow_fits hinsert hs.stored.fits)

/-- A state change is linked to the name for its key, and becomes it. -/
theorem leaves_persistStateChange {x : TxContext} {origin : String} {w : Nat} {key : String} {value : Json} :
    Leaves (persistStateChange R x origin w key value) (Wrote R s₀ keys x.block.height writes)
      fun _ => Wrote R s₀ keys x.block.height (writes ++ [⟨key, x.txIndex, w⟩]) := by
  intro s hs _ s' hr
  obtain ⟨db, hinsert, hupsert⟩ := persistStateChange_ok.1 hr
  obtain ⟨db', hreplace, heq⟩ := sqlInsert_ok.1 hupsert
  obtain rfl := (Prod.mk.inj heq).2
  obtain ⟨-, hfree, -, hdb⟩ := insertRow_raise.1 hinsert
  have hchanges : db' .stateChanges = s.db .stateChanges ++ [changeRow x origin w key value
      (s.sequences .stateChanges + 1) ((s.currentIndex.get? key).getD (.null, .null))] := by
    rw [insertRow_other hreplace (by decide)]
    dsimp only
    rw [hdb, Function.update_self]
  have hstate : db .state = s.db .state := insertRow_other hinsert (by decide)
  have hunique : ∀ k ∈ [[0], [1, 5, 6]], (s.db .stateChanges).Pairwise (fun a b => project k a ≠ project k b) →
      (db' .stateChanges).Pairwise fun a b => project k a ≠ project k b := by
    intro k hk hpairwise
    rw [hchanges]
    refine List.pairwise_append.2 ⟨hpairwise, List.pairwise_singleton _ _, fun a ha b hb heq => hfree ⟨k, hk, a, ha, ?_⟩⟩
    rw [heq, List.mem_singleton.1 hb]
  refine ⟨⟨insertRow_fits hreplace (insertRow_fits hinsert hs.stored.fits), hunique [0] (by simp) hs.stored.ids,
    hunique [1, 5, 6] (by simp) hs.stored.places⟩, ?_⟩
  obtain ⟨start, new, hloaded, hrows, hwrites, hheights, hchained, hheads, hindex⟩ := hs.linked
  let c : StateChange := ⟨s.sequences .stateChanges + 1, x.block.height, .text x.txHash, x.txIndex, w, key, .json value,
    ((s.currentIndex.get? key).getD (.null, .null)).1, ((s.currentIndex.get? key).getD (.null, .null)).2⟩
  refine ⟨start, new ++ [c], hloaded, ?_, ?_, ?_, ?_, fun k r v => ?_, fun k => ?_⟩
  · unfold stateChangeRows at hrows ⊢
    dsimp only
    rw [hchanges, List.filterMap_append, hrows, List.append_assoc]
    rfl
  · rw [List.map_append, hwrites]
    rfl
  · intro d hd
    rcases List.mem_append.1 hd with hd | hd
    · exact hheights d hd
    · rw [List.mem_singleton.1 hd]
  · exact VersionLog.chained_snoc.2 ⟨hchained, hindex key⟩
  · rw [VersionLog.headsAfter_snoc, ← hheads]
    unfold IsStateRow
    simp only [mem_of_replace hreplace, hstate]
    split_ifs with hk
    · obtain rfl : k = key := hk
      constructor
      · rintro ⟨h, u, heq | ⟨-, hne⟩⟩
        · simp only [List.cons.injEq, true_and] at heq
          obtain ⟨hv, hid, hhash, -⟩ := heq
          exact ⟨Prod.ext hid hhash, hv⟩
        · exact absurd rfl hne
      · rintro ⟨rfl, rfl⟩
        exact ⟨_, _, .inl rfl⟩
    · constructor
      · rintro ⟨h, u, heq | ⟨hrow, -⟩⟩
        · simp only [List.cons.injEq, Cell.text.injEq] at heq
          exact absurd heq.1 hk
        · exact ⟨h, u, hrow⟩
      · rintro ⟨h, u, hrow⟩
        have hne : ∀ rest : List Cell, ∀ rest' : List Cell, project [0] (.text k :: rest) ≠ project [0] (.text key :: rest') := by
          intro _ _ heq
          exact hk (show k = key by simpa [project] using heq)
        exact ⟨h, u, .inr ⟨hrow, hne _ _⟩⟩
  · rw [VersionLog.refAfter_snoc, ← hindex]
    dsimp only
    rw [PyDict.get?_set]
    split_ifs with hk hk' hk'
    · rfl
    · exact absurd hk hk'
    · exact absurd hk' hk
    · rfl

/-! ### The writes of a block -/

/-- A loop that changes neither the changes nor the state. -/
theorem leaves_forM {γ : Type} {l : List γ} {f : γ → PersistM PUnit}
    (h : ∀ x ∈ l, Leaves (f x) (Wrote R s₀ keys height writes) fun _ => Wrote R s₀ keys height writes) :
    Leaves (l.forM f) (Wrote R s₀ keys height writes) fun _ => Wrote R s₀ keys height writes := .forM h

/-- A loop over state changes. -/
theorem leaves_changes {γ : Type} {l : List γ} {f : γ → PersistM PUnit} {write : γ → Option BlockWrite}
    (h : ∀ x writes, Leaves (f x) (Wrote R s₀ keys height writes)
      fun _ => Wrote R s₀ keys height (writes ++ (write x).toList)) :
    Leaves (l.forM f) (Wrote R s₀ keys height writes)
      fun _ => Wrote R s₀ keys height (writes ++ l.filterMap write) := by
  have hloop := Leaves.forM_prefix (l := l) (f := f)
    (I := fun pre => Wrote R s₀ keys height (writes ++ pre.filterMap write)) fun pre x post _ => by
      have hwrite : (pre ++ [x]).filterMap write = pre.filterMap write ++ (write x).toList := by
        rw [List.filterMap_append]
        rcases hx : write x with _ | w <;> simp [hx]
      rw [hwrite, ← List.append_assoc]
      exact h x (writes ++ pre.filterMap write)
  rwa [List.filterMap_nil, List.append_nil] at hloop

theorem leaves_persistTransaction {block : BlockMeta} {time : Int} {tx : BdsTransactionPayload} :
    Leaves (persistTransaction R B block time tx) (Wrote R s₀ keys block.height writes)
      fun _ => Wrote R s₀ keys block.height (writes ++ txWrites tx) := by
  unfold persistTransaction
  refine .lift_bind fun payload _ => .lift_bind fun cells _ => ?_
  refine .bind (leaves_sqlInsert (by decide) (by decide)) fun _ => ?_
  refine .bind (leaves_sqlInsert (by decide) (by decide)) fun _ => ?_
  have hchanges : Leaves (tx.txResult.state.zipIdx.forM fun change => do
      let value ← StateT.lift (ofPython (R.canonicalJson change.1.2))
      persistStateChange R ⟨block, time, tx.txResult.hash, tx.txIndex⟩ "transaction" change.2 change.1.1 value)
      (Wrote R s₀ keys block.height writes) fun _ => Wrote R s₀ keys block.height (writes ++ txWrites tx) := by
    unfold txWrites
    rw [← List.filterMap_eq_map]
    exact leaves_changes fun change writes => .lift_bind fun value _ => leaves_persistStateChange
  refine .bind hchanges fun _ => ?_
  refine .bind (leaves_forM fun reward _ => .lift_bind fun _ _ =>
    .bind (leaves_insertNumbered (by decide) (by decide)) fun _ => .pure fun _ => id) fun _ => ?_
  refine .bind (leaves_forM fun event _ => .lift_bind fun _ _ =>
    .bind (leaves_insertNumbered (by decide) (by decide)) fun _ => .pure fun _ => id) fun _ => ?_
  refine .lift_bind fun outputs _ => .bind (leaves_forM fun output _ => ?_) fun _ => ?_
  · exact .bind (leaves_insertNumbered (by decide) (by decide)) fun _ => leaves_forM fun tag _ =>
      .bind (leaves_insertNumbered (by decide) (by decide)) fun _ => .pure fun _ => id
  · exact .lift_bind fun contracts _ => leaves_forM fun contract _ => leaves_sqlInsert (by decide) (by decide)

theorem leaves_transactions {block : BlockMeta} {time : Int} {transactions : List BdsTransactionPayload} :
    Leaves (transactions.forM fun tx => persistTransaction R B block time tx) (Wrote R s₀ keys block.height writes)
      fun _ => Wrote R s₀ keys block.height (writes ++ transactions.flatMap txWrites) := by
  have hloop := Leaves.forM_prefix (l := transactions) (f := fun tx => persistTransaction R B block time tx)
    (I := fun pre => Wrote R s₀ keys block.height (writes ++ pre.flatMap txWrites)) fun pre tx post _ => by
      have htx : Leaves (persistTransaction R B block time tx)
          (Wrote R s₀ keys block.height (writes ++ pre.flatMap txWrites))
          fun _ => Wrote R s₀ keys block.height (writes ++ pre.flatMap txWrites ++ txWrites tx) :=
        leaves_persistTransaction
      rwa [List.append_assoc, ← List.flatMap_singleton txWrites tx, ← List.flatMap_append] at htx
  rwa [List.flatMap_nil, List.append_nil] at hloop

theorem patchChange_ok {change : Value × Value} {change' : String × Json} (h : patchChange R change = .ok change') :
    asStr change.1 = some change'.1 := by
  unfold patchChange at h
  obtain ⟨value, -, h⟩ := bind_eq_ok.1 h
  split at h
  · rename_i key hkey
    obtain rfl := Except.ok.inj h
    rw [hkey]
    rfl
  · cases h

theorem leaves_persistStatePatches {payload : BdsBlockPayload} {patchHash : String} :
    Leaves (persistStatePatches R payload.blockMeta payload.blockTime payload.statePatches patchHash
        payload.transactions.length)
      (Wrote R s₀ keys payload.blockMeta.height writes)
      fun _ => Wrote R s₀ keys payload.blockMeta.height (writes ++ patchWrites payload) := by
  unfold persistStatePatches
  refine .lift_bind fun changes hchanges => .lift_bind fun cells _ => ?_
  refine .bind (leaves_sqlInsert (by decide) (by decide)) fun _ => ?_
  refine .bind (leaves_sqlInsert (by decide) (by decide)) fun _ => ?_
  have hloop : Leaves (changes.zipIdx.forM fun change => do
      let change' ← StateT.lift (ofPython (patchChange R change.1))
      persistStateChange R ⟨payload.blockMeta, payload.blockTime, patchHash, payload.transactions.length⟩ "state_patch"
        change.2 change'.1 change'.2)
      (Wrote R s₀ keys payload.blockMeta.height writes)
      fun _ => Wrote R s₀ keys payload.blockMeta.height (writes ++ patchWrites payload) := by
    unfold patchWrites
    rw [ofPython_ok.1 hchanges]
    refine leaves_changes fun change writes => .lift_bind fun change' hchange' => ?_
    rw [patchChange_ok (ofPython_ok.1 hchange')]
    exact leaves_persistStateChange
  exact .bind hloop fun _ => .lift_bind fun patches _ => leaves_sqlInsert (by decide) (by decide)

/-- The loaded rows give the names of their keys. -/
theorem loaded_of_load (h : loadCurrentStateIndex R keys s = .ok ((), s')) :
    Loaded s keys (fun k => (s'.currentIndex.get? k).getD (.null, .null)) ∧
      s' = { s with currentIndex := s'.currentIndex } := by
  unfold loadCurrentStateIndex at h
  split_ifs at h
  obtain rfl := (Prod.mk.inj (Except.ok.inj h)).2
  refine ⟨fun k => ?_, rfl⟩
  dsimp only
  generalize hload : (s.db .state).filterMap _ = loaded
  have hmem : ∀ p, (k, p) ∈ loaded ↔ (∃ v, IsStateRow s k p v) ∧ .text k ∈ keys := by
    intro p
    rw [← hload, List.mem_filterMap]
    constructor
    · rintro ⟨row, hrow, heq⟩
      split at heq
      · split_ifs at heq with hkey
        obtain ⟨rfl, rfl⟩ := Prod.mk.inj (Option.some.inj heq)
        exact ⟨⟨_, _, _, hrow⟩, hkey⟩
      · cases heq
    · rintro ⟨⟨v, height, updatedAt, hrow⟩, hkey⟩
      exact ⟨_, hrow, by simp [hkey]⟩
  rw [PyDict.get?_ofList]
  rcases hlookup : loaded.reverse.lookup k with _ | p
  · have hnone : ∀ p, (k, p) ∉ loaded := by
      intro p hp
      have hp' := List.mem_reverse.2 hp
      rw [List.lookup_eq_none_iff] at hlookup
      simpa using hlookup (k, p) hp'
    split_ifs with hkey
    · exact .inr ⟨fun r v hrow => hnone r ((hmem r).2 ⟨⟨v, hrow⟩, hkey⟩), rfl⟩
    · rfl
  · have hp := (hmem p).1 (PyDict.mem_of_lookup_reverse hlookup)
    rw [if_pos hp.2]
    exact .inl hp.1

theorem leaves_insertPayload {payload : BdsBlockPayload} (h : RowsStored R s₀) :
    Leaves (insertPayload R B payload) (· = s₀) fun _ s => ∃ keys, touchedKeys payload = .ok keys ∧
      Wrote R s₀ keys payload.blockMeta.height (blockWrites payload) s := by
  unfold insertPayload
  -- the block's row is in another table, and nothing is written yet when the names are loaded
  refine .bind (J := fun _ s => RowsStored R s ∧ s.db .stateChanges = s₀.db .stateChanges ∧ s.db .state = s₀.db .state)
    ?_ fun _ => .lift_bind fun keys hkeys => ?_
  · rintro s rfl _ s' hr
    obtain ⟨db, hinsert, heq⟩ := sqlInsert_ok.1 hr
    obtain rfl := (Prod.mk.inj heq).2
    have hchanges : db .stateChanges = s.db .stateChanges := insertRow_other hinsert (by decide)
    exact ⟨h.congr hchanges (insertRow_fits hinsert h.fits), hchanges, insertRow_other hinsert (by decide)⟩
  · refine .bind (J := fun _ => Wrote R s₀ keys payload.blockMeta.height []) ?_ fun _ => ?_
    · rintro s ⟨hstored, hchanges, hstate⟩ _ s' hr
      obtain ⟨hloaded, hs'⟩ := loaded_of_load hr
      have hrow : IsStateRow s' = IsStateRow s₀ := by
        unfold IsStateRow
        rw [hs']
        dsimp only
        rw [hstate]
      have hloaded' : Loaded s₀ keys fun k => (s'.currentIndex.get? k).getD (.null, .null) := by
        have hsame : IsStateRow s = IsStateRow s₀ := by
          unfold IsStateRow
          rw [hstate]
        unfold Loaded at hloaded ⊢
        rwa [hsame] at hloaded
      refine ⟨hstored.congr (by rw [hs']) (by rw [hs']; exact hstored.fits), _, [], hloaded', ?_, rfl, by simp,
        VersionLog.chained_nil, fun k r v => ?_, fun k => rfl⟩
      · unfold stateChangeRows
        rw [hs']
        dsimp only
        rw [hchanges, List.append_nil]
      · rw [hrow]
        exact Iff.rfl
    · have htransactions : Leaves
          (payload.transactions.forM fun tx => persistTransaction R B payload.blockMeta payload.blockTime tx)
          (Wrote R s₀ keys payload.blockMeta.height [])
          fun _ => Wrote R s₀ keys payload.blockMeta.height ([] ++ payload.transactions.flatMap txWrites) :=
        leaves_transactions
      rw [List.nil_append] at htransactions
      refine .bind htransactions fun _ => .ite (fun hnone => .pure fun s hs => ⟨keys, ofPython_ok.1 hkeys, ?_⟩) fun _ =>
        leaves_persistStatePatches.conseq (fun _ => id) fun _ s hs => ⟨keys, ofPython_ok.1 hkeys, hs⟩
      have hpatches : patchWrites payload = [] := by
        unfold patchWrites
        rw [hnone]
        rfl
      unfold blockWrites
      rwa [hpatches, List.append_nil]

/-! ### Blocks that keep the chain -/

/-- The changes of the block come after what there is and in order, and each key that has been changed before is
among those whose rows are loaded. -/
structure LinksChanges (s : Session) (payload : BdsBlockPayload) : Prop where
  after : ∀ c ∈ stateChangeRows s, ∀ w ∈ blockWrites payload, c.key = w.key →
    changePlace c.blockHeight c.txIndex c.writeIndex < changePlace payload.blockMeta.height w.txIndex w.writeIndex
  ordered : (blockWrites payload).Pairwise fun a b => a.key = b.key →
    changePlace payload.blockMeta.height a.txIndex a.writeIndex < changePlace payload.blockMeta.height b.txIndex b.writeIndex
  touched : ∀ c ∈ stateChangeRows s, ∀ w ∈ blockWrites payload, c.key = w.key →
    ∃ keys, touchedKeys payload = .ok keys ∧ .text w.key ∈ keys

theorem place_eq {c : StateChange} (hc : c.blockHeight = height) :
    changeLog.place c = changePlace height c.write.txIndex c.write.writeIndex := by
  rw [← hc]
  rfl

/-- A block that has been written leaves a complete chain exactly when it links its changes. -/
theorem complete_iff_linksChanges {payload : BdsBlockPayload} (hcomplete : ChainComplete s₀)
    (hkeys : touchedKeys payload = .ok keys)
    (h : Wrote R s₀ keys payload.blockMeta.height (blockWrites payload) s) :
    ChainComplete s ↔ LinksChanges s₀ payload := by
  obtain ⟨start, new, hloaded, hrows, hwrites, hheights, hchained, hheads, -⟩ := h.linked
  have hdistinct := h.stored.distinct
  rw [hrows] at hdistinct
  have hstart : ∀ k, (∃ v, IsStateRow s₀ k (start k) v) ∨ start k = changeLog.first := by
    intro k
    have hk := hloaded k
    split_ifs at hk
    · exact hk.imp_right And.right
    · exact .inr hk
  have hstate : IsStateRow s = changeLog.headsAfter (IsStateRow s₀) new := by
    funext k r v
    exact propext (hheads k r v)
  unfold ChainComplete
  rw [hrows, hstate, VersionLog.complete_append_iff hcomplete hdistinct hchained hstart]
  -- the names cover what is written exactly when the keys with history were loaded
  have hcovers : changeLog.Covers start (IsStateRow s₀) (stateChangeRows s₀) new ↔
      ∀ c ∈ stateChangeRows s₀, ∀ w ∈ blockWrites payload, c.key = w.key →
        ∃ keys, touchedKeys payload = .ok keys ∧ .text w.key ∈ keys := by
    rw [← hwrites]
    simp only [List.forall_mem_map]
    constructor
    · intro hcovers c hc d hd hkey
      refine ⟨keys, hkeys, by_contra fun hnot => ?_⟩
      have hd' := hloaded d.key
      rw [if_neg (show ¬ Cell.text d.key ∈ keys from hnot)] at hd'
      rcases hcovers d hd with ⟨v, hrow⟩ | ⟨hnone, -⟩
      · obtain ⟨p, hlast, href, -⟩ := hcomplete.current _ _ _ hrow
        exact hdistinct.named p (List.mem_append_left _ hlast.mem) (href.symm.trans hd')
      · exact hnone c hc hkey
    · intro htouched d hd
      have hd' := hloaded d.key
      by_cases hhistory : ∃ c ∈ stateChangeRows s₀, c.key = d.key
      · obtain ⟨c, hc, hkey⟩ := hhistory
        obtain ⟨keys', hkeys', hmem⟩ := htouched c hc d hd hkey
        obtain rfl := Except.ok.inj (hkeys.symm.trans hkeys')
        rw [if_pos (show Cell.text d.key ∈ keys from hmem)] at hd'
        refine .inl (hd'.resolve_right fun hnone => ?_)
        obtain ⟨r, v, hrow⟩ := hcomplete.listed c hc
        rw [show changeLog.key c = d.key from hkey] at hrow
        exact hnone.1 r v hrow
      · have hnone : ∀ q ∈ stateChangeRows s₀, changeLog.key q ≠ changeLog.key d := fun q hq hkey => hhistory ⟨q, hq, hkey⟩
        refine .inr ⟨hnone, ?_⟩
        rcases hstart d.key with ⟨v, hrow⟩ | hfirst
        · obtain ⟨p, hlast, -⟩ := hcomplete.current _ _ _ hrow
          exact absurd hlast.key (hnone p hlast.mem)
        · exact hfirst
  have hafter : (∀ a ∈ stateChangeRows s₀, ∀ b ∈ new, changeLog.key a = changeLog.key b →
      changeLog.place a < changeLog.place b) ↔ ∀ c ∈ stateChangeRows s₀, ∀ w ∈ blockWrites payload, c.key = w.key →
        changePlace c.blockHeight c.txIndex c.writeIndex <
          changePlace payload.blockMeta.height w.txIndex w.writeIndex := by
    rw [← hwrites]
    simp only [List.forall_mem_map]
    refine forall₂_congr fun c hc => forall₂_congr fun d hd => imp_congr Iff.rfl ?_
    rw [place_eq (hheights d hd)]
    rfl
  have hordered : (new.Pairwise fun a b => changeLog.key a = changeLog.key b → changeLog.place a < changeLog.place b) ↔
      (blockWrites payload).Pairwise fun a b => a.key = b.key →
        changePlace payload.blockMeta.height a.txIndex a.writeIndex <
          changePlace payload.blockMeta.height b.txIndex b.writeIndex := by
    rw [← hwrites, List.pairwise_map]
    refine List.Pairwise.iff_of_mem fun {a b} ha hb => ?_
    rw [place_eq (hheights a ha), place_eq (hheights b hb)]
    rfl
  constructor
  · rintro ⟨⟨ha, hp⟩, hc⟩
    exact ⟨hafter.1 ha, hordered.1 hp, hcovers.1 hc⟩
  · rintro ⟨ha, hp, hc⟩
    exact ⟨⟨hafter.2 ha, hordered.2 hp⟩, hcovers.2 hc⟩

/-! ### Sequences of blocks -/

/-- The index after some blocks were given to `persist_block`. -/
def persistBlocks (R : BdsRuntime) (B : Builtins) (payloads : List BdsBlockPayload) (s : Session) : Session :=
  payloads.foldl (fun s payload => (persistBlock R B payload s).2) s

theorem persistBlocks_snoc (payloads : List BdsBlockPayload) (payload : BdsBlockPayload) (s : Session) :
    persistBlocks R B (payloads ++ [payload]) s = (persistBlock R B payload (persistBlocks R B payloads s)).2 :=
  List.foldl_append ..

/-- The block is there already, or links its changes. -/
def KeepsChain (s : Session) (payload : BdsBlockPayload) : Prop :=
  (∃ row ∈ s.db .blocks, row[0]? = some (.int payload.blockMeta.height)) ∨ LinksChanges s payload

/-- What one block does: a block that is there changes nothing, one that is refused neither. -/
theorem persistBlock_cases (payload : BdsBlockPayload) (s : Session) :
    (persistBlock R B payload s).2 = s ∧
        ((persistBlock R B payload s).1 = true → ∃ row ∈ s.db .blocks, row[0]? = some (.int payload.blockMeta.height)) ∨
      (∀ row ∈ s.db .blocks, row[0]? ≠ some (.int payload.blockMeta.height)) ∧
        insertPayload R B payload s = .ok ((), (persistBlock R B payload s).2) := by
  unfold persistBlock
  split
  · rename_i row hfind
    refine .inl ⟨rfl, fun _ => ⟨row, List.mem_of_find?_eq_some hfind, ?_⟩⟩
    simpa using List.find?_some hfind
  · rename_i hfind
    split
    · rename_i s' hinsert
      refine .inr ⟨fun row hrow => ?_, hinsert⟩
      simpa using List.find?_eq_none.1 hfind row hrow
    · exact .inl ⟨rfl, fun h => by cases h⟩

theorem RowsStored.persistBlock (h : RowsStored R s) (payload : BdsBlockPayload) :
    RowsStored R (persistBlock R B payload s).2 := by
  rcases persistBlock_cases (R := R) (B := B) payload s with ⟨heq, -⟩ | ⟨-, hinsert⟩
  · rwa [heq]
  · obtain ⟨keys, -, hwrote⟩ := leaves_insertPayload h s rfl _ _ hinsert
    exact hwrote.stored

/-- Over one block that is persisted. -/
theorem chainComplete_persistBlock {payload : BdsBlockPayload} (hstored : RowsStored R s) (hcomplete : ChainComplete s)
    (hpersisted : (persistBlock R B payload s).1 = true) :
    ChainComplete (persistBlock R B payload s).2 ↔ KeepsChain s payload := by
  rcases persistBlock_cases (R := R) (B := B) payload s with ⟨heq, hthere⟩ | ⟨hnew, hinsert⟩
  · rw [heq]
    exact iff_of_true hcomplete (.inl (hthere hpersisted))
  · obtain ⟨keys, hkeys, hwrote⟩ := leaves_insertPayload hstored s rfl _ _ hinsert
    rw [complete_iff_linksChanges hcomplete hkeys hwrote]
    refine ⟨.inr, fun h => h.resolve_left ?_⟩
    rintro ⟨row, hrow, hheight⟩
    exact hnew row hrow hheight

theorem change_chain_iff (hstored : RowsStored R s₀) (hcomplete : ChainComplete s₀) {payloads : List BdsBlockPayload}
    (hpersisted : ∀ pre payload post, payloads = pre ++ payload :: post →
      (persistBlock R B payload (persistBlocks R B pre s₀)).1 = true) :
    (∀ pre, pre <+: payloads → ChainComplete (persistBlocks R B pre s₀)) ↔
      ∀ pre payload post, payloads = pre ++ payload :: post → KeepsChain (persistBlocks R B pre s₀) payload := by
  have hrows : ∀ pre : List BdsBlockPayload, RowsStored R (persistBlocks R B pre s₀) := by
    intro pre
    induction pre using List.reverseRecOn with
    | nil => exact hstored
    | append_singleton pre payload ih =>
      rw [persistBlocks_snoc]
      exact ih.persistBlock payload
  constructor
  · intro hall pre payload post hsplit
    have hbefore := hall pre ⟨payload :: post, hsplit.symm⟩
    have hafter := hall (pre ++ [payload]) ⟨post, by rw [hsplit, List.append_assoc]; rfl⟩
    rw [persistBlocks_snoc] at hafter
    exact (chainComplete_persistBlock (hrows pre) hbefore (hpersisted pre payload post hsplit)).1 hafter
  · intro hkeeps pre
    induction pre using List.reverseRecOn with
    | nil => exact fun _ => hcomplete
    | append_singleton pre payload ih =>
      rintro ⟨post, hpost⟩
      have hsplit : payloads = pre ++ payload :: post := by rw [← hpost, List.append_assoc]; rfl
      have hbefore := ih ⟨payload :: post, hsplit.symm⟩
      rw [persistBlocks_snoc]
      exact (chainComplete_persistBlock (hrows pre) hbefore (hpersisted pre payload post hsplit)).2
        (hkeeps pre payload post hsplit)

/-! A balance is changed by a transaction, and then by a patch alone. -/

def transferBlock : BdsBlockPayload :=
  ⟨⟨1, 5000, "01"⟩, 5, "aa", [⟨0, gapEnvelope gapTx, gapResult⟩], [], none⟩

def balancePatchBlock : BdsBlockPayload where
  blockMeta := ⟨2, 6000, "02"⟩
  blockTime := 6
  appHash := "bb"
  transactions := []
  statePatches := [.dict [("patch_id", .str "p1"), ("activation_height", .int 2), ("emergency", .bool false),
    ("changes", .list [.dict [("key", .str "currency.balances:ab"), ("value", .int 5)]])]]
  statePatchHash := some "f0"

/-- A change without a previous one, and an earlier one of its key. -/
def breaksChain (s : Session) : Bool :=
  (stateChangeRows s).any fun c => (stateChangeRows s).any fun p =>
    p.key = c.key ∧ p.blockHeight < c.blockHeight ∧ c.previousChangeId = .null ∧ c.previousTxHash = .null

theorem not_complete_of_breaksChain (h : breaksChain s = true) : ¬ ChainComplete s := by
  obtain ⟨c, hc, h⟩ := List.any_eq_true.1 h
  obtain ⟨p, hp, h⟩ := List.any_eq_true.1 h
  obtain ⟨hkey, hheight, hid, hhash⟩ := of_decide_eq_true h
  intro hcomplete
  have hprevious : changeLog.previous c = (.null, .null) := Prod.ext hid hhash
  rcases hcomplete.linked c hc with ⟨q, -, href⟩ | ⟨hnone, -⟩
  · cases congrArg Prod.fst (hprevious.symm.trans href)
  · exact hnone p hp hkey (Prod.Lex.toLex_lt_toLex.2 (.inl hheight))

theorem patched_balance_unlinked :
    (persistBlock plainRuntime .plain transferBlock emptyIndex).1 = true ∧
    (persistBlock plainRuntime .plain balancePatchBlock
      (persistBlocks plainRuntime .plain [transferBlock] emptyIndex)).1 = true ∧
    ¬ ChainComplete (persistBlocks plainRuntime .plain [transferBlock, balancePatchBlock] emptyIndex) :=
  ⟨by decide +kernel, by decide +kernel, not_complete_of_breaksChain (by decide +kernel)⟩

theorem rowsStored_emptyIndex : RowsStored R emptyIndex :=
  ⟨fun _ _ hrow => absurd hrow List.not_mem_nil, .nil, .nil⟩

theorem chainComplete_emptyIndex : ChainComplete emptyIndex where
  linked _ hc := absurd hc List.not_mem_nil
  current _ _ _ h := by
    obtain ⟨_, _, hrow⟩ := h
    exact absurd hrow List.not_mem_nil
  listed _ hc := absurd hc List.not_mem_nil

theorem change_chain_iff_transfer : ChainComplete (persistBlocks plainRuntime .plain [transferBlock] emptyIndex) := by
  have hsplit : ∀ {pre payload post}, [transferBlock] = pre ++ payload :: post → pre = [] ∧ payload = transferBlock := by
    intro pre payload post h
    rcases pre with _ | ⟨first, pre⟩
    · exact ⟨rfl, (List.cons.inj h).1.symm⟩
    · simp at h
  refine (change_chain_iff (R := plainRuntime) (B := .plain) rowsStored_emptyIndex chainComplete_emptyIndex
    fun pre payload post h => ?_).2 (fun pre payload post h => ?_) _ (List.prefix_refl _)
  · obtain ⟨rfl, rfl⟩ := hsplit h
    decide +kernel
  · obtain ⟨rfl, rfl⟩ := hsplit h
    exact .inr ⟨fun c hc => absurd hc List.not_mem_nil, List.pairwise_singleton _ _,
      fun c hc => absurd hc List.not_mem_nil⟩

end XianAbci
