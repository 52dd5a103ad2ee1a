import XianAbci.CommitCrash

/-!
# The stages of a block, one by one

What a block that finalizes has gone through: each stage with the view it started from and the values
it set. `finalizeAndCommit_spec` adds what Commit then leaves in the store.
-/

namespace XianAbci

theorem DriverView.overwrite_nil (view : DriverView) : view.overwrite [] = view := rfl

theorem DriverView.overwrite_append (view : DriverView) (a b : List (String × Value)) :
    (view.overwrite a).overwrite b = view.overwrite (a ++ b) := by
  unfold overwrite
  congr 1
  funext key
  rw [List.reverse_append, List.lookup_append]
  rcases b.reverse.lookup key with _ | v <;> rfl

/-- A key that is not set reads as before. -/
theorem DriverView.current_overwrite {view : DriverView} {sets : List (String × Value)} {key : String}
    (h : key ∉ sets.map Prod.fst) : (view.overwrite sets).current key = view.current key := by
  unfold overwrite
  dsimp only
  rw [PyDict.lookup_eq_none (by rw [List.map_reverse, List.mem_reverse]; exact h)]
  rfl

namespace BlockM

variable {α β : Type} {m : BlockM α} {f : α → BlockM β} {view : DriverView} {b : β} {sets : List (String × Value)}

theorem bind_ok (h : (m >>= f) view = (.ok b, sets)) :
    ∃ a s s', m view = (.ok a, s) ∧ f a (view.overwrite s) = (.ok b, s') ∧ sets = s ++ s' := by
  change BlockM.bind m f view = _ at h
  unfold BlockM.bind at h
  rcases hm : m view with ⟨e | a, s⟩
  · rw [hm] at h; cases (Prod.mk.inj h).1
  · rw [hm] at h
    obtain ⟨hb, hs⟩ := Prod.mk.inj h
    exact ⟨a, s, (f a (view.overwrite s)).2, rfl, Prod.ext hb rfl, hs.symm⟩

theorem bind_of_ok {a : α} {s s' : List (String × Value)} (hm : m view = (.ok a, s))
    (hf : f a (view.overwrite s) = (.ok b, s')) : (m >>= f) view = (.ok b, s ++ s') := by
  change BlockM.bind m f view = _
  unfold BlockM.bind
  rw [hm]
  dsimp only
  rw [hf]

theorem pure_ok {a : α} (h : (pure a : BlockM α) view = (.ok a, sets)) : sets = [] := (Prod.mk.inj h).2.symm

end BlockM

/-- The values each stage of a block set. -/
structure StageSets where
  execute : List (String × Value)
  nonces : List (String × Value)
  evidence : List (String × Value)
  rebalance : List (String × Value)
  validators : List (String × Value)
  patches : List (String × Value)

namespace StageSets

/-- Set before the validator updates are computed. -/
def beforeValidators (t : StageSets) : List (String × Value) := t.execute ++ t.nonces ++ t.evidence ++ t.rebalance

def all (t : StageSets) : List (String × Value) := t.beforeValidators ++ t.validators ++ t.patches

end StageSets

section Stages

variable (H : BlockHooks) (req : FinalizeRequest) (view : DriverView)

/-- The transactions of the block that reach execution. -/
def decodedTxs : List Tx := (H.decodeBlockTransactions req view.current).filterMap Except.toOption

/-- The stages of a block that went through them all. -/
structure Stages (result : BlockResult) (results : List (Option TxResult)) (t : StageSets) : Prop where
  execute : H.executeTransactions (decodedTxs H req view) view = (.ok results, t.execute)
  assemble : assembleTxResults H (H.decodeBlockTransactions req view.current) results (view.overwrite t.execute) =
    (.ok result.txResults, t.nonces)
  evidence : H.applyEvidencePenalties req (view.overwrite (t.execute ++ t.nonces)) = (.ok (), t.evidence)
  rebalance : H.runEpochRebalance req.height (view.overwrite (t.execute ++ t.nonces ++ t.evidence)) =
    (.ok (), t.rebalance)
  validators : H.buildValidatorUpdates req.height (view.overwrite t.beforeValidators) =
    (.ok result.validatorUpdates, t.validators)
  patches : ∃ patchHash, H.applyPatchesForBlock (blockMeta req)
    (view.overwrite (t.beforeValidators ++ t.validators)) = (.ok patchHash, t.patches)

variable {H req view}

theorem blockStages_ok {result : BlockResult} {sets : List (String × Value)}
    (h : blockStages H req view = (.ok result, sets)) :
    ∃ results t, Stages H req view result results t ∧ sets = t.all := by
  obtain ⟨entries, s₀, s₁, hread, h₁, hsets⟩ := BlockM.bind_ok h
  obtain ⟨hentries, hs₀⟩ := Prod.mk.inj hread
  obtain rfl := Except.ok.inj hentries
  rw [← hs₀, DriverView.overwrite_nil] at h₁
  obtain ⟨results, execute, s₂, hexecute, h₂, hs₁⟩ := BlockM.bind_ok h₁
  obtain ⟨txResults, nonces, s₃, hassemble, h₃, hs₂⟩ := BlockM.bind_ok h₂
  obtain ⟨_, evidence, s₄, hevidence, h₄, hs₃⟩ := BlockM.bind_ok h₃
  obtain ⟨_, rebalance, s₅, hrebalance, h₅, hs₄⟩ := BlockM.bind_ok h₄
  obtain ⟨updates, validators, s₆, hvalidators, h₆, hs₅⟩ := BlockM.bind_ok h₅
  obtain ⟨patchHash, patches, s₇, hpatches, h₇, hs₆⟩ := BlockM.bind_ok h₆
  obtain ⟨hresult, hs₇⟩ := Prod.mk.inj h₇
  obtain rfl := Except.ok.inj hresult
  simp only [DriverView.overwrite_append, List.append_assoc] at hassemble hevidence hrebalance hvalidators hpatches
  refine ⟨results, ⟨execute, nonces, evidence, rebalance, validators, patches⟩,
    ⟨hexecute, hassemble, hevidence, ?_, ?_, patchHash, ?_⟩, ?_⟩
  · simpa only [List.append_assoc] using hrebalance
  · simpa only [StageSets.beforeValidators, List.append_assoc] using hvalidators
  · simpa only [StageSets.beforeValidators, List.append_assoc] using hpatches
  · simp [StageSets.all, StageSets.beforeValidators, hsets, hs₁, hs₂, hs₃, hs₄, hs₅, hs₆, ← hs₇, ← hs₀]

end Stages

/-! ### A block finalized and committed -/

section Committed

variable {B : Builtins} {H : BlockHooks} {D : Type} [Driver D] {n n' : Node D} {req : FinalizeRequest}

/-- A block that went through FinalizeBlock and Commit, from a node with nothing pending. -/
structure CommittedBlock (H : BlockHooks) (n : Node D) (req : FinalizeRequest) (n' : Node D) where
  response : ResponseFinalizeBlock
  result : BlockResult
  results : List (Option TxResult)
  sets : StageSets
  updates : response.validatorUpdates = result.validatorUpdates
  txResults : response.txResults = result.txResults
  stages : Stages H req (driverView n.driver) result results sets
  durable : ∀ k, (Driver.durable n'.driver).get? k = committedValue (Driver.stored D)
    ((Driver.durable n.driver).get? k)
    (if k = latestBlockKey then some (markerOf response.appHash req).value else sets.all.reverse.lookup k)
  pending : Driver.pending n'.driver = .empty

theorem finalizeAndCommit_spec (hpend : Driver.pending n.driver = .empty)
    (h : finalizeAndCommit B H n req = some n') :
    ∃ c : CommittedBlock H n req n', ∃ n₁, finalizeBlock H n req = (.ok c.response, n₁) := by
  unfold finalizeAndCommit at h
  rcases hfin : finalizeBlock H n req with ⟨e | response, n₁⟩
  · rw [hfin] at h; cases h
  rw [hfin] at h
  dsimp only at h
  have hf := finalizeBlock_ok hfin
  obtain ⟨result, hst, hresponse⟩ := hf.stages
  obtain ⟨results, t, hstages, hsets⟩ := blockStages_ok hst
  have hcommit : commitBlock B n₁ none = (.ok (), { n₁ with
      driver := Driver.commit (Driver.applyWrites (Driver.setPending n₁.driver (finalizeWrites H n req))
        (.ofList [(latestBlockKey, (markerOf response.appHash req).value)]))
      stateRootCache := n₁.stateRootCache.commit
      pendingCommitDriverState := none
      merkleRootHash := none
      currentBlockMeta := none }) := by
    unfold commitBlock stagedForCommit restorePendingCommitDriverState
    rw [hf.staged]
    dsimp only
    rw [hf.appHash, hf.block]
    dsimp only
    rw [stageLatestBlock_eq]
    rfl
  rw [hcommit] at h
  obtain rfl := Option.some.inj h
  have hwrites : ∀ k, (finalizeWrites H n req).get? k = t.all.reverse.lookup k := fun k => by
    rw [finalizeWrites, hpend, PyDict.get?_update_items, PyDict.get?_ofList, hsets, PyDict.get?_empty, Option.or_none]
  refine ⟨⟨response, result, results, t, by rw [hresponse], by rw [hresponse], hstages, fun k => ?_,
    Driver.pending_commit _⟩, n₁, rfl⟩
  rw [Driver.get?_durable_commit, Driver.durable_applyWrites, Driver.durable_setPending, hf.durable,
    Driver.pending_applyWrites, Driver.pending_setPending, PyDict.get?_update_items, PyDict.get?_ofList]
  congr 1
  rw [show ([(latestBlockKey, (markerOf response.appHash req).value)] : List (String × Value)).reverse.lookup k =
    if k = latestBlockKey then some (markerOf response.appHash req).value else none from
    PyDict.lookup_cons_ite k latestBlockKey _ [], hwrites]
  split <;> rfl

theorem driverView_current (hpend : Driver.pending n.driver = .empty) :
    (driverView n.driver).current = (driverView n.driver).committed := by
  funext k
  rw [driverView, hpend]
  rfl

/-- Where storage keeps values, the next block reads from disk what the stages left. -/
theorem CommittedBlock.committed_eq (c : CommittedBlock H n req n') (hstored : ∀ v, Driver.stored D v = v)
    (hpend : Driver.pending n.driver = .empty) {k : String} (hk : k ≠ latestBlockKey) :
    (driverView n'.driver).committed k = ((driverView n.driver).overwrite c.sets.all).current k := by
  show ((Driver.durable n'.driver).get? k).getD .none =
    (c.sets.all.reverse.lookup k).getD ((driverView n.driver).current k)
  rw [driverView_current hpend, c.durable, if_neg hk]
  rcases c.sets.all.reverse.lookup k with _ | v
  · rfl
  · by_cases hv : v = .none
    · simp [committedValue, hv]
    · simp [committedValue, hv, hstored]

end Committed

end XianAbci
