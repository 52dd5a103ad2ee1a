import XianAbci.Parallel

/-!
# The cached chi cost (`processor.py`, `parallel_executor.py`)

`get_chi_cost` reads the chi cost once and replaces what is false by one; `update_chi_cost_cache` follows the
writes of the transactions with the values as they are. The two differ on values that are false and not `None`:
after such a write the processor goes on with the value itself where a fresh read gives one. An accepted
speculation was processed at the cost of its snapshot. `chi_costs_fresh_iff` shows that there is no other way for
a transaction to be processed at a cost that is not the current one.
-/

namespace XianAbci

/-- A transaction in its place in the block: processed on the driver as it is, or speculated on a snapshot and
accepted; with the base writes it leaves. -/
inductive CostUse
  | processed (tx : Tx) (current : BlockState) (writes : PyDict String Value)
  | accepted (tx : Tx) (base current : BlockState) (writes : PyDict String Value)

namespace CostUse

def tx : CostUse → Tx
  | processed tx _ _ => tx
  | accepted tx _ _ _ => tx

def writes : CostUse → PyDict String Value
  | processed _ _ writes => writes
  | accepted _ _ _ writes => writes

/-- The chi cost `process_tx` uses; a worker starts with an empty cache. -/
def used (E : Decimals) : CostUse → Value
  | processed _ current _ => getChiCost E current.cachedChiCost current.read
  | accepted _ base _ _ => getChiCost E none base.read

/-- What a new processor would read in the transaction's place. -/
def fresh (E : Decimals) : CostUse → Value
  | processed _ current _ => getChiCost E none current.read
  | accepted _ _ current _ => getChiCost E none current.read

end CostUse

/-- The base writes of a response; a transaction without a result has none. -/
def appliedWrites (response : Option (TxOutcome × List (String × Value))) : PyDict String Value :=
  (response.map fun p => p.1.baseWrites).getD .empty

section Run

variable (E : Decimals) (R : Runtime)

/-- The transactions of a block from a snapshot and a state: processed one after another, the system transactions at
its end among them, or accepted from the snapshot of the last wave. -/
inductive BlockCosts : BlockState → BlockState → List CostUse → BlockState → Prop
  | done (base S : BlockState) : BlockCosts base S [] S
  | wave {base S final : BlockState} {uses : List CostUse} (hrest : BlockCosts S S uses final) :
      BlockCosts base S uses final
  | processed {base S final : BlockState} {uses : List CostUse} (policy : TxFeePolicy) (rewardsHandler : Bool) (tx : Tx)
      (hrest : BlockCosts base (processTx E R policy rewardsHandler S tx).2 uses final) :
      BlockCosts base S
        (.processed tx S (appliedWrites (processTx E R policy rewardsHandler S tx).1) :: uses) final
  | accepted {base S final : BlockState} {uses : List CostUse} {policy : TxFeePolicy} {rewardsHandler : Bool} {tx : Tx}
      {outcome : TxOutcome} {writes : List (String × Value)}
      (hspeculated : speculativeProcessTx E R policy rewardsHandler base tx = .ok outcome)
      (hwrites : (materializeWrites E outcome).run S.read = .ok writes)
      (hrest : BlockCosts base (applySpeculativeOutput S outcome writes) uses final) :
      BlockCosts base S (.accepted tx base S outcome.baseWrites :: uses) final

/-- A value that the cache keeps and a fresh read replaces by one. -/
def Misread (v : Value) : Prop := v ≠ .none ∧ E.builtins.truthy v = false

/-- Where a transaction is processed, the last value an earlier one wrote to the chi cost is true or `None`; where a
speculation is accepted, the chi cost is the one of its snapshot. -/
def CostUse.Kept (written : Option Value) : CostUse → Prop
  | .processed .. => ∀ v, written = some v → ¬ Misread E v
  | .accepted _ base current _ => getChiCost E none base.read = getChiCost E none current.read

/-- Every transaction finds the chi cost kept; `written` is what the block has written to it so far. -/
def CostsKept : Option Value → List CostUse → Prop
  | _, [] => True
  | written, u :: rest => u.Kept E written ∧ CostsKept ((u.writes.get? chiCostKey).or written) rest

/-- The cache is empty or fresh, unless the last write is one it keeps as it is. -/
structure CacheInv (S : BlockState) (written : Option Value) : Prop where
  read : ∀ v, written = some v → S.read chiCostKey = v
  misread : ∀ v, written = some v → Misread E v → S.cachedChiCost = some v
  fresh : (∀ v, written = some v → ¬ Misread E v) →
    S.cachedChiCost = none ∨ S.cachedChiCost = some (getChiCost E none S.read)

end Run

section Coherence

variable {E : Decimals} {R : Runtime} {policy : TxFeePolicy} {rewardsHandler : Bool}

/-! ### What a transaction leaves under the key -/

theorem addRewards_get? (deltas : List (String × ContractingDecimal)) {s : String → Value}
    {writes writes' : PyDict String Value} (h : (addRewards E deltas writes).run s = .ok writes') {k : String}
    (hk : k ∉ deltas.map Prod.fst) : writes'.get? k = writes.get? k := by
  induction deltas generalizing writes with
  | nil =>
    cases h
    rfl
  | cons p rest ih =>
    obtain ⟨key, delta⟩ := p
    rw [List.map_cons, List.mem_cons, not_or] at hk
    simp only [addRewards, ReadM.run_bind, bind_eq_ok] at h
    obtain ⟨current, -, value, -, h⟩ := h
    rw [ih h hk.2, PyDict.get?_set, if_neg hk.1]

/-- Setting the sorted items of a dict. -/
theorem get?_update_sorted (d e : PyDict String Value) (k : String) :
    (d.update (e.items.foldr (fun p l => insertEntry p.1 p.2 l) [])).get? k = (e.get? k).or (d.get? k) := by
  rw [PyDict.get?_update]
  congr 1
  cases hlookup : (e.items.foldr (fun p l => insertEntry p.1 p.2 l) []).reverse.lookup k with
  | some v =>
    have hmem := PyDict.mem_of_lookup_reverse hlookup
    rw [mem_sortEntries] at hmem
    exact (PyDict.mem_items_iff.1 hmem).symm
  | none =>
    rw [List.lookup_eq_none_iff] at hlookup
    refine (PyDict.get?_eq_none_iff.2 fun hk => ?_).symm
    obtain ⟨p, hp, rfl⟩ := List.mem_map.1 hk
    have hmem : p ∈ (e.items.foldr (fun p l => insertEntry p.1 p.2 l) []).reverse := by
      rw [List.mem_reverse, mem_sortEntries]
      exact hp
    simpa using hlookup p hmem

/-- The writes of a transaction leave its own write of the chi cost: no reward goes there. -/
theorem read_chiCost_setWrites {S : BlockState} {tx : Tx} {cost : Value} {s s' : String → Value} {outcome : TxOutcome}
    {writes : List (String × Value)} (hrun : runTx E R policy rewardsHandler tx cost s = .ok outcome)
    (hwrites : (materializeWrites E outcome).run s' = .ok writes) :
    (S.setWrites writes).read chiCostKey = (outcome.baseWrites.get? chiCostKey).getD (S.read chiCostKey) := by
  simp only [materializeWrites, ReadM.run_bind, ReadM.run_pure, bind_eq_ok] at hwrites
  obtain ⟨merged, hmerged, hwrites⟩ := hwrites
  cases hwrites
  have hget := addRewards_get? _ hmerged (chiCostKey_notMem_deltas hrun)
  unfold BlockState.setWrites BlockState.read
  dsimp only
  rw [get?_update_sorted, hget]
  cases outcome.baseWrites.get? chiCostKey <;> rfl

/-! ### The invariant -/

theorem CacheInv.start {S : BlockState} (h : S.cachedChiCost = none) : CacheInv E S none where
  read _ hv := nomatch hv
  misread _ hv := nomatch hv
  fresh _ := .inl h

theorem getChiCost_truthy {s : String → Value} (h : E.builtins.truthy (s chiCostKey) = true) :
    getChiCost E none s = s chiCostKey := if_pos h

theorem getChiCost_congr {s s' : String → Value} (h : s' chiCostKey = s chiCostKey) :
    getChiCost E none s' = getChiCost E none s := by
  unfold getChiCost
  dsimp only
  rw [h]

/-- Every path fills the cache so: from the cost before it, by the base writes that reach the driver. -/
theorem CacheInv.step {S S' : BlockState} {written : Option Value} {cached : Option Value}
    {writes : PyDict String Value} (h : CacheInv E S written)
    (hcached : cached = S.cachedChiCost ∨ cached = some (getChiCost E S.cachedChiCost S.read))
    (hcache : S'.cachedChiCost = updateChiCostCache cached writes)
    (hread : S'.read chiCostKey = (writes.get? chiCostKey).getD (S.read chiCostKey)) :
    CacheInv E S' ((writes.get? chiCostKey).or written) := by
  cases hget : writes.get? chiCostKey with
  | none =>
    rw [updateChiCostCache_of_absent hget] at hcache
    rw [hget, Option.getD_none] at hread
    rw [Option.none_or]
    refine ⟨fun v hv => hread.trans (h.read v hv), fun v hv hmis => ?_, fun hkept => ?_⟩
    · have hS := h.misread v hv hmis
      rw [hS] at hcached
      rw [hcache]
      rcases hcached with rfl | rfl <;> rfl
    · rw [getChiCost_congr hread, hcache]
      rcases h.fresh hkept with hS | hS <;> rw [hS] at hcached <;> rcases hcached with rfl | rfl
      · exact .inl rfl
      · exact .inr rfl
      · exact .inr rfl
      · exact .inr rfl
  | some v =>
    rw [hget, Option.getD_some] at hread
    rw [Option.some_or]
    have hfilled : v ≠ .none → S'.cachedChiCost = some v := fun hv => by
      rw [hcache, updateChiCostCache, hget]
      cases v <;> first | rfl | exact absurd rfl hv
    refine ⟨fun w hw => hread.trans (Option.some.inj hw), fun w hw hmis => ?_, fun hkept => ?_⟩
    · cases hw
      exact hfilled hmis.1
    · by_cases hv : v = .none
      · subst hv
        left
        rw [hcache, updateChiCostCache, hget]
      · right
        have htrue : E.builtins.truthy v = true := by
          by_contra hfalse
          exact hkept v rfl ⟨hv, Bool.eq_false_iff.2 hfalse⟩
        rw [hfilled hv, getChiCost_truthy (by rw [hread]; exact htrue), hread]

theorem CacheInv.processTx {S : BlockState} {written : Option Value} (h : CacheInv E S written) (tx : Tx) :
    CacheInv E (XianAbci.processTx E R policy rewardsHandler S tx).2
      (((appliedWrites (XianAbci.processTx E R policy rewardsHandler S tx).1).get? chiCostKey).or written) := by
  unfold XianAbci.processTx
  dsimp only
  cases hp : processedTx E R policy rewardsHandler tx (getChiCost E S.cachedChiCost S.read) S.read with
  | error e => exact h.step (.inr rfl) rfl rfl
  | ok p =>
    obtain ⟨outcome, writes⟩ := p
    simp only [processedTx, bind_eq_ok] at hp
    obtain ⟨outcome', hrun, writes', hwrites, hp⟩ := hp
    cases hp
    exact h.step (.inr rfl) rfl (read_chiCost_setWrites hrun hwrites)

theorem runTx_of_speculated {base : BlockState} {tx : Tx} {outcome : TxOutcome}
    (h : speculativeProcessTx E R policy rewardsHandler base tx = .ok outcome) :
    runTx E R policy rewardsHandler tx (getChiCost E none base.read) base.read = .ok outcome := by
  unfold speculativeProcessTx at h
  cases hp : processedTx E R policy rewardsHandler tx (getChiCost E none base.read) base.read with
  | error e =>
    rw [hp] at h
    cases h
  | ok p =>
    rw [hp] at h
    cases h
    simp only [processedTx, bind_eq_ok] at hp
    obtain ⟨outcome, hrun, writes, -, hp⟩ := hp
    cases hp
    exact hrun

theorem CacheInv.accept {base S : BlockState} {written : Option Value} (h : CacheInv E S written) {tx : Tx}
    {outcome : TxOutcome} {writes : List (String × Value)}
    (hspeculated : speculativeProcessTx E R policy rewardsHandler base tx = .ok outcome)
    (hwrites : (materializeWrites E outcome).run S.read = .ok writes) :
    CacheInv E (applySpeculativeOutput S outcome writes) ((outcome.baseWrites.get? chiCostKey).or written) :=
  h.step (.inl rfl) rfl (read_chiCost_setWrites (runTx_of_speculated hspeculated) hwrites)

/-- A processed transaction is charged at the current cost unless the cache kept a false value. -/
theorem CacheInv.used_eq_fresh_iff {S : BlockState} {written : Option Value} (h : CacheInv E S written) :
    getChiCost E S.cachedChiCost S.read = getChiCost E none S.read ↔ ∀ v, written = some v → ¬ Misread E v := by
  constructor
  · intro heq v hv hmis
    rw [h.misread v hv hmis] at heq
    have hone : getChiCost E none S.read = .int 1 := by
      unfold getChiCost
      dsimp only
      rw [h.read v hv, hmis.2]
      rfl
    have hfalse := hmis.2
    rw [show v = .int 1 from heq.trans hone, E.builtins.truthy_int] at hfalse
    cases hfalse
  · intro hkept
    rcases h.fresh hkept with hS | hS <;> rw [hS]
    rfl

theorem BlockCosts.fresh_iff {base S final : BlockState} {uses : List CostUse} {written : Option Value}
    (hrun : BlockCosts E R base S uses final) (h : CacheInv E S written) :
    (∀ u ∈ uses, u.used E = u.fresh E) ↔ CostsKept E written uses := by
  induction hrun generalizing written with
  | done base S => exact ⟨fun _ => trivial, fun _ u hu => nomatch hu⟩
  | wave hrest ih => exact ih h
  | processed policy rewardsHandler tx hrest ih =>
    rw [List.forall_mem_cons, ih (h.processTx tx)]
    exact and_congr_left fun _ => h.used_eq_fresh_iff
  | accepted hspeculated hwrites hrest ih =>
    rw [List.forall_mem_cons, ih (h.accept hspeculated hwrites)]
    exact Iff.rfl

/-- In a block that starts with an empty cache, every transaction is processed at the chi cost a new processor would
read in its place, exactly when none follows a write of a false value other than `None` and no accepted
speculation comes from a snapshot with another chi cost. -/
theorem chi_costs_fresh_iff {S final : BlockState} {uses : List CostUse} (hrun : BlockCosts E R S S uses final)
    (hempty : S.cachedChiCost = none) : (∀ u ∈ uses, u.used E = u.fresh E) ↔ CostsKept E none uses :=
  hrun.fresh_iff (.start hempty)

/-- The parallel execution of a block is such a run over its transactions. -/
theorem ParallelRun.blockCosts {c c' : ParallelState} {txs : List Tx}
    (hrun : ParallelRun E R policy rewardsHandler c txs c') :
    ∃ uses, BlockCosts E R c.base c.current uses c'.current ∧ uses.map CostUse.tx = txs := by
  induction hrun with
  | done c => exact ⟨[], .done _ _, rfl⟩
  | wave hrest ih =>
    obtain ⟨uses, hcosts, htxs⟩ := ih
    exact ⟨uses, .wave hcosts, htxs⟩
  | step hstep hrest ih =>
    obtain ⟨uses, hcosts, htxs⟩ := ih
    cases hstep with
    | serial => exact ⟨_, .processed policy rewardsHandler _ hcosts, congrArg (_ :: ·) htxs⟩
    | accept outcome writes hspeculated hclear hwrites =>
      exact ⟨_, .accepted hspeculated hwrites hcosts, congrArg (_ :: ·) htxs⟩

end Coherence

/-! ### A vote on the chi cost -/

/-- A call of `chi_cost` sets the cost to its argument; any other writes nothing. A call uses ten chi. -/
def costRuntime : Runtime where
  prepareVmContract _ := return ()
  convertDict v := v
  executeVmContract call _ :=
    let writes := if call.contract = "chi_cost" then .ofList [(chiCostKey, call.kwargs)] else .empty
    .ok ⟨0, .none, writes, [], 10, [], [], []⟩

def setCost (v : Value) : Tx := ⟨"alice", "chi_cost", "set_value", v, .int 0, 20, "", .none, 0⟩

/-- The state after the cost is set to a value. -/
def afterVote (v : Value) : BlockState := (processTx exactDecimals costRuntime .paidMetered true twelveEach (setCost v)).2

def bobsCall : Tx := callOf "bob" "con_b"

/-- A vote on the cost and a call after it. -/
def voteAndCall (v : Value) : List CostUse :=
  [.processed (setCost v) twelveEach
      (appliedWrites (processTx exactDecimals costRuntime .paidMetered true twelveEach (setCost v)).1),
    .processed bobsCall (afterVote v)
      (appliedWrites (processTx exactDecimals costRuntime .paidMetered true (afterVote v) bobsCall).1)]

theorem blockCosts_voteAndCall (v : Value) : BlockCosts exactDecimals costRuntime twelveEach twelveEach (voteAndCall v)
    (processTx exactDecimals costRuntime .paidMetered true (afterVote v) bobsCall).2 :=
  .processed _ _ (setCost v) (.processed _ _ bobsCall (.done _ _))

/-- After a vote for fifty, the next call is processed at fifty. -/
theorem voteForFifty_fresh : (∀ u ∈ voteAndCall (.int 50), u.used exactDecimals = u.fresh exactDecimals) ∧
    (voteAndCall (.int 50)).map (CostUse.used exactDecimals) = [.int 1, .int 50] := by
  refine ⟨(chi_costs_fresh_iff (blockCosts_voteAndCall (.int 50)) rfl).2 ⟨?_, ?_, trivial⟩, by decide +kernel⟩
  · intro v hv
    cases hv
  · have hwritten : (appliedWrites (processTx exactDecimals costRuntime .paidMetered true twelveEach
        (setCost (.int 50))).1).get? chiCostKey = some (.int 50) := by decide +kernel
    intro v hv hmis
    cases hwritten.symm.trans ((Option.or_none ..).symm.trans hv)
    cases hmis.2

/-- After a vote for zero, the next call is processed at zero, where a new processor reads one, and has no result: its
fee cannot be computed. A speculation from before a vote for fifty is accepted after it at the old cost. -/
theorem voteForZero_stale :
    (∃ uses final, BlockCosts exactDecimals costRuntime twelveEach twelveEach uses final ∧
      twelveEach.cachedChiCost = none ∧ (∃ u ∈ uses, u.used exactDecimals ≠ u.fresh exactDecimals) ∧
      (processTx exactDecimals costRuntime .paidMetered true (afterVote (.int 0)) bobsCall).1 = none) ∧
    ∃ uses final, BlockCosts exactDecimals costRuntime twelveEach twelveEach uses final ∧
      ∃ u ∈ uses, u.used exactDecimals = .int 1 ∧ u.fresh exactDecimals = .int 50 := by
  constructor
  · refine ⟨_, _, blockCosts_voteAndCall (.int 0), rfl, ⟨_, List.mem_cons_of_mem _ (List.mem_cons_self ..), ?_⟩, ?_⟩
    · decide +kernel
    · exact Option.isNone_iff_eq_none.1 (by decide +kernel)
  · obtain ⟨outcome, hspeculated⟩ := exists_ok_of_isOk
      (x := speculativeProcessTx exactDecimals costRuntime .paidMetered true twelveEach bobsCall) (by decide +kernel)
    have hwritten : ((speculativeProcessTx exactDecimals costRuntime .paidMetered true twelveEach bobsCall >>= fun outcome =>
        (materializeWrites exactDecimals outcome).run (afterVote (.int 50)).read)).isOk := by decide +kernel
    rw [hspeculated] at hwritten
    obtain ⟨writes, hwrites⟩ := exists_ok_of_isOk hwritten
    refine ⟨_, _, .processed .paidMetered true (setCost (.int 50)) (.accepted hspeculated hwrites (.done _ _)), _,
      List.mem_cons_of_mem _ (List.mem_cons_self ..), ?_, ?_⟩
    · show getChiCost exactDecimals none twelveEach.read = .int 1
      decide +kernel
    · show getChiCost exactDecimals none (afterVote (.int 50)).read = .int 50
      decide +kernel

end XianAbci
