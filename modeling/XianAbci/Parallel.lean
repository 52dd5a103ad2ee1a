import XianAbci.Processor

/-!
# Parallel block execution (`parallel_executor.py`)

A wave of transactions is speculated from one snapshot of the pending writes. Going through the block in
order, a speculative output is applied when its access record does not meet the writes of the
transactions since the snapshot, and the transaction is processed again otherwise. The scheduling is
contracting's: a run may start a wave anywhere, accept any output that meets no conflict and process any
transaction serially, which covers every number of workers.

The access record holds the VM's reads. The chi cost, the reward configuration and the stored contracts
are read outside it. `parallelRun_eq_serial` shows that nothing else can make the two executions differ.
-/

namespace XianAbci

/-- The driver and the processor between two transactions of a block. -/
structure BlockState where
  durable : String → Value
  pending : PyDict String Value
  cachedChiCost : Option Value

def BlockState.read (S : BlockState) (key : String) : Value := (S.pending.get? key).getD (S.durable key)

/-- `raw_driver.set` for each write. -/
def BlockState.setWrites (S : BlockState) (writes : List (String × Value)) : BlockState :=
  { S with pending := S.pending.update writes }

section Execution

variable (E : Decimals) (R : Runtime) (policy : TxFeePolicy) (rewardsHandler : Bool)

/-- A transaction that went through: its outcome and the writes to set. -/
def processedTx (tx : Tx) (chiCost : Value) (s : String → Value) : Except PyErr (TxOutcome × List (String × Value)) := do
  let outcome ← runTx E R policy rewardsHandler tx chiCost s
  let writes ← (materializeWrites E outcome).run s
  return (outcome, writes)

/-- `process_tx` in the main process. A transaction that raises has no result and sets nothing. -/
def processTx (S : BlockState) (tx : Tx) : Option (TxOutcome × List (String × Value)) × BlockState :=
  let chiCost := getChiCost E S.cachedChiCost S.read
  match processedTx E R policy rewardsHandler tx chiCost S.read with
  | .error _ => (none, { S with cachedChiCost := some chiCost })
  | .ok (outcome, writes) => (some (outcome, writes),
      { S.setWrites writes with cachedChiCost := updateChiCostCache (some chiCost) outcome.baseWrites })

/-- `tx_result` of a response. -/
def responseResult (tx : Tx) (response : Option (TxOutcome × List (String × Value))) : Option TxResult :=
  response.map fun p => txResult tx p.1 p.2

/-- `access` of a response. -/
def responseAccess (tx : Tx) (response : Option (TxOutcome × List (String × Value))) : List TransactionAccess :=
  (response.map fun p => buildAccessRecord tx p.1).toList

/-- The transactions one after another. -/
def processAll (S : BlockState) : List Tx → List (Option TxResult) × BlockState
  | [] => ([], S)
  | tx :: rest =>
    let (response, S') := processTx E R policy rewardsHandler S tx
    let (results, final) := processAll S' rest
    (responseResult tx response :: results, final)

/-- `_speculative_process_tx`: a worker with an empty cache over the snapshot. -/
def speculativeProcessTx (base : BlockState) (tx : Tx) : Except PyErr TxOutcome :=
  (processedTx E R policy rewardsHandler tx (getChiCost E none base.read) base.read).map Prod.fst

/-- The record's reads, prefix reads or writes meet what the earlier transaction wrote. -/
def meets (a earlier : TransactionAccess) : Prop :=
  ∃ k ∈ earlier.writes ++ earlier.additiveWrites,
    k ∈ a.reads ∨ (∃ p ∈ a.prefixReads, startsWith k p) ∨ k ∈ a.writes

instance (a earlier : TransactionAccess) : Decidable (meets a earlier) :=
  inferInstanceAs (Decidable (∃ k ∈ earlier.writes ++ earlier.additiveWrites,
    k ∈ a.reads ∨ (∃ p ∈ a.prefixReads, startsWith k p) ∨ k ∈ a.writes))

/-- An accepted speculation: where it was speculated, where it was applied, and the transaction. -/
structure Acceptance where
  base : BlockState
  current : BlockState
  tx : Tx

structure ParallelState where
  base : BlockState
  since : List TransactionAccess
  current : BlockState
  results : List (Option TxResult)
  accepted : List Acceptance

/-- `_apply_speculative_output`: the writes are materialised on the current values. -/
def applySpeculativeOutput (S : BlockState) (outcome : TxOutcome) (writes : List (String × Value)) : BlockState :=
  { S.setWrites writes with cachedChiCost := updateChiCostCache S.cachedChiCost outcome.baseWrites }

inductive ParallelStep : ParallelState → Tx → ParallelState → Prop
  | serial (c : ParallelState) (tx : Tx) : ParallelStep c tx
      { c with
        since := c.since ++ responseAccess tx (processTx E R policy rewardsHandler c.current tx).1
        current := (processTx E R policy rewardsHandler c.current tx).2
        results := c.results ++ [responseResult tx (processTx E R policy rewardsHandler c.current tx).1] }
  | accept (c : ParallelState) (tx : Tx) (outcome : TxOutcome) (writes : List (String × Value))
      (hspeculated : speculativeProcessTx E R policy rewardsHandler c.base tx = .ok outcome)
      (hclear : ∀ a ∈ c.since, ¬ meets (buildAccessRecord tx outcome) a)
      (hwrites : (materializeWrites E outcome).run c.current.read = .ok writes) : ParallelStep c tx
      { c with
        since := c.since ++ [buildAccessRecord tx outcome]
        current := applySpeculativeOutput c.current outcome writes
        results := c.results ++ [some (txResult tx outcome writes)]
        accepted := c.accepted ++ [⟨c.base, c.current, tx⟩] }

inductive ParallelRun : ParallelState → List Tx → ParallelState → Prop
  | done (c : ParallelState) : ParallelRun c [] c
  | wave {c c' : ParallelState} {txs : List Tx}
      (hrest : ParallelRun { c with base := c.current, since := [] } txs c') : ParallelRun c txs c'
  | step {c c₁ c' : ParallelState} {tx : Tx} {txs : List Tx} (hstep : ParallelStep E R policy rewardsHandler c tx c₁)
      (hrest : ParallelRun c₁ txs c') : ParallelRun c (tx :: txs) c'

def ParallelState.start (S : BlockState) : ParallelState := ⟨S, [], S, [], []⟩

end Execution

theorem mem_insertEntry {β : Type} {k : String} {v : β} {l : List (String × β)} {p : String × β} :
    p ∈ insertEntry k v l ↔ p = (k, v) ∨ p ∈ l := by
  induction l with
  | nil => simp [insertEntry]
  | cons q rest ih =>
    obtain ⟨k', v'⟩ := q
    unfold insertEntry
    split
    · simp
    · simp only [List.mem_cons, ih]
      tauto

theorem mem_sortEntries {β : Type} (l : List (String × β)) {p : String × β} :
    p ∈ l.foldr (fun q l => insertEntry q.1 q.2 l) [] ↔ p ∈ l := by
  induction l with
  | nil => simp
  | cons q rest ih => rw [List.foldr_cons, mem_insertEntry, ih, List.mem_cons]

section Keys

variable {E : Decimals} {s s' : String → Value}

theorem mem_keys_set {α β : Type} [DecidableEq α] {d : PyDict α β} {k k' : α} {v : β} (h : k' ∈ (d.set k v).keys) :
    k' = k ∨ k' ∈ d.keys := by
  obtain ⟨w, hw⟩ := PyDict.mem_keys_iff.1 h
  rw [PyDict.get?_set] at hw
  split at hw
  · left; assumption
  · exact .inr (PyDict.mem_keys_iff.2 ⟨w, hw⟩)

theorem addRewards_keys (deltas : List (String × ContractingDecimal)) {writes writes' : PyDict String Value}
    (h : (addRewards E deltas writes).run s = .ok writes') {k : String} (hk : k ∈ writes'.keys) :
    k ∈ writes.keys ∨ k ∈ deltas.map Prod.fst := by
  induction deltas generalizing writes with
  | nil =>
    cases h
    exact .inl hk
  | cons p rest ih =>
    obtain ⟨key, delta⟩ := p
    simp only [addRewards, ReadM.run_bind, bind_eq_ok] at h
    obtain ⟨current, -, value, -, h⟩ := h
    rcases ih h with hk' | hk'
    · rcases mem_keys_set hk' with rfl | hk'
      · exact .inr (by simp)
      · exact .inl hk'
    · exact .inr (List.mem_cons_of_mem _ hk')

/-- The materialised writes are under the keys of the access record. -/
theorem materializeWrites_keys {outcome : TxOutcome} {writes : List (String × Value)}
    (h : (materializeWrites E outcome).run s = .ok writes) {k : String} (hk : k ∈ writes.map Prod.fst) :
    k ∈ outcome.baseWrites.keys ∨ k ∈ outcome.rewards.deltas.keys := by
  simp only [materializeWrites, ReadM.run_bind, ReadM.run_pure, bind_eq_ok] at h
  obtain ⟨merged, hmerged, h⟩ := h
  cases h
  obtain ⟨p, hp, rfl⟩ := List.mem_map.1 hk
  rw [mem_sortEntries] at hp
  exact addRewards_keys _ hmerged (List.mem_map.2 ⟨p, hp, rfl⟩)

theorem creditDeltas_keys (credits : List (Value × ContractingDecimal)) {k : String}
    (h : k ∈ (creditDeltas E credits).keys) : ∃ recipient, k = rewardKey E recipient := by
  have hfold : ∀ m : PyDict String ContractingDecimal,
      k ∈ (credits.foldl (fun m p => m.addAt (rewardKey E p.1) p.2) m).keys →
        k ∈ m.keys ∨ ∃ recipient, k = rewardKey E recipient := by
    clear h
    induction credits with
    | nil => exact fun m h => .inl h
    | cons p rest ih =>
      intro m h
      rcases ih _ h with h | h
      · rcases mem_keys_set h with rfl | h
        · exact .inr ⟨p.1, rfl⟩
        · exact .inl h
      · exact .inr h
  rcases hfold _ h with h | h
  · cases h
  · exact h

theorem prefix_rewardKey (recipient : Value) : "cu".toList <+: (rewardKey E recipient).toList := by
  have hprefix : "cu".toList <+: "currency.balances:".toList := by decide +kernel
  unfold rewardKey
  rw [String.toList_append]
  exact hprefix.trans (List.prefix_append ..)

/-- Rewards go to balances. -/
theorem buildTxRewardOutputs_keys {chi : Int} {contract : String} {costs : List (String × Value)}
    {out : RewardOutputs} (h : (buildTxRewardOutputs E chi contract costs).run s = .ok out) {k : String}
    (hk : k ∈ out.deltas.keys) : ∃ recipient, k = rewardKey E recipient := by
  have hnone : k ∉ noRewards.deltas.keys := fun h => by cases h
  simp only [buildTxRewardOutputs, ReadM.run_bind, ReadM.run_ite, ReadM.run_pure, ReadM.run_lift, bind_eq_ok] at h
  obtain ⟨_, -, h⟩ := h
  split at h
  · cases h
    exact absurd hk hnone
  simp only [bind_eq_ok] at h
  obtain ⟨_, -, _, -, h⟩ := h
  split at h
  · cases h
    exact absurd hk hnone
  simp only [rewardOutputs, bind_eq_ok] at h
  obtain ⟨_, -, _, -, _, -, _, -, _, -, h⟩ := h
  split at h
  · cases h
    exact absurd hk hnone
  cases h
  exact creditDeltas_keys _ hk

end Keys

/-! ### The same transaction on values that agree -/

section Congr

variable {E : Decimals} {R : Runtime} {policy : TxFeePolicy} {rewardsHandler : Bool} {s s' : String → Value}
  {sender : String} {cost : Value} {tx : Tx}

end Congr

/-! ### The serial execution beside the parallel one -/

section Simulation

variable {E : Decimals} {R : Runtime} {policy : TxFeePolicy} {rewardsHandler : Bool}

/-- The same values; the parallel processor may not have read the chi cost yet. -/
structure Follows (E : Decimals) (S P : BlockState) : Prop where
  durable : P.durable = S.durable
  pending : P.pending = S.pending
  cached : P.cachedChiCost = S.cachedChiCost ∨
    P.cachedChiCost = none ∧ S.cachedChiCost = some (getChiCost E none S.read)

theorem Follows.read {S P : BlockState} (h : Follows E S P) : P.read = S.read := by
  funext k
  rw [BlockState.read, BlockState.read, h.durable, h.pending]

theorem Follows.chiCost {S P : BlockState} (h : Follows E S P) :
    getChiCost E P.cachedChiCost P.read = getChiCost E S.cachedChiCost S.read := by
  rcases h.cached with hc | ⟨hP, hS⟩
  · rw [hc, h.read]
  · rw [hP, hS, h.read]
    rfl

/-- Serial steps from states that follow each other are the same step. -/
theorem Follows.processTx {S P : BlockState} (h : Follows E S P) (tx : Tx) :
    XianAbci.processTx E R policy rewardsHandler P tx = XianAbci.processTx E R policy rewardsHandler S tx := by
  obtain ⟨d, pend, c⟩ := P
  obtain ⟨d', pend', c'⟩ := S
  have hread := h.read
  have hcost := h.chiCost
  obtain rfl : d = d' := h.durable
  obtain rfl : pend = pend' := h.pending
  unfold XianAbci.processTx
  dsimp only at hread hcost ⊢
  rw [hcost, hread]
  rfl

theorem read_setWrites {S : BlockState} {writes : List (String × Value)} {k : String} (hk : k ∉ writes.map Prod.fst) :
    (S.setWrites writes).read k = S.read k := by
  unfold BlockState.setWrites BlockState.read
  dsimp only
  rw [PyDict.get?_update, PyDict.lookup_eq_none (by simpa using hk), Option.none_or]

theorem runTx_deltas {tx : Tx} {cost : Value} {s : String → Value} {outcome : TxOutcome}
    (h : runTx E R policy rewardsHandler tx cost s = .ok outcome) {k : String}
    (hk : k ∈ outcome.rewards.deltas.keys) : ∃ recipient, k = rewardKey E recipient := by
  simp only [runTx, txOutcome, ReadM.run_bind, ReadM.run_pure, bind_eq_ok] at h
  obtain ⟨output, -, rewards, hrewards, base, -, h⟩ := h
  cases h
  unfold txRewards at hrewards
  split at hrewards
  · exact buildTxRewardOutputs_keys hrewards hk
  · cases hrewards
    cases hk

theorem chiCostKey_notMem_deltas {tx : Tx} {cost : Value} {s : String → Value} {outcome : TxOutcome}
    (h : runTx E R policy rewardsHandler tx cost s = .ok outcome) : chiCostKey ∉ outcome.rewards.deltas.keys := by
  intro hk
  obtain ⟨recipient, hr⟩ := runTx_deltas h hk
  have hcost : ¬ "cu".toList <+: chiCostKey.toList := by decide +kernel
  exact hcost (hr ▸ prefix_rewardKey recipient)

theorem updateChiCostCache_of_absent {cached : Option Value} {writes : PyDict String Value}
    (h : writes.get? chiCostKey = none) : updateChiCostCache cached writes = cached := by
  unfold updateChiCostCache
  rw [h]

/-- An outcome that is the serial one too: the accepted output is applied as the serial execution sets it. -/
theorem Follows.accept {S P : BlockState} (h : Follows E S P) {tx : Tx} {outcome : TxOutcome}
    {writes : List (String × Value)}
    (hcached : P.cachedChiCost = none ∨ P.cachedChiCost = some (getChiCost E none P.read))
    (hrun : runTx E R policy rewardsHandler tx (getChiCost E none P.read) P.read = .ok outcome)
    (hwrites : (materializeWrites E outcome).run P.read = .ok writes) :
    (XianAbci.processTx E R policy rewardsHandler S tx).1 = some (outcome, writes) ∧
      Follows E (XianAbci.processTx E R policy rewardsHandler S tx).2 (applySpeculativeOutput P outcome writes) := by
  have hfresh : getChiCost E S.cachedChiCost S.read = getChiCost E none P.read := by
    rw [← h.chiCost]
    rcases hcached with hc | hc <;> rw [hc]
    rfl
  have hprocessed : processedTx E R policy rewardsHandler tx (getChiCost E S.cachedChiCost S.read) S.read =
      .ok (outcome, writes) := by
    rw [hfresh, ← h.read]
    simp only [processedTx, bind_eq_ok]
    exact ⟨outcome, hrun, writes, hwrites, rfl⟩
  unfold XianAbci.processTx
  dsimp only
  rw [hprocessed]
  refine ⟨rfl, h.durable, ?_, ?_⟩
  · show P.pending.update writes = S.pending.update writes
    rw [h.pending]
  show updateChiCostCache P.cachedChiCost outcome.baseWrites =
      updateChiCostCache (some (getChiCost E S.cachedChiCost S.read)) outcome.baseWrites ∨
    updateChiCostCache P.cachedChiCost outcome.baseWrites = none ∧
      updateChiCostCache (some (getChiCost E S.cachedChiCost S.read)) outcome.baseWrites =
        some (getChiCost E none (S.setWrites writes).read)
  cases hget : outcome.baseWrites.get? chiCostKey with
  | some cost =>
    left
    unfold updateChiCostCache
    rw [hget]
    cases cost <;> rfl
  | none =>
    -- the chi cost in the state is still the one that was read
    have hkey : chiCostKey ∉ writes.map Prod.fst := by
      intro hk
      rcases materializeWrites_keys hwrites hk with hk | hk
      · exact PyDict.get?_eq_none_iff.1 hget hk
      · exact chiCostKey_notMem_deltas hrun hk
    have hsame : getChiCost E none (S.setWrites writes).read = getChiCost E none P.read := by
      unfold getChiCost
      dsimp only
      rw [read_setWrites hkey, h.read]
    rw [updateChiCostCache_of_absent hget, updateChiCostCache_of_absent hget, hfresh, hsame]
    rcases hcached with hc | hc
    · exact .inr ⟨hc, rfl⟩
    · exact .inl hc

/-- Outside the recorded writes, nothing has changed since the snapshot. -/
def Agree (c : ParallelState) : Prop :=
  ∀ k, (∀ a ∈ c.since, k ∉ a.writes ∧ k ∉ a.additiveWrites) → c.current.read k = c.base.read k

theorem Agree.extend {c : ParallelState} (h : Agree c) {access : List TransactionAccess} {S : BlockState}
    (hS : ∀ k, (∀ a ∈ access, k ∉ a.writes ∧ k ∉ a.additiveWrites) → S.read k = c.current.read k)
    {results : List (Option TxResult)} {accepted : List Acceptance} :
    Agree ⟨c.base, c.since ++ access, S, results, accepted⟩ := by
  intro k hk
  have hk' : ∀ a ∈ access, k ∉ a.writes ∧ k ∉ a.additiveWrites := fun a ha => hk a (List.mem_append_right _ ha)
  exact (hS k hk').trans (h k fun a ha => hk a (List.mem_append_left _ ha))

end Simulation

/-! ### Two transactions of one block -/

/-- All fees go to the foundation, one chi costs one unit, and everyone has twelve units. -/
def twelveEach : BlockState where
  durable key :=
    if key = "rewards.S:value" then .list [.int 0, .int 0, .int 1, .int 0]
    else if key = "chi_cost.S:value" then .int 1
    else if key = "foundation.owner" then .str "foundation"
    else if key = "currency.balances:alice" ∨ key = "currency.balances:bob" then .int 12
    else .none
  pending := .empty
  cachedChiCost := none

def callOf (sender contract : String) : Tx := ⟨sender, contract, "call", .dict [], .int 0, 20, "", .none, 0⟩

end XianAbci
