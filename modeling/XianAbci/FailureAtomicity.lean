import XianAbci.Fees
import XianAbci.Validators
import XianAbci.VmBoundary

/-!
# What a failed transaction leaves (`processor.py`, `methods/finalize_block.py`)

A transaction fails with a nonzero status or without a result. Its fee comes from the state before it, and nothing
else of it is set. Two things slip through. A failing output is not validated, so the events that come with it stay
in the result, the receipt and the index; only the events of the response leave them out. And an exception that
neither the VM call nor the validation handles skips the line that puts the driver's state back, so what the VM left
of the pending writes stays. `failed_tx_atomic_iff` shows that there is nothing else.
-/

namespace XianAbci

/-! ### The events of a response -/

structure EventAttribute where
  key : String
  value : String
  index : Bool

structure AbciEvent where
  type : String
  attributes : List EventAttribute

mutual
/-- `stringify_decimals`; a tuple or another object is left as it is. -/
def stringifyDecimals : Value → Value
  | .decimal d => .str (decimalToPlainString d.units 30)
  | .pyDecimal units scale => .str (decimalToPlainString units scale)
  | .dict entries => .dict (stringifyEntries entries)
  | .list items => .list (stringifyItems items)
  | .datetime t => .str t.str
  | .bytes b => .str (bytesText b)
  | v => v

def stringifyItems : List Value → List Value
  | [] => []
  | v :: rest => stringifyDecimals v :: stringifyItems rest

def stringifyEntries : List (String × Value) → List (String × Value)
  | [] => []
  | (k, v) :: rest => (k, stringifyDecimals v) :: stringifyEntries rest
end

section Events

variable (B : Builtins)

/-- `state["key"].translate(STATE_CHANGE_TRANSLATION_TABLE)`. -/
def stateChangeKey (key : String) : String :=
  String.ofList (key.toList.flatMap fun c => if c = '.' then ['_'] else if c = ':' then ['_', '_'] else [c])

def stateChangeEvent (result : TxResult) : List AbciEvent :=
  if result.state.isEmpty then []
  else [⟨"StateChange", result.state.map fun p => ⟨stateChangeKey p.1, B.format p.2, false⟩⟩]

/-- `str(contract_event.get(name, ""))` as an indexed attribute. -/
def nameAttribute (event : Value) (name : String) : Except PyErr EventAttribute := do
  return ⟨name, B.format (← event.get name (.str "")), true⟩

/-- The attributes of a dict in the event. -/
def dataAttributes (event : Value) (name : String) (index : Bool) : Except PyErr (List EventAttribute) := do
  let entries ← (← event.get name (.dict [])).items
  return entries.map fun p => ⟨p.1, B.format (stringifyDecimals p.2), index⟩

def contractEvent (event : Value) : Except PyErr AbciEvent := do
  let type := B.format (← event.get "event" (.str "ContractEvent"))
  let contract ← nameAttribute B event "contract"
  let signer ← nameAttribute B event "signer"
  let caller ← nameAttribute B event "caller"
  let indexed ← dataAttributes B event "data_indexed" true
  let data ← dataAttributes B event "data" false
  return ⟨type, [contract, signer, caller] ++ indexed ++ data⟩

def buildTxEvents (result : TxResult) : Except PyErr (List AbciEvent) :=
  if result.status ≠ 0 then .ok []
  else do return stateChangeEvent B result ++ (← result.events.mapM (contractEvent B))

end Events

/-! ### What is left -/

section Failure

variable (E : Decimals) (policy : TxFeePolicy)

/-- What a failed transaction is charged. -/
def failureFee (chiUsed : Int) (chiCost : Value) : Except PyErr ContractingDecimal :=
  if policy.chargeFees ∧ 0 < chiUsed then fee E chiUsed chiCost else .ok 0

/-- A failed transaction with a result: the other pending writes are kept, the sender pays at most the fee, and no
event is published. -/
structure FailureEffects (S S' : BlockState) (tx : Tx) (outcome : TxOutcome) (writes : List (String × Value)) : Prop where
  others : ∀ key ≠ balancesKey tx.sender, S'.pending.get? key = S.pending.get? key
  uncharged : policy.chargeFees = false → S'.pending = S.pending
  balance : ∀ balance, coerceBalanceValue E (S.read (balancesKey tx.sender)) = .ok balance → 0 ≤ balance.units →
    ∃ paid after, failureFee E policy outcome.output.chiUsed (getChiCost E S.cachedChiCost S.read) = .ok paid ∧
      coerceBalanceValue E (S'.read (balancesKey tx.sender)) = .ok after ∧ balance.units - paid.units ≤ after.units ∧
      0 ≤ after.units ∧ (0 ≤ paid.units → after.units ≤ balance.units)
  response : buildTxEvents E.builtins (txResult tx outcome writes) = .ok []
  receipt : (txResult tx outcome writes).events = []

/-- What `process_tx` makes of a failed transaction. -/
structure AtomicFailure (S : BlockState) (tx : Tx) (processed : Option (TxOutcome × List (String × Value)) × BlockState) :
    Prop where
  without : processed.1 = none → processed.2.pending = S.pending
  failed : ∀ outcome writes, processed.1 = some (outcome, writes) → outcome.output.statusCode ≠ 0 →
    FailureEffects E policy S processed.2 tx outcome writes

variable (V : VmCore)

/-- The VM returns a failing output with events, and the fee of the failure can be taken. -/
def LeaksEvents (S : BlockState) (tx : Tx) : Prop :=
  ∃ run r, vmRun V policy tx S.read = some run ∧ run.returned = .ok (.ok r) ∧ r.statusCode ≠ 0 ∧ r.events ≠ [] ∧
    (policy.chargeFees = true → 0 < r.chiUsed →
      (∃ balance, coerceBalanceValue E (S.read (balancesKey tx.sender)) = .ok balance) ∧
        ∃ paid, fee E r.chiUsed (getChiCost E S.cachedChiCost S.read) = .ok paid)

/-- The VM changes the pending writes and returns an output that is not read. -/
def LeavesWrites (S : BlockState) (tx : Tx) : Prop :=
  ∃ run, vmRun V policy tx S.read = some run ∧ run.Unread V ∧ run.leaves S.pending ≠ S.pending

end Failure

section Atomicity

variable {E : Decimals} {policy : TxFeePolicy} {rewardsHandler : Bool} {R : Runtime} {V : VmCore} {S : BlockState} {tx : Tx}

/-! ### A failing output -/

/-- What is set for a failed transaction. -/
theorem determineWrites_failed {sender : String} {cost : Value} {output : VmOutput} {s : String → Value}
    {writes : PyDict String Value} (hfailed : output.statusCode ≠ 0)
    (h : (determineWritesFromOutput E policy sender cost output).run s = .ok writes) :
    writes = .empty ∧ ¬ (policy.chargeFees = true ∧ 0 < output.chiUsed) ∨
      (policy.chargeFees = true ∧ 0 < output.chiUsed) ∧ ∃ balance paid,
        coerceBalanceValue E (s (balancesKey sender)) = .ok balance ∧ fee E output.chiUsed cost = .ok paid ∧
        writes = .ofList [(balancesKey sender, atLeastZero ⟨balance.units - paid.units⟩)] := by
  unfold determineWritesFromOutput at h
  rw [if_neg hfailed] at h
  split at h
  · rename_i hcharge
    rcases le_or_gt output.chiUsed 0 with hchi | hchi
    · unfold vmMeteringWrites at h
      rw [if_pos hchi] at h
      cases h
      exact .inl ⟨rfl, fun hcharged => absurd hcharged.2 (not_lt.2 hchi)⟩
    · obtain ⟨balance, paid, hbalance, hpaid, rfl⟩ := vmMeteringWrites_run hchi h
      exact .inr ⟨⟨hcharge, hchi⟩, balance, paid, hbalance, hpaid, rfl⟩
  · rename_i hcharge
    cases h
    exact .inl ⟨rfl, fun hcharged => hcharge hcharged.1⟩

theorem determineWrites_ok {sender : String} {cost : Value} {output : VmOutput} {s : String → Value}
    (hfailed : output.statusCode ≠ 0) (htaken : policy.chargeFees = true → 0 < output.chiUsed →
      (∃ balance, coerceBalanceValue E (s (balancesKey sender)) = .ok balance) ∧ ∃ paid, fee E output.chiUsed cost = .ok paid) :
    ∃ writes, (determineWritesFromOutput E policy sender cost output).run s = .ok writes := by
  unfold determineWritesFromOutput
  rw [if_neg hfailed]
  split
  · rename_i hcharge
    unfold vmMeteringWrites
    rcases le_or_gt output.chiUsed 0 with hchi | hchi
    · rw [if_pos hchi]
      exact ⟨_, rfl⟩
    · obtain ⟨⟨balance, hbalance⟩, paid, hpaid⟩ := htaken hcharge hchi
      rw [if_neg (not_le.2 hchi)]
      refine ⟨.ofList [(balancesKey sender, atLeastZero ⟨balance.units - paid.units⟩)], ?_⟩
      simp only [ReadM.run_bind, ReadM.run_lift, ReadM.run_pure, writtenOrRead_run, bind_eq_ok]
      exact ⟨_, rfl, balance, hbalance, paid, hpaid, rfl⟩
  · exact ⟨_, rfl⟩

/-- What a result of `process_tx` comes from. -/
theorem processTx_some {outcome : TxOutcome} {writes : List (String × Value)}
    (h : (processTx E R policy rewardsHandler S tx).1 = some (outcome, writes)) :
    ∃ output, executeTx E R policy tx (getChiCost E S.cachedChiCost S.read) S.read = .ok output ∧
      (txOutcome E policy rewardsHandler tx (getChiCost E S.cachedChiCost S.read) output).run S.read = .ok outcome ∧
      (materializeWrites E outcome).run S.read = .ok writes ∧
      (processTx E R policy rewardsHandler S tx).2.pending = S.pending.update writes ∧
      (processTx E R policy rewardsHandler S tx).2.durable = S.durable := by
  unfold processTx at h ⊢
  dsimp only at h ⊢
  cases hp : processedTx E R policy rewardsHandler tx (getChiCost E S.cachedChiCost S.read) S.read with
  | error e =>
    rw [hp] at h
    cases h
  | ok p =>
    obtain ⟨outcome', writes'⟩ := p
    rw [hp] at h
    cases h
    simp only [processedTx, runTx, bind_eq_ok] at hp
    obtain ⟨_, ⟨output, hexecute, houtcome⟩, _, hwrites, hp⟩ := hp
    cases hp
    exact ⟨output, hexecute, houtcome, hwrites, rfl, rfl⟩

theorem processTx_none (h : (processTx E R policy rewardsHandler S tx).1 = none) :
    (processTx E R policy rewardsHandler S tx).2.pending = S.pending := by
  unfold processTx at h ⊢
  dsimp only at h ⊢
  cases hp : processedTx E R policy rewardsHandler tx (getChiCost E S.cachedChiCost S.read) S.read with
  | error e => rfl
  | ok p =>
    rw [hp] at h
    cases h

/-- A failing output earns no rewards, and only the fee is set. -/
theorem txOutcome_failed {cost : Value} {output : VmOutput} {outcome : TxOutcome} {s : String → Value}
    (hfailed : output.statusCode ≠ 0)
    (h : (txOutcome E policy rewardsHandler tx cost output).run s = .ok outcome) :
    outcome.output = output ∧ outcome.rewards = noRewards ∧
      (determineWritesFromOutput E policy tx.sender cost output).run s = .ok outcome.baseWrites := by
  simp only [txOutcome, ReadM.run_bind, ReadM.run_pure, bind_eq_ok] at h
  obtain ⟨rewards, hrewards, base, hbase, h⟩ := h
  cases h
  unfold txRewards at hrewards
  rw [if_neg fun hpaid => hfailed hpaid.2.1] at hrewards
  cases hrewards
  exact ⟨rfl, rfl, hbase⟩

theorem executeTx_output {cost : Value} {output : VmOutput} {s : String → Value}
    (h : executeTx E R policy tx cost s = .ok output) : ∃ vmOutput, executeVm R policy tx s = .ok vmOutput ∧
      output.statusCode = vmOutput.statusCode ∧ output.events = vmOutput.events ∧ output.chiUsed = vmOutput.chiUsed := by
  simp only [executeTx, bind_eq_ok] at h
  obtain ⟨vmOutput, hvm, writes, -, h⟩ := h
  cases h
  exact ⟨vmOutput, hvm, rfl, rfl, rfl⟩

/-! ### Where events of a failure come from -/

theorem validatedVmResult_failed {r : VmExecutionResult} (h : r.statusCode ≠ 0) : validatedVmResult V r = .ok r :=
  if_pos h

/-- A result that the validation lets through failed with its events as they were, or has none. -/
theorem validatedVmResult_events {r r' : VmExecutionResult} (h : validatedVmResult V r = .ok r')
    (hfailed : r'.statusCode ≠ 0) (hevents : r'.events ≠ []) : r' = r ∧ r.statusCode ≠ 0 := by
  unfold validatedVmResult at h
  split at h
  · rename_i hstatus
    cases h
    exact ⟨rfl, hstatus⟩
  · rename_i hstatus
    split at h
    · cases h
      exact absurd hfailed hstatus
    · split at h
      · cases h
        exact absurd rfl hevents
      · cases h

theorem executeVm_of_run {s : String → Value} {run : VmRun} {r : VmExecutionResult}
    (hrun : vmRun V policy tx s = some run) (hreturned : run.returned = .ok (.ok r)) (hfailed : r.statusCode ≠ 0) :
    executeVm V.runtime policy tx s = .ok (r.output run) := by
  obtain ⟨hprepare, hload, hsource, hcall⟩ := vmRun_eq_some.1 hrun
  rw [executeVm_runtime hprepare, if_neg (by simp [hsource])]
  unfold executeVmContract
  rw [hload, hcall]
  dsimp only
  rw [hreturned]
  show ((validatedVmResult V r).map fun r => r.output run) = _
  rw [validatedVmResult_failed hfailed]
  rfl

theorem executeVm_events {s : String → Value} {output : VmOutput} (h : executeVm V.runtime policy tx s = .ok output)
    (hfailed : output.statusCode ≠ 0) (hevents : output.events ≠ []) :
    ∃ run r, vmRun V policy tx s = some run ∧ run.returned = .ok (.ok r) ∧ r.statusCode ≠ 0 ∧ r.events = output.events ∧
      r.chiUsed = output.chiUsed := by
  rcases executeVm_ok h with ⟨-, hnone⟩ | ⟨run, r, r', hrun, hreturned, hvalid, rfl⟩
  · exact absurd hnone hevents
  · obtain ⟨rfl, hstatus⟩ := validatedVmResult_events hvalid hfailed hevents
    exact ⟨run, r', hrun, hreturned, hstatus, rfl, rfl⟩

/-! ### The effects of a failure -/

theorem failure_effects {outcome : TxOutcome} {writes : List (String × Value)}
    (h : (processTx E R policy rewardsHandler S tx).1 = some (outcome, writes)) (hfailed : outcome.output.statusCode ≠ 0)
    (hevents : outcome.output.events = []) :
    FailureEffects E policy S (processTx E R policy rewardsHandler S tx).2 tx outcome writes := by
  obtain ⟨output, -, houtcome, hwrites, hpending, hdurable⟩ := processTx_some h
  have hstatus : output.statusCode ≠ 0 := by
    simp only [txOutcome, ReadM.run_bind, ReadM.run_pure, bind_eq_ok] at houtcome
    obtain ⟨_, -, _, -, houtcome⟩ := houtcome
    cases houtcome
    exact hfailed
  obtain ⟨hsame, hrewards, hbase⟩ := txOutcome_failed hstatus houtcome
  obtain rfl : writes = outcome.baseWrites.items.foldr (fun p l => insertEntry p.1 p.2 l) [] := by
    unfold materializeWrites at hwrites
    rw [hrewards] at hwrites
    cases hwrites
    rfl
  have hresponse : buildTxEvents E.builtins (txResult tx outcome
      (outcome.baseWrites.items.foldr (fun p l => insertEntry p.1 p.2 l) [])) = .ok [] := if_pos hfailed
  rcases determineWrites_failed hstatus hbase with ⟨hempty, hfree⟩ | ⟨hcharged, balance, paid, hbalance, hpaid, hset⟩
  · rw [hempty] at hpending
    have hkept : (processTx E R policy rewardsHandler S tx).2.pending = S.pending := hpending
    refine ⟨fun key _ => by rw [hkept], fun _ => hkept, fun balance hbalance hnonneg => ?_, hresponse, hevents⟩
    refine ⟨0, balance, ?_, ?_, ?_, hnonneg, fun _ => le_rfl⟩
    · unfold failureFee
      rw [hsame, if_neg hfree]
    · unfold BlockState.read
      rw [hkept, hdurable]
      exact hbalance
    · show balance.units - 0 ≤ balance.units
      omega
  · rw [hset] at hpending
    have hpending' : (processTx E R policy rewardsHandler S tx).2.pending =
        S.pending.set (balancesKey tx.sender) (atLeastZero ⟨balance.units - paid.units⟩) := hpending
    refine ⟨fun key hkey => ?_, fun huncharged => ?_, fun balance' hbalance' hnonneg => ?_, hresponse, hevents⟩
    · rw [hpending', PyDict.get?_set, if_neg hkey]
    · rw [hcharged.1] at huncharged
      cases huncharged
    · cases hbalance.symm.trans hbalance'
      refine ⟨paid, ⟨max (balance.units - paid.units) 0⟩, ?_, ?_, le_max_left _ _, le_max_right _ _, fun hpaid₀ => ?_⟩
      · unfold failureFee
        rw [hsame, if_pos hcharged, hpaid]
      · unfold BlockState.read
        rw [hpending', PyDict.get?_set, if_pos rfl]
        exact coerceBalanceValue_atLeastZero _
      · exact max_le (by omega) hnonneg

/-- A failing output whose fee can be taken has a result, with the events of the output. -/
theorem processTx_of_failed (rewardsHandler : Bool) {output : VmOutput} (hvm : executeVm R policy tx S.read = .ok output)
    (hfailed : output.statusCode ≠ 0) (htaken : policy.chargeFees = true → 0 < output.chiUsed →
      (∃ balance, coerceBalanceValue E (S.read (balancesKey tx.sender)) = .ok balance) ∧
        ∃ paid, fee E output.chiUsed (getChiCost E S.cachedChiCost S.read) = .ok paid) :
    ∃ outcome writes, (processTx E R policy rewardsHandler S tx).1 = some (outcome, writes) ∧
      outcome.output.statusCode = output.statusCode ∧ outcome.output.events = output.events := by
  obtain ⟨base, hbase⟩ := determineWrites_ok hfailed htaken
  have hexecute : executeTx E R policy tx (getChiCost E S.cachedChiCost S.read) S.read = .ok output := by
    unfold executeTx
    rw [hvm]
    show (mergedWrites E policy tx.sender _ output).run S.read >>= _ = _
    rw [mergedWrites_of_failed hfailed]
    rfl
  have houtcome : (txOutcome E policy rewardsHandler tx (getChiCost E S.cachedChiCost S.read) output).run S.read =
      .ok ⟨output, noRewards, base⟩ := by
    simp only [txOutcome, ReadM.run_bind, ReadM.run_pure, bind_eq_ok]
    refine ⟨noRewards, ?_, base, hbase, rfl⟩
    unfold txRewards
    rw [if_neg fun hpaid => hfailed hpaid.2.1]
    rfl
  have hprocessed : processedTx E R policy rewardsHandler tx (getChiCost E S.cachedChiCost S.read) S.read =
      .ok (⟨output, noRewards, base⟩, base.items.foldr (fun p l => insertEntry p.1 p.2 l) []) := by
    simp only [processedTx, runTx, bind_eq_ok]
    exact ⟨_, ⟨output, hexecute, houtcome⟩, _, rfl, rfl⟩
  refine ⟨⟨output, noRewards, base⟩, base.items.foldr (fun p l => insertEntry p.1 p.2 l) [], ?_, rfl, rfl⟩
  unfold processTx
  dsimp only
  rw [hprocessed]

/-- For every state, transaction and VM: a failed transaction is atomic exactly when the VM does not return a failing
output with events and does not leave pending writes behind an output that is not read. -/
theorem failed_tx_atomic_iff (E : Decimals) (V : VmCore) (policy : TxFeePolicy) (rewardsHandler : Bool) (S : BlockState)
    (tx : Tx) : AtomicFailure E policy S tx (processVmTx V E policy rewardsHandler S tx) ↔
      ¬ LeaksEvents E policy V S tx ∧ ¬ LeavesWrites policy V S tx := by
  rcases processVmTx_eq V E policy rewardsHandler S tx with ⟨run, hrun, hunread, hnone, hleft⟩ | ⟨hread, heq⟩
  · -- the output was not read
    have hnoLeak : ¬ LeaksEvents E policy V S tx := by
      rintro ⟨run', r, hrun', hreturned, hfailed, -, -⟩
      cases hrun.symm.trans hrun'
      obtain ⟨fields, e, hfields, he⟩ := hunread
      cases hreturned.symm.trans hfields
      cases (validatedVmResult_failed hfailed).symm.trans he
    rw [and_iff_right hnoLeak]
    constructor
    · rintro ⟨hwithout, -⟩ ⟨run', hrun', -, hleaves⟩
      cases hrun.symm.trans hrun'
      exact hleaves (hleft.symm.trans (hwithout hnone))
    · intro hkept
      refine ⟨fun _ => ?_, fun outcome writes hsome => ?_⟩
      · rw [hleft]
        by_contra hchanged
        exact hkept ⟨run, hrun, hunread, hchanged⟩
      · rw [hnone] at hsome
        cases hsome
  · have hnoWrites : ¬ LeavesWrites policy V S tx := fun ⟨run, hrun, hunread, _⟩ => hread run hrun hunread
    rw [and_iff_left hnoWrites, heq]
    constructor
    · rintro ⟨-, hatomic⟩ ⟨run, r, hrun, hreturned, hfailed, hevents, htaken⟩
      obtain ⟨outcome, writes, hsome, hstatus, hsame⟩ := processTx_of_failed rewardsHandler
        (executeVm_of_run hrun hreturned hfailed) hfailed htaken
      refine hevents ?_
      rw [← (hatomic outcome writes hsome (hstatus ▸ hfailed)).receipt]
      exact hsame.symm
    · intro hnoLeak
      refine ⟨processTx_none, fun outcome writes hsome hfailed => failure_effects hsome hfailed ?_⟩
      by_contra hevents
      obtain ⟨output, hexecute, houtcome, -⟩ := processTx_some hsome
      have hsame : outcome.output = output := by
        simp only [txOutcome, ReadM.run_bind, ReadM.run_pure, bind_eq_ok] at houtcome
        obtain ⟨_, -, _, -, houtcome⟩ := houtcome
        cases houtcome
        rfl
      rw [hsame] at hfailed hevents
      obtain ⟨vmOutput, hvm, hstatus, hsameEvents, hchi⟩ := executeTx_output hexecute
      rw [hstatus] at hfailed
      rw [hsameEvents] at hevents
      obtain ⟨run, r, hrun, hreturned, hrfailed, hrevents, hrchi⟩ := executeVm_events hvm hfailed hevents
      refine hnoLeak ⟨run, r, hrun, hreturned, hrfailed, hrevents ▸ hevents, fun hcharge hpositive => ?_⟩
      have hbase := (txOutcome_failed (hstatus ▸ hfailed) houtcome).2.2
      rcases determineWrites_failed (hstatus ▸ hfailed) hbase with ⟨-, hfree⟩ | ⟨-, balance, paid, hbalance, hpaid, -⟩
      · exact absurd ⟨hcharge, by omega⟩ hfree
      · refine ⟨⟨balance, hbalance⟩, paid, ?_⟩
        rw [hrchi, ← hchi]
        exact hpaid

end Atomicity

/-! ### A failure that is not atomic -/

/-- A call of `con_refuse` fails after a write and an event. Of any other contract the output has no status. -/
def refusingVm : VmCore where
  load := .ok ()
  prepareVmContract _ := return ()
  convertDict v := v
  executeContract call _ :=
    let refused := ⟨1, .exception "refused", .empty, [.dict [("event", .str "Transfer")]], 10, []⟩
    let noStatus := .typeError "int() argument must be a string, a bytes-like object or a real number, not 'NoneType'"
    { returned := .ok (if call.contract = "con_refuse" then .ok refused else .error noStatus)
      reads := []
      prefixReads := []
      leaves := fun pending => pending.set "con_refuse.S:paid" (.int 1) }
  validatePersistentValue _ _ := .ok ()

/-- The event of the failed call is in its result, and the write of the other call stays pending without a result. -/
theorem refusing_not_atomic :
    ¬ AtomicFailure exactDecimals .paidMetered twelveEach (callOf "alice" "con_refuse")
        (processVmTx refusingVm exactDecimals .paidMetered true twelveEach (callOf "alice" "con_refuse")) ∧
      ¬ AtomicFailure exactDecimals .paidMetered twelveEach (callOf "alice" "con_b")
        (processVmTx refusingVm exactDecimals .paidMetered true twelveEach (callOf "alice" "con_b")) := by
  constructor
  · rintro ⟨-, hfailed⟩
    have hleaked : ((processVmTx refusingVm exactDecimals .paidMetered true twelveEach (callOf "alice" "con_refuse")).1.map
        fun p => (p.1.output.statusCode, p.1.output.events)) = some (1, [.dict [("event", .str "Transfer")]]) := by
      decide +kernel
    obtain ⟨p, hp, hevents⟩ := Option.map_eq_some_iff.1 hleaked
    obtain ⟨hstatus, hkept⟩ := Prod.mk.injEq .. ▸ hevents
    have hreceipt := (hfailed p.1 p.2 hp (by rw [hstatus]; exact one_ne_zero)).receipt
    cases hkept.symm.trans hreceipt
  · rintro ⟨hwithout, -⟩
    have hnone : (processVmTx refusingVm exactDecimals .paidMetered true twelveEach (callOf "alice" "con_b")).1.isNone := by
      decide +kernel
    have hpending := hwithout (Option.isNone_iff_eq_none.1 hnone)
    have hstays : (processVmTx refusingVm exactDecimals .paidMetered true twelveEach
        (callOf "alice" "con_b")).2.pending.get? "con_refuse.S:paid" = some (.int 1) := by decide +kernel
    rw [hpending] at hstays
    cases hstays

end XianAbci
