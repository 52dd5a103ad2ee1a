import XianAbci.Proposal

/-!
# Around the native VM (`execution_engine.py`)

The VM works on the driver itself: it may leave pending writes, record reads, raise, or return an output of any kind.
`execute_vm_contract` turns that into a result, `execute_vm_transaction` puts the driver's state back and merges the
fee, and `process_tx` sets the writes. `VmCore` has the VM's part; `VmCore.runtime` is the `Runtime` that it amounts
to, and `processVmTx_eq` says when the pending writes are not put back.
-/

namespace XianAbci

structure VmExecutionResult where
  statusCode : Int
  result : Value
  writes : PyDict String Value
  events : List Value
  chiUsed : Int
  contractCosts : List (String × Value)

/-- One call of `bindings.execute_contract`. -/
structure VmRun where
  -- what it raises, or its output, whose fields convert to a result or raise
  returned : Except PyErr (Except PyErr VmExecutionResult)
  reads : List String
  prefixReads : List String
  -- what is left of the pending writes
  leaves : PyDict String Value → PyDict String Value

structure VmCore where
  -- `_load_vm_runtime_bindings`
  load : Except PyErr Unit
  prepareVmContract : String → StateReader Unit
  convertDict : Value → Value
  executeContract : VmCall → (String → Value) → VmRun
  -- on the writes and the events of an output
  validatePersistentValue : PyDict String Value → List Value → Except PyErr Unit

def VmExecutionResult.output (r : VmExecutionResult) (run : VmRun) : VmOutput :=
  ⟨r.statusCode, r.result, r.writes, r.events, r.chiUsed, r.contractCosts, run.reads, run.prefixReads⟩

section Boundary

variable (V : VmCore)

/-- The check of a successful output's effects. A key is a string, and has an UTF-8 encoding. -/
def checkEffects (output : VmExecutionResult) : Except PyErr Unit := do
  require (executionPolicyKey ∉ output.writes.keys)
    (.valueError "contract effects cannot change the protected execution policy")
  V.validatePersistentValue output.writes output.events
  let _ ← encodeAbciJson (.tuple [.dict output.writes.items, .list output.events])
  return ()

/-- `except (AssertionError, TypeError, ValueError, RecursionError)`. -/
def isEffectsError : PyErr → Bool
  | .assertionError _ | .typeError _ | .valueError _ => true
  | .other name => name = "RecursionError"
  | _ => false

def validatedVmResult (output : VmExecutionResult) : Except PyErr VmExecutionResult :=
  if output.statusCode ≠ 0 then .ok output
  else match checkEffects V output with
    | .ok _ => .ok output
    | .error e =>
      if isEffectsError e then .ok { output with
        statusCode := 1
        result := .exception "Contract writes or events cannot be encoded for consensus."
        writes := .empty
        events := [] }
      else .error e

/-- `execute_vm_contract` after the check for a missing source, which `execute_tx` has made already. With the result,
what the VM leaves of the pending writes. -/
def executeVmContract (call : VmCall) (s : String → Value) :
    Except PyErr VmOutput × (PyDict String Value → PyDict String Value) :=
  match V.load with
  | .error e => (.error e, id)
  | .ok _ =>
    let run := V.executeContract call s
    match run.returned with
    | .error e => (.ok (VmExecutionResult.output ⟨1, .exception e.text, .empty, [], 0, []⟩ run), run.leaves)
    | .ok fields => ((fields >>= validatedVmResult V).map fun r => r.output run, run.leaves)

/-- The VM as the rest of the processor sees it. -/
def VmCore.runtime : Runtime where
  prepareVmContract := V.prepareVmContract
  convertDict := V.convertDict
  executeVmContract call s := (executeVmContract V call s).1

variable (E : Decimals) (policy : TxFeePolicy) (rewardsHandler : Bool)

/-- The result with the merged writes, and the pending writes after it: what raises before `restore_state` leaves
them as the VM did. -/
def executeVmTransaction (call : VmCall) (chiCost : Value) (S : BlockState) :
    Except PyErr VmOutput × PyDict String Value :=
  match executeVmContract V call S.read with
  | (.error e, leaves) => (.error e, leaves S.pending)
  | (.ok output, _) =>
    (do return { output with writes := ← (mergedWrites E policy call.sender chiCost output).run S.read }, S.pending)

def executeTxOver (tx : Tx) (chiCost : Value) (S : BlockState) : Except PyErr VmOutput × PyDict String Value :=
  match (V.prepareVmContract tx.contract).run S.read with
  | .error e => (.error e, S.pending)
  | .ok _ =>
    let kwargs := V.convertDict tx.kwargs
    if requiresContractSource tx kwargs then
      (.ok ⟨1, .exception (contractSourceError tx), .empty, [], 0, [], [], []⟩, S.pending)
    else executeVmTransaction V E policy (vmCall policy tx kwargs) chiCost S

/-- `process_tx_output` up to the writes it sets. -/
def processTxOutput (tx : Tx) (chiCost : Value) (output : VmOutput) (s : String → Value) :
    Except PyErr (TxOutcome × List (String × Value)) := do
  let outcome ← (txOutcome E policy rewardsHandler tx chiCost output).run s
  let writes ← (materializeWrites E outcome).run s
  return (outcome, writes)

/-- `process_tx` over the VM. -/
def processVmTx (S : BlockState) (tx : Tx) : Option (TxOutcome × List (String × Value)) × BlockState :=
  let chiCost := getChiCost E S.cachedChiCost S.read
  let (executed, pending) := executeTxOver V E policy tx chiCost S
  match executed >>= fun output => processTxOutput E policy rewardsHandler tx chiCost output S.read with
  | .error _ => (none, { S with pending := pending, cachedChiCost := some chiCost })
  | .ok (outcome, writes) => (some (outcome, writes),
      { S.setWrites writes with cachedChiCost := updateChiCostCache (some chiCost) outcome.baseWrites })

/-- The call of the VM that a transaction makes, where it gets so far. -/
def vmRun (tx : Tx) (s : String → Value) : Option VmRun :=
  match (V.prepareVmContract tx.contract).run s, V.load with
  | .ok _, .ok _ =>
    let kwargs := V.convertDict tx.kwargs
    if requiresContractSource tx kwargs then none else some (V.executeContract (vmCall policy tx kwargs) s)
  | _, _ => none

/-- An output was returned, and the exception that follows is not handled before the driver's state is put back. -/
def VmRun.Unread (run : VmRun) : Prop :=
  ∃ fields e, run.returned = .ok fields ∧ fields >>= validatedVmResult V = .error e

end Boundary

section Restored

variable {V : VmCore} {E : Decimals} {policy : TxFeePolicy} {rewardsHandler : Bool} {S : BlockState} {tx : Tx}

theorem vmRun_eq_some {s : String → Value} {run : VmRun} : vmRun V policy tx s = some run ↔
    (V.prepareVmContract tx.contract).run s = .ok () ∧ V.load = .ok () ∧
      requiresContractSource tx (V.convertDict tx.kwargs) = false ∧
      V.executeContract (vmCall policy tx (V.convertDict tx.kwargs)) s = run := by
  unfold vmRun
  cases hprepare : (V.prepareVmContract tx.contract).run s with
  | error e => simp
  | ok u =>
    cases hload : V.load with
    | error e => simp
    | ok u' =>
      cases hsource : requiresContractSource tx (V.convertDict tx.kwargs)
      · simp [hsource]
      · simp [hsource]

theorem executeVmContract_unread {call : VmCall} {s : String → Value} {run : VmRun} (hload : V.load = .ok ())
    (hrun : V.executeContract call s = run) :
    (executeVmContract V call s).2 = run.leaves ∧ ((∃ e, (executeVmContract V call s).1 = .error e) ↔ run.Unread V) := by
  unfold executeVmContract
  rw [hload, hrun]
  dsimp only
  cases hreturned : run.returned with
  | error e =>
    refine ⟨rfl, iff_of_false ?_ ?_⟩
    · rintro ⟨e', he⟩
      cases he
    · rintro ⟨fields, e', hfields, -⟩
      cases hreturned.symm.trans hfields
  | ok fields =>
    refine ⟨rfl, ?_⟩
    dsimp only
    cases hread : fields >>= validatedVmResult V with
    | error e => exact iff_of_true ⟨e, rfl⟩ ⟨fields, e, hreturned, hread⟩
    | ok r =>
      refine iff_of_false ?_ ?_
      · rintro ⟨e', he⟩
        cases he
      · rintro ⟨fields', e', hfields, hunread⟩
        cases hreturned.symm.trans hfields
        cases hread.symm.trans hunread

theorem executeVmTransaction_eq (V : VmCore) (E : Decimals) (policy : TxFeePolicy) {call : VmCall} {s : String → Value}
    (chiCost : Value) (hS : S.read = s) :
    (executeVmTransaction V E policy call chiCost S).1 = (do
      let output ← (executeVmContract V call s).1
      return { output with writes := ← (mergedWrites E policy call.sender chiCost output).run s }) ∧
      ((executeVmTransaction V E policy call chiCost S).2 = S.pending ∨
        (∃ e, (executeVmContract V call s).1 = .error e) ∧
          (executeVmTransaction V E policy call chiCost S).2 = (executeVmContract V call s).2 S.pending) := by
  subst hS
  unfold executeVmTransaction
  rcases hvm : executeVmContract V call S.read with ⟨e | output, leaves⟩
  · exact ⟨rfl, .inr ⟨⟨e, rfl⟩, rfl⟩⟩
  · exact ⟨rfl, .inl rfl⟩

theorem mergedWrites_of_failed {sender : String} {chiCost : Value} {output : VmOutput} (h : output.statusCode ≠ 0) :
    mergedWrites E policy sender chiCost output = return output.writes := if_neg fun hcharged => h hcharged.2.1

theorem executeVm_runtime {s : String → Value} {u : Unit} (hprepare : (V.prepareVmContract tx.contract).run s = .ok u) :
    executeVm V.runtime policy tx s =
      if requiresContractSource tx (V.convertDict tx.kwargs) then
        .ok ⟨1, .exception (contractSourceError tx), .empty, [], 0, [], [], []⟩
      else (executeVmContract V (vmCall policy tx (V.convertDict tx.kwargs)) s).1 := by
  unfold executeVm
  rw [show (V.runtime.prepareVmContract tx.contract).run s = .ok u from hprepare]
  rfl

/-- An output is a failure without events, or what the validation makes of the VM's. -/
theorem executeVm_ok {s : String → Value} {output : VmOutput} (h : executeVm V.runtime policy tx s = .ok output) :
    output.statusCode ≠ 0 ∧ output.events = [] ∨ ∃ run r r', vmRun V policy tx s = some run ∧
      run.returned = .ok (.ok r) ∧ validatedVmResult V r = .ok r' ∧ output = r'.output run := by
  cases hprepare : (V.prepareVmContract tx.contract).run s with
  | error e =>
    unfold executeVm at h
    rw [show (V.runtime.prepareVmContract tx.contract).run s = .error e from hprepare] at h
    cases h
  | ok u =>
    rw [executeVm_runtime hprepare] at h
    split at h
    · cases h
      exact .inl ⟨one_ne_zero, rfl⟩
    rename_i hsource
    rw [Bool.not_eq_true] at hsource
    unfold executeVmContract at h
    cases hload : V.load with
    | error e =>
      rw [hload] at h
      cases h
    | ok u' =>
      rw [hload] at h
      dsimp only at h
      have hrun : vmRun V policy tx s = some (V.executeContract (vmCall policy tx (V.convertDict tx.kwargs)) s) :=
        vmRun_eq_some.2 ⟨hprepare, hload, hsource, rfl⟩
      cases hreturned : (V.executeContract (vmCall policy tx (V.convertDict tx.kwargs)) s).returned with
      | error e =>
        rw [hreturned] at h
        cases h
        exact .inl ⟨one_ne_zero, rfl⟩
      | ok fields =>
        rw [hreturned] at h
        dsimp only at h
        rcases fields with e | r
        · cases h
        · cases hvalid : validatedVmResult V r with
          | error e =>
            rw [show (Except.ok r >>= validatedVmResult V) = validatedVmResult V r from rfl, hvalid] at h
            cases h
          | ok r' =>
            rw [show (Except.ok r >>= validatedVmResult V) = validatedVmResult V r from rfl, hvalid] at h
            cases h
            exact .inr ⟨_, r, r', hrun, hreturned, hvalid, rfl⟩

/-- `execute_tx` over the VM is `execute_tx` on its runtime. -/
theorem executeTxOver_fst (V : VmCore) (E : Decimals) (policy : TxFeePolicy) (S : BlockState) (tx : Tx)
    (chiCost : Value) :
    (executeTxOver V E policy tx chiCost S).1 = executeTx E V.runtime policy tx chiCost S.read := by
  unfold executeTxOver executeTx
  cases hprepare : (V.prepareVmContract tx.contract).run S.read with
  | error e =>
    have hvm : executeVm V.runtime policy tx S.read = .error e := by
      unfold executeVm
      rw [show (V.runtime.prepareVmContract tx.contract).run S.read = .error e from hprepare]
      rfl
    rw [hvm]
    rfl
  | ok u =>
    rw [executeVm_runtime hprepare]
    dsimp only
    by_cases hsource : requiresContractSource tx (V.convertDict tx.kwargs) = true
    · rw [if_pos hsource, if_pos hsource]
      show _ = (mergedWrites E policy tx.sender chiCost _).run S.read >>= _
      rw [mergedWrites_of_failed one_ne_zero]
      rfl
    · rw [if_neg hsource, if_neg hsource]
      exact (executeVmTransaction_eq V E policy chiCost rfl).1

/-- The pending writes are put back, unless the VM returned an output that is not read. -/
theorem executeTxOver_snd (V : VmCore) (E : Decimals) (policy : TxFeePolicy) (S : BlockState) (tx : Tx)
    (chiCost : Value) :
    (∃ run, vmRun V policy tx S.read = some run ∧ run.Unread V ∧
        (∃ e, (executeTxOver V E policy tx chiCost S).1 = .error e) ∧
        (executeTxOver V E policy tx chiCost S).2 = run.leaves S.pending) ∨
      (∀ run, vmRun V policy tx S.read = some run → ¬ run.Unread V) ∧
        (executeTxOver V E policy tx chiCost S).2 = S.pending := by
  unfold executeTxOver
  cases hprepare : (V.prepareVmContract tx.contract).run S.read with
  | error e =>
    refine .inr ⟨fun run hrun => ?_, rfl⟩
    cases hprepare.symm.trans (vmRun_eq_some.1 hrun).1
  | ok u =>
    dsimp only
    split
    · rename_i hsource
      refine .inr ⟨fun run hrun => ?_, rfl⟩
      cases hsource.symm.trans (vmRun_eq_some.1 hrun).2.2.1
    · rename_i hsource
      rw [Bool.not_eq_true] at hsource
      cases hload : V.load with
      | error e =>
        have hvm : executeVmContract V (vmCall policy tx (V.convertDict tx.kwargs)) S.read = (.error e, id) := by
          unfold executeVmContract
          rw [hload]
        refine .inr ⟨fun run hrun => ?_, ?_⟩
        · cases hload.symm.trans (vmRun_eq_some.1 hrun).2.1
        · unfold executeVmTransaction
          rw [hvm]
          rfl
      | ok u' =>
        obtain ⟨hleaves, hunread⟩ := executeVmContract_unread hload
          (rfl : V.executeContract (vmCall policy tx (V.convertDict tx.kwargs)) S.read = _)
        have hrun : vmRun V policy tx S.read =
            some (V.executeContract (vmCall policy tx (V.convertDict tx.kwargs)) S.read) :=
          vmRun_eq_some.2 ⟨hprepare, hload, hsource, rfl⟩
        by_cases h : (V.executeContract (vmCall policy tx (V.convertDict tx.kwargs)) S.read).Unread V
        · left
          obtain ⟨e, he⟩ := hunread.2 h
          refine ⟨_, hrun, h, ⟨e, ?_⟩, ?_⟩
          · rw [(executeVmTransaction_eq V E policy chiCost rfl).1, he]
            rfl
          · unfold executeVmTransaction
            rcases hvm : executeVmContract V (vmCall policy tx (V.convertDict tx.kwargs)) S.read with ⟨e' | output, leaves⟩
            · rw [hvm] at hleaves
              rw [← show leaves = _ from hleaves]
            · rw [hvm] at he
              cases he
        · refine .inr ⟨fun run hrun' => ?_, ?_⟩
          · cases hrun.symm.trans hrun'
            exact h
          · rcases (executeVmTransaction_eq V E policy chiCost rfl).2 with hback | ⟨he, -⟩
            · exact hback
            · exact absurd (hunread.1 he) h

/-- `process_tx` is `process_tx` on the runtime, unless the VM's output is not read. -/
theorem processVmTx_eq (V : VmCore) (E : Decimals) (policy : TxFeePolicy) (rewardsHandler : Bool) (S : BlockState)
    (tx : Tx) :
    (∃ run, vmRun V policy tx S.read = some run ∧ run.Unread V ∧
        (processVmTx V E policy rewardsHandler S tx).1 = none ∧
        (processVmTx V E policy rewardsHandler S tx).2.pending = run.leaves S.pending) ∨
      (∀ run, vmRun V policy tx S.read = some run → ¬ run.Unread V) ∧
        processVmTx V E policy rewardsHandler S tx = processTx E V.runtime policy rewardsHandler S tx := by
  have hfst := executeTxOver_fst V E policy S tx (getChiCost E S.cachedChiCost S.read)
  have hprocessed : (executeTx E V.runtime policy tx (getChiCost E S.cachedChiCost S.read) S.read >>= fun output =>
      processTxOutput E policy rewardsHandler tx (getChiCost E S.cachedChiCost S.read) output S.read) =
      processedTx E V.runtime policy rewardsHandler tx (getChiCost E S.cachedChiCost S.read) S.read := by
    unfold processedTx runTx processTxOutput
    cases executeTx E V.runtime policy tx (getChiCost E S.cachedChiCost S.read) S.read <;> rfl
  rcases executeTxOver_snd V E policy S tx (getChiCost E S.cachedChiCost S.read) with
    ⟨run, hrun, hunread, ⟨e, he⟩, hleft⟩ | ⟨hread, hback⟩
  · refine .inl ⟨run, hrun, hunread, ?_⟩
    unfold processVmTx
    dsimp only
    rw [he, ← hleft]
    exact ⟨rfl, rfl⟩
  · refine .inr ⟨hread, ?_⟩
    unfold processVmTx processTx
    dsimp only
    rw [hfst, hback, hprocessed] <;> rfl

end Restored

end XianAbci
