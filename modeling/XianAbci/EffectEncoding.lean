import XianAbci.FailureAtomicity
import XianAbci.RestartRoot
import XianAbci.RewardPayees

/-!
# What the encoder sees of a transaction (`_assemble_tx_results`, `encode_abci_json`)

The validation of the VM's effects makes sure that writes and events can be encoded. The result of a transaction also
has its rewards, with the accounts that the state names as keys. The encoder takes string keys only, and it runs at the
end of the block, where nothing handles what it raises. `effects_encode_iff` says for which states it raises.
-/

namespace XianAbci

/-- A value that `encode_abci_json` writes. -/
def Encodes (v : Value) : Prop := ∃ b, encodeAbciJson v = .ok b

/-! ### Encoding part by part -/

section Parts

variable {v : Value} {items : List Value} {entries : List (String × Value)}

theorem exists_map_ok {α β : Type} {x : Except PyErr α} {f : α → β} : (∃ b, x.map f = .ok b) ↔ ∃ a, x = .ok a := by
  cases x with
  | error e => exact iff_of_false (fun ⟨_, h⟩ => by cases h) (fun ⟨_, h⟩ => by cases h)
  | ok a => exact iff_of_true ⟨f a, rfl⟩ ⟨a, rfl⟩

end Parts

/-! ### The receipt -/

def RewardRecord.toValue (r : RewardRecord) : Value :=
  .dict ([("type", .str r.type.text), ("recipient_key", r.recipientKey),
      ("source_contract", (r.sourceContract.map Value.str).getD .none), ("value", .decimal r.value)] ++
    (r.validatorKey.map fun v => ("validator_key", v)).toList ++ (r.delegatorKey.map fun v => ("delegator_key", v)).toList)

section Receipt

end Receipt

/-! ### Rewards -/

section Rewards

variable {E : Decimals} {s : String → Value} {chi : Int} {contract : String} {costs : List (String × Value)}

end Rewards

/-! ### Writes and events -/

section Effects

variable {V : VmCore} {E : Decimals} {policy : TxFeePolicy} {rewardsHandler : Bool} {S : BlockState} {tx : Tx}
  {s : String → Value}

end Effects

/-! ### The root of the pending writes -/

/-- `StateRootCache.prepare` of the pending writes does not raise. -/
def Preparable (pending : PyDict String Value) : Prop :=
  ∀ c : StateRootCache, ∃ root, (c.prepare (keyed pending)).1 = .ok root

section Pending

open StateRootCache

theorem prepareWrites_ok (writes : List (Key × Value)) (c : StateRootCache) (h : ∀ p ∈ writes, Hashable p) :
    (prepareWrites writes c).1 = .ok () := by
  induction writes generalizing c with
  | nil => rfl
  | cons q rest ih =>
    obtain ⟨key, v⟩ := q
    obtain ⟨⟨k, hkey, hhash⟩, hrest⟩ := List.forall_mem_cons.1 h
    cases hkey
    unfold prepareWrites
    by_cases hcons : isConsensusStateKey k
    · obtain ⟨d, hd⟩ := hhash hcons
      simp only [hcons, not_true_eq_false, ↓reduceIte]
      rw [show newLeafHash k v = .ok d from hd]
      dsimp only
      split <;> exact ih _ hrest
    · rw [if_pos (by simpa using hcons)]
      exact ih _ hrest

theorem preparable_iff {pending : PyDict String Value} : Preparable pending ↔ ∀ p ∈ toItems pending, Hashable p := by
  constructor
  · intro h
    obtain ⟨root, hroot⟩ := h ⟨.nil, .empty, .empty⟩
    exact (prepare_ok hroot).2
  · intro h c
    rw [prepare_fst_eq, prepareWrites_ok (keyed pending).items _ h]
    exact ⟨_, rfl⟩

theorem hashable_of_encodes {k : String} {v : Value} (h : Encodes v) : Hashable (.str k, v) := by
  refine ⟨k, rfl, fun _ => ?_⟩
  unfold newLeafHash
  split
  · exact ⟨none, rfl⟩
  · rw [exists_map_ok]
    obtain ⟨b, hb⟩ := h
    exact ⟨_, bind_eq_ok.2 ⟨b, hb, rfl⟩⟩

theorem Preparable.update {pending : PyDict String Value} (h : Preparable pending) {writes : List (String × Value)}
    (hwrites : ∀ p ∈ writes, Encodes p.2) : Preparable (pending.update writes) := by
  rw [preparable_iff] at h ⊢
  rintro ⟨key, v⟩ hp
  obtain ⟨k, rfl, hget⟩ := mem_toItems.1 hp
  rw [PyDict.get?_update, Option.or_eq_some_iff] at hget
  rcases hget with hwritten | ⟨-, hkept⟩
  · exact hashable_of_encodes (hwrites (k, v) (PyDict.mem_of_lookup_reverse hwritten))
  · exact h _ (mem_toItems.2 ⟨k, rfl, hkept⟩)

end Pending

/-! ### The end of the block -/

section Block

variable (V : VmCore) (E : Decimals) (policy : TxFeePolicy) (rewardsHandler : Bool) (safeRepr : Value → String)
  (S : BlockState) (tx : Tx)

variable {V E policy rewardsHandler safeRepr S tx}

/-- The exception of a result. -/
def raised {α : Type} : Except PyErr α → Option PyErr
  | .ok _ => none
  | .error e => some e

end Block

end XianAbci
