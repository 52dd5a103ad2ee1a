import XianAbci.StateExport

/-!
# What an import may write

The root check of `import_state` skips the keys outside consensus and the entries that hold `None`;
the write set skips nothing and is applied over the staged marker. `ImportScoped` is what an import
should leave: its own marker, and otherwise only consensus keys under the verified root. It is left
exactly when the document's last entry under every key outside consensus does nothing
(`LocalEntriesInert`).
-/

namespace XianAbci

section Scope

variable {B : Builtins} {D : Type} [Driver D] {doc : Value} {commitError : Option PyErr} {storage driver : D}

/-- The store holds the import's own marker, and under every other key a consensus value of the
document that the root covers. -/
structure ImportScoped (items : List (Key × Value)) (root : Bytes) (marker : LatestBlock) (driver : D) :
    Prop where
  marker : (Driver.durable driver).get? latestBlockKey = some marker.value
  covered : ∀ k v, k ≠ latestBlockKey → (Driver.durable driver).get? k = some v →
    isConsensusStateKey k ∧ ∃ w, (Key.str k, w) ∈ items ∧ w ≠ .none ∧ v = Driver.stored D w
  root : computeDriverStateRoot (Driver.durable driver) = .ok root

/-- The last entry under a key outside consensus is `None`, or under the marker's key it is the
marker that the import stages anyway. -/
def LocalEntriesInert (stored : Value → Value) (items : List (Key × Value)) (marker : LatestBlock) : Prop :=
  ∀ k v, items.reverse.lookup (.str k) = some v → isConsensusStateKey k = false →
    if k = latestBlockKey then v ≠ .none ∧ stored v = marker.value else v = .none

theorem latestBlockKey_local : isConsensusStateKey latestBlockKey = false := by decide +kernel

/-- `import_state` leaves only its marker and root-covered consensus keys exactly for the documents
whose entries outside consensus are inert. -/
theorem importState_scoped_iff {r : ImportResult}
    (h : importState B doc commitError storage = (.ok r, driver)) :
    ∃ root items, Imported B doc r root items ∧
      (ImportScoped items root ⟨bytesHex root, r.height, r.nanos⟩ driver ↔
        LocalEntriesInert (Driver.stored D) items ⟨bytesHex root, r.height, r.nanos⟩) := by
  obtain ⟨root, items, himp, hdur, hroot⟩ := importState_ok h
  refine ⟨root, items, himp, ?_⟩
  generalize hm : LatestBlock.mk (bytesHex root) r.height r.nanos = marker at hdur ⊢
  have hstored : Driver.stored D marker.value = marker.value := by
    rw [LatestBlock.value, Driver.stored_latestBlock]
  -- the key holds the document's last entry, where there is one
  have hsome : ∀ k v, items.reverse.lookup (.str k) = some v →
      (Driver.durable driver).get? k = if v = .none then none else some (Driver.stored D v) := by
    intro k v hk
    rw [hdur, importPending, hk, Option.some_or, committedValue]
  constructor
  · intro hs k v hk hlocal
    have hget := hsome k v hk
    split
    · rename_i hkm
      subst hkm
      rw [hs.marker] at hget
      split at hget
      · cases hget
      · rename_i hv
        exact ⟨hv, (Option.some.inj hget).symm⟩
    · rename_i hkm
      by_contra hv
      rw [if_neg hv] at hget
      rw [(hs.covered k _ hkm hget).1] at hlocal
      cases hlocal
  · intro hl
    refine ⟨?_, fun k v hkm hk => ?_, hroot⟩
    · cases hk : items.reverse.lookup (.str latestBlockKey) with
      | none =>
        rw [hdur, importPending, hk, if_pos rfl, Option.none_or, committedValue,
          if_neg marker.value_ne_none, hstored]
      | some v =>
        have hinert := hl latestBlockKey v hk latestBlockKey_local
        rw [if_pos rfl] at hinert
        rw [hsome _ v hk, if_neg hinert.1, hinert.2]
    · cases hlast : items.reverse.lookup (.str k) with
      | none =>
        rw [hdur, importPending, hlast, if_neg hkm] at hk
        cases hk
      | some w =>
        rw [hsome k w hlast] at hk
        have hw : w ≠ .none := by
          intro hw; rw [if_pos hw] at hk; cases hk
        rw [if_neg hw] at hk
        refine ⟨?_, w, PyDict.mem_of_lookup_reverse hlast, hw, (Option.some.inj hk).symm⟩
        -- outside consensus the last entry would be `None`
        by_contra hlocal
        have hinert := hl k w hlast (by simpa using hlocal)
        rw [if_neg hkm] at hinert
        exact hw hinert

end Scope

/-- A document that holds the execution policy and further entries. -/
def policyDocument (hash : String) (number nanos : Value) (extra : List (String × Value)) : Value :=
  .dict [("hash", .str hash), ("number", number), ("nanos", nanos),
    ("genesis", .list ((executionPolicyKey, .dict currentExecutionPolicy) :: extra |>.map fun p =>
      .dict [("key", .str p.1), ("value", p.2)]))]

/-- The root of a state that holds the execution policy only. -/
def policyRootHex : String := "1f4f889c9402830c72ef041a83bceff4ff895ec27fa8bacfc17053d2be09321a"

/-- A run that returns, read off by evaluation. -/
theorem exists_of_returns {α β : Type} {x : Except PyErr α × β} (p : α → β → Bool)
    (h : (match x with | (.ok r, d) => p r d | (.error _, _) => false) = true) :
    ∃ r d, x = (.ok r, d) ∧ p r d = true := by
  obtain ⟨_ | r, d⟩ := x
  · cases h
  · exact ⟨r, d, rfl, h⟩

theorem importState_scoped_iff_policy :
    let doc := policyDocument "c881fd017358b6fb5febe27ee13a09b6d76cb457a4e75dcb7ec0dada27e5fdbf" (.int 7) (.int 5)
      [("con.S:x", .int 1), ("__local", .none)]
    ∃ r driver, importState (D := MemoryDriver) .plain doc none ⟨.empty, .empty⟩ = (.ok r, driver) ∧
      (r.height = 7 ∧ r.nanos = 5) ∧ ∃ root items, Imported .plain doc r root items ∧
        (ImportScoped items root ⟨bytesHex root, r.height, r.nanos⟩ driver ↔
          LocalEntriesInert id items ⟨bytesHex root, r.height, r.nanos⟩) := by
  intro doc
  obtain ⟨r, driver, h, hr⟩ := exists_of_returns
    (x := importState (D := MemoryDriver) .plain doc none ⟨.empty, .empty⟩)
    (fun r _ => decide (r.height = 7 ∧ r.nanos = 5)) (by decide +kernel)
  exact ⟨r, driver, h, of_decide_eq_true hr, importState_scoped_iff h⟩

/-- The document's own `__latest_block` entry takes the place of the staged marker: the import
reports height 7 and stores a marker of height 900. -/
theorem importState_not_scoped :
    let doc := policyDocument policyRootHex (.int 7) (.int 5)
      [(latestBlockKey, (LatestBlock.mk policyRootHex 900 5).value)]
    ∃ r driver, importState (D := MemoryDriver) .plain doc none ⟨.empty, .empty⟩ = (.ok r, driver) ∧
      r.height = 7 ∧ driver.durable.get? latestBlockKey = some (LatestBlock.mk policyRootHex 900 5).value ∧
      ∀ root items, Imported .plain doc r root items →
        ¬ ImportScoped items root ⟨bytesHex root, r.height, r.nanos⟩ driver := by
  intro doc
  obtain ⟨r, driver, h, hr⟩ := exists_of_returns
    (x := importState (D := MemoryDriver) .plain doc none ⟨.empty, .empty⟩)
    (fun r d => decide (r.height = 7 ∧
      d.durable.get? latestBlockKey = some (LatestBlock.mk policyRootHex 900 5).value)) (by decide +kernel)
  obtain ⟨hheight, hmarker⟩ := of_decide_eq_true hr
  refine ⟨r, driver, h, hheight, hmarker, fun root items _ hs => ?_⟩
  have hval := Option.some.inj (hmarker.symm.trans hs.marker)
  have : (900 : Int) = r.height := congrArg LatestBlock.height (LatestBlock.value_injective hval)
  omega

end XianAbci
