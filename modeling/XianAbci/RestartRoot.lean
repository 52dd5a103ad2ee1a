import XianAbci.Driver
import XianAbci.StateRootInv

/-!
# The root cache and the store

The running node updates its root cache from the values in memory; a restarted node rebuilds it from
the store. `Mirrors` ties the store to the logical map of a cache by leaf digests. A commit keeps it as
long as storing a written value does not change its leaf (`LeafStable`), and under it a rebuilt cache
has the root of the running one.
-/

namespace XianAbci

open StateRootCache

/-- `pending_writes` as the cache receives it. -/
def keyed (d : PyDict String Value) : PyDict Key Value := ⟨toItems d, nodup_toItems d⟩

theorem lookup_toItems (d : PyDict String Value) (k : String) : (toItems d).lookup (.str k) = d.get? k := by
  refine Option.ext fun v => ?_
  have := PyDict.mem_items_iff (d := keyed d) (k := Key.str k) (v := v)
  rw [show (keyed d).get? (Key.str k) = (toItems d).lookup (Key.str k) from rfl] at this
  rw [← this, show (keyed d).items = toItems d from rfl, mem_toItems]
  simp

theorem consensusKeys_toItems (d : PyDict String Value) (k : String) :
    k ∈ consensusKeys (toItems d) ↔ isConsensusStateKey k ∧ ∃ v, d.get? k = some v := by
  refine and_congr_right fun _ => ?_
  rw [List.mem_map]
  constructor
  · rintro ⟨⟨key, v⟩, hp, hkey⟩
    obtain ⟨s, hs, hget⟩ := mem_toItems.1 hp
    cases hkey.symm.trans hs
    exact ⟨v, hget⟩
  · rintro ⟨v, hv⟩
    exact ⟨(Key.str k, v), mem_toItems.2 ⟨k, rfl, hv⟩, rfl⟩

/-- Storing the value and reading it back leaves the leaf as it is. -/
def LeafStable (stored : Value → Value) (k : String) (v : Value) : Prop := hashLeaf k (stored v) = hashLeaf k v

/-- The store has the leaves of the map, and every consensus value in it can be hashed. -/
structure Mirrors (K : Set String) (durable m : PyDict String Value) : Prop where
  leaves : ∀ k, isConsensusStateKey k → leafOf durable k = leafOf m k
  hashable : ∀ k v, durable.get? k = some v → isConsensusStateKey k →
    k ∈ K ∧ v ≠ .none ∧ ∃ d, hashLeaf k v = .ok d

section Mirror

variable {K : Set String} {durable durable' pending m : PyDict String Value} {c c' : StateRootCache} {L : Logical}
  {stored : Value → Value}

theorem hashable_iff {p : Key × Value} {k : String} (hk : p.1 = .str k) (hv : p.2 ≠ .none) :
    Hashable p ↔ (isConsensusStateKey k → ∃ d, hashLeaf k p.2 = .ok d) := by
  have hnew : ∀ k, (∃ d, newLeafHash k p.2 = .ok d) ↔ ∃ d, hashLeaf k p.2 = .ok d := fun k => by
    rw [newLeafHash, if_neg hv]
    cases hashLeaf k p.2 with
    | error e => simp [Except.map]
    | ok d => simp [Except.map]
  constructor
  · rintro ⟨k', hk', h⟩ hcons
    cases hk.symm.trans hk'
    exact (hnew k).1 (h hcons)
  · intro h
    exact ⟨k, hk, fun hcons => (hnew k).2 (h hcons)⟩

theorem Mirrors.keys (h : Mirrors K durable m) : consensusKeys (toItems durable) ⊆ K := by
  intro k hk
  obtain ⟨hcons, v, hv⟩ := (consensusKeys_toItems durable k).1 hk
  exact (h.hashable k v hv hcons).1

/-- A cache over the mirrored map has the root of the store. -/
theorem Mirrors.root (hK : Set.InjOn hashPriority K) (h : Mirrors K durable L.current) (hinv : Inv K c L) :
    computeDriverStateRoot durable = .ok c.rootHash := by
  have hhash : ∀ p ∈ toItems durable, Hashable p := by
    intro p hp
    obtain ⟨k, hk, hget⟩ := mem_toItems.1 hp
    by_cases hcons : isConsensusStateKey k
    · obtain ⟨-, hv, hd⟩ := h.hashable k p.2 hget hcons
      exact (hashable_iff hk hv).2 fun _ => hd
    · exact ⟨k, hk, fun h => absurd h hcons⟩
  obtain ⟨-, -, -, hok⟩ := rebuildItems_spec (m := .empty) hK (toItems durable) (nodup_toItems durable) h.keys
    (Wf.empty (s := .empty)) (fun _ => rfl) fun _ _ => rfl
  obtain ⟨c', hc'⟩ : ∃ c', rebuildItems (toItems durable) ⟨.nil, .empty, .empty⟩ = (.ok (), c') :=
    ⟨_, Prod.ext (hok hhash) rfl⟩
  obtain ⟨hwf, -, hleaf⟩ := rebuildItems_ok hK (toItems durable) h.keys (Wf.empty (s := .empty)) hc'
  refine merkleRootFromItems_eq_ok.2 ⟨c', hc', hwf.rootHash_eq hinv.wf fun k => Option.ext fun d => ?_⟩
  rw [hleaf, hinv.current]
  constructor
  · rintro (hnone | ⟨hcons, v, hv, -, hd⟩)
    · cases hnone
    · obtain ⟨k', hk', hget⟩ := mem_toItems.1 hv
      cases hk'
      rw [← h.leaves k hcons, leafOf, hget, Option.bind_some, hd]
      rfl
  · intro hd
    right
    have hcons : isConsensusStateKey k := by
      unfold leafOf at hd
      obtain ⟨v, hv, -⟩ := Option.bind_eq_some_iff.1 hd
      exact (hinv.admittedCurrent k v hv).1
    rw [← h.leaves k hcons, leafOf] at hd
    obtain ⟨v, hv, hd⟩ := Option.bind_eq_some_iff.1 hd
    obtain ⟨-, hvn, d', hd'⟩ := h.hashable k v hv hcons
    rw [hd'] at hd
    cases hd
    exact ⟨hcons, v, mem_toItems.2 ⟨k, rfl, hv⟩, hvn, hd'⟩

/-- A commit of leaf-stable writes keeps the store and the logical map together. -/
theorem Mirrors.commit (h : Mirrors K durable m)
    (hwrites : consensusKeys (toItems pending) ⊆ K) (hhash : ∀ p ∈ toItems pending, Hashable p)
    (hstable : ∀ k v, pending.get? k = some v → isConsensusStateKey k → v ≠ .none →
      stored v ≠ .none ∧ LeafStable stored k v)
    (hcommit : ∀ k, isConsensusStateKey k →
      durable'.get? k = committedValue stored (durable.get? k) (pending.get? k)) :
    Mirrors K durable' (applyWrites (toItems pending) m) := by
  have hleaf : ∀ k v, pending.get? k = some v → isConsensusStateKey k → v ≠ .none → ∃ d, hashLeaf k v = .ok d := by
    intro k v hv hcons hvn
    have hp : Hashable (Key.str k, v) := hhash _ (mem_toItems.2 ⟨k, rfl, hv⟩)
    exact (hashable_iff (p := (Key.str k, v)) rfl hvn).1 hp hcons
  constructor
  · intro k hcons
    rw [leafOf, leafOf, hcommit k hcons, get?_applyWrites _ (nodup_toItems _) hhash, if_pos hcons, lookup_toItems]
    cases hk : pending.get? k with
    | none => exact h.leaves k hcons
    | some v =>
      rw [committedValue, writtenValue]
      split
      · rfl
      · rename_i hvn
        rw [Option.bind_some, Option.bind_some, (hstable k v hk hcons hvn).2]
  · intro k w hw hcons
    rw [hcommit k hcons] at hw
    cases hk : pending.get? k with
    | none =>
      rw [hk] at hw
      exact h.hashable k w hw hcons
    | some v =>
      rw [hk, committedValue] at hw
      split at hw
      · cases hw
      · rename_i hvn
        cases hw
        obtain ⟨hsn, hst⟩ := hstable k v hk hcons hvn
        obtain ⟨d, hd⟩ := hleaf k v hk hcons hvn
        refine ⟨hwrites ((consensusKeys_toItems pending k).2 ⟨hcons, v, hk⟩), hsn, d, ?_⟩
        exact hst.trans hd

theorem Mirrors.congr (h : Mirrors K durable m)
    (heq : ∀ k, isConsensusStateKey k → durable'.get? k = durable.get? k) : Mirrors K durable' m := by
  constructor
  · intro k hcons
    rw [← h.leaves k hcons, leafOf, leafOf, heq k hcons]
  · intro k v hv hcons
    rw [heq k hcons] at hv
    exact h.hashable k v hv hcons

/-- Two logical maps over one store have the same leaves. -/
theorem Mirrors.leafOf_eq {m' : PyDict String Value} (h : Mirrors K durable m) (h' : Mirrors K durable m')
    (hm : Admitted K m) (hm' : Admitted K m') (k : String) : leafOf m k = leafOf m' k := by
  by_cases hcons : isConsensusStateKey k
  · rw [← h.leaves k hcons, h'.leaves k hcons]
  · have hnone : ∀ {m : PyDict String Value}, Admitted K m → leafOf m k = none := by
      intro m hm
      rcases hv : m.get? k with _ | v
      · rw [leafOf, hv]; rfl
      · exact absurd (hm k v hv).1 hcons
    rw [hnone hm, hnone hm']

/-- A rebuild that goes through: the new cache stands for the store. -/
theorem Mirrors.ofItems (hkeys : consensusKeys (toItems durable) ⊆ K)
    (hhash : ∀ p ∈ toItems durable, Hashable p)
    (hvalues : ∀ k v, durable.get? k = some v → v ≠ .none) :
    Mirrors K durable (applyWrites (toItems durable) .empty) := by
  constructor
  · intro k hcons
    rw [leafOf, leafOf, get?_applyWrites _ (nodup_toItems _) hhash, if_pos hcons, lookup_toItems]
    cases hk : durable.get? k with
    | none => rfl
    | some v => rw [writtenValue, if_neg (hvalues k v hk)]
  · intro k v hv hcons
    refine ⟨hkeys ((consensusKeys_toItems durable k).2 ⟨hcons, v, hv⟩), hvalues k v hv, ?_⟩
    exact (hashable_iff (p := (Key.str k, v)) rfl (hvalues k v hv)).1 (hhash _ (mem_toItems.2 ⟨k, rfl, hv⟩)) hcons

/-- A `prepare` that returns has hashed every write. -/
theorem prepareWrites_hashable (writes : List (Key × Value)) (h : (prepareWrites writes c).1 = .ok ()) :
    ∀ p ∈ writes, Hashable p := by
  induction writes generalizing c with
  | nil => intro p hp; cases hp
  | cons q rest ih =>
    obtain ⟨key, v⟩ := q
    intro p hp
    cases key with
    | other t => cases h
    | str k =>
      unfold prepareWrites at h
      by_cases hcons : isConsensusStateKey k
      · simp only [hcons, not_true_eq_false, ↓reduceIte] at h
        cases hd : newLeafHash k v with
        | error e => rw [hd] at h; cases h
        | ok d =>
          rw [hd] at h
          dsimp only at h
          rcases List.mem_cons.1 hp with rfl | hp
          · exact ⟨k, rfl, fun _ => ⟨d, hd⟩⟩
          · split at h <;> exact ih h p hp
      · rw [if_pos (by simpa using hcons)] at h
        rcases List.mem_cons.1 hp with rfl | hp
        · exact ⟨k, rfl, fun h => absurd h hcons⟩
        · exact ih h p hp

theorem prepare_ok {writes : PyDict Key Value} {root : Bytes} (h : (c.prepare writes).1 = .ok root) :
    root = (c.prepare writes).2.rootHash ∧ ∀ p ∈ writes.items, Hashable p := by
  have hprep := prepareWrites_hashable (c := c.rollback) writes.items
  unfold StateRootCache.prepare at h ⊢
  generalize prepareWrites writes.items c.rollback = r at h hprep ⊢
  obtain ⟨_ | u, c'⟩ := r
  · cases h
  · cases h
    exact ⟨rfl, hprep rfl⟩

/-- A cache built over a store with no `None` in it stands for the store. -/
theorem new_mirrors (hK : Set.InjOn hashPriority K) (hkeys : consensusKeys (toItems durable) ⊆ K)
    (hvalues : ∀ k v, durable.get? k = some v → v ≠ .none) (h : StateRootCache.new (toItems durable) = .ok c) :
    Inv K c (.ofItems (keyed durable)) ∧ Mirrors K durable (Logical.ofItems (keyed durable)).committed := by
  have hinv := rebuild_inv hK ⟨.nil, .empty, .empty⟩ (keyed durable) hkeys
  obtain ⟨c', hc', -⟩ := merkleRootFromItems_eq_ok.1 (show merkleRootFromItems (toItems durable) = .ok c.rootHash by
    rw [merkleRootFromItems, h]; rfl)
  obtain ⟨-, hhash, -⟩ := rebuildItems_ok hK (toItems durable) hkeys (Wf.empty (s := .empty)) hc'
  refine ⟨?_, Mirrors.ofItems hkeys hhash hvalues⟩
  unfold StateRootCache.new at h
  rw [show (keyed durable).items = toItems durable from rfl] at hinv
  split at h
  · rename_i heq; cases h; rw [heq] at hinv; exact hinv
  · cases h

/-- A mirrored store can be rebuilt. -/
theorem Mirrors.new (hK : Set.InjOn hashPriority K) (h : Mirrors K durable L.committed) (hinv : Inv K c L) :
    ∃ c', StateRootCache.new (toItems durable) = .ok c' := by
  have hroot := h.root hK (L := { L with current := L.committed }) (hinv.rollback hK)
  rw [computeDriverStateRoot, merkleRootFromItems] at hroot
  rcases hnew : StateRootCache.new (toItems durable) with e | c'
  · rw [hnew] at hroot; cases hroot
  · exact ⟨c', rfl⟩

end Mirror

/-! ### Caches over one committed state -/

/-- The same digests under every key, and the same root. -/
structure SameRoot (c c' : StateRootCache) : Prop where
  leaves : ∀ k, c.leafHashes.get? k = c'.leafHashes.get? k
  root : c.rootHash = c'.rootHash

section Same

variable {K : Set String} {c c' : StateRootCache} {L L' : Logical}

theorem StateRootCache.Inv.sameRoot (h : Inv K c L) (h' : Inv K c' L')
    (hcur : ∀ k, leafOf L.current k = leafOf L'.current k) : SameRoot c c' := by
  have hleaf : ∀ k, c.leafHashes.get? k = c'.leafHashes.get? k := fun k => by
    rw [h.current, h'.current, hcur]
  exact ⟨hleaf, h.wf.rootHash_eq h'.wf hleaf⟩

/-- Writes change the digests alike. -/
theorem leafOf_applyWrites_congr (writes : List (Key × Value)) {m m' : PyDict String Value}
    (h : ∀ k, leafOf m k = leafOf m' k) (k : String) :
    leafOf (applyWrites writes m) k = leafOf (applyWrites writes m') k := by
  induction writes generalizing m m' with
  | nil => exact h k
  | cons p rest ih =>
    obtain ⟨key | t, v⟩ := p
    · unfold applyWrites
      by_cases hcons : isConsensusStateKey key
      · simp only [hcons, not_true_eq_false, ↓reduceIte]
        rcases hd : newLeafHash key v with e | d
        · exact h k
        · refine ih fun k' => ?_
          rw [leafOf_putValue hd, leafOf_putValue hd, h]
      · simp only [hcons]
        exact ih h
    · exact h k

/-- Whether `prepare` raises depends on the writes only. -/
theorem prepareWrites_raises (writes : List (Key × Value)) (c c' : StateRootCache) :
    (prepareWrites writes c).1 = (prepareWrites writes c').1 := by
  induction writes generalizing c c' with
  | nil => rfl
  | cons p rest ih =>
    obtain ⟨key | t, v⟩ := p
    · unfold prepareWrites
      by_cases hcons : isConsensusStateKey key
      · simp only [hcons, not_true_eq_false, ↓reduceIte]
        rcases newLeafHash key v with e | d
        · rfl
        · dsimp only
          split <;> split <;> exact ih _ _
      · simp only [hcons]
        exact ih c c'
    · rfl

theorem prepare_fst_eq (writes : PyDict Key Value) :
    (c.prepare writes).1 = (prepareWrites writes.items c.rollback).1.map fun _ => (c.prepare writes).2.rootHash := by
  unfold StateRootCache.prepare
  rcases prepareWrites writes.items c.rollback with ⟨e | u, c''⟩ <;> rfl

/-- Two caches over one committed state return the same root, or raise the same. -/
theorem prepare_fst_congr (hK : Set.InjOn hashPriority K) (h : Inv K c L) (h' : Inv K c' L')
    (hcom : ∀ k, leafOf L.committed k = leafOf L'.committed k) {writes : PyDict Key Value}
    (hwrites : consensusKeys writes.items ⊆ K) : (c.prepare writes).1 = (c'.prepare writes).1 := by
  have hroot : (c.prepare writes).2.rootHash = (c'.prepare writes).2.rootHash :=
    ((h.prepare hK writes hwrites).sameRoot (h'.prepare hK writes hwrites)
      (leafOf_applyWrites_congr writes.items hcom)).root
  rw [prepare_fst_eq, prepare_fst_eq, hroot, prepareWrites_raises writes.items c.rollback c'.rollback]

end Same

end XianAbci
