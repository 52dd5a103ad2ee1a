import XianAbci.StateRoot

/-!
# The state root follows the logical map

`Logical` is what the cache stands for: the committed consensus map and the map with the staged
writes on top. `CacheInv` ties a cache to it: the treap is canonical (`Treap.Canonical`), its leaves
are the digest map, the digest map is that of the current logical map, and undoing the staged
digests gives that of the committed one. Every operation keeps `CacheInv`, raising operations
included, and two caches over the same logical map have the same treap, hence the same root.

Priorities are only assumed distinct on the keys that occur in the run.
-/

namespace XianAbci

/-- The logical consensus state: as committed, and with the staged writes applied. -/
structure Logical where
  committed : PyDict String Value
  current : PyDict String Value

def putValue (m : PyDict String Value) (key : String) (value : Value) : PyDict String Value :=
  if value = .none then m.erase key else m.set key value

/-- The writes applied in order up to the first one that cannot be hashed; keys outside consensus
are skipped and `None` deletes. -/
def applyWrites : List (Key × Value) → PyDict String Value → PyDict String Value
  | [], m => m
  | (.other _, _) :: _, m => m
  | (.str key, value) :: rest, m =>
    if ¬ isConsensusStateKey key then applyWrites rest m
    else match StateRootCache.newLeafHash key value with
      | .error _ => m
      | .ok _ => applyWrites rest (putValue m key value)

inductive CacheOp
  | rebuild (items : PyDict Key Value)
  | prepare (writes : PyDict Key Value)
  | commit
  | rollback

def Logical.ofItems (items : PyDict Key Value) : Logical :=
  ⟨applyWrites items.items .empty, applyWrites items.items .empty⟩

def Logical.step (L : Logical) : CacheOp → Logical
  | .rebuild items => .ofItems items
  | .prepare writes => { L with current := applyWrites writes.items L.committed }
  | .commit => { L with committed := L.current }
  | .rollback => { L with current := L.committed }

/-- The cache after an operation, with the root `rebuild` and `prepare` return or raise. -/
def StateRootCache.step (c : StateRootCache) : CacheOp → Option (Except PyErr Bytes) × StateRootCache
  | .rebuild items => let r := c.rebuild items.items; (some r.1, r.2)
  | .prepare writes => let r := c.prepare writes; (some r.1, r.2)
  | .commit => (none, c.commit)
  | .rollback => (none, c.rollback)

/-- What is seen after an operation of a run. -/
structure Observed where
  returned : Option (Except PyErr Bytes)
  cache : StateRootCache
  logical : Logical

def observe (c : StateRootCache) (L : Logical) : List CacheOp → List Observed
  | [] => []
  | op :: ops =>
    let r := c.step op
    ⟨r.1, r.2, L.step op⟩ :: observe r.2 (L.step op) ops

/-- What a key holds after a write to it, if there was one. -/
def writtenValue (old : Option Value) : Option Value → Option Value
  | none => old
  | some v => if v = .none then none else some v

/-- The consensus keys among the items. -/
def consensusKeys (items : List (Key × Value)) : Set String :=
  {k | isConsensusStateKey k ∧ Key.str k ∈ items.map Prod.fst}

def CacheOp.keys : CacheOp → Set String
  | .rebuild items => consensusKeys items.items
  | .prepare writes => consensusKeys writes.items
  | .commit => ∅
  | .rollback => ∅

/-- The digest of the value the map holds under `key`. -/
def leafOf (m : PyDict String Value) (key : String) : Option Bytes :=
  (m.get? key).bind fun v => (hashLeaf key v).toOption

/-- Every binding is one the cache takes in, under a key of `K`. -/
def Admitted (K : Set String) (m : PyDict String Value) : Prop :=
  ∀ k v, m.get? k = some v →
    isConsensusStateKey k ∧ v ≠ .none ∧ k ∈ K ∧ ∃ d, hashLeaf k v = .ok d

namespace StateRootCache

/-- The tree is canonical and its leaves are the digest map, over keys of `K`. -/
structure Wf (K : Set String) (c : StateRootCache) : Prop where
  canonical : Treap.Canonical treapHashing c.root
  leaves : ∀ k d, Treap.Leaf k d c.root ↔ c.leafHashes.get? k = some d
  keys : ∀ k d, c.leafHashes.get? k = some d → k ∈ K

/-- The digest of `key` with the staged writes undone. -/
def undone (c : StateRootCache) (key : String) : Option Bytes :=
  (c.stagedOldLeafHashes.get? key).getD (c.leafHashes.get? key)

variable {K : Set String} {c c' : StateRootCache} {k : String} {m : PyDict String Value}

theorem get?_setLeafHash (v : Option Bytes) (k' : String) :
    (c.setLeafHash k v).leafHashes.get? k' = if k' = k then v else c.leafHashes.get? k' := by
  cases v <;> simp [setLeafHash]

@[simp] theorem staged_setLeafHash (v : Option Bytes) :
    (c.setLeafHash k v).stagedOldLeafHashes = c.stagedOldLeafHashes := by
  cases v <;> rfl

namespace Wf

theorem empty : Wf K ⟨.nil, .empty, s⟩ :=
  ⟨.nil, fun _ _ => by simp, fun _ _ h => by simp at h⟩

theorem setLeafHash (hK : Set.InjOn hashPriority K) (h : Wf K c) (hk : k ∈ K) (v : Option Bytes) :
    Wf K (c.setLeafHash k v) := by
  have hp : ∀ a d b e, Treap.Leaf a d c.root → Treap.Leaf b e c.root →
      treapHashing.priority a = treapHashing.priority b → a = b := fun a d b e ha hb hab =>
    hK (h.keys a d ((h.leaves a d).1 ha)) (h.keys b e ((h.leaves b e).1 hb)) hab
  have hpk : ∀ a d, Treap.Leaf a d c.root → treapHashing.priority a = treapHashing.priority k → a = k :=
    fun a d ha hak => hK (h.keys a d ((h.leaves a d).1 ha)) hk hak
  refine ⟨?_, fun a d => ?_, fun a d ha => ?_⟩
  · cases v with
    | none => exact h.canonical.delete k hp
    | some v => exact h.canonical.insertOrUpdate k v hpk
  · rw [get?_setLeafHash]
    cases v with
    | none =>
      rw [show (c.setLeafHash k none).root = Treap.delete treapHashing k c.root from rfl,
        h.canonical.leaf_delete, h.leaves]
      by_cases hak : a = k <;> simp [hak]
    | some v =>
      rw [show (c.setLeafHash k (some v)).root = Treap.insertOrUpdate treapHashing k v c.root from rfl,
        h.canonical.leaf_insertOrUpdate, h.leaves]
      by_cases hak : a = k <;> simp [hak, eq_comm]
  · rw [get?_setLeafHash] at ha
    split at ha
    · rename_i hak; exact hak ▸ hk
    · exact h.keys a d ha

/-- The digest map determines the tree. -/
theorem rootHash_eq (h : Wf K c) (h' : Wf K c') (heq : ∀ k, c.leafHashes.get? k = c'.leafHashes.get? k) :
    c.rootHash = c'.rootHash := by
  have hroot : c.root = c'.root := h.canonical.ext h'.canonical fun k d => by
    rw [h.leaves, h'.leaves, heq]
  rw [rootHash, rootHash, hroot]

theorem restoreLeaves (hK : Set.InjOn hashPriority K) (l : List (String × Option Bytes)) (h : Wf K c)
    (hl : ∀ p ∈ l, p.1 ∈ K) : Wf K (c.restoreLeaves l) := by
  induction l generalizing c with
  | nil => exact h
  | cons p rest ih =>
    exact ih (h.setLeafHash hK (hl p (by simp)) p.2) fun q hq => hl q (by simp [hq])

end Wf

theorem get?_restoreLeaves (l : List (String × Option Bytes)) (hl : (l.map Prod.fst).Nodup) (k : String) :
    (c.restoreLeaves l).leafHashes.get? k = (l.lookup k).getD (c.leafHashes.get? k) := by
  induction l generalizing c with
  | nil => rfl
  | cons p rest ih =>
    obtain ⟨a, v⟩ := p
    simp only [List.map_cons, List.nodup_cons] at hl
    rw [PyDict.lookup_cons_ite]
    show ((c.setLeafHash a v).restoreLeaves rest).leafHashes.get? k = _
    rw [ih hl.2, get?_setLeafHash]
    by_cases hk : k = a
    · subst hk
      simp [PyDict.lookup_eq_none hl.1]
    · simp [hk]

theorem staged_restoreLeaves (l : List (String × Option Bytes)) :
    (c.restoreLeaves l).stagedOldLeafHashes = c.stagedOldLeafHashes := by
  induction l generalizing c with
  | nil => rfl
  | cons p rest ih => exact ih.trans (staged_setLeafHash p.2)

theorem get?_rollback (c : StateRootCache) (k : String) : c.rollback.leafHashes.get? k = c.undone k := by
  have hnd : (c.stagedOldLeafHashes.items.reverse.map Prod.fst).Nodup := by
    rw [List.map_reverse]; exact List.nodup_reverse.2 c.stagedOldLeafHashes.nodup
  show (c.restoreLeaves c.stagedOldLeafHashes.items.reverse).leafHashes.get? k = _
  rw [get?_restoreLeaves _ hnd, PyDict.lookup_reverse_items, undone]

@[simp] theorem staged_rollback (c : StateRootCache) : c.rollback.stagedOldLeafHashes = .empty := rfl

end StateRootCache

open StateRootCache

section LeafOf

variable {K : Set String} {m : PyDict String Value} {k : String} {v : Value}

theorem leafOf_putValue (hv : newLeafHash k v = .ok d) (k' : String) :
    leafOf (putValue m k v) k' = if k' = k then d else leafOf m k' := by
  unfold newLeafHash at hv
  unfold leafOf putValue
  by_cases hn : v = .none
  · simp only [hn, ↓reduceIte, Except.ok.injEq] at hv ⊢
    subst hv
    by_cases hk : k' = k <;> simp [hk]
  · simp only [hn, ↓reduceIte] at hv ⊢
    cases hh : hashLeaf k v with
    | error e => rw [hh] at hv; cases hv
    | ok d' =>
      rw [hh] at hv; cases hv
      by_cases hk : k' = k
      · subst hk; simp [hh, Except.toOption]
      · simp [hk]

theorem Admitted.putValue (h : Admitted K m) (hc : isConsensusStateKey k) (hk : k ∈ K)
    (hv : newLeafHash k v = .ok d) : Admitted K (putValue m k v) := by
  intro k' w hw
  unfold XianAbci.putValue at hw
  by_cases hn : v = .none
  · simp only [hn, ↓reduceIte, PyDict.get?_erase] at hw
    split at hw
    · cases hw
    · exact h k' w hw
  · simp only [hn, ↓reduceIte, PyDict.get?_set] at hw
    split at hw
    · rename_i hkk; cases hw; subst hkk
      refine ⟨hc, hn, hk, ?_⟩
      unfold newLeafHash at hv
      simp only [hn, ↓reduceIte] at hv
      cases hh : hashLeaf k' v with
      | error e => rw [hh] at hv; cases hv
      | ok d' => exact ⟨d', rfl⟩
    · exact h k' w hw

theorem Admitted.applyWrites (items : List (Key × Value)) (hitems : consensusKeys items ⊆ K)
    (h : Admitted K m) : Admitted K (applyWrites items m) := by
  induction items generalizing m with
  | nil => exact h
  | cons p rest ih =>
    obtain ⟨key, v⟩ := p
    have hrest : consensusKeys rest ⊆ K := fun k hk => hitems ⟨hk.1, by simp [hk.2]⟩
    cases key with
    | other t => exact h
    | str k =>
      unfold XianAbci.applyWrites
      by_cases hc : isConsensusStateKey k
      · simp only [hc, not_true_eq_false, ↓reduceIte]
        split
        · exact h
        · rename_i d hd
          exact ih hrest (h.putValue hc (hitems ⟨hc, by simp⟩) hd)
      · simp only [hc]
        exact ih hrest h

end LeafOf

/-! ### The two loops -/

namespace StateRootCache

variable {K : Set String} {c : StateRootCache} {L : Logical} {m : PyDict String Value}

/-- The cache stands for the logical state, all keys being in `K`. -/
structure Inv (K : Set String) (c : StateRootCache) (L : Logical) : Prop where
  wf : Wf K c
  stagedKeys : ∀ k old, c.stagedOldLeafHashes.get? k = some old → k ∈ K
  current : ∀ k, c.leafHashes.get? k = leafOf L.current k
  committed : ∀ k, c.undone k = leafOf L.committed k
  admittedCurrent : Admitted K L.current
  admittedCommitted : Admitted K L.committed

/-- An item that neither loop raises on. -/
def Hashable (p : Key × Value) : Prop :=
  ∃ k, p.1 = .str k ∧ (isConsensusStateKey k → ∃ d, newLeafHash k p.2 = .ok d)

/-- `rebuild`'s loop from a cache over the map `m`, with no key of the items in it. -/
theorem rebuildItems_spec (hK : Set.InjOn hashPriority K) (items : List (Key × Value))
    (hnd : (items.map Prod.fst).Nodup) (hitems : consensusKeys items ⊆ K) (hwf : Wf K c)
    (hc : ∀ k, c.leafHashes.get? k = leafOf m k)
    (hfresh : ∀ k, Key.str k ∈ items.map Prod.fst → m.get? k = none) :
    Wf K (rebuildItems items c).2 ∧
    (∀ k, (rebuildItems items c).2.leafHashes.get? k = leafOf (applyWrites items m) k) ∧
    (rebuildItems items c).2.stagedOldLeafHashes = c.stagedOldLeafHashes ∧
    ((∀ p ∈ items, Hashable p) → (rebuildItems items c).1 = .ok ()) := by
  induction items generalizing c m with
  | nil => exact ⟨hwf, hc, rfl, fun _ => rfl⟩
  | cons p rest ih =>
    obtain ⟨key, v⟩ := p
    have hrest : consensusKeys rest ⊆ K := fun k hk => hitems ⟨hk.1, by simp [hk.2]⟩
    simp only [List.map_cons, List.nodup_cons] at hnd
    cases key with
    | other t =>
      refine ⟨hwf, hc, rfl, fun h => ?_⟩
      obtain ⟨k, hk, -⟩ := h _ (List.mem_cons_self ..)
      cases hk
    | str k =>
      have hnone : leafOf m k = none := by rw [leafOf, hfresh k (by simp)]; rfl
      have hfresh' : ∀ w k', Key.str k' ∈ rest.map Prod.fst → (putValue m k w).get? k' = none := by
        intro w k' hk'
        have hne : k' ≠ k := fun h => hnd.1 (h ▸ hk')
        unfold putValue
        split <;> simp [hne, hfresh k' (by simp [hk'])]
      unfold rebuildItems applyWrites
      by_cases hcons : isConsensusStateKey k
      swap
      · simp only [hcons, Bool.false_eq_true, not_false_eq_true, or_true, ↓reduceIte]
        obtain ⟨h₁, h₂, h₃, h₄⟩ := ih hnd.2 hrest hwf hc fun k' hk' => hfresh k' (by simp [hk'])
        exact ⟨h₁, h₂, h₃, fun h => h₄ fun q hq => h q (by simp [hq])⟩
      have hkK : k ∈ K := hitems ⟨hcons, by simp⟩
      simp only [hcons, not_true_eq_false, or_false, ↓reduceIte]
      by_cases hv : v = .none
      · -- a `None` item is skipped, and deletes a key that is not there
        have hd : newLeafHash k v = .ok none := by simp [newLeafHash, hv]
        simp only [hv, ↓reduceIte]
        rw [hv] at hd
        simp only [hd]
        refine (ih hnd.2 hrest hwf (fun k' => ?_) (hfresh' _)).imp id (.imp id (.imp id fun h₄ h => ?_))
        · rw [leafOf_putValue hd, hc]
          split
          · rename_i h; rw [h, hnone]
          · rfl
        · exact h₄ fun q hq => h q (by simp [hq])
      · have hcontains : c.leafHashes.contains k = false := by
          rw [PyDict.contains, hc, hnone]; rfl
        simp only [hv, ↓reduceIte, hcontains, Bool.false_eq_true]
        cases hh : hashLeaf k v with
        | error e =>
          have hd : newLeafHash k v = .error e := by simp [newLeafHash, hv, hh, Except.map]
          rw [hd]
          refine ⟨hwf, hc, rfl, fun h => ?_⟩
          obtain ⟨k', hk', hok⟩ := h _ (List.mem_cons_self ..)
          cases hk'
          obtain ⟨d, hd'⟩ := hok hcons
          rw [hd] at hd'; cases hd'
        | ok d =>
          have hd : newLeafHash k v = .ok (some d) := by simp [newLeafHash, hv, hh, Except.map]
          simp only [hd]
          refine (ih hnd.2 hrest (hwf.setLeafHash hK hkK (some d)) (fun k' => ?_) (hfresh' v)).imp id
            (.imp id (.imp (fun h₃ => ?_) fun h₄ h => ?_))
          · rw [leafOf_putValue hd, get?_setLeafHash, hc]
          · rw [h₃, staged_setLeafHash]
          · exact h₄ fun q hq => h q (by simp [hq])

/-- `rebuild` starts over: whatever the cache was, it now stands for the given items. -/
theorem rebuild_inv (hK : Set.InjOn hashPriority K) (c : StateRootCache) (items : PyDict Key Value)
    (hitems : consensusKeys items.items ⊆ K) : Inv K (c.rebuild items.items).2 (.ofItems items) := by
  obtain ⟨hwf, hleaf, hstaged, -⟩ := rebuildItems_spec (m := .empty) hK items.items items.nodup hitems
    (Wf.empty (s := c.rollback.stagedOldLeafHashes)) (fun _ => rfl) fun _ _ => rfl
  have heq : (c.rebuild items.items).2 =
      (rebuildItems items.items ⟨.nil, .empty, c.rollback.stagedOldLeafHashes⟩).2 := by
    unfold rebuild
    split <;> rename_i h <;> exact (congrArg Prod.snd h).symm
  have hadm : Admitted K (applyWrites items.items .empty) :=
    Admitted.applyWrites _ hitems fun k v h => by simp at h
  rw [heq]
  refine ⟨hwf, fun k old h => ?_, hleaf, fun k => ?_, hadm, hadm⟩
  · rw [hstaged] at h; simp at h
  · rw [undone, hstaged, hleaf]; rfl

/-- `prepare`'s loop, over writes none of whose keys are staged yet. -/
theorem prepareWrites_inv (hK : Set.InjOn hashPriority K) (writes : List (Key × Value))
    (hnd : (writes.map Prod.fst).Nodup) (hwrites : consensusKeys writes ⊆ K) (h : Inv K c L)
    (hfresh : ∀ k, Key.str k ∈ writes.map Prod.fst → c.stagedOldLeafHashes.get? k = none) :
    Inv K (prepareWrites writes c).2 { L with current := applyWrites writes L.current } := by
  induction writes generalizing c L with
  | nil => exact h
  | cons p rest ih =>
    obtain ⟨key, v⟩ := p
    have hrest : consensusKeys rest ⊆ K := fun k hk => hwrites ⟨hk.1, by simp [hk.2]⟩
    simp only [List.map_cons, List.nodup_cons] at hnd
    cases key with
    | other t => exact h
    | str k =>
      unfold prepareWrites applyWrites
      by_cases hcons : isConsensusStateKey k
      swap
      · simp only [hcons]
        exact ih hnd.2 hrest h fun k' hk' => hfresh k' (by simp [hk'])
      have hkK : k ∈ K := hwrites ⟨hcons, by simp⟩
      simp only [hcons, not_true_eq_false, ↓reduceIte]
      cases hd : newLeafHash k v with
      | error e => exact h
      | ok d =>
        have hput := h.admittedCurrent.putValue hcons hkK hd
        have hleaf : ∀ k', leafOf (putValue L.current k v) k' =
            if k' = k then d else c.leafHashes.get? k' := fun k' => by
          rw [leafOf_putValue hd, h.current]
        dsimp only
        split
        · -- the digest does not change: nothing is staged
          rename_i hsame
          refine ih (L := { L with current := putValue L.current k v }) hnd.2 hrest
            ⟨h.wf, h.stagedKeys, fun k' => ?_, h.committed, hput, h.admittedCommitted⟩
            fun k' hk' => hfresh k' (by simp [hk'])
          rw [hleaf]
          split
          · rename_i hk; rw [hk, hsame]
          · rfl
        · refine ih (L := { L with current := putValue L.current k v }) hnd.2 hrest
            ⟨?_, fun k' old hk' => ?_, fun k' => ?_, fun k' => ?_, hput, h.admittedCommitted⟩
            fun k' hk' => ?_
          · have hwf : Wf K { c with stagedOldLeafHashes := c.stagedOldLeafHashes.set k (c.leafHashes.get? k) } :=
              ⟨h.wf.canonical, h.wf.leaves, h.wf.keys⟩
            exact hwf.setLeafHash hK hkK d
          · rw [staged_setLeafHash, PyDict.get?_set] at hk'
            split at hk'
            · rename_i hkk; exact hkk ▸ hkK
            · exact h.stagedKeys k' old hk'
          · rw [hleaf, get?_setLeafHash]
          · rw [undone, staged_setLeafHash, get?_setLeafHash, PyDict.get?_set, ← h.committed, undone]
            split
            · rename_i hkk; rw [hkk, hfresh k (by simp)]; rfl
            · rfl
          · have hne : k' ≠ k := fun hkk => hnd.1 (hkk ▸ hk')
            rw [staged_setLeafHash, PyDict.get?_set, if_neg hne, hfresh k' (by simp [hk'])]

/-- The root an operation returns is the one the cache then has. -/
theorem step_returned {op : CacheOp} {root : Bytes} (h : (c.step op).1 = some (.ok root)) :
    root = (c.step op).2.rootHash := by
  cases op with
  | rebuild items =>
    simp only [StateRootCache.step, rebuild, Option.some.injEq] at h ⊢
    split at h <;> simp_all
  | prepare writes =>
    simp only [StateRootCache.step, StateRootCache.prepare, Option.some.injEq] at h ⊢
    split at h <;> simp_all
  | commit => cases h
  | rollback => cases h

namespace Inv

theorem rollback (hK : Set.InjOn hashPriority K) (h : Inv K c L) :
    Inv K c.rollback { L with current := L.committed } := by
  have hleaf : ∀ k, c.rollback.leafHashes.get? k = leafOf L.committed k := fun k => by
    rw [get?_rollback, h.committed]
  have hwf := h.wf.restoreLeaves hK c.stagedOldLeafHashes.items.reverse fun p hp =>
    h.stagedKeys p.1 p.2 (PyDict.mem_items_iff.1 (List.mem_reverse.1 hp))
  refine ⟨⟨hwf.canonical, hwf.leaves, hwf.keys⟩, fun k old hk => ?_, hleaf, fun k => ?_,
    h.admittedCommitted, h.admittedCommitted⟩
  · rw [staged_rollback] at hk; simp at hk
  · rw [undone, hleaf]; rfl

theorem commit (h : Inv K c L) : Inv K c.commit { L with committed := L.current } :=
  ⟨⟨h.wf.canonical, h.wf.leaves, h.wf.keys⟩, fun k old hk => by simp [StateRootCache.commit] at hk,
    h.current, fun k => h.current k, h.admittedCurrent, h.admittedCurrent⟩

theorem prepare (hK : Set.InjOn hashPriority K) (writes : PyDict Key Value)
    (hwrites : consensusKeys writes.items ⊆ K) (h : Inv K c L) :
    Inv K (c.prepare writes).2 { L with current := applyWrites writes.items L.committed } := by
  have heq : (c.prepare writes).2 = (prepareWrites writes.items c.rollback).2 := by
    unfold StateRootCache.prepare
    split <;> rename_i h <;> exact (congrArg Prod.snd h).symm
  rw [heq]
  exact prepareWrites_inv hK writes.items writes.nodup hwrites (h.rollback hK) fun k _ => by simp

theorem step (hK : Set.InjOn hashPriority K) (op : CacheOp) (hop : op.keys ⊆ K) (h : Inv K c L) :
    Inv K (c.step op).2 (L.step op) := by
  cases op with
  | rebuild items => exact rebuild_inv hK c items hop
  | prepare writes => exact h.prepare hK writes hop
  | commit => exact h.commit
  | rollback => exact h.rollback hK

theorem observe (hK : Set.InjOn hashPriority K) (ops : List CacheOp) (hops : ∀ op ∈ ops, op.keys ⊆ K)
    (h : Inv K c L) : ∀ o ∈ observe c L ops, Inv K o.cache o.logical := by
  induction ops generalizing c L with
  | nil => intro o ho; simp [XianAbci.observe] at ho
  | cons op ops ih =>
    intro o ho
    have hs := h.step hK op (hops op (by simp))
    rcases List.mem_cons.1 ho with rfl | ho
    · exact hs
    · exact ih (fun op' h' => hops op' (by simp [h'])) hs o ho

end Inv

/-! ### The root of the logical map -/

theorem mem_toItems {k : Key} {v : Value} :
    (k, v) ∈ toItems m ↔ ∃ s, k = .str s ∧ m.get? s = some v := by
  simp only [toItems, List.mem_map, Prod.mk.injEq, Prod.exists]
  constructor
  · rintro ⟨s, w, h, rfl, rfl⟩; exact ⟨s, rfl, PyDict.mem_items_iff.1 h⟩
  · rintro ⟨s, rfl, h⟩; exact ⟨s, v, PyDict.mem_items_iff.2 h, rfl, rfl⟩

theorem nodup_toItems (m : PyDict String Value) : ((toItems m).map Prod.fst).Nodup := by
  have : (toItems m).map Prod.fst = m.keys.map Key.str := by simp [toItems, PyDict.keys]
  rw [this]
  exact m.nodup.map fun a b h => by cases h; rfl

/-- Writes that can all be hashed, each key once: a consensus key holds what was written to it. -/
theorem get?_applyWrites (items : List (Key × Value)) (hnd : (items.map Prod.fst).Nodup)
    (hitems : ∀ p ∈ items, Hashable p) (m : PyDict String Value) (k : String) :
    (applyWrites items m).get? k =
      if isConsensusStateKey k then writtenValue (m.get? k) (items.lookup (Key.str k)) else m.get? k := by
  induction items generalizing m with
  | nil => simp [applyWrites, writtenValue]
  | cons p rest ih =>
    obtain ⟨key, v⟩ := p
    obtain ⟨a, ha, hhash⟩ := hitems _ (List.mem_cons_self ..)
    cases ha
    have hrest : ∀ q ∈ rest, Hashable q := fun q hq => hitems q (by simp [hq])
    simp only [List.map_cons, List.nodup_cons] at hnd
    unfold applyWrites
    rw [PyDict.lookup_cons_ite]
    by_cases hcons : isConsensusStateKey a
    · obtain ⟨d, hd⟩ := hhash hcons
      dsimp only at hd
      simp only [hcons, not_true_eq_false, ↓reduceIte, hd, Key.str.injEq]
      rw [ih hnd.2 hrest]
      by_cases hk : k = a
      · subst hk
        rw [PyDict.lookup_eq_none hnd.1, if_pos hcons, if_pos hcons, if_pos rfl]
        by_cases hv : v = .none <;> simp [putValue, writtenValue, hv]
      · rw [if_neg hk]
        have hput : (putValue m a v).get? k = m.get? k := by
          unfold putValue
          split <;> simp [hk]
        rw [hput]
    · rw [if_pos (by simpa using hcons), ih hnd.2 hrest]
      by_cases hk : k = a
      · rw [hk, if_neg hcons, if_neg hcons]
      · simp [hk]

theorem merkleRootFromItems_eq_ok {items : List (Key × Value)} {root : Bytes} :
    merkleRootFromItems items = .ok root ↔
      ∃ c, rebuildItems items ⟨.nil, .empty, .empty⟩ = (.ok (), c) ∧ c.rootHash = root := by
  unfold merkleRootFromItems StateRootCache.new rebuild
  rw [show ({ (StateRootCache.mk .nil .empty .empty).rollback with root := .nil, leafHashes := .empty } :
    StateRootCache) = ⟨.nil, .empty, .empty⟩ from rfl]
  obtain ⟨_ | u, c'⟩ := rebuildItems items ⟨.nil, .empty, .empty⟩
  · constructor
    · intro h; cases h
    · rintro ⟨c, hc, -⟩; cases hc
  · constructor
    · intro h; exact ⟨c', rfl, Except.ok.inj h⟩
    · rintro ⟨c, hc, hroot⟩; cases hc; exact congrArg Except.ok hroot

/-- A cache has the root that any enumeration of its logical map gives. -/
theorem Inv.merkleRootFromItems (hK : Set.InjOn hashPriority K) (h : Inv K c L) {items : List (Key × Value)}
    (hperm : items.Perm (toItems L.current)) : merkleRootFromItems items = .ok c.rootHash := by
  have hmem : ∀ p ∈ items, p ∈ toItems L.current := fun p hp => hperm.mem_iff.1 hp
  have hnd : (items.map Prod.fst).Nodup := (hperm.map Prod.fst).nodup_iff.2 (nodup_toItems _)
  have hkeys : consensusKeys items ⊆ K := by
    rintro k ⟨-, hk⟩
    obtain ⟨⟨key, v⟩, hp, rfl⟩ := List.mem_map.1 hk
    obtain ⟨s, hs, hsv⟩ := mem_toItems.1 (hmem _ hp)
    cases hs
    exact (h.admittedCurrent k v hsv).2.2.1
  obtain ⟨hwf, hleaf, -, hok⟩ := rebuildItems_spec (m := .empty) hK items hnd hkeys
    (Wf.empty (s := .empty)) (fun _ => rfl) fun _ _ => rfl
  have hhash : ∀ p ∈ items, Hashable p := by
    intro p hp
    obtain ⟨s, hs, hsv⟩ := mem_toItems.1 (hmem _ hp)
    obtain ⟨-, hv, -, d, hd⟩ := h.admittedCurrent s p.2 hsv
    exact ⟨s, hs, fun _ => ⟨some d, by simp [newLeafHash, hv, hd, Except.map]⟩⟩
  have hok := hok hhash
  have hget : ∀ k, (applyWrites items .empty).get? k = L.current.get? k := by
    intro k
    rw [get?_applyWrites items hnd hhash, PyDict.get?_empty]
    have hlookup : items.lookup (Key.str k) = L.current.get? k := by
      refine Option.ext fun v => ?_
      have := PyDict.mem_items_iff (d := ⟨items, hnd⟩) (k := Key.str k) (v := v)
      rw [show PyDict.get? ⟨items, hnd⟩ (Key.str k) = items.lookup (Key.str k) from rfl] at this
      rw [← this, hperm.mem_iff, mem_toItems]
      simp
    rw [hlookup]
    cases hk : L.current.get? k with
    | none => simp [writtenValue]
    | some v =>
      obtain ⟨hcons, hv, -⟩ := h.admittedCurrent k v hk
      rw [if_pos hcons, writtenValue, if_neg hv]
  have hroot := hwf.rootHash_eq h.wf fun k => by
    rw [hleaf, h.current, leafOf, leafOf, hget]
  exact merkleRootFromItems_eq_ok.2 ⟨_, Prod.ext hok rfl, hroot⟩

/-! ### Roots of lists with repeated keys -/

/-- A run of `rebuild`'s loop that goes through: every item was hashed, and the digests are those of
the items with a value. A key outside consensus, or one that holds `None`, may be repeated. -/
theorem rebuildItems_ok (hK : Set.InjOn hashPriority K) (items : List (Key × Value))
    (hitems : consensusKeys items ⊆ K) (hwf : Wf K c) (h : rebuildItems items c = (.ok (), c')) :
    Wf K c' ∧ (∀ p ∈ items, Hashable p) ∧
    ∀ k d, c'.leafHashes.get? k = some d ↔ c.leafHashes.get? k = some d ∨
      (isConsensusStateKey k ∧ ∃ v, (Key.str k, v) ∈ items ∧ v ≠ .none ∧ hashLeaf k v = .ok d) := by
  induction items generalizing c with
  | nil =>
    cases h
    exact ⟨hwf, by simp, fun k d => by simp⟩
  | cons p rest ih =>
    obtain ⟨key, v⟩ := p
    have hrest : consensusKeys rest ⊆ K := fun k hk => hitems ⟨hk.1, by simp [hk.2]⟩
    cases key with
    | other t => cases h
    | str a =>
      unfold rebuildItems at h
      split at h
      · rename_i hskip
        obtain ⟨hwf', hhash, hleaf⟩ := ih hrest hwf h
        refine ⟨hwf', fun q hq => ?_, fun k d => ?_⟩
        · rcases List.mem_cons.1 hq with rfl | hq
          · refine ⟨a, rfl, fun hcons => ⟨none, ?_⟩⟩
            have hv : v = .none := hskip.resolve_right (not_not.2 hcons)
            rw [newLeafHash, if_pos hv]
          · exact hhash q hq
        · rw [hleaf]
          refine or_congr_right (and_congr_right fun hcons => exists_congr fun w => ?_)
          rw [List.mem_cons]
          refine ⟨fun hw => ⟨.inr hw.1, hw.2⟩, fun hw => ⟨hw.1.resolve_left fun heq => ?_, hw.2⟩⟩
          obtain ⟨-, hw⟩ := hw
          cases heq
          exact hskip.elim hw.1 fun hn => hn hcons
      · rename_i hskip
        rw [not_or, not_not] at hskip
        obtain ⟨hv, hcons⟩ := hskip
        have haK : a ∈ K := hitems ⟨hcons, by simp⟩
        split at h
        · cases h
        rename_i hfresh
        have hnone : c.leafHashes.get? a = none := by
          rwa [PyDict.contains_iff, ← PyDict.get?_eq_none_iff] at hfresh
        split at h
        · cases h
        rename_i d₀ hd₀
        obtain ⟨hwf', hhash, hleaf⟩ := ih hrest (hwf.setLeafHash hK haK (some d₀)) h
        refine ⟨hwf', fun q hq => ?_, fun k d => ?_⟩
        · rcases List.mem_cons.1 hq with rfl | hq
          · exact ⟨a, rfl, fun _ => ⟨some d₀, by rw [newLeafHash, if_neg hv, hd₀]; rfl⟩⟩
          · exact hhash q hq
        · rw [hleaf, get?_setLeafHash]
          by_cases hka : k = a
          · subst hka
            rw [if_pos rfl, hnone]
            simp only [hcons, true_and, List.mem_cons, Prod.mk.injEq, Option.some.injEq, reduceCtorEq, false_or]
            constructor
            · rintro (rfl | ⟨w, hw, hw'⟩)
              · exact ⟨v, .inl rfl, hv, hd₀⟩
              · exact ⟨w, .inr hw, hw'⟩
            · rintro ⟨w, rfl | hw, hw'⟩
              · exact .inl (Except.ok.inj (hd₀.symm.trans hw'.2))
              · exact .inr ⟨w, hw, hw'⟩
          · rw [if_neg hka]
            simp [hka]

/-- A map that holds one of the listed values under every listed consensus key, and no other consensus
key, has the root of the list. -/
theorem computeDriverStateRoot_eq {items : List (Key × Value)} {root : Bytes}
    (hK : Set.InjOn hashPriority (consensusKeys items)) (hroot : merkleRootFromItems items = .ok root)
    (hfrom : ∀ k v, m.get? k = some v → isConsensusStateKey k → v ≠ .none ∧ (Key.str k, v) ∈ items)
    (hinto : ∀ k v, isConsensusStateKey k → (Key.str k, v) ∈ items → v ≠ .none → m.get? k ≠ none) :
    computeDriverStateRoot m = .ok root := by
  obtain ⟨c, hc, rfl⟩ := merkleRootFromItems_eq_ok.1 hroot
  have hm : ∀ p ∈ toItems m, ∃ k, p.1 = .str k ∧ m.get? k = some p.2 := fun p hp => mem_toItems.1 hp
  have hkeys : consensusKeys (toItems m) ⊆ consensusKeys items := by
    rintro k ⟨hcons, hk⟩
    obtain ⟨p, hp, hpk⟩ := List.mem_map.1 hk
    obtain ⟨k', hk', hget⟩ := hm p hp
    cases hpk.symm.trans hk'
    exact ⟨hcons, List.mem_map.2 ⟨(Key.str k, p.2), (hfrom k p.2 hget hcons).2, rfl⟩⟩
  obtain ⟨hwf, hhash, hleaf⟩ := rebuildItems_ok hK items subset_rfl (Wf.empty (s := .empty)) hc
  obtain ⟨-, -, -, hok⟩ := rebuildItems_spec (m := .empty) hK (toItems m) (nodup_toItems m) hkeys
    (Wf.empty (s := .empty)) (fun _ => rfl) fun _ _ => rfl
  have hok := hok fun p hp => by
    obtain ⟨k, hk, hget⟩ := hm p hp
    refine ⟨k, hk, fun hcons => ?_⟩
    obtain ⟨k', hk', hd⟩ := hhash _ (hfrom k p.2 hget hcons).2
    cases hk'
    exact hd hcons
  obtain ⟨c', hc'⟩ : ∃ c', rebuildItems (toItems m) ⟨.nil, .empty, .empty⟩ = (.ok (), c') :=
    ⟨_, Prod.ext hok rfl⟩
  obtain ⟨hwf', -, hleaf'⟩ := rebuildItems_ok hK (toItems m) hkeys (Wf.empty (s := .empty)) hc'
  refine merkleRootFromItems_eq_ok.2 ⟨c', hc', hwf'.rootHash_eq hwf fun k => Option.ext fun d => ?_⟩
  rw [hleaf, hleaf']
  refine or_congr_right (and_congr_right fun hcons => ?_)
  constructor
  · rintro ⟨v, hv, hvn, hd⟩
    obtain ⟨k', hk', hget⟩ := hm _ hv
    cases hk'
    exact ⟨v, (hfrom k v hget hcons).2, hvn, hd⟩
  · rintro ⟨v, hv, hvn, hd⟩
    -- the map may hold another listed value, but the list has one digest for the key
    obtain ⟨w, hw⟩ := Option.ne_none_iff_exists'.1 (hinto k v hcons hv hvn)
    obtain ⟨hwn, hwmem⟩ := hfrom k w hw hcons
    obtain ⟨k', hk', hdw⟩ := hhash _ hwmem
    cases hk'
    obtain ⟨d', hd'⟩ := hdw hcons
    have hd' : ∃ d', hashLeaf k w = .ok d' := by
      rw [newLeafHash, if_neg hwn] at hd'
      cases hh : hashLeaf k w with
      | error e => rw [hh] at hd'; cases hd'
      | ok d' => exact ⟨d', rfl⟩
    obtain ⟨d', hd'⟩ := hd'
    have h₁ := (hleaf k d).2 (.inr ⟨hcons, v, hv, hvn, hd⟩)
    have h₂ := (hleaf k d').2 (.inr ⟨hcons, w, hwmem, hwn, hd'⟩)
    cases h₁.symm.trans h₂
    exact ⟨w, mem_toItems.2 ⟨k, rfl, hw⟩, hwn, hd'⟩

end StateRootCache

/-- Every consensus key a run touches. -/
def runKeys (init : PyDict Key Value) (ops : List CacheOp) : Set String :=
  {k | k ∈ consensusKeys init.items ∨ ∃ op ∈ ops, k ∈ op.keys}

/-- The invariant holds in every state of a run. -/
theorem inv_of_run {init : PyDict Key Value} {ops : List CacheOp} {c₀ : StateRootCache}
    (hinit : StateRootCache.new init.items = .ok c₀) (hprio : Set.InjOn hashPriority (runKeys init ops)) :
    ∀ o ∈ ⟨none, c₀, .ofItems init⟩ :: observe c₀ (.ofItems init) ops,
      Inv (runKeys init ops) o.cache o.logical := by
  have h₀ : Inv (runKeys init ops) c₀ (.ofItems init) := by
    have h := rebuild_inv hprio ⟨.nil, .empty, .empty⟩ init fun k hk => Or.inl hk
    unfold StateRootCache.new at hinit
    split at hinit
    · rename_i heq; cases hinit; rw [heq] at h; exact h
    · cases hinit
  intro o ho
  rcases List.mem_cons.1 ho with rfl | ho
  · exact h₀
  · exact h₀.observe hprio ops (fun op hop k hk => Or.inr ⟨op, hop, hk⟩) o ho

/-- After every operation of every run, raising ones included, the root (and the root `prepare`
returned) is the one `merkle_root_from_items` gives the logical map, in whatever order it is listed. -/
theorem root_eq_merkleRootFromItems (init : PyDict Key Value) (ops : List CacheOp) (c₀ : StateRootCache)
    (hinit : StateRootCache.new init.items = .ok c₀) (hprio : Set.InjOn hashPriority (runKeys init ops)) :
    ∀ o ∈ ⟨none, c₀, .ofItems init⟩ :: observe c₀ (.ofItems init) ops,
      (∀ items, items.Perm (toItems o.logical.current) → merkleRootFromItems items = .ok o.cache.rootHash) ∧
      ∀ root, o.returned = some (.ok root) → root = o.cache.rootHash := by
  have hret : ∀ o ∈ observe c₀ (.ofItems init) ops, ∀ root, o.returned = some (.ok root) →
      root = o.cache.rootHash := by
    clear hprio hinit
    generalize Logical.ofItems init = L
    induction ops generalizing c₀ L with
    | nil => intro o ho; simp [observe] at ho
    | cons op ops ih =>
      intro o ho root hroot
      rcases List.mem_cons.1 ho with rfl | ho
      · exact StateRootCache.step_returned hroot
      · exact ih _ _ o ho root hroot
  intro o ho
  refine ⟨fun items hperm => (inv_of_run hinit hprio o ho).merkleRootFromItems hprio hperm, ?_⟩
  rcases List.mem_cons.1 ho with rfl | ho
  · exact fun root h => by cases h
  · exact hret o ho

/-- The run that stages a deletion and an insertion, drops them, and commits an insertion. -/
theorem root_eq_merkleRootFromItems_run :
    let init : PyDict Key Value := ⟨[(.str "a", .int 1)], by decide⟩
    let ops : List CacheOp := [.prepare ⟨[(.str "a", .none), (.str "b", .int 2)], by decide⟩, .rollback,
      .prepare ⟨[(.str "b", .str "x"), (.str "__local", .int 9)], by decide⟩, .commit]
    ∃ c₀, StateRootCache.new init.items = .ok c₀ ∧ (observe c₀ (.ofItems init) ops).length = 4 ∧
      ∀ o ∈ ⟨none, c₀, .ofItems init⟩ :: observe c₀ (.ofItems init) ops,
        (∀ items, items.Perm (toItems o.logical.current) → merkleRootFromItems items = .ok o.cache.rootHash) ∧
        ∀ root, o.returned = some (.ok root) → root = o.cache.rootHash := by
  intro init ops
  have hok : ∃ c₀, StateRootCache.new init.items = .ok c₀ := ⟨_, rfl⟩
  obtain ⟨c₀, hc₀⟩ := hok
  refine ⟨c₀, hc₀, rfl, root_eq_merkleRootFromItems init ops c₀ hc₀ ?_⟩
  have hab : hashPriority "a" ≠ hashPriority "b" := by decide +kernel
  have hkeys : ∀ k ∈ runKeys init ops, k = "a" ∨ k = "b" := by
    rintro k (⟨-, hk⟩ | ⟨op, hop, hk⟩)
    · exact Or.inl (by simpa [init] using hk)
    · simp only [ops, List.mem_cons, List.not_mem_nil, or_false] at hop
      rcases hop with rfl | rfl | rfl | rfl
      · simpa using hk.2
      · exact absurd hk (by simp [CacheOp.keys])
      · obtain ⟨hcons, hk⟩ := hk
        simp only [List.map_cons, List.map_nil, List.mem_cons, Key.str.injEq, List.not_mem_nil, or_false] at hk
        rcases hk with rfl | rfl
        · exact Or.inr rfl
        · exact absurd hcons (by decide +kernel)
      · exact absurd hk (by simp [CacheOp.keys])
  intro k hk k' hk' h
  rcases hkeys k hk with rfl | rfl <;> rcases hkeys k' hk' with rfl | rfl
  · rfl
  · exact absurd h hab
  · exact absurd h.symm hab
  · rfl

end XianAbci
