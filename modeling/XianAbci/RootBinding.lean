import XianAbci.StateRootInv
import XianAbci.Lib.Bytes

/-!
# The root binds the encoded map

The digest of a node is taken of three digests of 32 bytes each behind a prefix of its own, that of a
leaf of two length-prefixed strings. Where SHA-256 does not collide on what a cache hashes, two equal
roots therefore stand for the same keys and the same value bytes: the trees are walked down together,
and only their digests connect them.
-/

namespace XianAbci

open StateRootCache

def leafInput (key : String) (valueBytes : Bytes) : Bytes :=
  leafPrefix ++ lengthPrefixed (encodeStr key) ++ lengthPrefixed valueBytes

def nodeInput (x : Bytes × Bytes × Bytes) : Bytes := nodePrefix ++ x.1 ++ x.2.1 ++ x.2.2

def emptyInput : Bytes := encodeStr (stateRootVersion ++ ":empty")

def priorityInput (key : String) : Bytes := priorityPrefix ++ encodeStr key

/-- What a cache over the map `m`, whose keys came from `K`, has SHA-256 applied to. -/
inductive HashInput (K : Set String) (c : StateRootCache) (m : PyDict String Value) : Bytes → Prop
  | empty : HashInput K c m emptyInput
  | priority {k : String} : k ∈ K → HashInput K c m (priorityInput k)
  | leaf {k : String} {v : Value} {b : Bytes} : m.get? k = some v → encodeAbciJson v = .ok b →
      HashInput K c m (leafInput k b)
  | node {x : Bytes × Bytes × Bytes} : x ∈ Treap.Inputs treapHashing c.root → HashInput K c m (nodeInput x)

/-- The map as the root sees it: the encoded bytes under each key. -/
def encodedAt (m : PyDict String Value) (k : String) : Option Bytes :=
  (m.get? k).bind fun v => (encodeAbciJson v).toOption

/-- The lengths fit in eight bytes; `to_bytes(8, "big")` raises for a longer string. -/
def Fits (m : PyDict String Value) : Prop :=
  ∀ k b, encodedAt m k = some b → (encodeStr k).length < 2 ^ 64 ∧ b.length < 2 ^ 64

/-! ### Unambiguous inputs -/

theorem encodeStr_injective {s t : String} (h : encodeStr s = encodeStr t) : s = t :=
  String.toUTF8_toList_injective h

theorem priorityInput_injective {k k' : String} (h : priorityInput k = priorityInput k') : k = k' :=
  encodeStr_injective (List.append_cancel_left h)

theorem leafInput_injective {k k' : String} {b b' : Bytes} (hk : (encodeStr k).length < 2 ^ 64)
    (hk' : (encodeStr k').length < 2 ^ 64) (hb : b.length < 2 ^ 64) (hb' : b'.length < 2 ^ 64)
    (h : leafInput k b = leafInput k' b') : k = k' ∧ b = b' := by
  simp only [leafInput, lengthPrefixed, List.append_assoc] at h
  have hkeys := List.append_cancel_left h
  rw [← List.append_assoc, ← List.append_assoc (toBytesBig 8 (encodeStr k').length)] at hkeys
  obtain ⟨hkey, hvalue⟩ := lengthPrefix_cancel hk hk' hkeys
  have hnil : toBytesBig 8 b.length ++ b ++ [] = toBytesBig 8 b'.length ++ b' ++ [] := by simpa using hvalue
  exact ⟨encodeStr_injective hkey, (lengthPrefix_cancel hb hb' hnil).1⟩

/-- The three digests of a node. -/
def Digests (x : Bytes × Bytes × Bytes) : Prop := x.1.length = 32 ∧ x.2.1.length = 32 ∧ x.2.2.length = 32

theorem nodeInput_injective {x y : Bytes × Bytes × Bytes} (hx : Digests x) (hy : Digests y)
    (h : nodeInput x = nodeInput y) : x = y := by
  obtain ⟨hx₁, hx₂, -⟩ := hx
  obtain ⟨hy₁, hy₂, -⟩ := hy
  simp only [nodeInput, List.append_assoc] at h
  obtain ⟨hleft, hrest⟩ := List.append_inj (List.append_cancel_left h) (by omega)
  obtain ⟨hleaf, hright⟩ := List.append_inj hrest (by omega)
  exact Prod.ext hleft (Prod.ext hleaf hright)

theorem nodeInput_ne_emptyInput (x : Bytes × Bytes × Bytes) : nodeInput x ≠ emptyInput := by
  intro h
  have hnode : nodePrefix <+: nodeInput x := by
    rw [nodeInput, List.append_assoc, List.append_assoc]
    exact List.prefix_append ..
  rw [h] at hnode
  exact absurd hnode (by decide +kernel)

/-! ### Digests of a cache -/

section Cache

variable {K K' : Set String} {c c' : StateRootCache} {L L' : Logical}

theorem length_subtreeHash {t : TreapNode} (h : Treap.Canonical treapHashing t) :
    (Treap.subtreeHash treapHashing t).length = 32 := by
  cases h with
  | nil => exact length_sha256 _
  | node _ _ _ _ _ hash =>
    show List.length _ = 32
    rw [Treap.subtreeHash, hash]
    exact length_sha256 _

/-- A leaf of the cache is the digest of a key and its encoded bytes. -/
theorem leafOf_eq_some {m : PyDict String Value} {k : String} {d : Bytes} :
    leafOf m k = some d ↔ ∃ b, encodedAt m k = some b ∧ d = sha256 (leafInput k b) := by
  unfold leafOf encodedAt
  rcases m.get? k with _ | v
  · simp
  · rcases hv : encodeAbciJson v with e | b
    · simp [hashLeaf, hv, bind, Except.bind, Except.toOption]
    · simp [hashLeaf, hv, bind, Except.bind, Except.toOption, pure, Except.pure, leafInput, eq_comm]

theorem digests_of_inputs {t : TreapNode} (ht : Treap.Canonical treapHashing t)
    (hleaf : ∀ k d, Treap.Leaf k d t → d.length = 32) {x : Bytes × Bytes × Bytes}
    (hx : x ∈ Treap.Inputs treapHashing t) : Digests x := by
  induction ht with
  | nil => exact absurd hx (Set.notMem_empty x)
  | node hl hr _ _ _ _ ihl ihr =>
    rcases hx with (hx | hx) | hx
    · rw [Set.mem_singleton_iff.1 hx]
      exact ⟨length_subtreeHash hl, hleaf _ _ (.inl ⟨rfl, rfl⟩), length_subtreeHash hr⟩
    · exact ihl (fun k d h => hleaf k d (.inr (.inl h))) hx
    · exact ihr (fun k d h => hleaf k d (.inr (.inr h))) hx

/-- Priorities do not collide where SHA-256 does not. -/
theorem injOn_hashPriority {S : Set Bytes} (hinj : Set.InjOn sha256 S) (hK : ∀ k ∈ K, priorityInput k ∈ S) :
    Set.InjOn hashPriority K := by
  intro k hk k' hk' h
  have hdigest := fromBytesBig_injective ((length_sha256 _).trans (length_sha256 _).symm) h
  exact priorityInput_injective (hinj (hK k hk) (hK k' hk') hdigest)

theorem leaf_digest (h : Inv K c L) {k : String} {d : Bytes} (hleaf : Treap.Leaf k d c.root) :
    ∃ b, encodedAt L.current k = some b ∧ d = sha256 (leafInput k b) := by
  have hk := (h.wf.leaves k d).1 hleaf
  rw [h.current] at hk
  exact leafOf_eq_some.1 hk

theorem hashInput_of_encodedAt {m : PyDict String Value} {k : String} {b : Bytes} (h : encodedAt m k = some b) :
    HashInput K c m (leafInput k b) := by
  obtain ⟨v, hv, hb⟩ := Option.bind_eq_some_iff.1 h
  rcases hencode : encodeAbciJson v with e | b'
  · rw [hencode] at hb; cases hb
  · rw [hencode] at hb
    cases hb
    exact .leaf hv hencode

/-- One direction: what the first map binds, the second binds. -/
theorem encodedAt_of_rootHash (h : Inv K c L) (h' : Inv K' c' L')
    (hinj : Set.InjOn sha256 {x | HashInput K c L.current x ∨ HashInput K' c' L'.current x})
    (hfits : Fits L.current) (hfits' : Fits L'.current) (hroot : c.rootHash = c'.rootHash) {k : String} {b : Bytes}
    (hk : encodedAt L.current k = some b) : encodedAt L'.current k = some b := by
  have hdigest : ∀ {K : Set String} {c : StateRootCache} {L : Logical}, Inv K c L → ∀ k d,
      Treap.Leaf k d c.root → d.length = 32 := by
    intro K c L h k d hleaf
    obtain ⟨_, -, rfl⟩ := leaf_digest h hleaf
    exact length_sha256 _
  have hx := fun x hx => digests_of_inputs (x := x) h.wf.canonical (hdigest h) hx
  have hy := fun x hx => digests_of_inputs (x := x) h'.wf.canonical (hdigest h') hx
  have hleaf : Treap.Leaf k (sha256 (leafInput k b)) c.root := by
    rw [h.wf.leaves, h.current]
    exact leafOf_eq_some.2 ⟨b, hk, rfl⟩
  obtain ⟨k', hleaf'⟩ := h.wf.canonical.leaf_of_rootHash h'.wf.canonical
    (fun x hx' y hy' heq => nodeInput_injective (hx x hx') (hy y hy') (hinj (.inl (.node hx')) (.inr (.node hy')) heq))
    (fun x hx' heq => nodeInput_ne_emptyInput x (hinj
      (hx'.imp (fun hmem => .node hmem) fun hmem => .node hmem) (.inl .empty) heq))
    hroot hleaf
  obtain ⟨b', hb', heq⟩ := leaf_digest h' hleaf'
  have hinput := hinj (.inl (hashInput_of_encodedAt hk)) (.inr (hashInput_of_encodedAt hb')) heq
  obtain ⟨hkfits, hbfits⟩ := hfits k b hk
  obtain ⟨hkfits', hbfits'⟩ := hfits' k' b' hb'
  obtain ⟨rfl, rfl⟩ := leafInput_injective hkfits hkfits' hbfits hbfits' hinput
  exact hb'

end Cache

/-- Two states of any two runs of a cache with the same root are over the same encoded map, provided
SHA-256 has no collision among what the two caches hash. -/
theorem root_binds_encoded_map (init init' : PyDict Key Value) (ops ops' : List CacheOp) (c₀ c₀' : StateRootCache)
    (hinit : StateRootCache.new init.items = .ok c₀) (hinit' : StateRootCache.new init'.items = .ok c₀')
    {o o' : Observed} (ho : o ∈ ⟨none, c₀, .ofItems init⟩ :: observe c₀ (.ofItems init) ops)
    (ho' : o' ∈ ⟨none, c₀', .ofItems init'⟩ :: observe c₀' (.ofItems init') ops')
    (hinj : Set.InjOn sha256 {x | HashInput (runKeys init ops) o.cache o.logical.current x ∨
      HashInput (runKeys init' ops') o'.cache o'.logical.current x})
    (hfits : Fits o.logical.current) (hfits' : Fits o'.logical.current)
    (hroot : o.cache.rootHash = o'.cache.rootHash) (k : String) :
    encodedAt o.logical.current k = encodedAt o'.logical.current k := by
  have h := inv_of_run hinit (injOn_hashPriority hinj fun k hk => .inl (.priority hk)) o ho
  have h' := inv_of_run hinit' (injOn_hashPriority hinj fun k hk => .inr (.priority hk)) o' ho'
  have hinj' : Set.InjOn sha256 {x | HashInput (runKeys init' ops') o'.cache o'.logical.current x ∨
      HashInput (runKeys init ops) o.cache o.logical.current x} :=
    fun x hx y hy heq => hinj hx.symm hy.symm heq
  refine Option.ext fun b => ⟨fun hk => ?_, fun hk => ?_⟩
  · exact encodedAt_of_rootHash h h' hinj hfits hfits' hroot hk
  · exact encodedAt_of_rootHash h' h hinj' hfits' hfits hroot.symm hk

/-! ### One key, given at the start and staged later -/

def oneKey : PyDict Key Value := ⟨[(.str "a", .int 1)], by simp⟩

def oneLeaf : Bytes := sha256 (leafInput "a" [0x31])

def oneKeyRoot : TreapNode := Treap.newNode treapHashing "a" oneLeaf

/-- What a cache over the map `a = 1` hashes. -/
def oneKeyInputs : List Bytes :=
  [emptyInput, priorityInput "a", leafInput "a" [0x31], nodeInput (emptyStateRoot, oneLeaf, emptyStateRoot)]

theorem encode_one : encodeAbciJson (.int 1) = .ok [0x31] := by decide +kernel

theorem hashLeaf_one : hashLeaf "a" (.int 1) = .ok oneLeaf := by
  rw [hashLeaf, encode_one]
  rfl

theorem oneKeyInputs_complete {K : Set String} {c : StateRootCache} {m : PyDict String Value}
    (hK : ∀ k ∈ K, k = "a") (hc : c.root = oneKeyRoot) (hm : m.items = [("a", .int 1)])
    {x : Bytes} (hx : HashInput K c m x) : x ∈ oneKeyInputs := by
  cases hx with
  | empty => simp [oneKeyInputs]
  | priority hk => simp [oneKeyInputs, hK _ hk]
  | leaf hv hb =>
    have hmem := PyDict.mem_items_iff.2 hv
    rw [hm, List.mem_singleton] at hmem
    cases hmem
    rw [encode_one] at hb
    cases hb
    simp [oneKeyInputs]
  | node hx =>
    rw [hc] at hx
    rcases hx with (hx | hx) | hx
    · rw [Set.mem_singleton_iff.1 hx]
      simp [oneKeyInputs, Treap.subtreeHash, treapHashing]
    · exact absurd hx (Set.notMem_empty _)
    · exact absurd hx (Set.notMem_empty _)

theorem new_oneKey : StateRootCache.new oneKey.items = .ok ⟨oneKeyRoot, .ofList [("a", oneLeaf)], .empty⟩ := by
  have hcons : isConsensusStateKey "a" = true := by decide +kernel
  have hskip : ¬ (Value.int 1 = .none ∨ ¬ isConsensusStateKey "a" = true) := by simp [hcons]
  unfold StateRootCache.new rebuild oneKey
  simp only [rebuildItems, if_neg hskip, hashLeaf_one]
  rfl

/-- The state after staging the key on an empty cache. -/
def oneKeyStaged : Observed where
  returned := some (.ok (Treap.subtreeHash treapHashing oneKeyRoot))
  cache := ⟨oneKeyRoot, .ofList [("a", oneLeaf)], .ofList [("a", none)]⟩
  logical := ⟨.empty, (Logical.ofItems oneKey).current⟩

theorem observe_oneKey : observe ⟨.nil, .empty, .empty⟩ (.ofItems .empty) [.prepare oneKey] = [oneKeyStaged] := by
  have hcons : isConsensusStateKey "a" = true := by decide +kernel
  have hnew : newLeafHash "a" (.int 1) = .ok (some oneLeaf) := by
    rw [newLeafHash, if_neg (fun h => by cases h), hashLeaf_one]
    rfl
  have hprepare : StateRootCache.prepare ⟨.nil, .empty, .empty⟩ oneKey =
      (.ok (Treap.subtreeHash treapHashing oneKeyRoot), oneKeyStaged.cache) := by
    unfold StateRootCache.prepare oneKey
    simp only [prepareWrites, hcons, not_true_eq_false, ↓reduceIte, hnew]
    rfl
  rw [observe, StateRootCache.step, hprepare]
  rfl

theorem root_binds_encoded_map_oneKey : ∃ c₀ c₀' o',
    StateRootCache.new oneKey.items = .ok c₀ ∧ StateRootCache.new (PyDict.empty : PyDict Key Value).items = .ok c₀' ∧
    o' ∈ observe c₀' (.ofItems .empty) [.prepare oneKey] ∧ c₀.rootHash = o'.cache.rootHash ∧
    ∀ k, encodedAt (Logical.ofItems oneKey).current k = encodedAt o'.logical.current k := by
  have hcurrent : (Logical.ofItems oneKey).current.items = [("a", .int 1)] := by decide +kernel
  have hkeys : ∀ k ∈ runKeys oneKey [], k = "a" := by
    rintro k (⟨-, hk⟩ | ⟨op, hop, -⟩)
    · simpa [oneKey] using hk
    · cases hop
  have hkeys' : ∀ k ∈ runKeys .empty [.prepare oneKey], k = "a" := by
    rintro k (⟨-, hk⟩ | ⟨op, hop, hk⟩)
    · cases hk
    · rw [List.mem_singleton.1 hop] at hk
      simpa [oneKey] using hk.2
  have hfits : Fits (Logical.ofItems oneKey).current := by
    intro k b hk
    obtain ⟨v, hv, hb⟩ := Option.bind_eq_some_iff.1 hk
    have hmem := PyDict.mem_items_iff.2 hv
    rw [hcurrent, List.mem_singleton] at hmem
    cases hmem
    rw [encode_one] at hb
    cases hb
    decide +kernel
  have hnodup : (oneKeyInputs.map sha256).Nodup := by decide +kernel
  have hstaged : oneKeyStaged ∈ observe ⟨.nil, .empty, .empty⟩ (.ofItems .empty) [.prepare oneKey] := by
    rw [observe_oneKey]
    exact List.mem_singleton_self _
  refine ⟨_, ⟨.nil, .empty, .empty⟩, oneKeyStaged, new_oneKey, rfl, hstaged, rfl, ?_⟩
  refine root_binds_encoded_map oneKey .empty [] [.prepare oneKey] _ _ new_oneKey rfl (List.mem_singleton_self _)
    (List.mem_cons_of_mem _ hstaged) (fun x hx y hy => ?_) hfits hfits rfl
  refine List.inj_on_of_nodup_map hnodup ?_ ?_
  · rcases hx with hx | hx
    · exact oneKeyInputs_complete hkeys rfl hcurrent hx
    · exact oneKeyInputs_complete hkeys' rfl hcurrent hx
  · rcases hy with hy | hy
    · exact oneKeyInputs_complete hkeys rfl hcurrent hy
    · exact oneKeyInputs_complete hkeys' rfl hcurrent hy

end XianAbci
