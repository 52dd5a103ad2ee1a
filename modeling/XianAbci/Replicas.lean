import XianAbci.CommitCrash

/-!
# Replicas

The consensus engine decides one block after another, and each replica finalizes and commits them at its own pace,
with failed Commits, raising blocks, crashes, CheckTx and Query in any order in between. `Tracked` follows each replica
beside one reference node. Whatever FinalizeBlock answers for a block is then the answer of every replica, also when it
is asked again after a crash, and a replica that comes to the block later gets it too (`replicas_agree`).
-/

namespace XianAbci

open StateRootCache

/-- The decided blocks, and for each replica its node, how many of the blocks it has committed and whether it has
finalized the next one. `answers` is what FinalizeBlock has returned so far, each with the place of its block. -/
structure Cluster (ι D : Type) where
  decided : List FinalizeRequest
  node : ι → Node D
  committed : ι → Nat
  opened : ι → Bool
  answers : List (Nat × ResponseFinalizeBlock)

namespace Cluster

variable {ι D : Type}

/-- The blocks a replica has committed. -/
def chain (c : Cluster ι D) (i : ι) : List FinalizeRequest := c.decided.take (c.committed i)

/-- The block it has finalized. -/
def openBlock (c : Cluster ι D) (i : ι) : Option FinalizeRequest :=
  if c.opened i then c.decided[c.committed i]? else none

theorem openBlock_none {c : Cluster ι D} {i : ι} (h : c.opened i = false) : c.openBlock i = none := by
  rw [openBlock, h]
  rfl

/-- New nodes over stores with one content, and nothing decided. -/
structure Started [Driver D] (c : Cluster ι D) (genesis : PyDict String Value) : Prop where
  decided : c.decided = []
  committed : ∀ i, c.committed i = 0
  opened : ∀ i, c.opened i = false
  answers : c.answers = []
  restarted : ∀ i, ∃ n : Node D, restart n = .ok (c.node i) ∧
    ∀ k, (Driver.durable n.driver).get? k = genesis.get? k

variable [DecidableEq ι]

def setNode (c : Cluster ι D) (i : ι) (n : Node D) : Cluster ι D := { c with node := Function.update c.node i n }

def setOpened (c : Cluster ι D) (i : ι) (opened : Bool) : Cluster ι D :=
  { c with opened := Function.update c.opened i opened }

variable {c : Cluster ι D} {i i' : ι} {n : Node D} {opened : Bool}

@[simp] theorem setNode_node : (c.setNode i n).node i = n := Function.update_self ..

@[simp] theorem setOpened_opened : (c.setOpened i opened).opened i = opened := Function.update_self ..

theorem setNode_of_ne (h : i' ≠ i) : (c.setNode i n).node i' = c.node i' := Function.update_of_ne h ..

theorem setOpened_of_ne (h : i' ≠ i) : (c.setOpened i opened).opened i' = c.opened i' := Function.update_of_ne h ..

/-- The flag is as it was. -/
theorem setOpened_same (h : c.opened i = opened) : c.setOpened i opened = c := by
  rw [setOpened, ← h, Function.update_eq_self]

end Cluster

/-- The engine decides a block, or one replica takes a step. A process whose FinalizeBlock raises ends; it comes up
again like one that crashed. -/
inductive ClusterStep (B : Builtins) (H : BlockHooks) {ι D : Type} [DecidableEq ι] [Driver D] (K : Set String)
    (h₀ : Int) : Cluster ι D → Cluster ι D → Prop
  | decide {c : Cluster ι D} {req} : req.height = h₀ + c.decided.length →
      ClusterStep B H K h₀ c { c with decided := c.decided ++ [req] }
  | finalize {c : Cluster ι D} {i req response n'} : c.opened i = false → c.decided[c.committed i]? = some req →
      consensusKeys (toItems (finalizeWrites H (c.node i) req)) ⊆ K →
      finalizeBlock H (c.node i) req = (.ok response, n') →
      ClusterStep B H K h₀ c
        { (c.setNode i n').setOpened i true with answers := (c.committed i, response) :: c.answers }
  | finalizeRaises {c : Cluster ι D} {i req e n' n''} : c.opened i = false → c.decided[c.committed i]? = some req →
      finalizeBlock H (c.node i) req = (.error e, n') → restart n' = .ok n'' → ClusterStep B H K h₀ c (c.setNode i n'')
  | commit {c : Cluster ι D} {i n'} : c.opened i = true → commitBlock B (c.node i) none = (.ok (), n') →
      ClusterStep B H K h₀ c { (c.setNode i n').setOpened i false with
        committed := Function.update c.committed i (c.committed i + 1) }
  | commitFails {c : Cluster ι D} {i e e' n'} : c.opened i = true →
      commitBlock B (c.node i) (some e) = (.error e', n') → ClusterStep B H K h₀ c (c.setNode i n')
  | crash {c : Cluster ι D} {i n'} : restart (c.node i) = .ok n' →
      ClusterStep B H K h₀ c ((c.setNode i n').setOpened i false)
  | checkTx {c : Cluster ι D} {i pendingNonces} :
      ClusterStep B H K h₀ c (c.setNode i (checkTx (c.node i) pendingNonces))
  | query {c : Cluster ι D} {i vmWrites} : ClusterStep B H K h₀ c (c.setNode i (query (c.node i) vmWrites))

/-! ### One replica -/

section Replica

variable {B : Builtins} {H : BlockHooks} {D : Type} [Driver D] {K : Set String} {h₀ : Int} {n₀ n n' n'' : Node D}
  {chain : List FinalizeRequest} {opened : Option FinalizeRequest} {req : FinalizeRequest}

theorem restart_durable (h : restart n = .ok n') : Driver.durable n'.driver = Driver.durable n.driver := by
  unfold restart at h
  cases hcache : StateRootCache.new (toItems (Driver.durable n.driver)) with
  | error e =>
    rw [hcache] at h
    cases h
  | ok cache =>
    rw [hcache] at h
    cases h
    exact Driver.durable_fresh _

theorem Tracked.finalize {response : ResponseFinalizeBlock} (hK : Set.InjOn hashPriority K)
    (h : Tracked B H K h₀ n₀ chain none n) (hheight : req.height = h₀ + chain.length)
    (hkeys : consensusKeys (toItems (finalizeWrites H n req)) ⊆ K) (hfin : finalizeBlock H n req = (.ok response, n')) :
    Tracked B H K h₀ n₀ chain (some req) n' := by
  refine h.sameStore (finalizeBlock_ok hfin).durable fun m hm heq hn => ?_
  obtain ⟨hwrites, m', hfin'⟩ := Resting.finalize_same hK hn hm heq hkeys hfin
  obtain ⟨ho, hroot⟩ := Resting.finalize hK hn hkeys hfin
  obtain ⟨ho', hroot'⟩ := hm.finalize hK (by rw [hwrites]; exact hkeys) hfin'
  rw [hwrites] at ho'
  exact ⟨hheight, _, response, m', ho, hfin', ho', hroot'.symm.trans hroot⟩

/-- Whatever became of a process, the next one is at rest over its store. -/
theorem Tracked.restarted (hK : Set.InjOn hashPriority K) (h : Tracked B H K h₀ n₀ chain opened n)
    (hdur : Driver.durable n'.driver = Driver.durable n.driver) (hrestart : restart n' = .ok n'') :
    Tracked B H K h₀ n₀ chain none n'' := by
  obtain ⟨m, -, -, -, hphase⟩ := h.reference
  obtain ⟨L, hs⟩ := hphase.synced
  obtain ⟨hrest, hdur'⟩ := resting_of_restart hK hrestart (by rw [hdur]; exact hs.mirrors.keys)
    (by rw [hdur]; exact hs.values)
  exact h.sameStore (hdur'.trans hdur) fun _ _ _ _ => hrest

theorem Tracked.commitFails {e e' : PyErr} (h : Tracked B H K h₀ n₀ chain (some req) n)
    (hcommit : commitBlock B n (some e) = (.error e', n')) :
    Tracked B H K h₀ n₀ chain (some req) n' ∧ Driver.durable n'.driver = Driver.durable n.driver ∧
      n'.stateRootCache = n.stateRootCache := by
  obtain ⟨-, -, -, -, -, w, -, -, ho, -⟩ := h.reference
  obtain ⟨_, hn', -, hdur, hcache⟩ := ho.commitFails (B := B) e
  cases hcommit.symm.trans hn'
  refine ⟨h.sameStore hdur fun m _ _ hphase => ?_, hdur, hcache⟩
  obtain ⟨hheight, w, response, m', ho, hfin, ho', hroots⟩ := hphase
  obtain ⟨_, hn', ho'', -, -⟩ := ho.commitFails (B := B) e
  cases hcommit.symm.trans hn'
  exact ⟨hheight, w, response, m', ho'', hfin, ho', by rw [hroots, hcache]⟩

theorem Tracked.alike (h : Tracked B H K h₀ n₀ chain opened n) (ha : Alike n n') :
    Tracked B H K h₀ n₀ chain opened n' :=
  h.sameStore ha.durable fun _ _ _ hphase => hphase.alike ha

/-- The committed store has the root of the finalized block. -/
theorem Tracked.commit_root (hK : Set.InjOn hashPriority K) (hstored : ∀ v, Driver.stored D v = v)
    (h : Tracked B H K h₀ n₀ chain (some req) n) (hcommit : commitBlock B n none = (.ok (), n')) :
    computeDriverStateRoot (Driver.durable n'.driver) = .ok n.stateRootCache.rootHash := by
  obtain ⟨-, -, -, -, -, w, -, -, ho, -⟩ := h.reference
  obtain ⟨_, hn', -, -, hroot⟩ := ho.commit (B := B) hK hstored
  cases hcommit.symm.trans hn'
  exact hroot

end Replica

/-! ### All of them -/

/-- The reference node that starts as `n₀` answers so for the block at place `j`. -/
def ReferenceAnswers (B : Builtins) (H : BlockHooks) {D : Type} [Driver D] (K : Set String) (n₀ : Node D)
    (decided : List FinalizeRequest) (j : Nat) (response : ResponseFinalizeBlock) : Prop :=
  ∃ req m m', decided[j]? = some req ∧ replay B H n₀ (decided.take j) = some m ∧ Resting K m ∧
    consensusKeys (toItems (finalizeWrites H m req)) ⊆ K ∧ finalizeBlock H m req = (.ok response, m')

/-- What holds of the replicas beside the reference node that starts as `n₀`. -/
structure ClusterInv (B : Builtins) (H : BlockHooks) {ι D : Type} [Driver D] (K : Set String) (h₀ : Int) (n₀ : Node D)
    (c : Cluster ι D) : Prop where
  heights : ∀ (j : Nat) (req : FinalizeRequest), c.decided[j]? = some req → req.height = h₀ + j
  bound : ∀ i, c.committed i + (c.opened i).toNat ≤ c.decided.length
  tracked : ∀ i, Tracked B H K h₀ n₀ (c.chain i) (c.openBlock i) (c.node i)
  answered : ∀ j response, (j, response) ∈ c.answers → ReferenceAnswers B H K n₀ c.decided j response
  prepared : ∀ i, c.opened i = true → ∃ response, (c.committed i, response) ∈ c.answers ∧
    response.appHash = (c.node i).stateRootCache.rootHash
  persisted : ∀ i (j : Nat), c.committed i = j + 1 → ∃ response, (j, response) ∈ c.answers ∧
    computeDriverStateRoot (Driver.durable (c.node i).driver) = .ok response.appHash

section Run

variable {B : Builtins} {H : BlockHooks} {ι D : Type} [DecidableEq ι] [Driver D] {K : Set String} {h₀ : Int}
  {n₀ : Node D} {c c' : Cluster ι D} {genesis : PyDict String Value}

namespace ClusterInv

omit [DecidableEq ι] in
theorem chain_length (h : ClusterInv B H K h₀ n₀ c) (i : ι) : (c.chain i).length = c.committed i := by
  have hbound := h.bound i
  rw [Cluster.chain, List.length_take]
  omega

omit [DecidableEq ι] in
/-- The finalized block is there. -/
theorem openBlock_some (h : ClusterInv B H K h₀ n₀ c) {i : ι} (ho : c.opened i = true) :
    ∃ req, c.decided[c.committed i]? = some req ∧ c.openBlock i = some req := by
  have hbound := h.bound i
  rw [ho, Bool.toNat_true] at hbound
  refine ⟨_, List.getElem?_eq_getElem (by omega), ?_⟩
  rw [Cluster.openBlock, ho, if_pos rfl]
  exact List.getElem?_eq_getElem (by omega)

/-- A step of one replica: the others stay as they are, and no answer is forgotten. -/
theorem replica (h : ClusterInv B H K h₀ n₀ c) (i : ι) (hdecided : c'.decided = c.decided)
    (hnode : ∀ i' ≠ i, c'.node i' = c.node i') (hcommitted : ∀ i' ≠ i, c'.committed i' = c.committed i')
    (hopened : ∀ i' ≠ i, c'.opened i' = c.opened i') (hsub : ∀ a ∈ c.answers, a ∈ c'.answers)
    (hbound : c'.committed i + (c'.opened i).toNat ≤ c.decided.length)
    (htracked : Tracked B H K h₀ n₀ (c'.chain i) (c'.openBlock i) (c'.node i))
    (hanswered : ∀ j response, (j, response) ∈ c'.answers → (j, response) ∉ c.answers →
      ReferenceAnswers B H K n₀ c.decided j response)
    (hprepared : c'.opened i = true → ∃ response, (c'.committed i, response) ∈ c'.answers ∧
      response.appHash = (c'.node i).stateRootCache.rootHash)
    (hpersisted : ∀ j : Nat, c'.committed i = j + 1 → ∃ response, (j, response) ∈ c'.answers ∧
      computeDriverStateRoot (Driver.durable (c'.node i).driver) = .ok response.appHash) :
    ClusterInv B H K h₀ n₀ c' := by
  refine ⟨?_, fun i' => ?_, fun i' => ?_, fun j response ha => ?_, fun i' ho => ?_, fun i' j hj => ?_⟩
  · rw [hdecided]
    exact h.heights
  · rw [hdecided]
    by_cases hi : i' = i
    · rw [hi]
      exact hbound
    · rw [hcommitted i' hi, hopened i' hi]
      exact h.bound i'
  · by_cases hi : i' = i
    · rw [hi]
      exact htracked
    · have hsame : c'.chain i' = c.chain i' ∧ c'.openBlock i' = c.openBlock i' := by
        unfold Cluster.chain Cluster.openBlock
        rw [hdecided, hcommitted i' hi, hopened i' hi]
        exact ⟨rfl, rfl⟩
      rw [hsame.1, hsame.2, hnode i' hi]
      exact h.tracked i'
  · rw [hdecided]
    by_cases hold : (j, response) ∈ c.answers
    · exact h.answered j response hold
    · exact hanswered j response ha hold
  · by_cases hi : i' = i
    · rw [hi] at ho ⊢
      exact hprepared ho
    · rw [hopened i' hi] at ho
      obtain ⟨response, ha, hroot⟩ := h.prepared i' ho
      rw [hcommitted i' hi, hnode i' hi]
      exact ⟨response, hsub _ ha, hroot⟩
  · by_cases hi : i' = i
    · rw [hi] at hj ⊢
      exact hpersisted j hj
    · rw [hcommitted i' hi] at hj
      obtain ⟨response, ha, hroot⟩ := h.persisted i' j hj
      rw [hnode i' hi]
      exact ⟨response, hsub _ ha, hroot⟩

/-- A new node of a replica that has committed what it had and keeps its store. -/
theorem setNode (h : ClusterInv B H K h₀ n₀ c) {i : ι} {n' : Node D} (opened : Bool)
    (htracked : Tracked B H K h₀ n₀ (c.chain i) (if opened then c.openBlock i else none) n')
    (hopened : opened = true → c.opened i = true)
    (hdur : Driver.durable n'.driver = Driver.durable (c.node i).driver)
    (hcache : opened = true → n'.stateRootCache = (c.node i).stateRootCache) :
    ClusterInv B H K h₀ n₀ ((c.setNode i n').setOpened i opened) := by
  have hnode : ((c.setNode i n').setOpened i opened).node i = n' := Function.update_self ..
  have hflag : ((c.setNode i n').setOpened i opened).opened i = opened := Function.update_self ..
  refine h.replica i rfl (fun i' hi => Function.update_of_ne hi ..) (fun _ _ => rfl)
    (fun i' hi => Function.update_of_ne hi ..) (fun _ => id) ?_ ?_ (fun j response ha hnew => absurd ha hnew)
    (fun ho => ?_) fun j hj => ?_
  · rw [hflag]
    have hbound := h.bound i
    cases opened with
    | false =>
      rw [Bool.toNat_false, Nat.add_zero]
      exact (Nat.le_add_right _ _).trans hbound
    | true =>
      rw [hopened rfl] at hbound
      exact hbound
  · have hblock : ((c.setNode i n').setOpened i opened).openBlock i = if opened then c.openBlock i else none := by
      unfold Cluster.openBlock
      rw [hflag]
      cases opened with
      | false => rfl
      | true => rw [if_pos rfl, if_pos rfl, hopened rfl, if_pos rfl]; rfl
    rw [hnode, hblock]
    exact htracked
  · rw [hflag] at ho
    rw [hnode, hcache ho]
    exact h.prepared i (hopened ho)
  · rw [hnode, hdur]
    exact h.persisted i j hj

theorem setNode_same (h : ClusterInv B H K h₀ n₀ c) {i : ι} {n' : Node D}
    (htracked : Tracked B H K h₀ n₀ (c.chain i) (c.openBlock i) n')
    (hdur : Driver.durable n'.driver = Driver.durable (c.node i).driver)
    (hcache : n'.stateRootCache = (c.node i).stateRootCache) : ClusterInv B H K h₀ n₀ (c.setNode i n') := by
  have hinv : ClusterInv B H K h₀ n₀ ((c.setNode i n').setOpened i (c.opened i)) := by
    refine h.setNode _ ?_ id hdur fun _ => hcache
    cases ho : c.opened i with
    | false =>
      rw [Cluster.openBlock_none ho] at htracked
      exact htracked
    | true => exact htracked
  rwa [Cluster.setOpened, show (c.setNode i n').opened = c.opened from rfl, Function.update_eq_self] at hinv

omit [DecidableEq ι] in
theorem decide (h : ClusterInv B H K h₀ n₀ c) {req : FinalizeRequest} (hheight : req.height = h₀ + c.decided.length) :
    ClusterInv B H K h₀ n₀ { c with decided := c.decided ++ [req] } := by
  have htake : ∀ j ≤ c.decided.length, (c.decided ++ [req]).take j = c.decided.take j :=
    fun j hj => List.take_append_of_le_length hj
  have hget : ∀ {j : Nat} {r : FinalizeRequest}, c.decided[j]? = some r → (c.decided ++ [req])[j]? = some r := by
    intro j r hr
    rw [List.getElem?_append_left (List.getElem?_eq_some_iff.1 hr).1]
    exact hr
  refine ⟨fun j r hj => ?_, fun i => ?_, fun i => ?_, fun j response ha => ?_, h.prepared, h.persisted⟩
  · rcases Nat.lt_or_ge j c.decided.length with hlt | hge
    · rw [List.getElem?_append_left hlt] at hj
      exact h.heights j r hj
    · rw [List.getElem?_append_right hge] at hj
      obtain ⟨hlt, hr⟩ := List.getElem?_eq_some_iff.1 hj
      rw [List.length_singleton] at hlt
      obtain rfl : j = c.decided.length := by omega
      rw [List.getElem_singleton] at hr
      rw [← hr]
      exact hheight
  · have hbound := h.bound i
    rw [List.length_append, List.length_singleton]
    exact hbound.trans (Nat.le_succ _)
  · have hchain : Cluster.chain { c with decided := c.decided ++ [req] } i = c.chain i :=
      htake _ ((Nat.le_add_right _ _).trans (h.bound i))
    have hblock : Cluster.openBlock { c with decided := c.decided ++ [req] } i = c.openBlock i := by
      cases ho : c.opened i with
      | false => rw [Cluster.openBlock_none ho, Cluster.openBlock, if_neg (ne_true_of_eq_false ho)]
      | true =>
        obtain ⟨r, hr, hopen⟩ := h.openBlock_some ho
        rw [hopen, Cluster.openBlock, if_pos ho]
        exact hget hr
    rw [hchain, hblock]
    exact h.tracked i
  · obtain ⟨r, m, m', hr, hreplay, hrest⟩ := h.answered j response ha
    refine ⟨r, m, m', hget hr, ?_, hrest⟩
    rw [htake j (List.getElem?_eq_some_iff.1 hr).1.le]
    exact hreplay

/-- The reference node finalizes the block too, with the same answer. -/
theorem finalize (hK : Set.InjOn hashPriority K) (h : ClusterInv B H K h₀ n₀ c) {i : ι} {req : FinalizeRequest}
    {response : ResponseFinalizeBlock} {n' : Node D} (ho : c.opened i = false)
    (hreq : c.decided[c.committed i]? = some req)
    (hkeys : consensusKeys (toItems (finalizeWrites H (c.node i) req)) ⊆ K)
    (hfin : finalizeBlock H (c.node i) req = (.ok response, n')) :
    ClusterInv B H K h₀ n₀
      { (c.setNode i n').setOpened i true with answers := (c.committed i, response) :: c.answers } := by
  have ht := h.tracked i
  rw [Cluster.openBlock_none ho] at ht
  obtain ⟨m, hreplay, hm, heq, hphase⟩ := ht.reference
  have hheight : req.height = h₀ + (c.chain i).length := by rw [h.chain_length]; exact h.heights _ _ hreq
  obtain ⟨hwrites, m', hfin'⟩ := Resting.finalize_same hK hphase hm heq hkeys hfin
  obtain ⟨-, hroot⟩ := Resting.finalize hK hphase hkeys hfin
  have hnode : ((c.setNode i n').setOpened i true).node i = n' := Cluster.setNode_node
  refine h.replica i rfl (fun i' hi => Cluster.setNode_of_ne hi) (fun _ _ => rfl)
    (fun i' hi => Cluster.setOpened_of_ne hi) (fun _ => List.mem_cons_of_mem _) ?_ ?_ (fun j r ha hnew => ?_)
    (fun _ => ⟨response, List.mem_cons_self .., ?_⟩) fun j hj => ?_
  · dsimp only
    rw [Cluster.setOpened_opened, Bool.toNat_true]
    exact (List.getElem?_eq_some_iff.1 hreq).1
  · have hblock : ((c.setNode i n').setOpened i true).openBlock i = some req := by
      rw [Cluster.openBlock, Cluster.setOpened_opened, if_pos rfl]
      exact hreq
    have ht' := ht.finalize hK hheight hkeys hfin
    rw [← hblock, ← hnode] at ht'
    exact ht'
  · rcases List.mem_cons.1 ha with heq | hold
    · obtain ⟨rfl, rfl⟩ := Prod.mk.inj heq
      exact ⟨req, m, m', hreq, hreplay, hm, by rw [hwrites]; exact hkeys, hfin'⟩
    · exact absurd hold hnew
  · dsimp only
    rw [hnode]
    exact hroot
  · obtain ⟨r, ha, hr⟩ := h.persisted i j hj
    refine ⟨r, List.mem_cons_of_mem _ ha, ?_⟩
    dsimp only
    rw [hnode, (finalizeBlock_ok hfin).durable]
    exact hr

theorem commit (hK : Set.InjOn hashPriority K) (hstored : ∀ v, Driver.stored D v = v) (h : ClusterInv B H K h₀ n₀ c)
    {i : ι} {n' : Node D} (ho : c.opened i = true) (hcommit : commitBlock B (c.node i) none = (.ok (), n')) :
    ClusterInv B H K h₀ n₀ { (c.setNode i n').setOpened i false with
      committed := Function.update c.committed i (c.committed i + 1) } := by
  have ht := h.tracked i
  obtain ⟨req, hreq, hopen⟩ := h.openBlock_some ho
  rw [hopen] at ht
  obtain ⟨response, ha, hroot⟩ := h.prepared i ho
  have hnode : ((c.setNode i n').setOpened i false).node i = n' := Cluster.setNode_node
  have hflag : ((c.setNode i n').setOpened i false).opened i = false := Cluster.setOpened_opened
  have hcount : Function.update c.committed i (c.committed i + 1) i = c.committed i + 1 := Function.update_self ..
  refine h.replica i rfl (fun i' hi => Cluster.setNode_of_ne hi) (fun i' hi => Function.update_of_ne hi ..)
    (fun i' hi => Cluster.setOpened_of_ne hi) (fun _ => id) ?_ ?_ (fun j r ha hnew => absurd ha hnew)
    (fun hopened => ?_) fun j hj => ?_
  · dsimp only
    rw [hflag, hcount]
    exact (List.getElem?_eq_some_iff.1 hreq).1
  · have hchain : Cluster.chain { (c.setNode i n').setOpened i false with
        committed := Function.update c.committed i (c.committed i + 1) } i = c.chain i ++ [req] := by
      unfold Cluster.chain
      dsimp only
      rw [hcount, List.take_add_one, show ((c.setNode i n').setOpened i false).decided = c.decided from rfl, hreq]
      rfl
    have ht' := ht.commit hK hstored hcommit
    have hblock : Cluster.openBlock { (c.setNode i n').setOpened i false with
        committed := Function.update c.committed i (c.committed i + 1) } i = none := Cluster.openBlock_none hflag
    rw [← hchain, ← hnode] at ht'
    rw [hblock]
    exact ht'
  · dsimp only at hopened
    rw [hflag] at hopened
    cases hopened
  · dsimp only at hj ⊢
    rw [hcount] at hj
    obtain rfl : c.committed i = j := Nat.succ.inj hj
    rw [hnode]
    exact ⟨response, ha, hroot ▸ ht.commit_root hK hstored hcommit⟩

theorem step (hK : Set.InjOn hashPriority K) (hstored : ∀ v, Driver.stored D v = v) (h : ClusterInv B H K h₀ n₀ c)
    (hstep : ClusterStep B H K h₀ c c') : ClusterInv B H K h₀ n₀ c' := by
  cases hstep with
  | decide hheight => exact h.decide hheight
  | finalize ho hreq hkeys hfin => exact h.finalize hK ho hreq hkeys hfin
  | @finalizeRaises i req e n' n'' ho hreq hfin hrestart =>
    have hdur := (finalizeBlock_error hfin).2.1
    have hinv := h.setNode false ((h.tracked i).restarted hK hdur hrestart) (fun h => by cases h)
      ((restart_durable hrestart).trans hdur) fun h => by cases h
    rwa [Cluster.setOpened_same (c := c.setNode i n'') ho] at hinv
  | commit ho hcommit => exact h.commit hK hstored ho hcommit
  | @commitFails i e e' n' ho hcommit =>
    obtain ⟨req, -, hopen⟩ := h.openBlock_some ho
    have ht := h.tracked i
    rw [hopen] at ht
    obtain ⟨ht', hdur, hcache⟩ := ht.commitFails hcommit
    exact h.setNode_same (by rw [hopen]; exact ht') hdur hcache
  | @crash i n' hrestart =>
    exact h.setNode false ((h.tracked i).restarted hK rfl hrestart) (fun h => by cases h)
      (restart_durable hrestart) fun h => by cases h
  | @checkTx i pendingNonces =>
    have ha := alike_checkTx (c.node i) pendingNonces
    exact h.setNode_same ((h.tracked i).alike ha) ha.durable ha.cache
  | @query i vmWrites =>
    have ha := alike_query (c.node i) vmWrites
    exact h.setNode_same ((h.tracked i).alike ha) ha.durable ha.cache

omit [DecidableEq ι] in
/-- The replicas at the beginning. -/
theorem started (hK : Set.InjOn hashPriority K) (hkeys : consensusKeys (toItems genesis) ⊆ K)
    (hvalues : ∀ k v, genesis.get? k = some v → v ≠ .none) (hno : genesis.get? latestBlockKey = none)
    (h : c.Started genesis) (i₀ : ι) : ClusterInv B H K h₀ (c.node i₀) c := by
  have hrest : ∀ i, Resting K (c.node i) ∧ ∀ k, (Driver.durable (c.node i).driver).get? k = genesis.get? k := by
    intro i
    obtain ⟨n, hrestart, hsame⟩ := h.restarted i
    have hkeys' : consensusKeys (toItems (Driver.durable n.driver)) ⊆ K := by
      intro k hk
      rw [consensusKeys_toItems, hsame k] at hk
      exact hkeys ((consensusKeys_toItems genesis k).2 hk)
    obtain ⟨hresting, hdur⟩ := resting_of_restart hK hrestart hkeys' fun k v hv => hvalues k v (hsame k ▸ hv)
    exact ⟨hresting, fun k => by rw [hdur, hsame]⟩
  have hchain : ∀ i, c.chain i = [] := fun i => by rw [Cluster.chain, h.decided, List.take_nil]
  refine ⟨fun j req hj => ?_, fun i => ?_, fun i => ?_, fun j response ha => ?_, fun i ho => ?_, fun i j hj => ?_⟩
  · rw [h.decided] at hj
    cases hj
  · rw [h.committed, h.opened, h.decided]
    rfl
  · rw [hchain, Cluster.openBlock_none (h.opened i)]
    refine ⟨rfl, .inl ⟨rfl, (hrest i).2 _ ▸ hno⟩, c.node i₀, rfl, (hrest i₀).1, fun k => ?_, (hrest i).1⟩
    rw [(hrest i).2, (hrest i₀).2]
  · rw [h.answers] at ha
    cases ha
  · rw [h.opened] at ho
    cases ho
  · rw [h.committed] at hj
    cases hj

end ClusterInv

end Run

end XianAbci
