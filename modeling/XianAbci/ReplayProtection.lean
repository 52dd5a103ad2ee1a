import XianAbci.BlockStages
import XianAbci.Proposal

/-!
# Nonces over a run of blocks

A block's transactions are checked against a tracker that advances with every accepted one, while the
store advances only where execution gave a result. The nonces of a sender lie above the stored one and
increase along the block, so whatever part of them is stored, the stored nonce does not fall below an
executed one. `NonceProgress` says this of a block and of a run; it composes.
-/

namespace XianAbci

/-- A stored nonce as a number; a sender without one is at -1. -/
def nonceNumber : Value → Int
  | .int i => i
  | .bool b => if b then 1 else 0
  | _ => -1

/-- In the order of a list, each sender's nonces increase. -/
def NonceOrder (a b : Tx) : Prop := a.sender = b.sender → nonceNumber a.nonce < nonceNumber b.nonce

def nonceWrite (tx : Tx) : String × Value := (nonceKey tx.sender, tx.nonce)

/-- The transactions of a block that gave a result. -/
def executedTxs : List (Except String Tx) → List (Option TxResult) → List Tx
  | [], _ => []
  | .error _ :: entries, results => executedTxs entries results
  | .ok _ :: entries, [] => executedTxs entries []
  | .ok _ :: entries, none :: results => executedTxs entries results
  | .ok tx :: entries, some _ :: results => tx :: executedTxs entries results

/-! ### Keys -/

theorem nonceKey_injective {a b : String} (h : nonceKey a = nonceKey b) : a = b := by
  have hlist := congrArg String.toList h
  simp only [nonceKey, String.toList_append] at hlist
  exact String.toList_inj.1 (List.append_cancel_left (List.append_cancel_right hlist))

theorem nonceKey_ne {k : String} (sender : String) (hk : ¬ "__n".toList <+: k.toList) : nonceKey sender ≠ k := by
  rintro rfl
  refine hk ?_
  simp only [nonceKey, String.toList_append, List.append_assoc]
  exact List.prefix_append ..

/-! ### Decoding -/

section Decode

variable {B : Builtins} {T : TxDecoder} {cfg : NodeConfig} {totals totals' : BlockTotals} {tx : Tx}

theorem expectedNonce_ok {t : NonceTracker} {sender : String} {expected : Int}
    (h : t.expectedNonce sender = .ok expected) : expected = nonceNumber (t.currentNonce sender) + 1 := by
  unfold NonceTracker.expectedNonce at h
  split at h
  · rename_i hcur; cases h; rw [hcur]; rfl
  · rename_i hcur; cases h; rw [hcur]; rfl
  · rename_i hcur; cases h; rw [hcur]; rfl
  · cases h

theorem Validated.int (h : Validated cfg totals tx totals') : ∃ i, tx.nonce = .int i := by
  obtain ⟨expected, -, hnonce⟩ := h.nonce
  exact ⟨expected, hnonce⟩

/-- The nonce follows the one the tracker has for the sender. -/
theorem Validated.next (h : Validated cfg totals tx totals') :
    nonceNumber tx.nonce = nonceNumber (totals.nonceTracker.currentNonce tx.sender) + 1 := by
  obtain ⟨expected, hexpected, hnonce⟩ := h.nonce
  rw [hnonce]
  exact expectedNonce_ok hexpected

theorem Validated.currentNonce (h : Validated cfg totals tx totals') (sender : String) :
    totals'.nonceTracker.currentNonce sender =
      if sender = tx.sender then tx.nonce else totals.nonceTracker.currentNonce sender := by
  rw [h.tracker]
  unfold NonceTracker.currentNonce
  rw [PyDict.get?_set]
  by_cases heq : sender = tx.sender
  · rw [if_pos heq, if_pos heq]
  · rw [if_neg heq, if_neg heq]

/-- The tracker does not fall. -/
theorem Validated.le (h : Validated cfg totals tx totals') (sender : String) :
    nonceNumber (totals.nonceTracker.currentNonce sender) ≤ nonceNumber (totals'.nonceTracker.currentNonce sender) := by
  rw [h.currentNonce]
  split
  · rename_i heq
    have := h.next
    rw [heq]
    omega
  · exact le_rfl

variable (B T cfg)

/-- One step of the decoding loop: an error, or a transaction that passed. -/
theorem decodeLoop_cons (block : BlockMeta) (totals : BlockTotals) (rawTx : Bytes) (rest : List Bytes) :
    (∃ message, decodeLoop B T cfg block totals (rawTx :: rest) =
      .error message :: decodeLoop B T cfg block totals rest) ∨
    ∃ tx totals', decodeAndValidateTransactionStaticBytes T cfg rawTx = .ok tx ∧ Validated cfg totals tx totals' ∧
      decodeLoop B T cfg block totals (rawTx :: rest) =
        .ok (attachBlockMeta T block tx) :: decodeLoop B T cfg block totals' rest := by
  rw [decodeLoop]
  rcases hdecode : decodeAndValidateTransactionStaticBytes T cfg rawTx with e | tx
  · exact .inl ⟨_, rfl⟩
  · dsimp only
    rcases hvalid : validateInBlock B cfg totals tx with e | totals'
    · exact .inl ⟨_, rfl⟩
    · exact .inr ⟨tx, totals', rfl, validateInBlock_ok hvalid, rfl⟩

/-- What is decoded lies above the tracker, and increases. -/
theorem decodeLoop_nonces (block : BlockMeta) (totals : BlockTotals) (txs : List Bytes) :
    (∀ tx ∈ (decodeLoop B T cfg block totals txs).filterMap Except.toOption,
      nonceNumber (totals.nonceTracker.currentNonce tx.sender) < nonceNumber tx.nonce ∧ ∃ i, tx.nonce = .int i) ∧
    ((decodeLoop B T cfg block totals txs).filterMap Except.toOption).Pairwise NonceOrder := by
  induction txs generalizing totals with
  | nil => exact ⟨fun tx h => (by cases h), .nil⟩
  | cons rawTx rest ih =>
    rcases decodeLoop_cons B T cfg block totals rawTx rest with ⟨message, h⟩ | ⟨tx, totals', -, hvalid, h⟩
    · rw [h]
      exact ih totals
    · have htxs : (decodeLoop B T cfg block totals (rawTx :: rest)).filterMap Except.toOption =
          attachBlockMeta T block tx :: (decodeLoop B T cfg block totals' rest).filterMap Except.toOption := by
        rw [h]; rfl
      rw [htxs]
      obtain ⟨habove, hpairwise⟩ := ih totals'
      have hnext : nonceNumber (attachBlockMeta T block tx).nonce =
        nonceNumber (totals.nonceTracker.currentNonce tx.sender) + 1 := hvalid.next
      refine ⟨?_, List.pairwise_cons.2 ⟨?_, hpairwise⟩⟩
      · rintro tx' hmem
        rcases List.mem_cons.1 hmem with rfl | hmem
        · refine ⟨?_, hvalid.int⟩
          rw [hnext]
          exact lt_add_one _
        · obtain ⟨hlt, hint⟩ := habove tx' hmem
          exact ⟨lt_of_le_of_lt (hvalid.le tx'.sender) hlt, hint⟩
      · intro tx' hmem hsender
        have hlt := (habove tx' hmem).1
        have hsame : tx'.sender = tx.sender := hsender.symm
        rw [hsame, hvalid.currentNonce, if_pos rfl] at hlt
        exact hlt

/-- An accepted entry is the transaction its bytes decode to. -/
theorem decodeLoop_entries (block : BlockMeta) (totals : BlockTotals) (txs : List Bytes) :
    List.Forall₂ (fun rawTx entry => ∀ tx, entry = .ok tx → ∃ decoded,
      decodeAndValidateTransactionStaticBytes T cfg rawTx = .ok decoded ∧ tx = attachBlockMeta T block decoded)
      txs (decodeLoop B T cfg block totals txs) := by
  induction txs generalizing totals with
  | nil => exact .nil
  | cons rawTx rest ih =>
    rcases decodeLoop_cons B T cfg block totals rawTx rest with ⟨message, h⟩ | ⟨decoded, totals', hdecode, -, h⟩
    · rw [h]
      exact .cons (fun tx htx => by cases htx) (ih totals)
    · rw [h]
      exact .cons (fun tx htx => ⟨decoded, hdecode, (Except.ok.inj htx).symm⟩) (ih totals')

end Decode

/-! ### Execution and the stored nonces -/

section Assemble

variable {H : BlockHooks}

theorem executedTxs_sublist (entries : List (Except String Tx)) (results : List (Option TxResult)) :
    (executedTxs entries results).Sublist (entries.filterMap Except.toOption) := by
  induction entries, results using executedTxs.induct with
  | case1 results => exact .slnil
  | case2 message entries results ih => exact ih
  | case3 tx entries ih => exact ih.cons tx
  | case4 tx entries results ih => exact ih.cons tx
  | case5 tx entries result results ih => exact ih.cons_cons tx

/-- Result assembly sets the nonces of the executed transactions and nothing else. -/
theorem assembleTxResults_sets (entries : List (Except String Tx)) (results : List (Option TxResult))
    {view : DriverView} {txResults : List ExecTxResult} {sets : List (String × Value)}
    (hhash : ∀ r, some r ∈ results → r.hash ≠ "")
    (h : assembleTxResults H entries results view = (.ok txResults, sets)) :
    sets = (executedTxs entries results).map nonceWrite := by
  induction entries, results using executedTxs.induct generalizing view txResults sets with
  | case1 results => exact (Prod.mk.inj h).2.symm
  | case2 message entries results ih =>
    obtain ⟨rest, s, s', hrest, hpure, rfl⟩ := BlockM.bind_ok h
    rw [← (Prod.mk.inj hpure).2, List.append_nil]
    exact ih hhash hrest
  | case3 tx entries ih =>
    obtain ⟨rest, s, s', hrest, hpure, rfl⟩ := BlockM.bind_ok h
    rw [← (Prod.mk.inj hpure).2, List.append_nil]
    exact ih (fun r hr => by cases hr) hrest
  | case4 tx entries results ih =>
    obtain ⟨rest, s, s', hrest, hpure, rfl⟩ := BlockM.bind_ok h
    rw [← (Prod.mk.inj hpure).2, List.append_nil]
    exact ih (fun r hr => hhash r (List.mem_cons_of_mem _ hr)) hrest
  | case5 tx entries result results ih =>
    have hresult : result.hash ≠ "" := hhash result (List.mem_cons_self ..)
    unfold assembleTxResults at h
    rw [if_neg hresult] at h
    obtain ⟨_, s₁, s₂, hset, h₁, rfl⟩ := BlockM.bind_ok h
    obtain ⟨data, s₃, s₄, hlift, h₂, rfl⟩ := BlockM.bind_ok h₁
    obtain ⟨rest, s₅, s₆, hrest, hpure, rfl⟩ := BlockM.bind_ok h₂
    rw [← (Prod.mk.inj hset).2, ← (Prod.mk.inj hlift).2, ← (Prod.mk.inj hpure).2, List.append_nil, List.nil_append,
      ih (fun r hr => hhash r (List.mem_cons_of_mem _ hr)) hrest]
    rfl

/-- The last nonce set for a sender is that of its last transaction, the highest. -/
theorem lookup_nonceWrites (txs : List Tx) (horder : txs.Pairwise NonceOrder) (sender : String) :
    ((txs.map nonceWrite).reverse.lookup (nonceKey sender) = none ∧ ∀ tx ∈ txs, tx.sender ≠ sender) ∨
    ∃ last ∈ txs, last.sender = sender ∧ (txs.map nonceWrite).reverse.lookup (nonceKey sender) = some last.nonce ∧
      ∀ tx ∈ txs, tx.sender = sender → nonceNumber tx.nonce ≤ nonceNumber last.nonce := by
  induction txs with
  | nil => exact .inl ⟨rfl, fun tx h => by cases h⟩
  | cons head rest ih =>
    obtain ⟨hhead, hrest⟩ := List.pairwise_cons.1 horder
    rw [List.map_cons, List.reverse_cons, List.lookup_append]
    rcases ih hrest with ⟨hnone, hother⟩ | ⟨last, hlast, hsender, hsome, hmax⟩
    · rw [hnone, Option.none_or, nonceWrite, PyDict.lookup_cons_ite]
      by_cases heq : head.sender = sender
      · refine .inr ⟨head, List.mem_cons_self .., heq, by rw [if_pos (congrArg nonceKey heq.symm)], fun tx htx hs => ?_⟩
        rcases List.mem_cons.1 htx with rfl | htx
        · exact le_rfl
        · exact absurd hs (hother tx htx)
      · refine .inl ⟨if_neg fun hkey => heq (nonceKey_injective hkey).symm, fun tx htx => ?_⟩
        rcases List.mem_cons.1 htx with rfl | htx
        · exact heq
        · exact hother tx htx
    · refine .inr ⟨last, List.mem_cons_of_mem _ hlast, hsender, by rw [hsome, Option.some_or], fun tx htx hs => ?_⟩
      rcases List.mem_cons.1 htx with rfl | htx
      · exact (hhead last hlast (hs.trans hsender.symm)).le
      · exact hmax tx htx hs

end Assemble

/-! ### Blocks and runs -/

section Runs

variable (B : Builtins) (T : TxDecoder) (cfg : NodeConfig) (H : BlockHooks) {D : Type} [Driver D]

/-- The stages set no nonce besides those of the results, and a result carries its transaction's hash. -/
structure LeavesNonces : Prop where
  execute : ∀ txs view sender, nonceKey sender ∉ (H.executeTransactions txs view).2.map Prod.fst
  evidence : ∀ req view sender, nonceKey sender ∉ (H.applyEvidencePenalties req view).2.map Prod.fst
  rebalance : ∀ height view sender, nonceKey sender ∉ (H.runEpochRebalance height view).2.map Prod.fst
  validators : ∀ height view sender, nonceKey sender ∉ (H.buildValidatorUpdates height view).2.map Prod.fst
  patches : ∀ block view sender, nonceKey sender ∉ (H.applyPatchesForBlock block view).2.map Prod.fst
  hash : ∀ txs view results sets, (∀ tx ∈ txs, tx.hash ≠ "") →
    H.executeTransactions txs view = (.ok results, sets) → ∀ r, some r ∈ results → r.hash ≠ ""

/-- The transactions that give a result in a block. -/
def executedIn (n : Node D) (req : FinalizeRequest) : List Tx :=
  match (H.executeTransactions (decodedTxs H req (driverView n.driver)) (driverView n.driver)).1 with
  | .error _ => []
  | .ok results => executedTxs (H.decodeBlockTransactions req (driverView n.driver).current) results

/-- The node after some blocks, and the transactions that gave a result in them. -/
def runBlocks (n : Node D) : List FinalizeRequest → Option (Node D × List Tx)
  | [] => some (n, [])
  | req :: chain => do
    let n' ← finalizeAndCommit B H n req
    let (final, txs) ← runBlocks n' chain
    return (final, executedIn H n req ++ txs)

def storedNonce (n : Node D) (sender : String) : Value := (driverView n.driver).committed (nonceKey sender)

/-- From `n` to `n'` exactly these transactions gave a result: above the nonces stored in `n`, at most
those stored in `n'`. -/
structure NonceProgress (n n' : Node D) (txs : List Tx) : Prop where
  stored : ∀ sender, nonceNumber (storedNonce n sender) ≤ nonceNumber (storedNonce n' sender)
  above : ∀ tx ∈ txs, nonceNumber (storedNonce n tx.sender) < nonceNumber tx.nonce
  below : ∀ tx ∈ txs, nonceNumber tx.nonce ≤ nonceNumber (storedNonce n' tx.sender)
  increasing : txs.Pairwise NonceOrder

theorem NonceProgress.trans {n₁ n₂ n₃ : Node D} {txs txs' : List Tx} (h : NonceProgress n₁ n₂ txs)
    (h' : NonceProgress n₂ n₃ txs') : NonceProgress n₁ n₃ (txs ++ txs') where
  stored sender := (h.stored sender).trans (h'.stored sender)
  above tx htx := by
    rcases List.mem_append.1 htx with htx | htx
    · exact h.above tx htx
    · exact lt_of_le_of_lt (h.stored tx.sender) (h'.above tx htx)
  below tx htx := by
    rcases List.mem_append.1 htx with htx | htx
    · exact (h.below tx htx).trans (h'.stored tx.sender)
    · exact h'.below tx htx
  increasing := by
    refine List.pairwise_append.2 ⟨h.increasing, h'.increasing, fun a ha b hb hsender => ?_⟩
    have hbelow := h.below a ha
    rw [hsender] at hbelow
    exact lt_of_le_of_lt hbelow (h'.above b hb)

variable {B T cfg H} {n n' : Node D} {req : FinalizeRequest}

theorem CommittedBlock.executedIn_eq (c : CommittedBlock H n req n') :
    executedIn H n req = executedTxs (H.decodeBlockTransactions req (driverView n.driver).current) c.results := by
  rw [executedIn, c.stages.execute]

/-- Under a nonce key the store reads what result assembly set last. -/
theorem CommittedBlock.nonce_lookup (hH : LeavesNonces H) (c : CommittedBlock H n req n') (sender : String) :
    c.sets.all.reverse.lookup (nonceKey sender) = c.sets.nonces.reverse.lookup (nonceKey sender) := by
  have hnone : ∀ {sets : List (String × Value)}, nonceKey sender ∉ sets.map Prod.fst →
      sets.reverse.lookup (nonceKey sender) = none := fun h =>
    PyDict.lookup_eq_none (by rw [List.map_reverse, List.mem_reverse]; exact h)
  obtain ⟨patchHash, hpatches⟩ := c.stages.patches
  have hexecute := hnone (congrArg Prod.snd c.stages.execute ▸ hH.execute _ _ sender)
  have hevidence := hnone (congrArg Prod.snd c.stages.evidence ▸ hH.evidence _ _ sender)
  have hrebalance := hnone (congrArg Prod.snd c.stages.rebalance ▸ hH.rebalance _ _ sender)
  have hvalidators := hnone (congrArg Prod.snd c.stages.validators ▸ hH.validators _ _ sender)
  have hpatch := hnone (congrArg Prod.snd hpatches ▸ hH.patches _ _ sender)
  simp only [StageSets.all, StageSets.beforeValidators, List.reverse_append, List.lookup_append] at *
  rw [hexecute, hevidence, hrebalance, hvalidators, hpatch]
  simp

section Block

variable (hdecode : H.decodeBlockTransactions = decodeBlockTransactions B T cfg) (hH : LeavesNonces H)
  (hhash : ∀ block tx, T.hash block tx ≠ "") (hstored : ∀ i, Driver.stored D (.int i) = .int i)

include hdecode in
theorem decodedTxs_eq : decodedTxs H req (driverView n.driver) =
    (decodeLoop B T cfg (blockMeta req) (.start (driverView n.driver).current) req.txs).filterMap
      Except.toOption := by
  rw [decodedTxs, hdecode]
  rfl

include hdecode hhash in
/-- Every transaction that reaches execution has a hash. -/
theorem hash_of_decoded {tx : Tx} (h : tx ∈ decodedTxs H req (driverView n.driver)) : tx.hash ≠ "" := by
  rw [decodedTxs_eq hdecode, List.mem_filterMap] at h
  obtain ⟨entry, hentry, hok⟩ := h
  have hentries := decodeLoop_entries B T cfg (blockMeta req)
    (.start (driverView n.driver).current) req.txs
  obtain ⟨i, hi, rfl⟩ := List.mem_iff_getElem.1 hentry
  rcases hget : (decodeLoop B T cfg (blockMeta req) (.start (driverView n.driver).current) req.txs)[i] with e | tx'
  · rw [hget] at hok; cases hok
  · rw [hget] at hok
    obtain rfl := Option.some.inj hok
    obtain ⟨decoded, -, rfl⟩ := hentries.get (by rw [hentries.length_eq]; exact hi) hi tx' hget
    exact hhash (blockMeta req) decoded

include hdecode hH hhash hstored

theorem CommittedBlock.nonceProgress (hpend : Driver.pending n.driver = .empty) (c : CommittedBlock H n req n') :
    NonceProgress n n' (executedIn H n req) := by
  have hsublist : (executedIn H n req).Sublist (decodedTxs H req (driverView n.driver)) := by
    rw [c.executedIn_eq]
    exact executedTxs_sublist _ _
  obtain ⟨hdecoded, hpairwise⟩ := decodeLoop_nonces B T cfg (blockMeta req)
    (.start (driverView n.driver).current) req.txs
  rw [← decodedTxs_eq hdecode] at hdecoded hpairwise
  have hincreasing : (executedIn H n req).Pairwise NonceOrder := hpairwise.sublist hsublist
  have habove : ∀ tx ∈ executedIn H n req, nonceNumber (storedNonce n tx.sender) < nonceNumber tx.nonce := by
    intro tx htx
    have hlt := (hdecoded tx (hsublist.subset htx)).1
    rw [driverView_current hpend] at hlt
    exact hlt
  have hsets : c.sets.nonces = (executedIn H n req).map nonceWrite := by
    rw [c.executedIn_eq]
    refine assembleTxResults_sets _ _ ?_ c.stages.assemble
    exact hH.hash _ _ _ _ (fun tx htx => hash_of_decoded hdecode hhash htx) c.stages.execute
  have hread : ∀ sender, storedNonce n' sender = (committedValue (Driver.stored D)
      ((Driver.durable n.driver).get? (nonceKey sender))
      (((executedIn H n req).map nonceWrite).reverse.lookup (nonceKey sender))).getD .none := by
    intro sender
    show ((Driver.durable n'.driver).get? (nonceKey sender)).getD .none = _
    rw [c.durable, if_neg (nonceKey_ne sender (by decide +kernel)), c.nonce_lookup hH, hsets]
  -- a sender's stored nonce is that of its last executed transaction, if it has one
  have hcases : ∀ sender,
      (storedNonce n' sender = storedNonce n sender ∧ ∀ tx ∈ executedIn H n req, tx.sender ≠ sender) ∨
      ∃ last ∈ executedIn H n req, last.sender = sender ∧ storedNonce n' sender = last.nonce ∧
        ∀ tx ∈ executedIn H n req, tx.sender = sender → nonceNumber tx.nonce ≤ nonceNumber last.nonce := by
    intro sender
    rw [hread]
    rcases lookup_nonceWrites _ hincreasing sender with ⟨hnone, hother⟩ | ⟨last, hlast, hsender, hsome, hmax⟩
    · refine .inl ⟨?_, hother⟩
      rw [hnone]
      rfl
    · refine .inr ⟨last, hlast, hsender, ?_, hmax⟩
      obtain ⟨i, hi⟩ := (hdecoded last (hsublist.subset hlast)).2
      rw [hsome, hi, committedValue, if_neg (fun h => by cases h), hstored]
      rfl
  refine ⟨fun sender => ?_, habove, fun tx htx => ?_, hincreasing⟩
  · rcases hcases sender with ⟨hsame, -⟩ | ⟨last, hlast, hsender, hnonce, -⟩
    · rw [hsame]
    · have hlt := habove last hlast
      rw [hsender] at hlt
      rw [hnonce]
      exact hlt.le
  · rcases hcases tx.sender with ⟨-, hother⟩ | ⟨last, -, -, hnonce, hmax⟩
    · exact absurd rfl (hother tx htx)
    · rw [hnonce]
      exact hmax tx htx rfl

theorem runBlocks_progress (chain : List FinalizeRequest) {txs : List Tx}
    (hpend : Driver.pending n.driver = .empty) (hrun : runBlocks B H n chain = some (n', txs)) :
    NonceProgress n n' txs ∧ Driver.pending n'.driver = .empty := by
  induction chain generalizing n txs with
  | nil =>
    cases hrun
    exact ⟨⟨fun _ => le_rfl, fun tx h => (by cases h), fun tx h => (by cases h), .nil⟩, hpend⟩
  | cons req chain ih =>
    simp only [runBlocks, bind, Option.bind_eq_some_iff] at hrun
    obtain ⟨n₁, hblock, ⟨final, rest⟩, hrest, heq⟩ := hrun
    cases heq
    obtain ⟨c, -⟩ := finalizeAndCommit_spec hpend hblock
    obtain ⟨hprogress, hpend'⟩ := ih c.pending hrest
    exact ⟨(c.nonceProgress hdecode hH hhash hstored hpend).trans hprogress, hpend'⟩

omit hdecode hH hhash hstored in
theorem runBlocks_append (before : List FinalizeRequest) {after : List FinalizeRequest} {m : Node D} {txs mid : List Tx}
    (hbefore : runBlocks B H n before = some (m, mid)) (hrun : runBlocks B H n (before ++ after) = some (n', txs)) :
    ∃ rest, runBlocks B H m after = some (n', rest) ∧ txs = mid ++ rest := by
  induction before generalizing n txs mid with
  | nil =>
    cases hbefore
    exact ⟨txs, hrun, rfl⟩
  | cons req before ih =>
    simp only [List.cons_append, runBlocks, bind, Option.bind_eq_some_iff] at hbefore hrun
    obtain ⟨n₁, hblock, ⟨final, rest⟩, hrest, heq⟩ := hbefore
    cases heq
    obtain ⟨n₂, hblock', ⟨final', rest'⟩, hrest', heq⟩ := hrun
    cases heq
    obtain rfl : n₁ = n₂ := Option.some.inj (hblock.symm.trans hblock')
    obtain ⟨tail, htail, rfl⟩ := ih hrest hrest'
    exact ⟨tail, htail, by rw [List.append_assoc]⟩

omit hdecode hH hhash hstored in
theorem length_le_one {txs : List Tx} (h : txs.Pairwise NonceOrder) (hno : ∀ a ∈ txs, ∀ b ∈ txs, ¬ NonceOrder a b) :
    txs.length ≤ 1 := by
  match txs with
  | [] => exact Nat.zero_le 1
  | [_] => exact le_rfl
  | a :: b :: rest => exact absurd ((List.pairwise_cons.1 h).1 b (by simp)) (hno a (by simp) b (by simp))

/-- No nonce of a sender gives a result twice, results of one sender come in increasing order, and the
stored nonces never decrease. -/
theorem nonces_executed_once (chain : List FinalizeRequest) {txs : List Tx} (hpend : Driver.pending n.driver = .empty)
    (hrun : runBlocks B H n chain = some (n', txs)) :
    (∀ sender nonce, (txs.filter fun tx => tx.sender = sender ∧ tx.nonce = nonce).length ≤ 1) ∧
    txs.Pairwise NonceOrder ∧
    ∀ before after m mid, chain = before ++ after → runBlocks B H n before = some (m, mid) →
      ∀ sender, nonceNumber (storedNonce m sender) ≤ nonceNumber (storedNonce n' sender) := by
  obtain ⟨hprogress, -⟩ := runBlocks_progress hdecode hH hhash hstored chain hpend hrun
  refine ⟨fun sender nonce => ?_, hprogress.increasing, fun before after m mid hchain hbefore sender => ?_⟩
  · refine length_le_one (hprogress.increasing.filter _) fun a ha b hb hlt => ?_
    obtain ⟨hsa, hna⟩ := of_decide_eq_true (List.mem_filter.1 ha).2
    obtain ⟨hsb, hnb⟩ := of_decide_eq_true (List.mem_filter.1 hb).2
    have hself := hlt (hsa.trans hsb.symm)
    rw [hna, hnb] at hself
    exact lt_irrefl _ hself
  · subst hchain
    obtain ⟨-, hpend'⟩ := runBlocks_progress hdecode hH hhash hstored before hpend hbefore
    obtain ⟨rest, hafter, -⟩ := runBlocks_append before hbefore hrun
    exact (runBlocks_progress hdecode hH hhash hstored after hpend' hafter).1.stored sender

end Block

end Runs

/-! ### Serial execution -/

section Serial

variable {E : Decimals} {R : Runtime} {policy : TxFeePolicy} {rewardsHandler : Bool} {tx : Tx}

/-- The VM writes no nonce. -/
def VmLeavesNonces (R : Runtime) : Prop :=
  ∀ call s output, R.executeVmContract call s = .ok output → ∀ sender, nonceKey sender ∉ output.writes.keys

theorem nonceKey_ne_currency {k : String} (sender : String) (hk : "cu".toList <+: k.toList) : nonceKey sender ≠ k := by
  refine nonceKey_ne sender fun hn => ?_
  have hprefix := List.prefix_of_prefix_length_le hk hn (by decide)
  exact absurd hprefix (by decide +kernel)

theorem prefix_balancesKey (sender : String) : "cu".toList <+: (balancesKey sender).toList := by
  have hprefix : "cu".toList <+: ("currency" ++ indexSeparator ++ "balances").toList := by decide +kernel
  unfold balancesKey makeKey
  rw [List.foldl_cons, List.foldl_nil, String.toList_append, String.toList_append]
  exact hprefix.trans ((List.prefix_append ..).trans (List.prefix_append ..))

theorem mem_keys_update {d : PyDict String Value} {l : List (String × Value)} {k : String}
    (h : k ∈ (d.update l).keys) : k ∈ l.map Prod.fst ∨ k ∈ d.keys := by
  obtain ⟨v, hv⟩ := PyDict.mem_keys_iff.1 h
  by_cases hmem : k ∈ l.map Prod.fst
  · exact .inl hmem
  · rw [PyDict.get?_update, PyDict.lookup_eq_none (by simpa using hmem), Option.none_or] at hv
    exact .inr (PyDict.mem_keys_iff.2 ⟨v, hv⟩)

/-- Metering writes a balance. -/
theorem vmMeteringWrites_keys {sender : String} {chi : Int} {cost : Value} {base writes : PyDict String Value}
    {s : String → Value} (h : (vmMeteringWrites E sender chi cost base).run s = .ok writes) (sender' : String) :
    nonceKey sender' ∉ writes.keys := by
  by_cases hchi : chi ≤ 0
  · rw [vmMeteringWrites, if_pos hchi] at h
    cases h
    exact fun hk => by cases hk
  · obtain ⟨balance, paid, -, -, rfl⟩ := vmMeteringWrites_run (by omega) h
    intro hk
    obtain ⟨v, hv⟩ := PyDict.mem_keys_iff.1 hk
    rw [PyDict.get?_ofList, List.reverse_singleton, PyDict.lookup_cons_ite,
      if_neg (nonceKey_ne_currency sender' (prefix_balancesKey sender))] at hv
    cases hv

theorem executeTx_keys (hR : VmLeavesNonces R) {cost : Value} {s : String → Value} {output : VmOutput}
    (h : executeTx E R policy tx cost s = .ok output) (sender : String) : nonceKey sender ∉ output.writes.keys := by
  simp only [executeTx, executeVm, bind_eq_ok] at h
  obtain ⟨vm, ⟨_, -, hvm⟩, writes, hwrites, h⟩ := h
  cases h
  have hvmKeys : nonceKey sender ∉ vm.writes.keys := by
    split at hvm
    · cases hvm
      exact fun hk => by cases hk
    · exact hR _ _ _ hvm sender
  unfold mergedWrites at hwrites
  split at hwrites
  · simp only [ReadM.run_bind, ReadM.run_pure, bind_eq_ok] at hwrites
    obtain ⟨metering, hmetering, hwrites⟩ := hwrites
    cases hwrites
    intro hk
    rcases mem_keys_update hk with hk | hk
    · exact vmMeteringWrites_keys hmetering sender hk
    · exact hvmKeys hk
  · cases hwrites
    exact hvmKeys

theorem runTx_keys (hR : VmLeavesNonces R) {cost : Value} {s : String → Value} {outcome : TxOutcome}
    (h : runTx E R policy rewardsHandler tx cost s = .ok outcome) (sender : String) :
    nonceKey sender ∉ outcome.baseWrites.keys := by
  simp only [runTx, txOutcome, ReadM.run_bind, ReadM.run_pure, bind_eq_ok] at h
  obtain ⟨output, houtput, rewards, -, base, hbase, h⟩ := h
  cases h
  unfold determineWritesFromOutput at hbase
  split at hbase
  · cases hbase
    exact executeTx_keys hR houtput sender
  · split at hbase
    · exact vmMeteringWrites_keys hbase sender
    · cases hbase
      exact fun hk => by cases hk

/-- A transaction sets no nonce, and its result has its hash. -/
theorem processTx_nonces (hR : VmLeavesNonces R) (S : BlockState) (tx : Tx) (sender : String)
    (hS : nonceKey sender ∉ S.pending.keys) :
    nonceKey sender ∉ (processTx E R policy rewardsHandler S tx).2.pending.keys := by
  unfold processTx processedTx
  dsimp only
  rcases hrun : runTx E R policy rewardsHandler tx (getChiCost E S.cachedChiCost S.read) S.read with e | outcome
  · exact hS
  rcases hwrites : (materializeWrites E outcome).run S.read with e | writes
  · simp only [bind, Except.bind, hwrites]
    exact hS
  simp only [bind, Except.bind, hwrites, pure, Except.pure]
  intro hk
  rcases mem_keys_update hk with hk | hk
  · rcases materializeWrites_keys hwrites hk with hk | hk
    · exact runTx_keys hR hrun sender hk
    · obtain ⟨recipient, hr⟩ := runTx_deltas hrun hk
      exact nonceKey_ne_currency sender (prefix_rewardKey recipient) hr
  · exact hS hk

theorem processAll_nonces (hR : VmLeavesNonces R) (txs : List Tx) (S : BlockState) (sender : String)
    (hS : nonceKey sender ∉ S.pending.keys) :
    nonceKey sender ∉ (processAll E R policy rewardsHandler S txs).2.pending.keys := by
  induction txs generalizing S with
  | nil => exact hS
  | cons tx rest ih => exact ih _ (processTx_nonces hR S tx sender hS)

theorem processAll_hash (txs : List Tx) (S : BlockState) (htxs : ∀ tx ∈ txs, tx.hash ≠ "") {r : TxResult}
    (hr : some r ∈ (processAll E R policy rewardsHandler S txs).1) : r.hash ≠ "" := by
  induction txs generalizing S with
  | nil => cases hr
  | cons tx rest ih =>
    rcases List.mem_cons.1 hr with hr | hr
    · have hresponse : some r = responseResult tx (processTx E R policy rewardsHandler S tx).1 := hr
      obtain ⟨p, -, rfl⟩ := Option.map_eq_some_iff.1 hresponse.symm
      exact htxs tx (List.mem_cons_self ..)
    · exact ih _ (fun tx htx => htxs tx (List.mem_cons_of_mem _ htx)) hr

/-- Hooks that execute the transactions one by one leave the nonces alone where the VM and the other stages do. -/
theorem leavesNonces_serial {H : BlockHooks} (hexecute : H.executeTransactions = serialExecution E R policy)
    (hR : VmLeavesNonces R)
    (hevidence : ∀ req view sender, nonceKey sender ∉ (H.applyEvidencePenalties req view).2.map Prod.fst)
    (hrebalance : ∀ height view sender, nonceKey sender ∉ (H.runEpochRebalance height view).2.map Prod.fst)
    (hvalidators : ∀ height view sender, nonceKey sender ∉ (H.buildValidatorUpdates height view).2.map Prod.fst)
    (hpatches : ∀ block view sender, nonceKey sender ∉ (H.applyPatchesForBlock block view).2.map Prod.fst) :
    LeavesNonces H where
  execute txs view sender := by
    rw [hexecute]
    exact processAll_nonces hR txs _ sender fun hk => by cases hk
  evidence := hevidence
  rebalance := hrebalance
  validators := hvalidators
  patches := hpatches
  hash txs view results sets htxs h r hr := by
    rw [hexecute] at h
    obtain rfl := Except.ok.inj (Prod.mk.inj h).1
    exact processAll_hash txs _ htxs hr

end Serial

/-! ### One transaction, sent again and again -/

/-- A contract that is not stored cannot be prepared; a call of one that is does nothing. -/
def storedRuntime : Runtime where
  prepareVmContract contract := do
    let moduleIr ← getVar contract "__xian_ir_v1__" []
    if moduleIr = .none then .lift (.error (.valueError ("xian_vm_v1 requires persisted __xian_ir_v1__ for contract '" ++
      contract ++ "'; stored source is inspection-only")))
    else return ()
  convertDict v := v
  executeVmContract _ _ := .ok ⟨0, .none, .empty, [], 0, [], [], []⟩

def callHooks : BlockHooks where
  blockDatetime _ := .ok ()
  decodeBlockTransactions := decodeBlockTransactions .plain callDecoder callConfig
  executeTransactions := serialExecution exactDecimals storedRuntime .paidMetered
  encodeResult _ := .ok .none
  applyEvidencePenalties _ := pure ()
  runEpochRebalance _ := pure ()
  buildValidatorUpdates _ := pure []
  applyPatchesForBlock _ := pure none

def callBlock (height : Int) : FinalizeRequest := ⟨height, 5, [], [callRawTx], []⟩

/-- The called contract is there. -/
def deployedNode : Node MemoryDriver := nodeOver [("con_missing.__xian_ir_v1__", .str "\x7b\x7d")]

theorem leavesNonces_callHooks : LeavesNonces callHooks := by
  have hR : VmLeavesNonces storedRuntime := by
    intro call s output h sender hk
    cases h
    cases hk
  exact leavesNonces_serial rfl hR (fun _ _ _ h => by cases h) (fun _ _ _ h => by cases h) (fun _ _ _ h => by cases h)
    (fun _ _ _ h => by cases h)

theorem callDecoder_hash (block : BlockMeta) (tx : Tx) : callDecoder.hash block tx ≠ "" := by
  show "358afb566cd12cbdad9d566a795b8e5d3e01a0745fc84c0cb1d7da03103a935f" ≠ ""
  decide

theorem nonces_executed_once_call : ∃ n' txs,
    runBlocks .plain callHooks deployedNode [callBlock 1, callBlock 2] = some (n', txs) ∧ txs.length = 1 ∧
    ∀ sender nonce, (txs.filter fun tx => tx.sender = sender ∧ tx.nonce = nonce).length ≤ 1 := by
  have hrun : (match runBlocks .plain callHooks deployedNode [callBlock 1, callBlock 2] with
      | some (_, txs) => decide (txs.length = 1)
      | none => false) = true := by decide +kernel
  rcases h : runBlocks .plain callHooks deployedNode [callBlock 1, callBlock 2] with _ | ⟨n', txs⟩
  · rw [h] at hrun; cases hrun
  rw [h] at hrun
  have honce := (nonces_executed_once rfl leavesNonces_callHooks callDecoder_hash (fun _ => rfl) _ rfl h).1
  exact ⟨n', txs, rfl, of_decide_eq_true hrun, honce⟩

end XianAbci
