import XianAbci.Indexing
import XianAbci.ReplayProtection

/-!
# What a node's own settings can change of a block

Indexing and trace logging reach nothing of the response. The mempool's size limit does: it is checked
again when the transactions of a decided block are decoded, and the error it gives names it. Two nodes
over the same state answer a block alike exactly when their limits are the same or every transaction of
the block is within both.
-/

namespace XianAbci

/-- The limits treat every transaction of the block alike. -/
def SameLimits (a b : Nat) (txs : List Bytes) : Prop := a = b ∨ ∀ rawTx ∈ txs, rawTx.length ≤ a ∧ rawTx.length ≤ b

/-- The size error of a limit. -/
def sizeText (limit : Nat) : String := "Transaction exceeds maximum configured size of " ++ toString limit ++ " bytes"

/-- No error of the decoder reads like the size check's. -/
def NoSizeText (T : TxDecoder) : Prop :=
  ∀ chainId rawTx e limit, T.decodeStatic chainId rawTx = .error e → e.text ≠ sizeText limit

section Decode

variable (B : Builtins) (T : TxDecoder) (cfg : NodeConfig)

/-- The configuration with the node's own limit. -/
def NodeConfig.withLimit (cfg : NodeConfig) (limit : Nat) : NodeConfig := { cfg with maxTxBytes := limit }

variable {B T cfg}

theorem decodeLoop_sameLimits {a b : Nat} {txs : List Bytes} (h : SameLimits a b txs) (block : BlockMeta)
    (totals : BlockTotals) :
    decodeLoop B T (cfg.withLimit a) block totals txs = decodeLoop B T (cfg.withLimit b) block totals txs := by
  rcases h with rfl | h
  · rfl
  induction txs generalizing totals with
  | nil => rfl
  | cons rawTx rest ih =>
    have hrest := fun totals => ih totals fun tx htx => h tx (List.mem_cons_of_mem _ htx)
    obtain ⟨ha, hb⟩ := h rawTx (List.mem_cons_self ..)
    have hdecode : decodeAndValidateTransactionStaticBytes T (cfg.withLimit a) rawTx =
        decodeAndValidateTransactionStaticBytes T (cfg.withLimit b) rawTx := by
      unfold decodeAndValidateTransactionStaticBytes
      rw [if_neg (by simpa [NodeConfig.withLimit] using ha), if_neg (by simpa [NodeConfig.withLimit] using hb)]
      rfl
    unfold decodeLoop
    rw [hdecode]
    rcases decodeAndValidateTransactionStaticBytes T (cfg.withLimit b) rawTx with e | tx
    · dsimp only
      rw [hrest]
    · dsimp only
      have hvalidate : validateInBlock B (cfg.withLimit a) totals tx = validateInBlock B (cfg.withLimit b) totals tx := rfl
      rw [hvalidate]
      rcases validateInBlock B (cfg.withLimit b) totals tx with e | totals'
      · dsimp only
        rw [hrest]
      · dsimp only
        rw [hrest]

/-- What an entry of a block says of the transaction's size. -/
inductive EntryOf (T : TxDecoder) (chainId : String) (limit : Nat) (rawTx : Bytes) : Except String Tx → Prop
  | oversized : limit < rawTx.length →
      EntryOf T chainId limit rawTx (.error ("Error decoding transaction: " ++ sizeText limit))
  | undecodable {e} : rawTx.length ≤ limit → T.decodeStatic chainId rawTx = .error e →
      EntryOf T chainId limit rawTx (.error ("Error decoding transaction: " ++ e.text))
  | invalid {message} : rawTx.length ≤ limit →
      EntryOf T chainId limit rawTx (.error ("Invalid transaction in block: " ++ message))
  | valid {tx} : rawTx.length ≤ limit → EntryOf T chainId limit rawTx (.ok tx)

theorem decodeLoop_entryOf (B : Builtins) (T : TxDecoder) (cfg : NodeConfig) (block : BlockMeta) (totals : BlockTotals) (txs : List Bytes) :
    List.Forall₂ (EntryOf T cfg.chainId cfg.maxTxBytes) txs (decodeLoop B T cfg block totals txs) := by
  induction txs generalizing totals with
  | nil => exact .nil
  | cons rawTx rest ih =>
    unfold decodeLoop decodeAndValidateTransactionStaticBytes
    by_cases hsize : cfg.maxTxBytes < rawTx.length
    · rw [if_pos hsize]
      exact .cons (.oversized hsize) (ih totals)
    · rw [if_neg hsize]
      have hfits : rawTx.length ≤ cfg.maxTxBytes := not_lt.1 hsize
      rcases hdecode : T.decodeStatic cfg.chainId rawTx with e | tx
      · exact .cons (.undecodable hfits hdecode) (ih totals)
      · dsimp only
        rcases validateInBlock B cfg totals tx with e | totals'
        · exact .cons (.invalid hfits) (ih totals)
        · exact .cons (.valid hfits) (ih totals')

end Decode

/-! ### From the entries to the results -/

section Results

/-- The result an entry can get. -/
inductive ShownAs : Except String Tx → ExecTxResult → Prop
  | rejected (message : String) : ShownAs (.error message) (.error message)
  | executed (tx : Tx) (code : Int) (data : Value) : ShownAs (.ok tx) (.result code data)
  | unprocessed (tx : Tx) : ShownAs (.ok tx) (.error "Error processing tx: ")
  | noResult (tx : Tx) : ShownAs (.ok tx) (.error "Transaction processor returned no tx_result")
  | noHash (tx : Tx) : ShownAs (.ok tx) (.error "Transaction processor returned no tx hash")

theorem assembleTxResults_shownAs {H : BlockHooks} (entries : List (Except String Tx))
    {results : List (Option TxResult)} {view : DriverView} {rs : List ExecTxResult} {sets : List (String × Value)}
    (h : assembleTxResults H entries results view = (.ok rs, sets)) : List.Forall₂ ShownAs entries rs := by
  induction entries generalizing results view rs sets with
  | nil =>
    obtain rfl : rs = [] := (Except.ok.inj (Prod.mk.inj h).1).symm
    exact .nil
  | cons entry entries ih =>
    have htail : ∀ {r : ExecTxResult} {results' : List (Option TxResult)},
        (do return r :: (← assembleTxResults H entries results')) view = (.ok rs, sets) → ShownAs entry r →
          List.Forall₂ ShownAs (entry :: entries) rs := by
      intro r results' hrun hr
      obtain ⟨rest, s, s', hrest, hpure, -⟩ := BlockM.bind_ok hrun
      obtain rfl : rs = r :: rest := (Except.ok.inj (Prod.mk.inj hpure).1).symm
      exact .cons hr (ih hrest)
    rcases entry with message | tx
    · rw [assembleTxResults] at h
      exact htail h (.rejected message)
    · rcases results with _ | ⟨_ | result, results⟩
      · rw [assembleTxResults] at h
        exact htail h (.unprocessed tx)
      · rw [assembleTxResults] at h
        exact htail h (.noResult tx)
      · rw [assembleTxResults] at h
        by_cases hhash : result.hash = ""
        · rw [if_pos hhash] at h
          exact htail h (.noHash tx)
        · rw [if_neg hhash] at h
          obtain ⟨_, s, s', hset, hlift, -⟩ := BlockM.bind_ok h
          obtain ⟨data, t, t', hdata, hrun, -⟩ := BlockM.bind_ok hlift
          obtain ⟨rest, u, u', hrest, hpure, -⟩ := BlockM.bind_ok hrun
          obtain rfl : rs = .result result.status data :: rest := (Except.ok.inj (Prod.mk.inj hpure).1).symm
          exact .cons (.executed tx _ _) (ih hrest)

theorem prefix_toList_append {a b : String} (h : a.toList <+: b.toList) (c : String) : a.toList <+: (b ++ c).toList := by
  rw [String.toList_append]
  exact h.trans (List.prefix_append ..)

/-- A result tells a size error from everything else, and one limit's from another's. -/
theorem fits_or_eq {T : TxDecoder} (hT : NoSizeText T) {chainId : String} {a b : Nat} {rawTx : Bytes}
    {e e' : Except String Tx} {r : ExecTxResult} (he : EntryOf T chainId a rawTx e) (he' : EntryOf T chainId b rawTx e')
    (hr : ShownAs e r) (hr' : ShownAs e' r) : a = b ∨ rawTx.length ≤ a ∧ rawTx.length ≤ b := by
  have hsize : ∀ {x y : Nat}, sizeText x = sizeText y → x = y := by
    intro x y h
    exact Nat.repr_injective (String.append_right_inj _ |>.1 (String.append_left_inj _ |>.1 h))
  -- an entry that fits is not shown with a size error
  have hother : ∀ {x y : Nat} {e : Except String Tx}, EntryOf T chainId x rawTx e → rawTx.length ≤ x →
      ¬ ShownAs e (.error ("Error decoding transaction: " ++ sizeText y)) := by
    intro x y e he hfits hshown
    have hdecoding : "Error d".toList <+: ("Error decoding transaction: " ++ sizeText y).toList := by
      have hprefix : "Error d".toList <+: "Error decoding transaction: ".toList := by decide +kernel
      exact prefix_toList_append hprefix (sizeText y)
    generalize hmessage : "Error decoding transaction: " ++ sizeText y = message at hshown hdecoding
    rcases he with hover | ⟨-, hdecode⟩ | ⟨-⟩ | ⟨-⟩
    · omega
    · cases hshown
      exact hT _ _ _ _ hdecode (String.append_right_inj _ |>.1 hmessage).symm
    · cases hshown
      rw [String.toList_append] at hdecoding
      have hshort := List.prefix_of_prefix_length_le hdecoding (List.prefix_append ..) (by decide +kernel)
      exact absurd hshort (by decide +kernel)
    · cases hshown
      · exact absurd hdecoding (by decide +kernel)
      · exact absurd hdecoding (by decide +kernel)
      · exact absurd hdecoding (by decide +kernel)
  by_cases ha : rawTx.length ≤ a
  · by_cases hb : rawTx.length ≤ b
    · exact .inr ⟨ha, hb⟩
    · rcases he' with hover | ⟨hfits, -⟩ | ⟨hfits⟩ | ⟨hfits⟩
      · cases hr'
        exact absurd hr (hother he ha)
      all_goals exact absurd hfits hb
  · rcases he with hover | ⟨hfits, -⟩ | ⟨hfits⟩ | ⟨hfits⟩
    · cases hr
      by_cases hb : rawTx.length ≤ b
      · exact absurd hr' (hother he' hb)
      · rcases he' with hover' | ⟨hfits, -⟩ | ⟨hfits⟩ | ⟨hfits⟩
        · refine .inl (hsize ?_)
          generalize hmessage : "Error decoding transaction: " ++ sizeText a = message at hr'
          cases hr'
          exact String.append_right_inj _ |>.1 hmessage
        all_goals exact absurd hfits hb
    all_goals exact absurd hfits ha

theorem forall₂_both {α β : Type} {R R' : α → β → Prop} {l : List α} {m : List β} (h : List.Forall₂ R l m)
    (h' : List.Forall₂ R' l m) : ∀ a ∈ l, ∃ b, R a b ∧ R' a b := by
  induction h with
  | nil => intro a ha; cases ha
  | @cons a b l m hab _ ih =>
    cases h' with
    | cons hab' h' =>
      intro x hx
      rcases List.mem_cons.1 hx with rfl | hx
      · exact ⟨b, hab, hab'⟩
      · exact ih h' x hx

theorem forall₂_trans {α β γ : Type} {R : α → β → Prop} {S : β → γ → Prop} {l : List α} {m : List β} {r : List γ}
    (h : List.Forall₂ R l m) (h' : List.Forall₂ S m r) : List.Forall₂ (fun a c => ∃ b, R a b ∧ S b c) l r := by
  induction h generalizing r with
  | nil => cases h'; exact .nil
  | cons hab _ ih =>
    cases h' with
    | cons hbc h' => exact .cons ⟨_, hab, hbc⟩ (ih h')

end Results

/-! ### Two nodes -/

section Nodes

variable (B : Builtins) (T : TxDecoder) (cfg : NodeConfig) (H : BlockHooks) (envelope : Tx → Value)
  (appliedPatches : DriverView → BlockMeta → List Value) {D : Type} [Driver D]

/-- The stages of a node with these settings; chain id and fee policy are the chain's. -/
def localHooks (s : LocalSettings) : BlockHooks :=
  { H with decodeBlockTransactions := decodeBlockTransactions B T (cfg.withLimit s.maxTxBytes) }

/-- The node answers the request. -/
def Answers (s : LocalSettings) (n : Node D) (req : FinalizeRequest) (response : ResponseFinalizeBlock) : Prop :=
  ∃ n' enqueued, finalizeBlockLocal (localHooks B T cfg H s) envelope s appliedPatches n req =
    ((.ok response, n'), enqueued)

variable {B T cfg H envelope appliedPatches} {s s' : LocalSettings} {n m : Node D} {req : FinalizeRequest}
  {response : ResponseFinalizeBlock} {K : Set String}

theorem length_decodeLocal (s : LocalSettings) (state : String → Value) :
    ((localHooks B T cfg H s).decodeBlockTransactions req state).length = req.txs.length :=
  (decodeLoop_entryOf B T (cfg.withLimit s.maxTxBytes) (blockMeta req) (.start state) req.txs).length_eq.symm

theorem answers_iff : Answers B T cfg H envelope appliedPatches s n req response ↔
    ∃ n', finalizeBlock (localHooks B T cfg H s) n req = (.ok response, n') := by
  unfold Answers
  rw [← finalizeBlockLocal_fst (localHooks B T cfg H s) envelope s appliedPatches (length_decodeLocal s)]
  rcases finalizeBlockLocal (localHooks B T cfg H s) envelope s appliedPatches n req with ⟨⟨r, n'⟩, enqueued⟩
  simp

theorem assembleTxResults_congr {H H' : BlockHooks} (h : H.encodeResult = H'.encodeResult)
    (entries : List (Except String Tx)) (results : List (Option TxResult)) :
    assembleTxResults H entries results = assembleTxResults H' entries results := by
  induction entries generalizing results with
  | nil => rfl
  | cons entry entries ih =>
    rcases entry with message | tx
    · rw [assembleTxResults, assembleTxResults, ih]
    · rcases results with _ | ⟨_ | result, results⟩
      · rw [assembleTxResults, assembleTxResults, ih]
      · rw [assembleTxResults, assembleTxResults, ih]
      · rw [assembleTxResults, assembleTxResults, ih, h]

theorem blockStages_sameLimits (B : Builtins) (T : TxDecoder) (cfg : NodeConfig) (H : BlockHooks)
    (h : SameLimits s.maxTxBytes s'.maxTxBytes req.txs) (view : DriverView) :
    blockStages (localHooks B T cfg H s) req view = blockStages (localHooks B T cfg H s') req view := by
  have hdecode : (localHooks B T cfg H s).decodeBlockTransactions req view.current =
      (localHooks B T cfg H s').decodeBlockTransactions req view.current :=
    decodeLoop_sameLimits h (blockMeta req) (.start view.current)
  have hencode : (localHooks B T cfg H s).encodeResult = (localHooks B T cfg H s').encodeResult := rfl
  have hassemble : assembleTxResults (localHooks B T cfg H s) = assembleTxResults (localHooks B T cfg H s') :=
    funext fun entries => funext fun results => assembleTxResults_congr hencode entries results
  unfold blockStages
  rw [BlockM.reads_bind, BlockM.reads_bind, hdecode, hassemble]
  rfl

theorem finalizeBlock_sameLimits (B : Builtins) (T : TxDecoder) (cfg : NodeConfig) (H : BlockHooks)
    (h : SameLimits s.maxTxBytes s'.maxTxBytes req.txs) (n : Node D) :
    finalizeBlock (localHooks B T cfg H s) n req = finalizeBlock (localHooks B T cfg H s') n req := by
  have hinit : initializeBlock (localHooks B T cfg H s) n req = initializeBlock (localHooks B T cfg H s') n req := rfl
  have hbody : finalizeBlockBody (localHooks B T cfg H s) n req = finalizeBlockBody (localHooks B T cfg H s') n req := by
    unfold finalizeBlockBody
    simp only [hinit, blockStages_sameLimits B T cfg H h]
  rw [finalizeBlock, finalizeBlock, hbody]

theorem finalizeWrites_sameLimits (B : Builtins) (T : TxDecoder) (cfg : NodeConfig) (H : BlockHooks)
    (h : SameLimits s.maxTxBytes s'.maxTxBytes req.txs) (n : Node D) :
    finalizeWrites (localHooks B T cfg H s) n req = finalizeWrites (localHooks B T cfg H s') n req := by
  unfold finalizeWrites finalizeSets
  rw [blockStages_sameLimits B T cfg H h]
  rfl

/-- Equal answers to a block show equal limits, or limits that no transaction reaches. -/
theorem sameLimits_of_answers (hT : NoSizeText T) {n' m' : Node D}
    (hn : finalizeBlock (localHooks B T cfg H s) n req = (.ok response, n'))
    (hm : finalizeBlock (localHooks B T cfg H s') m req = (.ok response, m')) :
    SameLimits s.maxTxBytes s'.maxTxBytes req.txs := by
  have hshown : ∀ {s : LocalSettings} {n n' : Node D},
      finalizeBlock (localHooks B T cfg H s) n req = (.ok response, n') →
      List.Forall₂ (fun rawTx r => ∃ entry, EntryOf T cfg.chainId s.maxTxBytes rawTx entry ∧ ShownAs entry r)
        req.txs response.txResults := by
    intro s n n' hfin
    obtain ⟨result, hst, hresponse⟩ := (finalizeBlock_ok hfin).stages
    obtain ⟨results, t, hstages, -⟩ := blockStages_ok hst
    rw [hresponse]
    exact forall₂_trans (decodeLoop_entryOf B T (cfg.withLimit s.maxTxBytes) (blockMeta req)
      (.start (driverView n.driver).current) req.txs) (assembleTxResults_shownAs _ hstages.assemble)
  by_cases heq : s.maxTxBytes = s'.maxTxBytes
  · exact .inl heq
  · refine .inr fun rawTx hraw => ?_
    obtain ⟨r, ⟨e, he, hr⟩, e', he', hr'⟩ := forall₂_both (hshown hn) (hshown hm) rawTx hraw
    exact (fits_or_eq hT he he' hr hr').resolve_left heq

/-- Two nodes between blocks, over the same committed state: where their limits treat the transactions of
the block alike they give the same answer (or none), and where they give the same answer the limits do. -/
theorem answers_agree_iff (hT : NoSizeText T) (hK : Set.InjOn hashPriority K) (hn : Resting K n) (hm : Resting K m)
    (hdurable : ∀ k, (Driver.durable n.driver).get? k = (Driver.durable m.driver).get? k)
    (hkeys : consensusKeys (StateRootCache.toItems (finalizeWrites (localHooks B T cfg H s) n req)) ⊆ K) :
    (SameLimits s.maxTxBytes s'.maxTxBytes req.txs → ∀ response,
      Answers B T cfg H envelope appliedPatches s n req response ↔
        Answers B T cfg H envelope appliedPatches s' m req response) ∧
    ∀ response, Answers B T cfg H envelope appliedPatches s n req response →
      Answers B T cfg H envelope appliedPatches s' m req response → SameLimits s.maxTxBytes s'.maxTxBytes req.txs := by
  constructor
  · intro hlimits response
    rw [answers_iff, answers_iff, finalizeBlock_sameLimits B T cfg H hlimits]
    rw [finalizeWrites_sameLimits B T cfg H hlimits] at hkeys
    constructor
    · rintro ⟨n', h⟩
      exact (hn.finalize_same hK hm hdurable hkeys h).2
    · rintro ⟨m', h⟩
      rw [← hn.finalizeWrites_eq hm hdurable] at hkeys
      exact (hm.finalize_same hK hn (fun k => (hdurable k).symm) hkeys h).2
  · intro response hs hs'
    obtain ⟨n', hn'⟩ := answers_iff.1 hs
    obtain ⟨m', hm'⟩ := answers_iff.1 hs'
    exact sameLimits_of_answers hT hn' hm'

end Nodes

/-! ### One call, two limits -/

/-- A node that indexes and logs everything. -/
def indexingSettings (limit : Nat) : LocalSettings := ⟨limit, true, true, true⟩

def quietSettings (limit : Nat) : LocalSettings := ⟨limit, false, false, false⟩

def noPatches (_ : DriverView) (_ : BlockMeta) : List Value := []

theorem error_of_ite {p : Prop} [Decidable p] {α : Type} {a : α} {e e' : PyErr}
    (h : (if p then .ok a else .error e' : Except PyErr α) = .error e) : e = e' := by
  by_cases hp : p
  · rw [if_pos hp] at h
    exact absurd h (by simp)
  · rw [if_neg hp] at h
    exact (Except.error.inj h).symm

theorem callDecoder_error {chainId : String} {rawTx : Bytes} {e : PyErr}
    (h : callDecoder.decodeStatic chainId rawTx = .error e) : e.text = "Transaction is not valid JSON" :=
  congrArg PyErr.text (error_of_ite h)

theorem noSizeText_callDecoder : NoSizeText callDecoder := by
  intro chainId rawTx e limit h htext
  rw [callDecoder_error h] at htext
  have hshort : "Transaction e".toList <+: "Transaction exceeds maximum configured size of ".toList := by
    decide +kernel
  have hprefix : "Transaction e".toList <+: (sizeText limit).toList :=
    prefix_toList_append (prefix_toList_append hshort (toString limit)) " bytes"
  rw [← htext] at hprefix
  exact absurd hprefix (by decide +kernel)

theorem resting_idleNode {K : Set String} : Resting K idleNode where
  synced := ⟨⟨.empty, .empty⟩, idleNode_inv, ⟨fun _ _ => rfl, fun k v h => by cases h⟩, fun k v h => by cases h⟩
  unstaged := rfl
  pending := rfl

/-- A node that indexes and one that does not, with limits far above the call, answer it alike. -/
theorem answers_agree_iff_call : ∃ response,
    Answers .plain callDecoder callConfig callHooks (fun _ => .none) noPatches (indexingSettings 1048576) idleNode
      (callBlock 1) response ∧
    Answers .plain callDecoder callConfig callHooks (fun _ => .none) noPatches (quietSettings 4194304) idleNode
      (callBlock 1) response := by
  have hlimits : SameLimits (indexingSettings 1048576).maxTxBytes (quietSettings 4194304).maxTxBytes (callBlock 1).txs := by
    refine .inr fun rawTx hraw => ?_
    obtain rfl : rawTx = callRawTx := by simpa [callBlock] using hraw
    rw [length_callRawTx]
    decide
  have hkeys : consensusKeys (StateRootCache.toItems (finalizeWrites (localHooks .plain callDecoder callConfig callHooks
      (indexingSettings 1048576)) idleNode (callBlock 1))) ⊆ (∅ : Set String) := keys_subset_of_items (by decide +kernel)
  obtain ⟨response, n', hfin, -⟩ := exists_of_returns (x := finalizeBlock (localHooks .plain callDecoder callConfig callHooks
    (indexingSettings 1048576)) idleNode (callBlock 1)) (fun _ _ => true) (by decide +kernel)
  have hanswers : Answers .plain callDecoder callConfig callHooks (fun _ => .none) noPatches (indexingSettings 1048576)
      idleNode (callBlock 1) response := answers_iff.2 ⟨n', hfin⟩
  exact ⟨response, hanswers, ((answers_agree_iff noSizeText_callDecoder (Set.injOn_empty _) resting_idleNode
    resting_idleNode (fun _ => rfl) hkeys).1 hlimits response).1 hanswers⟩

/-- A block whose only transaction is rejected in the one run and executed in the other, to another root. -/
def answersDiffer : Except PyErr ResponseFinalizeBlock → Except PyErr ResponseFinalizeBlock → Bool
  | .ok ⟨_, [.error _], root⟩, .ok ⟨_, [.result _ _], root'⟩ => decide (root ≠ root')
  | _, _ => false

theorem exists_of_answersDiffer {r r' : Except PyErr ResponseFinalizeBlock} (h : answersDiffer r r' = true) :
    ∃ response response', r = .ok response ∧ r' = .ok response' ∧ response.txResults ≠ response'.txResults ∧
      response.appHash ≠ response'.appHash := by
  unfold answersDiffer at h
  split at h
  · exact ⟨_, _, rfl, rfl, by simp, of_decide_eq_true h⟩
  · cases h

/-- The same block on the same state: the node that takes transactions of 100 bytes rejects the call, the other
runs it, and their state roots differ. -/
theorem size_limit_changes_answer : ∃ response response',
    Answers .plain callDecoder callConfig callHooks (fun _ => .none) noPatches (quietSettings 100) deployedNode
      (callBlock 1) response ∧
    Answers .plain callDecoder callConfig callHooks (fun _ => .none) noPatches (quietSettings 1048576) deployedNode
      (callBlock 1) response' ∧
    response.txResults ≠ response'.txResults ∧ response.appHash ≠ response'.appHash := by
  let run limit := finalizeBlock (localHooks .plain callDecoder callConfig callHooks (quietSettings limit)) deployedNode
    (callBlock 1)
  have heval : answersDiffer (run 100).1 (run 1048576).1 = true := by decide +kernel
  obtain ⟨response, response', hsmall, hlarge, hdiffer⟩ := exists_of_answersDiffer heval
  exact ⟨response, response', answers_iff.2 ⟨_, Prod.ext hsmall rfl⟩, answers_iff.2 ⟨_, Prod.ext hlarge rfl⟩, hdiffer⟩

end XianAbci
