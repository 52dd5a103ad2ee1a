import XianAbci.FinalizeBlock

/-!
# Proposals and block decoding (`methods/prepare_proposal.py`, `methods/process_proposal.py`, `utils/tx.py`)

Three loops check the transactions of a block one after another: PrepareProposal keeps those that
pass, ProcessProposal rejects the block at the first that does not, and FinalizeBlock puts an error
entry in its place. Each carries a nonce tracker and the chi supplied so far, which advance on success
only.

Decoding raw bytes and the checks that need nothing but the transaction (format, signature, chain id)
are the native extension's, or those of `decode_transaction_bytes` and `validate_transaction_static`;
`TxDecoder` has them as one function.
-/

namespace XianAbci

/-- `str(e)`. -/
def PyErr.text : PyErr → String
  | typeError m | valueError m | assertionError m | attributeError m | runtimeError m | fileNotFoundError m
  | transactionException m | other m => m
  | keyError k => "'" ++ k ++ "'"

structure BlockFeePolicy extends TxFeePolicy where
  maxTxChi : Option Nat
  maxBlockChi : Option Nat

structure TxDecoder where
  -- the transaction, its format, signature and chain id checked
  decodeStatic : String → Bytes → Except PyErr Tx
  -- what depends on the block metadata attached to a transaction
  environment : BlockMeta → Tx → Value
  hash : BlockMeta → Tx → String

structure NodeConfig where
  chainId : String
  -- `mempool.max_tx_bytes` of the CometBFT configuration, at least 1
  maxTxBytes : Nat
  feePolicy : BlockFeePolicy

/-! ### The checks -/

def decodeAndValidateTransactionStaticBytes (T : TxDecoder) (cfg : NodeConfig) (rawTx : Bytes) : Except PyErr Tx :=
  if cfg.maxTxBytes < rawTx.length then .error (.transactionException
    ("Transaction exceeds maximum configured size of " ++ toString cfg.maxTxBytes ++ " bytes"))
  else T.decodeStatic cfg.chainId rawTx

def txChiSupplied (tx : Tx) : Except PyErr Int :=
  if tx.chiSupplied < 0 then .error (.transactionException "Transaction chi_supplied is invalid")
  else .ok tx.chiSupplied

namespace BlockFeePolicy

variable (policy : BlockFeePolicy)

def validateTx (tx : Tx) : Except PyErr Unit := do
  let chiSupplied ← txChiSupplied tx
  require (¬ (policy.meterExecution ∧ chiSupplied ≤ 0))
    (.transactionException "Transaction chi_supplied must be greater than zero")
  match policy.maxTxChi with
  | none => return
  | some limit => require (chiSupplied ≤ limit) (.transactionException
      ("Transaction chi_supplied exceeds maximum configured limit of " ++ toString limit))

def validateBlockTotal (total : Int) : Except PyErr Unit :=
  match policy.maxBlockChi with
  | none => .ok ()
  | some limit => require (total ≤ limit) (.transactionException
      ("Block chi_supplied exceeds maximum configured limit of " ++ toString limit))

end BlockFeePolicy

/-- `SequentialNonceTracker`. -/
structure NonceTracker where
  committedNonceGetter : String → Value
  latestNonces : PyDict String Value

namespace NonceTracker

/-- `NonceStorage.get_nonce` of every sender, nothing advanced yet. -/
def ofState (s : String → Value) : NonceTracker := ⟨fun sender => s (nonceKey sender), .empty⟩

def currentNonce (t : NonceTracker) (sender : String) : Value :=
  match t.latestNonces.get? sender with
  | some nonce => nonce
  | none => t.committedNonceGetter sender

/-- A nonce is stored as an integer; what cannot be added to 1 raises. -/
def expectedNonce (t : NonceTracker) (sender : String) : Except PyErr Int :=
  match t.currentNonce sender with
  | .none => .ok 0
  | .int nonce => .ok (nonce + 1)
  | .bool b => .ok ((if b then 1 else 0) + 1)
  | _ => .error (.typeError "unsupported operand type(s) for +")

def validateAndAdvance (B : Builtins) (t : NonceTracker) (tx : Tx) : Except PyErr NonceTracker := do
  let expected ← t.expectedNonce tx.sender
  require (tx.nonce = .int expected) (.transactionException
    ("Transaction nonce is invalid. Expected " ++ toString expected ++ ", got " ++ B.format tx.nonce))
  return { t with latestNonces := t.latestNonces.set tx.sender tx.nonce }

end NonceTracker

/-- What a loop over a block carries: the tracker, and `block_chi_supplied`. -/
structure BlockTotals where
  nonceTracker : NonceTracker
  blockChiSupplied : Int

def BlockTotals.start (s : String → Value) : BlockTotals := ⟨.ofState s, 0⟩

section Loops

variable (B : Builtins) (T : TxDecoder) (cfg : NodeConfig)

/-- The checks after decoding, the same in the three loops; the totals advance once all have passed. -/
def validateInBlock (totals : BlockTotals) (tx : Tx) : Except PyErr BlockTotals := do
  cfg.feePolicy.validateTx tx
  let nextBlockChiSupplied := totals.blockChiSupplied + (← txChiSupplied tx)
  cfg.feePolicy.validateBlockTotal nextBlockChiSupplied
  let nonceTracker ← totals.nonceTracker.validateAndAdvance B tx
  return ⟨nonceTracker, nextBlockChiSupplied⟩

def acceptRaw (totals : BlockTotals) (rawTx : Bytes) : Except PyErr BlockTotals := do
  let tx ← decodeAndValidateTransactionStaticBytes T cfg rawTx
  validateInBlock B cfg totals tx

/-- The loop of `prepare_proposal`; `blockTxBytes` is the size of what is kept so far. -/
def prepareLoop (maxTxBytes : Int) : BlockTotals → Nat → List Bytes → List Bytes
  | _, _, [] => []
  | totals, blockTxBytes, rawTx :: rest =>
    -- a transaction that does not fit is passed over, a smaller one may still follow
    if maxTxBytes < ((blockTxBytes + rawTx.length : Nat) : Int) then prepareLoop maxTxBytes totals blockTxBytes rest
    else match acceptRaw B T cfg totals rawTx with
      | .error _ => prepareLoop maxTxBytes totals blockTxBytes rest
      | .ok totals => rawTx :: prepareLoop maxTxBytes totals (blockTxBytes + rawTx.length) rest

def prepareProposal (s : String → Value) (txs : List Bytes) (maxTxBytes : Int) : List Bytes :=
  prepareLoop B T cfg maxTxBytes (.start s) 0 txs

inductive ProposalStatus
  | accept
  | reject
deriving DecidableEq, Repr

def processLoop : BlockTotals → List Bytes → ProposalStatus
  | _, [] => .accept
  | totals, rawTx :: rest =>
    match acceptRaw B T cfg totals rawTx with
    | .error _ => .reject
    | .ok totals => processLoop totals rest

def processProposal (s : String → Value) (txs : List Bytes) : ProposalStatus :=
  processLoop B T cfg (.start s) txs

/-- `tx["b_meta"] = self.current_block_meta`. -/
def attachBlockMeta (block : BlockMeta) (tx : Tx) : Tx :=
  { tx with environment := T.environment block tx, hash := T.hash block tx }

/-- The loop of `_decode_block_transactions`; an entry is a transaction, or the error in its place. -/
def decodeLoop (block : BlockMeta) : BlockTotals → List Bytes → List (Except String Tx)
  | _, [] => []
  | totals, rawTx :: rest =>
    match decodeAndValidateTransactionStaticBytes T cfg rawTx with
    | .error e => .error ("Error decoding transaction: " ++ e.text) :: decodeLoop block totals rest
    | .ok tx =>
      match validateInBlock B cfg totals tx with
      | .error e => .error ("Invalid transaction in block: " ++ e.text) :: decodeLoop block totals rest
      | .ok totals => .ok (attachBlockMeta T block tx) :: decodeLoop block totals rest

/-- `_decode_block_transactions`, as a stage of FinalizeBlock. -/
def decodeBlockTransactions (req : FinalizeRequest) (s : String → Value) : List (Except String Tx) :=
  decodeLoop B T cfg (blockMeta req) (.start s) req.txs

end Loops

/-! ### What an admitted transaction satisfies -/

section Admitted

variable {B : Builtins} {T : TxDecoder} {cfg : NodeConfig} {totals totals' : BlockTotals} {tx : Tx} {rawTx : Bytes}

/-- The checks a transaction has passed, and how the totals moved. -/
structure Validated (cfg : NodeConfig) (totals : BlockTotals) (tx : Tx) (totals' : BlockTotals) : Prop where
  nonce : ∃ expected, totals.nonceTracker.expectedNonce tx.sender = .ok expected ∧ tx.nonce = .int expected
  tracker : totals'.nonceTracker =
    { totals.nonceTracker with latestNonces := totals.nonceTracker.latestNonces.set tx.sender tx.nonce }
  chi : totals'.blockChiSupplied = totals.blockChiSupplied + tx.chiSupplied
  limit : ∀ limit, cfg.feePolicy.maxBlockChi = some limit → totals'.blockChiSupplied ≤ limit

theorem validateInBlock_ok (h : validateInBlock B cfg totals tx = .ok totals') : Validated cfg totals tx totals' := by
  simp only [validateInBlock, bind_eq_ok] at h
  obtain ⟨-, -, chi, hchi, u, htotal, tracker, htracker, h⟩ := h
  simp only [txChiSupplied] at hchi
  split at hchi
  · cases hchi
  cases hchi
  cases h
  simp only [NonceTracker.validateAndAdvance, bind_eq_ok, require_eq_ok] at htracker
  obtain ⟨expected, hexpected, -, hnonce, h⟩ := htracker
  cases h
  refine ⟨⟨expected, hexpected, hnonce⟩, rfl, rfl, fun limit hlimit => ?_⟩
  rw [BlockFeePolicy.validateBlockTotal, hlimit, require_eq_ok] at htotal
  exact htotal

theorem acceptRaw_ok (h : acceptRaw B T cfg totals rawTx = .ok totals') :
    ∃ tx, decodeAndValidateTransactionStaticBytes T cfg rawTx = .ok tx ∧ Validated cfg totals tx totals' := by
  simp only [acceptRaw, bind_eq_ok] at h
  obtain ⟨tx, hdecode, hvalid⟩ := h
  exact ⟨tx, hdecode, validateInBlock_ok hvalid⟩

end Admitted

/-! ### The three loops agree -/

section Agree

variable (B : Builtins) (T : TxDecoder) (cfg : NodeConfig)

/-- The chi a raw transaction supplies. -/
def rawChiSupplied (rawTx : Bytes) : Int :=
  match decodeAndValidateTransactionStaticBytes T cfg rawTx with
  | .error _ => 0
  | .ok tx => tx.chiSupplied

theorem prepareLoop_sublist (maxTxBytes : Int) (totals : BlockTotals) (blockTxBytes : Nat) (txs : List Bytes) :
    (prepareLoop B T cfg maxTxBytes totals blockTxBytes txs).Sublist txs := by
  induction txs generalizing totals blockTxBytes with
  | nil => exact .slnil
  | cons rawTx rest ih =>
    unfold prepareLoop
    split
    · exact (ih totals blockTxBytes).cons rawTx
    · rcases acceptRaw B T cfg totals rawTx with e | totals'
      · exact (ih totals blockTxBytes).cons rawTx
      · exact (ih totals' _).cons_cons rawTx

/-- What is kept fits, along with what was kept before. -/
theorem prepareLoop_size {maxTxBytes : Int} (totals : BlockTotals) (blockTxBytes : Nat) (txs : List Bytes)
    (h : (blockTxBytes : Int) ≤ maxTxBytes) :
    ((blockTxBytes + ((prepareLoop B T cfg maxTxBytes totals blockTxBytes txs).map List.length).sum : Nat) : Int) ≤
      maxTxBytes := by
  induction txs generalizing totals blockTxBytes with
  | nil => simpa [prepareLoop] using h
  | cons rawTx rest ih =>
    unfold prepareLoop
    split
    · exact ih totals blockTxBytes h
    · rename_i hfits
      rcases acceptRaw B T cfg totals rawTx with e | totals'
      · exact ih totals blockTxBytes h
      · have hrest := ih totals' (blockTxBytes + rawTx.length) (by omega)
        dsimp only
        rw [List.map_cons, List.sum_cons]
        omega

theorem prepareLoop_chi {limit : Nat} (hlimit : cfg.feePolicy.maxBlockChi = some limit) (maxTxBytes : Int)
    (totals : BlockTotals) (blockTxBytes : Nat) (txs : List Bytes) (h : totals.blockChiSupplied ≤ limit) :
    totals.blockChiSupplied +
      ((prepareLoop B T cfg maxTxBytes totals blockTxBytes txs).map (rawChiSupplied T cfg)).sum ≤ limit := by
  induction txs generalizing totals blockTxBytes with
  | nil => simpa [prepareLoop] using h
  | cons rawTx rest ih =>
    unfold prepareLoop
    split
    · exact ih totals blockTxBytes h
    · rcases haccept : acceptRaw B T cfg totals rawTx with e | totals'
      · exact ih totals blockTxBytes h
      · obtain ⟨tx, hdecode, hvalid⟩ := acceptRaw_ok haccept
        have hrest := ih totals' (blockTxBytes + rawTx.length) (hvalid.limit limit hlimit)
        have hchi : rawChiSupplied T cfg rawTx = tx.chiSupplied := by rw [rawChiSupplied, hdecode]
        dsimp only
        rw [List.map_cons, List.sum_cons, hchi]
        rw [hvalid.chi] at hrest
        omega

/-- ProcessProposal walks over what PrepareProposal kept with the same totals. -/
theorem processLoop_prepareLoop (maxTxBytes : Int) (totals : BlockTotals) (blockTxBytes : Nat) (txs : List Bytes) :
    processLoop B T cfg totals (prepareLoop B T cfg maxTxBytes totals blockTxBytes txs) = .accept := by
  induction txs generalizing totals blockTxBytes with
  | nil => rfl
  | cons rawTx rest ih =>
    unfold prepareLoop
    split
    · exact ih totals blockTxBytes
    · rcases haccept : acceptRaw B T cfg totals rawTx with e | totals'
      · exact ih totals blockTxBytes
      · dsimp only
        unfold processLoop
        rw [haccept]
        exact ih totals' _

/-- A block is accepted when decoding it puts no error in. -/
theorem processLoop_accept_iff (block : BlockMeta) (totals : BlockTotals) (txs : List Bytes) :
    processLoop B T cfg totals txs = .accept ↔
      ∀ entry ∈ decodeLoop B T cfg block totals txs, ∃ tx, entry = .ok tx := by
  induction txs generalizing totals with
  | nil => simp [processLoop, decodeLoop]
  | cons rawTx rest ih =>
    unfold processLoop decodeLoop acceptRaw
    rcases decodeAndValidateTransactionStaticBytes T cfg rawTx with e | tx
    · simp [bind, Except.bind]
    · show (match validateInBlock B cfg totals tx with
        | .error _ => ProposalStatus.reject
        | .ok totals => processLoop B T cfg totals rest) = .accept ↔ _
      dsimp only
      rcases validateInBlock B cfg totals tx with e | totals'
      · simp
      · simpa using ih totals'

/-- A prepared proposal is a part of its candidates within the limits, every node in the same state
accepts it, and a proposal is accepted exactly when FinalizeBlock decodes it without an error. -/
theorem proposal_decoding_agree (s : String → Value) :
    (∀ txs maxTxBytes,
      (prepareProposal B T cfg s txs maxTxBytes).Sublist txs ∧
      (0 ≤ maxTxBytes → (((prepareProposal B T cfg s txs maxTxBytes).map List.length).sum : Int) ≤ maxTxBytes) ∧
      (∀ limit, cfg.feePolicy.maxBlockChi = some limit →
        ((prepareProposal B T cfg s txs maxTxBytes).map (rawChiSupplied T cfg)).sum ≤ limit) ∧
      processProposal B T cfg s (prepareProposal B T cfg s txs maxTxBytes) = .accept) ∧
    ∀ req, processProposal B T cfg s req.txs = .accept ↔
      ∀ entry ∈ decodeBlockTransactions B T cfg req s, ∃ tx, entry = .ok tx := by
  refine ⟨fun txs maxTxBytes => ⟨prepareLoop_sublist .., fun hmax => ?_, fun limit hlimit => ?_,
    processLoop_prepareLoop ..⟩, fun req => processLoop_accept_iff ..⟩
  · have hsize := prepareLoop_size B T cfg (.start s) 0 txs (by simpa using hmax)
    rwa [Nat.zero_add] at hsize
  · have hchi := prepareLoop_chi B T cfg hlimit maxTxBytes (.start s) 0 txs (Int.natCast_nonneg limit)
    rwa [show (BlockTotals.start s).blockChiSupplied = 0 from rfl, zero_add] at hchi

end Agree

/-! ### A transaction that calls a missing contract -/

def callSender : String := "3b6a27bcceb6a42d62a3a8d02a6f0d73653215771de243a63ac048a18b59da29"

def callSignature : String :=
  "67055f354eb3bb4e392cd2e70d57ff5ccc28fa2c3f881913aa8a26beeb31c70f" ++
  "b74bc264d20df75e20dd36c399d624bf6ee60cd7c2c6cad4384e25ae13aff903"

/-- The signed transaction: its JSON text, sent as hexadecimal digits. -/
def callRawTx : Bytes :=
  let json :=
    "\x7b\"metadata\":\x7b\"signature\":\"" ++ callSignature ++ "\"\x7d,\"payload\":" ++
    "\x7b\"chain_id\":\"xian-1\",\"chi_supplied\":100,\"contract\":\"con_missing\",\"function\":\"run\"," ++
    "\"kwargs\":\x7b\x7d,\"nonce\":0,\"sender\":\"" ++ callSender ++ "\"\x7d\x7d"
  (encodeStr json).flatMap fun x => (hexDigits 2 x.toNat).map fun c => UInt8.ofNat c.toNat

def callTx : Tx where
  sender := callSender
  contract := "con_missing"
  function := "run"
  kwargs := .dict []
  nonce := .int 0
  chiSupplied := 100
  hash := ""
  environment := .none
  sizeBytes := 348

/-- Decodes that transaction on its chain and no other; the hash is the one at height 1. -/
def callDecoder : TxDecoder where
  decodeStatic chainId rawTx :=
    if rawTx = callRawTx ∧ chainId = "xian-1" then .ok callTx
    else .error (.transactionException "Transaction is not valid JSON")
  environment _ _ := .dict []
  hash _ _ := "358afb566cd12cbdad9d566a795b8e5d3e01a0745fc84c0cb1d7da03103a935f"

def callConfig : NodeConfig := ⟨"xian-1", 1048576, ⟨.paidMetered, none, some 1000000⟩⟩

theorem length_callRawTx : callRawTx.length = 696 := by decide +kernel

theorem decode_callRawTx : decodeAndValidateTransactionStaticBytes callDecoder callConfig callRawTx = .ok callTx := by
  rw [decodeAndValidateTransactionStaticBytes, length_callRawTx, if_neg (by decide)]
  exact if_pos ⟨rfl, rfl⟩

theorem acceptRaw_callRawTx (totals : BlockTotals) :
    acceptRaw .plain callDecoder callConfig totals callRawTx = validateInBlock .plain callConfig totals callTx := by
  rw [acceptRaw, decode_callRawTx]
  rfl

/-- Sent twice, it is proposed once. -/
theorem prepareProposal_call :
    prepareProposal .plain callDecoder callConfig (fun _ => .none) [callRawTx, callRawTx] 2000 = [callRawTx] := by
  have hfirst : validateInBlock .plain callConfig (.start fun _ => .none) callTx =
      .ok ⟨⟨fun _ => .none, .ofList [(callSender, .int 0)]⟩, 100⟩ := rfl
  have hsecond : ∃ e, validateInBlock .plain callConfig ⟨⟨fun _ => .none, .ofList [(callSender, .int 0)]⟩, 100⟩
      callTx = .error e := ⟨_, rfl⟩
  obtain ⟨e, he⟩ := hsecond
  rw [prepareProposal, prepareLoop, length_callRawTx, if_neg (by decide), acceptRaw_callRawTx, hfirst]
  dsimp only
  rw [prepareLoop, length_callRawTx, if_neg (by decide), acceptRaw_callRawTx, he]
  rfl

theorem proposal_decoding_agree_call :
    (((prepareProposal .plain callDecoder callConfig (fun _ => .none) [callRawTx, callRawTx] 2000).map
      List.length).sum : Int) ≤ 2000 ∧
    processProposal .plain callDecoder callConfig (fun _ => .none) [callRawTx] = .accept := by
  have hagree := (proposal_decoding_agree .plain callDecoder callConfig fun _ => .none).1 [callRawTx, callRawTx] 2000
  have haccept := hagree.2.2.2
  rw [prepareProposal_call] at haccept
  exact ⟨hagree.2.1 (by decide), haccept⟩

end XianAbci
