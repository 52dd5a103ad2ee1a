import XianAbci.Validators

/-!
# Evidence penalties (`methods/_evidence.py`)

A misbehaving validator is named by its consensus address, the first twenty bytes of the digest of its
public key. The node looks for it in the list the `validators` contract keeps (the registry, or the
active validators) and calls the contract's `apply_evidence_penalty` with the key it finds. A text that
is no hexadecimal key is passed over; anything that `bytes.fromhex` does not take raises.
-/

namespace XianAbci

def validatorRegistryKey : String := "validators.validator_registry"

def systemEvidenceSender : String := "__evidence_penalty_driver__"

def TxFeePolicy.systemUnmetered : TxFeePolicy := ⟨false, false, false⟩

/-- `MISBEHAVIOR_TYPE_NAMES.get`. -/
def misbehaviorTypeName (rawType : Int) : Option String :=
  if rawType = 1 then some "DUPLICATE_VOTE"
  else if rawType = 2 then some "LIGHT_CLIENT_ATTACK"
  else none

/-- The text `bytes.fromhex` reads: a string, or bytes as ASCII; nothing else is taken. -/
def hexText : Value → Option (List Char)
  | .str s => some s.toList
  | .bytes b => some (b.map fun x => Char.ofNat x.toNat)
  | _ => none

def validatorConsensusAddress (pubkeyHex : Value) : Except PyErr (Option Bytes) :=
  match hexText pubkeyHex with
  | some text => .ok ((fromHexChars text).map fun pubKey => (sha256 pubKey).take 20)
  | none => .error (.typeError "fromhex() argument must be str or bytes-like")

/-- The loop of `_resolve_misbehaving_validator_key`: the first entry with the address. -/
def resolveLoop (validatorAddress : Bytes) : List Value → Except PyErr (Option Value)
  | [] => .ok none
  | validatorKey :: rest => do
    let consensusAddress ← validatorConsensusAddress validatorKey
    if consensusAddress = some validatorAddress then return some validatorKey
    else resolveLoop validatorAddress rest

/-- What a system call's transaction is completed with: its hash, environment and size. The environment's
time is the block's, which `initializeBlock` has converted before. -/
structure SystemCall where
  hash : Value → String → String
  environment : BlockMeta → String → Value
  sizeBytes : Value → String → Nat

section Penalties

-- `members` are the items of a wrapper set
variable (B : Builtins) (members : Json → List Value) (E : Decimals) (R : Runtime) (C : SystemCall)

/-- The items of a `for` loop over a stored value. -/
def storedItems : Value → Except PyErr (List Value)
  | .set encoded => .ok (members encoded)
  | v => v.iter

/-- The registry, or the active validators where it is empty. -/
def knownValidators (read : String → Value) : Value :=
  orDefault B (read validatorRegistryKey) (orDefault B (read activeValidatorsKey) (.list []))

def resolveMisbehavingValidatorKey (read : String → Value) (validatorAddress : Bytes) : Except PyErr (Option Value) :=
  if validatorAddress = [] then .ok none
  else storedItems members (knownValidators B read) >>= resolveLoop validatorAddress

def misbehaviorEvidenceId (m : Misbehavior) (typeName : String) (validatorKey : Value) : String :=
  sha256Hex (encodeStr (typeName ++ ":" ++ B.format validatorKey ++ ":" ++ bytesHex m.validatorAddress ++ ":" ++
    toString m.height ++ ":" ++ toString m.timeSeconds ++ ":" ++ toString m.timeNanos ++ ":" ++
    toString m.totalVotingPower))

def evidenceTx (block : BlockMeta) (m : Misbehavior) (typeName : String) (validatorKey : Value) : Tx :=
  let evidenceId := misbehaviorEvidenceId B m typeName validatorKey
  let signature := "evidence-penalty:" ++ evidenceId
  let kwargs := .dict [("member", validatorKey), ("infraction_type", .str typeName),
    ("evidence_id", .str evidenceId), ("evidence_height", .int m.height)]
  { sender := systemEvidenceSender
    contract := "validators"
    function := "apply_evidence_penalty"
    kwargs := kwargs
    nonce := .none
    chiSupplied := 0
    hash := C.hash kwargs signature
    environment := C.environment block signature
    sizeBytes := C.sizeBytes kwargs signature }

/-- `status == 0` and something written. -/
def penaltyApplied : Option (TxOutcome × List (String × Value)) → Bool
  | some (outcome, writes) => outcome.output.statusCode = 0 ∧ writes ≠ []
  | none => false

/-- One turn of the loop of `maybe_apply_evidence_penalties`. An unmetered call does not use the chi cost. -/
def applyEvidencePenalty (block : BlockMeta) (m : Misbehavior) : BlockM Bool := fun view =>
  match misbehaviorTypeName m.type with
  | none => (.ok false, [])
  | some typeName =>
    match resolveMisbehavingValidatorKey B members view.current m.validatorAddress with
    | .error e => (.error e, [])
    | .ok none => (.ok false, [])
    | .ok (some validatorKey) =>
      let (response, final) := processTx E R .systemUnmetered false ⟨view.current, .empty, none⟩
        (evidenceTx B C block m typeName validatorKey)
      (.ok (penaltyApplied response), final.pending.items)

def evidenceLoop (block : BlockMeta) : List Misbehavior → BlockM Bool
  | [] => pure false
  | m :: rest => do
    let applied ← applyEvidencePenalty B members E R C block m
    let anyApplied ← evidenceLoop block rest
    return applied || anyApplied

def maybeApplyEvidencePenalties (req : FinalizeRequest) : BlockM Bool :=
  evidenceLoop B members E R C (blockMeta req) req.misbehavior

end Penalties

/-! ### When a penalty raises -/

section Resolve

/-- The entry has the consensus address. -/
def HasAddress (validatorAddress : Bytes) (entry : Value) : Prop :=
  validatorConsensusAddress entry = .ok (some validatorAddress)

/-- Every entry up to the first one with the address is a text. -/
def TextUpTo (validatorAddress : Bytes) (items : List Value) : Prop :=
  ∀ pre entry post, items = pre ++ entry :: post → (∀ x ∈ pre, ¬ HasAddress validatorAddress x) →
    (hexText entry).isSome = true

theorem validatorConsensusAddress_ok_iff {entry : Value} :
    (∃ a, validatorConsensusAddress entry = .ok a) ↔ (hexText entry).isSome = true := by
  unfold validatorConsensusAddress
  rcases hexText entry with _ | text
  · simp
  · simp

theorem textUpTo_cons {a : Bytes} {entry : Value} {rest : List Value} :
    TextUpTo a (entry :: rest) ↔ (hexText entry).isSome = true ∧ (HasAddress a entry ∨ TextUpTo a rest) := by
  constructor
  · intro h
    refine ⟨h [] entry rest rfl (fun x hx => by cases hx), ?_⟩
    by_cases hentry : HasAddress a entry
    · exact .inl hentry
    · refine .inr fun pre x post hrest hpre => h (entry :: pre) x post (by rw [hrest]; rfl) ?_
      intro y hy
      rcases List.mem_cons.1 hy with rfl | hy
      · exact hentry
      · exact hpre y hy
  · rintro ⟨htext, hrest⟩ pre x post heq hpre
    rcases pre with _ | ⟨y, pre⟩
    · obtain ⟨rfl, -⟩ := List.cons.inj heq
      exact htext
    · obtain ⟨rfl, hsplit⟩ := List.cons.inj heq
      rcases hrest with hentry | hrest
      · exact absurd hentry (hpre _ (List.mem_cons_self ..))
      · exact hrest pre x post hsplit fun z hz => hpre z (List.mem_cons_of_mem _ hz)

theorem resolveLoop_ok_iff (a : Bytes) (items : List Value) :
    (∃ key, resolveLoop a items = .ok key) ↔ TextUpTo a items := by
  induction items with
  | nil =>
    refine ⟨fun _ pre entry post h => ?_, fun _ => ⟨none, rfl⟩⟩
    cases pre <;> cases h
  | cons entry rest ih =>
    rw [textUpTo_cons, ← validatorConsensusAddress_ok_iff]
    unfold resolveLoop HasAddress
    rcases haddress : validatorConsensusAddress entry with e | address
    · simp [bind, Except.bind]
    · by_cases hfound : address = some a
      · simp [bind, Except.bind, hfound, pure, Except.pure]
      · simp [bind, Except.bind, hfound, ih]

/-- An entry that is no hexadecimal text does not change what is found. -/
theorem resolveLoop_skips (a : Bytes) (items : List Value) :
    resolveLoop a (items.filter fun entry => validatorConsensusAddress entry ≠ .ok none) = resolveLoop a items := by
  induction items with
  | nil => rfl
  | cons entry rest ih =>
    by_cases hentry : validatorConsensusAddress entry = .ok none
    · rw [List.filter_cons_of_neg (by simpa using hentry), ih]
      conv_rhs => unfold resolveLoop
      rw [hentry]
      rfl
    · rw [List.filter_cons_of_pos (by simpa using hentry)]
      unfold resolveLoop
      rw [ih]

end Resolve

section Aborts

variable {B : Builtins} {members : Json → List Value} {E : Decimals} {R : Runtime} {C : SystemCall}
  {block : BlockMeta} {view : DriverView}

/-- The stored lists let a misbehaving validator be looked up: for a known kind of misbehavior and an
address, the list is one, and texts stand up to the accused. -/
def SafeEntry (B : Builtins) (members : Json → List Value) (view : DriverView) (m : Misbehavior) : Prop :=
  misbehaviorTypeName m.type ≠ none → m.validatorAddress ≠ [] →
    ∃ items, storedItems members (knownValidators B view.current) = .ok items ∧ TextUpTo m.validatorAddress items

/-- The entries of a block, each with the view the penalties before it leave. -/
def evidenceViews (B : Builtins) (members : Json → List Value) (E : Decimals) (R : Runtime) (C : SystemCall)
    (block : BlockMeta) : DriverView → List Misbehavior → List (DriverView × Misbehavior)
  | _, [] => []
  | view, m :: rest =>
    (view, m) :: evidenceViews B members E R C block
      (view.overwrite (applyEvidencePenalty B members E R C block m view).2) rest

theorem applyEvidencePenalty_ok_iff (m : Misbehavior) :
    (∃ applied, (applyEvidencePenalty B members E R C block m view).1 = .ok applied) ↔ SafeEntry B members view m := by
  unfold applyEvidencePenalty SafeEntry
  rcases misbehaviorTypeName m.type with _ | typeName
  · simp
  have hresolve : (∃ key, resolveMisbehavingValidatorKey B members view.current m.validatorAddress = .ok key) ↔
      (m.validatorAddress ≠ [] → ∃ items, storedItems members (knownValidators B view.current) = .ok items ∧
        TextUpTo m.validatorAddress items) := by
    unfold resolveMisbehavingValidatorKey
    by_cases hempty : m.validatorAddress = []
    · simp [hempty]
    · rw [if_neg hempty]
      simp only [bind_eq_ok, ← resolveLoop_ok_iff]
      constructor
      · rintro ⟨key, items, hitems, hkey⟩ -
        exact ⟨items, hitems, key, hkey⟩
      · intro h
        obtain ⟨items, hitems, key, hkey⟩ := h hempty
        exact ⟨key, items, hitems, hkey⟩
  simp only [ne_eq, reduceCtorEq, not_false_eq_true, true_imp_iff, ← hresolve]
  rcases resolveMisbehavingValidatorKey B members view.current m.validatorAddress with e | _ | key
  · simp
  · simp
  · simp

/-- The penalties of a block go through exactly where each entry finds lists it can be looked up in. -/
theorem evidenceLoop_ok_iff (entries : List Misbehavior) :
    (∃ applied, (evidenceLoop B members E R C block entries view).1 = .ok applied) ↔
      ∀ p ∈ evidenceViews B members E R C block view entries, SafeEntry B members p.1 p.2 := by
  induction entries generalizing view with
  | nil =>
    refine ⟨fun _ p hp => ?_, fun _ => ⟨false, rfl⟩⟩
    cases hp
  | cons m rest ih =>
    have hm : (∃ applied, (applyEvidencePenalty B members E R C block m view).1 = .ok applied) ↔
      SafeEntry B members view m := applyEvidencePenalty_ok_iff m
    rw [evidenceViews, List.forall_mem_cons, ← ih, ← hm]
    change (∃ applied, (BlockM.bind (applyEvidencePenalty B members E R C block m) _ view).1 = .ok applied) ↔ _
    unfold BlockM.bind
    rcases applyEvidencePenalty B members E R C block m view with ⟨e | applied, sets⟩
    · simp
    · change (∃ a, (BlockM.bind (evidenceLoop B members E R C block rest) _ (view.overwrite sets)).1 = .ok a) ↔ _
      unfold BlockM.bind
      rcases evidenceLoop B members E R C block rest (view.overwrite sets) with ⟨e | anyApplied, sets'⟩
      · simp
      · simp [pure]

end Aborts

end XianAbci
