import XianAbci.BlockStages
import XianAbci.Lib.MapDiff

/-!
# The validator set (`validators.py`)

The `validators` contract keeps a list of keys and a power for each. Every block the node reads the
selection from it, compares it with the effective set it recorded with the last committed block
(`validators.__consensus__`) and reports the difference to CometBFT; an empty or unusable selection
keeps the recorded set.
-/

namespace XianAbci

def consensusValidatorsKey : String := "validators.__consensus__"
def activeValidatorsKey : String := "validators.active_validators"
def powersKey (validator : String) : String := "validators.powers:" ++ validator
def defaultValidatorPower : Int := 10

/-- `vk_is_formatted` of a string: 64 hexadecimal digits. -/
def vkIsFormatted (s : String) : Bool := s.toList.length = 64 ∧ s.toList.all fun c => (hexVal c).isSome

/-- `s.lower()` of hexadecimal text. -/
def lowerHex (s : String) : String := String.ofList (s.toList.map Char.toLower)

/-- What Python does with numbers this development does not compute with: a float, by its `repr`. -/
structure FloatOps where
  nonPositive : String → Bool
  toInt : String → Except PyErr Int
  toInt_nonneg : ∀ r i, nonPositive r = false → toInt r = .ok i → 0 ≤ i

/-- `int(units · 10⁻ˢᶜᵃˡᵉ)` of a positive number, or the default for one that is not. -/
def decimalPower (units : Int) (scale : Nat) : Int :=
  if units ≤ 0 then defaultValidatorPower else units / 10 ^ scale

section Selection

variable (B : Builtins) (F : FloatOps)

def validatorPower : Value → Except PyErr Int
  | .none => .ok defaultValidatorPower
  | .int i => .ok (if i ≤ 0 then defaultValidatorPower else i)
  | .bool b => .ok (if b then 1 else defaultValidatorPower)
  | .decimal d => .ok (decimalPower d.units 30)
  | .pyDecimal units scale => .ok (decimalPower units scale)
  | .float repr => if F.nonPositive repr then .ok defaultValidatorPower else F.toInt repr
  -- text, lists, dicts, sets, times and bytes do not compare with 0
  | _ => .error (.typeError "'<=' not supported between instances")

/-- The loop of `get_validators_from_state`; two spellings of a key with different powers end it. -/
def selectValidators (read : String → Value) :
    List Value → PyDict String Int → Except PyErr (Option (PyDict String Int))
  | [], desired => .ok (some desired)
  | .str validator :: rest, desired =>
    if ¬ vkIsFormatted validator then selectValidators read rest desired
    else match validatorPower F (read (powersKey validator)) with
      | .error e => .error e
      | .ok power =>
        if (desired.get? (lowerHex validator)).any (· ≠ power) then .ok none
        else selectValidators read rest (desired.set (lowerHex validator) power)
  | _ :: rest, desired => selectValidators read rest desired

def getValidatorsFromState (read : String → Value) : Except PyErr (Option (PyDict String Int)) :=
  match orDefault B (read activeValidatorsKey) (.list []) with
  | .list items => selectValidators F read items .empty
  | _ => .ok none

/-- A set of validators as a state value. -/
def validatorSetValue (validators : PyDict String Int) : Value :=
  .dict (validators.items.map fun p => (p.1, .int p.2))

def committedValidators (committed : String → Value) : Except PyErr Value :=
  match committed consensusValidatorsKey with
  -- bootstrap of a chain without a record
  | .none => (getValidatorsFromState B F committed).map fun selected => validatorSetValue (selected.getD .empty)
  | record => .ok record

end Selection

/-! ### Updates -/

/-- A power as the number Python compares. -/
def powerNumber : Value → Option ℚ
  | .int i => some i
  | .bool b => some (if b then 1 else 0)
  | .decimal d => some d.toRat
  | .pyDecimal units scale => some (units / 10 ^ scale)
  | _ => none

/-- `a == b` of two powers. -/
def samePower (a b : Value) : Bool :=
  match powerNumber a, powerNumber b with
  | some x, some y => x = y
  | _, _ => a = b

/-- `ValidatorUpdate(...)`, whose power is a 64-bit integer. -/
def validatorUpdate (validator : String) : Value → Except PyErr ValidatorUpdate
  | .int power => do
    let pubKey ← bytesFromHex validator
    require (-2 ^ 63 ≤ power ∧ power < 2 ^ 63) (.valueError ("Value out of range: " ++ toString power))
    return ⟨pubKey, power⟩
  | _ => .error (.typeError "bad argument type for built-in operation")

def changedUpdates (committed : Value) : List (String × Value) → Except PyErr (List ValidatorUpdate)
  | [] => .ok []
  | (validator, power) :: rest => do
    let currentPower ← committed.get validator .none
    if samePower currentPower power then changedUpdates committed rest
    else return (← validatorUpdate validator power) :: (← changedUpdates committed rest)

def removedUpdates (state : List (String × Value)) : List String → Except PyErr (List ValidatorUpdate)
  | [] => .ok []
  | validator :: rest => do
    if validator ∈ state.map Prod.fst then removedUpdates state rest
    else return (← validatorUpdate validator (.int 0)) :: (← removedUpdates state rest)

/-- `value.items()`. -/
def Value.items : Value → Except PyErr (List (String × Value))
  | .dict entries => .ok entries
  | _ => .error (.attributeError "object has no attribute 'items'")

def validatorUpdates (state committed : Value) : Except PyErr (List ValidatorUpdate) := do
  let entries ← state.items
  let changed ← changedUpdates committed entries
  let removed ← removedUpdates entries ((← committed.items).map Prod.fst)
  return changed ++ removed

/-- The selection, or the committed set where nothing valid is selected. -/
def effectiveValidators (selected : Option (PyDict String Int)) (committed : Value) : Value :=
  match selected with
  | none => committed
  | some desired => if desired.isEmpty then committed else validatorSetValue desired

/-- `if validators_state:`. -/
def recordTruthy (B : Builtins) : Value → Bool
  | .dict entries => !entries.isEmpty
  | v => B.truthy v

def recordValidators (B : Builtins) (state : Value) : BlockM Unit :=
  if recordTruthy B state then .set consensusValidatorsKey state else pure ()

/-- `build_validator_updates`: the record is set before the updates are built. -/
def buildValidatorUpdates (B : Builtins) (F : FloatOps) : BlockM (List ValidatorUpdate) := do
  let selected ← fun view => (getValidatorsFromState B F view.current, [])
  let committed ← fun view => (committedValidators B F view.committed, [])
  let state := effectiveValidators selected committed
  recordValidators B state
  .lift (validatorUpdates state committed)

/-! ### Keys -/

theorem hexVal_lower : ∀ n < 128, (match hexVal (Char.ofNat n) with
    | some h => decide (h < 16 ∧ (Char.ofNat n).toLower = hexDigit h)
    | none => true) = true := by
  decide +kernel

theorem toLower_of_hexVal {c : Char} {h : Nat} (hc : hexVal c = some h) : h < 16 ∧ c.toLower = hexDigit h := by
  have hlt : c.toNat < 128 := by
    unfold hexVal at hc
    dsimp only at hc
    split at hc
    · omega
    · split at hc
      · omega
      · split at hc
        · omega
        · cases hc
  have hn := hexVal_lower c.toNat hlt
  rw [Char.ofNat_toNat, hc] at hn
  exact of_decide_eq_true hn

theorem lower_eq_flatMap (m : Nat) (l : List Char) (hlen : l.length = 2 * m)
    (hhex : ∀ c ∈ l, (hexVal c).isSome) :
    ∃ b : Bytes, l.map Char.toLower = b.flatMap fun x => hexDigits 2 x.toNat := by
  induction m generalizing l with
  | zero =>
    rw [List.length_eq_zero_iff.1 (by omega : l.length = 0)]
    exact ⟨[], rfl⟩
  | succ m ih =>
    match l, hlen with
    | c :: d :: rest, hlen =>
      obtain ⟨b, hb⟩ := ih rest (by simp only [List.length_cons] at hlen; omega)
        fun x hx => hhex x (by simp [hx])
      obtain ⟨hi, hhi⟩ := Option.isSome_iff_exists.1 (hhex c (by simp))
      obtain ⟨lo, hlo⟩ := Option.isSome_iff_exists.1 (hhex d (by simp))
      obtain ⟨hhi16, hc⟩ := toLower_of_hexVal hhi
      obtain ⟨hlo16, hd⟩ := toLower_of_hexVal hlo
      refine ⟨UInt8.ofNat (16 * hi + lo) :: b, ?_⟩
      have hnat : (UInt8.ofNat (16 * hi + lo)).toNat = 16 * hi + lo := by
        rw [UInt8.toNat_ofNat']; omega
      have hdigits : hexDigits 2 (UInt8.ofNat (16 * hi + lo)).toNat = [hexDigit hi, hexDigit lo] := by
        rw [hnat]
        simp only [hexDigits]
        rw [show (16 * hi + lo) / 16 ^ 1 % 16 = hi by omega, show (16 * hi + lo) / 16 ^ 0 % 16 = lo by omega]
      rw [List.map_cons, List.map_cons, hb, hc, hd, List.flatMap_cons, hdigits]
      rfl

/-- A key in lower case is the text of a public key. -/
theorem lowerHex_of_formatted {v : String} (h : vkIsFormatted v) : ∃ pubKey, lowerHex v = bytesHex pubKey := by
  unfold vkIsFormatted at h
  simp only [Bool.decide_and, Bool.and_eq_true, decide_eq_true_eq, List.all_eq_true] at h
  obtain ⟨b, hb⟩ := lower_eq_flatMap 32 v.toList h.1 h.2
  exact ⟨b, by rw [lowerHex, hb]; rfl⟩

end XianAbci
