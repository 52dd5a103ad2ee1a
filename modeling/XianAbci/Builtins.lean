import Mathlib.Data.List.Forall2
import XianAbci.Encoding

/-!
# Python built-ins on untyped values

Documents, snapshot metadata and stored values are untyped, and the code applies `int`, `str`, `==`
and truth tests to whatever it finds in them. `Builtins` carries these conversions; of their
behaviour only what the node's own values need is fixed. Indexing, `get` and iteration are written
out, with the exceptions they raise.
-/

namespace XianAbci

theorem bind_eq_ok {α β : Type} {x : Except PyErr α} {f : α → Except PyErr β} {b : β} :
    (x >>= f) = .ok b ↔ ∃ a, x = .ok a ∧ f a = .ok b := by
  cases x with
  | error e =>
    constructor
    · intro h; cases h
    · rintro ⟨_, h, -⟩; cases h
  | ok a =>
    constructor
    · intro h; exact ⟨a, rfl, h⟩
    · rintro ⟨_, h, hb⟩; cases h; exact hb

theorem mapM_eq_ok {α β : Type} {f : α → Except PyErr β} {l : List α} {l' : List β} :
    l.mapM f = .ok l' ↔ List.Forall₂ (fun a b => f a = .ok b) l l' := by
  induction l generalizing l' with
  | nil =>
    rw [List.mapM_nil, List.forall₂_nil_left_iff]
    exact ⟨fun h => (Except.ok.inj h).symm, fun h => by rw [h]; rfl⟩
  | cons a l ih =>
    rw [List.mapM_cons, bind_eq_ok]
    constructor
    · rintro ⟨b, hb, h⟩
      obtain ⟨rest, hrest, h⟩ := bind_eq_ok.1 h
      cases h
      exact .cons hb (ih.1 hrest)
    · intro h
      cases h with
      | cons hb hrest => exact ⟨_, hb, bind_eq_ok.2 ⟨_, ih.2 hrest, rfl⟩⟩

theorem exists_ok_of_isOk {α : Type} {x : Except PyErr α} (h : x.isOk) : ∃ a, x = .ok a := by
  cases x with
  | ok a => exact ⟨a, rfl⟩
  | error e => cases h

theorem ok_of_toOption {α ε : Type} {x : Except ε α} {a : α} (h : x.toOption = some a) : x = .ok a := by
  cases x with
  | error e => cases h
  | ok b => exact congrArg Except.ok (Option.some.inj h)

/-- `if not p: raise e`. -/
def require (p : Prop) [Decidable p] (e : PyErr) : Except PyErr Unit := if p then .ok () else .error e

@[simp] theorem require_eq_ok {p : Prop} [Decidable p] {e : PyErr} {u : Unit} : require p e = .ok u ↔ p := by
  unfold require
  split <;> simp_all

/-- `f"{v}"`, `int(v)`, `a == b` and `bool(v)`. -/
structure Builtins where
  format : Value → String
  toInt : Value → Except PyErr Int
  eq : Value → Value → Bool
  truthy : Value → Bool
  format_str : ∀ s, format (.str s) = s
  toInt_int : ∀ i, toInt (.int i) = .ok i
  eq_refl : ∀ v, eq v v = true
  truthy_str : ∀ s, truthy (.str s) = decide (s ≠ "")
  truthy_int : ∀ i, truthy (.int i) = decide (i ≠ 0)
  truthy_list : ∀ items, truthy (.list items) = !items.isEmpty

/-- The conversions on the values a plain JSON document holds; other objects have no text or number. -/
def Builtins.plain : Builtins where
  format
    | .str s => s
    | .int i => toString i
    | .bool b => if b then "True" else "False"
    | .none => "None"
    | .float repr => repr
    | _ => "object"
  toInt
    | .int i => .ok i
    | .bool b => .ok (if b then 1 else 0)
    | .str s => match s.toInt? with
      | some i => .ok i
      | none => .error (.valueError "invalid literal for int() with base 10")
    | _ => .error (.typeError "int() argument must be a string, a bytes-like object or a real number")
  eq a b := decide (a = b)
  truthy
    | .none => false
    | .bool b => b
    | .int i => decide (i ≠ 0)
    | .str s => decide (s ≠ "")
    | .list items => !items.isEmpty
    | .tuple items => !items.isEmpty
    | .dict entries => !entries.isEmpty
    | .bytes b => !b.isEmpty
    | _ => true
  format_str _ := rfl
  toInt_int _ := rfl
  eq_refl _ := decide_eq_true rfl
  truthy_str _ := rfl
  truthy_int _ := rfl
  truthy_list _ := rfl

namespace Value

/-- `v[key]`. -/
def index (v : Value) (key : String) : Except PyErr Value :=
  match v with
  | .dict entries => match entries.lookup key with
    | some w => .ok w
    | Option.none => .error (.keyError key)
  | _ => .error (.typeError "object is not subscriptable by a string")

/-- `v.get(key, default)`. -/
def get (v : Value) (key : String) (default : Value) : Except PyErr Value :=
  match v with
  | .dict entries => .ok ((entries.lookup key).getD default)
  | _ => .error (.attributeError "object has no attribute 'get'")

/-- The items a `for` loop sees. A wrapper set holds no dict, so a loop that indexes its items by a
string raises on one; an empty set is not told apart. -/
def iter : Value → Except PyErr (List Value)
  | .list items => .ok items
  | .tuple items => .ok items
  | .dict entries => .ok (entries.map fun p => .str p.1)
  | .str s => .ok (s.toList.map fun c => .str (String.singleton c))
  | .bytes b => .ok (b.map fun x => .int x.toNat)
  | _ => .error (.typeError "object is not iterable")

end Value

/-- `isinstance(v, int)`, as the number. -/
def asInt : Value → Option Int
  | .int i => some i
  | .bool b => some (if b then 1 else 0)
  | _ => none

def asStr : Value → Option String
  | .str s => some s
  | _ => none

mutual
/-- `json.dumps(v)`. -/
def plainJson : Value → Except PyErr Json
  | .none => .ok .null
  | .bool b => .ok (.bool b)
  | .int i => .ok (.int i)
  | .float repr => .ok (.float repr)
  | .str s => .ok (.str s)
  | .list items => return .arr (← plainJsonItems items)
  | .tuple items => return .arr (← plainJsonItems items)
  | .dict entries => return .obj (← plainJsonEntries entries)
  | _ => .error (.typeError "Object is not JSON serializable")

def plainJsonItems : List Value → Except PyErr (List Json)
  | [] => return []
  | v :: rest => return (← plainJson v) :: (← plainJsonItems rest)

def plainJsonEntries : List (String × Value) → Except PyErr (List (String × Json))
  | [] => return []
  | (k, v) :: rest => return (k, ← plainJson v) :: (← plainJsonEntries rest)
end

mutual
/-- A JSON document as `json.loads` returns it. -/
def jsonValue : Json → Value
  | .null => .none
  | .bool b => .bool b
  | .int i => .int i
  | .float repr => .float repr
  | .str s => .str s
  | .arr items => .list (jsonValues items)
  | .obj entries => .dict (jsonValueEntries entries)

def jsonValues : List Json → List Value
  | [] => []
  | j :: rest => jsonValue j :: jsonValues rest

def jsonValueEntries : List (String × Json) → List (String × Value)
  | [] => []
  | (k, j) :: rest => (k, jsonValue j) :: jsonValueEntries rest
end

mutual
theorem plainJson_jsonValue : ∀ j : Json, plainJson (jsonValue j) = .ok j
  | .null | .bool _ | .int _ | .float _ | .str _ => by simp [jsonValue, plainJson]
  | .arr items => by
    rw [jsonValue, plainJson, plainJsonItems_jsonValues items]
    rfl
  | .obj entries => by
    rw [jsonValue, plainJson, plainJsonEntries_jsonValueEntries entries]
    rfl

theorem plainJsonItems_jsonValues : ∀ l : List Json, plainJsonItems (jsonValues l) = .ok l
  | [] => by
    rw [jsonValues, plainJsonItems]
    rfl
  | j :: rest => by
    rw [jsonValues, plainJsonItems, plainJson_jsonValue j, plainJsonItems_jsonValues rest]
    rfl

theorem plainJsonEntries_jsonValueEntries : ∀ l : List (String × Json), plainJsonEntries (jsonValueEntries l) = .ok l
  | [] => by
    rw [jsonValueEntries, plainJsonEntries]
    rfl
  | (k, j) :: rest => by
    rw [jsonValueEntries, plainJsonEntries, plainJson_jsonValue j, plainJsonEntries_jsonValueEntries rest]
    rfl
end

theorem jsonValue_injective : Function.Injective jsonValue := fun i j h => by
  have hplain := congrArg plainJson h
  rw [plainJson_jsonValue, plainJson_jsonValue] at hplain
  exact Except.ok.inj hplain

/-! ### Hexadecimal text -/

def hexVal (c : Char) : Option Nat :=
  let n := c.toNat
  if 48 ≤ n ∧ n ≤ 57 then some (n - 48)
  else if 97 ≤ n ∧ n ≤ 102 then some (n - 87)
  else if 65 ≤ n ∧ n ≤ 70 then some (n - 55)
  else none

def isAsciiSpace (c : Char) : Bool := c.toNat = 32 ∨ 9 ≤ c.toNat ∧ c.toNat ≤ 13

def fromHexChars : List Char → Option Bytes
  | [] => some []
  | c :: rest =>
    if isAsciiSpace c then fromHexChars rest
    else match rest with
      | [] => none
      | d :: rest' => do
        let hi ← hexVal c
        let lo ← hexVal d
        let bytes ← fromHexChars rest'
        return UInt8.ofNat (16 * hi + lo) :: bytes

/-- `bytes.fromhex(s)`: pairs of hexadecimal digits of either case, ASCII blanks between pairs. -/
def bytesFromHex (s : String) : Except PyErr Bytes :=
  match fromHexChars s.toList with
  | some b => .ok b
  | none => .error (.valueError "non-hexadecimal number found in fromhex() arg")

theorem hexVal_hexDigit : ∀ n < 16, hexVal (hexDigit n) = some n ∧ isAsciiSpace (hexDigit n) = false := by
  decide

theorem fromHexChars_bytesHex (b : Bytes) :
    fromHexChars (b.flatMap fun x => hexDigits 2 x.toNat) = some b := by
  induction b with
  | nil => rfl
  | cons x rest ih =>
    have hx : x.toNat < 256 := x.toNat_lt
    obtain ⟨h₁, s₁⟩ := hexVal_hexDigit (x.toNat / 16) (by omega)
    obtain ⟨h₂, s₂⟩ := hexVal_hexDigit (x.toNat % 16) (by omega)
    have e₁ : x.toNat / 16 ^ 1 % 16 = x.toNat / 16 := by omega
    have e₂ : x.toNat / 16 ^ 0 % 16 = x.toNat % 16 := by omega
    have hbyte : UInt8.ofNat (16 * (x.toNat / 16) + x.toNat % 16) = x := by
      rw [Nat.div_add_mod]; exact UInt8.ofNat_toNat
    have hx₂ : hexDigits 2 x.toNat = [hexDigit (x.toNat / 16), hexDigit (x.toNat % 16)] := by
      simp only [hexDigits, e₁, e₂]
    rw [List.flatMap_cons, hx₂]
    simp only [List.cons_append, List.nil_append, fromHexChars, s₁, Bool.false_eq_true, ↓reduceIte, h₁, h₂, ih,
      Option.bind_eq_bind, Option.bind_some, hbyte]
    rfl

@[simp] theorem bytesFromHex_bytesHex (b : Bytes) : bytesFromHex (bytesHex b) = .ok b := by
  rw [bytesFromHex, bytesHex, String.toList_ofList, fromHexChars_bytesHex]

theorem bytesHex_injective : Function.Injective bytesHex := fun a b h => by
  have := congrArg bytesFromHex h
  rw [bytesFromHex_bytesHex, bytesFromHex_bytesHex] at this
  exact Except.ok.inj this

end XianAbci
