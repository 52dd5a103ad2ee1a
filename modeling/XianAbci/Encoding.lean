import XianAbci.Value

/-!
# The ABCI JSON encoder (`utils/encoding.py`)

`encodeAbciJson` is what a state-root leaf and a transaction receipt are made of: values are
normalised to plain JSON (`normalizeForAbciJson`: decimals, times and bytes become strings, dicts are
sorted by key, tuples become lists) and written by `json.dumps` with `ensure_ascii` and no blanks.
-/

namespace XianAbci

/-! ### Text helpers -/

/-- `s.encode("utf-8")`. -/
def encodeStr (s : String) : Bytes := s.toUTF8.toList

def hexDigit (n : Nat) : Char := if n < 10 then Char.ofNat (48 + n) else Char.ofNat (87 + n)

/-- `n` lower-case hexadecimal digits of `x`. -/
def hexDigits : Nat → Nat → List Char
  | 0, _ => []
  | n + 1, x => hexDigit (x / 16 ^ n % 16) :: hexDigits n x

/-- `b.hex()`. -/
def bytesHex (b : Bytes) : String := String.ofList (b.flatMap fun x => hexDigits 2 x.toNat)

def sha256Hex (b : Bytes) : String := bytesHex (sha256 b)

def digitsFixed : Nat → Nat → List Char
  | 0, _ => []
  | n + 1, x => Char.ofNat (48 + x / 10 ^ n % 10) :: digitsFixed n x

/-- `n` decimal digits of `x`, zero-padded. -/
def padDecimal (n x : Nat) : String := String.ofList (digitsFixed n x)

def stripZeros (s : List Char) : List Char := (s.reverse.dropWhile (· = '0')).reverse

/-- `_decimal_to_plain_string` of `units · 10⁻ˢᶜᵃˡᵉ`: plain notation, trailing zeros of the fraction
and a bare point dropped, and no negative zero. -/
def decimalToPlainString (units : Int) (scale : Nat) : String :=
  let whole := units.natAbs / 10 ^ scale
  let fraction := stripZeros (digitsFixed scale (units.natAbs % 10 ^ scale))
  let text := (toString whole).toList ++ if fraction = [] then [] else '.' :: fraction
  String.ofList (if units < 0 then '-' :: text else text)

def Datetime.date (t : Datetime) : String :=
  padDecimal 4 t.year ++ "-" ++ padDecimal 2 t.month ++ "-" ++ padDecimal 2 t.day

def Datetime.time (t : Datetime) : String :=
  padDecimal 2 t.hour ++ ":" ++ padDecimal 2 t.minute ++ ":" ++ padDecimal 2 t.second ++
    if t.microsecond = 0 then "" else "." ++ padDecimal 6 t.microsecond

/-- `str(Datetime)`. -/
def Datetime.str (t : Datetime) : String := t.date ++ " " ++ t.time

/-- `datetime.isoformat()`. -/
def Datetime.isoformat (t : Datetime) : String := t.date ++ "T" ++ t.time

def byteRepr (quote : Char) (x : UInt8) : List Char :=
  let c := Char.ofNat x.toNat
  if c = quote ∨ c = '\\' then ['\\', c]
  else if c = '\t' then ['\\', 't']
  else if c = '\n' then ['\\', 'n']
  else if c = '\r' then ['\\', 'r']
  else if x.toNat < 32 ∨ 127 ≤ x.toNat then '\\' :: 'x' :: hexDigits 2 x.toNat
  else [c]

/-- `str(b)` of a bytes object: its `repr`. -/
def bytesRepr (b : Bytes) : String :=
  let quote := if 39 ∈ b ∧ 34 ∉ b then '"' else '\''
  String.ofList ('b' :: quote :: b.flatMap (byteRepr quote) ++ [quote])

/-- `b.decode("utf-8")`, or `str(b)` where the bytes are not UTF-8. -/
def bytesText (b : Bytes) : String := (String.fromUTF8? b.toByteArray).getD (bytesRepr b)

/-! ### Normalisation -/

def insertEntry {β : Type} (k : String) (v : β) : List (String × β) → List (String × β)
  | [] => [(k, v)]
  | (k', v') :: rest => if k ≤ k' then (k, v) :: (k', v') :: rest else (k', v') :: insertEntry k v rest

mutual
def normalizeForAbciJson : Value → Except PyErr Json
  | .set encoded => .ok encoded
  | .exception text => .ok (.str text)
  | .decimal d => .ok (.str (decimalToPlainString d.units 30))
  | .pyDecimal units scale => .ok (.str (decimalToPlainString units scale))
  | .pyDatetime t => .ok (.str t.isoformat)
  | .datetime t => .ok (.str t.str)
  | .bytes b => .ok (.str (bytesText b))
  | .dict entries => (normalizeEntries entries).map .obj
  | .tuple items => (normalizeItems items).map .arr
  | .list items => (normalizeItems items).map .arr
  | .none => .ok .null
  | .bool b => .ok (.bool b)
  | .int i => .ok (.int i)
  | .float repr => .ok (.float repr)
  | .str s => .ok (.str s)
  -- `json.dumps` has no encoding for the object; normalisation passes it on unchanged
  | .object typeName => .error (.typeError ("Object of type " ++ typeName ++ " is not JSON serializable"))

def normalizeItems : List Value → Except PyErr (List Json)
  | [] => .ok []
  | v :: rest => do return (← normalizeForAbciJson v) :: (← normalizeItems rest)

/-- The entries of a dict, normalised and sorted by key. -/
def normalizeEntries : List (String × Value) → Except PyErr (List (String × Json))
  | [] => .ok []
  | (k, v) :: rest => do return insertEntry k (← normalizeForAbciJson v) (← normalizeEntries rest)
end

/-! ### `json.dumps(…, separators=(",", ":"))` -/

def escapeUnit (n : Nat) : List Char := '\\' :: 'u' :: hexDigits 4 n

def escapeChar (c : Char) : List Char :=
  if c = '"' then ['\\', '"']
  else if c = '\\' then ['\\', '\\']
  else if c = '\n' then ['\\', 'n']
  else if c = '\r' then ['\\', 'r']
  else if c = '\t' then ['\\', 't']
  else if c.toNat = 12 then ['\\', 'f']
  else if c.toNat = 8 then ['\\', 'b']
  else if 32 ≤ c.toNat ∧ c.toNat ≤ 126 then [c]
  else if c.toNat < 0x10000 then escapeUnit c.toNat
  else escapeUnit (0xd800 + (c.toNat - 0x10000) / 1024) ++ escapeUnit (0xdc00 + (c.toNat - 0x10000) % 1024)

def dumpsStr (s : String) : List Char := '"' :: s.toList.flatMap escapeChar ++ ['"']

mutual
def dumps : Json → List Char
  | .null => "null".toList
  | .bool true => "true".toList
  | .bool false => "false".toList
  | .int i => (toString i).toList
  | .float repr => repr.toList
  | .str s => dumpsStr s
  | .arr [] => ['[', ']']
  | .arr (v :: rest) => '[' :: dumps v ++ dumpsItems rest
  | .obj [] => ['{', '}']
  | .obj ((k, v) :: rest) => '{' :: dumpsStr k ++ ':' :: dumps v ++ dumpsEntries rest

/-- The items of an array after the first, and its closing bracket. -/
def dumpsItems : List Json → List Char
  | [] => [']']
  | v :: rest => ',' :: dumps v ++ dumpsItems rest

/-- The entries of an object after the first, and its closing brace. -/
def dumpsEntries : List (String × Json) → List Char
  | [] => ['}']
  | (k, v) :: rest => ',' :: dumpsStr k ++ ':' :: dumps v ++ dumpsEntries rest
end

def encodeAbciJson (v : Value) : Except PyErr Bytes := do
  let normalized ← normalizeForAbciJson v
  return encodeStr (String.ofList (dumps normalized))

example : encodeAbciJson (.dict [("b", .bytes [0x61, 0x62, 0x63]),
      ("a", .list [.int 1, .bool true, .tuple [.int 2, .str "x"]])]) =
    .ok (encodeStr "\x7b\"a\":[1,true,[2,\"x\"]],\"b\":\"abc\"\x7d") := by decide +kernel

end XianAbci
