import XianAbci.JsonText
import XianAbci.Lib.PyDict

/-!
# `json.loads`

A document is read back from its text: blanks are skipped, numbers are read as far as they go, a later entry of
an object replaces an earlier one. What `json.dumps` writes is read as the document it was written from
(`loads_dumps`).

A float is carried by its text. A lone surrogate has no character here and is an error.
-/

namespace XianAbci

/-! ### The scanner -/

def isBlank (c : Char) : Bool := c = ' ' ∨ c = '\t' ∨ c = '\n' ∨ c = '\r'

def skipBlanks (s : List Char) : List Char := s.dropWhile isBlank

/-- Four hexadecimal digits. -/
def hexUnit (a b c d : Char) : Option Nat := do
  return 4096 * (← hexVal a) + 256 * (← hexVal b) + 16 * (← hexVal c) + (← hexVal d)

def unescape (e : Char) : Option Char := if e = '/' then some '/' else shortEscape e

/-- The rest of a string, up to its closing quote. -/
def scanString : List Char → Option (List Char × List Char)
  | [] => none
  | '"' :: rest => some ([], rest)
  | '\\' :: 'u' :: a :: b :: c :: d :: rest =>
    match hexUnit a b c d with
    | none => none
    | some unit =>
      if unit < 0xd800 ∨ 0xdfff < unit then (scanString rest).map fun p => (Char.ofNat unit :: p.1, p.2)
      else match rest with
        | '\\' :: 'u' :: a :: b :: c :: d :: rest =>
          match hexUnit a b c d with
          | none => none
          | some low =>
            if unit < 0xdc00 ∧ 0xdc00 ≤ low ∧ low ≤ 0xdfff then
              (scanString rest).map fun p =>
                (Char.ofNat (0x10000 + (unit - 0xd800) * 1024 + (low - 0xdc00)) :: p.1, p.2)
            else none
        | _ => none
  | '\\' :: e :: rest => match unescape e with
    | none => none
    | some c => (scanString rest).map fun p => (c :: p.1, p.2)
  | c :: rest => if c.toNat < 32 then none else (scanString rest).map fun p => (c :: p.1, p.2)

/-- `\.[0-9]+`, where it is there. -/
def scanFraction : List Char → List Char × List Char
  | '.' :: rest => match rest.takeWhile Char.isDigit with
    | [] => ([], '.' :: rest)
    | digits => ('.' :: digits, rest.dropWhile Char.isDigit)
  | s => ([], s)

def scanSign : List Char → List Char × List Char
  | '+' :: rest => (['+'], rest)
  | '-' :: rest => (['-'], rest)
  | s => ([], s)

/-- `[eE][-+]?[0-9]+`, where it is there. -/
def scanExponent (s : List Char) : List Char × List Char :=
  match s with
  | e :: rest =>
    if e = 'e' ∨ e = 'E' then
      let (sign, rest) := scanSign rest
      match rest.takeWhile Char.isDigit with
      | [] => ([], s)
      | digits => (e :: sign ++ digits, rest.dropWhile Char.isDigit)
    else ([], s)
  | [] => ([], s)

/-- `0|[1-9][0-9]*`. -/
def scanWhole : List Char → Option (List Char × List Char)
  | [] => none
  | c :: rest =>
    if c = '0' then some (['0'], rest)
    else if c.isDigit then some (c :: rest.takeWhile Char.isDigit, rest.dropWhile Char.isDigit)
    else none

def numberOf (sign whole fraction exponent : List Char) : Json :=
  let value := (Nat.ofDigitChars 10 whole 0 : Int)
  if fraction = [] ∧ exponent = [] then .int (if sign = [] then value else -value)
  else .float (String.ofList (sign ++ whole ++ fraction ++ exponent))

def scanUnsigned (sign s : List Char) : Option (Json × List Char) :=
  match scanWhole s with
  | none => none
  | some (whole, s) =>
    let (fraction, s) := scanFraction s
    let (exponent, s) := scanExponent s
    some (numberOf sign whole fraction exponent, s)

def scanNumber : List Char → Option (Json × List Char)
  | '-' :: s => scanUnsigned ['-'] s
  | s => scanUnsigned [] s

mutual
def scanValue : Nat → List Char → Option (Json × List Char)
  | 0, _ => none
  | _ + 1, 'n' :: 'u' :: 'l' :: 'l' :: rest => some (.null, rest)
  | _ + 1, 't' :: 'r' :: 'u' :: 'e' :: rest => some (.bool true, rest)
  | _ + 1, 'f' :: 'a' :: 'l' :: 's' :: 'e' :: rest => some (.bool false, rest)
  | _ + 1, 'N' :: 'a' :: 'N' :: rest => some (.float "nan", rest)
  | _ + 1, 'I' :: 'n' :: 'f' :: 'i' :: 'n' :: 'i' :: 't' :: 'y' :: rest => some (.float "inf", rest)
  | _ + 1, '-' :: 'I' :: 'n' :: 'f' :: 'i' :: 'n' :: 'i' :: 't' :: 'y' :: rest => some (.float "-inf", rest)
  | _ + 1, '"' :: rest => (scanString rest).map fun p => (.str (String.ofList p.1), p.2)
  | fuel + 1, '[' :: rest =>
    match skipBlanks rest with
    | ']' :: rest => some (.arr [], rest)
    | rest => (scanItems fuel rest).map fun p => (.arr p.1, p.2)
  | fuel + 1, '{' :: rest =>
    match skipBlanks rest with
    | '}' :: rest => some (.obj [], rest)
    | rest => (scanEntries fuel rest).map fun p => (.obj (PyDict.ofList p.1).items, p.2)
  | _ + 1, s => scanNumber s

/-- The items of an array from one on, and its closing bracket. -/
def scanItems : Nat → List Char → Option (List Json × List Char)
  | 0, _ => none
  | fuel + 1, s => do
    let (v, s) ← scanValue fuel s
    match skipBlanks s with
    | ',' :: rest => (scanItems fuel (skipBlanks rest)).map fun p => (v :: p.1, p.2)
    | ']' :: rest => some ([v], rest)
    | _ => none

/-- The entries of an object from one on, and its closing brace. -/
def scanEntries : Nat → List Char → Option (List (String × Json) × List Char)
  | 0, _ => none
  | fuel + 1, '"' :: s => do
    let (key, s) ← scanString s
    match skipBlanks s with
    | ':' :: s =>
      let (v, s) ← scanValue fuel (skipBlanks s)
      match skipBlanks s with
      | ',' :: rest => (scanEntries fuel (skipBlanks rest)).map fun p => ((String.ofList key, v) :: p.1, p.2)
      | '}' :: rest => some ([(String.ofList key, v)], rest)
      | _ => none
    | _ => none
  | _ + 1, _ => none
end

/-- `json.loads(text)`; every value and every item takes a letter, which bounds the recursion. -/
def loads (text : List Char) : Except PyErr Json :=
  match scanValue (text.length + 1) (skipBlanks text) with
  | none => .error (.valueError "Expecting value")
  | some (j, rest) => if skipBlanks rest = [] then .ok j else .error (.valueError "Extra data")

example : loads "\x7b\"a\": [1, -2.5e3, \"x\\u00e9\\ud83d\\ude00\\n\"], \"b\" : null, \"a\": true\x7d ".toList =
    .ok (.obj [("a", .bool true), ("b", .null)]) := by decide +kernel

/-! ### Strings -/

theorem hexUnit_hexDigits {n : Nat} (h : n < 65536) :
    ∃ a b c d, hexDigits 4 n = [a, b, c, d] ∧ hexUnit a b c d = some n := by
  refine ⟨_, _, _, _, rfl, ?_⟩
  have hdigit : ∀ m, hexVal (hexDigit (m % 16)) = some (m % 16) := fun m =>
    (hexVal_hexDigit _ (Nat.mod_lt _ (by decide))).1
  simp only [hexUnit, hdigit, Option.bind_eq_bind, Option.bind_some, Option.pure_def, Option.some.injEq]
  omega

theorem scanString_plain {c : Char} (hback : c ≠ '\\') (hquote : c ≠ '"') (hcontrol : 32 ≤ c.toNat)
    (rest : List Char) : scanString (c :: rest) = (scanString rest).map fun p => (c :: p.1, p.2) := by
  rw [scanString]
  · rw [if_neg (by omega)]
  · exact hquote
  · intro a b c d rest h
    exact absurd h hback
  · intro e rest h
    exact absurd h hback

theorem scanString_short {c e : Char} (h : shortEscape e = some c) (rest : List Char) :
    scanString ('\\' :: e :: rest) = (scanString rest).map fun p => (c :: p.1, p.2) := by
  have hne : ∀ d, shortEscape d = none → e ≠ d := by
    rintro d hd rfl
    rw [hd] at h
    cases h
  have hu : e ≠ 'u' := hne 'u' (by decide)
  have hslash : e ≠ '/' := hne '/' (by decide)
  rw [scanString]
  · rw [unescape, if_neg hslash, h]
  · intro a b c d rest h
    exact absurd h hu

theorem scanString_unit {c : Char} (h : c.toNat < 65536) (rest : List Char) :
    scanString (escapeUnit c.toNat ++ rest) = (scanString rest).map fun p => (c :: p.1, p.2) := by
  obtain ⟨a, b, x, d, hdigits, hunit⟩ := hexUnit_hexDigits h
  have hvalid := toNat_valid c
  simp only [escapeUnit, hdigits, List.cons_append, List.nil_append]
  rw [scanString, hunit]
  dsimp only
  rw [if_pos (by omega), Char.ofNat_toNat]

theorem scanString_pair {c : Char} (h : 65536 ≤ c.toNat) (rest : List Char) :
    scanString (escapeUnit (0xd800 + (c.toNat - 0x10000) / 1024) ++
      escapeUnit (0xdc00 + (c.toNat - 0x10000) % 1024) ++ rest) =
    (scanString rest).map fun p => (c :: p.1, p.2) := by
  have hbounds := pair_bounds h
  have hhigh : 0xd800 + (c.toNat - 0x10000) / 1024 < 65536 := by omega
  have hlow : 0xdc00 + (c.toNat - 0x10000) % 1024 < 65536 := by omega
  obtain ⟨a, b, x, d, hdigits, hunit⟩ := hexUnit_hexDigits hhigh
  obtain ⟨a', b', x', d', hdigits', hunit'⟩ := hexUnit_hexDigits hlow
  have hjoined : 0x10000 + (0xd800 + (c.toNat - 0x10000) / 1024 - 0xd800) * 1024 +
      (0xdc00 + (c.toNat - 0x10000) % 1024 - 0xdc00) = c.toNat := by omega
  simp only [escapeUnit, hdigits, hdigits', List.cons_append, List.nil_append]
  rw [scanString, hunit]
  dsimp only
  rw [if_neg (by omega)]
  simp only [hunit']
  rw [if_pos (by omega), hjoined, Char.ofNat_toNat]

theorem scanString_escapeChar (c : Char) (rest : List Char) :
    scanString (escapeChar c ++ rest) = (scanString rest).map fun p => (c :: p.1, p.2) := by
  unfold escapeChar
  split_ifs with hquote hback hn hr ht hf hb hplain hunit
  · rw [hquote]; exact scanString_short (by decide) rest
  · rw [hback]; exact scanString_short (by decide) rest
  · rw [hn]; exact scanString_short (by decide) rest
  · rw [hr]; exact scanString_short (by decide) rest
  · rw [ht]; exact scanString_short (by decide) rest
  · rw [show c = Char.ofNat 12 by rw [← hf, Char.ofNat_toNat]]
    exact scanString_short (by decide) rest
  · rw [show c = Char.ofNat 8 by rw [← hb, Char.ofNat_toNat]]
    exact scanString_short (by decide) rest
  · exact scanString_plain hback hquote hplain.1 rest
  · exact scanString_unit hunit rest
  · exact scanString_pair (by omega) rest

/-! ### Numbers -/

theorem AfterValue.not_digit {s : List Char} (h : AfterValue s) : ∀ c ∈ s.head?, c.isDigit = false := by
  intro c hc
  rcases h c hc with rfl | rfl | rfl
  all_goals decide

theorem span_append {s rest : List Char} (h : ∀ c ∈ rest.head?, c.isDigit = false) :
    (s ++ rest).takeWhile Char.isDigit = s.takeWhile Char.isDigit ∧
      (s ++ rest).dropWhile Char.isDigit = s.dropWhile Char.isDigit ++ rest := by
  induction s with
  | nil =>
    rcases rest with _ | ⟨c, rest⟩
    · exact ⟨rfl, rfl⟩
    · simp [h c rfl]
  | cons c s ih =>
    by_cases hc : c.isDigit = true
    · simp [hc, ih]
    · simp [hc]

/-- The parts of a number end where it ends. -/
theorem scanWhole_append {s w t rest : List Char} (h : scanWhole s = some (w, t)) (hrest : AfterValue rest) :
    scanWhole (s ++ rest) = some (w, t ++ rest) := by
  rcases s with _ | ⟨c, s⟩
  · cases h
  · simp only [scanWhole, List.cons_append] at h ⊢
    split_ifs at h ⊢ with hzero hdigit
    · cases h
      rfl
    · cases h
      rw [(span_append hrest.not_digit).1, (span_append hrest.not_digit).2]

theorem scanFraction_append {rest : List Char} (s : List Char) (hrest : AfterValue rest) :
    scanFraction (s ++ rest) = ((scanFraction s).1, (scanFraction s).2 ++ rest) := by
  rcases s with _ | ⟨c, s⟩
  · rcases rest with _ | ⟨c, rest⟩
    · rfl
    · rcases hrest c rfl with rfl | rfl | rfl
      all_goals rfl
  · by_cases hc : c = '.'
    · subst hc
      simp only [scanFraction, List.cons_append, (span_append (s := s) hrest.not_digit).1,
        (span_append (s := s) hrest.not_digit).2]
      split <;> rfl
    · have hother : ∀ l : List Char, scanFraction (c :: l) = ([], c :: l) := by
        intro l
        rw [scanFraction]
        intro rest h
        exact absurd (List.cons.inj h).1 hc
      rw [List.cons_append, hother, hother]
      rfl

theorem scanSign_append {rest : List Char} (s : List Char) (hrest : AfterValue rest) :
    scanSign (s ++ rest) = ((scanSign s).1, (scanSign s).2 ++ rest) := by
  rcases s with _ | ⟨c, s⟩
  · rcases rest with _ | ⟨c, rest⟩
    · rfl
    · rcases hrest c rfl with rfl | rfl | rfl
      all_goals rfl
  · by_cases hplus : c = '+'
    · subst hplus
      rfl
    by_cases hminus : c = '-'
    · subst hminus
      rfl
    have hother : ∀ l : List Char, scanSign (c :: l) = ([], c :: l) := by
      intro l
      rw [scanSign]
      · intro rest h
        exact absurd (List.cons.inj h).1 hplus
      · intro rest h
        exact absurd (List.cons.inj h).1 hminus
    rw [List.cons_append, hother, hother]
    rfl

theorem scanExponent_append {rest : List Char} (s : List Char) (hrest : AfterValue rest) :
    scanExponent (s ++ rest) = ((scanExponent s).1, (scanExponent s).2 ++ rest) := by
  rcases s with _ | ⟨c, s⟩
  · rcases rest with _ | ⟨c, rest⟩
    · rfl
    · rcases hrest c rfl with rfl | rfl | rfl
      all_goals rfl
  · simp only [scanExponent, List.cons_append, scanSign_append s hrest,
      (span_append (s := (scanSign s).2) hrest.not_digit).1, (span_append (s := (scanSign s).2) hrest.not_digit).2]
    split_ifs
    · split <;> rfl
    · rfl

theorem scanUnsigned_append {sign s t rest : List Char} {j : Json} (h : scanUnsigned sign s = some (j, t))
    (hrest : AfterValue rest) : scanUnsigned sign (s ++ rest) = some (j, t ++ rest) := by
  unfold scanUnsigned at h ⊢
  rcases hwhole : scanWhole s with _ | ⟨whole, u⟩
  · rw [hwhole] at h
    cases h
  · rw [hwhole] at h
    rw [scanWhole_append hwhole hrest]
    simp only [scanFraction_append u hrest, scanExponent_append (scanFraction u).2 hrest]
    cases h
    rfl

theorem scanNumber_append {s t rest : List Char} {j : Json} (h : scanNumber s = some (j, t)) (hrest : AfterValue rest) :
    scanNumber (s ++ rest) = some (j, t ++ rest) := by
  rcases s with _ | ⟨c, s⟩
  · cases h
  by_cases hc : c = '-'
  · subst hc
    exact scanUnsigned_append (s := s) h hrest
  · have hother : ∀ l : List Char, scanNumber (c :: l) = scanUnsigned [] (c :: l) := by
      intro l
      rw [scanNumber]
      intro s h
      exact absurd (List.cons.inj h).1 hc
    rw [List.cons_append, hother]
    rw [hother] at h
    exact scanUnsigned_append h hrest

theorem toDigits_head {n : Nat} (hn : 0 < n) : ∃ c rest, Nat.toDigits 10 n = c :: rest ∧ c ≠ '0' := by
  induction n using Nat.strong_induction_on with
  | _ n ih =>
    by_cases hlt : n < 10
    · refine ⟨n.digitChar, [], Nat.toDigits_of_lt_base hlt, ?_⟩
      rw [Ne, Nat.digitChar_eq_zero]
      omega
    · obtain ⟨c, rest, hc, hne⟩ := ih (n / 10) (by omega) (by omega)
      refine ⟨c, rest ++ Nat.toDigits 10 (n % 10), ?_, hne⟩
      rw [Nat.toDigits_of_base_le (by decide) (by omega), hc, Nat.toDigits_of_lt_base (Nat.mod_lt _ (by decide))]
      rfl

theorem scanUnsigned_toDigits (sign : List Char) (n : Nat) :
    scanUnsigned sign (Nat.toDigits 10 n) = some (.int (if sign = [] then (n : Int) else -n), []) := by
  have hdigits : ∀ c ∈ Nat.toDigits 10 n, c.isDigit = true := fun c hc =>
    Nat.isDigit_of_mem_toDigits (by decide) (by decide) hc
  have hwhole : scanWhole (Nat.toDigits 10 n) = some (Nat.toDigits 10 n, []) := by
    rcases Nat.eq_zero_or_pos n with rfl | hn
    · rw [Nat.toDigits_zero]
      rfl
    · obtain ⟨c, rest, hc, hne⟩ := toDigits_head hn
      rw [hc] at hdigits ⊢
      have hrest : ∀ d ∈ rest, d.isDigit = true := fun d hd => hdigits d (List.mem_cons_of_mem _ hd)
      rw [scanWhole, if_neg hne, if_pos (hdigits c (List.mem_cons_self ..)), List.takeWhile_eq_self_iff.2 hrest,
        List.dropWhile_eq_nil_iff.2 hrest]
  unfold scanUnsigned
  rw [hwhole]
  simp only [scanFraction, scanExponent, numberOf, Nat.ofDigitChars_ten_toDigits, and_self, if_true]

theorem scanNumber_int (i : Int) : scanNumber (toString i).toList = some (.int i, []) := by
  rcases i with n | n
  · have htext : (toString (Int.ofNat n)).toList = Nat.toDigits 10 n := Nat.toList_repr
    have hne : ∀ s, Nat.toDigits 10 n ≠ '-' :: s := by
      intro s h
      have hc : '-' ∈ Nat.toDigits 10 n := h ▸ List.mem_cons_self ..
      exact absurd (Nat.isDigit_of_mem_toDigits (by decide) (by decide) hc) (by decide)
    rw [htext]
    unfold scanNumber
    split
    · rename_i s h
      exact absurd h (hne s)
    · exact scanUnsigned_toDigits [] n
  · have htext : (toString (Int.negSucc n)).toList = '-' :: Nat.toDigits 10 (n + 1) := by
      show ("-" ++ Nat.repr (n + 1)).toList = _
      rw [String.toList_append, Nat.toList_repr]
      rfl
    rw [htext]
    exact scanUnsigned_toDigits ['-'] (n + 1)

/-! ### Documents -/

section Documents

variable (esc : Char → List Char)

def dumpsStrWith (s : String) : List Char := '"' :: s.toList.flatMap esc ++ ['"']

mutual
/-- `json.dumps(…, separators=(",", ":"))`, for the characters of a string as `esc` writes them. -/
def dumpsWith : Json → List Char
  | .null => "null".toList
  | .bool true => "true".toList
  | .bool false => "false".toList
  | .int i => (toString i).toList
  | .float repr => repr.toList
  | .str s => dumpsStrWith esc s
  | .arr [] => ['[', ']']
  | .arr (v :: rest) => '[' :: dumpsWith v ++ dumpsItemsWith rest
  | .obj [] => ['{', '}']
  | .obj ((k, v) :: rest) => '{' :: dumpsStrWith esc k ++ ':' :: dumpsWith v ++ dumpsEntriesWith rest

def dumpsItemsWith : List Json → List Char
  | [] => [']']
  | v :: rest => ',' :: dumpsWith v ++ dumpsItemsWith rest

def dumpsEntriesWith : List (String × Json) → List Char
  | [] => ['}']
  | (k, v) :: rest => ',' :: dumpsStrWith esc k ++ ':' :: dumpsWith v ++ dumpsEntriesWith rest
end

end Documents

mutual
theorem dumps_eq_dumpsWith : ∀ j, dumps j = dumpsWith escapeChar j
  | .null | .bool true | .bool false | .int _ | .float _ | .str _ | .arr [] | .obj [] => rfl
  | .arr (v :: rest) => by rw [dumps, dumpsWith, dumps_eq_dumpsWith v, dumpsItems_eq_dumpsWith rest]
  | .obj ((k, v) :: rest) => by
    rw [dumps, dumpsWith, dumps_eq_dumpsWith v, dumpsEntries_eq_dumpsWith rest]
    rfl

theorem dumpsItems_eq_dumpsWith : ∀ l, dumpsItems l = dumpsItemsWith escapeChar l
  | [] => rfl
  | v :: rest => by rw [dumpsItems, dumpsItemsWith, dumps_eq_dumpsWith v, dumpsItems_eq_dumpsWith rest]

theorem dumpsEntries_eq_dumpsWith : ∀ l, dumpsEntries l = dumpsEntriesWith escapeChar l
  | [] => rfl
  | (k, v) :: rest => by
    rw [dumpsEntries, dumpsEntriesWith, dumps_eq_dumpsWith v, dumpsEntries_eq_dumpsWith rest]
    rfl
end

mutual
/-- What a document needs to be read back: floats that are written as floats, and no key twice. -/
def Json.readable : Json → Bool
  | .float repr => scanNumber repr.toList = some (.float repr, [])
  | .arr items => readableItems items
  | .obj entries => (entries.map Prod.fst).Nodup && readableEntries entries
  | _ => true

def Json.readableItems : List Json → Bool
  | [] => true
  | v :: rest => v.readable && readableItems rest

def Json.readableEntries : List (String × Json) → Bool
  | [] => true
  | (_, v) :: rest => v.readable && readableEntries rest
end

mutual
/-- The calls it takes to read a document. -/
def Json.size : Json → Nat
  | .arr items => 1 + sizeItems items
  | .obj entries => 1 + sizeEntries entries
  | _ => 1

def Json.sizeItems : List Json → Nat
  | [] => 0
  | v :: rest => 1 + v.size + sizeItems rest

def Json.sizeEntries : List (String × Json) → Nat
  | [] => 0
  | (_, v) :: rest => 1 + v.size + sizeEntries rest
end

/-- A number starts with a digit, or with a sign and a digit. -/
theorem scanNumber_head {s t : List Char} {j : Json} (h : scanNumber s = some (j, t)) :
    ∃ c rest, s = c :: rest ∧ (c.isDigit = true ∨ c = '-' ∧ ∃ d rest', rest = d :: rest' ∧ d.isDigit = true) := by
  have hunsigned : ∀ {sign s : List Char}, scanUnsigned sign s = some (j, t) →
      ∃ c rest, s = c :: rest ∧ c.isDigit = true := by
    intro sign s h
    rcases s with _ | ⟨c, s⟩
    · cases h
    · refine ⟨c, s, rfl, ?_⟩
      by_contra hc
      have hzero : c ≠ '0' := by
        rintro rfl
        exact hc (by decide)
      rw [scanUnsigned, scanWhole, if_neg hzero, if_neg hc] at h
      cases h
  unfold scanNumber at h
  split at h
  · obtain ⟨c, rest, rfl, hc⟩ := hunsigned h
    exact ⟨'-', c :: rest, rfl, .inr ⟨rfl, c, rest, rfl, hc⟩⟩
  · obtain ⟨c, rest, rfl, hc⟩ := hunsigned h
    exact ⟨c, rest, rfl, .inl hc⟩

theorem ne_of_numberHead {c d : Char} {P : Prop} (hc : c.isDigit = true ∨ c = '-' ∧ P) (hd : d ≠ '-')
    (hdigit : d.isDigit = false) : c ≠ d := by
  rintro rfl
  rcases hc with hc | ⟨hc, -⟩
  · rw [hc] at hdigit
    cases hdigit
  · exact hd hc

theorem scanValue_number {s t rest : List Char} {j : Json} (h : scanNumber s = some (j, t)) (hrest : AfterValue rest)
    (fuel : Nat) : scanValue (fuel + 1) (s ++ rest) = some (j, t ++ rest) := by
  obtain ⟨c, u, rfl, hc⟩ := scanNumber_head h
  have hne : ∀ d : Char, d ≠ '-' → d.isDigit = false → c ≠ d := fun d => ne_of_numberHead hc
  rw [← scanNumber_append h hrest, List.cons_append, scanValue]
  · intro rest h; exact hne 'n' (by decide) (by decide) (List.cons.inj h).1
  · intro rest h; exact hne 't' (by decide) (by decide) (List.cons.inj h).1
  · intro rest h; exact hne 'f' (by decide) (by decide) (List.cons.inj h).1
  · intro rest h; exact hne 'N' (by decide) (by decide) (List.cons.inj h).1
  · intro rest h; exact hne 'I' (by decide) (by decide) (List.cons.inj h).1
  · intro rest h
    rcases hc with hc | ⟨-, d, u', rfl, hd⟩
    · rw [(List.cons.inj h).1] at hc
      exact absurd hc (by decide)
    · rw [(List.cons.inj (List.cons.inj h).2).1] at hd
      exact absurd hd (by decide)
  · intro rest h; exact hne '"' (by decide) (by decide) (List.cons.inj h).1
  · intro rest h; exact hne '[' (by decide) (by decide) (List.cons.inj h).1
  · intro rest h; exact hne '{' (by decide) (by decide) (List.cons.inj h).1

theorem skipBlanks_cons {c : Char} (h : isBlank c = false) (s : List Char) : skipBlanks (c :: s) = c :: s := by
  rw [skipBlanks, List.dropWhile_cons, h]
  rfl

theorem scanValue_bracket {c : Char} {s : List Char} (hblank : isBlank c = false) (hc : c ≠ ']') (fuel : Nat) :
    scanValue (fuel + 1) ('[' :: c :: s) = (scanItems fuel (c :: s)).map fun p => (.arr p.1, p.2) := by
  rw [scanValue, skipBlanks_cons hblank]
  split
  · rename_i h
    exact absurd (List.cons.inj h).1 hc
  · rfl

theorem scanValue_brace (s : List Char) (fuel : Nat) :
    scanValue (fuel + 1) ('{' :: '"' :: s) =
      (scanEntries fuel ('"' :: s)).map fun p => (.obj (PyDict.ofList p.1).items, p.2) := by
  rw [scanValue, skipBlanks_cons (by decide)]
  rfl

section RoundTrip

variable (esc : Char → List Char)

/-- The first letter of a document, which is no blank and does not close an array. -/
theorem dumpsWith_head : ∀ j : Json, j.readable = true →
    ∃ c rest, dumpsWith esc j = c :: rest ∧ isBlank c = false ∧ c ≠ ']'
  | .null, _ => ⟨'n', _, rfl, rfl, by decide⟩
  | .bool true, _ => ⟨'t', _, rfl, rfl, by decide⟩
  | .bool false, _ => ⟨'f', _, rfl, rfl, by decide⟩
  | .int i, _ => number_head (scanNumber_int i)
  | .float repr, h => number_head (of_decide_eq_true h)
  | .str _, _ => ⟨'"', _, rfl, rfl, by decide⟩
  | .arr [], _ => ⟨'[', _, rfl, rfl, by decide⟩
  | .arr (_ :: _), _ => ⟨'[', _, by rw [dumpsWith]; rfl, rfl, by decide⟩
  | .obj [], _ => ⟨'{', _, rfl, rfl, by decide⟩
  | .obj ((_, _) :: _), _ => ⟨'{', _, by rw [dumpsWith]; rfl, rfl, by decide⟩
where
  number_head {s : List Char} {j : Json} (h : scanNumber s = some (j, [])) :
      ∃ c rest, s = c :: rest ∧ isBlank c = false ∧ c ≠ ']' := by
    obtain ⟨c, rest, rfl, hc⟩ := scanNumber_head h
    have hne : ∀ d : Char, d ≠ '-' → d.isDigit = false → c ≠ d := fun d => ne_of_numberHead hc
    refine ⟨c, rest, rfl, ?_, hne ']' (by decide) (by decide)⟩
    simp [isBlank, hne ' ' (by decide) (by decide), hne '\t' (by decide) (by decide), hne '\n' (by decide) (by decide),
      hne '\r' (by decide) (by decide)]

theorem skipBlanks_dumpsWith {j : Json} (h : j.readable = true) (rest : List Char) :
    skipBlanks (dumpsWith esc j ++ rest) = dumpsWith esc j ++ rest := by
  obtain ⟨c, s, hs, hc, -⟩ := dumpsWith_head esc j h
  rw [hs]
  exact skipBlanks_cons hc _

theorem afterValue_items (items : List Json) (s : List Char) : AfterValue (dumpsItemsWith esc items ++ s) := by
  intro c hc
  rcases items with _ | ⟨v, rest⟩
  · rw [dumpsItemsWith] at hc; cases hc; simp
  · rw [dumpsItemsWith] at hc; cases hc; simp

theorem afterValue_entries (entries : List (String × Json)) (s : List Char) :
    AfterValue (dumpsEntriesWith esc entries ++ s) := by
  intro c hc
  rcases entries with _ | ⟨⟨k, v⟩, rest⟩
  · rw [dumpsEntriesWith] at hc; cases hc; simp
  · rw [dumpsEntriesWith] at hc; cases hc; simp

/-- The scanner undoes the escapes. -/
def Unescapes : Prop :=
  ∀ c rest, scanString (esc c ++ rest) = (scanString rest).map fun p => (c :: p.1, p.2)

variable {esc}

theorem scanString_dumpsStrWith (hesc : Unescapes esc) (s : String) (rest : List Char) :
    scanString (s.toList.flatMap esc ++ '"' :: rest) = some (s.toList, rest) := by
  generalize s.toList = cs
  induction cs with
  | nil => rw [List.flatMap_nil, List.nil_append, scanString]
  | cons c cs ih =>
    rw [List.flatMap_cons, List.append_assoc, hesc, ih]
    rfl

mutual
theorem scanValue_dumpsWith (hesc : Unescapes esc) : ∀ (j : Json) (fuel : Nat) (rest : List Char), j.readable = true → j.size ≤ fuel →
    AfterValue rest → scanValue fuel (dumpsWith esc j ++ rest) = some (j, rest)
  | j, 0, _, _, h, _ => by
    cases j <;> simp [Json.size] at h
  | .null, _ + 1, _, _, _, _ => rfl
  | .bool true, _ + 1, _, _, _, _ => rfl
  | .bool false, _ + 1, _, _, _, _ => rfl
  | .int i, fuel + 1, rest, _, _, hrest => by
    rw [dumpsWith]
    exact scanValue_number (scanNumber_int i) hrest fuel
  | .float repr, fuel + 1, rest, h, _, hrest => by
    rw [dumpsWith]
    exact scanValue_number (of_decide_eq_true h) hrest fuel
  | .str s, fuel + 1, rest, _, _, _ => by
    have hs := scanString_dumpsStrWith hesc s rest
    have htext : dumpsWith esc (.str s) ++ rest = '"' :: (s.toList.flatMap esc ++ '"' :: rest) := by
      simp [dumpsWith, dumpsStrWith]
    rw [htext, scanValue, hs, Option.map_some, String.ofList_toList]
  | .arr [], _ + 1, _, _, _, _ => rfl
  | .arr (v :: items), fuel + 1, rest, h, hsize, _ => by
    rw [Json.readable] at h
    rw [Json.size] at hsize
    have hitems := scanItems_dumpsWith hesc v items fuel rest h (by omega)
    rw [Json.readableItems, Bool.and_eq_true] at h
    obtain ⟨c, s, hs, hblank, hc⟩ := dumpsWith_head esc v h.1
    have htext : dumpsWith esc (.arr (v :: items)) ++ rest = '[' :: c :: (s ++ (dumpsItemsWith esc items ++ rest)) := by
      simp [dumpsWith, hs]
    rw [hs, List.cons_append] at hitems
    rw [htext, scanValue_bracket hblank hc, hitems, Option.map_some]
  | .obj [], _ + 1, _, _, _, _ => rfl
  | .obj ((k, v) :: entries), fuel + 1, rest, h, hsize, _ => by
    rw [Json.readable, Bool.and_eq_true] at h
    rw [Json.size] at hsize
    have hentries := scanEntries_dumpsWith hesc k v entries fuel rest h.2 (by omega)
    have htext : dumpsWith esc (.obj ((k, v) :: entries)) ++ rest = '{' :: '"' :: (k.toList.flatMap esc ++
        ('"' :: ':' :: (dumpsWith esc v ++ (dumpsEntriesWith esc entries ++ rest)))) := by
      simp [dumpsWith, dumpsStrWith]
    rw [htext, scanValue_brace, hentries, Option.map_some, PyDict.items_ofList (of_decide_eq_true h.1)]

theorem scanItems_dumpsWith (hesc : Unescapes esc) : ∀ (v : Json) (items : List Json) (fuel : Nat) (rest : List Char),
    Json.readableItems (v :: items) = true → Json.sizeItems (v :: items) ≤ fuel →
    scanItems fuel (dumpsWith esc v ++ (dumpsItemsWith esc items ++ rest)) = some (v :: items, rest)
  | v, items, 0, _, _, h => by simp [Json.sizeItems] at h
  | v, items, fuel + 1, rest, h, hsize => by
    rw [Json.readableItems, Bool.and_eq_true] at h
    rw [Json.sizeItems] at hsize
    have hv := scanValue_dumpsWith hesc v fuel (dumpsItemsWith esc items ++ rest) h.1 (by omega)
      (afterValue_items esc items rest)
    rw [scanItems, hv]
    rcases items with _ | ⟨w, items⟩
    · rfl
    · have hitems := scanItems_dumpsWith hesc w items fuel rest h.2 (by omega)
      rw [Json.readableItems, Bool.and_eq_true] at h
      have htext : dumpsItemsWith esc (w :: items) ++ rest =
          ',' :: (dumpsWith esc w ++ (dumpsItemsWith esc items ++ rest)) := by
        simp [dumpsItemsWith]
      simp only [htext, skipBlanks_cons (c := ',') (by decide), Option.bind_eq_bind, Option.bind_some,
        skipBlanks_dumpsWith esc h.2.1, hitems, Option.map_some]

theorem scanEntries_dumpsWith (hesc : Unescapes esc) : ∀ (k : String) (v : Json) (entries : List (String × Json)) (fuel : Nat)
    (rest : List Char), Json.readableEntries ((k, v) :: entries) = true → Json.sizeEntries ((k, v) :: entries) ≤ fuel →
    scanEntries fuel ('"' :: (k.toList.flatMap esc ++
      ('"' :: ':' :: (dumpsWith esc v ++ (dumpsEntriesWith esc entries ++ rest))))) = some ((k, v) :: entries, rest)
  | k, v, entries, 0, _, _, h => by simp [Json.sizeEntries] at h
  | k, v, entries, fuel + 1, rest, h, hsize => by
    rw [Json.readableEntries, Bool.and_eq_true] at h
    rw [Json.sizeEntries] at hsize
    have hv := scanValue_dumpsWith hesc v fuel (dumpsEntriesWith esc entries ++ rest) h.1 (by omega)
      (afterValue_entries esc entries rest)
    rw [scanEntries, scanString_dumpsStrWith hesc]
    simp only [skipBlanks_cons (c := ':') (by decide), Option.bind_eq_bind, Option.bind_some,
      skipBlanks_dumpsWith esc h.1, hv, String.ofList_toList]
    rcases entries with _ | ⟨⟨k', w⟩, entries⟩
    · rfl
    · have hentries := scanEntries_dumpsWith hesc k' w entries fuel rest h.2 (by omega)
      have htext : dumpsEntriesWith esc ((k', w) :: entries) ++ rest = ',' :: '"' :: (k'.toList.flatMap esc ++
          ('"' :: ':' :: (dumpsWith esc w ++ (dumpsEntriesWith esc entries ++ rest)))) := by
        simp [dumpsEntriesWith, dumpsStrWith]
      simp only [htext, skipBlanks_cons (c := ',') (by decide), skipBlanks_cons (c := '"') (by decide), hentries,
        Option.map_some]
end

mutual
theorem size_le_length : ∀ j : Json, j.readable = true → j.size ≤ (dumpsWith esc j).length
  | .null, _ | .bool true, _ | .bool false, _ | .arr [], _ | .obj [], _ => by simp [Json.size, Json.sizeItems,
      Json.sizeEntries, dumpsWith]
  | .int i, h | .float r, h | .str s, h => by
    obtain ⟨c, rest, htext, -⟩ := dumpsWith_head esc _ h
    simp [htext, Json.size]
  | .arr (v :: items), h => by
    rw [Json.readable, Json.readableItems, Bool.and_eq_true] at h
    have hv := size_le_length v h.1
    have hitems := sizeItems_le_length items h.2
    simp only [Json.size, Json.sizeItems, dumpsWith, List.length_append, List.length_cons]
    omega
  | .obj ((k, v) :: entries), h => by
    rw [Json.readable, Json.readableEntries, Bool.and_eq_true, Bool.and_eq_true] at h
    have hv := size_le_length v h.2.1
    have hentries := sizeEntries_le_length entries h.2.2
    simp only [Json.size, Json.sizeEntries, dumpsWith, List.length_append, List.length_cons]
    omega

theorem sizeItems_le_length : ∀ l : List Json, Json.readableItems l = true →
    Json.sizeItems l + 1 ≤ (dumpsItemsWith esc l).length
  | [], _ => by simp [Json.sizeItems, dumpsItemsWith]
  | v :: rest, h => by
    rw [Json.readableItems, Bool.and_eq_true] at h
    have hv := size_le_length v h.1
    have hrest := sizeItems_le_length rest h.2
    simp only [Json.sizeItems, dumpsItemsWith, List.length_append, List.length_cons]
    omega

theorem sizeEntries_le_length : ∀ l : List (String × Json), Json.readableEntries l = true →
    Json.sizeEntries l + 1 ≤ (dumpsEntriesWith esc l).length
  | [], _ => by simp [Json.sizeEntries, dumpsEntriesWith]
  | (k, v) :: rest, h => by
    rw [Json.readableEntries, Bool.and_eq_true] at h
    have hv := size_le_length v h.1
    have hrest := sizeEntries_le_length rest h.2
    simp only [Json.sizeEntries, dumpsEntriesWith, List.length_append, List.length_cons]
    omega
end

/-- A document is read back from its text. -/
theorem loads_dumpsWith (hesc : Unescapes esc) {j : Json} (h : j.readable = true) : loads (dumpsWith esc j) = .ok j := by
  have hblanks : skipBlanks (dumpsWith esc j) = dumpsWith esc j := by
    have := skipBlanks_dumpsWith esc h []
    rwa [List.append_nil] at this
  have hsize : j.size ≤ (dumpsWith esc j).length + 1 := by
    have : j.size ≤ (dumpsWith esc j).length := size_le_length j h
    omega
  have hscan := scanValue_dumpsWith hesc j _ [] h hsize (fun c hc => by cases hc)
  rw [List.append_nil] at hscan
  rw [loads, hblanks, hscan]
  rfl

end RoundTrip

theorem loads_dumps {j : Json} (h : j.readable = true) : loads (dumps j) = .ok j := by
  rw [dumps_eq_dumpsWith]
  exact loads_dumpsWith scanString_escapeChar h

end XianAbci
