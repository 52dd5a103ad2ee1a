import XianAbci.Builtins
import XianAbci.Lib.PrefixCode

/-!
# The text `json.dumps` writes

Two documents that are written alike are equal, as long as their floats have the text of a float. A string is
cut off at its closing quote, as no escape starts with one; a number at the first letter that is in no number,
which everything that can follow a value starts with; the other values by their brackets.
-/

namespace XianAbci

/-! ### Escapes -/

theorem hexDigit_injective {i j : Nat} (hi : i < 16) (hj : j < 16) (h : hexDigit i = hexDigit j) : i = j := by
  have hval := congrArg hexVal h
  rw [(hexVal_hexDigit i hi).1, (hexVal_hexDigit j hj).1] at hval
  exact Option.some.inj hval

theorem length_hexDigits (n x : Nat) : (hexDigits n x).length = n :=
  length_digits (fun _ => rfl) (fun _ _ => rfl) n x

theorem escapeUnit_cancel {m n : Nat} (hm : m < 65536) (hn : n < 65536) {s t : List Char}
    (h : escapeUnit m ++ s = escapeUnit n ++ t) : m = n ∧ s = t := by
  have hdigits := (List.cons.inj (List.cons.inj h).2).2
  obtain ⟨hhex, hst⟩ := List.append_inj hdigits (by rw [length_hexDigits, length_hexDigits])
  have hmod := digits_injective (by decide) (fun i j hi hj => hexDigit_injective hi hj) (fun _ _ => rfl) 4 hhex
  exact ⟨by omega, hst⟩

/-- The character behind a backslash and one letter. -/
def shortEscape (e : Char) : Option Char :=
  if e = '"' then some '"' else if e = '\\' then some '\\' else if e = 'n' then some '\n'
  else if e = 'r' then some '\r' else if e = 't' then some '\t' else if e = 'f' then some (Char.ofNat 12)
  else if e = 'b' then some (Char.ofNat 8) else none

/-- The four kinds of escape. -/
inductive Escape (c : Char) : List Char → Prop
  | plain : c ≠ '\\' → c ≠ '"' → Escape c [c]
  | short {e : Char} : shortEscape e = some c → Escape c ['\\', e]
  | unit : c.toNat < 65536 → Escape c (escapeUnit c.toNat)
  | pair : 65536 ≤ c.toNat → Escape c
      (escapeUnit (0xd800 + (c.toNat - 0x10000) / 1024) ++ escapeUnit (0xdc00 + (c.toNat - 0x10000) % 1024))

theorem escape_escapeChar (c : Char) : Escape c (escapeChar c) := by
  unfold escapeChar
  by_cases hquote : c = '"'
  · rw [if_pos hquote, hquote]
    exact .short (by decide)
  by_cases hback : c = '\\'
  · rw [if_neg hquote, if_pos hback, hback]
    exact .short (by decide)
  rw [if_neg hquote, if_neg hback]
  split
  · rename_i h; rw [h]; exact .short (by decide)
  split
  · rename_i h; rw [h]; exact .short (by decide)
  split
  · rename_i h; rw [h]; exact .short (by decide)
  split
  · rename_i h
    rw [show c = Char.ofNat 12 by rw [← h, Char.ofNat_toNat]]
    exact .short (by decide)
  split
  · rename_i h
    rw [show c = Char.ofNat 8 by rw [← h, Char.ofNat_toNat]]
    exact .short (by decide)
  split
  · exact .plain hback hquote
  split
  · rename_i h; exact .unit h
  · rename_i h; exact .pair (by omega)

/-- A character is no surrogate. -/
theorem toNat_valid (c : Char) : c.toNat < 0xd800 ∨ 0xdfff < c.toNat ∧ c.toNat < 0x110000 := c.valid

theorem pair_bounds {c : Char} (h : 65536 ≤ c.toNat) :
    0xd800 + (c.toNat - 0x10000) / 1024 < 0xdc00 ∧ 0xdc00 + (c.toNat - 0x10000) % 1024 < 0xe000 := by
  have hvalid := toNat_valid c
  omega

theorem Escape.cancel {c d : Char} {x y s t : List Char} (hc : Escape c x) (hd : Escape d y)
    (h : x ++ s = y ++ t) : c = d ∧ s = t := by
  have hu : shortEscape 'u' = none := by decide
  rcases hc with ⟨hback, -⟩ | hc | hc | hc <;> rcases hd with ⟨hback', -⟩ | hd | hd | hd
  · exact ⟨(List.cons.inj h).1, (List.cons.inj h).2⟩
  · exact absurd (List.cons.inj h).1 hback
  · exact absurd (List.cons.inj h).1 hback
  · exact absurd (List.cons.inj h).1 hback
  · exact absurd (List.cons.inj h).1.symm hback'
  · obtain ⟨he, hst⟩ := List.cons.inj (List.cons.inj h).2
    rw [he, hd] at hc
    exact ⟨(Option.some.inj hc).symm, hst⟩
  · rw [(List.cons.inj (List.cons.inj h).2).1, hu] at hc
    cases hc
  · rw [(List.cons.inj (List.cons.inj h).2).1, hu] at hc
    cases hc
  · exact absurd (List.cons.inj h).1.symm hback'
  · rw [← (List.cons.inj (List.cons.inj h).2).1, hu] at hd
    cases hd
  · obtain ⟨heq, hst⟩ := escapeUnit_cancel hc hd h
    exact ⟨Char.toNat_inj.1 heq, hst⟩
  · -- a unit is no surrogate
    have hbounds := pair_bounds hd
    rw [List.append_assoc] at h
    have heq := (escapeUnit_cancel hc (by omega) h).1
    have hvalid := toNat_valid c
    omega
  · exact absurd (List.cons.inj h).1.symm hback'
  · rw [← (List.cons.inj (List.cons.inj h).2).1, hu] at hd
    cases hd
  · have hbounds := pair_bounds hc
    rw [List.append_assoc] at h
    have heq := (escapeUnit_cancel (by omega) hd h).1
    have hvalid := toNat_valid d
    omega
  · have hbounds := pair_bounds hc
    have hbounds' := pair_bounds hd
    rw [List.append_assoc, List.append_assoc] at h
    obtain ⟨hhigh, hrest⟩ := escapeUnit_cancel (by omega) (by omega) h
    obtain ⟨hlow, hst⟩ := escapeUnit_cancel (by omega) (by omega) hrest
    exact ⟨Char.toNat_inj.1 (by omega), hst⟩

theorem escapeChar_prefixFree : PrefixFree escapeChar := fun c d _ _ h =>
  (escape_escapeChar c).cancel (escape_escapeChar d) h

theorem Escape.ne_quote {c : Char} {x : List Char} (hc : Escape c x) (s t : List Char) : x ++ s ≠ '"' :: t := by
  intro h
  rcases hc with ⟨-, hquote⟩ | _ | _ | _
  · exact hquote (List.cons.inj h).1
  · exact absurd (List.cons.inj h).1 (by decide)
  · exact absurd (List.cons.inj h).1 (by decide)
  · exact absurd (List.cons.inj h).1 (by decide)

theorem dumpsStr_cancel {a b : String} {s t : List Char} (h : dumpsStr a ++ s = dumpsStr b ++ t) : a = b ∧ s = t := by
  have hbody : a.toList.flatMap escapeChar ++ '"' :: s = b.toList.flatMap escapeChar ++ '"' :: t := by
    simpa [dumpsStr] using h
  obtain ⟨hab, hst⟩ := escapeChar_prefixFree.flatMap_cancel
    (fun c => (escape_escapeChar c).ne_quote) _ _ hbody
  exact ⟨String.toList_inj.1 hab, hst⟩

/-! ### Numbers -/

/-- A letter of a number. -/
def numberLetter (c : Char) : Bool := c.isDigit || c == '-'

theorem toList_int_letters (i : Int) : ∀ c ∈ (toString i).toList, numberLetter c = true := by
  have hnat : ∀ n : Nat, ∀ c ∈ (Nat.repr n).toList, numberLetter c = true := by
    intro n c hc
    rw [Nat.toList_repr] at hc
    rw [numberLetter, Nat.isDigit_of_mem_toDigits (by decide) (by decide) hc]
    rfl
  intro c hc
  rcases i with n | n
  · exact hnat n c hc
  · have htext : toString (Int.negSucc n) = "-" ++ Nat.repr (n + 1) := rfl
    rw [htext, String.toList_append] at hc
    rcases List.mem_append.1 hc with hc | hc
    · have : c = '-' := by simpa using hc
      rw [this]
      decide
    · exact hnat _ c hc

theorem toString_int_ne_empty (i : Int) : toString i ≠ "" := by
  rcases i with n | n
  · exact Nat.repr_ne_empty
  · intro h
    have hlist := congrArg String.toList h
    have htext : toString (Int.negSucc n) = "-" ++ Nat.repr (n + 1) := rfl
    rw [htext, String.toList_append] at hlist
    simp at hlist

/-- A letter of a number, or of `NaN` and `Infinity`. -/
def tokenLetter (c : Char) : Bool := c.isDigit || "-+.eENaInfity".toList.contains c

theorem tokenLetter_of_numberLetter {c : Char} (h : numberLetter c = true) : tokenLetter c = true := by
  rw [numberLetter, Bool.or_eq_true] at h
  rcases h with h | h
  · rw [tokenLetter, h]
    rfl
  · rw [beq_iff_eq.1 h]
    decide

/-- What follows a value in a document: nothing, or a comma or closing bracket. -/
def AfterValue (s : List Char) : Prop := ∀ c ∈ s.head?, c = ',' ∨ c = ']' ∨ c = '}'

theorem AfterValue.not_tokenLetter {s : List Char} (h : AfterValue s) : ∀ c ∈ s.head?, tokenLetter c = false := by
  intro c hc
  rcases h c hc with rfl | rfl | rfl <;> decide

/-! ### Documents -/

mutual
def Json.floatFree : Json → Bool
  | .float _ => false
  | .arr items => floatFreeItems items
  | .obj entries => floatFreeEntries entries
  | _ => true

def Json.floatFreeItems : List Json → Bool
  | [] => true
  | v :: rest => v.floatFree && floatFreeItems rest

def Json.floatFreeEntries : List (String × Json) → Bool
  | [] => true
  | (_, v) :: rest => v.floatFree && floatFreeEntries rest
end

/-- The kinds of value the first letter tells apart. -/
inductive JsonTag
  | null | true | false | number | str | arr | obj
deriving DecidableEq

def Json.tag : Json → JsonTag
  | .null => .null
  | .bool true => .true
  | .bool false => .false
  | .int _ => .number
  | .float _ => .number
  | .str _ => .str
  | .arr _ => .arr
  | .obj _ => .obj

def letterTag (c : Char) : JsonTag :=
  if c = 'n' then .null else if c = 't' then .true else if c = 'f' then .false else if c = '"' then .str
  else if c = '[' then .arr else if c = '{' then .obj else .number

theorem letterTag_number {c : Char} (h : numberLetter c = true) : letterTag c = .number := by
  have hne : ∀ d : Char, numberLetter d = false → c ≠ d := by
    rintro d hd rfl
    rw [h] at hd
    cases hd
  unfold letterTag
  rw [if_neg (hne _ (by decide)), if_neg (hne _ (by decide)), if_neg (hne _ (by decide)), if_neg (hne _ (by decide)),
    if_neg (hne _ (by decide)), if_neg (hne _ (by decide))]

/-- The text of a float: it starts like a number, and has a letter that is in no integer. -/
def isFloatText (s : String) : Bool :=
  s.toList.all tokenLetter && s.toList.any (fun c => !numberLetter c) && s.toList.head?.all (letterTag · = .number)

mutual
/-- Every float is carried by the text of a float. -/
def Json.floatTexts : Json → Bool
  | .float repr => isFloatText repr
  | .arr items => floatTextsItems items
  | .obj entries => floatTextsEntries entries
  | _ => true

def Json.floatTextsItems : List Json → Bool
  | [] => true
  | v :: rest => v.floatTexts && floatTextsItems rest

def Json.floatTextsEntries : List (String × Json) → Bool
  | [] => true
  | (_, v) :: rest => v.floatTexts && floatTextsEntries rest
end

mutual
theorem floatTexts_of_floatFree : ∀ j : Json, j.floatFree = true → j.floatTexts = true
  | .null, _ | .bool _, _ | .int _, _ | .str _, _ => rfl
  | .float _, h => by cases h
  | .arr items, h => floatTextsItems_of_floatFree items h
  | .obj entries, h => floatTextsEntries_of_floatFree entries h

theorem floatTextsItems_of_floatFree : ∀ l : List Json, Json.floatFreeItems l = true → Json.floatTextsItems l = true
  | [], _ => rfl
  | v :: rest, h => by
    rw [Json.floatFreeItems, Bool.and_eq_true] at h
    rw [Json.floatTextsItems, floatTexts_of_floatFree v h.1, floatTextsItems_of_floatFree rest h.2]
    rfl

theorem floatTextsEntries_of_floatFree : ∀ l : List (String × Json), Json.floatFreeEntries l = true →
    Json.floatTextsEntries l = true
  | [], _ => rfl
  | (_, v) :: rest, h => by
    rw [Json.floatFreeEntries, Bool.and_eq_true] at h
    rw [Json.floatTextsEntries, floatTexts_of_floatFree v h.1, floatTextsEntries_of_floatFree rest h.2]
    rfl
end

/-- The text of a number is not cut short by what follows, and tells integers and floats apart. -/
theorem token_cancel {x y s t : List Char} (hx : ∀ c ∈ x, tokenLetter c = true) (hy : ∀ c ∈ y, tokenLetter c = true)
    (hs : AfterValue s) (ht : AfterValue t) (h : x ++ s = y ++ t) : x = y ∧ s = t :=
  takeWhile_cancel hx hy hs.not_tokenLetter ht.not_tokenLetter h

theorem toList_int_tokens (i : Int) : ∀ c ∈ (toString i).toList, tokenLetter c = true := fun c hc =>
  tokenLetter_of_numberLetter (toList_int_letters i c hc)

theorem isFloatText_tokens {r : String} (h : isFloatText r = true) : ∀ c ∈ r.toList, tokenLetter c = true := by
  simp only [isFloatText, Bool.and_eq_true, List.all_eq_true] at h
  exact h.1.1

theorem isFloatText_ne_int {r : String} (h : isFloatText r = true) (i : Int) : (toString i).toList ≠ r.toList := by
  intro heq
  simp only [isFloatText, Bool.and_eq_true, List.any_eq_true] at h
  obtain ⟨c, hc, hletter⟩ := h.1.2
  rw [← heq] at hc
  rw [toList_int_letters i c hc] at hletter
  cases hletter

theorem dumps_head : ∀ j : Json, j.floatTexts = true →
    ∃ c rest, dumps j = c :: rest ∧ letterTag c = j.tag ∧ c ≠ ']'
  | .null, _ => ⟨'n', _, rfl, rfl, by decide⟩
  | .bool true, _ => ⟨'t', _, rfl, rfl, by decide⟩
  | .bool false, _ => ⟨'f', _, rfl, rfl, by decide⟩
  | .int i, _ => by
    have hletters := toList_int_letters i
    rw [dumps]
    rcases htext : (toString i).toList with _ | ⟨c, rest⟩
    · exact absurd (String.toList_eq_nil_iff.1 htext) (toString_int_ne_empty i)
    · rw [htext] at hletters
      have hc : numberLetter c = true := hletters c (List.mem_cons_self ..)
      refine ⟨c, rest, rfl, letterTag_number hc, ?_⟩
      rintro rfl
      exact absurd hc (by decide)
  | .float r, h => by
    have htokens := isFloatText_tokens h
    simp only [Json.floatTexts, isFloatText, Bool.and_eq_true, List.any_eq_true] at h
    obtain ⟨⟨-, c', hc', -⟩, hhead⟩ := h
    rw [dumps]
    rcases htext : r.toList with _ | ⟨c, rest⟩
    · rw [htext] at hc'
      cases hc'
    · rw [htext] at hhead htokens
      have hnumber : letterTag c = .number := by simpa using hhead
      refine ⟨c, rest, rfl, hnumber, ?_⟩
      rintro rfl
      exact absurd (htokens ']' (List.mem_cons_self ..)) (by decide)
  | .str _, _ => ⟨'"', _, rfl, rfl, by decide⟩
  | .arr [], _ => ⟨'[', _, rfl, rfl, by decide⟩
  | .arr (_ :: _), _ => ⟨'[', _, by rw [dumps]; rfl, rfl, by decide⟩
  | .obj [], _ => ⟨'{', _, rfl, rfl, by decide⟩
  | .obj ((_, _) :: _), _ => ⟨'{', _, by rw [dumps]; rfl, rfl, by decide⟩

/-- No value starts like the end of an array. -/
theorem dumps_ne_bracket {j : Json} (hj : j.floatTexts = true) (s t : List Char) : dumps j ++ s ≠ ']' :: t := by
  obtain ⟨c, rest, hc, -, hne⟩ := dumps_head j hj
  rw [hc]
  exact fun h => hne (List.cons.inj h).1

theorem tag_eq {a b : Json} (ha : a.floatTexts = true) (hb : b.floatTexts = true) {s t : List Char}
    (h : dumps a ++ s = dumps b ++ t) : a.tag = b.tag := by
  obtain ⟨c, x, hx, hc, -⟩ := dumps_head a ha
  obtain ⟨d, y, hy, hd, -⟩ := dumps_head b hb
  rw [hx, hy] at h
  rw [← hc, ← hd, (List.cons.inj h).1]

theorem afterValue_dumpsItems (items : List Json) (s : List Char) : AfterValue (dumpsItems items ++ s) := by
  intro c hc
  cases items with
  | nil => rw [dumpsItems] at hc; cases hc; decide
  | cons v rest => rw [dumpsItems] at hc; cases hc; decide

theorem afterValue_dumpsEntries (entries : List (String × Json)) (s : List Char) : AfterValue (dumpsEntries entries ++ s) := by
  intro c hc
  rcases entries with _ | ⟨⟨k, v⟩, rest⟩
  · rw [dumpsEntries] at hc; cases hc; decide
  · rw [dumpsEntries] at hc; cases hc; decide

mutual
theorem dumps_cancel : ∀ (a b : Json) (s t : List Char), a.floatTexts = true → b.floatTexts = true →
    AfterValue s → AfterValue t → dumps a ++ s = dumps b ++ t → a = b ∧ s = t
  | .null, b, s, t, ha, hb, hs, ht, h => by
    have htag := tag_eq ha hb h
    rcases b with _ | (_ | _) | _ | _ | _ | _ | _ <;> cases htag
    exact ⟨rfl, List.append_cancel_left h⟩
  | .bool x, b, s, t, ha, hb, hs, ht, h => by
    have htag := tag_eq ha hb h
    rcases x with _ | _ <;> rcases b with _ | (_ | _) | _ | _ | _ | _ | _ <;> cases htag
    · exact ⟨rfl, List.append_cancel_left h⟩
    · exact ⟨rfl, List.append_cancel_left h⟩
  | .int i, b, s, t, ha, hb, hs, ht, h => by
    have htag := tag_eq ha hb h
    rcases b with _ | (_ | _) | j | _ | _ | _ | _ <;> cases htag
    · rw [dumps, dumps] at h
      obtain ⟨htext, hst⟩ := token_cancel (toList_int_tokens i) (toList_int_tokens j) hs ht h
      obtain rfl : i = j := Int.repr_injective (String.toList_inj.1 htext)
      exact ⟨rfl, hst⟩
    · rw [dumps, dumps] at h
      exact absurd (token_cancel (toList_int_tokens i) (isFloatText_tokens hb) hs ht h).1 (isFloatText_ne_int hb i)
  | .float r, b, s, t, ha, hb, hs, ht, h => by
    have htag := tag_eq ha hb h
    rcases b with _ | (_ | _) | j | r' | _ | _ | _ <;> cases htag
    · rw [dumps, dumps] at h
      exact absurd (token_cancel (isFloatText_tokens ha) (toList_int_tokens j) hs ht h).1.symm (isFloatText_ne_int ha j)
    · rw [dumps, dumps] at h
      obtain ⟨htext, hst⟩ := token_cancel (isFloatText_tokens ha) (isFloatText_tokens hb) hs ht h
      obtain rfl : r = r' := String.toList_inj.1 htext
      exact ⟨rfl, hst⟩
  | .str x, b, s, t, ha, hb, hs, ht, h => by
    have htag := tag_eq ha hb h
    rcases b with _ | (_ | _) | _ | _ | y | _ | _ <;> cases htag
    rw [dumps, dumps] at h
    obtain ⟨rfl, hst⟩ := dumpsStr_cancel h
    exact ⟨rfl, hst⟩
  | .arr [], b, s, t, ha, hb, hs, ht, h => by
    have htag := tag_eq ha hb h
    rcases b with _ | (_ | _) | _ | _ | _ | items | _ <;> cases htag
    rcases items with _ | ⟨v, rest⟩
    · exact ⟨rfl, List.append_cancel_left h⟩
    · rw [dumps, dumps] at h
      rw [Json.floatTexts, Json.floatTextsItems, Bool.and_eq_true] at hb
      have htail : ']' :: s = dumps v ++ (dumpsItems rest ++ t) := by simpa using (List.cons.inj h).2
      exact absurd htail.symm (dumps_ne_bracket hb.1 _ _)
  | .arr (v :: rest), b, s, t, ha, hb, hs, ht, h => by
    have htag := tag_eq ha hb h
    rcases b with _ | (_ | _) | _ | _ | _ | items | _ <;> cases htag
    rcases items with _ | ⟨w, rest'⟩
    · rw [dumps, dumps] at h
      rw [Json.floatTexts, Json.floatTextsItems, Bool.and_eq_true] at ha
      have htail : dumps v ++ (dumpsItems rest ++ s) = ']' :: t := by simpa using (List.cons.inj h).2
      exact absurd htail (dumps_ne_bracket ha.1 _ _)
    · rw [dumps, dumps] at h
      rw [Json.floatTexts, Json.floatTextsItems, Bool.and_eq_true] at ha hb
      have htail := (List.cons.inj h).2
      obtain ⟨rfl, hrest⟩ := dumps_cancel v w (dumpsItems rest ++ s) (dumpsItems rest' ++ t) ha.1 hb.1
        (afterValue_dumpsItems rest s) (afterValue_dumpsItems rest' t) (by simpa using htail)
      obtain ⟨rfl, hst⟩ := dumpsItems_cancel rest rest' s t ha.2 hb.2 hrest
      exact ⟨rfl, hst⟩
  | .obj [], b, s, t, ha, hb, hs, ht, h => by
    have htag := tag_eq ha hb h
    rcases b with _ | (_ | _) | _ | _ | _ | _ | entries <;> cases htag
    rcases entries with _ | ⟨⟨k, v⟩, rest⟩
    · exact ⟨rfl, List.append_cancel_left h⟩
    · rw [dumps, dumps] at h
      exact absurd (List.cons.inj (List.cons.inj h).2).1 (by decide)
  | .obj ((k, v) :: rest), b, s, t, ha, hb, hs, ht, h => by
    have htag := tag_eq ha hb h
    rcases b with _ | (_ | _) | _ | _ | _ | _ | entries <;> cases htag
    rcases entries with _ | ⟨⟨l, w⟩, rest'⟩
    · rw [dumps, dumps] at h
      exact absurd (List.cons.inj (List.cons.inj h).2).1 (by decide)
    · rw [dumps, dumps] at h
      rw [Json.floatTexts, Json.floatTextsEntries, Bool.and_eq_true] at ha hb
      have htail := (List.cons.inj h).2
      obtain ⟨rfl, hvalue⟩ := dumpsStr_cancel (s := ':' :: dumps v ++ (dumpsEntries rest ++ s))
        (t := ':' :: dumps w ++ (dumpsEntries rest' ++ t)) (by simpa using htail)
      obtain ⟨rfl, hrest⟩ := dumps_cancel v w (dumpsEntries rest ++ s) (dumpsEntries rest' ++ t) ha.1 hb.1
        (afterValue_dumpsEntries rest s) (afterValue_dumpsEntries rest' t) (List.cons.inj hvalue).2
      obtain ⟨rfl, hst⟩ := dumpsEntries_cancel rest rest' s t ha.2 hb.2 hrest
      exact ⟨rfl, hst⟩

theorem dumpsItems_cancel : ∀ (as bs : List Json) (s t : List Char), Json.floatTextsItems as = true →
    Json.floatTextsItems bs = true → dumpsItems as ++ s = dumpsItems bs ++ t → as = bs ∧ s = t
  | [], [], s, t, _, _, h => ⟨rfl, (List.cons.inj h).2⟩
  | [], _ :: _, _, _, _, _, h => by
    rw [dumpsItems, dumpsItems] at h
    exact absurd (List.cons.inj h).1 (by decide)
  | _ :: _, [], _, _, _, _, h => by
    rw [dumpsItems, dumpsItems] at h
    exact absurd (List.cons.inj h).1 (by decide)
  | v :: rest, w :: rest', s, t, ha, hb, h => by
    rw [dumpsItems, dumpsItems] at h
    rw [Json.floatTextsItems, Bool.and_eq_true] at ha hb
    have htail := (List.cons.inj h).2
    obtain ⟨rfl, hrest⟩ := dumps_cancel v w (dumpsItems rest ++ s) (dumpsItems rest' ++ t) ha.1 hb.1
      (afterValue_dumpsItems rest s) (afterValue_dumpsItems rest' t) (by simpa using htail)
    obtain ⟨rfl, hst⟩ := dumpsItems_cancel rest rest' s t ha.2 hb.2 hrest
    exact ⟨rfl, hst⟩

theorem dumpsEntries_cancel : ∀ (as bs : List (String × Json)) (s t : List Char), Json.floatTextsEntries as = true →
    Json.floatTextsEntries bs = true → dumpsEntries as ++ s = dumpsEntries bs ++ t → as = bs ∧ s = t
  | [], [], s, t, _, _, h => ⟨rfl, (List.cons.inj h).2⟩
  | [], (_, _) :: _, _, _, _, _, h => by
    rw [dumpsEntries, dumpsEntries] at h
    exact absurd (List.cons.inj h).1 (by decide)
  | (_, _) :: _, [], _, _, _, _, h => by
    rw [dumpsEntries, dumpsEntries] at h
    exact absurd (List.cons.inj h).1 (by decide)
  | (k, v) :: rest, (l, w) :: rest', s, t, ha, hb, h => by
    rw [dumpsEntries, dumpsEntries] at h
    rw [Json.floatTextsEntries, Bool.and_eq_true] at ha hb
    have htail := (List.cons.inj h).2
    obtain ⟨rfl, hvalue⟩ := dumpsStr_cancel (s := ':' :: dumps v ++ (dumpsEntries rest ++ s))
      (t := ':' :: dumps w ++ (dumpsEntries rest' ++ t)) (by simpa using htail)
    obtain ⟨rfl, hrest⟩ := dumps_cancel v w (dumpsEntries rest ++ s) (dumpsEntries rest' ++ t) ha.1 hb.1
      (afterValue_dumpsEntries rest s) (afterValue_dumpsEntries rest' t) (List.cons.inj hvalue).2
    obtain ⟨rfl, hst⟩ := dumpsEntries_cancel rest rest' s t ha.2 hb.2 hrest
    exact ⟨rfl, hst⟩
end

/-- Documents are told apart by their text. -/
theorem dumps_injective_of_floatTexts {a b : Json} (ha : a.floatTexts = true) (hb : b.floatTexts = true)
    (h : dumps a = dumps b) : a = b :=
  (dumps_cancel a b [] [] ha hb (fun c hc => by cases hc) (fun c hc => by cases hc) (by rw [h])).1

theorem dumps_injective {a b : Json} (ha : a.floatFree = true) (hb : b.floatFree = true) (h : dumps a = dumps b) :
    a = b :=
  dumps_injective_of_floatTexts (floatTexts_of_floatFree a ha) (floatTexts_of_floatFree b hb) h

end XianAbci
