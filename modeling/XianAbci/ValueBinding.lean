import XianAbci.Codec
import XianAbci.JsonText
import XianAbci.RootBinding

/-!
# What a leaf says about its value

A leaf is the text of the normalised value. Documents without floats are determined by their text, and
a value by its document and the kinds of its parts (`denormalize`): decimals, times and bytes are
written as strings that can be read back, but not told from a string that reads the same.
-/

namespace XianAbci

/-! ### Decimals -/

def digitLetter (i : Nat) : Char := Char.ofNat (48 + i)

theorem digitLetter_injective {i j : Nat} (hi : i < 10) (hj : j < 10) (h : digitLetter i = digitLetter j) : i = j := by
  have hnat : ∀ k < 10, (digitLetter k).toNat = 48 + k := by decide
  have hcode := congrArg Char.toNat h
  rw [hnat i hi, hnat j hj] at hcode
  omega

theorem digitsFixed_succ (n x : Nat) :
    digitsFixed (n + 1) x = digitLetter (x / 10 ^ n % 10) :: digitsFixed n x := rfl

theorem length_digitsFixed (n x : Nat) : (digitsFixed n x).length = n :=
  length_digits (fun _ => rfl) digitsFixed_succ n x

theorem digitsFixed_injective (n : Nat) {x y : Nat} (h : digitsFixed n x = digitsFixed n y) :
    x % 10 ^ n = y % 10 ^ n :=
  digits_injective (by decide) (fun _ _ => digitLetter_injective) digitsFixed_succ n h

/-- Digits of a known number are what is left after dropping the zeros, and zeros. -/
theorem stripZeros_append (l : List Char) :
    l = stripZeros l ++ List.replicate (l.length - (stripZeros l).length) '0' := by
  have hsplit := List.takeWhile_append_dropWhile (p := (· = '0')) (l := l.reverse)
  have hzeros : (l.reverse.takeWhile (· = '0')) = List.replicate (l.reverse.takeWhile (· = '0')).length '0' :=
    List.eq_replicate_of_mem fun c hc => by simpa using List.mem_takeWhile_imp hc
  have hlength : l.length - (stripZeros l).length = (l.reverse.takeWhile (· = '0')).length := by
    have hlen := congrArg List.length hsplit
    rw [List.length_append, List.length_reverse] at hlen
    rw [stripZeros, List.length_reverse]
    omega
  rw [hlength]
  have hrev := congrArg List.reverse hsplit
  rw [List.reverse_append, List.reverse_reverse] at hrev
  conv_lhs => rw [← hrev, hzeros, List.reverse_replicate]
  rfl

theorem stripZeros_injective {a b : List Char} (hlen : a.length = b.length) (h : stripZeros a = stripZeros b) :
    a = b := by
  rw [stripZeros_append a, stripZeros_append b, h, hlen]

/-- The plain notation of a number without its sign. -/
def plainText (scale n : Nat) : List Char :=
  let fraction := stripZeros (digitsFixed scale (n % 10 ^ scale))
  (toString (n / 10 ^ scale)).toList ++ if fraction = [] then [] else '.' :: fraction

theorem toList_nat_isDigit (n : Nat) : ∀ c ∈ (toString n).toList, c.isDigit = true := by
  intro c hc
  have htext : (toString n).toList = Nat.toDigits 10 n := Nat.toList_repr
  rw [htext] at hc
  exact Nat.isDigit_of_mem_toDigits (by decide) (by decide) hc

theorem plainText_injective {scale m n : Nat} (h : plainText scale m = plainText scale n) : m = n := by
  have hrest : ∀ fraction : List Char, ∀ c ∈ (if fraction = [] then [] else '.' :: fraction).head?,
      c.isDigit = false := by
    intro fraction c hc
    split at hc
    · cases hc
    · cases hc
      decide
  obtain ⟨hwhole, hfraction⟩ := takeWhile_cancel (toList_nat_isDigit _) (toList_nat_isDigit _) (hrest _) (hrest _) h
  have hdiv : m / 10 ^ scale = n / 10 ^ scale := Nat.repr_injective (String.toList_inj.1 hwhole)
  have hstrip : stripZeros (digitsFixed scale (m % 10 ^ scale)) = stripZeros (digitsFixed scale (n % 10 ^ scale)) := by
    split at hfraction <;> split at hfraction
    · rename_i hm hn; rw [hm, hn]
    · cases hfraction
    · cases hfraction
    · exact (List.cons.inj hfraction).2
  have hmod := digitsFixed_injective scale
    (stripZeros_injective (by rw [length_digitsFixed, length_digitsFixed]) hstrip)
  rw [Nat.mod_mod, Nat.mod_mod] at hmod
  rw [← Nat.div_add_mod m (10 ^ scale), ← Nat.div_add_mod n (10 ^ scale), hdiv, hmod]

theorem plainText_ne_sign (scale n : Nat) (s : List Char) : plainText scale n ≠ '-' :: s := by
  intro h
  have hdigits := toList_nat_isDigit (n / 10 ^ scale)
  rcases htext : (toString (n / 10 ^ scale)).toList with _ | ⟨c, rest⟩
  · exact absurd (String.toList_eq_nil_iff.1 htext) Nat.repr_ne_empty
  · rw [htext] at hdigits
    have hc : c = '-' := by
      simp only [plainText, htext] at h
      exact (List.cons.inj h).1
    exact absurd (hdigits c (List.mem_cons_self ..)) (by rw [hc]; decide)

/-- A decimal is determined by its plain notation. -/
theorem decimalToPlainString_injective {scale : Nat} {u v : Int}
    (h : decimalToPlainString u scale = decimalToPlainString v scale) : u = v := by
  have htext : ∀ w : Int, decimalToPlainString w scale =
      String.ofList (if w < 0 then '-' :: plainText scale w.natAbs else plainText scale w.natAbs) := fun _ => rfl
  rw [htext, htext, String.ofList_inj] at h
  split at h <;> split at h
  · have := plainText_injective (List.cons.inj h).2
    omega
  · exact absurd h.symm (plainText_ne_sign _ _ _)
  · exact absurd h (plainText_ne_sign _ _ _)
  · have := plainText_injective h
    omega

/-! ### Times -/

/-- The fields Python's `datetime` allows. -/
def Datetime.valid (t : Datetime) : Bool :=
  t.year ≤ 9999 ∧ t.month ≤ 12 ∧ t.day ≤ 31 ∧ t.hour < 24 ∧ t.minute < 60 ∧ t.second < 60 ∧ t.microsecond < 1000000

theorem padDecimal_cancel {n x y : Nat} (hx : x < 10 ^ n) (hy : y < 10 ^ n) {s t : List Char}
    (h : (padDecimal n x).toList ++ s = (padDecimal n y).toList ++ t) : x = y ∧ s = t := by
  simp only [padDecimal, String.toList_ofList] at h
  obtain ⟨hdigits, hst⟩ := List.append_inj h (by rw [length_digitsFixed, length_digitsFixed])
  have hmod := digitsFixed_injective n hdigits
  rw [Nat.mod_eq_of_lt hx, Nat.mod_eq_of_lt hy] at hmod
  exact ⟨hmod, hst⟩

theorem Datetime.str_injective {t u : Datetime} (ht : t.valid = true) (hu : u.valid = true) (h : t.str = u.str) :
    t = u := by
  obtain ⟨hty, htmo, htd, hth, htmi, hts, htus⟩ := of_decide_eq_true ht
  obtain ⟨huy, humo, hud, huh, humi, hus, huus⟩ := of_decide_eq_true hu
  have hlist := congrArg String.toList h
  simp only [Datetime.str, Datetime.date, Datetime.time, String.toList_append, List.append_assoc] at hlist
  obtain ⟨hyear, hlist⟩ := padDecimal_cancel (by omega) (by omega) hlist
  obtain ⟨hmonth, hlist⟩ := padDecimal_cancel (by omega) (by omega) (List.append_cancel_left hlist)
  obtain ⟨hday, hlist⟩ := padDecimal_cancel (by omega) (by omega) (List.append_cancel_left hlist)
  obtain ⟨hhour, hlist⟩ := padDecimal_cancel (by omega) (by omega) (List.append_cancel_left hlist)
  obtain ⟨hminute, hlist⟩ := padDecimal_cancel (by omega) (by omega) (List.append_cancel_left hlist)
  obtain ⟨hsecond, hlist⟩ := padDecimal_cancel (by omega) (by omega) (List.append_cancel_left hlist)
  have hmicro : t.microsecond = u.microsecond := by
    split at hlist <;> split at hlist
    · omega
    · rw [String.toList_append] at hlist; cases hlist
    · rw [String.toList_append] at hlist; cases hlist
    · rw [String.toList_append, String.toList_append] at hlist
      have hdigits : (padDecimal 6 t.microsecond).toList ++ [] = (padDecimal 6 u.microsecond).toList ++ [] := by
        rw [List.append_cancel_left hlist]
      exact (padDecimal_cancel (by omega) (by omega) hdigits).1
  rcases t with ⟨y, mo, d, ho, mi, se, us⟩
  rcases u with ⟨y', mo', d', ho', mi', se', us'⟩
  simp only at hyear hmonth hday hhour hminute hsecond hmicro
  rw [hyear, hmonth, hday, hhour, hminute, hsecond, hmicro]

/-! ### Bytes -/

/-- The byte behind a backslash and one letter. -/
def shortByte (e : Char) : UInt8 :=
  if e = 't' then 9 else if e = 'n' then 10 else if e = 'r' then 13 else UInt8.ofNat e.toNat

inductive ByteEscape (quote : Char) (x : UInt8) : List Char → Prop
  | plain {c : Char} : c ≠ '\\' → c ≠ quote → UInt8.ofNat c.toNat = x → ByteEscape quote x [c]
  | short {e : Char} : e ≠ 'x' → shortByte e = x → ByteEscape quote x ['\\', e]
  | hex : ByteEscape quote x ('\\' :: 'x' :: hexDigits 2 x.toNat)

theorem toNat_ofNat_byte (x : UInt8) : (Char.ofNat x.toNat).toNat = x.toNat := by
  have hx := x.toNat_lt
  rw [Char.toNat_ofNat, if_pos (.inl (by omega))]

theorem byteEscape_byteRepr {quote : Char} (hquote : quote = '"' ∨ quote = '\'') (x : UInt8) :
    ByteEscape quote x (byteRepr quote x) := by
  have hbyte : UInt8.ofNat (Char.ofNat x.toNat).toNat = x := by rw [toNat_ofNat_byte, UInt8.ofNat_toNat]
  unfold byteRepr
  dsimp only
  split
  · rename_i h
    have hletter : ∀ e : Char, e = '"' ∨ e = '\'' ∨ e = '\\' → e ≠ 'x' ∧ shortByte e = UInt8.ofNat e.toNat := by
      rintro e (rfl | rfl | rfl) <;> decide
    have he : Char.ofNat x.toNat = '"' ∨ Char.ofNat x.toNat = '\'' ∨ Char.ofNat x.toNat = '\\' := by
      rcases h with h | h
      · rcases hquote with hq | hq
        · exact .inl (h.trans hq)
        · exact .inr (.inl (h.trans hq))
      · exact .inr (.inr h)
    obtain ⟨hx, hshort⟩ := hletter _ he
    exact .short hx (hshort.trans hbyte)
  rename_i hplain
  split
  · rename_i h; exact .short (by decide) (by rw [← hbyte, h]; decide)
  split
  · rename_i h; exact .short (by decide) (by rw [← hbyte, h]; decide)
  split
  · rename_i h; exact .short (by decide) (by rw [← hbyte, h]; decide)
  split
  · exact .hex
  · exact .plain (fun h => hplain (.inr h)) (fun h => hplain (.inl h)) hbyte

theorem ByteEscape.cancel {quote : Char} {x y : UInt8} {a b s t : List Char} (ha : ByteEscape quote x a)
    (hb : ByteEscape quote y b) (h : a ++ s = b ++ t) : x = y ∧ s = t := by
  rcases ha with ⟨hback, -, hx⟩ | ⟨hex, hx⟩ | _ <;> rcases hb with ⟨hback', -, hy⟩ | ⟨hex', hy⟩ | _
  · obtain ⟨hc, hst⟩ := List.cons.inj h
    rw [← hx, ← hy, hc]
    exact ⟨rfl, hst⟩
  · exact absurd (List.cons.inj h).1 hback
  · exact absurd (List.cons.inj h).1 hback
  · exact absurd (List.cons.inj h).1.symm hback'
  · obtain ⟨he, hst⟩ := List.cons.inj (List.cons.inj h).2
    rw [← hx, ← hy, he]
    exact ⟨rfl, hst⟩
  · exact absurd (List.cons.inj (List.cons.inj h).2).1 hex
  · exact absurd (List.cons.inj h).1.symm hback'
  · exact absurd (List.cons.inj (List.cons.inj h).2).1.symm hex'
  · have hdigits := (List.cons.inj (List.cons.inj h).2).2
    obtain ⟨hhex, hst⟩ := List.append_inj hdigits (by rw [length_hexDigits, length_hexDigits])
    have hmod := digits_injective (by decide) (fun i j hi hj => hexDigit_injective hi hj) (fun _ _ => rfl) 2 hhex
    have hx := x.toNat_lt
    have hy := y.toNat_lt
    exact ⟨UInt8.toNat_inj.1 (by omega), hst⟩

theorem ByteEscape.ne_quote {quote : Char} (hquote : quote = '"' ∨ quote = '\'') {x : UInt8} {a : List Char}
    (ha : ByteEscape quote x a) (s t : List Char) : a ++ s ≠ quote :: t := by
  have hback : '\\' ≠ quote := by rcases hquote with rfl | rfl <;> decide
  intro h
  rcases ha with ⟨-, hne, -⟩ | _ | _
  · exact hne (List.cons.inj h).1
  · exact hback (List.cons.inj h).1
  · exact hback (List.cons.inj h).1

theorem bytesRepr_injective {a b : Bytes} (h : bytesRepr a = bytesRepr b) : a = b := by
  have hquotes : ∀ l : Bytes, ∃ quote, (quote = '"' ∨ quote = '\'') ∧
      (bytesRepr l).toList = 'b' :: quote :: (l.flatMap (byteRepr quote) ++ [quote]) := by
    intro l
    refine ⟨if 39 ∈ l ∧ 34 ∉ l then '"' else '\'', ?_, ?_⟩
    · split
      · exact .inl rfl
      · exact .inr rfl
    · rw [bytesRepr, String.toList_ofList]
      simp
  obtain ⟨quote, hquote, ha⟩ := hquotes a
  obtain ⟨quote', -, hb⟩ := hquotes b
  have hlist := congrArg String.toList h
  rw [ha, hb] at hlist
  obtain ⟨rfl, hbody⟩ := List.cons.inj (List.cons.inj hlist).2
  have hfree : PrefixFree (byteRepr quote) := fun x y _ _ hxy =>
    (byteEscape_byteRepr hquote x).cancel (byteEscape_byteRepr hquote y) hxy
  exact (hfree.flatMap_cancel (fun x => (byteEscape_byteRepr hquote x).ne_quote hquote) a b hbody).1

/-- Bytes that are UTF-8. -/
def isText (b : Bytes) : Bool := (String.fromUTF8? b.toByteArray).isSome

theorem bytesText_of_isText {b : Bytes} (h : isText b = true) : encodeStr (bytesText b) = b := by
  obtain ⟨s, hs⟩ := Option.isSome_iff_exists.1 h
  rw [bytesText, hs, Option.getD_some]
  unfold String.fromUTF8? at hs
  split at hs
  · cases hs
    rw [encodeStr, ByteArray.toList_eq]
    exact List.toList_data_toByteArray
  · cases hs

theorem bytesText_of_not_isText {b : Bytes} (h : isText b = false) : bytesText b = bytesRepr b := by
  rw [bytesText, Option.isSome_eq_false_iff.1 h |> Option.isNone_iff_eq_none.1]
  rfl

/-! ### Kinds, and values up to the order of dicts -/

inductive Kind
  | null | bool | int | str | decimal | text | bytes | datetime | set
  | list (items : List Kind)
  | dict (entries : List (String × Kind))
  | other

mutual
/-- The kind of a value and of its parts; a tuple counts as a list. -/
def kindOf : Value → Kind
  | .none => .null
  | .bool _ => .bool
  | .int _ => .int
  | .str _ => .str
  | .decimal _ => .decimal
  | .bytes b => if isText b then .text else .bytes
  | .datetime _ => .datetime
  | .set _ => .set
  | .tuple items => .list (kindItems items)
  | .list items => .list (kindItems items)
  | .dict entries => .dict (kindEntries entries)
  | _ => .other

def kindItems : List Value → List Kind
  | [] => []
  | v :: rest => kindOf v :: kindItems rest

def kindEntries : List (String × Value) → List (String × Kind)
  | [] => []
  | (k, v) :: rest => insertEntry k (kindOf v) (kindEntries rest)
end

mutual
/-- The value with its tuples as lists and its dicts sorted by key, which Python's `==` does not see. -/
def canonical : Value → Value
  | .tuple items => .list (canonicalItems items)
  | .list items => .list (canonicalItems items)
  | .dict entries => .dict (canonicalEntries entries)
  | v => v

def canonicalItems : List Value → List Value
  | [] => []
  | v :: rest => canonical v :: canonicalItems rest

def canonicalEntries : List (String × Value) → List (String × Value)
  | [] => []
  | (k, v) :: rest => insertEntry k (canonical v) (canonicalEntries rest)
end

mutual
/-- The values a contract can keep. -/
def persistent : Value → Bool
  | .none => true
  | .bool _ => true
  | .int _ => true
  | .str _ => true
  | .decimal _ => true
  | .bytes _ => true
  | .datetime t => t.valid
  | .set encoded => encoded.floatFree
  | .tuple items => persistentItems items
  | .list items => persistentItems items
  | .dict entries => persistentEntries entries
  | _ => false

def persistentItems : List Value → Bool
  | [] => true
  | v :: rest => persistent v && persistentItems rest

def persistentEntries : List (String × Value) → Bool
  | [] => true
  | (_, v) :: rest => persistent v && persistentEntries rest
end

instance : Inhabited Datetime := ⟨⟨1, 1, 1, 0, 0, 0, 0⟩⟩

mutual
/-- The value of a kind that normalises to a document. -/
noncomputable def denormalize : Kind → Json → Value
  | .bool, .bool b => .bool b
  | .int, .int i => .int i
  | .str, .str s => .str s
  | .decimal, .str s => .decimal ⟨Function.invFun (fun units => decimalToPlainString units 30) s⟩
  | .text, .str s => .bytes (encodeStr s)
  | .bytes, .str s => .bytes (Function.invFun bytesRepr s)
  | .datetime, .str s => .datetime (Function.invFunOn Datetime.str {t | t.valid = true} s)
  | .set, j => .set j
  | .list kinds, .arr items => .list (denormalizeItems kinds items)
  | .dict kinds, .obj entries => .dict (denormalizeEntries kinds entries)
  | _, _ => .none

noncomputable def denormalizeItems : List Kind → List Json → List Value
  | kind :: kinds, j :: items => denormalize kind j :: denormalizeItems kinds items
  | _, _ => []

noncomputable def denormalizeEntries : List (String × Kind) → List (String × Json) → List (String × Value)
  | (k, kind) :: kinds, (_, j) :: entries => (k, denormalize kind j) :: denormalizeEntries kinds entries
  | _, _ => []
end

theorem denormalizeEntries_insertEntry (k : String) (kind : Kind) (j : Json) (kinds : List (String × Kind))
    (entries : List (String × Json)) (hkeys : kinds.map Prod.fst = entries.map Prod.fst) :
    denormalizeEntries (insertEntry k kind kinds) (insertEntry k j entries) =
      insertEntry k (denormalize kind j) (denormalizeEntries kinds entries) := by
  induction kinds generalizing entries with
  | nil =>
    obtain rfl : entries = [] := List.map_eq_nil_iff.1 hkeys.symm
    simp [insertEntry, denormalizeEntries]
  | cons p kinds ih =>
    rcases entries with _ | ⟨⟨k₂, j₂⟩, entries⟩
    · cases hkeys
    obtain ⟨k₁, kind₁⟩ := p
    simp only [List.map_cons, List.cons.injEq] at hkeys
    obtain ⟨rfl, hrest⟩ := hkeys
    unfold insertEntry
    by_cases hle : k ≤ k₁
    · simp [hle, denormalizeEntries]
    · simp [hle, denormalizeEntries, ih entries hrest]

/-! ### Reading a document back -/

theorem floatFreeEntries_insertEntry {k : String} {j : Json} {entries : List (String × Json)}
    (hj : j.floatFree = true) (hentries : Json.floatFreeEntries entries = true) :
    Json.floatFreeEntries (insertEntry k j entries) = true := by
  induction entries with
  | nil => simp [insertEntry, Json.floatFreeEntries, hj]
  | cons p entries ih =>
    obtain ⟨k', j'⟩ := p
    rw [Json.floatFreeEntries, Bool.and_eq_true] at hentries
    unfold insertEntry
    split
    · simp [Json.floatFreeEntries, hj, hentries]
    · simp [Json.floatFreeEntries, hentries.1, ih hentries.2]

/-- A document `j` the encoder writes for `v`: float-free, and `v` is read back from it and its kinds. -/
def Reads (v : Value) (j : Json) : Prop :=
  normalizeForAbciJson v = .ok j ∧ j.floatFree = true ∧ denormalize (kindOf v) j = canonical v

theorem reads_decimal (d : ContractingDecimal) : Reads (.decimal d) (.str (decimalToPlainString d.units 30)) := by
  have hinj : Function.Injective fun units : Int => decimalToPlainString units 30 :=
    fun _ _ h => decimalToPlainString_injective h
  refine ⟨by rw [normalizeForAbciJson], rfl, ?_⟩
  simp only [kindOf, denormalize, canonical]
  exact congrArg (fun units => Value.decimal ⟨units⟩) (Function.leftInverse_invFun hinj d.units)

theorem reads_datetime {t : Datetime} (ht : t.valid = true) : Reads (.datetime t) (.str t.str) := by
  have hinj : Set.InjOn Datetime.str {t | t.valid = true} := fun _ ht _ hu h => Datetime.str_injective ht hu h
  refine ⟨by rw [normalizeForAbciJson], rfl, ?_⟩
  simp only [kindOf, denormalize, canonical]
  exact congrArg Value.datetime (hinj.leftInvOn_invFunOn ht)

theorem reads_bytes (b : Bytes) : Reads (.bytes b) (.str (bytesText b)) := by
  refine ⟨by rw [normalizeForAbciJson], rfl, ?_⟩
  simp only [kindOf, canonical]
  by_cases h : isText b = true
  · rw [if_pos h, denormalize, bytesText_of_isText h]
  · have hinj : Function.Injective bytesRepr := fun _ _ h => bytesRepr_injective h
    rw [if_neg h, denormalize, bytesText_of_not_isText (Bool.eq_false_iff.2 h)]
    exact congrArg Value.bytes (Function.leftInverse_invFun hinj b)

mutual
/-- Every value a contract can keep is written, and read back from what was written. -/
theorem exists_reads : ∀ v, persistent v = true → ∃ j, Reads v j
  | .none, _ => ⟨.null, by rw [normalizeForAbciJson], rfl, by simp only [kindOf, denormalize, canonical]⟩
  | .bool b, _ => ⟨.bool b, by rw [normalizeForAbciJson], rfl, by simp only [kindOf, denormalize, canonical]⟩
  | .int i, _ => ⟨.int i, by rw [normalizeForAbciJson], rfl, by simp only [kindOf, denormalize, canonical]⟩
  | .str s, _ => ⟨.str s, by rw [normalizeForAbciJson], rfl, by simp only [kindOf, denormalize, canonical]⟩
  | .decimal d, _ => ⟨_, reads_decimal d⟩
  | .bytes b, _ => ⟨_, reads_bytes b⟩
  | .datetime t, h => ⟨_, reads_datetime (by rwa [persistent] at h)⟩
  | .set encoded, h =>
    ⟨encoded, by rw [normalizeForAbciJson], by rwa [persistent] at h, by simp only [kindOf, denormalize, canonical]⟩
  | .tuple items, h => by
    obtain ⟨js, hjs, hfree, hread⟩ := exists_readsItems items (by rwa [persistent] at h)
    refine ⟨.arr js, by rw [normalizeForAbciJson, hjs]; rfl, by rwa [Json.floatFree], ?_⟩
    rw [kindOf, denormalize, canonical, hread]
  | .list items, h => by
    obtain ⟨js, hjs, hfree, hread⟩ := exists_readsItems items (by rwa [persistent] at h)
    refine ⟨.arr js, by rw [normalizeForAbciJson, hjs]; rfl, by rwa [Json.floatFree], ?_⟩
    rw [kindOf, denormalize, canonical, hread]
  | .dict entries, h => by
    obtain ⟨js, hjs, hfree, -, hread⟩ := exists_readsEntries entries (by rwa [persistent] at h)
    refine ⟨.obj js, by rw [normalizeForAbciJson, hjs]; rfl, by rwa [Json.floatFree], ?_⟩
    rw [kindOf, denormalize, canonical, hread]
  | .float _, h | .pyDecimal _ _, h | .pyDatetime _, h | .exception _, h | .object _, h => by simp [persistent] at h

theorem exists_readsItems : ∀ l, persistentItems l = true → ∃ js, normalizeItems l = .ok js ∧
    Json.floatFreeItems js = true ∧ denormalizeItems (kindItems l) js = canonicalItems l
  | [], _ => ⟨[], by rw [normalizeItems], rfl, by simp only [kindItems, denormalizeItems, canonicalItems]⟩
  | v :: rest, h => by
    rw [persistentItems, Bool.and_eq_true] at h
    obtain ⟨j, hj, hfree, hread⟩ := exists_reads v h.1
    obtain ⟨js, hjs, hfrees, hreads⟩ := exists_readsItems rest h.2
    refine ⟨j :: js, by rw [normalizeItems, hj, hjs]; rfl, ?_, ?_⟩
    · rw [Json.floatFreeItems, hfree, hfrees]; rfl
    · rw [kindItems, denormalizeItems, canonicalItems, hread, hreads]

theorem exists_readsEntries : ∀ l, persistentEntries l = true → ∃ js, normalizeEntries l = .ok js ∧
    Json.floatFreeEntries js = true ∧ (kindEntries l).map Prod.fst = js.map Prod.fst ∧
      denormalizeEntries (kindEntries l) js = canonicalEntries l
  | [], _ => ⟨[], by rw [normalizeEntries], rfl, by rw [kindEntries]; rfl,
    by simp only [kindEntries, denormalizeEntries, canonicalEntries]⟩
  | (k, v) :: rest, h => by
    rw [persistentEntries, Bool.and_eq_true] at h
    obtain ⟨j, hj, hfree, hread⟩ := exists_reads v h.1
    obtain ⟨js, hjs, hfrees, hkeys, hreads⟩ := exists_readsEntries rest h.2
    refine ⟨insertEntry k j js, by rw [normalizeEntries, hj, hjs]; rfl, ?_, ?_, ?_⟩
    · exact floatFreeEntries_insertEntry hfree hfrees
    · rw [kindEntries]
      exact map_fst_insertEntry k (kindOf v) j _ _ hkeys
    · rw [kindEntries, denormalizeEntries_insertEntry _ _ _ _ _ hkeys, canonicalEntries, hread, hreads]
end

theorem encodeAbciJson_of_reads {v : Value} {j : Json} (h : Reads v j) :
    encodeAbciJson v = .ok (encodeStr (String.ofList (dumps j))) := by
  rw [encodeAbciJson, h.1]
  rfl

/-- Equal leaf encodings are encodings of one document, and values of the same kinds at every place that
have it are equal, up to lists for tuples and the order of dict entries. -/
theorem leaf_binds_document {v w : Value} (hv : persistent v = true) (hw : persistent w = true)
    (h : encodeAbciJson v = encodeAbciJson w) :
    (∃ j, normalizeForAbciJson v = .ok j ∧ normalizeForAbciJson w = .ok j) ∧
      (kindOf v = kindOf w → canonical v = canonical w) := by
  obtain ⟨j, hj⟩ := exists_reads v hv
  obtain ⟨j', hj'⟩ := exists_reads w hw
  rw [encodeAbciJson_of_reads hj, encodeAbciJson_of_reads hj', Except.ok.injEq] at h
  obtain rfl : j = j' := dumps_injective hj.2.1 hj'.2.1 (String.ofList_inj.1 (encodeStr_injective h))
  refine ⟨⟨j, hj.1, hj'.1⟩, fun hkinds => ?_⟩
  rw [← hj.2.2, ← hj'.2.2, hkinds]

/-- The decimal one and a half and the string that reads the same are one leaf. -/
theorem decimal_and_string_share_leaf : ∃ v w : Value, persistent v = true ∧ persistent w = true ∧
    encodeAbciJson v = encodeAbciJson w ∧ canonical v ≠ canonical w := by
  refine ⟨.decimal ⟨15 * 10 ^ 29⟩, .str "1.5", by decide, by decide, by decide +kernel, by decide⟩

theorem leaf_binds_document_pair :
    encodeAbciJson (.tuple [.decimal ⟨15 * 10 ^ 29⟩, .bytes [255]]) =
      encodeAbciJson (.list [.decimal ⟨15 * 10 ^ 29⟩, .bytes [255]]) ∧
    canonical (.tuple [.decimal ⟨15 * 10 ^ 29⟩, .bytes [255]]) =
      canonical (.list [.decimal ⟨15 * 10 ^ 29⟩, .bytes [255]]) := by
  have hencoded : encodeAbciJson (.tuple [.decimal ⟨15 * 10 ^ 29⟩, .bytes [255]]) =
      encodeAbciJson (.list [.decimal ⟨15 * 10 ^ 29⟩, .bytes [255]]) := by decide +kernel
  exact ⟨hencoded, (leaf_binds_document (by decide) (by decide) hencoded).2 (by rw [kindOf, kindOf])⟩

end XianAbci
