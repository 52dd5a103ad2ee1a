import XianAbci.TransactionFormat

/-!
# The payload scanner (`extract_payload_string` of `utils/encoding.py`)

The payload of a transaction can be cut out of its text without parsing it: from the first brace after
`"payload":` to the brace that closes it, where braces inside strings do not count, and a quote ends a string
unless an odd number of backslashes stands before it. Over the text of a document the scanner comes out of every
value with the depth it went in with (`skips_value`), so on an accepted transaction it finds the text of the
payload (`extract_payload_of_accepted`).
-/

namespace XianAbci

/-! ### The scanner -/

/-- `s.find(pattern, i)`, with the text before a position kept backwards, as it is looked back at. -/
def findText (pattern : List Char) : List Char → List Char → Option (List Char × List Char)
  | _, [] => none
  | before, c :: rest =>
    if pattern.isPrefixOf (c :: rest) then some (before, c :: rest) else findText pattern (c :: before) rest

/-- `_is_escaped`. -/
def isEscaped (before : List Char) : Bool := (before.takeWhile (· = '\\')).length % 2 = 1

/-- The loop, with what it has returned in front of it still to come. -/
def scanBraces : List Char → List Char → Int → Bool → Option (List Char)
  | _, [], _, _ => none
  | before, char :: rest, braceCount, inString =>
    let inString := if char = '"' ∧ ¬ isEscaped before then !inString else inString
    let braceCount :=
      if inString then braceCount
      else if char = '{' then braceCount + 1
      else if char = '}' then braceCount - 1
      else braceCount
    if braceCount = 0 then some [char]
    else (scanBraces (char :: before) rest braceCount inString).map (char :: ·)

def extractPayloadString (jsonStr : String) : Except PyErr String :=
  match findText "\"payload\":".toList [] jsonStr.toList with
  | none => .error (.valueError "No 'payload' found in the provided JSON string.")
  | some (before, rest) => match findText ['{'] before rest with
    | none => .error (.valueError "Malformed JSON: No opening brace for 'payload'.")
    | some (before, rest) => match scanBraces before rest 0 false with
      | none => .error (.valueError "Malformed JSON: No matching closing brace for 'payload'.")
      | some payload => .ok (String.ofList payload)

/-! ### Texts that leave the depth as it is -/

/-- The scanner goes over the text, between strings or inside one, and comes out with the same count. -/
def Skips (depth : Int) (inString : Bool) (before text : List Char) : Prop :=
  ∀ rest, scanBraces before (text ++ rest) depth inString =
    (scanBraces (text.reverse ++ before) rest depth inString).map (text ++ ·)

variable {depth : Int} {inString : Bool} {before text : List Char} {c : Char}

theorem skips_nil : Skips depth inString before [] := fun rest => by simp

theorem Skips.append {t u : List Char} (h : Skips depth inString before t)
    (h' : Skips depth inString (t.reverse ++ before) u) : Skips depth inString before (t ++ u) := by
  intro rest
  rw [List.append_assoc, h, h', Option.map_map, List.reverse_append, List.append_assoc]
  congr 1
  funext left
  exact (List.append_assoc ..).symm

/-- A character that is no quote and, between strings, no brace. -/
theorem skips_char (hdepth : depth ≠ 0) (hquote : c = '"' → isEscaped before = true)
    (hbrace : inString = false → c ≠ '{' ∧ c ≠ '}') : Skips depth inString before [c] := by
  intro rest
  have hsame : (if c = '"' ∧ ¬ isEscaped before then !inString else inString) = inString :=
    if_neg fun h => h.2 (hquote h.1)
  rw [List.singleton_append, scanBraces, hsame]
  cases inString with
  | true => rw [if_pos rfl, if_neg hdepth]; rfl
  | false =>
    obtain ⟨hopen, hclose⟩ := hbrace rfl
    rw [if_neg Bool.false_ne_true, if_neg hopen, if_neg hclose, if_neg hdepth]
    rfl

theorem skips_chars (hdepth : depth ≠ 0) (h : ∀ c ∈ text, c ≠ '"' ∧ c ≠ '{' ∧ c ≠ '}') :
    Skips depth inString before text := by
  induction text generalizing before with
  | nil => exact skips_nil
  | cons c text ih =>
    obtain ⟨hquote, hbraces⟩ := h c (List.mem_cons_self ..)
    exact Skips.append (t := [c]) (skips_char hdepth (fun hc => absurd hc hquote) fun _ => hbraces)
      (ih fun d hd => h d (List.mem_cons_of_mem _ hd))

/-! ### Strings -/

theorem isEscaped_cons (hc : c ≠ '\\') : isEscaped (c :: before) = false := by
  unfold isEscaped
  rw [List.takeWhile_cons_of_neg (by simpa using hc)]
  rfl

theorem isEscaped_backslash : isEscaped ('\\' :: before) = !isEscaped before := by
  unfold isEscaped
  rw [List.takeWhile_cons_of_pos (by simp), List.length_cons]
  generalize (before.takeWhile (· = '\\')).length = n
  rcases Nat.mod_two_eq_zero_or_one n with hn | hn
  · simp [hn, Nat.add_mod]
  · simp [hn, Nat.add_mod]

/-- Inside a string, an escaped character leaves an even number of backslashes behind, as it found them. -/
theorem skips_escapeUnicode (hdepth : depth ≠ 0) (hbefore : isEscaped before = false) (c : Char) :
    Skips depth true before (escapeUnicode c) ∧ isEscaped ((escapeUnicode c).reverse ++ before) = false := by
  have hany : ∀ {d : Char} {before : List Char}, d ≠ '"' → Skips depth true before [d] := fun hd =>
    skips_char hdepth (fun h => absurd h hd) fun h => by cases h
  have hslash : isEscaped ('\\' :: before) = true := by rw [isEscaped_backslash, hbefore]; rfl
  -- a backslash and a letter, where even a quote is escaped
  have hpair : ∀ d : Char, Skips depth true before ['\\', d] := fun d =>
    Skips.append (t := ['\\']) (hany (by decide)) (skips_char hdepth (fun _ => hslash) fun h => by cases h)
  have hletter : ∀ d : Char, d ≠ '\\' → Skips depth true before ['\\', d] ∧
      isEscaped (['\\', d].reverse ++ before) = false := fun d hd => ⟨hpair d, isEscaped_cons hd⟩
  unfold escapeUnicode
  split_ifs with hquote hback hn hr ht hf hb hcontrol
  · exact hletter '"' (by decide)
  · refine ⟨hpair '\\', ?_⟩
    show isEscaped ('\\' :: '\\' :: before) = false
    rw [isEscaped_backslash, hslash]
    rfl
  · exact hletter 'n' (by decide)
  · exact hletter 'r' (by decide)
  · exact hletter 't' (by decide)
  · exact hletter 'f' (by decide)
  · exact hletter 'b' (by decide)
  · -- four hexadecimal digits, and the `u` before them
    have hdigits : ∀ d ∈ hexDigits 4 c.toNat, d ≠ '"' ∧ d ≠ '\\' := by
      intro d hd
      obtain ⟨n, hn, rfl⟩ : ∃ n < 16, d = hexDigit n := by
        simp only [hexDigits, List.mem_cons, List.not_mem_nil, or_false] at hd
        rcases hd with rfl | rfl | rfl | rfl
        all_goals exact ⟨_, Nat.mod_lt _ (by decide), rfl⟩
      have hall : ∀ n < 16, hexDigit n ≠ '"' ∧ hexDigit n ≠ '\\' := by decide
      exact hall n hn
    have hskips : ∀ (l : List Char), (∀ d ∈ l, d ≠ '"' ∧ d ≠ '\\') → ∀ before, isEscaped before = false →
        Skips depth true before l ∧ isEscaped (l.reverse ++ before) = false := by
      intro l
      induction l with
      | nil => exact fun _ before hbefore => ⟨skips_nil, hbefore⟩
      | cons d l ih =>
        intro hl before hbefore
        obtain ⟨hd, hdback⟩ := hl d (List.mem_cons_self ..)
        obtain ⟨hrest, hafter⟩ := ih (fun e he => hl e (List.mem_cons_of_mem _ he)) (d :: before) (isEscaped_cons hdback)
        refine ⟨Skips.append (t := [d]) (hany hd) hrest, ?_⟩
        rwa [List.reverse_cons, List.append_assoc]
    obtain ⟨hrest, hafter⟩ := hskips _ hdigits ('u' :: '\\' :: before) (isEscaped_cons (by decide))
    unfold escapeUnit
    refine ⟨Skips.append (t := ['\\', 'u']) (hpair 'u') hrest, ?_⟩
    rw [List.reverse_cons, List.reverse_cons, List.append_assoc, List.append_assoc]
    exact hafter
  · exact ⟨hany hquote, isEscaped_cons hback⟩

/-- A string in its quotes, wherever a value or a key may stand. -/
theorem skips_string (hdepth : depth ≠ 0) (hbefore : isEscaped before = false) (s : String) :
    Skips depth false before (dumpsStrWith escapeUnicode s) := by
  have hcontent : ∀ (cs : List Char) (before : List Char), isEscaped before = false →
      Skips depth true before (cs.flatMap escapeUnicode) ∧
        isEscaped ((cs.flatMap escapeUnicode).reverse ++ before) = false := by
    intro cs
    induction cs with
    | nil => exact fun before hbefore => ⟨skips_nil, hbefore⟩
    | cons c cs ih =>
      intro before hbefore
      obtain ⟨hc, hafter⟩ := skips_escapeUnicode hdepth hbefore c
      obtain ⟨hrest, hlast⟩ := ih _ hafter
      rw [List.flatMap_cons, List.reverse_append, List.append_assoc]
      exact ⟨hc.append hrest, hlast⟩
  obtain ⟨hskips, hafter⟩ := hcontent s.toList ('"' :: before) (isEscaped_cons (by decide))
  unfold dumpsStrWith
  intro rest
  -- in at the first quote, out at the last one
  have hopen : ∀ t, scanBraces before ('"' :: t) depth false =
      (scanBraces ('"' :: before) t depth true).map ('"' :: ·) := by
    intro t
    rw [scanBraces]
    simp [hbefore, hdepth]
  have hclose : ∀ b t, isEscaped b = false → scanBraces b ('"' :: t) depth true =
      (scanBraces ('"' :: b) t depth false).map ('"' :: ·) := by
    intro b t hb
    rw [scanBraces]
    simp [hb, hdepth]
  rw [List.cons_append, List.cons_append, List.append_assoc, hopen, hskips, List.singleton_append, hclose _ _ hafter,
    Option.map_map, Option.map_map]
  simp [Function.comp_def]

/-! ### Documents -/

/-- An opening brace. -/
theorem scanBraces_open (hdepth : depth + 1 ≠ 0) (rest : List Char) :
    scanBraces before ('{' :: rest) depth false = (scanBraces ('{' :: before) rest (depth + 1) false).map ('{' :: ·) := by
  rw [scanBraces]
  simp [hdepth]

theorem scanBraces_close (hdepth : depth - 1 ≠ 0) (rest : List Char) :
    scanBraces before ('}' :: rest) depth false = (scanBraces ('}' :: before) rest (depth - 1) false).map ('}' :: ·) := by
  rw [scanBraces]
  simp [hdepth]

/-- A text in braces, one level deeper. -/
theorem Skips.braces (hdepth : 0 < depth) (h : Skips (depth + 1) false ('{' :: before) text) :
    Skips depth false before ('{' :: text ++ ['}']) := by
  intro rest
  rw [List.cons_append, List.cons_append, List.append_assoc, scanBraces_open (by omega), h, List.singleton_append,
    scanBraces_close (by omega), Option.map_map, Option.map_map, Int.add_sub_cancel]
  simp [Function.comp_def]

theorem skips_comma (hdepth : depth ≠ 0) : Skips depth false before [','] := skips_chars hdepth (by simp)

theorem skips_colon (hdepth : depth ≠ 0) : Skips depth false before [':'] := skips_chars hdepth (by simp)

mutual
theorem skips_value : ∀ (j : Json) (n : Nat), j.codable n = true → ∀ {depth : Int} {before : List Char}, 0 < depth →
    isEscaped before = false → Skips depth false before (dumpsWith escapeUnicode j)
  | .null, _, _, _, _, hdepth, _ => skips_chars hdepth.ne' (by simp [dumpsWith])
  | .bool true, _, _, _, _, hdepth, _ => skips_chars hdepth.ne' (by simp [dumpsWith])
  | .bool false, _, _, _, _, hdepth, _ => skips_chars hdepth.ne' (by simp [dumpsWith])
  | .int i, _, _, _, _, hdepth, _ => by
    refine skips_chars hdepth.ne' fun c hc => ?_
    have hnumber := toList_int_letters i c (by simpa [dumpsWith] using hc)
    refine ⟨?_, ?_, ?_⟩
    all_goals
      rintro rfl
      exact absurd hnumber (by decide)
  | .float _, _, h, _, _, _, _ => by cases h
  | .str s, _, _, _, _, hdepth, hbefore => skips_string hdepth.ne' hbefore s
  | .arr [], _, _, _, _, hdepth, _ => skips_chars hdepth.ne' (by simp [dumpsWith])
  | .arr (v :: rest), 0, h, _, _, _, _ => by cases h
  | .arr (v :: rest), n + 1, h, depth, before, hdepth, _ => by
    rw [Json.codable, Json.codableItems, Bool.and_eq_true] at h
    rw [dumpsWith]
    exact Skips.append (t := ['[']) (skips_chars hdepth.ne' (by simp))
      ((skips_value v n h.1 hdepth (isEscaped_cons (by decide))).append (skips_items rest (n + 1) h.2 hdepth))
  | .obj entries, n, h, depth, before, hdepth, _ => by
    rw [Json.codable, Bool.and_eq_true] at h
    obtain ⟨inner, htext, hinner⟩ := skips_object entries n h.2
    rw [htext]
    exact Skips.braces hdepth (hinner (by omega))

theorem skips_items : ∀ (l : List Json) (n : Nat), Json.codableItems n l = true → ∀ {depth : Int} {before : List Char},
    0 < depth → Skips depth false before (dumpsItemsWith escapeUnicode l)
  | [], _, _, _, _, hdepth => skips_chars hdepth.ne' (by simp [dumpsItemsWith])
  | _ :: _, 0, h, _, _, _ => by cases h
  | v :: rest, n + 1, h, _, _, hdepth => by
    rw [Json.codableItems, Bool.and_eq_true] at h
    rw [dumpsItemsWith]
    exact (skips_comma hdepth.ne').append
      ((skips_value v n h.1 hdepth (isEscaped_cons (by decide))).append (skips_items rest (n + 1) h.2 hdepth))

/-- What stands between the braces of an object. -/
theorem skips_object : ∀ (l : List (String × Json)) (n : Nat), Json.codableEntries n l = true →
    ∃ inner, dumpsWith escapeUnicode (.obj l) = '{' :: inner ++ ['}'] ∧
      ∀ {depth : Int} {before : List Char}, 0 < depth → Skips depth false ('{' :: before) inner
  | [], _, _ => ⟨[], by simp [dumpsWith], fun _ => skips_nil⟩
  | _ :: _, 0, h => by cases h
  | (k, v) :: rest, n + 1, h => by
    rw [Json.codableEntries, Bool.and_eq_true] at h
    obtain ⟨inner, htext, hinner⟩ := skips_entries rest (n + 1) h.2
    refine ⟨dumpsStrWith escapeUnicode k ++ ([':'] ++ (dumpsWith escapeUnicode v ++ inner)), ?_, fun hdepth => ?_⟩
    · rw [dumpsWith, htext]
      simp
    · exact (skips_string hdepth.ne' (isEscaped_cons (by decide)) k).append ((skips_colon hdepth.ne').append
        ((skips_value v n h.1 hdepth (isEscaped_cons (by decide))).append (hinner hdepth)))

theorem skips_entries : ∀ (l : List (String × Json)) (n : Nat), Json.codableEntries n l = true →
    ∃ inner, dumpsEntriesWith escapeUnicode l = inner ++ ['}'] ∧
      ∀ {depth : Int} {before : List Char}, 0 < depth → Skips depth false before inner
  | [], _, _ => ⟨[], by simp [dumpsEntriesWith], fun _ => skips_nil⟩
  | _ :: _, 0, h => by cases h
  | (k, v) :: rest, n + 1, h => by
    rw [Json.codableEntries, Bool.and_eq_true] at h
    obtain ⟨inner, htext, hinner⟩ := skips_entries rest (n + 1) h.2
    refine ⟨[','] ++ (dumpsStrWith escapeUnicode k ++ ([':'] ++ (dumpsWith escapeUnicode v ++ inner))), ?_,
      fun hdepth => ?_⟩
    · rw [dumpsEntriesWith, htext]
      simp
    · exact (skips_comma hdepth.ne').append ((skips_string hdepth.ne' (isEscaped_cons (by decide)) k).append
        ((skips_colon hdepth.ne').append
          ((skips_value v n h.1 hdepth (isEscaped_cons (by decide))).append (hinner hdepth))))
end

/-- From its opening brace the scanner takes an object and stops. -/
theorem scanBraces_object {l : List (String × Json)} {n : Nat} (h : Json.codableEntries n l = true) (before rest : List Char) :
    scanBraces before (dumpsWith escapeUnicode (.obj l) ++ rest) 0 false = some (dumpsWith escapeUnicode (.obj l)) := by
  obtain ⟨inner, htext, hinner⟩ := skips_object l n h
  have hclose : ∀ b t, scanBraces b ('}' :: t) 1 false = some ['}'] := by
    intro b t
    rw [scanBraces]
    simp
  rw [htext, List.cons_append, List.cons_append, List.append_assoc, scanBraces_open (by decide),
    hinner (by decide), List.singleton_append, Int.zero_add, hclose]
  simp

/-! ### Accepted transactions -/

/-- The text of an accepted transaction: the signature in hexadecimal digits, and then the payload. -/
theorem accepted_shape {raw : Bytes} {tx : Json} {payloadText : String}
    (hdecode : decodeTransactionBytes raw = .ok (tx, payloadText)) (haccepted : checkTxFormatting tx = .ok ()) :
    ∃ signature payload, tx = .obj [("metadata", .obj [("signature", .str signature)]), ("payload", .obj payload)] ∧
      signature.length = 128 ∧ (∀ c ∈ signature.toList, (hexVal c).isSome) ∧
      ∃ n, (Json.obj payload).codable n = true ∧ payloadText = String.ofList (dumpsWith escapeUnicode (.obj payload)) := by
  obtain ⟨entries, metadata, payload, rfl, hsections, hmetadata, hpayload, hlength, ⟨value, hsignature, hformatted⟩, -⟩ :=
    checkTxFormatting_eq_ok haccepted
  obtain ⟨⟨n, -, hcodable⟩, -, htext⟩ := decoded_payload hdecode hpayload
  obtain ⟨hlimits, hsorted, -⟩ := decoded_sorted hdecode
  rw [Json.codable, Bool.and_eq_true, decide_eq_true_eq] at hlimits
  -- two entries, in the order of their keys
  have hentry : ∀ k v, (k, v) ∈ entries ↔ entries.lookup k = some v := fun k v =>
    PyDict.mem_items_iff (d := ⟨entries, hlimits.1⟩)
  have hperm : entries.Perm [("metadata", .obj metadata), ("payload", .obj payload)] := by
    refine (List.perm_ext_iff_of_nodup (List.Nodup.of_map _ hlimits.1) (by simp)).2 fun p => ?_
    obtain ⟨k, v⟩ := p
    rw [List.mem_pair, Prod.mk.injEq, Prod.mk.injEq]
    constructor
    · intro hp
      have hk : k = "metadata" ∨ k = "payload" := by simpa [transactionRules] using hsections _ hp
      rcases hk with rfl | rfl
      · exact .inl ⟨rfl, Option.some.inj (((hentry _ _).1 hp).symm.trans hmetadata)⟩
      · exact .inr ⟨rfl, Option.some.inj (((hentry _ _).1 hp).symm.trans hpayload)⟩
    · rintro (⟨rfl, rfl⟩ | ⟨rfl, rfl⟩)
      · exact (hentry _ _).2 hmetadata
      · exact (hentry _ _).2 hpayload
  have hentries : entries = [("metadata", .obj metadata), ("payload", .obj payload)] := by
    rw [Json.sorted, Json.obj.injEq] at hsorted
    have hkeys : KeysSorted entries := hsorted ▸ keysSorted_sortEntries _
    have hpair : KeysSorted [("metadata", Json.obj metadata), ("payload", Json.obj payload)] :=
      List.pairwise_pair.2 (show "metadata" ≤ "payload" by decide)
    rw [← hkeys.sortEntries, sortEntries_eq_of_perm hperm hlimits.1, hpair.sortEntries]
  obtain ⟨p, rfl⟩ := List.length_eq_one_iff.1 hlength
  have hp : p = ("signature", value) := by
    rw [PyDict.lookup_cons_ite] at hsignature
    split_ifs at hsignature with hk
    · exact Prod.ext hk.symm (Option.some.inj hsignature)
    · cases hsignature
  subst hp
  unfold signatureIsFormatted hexIsFormatted at hformatted
  split at hformatted
  · rename_i signature
    obtain ⟨hlen, hhex⟩ := Bool.and_eq_true_iff.1 hformatted
    exact ⟨signature, payload, by rw [hentries], of_decide_eq_true hlen, List.all_eq_true.1 hhex, n, hcodable, htext⟩
  · cases hformatted

/-! The key of the payload is found where it stands: no quote before it is followed by a `p`. -/

variable {key : List Char}

theorem findText_chars {text : List Char} (h : ∀ c ∈ text, c ≠ '"') (rest : List Char) :
    findText ('"' :: key) before (text ++ rest) = findText ('"' :: key) (text.reverse ++ before) rest := by
  induction text generalizing before with
  | nil => rfl
  | cons c text ih =>
    have hno : ('"' :: key).isPrefixOf (c :: (text ++ rest)) = false := by
      rw [List.isPrefixOf_cons_cons, beq_false_of_ne (h c (List.mem_cons_self ..)).symm, Bool.false_and]
    rw [List.cons_append, findText, hno, if_neg Bool.false_ne_true, ih fun d hd => h d (List.mem_cons_of_mem _ hd),
      List.reverse_cons, List.append_assoc]
    rfl

theorem findText_quote {c d : Char} (h : c ≠ d) (rest : List Char) :
    findText ('"' :: d :: key) before ('"' :: c :: rest) = findText ('"' :: d :: key) ('"' :: before) (c :: rest) := by
  have hno : ('"' :: d :: key).isPrefixOf ('"' :: c :: rest) = false := by
    rw [List.isPrefixOf_cons_cons, List.isPrefixOf_cons_cons, beq_false_of_ne h.symm, Bool.false_and, Bool.and_false]
  rw [findText, hno, if_neg Bool.false_ne_true]

/-- A quote with another character behind it, and text without quotes. -/
theorem findText_piece {c d : Char} {text : List Char} (hc : c ≠ d) (h : ∀ e ∈ c :: text, e ≠ '"') (rest : List Char) :
    findText ('"' :: d :: key) before ('"' :: c :: text ++ rest) =
      findText ('"' :: d :: key) ((c :: text).reverse ++ '"' :: before) rest := by
  show findText ('"' :: d :: key) before ('"' :: c :: (text ++ rest)) = _
  rw [findText_quote hc]
  exact findText_chars h rest

theorem findText_self {c : Char} (rest : List Char) :
    findText (c :: key) before (c :: key ++ rest) = some (before, c :: key ++ rest) := by
  have hyes : (c :: key).isPrefixOf (c :: key ++ rest) = true := List.isPrefixOf_iff_prefix.2 ⟨rest, rfl⟩
  rw [List.cons_append] at hyes ⊢
  rw [findText, if_pos hyes]

/-- A hexadecimal digit is written as it is. -/
theorem hexDigit_plain {c : Char} (h : (hexVal c).isSome) : escapeUnicode c = [c] ∧ c ≠ '"' ∧ c ≠ 'p' := by
  have hrange : 48 ≤ c.toNat ∧ c.toNat ≤ 57 ∨ 65 ≤ c.toNat ∧ c.toNat ≤ 70 ∨ 97 ≤ c.toNat ∧ c.toNat ≤ 102 := by
    unfold hexVal at h
    dsimp only at h
    split_ifs at h with hdigit hlower hupper
    · exact .inl hdigit
    · exact .inr (.inr hlower)
    · exact .inr (.inl hupper)
    · cases h
  have hne : ∀ d : Char, ¬ (48 ≤ d.toNat ∧ d.toNat ≤ 57 ∨ 65 ≤ d.toNat ∧ d.toNat ≤ 70 ∨ 97 ≤ d.toNat ∧ d.toNat ≤ 102) →
      c ≠ d := by
    rintro d hd rfl
    exact hd hrange
  refine ⟨?_, hne _ (by decide), hne _ (by decide)⟩
  unfold escapeUnicode
  rw [if_neg (hne _ (by decide)), if_neg (hne _ (by decide)), if_neg (hne _ (by decide)), if_neg (hne _ (by decide)),
    if_neg (hne _ (by decide)), if_neg (by omega), if_neg (by omega), if_neg (by omega)]

/-- The scanner cuts the text of the payload out of the text of an accepted transaction. -/
theorem extract_payload_of_accepted {raw : Bytes} {tx : Json} {payloadText text : String}
    (hdecode : decodeTransactionBytes raw = .ok (tx, payloadText)) (haccepted : checkTxFormatting tx = .ok ())
    (htext : canonicalJsonText tx = .ok text) :
    ∃ payload, payloadOf tx = .ok payload ∧ extractPayloadString text = canonicalJsonText payload := by
  obtain ⟨signature, payload, rfl, hlength, hhex, n, hcodable, hpayloadText⟩ := accepted_shape hdecode haccepted
  obtain ⟨hlimits, hsorted, value, hvalue, hvalueText⟩ := decoded_sorted hdecode
  obtain rfl : Json.obj payload = value := Except.ok.inj (show payloadOf _ = _ from hvalue)
  refine ⟨.obj payload, rfl, ?_⟩
  obtain ⟨hwritten, -, -⟩ := canonicalJsonText_of_codable hlimits le_rfl
  rw [hsorted, htext] at hwritten
  rw [hvalueText, hpayloadText, Except.ok.inj hwritten]
  rw [Json.codable, Bool.and_eq_true] at hcodable
  -- the text, piece by piece
  obtain ⟨c, digits, hdigits⟩ : ∃ c digits, signature.toList = c :: digits :=
    List.exists_cons_of_ne_nil fun hnil => by simp [← String.length_toList, hnil] at hlength
  have hsignature : signature.toList.flatMap escapeUnicode = c :: digits := by
    rw [← hdigits, List.flatMap_congr (g := fun c => [c]) fun d hd => (hexDigit_plain (hhex d hd)).1,
      List.flatMap_singleton']
  have hpieces : dumpsWith escapeUnicode
      (.obj [("metadata", .obj [("signature", .str signature)]), ("payload", .obj payload)]) =
      ['{'] ++ ('"' :: 'm' :: ['e', 't', 'a', 'd', 'a', 't', 'a'] ++ ('"' :: ':' :: ['{'] ++
        ('"' :: 's' :: ['i', 'g', 'n', 'a', 't', 'u', 'r', 'e'] ++ ('"' :: ':' :: [] ++ ('"' :: c :: digits ++
          ('"' :: '}' :: [','] ++ ('"' :: ['p', 'a', 'y', 'l', 'o', 'a', 'd', '"', ':'] ++
            (dumpsWith escapeUnicode (.obj payload) ++ ['}'])))))))) := by
    have hmetadataKey : dumpsStrWith escapeUnicode "metadata" = ['"', 'm', 'e', 't', 'a', 'd', 'a', 't', 'a', '"'] := by
      decide +kernel
    have hsignatureKey : dumpsStrWith escapeUnicode "signature" =
        ['"', 's', 'i', 'g', 'n', 'a', 't', 'u', 'r', 'e', '"'] := by decide +kernel
    have hpayloadKey : dumpsStrWith escapeUnicode "payload" = ['"', 'p', 'a', 'y', 'l', 'o', 'a', 'd', '"'] := by
      decide +kernel
    have hvalue : dumpsStrWith escapeUnicode signature = '"' :: c :: digits ++ ['"'] := by
      unfold dumpsStrWith
      rw [hsignature]
    simp only [dumpsWith, dumpsEntriesWith, hmetadataKey, hsignatureKey, hpayloadKey, hvalue, List.cons_append,
      List.nil_append, List.append_assoc]
  have hplain : ∀ d ∈ c :: digits, d ≠ '"' := fun d hd => (hexDigit_plain (hhex d (hdigits ▸ hd))).2.1
  have hfirst : c ≠ 'p' := (hexDigit_plain (hhex c (hdigits ▸ List.mem_cons_self ..))).2.2
  obtain ⟨before, hfind⟩ : ∃ before, findText ('"' :: 'p' :: ['a', 'y', 'l', 'o', 'a', 'd', '"', ':']) []
      (dumpsWith escapeUnicode (.obj [("metadata", .obj [("signature", .str signature)]), ("payload", .obj payload)])) =
      some (before, '"' :: ['p', 'a', 'y', 'l', 'o', 'a', 'd', '"', ':'] ++
        (dumpsWith escapeUnicode (.obj payload) ++ ['}'])) := by
    constructor
    rw [hpieces, findText_chars (by simp), findText_piece (by decide) (by simp), findText_piece (by decide) (by simp),
      findText_piece (by decide) (by simp), findText_piece (by decide) (by simp), findText_piece hfirst hplain,
      findText_piece (by decide) (by simp), findText_self]
  obtain ⟨inner, hbraces, -⟩ := skips_object payload n hcodable.2
  have hopen : ∀ before, ∃ before', findText ['{'] before ('"' :: ['p', 'a', 'y', 'l', 'o', 'a', 'd', '"', ':'] ++
      (dumpsWith escapeUnicode (.obj payload) ++ ['}'])) = some (before', dumpsWith escapeUnicode (.obj payload) ++ ['}']) := by
    intro before
    rw [hbraces]
    exact ⟨_, rfl⟩
  obtain ⟨before', hopen⟩ := hopen before
  unfold extractPayloadString
  rw [String.toList_ofList, String.toList_ofList, hfind]
  dsimp only
  rw [hopen]
  dsimp only
  rw [scanBraces_object hcodable.2]

def bracesPayload : Json := .obj [
  ("chain_id", .str "xian-1"),
  ("chi_supplied", .int 100),
  ("contract", .str "con_memo"),
  ("function", .str "keep"),
  ("kwargs", .obj [("memo", .str "\\\"\x7d\\\\\x7b"), ("tags", .arr [.str "\\", .obj []])]),
  ("nonce", .int 0),
  ("sender", .str (String.ofList (List.replicate 64 'a')))]

def bracesTx : Json := .obj [
  ("metadata", .obj [("signature", .str (String.ofList (List.replicate 128 'f')))]), ("payload", bracesPayload)]

theorem extract_payload_of_accepted_braces : ∃ text payloadText, canonicalJsonText bracesTx = .ok text ∧
    canonicalJsonText bracesPayload = .ok payloadText ∧ extractPayloadString text = .ok payloadText := by
  have hcodable : bracesTx.codable maxCanonicalJsonDepth = true := by decide +kernel
  have hsorted : bracesTx.sorted = bracesTx := by decide +kernel
  have hpayloadCodable : bracesPayload.codable 127 = true := by decide +kernel
  obtain ⟨htext, -, hread⟩ := canonicalJsonText_of_codable hcodable le_rfl
  obtain ⟨hpayloadText, -, -⟩ := canonicalJsonText_of_codable hpayloadCodable (by decide)
  rw [hsorted] at htext hread
  have hdecode := decodeTransactionBytes_eq_ok.2 ⟨_, _, bracesPayload, rfl, bytesFromHex_bytesHex _,
    by rw [String.toList_ofList]; exact hread, htext, rfl, hpayloadText⟩
  obtain ⟨payload, hpayload, hextract⟩ := extract_payload_of_accepted hdecode (by decide +kernel) htext
  obtain rfl : bracesPayload = payload := Except.ok.inj hpayload
  exact ⟨_, _, htext, hpayloadText, hextract.trans hpayloadText⟩

end XianAbci
