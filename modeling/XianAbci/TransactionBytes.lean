import XianAbci.JsonLoads
import XianAbci.Lib.Bytes

/-!
# Transaction bytes (`utils/encoding.py`)

A transaction is sent as the hexadecimal digits of its JSON text. `decodeTransactionBytes` accepts the text
only if it is the canonical one of what it says: keys sorted, no blanks, no floats, integers of 64 bits. The
hexadecimal digits around it are not compared with anything, so upper-case digits and blanks between the
pairs pass (`decode_canonical_iff`).
-/

namespace XianAbci

/-! ### Entries in the order of their keys -/

/-- `sorted(items)` for items with different keys. -/
def sortEntries {β : Type} (l : List (String × β)) : List (String × β) := l.foldr (fun p l => insertEntry p.1 p.2 l) []

section Sorting

variable {β : Type} {k : String} {v : β} {l : List (String × β)}

/-- Sorted by key. -/
def KeysSorted (l : List (String × β)) : Prop := l.Pairwise fun p q => p.1 ≤ q.1

theorem insertEntry_perm (k : String) (v : β) (l : List (String × β)) : (insertEntry k v l).Perm ((k, v) :: l) := by
  induction l with
  | nil => exact .refl _
  | cons p rest ih =>
    unfold insertEntry
    split
    · exact .refl _
    · exact (ih.cons p).trans (.swap ..)

theorem sortEntries_perm (l : List (String × β)) : (sortEntries l).Perm l := by
  induction l with
  | nil => exact .refl _
  | cons p rest ih => exact (insertEntry_perm p.1 p.2 (sortEntries rest)).trans (ih.cons p)

theorem KeysSorted.insertEntry (h : KeysSorted l) : KeysSorted (insertEntry k v l) := by
  induction l with
  | nil => exact List.pairwise_singleton ..
  | cons p rest ih =>
    obtain ⟨hp, hrest⟩ := List.pairwise_cons.1 h
    unfold XianAbci.insertEntry
    by_cases hle : k ≤ p.1
    · rw [if_pos hle]
      refine List.pairwise_cons.2 ⟨fun q hq => ?_, h⟩
      rcases List.mem_cons.1 hq with rfl | hq
      · exact hle
      · exact hle.trans (hp q hq)
    · rw [if_neg hle]
      refine List.pairwise_cons.2 ⟨fun q hq => ?_, ih hrest⟩
      rcases List.mem_cons.1 ((insertEntry_perm k v rest).mem_iff.1 hq) with rfl | hq
      · exact (not_le.1 hle).le
      · exact hp q hq

theorem keysSorted_sortEntries (l : List (String × β)) : KeysSorted (sortEntries l) := by
  induction l with
  | nil => exact .nil
  | cons p rest ih => exact ih.insertEntry

/-- Sorted entries stay in place. -/
theorem KeysSorted.sortEntries (h : KeysSorted l) : sortEntries l = l := by
  induction l with
  | nil => rfl
  | cons p rest ih =>
    obtain ⟨hp, hrest⟩ := List.pairwise_cons.1 h
    show XianAbci.insertEntry p.1 p.2 (XianAbci.sortEntries rest) = _
    rw [ih hrest]
    rcases rest with _ | ⟨q, rest⟩
    · rfl
    · exact if_pos (hp q (List.mem_cons_self ..))

end Sorting

/-! ### The codec -/

/-- `b.decode("utf-8")`. -/
def decodeUtf8 (b : Bytes) : Except PyErr String :=
  match String.fromUTF8? b.toByteArray with
  | some s => .ok s
  | none => .error (.valueError "'utf-8' codec can't decode bytes")

def minCanonicalJsonInteger : Int := -2 ^ 63

def maxCanonicalJsonInteger : Int := 2 ^ 64 - 1

def maxCanonicalJsonDepth : Nat := 128

def checkDepth (depth : Nat) : Except PyErr Unit :=
  if maxCanonicalJsonDepth < depth then .error (.valueError "recursion limit exceeded") else .ok ()

mutual
def canonicalJsonValue (depth : Nat) : Json → Except PyErr Json
  | .obj entries => do
    checkDepth depth
    return .obj (sortEntries (← canonicalJsonEntries (depth + 1) entries))
  | .arr items => do
    checkDepth depth
    return .arr (← canonicalJsonItems (depth + 1) items)
  | .int i => do
    checkDepth depth
    if minCanonicalJsonInteger ≤ i ∧ i ≤ maxCanonicalJsonInteger then return .int i
    else .error (.valueError "Transaction bytes are not canonical")
  | .float _ => do
    checkDepth depth
    .error (.valueError "Transaction bytes are not canonical")
  | .null => do checkDepth depth; return .null
  | .bool b => do checkDepth depth; return .bool b
  | .str s => do checkDepth depth; return .str s

def canonicalJsonItems (depth : Nat) : List Json → Except PyErr (List Json)
  | [] => return []
  | v :: rest => return (← canonicalJsonValue depth v) :: (← canonicalJsonItems depth rest)

def canonicalJsonEntries (depth : Nat) : List (String × Json) → Except PyErr (List (String × Json))
  | [] => return []
  | (k, v) :: rest => return (k, ← canonicalJsonValue depth v) :: (← canonicalJsonEntries depth rest)
end

/-- A character of a string where `ensure_ascii` is off. -/
def escapeUnicode (c : Char) : List Char :=
  if c = '"' then ['\\', '"']
  else if c = '\\' then ['\\', '\\']
  else if c = '\n' then ['\\', 'n']
  else if c = '\r' then ['\\', 'r']
  else if c = '\t' then ['\\', 't']
  else if c.toNat = 12 then ['\\', 'f']
  else if c.toNat = 8 then ['\\', 'b']
  else if c.toNat < 32 then escapeUnit c.toNat
  else [c]

def canonicalJsonText (value : Json) : Except PyErr String := do
  return String.ofList (dumpsWith escapeUnicode (← canonicalJsonValue 0 value))

/-- `tx_json["payload"]`; only a missing key is turned into the message. -/
def payloadOf : Json → Except PyErr Json
  | .obj entries => match entries.lookup "payload" with
    | some payload => .ok payload
    | none => .error (.valueError "Invalid payload")
  | .arr _ => .error (.typeError "list indices must be integers or slices, not str")
  | .str _ => .error (.typeError "string indices must be integers, not 'str'")
  | _ => .error (.typeError "object is not subscriptable")

def decodeTransactionBytes (raw : Bytes) : Except PyErr (Json × String) := do
  let txHex ← decodeUtf8 raw
  let txDecodedBytes ← bytesFromHex txHex
  let txStr ← decodeUtf8 txDecodedBytes
  let txJson ← loads txStr.toList
  let canonicalTxStr ← canonicalJsonText txJson
  if txStr ≠ canonicalTxStr then .error (.valueError "Transaction bytes are not canonical")
  else return (txJson, ← canonicalJsonText (← payloadOf txJson))

def encodeTransactionBytes (txStr : String) : Bytes := encodeStr (bytesHex (encodeStr txStr))

/-! ### Bytes, texts and digits -/

theorem toList_toByteArray (b : ByteArray) : b.toList.toByteArray = b := by
  rw [ByteArray.toList_eq]
  apply ByteArray.ext
  apply Array.toList_inj.1
  exact List.toList_data_toByteArray

theorem decodeUtf8_eq_ok {b : Bytes} {s : String} : decodeUtf8 b = .ok s ↔ encodeStr s = b := by
  unfold decodeUtf8 String.fromUTF8?
  constructor
  · intro h
    split at h
    · rename_i t ht
      cases h
      split at ht
      · cases ht
        rw [encodeStr, ByteArray.toList_eq]
        exact List.toList_data_toByteArray
      · cases ht
    · cases h
  · rintro rfl
    have hbytes : (encodeStr s).toByteArray = s.toByteArray := toList_toByteArray s.toUTF8
    have hvalid : ((encodeStr s).toByteArray).IsValidUTF8 := hbytes ▸ s.isValidUTF8
    rw [dif_pos hvalid]
    have htext : String.fromUTF8 (encodeStr s).toByteArray hvalid = s := String.toByteArray_inj.1 hbytes
    rw [htext]

theorem encodeStr_ofList (l : List Char) : encodeStr (String.ofList l) = l.flatMap String.utf8EncodeChar := by
  show (String.ofList l).toByteArray.toList = _
  rw [String.toByteArray_ofList, ByteArray.toList_eq]
  exact List.toList_data_toByteArray

/-- The bytes of an ASCII text are its characters. -/
theorem encodeStr_ascii {l : List Char} (h : ∀ c ∈ l, c.toNat < 128) :
    encodeStr (String.ofList l) = l.map fun c => UInt8.ofNat c.toNat := by
  have hchar : ∀ c ∈ l, String.utf8EncodeChar c = [UInt8.ofNat c.toNat] := by
    intro c hc
    have hlt := h c hc
    have hsize : c.utf8Size = 1 := by
      rw [Char.utf8Size_eq_one_iff]
      exact UInt32.le_iff_toNat_le.2 (show c.toNat ≤ 127 by omega)
    rw [String.utf8EncodeChar_eq_singleton hsize]
    rfl
  rw [encodeStr_ofList]
  clear h
  induction l with
  | nil => rfl
  | cons c l ih =>
    rw [List.flatMap_cons, hchar c (List.mem_cons_self ..), ih fun d hd => hchar d (List.mem_cons_of_mem _ hd)]
    rfl

def isLowerHex (n : Nat) : Bool := 48 ≤ n ∧ n ≤ 57 ∨ 97 ≤ n ∧ n ≤ 102

/-- Only the digits `0` to `9` and `a` to `f`. -/
def LowerHex (raw : Bytes) : Prop := ∀ x ∈ raw, isLowerHex x.toNat = true

theorem lowerHex_encodeStr {s : String} : LowerHex (encodeStr s) ↔ ∀ c ∈ s.toList, isLowerHex c.toNat = true := by
  have hbound : ∀ n, isLowerHex n = true → n < 128 := by
    intro n hn
    have := of_decide_eq_true hn
    omega
  constructor
  · intro h
    have hnat : ∀ x ∈ encodeStr s, (Char.ofNat x.toNat).toNat = x.toNat := by
      intro x hx
      have hlt := hbound _ (h x hx)
      rw [Char.toNat_ofNat, if_pos (by left; omega)]
    have hascii : ∀ c ∈ (encodeStr s).map fun x => Char.ofNat x.toNat, c.toNat < 128 ∧ isLowerHex c.toNat = true := by
      intro c hc
      obtain ⟨x, hx, rfl⟩ := List.mem_map.1 hc
      have hlower := h x hx
      have hlt := hbound _ hlower
      rw [hnat x hx]
      exact ⟨hlt, hlower⟩
    have hsame : encodeStr (String.ofList ((encodeStr s).map fun x => Char.ofNat x.toNat)) = encodeStr s := by
      rw [encodeStr_ascii fun c hc => (hascii c hc).1, List.map_map]
      conv_rhs => rw [← List.map_id (encodeStr s)]
      refine List.map_congr_left fun x hx => ?_
      rw [Function.comp_apply, hnat x hx]
      exact UInt8.ofNat_toNat
    have hs := String.toUTF8_toList_injective hsame
    intro c hc
    rw [← hs, String.toList_ofList] at hc
    exact (hascii c hc).2
  · intro h x hx
    have hs : encodeStr s = s.toList.map fun c => UInt8.ofNat c.toNat := by
      have := encodeStr_ascii fun c hc => hbound _ (h c hc)
      rwa [String.ofList_toList] at this
    rw [hs] at hx
    obtain ⟨c, hc, rfl⟩ := List.mem_map.1 hx
    have hlt := hbound _ (h c hc)
    rw [UInt8.toNat_ofNat', Nat.mod_eq_of_lt (by omega)]
    exact h c hc

theorem hexDigit_isLowerHex : ∀ n < 16, isLowerHex (hexDigit n).toNat = true := by decide

theorem hexDigit_of_hexVal {c : Char} {n : Nat} (hc : isLowerHex c.toNat = true) (hn : hexVal c = some n) :
    hexDigit n = c ∧ n < 16 := by
  have hlower := of_decide_eq_true hc
  unfold hexVal at hn
  have hchar : ∀ m, m = c.toNat → Char.ofNat m = c := by
    rintro m rfl
    exact Char.ofNat_toNat c
  dsimp only at hn
  split_ifs at hn with hdigit hletter
  · obtain rfl := Option.some.inj hn
    refine ⟨?_, by omega⟩
    rw [hexDigit, if_pos (by omega)]
    exact hchar _ (by omega)
  · obtain rfl := Option.some.inj hn
    refine ⟨?_, by omega⟩
    rw [hexDigit, if_neg (by omega)]
    exact hchar _ (by omega)
  · omega

/-- Digits are the ones `hexlify` writes exactly when they are lower-case and there are no blanks. -/
theorem fromHexChars_lower {cs : List Char} {b : Bytes} (h : fromHexChars cs = some b) :
    (cs = b.flatMap fun x => hexDigits 2 x.toNat) ↔ ∀ c ∈ cs, isLowerHex c.toNat = true := by
  constructor
  · rintro rfl c hc
    obtain ⟨x, -, hx⟩ := List.mem_flatMap.1 hc
    have hdigits : hexDigits 2 x.toNat = [hexDigit (x.toNat / 16 ^ 1 % 16), hexDigit (x.toNat / 16 ^ 0 % 16)] := rfl
    rw [hdigits] at hx
    rcases List.mem_cons.1 hx with rfl | hx
    · exact hexDigit_isLowerHex _ (Nat.mod_lt _ (by decide))
    · rw [List.mem_singleton.1 hx]
      exact hexDigit_isLowerHex _ (Nat.mod_lt _ (by decide))
  · intro hlower
    induction cs using fromHexChars.induct generalizing b with
    | case1 =>
      cases h
      rfl
    | case2 c rest hspace _ =>
      have hc := of_decide_eq_true (hlower c (List.mem_cons_self ..))
      have hs := of_decide_eq_true hspace
      omega
    | case3 c hspace =>
      rw [fromHexChars, if_neg hspace] at h
      cases h
    | case4 c hspace d rest ih =>
      rw [fromHexChars, if_neg hspace] at h
      simp only [Option.bind_eq_bind, Option.bind_eq_some_iff, Option.pure_def, Option.some.injEq] at h
      obtain ⟨hi, hhi, lo, hlo, bytes, hbytes, rfl⟩ := h
      obtain ⟨hc, hhi⟩ := hexDigit_of_hexVal (hlower c (by simp)) hhi
      obtain ⟨hd, hlo⟩ := hexDigit_of_hexVal (hlower d (by simp)) hlo
      have hrest := ih hbytes fun c hc => hlower c (by simp [hc])
      have hbyte : (UInt8.ofNat (16 * hi + lo)).toNat = 16 * hi + lo := by
        rw [UInt8.toNat_ofNat', Nat.mod_eq_of_lt (by omega)]
      have hdigits : hexDigits 2 (16 * hi + lo) = [c, d] := by
        rw [← hc, ← hd]
        show [hexDigit ((16 * hi + lo) / 16 ^ 1 % 16), hexDigit ((16 * hi + lo) / 16 ^ 0 % 16)] = _
        rw [show (16 * hi + lo) / 16 ^ 1 % 16 = hi by omega, show (16 * hi + lo) / 16 ^ 0 % 16 = lo by omega]
      rw [List.flatMap_cons, hbyte, hdigits, ← hrest]
      rfl

/-! ### What is accepted -/

/-- What a successful decoding has checked. -/
theorem decodeTransactionBytes_eq_ok {raw : Bytes} {tx : Json} {payload : String} :
    decodeTransactionBytes raw = .ok (tx, payload) ↔ ∃ hex text value, encodeStr hex = raw ∧
      bytesFromHex hex = .ok (encodeStr text) ∧ loads text.toList = .ok tx ∧ canonicalJsonText tx = .ok text ∧
      payloadOf tx = .ok value ∧ canonicalJsonText value = .ok payload := by
  unfold decodeTransactionBytes
  simp only [bind_eq_ok, decodeUtf8_eq_ok]
  constructor
  · rintro ⟨hex, hraw, bytes, hhex, text, rfl, json, hload, canonical, hcanonical, h⟩
    split_ifs at h with hne
    obtain rfl := not_not.1 hne
    obtain ⟨value, hvalue, payload', hpayload, h⟩ := bind_eq_ok.1 h |>.imp fun _ h => h.imp_right bind_eq_ok.1
    cases h
    exact ⟨hex, text, value, hraw, hhex, hload, hcanonical, hvalue, hpayload⟩
  · rintro ⟨hex, text, value, hraw, hhex, hload, hcanonical, hvalue, hpayload⟩
    refine ⟨hex, hraw, encodeStr text, hhex, text, rfl, tx, hload, text, hcanonical, ?_⟩
    rw [if_neg (by simp), hvalue]
    show (canonicalJsonText value >>= _) = _
    rw [hpayload]
    rfl

theorem lowerHex_iff {hex : String} {b : Bytes} (h : bytesFromHex hex = .ok b) :
    encodeStr hex = encodeStr (bytesHex b) ↔ LowerHex (encodeStr hex) := by
  have hchars : fromHexChars hex.toList = some b := by
    unfold bytesFromHex at h
    split at h
    · rename_i hb
      cases h
      exact hb
    · cases h
  rw [lowerHex_encodeStr, ← fromHexChars_lower hchars]
  constructor
  · intro heq
    rw [String.toUTF8_toList_injective heq, bytesHex, String.toList_ofList]
  · intro heq
    rw [bytesHex, ← heq, String.ofList_toList]

/-- Bytes that decode are those written for the transaction exactly when they are lower-case digits only; no
two such byte strings decode to the same transaction. -/
theorem decode_canonical_iff {raw : Bytes} {tx : Json} {payload : String}
    (h : decodeTransactionBytes raw = .ok (tx, payload)) :
    (∃ value, payloadOf tx = .ok value ∧ canonicalJsonText value = .ok payload) ∧
    ∃ text, canonicalJsonText tx = .ok text ∧ (raw = encodeTransactionBytes text ↔ LowerHex raw) ∧
      ∀ raw' payload', decodeTransactionBytes raw' = .ok (tx, payload') → LowerHex raw' →
        raw' = encodeTransactionBytes text := by
  obtain ⟨hex, text, value, rfl, hhex, -, hcanonical, hvalue, hpayload⟩ := decodeTransactionBytes_eq_ok.1 h
  refine ⟨⟨value, hvalue, hpayload⟩, text, hcanonical, lowerHex_iff hhex, ?_⟩
  intro raw' payload' h' hlower
  obtain ⟨hex', text', -, rfl, hhex', -, hcanonical', -, -⟩ := decodeTransactionBytes_eq_ok.1 h'
  obtain rfl : text' = text := Except.ok.inj (hcanonical'.symm.trans hcanonical)
  exact (lowerHex_iff hhex').2 hlower

/-! ### One transaction, two spellings -/

def nonceText : String := "\x7b\"payload\":\x7b\"nonce\":0\x7d\x7d"

def nonceTx : Json := .obj [("payload", .obj [("nonce", .int 0)])]

theorem decode_nonceTx {hex : String} (h : bytesFromHex hex = .ok (encodeStr nonceText)) :
    decodeTransactionBytes (encodeStr hex) = .ok (nonceTx, "\x7b\"nonce\":0\x7d") :=
  decodeTransactionBytes_eq_ok.2 ⟨hex, nonceText, .obj [("nonce", .int 0)], rfl, h, by decide +kernel, by decide +kernel,
    rfl, by decide +kernel⟩

def lowerSpelling : String := "7b227061796c6f6164223a7b226e6f6e6365223a307d7d"

theorem decode_lowerSpelling : decodeTransactionBytes (encodeStr lowerSpelling) =
    .ok (nonceTx, "\x7b\"nonce\":0\x7d") :=
  decode_nonceTx (by decide +kernel)

def upperSpelling : String := "7B227061796C6F6164223A7B226E6F6E6365223A307D7D"

theorem decode_canonical_iff_lower : LowerHex (encodeStr lowerSpelling) ∧ ∃ text,
    canonicalJsonText nonceTx = .ok text ∧ encodeStr lowerSpelling = encodeTransactionBytes text := by
  have hlower : LowerHex (encodeStr lowerSpelling) := by
    have hall : (lowerSpelling.toList.all fun c => isLowerHex c.toNat) = true := by decide +kernel
    rw [lowerHex_encodeStr]
    exact List.all_eq_true.1 hall
  obtain ⟨-, text, htext, hiff, -⟩ := decode_canonical_iff decode_lowerSpelling
  exact ⟨hlower, text, htext, hiff.2 hlower⟩

/-- Upper-case digits decode to the transaction that the lower-case ones are written for. -/
theorem upper_case_decodes : encodeStr upperSpelling ≠ encodeStr lowerSpelling ∧
    decodeTransactionBytes (encodeStr upperSpelling) = decodeTransactionBytes (encodeStr lowerSpelling) ∧
    (∃ payload, decodeTransactionBytes (encodeStr upperSpelling) = .ok (nonceTx, payload)) ∧
    ∃ text, canonicalJsonText nonceTx = .ok text ∧ encodeStr upperSpelling ≠ encodeTransactionBytes text := by
  have hupper : decodeTransactionBytes (encodeStr upperSpelling) = .ok (nonceTx, _) := decode_nonceTx (by decide +kernel)
  have hlower := decode_lowerSpelling
  have hencoded : encodeTransactionBytes nonceText = encodeStr lowerSpelling := by decide +kernel
  have hne : encodeStr upperSpelling ≠ encodeStr lowerSpelling := by decide +kernel
  refine ⟨hne, hupper.trans hlower.symm, ⟨_, hupper⟩, nonceText, by decide +kernel, ?_⟩
  rw [hencoded]
  exact hne

end XianAbci
