import XianAbci.TransactionBytes

/-!
# Every transaction can be sent

A transaction within the limits of the canonical form has a text, and its bytes decode to it again, with the
entries of its objects in the order of their keys. The canonical form of a document within the limits is the
document sorted (`canonicalJsonValue_of_codable`), which is sorted already, within the limits too, and read
back from its text. Conversely a decoded transaction is within the limits and sorted (`decoded_sorted`).
-/

namespace XianAbci

mutual
/-- No float, integers of 64 bits, no key twice, and at most `n` levels below the value. -/
def Json.codable : Nat → Json → Bool
  | n, .obj entries => (entries.map Prod.fst).Nodup && codableEntries n entries
  | n, .arr items => codableItems n items
  | _, .int i => minCanonicalJsonInteger ≤ i && i ≤ maxCanonicalJsonInteger
  | _, .float _ => false
  | _, .null => true
  | _, .bool _ => true
  | _, .str _ => true

def Json.codableItems : Nat → List Json → Bool
  | _, [] => true
  | 0, _ :: _ => false
  | n + 1, v :: rest => v.codable n && codableItems (n + 1) rest

def Json.codableEntries : Nat → List (String × Json) → Bool
  | _, [] => true
  | 0, _ :: _ => false
  | n + 1, (_, v) :: rest => v.codable n && codableEntries (n + 1) rest
end

/-- The same values, with the entries of objects in any order. -/
inductive Json.SameMaps : Json → Json → Prop
  | refl (j : Json) : SameMaps j j
  | arr {l m : List Json} : List.Forall₂ SameMaps l m → SameMaps (.arr l) (.arr m)
  | obj {l l' m : List (String × Json)} : l.map Prod.fst = l'.map Prod.fst →
      List.Forall₂ SameMaps (l.map Prod.snd) (l'.map Prod.snd) → l'.Perm m → SameMaps (.obj l) (.obj m)

/-! ### The sorted document -/

mutual
def Json.sorted : Json → Json
  | .obj entries => .obj (sortEntries (sortedEntries entries))
  | .arr items => .arr (sortedItems items)
  | .null => .null
  | .bool b => .bool b
  | .int i => .int i
  | .float repr => .float repr
  | .str s => .str s

def Json.sortedItems : List Json → List Json
  | [] => []
  | v :: rest => v.sorted :: sortedItems rest

def Json.sortedEntries : List (String × Json) → List (String × Json)
  | [] => []
  | (k, v) :: rest => (k, v.sorted) :: sortedEntries rest
end

theorem map_fst_sortedEntries (l : List (String × Json)) : (Json.sortedEntries l).map Prod.fst = l.map Prod.fst := by
  induction l with
  | nil => simp [Json.sortedEntries]
  | cons p rest ih => simp [Json.sortedEntries, ih]

theorem checkDepth_ok {depth : Nat} (h : depth ≤ maxCanonicalJsonDepth) : checkDepth depth = .ok () :=
  if_neg (by omega)

mutual
theorem canonicalJsonValue_of_codable : ∀ (j : Json) (n depth : Nat), j.codable n = true →
    depth + n ≤ maxCanonicalJsonDepth → canonicalJsonValue depth j = .ok j.sorted
  | .obj entries, n, depth, h, hdepth => by
    rw [Json.codable, Bool.and_eq_true] at h
    rw [canonicalJsonValue, checkDepth_ok (by omega), canonicalJsonEntries_of_codable entries n depth h.2 hdepth]
    rfl
  | .arr items, n, depth, h, hdepth => by
    rw [Json.codable] at h
    rw [canonicalJsonValue, checkDepth_ok (by omega), canonicalJsonItems_of_codable items n depth h hdepth]
    rfl
  | .int i, n, depth, h, hdepth => by
    rw [Json.codable, Bool.and_eq_true, decide_eq_true_eq, decide_eq_true_eq] at h
    rw [canonicalJsonValue, checkDepth_ok (by omega), if_pos h]
    rfl
  | .float _, _, _, h, _ => by cases h
  | .null, n, depth, _, hdepth | .bool _, n, depth, _, hdepth | .str _, n, depth, _, hdepth => by
    rw [canonicalJsonValue, checkDepth_ok (by omega)]
    rfl

theorem canonicalJsonItems_of_codable : ∀ (l : List Json) (n depth : Nat), Json.codableItems n l = true →
    depth + n ≤ maxCanonicalJsonDepth → canonicalJsonItems (depth + 1) l = .ok (Json.sortedItems l)
  | [], _, _, _, _ => rfl
  | _ :: _, 0, _, h, _ => by cases h
  | v :: rest, n + 1, depth, h, hdepth => by
    rw [Json.codableItems, Bool.and_eq_true] at h
    rw [canonicalJsonItems, canonicalJsonValue_of_codable v n (depth + 1) h.1 (by omega),
      canonicalJsonItems_of_codable rest (n + 1) depth h.2 hdepth]
    rfl

theorem canonicalJsonEntries_of_codable : ∀ (l : List (String × Json)) (n depth : Nat),
    Json.codableEntries n l = true → depth + n ≤ maxCanonicalJsonDepth →
    canonicalJsonEntries (depth + 1) l = .ok (Json.sortedEntries l)
  | [], _, _, _, _ => rfl
  | _ :: _, 0, _, h, _ => by cases h
  | (k, v) :: rest, n + 1, depth, h, hdepth => by
    rw [Json.codableEntries, Bool.and_eq_true] at h
    rw [canonicalJsonEntries, canonicalJsonValue_of_codable v n (depth + 1) h.1 (by omega),
      canonicalJsonEntries_of_codable rest (n + 1) depth h.2 hdepth]
    rfl
end

theorem codableEntries_iff {n : Nat} {l : List (String × Json)} :
    Json.codableEntries n l = true ↔ ∀ p ∈ l, ∃ m, n = m + 1 ∧ p.2.codable m = true := by
  induction l with
  | nil => simp [Json.codableEntries]
  | cons p rest ih =>
    obtain ⟨k, v⟩ := p
    rcases n with _ | n
    · refine ⟨fun h => absurd h (by simp [Json.codableEntries]), fun h => ?_⟩
      obtain ⟨m, hm, -⟩ := h (k, v) (List.mem_cons_self ..)
      omega
    · rw [Json.codableEntries, Bool.and_eq_true, ih, List.forall_mem_cons]
      simp

mutual
/-- The sorted document is within the limits and sorted. -/
theorem codable_sorted : ∀ (j : Json) (n : Nat), j.codable n = true → j.sorted.codable n = true
  | .obj entries, n, h => by
    rw [Json.codable, Bool.and_eq_true] at h
    have hperm := sortEntries_perm (Json.sortedEntries entries)
    have hkeys : ((sortEntries (Json.sortedEntries entries)).map Prod.fst).Nodup := by
      rw [(hperm.map Prod.fst).nodup_iff, map_fst_sortedEntries]
      exact of_decide_eq_true h.1
    have hentries := codableEntries_sorted entries n h.2
    rw [Json.sorted, Json.codable, Bool.and_eq_true, decide_eq_true_eq]
    refine ⟨hkeys, codableEntries_iff.2 fun p hp => codableEntries_iff.1 hentries p (hperm.mem_iff.1 hp)⟩
  | .arr items, n, h => by
    rw [Json.codable] at h
    rw [Json.sorted, Json.codable]
    exact codableItems_sorted items n h
  | .int _, _, h => h
  | .float _, _, h => h
  | .null, _, h | .bool _, _, h | .str _, _, h => h

theorem codableItems_sorted : ∀ (l : List Json) (n : Nat), Json.codableItems n l = true →
    Json.codableItems n (Json.sortedItems l) = true
  | [], _, h => h
  | _ :: _, 0, h => by cases h
  | v :: rest, n + 1, h => by
    rw [Json.codableItems, Bool.and_eq_true] at h
    rw [Json.sortedItems, Json.codableItems, Bool.and_eq_true]
    exact ⟨codable_sorted v n h.1, codableItems_sorted rest (n + 1) h.2⟩

theorem codableEntries_sorted : ∀ (l : List (String × Json)) (n : Nat), Json.codableEntries n l = true →
    Json.codableEntries n (Json.sortedEntries l) = true
  | [], _, h => h
  | _ :: _, 0, h => by cases h
  | (k, v) :: rest, n + 1, h => by
    rw [Json.codableEntries, Bool.and_eq_true] at h
    rw [Json.sortedEntries, Json.codableEntries, Bool.and_eq_true]
    exact ⟨codable_sorted v n h.1, codableEntries_sorted rest (n + 1) h.2⟩
end

theorem sortedEntries_eq_self {l : List (String × Json)} (h : ∀ p ∈ l, p.2.sorted = p.2) :
    Json.sortedEntries l = l := by
  induction l with
  | nil => rfl
  | cons p rest ih =>
    obtain ⟨k, v⟩ := p
    rw [Json.sortedEntries, h (k, v) (List.mem_cons_self ..), ih fun q hq => h q (List.mem_cons_of_mem _ hq)]

mutual
theorem sorted_sorted : ∀ j : Json, j.sorted.sorted = j.sorted
  | .obj entries => by
    have hfixed : Json.sortedEntries (sortEntries (Json.sortedEntries entries)) =
        sortEntries (Json.sortedEntries entries) :=
      sortedEntries_eq_self fun p hp => sorted_of_mem_sortedEntries entries p ((sortEntries_perm _).mem_iff.1 hp)
    rw [Json.sorted, Json.sorted, hfixed, (keysSorted_sortEntries _).sortEntries]
  | .arr items => by rw [Json.sorted, Json.sorted, sortedItems_sorted items]
  | .int _ | .float _ | .null | .bool _ | .str _ => rfl

theorem sortedItems_sorted : ∀ l : List Json, Json.sortedItems (Json.sortedItems l) = Json.sortedItems l
  | [] => rfl
  | v :: rest => by rw [Json.sortedItems, Json.sortedItems, sorted_sorted v, sortedItems_sorted rest]

theorem sorted_of_mem_sortedEntries : ∀ l : List (String × Json), ∀ p ∈ Json.sortedEntries l, p.2.sorted = p.2
  | [], p, hp => by cases hp
  | (k, v) :: rest, p, hp => by
    rw [Json.sortedEntries] at hp
    rcases List.mem_cons.1 hp with rfl | hp
    · exact sorted_sorted v
    · exact sorted_of_mem_sortedEntries rest p hp
end

mutual
theorem readable_of_codable : ∀ (j : Json) (n : Nat), j.codable n = true → j.readable = true
  | .obj entries, n, h => by
    rw [Json.codable, Bool.and_eq_true] at h
    rw [Json.readable, Bool.and_eq_true]
    exact ⟨h.1, readableEntries_of_codable entries n h.2⟩
  | .arr items, n, h => by
    rw [Json.codable] at h
    rw [Json.readable]
    exact readableItems_of_codable items n h
  | .float _, _, h => by cases h
  | .int _, _, _ | .null, _, _ | .bool _, _, _ | .str _, _, _ => by rw [Json.readable] <;> simp

theorem readableItems_of_codable : ∀ (l : List Json) (n : Nat), Json.codableItems n l = true →
    Json.readableItems l = true
  | [], _, _ => rfl
  | _ :: _, 0, h => by cases h
  | v :: rest, n + 1, h => by
    rw [Json.codableItems, Bool.and_eq_true] at h
    rw [Json.readableItems, Bool.and_eq_true]
    exact ⟨readable_of_codable v n h.1, readableItems_of_codable rest (n + 1) h.2⟩

theorem readableEntries_of_codable : ∀ (l : List (String × Json)) (n : Nat), Json.codableEntries n l = true →
    Json.readableEntries l = true
  | [], _, _ => rfl
  | _ :: _, 0, h => by cases h
  | (k, v) :: rest, n + 1, h => by
    rw [Json.codableEntries, Bool.and_eq_true] at h
    rw [Json.readableEntries, Bool.and_eq_true]
    exact ⟨readable_of_codable v n h.1, readableEntries_of_codable rest (n + 1) h.2⟩
end

mutual
theorem sameMaps_sorted : ∀ j : Json, j.SameMaps j.sorted
  | .obj entries => .obj (map_fst_sortedEntries entries).symm (sameMaps_sortedEntries entries) (sortEntries_perm _).symm
  | .arr items => .arr (sameMaps_sortedItems items)
  | .int _ | .float _ | .null | .bool _ | .str _ => .refl _

theorem sameMaps_sortedItems : ∀ l : List Json, List.Forall₂ Json.SameMaps l (Json.sortedItems l)
  | [] => .nil
  | v :: rest => .cons (sameMaps_sorted v) (sameMaps_sortedItems rest)

theorem sameMaps_sortedEntries : ∀ l : List (String × Json),
    List.Forall₂ Json.SameMaps (l.map Prod.snd) ((Json.sortedEntries l).map Prod.snd)
  | [] => .nil
  | (_, v) :: rest => .cons (sameMaps_sorted v) (sameMaps_sortedEntries rest)
end

/-! ### The round trip -/

theorem unescapes_escapeUnicode : Unescapes escapeUnicode := by
  intro c rest
  unfold escapeUnicode
  split_ifs with hquote hback hn hr ht hf hb hcontrol
  · rw [hquote]; exact scanString_short (by decide) rest
  · rw [hback]; exact scanString_short (by decide) rest
  · rw [hn]; exact scanString_short (by decide) rest
  · rw [hr]; exact scanString_short (by decide) rest
  · rw [ht]; exact scanString_short (by decide) rest
  · rw [show c = Char.ofNat 12 by rw [← hf, Char.ofNat_toNat]]
    exact scanString_short (by decide) rest
  · rw [show c = Char.ofNat 8 by rw [← hb, Char.ofNat_toNat]]
    exact scanString_short (by decide) rest
  · exact scanString_unit (by omega) rest
  · exact scanString_plain hback hquote (by omega) rest

/-- The text of a document within the limits, which is also the text of the sorted document. -/
theorem canonicalJsonText_of_codable {j : Json} {n : Nat} (h : j.codable n = true) (hn : n ≤ maxCanonicalJsonDepth) :
    canonicalJsonText j = .ok (String.ofList (dumpsWith escapeUnicode j.sorted)) ∧
    canonicalJsonText j.sorted = .ok (String.ofList (dumpsWith escapeUnicode j.sorted)) ∧
    loads (dumpsWith escapeUnicode j.sorted) = .ok j.sorted := by
  have hsorted := codable_sorted j n h
  refine ⟨?_, ?_, loads_dumpsWith unescapes_escapeUnicode (readable_of_codable _ n hsorted)⟩
  · rw [canonicalJsonText, canonicalJsonValue_of_codable j n 0 h (by omega)]
    rfl
  · rw [canonicalJsonText, canonicalJsonValue_of_codable _ n 0 hsorted (by omega), sorted_sorted]
    rfl

theorem mem_sortedEntries {l : List (String × Json)} {k : String} {v : Json} (h : (k, v) ∈ l) :
    (k, v.sorted) ∈ Json.sortedEntries l := by
  induction l with
  | nil => cases h
  | cons p rest ih =>
    obtain ⟨a, w⟩ := p
    rw [Json.sortedEntries]
    rcases List.mem_cons.1 h with heq | h
    · cases heq
      exact List.mem_cons_self ..
    · exact List.mem_cons_of_mem _ (ih h)

/-- Every transaction within the limits of the canonical form is decoded from the bytes written for it. -/
theorem codec_complete {entries : List (String × Json)} {payload : Json}
    (h : (Json.obj entries).codable maxCanonicalJsonDepth = true) (hpayload : entries.lookup "payload" = some payload) :
    ∃ text payloadText tx, canonicalJsonText (.obj entries) = .ok text ∧
      canonicalJsonText payload = .ok payloadText ∧
      decodeTransactionBytes (encodeTransactionBytes text) = .ok (tx, payloadText) ∧
      Json.SameMaps (.obj entries) tx := by
  obtain ⟨htext, htext', hloads⟩ := canonicalJsonText_of_codable h le_rfl
  rw [Json.codable, Bool.and_eq_true, decide_eq_true_eq] at h
  -- the payload is an entry of the transaction, one level down
  have hmem : ("payload", payload) ∈ entries := PyDict.mem_items_iff (d := ⟨entries, h.1⟩).2 hpayload
  obtain ⟨m, hm, hcodable⟩ := codableEntries_iff.1 h.2 _ hmem
  obtain ⟨hpayloadText, hpayloadText', -⟩ := canonicalJsonText_of_codable hcodable (by omega)
  have hkeys : ((sortEntries (Json.sortedEntries entries)).map Prod.fst).Nodup := by
    rw [((sortEntries_perm _).map Prod.fst).nodup_iff, map_fst_sortedEntries]
    exact h.1
  have hsorted : ("payload", payload.sorted) ∈ sortEntries (Json.sortedEntries entries) :=
    (sortEntries_perm _).mem_iff.2 (mem_sortedEntries hmem)
  have hlookup : (sortEntries (Json.sortedEntries entries)).lookup "payload" = some payload.sorted :=
    PyDict.mem_items_iff (d := ⟨_, hkeys⟩).1 hsorted
  have hvalue : payloadOf (Json.obj entries).sorted = .ok payload.sorted := by
    rw [Json.sorted, payloadOf, hlookup]
  refine ⟨_, _, (Json.obj entries).sorted, htext, hpayloadText, ?_, sameMaps_sorted _⟩
  refine decodeTransactionBytes_eq_ok.2 ⟨_, _, payload.sorted, rfl, bytesFromHex_bytesHex _, ?_, htext', hvalue,
    hpayloadText'⟩
  rw [String.toList_ofList]
  exact hloads

def transferTx : List (String × Json) :=
  [("payload", .obj [("nonce", .int 18446744073709551615), ("kwargs", .obj [("memo", .str "\n☃\\")])]),
    ("metadata", .obj [])]

theorem transferTx_codable : (Json.obj transferTx).codable maxCanonicalJsonDepth = true := by decide +kernel

theorem codec_complete_transfer : ∃ text payloadText tx, canonicalJsonText (.obj transferTx) = .ok text ∧
    decodeTransactionBytes (encodeTransactionBytes text) = .ok (tx, payloadText) ∧
    Json.SameMaps (.obj transferTx) tx := by
  obtain ⟨text, payloadText, tx, htext, -, hdecode, hsame⟩ := codec_complete transferTx_codable rfl
  exact ⟨text, payloadText, tx, htext, hdecode, hsame⟩

/-! ### What is decoded -/

/-- No object of the document has a key twice. -/
inductive Json.KeysDistinct : Json → Prop
  | null : KeysDistinct .null
  | bool (b : Bool) : KeysDistinct (.bool b)
  | int (i : Int) : KeysDistinct (.int i)
  | float (repr : String) : KeysDistinct (.float repr)
  | str (s : String) : KeysDistinct (.str s)
  | arr {items : List Json} : (∀ v ∈ items, KeysDistinct v) → KeysDistinct (.arr items)
  | obj {entries : List (String × Json)} : (entries.map Prod.fst).Nodup → (∀ p ∈ entries, KeysDistinct p.2) →
      KeysDistinct (.obj entries)

theorem keysDistinct_numberOf (sign whole fraction exponent : List Char) :
    (numberOf sign whole fraction exponent).KeysDistinct := by
  unfold numberOf
  split
  · exact .int _
  · exact .float _

theorem keysDistinct_scanNumber {s rest : List Char} {j : Json} (h : scanNumber s = some (j, rest)) :
    j.KeysDistinct := by
  have hnumber : ∀ sign s, scanUnsigned sign s = some (j, rest) → j.KeysDistinct := by
    intro sign s h
    unfold scanUnsigned at h
    split at h
    · cases h
    · cases h
      exact keysDistinct_numberOf ..
  unfold scanNumber at h
  split at h
  · exact hnumber _ _ h
  · exact hnumber _ _ h

theorem mem_setItems {k : String} {v : Json} {l : List (String × Json)} {p : String × Json}
    (h : p ∈ PyDict.setItems k v l) : p = (k, v) ∨ p ∈ l := by
  induction l with
  | nil => exact .inl (List.mem_singleton.1 h)
  | cons q rest ih =>
    unfold PyDict.setItems at h
    split at h
    · rcases List.mem_cons.1 h with rfl | h
      · exact .inl rfl
      · exact .inr (List.mem_cons_of_mem _ h)
    · rcases List.mem_cons.1 h with rfl | h
      · exact .inr (List.mem_cons_self ..)
      · exact (ih h).imp_right (List.mem_cons_of_mem _)

theorem mem_of_mem_update {l : List (String × Json)} {d : PyDict String Json} {p : String × Json}
    (h : p ∈ (d.update l).items) : p ∈ d.items ∨ p ∈ l := by
  induction l generalizing d with
  | nil => exact .inl h
  | cons q rest ih =>
    rcases ih h with h | h
    · rcases mem_setItems h with rfl | h
      · exact .inr (List.mem_cons_self ..)
      · exact .inl h
    · exact .inr (List.mem_cons_of_mem _ h)

/-- The scanner makes a dictionary of the entries of an object, so what it reads has no key twice. -/
theorem keysDistinct_scan : ∀ fuel : Nat,
    (∀ s j rest, scanValue fuel s = some (j, rest) → j.KeysDistinct) ∧
    (∀ s l rest, scanItems fuel s = some (l, rest) → ∀ v ∈ l, v.KeysDistinct) ∧
    (∀ s l rest, scanEntries fuel s = some (l, rest) → ∀ p ∈ l, p.2.KeysDistinct)
  | 0 => by
    refine ⟨fun s j rest h => ?_, fun s l rest h => ?_, fun s l rest h => ?_⟩
    · simp [scanValue] at h
    · simp [scanItems] at h
    · simp [scanEntries] at h
  | fuel + 1 => by
    obtain ⟨ihValue, ihItems, ihEntries⟩ := keysDistinct_scan fuel
    refine ⟨fun s j rest h => ?_, fun s l rest h => ?_, fun s l rest h => ?_⟩
    · unfold scanValue at h
      split at h
      · contradiction
      · cases h; exact .null
      · cases h; exact .bool _
      · cases h; exact .bool _
      · cases h; exact .float _
      · cases h; exact .float _
      · cases h; exact .float _
      · obtain ⟨p, -, hp⟩ := Option.map_eq_some_iff.1 h
        cases hp
        exact .str _
      · rename_i hfuel
        cases hfuel
        split at h
        · cases h
          exact .arr fun v hv => absurd hv List.not_mem_nil
        · obtain ⟨p, hscan, hp⟩ := Option.map_eq_some_iff.1 h
          cases hp
          exact .arr (ihItems _ _ _ hscan)
      · rename_i hfuel
        cases hfuel
        split at h
        · cases h
          exact .obj List.nodup_nil fun v hv => absurd hv List.not_mem_nil
        · obtain ⟨p, hscan, hp⟩ := Option.map_eq_some_iff.1 h
          cases hp
          refine .obj (PyDict.nodup _) fun q hq => ?_
          rcases mem_of_mem_update hq with hq | hq
          · cases hq
          · exact ihEntries _ _ _ hscan q hq
      · exact keysDistinct_scanNumber h
    · rw [scanItems] at h
      obtain ⟨⟨v, s'⟩, hv, h⟩ := Option.bind_eq_some_iff.1 h
      have hvalue := ihValue _ _ _ hv
      dsimp only at h
      split at h
      · obtain ⟨p, hscan, hp⟩ := Option.map_eq_some_iff.1 h
        cases hp
        exact List.forall_mem_cons.2 ⟨hvalue, ihItems _ _ _ hscan⟩
      · cases h
        exact List.forall_mem_singleton.2 hvalue
      · cases h
    · unfold scanEntries at h
      split at h
      · contradiction
      · rename_i hfuel
        cases hfuel
        obtain ⟨⟨key, s'⟩, -, h⟩ := Option.bind_eq_some_iff.1 h
        dsimp only at h
        split at h
        · obtain ⟨⟨v, s''⟩, hv, h⟩ := Option.bind_eq_some_iff.1 h
          have hvalue := ihValue _ _ _ hv
          dsimp only at h
          split at h
          · obtain ⟨p, hscan, hp⟩ := Option.map_eq_some_iff.1 h
            cases hp
            exact List.forall_mem_cons.2 ⟨hvalue, ihEntries _ _ _ hscan⟩
          · cases h
            exact List.forall_mem_singleton.2 hvalue
          · cases h
        · cases h
      · cases h

theorem keysDistinct_loads {text : List Char} {j : Json} (h : loads text = .ok j) : j.KeysDistinct := by
  unfold loads at h
  split at h
  · cases h
  · rename_i j' rest hscan
    split at h
    · cases h
      exact (keysDistinct_scan _).1 _ _ _ hscan
    · cases h

theorem canonicalJsonItems_mem {depth : Nat} {l l' : List Json} (h : canonicalJsonItems depth l = .ok l') :
    ∀ v ∈ l, ∃ c, canonicalJsonValue depth v = .ok c := by
  induction l generalizing l' with
  | nil => intro v hv; cases hv
  | cons v rest ih =>
    rw [canonicalJsonItems] at h
    obtain ⟨c, hc, h⟩ := bind_eq_ok.1 h
    obtain ⟨rest', hrest, -⟩ := bind_eq_ok.1 h
    exact List.forall_mem_cons.2 ⟨⟨c, hc⟩, ih hrest⟩

theorem canonicalJsonEntries_mem {depth : Nat} {l l' : List (String × Json)}
    (h : canonicalJsonEntries depth l = .ok l') : ∀ p ∈ l, ∃ c, canonicalJsonValue depth p.2 = .ok c := by
  induction l generalizing l' with
  | nil => intro v hv; cases hv
  | cons p rest ih =>
    obtain ⟨k, v⟩ := p
    rw [canonicalJsonEntries] at h
    obtain ⟨c, hc, h⟩ := bind_eq_ok.1 h
    obtain ⟨rest', hrest, -⟩ := bind_eq_ok.1 h
    exact List.forall_mem_cons.2 ⟨⟨c, hc⟩, ih hrest⟩

theorem codableItems_iff {n : Nat} {l : List Json} :
    Json.codableItems n l = true ↔ ∀ v ∈ l, ∃ m, n = m + 1 ∧ v.codable m = true := by
  induction l with
  | nil => simp [Json.codableItems]
  | cons v rest ih =>
    rcases n with _ | n
    · refine ⟨fun h => absurd h (by simp [Json.codableItems]), fun h => ?_⟩
      obtain ⟨m, hm, -⟩ := h v (List.mem_cons_self ..)
      omega
    · rw [Json.codableItems, Bool.and_eq_true, ih, List.forall_mem_cons]
      simp

theorem checkDepth_eq_ok {depth : Nat} {u : Unit} (h : checkDepth depth = .ok u) : depth ≤ maxCanonicalJsonDepth := by
  unfold checkDepth at h
  split at h
  · cases h
  · omega

/-- A document with a canonical form is within the limits. -/
theorem codable_of_canonical {j : Json} (hdistinct : j.KeysDistinct) : ∀ {depth : Nat} {c : Json},
    canonicalJsonValue depth j = .ok c →
    depth ≤ maxCanonicalJsonDepth ∧ j.codable (maxCanonicalJsonDepth - depth) = true := by
  -- a level down, one level less is left
  have hlevel : ∀ {v : Json} {depth : Nat}, depth + 1 ≤ maxCanonicalJsonDepth ∧
      v.codable (maxCanonicalJsonDepth - (depth + 1)) = true →
      ∃ m, maxCanonicalJsonDepth - depth = m + 1 ∧ v.codable m = true := by
    rintro v depth ⟨hdepth, hv⟩
    exact ⟨maxCanonicalJsonDepth - (depth + 1), by omega, hv⟩
  induction hdistinct with
  | arr _ ih =>
    intro depth c h
    rw [canonicalJsonValue] at h
    obtain ⟨u, hu, h⟩ := bind_eq_ok.1 h
    obtain ⟨l, hl, -⟩ := bind_eq_ok.1 h
    refine ⟨checkDepth_eq_ok hu, ?_⟩
    rw [Json.codable, codableItems_iff]
    intro v hv
    obtain ⟨c, hc⟩ := canonicalJsonItems_mem hl v hv
    exact hlevel (ih v hv hc)
  | obj hkeys _ ih =>
    intro depth c h
    rw [canonicalJsonValue] at h
    obtain ⟨u, hu, h⟩ := bind_eq_ok.1 h
    obtain ⟨l, hl, -⟩ := bind_eq_ok.1 h
    refine ⟨checkDepth_eq_ok hu, ?_⟩
    rw [Json.codable, Bool.and_eq_true, decide_eq_true_eq, codableEntries_iff]
    refine ⟨hkeys, fun p hp => ?_⟩
    obtain ⟨c, hc⟩ := canonicalJsonEntries_mem hl p hp
    exact hlevel (ih p hp hc)
  | int i =>
    intro depth c h
    rw [canonicalJsonValue] at h
    obtain ⟨u, hu, h⟩ := bind_eq_ok.1 h
    refine ⟨checkDepth_eq_ok hu, ?_⟩
    split at h
    · rename_i hrange
      simpa [Json.codable] using hrange
    · cases h
  | float _ =>
    intro depth c h
    rw [canonicalJsonValue] at h
    obtain ⟨u, hu, h⟩ := bind_eq_ok.1 h
    cases h
  | null | bool _ | str _ =>
    intro depth c h
    rw [canonicalJsonValue] at h
    obtain ⟨u, hu, h⟩ := bind_eq_ok.1 h
    exact ⟨checkDepth_eq_ok hu, rfl⟩

/-- A decoded transaction is within the limits, its entries are in order, and the text beside it is the one of
its payload. -/
theorem decoded_sorted {raw : Bytes} {tx : Json} {payloadText : String}
    (h : decodeTransactionBytes raw = .ok (tx, payloadText)) : tx.codable maxCanonicalJsonDepth = true ∧
    tx.sorted = tx ∧ ∃ payload, payloadOf tx = .ok payload ∧ canonicalJsonText payload = .ok payloadText := by
  obtain ⟨hex, text, payload, -, -, hload, hcanonical, hpayload, htext⟩ := decodeTransactionBytes_eq_ok.1 h
  have hcodable : tx.codable maxCanonicalJsonDepth = true := by
    have hcanonical := hcanonical
    rw [canonicalJsonText] at hcanonical
    obtain ⟨c, hc, -⟩ := bind_eq_ok.1 hcanonical
    exact (codable_of_canonical (keysDistinct_loads hload) hc).2
  obtain ⟨hwritten, -, hread⟩ := canonicalJsonText_of_codable hcodable le_rfl
  obtain rfl := Except.ok.inj (hwritten.symm.trans hcanonical)
  rw [String.toList_ofList] at hload
  exact ⟨hcodable, Except.ok.inj (hread.symm.trans hload), payload, hpayload, htext⟩

end XianAbci
