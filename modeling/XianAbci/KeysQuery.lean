import XianAbci.Builtins
import XianAbci.StateRoot
import XianAbci.Lib.Paging
import XianAbci.Lib.PyDict

/-!
# Key pagination (`methods/query.py`)

The `keys` query lists the stored keys with a prefix page by page. A page shows each key without the prefix and a
delimiter, and the cursor to the next page is the last of these shortened items; the next query guesses the full key
back from it. The pages are the stored keys exactly when the guess has the same keys above it as the key it stands
for, at every page boundary (`keys_pagination_iff`); a prefix that ends inside a segment already breaks it
(`keys_pagination_repeats`).
-/

namespace XianAbci

/-- `str.isspace` of one character. -/
def pyIsSpace (c : Char) : Bool :=
  let n := c.toNat
  (9 ≤ n ∧ n ≤ 13) ∨ (28 ≤ n ∧ n ≤ 32) ∨ n = 0x85 ∨ n = 0xa0 ∨ n = 0x1680 ∨ (0x2000 ≤ n ∧ n ≤ 0x200a) ∨
    n = 0x2028 ∨ n = 0x2029 ∨ n = 0x202f ∨ n = 0x205f ∨ n = 0x3000

/-- `s.strip()`. -/
def pyStrip (s : String) : String :=
  String.ofList ((s.toList.dropWhile pyIsSpace).reverse.dropWhile pyIsSpace).reverse

def endsWithColon (s : String) : Bool := s.toList.getLast? = some ':'

def keysDelimiter (keyPrefix : String) : String := if endsWithColon keyPrefix then "" else ":"

/-- `_keys_query_after_key`. -/
def keysQueryAfterKey (keyPrefix : String) (after : Option String) : Option String :=
  match after with
  | none => none
  | some after =>
    let normalized := pyStrip after
    if normalized = "" then none
    else if startsWith normalized keyPrefix then some normalized
    else some (keyPrefix ++ keysDelimiter keyPrefix ++ normalized)

/-- `_keys_query_suffix`. -/
def keysQuerySuffix (keyPrefix fullKey : String) : String :=
  let prefixWithDelimiter := keyPrefix ++ keysDelimiter keyPrefix
  if startsWith fullKey prefixWithDelimiter then String.ofList (fullKey.toList.drop prefixWithDelimiter.length)
  else if startsWith fullKey keyPrefix then
    String.ofList ((fullKey.toList.drop keyPrefix.length).dropWhile (· = ':'))
  else fullKey

/-- `_bounded_int_param`. -/
def boundedIntParam (B : Builtins) (params : PyDict String String) (key : String) (default minimum : Int)
    (maximum : Option Int) : Int :=
  let value := match params.get? key with
    | none => default
    | some raw => match B.toInt (.str raw) with
      | .ok value => value
      | .error _ => default
  let value := max minimum value
  match maximum with
  | some maximum => min value maximum
  | none => value

/-- The stored keys with a prefix, in order. -/
def keysWithPrefix (stored : PyDict String Value) (keyPrefix : String) : List String :=
  (stored.keys.filter fun k => startsWith k keyPrefix).insertionSort (· ≤ ·)

/-- `scan_keys_from_disk` of the driver: the keys with the prefix above a key, up to the limit, and whether more
follow. -/
structure KeyScanner where
  scan : PyDict String Value → String → Nat → Option String → List String × Bool
  scan_eq : ∀ stored keyPrefix limit after,
    scan stored keyPrefix limit after =
      ((Paging.above (keysWithPrefix stored keyPrefix) after).take limit,
        decide (limit < (Paging.above (keysWithPrefix stored keyPrefix) after).length))

structure KeysResult where
  keyPrefix : String
  items : List String
  limit : Int
  after : Option String
  nextAfter : Option String
  hasMore : Bool

def keysQueryLimit (B : Builtins) (params : PyDict String String) : Int :=
  boundedIntParam B params "limit" 100 1 (some 200)

/-- `_resolve_keys_query`, with the full keys behind the items. -/
def keysPage (B : Builtins) (S : KeyScanner) (stored : PyDict String Value) (keyPrefix : String)
    (params : PyDict String String) : List String × KeysResult :=
  let limit := keysQueryLimit B params
  let after := params.get? "after"
  let fullAfterKey := keysQueryAfterKey keyPrefix after
  let scanned := S.scan stored keyPrefix limit.toNat fullAfterKey
  let items := scanned.1.map (keysQuerySuffix keyPrefix)
  (scanned.1,
    { keyPrefix, items, limit
      after := after.filter (· ≠ "")
      nextAfter := if scanned.2 then items.getLast? else none
      hasMore := scanned.2 })

def resolveKeysQuery (B : Builtins) (S : KeyScanner) (stored : PyDict String Value) (keyPrefix : String)
    (params : PyDict String String) : KeysResult := (keysPage B S stored keyPrefix params).2

/-! ### The client -/

/-- The parameters of the query for a page. -/
def pageParams (params : PyDict String String) : Option String → PyDict String String
  | none => params.erase "after"
  | some after => params.set "after" after

section Client

variable (B : Builtins) (S : KeyScanner) (stored : PyDict String Value) (keyPrefix : String)
  (params : PyDict String String)

/-- The client that repeats the query with the cursor of the page before until there is no more: the keys behind the
pages and the items on them. -/
inductive KeysListed : Option String → List String → List String → Prop
  | last {after : Option String}
      (h : (resolveKeysQuery B S stored keyPrefix (pageParams params after)).hasMore = false) :
      KeysListed after (keysPage B S stored keyPrefix (pageParams params after)).1
        (resolveKeysQuery B S stored keyPrefix (pageParams params after)).items
  | more {after : Option String} {cursor : String} {keys items : List String}
      (h : (resolveKeysQuery B S stored keyPrefix (pageParams params after)).hasMore = true)
      (hnext : (resolveKeysQuery B S stored keyPrefix (pageParams params after)).nextAfter = some cursor)
      (hrest : KeysListed (some cursor) keys items) :
      KeysListed after ((keysPage B S stored keyPrefix (pageParams params after)).1 ++ keys)
        ((resolveKeysQuery B S stored keyPrefix (pageParams params after)).items ++ items)

end Client

/-- The key that the last item of a page is taken for: the text after the prefix and one colon, without white space
around it, with prefix and colon in front of it again unless it begins with the prefix. -/
def rebuiltKey (keyPrefix key : String) : Option String :=
  let rest := key.toList.drop keyPrefix.length
  let tail := if endsWithColon keyPrefix ∨ rest.head? ≠ some ':' then rest else rest.tail
  let text := pyStrip (String.ofList tail)
  if text = "" then none
  else if startsWith text keyPrefix then some text
  else some (keyPrefix ++ (if endsWithColon keyPrefix then "" else ":") ++ text)

variable {B : Builtins} {S : KeyScanner} {stored : PyDict String Value} {keyPrefix key : String}
  {params : PyDict String String} {after : Option String} {keys items : List String}

/-! ### Cursors -/

theorem keysQuerySuffix_eq (h : startsWith key keyPrefix = true) :
    keysQuerySuffix keyPrefix key = String.ofList
      (let rest := key.toList.drop keyPrefix.length
       if endsWithColon keyPrefix ∨ rest.head? ≠ some ':' then rest else rest.tail) := by
  obtain ⟨rest, hrest⟩ := List.isPrefixOf_iff_prefix.1 h
  have hdrop : key.toList.drop keyPrefix.length = rest := by
    rw [← hrest, ← String.length_toList, List.drop_left]
  unfold keysQuerySuffix keysDelimiter
  dsimp only
  rw [hdrop]
  by_cases hcolon : endsWithColon keyPrefix = true
  · rw [if_pos hcolon, String.append_empty, if_pos h, hdrop, if_pos (.inl hcolon)]
  rw [if_neg hcolon]
  have hstarts : startsWith key (keyPrefix ++ ":") = true ↔ rest.head? = some ':' := by
    rw [startsWith, List.isPrefixOf_iff_prefix, String.toList_append, ← hrest, List.prefix_append_right_inj]
    cases rest with
    | nil => simp
    | cons c rest => simp [eq_comm]
  by_cases hhead : rest.head? = some ':'
  · rw [if_pos (hstarts.2 hhead), if_neg (by simp [hcolon, hhead]), String.length_append, ← List.drop_drop, hdrop]
    exact congrArg String.ofList List.drop_one
  · rw [if_neg (fun hs => hhead (hstarts.1 hs)), if_pos h, if_pos (.inr hhead)]
    congr 1
    cases rest with
    | nil => rfl
    | cons c rest =>
      rw [List.dropWhile_cons_of_neg]
      simpa using hhead

/-- The cursor of a page leads to the rebuilt key. -/
theorem keysQueryAfterKey_suffix (h : startsWith key keyPrefix = true) :
    keysQueryAfterKey keyPrefix (some (keysQuerySuffix keyPrefix key)) = rebuiltKey keyPrefix key := by
  rw [keysQuerySuffix_eq h]
  rfl

/-! ### Pages -/

theorem pairwise_keysWithPrefix : (keysWithPrefix stored keyPrefix).Pairwise (· < ·) := by
  have hsorted : (keysWithPrefix stored keyPrefix).Pairwise (· ≤ ·) := List.pairwise_insertionSort _ _
  have hnodup : (keysWithPrefix stored keyPrefix).Nodup :=
    (List.perm_insertionSort _ _).nodup_iff.2 (stored.nodup.filter _)
  exact hsorted.imp₂ (fun a b hle hne => lt_of_le_of_ne hle hne) hnodup

theorem mem_keysWithPrefix : key ∈ keysWithPrefix stored keyPrefix ↔ key ∈ stored.keys ∧ startsWith key keyPrefix := by
  rw [keysWithPrefix, List.mem_insertionSort, List.mem_filter]

theorem keysQueryLimit_pos : 0 < (keysQueryLimit B params).toNat := by
  have hpos : 1 ≤ keysQueryLimit B params := by
    unfold keysQueryLimit boundedIntParam
    exact le_min (le_max_left _ _) (by decide)
  omega

theorem keysQueryLimit_of_int {raw : String} {i : Int} (h : params.get? "limit" = some raw)
    (hi : B.toInt (.str raw) = .ok i) : keysQueryLimit B params = min (max 1 i) 200 := by
  unfold keysQueryLimit boundedIntParam
  rw [h]
  dsimp only
  rw [hi]

theorem keysQueryLimit_congr {params' : PyDict String String} (h : params'.get? "limit" = params.get? "limit") :
    keysQueryLimit B params' = keysQueryLimit B params := by
  unfold keysQueryLimit boundedIntParam
  rw [h]

@[simp] theorem get?_pageParams_after : (pageParams params after).get? "after" = after := by
  cases after with
  | none => rw [pageParams, PyDict.get?_erase, if_pos rfl]
  | some a => rw [pageParams, PyDict.get?_set, if_pos rfl]

theorem get?_pageParams_limit : (pageParams params after).get? "limit" = params.get? "limit" := by
  cases after with
  | none => rw [pageParams, PyDict.get?_erase, if_neg (by decide)]
  | some a => rw [pageParams, PyDict.get?_set, if_neg (by decide)]

/-- One page: the keys above the cursor up to the limit, and the last of the items as the next cursor. -/
theorem keysPage_eq :
    let above := Paging.above (keysWithPrefix stored keyPrefix) (keysQueryAfterKey keyPrefix after)
    let limit := (keysQueryLimit B params).toNat
    let page := keysPage B S stored keyPrefix (pageParams params after)
    page.1 = above.take limit ∧ page.2.items = (above.take limit).map (keysQuerySuffix keyPrefix) ∧
      page.2.hasMore = decide (limit < above.length) ∧
      page.2.nextAfter = if limit < above.length then
        ((above.take limit).getLast?).map (keysQuerySuffix keyPrefix) else none := by
  intro above limit page
  have hpage : page = keysPage B S stored keyPrefix (pageParams params after) := rfl
  simp only [keysPage, get?_pageParams_after, keysQueryLimit_congr get?_pageParams_limit, S.scan_eq] at hpage
  rw [hpage]
  refine ⟨rfl, rfl, rfl, ?_⟩
  show (if decide (limit < above.length) = true then ((above.take limit).map _).getLast? else none) = _
  rw [List.getLast?_map]
  simp only [decide_eq_true_eq]

/-- The client's run is the reading of the sorted keys by rebuilt cursors. -/
theorem paged_of_keysListed (h : KeysListed B S stored keyPrefix params after keys items) :
    Paging.Paged (keysWithPrefix stored keyPrefix) (keysQueryLimit B params).toNat (rebuiltKey keyPrefix)
      (keysQueryAfterKey keyPrefix after) keys ∧ items = keys.map (keysQuerySuffix keyPrefix) := by
  induction h with
  | @last after hlast =>
    obtain ⟨hkeys, hitems, hmore, -⟩ : _ ∧ _ ∧ _ ∧ _ := keysPage_eq
    rw [resolveKeysQuery, hmore, decide_eq_false_iff_not, not_lt] at hlast
    rw [resolveKeysQuery, hkeys, hitems, List.take_of_length_le hlast]
    exact ⟨.last hlast, rfl⟩
  | @more after cursor keys items hmore hnext _ ih =>
    obtain ⟨hkeys, hitems, hlong, hcursor⟩ : _ ∧ _ ∧ _ ∧ _ := keysPage_eq
    rw [resolveKeysQuery, hlong, decide_eq_true_eq] at hmore
    rw [resolveKeysQuery, hcursor, if_pos hmore, Option.map_eq_some_iff] at hnext
    obtain ⟨k, hk, rfl⟩ := hnext
    have hmem : k ∈ keysWithPrefix stored keyPrefix :=
      (Paging.above_suffix pairwise_keysWithPrefix).subset (List.mem_of_mem_take (List.mem_of_getLast? hk))
    rw [keysQueryAfterKey_suffix (mem_keysWithPrefix.1 hmem).2] at ih
    rw [resolveKeysQuery, hkeys, hitems, ih.2, List.map_append]
    exact ⟨.more hmore hk ih.1, rfl⟩

theorem keysListed_of_paged {cursor : Option String}
    (h : Paging.Paged (keysWithPrefix stored keyPrefix) (keysQueryLimit B params).toNat (rebuiltKey keyPrefix)
      cursor keys) (hcursor : keysQueryAfterKey keyPrefix after = cursor) :
    KeysListed B S stored keyPrefix params after keys (keys.map (keysQuerySuffix keyPrefix)) := by
  induction h generalizing after with
  | last hshort =>
    subst hcursor
    obtain ⟨hkeys, hitems, hmore, -⟩ : _ ∧ _ ∧ _ ∧ _ := keysPage_eq
    have hlast := KeysListed.last (hmore.trans (decide_eq_false hshort.not_gt))
    rw [resolveKeysQuery, hkeys, hitems, List.take_of_length_le hshort] at hlast
    exact hlast
  | @more cursor k rest hlong hk _ ih =>
    subst hcursor
    obtain ⟨hkeys, hitems, hmore, hnext⟩ : _ ∧ _ ∧ _ ∧ _ := keysPage_eq
    have hmem : k ∈ keysWithPrefix stored keyPrefix :=
      (Paging.above_suffix pairwise_keysWithPrefix).subset (List.mem_of_mem_take (List.mem_of_getLast? hk))
    have hrest := ih (keysQueryAfterKey_suffix (mem_keysWithPrefix.1 hmem).2)
    rw [if_pos hlong, hk] at hnext
    have hlisted := KeysListed.more (hmore.trans (decide_eq_true hlong)) hnext hrest
    rw [resolveKeysQuery, hkeys, hitems, ← List.map_append] at hlisted
    exact hlisted

/-- The repeated query lists one item for each stored key with the prefix, in order, exactly when at every page
boundary the rebuilt key has the same stored keys above it as the key itself. -/
theorem keys_pagination_iff (B : Builtins) (S : KeyScanner) (stored : PyDict String Value) (keyPrefix : String)
    (params : PyDict String String) :
    let keys := keysWithPrefix stored keyPrefix
    let limit := (keysQueryLimit B params).toNat
    KeysListed B S stored keyPrefix params none keys (keys.map (keysQuerySuffix keyPrefix)) ↔
      ∀ i k, limit * (i + 1) < keys.length → keys[limit * (i + 1) - 1]? = some k →
        ∃ c, rebuiltKey keyPrefix k = some c ∧ ∀ x ∈ keys, c < x ↔ k < x := by
  intro keys limit
  rw [← Paging.paged_iff keysQueryLimit_pos pairwise_keysWithPrefix]
  exact ⟨fun h => (paged_of_keysListed h).1, fun h => keysListed_of_paged h rfl⟩

/-- Scanning as the driver does it. -/
def KeyScanner.sorted : KeyScanner where
  scan stored keyPrefix limit after :=
    let above := Paging.above (keysWithPrefix stored keyPrefix) after
    (above.take limit, decide (limit < above.length))
  scan_eq _ _ _ _ := rfl

/-- A prefix that ends inside a segment: the second query starts again with the first key. -/
theorem keys_pagination_repeats :
    ¬ KeysListed .plain .sorted (.ofList [("currency.balances:a", .int 1), ("currency.balances:b", .int 2)]) "curr"
      (.ofList [("limit", "1")]) none ["currency.balances:a", "currency.balances:b"]
      ["ency.balances:a", "ency.balances:b"] := by
  intro h
  have hkeys : keysWithPrefix (.ofList [("currency.balances:a", .int 1), ("currency.balances:b", .int 2)]) "curr" =
      ["currency.balances:a", "currency.balances:b"] := by decide
  have hone : "1".toInt? = some 1 := Int.toInt?_repr 1
  have hint : Builtins.plain.toInt (.str "1") = .ok 1 := by simp only [Builtins.plain, hone]
  have hlimit : keysQueryLimit .plain (.ofList [("limit", "1")]) = 1 := keysQueryLimit_of_int rfl hint
  have hpaged := (paged_of_keysListed h).1
  rw [keysQueryAfterKey, hlimit, hkeys] at hpaged
  rw [show (1 : Int).toNat = 1 from rfl, Paging.paged_iff one_pos (by decide)] at hpaged
  obtain ⟨c, hc, hsame⟩ := hpaged 0 "currency.balances:a" (by decide) rfl
  have hrebuilt : rebuiltKey "curr" "currency.balances:a" = some "curr:ency.balances:a" := by decide
  rw [hrebuilt] at hc
  cases hc
  exact absurd ((hsame "currency.balances:a" (by decide)).1 (by decide)) (by decide)

end XianAbci
