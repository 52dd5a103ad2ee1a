import XianAbci.Builtins
import XianAbci.Lib.PyDict

/-!
# Runtime values and the storage codec

A stored value is written as JSON, where a decimal, a time, a big integer, bytes or a set is an object
with a type marker (`__fixed__` and the like), and reading it back turns every such object, at any
depth, into the runtime value. The codec belongs to `xian_runtime_types`; here `typed` is what it makes
of an object (nothing, where the object carries no marker), and `Codec` says what is relied on.

A JSON value survives storage, as far as the state root can tell, exactly when each of its marked
objects already normalises as its runtime value does (`normalize_runtimeValue_iff`).
-/

namespace XianAbci

section Conversion

variable (typed : List (String × Value) → Option Value)

mutual
/-- `decode(encode(v))`. -/
def runtimeValue : Value → Value
  | .dict entries => match typed entries with
    | some v => v
    | none => .dict (runtimeEntries entries)
  | .list items => .list (runtimeItems items)
  | .tuple items => .list (runtimeItems items)
  | v => v

def runtimeItems : List Value → List Value
  | [] => []
  | v :: rest => runtimeValue v :: runtimeItems rest

def runtimeEntries : List (String × Value) → List (String × Value)
  | [] => []
  | (k, v) :: rest => (k, runtimeValue v) :: runtimeEntries rest
end

theorem map_fst_runtimeEntries (entries : List (String × Value)) :
    (runtimeEntries typed entries).map Prod.fst = entries.map Prod.fst := by
  induction entries with
  | nil => simp [runtimeEntries]
  | cons p rest ih => obtain ⟨k, v⟩ := p; simp [runtimeEntries, ih]

end Conversion

/-- The codec: `typed` reads a marked object off its keys and yields a value that is stored as itself,
and `convert_dict` turns every marked object of a dict, however deep, into its runtime value. -/
structure Codec where
  typed : List (String × Value) → Option Value
  convertDict : List (String × Value) → Value
  typed_keys : ∀ e e', e.map Prod.fst = e'.map Prod.fst → ((typed e).isSome ↔ (typed e').isSome)
  typed_fixed : ∀ e v, typed e = some v → runtimeValue typed v = v
  convertDict_eq : ∀ e, convertDict e = runtimeValue typed (.dict e)

mutual
/-- The values a JSON document holds. -/
def isJson : Value → Bool
  | .dict entries => isJsonEntries entries
  | .list items => isJsonItems items
  | .none => true
  | .bool _ => true
  | .int _ => true
  | .float _ => true
  | .str _ => true
  | _ => false

def isJsonItems : List Value → Bool
  | [] => true
  | v :: rest => isJson v && isJsonItems rest

def isJsonEntries : List (String × Value) → Bool
  | [] => true
  | (_, v) :: rest => isJson v && isJsonEntries rest
end

theorem isJsonItems_iff {items : List Value} : isJsonItems items = true ↔ ∀ v ∈ items, isJson v = true := by
  induction items with
  | nil => simp [isJsonItems]
  | cons v rest ih => simp [isJsonItems, ih]

theorem isJson_lookup {entries : List (String × Value)} {k : String} {v : Value}
    (h : isJsonEntries entries = true) (hv : entries.lookup k = some v) : isJson v = true := by
  induction entries with
  | nil => cases hv
  | cons p rest ih =>
    obtain ⟨a, w⟩ := p
    rw [isJsonEntries, Bool.and_eq_true] at h
    rw [PyDict.lookup_cons_ite] at hv
    split at hv
    · cases hv; exact h.1
    · exact ih h.2 hv

theorem isJson_index {v w : Value} {k : String} (h : isJson v = true) (hw : v.index k = .ok w) :
    isJson w = true := by
  unfold Value.index at hw
  split at hw
  · split at hw
    · rename_i hl
      cases hw
      rw [isJson] at h
      exact isJson_lookup h hl
    · cases hw
  · cases hw

theorem isJson_get {v w : Value} {k : String} (h : isJson v = true) (hw : v.get k (.list []) = .ok w) :
    isJson w = true := by
  unfold Value.get at hw
  split at hw
  · cases hw
    rename_i entries
    rw [isJson] at h
    cases hl : entries.lookup k with
    | none => rfl
    | some u => exact isJson_lookup h hl
  · cases hw

theorem isJson_iter {v : Value} {items : List Value} (h : isJson v = true) (hi : v.iter = .ok items) :
    ∀ w ∈ items, isJson w = true := by
  unfold Value.iter at hi
  split at hi
  · cases hi
    rw [isJson] at h
    exact isJsonItems_iff.1 h
  · simp [isJson] at h
  · cases hi
    intro w hw
    obtain ⟨p, -, rfl⟩ := List.mem_map.1 hw
    rfl
  · cases hi
    intro w hw
    obtain ⟨c, -, rfl⟩ := List.mem_map.1 hw
    rfl
  · simp [isJson] at h
  · cases hi

section Genesis

variable (C : Codec)

mutual
/-- `_convert_runtime_value` of `utils/block.py`. -/
def convertRuntimeValue : Value → Value
  | .dict entries => C.convertDict entries
  | .list items => .list (convertRuntimeItems items)
  | v => v

def convertRuntimeItems : List Value → List Value
  | [] => []
  | v :: rest => convertRuntimeValue v :: convertRuntimeItems rest
end

variable {C}

mutual
theorem convertRuntimeValue_eq : ∀ v, isJson v = true → convertRuntimeValue C v = runtimeValue C.typed v
  | .dict entries, _ => by rw [convertRuntimeValue, C.convertDict_eq]
  | .list items, h => by
    rw [isJson] at h
    rw [convertRuntimeValue, runtimeValue, convertRuntimeItems_eq items h]
  | .none, _ | .bool _, _ | .int _, _ | .float _, _ | .str _, _ => by simp [convertRuntimeValue, runtimeValue]
  | .decimal _, h | .pyDecimal _ _, h | .bytes _, h | .datetime _, h | .pyDatetime _, h | .set _, h
  | .exception _, h | .object _, h | .tuple _, h => by simp [isJson] at h

theorem convertRuntimeItems_eq : ∀ l, isJsonItems l = true → convertRuntimeItems C l = runtimeItems C.typed l
  | [], _ => by rw [convertRuntimeItems, runtimeItems]
  | v :: rest, h => by
    rw [isJsonItems, Bool.and_eq_true] at h
    rw [convertRuntimeItems, runtimeItems, convertRuntimeValue_eq v h.1, convertRuntimeItems_eq rest h.2]
end

mutual
/-- What was read back once is read back as itself. -/
theorem runtimeValue_idem : ∀ v, runtimeValue C.typed (runtimeValue C.typed v) = runtimeValue C.typed v
  | .dict entries => by
    rw [runtimeValue]
    cases h : C.typed entries with
    | some v => exact C.typed_fixed entries v h
    | none =>
      have hnone : C.typed (runtimeEntries C.typed entries) = none := by
        have := (C.typed_keys _ entries (map_fst_runtimeEntries C.typed entries)).not
        rw [h] at this
        simpa using this
      dsimp only
      rw [runtimeValue, hnone, runtimeEntries_idem entries]
  | .list items => by rw [runtimeValue, runtimeValue, runtimeItems_idem items]
  | .tuple items => by rw [runtimeValue, runtimeValue, runtimeItems_idem items]
  | .none | .bool _ | .int _ | .float _ | .str _ | .decimal _ | .pyDecimal _ _ | .bytes _ | .datetime _
  | .pyDatetime _ | .set _ | .exception _ | .object _ => by simp [runtimeValue]

theorem runtimeItems_idem : ∀ l, runtimeItems C.typed (runtimeItems C.typed l) = runtimeItems C.typed l
  | [] => by simp [runtimeItems]
  | v :: rest => by rw [runtimeItems, runtimeItems, runtimeValue_idem v, runtimeItems_idem rest]

theorem runtimeEntries_idem : ∀ l, runtimeEntries C.typed (runtimeEntries C.typed l) = runtimeEntries C.typed l
  | [] => by simp [runtimeEntries]
  | (k, v) :: rest => by rw [runtimeEntries, runtimeEntries, runtimeValue_idem v, runtimeEntries_idem rest]
end

end Genesis

/-! ### What the root can tell -/

section Settled

variable (typed : List (String × Value) → Option Value)

mutual
/-- Every marked object of the value normalises as its runtime value does. -/
def Settled : Value → Prop
  | .dict entries => match typed entries with
    | some v => normalizeForAbciJson v = normalizeForAbciJson (.dict entries)
    | none => SettledEntries entries
  | .list items => SettledItems items
  | _ => True

def SettledItems : List Value → Prop
  | [] => True
  | v :: rest => Settled v ∧ SettledItems rest

def SettledEntries : List (String × Value) → Prop
  | [] => True
  | (_, v) :: rest => Settled v ∧ SettledEntries rest
end

mutual
/-- A JSON value is encoded without an exception. -/
theorem normalize_json : ∀ v, isJson v = true → ∃ j, normalizeForAbciJson v = .ok j
  | .dict entries, h => by
    rw [isJson] at h
    obtain ⟨j, hj⟩ := normalizeEntries_json entries h
    exact ⟨.obj j, by rw [normalizeForAbciJson, hj]; rfl⟩
  | .list items, h => by
    rw [isJson] at h
    obtain ⟨j, hj⟩ := normalizeItems_json items h
    exact ⟨.arr j, by rw [normalizeForAbciJson, hj]; rfl⟩
  | .none, _ | .bool _, _ | .int _, _ | .float _, _ | .str _, _ => by
    rw [normalizeForAbciJson]; exact ⟨_, rfl⟩
  | .decimal _, h | .pyDecimal _ _, h | .bytes _, h | .datetime _, h | .pyDatetime _, h | .set _, h
  | .exception _, h | .object _, h | .tuple _, h => by simp [isJson] at h

theorem normalizeItems_json : ∀ l, isJsonItems l = true → ∃ j, normalizeItems l = .ok j
  | [], _ => ⟨[], by rw [normalizeItems]⟩
  | v :: rest, h => by
    rw [isJsonItems, Bool.and_eq_true] at h
    obtain ⟨a, ha⟩ := normalize_json v h.1
    obtain ⟨b, hb⟩ := normalizeItems_json rest h.2
    exact ⟨a :: b, by rw [normalizeItems, ha, hb]; rfl⟩

theorem normalizeEntries_json : ∀ l, isJsonEntries l = true → ∃ j, normalizeEntries l = .ok j
  | [], _ => ⟨[], by rw [normalizeEntries]⟩
  | (k, v) :: rest, h => by
    rw [isJsonEntries, Bool.and_eq_true] at h
    obtain ⟨a, ha⟩ := normalize_json v h.1
    obtain ⟨b, hb⟩ := normalizeEntries_json rest h.2
    exact ⟨insertEntry k a b, by rw [normalizeEntries, ha, hb]; rfl⟩
end

theorem map_fst_insertEntry {β γ : Type} (k : String) (a : β) (b : γ) (l : List (String × β)) (l' : List (String × γ))
    (h : l.map Prod.fst = l'.map Prod.fst) :
    (insertEntry k a l).map Prod.fst = (insertEntry k b l').map Prod.fst := by
  induction l generalizing l' with
  | nil => cases l' with
    | nil => rfl
    | cons p l' => cases h
  | cons p l ih => cases l' with
    | nil => cases h
    | cons p' l' =>
      simp only [List.map_cons, List.cons.injEq] at h
      obtain ⟨k₁, v₁⟩ := p
      obtain ⟨k₂, v₂⟩ := p'
      obtain rfl : k₁ = k₂ := h.1
      unfold insertEntry
      split
      · simp [h.2]
      · simp [ih l' h.2]

/-- Sorting by key loses nothing, where the keys are the same. -/
theorem insertEntry_inj {β : Type} {k : String} {a b : β} {l l' : List (String × β)}
    (hkeys : l.map Prod.fst = l'.map Prod.fst) (h : insertEntry k a l = insertEntry k b l') : a = b ∧ l = l' := by
  induction l generalizing l' with
  | nil => cases l' with
    | nil => simpa [insertEntry] using h
    | cons p l' => cases hkeys
  | cons p l ih => cases l' with
    | nil => cases hkeys
    | cons p' l' =>
      simp only [List.map_cons, List.cons.injEq] at hkeys
      obtain ⟨k₁, v₁⟩ := p
      obtain ⟨k₂, v₂⟩ := p'
      obtain rfl : k₁ = k₂ := hkeys.1
      unfold insertEntry at h
      split at h
      · simp only [List.cons.injEq, Prod.mk.injEq, true_and] at h
        exact ⟨h.1, by rw [h.2.1, h.2.2]⟩
      · simp only [List.cons.injEq, Prod.mk.injEq, true_and] at h
        obtain ⟨hab, hl⟩ := ih hkeys.2 h.2
        exact ⟨hab, by rw [h.1, hl]⟩

theorem map_fst_normalizeEntries : ∀ (l l' : List (String × Value)) (j j' : List (String × Json)),
    l.map Prod.fst = l'.map Prod.fst → normalizeEntries l = .ok j → normalizeEntries l' = .ok j' →
      j.map Prod.fst = j'.map Prod.fst
  | [], [], j, j', _, hj, hj' => by rw [hj] at hj'; cases hj'; rfl
  | [], _ :: _, _, _, h, _, _ => by cases h
  | _ :: _, [], _, _, h, _, _ => by cases h
  | (k, v) :: l, (k', v') :: l', j, j', h, hj, hj' => by
    simp only [List.map_cons, List.cons.injEq] at h
    obtain rfl : k = k' := h.1
    rw [normalizeEntries] at hj hj'
    obtain ⟨a, -, hj⟩ := bind_eq_ok.1 hj
    obtain ⟨b, hb, hj⟩ := bind_eq_ok.1 hj
    obtain ⟨a', -, hj'⟩ := bind_eq_ok.1 hj'
    obtain ⟨b', hb', hj'⟩ := bind_eq_ok.1 hj'
    cases hj
    cases hj'
    exact map_fst_insertEntry k a a' b b' (map_fst_normalizeEntries l l' b b' h.2 hb hb')

mutual
/-- A JSON value has after storage the normal form it had before exactly when it is settled. -/
theorem normalize_runtimeValue_iff : ∀ v, isJson v = true →
    (normalizeForAbciJson (runtimeValue typed v) = normalizeForAbciJson v ↔ Settled typed v)
  | .dict entries, h => by
    rw [isJson] at h
    rw [runtimeValue, Settled]
    cases ht : typed entries with
    | some v => exact Iff.rfl
    | none =>
      obtain ⟨j, hj⟩ := normalizeEntries_json entries h
      dsimp only
      rw [normalizeForAbciJson, normalizeForAbciJson, ← normalizeEntries_runtimeEntries_iff entries h, hj]
      cases normalizeEntries (runtimeEntries typed entries) with
      | error e => simp [Except.map]
      | ok j' => simp [Except.map]
  | .list items, h => by
    rw [isJson] at h
    obtain ⟨j, hj⟩ := normalizeItems_json items h
    rw [runtimeValue, Settled, normalizeForAbciJson, normalizeForAbciJson,
      ← normalizeItems_runtimeItems_iff items h, hj]
    cases normalizeItems (runtimeItems typed items) with
    | error e => simp [Except.map]
    | ok j' => simp [Except.map]
  | .none, _ | .bool _, _ | .int _, _ | .float _, _ | .str _, _ => by simp [runtimeValue, Settled]
  | .decimal _, h | .pyDecimal _ _, h | .bytes _, h | .datetime _, h | .pyDatetime _, h | .set _, h
  | .exception _, h | .object _, h | .tuple _, h => by simp [isJson] at h

theorem normalizeItems_runtimeItems_iff : ∀ l, isJsonItems l = true →
    (normalizeItems (runtimeItems typed l) = normalizeItems l ↔ SettledItems typed l)
  | [], _ => by simp [runtimeItems, SettledItems]
  | v :: rest, h => by
    rw [isJsonItems, Bool.and_eq_true] at h
    obtain ⟨a, ha⟩ := normalize_json v h.1
    obtain ⟨b, hb⟩ := normalizeItems_json rest h.2
    rw [runtimeItems, SettledItems, ← normalize_runtimeValue_iff v h.1, ← normalizeItems_runtimeItems_iff rest h.2,
      normalizeItems, normalizeItems, ha, hb]
    constructor
    · intro heq
      obtain ⟨a', ha', heq⟩ := bind_eq_ok.1 heq
      obtain ⟨b', hb', heq⟩ := bind_eq_ok.1 heq
      cases heq
      exact ⟨ha', hb'⟩
    · rintro ⟨h₁, h₂⟩
      rw [h₁, h₂]

theorem normalizeEntries_runtimeEntries_iff : ∀ l, isJsonEntries l = true →
    (normalizeEntries (runtimeEntries typed l) = normalizeEntries l ↔ SettledEntries typed l)
  | [], _ => by simp [runtimeEntries, SettledEntries]
  | (k, v) :: rest, h => by
    rw [isJsonEntries, Bool.and_eq_true] at h
    obtain ⟨a, ha⟩ := normalize_json v h.1
    obtain ⟨b, hb⟩ := normalizeEntries_json rest h.2
    rw [runtimeEntries, SettledEntries, ← normalize_runtimeValue_iff v h.1,
      ← normalizeEntries_runtimeEntries_iff rest h.2, normalizeEntries, normalizeEntries, ha, hb]
    constructor
    · intro heq
      obtain ⟨a', ha', heq⟩ := bind_eq_ok.1 heq
      obtain ⟨b', hb', heq⟩ := bind_eq_ok.1 heq
      have hkeys := map_fst_normalizeEntries _ _ b' b (map_fst_runtimeEntries typed rest) hb' hb
      obtain ⟨rfl, rfl⟩ := insertEntry_inj hkeys (Except.ok.inj heq)
      exact ⟨ha', hb'⟩
    · rintro ⟨h₁, h₂⟩
      rw [h₁, h₂]
end

end Settled

end XianAbci
