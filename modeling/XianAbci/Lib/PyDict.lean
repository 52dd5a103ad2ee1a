import Mathlib

/-!
# Insertion-ordered dictionaries

`PyDict α β` is a Python `dict`: its items in insertion order, no key twice. Assignment to a key
that is present keeps the key's place, assignment to a new key appends, `pop` removes. The order is
part of the value (two dicts with the same bindings may be different `PyDict`s), so statements
about bindings are stated through `get?`.
-/

/-- A Python `dict`: the items in insertion order, with no key twice. -/
structure PyDict (α β : Type) where
  items : List (α × β)
  nodup : (items.map Prod.fst).Nodup

namespace PyDict

variable {α β γ : Type}

@[ext] theorem ext_items {d e : PyDict α β} (h : d.items = e.items) : d = e := by
  cases d; cases e; cases h; rfl

instance [DecidableEq α] [DecidableEq β] : DecidableEq (PyDict α β) := fun d e =>
  decidable_of_iff (d.items = e.items) ⟨ext_items, fun h => h ▸ rfl⟩

def empty : PyDict α β := ⟨[], by simp⟩

instance : Inhabited (PyDict α β) := ⟨empty⟩

def keys (d : PyDict α β) : List α := d.items.map Prod.fst

def values (d : PyDict α β) : List β := d.items.map Prod.snd

def isEmpty (d : PyDict α β) : Bool := d.items.isEmpty

def mapValues (f : β → γ) (d : PyDict α β) : PyDict α γ :=
  ⟨d.items.map fun p => (p.1, f p.2), by simpa [Function.comp_def] using d.nodup⟩

variable [DecidableEq α]

theorem lookup_cons_ite (k a : α) (b : β) (l : List (α × β)) :
    ((a, b) :: l).lookup k = if k = a then some b else l.lookup k := by
  rw [List.lookup_cons]
  by_cases h : k = a
  · simp [h]
  · simp [h, beq_eq_false_iff_ne.2 h]

theorem lookup_eq_none {k : α} {l : List (α × β)} (h : k ∉ l.map Prod.fst) : l.lookup k = none := by
  rw [List.lookup_eq_none_iff]
  intro q hq
  simpa using fun h' => h (List.mem_map.2 ⟨q, hq, h'.symm⟩)

/-- `d.get(k)`, with `none` for an absent key. -/
def get? (d : PyDict α β) (k : α) : Option β := d.items.lookup k

/-- `k in d`. -/
def contains (d : PyDict α β) (k : α) : Bool := (d.get? k).isSome

def setItems (k : α) (v : β) : List (α × β) → List (α × β)
  | [] => [(k, v)]
  | (k', v') :: rest => if k' = k then (k, v) :: rest else (k', v') :: setItems k v rest

theorem map_fst_setItems (k : α) (v : β) (l : List (α × β)) :
    (setItems k v l).map Prod.fst = if k ∈ l.map Prod.fst then l.map Prod.fst else l.map Prod.fst ++ [k] := by
  induction l with
  | nil => simp [setItems]
  | cons p rest ih =>
    obtain ⟨k', v'⟩ := p
    unfold setItems
    by_cases h : k' = k
    · simp [h]
    · simp only [h, ↓reduceIte, List.map_cons, ih, List.mem_cons, Ne.symm h, false_or]
      split <;> simp

/-- `d[k] = v`. -/
def set (d : PyDict α β) (k : α) (v : β) : PyDict α β where
  items := setItems k v d.items
  nodup := by
    rw [map_fst_setItems]
    split
    · exact d.nodup
    · rename_i h
      exact List.nodup_append.2 ⟨d.nodup, by simp, fun a ha b hb => by
        rw [List.mem_singleton.1 hb]; exact fun hab => h (hab ▸ ha)⟩

/-- `d.pop(k, None)`. -/
def erase (d : PyDict α β) (k : α) : PyDict α β where
  items := d.items.filter fun p => p.1 ≠ k
  nodup := (List.filter_sublist.map Prod.fst).nodup d.nodup

/-- The items that pass a test. -/
def filter (p : α → β → Bool) (d : PyDict α β) : PyDict α β where
  items := d.items.filter fun e => p e.1 e.2
  nodup := (List.filter_sublist.map Prod.fst).nodup d.nodup

omit [DecidableEq α] in
theorem length_filter_le (p : α → β → Bool) (d : PyDict α β) : (d.filter p).items.length ≤ d.items.length :=
  List.length_filter_le _ _

/-- `d.update(items)`: the items are assigned in order, so a later one wins. -/
def update (d : PyDict α β) (l : List (α × β)) : PyDict α β := l.foldl (fun d p => d.set p.1 p.2) d

/-- `dict(items)`. -/
def ofList (l : List (α × β)) : PyDict α β := empty.update l

section Lookup

variable {d : PyDict α β} {k k' : α} {v : β}

theorem mem_items_iff : (k, v) ∈ d.items ↔ d.get? k = some v := by
  obtain ⟨l, hl⟩ := d
  simp only [get?]
  induction l with
  | nil => simp
  | cons p rest ih =>
    obtain ⟨k', v'⟩ := p
    simp only [List.map_cons, List.nodup_cons] at hl
    rw [lookup_cons_ite]
    by_cases h : k = k'
    · subst h
      simp only [List.mem_cons, Prod.mk.injEq, true_and, ↓reduceIte, Option.some.injEq]
      constructor
      · rintro (rfl | hmem)
        · rfl
        · exact absurd (List.mem_map_of_mem (f := Prod.fst) hmem) hl.1
      · exact fun h => .inl h.symm
    · simpa [h] using ih hl.2

theorem mem_keys_iff : k ∈ d.keys ↔ ∃ v, d.get? k = some v := by
  constructor
  · intro h
    obtain ⟨p, hp, rfl⟩ := List.mem_map.1 h
    exact ⟨p.2, mem_items_iff.1 hp⟩
  · rintro ⟨v, hv⟩
    exact List.mem_map.2 ⟨(k, v), mem_items_iff.2 hv, rfl⟩

theorem contains_iff : d.contains k = true ↔ k ∈ d.keys := by
  rw [contains, Option.isSome_iff_exists, mem_keys_iff]

theorem get?_eq_none_iff : d.get? k = none ↔ k ∉ d.keys := by
  rw [mem_keys_iff, Option.eq_none_iff_forall_ne_some, not_exists]

@[simp] theorem get?_empty : (empty : PyDict α β).get? k = none := rfl

@[simp] theorem get?_set : (d.set k v).get? k' = if k' = k then some v else d.get? k' := by
  obtain ⟨l, hl⟩ := d
  show (setItems k v l).lookup k' = if k' = k then some v else l.lookup k'
  clear hl
  induction l with
  | nil => exact lookup_cons_ite k' k v []
  | cons p rest ih =>
    obtain ⟨a, b⟩ := p
    unfold setItems
    by_cases ha : a = k
    · subst ha
      by_cases hk : k' = a <;> simp [lookup_cons_ite, hk]
    · simp only [ha, ↓reduceIte, lookup_cons_ite, ih]
      by_cases hk : k' = a
      · subst hk; simp [ha]
      · simp [hk]

@[simp] theorem get?_erase : (d.erase k).get? k' = if k' = k then none else d.get? k' := by
  by_cases h : k' = k
  · rw [if_pos h, get?_eq_none_iff]
    simp [keys, erase, h]
  · rw [if_neg h]
    refine Option.ext fun w => ?_
    rw [← mem_items_iff, ← mem_items_iff]
    simp [erase, h]

@[simp] theorem get?_filter (p : α → β → Bool) : (d.filter p).get? k = (d.get? k).filter (p k) := by
  refine Option.ext fun w => ?_
  rw [← mem_items_iff, Option.mem_def.symm, Option.mem_filter_iff, Option.mem_def, ← mem_items_iff]
  simp [filter]

@[simp] theorem get?_mapValues (f : β → γ) : (d.mapValues f).get? k = (d.get? k).map f := by
  obtain ⟨l, hl⟩ := d
  show (l.map fun p => (p.1, f p.2)).lookup k = (l.lookup k).map f
  clear hl
  induction l with
  | nil => rfl
  | cons p rest ih =>
    obtain ⟨a, b⟩ := p
    simp only [List.map_cons, lookup_cons_ite, ih]
    split <;> rfl

/-- `update` reads the last item of the list under the key, or the dict it started from. -/
theorem get?_update (l : List (α × β)) :
    (d.update l).get? k = ((l.reverse.lookup k).or (d.get? k)) := by
  induction l generalizing d with
  | nil => rfl
  | cons p rest ih =>
    show ((d.set p.1 p.2).update rest).get? k = _
    rw [ih, get?_set, List.reverse_cons, List.lookup_append, lookup_cons_ite]
    cases rest.reverse.lookup k with
    | some w => simp
    | none => by_cases h : k = p.1 <;> simp [h]

theorem lookup_reverse_items : d.items.reverse.lookup k = d.get? k := by
  have hnd : (d.items.reverse.map Prod.fst).Nodup := by
    rw [List.map_reverse]; exact List.nodup_reverse.2 d.nodup
  refine Option.ext fun v => ?_
  have := mem_items_iff (d := ⟨_, hnd⟩) (k := k) (v := v)
  rw [← mem_items_iff, ← List.mem_reverse, this]
  rfl

theorem mem_of_lookup_reverse {l : List (α × β)} {v : β} (h : l.reverse.lookup k = some v) : (k, v) ∈ l := by
  obtain ⟨pre, post, hl, -⟩ := List.lookup_eq_some_iff.1 h
  rw [← List.mem_reverse, hl]
  simp

/-- Updating with a dict reads the dict first. -/
theorem get?_update_items (e : PyDict α β) : (d.update e.items).get? k = (e.get? k).or (d.get? k) := by
  rw [get?_update, lookup_reverse_items]

theorem get?_ofList (l : List (α × β)) : (ofList l).get? k = l.reverse.lookup k := by
  rw [ofList, get?_update]; simp

theorem setItems_append {l : List (α × β)} (h : k ∉ l.map Prod.fst) : setItems k v l = l ++ [(k, v)] := by
  induction l with
  | nil => rfl
  | cons p rest ih =>
    obtain ⟨a, b⟩ := p
    rw [List.map_cons, List.mem_cons, not_or] at h
    rw [setItems, if_neg (Ne.symm h.1), ih h.2]
    rfl

theorem keys_set_of_not_mem (h : k ∉ d.keys) (v : β) : (d.set k v).keys = d.keys ++ [k] := by
  have hitems : (d.set k v).items = d.items ++ [(k, v)] := setItems_append h
  rw [keys, hitems, List.map_append]
  rfl

theorem filter_setItems (p : α → Bool) (k : α) (v : β) (l : List (α × β)) :
    (setItems k v l).filter (fun e => p e.1) =
      if p k then setItems k v (l.filter fun e => p e.1) else l.filter fun e => p e.1 := by
  induction l with
  | nil => by_cases hp : p k <;> simp [setItems, hp]
  | cons e rest ih =>
    obtain ⟨a, b⟩ := e
    rw [setItems]
    by_cases ha : a = k
    · subst ha
      rw [if_pos rfl, List.filter_cons, List.filter_cons]
      by_cases hp : p a
      · rw [if_pos hp, if_pos hp, if_pos hp, setItems, if_pos rfl]
      · rw [if_neg hp, if_neg hp, if_neg hp]
    · rw [if_neg ha, List.filter_cons, List.filter_cons, ih]
      by_cases hpa : p a <;> by_cases hp : p k
      · rw [if_pos hpa, if_pos hpa, if_pos hp, if_pos hp, setItems, if_neg ha]
      · rw [if_pos hpa, if_pos hpa, if_neg hp, if_neg hp]
      · rw [if_neg hpa, if_neg hpa, if_pos hp]
      · rw [if_neg hpa, if_neg hpa, if_neg hp]

/-- The bindings of the keys that pass a test come from those of their kind. -/
theorem filter_update (p : α → Bool) (d : PyDict α β) (l : List (α × β)) :
    (d.update l).filter (fun k _ => p k) = (d.filter fun k _ => p k).update (l.filter fun e => p e.1) := by
  induction l generalizing d with
  | nil => rfl
  | cons e rest ih =>
    show ((d.set e.1 e.2).update rest).filter _ = _
    have hset := filter_setItems p e.1 e.2 d.items
    rw [ih, List.filter_cons]
    by_cases hp : p e.1
    · rw [if_pos hp] at hset ⊢
      exact congrArg (update · _) (ext_items hset)
    · rw [if_neg hp] at hset ⊢
      exact congrArg (update · _) (ext_items hset)

theorem length_set (d : PyDict α β) (k : α) (v : β) :
    (d.set k v).items.length = if k ∈ d.keys then d.items.length else d.items.length + 1 := by
  have hlength := congrArg List.length (map_fst_setItems k v d.items)
  rw [List.length_map] at hlength
  show (setItems k v d.items).length = _
  rw [hlength]
  show (if k ∈ d.keys then _ else _ : List α).length = _
  split_ifs <;> simp

theorem keys_erase (d : PyDict α β) (k : α) : (d.erase k).keys = d.keys.filter (· ≠ k) := by
  rw [keys, keys, List.filter_map]
  rfl

/-- Items with different keys are the items of their dict. -/
theorem items_ofList {l : List (α × β)} (h : (l.map Prod.fst).Nodup) : (ofList l).items = l := by
  have hupdate : ∀ (l : List (α × β)) (d : PyDict α β), ((d.items ++ l).map Prod.fst).Nodup →
      (d.update l).items = d.items ++ l := by
    intro l
    induction l with
    | nil => intro d _; exact (List.append_nil _).symm
    | cons p rest ih =>
      intro d hd
      have hnew : p.1 ∉ d.items.map Prod.fst := by
        rw [List.map_append, List.map_cons] at hd
        exact fun hmem => (List.nodup_append.1 hd).2.2 _ hmem _ (List.mem_cons_self ..) rfl
      have hset : (d.set p.1 p.2).items = d.items ++ [p] := setItems_append hnew
      have hrest := ih (d.set p.1 p.2) (by rw [hset, List.append_assoc]; exact hd)
      rw [hset, List.append_assoc] at hrest
      exact hrest
  exact hupdate l empty h

theorem set_eq_self (h : d.get? k = some v) : d.set k v = d := by
  obtain ⟨l, hl⟩ := d
  refine ext_items (?_ : setItems k v l = l)
  replace h : l.lookup k = some v := h
  clear hl
  induction l with
  | nil => cases h
  | cons p rest ih =>
    obtain ⟨a, b⟩ := p
    rw [lookup_cons_ite] at h
    unfold setItems
    by_cases ha : a = k
    · subst ha
      rw [if_pos rfl] at h
      rw [if_pos rfl, Option.some.inj h]
    · rw [if_neg (Ne.symm ha)] at h
      rw [if_neg ha, ih h]

/-- Assigning what is there already changes nothing, not even the order. -/
theorem update_eq_self (l : List (α × β)) (h : ∀ p ∈ l, d.get? p.1 = some p.2) : d.update l = d := by
  induction l with
  | nil => rfl
  | cons p rest ih =>
    show (d.set p.1 p.2).update rest = d
    rw [set_eq_self (h p (by simp))]
    exact ih fun q hq => h q (List.mem_cons_of_mem _ hq)

end Lookup

/-- `d[k] += x` on a `defaultdict` of zeros. -/
def addAt [Add β] [Zero β] (d : PyDict α β) (k : α) (x : β) : PyDict α β := d.set k ((d.get? k).getD 0 + x)

section Sums

variable {M : Type*} [AddCommGroup M]

variable [Add β] [Zero β]

end Sums

end PyDict
