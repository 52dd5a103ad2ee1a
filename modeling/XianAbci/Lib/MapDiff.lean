import XianAbci.Lib.PyDict

/-!
# Differences of finite maps

`patch` applies a list of updates to a map, `none` removing a key. `diff old new` lists what turns
`old` into `new`: the bindings of `new` that `old` does not have, then the keys `new` dropped.
-/

namespace PyDict

variable {α β : Type} [DecidableEq α]

/-- The updates in order; `none` removes the key. -/
def patch (m : PyDict α β) (updates : List (α × Option β)) : PyDict α β :=
  updates.foldl (fun m u => match u.2 with
    | some v => m.set u.1 v
    | none => m.erase u.1) m

def changed [DecidableEq β] (old new : PyDict α β) : List (α × Option β) :=
  (new.items.filter fun p => old.get? p.1 ≠ some p.2).map fun p => (p.1, some p.2)

def dropped (old new : PyDict α β) : List (α × Option β) :=
  (old.keys.filter fun k => k ∉ new.keys).map fun k => (k, none)

def diff [DecidableEq β] (old new : PyDict α β) : List (α × Option β) := changed old new ++ dropped old new

/-- A key reads its last update. -/
theorem get?_patch (m : PyDict α β) (updates : List (α × Option β)) (k : α) :
    (m.patch updates).get? k = (updates.reverse.lookup k).getD (m.get? k) := by
  induction updates generalizing m with
  | nil => rfl
  | cons u rest ih =>
    obtain ⟨a, v⟩ := u
    show (patch _ rest).get? k = _
    rw [ih, List.reverse_cons, List.lookup_append, lookup_cons_ite]
    rcases rest.reverse.lookup k with _ | w
    · rcases v with _ | v <;> by_cases h : k = a <;> simp [h]
    · simp

theorem get?_patch_of_mem {m : PyDict α β} {updates : List (α × Option β)} (hnd : (updates.map Prod.fst).Nodup)
    {k : α} {v : Option β} (h : (k, v) ∈ updates) : (m.patch updates).get? k = v := by
  have hnd' : (updates.reverse.map Prod.fst).Nodup := by
    rw [List.map_reverse]; exact List.nodup_reverse.2 hnd
  have hlast : updates.reverse.lookup k = some v :=
    (mem_items_iff (d := ⟨updates.reverse, hnd'⟩)).1 (List.mem_reverse.2 h)
  rw [get?_patch, hlast]
  rfl

theorem get?_patch_of_notMem {m : PyDict α β} {updates : List (α × Option β)} {k : α}
    (h : k ∉ updates.map Prod.fst) : (m.patch updates).get? k = m.get? k := by
  rw [get?_patch, lookup_eq_none (by rw [List.map_reverse, List.mem_reverse]; exact h)]
  rfl

variable {old new : PyDict α β} {k : α}

theorem mem_changed [DecidableEq β] {v : Option β} :
    (k, v) ∈ changed old new ↔ ∃ w, v = some w ∧ new.get? k = some w ∧ old.get? k ≠ some w := by
  simp only [changed, List.mem_map, List.mem_filter, Prod.mk.injEq, Prod.exists, decide_eq_true_eq]
  constructor
  · rintro ⟨a, w, ⟨hmem, hne⟩, rfl, rfl⟩
    exact ⟨w, rfl, mem_items_iff.1 hmem, hne⟩
  · rintro ⟨w, rfl, hnew, hne⟩
    exact ⟨k, w, ⟨mem_items_iff.2 hnew, hne⟩, rfl, rfl⟩

theorem mem_dropped {v : Option β} : (k, v) ∈ dropped old new ↔ v = none ∧ k ∈ old.keys ∧ k ∉ new.keys := by
  simp only [dropped, List.mem_map, List.mem_filter, Prod.mk.injEq, decide_eq_true_eq]
  constructor
  · rintro ⟨a, ⟨hold, hnew⟩, rfl, rfl⟩
    exact ⟨rfl, hold, hnew⟩
  · rintro ⟨rfl, hold, hnew⟩
    exact ⟨k, ⟨hold, hnew⟩, rfl, rfl⟩

theorem nodup_diff [DecidableEq β] (old new : PyDict α β) : ((diff old new).map Prod.fst).Nodup := by
  rw [diff, List.map_append, List.nodup_append]
  refine ⟨?_, ?_, fun a ha b hb hab => ?_⟩
  · rw [changed, List.map_map]
    exact (List.filter_sublist.map Prod.fst).nodup new.nodup
  · rw [dropped, List.map_map, show Prod.fst ∘ (fun k : α => (k, (none : Option β))) = id from rfl, List.map_id]
    exact List.filter_sublist.nodup old.nodup
  · subst hab
    obtain ⟨⟨_, v⟩, hv, rfl⟩ := List.mem_map.1 ha
    obtain ⟨⟨_, v'⟩, hv', hk⟩ := List.mem_map.1 hb
    cases hk
    obtain ⟨w, -, hnew, -⟩ := mem_changed.1 hv
    exact (mem_dropped.1 hv').2.2 (mem_keys_iff.2 ⟨w, hnew⟩)

/-- Patching by the difference gives the new map. -/
theorem get?_patch_diff [DecidableEq β] (old new : PyDict α β) (k : α) : (old.patch (diff old new)).get? k = new.get? k := by
  rcases hnew : new.get? k with _ | w
  · by_cases hold : k ∈ old.keys
    · exact get?_patch_of_mem (nodup_diff old new) (List.mem_append_right _
        (mem_dropped.2 ⟨rfl, hold, get?_eq_none_iff.1 hnew⟩))
    · rw [get?_patch_of_notMem, get?_eq_none_iff.2 hold]
      intro hk
      obtain ⟨⟨_, v⟩, hv, rfl⟩ := List.mem_map.1 hk
      rcases List.mem_append.1 hv with hv | hv
      · obtain ⟨w, -, h, -⟩ := mem_changed.1 hv
        rw [hnew] at h; cases h
      · exact hold (mem_dropped.1 hv).2.1
  · by_cases hold : old.get? k = some w
    · rw [get?_patch_of_notMem, hold]
      intro hk
      obtain ⟨⟨_, v⟩, hv, rfl⟩ := List.mem_map.1 hk
      rcases List.mem_append.1 hv with hv | hv
      · obtain ⟨w', -, h, hne⟩ := mem_changed.1 hv
        rw [hnew] at h
        cases h
        exact hne hold
      · exact (mem_dropped.1 hv).2.2 (mem_keys_iff.2 ⟨w, hnew⟩)
    · exact get?_patch_of_mem (nodup_diff old new) (List.mem_append_left _
        (mem_changed.2 ⟨w, rfl, hnew, hold⟩))

end PyDict
