import XianAbci.Evidence
import XianAbci.ValidatorTracking

/-!
# Stored validator data that stops a block

Contracts may store anything under the keys `build_validator_updates` and
`maybe_apply_evidence_penalties` read. A malformed identity is passed over, but a power that does not
compare with 0, a power that no 64-bit integer holds, a registry that is no list or an entry of it that
is no text raises. `selectValidators_cases` says what the loop over the list can end with; the stored
values that raise are read off it.
-/

namespace XianAbci

section Powers

variable (F : FloatOps)

/-- A power the node can convert. -/
def IsPower : Value → Prop
  | .none | .bool _ | .int _ | .decimal _ | .pyDecimal _ _ => True
  | .float repr => F.nonPositive repr = true ∨ ∃ i, F.toInt repr = .ok i
  | _ => False

variable {F}

theorem validatorPower_ok_iff {v : Value} : (∃ p, validatorPower F v = .ok p) ↔ IsPower F v := by
  rcases v with _ | _ | _ | repr | _ | _ | _ | _ | _ | _ | _ | _ | _ | _ | _ | _ <;>
    simp only [validatorPower, IsPower, Except.ok.injEq, reduceCtorEq, exists_eq', exists_false]
  by_cases h : F.nonPositive repr = true
  · simp [h]
  · simp [h]

theorem validatorPower_nonneg {v : Value} {p : Int} (h : validatorPower F v = .ok p) : 0 ≤ p := by
  have hdecimal : ∀ units scale, 0 ≤ decimalPower units scale := by
    intro units scale
    unfold decimalPower
    split
    · decide
    · exact Int.ediv_nonneg (by omega) (by positivity)
  rcases v with _ | b | i | repr | s | d | ⟨units, scale⟩ | _ | _ | _ | _ | _ | _ | _ | _ | _ <;>
    simp only [validatorPower, reduceCtorEq, Except.ok.injEq] at h
  · rw [← h]; decide
  · rw [← h]; split <;> decide
  · rw [← h]
    split
    · decide
    · omega
  · split at h
    · cases h; decide
    · rename_i hpos
      exact F.toInt_nonneg repr p (by simpa using hpos) h
  · rw [← h]; exact hdecimal _ _
  · rw [← h]; exact hdecimal _ _

end Powers

/-! ### The selection -/

section Selection

variable (F : FloatOps) (read : String → Value)

/-- An entry of the active list that is a key. -/
def isIdentity : Value → Bool
  | .str validator => vkIsFormatted validator
  | _ => false

/-- Some spelling of the key is in the list, with the power. -/
def Chosen (items : List Value) (key : String) (power : Int) : Prop :=
  ∃ v, Value.str v ∈ items ∧ vkIsFormatted v ∧ lowerHex v = key ∧ validatorPower F (read (powersKey v)) = .ok power

/-- Two spellings of one key have different powers. -/
def Conflict (items : List Value) : Prop := ∃ key p q, Chosen F read items key p ∧ Chosen F read items key q ∧ p ≠ q

/-- The keys of the list have powers that convert, up to the first conflict. -/
def PowersUpToConflict (items : List Value) : Prop :=
  ∀ pre v post, items = pre ++ Value.str v :: post → vkIsFormatted v → ¬ Conflict F read pre →
    IsPower F (read (powersKey v))

variable {F read}

theorem Chosen.mono {l l' : List Value} {k : String} {p : Int} (h : Chosen F read l k p) (hl : ∀ x ∈ l, x ∈ l') :
    Chosen F read l' k p := by
  obtain ⟨v, hv, hrest⟩ := h
  exact ⟨v, hl _ hv, hrest⟩

theorem Conflict.mono {l l' : List Value} (h : Conflict F read l) (hl : ∀ x ∈ l, x ∈ l') : Conflict F read l' := by
  obtain ⟨k, p, q, hp, hq, hne⟩ := h
  exact ⟨k, p, q, hp.mono hl, hq.mono hl, hne⟩

theorem chosen_append_identity {pre : List Value} {v : String} {power : Int} (hv : vkIsFormatted v)
    (hpower : validatorPower F (read (powersKey v)) = .ok power) {k : String} {p : Int} :
    Chosen F read (pre ++ [.str v]) k p ↔ Chosen F read pre k p ∨ lowerHex v = k ∧ power = p := by
  constructor
  · rintro ⟨w, hw, hfmt, hk, hp⟩
    rcases List.mem_append.1 hw with hw | hw
    · exact .inl ⟨w, hw, hfmt, hk, hp⟩
    · obtain rfl : w = v := by simpa using hw
      exact .inr ⟨hk, Except.ok.inj (hpower.symm.trans hp)⟩
  · rintro (⟨w, hw, hrest⟩ | ⟨hk, rfl⟩)
    · exact ⟨w, List.mem_append_left _ hw, hrest⟩
    · exact ⟨v, by simp, hv, hk, hpower⟩

theorem chosen_append_malformed {pre : List Value} {x : Value} (hx : isIdentity x = false) {k : String} {p : Int} :
    Chosen F read (pre ++ [x]) k p ↔ Chosen F read pre k p := by
  constructor
  · rintro ⟨w, hw, hfmt, hk, hp⟩
    rcases List.mem_append.1 hw with hw | hw
    · exact ⟨w, hw, hfmt, hk, hp⟩
    · obtain rfl : Value.str w = x := by simpa using hw
      rw [isIdentity] at hx
      rw [hfmt] at hx
      cases hx
  · exact fun h => h.mono fun y hy => List.mem_append_left _ hy

/-- The entries read so far are in the dict, and do not conflict. -/
structure SelectedFrom (F : FloatOps) (read : String → Value) (pre : List Value) (desired : PyDict String Int) :
    Prop where
  get : ∀ k p, desired.get? k = some p ↔ Chosen F read pre k p
  agree : ¬ Conflict F read pre

theorem SelectedFrom.nil : SelectedFrom F read [] .empty := by
  constructor
  · intro k p
    refine ⟨fun h => (by cases h), ?_⟩
    rintro ⟨v, hv, -⟩
    cases hv
  · rintro ⟨k, p, q, ⟨v, hv, -⟩, -⟩
    cases hv

theorem SelectedFrom.malformed {pre : List Value} {desired : PyDict String Int} (h : SelectedFrom F read pre desired)
    {x : Value} (hx : isIdentity x = false) : SelectedFrom F read (pre ++ [x]) desired := by
  refine ⟨fun k p => by rw [h.get, chosen_append_malformed hx], ?_⟩
  rintro ⟨k, p, q, hp, hq, hne⟩
  exact h.agree ⟨k, p, q, (chosen_append_malformed hx).1 hp, (chosen_append_malformed hx).1 hq, hne⟩

theorem SelectedFrom.identity {pre : List Value} {desired : PyDict String Int} (h : SelectedFrom F read pre desired)
    {v : String} {power : Int} (hv : vkIsFormatted v) (hpower : validatorPower F (read (powersKey v)) = .ok power)
    (hsame : ∀ p, desired.get? (lowerHex v) = some p → p = power) :
    SelectedFrom F read (pre ++ [.str v]) (desired.set (lowerHex v) power) := by
  have hchosen : ∀ k p, (desired.set (lowerHex v) power).get? k = some p ↔ Chosen F read (pre ++ [.str v]) k p := by
    intro k p
    rw [chosen_append_identity hv hpower, ← h.get, PyDict.get?_set]
    by_cases hk : k = lowerHex v
    · rw [if_pos hk, hk]
      constructor
      · exact fun hp => .inr ⟨rfl, Option.some.inj hp⟩
      · rintro (hp | ⟨-, rfl⟩)
        · rw [hsame p hp]
        · rfl
    · rw [if_neg hk]
      exact ⟨.inl, fun hp => hp.resolve_right fun hv => hk hv.1.symm⟩
  refine ⟨hchosen, ?_⟩
  rintro ⟨k, p, q, hp, hq, hne⟩
  rw [← hchosen] at hp hq
  exact hne (Option.some.inj (hp.symm.trans hq))

theorem split_append_cons {α : Type} {a b l r : List α} {x y : α} (h : a ++ x :: b = l ++ y :: r) :
    (∃ b', l = a ++ x :: b') ∨ a = l ∧ x = y ∨ ∃ a', a = l ++ y :: a' := by
  rcases List.append_eq_append_iff.1 h with ⟨m, hl, hr⟩ | ⟨m, ha, hr⟩
  · rcases m with _ | ⟨z, m⟩
    · exact .inr (.inl ⟨by simpa using hl.symm, (List.cons.inj hr).1⟩)
    · obtain ⟨rfl, -⟩ := List.cons.inj hr
      exact .inl ⟨m, hl⟩
  · rcases m with _ | ⟨z, m⟩
    · exact .inr (.inl ⟨by simpa using ha, (List.cons.inj hr).1.symm⟩)
    · obtain ⟨rfl, -⟩ := List.cons.inj hr
      exact .inr (.inr ⟨m, ha⟩)

/-- Powers up to an entry: those before it, its own, and those after it unless there is a conflict. -/
theorem powersUpToConflict_append {pre rest : List Value} {x : Value} (hpre : PowersUpToConflict F read pre)
    (hx : ∀ v, x = .str v → vkIsFormatted v → IsPower F (read (powersKey v)))
    (hrest : ∀ mid v post, rest = mid ++ Value.str v :: post → vkIsFormatted v →
      ¬ Conflict F read (pre ++ x :: mid) → IsPower F (read (powersKey v))) :
    PowersUpToConflict F read (pre ++ x :: rest) := by
  intro a v b h hv hagree
  rcases split_append_cons h.symm with ⟨b', rfl⟩ | ⟨rfl, hxv⟩ | ⟨a', rfl⟩
  · exact hpre a v b' rfl hv hagree
  · exact hx v hxv.symm hv
  · have htail : rest = a' ++ Value.str v :: b := by
      rw [List.append_assoc, List.append_right_inj] at h
      exact (List.cons.inj h).2
    exact hrest a' v b htail hv hagree

/-- What the loop over the active list can end with. -/
def SelectionOutcome (F : FloatOps) (read : String → Value) (items : List Value) :
    Except PyErr (Option (PyDict String Int)) → Prop
  | .error _ => ¬ PowersUpToConflict F read items
  | .ok none => Conflict F read items ∧ PowersUpToConflict F read items
  | .ok (some selected) => SelectedFrom F read items selected ∧ PowersUpToConflict F read items

theorem selectValidators_malformed {x : Value} (hx : isIdentity x = false) (rest : List Value)
    (desired : PyDict String Int) :
    selectValidators F read (x :: rest) desired = selectValidators F read rest desired := by
  rcases x with _ | _ | _ | _ | v | _ | _ | _ | _ | _ | _ | _ | _ | _ | _ | _ <;> try rfl
  rw [isIdentity] at hx
  rw [selectValidators, if_pos (by simp [hx])]

theorem selectValidators_cases (items pre : List Value) {desired : PyDict String Int}
    (h : SelectedFrom F read pre desired) (hpre : PowersUpToConflict F read pre) :
    SelectionOutcome F read (pre ++ items) (selectValidators F read items desired) := by
  induction items generalizing pre desired with
  | nil =>
    rw [List.append_nil]
    exact ⟨h, hpre⟩
  | cons x rest ih =>
    have hsplit : pre ++ x :: rest = (pre ++ [x]) ++ rest := by simp
    by_cases hx : isIdentity x = false
    · rw [selectValidators_malformed hx, hsplit]
      refine ih (pre ++ [x]) (h.malformed hx) (powersUpToConflict_append hpre ?_ ?_)
      · rintro v rfl hv
        rw [isIdentity, hv] at hx
        cases hx
      · intro mid v post hnil
        cases mid <;> cases hnil
    obtain ⟨v, rfl, hv⟩ : ∃ v, x = .str v ∧ vkIsFormatted v = true := by
      rcases x with _ | _ | _ | _ | v | _ | _ | _ | _ | _ | _ | _ | _ | _ | _ | _ <;>
        first
        | exact absurd rfl hx
        | exact ⟨v, rfl, by simpa [isIdentity] using hx⟩
    unfold selectValidators
    rw [if_neg (by simp [hv])]
    rcases hpower : validatorPower F (read (powersKey v)) with e | power
    · intro hall
      obtain ⟨p, hp⟩ := validatorPower_ok_iff.2 (hall pre v rest rfl hv h.agree)
      rw [hpower] at hp
      cases hp
    have hown : ∀ w, Value.str v = .str w → vkIsFormatted w → IsPower F (read (powersKey w)) := by
      rintro w hw -
      obtain rfl : v = w := Value.str.inj hw
      exact validatorPower_ok_iff.1 ⟨power, hpower⟩
    dsimp only
    by_cases hconflict : (desired.get? (lowerHex v)).any (· ≠ power) = true
    · -- an earlier spelling has another power: the rest of the list is not read
      rw [if_pos hconflict]
      rcases hq : desired.get? (lowerHex v) with _ | q
      · rw [hq] at hconflict
        cases hconflict
      have hne : q ≠ power := by
        rw [hq] at hconflict
        simpa using hconflict
      have hhere : Conflict F read (pre ++ [.str v]) :=
        ⟨lowerHex v, q, power, (chosen_append_identity hv hpower).2 (.inl ((h.get _ _).1 hq)),
          (chosen_append_identity hv hpower).2 (.inr ⟨rfl, rfl⟩), hne⟩
      refine ⟨?_, powersUpToConflict_append hpre hown ?_⟩
      · rw [hsplit]
        exact hhere.mono fun y hy => List.mem_append_left _ hy
      · intro mid w post _ _ hagree
        refine absurd (hhere.mono fun y hy => ?_) hagree
        simp only [List.mem_append, List.mem_singleton] at hy
        simp only [List.mem_append, List.mem_cons]
        tauto
    · rw [if_neg hconflict, hsplit]
      refine ih (pre ++ [.str v]) (h.identity hv hpower ?_) (powersUpToConflict_append hpre hown ?_)
      · intro p hp
        rw [hp] at hconflict
        simpa using hconflict
      · intro mid w post hnil
        cases mid <;> cases hnil

/-- A malformed entry does not change the selection. -/
theorem selectValidators_skips (items : List Value) (desired : PyDict String Int) :
    selectValidators F read (items.filter isIdentity) desired = selectValidators F read items desired := by
  induction items generalizing desired with
  | nil => rfl
  | cons x rest ih =>
    by_cases hx : isIdentity x = false
    · rw [List.filter_cons_of_neg (by simp [hx]), ih, selectValidators_malformed hx]
    · rw [List.filter_cons_of_pos (by simpa using hx)]
      rcases x with _ | _ | _ | _ | v | _ | _ | _ | _ | _ | _ | _ | _ | _ | _ | _ <;> try exact absurd rfl hx
      unfold selectValidators
      simp only [ih]

end Selection

section State

variable (B : Builtins) (F : FloatOps) (read : String → Value)

/-- The active list; a stored value that is no list selects nothing. -/
def activeItems : List Value :=
  match orDefault B (read activeValidatorsKey) (.list []) with
  | .list items => items
  | _ => []

/-- The list selects the key with the power: no two spellings of a key conflict, and it is among them. -/
def Selects (key : String) (power : Int) : Prop :=
  ¬ Conflict F read (activeItems B read) ∧ Chosen F read (activeItems B read) key power

variable {B F read}

theorem getValidatorsFromState_cases (B : Builtins) (F : FloatOps) (read : String → Value) :
    getValidatorsFromState B F read = selectValidators F read (activeItems B read) .empty ∨
      activeItems B read = [] ∧ getValidatorsFromState B F read = .ok none := by
  unfold getValidatorsFromState activeItems
  rcases orDefault B (read activeValidatorsKey) (.list []) with
    _ | _ | _ | _ | _ | _ | _ | _ | _ | _ | _ | _ | _ | _ | items | _ <;>
    first
    | exact .inl rfl
    | exact .inr ⟨rfl, rfl⟩

theorem PowersUpToConflict.nil : PowersUpToConflict F read [] := by
  intro pre v post h
  cases pre <;> cases h

theorem selectValidators_outcome (F : FloatOps) (read : String → Value) (items : List Value) :
    SelectionOutcome F read items (selectValidators F read items .empty) := by
  have h : SelectionOutcome F read ([] ++ items) (selectValidators F read items .empty) :=
    selectValidators_cases items [] .nil .nil
  rwa [List.nil_append] at h

theorem getValidatorsFromState_ok_iff :
    (∃ selected, getValidatorsFromState B F read = .ok selected) ↔ PowersUpToConflict F read (activeItems B read) := by
  rcases getValidatorsFromState_cases B F read with h | ⟨hitems, h⟩
  · have hcases := selectValidators_outcome F read (activeItems B read)
    rw [h]
    rcases hselected : selectValidators F read (activeItems B read) .empty with e | _ | selected
    · rw [hselected] at hcases
      exact ⟨fun ⟨_, hok⟩ => (by cases hok), fun hpowers => absurd hpowers hcases⟩
    · rw [hselected] at hcases
      exact ⟨fun _ => hcases.2, fun _ => ⟨none, rfl⟩⟩
    · rw [hselected] at hcases
      exact ⟨fun _ => hcases.2, fun _ => ⟨some selected, rfl⟩⟩
  · rw [hitems]
    exact ⟨fun _ => .nil, fun _ => ⟨none, h⟩⟩

/-- What the node takes from the list is what the list selects. -/
theorem getValidatorsFromState_get {selected : Option (PyDict String Int)}
    (h : getValidatorsFromState B F read = .ok selected) (k : String) (p : Int) :
    (selected.getD .empty).get? k = some p ↔ Selects B F read k p := by
  unfold Selects
  rcases getValidatorsFromState_cases B F read with hloop | ⟨hitems, hnone⟩
  · have hcases := selectValidators_outcome F read (activeItems B read)
    rw [← hloop, h] at hcases
    rcases selected with _ | selected
    · refine ⟨fun hget => (by cases hget), fun hsel => ?_⟩
      exact absurd hcases.1 hsel.1
    · have hfrom : SelectedFrom F read (activeItems B read) selected := hcases.1
      exact ⟨fun hget => ⟨hfrom.agree, (hfrom.get k p).1 hget⟩, fun hsel => (hfrom.get k p).2 hsel.2⟩
  · obtain rfl : none = selected := Except.ok.inj (hnone.symm.trans h)
    rw [hitems]
    refine ⟨fun hget => (by cases hget), ?_⟩
    rintro ⟨-, v, hv, -⟩
    cases hv

theorem Selects.formatted {k : String} {p : Int} (h : Selects B F read k p) :
    (∃ pubKey, k = bytesHex pubKey) ∧ 0 ≤ p := by
  obtain ⟨-, v, -, hv, rfl, hp⟩ := h
  exact ⟨lowerHex_of_formatted hv, validatorPower_nonneg hp⟩

end State

/-! ### The updates -/

section Updates

variable {c d : PyDict String Int}

theorem validatorUpdate_ok_iff {k : String} {p : Int} (hk : ∃ pubKey, k = bytesHex pubKey) (hp : 0 ≤ p) :
    (∃ u, validatorUpdate k (.int p) = .ok u) ↔ p < 2 ^ 63 := by
  obtain ⟨pubKey, rfl⟩ := hk
  simp only [validatorUpdate, bytesFromHex_bytesHex, bind_eq_ok, Except.ok.injEq, require_eq_ok, exists_eq_left']
  constructor
  · rintro ⟨u, _, h, -⟩
    exact h.2
  · intro h
    exact ⟨⟨pubKey, p⟩, (), ⟨by omega, h⟩, rfl⟩

theorem changedUpdates_ok_iff (l : List (String × Int))
    (hl : ∀ q ∈ l, (∃ pubKey, q.1 = bytesHex pubKey) ∧ 0 ≤ q.2) :
    (∃ us, changedUpdates (validatorSetValue c) (l.map fun q => (q.1, .int q.2)) = .ok us) ↔
      ∀ q ∈ l, q.2 < 2 ^ 63 ∨ c.get? q.1 = some q.2 := by
  induction l with
  | nil => exact ⟨fun _ q hq => (by cases hq), fun _ => ⟨[], rfl⟩⟩
  | cons q rest ih =>
    obtain ⟨k, power⟩ := q
    obtain ⟨hk, hpower⟩ := hl (k, power) (List.mem_cons_self ..)
    have hrest := ih fun q hq => hl q (List.mem_cons_of_mem _ hq)
    rw [List.forall_mem_cons, ← hrest, ← validatorUpdate_ok_iff hk hpower, List.map_cons, changedUpdates]
    simp only [get_validatorSetValue, bind_eq_ok, Except.ok.injEq, exists_eq_left', samePower_committed]
    by_cases hsame : c.get? k = some power
    · simp [hsame]
    · simp only [hsame, decide_false, Bool.false_eq_true, ↓reduceIte, bind_eq_ok, or_false]
      constructor
      · rintro ⟨_, u, hu, us, hus, -⟩
        exact ⟨⟨u, hu⟩, us, hus⟩
      · rintro ⟨⟨u, hu⟩, us, hus⟩
        exact ⟨_, u, hu, us, hus, rfl⟩

theorem removedUpdates_ok (state : List (String × Value)) (l : List String)
    (hl : ∀ k ∈ l, ∃ pubKey, k = bytesHex pubKey) : ∃ us, removedUpdates state l = .ok us := by
  induction l with
  | nil => exact ⟨[], rfl⟩
  | cons k rest ih =>
    obtain ⟨us, hus⟩ := ih fun q hq => hl q (List.mem_cons_of_mem _ hq)
    unfold removedUpdates
    by_cases hk : k ∈ state.map Prod.fst
    · rw [if_pos hk]
      exact ⟨us, hus⟩
    · rw [if_neg hk]
      obtain ⟨u, hu⟩ := (validatorUpdate_ok_iff (hl k (List.mem_cons_self ..)) (le_refl 0)).2 (by decide)
      exact ⟨u :: us, by rw [hu, hus]; rfl⟩

theorem validatorUpdates_ok_iff (hc : KeysFormatted c)
    (hd : ∀ k p, d.get? k = some p → (∃ pubKey, k = bytesHex pubKey) ∧ 0 ≤ p) :
    (∃ us, validatorUpdates (validatorSetValue d) (validatorSetValue c) = .ok us) ↔
      ∀ k p, d.get? k = some p → p < 2 ^ 63 ∨ c.get? k = some p := by
  have hchanged := changedUpdates_ok_iff (c := c) d.items fun q hq => hd q.1 q.2 (PyDict.mem_items_iff.1 hq)
  have hitems : (∀ q ∈ d.items, q.2 < 2 ^ 63 ∨ c.get? q.1 = some q.2) ↔
      ∀ k p, d.get? k = some p → p < 2 ^ 63 ∨ c.get? k = some p :=
    ⟨fun h k p hk => h (k, p) (PyDict.mem_items_iff.2 hk), fun h q hq => h q.1 q.2 (PyDict.mem_items_iff.1 hq)⟩
  have hkeys : (c.items.map fun q => (q.1, Value.int q.2)).map Prod.fst = c.keys := by
    rw [List.map_map]; rfl
  rw [← hitems, ← hchanged]
  simp only [validatorUpdates, Value.items, bind_eq_ok, Except.ok.injEq, exists_eq_left', validatorSetValue, hkeys]
  constructor
  · rintro ⟨_, us, hus, -⟩
    exact ⟨us, hus⟩
  · rintro ⟨us, hus⟩
    obtain ⟨removed, hremoved⟩ := removedUpdates_ok (d.items.map fun q => (q.1, Value.int q.2)) c.keys hc
    exact ⟨_, us, hus, removed, hremoved, rfl⟩

/-- Nothing is reported where the set does not change. -/
theorem validatorUpdates_self (hc : KeysFormatted c) :
    ∃ us, validatorUpdates (validatorSetValue c) (validatorSetValue c) = .ok us := by
  have hchanged : ∀ l : List (String × Int), (∀ q ∈ l, c.get? q.1 = some q.2) →
      changedUpdates (validatorSetValue c) (l.map fun q => (q.1, .int q.2)) = .ok [] := by
    intro l hl
    induction l with
    | nil => rfl
    | cons q rest ih =>
      rw [List.map_cons, changedUpdates, get_validatorSetValue]
      have hsame := samePower_committed c q.1 q.2
      rw [hl q (List.mem_cons_self ..), decide_eq_true rfl] at hsame
      simp only [bind, Except.bind, hl q (List.mem_cons_self ..), hsame, ↓reduceIte]
      exact ih fun r hr => hl r (List.mem_cons_of_mem _ hr)
  have hkeys : (c.items.map fun q => (q.1, Value.int q.2)).map Prod.fst = c.keys := by
    rw [List.map_map]; rfl
  obtain ⟨removed, hremoved⟩ := removedUpdates_ok (c.items.map fun q => (q.1, Value.int q.2)) c.keys hc
  refine ⟨[] ++ removed, ?_⟩
  simp only [validatorUpdates, Value.items, bind_eq_ok, Except.ok.injEq, exists_eq_left', validatorSetValue, hkeys]
  exact ⟨[], hchanged c.items fun q hq => PyDict.mem_items_iff.1 hq, removed, hremoved, rfl⟩

end Updates

/-! ### Which stored values let a block through -/

section Safe

variable (B : Builtins) (F : FloatOps)

/-- `validators.__consensus__` as only the node writes it: absent, or powers under keys in lower case. -/
def NodeRecord (record : Value) : Prop := record = .none ∨ ∃ d, KeysFormatted d ∧ record = validatorSetValue d

/-- The power a key has in the effective set: the recorded one, or without a record the one the
committed list selects. -/
def EffectivePower (view : DriverView) (key : String) (power : Int) : Prop :=
  match view.committed consensusValidatorsKey with
  | .none => Selects B F view.committed key power
  | record => record.get key .none = .ok (.int power)

/-- The stored selection can be turned into updates. -/
structure SafeSelection (view : DriverView) : Prop where
  powers : PowersUpToConflict F view.current (activeItems B view.current)
  bootstrap : view.committed consensusValidatorsKey = .none →
    PowersUpToConflict F view.committed (activeItems B view.committed)
  range : ∀ key power, Selects B F view.current key power → power < 2 ^ 63 ∨ EffectivePower B F view key power

variable {B F} {view : DriverView}

theorem committedValidators_ok_iff (hrecord : NodeRecord (view.committed consensusValidatorsKey)) :
    (∃ committed, committedValidators B F view.committed = .ok committed) ↔
      (view.committed consensusValidatorsKey = .none →
        PowersUpToConflict F view.committed (activeItems B view.committed)) := by
  unfold committedValidators
  rcases hrecord with hnone | ⟨d, -, hd⟩
  · rw [hnone, ← getValidatorsFromState_ok_iff]
    rcases getValidatorsFromState B F view.committed with e | selected
    · simp [Except.map]
    · simp [Except.map]
  · rw [hd]
    exact ⟨fun _ h => absurd h (validatorSetValue_ne_none d), fun _ => ⟨_, rfl⟩⟩

/-- The effective set is a set of powers under formatted keys. -/
theorem committedValidators_value (hrecord : NodeRecord (view.committed consensusValidatorsKey)) {committed : Value}
    (h : committedValidators B F view.committed = .ok committed) :
    ∃ c, committed = validatorSetValue c ∧ KeysFormatted c ∧ ∀ k p, c.get? k = some p ↔ EffectivePower B F view k p := by
  unfold committedValidators at h
  unfold EffectivePower
  rcases hrecord with hnone | ⟨d, hkeys, hd⟩
  · rw [hnone] at h ⊢
    dsimp only at h ⊢
    rcases hselected : getValidatorsFromState B F view.committed with e | selected
    · rw [hselected] at h; cases h
    rw [hselected] at h
    cases h
    have hget := getValidatorsFromState_get hselected
    refine ⟨selected.getD .empty, rfl, fun k hk => ?_, hget⟩
    obtain ⟨p, hp⟩ := PyDict.mem_keys_iff.1 hk
    exact ((hget k p).1 hp).formatted.1
  · rw [hd] at h ⊢
    obtain rfl : validatorSetValue d = committed := Except.ok.inj h
    refine ⟨d, rfl, hkeys, fun k p => ?_⟩
    show _ ↔ (validatorSetValue d).get k .none = .ok (.int p)
    rw [get_validatorSetValue]
    rcases d.get? k with _ | q
    · simp
    · simp

theorem buildValidatorUpdates_returns_iff :
    (∃ us, (buildValidatorUpdates B F view).1 = .ok us) ↔
      ∃ selected committed, getValidatorsFromState B F view.current = .ok selected ∧
        committedValidators B F view.committed = .ok committed ∧
        ∃ us, validatorUpdates (effectiveValidators selected committed) committed = .ok us := by
  constructor
  · rintro ⟨us, h⟩
    obtain ⟨selected, committed, hselected, hcommitted, hus, -⟩ := buildValidatorUpdates_ok (Prod.ext h rfl)
    exact ⟨selected, committed, hselected, hcommitted, us, hus⟩
  · rintro ⟨selected, committed, hselected, hcommitted, us, hus⟩
    obtain ⟨sets, hrecorded⟩ :
        ∃ sets, recordValidators B (effectiveValidators selected committed) view = (.ok (), sets) := by
      unfold recordValidators
      split
      · exact ⟨_, rfl⟩
      · exact ⟨_, rfl⟩
    have hupdates : (recordValidators B (effectiveValidators selected committed) >>= fun _ =>
        BlockM.lift (validatorUpdates (effectiveValidators selected committed) committed)) view = (.ok us, sets ++ []) :=
      BlockM.bind_of_ok hrecorded (Prod.ext hus rfl)
    refine ⟨us, congrArg Prod.fst (?_ : buildValidatorUpdates B F view = (.ok us, [] ++ ([] ++ (sets ++ []))))⟩
    exact BlockM.bind_of_ok (Prod.ext hselected rfl) (BlockM.bind_of_ok (Prod.ext hcommitted rfl) hupdates)

/-- `build_validator_updates` returns exactly on stored data that can be turned into updates. -/
theorem buildValidatorUpdates_returns_iff_safe (hrecord : NodeRecord (view.committed consensusValidatorsKey)) :
    (∃ us, (buildValidatorUpdates B F view).1 = .ok us) ↔ SafeSelection B F view := by
  rw [buildValidatorUpdates_returns_iff]
  constructor
  · rintro ⟨selected, committed, hselected, hcommitted, hus⟩
    obtain ⟨c, rfl, hkeys, hc⟩ := committedValidators_value hrecord hcommitted
    have hget := getValidatorsFromState_get hselected
    refine ⟨getValidatorsFromState_ok_iff.1 ⟨_, hselected⟩, (committedValidators_ok_iff hrecord).1 ⟨_, hcommitted⟩, ?_⟩
    intro k p hsel
    rw [← hc]
    rcases effective_cases selected c with ⟨desired, rfl, -, heff⟩ | ⟨hempty, -⟩
    · rw [heff] at hus
      have hformatted : ∀ k p, desired.get? k = some p → (∃ pubKey, k = bytesHex pubKey) ∧ 0 ≤ p :=
        fun k p hk => ((hget k p).1 hk).formatted
      exact (validatorUpdates_ok_iff hkeys hformatted).1 hus k p ((hget k p).2 hsel)
    · have hnothing := (hget k p).2 hsel
      rw [hempty] at hnothing
      cases hnothing
  · intro hsafe
    obtain ⟨selected, hselected⟩ := getValidatorsFromState_ok_iff.2 hsafe.powers
    obtain ⟨committed, hcommitted⟩ := (committedValidators_ok_iff hrecord).2 hsafe.bootstrap
    obtain ⟨c, rfl, hkeys, hc⟩ := committedValidators_value hrecord hcommitted
    have hget := getValidatorsFromState_get hselected
    refine ⟨selected, _, hselected, hcommitted, ?_⟩
    rcases effective_cases selected c with ⟨desired, rfl, -, heff⟩ | ⟨-, heff⟩
    · rw [heff]
      refine (validatorUpdates_ok_iff hkeys fun k p hk => ((hget k p).1 hk).formatted).2 fun k p hk => ?_
      rw [hc]
      exact hsafe.range k p ((hget k p).1 hk)
    · rw [heff]
      exact validatorUpdates_self hkeys

end Safe

section Blocks

variable (B : Builtins) (F : FloatOps) (members : Json → List Value) (E : Decimals) (R : Runtime) (C : SystemCall)

/-- Both functions return on the stored data, and pass over identities that are none. -/
structure ReturnsNormally (req : FinalizeRequest) (view : DriverView) : Prop where
  updates : ∃ us, (buildValidatorUpdates B F view).1 = .ok us
  penalties : ∃ anyApplied, (maybeApplyEvidencePenalties B members E R C req view).1 = .ok anyApplied
  identities : selectValidators F view.current ((activeItems B view.current).filter isIdentity) .empty =
    selectValidators F view.current (activeItems B view.current) .empty
  addresses : ∀ items a, storedItems members (knownValidators B view.current) = .ok items →
    resolveLoop a (items.filter fun entry => validatorConsensusAddress entry ≠ .ok none) = resolveLoop a items

variable {B F members E R C}

/-- Stored validator data stops a block exactly where a power does not convert or does not fit, or where
an accused validator is looked up in a value that is no list or past an entry that is no text. -/
theorem returnsNormally_iff {req : FinalizeRequest} {view : DriverView}
    (hrecord : NodeRecord (view.committed consensusValidatorsKey)) :
    ReturnsNormally B F members E R C req view ↔ SafeSelection B F view ∧
      ∀ p ∈ evidenceViews B members E R C (blockMeta req) view req.misbehavior, SafeEntry B members p.1 p.2 := by
  constructor
  · intro h
    exact ⟨(buildValidatorUpdates_returns_iff_safe hrecord).1 h.updates,
      (evidenceLoop_ok_iff req.misbehavior).1 h.penalties⟩
  · rintro ⟨hselection, hentries⟩
    exact ⟨(buildValidatorUpdates_returns_iff_safe hrecord).2 hselection,
      (evidenceLoop_ok_iff req.misbehavior).2 hentries, selectValidators_skips _ _,
      fun items a _ => resolveLoop_skips a items⟩

end Blocks

/-! ### One validator and an accusation -/

/-- A store whose pending writes are committed. -/
def storedView (values : List (String × Value)) : DriverView :=
  ⟨fun key => (values.lookup key).getD .none, fun key => (values.lookup key).getD .none⟩

def plainCall : SystemCall := ⟨fun _ signature => signature, fun _ _ => .none, fun _ _ => 0⟩

/-- The contract records the penalty. -/
def penaltyRuntime : Runtime where
  prepareVmContract _ := return ()
  convertDict v := v
  executeVmContract _ _ := .ok ⟨0, .none, .ofList [("validators.penalties", .int 1)], [], 0, [], [], []⟩

def accusedBlock : FinalizeRequest :=
  { height := 1, nanos := 5, hash := [], txs := []
    misbehavior := [⟨1, (sha256 firstKey).take 20, 1, 5, 0, 10⟩] }

/-- The first validator is selected and registered, among entries that are no keys. -/
def mixedView : DriverView := storedView
  [(activeValidatorsKey, .list [.int 7, .str "con_registrar", .str (bytesHex firstKey)]),
    (powersKey (bytesHex firstKey), .int 25),
    (validatorRegistryKey, .list [.str "con_registrar", .str (bytesHex firstKey), .int 7])]

theorem returnsNormally_iff_mixed :
    SafeSelection .plain exactFloats mixedView ∧
      ∀ p ∈ evidenceViews .plain (fun _ => []) exactDecimals penaltyRuntime plainCall (blockMeta accusedBlock) mixedView
        accusedBlock.misbehavior, SafeEntry .plain (fun _ => []) p.1 p.2 := by
  have hupdates : (buildValidatorUpdates .plain exactFloats mixedView).1 = .ok [] := by decide +kernel
  have hpenalties : (maybeApplyEvidencePenalties .plain (fun _ => []) exactDecimals penaltyRuntime plainCall
      accusedBlock mixedView).1 = .ok true := by decide +kernel
  exact (returnsNormally_iff (.inl (by decide +kernel))).1
    ⟨⟨_, hupdates⟩, ⟨_, hpenalties⟩, selectValidators_skips _ _, fun items a _ => resolveLoop_skips a items⟩

/-- The validator's power and the registry, as stored, and a record of the node's. -/
def storedData (power registry : Value) : DriverView := storedView
  [(consensusValidatorsKey, .dict [(bytesHex firstKey, .int 10)]),
    (activeValidatorsKey, .list [.str (bytesHex firstKey)]), (powersKey (bytesHex firstKey), power),
    (validatorRegistryKey, registry)]

theorem nodeRecord_storedData (power registry : Value) :
    NodeRecord ((storedData power registry).committed consensusValidatorsKey) := by
  refine .inr ⟨.ofList [(bytesHex firstKey, 10)], ?_, ?_⟩
  · intro k hk
    obtain rfl : k = bytesHex firstKey := by simpa [PyDict.keys, PyDict.ofList, PyDict.update, PyDict.set,
      PyDict.setItems, PyDict.empty] using hk
    exact ⟨firstKey, rfl⟩
  · simp only [storedData, storedView, List.lookup_cons_self, Option.getD_some]
    rfl

/-- Under a record of the node's own, a power stored as text, a power of 2⁶³, a number in the registry and
a number for a registry each stop the block. -/
theorem validator_data_aborts :
    (∀ power registry, NodeRecord ((storedData power registry).committed consensusValidatorsKey)) ∧
    (buildValidatorUpdates .plain exactFloats (storedData (.str "10") .none)).1 =
      .error (.typeError "'<=' not supported between instances") ∧
    (buildValidatorUpdates .plain exactFloats (storedData (.int (2 ^ 63)) .none)).1 =
      .error (.valueError "Value out of range: 9223372036854775808") ∧
    (maybeApplyEvidencePenalties .plain (fun _ => []) exactDecimals penaltyRuntime plainCall accusedBlock
      (storedData (.int 10) (.list [.int 7, .str (bytesHex firstKey)]))).1 =
      .error (.typeError "fromhex() argument must be str or bytes-like") ∧
    (maybeApplyEvidencePenalties .plain (fun _ => []) exactDecimals penaltyRuntime plainCall accusedBlock
      (storedData (.int 10) (.int 7))).1 = .error (.typeError "object is not iterable") := by
  refine ⟨nodeRecord_storedData, ?_, ?_, ?_, ?_⟩ <;> decide +kernel

end XianAbci
