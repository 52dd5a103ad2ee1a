import XianAbci.ValidatorData

/-!
# Order and spelling of the active list

`validators.active_validators` is a list, kept by a contract in the order of its calls, and a key may stand in it
several times and in several spellings. `SelectedFrom` fixes the selection by the keys listed and their powers, so
lists that name the same keys with the same powers select the same map, or none.
-/

namespace XianAbci

section Order

variable (B : Builtins) (F : FloatOps) (read : String → Value)

/-- The store with another active list. -/
def withActive (items : List Value) (key : String) : Value := if key = activeValidatorsKey then .list items else read key

/-- Each key of the first list is a key of the second, with its power there, in whatever spelling. -/
def Names (items items' : List Value) : Prop :=
  ∀ v, Value.str v ∈ items → vkIsFormatted v → ∃ w, Value.str w ∈ items' ∧ vkIsFormatted w ∧ lowerHex w = lowerHex v ∧
    validatorPower F (read (powersKey w)) = validatorPower F (read (powersKey v))

/-- The same map, or none, as Python compares dicts. -/
def SameSelection : Option (PyDict String Int) → Option (PyDict String Int) → Prop
  | none, none => True
  | some selected, some selected' => ∀ key, selected.get? key = selected'.get? key
  | _, _ => False

variable {B F read}

theorem powersKey_ne_active (v : String) : powersKey v ≠ activeValidatorsKey := by
  intro h
  have hlist := congrArg (fun s => s.toList[11]?) h
  rw [show (powersKey v).toList = "validators.powers:".toList ++ v.toList from String.toList_append] at hlist
  cases hlist

@[simp] theorem withActive_powersKey (items : List Value) (v : String) :
    withActive read items (powersKey v) = read (powersKey v) :=
  if_neg (powersKey_ne_active v)

theorem chosen_withActive {items listed : List Value} {k : String} {p : Int} :
    Chosen F (withActive read items) listed k p ↔ Chosen F read listed k p := by
  simp only [Chosen, withActive_powersKey]

theorem conflict_withActive {items listed : List Value} :
    Conflict F (withActive read items) listed ↔ Conflict F read listed := by
  simp only [Conflict, chosen_withActive]

theorem getValidatorsFromState_withActive (items : List Value) :
    getValidatorsFromState B F (withActive read items) = selectValidators F (withActive read items) items .empty := by
  have hlist : orDefault B (.list items) (.list []) = .list items := by
    unfold orDefault
    rw [B.truthy_list]
    cases items <;> rfl
  unfold getValidatorsFromState
  rw [show withActive read items activeValidatorsKey = .list items from if_pos rfl, hlist]

theorem Chosen.names {items items' : List Value} {k : String} {p : Int} (h : Chosen F read items k p)
    (hnames : Names F read items items') : Chosen F read items' k p := by
  obtain ⟨v, hv, hformatted, rfl, hp⟩ := h
  obtain ⟨w, hw, hwformatted, hkey, hpower⟩ := hnames v hv hformatted
  exact ⟨w, hw, hwformatted, hkey, hpower.trans hp⟩

theorem Conflict.names {items items' : List Value} (h : Conflict F read items) (hnames : Names F read items items') :
    Conflict F read items' := by
  obtain ⟨k, p, q, hp, hq, hne⟩ := h
  exact ⟨k, p, q, hp.names hnames, hq.names hnames, hne⟩

/-- A list that repeats entries, has them in another order or leaves out what is no key names the same keys. -/
theorem Names.of_identities {items items' : List Value} (h : ∀ x ∈ items, isIdentity x → x ∈ items') :
    Names F read items items' :=
  fun v hv hformatted => ⟨v, h _ hv hformatted, hformatted, rfl, rfl⟩

/-- Where the powers are numbers the loop does not raise, and gives what its list says. -/
theorem getValidatorsFromState_selects (hpowers : ∀ v, IsPower F (read (powersKey v))) (items : List Value) :
    ∃ selected, getValidatorsFromState B F (withActive read items) = .ok selected ∧
      (selected = none ↔ Conflict F read items) ∧
      ∀ d, selected = some d → ∀ k p, d.get? k = some p ↔ Chosen F read items k p := by
  have houtcome := selectValidators_outcome F (withActive read items) items
  rw [← getValidatorsFromState_withActive (B := B)] at houtcome
  rcases hselected : getValidatorsFromState B F (withActive read items) with e | _ | d
  · rw [hselected] at houtcome
    refine absurd ?_ houtcome
    intro pre v post _ _ _
    rw [withActive_powersKey]
    exact hpowers v
  · rw [hselected] at houtcome
    refine ⟨none, rfl, iff_of_true rfl (conflict_withActive.1 houtcome.1), ?_⟩
    intro d hd
    cases hd
  · rw [hselected] at houtcome
    refine ⟨some d, rfl, iff_of_false (Option.some_ne_none d) fun h => houtcome.1.agree (conflict_withActive.2 h), ?_⟩
    intro d' hd' k p
    obtain rfl := Option.some.inj hd'
    rw [houtcome.1.get, chosen_withActive]

/-- What two spellings of a key with different powers are. -/
theorem conflict_iff_aliases (hpowers : ∀ v, IsPower F (read (powersKey v))) {items : List Value} :
    Conflict F read items ↔ ∃ v w, Value.str v ∈ items ∧ Value.str w ∈ items ∧ vkIsFormatted v ∧ vkIsFormatted w ∧
      lowerHex v = lowerHex w ∧ validatorPower F (read (powersKey v)) ≠ validatorPower F (read (powersKey w)) := by
  constructor
  · rintro ⟨k, p, q, ⟨v, hv, hvformatted, hvk, hp⟩, ⟨w, hw, hwformatted, hwk, hq⟩, hne⟩
    refine ⟨v, w, hv, hw, hvformatted, hwformatted, hvk.trans hwk.symm, fun hsame => hne ?_⟩
    rw [hp, hq] at hsame
    exact Except.ok.inj hsame
  · rintro ⟨v, w, hv, hw, hvformatted, hwformatted, hkey, hne⟩
    obtain ⟨p, hp⟩ := validatorPower_ok_iff.2 (hpowers v)
    obtain ⟨q, hq⟩ := validatorPower_ok_iff.2 (hpowers w)
    refine ⟨lowerHex v, p, q, ⟨v, hv, hvformatted, rfl, hp⟩, ⟨w, hw, hwformatted, hkey.symm, hq⟩, ?_⟩
    rintro rfl
    exact hne (hp.trans hq.symm)

theorem sameSelection_of_names {items items' : List Value} (hpowers : ∀ v, IsPower F (read (powersKey v)))
    (hto : Names F read items items') (hfrom : Names F read items' items) {selected selected' : Option (PyDict String Int)}
    (h : getValidatorsFromState B F (withActive read items) = .ok selected)
    (h' : getValidatorsFromState B F (withActive read items') = .ok selected') : SameSelection selected selected' := by
  obtain ⟨s, hs, hnone, hget⟩ := getValidatorsFromState_selects (B := B) hpowers items
  obtain ⟨s', hs', hnone', hget'⟩ := getValidatorsFromState_selects (B := B) hpowers items'
  obtain rfl : s = selected := Except.ok.inj (hs.symm.trans h)
  obtain rfl : s' = selected' := Except.ok.inj (hs'.symm.trans h')
  have hconflict : s = none ↔ s' = none := by
    rw [hnone, hnone']
    exact ⟨fun hc => hc.names hto, fun hc => hc.names hfrom⟩
  rcases s with _ | d <;> rcases s' with _ | d'
  · trivial
  · cases hconflict.1 rfl
  · cases hconflict.2 rfl
  · intro k
    refine Option.ext fun p => ?_
    rw [hget d rfl, hget' d' rfl]
    exact ⟨fun hc => hc.names hto, fun hc => hc.names hfrom⟩

end Order

/-- In every store whose powers are numbers or absent the selection is what the list names: none exactly where two
spellings of a key have different powers, wherever they stand, and otherwise one entry for each key that is listed.
So an order, a repetition, another spelling with the same power or an entry that is no key makes no difference. -/
theorem validator_selection_order_free (B : Builtins) (F : FloatOps) (read : String → Value)
    (hpowers : ∀ v, IsPower F (read (powersKey v))) (items : List Value) :
    ∃ selected, getValidatorsFromState B F (withActive read items) = .ok selected ∧
      (selected = none ↔ ∃ v w, Value.str v ∈ items ∧ Value.str w ∈ items ∧ vkIsFormatted v ∧ vkIsFormatted w ∧
        lowerHex v = lowerHex w ∧ validatorPower F (read (powersKey v)) ≠ validatorPower F (read (powersKey w))) ∧
      (∀ d, selected = some d → ∀ k p, d.get? k = some p ↔ ∃ v, Value.str v ∈ items ∧ vkIsFormatted v ∧ lowerHex v = k ∧
        validatorPower F (read (powersKey v)) = .ok p) ∧
      (∀ items', Names F read items items' → Names F read items' items → ∃ selected',
        getValidatorsFromState B F (withActive read items') = .ok selected' ∧ SameSelection selected selected') ∧
      ∀ items', (∀ x, isIdentity x → (x ∈ items ↔ x ∈ items')) → ∃ selected',
        getValidatorsFromState B F (withActive read items') = .ok selected' ∧ SameSelection selected selected' := by
  obtain ⟨selected, hselected, hnone, hget⟩ := getValidatorsFromState_selects (B := B) hpowers items
  have hnames : ∀ items', Names F read items items' → Names F read items' items → ∃ selected',
      getValidatorsFromState B F (withActive read items') = .ok selected' ∧ SameSelection selected selected' := by
    intro items' hto hfrom
    obtain ⟨selected', hselected', -⟩ := getValidatorsFromState_selects (B := B) hpowers items'
    exact ⟨selected', hselected', sameSelection_of_names hpowers hto hfrom hselected hselected'⟩
  refine ⟨selected, hselected, ?_, hget, hnames, fun items' hsame => hnames items' ?_ ?_⟩
  · rw [hnone, conflict_iff_aliases hpowers]
  · exact .of_identities fun x hx hidentity => (hsame x hidentity).1 hx
  · exact .of_identities fun x hx hidentity => (hsame x hidentity).2 hx

def capitalKey : String := "AB" ++ bytesHex (firstKey.drop 1)
def smallKey : String := "ab" ++ bytesHex (firstKey.drop 1)

/-- One spelling has a power of its own. -/
def aliasedPowers (key : String) : Value := if key = powersKey capitalKey then .int 25 else .none

theorem aliased_selection_none : ∃ selected, getValidatorsFromState .plain exactFloats
    (withActive aliasedPowers [.str smallKey, .int 7, .str capitalKey]) = .ok selected ∧ selected = none := by
  have hpowers : ∀ v, IsPower exactFloats (aliasedPowers (powersKey v)) := by
    intro v
    unfold aliasedPowers
    split <;> trivial
  obtain ⟨selected, hselected, hnone, -⟩ := validator_selection_order_free .plain exactFloats aliasedPowers hpowers
    [.str smallKey, .int 7, .str capitalKey]
  refine ⟨selected, hselected, hnone.2 ⟨smallKey, capitalKey, by simp, by simp, ?_⟩⟩
  decide +kernel

end XianAbci
