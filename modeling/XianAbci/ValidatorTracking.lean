import XianAbci.Validators

/-!
# CometBFT's validator set and the node's record

The updates of a block are the difference between the recorded set and the selected one, so folding
them over CometBFT's set gives the set that is recorded next. That needs every selected power to be at
least 1 (a power of 0 is a removal), which fails for a power strictly between 0 and 1, and a record
that only `build_validator_updates` writes.
-/

namespace XianAbci

/-- CometBFT's set: a power for each public key in it. -/
abbrev CometSet := Bytes → Option Int

/-- Power 0 removes. -/
def CometSet.apply (set : CometSet) (u : ValidatorUpdate) : CometSet := fun pubKey =>
  if pubKey = u.pubKey then if u.power = 0 then none else some u.power else set pubKey

def CometSet.applyAll (set : CometSet) (updates : List ValidatorUpdate) : CometSet := updates.foldl CometSet.apply set

/-- A power that `int` rounds to zero. -/
def Fractional (F : FloatOps) : Value → Prop
  | .decimal d => 0 < d.units ∧ d.units < 10 ^ 30
  | .pyDecimal units scale => 0 < units ∧ units < 10 ^ scale
  | .float repr => F.nonPositive repr = false ∧ F.toInt repr = .ok 0
  | _ => False

/-- Keys in the spelling of the record. -/
def KeysFormatted (d : PyDict String Int) : Prop := ∀ k ∈ d.keys, ∃ pubKey, k = bytesHex pubKey

/-- A set CometBFT can have. -/
structure ValidSet (d : PyDict String Int) : Prop where
  keys : KeysFormatted d
  powers : ∀ k p, d.get? k = some p → 1 ≤ p

section Selection

variable {F : FloatOps} {read : String → Value}

theorem decimalPower_pos {units : Int} {scale : Nat} (h : ¬ (0 < units ∧ units < 10 ^ scale)) :
    1 ≤ decimalPower units scale := by
  unfold decimalPower
  split
  · decide
  · have hle : (10 : Int) ^ scale ≤ units := by
      by_contra hlt
      exact h ⟨by omega, by omega⟩
    exact Int.le_ediv_of_mul_le (by positivity) (by omega)

theorem validatorPower_pos {v : Value} {p : Int} (h : validatorPower F v = .ok p) (hv : ¬ Fractional F v) : 1 ≤ p := by
  rcases v with _ | b | i | repr | s | d | ⟨units, scale⟩ | _ | _ | _ | _ | _ | _ | _ | _ | _ <;>
    simp only [validatorPower, reduceCtorEq, Except.ok.injEq] at h
  · rw [← h]; decide
  · rw [← h]; split <;> decide
  · rw [← h]
    split
    · decide
    · omega
  · split at h
    · cases h; decide
    · rename_i hpos
      have hnonneg := F.toInt_nonneg repr p (by simpa using hpos) h
      have hzero : p ≠ 0 := fun h0 => hv ⟨by simpa using hpos, by rw [h, h0]⟩
      omega
  · rw [← h]; exact decimalPower_pos hv
  · rw [← h]; exact decimalPower_pos hv

/-- A selection holds keys of the list with the powers read for them. -/
theorem selectValidators_spec (items : List Value) {desired selected : PyDict String Int}
    (hd : ValidSet desired)
    (hpowers : ∀ v, Value.str v ∈ items → vkIsFormatted v → ¬ Fractional F (read (powersKey v)))
    (h : selectValidators F read items desired = .ok (some selected)) : ValidSet selected := by
  induction items generalizing desired with
  | nil => cases h; exact hd
  | cons item rest ih =>
    have hrest : ∀ v, Value.str v ∈ rest → vkIsFormatted v → ¬ Fractional F (read (powersKey v)) :=
      fun v hv => hpowers v (List.mem_cons_of_mem _ hv)
    unfold selectValidators at h
    split at h
    · cases h; exact hd
    · rename_i v rest' heq
      cases heq
      split at h
      · exact ih hd hrest h
      · rename_i hfmt
        have hv : vkIsFormatted v := by simpa using hfmt
        rcases hp : validatorPower F (read (powersKey v)) with e | power
        · rw [hp] at h; cases h
        rw [hp] at h
        dsimp only at h
        split at h
        · cases h
        refine ih ⟨fun k hk => ?_, fun k p hk => ?_⟩ hrest h
        · obtain ⟨p, hp⟩ := PyDict.mem_keys_iff.1 hk
          rw [PyDict.get?_set] at hp
          split at hp
          · rename_i hkv; rw [hkv]; exact lowerHex_of_formatted hv
          · exact hd.keys k (PyDict.mem_keys_iff.2 ⟨p, hp⟩)
        · rw [PyDict.get?_set] at hk
          split at hk
          · cases hk
            exact validatorPower_pos hp (hpowers v (List.mem_cons_self ..) hv)
          · exact hd.powers k p hk
    · rename_i heq
      cases heq
      exact ih hd hrest h

end Selection

/-! ### The updates are the difference -/

section Updates

variable {c d : PyDict String Int}

theorem lookup_validatorSetValue (c : PyDict String Int) (k : String) :
    (c.items.map fun p => (p.1, Value.int p.2)).lookup k = (c.get? k).map Value.int :=
  PyDict.get?_mapValues (d := c) Value.int

theorem get_validatorSetValue (c : PyDict String Int) (k : String) :
    (validatorSetValue c).get k .none = .ok (((c.get? k).map Value.int).getD .none) := by
  rw [validatorSetValue, Value.get, lookup_validatorSetValue]

theorem samePower_committed (c : PyDict String Int) (k : String) (p : Int) :
    samePower (((c.get? k).map Value.int).getD .none) (.int p) = decide (c.get? k = some p) := by
  rcases c.get? k with _ | q
  · rfl
  · simp [samePower, powerNumber]

/-- An update as a change of the record; power 0 removes. -/
def ValidatorUpdate.change (u : ValidatorUpdate) : String × Option Int :=
  (bytesHex u.pubKey, if u.power = 0 then none else some u.power)

theorem validatorUpdate_change {k : String} {p : Int} {u : ValidatorUpdate} (hk : ∃ pubKey, k = bytesHex pubKey)
    (h : validatorUpdate k (.int p) = .ok u) : u.change = (k, if p = 0 then none else some p) := by
  obtain ⟨pubKey, rfl⟩ := hk
  simp only [validatorUpdate, bytesFromHex_bytesHex, bind_eq_ok, Except.ok.injEq, require_eq_ok] at h
  obtain ⟨_, rfl, -, -, h⟩ := h
  cases h
  rfl

theorem changedUpdates_change (l : List (String × Int))
    (hl : ∀ p ∈ l, (∃ pubKey, p.1 = bytesHex pubKey) ∧ p.2 ≠ 0) {us : List ValidatorUpdate}
    (h : changedUpdates (validatorSetValue c) (l.map fun p => (p.1, .int p.2)) = .ok us) :
    us.map ValidatorUpdate.change = (l.filter fun p => c.get? p.1 ≠ some p.2).map fun p => (p.1, some p.2) := by
  induction l generalizing us with
  | nil => cases h; rfl
  | cons p rest ih =>
    obtain ⟨k, power⟩ := p
    obtain ⟨hk, hpower⟩ := hl (k, power) (List.mem_cons_self ..)
    have hrest := fun q hq => hl q (List.mem_cons_of_mem _ hq)
    rw [List.map_cons] at h
    unfold changedUpdates at h
    simp only [get_validatorSetValue, bind_eq_ok, Except.ok.injEq, exists_eq_left', samePower_committed] at h
    by_cases hsame : c.get? k = some power
    · simp only [hsame, decide_true, ↓reduceIte] at h
      rw [ih hrest h, List.filter_cons_of_neg (by simp [hsame])]
    · simp only [hsame, decide_false, Bool.false_eq_true, ↓reduceIte, bind_eq_ok] at h
      obtain ⟨u, hu, us', hus', h⟩ := h
      cases h
      rw [List.filter_cons_of_pos (by simp [hsame]), List.map_cons, List.map_cons, ih hrest hus',
        validatorUpdate_change hk hu, if_neg hpower]

theorem removedUpdates_change (l : List String) (hl : ∀ k ∈ l, ∃ pubKey, k = bytesHex pubKey)
    {us : List ValidatorUpdate}
    (h : removedUpdates (d.items.map fun p => (p.1, .int p.2)) l = .ok us) :
    us.map ValidatorUpdate.change = (l.filter fun k => k ∉ d.keys).map fun k => (k, none) := by
  have hkeys : (d.items.map fun p => (p.1, Value.int p.2)).map Prod.fst = d.keys := by
    rw [List.map_map]; rfl
  induction l generalizing us with
  | nil => cases h; rfl
  | cons k rest ih =>
    have hrest := fun q hq => hl q (List.mem_cons_of_mem _ hq)
    unfold removedUpdates at h
    rw [hkeys] at h
    by_cases hk : k ∈ d.keys
    · rw [if_pos hk] at h
      rw [ih hrest h, List.filter_cons_of_neg (by simp [hk])]
    · rw [if_neg hk] at h
      simp only [bind_eq_ok] at h
      obtain ⟨u, hu, us', hus', h⟩ := h
      cases h
      rw [List.filter_cons_of_pos (by simp [hk]), List.map_cons, List.map_cons, ih hrest hus',
        validatorUpdate_change (hl k (List.mem_cons_self ..)) hu, if_pos rfl]

theorem validatorUpdates_change (hc : ValidSet c) (hd : ValidSet d) {us : List ValidatorUpdate}
    (h : validatorUpdates (validatorSetValue d) (validatorSetValue c) = .ok us) :
    us.map ValidatorUpdate.change = PyDict.diff c d := by
  simp only [validatorUpdates, validatorSetValue, Value.items, bind_eq_ok, Except.ok.injEq, exists_eq_left'] at h
  obtain ⟨changed, hchanged, removed, hremoved, h⟩ := h
  cases h
  rw [List.map_append, PyDict.diff]
  congr 1
  · refine changedUpdates_change d.items (fun p hp => ⟨hd.keys p.1 ?_, ?_⟩) hchanged
    · exact PyDict.mem_keys_iff.2 ⟨p.2, PyDict.mem_items_iff.1 hp⟩
    · have := hd.powers p.1 p.2 (PyDict.mem_items_iff.1 hp)
      omega
  · rw [List.map_map] at hremoved
    exact removedUpdates_change c.keys hc.keys hremoved

/-- CometBFT's set, read by the record's keys. -/
def Tracks (set : CometSet) (d : PyDict String Int) : Prop := ∀ pubKey, set pubKey = d.get? (bytesHex pubKey)

theorem Tracks.applyAll (us : List ValidatorUpdate) {set : CometSet} (h : Tracks set c) :
    Tracks (set.applyAll us) (c.patch (us.map ValidatorUpdate.change)) := by
  induction us generalizing set c with
  | nil => exact h
  | cons u rest ih =>
    have hu : Tracks (set.apply u) (c.patch [u.change]) := by
      intro pubKey
      rw [PyDict.get?_patch, CometSet.apply, h]
      show _ = (List.lookup (bytesHex pubKey) [u.change]).getD _
      rw [ValidatorUpdate.change, PyDict.lookup_cons_ite]
      by_cases hk : pubKey = u.pubKey
      · rw [if_pos hk, if_pos (congrArg bytesHex hk)]; rfl
      · rw [if_neg hk, if_neg fun heq => hk (bytesHex_injective heq)]; rfl
    exact ih hu

theorem Tracks.congr {set : CometSet} (h : Tracks set c) (heq : ∀ k, c.get? k = d.get? k) : Tracks set d :=
  fun pubKey => by rw [h, heq]

theorem ValidSet.diff_self (c : PyDict String Int) : PyDict.diff c c = [] := by
  refine List.eq_nil_iff_forall_not_mem.2 fun p hp => ?_
  rcases List.mem_append.1 hp with hp | hp
  · obtain ⟨w, -, hnew, hold⟩ := PyDict.mem_changed.1 hp
    exact hold hnew
  · exact (PyDict.mem_dropped.1 hp).2.2 (PyDict.mem_dropped.1 hp).2.1

theorem Tracks.validatorUpdates {set : CometSet} {us : List ValidatorUpdate} (hc : ValidSet c) (hd : ValidSet d)
    (h : Tracks set c) (hus : validatorUpdates (validatorSetValue d) (validatorSetValue c) = .ok us) :
    Tracks (set.applyAll us) d ∧ ∀ u ∈ us, u.power = 0 → set u.pubKey ≠ none := by
  have hchange := validatorUpdates_change hc hd hus
  constructor
  · refine (h.applyAll us).congr fun k => ?_
    rw [hchange, PyDict.get?_patch_diff]
  · intro u hu hzero
    have hmem : u.change ∈ PyDict.diff c d := hchange ▸ List.mem_map_of_mem hu
    rw [ValidatorUpdate.change, if_pos hzero] at hmem
    rcases List.mem_append.1 hmem with hmem | hmem
    · obtain ⟨w, hw, -⟩ := PyDict.mem_changed.1 hmem
      cases hw
    · obtain ⟨p, hp⟩ := PyDict.mem_keys_iff.1 (PyDict.mem_dropped.1 hmem).2.1
      rw [h, hp]
      exact Option.some_ne_none p

end Updates

/-! ### Runs of blocks -/

section Runs

variable (B : Builtins) (F : FloatOps) (H : BlockHooks) {D : Type} [Driver D]

/-- The view `build_validator_updates` has of a block. -/
def CommittedBlock.selectionView {n n' : Node D} {req : FinalizeRequest} (c : CommittedBlock H n req n') :
    DriverView := (driverView n.driver).overwrite c.sets.beforeValidators

/-- What a block must keep to: no selected key has a power between 0 and 1, contracts and patches leave
the record alone, and patches leave the selection alone while CometBFT has no validator at all (they run
after it is read). -/
structure KeepsRecord {n n' : Node D} {req : FinalizeRequest} (set : CometSet) (c : CommittedBlock H n req n') :
    Prop where
  powers : ∀ items v, (c.selectionView H).current activeValidatorsKey = .list items → Value.str v ∈ items →
    vkIsFormatted v → ¬ Fractional F ((c.selectionView H).current (powersKey v))
  contracts : consensusValidatorsKey ∉ c.sets.beforeValidators.map Prod.fst
  patches : consensusValidatorsKey ∉ c.sets.patches.map Prod.fst
  bootstrap : (∀ pubKey, set pubKey = none) →
    activeValidatorsKey ∉ c.sets.patches.map Prod.fst ∧ ∀ v, powersKey v ∉ c.sets.patches.map Prod.fst

/-- The nodes reached by blocks that keep to it, each with the set CometBFT then has. -/
inductive ValidatorRun (n₀ : Node D) (set₀ : CometSet) : Node D → CometSet → Prop
  | start : ValidatorRun n₀ set₀ n₀ set₀
  | block {n n' set req} (c : CommittedBlock H n req n') : ValidatorRun n₀ set₀ n set →
      finalizeAndCommit B H n req = some n' → KeepsRecord F H set c →
      ValidatorRun n₀ set₀ n' (set.applyAll c.response.validatorUpdates)

/-- CometBFT's set is the one the node computes its next updates against. -/
structure InStep (n : Node D) (set : CometSet) (d : PyDict String Int) : Prop where
  pending : Driver.pending n.driver = .empty
  committed : committedValidators B F (driverView n.driver).committed = .ok (validatorSetValue d)
  present : (Driver.durable n.driver).get? consensusValidatorsKey ≠ some .none
  valid : ValidSet d
  tracks : Tracks set d

/-- The record in the store is the set; without one the set is empty. -/
def Recorded (n : Node D) (d : PyDict String Int) : Prop :=
  (Driver.durable n.driver).get? consensusValidatorsKey = some (validatorSetValue d) ∨
    (Driver.durable n.driver).get? consensusValidatorsKey = none ∧ d = .empty

variable {B F H}

theorem buildValidatorUpdates_ok {view : DriverView} {us : List ValidatorUpdate} {sets : List (String × Value)}
    (h : buildValidatorUpdates B F view = (.ok us, sets)) :
    ∃ selected committed, getValidatorsFromState B F view.current = .ok selected ∧
      committedValidators B F view.committed = .ok committed ∧
      validatorUpdates (effectiveValidators selected committed) committed = .ok us ∧
      sets = if recordTruthy B (effectiveValidators selected committed) then
        [(consensusValidatorsKey, effectiveValidators selected committed)] else [] := by
  obtain ⟨selected, s₀, s₁, hselected, h₁, hsets⟩ := BlockM.bind_ok h
  obtain ⟨hsel, hs₀⟩ := Prod.mk.inj hselected
  rw [← hs₀, DriverView.overwrite_nil] at h₁
  obtain ⟨committed, s₂, s₃, hcommitted, h₂, hs₁⟩ := BlockM.bind_ok h₁
  obtain ⟨hcom, hs₂⟩ := Prod.mk.inj hcommitted
  rw [← hs₂, DriverView.overwrite_nil] at h₂
  refine ⟨selected, committed, hsel, hcom, ?_⟩
  rw [← hs₀, List.nil_append] at hsets
  rw [← hs₂, List.nil_append] at hs₁
  dsimp only at h₂
  obtain ⟨_, s₄, s₅, hset, hlift, hs₃⟩ := BlockM.bind_ok h₂
  obtain ⟨hus, hs₅⟩ := Prod.mk.inj hlift
  refine ⟨hus, ?_⟩
  rw [hsets, hs₁, hs₃, ← hs₅, List.append_nil]
  unfold recordValidators at hset
  split at hset
  · rename_i htrue
    rw [if_pos htrue]; exact (Prod.mk.inj hset).2.symm
  · rename_i hfalse
    rw [if_neg hfalse]; exact (Prod.mk.inj hset).2.symm

theorem validatorSetValue_ne_none (d : PyDict String Int) : validatorSetValue d ≠ .none := fun h => by cases h

theorem recordTruthy_validatorSetValue (d : PyDict String Int) :
    recordTruthy B (validatorSetValue d) = !d.isEmpty := by
  rw [validatorSetValue, recordTruthy, PyDict.isEmpty, List.isEmpty_map]

variable {n n' : Node D} {req : FinalizeRequest} {set : CometSet} {d : PyDict String Int}

/-- The selection of a block that keeps to the conditions. -/
theorem KeepsRecord.selected {c : CommittedBlock H n req n'} (hkeeps : KeepsRecord F H set c)
    {selected : PyDict String Int}
    (h : getValidatorsFromState B F (c.selectionView H).current = .ok (some selected)) : ValidSet selected := by
  have hempty : ValidSet .empty := ⟨fun k hk => (by cases hk), fun k p hk => (by cases hk)⟩
  unfold getValidatorsFromState orDefault at h
  split at h
  · rename_i items heq
    split at heq
    · exact selectValidators_spec items hempty (fun v hv => hkeeps.powers items v heq hv) h
    · cases heq
      cases h
      exact hempty
  · cases h

/-- What the node reads from disk under a key that only the stages before the updates may have set. -/
theorem CommittedBlock.committed_of_notMem (c : CommittedBlock H n req n') (hstored : ∀ v, Driver.stored D v = v)
    (hpend : Driver.pending n.driver = .empty) {k : String} (hk : k ≠ latestBlockKey)
    (hval : k ∉ c.sets.validators.map Prod.fst) (hpat : k ∉ c.sets.patches.map Prod.fst) :
    (driverView n'.driver).committed k = (c.selectionView H).current k := by
  rw [c.committed_eq hstored hpend hk, StageSets.all, ← DriverView.overwrite_append,
    DriverView.current_overwrite hpat, ← DriverView.overwrite_append, DriverView.current_overwrite hval]
  rfl

theorem selectValidators_congr {read read' : String → Value} (h : ∀ v, read (powersKey v) = read' (powersKey v))
    (items : List Value) (desired : PyDict String Int) :
    selectValidators F read items desired = selectValidators F read' items desired := by
  induction items generalizing desired with
  | nil => rfl
  | cons item rest ih =>
    rcases item with _ | _ | _ | _ | v | _ | _ | _ | _ | _ | _ | _ | _ | _ | _ | _ <;> try exact ih desired
    show selectValidators F read (.str v :: rest) desired = selectValidators F read' (.str v :: rest) desired
    unfold selectValidators
    simp only [h, ih]

theorem getValidatorsFromState_congr {read read' : String → Value}
    (hactive : read activeValidatorsKey = read' activeValidatorsKey)
    (hpowers : ∀ v, read (powersKey v) = read' (powersKey v)) :
    getValidatorsFromState B F read = getValidatorsFromState B F read' := by
  unfold getValidatorsFromState
  rw [hactive]
  split
  · exact selectValidators_congr hpowers _ _
  · rfl

theorem powersKey_ne {k : String} (v : String) (hk : ¬ "validators.p".toList <+: k.toList) : powersKey v ≠ k := by
  rintro rfl
  have hprefix : "validators.p".toList <+: "validators.powers:".toList := by decide +kernel
  refine hk ?_
  unfold powersKey
  rw [String.toList_append]
  exact hprefix.trans (List.prefix_append ..)

theorem isEmpty_iff {d : PyDict String Int} : d.isEmpty = true ↔ d = .empty := by
  rw [PyDict.isEmpty, List.isEmpty_iff]
  exact ⟨fun h => PyDict.ext_items h, fun h => h ▸ rfl⟩

theorem isEmpty_eq_false {d : PyDict String Int} (h : d ≠ .empty) : d.isEmpty = false :=
  Bool.eq_false_iff.2 fun he => h (isEmpty_iff.1 he)

/-- The set a block makes effective: the selection, or what was recorded. -/
theorem effective_cases (selected : Option (PyDict String Int)) (d : PyDict String Int) :
    (∃ desired, selected = some desired ∧ desired ≠ .empty ∧
      effectiveValidators selected (validatorSetValue d) = validatorSetValue desired) ∨
    (selected.getD .empty = .empty ∧ effectiveValidators selected (validatorSetValue d) = validatorSetValue d) := by
  rcases selected with _ | desired
  · exact .inr ⟨rfl, rfl⟩
  · by_cases h : desired.isEmpty
    · exact .inr ⟨isEmpty_iff.1 h, by rw [effectiveValidators, if_pos h]⟩
    · exact .inl ⟨desired, rfl, fun he => h (isEmpty_iff.2 he), by rw [effectiveValidators, if_neg h]⟩

theorem committed_of_durable {k : String} {v : Value} (h : (Driver.durable n.driver).get? k = some v) :
    (driverView n.driver).committed k = v := by
  show ((Driver.durable n.driver).get? k).getD .none = v
  rw [h]; rfl

theorem committedValidators_of_record {committed : String → Value} {d : PyDict String Int}
    (h : committed consensusValidatorsKey = validatorSetValue d) :
    committedValidators B F committed = .ok (validatorSetValue d) := by
  rw [committedValidators, h]; rfl

/-- What the store holds under the record's key after a block that leaves it to the node. -/
theorem KeepsRecord.durable {c : CommittedBlock H n req n'} (hkeeps : KeepsRecord F H set c) :
    (Driver.durable n'.driver).get? consensusValidatorsKey = committedValue (Driver.stored D)
      ((Driver.durable n.driver).get? consensusValidatorsKey)
      (c.sets.validators.reverse.lookup consensusValidatorsKey) := by
  have hne : consensusValidatorsKey ≠ latestBlockKey := by decide
  have hbefore : c.sets.beforeValidators.reverse.lookup consensusValidatorsKey = none :=
    PyDict.lookup_eq_none (by rw [List.map_reverse, List.mem_reverse]; exact hkeeps.contracts)
  have hpatches : c.sets.patches.reverse.lookup consensusValidatorsKey = none :=
    PyDict.lookup_eq_none (by rw [List.map_reverse, List.mem_reverse]; exact hkeeps.patches)
  rw [c.durable, if_neg hne, StageSets.all, List.reverse_append, List.reverse_append, List.lookup_append,
    List.lookup_append, hbefore, hpatches, Option.none_or, Option.or_none]

theorem InStep.block (hbuild : H.buildValidatorUpdates = fun _ => buildValidatorUpdates B F)
    (hstored : ∀ v, Driver.stored D v = v) (h : InStep B F n set d) (c : CommittedBlock H n req n')
    (hkeeps : KeepsRecord F H set c) :
    ∃ d', InStep B F n' (set.applyAll c.response.validatorUpdates) d' ∧ Recorded n' d' ∧
      (d ≠ .empty → d' ≠ .empty) ∧
      ∀ u ∈ c.response.validatorUpdates, u.power = 0 → set u.pubKey ≠ none := by
  have hstage := c.stages.validators
  rw [hbuild] at hstage
  obtain ⟨selected, committed, hselected, hcommitted, hus, hsets⟩ := buildValidatorUpdates_ok hstage
  obtain rfl : committed = validatorSetValue d := Except.ok.inj (hcommitted.symm.trans h.committed)
  rw [← c.updates] at hus
  rcases effective_cases selected d with ⟨desired, rfl, hne, heff⟩ | ⟨hnone, heff⟩
  · -- a selection replaces the record
    rw [heff] at hus hsets
    have hvalid : ValidSet desired := hkeeps.selected hselected
    obtain ⟨htracks, hremoved⟩ := h.tracks.validatorUpdates h.valid hvalid hus
    rw [recordTruthy_validatorSetValue, if_pos (by rw [Bool.not_eq_true', isEmpty_eq_false hne])] at hsets
    have hdurable : (Driver.durable n'.driver).get? consensusValidatorsKey = some (validatorSetValue desired) := by
      rw [hkeeps.durable, hsets, List.reverse_singleton, PyDict.lookup_cons_ite, if_pos rfl, committedValue,
        if_neg (validatorSetValue_ne_none _), hstored]
    refine ⟨desired, ⟨c.pending, committedValidators_of_record (committed_of_durable hdurable), ?_, hvalid, htracks⟩,
      .inl hdurable, fun _ => hne, hremoved⟩
    · rw [hdurable]; exact fun heq => validatorSetValue_ne_none _ (Option.some.inj heq)
  · rw [heff] at hus hsets
    obtain ⟨htracks, hremoved⟩ := h.tracks.validatorUpdates h.valid h.valid hus
    rw [recordTruthy_validatorSetValue] at hsets
    by_cases hd : d = .empty
    · -- nothing selected and nothing recorded: the store keeps what it has
      rw [if_neg (by rw [isEmpty_iff.2 hd]; decide)] at hsets
      have hempty : ∀ pubKey, set pubKey = none := fun pubKey => by rw [h.tracks, hd]; rfl
      obtain ⟨hactive, hpowers⟩ := hkeeps.bootstrap hempty
      have hdurable : (Driver.durable n'.driver).get? consensusValidatorsKey =
          (Driver.durable n.driver).get? consensusValidatorsKey := by
        rw [hkeeps.durable, hsets]; rfl
      have hread : ∀ k, k ≠ latestBlockKey → k ∉ c.sets.patches.map Prod.fst →
          (driverView n'.driver).committed k = (c.selectionView H).current k := fun k hk hpat =>
        c.committed_of_notMem hstored h.pending hk (by rw [hsets]; simp) hpat
      have hsame : getValidatorsFromState B F (driverView n'.driver).committed = .ok selected := by
        rw [← hselected]
        exact getValidatorsFromState_congr (hread _ (by decide) hactive)
          fun v => hread _ (powersKey_ne v (by decide +kernel)) (hpowers v)
      refine ⟨d, ⟨c.pending, ?_, by rw [hdurable]; exact h.present, h.valid, htracks⟩, ?_, fun hne => absurd hd hne,
        hremoved⟩
      · have hcom := h.committed
        unfold committedValidators at hcom ⊢
        have hkey : (driverView n'.driver).committed consensusValidatorsKey =
            (driverView n.driver).committed consensusValidatorsKey := congrArg (·.getD Value.none) hdurable
        rw [hkey]
        split at hcom
        · rw [hsame]
          show Except.ok (validatorSetValue (selected.getD .empty)) = _
          rw [hnone, hd]
        · exact hcom
      · rcases hget : (Driver.durable n.driver).get? consensusValidatorsKey with _ | v
        · exact .inr ⟨hdurable.trans hget, hd⟩
        · have hv : v ≠ .none := fun hv => h.present (by rw [hget, hv])
          have hcom := h.committed
          unfold committedValidators at hcom
          rw [committed_of_durable hget] at hcom
          split at hcom
          · exact absurd rfl hv
          · exact .inl (by rw [hdurable, hget, Except.ok.inj hcom])
    · -- the record is kept, and written again
      rw [if_pos (by rw [Bool.not_eq_true', isEmpty_eq_false hd])] at hsets
      have hdurable : (Driver.durable n'.driver).get? consensusValidatorsKey = some (validatorSetValue d) := by
        rw [hkeeps.durable, hsets, List.reverse_singleton, PyDict.lookup_cons_ite, if_pos rfl, committedValue,
          if_neg (validatorSetValue_ne_none _), hstored]
      refine ⟨d, ⟨c.pending, committedValidators_of_record (committed_of_durable hdurable), ?_, h.valid, htracks⟩,
        .inl hdurable, fun hne => hne, hremoved⟩
      · rw [hdurable]; exact fun heq => validatorSetValue_ne_none _ (Option.some.inj heq)

theorem ValidatorRun.inStep {n₀ : Node D} {set₀ : CometSet} {d₀ : PyDict String Int}
    (hbuild : H.buildValidatorUpdates = fun _ => buildValidatorUpdates B F) (hstored : ∀ v, Driver.stored D v = v)
    (hstart : InStep B F n₀ set₀ d₀) (hrun : ValidatorRun B F H n₀ set₀ n set) : ∃ d, InStep B F n set d := by
  induction hrun with
  | start => exact ⟨d₀, hstart⟩
  | block c _ _ hkeeps ih =>
    obtain ⟨d, hd⟩ := ih
    obtain ⟨d', hd', -⟩ := hd.block hbuild hstored c hkeeps
    exact ⟨d', hd'⟩

theorem Tracks.ne_empty_iff (h : Tracks set d) (hd : KeysFormatted d) :
    d ≠ .empty ↔ ∃ pubKey, set pubKey ≠ none := by
  constructor
  · intro hne
    rcases hitems : d.items with _ | ⟨⟨k, p⟩, rest⟩
    · exact absurd (PyDict.ext_items hitems) hne
    have hk : d.get? k = some p := PyDict.mem_items_iff.1 (by rw [hitems]; simp)
    obtain ⟨pubKey, rfl⟩ := hd k (PyDict.mem_keys_iff.2 ⟨p, hk⟩)
    exact ⟨pubKey, by rw [h, hk]; simp⟩
  · rintro ⟨pubKey, hset⟩ rfl
    exact hset (h pubKey)

/-- In every run of blocks that keep to the conditions, after each block CometBFT's set, updated as the
node reported, is the record in the store; its powers are at least 1, it does not become empty, and what
an update removes was in it. -/
theorem validatorRun_tracks {n₀ : Node D} {set₀ : CometSet} {d₀ : PyDict String Int}
    (hbuild : H.buildValidatorUpdates = fun _ => buildValidatorUpdates B F) (hstored : ∀ v, Driver.stored D v = v)
    (hstart : InStep B F n₀ set₀ d₀) (hrun : ValidatorRun B F H n₀ set₀ n set)
    (c : CommittedBlock H n req n') (hkeeps : KeepsRecord F H set c) :
    ∃ d, Recorded n' d ∧ Tracks (set.applyAll c.response.validatorUpdates) d ∧ KeysFormatted d ∧
      (∀ k p, d.get? k = some p → 1 ≤ p) ∧
      ((∃ pubKey, set pubKey ≠ none) → ∃ pubKey, set.applyAll c.response.validatorUpdates pubKey ≠ none) ∧
      ∀ u ∈ c.response.validatorUpdates, u.power = 0 → set u.pubKey ≠ none := by
  obtain ⟨d, hd⟩ := hrun.inStep hbuild hstored hstart
  obtain ⟨d', hd', hrec, hne, hremoved⟩ := hd.block hbuild hstored c hkeeps
  refine ⟨d', hrec, hd'.tracks, hd'.valid.keys, hd'.valid.powers, fun hset => ?_, hremoved⟩
  have hnonempty : d ≠ .empty := (hd.tracks.ne_empty_iff hd.valid.keys).2 hset
  exact (hd'.tracks.ne_empty_iff hd'.valid.keys).1 (hne hnonempty)

end Runs

/-! ### Two validators -/

def exactFloats : FloatOps := ⟨fun _ => true, fun _ => .ok 0, fun _ _ h => by cases h⟩

/-- A block whose contracts and patches write the given values. -/
def selectionHooks (contractWrites patchWrites : List (String × Value)) : BlockHooks where
  blockDatetime _ := .ok ()
  decodeBlockTransactions _ _ := []
  executeTransactions _ := fun _ => (.ok [], contractWrites)
  encodeResult _ := .ok .none
  applyEvidencePenalties _ := pure ()
  runEpochRebalance _ := pure ()
  buildValidatorUpdates _ := buildValidatorUpdates .plain exactFloats
  applyPatchesForBlock _ := fun _ => (.ok none, patchWrites)

def firstKey : Bytes := List.replicate 32 0xaa
def secondKey : Bytes := List.replicate 32 0xbb

theorem nodeOver_committed (durable : List (String × Value)) (k : String) :
    (driverView (nodeOver durable).driver).committed k = (durable.reverse.lookup k).getD .none := by
  rw [← PyDict.get?_ofList]
  rfl

/-- The first validator alone, selected and recorded. -/
def oneValidator : Node MemoryDriver := nodeOver
  [(activeValidatorsKey, .list [.str (bytesHex firstKey)]),
    (consensusValidatorsKey, .dict [(bytesHex firstKey, .int 10)])]

def oneSet : CometSet := fun pubKey => if pubKey = firstKey then some 10 else none

def selectBoth : String × Value :=
  (activeValidatorsKey, .list [.str (bytesHex firstKey), .str (bytesHex secondKey)])

theorem selectionHooks_sets {contractWrites patchWrites : List (String × Value)} {n n' : Node MemoryDriver}
    {req : FinalizeRequest} (c : CommittedBlock (selectionHooks contractWrites patchWrites) n req n') :
    c.sets.beforeValidators = contractWrites ∧ c.sets.patches = patchWrites := by
  obtain ⟨_, hpatches⟩ := c.stages.patches
  have hexecute := (Prod.mk.inj c.stages.execute).2
  have hresults := (Prod.mk.inj c.stages.execute).1
  have hnonces := (Prod.mk.inj c.stages.assemble).2
  have hevidence := (Prod.mk.inj c.stages.evidence).2
  have hrebalance := (Prod.mk.inj c.stages.rebalance).2
  refine ⟨?_, (Prod.mk.inj hpatches).2.symm⟩
  rw [StageSets.beforeValidators, ← hexecute, ← hnonces, ← hevidence, ← hrebalance]
  simp

theorem oneValidator_inStep : InStep .plain exactFloats oneValidator oneSet (.ofList [(bytesHex firstKey, 10)]) where
  pending := rfl
  committed := by decide +kernel
  present := by decide +kernel
  valid := by
    have hget : ∀ k p, (PyDict.ofList [(bytesHex firstKey, (10 : Int))]).get? k = some p →
        k = bytesHex firstKey ∧ p = 10 := by
      intro k p h
      rw [PyDict.get?_ofList, List.reverse_singleton, PyDict.lookup_cons_ite] at h
      split at h
      · rename_i hk; exact ⟨hk, (Option.some.inj h).symm⟩
      · cases h
    refine ⟨fun k hk => ?_, fun k p h => ?_⟩
    · obtain ⟨p, hp⟩ := PyDict.mem_keys_iff.1 hk
      exact ⟨firstKey, (hget k p hp).1⟩
    · rw [(hget k p h).2]; decide
  tracks pubKey := by
    rw [PyDict.get?_ofList, List.reverse_singleton, PyDict.lookup_cons_ite, oneSet]
    by_cases h : pubKey = firstKey
    · rw [if_pos h, if_pos (congrArg bytesHex h)]
    · rw [if_neg h, if_neg fun heq => h (bytesHex_injective heq)]; rfl

/-- A second validator joins with the default power. -/
theorem validatorRun_tracks_join :
    ∃ n' : Node MemoryDriver, ∃ c : CommittedBlock (selectionHooks [selectBoth] []) oneValidator (emptyBlock 1 5 []) n',
      finalizeAndCommit .plain (selectionHooks [selectBoth] []) oneValidator (emptyBlock 1 5 []) = some n' ∧
      ∃ d, Recorded n' d ∧ Tracks (oneSet.applyAll c.response.validatorUpdates) d ∧ KeysFormatted d ∧
        ∀ k p, d.get? k = some p → 1 ≤ p := by
  have hcommits : (finalizeAndCommit .plain (selectionHooks [selectBoth] []) oneValidator
      (emptyBlock 1 5 [])).isSome = true := by decide +kernel
  obtain ⟨n', hn'⟩ := Option.isSome_iff_exists.1 hcommits
  obtain ⟨c, -⟩ := finalizeAndCommit_spec rfl hn'
  obtain ⟨hbefore, hpatches⟩ := selectionHooks_sets c
  have hactive : ¬ "validators.p".toList <+: activeValidatorsKey.toList := by decide +kernel
  have hconsensus : ¬ "validators.p".toList <+: consensusValidatorsKey.toList := by decide +kernel
  have hkeeps : KeepsRecord exactFloats _ oneSet c := by
    constructor
    · intro items v _ _ _
      have hpower : (c.selectionView _).current (powersKey v) = .none := by
        unfold CommittedBlock.selectionView
        rw [hbefore, DriverView.current_overwrite]
        · rw [driverView_current rfl, oneValidator, nodeOver_committed, PyDict.lookup_eq_none]
          · rfl
          · rw [List.map_reverse, List.mem_reverse]
            simp [powersKey_ne v hactive, powersKey_ne v hconsensus]
        · simp [selectBoth, powersKey_ne v hactive]
      rw [hpower]
      exact id
    · rw [hbefore]; decide
    · rw [hpatches]; decide
    · intro _
      rw [hpatches]
      simp
  obtain ⟨d, hrec, htracks, hkeys, hpowers, -⟩ := validatorRun_tracks rfl (fun _ => rfl) oneValidator_inStep
    (.start : ValidatorRun .plain _ _ _ _ _ _) c hkeeps
  exact ⟨n', c, hn', d, hrec, htracks, hkeys, hpowers⟩

def halfPower : Value := .decimal ⟨5 * 10 ^ 29⟩

/-- Selected with a power of one half, the second validator is recorded with power 0 and removed from a
set it was never in; and a patch of the record is not reported to CometBFT at all. -/
theorem validator_record_drifts :
    (∃ response n₁ n', finalizeBlock (selectionHooks [selectBoth, (powersKey (bytesHex secondKey), halfPower)] [])
        oneValidator (emptyBlock 1 5 []) = (.ok response, n₁) ∧ commitBlock .plain n₁ none = (.ok (), n') ∧
      n'.driver.durable.get? consensusValidatorsKey =
        some (.dict [(bytesHex firstKey, .int 10), (bytesHex secondKey, .int 0)]) ∧
      ⟨secondKey, 0⟩ ∈ response.validatorUpdates ∧ oneSet secondKey = none ∧
      oneSet.applyAll response.validatorUpdates secondKey = none) ∧
    ∃ response n₁ n', finalizeBlock (selectionHooks []
        [(consensusValidatorsKey, .dict [(bytesHex secondKey, .int 10)])])
        oneValidator (emptyBlock 1 5 []) = (.ok response, n₁) ∧ commitBlock .plain n₁ none = (.ok (), n') ∧
      n'.driver.durable.get? consensusValidatorsKey = some (.dict [(bytesHex secondKey, .int 10)]) ∧
      response.validatorUpdates = [] := by
  constructor
  · obtain ⟨response, n₁, h, hrest⟩ := exists_of_returns
      (x := finalizeBlock (selectionHooks [selectBoth, (powersKey (bytesHex secondKey), halfPower)] [])
        oneValidator (emptyBlock 1 5 []))
      (fun response n₁ => match commitBlock .plain n₁ none with
        | (.error _, _) => false
        | (.ok _, n') => n'.driver.durable.get? consensusValidatorsKey =
            some (.dict [(bytesHex firstKey, .int 10), (bytesHex secondKey, .int 0)]) ∧
          response.validatorUpdates = [⟨secondKey, 0⟩]) (by decide +kernel)
    rcases h₂ : commitBlock .plain n₁ none with ⟨e | u, n'⟩
    · rw [h₂] at hrest; cases hrest
    rw [h₂] at hrest
    obtain ⟨hrecord, hupdates⟩ := of_decide_eq_true hrest
    refine ⟨response, n₁, n', h, h₂, hrecord, ?_, ?_, ?_⟩
    · rw [hupdates]; exact List.mem_singleton_self _
    · decide
    · rw [hupdates]; decide
  · obtain ⟨response, n₁, h, hrest⟩ := exists_of_returns
      (x := finalizeBlock (selectionHooks [] [(consensusValidatorsKey, .dict [(bytesHex secondKey, .int 10)])])
        oneValidator (emptyBlock 1 5 []))
      (fun response n₁ => match commitBlock .plain n₁ none with
        | (.error _, _) => false
        | (.ok _, n') => n'.driver.durable.get? consensusValidatorsKey =
            some (.dict [(bytesHex secondKey, .int 10)]) ∧ response.validatorUpdates = []) (by decide +kernel)
    rcases h₂ : commitBlock .plain n₁ none with ⟨e | u, n'⟩
    · rw [h₂] at hrest; cases hrest
    rw [h₂] at hrest
    obtain ⟨hrecord, hupdates⟩ := of_decide_eq_true hrest
    exact ⟨response, n₁, n', h, h₂, hrecord, hupdates⟩

end XianAbci
