import XianAbci.BdsOrder

/-!
# The pending buffer

The buffer takes payloads in the order they are offered, up to its capacity; the worker takes out only the
next height. A buffer that is full without that height is `Stalled`: the worker finds nothing, and replay
and catch-up put nothing in (`Stalled.run`). Nothing in `_enqueue_pending_payload` keeps a slot for the
missing height, and blocks that arrive in order are enough to get there (`stalled_by_ordered_blocks`).

The buffer stays clear of that as long as no offered payload takes the last slot from the height that the
worker asks for after the one it holds (`LeavesSlot`).
-/

namespace XianAbci

namespace BdsState

variable {P : Type} {F : PayloadFormat P} {q : Int} {s s' : BdsState P}

/-- The height the worker asks for next, once it is done with the payload it holds. -/
def awaitedHeight (F : PayloadFormat P) (s : BdsState P) : Int :=
  match s.worker.payload? with
  | none => s.nextExpectedHeight
  | some payload => F.height payload + 1

/-- `_enqueue_pending_payload` puts the payload in the buffer. -/
def Admits (F : PayloadFormat P) (q : Int) (s : BdsState P) (payload : P) : Prop :=
  F.validateExecutionPolicy payload = .ok () ∧ s.isStalePayload F payload = false ∧
    s.pendingPayloads.contains (F.height payload) = false ∧ s.isFull q = false

/-- The payload does not take the last free slot from the awaited height. -/
def LeavesSlot (F : PayloadFormat P) (q : Int) (s : BdsState P) (payload : P) : Prop :=
  s.Admits F q payload → F.height payload = s.awaitedHeight F ∨
    s.pendingPayloads.contains (s.awaitedHeight F) = true ∨
    (s.pendingPayloads.keys.length : Int) + 1 < max q 1

/-! ### The payloads a step offers -/

section Offers

variable (F : PayloadFormat P) (q : Int) (unlinkFails : String → Bool)

/-- The payloads that `_replay_spool` offers to the buffer, each with the state it finds. -/
def replayOffers : List String → BdsState P → List (P × BdsState P)
  | [], _ => []
  | path :: rest, s =>
    match s.readSpoolFile F path with
    | .error _ => []
    | .ok payload =>
      if s.isStalePayload F payload then
        match s.unlink unlinkFails path with
        | (.error _, _) => []
        | (.ok (), s) => replayOffers rest s
      else
        (payload, s) :: match s.enqueuePendingPayload F q payload with
          | (.error _, _) => []
          | (.ok _, s) => replayOffers rest s

def spoolOffers (s : BdsState P) : List (P × BdsState P) :=
  match s.validatedSpoolFiles F with
  | .error _ => []
  | .ok paths => replayOffers F q unlinkFails paths s

def finishOffers (s : BdsState P) : List (P × BdsState P) :=
  if s.isFull q then [] else s.spoolOffers F q unlinkFails

def takeOffers (s : BdsState P) : List (P × BdsState P) :=
  match s.pendingPayloads.get? s.nextExpectedHeight with
  | none => finishOffers F q unlinkFails { s with pendingEvent := false }
  | some _ => []

def persistedOffers (payload : P) (s : BdsState P) : List (P × BdsState P) :=
  match unlink unlinkFails (spoolFileName F payload) { s with indexedHeight := some (F.height payload) } with
  | (.error _, _) => []
  | (.ok (), s) => finishOffers F q unlinkFails s.pruneStalePendingPayloads

/-- Steps that leave the last slot to the awaited height. -/
inductive ReservingStep : BdsState P → BdsState P → Prop
  | enqueue (s : BdsState P) (writeFails : Bool) (payload : P) : LeavesSlot F q s payload →
      ReservingStep s (s.enqueueBlock F q writeFails payload).2
  | replay (s : BdsState P) (unlinkFails : String → Bool) :
      (∀ o ∈ s.spoolOffers F q unlinkFails, LeavesSlot F q o.2 o.1) →
      ReservingStep s (s.replaySpool F q unlinkFails).2
  | wake {s : BdsState P} (unlinkFails : String → Bool) : s.worker = .waiting → s.pendingEvent = true →
      (∀ o ∈ s.takeOffers F q unlinkFails, LeavesSlot F q o.2 o.1) →
      ReservingStep s (s.takeNext F q unlinkFails)
  | recognised {s : BdsState P} {payload : P} (unlinkFails : String → Bool) :
      s.worker = .answered payload (some (blockRow F payload)) →
      (∀ o ∈ s.persistedOffers F q unlinkFails payload, LeavesSlot F q o.2 o.1) →
      ReservingStep s (s.blockPersisted F q unlinkFails payload)
  | persisted {s : BdsState P} {payload : P} (unlinkFails : String → Bool) : s.worker = .inserted payload →
      (∀ o ∈ s.persistedOffers F q unlinkFails payload, LeavesSlot F q o.2 o.1) →
      ReservingStep s (s.blockPersisted F q unlinkFails payload)
  | catchUpBuilt {s : BdsState P} {nextHeight targetHeight : Int} (payload : P) :
      s.catchup = .building nextHeight targetHeight → LeavesSlot F q s payload →
      ReservingStep s (s.catchUpBuilt F q payload nextHeight targetHeight)
  -- the other steps offer nothing
  | quiet {s s' : BdsState P} : Step F q s s' → s'.pendingPayloads.keys ⊆ s.pendingPayloads.keys →
      ReservingStep s s'

end Offers

theorem ReservingStep.step (h : ReservingStep F q s s') : Step F q s s' := by
  cases h with
  | enqueue writeFails payload _ => exact .enqueue s writeFails payload
  | replay unlinkFails _ => exact .replay s unlinkFails
  | wake unlinkFails hw hevent _ => exact .wake unlinkFails hw hevent
  | recognised unlinkFails hw _ => exact .recognised unlinkFails hw
  | persisted unlinkFails hw _ => exact .persisted unlinkFails hw
  | catchUpBuilt payload hc _ => exact .catchUpBuilt payload hc
  | quiet hstep _ => exact hstep

/-! ### The reserved slot -/

/-- A buffer without a free slot holds the awaited height. -/
structure Reserved (F : PayloadFormat P) (q : Int) (s : BdsState P) : Prop where
  bounded : (s.pendingPayloads.keys.length : Int) ≤ max q 1
  slot : s.isFull q = true → s.pendingPayloads.contains (s.awaitedHeight F) = true

theorem isFull_iff : s.isFull q = true ↔ max q 1 ≤ (s.pendingPayloads.keys.length : Int) := by
  simp [isFull]

theorem awaitedHeight_congr (hworker : s'.worker = s.worker) (hindexed : s'.indexedHeight = s.indexedHeight) :
    s'.awaitedHeight F = s.awaitedHeight F := by
  unfold awaitedHeight
  rw [hworker, nextExpectedHeight_congr hindexed]

/-- A smaller buffer that is still full is the same buffer. -/
theorem Reserved.shrink (h : Reserved F q s) (hkeys : s'.pendingPayloads.keys ⊆ s.pendingPayloads.keys)
    (hawaited : s'.awaitedHeight F = s.awaitedHeight F) : Reserved F q s' := by
  have hsub : s'.pendingPayloads.keys.Subperm s.pendingPayloads.keys :=
    s'.pendingPayloads.nodup.subperm hkeys
  have hlength := hsub.length_le
  have hbounded := h.bounded
  refine ⟨by omega, fun hfull => ?_⟩
  rw [isFull_iff] at hfull
  have hperm := hsub.perm_of_length_le (by omega)
  have hslot := h.slot (isFull_iff.2 (by omega))
  rw [PyDict.contains_iff] at hslot ⊢
  rw [hawaited]
  exact hperm.mem_iff.2 hslot

theorem Reserved.same (h : Reserved F q s) (hpending : s'.pendingPayloads = s.pendingPayloads)
    (hawaited : s'.awaitedHeight F = s.awaitedHeight F) : Reserved F q s' :=
  h.shrink (by rw [hpending]; exact List.Subset.refl _) hawaited

/-- What `_enqueue_pending_payload` does to the buffer. -/
theorem enqueuePendingPayload_pending (payload : P) (s : BdsState P) :
    (s.enqueuePendingPayload F q payload).2.pendingPayloads = s.pendingPayloads ∨
    s.Admits F q payload ∧
      (s.enqueuePendingPayload F q payload).2.pendingPayloads = s.pendingPayloads.set (F.height payload) payload := by
  unfold enqueuePendingPayload
  split
  · exact .inl rfl
  · rename_i hpolicy
    split_ifs with hstale hheld hfull
    · exact .inl rfl
    · exact .inl rfl
    · exact .inl rfl
    · exact .inr ⟨⟨hpolicy, by simpa using hstale, by simpa using hheld, by simpa using hfull⟩, rfl⟩

theorem Reserved.enqueuePendingPayload (h : Reserved F q s) {payload : P} (hleaves : LeavesSlot F q s payload) :
    Reserved F q (s.enqueuePendingPayload F q payload).2 := by
  have hsame := sameIndex_enqueuePendingPayload (F := F) (q := q) payload s
  have hawaited := awaitedHeight_congr (F := F) hsame.worker hsame.indexedHeight
  rcases enqueuePendingPayload_pending (F := F) (q := q) payload s with hkept | ⟨hadmits, hset⟩
  · exact h.same hkept hawaited
  have hnew : F.height payload ∉ s.pendingPayloads.keys := by
    rw [← PyDict.contains_iff, hadmits.2.2.1]
    exact Bool.false_ne_true
  have hkeys := PyDict.keys_set_of_not_mem hnew payload
  have hroom : ¬ max q 1 ≤ (s.pendingPayloads.keys.length : Int) := by
    rw [← isFull_iff, hadmits.2.2.2]
    exact Bool.false_ne_true
  refine ⟨?_, fun hfull => ?_⟩
  · rw [hset, hkeys, List.length_append, List.length_singleton]
    push_cast
    omega
  rw [isFull_iff, hset, hkeys, List.length_append, List.length_singleton] at hfull
  rw [PyDict.contains_iff, hawaited, hset, hkeys]
  rcases hleaves hadmits with hheight | hheld | hfree
  · exact List.mem_append_right _ (List.mem_singleton.2 hheight.symm)
  · exact List.mem_append_left _ (PyDict.contains_iff.1 hheld)
  · push_cast at hfull
    omega

theorem unlink_pending (unlinkFails : String → Bool) (name : String) (s : BdsState P) :
    (s.unlink unlinkFails name).2.pendingPayloads = s.pendingPayloads := by
  unfold unlink
  split <;> rfl

theorem Reserved.replayFiles (unlinkFails : String → Bool) (paths : List String) (h : Reserved F q s)
    (hoffers : ∀ o ∈ replayOffers F q unlinkFails paths s, LeavesSlot F q o.2 o.1) :
    Reserved F q (s.replayFiles F q unlinkFails paths).2 := by
  induction paths generalizing s with
  | nil => exact h
  | cons path rest ih =>
    unfold BdsState.replayFiles
    unfold replayOffers at hoffers
    rcases hread : s.readSpoolFile F path with e | payload
    · exact h
    · rw [hread] at hoffers
      dsimp only at hoffers ⊢
      by_cases hstale : s.isStalePayload F payload = true
      · rw [if_pos hstale] at hoffers ⊢
        have hunlink := sameIndex_unlink (F := F) unlinkFails path s
        have hkept : Reserved F q (s.unlink unlinkFails path).2 :=
          h.same (unlink_pending unlinkFails path s) (awaitedHeight_congr hunlink.worker hunlink.indexedHeight)
        rcases hs : s.unlink unlinkFails path with ⟨_ | _, t⟩
        all_goals rw [hs] at hkept
        · exact hkept
        · rw [hs] at hoffers
          exact ih hkept hoffers
      · rw [if_neg hstale] at hoffers ⊢
        have hkept := h.enqueuePendingPayload (hoffers _ (List.mem_cons_self ..))
        rcases hs : s.enqueuePendingPayload F q payload with ⟨_ | _, t⟩
        all_goals rw [hs] at hkept
        · exact hkept
        · rw [hs] at hoffers
          exact ih hkept fun o ho => hoffers o (List.mem_cons_of_mem _ ho)

theorem Reserved.replaySpool (unlinkFails : String → Bool) (h : Reserved F q s)
    (hoffers : ∀ o ∈ s.spoolOffers F q unlinkFails, LeavesSlot F q o.2 o.1) :
    Reserved F q (s.replaySpool F q unlinkFails).2 := by
  unfold BdsState.replaySpool
  unfold spoolOffers at hoffers
  rcases hpaths : s.validatedSpoolFiles F with e | paths
  · exact h
  · rw [hpaths] at hoffers
    exact h.replayFiles unlinkFails paths hoffers

/-- The end of a round: the worker lets go of its payload, whose height is indexed by then. -/
theorem Reserved.finishRound (unlinkFails : String → Bool) (h : Reserved F q s)
    (hdone : s.awaitedHeight F = s.nextExpectedHeight)
    (hoffers : ∀ o ∈ s.finishOffers F q unlinkFails, LeavesSlot F q o.2 o.1) :
    Reserved F q (s.finishRound F q unlinkFails) := by
  obtain ⟨hindex, hpayload⟩ := finishRound_index (F := F) (q := q) unlinkFails s
  have hawaited : (s.finishRound F q unlinkFails).awaitedHeight F = s.awaitedHeight F := by
    rw [awaitedHeight, hpayload, hdone]
    exact nextExpectedHeight_congr hindex.indexedHeight
  have hreplayed : Reserved F q
      (if s.isFull q then (.ok (), s) else s.replaySpool F q unlinkFails : Except PyErr Unit × BdsState P).2 := by
    unfold finishOffers at hoffers
    split_ifs at hoffers ⊢
    · exact h
    · exact h.replaySpool unlinkFails hoffers
  have hsame : SameIndex F s
      (if s.isFull q then (.ok (), s) else s.replaySpool F q unlinkFails : Except PyErr Unit × BdsState P).2 := by
    split_ifs
    · exact .refl F s
    · exact sameIndex_replaySpool unlinkFails s
  have hpending : (s.finishRound F q unlinkFails).pendingPayloads =
      (if s.isFull q then (.ok (), s) else s.replaySpool F q unlinkFails : Except PyErr Unit × BdsState P).2.pendingPayloads := by
    unfold BdsState.finishRound
    rcases (if s.isFull q then (.ok (), s) else s.replaySpool F q unlinkFails :
      Except PyErr Unit × BdsState P) with ⟨_ | _, t⟩
    · rfl
    · rfl
  exact hreplayed.same hpending (hawaited.trans (awaitedHeight_congr hsame.worker hsame.indexedHeight).symm)

/-- Taking a payload out frees a slot. -/
theorem Reserved.erase (h : Reserved F q s) {k : Int} (hk : k ∈ s.pendingPayloads.keys)
    (hpending : s'.pendingPayloads = s.pendingPayloads.erase k) : Reserved F q s' := by
  have hlt : (s.pendingPayloads.erase k).keys.length < s.pendingPayloads.keys.length := by
    rw [PyDict.keys_erase]
    exact List.length_filter_lt_length_iff_exists.2 ⟨_, hk, by simp⟩
  have hbounded := h.bounded
  rw [← hpending] at hlt
  refine ⟨by omega, fun hfull => ?_⟩
  rw [isFull_iff] at hfull
  omega

theorem Reserved.takeNext (unlinkFails : String → Bool) (h : Reserved F q s) (hw : s.worker = .waiting)
    (hoffers : ∀ o ∈ s.takeOffers F q unlinkFails, LeavesSlot F q o.2 o.1) :
    Reserved F q (s.takeNext F q unlinkFails) := by
  have hdone : s.awaitedHeight F = s.nextExpectedHeight := by
    rw [awaitedHeight, hw]
    rfl
  unfold BdsState.takeNext
  unfold takeOffers at hoffers
  rcases hget : s.pendingPayloads.get? s.nextExpectedHeight with _ | payload
  · rw [hget] at hoffers
    have hkept : Reserved F q { s with pendingEvent := false } := h.same rfl rfl
    exact hkept.finishRound unlinkFails hdone hoffers
  · exact h.erase (PyDict.mem_keys_iff.2 ⟨payload, hget⟩) rfl

theorem keys_pruneStalePendingPayloads (s : BdsState P) :
    s.pruneStalePendingPayloads.pendingPayloads.keys ⊆ s.pendingPayloads.keys := by
  unfold pruneStalePendingPayloads
  split
  · exact List.Subset.refl _
  · dsimp only
    generalize s.pendingPayloads.keys.filter _ = stale
    generalize s.pendingPayloads = pending
    induction stale generalizing pending with
    | nil => exact List.Subset.refl _
    | cons k stale ih =>
      refine List.Subset.trans (ih (pending.erase k)) ?_
      rw [PyDict.keys_erase]
      exact List.filter_subset_self _

theorem Reserved.blockPersisted (unlinkFails : String → Bool) {payload : P} (h : Reserved F q s)
    (hw : s.worker.payload? = some payload)
    (hoffers : ∀ o ∈ s.persistedOffers F q unlinkFails payload, LeavesSlot F q o.2 o.1) :
    Reserved F q (s.blockPersisted F q unlinkFails payload) := by
  have hawaited : s.awaitedHeight F = F.height payload + 1 := by
    rw [awaitedHeight, hw]
  unfold BdsState.blockPersisted
  unfold persistedOffers at hoffers
  have hunlink := sameIndex_unlink (F := F) unlinkFails (spoolFileName F payload)
    { s with indexedHeight := some (F.height payload) }
  have hpending := unlink_pending unlinkFails (spoolFileName F payload)
    { s with indexedHeight := some (F.height payload) }
  dsimp only
  rcases hs : unlink unlinkFails (spoolFileName F payload) { s with indexedHeight := some (F.height payload) } with
    ⟨_ | _, t⟩
  all_goals rw [hs] at hunlink hpending
  · -- the file stays, and so does the payload
    refine h.same hpending ?_
    rw [hawaited]
    rfl
  · rw [hs] at hoffers
    have hprune := sameIndex_pruneStalePendingPayloads (F := F) t
    have hworker : t.pruneStalePendingPayloads.worker = s.worker := hprune.worker.trans hunlink.worker
    have hindexed : t.pruneStalePendingPayloads.indexedHeight = some (F.height payload) :=
      hprune.indexedHeight.trans hunlink.indexedHeight
    have hheld : t.pruneStalePendingPayloads.awaitedHeight F = F.height payload + 1 := by
      rw [awaitedHeight, hworker, hw]
    have hpruned : Reserved F q t.pruneStalePendingPayloads := by
      refine h.shrink ?_ (hheld.trans hawaited.symm)
      have hkeys := keys_pruneStalePendingPayloads t
      rwa [hpending] at hkeys
    refine hpruned.finishRound unlinkFails ?_ hoffers
    rw [hheld, nextExpectedHeight, hindexed]

/-! ### Whole runs -/

section Steps

variable {base : List BlockRow} {first : Int} {n : Nat}

theorem awaitedHeight_held {payload : P} (h : s.worker.payload? = some payload) :
    s.awaitedHeight F = F.height payload + 1 := by
  rw [awaitedHeight, h]

theorem awaitedHeight_free (h : s.worker.payload? = none) : s.awaitedHeight F = s.nextExpectedHeight := by
  rw [awaitedHeight, h]

theorem awaitedHeight_finishRound (unlinkFails : String → Bool) (s : BdsState P) :
    (s.finishRound F q unlinkFails).awaitedHeight F = s.nextExpectedHeight := by
  obtain ⟨hindex, hpayload⟩ := finishRound_index (F := F) (q := q) unlinkFails s
  rw [awaitedHeight_free hpayload]
  exact nextExpectedHeight_congr hindex.indexedHeight

theorem awaitedHeight_blockPersisted (unlinkFails : String → Bool) (payload : P) (s : BdsState P) :
    (s.blockPersisted F q unlinkFails payload).awaitedHeight F = F.height payload + 1 := by
  unfold BdsState.blockPersisted
  have hunlink := sameIndex_unlink (F := F) unlinkFails (spoolFileName F payload)
    { s with indexedHeight := some (F.height payload) }
  dsimp only
  rcases hs : unlink unlinkFails (spoolFileName F payload) { s with indexedHeight := some (F.height payload) } with
    ⟨_ | _, t⟩
  · rfl
  · rw [hs] at hunlink
    have hprune := sameIndex_pruneStalePendingPayloads (F := F) t
    dsimp only
    rw [awaitedHeight_finishRound, nextExpectedHeight, hprune.indexedHeight.trans hunlink.indexedHeight]

theorem Inv.next_free (h : Inv F base first n s) (hfree : s.worker.payload? = none) :
    s.nextExpectedHeight = first + n := by
  have hphase := h.phase
  rcases hw : s.worker with _ | p | ⟨p, _ | row⟩ | p | p | p | _
  all_goals rw [hw] at hphase hfree
  all_goals try cases hfree
  all_goals
    have hnext : s.nextExpectedHeight = first + n - 1 + 1 := hphase
    omega

theorem worker_refreshStatus (read : Option Int) (s : BdsState P) : (s.refreshStatus read).worker = s.worker := by
  have hprune : ∀ t : BdsState P, t.pruneStalePendingPayloads.worker = t.worker := by
    intro t
    unfold pruneStalePendingPayloads
    split <;> rfl
  unfold BdsState.refreshStatus
  rw [hprune]
  split
  · rfl
  · split
    · rfl
    · split <;> rfl

theorem awaitedHeight_refreshStatus (h : Inv F base first n s) (hbase : ∀ row ∈ base, row.height < first)
    {read : Option Int} (hread : ∀ x, read = some x → Indexed s x) :
    (s.refreshStatus read).awaitedHeight F = s.awaitedHeight F := by
  have hworker := worker_refreshStatus read s
  rcases hw : s.worker.payload? with _ | payload
  · have hfree : (s.refreshStatus read).worker.payload? = none := by rw [hworker, hw]
    rw [awaitedHeight_free hw, awaitedHeight_free hfree, h.next_free hw,
      (h.refreshStatus hbase hread).next_free hfree]
  · rw [awaitedHeight_held hw, awaitedHeight_held (hworker ▸ hw)]

/-- The awaited height moves on only when the worker takes it out of the buffer. -/
theorem awaitedHeight_step (h : Inv F base first n s) (hbase : ∀ row ∈ base, row.height < first)
    (hstep : Step F q s s') : s'.awaitedHeight F = s.awaitedHeight F ∨
    s.nextExpectedHeight ∈ s.pendingPayloads.keys ∧
      s'.pendingPayloads = s.pendingPayloads.erase s.nextExpectedHeight := by
  have hindex : ∀ {t : BdsState P}, SameIndex F s t → t.awaitedHeight F = s.awaitedHeight F := fun ht =>
    awaitedHeight_congr ht.worker ht.indexedHeight
  cases hstep with
  | enqueue writeFails p => exact .inl (hindex (sameIndex_enqueueBlock writeFails p s))
  | replay unlinkFails => exact .inl (hindex (sameIndex_replaySpool unlinkFails s))
  | wake unlinkFails hw _ =>
    unfold BdsState.takeNext
    rcases hget : s.pendingPayloads.get? s.nextExpectedHeight with _ | payload
    · have hfree : s.worker.payload? = none := by rw [hw]; rfl
      refine .inl ?_
      dsimp only
      rw [awaitedHeight_finishRound, awaitedHeight_free hfree]
      rfl
    · exact .inr ⟨PyDict.mem_keys_iff.2 ⟨payload, hget⟩, rfl⟩
  | fetch hw =>
    refine .inl ?_
    rw [awaitedHeight_held (show s.worker.payload? = some _ by rw [hw]; rfl)]
    rfl
  | recognised unlinkFails hw =>
    refine .inl ?_
    rw [awaitedHeight_blockPersisted, awaitedHeight_held (show s.worker.payload? = some _ by rw [hw]; rfl)]
  | mismatch hw _ =>
    refine .inl ?_
    rw [awaitedHeight_held (show s.worker.payload? = some _ by rw [hw]; rfl)]
    rfl
  | absent hw =>
    refine .inl ?_
    rw [awaitedHeight_held (show s.worker.payload? = some _ by rw [hw]; rfl)]
    rfl
  | commit hw _ =>
    refine .inl ?_
    rw [awaitedHeight_held (show s.worker.payload? = some _ by rw [hw]; rfl)]
    rfl
  | persisted unlinkFails hw =>
    refine .inl ?_
    rw [awaitedHeight_blockPersisted, awaitedHeight_held (show s.worker.payload? = some _ by rw [hw]; rfl)]
  | fail hp =>
    refine .inl ?_
    rw [awaitedHeight_held hp]
    rfl
  | retry hw =>
    refine .inl ?_
    rw [awaitedHeight_held (show s.worker.payload? = some _ by rw [hw]; rfl)]
    rfl
  | catchUpStart _ => exact .inl rfl
  | catchUpFrom latest _ => exact .inl (hindex (sameIndex_catchUpLoop _ _ _ s))
  | catchUpBuilt p _ => exact .inl (hindex (sameIndex_catchUpBuilt p _ _ s))
  | catchUpFails => exact .inl rfl
  | statusRead => exact .inl rfl
  | statusReadFails => exact .inl rfl
  | status hread => exact .inl (awaitedHeight_refreshStatus h hbase fun x hx => h.statusReads x (hx ▸ hread))
  | compactStart _ => exact .inl rfl
  | compactRead _ => exact .inl rfl
  | @compact paths indexed unlinkFails _ =>
    exact .inl (hindex ((sameIndex_compactSpool unlinkFails indexed paths s).trans ⟨rfl, rfl, rfl, rfl, id⟩))

theorem pending_catchUpLoop (target : Int) (fuel : Nat) (next : Int) (s : BdsState P) :
    (s.catchUpLoop q target fuel next).pendingPayloads = s.pendingPayloads := by
  induction fuel generalizing next with
  | zero => rfl
  | succ fuel ih =>
    unfold catchUpLoop
    split_ifs
    · rfl
    · rfl
    · exact ih (next + 1)
    · rfl

theorem Reserved.step (h : Reserved F q s) (hinv : Inv F base first n s) (hbase : ∀ row ∈ base, row.height < first)
    (hstep : ReservingStep F q s s') : Reserved F q s' := by
  cases hstep with
  | enqueue writeFails payload hleaves =>
    unfold enqueueBlock
    split
    · exact h
    split
    · exact h
    split
    · exact h
    rename_i text _
    split
    · exact h
    have hwritten : Reserved F q { s with spool := s.spool.set (spoolFileName F payload) text } := h.same rfl rfl
    have hkept := hwritten.enqueuePendingPayload (show LeavesSlot F q _ payload from hleaves)
    dsimp only
    rcases hs : BdsState.enqueuePendingPayload F q payload { s with spool := s.spool.set (spoolFileName F payload) text } with
      ⟨_ | _ | _, t⟩
    all_goals rw [hs] at hkept
    · exact hkept
    · exact hkept.same rfl rfl
    · exact hkept
  | replay unlinkFails hoffers => exact h.replaySpool unlinkFails hoffers
  | wake unlinkFails hw _ hoffers => exact h.takeNext unlinkFails hw hoffers
  | recognised unlinkFails hw hoffers => exact h.blockPersisted unlinkFails (by rw [hw]; rfl) hoffers
  | persisted unlinkFails hw hoffers => exact h.blockPersisted unlinkFails (by rw [hw]; rfl) hoffers
  | catchUpBuilt payload _ hleaves =>
    have hkept := h.enqueuePendingPayload hleaves
    unfold BdsState.catchUpBuilt
    rcases hs : s.enqueuePendingPayload F q payload with ⟨_ | _ | _, t⟩
    all_goals rw [hs] at hkept
    · exact hkept.same rfl rfl
    · exact hkept.same rfl rfl
    · have hloop := sameIndex_catchUpLoop (F := F) (q := q)
      exact hkept.same (pending_catchUpLoop _ _ _ t)
        (awaitedHeight_congr (hloop _ _ _ t).worker (hloop _ _ _ t).indexedHeight)
  | quiet hstep hkeys =>
    rcases awaitedHeight_step hinv hbase hstep with hsame | ⟨hmem, htaken⟩
    · exact h.shrink hkeys hsame
    · exact h.erase hmem htaken

end Steps

/-- In every run in which no offered payload takes the last slot from the height the worker asks for next,
a full buffer that the worker has taken nothing from holds the next expected height. -/
theorem full_buffer_has_next {s₀ : BdsState P} (hstart : Started s₀)
    (hrun : Relation.ReflTransGen (ReservingStep F q) s₀ s) (hfull : s.isFull q = true)
    (hfree : s.worker.payload? = none) : s.pendingPayloads.contains s.nextExpectedHeight = true := by
  have hinv : Reserved F q s ∧ ∃ n, Inv F s₀.blocks s₀.nextExpectedHeight n s := by
    clear hfull hfree
    induction hrun with
    | refl =>
      refine ⟨⟨?_, fun hfull => ?_⟩, 0, hstart.inv⟩
      all_goals
        have hone := le_max_right q 1
        have hnone : ((PyDict.empty : PyDict Int P).keys.length : Int) = 0 := rfl
      · rw [hstart.pendingPayloads]
        omega
      · rw [isFull_iff, hstart.pendingPayloads] at hfull
        omega
    | tail _ hstep ih =>
      obtain ⟨hreserved, n, hn⟩ := ih
      exact ⟨hreserved.step hn hstart.lt_next hstep, hn.step hstart.lt_next hstep.step⟩
  rw [← awaitedHeight_free (F := F) hfree]
  exact hinv.1.slot hfull

/-- A buffer of one slot, given to the next block. -/
theorem full_buffer_has_next_first : ∃ s, Relation.ReflTransGen (ReservingStep emptyBlocks 1) freshService s ∧
    s.isFull 1 = true ∧ s.pendingPayloads.contains s.nextExpectedHeight = true := by
  have hstart : Started freshService := ⟨rfl, rfl, rfl, rfl⟩
  have hrun : Relation.ReflTransGen (ReservingStep emptyBlocks 1) freshService _ :=
    .single (.enqueue freshService false firstBlock fun _ => .inl rfl)
  exact ⟨_, hrun, rfl, full_buffer_has_next hstart hrun rfl rfl⟩

/-! ### A stalled buffer -/

/-- The buffer is full of later heights, and the worker holds nothing. -/
structure Stalled (q : Int) (s : BdsState P) : Prop where
  full : s.isFull q = true
  missing : s.nextExpectedHeight ∉ s.pendingPayloads.keys
  free : s.worker.payload? = none
  later : ∀ k ∈ s.pendingPayloads.keys, s.nextExpectedHeight ≤ k

/-- A payload that takes the last slot from the next height stalls the buffer. -/
theorem stalled_of_not_leavesSlot {payload : P} (hfree : s.worker.payload? = none)
    (hlater : ∀ k ∈ s.pendingPayloads.keys, s.nextExpectedHeight ≤ k) (hpayload : 0 ≤ F.height payload)
    (h : ¬ LeavesSlot F q s payload) : Stalled q (s.enqueuePendingPayload F q payload).2 := by
  rw [LeavesSlot, Classical.not_imp, not_or, not_or, awaitedHeight_free hfree] at h
  obtain ⟨hadmits, hheight, hmissing, hlast⟩ := h
  have hnew : F.height payload ∉ s.pendingPayloads.keys := by
    rw [← PyDict.contains_iff, hadmits.2.2.1]
    exact Bool.false_ne_true
  have hset : (s.enqueuePendingPayload F q payload).2.pendingPayloads.keys =
      s.pendingPayloads.keys ++ [F.height payload] := by
    rcases enqueuePendingPayload_pending (F := F) (q := q) payload s with hkept | ⟨-, hset⟩
    · obtain ⟨hpolicy, hstale, hheld, hfull⟩ := hadmits
      simp only [enqueuePendingPayload, hpolicy, hstale, hheld, hfull, Bool.false_eq_true, ↓reduceIte]
      exact PyDict.keys_set_of_not_mem hnew payload
    · rw [hset, PyDict.keys_set_of_not_mem hnew]
  have hsame := sameIndex_enqueuePendingPayload (F := F) (q := q) payload s
  have hnext := nextExpectedHeight_congr hsame.indexedHeight
  have hfresh : s.nextExpectedHeight ≤ F.height payload := by
    have hstale : ¬ ∃ i, s.indexedHeight = some i ∧ F.height payload ≤ i := by
      rw [← isStalePayload_iff, hadmits.2.1]
      exact Bool.false_ne_true
    rcases hi : s.indexedHeight with _ | i
    · simpa only [nextExpectedHeight, hi] using hpayload
    · simp only [nextExpectedHeight, hi]
      by_contra hlt
      exact hstale ⟨i, hi, by omega⟩
  refine ⟨?_, ?_, hsame.worker ▸ hfree, ?_⟩
  · rw [isFull_iff, hset, List.length_append, List.length_singleton]
    push_cast
    omega
  · rw [hset, hnext, List.mem_append, List.mem_singleton, not_or]
    exact ⟨fun hmem => hmissing (PyDict.contains_iff.2 hmem), fun heq => hheight heq.symm⟩
  · rw [hset, hnext]
    intro k hk
    rcases List.mem_append.1 hk with hk | hk
    · exact hlater k hk
    · rwa [List.mem_singleton.1 hk]

/-- A full buffer takes no payload. -/
theorem pending_enqueuePendingPayload_full (hfull : s.isFull q = true) (payload : P) :
    (s.enqueuePendingPayload F q payload).2.pendingPayloads = s.pendingPayloads := by
  rcases enqueuePendingPayload_pending (F := F) (q := q) payload s with hkept | ⟨hadmits, -⟩
  · exact hkept
  · rw [hadmits.2.2.2] at hfull
    cases hfull

theorem isFull_congr (h : s'.pendingPayloads = s.pendingPayloads) : s'.isFull q = s.isFull q := by
  unfold isFull
  rw [h]

theorem pending_replayFiles_full (hfull : s.isFull q = true) (unlinkFails : String → Bool) (paths : List String) :
    (s.replayFiles F q unlinkFails paths).2.pendingPayloads = s.pendingPayloads := by
  induction paths generalizing s with
  | nil => rfl
  | cons path rest ih =>
    unfold replayFiles
    split
    · rfl
    rename_i payload _
    split
    · have hkept := unlink_pending unlinkFails path s
      rcases hs : s.unlink unlinkFails path with ⟨_ | _, t⟩
      all_goals rw [hs] at hkept
      · exact hkept
      · exact (ih ((isFull_congr hkept).trans hfull)).trans hkept
    · have hkept := pending_enqueuePendingPayload_full (F := F) hfull payload
      rcases hs : s.enqueuePendingPayload F q payload with ⟨_ | _, t⟩
      all_goals rw [hs] at hkept
      · exact hkept
      · exact (ih ((isFull_congr hkept).trans hfull)).trans hkept

theorem Stalled.same (h : Stalled q s) (hs : SameIndex F s s') (hpending : s'.pendingPayloads = s.pendingPayloads) :
    Stalled q s' := by
  have hnext := nextExpectedHeight_congr hs.indexedHeight
  refine ⟨(isFull_congr hpending).trans h.full, ?_, hs.worker ▸ h.free, ?_⟩
  · rw [hnext, hpending]
    exact h.missing
  · rw [hnext, hpending]
    exact h.later

theorem pruneStalePendingPayloads_eq_self (h : ∀ k ∈ s.pendingPayloads.keys, s.nextExpectedHeight ≤ k) :
    s.pruneStalePendingPayloads = s := by
  unfold pruneStalePendingPayloads
  rcases hi : s.indexedHeight with _ | i
  · rfl
  · have hnone : s.pendingPayloads.keys.filter (· ≤ i) = [] := by
      refine List.filter_eq_nil_iff.2 fun k hk => ?_
      have hle := h k hk
      simp only [nextExpectedHeight, hi] at hle
      simp only [decide_eq_true_eq]
      omega
    dsimp only
    rw [hnone, ← hi]
    rfl

theorem pending_compactFiles (unlinkFails : String → Bool) (indexed : Int) (paths : List String) (s : BdsState P) :
    (s.compactFiles F unlinkFails indexed paths).pendingPayloads = s.pendingPayloads := by
  induction paths generalizing s with
  | nil => rfl
  | cons path rest ih =>
    unfold compactFiles
    split
    · rfl
    split
    · exact ih s
    · have hkept := unlink_pending unlinkFails path s
      rcases hs : s.unlink unlinkFails path with ⟨_ | _, t⟩
      all_goals rw [hs] at hkept
      · exact hkept
      · exact (ih t).trans hkept

theorem pending_compactSpool (unlinkFails : String → Bool) (indexed : Option Int) (paths : List String)
    (s : BdsState P) : (s.compactSpool F unlinkFails indexed paths).pendingPayloads = s.pendingPayloads := by
  unfold compactSpool
  split
  · rfl
  · exact pending_compactFiles unlinkFails _ paths s

section Stall

variable {base : List BlockRow} {first : Int} {n : Nat}

theorem Stalled.refreshStatus (h : Stalled q s) (hinv : Inv F base first n s)
    (hbase : ∀ row ∈ base, row.height < first) {read : Option Int} (hread : ∀ x, read = some x → Indexed s x) :
    Stalled q (s.refreshStatus read) ∧ (s.refreshStatus read).blocks = s.blocks := by
  -- whatever was read lies below the next height, so nothing is refreshed
  have hnext := h.free
  replace hnext := hinv.next_free hnext
  have hkept : s.refreshStatus read = s.pruneStalePendingPayloads := by
    unfold BdsState.refreshStatus
    rcases read with _ | x
    · rfl
    · have hx := hread x rfl
      have hlt := hinv.toIndex.lt hbase hx
      rcases hi : s.indexedHeight with _ | i
      · obtain ⟨rfl, rfl⟩ := hinv.unindexed hi
        obtain ⟨new, hblocks, hnew⟩ := hinv.blocks
        simp only [nextExpectedHeight, hi] at hnext
        obtain rfl : n = 0 := by omega
        rw [Indexed, hblocks, List.nil_append, hnew] at hx
        cases hx
      · rw [nextExpectedHeight, hi] at hnext
        dsimp only at hnext ⊢
        rw [if_neg (by omega)]
  rw [hkept, pruneStalePendingPayloads_eq_self h.later]
  exact ⟨h, rfl⟩

/-- In a stalled service no step writes a row or moves the buffer. -/
theorem Stalled.step (h : Stalled q s) (hinv : Inv F base first n s) (hbase : ∀ row ∈ base, row.height < first)
    (hstep : Step F q s s') : Stalled q s' ∧ s'.blocks = s.blocks := by
  have hbusy : ∀ p, s.worker.payload? ≠ some p := fun p hp => by
    rw [h.free] at hp
    cases hp
  cases hstep with
  | enqueue writeFails p =>
    have hsame := sameIndex_enqueueBlock (F := F) (q := q) writeFails p s
    refine ⟨h.same hsame ?_, hsame.blocks⟩
    unfold enqueueBlock
    split
    · rfl
    split
    · rfl
    split
    · rfl
    rename_i text _
    split
    · rfl
    have hkept := pending_enqueuePendingPayload_full (F := F) (q := q)
      (s := { s with spool := s.spool.set (spoolFileName F p) text }) h.full p
    dsimp only
    rcases hs : enqueuePendingPayload F q p { s with spool := s.spool.set (spoolFileName F p) text } with
      ⟨_ | _ | _, t⟩
    all_goals rw [hs] at hkept
    all_goals exact hkept
  | replay unlinkFails =>
    have hsame := sameIndex_replaySpool (F := F) (q := q) unlinkFails s
    refine ⟨h.same hsame ?_, hsame.blocks⟩
    unfold replaySpool
    split
    · rfl
    · exact pending_replayFiles_full h.full unlinkFails _
  | wake unlinkFails hw _ =>
    have hnone : s.pendingPayloads.get? s.nextExpectedHeight = none := PyDict.get?_eq_none_iff.2 h.missing
    have hfull : isFull q { s with pendingEvent := false } = true := h.full
    unfold BdsState.takeNext
    rw [hnone]
    unfold BdsState.finishRound
    simp only [hfull, ↓reduceIte, and_true]
    exact ⟨h.full, h.missing, rfl, h.later⟩
  | @fetch p hw => exact absurd (by rw [hw]; rfl) (hbusy p)
  | @recognised p unlinkFails hw => exact absurd (by rw [hw]; rfl) (hbusy p)
  | @mismatch p row hw _ => exact absurd (by rw [hw]; rfl) (hbusy p)
  | @absent p hw => exact absurd (by rw [hw]; rfl) (hbusy p)
  | @commit p hw _ => exact absurd (by rw [hw]; rfl) (hbusy p)
  | @persisted p unlinkFails hw => exact absurd (by rw [hw]; rfl) (hbusy p)
  | @fail p hp => exact absurd hp (hbusy p)
  | @retry p hw => exact absurd (by rw [hw]; rfl) (hbusy p)
  | catchUpStart _ => exact ⟨⟨h.full, h.missing, h.free, h.later⟩, rfl⟩
  | catchUpFrom latest _ =>
    have hsame : SameIndex F s (s.catchUpFrom q latest) := sameIndex_catchUpLoop _ _ _ s
    exact ⟨h.same hsame (pending_catchUpLoop _ _ _ s), hsame.blocks⟩
  | @catchUpBuilt next target p _ =>
    have hsame := sameIndex_catchUpBuilt (F := F) (q := q) p next target s
    refine ⟨h.same hsame ?_, hsame.blocks⟩
    have hkept := pending_enqueuePendingPayload_full (F := F) h.full p
    unfold BdsState.catchUpBuilt
    rcases hs : s.enqueuePendingPayload F q p with ⟨_ | _ | _, t⟩
    all_goals rw [hs] at hkept
    · exact hkept
    · exact hkept
    · exact (pending_catchUpLoop _ _ _ t).trans hkept
  | catchUpFails => exact ⟨⟨h.full, h.missing, h.free, h.later⟩, rfl⟩
  | statusRead => exact ⟨⟨h.full, h.missing, h.free, h.later⟩, rfl⟩
  | statusReadFails => exact ⟨⟨h.full, h.missing, h.free, h.later⟩, rfl⟩
  | status hread =>
    obtain ⟨hs, hblocks⟩ := h.refreshStatus hinv hbase fun x hx => hinv.statusReads x (hx ▸ hread)
    exact ⟨⟨hs.full, hs.missing, hs.free, hs.later⟩, hblocks⟩
  | compactStart _ => exact ⟨⟨h.full, h.missing, h.free, h.later⟩, rfl⟩
  | compactRead _ => exact ⟨⟨h.full, h.missing, h.free, h.later⟩, rfl⟩
  | @compact paths indexed unlinkFails _ =>
    have hsame := sameIndex_compactSpool (F := F) unlinkFails indexed paths s
    have hkept : (s.compactSpool F unlinkFails indexed paths).pendingPayloads = s.pendingPayloads :=
      pending_compactSpool unlinkFails indexed paths s
    have hs := h.same hsame hkept
    exact ⟨⟨hs.full, hs.missing, hs.free, hs.later⟩, hsame.blocks⟩

end Stall

/-- Indexing stops for good: once the buffer is stalled, no run writes another row. -/
theorem Stalled.run {s₀ : BdsState P} (hstart : Started s₀) (hrun : Relation.ReflTransGen (Step F q) s₀ s)
    (h : Stalled q s) (hlater : Relation.ReflTransGen (Step F q) s s') : Stalled q s' ∧ s'.blocks = s.blocks := by
  have hinv : ∀ {t}, Relation.ReflTransGen (Step F q) s₀ t → ∃ n, Inv F s₀.blocks s₀.nextExpectedHeight n t := by
    intro t ht
    induction ht with
    | refl => exact ⟨0, hstart.inv⟩
    | tail _ hstep ih =>
      obtain ⟨n, hn⟩ := ih
      exact hn.step hstart.lt_next hstep
  induction hlater with
  | refl => exact ⟨h, rfl⟩
  | tail hto hstep ih =>
    obtain ⟨n, hn⟩ := hinv (hrun.trans hto)
    obtain ⟨hs, hblocks⟩ := ih.1.step hn hstart.lt_next hstep
    exact ⟨hs, hblocks.trans ih.2⟩

/-- Three blocks in order and a buffer of one slot: the second one is refused while the first is pending, and the
third one takes its slot while the worker writes the first. -/
theorem stalled_by_ordered_blocks : Started freshService ∧ ∃ s, Relation.ReflTransGen (Step emptyBlocks 1) freshService s ∧
    s.isFull 1 = true ∧ s.worker.payload? = none ∧ s.pendingPayloads.contains s.nextExpectedHeight = false := by
  have henqueued : Relation.ReflTransGen (Step emptyBlocks 1) freshService _ :=
    .single (.enqueue freshService false firstBlock)
  have htaken := (henqueued.tail (.enqueue _ false ⟨2, "0c", "0D"⟩)).tail (.wake (fun _ => false) rfl rfl)
  have hinserted := ((htaken.tail (.fetch rfl)).tail (.absent rfl)).tail (.commit rfl rfl)
  have hrun := (hinserted.tail (.enqueue _ false ⟨3, "0e", "0F"⟩)).tail (.persisted (fun _ => false) rfl)
  exact ⟨⟨rfl, rfl, rfl, rfl⟩, _, hrun, rfl, rfl, rfl⟩

end BdsState

end XianAbci
