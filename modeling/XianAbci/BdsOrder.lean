import XianAbci.Bds

/-!
# The order of indexing

The worker is the only writer of the `blocks` table. Between two rounds the indexed height is the last
height it wrote. While it holds a payload, either that payload is the next one and nothing has moved, or
its row is already there and a status query may have noticed before the worker does (`Phase`).
-/

namespace XianAbci

namespace BdsState

variable {P : Type} {F : PayloadFormat P} {q : Int} {s s' : BdsState P}

/-- Pending payloads are filed under their height. -/
def Keyed (F : PayloadFormat P) (s : BdsState P) : Prop :=
  ∀ k p, s.pendingPayloads.get? k = some p → F.height p = k

theorem isStalePayload_iff {payload : P} :
    s.isStalePayload F payload = true ↔ ∃ i, s.indexedHeight = some i ∧ F.height payload ≤ i := by
  unfold isStalePayload
  rcases s.indexedHeight with _ | i <;> simp

/-! ### Steps that leave the index alone -/

/-- Nothing of the index has changed, and the buffer is still filed by height. -/
structure SameIndex (F : PayloadFormat P) (s s' : BdsState P) : Prop where
  blocks : s'.blocks = s.blocks
  indexedHeight : s'.indexedHeight = s.indexedHeight
  worker : s'.worker = s.worker
  statusReads : s'.statusReads = s.statusReads
  keyed : Keyed F s → Keyed F s'

theorem SameIndex.refl (F : PayloadFormat P) (s : BdsState P) : SameIndex F s s := ⟨rfl, rfl, rfl, rfl, id⟩

theorem SameIndex.trans {s'' : BdsState P} (h : SameIndex F s s') (h' : SameIndex F s' s'') : SameIndex F s s'' :=
  ⟨h'.blocks.trans h.blocks, h'.indexedHeight.trans h.indexedHeight, h'.worker.trans h.worker,
    h'.statusReads.trans h.statusReads, h'.keyed ∘ h.keyed⟩

theorem Keyed.set {k : Int} {p : P} (h : Keyed F s) (hk : F.height p = k) :
    Keyed F { s with pendingPayloads := s.pendingPayloads.set k p } := by
  intro k' p' hget
  rw [PyDict.get?_set] at hget
  split at hget
  · rename_i heq
    obtain rfl := Option.some.inj hget
    rw [heq, hk]
  · exact h k' p' hget

theorem Keyed.erase {k : Int} (h : Keyed F s) :
    Keyed F { s with pendingPayloads := s.pendingPayloads.erase k } := by
  intro k' p' hget
  rw [PyDict.get?_erase] at hget
  split at hget
  · cases hget
  · exact h k' p' hget

theorem sameIndex_enqueuePendingPayload (p : P) (s : BdsState P) :
    SameIndex F s (s.enqueuePendingPayload F q p).2 := by
  unfold enqueuePendingPayload
  split
  · exact .refl F s
  · split_ifs
    · exact .refl F s
    · exact .refl F s
    · exact .refl F s
    · exact ⟨rfl, rfl, rfl, rfl, fun h => h.set rfl⟩

theorem sameIndex_pruneStalePendingPayloads (s : BdsState P) : SameIndex F s s.pruneStalePendingPayloads := by
  unfold pruneStalePendingPayloads
  split
  · exact .refl F s
  · rename_i indexed hindexed
    refine ⟨rfl, rfl, rfl, rfl, ?_⟩
    generalize s.pendingPayloads.keys.filter (· ≤ indexed) = stale
    induction stale generalizing s with
    | nil => exact id
    | cons k stale ih => exact fun h => ih { s with pendingPayloads := s.pendingPayloads.erase k } hindexed h.erase

theorem sameIndex_unlink (unlinkFails : String → Bool) (name : String) (s : BdsState P) :
    SameIndex F s (s.unlink unlinkFails name).2 := by
  unfold unlink
  split
  · exact .refl F s
  · exact ⟨rfl, rfl, rfl, rfl, id⟩

theorem sameIndex_replayFiles (unlinkFails : String → Bool) (paths : List String) (s : BdsState P) :
    SameIndex F s (s.replayFiles F q unlinkFails paths).2 := by
  induction paths generalizing s with
  | nil => exact .refl F s
  | cons path rest ih =>
    unfold replayFiles
    split
    · exact .refl F s
    rename_i payload _
    split
    · have hunlink := sameIndex_unlink (F := F) unlinkFails path s
      rcases hs : s.unlink unlinkFails path with ⟨_ | _, t⟩
      · rw [hs] at hunlink; exact hunlink
      · rw [hs] at hunlink; exact hunlink.trans (ih t)
    · have henqueue := sameIndex_enqueuePendingPayload (F := F) (q := q) payload s
      rcases hs : s.enqueuePendingPayload F q payload with ⟨_ | _, t⟩
      · rw [hs] at henqueue; exact henqueue
      · rw [hs] at henqueue; exact henqueue.trans (ih t)

theorem sameIndex_replaySpool (unlinkFails : String → Bool) (s : BdsState P) :
    SameIndex F s (s.replaySpool F q unlinkFails).2 := by
  unfold replaySpool
  split
  · exact .refl F s
  · exact sameIndex_replayFiles unlinkFails _ s

theorem sameIndex_enqueueBlock (writeFails : Bool) (p : P) (s : BdsState P) :
    SameIndex F s (s.enqueueBlock F q writeFails p).2 := by
  unfold enqueueBlock
  split
  · exact .refl F s
  split
  · exact .refl F s
  split
  · exact .refl F s
  rename_i text _
  split
  · exact .refl F s
  have hspool : SameIndex F s { s with spool := s.spool.set (spoolFileName F p) text } := ⟨rfl, rfl, rfl, rfl, id⟩
  have henqueue := sameIndex_enqueuePendingPayload (F := F) (q := q) p
    { s with spool := s.spool.set (spoolFileName F p) text }
  dsimp only
  rcases hs : enqueuePendingPayload F q p { s with spool := s.spool.set (spoolFileName F p) text } with
    ⟨_ | _ | _, t⟩
  · rw [hs] at henqueue; exact hspool.trans henqueue
  · rw [hs] at henqueue; exact hspool.trans (henqueue.trans ⟨rfl, rfl, rfl, rfl, id⟩)
  · rw [hs] at henqueue; exact hspool.trans henqueue

theorem sameIndex_catchUpLoop (target : Int) (fuel : Nat) (next : Int) (s : BdsState P) :
    SameIndex F s (s.catchUpLoop q target fuel next) := by
  induction fuel generalizing next with
  | zero => exact ⟨rfl, rfl, rfl, rfl, id⟩
  | succ fuel ih =>
    unfold catchUpLoop
    split_ifs
    · exact ⟨rfl, rfl, rfl, rfl, id⟩
    · exact ⟨rfl, rfl, rfl, rfl, id⟩
    · exact ih (next + 1)
    · exact ⟨rfl, rfl, rfl, rfl, id⟩

theorem sameIndex_catchUpBuilt (p : P) (next target : Int) (s : BdsState P) :
    SameIndex F s (s.catchUpBuilt F q p next target) := by
  have henqueue := sameIndex_enqueuePendingPayload (F := F) (q := q) p s
  unfold catchUpBuilt
  rcases hs : s.enqueuePendingPayload F q p with ⟨_ | _ | _, t⟩
  · rw [hs] at henqueue; exact henqueue.trans ⟨rfl, rfl, rfl, rfl, id⟩
  · rw [hs] at henqueue; exact henqueue.trans ⟨rfl, rfl, rfl, rfl, id⟩
  · rw [hs] at henqueue; exact henqueue.trans (sameIndex_catchUpLoop target _ _ t)

theorem sameIndex_compactFiles (unlinkFails : String → Bool) (indexed : Int) (paths : List String)
    (s : BdsState P) : SameIndex F s (s.compactFiles F unlinkFails indexed paths) := by
  induction paths generalizing s with
  | nil => exact .refl F s
  | cons path rest ih =>
    unfold compactFiles
    split
    · exact .refl F s
    split
    · exact ih s
    · have hunlink := sameIndex_unlink (F := F) unlinkFails path s
      rcases hs : s.unlink unlinkFails path with ⟨_ | _, t⟩
      · rw [hs] at hunlink; exact hunlink
      · rw [hs] at hunlink; exact hunlink.trans (ih t)

theorem sameIndex_compactSpool (unlinkFails : String → Bool) (indexed : Option Int) (paths : List String)
    (s : BdsState P) : SameIndex F s (s.compactSpool F unlinkFails indexed paths) := by
  unfold compactSpool
  split
  · exact .refl F s
  · exact sameIndex_compactFiles unlinkFails _ paths s

/-- The end of a round leaves the worker waiting or stopped, and the index alone. -/
theorem finishRound_index (unlinkFails : String → Bool) (s : BdsState P) :
    SameIndex F s { s.finishRound F q unlinkFails with worker := s.worker } ∧
      (s.finishRound F q unlinkFails).worker.payload? = none := by
  have hreplay : ∀ t : BdsState P, ∀ r, (if s.isFull q then (.ok (), s)
      else s.replaySpool F q unlinkFails) = (r, t) → SameIndex F s t := by
    intro t r h
    split at h
    · obtain rfl := (Prod.mk.inj h).2
      exact .refl F s
    · obtain rfl := (Prod.mk.inj h).2
      exact sameIndex_replaySpool unlinkFails s
  unfold finishRound
  rcases hs : (if s.isFull q then (.ok (), s)
    else s.replaySpool F q unlinkFails) with ⟨_ | _, t⟩
  all_goals
    have hsame := hreplay t _ hs
    simp only [hs]
    exact ⟨⟨hsame.blocks, hsame.indexedHeight, rfl, hsame.statusReads, hsame.keyed⟩, rfl⟩

/-! ### The invariant -/

/-- The heights from `first` on, `n` of them. -/
def consecutive (first : Int) (n : Nat) : List Int := (List.range n).map fun i : Nat => first + (i : Int)

theorem consecutive_succ (first : Int) (n : Nat) : consecutive first (n + 1) = consecutive first n ++ [first + n] := by
  simp [consecutive, List.range_succ]

theorem lt_of_mem_consecutive {first h : Int} {n : Nat} (hh : h ∈ consecutive first n) : h < first + n := by
  obtain ⟨i, hi, rfl⟩ := List.mem_map.1 hh
  have := List.mem_range.1 hi
  omega

theorem le_of_mem_consecutive {first h : Int} {n : Nat} (hh : h ∈ consecutive first n) : first ≤ h := by
  obtain ⟨i, -, rfl⟩ := List.mem_map.1 hh
  omega

theorem nodup_consecutive (first : Int) (n : Nat) : (consecutive first n).Nodup := by
  refine List.Nodup.map (fun i j hij => ?_) List.nodup_range
  omega

/-- A height of the table. -/
def Indexed (s : BdsState P) (h : Int) : Prop := h ∈ s.blocks.map BlockRow.height

/-- Where the worker is in the round of `height`: it has yet to write its row and nothing has moved, or the row
is there. -/
inductive Round (F : PayloadFormat P) (s : BdsState P) (last : Int) (p : P) : Prop
  | fresh : F.height p = last + 1 → s.nextExpectedHeight = last + 1 → Round F s last p
  | saved : F.height p = last → blockRow F p ∈ s.blocks → s.nextExpectedHeight ≤ last + 1 → Round F s last p

/-- What the worker's phase says about the last height of the table. -/
def Phase (F : PayloadFormat P) (s : BdsState P) (last : Int) : WorkerPhase P → Prop
  | .waiting | .stopped => s.nextExpectedHeight = last + 1
  | .checking p | .retrying p => Round F s last p
  | .answered p none | .inserting p => F.height p = last + 1 ∧ s.nextExpectedHeight = last + 1
  | .answered p (some _) | .inserted p =>
    F.height p = last ∧ blockRow F p ∈ s.blocks ∧ s.nextExpectedHeight ≤ last + 1

/-- The worker has written `n` rows, from the height `first` on, to a table that had `base`. -/
structure Index (F : PayloadFormat P) (base : List BlockRow) (first : Int) (n : Nat) (s : BdsState P) : Prop where
  blocks : ∃ new, s.blocks = base ++ new ∧ new.map BlockRow.height = consecutive first n
  keyed : Keyed F s
  indexed : ∀ i, s.indexedHeight = some i → Indexed s i
  unindexed : s.indexedHeight = none → base = [] ∧ first = 0
  statusReads : ∀ h, some h ∈ s.statusReads → Indexed s h

structure Inv (F : PayloadFormat P) (base : List BlockRow) (first : Int) (n : Nat) (s : BdsState P) : Prop
    extends Index F base first n s where
  phase : Phase F s (first + n - 1) s.worker

section Steps

variable {base : List BlockRow} {first : Int} {n : Nat}

theorem nextExpectedHeight_congr (h : s'.indexedHeight = s.indexedHeight) :
    s'.nextExpectedHeight = s.nextExpectedHeight := by
  unfold nextExpectedHeight
  rw [h]

theorem Phase.congr {last : Int} {w : WorkerPhase P} (h : Phase F s last w) (hblocks : s'.blocks = s.blocks)
    (hindexed : s'.indexedHeight = s.indexedHeight) : Phase F s' last w := by
  have hnext := nextExpectedHeight_congr hindexed
  rcases w with _ | p | ⟨p, _ | row⟩ | p | p | p | _
  · exact hnext.trans h
  · rcases h with ⟨hp, hn⟩ | ⟨hp, hrow, hn⟩
    · exact .fresh hp (hnext.trans hn)
    · exact .saved hp (hblocks ▸ hrow) (hnext.trans_le hn)
  · exact ⟨h.1, hnext.trans h.2⟩
  · exact ⟨h.1, hblocks ▸ h.2.1, hnext.trans_le h.2.2⟩
  · exact ⟨h.1, hnext.trans h.2⟩
  · exact ⟨h.1, hblocks ▸ h.2.1, hnext.trans_le h.2.2⟩
  · rcases h with ⟨hp, hn⟩ | ⟨hp, hrow, hn⟩
    · exact .fresh hp (hnext.trans hn)
    · exact .saved hp (hblocks ▸ hrow) (hnext.trans_le hn)
  · exact hnext.trans h

theorem Index.congr (h : Index F base first n s) (hblocks : s'.blocks = s.blocks)
    (hindexed : s'.indexedHeight = s.indexedHeight) (hreads : s'.statusReads = s.statusReads)
    (hkeyed : Keyed F s') : Index F base first n s' where
  blocks := hblocks ▸ h.blocks
  keyed := hkeyed
  indexed i hi := by
    unfold Indexed
    rw [hblocks]
    exact h.indexed i (hindexed ▸ hi)
  unindexed hnone := h.unindexed (hindexed ▸ hnone)
  statusReads x hx := by
    unfold Indexed
    rw [hblocks]
    exact h.statusReads x (hreads ▸ hx)

/-- The worker moves on; table and indexed height stay. -/
theorem Inv.move (h : Inv F base first n s) (hblocks : s'.blocks = s.blocks)
    (hindexed : s'.indexedHeight = s.indexedHeight) (hreads : s'.statusReads = s.statusReads) (hkeyed : Keyed F s')
    (hphase : Phase F s (first + n - 1) s'.worker) : Inv F base first n s' :=
  ⟨h.toIndex.congr hblocks hindexed hreads hkeyed, hphase.congr hblocks hindexed⟩

theorem Inv.same (h : Inv F base first n s) (hs : SameIndex F s s') : Inv F base first n s' :=
  h.move hs.blocks hs.indexedHeight hs.statusReads (hs.keyed h.keyed) (hs.worker ▸ h.phase)

theorem Index.lt (h : Index F base first n s) (hbase : ∀ row ∈ base, row.height < first) {x : Int}
    (hx : Indexed s x) : x < first + n := by
  obtain ⟨new, hblocks, hnew⟩ := h.blocks
  unfold Indexed at hx
  rw [hblocks, List.map_append, hnew] at hx
  rcases List.mem_append.1 hx with hx | hx
  · obtain ⟨row, hrow, rfl⟩ := List.mem_map.1 hx
    have := hbase row hrow
    omega
  · exact lt_of_mem_consecutive hx

theorem rowAt_eq_none_iff {height : Int} : s.rowAt height = none ↔ ¬ Indexed s height := by
  simp [rowAt, Indexed]

/-- The end of a round, with the indexed height up to date. -/
theorem Index.finishRound (h : Index F base first n s) (hnext : s.nextExpectedHeight = first + n)
    (unlinkFails : String → Bool) : Inv F base first n (s.finishRound F q unlinkFails) := by
  obtain ⟨hsame, hworker⟩ := finishRound_index (F := F) (q := q) unlinkFails s
  refine ⟨h.congr hsame.blocks hsame.indexedHeight hsame.statusReads (hsame.keyed h.keyed), ?_⟩
  have hlast : (s.finishRound F q unlinkFails).nextExpectedHeight = first + n - 1 + 1 := by
    have hsame : _ = s.nextExpectedHeight := nextExpectedHeight_congr hsame.indexedHeight
    exact hsame.trans (by omega)
  revert hworker
  rcases (s.finishRound F q unlinkFails).worker with _ | p | ⟨p, _ | _⟩ | p | p | p | _
  all_goals intro hworker
  all_goals first | exact hlast | cases hworker

theorem Inv.takeNext (h : Inv F base first n s) (hwaiting : s.worker = .waiting) (unlinkFails : String → Bool) :
    Inv F base first n (s.takeNext F q unlinkFails) := by
  have hphase := h.phase
  rw [hwaiting] at hphase
  have hnext : s.nextExpectedHeight = first + n - 1 + 1 := hphase
  unfold BdsState.takeNext
  split
  · have hindex : Index F base first n { s with pendingEvent := false } := h.toIndex.congr rfl rfl rfl h.keyed
    have hnext' : s.nextExpectedHeight = first + n := by omega
    exact hindex.finishRound hnext' unlinkFails
  · rename_i payload hget
    have hheight : F.height payload = first + n - 1 + 1 := (h.keyed _ _ hget).trans hnext
    exact h.move rfl rfl rfl h.keyed.erase (.fresh hheight hnext)

/-- The payload whose row is the last of the table is acknowledged. -/
theorem Index.blockPersisted (h : Index F base first n s) {p : P} (hp : F.height p = first + n - 1)
    (hrow : blockRow F p ∈ s.blocks) (unlinkFails : String → Bool) :
    Inv F base first n (s.blockPersisted F q unlinkFails p) := by
  have hmarked : Index F base first n { s with indexedHeight := some (F.height p) } := by
    refine ⟨h.blocks, h.keyed, fun i hi => ?_, fun hnone => absurd hnone (by simp), h.statusReads⟩
    obtain rfl := Option.some.inj hi
    exact List.mem_map.2 ⟨_, hrow, rfl⟩
  have hexpected : ∀ t : BdsState P, t.indexedHeight = some (F.height p) → t.nextExpectedHeight = first + n := by
    intro t ht
    rw [nextExpectedHeight, ht]
    dsimp only
    omega
  have hunlink := sameIndex_unlink (F := F) unlinkFails (spoolFileName F p)
    { s with indexedHeight := some (F.height p) }
  unfold BdsState.blockPersisted
  dsimp only
  rcases hs : unlink unlinkFails (spoolFileName F p) { s with indexedHeight := some (F.height p) } with ⟨_ | _, t⟩
  · -- the file stays: the worker is busy with the same payload again
    rw [hs] at hunlink
    have hnext := hexpected t hunlink.indexedHeight
    refine ⟨hmarked.congr hunlink.blocks hunlink.indexedHeight hunlink.statusReads (hunlink.keyed h.keyed), ?_⟩
    exact .saved hp (hunlink.blocks ▸ hrow) (show t.nextExpectedHeight ≤ _ by omega)
  · rw [hs] at hunlink
    have hprune := sameIndex_pruneStalePendingPayloads (F := F) t
    have hpruned := (hmarked.congr hunlink.blocks hunlink.indexedHeight hunlink.statusReads (hunlink.keyed h.keyed)).congr
      hprune.blocks hprune.indexedHeight hprune.statusReads (hprune.keyed (hunlink.keyed h.keyed))
    exact hpruned.finishRound (hexpected _ (hprune.indexedHeight.trans hunlink.indexedHeight)) unlinkFails

/-- A status query can move the indexed height only to the row that the worker has written and not yet seen. -/
theorem Inv.refreshStatus (h : Inv F base first n s) (hbase : ∀ row ∈ base, row.height < first) {read : Option Int}
    (hread : ∀ x, read = some x → Indexed s x) : Inv F base first n (s.refreshStatus read) := by
  -- a height that is read lies below the next row, and raises the indexed height only if that lags behind
  have hmoved : ∀ x, Indexed s x → (∀ i, s.indexedHeight = some i → i < x) →
      Inv F base first n { s with indexedHeight := some x } := by
    intro x hx hlt
    have hbound := h.toIndex.lt hbase hx
    have hlag : s.nextExpectedHeight < first + n := by
      rcases hi : s.indexedHeight with _ | i
      · obtain ⟨rfl, rfl⟩ := h.unindexed hi
        obtain ⟨new, hblocks, hnew⟩ := h.blocks
        have hmem : x ∈ consecutive 0 n := by
          unfold Indexed at hx
          rwa [hblocks, List.nil_append, hnew] at hx
        obtain ⟨k, -, rfl⟩ := List.mem_map.1 hmem
        simp only [nextExpectedHeight, hi]
        omega
      · have := hlt i hi
        simp only [nextExpectedHeight, hi]
        omega
    refine ⟨⟨h.blocks, h.keyed, fun i hi => ?_, fun hnone => absurd hnone (by simp), h.statusReads⟩, ?_⟩
    · obtain rfl := Option.some.inj hi
      exact hx
    · have hphase := h.phase
      show Phase F _ _ s.worker
      have hnext : BdsState.nextExpectedHeight { s with indexedHeight := some x } ≤ first + n - 1 + 1 :=
        show x + 1 ≤ _ by omega
      rcases hw : s.worker with _ | p | ⟨p, _ | row⟩ | p | p | p | _
      all_goals rw [hw] at hphase
      · have hn : s.nextExpectedHeight = first + n - 1 + 1 := hphase
        omega
      · rcases hphase with ⟨-, hn⟩ | ⟨hp, hrow, -⟩
        · omega
        · exact .saved hp hrow hnext
      · exact absurd hphase.2 (by omega)
      · exact ⟨hphase.1, hphase.2.1, hnext⟩
      · exact absurd hphase.2 (by omega)
      · exact ⟨hphase.1, hphase.2.1, hnext⟩
      · rcases hphase with ⟨-, hn⟩ | ⟨hp, hrow, -⟩
        · omega
        · exact .saved hp hrow hnext
      · have hn : s.nextExpectedHeight = first + n - 1 + 1 := hphase
        omega
  unfold BdsState.refreshStatus
  rcases read with _ | x
  · exact h.same (sameIndex_pruneStalePendingPayloads s)
  · dsimp only
    split
    · rename_i hnone
      exact (hmoved x (hread x rfl) (by simp [hnone])).same (sameIndex_pruneStalePendingPayloads _)
    · rename_i i hi
      split_ifs with hlt
      · exact (hmoved x (hread x rfl) (by simpa [hi] using hlt)).same (sameIndex_pruneStalePendingPayloads _)
      · exact h.same (sameIndex_pruneStalePendingPayloads s)

theorem statusReads_refreshStatus (read : Option Int) : (s.refreshStatus read).statusReads = s.statusReads := by
  have hprune : ∀ t : BdsState P, t.pruneStalePendingPayloads.statusReads = t.statusReads := by
    intro t
    unfold pruneStalePendingPayloads
    split <;> rfl
  unfold BdsState.refreshStatus
  rw [hprune]
  split
  · rfl
  · split
    · rfl
    · split <;> rfl

theorem Inv.setStatusReads (h : Inv F base first n s) {reads : List (Option Int)}
    (hreads : ∀ x, some x ∈ reads → Indexed s x) : Inv F base first n { s with statusReads := reads } :=
  ⟨⟨h.blocks, h.keyed, h.indexed, h.unindexed, hreads⟩, h.phase.congr rfl rfl⟩

/-- A step writes at most the next row. -/
theorem Inv.step (h : Inv F base first n s) (hbase : ∀ row ∈ base, row.height < first)
    (hstep : Step F q s s') : ∃ n', Inv F base first n' s' := by
  have hphase := h.phase
  cases hstep with
  | enqueue writeFails p => exact ⟨n, h.same (sameIndex_enqueueBlock writeFails p s)⟩
  | replay unlinkFails => exact ⟨n, h.same (sameIndex_replaySpool unlinkFails s)⟩
  | wake unlinkFails hw _ => exact ⟨n, h.takeNext hw unlinkFails⟩
  | @fetch p hw =>
    rw [hw] at hphase
    refine ⟨n, h.move rfl rfl rfl h.keyed ?_⟩
    show Phase F s _ (.answered p (s.rowAt (F.height p)))
    rcases hphase with ⟨hp, hn⟩ | ⟨hp, hrow, hn⟩
    · have habsent : s.rowAt (F.height p) = none := rowAt_eq_none_iff.2 fun hindexed => by
        have := h.toIndex.lt hbase hindexed
        omega
      rw [habsent]
      exact ⟨hp, hn⟩
    · have hpresent : s.rowAt (F.height p) ≠ none := fun hnone =>
        rowAt_eq_none_iff.1 hnone (List.mem_map.2 ⟨_, hrow, rfl⟩)
      rcases hat : s.rowAt (F.height p) with _ | row
      · exact absurd hat hpresent
      · exact ⟨hp, hrow, hn⟩
  | recognised unlinkFails hw =>
    rw [hw] at hphase
    exact ⟨n, h.toIndex.blockPersisted hphase.1 hphase.2.1 unlinkFails⟩
  | mismatch hw _ =>
    rw [hw] at hphase
    exact ⟨n, h.move rfl rfl rfl h.keyed (.saved hphase.1 hphase.2.1 hphase.2.2)⟩
  | absent hw =>
    rw [hw] at hphase
    exact ⟨n, h.move rfl rfl rfl h.keyed hphase⟩
  | @commit p hw _ =>
    rw [hw] at hphase
    obtain ⟨hp, hn⟩ := hphase
    obtain ⟨new, hblocks, hnew⟩ := h.blocks
    have hkept : ∀ x, Indexed s x → x ∈ (s.blocks ++ [blockRow F p]).map BlockRow.height := by
      intro x hx
      rw [List.map_append]
      exact List.mem_append_left _ hx
    refine ⟨n + 1, ⟨⟨new ++ [blockRow F p], ?_, ?_⟩, h.keyed, fun i hi => hkept i (h.indexed i hi), h.unindexed,
      fun x hx => hkept x (h.statusReads x hx)⟩, ?_⟩
    · dsimp only
      rw [hblocks, List.append_assoc]
    · have hheight : F.height p = first + n := by omega
      rw [List.map_append, hnew, consecutive_succ, ← hheight]
      rfl
    · refine ⟨?_, List.mem_append_right _ (List.mem_singleton_self _), ?_⟩
      · push_cast
        omega
      · show s.nextExpectedHeight ≤ _
        push_cast
        omega
  | persisted unlinkFails hw =>
    rw [hw] at hphase
    exact ⟨n, h.toIndex.blockPersisted hphase.1 hphase.2.1 unlinkFails⟩
  | @fail p hp =>
    refine ⟨n, h.move rfl rfl rfl h.keyed ?_⟩
    show Round F s _ p
    rcases hw : s.worker with _ | q | ⟨q, _ | row⟩ | q | q | q | _
    all_goals rw [hw] at hp hphase
    all_goals cases hp
    · exact hphase
    · exact .fresh hphase.1 hphase.2
    · exact .saved hphase.1 hphase.2.1 hphase.2.2
    · exact .fresh hphase.1 hphase.2
    · exact .saved hphase.1 hphase.2.1 hphase.2.2
    · exact hphase
  | retry hw =>
    rw [hw] at hphase
    exact ⟨n, h.move rfl rfl rfl h.keyed hphase⟩
  | catchUpStart _ => exact ⟨n, h.same ⟨rfl, rfl, rfl, rfl, id⟩⟩
  | catchUpFrom latest _ => exact ⟨n, h.same (sameIndex_catchUpLoop _ _ _ s)⟩
  | catchUpBuilt p _ => exact ⟨n, h.same (sameIndex_catchUpBuilt p _ _ s)⟩
  | catchUpFails => exact ⟨n, h.same ⟨rfl, rfl, rfl, rfl, id⟩⟩
  | statusRead =>
    refine ⟨n, h.setStatusReads fun x hx => ?_⟩
    rcases List.mem_cons.1 hx with hx | hx
    · exact List.max?_mem hx.symm
    · exact h.statusReads x hx
  | statusReadFails =>
    refine ⟨n, h.setStatusReads fun x hx => ?_⟩
    rcases List.mem_cons.1 hx with hx | hx
    · cases hx
    · exact h.statusReads x hx
  | @status read hread =>
    have hrefreshed := h.refreshStatus hbase (fun x hx => h.statusReads x (hx ▸ hread))
    refine ⟨n, hrefreshed.setStatusReads fun x hx => hrefreshed.statusReads x ?_⟩
    rw [statusReads_refreshStatus]
    exact List.mem_of_mem_erase hx
  | compactStart _ => exact ⟨n, h.same ⟨rfl, rfl, rfl, rfl, id⟩⟩
  | compactRead _ => exact ⟨n, h.same ⟨rfl, rfl, rfl, rfl, id⟩⟩
  | @compact paths indexed unlinkFails _ =>
    exact ⟨n, h.same ((sameIndex_compactSpool unlinkFails indexed paths s).trans ⟨rfl, rfl, rfl, rfl, id⟩)⟩

end Steps

theorem Started.inv (h : Started s) : Inv F s.blocks s.nextExpectedHeight 0 s := by
  refine ⟨⟨⟨[], (List.append_nil _).symm, rfl⟩, ?_, ?_, ?_, ?_⟩, ?_⟩
  · intro k p hget
    rw [h.pendingPayloads] at hget
    cases hget
  · intro i hi
    exact List.max?_mem (h.indexedHeight.symm.trans hi)
  · intro hnone
    have hblocks : s.blocks = [] := by
      have hmax := h.indexedHeight.symm.trans hnone
      simpa [maxHeight] using hmax
    refine ⟨hblocks, ?_⟩
    rw [nextExpectedHeight, hnone]
  · rw [h.statusReads]
    intro x hx
    cases hx
  · rw [h.worker]
    show s.nextExpectedHeight = _
    omega

theorem Started.lt_next (h : Started s) : ∀ row ∈ s.blocks, row.height < s.nextExpectedHeight := by
  intro row hrow
  have hmem : row.height ∈ s.blocks.map BlockRow.height := List.mem_map.2 ⟨row, hrow, rfl⟩
  rcases hi : s.indexedHeight with _ | i
  · have hmax := h.indexedHeight.symm.trans hi
    have hblocks : s.blocks = [] := by simpa [maxHeight] using hmax
    rw [hblocks] at hrow
    cases hrow
  · have hmax : (s.blocks.map BlockRow.height).max? = some i := h.indexedHeight.symm.trans hi
    have hle := (List.max?_le_iff hmax).1 le_rfl _ hmem
    rw [nextExpectedHeight, hi]
    dsimp only
    omega

/-- In every run of the service, the rows it adds have consecutive heights from the first one above the
height indexed at its start on, each once, and the indexed height is never above the highest row. -/
theorem indexing_ordered {s₀ : BdsState P} (hstart : Started s₀)
    (hrun : Relation.ReflTransGen (Step F q) s₀ s) :
    (∃ new n, s.blocks = s₀.blocks ++ new ∧
      new.map BlockRow.height = (List.range n).map fun i : Nat => s₀.nextExpectedHeight + (i : Int)) ∧
    ((s₀.blocks.map BlockRow.height).Nodup → (s.blocks.map BlockRow.height).Nodup) ∧
    ∀ i, s.indexedHeight = some i → ∃ top, maxHeight s.blocks = some top ∧ i ≤ top := by
  have hinv : ∃ n, Inv F s₀.blocks s₀.nextExpectedHeight n s := by
    induction hrun with
    | refl => exact ⟨0, hstart.inv⟩
    | tail _ hstep ih =>
      obtain ⟨n, hn⟩ := ih
      exact hn.step hstart.lt_next hstep
  obtain ⟨n, hn⟩ := hinv
  obtain ⟨new, hblocks, hnew⟩ := hn.blocks
  refine ⟨⟨new, n, hblocks, hnew⟩, fun hnodup => ?_, fun i hi => ?_⟩
  · rw [hblocks, List.map_append, hnew]
    refine List.nodup_append.2 ⟨hnodup, nodup_consecutive _ n, fun x hx y hy => ?_⟩
    obtain ⟨row, hrow, rfl⟩ := List.mem_map.1 hx
    have hlt := hstart.lt_next row hrow
    have hle := le_of_mem_consecutive hy
    omega
  have hmem : i ∈ s.blocks.map BlockRow.height := hn.indexed i hi
  rcases hmax : (s.blocks.map BlockRow.height).max? with _ | top
  · rw [List.max?_eq_none_iff] at hmax
    rw [hmax] at hmem
    cases hmem
  · exact ⟨top, hmax, (List.max?_le_iff hmax).1 le_rfl i hmem⟩

/-! ### A lost acknowledgement -/

def genesisRow : BlockRow := ⟨0, "GENESIS", "GENESIS"⟩

def firstBlock : BlockRow := ⟨1, "0a", "0B"⟩

/-- The spool file of an empty block. -/
def emptyBlockText (row : BlockRow) : String :=
  "\x7b\"version\":2,\"execution_policy\":\x7b\"execution_revision\":\"xvm-execution-5\"," ++
  "\"gas_schedule\":\"xvm-gas-2\",\"bytecode_version\":\"xvm-1\",\"set_codec\":\"xian-set-1\"\x7d," ++
  "\"block_meta\":\x7b\"hash\":\"" ++ row.blockHash ++ "\",\"height\":" ++ toString row.height ++ ",\"nanos\":5\x7d," ++
  "\"block_time\":\"1970-01-01T00:00:00+00:00\",\"app_hash\":\"" ++ row.appHash ++
  "\",\"transactions\":[],\"state_patches\":[],\"state_patch_hash\":null\x7d"

def emptyBlocks : PayloadFormat BlockRow where
  height := BlockRow.height
  blockHash := BlockRow.blockHash
  appHash := BlockRow.appHash
  validateExecutionPolicy _ := .ok ()
  toSpool row := .ok (emptyBlockText row)
  fromSpool text :=
    if text = emptyBlockText firstBlock then .ok firstBlock
    else .error (.valueError "unsupported BDS spool format version")

def freshService : BdsState BlockRow :=
  ⟨[genesisRow], .empty, .empty, false, some 0, none, .waiting, .idle, [], []⟩

/-- The connection breaks after the commit, and a status query sees the row first; it is written once. -/
theorem indexing_ordered_lost_ack : ∃ s, Relation.ReflTransGen (Step emptyBlocks 4) freshService s ∧
    s.blocks.map BlockRow.height = [0, 1] ∧ s.indexedHeight = some 1 ∧
    ∃ top, maxHeight s.blocks = some top ∧ 1 ≤ top := by
  have hstart : Started freshService := ⟨rfl, rfl, rfl, rfl⟩
  have henqueued : Relation.ReflTransGen (Step emptyBlocks 4) freshService _ :=
    .single (.enqueue freshService false firstBlock)
  have hinserted := (((henqueued.tail (.wake (fun _ => false) rfl rfl)).tail (.fetch rfl)).tail (.absent rfl)).tail
    (.commit rfl rfl)
  have hseen := (hinserted.tail (.statusRead _)).tail (.status (List.mem_singleton_self _))
  have hrun := (((hseen.tail (.fail rfl)).tail (.retry rfl)).tail (.fetch rfl)).tail (.recognised (fun _ => false) rfl)
  exact ⟨_, hrun, rfl, rfl, (indexing_ordered hstart hrun).2.2 1 rfl⟩

end BdsState

end XianAbci
