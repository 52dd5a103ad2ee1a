import XianAbci.BdsOrder
import XianAbci.JsonLoads

/-!
# The spool directory

Between the acceptance of a block and its row in the table, the spool file is the block's only durable copy.
Files go in three places: the worker removes the file of the payload it has written, by name; replay
removes what lies at or below the indexed height it remembers, and compaction what lies at or below the
height it has read from the table, both by content. The remembered height, the height that was read and the
row of the payload are all covered by the table (`Durable`), so no file above it goes.

A crash may come between two steps or inside one. `_write_spool_file` renames a complete temporary file
(`*.json.tmp`, which no reader lists), so a crash inside it leaves the files before or after the step; a
crash inside a loop over files leaves what a step with a failing `unlink` does. After a crash a new
process starts from the table and the files (`Restart`).
-/

namespace XianAbci

namespace BdsState

variable {P : Type} {F : PayloadFormat P} {q : Int} {s s' : BdsState P}

/-! ### File names -/

theorem toList_pushn_zeros (n : Nat) : ("".pushn '0' n).toList = List.replicate n '0' := by
  rw [String.pushn_eq_repeat_push]
  induction n with
  | zero => rfl
  | succ n ih =>
    rw [Nat.repeat, String.toList_push, ih, List.replicate_succ']

/-- The height in a file name, with its sign. -/
def heightText (height : Int) : List Char :=
  let sign := if height < 0 then "-" else ""
  let digits := Nat.toDigits 10 height.natAbs
  sign.toList ++ (List.replicate (20 - sign.length - digits.length) '0' ++ digits)

theorem toList_spoolFileName (p : P) : (spoolFileName F p).toList =
    heightText (F.height p) ++ '-' :: ((F.blockHash p).toList ++ ".json".toList) := by
  have hdigits : (toString (F.height p).natAbs).toList = Nat.toDigits 10 (F.height p).natAbs := Nat.toList_repr
  have hlength : (toString (F.height p).natAbs).length = (Nat.toDigits 10 (F.height p).natAbs).length := by
    rw [← hdigits, String.length_toList]
  unfold spoolFileName heightText
  dsimp only
  simp only [String.toList_append, toList_pushn_zeros, hdigits, hlength, List.append_assoc]
  rfl

/-- The digits of a height, whatever they are padded with, give the height. -/
theorem toDigits_padded_inj {a b m n : Nat}
    (h : List.replicate a '0' ++ Nat.toDigits 10 m = List.replicate b '0' ++ Nat.toDigits 10 n) : m = n := by
  have hread : ∀ k l : Nat, Nat.ofDigitChars 10 (List.replicate k '0' ++ Nat.toDigits 10 l) 0 = l := by
    intro k l
    rw [Nat.ofDigitChars_append, Nat.ofDigitChars_replicate_zero, Nat.mul_zero, Nat.ofDigitChars_ten_toDigits]
  rw [← hread a m, h, hread]

theorem heightText_cancel {h h' : Int} {t t' : List Char}
    (heq : heightText h ++ '-' :: t = heightText h' ++ '-' :: t') : h = h' ∧ t = t' := by
  have hdigits : ∀ k n : Nat, ∀ c ∈ List.replicate k '0' ++ Nat.toDigits 10 n, c.isDigit = true := by
    intro k n c hc
    rcases List.mem_append.1 hc with hc | hc
    · rw [List.eq_of_mem_replicate hc]
      rfl
    · exact Nat.isDigit_of_mem_toDigits (by decide) (by decide) hc
  have hnonempty : ∀ k n : Nat, ∀ u v : List Char, '-' :: u ≠ List.replicate k '0' ++ Nat.toDigits 10 n ++ v := by
    intro k n u v hcons
    rcases hl : List.replicate k '0' ++ Nat.toDigits 10 n with _ | ⟨c, l⟩
    · exact Nat.toDigits_ne_nil (List.append_eq_nil_iff.1 hl).2
    · rw [hl, List.cons_append] at hcons
      have hc := hdigits k n c (hl ▸ List.mem_cons_self ..)
      rw [← (List.cons.inj hcons).1] at hc
      cases hc
  have hcancel : ∀ k k' n n' : Nat, List.replicate k '0' ++ Nat.toDigits 10 n ++ '-' :: t =
      List.replicate k' '0' ++ Nat.toDigits 10 n' ++ '-' :: t' → n = n' ∧ t = t' := by
    intro k k' n n' hsame
    obtain ⟨hpadded, hrest⟩ := takeWhile_cancel (p := Char.isDigit) (hdigits k n) (hdigits k' n')
      (by simp) (by simp) hsame
    exact ⟨toDigits_padded_inj hpadded, (List.cons.inj hrest).2⟩
  unfold heightText at heq
  dsimp only at heq
  -- a sign is not a digit
  split_ifs at heq with hneg hneg' hneg'
  · obtain ⟨hn, ht⟩ := hcancel _ _ _ _ (List.cons.inj heq).2
    exact ⟨by omega, ht⟩
  · exact absurd heq (hnonempty _ _ _ _)
  · exact absurd heq.symm (hnonempty _ _ _ _)
  · obtain ⟨hn, ht⟩ := hcancel _ _ _ _ heq
    exact ⟨by omega, ht⟩

/-- A file name tells the height and the hash of its block. -/
theorem spoolFileName_inj {p p' : P} (h : spoolFileName F p = spoolFileName F p') :
    F.height p = F.height p' ∧ F.blockHash p = F.blockHash p' := by
  have hlist := congrArg String.toList h
  rw [toList_spoolFileName, toList_spoolFileName] at hlist
  obtain ⟨hheight, hrest⟩ := heightText_cancel hlist
  exact ⟨hheight, String.toList_inj.1 (List.append_cancel_right hrest)⟩

/-! ### What a step does to the files -/

/-- `json` and the runtime's codec: a file that can be read back has its payload's height. -/
def ReadsBack (F : PayloadFormat P) : Prop :=
  ∀ p text p', F.toSpool p = .ok text → F.fromSpool text = .ok p' → F.height p' = F.height p

/-- Each file was written by `_write_spool_file`. -/
def WellNamed (F : PayloadFormat P) (spool : PyDict String String) : Prop :=
  ∀ name text, spool.get? name = some text → ∃ p, name = spoolFileName F p ∧ F.toSpool p = .ok text

/-- The table has a row at this height or above. -/
def Covered (s : BdsState P) (height : Int) : Prop := ∃ row ∈ s.blocks, height ≤ row.height

/-- Only complete files are added, and only covered ones removed. -/
structure Files (F : PayloadFormat P) (s s' : BdsState P) : Prop where
  blocks : s'.blocks = s.blocks
  compactions : s'.compactions = s.compactions
  written : WellNamed F s.spool → WellNamed F s'.spool
  removed : ∀ name, name ∈ s.spool.keys → name ∉ s'.spool.keys →
    ∃ p, name = spoolFileName F p ∧ Covered s (F.height p)

theorem Covered.congr {height : Int} (h : Covered s height) (hblocks : s'.blocks = s.blocks) : Covered s' height := by
  unfold Covered
  rwa [hblocks]

theorem Files.same (hblocks : s'.blocks = s.blocks) (hcompactions : s'.compactions = s.compactions)
    (hspool : s'.spool = s.spool) : Files F s s' where
  blocks := hblocks
  compactions := hcompactions
  written h := hspool ▸ h
  removed _ hmem hnot := absurd hmem (hspool ▸ hnot)

theorem Files.trans {t : BdsState P} (h : Files F s t) (h' : Files F t s') : Files F s s' where
  blocks := h'.blocks.trans h.blocks
  compactions := h'.compactions.trans h.compactions
  written hnamed := h'.written (h.written hnamed)
  removed name hmem hnot := by
    by_cases ht : name ∈ t.spool.keys
    · obtain ⟨p, hp, hcovered⟩ := h'.removed name ht hnot
      exact ⟨p, hp, hcovered.congr h.blocks.symm⟩
    · exact h.removed name hmem ht

theorem files_enqueuePendingPayload (p : P) (s : BdsState P) : Files F s (s.enqueuePendingPayload F q p).2 := by
  unfold enqueuePendingPayload
  split
  · exact .same rfl rfl rfl
  · split_ifs
    · exact .same rfl rfl rfl
    · exact .same rfl rfl rfl
    · exact .same rfl rfl rfl
    · exact .same rfl rfl rfl

theorem files_pruneStalePendingPayloads (s : BdsState P) : Files F s s.pruneStalePendingPayloads := by
  unfold pruneStalePendingPayloads
  split
  · exact .same rfl rfl rfl
  · exact .same rfl rfl rfl

/-- A file is removed once the table covers its block. -/
theorem files_unlink {p : P} (unlinkFails : String → Bool) {name : String} (hname : name = spoolFileName F p)
    (hcovered : Covered s (F.height p)) : Files F s (s.unlink unlinkFails name).2 := by
  unfold unlink
  split
  · exact .same rfl rfl rfl
  refine ⟨rfl, rfl, fun hnamed k text hget => ?_, fun k hmem hnot => ⟨p, ?_, hcovered⟩⟩
  · rw [PyDict.get?_erase] at hget
    split at hget
    · cases hget
    · exact hnamed k text hget
  · rw [PyDict.keys_erase, List.mem_filter, not_and] at hnot
    have hk := hnot hmem
    simp only [ne_eq, decide_not, Bool.not_eq_true', decide_eq_false_iff_not, not_not] at hk
    rw [hk, hname]

/-- A file that is read at or below a covered height belongs to a covered block. -/
theorem covered_of_read (hread : ReadsBack F) (hnamed : WellNamed F s.spool) {path : String} {payload : P} {i : Int}
    (hpayload : s.readSpoolFile F path = .ok payload) (hle : F.height payload ≤ i) (hi : Covered s i) :
    ∃ p, path = spoolFileName F p ∧ Covered s (F.height p) := by
  unfold readSpoolFile at hpayload
  rcases hget : s.spool.get? path with _ | text
  all_goals rw [hget] at hpayload
  · cases hpayload
  · obtain ⟨p, hp, htext⟩ := hnamed path text hget
    obtain ⟨row, hrow, hle'⟩ := hi
    have hheight := hread p text payload htext hpayload
    exact ⟨p, hp, row, hrow, by omega⟩

theorem files_replayFiles (hread : ReadsBack F) (unlinkFails : String → Bool) (paths : List String)
    (hnamed : WellNamed F s.spool) (hindexed : ∀ i, s.indexedHeight = some i → Covered s i) :
    Files F s (s.replayFiles F q unlinkFails paths).2 := by
  induction paths generalizing s with
  | nil => exact .same rfl rfl rfl
  | cons path rest ih =>
    have hnext : ∀ {t : BdsState P}, Files F s t → SameIndex F s t →
        Files F s (t.replayFiles F q unlinkFails rest).2 := by
      intro t hfiles hsame
      refine hfiles.trans (ih (hfiles.written hnamed) fun i hi => ?_)
      exact (hindexed i (hsame.indexedHeight ▸ hi)).congr hfiles.blocks
    unfold replayFiles
    split
    · exact .same rfl rfl rfl
    rename_i payload hpayload
    split
    · rename_i hstale
      obtain ⟨i, hi, hle⟩ := isStalePayload_iff.1 hstale
      obtain ⟨p, hp, hcovered⟩ := covered_of_read hread hnamed hpayload hle (hindexed i hi)
      have hfiles := files_unlink (F := F) unlinkFails hp hcovered
      have hsame := sameIndex_unlink (F := F) unlinkFails path s
      rcases hs : s.unlink unlinkFails path with ⟨_ | _, t⟩
      all_goals rw [hs] at hfiles hsame
      · exact hfiles
      · exact hnext hfiles hsame
    · have hfiles := files_enqueuePendingPayload (F := F) (q := q) payload s
      have hsame := sameIndex_enqueuePendingPayload (F := F) (q := q) payload s
      rcases hs : s.enqueuePendingPayload F q payload with ⟨_ | _, t⟩
      all_goals rw [hs] at hfiles hsame
      · exact hfiles
      · exact hnext hfiles hsame

theorem files_replaySpool (hread : ReadsBack F) (unlinkFails : String → Bool) (hnamed : WellNamed F s.spool)
    (hindexed : ∀ i, s.indexedHeight = some i → Covered s i) : Files F s (s.replaySpool F q unlinkFails).2 := by
  unfold replaySpool
  split
  · exact .same rfl rfl rfl
  · exact files_replayFiles hread unlinkFails _ hnamed hindexed

theorem files_finishRound (hread : ReadsBack F) (unlinkFails : String → Bool) (hnamed : WellNamed F s.spool)
    (hindexed : ∀ i, s.indexedHeight = some i → Covered s i) : Files F s (s.finishRound F q unlinkFails) := by
  have hreplayed : Files F s
      (if s.isFull q then (.ok (), s) else s.replaySpool F q unlinkFails : Except PyErr Unit × BdsState P).2 := by
    split_ifs
    · exact .same rfl rfl rfl
    · exact files_replaySpool hread unlinkFails hnamed hindexed
  unfold finishRound
  rcases hs : (if s.isFull q then (.ok (), s) else s.replaySpool F q unlinkFails :
    Except PyErr Unit × BdsState P) with ⟨_ | _, t⟩
  all_goals rw [hs] at hreplayed
  · exact hreplayed.trans (.same rfl rfl rfl)
  · exact hreplayed.trans (.same rfl rfl rfl)

theorem files_takeNext (hread : ReadsBack F) (unlinkFails : String → Bool) (hnamed : WellNamed F s.spool)
    (hindexed : ∀ i, s.indexedHeight = some i → Covered s i) : Files F s (s.takeNext F q unlinkFails) := by
  unfold takeNext
  split
  · have hcleared : Files F s { s with pendingEvent := false } := .same rfl rfl rfl
    exact hcleared.trans (files_finishRound hread unlinkFails hnamed hindexed)
  · exact .same rfl rfl rfl

theorem files_blockPersisted (hread : ReadsBack F) (unlinkFails : String → Bool) {p : P}
    (hnamed : WellNamed F s.spool) (hrow : blockRow F p ∈ s.blocks) :
    Files F s (s.blockPersisted F q unlinkFails p) := by
  have hcovered : Covered s (F.height p) := ⟨_, hrow, le_rfl⟩
  have hmarked : Files F s { s with indexedHeight := some (F.height p) } := .same rfl rfl rfl
  have hfiles := hmarked.trans (files_unlink (F := F) unlinkFails rfl (hcovered.congr hmarked.blocks))
  have hsame := sameIndex_unlink (F := F) unlinkFails (spoolFileName F p)
    { s with indexedHeight := some (F.height p) }
  unfold blockPersisted
  dsimp only
  rcases hs : unlink unlinkFails (spoolFileName F p) { s with indexedHeight := some (F.height p) } with ⟨_ | _, t⟩
  all_goals rw [hs] at hfiles hsame
  · exact hfiles.trans (.same rfl rfl rfl)
  · have hpruned := hfiles.trans (files_pruneStalePendingPayloads t)
    refine hpruned.trans (files_finishRound hread unlinkFails (hpruned.written hnamed) fun i hi => ?_)
    rw [(sameIndex_pruneStalePendingPayloads (F := F) t).indexedHeight, hsame.indexedHeight] at hi
    obtain rfl := Option.some.inj hi
    exact hcovered.congr hpruned.blocks

theorem files_compactFiles (hread : ReadsBack F) (unlinkFails : String → Bool) (indexed : Int) (paths : List String)
    (hnamed : WellNamed F s.spool) (hindexed : Covered s indexed) :
    Files F s (s.compactFiles F unlinkFails indexed paths) := by
  induction paths generalizing s with
  | nil => exact .same rfl rfl rfl
  | cons path rest ih =>
    unfold compactFiles
    split
    · exact .same rfl rfl rfl
    rename_i payload hpayload
    split
    · exact ih hnamed hindexed
    · obtain ⟨p, hp, hcovered⟩ := covered_of_read hread hnamed hpayload (by omega) hindexed
      have hfiles := files_unlink (F := F) unlinkFails hp hcovered
      rcases hs : s.unlink unlinkFails path with ⟨_ | _, t⟩
      all_goals rw [hs] at hfiles
      · exact hfiles
      · exact hfiles.trans (ih (hfiles.written hnamed) (hindexed.congr hfiles.blocks))

theorem files_enqueueBlock (writeFails : Bool) (p : P) (s : BdsState P) :
    Files F s (s.enqueueBlock F q writeFails p).2 := by
  unfold enqueueBlock
  split
  · exact .same rfl rfl rfl
  split
  · exact .same rfl rfl rfl
  split
  · exact .same rfl rfl rfl
  rename_i text htext
  split
  · exact .same rfl rfl rfl
  have hwritten : Files F s { s with spool := s.spool.set (spoolFileName F p) text } := by
    refine ⟨rfl, rfl, fun hnamed k t hget => ?_, fun k hmem hnot => ?_⟩
    · rw [PyDict.get?_set] at hget
      split at hget
      · rename_i hk
        exact ⟨p, hk, by rw [htext, Option.some.inj hget]⟩
      · exact hnamed k t hget
    · obtain ⟨v, hv⟩ := PyDict.mem_keys_iff.1 hmem
      refine absurd (PyDict.mem_keys_iff.2 ?_) hnot
      rw [PyDict.get?_set]
      split
      · exact ⟨_, rfl⟩
      · exact ⟨v, hv⟩
  have henqueue := files_enqueuePendingPayload (F := F) (q := q) p
    { s with spool := s.spool.set (spoolFileName F p) text }
  dsimp only
  rcases hs : enqueuePendingPayload F q p { s with spool := s.spool.set (spoolFileName F p) text } with
    ⟨_ | _ | _, t⟩
  all_goals rw [hs] at henqueue
  · exact hwritten.trans henqueue
  · exact hwritten.trans (henqueue.trans (.same rfl rfl rfl))
  · exact hwritten.trans henqueue

theorem files_catchUpLoop (target : Int) (fuel : Nat) (next : Int) (s : BdsState P) :
    Files F s (s.catchUpLoop q target fuel next) := by
  induction fuel generalizing next with
  | zero => exact .same rfl rfl rfl
  | succ fuel ih =>
    unfold catchUpLoop
    split_ifs
    · exact .same rfl rfl rfl
    · exact .same rfl rfl rfl
    · exact ih (next + 1)
    · exact .same rfl rfl rfl

theorem files_catchUpBuilt (p : P) (next target : Int) (s : BdsState P) :
    Files F s (s.catchUpBuilt F q p next target) := by
  have hfiles := files_enqueuePendingPayload (F := F) (q := q) p s
  unfold catchUpBuilt
  rcases hs : s.enqueuePendingPayload F q p with ⟨_ | _ | _, t⟩
  all_goals rw [hs] at hfiles
  · exact hfiles.trans (.same rfl rfl rfl)
  · exact hfiles.trans (.same rfl rfl rfl)
  · exact hfiles.trans (files_catchUpLoop target _ _ t)

theorem files_refreshStatus (read : Option Int) (s : BdsState P) : Files F s (s.refreshStatus read) := by
  unfold refreshStatus
  refine Files.trans ?_ (files_pruneStalePendingPayloads _)
  split
  · exact .same rfl rfl rfl
  · split
    · exact .same rfl rfl rfl
    · split
      · exact .same rfl rfl rfl
      · exact .same rfl rfl rfl

/-! ### Lifetimes -/

/-- A new process after a crash: it finds the table and the files; an empty table is given the genesis block. -/
structure Restart (s s' : BdsState P) : Prop where
  blocks : s'.blocks = s.blocks ∨ s.blocks = [] ∧ ∃ row : BlockRow, row.height = 0 ∧ s'.blocks = [row]
  spool : s'.spool = s.spool
  started : Started s'
  compactions : s'.compactions = []

/-- A step of the service over its restarts, with the payloads that `enqueue_block` has accepted. -/
inductive LifeStep (F : PayloadFormat P) (q : Int) : List P × BdsState P → List P × BdsState P → Prop
  | accepted {accepted : List P} {s : BdsState P} {writeFails : Bool} {payload : P} :
      (s.enqueueBlock F q writeFails payload).1 = .ok () →
      LifeStep F q (accepted, s) (payload :: accepted, (s.enqueueBlock F q writeFails payload).2)
  | step {accepted : List P} {s s' : BdsState P} : Step F q s s' → LifeStep F q (accepted, s) (accepted, s')
  | restart {accepted : List P} {s s' : BdsState P} : Restart s s' → LifeStep F q (accepted, s) (accepted, s')

/-- Every height the service acts on is covered by the table, and every accepted block above it has its file. -/
structure Durable (F : PayloadFormat P) (accepted : List P) (s : BdsState P) : Prop where
  index : ∃ base first n, (∀ row ∈ base, row.height < first) ∧ Inv F base first n s
  named : WellNamed F s.spool
  compactions : ∀ paths height, .removing paths (some height) ∈ s.compactions → Covered s height
  kept : ∀ p ∈ accepted, Covered s (F.height p) ∨ spoolFileName F p ∈ s.spool.keys

theorem covered_of_indexed {height : Int} (h : Indexed s height) : Covered s height := by
  obtain ⟨row, hrow, rfl⟩ := List.mem_map.1 h
  exact ⟨row, hrow, le_rfl⟩

theorem Durable.indexed {accepted : List P} (h : Durable F accepted s) {i : Int} (hi : s.indexedHeight = some i) :
    Covered s i := by
  obtain ⟨base, first, n, -, hinv⟩ := h.index
  exact covered_of_indexed (hinv.indexed i hi)

/-- What a step leaves behind. -/
structure Keeps (F : PayloadFormat P) (s s' : BdsState P) : Prop where
  covered : ∀ height, Covered s height → Covered s' height
  compactions : ∀ paths height, .removing paths (some height) ∈ s'.compactions → Covered s' height
  named : WellNamed F s'.spool
  removed : ∀ name, name ∈ s.spool.keys → name ∉ s'.spool.keys →
    ∃ p, name = spoolFileName F p ∧ Covered s (F.height p)

theorem Durable.keeps {accepted : List P} (h : Durable F accepted s) (hfiles : Files F s s') : Keeps F s s' where
  covered _ hcovered := hcovered.congr hfiles.blocks
  compactions paths height hmem := (h.compactions paths height (hfiles.compactions ▸ hmem)).congr hfiles.blocks
  named := hfiles.written h.named
  removed := hfiles.removed

/-- The row of a payload that the worker is about to acknowledge. -/
theorem Durable.row {accepted : List P} (h : Durable F accepted s) {p : P}
    (hw : s.worker = .answered p (some (blockRow F p)) ∨ s.worker = .inserted p) : blockRow F p ∈ s.blocks := by
  obtain ⟨base, first, n, -, hinv⟩ := h.index
  have hphase := hinv.phase
  rcases hw with hw | hw
  · rw [hw] at hphase
    exact hphase.2.1
  · rw [hw] at hphase
    exact hphase.2.1

theorem Durable.keeps_step {accepted : List P} (h : Durable F accepted s) (hread : ReadsBack F)
    (hstep : Step F q s s') : Keeps F s s' := by
  have hindexed : ∀ i, s.indexedHeight = some i → Covered s i := fun i hi => h.indexed hi
  cases hstep with
  | enqueue writeFails p => exact h.keeps (files_enqueueBlock writeFails p s)
  | replay unlinkFails => exact h.keeps (files_replaySpool hread unlinkFails h.named hindexed)
  | wake unlinkFails _ _ => exact h.keeps (files_takeNext hread unlinkFails h.named hindexed)
  | fetch _ => exact h.keeps (.same rfl rfl rfl)
  | recognised unlinkFails hw => exact h.keeps (files_blockPersisted hread unlinkFails h.named (h.row (.inl hw)))
  | mismatch _ _ => exact h.keeps (.same rfl rfl rfl)
  | absent _ => exact h.keeps (.same rfl rfl rfl)
  | @commit p _ _ =>
    have hcovered : ∀ height, Covered s height → ∃ row ∈ s.blocks ++ [blockRow F p], height ≤ row.height := by
      rintro height ⟨row, hrow, hle⟩
      exact ⟨row, List.mem_append_left _ hrow, hle⟩
    exact ⟨hcovered, fun paths height hmem => hcovered height (h.compactions paths height hmem), h.named,
      fun name hmem hnot => absurd hmem hnot⟩
  | persisted unlinkFails hw => exact h.keeps (files_blockPersisted hread unlinkFails h.named (h.row (.inr hw)))
  | fail _ => exact h.keeps (.same rfl rfl rfl)
  | retry _ => exact h.keeps (.same rfl rfl rfl)
  | catchUpStart _ => exact h.keeps (.same rfl rfl rfl)
  | catchUpFrom latest _ => exact h.keeps (files_catchUpLoop _ _ _ s)
  | catchUpBuilt p _ => exact h.keeps (files_catchUpBuilt p _ _ s)
  | catchUpFails => exact h.keeps (.same rfl rfl rfl)
  | statusRead => exact h.keeps (.same rfl rfl rfl)
  | statusReadFails => exact h.keeps (.same rfl rfl rfl)
  | @status read _ => exact h.keeps ((files_refreshStatus read s).trans (.same rfl rfl rfl))
  | compactStart _ =>
    refine ⟨fun _ => id, fun paths height hmem => ?_, h.named, fun name hmem hnot => absurd hmem hnot⟩
    rcases List.mem_cons.1 hmem with hmem | hmem
    · cases hmem
    · exact h.compactions paths height hmem
  | compactRead _ =>
    refine ⟨fun _ => id, fun paths height hmem => ?_, h.named, fun name hmem hnot => absurd hmem hnot⟩
    rcases List.mem_cons.1 hmem with hmem | hmem
    · -- the height that was read is the highest of the table
      obtain ⟨-, hmax⟩ := Compaction.removing.inj hmem
      exact covered_of_indexed (List.max?_mem hmax.symm)
    · exact h.compactions paths height (List.mem_of_mem_erase hmem)
  | @compact paths indexed unlinkFails hmem =>
    have hfiles : Files F s (s.compactSpool F unlinkFails indexed paths) := by
      unfold compactSpool
      split
      · exact .same rfl rfl rfl
      · exact files_compactFiles hread unlinkFails _ paths h.named (h.compactions _ _ hmem)
    have hkeeps := h.keeps hfiles
    refine ⟨hkeeps.covered, fun paths height hmem => ?_, hkeeps.named, hkeeps.removed⟩
    exact hkeeps.covered height (h.compactions paths height (List.mem_of_mem_erase hmem))

/-- The accepted blocks keep their files. -/
theorem Durable.kept_of_keeps {accepted : List P} (h : Durable F accepted s) (hkeeps : Keeps F s s') :
    ∀ p ∈ accepted, Covered s' (F.height p) ∨ spoolFileName F p ∈ s'.spool.keys := by
  intro p hp
  rcases h.kept p hp with hcovered | hmem
  · exact .inl (hkeeps.covered _ hcovered)
  by_cases hmem' : spoolFileName F p ∈ s'.spool.keys
  · exact .inr hmem'
  · obtain ⟨p', hname, hcovered⟩ := hkeeps.removed _ hmem hmem'
    rw [(spoolFileName_inj hname).1]
    exact .inl (hkeeps.covered _ hcovered)

theorem Durable.step {accepted : List P} (h : Durable F accepted s) (hread : ReadsBack F)
    (hstep : Step F q s s') : Durable F accepted s' := by
  have hkeeps := h.keeps_step hread hstep
  obtain ⟨base, first, n, hbase, hinv⟩ := h.index
  obtain ⟨n', hinv'⟩ := hinv.step hbase hstep
  exact ⟨⟨base, first, n', hbase, hinv'⟩, hkeeps.named, hkeeps.compactions, h.kept_of_keeps hkeeps⟩

/-- `enqueue_block` returns: the block is indexed, or its file is there. -/
theorem enqueueBlock_ok {writeFails : Bool} {p : P} (h : (s.enqueueBlock F q writeFails p).1 = .ok ()) :
    (∃ i, s.indexedHeight = some i ∧ F.height p ≤ i) ∨
      spoolFileName F p ∈ (s.enqueueBlock F q writeFails p).2.spool.keys := by
  by_cases hstale : s.isStalePayload F p = true
  · exact .inl (isStalePayload_iff.1 hstale)
  refine .inr ?_
  unfold enqueueBlock at h ⊢
  rcases hpolicy : F.validateExecutionPolicy p with e | _
  · rw [hpolicy] at h
    cases h
  rcases htext : F.toSpool p with e | text
  · rw [hpolicy, htext] at h
    dsimp only at h
    rw [if_neg hstale] at h
    cases h
  cases writeFails with
  | true =>
    rw [hpolicy, htext] at h
    dsimp only at h
    rw [if_neg hstale] at h
    cases h
  | false =>
    dsimp only
    rw [if_neg hstale, if_neg Bool.false_ne_true]
    have hspool : (enqueuePendingPayload F q p { s with spool := s.spool.set (spoolFileName F p) text }).2.spool =
        s.spool.set (spoolFileName F p) text := by
      unfold enqueuePendingPayload
      rw [hpolicy]
      dsimp only
      split_ifs <;> rfl
    have hmem : spoolFileName F p ∈ (s.spool.set (spoolFileName F p) text).keys := by
      rw [PyDict.mem_keys_iff]
      exact ⟨text, by rw [PyDict.get?_set, if_pos rfl]⟩
    rcases hs : enqueuePendingPayload F q p { s with spool := s.spool.set (spoolFileName F p) text } with
      ⟨_ | _ | _, t⟩
    all_goals
      rw [hs] at hspool
      have ht : t.spool = s.spool.set (spoolFileName F p) text := hspool
      dsimp only
      rw [ht]
      exact hmem

theorem Durable.accept {accepted : List P} (h : Durable F accepted s) (hread : ReadsBack F) {writeFails : Bool} {p : P}
    (hok : (s.enqueueBlock F q writeFails p).1 = .ok ()) :
    Durable F (p :: accepted) (s.enqueueBlock F q writeFails p).2 := by
  have hstep : Step F q s (s.enqueueBlock F q writeFails p).2 := .enqueue s writeFails p
  have hnext := h.step hread hstep
  refine ⟨hnext.index, hnext.named, hnext.compactions, fun p' hp' => ?_⟩
  rcases List.mem_cons.1 hp' with rfl | hp'
  · rcases enqueueBlock_ok hok with ⟨i, hi, hle⟩ | hmem
    · obtain ⟨row, hrow, hle'⟩ := (h.keeps_step hread hstep).covered i (h.indexed hi)
      exact .inl ⟨row, hrow, by omega⟩
    · exact .inr hmem
  · exact hnext.kept p' hp'

theorem Durable.started {accepted : List P} (hstart : Started s) (hnamed : WellNamed F s.spool)
    (hcompactions : s.compactions = [])
    (hkept : ∀ p ∈ accepted, Covered s (F.height p) ∨ spoolFileName F p ∈ s.spool.keys) : Durable F accepted s where
  index := ⟨s.blocks, s.nextExpectedHeight, 0, hstart.lt_next, hstart.inv⟩
  named := hnamed
  compactions paths height hmem := by
    rw [hcompactions] at hmem
    cases hmem
  kept := hkept

theorem Restart.covered (h : Restart s s') {height : Int} (hcovered : Covered s height) : Covered s' height := by
  rcases h.blocks with hblocks | ⟨hempty, -⟩
  · exact hcovered.congr hblocks
  · obtain ⟨row, hrow, -⟩ := hcovered
    rw [hempty] at hrow
    cases hrow

theorem Durable.life {accepted accepted' : List P} (h : Durable F accepted s) (hread : ReadsBack F)
    (hstep : LifeStep F q (accepted, s) (accepted', s')) : Durable F accepted' s' := by
  cases hstep with
  | accepted hok => exact h.accept hread hok
  | step hstep => exact h.step hread hstep
  | restart hrestart =>
    refine .started hrestart.started (hrestart.spool ▸ h.named) hrestart.compactions fun p hp => ?_
    rw [hrestart.spool]
    exact (h.kept p hp).imp_left hrestart.covered

/-- Over any steps of the service, crashes and restarts: a block that `enqueue_block` accepted and that lies above
every row of the table has a complete spool file, and a step removes the file of a block only if the table has a
row at its height or above. -/
theorem enqueued_blocks_kept (hread : ReadsBack F) {s₀ : BdsState P} (hstart : Started s₀)
    (hnamed : WellNamed F s₀.spool) (hcompactions : s₀.compactions = []) {accepted : List P}
    (hlife : Relation.ReflTransGen (LifeStep F q) ([], s₀) (accepted, s)) :
    (∀ p ∈ accepted, (∀ row ∈ s.blocks, row.height < F.height p) →
      ∃ text p', s.spool.get? (spoolFileName F p) = some text ∧ F.toSpool p' = .ok text ∧
        F.height p' = F.height p ∧ F.blockHash p' = F.blockHash p) ∧
    ∀ accepted' s', LifeStep F q (accepted, s) (accepted', s') → ∀ p, spoolFileName F p ∈ s.spool.keys →
      spoolFileName F p ∉ s'.spool.keys → ∃ row ∈ s.blocks, F.height p ≤ row.height := by
  have hdurable : Durable F accepted s := by
    have hall : ∀ {x : List P × BdsState P}, Relation.ReflTransGen (LifeStep F q) ([], s₀) x →
        Durable F x.1 x.2 := by
      intro x hx
      induction hx with
      | refl => exact .started hstart hnamed hcompactions fun p hp => by cases hp
      | tail _ hstep ih => exact ih.life hread hstep
    exact hall hlife
  refine ⟨fun p hp habove => ?_, fun accepted' s' hstep p hmem hnot => ?_⟩
  · rcases hdurable.kept p hp with ⟨row, hrow, hle⟩ | hmem
    · have hlt := habove row hrow
      omega
    · obtain ⟨text, htext⟩ := PyDict.mem_keys_iff.1 hmem
      obtain ⟨p', hname, hp'⟩ := hdurable.named _ _ htext
      obtain ⟨hheight, hhash⟩ := spoolFileName_inj hname
      exact ⟨text, p', htext, hp', hheight.symm, hhash.symm⟩
  · have hremoved : ∃ p', spoolFileName F p = spoolFileName F p' ∧ Covered s (F.height p') := by
      cases hstep with
      | accepted hok => exact (hdurable.keeps_step hread (.enqueue s _ _)).removed _ hmem hnot
      | step hstep => exact (hdurable.keeps_step hread hstep).removed _ hmem hnot
      | restart hrestart =>
        rw [hrestart.spool] at hnot
        exact absurd hmem hnot
    obtain ⟨p', hname, hcovered⟩ := hremoved
    rw [(spoolFileName_inj hname).1]
    exact hcovered

/-! ### A crash before the first row -/

/-- The format of `emptyBlocks`, for the first block only. -/
def firstBlockOnly : PayloadFormat BlockRow where
  __ := emptyBlocks
  toSpool row := if row = firstBlock then .ok (emptyBlockText row) else .error (.typeError "not serializable")

theorem readsBack_firstBlockOnly : ReadsBack firstBlockOnly := by
  intro p text p' htext hp'
  have hp : p = firstBlock := by
    by_contra hne
    have htext : (if p = firstBlock then Except.ok (emptyBlockText p) else _) = Except.ok text := htext
    rw [if_neg hne] at htext
    cases htext
  have hread : (if text = emptyBlockText firstBlock then Except.ok firstBlock else _) = Except.ok p' := hp'
  split at hread
  · rw [← Except.ok.inj hread, hp]
  · cases hread

/-- The process dies while the worker holds the first block; the new one finds its file. -/
theorem enqueued_blocks_kept_crash : ∃ s : BdsState BlockRow,
    Relation.ReflTransGen (LifeStep firstBlockOnly 4) ([], freshService) ([firstBlock], s) ∧
    s.worker = .waiting ∧ s.pendingPayloads = .empty ∧
    ∃ text p', s.spool.get? (spoolFileName firstBlockOnly firstBlock) = some text ∧
      firstBlockOnly.toSpool p' = .ok text ∧ p'.height = 1 ∧ p'.blockHash = "0a" := by
  have hstart : Started freshService := ⟨rfl, rfl, rfl, rfl⟩
  have hnamed : WellNamed firstBlockOnly freshService.spool := fun name text hget => by cases hget
  have haccepted : LifeStep firstBlockOnly 4 ([], freshService)
      ([firstBlock], (freshService.enqueueBlock firstBlockOnly 4 false firstBlock).2) := .accepted rfl
  have htaken := (Relation.ReflTransGen.single haccepted).tail (.step (.wake (fun _ => false) rfl rfl))
  have hrestart : Restart
      (takeNext firstBlockOnly 4 (fun _ => false) (freshService.enqueueBlock firstBlockOnly 4 false firstBlock).2)
      { freshService with spool := (freshService.enqueueBlock firstBlockOnly 4 false firstBlock).2.spool } :=
    ⟨.inl rfl, rfl, ⟨rfl, rfl, rfl, rfl⟩, rfl⟩
  have hrun := htaken.tail (.restart hrestart)
  have hkept := (enqueued_blocks_kept readsBack_firstBlockOnly hstart hnamed rfl hrun).1 firstBlock
    (List.mem_singleton_self _) (by simp [freshService, genesisRow, firstBlock, firstBlockOnly, emptyBlocks])
  exact ⟨_, hrun, rfl, rfl, hkept⟩

end BdsState

end XianAbci
