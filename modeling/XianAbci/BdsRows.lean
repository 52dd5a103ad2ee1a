import XianAbci.BdsPersist
import XianAbci.Lib.Exactly

/-!
# The rows of a transaction in the index

Inside the transaction of a block, when the statements for one of its transactions, or for its state patches,
succeed: exactly when what they carry fits the columns and the few places that can be taken are free. `Live` is
what the statements leave invariant: it follows the taken places, and each statement is specified over it.
-/

namespace XianAbci

variable {R : BdsRuntime} {B : Builtins} {height : Int} {hashes hashes' : String → Prop} {slots slots' : Int → Prop}
  {changes changes' : Int → Nat → Prop}

/-! ### What a block's transaction has written so far -/

def BdsTable.numbered : BdsTable → Bool
  | .stateChanges | .events | .rewards | .shieldedOutputs | .shieldedOutputTags => true
  | _ => false

/-- Inside the transaction of the block at `height`: which transaction hashes the index has, and which
transaction indexes and state changes the block has taken. -/
structure Live (R : BdsRuntime) (height : Int) (hashes : String → Prop) (slots : Int → Prop)
    (changes : Int → Nat → Prop) (s : Session) : Prop where
  block : Has (s.db .blocks) [0] [some (.int height)]
  hashes : ∀ h, Has (s.db .transactions) [0] [some (.text h)] ↔ hashes h
  slots : ∀ i, Has (s.db .transactions) [1, 4] [some (.int height), some (.int i)] ↔ slots i
  changes : ∀ (i : Int) (w : Nat),
    Has (s.db .stateChanges) [1, 5, 6] [some (.int height), some (.int i), some (.int w)] ↔ changes i w
  fits : ∀ t, ∀ row ∈ s.db t, fitsColumns (bdsSchema R.casts t).columns row = true
  index : ∀ k p, s.currentIndex.get? k = some p → nullable R.casts .counter p.1 = true ∧ nullable R.casts .text p.2 = true
  ids : ∀ t, t.numbered = true → ∀ row ∈ s.db t, ∃ i rest, row = .int i :: rest ∧ i ≤ s.sequences t

theorem sqlInsert_ok {t : BdsTable} {conflict : OnConflict Cell} {row : List Cell} {s : Session} {r : PUnit × Session} :
    sqlInsert R t conflict row s = .ok r ↔
      ∃ db, insertRow (bdsSchema R.casts) Cell.isNull t conflict row s.db = .ok db ∧ r = ((), { s with db := db }) := by
  unfold sqlInsert
  rcases insertRow (bdsSchema R.casts) Cell.isNull t conflict row s.db with e | db
  · simp
  · simp [eq_comm]

theorem insertNumbered_ok {t : BdsTable} {conflict : OnConflict Cell} {row : List Cell} {s : Session}
    {r : Int × Session} : insertNumbered R t conflict row s = .ok r ↔
      ∃ db, insertRow (bdsSchema R.casts) Cell.isNull t conflict (.int (s.sequences t + 1) :: row) s.db = .ok db ∧
        r = (s.sequences t + 1,
          { s with sequences := Function.update s.sequences t (s.sequences t + 1), db := db }) := by
  unfold insertNumbered sqlInsert
  dsimp only
  rcases insertRow (bdsSchema R.casts) Cell.isNull t conflict (.int (s.sequences t + 1) :: row) s.db with e | db
  · simp
  · simp [eq_comm]

/-- The tables whose keys `Live` follows are as they were. -/
theorem Live.congr {s s' : Session} (h : Live R height hashes slots changes s) (hblocks : s'.db .blocks = s.db .blocks)
    (htransactions : s'.db .transactions = s.db .transactions) (hchanges : s'.db .stateChanges = s.db .stateChanges)
    (hfits : ∀ t, ∀ row ∈ s'.db t, fitsColumns (bdsSchema R.casts t).columns row = true)
    (hindex : s'.currentIndex = s.currentIndex)
    (hids : ∀ t, t.numbered = true → ∀ row ∈ s'.db t, ∃ i rest, row = .int i :: rest ∧ i ≤ s'.sequences t) :
    Live R height hashes slots changes s' where
  block := hblocks ▸ h.block
  hashes := htransactions ▸ h.hashes
  slots := htransactions ▸ h.slots
  changes := hchanges ▸ h.changes
  fits := hfits
  index := hindex ▸ h.index
  ids := hids

theorem Live.insert_ids {s : Session} (h : Live R height hashes slots changes s) {t : BdsTable}
    {conflict : OnConflict Cell} {row : List Cell} {db : BdsTable → List (List Cell)}
    (hinsert : insertRow (bdsSchema R.casts) Cell.isNull t conflict row s.db = .ok db) (ht : t.numbered = false) :
    ∀ t', t'.numbered = true → ∀ row ∈ db t', ∃ i rest, row = .int i :: rest ∧ i ≤ s.sequences t' := by
  intro t' ht'
  have hne : t' ≠ t := by
    rintro rfl
    rw [ht] at ht'
    cases ht'
  rw [insertRow_other hinsert hne]
  exact h.ids t' ht'

/-- What the references of the rows of a transaction point to. -/
theorem Live.refers {s : Session} (h : Live R height hashes slots changes s) {t : BdsTable} {row : List Cell}
    {hash : String} (hhash : hashes hash)
    (hrefs : ∀ r ∈ (bdsSchema R.casts t).references,
      r.2 = (.blocks, 0) ∧ row[r.1]? = some (.int height) ∨ r.2 = (.transactions, 0) ∧ row[r.1]? = some (.text hash)) :
    Refers (bdsSchema R.casts) Cell.isNull s.db t row := by
  intro r hr cell hcell
  refine .inr ?_
  rcases hrefs r hr with ⟨htarget, hrow⟩ | ⟨htarget, hrow⟩
  · rw [hrow] at hcell
    rw [htarget, ← Option.some.inj hcell]
    exact h.block
  · rw [hrow] at hcell
    rw [htarget, ← Option.some.inj hcell]
    exact (h.hashes hash).2 hhash

/-! ### Statements -/

theorem exactly_transaction {row : List Cell} {hash : String} {i : Int} (hhash : project [0] row = [some (.text hash)])
    (hslot : project [1, 4] row = [some (.int height), some (.int i)]) (hrow : row[1]? = some (.int height)) :
    Exactly (sqlInsert R .transactions (.ignore [0]) row) (Live R height hashes slots changes)
      (fitsColumns (bdsSchema R.casts .transactions).columns row = true ∧ (hashes hash ∨ ¬ slots i))
      fun _ => Live R height (fun h => hashes h ∨ h = hash) (fun k => slots k ∨ ¬ hashes hash ∧ k = i) changes := by
  have hkeys : (bdsSchema R.casts .transactions).keys = [[0], [1, 4]] := rfl
  constructor
  · intro s hs
    constructor
    · rintro ⟨r, hr⟩
      obtain ⟨db, hinsert, -⟩ := sqlInsert_ok.1 hr
      obtain ⟨hfits, ⟨hhas, -⟩ | ⟨-, htaken, -, -⟩⟩ := insertRow_ignore.1 hinsert
      · rw [hhash, hs.hashes] at hhas
        exact ⟨hfits, .inl hhas⟩
      · refine ⟨hfits, .inr fun hi => htaken ⟨[1, 4], by simp [hkeys], ?_⟩⟩
        rw [hslot]
        exact (hs.slots i).2 hi
    · rintro ⟨hfits, hfree⟩
      suffices hdb : ∃ db, insertRow (bdsSchema R.casts) Cell.isNull .transactions (.ignore [0]) row s.db = .ok db by
        obtain ⟨db, hdb⟩ := hdb
        exact ⟨_, sqlInsert_ok.2 ⟨db, hdb, rfl⟩⟩
      by_cases hhas : Has (s.db .transactions) [0] (project [0] row)
      · exact ⟨_, insertRow_ignore.2 ⟨hfits, .inl ⟨hhas, rfl⟩⟩⟩
      · refine ⟨_, insertRow_ignore.2 ⟨hfits, .inr ⟨hhas, ?_, ?_, rfl⟩⟩⟩
        · rintro ⟨key, hkey, htaken⟩
          rw [hkeys] at hkey
          rcases List.mem_cons.1 hkey with rfl | hkey
          · exact hhas htaken
          · obtain rfl := List.mem_singleton.1 hkey
            rw [hslot, hs.slots] at htaken
            rw [hhash, hs.hashes] at hhas
            exact (hfree.resolve_left hhas) htaken
        · intro r hr cell hcell
          obtain rfl := List.mem_singleton.1 (show r ∈ [(1, .blocks, 0)] from hr)
          rw [hrow] at hcell
          obtain rfl := Option.some.inj hcell
          exact .inr hs.block
  · intro s hs _ s' hr
    obtain ⟨db, hinsert, hs'⟩ := sqlInsert_ok.1 hr
    obtain rfl : s' = { s with db := db } := (Prod.mk.inj hs').2
    obtain ⟨-, ⟨hhas, rfl⟩ | ⟨hhas, -, -, rfl⟩⟩ := insertRow_ignore.1 hinsert
    · -- the hash is there already
      rw [hhash, hs.hashes] at hhas
      refine { hs with hashes := fun h => ?_, slots := fun k => ?_ }
      · rw [hs.hashes]
        exact ⟨.inl, fun h' => h'.elim id fun heq => heq ▸ hhas⟩
      · rw [hs.slots]
        exact ⟨.inl, fun h' => h'.elim id fun h'' => absurd hhas h''.1⟩
    · rw [hhash, hs.hashes] at hhas
      have hupdate : ∀ t, t ≠ .transactions →
          Function.update s.db .transactions (s.db .transactions ++ [row]) t = s.db t := fun t ht =>
        Function.update_of_ne ht _ _
      have hrows : Function.update s.db .transactions (s.db .transactions ++ [row]) .transactions =
          s.db .transactions ++ [row] := Function.update_self ..
      refine ⟨?_, fun h => ?_, fun k => ?_, ?_, insertRow_fits hinsert hs.fits, hs.index, hs.insert_ids hinsert rfl⟩
      · dsimp only
        rw [hupdate _ (by decide)]
        exact hs.block
      · dsimp only
        rw [hrows, has_append, hs.hashes, hhash]
        simp [eq_comm]
      · dsimp only
        rw [hrows, has_append, hs.slots, hslot]
        simp [hhas, eq_comm]
      · dsimp only
        rw [hupdate _ (by decide)]
        exact hs.changes

theorem notNull_text_iff {casts : String → Bool} {cell : Cell} :
    notNull casts .text cell = true ↔ ∃ t, cell = .text t ∧ pgText t = true := by
  cases cell <;> simp [notNull, SqlType.holds]

theorem notNull_bigint_iff {casts : String → Bool} {cell : Cell} :
    notNull casts .bigint cell = true ↔ ∃ i, cell = .int i ∧ int8 i = true := by
  cases cell <;> simp [notNull, SqlType.holds]

theorem notNull_integer_iff {casts : String → Bool} {cell : Cell} :
    notNull casts .integer cell = true ↔ ∃ i, cell = .int i ∧ int4 i = true := by
  cases cell <;> simp [notNull, SqlType.holds]

theorem notNull_counter_iff {casts : String → Bool} {cell : Cell} :
    notNull casts .counter cell = true ↔ ∃ i, cell = .int i := by
  cases cell <;> simp [notNull, SqlType.holds]

theorem notNull_timestamptz_iff {casts : String → Bool} {cell : Cell} :
    notNull casts .timestamptz cell = true ↔ ∃ t, cell = .timestamp t := by
  cases cell <;> simp [notNull, SqlType.holds]

theorem int8_min {a b : Int} (ha : int8 a = true) (hb : int8 b = true) : int8 (min a b) = true := by
  simp only [int8, decide_eq_true_eq] at ha hb ⊢
  omega

/-- The activity of an address fits its row again. -/
theorem mergeAddress_fits {old new : List Cell}
    (hold : fitsColumns (bdsSchema R.casts .addresses).columns old = true)
    (hnew : fitsColumns (bdsSchema R.casts .addresses).columns new = true) :
    fitsColumns (bdsSchema R.casts .addresses).columns (mergeAddress old new) = true := by
  simp only [bdsSchema, fitsColumns_cons_iff, fitsColumns_nil_iff, notNull_text_iff, notNull_bigint_iff,
    notNull_integer_iff, notNull_counter_iff, notNull_timestamptz_iff] at hold hnew
  obtain ⟨_, _, rfl, ⟨address, rfl, haddress⟩, _, _, rfl, ⟨count, rfl⟩, _, _, rfl, ⟨first, rfl, hfirst⟩, _, _, rfl,
    ⟨seen, rfl⟩, _, _, rfl, ⟨last, rfl, hlast⟩, _, _, rfl, ⟨index, rfl, hindex⟩, _, _, rfl, ⟨lastSeen, rfl⟩, hash, _, rfl,
    hhash, _, _, rfl, ⟨contract, rfl, hcontract⟩, _, _, rfl, ⟨function, rfl, hfunction⟩, _, _, rfl, ⟨updated, rfl⟩,
    rfl⟩ := hold
  obtain ⟨_, _, rfl, ⟨address', rfl, haddress'⟩, _, _, rfl, ⟨count', rfl⟩, _, _, rfl, ⟨first', rfl, hfirst'⟩, _, _, rfl,
    ⟨seen', rfl⟩, _, _, rfl, ⟨last', rfl, hlast'⟩, _, _, rfl, ⟨index', rfl, hindex'⟩, _, _, rfl, ⟨lastSeen', rfl⟩, hash', _,
    rfl, hhash', _, _, rfl, ⟨contract', rfl, hcontract'⟩, _, _, rfl, ⟨function', rfl, hfunction'⟩, _, _, rfl,
    ⟨updated', rfl⟩, rfl⟩ := hnew
  unfold mergeAddress
  dsimp only
  split_ifs
  · simp [bdsSchema, notNull, SqlType.holds, haddress, int8_min hfirst hfirst', hlast', hindex', hhash', hcontract',
      hfunction']
  · simp [bdsSchema, notNull, SqlType.holds, haddress, int8_min hfirst hfirst', hlast, hindex, hhash, hcontract,
      hfunction]

/-- A row of a table with one key, which is left out or merged where the key is taken. -/
theorem exactly_keyed {t : BdsTable} {conflict : OnConflict Cell} {row : List Cell} {hash : String}
    (ht : t = .addresses ∨ t = .contracts ∨ t = .statePatches ∨ t = .state) (hhash : hashes hash)
    (hconflict : conflict = .ignore [0] ∨ ∃ merge, conflict = .update [0] merge ∧ ∀ old new,
      fitsColumns (bdsSchema R.casts t).columns old = true → fitsColumns (bdsSchema R.casts t).columns new = true →
        fitsColumns (bdsSchema R.casts t).columns (merge old new) = true)
    (hrefs : ∀ r ∈ (bdsSchema R.casts t).references,
      r.2 = (.blocks, 0) ∧ row[r.1]? = some (.int height) ∨ r.2 = (.transactions, 0) ∧ row[r.1]? = some (.text hash)) :
    Exactly (sqlInsert R t conflict row) (Live R height hashes slots changes)
      (fitsColumns (bdsSchema R.casts t).columns row = true) fun _ => Live R height hashes slots changes := by
  have hkeys : (bdsSchema R.casts t).keys = [[0]] := by rcases ht with rfl | rfl | rfl | rfl <;> rfl
  have hnumbered : t.numbered = false := by rcases ht with rfl | rfl | rfl | rfl <;> rfl
  constructor
  · intro s hs
    have hrefers : Refers (bdsSchema R.casts) Cell.isNull s.db t row := hs.refers hhash hrefs
    have hfree : ¬ Has (s.db t) [0] (project [0] row) → ¬ Taken (bdsSchema R.casts) s.db t row := by
      rintro hhas ⟨key, hkey, htaken⟩
      rw [hkeys] at hkey
      obtain rfl := List.mem_singleton.1 hkey
      exact hhas htaken
    constructor
    · rintro ⟨r, hr⟩
      obtain ⟨db, hinsert, -⟩ := sqlInsert_ok.1 hr
      rcases hconflict with rfl | ⟨merge, rfl, -⟩
      · exact (insertRow_ignore.1 hinsert).1
      · exact (insertRow_update.1 hinsert).1
    · intro hfits
      suffices hdb : ∃ db, insertRow (bdsSchema R.casts) Cell.isNull t conflict row s.db = .ok db by
        obtain ⟨db, hdb⟩ := hdb
        exact ⟨_, sqlInsert_ok.2 ⟨db, hdb, rfl⟩⟩
      by_cases hhas : Has (s.db t) [0] (project [0] row)
      · rcases hconflict with rfl | ⟨merge, rfl, hmerge⟩
        · exact ⟨_, insertRow_ignore.2 ⟨hfits, .inl ⟨hhas, rfl⟩⟩⟩
        · refine ⟨_, insertRow_update.2 ⟨hfits, .inl ⟨hhas, fun r hr => ?_, hrefers, rfl⟩⟩⟩
          obtain ⟨old, hold, rfl⟩ := List.mem_map.1 hr
          split_ifs
          · exact hmerge old row (hs.fits t old hold) hfits
          · exact hs.fits t old hold
      · rcases hconflict with rfl | ⟨merge, rfl, hmerge⟩
        · exact ⟨_, insertRow_ignore.2 ⟨hfits, .inr ⟨hhas, hfree hhas, hrefers, rfl⟩⟩⟩
        · exact ⟨_, insertRow_update.2 ⟨hfits, .inr ⟨hhas, hfree hhas, hrefers, rfl⟩⟩⟩
  · intro s hs _ s' hr
    obtain ⟨db, hinsert, hs'⟩ := sqlInsert_ok.1 hr
    obtain rfl : s' = { s with db := db } := (Prod.mk.inj hs').2
    have hother : ∀ t', t' ≠ .addresses → t' ≠ .contracts → t' ≠ .statePatches → t' ≠ .state → db t' = s.db t' := by
      intro t' haddresses hcontracts hpatches hstate
      refine insertRow_other hinsert ?_
      rcases ht with rfl | rfl | rfl | rfl
      · exact haddresses
      · exact hcontracts
      · exact hpatches
      · exact hstate
    exact hs.congr (hother _ (by decide) (by decide) (by decide) (by decide))
      (hother _ (by decide) (by decide) (by decide) (by decide))
      (hother _ (by decide) (by decide) (by decide) (by decide)) (insertRow_fits hinsert hs.fits) rfl
      (hs.insert_ids hinsert hnumbered)

/-- A row under a generated number finds that number free. -/
theorem Live.number_free {s : Session} (h : Live R height hashes slots changes s) {t : BdsTable}
    (ht : t.numbered = true) {row : List Cell} :
    ¬ Has (s.db t) [0] (project [0] (.int (s.sequences t + 1) :: row)) := by
  rintro ⟨old, hold, heq⟩
  obtain ⟨i, rest, rfl, hle⟩ := h.ids t ht old hold
  have hi : i = s.sequences t + 1 := by simpa [project] using heq
  omega

theorem Live.number_ids {s : Session} (h : Live R height hashes slots changes s) {t : BdsTable}
    {conflict : OnConflict Cell} {row : List Cell} {db : BdsTable → List (List Cell)}
    (hinsert : insertRow (bdsSchema R.casts) Cell.isNull t conflict (.int (s.sequences t + 1) :: row) s.db = .ok db)
    (hadded : db t = s.db t ∨ db t = s.db t ++ [.int (s.sequences t + 1) :: row]) :
    ∀ t', t'.numbered = true → ∀ r ∈ db t', ∃ i rest, r = .int i :: rest ∧
      i ≤ Function.update s.sequences t (s.sequences t + 1) t' := by
  intro t' ht' r hr
  by_cases hne : t' = t
  · subst hne
    rw [Function.update_self]
    have hold : r ∈ s.db t' → ∃ i rest, r = .int i :: rest ∧ i ≤ s.sequences t' + 1 := by
      intro hr
      obtain ⟨i, rest, hrest, hle⟩ := h.ids t' ht' r hr
      exact ⟨i, rest, hrest, by omega⟩
    rcases hadded with hsame | hadded
    · rw [hsame] at hr
      exact hold hr
    · rw [hadded] at hr
      rcases List.mem_append.1 hr with hr | hr
      · exact hold hr
      · exact ⟨_, row, List.mem_singleton.1 hr, le_rfl⟩
  · rw [insertRow_other hinsert hne] at hr
    rw [Function.update_of_ne hne]
    exact h.ids t' ht' r hr

/-- A row of a numbered table that is left out where its key is taken. -/
theorem exactly_numbered {t : BdsTable} {key : List Nat} {row : List Cell} {hash : String} (hhash : hashes hash)
    (ht : t = .events ∨ t = .rewards ∨ t = .shieldedOutputs ∨ t = .shieldedOutputTags)
    (hkeys : (bdsSchema R.casts t).keys = [[0], key]) (hblock : row[0]? = some (.int height))
    (htx : row[1]? = some (.text hash)) :
    Exactly (insertNumbered R t (.ignore key) row) (Live R height hashes slots changes)
      (fitsColumns (bdsSchema R.casts t).columns (.int 0 :: row) = true)
      fun _ => Live R height hashes slots changes := by
  have hnumbered : t.numbered = true := by rcases ht with rfl | rfl | rfl | rfl <;> rfl
  have hrefs : (bdsSchema R.casts t).references = [(1, .blocks, 0), (2, .transactions, 0)] := by
    rcases ht with rfl | rfl | rfl | rfl <;> rfl
  -- the number is no matter for the columns
  have hfits : ∀ i : Int, fitsColumns (bdsSchema R.casts t).columns (.int i :: row) =
      fitsColumns (bdsSchema R.casts t).columns (.int 0 :: row) := by
    intro i
    rcases ht with rfl | rfl | rfl | rfl <;> rfl
  constructor
  · intro s hs
    constructor
    · rintro ⟨r, hr⟩
      obtain ⟨db, hinsert, -⟩ := insertNumbered_ok.1 hr
      rw [← hfits (s.sequences t + 1)]
      exact (insertRow_ignore.1 hinsert).1
    · intro hfit
      rw [← hfits (s.sequences t + 1)] at hfit
      have hrefers : Refers (bdsSchema R.casts) Cell.isNull s.db t (.int (s.sequences t + 1) :: row) :=
        hs.refers hhash fun r hr => by
          rw [hrefs] at hr
          rcases List.mem_cons.1 hr with rfl | hr
          · exact .inl ⟨rfl, hblock⟩
          · obtain rfl := List.mem_singleton.1 hr
            exact .inr ⟨rfl, htx⟩
      suffices hdb : ∃ db, insertRow (bdsSchema R.casts) Cell.isNull t (.ignore key)
          (.int (s.sequences t + 1) :: row) s.db = .ok db by
        obtain ⟨db, hdb⟩ := hdb
        exact ⟨_, insertNumbered_ok.2 ⟨db, hdb, rfl⟩⟩
      by_cases hhas : Has (s.db t) key (project key (.int (s.sequences t + 1) :: row))
      · exact ⟨_, insertRow_ignore.2 ⟨hfit, .inl ⟨hhas, rfl⟩⟩⟩
      · refine ⟨_, insertRow_ignore.2 ⟨hfit, .inr ⟨hhas, ?_, hrefers, rfl⟩⟩⟩
        rintro ⟨k, hk, htaken⟩
        rw [hkeys] at hk
        rcases List.mem_cons.1 hk with rfl | hk
        · exact hs.number_free hnumbered htaken
        · obtain rfl := List.mem_singleton.1 hk
          exact hhas htaken
  · intro s hs id s' hr
    obtain ⟨db, hinsert, hs'⟩ := insertNumbered_ok.1 hr
    obtain rfl := (Prod.mk.inj hs').2
    have hadded : db t = s.db t ∨ db t = s.db t ++ [.int (s.sequences t + 1) :: row] := by
      obtain ⟨-, ⟨-, rfl⟩ | ⟨-, -, -, rfl⟩⟩ := insertRow_ignore.1 hinsert
      · exact .inl rfl
      · exact .inr (Function.update_self ..)
    have hother : ∀ t', t' ≠ .events → t' ≠ .rewards → t' ≠ .shieldedOutputs → t' ≠ .shieldedOutputTags →
        db t' = s.db t' := by
      intro t' hevents hrewards houtputs htags
      refine insertRow_other hinsert ?_
      rcases ht with rfl | rfl | rfl | rfl
      · exact hevents
      · exact hrewards
      · exact houtputs
      · exact htags
    exact hs.congr (hother _ (by decide) (by decide) (by decide) (by decide))
      (hother _ (by decide) (by decide) (by decide) (by decide))
      (hother _ (by decide) (by decide) (by decide) (by decide)) (insertRow_fits hinsert hs.fits) rfl
      (hs.number_ids hinsert hadded)

/-! ### The rows of a transaction -/

/-- What the rows of a transaction share fits the columns it goes to. -/
structure TxContext.Fits (x : TxContext) : Prop where
  height : int8 x.block.height = true
  blockHash : pgText x.block.hash = true
  nanos : int8 x.block.nanos = true
  txHash : pgText x.txHash = true
  txIndex : int4 x.txIndex = true

def ChangeFits (R : BdsRuntime) (writeIndex : Nat) (key : String) (value : Json) : Prop :=
  int4 writeIndex = true ∧ pgText key = true ∧ pgJson value = true ∧ projects R.casts value = true

/-- The row of a state change, under its number and with the change before it. -/
def changeRow (x : TxContext) (origin : String) (writeIndex : Nat) (key : String) (value : Json) (id : Int)
    (previous : Cell × Cell) : List Cell :=
  [.int id, .int x.block.height, .text x.block.hash, .int x.block.nanos, .text x.txHash, .int x.txIndex,
    .int writeIndex, .text key, .json value, previous.1, previous.2, .text origin, .timestamp x.time]

theorem persistStateChange_ok {x : TxContext} {origin : String} {w : Nat} {key : String} {value : Json} {s : Session}
    {r : PUnit × Session} : persistStateChange R x origin w key value s = .ok r ↔
      ∃ db, insertRow (bdsSchema R.casts) Cell.isNull .stateChanges .raise (changeRow x origin w key value
          (s.sequences .stateChanges + 1) ((s.currentIndex.get? key).getD (.null, .null))) s.db = .ok db ∧
        sqlInsert R .state (.update [0] fun _ new => new) [.text key, .json value,
          .int (s.sequences .stateChanges + 1), .text x.txHash, .int x.block.height, .timestamp x.time]
          { db := db
            sequences := Function.update s.sequences .stateChanges (s.sequences .stateChanges + 1)
            currentIndex := s.currentIndex.set key (.int (s.sequences .stateChanges + 1), .text x.txHash) } = .ok r := by
  unfold persistStateChange
  dsimp only
  rcases hinsert : insertNumbered R .stateChanges .raise _ s with e | ⟨id, s'⟩
  · refine iff_of_false (by simp) ?_
    rintro ⟨db, hdb, -⟩
    rw [insertNumbered_ok.2 ⟨db, hdb, rfl⟩] at hinsert
    cases hinsert
  · obtain ⟨db, hdb, heq⟩ := insertNumbered_ok.1 hinsert
    obtain ⟨rfl, rfl⟩ := Prod.mk.inj heq
    constructor
    · intro hr
      exact ⟨db, hdb, hr⟩
    · rintro ⟨db', hdb', hr⟩
      obtain rfl := Except.ok.inj (hdb.symm.trans hdb')
      exact hr

theorem changeRow_fits {x : TxContext} (hx : x.Fits) {origin : String} (horigin : pgText origin = true) {w : Nat}
    {key : String} {value : Json} {id : Int} {previous : Cell × Cell}
    (hid : nullable R.casts .counter previous.1 = true) (hprevious : nullable R.casts .text previous.2 = true) :
    fitsColumns (bdsSchema R.casts .stateChanges).columns (changeRow x origin w key value id previous) = true ↔
      ChangeFits R w key value := by
  simp [changeRow, ChangeFits, bdsSchema, notNull, SqlType.holds, hid, hprevious, hx.height, hx.blockHash, hx.nanos,
    hx.txHash, hx.txIndex, horigin]

/-- A change is written exactly when its place is free. -/
theorem Live.insert_change {s : Session} {x : TxContext} (h : Live R x.block.height hashes slots changes s)
    (hhash : hashes x.txHash) {origin : String} {w : Nat} {key : String} {value : Json} {previous : Cell × Cell} :
    (∃ db, insertRow (bdsSchema R.casts) Cell.isNull .stateChanges .raise (changeRow x origin w key value
      (s.sequences .stateChanges + 1) previous) s.db = .ok db) ↔
    fitsColumns (bdsSchema R.casts .stateChanges).columns (changeRow x origin w key value
      (s.sequences .stateChanges + 1) previous) = true ∧ ¬ changes x.txIndex w := by
  have hslot : project [1, 5, 6] (changeRow x origin w key value (s.sequences .stateChanges + 1) previous) =
      [some (.int x.block.height), some (.int x.txIndex), some (.int w)] := rfl
  constructor
  · rintro ⟨db, hdb⟩
    obtain ⟨hfits, htaken, -, -⟩ := insertRow_raise.1 hdb
    refine ⟨hfits, fun hchange => htaken ⟨[1, 5, 6], by simp [bdsSchema], ?_⟩⟩
    rw [hslot]
    exact (h.changes _ _).2 hchange
  · rintro ⟨hfits, hfree⟩
    refine ⟨_, insertRow_raise.2 ⟨hfits, ?_, ?_, rfl⟩⟩
    · rintro ⟨key, hkey, htaken⟩
      rcases List.mem_cons.1 (show key ∈ [[0], [1, 5, 6]] from hkey) with rfl | hkey
      · exact h.number_free rfl htaken
      · obtain rfl := List.mem_singleton.1 hkey
        rw [hslot, h.changes] at htaken
        exact hfree htaken
    · refine h.refers hhash fun r hr => ?_
      rcases List.mem_cons.1 (show r ∈ [(1, .blocks, 0), (4, .transactions, 0)] from hr) with rfl | hr
      · exact .inl ⟨rfl, rfl⟩
      · obtain rfl := List.mem_singleton.1 hr
        exact .inr ⟨rfl, rfl⟩

theorem Live.after_change {s : Session} {x : TxContext} (hx : x.Fits)
    (h : Live R x.block.height hashes slots changes s) {origin : String} {w : Nat} {key : String} {value : Json}
    {previous : Cell × Cell} {db : BdsTable → List (List Cell)}
    (hinsert : insertRow (bdsSchema R.casts) Cell.isNull .stateChanges .raise (changeRow x origin w key value
      (s.sequences .stateChanges + 1) previous) s.db = .ok db) :
    Live R x.block.height hashes slots (fun i k => changes i k ∨ i = x.txIndex ∧ k = w)
      { db := db
        sequences := Function.update s.sequences .stateChanges (s.sequences .stateChanges + 1)
        currentIndex := s.currentIndex.set key (.int (s.sequences .stateChanges + 1), .text x.txHash) } := by
  obtain ⟨-, -, -, hdb⟩ := insertRow_raise.1 hinsert
  have hrows : db .stateChanges = s.db .stateChanges ++ [changeRow x origin w key value
      (s.sequences .stateChanges + 1) previous] := by rw [hdb, Function.update_self]
  constructor
  · dsimp only
    rw [insertRow_other hinsert (by decide)]
    exact h.block
  · dsimp only
    rw [insertRow_other hinsert (by decide)]
    exact h.hashes
  · dsimp only
    rw [insertRow_other hinsert (by decide)]
    exact h.slots
  · intro i k
    have hslot : project [1, 5, 6] (changeRow x origin w key value (s.sequences .stateChanges + 1) previous) =
        [some (.int x.block.height), some (.int x.txIndex), some (.int w)] := rfl
    dsimp only
    rw [hrows, has_append, h.changes, hslot]
    simp [eq_comm]
  · exact insertRow_fits hinsert h.fits
  · intro k p hp
    dsimp only at hp
    rw [PyDict.get?_set] at hp
    split_ifs at hp with hk
    · obtain rfl := Option.some.inj hp
      simp [SqlType.holds, hx.txHash]
    · exact h.index k p hp
  · exact h.number_ids hinsert (.inr hrows)

theorem exactly_stateChange {x : TxContext} (hx : x.Fits) (hhash : hashes x.txHash) {origin : String}
    (horigin : pgText origin = true) (w : Nat) (key : String) (value : Json) :
    Exactly (persistStateChange R x origin w key value) (Live R x.block.height hashes slots changes)
      (ChangeFits R w key value ∧ ¬ changes x.txIndex w)
      fun _ => Live R x.block.height hashes slots fun i k => changes i k ∨ i = x.txIndex ∧ k = w := by
  -- the current row of the key, which asks for less than the change
  have hstate : ∀ id : Int, Exactly (sqlInsert R .state (.update [0] fun _ new => new)
      [.text key, .json value, .int id, .text x.txHash, .int x.block.height, .timestamp x.time])
      (Live R x.block.height hashes slots fun i k => changes i k ∨ i = x.txIndex ∧ k = w)
      (fitsColumns (bdsSchema R.casts .state).columns
        [.text key, .json value, .int id, .text x.txHash, .int x.block.height, .timestamp x.time] = true)
      fun _ => Live R x.block.height hashes slots fun i k => changes i k ∨ i = x.txIndex ∧ k = w := fun id =>
    exactly_keyed (.inr (.inr (.inr rfl))) hhash (.inr ⟨_, rfl, fun _ _ _ hnew => hnew⟩) (by simp [bdsSchema])
  have hstateFits : ∀ id : Int, ChangeFits R w key value → fitsColumns (bdsSchema R.casts .state).columns
      [.text key, .json value, .int id, .text x.txHash, .int x.block.height, .timestamp x.time] = true := by
    rintro id ⟨-, hkey, hvalue, hprojects⟩
    simp [bdsSchema, notNull, SqlType.holds, hkey, hvalue, hprojects, hx.txHash, hx.height]
  have hprevious : ∀ s : Session, Live R x.block.height hashes slots changes s →
      nullable R.casts .counter ((s.currentIndex.get? key).getD (.null, .null)).1 = true ∧
      nullable R.casts .text ((s.currentIndex.get? key).getD (.null, .null)).2 = true := by
    intro s hs
    rcases hget : s.currentIndex.get? key with _ | p
    · exact ⟨rfl, rfl⟩
    · exact hs.index key p hget
  constructor
  · intro s hs
    rw [← changeRow_fits hx horigin (hprevious s hs).1 (hprevious s hs).2, ← hs.insert_change hhash]
    constructor
    · rintro ⟨r, hr⟩
      obtain ⟨db, hdb, -⟩ := persistStateChange_ok.1 hr
      exact ⟨db, hdb⟩
    · rintro ⟨db, hdb⟩
      have hchange : ChangeFits R w key value :=
        (changeRow_fits hx horigin (hprevious s hs).1 (hprevious s hs).2).1 (insertRow_raise.1 hdb).1
      obtain ⟨r, hr⟩ := ((hstate _).succeeds _ (hs.after_change hx hdb)).2 (hstateFits _ hchange)
      exact ⟨r, persistStateChange_ok.2 ⟨db, hdb, hr⟩⟩
  · intro s hs _ s' hr
    obtain ⟨db, hdb, hr⟩ := persistStateChange_ok.1 hr
    exact (hstate _).leaves _ (hs.after_change hx hdb) _ s' hr

/-- A text or a JSON document that the database takes. -/
def Cell.clean : Cell → Bool
  | .text s => pgText s
  | .json j => pgJson j
  | _ => true

theorem exactly_reward {x : TxContext} (hx : x.Fits) (hhash : hashes x.txHash) (i : Nat) (type : RewardType)
    (recipient : Cell) (source : Option String) (value : ContractingDecimal) :
    Exactly (insertReward R x i type recipient source value) (Live R x.block.height hashes slots changes)
      (int4 i = true ∧ nullable R.casts .text recipient = true ∧ source.all pgText = true)
      fun _ => Live R x.block.height hashes slots changes := by
  refine (exactly_numbered hhash (.inr (.inl rfl)) rfl rfl rfl).iff ?_
  have htype : pgText type.text = true := by cases type <;> decide
  have hsource : nullable R.casts .text (source.elim .null .text) = source.all pgText := by
    rcases source with _ | source <;> rfl
  simp [bdsSchema, notNull, SqlType.holds, hx.height, hx.txHash, hx.txIndex, htype, hsource]

theorem eventCells_shape {event : Value} {cells : List Cell} (h : eventCells R B event = .ok cells) :
    ∃ contract name signer caller dataIndexed data,
      cells = [.text contract, .text name, .text signer, .text caller, .json dataIndexed, .json data] := by
  obtain ⟨contract, -, h⟩ := bind_eq_ok.1 h
  obtain ⟨name, -, h⟩ := bind_eq_ok.1 h
  obtain ⟨signer, -, h⟩ := bind_eq_ok.1 h
  obtain ⟨caller, -, h⟩ := bind_eq_ok.1 h
  obtain ⟨_, -, h⟩ := bind_eq_ok.1 h
  obtain ⟨dataIndexed, -, h⟩ := bind_eq_ok.1 h
  obtain ⟨_, -, h⟩ := bind_eq_ok.1 h
  obtain ⟨data, -, h⟩ := bind_eq_ok.1 h
  exact ⟨_, _, _, _, _, _, (Except.ok.inj h).symm⟩

theorem exactly_event {x : TxContext} (hx : x.Fits) (hhash : hashes x.txHash) (i : Nat) {event : Value}
    {cells : List Cell} (hcells : eventCells R B event = .ok cells) :
    Exactly (insertEvent R x i cells) (Live R x.block.height hashes slots changes)
      (int4 i = true ∧ ∀ cell ∈ cells, cell.clean = true) fun _ => Live R x.block.height hashes slots changes := by
  obtain ⟨contract, name, signer, caller, dataIndexed, data, rfl⟩ := eventCells_shape hcells
  refine (exactly_numbered hhash (.inl rfl) rfl rfl rfl).iff ?_
  simp [bdsSchema, notNull, SqlType.holds, Cell.clean, hx.height, hx.txHash, hx.txIndex]

def OutputFits (contract function : String) (output : ShieldedOutput) : Prop :=
  pgText contract = true ∧ pgText function = true ∧ pgText output.action = true ∧ int4 output.outputIndex = true ∧
    output.noteIndex.all int4 = true ∧ pgText output.commitment = true ∧ pgText output.newRoot = true ∧
    pgText output.payloadHash = true

theorem exactly_shieldedOutput {x : TxContext} (hx : x.Fits) (hhash : hashes x.txHash) (contract function : String)
    (output : ShieldedOutput) :
    Exactly (persistShieldedOutput R x contract function output) (Live R x.block.height hashes slots changes)
      (OutputFits contract function output ∧ ∀ tag ∈ extractPayloadTags output.outputPayload,
        pgText tag.1 = true ∧ pgText tag.2 = true)
      fun _ => Live R x.block.height hashes slots changes := by
  have hnote : nullable R.casts .integer (output.noteIndex.elim .null .int) = output.noteIndex.all int4 := by
    rcases output.noteIndex with _ | note <;> rfl
  unfold persistShieldedOutput
  refine .bind ((exactly_numbered hhash (.inr (.inr (.inl rfl))) rfl rfl rfl).iff ?_) fun hfits _ => ?_
  · simp [shieldedCells, bdsSchema, notNull, SqlType.holds, OutputFits, hx.height, hx.txHash, hx.txIndex, hnote]
  · obtain ⟨hcontract, hfunction, haction, houtput, hnoteFits, hcommitment, hroot, hpayload⟩ := hfits
    refine .forM fun tag _ => ?_
    have htag : Exactly (insertNumbered R .shieldedOutputTags (.ignore [2, 7, 12, 13])
        (shieldedCells x contract function output ++ [.text tag.1, .text tag.2, .timestamp x.time]))
        (Live R x.block.height hashes slots changes) _ fun _ => Live R x.block.height hashes slots changes :=
      exactly_numbered hhash (.inr (.inr (.inr rfl))) rfl rfl rfl
    refine htag.discard.iff ?_
    simp [shieldedCells, bdsSchema, notNull, SqlType.holds, hx.height, hx.txHash, hx.txIndex, hnote, hcontract,
      hfunction, haction, houtput, hnoteFits, hcommitment, hroot, hpayload]

theorem exactly_contract {x : TxContext} (hx : x.Fits) (hhash : hashes x.txHash) (name : String)
    (submittedAt : Option Int) (source : Cell) (xsc001 : Bool) :
    Exactly (upsertContract R x name submittedAt source xsc001) (Live R x.block.height hashes slots changes)
      (pgText name = true ∧ notNull R.casts .text source = true)
      fun _ => Live R x.block.height hashes slots changes := by
  refine (exactly_keyed (.inr (.inl rfl)) hhash (.inr ⟨_, rfl, fun _ _ _ hnew => hnew⟩) ?_).iff ?_
  · intro r hr
    rcases List.mem_cons.1 (show r ∈ [(1, .transactions, 0), (2, .blocks, 0)] from hr) with rfl | hr
    · exact .inr ⟨rfl, rfl⟩
    · obtain rfl := List.mem_singleton.1 hr
      exact .inl ⟨rfl, rfl⟩
  · simp [bdsSchema, notNull, SqlType.holds, hx.height, hx.txHash]

/-- The columns of a transaction that its payload and its result give. -/
def TxCells.Fit (R : BdsRuntime) (cells : TxCells) (status chiUsed : Int) : Prop :=
  notNull R.casts .text cells.sender = true ∧ notNull R.casts .bigint cells.nonce = true ∧
    notNull R.casts .text cells.contract = true ∧ notNull R.casts .text cells.function = true ∧
    int4 status = true ∧ int8 chiUsed = true ∧ nullable R.casts .jsonb cells.result = true ∧
    notNull R.casts .jsonb cells.payload = true ∧ notNull R.casts .jsonb cells.envelope = true

theorem exactly_insertTransaction {x : TxContext} (cells : TxCells) {status chiUsed : Int} :
    Exactly (insertTransaction R x cells.sender cells.nonce cells.contract cells.function status chiUsed cells.result
        cells.payload cells.envelope) (Live R x.block.height hashes slots changes)
      (x.Fits ∧ cells.Fit R status chiUsed ∧ (hashes x.txHash ∨ ¬ slots x.txIndex))
      fun _ => Live R x.block.height (fun h => hashes h ∨ h = x.txHash)
        (fun k => slots k ∨ ¬ hashes x.txHash ∧ k = x.txIndex) changes := by
  refine (exactly_transaction rfl rfl rfl).iff ?_
  have hx : x.Fits ↔ int8 x.block.height = true ∧ pgText x.block.hash = true ∧ int8 x.block.nanos = true ∧
      pgText x.txHash = true ∧ int4 x.txIndex = true :=
    ⟨fun h => ⟨h.1, h.2, h.3, h.4, h.5⟩, fun h => ⟨h.1, h.2.1, h.2.2.1, h.2.2.2.1, h.2.2.2.2⟩⟩
  rw [hx, TxCells.Fit]
  simp [bdsSchema, notNull, SqlType.holds]
  tauto

theorem exactly_addressActivity {x : TxContext} (hx : x.Fits) (hhash : hashes x.txHash) {address contract function : Cell}
    (haddress : notNull R.casts .text address = true) (hcontract : notNull R.casts .text contract = true)
    (hfunction : notNull R.casts .text function = true) :
    Exactly (upsertAddressActivity R x address contract function) (Live R x.block.height hashes slots changes) True
      fun _ => Live R x.block.height hashes slots changes := by
  refine (exactly_keyed (.inl rfl) hhash (.inr ⟨_, rfl, fun _ _ => mergeAddress_fits⟩) ?_).iff (iff_true_intro ?_)
  · intro r hr
    obtain rfl := List.mem_singleton.1 (show r ∈ [(7, .transactions, 0)] from hr)
    exact .inr ⟨rfl, rfl⟩
  · simp only [bdsSchema, fitsColumns_cons, fitsColumns_nil, haddress, hcontract, hfunction]
    simp [notNull, SqlType.holds, hx.height, hx.txIndex, hx.txHash]

/-! ### Transactions -/

theorem ofPython_ok {α : Type} {e : Except PyErr α} {a : α} : ofPython e = .ok a ↔ e = .ok a := by
  rcases e with e | b <;> simp [ofPython]

/-- A value that Python computes, and what is done with it. -/
theorem exactly_python {α β : Type} {e : Except PyErr α} {f : α → PersistM β} {I : Session → Prop} {d : α → Prop}
    {K : β → Session → Prop} (hf : ∀ a, e = .ok a → Exactly (f a) I (d a) K) :
    Exactly (StateT.lift (ofPython e) >>= f) I (∃ a, e = .ok a ∧ d a) K :=
  (Exactly.lift_bind fun a ha => hf a (ofPython_ok.1 ha)).iff (by simp only [ofPython_ok])

theorem Live.iff {s : Session} (h : Live R height hashes slots changes s) (hhashes : ∀ k, hashes k ↔ hashes' k)
    (hslots : ∀ i, slots i ↔ slots' i) (hchanges : ∀ i w, changes i w ↔ changes' i w) :
    Live R height hashes' slots' changes' s :=
  { h with
    hashes := fun k => (h.hashes k).trans (hhashes k)
    slots := fun i => (h.slots i).trans (hslots i)
    changes := fun i w => (h.changes i w).trans (hchanges i w) }

theorem zipIdx_position {α : Type} {l : List α} {pre post : List (α × Nat)} {a : α} {w : Nat}
    (h : l.zipIdx = pre ++ (a, w) :: post) : w = pre.length := by
  have hget : (l.zipIdx)[pre.length]? = some (a, w) := by simp [h]
  rw [List.getElem?_zipIdx, Option.map_eq_some_iff] at hget
  obtain ⟨b, -, heq⟩ := hget
  have hw : 0 + pre.length = w := (Prod.mk.inj heq).2
  omega

/-- State changes in order, each under its position. -/
theorem exactly_changes {α : Type} {x : TxContext} {l : List α} {f : α × Nat → PersistM PUnit} {c : α × Nat → Prop}
    (h : ∀ change changes, Exactly (f change) (Live R x.block.height hashes slots changes)
      (c change ∧ ¬ changes x.txIndex change.2)
      fun _ => Live R x.block.height hashes slots fun i k => changes i k ∨ i = x.txIndex ∧ k = change.2) :
    Exactly (l.zipIdx.forM f) (Live R x.block.height hashes slots changes)
      (∀ change ∈ l.zipIdx, c change ∧ ¬ changes x.txIndex change.2)
      fun _ => Live R x.block.height hashes slots fun i k => changes i k ∨ i = x.txIndex ∧ k < l.length := by
  -- what the items that are done have taken
  let taken (done : List (α × Nat)) (i : Int) (k : Nat) : Prop := changes i k ∨ i = x.txIndex ∧ k < done.length
  have hloop : Exactly (l.zipIdx.forM f) (Live R x.block.height hashes slots (taken []))
      (∀ pre change post, l.zipIdx = pre ++ change :: post → c change ∧ ¬ changes x.txIndex change.2)
      fun _ => Live R x.block.height hashes slots (taken l.zipIdx) := by
    refine Exactly.forM_prefix (I := fun done => Live R x.block.height hashes slots (taken done))
      (c := fun _ change => c change ∧ ¬ changes x.txIndex change.2) fun pre change post hl => ?_
    obtain ⟨a, w⟩ := change
    obtain rfl : w = pre.length := zipIdx_position hl
    refine (h (a, pre.length) (taken pre)).conseq (fun _ => id) ?_ fun _ s hs => ?_
    · simp [taken]
    · refine hs.iff (fun _ => Iff.rfl) (fun _ => Iff.rfl) fun i k => ?_
      simp only [taken, List.length_append, List.length_singleton]
      constructor
      · rintro ((hchange | ⟨hi, hk⟩) | ⟨hi, hk⟩)
        · exact .inl hchange
        · exact .inr ⟨hi, by omega⟩
        · exact .inr ⟨hi, by omega⟩
      · rintro (hchange | ⟨hi, hk⟩)
        · exact .inl (.inl hchange)
        · rcases Nat.lt_succ_iff_lt_or_eq.1 hk with hk | hk
          · exact .inl (.inr ⟨hi, hk⟩)
          · exact .inr ⟨hi, hk⟩
  refine hloop.conseq (fun s hs => hs.iff (fun _ => Iff.rfl) (fun _ => Iff.rfl) ?_) ?_ fun _ s hs =>
    hs.iff (fun _ => Iff.rfl) (fun _ => Iff.rfl) ?_
  · simp [taken]
  · constructor
    · intro hall change hchange
      obtain ⟨pre, post, hl⟩ := List.append_of_mem hchange
      exact hall pre change post hl
    · intro hall pre change post hl
      exact hall change (by rw [hl]; simp)
  · simp [taken]

section Parts

variable {x : TxContext} (hx : x.Fits) (hhash : hashes x.txHash)
include hx hhash

theorem exactly_txChanges (state : List (String × Value)) :
    Exactly (state.zipIdx.forM fun change => do
        let value ← StateT.lift (ofPython (R.canonicalJson change.1.2))
        persistStateChange R x "transaction" change.2 change.1.1 value)
      (Live R x.block.height hashes slots changes)
      (∀ change ∈ state.zipIdx, (∃ value, R.canonicalJson change.1.2 = .ok value ∧
        ChangeFits R change.2 change.1.1 value) ∧ ¬ changes x.txIndex change.2)
      fun _ => Live R x.block.height hashes slots fun i k => changes i k ∨ i = x.txIndex ∧ k < state.length := by
  refine exactly_changes fun change changes => ?_
  refine (exactly_python fun value _ => exactly_stateChange hx hhash (by decide) _ _ value).iff ?_
  simp only [← and_assoc, exists_and_right]

theorem exactly_rewards (rewards : List (RewardType × Value × Option String × ContractingDecimal)) :
    Exactly (rewards.zipIdx.forM fun reward => do
        let recipient ← StateT.lift (ofPython (textParam reward.1.2.1))
        let _ ← insertReward R x reward.2 reward.1.1 recipient reward.1.2.2.1 reward.1.2.2.2)
      (Live R x.block.height hashes slots changes)
      (∀ reward ∈ rewards.zipIdx, ∃ recipient, textParam reward.1.2.1 = .ok recipient ∧ int4 reward.2 = true ∧
        nullable R.casts .text recipient = true ∧ reward.1.2.2.1.all pgText = true)
      fun _ => Live R x.block.height hashes slots changes :=
  .forM fun _ _ => exactly_python fun _ _ => (exactly_reward hx hhash _ _ _ _ _).discard

theorem exactly_events (events : List Value) :
    Exactly (events.zipIdx.forM fun event => do
        let cells ← StateT.lift (ofPython (eventCells R B event.1))
        let _ ← insertEvent R x event.2 cells)
      (Live R x.block.height hashes slots changes)
      (∀ event ∈ events.zipIdx, ∃ cells, eventCells R B event.1 = .ok cells ∧ int4 event.2 = true ∧
        ∀ cell ∈ cells, cell.clean = true)
      fun _ => Live R x.block.height hashes slots changes :=
  .forM fun _ _ => exactly_python fun _ hcells => (exactly_event hx hhash _ hcells).discard

end Parts

/-- What a transaction brings to the index fits its columns. -/
structure TxStorable (R : BdsRuntime) (B : Builtins) (x : TxContext) (tx : BdsTransactionPayload) (payload : Value) :
    Prop where
  context : x.Fits
  cells : ∃ cells, txCells R payload tx.envelope tx.txResult = .ok cells ∧
    cells.Fit R tx.txResult.status tx.txResult.chiUsed
  state : ∀ change ∈ tx.txResult.state.zipIdx, ∃ value, R.canonicalJson change.1.2 = .ok value ∧
    ChangeFits R change.2 change.1.1 value
  rewards : ∀ reward ∈ (rewardRows tx.txResult).zipIdx, ∃ recipient, textParam reward.1.2.1 = .ok recipient ∧
    int4 reward.2 = true ∧ nullable R.casts .text recipient = true ∧ reward.1.2.2.1.all pgText = true
  events : ∀ event ∈ tx.txResult.events.zipIdx, ∃ cells, eventCells R B event.1 = .ok cells ∧
    int4 event.2 = true ∧ ∀ cell ∈ cells, cell.clean = true
  outputs : ∃ outputs, shieldedOutputsOf B payload tx.txResult = .ok outputs ∧ ∀ output ∈ outputs.2.2,
    OutputFits outputs.1 outputs.2.1 output ∧ ∀ tag ∈ extractPayloadTags output.outputPayload,
      pgText tag.1 = true ∧ pgText tag.2 = true
  contracts : ∃ contracts, submittedContracts R tx.txResult = .ok contracts ∧ ∀ contract ∈ contracts,
    pgText contract.1 = true ∧ notNull R.casts .text contract.2.2.1 = true

/-- A transaction whose index is free. -/
theorem exactly_persistTransaction {block : BlockMeta} {time : Int} {tx : BdsTransactionPayload}
    (hslot : ¬ slots tx.txIndex) (hchange : ∀ w, ¬ changes tx.txIndex w) :
    Exactly (persistTransaction R B block time tx) (Live R block.height hashes slots changes)
      (∃ payload, tx.envelope.index "payload" = .ok payload ∧
        TxStorable R B ⟨block, time, tx.txResult.hash, tx.txIndex⟩ tx payload)
      fun _ => Live R block.height (fun h => hashes h ∨ h = tx.txResult.hash)
        (fun k => slots k ∨ ¬ hashes tx.txResult.hash ∧ k = tx.txIndex)
        fun i k => changes i k ∨ i = tx.txIndex ∧ k < tx.txResult.state.length := by
  unfold persistTransaction
  extract_lets x
  have hhash : hashes x.txHash ∨ x.txHash = tx.txResult.hash := .inr rfl
  refine exactly_python fun payload _ => ?_
  apply Exactly.iff
  · apply exactly_python
    intro cells _
    apply Exactly.bind (exactly_insertTransaction cells)
    intro hfit _
    apply Exactly.bind (exactly_addressActivity hfit.1 hhash hfit.2.1.1 hfit.2.1.2.2.1 hfit.2.1.2.2.2.1)
    intro _ _
    apply Exactly.bind (exactly_txChanges hfit.1 hhash tx.txResult.state)
    intro _ _
    apply Exactly.bind (exactly_rewards hfit.1 hhash (rewardRows tx.txResult))
    intro _ _
    apply Exactly.bind (exactly_events hfit.1 hhash tx.txResult.events)
    intro _ _
    apply exactly_python
    intro outputs _
    apply Exactly.bind (.forM fun output _ => exactly_shieldedOutput hfit.1 hhash _ _ output)
    intro _ _
    apply exactly_python
    intro contracts _
    exact .forM fun contract _ => exactly_contract hfit.1 hhash _ _ _ _
  · constructor
    · rintro ⟨cells, hcells, ⟨hx, hfit, -⟩, -, hstate, hrewards, hevents, outputs, houtputs, hfits, hcontracts⟩
      exact ⟨hx, ⟨cells, hcells, hfit⟩, fun change h => (hstate change h).1, hrewards, hevents,
        ⟨outputs, houtputs, hfits⟩, hcontracts⟩
    · rintro ⟨hx, ⟨cells, hcells, hfit⟩, hstate, hrewards, hevents, ⟨outputs, houtputs, hfits⟩, hcontracts⟩
      exact ⟨cells, hcells, ⟨hx, hfit, .inr hslot⟩, trivial, fun change h => ⟨hstate change h, hchange _⟩, hrewards,
        hevents, outputs, houtputs, hfits, hcontracts⟩

/-! ### State patches -/

/-- What the state patches bring to the index fits its columns. -/
structure PatchesStorable (R : BdsRuntime) (x : TxContext) (statePatches : List Value)
    (patchChanges : List (Value × Value)) : Prop where
  context : x.Fits
  cells : ∃ cells, patchCells R statePatches patchChanges.length = .ok cells ∧
    nullable R.casts .jsonb cells.1 = true ∧ notNull R.casts .jsonb cells.2.1 = true ∧
    notNull R.casts .jsonb cells.2.2 = true
  state : ∀ change ∈ patchChanges.zipIdx, ∃ change', patchChange R change.1 = .ok change' ∧
    ChangeFits R change.2 change'.1 change'.2
  count : int4 patchChanges.length = true
  patches : ∃ patches, R.canonicalJson (.list statePatches) = .ok patches ∧ pgJson patches = true

theorem exactly_patchChanges {x : TxContext} (hx : x.Fits) (hhash : hashes x.txHash)
    (patchChanges : List (Value × Value)) :
    Exactly (patchChanges.zipIdx.forM fun change => do
        let change' ← StateT.lift (ofPython (patchChange R change.1))
        persistStateChange R x "state_patch" change.2 change'.1 change'.2)
      (Live R x.block.height hashes slots changes)
      (∀ change ∈ patchChanges.zipIdx, (∃ change', patchChange R change.1 = .ok change' ∧
        ChangeFits R change.2 change'.1 change'.2) ∧ ¬ changes x.txIndex change.2)
      fun _ => Live R x.block.height hashes slots fun i k => changes i k ∨ i = x.txIndex ∧ k < patchChanges.length := by
  refine exactly_changes fun change changes => ?_
  refine (exactly_python fun change' _ => exactly_stateChange hx hhash (by decide) _ _ change'.2).iff ?_
  simp only [← and_assoc, exists_and_right]

theorem exactly_patchRecord {x : TxContext} (hx : x.Fits) (hhash : hashes x.txHash) (count : Int) (patches : Json) :
    Exactly (sqlInsert R .statePatches (.ignore [0]) [.text x.txHash, .int x.block.height, .text x.block.hash,
        .int x.block.nanos, .int count, .json patches, .timestamp x.time])
      (Live R x.block.height hashes slots changes) (int4 count = true ∧ pgJson patches = true)
      fun _ => Live R x.block.height hashes slots changes := by
  refine (exactly_keyed (.inr (.inr (.inl rfl))) hhash (.inl rfl) ?_).iff ?_
  · intro r hr
    obtain rfl := List.mem_singleton.1 (show r ∈ [(1, .blocks, 0)] from hr)
    exact .inl ⟨rfl, rfl⟩
  · simp [bdsSchema, notNull, SqlType.holds, hx.height, hx.blockHash, hx.nanos, hx.txHash]

/-- The state patches are filed as a transaction, which finds its index free or its hash in the index, and their
changes are filed under that index. -/
theorem exactly_statePatches {block : BlockMeta} {time : Int} {statePatches : List Value} {patchHash : String}
    {txIndex : Nat} :
    Exactly (persistStatePatches R block time statePatches patchHash txIndex)
      (Live R block.height hashes slots changes)
      (∃ patchChanges, flattenedChanges statePatches = .ok patchChanges ∧
        PatchesStorable R ⟨block, time, patchHash, txIndex⟩ statePatches patchChanges ∧
        (hashes patchHash ∨ ¬ slots txIndex) ∧ ∀ w < patchChanges.length, ¬ changes txIndex w)
      fun _ _ => True := by
  unfold persistStatePatches
  extract_lets x
  have hhash : hashes x.txHash ∨ x.txHash = patchHash := .inr rfl
  refine exactly_python fun patchChanges _ => ?_
  apply Exactly.iff
  · apply exactly_python
    intro cells _
    apply Exactly.bind (exactly_insertTransaction ⟨.text "sys", .int 0, .text "STATE_PATCHER",
      .text "STATE_PATCH", cells.1, cells.2.1, cells.2.2⟩)
    intro hfit _
    apply Exactly.bind (exactly_addressActivity hfit.1 hhash hfit.2.1.1 hfit.2.1.2.2.1 hfit.2.1.2.2.2.1)
    intro _ _
    apply Exactly.bind (exactly_patchChanges hfit.1 hhash patchChanges)
    intro _ _
    apply exactly_python
    intro patches _
    exact (exactly_patchRecord hfit.1 hhash patchChanges.length patches).conseq (fun _ => id) Iff.rfl
      fun _ _ _ => trivial
  · have hfit : ∀ cells : Cell × Cell × Cell, TxCells.Fit R ⟨.text "sys", .int 0, .text "STATE_PATCHER",
        .text "STATE_PATCH", cells.1, cells.2.1, cells.2.2⟩ 0 0 ↔ nullable R.casts .jsonb cells.1 = true ∧
          notNull R.casts .jsonb cells.2.1 = true ∧ notNull R.casts .jsonb cells.2.2 = true := by
      intro cells
      have hsys : pgText "sys" = true := by decide
      have hpatcher : pgText "STATE_PATCHER" = true := by decide
      have hpatch : pgText "STATE_PATCH" = true := by decide
      have hzero : int8 0 = true ∧ int4 0 = true := by decide
      simp [TxCells.Fit, notNull, SqlType.holds, hsys, hpatcher, hpatch, hzero]
    have hfree : (∀ change ∈ patchChanges.zipIdx, ¬ changes x.txIndex change.2) ↔
        ∀ w < patchChanges.length, ¬ changes txIndex w := by
      constructor
      · intro hall w hw
        exact hall (patchChanges[w], w) (by simp [List.mem_zipIdx_iff_getElem?, hw])
      · intro hall change hchange
        exact hall change.2 (by
          have := List.snd_lt_of_mem_zipIdx hchange
          omega)
    constructor
    · rintro ⟨cells, hcells, ⟨hx, hcellsFit, hslot⟩, -, hstate, patches, hpatches, hcount, hjson⟩
      exact ⟨⟨hx, ⟨cells, hcells, (hfit cells).1 hcellsFit⟩, fun change h => (hstate change h).1, hcount,
        ⟨patches, hpatches, hjson⟩⟩, hslot, hfree.1 fun change h => (hstate change h).2⟩
    · rintro ⟨⟨hx, ⟨cells, hcells, hcellsFit⟩, hstate, hcount, ⟨patches, hpatches, hjson⟩⟩, hslot, hclash⟩
      exact ⟨cells, hcells, ⟨hx, (hfit cells).2 hcellsFit, hslot⟩, trivial,
        fun change h => ⟨hstate change h, hfree.2 hclash change h⟩, patches, hpatches, hcount, hjson⟩

end XianAbci
