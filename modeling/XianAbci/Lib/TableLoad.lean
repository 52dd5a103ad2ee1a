import XianAbci.Lib.Tables
import Mathlib.Data.List.Nodup

/-!
# Consistent databases

A database is consistent when its rows fit, no unique key is taken twice and whatever a row refers to is there.
An insertion keeps a database consistent (`Consistent.insertRow`), and the rows of a database go into empty tables
again, each table after those it refers to, exactly when it is consistent (`loadTables_ok`).
-/

section Consistent

variable {T α : Type} [DecidableEq T] [DecidableEq α] (schema : T → TableSchema T α) (isNull : α → Bool)

structure Consistent (db : T → List (List α)) : Prop where
  fits : ∀ t, ∀ row ∈ db t, fitsColumns (schema t).columns row = true
  keys : ∀ t, ∀ key ∈ (schema t).keys, (db t).Pairwise fun a b => project key a ≠ project key b
  refers : ∀ t, ∀ row ∈ db t, Refers schema isNull db t row

/-- A merge under `key` that leaves the keys of a row and the columns that other rows refer to, and takes each
reference from one of the two rows. -/
structure Merges (t : T) (key : List Nat) (merge : List α → List α → List α) : Prop where
  keys : ∀ old new, project key old = project key new → ∀ key' ∈ (schema t).keys,
    project key' (merge old new) = project key' old
  target : ∀ old new, project key old = project key new → ∀ t', ∀ r ∈ (schema t').references, r.2.1 = t →
    (merge old new)[r.2.2]? = old[r.2.2]?
  source : ∀ old new, ∀ r ∈ (schema t).references,
    (merge old new)[r.1]? = old[r.1]? ∨ (merge old new)[r.1]? = new[r.1]?

variable {schema isNull} {t : T} {row : List α} {db db' : T → List (List α)} {key : List Nat}

omit [DecidableEq T] [DecidableEq α] in
theorem consistent_empty : Consistent schema isNull fun _ => [] where
  fits _ _ h := absurd h List.not_mem_nil
  keys _ _ _ := List.Pairwise.nil
  refers _ _ h := absurd h List.not_mem_nil

omit [DecidableEq T] [DecidableEq α] in
/-- What is referred to may become more. -/
theorem Refers.mono {t' : T} {row : List α} (h : Refers schema isNull db t' row)
    (hhas : ∀ r ∈ (schema t').references, ∀ cells, Has (db r.2.1) [r.2.2] cells → Has (db' r.2.1) [r.2.2] cells) :
    Refers schema isNull db' t' row :=
  fun r hr cell hcell => (h r hr cell hcell).imp_right (hhas r hr _)

omit [DecidableEq α] in
theorem has_update_append {t' : T} {rows : List (List α)} {cells : List (Option α)} (h : Has (db t') key cells) :
    Has (Function.update db t (db t ++ rows) t') key cells := by
  by_cases hne : t' = t
  · subst hne
    rw [Function.update_self]
    obtain ⟨r, hr, hcells⟩ := h
    exact ⟨r, List.mem_append_left _ hr, hcells⟩
  · rwa [Function.update_of_ne hne]

omit [DecidableEq α] in
theorem Consistent.add (h : Consistent schema isNull db) (hfits : fitsColumns (schema t).columns row = true)
    (hfree : ¬ Taken schema db t row) (hrefers : Refers schema isNull db t row) :
    Consistent schema isNull (Function.update db t (db t ++ [row])) := by
  have hmem : ∀ t', ∀ r ∈ Function.update db t (db t ++ [row]) t', r ∈ db t' ∨ t' = t ∧ r = row := by
    intro t' r hr
    by_cases hne : t' = t
    · subst hne
      rw [Function.update_self, List.mem_append, List.mem_singleton] at hr
      exact hr.imp_right fun hr => ⟨rfl, hr⟩
    · rw [Function.update_of_ne hne] at hr
      exact .inl hr
  refine ⟨fun t' r hr => ?_, fun t' k hk => ?_, fun t' r hr => ?_⟩
  · rcases hmem t' r hr with hr | ⟨rfl, rfl⟩
    · exact h.fits t' r hr
    · exact hfits
  · by_cases hne : t' = t
    · subst hne
      rw [Function.update_self]
      refine List.pairwise_append.2 ⟨h.keys t' k hk, List.pairwise_singleton _ _, fun a ha b hb heq => ?_⟩
      rw [List.mem_singleton.1 hb] at heq
      exact hfree ⟨k, hk, a, ha, heq⟩
    · rw [Function.update_of_ne hne]
      exact h.keys t' k hk
  · have hold : Refers schema isNull db t' r := by
      rcases hmem t' r hr with hr | ⟨rfl, rfl⟩
      · exact h.refers t' r hr
      · exact hrefers
    exact hold.mono fun _ _ _ hhas => has_update_append hhas

theorem Consistent.merge {merge : List α → List α → List α} (h : Consistent schema isNull db)
    (hmerge : Merges schema t key merge)
    (hfits : ∀ r ∈ mergeRows key merge row (db t), fitsColumns (schema t).columns r = true)
    (hrefers : Refers schema isNull db t row) :
    Consistent schema isNull (Function.update db t (mergeRows key merge row (db t))) := by
  have hkeys : ∀ old ∈ db t, ∀ k ∈ (schema t).keys,
      project k (if project key old = project key row then merge old row else old) = project k old := by
    intro old _ k hk
    split_ifs with heq
    · exact hmerge.keys old row heq k hk
    · rfl
  have hhas : ∀ t', ∀ r ∈ (schema t').references, ∀ cells, Has (db r.2.1) [r.2.2] cells →
      Has (Function.update db t (mergeRows key merge row (db t)) r.2.1) [r.2.2] cells := by
    intro t' r hr cells hcells
    by_cases hne : r.2.1 = t
    · rw [hne, Function.update_self, has_mergeRows]
      · rwa [hne] at hcells
      · intro old _ heq
        rw [project, project, List.map_singleton, List.map_singleton, hmerge.target old row heq t' r hr hne]
    · rwa [Function.update_of_ne hne]
  refine ⟨fun t' r hr => ?_, fun t' k hk => ?_, fun t' r hr => ?_⟩
  · by_cases hne : t' = t
    · subst hne
      rw [Function.update_self] at hr
      exact hfits r hr
    · rw [Function.update_of_ne hne] at hr
      exact h.fits t' r hr
  · by_cases hne : t' = t
    · subst hne
      rw [Function.update_self, mergeRows, List.pairwise_map]
      refine (h.keys t' k hk).imp_of_mem fun {a b} ha hb hab => ?_
      rwa [hkeys a ha k hk, hkeys b hb k hk]
    · rw [Function.update_of_ne hne]
      exact h.keys t' k hk
  · have hold : Refers schema isNull db t' r := by
      by_cases hne : t' = t
      · subst hne
        rw [Function.update_self] at hr
        obtain ⟨old, hmem, rfl⟩ := List.mem_map.1 hr
        split_ifs
        · intro q hq cell hcell
          rcases hmerge.source old row q hq with hsource | hsource
          · exact h.refers t' old hmem q hq cell (hsource ▸ hcell)
          · exact hrefers q hq cell (hsource ▸ hcell)
        · exact h.refers t' old hmem
      · rw [Function.update_of_ne hne] at hr
        exact h.refers t' r hr
    exact hold.mono (hhas t')

/-- What one insertion keeps. -/
theorem Consistent.insertRow {conflict : OnConflict α} (h : Consistent schema isNull db)
    (hconflict : ∀ key merge, conflict = .update key merge → Merges schema t key merge)
    (hinsert : insertRow schema isNull t conflict row db = .ok db') : Consistent schema isNull db' := by
  cases conflict with
  | raise =>
    obtain ⟨hfits, hfree, hrefers, rfl⟩ := insertRow_raise.1 hinsert
    exact h.add hfits hfree hrefers
  | ignore key =>
    obtain ⟨hfits, ⟨-, rfl⟩ | ⟨-, hfree, hrefers, rfl⟩⟩ := insertRow_ignore.1 hinsert
    · exact h
    · exact h.add hfits hfree hrefers
  | update key merge =>
    obtain ⟨hfits, ⟨-, hmerged, hrefers, rfl⟩ | ⟨-, hfree, hrefers, rfl⟩⟩ := insertRow_update.1 hinsert
    · exact h.merge (hconflict key merge rfl) hmerged hrefers
    · exact h.add hfits hfree hrefers

end Consistent

/-! ### Loading -/

section Load

variable {T α : Type} [DecidableEq T] [DecidableEq α] (schema : T → TableSchema T α) (isNull : α → Bool)

/-- One statement for each row. -/
def insertRows (t : T) (conflict : OnConflict α) (rows : List (List α)) (db : T → List (List α)) :
    Except SqlError (T → List (List α)) :=
  rows.foldlM (fun db row => insertRow schema isNull t conflict row db) db

def loadTables (source : T → List (List α)) (tables : List T) (db : T → List (List α)) :
    Except SqlError (T → List (List α)) :=
  tables.foldlM (fun db t => insertRows schema isNull t .raise (source t) db) db

/-- The rows of a table fit, take no key twice, and refer to rows that are there. -/
structure TableConsistent (source : T → List (List α)) (t : T) : Prop where
  fits : ∀ row ∈ source t, fitsColumns (schema t).columns row = true
  keys : ∀ key ∈ (schema t).keys, (source t).Pairwise fun a b => project key a ≠ project key b
  refers : ∀ row ∈ source t, Refers schema isNull source t row

/-- Each table comes once, and after those it refers to. -/
structure LoadOrder (tables : List T) : Prop where
  nodup : tables.Nodup
  before : ∀ pre t post, tables = pre ++ t :: post → ∀ r ∈ (schema t).references, r.2.1 ∈ pre

variable {schema isNull} {t : T} {rows : List (List α)} {db db' source : T → List (List α)} {tables : List T}

omit [DecidableEq T] [DecidableEq α] in
theorem Consistent.tableConsistent (h : Consistent schema isNull db) (t : T) : TableConsistent schema isNull db t :=
  ⟨h.fits t, h.keys t, h.refers t⟩

omit [DecidableEq T] [DecidableEq α] in
theorem consistent_of_tables (h : ∀ t, TableConsistent schema isNull db t) : Consistent schema isNull db :=
  ⟨fun t => (h t).fits, fun t => (h t).keys, fun t => (h t).refers⟩

/-- A table that does not refer to itself takes rows that are new to it and to each other. -/
theorem insertRows_ok (hself : ∀ r ∈ (schema t).references, r.2.1 ≠ t) :
    insertRows schema isNull t .raise rows db = .ok db' ↔
      (∀ row ∈ rows, fitsColumns (schema t).columns row = true) ∧
      (∀ key ∈ (schema t).keys, rows.Pairwise (fun a b => project key a ≠ project key b) ∧
        ∀ row ∈ rows, ¬ Has (db t) key (project key row)) ∧
      (∀ row ∈ rows, Refers schema isNull db t row) ∧ db' = Function.update db t (db t ++ rows) := by
  induction rows generalizing db with
  | nil =>
    have hnil : insertRows schema isNull t .raise [] db = .ok db := rfl
    rw [hnil, Except.ok.injEq, List.append_nil, Function.update_eq_self]
    exact ⟨fun h => ⟨by simp, by simp, by simp, h.symm⟩, fun h => h.2.2.2.symm⟩
  | cons row rest ih =>
    have hcons : insertRows schema isNull t .raise (row :: rest) db = .ok db' ↔ ∃ mid,
        insertRow schema isNull t .raise row db = .ok mid ∧ insertRows schema isNull t .raise rest mid = .ok db' := by
      unfold insertRows
      rw [List.foldlM_cons]
      cases insertRow schema isNull t .raise row db with
      | error e => simp [bind, Except.bind]
      | ok mid => simp [bind, Except.bind]
    have hrefers : ∀ r : List α, Refers schema isNull (Function.update db t (db t ++ [row])) t r ↔
        Refers schema isNull db t r := by
      intro r
      unfold Refers
      refine forall₂_congr fun q hq => ?_
      rw [Function.update_of_ne (hself q hq)]
    rw [hcons]
    constructor
    · rintro ⟨mid, hrow, hrest⟩
      obtain ⟨hfits, hfree, hrefRow, rfl⟩ := insertRow_raise.1 hrow
      obtain ⟨hfitsRest, hkeys, hrest, hdb⟩ := ih.1 hrest
      rw [Function.update_self] at hkeys hdb
      refine ⟨List.forall_mem_cons.2 ⟨hfits, hfitsRest⟩, fun key hkey => ?_, ?_, ?_⟩
      · obtain ⟨hpairwise, hnew⟩ := hkeys key hkey
        refine ⟨List.pairwise_cons.2 ⟨fun b hb heq => ?_, hpairwise⟩, List.forall_mem_cons.2 ⟨?_, fun b hb hhas => ?_⟩⟩
        · exact hnew b hb (has_append.2 (.inr heq))
        · exact fun hhas => hfree ⟨key, hkey, hhas⟩
        · exact hnew b hb (has_append.2 (.inl hhas))
      · exact List.forall_mem_cons.2 ⟨hrefRow, fun b hb => (hrefers b).1 (hrest b hb)⟩
      · rw [hdb, Function.update_idem, List.append_assoc]
        rfl
    · rintro ⟨hfits, hkeys, hrefs, rfl⟩
      rw [List.forall_mem_cons] at hfits hrefs
      refine ⟨_, insertRow_raise.2 ⟨hfits.1, ?_, hrefs.1, rfl⟩, ih.2 ⟨hfits.2, fun key hkey => ?_, fun b hb => ?_, ?_⟩⟩
      · rintro ⟨key, hkey, hhas⟩
        exact (hkeys key hkey).2 row (List.mem_cons_self ..) hhas
      · obtain ⟨hpairwise, hnew⟩ := hkeys key hkey
        rw [List.pairwise_cons] at hpairwise
        refine ⟨hpairwise.2, fun b hb hhas => ?_⟩
        rw [Function.update_self, has_append] at hhas
        rcases hhas with hhas | heq
        · exact hnew b (List.mem_cons_of_mem _ hb) hhas
        · exact hpairwise.1 b hb heq
      · exact (hrefers b).2 (hrefs.2 b hb)
      · rw [Function.update_self, Function.update_idem, List.append_assoc]
        rfl

omit [DecidableEq T] [DecidableEq α] in
theorem LoadOrder.self_free (h : LoadOrder schema tables) {pre post : List T} (heq : tables = pre ++ t :: post) :
    ∀ r ∈ (schema t).references, r.2.1 ≠ t := by
  rintro r hr hself
  have hmem := h.before pre t post heq r hr
  have hnodup := h.nodup
  rw [heq, hself] at *
  exact (List.nodup_middle.1 hnodup |> List.nodup_cons.1).1 (List.mem_append_left _ hmem)

/-- The tables are loaded exactly when each is consistent, and then they hold the rows. -/
theorem loadTables_ok (horder : LoadOrder schema tables) (hempty : ∀ t ∈ tables, db t = []) :
    loadTables schema isNull source tables db = .ok db' ↔
      (∀ t ∈ tables, TableConsistent schema isNull source t) ∧ db' = fun t => if t ∈ tables then source t else db t := by
  -- the tables done hold their rows, the others are as they were
  have hloop : ∀ post pre, tables = pre ++ post →
      (loadTables schema isNull source post (fun t => if t ∈ pre then source t else db t) = .ok db' ↔
        (∀ t ∈ post, TableConsistent schema isNull source t) ∧
          db' = fun t => if t ∈ tables then source t else db t) := by
    intro post
    induction post with
    | nil =>
      intro pre hpre
      rw [List.append_nil] at hpre
      have hnil : ∀ db : T → List (List α), loadTables schema isNull source [] db = .ok db := fun _ => rfl
      rw [hnil, Except.ok.injEq, hpre]
      simp [eq_comm]
    | cons t post ih =>
      intro pre hpre
      have hnodup := horder.nodup
      rw [hpre, List.nodup_middle, List.nodup_cons, List.mem_append, not_or] at hnodup
      set mid : T → List (List α) := fun t => if t ∈ pre then source t else db t with hmid
      have htable : mid t = [] := by
        rw [hmid]
        dsimp only
        rw [if_neg hnodup.1.1]
        exact hempty t (by rw [hpre]; simp)
      have hnext : Function.update mid t (mid t ++ source t) = fun t' => if t' ∈ pre ++ [t] then source t' else db t' := by
        funext t'
        by_cases hne : t' = t
        · subst hne
          rw [Function.update_self, htable, if_pos (by simp)]
          rfl
        · rw [Function.update_of_ne hne]
          simp [hmid, hne]
      have hrefers : ∀ row, Refers schema isNull mid t row ↔ Refers schema isNull source t row := by
        intro row
        unfold Refers
        refine forall₂_congr fun r hr => ?_
        rw [hmid]
        dsimp only
        rw [if_pos (horder.before pre t post hpre r hr)]
      have hcons : loadTables schema isNull source (t :: post) mid = .ok db' ↔ ∃ next,
          insertRows schema isNull t .raise (source t) mid = .ok next ∧
            loadTables schema isNull source post next = .ok db' := by
        unfold loadTables
        rw [List.foldlM_cons]
        cases insertRows schema isNull t .raise (source t) mid with
        | error e => simp [bind, Except.bind]
        | ok next => simp [bind, Except.bind]
      have hih := ih (pre ++ [t]) (by rw [hpre, List.append_assoc]; rfl)
      rw [hcons]
      constructor
      · rintro ⟨next, hrows, hrest⟩
        obtain ⟨hfits, hkeys, hrefs, rfl⟩ := (insertRows_ok (horder.self_free hpre)).1 hrows
        rw [hnext] at hrest
        obtain ⟨htables, hdb⟩ := hih.1 hrest
        refine ⟨List.forall_mem_cons.2 ⟨⟨hfits, fun key hkey => (hkeys key hkey).1, fun row hrow => ?_⟩, htables⟩, hdb⟩
        exact (hrefers row).1 (hrefs row hrow)
      · rintro ⟨htables, hdb⟩
        rw [List.forall_mem_cons] at htables
        refine ⟨_, (insertRows_ok (horder.self_free hpre)).2 ⟨htables.1.fits, fun key hkey => ?_, fun row hrow => ?_, rfl⟩, ?_⟩
        · refine ⟨htables.1.keys key hkey, fun row _ hhas => ?_⟩
          rw [htable] at hhas
          obtain ⟨r, hr, -⟩ := hhas
          cases hr
        · exact (hrefers row).2 (htables.1.refers row hrow)
        · rw [hnext]
          exact hih.2 ⟨htables.2, hdb⟩
  have hstart := hloop tables [] rfl
  simpa using hstart

end Load
