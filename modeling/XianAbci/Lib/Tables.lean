import Mathlib.Data.List.Basic
import Mathlib.Logic.Function.Basic

/-!
# Tables with keys

A database is a list of rows for each table. A table's schema says which cells each column accepts, which
columns are unique together and which refer to a column of another table. `insertRow` is `INSERT`, with the
`ON CONFLICT` clause it may carry; a failed check leaves an error and no database.
-/

structure TableSchema (T α : Type) where
  columns : List (α → Bool)
  -- positions of columns that are unique together, the primary key among them
  keys : List (List Nat)
  -- a column, and the table and column it refers to
  references : List (Nat × T × Nat)

inductive OnConflict (α : Type)
  | raise
  | ignore (key : List Nat)
  | update (key : List Nat) (merge : List α → List α → List α)

inductive SqlError
  | invalidValue
  | uniqueViolation
  | foreignKeyViolation
deriving DecidableEq, Repr

section Rows

variable {α : Type} {rows : List (List α)} {row : List α} {key : List Nat} {cells : List (Option α)}

/-- The cells of a row at some positions. -/
def project (key : List Nat) (row : List α) : List (Option α) := key.map fun i => row[i]?

def fitsColumns (columns : List (α → Bool)) (row : List α) : Bool :=
  columns.length = row.length && (columns.zip row).all fun p => p.1 p.2

@[simp] theorem fitsColumns_nil : fitsColumns ([] : List (α → Bool)) [] = true := rfl

@[simp] theorem fitsColumns_cons (column : α → Bool) (columns : List (α → Bool)) (cell : α) (row : List α) :
    fitsColumns (column :: columns) (cell :: row) = (column cell && fitsColumns columns row) := by
  simp only [fitsColumns, List.length_cons, List.zip_cons_cons, List.all_cons, Nat.add_right_cancel_iff]
  rcases column cell <;> simp

theorem fitsColumns_cons_iff {column : α → Bool} {columns : List (α → Bool)} :
    fitsColumns (column :: columns) row = true ↔
      ∃ cell rest, row = cell :: rest ∧ column cell = true ∧ fitsColumns columns rest = true := by
  rcases row with _ | ⟨cell, rest⟩
  · simp [fitsColumns]
  · simp

theorem fitsColumns_nil_iff : fitsColumns ([] : List (α → Bool)) row = true ↔ row = [] := by
  rcases row with _ | ⟨cell, rest⟩
  · simp
  · simp [fitsColumns]

/-- A row with these cells at these positions. -/
def Has (rows : List (List α)) (key : List Nat) (cells : List (Option α)) : Prop :=
  ∃ row ∈ rows, project key row = cells

instance [DecidableEq α] : Decidable (Has rows key cells) :=
  inferInstanceAs (Decidable (∃ row ∈ rows, project key row = cells))

theorem has_append : Has (rows ++ [row]) key cells ↔ Has rows key cells ∨ project key row = cells := by
  simp [Has, or_and_right, exists_or]

/-- The rows with the merged one in its place. -/
def mergeRows [DecidableEq α] (key : List Nat) (merge : List α → List α → List α) (row : List α)
    (rows : List (List α)) : List (List α) :=
  rows.map fun old => if project key old = project key row then merge old row else old

/-- A merge that keeps some cells of a row. -/
theorem has_mergeRows [DecidableEq α] {merge : List α → List α → List α} {key' : List Nat}
    (hkeep : ∀ old ∈ rows, project key old = project key row → project key' (merge old row) = project key' old) :
    Has (mergeRows key merge row rows) key' cells ↔ Has rows key' cells := by
  unfold Has mergeRows
  constructor
  · rintro ⟨r, hr, rfl⟩
    obtain ⟨old, hold, rfl⟩ := List.mem_map.1 hr
    refine ⟨old, hold, ?_⟩
    split_ifs with hkey
    · exact (hkeep old hold hkey).symm
    · rfl
  · rintro ⟨old, hold, rfl⟩
    refine ⟨_, List.mem_map.2 ⟨old, hold, rfl⟩, ?_⟩
    split_ifs with hkey
    · exact hkeep old hold hkey
    · rfl

end Rows

section Tables

variable {T α : Type} [DecidableEq T] [DecidableEq α] (schema : T → TableSchema T α) (isNull : α → Bool)

/-- Some unique key of the table is taken. -/
def Taken (db : T → List (List α)) (t : T) (row : List α) : Prop :=
  ∃ key ∈ (schema t).keys, Has (db t) key (project key row)

instance (db : T → List (List α)) (t : T) (row : List α) : Decidable (Taken schema db t row) :=
  inferInstanceAs (Decidable (∃ key ∈ (schema t).keys, Has (db t) key (project key row)))

/-- Whatever the row refers to is there. -/
def Refers (db : T → List (List α)) (t : T) (row : List α) : Prop :=
  ∀ r ∈ (schema t).references, ∀ cell, row[r.1]? = some cell → isNull cell = true ∨
    Has (db r.2.1) [r.2.2] [some cell]

instance (db : T → List (List α)) (t : T) (row : List α) : Decidable (Refers schema isNull db t row) :=
  decidable_of_iff (∀ r ∈ (schema t).references, (row[r.1]?).all fun cell =>
      isNull cell || decide (Has (db r.2.1) [r.2.2] [some cell])) <| by
    unfold Refers
    refine forall₂_congr fun r _ => ?_
    rcases row[r.1]? with _ | cell <;> simp

def addRow (t : T) (row : List α) (db : T → List (List α)) : Except SqlError (T → List (List α)) :=
  if Taken schema db t row then .error .uniqueViolation
  else if Refers schema isNull db t row then .ok (Function.update db t (db t ++ [row]))
  else .error .foreignKeyViolation

def insertRow (t : T) (conflict : OnConflict α) (row : List α) (db : T → List (List α)) :
    Except SqlError (T → List (List α)) :=
  if fitsColumns (schema t).columns row then
    match conflict with
    | .raise => addRow schema isNull t row db
    | .ignore key => if Has (db t) key (project key row) then .ok db else addRow schema isNull t row db
    | .update key merge =>
      if Has (db t) key (project key row) then
        if (mergeRows key merge row (db t)).all (fitsColumns (schema t).columns) then
          if Refers schema isNull db t row then .ok (Function.update db t (mergeRows key merge row (db t)))
          else .error .foreignKeyViolation
        else .error .invalidValue
      else addRow schema isNull t row db
  else .error .invalidValue

/-! ### What an insertion leaves -/

variable {schema isNull} {t : T} {row : List α} {db db' : T → List (List α)} {key : List Nat}

theorem addRow_ok : addRow schema isNull t row db = .ok db' ↔
    ¬ Taken schema db t row ∧ Refers schema isNull db t row ∧ db' = Function.update db t (db t ++ [row]) := by
  unfold addRow
  split_ifs with htaken hrefers
  · simp [htaken]
  · simp [htaken, hrefers, eq_comm]
  · simp [hrefers]

theorem insertRow_raise : insertRow schema isNull t .raise row db = .ok db' ↔
    fitsColumns (schema t).columns row = true ∧ ¬ Taken schema db t row ∧ Refers schema isNull db t row ∧
      db' = Function.update db t (db t ++ [row]) := by
  unfold insertRow
  by_cases hfits : fitsColumns (schema t).columns row = true
  · rw [if_pos hfits, addRow_ok]
    simp [hfits]
  · rw [if_neg hfits]
    simp [hfits]

theorem insertRow_ignore : insertRow schema isNull t (.ignore key) row db = .ok db' ↔
    fitsColumns (schema t).columns row = true ∧ (Has (db t) key (project key row) ∧ db' = db ∨
      ¬ Has (db t) key (project key row) ∧ ¬ Taken schema db t row ∧ Refers schema isNull db t row ∧
        db' = Function.update db t (db t ++ [row])) := by
  unfold insertRow
  by_cases hfits : fitsColumns (schema t).columns row = true
  · rw [if_pos hfits]
    dsimp only
    by_cases hhas : Has (db t) key (project key row)
    · rw [if_pos hhas]
      simp [hfits, hhas, eq_comm]
    · rw [if_neg hhas, addRow_ok]
      simp [hfits, hhas]
  · rw [if_neg hfits]
    simp [hfits]

theorem insertRow_update {merge : List α → List α → List α} :
    insertRow schema isNull t (.update key merge) row db = .ok db' ↔
    fitsColumns (schema t).columns row = true ∧
      (Has (db t) key (project key row) ∧
        (∀ r ∈ mergeRows key merge row (db t), fitsColumns (schema t).columns r = true) ∧
        Refers schema isNull db t row ∧ db' = Function.update db t (mergeRows key merge row (db t)) ∨
      ¬ Has (db t) key (project key row) ∧ ¬ Taken schema db t row ∧ Refers schema isNull db t row ∧
        db' = Function.update db t (db t ++ [row])) := by
  unfold insertRow
  by_cases hfits : fitsColumns (schema t).columns row = true
  · rw [if_pos hfits]
    dsimp only
    by_cases hhas : Has (db t) key (project key row)
    · rw [if_pos hhas, ← List.all_eq_true]
      by_cases hmerged : (mergeRows key merge row (db t)).all (fitsColumns (schema t).columns) = true
      · rw [if_pos hmerged]
        by_cases hrefers : Refers schema isNull db t row
        · rw [if_pos hrefers]
          simp only [Except.ok.injEq, hfits, hhas, hmerged, hrefers, true_and, not_true_eq_false, false_and, or_false]
          exact eq_comm
        · rw [if_neg hrefers]
          simp [hhas, hrefers]
      · rw [if_neg hmerged]
        simp [hhas, hmerged]
    · rw [if_neg hhas, addRow_ok]
      simp [hfits, hhas]
  · rw [if_neg hfits]
    simp [hfits]

/-- An update that takes the new row as it is leaves it, and the rows under other keys. -/
theorem mem_of_replace {r : List α}
    (h : insertRow schema isNull t (.update key fun _ new => new) row db = .ok db') :
    r ∈ db' t ↔ r = row ∨ r ∈ db t ∧ project key r ≠ project key row := by
  obtain ⟨-, ⟨hhas, -, -, rfl⟩ | ⟨hfree, -, -, rfl⟩⟩ := insertRow_update.1 h
  · rw [Function.update_self]
    unfold mergeRows
    rw [List.mem_map]
    constructor
    · rintro ⟨old, hold, rfl⟩
      split_ifs with hkey
      · exact .inl rfl
      · exact .inr ⟨hold, hkey⟩
    · rintro (rfl | ⟨hr, hkey⟩)
      · obtain ⟨old, hold, hkey⟩ := hhas
        exact ⟨old, hold, if_pos hkey⟩
      · exact ⟨r, hr, if_neg hkey⟩
  · rw [Function.update_self, List.mem_append, List.mem_singleton]
    constructor
    · rintro (hr | rfl)
      · exact .inr ⟨hr, fun hkey => hfree ⟨r, hr, hkey⟩⟩
      · exact .inl rfl
    · rintro (rfl | ⟨hr, -⟩)
      · exact .inr rfl
      · exact .inl hr

/-- The other tables stay. -/
theorem insertRow_other {t' : T} {conflict : OnConflict α}
    (h : insertRow schema isNull t conflict row db = .ok db') (hne : t' ≠ t) : db' t' = db t' := by
  cases conflict with
  | raise =>
    obtain ⟨-, -, -, rfl⟩ := insertRow_raise.1 h
    exact Function.update_of_ne hne _ _
  | ignore key =>
    obtain ⟨-, ⟨-, rfl⟩ | ⟨-, -, -, rfl⟩⟩ := insertRow_ignore.1 h
    · rfl
    · exact Function.update_of_ne hne _ _
  | update key merge =>
    obtain ⟨-, ⟨-, -, -, rfl⟩ | ⟨-, -, -, rfl⟩⟩ := insertRow_update.1 h
    · exact Function.update_of_ne hne _ _
    · exact Function.update_of_ne hne _ _

/-- Rows that fit stay the only ones. -/
theorem insertRow_fits {conflict : OnConflict α} (h : insertRow schema isNull t conflict row db = .ok db')
    (hdb : ∀ t, ∀ r ∈ db t, fitsColumns (schema t).columns r = true) :
    ∀ t, ∀ r ∈ db' t, fitsColumns (schema t).columns r = true := by
  intro t'
  by_cases hne : t' = t
  · subst hne
    have hadded : fitsColumns (schema t').columns row = true →
        ∀ r ∈ db t' ++ [row], fitsColumns (schema t').columns r = true := by
      intro hfits r hr
      rcases List.mem_append.1 hr with hr | hr
      · exact hdb t' r hr
      · rw [List.mem_singleton.1 hr]
        exact hfits
    cases conflict with
    | raise =>
      obtain ⟨hfits, -, -, rfl⟩ := insertRow_raise.1 h
      rw [Function.update_self]
      exact hadded hfits
    | ignore key =>
      obtain ⟨hfits, ⟨-, rfl⟩ | ⟨-, -, -, rfl⟩⟩ := insertRow_ignore.1 h
      · exact hdb t'
      · rw [Function.update_self]
        exact hadded hfits
    | update key merge =>
      obtain ⟨hfits, ⟨-, hmerged, -, rfl⟩ | ⟨-, -, -, rfl⟩⟩ := insertRow_update.1 h
      · rw [Function.update_self]
        exact hmerged
      · rw [Function.update_self]
        exact hadded hfits
  · rw [insertRow_other h hne]
    exact hdb t'

end Tables
