import XianAbci.Lib.PyDict

/-!
# Directory trees

`FileTree N C` is what stands at a name of a file system: a file with its contents, a symbolic link or a
directory, whose entries are found by name. A path is a list of names below a tree, and no operation follows a
link. `place` puts something in a directory or takes it out; what a rename, a removal or a new file does to the
rest of the tree is read off `at?_place_self` and `at?_place_of_disjoint`.
-/

/-- What stands at a name. -/
inductive FileTree (N C : Type)
  | file (content : C)
  | link (target : List N)
  | dir (entries : List (N × FileTree N C))

namespace FileTree

variable {N C : Type}

def isDir : FileTree N C → Bool
  | dir _ => true
  | _ => false

theorem isDir_iff {t : FileTree N C} : t.isDir = true ↔ ∃ entries, t = .dir entries := by
  cases t <;> simp [isDir]

/-- The entries of a directory. -/
def entries : FileTree N C → List (N × FileTree N C)
  | dir entries => entries
  | _ => []

variable [DecidableEq N]

def child? (t : FileTree N C) (n : N) : Option (FileTree N C) := t.entries.lookup n

/-- What stands at a path. -/
def at? (t : FileTree N C) : List N → Option (FileTree N C)
  | [] => some t
  | n :: p => match t.child? n with
    | some u => u.at? p
    | none => none

/-- The entries with what is given at a name, or with nothing there. -/
def putEntry (n : N) (v : Option (FileTree N C)) (entries : List (N × FileTree N C)) : List (N × FileTree N C) :=
  match v with
  | some t => PyDict.setItems n t entries
  | none => entries.filter fun e => e.1 ≠ n

/-- The tree with what is given at the name `n` of the directory at `p`, or with nothing there. -/
def place : List N → N → Option (FileTree N C) → FileTree N C → FileTree N C
  | [], n, v, dir entries => dir (putEntry n v entries)
  | m :: p, n, v, dir entries => match entries.lookup m with
    | some t => dir (putEntry m (some (t.place p n v)) entries)
    | none => dir entries
  | _, _, _, t => t

/-- There is a directory at the path. -/
def DirAt (t : FileTree N C) (p : List N) : Prop := ∃ u, t.at? p = some u ∧ u.isDir = true

instance {t : FileTree N C} {p : List N} : Decidable (t.DirAt p) :=
  decidable_of_iff ((t.at? p).any (·.isDir) = true) (by simp [DirAt, Option.any_eq_true])

/-- `path.mkdir(parents=True, exist_ok=True)` below the tree, where nothing but directories is in the way. -/
def mkdirs : List N → FileTree N C → Option (FileTree N C)
  | [], t => if t.isDir then some t else none
  | n :: p, dir entries => match entries.lookup n with
    | some t => (t.mkdirs p).map fun t => dir (putEntry n (some t) entries)
    | none => (mkdirs p (dir [])).map fun t => dir (putEntry n (some t) entries)
  | _ :: _, _ => none

variable {t u : FileTree N C} {v : Option (FileTree N C)} {n m : N} {p q : List N} {c : C}
  {es : List (N × FileTree N C)}

/-! ### Reading -/

@[simp] theorem child?_dir : (dir es : FileTree N C).child? n = es.lookup n := rfl

@[simp] theorem at?_nil : t.at? [] = some t := rfl

theorem at?_cons : t.at? (n :: p) = (t.child? n).bind fun u => u.at? p := by
  rw [at?]
  cases t.child? n <;> rfl

theorem at?_append : t.at? (p ++ q) = (t.at? p).bind fun u => u.at? q := by
  induction p generalizing t with
  | nil => rfl
  | cons n p ih =>
    rw [List.cons_append, at?_cons, at?_cons]
    cases t.child? n with
    | none => rfl
    | some u => exact ih

/-- A file has nothing below it. -/
theorem eq_nil_of_at?_file (h : (file c : FileTree N C).at? p = some u) : p = [] := by
  cases p with
  | nil => rfl
  | cons n p => cases h

theorem dirAt_of_append {q : List N} (h : t.at? (p ++ q) = some u) (hq : q ≠ []) : t.DirAt p := by
  rw [at?_append] at h
  obtain ⟨w, hw, h⟩ := Option.bind_eq_some_iff.1 h
  refine ⟨w, hw, ?_⟩
  obtain ⟨n, q, rfl⟩ := List.exists_cons_of_ne_nil hq
  cases w with
  | dir => rfl
  | file => cases h
  | link => cases h

/-! ### Writing -/

theorem lookup_setItems (n m : N) (t : FileTree N C) (es : List (N × FileTree N C)) :
    (PyDict.setItems n t es).lookup m = if m = n then some t else es.lookup m := by
  induction es with
  | nil => rw [PyDict.setItems, PyDict.lookup_cons_ite]
  | cons e es ih =>
    obtain ⟨k, w⟩ := e
    unfold PyDict.setItems
    by_cases hk : k = n
    · subst hk
      rw [if_pos rfl, PyDict.lookup_cons_ite, PyDict.lookup_cons_ite]
      split <;> rfl
    · rw [if_neg hk, PyDict.lookup_cons_ite, PyDict.lookup_cons_ite, ih]
      split
      · rename_i hm
        rw [if_neg (fun h => hk (hm.symm.trans h))]
      · rfl

theorem lookup_putEntry : (putEntry n v es).lookup m = if m = n then v else es.lookup m := by
  cases v with
  | some t => exact lookup_setItems n m t es
  | none =>
    show (es.filter fun e => e.1 ≠ n).lookup m = _
    induction es with
    | nil => simp
    | cons e es ih =>
      obtain ⟨k, w⟩ := e
      by_cases hk : k = n
      · subst hk
        rw [List.filter_cons_of_neg (by simp), ih, PyDict.lookup_cons_ite]
        split <;> simp_all
      · rw [List.filter_cons_of_pos (by simpa using hk), PyDict.lookup_cons_ite, ih, PyDict.lookup_cons_ite]
        split
        · rename_i hm
          rw [if_neg (fun h => hk (hm.symm.trans h))]
        · rfl

theorem isDir_place : (t.place p n v).isDir = t.isDir := by
  cases t <;> cases p <;> try rfl
  unfold place
  split <;> rfl

/-- What is placed is found there. -/
theorem at?_place_self (h : t.DirAt p) : (t.place p n v).at? (p ++ [n]) = v := by
  induction p generalizing t with
  | nil =>
    obtain ⟨u, hu, hdir⟩ := h
    cases hu
    obtain ⟨es, rfl⟩ := isDir_iff.1 hdir
    rw [List.nil_append, place, at?_cons, child?_dir, lookup_putEntry, if_pos rfl]
    cases v <;> rfl
  | cons m p ih =>
    obtain ⟨u, hu, hdir⟩ := h
    rw [at?_cons] at hu
    obtain ⟨w, hw, hwu⟩ := Option.bind_eq_some_iff.1 hu
    cases t with
    | file => cases hw
    | link => cases hw
    | dir es =>
      rw [child?_dir] at hw
      simp only [place, hw]
      rw [List.cons_append, at?_cons, child?_dir, lookup_putEntry, if_pos rfl]
      exact ih ⟨u, hwu, hdir⟩

/-- A path that neither leads to the place nor comes from it is left as it was. -/
theorem at?_place_of_disjoint (hq : ¬ p ++ [n] <+: q) (hp : ¬ q <+: p ++ [n]) : (t.place p n v).at? q = t.at? q := by
  induction p generalizing t q with
  | nil =>
    cases q with
    | nil => exact absurd (List.nil_prefix) hp
    | cons m q =>
      cases t with
      | file => rfl
      | link => rfl
      | dir es =>
        have hne : m ≠ n := by
          rintro rfl
          exact hq ⟨q, rfl⟩
        rw [place, at?_cons, at?_cons, child?_dir, child?_dir, lookup_putEntry, if_neg hne]
  | cons k p ih =>
    cases q with
    | nil => exact absurd (List.nil_prefix) hp
    | cons m q =>
      cases t with
      | file => rfl
      | link => rfl
      | dir es =>
        unfold place
        cases hk : es.lookup k with
        | none => rfl
        | some w =>
          simp only
          rw [at?_cons, at?_cons, child?_dir, child?_dir, lookup_putEntry]
          by_cases hm : m = k
          · subst hm
            rw [if_pos rfl, hk]
            exact ih (fun h => hq (by simpa using h)) fun h => hp (by simpa using h)
          · rw [if_neg hm]

/-- The directory a path goes on from stays one. -/
theorem DirAt.place (h : t.DirAt q) (hq : ¬ p ++ [n] <+: q) : (t.place p n v).DirAt q := by
  by_cases hp : q <+: p
  · obtain ⟨r, rfl⟩ := hp
    induction q generalizing t with
    | nil =>
      obtain ⟨u, hu, hdir⟩ := h
      cases hu
      exact ⟨_, rfl, isDir_place.trans hdir⟩
    | cons k q ih =>
      obtain ⟨u, hu, hdir⟩ := h
      rw [at?_cons] at hu
      obtain ⟨w, hw, hwu⟩ := Option.bind_eq_some_iff.1 hu
      cases t with
      | file => cases hw
      | link => cases hw
      | dir es =>
        rw [child?_dir] at hw
        obtain ⟨w', hw', hdir'⟩ := ih ⟨u, hwu, hdir⟩ fun h => hq (by simpa using h)
        refine ⟨w', ?_, hdir'⟩
        simp only [List.cons_append, FileTree.place, hw]
        rw [at?_cons, child?_dir, lookup_putEntry, if_pos rfl]
        exact hw'
  · have hpre : ¬ q <+: p ++ [n] := by
      intro hpre
      rcases List.prefix_concat_iff.1 hpre with rfl | hpre
      · exact hq (List.prefix_refl _)
      · exact hp hpre
    obtain ⟨u, hu, hdir⟩ := h
    exact ⟨u, (at?_place_of_disjoint hq hpre).trans hu, hdir⟩

/-- Where a file is put, no other file is touched and no directory comes about. -/
theorem at?_place_file (hfile : t.at? q = some (.file c)) (hne : q ≠ p ++ [n]) (hdir : t.DirAt p)
    (hfree : ¬ t.DirAt (p ++ [n])) : (t.place p n v).at? q = some (.file c) := by
  rw [at?_place_of_disjoint ?_ ?_, hfile]
  · rintro ⟨r, rfl⟩
    refine hfree (dirAt_of_append hfile ?_)
    rintro rfl
    exact hne (List.append_nil _)
  · intro hpre
    rcases List.prefix_concat_iff.1 hpre with rfl | ⟨r, rfl⟩
    · exact hne rfl
    · obtain ⟨u, hu, hudir⟩ := hdir
      rw [at?_append, hfile] at hu
      have hr : r = [] := eq_nil_of_at?_file hu
      subst hr
      cases hu
      cases hudir

theorem dirAt_of_place_file (hdir : t.DirAt p) (h : (t.place p n (some (.file c))).DirAt q) : t.DirAt q := by
  by_cases hq : q <+: p
  · obtain ⟨r, rfl⟩ := hq
    obtain ⟨u, hu, hudir⟩ := hdir
    by_cases hr : r = []
    · subst hr
      rw [List.append_nil] at hu
      exact ⟨u, hu, hudir⟩
    · exact dirAt_of_append hu hr
  obtain ⟨u, hu, hudir⟩ := h
  by_cases hpre : p ++ [n] <+: q
  · obtain ⟨r, rfl⟩ := hpre
    rw [at?_append, at?_place_self hdir, Option.bind_some] at hu
    have hr : r = [] := eq_nil_of_at?_file hu
    subst hr
    cases hu
    cases hudir
  · rw [at?_place_of_disjoint hpre fun h => ?_] at hu
    · exact ⟨u, hu, hudir⟩
    · rcases List.prefix_concat_iff.1 h with rfl | h
      · exact hpre (List.prefix_refl _)
      · exact hq h

/-! ### Making directories -/

/-- The first name of the path gets a directory, which is the one there was or a new one. -/
theorem mkdirs_cons (h : (dir es : FileTree N C).mkdirs (m :: p) = some u) :
    ∃ w, ((es.lookup m).getD (dir [])).mkdirs p = some w ∧ u = dir (putEntry m (some w) es) := by
  unfold mkdirs at h
  split at h
  · rename_i w hw
    obtain ⟨w', hw', rfl⟩ := Option.map_eq_some_iff.1 h
    exact ⟨w', by rw [hw]; exact hw', rfl⟩
  · rename_i hw
    obtain ⟨w', hw', rfl⟩ := Option.map_eq_some_iff.1 h
    exact ⟨w', by rw [hw]; exact hw', rfl⟩

theorem mkdirs_nil (h : t.mkdirs [] = some u) : u = t ∧ t.isDir = true := by
  unfold mkdirs at h
  split at h
  · rename_i hdir
    cases h
    exact ⟨rfl, hdir⟩
  · cases h

theorem isDir_of_mkdirs (h : t.mkdirs p = some u) : t.isDir = true := by
  cases p with
  | nil => exact (mkdirs_nil h).2
  | cons m p => cases t <;> first | rfl | cases h

theorem dirAt_of_mkdirs (h : t.mkdirs p = some u) : u.DirAt p := by
  induction p generalizing t u with
  | nil =>
    obtain ⟨rfl, hdir⟩ := mkdirs_nil h
    exact ⟨u, rfl, hdir⟩
  | cons m p ih =>
    obtain ⟨es, rfl⟩ := isDir_iff.1 (isDir_of_mkdirs h)
    obtain ⟨w, hw, rfl⟩ := mkdirs_cons h
    obtain ⟨x, hx, hdir⟩ := ih hw
    refine ⟨x, ?_, hdir⟩
    rw [at?_cons, child?_dir, lookup_putEntry, if_pos rfl]
    exact hx

/-- Files are left as they are. -/
theorem at?_mkdirs (h : t.mkdirs p = some u) (hfile : t.at? q = some (.file c)) : u.at? q = some (.file c) := by
  induction p generalizing t u q with
  | nil =>
    obtain ⟨rfl, -⟩ := mkdirs_nil h
    exact hfile
  | cons m p ih =>
    obtain ⟨es, rfl⟩ := isDir_iff.1 (isDir_of_mkdirs h)
    obtain ⟨w, hw, rfl⟩ := mkdirs_cons h
    cases q with
    | nil => cases hfile
    | cons k q =>
      rw [at?_cons, child?_dir] at hfile
      rw [at?_cons, child?_dir, lookup_putEntry]
      split
      · rename_i hk
        subst hk
        obtain ⟨x, hx, hfile⟩ := Option.bind_eq_some_iff.1 hfile
        rw [hx] at hw
        exact ih hw hfile
      · exact hfile

/-- The only new directories are on the way to the path. -/
theorem dirAt_mkdirs (h : t.mkdirs p = some u) (hq : u.DirAt q) : t.DirAt q ∨ q <+: p := by
  induction p generalizing t u q with
  | nil =>
    obtain ⟨rfl, -⟩ := mkdirs_nil h
    exact .inl hq
  | cons m p ih =>
    obtain ⟨es, rfl⟩ := isDir_iff.1 (isDir_of_mkdirs h)
    obtain ⟨w, hw, rfl⟩ := mkdirs_cons h
    cases q with
    | nil => exact .inr List.nil_prefix
    | cons k q =>
      obtain ⟨x, hx, hdir⟩ := hq
      rw [at?_cons, child?_dir, lookup_putEntry] at hx
      split at hx
      · rename_i hk
        subst hk
        rcases ih hw ⟨x, hx, hdir⟩ with hold | hpre
        · obtain ⟨y, hy, hydir⟩ := hold
          cases hk : es.lookup k with
          | some z =>
            rw [hk] at hy
            refine .inl ⟨y, ?_, hydir⟩
            rw [at?_cons, child?_dir, hk]
            exact hy
          | none =>
            -- nothing stands in a directory that is new
            rw [hk] at hy
            cases q with
            | nil => exact .inr ((List.prefix_cons_inj k).2 List.nil_prefix)
            | cons => cases hy
        · exact .inr ((List.prefix_cons_inj k).2 hpre)
      · refine .inl ⟨x, ?_, hdir⟩
        rw [at?_cons, child?_dir]
        exact hx

end FileTree
