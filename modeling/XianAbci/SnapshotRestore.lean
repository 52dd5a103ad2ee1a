import XianAbci.ExecutionPolicy
import XianAbci.StateRoot
import XianAbci.Lib.FileTree

/-!
# What an archive restore takes from an archive (`snapshot_restore.py`)

The members of an application archive are chosen and unpacked into a staging directory, and the node's own
identity files are then copied over from the home directory. Paths are compared by their keys, the NFC form
case-folded, so that a name that only looks different cannot stand for an identity file
(`applicationMembers_spec`), and what is unpacked leaves room for each of them (`identity_preserved`).

A path is the list of its parts. Local paths have no links on the way, which `_check_plain_path` sees to.
-/

namespace XianAbci

def applicationRoots : List String := ["data", "xian"]

/-- `unicodedata.normalize("NFC", s).casefold()`: no letter of the one side of a slash is composed with the other. -/
structure PathFold where
  fold : String → String
  fold_slash : ∀ a b, fold (a ++ "/" ++ b) = fold a ++ "/" ++ fold b

/-- What a member of an archive is. -/
inductive MemberKind
  | dir
  | file (data : Bytes)
  | other

structure TarInfo where
  name : String
  kind : MemberKind

namespace TarInfo

def isDir (m : TarInfo) : Bool := match m.kind with
  | .dir => true
  | _ => false

def isFile (m : TarInfo) : Bool := match m.kind with
  | .file _ => true
  | _ => false

end TarInfo

/-- An identity path as `_protected_relative_path` gives it: below one of the application roots. -/
structure ProtectedPath where
  root : String
  rest : List String
  root_mem : root ∈ applicationRoots
  rest_ne : rest ≠ []

def ProtectedPath.parts (l : ProtectedPath) : List String := l.root :: l.rest

/-- `as_posix`. -/
def asPosix (parts : List String) : String := "/".intercalate parts

def pathKey (F : PathFold) (parts : List String) : String := F.fold (asPosix parts)

/-- The parts of `PurePosixPath(name)`. -/
def posixParts (name : String) : List String :=
  ((name.toList.splitOn '/').map String.ofList).filter fun part => part ≠ "" ∧ part ≠ "."

def memberPath (m : TarInfo) : Except PyErr (List String) := do
  let path := posixParts m.name
  require (¬ (startsWith m.name "/" ∨ ".." ∈ path ∨ '\\' ∈ m.name.toList))
    (.valueError ("snapshot archive contains invalid path: " ++ m.name))
  require (m.isFile ∨ m.isDir) (.valueError ("snapshot archive contains unsupported member: " ++ m.name))
  pure path

/-- The comparison with one protected name. -/
def checkLocalIdentity (key : String) (path : List String) (m : TarInfo) (localKey : String) : Except PyErr Unit := do
  require (¬ startsWith key (localKey ++ "/"))
    (.valueError ("snapshot path is inside a local identity file: " ++ asPosix path))
  require (¬ (startsWith localKey (key ++ "/") ∧ ¬ m.isDir))
    (.valueError ("snapshot file conflicts with local identity directory: " ++ asPosix path))

def isProtectedMember (F : PathFold) (path : List String) (m : TarInfo) (protectedKeys : List String) :
    Except PyErr Bool := do
  let key := pathKey F path
  if key ∈ protectedKeys then
    require (¬ m.isDir) (.valueError ("snapshot directory conflicts with local identity: " ++ asPosix path))
    pure true
  else
    protectedKeys.forM (checkLocalIdentity key path m)
    pure false

/-- The members met so far, with whether this one is new. -/
def newMember (F : PathFold) (path : List String) (m : TarInfo) (seen : PyDict String TarInfo) :
    Except PyErr (Bool × PyDict String TarInfo) :=
  let key := pathKey F path
  match seen.get? key with
  | some earlier =>
    if m.isDir ∧ earlier.isDir then .ok (false, seen)
    else .error (.valueError ("snapshot archive contains duplicate path: " ++ asPosix path))
  | none => .ok (true, seen.set key m)

abbrev Selection := PyDict String TarInfo × List (TarInfo × List String)

/-- The loop body of `_application_members`. -/
def selectMember (F : PathFold) (protectedKeys : List String) (acc : Selection) (m : TarInfo) :
    Except PyErr Selection := do
  let path ← memberPath m
  match path with
  | [] => pure acc
  | root :: rest =>
    if root ∉ applicationRoots then pure acc
    else do
      require (¬ (rest = [] ∧ ¬ m.isDir))
        (.valueError ("snapshot application root must be a directory: " ++ asPosix path))
      if ← isProtectedMember F path m protectedKeys then pure acc
      else do
        let (new, seen) ← newMember F path m acc.1
        pure (seen, if new then acc.2 ++ [(m, path)] else acc.2)

def applicationMembers (F : PathFold) (members : List TarInfo) (protectedPaths : List ProtectedPath) :
    Except PyErr (List (TarInfo × List String)) := do
  let protectedKeys := protectedPaths.map fun l => pathKey F l.parts
  let (_, selected) ← members.foldlM (selectMember F protectedKeys) (.empty, [])
  require (selected.any fun e => e.1.isFile) (.valueError "snapshot archive contains no application data")
  pure selected

abbrev Tree := FileTree String Bytes

/-- `destination.parent.mkdir(parents=True, exist_ok=True)` and the like. -/
def mkdirParents (t : Tree) (path : List String) : Except PyErr Tree :=
  match t.mkdirs path with
  | some t => .ok t
  | none => .error (.other ("FileExistsError: " ++ asPosix path))

/-- One member unpacked; a file is created anew. -/
def extractMember (staged : Tree) (e : TarInfo × List String) : Except PyErr Tree := do
  match e.1.kind with
  | .dir => mkdirParents staged e.2
  | .file data =>
    let staged ← mkdirParents staged e.2.dropLast
    require (staged.at? e.2).isNone (.other ("FileExistsError: " ++ asPosix e.2))
    pure (staged.place e.2.dropLast (e.2.getLastD "") (some (.file data)))
  | .other => throw (.typeError "'NoneType' object does not support the context manager protocol")

/-- `_extract_application_data`, over the members the archive lists. -/
def extractApplicationData (F : PathFold) (members : List TarInfo) (staged : Tree)
    (protectedPaths : List ProtectedPath) : Except PyErr Tree := do
  let selected ← applicationMembers F members protectedPaths
  selected.foldlM extractMember staged

/-- `shutil.copy2` of a file: into the destination where that is a directory. -/
def copyFile (data : Bytes) (t : Tree) (parent : List String) (name : String) : Except PyErr Tree :=
  if t.DirAt (parent ++ [name]) then
    if t.DirAt (parent ++ [name, name]) then .error (.other "IsADirectoryError")
    else .ok (t.place (parent ++ [name]) name (some (.file data)))
  else .ok (t.place parent name (some (.file data)))

/-- The loop body of `_preserve_identity`. -/
def preserveOne (home : Tree) (staged : Tree) (l : ProtectedPath) : Except PyErr Tree :=
  match home.at? l.parts with
  | none => .ok staged
  | some (.file data) => do
    let staged ← mkdirParents staged l.parts.dropLast
    copyFile data staged l.parts.dropLast (l.parts.getLastD "")
  | some _ => .error (.other "IsADirectoryError")

/-- The paths are a set; they come in any order. -/
def preserveIdentity (home staged : Tree) (protectedPaths : List ProtectedPath) : Except PyErr Tree :=
  protectedPaths.foldlM (preserveOne home) staged

variable {F : PathFold} {m : TarInfo} {members : List TarInfo} {protectedPaths : List ProtectedPath}
  {protectedKeys : List String} {selected : List (TarInfo × List String)} {path p q : List String}
  {home staged staged' : Tree}

/-! ### Keys -/

theorem pathKey_append (hp : p ≠ []) (hq : q ≠ []) : pathKey F (p ++ q) = pathKey F p ++ "/" ++ pathKey F q := by
  rw [pathKey, asPosix, String.intercalate_append_of_ne_nil hp hq]
  exact F.fold_slash _ _

/-- A path below another has a key that goes on from the other's. -/
theorem startsWith_pathKey (hp : p ≠ []) (hq : q ≠ []) :
    startsWith (pathKey F (p ++ q)) (pathKey F p ++ "/") = true := by
  rw [pathKey_append hp hq, startsWith, List.isPrefixOf_iff_prefix, String.toList_append (s := _ ++ "/")]
  exact List.prefix_append ..

theorem ProtectedPath.parts_ne (l : ProtectedPath) : l.parts ≠ [] := List.cons_ne_nil l.root l.rest

/-! ### The chosen members -/

/-- What a chosen member keeps clear of: its path does not lead to a protected file or into it, and where it is no
directory no protected path leads through it. -/
structure ClearOf (key : String) (m : TarInfo) (localKey : String) : Prop where
  ne : key ≠ localKey
  inside : startsWith key (localKey ++ "/") = false
  above : m.isDir = false → startsWith localKey (key ++ "/") = false

/-- A member as `_application_members` lets it through. -/
structure SelectedMember (F : PathFold) (protectedKeys : List String) (e : TarInfo × List String) : Prop where
  under_root : ∃ root ∈ applicationRoots, ∃ rest, e.2 = root :: rest
  clear : ∀ localKey ∈ protectedKeys, ClearOf (pathKey F e.2) e.1 localKey

theorem forM_eq_ok {α : Type} {f : α → Except PyErr Unit} {l : List α} {u : Unit} :
    l.forM f = .ok u ↔ ∀ a ∈ l, f a = .ok () := by
  induction l with
  | nil => exact ⟨fun _ => by simp, fun _ => rfl⟩
  | cons a l ih =>
    rw [List.forM_eq_forM, List.forM_cons, bind_eq_ok, List.forall_mem_cons, ← ih]
    exact ⟨fun ⟨_, ha, hl⟩ => ⟨ha, hl⟩, fun ⟨ha, hl⟩ => ⟨(), ha, hl⟩⟩

theorem checkLocalIdentity_eq_ok {key localKey : String} {u : Unit} :
    checkLocalIdentity key path m localKey = .ok u ↔
      startsWith key (localKey ++ "/") = false ∧ (m.isDir = false → startsWith localKey (key ++ "/") = false) := by
  unfold checkLocalIdentity
  rw [bind_eq_ok]
  simp only [require_eq_ok, exists_const, Bool.not_eq_true, not_and, Bool.not_eq_false]
  refine and_congr_right fun _ => ⟨fun h hdir => ?_, fun h hstart => ?_⟩
  · by_contra hstart
    rw [h (by simpa using hstart)] at hdir
    cases hdir
  · by_contra hdir
    rw [h (by simpa using hdir)] at hstart
    cases hstart

theorem isProtectedMember_eq_false (h : isProtectedMember F path m protectedKeys = .ok false) :
    ∀ localKey ∈ protectedKeys, ClearOf (pathKey F path) m localKey := by
  unfold isProtectedMember at h
  dsimp only at h
  split at h
  · obtain ⟨_, -, h⟩ := bind_eq_ok.1 h
    cases h
  · rename_i hmem
    obtain ⟨_, hall, -⟩ := bind_eq_ok.1 h
    intro localKey hlocal
    obtain ⟨hinside, habove⟩ := checkLocalIdentity_eq_ok.1 (forM_eq_ok.1 hall localKey hlocal)
    exact ⟨fun heq => hmem (heq ▸ hlocal), hinside, habove⟩

/-- The loop body leaves things as they are or takes the member under a key no other has. -/
theorem selectMember_cases {acc acc' : Selection} (h : selectMember F protectedKeys acc m = .ok acc') :
    acc' = acc ∨ ∃ path, SelectedMember F protectedKeys (m, path) ∧ acc.1.get? (pathKey F path) = none ∧
      acc' = (acc.1.set (pathKey F path) m, acc.2 ++ [(m, path)]) := by
  obtain ⟨path, -, h⟩ := bind_eq_ok.1 h
  split at h
  · exact .inl (Except.ok.inj h).symm
  rename_i root rest
  split at h
  · exact .inl (Except.ok.inj h).symm
  rename_i hroot
  obtain ⟨_, -, h⟩ := bind_eq_ok.1 h
  obtain ⟨isProtected, hprotected, h⟩ := bind_eq_ok.1 h
  split at h
  · exact .inl (Except.ok.inj h).symm
  rename_i hfalse
  obtain ⟨⟨new, seen⟩, hnew, h⟩ := bind_eq_ok.1 h
  have hacc := (Except.ok.inj h).symm
  unfold newMember at hnew
  dsimp only at hnew
  split at hnew
  · -- the directory once more
    split at hnew
    · cases hnew
      exact .inl hacc
    · cases hnew
  · rename_i hunseen
    cases hnew
    have hclear := isProtectedMember_eq_false (by rw [hprotected, Bool.eq_false_iff.2 hfalse])
    exact .inr ⟨root :: rest, ⟨⟨root, not_not.1 hroot, rest, rfl⟩, hclear⟩, hunseen, hacc⟩

/-- What holds of the members chosen so far. -/
structure SelectionOk (F : PathFold) (protectedKeys : List String) (acc : Selection) : Prop where
  chosen : ∀ e ∈ acc.2, SelectedMember F protectedKeys e
  seen : ∀ e ∈ acc.2, pathKey F e.2 ∈ acc.1.keys
  nodup : (acc.2.map fun e => pathKey F e.2).Nodup

theorem SelectionOk.step {acc acc' : Selection} (h : SelectionOk F protectedKeys acc)
    (hstep : selectMember F protectedKeys acc m = .ok acc') : SelectionOk F protectedKeys acc' := by
  rcases selectMember_cases hstep with rfl | ⟨path, hchosen, hunseen, rfl⟩
  · exact h
  have hkeys : ∀ key ∈ acc.1.keys, key ∈ (acc.1.set (pathKey F path) m).keys := by
    intro key hkey
    obtain ⟨w, hw⟩ := PyDict.mem_keys_iff.1 hkey
    rw [PyDict.mem_keys_iff, PyDict.get?_set]
    split
    · exact ⟨m, rfl⟩
    · exact ⟨w, hw⟩
  refine ⟨?_, ?_, ?_⟩
  · intro e he
    rcases List.mem_append.1 he with he | he
    · exact h.chosen e he
    · rw [List.mem_singleton.1 he]
      exact hchosen
  · intro e he
    rcases List.mem_append.1 he with he | he
    · exact hkeys _ (h.seen e he)
    · rw [List.mem_singleton.1 he, PyDict.mem_keys_iff]
      exact ⟨m, by rw [PyDict.get?_set, if_pos rfl]⟩
  · show ((acc.2 ++ [(m, path)]).map fun e => pathKey F e.2).Nodup
    rw [List.map_append, List.map_singleton]
    refine List.nodup_append.2 ⟨h.nodup, List.nodup_singleton _, ?_⟩
    rintro key hkey key' hkey' rfl
    rw [List.mem_singleton] at hkey'
    obtain ⟨e, he, rfl⟩ := List.mem_map.1 hkey
    obtain ⟨w, hw⟩ := PyDict.mem_keys_iff.1 (h.seen e he)
    rw [hkey', hunseen] at hw
    cases hw

theorem SelectionOk.run {acc acc' : Selection} (h : SelectionOk F protectedKeys acc)
    (hrun : members.foldlM (selectMember F protectedKeys) acc = .ok acc') : SelectionOk F protectedKeys acc' := by
  induction members generalizing acc with
  | nil => cases hrun; exact h
  | cons m members ih =>
    rw [List.foldlM_cons] at hrun
    obtain ⟨mid, hmid, hrun⟩ := bind_eq_ok.1 hrun
    exact ih (h.step hmid) hrun

theorem applicationMembers_ok (h : applicationMembers F members protectedPaths = .ok selected) :
    ∃ seen, SelectionOk F (protectedPaths.map fun l => pathKey F l.parts) (seen, selected) := by
  obtain ⟨⟨seen, selected'⟩, hrun, h⟩ := bind_eq_ok.1 h
  obtain ⟨_, -, h⟩ := bind_eq_ok.1 h
  cases h
  have hempty : SelectionOk F (protectedPaths.map fun l => pathKey F l.parts) (.empty, []) :=
    ⟨fun e he => (by cases he), fun e he => (by cases he), List.nodup_nil⟩
  exact ⟨seen, hempty.run hrun⟩

/-! ### Unpacking -/

theorem dropLast_append_getLastD (hp : p ≠ []) : p.dropLast ++ [p.getLastD ""] = p := by
  rw [List.getLastD_eq_getLast?, List.getLast?_eq_some_getLast hp]
  exact List.dropLast_concat_getLast hp

theorem mkdirParents_eq_ok {t u : Tree} (h : mkdirParents t p = .ok u) : t.mkdirs p = some u := by
  unfold mkdirParents at h
  split at h
  · rename_i w hw
    cases h
    exact hw
  · cases h

/-- Unpacking a member makes no directory but those on the way to it. -/
theorem dirAt_extractMember {e : TarInfo × List String} (h : extractMember staged e = .ok staged')
    (hdir : staged'.DirAt q) : staged.DirAt q ∨ q <+: e.2 := by
  unfold extractMember at h
  split at h
  · exact FileTree.dirAt_mkdirs (mkdirParents_eq_ok h) hdir
  · obtain ⟨mid, hmid, h⟩ := bind_eq_ok.1 h
    obtain ⟨_, -, h⟩ := bind_eq_ok.1 h
    cases h
    have hparents := mkdirParents_eq_ok hmid
    have hmid := FileTree.dirAt_of_place_file (FileTree.dirAt_of_mkdirs hparents) hdir
    refine (FileTree.dirAt_mkdirs hparents hmid).imp_right fun hpre => hpre.trans ?_
    exact List.dropLast_prefix _
  · cases h

/-- The staging directory as it is made, with the application roots in it. -/
def stagedRoots : Tree := .dir (applicationRoots.map fun name => (name, .dir []))

theorem not_dirAt_stagedRoots (l : ProtectedPath) : ¬ stagedRoots.DirAt l.parts := by
  rintro ⟨u, hu, -⟩
  obtain ⟨n, rest, hrest⟩ := List.exists_cons_of_ne_nil l.rest_ne
  have hroot := l.root_mem
  rw [applicationRoots, List.mem_cons, List.mem_singleton] at hroot
  rw [ProtectedPath.parts, hrest] at hu
  rcases hroot with hroot | hroot <;> rw [hroot] at hu <;> cases hu

theorem not_dirAt_extracted {entries : List (TarInfo × List String)}
    (hclear : ∀ e ∈ entries, ¬ q <+: e.2) (hq : ¬ staged.DirAt q)
    (h : entries.foldlM extractMember staged = .ok staged') : ¬ staged'.DirAt q := by
  induction entries generalizing staged with
  | nil => cases h; exact hq
  | cons e entries ih =>
    rw [List.foldlM_cons] at h
    obtain ⟨mid, hmid, h⟩ := bind_eq_ok.1 h
    refine ih (fun e' he' => hclear e' (List.mem_cons_of_mem _ he')) (fun hdir => ?_) h
    rcases dirAt_extractMember hmid hdir with hold | hnew
    · exact hq hold
    · exact hclear e (List.mem_cons_self ..) hnew

/-- What is clear of a name does not go through it. -/
theorem SelectedMember.leads_elsewhere {e : TarInfo × List String} {l : List String}
    (h : SelectedMember F protectedKeys e) (hl : l ≠ [])
    (hkey : pathKey F p ∈ protectedKeys) (heq : pathKey F l = pathKey F p) : ¬ l <+: e.2 := by
  rintro ⟨rest, hrest⟩
  have hclear := h.clear _ hkey
  by_cases hnil : rest = []
  · subst hnil
    rw [List.append_nil] at hrest
    exact hclear.ne (by rw [← hrest, heq])
  · have hstart := startsWith_pathKey (F := F) hl hnil
    rw [hrest, heq, hclear.inside] at hstart
    cases hstart

/-! ### Copying the identity over -/

/-- Where the file has a name that is no directory in the staging tree, the copy stands under that name. -/
theorem preserveOne_cases {l : ProtectedPath}
    (hl : ∀ data, home.at? l.parts = some (.file data) → ¬ staged.DirAt l.parts)
    (h : preserveOne home staged l = .ok staged') :
    staged' = staged ∧ home.at? l.parts = none ∨
    ∃ data mid, home.at? l.parts = some (.file data) ∧ staged.mkdirs l.parts.dropLast = some mid ∧
      ¬ mid.DirAt l.parts ∧ staged' = mid.place l.parts.dropLast (l.parts.getLastD "") (some (.file data)) := by
  unfold preserveOne at h
  split at h
  · rename_i hnone
    exact .inl ⟨(Except.ok.inj h).symm, hnone⟩
  · rename_i data hdata
    obtain ⟨mid, hmid, h⟩ := bind_eq_ok.1 h
    have hparents := mkdirParents_eq_ok hmid
    have hfree : ¬ mid.DirAt l.parts := by
      intro hdir
      rcases FileTree.dirAt_mkdirs hparents hdir with hold | hpre
      · exact hl data hdata hold
      · have hlen := hpre.length_le
        have hpos := List.length_pos_of_ne_nil l.parts_ne
        rw [List.length_dropLast] at hlen
        omega
    refine .inr ⟨data, mid, hdata, hparents, hfree, ?_⟩
    unfold copyFile at h
    rw [dropLast_append_getLastD l.parts_ne, if_neg hfree] at h
    exact (Except.ok.inj h).symm
  · cases h

/-- What the copying relies on for a path and what it leaves of it, while nothing at home changes. -/
structure Kept (home staged : Tree) (q : List String) (data : Bytes) (copied : Prop) : Prop where
  home_file : home.at? q = some (.file data)
  free : ¬ staged.DirAt q
  content : copied → staged.at? q = some (.file data)

/-- One more file copied: the paths already copied stay, and this one is added to them. -/
theorem Kept.step {l : ProtectedPath} {data : Bytes} {copied : Prop} (hq : Kept home staged q data copied)
    (hl : ∀ data, home.at? l.parts = some (.file data) → ¬ staged.DirAt l.parts)
    (h : preserveOne home staged l = .ok staged') : Kept home staged' q data (copied ∨ q = l.parts) := by
  rcases preserveOne_cases hl h with ⟨rfl, hnone⟩ | ⟨data', mid, hdata, hmid, hfree, rfl⟩
  · refine ⟨hq.home_file, hq.free, fun hcopied => hq.content (hcopied.resolve_right ?_)⟩
    rintro rfl
    have hfile := hq.home_file
    rw [hnone] at hfile
    cases hfile
  have hparent := FileTree.dirAt_of_mkdirs hmid
  have hpath := dropLast_append_getLastD l.parts_ne
  refine ⟨hq.home_file, fun hdir => ?_, fun hcopied => ?_⟩
  · rcases FileTree.dirAt_mkdirs hmid (FileTree.dirAt_of_place_file hparent hdir) with hold | hpre
    · exact hq.free hold
    · -- a file at home has no protected file below it
      obtain ⟨rest, hrest⟩ := hpre
      rw [← hpath, ← hrest, List.append_assoc, FileTree.at?_append, hq.home_file] at hdata
      have hnil := FileTree.eq_nil_of_at?_file hdata
      simp at hnil
  · by_cases heq : q = l.parts
    · subst heq
      rw [hq.home_file] at hdata
      cases hdata
      have hself : (mid.place l.parts.dropLast (l.parts.getLastD "") (some (.file data))).at?
          (l.parts.dropLast ++ [l.parts.getLastD ""]) = some (.file data) := FileTree.at?_place_self hparent
      rw [hpath] at hself
      exact hself
    · have hcontent := FileTree.at?_mkdirs hmid (hq.content (hcopied.resolve_right heq))
      rw [← hpath] at heq hfree
      exact FileTree.at?_place_file hcontent heq hparent hfree

/-- After the copying every path of the set that is a file at home has its content. -/
theorem preserveIdentity_spec {paths : List ProtectedPath}
    (hfree : ∀ l ∈ paths, ∀ data, home.at? l.parts = some (.file data) → ¬ staged.DirAt l.parts)
    (h : paths.foldlM (preserveOne home) staged = .ok staged') {data : Bytes} {copied : Prop}
    (hq : Kept home staged q data copied) : Kept home staged' q data (copied ∨ ∃ l ∈ paths, q = l.parts) := by
  induction paths generalizing staged copied with
  | nil =>
    cases h
    exact ⟨hq.home_file, hq.free, fun hcopied => hq.content (hcopied.resolve_right (by simp))⟩
  | cons l paths ih =>
    rw [List.foldlM_cons] at h
    obtain ⟨mid, hmid, h⟩ := bind_eq_ok.1 h
    have hl := hfree l (List.mem_cons_self ..)
    have hmidFree : ∀ l' ∈ paths, ∀ data, home.at? l'.parts = some (.file data) → ¬ mid.DirAt l'.parts := by
      intro l' hl' data' hdata'
      have hkept : Kept home staged l'.parts data' False :=
        ⟨hdata', hfree l' (List.mem_cons_of_mem _ hl') data' hdata', False.elim⟩
      exact (hkept.step hl hmid).free
    have hdone := ih hmidFree h (hq.step hl hmid)
    refine ⟨hdone.home_file, hdone.free, fun hcopied => hdone.content ?_⟩
    rcases hcopied with hcopied | ⟨l', hl', heq⟩
    · exact .inl (.inl hcopied)
    · rcases List.mem_cons.1 hl' with rfl | hl'
      · exact .inl (.inr heq)
      · exact .inr ⟨l', hl', heq⟩

/-! ### What a restore imports -/

/-- The chosen members lie below the application roots, clear of every protected path and of one another up to the
folding of keys; and a protected file of the home directory is in the staging tree as it was. -/
theorem restore_imports_no_identity (F : PathFold) (members : List TarInfo) (protectedPaths : List ProtectedPath)
    (selected : List (TarInfo × List String))
    (h : applicationMembers F members protectedPaths = .ok selected) :
    (∀ e ∈ selected, (∃ root ∈ applicationRoots, ∃ rest, e.2 = root :: rest) ∧
      ∀ l ∈ protectedPaths,
        (∀ p q, e.2 = p ++ q → p ≠ [] → pathKey F p ≠ pathKey F l.parts) ∧
        (e.1.isDir = false → ∀ p q, l.parts = p ++ q → p ≠ [] → pathKey F p ≠ pathKey F e.2)) ∧
    (selected.map fun e => pathKey F e.2).Nodup ∧
    ∀ home staged staged',
      extractApplicationData F members stagedRoots protectedPaths = .ok staged →
      preserveIdentity home staged protectedPaths = .ok staged' →
      ∀ l ∈ protectedPaths, ∀ data, home.at? l.parts = some (.file data) →
        staged'.at? l.parts = some (.file data) := by
  obtain ⟨seen, hok⟩ := applicationMembers_ok h
  have hmem : ∀ l ∈ protectedPaths, pathKey F l.parts ∈ protectedPaths.map fun l => pathKey F l.parts :=
    fun l hl => List.mem_map.2 ⟨l, hl, rfl⟩
  refine ⟨fun e he => ⟨(hok.chosen e he).under_root, fun l hl => ⟨?_, ?_⟩⟩, hok.nodup, ?_⟩
  · intro p q hpq hp heq
    exact (hok.chosen e he).leads_elsewhere hp (hmem l hl) heq ⟨q, hpq.symm⟩
  · intro hdir p q hpq hp heq
    have hclear := (hok.chosen e he).clear _ (hmem l hl)
    by_cases hq : q = []
    · subst hq
      rw [List.append_nil] at hpq
      exact hclear.ne (by rw [hpq, heq])
    · have hstart := startsWith_pathKey (F := F) hp hq
      rw [← hpq, heq, hclear.above hdir] at hstart
      cases hstart
  · intro home staged staged' hextract hpreserve l hl data hdata
    obtain ⟨selected', hselected, hextract⟩ := bind_eq_ok.1 hextract
    rw [h] at hselected
    cases hselected
    have hfree : ∀ l ∈ protectedPaths, ¬ staged.DirAt l.parts := by
      intro l hl
      refine not_dirAt_extracted (fun e he => ?_) (not_dirAt_stagedRoots l) hextract
      exact (hok.chosen e he).leads_elsewhere l.parts_ne (hmem l hl) rfl
    have hkept : Kept home staged l.parts data False := ⟨hdata, hfree l hl, False.elim⟩
    exact (preserveIdentity_spec (fun l hl _ _ => hfree l hl) hpreserve hkept).content (.inr ⟨l, hl, rfl⟩)

/-- The folding of plain ASCII names. -/
def PathFold.ascii : PathFold where
  fold s := String.ofList (s.toList.map Char.toLower)
  fold_slash a b := by
    simp only [String.toList_append, List.map_append, String.ofList_append]
    rfl

/-- An archive that carries a signing state under another spelling: the node's own state is what is published. -/
theorem restore_imports_no_identity_signing_state :
    ∃ staged staged',
      extractApplicationData .ascii
        [⟨"data", .dir⟩, ⟨"./xian/lmdb", .file [1]⟩, ⟨"data/Priv_Validator_State.json", .file [2]⟩] stagedRoots
        [⟨"data", ["priv_validator_state.json"], by decide, by decide⟩] = .ok staged ∧
      preserveIdentity (.dir [("data", .dir [("priv_validator_state.json", .file [7])])]) staged
        [⟨"data", ["priv_validator_state.json"], by decide, by decide⟩] = .ok staged' ∧
      staged'.at? ["data", "priv_validator_state.json"] = some (.file [7]) := by
  refine ⟨_, _, rfl, rfl, ?_⟩
  exact (restore_imports_no_identity .ascii
    [⟨"data", .dir⟩, ⟨"./xian/lmdb", .file [1]⟩, ⟨"data/Priv_Validator_State.json", .file [2]⟩]
    [⟨"data", ["priv_validator_state.json"], by decide, by decide⟩]
    [(⟨"data", .dir⟩, ["data"]), (⟨"./xian/lmdb", .file [1]⟩, ["xian", "lmdb"])] rfl).2.2
    (.dir [("data", .dir [("priv_validator_state.json", .file [7])])]) _ _ rfl rfl
    ⟨"data", ["priv_validator_state.json"], by decide, by decide⟩ (List.mem_singleton_self _) [7] rfl

end XianAbci
