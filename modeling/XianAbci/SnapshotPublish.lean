import XianAbci.SnapshotRestore

/-!
# Publishing an unpacked archive (`snapshot_restore.py`)

The two application directories are exchanged for the unpacked ones by renames, with the originals in a backup
directory until the last rename is done. Any rename may be refused, also one of the rollback. What holds of each
directory between the renames is `Held`; from it, a restore that raises has either left both directories as they
were, or it keeps a backup with the originals that are not back in place, and no restore goes on over a backup that
is not empty (`restore_all_or_nothing`).
-/

namespace XianAbci

def workPrefix : String := ".snapshot-restore-"

/-- The home directory, with the number of renames asked for so far. -/
structure Disk where
  home : Tree
  renames : Nat

abbrev Outcome := Except PyErr Unit × Disk

/-- What a restore reads besides the home directory: where a link leads, the policy of the store in a directory, the
identity paths that the node's configuration names, and the members of the archive. -/
structure Outside where
  follow : List String → Option Tree
  validatePolicy : Option Tree → Except PyErr Bool
  identityPaths : Tree → Except PyErr (List ProtectedPath)
  members : Except PyErr (List TarInfo)

/-- What a path leads to that stands for this. -/
def Outside.resolve (O : Outside) : Tree → Option Tree
  | .link target => O.follow target
  | t => some t

/-! ### Renames -/

/-- Whether a rename may put the one in the place of the other. -/
def replaceable (t : Tree) : Option Tree → Bool
  | none => true
  | some u => t.isDir == u.isDir && u.entries.isEmpty

/-- `(source / name).rename(target / name)`, where the system refuses the renames of some numbers. -/
def renameEntry (refuses : Nat → Bool) (source target : List String) (name : String) (d : Disk) : Outcome :=
  let asked := { d with renames := d.renames + 1 }
  if refuses d.renames then (.error (.other "OSError"), asked)
  else match d.home.at? (source ++ [name]) with
    | none => (.error (.fileNotFoundError (asPosix (source ++ [name]))), asked)
    | some t =>
      if d.home.DirAt target ∧ replaceable t (d.home.at? (target ++ [name])) then
        (.ok (), { asked with home := (d.home.place source name none).place target name (some t) })
      else (.error (.other "OSError"), asked)

/-- `shutil.rmtree`. -/
def removeTree (parent : List String) (name : String) (d : Disk) : Disk :=
  { d with home := d.home.place parent name none }

def stagedPath (work : String) : List String := [work, "staged"]
def backupPath (work : String) : List String := [work, "backup"]

/-! ### Publication -/

/-- The body of the loop of `_rollback`. -/
def rollbackRoot (refuses : Nat → Bool) (work : String) (published : List String) (name : String) (d : Disk) :
    Outcome :=
  let d := if name ∈ published then removeTree [] name d else d
  if (d.home.at? (backupPath work ++ [name])).isSome then renameEntry refuses (backupPath work) [] name d
  else (.ok (), d)

def rollbackRoots (refuses : Nat → Bool) (work : String) (published : List String) : List String → Disk → Outcome
  | [], d => (.ok (), d)
  | name :: names, d => match rollbackRoot refuses work published name d with
    | (.ok (), d) => rollbackRoots refuses work published names d
    | (.error e, d) => (.error e, d)

/-- `_rollback`. -/
def rollback (refuses : Nat → Bool) (work : String) (published : List String) (d : Disk) : Outcome :=
  rollbackRoots refuses work published applicationRoots.reverse d

/-- The body of the loop of `_publish`. -/
def publishRoot (refuses : Nat → Bool) (work name : String) (d : Disk) : Outcome :=
  let moved :=
    if (d.home.at? [name]).isSome then renameEntry refuses [] (backupPath work) name d
    else (.ok (), d)
  match moved with
  | (.error e, d) => (.error e, d)
  | (.ok (), d) => renameEntry refuses (stagedPath work) [] name d

/-- The loop, with the names that are published when it ends. -/
def publishRoots (refuses : Nat → Bool) (work : String) : List String → List String → Disk →
    Except PyErr Unit × List String × Disk
  | [], published, d => (.ok (), published, d)
  | name :: names, published, d => match publishRoot refuses work name d with
    | (.ok (), d) => publishRoots refuses work names (published ++ [name]) d
    | (.error e, d) => (.error e, published, d)

/-- `_publish`. -/
def publish (refuses : Nat → Bool) (work : String) (d : Disk) : Outcome :=
  match publishRoots refuses work applicationRoots [] d with
  | (.ok (), _, d) => (.ok (), d)
  | (.error e, published, d) => match rollback refuses work published d with
    | (.ok (), d) => (.error e, d)
    | (.error _, d) =>
      (.error (.runtimeError ("snapshot rollback failed; recover original data from " ++ asPosix (backupPath work))), d)

/-! ### The restore -/

def checkWorkspace (O : Outside) (entry : String × Tree) : Except PyErr Unit :=
  if startsWith entry.1 workPrefix then
    match ((O.resolve entry.2).bind fun t => t.at? ["backup"]).bind O.resolve with
    | none => .ok ()
    | some (.dir []) => .ok ()
    | some (.dir (_ :: _)) => .error
      (.valueError ("incomplete snapshot restore requires recovery from " ++ asPosix (backupPath entry.1)))
    | some _ => .error (.other "NotADirectoryError")
  else .ok ()

def checkRoot (home : Tree) (name : String) : Except PyErr Unit :=
  match home.at? [name] with
  | none => .ok ()
  | some (.dir _) => .ok ()
  | some (.link _) => .error
    (.valueError ("snapshot restore does not replace symlinked local paths: " ++ name))
  | some (.file _) => .error (.valueError ("snapshot application root must be a directory: " ++ name))

def checkHome (O : Outside) (home : Tree) : Except PyErr Unit := do
  home.entries.forM (checkWorkspace O)
  applicationRoots.forM (checkRoot home)

/-- `tempfile.mkdtemp`: the first of the candidates that is no name yet. -/
def mkdtemp (candidates : List String) (home : Tree) : Except PyErr String :=
  if home.isDir then
    match candidates.find? fun c => (home.at? [workPrefix ++ c]).isNone with
    | some c => .ok (workPrefix ++ c)
    | none => .error (.other "FileExistsError: No usable temporary directory name found")
  else .error (.other "NotADirectoryError")

/-- What comes before the workspace is made. -/
def beginRestore (O : Outside) (candidates : List String) (home : Tree) :
    Except PyErr (List ProtectedPath × String) := do
  checkHome O home
  let _ ← O.validatePolicy (home.at? ["xian"])
  let protectedPaths ← O.identityPaths home
  let work ← mkdtemp candidates home
  pure (protectedPaths, work)

/-- What comes before the publication. -/
def stageArchive (O : Outside) (F : PathFold) (home : Tree) (protectedPaths : List ProtectedPath) :
    Except PyErr Tree := do
  let members ← O.members
  let staged ← extractApplicationData F members stagedRoots protectedPaths
  let hasPolicy ← O.validatePolicy (staged.at? ["xian"])
  require (hasPolicy = true) (.valueError "snapshot is missing its execution policy")
  preserveIdentity home staged protectedPaths

def emptyWorkspace : Tree := .dir [("backup", .dir []), ("staged", stagedRoots)]

/-- `any(backup.iterdir())`. -/
def backupHolds (home : Tree) (work : String) : Bool :=
  (home.at? (backupPath work)).any fun t => !t.entries.isEmpty

/-- `_restore_application_archive`. Where the staging fails, what is staged goes with the workspace. -/
def restoreApplicationArchive (O : Outside) (F : PathFold) (candidates : List String) (refuses : Nat → Bool)
    (d : Disk) : Outcome :=
  match beginRestore O candidates d.home with
  | .error e => (.error e, d)
  | .ok (protectedPaths, work) =>
    let d := { d with home := d.home.place [] work (some emptyWorkspace) }
    let outcome : Outcome := match stageArchive O F d.home protectedPaths with
      | .error e => (.error e, d)
      | .ok staged => publish refuses work { d with home := d.home.place [work] "staged" (some staged) }
    match outcome with
    | (.ok (), d) => (.ok (), removeTree [] work d)
    | (.error e, d) => (.error e, if backupHolds d.home work then d else removeTree [] work d)

variable {refuses : Nat → Bool} {source target : List String} {work name other : String} {d d' : Disk}
  {r : Except PyErr Unit} {original : Option Tree} {published names : List String}

/-! ### What a rename does -/

theorem renameEntry_cases (h : renameEntry refuses source target name d = (r, d')) :
    (∃ e, r = .error e ∧ d'.home = d.home) ∨
    ∃ t, r = .ok () ∧ d.home.at? (source ++ [name]) = some t ∧ d.home.DirAt target ∧
      d'.home = (d.home.place source name none).place target name (some t) := by
  unfold renameEntry at h
  dsimp only at h
  split at h
  · cases h
    exact .inl ⟨_, rfl, rfl⟩
  split at h
  · cases h
    exact .inl ⟨_, rfl, rfl⟩
  · rename_i t ht
    split at h
    · rename_i hcan
      cases h
      exact .inr ⟨t, rfl, ht, hcan.1, rfl⟩
    · cases h
      exact .inl ⟨_, rfl, rfl⟩

/-- Two paths of which neither leads to the other. -/
def Apart (p q : List String) : Prop := ¬ p <+: q ∧ ¬ q <+: p

theorem Apart.symm {p q : List String} (h : Apart p q) : Apart q p := ⟨h.2, h.1⟩

/-- A rename that goes through moves the one thing and nothing else. -/
theorem renameEntry_moves (hapart : Apart (source ++ [name]) (target ++ [name]))
    (h : renameEntry refuses source target name d = (r, d')) :
    (∃ e, r = .error e ∧ d'.home = d.home) ∨
    ∃ t, r = .ok () ∧ d.home.at? (source ++ [name]) = some t ∧ d'.home.isDir = d.home.isDir ∧
      d'.home.at? (source ++ [name]) = none ∧ d'.home.at? (target ++ [name]) = some t ∧
      ∀ q, Apart (source ++ [name]) q → Apart (target ++ [name]) q → d'.home.at? q = d.home.at? q := by
  rcases renameEntry_cases h with herr | ⟨t, hr, ht, htarget, hhome⟩
  · exact .inl herr
  have hsource : d.home.DirAt source := FileTree.dirAt_of_append ht (List.cons_ne_nil _ _)
  have htarget' : (d.home.place source name none).DirAt target :=
    htarget.place fun hpre => hapart.1 (hpre.trans (List.prefix_append _ _))
  refine .inr ⟨t, hr, ht, ?_, ?_, ?_, ?_⟩
  · rw [hhome, FileTree.isDir_place, FileTree.isDir_place]
  · rw [hhome, FileTree.at?_place_of_disjoint hapart.2 hapart.1, FileTree.at?_place_self hsource]
  · rw [hhome, FileTree.at?_place_self htarget']
  · intro q hq hq'
    rw [hhome, FileTree.at?_place_of_disjoint hq'.1 hq'.2, FileTree.at?_place_of_disjoint hq.1 hq.2]

/-! ### A directory between the renames -/

/-- The entry stands where it stood, with nothing of it in the backup. -/
def InPlace (original : Option Tree) (d : Disk) (work name : String) : Prop :=
  d.home.at? [name] = original ∧ d.home.at? (backupPath work ++ [name]) = none

/-- The original is in the backup. -/
def InBackup (original : Option Tree) (d : Disk) (work name : String) : Prop :=
  d.home.at? (backupPath work ++ [name]) = original

/-- What holds of a directory on the way: once it is published the original is in the backup, and before it the
original is either still in place or in the backup with its place free. -/
def Held (original : Option Tree) (d : Disk) (work name : String) (isPublished : Prop) : Prop :=
  (isPublished → InBackup original d work name) ∧
  (¬ isPublished → InPlace original d work name ∨ InBackup original d work name ∧ d.home.at? [name] = none)

/-- Both places of a name are as they were. -/
def SamePlaces (work name : String) (d d' : Disk) : Prop :=
  d'.home.at? [name] = d.home.at? [name] ∧
    d'.home.at? (backupPath work ++ [name]) = d.home.at? (backupPath work ++ [name])

theorem apart_home_backup (h : name ≠ work) : Apart [name] (backupPath work ++ [other]) := by
  simp [Apart, backupPath, List.cons_prefix_cons, h, Ne.symm h]

theorem apart_home (h : name ≠ other) : Apart [name] [other] := by
  simp [Apart, List.cons_prefix_cons, h, Ne.symm h]

theorem apart_backup (h : name ≠ other) : Apart (backupPath work ++ [name]) (backupPath work ++ [other]) := by
  simp [Apart, backupPath, List.cons_prefix_cons, h, Ne.symm h]

theorem apart_staged_home (h : other ≠ work) : Apart (stagedPath work ++ [name]) [other] := by
  simp [Apart, stagedPath, List.cons_prefix_cons, h, Ne.symm h]

theorem apart_staged_backup : Apart (stagedPath work ++ [name]) (backupPath work ++ [other]) := by
  simp [Apart, stagedPath, backupPath, List.cons_prefix_cons]

theorem SamePlaces.refl : SamePlaces work name d d := ⟨rfl, rfl⟩

theorem SamePlaces.of_home (h : d'.home = d.home) : SamePlaces work name d d' := by
  unfold SamePlaces
  rw [h]
  exact ⟨rfl, rfl⟩

theorem SamePlaces.trans {mid : Disk} (h : SamePlaces work name d mid) (h' : SamePlaces work name mid d') :
    SamePlaces work name d d' := ⟨h'.1.trans h.1, h'.2.trans h.2⟩

theorem Held.of_samePlaces {isPublished : Prop} (h : Held original d work name isPublished)
    (hsame : SamePlaces work name d d') : Held original d' work name isPublished := by
  unfold Held InPlace InBackup at *
  rw [hsame.1, hsame.2]
  exact h

/-! ### One directory published -/

/-- What a step leaves of the name it is about, and of every other. -/
structure RootStep (left : Prop) (work name : String) (d d' : Disk) : Prop where
  isDir : d'.home.isDir = d.home.isDir
  left : left
  others : ∀ other, other ≠ name → other ≠ work → SamePlaces work other d d'

/-- The unpacked directory moved to its place, which is free. -/
theorem renameStaged_step (hname : name ≠ work) (hbackup : InBackup original d work name)
    (hfree : d.home.at? [name] = none) (h : renameEntry refuses (stagedPath work) [] name d = (r, d')) :
    RootStep (Held original d' work name (r = .ok ())) work name d d' := by
  rcases renameEntry_moves (apart_staged_home hname) h with ⟨e, rfl, hhome⟩ | ⟨t, rfl, -, hdir, -, -, hother⟩
  · have hsame : ∀ other, SamePlaces work other d d' := fun _ => SamePlaces.of_home hhome
    have hheld : Held original d work name (.error e = (.ok () : Except PyErr Unit)) :=
      ⟨fun herr => (by cases herr), fun _ => .inr ⟨hbackup, hfree⟩⟩
    exact ⟨by rw [hhome], hheld.of_samePlaces (hsame name), fun other _ _ => hsame other⟩
  · have hkept := hother (backupPath work ++ [name]) apart_staged_backup (apart_home_backup hname)
    exact ⟨hdir, ⟨fun _ => hkept.trans hbackup, fun hne => absurd rfl hne⟩, fun other hne hwork =>
      ⟨hother _ (apart_staged_home hwork) (apart_home hne.symm),
        hother _ apart_staged_backup (apart_home_backup hname)⟩⟩

theorem publishRoot_step (hname : name ≠ work) (hplace : InPlace original d work name)
    (h : publishRoot refuses work name d = (r, d')) :
    RootStep (Held original d' work name (r = .ok ())) work name d d' := by
  obtain ⟨hhere, hbackup⟩ := hplace
  unfold publishRoot at h
  by_cases hexists : (d.home.at? [name]).isSome
  · rw [if_pos hexists] at h
    cases hmove : renameEntry refuses [] (backupPath work) name d with
    | mk moved mid =>
    rw [hmove] at h
    rcases renameEntry_moves (apart_home_backup hname) hmove with
      ⟨e, rfl, hhome⟩ | ⟨t, rfl, ht, hdir, hgone, hthere, hother⟩
    · -- the original did not move
      cases h
      have hheld : Held original d work name (.error e = (.ok () : Except PyErr Unit)) :=
        ⟨fun herr => (by cases herr), fun _ => .inl ⟨hhere, hbackup⟩⟩
      exact ⟨by rw [hhome], hheld.of_samePlaces (SamePlaces.of_home hhome), fun _ _ _ => SamePlaces.of_home hhome⟩
    · have hmid : InBackup original mid work name := hthere.trans (ht.symm.trans hhere)
      have hstep := renameStaged_step hname hmid hgone h
      refine ⟨hstep.isDir.trans hdir, hstep.left, fun other hne hwork => ?_⟩
      have hsame : SamePlaces work other d mid :=
        ⟨hother _ (apart_home hne.symm) (apart_home_backup hwork).symm,
          hother _ (apart_home_backup hname) (apart_backup hne.symm)⟩
      exact hsame.trans (hstep.others other hne hwork)
  · rw [if_neg hexists] at h
    have hnone : d.home.at? [name] = none := by simpa using hexists
    exact renameStaged_step hname (hbackup.trans (hnone.symm.trans hhere)) hnone h

/-! ### One directory put back -/

/-- After the rollback of a name the original is back, or the backup still has it. -/
theorem rollbackRoot_step (hname : name ≠ work) (hdir : d.home.isDir = true)
    (hheld : Held original d work name (name ∈ published))
    (h : rollbackRoot refuses work published name d = (r, d')) :
    RootStep (r = .ok () ∧ InPlace original d' work name ∨
      ∃ t e, r = .error e ∧ original = some t ∧ InBackup original d' work name) work name d d' := by
  have hroot : d.home.DirAt [] := ⟨d.home, rfl, hdir⟩
  -- what is published is removed first
  obtain ⟨mid, hmid, hmidDir, hplaces, hothers⟩ : ∃ mid,
      mid = (if name ∈ published then removeTree [] name d else d) ∧ mid.home.isDir = d.home.isDir ∧
      (InPlace original mid work name ∨ InBackup original mid work name ∧ mid.home.at? [name] = none) ∧
      ∀ other, other ≠ name → other ≠ work → SamePlaces work other d mid := by
    refine ⟨_, rfl, ?_⟩
    split
    · rename_i hpublished
      have hother : ∀ q, Apart [name] q → (removeTree [] name d).home.at? q = d.home.at? q :=
        fun q hq => FileTree.at?_place_of_disjoint hq.1 hq.2
      refine ⟨FileTree.isDir_place, .inr ⟨?_, FileTree.at?_place_self hroot⟩, fun other hne hwork => ⟨?_, ?_⟩⟩
      · exact (hother _ (apart_home_backup hname)).trans (hheld.1 hpublished)
      · exact hother _ (apart_home hne.symm)
      · exact hother _ (apart_home_backup hname)
    · rename_i hpublished
      exact ⟨rfl, hheld.2 hpublished, fun other _ _ => SamePlaces.refl⟩
  unfold rollbackRoot at h
  rw [← hmid] at h
  dsimp only at h
  split at h
  · rename_i hexists
    rcases hplaces with ⟨-, hnone⟩ | ⟨hbackup, hfree⟩
    · rw [hnone] at hexists
      cases hexists
    obtain ⟨t, ht⟩ := Option.isSome_iff_exists.1 hexists
    have horiginal : original = some t := hbackup.symm.trans ht
    rcases renameEntry_moves (apart_home_backup hname).symm h with
      ⟨e, rfl, hhome⟩ | ⟨t', rfl, ht', hdir', hgone, hthere, hother⟩
    · refine ⟨by rw [hhome, hmidDir], .inr ⟨t, e, rfl, horiginal, ?_⟩, fun other hne hwork => ?_⟩
      · rw [InBackup, hhome]
        exact hbackup
      · exact (hothers other hne hwork).trans (SamePlaces.of_home hhome)
    · refine ⟨hdir'.trans hmidDir, .inl ⟨rfl, ?_, hgone⟩, fun other hne hwork => ?_⟩
      · exact hthere.trans (ht'.symm.trans hbackup)
      · exact (hothers other hne hwork).trans
          ⟨hother _ (apart_home_backup hwork).symm (apart_home hne.symm),
            hother _ (apart_backup hne.symm) (apart_home_backup hname)⟩
  · rename_i hexists
    cases h
    have hnone : d'.home.at? (backupPath work ++ [name]) = none := by simpa using hexists
    refine ⟨hmidDir, .inl ⟨rfl, ?_⟩, hothers⟩
    rcases hplaces with hplace | ⟨hbackup, hfree⟩
    · exact hplace
    · exact ⟨hfree.trans (hnone.symm.trans hbackup), hnone⟩

/-! ### All of them -/

theorem Held.inPlace_or_inBackup {isPublished : Prop} (h : Held original d work name isPublished) :
    InPlace original d work name ∨ InBackup original d work name := by
  by_cases hpublished : isPublished
  · exact .inr (h.1 hpublished)
  · exact (h.2 hpublished).imp_right And.left

theorem publishRoots_error {originals : String → Option Tree} {published' : List String} {e : PyErr}
    (hwork : ∀ n ∈ published ++ names, n ≠ work) (hnodup : (published ++ names).Nodup)
    (hdone : ∀ n ∈ published, InBackup (originals n) d work n) (htodo : ∀ n ∈ names, InPlace (originals n) d work n)
    (h : publishRoots refuses work names published d = (.error e, published', d')) :
    d'.home.isDir = d.home.isDir ∧ ∀ n ∈ published ++ names, Held (originals n) d' work n (n ∈ published') := by
  induction names generalizing published d with
  | nil => cases h
  | cons name names ih =>
    unfold publishRoots at h
    cases hroot : publishRoot refuses work name d with
    | mk r mid =>
    rw [hroot] at h
    have hmem : name ∈ published ++ name :: names := by simp
    have hstep := publishRoot_step (hwork name hmem) (htodo name (List.mem_cons_self ..)) hroot
    have hdoneMid : ∀ n ∈ published, n ≠ name → InBackup (originals n) mid work n := fun n hn hne =>
      (hstep.others n hne (hwork n (List.mem_append_left _ hn))).2.trans (hdone n hn)
    have htodoMid : ∀ n ∈ names, n ≠ name → InPlace (originals n) mid work n := by
      intro n hn hne
      have hsame := hstep.others n hne (hwork n (List.mem_append_right _ (List.mem_cons_of_mem _ hn)))
      obtain ⟨hplace, hbackup⟩ := htodo n (List.mem_cons_of_mem _ hn)
      exact ⟨hsame.1.trans hplace, hsame.2.trans hbackup⟩
    obtain ⟨hpublished, htail, hdisjoint⟩ := List.nodup_append.1 hnodup
    obtain ⟨hname, htail⟩ := List.nodup_cons.1 htail
    have hneDone : ∀ n ∈ published, n ≠ name := fun n hn => hdisjoint n hn name (List.mem_cons_self ..)
    have hneTodo : ∀ n ∈ names, n ≠ name := fun n hn heq => hname (heq ▸ hn)
    cases r with
    | ok u =>
      have happend : published ++ name :: names = published ++ [name] ++ names := by simp
      rw [happend] at hwork hnodup ⊢
      obtain ⟨hdir, hheld⟩ := ih hwork hnodup
        (fun n hn => by
          rcases List.mem_append.1 hn with hn | hn
          · exact hdoneMid n hn (hneDone n hn)
          · rw [List.mem_singleton.1 hn]
            exact hstep.left.1 rfl)
        (fun n hn => htodoMid n hn (hneTodo n hn)) h
      exact ⟨hdir.trans hstep.isDir, hheld⟩
    | error e =>
      cases h
      refine ⟨hstep.isDir, fun n hn => ?_⟩
      rcases List.mem_append.1 hn with hn | hn
      · exact ⟨fun _ => hdoneMid n hn (hneDone n hn), fun hne => absurd hn hne⟩
      rcases List.mem_cons.1 hn with rfl | hn
      · exact ⟨fun hn => absurd rfl (hneDone n hn), fun _ => hstep.left.2 (by simp)⟩
      · exact ⟨fun hn' => absurd rfl (hdisjoint n hn' n (List.mem_cons_of_mem _ hn)), fun _ =>
          .inl (htodoMid n hn (hneTodo n hn))⟩

/-- What a rollback leaves: every directory is back, or it stopped over one that is still in the backup. -/
def RolledBack (originals : String → Option Tree) (work : String) (names : List String) (r : Except PyErr Unit)
    (d : Disk) : Prop :=
  r = .ok () ∧ (∀ n ∈ names, InPlace (originals n) d work n) ∨
    (∃ n ∈ names, ∃ t, originals n = some t ∧ InBackup (originals n) d work n) ∧
      ∀ n ∈ names, InPlace (originals n) d work n ∨ InBackup (originals n) d work n

theorem rollbackRoots_run {originals : String → Option Tree} (hwork : ∀ n ∈ names, n ≠ work) (hnodup : names.Nodup)
    (hdir : d.home.isDir = true) (hheld : ∀ n ∈ names, Held (originals n) d work n (n ∈ published))
    (h : rollbackRoots refuses work published names d = (r, d')) :
    RolledBack originals work names r d' ∧ ∀ other ∉ names, other ≠ work → SamePlaces work other d d' := by
  induction names generalizing d with
  | nil =>
    cases h
    exact ⟨.inl ⟨rfl, by simp⟩, fun _ _ _ => SamePlaces.refl⟩
  | cons name names ih =>
    unfold rollbackRoots at h
    cases hroot : rollbackRoot refuses work published name d with
    | mk r' mid =>
    rw [hroot] at h
    obtain ⟨hname, htail⟩ := List.nodup_cons.1 hnodup
    have hstep := rollbackRoot_step (hwork name (List.mem_cons_self ..)) hdir (hheld name (List.mem_cons_self ..)) hroot
    have hsame : ∀ n ∈ names, SamePlaces work n d mid := fun n hn =>
      hstep.others n (fun heq => hname (heq ▸ hn)) (hwork n (List.mem_cons_of_mem _ hn))
    have hheldMid : ∀ n ∈ names, Held (originals n) mid work n (n ∈ published) := fun n hn =>
      (hheld n (List.mem_cons_of_mem _ hn)).of_samePlaces (hsame n hn)
    rcases hstep.left with ⟨rfl, hplace⟩ | ⟨t, e, rfl, horiginal, hbackup⟩
    · obtain ⟨hback, hothers⟩ := ih (fun n hn => hwork n (List.mem_cons_of_mem _ hn)) htail
        (hstep.isDir.trans hdir) hheldMid h
      have hkept := hothers name hname (hwork name (List.mem_cons_self ..))
      have hplace' : InPlace (originals name) d' work name := ⟨hkept.1.trans hplace.1, hkept.2.trans hplace.2⟩
      refine ⟨?_, fun other hother hne => ?_⟩
      · rcases hback with ⟨rfl, hall⟩ | ⟨⟨n, hn, hsome⟩, hall⟩
        · exact .inl ⟨rfl, List.forall_mem_cons.2 ⟨hplace', hall⟩⟩
        · exact .inr ⟨⟨n, List.mem_cons_of_mem _ hn, hsome⟩, List.forall_mem_cons.2 ⟨.inl hplace', hall⟩⟩
      · obtain ⟨hne', hother⟩ := not_or.1 (List.mem_cons.not.1 hother)
        exact (hstep.others other hne' hne).trans (hothers other hother hne)
    · cases h
      refine ⟨.inr ⟨⟨name, List.mem_cons_self .., t, horiginal, hbackup⟩, ?_⟩, fun other hother hne => ?_⟩
      · exact List.forall_mem_cons.2 ⟨.inr hbackup, fun n hn => (hheldMid n hn).inPlace_or_inBackup⟩
      · exact hstep.others other (not_or.1 (List.mem_cons.not.1 hother)).1 hne

theorem publish_error {originals : String → Option Tree} {e : PyErr} (hwork : ∀ n ∈ applicationRoots, n ≠ work)
    (hdir : d.home.isDir = true) (hplace : ∀ n ∈ applicationRoots, InPlace (originals n) d work n)
    (h : publish refuses work d = (.error e, d')) : ∃ r, RolledBack originals work applicationRoots r d' := by
  unfold publish at h
  cases hroots : publishRoots refuses work applicationRoots [] d with
  | mk r rest =>
  obtain ⟨published, mid⟩ := rest
  rw [hroots] at h
  cases r with
  | ok u => cases h
  | error e' =>
    obtain ⟨hmidDir, hheld⟩ := publishRoots_error hwork (by decide) (by simp) hplace hroots
    dsimp only at h
    cases hback : rollback refuses work published mid with
    | mk r last =>
    have hreverse : rollbackRoots refuses work published applicationRoots.reverse mid = (r, last) := hback
    have hrun := (rollbackRoots_run (fun n hn => hwork n (List.mem_reverse.1 hn)) (by decide) (hmidDir.trans hdir)
      (fun n hn => hheld n (List.mem_reverse.1 hn)) hreverse).1
    have hlast : RolledBack originals work applicationRoots r last := by
      unfold RolledBack at hrun ⊢
      simpa only [List.mem_reverse] using hrun
    rw [hback] at h
    refine ⟨r, ?_⟩
    cases r with
    | ok u => cases h; exact hlast
    | error e'' => cases h; exact hlast

/-! ### The restore as a whole -/

/-- A workspace with something in its backup directory. -/
def BackupHeld (home : Tree) (work : String) : Prop :=
  startsWith work workPrefix = true ∧ ∃ e es, home.at? (backupPath work) = some (.dir (e :: es))

theorem mem_entries_of_at? {home t : Tree} {p : List String} (h : home.at? (name :: p) = some t) :
    ∃ u, (name, u) ∈ home.entries ∧ u.at? p = some t := by
  rw [FileTree.at?_cons] at h
  obtain ⟨u, hu, hat⟩ := Option.bind_eq_some_iff.1 h
  obtain ⟨l, l', hl, -⟩ := List.lookup_eq_some_iff.1 hu
  exact ⟨u, by rw [hl]; simp, hat⟩

theorem checkHome_refuses {O : Outside} {home : Tree} (h : BackupHeld home work) : ∃ e, checkHome O home = .error e := by
  obtain ⟨hnamed, e, es, hbackup⟩ := h
  obtain ⟨u, hmem, hu⟩ := mem_entries_of_at? hbackup
  have hdir : O.resolve u = some u := by
    cases u with
    | dir => rfl
    | file => cases hu
    | link => cases hu
  have hcheck : checkWorkspace O (work, u) ≠ .ok () := by
    unfold checkWorkspace
    rw [if_pos hnamed]
    show (match ((O.resolve u).bind fun t => t.at? ["backup"]).bind O.resolve with
      | none => (.ok () : Except PyErr Unit) | some (.dir []) => .ok () | some (.dir (_ :: _)) => _ | some _ => _) ≠ _
    rw [hdir, Option.bind_some, hu]
    simp [Outside.resolve]
  cases hall : checkHome O home with
  | error e => exact ⟨e, rfl⟩
  | ok u =>
    obtain ⟨_, hworkspaces, -⟩ := bind_eq_ok.1 hall
    exact absurd (forM_eq_ok.1 hworkspaces _ hmem) hcheck

/-- Over a backup that holds something no restore goes on, and nothing changes. -/
theorem restore_refused {O : Outside} {F : PathFold} {candidates : List String} (h : BackupHeld d.home work) :
    ∃ e, restoreApplicationArchive O F candidates refuses d = (.error e, d) := by
  obtain ⟨e, he⟩ := checkHome_refuses (O := O) h
  refine ⟨e, ?_⟩
  unfold restoreApplicationArchive beginRestore
  rw [he]
  rfl

theorem mkdtemp_eq_ok {candidates : List String} {home : Tree} (h : mkdtemp candidates home = .ok work) :
    home.isDir = true ∧ startsWith work workPrefix = true := by
  unfold mkdtemp at h
  split at h
  · rename_i hdir
    split at h
    · cases h
      refine ⟨hdir, ?_⟩
      rw [startsWith, List.isPrefixOf_iff_prefix, String.toList_append]
      exact List.prefix_append ..
    · cases h
  · cases h

theorem root_ne_work (hwork : startsWith work workPrefix = true) : ∀ n ∈ applicationRoots, n ≠ work := by
  rintro n hn rfl
  have hnot : ∀ n ∈ applicationRoots, startsWith n workPrefix = false := by decide
  rw [hnot n hn] at hwork
  cases hwork

/-- What stands in the workspace does not change what stands at another name. -/
theorem at?_place_work {home : Tree} {v : Option Tree} (hname : name ≠ work) :
    (home.place [] work v).at? [name] = home.at? [name] :=
  FileTree.at?_place_of_disjoint (apart_home hname.symm).1 (apart_home hname.symm).2

theorem inPlace_workspace (hname : name ≠ work) (hdir : d.home.isDir = true) :
    InPlace (d.home.at? [name]) { d with home := d.home.place [] work (some emptyWorkspace) } work name := by
  have hwork : (d.home.place [] work (some emptyWorkspace)).at? ([] ++ [work]) = some emptyWorkspace :=
    FileTree.at?_place_self ⟨d.home, rfl, hdir⟩
  refine ⟨at?_place_work hname, ?_⟩
  show (d.home.place [] work (some emptyWorkspace)).at? ([work] ++ ["backup", name]) = none
  rw [FileTree.at?_append, ← List.nil_append [work], hwork]
  rfl

theorem inPlace_staged {staged : Tree} (hname : name ≠ work) (h : InPlace original d work name) :
    InPlace original { d with home := d.home.place [work] "staged" (some staged) } work name := by
  refine ⟨(FileTree.at?_place_of_disjoint ?_ ?_).trans h.1, (FileTree.at?_place_of_disjoint ?_ ?_).trans h.2⟩ <;>
    simp [backupPath, List.cons_prefix_cons, hname, hname.symm]

theorem backupHeld_of_at? {home t : Tree} (hwork : startsWith work workPrefix = true)
    (h : home.at? (backupPath work ++ [name]) = some t) : BackupHeld home work := by
  obtain ⟨u, hu, hdir⟩ := FileTree.dirAt_of_append h (List.cons_ne_nil _ _)
  obtain ⟨entries, rfl⟩ := FileTree.isDir_iff.1 hdir
  rw [FileTree.at?_append, hu] at h
  cases entries with
  | nil => cases h
  | cons e es => exact ⟨hwork, e, es, hu⟩

/-- A restore that raises has left both directories as they were, or keeps a backup with every original that is not
back in place, over which no later restore goes on. -/
theorem restore_all_or_nothing (O : Outside) (F : PathFold) (candidates : List String) (refuses : Nat → Bool)
    (d d' : Disk) (e : PyErr) (h : restoreApplicationArchive O F candidates refuses d = (.error e, d')) :
    (∀ name ∈ applicationRoots, d'.home.at? [name] = d.home.at? [name]) ∨
    ∃ work, BackupHeld d'.home work ∧
      (∀ name ∈ applicationRoots, ∀ t, d.home.at? [name] = some t →
        d'.home.at? [name] = some t ∨ d'.home.at? (backupPath work ++ [name]) = some t) ∧
      ∀ (O : Outside) (F : PathFold) (candidates : List String) (refuses : Nat → Bool) (later : Disk),
        BackupHeld later.home work →
          ∃ e, restoreApplicationArchive O F candidates refuses later = (.error e, later) := by
  unfold restoreApplicationArchive at h
  split at h
  · cases h
    exact .inl fun _ _ => rfl
  rename_i protectedPaths work hbegin
  obtain ⟨_, -, hbegin⟩ := bind_eq_ok.1 hbegin
  obtain ⟨_, -, hbegin⟩ := bind_eq_ok.1 hbegin
  obtain ⟨_, -, hbegin⟩ := bind_eq_ok.1 hbegin
  obtain ⟨_, hmkdtemp, hbegin⟩ := bind_eq_ok.1 hbegin
  cases hbegin
  obtain ⟨hdir, hnamed⟩ := mkdtemp_eq_ok hmkdtemp
  have hwork := root_ne_work hnamed
  have hplace : ∀ name ∈ applicationRoots, InPlace (d.home.at? [name])
      { d with home := d.home.place [] work (some emptyWorkspace) } work name :=
    fun name hname => inPlace_workspace (hwork name hname) hdir
  dsimp only at h
  -- what is left of the workspace does not matter where both directories are in place
  have hcleanup : ∀ last : Disk, (∀ name ∈ applicationRoots, InPlace (d.home.at? [name]) last work name) →
      d' = (if backupHolds last.home work then last else removeTree [] work last) →
      ∀ name ∈ applicationRoots, d'.home.at? [name] = d.home.at? [name] := by
    rintro last hall rfl name hname
    split
    · exact (hall name hname).1
    · exact (at?_place_work (hwork name hname)).trans (hall name hname).1
  split at h
  · cases h
  rename_i e' last houtcome
  cases h
  split at houtcome
  · cases houtcome
    exact .inl (hcleanup _ hplace rfl)
  rename_i staged hstaged
  obtain ⟨r, hback⟩ : ∃ r, RolledBack (fun name => d.home.at? [name]) work applicationRoots r last :=
    publish_error hwork
    (by rw [FileTree.isDir_place, FileTree.isDir_place, hdir])
    (fun name hname => inPlace_staged (hwork name hname) (hplace name hname)) houtcome
  rcases hback with ⟨-, hall⟩ | ⟨⟨name, -, t, horiginal, hbackup⟩, hall⟩
  · exact .inl (hcleanup _ hall rfl)
  · have hheld := backupHeld_of_at? hnamed (hbackup.trans horiginal)
    have hholds : backupHolds last.home work = true := by
      obtain ⟨-, entry, es, hentries⟩ := hheld
      rw [backupHolds, hentries]
      rfl
    rw [if_pos hholds]
    refine .inr ⟨work, hheld, fun name hname t ht => ?_, fun O F candidates refuses later hlater => restore_refused hlater⟩
    rcases hall name hname with hplace | hbackup
    · exact .inl (hplace.1.trans ht)
    · exact .inr (hbackup.trans ht)

/-- From the fourth rename on the system refuses: the unpacked `xian` is not moved in, nor the original back. -/
theorem restore_all_or_nothing_refused :
    ∃ e d', restoreApplicationArchive
        ⟨fun _ => none, fun _ => .ok true, fun _ => .ok [], .ok [⟨"xian/lmdb", .file [1]⟩]⟩ .ascii ["tmp"] (3 ≤ ·)
        ⟨.dir [("data", .dir [("old", .file [7])]), ("xian", .dir [])], 0⟩ = (.error e, d') ∧
      (d'.home.at? ["data"] = some (.dir [("old", .file [7])]) ∨
        ∃ work, BackupHeld d'.home work ∧
          (d'.home.at? ["data"] = some (.dir [("old", .file [7])]) ∨
            d'.home.at? (backupPath work ++ ["data"]) = some (.dir [("old", .file [7])]))) := by
  have hrun : ∃ e d', restoreApplicationArchive
      ⟨fun _ => none, fun _ => .ok true, fun _ => .ok [], .ok [⟨"xian/lmdb", .file [1]⟩]⟩ .ascii ["tmp"] (3 ≤ ·)
      ⟨.dir [("data", .dir [("old", .file [7])]), ("xian", .dir [])], 0⟩ = (.error e, d') := ⟨_, _, rfl⟩
  obtain ⟨e, d', hrun⟩ := hrun
  refine ⟨e, d', hrun, ?_⟩
  rcases restore_all_or_nothing _ _ _ _ _ _ _ hrun with hsame | ⟨work, hheld, hkept, -⟩
  · exact .inl (hsame "data" (by decide))
  · exact .inr ⟨work, hheld, hkept "data" (by decide) _ rfl⟩

end XianAbci
