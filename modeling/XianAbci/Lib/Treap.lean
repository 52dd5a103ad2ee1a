import Mathlib

/-!
# Hashed treaps and their canonical shape

A treap whose nodes carry a leaf digest and cache the digest of their subtree. The operations are
the textbook ones: insertion rotates the new node up while its priority is the smaller one, deletion
merges the two subtrees of the deleted node, and every node on the path is rehashed.

`Canonical` collects what such a tree keeps: search order on the keys, strict heap order on the
priorities, the priority of every node being that of its key, and every cached digest being the one
of the subtree. A canonical tree is determined by its leaves (`Canonical.ext`), so every way of
building a tree over the same leaves gives the same root digest. Insertion and deletion keep
`Canonical` as long as distinct keys have distinct priorities.
-/

/-- A treap over keys `κ`, priorities `π` and digests `δ`. -/
inductive Treap (κ π δ : Type)
  | nil
  | node (key : κ) (priority : π) (leafHash : δ) (left right : Treap κ π δ) (rootHash : δ)

namespace Treap

/-- How a treap hashes: the digest of the empty tree, the digest of a node from those of its left
subtree, its leaf and its right subtree, and the priority of a key. -/
structure Hashing (κ π δ : Type) where
  empty : δ
  hashNode : δ → δ → δ → δ
  priority : κ → π

variable {κ π δ : Type} (H : Hashing κ π δ)

def subtreeHash : Treap κ π δ → δ
  | nil => H.empty
  | node _ _ _ _ _ rootHash => rootHash

def refresh : Treap κ π δ → Treap κ π δ
  | nil => nil
  | node k p d l r _ => node k p d l r (H.hashNode (subtreeHash H l) d (subtreeHash H r))

def newNode [Inhabited δ] (key : κ) (leafHash : δ) : Treap κ π δ :=
  refresh H (node key (H.priority key) leafHash nil nil default)

def rotateRight : Treap κ π δ → Treap κ π δ
  | node k p d (node lk lp ld ll lr lh) r h =>
    refresh H (node lk lp ld ll (refresh H (node k p d lr r h)) lh)
  | t => t

def rotateLeft : Treap κ π δ → Treap κ π δ
  | node k p d l (node rk rp rd rl rr rh) h =>
    refresh H (node rk rp rd (refresh H (node k p d l rl h)) rr rh)
  | t => t

section Edit

variable [LinearOrder π]

/-- The child is there and its priority is below `p`. -/
def PriorityLt : Treap κ π δ → π → Prop
  | nil, _ => False
  | node _ q _ _ _ _, p => q < p

instance (p : π) : DecidablePred fun t : Treap κ π δ => PriorityLt t p := fun t =>
  match t with
  | nil => inferInstanceAs (Decidable False)
  | node _ q _ _ _ _ => inferInstanceAs (Decidable (q < p))

def insertOrUpdate [LinearOrder κ] [Inhabited δ] (key : κ) (leafHash : δ) : Treap κ π δ → Treap κ π δ
  | nil => newNode H key leafHash
  | node k p d l r h =>
    if key = k then refresh H (node k p leafHash l r h)
    else if key < k then
      let l' := insertOrUpdate key leafHash l
      if PriorityLt l' p then rotateRight H (node k p d l' r h) else refresh H (node k p d l' r h)
    else
      let r' := insertOrUpdate key leafHash r
      if PriorityLt r' p then rotateLeft H (node k p d l r' h) else refresh H (node k p d l r' h)

/-- The part of `merge` that walks down the left spine of the right tree, for a left tree
`node k p d l r h`; `mergeR` is `merge r`. -/
def mergeInto (mergeR : Treap κ π δ → Treap κ π δ) (k : κ) (p : π) (d : δ) (l r : Treap κ π δ) (h : δ) :
    Treap κ π δ → Treap κ π δ
  | nil => node k p d l r h
  | node rk rp rd rl rr rh =>
    if p < rp then refresh H (node k p d l (mergeR (node rk rp rd rl rr rh)) h)
    else refresh H (node rk rp rd (mergeInto mergeR k p d l r h rl) rr rh)

/-- Joins two trees, all keys of the first being below those of the second. The recursion is
structural in both trees; `merge_node_node` is the equation of the two-tree case. -/
def merge : Treap κ π δ → Treap κ π δ → Treap κ π δ
  | nil => fun right => right
  | node k p d l r h => mergeInto H (merge r) k p d l r h

theorem merge_nil_left (right : Treap κ π δ) : merge H nil right = right := rfl

theorem merge_nil_right (left : Treap κ π δ) : merge H left nil = left := by
  cases left <;> rfl

theorem merge_node_node (k rk : κ) (p rp : π) (d rd h rh : δ) (l r rl rr : Treap κ π δ) :
    merge H (node k p d l r h) (node rk rp rd rl rr rh) =
      if p < rp then refresh H (node k p d l (merge H r (node rk rp rd rl rr rh)) h)
      else refresh H (node rk rp rd (merge H (node k p d l r h) rl) rr rh) := rfl

def delete [LinearOrder κ] (key : κ) : Treap κ π δ → Treap κ π δ
  | nil => nil
  | node k p d l r h =>
    if key = k then merge H l r
    else if key < k then refresh H (node k p d (delete key l) r h)
    else refresh H (node k p d l (delete key r) h)

end Edit

/-! ### Leaves and the canonical shape -/

/-- `t` has a leaf `d` under key `a`. -/
def Leaf (a : κ) (d : δ) : Treap κ π δ → Prop
  | nil => False
  | node k _ e l r _ => (a = k ∧ d = e) ∨ Leaf a d l ∨ Leaf a d r

section Leaf

variable {H} {a k : κ} {d e h : δ} {p : π} {l r t : Treap κ π δ}

@[simp] theorem leaf_nil : ¬ Leaf a d (nil : Treap κ π δ) := id

@[simp] theorem leaf_node : Leaf a d (node k p e l r h) ↔ (a = k ∧ d = e) ∨ Leaf a d l ∨ Leaf a d r := Iff.rfl

@[simp] theorem leaf_refresh : Leaf a d (refresh H t) ↔ Leaf a d t := by
  cases t <;> simp [refresh]

@[simp] theorem leaf_newNode [Inhabited δ] : Leaf a d (newNode H k e) ↔ a = k ∧ d = e := by
  simp [newNode]

@[simp] theorem leaf_rotateRight : Leaf a d (rotateRight H t) ↔ Leaf a d t := by
  match t with
  | nil => rfl
  | node k p e nil r h => rfl
  | node k p e (node lk lp le ll lr lh) r h =>
    simp only [rotateRight, leaf_refresh, leaf_node]
    tauto

@[simp] theorem leaf_rotateLeft : Leaf a d (rotateLeft H t) ↔ Leaf a d t := by
  match t with
  | nil => rfl
  | node k p e l nil h => rfl
  | node k p e l (node rk rp re rl rr rh) h =>
    simp only [rotateLeft, leaf_refresh, leaf_node]
    tauto

@[simp] theorem leaf_merge [LinearOrder π] (s t : Treap κ π δ) :
    Leaf a d (merge H s t) ↔ Leaf a d s ∨ Leaf a d t := by
  induction s generalizing t with
  | nil => simp [merge_nil_left]
  | node k p e l r h _ ihr =>
    induction t with
    | nil => simp only [merge_nil_right, leaf_nil, or_false]
    | node rk rp re rl rr rh ihl _ =>
      rw [merge_node_node]
      split
      · simp only [leaf_refresh, leaf_node, ihr, or_assoc]
      · simp only [leaf_refresh, leaf_node, ihl, or_assoc, or_left_comm]

end Leaf

variable [LinearOrder κ] [LinearOrder π]

/-- What the digests of the nodes are taken of. -/
def Inputs : Treap κ π δ → Set (δ × δ × δ)
  | nil => ∅
  | node _ _ d l r _ => {(subtreeHash H l, d, subtreeHash H r)} ∪ Inputs l ∪ Inputs r

/-- Search order, strict heap order, the keys' own priorities and up-to-date digests. -/
inductive Canonical : Treap κ π δ → Prop
  | nil : Canonical nil
  | node {k : κ} {p : π} {d h : δ} {l r : Treap κ π δ} (hl : Canonical l) (hr : Canonical r)
    (below : ∀ a e, Leaf a e l → a < k ∧ H.priority k < H.priority a)
    (above : ∀ a e, Leaf a e r → k < a ∧ H.priority k < H.priority a)
    (prio : p = H.priority k)
    (hash : h = H.hashNode (subtreeHash H l) d (subtreeHash H r)) : Canonical (node k p d l r h)

namespace Canonical

variable {H} {a k : κ} {d e : δ} {p : π} {l r s t : Treap κ π δ} {h : δ}

/-- Rehashing a node over canonical subtrees makes it canonical. -/
theorem mkNode (hl : Canonical H l) (hr : Canonical H r)
    (below : ∀ a e, Leaf a e l → a < k ∧ H.priority k < H.priority a)
    (above : ∀ a e, Leaf a e r → k < a ∧ H.priority k < H.priority a) (prio : p = H.priority k) :
    Canonical H (refresh H (.node k p d l r h)) :=
  .node hl hr below above prio rfl

theorem newNode [Inhabited δ] : Canonical H (newNode H k d) :=
  mkNode .nil .nil (fun _ _ h => absurd h leaf_nil) (fun _ _ h => absurd h leaf_nil) rfl

/-- A key has one leaf. -/
theorem leaf_unique (ht : Canonical H t) (h₁ : Leaf a d t) (h₂ : Leaf a e t) : d = e := by
  induction ht with
  | nil => exact absurd h₁ leaf_nil
  | node hl hr below above _ _ ihl ihr =>
    rcases h₁ with ⟨hk, rfl⟩ | h₁ | h₁ <;> rcases h₂ with ⟨hk', rfl⟩ | h₂ | h₂
    · rfl
    · exact absurd hk (below _ _ h₂).1.ne
    · exact absurd hk (above _ _ h₂).1.ne'
    · exact absurd hk' (below _ _ h₁).1.ne
    · exact ihl h₁ h₂
    · exact absurd (below _ _ h₁).1 (above _ _ h₂).1.asymm
    · exact absurd hk' (above _ _ h₁).1.ne'
    · exact absurd (below _ _ h₂).1 (above _ _ h₁).1.asymm
    · exact ihr h₁ h₂

/-- The leaves of the left subtree are the leaves below the root key. -/
theorem leaf_left_iff (ht : Canonical H (.node k p d l r h)) : Leaf a e l ↔ Leaf a e (.node k p d l r h) ∧ a < k := by
  obtain _ | ⟨_, _, below, above, _, _⟩ := ht
  constructor
  · exact fun hl => ⟨.inr (.inl hl), (below _ _ hl).1⟩
  · rintro ⟨⟨rfl, -⟩ | hl | hr, hlt⟩
    · exact absurd hlt (lt_irrefl _)
    · exact hl
    · exact absurd (hlt.trans (above _ _ hr).1) (lt_irrefl _)

/-- The leaves of the right subtree are the leaves above the root key. -/
theorem leaf_right_iff (ht : Canonical H (.node k p d l r h)) : Leaf a e r ↔ Leaf a e (.node k p d l r h) ∧ k < a := by
  obtain _ | ⟨_, _, below, above, _, _⟩ := ht
  constructor
  · exact fun hr => ⟨.inr (.inr hr), (above _ _ hr).1⟩
  · rintro ⟨⟨rfl, -⟩ | hl | hr, hlt⟩
    · exact absurd hlt (lt_irrefl _)
    · exact absurd (hlt.trans (below _ _ hl).1) (lt_irrefl _)
    · exact hr

/-- Every leaf other than the root has a larger priority than the root. -/
theorem priority_lt (ht : Canonical H (.node k p d l r h)) (ha : Leaf a e (.node k p d l r h)) (hne : a ≠ k) :
    H.priority k < H.priority a := by
  obtain _ | ⟨_, _, below, above, _, _⟩ := ht
  rcases ha with ⟨rfl, -⟩ | ha | ha
  · exact absurd rfl hne
  · exact (below _ _ ha).2
  · exact (above _ _ ha).2

/-- A canonical tree is determined by its leaves: the root is the leaf of least priority, and the
subtrees are the canonical trees of the leaves on either side of it. -/
theorem ext (hs : Canonical H s) (ht : Canonical H t) (hst : ∀ a d, Leaf a d s ↔ Leaf a d t) : s = t := by
  induction hs generalizing t with
  | nil =>
    cases t with
    | nil => rfl
    | node k p d l r h => exact absurd ((hst k d).2 (.inl ⟨rfl, rfl⟩)) leaf_nil
  | @node k p d h l r hl hr below above prio hash ihl ihr =>
    have hs : Canonical H (.node k p d l r h) := .node hl hr below above prio hash
    cases t with
    | nil => exact absurd ((hst k d).1 (.inl ⟨rfl, rfl⟩)) leaf_nil
    | node k' p' d' l' r' h' =>
      have root : k' = k := by
        by_contra hne
        have h₁ := hs.priority_lt ((hst k' d').2 (.inl ⟨rfl, rfl⟩)) hne
        have h₂ := ht.priority_lt ((hst k d).1 (.inl ⟨rfl, rfl⟩)) (Ne.symm hne)
        exact lt_asymm h₁ h₂
      subst root
      have leaf : d' = d := ht.leaf_unique (.inl ⟨rfl, rfl⟩) ((hst k' d).1 (.inl ⟨rfl, rfl⟩))
      have ht' := ht
      obtain _ | ⟨hl', hr', _, _, prio', hash'⟩ := ht'
      have left : l = l' := ihl hl' fun a e => by rw [hs.leaf_left_iff, ht.leaf_left_iff, hst]
      have right : r = r' := ihr hr' fun a e => by rw [hs.leaf_right_iff, ht.leaf_right_iff, hst]
      subst left right leaf prio prio' hash hash'
      rfl

/-! ### Insertion -/

theorem leaf_insertOrUpdate [Inhabited δ] (ht : Canonical H t) (key : κ) (leafHash : δ) :
    Leaf a d (insertOrUpdate H key leafHash t) ↔ (a = key ∧ d = leafHash) ∨ (a ≠ key ∧ Leaf a d t) := by
  induction ht with
  | nil => simp [insertOrUpdate]
  | @node k p e h l r hl hr below above prio hash ihl ihr =>
    unfold insertOrUpdate
    by_cases hk : key = k
    · -- an update: `key` has no other leaf, the subtrees lie on either side of it
      subst hk
      simp only [↓reduceIte, leaf_refresh, leaf_node]
      rcases eq_or_ne a key with rfl | ha
      · have hl' : ¬ Leaf a d l := fun h => (below a d h).1.ne rfl
        have hr' : ¬ Leaf a d r := fun h => (above a d h).1.ne rfl
        simp [hl', hr']
      · simp [ha]
    by_cases hlt : key < k
    · simp only [hk, hlt, ↓reduceIte]
      split <;> simp only [leaf_rotateRight, leaf_refresh, leaf_node, ihl]
      all_goals
        rcases eq_or_ne a key with rfl | ha
        · have hr' : ¬ Leaf a d r := fun h => lt_asymm hlt (above a d h).1
          simp [hk, hr']
        · simp [ha]
    · simp only [hk, hlt, ↓reduceIte]
      split <;> simp only [leaf_rotateLeft, leaf_refresh, leaf_node, ihr]
      all_goals
        rcases eq_or_ne a key with rfl | ha
        · have hl' : ¬ Leaf a d l := fun h => hlt (below a d h).1
          simp [hk, hl']
        · simp [ha]

/-- One step of the way back up on the left: over a canonical left subtree in which only `key` may
have a priority below that of `k`, the node is rotated when it has. -/
theorem raiseLeft (hl : Canonical H l) (hr : Canonical H r) (key : κ)
    (below : ∀ a e, Leaf a e l → a < k ∧ (a ≠ key → H.priority k < H.priority a))
    (above : ∀ a e, Leaf a e r → k < a ∧ H.priority k < H.priority a) (prio : p = H.priority k)
    (hkey : H.priority k ≠ H.priority key) :
    Canonical H (if PriorityLt l p then rotateRight H (.node k p d l r h)
      else refresh H (.node k p d l r h)) := by
  cases l with
  | nil => exact mkNode (h := h) hl hr (fun _ _ h => absurd h leaf_nil) above prio
  | node lk lp ld ll lr lh =>
    have hl' := hl
    obtain _ | ⟨hll, hlr, lbelow, labove, lprio, _⟩ := hl'
    have hlk := below lk ld (.inl ⟨rfl, rfl⟩)
    have plt : PriorityLt (Treap.node lk lp ld ll lr lh) p ↔ H.priority lk < H.priority k := by
      rw [← lprio, ← prio]; rfl
    split
    · rename_i hp
      have hlp := plt.1 hp
      -- only the new key can have come up past `k`
      have hroot : lk = key := by_contra fun hne => lt_asymm hlp (hlk.2 hne)
      have inner : Canonical H (refresh H (.node k p d lr r h)) := by
        refine mkNode hlr hr (fun a e ha => ?_) above prio
        have := below a e (.inr (.inr ha))
        exact ⟨this.1, this.2 (hroot ▸ (labove a e ha).1.ne')⟩
      refine mkNode (h := lh) hll inner lbelow (fun a e ha => ?_) lprio
      rcases leaf_refresh.1 ha with ⟨rfl, -⟩ | ha | ha
      · exact ⟨hlk.1, hlp⟩
      · exact labove a e ha
      · exact ⟨hlk.1.trans (above a e ha).1, hlp.trans (above a e ha).2⟩
    · rename_i hp
      have hle := not_lt.1 (mt plt.2 hp)
      refine mkNode hl hr (fun a e ha => ⟨(below a e ha).1, ?_⟩) above prio
      by_cases hne : a = key
      · refine lt_of_le_of_ne (hle.trans ?_) (hne ▸ hkey)
        rcases eq_or_ne a lk with rfl | hne
        · exact le_rfl
        · exact (hl.priority_lt ha hne).le
      · exact (below a e ha).2 hne

/-- `raiseLeft`, mirrored. -/
theorem raiseRight (hl : Canonical H l) (hr : Canonical H r) (key : κ)
    (below : ∀ a e, Leaf a e l → a < k ∧ H.priority k < H.priority a)
    (above : ∀ a e, Leaf a e r → k < a ∧ (a ≠ key → H.priority k < H.priority a)) (prio : p = H.priority k)
    (hkey : H.priority k ≠ H.priority key) :
    Canonical H (if PriorityLt r p then rotateLeft H (.node k p d l r h)
      else refresh H (.node k p d l r h)) := by
  cases r with
  | nil => exact mkNode (h := h) hl hr below (fun _ _ h => absurd h leaf_nil) prio
  | node rk rp rd rl rr rh =>
    have hr' := hr
    obtain _ | ⟨hrl, hrr, rbelow, rabove, rprio, _⟩ := hr'
    have hrk := above rk rd (.inl ⟨rfl, rfl⟩)
    have plt : PriorityLt (Treap.node rk rp rd rl rr rh) p ↔ H.priority rk < H.priority k := by
      rw [← rprio, ← prio]; rfl
    split
    · rename_i hp
      have hrp := plt.1 hp
      have hroot : rk = key := by_contra fun hne => lt_asymm hrp (hrk.2 hne)
      have inner : Canonical H (refresh H (.node k p d l rl h)) := by
        refine mkNode hl hrl below (fun a e ha => ?_) prio
        have := above a e (.inr (.inl ha))
        exact ⟨this.1, this.2 (hroot ▸ (rbelow a e ha).1.ne)⟩
      refine mkNode (h := rh) inner hrr (fun a e ha => ?_) rabove rprio
      rcases leaf_refresh.1 ha with ⟨rfl, -⟩ | ha | ha
      · exact ⟨hrk.1, hrp⟩
      · exact ⟨(below a e ha).1.trans hrk.1, hrp.trans (below a e ha).2⟩
      · exact rbelow a e ha
    · rename_i hp
      have hle := not_lt.1 (mt plt.2 hp)
      refine mkNode hl hr below (fun a e ha => ⟨(above a e ha).1, ?_⟩) prio
      by_cases hne : a = key
      · refine lt_of_le_of_ne (hle.trans ?_) (hne ▸ hkey)
        rcases eq_or_ne a rk with rfl | hne
        · exact le_rfl
        · exact (hr.priority_lt ha hne).le
      · exact (above a e ha).2 hne

/-- Insertion keeps the canonical shape when no other leaf shares the priority of the new key. -/
theorem insertOrUpdate [Inhabited δ] (ht : Canonical H t) (key : κ) (leafHash : δ)
    (hp : ∀ a d, Leaf a d t → H.priority a = H.priority key → a = key) :
    Canonical H (insertOrUpdate H key leafHash t) := by
  induction ht with
  | nil => exact newNode
  | @node k p e h l r hl hr below above prio hash ihl ihr =>
    unfold Treap.insertOrUpdate
    by_cases hk : key = k
    · subst hk
      simp only [↓reduceIte]
      exact mkNode hl hr below above prio
    have hkey : H.priority k ≠ H.priority key := fun h' => hk (hp k e (.inl ⟨rfl, rfl⟩) h').symm
    by_cases hlt : key < k
    · simp only [hk, hlt, ↓reduceIte]
      refine raiseLeft (ihl fun a d h => hp a d (.inr (.inl h))) hr key (fun a d ha => ?_) above prio hkey
      rcases (leaf_insertOrUpdate hl key leafHash).1 ha with ⟨rfl, -⟩ | ⟨-, ha⟩
      · exact ⟨hlt, fun hne => absurd rfl hne⟩
      · exact ⟨(below a d ha).1, fun _ => (below a d ha).2⟩
    · simp only [hk, hlt, ↓reduceIte]
      refine raiseRight hl (ihr fun a d h => hp a d (.inr (.inr h))) key below (fun a d ha => ?_) prio hkey
      rcases (leaf_insertOrUpdate hr key leafHash).1 ha with ⟨rfl, -⟩ | ⟨-, ha⟩
      · exact ⟨lt_of_le_of_ne (not_lt.1 hlt) (Ne.symm hk), fun hne => absurd rfl hne⟩
      · exact ⟨(above a d ha).1, fun _ => (above a d ha).2⟩

/-! ### Deletion -/

/-- Merging two canonical trees, the keys of the first below those of the second. -/
theorem merge (hs : Canonical H s) (ht : Canonical H t)
    (hlt : ∀ a d b e, Leaf a d s → Leaf b e t → a < b)
    (hp : ∀ a d b e, Leaf a d s → Leaf b e t → H.priority a ≠ H.priority b) :
    Canonical H (merge H s t) := by
  induction hs generalizing t with
  | nil => exact ht
  | @node k p d h l r hl hr below above prio hash _ ihr =>
    have hs : Canonical H (.node k p d l r h) := .node hl hr below above prio hash
    induction ht with
    | nil => rw [merge_nil_right]; exact hs
    | @node rk rp rd rh rl rr hrl hrr rbelow rabove rprio rhash ihl _ =>
      have ht : Canonical H (.node rk rp rd rl rr rh) := .node hrl hrr rbelow rabove rprio rhash
      have hroots := hp k d rk rd (.inl ⟨rfl, rfl⟩) (.inl ⟨rfl, rfl⟩)
      rw [merge_node_node]
      split
      · rename_i hpr
        rw [prio, rprio] at hpr
        refine mkNode hl (ihr ht (fun a d b e ha => hlt a d b e (.inr (.inr ha)))
          fun a d b e ha => hp a d b e (.inr (.inr ha))) below (fun a e ha => ?_) prio
        rcases (leaf_merge _ _).1 ha with ha | ha
        · exact above a e ha
        · refine ⟨hlt k d a e (.inl ⟨rfl, rfl⟩) ha, ?_⟩
          rcases eq_or_ne a rk with rfl | hne
          · exact hpr
          · exact hpr.trans (ht.priority_lt ha hne)
      · rename_i hpr
        rw [prio, rprio] at hpr
        have hpr' : H.priority rk < H.priority k := lt_of_le_of_ne (not_lt.1 hpr) hroots.symm
        refine mkNode (ihl (fun a d b e ha hb => hlt a d b e ha (.inr (.inl hb)))
          fun a d b e ha hb => hp a d b e ha (.inr (.inl hb))) hrr (fun a e ha => ?_) rabove rprio
        rcases (leaf_merge _ _).1 ha with ha | ha
        · refine ⟨hlt a e rk rd ha (.inl ⟨rfl, rfl⟩), ?_⟩
          rcases eq_or_ne a k with rfl | hne
          · exact hpr'
          · exact hpr'.trans (hs.priority_lt ha hne)
        · exact rbelow a e ha

theorem leaf_delete (ht : Canonical H t) (key : κ) : Leaf a d (delete H key t) ↔ a ≠ key ∧ Leaf a d t := by
  induction ht with
  | nil => simp [delete]
  | @node k p e h l r hl hr below above prio hash ihl ihr =>
    unfold delete
    by_cases hk : key = k
    · subst hk
      simp only [↓reduceIte, leaf_merge, leaf_node]
      rcases eq_or_ne a key with rfl | ha
      · have hl' : ¬ Leaf a d l := fun h => (below a d h).1.ne rfl
        have hr' : ¬ Leaf a d r := fun h => (above a d h).1.ne rfl
        simp [hl', hr']
      · simp [ha]
    by_cases hlt : key < k
    · simp only [hk, hlt, ↓reduceIte, leaf_refresh, leaf_node, ihl]
      rcases eq_or_ne a key with rfl | ha
      · have hr' : ¬ Leaf a d r := fun h => lt_asymm hlt (above a d h).1
        simp [hk, hr']
      · simp [ha]
    · simp only [hk, hlt, ↓reduceIte, leaf_refresh, leaf_node, ihr]
      rcases eq_or_ne a key with rfl | ha
      · have hl' : ¬ Leaf a d l := fun h => hlt (below a d h).1
        simp [hk, hl']
      · simp [ha]

/-- Deletion keeps the canonical shape when distinct leaves have distinct priorities. -/
theorem delete (ht : Canonical H t) (key : κ)
    (hp : ∀ a d b e, Leaf a d t → Leaf b e t → H.priority a = H.priority b → a = b) :
    Canonical H (delete H key t) := by
  induction ht with
  | nil => exact .nil
  | @node k p e h l r hl hr below above prio hash ihl ihr =>
    unfold Treap.delete
    by_cases hk : key = k
    · simp only [hk, ↓reduceIte]
      have hlt : ∀ a d b e, Leaf a d l → Leaf b e r → a < b := fun a d b e ha hb =>
        (below a d ha).1.trans (above b e hb).1
      exact merge hl hr hlt fun a d b e ha hb h' =>
        (hlt a d b e ha hb).ne (hp a d b e (.inr (.inl ha)) (.inr (.inr hb)) h')
    by_cases hlt : key < k
    · simp only [hk, hlt, ↓reduceIte]
      exact mkNode (ihl fun a d b e ha hb => hp a d b e (.inr (.inl ha)) (.inr (.inl hb))) hr
        (fun a d ha => below a d ((leaf_delete hl key).1 ha).2) above prio
    · simp only [hk, hlt, ↓reduceIte]
      exact mkNode hl (ihr fun a d b e ha hb => hp a d b e (.inr (.inr ha)) (.inr (.inr hb)))
        below (fun a d ha => above a d ((leaf_delete hr key).1 ha).2) prio

/-- Where node digests do not collide, with each other or with that of the empty tree, equal root digests
mean equal leaf digests, whatever the shapes of the two trees are said to be. -/
theorem leaf_of_rootHash (hs : Canonical H s) (ht : Canonical H t)
    (hinj : ∀ x ∈ Inputs H s, ∀ y ∈ Inputs H t,
      H.hashNode x.1 x.2.1 x.2.2 = H.hashNode y.1 y.2.1 y.2.2 → x = y)
    (hempty : ∀ x ∈ Inputs H s ∪ Inputs H t, H.hashNode x.1 x.2.1 x.2.2 ≠ H.empty)
    (heq : subtreeHash H s = subtreeHash H t) (hleaf : Leaf a d s) : ∃ b, Leaf b d t := by
  induction hs generalizing t with
  | nil => exact absurd hleaf leaf_nil
  | @node k p e h l r hl hr below above prio hash ihl ihr =>
    have hroot : (subtreeHash H l, e, subtreeHash H r) ∈ Inputs H (.node k p e l r h) := .inl (.inl rfl)
    cases ht with
    | nil => exact absurd (hash.symm.trans heq) (hempty _ (.inl hroot))
    | @node k' p' e' h' l' r' hl' hr' below' above' prio' hash' =>
      have hroot' : (subtreeHash H l', e', subtreeHash H r') ∈ Inputs H (.node k' p' e' l' r' h') := .inl (.inl rfl)
      have hsame := hinj _ hroot _ hroot' (hash.symm.trans (Eq.trans heq hash'))
      obtain ⟨hleft, hrest⟩ := Prod.mk.inj hsame
      obtain ⟨rfl, hright⟩ := Prod.mk.inj hrest
      rcases hleaf with ⟨-, rfl⟩ | hleaf | hleaf
      · exact ⟨k', .inl ⟨rfl, rfl⟩⟩
      · obtain ⟨b, hb⟩ := ihl hl' (fun x hx y hy => hinj x (.inl (.inr hx)) y (.inl (.inr hy)))
          (fun x hx => hempty x (hx.imp (fun h => .inl (.inr h)) fun h => .inl (.inr h))) hleft hleaf
        exact ⟨b, .inr (.inl hb)⟩
      · obtain ⟨b, hb⟩ := ihr hr' (fun x hx y hy => hinj x (.inr hx) y (.inr hy))
          (fun x hx => hempty x (hx.imp .inr .inr)) hright hleaf
        exact ⟨b, .inr (.inr hb)⟩

end Canonical

end Treap
