import Mathlib

/-!
# Chains of versions

A log of versions, each under a key and at a place of a linear order, with a name by which the next version of
its key refers to it; the newest version of a key is its head. `Complete` says that every version names the
latest one before it and that the heads are up to date. A writer that links each version to the one it wrote
last under the same key, from names it has looked up before, keeps this exactly when it writes in the order of
the places and has looked up every key that has versions (`complete_append_iff`).
-/

structure VersionLog (α κ ι ρ ν : Type) where
  key : α → κ
  place : α → ι
  ref : α → ρ
  previous : α → ρ
  value : α → ν
  -- what the first version of a key names
  first : ρ

namespace VersionLog

variable {α κ ι ρ ν : Type} (V : VersionLog α κ ι ρ ν)

/-! ### Complete logs -/

section Complete

variable [LinearOrder ι]

/-- `p` is the latest version of its key before `c`. -/
structure LatestBefore (rows : List α) (c p : α) : Prop where
  mem : p ∈ rows
  key : V.key p = V.key c
  before : V.place p < V.place c
  latest : ∀ q ∈ rows, V.key q = V.key c → V.place q < V.place c → V.place q ≤ V.place p

def Linked (rows : List α) (c : α) : Prop :=
  (∃ p, V.LatestBefore rows c p ∧ V.previous c = V.ref p) ∨
    (∀ q ∈ rows, V.key q = V.key c → ¬ V.place q < V.place c) ∧ V.previous c = V.first

structure Last (rows : List α) (k : κ) (c : α) : Prop where
  mem : c ∈ rows
  key : V.key c = k
  last : ∀ q ∈ rows, V.key q = k → V.place q ≤ V.place c

structure Complete (rows : List α) (heads : κ → ρ → ν → Prop) : Prop where
  linked : ∀ c ∈ rows, V.Linked rows c
  current : ∀ k r v, heads k r v → ∃ c, V.Last rows k c ∧ r = V.ref c ∧ v = V.value c
  listed : ∀ c ∈ rows, ∃ r v, heads (V.key c) r v

end Complete

variable {V} {rows old new : List α} {heads heads' : κ → ρ → ν → Prop} {start : κ → ρ} {c : α} {k : κ}

theorem complete_nil [LinearOrder ι] : V.Complete [] fun _ _ _ => False where
  linked _ hc := absurd hc List.not_mem_nil
  current _ _ _ h := h.elim
  listed _ hc := absurd hc List.not_mem_nil

/-- Another version, after all versions of its key, that names the head. -/
theorem Complete.snoc [DecidableEq κ] [LinearOrder ι] (h : V.Complete rows heads)
    (hplace : ∀ q ∈ rows, V.key q = V.key c → V.place q < V.place c)
    (hprevious : (∃ v, heads (V.key c) (V.previous c) v) ∨
      (∀ q ∈ rows, V.key q ≠ V.key c) ∧ V.previous c = V.first)
    (hheads : ∀ k r v, heads' k r v ↔ if k = V.key c then r = V.ref c ∧ v = V.value c else heads k r v) :
    V.Complete (rows ++ [c]) heads' := by
  constructor
  · intro d hd
    rcases List.mem_append.1 hd with hd | hd
    · -- an older version: the new one does not come between
      have hnew : V.key c = V.key d → ¬ V.place c < V.place d := fun hkey hlt =>
        lt_asymm hlt (hplace d hd hkey.symm)
      rcases h.linked d hd with ⟨p, hp, href⟩ | ⟨hnone, hfirst⟩
      · refine .inl ⟨p, ⟨List.mem_append_left _ hp.mem, hp.key, hp.before, fun q hq hkey hlt => ?_⟩, href⟩
        rcases List.mem_append.1 hq with hq | hq
        · exact hp.latest q hq hkey hlt
        · obtain rfl := List.mem_singleton.1 hq
          exact absurd hlt (hnew hkey)
      · refine .inr ⟨fun q hq hkey => ?_, hfirst⟩
        rcases List.mem_append.1 hq with hq | hq
        · exact hnone q hq hkey
        · obtain rfl := List.mem_singleton.1 hq
          exact hnew hkey
    · obtain rfl := List.mem_singleton.1 hd
      rcases hprevious with ⟨v, hhead⟩ | ⟨hnone, hfirst⟩
      · obtain ⟨p, hlast, href, -⟩ := h.current _ _ _ hhead
        refine .inl ⟨p, ⟨List.mem_append_left _ hlast.mem, hlast.key, hplace p hlast.mem hlast.key,
          fun q hq hkey hlt => ?_⟩, href⟩
        rcases List.mem_append.1 hq with hq | hq
        · exact hlast.last q hq hkey
        · obtain rfl := List.mem_singleton.1 hq
          exact absurd hlt (lt_irrefl _)
      · refine .inr ⟨fun q hq hkey hlt => ?_, hfirst⟩
        rcases List.mem_append.1 hq with hq | hq
        · exact hnone q hq hkey
        · obtain rfl := List.mem_singleton.1 hq
          exact lt_irrefl _ hlt
  · intro k r v hhead
    rw [hheads] at hhead
    split_ifs at hhead with hk
    · refine ⟨c, ⟨List.mem_append_right _ (List.mem_singleton_self c), hk.symm, fun q hq hkey => ?_⟩, hhead⟩
      rcases List.mem_append.1 hq with hq | hq
      · exact (hplace q hq (hkey.trans hk)).le
      · rw [List.mem_singleton.1 hq]
    · obtain ⟨d, hlast, hd⟩ := h.current k r v hhead
      refine ⟨d, ⟨List.mem_append_left _ hlast.mem, hlast.key, fun q hq hkey => ?_⟩, hd⟩
      rcases List.mem_append.1 hq with hq | hq
      · exact hlast.last q hq hkey
      · rw [List.mem_singleton.1 hq] at hkey
        exact absurd hkey.symm hk
  · intro d hd
    by_cases hk : V.key d = V.key c
    · exact ⟨V.ref c, V.value c, (hheads _ _ _).2 (by rw [if_pos hk]; exact ⟨rfl, rfl⟩)⟩
    · have hold : d ∈ rows := by
        rcases List.mem_append.1 hd with hd | hd
        · exact hd
        · exact absurd (congrArg V.key (List.mem_singleton.1 hd)) hk
      obtain ⟨r, v, hhead⟩ := h.listed d hold
      exact ⟨r, v, (hheads _ _ _).2 (by rwa [if_neg hk])⟩

/-! ### A writer -/

/-- Each version names the one before it, the first of them `r`. -/
def Follows (V : VersionLog α κ ι ρ ν) : ρ → List α → Prop
  | _, [] => True
  | r, c :: rest => V.previous c = r ∧ V.Follows (V.ref c) rest

theorem follows_snoc {r : ρ} : V.Follows r (rows ++ [c]) ↔
    V.Follows r rows ∧ V.previous c = (rows.getLast?.map V.ref).getD r := by
  induction rows generalizing r with
  | nil => simp [Follows]
  | cons d rows ih =>
    rw [List.cons_append, Follows, Follows, ih, and_assoc, List.getLast?_cons]
    rcases rows.getLast? with _ | e <;> rfl

section Writer

variable [DecidableEq κ]

/-- The versions of a key, in the order they were written. -/
def of (V : VersionLog α κ ι ρ ν) (k : κ) (rows : List α) : List α := rows.filter fun c => V.key c = k

theorem mem_of : c ∈ V.of k rows ↔ c ∈ rows ∧ V.key c = k := by simp [of]

theorem of_snoc : V.of k (rows ++ [c]) = if V.key c = k then V.of k rows ++ [c] else V.of k rows := by
  unfold of
  rw [List.filter_append]
  split_ifs with hk
  · simp [hk]
  · simp [hk]

/-- The name a writer has for a key after some versions. -/
def refAfter (V : VersionLog α κ ι ρ ν) (start : κ → ρ) (new : List α) (k : κ) : ρ :=
  ((V.of k new).getLast?.map V.ref).getD (start k)

def headsAfter (V : VersionLog α κ ι ρ ν) (heads : κ → ρ → ν → Prop) (new : List α) (k : κ) (r : ρ) (v : ν) : Prop :=
  match (V.of k new).getLast? with
  | some c => r = V.ref c ∧ v = V.value c
  | none => heads k r v

/-- What a writer leaves that knows the names `start`. -/
def Chained (V : VersionLog α κ ι ρ ν) (start : κ → ρ) (new : List α) : Prop :=
  ∀ k, V.Follows (start k) (V.of k new)

theorem refAfter_nil : V.refAfter start [] = start := rfl

theorem headsAfter_nil : V.headsAfter heads [] = heads := rfl

theorem chained_nil : V.Chained start [] := fun _ => trivial

theorem refAfter_snoc : V.refAfter start (new ++ [c]) k = if k = V.key c then V.ref c else V.refAfter start new k := by
  unfold refAfter
  rw [of_snoc]
  by_cases hk : V.key c = k
  · rw [if_pos hk, if_pos hk.symm, List.getLast?_concat]
    rfl
  · rw [if_neg hk, if_neg (Ne.symm hk)]

theorem headsAfter_snoc {r : ρ} {v : ν} : V.headsAfter heads (new ++ [c]) k r v ↔
    if k = V.key c then r = V.ref c ∧ v = V.value c else V.headsAfter heads new k r v := by
  unfold headsAfter
  rw [of_snoc]
  by_cases hk : V.key c = k
  · rw [if_pos hk, if_pos hk.symm, List.getLast?_concat]
  · rw [if_neg hk, if_neg (Ne.symm hk)]

theorem chained_snoc : V.Chained start (new ++ [c]) ↔
    V.Chained start new ∧ V.previous c = V.refAfter start new (V.key c) := by
  unfold Chained
  constructor
  · intro h
    have hkey := h (V.key c)
    rw [of_snoc, if_pos rfl, follows_snoc] at hkey
    refine ⟨fun k => ?_, hkey.2⟩
    by_cases hk : V.key c = k
    · exact hk ▸ hkey.1
    · have hother := h k
      rwa [of_snoc, if_neg hk] at hother
  · rintro ⟨h, hc⟩ k
    rw [of_snoc]
    split_ifs with hk
    · subst hk
      exact follows_snoc.2 ⟨h _, hc⟩
    · exact h k

theorem pairwise_of_key {r : α → α → Prop} (h : ∀ k, (V.of k rows).Pairwise r) :
    rows.Pairwise fun a b => V.key a = V.key b → r a b := by
  rw [List.pairwise_iff_forall_sublist]
  intro a b hsub hkey
  refine List.pairwise_iff_forall_sublist.1 (h (V.key a)) ?_
  have hfilter := hsub.filter fun c => decide (V.key c = V.key a)
  have hpair : [a, b].filter (fun c => decide (V.key c = V.key a)) = [a, b] := by simp [hkey]
  rwa [hpair] at hfilter

end Writer

/-! ### Keeping the log complete -/

/-- Names and places tell versions apart, and no version has the name that stands for none. -/
structure Distinct (V : VersionLog α κ ι ρ ν) (rows : List α) : Prop where
  refs : rows.Pairwise fun a b => V.ref a ≠ V.ref b
  places : rows.Pairwise fun a b => V.place a ≠ V.place b
  named : ∀ c ∈ rows, V.ref c ≠ V.first

theorem Distinct.eq_of_ref (h : V.Distinct rows) {a b : α} (ha : a ∈ rows) (hb : b ∈ rows)
    (href : V.ref a = V.ref b) : a = b := by
  have hinjective : rows.Pairwise fun a b => V.ref a = V.ref b → a = b := h.refs.imp fun hne heq => absurd heq hne
  exact hinjective.forall_of_forall_of_flip (fun _ _ _ => rfl) (h.refs.imp fun hne heq => absurd heq.symm hne) ha hb href

/-- In a complete log, the version that another one names is the latest before it. -/
theorem Distinct.latestBefore [LinearOrder ι] (h : V.Distinct rows) {p : α} (hp : p ∈ rows) (hlinked : V.Linked rows c)
    (href : V.previous c = V.ref p) : V.LatestBefore rows c p := by
  rcases hlinked with ⟨p', hp', href'⟩ | ⟨-, hfirst⟩
  · obtain rfl := h.eq_of_ref hp'.mem hp (href'.symm.trans href)
    exact hp'
  · exact absurd (href.symm.trans hfirst) (h.named p hp)

section Necessary

variable [LinearOrder ι] (hdistinct : V.Distinct rows) {l : List α} (hmem : ∀ c ∈ l, c ∈ rows) (hlinked : ∀ c ∈ l, V.Linked rows c)

include hdistinct hmem hlinked

theorem Follows.isChain {r : ρ} (h : V.Follows r l) : l.IsChain fun a b => V.place a < V.place b := by
  induction l generalizing r with
  | nil => exact .nil
  | cons c l ih =>
    have htail := ih (fun d hd => hmem d (List.mem_cons_of_mem _ hd))
      (fun d hd => hlinked d (List.mem_cons_of_mem _ hd)) h.2
    rcases l with _ | ⟨d, l⟩
    · exact .singleton c
    · refine .cons_cons ?_ htail
      exact (hdistinct.latestBefore (hmem c (by simp)) (hlinked d (by simp)) h.2.1).before

/-- A version after the first of those that a writer wrote comes after all of them. -/
theorem Follows.lt_of_lt {r : ρ} {q : α} (h : V.Follows r l) (hq : q ∈ rows) (hkey : ∀ c ∈ l, V.key q = V.key c)
    (hplace : ∀ c ∈ l, V.place q ≠ V.place c) (hhead : ∀ c, l.head? = some c → V.place c < V.place q) :
    ∀ c ∈ l, V.place c < V.place q := by
  induction l generalizing r with
  | nil => exact fun c hc => absurd hc List.not_mem_nil
  | cons c l ih =>
    have hc : V.place c < V.place q := hhead c rfl
    have htail := ih (fun d hd => hmem d (List.mem_cons_of_mem _ hd))
      (fun d hd => hlinked d (List.mem_cons_of_mem _ hd)) h.2 (fun d hd => hkey d (List.mem_cons_of_mem _ hd))
      (fun d hd => hplace d (List.mem_cons_of_mem _ hd)) fun d hd => by
        obtain ⟨l, rfl⟩ : ∃ l', l = d :: l' := List.head?_eq_some_iff.1 hd
        have hlatest := hdistinct.latestBefore (hmem c (by simp)) (hlinked d (by simp)) h.2.1
        refine lt_of_le_of_ne (not_lt.1 fun hlt => ?_) (hplace d (by simp)).symm
        exact absurd hc (hlatest.latest q hq (hkey d (by simp)) hlt).not_gt
    intro d hd
    rcases List.mem_cons.1 hd with rfl | hd
    · exact hc
    · exact htail d hd

end Necessary

variable [DecidableEq κ] [LinearOrder ι]

/-- The writer knows the head of each key it writes under. -/
def Covers (V : VersionLog α κ ι ρ ν) (start : κ → ρ) (heads : κ → ρ → ν → Prop) (old new : List α) : Prop :=
  ∀ c ∈ new, (∃ v, heads (V.key c) (start (V.key c)) v) ∨
    (∀ q ∈ old, V.key q ≠ V.key c) ∧ start (V.key c) = V.first

/-- It writes after what there is, and in order. -/
structure InOrder (V : VersionLog α κ ι ρ ν) (old new : List α) : Prop where
  after : ∀ a ∈ old, ∀ b ∈ new, V.key a = V.key b → V.place a < V.place b
  pairwise : new.Pairwise fun a b => V.key a = V.key b → V.place a < V.place b

theorem Complete.append (h : V.Complete old heads) (hchained : V.Chained start new)
    (hcovers : V.Covers start heads old new) (horder : V.InOrder old new) :
    V.Complete (old ++ new) (V.headsAfter heads new) := by
  induction new using List.reverseRecOn with
  | nil => rwa [List.append_nil]
  | append_singleton new c ih =>
    obtain ⟨hbefore, hprevious⟩ := chained_snoc.1 hchained
    obtain ⟨hpairwise, -, hlast⟩ := List.pairwise_append.1 horder.pairwise
    have hnew := ih hbefore (fun d hd => hcovers d (List.mem_append_left _ hd))
      ⟨fun a ha b hb => horder.after a ha b (List.mem_append_left _ hb), hpairwise⟩
    have hc : c ∈ new ++ [c] := by simp
    rw [← List.append_assoc]
    refine hnew.snoc (fun q hq hkey => ?_) ?_ fun k r v => headsAfter_snoc
    · rcases List.mem_append.1 hq with hq | hq
      · exact horder.after q hq c hc hkey
      · exact hlast q hq c (List.mem_singleton_self c) hkey
    · -- the name for the key is of a version written before, or looked up
      rw [hprevious]
      unfold refAfter headsAfter
      rcases hlast? : (V.of (V.key c) new).getLast? with _ | d
      · have hnone : V.of (V.key c) new = [] := List.getLast?_eq_none_iff.1 hlast?
        rcases hcovers c hc with hhead | ⟨hold, hfirst⟩
        · exact .inl hhead
        · refine .inr ⟨fun q hq hkey => ?_, hfirst⟩
          rcases List.mem_append.1 hq with hq | hq
          · exact hold q hq hkey
          · have hmem : q ∈ V.of (V.key c) new := mem_of.2 ⟨hq, hkey⟩
            rw [hnone] at hmem
            exact absurd hmem List.not_mem_nil
      · exact .inl ⟨V.value d, rfl, rfl⟩

/-- Exactly when a writer keeps the log complete. -/
theorem complete_append_iff (h : V.Complete old heads) (hdistinct : V.Distinct (old ++ new))
    (hchained : V.Chained start new)
    (hstart : ∀ k, (∃ v, heads k (start k) v) ∨ start k = V.first) :
    V.Complete (old ++ new) (V.headsAfter heads new) ↔ V.InOrder old new ∧ V.Covers start heads old new := by
  refine ⟨fun hcomplete => ?_, fun hboth => h.append hchained hboth.2 hboth.1⟩
  have hmem : ∀ k, ∀ c ∈ V.of k new, c ∈ old ++ new := fun k c hc => List.mem_append_right _ (mem_of.1 hc).1
  have hlinked : ∀ k, ∀ c ∈ V.of k new, V.Linked (old ++ new) c := fun k c hc => hcomplete.linked c (hmem k c hc)
  have hsorted : ∀ k, (V.of k new).Pairwise fun a b => V.place a < V.place b := fun k =>
    List.isChain_iff_pairwise.1 (Follows.isChain hdistinct (hmem k) (hlinked k) (hchained k))
  -- under a key whose name was not looked up there was nothing
  have hnone : ∀ c ∈ new, start (V.key c) = V.first → ∀ q ∈ old, V.key q ≠ V.key c := by
    intro c hc hfirst q hq hkey
    obtain ⟨d, l, hof⟩ := List.exists_cons_of_ne_nil (List.ne_nil_of_mem (mem_of.2 ⟨hc, rfl⟩ : c ∈ V.of (V.key c) new))
    have hd : d ∈ V.of (V.key c) new := by simp [hof]
    have hprevious : V.previous d = V.first := by
      have hfollows := hchained (V.key c)
      rw [hof] at hfollows
      exact hfollows.1.trans hfirst
    have hdistinctPlace : ∀ e ∈ V.of (V.key c) new, V.place q ≠ V.place e := fun e he =>
      (List.pairwise_append.1 hdistinct.places).2.2 q hq e (mem_of.1 he).1
    have hbefore : V.place d < V.place q := by
      rcases hlinked _ d hd with ⟨p, hp, href⟩ | ⟨hno, -⟩
      · exact absurd (href.symm.trans hprevious) (hdistinct.named p hp.mem)
      · refine lt_of_le_of_ne (not_lt.1 (hno q (List.mem_append_left _ hq) ?_)) (hdistinctPlace d hd).symm
        exact hkey.trans (mem_of.1 hd).2.symm
    have hall := Follows.lt_of_lt hdistinct (hmem (V.key c)) (hlinked _) (hchained _) (List.mem_append_left _ hq)
      (fun e he => hkey.trans (mem_of.1 he).2.symm) hdistinctPlace fun e he => by
        rw [hof] at he
        exact Option.some.inj he ▸ hbefore
    -- yet the head is the last of those written
    obtain ⟨e, hlast⟩ : ∃ e, (V.of (V.key c) new).getLast? = some e :=
      Option.ne_none_iff_exists'.1 fun hnil => by simp [hof] at hnil
    have he : e ∈ V.of (V.key c) new := List.mem_of_getLast? hlast
    have hhead : V.headsAfter heads new (V.key c) (V.ref e) (V.value e) := by
      unfold headsAfter
      rw [hlast]
      exact ⟨rfl, rfl⟩
    obtain ⟨e', hlast', href, -⟩ := hcomplete.current _ _ _ hhead
    obtain rfl := hdistinct.eq_of_ref (hmem _ e he) hlast'.mem href
    exact absurd (hall e he) (hlast'.last q (List.mem_append_left _ hq) hkey).not_gt
  refine ⟨⟨fun a ha b hb hkey => ?_, pairwise_of_key hsorted⟩, fun c hc => ?_⟩
  · -- the first version written under the key names the head
    have hhead : ∃ v, heads (V.key b) (start (V.key b)) v :=
      (hstart (V.key b)).resolve_right fun hfirst => hnone b hb hfirst a ha hkey
    obtain ⟨v, hhead⟩ := hhead
    obtain ⟨p, hlast, href, -⟩ := h.current _ _ _ hhead
    obtain ⟨d, l, hof⟩ := List.exists_cons_of_ne_nil (List.ne_nil_of_mem (mem_of.2 ⟨hb, rfl⟩ : b ∈ V.of (V.key b) new))
    have hd : d ∈ V.of (V.key b) new := by simp [hof]
    have hprevious : V.previous d = V.ref p := by
      have hfollows := hchained (V.key b)
      rw [hof] at hfollows
      exact hfollows.1.trans href
    have hbefore := (hdistinct.latestBefore (List.mem_append_left _ hlast.mem) (hlinked _ d hd) hprevious).before
    have hle : V.place d ≤ V.place b := by
      have hb' : b ∈ V.of (V.key b) new := mem_of.2 ⟨hb, rfl⟩
      have hpairwise := hsorted (V.key b)
      rw [hof] at hb' hpairwise
      rcases List.mem_cons.1 hb' with rfl | hb'
      · exact le_rfl
      · exact ((List.pairwise_cons.1 hpairwise).1 b hb').le
    exact ((hlast.last a ha hkey).trans_lt hbefore).trans_le hle
  · rcases hstart (V.key c) with hhead | hfirst
    · exact .inl hhead
    · exact .inr ⟨hnone c hc hfirst, hfirst⟩

end VersionLog
