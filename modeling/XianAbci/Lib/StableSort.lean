import Mathlib.Data.List.Induction
import Mathlib.Data.List.Sort

/-!
# Stable sorting by a key

`sortBy key` puts a list in the order of its keys and leaves the items of one key in the order they had. What
stands at each key is all that sorting keeps: two lists sort alike exactly when they have the same items at every
key. In a list of bindings the last value of a key is among what stands there, so sorting keeps it too.
-/

namespace StableSort

variable {α β κ : Type} [LinearOrder κ]

def sortBy (key : α → κ) (l : List α) : List α := l.insertionSort fun a b => key a ≤ key b

/-- The items of a key, in order. -/
def atKey (key : α → κ) (k : κ) (l : List α) : List α := l.filter (key · = k)

section Keys

variable {key : α → κ} {k : κ} {l m : List α}

theorem mem_atKey {a : α} : a ∈ atKey key k l ↔ a ∈ l ∧ key a = k := by
  simp [atKey]

theorem atKey_append : atKey key k (l ++ m) = atKey key k l ++ atKey key k m := List.filter_append ..

theorem sortBy_perm (l : List α) : (sortBy key l).Perm l := List.perm_insertionSort _ l

theorem mem_sortBy {a : α} : a ∈ sortBy key l ↔ a ∈ l := (sortBy_perm l).mem_iff

theorem pairwise_sortBy (l : List α) : (sortBy key l).Pairwise fun a b => key a ≤ key b := by
  have : Std.Total fun a b : α => key a ≤ key b := ⟨fun a b => le_total (key a) (key b)⟩
  have : IsTrans α fun a b => key a ≤ key b := ⟨fun _ _ _ => le_trans⟩
  exact List.pairwise_insertionSort _ l

/-- Sorting is stable. -/
theorem atKey_sortBy : atKey key k (sortBy key l) = atKey key k l := by
  have : Std.Total fun a b : α => key a ≤ key b := ⟨fun a b => le_total (key a) (key b)⟩
  have : IsTrans α fun a b => key a ≤ key b := ⟨fun _ _ _ => le_trans⟩
  have hsame : (atKey key k l).Pairwise fun a b => key a ≤ key b :=
    List.pairwise_of_forall_mem_list fun a ha b hb => ((mem_atKey.1 ha).2.trans (mem_atKey.1 hb).2.symm).le
  have hsub : List.Sublist (atKey key k l) (sortBy key l) := List.sublist_insertionSort hsame List.filter_sublist
  have hfiltered : List.Sublist (atKey key k l) (atKey key k (sortBy key l)) := by
    have h := hsub.filter (key · = k)
    simpa only [atKey, List.filter_filter, Bool.and_self] using h
  exact (hfiltered.eq_of_length ((sortBy_perm l).filter _).length_eq.symm).symm

theorem head_le {a b : α} {l : List α} (h : (a :: l).Pairwise fun a b => key a ≤ key b) (hb : b ∈ a :: l) :
    key a ≤ key b := by
  rcases List.mem_cons.1 hb with rfl | hb
  · exact le_rfl
  · exact (List.pairwise_cons.1 h).1 b hb

/-- Two lists in the order of their keys with the same items at every key are the same. -/
theorem eq_of_atKey (hl : l.Pairwise fun a b => key a ≤ key b) (hm : m.Pairwise fun a b => key a ≤ key b)
    (h : ∀ k, atKey key k l = atKey key k m) : l = m := by
  have hmem : ∀ a, a ∈ l ↔ a ∈ m := fun a => by
    have hkey := congrArg (a ∈ ·) (h (key a))
    simpa [mem_atKey] using hkey
  induction l generalizing m with
  | nil => exact (List.eq_nil_iff_forall_not_mem.2 fun a ha => List.not_mem_nil ((hmem a).2 ha)).symm
  | cons a l ih =>
    rcases m with _ | ⟨b, m⟩
    · exact absurd ((hmem a).1 (List.mem_cons_self ..)) List.not_mem_nil
    have hkeys : key a = key b := le_antisymm (head_le hl ((hmem b).2 (List.mem_cons_self ..)))
      (head_le hm ((hmem a).1 (List.mem_cons_self ..)))
    have hhead := h (key a)
    rw [atKey, atKey, List.filter_cons_of_pos (by simp), List.filter_cons_of_pos (by simp [hkeys])] at hhead
    obtain rfl : a = b := (List.cons.inj hhead).1
    have htails : ∀ k, atKey key k l = atKey key k m := fun k => by
      have hk := h k
      simp only [atKey, List.filter_cons] at hk ⊢
      split at hk
      · exact (List.cons.inj hk).2
      · exact hk
    have hmem' : ∀ a, a ∈ l ↔ a ∈ m := fun a => by
      have hkey := congrArg (a ∈ ·) (htails (key a))
      simpa [mem_atKey] using hkey
    rw [ih (List.pairwise_cons.1 hl).2 (List.pairwise_cons.1 hm).2 htails hmem']

theorem sortBy_eq_iff : sortBy key l = sortBy key m ↔ ∀ k, atKey key k l = atKey key k m := by
  constructor
  · intro h k
    rw [← atKey_sortBy (l := l), h, atKey_sortBy]
  · intro h
    exact eq_of_atKey (pairwise_sortBy l) (pairwise_sortBy m) fun k => by rw [atKey_sortBy, atKey_sortBy, h]

theorem sortBy_of_pairwise (h : l.Pairwise fun a b => key a ≤ key b) : sortBy key l = l := h.insertionSort_eq

theorem sortBy_sortBy : sortBy key (sortBy key l) = sortBy key l := sortBy_of_pairwise (pairwise_sortBy l)

theorem atKey_map (f : β → α) (l : List β) : atKey key k (l.map f) = (atKey (fun b => key (f b)) k l).map f := by
  unfold atKey
  rw [List.filter_map]
  rfl

theorem sortBy_map (f : β → α) (l : List β) : sortBy key (l.map f) = (sortBy (fun b => key (f b)) l).map f := by
  unfold sortBy
  exact (List.map_insertionSort _ _ f l fun _ _ _ _ => Iff.rfl).symm

end Keys

/-! ### Bindings -/

/-- The last value of a key. -/
theorem lookup_reverse (l : List (κ × β)) (k : κ) :
    l.reverse.lookup k = ((atKey Prod.fst k l).map Prod.snd).getLast? := by
  induction l using List.reverseRecOn with
  | nil => rfl
  | append_singleton l p ih =>
    obtain ⟨a, b⟩ := p
    rw [List.reverse_append, List.reverse_singleton, List.singleton_append, atKey_append]
    by_cases hk : a = k
    · subst hk
      simp [atKey, List.lookup_cons_self]
    · have hne : (k == a) = false := by simpa using Ne.symm hk
      have hlast : atKey Prod.fst k [(a, b)] = [] := by simp [atKey, hk]
      rw [hlast, List.append_nil, ← ih, List.lookup_cons, hne]

theorem lookup_reverse_congr {l m : List (κ × β)} {k : κ} (h : atKey Prod.fst k l = atKey Prod.fst k m) :
    l.reverse.lookup k = m.reverse.lookup k := by
  rw [lookup_reverse, lookup_reverse, h]

end StableSort
