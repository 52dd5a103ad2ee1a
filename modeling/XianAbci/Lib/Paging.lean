import Mathlib

/-!
# Reading a sorted list page by page

A reader asks for the keys above a cursor, a page at a time, and makes the next cursor from the last key of the
page. The cursor need not be that key. `paged_iff` says when the pages are the whole list: at every page boundary
the cursor has the same keys above it as the last key of the page.
-/

namespace Paging

variable {α : Type} [LinearOrder α]

/-- The keys above the cursor; all of them without one. -/
def above (keys : List α) : Option α → List α
  | none => keys
  | some c => keys.filter (c < ·)

/-- The reader that starts with this cursor reads these keys, and then there are no more. -/
inductive Paged (keys : List α) (limit : Nat) (next : α → Option α) : Option α → List α → Prop
  | last {cursor : Option α} (h : (above keys cursor).length ≤ limit) : Paged keys limit next cursor (above keys cursor)
  | more {cursor : Option α} {k : α} {rest : List α} (h : limit < (above keys cursor).length)
      (hlast : ((above keys cursor).take limit).getLast? = some k) (hrest : Paged keys limit next (next k) rest) :
      Paged keys limit next cursor ((above keys cursor).take limit ++ rest)

variable {keys l l' out : List α} {limit : Nat} {next : α → Option α} {cursor : Option α} {k : α}

theorem above_suffix (hkeys : keys.Pairwise (· < ·)) : above keys cursor <:+ keys := by
  cases cursor with
  | none => exact List.suffix_refl _
  | some c =>
    show keys.filter (c < ·) <:+ keys
    induction keys with
    | nil => exact List.suffix_refl _
    | cons a keys ih =>
      obtain ⟨ha, hkeys⟩ := List.pairwise_cons.1 hkeys
      by_cases hc : c < a
      · have hall : (a :: keys).filter (c < ·) = a :: keys := by
          rw [List.filter_eq_self]
          intro b hb
          rcases List.mem_cons.1 hb with rfl | hb
          · simpa using hc
          · simpa using hc.trans (ha b hb)
        rw [hall]
      · rw [List.filter_cons_of_neg (by simpa using hc)]
        exact (ih hkeys).trans (List.suffix_cons a keys)

omit [LinearOrder α] in
/-- Two ends of a list without repetitions that begin alike are the same. -/
theorem eq_of_suffix_of_head? (hkeys : keys.Nodup) (h : l <:+ keys) (h' : l' <:+ keys) (hhead : l.head? = l'.head?) :
    l = l' := by
  have hlonger : ∀ m m' : List α, m <:+ m' → m' <:+ keys → m.head? = m'.head? → m = m' := by
    rintro m m' ⟨t, rfl⟩ hm' hhead
    cases t with
    | nil => rfl
    | cons a t =>
      cases m with
      | nil => cases hhead
      | cons b m =>
        cases hhead
        have hnodup := hkeys.sublist hm'.sublist
        simp at hnodup
  rcases List.suffix_or_suffix_of_suffix h h' with hl | hl
  · exact hlonger _ _ hl h' hhead
  · exact (hlonger _ _ hl h hhead.symm).symm

/-- What is read begins where the cursor's keys begin. -/
theorem Paged.head? (hlimit : 0 < limit) (h : Paged keys limit next cursor out) :
    out.head? = (above keys cursor).head? := by
  cases h with
  | last => rfl
  | more hlong =>
    obtain ⟨a, t, ht⟩ := List.exists_cons_of_length_pos (Nat.zero_lt_of_lt hlong)
    obtain ⟨n, rfl⟩ := Nat.exists_eq_succ_of_ne_zero hlimit.ne'
    rw [ht]
    rfl

theorem paged_cases (h : Paged keys limit next cursor out) :
    (above keys cursor).length ≤ limit ∧ out = above keys cursor ∨
      limit < (above keys cursor).length ∧ ∃ k rest, ((above keys cursor).take limit).getLast? = some k ∧
        Paged keys limit next (next k) rest ∧ out = (above keys cursor).take limit ++ rest := by
  cases h with
  | last hshort => exact .inl ⟨hshort, rfl⟩
  | more hlong hlast hrest => exact .inr ⟨hlong, _, _, hlast, hrest, rfl⟩

/-- One page further. -/
theorem paged_of_long (hlimit : 0 < limit) (hkeys : keys.Pairwise (· < ·)) (hl : above keys cursor = l)
    (hlong : limit < l.length) (hk : l[limit - 1]? = some k) :
    Paged keys limit next cursor l ↔
      above keys (next k) = l.drop limit ∧ Paged keys limit next (next k) (l.drop limit) := by
  subst hl
  have hlast : ((above keys cursor).take limit).getLast? = some k := by
    rw [List.getLast?_eq_getElem?, List.length_take, min_eq_left hlong.le, List.getElem?_take_of_lt (by omega), hk]
  constructor
  · intro h
    have hrest : Paged keys limit next (next k) ((above keys cursor).drop limit) := by
      rcases paged_cases h with ⟨hshort, -⟩ | ⟨-, k', rest, hlast', hrest, hout⟩
      · omega
      · rw [hlast] at hlast'
        cases hlast'
        have heq : (above keys cursor).drop limit = rest :=
          List.append_cancel_left ((List.take_append_drop limit _).trans hout)
        rwa [heq]
    refine ⟨?_, hrest⟩
    exact eq_of_suffix_of_head? hkeys.nodup (above_suffix hkeys)
      ((List.drop_suffix _ _).trans (above_suffix hkeys)) (hrest.head? hlimit).symm
  · rintro ⟨-, hrest⟩
    have hmore := Paged.more hlong hlast hrest
    rwa [List.take_append_drop] at hmore

/-- From where the cursor's keys are `l`, the pages are `l` exactly when at every boundary of `l` the next cursor
leads on. -/
theorem paged_above_iff (hlimit : 0 < limit) (hkeys : keys.Pairwise (· < ·)) (hl : above keys cursor = l) :
    Paged keys limit next cursor l ↔
      ∀ i k, limit * (i + 1) < l.length → l[limit * (i + 1) - 1]? = some k →
        above keys (next k) = l.drop (limit * (i + 1)) := by
  induction hlen : l.length using Nat.strong_induction_on generalizing l cursor with
  | _ n ih =>
  subst hlen
  by_cases hlong : limit < l.length
  · obtain ⟨k, hk⟩ : ∃ k, l[limit - 1]? = some k := ⟨_, List.getElem?_eq_getElem (by omega)⟩
    have hdrop : (l.drop limit).length = l.length - limit := List.length_drop
    rw [paged_of_long hlimit hkeys hl hlong hk]
    constructor
    · rintro ⟨hnext, hrest⟩ i k' hi hk'
      rw [ih _ (by omega) hnext rfl] at hrest
      cases i with
      | zero =>
        rw [Nat.zero_add, Nat.mul_one] at hk' ⊢
        rw [hk] at hk'
        cases hk'
        exact hnext
      | succ i =>
        rw [Nat.mul_succ] at hi hk' ⊢
        have hpos : 0 < limit * (i + 1) := Nat.mul_pos hlimit i.succ_pos
        have hstep := hrest i k' (by omega) (by
          rw [List.getElem?_drop, ← hk']
          congr 1
          omega)
        rw [hstep, List.drop_drop, Nat.add_comm]
    · intro hall
      have hnext : above keys (next k) = l.drop limit := by
        have hzero := hall 0 k (by omega) (by rw [Nat.zero_add, Nat.mul_one]; exact hk)
        rwa [Nat.zero_add, Nat.mul_one] at hzero
      refine ⟨hnext, (ih _ (by omega) hnext rfl).2 fun i k' hi hk' => ?_⟩
      have hpos : 0 < limit * (i + 1) := Nat.mul_pos hlimit i.succ_pos
      have hstep := hall (i + 1) k' (by rw [Nat.mul_succ]; omega) (by
        rw [List.getElem?_drop] at hk'
        rw [← hk', Nat.mul_succ]
        congr 1
        omega)
      rw [hstep, List.drop_drop, Nat.mul_succ, Nat.add_comm]
  · refine ⟨fun _ i k hi _ => ?_, fun _ => ?_⟩
    · have hle : limit ≤ limit * (i + 1) := Nat.le_mul_of_pos_right _ i.succ_pos
      omega
    · subst hl
      exact .last (Nat.le_of_not_lt hlong)

/-- What lies above the key at a position of a sorted list is what follows it. -/
theorem above_getElem? (hkeys : keys.Pairwise (· < ·)) {n : Nat} (hk : keys[n]? = some k) :
    above keys (some k) = keys.drop (n + 1) := by
  refine eq_of_suffix_of_head? hkeys.nodup (above_suffix hkeys) (List.drop_suffix _ _) ?_
  show (keys.filter (k < ·)).head? = _
  induction keys generalizing n with
  | nil => cases hk
  | cons a keys ih =>
    obtain ⟨ha, hkeys⟩ := List.pairwise_cons.1 hkeys
    cases n with
    | zero =>
      cases hk
      rw [List.filter_cons_of_neg (by simp), List.filter_eq_self.2 fun b hb => by simpa using ha b hb]
      rfl
    | succ n =>
      have hak : a < k := ha k (List.mem_of_getElem? hk)
      rw [List.filter_cons_of_neg (by simpa using hak.le)]
      exact ih hkeys hk

/-- The pages are the whole list exactly when every cursor but the first has the same keys above it as the last key
of the page before. -/
theorem paged_iff (hlimit : 0 < limit) (hkeys : keys.Pairwise (· < ·)) :
    Paged keys limit next none keys ↔
      ∀ i k, limit * (i + 1) < keys.length → keys[limit * (i + 1) - 1]? = some k →
        ∃ c, next k = some c ∧ ∀ x ∈ keys, c < x ↔ k < x := by
  have hall : above keys none = keys := rfl
  rw [paged_above_iff hlimit hkeys hall]
  refine forall₄_congr fun i k hi hk => ?_
  have hpos : 0 < limit * (i + 1) := Nat.mul_pos hlimit i.succ_pos
  have hfollow := above_getElem? hkeys hk
  rw [Nat.sub_add_cancel hpos] at hfollow
  rw [← hfollow]
  cases hnext : next k with
  | none =>
    refine ⟨fun h => ?_, fun ⟨c, hc, _⟩ => by cases hc⟩
    have hmem : k ∈ above keys (some k) := h ▸ List.mem_of_getElem? hk
    exact absurd (List.mem_filter.1 hmem).2 (by simp)
  | some c =>
    constructor
    · intro h
      refine ⟨c, rfl, fun x hx => ?_⟩
      have hmem : x ∈ above keys (some c) ↔ x ∈ above keys (some k) := by rw [h]
      simpa [above, hx] using hmem
    · rintro ⟨c', hc', h⟩
      cases hc'
      exact List.filter_congr fun x hx => by simpa using h x hx

end Paging
