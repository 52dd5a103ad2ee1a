import Mathlib.Data.List.Basic
import Mathlib.Data.Nat.Basic
import Mathlib.Tactic

/-!
# Codes that can be cut off

A code word followed by anything determines the word and what follows: by itself (`PrefixFree`), up to
a terminator, or by the first letter that no word has. Fixed-width digits are such a code.
-/

variable {α β : Type}

/-- No word is the beginning of another. -/
def PrefixFree (f : α → List β) : Prop := ∀ a b s t, f a ++ s = f b ++ t → a = b ∧ s = t

/-- Words up to a terminator that starts none of them. -/
theorem PrefixFree.flatMap_cancel {f : α → List β} (hf : PrefixFree f) {e : β}
    (he : ∀ a s t, f a ++ s ≠ e :: t) (a b : List α) {s t : List β}
    (h : a.flatMap f ++ e :: s = b.flatMap f ++ e :: t) : a = b ∧ s = t := by
  induction a generalizing b with
  | nil =>
    cases b with
    | nil => exact ⟨rfl, (List.cons.inj h).2⟩
    | cons y b =>
      rw [List.flatMap_cons, List.append_assoc] at h
      exact absurd h.symm (he y _ _)
  | cons x a ih =>
    cases b with
    | nil =>
      rw [List.flatMap_cons, List.append_assoc] at h
      exact absurd h (he x _ _)
    | cons y b =>
      rw [List.flatMap_cons, List.flatMap_cons, List.append_assoc, List.append_assoc] at h
      obtain ⟨rfl, hrest⟩ := hf x y _ _ h
      obtain ⟨rfl, hst⟩ := ih b hrest
      exact ⟨rfl, hst⟩

/-- Words over letters that do not start what follows. -/
theorem takeWhile_cancel {p : β → Bool} {x y s t : List β} (hx : ∀ c ∈ x, p c = true) (hy : ∀ c ∈ y, p c = true)
    (hs : ∀ c ∈ s.head?, p c = false) (ht : ∀ c ∈ t.head?, p c = false) (h : x ++ s = y ++ t) : x = y ∧ s = t := by
  have htake : ∀ {z u : List β}, (∀ c ∈ z, p c = true) → (∀ c ∈ u.head?, p c = false) →
      (z ++ u).takeWhile p = z := by
    intro z u hz hu
    rw [List.takeWhile_append_of_pos hz]
    rcases u with _ | ⟨c, u⟩
    · rw [List.takeWhile_nil, List.append_nil]
    · rw [List.takeWhile_cons_of_neg (by rw [hu c rfl]; exact Bool.false_ne_true), List.append_nil]
  have hxy : x = y := by rw [← htake hx hs, h, htake hy ht]
  subst hxy
  exact ⟨rfl, List.append_cancel_left h⟩

/-! ### Fixed-width digits -/

section Digits

variable {b : Nat} {letter : Nat → β} {digits : Nat → Nat → List β}

theorem length_digits (hzero : ∀ x, digits 0 x = [])
    (hsucc : ∀ n x, digits (n + 1) x = letter (x / b ^ n % b) :: digits n x) (n x : Nat) :
    (digits n x).length = n := by
  induction n with
  | zero => rw [hzero]; rfl
  | succ n ih => rw [hsucc, List.length_cons, ih]

/-- `n` digits in base `b`, each written as a letter of its own. -/
theorem digits_injective (hb : 0 < b) (hletter : ∀ i j, i < b → j < b → letter i = letter j → i = j)
    (hsucc : ∀ n x, digits (n + 1) x = letter (x / b ^ n % b) :: digits n x) (n : Nat) {x y : Nat}
    (h : digits n x = digits n y) : x % b ^ n = y % b ^ n := by
  induction n with
  | zero => rw [pow_zero, Nat.mod_one, Nat.mod_one]
  | succ n ih =>
    rw [hsucc, hsucc] at h
    obtain ⟨hhead, htail⟩ := List.cons.inj h
    have hdigit := hletter _ _ (Nat.mod_lt _ hb) (Nat.mod_lt _ hb) hhead
    rw [Nat.mod_pow_succ, Nat.mod_pow_succ, ih htail, hdigit]

end Digits
