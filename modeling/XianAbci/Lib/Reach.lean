import Mathlib

/-!
# Searching a graph for a fault or a cycle

A search from a node goes wrong when it can reach a fault or a node on a cycle. `Fails` says so about
the graph alone; the lemmas are the steps of a depth-first search: a node fails with a child, and a
node without a fault whose children do not fail does not fail either.
-/

namespace Reach

open Relation

variable {α : Type} {E E' : α → α → Prop} {Fault Fault' : α → Prop} {n m : α}

/-- From `n` one reaches a fault, or a node on a cycle. -/
def Fails (E : α → α → Prop) (Fault : α → Prop) (n : α) : Prop :=
  ∃ x, ReflTransGen E n x ∧ (Fault x ∨ TransGen E x x)

theorem Fails.of_fault (h : Fault n) : Fails E Fault n := ⟨n, .refl, .inl h⟩

theorem Fails.of_cycle (h : TransGen E n n) : Fails E Fault n := ⟨n, .refl, .inr h⟩

theorem Fails.of_edge (he : E n m) (h : Fails E Fault m) : Fails E Fault n := by
  obtain ⟨x, hx, hbad⟩ := h
  exact ⟨x, .head he hx, hbad⟩

/-- A cycle through `n` is also one through the child it takes, so no child can lie on it. -/
theorem not_fails_of_children (hn : ¬ Fault n) (h : ∀ m, E n m → ¬ Fails E Fault m) : ¬ Fails E Fault n := by
  rintro ⟨x, hx, hbad⟩
  rcases hx.cases_head with rfl | ⟨m, hm, hmx⟩
  · rcases hbad with hf | hc
    · exact hn hf
    · obtain ⟨m, hm, hmn⟩ := TransGen.head'_iff.1 hc
      exact h m hm (.of_cycle (TransGen.tail'_iff.2 ⟨_, hmn, hm⟩))
  · exact h m hm ⟨x, hmx, hbad⟩

theorem Fails.mono (hE : ∀ a b, E a b → E' a b) (hF : ∀ a, Fault a → Fault' a) (h : Fails E Fault n) :
    Fails E' Fault' n := by
  obtain ⟨x, hx, hbad⟩ := h
  exact ⟨x, ReflTransGen.mono hE _ _ hx, hbad.imp (hF x) (TransGen.mono hE _ _)⟩

end Reach
