import XianAbci.Lib.Exactly

/-!
# What a program leaves

`Leaves m I J` says of a program with a state and errors that a run from a state with `I` that succeeds leaves
a result and a state with `J`; when it succeeds is left open.
-/

variable {σ ε α β : Type} {I I' : σ → Prop} {J J' : α → σ → Prop} {K : β → σ → Prop}

def Leaves (m : StateT σ (Except ε) α) (I : σ → Prop) (J : α → σ → Prop) : Prop :=
  ∀ s, I s → ∀ a s', m s = .ok (a, s') → J a s'

namespace Leaves

theorem pure {a : α} (h : ∀ s, I s → J a s) : Leaves (Pure.pure a : StateT σ (Except ε) α) I J := by
  intro s hs b s' hb
  obtain ⟨rfl, rfl⟩ := Prod.mk.inj (Except.ok.inj hb)
  exact h _ hs

theorem bind {m : StateT σ (Except ε) α} {f : α → StateT σ (Except ε) β} (hm : Leaves m I J)
    (hf : ∀ a, Leaves (f a) (J a) K) : Leaves (m >>= f) I K := by
  intro s hs b s'' hb
  obtain ⟨a, s', ha, hb⟩ := Exactly.bind_ok.1 hb
  exact hf a s' (hm s hs a s' ha) b s'' hb

/-- A value that may fail to exist, and what is done with it. -/
theorem lift_bind {e : Except ε α} {f : α → StateT σ (Except ε) β} (hf : ∀ a, e = .ok a → Leaves (f a) I K) :
    Leaves (StateT.lift e >>= f) I K := by
  rcases e with e | a
  · intro s _ b s' hb
    obtain ⟨_, _, hlift, -⟩ := Exactly.bind_ok.1 hb
    cases hlift
  · refine bind (J := fun b s => b = a ∧ I s) (fun s hs b s' hb => ?_) fun b s hs => ?_
    · obtain ⟨rfl, rfl⟩ := Prod.mk.inj (Except.ok.inj hb)
      exact ⟨rfl, hs⟩
    · obtain ⟨rfl, hs⟩ := hs
      exact hf _ rfl s hs

theorem conseq {m : StateT σ (Except ε) α} (h : Leaves m I J) (hI : ∀ s, I' s → I s) (hJ : ∀ a s, J a s → J' a s) :
    Leaves m I' J' := fun s hs a s' ha => hJ a s' (h s (hI s hs) a s' ha)

theorem ite {p : Prop} [Decidable p] {m n : StateT σ (Except ε) α} (hm : p → Leaves m I J) (hn : ¬ p → Leaves n I J) :
    Leaves (if p then m else n) I J := by
  by_cases hp : p
  · rw [if_pos hp]
    exact hm hp
  · rw [if_neg hp]
    exact hn hp

/-- A loop, with an invariant about the items that are done. -/
theorem forM_prefix {γ : Type} {l : List γ} {f : γ → StateT σ (Except ε) PUnit} {I : List γ → σ → Prop}
    (h : ∀ pre x post, l = pre ++ x :: post → Leaves (f x) (I pre) fun _ => I (pre ++ [x])) :
    Leaves (l.forM f) (I []) fun _ => I l := by
  have hloop : ∀ todo pre, l = pre ++ todo → Leaves (todo.forM f) (I pre) fun _ => I l := by
    intro todo
    induction todo with
    | nil =>
      intro pre hl
      refine pure fun s hs => ?_
      rwa [hl, List.append_nil]
    | cons x todo ih =>
      intro pre hl
      exact bind (h pre x todo hl) fun _ => ih (pre ++ [x]) (by rw [hl, List.append_assoc]; rfl)
  exact hloop l [] rfl

theorem forM {γ : Type} {l : List γ} {f : γ → StateT σ (Except ε) PUnit} (h : ∀ x ∈ l, Leaves (f x) I fun _ => I) :
    Leaves (l.forM f) I fun _ => I :=
  forM_prefix (I := fun _ => I) fun pre x post hl => h x (by rw [hl]; simp)

end Leaves
