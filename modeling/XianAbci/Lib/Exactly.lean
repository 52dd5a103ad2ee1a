import Mathlib.Data.List.Basic

/-!
# Programs that succeed under an exact condition

`Exactly m I c J` says of a program with a state and errors: from a state with `I` it succeeds exactly when
`c` holds, and then it leaves a result and a state with `J`. The rules compose such statements; unlike those
of a triple they keep both directions, so a whole program ends up with the exact condition of its success.
-/

variable {σ ε α β : Type} {I I' : σ → Prop} {c c' d : Prop} {J J' : α → σ → Prop} {K : β → σ → Prop}

structure Exactly (m : StateT σ (Except ε) α) (I : σ → Prop) (c : Prop) (J : α → σ → Prop) : Prop where
  succeeds : ∀ s, I s → ((∃ r, m s = .ok r) ↔ c)
  leaves : ∀ s, I s → ∀ a s', m s = .ok (a, s') → J a s'

namespace Exactly

theorem pure {a : α} (h : ∀ s, I s → J a s) : Exactly (Pure.pure a : StateT σ (Except ε) α) I True J where
  succeeds s _ := ⟨fun _ => trivial, fun _ => ⟨(a, s), rfl⟩⟩
  leaves s hs b s' hb := by
    obtain ⟨rfl, rfl⟩ := Prod.mk.inj (Except.ok.inj hb)
    exact h _ hs

theorem bind_ok {m : StateT σ (Except ε) α} {f : α → StateT σ (Except ε) β} {s : σ} {r : β × σ} :
    (m >>= f) s = .ok r ↔ ∃ a s', m s = .ok (a, s') ∧ f a s' = .ok r := by
  show (m s >>= fun p => f p.1 p.2) = _ ↔ _
  rcases m s with e | ⟨a, s'⟩
  · constructor
    · intro h
      cases h
    · rintro ⟨_, _, h, _⟩
      cases h
  · constructor
    · intro h
      exact ⟨a, s', rfl, h⟩
    · rintro ⟨_, _, hm, hf⟩
      obtain ⟨rfl, rfl⟩ := Prod.mk.inj (Except.ok.inj hm)
      exact hf

/-- What comes later may use the condition of what came before. -/
theorem bind {m : StateT σ (Except ε) α} {f : α → StateT σ (Except ε) β} (hm : Exactly m I c J)
    (hf : c → ∀ a, Exactly (f a) (J a) d K) : Exactly (m >>= f) I (c ∧ d) K where
  succeeds s hs := by
    constructor
    · rintro ⟨r, hr⟩
      obtain ⟨a, s', ha, hr⟩ := bind_ok.1 hr
      have hc : c := (hm.succeeds s hs).1 ⟨_, ha⟩
      exact ⟨hc, ((hf hc a).succeeds s' (hm.leaves s hs a s' ha)).1 ⟨r, hr⟩⟩
    · rintro ⟨hc, hd⟩
      obtain ⟨⟨a, s'⟩, ha⟩ := (hm.succeeds s hs).2 hc
      obtain ⟨r, hr⟩ := ((hf hc a).succeeds s' (hm.leaves s hs a s' ha)).2 hd
      exact ⟨r, bind_ok.2 ⟨a, s', ha, hr⟩⟩
  leaves s hs b s'' hb := by
    obtain ⟨a, s', ha, hb⟩ := bind_ok.1 hb
    have hc : c := (hm.succeeds s hs).1 ⟨_, ha⟩
    exact (hf hc a).leaves s' (hm.leaves s hs a s' ha) b s'' hb

/-- A value that may fail to exist, and what is done with it. -/
theorem lift_bind {e : Except ε α} {f : α → StateT σ (Except ε) β} {d : α → Prop}
    (hf : ∀ a, e = .ok a → Exactly (f a) I (d a) K) :
    Exactly (StateT.lift e >>= f) I (∃ a, e = .ok a ∧ d a) K := by
  have hlift : ∀ s r, (StateT.lift e >>= f) s = .ok r ↔ ∃ a, e = .ok a ∧ f a s = .ok r := by
    intro s r
    rw [bind_ok]
    rcases e with e | a
    · constructor
      · rintro ⟨_, _, h, _⟩
        cases h
      · rintro ⟨_, h, _⟩
        cases h
    · constructor
      · rintro ⟨_, _, h, hr⟩
        obtain ⟨rfl, rfl⟩ := Prod.mk.inj (Except.ok.inj h)
        exact ⟨_, rfl, hr⟩
      · rintro ⟨_, h, hr⟩
        obtain rfl := Except.ok.inj h
        exact ⟨_, _, rfl, hr⟩
  constructor
  · intro s hs
    constructor
    · rintro ⟨r, hr⟩
      obtain ⟨a, ha, hr⟩ := (hlift s r).1 hr
      exact ⟨a, ha, ((hf a ha).succeeds s hs).1 ⟨r, hr⟩⟩
    · rintro ⟨a, ha, hd⟩
      obtain ⟨r, hr⟩ := ((hf a ha).succeeds s hs).2 hd
      exact ⟨r, (hlift s r).2 ⟨a, ha, hr⟩⟩
  · intro s hs b s' hb
    obtain ⟨a, ha, hb⟩ := (hlift s _).1 hb
    exact (hf a ha).leaves s hs b s' hb

theorem conseq {m : StateT σ (Except ε) α} (h : Exactly m I c J) (hI : ∀ s, I' s → I s) (hc : c ↔ c')
    (hJ : ∀ a s, J a s → J' a s) : Exactly m I' c' J' where
  succeeds s hs := (h.succeeds s (hI s hs)).trans hc
  leaves s hs a s' ha := hJ a s' (h.leaves s (hI s hs) a s' ha)

theorem iff {m : StateT σ (Except ε) α} (h : Exactly m I c J) (hc : c ↔ c') : Exactly m I c' J :=
  h.conseq (fun _ => id) hc fun _ _ => id

/-- A result that nobody reads. -/
theorem discard {m : StateT σ (Except ε) α} {I' : σ → Prop} (h : Exactly m I c fun _ => I') :
    Exactly (m >>= fun _ => Pure.pure PUnit.unit) I c fun _ => I' :=
  (bind h fun _ _ => pure fun _ => id).iff (and_iff_left trivial)

theorem ite {p : Prop} [Decidable p] {m n : StateT σ (Except ε) α} (hm : p → Exactly m I c J)
    (hn : ¬ p → Exactly n I d J) : Exactly (if p then m else n) I (if p then c else d) J := by
  by_cases hp : p
  · rw [if_pos hp, if_pos hp]
    exact hm hp
  · rw [if_neg hp, if_neg hp]
    exact hn hp

/-- A loop, with an invariant about the items that are done. -/
theorem forM_prefix {γ : Type} {l : List γ} {f : γ → StateT σ (Except ε) PUnit} {I : List γ → σ → Prop}
    {c : List γ → γ → Prop}
    (h : ∀ pre x post, l = pre ++ x :: post → Exactly (f x) (I pre) (c pre x) fun _ => I (pre ++ [x])) :
    Exactly (l.forM f) (I []) (∀ pre x post, l = pre ++ x :: post → c pre x) fun _ => I l := by
  have hloop : ∀ todo pre, l = pre ++ todo → Exactly (todo.forM f) (I pre)
      (∀ mid x post, todo = mid ++ x :: post → c (pre ++ mid) x) fun _ => I l := by
    intro todo
    induction todo with
    | nil =>
      intro pre hl
      refine (pure fun s hs => ?_).iff (iff_of_true trivial fun mid x post hnil => by simp at hnil)
      rwa [hl, List.append_nil]
    | cons x todo ih =>
      intro pre hl
      have hrest := ih (pre ++ [x]) (by rw [hl, List.append_assoc]; rfl)
      show Exactly (f x >>= fun _ => todo.forM f) _ _ _
      refine (bind (h pre x todo hl) fun _ _ => hrest).iff ?_
      constructor
      · rintro ⟨hx, htodo⟩ mid y post hcons
        rcases mid with _ | ⟨z, mid⟩
        · obtain ⟨rfl, rfl⟩ := List.cons.inj hcons
          rwa [List.append_nil]
        · obtain ⟨rfl, rfl⟩ := List.cons.inj hcons
          have hy := htodo mid y post rfl
          rwa [List.append_assoc] at hy
      · intro hall
        refine ⟨?_, fun mid y post htodo => ?_⟩
        · have hx := hall [] x todo rfl
          rwa [List.append_nil] at hx
        · have hy := hall (x :: mid) y post (by rw [htodo]; rfl)
          rw [List.append_assoc]
          exact hy
  have hall := hloop l [] rfl
  simp only [List.nil_append] at hall
  exact hall

theorem forM {γ : Type} {l : List γ} {f : γ → StateT σ (Except ε) PUnit} {c : γ → Prop}
    (h : ∀ x ∈ l, Exactly (f x) I (c x) fun _ => I) : Exactly (l.forM f) I (∀ x ∈ l, c x) fun _ => I := by
  have hloop : Exactly (l.forM f) I (∀ pre x post, l = pre ++ x :: post → c x) fun _ => I :=
    forM_prefix (I := fun _ => I) fun pre x post hl => h x (by rw [hl]; simp)
  refine hloop.iff ⟨fun hall x hx => ?_, fun hall pre x post hl => hall x (by rw [hl]; simp)⟩
  obtain ⟨pre, post, hl⟩ := List.append_of_mem hx
  exact hall pre x post hl

end Exactly
