import LimniFs.Wire.Decodes

/-!
# Fits — parsers that stay within a budget of symbols

`Fits T n p`: the parser `p` consumes at most `n` symbols, and where `n` symbols are left it never
fails with an error of the class `T`, the class of errors that report missing input.
-/

namespace Wire

variable {τ ε α β : Type}

structure Fits (T : ε → Prop) (n : Nat) (p : Parser τ ε α) : Prop where
  leaves : ∀ {c a c'}, p c = .ok (a, c') → c.remainingLen ≤ c'.remainingLen + n
  raises : ∀ {c e}, n ≤ c.remainingLen → p c = .error e → ¬ T e

namespace Fits

variable {T : ε → Prop} {p : Parser τ ε α} {f : α → Parser τ ε β} {m n : Nat}

theorem pure {a : α} : Fits T 0 (pure a : Parser τ ε α) where
  leaves h := by
    cases h
    exact Nat.le_refl _
  raises _ h := by
    cases h

/-- The budgets of two steps add up. -/
theorem bind (hp : Fits T m p) (hf : ∀ a, Fits T n (f a)) : Fits T (n + m) (p >>= f) where
  leaves {c b c'} h := by
    rcases Decodes.of_bind_ok h with ⟨a, c₁, h₁, h₂⟩
    have hle₁ := hp.leaves h₁
    have hle₂ := (hf a).leaves h₂
    omega
  raises {c e} hn h := by
    cases hpc : p c with
    | error e' =>
        rw [Decodes.bind_error hpc] at h
        cases h
        exact hp.raises (by omega) hpc
    | ok r =>
        have hok : p c = .ok (r.1, r.2) := hpc
        rw [Decodes.bind_ok hok] at h
        -- What the first step leaves covers the budget of the second.
        have hle := hp.leaves hok
        exact (hf r.1).raises (by omega) h

theorem raiseIf {c : Prop} [Decidable c] {e : ε} {q : Unit → Parser τ ε α} (he : ¬ T e)
    (hq : Fits T n (q ())) : Fits T n (raiseIf c e >>= q) := by
  by_cases hc : c
  · refine ⟨?_, ?_⟩
    · intro cur a cur' h
      rw [raiseIf_bind_of_pos hc] at h
      cases h
    · intro cur e' _ h
      rw [raiseIf_bind_of_pos hc] at h
      cases h
      exact he
  · rw [raiseIf_bind_of_not hc]
    exact hq

/-- A step that computes without reading. -/
theorem lift {x : Except ε α} (herr : ∀ e, x = .error e → ¬ T e) (hf : ∀ a, Fits T n (f a)) :
    Fits T n ((liftM x : Parser τ ε α) >>= f) := by
  cases x with
  | error e =>
      refine ⟨?_, ?_⟩
      · intro c a c' h
        cases h
      · intro c e' _ h
        cases h
        exact herr e rfl
  | ok a =>
      exact hf a

/-- A read whose symbols are converted. -/
theorem bind_lift {x : α → Except ε β} (hp : Fits T n p) (herr : ∀ a e, x a = .error e → ¬ T e) :
    Fits T n (p >>= fun a => (liftM (x a) : Parser τ ε β)) := by
  rw [← Nat.zero_add n]
  apply hp.bind
  intro a
  have hlift : Fits T 0 ((liftM (x a) : Parser τ ε β) >>= Pure.pure) :=
    lift (herr a) fun _ => pure
  rwa [bind_pure] at hlift

end Fits

end Wire
