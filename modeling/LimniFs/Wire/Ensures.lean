import LimniFs.Wire.Decodes

/-!
# Ensures — what a parser returns and what it raises

`Ensures E Post p`: every value that `p` returns has `Post`, and every error that it fails with is
in the class `E`.  Unlike `Decodes` it says nothing about the symbols that are consumed, so it also
holds of parsers that accept several encodings of one value.
-/

namespace Wire

variable {τ ε α β σ : Type}

structure Ensures (E : ε → Prop) (Post : α → Prop) (p : Parser τ ε α) : Prop where
  returns : ∀ {c a c'}, p c = .ok (a, c') → Post a
  raises : ∀ {c e}, p c = .error e → E e

namespace Ensures

variable {E : ε → Prop} {P : α → Prop} {p : Parser τ ε α} {f : α → Parser τ ε β}
variable {Q : β → Prop}

theorem weaken {R : α → Prop} (hp : Ensures E P p) (h : ∀ a, P a → R a) :
    Ensures E R p :=
  ⟨fun hok => h _ (hp.returns hok), fun herr => hp.raises herr⟩

theorem pure {a : α} (ha : P a) : Ensures E P (pure a : Parser τ ε α) where
  returns h := by
    cases h
    exact ha
  raises h := by
    cases h

theorem bind (hp : Ensures E P p) (hf : ∀ a, P a → Ensures E Q (f a)) :
    Ensures E Q (p >>= f) where
  returns h := by
    rcases Decodes.of_bind_ok h with ⟨a, c₁, h₁, h₂⟩
    exact (hf a (hp.returns h₁)).returns h₂
  raises {c e} h := by
    -- The error is one of the first step, or the second raised it on a value with `P`.
    cases hpc : p c with
    | error e' =>
        rw [Decodes.bind_error hpc] at h
        cases h
        exact hp.raises hpc
    | ok r =>
        have hok : p c = .ok (r.1, r.2) := hpc
        rw [Decodes.bind_ok hok] at h
        exact (hf r.1 (hp.returns hok)).raises h

theorem raise {e : ε} (he : E e) : Ensures E P (throw e : Parser τ ε α) where
  returns h := by
    cases h
  raises h := by
    cases h
    exact he

/-- The values of a parser that decodes a format are the valid ones. -/
theorem valid {T : ε → Prop} {Valid : α → Prop} {wire : α → List τ} (hp : Ensures E P p)
    (h : Decodes T p Valid wire) : Ensures E Valid p :=
  ⟨fun hok => (h.sound hok).1, fun herr => hp.raises herr⟩

theorem raiseIf {c : Prop} [Decidable c] {e : ε} {q : Unit → Parser τ ε α} (he : c → E e)
    (hq : ¬ c → Ensures E P (q ())) : Ensures E P (raiseIf c e >>= q) := by
  by_cases hc : c
  · refine ⟨?_, ?_⟩
    · intro cur a cur' h
      rw [raiseIf_bind_of_pos hc] at h
      cases h
    · intro cur e' h
      rw [raiseIf_bind_of_pos hc] at h
      cases h
      exact he hc
  · rw [raiseIf_bind_of_not hc]
    exact hq hc

theorem guard {need : Nat} {e : Nat → ε} {q : Unit → Parser τ ε α} (he : ∀ n, E (e n))
    (hq : Ensures E P (q ())) : Ensures E P (checkRemaining need e >>= q) := by
  -- The check returns no value of interest, and raises only `e`.
  apply bind (P := fun _ => True)
  · refine ⟨fun _ => trivial, ?_⟩
    intro c e' h
    unfold checkRemaining at h
    split at h
    · cases h
      exact he _
    · cases h
  · intro u _
    exact hq

theorem mapError {g : ε → ε} (hg : ∀ e, E e → E (g e)) (hp : Ensures E P p) :
    Ensures E P (mapError g p) where
  returns {c a c'} h := by
    cases hpc : p c with
    | error e =>
        simp [Wire.mapError, hpc, Except.mapError] at h
    | ok r =>
        simp only [Wire.mapError, hpc, Except.mapError, Except.ok.injEq] at h
        exact hp.returns (h ▸ hpc)
  raises {c e} h := by
    cases hpc : p c with
    | error e' =>
        simp only [Wire.mapError, hpc, Except.mapError, Except.error.injEq] at h
        exact h ▸ hg e' (hp.raises hpc)
    | ok r =>
        simp [Wire.mapError, hpc, Except.mapError] at h

theorem lift {x : Except ε α} (hok : ∀ a, x = .ok a → P a) (herr : ∀ e, x = .error e → E e) :
    Ensures E P (liftM x : Parser τ ε α) := by
  cases x with
  | error e =>
      refine ⟨?_, ?_⟩
      · intro c a c' h
        cases h
      · intro c e' h
        cases h
        exact herr e rfl
  | ok a =>
      exact pure (hok a rfl)

/-- The slice beside the value adds no error. -/
theorem withSlice (hp : Ensures E P p) : Ensures E (fun r => P r.1) (withSlice p) where
  returns {c r c'} h := by
    cases hpc : p c with
    | error e =>
        simp [Wire.withSlice, hpc, Except.map] at h
    | ok v =>
        simp only [Wire.withSlice, hpc, Except.map, Except.ok.injEq, Prod.mk.injEq] at h
        rcases h with ⟨rfl, -⟩
        exact hp.returns (show p c = .ok (v.1, v.2) from hpc)
  raises {c e} h := by
    cases hpc : p c with
    | error e' =>
        simp only [Wire.withSlice, hpc, Except.map, Except.error.injEq] at h
        exact h ▸ hp.raises hpc
    | ok v =>
        simp [Wire.withSlice, hpc, Except.map] at h

theorem collect {p : Nat → σ → Parser τ ε (α × σ)}
    (hp : ∀ i s, Ensures E (fun r => P r.1) (p i s)) :
    ∀ n i s, Ensures E (fun as => ∀ a ∈ as, P a) (collect p i n s) := by
  intro n
  induction n with
  | zero =>
      intro i s
      exact pure (by simp)
  | succ n ih =>
      intro i s
      apply bind (hp i s)
      rintro ⟨a, s'⟩ ha
      apply bind (ih (i + 1) s')
      intro as has
      exact pure (by simpa using ⟨ha, has⟩)

theorem repeatIndexed {p : Nat → Parser τ ε α} (hp : ∀ i, Ensures E P (p i)) (n i : Nat) :
    Ensures E (fun as => ∀ a ∈ as, P a) (repeatIndexed p i n) := by
  rw [repeatIndexed_eq_collect]
  apply collect
  intro i s
  rw [map_eq_pure_bind]
  exact bind (hp i) fun a ha => pure ha

end Ensures

end Wire
