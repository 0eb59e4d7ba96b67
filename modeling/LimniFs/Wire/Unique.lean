import Mathlib.Data.List.FinRange

/-!
# Unique — the value at the only place with a property

A scan that collects the values of the places with a property, and answers when it has collected
exactly one, is a question about places: two of them count twice even where their values agree.
-/

namespace Wire

variable {α β ι : Type}

/-- There is exactly one place with `P`, and the value there is `b`. -/
def OnlyAt (P : ι → Prop) (f : ι → β) (b : β) : Prop :=
  ∃ i, (P i ∧ f i = b) ∧ ∀ j, P j → j = i

namespace OnlyAt

variable {P Q : ι → Prop} {f : ι → β} {b : β} {i j : ι}

theorem of_unique (hi : P i) (huniq : ∀ j, P j → j = i) : OnlyAt P f (f i) :=
  ⟨i, ⟨hi, rfl⟩, huniq⟩

theorem eq (h : OnlyAt P f b) (hi : P i) (hj : P j) : i = j := by
  rcases h with ⟨k, -, huniq⟩
  exact (huniq i hi).trans (huniq j hj).symm

/-- With more places that have `Q` the answers stay the same, unless `Q` is what decides: a place
with `Q` spoils the only one with `P`, or it is the only one where none has `P`. -/
theorem or_iff (hPQ : ∀ i, P i → ¬ Q i) :
    (∀ b, OnlyAt P f b ↔ OnlyAt (fun i => P i ∨ Q i) f b) ↔
      (∀ i, ¬ Q i) ∨ (∃ i j, i ≠ j ∧ P i ∧ P j) ∨
        (∀ i, ¬ P i) ∧ ∃ i j, i ≠ j ∧ Q i ∧ Q j := by
  constructor
  · intro h
    by_cases hQ : ∀ i, ¬ Q i
    · exact .inl hQ
    rcases not_forall_not.1 hQ with ⟨q, hq⟩
    by_cases hP : ∀ i, ¬ P i
    -- No place has `P`, so more than one has `Q`: one alone would be an answer.
    · by_contra hnone
      have huniq : ∀ j, P j ∨ Q j → j = q := by
        rintro j (hj | hj)
        · exact absurd hj (hP j)
        · by_contra hne
          exact hnone (.inr (.inr ⟨hP, j, q, hne, hj, hq⟩))
      rcases (h (f q)).2 (of_unique (.inr hq) huniq) with ⟨i, ⟨hi, -⟩, -⟩
      exact hP i hi
    -- One place has `P`, and so has another: it alone would stop being the only one.
    · rcases not_forall_not.1 hP with ⟨p, hp⟩
      by_contra hnone
      have huniq : ∀ j, P j → j = p := by
        intro j hj
        by_contra hne
        exact hnone (.inr (.inl ⟨j, p, hne, hj, hp⟩))
      have heq := ((h (f p)).1 (of_unique hp huniq)).eq (.inl hp) (.inr hq)
      exact hPQ p hp (heq ▸ hq)
  · rintro (hQ | ⟨i, j, hne, hi, hj⟩ | ⟨hP, i, j, hne, hi, hj⟩) b
    · have hor : (fun i => P i ∨ Q i) = P := by
        funext i
        simp [hQ i]
      rw [hor]
    -- Two places have `P`, before and after.
    · constructor
      · exact fun h => absurd (h.eq hi hj) hne
      · exact fun h => absurd (h.eq (.inl hi) (.inl hj)) hne
    · constructor
      · rintro ⟨k, ⟨hk, -⟩, -⟩
        exact absurd hk (hP k)
      · exact fun h => absurd (h.eq (.inr hi) (.inr hj)) hne

end OnlyAt

theorem filter_finRange_eq_singleton_iff {n : Nat} {p : Fin n → Bool} {i : Fin n} :
    (List.finRange n).filter p = [i] ↔ p i ∧ ∀ j, p j → j = i := by
  rw [← List.perm_singleton,
    List.perm_ext_iff_of_nodup ((List.nodup_finRange n).filter p) (List.nodup_singleton i)]
  simp only [List.mem_filter, List.mem_finRange, true_and, List.mem_singleton]
  constructor
  · exact fun h => ⟨(h i).2 rfl, fun j => (h j).1⟩
  · rintro ⟨hi, huniq⟩ j
    exact ⟨huniq j, fun heq => heq ▸ hi⟩

/-- The values that a scan collects are one value just when they come from one place. -/
theorem filter_map_eq_singleton_iff {p : α → Bool} {f : α → β} {b : β} {as : List α} :
    (as.filter p).map f = [b] ↔
      OnlyAt (fun i : Fin as.length => p (as.get i)) (fun i => f (as.get i)) b := by
  -- Scan the places instead of the elements.
  have hplaces : (as.filter p).map f =
      ((List.finRange as.length).filter (p ∘ as.get)).map (f ∘ as.get) := by
    conv_lhs => rw [← List.map_get_finRange as]
    rw [List.filter_map, List.map_map]
  rw [hplaces, List.map_eq_singleton_iff]
  constructor
  · rintro ⟨i, hi, rfl⟩
    rcases filter_finRange_eq_singleton_iff.1 hi with ⟨hp, huniq⟩
    exact ⟨i, ⟨hp, rfl⟩, huniq⟩
  · rintro ⟨i, ⟨hp, rfl⟩, huniq⟩
    exact ⟨i, filter_finRange_eq_singleton_iff.2 ⟨hp, huniq⟩, rfl⟩

end Wire
