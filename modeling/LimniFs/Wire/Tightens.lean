import LimniFs.Wire.Recognizes

/-!
# Tightens — parsers that differ in a limit

A parser with a lower limit does what the parser with the higher one does, or it raises an error of
its own: it never reads another value and never stops at another place.  Where both decode the same
encodings, the values that it refuses are the ones outside the lower limit.
-/

namespace Wire

variable {τ ε α β σ : Type}

/-- Wherever `p` does not do what `q` does, it raises an error of the kind `E`. -/
def Tightens (E : ε → Prop) (p q : Parser τ ε α) : Prop :=
  ∀ c, p c = q c ∨ ∃ e, E e ∧ p c = .error e

namespace Tightens

variable {E : ε → Prop} {p q : Parser τ ε α} {f g : α → Parser τ ε β}

theorem refl (p : Parser τ ε α) : Tightens E p p :=
  fun _ => .inl rfl

theorem bind (hp : Tightens E p q) (hf : ∀ a, Tightens E (f a) (g a)) :
    Tightens E (p >>= f) (q >>= g) := by
  intro c
  rcases hp c with hsame | ⟨e, he, hraise⟩
  · cases hq : q c with
    | error e =>
        left
        rw [Decodes.bind_error (hsame.trans hq), Decodes.bind_error hq]
    | ok r =>
        rcases r with ⟨a, c'⟩
        rw [Decodes.bind_ok (hsame.trans hq), Decodes.bind_ok hq]
        exact hf a c'
  · exact .inr ⟨e, he, Decodes.bind_error hraise⟩

/-- Two parsers that begin alike. -/
theorem after (p : Parser τ ε α) (hf : ∀ a, Tightens E (f a) (g a)) :
    Tightens E (p >>= f) (p >>= g) :=
  (refl p).bind hf

/-- Two parsers that end alike. -/
theorem before (hp : Tightens E p q) (f : α → Parser τ ε β) : Tightens E (p >>= f) (q >>= f) :=
  hp.bind fun a => refl (f a)

/-- The limit itself: what exceeds the higher one exceeds the lower one. -/
theorem raiseIf {c d : Prop} [Decidable c] [Decidable d] {e e' : ε} (h : d → c) (he : E e) :
    Tightens E (raiseIf c e : Parser τ ε Unit) (raiseIf d e') := by
  intro cursor
  unfold Wire.raiseIf
  by_cases hc : c
  · rw [if_pos hc]
    exact .inr ⟨e, he, rfl⟩
  · rw [if_neg hc, if_neg fun hd => hc (h hd)]
    exact .inl rfl

theorem ite {c : Prop} [Decidable c] {p' q' : Parser τ ε α} (hp : Tightens E p q)
    (hq : Tightens E p' q') : Tightens E (if c then p else p') (if c then q else q') := by
  split
  · exact hp
  · exact hq

theorem mapError {g : ε → ε} (hg : ∀ e, E e → E (g e)) (hp : Tightens E p q) :
    Tightens E (mapError g p) (mapError g q) := by
  intro c
  rcases hp c with hsame | ⟨e, he, hraise⟩
  · left
    simp only [Wire.mapError, hsame]
  · right
    refine ⟨g e, hg e he, ?_⟩
    simp only [Wire.mapError, hraise]
    rfl

theorem collect {p q : Nat → σ → Parser τ ε (α × σ)} (h : ∀ i s, Tightens E (p i s) (q i s)) :
    ∀ n i s, Tightens E (collect p i n s) (collect q i n s) := by
  intro n
  induction n with
  | zero =>
      intro i s
      exact refl _
  | succ n ih =>
      intro i s
      apply (h i s).bind
      rintro ⟨a, s'⟩
      exact (ih (i + 1) s').before _

theorem repeatIndexed {p q : Nat → Parser τ ε α} (h : ∀ i, Tightens E (p i) (q i)) (n i : Nat) :
    Tightens E (repeatIndexed p i n) (repeatIndexed q i n) := by
  rw [repeatIndexed_eq_collect, repeatIndexed_eq_collect]
  apply collect
  intro i s
  rw [map_eq_pure_bind, map_eq_pure_bind]
  exact (h i).before _

end Tightens

/-! ## The values inside the limit -/

/-- `p` accepts of what `q` accepts the values `Within` its limit, raises an error of the kind `E`
on the others, and tightens `q` everywhere else. -/
structure Restricts (E : ε → Prop) (Within : α → Prop) (p q : Parser τ ε α) : Prop where
  tightens : Tightens E p q
  accepts_iff : ∀ c a c', p c = .ok (a, c') ↔ q c = .ok (a, c') ∧ Within a
  refuses : ∀ c a c', q c = .ok (a, c') → ¬ Within a → ∃ e, E e ∧ p c = .error e

theorem Tightens.restricts {E : ε → Prop} {Within : α → Prop} {p q : Parser τ ε α}
    (h : Tightens E p q) (hiff : ∀ c a c', p c = .ok (a, c') ↔ q c = .ok (a, c') ∧ Within a) :
    Restricts E Within p q := by
  refine ⟨h, hiff, fun c a c' hq ha => ?_⟩
  rcases h c with hsame | hraise
  · exact absurd ((hiff c a c').1 (hsame.trans hq)).2 ha
  · exact hraise

/-- Two recognizers of the same encodings, one of them for the values within the limit. -/
theorem Recognizes.restricts {T E : ε → Prop} {Within : α → Prop} {p q : Parser τ ε α}
    {F G : α → List τ → Prop} (hp : Recognizes T p F) (hq : Recognizes T q G)
    (h : Tightens E p q) (hFG : ∀ a xs, F a xs ↔ G a xs ∧ Within a) :
    Restricts E Within p q := by
  refine h.restricts fun c a c' => ?_
  constructor
  · intro hpa
    rcases hp.sound hpa with ⟨xs, hF, hc⟩
    rcases (hFG a xs).1 hF with ⟨hG, hW⟩
    exact ⟨hq.complete hG hc, hW⟩
  · rintro ⟨hqa, hW⟩
    rcases hq.sound hqa with ⟨xs, hG, hc⟩
    exact hp.complete ((hFG a xs).2 ⟨hG, hW⟩) hc

theorem Decodes.restricts {T E : ε → Prop} {Within V W : α → Prop} {p q : Parser τ ε α}
    {enc : α → List τ} (hp : Decodes T p V enc) (hq : Decodes T q W enc) (h : Tightens E p q)
    (hVW : ∀ a, V a ↔ W a ∧ Within a) : Restricts E Within p q := by
  refine (Recognizes.of_decodes hp).restricts (Recognizes.of_decodes hq) h fun a xs => ?_
  rw [hVW a]
  exact and_right_comm

end Wire
