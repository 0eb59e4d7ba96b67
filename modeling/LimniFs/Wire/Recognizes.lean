import LimniFs.Wire.Local

/-!
# Recognizes — parsers whose values have several encodings

`Recognizes T p Encodes`: the parser `p` reads the symbols `xs` as `a` exactly when `Encodes a xs`,
and it runs short of input inside them.  A `Decodes` parser is the case of one encoding for each
value, and a parser that drops something it has read maps the value of one that keeps it.
-/

namespace Wire

variable {τ ε α β : Type}

structure Recognizes (T : ε → Prop) (p : Parser τ ε α) (Encodes : α → List τ → Prop) : Prop where
  sound : ∀ {c a c'}, p c = .ok (a, c') → ∃ xs, Encodes a xs ∧ c.Consumes xs c'
  complete : ∀ {c a c' xs}, Encodes a xs → c.Consumes xs c' → p c = .ok (a, c')
  truncated : ∀ {c a xs}, Encodes a xs → c.remaining <+: xs → c.remaining ≠ xs →
    ∃ e, T e ∧ p c = .error e

variable {T : ε → Prop} {p : Parser τ ε α} {q : Parser τ ε β}

theorem map_eq_ok_iff {g : β → α} {c c' : Cursor τ} {a : α} :
    (g <$> q) c = .ok (a, c') ↔ ∃ b, q c = .ok (b, c') ∧ g b = a := by
  rw [map_eq_pure_bind]
  constructor
  · intro h
    rcases Decodes.of_bind_ok h with ⟨b, c₁, hq, hpure⟩
    cases hpure
    exact ⟨b, hq, rfl⟩
  · rintro ⟨b, hq, rfl⟩
    rw [Decodes.bind_ok hq]
    rfl

/-- A parser that keeps of a decoded value only its image. -/
theorem Decodes.image {Valid : β → Prop} {wire : β → List τ} (h : Decodes T q Valid wire)
    (g : β → α) : Recognizes T (g <$> q) (fun a xs => ∃ b, Valid b ∧ g b = a ∧ wire b = xs) where
  sound hp := by
    rcases map_eq_ok_iff.1 hp with ⟨b, hq, hb⟩
    rcases h.sound hq with ⟨hvalid, hc⟩
    exact ⟨wire b, ⟨b, hvalid, hb, rfl⟩, hc⟩
  complete := by
    rintro c a c' xs ⟨b, hvalid, hb, rfl⟩ hc
    exact map_eq_ok_iff.2 ⟨b, h.complete hvalid hc, hb⟩
  truncated := by
    rintro c a xs ⟨b, hvalid, -, rfl⟩ hpre hne
    rcases h.truncated hvalid hpre hne with ⟨e, hT, he⟩
    refine ⟨e, hT, ?_⟩
    rw [map_eq_pure_bind]
    exact Decodes.bind_error he

namespace Recognizes

variable {E F : α → List τ → Prop} {f : α → Parser τ ε β} {G : α → β → List τ → Prop}

theorem congr (h : Recognizes T p F) (heq : ∀ a xs, E a xs ↔ F a xs) : Recognizes T p E := by
  have hEF : E = F := by
    funext a xs
    exact propext (heq a xs)
  rw [hEF]
  exact h

theorem of_decodes {Valid : α → Prop} {wire : α → List τ} (h : Decodes T p Valid wire) :
    Recognizes T p (fun a xs => Valid a ∧ wire a = xs) where
  sound hp := by
    rcases h.sound hp with ⟨hvalid, hc⟩
    exact ⟨_, ⟨hvalid, rfl⟩, hc⟩
  complete := by
    rintro c a c' _ ⟨hvalid, rfl⟩ hc
    exact h.complete hvalid hc
  truncated := by
    rintro c a _ ⟨hvalid, rfl⟩ hpre hne
    exact h.truncated hvalid hpre hne

theorem pure {a : α} : Recognizes T (pure a : Parser τ ε α) (fun b xs => b = a ∧ xs = []) where
  sound {c b c'} hp := by
    cases hp
    exact ⟨[], ⟨rfl, rfl⟩, Cursor.Consumes.nil c⟩
  complete := by
    rintro c b c' _ ⟨rfl, rfl⟩ hc
    rw [hc.eq_of_nil]
    rfl
  truncated := by
    rintro c b _ ⟨-, rfl⟩ hpre hne
    exact absurd (List.prefix_nil.1 hpre) hne

/-- An encoding of what two parsers read is an encoding for the first and one for the second. -/
theorem bind (hp : Recognizes T p E) (hf : ∀ a, Recognizes T (f a) (G a)) :
    Recognizes T (p >>= f) (fun b zs => ∃ a xs ys, E a xs ∧ G a b ys ∧ xs ++ ys = zs) where
  sound {c b c'} h := by
    rcases Decodes.of_bind_ok h with ⟨a, c₁, h₁, h₂⟩
    rcases hp.sound h₁ with ⟨xs, hE, hxs⟩
    rcases (hf a).sound h₂ with ⟨ys, hG, hys⟩
    exact ⟨xs ++ ys, ⟨a, xs, ys, hE, hG, rfl⟩, hxs.trans hys⟩
  complete := by
    rintro c b c' _ ⟨a, xs, ys, hE, hG, rfl⟩ hc
    rcases hc.split with ⟨c₁, hxs, hys⟩
    rw [Decodes.bind_ok (hp.complete hE hxs)]
    exact (hf a).complete hG hys
  truncated := by
    rintro c b _ ⟨a, xs, ys, hE, hG, rfl⟩ hpre hne
    -- The input ends inside what `p` reads, or after it.
    by_cases hin : xs <+: c.remaining
    · rcases Cursor.Consumes.of_isPrefix hin with ⟨c₁, hc₁⟩
      rw [Decodes.bind_ok (hp.complete hE hc₁)]
      rw [hc₁.2] at hpre hne
      refine (hf a).truncated hG ((List.prefix_append_right_inj _).1 hpre) ?_
      intro heq
      exact hne (by rw [heq])
    · have hshort : c.remaining <+: xs := by
        rcases List.prefix_or_prefix_of_prefix hpre (List.prefix_append _ _) with h | h
        · exact h
        · exact absurd h hin
      have hne' : c.remaining ≠ xs := by
        intro heq
        exact hin (heq ▸ List.prefix_refl _)
      rcases hp.truncated hE hshort hne' with ⟨e, hT, he⟩
      exact ⟨e, hT, Decodes.bind_error he⟩

/-- A counted loop reads one encoding after another. -/
theorem repeatIndexed (hp : Recognizes T p E) : ∀ n i,
    Recognizes T (repeatIndexed (fun _ => p) i n)
      (fun as zs => as.length = n ∧ ∃ recs, List.Forall₂ E as recs ∧ recs.flatten = zs) := by
  intro n
  induction n with
  | zero =>
      intro i
      apply pure.congr
      intro as zs
      constructor
      · rintro ⟨hlen, recs, hall, rfl⟩
        rcases List.length_eq_zero_iff.1 hlen with rfl
        cases hall
        exact ⟨rfl, rfl⟩
      · rintro ⟨rfl, rfl⟩
        exact ⟨rfl, [], List.Forall₂.nil, rfl⟩
  | succ n ih =>
      intro i
      apply (hp.bind fun a => (ih (i + 1)).bind fun as => pure).congr
      intro as zs
      constructor
      · rintro ⟨hlen, recs, hall, rfl⟩
        cases hall with
        | nil =>
            cases hlen
        | @cons a xs as recs hhead htail =>
            exact ⟨a, xs, _, hhead, ⟨as, _, [], ⟨Nat.succ.inj hlen, recs, htail, rfl⟩, ⟨rfl, rfl⟩,
              rfl⟩, by simp⟩
      · rintro ⟨a, xs, _, hhead, ⟨as, _, _, ⟨hlen, recs, htail, rfl⟩, ⟨rfl, rfl⟩, rfl⟩, rfl⟩
        exact ⟨congrArg Nat.succ hlen, xs :: recs, List.Forall₂.cons hhead htail, by simp⟩

/-- What is read as a value to the last symbol is an encoding of it. -/
theorem readsWhole_iff (hp : Recognizes T p E) {xs : List τ} {a : α} :
    ReadsWhole p xs a ↔ E a xs := by
  constructor
  · rintro ⟨c, hrun, hrem⟩
    rcases hp.sound hrun with ⟨ys, hE, hc⟩
    have hxs : xs = ys := by
      simpa [hrem] using hc.2
    exact hxs ▸ hE
  · intro hE
    have hreads : Reads p xs a := fun _ _ hc => hp.complete hE hc
    exact hreads.whole

/-- What is read from the start of a buffer, and what is left of it. -/
theorem start_iff (hp : Recognizes T p E) {buf tail : List τ} {a : α} :
    (∃ c, p (.start buf) = .ok (a, c) ∧ c.remaining = tail) ↔ ∃ xs, E a xs ∧ buf = xs ++ tail := by
  constructor
  · rintro ⟨c, hrun, rfl⟩
    rcases hp.sound hrun with ⟨xs, hE, hc⟩
    exact ⟨xs, hE, by simpa using hc.2⟩
  · rintro ⟨xs, hE, rfl⟩
    rcases Cursor.Consumes.of_append (Cursor.remaining_start (xs ++ tail)) with ⟨c, hc, hrem⟩
    exact ⟨c, hp.complete hE hc, hrem⟩

theorem take_raises (hp : Recognizes T p E) {xs : List τ} {a : α} (hE : E a xs) {k : Nat}
    (hk : k < xs.length) : ∃ e, T e ∧ p (.start (xs.take k)) = .error e := by
  apply hp.truncated hE
  · rw [Cursor.remaining_start]
    exact List.take_prefix k xs
  · rw [Cursor.remaining_start]
    intro heq
    have hlen := congrArg List.length heq
    rw [List.length_take] at hlen
    omega

end Recognizes

end Wire
