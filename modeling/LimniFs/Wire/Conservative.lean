import LimniFs.Wire.Decodes

/-!
# Conservative — size checks that reject nothing new

A size check in front of a loop asks for the symbols that the loop would read at least.  It is
conservative when every run of the loop that succeeds consumes that many: with the check and
without it, the parser returns the same values at the same positions.
-/

namespace Wire

variable {τ ε α β σ : Type}

/-! ## What a parser takes at least -/

/-- Every run of `p` that succeeds consumes at least `n` symbols. -/
def Takes (n : Nat) (p : Parser τ ε α) : Prop :=
  ∀ c a c', p c = .ok (a, c') → c'.buf = c.buf ∧ c.pos + n ≤ c'.pos

namespace Takes

variable {m n : Nat} {p : Parser τ ε α} {f : α → Parser τ ε β}

theorem of_decodes {T : ε → Prop} {Valid : α → Prop} {wire : α → List τ}
    (h : Decodes T p Valid wire) (hlen : ∀ a, Valid a → n ≤ (wire a).length) : Takes n p := by
  intro c a c' hp
  rcases h.sound hp with ⟨ha, hc⟩
  have hpos := hc.pos_eq
  have hn := hlen a ha
  exact ⟨hc.1, by omega⟩

theorem pure (a : α) : Takes 0 (pure a : Parser τ ε α) := by
  intro c b c' h
  cases h
  exact ⟨rfl, Nat.le_refl _⟩

theorem lift (x : Except ε α) : Takes 0 (liftM x : Parser τ ε α) := by
  cases x with
  | error e =>
      intro c b c' h
      cases h
  | ok a =>
      exact pure a

theorem bind (hp : Takes m p) (hf : ∀ a, Takes n (f a)) : Takes (m + n) (p >>= f) := by
  intro c b c' h
  rcases Decodes.of_bind_ok h with ⟨a, c₁, h₁, h₂⟩
  rcases hp c a c₁ h₁ with ⟨hbuf₁, hpos₁⟩
  rcases hf a c₁ b c' h₂ with ⟨hbuf₂, hpos₂⟩
  exact ⟨hbuf₂.trans hbuf₁, by omega⟩

/-- What follows a parser takes nothing away from what it took. -/
theorem bind_left (hp : Takes m p) (hf : ∀ a, Takes 0 (f a)) : Takes m (p >>= f) :=
  hp.bind hf

theorem bind_right (hp : Takes 0 p) (hf : ∀ a, Takes n (f a)) : Takes n (p >>= f) := by
  have h := hp.bind hf
  rwa [Nat.zero_add] at h

theorem weaken (hp : Takes n p) (h : m ≤ n) : Takes m p := by
  intro c a c' hok
  rcases hp c a c' hok with ⟨hbuf, hpos⟩
  exact ⟨hbuf, by omega⟩

theorem raiseIf (c : Prop) [Decidable c] (e : ε) : Takes 0 (raiseIf c e : Parser τ ε Unit) := by
  unfold Wire.raiseIf
  split
  · intro cur u cur' h
    cases h
  · exact pure ()

theorem mapError (g : ε → ε) (hp : Takes n p) : Takes n (mapError g p) := by
  intro c a c' h
  cases hpc : p c with
  | error e =>
      simp [Wire.mapError, hpc, Except.mapError] at h
  | ok r =>
      simp only [Wire.mapError, hpc, Except.mapError, Except.ok.injEq] at h
      exact hp c a c' (h ▸ hpc)

/-- Rounds that take `width` symbols each take that many times the number of rounds. -/
theorem collect {width : Nat} {p : Nat → σ → Parser τ ε (α × σ)}
    (hp : ∀ i s, Takes width (p i s)) :
    ∀ n i s, Takes (n * width) (collect p i n s) := by
  intro n
  induction n with
  | zero =>
      intro i s
      rw [Nat.zero_mul]
      exact pure []
  | succ n ih =>
      intro i s
      rw [Nat.succ_mul, Nat.add_comm]
      apply bind (hp i s)
      rintro ⟨a, s'⟩
      apply bind_left (ih (i + 1) s')
      intro as
      exact pure (a :: as)

theorem repeatIndexed {width : Nat} {p : Nat → Parser τ ε α} (hp : ∀ i, Takes width (p i))
    (n i : Nat) : Takes (n * width) (repeatIndexed p i n) := by
  rw [repeatIndexed_eq_collect]
  apply collect
  intro i s
  rw [map_eq_pure_bind]
  exact (hp i).bind_left fun a => pure (a, s)

end Takes

/-! ## Parsers with the same results -/

/-- `p` and `q` return the same values at the same positions; their errors may differ. -/
def SameResults (p q : Parser τ ε α) : Prop :=
  ∀ c a c', p c = .ok (a, c') ↔ q c = .ok (a, c')

namespace SameResults

theorem refl (p : Parser τ ε α) : SameResults p p :=
  fun _ _ _ => Iff.rfl

theorem symm {p q : Parser τ ε α} (h : SameResults p q) : SameResults q p :=
  fun c a c' => (h c a c').symm

theorem bind {p q : Parser τ ε α} {f g : α → Parser τ ε β} (hp : SameResults p q)
    (hf : ∀ a, SameResults (f a) (g a)) : SameResults (p >>= f) (q >>= g) := by
  -- One direction is enough, for all parsers: the other one is its mirror image.
  have hstep : ∀ {p q : Parser τ ε α} {f g : α → Parser τ ε β}, SameResults p q →
      (∀ a, SameResults (f a) (g a)) → ∀ c b c', (p >>= f) c = .ok (b, c') →
        (q >>= g) c = .ok (b, c') := by
    intro p q f g hp hf c b c' h
    rcases Decodes.of_bind_ok h with ⟨a, c₁, h₁, h₂⟩
    rw [Decodes.bind_ok ((hp c a c₁).1 h₁)]
    exact (hf a c₁ b c').1 h₂
  intro c b c'
  exact ⟨hstep hp hf c b c', hstep hp.symm (fun a => (hf a).symm) c b c'⟩

/-- Two parsers that begin alike. -/
theorem after (p : Parser τ ε α) {f g : α → Parser τ ε β} (hf : ∀ a, SameResults (f a) (g a)) :
    SameResults (p >>= f) (p >>= g) :=
  (refl p).bind hf

/-- Two parsers that end alike. -/
theorem before {p q : Parser τ ε α} (hp : SameResults p q) (f : α → Parser τ ε β) :
    SameResults (p >>= f) (q >>= f) :=
  hp.bind fun a => refl (f a)

theorem collect {p q : Nat → σ → Parser τ ε (α × σ)} (h : ∀ i s, SameResults (p i s) (q i s)) :
    ∀ n i s, SameResults (collect p i n s) (collect q i n s) := by
  intro n
  induction n with
  | zero =>
      intro i s
      exact refl _
  | succ n ih =>
      intro i s
      apply (h i s).bind
      rintro ⟨a, s'⟩
      exact (ih (i + 1) s').before _

theorem repeatIndexed {p q : Nat → Parser τ ε α} (h : ∀ i, SameResults (p i) (q i)) (n i : Nat) :
    SameResults (repeatIndexed p i n) (repeatIndexed q i n) := by
  rw [repeatIndexed_eq_collect, repeatIndexed_eq_collect]
  apply collect
  intro i s
  rw [map_eq_pure_bind, map_eq_pure_bind]
  exact (h i).before _

end SameResults

/-! ## The size check -/

/-- Whether the size check in front of a loop is made. -/
inductive SizeCheck
  | made
  | removed
  deriving DecidableEq, Repr

def SizeCheck.run (check : SizeCheck) (need : Nat) (e : Nat → ε) : Parser τ ε Unit :=
  match check with
  | .made => checkRemaining need e
  | .removed => pure ()

/-- A check for what the parser behind it takes anyway stops no run that succeeds. -/
theorem SameResults.sizeCheck {need : Nat} {e : Nat → ε} {p q : Unit → Parser τ ε α}
    (check : SizeCheck) (htakes : Takes need (p ())) (h : SameResults (p ()) (q ())) :
    SameResults (checkRemaining need e >>= p) (check.run need e >>= q) := by
  have hmade : ∀ {q : Unit → Parser τ ε α}, Takes need (q ()) →
      SameResults (checkRemaining need e >>= q) (q ()) := by
    intro q hq c a c'
    by_cases hshort : c.remainingLen < need
    -- The check fires; without it the parser would run out of the buffer.
    · have hfail : checkRemaining need e c = .error (e c.remainingLen) := by
        simp [checkRemaining, hshort]
      rw [Decodes.bind_error hfail]
      constructor
      · intro hok
        cases hok
      · intro hok
        rcases hq c a c' hok with ⟨hbuf, hpos⟩
        have hbound := c'.inBounds
        rw [hbuf] at hbound
        rw [Cursor.remainingLen] at hshort
        omega
    · have hpass : checkRemaining need e c = .ok ((), c) := by
        simp [checkRemaining, hshort]
      rw [Decodes.bind_ok hpass]
  have htakes' : Takes need (q ()) := fun c a c' hok => htakes c a c' ((h c a c').2 hok)
  intro c a c'
  rw [hmade htakes c a c', h c a c']
  cases check with
  | made =>
      exact (hmade htakes' c a c').symm
  | removed =>
      exact Iff.rfl

end Wire
