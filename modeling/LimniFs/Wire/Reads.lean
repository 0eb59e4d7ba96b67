import LimniFs.Wire.Decodes

/-!
# Reads — one encoding of one value

`Reads p xs a`: standing in front of the symbols `xs`, the parser `p` returns `a` and stops behind
them.  It is the completeness half of `Decodes` for a single value, for parsers whose value does
not determine its encoding.
-/

namespace Wire

variable {τ ε α β σ : Type}

def Reads (p : Parser τ ε α) (xs : List τ) (a : α) : Prop :=
  ∀ c c', c.Consumes xs c' → p c = .ok (a, c')

theorem Decodes.reads {T : ε → Prop} {p : Parser τ ε α} {Valid : α → Prop} {wire : α → List τ}
    (h : Decodes T p Valid wire) {a : α} (ha : Valid a) : Reads p (wire a) a :=
  fun _ _ hc => h.complete ha hc

namespace Reads

variable {p : Parser τ ε α} {f : α → Parser τ ε β} {xs ys : List τ} {a : α} {b : β}

theorem bind (hp : Reads p xs a) (hf : Reads (f a) ys b) : Reads (p >>= f) (xs ++ ys) b := by
  intro c c' hc
  rcases hc.split with ⟨c₁, h₁, h₂⟩
  rw [Decodes.bind_ok (hp c c₁ h₁)]
  exact hf c₁ c' h₂

theorem pure : Reads (pure a : Parser τ ε α) [] a := by
  intro c c' hc
  rw [hc.eq_of_nil]
  rfl

/-- The last read of a parser, with nothing read behind it. -/
theorem bind_nil (hp : Reads p xs a) (hf : Reads (f a) [] b) : Reads (p >>= f) xs b := by
  have h := hp.bind hf
  rwa [List.append_nil] at h

theorem bind_pure {g : α → β} (hp : Reads p xs a) :
    Reads (p >>= fun a => Pure.pure (g a)) xs (g a) :=
  hp.bind_nil pure

theorem raiseIf {c : Prop} [Decidable c] {e : ε} {q : Unit → Parser τ ε α} (hc : ¬ c)
    (hq : Reads (q ()) xs a) : Reads (raiseIf c e >>= q) xs a := by
  rw [raiseIf_bind_of_not hc]
  exact hq

/-- A step that computes without reading. -/
theorem lift {x : Except ε α} (hx : x = .ok a) (hf : Reads (f a) ys b) :
    Reads ((liftM x : Parser τ ε α) >>= f) ys b := by
  subst hx
  exact hf

theorem repeatIndexed {p : Nat → Parser τ ε α} {wire : α → List τ} {as : List α}
    (hp : ∀ i, ∀ a ∈ as, Reads (p i) (wire a) a) :
    ∀ i, Reads (repeatIndexed p i as.length) (as.flatMap wire) as := by
  -- The index moves with the list, so the induction is over the list for every start index.
  induction as with
  | nil =>
      intro i
      exact pure
  | cons a as ih =>
      intro i
      have hrest := ih (fun j b hb => hp j b (List.mem_cons_of_mem _ hb)) (i + 1)
      exact (hp i a List.mem_cons_self).bind hrest.bind_pure

end Reads

end Wire
