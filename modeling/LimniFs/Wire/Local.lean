import LimniFs.Wire.Reads
import Mathlib.Data.List.Forall2

/-!
# Local — parsers that look no further than they read

`Local p`: a value that the parser `p` returns is read from the symbols that `p` consumes, and in
front of anything else `p` reads the same value from these symbols.  Every `Decodes` parser is
local, and so is what is put together from local parsers, even where a value does not determine its
encoding.  For a counted loop this cuts the input into records, one for each value.
-/

namespace Wire

variable {τ ε α β : Type}

structure Local (p : Parser τ ε α) : Prop where
  consumes : ∀ {c a c'}, p c = .ok (a, c') → ∃ xs, c.Consumes xs c' ∧ Reads p xs a

/-- The record `xs` as a whole is read as `a`. -/
def ReadsWhole (p : Parser τ ε α) (xs : List τ) (a : α) : Prop :=
  ∃ c, p (.start xs) = .ok (a, c) ∧ c.remaining = []

theorem Reads.whole {p : Parser τ ε α} {xs : List τ} {a : α} (h : Reads p xs a) :
    ReadsWhole p xs a := by
  have hstart : (Cursor.start xs).remaining = xs ++ [] := by
    simp
  rcases Cursor.Consumes.of_append hstart with ⟨c, hc, hrem⟩
  exact ⟨c, h _ _ hc, hrem⟩

theorem Decodes.isLocal {T : ε → Prop} {p : Parser τ ε α} {Valid : α → Prop}
    {wire : α → List τ} (h : Decodes T p Valid wire) : Local p where
  consumes {c a c'} hp := by
    rcases h.sound hp with ⟨ha, hc⟩
    exact ⟨wire a, hc, h.reads ha⟩

namespace Local

variable {p : Parser τ ε α} {f : α → Parser τ ε β} {xs : List τ} {a : α}

/-- What is read from a record alone is read from it in front of anything. -/
theorem reads_iff (hp : Local p) : Reads p xs a ↔ ReadsWhole p xs a := by
  constructor
  · exact Reads.whole
  · rintro ⟨c, hrun, hrem⟩
    rcases hp.consumes hrun with ⟨ys, hc, hreads⟩
    -- Nothing remains, so what was consumed is the whole record.
    have hys : xs = ys := by
      simpa [hrem] using hc.2
    exact hys ▸ hreads

theorem pure : Local (pure a : Parser τ ε α) where
  consumes {c b c'} h := by
    cases h
    exact ⟨[], Cursor.Consumes.nil c, Reads.pure⟩

theorem raise {e : ε} : Local (throw e : Parser τ ε α) where
  consumes h := by
    cases h

theorem lift {x : Except ε α} : Local (liftM x : Parser τ ε α) := by
  cases x with
  | error e =>
      exact raise
  | ok a =>
      exact pure

theorem bind (hp : Local p) (hf : ∀ a, Local (f a)) : Local (p >>= f) where
  consumes {c b c'} h := by
    rcases Decodes.of_bind_ok h with ⟨a, c₁, h₁, h₂⟩
    rcases hp.consumes h₁ with ⟨xs, hxs, hreads₁⟩
    rcases (hf a).consumes h₂ with ⟨ys, hys, hreads₂⟩
    exact ⟨xs ++ ys, hxs.trans hys, hreads₁.bind hreads₂⟩

theorem raiseIf {c : Prop} [Decidable c] {e : ε} {q : Unit → Parser τ ε α}
    (hq : ¬ c → Local (q ())) : Local (raiseIf c e >>= q) := by
  by_cases hc : c
  · refine ⟨?_⟩
    intro cur a cur' h
    rw [raiseIf_bind_of_pos hc] at h
    cases h
  · rw [raiseIf_bind_of_not hc]
    exact hq hc

theorem repeatIndexed {p : Nat → Parser τ ε α} (hp : ∀ i, Local (p i)) :
    ∀ n i, Local (Wire.repeatIndexed p i n) := by
  intro n
  induction n with
  | zero =>
      intro i
      exact pure
  | succ n ih =>
      intro i
      exact (hp i).bind fun a => (ih (i + 1)).bind fun as => pure

end Local

/-! ## Counted records -/

/-- Records in a row are read as the list of their values. -/
theorem Reads.records {p : Parser τ ε α} {recs : List (List τ)} {as : List α}
    (h : List.Forall₂ (Reads p) recs as) :
    ∀ i, Reads (Wire.repeatIndexed (fun _ => p) i as.length) recs.flatten as := by
  induction h with
  | nil =>
      intro i
      exact Reads.pure
  | cons hhead _ ih =>
      intro i
      exact hhead.bind (ih (i + 1)).bind_pure

/-- A counted loop reads one record for each value. -/
theorem Local.records {p : Parser τ ε α} (hp : Local p) :
    ∀ {n i c as c'}, Wire.repeatIndexed (fun _ => p) i n c = .ok (as, c') →
      as.length = n ∧ ∃ recs, List.Forall₂ (Reads p) recs as ∧ c.Consumes recs.flatten c' := by
  intro n
  induction n with
  | zero =>
      intro i c as c' h
      cases h
      exact ⟨rfl, [], .nil, Cursor.Consumes.nil c⟩
  | succ n ih =>
      intro i c as c' h
      -- The first round reads the head, the rounds after it the tail.
      rcases Decodes.of_bind_ok h with ⟨a, c₁, h₁, h⟩
      rcases Decodes.of_bind_ok h with ⟨as', c₂, h₂, h⟩
      cases h
      rcases hp.consumes h₁ with ⟨xs, hxs, hreads⟩
      rcases ih h₂ with ⟨hlen, recs, hrecs, hconsumes⟩
      exact ⟨by rw [List.length_cons, hlen], xs :: recs, .cons hreads hrecs,
        hxs.trans hconsumes⟩

end Wire
