import Mathlib.Data.List.Infix
import Mathlib.Data.List.TakeDrop

/-!
# Chunks — arrays of records of one width

A list of values whose encodings all have the same width, laid out one after another, is what one
finds by cutting the buffer into chunks of that width.
-/

namespace Wire

variable {τ α : Type}

/-- The `i`-th chunk of `width` symbols. -/
def chunk (width : Nat) (xs : List τ) (i : Nat) : List τ :=
  (xs.drop (width * i)).take width

theorem chunk_zero (width : Nat) (xs : List τ) : chunk width xs 0 = xs.take width := by
  simp [chunk]

theorem chunk_succ (width : Nat) (xs : List τ) (i : Nat) :
    chunk width xs (i + 1) = chunk width (xs.drop width) i := by
  rw [chunk, chunk, List.drop_drop, Nat.mul_succ, Nat.add_comm]

/-- A list begins with one that has the width of its first chunk if this chunk is that list. -/
theorem append_isPrefix_iff {width : Nat} {as bs xs : List τ} (has : as.length = width) :
    as ++ bs <+: xs ↔ xs.take width = as ∧ bs <+: xs.drop width := by
  subst has
  constructor
  · rintro ⟨ys, rfl⟩
    rw [List.append_assoc, List.take_left, List.drop_left]
    exact ⟨rfl, List.prefix_append _ _⟩
  · rintro ⟨htake, ys, hdrop⟩
    refine ⟨ys, ?_⟩
    rw [List.append_assoc, hdrop]
    -- Only the `as` on the left is the first chunk; the other one is inside the equation.
    nth_rewrite 1 [← htake]
    exact List.take_append_drop _ _

/-- The encodings lie at the front exactly if each chunk is the encoding of its value. -/
theorem flatMap_isPrefix_iff {width : Nat} {enc : α → List τ} (henc : ∀ a, (enc a).length = width)
    {as : List α} {xs : List τ} :
    as.flatMap enc <+: xs ↔ ∀ i (h : i < as.length), chunk width xs i = enc as[i] := by
  -- The buffer moves along: dropping the first chunk shifts every later index by one.
  induction as generalizing xs with
  | nil =>
      simp
  | cons a as ih =>
      rw [List.flatMap_cons, append_isPrefix_iff (henc a), ih]
      constructor
      · rintro ⟨hhead, htail⟩ i hi
        cases i with
        | zero =>
            exact (chunk_zero width xs).trans hhead
        | succ i =>
            rw [chunk_succ]
            exact htail i (Nat.lt_of_succ_lt_succ hi)
      · intro h
        refine ⟨(chunk_zero width xs).symm.trans (h 0 (Nat.succ_pos _)), ?_⟩
        intro i hi
        have hsucc := h (i + 1) (Nat.succ_lt_succ hi)
        rwa [chunk_succ] at hsucc

end Wire
