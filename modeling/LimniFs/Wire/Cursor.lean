import Mathlib.Data.List.Infix
import Mathlib.Data.List.TakeDrop

/-!
# Cursor — reading a buffer from the front

A bounded cursor over a buffer of symbols, and the relation `Consumes` that says which symbols lie
between two positions of the same buffer.  Everything the parser calculus of `Wire.Decodes` needs
to know about positions is stated here through `Consumes`: it composes, it splits, and it
determines the cursor it ends in.
-/

namespace Wire

variable {τ : Type}

/-- A buffer together with a position that never passes its end. -/
@[ext]
structure Cursor (τ : Type) where
  buf : List τ
  pos : Nat
  inBounds : pos ≤ buf.length

namespace Cursor

/-- The symbols from the position to the end of the buffer. -/
def remaining (c : Cursor τ) : List τ :=
  c.buf.drop c.pos

def remainingLen (c : Cursor τ) : Nat :=
  c.buf.length - c.pos

/-- A cursor at the front of `buf`. -/
def start (buf : List τ) : Cursor τ :=
  { buf := buf, pos := 0, inBounds := Nat.zero_le _ }

/-- `c.Consumes xs c'`: moving from `c` to `c'` passes over exactly the symbols `xs`. -/
def Consumes (c : Cursor τ) (xs : List τ) (c' : Cursor τ) : Prop :=
  c'.buf = c.buf ∧ c.remaining = xs ++ c'.remaining

@[simp]
theorem remaining_start (buf : List τ) : (start buf).remaining = buf := by
  simp [remaining, start]

@[simp]
theorem length_remaining (c : Cursor τ) : c.remaining.length = c.remainingLen := by
  simp [remaining, remainingLen]

namespace Consumes

variable {c c₁ c₂ : Cursor τ} {xs ys : List τ}

theorem pos_eq (h : c.Consumes xs c₁) : c₁.pos = c.pos + xs.length := by
  rcases h with ⟨hbuf, hrem⟩
  -- Both sides count what remains, and neither position passes the end of the buffer.
  have hlen := congrArg List.length hrem
  have hb := c.inBounds
  have hb₁ := c₁.inBounds
  simp only [remaining, List.length_drop, List.length_append, hbuf] at hlen
  rw [hbuf] at hb₁
  omega

theorem nil (c : Cursor τ) : c.Consumes [] c :=
  ⟨rfl, by simp⟩

theorem trans (h₁ : c.Consumes xs c₁) (h₂ : c₁.Consumes ys c₂) :
    c.Consumes (xs ++ ys) c₂ := by
  refine ⟨h₂.1.trans h₁.1, ?_⟩
  calc
    c.remaining = xs ++ c₁.remaining := h₁.2
    _ = xs ++ (ys ++ c₂.remaining) := by rw [h₂.2]
    _ = xs ++ ys ++ c₂.remaining := (List.append_assoc _ _ _).symm

/-- A consumption determines where it ends. -/
theorem unique (h₁ : c.Consumes xs c₁) (h₂ : c.Consumes xs c₂) : c₁ = c₂ := by
  have hpos : c₁.pos = c₂.pos := by
    calc
      c₁.pos = c.pos + xs.length := h₁.pos_eq
      _ = c₂.pos := h₂.pos_eq.symm
  exact Cursor.ext (h₁.1.trans h₂.1.symm) hpos

theorem eq_of_nil (h : c.Consumes [] c₁) : c₁ = c :=
  h.unique (nil c)

/-- Any prefix of what remains can be consumed. -/
theorem of_isPrefix (h : xs <+: c.remaining) : ∃ c₁, c.Consumes xs c₁ := by
  rcases h with ⟨zs, hzs⟩
  have hlen : xs.length ≤ c.buf.length - c.pos := by
    have := congrArg List.length hzs
    simp only [List.length_append, length_remaining, remainingLen] at this
    omega
  have hb := c.inBounds
  -- The cursor is determined by its position; what is left to check is what remains there.
  refine ⟨⟨c.buf, c.pos + xs.length, by omega⟩, rfl, ?_⟩
  have hdrop : (c.buf.drop c.pos).drop xs.length = zs := by
    rw [show c.buf.drop c.pos = xs ++ zs from hzs.symm, List.drop_left]
  rw [remaining, List.drop_drop] at *
  simp only [remaining]
  rw [hdrop, hzs]

theorem isPrefix (h : c.Consumes xs c₁) : xs <+: c.remaining :=
  ⟨c₁.remaining, h.2.symm⟩

/-- A consumption of `xs ++ ys` stops over at the end of `xs`. -/
theorem split (h : c.Consumes (xs ++ ys) c₂) :
    ∃ c₁, c.Consumes xs c₁ ∧ c₁.Consumes ys c₂ := by
  -- Stop over after `xs`; the rest of the way is then forced by what remains.
  have hpre : xs <+: c.remaining := ⟨ys ++ c₂.remaining, by rw [h.2, List.append_assoc]⟩
  rcases of_isPrefix hpre with ⟨c₁, h₁⟩
  refine ⟨c₁, h₁, h.1.trans h₁.1.symm, ?_⟩
  have hrem : xs ++ c₁.remaining = xs ++ (ys ++ c₂.remaining) := by
    calc
      xs ++ c₁.remaining = c.remaining := h₁.2.symm
      _ = xs ++ ys ++ c₂.remaining := h.2
      _ = xs ++ (ys ++ c₂.remaining) := List.append_assoc _ _ _
  exact List.append_cancel_left hrem

/-- What remains can be read up to the end of its first part. -/
theorem of_append (h : c.remaining = xs ++ ys) : ∃ c₁, c.Consumes xs c₁ ∧ c₁.remaining = ys := by
  rcases of_isPrefix (⟨ys, h.symm⟩ : xs <+: c.remaining) with ⟨c₁, h₁⟩
  refine ⟨c₁, h₁, ?_⟩
  have hrem := h₁.2
  rw [h] at hrem
  exact (List.append_cancel_left hrem).symm

end Consumes

end Cursor

end Wire
