import Mathlib.Data.List.Basic

/-!
# Digest — collisions and flat commitments

A digest function is only assumed to be a function.  That equal digests come from equal inputs is
never a hypothesis: the statements end in the alternative that two distinct inputs with one digest
have been found, and they name them.
-/

namespace Wire

variable {τ α β : Type}

/-- Two distinct inputs with one digest. -/
def Collision (digest : α → β) (x y : α) : Prop :=
  x ≠ y ∧ digest x = digest y

theorem eq_or_collision {digest : α → β} {x y : α} (h : digest x = digest y) :
    x = y ∨ Collision digest x y := by
  by_cases hxy : x = y
  · exact Or.inl hxy
  · exact Or.inr ⟨hxy, h⟩

/-- Equal lists of digests come from equal lists, or two entries of one place collide. -/
theorem map_digest_eq {digest : α → β} {xs ys : List α} (h : xs.map digest = ys.map digest) :
    xs = ys ∨ ∃ p ∈ xs.zip ys, Collision digest p.1 p.2 := by
  -- Go through the places in order: the first one with distinct inputs is the collision.
  induction xs generalizing ys with
  | nil =>
      cases ys with
      | nil =>
          exact Or.inl rfl
      | cons y ys =>
          simp at h
  | cons x xs ih =>
      cases ys with
      | nil =>
          simp at h
      | cons y ys =>
          simp only [List.map_cons, List.cons.injEq] at h
          rcases eq_or_collision h.1 with rfl | hcol
          · rcases ih h.2 with rfl | ⟨p, hp, hcol⟩
            · exact Or.inl rfl
            · exact Or.inr ⟨p, List.mem_cons_of_mem _ hp, hcol⟩
          · exact Or.inr ⟨(x, y), List.mem_cons_self, hcol⟩

/-- Blocks of one width can be told apart in their concatenation. -/
theorem flatten_inj {width : Nat} {xs ys : List (List τ)} (hx : ∀ x ∈ xs, x.length = width)
    (hy : ∀ y ∈ ys, y.length = width) (hlen : xs.length = ys.length)
    (h : xs.flatten = ys.flatten) : xs = ys := by
  induction xs generalizing ys with
  | nil =>
      exact (List.length_eq_zero_iff.1 hlen.symm).symm
  | cons x xs ih =>
      cases ys with
      | nil =>
          simp at hlen
      | cons y ys =>
          -- The first blocks have one width, so the concatenations can be cut behind them.
          simp only [List.flatten_cons] at h
          have hxy : x.length = y.length := by
            calc
              x.length = width := hx x List.mem_cons_self
              _ = y.length := (hy y List.mem_cons_self).symm
          rcases List.append_inj h hxy with ⟨hhead, htail⟩
          have hrest := ih (fun z hz => hx z (List.mem_cons_of_mem _ hz))
            (fun z hz => hy z (List.mem_cons_of_mem _ hz)) (by simpa using hlen) htail
          rw [hhead, hrest]

/-- The input of a flat commitment: a domain separator and the slots one after another. -/
def commitInput (separator : List τ) (slots : List (List τ)) : List τ :=
  separator ++ slots.flatten

/-- A flat commitment over slots of one width binds every slot. -/
theorem commit_binds {digest : List τ → β} {separator : List τ} {width : Nat}
    {xs ys : List (List τ)} (hx : ∀ x ∈ xs, x.length = width) (hy : ∀ y ∈ ys, y.length = width)
    (hlen : xs.length = ys.length)
    (h : digest (commitInput separator xs) = digest (commitInput separator ys)) :
    xs = ys ∨ Collision digest (commitInput separator xs) (commitInput separator ys) := by
  rcases eq_or_collision h with heq | hcol
  · exact Or.inl (flatten_inj hx hy hlen (List.append_cancel_left heq))
  · exact Or.inr hcol

end Wire
