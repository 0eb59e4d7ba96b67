import LimniFs.Wire.PrefixCode

/-!
# Utf16 — texts as code points and code units

A text is a sequence of code points, in which one half of a surrogate pair may stand alone.  Its
code units determine the text unless a first half does.
-/

namespace Wire

/-- A character, or half of a surrogate pair on its own. -/
inductive CodePoint
  | scalar (c : Char)
  | surrogate (n : Fin 0x800)
  deriving DecidableEq

namespace CodePoint

/-- A first half, which would form a pair with the unit that follows. -/
def IsHigh : CodePoint → Prop
  | .scalar _ => False
  | .surrogate n => n.val < 0x400

def utf16 : CodePoint → List UInt16
  | .scalar c =>
      if c.toNat < 0x10000 then [UInt16.ofNat c.toNat]
      else [UInt16.ofNat (0xD800 + (c.toNat - 0x10000) / 0x400),
        UInt16.ofNat (0xDC00 + (c.toNat - 0x10000) % 0x400)]
  | .surrogate n => [UInt16.ofNat (0xD800 + n.val)]

/-- One unit, or two that form a pair. -/
def readUtf16 : List UInt16 → Option (CodePoint × List UInt16)
  | [] => none
  | u :: rest =>
      if u.toNat < 0xD800 ∨ 0xE000 ≤ u.toNat then
        some (.scalar (Char.ofNat u.toNat), rest)
      else if u.toNat < 0xDC00 then
        rest.head?.map fun v =>
          (.scalar (Char.ofNat (0x10000 + 0x400 * (u.toNat - 0xD800) + (v.toNat - 0xDC00))),
            rest.tail)
      else
        some (.surrogate (Fin.ofNat 0x800 (u.toNat - 0xD800)), rest)

/-- A character is no half of a surrogate pair. -/
theorem scalar_cases (c : Char) : (c.toNat < 0xD800 ∨ 0xE000 ≤ c.toNat) ∧ c.toNat < 0x110000 := by
  have hvalid : c.toNat.isValidChar := c.valid
  simp only [Nat.isValidChar] at hvalid
  omega

theorem readUtf16_scalar (c : Char) (xs : List UInt16) :
    readUtf16 ((scalar c).utf16 ++ xs) = some (.scalar c, xs) := by
  have hscalar := scalar_cases c
  unfold utf16
  dsimp only
  by_cases hbmp : c.toNat < 0x10000
  · have hunit : (UInt16.ofNat c.toNat).toNat = c.toNat := UInt16.toNat_ofNat_of_lt' hbmp
    rw [if_pos hbmp, List.singleton_append, readUtf16, hunit, if_pos hscalar.1, Char.ofNat_toNat]
  -- The pair carries the upper and the lower ten bits.
  · have hhigh : (UInt16.ofNat (0xD800 + (c.toNat - 0x10000) / 0x400)).toNat =
        0xD800 + (c.toNat - 0x10000) / 0x400 :=
      UInt16.toNat_ofNat_of_lt' (by simp only [UInt16.size]; omega)
    have hlow : (UInt16.ofNat (0xDC00 + (c.toNat - 0x10000) % 0x400)).toNat =
        0xDC00 + (c.toNat - 0x10000) % 0x400 :=
      UInt16.toNat_ofNat_of_lt' (by simp only [UInt16.size]; omega)
    have hnum : 0x10000 + 0x400 * (0xD800 + (c.toNat - 0x10000) / 0x400 - 0xD800) +
        (0xDC00 + (c.toNat - 0x10000) % 0x400 - 0xDC00) = c.toNat := by
      omega
    rw [if_neg hbmp, List.cons_append, List.singleton_append, readUtf16, hhigh,
      if_neg (by omega), if_pos (by omega), List.head?_cons, Option.map_some, List.tail_cons, hlow,
      hnum, Char.ofNat_toNat]

theorem readUtf16_utf16 {p : CodePoint} (hp : ¬ p.IsHigh) (xs : List UInt16) :
    readUtf16 (p.utf16 ++ xs) = some (p, xs) := by
  rcases p with c | n
  · exact readUtf16_scalar c xs
  · have hlow : ¬ n.val < 0x400 := hp
    have hlt := n.isLt
    have hunit : (UInt16.ofNat (0xD800 + n.val)).toNat = 0xD800 + n.val :=
      UInt16.toNat_ofNat_of_lt' (by simp only [UInt16.size]; omega)
    rw [utf16, List.singleton_append, readUtf16, hunit, if_neg (by omega), if_neg (by omega),
      Nat.add_sub_cancel_left]
    simp

theorem utf16_prefixCode : PrefixCode (fun p : CodePoint => ¬ p.IsHigh) utf16 :=
  PrefixCode.of_reader readUtf16 fun _ xs hp => readUtf16_utf16 hp xs

theorem utf16_ne_nil (p : CodePoint) : p.utf16 ≠ [] := by
  unfold utf16
  rcases p with c | n
  · dsimp only
    split <;> simp
  · simp

/-- Texts without a first half that stands alone are determined by their units. -/
theorem flatMap_utf16_inj {ps qs : List CodePoint} (hp : ∀ p ∈ ps, ¬ p.IsHigh)
    (hq : ∀ q ∈ qs, ¬ q.IsHigh) (h : ps.flatMap utf16 = qs.flatMap utf16) : ps = qs :=
  utf16_prefixCode.flatMap_inj (fun p _ => p.utf16_ne_nil) hp hq h

end CodePoint

/-! ## Texts of characters -/

/-- The code points of a text of characters. -/
def points (s : String) : List CodePoint :=
  s.toList.map .scalar

theorem not_isHigh_points {s : String} : ∀ p ∈ points s, ¬ p.IsHigh := by
  intro p hp
  rcases List.mem_map.1 hp with ⟨c, -, rfl⟩
  exact id

theorem points_inj {s t : String} (h : points s = points t) : s = t := by
  have hscalar : Function.Injective CodePoint.scalar := fun _ _ => CodePoint.scalar.inj
  exact String.toList_inj.1 (hscalar.list_map h)

def utf16 (s : String) : List UInt16 :=
  (points s).flatMap CodePoint.utf16

@[simp]
theorem utf16_inj {s t : String} : utf16 s = utf16 t ↔ s = t := by
  refine ⟨fun h => ?_, fun h => h ▸ rfl⟩
  exact points_inj (CodePoint.flatMap_utf16_inj not_isHigh_points not_isHigh_points h)

/-- The characters, if no half of a surrogate pair stands alone. -/
def chars? : List CodePoint → Option (List Char)
  | [] => some []
  | .scalar c :: ps => (chars? ps).map (c :: ·)
  | .surrogate _ :: _ => none

/-- The text as a string of characters. -/
def text? (ps : List CodePoint) : Option String :=
  (chars? ps).map String.ofList

end Wire
