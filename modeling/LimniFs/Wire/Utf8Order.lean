import LimniFs.Wire.LittleEndian
import Mathlib.Data.String.Basic

/-!
# Utf8Order — UTF-8 keeps the order of code points

Texts are compared code point by code point, byte strings byte by byte, and in both orders a proper
prefix comes first.  `Below` is what makes the two agree: the encodings of two characters differ at
some place, and there the smaller character has the smaller byte.
-/

namespace Wire

variable {τ α : Type}

/-! ## Codes that are ordered at the first place where they differ -/

/-- The lists differ at a common place, and at the first such place the left one is smaller. -/
def Below [LT τ] : List τ → List τ → Prop
  | x :: xs, y :: ys => x < y ∨ x = y ∧ Below xs ys
  -- A prefix does not count: what follows it could turn the comparison round.
  | _, _ => False

theorem Below.append_lt [LT τ] {xs ys : List τ} (h : Below xs ys) (xs' ys' : List τ) :
    xs ++ xs' < ys ++ ys' := by
  induction xs generalizing ys with
  | nil =>
      exact h.elim
  | cons x xs ih =>
      cases ys with
      | nil =>
          exact h.elim
      | cons y ys =>
          rcases h with hlt | ⟨rfl, hrest⟩
          · exact List.Lex.rel hlt
          · exact List.Lex.cons (ih hrest)

/-- A code that orders the symbols so orders their sequences lexicographically. -/
theorem flatMap_lt_flatMap [LT τ] [LT α] {enc : α → List τ}
    (henc : ∀ a b, a < b → Below (enc a) (enc b)) (hne : ∀ a, enc a ≠ []) {as bs : List α}
    (h : as < bs) : as.flatMap enc < bs.flatMap enc := by
  induction h with
  | nil =>
      rename_i b bs
      -- The longer sequence goes on with a code that has at least one symbol.
      rcases List.exists_cons_of_ne_nil (hne b) with ⟨y, ys, hb⟩
      rw [List.flatMap_nil, List.flatMap_cons, hb]
      exact List.Lex.nil
  | rel hab =>
      rw [List.flatMap_cons, List.flatMap_cons]
      exact (henc _ _ hab).append_lt _ _
  | cons _ ih =>
      rw [List.flatMap_cons, List.flatMap_cons]
      exact List.append_left_lt ih

/-! ## The bytes of a character -/

theorem ofNat_lt_ofNat_iff {m n : Nat} (hm : m < 256) (hn : n < 256) :
    UInt8.ofNat m < UInt8.ofNat n ↔ m < n := by
  rw [UInt8.lt_iff_toNat_lt, UInt8.toNat_ofNat_of_lt' hm, UInt8.toNat_ofNat_of_lt' hn]

theorem ofNat_eq_ofNat_iff {m n : Nat} (hm : m < 256) (hn : n < 256) :
    UInt8.ofNat m = UInt8.ofNat n ↔ m = n := by
  rw [eq_ofNat_iff hn, UInt8.toNat_ofNat_of_lt' hm]

/-- Of two numbers the smaller one is smaller without its last six bits, or in them. -/
theorem sextet_lt {m n : Nat} (h : m < n) :
    m / 64 < n / 64 ∨ m / 64 = n / 64 ∧ m % 64 < n % 64 := by
  omega

/-- The same for the four groups of bits that an encoding of four bytes holds. -/
theorem sextets_lt {m n : Nat} (h : m < n) :
    m / 262144 < n / 262144 ∨ m / 262144 = n / 262144 ∧
      (m / 4096 % 64 < n / 4096 % 64 ∨ m / 4096 % 64 = n / 4096 % 64 ∧
        (m / 64 % 64 < n / 64 % 64 ∨ m / 64 % 64 = n / 64 % 64 ∧ m % 64 < n % 64)) := by
  have hdiv : ∀ k : Nat, k / 64 / 64 = k / 4096 ∧ k / 64 / 64 / 64 = k / 262144 := by
    omega
  rcases sextet_lt h with h₁ | ⟨h₁, hlow⟩
  · rcases sextet_lt h₁ with h₂ | ⟨h₂, hlow⟩
    · rcases sextet_lt h₂ with h₃ | ⟨h₃, hlow⟩
      · rw [(hdiv m).2, (hdiv n).2] at h₃
        exact .inl h₃
      · rw [(hdiv m).2, (hdiv n).2] at h₃
        rw [(hdiv m).1, (hdiv n).1] at hlow
        exact .inr ⟨h₃, .inl hlow⟩
    · rw [(hdiv m).1, (hdiv n).1] at h₂
      omega
  · omega

/-- The smaller of two characters has the smaller byte where their encodings first differ. -/
theorem below_utf8EncodeChar {c d : Char} (h : c < d) :
    Below (String.utf8EncodeChar c) (String.utf8EncodeChar d) := by
  have hlt : c.val.toNat < d.val.toNat := h
  have hmax : d.val.toNat < 0x110000 := by
    rcases d.valid with hv | ⟨-, hv⟩
    · exact Nat.lt_trans hv (by decide)
    · exact hv
  have hsextets := sextets_lt hlt
  unfold String.utf8EncodeChar
  dsimp only
  -- One goal for each pair of lengths: a longer encoding has the greater first byte, and between
  -- encodings of one length the groups of bits decide.
  split_ifs
  all_goals
    simp (disch := omega) only [Below, ofNat_lt_ofNat_iff, ofNat_eq_ofNat_iff, Nat.mod_eq_of_lt]
    omega

/-! ## The order of texts -/

theorem encodeUtf8_lt {s t : String} (h : s < t) : encodeUtf8 s < encodeUtf8 t := by
  rw [encodeUtf8_eq_flatMap, encodeUtf8_eq_flatMap]
  exact flatMap_lt_flatMap (fun _ _ => below_utf8EncodeChar)
    (fun _ => String.utf8EncodeChar_ne_nil) (String.lt_iff_toList_lt.1 h)

/-- Comparing the bytes of two texts is comparing the texts. -/
theorem encodeUtf8_lt_iff {s t : String} : encodeUtf8 s < encodeUtf8 t ↔ s < t := by
  constructor
  · intro h
    -- The order of texts is total, and each other case would order the bytes otherwise.
    rcases lt_trichotomy s t with hlt | rfl | hgt
    · exact hlt
    · exact absurd h (List.lt_irrefl _)
    · exact absurd h (List.lt_asymm (encodeUtf8_lt hgt))
  · exact encodeUtf8_lt

end Wire
