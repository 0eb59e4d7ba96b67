import Mathlib.Algebra.Group.Nat.Defs
import Mathlib.Data.List.Basic

/-!
# Digits — numerals in a text

Decimal numerals end where no digit follows, and padded hexadecimal ones are read back by their
value: leading zeros do not count, and the case of the digits does not matter.
-/

namespace Wire

/-! ## Numerals before a text that does not continue them -/

/-- The text does not begin with a symbol in `p`. -/
def StopsAt {τ : Type} (p : τ → Bool) (xs : List τ) : Prop :=
  ∀ x ∈ xs.head?, p x = false

theorem stopsAt_cons {τ : Type} {p : τ → Bool} {x : τ} {xs : List τ} (hx : p x = false) :
    StopsAt p (x :: xs) := by
  rintro _ ⟨⟩
  exact hx

/-- The longest run of symbols in `p` at the front of a text is determined by the text. -/
theorem run_append_inj {τ : Type} {p : τ → Bool} {as bs xs ys : List τ} (ha : ∀ a ∈ as, p a)
    (hb : ∀ b ∈ bs, p b) (hx : StopsAt p xs) (hy : StopsAt p ys) (h : as ++ xs = bs ++ ys) :
    as = bs ∧ xs = ys := by
  induction as generalizing bs with
  | nil =>
      cases bs with
      | nil =>
          exact ⟨rfl, h⟩
      | cons b bs =>
          -- The other run would go on where this text stops.
          have hfalse := hx b (by rw [show xs = b :: (bs ++ ys) from h]; rfl)
          rw [hb b List.mem_cons_self] at hfalse
          cases hfalse
  | cons a as ih =>
      cases bs with
      | nil =>
          have hfalse := hy a (by rw [show ys = a :: (as ++ xs) from h.symm]; rfl)
          rw [ha a List.mem_cons_self] at hfalse
          cases hfalse
      | cons b bs =>
          rw [List.forall_mem_cons] at ha hb
          rcases List.cons.inj h with ⟨rfl, htail⟩
          rcases ih ha.2 hb.2 htail with ⟨rfl, hrest⟩
          exact ⟨rfl, hrest⟩

/-- `str(n)` -/
def decimal (n : Nat) : List Char :=
  Nat.toDigits 10 n

theorem decimal_isDigit {n : Nat} : ∀ c ∈ decimal n, c.isDigit :=
  fun _ hc => Nat.isDigit_of_mem_toDigits (by decide) (by decide) hc

theorem decimal_ne_nil {n : Nat} : decimal n ≠ [] :=
  Nat.toDigits_ne_nil

theorem decimal_inj {m n : Nat} (h : decimal m = decimal n) : m = n := by
  calc
    m = Nat.ofDigitChars 10 (decimal m) 0 := Nat.ofDigitChars_ten_toDigits.symm
    _ = Nat.ofDigitChars 10 (decimal n) 0 := by rw [h]
    _ = n := Nat.ofDigitChars_ten_toDigits

theorem decimal_append_inj {m n : Nat} {xs ys : List Char} (hx : StopsAt Char.isDigit xs)
    (hy : StopsAt Char.isDigit ys) (h : decimal m ++ xs = decimal n ++ ys) : m = n ∧ xs = ys := by
  rcases run_append_inj decimal_isDigit decimal_isDigit hx hy h with ⟨hdigits, hrest⟩
  exact ⟨decimal_inj hdigits, hrest⟩

/-! ## Padded hexadecimal numerals -/

/-- The value of a hexadecimal digit of either case. -/
def hexVal (c : Char) : Nat :=
  if c.isDigit then c.toNat - 48
  else if c.isUpper then c.toNat - 55
  else c.toNat - 87

def hexValue (cs : List Char) : Nat :=
  cs.foldl (fun n c => 16 * n + hexVal c) 0

theorem hexVal_digitChar : ∀ d < 16, hexVal (Nat.digitChar d) = d := by
  decide

theorem hexVal_toUpper_digitChar : ∀ d < 16, hexVal (Nat.digitChar d).toUpper = d := by
  decide

/-- A spelling of the digits is read back, whatever it does to their case. -/
theorem hexValue_map_toDigits {f : Char → Char} (hf : ∀ d < 16, hexVal (f (Nat.digitChar d)) = d)
    (n : Nat) : hexValue ((Nat.toDigits 16 n).map f) = n := by
  induction n using Nat.strongRecOn with
  | ind n ih =>
      by_cases hlt : n < 16
      · rw [Nat.toDigits_of_lt_base hlt]
        simp [hexValue, hf n hlt]
      -- The last digit is the remainder and the digits before it are those of the quotient.
      · have hdiv : n / 16 < n := Nat.div_lt_self (by omega) (by decide)
        have hquot := ih (n / 16) hdiv
        have hrem := hf (n % 16) (Nat.mod_lt _ (by decide))
        rw [Nat.toDigits_of_base_le (by decide) (by omega)]
        unfold hexValue at hquot ⊢
        rw [List.map_append, List.foldl_append, hquot]
        simp only [List.map_cons, List.map_nil, List.foldl_cons, List.foldl_nil, hrem]
        omega

/-- Every hexadecimal digit is one of the sixteen. -/
theorem exists_digitChar {n : Nat} : ∀ c ∈ Nat.toDigits 16 n, ∃ d < 16, c = Nat.digitChar d := by
  induction n using Nat.strongRecOn with
  | ind n ih =>
      by_cases hlt : n < 16
      · rw [Nat.toDigits_of_lt_base hlt]
        simpa using ⟨n, hlt, rfl⟩
      · have hdiv : n / 16 < n := Nat.div_lt_self (by omega) (by decide)
        rw [Nat.toDigits_of_base_le (by decide) (by omega), List.forall_mem_append,
          List.forall_mem_singleton]
        exact ⟨ih (n / 16) hdiv, n % 16, Nat.mod_lt _ (by decide), rfl⟩

theorem hexValue_pad (k : Nat) (cs : List Char) :
    hexValue (List.replicate k '0' ++ cs) = hexValue cs := by
  induction k with
  | zero =>
      rfl
  | succ k ih =>
      exact ih

/-- `f"{n:0{width}x}"` -/
def paddedHex (width n : Nat) : List Char :=
  let digits := Nat.toDigits 16 n
  List.replicate (width - digits.length) '0' ++ digits

theorem hexValue_paddedHex (width n : Nat) : hexValue (paddedHex width n) = n := by
  have hdigits := hexValue_map_toDigits (f := id) hexVal_digitChar n
  rw [List.map_id] at hdigits
  unfold paddedHex
  rw [hexValue_pad, hdigits]

theorem length_paddedHex {width n : Nat} (hpos : 0 < width) (h : n < 16 ^ width) :
    (paddedHex width n).length = width := by
  have hle : (Nat.toDigits 16 n).length ≤ width :=
    (Nat.length_toDigits_le_iff (by decide) hpos).2 h
  simp only [paddedHex, List.length_append, List.length_replicate]
  omega

end Wire
