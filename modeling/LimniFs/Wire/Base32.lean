import LimniFs.Wire.LittleEndian

/-!
# Base32 — RFC 4648 base32 of a byte string

Five bytes make a quantum of eight symbols; a partial quantum is filled with zero bits and its
missing symbols are written as `=`.
-/

namespace Wire

/-- The big-endian number of a quantum. -/
def quantumNumber (b₀ b₁ b₂ b₃ b₄ : Nat) : Nat :=
  (((b₀ * 256 + b₁) * 256 + b₂) * 256 + b₃) * 256 + b₄

/-- The eight base-32 digits of a quantum, most significant first. -/
def quantumSymbols (n : Nat) : List Nat :=
  [n / 32 ^ 7 % 32, n / 32 ^ 6 % 32, n / 32 ^ 5 % 32, n / 32 ^ 4 % 32,
    n / 32 ^ 3 % 32, n / 32 ^ 2 % 32, n / 32 % 32, n % 32]

/-- The symbols of a byte string, without the padding. -/
def b32Symbols : Bytes → List Nat
  | b₀ :: b₁ :: b₂ :: b₃ :: b₄ :: bs =>
      quantumSymbols (quantumNumber b₀.toNat b₁.toNat b₂.toNat b₃.toNat b₄.toNat) ++ b32Symbols bs
  | [b₀, b₁, b₂, b₃] =>
      (quantumSymbols (quantumNumber b₀.toNat b₁.toNat b₂.toNat b₃.toNat 0)).take 7
  | [b₀, b₁, b₂] =>
      (quantumSymbols (quantumNumber b₀.toNat b₁.toNat b₂.toNat 0 0)).take 5
  | [b₀, b₁] =>
      (quantumSymbols (quantumNumber b₀.toNat b₁.toNat 0 0 0)).take 4
  | [b₀] =>
      (quantumSymbols (quantumNumber b₀.toNat 0 0 0 0)).take 2
  | [] => []

/-- The alphabet: `A` to `Z`, then `2` to `7`. -/
def b32Char (n : Nat) : Char :=
  if n < 26 then Char.ofNat (0x41 + n) else Char.ofNat (0x32 + (n - 26))

/-- `base64.b32encode(bs)`: the symbols, padded with `=` to a whole number of quanta. -/
def b32encode (bs : Bytes) : List Char :=
  let cs := (b32Symbols bs).map b32Char
  cs ++ List.replicate ((8 - cs.length % 8) % 8) '='

theorem quantumSymbols_lt (m : Nat) : ∀ n ∈ quantumSymbols m, n < 32 := by
  intro n hn
  simp only [quantumSymbols, List.mem_cons, List.not_mem_nil, or_false] at hn
  omega

theorem b32Symbols_lt (bs : Bytes) : ∀ n ∈ b32Symbols bs, n < 32 := by
  fun_induction b32Symbols bs with
  | case1 b₀ b₁ b₂ b₃ b₄ bs ih =>
      intro n hn
      rcases List.mem_append.1 hn with hn | hn
      · exact quantumSymbols_lt _ n hn
      · exact ih n hn
  | case2 | case3 | case4 | case5 =>
      intro n hn
      exact quantumSymbols_lt _ n (List.mem_of_mem_take hn)
  | case6 =>
      simp

theorem quantumNumber_lt (b₀ b₁ b₂ b₃ b₄ : UInt8) :
    quantumNumber b₀.toNat b₁.toNat b₂.toNat b₃.toNat b₄.toNat < 32 ^ 8 := by
  have h₀ := b₀.toNat_lt
  have h₁ := b₁.toNat_lt
  have h₂ := b₂.toNat_lt
  have h₃ := b₃.toNat_lt
  have h₄ := b₄.toNat_lt
  simp only [quantumNumber]
  omega

end Wire
