import LimniFs.Wire.Base32
import Mathlib.Data.List.DropRight
import Mathlib.Tactic.IntervalCases

/-!
# Base32Decode — reading RFC 4648 base32 back

The decoder strips the padding, decodes one quantum of up to eight symbols after another, and cuts
the bytes of the last quantum to those that its symbols fill.  The low bits of a last symbol that
fill no byte are ignored, so a byte string has one encoding and several decodable texts.
-/

namespace Wire

/-! ## The decoder -/

/-- `_b32rev`: the value of a symbol. -/
def b32rev (c : Char) : Option Nat :=
  (List.range 32).find? fun n => b32Char n = c

/-- `for c in quanta: acc = (acc << 5) + b32rev[c]` -/
def quantumAcc (quanta : List Char) : Option Nat :=
  quanta.foldlM (fun acc c => (b32rev c).map (acc * 32 + ·)) 0

/-- `acc.to_bytes(5)`, most significant byte first. -/
def accBytes (acc : Nat) : Bytes :=
  [UInt8.ofNat (acc / 256 ^ 4), UInt8.ofNat (acc / 256 ^ 3), UInt8.ofNat (acc / 256 ^ 2),
    UInt8.ofNat (acc / 256), UInt8.ofNat acc]

/-- The loop over `n` quanta: the number of the last one, and the bytes decoded so far. -/
def decodeQuanta : Nat → List Char → Nat × Bytes → Except String (Nat × Bytes)
  | 0, _, state => .ok state
  | n + 1, s, (_, decoded) =>
      match quantumAcc (s.take 8) with
      | some acc => decodeQuanta n (s.drop 8) (acc, decoded ++ accBytes acc)
      | none => .error "Non-base32 digit found"

/-- The last, partial quantum: its bytes are cut to those that its symbols fill. -/
def cutLast (padchars : Nat) (state : Nat × Bytes) : Bytes :=
  if padchars ≠ 0 ∧ state.2 ≠ [] then
    state.2.take (state.2.length - 5) ++
      (accBytes (state.1 * 32 ^ padchars)).take ((43 - 5 * padchars) / 8)
  else
    state.2

/-- `base64.b32decode(s)` of a text, with the messages of the `ValueError` it raises. -/
def b32decode (s : List Char) : Except String Bytes :=
  if s.any fun c => 128 ≤ c.toNat then
    .error "string argument should contain only ASCII characters"
  else if s.length % 8 ≠ 0 then
    .error "Incorrect padding"
  else
    let symbols := s.rdropWhile (· = '=')
    let padchars := s.length - symbols.length
    match decodeQuanta ((symbols.length + 7) / 8) symbols (0, []) with
    | .error message => .error message
    -- The number of padding signs is checked after the digits.
    | .ok state =>
        if padchars ∈ [0, 1, 3, 4, 6] then .ok (cutLast padchars state)
        else .error "Incorrect padding"

/-! ## The bytes that symbols spell -/

/-- The number that the digits of a quantum make. -/
def digitsAcc (digits : List Nat) : Nat :=
  digits.foldl (fun acc d => acc * 32 + d) 0

/-- The bytes of a string of symbols; the bits that fill no byte are dropped. -/
def b32Bytes : List Nat → Bytes
  | d₀ :: d₁ :: d₂ :: d₃ :: d₄ :: d₅ :: d₆ :: d₇ :: ds =>
      accBytes (digitsAcc [d₀, d₁, d₂, d₃, d₄, d₅, d₆, d₇]) ++ b32Bytes ds
  | ds => (accBytes (digitsAcc ds * 32 ^ (8 - ds.length))).take (5 * ds.length / 8)

/-- The low bits of the last symbol that fill no byte are zero. -/
def SpareBitsZero (ds : List Nat) : Prop :=
  ∀ d ∈ ds.getLast?, d % 2 ^ (5 * ds.length % 8) = 0

/-! ## Symbols and their values -/

theorem b32Char_inj : ∀ m < 32, ∀ n < 32, b32Char m = b32Char n → m = n := by
  decide

theorem b32Char_ascii : ∀ n < 32, (b32Char n).toNat < 128 := by
  decide

theorem b32Char_ne_pad : ∀ n < 32, b32Char n ≠ '=' := by
  decide

/-- A map that tells the 32 symbols apart tells strings of symbols apart. -/
theorem map_symbols_inj {α : Type} {f : Nat → α} (hf : ∀ m < 32, ∀ n < 32, f m = f n → m = n)
    {as bs : List Nat} (has : ∀ d ∈ as, d < 32) (hbs : ∀ d ∈ bs, d < 32)
    (h : as.map f = bs.map f) : as = bs := by
  induction as generalizing bs with
  | nil =>
      simpa using h.symm
  | cons a as ih =>
      cases bs with
      | nil =>
          simp at h
      | cons b bs =>
          simp only [List.map_cons, List.cons.injEq] at h
          have hhead := hf a (has a List.mem_cons_self) b (hbs b List.mem_cons_self) h.1
          have htail := ih (fun d hd => has d (List.mem_cons_of_mem a hd))
            (fun d hd => hbs d (List.mem_cons_of_mem b hd)) h.2
          rw [hhead, htail]

theorem b32rev_eq_some_iff {c : Char} {n : Nat} : b32rev c = some n ↔ n < 32 ∧ b32Char n = c := by
  constructor
  · intro h
    exact ⟨List.mem_range.1 (List.mem_of_find?_eq_some h), by simpa using List.find?_some h⟩
  · rintro ⟨hn, rfl⟩
    cases hfind : b32rev (b32Char n) with
    | none =>
        have hnone := List.find?_eq_none.1 hfind n (List.mem_range.2 hn)
        simp at hnone
    -- What is found has the symbol of `n`, and symbols determine their values.
    | some m =>
        have hm := List.mem_range.1 (List.mem_of_find?_eq_some hfind)
        have hchar : b32Char m = b32Char n := by
          simpa using List.find?_some hfind
        rw [b32Char_inj m hm n hn hchar]

/-- A quantum has a number when its characters are symbols. -/
theorem quantumAcc_eq_some_iff {cs : List Char} {acc : Nat} :
    quantumAcc cs = some acc ↔
      ∃ ds : List Nat, (∀ d ∈ ds, d < 32) ∧ cs = ds.map b32Char ∧ digitsAcc ds = acc := by
  unfold quantumAcc digitsAcc
  generalize 0 = start
  induction cs generalizing start with
  | nil =>
      constructor
      · intro h
        exact ⟨[], by simp, rfl, by simpa using h⟩
      · rintro ⟨ds, -, hnil, rfl⟩
        rw [List.map_eq_nil_iff.1 hnil.symm]
        rfl
  | cons c cs ih =>
      rw [List.foldlM_cons]
      constructor
      · intro h
        cases hc : b32rev c with
        | none =>
            simp [hc] at h
        | some n =>
            rcases b32rev_eq_some_iff.1 hc with ⟨hn, rfl⟩
            simp only [hc, Option.map_some, Option.bind_eq_bind, Option.bind_some] at h
            rcases (ih _).1 h with ⟨ds, hds, rfl, hacc⟩
            exact ⟨n :: ds, by simpa using ⟨hn, hds⟩, rfl, hacc⟩
      · rintro ⟨ds, hds, hmap, hacc⟩
        cases ds with
        | nil =>
            simp at hmap
        | cons n ds =>
            simp only [List.map_cons, List.cons.injEq] at hmap
            rcases hmap with ⟨rfl, rfl⟩
            have hn := b32rev_eq_some_iff.2 ⟨hds n List.mem_cons_self, rfl⟩
            simp only [hn, Option.map_some, Option.bind_eq_bind, Option.bind_some]
            exact (ih _).2 ⟨ds, fun d hd => hds d (List.mem_cons_of_mem _ hd), rfl, hacc⟩

/-! ## The loop over the quanta -/

@[simp]
theorem length_accBytes (acc : Nat) : (accBytes acc).length = 5 :=
  rfl

/-- One round of the loop on eight symbols or on the fewer that are left. -/
theorem decodeQuanta_round (ds rest : List Nat) (hds : ∀ d ∈ ds, d < 32)
    (hlen : ds.length = 8 ∨ ds.length < 8 ∧ rest = []) (n : Nat) (state : Nat × Bytes) :
    decodeQuanta (n + 1) ((ds ++ rest).map b32Char) state =
      decodeQuanta n (rest.map b32Char) (digitsAcc ds, state.2 ++ accBytes (digitsAcc ds)) := by
  have htake : ((ds ++ rest).map b32Char).take 8 = ds.map b32Char := by
    rcases hlen with hlen | ⟨hlen, rfl⟩
    · rw [List.map_append, List.take_left' (by simpa using hlen)]
    · rw [List.append_nil, List.take_of_length_le (by simp; omega)]
  have hdrop : ((ds ++ rest).map b32Char).drop 8 = rest.map b32Char := by
    rcases hlen with hlen | ⟨hlen, rfl⟩
    · rw [List.map_append, List.drop_left' (by simpa using hlen)]
    · rw [List.append_nil, List.drop_of_length_le (by simp; omega), List.map_nil]
  have hacc : quantumAcc (ds.map b32Char) = some (digitsAcc ds) :=
    quantumAcc_eq_some_iff.2 ⟨ds, hds, rfl, rfl⟩
  rw [decodeQuanta, htake, hacc, hdrop]

/-- What the loop accepts are symbols. -/
theorem decodeQuanta_symbols {n : Nat} {s : List Char} {state state' : Nat × Bytes}
    (hlen : s.length ≤ 8 * n) (h : decodeQuanta n s state = .ok state') :
    ∃ ds : List Nat, (∀ d ∈ ds, d < 32) ∧ s = ds.map b32Char := by
  induction n generalizing s state with
  | zero =>
      exact ⟨[], by simp, List.length_eq_zero_iff.1 (by omega)⟩
  | succ n ih =>
      rw [decodeQuanta] at h
      cases hacc : quantumAcc (s.take 8) with
      | none =>
          simp [hacc] at h
      | some acc =>
          simp only [hacc] at h
          rcases quantumAcc_eq_some_iff.1 hacc with ⟨ds, hds, htake, -⟩
          rcases ih (by rw [List.length_drop]; omega) h with ⟨rest, hrest, hdrop⟩
          refine ⟨ds ++ rest, ?_, ?_⟩
          · intro d hd
            rcases List.mem_append.1 hd with hd | hd
            · exact hds d hd
            · exact hrest d hd
          · rw [List.map_append, ← htake, ← hdrop, List.take_append_drop]

/-- Symbols that are no whole quantum and more are fewer than eight. -/
theorem length_lt_eight {ds : List Nat}
    (h : ∀ d₀ d₁ d₂ d₃ d₄ d₅ d₆ d₇ rest,
      ds = d₀ :: d₁ :: d₂ :: d₃ :: d₄ :: d₅ :: d₆ :: d₇ :: rest → False) : ds.length < 8 := by
  by_contra hge
  have hfront : (ds.take 8).length = 8 := by
    rw [List.length_take]
    omega
  have hsplit := List.take_append_drop 8 ds
  match ds.take 8, hfront, hsplit with
  | [d₀, d₁, d₂, d₃, d₄, d₅, d₆, d₇], _, hsplit =>
      exact h d₀ d₁ d₂ d₃ d₄ d₅ d₆ d₇ _ hsplit.symm

/-- The loop and the cut of the last quantum give the bytes that the symbols spell. -/
theorem decodeQuanta_bytes {ds : List Nat} (hds : ∀ d ∈ ds, d < 32)
    (hlen : ds.length % 8 ∈ [0, 2, 4, 5, 7]) (state : Nat × Bytes) :
    ∃ state', decodeQuanta ((ds.length + 7) / 8) (ds.map b32Char) state = .ok state' ∧
      cutLast ((8 - ds.length % 8) % 8) state' = state.2 ++ b32Bytes ds := by
  fun_induction b32Bytes ds generalizing state with
  | case1 d₀ d₁ d₂ d₃ d₄ d₅ d₆ d₇ ds ih =>
      have hcount : ((d₀ :: d₁ :: d₂ :: d₃ :: d₄ :: d₅ :: d₆ :: d₇ :: ds).length + 7) / 8 =
          (ds.length + 7) / 8 + 1 := by
        simp only [List.length_cons]
        omega
      have hmod : (d₀ :: d₁ :: d₂ :: d₃ :: d₄ :: d₅ :: d₆ :: d₇ :: ds).length % 8 =
          ds.length % 8 := by
        simp only [List.length_cons]
        omega
      have hround := decodeQuanta_round [d₀, d₁, d₂, d₃, d₄, d₅, d₆, d₇] ds
        (fun d hd => hds d (List.mem_append_left ds hd)) (.inl rfl) ((ds.length + 7) / 8) state
      rw [hmod] at hlen ⊢
      rcases ih (fun d hd => hds d (List.mem_append_right [d₀, d₁, d₂, d₃, d₄, d₅, d₆, d₇] hd)) hlen
        (digitsAcc [d₀, d₁, d₂, d₃, d₄, d₅, d₆, d₇],
          state.2 ++ accBytes (digitsAcc [d₀, d₁, d₂, d₃, d₄, d₅, d₆, d₇])) with ⟨state', hrun, hcut⟩
      refine ⟨state', ?_, ?_⟩
      · rw [hcount]
        exact hround.trans hrun
      · rw [hcut, List.append_assoc]
  -- Fewer than eight symbols are left: none, or the last quantum.
  | case2 ds hshort =>
      have hlt := length_lt_eight hshort
      by_cases hnil : ds = []
      · subst hnil
        exact ⟨state, rfl, by simp [cutLast]⟩
      · have hpos : 0 < ds.length := List.length_pos_iff.2 hnil
        have hcount : (ds.length + 7) / 8 = 1 := by
          omega
        have hround := decodeQuanta_round ds [] hds (.inr ⟨hlt, rfl⟩) 0 state
        rw [List.append_nil] at hround
        refine ⟨_, by rw [hcount]; exact hround, ?_⟩
        have hpad : (8 - ds.length % 8) % 8 = 8 - ds.length := by
          omega
        -- For the numbers of symbols that can be left, both count the bytes they fill.
        have hleft : (43 - 5 * (8 - ds.length)) / 8 = 5 * ds.length / 8 := by
          simp only [List.mem_cons, List.not_mem_nil, or_false] at hlen
          omega
        have hcond : 8 - ds.length ≠ 0 ∧ state.2 ++ accBytes (digitsAcc ds) ≠ [] :=
          ⟨by omega, by simp [accBytes]⟩
        rw [hpad, cutLast, if_pos hcond, hleft, List.length_append, length_accBytes,
          Nat.add_sub_cancel, List.take_left]

/-! ## What the decoder accepts -/

/-- Stripping the padding leaves the symbols. -/
theorem rdropWhile_pad {ds : List Nat} (hds : ∀ d ∈ ds, d < 32) (n : Nat) :
    (ds.map b32Char ++ List.replicate n '=').rdropWhile (· = '=') = ds.map b32Char := by
  -- The padding goes one sign at a time, and the last symbol stops it.
  induction n with
  | zero =>
      rw [List.replicate_zero, List.append_nil, List.rdropWhile_eq_self_iff]
      intro hne hlast
      rcases List.mem_map.1 (List.getLast_mem hne) with ⟨d, hd, hchar⟩
      rw [← hchar] at hlast
      exact b32Char_ne_pad d (hds d hd) (by simpa using hlast)
  | succ n ih =>
      rw [List.replicate_succ', ← List.append_assoc, List.rdropWhile_concat_pos _ _ _ (by simp)]
      exact ih

/-- A text is its part before the padding, and the padding. -/
theorem rdropWhile_append_pad (s : List Char) :
    s.rdropWhile (· = '=') ++
      List.replicate (s.length - (s.rdropWhile (· = '=')).length) '=' = s := by
  have hsplit : s.rdropWhile (· = '=') ++ s.rtakeWhile (· = '=') = s :=
    List.rdropWhile_append_rtakeWhile
  have hlen := congrArg List.length hsplit
  rw [List.length_append] at hlen
  have hpad : s.rtakeWhile (· = '=') =
      List.replicate (s.length - (s.rdropWhile (· = '=')).length) '=' := by
    rw [List.eq_replicate_iff]
    refine ⟨by omega, ?_⟩
    intro c hc
    simpa using List.mem_rtakeWhile_imp hc
  rw [← hpad]
  exact hsplit

theorem padded_ascii {ds : List Nat} (hds : ∀ d ∈ ds, d < 32) (n : Nat) :
    ∀ c ∈ ds.map b32Char ++ List.replicate n '=', c.toNat < 128 := by
  intro c hc
  rcases List.mem_append.1 hc with hc | hc
  · rcases List.mem_map.1 hc with ⟨d, hd, rfl⟩
    exact b32Char_ascii d (hds d hd)
  · rw [List.eq_of_mem_replicate hc]
    decide

/-- The decoder accepts the symbols of whole and partial quanta, filled up with padding. -/
theorem b32decode_eq_ok_iff {s : List Char} {bs : Bytes} :
    b32decode s = .ok bs ↔
      ∃ ds : List Nat, (∀ d ∈ ds, d < 32) ∧ ds.length % 8 ∈ [0, 2, 4, 5, 7] ∧
        s = ds.map b32Char ++ List.replicate ((8 - ds.length % 8) % 8) '=' ∧ bs = b32Bytes ds := by
  constructor
  · intro h
    have hsplit := rdropWhile_append_pad s
    unfold b32decode at h
    dsimp only at h
    split at h
    · cases h
    split at h
    · cases h
    rename_i hmod
    cases hrun : decodeQuanta (((s.rdropWhile (· = '=')).length + 7) / 8)
        (s.rdropWhile (· = '=')) (0, []) with
    | error message =>
        simp [hrun] at h
    | ok state =>
        simp only [hrun] at h
        split at h
        · rename_i hpad
          rcases decodeQuanta_symbols (by omega) hrun with ⟨ds, hds, hsymbols⟩
          rw [hsymbols] at hsplit hrun h hpad
          rw [List.length_map] at hsplit hrun h hpad
          have hlen := congrArg List.length hsplit
          simp only [List.length_append, List.length_map, List.length_replicate] at hlen
          -- The number of padding signs says how many symbols the last quantum has.
          have hpadchars : s.length - ds.length = (8 - ds.length % 8) % 8 := by
            simp only [List.mem_cons, List.not_mem_nil, or_false] at hpad
            omega
          have hsymbolsLen : ds.length % 8 ∈ [0, 2, 4, 5, 7] := by
            simp only [List.mem_cons, List.not_mem_nil, or_false] at hpad ⊢
            omega
          rcases decodeQuanta_bytes hds hsymbolsLen (0, []) with ⟨state', hrun', hcut⟩
          rw [hrun'] at hrun
          cases hrun
          rw [hpadchars] at hsplit h
          rw [hcut, List.nil_append] at h
          cases h
          exact ⟨ds, hds, hsymbolsLen, hsplit.symm, rfl⟩
        · cases h
  · rintro ⟨ds, hds, hlen, rfl, rfl⟩
    rcases decodeQuanta_bytes hds hlen (0, []) with ⟨state', hrun, hcut⟩
    have hascii : ¬ (ds.map b32Char ++ List.replicate ((8 - ds.length % 8) % 8) '=').any
        fun c => 128 ≤ c.toNat := by
      simp only [List.any_eq_true, decide_eq_true_eq, not_exists, not_and, Nat.not_le]
      exact padded_ascii hds _
    have hwhole : (ds.map b32Char ++
        List.replicate ((8 - ds.length % 8) % 8) '=').length % 8 = 0 := by
      simp only [List.length_append, List.length_map, List.length_replicate]
      omega
    have hpad : (8 - ds.length % 8) % 8 ∈ [0, 1, 3, 4, 6] := by
      simp only [List.mem_cons, List.not_mem_nil, or_false] at hlen ⊢
      omega
    have hpadchars : (ds.map b32Char ++
        List.replicate ((8 - ds.length % 8) % 8) '=').length - ds.length =
          (8 - ds.length % 8) % 8 := by
      simp
    unfold b32decode
    rw [if_neg hascii, if_neg (not_not.2 hwhole)]
    simp only [rdropWhile_pad hds, hpadchars, List.length_map, hrun, if_pos hpad, hcut,
      List.nil_append]

/-! ## Encoding and decoding -/

theorem digitsAcc_concat (ds : List Nat) (d : Nat) :
    digitsAcc (ds ++ [d]) = digitsAcc ds * 32 + d := by
  simp [digitsAcc]

theorem digitsAcc_zeros (n : Nat) : digitsAcc (List.replicate n 0) = 0 := by
  induction n with
  | zero =>
      rfl
  | succ n ih =>
      rw [List.replicate_succ', digitsAcc_concat, ih]

theorem digitsAcc_append (as bs : List Nat) :
    digitsAcc (as ++ bs) = digitsAcc as * 32 ^ bs.length + digitsAcc bs := by
  induction bs using List.reverseRecOn with
  | nil =>
      simp [digitsAcc]
  | append_singleton bs b ih =>
      rw [← List.append_assoc, digitsAcc_concat, digitsAcc_concat, ih, List.length_append,
        List.length_singleton, Nat.pow_succ, Nat.add_mul, Nat.mul_assoc, Nat.add_assoc]

theorem digitsAcc_lt {ds : List Nat} (hds : ∀ d ∈ ds, d < 32) :
    digitsAcc ds < 32 ^ ds.length := by
  induction ds with
  | nil =>
      simp [digitsAcc]
  | cons d ds ih =>
      have hd := hds d List.mem_cons_self
      have hrest := ih fun e he => hds e (List.mem_cons_of_mem d he)
      have hcons : digitsAcc (d :: ds) = d * 32 ^ ds.length + digitsAcc ds := by
        simpa [digitsAcc] using digitsAcc_append [d] ds
      calc
        digitsAcc (d :: ds) < d * 32 ^ ds.length + 32 ^ ds.length := by omega
        _ = (d + 1) * 32 ^ ds.length := (Nat.succ_mul _ _).symm
        _ ≤ 32 * 32 ^ ds.length := Nat.mul_le_mul_right _ hd
        _ = 32 ^ (d :: ds).length := by rw [List.length_cons, Nat.pow_succ, Nat.mul_comm]

theorem length_b32Symbols (bs : Bytes) : (b32Symbols bs).length = (8 * bs.length + 4) / 5 := by
  fun_induction b32Symbols bs with
  | case1 b₀ b₁ b₂ b₃ b₄ bs ih =>
      simp only [List.length_append, List.length_cons, quantumSymbols, ih, List.length_nil]
      omega
  | case2 | case3 | case4 | case5 | case6 =>
      simp [quantumSymbols]

/-- The encoder never writes a quantum of one, three or six symbols. -/
theorem length_b32Symbols_mod (bs : Bytes) : (b32Symbols bs).length % 8 ∈ [0, 2, 4, 5, 7] := by
  have hlen := length_b32Symbols bs
  simp only [List.mem_cons, List.not_mem_nil, or_false]
  omega

theorem digitsAcc_quantumSymbols {n : Nat} (hn : n < 32 ^ 8) :
    digitsAcc (quantumSymbols n) = n := by
  simp only [digitsAcc, quantumSymbols, List.foldl_cons, List.foldl_nil]
  omega

/-- The first symbols of a quantum make the front of its number. -/
theorem digitsAcc_take {n : Nat} (hn : n < 32 ^ 8) (k : Nat) :
    digitsAcc ((quantumSymbols n).take k) = n / 32 ^ (8 - k) := by
  have hsplit := digitsAcc_append ((quantumSymbols n).take k) ((quantumSymbols n).drop k)
  have hrest : digitsAcc ((quantumSymbols n).drop k) < 32 ^ ((quantumSymbols n).drop k).length :=
    digitsAcc_lt fun d hd => quantumSymbols_lt n d (List.mem_of_mem_drop hd)
  have hlen : ((quantumSymbols n).drop k).length = 8 - k := by
    rw [List.length_drop]
    rfl
  rw [List.take_append_drop, digitsAcc_quantumSymbols hn, hlen] at hsplit
  rw [hlen] at hrest
  -- The symbols left out are what remains of the number.
  symm
  calc
    n / 32 ^ (8 - k)
        = (digitsAcc ((quantumSymbols n).drop k) +
            digitsAcc ((quantumSymbols n).take k) * 32 ^ (8 - k)) / 32 ^ (8 - k) := by
          rw [Nat.add_comm, ← hsplit]
    _ = digitsAcc ((quantumSymbols n).take k) := by
          rw [Nat.add_mul_div_right _ _ (Nat.pow_pos (by decide)), Nat.div_eq_of_lt hrest,
            Nat.zero_add]

theorem accBytes_quantumNumber (b₀ b₁ b₂ b₃ b₄ : UInt8) :
    accBytes (quantumNumber b₀.toNat b₁.toNat b₂.toNat b₃.toNat b₄.toNat) =
      [b₀, b₁, b₂, b₃, b₄] := by
  have h₀ := b₀.toNat_lt
  have h₁ := b₁.toNat_lt
  have h₂ := b₂.toNat_lt
  have h₃ := b₃.toNat_lt
  have h₄ := b₄.toNat_lt
  simp only [accBytes, List.cons.injEq, and_true, ← UInt8.toNat_inj, UInt8.toNat_ofNat',
    quantumNumber]
  omega

theorem b32Bytes_quantum (n : Nat) (ds : List Nat) :
    b32Bytes (quantumSymbols n ++ ds) = accBytes (digitsAcc (quantumSymbols n)) ++ b32Bytes ds :=
  rfl

theorem b32Bytes_short {ds : List Nat} (h : ds.length < 8) :
    b32Bytes ds =
      (accBytes (digitsAcc ds * 32 ^ (8 - ds.length))).take (5 * ds.length / 8) := by
  rw [b32Bytes]
  rintro d₀ d₁ d₂ d₃ d₄ d₅ d₆ d₇ rest rfl
  simp only [List.length_cons] at h
  omega

theorem length_b32Bytes (ds : List Nat) : (b32Bytes ds).length = 5 * ds.length / 8 := by
  fun_induction b32Bytes ds with
  | case1 d₀ d₁ d₂ d₃ d₄ d₅ d₆ d₇ ds ih =>
      simp only [List.length_append, length_accBytes, ih, List.length_cons]
      omega
  | case2 ds hshort =>
      have hlt := length_lt_eight hshort
      rw [List.length_take, length_accBytes]
      omega

/-- The symbols kept of a partial quantum spell its bytes. -/
theorem b32Bytes_partial (k : Nat) (b₀ b₁ b₂ b₃ b₄ : UInt8) (hk : k < 8)
    (hzero : quantumNumber b₀.toNat b₁.toNat b₂.toNat b₃.toNat b₄.toNat % 32 ^ (8 - k) = 0) :
    b32Bytes ((quantumSymbols
        (quantumNumber b₀.toNat b₁.toNat b₂.toNat b₃.toNat b₄.toNat)).take k) =
      [b₀, b₁, b₂, b₃, b₄].take (5 * k / 8) := by
  have hlen : ((quantumSymbols
      (quantumNumber b₀.toNat b₁.toNat b₂.toNat b₃.toNat b₄.toNat)).take k).length = k := by
    simp only [List.length_take, quantumSymbols, List.length_cons, List.length_nil]
    omega
  rw [b32Bytes_short (by omega), hlen, digitsAcc_take (quantumNumber_lt ..),
    Nat.div_mul_cancel (Nat.dvd_of_mod_eq_zero hzero), accBytes_quantumNumber]

/-- The symbols of a byte string spell it. -/
theorem b32Bytes_b32Symbols (bs : Bytes) : b32Bytes (b32Symbols bs) = bs := by
  fun_induction b32Symbols bs with
  | case1 b₀ b₁ b₂ b₃ b₄ bs ih =>
      rw [b32Bytes_quantum, digitsAcc_quantumSymbols (quantumNumber_lt ..), accBytes_quantumNumber,
        ih]
      rfl
  | case2 b₀ b₁ b₂ b₃ =>
      exact b32Bytes_partial 7 b₀ b₁ b₂ b₃ 0 (by decide) (by simp [quantumNumber]; omega)
  | case3 b₀ b₁ b₂ =>
      exact b32Bytes_partial 5 b₀ b₁ b₂ 0 0 (by decide) (by simp [quantumNumber]; omega)
  | case4 b₀ b₁ =>
      exact b32Bytes_partial 4 b₀ b₁ 0 0 0 (by decide) (by simp [quantumNumber]; omega)
  | case5 b₀ =>
      exact b32Bytes_partial 2 b₀ 0 0 0 0 (by decide) (by simp [quantumNumber]; omega)
  | case6 =>
      rfl

/-- Byte strings with the same symbols are equal. -/
theorem b32Symbols_inj {as bs : Bytes} (h : b32Symbols as = b32Symbols bs) : as = bs := by
  rw [← b32Bytes_b32Symbols as, h, b32Bytes_b32Symbols]

/-! ## The spare bits -/

theorem quantumNumber_accBytes {n : Nat} (hn : n < 32 ^ 8) :
    quantumNumber (UInt8.ofNat (n / 256 ^ 4)).toNat (UInt8.ofNat (n / 256 ^ 3)).toNat
      (UInt8.ofNat (n / 256 ^ 2)).toNat (UInt8.ofNat (n / 256)).toNat (UInt8.ofNat n).toNat = n := by
  simp only [quantumNumber, UInt8.toNat_ofNat']
  omega

theorem quantumSymbols_digitsAcc {ds : List Nat} (hds : ∀ d ∈ ds, d < 32) (hlen : ds.length = 8) :
    quantumSymbols (digitsAcc ds) = ds := by
  match ds, hlen with
  | [d₀, d₁, d₂, d₃, d₄, d₅, d₆, d₇], _ =>
      simp only [List.mem_cons, List.not_mem_nil, or_false, forall_eq_or_imp, forall_eq] at hds
      simp only [quantumSymbols, digitsAcc, List.foldl_cons, List.foldl_nil, List.cons.injEq,
        and_true]
      omega

/-- Filled up with zeros, the symbols of a partial quantum are the first ones of its number. -/
theorem quantumSymbols_take {ds : List Nat} (hds : ∀ d ∈ ds, d < 32) (hlen : ds.length ≤ 8) :
    (quantumSymbols (digitsAcc ds * 32 ^ (8 - ds.length))).take ds.length = ds := by
  have hfill : ∀ d ∈ ds ++ List.replicate (8 - ds.length) 0, d < 32 := by
    intro d hd
    rcases List.mem_append.1 hd with hd | hd
    · exact hds d hd
    · rw [List.eq_of_mem_replicate hd]
      decide
  have hsymbols := quantumSymbols_digitsAcc hfill (by
    rw [List.length_append, List.length_replicate]
    omega)
  rw [digitsAcc_append, List.length_replicate, digitsAcc_zeros, Nat.add_zero] at hsymbols
  rw [hsymbols, List.take_left]

/-- Bytes whose quantum is zero behind them have the first symbols of its number. -/
theorem b32Symbols_take {k n : Nat} (hk : k < 5) (hn : n < 32 ^ 8)
    (hzero : n % 256 ^ (5 - k) = 0) :
    b32Symbols ((accBytes n).take k) = (quantumSymbols n).take ((8 * k + 4) / 5) := by
  interval_cases k
  · rfl
  · have hnumber : quantumNumber (UInt8.ofNat (n / 256 ^ 4)).toNat 0 0 0 0 = n := by
      simp only [Nat.reduceSub, Nat.reducePow, quantumNumber, UInt8.toNat_ofNat'] at hn hzero ⊢
      omega
    exact congrArg (fun m => (quantumSymbols m).take 2) hnumber
  · have hnumber : quantumNumber (UInt8.ofNat (n / 256 ^ 4)).toNat
        (UInt8.ofNat (n / 256 ^ 3)).toNat 0 0 0 = n := by
      simp only [Nat.reduceSub, Nat.reducePow, quantumNumber, UInt8.toNat_ofNat'] at hn hzero ⊢
      omega
    exact congrArg (fun m => (quantumSymbols m).take 4) hnumber
  · have hnumber : quantumNumber (UInt8.ofNat (n / 256 ^ 4)).toNat
        (UInt8.ofNat (n / 256 ^ 3)).toNat (UInt8.ofNat (n / 256 ^ 2)).toNat 0 0 = n := by
      simp only [Nat.reduceSub, Nat.reducePow, quantumNumber, UInt8.toNat_ofNat'] at hn hzero ⊢
      omega
    exact congrArg (fun m => (quantumSymbols m).take 5) hnumber
  · have hnumber : quantumNumber (UInt8.ofNat (n / 256 ^ 4)).toNat
        (UInt8.ofNat (n / 256 ^ 3)).toNat (UInt8.ofNat (n / 256 ^ 2)).toNat
        (UInt8.ofNat (n / 256)).toNat 0 = n := by
      simp only [Nat.reduceSub, Nat.reducePow, quantumNumber, UInt8.toNat_ofNat'] at hn hzero ⊢
      omega
    exact congrArg (fun m => (quantumSymbols m).take 7) hnumber

/-- A partial quantum with zero spare bits is a number of whole bytes. -/
theorem spareBits_mod {ds : List Nat} (hlen : ds.length % 8 ∈ [0, 2, 4, 5, 7]) (hlt : ds.length < 8)
    (hzero : SpareBitsZero ds) :
    digitsAcc ds * 32 ^ (8 - ds.length) % 256 ^ (5 - 5 * ds.length / 8) = 0 := by
  induction ds using List.reverseRecOn with
  | nil => simp [digitsAcc]
  | append_singleton ds d _ =>
      have hd := hzero d (by simp)
      rw [digitsAcc_concat]
      generalize digitsAcc ds = acc
      generalize (ds ++ [d]).length = n at *
      simp only [List.mem_cons, List.not_mem_nil, or_false] at hlen
      have hn : n = 0 ∨ n = 2 ∨ n = 4 ∨ n = 5 ∨ n = 7 := by omega
      rcases hn with rfl | rfl | rfl | rfl | rfl <;>
        simp only [Nat.reduceMul, Nat.reduceMod, Nat.reduceSub, Nat.reduceDiv, Nat.reducePow]
          at hd ⊢ <;>
        omega

/-- The encoder leaves the spare bits zero. -/
theorem spareBitsZero_b32Symbols (bs : Bytes) : SpareBitsZero (b32Symbols bs) := by
  fun_induction b32Symbols bs with
  | case1 b₀ b₁ b₂ b₃ b₄ bs ih =>
      intro d hd
      rw [List.getLast?_append] at hd
      have hmod : 5 * (quantumSymbols (quantumNumber b₀.toNat b₁.toNat b₂.toNat b₃.toNat
          b₄.toNat) ++ b32Symbols bs).length % 8 = 5 * (b32Symbols bs).length % 8 := by
        simp only [List.length_append, quantumSymbols, List.length_cons, List.length_nil]
        omega
      rw [hmod]
      -- Behind a whole quantum, the last symbol is that of the rest, if there is one.
      cases hlast : (b32Symbols bs).getLast? with
      | none =>
          rw [List.getLast?_eq_none_iff.1 hlast, List.length_nil, Nat.mul_zero, Nat.zero_mod,
            Nat.pow_zero, Nat.mod_one]
      | some e =>
          simp only [hlast, Option.some_or, Option.mem_some_iff] at hd
          exact ih d (hd ▸ hlast)
  | case2 | case3 | case4 | case5 =>
      simp only [SpareBitsZero, quantumSymbols, List.take_succ_cons, List.take_zero,
        List.getLast?_cons_cons, List.getLast?_singleton, Option.mem_some_iff, forall_eq',
        List.length_cons, List.length_nil, quantumNumber, Nat.reduceAdd, Nat.reduceMul,
        Nat.reduceMod, Nat.reducePow]
      omega
  | case6 =>
      simp [SpareBitsZero]

/-- Symbols with zero spare bits are those of the bytes that they spell. -/
theorem b32Symbols_b32Bytes {ds : List Nat} (hds : ∀ d ∈ ds, d < 32)
    (hlen : ds.length % 8 ∈ [0, 2, 4, 5, 7]) (hzero : SpareBitsZero ds) :
    b32Symbols (b32Bytes ds) = ds := by
  fun_induction b32Bytes ds with
  | case1 d₀ d₁ d₂ d₃ d₄ d₅ d₆ d₇ ds ih =>
      have hquantum : ∀ d ∈ [d₀, d₁, d₂, d₃, d₄, d₅, d₆, d₇], d < 32 :=
        fun d hd => hds d (List.mem_append_left ds hd)
      have hmod : (d₀ :: d₁ :: d₂ :: d₃ :: d₄ :: d₅ :: d₆ :: d₇ :: ds).length % 8 =
          ds.length % 8 := by
        simp only [List.length_cons]
        omega
      have hrest : SpareBitsZero ds := by
        intro d hd
        have hd' := hzero d (by
          rw [show d₀ :: d₁ :: d₂ :: d₃ :: d₄ :: d₅ :: d₆ :: d₇ :: ds =
            [d₀, d₁, d₂, d₃, d₄, d₅, d₆, d₇] ++ ds from rfl, List.getLast?_append, hd]
          rfl)
        rwa [Nat.mul_mod, hmod, ← Nat.mul_mod] at hd'
      rw [hmod] at hlen
      have htail := ih (fun d hd => hds d (List.mem_append_right
        [d₀, d₁, d₂, d₃, d₄, d₅, d₆, d₇] hd)) hlen hrest
      have hnumber := quantumNumber_accBytes (digitsAcc_lt hquantum)
      have hsymbols := quantumSymbols_digitsAcc hquantum rfl
      calc
        b32Symbols (accBytes (digitsAcc [d₀, d₁, d₂, d₃, d₄, d₅, d₆, d₇]) ++ b32Bytes ds)
            = quantumSymbols (digitsAcc [d₀, d₁, d₂, d₃, d₄, d₅, d₆, d₇]) ++
                b32Symbols (b32Bytes ds) := congrArg (fun n => quantumSymbols n ++ _) hnumber
        _ = d₀ :: d₁ :: d₂ :: d₃ :: d₄ :: d₅ :: d₆ :: d₇ :: ds := by
            rw [hsymbols, htail]
            rfl
  | case2 ds hshort =>
      have hlt := length_lt_eight hshort
      have hnumber : digitsAcc ds * 32 ^ (8 - ds.length) < 32 ^ 8 := by
        calc
          digitsAcc ds * 32 ^ (8 - ds.length)
              < 32 ^ ds.length * 32 ^ (8 - ds.length) :=
                Nat.mul_lt_mul_of_pos_right (digitsAcc_lt hds) (Nat.pow_pos (by decide))
          _ = 32 ^ 8 := by
              rw [← Nat.pow_add]
              congr 1
              omega
      have hsymbols : (8 * (5 * ds.length / 8) + 4) / 5 = ds.length := by
        simp only [List.mem_cons, List.not_mem_nil, or_false] at hlen
        omega
      rw [b32Symbols_take (by omega) hnumber (spareBits_mod hlen hlt hzero), hsymbols,
        quantumSymbols_take hds (by omega)]

end Wire
