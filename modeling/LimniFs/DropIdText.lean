import LimniFs.UriScheme

/-!
# DropIdText — the text form of identifiers and what is read back from it

The encoder writes lower-case base32 without padding, and the decoder takes all of it back.  The
decoder is more liberal than the encoder: it raises the text to upper case first, so it accepts
other cases and padding written out, and it ignores the bits of the last symbol that fill no byte.
-/

namespace LimniFs

open Wire

/-! ## Lower-case texts -/

/-- The characters that the encoder writes: `a` to `z`, then `2` to `7`. -/
def lowerAlphabet : List Char :=
  (List.range 32).map fun n => (b32Char n).toLower

/-- Symbols as the encoder writes them. -/
def lowerText (ds : List Nat) : String :=
  String.ofList (ds.map fun d => (b32Char d).toLower)

theorem encodeBase32LowerNopad_eq_lowerText (bs : Bytes) :
    encodeBase32LowerNopad bs = lowerText (b32Symbols bs) :=
  encodeBase32LowerNopad_eq bs

theorem mem_lowerAlphabet_iff {c : Char} :
    c ∈ lowerAlphabet ↔ ∃ d < 32, (b32Char d).toLower = c := by
  simp [lowerAlphabet]

/-- The texts over the alphabet of the encoder are the lower-case symbols. -/
theorem exists_lowerText_iff {text : String} :
    (∃ ds : List Nat, (∀ d ∈ ds, d < 32) ∧ text = lowerText ds) ↔
      ∀ c ∈ text.toList, c ∈ lowerAlphabet := by
  constructor
  · rintro ⟨ds, hds, rfl⟩ c hc
    rw [lowerText, String.toList_ofList] at hc
    rcases List.mem_map.1 hc with ⟨d, hd, rfl⟩
    exact mem_lowerAlphabet_iff.2 ⟨d, hds d hd, rfl⟩
  · intro h
    have hlist : ∀ cs : List Char, (∀ c ∈ cs, c ∈ lowerAlphabet) → ∃ ds : List Nat,
        (∀ d ∈ ds, d < 32) ∧ cs = ds.map fun d => (b32Char d).toLower := by
      intro cs hcs
      induction cs with
      | nil =>
          exact ⟨[], by simp, rfl⟩
      | cons c cs ih =>
          rcases mem_lowerAlphabet_iff.1 (hcs c List.mem_cons_self) with ⟨d, hd, rfl⟩
          rcases ih fun e he => hcs e (List.mem_cons_of_mem _ he) with ⟨ds, hds, rfl⟩
          exact ⟨d :: ds, by simpa using ⟨hd, hds⟩, rfl⟩
    rcases hlist text.toList h with ⟨ds, hds, htext⟩
    exact ⟨ds, hds, by rw [lowerText, ← htext, String.ofList_toList]⟩

/-- A drop id has the bytes of 52 symbols. -/
theorem length_b32Bytes_eq_iff {ds : List Nat} :
    (b32Bytes ds).length = blake3Len ↔ ds.length = 52 := by
  rw [length_b32Bytes, blake3Len]
  omega

/-- The spare bits of 52 symbols are the low four of the last one. -/
theorem spareBitsZero_iff {ds : List Nat} (hlen : ds.length = 52) :
    SpareBitsZero ds ↔ ∀ d ∈ ds.getLast?, d % 16 = 0 := by
  rw [SpareBitsZero, hlen]
  exact Iff.rfl

/-! ## What the decoder accepts -/

section Text

variable [UnicodeCase]

/-- Raised to upper case and padded, the text is the symbols `ds` of whole and partial quanta. -/
structure Spells (text : String) (ds : List Nat) : Prop where
  symbols : ∀ d ∈ ds, d < 32
  length : ds.length % 8 ∈ [0, 2, 4, 5, 7]
  padded : (strUpper text).toList ++ List.replicate ((8 - text.toList.length % 8) % 8) '=' =
    ds.map b32Char ++ List.replicate ((8 - ds.length % 8) % 8) '='

/-- The decoder accepts the texts that spell symbols, and returns their bytes. -/
theorem decodeBase32LowerNopad_eq_ok_iff {text : String} {bs : Bytes} :
    decodeBase32LowerNopad text = .ok bs ↔ ∃ ds, Spells text ds ∧ bs = b32Bytes ds := by
  unfold decodeBase32LowerNopad
  have hmap : ∀ {x : Except String Bytes}, x.mapError Exn.valueError = .ok bs ↔ x = .ok bs := by
    intro x
    cases x <;> simp [Except.mapError]
  rw [hmap, b32decode_eq_ok_iff]
  constructor
  · rintro ⟨ds, hds, hlen, hpadded, rfl⟩
    exact ⟨ds, ⟨hds, hlen, hpadded⟩, rfl⟩
  · rintro ⟨ds, hspells, rfl⟩
    exact ⟨ds, hspells.symbols, hspells.length, hspells.padded, rfl⟩

/-- A text spells one string of symbols. -/
theorem Spells.unique {text : String} {as bs : List Nat} (ha : Spells text as)
    (hb : Spells text bs) : as = bs := by
  have hstrip := congrArg (List.rdropWhile (· = '=')) (ha.padded.symm.trans hb.padded)
  rw [rdropWhile_pad ha.symbols, rdropWhile_pad hb.symbols] at hstrip
  exact map_symbols_inj b32Char_inj ha.symbols hb.symbols hstrip

/-! ## The texts of the encoder -/

theorem strUpper_lowerText {ds : List Nat} (hds : ∀ d ∈ ds, d < 32) :
    (strUpper (lowerText ds)).toList = ds.map b32Char := by
  have hchar : ∀ d < 32, (b32Char d).toLower.toNat < 128 ∧
      (b32Char d).toLower.toUpper = b32Char d := by
    decide
  unfold strUpper lowerText
  rw [String.toList_ofList, String.toList_ofList]
  induction ds with
  | nil =>
      rfl
  | cons d ds ih =>
      rcases hchar d (hds d List.mem_cons_self) with ⟨hascii, hback⟩
      rw [List.map_cons, List.flatMap_cons, UnicodeCase.upper_ascii _ hascii, hback,
        ih fun e he => hds e (List.mem_cons_of_mem d he)]
      rfl

theorem spells_lowerText {ds : List Nat} (hds : ∀ d ∈ ds, d < 32)
    (hlen : ds.length % 8 ∈ [0, 2, 4, 5, 7]) : Spells (lowerText ds) ds := by
  refine ⟨hds, hlen, ?_⟩
  rw [strUpper_lowerText hds]
  simp [lowerText]

/-- Encoding the bytes of a text gives it back when it is over the alphabet of the encoder and its
spare bits are zero. -/
theorem Spells.encode_eq_iff {text : String} {ds : List Nat} (h : Spells text ds) :
    encodeBase32LowerNopad (b32Bytes ds) = text ↔
      (∀ c ∈ text.toList, c ∈ lowerAlphabet) ∧ SpareBitsZero ds := by
  rw [encodeBase32LowerNopad_eq_lowerText, ← exists_lowerText_iff]
  constructor
  · rintro rfl
    have hlt := b32Symbols_lt (b32Bytes ds)
    refine ⟨⟨_, hlt, rfl⟩, ?_⟩
    -- The text spells what the encoder wrote, and nothing else.
    rw [h.unique (spells_lowerText hlt (length_b32Symbols_mod _))]
    exact spareBitsZero_b32Symbols _
  · rintro ⟨⟨es, hes, rfl⟩, hzero⟩
    have hstrip := congrArg (List.rdropWhile (· = '=')) h.padded
    rw [strUpper_lowerText hes, rdropWhile_pad hes, rdropWhile_pad h.symbols] at hstrip
    rcases map_symbols_inj b32Char_inj hes h.symbols hstrip with rfl
    rw [b32Symbols_b32Bytes h.symbols h.length hzero]

/-- The decoder takes every encoding back. -/
theorem decode_encodeBase32LowerNopad (bs : Bytes) :
    decodeBase32LowerNopad (encodeBase32LowerNopad bs) = .ok bs := by
  rw [decodeBase32LowerNopad_eq_ok_iff, encodeBase32LowerNopad_eq_lowerText]
  exact ⟨b32Symbols bs, spells_lowerText (b32Symbols_lt bs) (length_b32Symbols_mod bs),
    (b32Bytes_b32Symbols bs).symm⟩

/-! ## Drop ids -/

variable [UnicodeData]

theorem DropId.parseText_eq_ok_iff {text : String} {dropId : DropId} :
    DropId.parseText text = .ok dropId ↔
      ∃ body, text = "b3:" ++ body ∧ decodeBase32LowerNopad body = .ok dropId.bytes := by
  unfold DropId.parseText
  constructor
  · intro h
    split at h
    · rename_i hprefix
      rcases hprefix with ⟨cs, hcs⟩
      have hdrop : text.toList.drop 3 = cs := by
        rw [← hcs]
        rfl
      rcases bind_eq_ok_iff.1 h with ⟨decoded, hdecoded, hmake⟩
      split at hmake
      · cases hmake
      · rw [hdrop, DropId.make_eq_ok_iff.1 hmake] at hdecoded
        refine ⟨String.ofList cs, ?_, hdecoded⟩
        rw [← String.toList_inj, ← hcs]
        simp
    · cases h
  · rintro ⟨body, rfl, hbody⟩
    have hlist : ("b3:" ++ body).toList = ['b', '3', ':'] ++ body.toList := by
      simp
    rw [hlist, if_pos (List.prefix_append _ _)]
    refine bind_eq_ok_iff.2 ⟨dropId.bytes, ?_, ?_⟩
    · simpa using hbody
    · rw [if_neg (not_not.2 dropId.length_bytes)]
      exact DropId.make_eq_ok_iff.2 rfl

/-- The text spells 52 symbols as the encoder would not write them: with a character from outside
its alphabet, or with one of the four spare bits set. -/
def IsAlias (text : String) : Prop :=
  ∃ body ds, text = "b3:" ++ body ∧ Spells body ds ∧ ds.length = 52 ∧
    ((∃ c ∈ body.toList, c ∉ lowerAlphabet) ∨ ∃ d ∈ ds.getLast?, d % 16 ≠ 0)

/-- A text that is no alias is the text of the drop id that it is read as. -/
theorem DropId.toText_of_parseText {text : String} {dropId : DropId} (hnone : ¬ IsAlias text)
    (hparse : DropId.parseText text = .ok dropId) : dropId.toText = text := by
  rcases DropId.parseText_eq_ok_iff.1 hparse with ⟨body, rfl, hbody⟩
  rcases decodeBase32LowerNopad_eq_ok_iff.1 hbody with ⟨ds, hspells, hbytes⟩
  have hlen : ds.length = 52 := by
    rw [← length_b32Bytes_eq_iff, ← hbytes]
    exact dropId.length_bytes
  rw [DropId.toText, hbytes, hspells.encode_eq_iff.2]
  refine ⟨?_, (spareBitsZero_iff hlen).2 ?_⟩
  · intro c hc
    by_contra hout
    exact hnone ⟨body, ds, rfl, hspells, hlen, .inl ⟨c, hc, hout⟩⟩
  · intro d hd
    by_contra hset
    exact hnone ⟨body, ds, rfl, hspells, hlen, .inr ⟨d, hd, hset⟩⟩

/-- An alias is read as a drop id, whose text is another one. -/
theorem IsAlias.exists_toText_ne {text : String} (h : IsAlias text) :
    ∃ dropId, DropId.parseText text = .ok dropId ∧ dropId.toText ≠ text := by
  rcases h with ⟨body, ds, rfl, hspells, hlen, halias⟩
  have hbytes : (b32Bytes ds).length = blake3Len := length_b32Bytes_eq_iff.2 hlen
  refine ⟨⟨b32Bytes ds, hbytes⟩, DropId.parseText_eq_ok_iff.2
    ⟨body, rfl, decodeBase32LowerNopad_eq_ok_iff.2 ⟨ds, hspells, rfl⟩⟩, ?_⟩
  intro htext
  simp only [DropId.toText, String.append_right_inj] at htext
  rcases hspells.encode_eq_iff.1 htext with ⟨hlower, hzero⟩
  rcases halias with ⟨c, hc, hout⟩ | ⟨d, hd, hset⟩
  · exact hout (hlower c hc)
  · exact hset ((spareBitsZero_iff hlen).1 hzero d hd)

/-- The text form is canonical on exactly the texts that are no aliases, and among these no two
denote one drop id. -/
theorem textCanonical_iff :
    (∀ text, (∀ dropId, DropId.parseText text = .ok dropId → dropId.toText = text) ↔
      ¬ IsAlias text) ∧
    ∀ text text' dropId, ¬ IsAlias text → ¬ IsAlias text' →
      DropId.parseText text = .ok dropId → DropId.parseText text' = .ok dropId → text = text' := by
  constructor
  · intro text
    constructor
    · intro hcanonical halias
      rcases halias.exists_toText_ne with ⟨dropId, hparse, hne⟩
      exact hne (hcanonical dropId hparse)
    · exact fun hnone dropId hparse => DropId.toText_of_parseText hnone hparse
  · intro text text' dropId hnone hnone' hparse hparse'
    rw [← DropId.toText_of_parseText hnone hparse, DropId.toText_of_parseText hnone' hparse']

/-- Encoding and decoding text are inverse on byte strings of every length. -/
theorem base32Text_roundTrip :
    (∀ bs, decodeBase32LowerNopad (encodeBase32LowerNopad bs) = .ok bs) ∧
      (∀ dropId : DropId, DropId.parseText dropId.toText = .ok dropId) ∧
      (∀ a b : DropId, a.toText = b.toText → a = b) ∧
      (∀ a b : ManifestRoot, a.toText = b.toText → a = b) := by
  refine ⟨decode_encodeBase32LowerNopad, ?_, fun _ _ => DropId.toText_inj,
    fun _ _ => ManifestRoot.toText_inj⟩
  intro dropId
  rw [DropId.parseText_eq_ok_iff]
  exact ⟨_, rfl, decode_encodeBase32LowerNopad dropId.bytes⟩

end Text

namespace Reference.Latin

/-- Upper case in Latin-1; `ß` becomes two letters, and `µ` and `ÿ` leave that range. -/
def latinUpper (c : Char) : List Char :=
  if c.toNat < 128 then [c.toUpper]
  else if c.toNat = 0xDF then ['S', 'S']
  else if c.toNat = 0xB5 then [Char.ofNat 0x39C]
  else if c.toNat = 0xFF then [Char.ofNat 0x178]
  else if 0xE0 ≤ c.toNat ∧ c.toNat < 0xFF ∧ c.toNat ≠ 0xF7 then [Char.ofNat (c.toNat - 0x20)]
  else [c]

theorem latinUpper_ascii (c : Char) (hc : c.toNat < 128) : latinUpper c = [c.toUpper] :=
  if_pos hc

scoped instance unicodeCase : UnicodeCase where
  upper := latinUpper
  upper_ascii := latinUpper_ascii

end Reference.Latin

open scoped Reference.Latin in
/-- With the lowest spare bit set, the text of the id of zeros is read as that id too. -/
theorem not_textCanonical_spareBit :
    ¬ ∀ dropId, DropId.parseText "b3:aaaaaaaaaaaaaaaaaaaaaaaaaaaaaaaaaaaaaaaaaaaaaaaaaaab" =
      .ok dropId → dropId.toText = "b3:aaaaaaaaaaaaaaaaaaaaaaaaaaaaaaaaaaaaaaaaaaaaaaaaaaab" := by
  have halias : IsAlias "b3:aaaaaaaaaaaaaaaaaaaaaaaaaaaaaaaaaaaaaaaaaaaaaaaaaaab" := by
    refine ⟨lowerText (List.replicate 51 0 ++ [1]), List.replicate 51 0 ++ [1], by decide,
      spells_lowerText ?_ (by decide), by decide, .inr ⟨1, by decide, by decide⟩⟩
    decide
  rcases halias.exists_toText_ne with ⟨dropId, hparse, hne⟩
  exact fun hcanonical => hne (hcanonical dropId hparse)

end LimniFs
