import LimniFs.Wire.Digits
import LimniFs.Wire.Utf16

/-!
# Json — the text of a value and what it determines

`json.dumps` with its default settings on null, booleans, natural numbers, texts, lists and
dictionaries: one line of printable ASCII, from which the value can be read back in front of any
text that does not begin with a digit.  A text goes out code unit by code unit, so that is what it
consists of here.
-/

namespace Wire

inductive Json
  | null
  | bool (b : Bool)
  | number (n : Nat)
  | string (units : List UInt16)
  | array (items : List Json)
  | object (members : List (String × Json))

/-! ## Texts -/

private def quote : Char := Char.ofNat 0x22
private def escapeMark : Char := Char.ofNat 0x5C

/-- The escapes with a letter of their own: `\"`, `\\`, `\b`, `\f`, `\n`, `\r`, `\t`. -/
def shortEscapes : List (Nat × Char) :=
  [(0x22, quote), (0x5C, escapeMark), (0x08, 'b'), (0x0C, 'f'), (0x0A, 'n'), (0x0D, 'r'),
    (0x09, 't')]

/-- `\uXXXX` -/
def unicodeEscape (n : Nat) : List Char :=
  escapeMark :: 'u' :: paddedHex 4 n

/-- One code unit of a text, escaped outside the printable ASCII range.  Beyond the basic plane the
two halves of a surrogate pair are escaped one after the other. -/
def escapeUnit (n : Nat) : List Char :=
  match shortEscapes.lookup n with
  | some letter => [escapeMark, letter]
  | none =>
      if 0x20 ≤ n ∧ n ≤ 0x7E then [Char.ofNat n] else unicodeEscape n

def quoted (units : List UInt16) : List Char :=
  quote :: ((units.flatMap fun u => escapeUnit u.toNat) ++ [quote])

/-! ## Values -/

mutual

/-- `json.dumps(value)` -/
def Json.text : Json → List Char
  | .null => ['n', 'u', 'l', 'l']
  | .bool true => ['t', 'r', 'u', 'e']
  | .bool false => ['f', 'a', 'l', 's', 'e']
  | .number n => decimal n
  | .string units => quoted units
  | .array [] => ['[', ']']
  | .array (item :: items) => '[' :: (item.text ++ itemsText items)
  | .object [] => [Char.ofNat 0x7B, Char.ofNat 0x7D]
  | .object ((key, value) :: members) =>
      Char.ofNat 0x7B :: (quoted (utf16 key) ++ (':' :: ' ' :: (value.text ++ membersText members)))

/-- The items behind the first one, and the bracket. -/
def itemsText : List Json → List Char
  | [] => [']']
  | item :: items => ',' :: ' ' :: (item.text ++ itemsText items)

def membersText : List (String × Json) → List Char
  | [] => [Char.ofNat 0x7D]
  | (key, value) :: members =>
      ',' :: ' ' :: (quoted (utf16 key) ++ (':' :: ' ' :: (value.text ++ membersText members)))

end

/-! ## Reading a text back -/

def readHex4 : List Char → Option (Nat × List Char)
  | a :: b :: c :: d :: rest => some (hexValue [a, b, c, d], rest)
  | _ => none

/-- One plain character or one escape, as a code unit. -/
def readUnit : List Char → Option (Nat × List Char)
  | [] => none
  | c :: rest =>
      if c ≠ escapeMark then some (c.toNat, rest)
      else match rest with
        | [] => none
        | letter :: rest =>
            if letter = 'u' then readHex4 rest
            else (shortEscapes.find? fun escape => escape.2 = letter).map fun escape =>
              (escape.1, rest)

theorem readUnit_unicodeEscape {n : Nat} (h : n < 0x10000) (xs : List Char) :
    readUnit (unicodeEscape n ++ xs) = some (n, xs) := by
  have hlen : (paddedHex 4 n).length = 4 := length_paddedHex (by decide) h
  have hvalue := hexValue_paddedHex 4 n
  -- Four digits, whose value is the number.
  match hhex : paddedHex 4 n, hlen with
  | [a, b, c, d], _ =>
      rw [hhex] at hvalue
      simp [unicodeEscape, readUnit, readHex4, hhex, hvalue]

theorem readUnit_short : ∀ escape ∈ shortEscapes, ∀ xs : List Char,
    readUnit (escapeMark :: escape.2 :: xs) = some (escape.1, xs) := by
  intro escape hescape xs
  have htable : ∀ escape ∈ shortEscapes, escape.2 ≠ 'u' ∧
      shortEscapes.find? (fun other => other.2 = escape.2) = some escape := by
    decide
  rcases htable escape hescape with ⟨hletter, hfind⟩
  simp [readUnit, hletter, hfind]

theorem mem_of_lookup {α β : Type} [BEq α] [LawfulBEq α] {table : List (α × β)} {a : α} {b : β}
    (h : table.lookup a = some b) : (a, b) ∈ table := by
  rcases List.lookup_eq_some_iff.1 h with ⟨l₁, l₂, rfl, -⟩
  simp

theorem toNat_ofNat_plain : ∀ n < 0x7F, (Char.ofNat n).toNat = n := by
  decide

theorem readUnit_escapeUnit {n : Nat} (h : n < 0x10000) (xs : List Char) :
    readUnit (escapeUnit n ++ xs) = some (n, xs) := by
  unfold escapeUnit
  split
  · rename_i letter hlookup
    exact readUnit_short _ (mem_of_lookup hlookup) xs
  · rename_i hlookup
    split
    -- A plain character is not the mark, since the mark has an escape.
    · rename_i hplain
      have hnum : (Char.ofNat n).toNat = n := toNat_ofNat_plain n (by omega)
      have hmark : Char.ofNat n ≠ escapeMark := by
        intro heq
        rw [heq] at hnum
        subst hnum
        exact absurd hlookup (by decide)
      simp [readUnit, hmark, hnum]
    · exact readUnit_unicodeEscape h xs

/-- No escaped unit begins with a quote. -/
theorem escapeUnit_ne_quote (n : Nat) (xs ys : List Char) : escapeUnit n ++ xs ≠ quote :: ys := by
  unfold escapeUnit
  split
  · intro heq
    exact absurd (List.cons.inj heq).1 (by decide)
  · rename_i hlookup
    split
    · rename_i hplain
      intro heq
      have hnum : (Char.ofNat n).toNat = n := toNat_ofNat_plain n (by omega)
      rw [(List.cons.inj heq).1] at hnum
      subst hnum
      exact absurd hlookup (by decide)
    · intro heq
      exact absurd (List.cons.inj heq).1 (by decide)

theorem escapeUnit_prefixCode :
    PrefixCode (fun _ : UInt16 => True) fun u => escapeUnit u.toNat := by
  apply PrefixCode.comap UInt16.toNat
    (PrefixCode.of_reader (P := (· < 0x10000)) readUnit fun _ xs hn => readUnit_escapeUnit hn xs)
  · exact fun u _ => u.toNat_lt
  · exact fun u v _ _ h => UInt16.toNat_inj.1 h

theorem quoted_prefixCode : PrefixCode (fun _ : List UInt16 => True) quoted := by
  apply PrefixCode.marked _ [quote]
  exact (escapeUnit_prefixCode.terminated quote fun u _ => escapeUnit_ne_quote u.toNat).mono
    fun _ _ _ _ => trivial

/-- The quoted key of a member. -/
theorem quoted_key_prefixCode : PrefixCode (fun _ : String => True) fun key => quoted (utf16 key) :=
  quoted_prefixCode.comap utf16 (fun _ _ => trivial) fun _ _ _ _ h => utf16_inj.1 h

/-! ## What a text determines -/

/-- The constructor of a value. -/
def Json.kind : Json → Nat
  | .null => 0
  | .bool _ => 1
  | .number _ => 2
  | .string _ => 3
  | .array _ => 4
  | .object _ => 5

/-- The constructor of the values whose text begins with this character. -/
def kindOf (c : Char) : Nat :=
  if c.isDigit then 2
  else if c = 'n' then 0
  else if c = 't' ∨ c = 'f' then 1
  else if c = quote then 3
  else if c = '[' then 4
  else if c = Char.ofNat 0x7B then 5
  else 6

theorem Json.text_head (value : Json) :
    ∃ c rest, value.text = c :: rest ∧ kindOf c = value.kind := by
  rcases value with _ | (_ | _) | n | s | (_ | ⟨item, items⟩) | (_ | ⟨⟨key, value⟩, members⟩)
  case number =>
    rcases hdigits : decimal n with _ | ⟨c, rest⟩
    · exact absurd hdigits decimal_ne_nil
    · have hdigit : c.isDigit := decimal_isDigit c (hdigits ▸ List.mem_cons_self)
      refine ⟨c, rest, by rw [Json.text, hdigits], ?_⟩
      simp [kindOf, hdigit, Json.kind]
  all_goals
    rw [Json.text]
    exact ⟨_, _, rfl, by dsimp only [Json.kind]; decide⟩

theorem Json.kind_eq {a b : Json} {xs ys : List Char} (h : a.text ++ xs = b.text ++ ys) :
    a.kind = b.kind := by
  rcases a.text_head with ⟨c, rest, ha, hkind⟩
  rcases b.text_head with ⟨d, rest', hb, hkind'⟩
  rw [ha, hb] at h
  rw [← hkind, ← hkind', (List.cons.inj h).1]

/-- No value begins as a list or a dictionary ends. -/
theorem Json.text_ne_close (value : Json) (xs ys : List Char) {c : Char} (hc : kindOf c = 6) :
    value.text ++ xs ≠ c :: ys := by
  rcases value.text_head with ⟨d, rest, hd, hkind⟩
  intro heq
  rw [hd] at heq
  have hdc : d = c := (List.cons.inj heq).1
  rw [hdc, hc] at hkind
  cases value <;> cases hkind

theorem itemsText_stops (items : List Json) (xs : List Char) :
    StopsAt Char.isDigit (itemsText items ++ xs) := by
  cases items with
  | nil =>
      exact stopsAt_cons (by decide)
  | cons item items =>
      rw [itemsText]
      exact stopsAt_cons (by decide)

theorem membersText_stops (members : List (String × Json)) (xs : List Char) :
    StopsAt Char.isDigit (membersText members ++ xs) := by
  rcases members with _ | ⟨⟨key, value⟩, members⟩
  · exact stopsAt_cons (by decide)
  · rw [membersText]
    exact stopsAt_cons (by decide)

mutual

/-- Two texts that begin with values and are equal begin with the same value, unless a number goes
on behind one of them. -/
theorem Json.text_append_inj (a b : Json) {xs ys : List Char} (hx : StopsAt Char.isDigit xs)
    (hy : StopsAt Char.isDigit ys) (h : a.text ++ xs = b.text ++ ys) : a = b ∧ xs = ys := by
  have hkind := Json.kind_eq h
  match a, b with
  | .null, .null => exact ⟨rfl, List.append_cancel_left h⟩
  | .bool true, .bool true => exact ⟨rfl, List.append_cancel_left h⟩
  | .bool false, .bool false => exact ⟨rfl, List.append_cancel_left h⟩
  | .bool true, .bool false => exact absurd (List.cons.inj h).1 (by decide)
  | .bool false, .bool true => exact absurd (List.cons.inj h).1 (by decide)
  | .number m, .number n =>
      rw [Json.text, Json.text] at h
      rcases decimal_append_inj hx hy h with ⟨rfl, hrest⟩
      exact ⟨rfl, hrest⟩
  | .string s, .string t =>
      rw [Json.text, Json.text] at h
      rcases quoted_prefixCode trivial trivial h with ⟨rfl, hrest⟩
      exact ⟨rfl, hrest⟩
  | .array [], .array [] => exact ⟨rfl, List.append_cancel_left h⟩
  | .array [], .array (item :: items) =>
      simp only [Json.text, List.cons_append, List.append_assoc] at h
      exact absurd (List.cons.inj h).2.symm (item.text_ne_close _ _ (by decide))
  | .array (item :: items), .array [] =>
      simp only [Json.text, List.cons_append, List.append_assoc] at h
      exact absurd (List.cons.inj h).2 (item.text_ne_close _ _ (by decide))
  | .array (item :: items), .array (item' :: items') =>
      simp only [Json.text, List.cons_append, List.append_assoc] at h
      rcases Json.text_append_inj item item' (itemsText_stops items xs) (itemsText_stops items' ys)
        (List.cons.inj h).2 with ⟨rfl, htail⟩
      rcases itemsText_append_inj items items' htail with ⟨rfl, hrest⟩
      exact ⟨rfl, hrest⟩
  | .object [], .object [] => exact ⟨rfl, List.append_cancel_left h⟩
  | .object [], .object ((key, value) :: members) =>
      simp only [Json.text, quoted, List.cons_append, List.append_assoc] at h
      exact absurd (List.cons.inj (List.cons.inj h).2).1 (by decide)
  | .object ((key, value) :: members), .object [] =>
      simp only [Json.text, quoted, List.cons_append, List.append_assoc] at h
      exact absurd (List.cons.inj (List.cons.inj h).2).1 (by decide)
  | .object ((key, value) :: members), .object ((key', value') :: members') =>
      simp only [Json.text, List.cons_append, List.append_assoc] at h
      rcases quoted_key_prefixCode trivial trivial (List.cons.inj h).2 with ⟨rfl, hvalue⟩
      rcases Json.text_append_inj value value' (membersText_stops members xs)
        (membersText_stops members' ys) (List.cons.inj (List.cons.inj hvalue).2).2 with
        ⟨rfl, htail⟩
      rcases membersText_append_inj members members' htail with ⟨rfl, hrest⟩
      exact ⟨rfl, hrest⟩

theorem itemsText_append_inj (as bs : List Json) {xs ys : List Char}
    (h : itemsText as ++ xs = itemsText bs ++ ys) : as = bs ∧ xs = ys := by
  match as, bs with
  | [], [] => exact ⟨rfl, List.append_cancel_left h⟩
  | [], b :: bs =>
      rw [itemsText, itemsText] at h
      exact absurd (List.cons.inj h).1 (by decide)
  | a :: as, [] =>
      rw [itemsText, itemsText] at h
      exact absurd (List.cons.inj h).1 (by decide)
  | a :: as, b :: bs =>
      simp only [itemsText, List.cons_append, List.append_assoc] at h
      rcases Json.text_append_inj a b (itemsText_stops as xs) (itemsText_stops bs ys)
        (List.cons.inj (List.cons.inj h).2).2 with ⟨rfl, htail⟩
      rcases itemsText_append_inj as bs htail with ⟨rfl, hrest⟩
      exact ⟨rfl, hrest⟩

theorem membersText_append_inj (as bs : List (String × Json)) {xs ys : List Char}
    (h : membersText as ++ xs = membersText bs ++ ys) : as = bs ∧ xs = ys := by
  match as, bs with
  | [], [] => exact ⟨rfl, List.append_cancel_left h⟩
  | [], (key, value) :: bs =>
      rw [membersText, membersText] at h
      exact absurd (List.cons.inj h).1 (by decide)
  | (key, value) :: as, [] =>
      rw [membersText, membersText] at h
      exact absurd (List.cons.inj h).1 (by decide)
  | (key, value) :: as, (key', value') :: bs =>
      simp only [membersText, List.cons_append, List.append_assoc] at h
      rcases quoted_key_prefixCode trivial trivial (List.cons.inj (List.cons.inj h).2).2 with
        ⟨rfl, hvalue⟩
      rcases Json.text_append_inj value value' (membersText_stops as xs) (membersText_stops bs ys)
        (List.cons.inj (List.cons.inj hvalue).2).2 with ⟨rfl, htail⟩
      rcases membersText_append_inj as bs htail with ⟨rfl, hrest⟩
      exact ⟨rfl, hrest⟩

end

/-! ## Printable ASCII -/

/-- A printable ASCII character: no line break in particular. -/
def Printable (c : Char) : Prop :=
  0x20 ≤ c.toNat ∧ c.toNat ≤ 0x7E

theorem printable_of_isDigit {c : Char} (h : c.isDigit) : Printable c := by
  simp only [Char.isDigit, Bool.and_eq_true, decide_eq_true_eq, UInt32.le_iff_toNat_le] at h
  have hval : c.val.toNat = c.toNat := rfl
  have hlow : ('0' : Char).val.toNat = 48 := rfl
  have hhigh : ('9' : Char).val.toNat = 57 := rfl
  unfold Printable
  omega

theorem printable_digitChar : ∀ d < 16, Printable (Nat.digitChar d) := by
  unfold Printable
  decide

theorem printable_paddedHex (width n : Nat) : ∀ c ∈ paddedHex width n, Printable c := by
  unfold paddedHex
  rw [List.forall_mem_append]
  refine ⟨fun c hc => ?_, fun c hc => ?_⟩
  · rw [List.eq_of_mem_replicate hc]
    exact ⟨by decide, by decide⟩
  · rcases exists_digitChar c hc with ⟨d, hd, rfl⟩
    exact printable_digitChar d hd

theorem printable_unicodeEscape (n : Nat) : ∀ c ∈ unicodeEscape n, Printable c := by
  unfold unicodeEscape
  rw [List.forall_mem_cons, List.forall_mem_cons]
  exact ⟨⟨by decide, by decide⟩, ⟨by decide, by decide⟩, printable_paddedHex 4 n⟩

theorem printable_shortEscapes : ∀ escape ∈ shortEscapes, Printable escape.2 := by
  unfold Printable
  decide

theorem printable_escapeUnit (n : Nat) : ∀ c ∈ escapeUnit n, Printable c := by
  unfold escapeUnit
  split
  · rename_i letter hlookup
    rw [List.forall_mem_cons, List.forall_mem_singleton]
    exact ⟨⟨by decide, by decide⟩, printable_shortEscapes _ (mem_of_lookup hlookup)⟩
  split
  · rename_i hplain
    have hnum : (Char.ofNat n).toNat = n := toNat_ofNat_plain n (by omega)
    rw [List.forall_mem_singleton, Printable, hnum]
    exact hplain
  · exact printable_unicodeEscape n

theorem printable_quoted (units : List UInt16) : ∀ c ∈ quoted units, Printable c := by
  unfold quoted
  rw [List.forall_mem_cons, List.forall_mem_append, List.forall_mem_singleton]
  refine ⟨⟨by decide, by decide⟩, ?_, ⟨by decide, by decide⟩⟩
  intro c hc
  rcases List.mem_flatMap.1 hc with ⟨u, -, hmem⟩
  exact printable_escapeUnit u.toNat c hmem

/-- Punctuation between printable texts. -/
theorem printable_cons {c : Char} {cs : List Char} (hc : Printable c)
    (hcs : ∀ d ∈ cs, Printable d) : ∀ d ∈ c :: cs, Printable d :=
  List.forall_mem_cons.2 ⟨hc, hcs⟩

theorem printable_append {cs ds : List Char} (hcs : ∀ c ∈ cs, Printable c)
    (hds : ∀ d ∈ ds, Printable d) : ∀ c ∈ cs ++ ds, Printable c :=
  List.forall_mem_append.2 ⟨hcs, hds⟩

mutual

theorem Json.printable_text (value : Json) : ∀ c ∈ value.text, Printable c := by
  match value with
  | .null => simp [Json.text, Printable]
  | .bool true => simp [Json.text, Printable]
  | .bool false => simp [Json.text, Printable]
  | .number n =>
      rw [Json.text]
      exact fun c hc => printable_of_isDigit (decimal_isDigit c hc)
  | .string units =>
      rw [Json.text]
      exact printable_quoted units
  | .array [] => simp [Json.text, Printable]
  | .array (item :: items) =>
      rw [Json.text]
      exact printable_cons ⟨by decide, by decide⟩
        (printable_append item.printable_text (printable_itemsText items))
  | .object [] => simp [Json.text, Printable]
  | .object ((key, value) :: members) =>
      rw [Json.text]
      exact printable_cons ⟨by decide, by decide⟩ (printable_append (printable_quoted _)
        (printable_cons ⟨by decide, by decide⟩ (printable_cons ⟨by decide, by decide⟩
          (printable_append value.printable_text (printable_membersText members)))))

theorem printable_itemsText (items : List Json) : ∀ c ∈ itemsText items, Printable c := by
  match items with
  | [] => simp [itemsText, Printable]
  | item :: items =>
      rw [itemsText]
      exact printable_cons ⟨by decide, by decide⟩ (printable_cons ⟨by decide, by decide⟩
        (printable_append item.printable_text (printable_itemsText items)))

theorem printable_membersText (members : List (String × Json)) :
    ∀ c ∈ membersText members, Printable c := by
  match members with
  | [] => simp [membersText, Printable]
  | (key, value) :: members =>
      rw [membersText]
      exact printable_cons ⟨by decide, by decide⟩ (printable_cons ⟨by decide, by decide⟩
        (printable_append (printable_quoted _) (printable_cons ⟨by decide, by decide⟩
          (printable_cons ⟨by decide, by decide⟩
            (printable_append value.printable_text (printable_membersText members))))))

end

end Wire
