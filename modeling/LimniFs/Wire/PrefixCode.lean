import LimniFs.Wire.LittleEndian

/-!
# PrefixCode — encodings that can be told apart where they stand

`PrefixCode P wire` says that in front of any rest the encoding of a value in `P` ends at one place
only and belongs to one value only.  No parser is needed to say it, so it also speaks of values
that a reader refuses.
-/

namespace Wire

variable {τ α β : Type}

/-- Two texts that begin with encodings of values in `P` and are equal begin with one encoding. -/
def PrefixCode (P : α → Prop) (wire : α → List τ) : Prop :=
  ∀ ⦃a b : α⦄ ⦃xs ys : List τ⦄, P a → P b → wire a ++ xs = wire b ++ ys → a = b ∧ xs = ys

namespace PrefixCode

variable {P : α → Prop} {Q : β → Prop} {wire : α → List τ} {n : Nat}

theorem inj (h : PrefixCode P wire) {a b : α} (ha : P a) (hb : P b) (heq : wire a = wire b) :
    a = b :=
  (h ha hb (congrArg (· ++ []) heq)).1

theorem mono {P' : α → Prop} (h : PrefixCode P wire) (himp : ∀ a, P' a → P a) :
    PrefixCode P' wire :=
  fun _ _ _ _ ha hb heq => h (himp _ ha) (himp _ hb) heq

/-- The same encodings, written down in another way. -/
theorem congr (wire : α → List τ) {wire' : α → List τ} (h : PrefixCode P wire)
    (hwire : ∀ a, P a → wire' a = wire a) : PrefixCode P wire' := by
  intro a b xs ys ha hb heq
  rw [hwire a ha, hwire b hb] at heq
  exact h ha hb heq

/-- A value is written as another one that determines it. -/
theorem comap (f : β → α) (h : PrefixCode P wire) (hP : ∀ b, Q b → P (f b))
    (hinj : ∀ b b', Q b → Q b' → f b = f b' → b = b') : PrefixCode Q fun b => wire (f b) := by
  intro b b' xs ys hb hb' heq
  rcases h (hP b hb) (hP b' hb') heq with ⟨hf, hrest⟩
  exact ⟨hinj b b' hb hb' hf, hrest⟩

/-! ## Elements -/

theorem block (n : Nat) : PrefixCode (fun xs : List τ => xs.length = n) fun xs => xs := by
  intro a b xs ys ha hb heq
  exact List.append_inj heq (ha.trans hb.symm)

theorem number (width : Nat) : PrefixCode (· < 256 ^ width) (toLe width) := by
  intro a b xs ys ha hb heq
  have hlen : (toLe width a).length = (toLe width b).length := by
    rw [length_toLe, length_toLe]
  rcases List.append_inj heq hlen with ⟨hnum, hrest⟩
  -- A number that fits is read back from its bytes.
  have hab : a = b := by
    calc
      a = ofLe (toLe width a) := (ofLe_toLe ha).symm
      _ = ofLe (toLe width b) := by rw [hnum]
      _ = b := ofLe_toLe hb
  exact ⟨hab, hrest⟩

/-- A reader that gives back every encoding together with what follows it. -/
theorem of_reader (read : List τ → Option (α × List τ))
    (h : ∀ a xs, P a → read (wire a ++ xs) = some (a, xs)) : PrefixCode P wire := by
  intro a b xs ys ha hb heq
  have hread : some (a, xs) = some (b, ys) := by
    rw [← h a xs ha, ← h b ys hb, heq]
  exact Prod.mk.inj (Option.some.inj hread)

/-- Two texts of which neither begins with the other. -/
theorem bool {yes no : List τ} (h : ∀ xs ys, yes ++ xs ≠ no ++ ys) :
    PrefixCode (fun _ : Bool => True) fun b => if b then yes else no := by
  rintro (_ | _) (_ | _) xs ys - - heq
  · exact ⟨rfl, List.append_cancel_left heq⟩
  · exact absurd heq.symm (h ys xs)
  · exact absurd heq (h xs ys)
  · exact ⟨rfl, List.append_cancel_left heq⟩

/-! ## Composition -/

/-- Fixed symbols in front of every encoding. -/
theorem marked (h : PrefixCode P wire) (marker : List τ) :
    PrefixCode P fun a => marker ++ wire a := by
  intro a b xs ys ha hb heq
  simp only [List.append_assoc] at heq
  exact h ha hb (List.append_cancel_left heq)

/-- Fixed symbols behind every encoding. -/
theorem followed (h : PrefixCode P wire) (tail : List τ) :
    PrefixCode P fun a => wire a ++ tail := by
  intro a b xs ys ha hb heq
  simp only [List.append_assoc] at heq
  rcases h ha hb heq with ⟨hab, hrest⟩
  exact ⟨hab, List.append_cancel_left hrest⟩

/-- One field of a record: what follows it may be told apart with the field's value known. -/
theorem field (key : β → α) {rest : β → List τ} (hkey : PrefixCode P wire)
    (hP : ∀ b, Q b → P (key b)) (hrest : ∀ a, PrefixCode (fun b => Q b ∧ key b = a) rest) :
    PrefixCode Q fun b => wire (key b) ++ rest b := by
  intro b b' xs ys hb hb' heq
  simp only [List.append_assoc] at heq
  rcases hkey (hP b hb) (hP b' hb') heq with ⟨hfield, htail⟩
  exact hrest (key b') ⟨hb, hfield⟩ ⟨hb', rfl⟩ htail

/-- The elements of a list whose length is known. -/
theorem each (h : PrefixCode P wire) (n : Nat) :
    PrefixCode (fun as : List α => as.length = n ∧ ∀ a ∈ as, P a) fun as => as.flatMap wire := by
  intro as
  induction as generalizing n with
  | nil =>
      rintro bs xs ys ⟨hlen, -⟩ ⟨hlen', -⟩ heq
      obtain rfl : bs = [] := List.length_eq_zero_iff.1 (hlen'.trans hlen.symm)
      exact ⟨rfl, heq⟩
  | cons a as ih =>
      rintro bs xs ys ⟨hlen, has⟩ ⟨hlen', hbs⟩ heq
      cases bs with
      | nil =>
          simp only [List.length_cons, List.length_nil] at hlen hlen'
          omega
      | cons b bs =>
          rw [List.forall_mem_cons] at has hbs
          simp only [List.flatMap_cons, List.append_assoc] at heq
          -- The first elements are told apart by what they are, the others by the induction.
          rcases h has.1 hbs.1 heq with ⟨rfl, htail⟩
          have hlens : bs.length = as.length := by
            simp only [List.length_cons] at hlen hlen'
            omega
          rcases ih as.length ⟨rfl, has.2⟩ ⟨hlens, hbs.2⟩ htail with ⟨rfl, hrest⟩
          exact ⟨rfl, hrest⟩

/-- A list in front of a symbol with which no element begins. -/
theorem terminated (h : PrefixCode P wire) (stop : τ)
    (hstop : ∀ a, P a → ∀ xs ys, wire a ++ xs ≠ stop :: ys) :
    PrefixCode (fun as : List α => ∀ a ∈ as, P a) fun as => as.flatMap wire ++ [stop] := by
  intro as
  induction as with
  | nil =>
      rintro (_ | ⟨b, bs⟩) xs ys - hbs heq
      · exact ⟨rfl, List.tail_eq_of_cons_eq heq⟩
      · simp only [List.flatMap_cons, List.append_assoc] at heq
        exact absurd heq.symm (hstop b (hbs b List.mem_cons_self) _ _)
  | cons a as ih =>
      rintro (_ | ⟨b, bs⟩) xs ys has hbs heq
      · simp only [List.flatMap_cons, List.append_assoc] at heq
        exact absurd heq (hstop a (has a List.mem_cons_self) _ _)
      · rw [List.forall_mem_cons] at has hbs
        simp only [List.flatMap_cons, List.append_assoc] at heq
        rcases h has.1 hbs.1 heq with ⟨rfl, htail⟩
        rw [← List.append_assoc, ← List.append_assoc] at htail
        rcases ih has.2 hbs.2 htail with ⟨rfl, hrest⟩
        exact ⟨rfl, hrest⟩

/-- Encodings one after another, without a count, determine the list. -/
theorem flatMap_inj (h : PrefixCode P wire) (hne : ∀ a, P a → wire a ≠ []) {as bs : List α}
    (ha : ∀ a ∈ as, P a) (hb : ∀ b ∈ bs, P b) (heq : as.flatMap wire = bs.flatMap wire) :
    as = bs := by
  induction as generalizing bs with
  | nil =>
      rcases bs with _ | ⟨b, bs⟩
      · rfl
      · have hnil := (List.append_eq_nil_iff.1 heq.symm).1
        exact absurd hnil (hne b (hb b List.mem_cons_self))
  | cons a as ih =>
      rcases bs with _ | ⟨b, bs⟩
      · have hnil := (List.append_eq_nil_iff.1 heq).1
        exact absurd hnil (hne a (ha a List.mem_cons_self))
      · rw [List.forall_mem_cons] at ha hb
        rcases h ha.1 hb.1 heq with ⟨rfl, htail⟩
        rw [ih ha.2 hb.2 htail]

/-- A list behind its length. -/
theorem counted {wire : α → Bytes} (h : PrefixCode P wire) (width : Nat) :
    PrefixCode (fun as : List α => as.length < 256 ^ width ∧ ∀ a ∈ as, P a)
      fun as => toLe width as.length ++ as.flatMap wire := by
  apply field List.length (number width) fun as has => has.1
  intro n
  exact (h.each n).mono fun as has => ⟨has.2, has.1.2⟩

/-- A byte string behind its length. -/
theorem lengthPrefixed (width : Nat) :
    PrefixCode (fun bs : Bytes => bs.length < 256 ^ width)
      fun bs => toLe width bs.length ++ bs := by
  apply field List.length (number width) fun bs hbs => hbs
  intro n
  exact (block n).mono fun bs hbs => hbs.2

end PrefixCode

end Wire
