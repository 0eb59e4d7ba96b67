import LimniFs.Wire.Decodes
import LimniFs.Wire.Reorder

/-!
# Keyed — sections whose records may come in any order

A section is a head that carries the number of its records, and the records one after another.  It
stands for a map when its bytes may be reordered record by record without changing what is looked
up in it.
-/

namespace Wire

variable {τ ε α β : Type}

/-- Whatever `p` accepts consists of a head and of the encodings of its records; in every order of
these encodings, and in front of anything, the bytes are accepted again, as long as they were, and
the section that is read is the `Same` as before. -/
def Reorders (p : Parser τ ε β) (records : β → List α) (head : Nat → List τ) (enc : α → List τ)
    (Same : β → β → Prop) : Prop :=
  ∀ c b c', p c = .ok (b, c') →
    c.Consumes (head (records b).length ++ ((records b).map enc).flatten) c' ∧
      ∀ recs : List (List τ), recs.Perm ((records b).map enc) → ∀ d tail,
        d.remaining = head (records b).length ++ recs.flatten ++ tail →
          ∃ b' d', p d = .ok (b', d') ∧ d'.remaining = tail ∧
            d'.pos - d.pos = c'.pos - c.pos ∧ Same b b'

/-- A section whose validity and whose meaning do not depend on the order of its records. -/
theorem Decodes.reorders {T : ε → Prop} {p : Parser τ ε β} {Valid : β → Prop} {wire : β → List τ}
    {records : β → List α} {head : Nat → List τ} {enc : α → List τ} {Same : β → β → Prop}
    (h : Decodes T p Valid wire)
    (hwire : ∀ b, wire b = head (records b).length ++ (records b).flatMap enc)
    (hperm : ∀ b, Valid b → ∀ as, as.Perm (records b) →
      ∃ b', records b' = as ∧ Valid b' ∧ Same b b') :
    Reorders p records head enc Same := by
  intro c b c' hp
  rcases h.sound hp with ⟨hb, hc⟩
  rw [hwire, List.flatMap_def] at hc
  refine ⟨hc, ?_⟩
  intro recs hrecs d tail hd
  -- The reordered encodings are those of the reordered records.
  rcases exists_perm_of_perm_map hrecs with ⟨as, has, rfl⟩
  rcases hperm b hb as has with ⟨b', rfl, hb', hsame⟩
  have hwire' : d.remaining = wire b' ++ tail := by
    rw [hd, hwire, List.flatMap_def, has.length_eq]
  rcases Cursor.Consumes.of_append hwire' with ⟨d', hd', htail⟩
  refine ⟨b', d', h.complete hb' hd', htail, ?_, hsame⟩
  have hlen : (wire b').length =
      (head (records b).length ++ ((records b).map enc).flatten).length := by
    rw [hwire, has.length_eq, List.flatMap_def, List.length_append, List.length_append,
      (has.map enc).flatten.length_eq]
  have hpos := hc.pos_eq
  have hpos' := hd'.pos_eq
  omega

end Wire
