import Mathlib.Data.List.Nodup
import Mathlib.Data.List.Perm.Basic

/-!
# Reorder — what does not depend on the order of a list

Looking up the first element with a property and sorting by a key are functions of the order of a
list.  Both depend on the elements alone when elements that the lookup or the key cannot tell apart
are equal.
-/

namespace Wire

variable {α : Type}

/-- A lookup that only one element can answer finds it in every order. -/
theorem find?_eq_of_perm {q : α → Bool} {as bs : List α} (hp : as.Perm bs)
    (huniq : ∀ a ∈ as, ∀ b ∈ as, q a → q b → a = b) : as.find? q = bs.find? q := by
  cases ha : as.find? q with
  | none =>
      have hnone : bs.find? q = none := by
        rw [List.find?_eq_none] at ha ⊢
        exact fun b hb => ha b (hp.mem_iff.2 hb)
      exact hnone.symm
  | some a =>
      have hmem := List.mem_of_find?_eq_some ha
      have hqa := List.find?_some ha
      cases hb : bs.find? q with
      | none =>
          rw [List.find?_eq_none] at hb
          exact absurd hqa (hb a (hp.mem_iff.1 hmem))
      -- Both orders find something, and there is only one thing to find.
      | some b =>
          have hmem' := hp.mem_iff.2 (List.mem_of_find?_eq_some hb)
          rw [huniq a hmem b hmem' hqa (List.find?_some hb)]

/-- Every element with the property is found in some order. -/
theorem exists_perm_find? {q : α → Bool} {as : List α} {a : α} (ha : a ∈ as) (hq : q a) :
    ∃ bs : List α, as.Perm bs ∧ bs.find? q = some a := by
  rcases List.append_of_mem ha with ⟨before, after, rfl⟩
  -- Bring the element to the front.
  exact ⟨a :: (before ++ after), List.perm_middle, by simp [hq]⟩

/-- What is looked up is the same in every order when all that could be found look alike, and only
then. -/
theorem find?_map_eq_of_perm_iff {β : Type} {q : α → Bool} {f : α → β} {as : List α} :
    (∀ bs : List α, as.Perm bs → (bs.find? q).map f = (as.find? q).map f) ↔
      ∀ a ∈ as, ∀ b ∈ as, q a → q b → f a = f b := by
  constructor
  -- Two orders bring the one and the other to the front.
  · intro h a ha b hb hqa hqb
    rcases exists_perm_find? ha hqa with ⟨as₁, hp₁, hfind₁⟩
    rcases exists_perm_find? hb hqb with ⟨as₂, hp₂, hfind₂⟩
    have hsame := (h as₁ hp₁).trans (h as₂ hp₂).symm
    rw [hfind₁, hfind₂] at hsame
    exact Option.some.inj hsame
  · intro h bs hp
    cases ha : as.find? q with
    | none =>
        have hnone : bs.find? q = none := by
          rw [List.find?_eq_none] at ha ⊢
          exact fun b hb => ha b (hp.mem_iff.2 hb)
        rw [hnone]
    | some a =>
        have hmem := List.mem_of_find?_eq_some ha
        have hqa := List.find?_some ha
        cases hb : bs.find? q with
        | none =>
            rw [List.find?_eq_none] at hb
            exact absurd hqa (hb a (hp.mem_iff.1 hmem))
        | some b =>
            have hmem' := hp.mem_iff.2 (List.mem_of_find?_eq_some hb)
            exact congrArg some (h b hmem' a hmem (List.find?_some hb) hqa)

/-- Among distinct keys, looking up a key finds the element that has it. -/
theorem find?_key_eq_some_iff {κ : Type} [DecidableEq κ] {key : α → κ} {as : List α}
    (hnodup : (as.map key).Nodup) {k : κ} {a : α} :
    as.find? (fun b => key b = k) = some a ↔ a ∈ as ∧ key a = k := by
  constructor
  · intro h
    exact ⟨List.mem_of_find?_eq_some h, by simpa using List.find?_some h⟩
  · rintro ⟨ha, hk⟩
    cases hfind : as.find? (fun b => key b = k) with
    | none =>
        have hnone := List.find?_eq_none.1 hfind a ha
        simp [hk] at hnone
    | some b =>
        have hb : key b = k := by
          simpa using List.find?_some hfind
        have hmem := List.mem_of_find?_eq_some hfind
        rw [List.inj_on_of_nodup_map hnodup hmem ha (hb.trans hk.symm)]

/-- Where a key belongs to one element, looking it up is the same in every order. -/
theorem find?_key_eq_of_perm {κ : Type} [DecidableEq κ] {key : α → κ} {as bs : List α}
    (hp : as.Perm bs) (huniq : ∀ a ∈ as, ∀ b ∈ as, key a = key b → a = b) (k : κ) :
    as.find? (fun b => key b = k) = bs.find? (fun b => key b = k) := by
  apply find?_eq_of_perm hp
  intro a ha b hb hka hkb
  have hkeys : key a = key b := by
    simp only [decide_eq_true_eq] at hka hkb
    rw [hka, hkb]
  exact huniq a ha b hb hkeys

theorem find?_key_eq_of_perm_nodup {κ : Type} [DecidableEq κ] {key : α → κ} {as bs : List α}
    (hp : as.Perm bs) (hnodup : (as.map key).Nodup) (k : κ) :
    as.find? (fun b => key b = k) = bs.find? (fun b => key b = k) :=
  find?_key_eq_of_perm hp (fun _ ha _ hb => List.inj_on_of_nodup_map hnodup ha hb) k

/-- A reordering of the images is the images of a reordering. -/
theorem exists_perm_of_perm_map {β : Type} {f : α → β} {as : List α} {ys : List β}
    (hp : ys.Perm (as.map f)) : ∃ bs : List α, bs.Perm as ∧ ys = bs.map f := by
  have himages : List.Forall₂ (fun a y => f a = y) as (as.map f) := by
    rw [List.forall₂_map_right_iff, List.forall₂_same]
    exact fun _ _ => rfl
  have hcomp : Relation.Comp (List.Forall₂ fun a y => f a = y) List.Perm as ys :=
    ⟨as.map f, himages, hp.symm⟩
  rw [List.forall₂_comp_perm_eq_perm_comp_forall₂] at hcomp
  rcases hcomp with ⟨bs, hbs, hys⟩
  refine ⟨bs, hbs.symm, ?_⟩
  rw [← List.forall₂_map_left_iff, List.forall₂_eq_eq_eq] at hys
  exact hys.symm

/-- Sorting forgets the order when the elements that compare equal are equal. -/
theorem mergeSort_eq_of_perm {le : α → α → Bool} {as bs : List α} (hp : as.Perm bs)
    (htrans : ∀ a b c, le a b → le b c → le a c) (htotal : ∀ a b, le a b || le b a)
    (huniq : ∀ a ∈ as, ∀ b ∈ as, le a b → le b a → a = b) :
    as.mergeSort le = bs.mergeSort le := by
  have hperm : (as.mergeSort le).Perm (bs.mergeSort le) :=
    ((List.mergeSort_perm as le).trans hp).trans (List.mergeSort_perm bs le).symm
  refine List.Perm.eq_of_pairwise ?_ (List.pairwise_mergeSort htrans htotal as)
    (List.pairwise_mergeSort htrans htotal bs) hperm
  intro a b ha hb
  -- Sorting and reordering keep the elements, so both are elements of `as`.
  exact huniq a ((List.mergeSort_perm as le).mem_iff.1 ha) b
    (hp.mem_iff.2 ((List.mergeSort_perm bs le).mem_iff.1 hb))

end Wire
