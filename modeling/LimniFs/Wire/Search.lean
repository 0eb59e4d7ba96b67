import Mathlib.Data.List.Basic

/-!
# Search — looking up a key among increasing keys

Binary search over a list whose keys strictly increase, in any order that is asymmetric and in
which any two distinct keys compare.
-/

namespace Wire

variable {α κ : Type}

/-- Halve the list until the key in the middle is the one looked for. -/
def searchSorted [LT κ] [DecidableLT κ] (key : α → κ) (k : κ) (as : List α) : Option α :=
  match h : as.drop (as.length / 2) with
  | [] => none
  | a :: right =>
      if k < key a then searchSorted key k (as.take (as.length / 2))
      else if key a < k then searchSorted key k right
      else some a
termination_by as.length
decreasing_by
  -- The middle element is in neither half.
  all_goals
    have hlen := congrArg List.length h
    simp only [List.length_drop, List.length_cons, List.length_take] at *
    omega

/-- The search finds exactly the element with the key. -/
theorem searchSorted_eq_some_iff [LT κ] [DecidableLT κ] [Std.Asymm (α := κ) (· < ·)]
    [Std.Trichotomous (α := κ) (· < ·)] {key : α → κ} {k : κ} {as : List α}
    (hsorted : (as.map key).Pairwise (· < ·)) {a : α} :
    searchSorted key k as = some a ↔ a ∈ as ∧ key a = k := by
  induction hn : as.length using Nat.strongRecOn generalizing as with
  | ind n ih =>
      subst hn
      have hsplit := List.take_append_drop (as.length / 2) as
      rw [searchSorted]
      split
      -- Nothing from the middle on: the list is empty.
      · rename_i hdrop
        have hlen := congrArg List.length hdrop
        simp only [List.length_drop, List.length_nil] at hlen
        have hnil : as = [] := List.length_eq_zero_iff.1 (by omega)
        simp [hnil]
      · rename_i mid right hdrop
        have hlen := congrArg List.length hdrop
        rw [hdrop] at hsplit
        rw [← hsplit, List.map_append, List.map_cons, List.pairwise_append,
          List.pairwise_cons] at hsorted
        rcases hsorted with ⟨hleft, ⟨hmid, hright⟩, hcross⟩
        simp only [List.length_drop, List.length_cons] at hlen
        have hmem : a ∈ as ↔ a ∈ as.take (as.length / 2) ∨ a = mid ∨ a ∈ right := by
          conv_lhs => rw [← hsplit]
          simp
        -- Keys on the left are below the middle one, and keys on the right above it.
        have hbelow : a ∈ as.take (as.length / 2) → key a < key mid := fun ha =>
          hcross _ (List.mem_map_of_mem ha) _ List.mem_cons_self
        have habove : a ∈ right → key mid < key a := fun ha => hmid _ (List.mem_map_of_mem ha)
        split
        · rename_i hlt
          rw [ih _ (by rw [List.length_take]; omega) hleft rfl, hmem]
          constructor
          · rintro ⟨ha, hkey⟩
            exact ⟨.inl ha, hkey⟩
          · rintro ⟨ha | rfl | ha, rfl⟩
            · exact ⟨ha, rfl⟩
            · exact absurd hlt (Std.Irrefl.irrefl _)
            · exact absurd hlt (Std.Asymm.asymm _ _ (habove ha))
        · rename_i hnlt
          split
          · rename_i hlt
            rw [ih _ (by omega) hright rfl, hmem]
            constructor
            · rintro ⟨ha, hkey⟩
              exact ⟨.inr (.inr ha), hkey⟩
            · rintro ⟨ha | rfl | ha, rfl⟩
              · exact absurd hlt (Std.Asymm.asymm _ _ (hbelow ha))
              · exact absurd hlt (Std.Irrefl.irrefl _)
              · exact ⟨ha, rfl⟩
          -- Neither comparison holds, so the key is the one in the middle.
          · rename_i hngt
            have hk : key mid = k := Std.Trichotomous.trichotomous _ _ hngt hnlt
            rw [hmem, Option.some.injEq]
            constructor
            · rintro rfl
              exact ⟨.inr (.inl rfl), hk⟩
            · rintro ⟨ha | rfl | ha, rfl⟩
              · exact absurd (hbelow ha) hnlt
              · rfl
              · exact absurd (habove ha) hngt

end Wire
