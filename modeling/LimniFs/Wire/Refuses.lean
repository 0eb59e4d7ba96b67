import LimniFs.Wire.Reads

/-!
# Refuses — the error of one encoding

`Refuses p xs e`: standing in front of the symbols `xs`, the parser `p` raises `e`, whatever comes
behind them.  It is the counterpart of `Reads`.  A counted loop over encodings that are each well
formed reads them all, or it raises the error of the first element that its state does not admit.
-/

namespace Wire

variable {τ ε α β σ : Type}

def Refuses (p : Parser τ ε α) (xs : List τ) (e : ε) : Prop :=
  ∀ c, xs <+: c.remaining → p c = .error e

namespace Refuses

variable {p : Parser τ ε α} {f : α → Parser τ ε β} {xs ys : List τ} {a : α} {e : ε}

/-- The first parser raises, and the second is not run. -/
theorem head (hp : Refuses p xs e) : Refuses (p >>= f) xs e :=
  fun c hc => Decodes.bind_error (hp c hc)

theorem bind (hp : Reads p xs a) (hf : Refuses (f a) ys e) : Refuses (p >>= f) (xs ++ ys) e := by
  rintro c ⟨rest, hc⟩
  rw [List.append_assoc] at hc
  rcases Cursor.Consumes.of_append hc.symm with ⟨c₁, hc₁, hrem⟩
  rw [Decodes.bind_ok (hp c c₁ hc₁)]
  exact hf c₁ ⟨rest, hrem.symm⟩

/-- What raises in front of the symbols raises in front of more of them. -/
theorem append (hp : Refuses p xs e) (ys : List τ) : Refuses p (xs ++ ys) e :=
  fun c hc => hp c ((List.prefix_append xs ys).trans hc)

theorem raiseIf {c : Prop} [Decidable c] {q : Unit → Parser τ ε α} (hc : c) :
    Refuses (raiseIf c e >>= q) xs e := by
  intro cur _
  rw [raiseIf_bind_of_pos hc]

theorem pass {c : Prop} [Decidable c] {e' : ε} {q : Unit → Parser τ ε α} (hc : ¬ c)
    (hq : Refuses (q ()) xs e) : Refuses (Wire.raiseIf c e' >>= q) xs e := by
  rw [raiseIf_bind_of_not hc]
  exact hq

/-- A size check that the symbols pass. -/
theorem guard {need : Nat} {e' : Nat → ε} {q : Unit → Parser τ ε α} (hlen : need ≤ xs.length)
    (hq : Refuses (q ()) xs e) : Refuses (checkRemaining need e' >>= q) xs e := by
  intro c hc
  have hle := hc.length_le
  rw [Cursor.length_remaining] at hle
  have hpass : checkRemaining need e' c = .ok ((), c) := by
    rw [checkRemaining, if_neg (by omega)]
  rw [Decodes.bind_ok hpass]
  exact hq c hc

/-- A step that computes without reading. -/
theorem lift {x : Except ε α} (hx : x = .ok a) (hf : Refuses (f a) xs e) :
    Refuses ((liftM x : Parser τ ε α) >>= f) xs e := by
  subst hx
  exact hf

end Refuses

/-! ## Loops -/

/-- How a round of a loop treats the encoding of an element with `V`: an element that the state
admits is read, and for any other the round raises the error that is meant for it. -/
structure Judges (p : Nat → σ → Parser τ ε (α × σ)) (V : α → Prop) (ok : σ → α → Prop)
    (next : σ → α → σ) (wire : α → List τ) (err : Nat → σ → α → ε) : Prop where
  admits : ∀ i {s a}, V a → ok s a → Reads (p i s) (wire a) (a, next s a)
  refuses : ∀ i {s a}, V a → ¬ ok s a → Refuses (p i s) (wire a) (err i s a)

namespace Judges

variable {p : Nat → σ → Parser τ ε (α × σ)} {V : α → Prop} {ok : σ → α → Prop}
variable {next : σ → α → σ} {wire : α → List τ} {err : Nat → σ → α → ε}

theorem collect_reads (h : Judges p V ok next wire err) {as : List α} (hV : ∀ a ∈ as, V a) :
    ∀ i s, Admissible ok next s as →
      Reads (collect p i as.length s) (as.flatMap wire) as := by
  induction as with
  | nil =>
      intro i s _
      exact Reads.pure
  | cons a as ih =>
      rintro i s ⟨hok, hrest⟩
      rcases List.forall_mem_cons.1 hV with ⟨ha, has⟩
      exact (h.admits i ha hok).bind ((ih has (i + 1) _ hrest).bind_pure)

theorem collect_refuses (h : Judges p V ok next wire err) {a : α} (ha : V a) (after : List α)
    {before : List α} (hV : ∀ b ∈ before, V b) :
    ∀ i s, Admissible ok next s before → ¬ ok (before.foldl next s) a →
      Refuses (collect p i (before ++ a :: after).length s) ((before ++ a :: after).flatMap wire)
        (err (i + before.length) (before.foldl next s) a) := by
  induction before with
  | nil =>
      intro i s _ hok
      exact ((h.refuses i ha hok).append _).head
  | cons b before ih =>
      rintro i s ⟨hb, hrest⟩ hok
      rcases List.forall_mem_cons.1 hV with ⟨hVb, hbefore⟩
      have htail := ih hbefore (i + 1) _ hrest hok
      rw [List.length_cons, ← Nat.add_assoc, Nat.add_right_comm]
      exact Refuses.bind (h.admits i hVb hb) htail.head

end Judges

/-- Either every element is admitted, or there is a first that is not. -/
theorem admissible_or (ok : σ → α → Prop) (next : σ → α → σ) (as : List α) (s : σ) :
    Admissible ok next s as ∨ ∃ before a after, as = before ++ a :: after ∧
      Admissible ok next s before ∧ ¬ ok (before.foldl next s) a := by
  induction as generalizing s with
  | nil =>
      exact .inl trivial
  | cons a as ih =>
      by_cases hok : ok s a
      · rcases ih (next s a) with hall | ⟨before, b, after, rfl, hbefore, hb⟩
        · exact .inl ⟨hok, hall⟩
        · exact .inr ⟨a :: before, b, after, rfl, ⟨hok, hbefore⟩, hb⟩
      · exact .inr ⟨[], a, as, rfl, trivial, hok⟩

/-! ## Repeated keys -/

theorem foldl_key_cons {κ : Type} {key : α → κ} {as : List α} {seen : List κ} {k : κ} :
    k ∈ as.foldl (fun seen a => key a :: seen) seen ↔ k ∈ as.map key ∨ k ∈ seen := by
  induction as generalizing seen with
  | nil =>
      simp
  | cons a as ih =>
      rw [List.foldl_cons, ih, List.mem_cons, List.map_cons, List.mem_cons]
      constructor
      · rintro (h | h | h)
        · exact .inl (.inr h)
        · exact .inl (.inl h)
        · exact .inr h
      · rintro ((h | h) | h)
        · exact .inr (.inl h)
        · exact .inl h
        · exact .inr (.inr h)

/-- Of well-formed elements, the loop that refuses a repeated key reads those with distinct keys,
and of any others it names the first whose key has been there. -/
theorem Judges.collectFresh {κ : Type} {p : Nat → List κ → Parser τ ε (α × List κ)}
    {V : α → Prop} {key : α → κ} {wire : α → List τ} {err : Nat → α → ε}
    (h : Judges p V (fun seen a => V a ∧ key a ∉ seen) (fun seen a => key a :: seen) wire
      fun i _ a => err i a) {as : List α} (hV : ∀ a ∈ as, V a) :
    ((as.map key).Nodup → Reads (collect p 0 as.length []) (as.flatMap wire) as) ∧
      (¬ (as.map key).Nodup → ∃ before a after, as = before ++ a :: after ∧
        (before.map key).Nodup ∧ key a ∈ before.map key ∧
          Refuses (collect p 0 as.length []) (as.flatMap wire) (err before.length a)) := by
  refine ⟨?_, ?_⟩
  · intro hnodup
    exact h.collect_reads hV 0 [] (admissible_fresh_iff.2 ⟨hV, hnodup, by simp⟩)
  · intro hdup
    rcases admissible_or (fun seen a => V a ∧ key a ∉ seen) (fun seen a => key a :: seen) as []
      with hall | ⟨before, a, after, rfl, hbefore, ha⟩
    · exact absurd (admissible_fresh_iff.1 hall).2.1 hdup
    · have hVa := hV a (List.mem_append_right _ List.mem_cons_self)
      have hVb := fun b hb => hV b (List.mem_append_left _ hb)
      have hmem : key a ∈ before.map key := by
        by_contra hne
        exact ha ⟨hVa, by simpa [foldl_key_cons] using hne⟩
      have hrefuses := h.collect_refuses hVa after hVb 0 [] hbefore ha
      rw [Nat.zero_add] at hrefuses
      exact ⟨before, a, after, rfl, (admissible_fresh_iff.1 hbefore).2.1, hmem, hrefuses⟩

end Wire
