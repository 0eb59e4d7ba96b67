import Mathlib.Data.List.Basic

/-!
# Writer — encoders that append to a buffer

An encoder takes the buffer written so far and returns it with something appended, or fails.
`Emits m xs a` says that `m` appends exactly `xs` whatever was written before, and returns `a`;
`EmitsIf` says in which case it does and with which error it fails otherwise.
-/

namespace Wire

/-- A computation that appends to a buffer or fails with an error of type `ε`. -/
abbrev Writer (τ ε α : Type) : Type :=
  StateT (List τ) (Except ε) α

variable {τ ε α β : Type}

/-- `out += xs` -/
def emit (xs : List τ) : Writer τ ε Unit :=
  fun out => .ok ((), out ++ xs)

/-- Run `m` and return, beside its value, what it appended: `out[start:end]`. -/
def withEmitted (m : Writer τ ε α) : Writer τ ε (α × List τ) :=
  fun out => (m out).map fun r => ((r.1, r.2.drop out.length), r.2)

/-- `for a in as: m(a)` -/
def emitEach (m : α → Writer τ ε Unit) : List α → Writer τ ε Unit
  | [] => pure ()
  | a :: as => do
      m a
      emitEach m as

def Emits (m : Writer τ ε α) (xs : List τ) (a : α) : Prop :=
  ∀ out, m out = .ok (a, out ++ xs)

namespace Emits

variable {m : Writer τ ε α} {f : α → Writer τ ε β} {xs ys : List τ} {a : α} {b : β}

theorem emit : Emits (emit xs : Writer τ ε Unit) xs () :=
  fun _ => rfl

theorem pure : Emits (pure a : Writer τ ε α) [] a := by
  intro out
  rw [List.append_nil]
  rfl

theorem bind (hm : Emits m xs a) (hf : Emits (f a) ys b) : Emits (m >>= f) (xs ++ ys) b := by
  intro out
  have hrun : (m >>= f) out = f a (out ++ xs) := by
    simp [Bind.bind, StateT.bind, hm out, Except.bind]
  calc
    (m >>= f) out = f a (out ++ xs) := hrun
    _ = .ok (b, out ++ xs ++ ys) := hf _
    _ = .ok (b, out ++ (xs ++ ys)) := by rw [List.append_assoc]

/-- The last writing step, with nothing written behind it. -/
theorem bind_nil (hm : Emits m xs a) (hf : Emits (f a) [] b) : Emits (m >>= f) xs b := by
  have h := hm.bind hf
  rwa [List.append_nil] at h

theorem withEmitted (hm : Emits m xs a) : Emits (withEmitted m) xs (a, xs) := by
  intro out
  simp [Wire.withEmitted, hm out, Except.map]

theorem emitEach {m : α → Writer τ ε Unit} {wire : α → List τ} {as : List α}
    (hm : ∀ a ∈ as, Emits (m a) (wire a) ()) : Emits (emitEach m as) (as.flatMap wire) () := by
  induction as with
  | nil =>
      exact pure
  | cons a as ih =>
      have hrest := ih fun b hb => hm b (List.mem_cons_of_mem _ hb)
      exact (hm a List.mem_cons_self).bind hrest

end Emits

/-- `m` appends `xs` and returns `a` when `Fits` holds, and fails with `e` when it does not. -/
def EmitsIf (Fits : Prop) (e : ε) (m : Writer τ ε α) (xs : List τ) (a : α) : Prop :=
  (Fits → Emits m xs a) ∧ ∀ out, ¬ Fits → m out = .error e

namespace EmitsIf

variable {m : Writer τ ε α} {f : α → Writer τ ε β} {xs ys : List τ} {a : α} {b : β} {e : ε}
  {Fits Fits' : Prop}

/-- A writer that never fails. -/
theorem always (h : Emits m xs a) : EmitsIf True e m xs a :=
  ⟨fun _ => h, fun _ hnot => absurd trivial hnot⟩

theorem congr (h : EmitsIf Fits e m xs a) (hiff : Fits' ↔ Fits) : EmitsIf Fits' e m xs a :=
  ⟨fun hfits => h.1 (hiff.1 hfits), fun out hnot => h.2 out (mt hiff.2 hnot)⟩

/-- The case and the appended text, collected step by step, under their names. -/
theorem of_run (h : EmitsIf Fits e m xs a) (hiff : Fits' ↔ Fits) (hxs : ys = xs) :
    EmitsIf Fits' e m ys a :=
  hxs ▸ h.congr hiff

/-- The first writer that fails ends the run. -/
theorem bind (hm : EmitsIf Fits e m xs a) (hf : EmitsIf Fits' e (f a) ys b) :
    EmitsIf (Fits ∧ Fits') e (m >>= f) (xs ++ ys) b := by
  refine ⟨fun h => (hm.1 h.1).bind (hf.1 h.2), fun out hnot => ?_⟩
  by_cases hfits : Fits
  · have hrun : (m >>= f) out = f a (out ++ xs) := by
      simp [Bind.bind, StateT.bind, hm.1 hfits out, Except.bind]
    rw [hrun]
    exact hf.2 _ fun hfits' => hnot ⟨hfits, hfits'⟩
  · simp [Bind.bind, StateT.bind, hm.2 out hfits, Except.bind]

theorem bind_nil (hm : EmitsIf Fits e m xs a) (hf : Emits (f a) [] b) :
    EmitsIf Fits e (m >>= f) xs b := by
  have h := hm.bind (always hf)
  rw [List.append_nil] at h
  exact h.congr (iff_of_eq (and_true Fits)).symm

theorem withEmitted (hm : EmitsIf Fits e m xs a) : EmitsIf Fits e (withEmitted m) xs (a, xs) :=
  ⟨fun hfits => (hm.1 hfits).withEmitted, fun out hnot => by
    simp [Wire.withEmitted, hm.2 out hnot, Except.map]⟩

theorem emitEach {m : α → Writer τ ε Unit} {Fits : α → Prop} {wire : α → List τ}
    (hm : ∀ a, EmitsIf (Fits a) e (m a) (wire a) ()) (as : List α) :
    EmitsIf (∀ a ∈ as, Fits a) e (emitEach m as) (as.flatMap wire) () := by
  induction as with
  | nil =>
      exact (always Emits.pure).congr (by simp)
  | cons a as ih =>
      exact ((hm a).bind ih).congr (by simp)

/-- Run on its own, on an empty buffer. -/
theorem run_nil (h : EmitsIf Fits e m xs a) {b : α} {ys : List τ} :
    m [] = .ok (b, ys) ↔ Fits ∧ b = a ∧ ys = xs := by
  by_cases hfits : Fits
  · rw [h.1 hfits [], List.nil_append]
    constructor
    · intro hok
      cases hok
      exact ⟨hfits, rfl, rfl⟩
    · rintro ⟨-, rfl, rfl⟩
      rfl
  · rw [h.2 [] hfits]
    constructor
    · intro hok
      cases hok
    · exact fun hok => absurd hok.1 hfits

end EmitsIf

end Wire
