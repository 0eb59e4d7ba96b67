import LimniFs.Wire.Cursor

/-!
# Decodes — when a parser reads exactly one wire format

`Decodes T p Valid wire` says that the parser `p` accepts the encodings `wire a` of the values with
`Valid a` and nothing else.  It bundles the three facts that every statement about a prefix parser
is assembled from:

* `sound`: whatever `p` returns is valid, and what it consumed is the encoding of what it returned;
* `complete`: in front of the encoding of a valid value, followed by anything, `p` returns it;
* `truncated`: on a proper prefix of the encoding of a valid value, `p` fails with an error of the
  class `T` (the errors that report missing input), and with no other.

The rules below follow the shape of a parser line by line: a field that is read and stored
(`Decodes.field`), a check that raises (`Decodes.check`), a size check on what remains
(`Decodes.guard`), the finished record (`Decodes.done`), and the counted loops.
-/

namespace Wire

/-- A parser over a cursor: it moves the cursor or fails with an error of type `ε`. -/
abbrev Parser (τ ε α : Type) : Type :=
  StateT (Cursor τ) (Except ε) α

variable {τ ε α β σ κ : Type}

/-! ## The primitives of a parser -/

/-- `if c: raise e` -/
def raiseIf (c : Prop) [Decidable c] (e : ε) : Parser τ ε Unit :=
  if c then throw e else pure ()

/-- Fail with `e` of what remains when fewer than `need` symbols are left. -/
def checkRemaining (need : Nat) (e : Nat → ε) : Parser τ ε Unit :=
  fun c => if c.remainingLen < need then .error (e c.remainingLen) else .ok ((), c)

/-- Run `p` and rewrite the error it fails with. -/
def mapError (f : ε → ε) (p : Parser τ ε α) : Parser τ ε α :=
  fun c => (p c).mapError f

/-- Run `p` and return, beside its value, the symbols it consumed. -/
def withSlice (p : Parser τ ε α) : Parser τ ε (α × List τ) :=
  fun c => (p c).map fun r => ((r.1, (c.buf.take r.2.pos).drop c.pos), r.2)

/-- `[p(index) for index in range(i, i + n)]` -/
def repeatIndexed (p : Nat → Parser τ ε α) : Nat → Nat → Parser τ ε (List α)
  | _, 0 => pure []
  | i, n + 1 => do
      let a ← p i
      let as ← repeatIndexed p (i + 1) n
      return a :: as

/-- The loop `for index in range(i, i + n)` that appends one element a round and carries a state
from round to round. -/
def collect (p : Nat → σ → Parser τ ε (α × σ)) : Nat → Nat → σ → Parser τ ε (List α)
  | _, 0, _ => pure []
  | i, n + 1, s => do
      let (a, s') ← p i s
      let as ← collect p (i + 1) n s'
      return a :: as

/-- A loop whose rounds do the same on the images `g s` of the states of another loop. -/
theorem collect_map_state {ρ : Type} {p : Nat → σ → Parser τ ε (α × σ)}
    {q : Nat → ρ → Parser τ ε (α × ρ)} (g : σ → ρ)
    (h : ∀ i s, q i (g s) = (fun r => (r.1, g r.2)) <$> p i s) :
    ∀ n i s, collect q i n (g s) = collect p i n s := by
  intro n
  induction n with
  | zero =>
      intro i s
      rfl
  | succ n ih =>
      intro i s
      simp only [collect, h, bind_map_left, ih]

theorem raiseIf_congr {c d : Prop} [Decidable c] [Decidable d] {e : ε} (h : c ↔ d) :
    (raiseIf c e : Parser τ ε Unit) = raiseIf d e := by
  unfold raiseIf
  by_cases hd : d
  · rw [if_pos (h.2 hd), if_pos hd]
  · rw [if_neg (mt h.1 hd), if_neg hd]

/-- What follows a computation is run on the value it returns. -/
theorem liftM_bind_congr {x : Except ε α} {f g : α → Parser τ ε β}
    (h : ∀ a, x = .ok a → f a = g a) :
    (liftM x >>= f : Parser τ ε β) = liftM x >>= g := by
  cases x with
  | error e =>
      rfl
  | ok a =>
      have hpure : (liftM (Except.ok a : Except ε α) : Parser τ ε α) = pure a := rfl
      rw [hpure, pure_bind, pure_bind]
      exact h a rfl

/-- A computation that may fail succeeds through the value of its first step. -/
theorem bind_eq_ok_iff {x : Except ε α} {f : α → Except ε β} {b : β} :
    x >>= f = .ok b ↔ ∃ a, x = .ok a ∧ f a = .ok b := by
  cases x with
  | error e =>
      simp [bind, Except.bind]
  | ok a =>
      simp [bind, Except.bind]

theorem raiseIf_bind_of_not {c : Prop} [Decidable c] {e : ε} {q : Unit → Parser τ ε α}
    (hc : ¬ c) : (raiseIf c e >>= q) = q () := by
  simp [raiseIf, hc]

theorem raiseIf_bind_of_pos {c : Prop} [Decidable c] {e : ε} {q : Unit → Parser τ ε α}
    (hc : c) (cur : Cursor τ) : (raiseIf c e >>= q) cur = .error e := by
  simp [raiseIf, hc, bind, StateT.bind, throw, throwThe, MonadExceptOf.throw, StateT.lift,
    Except.bind]

/-! ## The judgement -/

structure Decodes (T : ε → Prop) (p : Parser τ ε α) (Valid : α → Prop) (wire : α → List τ) :
    Prop where
  sound : ∀ {c a c'}, p c = .ok (a, c') → Valid a ∧ c.Consumes (wire a) c'
  complete : ∀ {c a c'}, Valid a → c.Consumes (wire a) c' → p c = .ok (a, c')
  truncated : ∀ {c a}, Valid a → c.remaining <+: wire a → c.remaining ≠ wire a →
    ∃ e, T e ∧ p c = .error e

/-- The parser `p` reads the language `{wire a | Valid a}`, from wherever it stands: in front of an
encoding and any tail it returns the value and stops at the tail, and it accepts nothing else. -/
structure AcceptsExactly (p : Parser τ ε α) (Valid : α → Prop) (wire : α → List τ) : Prop where
  complete : ∀ {a}, Valid a → ∀ c tail, c.remaining = wire a ++ tail →
    ∃ c', p c = .ok (a, c') ∧ c'.buf = c.buf ∧ c'.remaining = tail
  sound : ∀ {a} c c', p c = .ok (a, c') →
    Valid a ∧ c'.buf = c.buf ∧ c.remaining = wire a ++ c'.remaining

namespace Decodes

variable {T : ε → Prop} {p : Parser τ ε α} {f : α → Parser τ ε β}
variable {V Valid : α → Prop} {enc wire : α → List τ}

theorem bind_ok {c : Cursor τ} {a : α} {c' : Cursor τ} (h : p c = .ok (a, c')) :
    (p >>= f) c = f a c' := by
  simp [bind, StateT.bind, h, Except.bind]

theorem bind_error {c : Cursor τ} {e : ε} (h : p c = .error e) :
    (p >>= f) c = .error e := by
  simp [bind, StateT.bind, h, Except.bind]

theorem of_bind_ok {c : Cursor τ} {b : β} {c' : Cursor τ} (h : (p >>= f) c = .ok (b, c')) :
    ∃ a c₁, p c = .ok (a, c₁) ∧ f a c₁ = .ok (b, c') := by
  cases hp : p c with
  | error e =>
      rw [bind_error hp] at h
      cases h
  | ok r =>
      have hrun : (p >>= f) c = f r.1 r.2 := bind_ok hp
      exact ⟨r.1, r.2, rfl, hrun ▸ h⟩

/-! ## What a decoded format gives -/

/-- In front of an encoding a parser returns the encoded value and leaves the rest. -/
theorem run (h : Decodes T p Valid wire) {a : α} (ha : Valid a) {c : Cursor τ} {rest : List τ}
    (hc : c.remaining = wire a ++ rest) : ∃ c', p c = .ok (a, c') ∧ c'.remaining = rest := by
  rcases Cursor.Consumes.of_append hc with ⟨c', hconsumes, hrem⟩
  exact ⟨c', h.complete ha hconsumes, hrem⟩

theorem decode_append (h : Decodes T p Valid wire) {a : α} (ha : Valid a) (tail : List τ) :
    ∃ c', p (.start (wire a ++ tail)) = .ok (a, c') ∧ c'.remaining = tail :=
  h.run ha (Cursor.remaining_start _)

theorem acceptsExactly (h : Decodes T p Valid wire) : AcceptsExactly p Valid wire where
  complete ha _ tail hc := by
    rcases Cursor.Consumes.of_append hc with ⟨c', hconsumes, hrem⟩
    exact ⟨c', h.complete ha hconsumes, hconsumes.1, hrem⟩
  sound _ _ hp := by
    rcases h.sound hp with ⟨ha, hconsumes⟩
    exact ⟨ha, hconsumes.1, hconsumes.2⟩

/-- From the front of a buffer a parser returns the values whose encodings the buffer begins
with. -/
theorem accepts_start_iff (h : Decodes T p Valid wire) {buf : List τ} {a : α} :
    (∃ c', p (.start buf) = .ok (a, c')) ↔ Valid a ∧ wire a <+: buf := by
  constructor
  · rintro ⟨c', hp⟩
    rcases h.sound hp with ⟨ha, hc⟩
    exact ⟨ha, by simpa using hc.isPrefix⟩
  · rintro ⟨ha, rest, hrest⟩
    rcases h.decode_append ha rest with ⟨c', hp, -⟩
    exact ⟨c', hrest ▸ hp⟩

/-- No encoding of a valid value is a prefix of the encoding of another. -/
theorem eq_of_wire_isPrefix (h : Decodes T p Valid wire) {a b : α} (ha : Valid a) (hb : Valid b)
    (hpre : wire a <+: wire b) : a = b := by
  rcases h.decode_append ha [] with ⟨c', hp, hrem⟩
  rw [List.append_nil] at hp
  -- A proper prefix would be read twice: as `a`, and as a truncated encoding of `b`.
  by_cases heq : wire a = wire b
  · rcases h.decode_append hb [] with ⟨c'', hp', -⟩
    rw [List.append_nil, ← heq, hp] at hp'
    cases hp'
    rfl
  · rcases h.truncated (c := .start (wire a)) hb (by simpa using hpre) (by simpa using heq) with
      ⟨e, -, he⟩
    rw [hp] at he
    cases he

theorem wire_inj (h : Decodes T p Valid wire) {a b : α} (ha : Valid a) (hb : Valid b)
    (heq : wire a = wire b) : a = b :=
  h.eq_of_wire_isPrefix ha hb (heq ▸ List.prefix_refl _)

/-- Two buffers that begin with an encoding each and are equal begin with the same one. -/
theorem append_inj (h : Decodes T p Valid wire) {a b : α} (ha : Valid a) (hb : Valid b)
    {xs ys : List τ} (heq : wire a ++ xs = wire b ++ ys) : a = b ∧ xs = ys := by
  have hab : a = b := by
    have hpre : wire a <+: wire b ++ ys := ⟨xs, heq⟩
    -- Of two prefixes of one buffer one is a prefix of the other.
    rcases List.prefix_or_prefix_of_prefix hpre (List.prefix_append _ _) with hle | hge
    · exact h.eq_of_wire_isPrefix ha hb hle
    · exact (h.eq_of_wire_isPrefix hb ha hge).symm
  subst hab
  exact ⟨rfl, List.append_cancel_left heq⟩

theorem congr (h : Decodes T p V enc) (hV : ∀ a, Valid a ↔ V a)
    (hw : ∀ a, Valid a → wire a = enc a) : Decodes T p Valid wire where
  sound hp := by
    rcases h.sound hp with ⟨ha, hc⟩
    have ha' := (hV _).2 ha
    exact ⟨ha', hw _ ha' ▸ hc⟩
  complete ha hc := h.complete ((hV _).1 ha) (hw _ ha ▸ hc)
  truncated ha hpre hne := h.truncated ((hV _).1 ha) (hw _ ha ▸ hpre) (hw _ ha ▸ hne)

/-! ## Sequencing -/

/-- The general rule of sequencing: `G b a` names the part `a` of the result `b` that `p` reads. -/
theorem seq {ValidB : β → Prop} {wireB : β → List τ} (G : β → α → Prop)
    (rest : α → β → List τ) (hp : Decodes T p V enc)
    (hf : ∀ a, V a → Decodes T (f a) (fun b => ValidB b ∧ G b a) (rest a))
    (hG : ∀ b, ValidB b → ∃ a, G b a ∧ V a)
    (hw : ∀ b a, ValidB b → G b a → wireB b = enc a ++ rest a b) :
    Decodes T (p >>= f) ValidB wireB where
  sound {c b c'} h := by
    rcases of_bind_ok h with ⟨a, c₁, h₁, h₂⟩
    rcases hp.sound h₁ with ⟨ha, hc₁⟩
    rcases (hf a ha).sound h₂ with ⟨⟨hb, hGb⟩, hc₂⟩
    rw [hw b a hb hGb]
    exact ⟨hb, hc₁.trans hc₂⟩
  complete {c b c'} hb hc := by
    rcases hG b hb with ⟨a, hGb, ha⟩
    rw [hw b a hb hGb] at hc
    rcases hc.split with ⟨c₁, hc₁, hc₂⟩
    rw [bind_ok (hp.complete ha hc₁)]
    exact (hf a ha).complete ⟨hb, hGb⟩ hc₂
  truncated {c b} hb hpre hne := by
    rcases hG b hb with ⟨a, hGb, ha⟩
    rw [hw b a hb hGb] at hpre hne
    -- The input ends inside what `p` reads, or after it.
    by_cases hin : enc a <+: c.remaining
    · rcases Cursor.Consumes.of_isPrefix hin with ⟨c₁, hc₁⟩
      rw [bind_ok (hp.complete ha hc₁)]
      rw [hc₁.2] at hpre hne
      refine (hf a ha).truncated ⟨hb, hGb⟩ ((List.prefix_append_right_inj _).1 hpre) ?_
      intro heq
      exact hne (by rw [heq])
    · have hshort : c.remaining <+: enc a := by
        rcases List.prefix_or_prefix_of_prefix hpre (List.prefix_append _ _) with h | h
        · exact h
        · exact absurd h hin
      have hne' : c.remaining ≠ enc a := by
        intro heq
        exact hin (heq ▸ List.prefix_refl _)
      rcases hp.truncated ha hshort hne' with ⟨e, hT, he⟩
      exact ⟨e, hT, bind_error he⟩

/-- The last line of a parser: it returns the one valid value that is left. -/
theorem pure_iff {a : α} (hV : ∀ b, Valid b ↔ b = a) :
    Decodes T (pure a : Parser τ ε α) Valid (fun _ => []) where
  sound h := by
    cases h
    exact ⟨(hV _).2 rfl, Cursor.Consumes.nil _⟩
  complete ha hc := by
    rw [(hV _).1 ha, hc.eq_of_nil]
    rfl
  truncated _ hpre hne := absurd (List.prefix_nil.1 hpre) hne

/-- A check that raises `e` when `c` holds, where no valid value has `c`. -/
theorem raise {c : Prop} [Decidable c] {e : ε} {q : Unit → Parser τ ε α}
    (hc : ∀ a, Valid a → ¬ c) (hq : ¬ c → Decodes T (q ()) Valid wire) :
    Decodes T (raiseIf c e >>= q) Valid wire := by
  by_cases h : c
  -- The check fires on every input; then there is no valid value to be read either.
  · refine ⟨?_, ?_, ?_⟩
    · intro cur a c' hp
      rw [raiseIf_bind_of_pos h] at hp
      cases hp
    · intro cur a c' ha
      exact absurd h (hc a ha)
    · intro cur a ha
      exact absurd h (hc a ha)
  · rw [raiseIf_bind_of_not h]
    exact hq h

/-- A size check on what remains, where every encoding that follows has that size. -/
theorem guard {need : Nat} {e : Nat → ε} {q : Unit → Parser τ ε α} (hT : ∀ n, T (e n))
    (hq : Decodes T (q ()) Valid wire) (hlen : ∀ a, Valid a → need ≤ (wire a).length) :
    Decodes T (checkRemaining need e >>= q) Valid wire := by
  have hrun : ∀ c : Cursor τ, (checkRemaining need e >>= q) c =
      if c.remainingLen < need then .error (e c.remainingLen) else q () c := by
    intro c
    by_cases h : c.remainingLen < need
    · have hfail : checkRemaining need e c = .error (e c.remainingLen) := by
        simp [checkRemaining, h]
      rw [if_pos h, bind_error hfail]
    · have hpass : checkRemaining need e c = .ok ((), c) := by
        simp [checkRemaining, h]
      rw [if_neg h, bind_ok hpass]
  -- An encoding that is there has the size asked for: the check only stops a truncated one.
  refine ⟨?_, ?_, ?_⟩
  · intro c a c' h
    rw [hrun] at h
    split at h
    · cases h
    · exact hq.sound h
  · intro c a c' ha hc
    have hle : need ≤ c.remainingLen := by
      have h₁ := hlen a ha
      have h₂ := hc.isPrefix.length_le
      rw [Cursor.length_remaining] at h₂
      omega
    rw [hrun, if_neg (by omega)]
    exact hq.complete ha hc
  · intro c a ha hpre hne
    rw [hrun]
    split
    -- Too few symbols: the check itself reports the missing input.
    · exact ⟨_, hT _, rfl⟩
    · exact hq.truncated ha hpre hne

/-! ## Records read field by field

A record parser is followed line by line with `Valid b ∧ Known b`: `Valid` is what the finished
record has to satisfy, `Known` collects the fields that have been read so far. -/

section Records

variable {Known : α → Prop} {rest : α → List τ} {q : β → Parser τ ε α} {VB : β → Prop}
variable {encB : β → List τ}

theorem record (h : Decodes T p (fun b => Valid b ∧ True) enc)
    (hw : ∀ b, Valid b → wire b = enc b) : Decodes T p Valid wire :=
  h.congr (fun _ => (and_iff_left trivial).symm) hw

/-- Read the field `g` of the record. -/
theorem field {r : Parser τ ε β} (g : α → β) (hr : Decodes T r VB encB)
    (hV : ∀ b, Valid b → Known b → VB (g b))
    (hq : ∀ v, VB v → Decodes T (q v) (fun b => Valid b ∧ (Known b ∧ g b = v)) rest) :
    Decodes T (r >>= q) (fun b => Valid b ∧ Known b) (fun b => encB (g b) ++ rest b) := by
  refine seq (fun b v => g b = v) (fun _ => rest) hr ?_ ?_ ?_
  · intro v hv
    refine (hq v hv).congr ?_ (fun _ _ => rfl)
    intro b
    exact and_assoc
  · rintro b ⟨hb, hk⟩
    exact ⟨g b, rfl, hV b hb hk⟩
  · rintro b v - rfl
    rfl

/-- Read the field `g` of the record, in a layout that the known part `k` of it selects. -/
theorem fieldAs {κ : Type} {r : Parser τ ε β} {encK : κ → β → List τ} {v₀ : κ} (g : α → β)
    (k : α → κ) (hr : Decodes T r VB (encK v₀)) (hk : ∀ b, Valid b → Known b → k b = v₀)
    (hV : ∀ b, Valid b → Known b → VB (g b))
    (hq : ∀ v, VB v → Decodes T (q v) (fun b => Valid b ∧ (Known b ∧ g b = v)) rest) :
    Decodes T (r >>= q) (fun b => Valid b ∧ Known b) (fun b => encK (k b) (g b) ++ rest b) := by
  refine (field g hr hV hq).congr (fun _ => Iff.rfl) ?_
  rintro b ⟨hb, hknown⟩
  rw [hk b hb hknown]

theorem check {c : Prop} [Decidable c] {e : ε} {q : Unit → Parser τ ε α}
    (hc : ∀ b, Valid b → Known b → ¬ c)
    (hq : ¬ c → Decodes T (q ()) (fun b => Valid b ∧ Known b) rest) :
    Decodes T (raiseIf c e >>= q) (fun b => Valid b ∧ Known b) rest :=
  raise (fun b hb => hc b hb.1 hb.2) hq

/-- Read a constant, and raise unless it is `v₀`. -/
theorem expect {r : Parser τ ε β} (v₀ : β) [∀ v, Decidable (v ≠ v₀)] {e : β → ε}
    (hr : Decodes T r VB encB) (h₀ : VB v₀)
    (hq : Decodes T (q v₀) (fun b => Valid b ∧ Known b) rest) :
    Decodes T (r >>= fun v => raiseIf (v ≠ v₀) (e v) >>= fun _ => q v)
      (fun b => Valid b ∧ Known b) (fun b => encB v₀ ++ rest b) := by
  -- The constant is no part of the record, so every record names `v₀` as what is read here.
  refine seq (fun _ v => v = v₀) (fun _ => rest) hr ?_ ?_ ?_
  · intro v _
    refine raise ?_ ?_
    · rintro b ⟨-, rfl⟩
      simp
    · intro hv
      rcases not_not.1 hv with rfl
      exact hq.congr (fun b => and_iff_left rfl) (fun _ _ => rfl)
  · intro b _
    exact ⟨v₀, rfl, h₀⟩
  · rintro b v - rfl
    rfl

/-- The record is complete. -/
theorem done {a : α} (hV : Valid a) (hk : Known a) (huniq : ∀ b, Valid b → Known b → b = a) :
    Decodes T (pure a : Parser τ ε α) (fun b => Valid b ∧ Known b) (fun _ => []) := by
  refine pure_iff ?_
  intro b
  constructor
  · rintro ⟨hb, hk'⟩
    exact huniq b hb hk'
  · rintro rfl
    exact ⟨hV, hk⟩

/-- The record is complete, through a constructor that checks. -/
theorem doneOk {a : α} {x : Except ε α} (hx : x = .ok a) (hV : Valid a) (hk : Known a)
    (huniq : ∀ b, Valid b → Known b → b = a) :
    Decodes T (liftM x : Parser τ ε α) (fun b => Valid b ∧ Known b) (fun _ => []) := by
  subst hx
  exact done hV hk huniq

end Records

/-- A parser whose errors are rewritten, where reports of missing input stay such. -/
theorem mapError {g : ε → ε} (hg : ∀ e, T e → T (g e)) (hp : Decodes T p Valid wire) :
    Decodes T (mapError g p) Valid wire where
  sound {c a c'} h := by
    cases hpc : p c with
    | error e =>
        simp [Wire.mapError, hpc, Except.mapError] at h
    | ok r =>
        simp only [Wire.mapError, hpc, Except.mapError, Except.ok.injEq] at h
        exact hp.sound (h ▸ hpc)
  complete ha hc := by
    simp [Wire.mapError, hp.complete ha hc, Except.mapError]
  truncated ha hpre hne := by
    rcases hp.truncated ha hpre hne with ⟨e, hT, he⟩
    exact ⟨g e, hg e hT, by simp [Wire.mapError, he, Except.mapError]⟩

/-- A value computed without reading. -/
theorem lift {x : Except ε α} : Decodes T (liftM x : Parser τ ε α) (fun a => x = .ok a)
    (fun _ => []) := by
  -- A failed computation has no value, so all three fields are vacuous there.
  cases x with
  | error e =>
      refine ⟨?_, ?_, ?_⟩
      · intro c a c' h
        cases h
      · intro c a c' h
        cases h
      · intro c a h
        cases h
  | ok v =>
      refine pure_iff ?_
      intro b
      simp [eq_comm]

theorem map {g : α → β} (hg : Function.Injective g) (hp : Decodes T p Valid wire)
    {ValidB : β → Prop} {wireB : β → List τ} (hV : ∀ b, ValidB b ↔ ∃ a, Valid a ∧ g a = b)
    (hw : ∀ a, Valid a → wireB (g a) = wire a) : Decodes T (g <$> p) ValidB wireB := by
  rw [map_eq_pure_bind]
  refine seq (fun b a => g a = b) (fun _ _ => []) hp ?_ ?_ ?_
  · intro a ha
    refine pure_iff ?_
    intro b
    constructor
    · rintro ⟨-, h⟩
      exact h.symm
    · rintro rfl
      exact ⟨(hV _).2 ⟨a, ha, rfl⟩, rfl⟩
  · intro b hb
    rcases (hV b).1 hb with ⟨a, ha, rfl⟩
    exact ⟨a, rfl, ha⟩
  -- Injectivity recovers the value whose encoding was read.
  · rintro b a hb rfl
    rcases (hV _).1 hb with ⟨a', ha', hgg⟩
    rcases hg hgg with rfl
    rw [hw _ ha', List.append_nil]

/-- The symbols a parser consumed are the encoding of what it returned. -/
theorem withSlice (hp : Decodes T p Valid wire) :
    Decodes T (withSlice p) (fun r => Valid r.1 ∧ r.2 = wire r.1) (fun r => wire r.1) := by
  -- The slice of the buffer between the two positions is what was consumed.
  have hslice : ∀ {c c' : Cursor τ} {xs : List τ}, c.Consumes xs c' →
      (c.buf.take c'.pos).drop c.pos = xs := by
    intro c c' xs hc
    calc
      (c.buf.take c'.pos).drop c.pos
          = c.remaining.take (c'.pos - c.pos) := List.drop_take
      _ = (xs ++ c'.remaining).take xs.length := by
          rw [hc.pos_eq, Nat.add_sub_cancel_left, hc.2]
      _ = xs := List.take_left
  refine ⟨?_, ?_, ?_⟩
  · rintro c ⟨a, s⟩ c' h
    cases hpc : p c with
    | error e =>
        simp [Wire.withSlice, hpc, Except.map] at h
    | ok r =>
        simp only [Wire.withSlice, hpc, Except.map, Except.ok.injEq, Prod.mk.injEq] at h
        rcases h with ⟨⟨rfl, rfl⟩, rfl⟩
        have hpc' : p c = .ok (r.1, r.2) := hpc
        rcases hp.sound hpc' with ⟨ha, hc⟩
        exact ⟨⟨ha, hslice hc⟩, hc⟩
  · rintro c ⟨a, s⟩ c' ⟨ha, hs⟩ hc
    dsimp only at ha hs hc
    simp [Wire.withSlice, hp.complete ha hc, Except.map, hslice hc, hs]
  -- Keeping the slice does not change which error a truncated input gives.
  · rintro c ⟨a, s⟩ ⟨ha, -⟩ hpre hne
    rcases hp.truncated ha hpre hne with ⟨e, hT, he⟩
    exact ⟨e, hT, by simp [Wire.withSlice, he, Except.map]⟩

/-- Read the field `g` of a record that also keeps, as `slice`, the symbols it was read from. -/
theorem fieldSlice {T : ε → Prop} {Valid Known : α → Prop} {rest : α → List τ}
    {q : β × List τ → Parser τ ε α} {VB : β → Prop} {encB : β → List τ} {r : Parser τ ε β}
    (g : α → β) (slice : α → List τ) (hr : Decodes T r VB encB)
    (hslice : ∀ b, Valid b → slice b = encB (g b)) (hV : ∀ b, Valid b → Known b → VB (g b))
    (hq : ∀ v, VB v → Decodes T (q (v, encB v)) (fun b => Valid b ∧ (Known b ∧ g b = v)) rest) :
    Decodes T (Wire.withSlice r >>= q) (fun b => Valid b ∧ Known b)
      (fun b => encB (g b) ++ rest b) := by
  refine field (fun b => (g b, slice b)) hr.withSlice ?_ ?_
  · exact fun b hb hk => ⟨hV b hb hk, hslice b hb⟩
  -- The slice is determined by the field, so it adds nothing to what is known.
  · rintro ⟨v, s⟩ ⟨hv, hs⟩
    dsimp only at hv hs
    subst hs
    refine (hq v hv).congr ?_ (fun _ _ => rfl)
    intro b
    constructor
    · rintro ⟨hb, hk, heq⟩
      exact ⟨hb, hk, congrArg Prod.fst heq⟩
    · rintro ⟨hb, hk, rfl⟩
      exact ⟨hb, hk, Prod.ext rfl (hslice b hb)⟩

/-! ## Counted loops -/

/-- Elements of at least `width` symbols each take at least that many together. -/
theorem length_flatMap_ge {as : List α} {enc : α → List τ} {width : Nat}
    (h : ∀ a ∈ as, width ≤ (enc a).length) : as.length * width ≤ (as.flatMap enc).length := by
  induction as with
  | nil =>
      simp
  | cons a as ih =>
      have ha := h a List.mem_cons_self
      have has := ih fun b hb => h b (List.mem_cons_of_mem _ hb)
      simp only [List.length_cons, List.flatMap_cons, List.length_append, Nat.succ_mul]
      -- The products are opaque to `omega`; `Nat.succ_mul` has made the sum linear in them.
      omega

end Decodes

/-! ## Loops that carry a state

`Admissible ok next s as`: the loop that starts in state `s` admits the elements `as` one after
another, `ok` being what it asks of an element and `next` how an element changes the state. -/

def Admissible (ok : σ → α → Prop) (next : σ → α → σ) : σ → List α → Prop
  | _, [] => True
  | s, a :: as => ok s a ∧ Admissible ok next (next s a) as

/-- A loop whose state never matters admits the lists of admissible elements. -/
theorem admissible_forall_iff {V : α → Prop} {next : σ → α → σ} {s : σ} {as : List α} :
    Admissible (fun _ a => V a) next s as ↔ ∀ a ∈ as, V a := by
  induction as generalizing s with
  | nil =>
      simp [Admissible]
  | cons a as ih =>
      simp [Admissible, ih]

theorem repeatIndexed_eq_collect (p : Nat → Parser τ ε α) :
    ∀ n i, repeatIndexed p i n =
      collect (fun i (_ : Unit) => (fun a => (a, ())) <$> p i) i n () := by
  intro n
  induction n with
  | zero =>
      intro i
      rfl
  | succ n ih =>
      intro i
      simp only [repeatIndexed, collect, ih, bind_map_left]

namespace Decodes

theorem collect {T : ε → Prop} {p : Nat → σ → Parser τ ε (α × σ)} (ok : σ → α → Prop)
    (next : σ → α → σ) (wire : α → List τ)
    (hp : ∀ i s, Decodes T (p i s) (fun r => ok s r.1 ∧ r.2 = next s r.1) (fun r => wire r.1)) :
    ∀ n i s, Decodes T (collect p i n s) (fun as => as.length = n ∧ Admissible ok next s as)
      (fun as => as.flatMap wire) := by
  intro n
  induction n with
  | zero =>
      intro i s
      -- No round is left: the empty list is the only one of length zero.
      refine (pure_iff fun as => (Iff.rfl : as = [] ↔ as = [])).congr ?_ ?_
      · intro as
        constructor
        · rintro ⟨hlen, -⟩
          exact List.length_eq_zero_iff.1 hlen
        · rintro rfl
          simp [Admissible]
      · rintro as ⟨hlen, -⟩
        simp [List.length_eq_zero_iff.1 hlen]
  | succ n ih =>
      intro i s
      -- The first round reads the head and the next state, the other rounds read the tail.
      refine seq (fun as r => as.head? = some r.1 ∧ r.2 = next s r.1)
        (fun _ as => as.tail.flatMap wire) (hp i s) ?_ ?_ ?_
      · rintro ⟨a, s'⟩ ⟨ha, hs'⟩
        dsimp only at ha hs'
        subst hs'
        refine (field (fun as => as.tail) (ih (i + 1) (next s a)) ?_ ?_).congr
          (fun _ => Iff.rfl) (fun as _ => (List.append_nil _).symm)
        -- What the loop asks of the tail, it asks in the state after the head.
        · rintro as ⟨hlen, has⟩ ⟨hhead, -⟩
          rw [List.eq_cons_of_mem_head? hhead] at has hlen
          exact ⟨by simpa using hlen, has.2⟩
        · rintro as ⟨hlen, has⟩
          refine done ⟨by simp [hlen], ha, has⟩ ⟨⟨rfl, rfl⟩, rfl⟩ ?_
          rintro bs - ⟨⟨hhead, -⟩, rfl⟩
          exact List.eq_cons_of_mem_head? hhead
      · rintro as ⟨hlen, has⟩
        cases as with
        | nil =>
            simp at hlen
        | cons a as =>
            exact ⟨(a, next s a), ⟨rfl, rfl⟩, has.1, rfl⟩
      · rintro as ⟨a, s'⟩ - ⟨hhead, -⟩
        rw [List.eq_cons_of_mem_head? hhead]
        simp

theorem repeatIndexed {T : ε → Prop} {Valid : α → Prop} {wire : α → List τ}
    {p : Nat → Parser τ ε α} (hp : ∀ i, Decodes T (p i) Valid wire) (n i : Nat) :
    Decodes T (repeatIndexed p i n) (fun as => as.length = n ∧ ∀ a ∈ as, Valid a)
      (fun as => as.flatMap wire) := by
  -- Each round of a stateless loop is a round that hands on the unit state.
  have hround : ∀ i (s : Unit), Decodes T ((fun a => (a, s)) <$> p i)
      (fun r => Valid r.1 ∧ r.2 = ()) (fun r => wire r.1) := by
    intro i s
    refine (hp i).map (fun a b hab => congrArg Prod.fst hab) ?_ (fun _ _ => rfl)
    rintro ⟨a, s'⟩
    constructor
    · rintro ⟨ha, -⟩
      exact ⟨a, ha, rfl⟩
    · rintro ⟨b, hb, hab⟩
      cases hab
      exact ⟨hb, rfl⟩
  rw [repeatIndexed_eq_collect]
  refine (collect (fun _ => Valid) (fun _ _ => ()) wire hround n i ()).congr ?_ (fun _ _ => rfl)
  intro as
  rw [admissible_forall_iff]

end Decodes

/-- A loop that remembers the keys it has seen and refuses a repeated one admits the lists of
admissible elements with distinct fresh keys. -/
theorem admissible_fresh_iff {V : α → Prop} {key : α → κ} {seen : List κ} {as : List α} :
    Admissible (fun seen a => V a ∧ key a ∉ seen) (fun seen a => key a :: seen) seen as ↔
      (∀ a ∈ as, V a) ∧ (as.map key).Nodup ∧ ∀ a ∈ as, key a ∉ seen := by
  induction as generalizing seen with
  | nil =>
      simp [Admissible]
  | cons a as ih =>
      simp only [Admissible, ih, List.mem_cons, List.map_cons, List.nodup_cons, List.mem_map,
        forall_eq_or_imp, not_or]
      -- That the tail avoids the key of the head is asked for by either side, in other words.
      constructor
      · rintro ⟨⟨hV, hk⟩, hVs, hnd, hfresh⟩
        refine ⟨⟨hV, hVs⟩, ⟨?_, hnd⟩, hk, fun b hb => (hfresh b hb).2⟩
        rintro ⟨b, hb, hkey⟩
        exact (hfresh b hb).1 hkey
      · rintro ⟨⟨hV, hVs⟩, ⟨hne, hnd⟩, hk, hfresh⟩
        refine ⟨⟨hV, hk⟩, hVs, hnd, fun b hb => ⟨?_, hfresh b hb⟩⟩
        intro hkey
        exact hne ⟨b, hb, hkey⟩

/-- The counted loop that refuses an element whose key it has seen. -/
theorem Decodes.collectFresh {T : ε → Prop} {p : Nat → List κ → Parser τ ε (α × List κ)}
    (V : α → Prop) (key : α → κ) (wire : α → List τ)
    (hp : ∀ i seen, Decodes T (p i seen)
      (fun r => (V r.1 ∧ key r.1 ∉ seen) ∧ r.2 = key r.1 :: seen) (fun r => wire r.1)) (n : Nat) :
    Decodes T (Wire.collect p 0 n [])
      (fun as => as.length = n ∧ (∀ a ∈ as, V a) ∧ (as.map key).Nodup)
      (fun as => as.flatMap wire) := by
  refine (Decodes.collect (fun seen a => V a ∧ key a ∉ seen) (fun seen a => key a :: seen) wire
    hp n 0 []).congr ?_ (fun _ _ => rfl)
  intro as
  rw [admissible_fresh_iff]
  simp

end Wire
