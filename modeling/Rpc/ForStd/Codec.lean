import Mathlib.Computability.Language

/-!
# Codecs

A decoder takes a value off the front of its input and returns the rest.  Three
things are said about one:

* `Inverts`: it undoes an encoder, whatever follows the encoding;
* `Delimited`: the encodings it undoes are self-delimiting, so that two strings of
  them can only be equal field by field (`Delimited.flatMap_append`);
* `Accepts`: it succeeds exactly on the inputs that begin with a word of a language,
  and leaves what follows this word.  Decoders that run one after the other accept the
  product of the languages (`AcceptsAt.bind`).
-/

namespace Codec

variable {σ ε α β : Type}

/-- A decoder. -/
abbrev Reader (σ ε α : Type) := List σ → Except ε (α × List σ)

/-- `read` undoes `enc` on the valid values. -/
def Inverts (read : Reader σ ε α) (enc : α → List σ) (valid : α → Prop) : Prop :=
  ∀ a rest, valid a → read (enc a ++ rest) = .ok (a, rest)

/-- Where the encoding of a valid value ends can be told from the encoding. -/
def Delimited (enc : α → List σ) (valid : α → Prop) : Prop :=
  ∀ a b s t, valid a → valid b → enc a ++ s = enc b ++ t → a = b ∧ s = t

/-- `x`, computed on input `p`, succeeds if `p` begins with a word of `lang`, and leaves what
    follows this word. -/
def AcceptsAt (p : List σ) (x : Except ε (α × List σ)) (lang : Language σ) : Prop :=
  ∀ q, (∃ a, x = .ok (a, q)) ↔ ∃ b ∈ lang, p = b ++ q

/-- `read` succeeds exactly on the inputs that begin with a word of `lang`. -/
def Accepts (read : Reader σ ε α) (lang : Language σ) : Prop := ∀ p, AcceptsAt p (read p) lang

/-- Both parts of a computation that returns have returned. -/
theorem bind_eq_ok {x : Except ε α} {f : α → Except ε β} {b : β} (h : x >>= f = .ok b) :
    ∃ a, x = .ok a ∧ f a = .ok b := by
  cases x with
  | error e => cases h
  | ok a => exact ⟨a, rfl, h⟩

/-! ## Self-delimiting encodings -/

/-- What can be read back is delimited. -/
theorem Inverts.delimited {read : Reader σ ε α} {enc : α → List σ} {valid : α → Prop}
    (h : Inverts read enc valid) : Delimited enc valid := by
  intro a b s t ha hb heq
  have hread := h a s ha
  rw [heq, h b t hb, Except.ok.injEq, Prod.mk.injEq] at hread
  exact ⟨hread.1.symm, hread.2.symm⟩

/-- Lists of one length, element after element. -/
theorem Delimited.flatMap_append {enc : α → List σ} {valid : α → Prop} (h : Delimited enc valid)
    {xs ys : List α} {s t : List σ} (hlen : xs.length = ys.length) (hxs : ∀ x ∈ xs, valid x)
    (hys : ∀ y ∈ ys, valid y) (heq : xs.flatMap enc ++ s = ys.flatMap enc ++ t) :
    xs = ys ∧ s = t := by
  induction xs generalizing ys with
  | nil =>
    cases ys with
    | nil => exact ⟨rfl, heq⟩
    | cons y ys => simp at hlen
  | cons x xs ih =>
    cases ys with
    | nil => simp at hlen
    | cons y ys =>
      rw [List.forall_mem_cons] at hxs hys
      simp only [List.flatMap_cons, List.append_assoc] at heq
      obtain ⟨hxy, hrest⟩ := h x y _ _ hxs.1 hys.1 heq
      obtain ⟨htail, hst⟩ := ih (Nat.succ.inj hlen) hxs.2 hys.2 hrest
      exact ⟨by rw [hxy, htail], hst⟩

/-! ## Accepted languages -/

/-- The inputs on which a decoder succeeds at all. -/
theorem Accepts.exists_ok_iff {read : Reader σ ε α} {lang : Language σ} (h : Accepts read lang)
    (p : List σ) : (∃ x, read p = .ok x) ↔ ∃ b ∈ lang, b <+: p := by
  constructor
  · rintro ⟨⟨a, q⟩, hread⟩
    obtain ⟨b, hb, hp⟩ := (h p q).mp ⟨a, hread⟩
    exact ⟨b, hb, q, hp.symm⟩
  · rintro ⟨b, hb, q, hp⟩
    obtain ⟨a, hread⟩ := (h p q).mpr ⟨b, hb, hp.symm⟩
    exact ⟨(a, q), hread⟩

/-- Reading nothing accepts the empty word. -/
theorem AcceptsAt.pure (p : List σ) (a : α) :
    AcceptsAt p (.ok (a, p) : Except ε (α × List σ)) 1 := by
  intro q
  simp [Language.mem_one]

/-- One decoder after the other. -/
theorem AcceptsAt.bind {p : List σ} {x : Except ε (α × List σ)} {l m : Language σ}
    {f : α × List σ → Except ε (β × List σ)} (h : AcceptsAt p x l)
    (hf : ∀ a p', AcceptsAt p' (f (a, p')) m) : AcceptsAt p (x >>= f) (l * m) := by
  intro q
  constructor
  · rintro ⟨b, hb⟩
    cases x with
    | error e => cases hb
    | ok y =>
      obtain ⟨u, hu, hp⟩ := (h y.2).mp ⟨y.1, rfl⟩
      obtain ⟨v, hv, hy⟩ := (hf y.1 y.2 q).mp ⟨b, hb⟩
      exact ⟨u ++ v, Language.append_mem_mul hu hv, by rw [hp, hy, List.append_assoc]⟩
  · rintro ⟨w, hw, hp⟩
    obtain ⟨u, hu, v, hv, huv⟩ := Language.mem_mul.mp hw
    obtain ⟨a, rfl⟩ := (h (v ++ q)).mpr ⟨u, hu, by rw [hp, ← huv, List.append_assoc]⟩
    exact (hf a (v ++ q) q).mpr ⟨v, hv, rfl⟩

/-- What is returned does not matter. -/
theorem AcceptsAt.bind_pure {p : List σ} {x : Except ε (α × List σ)} {l : Language σ}
    {f : α × List σ → Except ε (β × List σ)} (h : AcceptsAt p x l)
    (hf : ∀ a q, ∃ b, f (a, q) = .ok (b, q)) : AcceptsAt p (x >>= f) l := by
  rw [← mul_one l]
  apply h.bind
  intro a p'
  obtain ⟨b, hb⟩ := hf a p'
  rw [hb]
  exact AcceptsAt.pure p' b

end Codec
