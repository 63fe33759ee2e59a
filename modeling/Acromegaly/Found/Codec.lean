import Mathlib.Data.List.Basic

/-!
# Codecs

A `Codec β α` writes values of type `α` as lists of symbols and reads them back from the front of a
list. Its one law, `parse_iff`, says both that what was written is read, whatever follows, and that
what is read was written so: there is one encoding for each value, no encoding begins another, and a
list is refused only if no encoding begins it (`parse_eq_none_iff`).
Codecs are put together from symbols: one after the other, where the first may decide what follows
(`bind`), values listed with their symbols (`oneOf`), fixed text (`literal`) and changes of the type
(`xmap`).
-/

namespace Acromegaly.Found

/-- A way to write and read values. -/
structure Codec (β α : Type*) where
  encode : α → List β
  /-- Read a value from the front of a list; what is left comes with it. -/
  parse : List β → Option (α × List β)
  parse_iff : ∀ {bs : List β} {a : α} {rest : List β},
    parse bs = some (a, rest) ↔ bs = encode a ++ rest

namespace Codec

variable {β α γ : Type*}

/-! ## What the law says -/

theorem parse_encode (c : Codec β α) (a : α) (rest : List β) :
    c.parse (c.encode a ++ rest) = some (a, rest) := c.parse_iff.mpr rfl

/-- A list is refused if no encoding begins it. -/
theorem parse_eq_none_iff (c : Codec β α) {bs : List β} :
    c.parse bs = none ↔ ∀ a rest, bs ≠ c.encode a ++ rest := by
  rw [Option.eq_none_iff_forall_ne_some]
  constructor
  · intro h a rest hbs
    exact h (a, rest) (c.parse_iff.mpr hbs)
  · rintro h ⟨a, rest⟩ hparse
    exact h a rest (c.parse_iff.mp hparse)

/-! ## Building blocks -/

/-- A single symbol. -/
def symbol : Codec β β where
  encode b := [b]
  parse
    | [] => none
    | b :: rest => some (b, rest)
  parse_iff := by
    intro bs a rest
    cases bs with
    | nil => simp
    | cons b bs => simp

/-- Nothing. -/
def empty : Codec β Unit where
  encode _ := []
  parse bs := some ((), bs)
  parse_iff := by simp

/-- A value, and then one that is written as the first says. -/
def bind {γ : α → Type*} (c : Codec β α) (d : (a : α) → Codec β (γ a)) : Codec β ((a : α) × γ a) where
  encode x := c.encode x.1 ++ (d x.1).encode x.2
  parse bs := (c.parse bs).bind fun x => ((d x.1).parse x.2).map fun y => (⟨x.1, y.1⟩, y.2)
  parse_iff := by
    rintro bs ⟨a, b⟩ rest
    constructor
    · intro h
      obtain ⟨⟨a', mid⟩, hc, hd⟩ := Option.bind_eq_some_iff.mp h
      obtain ⟨⟨b', rest'⟩, hparse, hpair⟩ := Option.map_eq_some_iff.mp hd
      obtain ⟨hval, rfl⟩ := Prod.mk.inj hpair
      cases hval
      have hfront : bs = c.encode a' ++ mid := c.parse_iff.mp hc
      have hback : mid = (d a').encode b' ++ rest' := (d a').parse_iff.mp hparse
      rw [hfront, hback, ← List.append_assoc]
    · rintro rfl
      rw [List.append_assoc, parse_encode, Option.bind_some, parse_encode]
      rfl

/-- One value after the other. -/
def pair (c : Codec β α) (d : Codec β γ) : Codec β (α × γ) where
  encode x := c.encode x.1 ++ d.encode x.2
  parse bs := ((c.bind fun _ => d).parse bs).map fun x => ((x.1.1, x.1.2), x.2)
  parse_iff := by
    rintro bs ⟨a, b⟩ rest
    have h : (c.bind fun _ => d).parse bs = some (⟨a, b⟩, rest) ↔
        bs = c.encode a ++ d.encode b ++ rest := (c.bind fun _ => d).parse_iff
    rw [← h, Option.map_eq_some_iff]
    constructor
    · rintro ⟨⟨⟨a', b'⟩, rest'⟩, hparse, hpair⟩
      cases hpair
      exact hparse
    · intro hparse
      exact ⟨_, hparse, rfl⟩

/-- The values are others: `f` reads them, where it can, and `g` writes them. -/
def xmap (c : Codec β α) (f : α → Option γ) (g : γ → α) (h : ∀ {a x}, f a = some x ↔ a = g x) :
    Codec β γ where
  encode x := c.encode (g x)
  parse bs := (c.parse bs).bind fun x => (f x.1).map fun y => (y, x.2)
  parse_iff := by
    intro bs x rest
    constructor
    · intro hbind
      obtain ⟨⟨a, rest'⟩, hc, hf⟩ := Option.bind_eq_some_iff.mp hbind
      obtain ⟨y, hy, hpair⟩ := Option.map_eq_some_iff.mp hf
      obtain ⟨rfl, rfl⟩ := Prod.mk.inj hpair
      have hfront : bs = c.encode a ++ rest' := c.parse_iff.mp hc
      have ha : a = g y := h.mp hy
      rw [hfront, ha]
    · rintro rfl
      rw [parse_encode, Option.bind_some, h.mpr rfl]
      rfl

/-- One of several values, each with a symbol of its own. -/
def oneOf [DecidableEq β] (values : List α) (code : α → β)
    (h : ∀ x, values.find? (fun y => code y = code x) = some x) : Codec β α :=
  symbol.xmap (fun b => values.find? fun y => code y = b) code (by
    intro b x
    constructor
    · intro hfind
      have hcode := List.find?_some hfind
      exact (of_decide_eq_true hcode).symm
    · rintro rfl
      exact h x)

/-- Fixed text. -/
def literal [DecidableEq β] (text : List β) : Codec β Unit where
  encode _ := text
  parse bs := if bs.take text.length = text then some ((), bs.drop text.length) else none
  parse_iff := by
    intro bs a rest
    rw [Option.ite_none_right_eq_some]
    constructor
    · rintro ⟨htake, hdrop⟩
      obtain ⟨-, rfl⟩ := Prod.mk.inj (Option.some.inj hdrop)
      have hsplit := List.take_append_drop text.length bs
      rw [htake] at hsplit
      exact hsplit.symm
    · rintro rfl
      exact ⟨List.take_left, by rw [List.drop_left]⟩

end Codec

end Acromegaly.Found
