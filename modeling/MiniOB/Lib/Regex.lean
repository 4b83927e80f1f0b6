import Mathlib

/-!
# Regular expressions

Sequences of characters and dots, each of them with or without a star, as ECMAScript writes them:
the languages that they stand for where small and capital letters are the same, their texts, the
parser that reads such a text back, and a matcher.
-/

namespace Regex

open Computability

/-- The bytes of a text. -/
abbrev Text := List (BitVec 8)

/-- What stands for one character. -/
inductive Atom where
  | char (c : BitVec 8)
  | dot

/-- An atom, or a repeated one. -/
structure Term where
  atom : Atom
  starred : Bool

/-! ### Languages -/

/-- The small letter for a capital one. -/
def lower (b : BitVec 8) : BitVec 8 := if 65 ≤ b ∧ b ≤ 90 then b + 32 else b

/-- A line feed or a carriage return. -/
def IsLineTerminator (b : BitVec 8) : Prop := b = 10 ∨ b = 13

instance : DecidablePred IsLineTerminator := fun b => inferInstanceAs (Decidable (b = 10 ∨ b = 13))

/-- A dot stands for all characters but those that end a line. -/
def Atom.Accepts : Atom → BitVec 8 → Prop
  | char c, b => lower b = lower c
  | dot, b => ¬ IsLineTerminator b

instance : ∀ atom : Atom, DecidablePred atom.Accepts
  | .char c => fun b => inferInstanceAs (Decidable (lower b = lower c))
  | .dot => fun b => inferInstanceAs (Decidable (¬ IsLineTerminator b))

/-- The characters that an atom stands for. -/
def Atom.language (atom : Atom) : Language (BitVec 8) := {s | ∃ b, atom.Accepts b ∧ s = [b]}

def Term.language (term : Term) : Language (BitVec 8) :=
  if term.starred then term.atom.language∗ else term.atom.language

/-- What all of a text has to be for a match. -/
def language (terms : List Term) : Language (BitVec 8) := (terms.map Term.language).prod

variable {atom : Atom} {term : Term} {terms : List Term} {s : Text}

theorem mem_language_nil :
  s ∈ language [] ↔ s = []
  := by
  rw [language, List.map_nil, List.prod_nil, Language.mem_one]

theorem mem_language_cons :
  s ∈ language (term :: terms) ↔ ∃ t u, s = t ++ u ∧ t ∈ term.language ∧ u ∈ language terms
  := by
  rw [language, List.map_cons, List.prod_cons, Language.mem_mul]
  constructor
  · rintro ⟨t, ht, u, hu, rfl⟩
    exact ⟨t, u, rfl, ht, hu⟩
  · rintro ⟨t, u, rfl, ht, hu⟩
    exact ⟨t, ht, u, hu, rfl⟩

theorem mem_language_once :
  s ∈ Term.language ⟨atom, false⟩ ↔ ∃ b, atom.Accepts b ∧ s = [b]
  := Iff.rfl

theorem mem_language_starred :
  s ∈ Term.language ⟨atom, true⟩ ↔ ∀ b ∈ s, atom.Accepts b
  := by
  rw [Term.language, if_pos rfl, Language.mem_kstar]
  constructor
  · rintro ⟨parts, rfl, hparts⟩ b hb
    obtain ⟨part, hpart, hmem⟩ := List.mem_flatten.mp hb
    obtain ⟨c, hc, rfl⟩ := hparts part hpart
    rwa [List.mem_singleton.mp hmem]
  · intro h
    refine ⟨s.map fun b => [b], ?_, ?_⟩
    · rw [← List.flatMap_def, List.flatMap_singleton']
    · intro part hpart
      obtain ⟨b, hb, rfl⟩ := List.mem_map.mp hpart
      exact ⟨b, h b hb, rfl⟩

/-! ### Texts -/

/-- The characters with a meaning of their own, in ASCII `^ $ . * + ? ( ) [ ] { } |` and the
backslash. -/
def syntaxCharacters : List (BitVec 8) :=
  [94, 36, 46, 42, 43, 63, 40, 41, 91, 93, 123, 125, 124, 92]

def Atom.print : Atom → Text
  | char c => if c ∈ syntaxCharacters then [92, c] else [c]
  | dot => [46]

def Term.print (term : Term) : Text := term.atom.print ++ if term.starred then [42] else []

/-- The text of a sequence. -/
def print (terms : List Term) : Text := terms.flatMap Term.print

/-- What the parts of a text are. -/
inductive Token where
  | atom (atom : Atom)
  | star

/-- The parts of a text. Groups, classes, assertions and the other quantifiers are not read. -/
def scan : Text → Option (List Token)
  | [] => some []
  | c :: text =>
    if c = 92 then
      match text with
      | [] => none
      | d :: text =>
        if d ∈ syntaxCharacters then (scan text).map (.atom (.char d) :: ·) else none
    else if c = 46 then (scan text).map (.atom .dot :: ·)
    else if c = 42 then (scan text).map (.star :: ·)
    else if c ∈ syntaxCharacters then none
    else (scan text).map (.atom (.char c) :: ·)

/-- A star belongs to the atom before it. -/
def group : List Token → Option (List Term)
  | [] => some []
  | .atom atom :: .star :: tokens => (group tokens).map (⟨atom, true⟩ :: ·)
  | .atom atom :: tokens => (group tokens).map (⟨atom, false⟩ :: ·)
  | .star :: _ => none

/-- The sequence with this text. -/
def parse (text : Text) : Option (List Term) := (scan text).bind group

def Term.tokens (term : Term) : List Token :=
  .atom term.atom :: if term.starred then [.star] else []

theorem scan_star (text : Text) :
  scan (42 :: text) = (scan text).map (.star :: ·)
  := by
  rw [scan.eq_def]
  exact (if_neg (by decide)).trans ((if_neg (by decide)).trans (if_pos rfl))

theorem scan_print_atom (atom : Atom) (text : Text) :
  scan (atom.print ++ text) = (scan text).map (.atom atom :: ·)
  := by
  cases atom with
  | dot =>
    rw [Atom.print, List.cons_append, List.nil_append, scan.eq_def]
    exact (if_neg (by decide)).trans (if_pos rfl)
  | char c =>
    rw [Atom.print]
    split_ifs with hc
    · rw [List.cons_append, List.cons_append, List.nil_append, scan, if_pos rfl]
      exact if_pos hc
    · have hne : ∀ d ∈ syntaxCharacters, c ≠ d := by
        rintro d hd rfl
        exact hc hd
      rw [List.cons_append, List.nil_append, scan.eq_def]
      dsimp only
      rw [if_neg (hne 92 (by decide)), if_neg (hne 46 (by decide)), if_neg (hne 42 (by decide)),
        if_neg hc]

theorem scan_print : ∀ terms : List Term, scan (print terms) = some (terms.flatMap Term.tokens)
  | [] => rfl
  | ⟨atom, starred⟩ :: terms => by
    have ih := scan_print terms
    rw [print] at ih ⊢
    rw [List.flatMap_cons, List.flatMap_cons, Term.print, List.append_assoc, scan_print_atom]
    cases starred with
    | false =>
      change (scan (terms.flatMap Term.print)).map _ = _
      rw [ih]
      rfl
    | true =>
      change (scan (42 :: terms.flatMap Term.print)).map _ = _
      rw [scan_star, ih]
      rfl

theorem group_tokens : ∀ terms : List Term, group (terms.flatMap Term.tokens) = some terms
  | [] => rfl
  | [⟨atom, false⟩] => rfl
  | ⟨atom, true⟩ :: terms => by
    change (group (terms.flatMap Term.tokens)).map _ = _
    rw [group_tokens terms]
    rfl
  | ⟨atom, false⟩ :: term :: terms => by
    change (group ((term :: terms).flatMap Term.tokens)).map _ = _
    rw [group_tokens (term :: terms)]
    rfl

/-- A text is read back. -/
theorem parse_print (terms : List Term) :
  parse (print terms) = some terms
  := by
  rw [parse, scan_print, Option.bind_some, group_tokens]

/-! ### Matching -/

/-- Whether all of the text is one that the term stands for. -/
def Term.fullMatch (term : Term) (s : Text) : Bool :=
  if term.starred then s.all fun b => term.atom.Accepts b
  else s.length = 1 ∧ ∀ b ∈ s, term.atom.Accepts b

/-- Whether all of the text matches: the first term matches a front of it, and the others what is
left. -/
def fullMatch : List Term → Text → Bool
  | [], s => s = []
  | term :: terms, s =>
    (List.range (s.length + 1)).any fun n => term.fullMatch (s.take n) && fullMatch terms (s.drop n)

theorem term_fullMatch_iff :
  term.fullMatch s = true ↔ s ∈ term.language
  := by
  obtain ⟨atom, starred⟩ := term
  cases starred with
  | true =>
    rw [mem_language_starred, Term.fullMatch, if_pos rfl, List.all_eq_true]
    simp only [decide_eq_true_eq]
  | false =>
    rw [mem_language_once, Term.fullMatch, if_neg Bool.false_ne_true, decide_eq_true_eq,
      List.length_eq_one_iff]
    constructor
    · rintro ⟨⟨b, rfl⟩, h⟩
      exact ⟨b, h b (.head _), rfl⟩
    · rintro ⟨b, hb, rfl⟩
      refine ⟨⟨b, rfl⟩, ?_⟩
      intro c hc
      rwa [List.mem_singleton.mp hc]

theorem fullMatch_iff : ∀ {terms : List Term} {s : Text},
    fullMatch terms s = true ↔ s ∈ language terms
  | [], s => by
    rw [fullMatch, decide_eq_true_eq, mem_language_nil]
  | term :: terms, s => by
    rw [fullMatch, List.any_eq_true, mem_language_cons]
    simp only [List.mem_range, Bool.and_eq_true, term_fullMatch_iff, fullMatch_iff]
    constructor
    · rintro ⟨n, -, ht, hu⟩
      exact ⟨_, _, (List.take_append_drop n s).symm, ht, hu⟩
    · rintro ⟨t, u, rfl, ht, hu⟩
      refine ⟨t.length, ?_, ?_, ?_⟩
      · rw [List.length_append]
        omega
      · rwa [List.take_left]
      · rwa [List.drop_left]

end Regex
