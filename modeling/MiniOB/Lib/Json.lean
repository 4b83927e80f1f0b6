import MiniOB.Lib.Decimal

/-!
# JSON

Documents of whole numbers, truth values, strings, arrays and objects, their styled text with a
line for each element and each member, and the parser that reads such a text back.
-/

namespace Json

/-- The bytes of a text. -/
abbrev Text := List (BitVec 8)

/-- A document. -/
inductive Document where
  | null
  | bool (b : Bool)
  | int (n : Int)
  | string (s : Text)
  | array (elements : List Document)
  | object (members : List (Text × Document))

/-! ### Strings -/

/-- The bytes that have a letter of their own after a backslash, with this letter. -/
def letters : List (BitVec 8 × BitVec 8) :=
  [(34, 34), (92, 92), (8, 98), (12, 102), (10, 110), (13, 114), (9, 116)]

/-- A digit of a hexadecimal number. -/
def hexDigit (n : Nat) : BitVec 8 := BitVec.ofNat 8 (if n < 10 then 48 + n else 55 + n)

def hexValue (b : BitVec 8) : Nat := if b < 65 then b.toNat - 48 else b.toNat - 55

/-- How a byte is written between quotes. -/
def escape (b : BitVec 8) : Text :=
  match letters.lookup b with
  | some letter => [92, letter]
  | none =>
    if b < 32 then [92, 117, 48, 48, hexDigit (b.toNat / 16), hexDigit (b.toNat % 16)] else [b]

/-- The byte that a letter after a backslash stands for. -/
def unescape (letter : BitVec 8) : Option (BitVec 8) :=
  (letters.find? fun entry => entry.2 = letter).map (·.1)

/-- A string in quotes. -/
def quote (s : Text) : Text := 34 :: s.flatMap escape ++ [34]

/-- The string up to the closing quote, and what follows it. -/
def parseString : Text → Option (Text × Text)
  | [] => none
  | b :: s =>
    if b = 34 then some ([], s)
    else if b = 92 then
      match s with
      | [] => none
      | letter :: s =>
        if letter = 117 then
          match s with
          | _ :: _ :: high :: low :: s =>
            (parseString s).map fun (t, rest) =>
              (BitVec.ofNat 8 (hexValue high * 16 + hexValue low) :: t, rest)
          | _ => none
        else
          (unescape letter).bind fun b => (parseString s).map fun (t, rest) => (b :: t, rest)
    else (parseString s).map fun (t, rest) => (b :: t, rest)

theorem unescape_of_mem : ∀ entry ∈ letters, entry.2 ≠ 117 ∧ unescape entry.2 = some entry.1 := by
  simp [letters, unescape]

theorem mem_of_lookup {b letter : BitVec 8} (h : letters.lookup b = some letter) :
  (b, letter) ∈ letters
  := by
  obtain ⟨before, rest, hletters, -⟩ := List.lookup_eq_some_iff.mp h
  rw [hletters]
  apply List.mem_append_right before List.mem_cons_self

theorem ne_of_lookup : ∀ b : BitVec 8, letters.lookup b = none → b ≠ 34 ∧ b ≠ 92 := by
  decide +kernel

theorem hexValue_hexDigit : ∀ b : BitVec 8, b < 32 →
    BitVec.ofNat 8 (hexValue (hexDigit (b.toNat / 16)) * 16 + hexValue (hexDigit (b.toNat % 16)))
      = b := by
  decide +kernel

theorem parseString_escape (b : BitVec 8) (s : Text) :
  parseString (escape b ++ s) = (parseString s).map fun (t, rest) => (b :: t, rest)
  := by
  rw [escape]
  cases h : letters.lookup b with
  | some letter =>
    obtain ⟨hne, hletter⟩ := unescape_of_mem _ (mem_of_lookup h)
    rw [List.cons_append, parseString.eq_def]
    dsimp only
    rw [if_neg (by decide), if_pos rfl]
    dsimp only [List.cons_append, List.nil_append]
    rw [if_neg hne, hletter]
    rfl
  | none =>
    obtain ⟨h34, h92⟩ := ne_of_lookup b h
    dsimp only
    split_ifs with hlt
    · rw [List.cons_append, parseString.eq_def]
      dsimp only
      rw [if_neg (by decide), if_pos rfl]
      dsimp only [List.cons_append, List.nil_append]
      rw [if_pos rfl, hexValue_hexDigit b hlt]
    · rw [List.cons_append, parseString.eq_def]
      dsimp only
      rw [if_neg h34, if_neg h92]
      rfl

/-- A string is read back from between its quotes. -/
theorem parseString_quote (s rest : Text) :
  parseString (s.flatMap escape ++ 34 :: rest) = some (s, rest)
  := by
  induction s with
  | nil => rw [List.flatMap_nil, List.nil_append, parseString.eq_def]; rfl
  | cons b s ih => rw [List.flatMap_cons, List.append_assoc, parseString_escape, ih]; rfl

/-! ### Numbers -/

/-- A number in digits, after a minus if it is negative. -/
def printInt (n : Int) : Text := (if n < 0 then [45] else []) ++ Decimal.digits n.natAbs

/-- The digits at the beginning of a text, and what follows them. -/
def parseNat (s : Text) : Option (Nat × Text) :=
  if s.takeWhile Decimal.isDigit = [] then none
  else some (Decimal.value (s.takeWhile Decimal.isDigit), s.dropWhile Decimal.isDigit)

/-- The number at the beginning of a text, and what follows it. -/
def parseInt : Text → Option (Int × Text)
  | [] => none
  | b :: s =>
    if b = 45 then (parseNat s).map fun (n, rest) => (-(n : Int), rest)
    else (parseNat (b :: s)).map fun (n, rest) => ((n : Int), rest)

/-- No digit follows. -/
def NoDigit (s : Text) : Prop := ∀ b ∈ s.head?, ¬ Decimal.isDigit b

theorem parseNat_digits (n : Nat) {rest : Text} (h : NoDigit rest) :
  parseNat (Decimal.digits n ++ rest) = some (n, rest)
  := by
  obtain ⟨htake, hdrop⟩ := Decimal.takeWhile_append (Decimal.isDigit_of_mem_digits (n := n)) h
  rw [parseNat, htake, hdrop, if_neg Decimal.digits_ne_nil, Decimal.value_digits]

/-- A number is read back from its digits. -/
theorem parseInt_printInt (n : Int) {rest : Text} (h : NoDigit rest) :
  parseInt (printInt n ++ rest) = some (n, rest)
  := by
  have hnat := parseNat_digits n.natAbs h
  rw [printInt]
  split_ifs with hneg
  · have hn : -(n.natAbs : Int) = n := by omega
    rw [List.cons_append, List.nil_append, List.cons_append, parseInt, if_pos rfl, hnat,
      Option.map_some]
    dsimp only
    rw [hn]
  · have hn : (n.natAbs : Int) = n := by omega
    rw [List.nil_append]
    cases hdigits : Decimal.digits n.natAbs with
    | nil => exact absurd hdigits Decimal.digits_ne_nil
    | cons b digits =>
      have hb : b ≠ 45 := by
        have := Decimal.isDigit_of_mem_digits b (hdigits ▸ List.mem_cons_self)
        rintro rfl
        cases this
      rw [hdigits, List.cons_append] at hnat
      rw [List.cons_append, parseInt, if_neg hb, hnat, Option.map_some]
      dsimp only
      rw [hn]

/-! ### Documents -/

/-- The line break before an element or a member. -/
def indent : Text := [10, 32, 32, 32]

mutual

/-- The text of a document, but for the line break at its end. -/
def printDocument : Document → Text
  | .null => [110, 117, 108, 108]
  | .bool b => if b then [116, 114, 117, 101] else [102, 97, 108, 115, 101]
  | .int n => printInt n
  | .string s => quote s
  | .array [] => [91, 93]
  | .array (element :: elements) =>
    91 :: indent ++ printDocument element ++ printElements elements
  | .object [] => [123, 125]
  | .object ((name, value) :: members) =>
    123 :: indent ++ quote name ++ [32, 58, 32] ++ printDocument value ++ printMembers members

/-- The elements after the first one, with what closes the array. -/
def printElements : List Document → Text
  | [] => [10, 93]
  | element :: elements => 44 :: indent ++ printDocument element ++ printElements elements

/-- The members after the first one, with what closes the object. -/
def printMembers : List (Text × Document) → Text
  | [] => [10, 125]
  | (name, value) :: members =>
    44 :: indent ++ quote name ++ [32, 58, 32] ++ printDocument value ++ printMembers members

end

/-- The text of a document. -/
def print (document : Document) : Text := printDocument document ++ [10]

/-- What follows a text that has to be there. -/
def expect : Text → Text → Option Text
  | [], s => some s
  | _ :: _, [] => none
  | a :: t, b :: s => if a = b then expect t s else none

/-- The name of a member, and what follows the colon after it. -/
def parseName (s : Text) : Option (Text × Text) :=
  (expect (indent ++ [34]) s).bind fun s =>
    (parseString s).bind fun (name, s) => (expect [32, 58, 32] s).map fun s => (name, s)

mutual

/-- The document at the beginning of a text, and what follows it. -/
def parseDocument : Nat → Text → Option (Document × Text)
  | 0, _ => none
  | _ + 1, [] => none
  | fuel + 1, b :: s =>
    if b = 110 then (expect [117, 108, 108] s).map fun s => (.null, s)
    else if b = 116 then (expect [114, 117, 101] s).map fun s => (.bool true, s)
    else if b = 102 then (expect [97, 108, 115, 101] s).map fun s => (.bool false, s)
    else if b = 34 then (parseString s).map fun (t, s) => (.string t, s)
    else if b = 91 then
      if s.head? = some 93 then some (.array [], s.tail)
      else
        (expect indent s).bind fun s => (parseDocument fuel s).bind fun (element, s) =>
          (parseElements fuel s).map fun (elements, s) => (.array (element :: elements), s)
    else if b = 123 then
      if s.head? = some 125 then some (.object [], s.tail)
      else
        (parseName s).bind fun (name, s) => (parseDocument fuel s).bind fun (value, s) =>
          (parseMembers fuel s).map fun (members, s) => (.object ((name, value) :: members), s)
    else (parseInt (b :: s)).map fun (n, s) => (.int n, s)

def parseElements : Nat → Text → Option (List Document × Text)
  | 0, _ => none
  | _ + 1, [] => none
  | fuel + 1, b :: s =>
    if b = 44 then
      (expect indent s).bind fun s => (parseDocument fuel s).bind fun (element, s) =>
        (parseElements fuel s).map fun (elements, s) => (element :: elements, s)
    else (expect [10, 93] (b :: s)).map fun s => ([], s)

def parseMembers : Nat → Text → Option (List (Text × Document) × Text)
  | 0, _ => none
  | _ + 1, [] => none
  | fuel + 1, b :: s =>
    if b = 44 then
      (parseName s).bind fun (name, s) => (parseDocument fuel s).bind fun (value, s) =>
        (parseMembers fuel s).map fun (members, s) => ((name, value) :: members, s)
    else (expect [10, 125] (b :: s)).map fun s => ([], s)

end

/-- The document of a text. -/
def parse (s : Text) : Option Document :=
  (parseDocument s.length s).bind fun (document, rest) =>
    if rest = [10] then some document else none

/-! ### Reading back -/

@[simp]
theorem expect_append (t s : Text) :
  expect t (t ++ s) = some s
  := by
  induction t with
  | nil => rw [List.nil_append]; cases s <;> rfl
  | cons a t ih => rw [List.cons_append, expect, if_pos rfl, ih]

theorem parseName_append (name s : Text) :
  parseName (indent ++ (quote name ++ ([32, 58, 32] ++ s))) = some (name, s)
  := by
  have h : indent ++ (quote name ++ ([32, 58, 32] ++ s))
      = indent ++ [34] ++ (name.flatMap escape ++ 34 :: ([32, 58, 32] ++ s)) := by
    simp [quote]
  rw [parseName, h, expect_append]
  dsimp only [Option.bind]
  rw [parseString_quote]
  dsimp only
  rw [expect_append]
  rfl

theorem noDigit_printElements (elements : List Document) (rest : Text) :
  NoDigit (printElements elements ++ rest)
  := by
  cases elements with
  | nil => simp [printElements, NoDigit, Decimal.isDigit]
  | cons element elements => simp [printElements, NoDigit, Decimal.isDigit]

theorem noDigit_printMembers (members : List (Text × Document)) (rest : Text) :
  NoDigit (printMembers members ++ rest)
  := by
  cases members with
  | nil => simp [printMembers, NoDigit, Decimal.isDigit]
  | cons member members => simp [printMembers, NoDigit, Decimal.isDigit]

/-- A number begins with no letter, quote or bracket. -/
theorem printInt_eq_cons (n : Int) :
  ∃ b s, printInt n = b :: s ∧ b ≠ 110 ∧ b ≠ 116 ∧ b ≠ 102 ∧ b ≠ 34 ∧ b ≠ 91 ∧ b ≠ 123
  := by
  rw [printInt]
  split_ifs with hneg
  · exact ⟨45, _, rfl, by decide⟩
  · cases hdigits : Decimal.digits n.natAbs with
    | nil => exact absurd hdigits Decimal.digits_ne_nil
    | cons b digits =>
      have hb := Decimal.isDigit_of_mem_digits b (hdigits ▸ List.mem_cons_self)
      have hne : ∀ c, ¬ Decimal.isDigit c → b ≠ c := by
        rintro c hc rfl
        exact hc hb
      exact ⟨b, digits, rfl, hne _ (by decide), hne _ (by decide), hne _ (by decide),
        hne _ (by decide), hne _ (by decide), hne _ (by decide)⟩

theorem length_printDocument_pos (document : Document) :
  0 < (printDocument document).length
  := by
  unfold printDocument
  split
  · decide
  · split <;> decide
  · obtain ⟨b, s, h, -⟩ := printInt_eq_cons _
    rw [h]
    apply Nat.succ_pos
  · apply Nat.succ_pos
  · apply Nat.succ_pos
  · simp
  · apply Nat.succ_pos
  · simp

mutual

/-- A document is read back from its text, with any fuel that the text takes. -/
theorem parseDocument_append : ∀ (document : Document) (rest : Text) (fuel : Nat),
    NoDigit rest → (printDocument document).length ≤ fuel →
    parseDocument fuel (printDocument document ++ rest) = some (document, rest)
  | document, _, 0, _, hfuel => by
    have := length_printDocument_pos document
    omega
  | .null, rest, fuel + 1, _, _ => by
    rw [printDocument, List.cons_append, parseDocument, if_pos rfl, expect_append]
    rfl
  | .bool true, rest, fuel + 1, _, _ => by
    rw [printDocument, if_pos rfl, List.cons_append, parseDocument, if_neg (by decide), if_pos rfl,
      expect_append]
    rfl
  | .bool false, rest, fuel + 1, _, _ => by
    rw [printDocument, if_neg (by decide), List.cons_append, parseDocument, if_neg (by decide),
      if_neg (by decide), if_pos rfl, expect_append]
    rfl
  | .int n, rest, fuel + 1, hrest, _ => by
    obtain ⟨b, s, hcons, h110, h116, h102, h34, h91, h123⟩ := printInt_eq_cons n
    have hint := parseInt_printInt n hrest
    rw [hcons, List.cons_append] at hint
    rw [printDocument, hcons, List.cons_append, parseDocument, if_neg h110, if_neg h116,
      if_neg h102, if_neg h34, if_neg h91, if_neg h123, hint]
    rfl
  | .string s, rest, fuel + 1, _, _ => by
    rw [printDocument, quote, List.cons_append, List.cons_append, parseDocument,
      if_neg (by decide), if_neg (by decide), if_neg (by decide), if_pos rfl, List.append_assoc,
      List.cons_append, parseString_quote]
    rfl
  | .array [], rest, fuel + 1, _, _ => by
    rw [printDocument]
    rfl
  | .array (element :: elements), rest, fuel + 1, _, hfuel => by
    rw [printDocument] at hfuel ⊢
    simp only [List.length_append, List.length_cons] at hfuel
    have helement := parseDocument_append element (printElements elements ++ rest) fuel
      (noDigit_printElements elements rest) (by omega)
    have helements := parseElements_append elements rest fuel (by omega)
    rw [List.append_assoc, List.append_assoc, List.cons_append, parseDocument,
      if_neg (by decide), if_neg (by decide), if_neg (by decide), if_neg (by decide), if_pos rfl,
      if_neg (by simp [indent]), expect_append]
    dsimp only [Option.bind]
    rw [helement]
    dsimp only [Option.bind]
    rw [helements]
    rfl
  | .object [], rest, fuel + 1, _, _ => by
    rw [printDocument]
    rfl
  | .object ((name, value) :: members), rest, fuel + 1, _, hfuel => by
    rw [printDocument] at hfuel ⊢
    simp only [List.length_append, List.length_cons] at hfuel
    have hvalue := parseDocument_append value (printMembers members ++ rest) fuel
      (noDigit_printMembers members rest) (by omega)
    have hmembers := parseMembers_append members rest fuel (by omega)
    rw [List.append_assoc, List.append_assoc, List.append_assoc, List.append_assoc,
      List.cons_append, parseDocument, if_neg (by decide), if_neg (by decide),
      if_neg (by decide), if_neg (by decide), if_neg (by decide), if_pos rfl,
      if_neg (by simp [indent]), parseName_append]
    dsimp only [Option.bind]
    rw [hvalue]
    dsimp only [Option.bind]
    rw [hmembers]
    rfl

theorem parseElements_append : ∀ (elements : List Document) (rest : Text) (fuel : Nat),
    (printElements elements).length ≤ fuel →
    parseElements fuel (printElements elements ++ rest) = some (elements, rest)
  | [], _, 0, hfuel => by
    cases hfuel
  | _ :: _, _, 0, hfuel => by
    simp [printElements] at hfuel
  | [], rest, fuel + 1, _ => by
    rw [printElements, List.cons_append, parseElements, if_neg (by decide), ← List.cons_append,
      expect_append]
    rfl
  | element :: elements, rest, fuel + 1, hfuel => by
    rw [printElements] at hfuel ⊢
    simp only [List.length_append, List.length_cons] at hfuel
    have helement := parseDocument_append element (printElements elements ++ rest) fuel
      (noDigit_printElements elements rest) (by omega)
    have helements := parseElements_append elements rest fuel (by omega)
    rw [List.append_assoc, List.append_assoc, List.cons_append, parseElements, if_pos rfl,
      expect_append]
    dsimp only [Option.bind]
    rw [helement]
    dsimp only [Option.bind]
    rw [helements]
    rfl

theorem parseMembers_append : ∀ (members : List (Text × Document)) (rest : Text) (fuel : Nat),
    (printMembers members).length ≤ fuel →
    parseMembers fuel (printMembers members ++ rest) = some (members, rest)
  | [], _, 0, hfuel => by
    cases hfuel
  | (_, _) :: _, _, 0, hfuel => by
    simp [printMembers] at hfuel
  | [], rest, fuel + 1, _ => by
    rw [printMembers, List.cons_append, parseMembers, if_neg (by decide), ← List.cons_append,
      expect_append]
    rfl
  | (name, value) :: members, rest, fuel + 1, hfuel => by
    rw [printMembers] at hfuel ⊢
    simp only [List.length_append, List.length_cons] at hfuel
    have hvalue := parseDocument_append value (printMembers members ++ rest) fuel
      (noDigit_printMembers members rest) (by omega)
    have hmembers := parseMembers_append members rest fuel (by omega)
    rw [List.append_assoc, List.append_assoc, List.append_assoc, List.append_assoc,
      List.cons_append, parseMembers, if_pos rfl, parseName_append]
    dsimp only [Option.bind]
    rw [hvalue]
    dsimp only [Option.bind]
    rw [hmembers]
    rfl

end

/-- Every document is read back from its text. -/
theorem parse_print (document : Document) :
  parse (print document) = some document
  := by
  have h := parseDocument_append document [10] (print document).length
    (by simp [NoDigit, Decimal.isDigit]) (by rw [print, List.length_append]; omega)
  rw [parse, print] at *
  rw [h]
  rfl

/-! ### The zero byte -/

theorem zero_notMem_escape : ∀ b, 0#8 ∉ escape b := by
  decide +kernel

theorem zero_notMem_quote (s : Text) :
  0#8 ∉ quote s
  := by
  simp [quote, zero_notMem_escape]

theorem zero_notMem_printInt (n : Int) :
  0#8 ∉ printInt n
  := by
  intro h
  obtain h | h := List.mem_append.mp h
  · split_ifs at h <;> simp at h
  · have := Decimal.isDigit_of_mem_digits 0 h
    cases this

mutual

theorem zero_notMem_printDocument : ∀ document, 0#8 ∉ printDocument document
  | .null => by simp [printDocument]
  | .bool b => by cases b <;> simp [printDocument]
  | .int n => by simp [printDocument, zero_notMem_printInt]
  | .string s => by simp [printDocument, zero_notMem_quote]
  | .array [] => by simp [printDocument]
  | .array (element :: elements) => by
    simp [printDocument, indent, zero_notMem_printDocument element,
      zero_notMem_printElements elements]
  | .object [] => by simp [printDocument]
  | .object ((name, value) :: members) => by
    simp [printDocument, indent, zero_notMem_quote, zero_notMem_printDocument value,
      zero_notMem_printMembers members]

theorem zero_notMem_printElements : ∀ elements, 0#8 ∉ printElements elements
  | [] => by simp [printElements]
  | element :: elements => by
    simp [printElements, indent, zero_notMem_printDocument element,
      zero_notMem_printElements elements]

theorem zero_notMem_printMembers : ∀ members, 0#8 ∉ printMembers members
  | [] => by simp [printMembers]
  | (name, value) :: members => by
    simp [printMembers, indent, zero_notMem_quote, zero_notMem_printDocument value,
      zero_notMem_printMembers members]

end

/-- The text of a document has no zero byte. -/
theorem zero_notMem_print (document : Document) :
  0#8 ∉ print document
  := by
  simp [print, zero_notMem_printDocument]

end Json
