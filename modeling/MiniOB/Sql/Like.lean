import MiniOB.Lib.Regex
import MiniOB.Sql.Evaluation

/-!
# LIKE

`LikeExpr` of `sql/expr/expression.cpp`, which makes a regular expression of the pattern, and the
wildcards of the pattern.
-/

namespace MiniOB.Sql

open Regex (IsLineTerminator lower)

/-- What `regex_match` promises with `icase`, for the texts that can be read here. -/
def IsECMAScript (regexMatch : Str → Str → Bool) : Prop :=
  ∀ text terms, Regex.parse text = some terms →
    ∀ s, regexMatch text s = true ↔ s ∈ Regex.language terms

/-- `LikeExpr::match`. -/
def likeMatch (L : Library) (partten str : Str) : Bool := L.regexMatch (likeRegex partten) str

/-- The pattern with wildcards for these characters: `%` for any number of them and `_` for one.
The other characters stand for themselves, as small or as capital letters. -/
def MatchesPattern (wild : BitVec 8 → Prop) : Str → Str → Prop
  | [], s => s = []
  | c :: partten, s =>
    if c = 37 then ∃ t u, s = t ++ u ∧ (∀ b ∈ t, wild b) ∧ MatchesPattern wild partten u
    else if c = 95 then ∃ b u, s = b :: u ∧ wild b ∧ MatchesPattern wild partten u
    else ∃ b u, s = b :: u ∧ lower b = lower c ∧ MatchesPattern wild partten u

/-- `LIKE` is the matching of wildcards that stand for all characters. -/
def IsLike (L : Library) (partten s : Str) : Prop :=
  likeMatch L partten s = true ↔ MatchesPattern (fun _ => True) partten s

variable {L : Library} {wild wild' : BitVec 8 → Prop} {c : BitVec 8} {partten s : Str}

theorem likeValue_chars :
  likeValue L partten (.chars s) = .booleans (likeMatch L partten s)
  := rfl

/-! ### The regular expression -/

/-- What a character of the pattern is in the regular expression. -/
def likeTerm (c : BitVec 8) : Regex.Term :=
  if c = 37 then ⟨.dot, true⟩ else if c = 95 then ⟨.dot, false⟩ else ⟨.char c, false⟩

theorem likeRegex_eq_print (partten : Str) :
  likeRegex partten = Regex.print (partten.map likeTerm)
  := by
  rw [Regex.print, List.flatMap_map, likeRegex]
  congr 1
  funext c
  obtain rfl | h := eq_or_ne c 37
  · rfl
  obtain rfl | h' := eq_or_ne c 95
  · rfl
  · rw [if_neg h, if_neg h', likeTerm, if_neg h, if_neg h']
    simp only [List.contains_iff_mem]
    exact (List.append_nil _).symm

/-- Its language is that of the pattern, where the wildcards stand for what does not end a
line. -/
theorem mem_language_iff : ∀ (partten s : Str),
    s ∈ Regex.language (partten.map likeTerm)
      ↔ MatchesPattern (fun b => ¬ IsLineTerminator b) partten s
  | [], s => Regex.mem_language_nil
  | c :: partten, s => by
    rw [List.map_cons, Regex.mem_language_cons, likeTerm, MatchesPattern]
    simp only [mem_language_iff partten]
    split_ifs
    · simp only [Regex.mem_language_starred]
      rfl
    all_goals
      simp only [Regex.mem_language_once]
      constructor
      · rintro ⟨_, u, rfl, ⟨b, hb, rfl⟩, hu⟩
        exact ⟨b, u, rfl, hb, hu⟩
      · rintro ⟨b, u, rfl, hb, hu⟩
        exact ⟨[b], u, rfl, ⟨b, hb, rfl⟩, hu⟩

theorem likeMatch_iff (h : IsECMAScript L.regexMatch) :
  likeMatch L partten s = true ↔ MatchesPattern (fun b => ¬ IsLineTerminator b) partten s
  := by
  rw [likeMatch, likeRegex_eq_print, h _ _ (Regex.parse_print _), mem_language_iff]

/-! ### Wildcards -/

theorem MatchesPattern.mono : ∀ {partten s : Str}, (∀ b ∈ s, wild b → wild' b) →
    MatchesPattern wild partten s → MatchesPattern wild' partten s
  | [], _, _, h => h
  | c :: partten, s, hwild, h => by
    rw [MatchesPattern] at h ⊢
    split_ifs at h ⊢
    · obtain ⟨t, u, rfl, ht, hu⟩ := h
      refine ⟨t, u, rfl, ?_, hu.mono fun b hb => hwild b (List.mem_append_right t hb)⟩
      exact fun b hb => hwild b (List.mem_append_left u hb) (ht b hb)
    · obtain ⟨b, u, rfl, hb, hu⟩ := h
      exact ⟨b, u, rfl, hwild b (.head _) hb, hu.mono fun b hb => hwild b (.tail _ hb)⟩
    · obtain ⟨b, u, rfl, hb, hu⟩ := h
      exact ⟨b, u, rfl, hb, hu.mono fun b hb => hwild b (.tail _ hb)⟩

/-- In a pattern without wildcards it does not matter what they stand for. -/
theorem MatchesPattern.of_forall_ne : ∀ {partten s : Str}, (∀ c ∈ partten, c ≠ 37 ∧ c ≠ 95) →
    MatchesPattern wild partten s → MatchesPattern wild' partten s
  | [], _, _, h => h
  | c :: partten, s, hne, h => by
    obtain ⟨h37, h95⟩ := hne c (.head _)
    rw [MatchesPattern, if_neg h37, if_neg h95] at h ⊢
    obtain ⟨b, u, rfl, hb, hu⟩ := h
    exact ⟨b, u, rfl, hb, hu.of_forall_ne fun c hc => hne c (.tail _ hc)⟩

theorem isLineTerminator_lower : ∀ b, IsLineTerminator (lower b) ↔ IsLineTerminator b := by
  decide

/-- Where no wildcard stands for the end of a line, the lines end as they do in the pattern. -/
theorem MatchesPattern.countP : ∀ {partten s : Str},
    MatchesPattern (fun b => ¬ IsLineTerminator b) partten s →
      s.countP (fun b => IsLineTerminator b) = partten.countP fun c => IsLineTerminator c
  | [], _, h => by
    rw [MatchesPattern] at h
    rw [h]
  | c :: partten, s, h => by
    rw [MatchesPattern] at h
    rw [List.countP_cons]
    split_ifs at h with h37 h95
    · obtain ⟨t, u, rfl, ht, hu⟩ := h
      have hzero : t.countP (fun b => IsLineTerminator b) = 0 := by
        rw [List.countP_eq_zero]
        simpa using ht
      rw [List.countP_append, hu.countP, hzero, if_neg (by rw [h37]; decide)]
      omega
    · obtain ⟨b, u, rfl, hb, hu⟩ := h
      rw [List.countP_cons, hu.countP, if_neg (by simpa using hb), if_neg (by rw [h95]; decide)]
    · obtain ⟨b, u, rfl, hb, hu⟩ := h
      have hiff : IsLineTerminator b ↔ IsLineTerminator c := by
        rw [← isLineTerminator_lower b, ← isLineTerminator_lower c, hb]
      rw [List.countP_cons, hu.countP]
      simp only [decide_eq_true_eq, hiff]

/-- The wildcards. -/
def IsWildcard (c : BitVec 8) : Prop := c = 37 ∨ c = 95

instance : DecidablePred IsWildcard := fun c => inferInstanceAs (Decidable (c = 37 ∨ c = 95))

/-- A line feed in the place of each wildcard. -/
def fillWithLines (partten : Str) : Str := partten.map fun c => if IsWildcard c then 10 else c

theorem matchesPattern_fillWithLines : ∀ partten : Str,
    MatchesPattern (fun _ => True) partten (fillWithLines partten)
  | [] => rfl
  | c :: partten => by
    have ih := matchesPattern_fillWithLines partten
    rw [MatchesPattern]
    obtain rfl | h37 := eq_or_ne c 37
    · rw [if_pos rfl]
      exact ⟨[10], _, rfl, fun _ _ => trivial, ih⟩
    obtain rfl | h95 := eq_or_ne c 95
    · rw [if_neg (by decide), if_pos rfl]
      exact ⟨10, _, rfl, trivial, ih⟩
    · have hc : ¬ IsWildcard c := not_or.mpr ⟨h37, h95⟩
      rw [if_neg h37, if_neg h95, fillWithLines, List.map_cons, if_neg hc]
      exact ⟨c, _, rfl, rfl, ih⟩

theorem countP_fillWithLines : ∀ partten : Str,
    (fillWithLines partten).countP (fun b => IsLineTerminator b)
      = partten.countP (fun c => IsLineTerminator c) + partten.countP fun c => IsWildcard c
  | [] => rfl
  | c :: partten => by
    have ih := countP_fillWithLines partten
    have hdisjoint : IsWildcard c → ¬ IsLineTerminator c := by
      rintro (rfl | rfl) <;> decide
    rw [fillWithLines] at ih ⊢
    rw [List.map_cons, List.countP_cons, List.countP_cons, List.countP_cons, ih]
    by_cases hc : IsWildcard c
    · rw [if_pos hc, if_pos (by decide), if_neg (by simpa using hdisjoint hc),
        if_pos (decide_eq_true hc)]
      omega
    · rw [if_neg hc, if_neg (c := decide (IsWildcard c) = true) (by simpa using hc)]
      omega

/-! ### LIKE -/

/-- `LIKE` is the matching of wildcards exactly where none of them has to stand for the end of a
line: for all patterns exactly for the strings of one line, and for all strings exactly for the
patterns without wildcards. -/
theorem isLike_iff (h : IsECMAScript L.regexMatch) :
  (∀ partten s, IsLike L partten s
      ↔ (MatchesPattern (fun _ => True) partten s
        → MatchesPattern (fun b => ¬ IsLineTerminator b) partten s))
    ∧ (∀ s, (∀ partten, IsLike L partten s) ↔ ∀ b ∈ s, ¬ IsLineTerminator b)
    ∧ ∀ partten, (∀ s, IsLike L partten s) ↔ ∀ c ∈ partten, ¬ IsWildcard c
  := by
  have hlike : ∀ partten s, IsLike L partten s
      ↔ (MatchesPattern (fun _ => True) partten s
        → MatchesPattern (fun b => ¬ IsLineTerminator b) partten s) := by
    intro partten s
    rw [IsLike, likeMatch_iff h]
    constructor
    · exact Iff.mpr
    · intro hall
      constructor
      · exact MatchesPattern.mono fun _ _ _ => trivial
      · exact hall
  refine ⟨hlike, ?_, ?_⟩
  · intro s
    constructor
    · intro hs
      -- a single `%` matches all that there is
      have hone : MatchesPattern (fun _ => True) [37] s :=
        ⟨s, [], (List.append_nil s).symm, fun _ _ => trivial, rfl⟩
      obtain ⟨t, u, rfl, ht, rfl⟩ := (hlike [37] s).mp (hs [37]) hone
      rwa [List.append_nil]
    · intro hs partten
      rw [hlike]
      exact MatchesPattern.mono fun b hb _ => hs b hb
  · intro partten
    constructor
    · intro hs
      have hcount := ((hlike partten _).mp (hs _) (matchesPattern_fillWithLines partten)).countP
      rw [countP_fillWithLines, Nat.add_eq_left, List.countP_eq_zero] at hcount
      intro c hc hwild
      exact hcount c hc (decide_eq_true hwild)
    · intro hne s
      rw [hlike]
      exact MatchesPattern.of_forall_ne fun c hc => not_or.mp (hne c hc)

/-- The library whose regular expressions are those of `Regex`. -/
def Library.withRegex : Library :=
  { Library.withoutFloats with
    regexMatch := fun regex s => (Regex.parse regex).any fun terms => Regex.fullMatch terms s }

theorem isECMAScript_withRegex :
  IsECMAScript Library.withRegex.regexMatch
  := by
  intro text terms hparse s
  rw [← Regex.fullMatch_iff]
  simp [Library.withRegex, hparse]

/-- The string `ab` matches `_B`. -/
theorem isLike_one_line :
  IsLike .withRegex [95, 66] [97, 98]
  := by
  apply ((isLike_iff isECMAScript_withRegex).2.1 [97, 98]).mpr
  decide

/-- A line feed is no character for `_`. -/
theorem isLike_fails :
  ¬ IsLike .withRegex [95] [10]
  := by
  rw [IsLike, likeMatch_iff isECMAScript_withRegex]
  intro h
  obtain ⟨b, u, hs, hb, -⟩ := h.mpr ⟨10, [], rfl, trivial, rfl⟩
  obtain ⟨rfl, -⟩ := List.cons.inj hs
  exact hb (.inl rfl)

end MiniOB.Sql
