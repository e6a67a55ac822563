import Mathlib.Data.List.TakeWhile
import ScriptFront.Proofs.LineBreaks
import ScriptFront.Token.Spelling

/-!
Single tokens and their texts. What is read at the start of a text is a well-spelled token with one
of its texts there, or an unknown character; and the text that the printer chooses for a
well-spelled token is read as this token, if a blank or nothing follows. How the tokens of a whole
text follow each other is left open.
-/

namespace ScriptFront

open Text

/-! ### Classes of characters -/

/-- The code points of the blanks. -/
def blankCodes : List Nat :=
  List.range' 0x09 5 ++ [0x20, 0x85, 0xA0, 0x1680] ++ List.range' 0x2000 11
    ++ [0x2028, 0x2029, 0x202F, 0x205F, 0x3000]

section Characters

variable {c : Char}

theorem mem_blankCodes (h : isBlank c = true) : c.toNat ∈ blankCodes := by
  simp only [isBlank, inRanges, List.any_cons, List.any_nil, Bool.or_false, Bool.or_eq_true,
    Bool.and_eq_true, decide_eq_true_eq] at h
  simp only [blankCodes, List.mem_append, List.mem_range'_1, List.mem_cons, List.not_mem_nil,
    or_false]
  omega

/-- No word starts with a blank, in whatever script. -/
theorem isBlank_of_startsWord (h : startsWord c = true) : isBlank c = false := by
  have all : ∀ n ∈ blankCodes, startsWord (Char.ofNat n) = false := by decide +kernel
  refine Bool.eq_false_iff.mpr fun blank => ?_
  have none_ := all _ (mem_blankCodes blank)
  rw [Char.ofNat_toNat, h] at none_
  exact Bool.false_ne_true none_.symm

theorem mem_digitCodes (h : c.isDigit = true) : c.toNat ∈ List.range' 48 10 := by
  simp only [Char.isDigit, Bool.and_eq_true, decide_eq_true_eq, ge_iff_le, UInt32.le_iff_toNat_le]
    at h
  have bounds : 48 ≤ c.toNat ∧ c.toNat ≤ 57 := h
  simp only [List.mem_range'_1]
  omega

theorem digit_classes (h : c.isDigit = true) : isBlank c = false ∧ startsWord c = false ∧ c ≠ '.' := by
  have all : ∀ n ∈ List.range' 48 10, isBlank (Char.ofNat n) = false ∧
      startsWord (Char.ofNat n) = false ∧ Char.ofNat n ≠ '.' := by decide +kernel
  simpa only [Char.ofNat_toNat] using all _ (mem_digitCodes h)

theorem isDigit_of_startsWord (h : startsWord c = true) : c.isDigit = false := by
  refine Bool.eq_false_iff.mpr fun digit => ?_
  have none_ := (digit_classes digit).2.1
  rw [h] at none_
  exact Bool.false_ne_true none_.symm

end Characters

/-! ### Symbols and words -/

theorem mem_operators {kind : TokenKind} {text : String} (h : kind.symbol? = some text) :
    (text.toList, kind) ∈ Lexeme.operators := by
  cases kind <;> cases h <;> decide +kernel

theorem symbol?_of_mem {text : List Char} {kind : TokenKind} (h : (text, kind) ∈ Lexeme.operators) :
    kind.symbol? = some (.ofList text) := by
  have all : ∀ o ∈ Lexeme.operators, o.2.symbol? = some (.ofList o.1) := by decide +kernel
  exact all _ h

/-- Words by a test of all their characters. -/
theorem isWord_of_all {c : Char} {cs : List Char} (first : startsWord c = true)
    (tail : cs.all continuesWord = true) : IsWord (c :: cs) :=
  ⟨c, cs, rfl, first, List.all_eq_true.mp tail⟩

theorem isDigits_singleton {c : Char} (h : c.isDigit = true) : IsDigits [c] :=
  ⟨List.cons_ne_nil c [], List.forall_mem_singleton.mpr h⟩

theorem isWord_word (k : Keyword) : IsWord k.word.toList := by
  cases k <;> exact isWord_of_all (by decide +kernel) (by decide +kernel)

namespace Lexeme

theorem wordKind_of_free {w : String} (free : ¬ IsReserved w) : wordKind w = .identifier := by
  simp only [IsReserved, List.mem_cons, List.not_mem_nil, or_false, not_or, not_exists] at free
  obtain ⟨⟨true_, false_, null, undefined, nan⟩, noKeyword⟩ := free
  have none_ : Keyword.ofWord? w = none := by
    cases found : Keyword.ofWord? w with
    | none => rfl
    | some k => exact absurd (Keyword.word_of_ofWord? found) (noKeyword k)
  simp [wordKind, true_, false_, null, undefined, nan, none_]

theorem wordKind_word (k : Keyword) : wordKind k.word = .keyword k := by
  cases k <;> decide +kernel

/-- Every word is spelled as its kind is. -/
theorem wellSpelled_wordKind {w : String} (word : IsWord w.toList) : WellSpelled (wordKind w) w := by
  by_cases reserved : IsReserved w
  · rcases reserved with literal | ⟨k, rfl⟩
    · simp only [List.mem_cons, List.not_mem_nil, or_false] at literal
      rcases literal with rfl | rfl | rfl | rfl | rfl
      · exact .true_
      · exact .false_
      · exact .null
      · exact .undefined
      · exact .nan
    · rw [wordKind_word]
      exact .keyword k
  · rw [wordKind_of_free reserved]
    exact .identifier word reserved

/-! ### What stands at the start of a text -/

section Reading

variable {c : Char} {cs : List Char}

theorem isDigits_takeWhile (first : startsWith Char.isDigit cs = true) :
    IsDigits (cs.takeWhile Char.isDigit) := by
  refine ⟨?_, fun d mem => List.mem_takeWhile_imp mem⟩
  cases cs with
  | nil => cases first
  | cons d ds =>
      have digit : d.isDigit = true := first
      simp [digit]

theorem fraction_cases (cs : List Char) :
    fraction cs = [] ∨ ∃ digits, fraction cs = '.' :: digits ∧ IsDigits digits := by
  cases cs with
  | nil => exact .inl rfl
  | cons c cs =>
      by_cases point : c = '.'
      · subst point
        simp only [fraction]
        split
        · next first => exact .inr ⟨_, rfl, isDigits_takeWhile first⟩
        · exact .inl rfl
      · exact .inl (by simp [fraction, point])

theorem prefix_fraction (cs : List Char) : fraction cs <+: cs := by
  cases cs with
  | nil => exact List.prefix_rfl
  | cons c cs =>
      by_cases point : c = '.'
      · subst point
        simp only [fraction]
        split
        · exact (List.prefix_cons_inj '.').mpr (List.takeWhile_prefix _)
        · exact List.nil_prefix
      · simp [fraction, point]

theorem prefix_append_of_drop {first second : List Char} (h : first <+: cs)
    (h' : second <+: cs.drop first.length) : first ++ second <+: cs := by
  obtain ⟨rest, rfl⟩ := h
  rw [List.drop_left] at h'
  exact (List.prefix_append_right_inj first).mpr h'

theorem prefix_numeral (first : Char) (cs : List Char) : numeral first cs <+: cs := by
  have digits := List.takeWhile_prefix (l := cs) Char.isDigit
  simp only [numeral]
  split
  · exact digits
  · exact prefix_append_of_drop digits (prefix_fraction _)

/-- A prefix of what follows is taken with the first character. -/
theorem take_succ_of_starts {tail : List Char} (h : tail <+: cs) (c : Char) :
    (c :: cs).take (tail.length + 1) = c :: tail := by
  rw [List.take_succ_cons, ← List.prefix_iff_eq_take.mp h]

/-- A well-spelled token and one of its texts. -/
structure Stands (kind : TokenKind) (lexeme : String) (text : List Char) : Prop where
  wellSpelled : WellSpelled kind lexeme
  hasText : ∀ here, Token.HasText ⟨kind, lexeme, here⟩ text

theorem hasText_self {kind : TokenKind} (string : kind ≠ .string) (lexeme : String)
    (here : Location) : Token.HasText ⟨kind, lexeme, here⟩ lexeme.toList := by
  unfold Token.HasText
  dsimp only
  split
  · exact absurd rfl string
  · exact .inl rfl
  · rfl

theorem stands_number {kind : TokenKind} {lexeme : String}
    (starts : c.isDigit = true ∨ c = '.' ∧ startsWith Char.isDigit cs = true)
    (h : (number c cs).token = some (kind, lexeme)) :
    (number c cs).fault = none ∧
      Stands kind lexeme ((c :: cs).take ((number c cs).width + 1)) := by
  simp only [number_eq] at h ⊢
  split at h
  · cases h
  · next free =>
      rw [if_neg free]
      simp only [ofToken, Option.some.injEq, Prod.mk.injEq] at h ⊢
      obtain ⟨rfl, rfl⟩ := h
      rw [take_succ_of_starts (prefix_numeral c cs)]
      refine ⟨trivial, ?_⟩
      rcases starts with digit | ⟨rfl, first⟩
      · have point := (digit_classes digit).2.2
        simp only [point, if_false, List.singleton_append]
        refine ⟨?_, fun here => .inl (by rw [String.toList_ofList])⟩
        have whole : IsDigits (c :: cs.takeWhile Char.isDigit) :=
          ⟨List.cons_ne_nil _ _, List.forall_mem_cons.mpr ⟨digit, fun d mem => List.mem_takeWhile_imp mem⟩⟩
        simp only [numeral, point, if_false]
        rcases fraction_cases (cs.drop (cs.takeWhile Char.isDigit).length) with none_ | ⟨ds, some_, h⟩
        · rw [none_, List.append_nil]
          exact .integer whole
        · rw [some_]
          exact .decimal whole h
      · have zero : IsDigits ['0'] := isDigits_singleton rfl
        exact ⟨.decimal zero (isDigits_takeWhile first), fun here => .inr ⟨rfl, by simp⟩⟩

theorem stands_word {kind : TokenKind} {lexeme : String} (starts : startsWord c = true)
    (h : (word c cs).token = some (kind, lexeme)) :
    (word c cs).fault = none ∧ Stands kind lexeme ((c :: cs).take ((word c cs).width + 1)) := by
  simp only [word, ofToken, Option.some.injEq, Prod.mk.injEq] at h ⊢
  obtain ⟨rfl, rfl⟩ := h
  rw [take_succ_of_starts (List.takeWhile_prefix _)]
  have spelled := wellSpelled_wordKind (w := .ofList (c :: cs.takeWhile continuesWord))
    ⟨c, _, String.toList_ofList, starts, fun d mem => List.mem_takeWhile_imp mem⟩
  refine ⟨trivial, spelled, fun here => ?_⟩
  have kind : wordKind (.ofList (c :: cs.takeWhile continuesWord)) ≠ .string := by
    simp only [wordKind]
    split_ifs <;> try split
    all_goals rintro ⟨⟩
  have text := hasText_self kind (.ofList (c :: cs.takeWhile continuesWord)) here
  rwa [String.toList_ofList] at text

theorem quoted_of_stringBody {quote : Char} {content : List Char} {width : Nat}
    (h : stringBody quote cs = (some content, width)) :
    ∃ body rest, cs = body ++ quote :: rest ∧ width = body.length + 1 ∧ Quoted quote body content := by
  induction cs using stringBody.induct quote generalizing content width with
  | case1 => cases h
  | case2 cs =>
      rw [stringBody_break] at h
      cases h
  | case3 cs other =>
      rw [stringBody_quote other] at h
      cases h
      exact ⟨[], cs, rfl, rfl, .nil⟩
  | case4 _ other => simp [stringBody, other] at h
  | case5 e es _ _ _ _ other ih =>
      rw [stringBody_escape other] at h
      obtain ⟨found, rfl⟩ := Prod.mk.inj h
      obtain ⟨inner, read, rfl⟩ := Option.map_eq_some_iff.mp found
      obtain ⟨body, rest, rfl, length, quoted⟩ := ih (Prod.ext read rfl)
      exact ⟨'\\' :: e :: body, rest, rfl, by simp [length], .escaped e quoted⟩
  | case6 c cs h₁ h₂ h₃ _ _ _ ih =>
      rw [stringBody_other h₁ h₂ h₃] at h
      obtain ⟨found, rfl⟩ := Prod.mk.inj h
      obtain ⟨inner, read, rfl⟩ := Option.map_eq_some_iff.mp found
      obtain ⟨body, rest, rfl, length, quoted⟩ := ih (Prod.ext read rfl)
      exact ⟨c :: body, rest, rfl, by simp [length], .plain h₂ h₁ h₃ quoted⟩

theorem stands_string {kind : TokenKind} {lexeme : String} (quote : IsQuote c)
    (h : (string c cs).token = some (kind, lexeme)) :
    (string c cs).fault = none ∧
      Stands kind lexeme ((c :: cs).take ((string c cs).width + 1)) := by
  cases read : stringBody c cs with
  | mk content width =>
      cases content with
      | none => simp [string, read, ofFault] at h
      | some content =>
          simp only [string, read, ofToken, Option.some.injEq, Prod.mk.injEq] at h ⊢
          obtain ⟨rfl, rfl⟩ := h
          obtain ⟨body, rest, rfl, rfl, quoted⟩ := quoted_of_stringBody read
          rw [show c :: (body ++ c :: rest) = c :: (body ++ [c]) ++ rest by simp,
            List.take_left' (by simp)]
          exact ⟨trivial, .string _, fun here => ⟨c, body, quote, rfl, by rwa [String.toList_ofList]⟩⟩

/-- Operators and punctuation are read as such, and any other character is unknown. -/
theorem operator_cases (c : Char) (cs : List Char) :
    (∃ kind text, operator c cs = ofToken kind text (text.length - 1) ∧ (text, kind) ∈ operators ∧
      text <+: c :: cs) ∨
      operator c cs = ⟨some (.unknown, .ofList [c]), some (.unknownCharacter c), 0⟩ := by
  simp only [operator]
  split
  · next text kind found =>
      refine .inl ⟨kind, text, rfl, List.mem_of_find?_eq_some found, ?_⟩
      exact List.isPrefixOf_iff_prefix.mp
        (List.find?_some (p := fun o : List Char × TokenKind => o.1.isPrefixOf (c :: cs)) found)
  · exact .inr rfl

theorem stands_operator {kind : TokenKind} {text : List Char} (known : (text, kind) ∈ operators)
    (starts : text <+: c :: cs) :
    Stands kind (.ofList text) ((c :: cs).take (text.length - 1 + 1)) := by
  have plain : ∀ o ∈ operators, o.1 ≠ [] ∧ o.2 ≠ .string := by decide
  have length := List.length_pos_iff.mpr (plain _ known).1
  rw [Nat.sub_add_cancel length, ← List.prefix_iff_eq_take.mp starts]
  refine ⟨.symbol (symbol?_of_mem known), fun here => ?_⟩
  have text := hasText_self (plain _ known).2 (.ofList text) here
  rwa [String.toList_ofList] at text

/--
A token that is read is well-spelled and stands there with one of its texts, or it is a character
that starts no token.
-/
theorem read_token {kind : TokenKind} {lexeme : String}
    (h : (read c cs).token = some (kind, lexeme)) :
    ((read c cs).fault = none ∧
      Stands kind lexeme ((c :: cs).take ((read c cs).width + 1))) ∨
    kind = .unknown ∧ read c cs = ⟨some (.unknown, .ofList [c]), some (.unknownCharacter c), 0⟩ := by
  simp only [read] at h ⊢
  split_ifs at h ⊢ with blank numeric word_ quote line block
  · cases h
  · rw [Bool.or_eq_true, Bool.and_eq_true, beq_iff_eq] at numeric
    exact .inl (stands_number numeric h)
  · exact .inl (stands_word word_ h)
  · rw [Bool.or_eq_true, beq_iff_eq, beq_iff_eq] at quote
    exact .inl (stands_string quote h)
  · cases h
  · simp only [blockComment] at h
    split at h <;> cases h
  · rcases operator_cases c cs with ⟨kind', text, read, known, starts⟩ | unknown
    · rw [read] at h ⊢
      cases h
      exact .inl ⟨rfl, stands_operator known starts⟩
    · rw [unknown] at h ⊢
      cases h
      exact .inr ⟨rfl, rfl⟩

end Reading

/-! ### The text that the printer chooses -/

/-- The end of the text, or a blank. -/
def Stops (ds : List Char) : Prop := ds = [] ∨ ∃ es, ds = ' ' :: es

/-- Whether a text starts with nothing of what is looked for before operators. -/
def startsOperator : List Char → Bool
  | [] => false
  | c :: cs => !(isBlank c || c.isDigit || c == '.' && startsWith Char.isDigit cs || startsWord c
      || (c == '"' || c == '\'') || c == '/' && startsWith (· == '/') cs
      || c == '/' && startsWith (· == '*') cs)

section Printing

variable {c : Char} {tail ds : List Char} (stops : Stops ds)

include stops

theorem Stops.startsWith {p : Char → Bool} (h : p ' ' = false) (cs : List Char) :
    startsWith p (cs ++ ds) = startsWith p cs := by
  cases cs with
  | cons c cs => rfl
  | nil =>
      rcases stops with rfl | ⟨es, rfl⟩
      · rfl
      · exact h

theorem Stops.takeWhile {p : Char → Bool} (h : p ' ' = false) {cs : List Char}
    (all : ∀ c ∈ cs, p c = true) : (cs ++ ds).takeWhile p = cs := by
  rw [List.takeWhile_append_of_pos all]
  rcases stops with rfl | ⟨es, rfl⟩
  · simp
  · simp [h]

theorem Stops.isPrefixOf {text : List Char} (h : ' ' ∉ text) (cs : List Char) :
    text.isPrefixOf (cs ++ ds) = text.isPrefixOf cs := by
  rcases stops with rfl | ⟨es, rfl⟩
  · rw [List.append_nil]
  · induction text generalizing cs with
    | nil => simp
    | cons t text ih =>
        simp only [List.mem_cons, not_or] at h
        cases cs with
        | nil => simp [List.isPrefixOf, Ne.symm h.1]
        | cons c cs => simp [List.isPrefixOf, ih h.2]

theorem read_word (starts : startsWord c = true) (all : ∀ d ∈ tail, continuesWord d = true) :
    read c (tail ++ ds) = ofToken (wordKind (.ofList (c :: tail))) (c :: tail) tail.length := by
  have point : (c == '.') = false := by
    refine beq_eq_false_iff_ne.mpr fun point => ?_
    rw [point] at starts
    exact absurd starts (by decide +kernel)
  simp [read, isBlank_of_startsWord starts, isDigit_of_startsWord starts, point, starts, word,
    stops.takeWhile (p := continuesWord) (by decide +kernel) all]

/-- Nothing, or a point and digits. -/
def IsFraction (cs : List Char) : Prop := cs = [] ∨ ∃ digits, cs = '.' :: digits ∧ IsDigits digits

theorem fraction_append {cs : List Char} (h : IsFraction cs) : fraction (cs ++ ds) = cs := by
  rcases h with rfl | ⟨digits, rfl, some_, all⟩
  · rcases stops with rfl | ⟨es, rfl⟩ <;> rfl
  · have starts : startsWith Char.isDigit digits = true := by
      obtain ⟨d, ds, rfl⟩ := List.exists_cons_of_ne_nil some_
      exact all d List.mem_cons_self
    simp only [List.cons_append, fraction, stops.startsWith (p := Char.isDigit) rfl, starts, if_true,
      stops.takeWhile (p := Char.isDigit) rfl all]

theorem read_number (digit : c.isDigit = true) (all : ∀ d ∈ tail, d.isDigit = true)
    {cs : List Char} (h : IsFraction cs) :
    read c (tail ++ cs ++ ds) = ofToken .number (c :: (tail ++ cs)) (tail ++ cs).length := by
  obtain ⟨blank, -, point⟩ := digit_classes digit
  have digits : (tail ++ (cs ++ ds)).takeWhile Char.isDigit = tail := by
    rcases h with rfl | ⟨digits, rfl, -⟩
    · exact stops.takeWhile rfl all
    · rw [List.takeWhile_append_of_pos all, List.cons_append, List.takeWhile_cons_of_neg (by decide),
        List.append_nil]
  have tail_ : numeral c (tail ++ cs ++ ds) = tail ++ cs := by
    simp only [List.append_assoc, numeral, point, if_false, digits, List.drop_left,
      fraction_append stops h]
  have free : startsWith startsWord ds = false :=
    stops.startsWith (p := startsWord) (by decide +kernel) []
  simp only [read, blank, digit, number_eq, tail_, point, List.drop_left, free]
  rfl

omit stops in
theorem stringBody_quoted {quote : Char} (h : quote ≠ '\\') (h' : quote ≠ '\n')
    {body content : List Char} (quoted : Quoted quote body content) :
    stringBody quote (body ++ quote :: ds) = (some content, body.length + 1) := by
  induction quoted with
  | nil => exact stringBody_quote h' ds
  | plain inside unbroken plain _ ih =>
      simp [stringBody_other unbroken inside plain, ih]
  | escaped c _ ih => simp [stringBody_escape h.symm, ih]

omit stops in
theorem quoted_escape (content : List Char) : Quoted '"' (content.flatMap escape) content := by
  induction content with
  | nil => exact .nil
  | cons c content ih =>
      rw [List.flatMap_cons]
      by_cases backslash : c = '\\'
      · subst backslash
        exact .escaped '\\' ih
      · by_cases quote : c = '"'
        · subst quote
          exact .escaped '"' ih
        · by_cases newline : c = '\n'
          · subst newline
            exact .escaped 'n' ih
          · rw [show escape c = [c] by simp [escape]]
            exact .plain quote newline backslash ih

omit stops in
theorem read_string (content : List Char) :
    read '"' (content.flatMap escape ++ ['"'] ++ ds) =
      ofToken .string content (content.flatMap escape ++ ['"']).length := by
  have body : stringBody '"' (content.flatMap escape ++ '"' :: ds) =
      (some content, (content.flatMap escape).length + 1) :=
    stringBody_quoted (by decide) (by decide) (quoted_escape content)
  have starts : isBlank '"' = false ∧ startsWord '"' = false := by decide +kernel
  simp [read, starts, string, body]

omit stops in
theorem startsOperator_of_mem {o : List Char × TokenKind} (h : o ∈ operators) :
    startsOperator o.1 = true ∧ ' ' ∉ o.1 ∧
      operators.find? (fun p => p.1.isPrefixOf o.1) = some o := by
  have all : ∀ o ∈ operators, startsOperator o.1 = true ∧ ' ' ∉ o.1 ∧
      operators.find? (fun p => p.1.isPrefixOf o.1) = some o := by decide +kernel
  exact all o h

/-- The longest of the operators that start alike is read. -/
theorem read_symbol {kind : TokenKind} (known : (c :: tail, kind) ∈ operators) :
    read c (tail ++ ds) = ofToken kind (c :: tail) tail.length := by
  obtain ⟨starts, unbroken, first⟩ := startsOperator_of_mem known
  have plain : ∀ o ∈ operators, ' ' ∉ o.1 := fun o mem => (startsOperator_of_mem mem).2.1
  have found : operators.find? (fun o => o.1.isPrefixOf (c :: (tail ++ ds)))
      = some (c :: tail, kind) := by
    rw [← first]
    exact List.find?_congr fun o mem => stops.isPrefixOf (plain o mem) (c :: tail)
  simp only [startsOperator, Bool.not_eq_true', Bool.or_eq_false_iff] at starts
  obtain ⟨⟨⟨⟨⟨⟨blank, digit⟩, point⟩, word_⟩, quote⟩, line⟩, block⟩ := starts
  simp only [read, stops.startsWith (p := Char.isDigit) rfl, stops.startsWith (p := (· == '/')) rfl,
    stops.startsWith (p := (· == '*')) rfl, blank, digit, point, word_, quote, line, block, operator,
    found]
  rfl

omit stops in
theorem exists_of_symbol? {kind : TokenKind} {text : String} (known : kind.symbol? = some text) :
    ∃ c tail, text.toList = c :: tail := by
  have some_ : ∀ o ∈ operators, o.1 ≠ [] := by decide
  exact List.exists_cons_of_ne_nil (some_ _ (mem_operators known))

/-- The text of a well-spelled token is read as this token. -/
theorem read_spell {kind : TokenKind} {lexeme : String} (h : WellSpelled kind lexeme) :
    ∃ c tail, spell kind lexeme = c :: tail ∧
      read c (tail ++ ds) = ofToken kind lexeme.toList tail.length := by
  have word_ : IsWord lexeme.toList → wordKind lexeme = kind → kind ≠ .string →
      ∃ c tail, spell kind lexeme = c :: tail ∧
        read c (tail ++ ds) = ofToken kind lexeme.toList tail.length := by
    rintro ⟨c, tail, text, starts, all⟩ rfl plain
    refine ⟨c, tail, by simp [spell, plain, text], ?_⟩
    rw [read_word stops starts all, ← text, String.ofList_toList]
  have number_ : ∀ {whole cs : List Char}, IsDigits whole → IsFraction cs →
      ∃ c tail, spell .number (.ofList (whole ++ cs)) = c :: tail ∧
        read c (tail ++ ds) = ofToken .number (String.ofList (whole ++ cs)).toList tail.length := by
    rintro whole cs ⟨some_, all⟩ fraction_
    obtain ⟨c, tail, rfl⟩ := List.exists_cons_of_ne_nil some_
    obtain ⟨digit, digits⟩ := List.forall_mem_cons.mp all
    refine ⟨c, tail ++ cs, by simp [spell], ?_⟩
    rw [read_number stops digit digits fraction_, String.toList_ofList, List.cons_append]
  cases h with
  | identifier word free => exact word_ word (wordKind_of_free free) (by decide)
  | keyword k => exact word_ (isWord_word k) (wordKind_word k) (by rintro ⟨⟩)
  | true_ | false_ | null | undefined | nan =>
      exact word_ (isWord_of_all (by decide +kernel) (by decide +kernel)) (by decide +kernel)
        (by decide)
  | integer h => simpa only [List.append_nil] using number_ h (.inl rfl)
  | decimal h h' => exact number_ h (.inr ⟨_, rfl, h'⟩)
  | string => exact ⟨'"', _, if_pos rfl, read_string lexeme.toList⟩
  | symbol known =>
      obtain ⟨c, tail, text⟩ := exists_of_symbol? known
      have plain : kind ≠ .string := by
        rintro rfl
        cases known
      refine ⟨c, tail, by simp [spell, plain, text], ?_⟩
      rw [text]
      exact read_symbol stops (text ▸ mem_operators known)

end Printing

end Lexeme

end ScriptFront
