import Mathlib.Data.List.Find
import ScriptFront.Token.Scan

/-!
Scanning composes at line breaks: the tokens and errors of a text are those of its lines, each at
its own place. Every class of characters that a lexeme takes leaves the line break out, and every
lookahead takes a line break like the end of the text. Only a block comment and an escaped line
break go on behind one; neither is underway at the end of a text without an unterminated comment
that does not end with a backslash.
-/

namespace ScriptFront

/-! ### Lexemes in front of a line break -/

namespace Lexeme

open Text

theorem takeWhile_append_break {p : Char → Bool} (h : p '\n' = false) (cs ds : List Char) :
    (cs ++ '\n' :: ds).takeWhile p = cs.takeWhile p := by
  induction cs with
  | nil => simp [h]
  | cons c cs ih => simp only [List.cons_append, List.takeWhile_cons, ih]

theorem length_takeWhile_le (p : Char → Bool) (cs : List Char) :
    (cs.takeWhile p).length ≤ cs.length :=
  (List.takeWhile_prefix p).length_le

theorem startsWith_append_break {p : Char → Bool} (h : p '\n' = false) (cs ds : List Char) :
    startsWith p (cs ++ '\n' :: ds) = startsWith p cs := by
  cases cs with
  | nil => exact h
  | cons c cs => rfl

theorem fraction_append_break (cs ds : List Char) :
    fraction (cs ++ '\n' :: ds) = fraction cs := by
  cases cs with
  | nil => rfl
  | cons c cs =>
      by_cases point : c = '.'
      · subst point
        simp only [List.cons_append, fraction,
          startsWith_append_break (show Char.isDigit '\n' = false from rfl),
          takeWhile_append_break (show Char.isDigit '\n' = false from rfl)]
      · simp [fraction, point]

theorem length_fraction_le (cs : List Char) : (fraction cs).length ≤ cs.length := by
  cases cs with
  | nil => simp [fraction]
  | cons c cs =>
      by_cases point : c = '.'
      · subst point
        simp only [fraction]
        split
        · simpa using length_takeWhile_le Char.isDigit cs
        · simp
      · simp [fraction, point]

/-- The characters of a number after its first one, up to a word that it runs into. -/
def numeral (first : Char) (cs : List Char) : List Char :=
  let digits := cs.takeWhile Char.isDigit
  if first = '.' then digits else digits ++ fraction (cs.drop digits.length)

theorem length_numeral_le (first : Char) (cs : List Char) :
    (numeral first cs).length ≤ cs.length := by
  have digits := length_takeWhile_le Char.isDigit cs
  have rest := length_fraction_le (cs.drop (cs.takeWhile Char.isDigit).length)
  simp only [numeral]
  split
  · exact digits
  · simp only [List.length_append, List.length_drop] at rest ⊢
    omega

theorem numeral_append_break (first : Char) (cs ds : List Char) :
    numeral first (cs ++ '\n' :: ds) = numeral first cs := by
  have digits := length_takeWhile_le Char.isDigit cs
  simp only [numeral, takeWhile_append_break (show Char.isDigit '\n' = false from rfl),
    List.drop_append_of_le_length digits, fraction_append_break]

theorem number_eq (first : Char) (cs : List Char) :
    number first cs =
      (let tail := numeral first cs
       let text := (if first = '.' then ['0', '.'] else [first]) ++ tail
       let rest := cs.drop tail.length
       if startsWith startsWord rest then
         let word := rest.takeWhile continuesWord
         ofFault (.invalidNumber (.ofList (text ++ word))) (tail.length + word.length)
       else ofToken .number text tail.length) := rfl

theorem number_append_break (first : Char) (cs ds : List Char) :
    number first (cs ++ '\n' :: ds) = number first cs := by
  simp only [number_eq, numeral_append_break,
    List.drop_append_of_le_length (length_numeral_le first cs),
    startsWith_append_break (show startsWord '\n' = false from rfl),
    takeWhile_append_break (show continuesWord '\n' = false from rfl)]

theorem width_number_le (first : Char) (cs : List Char) : (number first cs).width ≤ cs.length := by
  have tail := length_numeral_le first cs
  have word := length_takeWhile_le continuesWord (cs.drop (numeral first cs).length)
  rw [List.length_drop] at word
  simp only [number_eq]
  split
  · simp only [ofFault]
    omega
  · exact tail

theorem word_append_break (first : Char) (cs ds : List Char) :
    word first (cs ++ '\n' :: ds) = word first cs := by
  simp only [word, takeWhile_append_break (show continuesWord '\n' = false from rfl)]

theorem getLast?_of_cons {c e : Char} {cs : List Char} (h : (c :: cs).getLast? ≠ some e) :
    cs.getLast? ≠ some e := by
  cases cs with
  | nil => simp
  | cons d cs => simpa using h

section StringBody

variable {quote c : Char}

theorem stringBody_break (quote : Char) (cs : List Char) :
    stringBody quote ('\n' :: cs) = (none, 0) := by
  simp [stringBody.eq_def]

theorem stringBody_quote (h : quote ≠ '\n') (cs : List Char) :
    stringBody quote (quote :: cs) = (some [], 1) := by
  simp [stringBody.eq_def, h]

theorem stringBody_escape (h : '\\' ≠ quote) (e : Char) (es : List Char) :
    stringBody quote ('\\' :: e :: es) =
      ((stringBody quote es).1.map (unescape e :: ·), (stringBody quote es).2 + 2) := by
  rw [stringBody.eq_def]
  simp [h]

theorem stringBody_other (h : c ≠ '\n') (h' : c ≠ quote) (h'' : c ≠ '\\') (cs : List Char) :
    stringBody quote (c :: cs) =
      ((stringBody quote cs).1.map (c :: ·), (stringBody quote cs).2 + 1) := by
  rw [stringBody.eq_def]
  simp [h, h', h'']

/-- A string ends at a line break as at the end of the text, unless a backslash escapes it. -/
theorem stringBody_append_break (quote : Char) (cs ds : List Char)
    (plain : cs.getLast? ≠ some '\\') :
    stringBody quote (cs ++ '\n' :: ds) = stringBody quote cs := by
  induction cs using stringBody.induct quote with
  | case1 => exact stringBody_break quote ds
  | case2 cs => simp only [List.cons_append, stringBody_break]
  | case3 cs other => simp only [List.cons_append, stringBody_quote other]
  | case4 => exact absurd rfl plain
  | case5 e es _ _ _ _ other ih =>
      simp only [List.cons_append, stringBody_escape other]
      rw [ih (getLast?_of_cons (getLast?_of_cons plain))]
  | case6 c cs h h' h'' _ _ _ ih =>
      simp only [List.cons_append, stringBody_other h h' h'']
      rw [ih (getLast?_of_cons plain)]

theorem width_stringBody_le (quote : Char) (cs : List Char) :
    (stringBody quote cs).2 ≤ cs.length := by
  induction cs using stringBody.induct quote with
  | case1 => simp [stringBody]
  | case2 cs => simp [stringBody_break]
  | case3 cs other => simp [stringBody_quote other]
  | case4 _ other => simp [stringBody, other]
  | case5 e es _ _ _ _ other ih => simpa [stringBody_escape other] using ih
  | case6 c cs h h' h'' _ _ _ ih => simpa [stringBody_other h h' h''] using ih

end StringBody

theorem string_append_break (quote : Char) (cs ds : List Char) (plain : cs.getLast? ≠ some '\\') :
    string quote (cs ++ '\n' :: ds) = string quote cs := by
  simp only [string, stringBody_append_break quote cs ds plain]

theorem width_string_le (quote : Char) (cs : List Char) :
    (string quote cs).width ≤ cs.length := by
  have body := width_stringBody_le quote cs
  simp only [string]
  split
  · next content width read => simpa [ofToken, read] using body
  · next width read => simpa [ofFault, read] using body

theorem lineComment_append_break (cs ds : List Char) :
    lineComment (cs ++ '\n' :: ds) = lineComment cs := by
  have same := takeWhile_append_break (p := (· != '\n')) rfl cs ds
  simp only [lineComment, same]

/-- A comment that ends in a text ends there, whatever follows the text. -/
theorem commentWidth_append {cs : List Char} {width : Nat} (h : commentWidth cs = some width)
    (ds : List Char) : commentWidth (cs ++ ds) = some width := by
  induction cs using commentWidth.induct generalizing width with
  | case1 => exact nomatch h
  | case2 cs => exact h
  | case3 c cs open_ ih =>
      rw [commentWidth.eq_3 c cs open_] at h
      obtain ⟨rest, ends, rfl⟩ := Option.map_eq_some_iff.mp h
      have open' : ∀ tail, c = '*' → cs ++ ds = '/' :: tail → False := by
        intro tail star slash
        cases cs with
        | nil => exact nomatch ends
        | cons d cs =>
            cases slash
            exact open_ cs star rfl
      rw [List.cons_append, commentWidth.eq_3 c (cs ++ ds) open', ih ends]
      rfl

theorem commentWidth_le {cs : List Char} {width : Nat} (h : commentWidth cs = some width) :
    width ≤ cs.length := by
  induction cs using commentWidth.induct generalizing width with
  | case1 => exact nomatch h
  | case2 cs =>
      cases h
      simp
  | case3 c cs open_ ih =>
      rw [commentWidth.eq_3 c cs open_] at h
      obtain ⟨rest, ends, rfl⟩ := Option.map_eq_some_iff.mp h
      exact Nat.succ_le_succ (ih ends)

theorem blockComment_append {cs : List Char} (h : (blockComment cs).fault = none)
    (starts : cs ≠ []) (ds : List Char) : blockComment (cs ++ ds) = blockComment cs := by
  simp only [blockComment] at h ⊢
  cases ends : commentWidth (cs.drop 1) with
  | none =>
      rw [ends] at h
      exact nomatch h
  | some width =>
      rw [List.drop_append_of_le_length (List.length_pos_iff.mpr starts),
        commentWidth_append ends]

theorem width_blockComment_le {cs : List Char} (h : cs ≠ []) :
    (blockComment cs).width ≤ cs.length := by
  have length := List.length_pos_iff.mpr h
  simp only [blockComment]
  split
  · next width ends =>
      have bound := commentWidth_le ends
      rw [List.length_drop] at bound
      simp only [gap]
      omega
  · exact Nat.le_refl _

theorem isPrefixOf_append_break {text : List Char} (h : '\n' ∉ text) (cs ds : List Char) :
    text.isPrefixOf (cs ++ '\n' :: ds) = text.isPrefixOf cs := by
  induction text generalizing cs with
  | nil => simp
  | cons t text ih =>
      simp only [List.mem_cons, not_or] at h
      cases cs with
      | nil => simp [List.isPrefixOf, Ne.symm h.1]
      | cons c cs => simp [List.isPrefixOf, ih h.2]

theorem operator_append_break (c : Char) (cs ds : List Char) :
    operator c (cs ++ '\n' :: ds) = operator c cs := by
  have plain : ∀ o ∈ operators, '\n' ∉ o.1 := by decide
  have same : operators.find? (fun o => o.1.isPrefixOf (c :: (cs ++ '\n' :: ds)))
      = operators.find? fun o => o.1.isPrefixOf (c :: cs) :=
    List.find?_congr fun o known => isPrefixOf_append_break (plain o known) (c :: cs) ds
  simp only [operator, same]

theorem width_operator_le (c : Char) (cs : List Char) : (operator c cs).width ≤ cs.length := by
  simp only [operator]
  split
  · next text kind found =>
      have starts : text.isPrefixOf (c :: cs) = true :=
        List.find?_some (p := fun o : List Char × TokenKind => o.1.isPrefixOf (c :: cs)) found
      have bound := (List.isPrefixOf_iff_prefix.mp starts).length_le
      rw [List.length_cons] at bound
      simp only [ofToken]
      omega
  · simp

/--
What stands at the start of a line is the same whatever the lines after it hold, unless it goes on
there: a block comment that is not closed, or a string that a backslash continues.
-/
theorem read_append_break {c : Char} {cs : List Char} (ds : List Char)
    (closed : (read c cs).fault ≠ some .unterminatedComment) (plain : cs.getLast? ≠ some '\\') :
    read c (cs ++ '\n' :: ds) = read c cs := by
  have digit := startsWith_append_break (show Char.isDigit '\n' = false from rfl) cs ds
  have slash := startsWith_append_break (p := (· == '/')) rfl cs ds
  have star := startsWith_append_break (p := (· == '*')) rfl cs ds
  simp only [read, digit, slash, star] at closed ⊢
  split_ifs at closed ⊢ with blank number word quote line block
  · rfl
  · exact number_append_break c cs ds
  · exact word_append_break c cs ds
  · exact string_append_break c cs ds plain
  · exact lineComment_append_break cs ds
  · refine blockComment_append ?_ ?_ _
    · simp only [blockComment] at closed ⊢
      split
      · rfl
      · next open_ => exact absurd (by rw [open_]; rfl) closed
    · rintro rfl
      simp [startsWith] at block
  · exact operator_append_break c cs ds

theorem width_read_le (c : Char) (cs : List Char) : (read c cs).width ≤ cs.length := by
  simp only [read]
  split_ifs with blank number word quote line block
  · exact Nat.zero_le _
  · exact width_number_le c cs
  · exact length_takeWhile_le _ cs
  · exact width_string_le c cs
  · exact length_takeWhile_le _ cs
  · refine width_blockComment_le ?_
    rintro rfl
    simp [startsWith] at block
  · exact width_operator_le c cs

/-- After a fault reading resumes at a line break at the latest. -/
theorem reach_append_break {l : Lexeme} {cs : List Char} (h : l.width ≤ cs.length)
    (ds : List Char) : l.reach (cs ++ '\n' :: ds) = l.reach cs := by
  have skipped := takeWhile_append_break (p := fun c => !resumesAt c) rfl (cs.drop l.width) ds
  simp only [reach, List.drop_append_of_le_length h, skipped]

theorem reach_le {l : Lexeme} {cs : List Char} (h : l.width ≤ cs.length) :
    l.reach cs ≤ cs.length := by
  have skipped := length_takeWhile_le (fun c => !resumesAt c) (cs.drop l.width)
  rw [List.length_drop] at skipped
  simp only [reach]
  split
  · omega
  · exact h

end Lexeme

/-! ### Scans at another place -/

namespace Location

/-- The same column some bytes and lines further down. -/
def below (bytes lines : Nat) (here : Location) : Location :=
  ⟨here.offset + bytes, here.line + lines, here.column⟩

theorem step_below (bytes lines : Nat) (here : Location) (c : Char) :
    (here.below bytes lines).step c = (here.step c).below bytes lines := by
  by_cases newline : c = '\n'
  · simp [step, below, newline, Nat.add_right_comm]
  · simp [step, below, newline, Nat.add_right_comm]

theorem offset_after (here : Location) (cs : List Char) :
    (here.after cs).offset = here.offset + (String.ofList cs).utf8ByteSize := by
  induction cs generalizing here with
  | nil => rfl
  | cons c cs ih =>
      have moved : (here.step c).offset = here.offset + c.utf8Size := by
        simp only [step]
        split <;> rfl
      rw [after_cons, ih, moved, String.ofList_cons, String.utf8ByteSize_append,
        String.utf8ByteSize_singleton]
      omega

theorem line_after (here : Location) (cs : List Char) :
    (here.after cs).line = here.line + cs.count '\n' := by
  induction cs generalizing here with
  | nil => rfl
  | cons c cs ih =>
      by_cases newline : c = '\n'
      · simp [after_cons, ih, step, newline]
        omega
      · simp [after_cons, ih, step, newline]

/-- Where the line after a text begins. -/
theorem step_newline_after (cs : List Char) :
    (start.after cs).step '\n' =
      start.below ((String.ofList cs).utf8ByteSize + 1) (1 + cs.count '\n') := by
  have offset := offset_after start cs
  have line := line_after start cs
  simp only [step, below, start] at offset line ⊢
  have newline : Char.utf8Size '\n' = 1 := rfl
  simp only [if_true, offset, line, newline]
  congr 1
  omega

end Location

/-- A token as it stands some bytes and lines further down. -/
def Token.below (bytes lines : Nat) (t : Token) : Token :=
  { t with location := t.location.below bytes lines }

/-- A lexical error as it stands some bytes and lines further down. -/
def LexicalError.below (bytes lines : Nat) (e : LexicalError) : LexicalError :=
  { e with location := e.location.below bytes lines }

namespace Scan

/-- The scan of a text that stands some bytes and lines further down. -/
def below (bytes lines : Nat) (s : Scan) : Scan :=
  ⟨s.tokens.map (·.below bytes lines), s.errors.map (·.below bytes lines)⟩

/-- The scans of two texts as one, in which the first text has no end of file of its own. -/
def followedBy (s t : Scan) : Scan :=
  ⟨s.tokens.dropLast ++ t.tokens, s.errors ++ t.errors⟩

theorem push_below (bytes lines : Nat) (here : Location) (l : Lexeme) (s : Scan) :
    (s.push here l).below bytes lines = (s.below bytes lines).push (here.below bytes lines) l := by
  obtain ⟨token, fault, width⟩ := l
  cases token <;> cases fault <;> rfl

theorem ofChars_below (bytes lines skip : Nat) (here : Location) (cs : List Char) :
    ofChars skip (here.below bytes lines) cs = (ofChars skip here cs).below bytes lines := by
  induction cs generalizing skip here with
  | nil => rfl
  | cons c cs ih =>
      cases skip with
      | succ skip => simp only [ofChars, Location.step_below, ih]
      | zero => simp only [ofChars, Location.step_below, ih, push_below]

/-- A scan ends with the end of file, at the place after the text. -/
theorem tokens_ofChars (skip : Nat) (here : Location) (cs : List Char) :
    ∃ ts, (ofChars skip here cs).tokens = ts ++ [.endOfFile (here.after cs)] := by
  induction cs generalizing skip here with
  | nil => exact ⟨[], rfl⟩
  | cons c cs ih =>
      cases skip with
      | succ skip => exact ih skip (here.step c)
      | zero =>
          obtain ⟨ts, ends⟩ := ih ((Lexeme.read c cs).reach cs) (here.step c)
          simp only [ofChars, push, ends, Location.after_cons]
          split
          · next kind text _ => exact ⟨⟨kind, text, here⟩ :: ts, rfl⟩
          · exact ⟨ts, rfl⟩

theorem push_followedBy {s : Scan} (ends : s.tokens ≠ []) (here : Location) (l : Lexeme)
    (t : Scan) : (s.followedBy t).push here l = (s.push here l).followedBy t := by
  obtain ⟨token, fault, width⟩ := l
  cases token <;> cases fault <;> simp [push, followedBy, List.dropLast_cons_of_ne_nil ends]

/-- The scan of a text in front of a line break goes on with that of the next line. -/
theorem ofChars_append_break {skip : Nat} {here : Location} {cs : List Char} (ds : List Char)
    (within : skip ≤ cs.length)
    (closed : ∀ e ∈ (ofChars skip here cs).errors, e.fault ≠ .unterminatedComment)
    (plain : cs.getLast? ≠ some '\\') :
    ofChars skip here (cs ++ '\n' :: ds) =
      (ofChars skip here cs).followedBy (ofChars 0 ((here.after cs).step '\n') ds) := by
  induction cs generalizing skip here with
  | nil =>
      obtain rfl : skip = 0 := Nat.le_zero.mp within
      rfl
  | cons c cs ih =>
      have plain' := Lexeme.getLast?_of_cons plain
      cases skip with
      | succ skip =>
          simp only [List.cons_append, ofChars, Location.after_cons]
          exact ih (Nat.le_of_succ_le_succ within) closed plain'
      | zero =>
          have width := Lexeme.width_read_le c cs
          simp only [ofChars, push] at closed
          have later : ∀ e ∈ (ofChars ((Lexeme.read c cs).reach cs) (here.step c) cs).errors,
              e.fault ≠ .unterminatedComment := by
            intro e reported
            refine closed e ?_
            split
            · exact List.mem_cons_of_mem _ reported
            · exact reported
          have same : Lexeme.read c (cs ++ '\n' :: ds) = Lexeme.read c cs := by
            refine Lexeme.read_append_break ds ?_ plain'
            intro fault
            rw [fault] at closed
            exact closed _ List.mem_cons_self rfl
          obtain ⟨ts, ends⟩ := tokens_ofChars ((Lexeme.read c cs).reach cs) (here.step c) cs
          simp only [List.cons_append, ofChars, Location.after_cons, same,
            Lexeme.reach_append_break width]
          rw [ih (Lexeme.reach_le width) later plain', push_followedBy (by simp [ends])]

/--
The tokens and errors of two texts with a line break between them are those of the first text,
without the end of file that it ends with, and then those of the second one, further down by the
bytes and lines in front of it. The first text may neither leave a comment open nor end with a
backslash.
-/
theorem ofText_append_newline (a b : String)
    (closed : ∀ e ∈ (ofText a).errors, e.fault ≠ .unterminatedComment)
    (plain : a.toList.getLast? ≠ some '\\') :
    (ofText a).tokens.getLast? = some (.endOfFile (Location.start.after a.toList)) ∧
      ofText (a ++ "\n" ++ b) =
        (ofText a).followedBy
          ((ofText b).below (a.utf8ByteSize + 1) (1 + a.toList.count '\n')) := by
  obtain ⟨ts, ends⟩ := tokens_ofChars 0 .start a.toList
  have lines : (a ++ "\n" ++ b).toList = a.toList ++ '\n' :: b.toList := by simp
  simp only [ofText] at closed ⊢
  refine ⟨by simp [ends], ?_⟩
  rw [lines, ofChars_append_break b.toList (Nat.zero_le _) closed plain,
    Location.step_newline_after, ofChars_below, String.ofList_toList]

theorem faults_stay_on_their_lines :
    (∀ e ∈ (ofText "é = 'it;\n1.5a @").errors, e.fault ≠ .unterminatedComment) ∧
      "é = 'it;\n1.5a @".toList.getLast? ≠ some '\\' ∧
      (ofText "é = 'it;\n1.5a @").errors.length = 3 ∧
      ofText ("é = 'it;\n1.5a @" ++ "\n" ++ "* 'x") =
        (ofText "é = 'it;\n1.5a @").followedBy ((ofText "* 'x").below 17 2) := by
  have closed : ∀ e ∈ (ofText "é = 'it;\n1.5a @").errors, e.fault ≠ .unterminatedComment := by
    decide +kernel
  have plain : "é = 'it;\n1.5a @".toList.getLast? ≠ some '\\' := by decide +kernel
  exact ⟨closed, plain, by decide +kernel, (ofText_append_newline _ _ closed plain).2⟩

end Scan
end ScriptFront
