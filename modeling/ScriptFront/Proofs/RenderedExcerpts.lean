import ScriptFront.Diagnostic.Excerpt
import ScriptFront.Diagnostic.Layout
import ScriptFront.Proofs.TokenPlaces

/-!
Excerpts of rendered diagnostics. The excerpt below a diagnostic shows the line of its place, with the
lines above it, and the caret stands below the place as long as the line number is no wider than its
column. That the places of all diagnostics are places of tokens is left open.
-/

namespace ScriptFront

/-! ### Lines of a text -/

namespace Text

/-- The lines in front of a piece are those of the pieces in front of it. -/
theorem linesOfPieces_append (ps : List (List Char)) {piece : List Char} {rest : List (List Char)} :
    (linesOfPieces (ps ++ piece :: rest))[ps.length]? = (linesOfPieces (piece :: rest))[0]? := by
  induction ps with
  | nil => rfl
  | cons p ps ih =>
      obtain ⟨q, qs, cut⟩ : ∃ q qs, ps ++ piece :: rest = q :: qs :=
        List.exists_cons_of_ne_nil (by simp)
      rw [List.cons_append, cut, linesOfPieces, List.length_cons, List.getElem?_cons_succ, ← cut, ih]
      simp

theorem dropReturn_of_no_return {line : List Char} (h : line.getLast? ≠ some '\r') :
    dropReturn line = line := if_neg h

theorem dropReturn_concat (line : List Char) : dropReturn (line ++ ['\r']) = line := by
  rw [dropReturn, if_pos List.getLast?_concat, List.dropLast_concat]

section Line

variable {text above start tail behind : List Char} (h : LineAround text above start tail behind)

include h

/-- The pieces of a text up to a line. -/
theorem LineAround.pieces : ∃ ps : List (List Char), ps.length = above.count '\n' ∧
    splitAt '\n' text = ps ++ splitAt '\n' (start ++ tail ++ behind) := by
  rcases h.opened with none_ | last
  · exact ⟨[], by rw [none_]; rfl, by rw [h.cut, none_]; rfl⟩
  · obtain ⟨front, rfl⟩ := List.getLast?_eq_some_iff.mp last
    refine ⟨splitAt '\n' front, ?_, ?_⟩
    · rw [length_splitAt, List.count_append]
      rfl
    · rw [h.cut, List.append_assoc, List.singleton_append, splitAt_append]

/-- The line around a place is the one with the number of the line breaks in front of it. -/
theorem LineAround.getElem?_lines (some_ : start ++ tail ≠ []) :
    (lines text)[above.count '\n']? = some (start ++ tail) := by
  obtain ⟨ps, length, cut⟩ := h.pieces
  have unbroken := h.unbroken
  suffices first : ∃ piece rest, splitAt '\n' (start ++ tail ++ behind) = piece :: rest ∧
      (linesOfPieces (piece :: rest))[0]? = some (start ++ tail) by
    obtain ⟨piece, rest, pieces, line⟩ := first
    rw [lines, cut, pieces, ← length, linesOfPieces_append, line]
  rcases h.closed with rfl | ⟨more, rfl⟩ | ⟨⟨more, rfl⟩, last⟩
  · refine ⟨_, [], by rw [List.append_nil, splitAt_eq_singleton unbroken], ?_⟩
    rw [linesOfPieces, if_neg (by simpa using some_)]
    rfl
  · have free : '\n' ∉ start ++ tail ++ ['\r'] := by simpa using unbroken
    obtain ⟨next, others, pieces⟩ := List.exists_cons_of_ne_nil (splitAt_ne_nil '\n' more)
    refine ⟨start ++ tail ++ ['\r'], splitAt '\n' more, ?_, ?_⟩
    · rw [← splitAt_append_cons free, List.append_assoc _ ['\r']]
      rfl
    · rw [pieces, linesOfPieces, dropReturn_concat]
      · rfl
      · simp
  · obtain ⟨next, others, pieces⟩ := List.exists_cons_of_ne_nil (splitAt_ne_nil '\n' more)
    refine ⟨start ++ tail, splitAt '\n' more, splitAt_append_cons unbroken more, ?_⟩
    rw [pieces, linesOfPieces, dropReturn_of_no_return last]
    · rfl
    · simp

/-- The place marks its line by number and its column in the line. -/
theorem LineAround.marks {here : Location} (marks : here.Marks (above ++ start)) :
    here.line = 1 + above.count '\n' ∧ here.column = 1 + start.length := by
  have free : '\n' ∉ start := fun mem => h.unbroken (List.mem_append_left _ mem)
  have all : ∀ c ∈ start.reverse, (c ≠ '\n') := fun c mem eq =>
    free (eq ▸ List.mem_reverse.mp mem)
  refine ⟨?_, ?_⟩
  · rw [marks.line, List.count_append, List.count_eq_zero_of_not_mem free, Nat.add_zero]
  · rw [marks.column, List.reverse_append, List.takeWhile_append_of_pos (by simpa using all)]
    rcases h.opened with rfl | last
    · simp
    · obtain ⟨front, rfl⟩ := List.getLast?_eq_some_iff.mp last
      simp

end Line

/-- What stands behind a place on its line, up to the line break. -/
theorem exists_tail {c : Char} (return_ : c ≠ '\r') (rest : List Char) :
    ∃ tail behind, rest = tail ++ behind ∧ '\n' ∉ tail ∧
      (behind = [] ∨ (∃ more, behind = '\r' :: '\n' :: more) ∨
        (∃ more, behind = '\n' :: more) ∧ (c :: tail).getLast? ≠ some '\r') := by
  have cut : rest = rest.takeWhile (· ≠ '\n') ++ rest.dropWhile (· ≠ '\n') :=
    List.takeWhile_append_dropWhile.symm
  have free : '\n' ∉ rest.takeWhile (· ≠ '\n') := fun mem => by
    simpa using List.mem_takeWhile_imp mem
  have ends := List.head?_dropWhile_not (· ≠ '\n') rest
  generalize rest.takeWhile (· ≠ '\n') = line at cut free
  generalize rest.dropWhile (· ≠ '\n') = behind at cut ends
  cases behind with
  | nil => exact ⟨line, [], cut, free, .inl rfl⟩
  | cons d more =>
      have d_eq : d = '\n' := by simpa using ends
      subst d_eq
      by_cases last : (c :: line).getLast? = some '\r'
      · -- The carriage return is not the character at the place.
        rcases line.eq_nil_or_concat with rfl | ⟨tail, r, rfl⟩
        · exact absurd (by simpa using last) return_
        · have r_eq : r = '\r' := by
            rw [List.concat_eq_append, ← List.cons_append, List.getLast?_concat] at last
            exact Option.some.inj last
          subst r_eq
          refine ⟨tail, '\r' :: '\n' :: more, by simpa using cut, ?_, .inr (.inl ⟨more, rfl⟩)⟩
          exact fun mem => free (by simp [mem])
      · exact ⟨line, '\n' :: more, cut, free, .inr (.inr ⟨⟨more, rfl⟩, last⟩)⟩

/-- A text can be cut around each of its characters that is no line break. -/
theorem exists_lineAround (before : List Char) {c : Char} (feed : c ≠ '\n') (return_ : c ≠ '\r')
    (rest : List Char) : ∃ above start tail behind,
      LineAround (before ++ c :: rest) above start (c :: tail) behind ∧
        before = above ++ start ∧ rest = tail ++ behind := by
  obtain ⟨above, start, cut, opened, free⟩ : ∃ above start, before = above ++ start ∧
      (above = [] ∨ above.getLast? = some '\n') ∧ '\n' ∉ start := by
    refine ⟨(before.reverse.dropWhile (· ≠ '\n')).reverse,
      (before.reverse.takeWhile (· ≠ '\n')).reverse, ?_, ?_, fun mem => ?_⟩
    · rw [← List.reverse_append, List.takeWhile_append_dropWhile, List.reverse_reverse]
    · have ends := List.head?_dropWhile_not (· ≠ '\n') before.reverse
      rw [List.getLast?_reverse, List.reverse_eq_nil_iff]
      generalize before.reverse.dropWhile (· ≠ '\n') = dropped at ends
      cases dropped with
      | nil => exact .inl rfl
      | cons d more => exact .inr (by simpa using ends)
    · simpa using List.mem_takeWhile_imp (List.mem_reverse.mp mem)
  obtain ⟨tail, behind, rfl, unbroken, closed⟩ := exists_tail return_ rest
  have last : (start ++ c :: tail).getLast? = (c :: tail).getLast? := by
    rw [List.getLast?_append, List.getLast?_cons]
    rfl
  refine ⟨above, start, tail, behind, ⟨?_, opened, ?_, by rwa [last]⟩, cut, rfl⟩
  · rw [cut]
    simp
  · simp [free, unbroken, Ne.symm feed]

end Text

/-! ### Places of a text -/

namespace Scan

open Lexeme Text

/-- A place of a text at one of its characters, no blank. -/
def AtChar (before cs : List Char) (here : Location) : Prop :=
  ∃ skipped c rest, cs = skipped ++ c :: rest ∧ isBlank c = false ∧
    here = Location.start.after (before ++ skipped)

theorem AtChar.behind {before taken rest : List Char} {here : Location}
    (h : AtChar (before ++ taken) rest here) : AtChar before (taken ++ rest) here := by
  obtain ⟨skipped, c, others, rfl, dark, eq⟩ := h
  exact ⟨taken ++ skipped, c, others, by simp, dark, by rw [eq, List.append_assoc]⟩

/-- Neither a token nor a fault starts with a blank. -/
theorem isBlank_of_read {c : Char} {cs : List Char}
    (h : (read c cs).token ≠ none ∨ (read c cs).fault ≠ none) : isBlank c = false := by
  cases blank : isBlank c with
  | false => rfl
  | true =>
      have same : read c cs = gap 0 := if_pos blank
      rw [same] at h
      rcases h with token | fault
      · exact absurd rfl token
      · exact absurd rfl fault

/-- A place behind what is read first is there before, or it is where this was read. -/
theorem mem_places_push {s : Scan} {here place : Location} {l : Lexeme}
    (mem : place ∈ (s.push here l).places) :
    place ∈ s.places ∨ place = here ∧ (l.token ≠ none ∨ l.fault ≠ none) := by
  rcases List.mem_append.mp mem with ofToken | ofFault
  · obtain ⟨t, ht, rfl⟩ := List.mem_map.mp ofToken
    obtain ⟨ht, kind⟩ := List.mem_filter.mp ht
    have known (ht : t ∈ s.tokens) : t.location ∈ s.places :=
      List.mem_append_left _ (List.mem_map_of_mem (List.mem_filter.mpr ⟨ht, kind⟩))
    cases token : l.token with
    | none =>
        rw [push, token] at ht
        exact .inl (known ht)
    | some _ =>
        rw [push, token] at ht
        rcases List.mem_cons.mp ht with rfl | ht
        · exact .inr ⟨rfl, .inl (Option.some_ne_none _)⟩
        · exact .inl (known ht)
  · obtain ⟨e, he, rfl⟩ := List.mem_map.mp ofFault
    have known (he : e ∈ s.errors) : e.location ∈ s.places :=
      List.mem_append_right _ (List.mem_map_of_mem he)
    cases fault : l.fault with
    | none =>
        rw [push, fault] at he
        exact .inl (known he)
    | some _ =>
        rw [push, fault] at he
        rcases List.mem_cons.mp he with rfl | he
        · exact .inr ⟨rfl, .inr (Option.some_ne_none _)⟩
        · exact .inl (known he)

theorem atChar_ofChars (before cs : List Char) :
    ∀ here ∈ (ofChars 0 (Location.start.after before) cs).places, AtChar before cs here := by
  refine ofChars_steps (motive := fun before cs s => ∀ here ∈ s.places, AtChar before cs here)
    (fun before here mem => nomatch mem) (fun before c cs s ih here mem => ?_) before cs
  rcases mem_places_push mem with later | ⟨rfl, reads⟩
  · have behind := (ih here later).behind
    rwa [List.cons_append, List.take_append_drop] at behind
  · exact ⟨[], c, cs, rfl, isBlank_of_read reads, by rw [List.append_nil]⟩

/-- A token stands at its place with a text that has a first character. -/
theorem texts_ofChars (before cs : List Char) :
    ∀ t ∈ (ofChars 0 (Location.start.after before) cs).tokens, t.kind ≠ .eof →
      ∃ skipped c tail rest, cs = skipped ++ (c :: tail ++ rest) ∧ t.HasText (c :: tail) ∧
        t.location = Location.start.after (before ++ skipped) := by
  refine ofChars_steps (motive := fun before cs s => ∀ t ∈ s.tokens, t.kind ≠ .eof →
      ∃ skipped c tail rest, cs = skipped ++ (c :: tail ++ rest) ∧ t.HasText (c :: tail) ∧
        t.location = Location.start.after (before ++ skipped))
    (fun before t mem kind => ?_) (fun before c cs s ih t mem kind => ?_) before cs
  · rw [List.mem_singleton.mp mem] at kind
    exact absurd rfl kind
  · have later (mem : t ∈ s.tokens) : ∃ skipped d tail rest,
        c :: cs = skipped ++ (d :: tail ++ rest) ∧ t.HasText (d :: tail) ∧
          t.location = Location.start.after (before ++ skipped) := by
      obtain ⟨skipped, d, tail, rest, cut, text, place⟩ := ih t mem kind
      refine ⟨c :: cs.take ((read c cs).reach cs) ++ skipped, d, tail, rest, ?_, text, ?_⟩
      · rw [List.append_assoc, ← cut, List.cons_append, List.take_append_drop]
      · rw [place, List.append_assoc]
    cases token : (read c cs).token with
    | none =>
        rw [push, token] at mem
        exact later mem
    | some read_ =>
        rw [push, token] at mem
        rcases List.mem_cons.mp mem with rfl | mem
        · refine ⟨[], c, cs.take (read c cs).width, cs.drop (read c cs).width, ?_, ?_, ?_⟩
          · rw [List.nil_append, List.cons_append, List.take_append_drop]
          · exact hasText_read token _
          · rw [List.append_nil]
        · exact later mem

/-- Line breaks in front of a text hold nothing. -/
theorem ofChars_breaks (n : Nat) (here : Location) (cs : List Char) :
    ofChars 0 here (List.replicate n '\n' ++ cs)
      = ofChars 0 (here.after (List.replicate n '\n')) cs := by
  induction n generalizing here with
  | zero => rfl
  | succ n ih =>
      have blank (rest : List Char) : read '\n' rest = gap 0 := if_pos (by decide)
      rw [List.replicate_succ, List.cons_append, ofChars, blank, Location.after_cons]
      exact ih _

/-- Every place of a text is at one of its characters, which is no blank. -/
theorem atChar_of_mem_places {source : String} {here : Location}
    (mem : here ∈ (ofText source).places) :
    ∃ before c rest, source.toList = before ++ c :: rest ∧ isBlank c = false ∧ here.Marks before := by
  obtain ⟨before, c, rest, cut, dark, rfl⟩ := atChar_ofChars [] source.toList here mem
  exact ⟨before, c, rest, cut, dark, Location.marks_after before⟩

end Scan

/-! ### Excerpts -/

namespace Diagnostic

theorem excerptLine_eq (mark : String) (number : Nat) (line : List Char) :
    (excerptLine mark number line).toList = gutter mark number ++ line ++ ['\n'] := by
  have ends : "\n".toList = ['\n'] := by decide
  simp only [excerptLine, gutter, String.toList_append, String.toList_ofList, ends]

theorem caretLine_eq (column : Nat) : (caretLine column).toList = caretRow column ++ ['\n'] := by
  have edge : "      | ".toList = List.replicate 6 ' ' ++ ['|', ' '] := by decide
  have ends : "^\n".toList = ['^'] ++ ['\n'] := by decide
  simp only [caretLine, caretRow, Text.blanks, String.toList_append, String.toList_ofList, edge,
    ends, List.append_assoc]

/-- The gutter of a marked line is as wide as its number makes it. -/
theorem length_gutter (number : Nat) :
    (gutter ">" number).length = 5 + max 3 number.repr.length := by
  have number_ : toString number = number.repr := rfl
  simp only [gutter, Text.padLeft, Text.blanks, String.toList_append, String.toList_ofList,
    List.length_append, List.length_replicate, number_, String.length_toList]
  have ends : (">".length = 1 ∧ " ".length = 1) ∧ " | ".length = 3 := by decide
  omega

theorem idxOf_caretRow (column : Nat) : (caretRow column).idxOf '^' = 8 + (column - 1) := by
  have blank : '^' ∉ List.replicate 6 ' ' ++ ['|', ' '] ++ List.replicate (column - 1) ' ' := by
    simp
  rw [caretRow, List.idxOf_append, if_neg blank, List.length_append, List.length_replicate]
  exact Nat.zero_add _

/-- The rows of an excerpt above the marked one. -/
def contextRows (number : Nat) (lines : List (List Char)) : List (List Char) :=
  let first := max (number - contextLines) 1
  (List.range' first (number - first)).map fun n => gutter " " n ++ lines.getD (n - 1) []

theorem excerpt_eq {here : Location} {lines : List (List Char)} {line : List Char}
    (found : lines[here.line - 1]? = some line) (counted : here.line ≠ 0) :
    (excerpt here lines).toList = (contextRows here.line lines ++
      [gutter ">" here.line ++ line, caretRow here.column]).flatMap (· ++ ['\n']) := by
  have above (n : Nat) : (excerptLine " " n (lines.getD (n - 1) [])).toList
      = gutter " " n ++ lines.getD (n - 1) [] ++ ['\n'] := excerptLine_eq ..
  simp only [excerpt, found, counted, if_false, String.toList_append, String.toList_join,
    List.flatMap_map, above, excerptLine_eq, caretLine_eq, contextRows, List.flatMap_append,
    List.flatMap_cons, List.flatMap_nil, List.append_nil, List.append_assoc]

theorem length_contextRows (number : Nat) (lines : List (List Char)) :
    (contextRows number lines).length = min 2 (number - 1) := by
  rw [contextRows, List.length_map, List.length_range', contextLines]
  omega

/-- A row above the marked one is the source line of its number. -/
theorem getElem?_contextRows {number : Nat} {lines : List (List Char)} (inside : number ≤ lines.length)
    {i : Nat} (h : i < (contextRows number lines).length) :
    ∃ line, lines[number - (contextRows number lines).length + i - 1]? = some line ∧
      (contextRows number lines)[i]?
        = some (gutter " " (number - (contextRows number lines).length + i) ++ line) := by
  rw [length_contextRows] at h ⊢
  have place : max (number - contextLines) 1 + i = number - min 2 (number - 1) + i := by
    rw [contextLines]
    omega
  have below : number - min 2 (number - 1) + i - 1 < lines.length := by omega
  refine ⟨lines[number - min 2 (number - 1) + i - 1], List.getElem?_eq_getElem below, ?_⟩
  have more : i < number - max (number - contextLines) 1 := by
    rw [contextLines]
    omega
  rw [contextRows, List.getElem?_map, List.getElem?_range' more, Nat.one_mul, place,
    Option.map_some, List.getD_eq_getElem?_getD, List.getElem?_eq_getElem below, Option.getD_some]

/-- A rendered diagnostic is its heading and its excerpt. -/
theorem render_eq (d : Diagnostic) (source : String) :
    (d.render source).toList
      = d.heading.toList ++ (excerpt d.location (Text.lines source.toList)).toList := by
  rw [render, ← String.toList_append, heading]

/-- Two places of a text with one offset are behind the same characters. -/
theorem eq_of_marks {here : Location} {text before before' : List Char} (h : here.Marks before)
    (h' : here.Marks before') (first : before <+: text) (second : before' <+: text) :
    before = before' := by
  rcases List.prefix_or_prefix_of_prefix first second with ⟨more, rfl⟩ | ⟨more, rfl⟩
  · by_contra differ
    have some_ : more ≠ [] := fun none_ => differ (by rw [none_, List.append_nil])
    exact Nat.lt_irrefl _ (h.offset_lt h' some_)
  · by_contra differ
    have some_ : more ≠ [] := fun none_ => differ (by rw [none_, List.append_nil])
    exact Nat.lt_irrefl _ (h'.offset_lt h some_)

/--
A diagnostic at the place of a token or a lexical error is rendered with the line of its place, which
the character at the place is on, below up to two lines in front of it. In the caret line the caret
has the index of this character in the marked line as long as the line number has three digits at
most; every further digit moves the character one column ahead of the caret.
-/
theorem render_points_at {source : String} {d : Diagnostic}
    (place : d.location ∈ (Scan.ofText source).places) :
    ∃ above start c tail behind,
      Text.LineAround source.toList above start (c :: tail) behind ∧
      d.location.Marks (above ++ start) ∧
      (∀ t ∈ (Scan.ofText source).tokens, t.kind ≠ .eof → t.location = d.location →
        ∃ text rest, t.HasText (c :: text) ∧ c :: tail ++ behind = c :: text ++ rest) ∧
      ∃ rows : List (List Char),
        (d.render source).toList = d.heading.toList ++
          (rows ++ [gutter ">" d.location.line ++ (start ++ c :: tail),
            caretRow d.location.column]).flatMap (· ++ ['\n']) ∧
        rows.length = min 2 (d.location.line - 1) ∧
        (∀ i < rows.length, ∃ line,
          (Text.lines source.toList)[d.location.line - rows.length + i - 1]? = some line ∧
          rows[i]? = some (gutter " " (d.location.line - rows.length + i) ++ line)) ∧
        (gutter ">" d.location.line ++ start).length
          = (caretRow d.location.column).idxOf '^' + (d.location.line.repr.length - 3) ∧
        ((caretRow d.location.column).idxOf '^' = (gutter ">" d.location.line ++ start).length ↔
          d.location.line < 1000) := by
  obtain ⟨before, c, rest, cut, dark, marks⟩ := Scan.atChar_of_mem_places place
  have feed : c ≠ '\n' := fun eq => absurd dark (by rw [eq]; decide)
  have return_ : c ≠ '\r' := fun eq => absurd dark (by rw [eq]; decide)
  obtain ⟨above, start, tail, behind, around, rfl, rfl⟩ :=
    Text.exists_lineAround before feed return_ rest
  rw [← cut] at around
  obtain ⟨line, column⟩ := around.marks marks
  refine ⟨above, start, c, tail, behind, around, marks, fun t mem kind eq => ?_, ?_⟩
  · obtain ⟨skipped, c', text, more, cut', hasText, place'⟩ :=
      Scan.texts_ofChars [] source.toList t mem kind
    -- The token stands at the place, so its text starts there.
    have marks' : d.location.Marks skipped := by
      rw [← eq, place']
      exact Location.marks_after skipped
    obtain rfl : above ++ start = skipped :=
      eq_of_marks marks marks' ⟨_, cut.symm⟩ ⟨_, cut'.symm⟩
    have same := List.append_cancel_left (cut.symm.trans cut')
    rw [List.cons_append] at same
    obtain ⟨rfl, same⟩ := List.cons.inj same
    exact ⟨text, more, hasText, by rw [List.cons_append, same, List.cons_append]⟩
  · have shown := around.getElem?_lines (by simp)
    have counted : above.count '\n' = d.location.line - 1 := by omega
    rw [counted] at shown
    have inside : d.location.line ≤ (Text.lines source.toList).length := by
      have below := (List.getElem?_eq_some_iff.mp shown).1
      omega
    have caret := idxOf_caretRow d.location.column
    have token : (gutter ">" d.location.line ++ start).length
        = 5 + max 3 d.location.line.repr.length + start.length := by
      rw [List.length_append, length_gutter]
    have digits := Nat.length_repr_le_iff (n := d.location.line) (k := 3) (by decide)
    refine ⟨contextRows d.location.line (Text.lines source.toList), ?_, length_contextRows .., ?_,
      ?_, ?_⟩
    · rw [render_eq, excerpt_eq shown (by omega)]
    · exact fun i h => getElem?_contextRows inside h
    · omega
    · omega

/-- A diagnostic for a character that starts no token. -/
def stray (here : Location) : Diagnostic :=
  ⟨.unknownToken, "Unrecognized character '@'", ⟨"main.ky"⟩, here⟩

example : ((stray ⟨9, 2, 3⟩).render "é x\r\n\t @ y\r").toList
    = ("UnknownTokenError: Unrecognized character '@'\n  --> main.ky:2:3\n" ++
      "    1 | é x\n>   2 | \t @ y\r\n      |   ^\n").toList := by decide +kernel

/-- A text whose only token is on its thousandth line. -/
def thousandthLine : String := .ofList (List.replicate 999 '\n' ++ ['@'])

/-- On the thousandth line the caret stands in front of the character that it is to point at. -/
theorem caret_falls_behind :
    ⟨999, 1000, 1⟩ ∈ (Scan.ofText thousandthLine).places ∧
    ∃ start c tail rows,
      ((stray ⟨999, 1000, 1⟩).render thousandthLine).toList
        = (stray ⟨999, 1000, 1⟩).heading.toList ++ (rows ++
          [gutter ">" 1000 ++ (start ++ c :: tail), caretRow 1]).flatMap (· ++ ['\n']) ∧
      (caretRow 1).idxOf '^' ≠ (gutter ">" 1000 ++ start).length := by
  have place : ⟨999, 1000, 1⟩ ∈ (Scan.ofText thousandthLine).places := by
    unfold Scan.ofText thousandthLine
    rw [String.toList_ofList, Scan.ofChars_breaks]
    decide +kernel
  obtain ⟨_, start, c, tail, _, _, _, _, rows, shown, _, _, _, below⟩ :=
    render_points_at (d := stray ⟨999, 1000, 1⟩) place
  exact ⟨place, start, c, tail, rows, shown, fun same => absurd (below.mp same) (by decide)⟩

end Diagnostic
end ScriptFront
