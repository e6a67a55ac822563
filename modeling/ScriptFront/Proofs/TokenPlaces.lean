import Mathlib.Data.List.Induction
import ScriptFront.Proofs.PrintedTokens
import ScriptFront.Token.Layout

/-!
Places of tokens and lexical errors. Each marks a whole character of the text by its bytes, its line
and its column; the places of the tokens rise, and so do those of the errors; every token stands at
its place with one of its texts; and the tokens of a text without errors account for all of it, blanks
and whole comments apart. What the places of tokens say about syntax trees is left open.
-/

namespace ScriptFront

open Text

namespace Location

theorem column_after (cs : List Char) :
    (start.after cs).column = 1 + (cs.reverse.takeWhile (· ≠ '\n')).length := by
  induction cs using List.reverseRecOn with
  | nil => rfl
  | append_singleton cs c ih =>
      rw [after_append, after_cons, after_nil, List.reverse_concat]
      by_cases newline : c = '\n'
      · simp [step, newline]
      · simp only [step, newline, if_false, ih, ne_eq, not_false_eq_true, decide_true,
          List.takeWhile_cons_of_pos, List.length_cons]
        omega

/-- The place that reading reaches is the one that is counted. -/
theorem marks_after (before : List Char) : (start.after before).Marks before where
  offset := by rw [offset_after, start, Nat.zero_add]
  line := line_after start before
  column := column_after before

/-- Places behind more characters have a greater offset. -/
theorem Marks.offset_lt {here there : Location} {before taken : List Char} (h : here.Marks before)
    (h' : there.Marks (before ++ taken)) (some_ : taken ≠ []) : here.offset < there.offset := by
  rw [h.offset, h'.offset, String.ofList_append, String.utf8ByteSize_append]
  refine Nat.lt_add_of_pos_right (Nat.pos_of_ne_zero fun empty => some_ ?_)
  rw [String.utf8ByteSize_eq_zero_iff] at empty
  rw [← String.toList_ofList (l := taken), empty]
  rfl

end Location

/-- A gap in front of a text that tokens account for is passed over. -/
theorem Covers.behind {before piece rest : List Char} {ts : List Token}
    (gap : IsGap piece rest) (h : Covers (before ++ piece) rest ts) :
    Covers before (piece ++ rest) ts := by
  cases h with
  | ends gaps marks =>
      rw [List.append_assoc] at marks
      exact .ends (.cons (by rwa [List.append_nil]) gaps) marks
  | token gaps marks hasText others =>
      rw [List.append_assoc] at marks
      rw [List.append_assoc before] at others
      rw [← List.append_assoc]
      exact .token (.cons gap gaps) marks hasText others

namespace Lexeme

/-! ### Gaps -/

section Gaps

variable {c : Char} {cs : List Char}

/-- A block comment takes the first end that it can have. -/
theorem body_of_commentWidth {width : Nat} (h : commentWidth cs = some width) :
    ∃ body rest, cs = body ++ '*' :: '/' :: rest ∧ width = body.length + 2 ∧
      ¬ ['*', '/'] <:+: body := by
  induction cs using commentWidth.induct generalizing width with
  | case1 => cases h
  | case2 cs =>
      cases h
      exact ⟨[], cs, rfl, rfl, by simp⟩
  | case3 c cs open_ ih =>
      rw [commentWidth.eq_3 c cs open_] at h
      obtain ⟨inner, ends, rfl⟩ := Option.map_eq_some_iff.mp h
      obtain ⟨body, rest, rfl, rfl, inside⟩ := ih ends
      refine ⟨c :: body, rest, rfl, rfl, ?_⟩
      rw [List.infix_cons_iff, List.cons_prefix_cons, not_or]
      refine ⟨?_, inside⟩
      rintro ⟨rfl, tail, slash⟩
      rw [← slash] at open_
      exact open_ _ rfl rfl

theorem isGap_lineComment (starts : startsWith (· == '/') cs = true) :
    IsGap ('/' :: cs.take (lineComment cs).width) (cs.drop (lineComment cs).width) := by
  cases cs with
  | nil => cases starts
  | cons d ds =>
      have slash : d = '/' := beq_iff_eq.mp starts
      subst slash
      have line : (lineComment ('/' :: ds)).width = (ds.takeWhile (· != '\n')).length + 1 := rfl
      have rest : (ds.takeWhile (· != '\n') ++ ds.dropWhile (· != '\n')).drop
          (ds.takeWhile (· != '\n')).length = ds.dropWhile (· != '\n') := List.drop_left
      rw [List.takeWhile_append_dropWhile] at rest
      rw [line, List.take_succ_cons, List.drop_succ_cons, rest,
        ← List.prefix_iff_eq_take.mp (List.takeWhile_prefix _)]
      refine .lineComment (fun mem => absurd (List.mem_takeWhile_imp mem) (by decide)) fun c mem => ?_
      have ends := List.head?_dropWhile_not (· != '\n') ds
      rw [Option.mem_def.mp mem] at ends
      simpa using ends

theorem isGap_blockComment (starts : startsWith (· == '*') cs = true)
    (closed : (blockComment cs).fault = none) :
    IsGap ('/' :: cs.take (blockComment cs).width) (cs.drop (blockComment cs).width) := by
  cases cs with
  | nil => cases starts
  | cons d ds =>
      have star : d = '*' := beq_iff_eq.mp starts
      subst star
      simp only [blockComment, List.drop_succ_cons, List.drop_zero] at closed ⊢
      cases ends : commentWidth ds with
      | none =>
          rw [ends] at closed
          cases closed
      | some width =>
          obtain ⟨body, rest, rfl, rfl, inside⟩ := body_of_commentWidth ends
          have taken : body ++ '*' :: '/' :: rest = body ++ ['*', '/'] ++ rest := by simp
          simp only [gap, List.take_succ_cons, taken]
          rw [List.take_left' (by simp)]
          exact .blockComment inside

/-- What is read without a token and without a fault is a blank or a whole comment. -/
theorem isGap_read (token : (read c cs).token = none) (clean : (read c cs).fault = none) :
    IsGap (c :: cs.take (read c cs).width) (cs.drop (read c cs).width) := by
  simp only [read] at token clean ⊢
  split_ifs at token clean ⊢ with blank numeric word_ quote line block
  · exact .blank blank
  · simp only [number_eq] at token clean
    split at token
    · next free =>
        rw [if_pos free] at clean
        cases clean
    · cases token
  · cases token
  · simp only [string] at token clean
    cases body : stringBody c cs with
    | mk content width =>
        cases content with
        | none => simp [body, ofFault] at clean
        | some content => simp [body, ofToken] at token
  · simp only [Bool.and_eq_true, beq_iff_eq] at line
    rw [line.1]
    exact isGap_lineComment line.2
  · simp only [Bool.and_eq_true, beq_iff_eq] at block
    rw [block.1]
    exact isGap_blockComment block.2 clean
  · rcases operator_cases c cs with ⟨kind, text, same, -⟩ | unknown
    · rw [same] at token
      cases token
    · rw [unknown] at token
      cases token

end Gaps

/-! ### Texts -/

section Texts

variable {c : Char} {cs : List Char} {kind : TokenKind} {lexeme : String}

/-- A token that is read has one of its texts there, unknown characters among them. -/
theorem hasText_read (h : (read c cs).token = some (kind, lexeme)) (here : Location) :
    Token.HasText ⟨kind, lexeme, here⟩ (c :: cs.take (read c cs).width) := by
  rcases read_token h with ⟨-, stands⟩ | ⟨rfl, unknown⟩
  · exact stands.hasText here
  · rw [unknown] at h ⊢
    cases h
    exact String.toList_ofList.symm

/-- The end of file is never read off a text. -/
theorem kind_read_ne_eof (h : (read c cs).token = some (kind, lexeme)) : kind ≠ .eof := by
  rcases read_token h with ⟨-, stands⟩ | ⟨rfl, -⟩
  · rintro rfl
    cases stands.wellSpelled with
    | symbol known => cases known
  · rintro ⟨⟩

end Texts

end Lexeme

namespace Scan

open Lexeme

/-! ### Places in general -/

/-- Locations that mark places in a text, each behind the one before it. -/
structure Rising (before cs : List Char) (ls : List Location) : Prop where
  marks : ∀ l ∈ ls, ∃ skipped rest, cs = skipped ++ rest ∧ l.Marks (before ++ skipped)
  rises : (ls.map (·.offset)).Pairwise (· < ·)

theorem rising_nil (before cs : List Char) : Rising before cs [] :=
  ⟨List.forall_mem_nil _, .nil⟩

section Rising

variable {before taken rest : List Char} {ls : List Location}

/-- Places behind the start of a text are places in it. -/
theorem Rising.behind (h : Rising (before ++ taken) rest ls) : Rising before (taken ++ rest) ls where
  marks l mem := by
    obtain ⟨skipped, behind, rfl, marks⟩ := h.marks l mem
    rw [List.append_assoc] at marks
    exact ⟨taken ++ skipped, behind, (List.append_assoc ..).symm, marks⟩
  rises := h.rises

/-- The start of a text is in front of all places behind its first characters. -/
theorem Rising.cons (h : Rising (before ++ taken) rest ls) (some_ : taken ≠ []) :
    Rising before (taken ++ rest) (Location.start.after before :: ls) where
  marks := List.forall_mem_cons.mpr ⟨⟨[], _, rfl, by
    rw [List.append_nil]
    exact Location.marks_after before⟩, h.behind.marks⟩
  rises := by
    refine List.pairwise_cons.mpr ⟨fun offset offset_mem => ?_, h.rises⟩
    obtain ⟨l, mem, rfl⟩ := List.mem_map.mp offset_mem
    obtain ⟨skipped, behind, -, marks⟩ := h.marks l mem
    rw [List.append_assoc] at marks
    exact (Location.marks_after before).offset_lt marks (List.append_ne_nil_of_left_ne_nil some_ _)

end Rising

/-- A scan of a text behind what stands before it has its tokens and errors in place. -/
structure InPlace (before cs : List Char) (s : Scan) : Prop where
  tokens : Rising before cs (s.tokens.map (·.location))
  errors : Rising before cs (s.errors.map (·.location))
  texts : ∀ t ∈ s.tokens, ∃ skipped text rest, cs = skipped ++ (text ++ rest) ∧
    t.location.Marks (before ++ skipped) ∧ t.HasText text
  ends : ∃ ts here, s.tokens = ts ++ [.endOfFile here] ∧ (∀ t ∈ ts, t.kind ≠ .eof) ∧
    here.Marks (before ++ cs)

/-- What is read at the start of a text is in place if all behind it is. -/
theorem InPlace.push {before : List Char} {c : Char} {cs : List Char} {s : Scan}
    (h : InPlace (before ++ c :: cs.take ((read c cs).reach cs)) (cs.drop ((read c cs).reach cs)) s) :
    InPlace before (c :: cs) (s.push (Location.start.after before) (read c cs)) := by
  have split_ : c :: cs = c :: cs.take ((read c cs).reach cs) ++ cs.drop ((read c cs).reach cs) := by
    rw [List.cons_append, List.take_append_drop]
  obtain ⟨ts, here, ends, inside, marks⟩ := h.ends
  rw [List.append_assoc, ← split_] at marks
  have behind : ∀ t ∈ s.tokens, ∃ skipped text rest, c :: cs = skipped ++ (text ++ rest) ∧
      t.location.Marks (before ++ skipped) ∧ t.HasText text := by
    intro t mem
    obtain ⟨skipped, text, rest, same, marks, hasText⟩ := h.texts t mem
    rw [List.append_assoc] at marks
    exact ⟨_, text, rest, by rw [List.append_assoc, ← same, ← split_], marks, hasText⟩
  have errors : Rising before (c :: cs)
      ((s.push (Location.start.after before) (read c cs)).errors.map (·.location)) := by
    rw [split_]
    cases fault : (read c cs).fault with
    | none => simpa only [Scan.push, fault] using h.errors.behind
    | some _ => simpa only [Scan.push, fault, List.map_cons] using h.errors.cons (List.cons_ne_nil _ _)
  cases token : (read c cs).token with
  | none =>
      refine ⟨?_, errors, ?_, ?_⟩
      all_goals simp only [Scan.push, token]
      · rw [split_]
        exact h.tokens.behind
      · exact behind
      · exact ⟨ts, here, ends, inside, marks⟩
  | some t =>
      refine ⟨?_, errors, ?_, ?_⟩
      all_goals simp only [Scan.push, token]
      · rw [split_]
        exact h.tokens.cons (List.cons_ne_nil _ _)
      · refine List.forall_mem_cons.mpr ⟨⟨[], c :: cs.take (read c cs).width,
          cs.drop (read c cs).width, ?_, ?_, hasText_read token _⟩, behind⟩
        · rw [List.nil_append, List.cons_append, List.take_append_drop]
        · rw [List.append_nil]
          exact Location.marks_after before
      · refine ⟨_ :: ts, here, by rw [ends, List.cons_append], ?_, marks⟩
        exact List.forall_mem_cons.mpr ⟨kind_read_ne_eof token, inside⟩

/-- All that is scanned behind a stretch of text is in place. -/
theorem inPlace_ofChars (before cs : List Char) :
    InPlace before cs (ofChars 0 (Location.start.after before) cs) := by
  refine ofChars_steps (motive := InPlace) (fun before => ?_) (fun _ _ _ _ => .push) before cs
  have marks : (Location.start.after before).Marks (before ++ []) := by
    rw [List.append_nil]
    exact Location.marks_after before
  have place : Rising before [] [Location.start.after before] :=
    ⟨List.forall_mem_singleton.mpr ⟨[], [], rfl, marks⟩, List.pairwise_singleton ..⟩
  exact ⟨place, rising_nil before [],
    List.forall_mem_singleton.mpr ⟨[], [], [], rfl, marks, rfl⟩, [], _, rfl, List.forall_mem_nil _, marks⟩

/-! ### Texts without errors -/

/-- The tokens of a text account for it if nothing in it is faulty. -/
theorem covers_ofChars (before cs : List Char)
    (clean : (ofChars 0 (Location.start.after before) cs).errors = []) :
    Covers before cs (ofChars 0 (Location.start.after before) cs).tokens := by
  refine ofChars_steps (motive := fun before cs s => s.errors = [] → Covers before cs s.tokens)
    (fun before _ => ?_) ?_ before cs clean
  · refine .ends .nil ?_
    rw [List.append_nil]
    exact Location.marks_after before
  · intro before c cs s ih clean
    cases fault : (read c cs).fault with
    | some _ => simp [push, fault] at clean
    | none =>
        have reach : (read c cs).reach cs = (read c cs).width := by simp only [Lexeme.reach, fault]
        simp only [push, fault] at clean ⊢
        rw [reach] at ih
        have split_ : c :: cs.take (read c cs).width ++ cs.drop (read c cs).width = c :: cs := by
          rw [List.cons_append, List.take_append_drop]
        cases token : (read c cs).token with
        | none =>
            rw [← split_]
            exact (ih clean).behind (isGap_read token fault)
        | some t =>
            rw [← List.nil_append (c :: cs), ← split_]
            refine .token .nil ?_ (hasText_read token _) ?_
            · rw [List.append_nil]
              exact Location.marks_after before
            · rw [List.append_nil]
              exact ih clean

/--
The tokens of a text end with the only end of file, at the place behind the text. Their offsets rise,
and so do those of the errors. Each location marks a place in the text, and a token has one of its
texts there. If there is no error, nothing but blanks and whole comments stands between tokens.
-/
theorem ofText_places (source : String) :
    (∃ ts here, (ofText source).tokens = ts ++ [.endOfFile here] ∧ (∀ t ∈ ts, t.kind ≠ .eof) ∧
      here.offset = source.utf8ByteSize) ∧
    ((ofText source).tokens.map (·.location.offset)).Pairwise (· < ·) ∧
    ((ofText source).errors.map (·.location.offset)).Pairwise (· < ·) ∧
    (∀ t ∈ (ofText source).tokens, ∃ before text rest, source.toList = before ++ (text ++ rest) ∧
      t.location.Marks before ∧ t.HasText text) ∧
    (∀ e ∈ (ofText source).errors, ∃ before rest, source.toList = before ++ rest ∧
      e.location.Marks before) ∧
    ((ofText source).errors = [] → Covers [] source.toList (ofText source).tokens) := by
  have place : InPlace [] source.toList (ofText source) := inPlace_ofChars [] source.toList
  obtain ⟨ts, here, ends, inside, marks⟩ := place.ends
  have offset : here.offset = source.utf8ByteSize := by
    rw [marks.offset, List.nil_append, String.ofList_toList]
  refine ⟨⟨ts, here, ends, inside, offset⟩, ?_, ?_, place.texts, ?_, covers_ofChars [] source.toList⟩
  · simpa only [List.map_map, Function.comp_def] using place.tokens.rises
  · simpa only [List.map_map, Function.comp_def] using place.errors.rises
  · intro e mem
    exact place.errors.marks e.location (List.mem_map_of_mem mem)

/--
Comments that span lines or hold quotes, an escaped line break in a string, and characters of several
bytes move the places behind them by what they are.
-/
theorem places_behind_comments :
    (ofText "é/* '\n*/.5 'ü\\\n' // \"\nx").errors = [] ∧
      Covers [] "é/* '\n*/.5 'ü\\\n' // \"\nx".toList
        [⟨.identifier, "é", ⟨0, 1, 1⟩⟩, ⟨.number, "0.5", ⟨9, 2, 3⟩⟩, ⟨.string, "ü\n", ⟨12, 2, 6⟩⟩,
          ⟨.identifier, "x", ⟨24, 4, 1⟩⟩, .endOfFile ⟨25, 4, 2⟩] := by
  have clean : (ofText "é/* '\n*/.5 'ü\\\n' // \"\nx").errors = [] := by decide +kernel
  have tokens : (ofText "é/* '\n*/.5 'ü\\\n' // \"\nx").tokens =
      [⟨.identifier, "é", ⟨0, 1, 1⟩⟩, ⟨.number, "0.5", ⟨9, 2, 3⟩⟩, ⟨.string, "ü\n", ⟨12, 2, 6⟩⟩,
        ⟨.identifier, "x", ⟨24, 4, 1⟩⟩, .endOfFile ⟨25, 4, 2⟩] := by decide +kernel
  rw [← tokens]
  exact ⟨clean, (ofText_places _).2.2.2.2.2 clean⟩

end Scan

end ScriptFront
