import ScriptFront.Proofs.TokenSpelling

/-!
Printed tokens are read back. A text made of the spellings of well-spelled tokens, with a blank
between them, is scanned without error as these tokens; and every text that is scanned without error
holds well-spelled tokens, so that printing these and scanning again changes nothing but their
places.
-/

namespace ScriptFront
namespace Scan

open Lexeme

/-! ### Scans behind a lexeme -/

/-- Characters that are passed over only move the place where the scan goes on. -/
theorem ofChars_append (here : Location) (cs ds : List Char) :
    ofChars cs.length here (cs ++ ds) = ofChars 0 (here.after cs) ds := by
  induction cs generalizing here with
  | nil => rfl
  | cons c cs ih => exact ih (here.step c)

/-- The scan of a text is what stands at its start and the scan of what is not passed over. -/
theorem ofChars_cons (here : Location) (c : Char) (cs : List Char) :
    ofChars 0 here (c :: cs) =
      (ofChars 0 (here.after (c :: cs.take ((read c cs).reach cs)))
        (cs.drop ((read c cs).reach cs))).push here (read c cs) := by
  have within := reach_le (width_read_le c cs)
  have rest := ofChars_append (here.step c) (cs.take ((read c cs).reach cs))
    (cs.drop ((read c cs).reach cs))
  rw [List.take_append_drop, List.length_take_of_le within] at rest
  rw [Location.after_cons, ← rest]
  rfl

/-- What holds at the end of a text, and of a text if it holds behind its lexeme, holds of a scan. -/
theorem ofChars_steps {motive : List Char → List Char → Scan → Prop}
    (ends : ∀ before, motive before [] ⟨[.endOfFile (Location.start.after before)], []⟩)
    (reads : ∀ before c cs s,
      motive (before ++ c :: cs.take ((read c cs).reach cs)) (cs.drop ((read c cs).reach cs)) s →
        motive before (c :: cs) (s.push (Location.start.after before) (read c cs)))
    (before cs : List Char) : motive before cs (ofChars 0 (Location.start.after before) cs) := by
  cases cs with
  | nil => exact ends before
  | cons c cs =>
      rw [ofChars_cons, ← Location.after_append]
      exact reads before c cs _ (ofChars_steps ends reads _ _)
termination_by cs.length
decreasing_by
  simp only [List.length_drop, List.length_cons]
  omega

/-! ### Scans of printed tokens -/

/-- A well-spelled token in front of a blank or the end of the text is scanned as this token. -/
theorem ofChars_spell {kind : TokenKind} {lexeme : String} (h : WellSpelled kind lexeme)
    {ds : List Char} (stops : Stops ds) (here : Location) :
    ofChars 0 here (spell kind lexeme ++ ds) =
      (ofChars 0 (here.after (spell kind lexeme)) ds).push here
        (ofToken kind lexeme.toList ((spell kind lexeme).length - 1)) := by
  obtain ⟨c, tail, text, same⟩ := read_spell stops h
  have reach : (read c (tail ++ ds)).reach (tail ++ ds) = tail.length := by
    rw [same]
    rfl
  rw [text, List.cons_append, ofChars_cons, reach, List.take_left, List.drop_left, same,
    List.length_cons, Nat.add_sub_cancel]

/-- A blank is passed over. -/
theorem ofChars_blank (here : Location) (cs : List Char) :
    ofChars 0 here (' ' :: cs) = ofChars 0 (here.step ' ') cs := rfl

/-- Printed tokens are scanned as what they are, from any place on. -/
theorem ofChars_printed {ts : List (TokenKind × String)} (h : ∀ t ∈ ts, WellSpelled t.1 t.2)
    (here : Location) :
    (ofChars 0 here ([' '].intercalate (ts.map fun t => spell t.1 t.2))).tokens.map Token.content
        = ts ++ [(.eof, "")] ∧
      (ofChars 0 here ([' '].intercalate (ts.map fun t => spell t.1 t.2))).errors = [] := by
  induction ts generalizing here with
  | nil => exact ⟨rfl, rfl⟩
  | cons t ts ih =>
      obtain ⟨first, others⟩ := List.forall_mem_cons.mp h
      have lexeme : String.ofList t.2.toList = t.2 := String.ofList_toList
      cases ts with
      | nil =>
          have alone := ofChars_spell first (.inl rfl) here
          rw [List.append_nil] at alone
          simp [alone, push, ofToken, ofChars, Token.content, Token.endOfFile, lexeme]
      | cons u us =>
          obtain ⟨tokens, errors⟩ := ih others ((here.after (spell t.1 t.2)).step ' ')
          simp only [List.map_cons] at tokens errors ⊢
          rw [List.intercalate_cons_cons, List.append_assoc, List.singleton_append,
            ofChars_spell first (.inr ⟨_, rfl⟩), ofChars_blank]
          refine ⟨?_, errors⟩
          simpa only [push, ofToken, Token.content, lexeme, List.map_cons, List.cons_append,
            List.cons.injEq, true_and] using tokens

/-! ### Tokens of a text without errors -/

/-- A text that is scanned without error holds well-spelled tokens, and then ends. -/
theorem wellSpelled_of_clean (source : String) (h : (ofText source).errors = []) :
    ∃ ts, (∀ t ∈ ts, WellSpelled t.1 t.2) ∧
      (ofText source).tokens.map Token.content = ts ++ [(.eof, "")] := by
  refine ofChars_steps (motive := fun _ _ s => s.errors = [] → ∃ ts,
    (∀ t ∈ ts, WellSpelled t.1 t.2) ∧ s.tokens.map Token.content = ts ++ [(.eof, "")])
    (fun _ _ => ⟨[], List.forall_mem_nil _, rfl⟩) ?_ [] source.toList h
  intro before c cs s ih clean
  cases fault : (read c cs).fault with
  | some fault_ => simp [push, fault] at clean
  | none =>
      simp only [push, fault] at clean ⊢
      obtain ⟨ts, spelled, tokens⟩ := ih clean
      cases token : (read c cs).token with
      | none => exact ⟨ts, spelled, tokens⟩
      | some t =>
          rcases read_token token with ⟨-, stands⟩ | ⟨-, unknown⟩
          · refine ⟨t :: ts, List.forall_mem_cons.mpr ⟨stands.wellSpelled, spelled⟩, ?_⟩
            rw [List.cons_append, ← tokens]
            rfl
          · rw [unknown] at fault
            cases fault

/--
Well-spelled tokens that are printed and scanned are these tokens and the end of file, without an
error; and the tokens of a text that is scanned without error are well-spelled, so that printing
and scanning keeps them.
-/
theorem ofText_printTokens :
    (∀ ts : List (TokenKind × String), (∀ t ∈ ts, WellSpelled t.1 t.2) →
      (ofText (printTokens ts)).tokens.map Token.content = ts ++ [(.eof, "")] ∧
        (ofText (printTokens ts)).errors = []) ∧
    ∀ source : String, (ofText source).errors = [] →
      ∃ ts, (∀ t ∈ ts, WellSpelled t.1 t.2) ∧
        (ofText source).tokens.map Token.content = ts ++ [(.eof, "")] ∧
        (ofText (printTokens ts)).tokens.map Token.content
          = (ofText source).tokens.map Token.content ∧
        (ofText (printTokens ts)).errors = [] := by
  have printed : ∀ ts : List (TokenKind × String), (∀ t ∈ ts, WellSpelled t.1 t.2) →
      (ofText (printTokens ts)).tokens.map Token.content = ts ++ [(.eof, "")] ∧
        (ofText (printTokens ts)).errors = [] := by
    intro ts spelled
    rw [ofText, printTokens, String.toList_ofList]
    exact ofChars_printed spelled .start
  refine ⟨printed, fun source clean => ?_⟩
  obtain ⟨ts, spelled, tokens⟩ := wellSpelled_of_clean source clean
  obtain ⟨same, errors⟩ := printed ts spelled
  exact ⟨ts, spelled, tokens, same.trans tokens.symm, errors⟩

/--
A word that starts like a reserved word, an operator that another one extends, and a string with all
that is escaped are printed and scanned back; and a text that is not as the printer writes it holds
tokens that are.
-/
theorem printed_lookalikes :
    printTokens [(.identifier, "énull_1"), (.null, "null"), (.doubleDot, ".."), (.dot, "."),
        (.number, "0.5"), (.string, "'\"\\\n")] = "énull_1 null .. . 0.5 \"'\\\"\\\\\\n\"" ∧
      ((ofText (printTokens [(.identifier, "énull_1"), (.null, "null"), (.doubleDot, ".."),
          (.dot, "."), (.number, "0.5"), (.string, "'\"\\\n")])).tokens.map Token.content
        = [(.identifier, "énull_1"), (.null, "null"), (.doubleDot, ".."), (.dot, "."),
          (.number, "0.5"), (.string, "'\"\\\n"), (.eof, "")] ∧
      (ofText (printTokens [(.identifier, "énull_1"), (.null, "null"), (.doubleDot, ".."),
          (.dot, "."), (.number, "0.5"), (.string, "'\"\\\n")])).errors = []) ∧
      (ofText "..1.x|>/* > */'\\'\"'").errors = [] ∧
      ∃ ts, (∀ t ∈ ts, WellSpelled t.1 t.2) ∧
        (ofText "..1.x|>/* > */'\\'\"'").tokens.map Token.content = ts ++ [(.eof, "")] ∧
        (ofText (printTokens ts)).tokens.map Token.content
          = (ofText "..1.x|>/* > */'\\'\"'").tokens.map Token.content ∧
        (ofText (printTokens ts)).errors = [] := by
  have clean : (ofText "..1.x|>/* > */'\\'\"'").errors = [] := by decide +kernel
  refine ⟨by decide +kernel, ofText_printTokens.1 _ ?_, clean, ofText_printTokens.2 _ clean⟩
  have free : ¬ IsReserved "énull_1" := by
    rintro (literal | ⟨k, word⟩)
    · exact absurd literal (by decide)
    · cases k <;> exact absurd word (by decide)
  have word : IsWord "énull_1".toList := isWord_of_all (by decide +kernel) (by decide +kernel)
  have zero : IsDigits ['0'] := isDigits_singleton rfl
  have five : IsDigits ['5'] := isDigits_singleton rfl
  simp only [List.forall_mem_cons, List.not_mem_nil, false_imp_iff, implies_true, and_true]
  exact ⟨.identifier word free, .null, .symbol rfl, .symbol rfl, .decimal zero five, .string _⟩

end Scan
end ScriptFront
