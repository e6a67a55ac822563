/-!
Cutting a text at a separator, and into lines.
-/

namespace ScriptFront.Text

/-- The pieces between the separators of a text: one more than there are separators. -/
def splitAt (sep : Char) : List Char → List (List Char)
  | [] => [[]]
  | c :: cs =>
    if c = sep then [] :: splitAt sep cs
    else match splitAt sep cs with
      | [] => [[c]]
      | piece :: pieces => (c :: piece) :: pieces

/-- A line without the carriage return of its line break. -/
def dropReturn (line : List Char) : List Char :=
  if line.getLast? = some '\r' then line.dropLast else line

/-- The lines among the pieces between line feeds: the last piece counts only if it holds text. -/
def linesOfPieces : List (List Char) → List (List Char)
  | [] => []
  | [last] => if last.isEmpty then [] else [last]
  | piece :: pieces => dropReturn piece :: linesOfPieces pieces

/--
The lines of a text. A line ends at a line feed, which may follow a carriage return, or at the end
of the text.
-/
def lines (text : List Char) : List (List Char) :=
  linesOfPieces (splitAt '\n' text)

theorem splitAt_ne_nil (sep : Char) (cs : List Char) : splitAt sep cs ≠ [] := by
  cases cs with
  | nil => simp [splitAt]
  | cons c cs =>
    rw [splitAt]
    split
    · simp
    · split <;> simp

/-- There is one piece more than there are separators. -/
theorem length_splitAt (sep : Char) (cs : List Char) : (splitAt sep cs).length = cs.count sep + 1 := by
  induction cs with
  | nil => rfl
  | cons c cs ih =>
      rw [splitAt]
      split
      · next found => rw [List.length_cons, ih, found, List.count_cons_self]
      · next other =>
          rw [List.count_cons_of_ne other]
          split
          · next none_ => exact absurd none_ (splitAt_ne_nil sep cs)
          · next piece pieces cut =>
              rw [cut] at ih
              rw [← ih]
              rfl

/-- Nothing is cut anew where two texts are put together with a separator between them. -/
theorem splitAt_append (sep : Char) (text rest : List Char) :
    splitAt sep (text ++ sep :: rest) = splitAt sep text ++ splitAt sep rest := by
  induction text with
  | nil => simp [splitAt]
  | cons c cs ih =>
      rw [List.cons_append, splitAt, splitAt]
      split
      · rw [ih, List.cons_append]
      · rw [ih]
        cases pieces : splitAt sep cs with
        | nil => exact absurd pieces (splitAt_ne_nil sep cs)
        | cons piece more => rfl

theorem splitAt_eq_singleton {sep : Char} {piece : List Char} (h : sep ∉ piece) :
    splitAt sep piece = [piece] := by
  induction piece with
  | nil => rfl
  | cons c cs ih =>
      have hc : c ≠ sep := fun e => h (by simp [e])
      rw [splitAt, if_neg hc, ih fun m => h (by simp [m])]

theorem splitAt_append_cons {sep : Char} {piece : List Char} (h : sep ∉ piece)
    (rest : List Char) : splitAt sep (piece ++ sep :: rest) = piece :: splitAt sep rest := by
  rw [splitAt_append, splitAt_eq_singleton h, List.singleton_append]

theorem sep_not_mem_of_mem_splitAt {sep : Char} {text piece : List Char}
    (h : piece ∈ splitAt sep text) : sep ∉ piece := by
  induction text generalizing piece with
  | nil => simp_all [splitAt]
  | cons c cs ih =>
      rw [splitAt] at h
      split at h
      · rcases List.mem_cons.mp h with rfl | h
        · simp
        · exact ih h
      · rename_i hc
        split at h
        · rename_i he
          exact absurd he (splitAt_ne_nil sep cs)
        · rename_i first pieces he
          rcases List.mem_cons.mp h with rfl | h
          · have notIn : sep ∉ first := ih (by simp [he])
            simp [notIn, Ne.symm hc]
          · exact ih (by simp [he, h])

end ScriptFront.Text
