import ScriptFront.Token.Lexeme

/-!
The tokens and the lexical faults of a whole text, in one pass from left to right. A fault does not
end the pass: reading resumes at the next plausible start of a token.
-/

namespace ScriptFront

/-- The tokens of a text, ended by the end of file, and its lexical errors, both in text order. -/
structure Scan where
  tokens : List Token
  errors : List LexicalError
  deriving DecidableEq, Repr, Inhabited

namespace Scan

/-- Adds what stands at a position in front of what follows it. -/
def push (here : Location) (l : Lexeme) (s : Scan) : Scan where
  tokens := match l.token with
    | some (kind, text) => ⟨kind, text, here⟩ :: s.tokens
    | none => s.tokens
  errors := match l.fault with
    | some fault => ⟨fault, here⟩ :: s.errors
    | none => s.errors

/-- The scan of a text from a position on, after the given number of characters is passed over. -/
def ofChars (skip : Nat) (here : Location) : List Char → Scan
  | [] => ⟨[.endOfFile here], []⟩
  | c :: cs =>
    match skip with
    | n + 1 => ofChars n (here.step c) cs
    | 0 =>
      let l := Lexeme.read c cs
      (ofChars (l.reach cs) (here.step c) cs).push here l

/-- The scan of a source text. -/
def ofText (source : String) : Scan :=
  ofChars 0 .start source.toList

end Scan
end ScriptFront
