import ScriptFront.Grammar.Level

/-!
Chains of operands joined by operators, read by precedence in one pass. Operands that wait for their
right-hand side are kept on a stack until an operator arrives that binds no tighter, so that equal
precedence associates to the left.
-/

namespace ScriptFront

/-- An operator between two operands. -/
inductive ChainOp
  | logical (op : LogicalOp)
  | binary (op : BinaryOp)
  deriving DecidableEq, Repr, Inhabited

namespace ChainOp

/-- How tightly an operator binds. -/
def precedence : ChainOp → Nat
  | logical .or => 1
  | logical .and => 2
  | binary .bitOr => 3
  | binary .bitXor => 4
  | binary .bitAnd => 5
  | binary .equal | binary .notEqual => 6
  | binary .less | binary .lessEqual | binary .greater | binary .greaterEqual => 8
  | binary .shiftLeft | binary .shiftRight | binary .unsignedShiftRight => 9
  | binary .add | binary .subtract => 10
  | binary .multiply | binary .divide | binary .modulo => 11

/-- The expression that an operator makes of its operands. -/
def join (op : ChainOp) (left right : Expr) : ExprForm :=
  match op with
  | logical op => .logical op left right
  | binary op => .binary op left right

/-- The operator that a single token spells. -/
def ofKind? : TokenKind → Option ChainOp
  | .doublePipe => some (logical .or)
  | .doubleAmpersand => some (logical .and)
  | .pipe => some (binary .bitOr)
  | .upArrow => some (binary .bitXor)
  | .ampersand => some (binary .bitAnd)
  | .doubleEqual => some (binary .equal)
  | .bangEqual => some (binary .notEqual)
  | .leftArrow => some (binary .less)
  | .leftArrowEqual => some (binary .lessEqual)
  | .rightArrow => some (binary .greater)
  | .rightArrowEqual => some (binary .greaterEqual)
  | .plus => some (binary .add)
  | .minus => some (binary .subtract)
  | .star => some (binary .multiply)
  | .fwdSlash => some (binary .divide)
  | .percent => some (binary .modulo)
  | _ => none

end ChainOp

/-- The precedence of `is`: looser than comparisons, tighter than equality. -/
def isPrecedence : Nat := 7

namespace Cursor

/-- Whether tokens of a kind are next, the given number of them, with no gap between them. -/
def adjacentRun (s : Cursor) (k : TokenKind) (count : Nat) : Bool :=
  (List.range count).all fun i =>
    (s.peekAt i).kind == k
      && (i == 0 || (s.peekAt i).location.offset == (s.peekAt (i - 1)).location.offset + 1)

theorem adjacentRun_succ (s : Cursor) (k : TokenKind) (n : Nat) :
    s.adjacentRun k (n + 1) = (s.adjacentRun k n && ((s.peekAt n).kind == k
      && (n == 0 || (s.peekAt n).location.offset == (s.peekAt (n - 1)).location.offset + 1))) := by
  simp [adjacentRun, List.range_succ]

/--
The operator that is next, with the number of its tokens. Shifts are spelled with adjacent angle
brackets, which remain separate tokens so that each can also close generic arguments.
-/
def chainOp? (s : Cursor) : Option (ChainOp × Nat) :=
  if s.adjacentRun .leftArrow 2 then some (.binary .shiftLeft, 2)
  else if s.adjacentRun .rightArrow 3 then some (.binary .unsignedShiftRight, 3)
  else if s.adjacentRun .rightArrow 2 then some (.binary .shiftRight, 2)
  else (ChainOp.ofKind? s.peek.kind).map (·, 1)

end Cursor

namespace Grammar

open ScriptFront.Parser

/-- Operands that wait for their right-hand side, the latest first. -/
abbrev Pending := List (Expr × ChainOp)

/-- Joins an operand with the pending ones whose operators bind at least as tightly as given. -/
def fold (g : Grammar) (precedence : Nat) : Pending → Expr → Parser (Pending × Expr)
  | [], right => pure ([], right)
  | (left, op) :: pending, right =>
    if precedence ≤ op.precedence then do
      let joined ← g.node (op.join left right) left.location
      fold g precedence pending joined
    else pure ((left, op) :: pending, right)

/-- The values that an `is` test looks for: a name or an array. -/
def isTarget (g : Grammar) : Parser Expr := do
  let next ← peek
  match next.kind with
  | .identifier =>
    let ident ← name "a name"
    return Expr.of (.identifier ident.text) ident.location
  | .openSquare => g.primary
  | _ => unexpected next "a name or an array literal"

/-- The rest of `subject is any of target`, after `is`. -/
def isTest (g : Grammar) (subject : Expr) : Parser Expr := do
  let t ← advance
  let quantifier ← match t.kind with
    | .keyword .kwAny => pure Quantifier.any
    | .keyword .kwAll => pure Quantifier.all
    | .keyword .kwNone => pure Quantifier.none
    | _ => unexpected t "'any', 'all' or 'none'"
  let _ ← expectKeyword .kwOf "'of'"
  let target ← isTarget g
  g.node (.is subject quantifier target) subject.location

/-- One step of a chain: an `is` test on what was read so far, or an operator and its operand. -/
def chainStep (g : Grammar) (chain : Pending × Expr) : Parser (ForInStep (Pending × Expr)) := do
  if ← checkKeyword .kwIs then
    let (pending, subject) ← fold g isPrecedence chain.1 chain.2
    let _ ← advance
    return .yield (pending, ← isTest g subject)
  else
    match (← get).chainOp? with
    | none => return .done chain
    | some (op, width) =>
      let (pending, left) ← fold g op.precedence chain.1 chain.2
      modify (Nat.repeat Cursor.advance width)
      return .yield ((left, op) :: pending, ← g.operand)

/-- A chain of operands as one expression. -/
def chain (g : Grammar) : Parser Expr := do
  let first ← g.operand
  let (pending, last) ← iterate (chainStep g) ([], first)
  return (← fold g 0 pending last).2

end Grammar
end ScriptFront
