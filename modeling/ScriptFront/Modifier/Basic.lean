import ScriptFront.Token.Keyword

/-!
Declaration modifiers. Access modifiers exclude each other, and so do the two that forbid writing;
the others combine freely.
-/

namespace ScriptFront

/-- One modifier of a declaration. The order is the one in which modifiers are listed. -/
inductive Modifier
  | public_ | private_ | protected_ | default_ | static | async | operator | final | readonly
  deriving DecidableEq, Repr, Inhabited

namespace Modifier

/-- Every modifier once, in listing order. -/
def all : List Modifier :=
  [public_, private_, protected_, default_, static, async, operator, final, readonly]

/-- The position of a modifier in the listing order. -/
def index : Modifier → Nat
  | public_ => 0 | private_ => 1 | protected_ => 2 | default_ => 3 | static => 4 | async => 5
  | operator => 6 | final => 7 | readonly => 8

/-- The number that stands for a modifier in a set of modifiers. -/
def bit (m : Modifier) : Nat := 1 <<< m.index

/-- The reserved word of a modifier. -/
def keyword : Modifier → Keyword
  | public_ => .kwPublic | private_ => .kwPrivate | protected_ => .kwProtected
  | default_ => .kwDefault | static => .kwStatic | async => .kwAsync | operator => .kwOperator
  | final => .kwFinal | readonly => .kwReadonly

def name (m : Modifier) : String := m.keyword.word

/-- The modifier that a reserved word names. -/
def ofKeyword? (k : Keyword) : Option Modifier :=
  all.find? fun m => m.keyword == k

/-- The modifiers of which a declaration carries at most one, for those that exclude others. -/
def group : Modifier → List Modifier
  | public_ | private_ | protected_ | default_ => [public_, private_, protected_, default_]
  | final | readonly => [final, readonly]
  | static | async | operator => []

end Modifier

/-- A set of modifiers. -/
structure Modifiers where
  bits : BitVec 9
  deriving DecidableEq, Repr, Inhabited

namespace Modifiers

/-- The set without modifiers. -/
def empty : Modifiers := ⟨0⟩

/-- Whether a modifier is in the set. -/
def has (ms : Modifiers) (m : Modifier) : Bool := ms.bits.getLsbD m.index

/-- Puts a modifier into the set. -/
def set (ms : Modifiers) (m : Modifier) : Modifiers :=
  ⟨ms.bits ||| BitVec.twoPow 9 m.index⟩

/-- Takes a modifier out of the set. -/
def clear (ms : Modifiers) (m : Modifier) : Modifiers :=
  ⟨ms.bits &&& ~~~(BitVec.twoPow 9 m.index)⟩

def isEmpty (ms : Modifiers) : Bool := ms.bits == 0

/-- The modifiers in the set, in listing order. -/
def toList (ms : Modifiers) : List Modifier := Modifier.all.filter ms.has

/-- The first modifier in the set that excludes a given other one. -/
def conflict? (ms : Modifiers) (m : Modifier) : Option Modifier :=
  m.group.find? fun other => other != m && ms.has other

/-- The names of the modifiers in the set. -/
def display (ms : Modifiers) : String :=
  " ".intercalate (ms.toList.map Modifier.name)

theorem has_empty (m : Modifier) : empty.has m = false := by
  cases m <;> rfl

theorem has_set (ms : Modifiers) (m n : Modifier) :
    (ms.set m).has n = (ms.has n || m == n) := by
  have h : (BitVec.twoPow 9 m.index).getLsbD n.index = (m == n) := by
    cases m <;> cases n <;> rfl
  simp [has, set, h]

theorem has_clear (ms : Modifiers) (m n : Modifier) :
    (ms.clear m).has n = (ms.has n && m != n) := by
  have h : decide (n.index = m.index) = (m == n) := by
    cases m <;> cases n <;> rfl
  have hn : n.index < 9 := by cases n <;> decide
  simp [has, clear, h, hn, bne]

end Modifiers
end ScriptFront
