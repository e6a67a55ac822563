import ScriptFront.Scope.Frame

/-!
The scopes around a place in a file: a stack of frames on top of the frame of the file.
-/

namespace ScriptFront

/-- The frames around a place, the innermost first, and the global frame around them all. -/
structure Scopes where
  inner : List Frame
  global : Frame
  deriving Inhabited

namespace Scopes

/-- All frames, the innermost first. -/
def frames (s : Scopes) : List Frame := s.inner ++ [s.global]

/-- What a name stands for: the entry of the innermost frame that declares it. -/
def lookup (s : Scopes) (name : String) : Option Entry :=
  s.frames.findSome? (·.find? name)

/-- Changes the innermost frame. -/
def modifyCurrent (s : Scopes) (f : Frame → Frame) : Scopes :=
  match s.inner with
  | [] => { s with global := f s.global }
  | top :: rest => { s with inner := f top :: rest }

def current (s : Scopes) : Frame := s.inner.headD s.global

/-- Opens a frame inside the innermost one. -/
def enter (s : Scopes) : Scopes := { s with inner := .empty :: s.inner }

/-- Closes the innermost frame. The global frame cannot be closed. -/
def leave? (s : Scopes) : Option Scopes :=
  match s.inner with
  | [] => none
  | _ :: rest => some { s with inner := rest }

/-- Declares an entry in the innermost frame, unless its name is taken there. -/
def define (s : Scopes) (e : Entry) : Except Entry Scopes :=
  match s.current.define e with
  | .ok f => .ok (s.modifyCurrent fun _ => f)
  | .error existing => .error existing

/-- Completes an entry of the innermost frame. -/
def complete (s : Scopes) (e : Entry) : Scopes := s.modifyCurrent (·.complete e)

/-- Records a read in the first frame of a list that declares the name. -/
def markFrames (name : String) : List Frame → Option (List Frame)
  | [] => none
  | f :: fs =>
    if f.declares name then some (f.markUsed name :: fs)
    else (markFrames name fs).map (f :: ·)

/-- Records a read of a name in the innermost frame that declares it. -/
def markUsed (s : Scopes) (name : String) : Scopes :=
  match markFrames name s.inner with
  | some inner => { s with inner := inner }
  | none =>
    if s.global.declares name then { s with global := s.global.markUsed name } else s

/-- The number of entries in all frames. -/
def size (s : Scopes) : Nat := s.frames.foldl (fun n f => n + f.entries.length) 0

end Scopes
end ScriptFront
