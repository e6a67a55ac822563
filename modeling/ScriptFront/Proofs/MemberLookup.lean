import Mathlib.Data.List.Perm.Subperm
import ScriptFront.Proofs.StatementSteps

/-!
Where the members of a class are found. A walk looks each class up by its name in the scopes around
the use, so that it finds in one place what it finds in another as long as the names on the way
stand for the same classes in both. A name that stands for no class ends the walk, and what is
inherited through it is not found.
-/

namespace ScriptFront

/-- What a class is besides the name it is bound to. -/
def ClassEntry.content (c : ClassEntry) : ClassTy × List VariableEntry × List FunctionEntry :=
  (c.type, c.fields, c.methods)

namespace ClassEntry

variable {c d : ClassEntry}

theorem type_of_content (h : c.content = d.content) : c.type = d.type := congrArg (·.1) h

theorem ownMember?_of_content (h : c.content = d.content) (member : String) :
    c.ownMember? member = d.ownMember? member := by
  obtain ⟨_, _, fields, methods, _, _, _⟩ := c
  obtain ⟨_, _, fields', methods', _, _, _⟩ := d
  simp only [content, Prod.mk.injEq] at h
  obtain ⟨-, rfl, rfl⟩ := h
  rfl

end ClassEntry

namespace Scopes

variable {g s : Scopes}

/-! ### The classes above a class -/

/-- The class that a name stands for. -/
def class? (s : Scopes) (name : String) : Option ClassEntry :=
  match s.lookup name with
  | some (.cls c) => some c
  | _ => none

/-- Whether a name stands for a class. -/
def knows (s : Scopes) (name : String) : Bool := (s.class? name).isSome

/-- A member of the class that a name stands for, without the inherited ones. -/
def ownMember? (s : Scopes) (member name : String) : Option (Ty × Modifiers) :=
  (s.class? name).bind (·.ownMember? member)

/-- The names that a walk upwards asks for: up to one that stands for no class or was met. -/
def lineageFrom (s : Scopes) : Nat → List String → String → List String
  | 0, _, _ => []
  | steps + 1, met, name =>
    if met.contains name then []
    else name :: match (s.class? name).bind (·.type.parentName?) with
      | some parent => lineageFrom s steps (name :: met) parent
      | none => []

/-- The names that are asked for from a class upwards. -/
def lineage (s : Scopes) (name : String) : List String := s.lineageFrom (s.size + 1) [] name

theorem memberFrom_eq (member : String) (steps : Nat) (met : List String) (name : String) :
    s.memberFrom member steps met name
      = (s.lineageFrom steps met name).findSome? (s.ownMember? member) := by
  induction steps generalizing met name with
  | zero => rfl
  | succ steps ih =>
      rw [memberFrom, lineageFrom]
      split
      · rfl
      · cases found : s.lookup name with
        | none => simp [class?, ownMember?, found]
        | some e =>
            cases e with
            | var v | param v | func f | named t => simp [class?, ownMember?, found]
            | cls c =>
                have known : s.class? name = some c := by simp only [class?, found]
                simp only [known, List.findSome?_cons, ownMember?, Option.bind_some]
                cases c.ownMember? member with
                | some m => rfl
                | none =>
                    cases c.type.parentName? with
                    | none => rfl
                    | some parent => exact ih (name :: met) parent

theorem classMember_eq (name member : String) :
    s.classMember name member = (s.lineage name).findSome? (s.ownMember? member) :=
  memberFrom_eq member _ [] name

/-! ### Enough steps -/

theorem size_eq (s : Scopes) : s.size = s.entries.length := by
  have sum : ∀ (fs : List Frame) (n : Nat),
      fs.foldl (fun n f => n + f.entries.length) n = n + (fs.flatMap (·.entries)).length := by
    intro fs n
    induction fs generalizing n with
    | nil => rfl
    | cons f fs ih => rw [List.foldl_cons, ih, List.flatMap_cons, List.length_append, Nat.add_assoc]
  rw [size, sum, Nat.zero_add, entries]

/-- No more names are known than there are entries. -/
theorem length_le_size {names : List String} (nodup : names.Nodup)
    (known : ∀ n ∈ names, s.knows n = true) : names.length ≤ s.size := by
  have inside : names ⊆ s.entries.map Entry.name := by
    intro n mem
    have isClass := known n mem
    simp only [knows, class?] at isClass
    split at isClass
    · next found =>
        obtain ⟨present, named⟩ := mem_entries_of_lookup found
        exact List.mem_map.mpr ⟨_, present, named⟩
    · cases isClass
  have fits := (nodup.subperm inside).length_le
  rwa [List.length_map, ← size_eq] at fits

theorem lineageFrom_succ (steps : Nat) {met : List String} (nodup : met.Nodup)
    (known : ∀ n ∈ met, s.knows n = true) (enough : s.size < steps + met.length) (name : String) :
    s.lineageFrom (steps + 1) met name = s.lineageFrom steps met name := by
  induction steps generalizing met name with
  | zero =>
      have fits := length_le_size nodup known
      omega
  | succ steps ih =>
      rw [lineageFrom.eq_def _ (steps + 1 + 1), lineageFrom.eq_def _ (steps + 1)]
      dsimp only
      split
      · rfl
      · next fresh =>
          cases found : s.class? name with
          | none => rfl
          | some c =>
              rw [Option.bind_some]
              cases above : c.type.parentName? with
              | none => rfl
              | some parent =>
                  have here : s.knows name = true := by simp only [knows, found, Option.isSome_some]
                  have known' : ∀ n ∈ name :: met, s.knows n = true :=
                    List.forall_mem_cons.mpr ⟨here, known⟩
                  have nodup' : (name :: met).Nodup :=
                    List.nodup_cons.mpr
                      ⟨fun inside => fresh (List.contains_iff_mem.mpr inside), nodup⟩
                  have room : s.size < steps + (name :: met).length := by
                    rw [List.length_cons]
                    omega
                  exact congrArg (name :: ·) (ih nodup' known' room parent)

/-- More steps than there are entries visit nothing more. -/
theorem lineageFrom_enough {steps : Nat} (enough : s.size < steps) (name : String) :
    s.lineageFrom steps [] name = s.lineage name := by
  induction enough with
  | refl => rfl
  | step enough ih => exact (lineageFrom_succ _ List.nodup_nil nofun enough name).trans ih

/-! ### Other scopes -/

/--
None of some names stands for another class in some scopes than in others. It may be bound there
from an import or not be known at all.
-/
def Unshadowed (g s : Scopes) (names : List String) : Prop :=
  ∀ n ∈ names, ∀ c, s.class? n = some c → ∃ d, g.class? n = some d ∧ c.content = d.content

/-- What is found elsewhere is what stands in front of the first name that is not known there. -/
theorem findSome?_lineageFrom (member : String) (steps : Nat) (met : List String) (name : String)
    (unshadowed : Unshadowed g s (g.lineageFrom steps met name)) :
    (s.lineageFrom steps met name).findSome? (s.ownMember? member)
      = ((g.lineageFrom steps met name).takeWhile s.knows).findSome? (g.ownMember? member) := by
  induction steps generalizing met name with
  | zero => rfl
  | succ steps ih =>
      rw [lineageFrom] at unshadowed
      rw [lineageFrom, lineageFrom]
      split
      · rfl
      · next fresh =>
          rw [if_neg fresh] at unshadowed
          obtain ⟨here, above⟩ := List.forall_mem_cons.mp unshadowed
          cases found : s.class? name with
          | none => simp [ownMember?, knows, found]
          | some c =>
              obtain ⟨d, there, content⟩ := here c found
              have known : s.knows name = true := by simp only [knows, found, Option.isSome_some]
              have own : s.ownMember? member name = g.ownMember? member name := by
                simp only [ownMember?, found, there, Option.bind_some]
                exact ClassEntry.ownMember?_of_content content member
              -- The same class stands here and there, so that both walks go on from one parent.
              rw [there, Option.bind_some] at above
              rw [there, Option.bind_some, Option.bind_some, ClassEntry.type_of_content content,
                List.takeWhile_cons_of_pos known, List.findSome?_cons, List.findSome?_cons, own]
              cases g.ownMember? member name with
              | some m => rfl
              | none =>
                  cases parent : d.type.parentName? with
                  | none => rfl
                  | some parentName =>
                      rw [parent] at above
                      exact ih (name :: met) parentName above

theorem classMember_unshadowed {className : String}
    (unshadowed : Unshadowed g s (g.lineage className)) (member : String) :
    s.classMember className member
      = ((g.lineage className).takeWhile s.knows).findSome? (g.ownMember? member) := by
  -- The two walks have different numbers of steps at hand, and more are enough for both.
  let steps := max g.size s.size + 1
  have here : s.lineageFrom steps [] className = s.lineage className :=
    lineageFrom_enough (Nat.lt_succ_of_le (Nat.le_max_right ..)) className
  have there : g.lineageFrom steps [] className = g.lineage className :=
    lineageFrom_enough (Nat.lt_succ_of_le (Nat.le_max_left ..)) className
  rw [classMember_eq, ← here, ← there]
  exact findSome?_lineageFrom member steps [] className (there ▸ unshadowed)

theorem findSome?_takeWhile_eq_iff {α β : Type} {f : α → Option β} {p : α → Bool} {as : List α} :
    (as.takeWhile p).findSome? f = as.findSome? f ↔
      as.findSome? f = none ∨ ∃ a ∈ as.takeWhile p, (f a).isSome := by
  have parts : as.findSome? f
      = ((as.takeWhile p).findSome? f).or ((as.dropWhile p).findSome? f) := by
    rw [← List.findSome?_append, List.takeWhile_append_dropWhile]
  rw [parts]
  cases found : (as.takeWhile p).findSome? f with
  | some b =>
      obtain ⟨a, inside, here⟩ := List.exists_of_findSome?_eq_some found
      simp only [Option.some_or, true_iff]
      exact .inr ⟨a, inside, by rw [here, Option.isSome_some]⟩
  | none =>
      have nowhere : ¬∃ a ∈ as.takeWhile p, (f a).isSome = true := by
        rintro ⟨a, inside, here⟩
        rw [List.findSome?_eq_none_iff.mp found a inside] at here
        exact Bool.false_ne_true here
      simp only [Option.none_or, nowhere, or_false]
      exact eq_comm

/-! ### The classes that a file declares and imports -/

/-- A class that does not make a name stand for another class than it does in some scopes. -/
def Faithful (g : Scopes) (names : List String) (c : ClassEntry) : Prop :=
  c.name ∈ names → ∃ d, g.class? c.name = some d ∧ c.content = d.content

/-- A class that is imported under its own name is the class that it was. -/
theorem faithful_renamed {e : Entry} {name : String} (h : g.lookup name = some e)
    (names : List String) (place : Location) :
    (e.renamed name place).Conforms (Faithful g names) := by
  intro c isClass _
  cases e with
  | cls d =>
      cases isClass
      exact ⟨d, by simp only [class?, h], rfl⟩
  | var v | param v | func f | named t => cases isClass

/-- A class of any other name stands in for none. -/
theorem faithful_of_not_mem {names : List String} {c : ClassEntry} (h : c.name ∉ names) :
    Faithful g names c := fun mem => absurd mem h

theorem unshadowed_of_conforms {names : List String}
    (h : ∀ e ∈ s.entries, e.Conforms (Faithful g names)) : Unshadowed g s names := by
  intro n mem c known
  unfold class? at known
  split at known
  · next found =>
      cases known
      obtain ⟨present, rfl⟩ := mem_entries_of_lookup found
      exact h _ present c rfl mem
  · cases known

/-! ### Members -/

theorem classMember_of_unshadowed {className : String}
    (unshadowed : Unshadowed g s (g.lineage className)) (member : String) :
    (s.classMember className member = g.classMember className member ∨
        s.classMember className member = none) ∧
      (s.classMember className member = g.classMember className member ↔
        g.classMember className member = none ∨
          ∃ n ∈ (g.lineage className).takeWhile s.knows, (g.ownMember? member n).isSome) := by
  have exactly : ((g.lineage className).takeWhile s.knows).findSome? (g.ownMember? member)
      = (g.lineage className).findSome? (g.ownMember? member) ↔ _ := findSome?_takeWhile_eq_iff
  rw [classMember_unshadowed unshadowed, classMember_eq]
  refine ⟨?_, exactly⟩
  cases found : ((g.lineage className).takeWhile s.knows).findSome? (g.ownMember? member) with
  | none => exact .inr rfl
  | some m =>
      obtain ⟨n, inside, here⟩ := List.exists_of_findSome?_eq_some found
      exact .inl (found ▸ exactly.mpr (.inr ⟨n, inside, by rw [here, Option.isSome_some]⟩))

end Scopes

open Relation Scopes

variable {g : Scopes} {className : String} {Q : Finding → Prop}

/--
Wherever a check gets to without a class of another name in the way, a member is found with the type
and modifiers that it has at the declaration, or it is not found at all. It is found unless the
class that has it, or one below that, is not known by its name.
-/
theorem Checker.classMember_elsewhere {start c : Checker}
    (known : ∀ e ∈ start.scopes.entries, e.Conforms (Faithful g (g.lineage className)))
    (steps : ReflTransGen (Checker.Step (Faithful g (g.lineage className)) Q) start c)
    (member : String) :
    (c.scopes.classMember className member = g.classMember className member ∨
        c.scopes.classMember className member = none) ∧
      (c.scopes.classMember className member = g.classMember className member ↔
        g.classMember className member = none ∨
          ∃ n ∈ (g.lineage className).takeWhile c.scopes.knows,
            (g.ownMember? member n).isSome) := by
  have inScope : ∀ e ∈ c.scopes.entries, e.Conforms (Faithful g (g.lineage className)) :=
    conforms_of_steps steps known
  have unshadowed : Unshadowed g c.scopes (g.lineage className) := unshadowed_of_conforms inScope
  exact classMember_of_unshadowed unshadowed member

/-- A field of a superclass that is not imported is lost, and that of the class itself is not. -/
theorem Checker.field_behind_missing_superclass :
    let field (name : String) : VariableEntry := ⟨name, .int, false, false, .empty, none⟩
    let base : Entry := .cls ⟨"B", .named "B", [field "x"], [], none, .empty, none⟩
    let derived : Entry :=
      .cls ⟨"C", ⟨"C", some (ClassTy.named "B").toTy, [], []⟩, [field "y"], [], none, .empty, none⟩
    let declaring : Scopes := ⟨[], ⟨[base, derived], []⟩⟩
    let start : Checker := ⟨⟨[], .empty⟩, [], false, [], []⟩
    let c : Checker := { start with scopes := ⟨[], ⟨[derived.renamed "C" .nowhere], []⟩⟩ }
    (∀ e ∈ start.scopes.entries, e.Conforms (Faithful declaring (declaring.lineage "C"))) ∧
      ReflTransGen (Checker.Step (Faithful declaring (declaring.lineage "C")) Finding.Local)
        start c ∧
      c.scopes.classMember "C" "y" = declaring.classMember "C" "y" ∧
      c.scopes.classMember "C" "x" ≠ declaring.classMember "C" "x" := by
  intro field base derived declaring start c
  have exported : declaring.lookup "C" = some derived := by rfl
  have lineage : declaring.lineage "C" = ["C", "B"] := by decide
  have known : ∀ e ∈ start.scopes.entries,
      e.Conforms (Faithful declaring (declaring.lineage "C")) := nofun
  have steps : ReflTransGen
      (Checker.Step (Faithful declaring (declaring.lineage "C")) Finding.Local) start c :=
    .single (.define (faithful_renamed exported _ .nowhere) (by rfl))
  have front : (declaring.lineage "C").takeWhile c.scopes.knows = ["C"] := by
    rw [lineage]
    rfl
  refine ⟨known, steps, ?_, fun same => ?_⟩
  · refine (classMember_elsewhere known steps "y").2.mpr (.inr ⟨"C", ?_, by rfl⟩)
    rw [front]
    exact List.mem_singleton_self _
  · rcases (classMember_elsewhere known steps "x").2.mp same with absent | ⟨n, inside, here⟩
    · exact absurd absent (by decide)
    · rw [front, List.mem_singleton] at inside
      subst inside
      exact absurd here (by decide)

/--
In a file that knows a class and its superclasses by their names, or does not know them, and that
declares no other classes of these names, the walk finds in front of every statement what the classes
have whose names are known there.
-/
theorem Check.classMember_in_body {p : Program} {before after : List Statement} {c d : Checker}
    (known : ∀ e ∈ c.scopes.entries, e.Conforms (Faithful g (g.lineage className)))
    (others : p.outline.All (Node.Declares fun c => c.name ∉ g.lineage className))
    (parts : p.body = before ++ after)
    (here : ((do hoist p.body; statements false false before).run c).2 = d) (member : String) :
    d.scopes.classMember className member =
      ((g.lineage className).takeWhile d.scopes.knows).findSome? (g.ownMember? member) := by
  have passes : Passes (fun c => c.name ∉ g.lineage className) Finding.Local
      (do hoist p.body; statements false false before) := by
    have inside : AllOf (Node.Declares fun c => c.name ∉ g.lineage className)
        (statementOutlines before ++ statementOutlines after) := by
      rw [statementOutlines_eq, statementOutlines_eq, ← List.map_append, ← parts]
      exact (allOf_append.mp others.2).2
    rw [parts]
    refine passes_bind (hoist_passes (declares_of_allOf ?_)) fun _ =>
      statements_passes false false before (allOf_append.mp inside).1
    rwa [statementOutlines_eq, List.map_append, ← statementOutlines_eq, ← statementOutlines_eq]
  have steps := passes_mono passes (fun _ => faithful_of_not_mem (g := g)) (fun _ => id) c
  exact classMember_unshadowed
    (unshadowed_of_conforms (here ▸ Checker.conforms_of_steps steps known)) member

end ScriptFront
