import Mathlib.Logic.Relation
import ScriptFront.Phase.Analysis
import ScriptFront.Proofs.Completion

/-!
What checks are made of. A check, down to those of each expression, pattern and type, works in
single steps: it reports a finding, opens, leaves or changes a scope, or goes on in another class.
The classes that it declares are those of the program, and what it reports is not about imports,
unless it binds one. Which steps a check takes, and in which order, is left open.
-/

namespace ScriptFront

/-! ### Findings -/

/-- Errors about imports as such. -/
def SemanticFault.IsImport : SemanticFault → Prop
  | .importNotFound _ | .circularImport _ | .importFailed .. | .missingExport .. => True
  | _ => False

/-- Findings that are not errors about imports. -/
def Finding.Local : Finding → Prop
  | .error e => ¬ e.fault.IsImport
  | .warning .. => True

/-- Findings that are not about cycles of imports. -/
def Finding.Acyclic (f : Finding) : Prop := f.kind ≠ .circularImport

theorem Finding.Local.acyclic {f : Finding} (h : f.Local) : f.Acyclic := by
  cases f with
  | error e =>
      intro hk
      obtain ⟨fault, place⟩ := e
      cases fault <;>
        simp_all [Local, kind, SemanticFault.kind, SemanticFault.IsImport]
  | warning w place => cases w <;> simp [Acyclic, kind, Warning.kind]

/-! ### Single steps -/

/-- The classes that a node declares are all of one kind, whatever they are besides their names. -/
def Node.Declares (ok : ClassEntry → Prop) (n : Node) : Prop :=
  ∀ d place, n = .statement ⟨.classType d, place⟩ → ∀ c : ClassEntry, c.name = d.name.text → ok c

/-- If an entry is one of a class, the class is of one kind. -/
def Entry.Conforms (ok : ClassEntry → Prop) (e : Entry) : Prop := ∀ c, e = .cls c → ok c

/-- What a check does at once, where findings have one property and declared classes another one. -/
inductive Checker.Step (ok : ClassEntry → Prop) (Q : Finding → Prop) : Checker → Checker → Prop
  | report (c : Checker) {f : Finding} (h : Q f) :
      Step ok Q c { c with findings := c.findings ++ [f] }
  | enter (c : Checker) : Step ok Q c { c with scopes := c.scopes.enter }
  | leave {c : Checker} {s : Scopes} (h : c.scopes.leave? = some s) :
      Step ok Q c { c with scopes := s }
  | read (c : Checker) (name : String) : Step ok Q c { c with scopes := c.scopes.markUsed name }
  | define {c : Checker} {s : Scopes} {e : Entry} (conforms : e.Conforms ok)
      (h : c.scopes.define e = .ok s) : Step ok Q c { c with scopes := s }
  | complete (c : Checker) {e : Entry} (conforms : e.Conforms ok) :
      Step ok Q c { c with scopes := c.scopes.complete e }
  | goOn (c : Checker) (classes : List ClassEntry) (inConstructor : Bool)
      (imported : List (String × Location)) :
      Step ok Q c
        { c with classes := classes, inConstructor := inConstructor, imported := imported }

/-! ### Entries of all scopes -/

namespace Scopes

/-- The entries of all frames, the innermost first. -/
def entries (s : Scopes) : List Entry := s.frames.flatMap (·.entries)

theorem entries_eq (s : Scopes) :
    s.entries = s.current.entries ++ s.outer.flatMap (·.entries) := by
  rw [entries, frames_eq, List.flatMap_cons]

theorem entries_leave {s t : Scopes} (h : s.leave? = some t) : t.entries ⊆ s.entries := by
  unfold leave? at h
  split at h
  · cases h
  · next inner =>
      cases h
      rw [entries, entries, frames, frames, inner, List.cons_append, List.flatMap_cons]
      exact List.subset_append_right _ _

theorem entries_markUsed (s : Scopes) (name : String) : (s.markUsed name).entries = s.entries := by
  have marked (f : Frame) : (f.markUsed name).entries = f.entries := by
    unfold Frame.markUsed
    split <;> rfl
  have all (fs fs' : List Frame) (h : markFrames name fs = some fs') :
      fs'.flatMap (·.entries) = fs.flatMap (·.entries) := by
    induction fs generalizing fs' with
    | nil => cases h
    | cons f fs ih =>
        unfold markFrames at h
        split at h
        · cases h
          rw [List.flatMap_cons, List.flatMap_cons, marked]
        · obtain ⟨rest, found, rfl⟩ := Option.map_eq_some_iff.mp h
          rw [List.flatMap_cons, List.flatMap_cons, ih rest found]
  unfold markUsed
  split
  · next inner found =>
      rw [entries, entries, frames, frames, List.flatMap_append, List.flatMap_append,
        all _ _ found]
  · split
    · rw [entries, entries, frames, frames, List.flatMap_append, List.flatMap_append,
        List.flatMap_singleton, List.flatMap_singleton, marked]
    · rfl

theorem entries_define {s t : Scopes} {e : Entry} (h : s.define e = .ok t) :
    t.entries ⊆ e :: s.entries := by
  have outer : t.outer = s.outer := by
    unfold define at h
    split at h <;> cases h
    exact outer_modifyCurrent _ _
  have current : t.current.entries = s.current.entries ++ [e] := by
    have new := current_define h
    unfold Frame.define at new
    split at new
    · cases new
    · rw [← Except.ok.inj new]
  rw [entries_eq, entries_eq s, outer, current]
  intro a mem
  simpa [or_left_comm, or_assoc] using mem

theorem entries_complete (s : Scopes) (e : Entry) : (s.complete e).entries ⊆ e :: s.entries := by
  rw [entries_eq, entries_eq s, current_complete, complete, outer_modifyCurrent]
  intro a mem
  rcases List.mem_append.mp mem with here | around
  · obtain ⟨old, inside, rfl⟩ := List.mem_map.mp here
    split
    · exact List.mem_cons_self ..
    · exact List.mem_cons_of_mem _ (List.mem_append_left _ inside)
  · exact List.mem_cons_of_mem _ (List.mem_append_right _ around)

theorem mem_entries_of_lookup {s : Scopes} {name : String} {e : Entry}
    (h : s.lookup name = some e) : e ∈ s.entries ∧ e.name = name := by
  obtain ⟨f, inside, found⟩ := List.exists_of_findSome?_eq_some h
  have named := List.find?_some found
  exact ⟨List.mem_flatMap.mpr ⟨f, inside, List.mem_of_find?_eq_some found⟩, beq_iff_eq.mp named⟩

end Scopes

namespace Checker

variable {ok : ClassEntry → Prop} {Q : Finding → Prop} {c d : Checker}

/-- A step keeps the classes in scope of one kind. -/
theorem Step.conforms (h : Step ok Q c d) (known : ∀ e ∈ c.scopes.entries, e.Conforms ok) :
    ∀ e ∈ d.scopes.entries, e.Conforms ok := by
  cases h with
  | report | goOn | enter => exact known
  | leave out => exact fun e mem => known e (Scopes.entries_leave out mem)
  | read name =>
      dsimp only
      rwa [Scopes.entries_markUsed]
  | define conforms new =>
      exact fun e mem =>
        List.forall_mem_cons.mpr ⟨conforms, known⟩ e (Scopes.entries_define new mem)
  | complete conforms =>
      exact fun e mem =>
        List.forall_mem_cons.mpr ⟨conforms, known⟩ e (Scopes.entries_complete _ _ mem)

/-- A check keeps the classes in scope of one kind. -/
theorem conforms_of_steps (h : Relation.ReflTransGen (Step ok Q) c d)
    (known : ∀ e ∈ c.scopes.entries, e.Conforms ok) :
    ∀ e ∈ d.scopes.entries, e.Conforms ok := by
  induction h with
  | refl => exact known
  | tail _ step ih => exact step.conforms ih

end Checker

namespace Check

open Relation

variable {α β : Type} {ok : ClassEntry → Prop} {Q : Finding → Prop}

/-- A check goes from where it starts to where it ends in single steps. -/
def Passes (ok : ClassEntry → Prop) (Q : Finding → Prop) (m : Check α) : Prop :=
  ∀ c, ReflTransGen (Checker.Step ok Q) c (m.run c).2

theorem passes_mono {ok' : ClassEntry → Prop} {Q' : Finding → Prop} {m : Check α}
    (h : Passes ok Q m) (hok : ∀ c, ok c → ok' c) (hQ : ∀ f, Q f → Q' f) : Passes ok' Q' m := by
  intro c
  refine ReflTransGen.mono (fun b d step => ?_) _ _ (h c)
  cases step with
  | report good => exact .report _ (hQ _ good)
  | enter => exact .enter _
  | leave out => exact .leave out
  | read name => exact .read _ name
  | define conforms new => exact .define (fun c h => hok c (conforms c h)) new
  | complete conforms => exact .complete _ fun c h => hok c (conforms c h)
  | goOn classes inConstructor imported => exact .goOn _ classes inConstructor imported

theorem passes_of_same {m : Check α} (h : ∀ c, (m.run c).2 = c) : Passes ok Q m := by
  intro c
  rw [h c]

theorem passes_pure (a : α) : Passes ok Q (pure a : Check α) := passes_of_same fun _ => rfl

theorem passes_get : Passes ok Q (get : Check Checker) := passes_of_same fun _ => rfl

theorem passes_modify_of {f : Checker → Checker}
    (h : ∀ c, ReflTransGen (Checker.Step ok Q) c (f c)) : Passes ok Q (modify f : Check Unit) := h

theorem passes_modify {f : Checker → Checker} (h : ∀ c, Checker.Step ok Q c (f c)) :
    Passes ok Q (modify f : Check Unit) := passes_modify_of fun c => .single (h c)

theorem passes_bind {m : Check α} {f : α → Check β} (hm : Passes ok Q m)
    (hf : ∀ a, Passes ok Q (f a)) : Passes ok Q (m >>= f) :=
  fun c => (hm c).trans (hf (m.run c).1 (m.run c).2)

theorem run_meaning_bind (f : Meaning → Check α) (c : Checker) :
    (meaning >>= f).run c = (f c.scopes.lookup).run c := rfl

theorem run_get_bind (f : Checker → Check α) (c : Checker) :
    (get >>= f).run c = (f c).run c := rfl

/-- A check that starts with a look at what is kept track of goes on from there. -/
theorem passes_get_bind {f : Checker → Check α}
    (h : ∀ c, ReflTransGen (Checker.Step ok Q) c ((f c).run c).2) : Passes ok Q (get >>= f) := h

theorem passes_map {m : Check α} (f : α → β) (hm : Passes ok Q m) : Passes ok Q (f <$> m) :=
  passes_bind hm fun _ => passes_pure _

theorem passes_forM {l : List α} {f : α → Check Unit} (h : ∀ a ∈ l, Passes ok Q (f a)) :
    Passes ok Q (l.forM f) := by
  induction l with
  | nil => exact passes_pure _
  | cons a l ih =>
      exact passes_bind (h a (by simp)) fun _ => ih fun b hb => h b (by simp [hb])

/-! ### Steps of all checks -/

theorem error_passes {fault : SemanticFault} {place : Location} (h : Q (.error ⟨fault, place⟩)) :
    Passes ok Q (error fault place) := passes_modify fun c => .report c h

theorem warn_passes (w : Warning) (place : Location) : Passes ok Finding.Local (warn w place) :=
  passes_modify fun c => .report c trivial

theorem meaning_passes : Passes ok Q meaning := passes_of_same fun _ => rfl

theorem lookup_passes (name : String) : Passes ok Q (lookup name) := passes_of_same fun _ => rfl

theorem readName_passes (name : String) : Passes ok Q (readName name) :=
  passes_bind (lookup_passes name) fun _ =>
    passes_bind (passes_modify fun c => .read c name) fun _ => passes_pure _

theorem resolveName_passes (name : String) (place : Location) :
    Passes ok Finding.Local (resolveName name place) := by
  refine passes_bind (readName_passes name) fun entry => ?_
  split
  · exact passes_bind (error_passes id) fun _ => passes_pure _
  · exact passes_pure _

theorem declare_passes {e : Entry} (conforms : e.Conforms ok) (place : Location) :
    Passes ok Finding.Local (declare e place) := by
  refine passes_get_bind fun c => ?_
  split
  · next free => exact .single (.define conforms free)
  · exact error_passes id c

theorem declareGenerics_passes (generics : List Ident) :
    Passes ok Finding.Local (declareGenerics generics) :=
  passes_forM fun _ _ => declare_passes nofun _

theorem declareImport_passes {e : Entry} (conforms : e.Conforms ok) (tracked : Bool) :
    Passes ok Finding.Local (declareImport e tracked) := by
  unfold declareImport
  split
  · exact passes_bind (passes_modify fun c => .goOn c _ _ _) fun _ => declare_passes conforms _
  · exact declare_passes conforms _

theorem enterScope_passes : Passes ok Q enterScope := passes_modify .enter

theorem leaveScope_passes : Passes ok Finding.Local leaveScope := by
  refine passes_get_bind fun c => ?_
  split
  · next out => exact .single (.leave out)
  · exact error_passes id c

theorem leaveLocalScope_passes : Passes ok Finding.Local leaveLocalScope :=
  passes_bind passes_get fun _ =>
    passes_bind (passes_forM fun _ _ => warn_passes _ _) fun _ => leaveScope_passes

/-- An outcome in which every error has a property. -/
def Fails (P : SemanticError → Prop) (x : Except SemanticError α) : Prop :=
  ∀ e, x = .error e → P e

theorem fails_ok {P : SemanticError → Prop} (a : α) : Fails P (.ok a : Except SemanticError α) :=
  fun _ h => by cases h

theorem fails_bind {P : SemanticError → Prop} {x : Except SemanticError α}
    {f : α → Except SemanticError β} (hx : Fails P x) (hf : ∀ a, Fails P (f a)) :
    Fails P (x >>= f) := by
  intro e h
  cases x with
  | error e' => exact hx e (by cases h; rfl)
  | ok a => exact hf a e h

mutual

/-- A written type that denotes nothing has a name that is no type. -/
theorem typeExpr_error_local (m : Meaning) :
    ∀ t : TypeExpr, Fails (fun e => ¬ e.fault.IsImport) (t.resolve m)
  | ⟨form, place⟩ => typeForm_error_local m place form

theorem typeForm_error_local (m : Meaning) (place : Location) :
    ∀ form : TypeForm, Fails (fun e => ¬ e.fault.IsImport) (form.resolve m place)
  | .reference name generics => by
      refine fails_bind (resolveAll_error_local m generics) fun arguments => ?_
      split
      · exact fails_ok _
      · intro e h
        cases h
        exact id
  | .array t => fails_bind (typeExpr_error_local m t) fun _ => fails_ok _
  | .union l r | .intersection l r =>
      fails_bind (typeExpr_error_local m l) fun _ =>
        fails_bind (typeExpr_error_local m r) fun _ => fails_ok _
  | .infer | .void | .null | .undefined => fails_ok _

theorem resolveAll_error_local (m : Meaning) :
    ∀ ts : List TypeExpr, Fails (fun e => ¬ e.fault.IsImport) (resolveAll m ts)
  | [] => fails_ok _
  | t :: ts =>
      fails_bind (typeExpr_error_local m t) fun _ =>
        fails_bind (resolveAll_error_local m ts) fun _ => fails_ok _

end

theorem resolveType_passes (t : TypeExpr) : Passes ok Finding.Local (resolveType t) := by
  refine passes_bind meaning_passes fun m => ?_
  cases h : t.resolve m with
  | ok ty => exact passes_pure _
  | error e =>
      exact passes_bind (error_passes (typeExpr_error_local m t e h)) fun _ => passes_pure _

theorem assignable_passes (found expected : Ty) (place : Location) :
    Passes ok Finding.Local (assignable found expected place) := by
  unfold assignable
  split
  · exact error_passes id
  · exact passes_pure _

theorem assignable?_passes (found expected : Option Ty) (place : Location) :
    Passes ok Finding.Local (assignable? found expected place) := by
  unfold assignable?
  split
  · exact assignable_passes _ _ _
  · exact passes_pure _

/-! ### Members and expressions -/

theorem classMember_passes (className member : String) :
    Passes ok Q (classMember className member) := passes_of_same fun _ => rfl

theorem thisType_passes : Passes ok Q thisType := passes_of_same fun _ => rfl

theorem objectType_passes (object : Expr) : Passes ok Q (objectType object) := by
  unfold objectType
  split
  · exact thisType_passes
  · exact passes_bind (lookup_passes _) fun _ => passes_pure _
  · exact passes_pure _

theorem writable_passes (target : Expr) : Passes ok Finding.Local (writable target) := by
  unfold writable
  split
  · refine passes_bind (lookup_passes _) fun entry => ?_
    split
    · exact error_passes id
    · exact passes_pure _
  · refine passes_bind (objectType_passes _) fun object => ?_
    split
    · refine passes_bind (classMember_passes _ _) fun found => ?_
      split
      · refine passes_bind passes_get fun c => ?_
        dsimp only
        split
        · exact error_passes id
        · exact passes_pure _
      · exact passes_pure _
    · exact passes_pure _
  · exact passes_pure _

theorem call_passes (name : String) (callee : Ty) (count : Nat) (place : Location) :
    Passes ok Finding.Local (call name callee count place) := by
  unfold call
  split
  · dsimp only
    split
    · exact passes_bind (error_passes id) fun _ => passes_pure _
    · exact passes_pure _
  · exact passes_pure _

theorem memberType_passes (object : Option Ty) (property : Expr) :
    Passes ok Q (memberType object property) := by
  unfold memberType
  split
  · exact passes_bind (classMember_passes _ _) fun _ => passes_pure _
  · exact passes_pure _
  · exact passes_pure _

theorem created_passes (className : Ident) (generics : List Ty) (count : Nat) (place : Location) :
    Passes ok Finding.Local (created className generics count place) := by
  refine passes_bind (resolveName_passes _ _) fun entry => ?_
  split
  · dsimp only
    split
    · exact passes_bind (call_passes _ _ _ _) fun _ => passes_pure _
    · exact passes_pure _
  · exact passes_bind (error_passes id) fun _ => passes_pure _
  · exact passes_pure _

theorem genericTypes_passes : ∀ ts : List TypeExpr, Passes ok Finding.Local (genericTypes ts)
  | [] => passes_pure _
  | t :: ts =>
      passes_bind (resolveType_passes t) fun _ =>
        passes_bind (genericTypes_passes ts) fun _ => passes_pure _

mutual

theorem expr_passes : ∀ e : Expr, Passes ok Finding.Local (expr e)
  | ⟨form, place, _⟩ => exprForm_passes place form

theorem exprForm_passes (place : Location) :
    ∀ form : ExprForm, Passes ok Finding.Local (exprForm place form)
  | .number .. | .string _ | .boolean _ | .null | .undefined | .nan => passes_pure _
  | .identifier name => passes_map _ (resolveName_passes name place)
  | .this => by
      refine passes_bind thisType_passes fun t => ?_
      dsimp only
      split
      · exact passes_bind (error_passes id) fun _ => passes_pure _
      · exact passes_pure _
  | .binary op left right => by
      refine passes_bind (expr_passes left) fun l => passes_bind (expr_passes right) fun r => ?_
      split
      · exact passes_pure _
      · exact passes_pure _
  | .logical _ left right =>
      passes_bind (expr_passes left) fun _ =>
        passes_bind (expr_passes right) fun _ => passes_pure _
  | .conditional test yes no =>
      passes_bind (expr_passes test) fun _ =>
        passes_bind (expr_passes yes) fun _ =>
          passes_bind (expr_passes no) fun _ => passes_pure _
  | .unary op operand => by
      refine passes_bind (expr_passes operand) fun t => ?_
      split
      · exact passes_pure _
      · exact passes_pure _
  | .update _ _ operand =>
      passes_bind (expr_passes operand) fun _ =>
        passes_bind (writable_passes operand) fun _ => passes_pure _
  | .await operand => expr_passes operand
  | .call callee generics args => by
      refine passes_bind (genericTypes_passes generics) fun _ =>
        passes_bind (exprs_passes args) fun _ => ?_
      split
      · refine passes_bind (readName_passes _) fun entry => ?_
        split
        · exact call_passes _ _ _ _
        · exact passes_bind (error_passes id) fun _ => passes_pure _
      · refine passes_bind (expr_passes callee) fun t => ?_
        split
        · exact call_passes _ _ _ _
        · exact passes_pure _
      · exact passes_bind (expr_passes callee) fun _ => passes_pure _
  | .member object property computed => by
      refine passes_bind (expr_passes object) fun o => ?_
      split
      · exact passes_bind (expr_passes property) fun _ => passes_pure _
      · exact memberType_passes _ _
  | .array items => passes_bind (exprs_passes items) fun _ => passes_pure _
  | .object properties => passes_bind (propertyTypes_passes properties) fun _ => passes_pure _
  | .new className generics args =>
      passes_bind (genericTypes_passes generics) fun _ =>
        passes_bind (exprs_passes args) fun _ => created_passes _ _ _ _
  | .match_ value arms =>
      passes_bind (expr_passes value) fun subject =>
        passes_bind (armTypes_passes subject arms) fun _ => passes_pure _
  | .is subject _ target =>
      passes_bind (expr_passes subject) fun _ =>
        passes_bind (expr_passes target) fun _ => passes_pure _

theorem exprs_passes : ∀ es : List Expr, Passes ok Finding.Local (exprs es)
  | [] => passes_pure _
  | e :: es =>
      passes_bind (expr_passes e) fun _ => passes_bind (exprs_passes es) fun _ => passes_pure _

theorem propertyTypes_passes : ∀ ps : List Property, Passes ok Finding.Local (propertyTypes ps)
  | [] => passes_pure _
  | ⟨_, value, _⟩ :: ps =>
      passes_bind (expr_passes value) fun _ =>
        passes_bind (propertyTypes_passes ps) fun _ => passes_pure _

theorem armTypes_passes (subject : Option Ty) :
    ∀ arms : List MatchArm, Passes ok Finding.Local (armTypes subject arms)
  | [] => passes_pure _
  | ⟨p, body, _⟩ :: arms =>
      passes_bind enterScope_passes fun _ =>
        passes_bind (pattern_passes subject p) fun _ =>
          passes_bind (expr_passes body) fun _ =>
            passes_bind leaveLocalScope_passes fun _ =>
              passes_bind (armTypes_passes subject arms) fun _ => passes_pure _

theorem pattern_passes (subject : Option Ty) :
    ∀ p : Pattern, Passes ok Finding.Local (pattern subject p)
  | ⟨form, place⟩ => patternForm_passes subject place form

theorem patternForm_passes (subject : Option Ty) (place : Location) :
    ∀ form : PatternForm, Passes ok Finding.Local (patternForm subject place form)
  | .literal _ | .range .. | .wildcard => passes_pure _
  | .identifier name => passes_bind (resolveName_passes name place) fun _ => passes_pure _
  | .member path => by
      unfold patternForm
      split
      · exact passes_bind (resolveName_passes _ place) fun _ => passes_pure _
      · exact passes_pure _
  | .binding name => declare_passes nofun _
  | .guarded p guard =>
      passes_bind (pattern_passes subject p) fun _ =>
        passes_bind (expr_passes guard) fun _ => passes_pure _

end

end Check
end ScriptFront
