import ScriptFront.Proofs.CheckSteps
import ScriptFront.Proofs.Completion

/-!
The steps of the checks of statements, programs and imports. The classes that they declare are those
of the program that is checked, or are bound by its imports.
-/

namespace ScriptFront
namespace Check

open Relation

variable {ok : ClassEntry → Prop} {Q : Finding → Prop}

/-! ### Declarations ahead and statements -/

theorem conforms_provisional {s : Statement} {name : Ident} {e : Entry}
    (h : (Node.statement s).Declares ok) (ahead : s.provisional? = some (name, e)) :
    e.Conforms ok := by
  rintro c rfl
  obtain ⟨form, place⟩ := s
  unfold Statement.provisional? at ahead
  split at ahead <;> cases ahead
  next isClass => exact h _ place (congrArg _ (congrArg (Statement.mk · place) isClass)) _ rfl

theorem conforms_completed {s : Statement} {m : Meaning} {e : Entry}
    (h : (Node.statement s).Declares ok) (known : s.completed? m = some e) : e.Conforms ok := by
  rintro c rfl
  obtain ⟨form, place⟩ := s
  unfold Statement.completed? at known
  split at known <;> cases known
  next isClass =>
    exact h _ place (congrArg _ (congrArg (Statement.mk · place) isClass)) _
      (Signature.name_ofClass m _)

/-- What is declared ahead are statements of the block. -/
theorem declareAhead_subset (ss : List Statement) (c : Checker) :
    ((declareAhead ss).run c).1 ⊆ ss := by
  induction ss generalizing c with
  | nil => exact List.Subset.refl _
  | cons s ss ih =>
      unfold declareAhead
      split
      · exact List.subset_cons_of_subset s (ih c)
      · next name e _ =>
          rw [run_get_bind]
          split
          · exact List.cons_subset_cons s (ih _)
          · exact List.subset_cons_of_subset s (ih _)

theorem declareAhead_passes :
    ∀ ss : List Statement, (∀ s ∈ ss, (Node.statement s).Declares ok) →
      Passes ok Finding.Local (declareAhead ss)
  | [], _ => passes_pure _
  | s :: ss, h => by
      obtain ⟨here, below⟩ := List.forall_mem_cons.mp h
      unfold declareAhead
      split
      · exact declareAhead_passes ss below
      · next ahead =>
          refine passes_get_bind fun c => ?_
          split
          · next scopes free =>
              refine .head (.define (conforms_provisional here ahead) free) ?_
              exact passes_bind (declareAhead_passes ss below) (fun _ => passes_pure _)
                { c with scopes := scopes }
          · exact passes_bind (error_passes id) (fun _ => declareAhead_passes ss below) c

theorem completeEntry_passes {s : Statement} (h : (Node.statement s).Declares ok) :
    Passes ok Finding.Local (completeEntry s) := by
  refine passes_bind meaning_passes fun m => ?_
  split
  · next known => exact passes_modify fun c => .complete c (conforms_completed h known)
  · exact passes_pure _

theorem hoist_passes {body : List Statement} (h : ∀ s ∈ body, (Node.statement s).Declares ok) :
    Passes ok Finding.Local (hoist body) := by
  intro c
  refine (declareAhead_passes body h c).trans (passes_forM (fun s mem => ?_) _)
  have declared : s ∈ ((declareAhead body).run c).1 := by
    rcases List.mem_append.mp mem with types | function
    · rcases List.mem_append.mp types with first | second
      · exact CompletionOrder.mem_of_mem_of first
      · exact CompletionOrder.mem_of_mem_of second
    · exact List.mem_of_mem_filter function
  exact completeEntry_passes (h s (declareAhead_subset body c declared))

theorem optionalExpr_passes (e : Option Expr) : Passes ok Finding.Local (optionalExpr e) := by
  cases e with
  | none => exact passes_pure _
  | some e => exact expr_passes e

theorem varGroup_passes (d : VariableDeclaration) : Passes ok Finding.Local (varGroup d) := by
  refine passes_bind (optionalExpr_passes _) fun found => ?_
  have declared (type : Ty) : Passes ok Finding.Local (d.names.forM fun name =>
      declare (.var ⟨name.text, type, d.isConstant || d.modifiers.isImmutable, d.init.isSome,
        d.modifiers, some name.location⟩) name.location) :=
    passes_forM fun _ _ => declare_passes nofun _
  dsimp only
  split
  · exact passes_bind (passes_pure _) fun _ => declared _
  · refine passes_bind (resolveType_passes _) fun type => ?_
    split
    · exact passes_bind (assignable?_passes _ _ _) fun _ =>
        passes_bind (passes_pure _) fun _ => declared _
    · exact passes_bind (passes_pure _) fun _ => declared _

theorem assignment_passes (target value : Expr) :
    Passes ok Finding.Local (assignment target value) :=
  passes_bind (expr_passes value) fun _ =>
    passes_bind (expr_passes target) fun _ =>
      passes_bind (writable_passes target) fun _ => assignable?_passes _ _ _

theorem alone_passes (e : Expr) : Passes ok Finding.Local (alone e) := by
  refine passes_bind (expr_passes e) fun _ => ?_
  split
  · exact warn_passes _ _
  · exact passes_pure _

theorem params_passes (ps : List Param) : Passes ok Finding.Local (params ps) :=
  passes_forM fun _ _ => passes_bind (resolveType_passes _) fun _ => declare_passes nofun _

theorem caught_passes (type : TypeExpr) (name : Ident) :
    Passes ok Finding.Local (caught type name) :=
  passes_bind (resolveType_passes _) fun _ => declare_passes nofun _

theorem property_passes (d : PropertyDefinition) : Passes ok Finding.Local (property d) := by
  unfold property
  extract_lets next
  have initial (declared : Option Ty) : Passes ok Finding.Local (next declared) := by
    dsimp only [next]
    split
    · exact passes_bind (expr_passes _) fun _ => assignable?_passes _ _ _
    · exact passes_pure _
  split
  · exact passes_bind (passes_pure _) fun _ => initial _
  · exact passes_bind (resolveType_passes _) fun _ => initial _

theorem structType_passes (d : TypeDeclaration) : Passes ok Finding.Local (structType d) :=
  passes_bind enterScope_passes fun _ =>
    passes_bind (declareGenerics_passes _) fun _ =>
      passes_bind
        (passes_forM fun _ _ => passes_bind (resolveType_passes _) fun _ => passes_pure _)
        fun _ => leaveScope_passes

theorem parents_passes (superclass : Option TypeExpr) (interfaces : List TypeExpr) :
    Passes ok Finding.Local (parents superclass interfaces) := by
  have resolved : Passes ok Finding.Local (interfaces.forM fun t => do let _ ← resolveType t) :=
    passes_forM fun _ _ => passes_bind (resolveType_passes _) fun _ => passes_pure _
  unfold parents
  dsimp only
  split
  · refine passes_bind (resolveType_passes _) fun type => ?_
    split
    · split
      · exact passes_bind (error_passes id) fun _ => resolved
      · exact resolved
    · exact resolved
  · exact resolved

theorem bodyEntries_passes (c : ClassEntry) (ms : List ClassMember) :
    Passes ok Finding.Local (bodyEntries c ms) :=
  passes_forM fun (e, place) inside => by
    obtain ⟨⟨_, form, _⟩, _, declared⟩ := List.mem_filterMap.mp inside
    refine declare_passes (fun d isClass => ?_) place
    subst isClass
    unfold memberInScope? at declared
    split at declared
    · obtain ⟨_, _, same⟩ := Option.map_eq_some_iff.mp declared
      cases same
    · obtain ⟨_, _, same⟩ := Option.map_eq_some_iff.mp declared
      cases same
    · cases declared

/-- The statements of a block are where its outline has them. -/
theorem declares_of_allOf {body : List Statement}
    (h : AllOf (Node.Declares ok) (statementOutlines body)) :
    ∀ s ∈ body, (Node.statement s).Declares ok := by
  rw [statementOutlines_eq] at h
  intro s mem
  have all := allOf_iff.mp h _ (List.mem_map_of_mem mem)
  cases s with
  | mk form place => exact all.1

mutual

theorem statement_passes :
    ∀ s : Statement, s.outline.All (Node.Declares ok) → Passes ok Finding.Local (statement s)
  | ⟨form, _⟩, h => statementForm_passes form h.2

theorem statementForm_passes :
    ∀ form : StatementForm, AllOf (Node.Declares ok) form.outlines →
      Passes ok Finding.Local (statementForm form)
  | .varGroup d, _ => varGroup_passes d
  | .assignment target value, _ => assignment_passes target value
  | .expression e, _ => alone_passes e
  | .block b, h => block_passes b h.1
  | .conditional test body elifs otherwise, h => by
      obtain ⟨-, first, more⟩ := h
      obtain ⟨middle, last⟩ := allOf_append.mp more
      exact passes_bind (expr_passes test) fun _ =>
        passes_bind (block_passes body first) fun _ =>
          passes_bind (elifClauses_passes elifs middle) fun _ => optionalBlock_passes otherwise last
  | .whileLoop test body, h =>
      passes_bind (expr_passes test) fun _ => block_passes body h.2.1
  | .forLoop init test update body, h => by
      obtain ⟨head, inside⟩ := allOf_append.mp h
      obtain ⟨head, after⟩ := allOf_append.mp head
      obtain ⟨before, -⟩ := allOf_append.mp head
      exact passes_bind enterScope_passes fun _ =>
        passes_bind (optionalStatement_passes init before) fun _ =>
          passes_bind (optionalExpr_passes test) fun _ =>
            passes_bind (optionalStatement_passes update after) fun _ =>
              passes_bind (block_passes body inside.1) fun _ => leaveLocalScope_passes
  | .returns value, _ => passes_bind (optionalExpr_passes value) fun _ => passes_pure _
  | .breaks, _ | .continues, _ => passes_pure _
  | .throws value, _ => passes_bind (expr_passes value) fun _ => passes_pure _
  | .tryCatch body handlers ⟨last, _⟩, h => by
      obtain ⟨middle, final⟩ := allOf_append.mp h.2
      exact passes_bind (block_passes body h.1) fun _ =>
        passes_bind (catchClauses_passes handlers middle) fun _ => block_passes last final.1
  | .switch value cases otherwise, h => by
      obtain ⟨arms, last⟩ := allOf_append.mp h.2
      exact passes_bind (expr_passes value) fun subject =>
        passes_bind (switchCases_passes subject cases arms) fun _ =>
          defaultCase_passes subject otherwise last
  | .function ⟨_, _, signature, body⟩, h => callable_passes _ _ _ body (allOf_append.mp h).2.1
  | .classType ⟨_, name, generics, superclass, interfaces, members⟩, h => by
      refine passes_bind (lookup_passes _) fun entry => ?_
      split
      · exact passes_bind enterScope_passes fun _ =>
          passes_bind (declareGenerics_passes _) fun _ =>
            passes_bind (parents_passes _ _) fun _ =>
              passes_bind (bodyEntries_passes _ _) fun _ =>
                passes_bind (passes_modify fun c => .goOn c _ _ _) fun _ =>
                  passes_bind (classMembers_passes members (allOf_append.mp h).2) fun _ =>
                    passes_bind (passes_modify fun c => .goOn c _ _ _) fun _ => leaveScope_passes
      · exact passes_pure _
  | .structType d, _ => structType_passes d

theorem statements_passes (ended warned : Bool) :
    ∀ ss : List Statement, AllOf (Node.Declares ok) (statementOutlines ss) →
      Passes ok Finding.Local (statements ended warned ss)
  | [], _ => passes_pure _
  | s :: ss, h => by
      unfold statements
      dsimp only
      split
      · exact passes_bind (warn_passes _ _) fun _ =>
          passes_bind (statement_passes s h.1) fun _ => statements_passes _ _ ss h.2
      · exact passes_bind (statement_passes s h.1) fun _ => statements_passes _ _ ss h.2

theorem optionalStatement_passes :
    ∀ s : Option Statement, AllOf (Node.Declares ok) (ScriptFront.optionalStatement s) →
      Passes ok Finding.Local (optionalStatement s)
  | none, _ => passes_pure _
  | some s, h => statement_passes s h.1

theorem block_passes :
    ∀ b : Block, b.outline.All (Node.Declares ok) → Passes ok Finding.Local (block b)
  | ⟨body, _⟩, h =>
      passes_bind enterScope_passes fun _ =>
        passes_bind (hoist_passes (declares_of_allOf h.2)) fun _ =>
          passes_bind (statements_passes false false body h.2) fun _ => leaveLocalScope_passes

theorem optionalBlock_passes :
    ∀ b : Option Block, AllOf (Node.Declares ok) (ScriptFront.optionalBlock b) →
      Passes ok Finding.Local (optionalBlock b)
  | none, _ => passes_pure _
  | some b, h => block_passes b h.1

theorem elifClauses_passes :
    ∀ clauses : List ElifClause, AllOf (Node.Declares ok) (elifOutlines clauses) →
      Passes ok Finding.Local (elifClauses clauses)
  | [], _ => passes_pure _
  | ⟨test, body, _⟩ :: clauses, h =>
      passes_bind (expr_passes test) fun _ =>
        passes_bind (block_passes body h.2.1) fun _ => elifClauses_passes clauses h.2.2

theorem catchClauses_passes :
    ∀ clauses : List CatchClause, AllOf (Node.Declares ok) (catchOutlines clauses) →
      Passes ok Finding.Local (catchClauses clauses)
  | [], _ => passes_pure _
  | ⟨type, name, body, _⟩ :: clauses, h =>
      passes_bind enterScope_passes fun _ =>
        passes_bind (caught_passes type name) fun _ =>
          passes_bind (block_passes body h.2.1) fun _ =>
            passes_bind leaveScope_passes fun _ => catchClauses_passes clauses h.2.2

theorem switchCases_passes (subject : Option Ty) :
    ∀ cases : List SwitchCase, AllOf (Node.Declares ok) (caseOutlines cases) →
      Passes ok Finding.Local (switchCases subject cases)
  | [], _ => passes_pure _
  | ⟨_, body, _⟩ :: cases, h => by
      obtain ⟨arm, more⟩ := allOf_append.mp h
      obtain ⟨-, inside⟩ := allOf_append.mp arm
      exact passes_bind enterScope_passes fun _ =>
        passes_bind (passes_forM fun p _ => pattern_passes subject p) fun _ =>
          passes_bind (hoist_passes (declares_of_allOf inside)) fun _ =>
            passes_bind (statements_passes false false body inside) fun _ =>
              passes_bind leaveLocalScope_passes fun _ => switchCases_passes subject cases more

theorem defaultCase_passes (subject : Option Ty) :
    ∀ otherwise : Option SwitchCase, AllOf (Node.Declares ok) (optionalCase otherwise) →
      Passes ok Finding.Local (defaultCase subject otherwise)
  | none, _ => passes_pure _
  | some ⟨_, body, _⟩, h => by
      obtain ⟨-, inside⟩ := allOf_append.mp h
      exact passes_bind enterScope_passes fun _ =>
        passes_bind (passes_forM fun p _ => pattern_passes subject p) fun _ =>
          passes_bind (hoist_passes (declares_of_allOf inside)) fun _ =>
            passes_bind (statements_passes false false body inside) fun _ => leaveLocalScope_passes

theorem callable_passes (generics : List Ident) (ps : List Param) (returns : Option TypeExpr) :
    ∀ b : Block, b.outline.All (Node.Declares ok) →
      Passes ok Finding.Local (callable generics ps returns b)
  | ⟨body, _⟩, h => by
      have rest : Passes ok Finding.Local
          (do params ps; hoist body; statements false false body; leaveLocalScope) :=
        passes_bind (params_passes ps) fun _ =>
          passes_bind (hoist_passes (declares_of_allOf h.2)) fun _ =>
            passes_bind (statements_passes false false body h.2) fun _ => leaveLocalScope_passes
      refine passes_bind enterScope_passes fun _ =>
        passes_bind (declareGenerics_passes generics) fun _ => ?_
      split
      · exact passes_bind (resolveType_passes _) fun _ => rest
      · exact rest

theorem classMembers_passes :
    ∀ ms : List ClassMember, AllOf (Node.Declares ok) (memberOutlines ms) →
      Passes ok Finding.Local (classMembers ms)
  | [], _ => passes_pure _
  | ⟨_, form, _⟩ :: ms, h =>
      passes_bind (memberForm_passes form h.1.2) fun _ => classMembers_passes ms h.2

theorem memberForm_passes :
    ∀ form : MemberForm, AllOf (Node.Declares ok) form.outlines →
      Passes ok Finding.Local (memberForm form)
  | .constructor ps body, h =>
      passes_bind (passes_modify fun c => .goOn c _ _ _) fun _ =>
        passes_bind (callable_passes [] ps none body (allOf_append.mp h).2.1) fun _ =>
          passes_modify fun c => .goOn c _ _ _
  | .method _ _ body, h | .operator _ _ _ body, h =>
      callable_passes _ _ _ body (allOf_append.mp h).2.1
  | .property d, _ => property_passes d

end

/-! ### Programs and their imports -/

theorem builtins_passes : Passes ok Q builtins := by
  refine passes_forM fun e mem => passes_modify_of fun c => ?_
  have conforms : e.Conforms ok := by
    rintro d rfl
    rcases List.mem_append.mp mem with type | print
    · obtain ⟨_, _, same⟩ := List.mem_map.mp type
      cases same
    · cases List.mem_singleton.mp print
  split
  · next free => exact .single (.define conforms free)
  · exact .refl

theorem body_passes {p : Program} (h : p.outline.All (Node.Declares ok)) :
    Passes ok Finding.Local (body p) := by
  have inside : AllOf (Node.Declares ok) (statementOutlines p.body) := by
    rw [statementOutlines_eq]
    exact (allOf_append.mp h.2).2
  exact passes_bind (hoist_passes (declares_of_allOf inside)) fun _ =>
    statements_passes false false p.body inside

theorem unusedImports_passes (p : Program) : Passes ok Finding.Local (unusedImports p) := by
  refine passes_bind passes_get fun c => ?_
  dsimp only
  split
  · exact passes_pure _
  · refine passes_forM fun i _ => ?_
    split
    · exact warn_passes _ _
    · exact passes_pure _

/-- The entries that an import binds, as what the file knows them by. -/
def boundEntries (i : ImportDeclaration) (exports : ExportTable) : List Entry :=
  (if i.wildcard then exports.symbols.map fun e => e.renamed e.name i.location else [])
    ++ (i.whole.toList.filterMap fun name =>
      exports.default.map (·.renamed name.text name.location))
    ++ i.named.filterMap fun s =>
      (exports.find? s.imported.text).map (·.renamed s.binding.text s.binding.location)

theorem bindName_passes {i : ImportDeclaration} {wanted : String} {entry : Option Entry}
    {name : Ident} {place : Location}
    (conforms : ∀ e ∈ entry.map (·.renamed name.text name.location), e.Conforms ok) :
    Passes ok Finding.Acyclic (bindName i wanted entry name place) := by
  unfold bindName
  split
  · exact passes_mono (declareImport_passes (conforms _ rfl) _) (fun _ => id)
      fun _ => Finding.Local.acyclic
  · exact error_passes (by simp [Finding.Acyclic, Finding.kind, SemanticFault.kind])

theorem bindImport_passes {i : ImportDeclaration} {exports : ExportTable}
    (conforms : ∀ e ∈ boundEntries i exports, e.Conforms ok) :
    Passes ok Finding.Acyclic (bindImport i exports) := by
  obtain ⟨others, listed⟩ := List.forall_mem_append.mp conforms
  obtain ⟨every, default⟩ := List.forall_mem_append.mp others
  unfold bindImport
  extract_lets named whole
  have namedPasses (u : Unit) : Passes ok Finding.Acyclic (named u) :=
    passes_forM fun s mem => bindName_passes fun e here =>
      listed e (List.mem_filterMap.mpr ⟨s, mem, here⟩)
  have wholePasses (u : Unit) : Passes ok Finding.Acyclic (whole u) := by
    dsimp only [whole]
    split
    · next name given =>
        refine passes_bind (bindName_passes fun e here => default e ?_) namedPasses
        exact List.mem_filterMap.mpr ⟨name, Option.mem_toList.mpr given, here⟩
    · exact namedPasses ()
  split
  · next wildcard =>
      rw [if_pos wildcard] at every
      refine passes_bind (passes_forM fun e mem => ?_) wholePasses
      exact passes_mono (declareImport_passes (every _ (List.mem_map_of_mem mem)) _)
        (fun _ => id) fun _ => Finding.Local.acyclic
  · exact wholePasses ()

end Check
end ScriptFront
