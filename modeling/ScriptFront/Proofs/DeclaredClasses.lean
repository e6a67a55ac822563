import ScriptFront.Proofs.CheckCourses
import ScriptFront.Proofs.MemberTables
import ScriptFront.Proofs.NestedScopes

/-!
The classes of a program whose analysis succeeds. The body of each of them is checked, and its entry
is the one that its own declaration was completed with. All its properties have an entry in it, and
of its methods and operators the first ones of their names.
-/

namespace ScriptFront

/-! ### The classes of a program -/

mutual

/-- The classes that are declared in a statement, in order. -/
def Statement.classes : Statement → List ClassDeclaration
  | ⟨form, _⟩ => form.classes

def StatementForm.classes : StatementForm → List ClassDeclaration
  | .varGroup _ | .assignment .. | .expression _ | .returns _ | .breaks | .continues | .throws _
  | .structType _ => []
  | .block b => b.classes
  | .conditional _ body elifs otherwise =>
    body.classes ++ (elifClasses elifs ++ optionalBlockClasses otherwise)
  | .whileLoop _ body => body.classes
  | .forLoop init _ update body => clauseClasses init ++ (clauseClasses update ++ body.classes)
  | .tryCatch body handlers ⟨last, _⟩ => body.classes ++ (catchClasses handlers ++ last.classes)
  | .switch _ cases otherwise => caseClasses cases ++ optionalCaseClasses otherwise
  | .function ⟨_, _, _, body⟩ => body.classes
  | .classType ⟨modifiers, name, generics, superclass, interfaces, members⟩ =>
    ⟨modifiers, name, generics, superclass, interfaces, members⟩ :: memberClasses members

def statementClasses : List Statement → List ClassDeclaration
  | [] => []
  | s :: ss => s.classes ++ statementClasses ss

/-- A clause of a loop is no place for the declaration of a class. -/
def clauseClasses : Option Statement → List ClassDeclaration
  | none | some ⟨.classType _, _⟩ => []
  | some ⟨form, _⟩ => form.classes

def Block.classes : Block → List ClassDeclaration
  | ⟨body, _⟩ => statementClasses body

def optionalBlockClasses : Option Block → List ClassDeclaration
  | none => []
  | some b => b.classes

def elifClasses : List ElifClause → List ClassDeclaration
  | [] => []
  | ⟨_, body, _⟩ :: clauses => body.classes ++ elifClasses clauses

def catchClasses : List CatchClause → List ClassDeclaration
  | [] => []
  | ⟨_, _, body, _⟩ :: clauses => body.classes ++ catchClasses clauses

def caseClasses : List SwitchCase → List ClassDeclaration
  | [] => []
  | ⟨_, body, _⟩ :: cases => statementClasses body ++ caseClasses cases

def optionalCaseClasses : Option SwitchCase → List ClassDeclaration
  | none => []
  | some ⟨_, body, _⟩ => statementClasses body

def memberClasses : List ClassMember → List ClassDeclaration
  | [] => []
  | ⟨_, form, _⟩ :: ms => form.classes ++ memberClasses ms

def MemberForm.classes : MemberForm → List ClassDeclaration
  | .constructor _ body | .method _ _ body | .operator _ _ _ body => body.classes
  | .property _ => []

end

/-! ### Entries of declarations ahead -/

/--
What names stand for when the type of a name is completed for good, after one round over all types
of the block and a second one over those in front of it.
-/
def Hoisting.meaning (h : Hoisting) (name : String) : Meaning :=
  let ahead := (Check.declareAhead h.block).run h.state
  let types := CompletionOrder.of ahead.1
  let m : Meaning := ahead.2.scopes.lookup
  (m.completeAll types).completeAll (types.takeWhile fun s => s.aheadName? ≠ some name)

/-- In a state, a statement that is a class is known by what it was completed with. -/
def Checker.Knows (c : Checker) (h : Hoisting) (form : StatementForm) : Prop :=
  ∀ d, form = .classType d → c.scopes.current.find? d.name.text
    = some (.cls (Signature.ofClass (h.meaning d.name.text) d))

/-- Nothing that was found is an error. -/
def Checker.Clean (c : Checker) : Prop := ∀ f ∈ c.findings, f.isError = false

/-- A class is known by what its declaration was completed with, and its names are different. -/
structure ClassCheck.Whole (k : ClassCheck) : Prop where
  known : k.known = Signature.ofClass (k.within.meaning k.d.name.text) k.d
  names : ((k.d.members.filterMap ClassMember.name?).map (·.text)).Nodup

/-- Where nothing is an error, nothing was one before. -/
theorem Checker.Gone.clean {c d : Checker} {constructs : Bool} {ws : List Write} {marked : Prop}
    (h : c.Gone d constructs ws marked) (clean : d.Clean) : c.Clean := by
  obtain ⟨found, findings, -⟩ := h.found
  rw [Checker.Clean, findings] at clean
  exact (List.forall_mem_append.mp clean).1

namespace Check

variable {α β : Type}

theorem Goes.clean {m : Check α} {course : Course} (h : Goes m course) {c : Checker}
    (clean : (m.run c).2.Clean) : c.Clean :=
  Checker.Gone.clean (h c) clean

/-- Where nothing is an error, all declarations ahead were accepted. -/
theorem mem_declareAhead_of_clean {ss : List Statement} {c : Checker}
    (clean : ((declareAhead ss).run c).2.Clean) {s : Statement} (mem : s ∈ ss)
    (ahead : s.provisional?.isSome = true) : s ∈ ((declareAhead ss).run c).1 := by
  induction ss generalizing c with
  | nil => cases mem
  | cons t ss ih =>
      cases provisional : t.provisional? with
      | none =>
          rw [declareAhead_skip provisional] at clean ⊢
          obtain rfl | mem := List.mem_cons.mp mem
          · rw [provisional] at ahead
            cases ahead
          · exact ih clean mem
      | some declaration =>
          obtain ⟨name, e⟩ := declaration
          cases defined : c.scopes.define e with
          | error existing =>
              rw [declareAhead_refuse provisional defined] at clean
              have before := (declareAhead_scoping ss).goes.clean clean
              exact absurd (before _ (List.mem_append_right _ (List.mem_singleton_self _))) nofun
          | ok scopes =>
              rw [declareAhead_accept provisional defined] at clean ⊢
              obtain rfl | mem := List.mem_cons.mp mem
              · exact List.mem_cons_self
              · exact List.mem_cons_of_mem _ (ih clean mem)

theorem provisional_of_class {s : Statement} {d : ClassDeclaration} (form : s.form = .classType d) :
    ∃ e, s.provisional? = some (d.name, e) := by
  obtain ⟨_, place⟩ := s
  cases form
  exact ⟨_, rfl⟩

/-- In a list without repetitions, an element comes behind those in front of it. -/
theorem eq_takeWhile_append {γ δ : Type} [DecidableEq δ] {f : γ → δ} {l : List γ} {a : γ}
    (nodup : (l.map f).Nodup) (mem : a ∈ l) :
    ∃ after, l = l.takeWhile (f · ≠ f a) ++ a :: after := by
  induction l with
  | nil => cases mem
  | cons b l ih =>
      obtain ⟨new, below⟩ := List.nodup_cons.mp nodup
      obtain rfl | mem := List.mem_cons.mp mem
      · exact ⟨l, by rw [List.takeWhile_cons_of_neg (by simp)]; rfl⟩
      · have other : f b ≠ f a := fun same => new (same ▸ List.mem_map_of_mem mem)
        obtain ⟨after, rest⟩ := ih below mem
        refine ⟨after, ?_⟩
        rw [List.takeWhile_cons, decide_eq_true other]
        exact congrArg (b :: ·) rest

theorem find?_isSome_iff {f : Frame} {name : String} :
    (f.find? name).isSome = true ↔ name ∈ f.entries.map Entry.name := by
  rw [Frame.find?, List.find?_isSome, List.mem_map]
  simp only [beq_iff_eq]

/-- After the declarations ahead of a block its classes are known. -/
theorem hoist_knows {body : List Statement} {c : Checker}
    (clean : ((hoist body).run c).2.Clean) :
    ∀ s ∈ body, ((hoist body).run c).2.Knows ⟨body, c⟩ s.form := by
  intro s mem d form
  obtain ⟨e, provisional⟩ := provisional_of_class form
  have ahead : s.aheadName? = some d.name.text := by
    rw [Statement.aheadName?, provisional]
    rfl
  let declared := ((declareAhead body).run c).1
  let types := CompletionOrder.of declared
  have completing : Scoping ((types ++ types ++ declared.filter (·.isFunction)).forM completeEntry) :=
    scoping_forM fun s _ => completeEntry_scoping s
  have accepted := declareAhead_accepted body c
  have inside : s ∈ declared := mem_declareAhead_of_clean (completing.goes.clean clean) mem
    (by rw [provisional]; rfl)
  have isType : (CompletionOrder.typeName? s).isSome = true := by
    unfold CompletionOrder.typeName?
    rw [form]
    rfl
  have among : s ∈ types := CompletionOrder.mem_of_of_mem inside isType
  have nodup : (types.map (·.aheadName?)).Nodup := CompletionOrder.nodup_of accepted.nodup
  -- No function has the name, and among the types the class alone has it.
  have noFunction : some d.name.text ∉ (declared.filter (·.isFunction)).map (·.aheadName?) := by
    intro known
    obtain ⟨t, there, same⟩ := List.mem_map.mp known
    obtain ⟨there, isFunction⟩ := List.mem_filter.mp there
    obtain rfl := List.inj_on_of_nodup_map accepted.nodup there inside (same.trans ahead.symm)
    rw [Statement.isFunction, form] at isFunction
    cases isFunction
  obtain ⟨after, parts⟩ := eq_takeWhile_append nodup among
  rw [ahead] at parts
  have completed (m : Meaning) : m.completeAll types d.name.text = s.completed?
      (m.completeAll (types.takeWhile fun s => s.aheadName? ≠ some d.name.text)) :=
    (congrArg (fun l => m.completeAll l d.name.text) parts).trans
      (Meaning.completeAll_at (parts ▸ nodup) ahead)
  have looked := congrFun (lookup_hoist body c) d.name.text
  rw [Meaning.completeAll_of_not_mem noFunction, completed, Statement.completed?, form,
    Scopes.lookup_eq] at looked
  -- The entry was made in the innermost scope, and no completion takes it away.
  have known : (((hoist body).run c).2.scopes.current.find? d.name.text).isSome = true := by
    obtain ⟨name, e', same, -, here⟩ := accepted.entries s inside
    rw [provisional] at same
    cases same
    have completions : Nests .hoists
        ((types ++ types ++ declared.filter (·.isFunction)).forM completeEntry) :=
      nests_forM fun s _ => completeEntry_nests s
    have names := (completions ((declareAhead body).run c).2).current
    exact find?_isSome_iff.mpr (List.IsPrefix.subset names
      (find?_isSome_iff.mp (by rw [here]; rfl)))
  obtain ⟨found, here⟩ := Option.isSome_iff_exists.mp known
  rw [here, Option.some_or] at looked
  rw [here, looked]
  rfl

/-! ### Members in the scope of their class -/

/-- Where nothing is an error, entries that were declared one after another have different names. -/
theorem nodup_of_clean {es : List (Entry × Location)} {c : Checker}
    (clean : ((es.forM fun (e, place) => declare e place).run c).2.Clean) :
    (es.map (·.1.name)).Nodup ∧
      ∀ e ∈ es, e.1.name ∉ c.scopes.current.entries.map Entry.name := by
  induction es generalizing c with
  | nil => exact ⟨List.nodup_nil, List.forall_mem_nil _⟩
  | cons first es ih =>
      obtain ⟨e, place⟩ := first
      change ((es.forM fun (e, place) => declare e place).run
        ((declare e place).run c).2).2.Clean at clean
      obtain ⟨nodup, fresh⟩ := ih clean
      cases defined : c.scopes.define e with
      | error existing =>
          have rest : Scoping (es.forM fun (e, place) => declare e place) :=
            scoping_forM fun _ _ => declare_scoping _ _
          have before := rest.goes.clean clean
          rw [run_declare_taken defined] at before
          exact absurd (before _ (List.mem_append_right _ (List.mem_singleton_self _))) nofun
      | ok scopes =>
          rw [run_declare_free defined] at fresh
          have frame := Scopes.current_define defined
          unfold Frame.define at frame
          split at frame
          · cases frame
          · next new =>
              have entries : scopes.current.entries = c.scopes.current.entries ++ [e] := by
                rw [← Except.ok.inj frame]
              rw [entries, List.map_append] at fresh
              refine ⟨List.nodup_cons.mpr ⟨fun again => ?_, nodup⟩,
                List.forall_mem_cons.mpr ⟨fun known => ?_, fun e mem known => ?_⟩⟩
              · obtain ⟨other, mem, same⟩ := List.mem_map.mp again
                exact fresh other mem
                  (List.mem_append_right _ (List.mem_singleton.mpr same))
              · rw [← find?_isSome_iff, new] at known
                cases known
              · exact fresh e mem (List.mem_append_left _ known)

/-- In the scope of a class, its properties and methods have their names. -/
theorem names_memberInScope (m : Meaning) (d : ClassDeclaration) :
    (d.members.filterMap (memberInScope? (Signature.ofClass m d))).map (·.1.name)
      = (d.members.filterMap ClassMember.name?).map (·.text) := by
  obtain ⟨fields, methods⟩ := Signature.tables_ofClass m d
  rw [List.map_filterMap, List.map_filterMap]
  refine List.filterMap_congr fun member mem => ?_
  have listed {α : Type} (name : α → String) (made? : ClassMember → Option α) {a : α}
      (own : made? member = some a) :
      ∃ b, (Signature.insertAll name (d.members.filterMap made?) []).find? (name · == name a)
        = some b ∧ name b = name a := by
    have found : ((d.members.filterMap made?).find? (name · == name a)).isSome = true :=
      List.find?_isSome.mpr ⟨a, List.mem_filterMap.mpr ⟨member, mem, own⟩, beq_self_eq_true _⟩
    obtain ⟨b, here⟩ := Option.isSome_iff_exists.mp found
    have matching := List.find?_some here
    exact ⟨b, (Signature.find?_insertAll _).trans here, beq_iff_eq.mp matching⟩
  obtain ⟨modifiers, form, place⟩ := member
  cases form with
  | constructor params body => rfl
  | operator symbol isUnary s body => rfl
  | property p =>
      obtain ⟨v, found, same⟩ := listed (fun v : VariableEntry => v.name)
        (ClassMember.field? (m.withGenerics d.generics)) rfl
      rw [← fields] at found
      have field : (Signature.ofClass m d).field? p.name.text = some v := found
      dsimp only [memberInScope?]
      rw [field]
      exact congrArg some same
  | method name s body =>
      obtain ⟨f, found, same⟩ := listed (fun f : FunctionEntry => f.name)
        (ClassMember.method? (m.withGenerics d.generics)) rfl
      rw [← methods] at found
      have method : (Signature.ofClass m d).method? name.text = some f := found
      dsimp only [memberInScope?]
      rw [method]
      exact congrArg some same

/-! ### Checks cover the classes -/

/-- Among the classes whose bodies are checked there are given ones, in order, and all are whole. -/
def Covered (ds : List ClassDeclaration) (ks : List ClassCheck) : Prop :=
  ∃ whole : List ClassCheck, whole.Sublist ks ∧ whole.map (·.d) = ds ∧ ∀ k ∈ whole, k.Whole

theorem memberBodies_cons (p : Passage) (ps : List Passage) :
    memberBodies (p :: ps) = bodiesOf p.inside ++ memberBodies ps := by
  cases p
  rfl

theorem covered_nil (ks : List ClassCheck) : Covered [] ks :=
  ⟨[], List.nil_sublist ks, rfl, List.forall_mem_nil _⟩

theorem Covered.append {ds es : List ClassDeclaration} {ks ls : List ClassCheck}
    (h : Covered ds ks) (h' : Covered es ls) : Covered (ds ++ es) (ks ++ ls) := by
  obtain ⟨whole, inside, same, all⟩ := h
  obtain ⟨more, inside', same', all'⟩ := h'
  exact ⟨whole ++ more, inside.append inside', by rw [List.map_append, same, same'],
    List.forall_mem_append.mpr ⟨all, all'⟩⟩

/-- A check that covers some classes from any state of a kind, where nothing is an error. -/
structure CoversFrom (P : Checker → Prop) (m : Check α) (course : Course)
    (ds : List ClassDeclaration) : Prop where
  goes : Goes m course
  covers : ∀ c, P c → (m.run c).2.Clean → Covered ds (bodiesOf (course c))

/-- A check that covers some classes, where nothing is an error. -/
abbrev Covers (m : Check α) (course : Course) (ds : List ClassDeclaration) : Prop :=
  CoversFrom (fun _ => True) m course ds

section Covers

variable {P R : Checker → Prop} {m : Check α} {f : α → Check β} {here : Course}
  {rest : α → Course} {ds es : List ClassDeclaration}

theorem Goes.covers (h : Goes m here) : CoversFrom P m here [] :=
  ⟨h, fun _ _ _ => covered_nil _⟩

theorem CoversFrom.then (hm : CoversFrom P m here ds) (keeps : ∀ c, P c → R (m.run c).2)
    (hf : ∀ a, CoversFrom R (f a) (rest a) es) :
    CoversFrom P (m >>= f) (along m here rest) (ds ++ es) where
  goes := hm.goes.along fun a => (hf a).goes
  covers c known clean := by
    have last : ((f (m.run c).1).run (m.run c).2).2.Clean := clean
    rw [along, bodiesOf_append]
    exact (hm.covers c known ((hf _).goes.clean last)).append
      ((hf _).covers _ (keeps c known) last)

theorem CoversFrom.along (hm : CoversFrom P m here ds) (hf : ∀ a, Covers (f a) (rest a) es) :
    CoversFrom P (m >>= f) (along m here rest) (ds ++ es) :=
  hm.then (fun _ _ => trivial) hf

/-- What comes last may come to nothing. -/
theorem CoversFrom.last (hm : CoversFrom P m here ds) (hf : ∀ a, Goes (f a) nothing) :
    CoversFrom P (m >>= f) here ds where
  goes := hm.goes.last hf
  covers c known clean := hm.covers c known ((hf (m.run c).1).clean clean)

theorem CoversFrom.weaken (h : CoversFrom P m here ds) (weaker : ∀ c, R c → P c) :
    CoversFrom R m here ds :=
  ⟨h.goes, fun c known => h.covers c (weaker c known)⟩

theorem Goes.coversFrom (hm : Goes m nothing) (keeps : ∀ c, P c → R (m.run c).2)
    (hf : ∀ a, CoversFrom R (f a) (rest a) ds) :
    CoversFrom P (m >>= f) (Check.after m rest) ds where
  goes := hm.after fun a => (hf a).goes
  covers c known clean := (hf _).covers _ (keeps c known) clean

theorem Goes.coversAfter (hm : Goes m nothing) (hf : ∀ a, Covers (f a) (rest a) ds) :
    CoversFrom P (m >>= f) (Check.after m rest) ds :=
  hm.coversFrom (fun _ _ => trivial) hf

/-- Behind the declarations ahead of a block its classes are known. -/
theorem hoisted_covers {body : List Statement} {m : Check Unit} {course : Checker → Course}
    (h : ∀ start, CoversFrom (fun c => ∀ s ∈ body, c.Knows ⟨body, start⟩ s.form) m (course start)
      ds) :
    Covers (do hoist body; m) (starting fun start => after (hoist body) fun _ => course start) ds
    where
  goes := goes_starting fun start => (hoist_scoping body).goes.after fun _ => (h start).goes
  covers c _ clean := (h c).covers _ (hoist_knows ((h c).goes.clean clean)) clean

end Covers

/-- A state knows the classes that it knew before some declarations of variables. -/
theorem Knows.back {c d : Checker} {h : Hoisting} {form : StatementForm} (knows : c.Knows h form)
    (back : c.Back .declares d) : d.Knows h form := by
  intro k isClass
  have found := knows k isClass
  obtain ⟨more, entries⟩ := back.current
  rw [Frame.find?] at found ⊢
  rw [← entries, List.find?_append, found, Option.some_or]

theorem GoesThrough.clean {m : Check Unit} {members : Checker → List Passage}
    (h : GoesThrough m members) {c : Checker} (clean : (m.run c).2.Clean) : c.Clean :=
  Checker.Gone.clean (h c) clean

theorem statement_declares (s : Statement) : Nests .declares (statement s) := by
  have nests := statement_nests s
  obtain ⟨form, place⟩ := s
  cases form with
  | varGroup d => exact nests
  | _ => exact nests.of_keeps _

theorem alarm_nests (ended warned : Bool) (s : Statement) :
    Nests .declares (alarm ended warned s) := by
  unfold alarm
  split
  · exact warn_nests _ _
  · exact nests_pure _

/-- The body of a class is checked with its own entry, and its names are different. -/
theorem whole_of_clean {h : Hoisting} {d : ClassDeclaration} {c : Checker}
    (clean : ((classHead (Signature.ofClass (h.meaning d.name.text) d) d.generics d.superclass
      d.interfaces d.members).run c).2.Clean) :
    (⟨d, Signature.ofClass (h.meaning d.name.text) d, h⟩ : ClassCheck).Whole where
  known := rfl
  names := by
    let known := Signature.ofClass (h.meaning d.name.text) d
    let before := ((do
      enterScope
      declareGenerics d.generics
      parents d.superclass d.interfaces : Check Unit).run c).2
    have last : ((bodyEntries known d.members).run before).2.Clean := clean
    have names := (nodup_of_clean last).1
    rwa [names_memberInScope] at names

mutual

theorem statement_covers (h : Hoisting) : ∀ s : Statement,
    CoversFrom (fun c => c.Knows h s.form) (statement s) (statementCourse h s) s.classes
  | ⟨form, _⟩ => statementForm_covers h form

theorem statementForm_covers (h : Hoisting) : ∀ form : StatementForm,
    CoversFrom (fun c => c.Knows h form) (statementForm form) (statementFormCourse h form)
      form.classes
  | .varGroup d => (statementForm_goes h (.varGroup d)).covers
  | .assignment target value => (statementForm_goes h (.assignment target value)).covers
  | .expression e => (statementForm_goes h (.expression e)).covers
  | .block b => ⟨block_goes b, fun c _ => (block_covers b).covers c trivial⟩
  | .conditional test body elifs otherwise =>
      (expr_goes test).covers.along fun _ => (block_covers body).along fun _ =>
        (elifClauses_covers elifs).along fun _ => optionalBlock_covers otherwise
  | .whileLoop test body => (expr_goes test).covers.along fun _ => block_covers body
  | .forLoop init test update body =>
      enterScope_scoping.goes.coversAfter fun _ =>
        (clause_covers h init).along fun _ => (optionalExpr_goes test).covers.along fun _ =>
          (clause_covers h update).along fun _ =>
            (block_covers body).last fun _ => leaveLocalScope_scoping.goes
  | .returns value => (statementForm_goes h (.returns value)).covers
  | .breaks | .continues => (goes_pure _).covers
  | .throws value => (statementForm_goes h (.throws value)).covers
  | .tryCatch body handlers ⟨last, _⟩ =>
      ⟨statementForm_goes h (.tryCatch body handlers ⟨last, _⟩), fun c _ =>
        ((block_covers body).along fun _ => (catchClauses_covers handlers).along fun _ =>
          block_covers last).covers c trivial⟩
  | .switch value cases otherwise =>
      (expr_goes value).covers.along fun subject =>
        (switchCases_covers subject cases).along fun _ => defaultCase_covers subject otherwise
  | .function ⟨_, _, signature, body⟩ =>
      ⟨callable_goes _ _ (some _) body, fun c _ => (callable_covers _ _ _ body).covers c trivial⟩
  | .classType ⟨modifiers, name, generics, superclass, interfaces, members⟩ => by
      refine ⟨statementForm_goes h _, fun c knows clean => ?_⟩
      let d : ClassDeclaration := ⟨modifiers, name, generics, superclass, interfaces, members⟩
      let known := Signature.ofClass (h.meaning name.text) d
      let entered := ((classHead known generics superclass interfaces members).run c).2
      let inside : Checker := { entered with classes := known :: entered.classes }
      let left := ((classMembers members).run inside).2
      have found : c.scopes.lookup name.text = some (.cls known) :=
        Scopes.lookup_of_current (knows d rfl)
      have run : ((statementForm (.classType d)).run c).2
          = (leaveScope.run { left with classes := left.classes.tail }).2 := by
        unfold statementForm
        rw [run_lookup_bind, found]
        rfl
      have course : statementFormCourse h (.classType d) c
          = [.classBody ⟨d, known, h⟩ (membersCourse members inside)] := by
        unfold statementFormCourse
        rw [found]
      rw [run] at clean
      have popped : Checker.Clean { left with classes := left.classes.tail } :=
        leaveScope_scoping.goes.clean clean
      have behind : left.Clean := popped
      have front : inside.Clean := (classMembers_goes members).clean behind
      obtain ⟨whole, sub, same, all⟩ := classMembers_covers members inside behind
      rw [course, bodiesOf, bodiesOf, List.append_nil, Encounter.bodies]
      exact ⟨⟨d, known, h⟩ :: whole, sub.cons_cons _, congrArg (d :: ·) same,
        List.forall_mem_cons.mpr ⟨whole_of_clean front, all⟩⟩
  | .structType d => (structType_scoping d).goes.covers

theorem statements_covers (h : Hoisting) (ended warned : Bool) : ∀ ss : List Statement,
    CoversFrom (fun c => ∀ s ∈ ss, c.Knows h s.form) (statements ended warned ss)
      (statementsCourse h ended warned ss) (statementClasses ss)
  | [] => (goes_pure _).covers
  | s :: ss => by
      rw [statements_cons]
      have first := (statement_covers h s).weaken
        fun c (knows : ∀ t ∈ s :: ss, c.Knows h t.form) => knows s List.mem_cons_self
      exact (alarm_scoping _ _ _).goes.coversFrom
        (fun c knows t mem => Knows.back (knows t mem) (alarm_nests _ _ _ c)) fun _ =>
          first.then (fun c knows t mem => Knows.back (knows t (List.mem_cons_of_mem _ mem))
            (statement_declares s c)) fun _ => statements_covers h _ _ ss

theorem clause_covers (h : Hoisting) : ∀ s : Option Statement,
    Covers (optionalStatement s) (optionalStatementCourse h s) (clauseClasses s)
  | none => (goes_pure _).covers
  | some ⟨form, place⟩ => by
      refine ⟨statement_goes h ⟨form, place⟩, fun c _ clean => ?_⟩
      cases form with
      | classType d => exact covered_nil _
      | _ => exact (statementForm_covers h _).covers c nofun clean

theorem block_covers : ∀ b : Block, Covers (block b) (blockCourse b) b.classes
  | ⟨body, place⟩ => by
      have whole := enterScope_scoping.goes.coversAfter (P := fun _ => True) fun _ =>
        (hoisted_covers fun start => statements_covers ⟨body, start⟩ false false body).last
          fun _ => leaveLocalScope_scoping.goes
      simp only [bind_assoc] at whole
      exact whole

theorem optionalBlock_covers : ∀ b : Option Block,
    Covers (optionalBlock b) (optionalBlockCourse b) (optionalBlockClasses b)
  | none => (goes_pure _).covers
  | some b => block_covers b

theorem elifClauses_covers : ∀ clauses : List ElifClause,
    Covers (elifClauses clauses) (elifsCourse clauses) (elifClasses clauses)
  | [] => (goes_pure _).covers
  | ⟨test, body, _⟩ :: clauses =>
      (expr_goes test).covers.along fun _ => (block_covers body).along fun _ =>
        elifClauses_covers clauses

theorem catchClauses_covers : ∀ clauses : List CatchClause,
    Covers (catchClauses clauses) (catchesCourse clauses) (catchClasses clauses)
  | [] => (goes_pure _).covers
  | ⟨type, name, body, _⟩ :: clauses =>
      enterScope_scoping.goes.coversAfter fun _ => (caught_scoping type name).goes.coversAfter
        fun _ => (block_covers body).along fun _ => leaveScope_scoping.goes.coversAfter fun _ =>
          catchClauses_covers clauses

theorem switchCases_covers (subject : Option Ty) : ∀ cases : List SwitchCase,
    Covers (switchCases subject cases) (casesCourse subject cases) (caseClasses cases)
  | [] => (goes_pure _).covers
  | ⟨patterns, body, _⟩ :: cases => by
      have whole := enterScope_scoping.goes.coversAfter (P := fun _ => True) fun _ =>
        (patterns_goes subject patterns).covers.along fun _ =>
          (hoisted_covers fun start => statements_covers ⟨body, start⟩ false false body).along
            fun _ => leaveLocalScope_scoping.goes.coversAfter fun _ =>
              switchCases_covers subject cases
      simp only [bind_assoc] at whole
      exact whole

theorem defaultCase_covers (subject : Option Ty) : ∀ otherwise : Option SwitchCase,
    Covers (defaultCase subject otherwise) (optionalCaseCourse subject otherwise)
      (optionalCaseClasses otherwise)
  | none => (goes_pure _).covers
  | some ⟨patterns, body, _⟩ => by
      have whole := enterScope_scoping.goes.coversAfter (P := fun _ => True) fun _ =>
        (patterns_goes subject patterns).covers.along fun _ =>
          (hoisted_covers fun start => statements_covers ⟨body, start⟩ false false body).last
            fun _ => leaveLocalScope_scoping.goes
      simp only [bind_assoc] at whole
      exact whole

theorem callable_covers (generics : List Ident) (ps : List Param) (returns : Option TypeExpr) :
    ∀ b : Block, Covers (callable generics ps returns b) (callableCourse generics ps returns b)
      b.classes
  | ⟨body, place⟩ => by
      have whole := (callableHead_scoping generics ps returns).goes.coversAfter
        (P := fun _ => True) fun _ =>
          (hoisted_covers fun start => statements_covers ⟨body, start⟩ false false body).last
            fun _ => leaveLocalScope_scoping.goes
      simp only [bind_assoc] at whole
      rw [callable_eq]
      exact whole

theorem classMembers_covers : ∀ (ms : List ClassMember) (c : Checker),
    ((classMembers ms).run c).2.Clean →
      Covered (memberClasses ms) (memberBodies (membersCourse ms c))
  | [], _, _ => covered_nil _
  | ⟨_, form, _⟩ :: ms, c, clean => by
      have last : ((classMembers ms).run ((memberForm form).run c).2).2.Clean := clean
      have first := memberForm_covers form c ((classMembers_goes ms).clean last)
      have both := first.append (classMembers_covers ms _ last)
      rwa [← memberBodies_cons] at both

theorem memberForm_covers : ∀ (form : MemberForm) (c : Checker),
    ((memberForm form).run c).2.Clean →
      Covered form.classes (bodiesOf (memberPassage form c).inside)
  | .constructor ps body, c, clean =>
      (callable_covers [] ps none body).covers { c with inConstructor := true } trivial clean
  | .method _ _ body, c, clean | .operator _ _ _ body, c, clean =>
      (callable_covers _ _ (some _) body).covers c trivial clean
  | .property _, _, _ => covered_nil _

end

end Check

/-! ### Programs that are accepted -/

/--
What the entry of a class has of its members, when its signature was completed from what names stood
for then: all properties, and the first method or operator of each name. Properties and methods
have names of their own, so only an operator can be missing, and one is if another one has its
symbol.
-/
structure ClassCheck.Lists (k : ClassCheck) (inside : Meaning) : Prop where
  known : k.known = Signature.ofClass (k.within.meaning k.d.name.text) k.d
  fields : k.known.fields = k.d.members.filterMap (ClassMember.field? inside)
  methods : ∀ name, k.known.methods.find? (·.name == name)
    = (k.d.members.filterMap (ClassMember.method? inside)).find? (·.name == name)
  distinct : (k.known.methods.map (·.name)).Nodup
  named : ((k.d.members.filterMap ClassMember.name?).map (·.text)).Nodup
  complete_iff : k.known.fields.length + k.known.methods.length
      = (k.d.members.filter ClassMember.isListed).length ↔
    (k.d.members.filterMap ClassMember.methodName?).Nodup

/-- Among the names of properties and methods those of properties are different. -/
theorem nodup_fields {ms : List ClassMember} (inside : Meaning)
    (h : ((ms.filterMap ClassMember.name?).map (·.text)).Nodup) :
    ((ms.filterMap (ClassMember.field? inside)).map (·.name)).Nodup := by
  refine h.sublist ?_
  clear h
  induction ms with
  | nil => exact List.Sublist.refl _
  | cons member ms ih =>
      obtain ⟨modifiers, form, place⟩ := member
      cases form with
      | constructor params body => exact ih
      | method name s body => exact ih.cons _
      | operator symbol isUnary s body => exact ih
      | property d => exact ih.cons_cons _

theorem ClassCheck.Whole.lists {k : ClassCheck} (h : k.Whole) :
    k.Lists ((k.within.meaning k.d.name.text).withGenerics k.d.generics) := by
  let inside := (k.within.meaning k.d.name.text).withGenerics k.d.generics
  obtain ⟨fields, methods⟩ := Signature.tables_ofClass (k.within.meaning k.d.name.text) k.d
  rw [← h.known] at fields methods
  rw [Signature.insertAll_eq_iff.mpr (nodup_fields inside h.names)] at fields
  refine ⟨h.known, fields, fun name => ?_, ?_, h.names, ?_⟩
  · rw [methods, Signature.find?_insertAll]
    rfl
  · rw [methods]
    exact Signature.nodup_insertAll List.nodup_nil
  · have names : (k.d.members.filterMap (ClassMember.method? inside)).map (·.name)
        = k.d.members.filterMap ClassMember.methodName? := by
      rw [List.map_filterMap]
      exact List.filterMap_congr fun member _ => member.name_method inside
    rw [fields, methods, ← ClassMember.length_listed inside, Nat.add_left_cancel_iff,
      Signature.length_insertAll_iff, names]

/-- The scope of a file is the innermost one when its imports are bound. -/
theorem inner_imported (importer : Importer) (file : Path) (state : FileState)
    (session : Session) (imports : List ImportDeclaration) :
    (imports.foldl (Workspace.bind importer file)
      (.opening file state session)).checker.scopes.inner = [] := by
  have performed (w : Workspace) {r : ScopeEffect} {check : Check Unit} (nests : Check.Nests r check)
      (top : w.checker.scopes.inner = []) : (w.perform file check).checker.scopes.inner = [] := by
    have same := (nests { w.checker with findings := [] }).length_inner
    exact List.length_eq_zero_iff.mp (same.trans (congrArg List.length top))
  have opened := (Workspace.opening_atTop file state session).scopes
  generalize Workspace.opening file state session = w at opened
  induction imports generalizing w with
  | nil => exact opened
  | cons i imports ih =>
      refine ih _ ?_
      rw [Workspace.bind_eq]
      cases (Workspace.exportsFor importer file i w.session).1 with
      | ok exports => exact performed { w with session := _ } (Check.bindImport_nests i exports) opened
      | error fault => exact opened

/--
In a program whose analysis succeeds the body of each class is checked with the entry that its own
declaration was completed with, and this entry lists its members: all of them, unless two of its
operators have one symbol. The classes of the file itself are known by this entry afterwards.
-/
theorem members_of_accepted {importer : Importer} {file : Path} {p : Program} {state : FileState}
    {session : Session} {m : AnalyzedModule}
    (ok : (analyzeWith importer file p state session).result = .ok m) :
    let bound := p.imports.foldl (Workspace.bind importer file) (.opening file state session)
    let start := { bound.checker with findings := [] }
    (∃ ks : List ClassCheck, ks.Sublist (bodiesOf (Check.bodyCourse p start)) ∧
      ks.map (·.d) = statementClasses p.body ∧
      ∀ k ∈ ks, k.Lists ((k.within.meaning k.d.name.text).withGenerics k.d.generics)) ∧
    ∀ s ∈ p.body, ∀ d, s.form = .classType d → m.global? d.name.text
      = some (.cls (Signature.ofClass (Hoisting.meaning ⟨p.body, start⟩ d.name.text) d)) := by
  intro bound start
  rw [Workspace.analyzeWith_eq] at ok
  obtain ⟨known, -, clean⟩ := Workspace.closing_ok ok
  have inner : bound.checker.scopes.inner = [] := inner_imported importer file state session _
  have covers := (Check.hoisted_covers fun start =>
    Check.statements_covers ⟨p.body, start⟩ false false p.body).covers start trivial clean
  obtain ⟨ks, sub, same, whole⟩ := covers
  refine ⟨⟨ks, sub, same, fun k mem => (whole k mem).lists⟩, fun s mem d isClass => ?_⟩
  let ahead := ((Check.hoist p.body).run start).2
  have statements := Check.statements_nests false false p.body ahead
  have front : ahead.Clean := (Check.statements_goes ⟨p.body, start⟩ false false p.body).clean clean
  have found := Check.Knows.back (Check.hoist_knows front s mem) statements d isClass
  have top := (Check.body_nests p start).length_inner
  rw [show start.scopes.inner = [] from inner, List.length_nil, List.length_eq_zero_iff] at top
  have current : ((Check.body p).run start).2.scopes.current
      = ((Check.body p).run start).2.scopes.global := by
    rw [Scopes.current, top]
    rfl
  rw [known]
  exact (congrArg (Frame.find? · d.name.text) current).symm.trans found

/-- A class with a binary and a unary operator of one symbol. -/
def twoMinuses : ClassDeclaration :=
  let vector : TypeExpr := ⟨.reference "V" [], .nowhere⟩
  let returns (e : ExprForm) : Block := ⟨[⟨.returns (some ⟨e, .nowhere, 1⟩), .nowhere⟩], .nowhere⟩
  let operator (isUnary : Bool) (params : List Param) (e : ExprForm) : ClassMember :=
    ⟨.empty, .operator "-" isUnary ⟨[], params, vector⟩ (returns e), .nowhere⟩
  ⟨.empty, ⟨"V", .nowhere⟩, [], none, [],
    [operator false [⟨⟨"other", .nowhere⟩, vector, false, .nowhere⟩] (.identifier "other"),
      operator true [] .this]⟩

/-- The class is accepted, and its entry has fewer entries than the class has members. -/
theorem unary_operator_without_entry :
    let p : Program := { (default : Program) with body := [⟨.classType twoMinuses, .nowhere⟩] }
    let file : Path := ⟨"main.ky"⟩
    let bound := Workspace.opening file .fresh (.start .empty)
    (∃ m, (analyzeWith (importFiles .empty 0) file p .fresh (.start .empty)).result = .ok m) ∧
      ∃ k ∈ bodiesOf (Check.bodyCourse p { bound.checker with findings := [] }), k.d = twoMinuses ∧
        k.known.fields.length + k.known.methods.length
          ≠ (twoMinuses.members.filter ClassMember.isListed).length := by
  intro p file bound
  have accepted : (match (analyzeWith (importFiles .empty 0) file p .fresh (.start .empty)).result with
    | .ok _ => true
    | .error _ => false) = true := by decide +kernel
  split at accepted
  · next m ok =>
      obtain ⟨⟨ks, sub, same, all⟩, -⟩ := members_of_accepted ok
      have one : ks.map (·.d) = [twoMinuses] := same
      obtain ⟨k, rfl, own⟩ := List.map_eq_singleton_iff.mp one
      refine ⟨⟨m, ok⟩, k, sub.subset (List.mem_singleton_self k), own, fun count => ?_⟩
      rw [← own, (all k (List.mem_singleton_self k)).complete_iff, own] at count
      revert count
      decide
  · cases accepted

end ScriptFront
