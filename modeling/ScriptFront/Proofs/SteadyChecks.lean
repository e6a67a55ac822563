import ScriptFront.Proofs.BalancedStatements

/-!
Checks that take no notice of which names were read. At the top level of a file all checks are of
this kind: what they find is decided by entries alone. Declarations ahead read no bodies of functions
either, so a body can reach no further than to the scope that it stands in.
-/

namespace ScriptFront

/-! ### Checks that take no notice of reads -/

/--
States outside of constructors that differ only in which names were read, and in what was found
before.
-/
structure Checker.Alike (c d : Checker) : Prop where
  entries : c.scopes.frames.map Frame.entries = d.scopes.frames.map Frame.entries
  classes : c.classes = d.classes
  outside : c.inConstructor = false
  outside' : d.inConstructor = false
  imported : c.imported = d.imported

/-- States that are alike are twins without any frames in common. -/
theorem Checker.Alike.twin {c d : Checker} (h : c.Alike d) : c.Twin 0 d where
  frames := .outer c.scopes.frames_ne_nil d.scopes.frames_ne_nil (.of_entries h.entries)
  classes := h.classes
  inConstructor := h.outside.trans h.outside'.symm
  imported := h.imported

namespace Check

variable {α β : Type} {Q : Finding → Prop}

/-- A check that ran in two states yields one value, adds the same findings, and the states end alike. -/
structure InUnison (c d : Checker) (r r' : α × Checker) : Prop where
  value : r.1 = r'.1
  alike : r.2.Alike r'.2
  found : ∃ found, r.2.findings = c.findings ++ found ∧ r'.2.findings = d.findings ++ found

/-- A check that does the same in states that are alike. -/
def Steady (m : Check α) : Prop := ∀ c d, c.Alike d → InUnison c d (m.run c) (m.run d)

theorem steady_of_balanced {m : Check α} (h : Balanced Q 0 0 m) : Steady m := by
  intro c d alike
  have same : d.Alike d := ⟨rfl, rfl, alike.outside', alike.outside', rfl⟩
  obtain ⟨value, twin, -, keeps, found, first, second, -⟩ :=
    h c d alike.twin (framesWithin_zero _ _)
  obtain ⟨-, -, -, keeps', -⟩ := h d d same.twin (framesWithin_zero _ _)
  have entries : (m.run c).2.scopes.frames.map Frame.entries
      = (m.run d).2.scopes.frames.map Frame.entries :=
    keeps.entries.trans (alike.entries.trans keeps'.entries.symm)
  exact ⟨value, ⟨entries, twin.classes, keeps.inConstructor alike.outside,
    keeps'.inConstructor alike.outside', twin.imported⟩, found, first, second⟩

theorem Steady.bind {m : Check α} {f : α → Check β} (hm : Steady m) (hf : ∀ a, Steady (f a)) :
    Steady (m >>= f) := by
  intro c d alike
  obtain ⟨value, alike', found, first, first'⟩ := hm c d alike
  obtain ⟨value', alike'', more, second, second'⟩ := hf (m.run c).1 _ _ alike'
  rw [StateT.run_bind, StateT.run_bind]
  change InUnison c d ((f (m.run c).1).run (m.run c).2) ((f (m.run d).1).run (m.run d).2)
  rw [← value]
  refine ⟨value', alike'', found ++ more, ?_, ?_⟩
  · rw [second, first, List.append_assoc]
  · rw [second', first', List.append_assoc]

theorem steady_pure (a : α) : Steady (pure a : Check α) :=
  fun _ _ alike => ⟨rfl, alike, [], (List.append_nil _).symm, (List.append_nil _).symm⟩

theorem steady_forM {l : List α} {f : α → Check Unit} (h : ∀ a ∈ l, Steady (f a)) :
    Steady (l.forM f) := by
  induction l with
  | nil => exact steady_pure _
  | cons a l ih =>
      obtain ⟨here, below⟩ := List.forall_mem_cons.mp h
      exact here.bind fun _ => ih below

theorem error_steady (fault : SemanticFault) (place : Location) : Steady (error fault place) :=
  fun _ _ alike => ⟨rfl, ⟨alike.entries, alike.classes, alike.outside, alike.outside',
    alike.imported⟩, _, rfl, rfl⟩

theorem warn_steady (w : Warning) (place : Location) : Steady (warn w place) :=
  fun _ _ alike => ⟨rfl, ⟨alike.entries, alike.classes, alike.outside, alike.outside',
    alike.imported⟩, _, rfl, rfl⟩

/-- In states that are alike a name is free in the innermost frame in both, or taken in both. -/
theorem define_alike {c d : Checker} (alike : c.Alike d) (e : Entry) :
    (∃ existing, c.scopes.define e = .error existing ∧ d.scopes.define e = .error existing) ∨
      ∃ s t, c.scopes.define e = .ok s ∧ d.scopes.define e = .ok t ∧
        Checker.Alike { c with scopes := s } { d with scopes := t } := by
  have frames := alike.entries
  rw [Scopes.frames_eq, Scopes.frames_eq, List.map_cons, List.map_cons, List.cons.injEq] at frames
  obtain ⟨current, outer⟩ := frames
  have found : c.scopes.current.find? e.name = d.scopes.current.find? e.name := by
    rw [Frame.find?, Frame.find?, current]
  unfold Scopes.define Frame.define
  rw [← found]
  cases c.scopes.current.find? e.name with
  | some existing => exact .inl ⟨existing, rfl, rfl⟩
  | none =>
      refine .inr ⟨_, _, rfl, rfl, ?_, alike.classes, alike.outside, alike.outside',
        alike.imported⟩
      dsimp only
      rw [Scopes.frames_eq, Scopes.frames_eq, Scopes.current_modifyCurrent,
        Scopes.current_modifyCurrent, Scopes.outer_modifyCurrent, Scopes.outer_modifyCurrent,
        List.map_cons, List.map_cons, outer, current]

theorem declare_steady (e : Entry) (place : Location) : Steady (declare e place) := by
  intro c d alike
  unfold declare
  rw [run_get_bind, run_get_bind]
  obtain ⟨existing, taken, taken'⟩ | ⟨s, t, free, free', alike'⟩ := define_alike alike e
  · simp only [taken, taken']
    exact error_steady _ _ c d alike
  · simp only [free, free']
    exact ⟨rfl, alike', [], (List.append_nil _).symm, (List.append_nil _).symm⟩

theorem declareAhead_steady (ss : List Statement) : Steady (declareAhead ss) := by
  induction ss with
  | nil => exact steady_pure _
  | cons s ss rest =>
      unfold declareAhead
      split
      · exact rest
      · next name e _ =>
          intro c d alike
          rw [run_get_bind, run_get_bind]
          obtain ⟨existing, taken, taken'⟩ | ⟨u, t, free, free', alike'⟩ := define_alike alike e
          · simp only [taken, taken']
            exact ((error_steady _ _).bind fun _ => rest) c d alike
          · simp only [free, free']
            have step := (rest.bind fun declared => steady_pure (s :: declared)) _ _ alike'
            exact ⟨step.value, step.alike, step.found⟩

theorem completeEntry_steady (s : Statement) : Steady (completeEntry s) := by
  have meaning_steady : Steady meaning :=
    steady_of_balanced (Q := fun _ => True) meaning_balanced
  refine meaning_steady.bind fun m => ?_
  split
  · next e _ =>
      intro c d alike
      refine ⟨rfl, ⟨?_, alike.classes, alike.outside, alike.outside', alike.imported⟩, [],
        (List.append_nil _).symm, (List.append_nil _).symm⟩
      have frames := alike.entries
      rw [Scopes.frames_eq, Scopes.frames_eq, List.map_cons, List.map_cons,
        List.cons.injEq] at frames
      change (c.scopes.complete e).frames.map Frame.entries
        = (d.scopes.complete e).frames.map Frame.entries
      rw [Scopes.frames_complete, Scopes.frames_complete, List.map_cons, List.map_cons, frames.2,
        Frame.complete, Frame.complete, frames.1]
  · exact steady_pure _

theorem hoist_steady (body : List Statement) : Steady (hoist body) :=
  (declareAhead_steady body).bind fun _ => steady_forM fun s _ => completeEntry_steady s

theorem varGroup_steady (d : VariableDeclaration) : Steady (varGroup d) := by
  have init : AllOf (Node.Within (AllAt fun _ => True)) (ScriptFront.optionalExpr d.init) :=
    allOf_iff.mpr fun o _ => within_anything o
  rw [varGroup_eq]
  exact (steady_of_balanced (variableType_balanced (within_anything _) init)).bind fun _ =>
    steady_forM fun _ _ => declare_steady _ _

theorem statement_steady (s : Statement) : Steady (statement s) := by
  by_cases group : ∃ d, s.form = .varGroup d
  · obtain ⟨d, isGroup⟩ := group
    obtain ⟨form, place⟩ := s
    obtain rfl := isGroup
    exact varGroup_steady d
  · exact steady_of_balanced
      (statement_balanced s (within_anything _) fun d isGroup => absurd ⟨d, isGroup⟩ group)

theorem statements_steady (ended warned : Bool) (ss : List Statement) :
    Steady (statements ended warned ss) := by
  induction ss generalizing ended warned with
  | nil => exact steady_pure _
  | cons s ss ih =>
      unfold statements
      dsimp only
      split
      · exact (warn_steady _ _).bind fun _ => (statement_steady s).bind fun _ => ih _ _
      · exact (statement_steady s).bind fun _ => ih _ _

theorem declareImport_steady (e : Entry) (tracked : Bool) : Steady (declareImport e tracked) := by
  unfold declareImport
  dsimp only
  split
  · have noted : Steady (modify fun c => { c with
        imported := c.imported ++ [(e.name, e.location.getD .nowhere)] } : Check Unit) :=
      fun _ _ alike => ⟨rfl, ⟨alike.entries, alike.classes, alike.outside, alike.outside',
        congrArg (· ++ _) alike.imported⟩, [], (List.append_nil _).symm, (List.append_nil _).symm⟩
    exact noted.bind fun _ => declare_steady _ _
  · exact declare_steady _ _

theorem bindName_steady (i : ImportDeclaration) (wanted : String) (entry : Option Entry)
    (name : Ident) (place : Location) : Steady (bindName i wanted entry name place) := by
  unfold bindName
  split
  · exact declareImport_steady _ _
  · exact error_steady _ _

theorem importing_steady (i : ImportDeclaration) (exports : Except SemanticFault ExportTable) :
    Steady (importing i exports) := by
  unfold importing
  split
  · next table =>
      unfold bindImport
      extract_lets named whole
      have namedSteady (u : Unit) : Steady (named u) :=
        steady_forM fun _ _ => bindName_steady _ _ _ _ _
      have wholeSteady (u : Unit) : Steady (whole u) := by
        dsimp only [whole]
        split
        · exact (bindName_steady _ _ _ _ _).bind namedSteady
        · exact namedSteady ()
      split
      · exact (steady_forM fun _ _ => declareImport_steady _ _).bind wholeSteady
      · exact wholeSteady ()
  · exact error_steady _ _

theorem builtins_steady : Steady builtins := by
  refine steady_forM fun e _ c d alike => ?_
  have same (s t : Scopes) (alike' : Checker.Alike { c with scopes := s } { d with scopes := t }) :
      InUnison c d ((), { c with scopes := s }) ((), { d with scopes := t }) :=
    ⟨rfl, alike', [], (List.append_nil _).symm, (List.append_nil _).symm⟩
  change InUnison c d ((), _) ((), _)
  obtain ⟨existing, taken, taken'⟩ | ⟨s, t, free, free', alike'⟩ := define_alike alike e
  · simp only [taken, taken']
    exact same c.scopes d.scopes alike
  · simp only [free, free']
    exact same s t alike'

/-! ### Declarations ahead read no bodies -/

end Check

/-- A statement with the body of a function left out. -/
def Statement.withoutBody (s : Statement) : Statement :=
  match s.form with
  | .function d => ⟨.function { d with body := default }, s.location⟩
  | _ => s

namespace Statement

variable (s : Statement)

theorem provisional?_withoutBody : s.withoutBody.provisional? = s.provisional? := by
  obtain ⟨form, place⟩ := s
  cases form <;> rfl

theorem completed?_withoutBody (m : Meaning) : s.withoutBody.completed? m = s.completed? m := by
  obtain ⟨form, place⟩ := s
  cases form <;> rfl

theorem isFunction_withoutBody : s.withoutBody.isFunction = s.isFunction := by
  obtain ⟨form, place⟩ := s
  cases form <;> rfl

theorem typeName?_withoutBody :
    CompletionOrder.typeName? s.withoutBody = CompletionOrder.typeName? s := by
  obtain ⟨form, place⟩ := s
  cases form <;> rfl

theorem signatureMentions_withoutBody : s.withoutBody.signatureMentions = s.signatureMentions := by
  obtain ⟨form, place⟩ := s
  cases form <;> rfl

end Statement

theorem CompletionOrder.of_withoutBody (ss : List Statement) :
    CompletionOrder.of (ss.map Statement.withoutBody)
      = (CompletionOrder.of ss).map Statement.withoutBody := by
  have dependencies_eq : dependencies (ss.map Statement.withoutBody) = dependencies ss := by
    funext i
    unfold dependencies
    simp only [List.getElem?_map, List.length_map, Option.map_map, Option.bind_map]
    have names : CompletionOrder.typeName? ∘ Statement.withoutBody = typeName? :=
      funext Statement.typeName?_withoutBody
    have mentions : Statement.signatureMentions ∘ Statement.withoutBody
        = Statement.signatureMentions := funext Statement.signatureMentions_withoutBody
    rw [names, mentions]
  unfold CompletionOrder.of
  dsimp only
  rw [dependencies_eq, List.length_map, List.map_filterMap]
  simp only [List.getElem?_map]
  let ordered (roots : List Nat) : List Nat :=
    (roots.foldl (visit (dependencies ss) ss.length) ⟨[], []⟩).order
  refine congrArg (fun roots => (ordered roots).filterMap (ss[·]?.map Statement.withoutBody)) ?_
  refine List.filter_congr fun i _ => ?_
  cases ss[i]? with
  | none => rfl
  | some s => exact congrArg Option.isSome s.typeName?_withoutBody

namespace Check

theorem declareAhead_withoutBody (ss : List Statement) :
    declareAhead (ss.map Statement.withoutBody)
      = List.map Statement.withoutBody <$> declareAhead ss := by
  induction ss with
  | nil => rfl
  | cons s ss ih =>
      rw [List.map_cons, declareAhead, declareAhead, s.provisional?_withoutBody, ih]
      cases s.provisional? with
      | none => rfl
      | some ahead =>
          obtain ⟨name, e⟩ := ahead
          funext c
          dsimp only
          rw [map_bind]
          change StateT.run _ c = StateT.run _ c
          rw [run_get_bind, run_get_bind]
          cases c.scopes.define e with
          | ok scopes => simp
          | error existing => simp

/-- What is declared ahead, and how it is completed, is up to signatures alone. -/
theorem hoist_withoutBody (ss : List Statement) :
    hoist (ss.map Statement.withoutBody) = hoist ss := by
  have completed (s : Statement) : completeEntry s.withoutBody = completeEntry s := by
    unfold completeEntry
    simp only [s.completed?_withoutBody]
  have functions (ss : List Statement) :
      (ss.map Statement.withoutBody).filter (·.isFunction)
        = (ss.filter (·.isFunction)).map Statement.withoutBody := by
    rw [List.filter_map]
    exact congrArg _ (List.filter_congr fun s _ => s.isFunction_withoutBody)
  unfold hoist
  rw [declareAhead_withoutBody]
  simp only [map_eq_pure_bind, bind_assoc, pure_bind, CompletionOrder.of_withoutBody, functions,
    ← List.map_append]
  refine bind_congr fun declared => ?_
  generalize CompletionOrder.of declared ++ CompletionOrder.of declared
    ++ declared.filter (·.isFunction) = order
  induction order with
  | nil => rfl
  | cons s order ih =>
      change (do completeEntry s.withoutBody; (order.map Statement.withoutBody).forM completeEntry)
        = (do completeEntry s; order.forM completeEntry)
      rw [completed, ih]

end Check
end ScriptFront
