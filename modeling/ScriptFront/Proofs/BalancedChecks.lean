import ScriptFront.Proofs.TwinScopes

/-!
All checks are balanced: each expression, pattern, statement and class leaves the scopes that it
opens, and no others. Only declarations reach the frame that a check starts in, and what is found
is found inside of what is checked. Which findings arise is left open.
-/

namespace ScriptFront
namespace Check

variable {α : Type} {Q : Finding → Prop} {i : Nat}

/-! ### Types -/

mutual

/-- In a written type that denotes nothing, a name at one of its places is no type. -/
theorem typeExpr_error_at (m : Meaning) :
    ∀ t : TypeExpr, t.outline.All (Node.Within (AllAt Q)) →
      Fails (fun e => AllAt Q e.location ∧ e.fault.kind = .unknownType) (t.resolve m)
  | ⟨form, place⟩, h => typeForm_error_at m place h.1.location form h.2

theorem typeForm_error_at (m : Meaning) (place : Location) (here : AllAt Q place) :
    ∀ form : TypeForm, AllOf (Node.Within (AllAt Q)) form.outlines →
      Fails (fun e => AllAt Q e.location ∧ e.fault.kind = .unknownType) (form.resolve m place)
  | .reference name generics, h => by
      refine fails_bind (resolveAll_error_at m generics h) fun arguments => ?_
      split
      · exact fails_ok _
      · intro e failed
        cases failed
        exact ⟨here, rfl⟩
  | .array t, h => fails_bind (typeExpr_error_at m t h.1) fun _ => fails_ok _
  | .union l r, h | .intersection l r, h =>
      fails_bind (typeExpr_error_at m l h.1) fun _ =>
        fails_bind (typeExpr_error_at m r h.2.1) fun _ => fails_ok _
  | .infer, _ | .void, _ | .null, _ | .undefined, _ => fails_ok _

theorem resolveAll_error_at (m : Meaning) :
    ∀ ts : List TypeExpr, AllOf (Node.Within (AllAt Q)) (typeOutlines ts) →
      Fails (fun e => AllAt Q e.location ∧ e.fault.kind = .unknownType) (resolveAll m ts)
  | [], _ => fails_ok _
  | t :: ts, h =>
      fails_bind (typeExpr_error_at m t h.1) fun _ =>
        fails_bind (resolveAll_error_at m ts h.2) fun _ => fails_ok _

end

theorem resolveType_balanced {t : TypeExpr} (h : t.outline.All (Node.Within (AllAt Q))) :
    Balanced Q i i (resolveType t) := by
  refine meaning_balanced.bind fun m => ?_
  cases failed : t.resolve m with
  | ok ty => exact balanced_pure _
  | error e =>
      obtain ⟨at_, kind⟩ := typeExpr_error_at m t h e failed
      exact (error_balanced at_ (by simp [kind])).bind fun _ => balanced_pure _

theorem assignable_balanced (found expected : Ty) {place : Location} (h : AllAt Q place) :
    Balanced Q i i (assignable found expected place) := by
  unfold assignable
  split
  · exact error_balanced h (by simp [SemanticFault.kind])
  · exact balanced_pure _

theorem assignable?_balanced (found expected : Option Ty) {place : Location} (h : AllAt Q place) :
    Balanced Q i i (assignable? found expected place) := by
  unfold assignable?
  split
  · exact assignable_balanced _ _ h
  · exact balanced_pure _

/-! ### Members and expressions -/

theorem classMember_balanced (className member : String) :
    Balanced Q i i (classMember className member) :=
  balanced_of_same (fun _ => rfl) fun _ _ twin =>
    Scopes.classMember_congr twin.frames.alike className member

theorem thisType_balanced : Balanced Q i i thisType :=
  balanced_of_same (fun _ => rfl) fun c d twin => by
    change c.classes.head?.map (·.type.toTy) = d.classes.head?.map (·.type.toTy)
    rw [twin.classes]

theorem objectType_balanced (object : Expr) : Balanced Q i i (objectType object) := by
  unfold objectType
  split
  · exact thisType_balanced
  · exact (lookup_balanced _).bind fun _ => balanced_pure _
  · exact balanced_pure _

theorem writable_balanced {target : Expr} (h : AllAt Q target.location) :
    Balanced Q i i (writable target) := by
  have refused (fault : WriteFault) :
      Balanced Q i i (error (.invalidAssignment fault) target.location) :=
    error_balanced h (by simp [SemanticFault.kind])
  unfold writable
  split
  · refine (lookup_balanced _).bind fun entry => ?_
    split
    · exact refused _
    · exact balanced_pure _
  · next object _ _ =>
    refine (objectType_balanced _).bind fun type => ?_
    split
    · refine (classMember_balanced _ _).bind fun found => ?_
      split
      · next name _ _ _ _ _ _ _ modifiers =>
        let write (inConstructor : Bool) : Check Unit :=
          if modifiers.isImmutable && !(inConstructor && isThis object) then
            error (.invalidAssignment (.readOnly name)) target.location
          else pure ()
        refine balanced_get_bind write (·.inConstructor) (fun _ _ twin => twin.inConstructor)
          (fun _ => rfl) fun inConstructor => ?_
        dsimp only [write]
        split
        · exact refused _
        · exact balanced_pure _
      · exact balanced_pure _
    · exact balanced_pure _
  · exact balanced_pure _

theorem call_balanced (name : String) (callee : Ty) (count : Nat) {place : Location}
    (h : AllAt Q place) : Balanced Q i i (call name callee count place) := by
  unfold call
  split
  · dsimp only
    split
    · exact (error_balanced h (by simp [SemanticFault.kind])).bind fun _ => balanced_pure _
    · exact balanced_pure _
  · exact balanced_pure _

theorem memberType_balanced (object : Option Ty) (property : Expr) :
    Balanced Q i i (memberType object property) := by
  unfold memberType
  split
  · exact (classMember_balanced _ _).bind fun _ => balanced_pure _
  · exact balanced_pure _
  · exact balanced_pure _

theorem created_balanced {className : Ident} (generics : List Ty) (count : Nat) {place : Location}
    (h : AllAt Q place) (hc : AllAt Q className.location) :
    Balanced Q i i (created className generics count place) := by
  refine (resolveName_balanced _ hc).bind fun entry => ?_
  split
  · dsimp only
    split
    · exact (call_balanced _ _ _ h).bind fun _ => balanced_pure _
    · exact balanced_pure _
  · exact (error_balanced hc (by simp [SemanticFault.kind])).bind fun _ => balanced_pure _
  · exact balanced_pure _

theorem genericTypes_balanced :
    ∀ ts : List TypeExpr, AllOf (Node.Within (AllAt Q)) (typeOutlines ts) →
      Balanced Q i i (genericTypes ts)
  | [], _ => balanced_pure _
  | _ :: ts, h =>
      (resolveType_balanced h.1).bind fun _ =>
        (genericTypes_balanced ts h.2).bind fun _ => balanced_pure _

theorem within_location {e : Expr} (h : e.outline.All (Node.Within (AllAt Q))) : AllAt Q e.location := by
  obtain ⟨form, place, height⟩ := e
  exact h.1.location

theorem localVariable_within (name : String) (type : Ty) {place : Location} (h : AllAt Q place) :
    (Entry.var (localVariable name type place)).Within Q := Entry.within_of_place fun _ => h

mutual

theorem expr_balanced {i : Nat} :
    ∀ e : Expr, e.outline.All (Node.Within (AllAt Q)) → Balanced Q i i (expr e)
  | ⟨form, place, _⟩, h =>
      exprForm_balanced place h.1.location form (fun _ => h.1.ident) h.2

theorem exprForm_balanced {i : Nat} (place : Location) (here : AllAt Q place) :
    ∀ form : ExprForm, (∀ x, x ∈ (Node.expression ⟨form, place, 0⟩).idents → AllAt Q x.location) →
      AllOf (Node.Within (AllAt Q)) form.outlines → Balanced Q i i (exprForm place form)
  | .number .., _, _ | .string _, _, _ | .boolean _, _, _ | .null, _, _ | .undefined, _, _
  | .nan, _, _ => balanced_pure _
  | .identifier name, _, _ => (resolveName_balanced name here).map _
  | .this, _, _ => by
      refine thisType_balanced.bind fun t => ?_
      dsimp only
      split
      · exact (error_balanced here (by simp [SemanticFault.kind])).bind fun _ => balanced_pure _
      · exact balanced_pure _
  | .binary op left right, _, h => by
      refine (expr_balanced left h.1).bind fun l => (expr_balanced right h.2.1).bind fun r => ?_
      split
      · exact balanced_pure _
      · exact balanced_pure _
  | .logical _ left right, _, h =>
      (expr_balanced left h.1).bind fun _ =>
        (expr_balanced right h.2.1).bind fun _ => balanced_pure _
  | .conditional test yes no, _, h =>
      (expr_balanced test h.1).bind fun _ =>
        (expr_balanced yes h.2.1).bind fun _ =>
          (expr_balanced no h.2.2.1).bind fun _ => balanced_pure _
  | .unary op operand, _, h => by
      refine (expr_balanced operand h.1).bind fun t => ?_
      split
      · exact balanced_pure _
      · exact balanced_pure _
  | .update _ _ operand, _, h =>
      (expr_balanced operand h.1).bind fun _ =>
        (writable_balanced (within_location h.1)).bind fun _ => balanced_pure _
  | .await operand, _, h => expr_balanced operand h.1
  | .call callee generics args, _, h => by
      obtain ⟨types, values⟩ := allOf_append.mp h.2
      refine (genericTypes_balanced generics types).bind fun _ =>
        (exprs_balanced args values).bind fun _ => ?_
      split
      · refine (readName_balanced _).bind fun entry => ?_
        split
        · exact call_balanced _ _ _ here
        · exact (error_balanced (within_location h.1) (by simp [SemanticFault.kind])).bind
            fun _ => balanced_pure _
      · refine (expr_balanced callee h.1).bind fun t => ?_
        split
        · exact call_balanced _ _ _ here
        · exact balanced_pure _
      · exact (expr_balanced callee h.1).bind fun _ => balanced_pure _
  | .member object property computed, _, h => by
      refine (expr_balanced object h.1).bind fun o => ?_
      split
      · next isComputed =>
        have inside := h.2
        rw [if_pos isComputed] at inside
        exact (expr_balanced property inside.1).bind fun _ => balanced_pure _
      · exact memberType_balanced _ _
  | .array items, _, h => (exprs_balanced items h).bind fun _ => balanced_pure _
  | .object properties, _, h => (propertyTypes_balanced properties h).bind fun _ => balanced_pure _
  | .new className generics args, idents, h => by
      obtain ⟨types, values⟩ := allOf_append.mp h
      exact (genericTypes_balanced generics types).bind fun _ =>
        (exprs_balanced args values).bind fun _ =>
          created_balanced _ _ here (idents className (List.mem_singleton.mpr rfl))
  | .match_ value arms, _, h =>
      (expr_balanced value h.1).bind fun subject =>
        (armTypes_balanced subject arms h.2).bind fun _ => balanced_pure _
  | .is subject _ target, _, h =>
      (expr_balanced subject h.1).bind fun _ =>
        (expr_balanced target h.2.1).bind fun _ => balanced_pure _

theorem exprs_balanced {i : Nat} :
    ∀ es : List Expr, AllOf (Node.Within (AllAt Q)) (exprOutlines es) → Balanced Q i i (exprs es)
  | [], _ => balanced_pure _
  | e :: es, h =>
      (expr_balanced e h.1).bind fun _ => (exprs_balanced es h.2).bind fun _ => balanced_pure _

theorem propertyTypes_balanced {i : Nat} :
    ∀ ps : List Property, AllOf (Node.Within (AllAt Q)) (propertyOutlines ps) →
      Balanced Q i i (propertyTypes ps)
  | [], _ => balanced_pure _
  | ⟨_, value, _⟩ :: ps, h =>
      (expr_balanced value h.1).bind fun _ =>
        (propertyTypes_balanced ps h.2).bind fun _ => balanced_pure _

theorem armTypes_balanced {i : Nat} (subject : Option Ty) :
    ∀ arms : List MatchArm, AllOf (Node.Within (AllAt Q)) (armOutlines arms) →
      Balanced Q i i (armTypes subject arms)
  | [], _ => balanced_pure _
  | ⟨p, body, _⟩ :: arms, h =>
      enterScope_balanced.bind fun _ =>
        (pattern_balanced subject p h.1).bind fun _ =>
          (expr_balanced body h.2.1).bind fun _ =>
            leaveLocalScope_balanced.bind fun _ =>
              (armTypes_balanced subject arms h.2.2).bind fun _ => balanced_pure _

theorem pattern_balanced {i : Nat} (subject : Option Ty) :
    ∀ p : Pattern, p.outline.All (Node.Within (AllAt Q)) → Balanced Q (i + 1) (i + 1) (pattern subject p)
  | ⟨form, place⟩, h => patternForm_balanced subject place h.1.location form h.2

theorem patternForm_balanced {i : Nat} (subject : Option Ty) (place : Location) (here : AllAt Q place) :
    ∀ form : PatternForm, AllOf (Node.Within (AllAt Q)) form.outlines →
      Balanced Q (i + 1) (i + 1) (patternForm subject place form)
  | .literal _, _ | .range .., _ | .wildcard, _ => balanced_pure _
  | .identifier name, _ => (resolveName_balanced name here).bind fun _ => balanced_pure _
  | .member path, _ => by
      unfold patternForm
      split
      · exact (resolveName_balanced _ here).bind fun _ => balanced_pure _
      · exact balanced_pure _
  | .binding name, _ => declare_balanced here (localVariable_within _ _ here)
  | .guarded p guard, h =>
      (pattern_balanced subject p h.1).bind fun _ =>
        (expr_balanced guard h.2.1).bind fun _ => balanced_pure _

end

end Check
end ScriptFront
