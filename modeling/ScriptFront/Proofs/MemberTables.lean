import ScriptFront.Proofs.Completion

/-!
The fields and methods in the entry of a class. Each table has the first member of every name, in
source order, so a member has an entry of its own if and only if no earlier one of its table has its
name. Which names the members of a class that is accepted have is left open.
-/

namespace ScriptFront
namespace Signature

/-! ### Entries of new names -/

section Insert

variable {α : Type} {name : α → String} {as es : List α} {a : α}

/-- Adds entries of new names in order. -/
def insertAll (name : α → String) : List α → List α → List α
  | [], es => es
  | a :: as, es => insertAll name as (insertNew name a es)

theorem insertAll_append (as bs es : List α) :
    insertAll name (as ++ bs) es = insertAll name bs (insertAll name as es) := by
  induction as generalizing es with
  | nil => rfl
  | cons a as ih => exact ih (insertNew name a es)

theorem insertNew_of_new (new : name a ∉ es.map name) : insertNew name a es = es ++ [a] := by
  refine if_neg fun known => new ?_
  obtain ⟨e, mem, same⟩ := List.any_eq_true.mp known
  exact List.mem_map.mpr ⟨e, mem, beq_iff_eq.mp same⟩

theorem insertNew_of_known (known : name a ∈ es.map name) : insertNew name a es = es := by
  obtain ⟨e, mem, same⟩ := List.mem_map.mp known
  have any : es.any (name · == name a) = true :=
    List.any_eq_true.mpr ⟨e, mem, beq_iff_eq.mpr same⟩
  exact if_pos any

/-- No two entries have one name. -/
theorem nodup_insertAll (h : (es.map name).Nodup) : ((insertAll name as es).map name).Nodup := by
  induction as generalizing es with
  | nil => exact h
  | cons a as ih =>
      refine ih ?_
      by_cases known : name a ∈ es.map name
      · rwa [insertNew_of_known known]
      · rw [insertNew_of_new known, List.map_append]
        refine List.nodup_append.mpr ⟨h, List.nodup_singleton _, ?_⟩
        rintro _ old _ here rfl
        exact known (List.mem_singleton.mp here ▸ old)

/-- By a name, the first one of it is found. -/
theorem find?_insertAll (n : String) :
    (insertAll name as es).find? (name · == n) = (es ++ as).find? (name · == n) := by
  induction as generalizing es with
  | nil => rw [List.append_nil]; rfl
  | cons a as ih =>
      refine ih.trans ?_
      by_cases known : name a ∈ es.map name
      · rw [insertNew_of_known known, List.find?_append, List.find?_append, List.find?_cons]
        split
        · next same =>
            -- The entry that has the name is in front of the one that is left out.
            obtain ⟨e, mem, own⟩ := List.mem_map.mp known
            have found : (es.find? (name · == n)).isSome :=
              List.find?_isSome.mpr ⟨e, mem, beq_iff_eq.mpr (own.trans (beq_iff_eq.mp same))⟩
            obtain ⟨first, here⟩ := Option.isSome_iff_exists.mp found
            rw [here, Option.some_or, Option.some_or]
        · rfl
      · rw [insertNew_of_new known, List.append_assoc, List.singleton_append]

theorem isSome_find?_filterMap {β : Type} {f : β → Option α} {p : α → Bool} (l : List β) :
    ((l.filterMap f).find? p).isSome = l.any fun b => (f b).any p := by
  induction l with
  | nil => rfl
  | cons b l ih =>
      rw [List.filterMap_cons, List.any_cons, ← ih]
      cases f b with
      | none => rfl
      | some a =>
          rw [List.find?_cons, Option.any_some]
          cases p a <;> rfl

theorem insertAll_sublist : (insertAll name as es).Sublist (es ++ as) := by
  induction as generalizing es with
  | nil =>
      rw [List.append_nil]
      exact List.Sublist.refl _
  | cons a as ih =>
      refine ih.trans ?_
      by_cases known : name a ∈ es.map name
      · rw [insertNew_of_known known]
        exact (List.sublist_cons_self a as).append_left es
      · rw [insertNew_of_new known, List.append_assoc]
        exact List.Sublist.refl _

/-- All entries are there if and only if their names are different. -/
theorem insertAll_eq_iff : insertAll name as [] = as ↔ (as.map name).Nodup := by
  refine ⟨fun all => all ▸ nodup_insertAll List.nodup_nil, fun nodup => ?_⟩
  have whole (es : List α) (h : ((es ++ as).map name).Nodup) :
      insertAll name as es = es ++ as := by
    induction as generalizing es with
    | nil => rw [List.append_nil]; rfl
    | cons a as ih =>
        have new : name a ∉ es.map name := by
          rw [List.map_append, List.nodup_append] at h
          exact fun known => h.2.2 _ known _ (List.mem_map_of_mem List.mem_cons_self) rfl
        rw [← List.singleton_append, ← List.append_assoc] at h ⊢
        rw [List.singleton_append, insertAll, insertNew_of_new new]
        exact ih (List.nodup_cons.mp nodup).2 (es ++ [a]) h
  exact whole [] nodup

/-- As many entries as there are things to enter are all of them. -/
theorem length_insertAll_iff :
    (insertAll name as []).length = as.length ↔ (as.map name).Nodup := by
  rw [← insertAll_eq_iff]
  exact ⟨fun same => insertAll_sublist.eq_of_length same, congrArg List.length⟩

end Insert

end Signature

/-! ### Members of a class -/

namespace ClassMember

/-- The entry of a property. -/
def field? (m : Meaning) (member : ClassMember) : Option VariableEntry :=
  match member.form with
  | .property d => some (Signature.ofProperty m member.modifiers d)
  | _ => none

/-- The entry of a method or an operator. -/
def method? (m : Meaning) (member : ClassMember) : Option FunctionEntry :=
  match member.form with
  | .method name s _ =>
    some (Signature.functionEntry m name s.generics s.params (some s.returns) member.modifiers)
  | .operator symbol _ s _ =>
    some (Signature.functionEntry m ⟨Signature.operatorName symbol, member.location⟩ s.generics
      s.params (some s.returns) member.modifiers)
  | _ => none

/-- The name of a property or of a method. Operators and constructors have none. -/
def name? (member : ClassMember) : Option Ident :=
  match member.form with
  | .property d => some d.name
  | .method name _ _ => some name
  | _ => none

/-- The name of a method, or of an operator by its symbol. -/
def methodName? (member : ClassMember) : Option String :=
  match member.form with
  | .method name _ _ => some name.text
  | .operator symbol _ _ _ => some (Signature.operatorName symbol)
  | _ => none

/-- The member is a property, a method or an operator. -/
def isListed (member : ClassMember) : Bool :=
  match member.form with
  | .constructor .. => false
  | _ => true

theorem name_method (m : Meaning) (member : ClassMember) :
    (member.method? m).map (·.name) = member.methodName? := by
  obtain ⟨modifiers, form, place⟩ := member
  cases form <;> rfl

/-- Each property, method or operator has an entry in one of the two tables. -/
theorem length_listed (m : Meaning) (ms : List ClassMember) :
    (ms.filterMap (field? m)).length + (ms.filterMap (method? m)).length
      = (ms.filter isListed).length := by
  induction ms with
  | nil => rfl
  | cons member ms ih =>
      obtain ⟨modifiers, form, place⟩ := member
      rw [List.filterMap_cons, List.filterMap_cons, List.filter_cons]
      cases form with
      | constructor params body => exact ih
      | method name s body => exact congrArg (· + 1) ih
      | operator symbol isUnary s body => exact congrArg (· + 1) ih
      | property d => exact (Nat.succ_add _ _).trans (congrArg (· + 1) ih)

end ClassMember

namespace Signature

/-- The tables of a class have its members by their first names. -/
theorem tables_ofClass (m : Meaning) (d : ClassDeclaration) :
    let inside := m.withGenerics d.generics
    (ofClass m d).fields = insertAll (·.name) (d.members.filterMap (ClassMember.field? inside)) [] ∧
      (ofClass m d).methods
        = insertAll (·.name) (d.members.filterMap (ClassMember.method? inside)) [] := by
  intro inside
  have whole (ms : List ClassMember) (k : ClassEntry) :
      (ms.foldl (addMember inside d.name) k).fields
          = insertAll (·.name) (ms.filterMap (ClassMember.field? inside)) k.fields ∧
        (ms.foldl (addMember inside d.name) k).methods
          = insertAll (·.name) (ms.filterMap (ClassMember.method? inside)) k.methods := by
    induction ms generalizing k with
    | nil => exact ⟨rfl, rfl⟩
    | cons member ms ih =>
        obtain ⟨fields, methods⟩ := ih (addMember inside d.name k member)
        obtain ⟨modifiers, form, place⟩ := member
        rw [List.foldl_cons, fields, methods]
        cases form <;> exact ⟨rfl, rfl⟩
  exact whole d.members _

end Signature
end ScriptFront
