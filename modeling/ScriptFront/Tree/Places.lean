import ScriptFront.Tree.Outline

/-!
The places of a tree: where its nodes stand, and where the names stand that they write themselves.
-/

namespace ScriptFront

/-- The names that a node declares; a new object has the name of its class instead. -/
def Node.idents : Node → List Ident
  | .statement s =>
    match s.form with
    | .varGroup d => d.names
    | .function d => d.name :: d.signature.generics
    | .classType d => d.name :: d.generics
    | .structType d => d.name :: d.generics
    | .tryCatch _ handlers _ => handlers.map (·.name)
    | _ => []
  | .member m =>
    match m.form with
    | .constructor .. => []
    | .method name signature _ => name :: signature.generics
    | .operator _ _ signature _ => signature.generics
    | .property d => [d.name]
  | .expression e =>
    match e.form with
    | .new className _ _ => [className]
    | _ => []
  | .parameter p => [p.name]
  | .program _ | .importing _ | .block _ | .pattern _ | .type _ => []

/-- The places of a node alone. -/
def Node.places (n : Node) : List Location := n.location :: n.idents.map (·.location)

/-- The places of a tree. -/
def Outline.places (o : Outline) : List Location := (o.walk Visit.everything).flatMap Node.places

/-- A node all of whose places have a property. -/
def Node.Within (P : Location → Prop) (n : Node) : Prop := ∀ l ∈ n.places, P l

theorem Node.Within.location {P : Location → Prop} {n : Node} (h : n.Within P) : P n.location :=
  h _ (List.mem_cons_self ..)

theorem Node.Within.ident {P : Location → Prop} {n : Node} {x : Ident} (h : n.Within P)
    (mem : x ∈ n.idents) : P x.location :=
  h _ (List.mem_cons_of_mem _ (List.mem_map_of_mem mem))

section Walk

variable {P : Node → Prop}

mutual

theorem Outline.all_of_walk :
    ∀ o : Outline, (∀ n ∈ o.walk Visit.everything, P n) → o.All P
  | .node root children, h => by
      obtain ⟨here, below⟩ := List.forall_mem_append.mp h
      exact ⟨here root (List.mem_singleton.mpr rfl), allOf_of_walk children below⟩

theorem allOf_of_walk :
    ∀ os : List Outline, (∀ n ∈ walkAll Visit.everything os, P n) → AllOf P os
  | [], _ => trivial
  | o :: os, h => by
      obtain ⟨first, rest⟩ := List.forall_mem_append.mp h
      exact ⟨o.all_of_walk first, allOf_of_walk os rest⟩

end

mutual

theorem Outline.All.forall_walk :
    ∀ {o : Outline}, o.All P → ∀ n ∈ o.walk Visit.everything, P n
  | .node _ _, h =>
      List.forall_mem_append.mpr ⟨List.forall_mem_singleton.mpr h.1, h.2.forall_walk⟩

theorem AllOf.forall_walk :
    ∀ {os : List Outline}, AllOf P os → ∀ n ∈ walkAll Visit.everything os, P n
  | [], _ => nofun
  | _ :: _, h => List.forall_mem_append.mpr ⟨h.1.forall_walk, h.2.forall_walk⟩

end

end Walk

/-- What holds of all places of a tree holds of those of each of its nodes. -/
theorem Outline.all_within {P : Location → Prop} (o : Outline) (h : ∀ l ∈ o.places, P l) :
    o.All (Node.Within P) :=
  o.all_of_walk fun _ mem l place => h l (List.mem_flatMap.mpr ⟨_, mem, place⟩)

end ScriptFront
