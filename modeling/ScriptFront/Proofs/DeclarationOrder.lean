import ScriptFront.Proofs.SignatureMentions

/-!
Where no type or class of a block leads back to itself by mentions, the order of declarations does
not matter for what names stand for once the block was declared ahead. The entries are then settled,
that is, each is what its declaration says under the very meaning that they make up. There is only
one such meaning, and it knows nothing of an order.
-/

namespace ScriptFront

/-! ### Declarations ahead of a block in another order -/

theorem Scopes.find?_of_define_error {s : Scopes} {e existing : Entry}
    (h : s.define e = .error existing) : s.current.find? e.name = some existing := by
  unfold define Frame.define at h
  cases found : s.current.find? e.name with
  | none => simp [found] at h
  | some old => simpa [found] using h

theorem Scopes.outer_define {s t : Scopes} {e : Entry} (h : s.define e = .ok t) :
    t.outer = s.outer := by
  unfold define at h
  split at h
  · cases h
    exact outer_modifyCurrent s _
  · cases h

theorem Scopes.lookup_define {s t : Scopes} {e : Entry} (h : s.define e = .ok t) {x : String}
    (other : e.name ≠ x) : t.lookup x = s.lookup x := by
  obtain ⟨_, found⟩ := Frame.find?_define (current_define h) x
  rw [lookup_eq, lookup_eq, outer_define h, found, if_neg other, Option.or_none]

/-- The name that a statement declares ahead of its block is free in the innermost scope. -/
def Statement.isFreeIn (scopes : Scopes) (s : Statement) : Bool :=
  s.aheadName?.any fun x => (scopes.current.find? x).isNone

namespace Check

/-- Declarations with names of their own are accepted wherever these are free. -/
theorem declared_eq_filter {body : List Statement}
    (distinct : (body.filterMap (·.aheadName?)).Nodup) (c : Checker) :
    ((declareAhead body).run c).1 = body.filter (·.isFreeIn c.scopes) := by
  induction body generalizing c with
  | nil => rfl
  | cons s body ih =>
      cases h : s.provisional? with
      | none =>
          have ahead : s.aheadName? = none := by simp [Statement.aheadName?, h]
          have notFree : ¬ s.isFreeIn c.scopes := by simp [Statement.isFreeIn, ahead]
          rw [List.filterMap_cons_none ahead] at distinct
          rw [declareAhead_skip h, ih distinct, List.filter_cons_of_neg notFree]
      | some declaration =>
          obtain ⟨name, e⟩ := declaration
          have named := Statement.name_provisional h
          have ahead : s.aheadName? = some name.text := by simp [Statement.aheadName?, h]
          rw [List.filterMap_cons_some ahead, List.nodup_cons] at distinct
          cases defined : c.scopes.define e with
          | ok scopes =>
              have frames := Frame.find?_define (Scopes.current_define defined)
              have isFree : s.isFreeIn c.scopes := by
                simp [Statement.isFreeIn, ahead, ← named, (frames e.name).1]
              -- The declarations that follow have other names, which are as free as before.
              have later : ∀ t ∈ body, t.isFreeIn scopes = t.isFreeIn c.scopes := by
                intro t ht
                cases name' : t.aheadName? with
                | none => simp [Statement.isFreeIn, name']
                | some y =>
                    have other : ¬ e.name = y := by
                      rintro rfl
                      exact distinct.1 (List.mem_filterMap.mpr ⟨t, ht, named ▸ name'⟩)
                    simp [Statement.isFreeIn, name', (frames y).2, other]
              rw [declareAhead_accept h defined, List.filter_cons_of_pos isFree,
                ← List.filter_congr later]
              exact congrArg (s :: ·) (ih distinct.2 { c with scopes := scopes })
          | error existing =>
              have notFree : ¬ s.isFreeIn c.scopes := by
                simp [Statement.isFreeIn, ahead, ← named, Scopes.find?_of_define_error defined]
              rw [declareAhead_refuse h defined, List.filter_cons_of_neg notFree]
              exact ih distinct.2 { c with findings := c.findings ++
                [.error ⟨.redeclaration name.text, name.location⟩] }

/-- Names that are not declared ahead keep what they stand for. -/
theorem lookup_declareAhead {body : List Statement} {c : Checker} {x : String}
    (h : some x ∉ ((declareAhead body).run c).1.map (·.aheadName?)) :
    ((declareAhead body).run c).2.scopes.lookup x = c.scopes.lookup x := by
  induction body generalizing c with
  | nil => rfl
  | cons s body ih =>
      cases provisional : s.provisional? with
      | none =>
          rw [declareAhead_skip provisional] at h ⊢
          exact ih h
      | some declaration =>
          obtain ⟨name, e⟩ := declaration
          cases defined : c.scopes.define e with
          | ok scopes =>
              have later : ∀ c' : Checker, ((s :: ·) <$> declareAhead body).run c' =
                  (s :: ((declareAhead body).run c').1, ((declareAhead body).run c').2) :=
                fun _ => rfl
              rw [declareAhead_accept provisional defined, later] at h ⊢
              rw [List.map_cons, List.mem_cons, not_or] at h
              have other : e.name ≠ x := by
                rintro rfl
                refine h.1 ?_
                simp [Statement.aheadName?, provisional, Statement.name_provisional provisional]
              exact (ih h.2).trans (Scopes.lookup_define defined other)
          | error existing =>
              rw [declareAhead_refuse provisional defined] at h ⊢
              exact ih h

end Check

/-! ### Settled entries -/

namespace Hoisted

variable {b : Hoisted} {m m' : Meaning} {s : Statement} {before after : List Statement}

/-- Each declaration has the entry of its signature under the meaning that it is part of. -/
structure Settled (b : Hoisted) (m : Meaning) : Prop where
  outside : ∀ x, ¬ b.Names x → m x = b.meaning x
  inside : ∀ s ∈ b.declared, ∀ x, s.aheadName? = some x → m x = s.completed? m

theorem Settled.reached (h : b.Settled m) : b.Reached m where
  outside := h.outside
  inside s hs x hx := by
    obtain ⟨name, e, provisional, _⟩ := b.known s hs
    obtain ⟨e', completed, _⟩ := Statement.completed_of_provisional provisional m
    exact ⟨e', (h.inside s hs x hx).trans completed, Statement.declares_completed completed⟩

/-- Whether entries are settled does not depend on an order. -/
theorem Settled.of_perm {b' : Hoisted} (perm : b.declared.Perm b'.declared)
    (same : ∀ x, ¬ b.Names x → b.meaning x = b'.meaning x) (h : b'.Settled m) : b.Settled m where
  outside x hx := by
    have hx' : ¬ b'.Names x := fun names => hx ((perm.map (·.aheadName?)).mem_iff.mpr names)
    rw [h.outside x hx', same x hx]
  inside s hs := h.inside s (perm.mem_iff.mp hs)

/-- A type or class sees nothing but what comes before it in the order of completion. -/
theorem completed_eq_of_before (acyclic : CompletionOrder.Acyclic b.declared) (h : b.Reached m)
    (h' : b.Reached m') (order : CompletionOrder.of b.declared = before ++ s :: after)
    (same : ∀ t ∈ before, ∀ x, t.aheadName? = some x → m x = m' x) :
    s.completed? m = s.completed? m' := by
  have placed : s ∈ CompletionOrder.of b.declared := order ▸ List.mem_append_cons_self
  refine Statement.completed_congr (CompletionOrder.mem_of_iff.mp placed).2 fun x hx => ?_
  refine h.agree h' fun t ht type => ?_
  have mentions : CompletionOrder.Mentions b.declared s t := ⟨ht, x, type, hx⟩
  have earlier := CompletionOrder.of_topological acyclic order mentions
  exact same t earlier x (aheadName_of_typeName type)

/-- A declaration sees nothing but types and classes. -/
theorem completed_eq_of_types (h : b.Reached m) (h' : b.Reached m')
    (same : ∀ t ∈ CompletionOrder.of b.declared, ∀ x, t.aheadName? = some x → m x = m' x) :
    s.completed? m = s.completed? m' := by
  refine Statement.completed_congr_of_agree fun x => h.agree h' fun t ht type => ?_
  have isType : (CompletionOrder.typeName? t).isSome := by rw [type, Option.isSome_some]
  exact same t (CompletionOrder.mem_of_of_mem ht isType) x (aheadName_of_typeName type)

/-- Along the order of completion, settled entries are the same. -/
theorem Settled.eq_along (acyclic : CompletionOrder.Acyclic b.declared) (h : b.Settled m)
    (h' : b.Settled m') (order : CompletionOrder.of b.declared = before ++ after) :
    ∀ s ∈ before, ∀ x, s.aheadName? = some x → m x = m' x := by
  induction before using List.reverseRecOn generalizing after with
  | nil => nofun
  | append_singleton before s ih =>
      rw [List.append_assoc, List.singleton_append] at order
      have earlier := ih order
      refine List.forall_mem_append.mpr ⟨earlier, List.forall_mem_singleton.mpr fun x hx => ?_⟩
      have hs : s ∈ b.declared :=
        CompletionOrder.mem_of_mem_of (order ▸ List.mem_append_cons_self)
      -- Each side is made of what the other names stand for, and those it mentions came before.
      rw [h.inside s hs x hx, h'.inside s hs x hx]
      exact completed_eq_of_before acyclic h.reached h'.reached order earlier

/-- There is one meaning only under which all entries are settled. -/
theorem Settled.unique (acyclic : CompletionOrder.Acyclic b.declared) (h : b.Settled m)
    (h' : b.Settled m') : m = m' := by
  have types := h.eq_along acyclic h' (List.append_nil _).symm
  funext x
  by_cases hx : b.Names x
  · obtain ⟨s, hs, name⟩ := List.mem_map.mp hx
    rw [h.inside s hs x name, h'.inside s hs x name]
    exact completed_eq_of_types h.reached h'.reached types
  · rw [h.outside x hx, h'.outside x hx]

/-! ### Two rounds settle all entries -/

variable (b)

/-- What names stand for once the block is declared ahead. -/
def final : Meaning := (b.round 2).completeAll (b.declared.filter (·.isFunction))

variable {b}

theorem lookup_hoist_eq (body : List Statement) (c : Checker) :
    ((Check.hoist body).run c).2.scopes.lookup = (ofBody body c).final :=
  Check.lookup_hoist body c

theorem reached_final : b.Reached b.final :=
  (reached_round 2).completeAll fun _ hs => List.mem_of_mem_filter hs

/-- The completion of functions changes no type or class. -/
theorem completeAll_functions {functions : List Statement}
    (sub : functions ⊆ b.declared.filter (·.isFunction)) (hs : s ∈ CompletionOrder.of b.declared)
    {x : String} (name : s.aheadName? = some x) : m.completeAll functions x = m x := by
  obtain ⟨hs, type⟩ := CompletionOrder.mem_of_iff.mp hs
  refine Meaning.completeAll_of_not_mem fun hx => ?_
  obtain ⟨t, ht, name'⟩ := List.mem_map.mp hx
  obtain ⟨ht, isFunction⟩ := List.mem_filter.mp (sub ht)
  obtain rfl := eq_of_aheadName hs ht (name.trans name'.symm)
  unfold CompletionOrder.typeName? at type
  unfold Statement.isFunction at isFunction
  split at isFunction <;> simp_all

theorem final_type (hs : s ∈ CompletionOrder.of b.declared) {x : String}
    (name : s.aheadName? = some x) : b.final x = b.round 2 x :=
  completeAll_functions (List.Subset.refl _) hs name

theorem settled_final (acyclic : CompletionOrder.Acyclic b.declared) : b.Settled b.final where
  outside := reached_final.outside
  inside s hs x hx := by
    rcases typeName_or_isFunction hs with type | isFunction
    · have placed := CompletionOrder.mem_of_of_mem hs type
      obtain ⟨before, after, order⟩ := List.append_of_mem placed
      rw [final_type placed hx, round_at order hx]
      refine completed_eq_of_before acyclic (reached_midway order 1) reached_final order
        fun t ht y hy => ?_
      rw [final_type (order ▸ List.mem_append_left _ ht) hy, round_midway order,
        if_pos (List.mem_map.mpr ⟨t, ht, hy⟩)]
    · obtain ⟨before, after, order⟩ :=
        List.append_of_mem (List.mem_filter.mpr ⟨hs, isFunction⟩)
      have nodup : ((before ++ s :: after).map (·.aheadName?)).Nodup :=
        order ▸ b.nodup.sublist (List.filter_sublist.map _)
      have sub : before ⊆ b.declared.filter (·.isFunction) := order ▸ List.subset_append_left _ _
      have value : b.final x = s.completed? ((b.round 2).completeAll before) := by
        rw [final, order, Meaning.completeAll_at nodup hx]
      have reached : b.Reached ((b.round 2).completeAll before) :=
        (reached_round 2).completeAll fun t ht => List.mem_of_mem_filter (sub ht)
      rw [value]
      refine completed_eq_of_types reached reached_final fun t ht y hy => ?_
      rw [final_type ht hy, completeAll_functions sub ht hy]

end Hoisted

/-! ### Blocks in another order -/

open Hoisted in
/--
In a round of completion each type and class of a block has one place, and no function has. Where
none leads back to itself by mentions, each comes after all that it mentions, and names stand for
the same in the end whatever the order of the declarations, as long as these have different names.
-/
theorem hoist_of_perm (body : List Statement) (c : Checker) :
    (CompletionOrder.of (ofBody body c).declared).Perm
        ((ofBody body c).declared.filter fun s => (CompletionOrder.typeName? s).isSome) ∧
      (CompletionOrder.Acyclic (ofBody body c).declared →
        (∀ before s after, CompletionOrder.of (ofBody body c).declared = before ++ s :: after →
          ∀ t, CompletionOrder.Mentions (ofBody body c).declared s t → t ∈ before) ∧
        ((body.filterMap (·.aheadName?)).Nodup → ∀ body', body.Perm body' →
          ((Check.hoist body').run c).2.scopes.lookup =
            ((Check.hoist body).run c).2.scopes.lookup)) := by
  refine ⟨CompletionOrder.of_perm _, fun acyclic => ⟨fun before s after order t mentions =>
    CompletionOrder.of_topological acyclic order mentions, fun distinct body' perm => ?_⟩⟩
  have distinct' : (body'.filterMap (·.aheadName?)).Nodup :=
    (perm.filterMap (·.aheadName?)).nodup_iff.mp distinct
  have declared : (ofBody body c).declared.Perm (ofBody body' c).declared := by
    simp only [ofBody, Check.declared_eq_filter distinct, Check.declared_eq_filter distinct']
    exact perm.filter _
  have outside : ∀ x, ¬ (ofBody body c).Names x →
      (ofBody body c).meaning x = (ofBody body' c).meaning x := by
    intro x hx
    have hx' : ¬ (ofBody body' c).Names x := fun names =>
      hx ((declared.map (·.aheadName?)).mem_iff.mpr names)
    exact (Check.lookup_declareAhead hx).trans (Check.lookup_declareAhead hx').symm
  have settled' := settled_final (CompletionOrder.acyclic_of_perm declared acyclic)
  rw [lookup_hoist_eq, lookup_hoist_eq]
  exact (settled'.of_perm declared outside).unique acyclic (settled_final acyclic)

/-- A structure, a class with a superclass, and a function, each of which mentions later ones. -/
def forwardBody : List Statement :=
  [⟨.function ⟨.empty, ⟨"f", .nowhere⟩,
      ⟨[], [⟨⟨"p", .nowhere⟩, .named "P" .nowhere, false, .nowhere⟩], .named "Q" .nowhere⟩,
      default⟩, .nowhere⟩,
    ⟨.structType ⟨.empty, ⟨"P", .nowhere⟩, [],
      [⟨⟨"q", .nowhere⟩, .named "Q" .nowhere, .nowhere⟩]⟩, .nowhere⟩,
    ⟨.classType (.withField "Q" (some "R") "R"), .nowhere⟩,
    ⟨.classType (.withField "R" none "int"), .nowhere⟩]

open Hoisted in
/-- Declarations that mention only later ones can be written the other way round. -/
theorem forwardBody_reversed :
    CompletionOrder.Acyclic (ofBody forwardBody default).declared ∧
      (forwardBody.filterMap (·.aheadName?)).Nodup ∧
      ((Check.hoist forwardBody.reverse).run default).2.scopes.lookup =
        ((Check.hoist forwardBody).run default).2.scopes.lookup := by
  have acyclic : CompletionOrder.Acyclic (ofBody forwardBody default).declared :=
    CompletionOrder.acyclic_of_forward (by decide +kernel)
  have distinct : (forwardBody.filterMap (·.aheadName?)).Nodup := by decide
  exact ⟨acyclic, distinct, ((hoist_of_perm forwardBody default).2 acyclic).2 distinct
    forwardBody.reverse (List.reverse_perm forwardBody).symm⟩

end ScriptFront
