import ScriptFront.Proofs.MemberLookup

/-!
The nearest definition of a member. A look-up goes from a class to its superclass, both by name, as
long as names stand for classes and are new. Whether it ends does not depend on a bound: among the
names in scope the walk finds no more new ones than there are. It ends in front of a name that was
met only if no class on the cycle has the member, so that what it finds is what the nearest class
has, and it finds nothing only if no class above has the member.
-/

namespace ScriptFront

/-- What a class has under a name by itself: a field, or else a method. -/
inductive ClassEntry.Owns (c : ClassEntry) (name : String) : Ty × Modifiers → Prop
  | field {f} (found : c.field? name = some f) : c.Owns name (f.type, f.modifiers)
  | method {f} (none_ : c.field? name = none) (found : c.method? name = some f) :
      c.Owns name (f.type, f.modifiers)

theorem ClassEntry.ownMember?_eq_some_iff {c : ClassEntry} {name : String} {m : Ty × Modifiers} :
    c.ownMember? name = some m ↔ c.Owns name m := by
  unfold ownMember?
  constructor
  · intro found
    split at found
    · next f isField =>
        cases found
        exact .field isField
    · next noField =>
        obtain ⟨f, isMethod, rfl⟩ := Option.map_eq_some_iff.mp found
        exact .method noField isMethod
  · rintro (isField | ⟨noField, isMethod⟩)
    · rw [isField]
    · rw [noField, isMethod]
      rfl

theorem ClassEntry.ownMember?_eq_none_iff {c : ClassEntry} {name : String} :
    c.ownMember? name = none ↔ ∀ m, ¬ c.Owns name m := by
  simp only [Option.eq_none_iff_forall_ne_some, ne_eq, ownMember?_eq_some_iff]

namespace Scopes

/-- The superclass of the class that a name stands for, by its name. -/
def superclass? (s : Scopes) (name : String) : Option String :=
  (s.class? name).bind (·.type.parentName?)

/-- The name so many superclasses above a name, if there are as many. -/
def above? (s : Scopes) (name : String) : Nat → Option String
  | 0 => some name
  | k + 1 => (s.superclass? name).bind (s.above? · k)

/-- The class so many superclasses above a name, if there is one. -/
def classAbove? (s : Scopes) (name : String) (k : Nat) : Option ClassEntry :=
  (s.above? name k).bind s.class?

/--
A look-up of a member that goes on for as long as it has to: from the names that were met before, and
the one it is at, it looks up some names in order and ends with a member or without one.
-/
inductive Search (s : Scopes) (member : String) :
    List String → String → List String → Option (Ty × Modifiers) → Prop
  | again {met name} (old : name ∈ met) : Search s member met name [] none
  | unknown {met name} (new : name ∉ met) (none_ : s.class? name = none) :
      Search s member met name [name] none
  | own {met name c m} (new : name ∉ met) (isClass : s.class? name = some c)
      (found : c.ownMember? member = some m) : Search s member met name [name] (some m)
  | top {met name c} (new : name ∉ met) (isClass : s.class? name = some c)
      (missing : c.ownMember? member = none) (last : c.type.parentName? = none) :
      Search s member met name [name] none
  | up {met name c parent names r} (new : name ∉ met) (isClass : s.class? name = some c)
      (missing : c.ownMember? member = none) (extends_ : c.type.parentName? = some parent)
      (rest : Search s member (name :: met) parent names r) :
      Search s member met name (name :: names) r

variable {s : Scopes} {member name : String} {met names : List String} {r : Option (Ty × Modifiers)}

namespace Search

/-- There is only one way to go on. -/
theorem unique {names' : List String} {r' : Option (Ty × Modifiers)}
    (h : s.Search member met name names r) (h' : s.Search member met name names' r') :
    names' = names ∧ r' = r := by
  induction h generalizing names' r' with
  | again old => cases h' <;> first | exact ⟨rfl, rfl⟩ | contradiction
  | unknown new none_ => cases h' <;> first | exact ⟨rfl, rfl⟩ | simp_all
  | own new isClass found => cases h' <;> simp_all
  | top new isClass missing last => cases h' <;> simp_all
  | up new isClass missing extends_ _ ih =>
      cases h' with
      | up _ isClass' _ extends' rest' =>
          cases isClass.symm.trans isClass'
          cases extends_.symm.trans extends'
          obtain ⟨rfl, rfl⟩ := ih rest'
          exact ⟨rfl, rfl⟩
      | again old => exact absurd old new
      | unknown _ none_ => exact nomatch isClass.symm.trans none_
      | own _ isClass' found =>
          cases isClass.symm.trans isClass'
          exact nomatch missing.symm.trans found
      | top _ isClass' _ last =>
          cases isClass.symm.trans isClass'
          exact nomatch extends_.symm.trans last

/-- No name is looked up twice, and none that was met before. -/
theorem nodup (h : s.Search member met name names r) :
    names.Nodup ∧ ∀ n ∈ names, n ∉ met := by
  induction h with
  | again _ => exact ⟨.nil, nofun⟩
  | unknown new _ | own new _ _ | top new _ _ _ =>
      exact ⟨List.nodup_singleton _, List.forall_mem_singleton.mpr new⟩
  | up new _ _ _ _ ih =>
      obtain ⟨nodup, fresh⟩ := ih
      refine ⟨List.nodup_cons.mpr ⟨fun mem => fresh _ mem (List.mem_cons_self ..), nodup⟩, ?_⟩
      exact List.forall_mem_cons.mpr ⟨new, fun n mem old => fresh n mem (List.mem_cons_of_mem _ old)⟩

/-- All names that are looked up, but the last one, stand for classes. -/
theorem knows (h : s.Search member met name names r) : ∀ n ∈ names.dropLast, s.knows n = true := by
  induction h with
  | again _ | unknown _ _ | own _ _ _ | top _ _ _ _ => nofun
  | @up met name c parent names r _ isClass _ _ _ ih =>
      have here : s.knows name = true := by simp only [Scopes.knows, isClass, Option.isSome_some]
      cases names with
      | nil => nofun
      | cons n names =>
          rw [List.dropLast_cons_of_ne_nil (List.cons_ne_nil n names)]
          exact List.forall_mem_cons.mpr ⟨here, ih⟩

theorem length_le (h : s.Search member met name names r) : names.length ≤ s.size + 1 := by
  have fits := length_le_size (h.nodup.1.sublist (List.dropLast_sublist names)) h.knows
  rw [List.length_dropLast] at fits
  omega

/-- A member that is found is that of the nearest class. -/
theorem nearest {m : Ty × Modifiers} (h : s.Search member met name names r) (found : r = some m) :
    ∃ k c, s.classAbove? name k = some c ∧ c.ownMember? member = some m ∧
      ∀ j < k, ∀ b, s.classAbove? name j = some b → b.ownMember? member = none := by
  induction h with
  | again _ | unknown _ _ | top _ _ _ _ => cases found
  | @own met name c m' _ isClass own =>
      cases found
      exact ⟨0, c, isClass, own, nofun⟩
  | @up met name c parent names r _ isClass missing extends_ _ ih =>
      obtain ⟨k, d, there, own, before⟩ := ih found
      have step (j : Nat) : s.classAbove? name (j + 1) = s.classAbove? parent j := by
        simp only [classAbove?, above?, superclass?, isClass, extends_, Option.bind_some]
      refine ⟨k + 1, d, (step k).trans there, own, fun j less b isAbove => ?_⟩
      cases j with
      | zero =>
          cases isClass.symm.trans isAbove
          exact missing
      | succ j => exact before j (Nat.lt_of_succ_lt_succ less) b ((step j).symm.trans isAbove)

/--
Where nothing is found, all names above are among some that have no such member. The walk may end on
a name that was met, so the names that were met have to lead to each other or to the one it is at.
-/
theorem closed (h : s.Search member met name names r) (nothing : r = none)
    (missing : ∀ n ∈ met, s.ownMember? member n = none)
    (leads : ∀ n ∈ met, ∀ p, s.superclass? n = some p → p ∈ name :: met) :
    ∃ all : List String, name :: met ⊆ all ∧ (∀ n ∈ all, s.ownMember? member n = none) ∧
      ∀ n ∈ all, ∀ p, s.superclass? n = some p → p ∈ all := by
  induction h with
  | @again met name old =>
      refine ⟨met, List.cons_subset.mpr ⟨old, List.Subset.refl met⟩, missing, ?_⟩
      exact fun n mem p extends_ => (List.mem_cons.mp (leads n mem p extends_)).elim (· ▸ old) id
  | @unknown met name _ none_ =>
      have here : s.ownMember? member name = none := by simp only [ownMember?, none_, Option.bind_none]
      refine ⟨name :: met, List.Subset.refl _, List.forall_mem_cons.mpr ⟨here, missing⟩, ?_⟩
      refine List.forall_mem_cons.mpr ⟨fun p extends_ => ?_, leads⟩
      simp [superclass?, none_] at extends_
  | own _ _ _ => cases nothing
  | @top met name c _ isClass own last =>
      have here : s.ownMember? member name = none := by
        simp only [ownMember?, isClass, Option.bind_some, own]
      refine ⟨name :: met, List.Subset.refl _, List.forall_mem_cons.mpr ⟨here, missing⟩, ?_⟩
      refine List.forall_mem_cons.mpr ⟨fun p extends_ => ?_, leads⟩
      simp [superclass?, isClass, last] at extends_
  | @up met name c parent names r _ isClass own extends_ _ ih =>
      have here : s.ownMember? member name = none := by
        simp only [ownMember?, isClass, Option.bind_some, own]
      have next : s.superclass? name = some parent := by
        simp only [superclass?, isClass, Option.bind_some, extends_]
      have leads' : ∀ n ∈ name :: met, ∀ p, s.superclass? n = some p → p ∈ parent :: name :: met := by
        refine List.forall_mem_cons.mpr ⟨fun p extends' => ?_, fun n mem p extends' =>
          List.mem_cons_of_mem _ (leads n mem p extends')⟩
        cases next.symm.trans extends'
        exact List.mem_cons_self ..
      obtain ⟨all, inside, rest⟩ := ih nothing (List.forall_mem_cons.mpr ⟨here, missing⟩) leads'
      exact ⟨all, (List.cons_subset.mp inside).2, rest⟩

end Search

/-! ### Enough steps -/

/-- With more steps than there are names to meet, the bounded look-up is the one without a bound. -/
theorem search_memberFrom (member : String) {steps : Nat} {met : List String} (name : String)
    (nodup : met.Nodup) (known : ∀ n ∈ met, s.knows n = true) (enough : s.size < steps + met.length) :
    ∃ names, s.Search member met name names (s.memberFrom member steps met name) := by
  induction steps generalizing met name with
  | zero =>
      have fits := length_le_size nodup known
      omega
  | succ steps ih =>
      by_cases old : name ∈ met
      · rw [memberFrom, if_pos (List.contains_iff_mem.mpr old)]
        exact ⟨[], .again old⟩
      · rw [memberFrom, if_neg fun inside => old (List.contains_iff_mem.mp inside)]
        split
        · next c found =>
            have isClass : s.class? name = some c := by simp only [class?, found]
            cases own : c.ownMember? member with
            | some m => exact ⟨[name], .own old isClass own⟩
            | none =>
                cases extends_ : c.type.parentName? with
                | none => exact ⟨[name], .top old isClass own extends_⟩
                | some parent =>
                    have here : s.knows name = true := by
                      simp only [knows, isClass, Option.isSome_some]
                    obtain ⟨names, rest⟩ := ih parent (List.nodup_cons.mpr ⟨old, nodup⟩)
                      (List.forall_mem_cons.mpr ⟨here, known⟩) (by rw [List.length_cons]; omega)
                    exact ⟨name :: names, .up old isClass own extends_ rest⟩
        · next noClass =>
            refine ⟨[name], .unknown old ?_⟩
            unfold class?
            split
            · next c found => exact absurd found (noClass c)
            · rfl

/-! ### The nearest class -/

variable {className : String}

/-- What is found nowhere is what none of the classes above has. -/
theorem classMember_eq_none (nothing : s.classMember className member = none) {k : Nat}
    {c : ClassEntry} (isAbove : s.classAbove? className k = some c) : c.ownMember? member = none := by
  obtain ⟨names, search⟩ :=
    search_memberFrom member className List.nodup_nil nofun (Nat.lt_succ_self s.size)
  obtain ⟨all, inside, none_, closed⟩ := search.closed nothing nofun nofun
  have reached (name : String) (here : name ∈ all) (n : String) (up : s.above? name k = some n) :
      n ∈ all := by
    clear isAbove
    induction k generalizing name with
    | zero =>
        cases up
        exact here
    | succ k ih =>
        obtain ⟨parent, extends_, later⟩ := Option.bind_eq_some_iff.mp up
        exact ih parent (closed name here parent extends_) later
  obtain ⟨n, up, isClass⟩ := Option.bind_eq_some_iff.mp isAbove
  have own := none_ n (reached className (inside (List.mem_cons_self ..)) n up)
  rwa [ownMember?, isClass, Option.bind_some] at own

theorem classMember_eq_some {m : Ty × Modifiers} (found : s.classMember className member = some m) :
    ∃ k c, s.classAbove? className k = some c ∧ c.ownMember? member = some m ∧
      ∀ j < k, ∀ b, s.classAbove? className j = some b → b.ownMember? member = none := by
  obtain ⟨names, search⟩ :=
    search_memberFrom member className List.nodup_nil nofun (Nat.lt_succ_self s.size)
  exact search.nearest found

/--
A look-up from a class upwards ends in all scopes, whatever cycles their classes form: the one
without a bound has a single course, on which no name is looked up twice, and its result is the one
of the bounded look-up. What it finds is the field or else the method of the nearest class that has
one, and it finds nothing exactly if no class above has one.
-/
theorem classMember_nearest (s : Scopes) (className member : String) :
    (∃ names : List String, names.Nodup ∧ names.length ≤ s.size + 1 ∧
      ∀ names' r, s.Search member [] className names' r ↔
        names' = names ∧ r = s.classMember className member) ∧
    (∀ m, s.classMember className member = some m ↔
      ∃ k c, s.classAbove? className k = some c ∧ c.Owns member m ∧
        ∀ j < k, ∀ b, s.classAbove? className j = some b → ∀ m', ¬ b.Owns member m') ∧
    (s.classMember className member = none ↔
      ∀ k c, s.classAbove? className k = some c → ∀ m, ¬ c.Owns member m) := by
  simp only [← ClassEntry.ownMember?_eq_none_iff]
  simp only [← ClassEntry.ownMember?_eq_some_iff]
  obtain ⟨names, search⟩ :=
    search_memberFrom member className List.nodup_nil nofun (Nat.lt_succ_self s.size)
  refine ⟨⟨names, search.nodup.1, search.length_le, fun names' r => ⟨search.unique, ?_⟩⟩,
    fun m => ⟨classMember_eq_some, ?_⟩, fun nothing k c => classMember_eq_none nothing, ?_⟩
  · rintro ⟨rfl, rfl⟩
    exact search
  · rintro ⟨k, c, isAbove, own, before⟩
    cases found : s.classMember className member with
    | none => exact (classMember_eq_none found isAbove).symm.trans own
    | some m' =>
        obtain ⟨k', c', isAbove', own', before'⟩ := classMember_eq_some found
        rcases Nat.lt_trichotomy k k' with less | rfl | less
        · exact nomatch (before' k less c isAbove).symm.trans own
        · cases isAbove.symm.trans isAbove'
          exact own'.symm.trans own
        · exact nomatch (before k' less c' isAbove').symm.trans own'
  · intro nowhere
    cases found : s.classMember className member with
    | none => rfl
    | some m =>
        obtain ⟨k, c, isAbove, own, -⟩ := classMember_eq_some found
        exact nomatch (nowhere k c isAbove).symm.trans own

end Scopes
end ScriptFront
