import ScriptFront.Check.Finding
import ScriptFront.Proofs.MemberTables

/-!
Trees of scopes. A program is taken here as what it declares and mentions, scope by scope and in
source order. A mention of a name belongs to the innermost scope that declared the name before, so
the tree tells which local names are never read. What a run of declarations and mentions does to
the scopes around it is told by the tree as a whole, and trees can be taken in parts.
-/

namespace ScriptFront

/-- How a name is mentioned: for its value, or as all that an assignment writes to. -/
inductive NameUse
  | read
  | target
  deriving DecidableEq, Repr

/-- What a name is declared as. A class is known by the names of its fields and methods. -/
inductive NameKind
  | variable (place : Location)
  | parameter (place : Location)
  | cls (fields methods : String → Bool)
  | other

/-- A name that a scope declares. -/
structure LocalName where
  name : String
  kind : NameKind

/-- The warning for a name that is not read, if there is one for its kind and its spelling. -/
def LocalName.warning? (d : LocalName) : Option (Warning × Location) :=
  if d.name.startsWith "_" then none
  else
    match d.kind with
    | .variable place => some (.unusedDeclaration d.name, place)
    | .parameter place => some (.unusedParameter d.name, place)
    | _ => none

/-- What stands in a scope. Some scopes report the names that are not read, and others do not. -/
inductive Item
  | mention (name : String) (use : NameUse)
  | declares (d : LocalName)
  | scope (reports : Bool) (items : List Item)

def Item.declared? : Item → Option LocalName
  | declares d => some d
  | _ => none

/-- The item is a declaration of a name. -/
def Item.introduces (n : String) : Item → Bool
  | declares d => d.name == n
  | _ => false

/-- The names of a scope after some items: a name stays what it was declared as first. -/
def declaredNames (items : List Item) (names : List LocalName) : List LocalName :=
  Signature.insertAll (·.name) (items.filterMap Item.declared?) names

/-! ### Uses of names -/

section Uses

variable (counts : NameUse → Bool) (n : String)

mutual

/-- An item has a use of a name that was declared outside of it. -/
def Item.uses : Item → Bool
  | .mention name use => name == n && counts use
  | .declares _ => false
  | .scope _ items => freeUse items

/-- Items of one scope have a use of a name that was declared outside of it. -/
def freeUse : List Item → Bool
  | [] => false
  | i :: items => i.uses || (!i.introduces n && freeUse items)

end

/-- Items of one scope have a use of a name that the scope declares in front of the use. -/
def ownUse : List Item → Bool
  | [] => false
  | i :: items => bif i.introduces n then items.any (·.uses counts n) else ownUse items

end Uses

/-- Every mention counts as a use. -/
def anyUse : NameUse → Bool := fun _ => true

/-- Nothing in a scope mentions a name that the scope declares. -/
def isUnmentioned (n : String) (items : List Item) : Bool := !ownUse anyUse n items

/-- Nothing in a scope reads a name that the scope declares. -/
def isNeverRead (n : String) (items : List Item) : Bool := !ownUse (· == .read) n items

/-- A name that a scope declares is assigned to in there, and not read. -/
def isOnlyAssigned (n : String) (items : List Item) : Bool :=
  isNeverRead n items && !isUnmentioned n items

section Unread

variable (left : String → List Item → Bool)

/-- The warnings for those names of a scope that are left without use, in the sense given. -/
def unreadHere (items : List Item) : List (Warning × Location) :=
  ((declaredNames items []).filter fun d => left d.name items).filterMap LocalName.warning?

mutual

/-- The warnings of all scopes in an item, from the inner ones to the outer ones. -/
def Item.unread : Item → List (Warning × Location)
  | .mention .. | .declares _ => []
  | .scope reports items => unreadIn items ++ if reports then unreadHere left items else []

def unreadIn : List Item → List (Warning × Location)
  | [] => []
  | i :: items => i.unread ++ unreadIn items

end

end Unread

section Uses

variable {counts : NameUse → Bool} {n : String}

/-- A name is declared after some items if it was before, or one of them declares it. -/
theorem isSome_find?_declaredNames (items : List Item) (names : List LocalName) :
    ((declaredNames items names).find? (·.name == n)).isSome
      = ((names.find? (·.name == n)).isSome || items.any (·.introduces n)) := by
  have introduces : (fun i : Item => i.declared?.any (·.name == n)) = (·.introduces n) := by
    funext i
    cases i <;> rfl
  rw [declaredNames, Signature.find?_insertAll, List.find?_append, Option.isSome_or,
    Signature.isSome_find?_filterMap, introduces]

theorem declaredNames_append (items more : List Item) (names : List LocalName) :
    declaredNames (items ++ more) names = declaredNames more (declaredNames items names) := by
  rw [declaredNames, List.filterMap_append, Signature.insertAll_append]
  rfl

theorem freeUse_append (items more : List Item) :
    freeUse counts n (items ++ more)
      = (freeUse counts n items || (!items.any (·.introduces n) && freeUse counts n more)) := by
  induction items with
  | nil => rfl
  | cons i items ih =>
      rw [List.cons_append, freeUse, freeUse, ih, List.any_cons]
      cases i.introduces n with
      | true => simp
      | false => simp [Bool.or_assoc]

theorem ownUse_append (items more : List Item) :
    ownUse counts n (items ++ more) = (ownUse counts n items ||
      bif items.any (·.introduces n) then more.any (·.uses counts n)
      else ownUse counts n more) := by
  induction items with
  | nil => rfl
  | cons i items ih =>
      rw [List.cons_append, ownUse, ownUse, ih, List.any_cons]
      cases i.introduces n with
      | true => simp
      | false => simp

theorem unreadIn_append (left : String → List Item → Bool) (items more : List Item) :
    unreadIn left (items ++ more) = unreadIn left items ++ unreadIn left more := by
  induction items with
  | nil => rfl
  | cons i items ih => rw [List.cons_append, unreadIn, unreadIn, ih, List.append_assoc]

theorem unreadIn_declares (left : String → List Item → Bool) (ds : List LocalName) :
    unreadIn left (ds.map .declares) = [] := by
  induction ds with
  | nil => rfl
  | cons d ds ih => exact ih

/-- Declarations alone use nothing. -/
theorem uses_declares (ds : List LocalName) :
    (∀ i ∈ ds.map Item.declares, i.uses counts n = false) ∧
      freeUse counts n (ds.map .declares) = false ∧
      ownUse counts n (ds.map .declares) = false := by
  have none : ∀ i ∈ ds.map Item.declares, i.uses counts n = false := by
    intro i mem
    obtain ⟨d, -, rfl⟩ := List.mem_map.mp mem
    rfl
  refine ⟨none, ?_⟩
  induction ds with
  | nil => exact ⟨rfl, rfl⟩
  | cons d ds ih =>
      obtain ⟨-, below⟩ := List.forall_mem_cons.mp none
      obtain ⟨free, own⟩ := ih below
      refine ⟨?_, ?_⟩
      · rw [List.map_cons, freeUse, free, Bool.and_false]
        rfl
      · rw [List.map_cons, ownUse, own, List.any_eq_false.mpr fun i mem => by simp [below i mem],
          Bool.cond_self]

mutual

/-- What counts more mentions has more uses. -/
theorem Item.uses_mono {counts counts' : NameUse → Bool} {n : String}
    (more : ∀ use, counts use = true → counts' use = true) :
    ∀ i : Item, i.uses counts n = true → i.uses counts' n = true
  | .mention name use, h => by
      rw [Item.uses, Bool.and_eq_true] at h ⊢
      exact ⟨h.1, more use h.2⟩
  | .declares _, h => h
  | .scope _ items, h => freeUse_mono more items h

theorem freeUse_mono {counts counts' : NameUse → Bool} {n : String}
    (more : ∀ use, counts use = true → counts' use = true) :
    ∀ items : List Item, freeUse counts n items = true → freeUse counts' n items = true
  | [], h => h
  | i :: items, h => by
      rw [freeUse, Bool.or_eq_true, Bool.and_eq_true] at h ⊢
      exact h.imp (i.uses_mono more) fun below => ⟨below.1, freeUse_mono more items below.2⟩

end

theorem ownUse_mono {counts' : NameUse → Bool}
    (more : ∀ use, counts use = true → counts' use = true) (items : List Item)
    (h : ownUse counts n items = true) : ownUse counts' n items = true := by
  induction items with
  | nil => exact h
  | cons i items ih =>
      rw [ownUse] at h ⊢
      cases introduced : i.introduces n with
      | true =>
          rw [introduced, cond_true, List.any_eq_true] at h
          obtain ⟨j, mem, used⟩ := h
          rw [cond_true, List.any_eq_true]
          exact ⟨j, mem, j.uses_mono more used⟩
      | false =>
          rw [introduced, cond_false] at h
          rw [cond_false]
          exact ih h

/-- A name that nothing mentions is read by nothing. -/
theorem isNeverRead_of_isUnmentioned {items : List Item} (h : isUnmentioned n items = true) :
    isNeverRead n items = true := by
  rw [isUnmentioned, Bool.not_eq_true'] at h
  rw [isNeverRead, Bool.not_eq_true']
  cases read : ownUse (· == .read) n items with
  | false => rfl
  | true => exact (ownUse_mono (fun _ _ => rfl) items read).symm.trans h

end Uses

section Unread

/-- The names of a scope that are not read are not mentioned, or only assigned to. -/
theorem unreadHere_perm (items : List Item) :
    (unreadHere isNeverRead items).Perm
      (unreadHere isUnmentioned items ++ unreadHere isOnlyAssigned items) := by
  let unread := (declaredNames items []).filter fun d => isNeverRead d.name items
  have parts := List.filter_append_perm (fun d : LocalName => isUnmentioned d.name items) unread
  have unmentioned : unread.filter (fun d => isUnmentioned d.name items)
      = (declaredNames items []).filter fun d => isUnmentioned d.name items := by
    rw [List.filter_filter]
    refine List.filter_congr fun d _ => ?_
    cases h : isUnmentioned d.name items with
    | false => rfl
    | true => rw [isNeverRead_of_isUnmentioned h]; rfl
  have assigned : unread.filter (fun d => !isUnmentioned d.name items)
      = (declaredNames items []).filter fun d => isOnlyAssigned d.name items := by
    rw [List.filter_filter]
    exact List.filter_congr fun d _ => Bool.and_comm _ _
  rw [unmentioned, assigned] at parts
  have warned := (parts.filterMap LocalName.warning?).symm
  rwa [List.filterMap_append] at warned

mutual

theorem Item.unread_perm : ∀ i : Item,
    (i.unread isNeverRead).Perm (i.unread isUnmentioned ++ i.unread isOnlyAssigned)
  | .mention .. | .declares _ => .nil
  | .scope reports items => by
      have inside := unreadIn_perm items
      have here := unreadHere_perm items
      rw [List.perm_iff_count] at inside here ⊢
      intro w
      have inner := inside w
      have outer := here w
      rw [Item.unread, Item.unread, Item.unread]
      cases reports with
      | true =>
          simp only [if_true, List.count_append] at inner outer ⊢
          omega
      | false =>
          simp only [Bool.false_eq_true, if_false, List.append_nil]
          exact inner

/-- In a whole tree, the names that are not read are not mentioned, or only assigned to. -/
theorem unreadIn_perm : ∀ items : List Item,
    (unreadIn isNeverRead items).Perm
      (unreadIn isUnmentioned items ++ unreadIn isOnlyAssigned items)
  | [] => .nil
  | i :: items => by
      have first := i.unread_perm
      have rest := unreadIn_perm items
      rw [List.perm_iff_count] at first rest ⊢
      intro w
      have here := first w
      have below := rest w
      rw [unreadIn, unreadIn, unreadIn]
      simp only [List.count_append] at here below ⊢
      omega

end

end Unread

/-! ### Frames of names -/

/-- The names that a scope declares, and which of them were used. -/
structure NameFrame where
  names : List LocalName
  isUsed : String → Bool

namespace NameFrame

def empty : NameFrame := ⟨[], fun _ => false⟩

def declares (f : NameFrame) (n : String) : Bool := (f.names.find? (·.name == n)).isSome

/-- Some names are used in a scope inside of the given ones. -/
def mark (used : String → Bool) : List NameFrame → List NameFrame
  | [] => []
  | f :: fs =>
    ⟨f.names, fun n => f.isUsed n || (f.declares n && used n)⟩
      :: mark (fun n => used n && !f.declares n) fs

/-- The innermost frame and those around it after some items. -/
def after (items : List Item) : List NameFrame → List NameFrame
  | [] => []
  | f :: fs =>
    ⟨declaredNames items f.names, fun n => f.isUsed n ||
      bif f.declares n then items.any (·.uses anyUse n) else ownUse anyUse n items⟩
      :: mark (fun n => freeUse anyUse n items && !f.declares n) fs

variable {used more : String → Bool}

theorem mark_none (none : ∀ n, used n = false) (fs : List NameFrame) : mark used fs = fs := by
  induction fs generalizing used with
  | nil => rfl
  | cons f fs ih =>
      rw [mark, ih fun n => by rw [none n, Bool.false_and]]
      simp only [none, Bool.and_false, Bool.or_false]

theorem mark_mark (fs : List NameFrame) :
    mark more (mark used fs) = mark (fun n => used n || more n) fs := by
  induction fs generalizing used more with
  | nil => rfl
  | cons f fs ih =>
      rw [mark, mark, mark, ih]
      simp only [declares, Bool.or_assoc, Bool.and_or_distrib_left, Bool.and_or_distrib_right]

theorem names_mark (fs : List NameFrame) : (mark used fs).map names = fs.map names := by
  induction fs generalizing used with
  | nil => rfl
  | cons f fs ih => rw [mark, List.map_cons, List.map_cons, ih]

/-- A single name is used in the first frame that declares it. -/
theorem mark_one (name : String) (f : NameFrame) (fs : List NameFrame) :
    mark (name == ·) (f :: fs) =
      if f.declares name then ⟨f.names, fun n => f.isUsed n || name == n⟩ :: fs
      else f :: mark (name == ·) fs := by
  have only (n : String) (b : Bool) (h : f.declares name = b) :
      (f.declares n && name == n) = (b && name == n) := by
    by_cases same : name = n
    · rw [← same, h]
    · rw [beq_false_of_ne same, Bool.and_false, Bool.and_false]
  cases declared : f.declares name with
  | true =>
      rw [mark, mark_none]
      · simp only [only _ _ declared, Bool.true_and, if_true]
      · intro n
        have here := only n _ declared
        rw [Bool.true_and] at here
        rw [← here]
        cases f.declares n <;> simp
  | false =>
      have elsewhere : (fun n => name == n && !f.declares n) = (name == ·) := by
        funext n
        have here := only n _ declared
        by_cases same : name = n
        · rw [← same, declared, Bool.not_false, Bool.and_true]
        · rw [beq_false_of_ne same, Bool.false_and]
      rw [mark, elsewhere]
      simp only [only _ _ declared, Bool.false_and, Bool.or_false, Bool.false_eq_true, if_false]

/-- Items may be taken in parts. -/
theorem after_append (items more : List Item) (fs : List NameFrame) :
    after (items ++ more) fs = after more (after items fs) := by
  cases fs with
  | nil => rfl
  | cons f fs =>
      have known (n : String) :
          ((declaredNames items f.names).find? (·.name == n)).isSome
            = (f.declares n || items.any (·.introduces n)) :=
        isSome_find?_declaredNames items f.names
      rw [after, after, after, mark_mark, declaredNames_append]
      simp only [declares, known, freeUse_append, ownUse_append, List.any_append]
      congr 1
      · congr 1
        funext n
        cases (f.names.find? (·.name == n)).isSome <;> cases items.any (·.introduces n) <;>
          simp [Bool.or_assoc]
      · congr 1
        funext n
        cases (f.names.find? (·.name == n)).isSome <;> cases items.any (·.introduces n) <;> simp

theorem after_nil (fs : List NameFrame) : after [] fs = fs := by
  cases fs with
  | nil => rfl
  | cons f fs =>
      rw [after, mark_none fun n => by rw [freeUse, Bool.false_and]]
      simp only [List.any_nil, ownUse, Bool.cond_self, Bool.or_false]
      rfl

/-- Declarations alone come to their names. -/
theorem after_declares (ds : List LocalName) (f : NameFrame) (fs : List NameFrame) :
    after (ds.map .declares) (f :: fs)
      = ⟨Signature.insertAll (·.name) ds f.names, f.isUsed⟩ :: fs := by
  have names : (ds.map Item.declares).filterMap Item.declared? = ds := by
    rw [List.filterMap_map]
    exact List.filterMap_some
  have nothing (n : String) := @uses_declares anyUse n ds
  have used (n : String) : (ds.map Item.declares).any (·.uses anyUse n) = false :=
    List.any_eq_false.mpr fun i mem => by simp [(nothing n).1 i mem]
  rw [after, mark_none fun n => by rw [(nothing n).2.1, Bool.false_and], declaredNames, names]
  simp only [used, (nothing _).2.2, Bool.cond_self, Bool.or_false]

/-- A mention is a use in the first frame that declares the name. -/
theorem after_mention (name : String) (use : NameUse) (fs : List NameFrame) :
    after [.mention name use] fs = mark (name == ·) fs := by
  cases fs with
  | nil => rfl
  | cons f fs =>
      rw [after, mark]
      congr 1
      · congr 1
        funext n
        simp only [List.any_cons, List.any_nil, Item.uses, anyUse, ownUse, Item.introduces]
        cases f.declares n <;> simp
      · simp [freeUse, Item.uses, anyUse]

/-- Behind a scope the frames around it are those that it was left with. -/
theorem after_scope (reports : Bool) (items : List Item) (fs : List NameFrame) :
    after [.scope reports items] fs = (after items (empty :: fs)).tail := by
  cases fs with
  | nil => rfl
  | cons f fs =>
      rw [after, after, List.tail_cons, mark]
      congr 1
      · congr 1
        funext n
        simp only [List.any_cons, List.any_nil, Item.uses, ownUse, Item.introduces, declares, empty,
          List.find?_nil]
        cases (f.names.find? (·.name == n)).isSome <;> simp
      · simp [freeUse, Item.uses, declares, empty]

end NameFrame
end ScriptFront
