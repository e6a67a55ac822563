import ScriptFront.Check.Hoist
import ScriptFront.Proofs.MentionOrder

/-!
What the declaration of a block ahead of its statements records. Each name is declared once, and the
signatures of types and classes are completed one after another: every one from what the names stand
for at that moment, which is the completed entry for a declaration that comes earlier in the order
and the entry of the round before for one that comes later. What the entries say is left open.
-/

namespace ScriptFront

/-! ### The order of completion -/

namespace CompletionOrder

theorem mem_of_iff {declared : List Statement} {s : Statement} :
    s ∈ CompletionOrder.of declared ↔ s ∈ declared ∧ (typeName? s).isSome := by
  rw [(of_perm declared).mem_iff, List.mem_filter]

theorem mem_of_mem_of {declared : List Statement} {s : Statement}
    (h : s ∈ CompletionOrder.of declared) : s ∈ declared := (mem_of_iff.mp h).1

theorem mem_of_of_mem {declared : List Statement} {s : Statement} (h : s ∈ declared)
    (type : (typeName? s).isSome) : s ∈ CompletionOrder.of declared := mem_of_iff.mpr ⟨h, type⟩

/-- Declarations with names of their own are completed once in a round. -/
theorem nodup_of {α : Type} {declared : List Statement} {name : Statement → α}
    (h : (declared.map name).Nodup) : ((CompletionOrder.of declared).map name).Nodup := by
  rw [((of_perm declared).map name).nodup_iff]
  exact h.sublist (List.filter_sublist.map name)

end CompletionOrder

/-! ### Names and entries of scopes -/

namespace Scopes

/-- The frames around the innermost one. -/
def outer (s : Scopes) : List Frame :=
  match s.inner with
  | [] => []
  | _ :: rest => rest ++ [s.global]

theorem frames_eq (s : Scopes) : s.frames = s.current :: s.outer := by
  obtain ⟨inner, global⟩ := s
  cases inner <;> rfl

theorem lookup_eq (s : Scopes) (name : String) :
    s.lookup name = (s.current.find? name).or (s.outer.findSome? (·.find? name)) := by
  rw [lookup, frames_eq, List.findSome?_cons]
  cases s.current.find? name <;> rfl

theorem current_modifyCurrent (s : Scopes) (f : Frame → Frame) :
    (s.modifyCurrent f).current = f s.current := by
  obtain ⟨inner, global⟩ := s
  cases inner <;> rfl

theorem outer_modifyCurrent (s : Scopes) (f : Frame → Frame) :
    (s.modifyCurrent f).outer = s.outer := by
  obtain ⟨inner, global⟩ := s
  cases inner <;> rfl

theorem lookup_of_current {s : Scopes} {name : String} {e : Entry}
    (h : s.current.find? name = some e) : s.lookup name = some e := by
  rw [lookup_eq, h, Option.some_or]

end Scopes

theorem Frame.find?_complete (f : Frame) (e : Entry) (name : String) :
    (f.complete e).find? name =
      if name = e.name then (f.find? name).map fun _ => e else f.find? name := by
  obtain ⟨entries, used⟩ := f
  unfold complete find?
  induction entries with
  | nil => simp
  | cons old entries ih =>
      simp only [List.map_cons, List.find?_cons] at ih ⊢
      by_cases hold : old.name = e.name
      · by_cases hname : name = e.name
        · simp [hold, hname]
        · have other : (e.name == name) = false := by simpa using Ne.symm hname
          simpa [hold, hname, other] using ih
      · by_cases hname : old.name = name
        · have other : ¬ name = e.name := hname ▸ hold
          simp [hname, other]
        · have other : (old.name == name) = false := by simpa using hname
          simpa [hold, other] using ih

theorem Frame.find?_define {f g : Frame} {e : Entry} (h : f.define e = .ok g) (name : String) :
    f.find? e.name = none ∧
      g.find? name = (f.find? name).or (if e.name = name then some e else none) := by
  unfold define at h
  split at h
  · cases h
  · next free =>
      cases h
      refine ⟨free, ?_⟩
      unfold find?
      rw [List.find?_append, List.find?_singleton]
      simp

namespace Scopes

theorem current_complete (s : Scopes) (e : Entry) :
    (s.complete e).current = s.current.complete e := current_modifyCurrent _ _

theorem lookup_complete {s : Scopes} {e : Entry} (h : (s.current.find? e.name).isSome)
    (name : String) :
    (s.complete e).lookup name = if name = e.name then some e else s.lookup name := by
  obtain ⟨old, hold⟩ := Option.isSome_iff_exists.mp h
  rw [lookup_eq, lookup_eq, current_complete, complete, outer_modifyCurrent, Frame.find?_complete]
  split
  · next same => simp [same, hold]
  · rfl

theorem current_define {s t : Scopes} {e : Entry} (h : s.define e = .ok t) :
    s.current.define e = .ok t.current := by
  unfold define at h
  split at h
  · next f hf =>
      cases h
      rw [hf, current_modifyCurrent]
  · cases h

end Scopes

/-! ### Declarations ahead of a block -/

/-- The name that a declaration has ahead of the block it stands in. -/
def Statement.aheadName? (s : Statement) : Option String := s.provisional?.map (·.1.text)

namespace CompletionOrder

/-- The declarations of a block as they are completed: types and classes twice, then functions. -/
def completions (declared : List Statement) : List Statement :=
  of declared ++ of declared ++ declared.filter (·.isFunction)

/-- All declarations of a block are completed. -/
theorem mem_completions {declared : List Statement} {s : Statement} :
    s ∈ completions declared ↔ s ∈ declared ∧ s.aheadName?.isSome := by
  have kinds : s.aheadName?.isSome = ((typeName? s).isSome || s.isFunction) := by
    obtain ⟨form, place⟩ := s
    cases form <;> rfl
  rw [completions, List.mem_append, List.mem_append, or_self, mem_of_iff, List.mem_filter,
    ← and_or_left, kinds, Bool.or_eq_true]

end CompletionOrder

/-- The entry that a declaration has ahead of its block is known under its name. -/
theorem Statement.name_provisional {s : Statement} {name : Ident} {e : Entry}
    (h : s.provisional? = some (name, e)) : e.name = name.text := by
  unfold provisional? at h
  split at h <;> cases h <;> rfl

/-- A list of declarations was accepted: each has a name of its own and its entry is in scope. -/
structure Accepted (scopes scopes' : Scopes) (declared : List Statement) : Prop where
  kept : ∀ name e, scopes.current.find? name = some e → scopes'.current.find? name = some e
  entries : ∀ s ∈ declared, ∃ name e, s.provisional? = some (name, e) ∧
    scopes.current.find? name.text = none ∧ scopes'.current.find? name.text = some e
  nodup : (declared.map (·.aheadName?)).Nodup

theorem Accepted.nil (scopes : Scopes) : Accepted scopes scopes [] := by
  constructor <;> simp

theorem Accepted.cons {s t u : Scopes} {statement : Statement} {declared : List Statement}
    {name : Ident} {e : Entry} (h : statement.provisional? = some (name, e))
    (defined : s.define e = .ok t) (rest : Accepted t u declared) :
    Accepted s u (statement :: declared) := by
  have named := Statement.name_provisional h
  have frames := fun name => Frame.find?_define (Scopes.current_define defined) name
  have free : s.current.find? name.text = none := named ▸ (frames name.text).1
  have own : t.current.find? name.text = some e := by
    rw [(frames name.text).2, free, named]
    simp
  have kept : ∀ x e', s.current.find? x = some e' → t.current.find? x = some e' := by
    intro x e' hx
    rw [(frames x).2, hx, Option.some_or]
  refine ⟨fun x e' hx => rest.kept x e' (kept x e' hx), ?_, ?_⟩
  · intro other hother
    rcases List.mem_cons.mp hother with rfl | hother
    · exact ⟨name, e, h, free, rest.kept _ _ own⟩
    · obtain ⟨name', e', h', free', own'⟩ := rest.entries other hother
      refine ⟨name', e', h', ?_, own'⟩
      cases hs : s.current.find? name'.text with
      | none => rfl
      | some old =>
          rw [kept _ _ hs] at free'
          cases free'
  · rw [List.map_cons, List.nodup_cons]
    refine ⟨fun hmem => ?_, rest.nodup⟩
    obtain ⟨other, hother, same⟩ := List.mem_map.mp hmem
    obtain ⟨name', e', h', free', _⟩ := rest.entries other hother
    simp only [Statement.aheadName?, h, h', Option.map_some, Option.some.injEq] at same
    rw [same, own] at free'
    cases free'

namespace Check

section

variable {s : Statement} {ss : List Statement} {name : Ident} {e : Entry} {c : Checker}

theorem declareAhead_skip (h : s.provisional? = none) :
    (declareAhead (s :: ss)).run c = (declareAhead ss).run c := by
  simp only [declareAhead, h]

theorem declareAhead_accept {scopes : Scopes} (h : s.provisional? = some (name, e))
    (defined : c.scopes.define e = .ok scopes) :
    (declareAhead (s :: ss)).run c =
      ((s :: ·) <$> declareAhead ss).run { c with scopes := scopes } := by
  simp only [declareAhead, h, StateT.run_bind, StateT.run_get, pure_bind, defined,
    StateT.run_set, StateT.run_map, StateT.run_pure]
  rfl

theorem declareAhead_refuse {existing : Entry} (h : s.provisional? = some (name, e))
    (defined : c.scopes.define e = .error existing) :
    (declareAhead (s :: ss)).run c = (declareAhead ss).run
      { c with findings := c.findings ++ [.error ⟨.redeclaration name.text, name.location⟩] } := by
  simp only [declareAhead, h, StateT.run_bind, StateT.run_get, pure_bind, defined]
  rfl

end

theorem declareAhead_accepted (ss : List Statement) (c : Checker) :
    Accepted c.scopes ((declareAhead ss).run c).2.scopes ((declareAhead ss).run c).1 := by
  induction ss generalizing c with
  | nil => exact .nil _
  | cons s ss ih =>
      cases h : s.provisional? with
      | none =>
          rw [declareAhead_skip h]
          exact ih c
      | some declaration =>
          obtain ⟨name, e⟩ := declaration
          cases defined : c.scopes.define e with
          | ok scopes =>
              rw [declareAhead_accept h defined]
              exact .cons h defined (ih { c with scopes := scopes })
          | error existing =>
              rw [declareAhead_refuse h defined]
              exact ih { c with findings := c.findings ++
                [.error ⟨.redeclaration name.text, name.location⟩] }

end Check

/-! ### Rounds of completion -/

namespace Signature

theorem addMember_keeps (m : Meaning) (className : Ident) (c : ClassEntry) (member : ClassMember) :
    (addMember m className c member).name = c.name ∧
      (addMember m className c member).type = c.type ∧
      (addMember m className c member).location = c.location := by
  unfold addMember
  split <;> exact ⟨rfl, rfl, rfl⟩

theorem foldl_addMember_keeps (m : Meaning) (className : Ident) (members : List ClassMember)
    (c : ClassEntry) :
    (members.foldl (addMember m className) c).name = c.name ∧
      (members.foldl (addMember m className) c).type = c.type ∧
      (members.foldl (addMember m className) c).location = c.location := by
  induction members generalizing c with
  | nil => exact ⟨rfl, rfl, rfl⟩
  | cons member members ih =>
      obtain ⟨name, type, place⟩ := addMember_keeps m className c member
      obtain ⟨names, types, places⟩ := ih (addMember m className c member)
      exact ⟨names.trans name, types.trans type, places.trans place⟩

theorem name_ofClass (m : Meaning) (d : ClassDeclaration) : (ofClass m d).name = d.name.text :=
  (foldl_addMember_keeps _ _ _ _).1

theorem type_ofClass (m : Meaning) (d : ClassDeclaration) :
    (ofClass m d).type = classTy (m.withGenerics d.generics) d :=
  (foldl_addMember_keeps _ _ _ _).2.1

theorem location_ofClass (m : Meaning) (d : ClassDeclaration) :
    (ofClass m d).location = some d.name.location :=
  (foldl_addMember_keeps _ _ _ _).2.2

end Signature

/-- A declaration that has an entry ahead has one of the same name when it is completed. -/
theorem Statement.completed_of_provisional {s : Statement} {name : Ident} {e : Entry}
    (h : s.provisional? = some (name, e)) (m : Meaning) :
    ∃ e', s.completed? m = some e' ∧ e'.name = name.text := by
  unfold provisional? at h
  split at h <;> cases h
  · next d hd => exact ⟨.named (Signature.ofStruct m d), by simp [completed?, hd], rfl⟩
  · next d hd =>
      exact ⟨.cls (Signature.ofClass m d), by simp [completed?, hd], Signature.name_ofClass m d⟩
  · next d hd => exact ⟨.func (Signature.ofFunction m d), by simp [completed?, hd], rfl⟩

/-- What names stand for after a declaration was completed from what they stood for. -/
def Meaning.complete (m : Meaning) (s : Statement) : Meaning := fun name =>
  if s.aheadName? = some name then s.completed? m else m name

/-- What names stand for after declarations were completed in order. -/
def Meaning.completeAll (m : Meaning) (ss : List Statement) : Meaning := ss.foldl complete m

namespace Meaning

variable {m : Meaning} {name : String} {s : Statement} {before after ss : List Statement}

theorem completeAll_append (m : Meaning) (before after : List Statement) :
    m.completeAll (before ++ after) = (m.completeAll before).completeAll after :=
  List.foldl_append

theorem completeAll_of_not_mem (h : some name ∉ ss.map (·.aheadName?)) :
    m.completeAll ss name = m name := by
  induction ss generalizing m with
  | nil => rfl
  | cons s ss ih =>
      rw [List.map_cons, List.mem_cons, not_or] at h
      refine (ih h.2).trans ?_
      rw [complete, if_neg (Ne.symm h.1)]

/-- A declaration is completed from what names stand for after the ones before it in its round. -/
theorem completeAll_at (nodup : ((before ++ s :: after).map (·.aheadName?)).Nodup)
    (h : s.aheadName? = some name) :
    m.completeAll (before ++ s :: after) name = s.completed? (m.completeAll before) := by
  rw [completeAll_append]
  have later : some name ∉ after.map (·.aheadName?) := by
    rw [List.map_append, List.map_cons, h] at nodup
    exact (List.nodup_cons.mp (List.nodup_append.mp nodup).2.1).1
  refine (completeAll_of_not_mem (m := (m.completeAll before).complete s) later).trans ?_
  rw [complete, if_pos h]

/-- In the middle of a round, names of declarations that were completed stand for their entries. -/
theorem completeAll_before (nodup : ((before ++ after).map (·.aheadName?)).Nodup) (name : String) :
    m.completeAll before name =
      if some name ∈ before.map (·.aheadName?) then m.completeAll (before ++ after) name
      else m name := by
  split
  · next hname =>
      rw [completeAll_append]
      rw [List.map_append] at nodup
      have later : some name ∉ after.map (·.aheadName?) := fun hlater =>
        (List.nodup_append.mp nodup).2.2 _ hname _ hlater rfl
      exact (completeAll_of_not_mem later).symm
  · next hname => exact completeAll_of_not_mem hname

end Meaning

namespace Check

theorem scopes_completeEntry (s : Statement) (c : Checker) :
    ((completeEntry s).run c).2.scopes =
      match s.completed? c.scopes.lookup with
      | some e => c.scopes.complete e
      | none => c.scopes := by
  have run : (completeEntry s).run c =
      (match s.completed? c.scopes.lookup with
        | some e => modify fun c => { c with scopes := c.scopes.complete e }
        | none => pure () : Check Unit).run c := rfl
  rw [run]
  split <;> rfl

/-- Declarations that were accepted are completed one after another. -/
theorem lookup_completeEntries (ss : List Statement) (c : Checker)
    (h : ∀ s ∈ ss, ∃ name e, s.provisional? = some (name, e) ∧
      (c.scopes.current.find? name.text).isSome) :
    ((ss.forM completeEntry).run c).2.scopes.lookup = Meaning.completeAll c.scopes.lookup ss := by
  induction ss generalizing c with
  | nil => rfl
  | cons s ss ih =>
      have run : ((s :: ss).forM completeEntry).run c =
          (ss.forM completeEntry).run ((completeEntry s).run c).2 := rfl
      obtain ⟨name, e, provisional, known⟩ := h s (List.mem_cons_self ..)
      obtain ⟨e', completed, named⟩ :=
        Statement.completed_of_provisional provisional c.scopes.lookup
      have scopes : ((completeEntry s).run c).2.scopes = c.scopes.complete e' := by
        rw [scopes_completeEntry, completed]
      have ahead : s.aheadName? = some name.text := by simp [Statement.aheadName?, provisional]
      have looked : ((completeEntry s).run c).2.scopes.lookup
          = Meaning.complete c.scopes.lookup s := by
        funext x
        rw [scopes, Scopes.lookup_complete (named ▸ known), Meaning.complete, ahead, completed,
          named]
        simp only [Option.some.injEq, eq_comm]
      rw [run, ih]
      · rw [looked]
        rfl
      · intro s' hs'
        obtain ⟨name', e'', provisional', known'⟩ := h s' (List.mem_cons_of_mem _ hs')
        refine ⟨name', e'', provisional', ?_⟩
        rw [scopes, Scopes.current_complete, Frame.find?_complete]
        split
        · simpa using known'
        · exact known'

/-- Types and classes are completed in two rounds of one order, and functions after them. -/
theorem lookup_hoist (body : List Statement) (c : Checker) :
    let declared := ((declareAhead body).run c).1
    let m : Meaning := ((declareAhead body).run c).2.scopes.lookup
    let types := CompletionOrder.of declared
    ((hoist body).run c).2.scopes.lookup =
      ((m.completeAll types).completeAll types).completeAll (declared.filter (·.isFunction)) := by
  intro declared m types
  have accepted := declareAhead_accepted body c
  have run : (hoist body).run c =
      ((types ++ types ++ declared.filter (·.isFunction)).forM completeEntry).run
        ((declareAhead body).run c).2 := rfl
  rw [run, lookup_completeEntries, Meaning.completeAll_append, Meaning.completeAll_append]
  intro s hs
  have hs : s ∈ declared := by
    rcases List.mem_append.mp hs with hs | hs
    · rcases List.mem_append.mp hs with hs | hs
      · exact CompletionOrder.mem_of_mem_of hs
      · exact CompletionOrder.mem_of_mem_of hs
    · exact List.mem_of_mem_filter hs
  obtain ⟨name, e, provisional, _, known⟩ := accepted.entries s hs
  exact ⟨name, e, provisional, by simp [known]⟩

end Check
end ScriptFront
