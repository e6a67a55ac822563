import ScriptFront.Proofs.Completion
import ScriptFront.Proofs.MentionedNames
import ScriptFront.Proofs.TwinScopes

/-!
Frames as names. Of the entries of a frame only their names, their kinds and their places matter to
what is read. Definitions and reads act on the names alone; and what a block declares ahead of its
statements, with its provisional entries and their completions, comes to the names that its
functions, classes and types have.
-/

namespace ScriptFront

/-! ### Entries as names -/

namespace LocalName

/-- What an entry is as a name. -/
def ofEntry : Entry → LocalName
  | .var v => ⟨v.name, .variable (v.location.getD .nowhere)⟩
  | .param v => ⟨v.name, .parameter (v.location.getD .nowhere)⟩
  | .func f => ⟨f.name, .other⟩
  | .cls k => ⟨k.name, .cls (fun n => (k.field? n).isSome) fun n => (k.method? n).isSome⟩
  | .named t => ⟨t.name, .other⟩

theorem name_ofEntry (e : Entry) : (ofEntry e).name = e.name := by
  cases e <;> rfl

theorem warning?_ofEntry (e : Entry) :
    (ofEntry e).warning? = if e.isTracked then Check.unusedWarning? e else none := by
  cases e with
  | var v | param v => rfl
  | func f | cls k | named t =>
      rw [warning?]
      split <;> rfl

end LocalName

/-- The names of a frame, and which of them were read. -/
def Frame.sight (f : Frame) : NameFrame := ⟨f.entries.map .ofEntry, f.used.contains⟩

theorem Frame.find?_names (f : Frame) (name : String) :
    f.sight.names.find? (·.name == name) = (f.find? name).map .ofEntry := by
  have same : ((·.name == name) ∘ LocalName.ofEntry) = (fun e : Entry => e.name == name) := by
    funext e
    rw [Function.comp_apply, LocalName.name_ofEntry]
  rw [sight, List.find?_map, same, find?]

theorem Frame.declares_sight (f : Frame) (name : String) :
    f.sight.declares name = f.declares name := by
  rw [NameFrame.declares, find?_names, Option.isSome_map]
  rfl

theorem Frame.sight_markUsed (f : Frame) (name : String) :
    (f.markUsed name).sight = ⟨f.sight.names, fun n => f.sight.isUsed n || name == n⟩ := by
  unfold markUsed
  split
  · next known =>
      rw [sight]
      congr 1
      funext n
      by_cases same : name = n
      · rw [← same, beq_self_eq_true, Bool.or_true]
        exact known
      · rw [beq_false_of_ne same, Bool.or_false]
  · rw [sight, sight]
    congr 1
    funext n
    rw [List.contains_cons, Bool.or_comm, Bool.beq_comm]

/-- The entries that a frame warns of are its names that were not read. -/
theorem Frame.unused_sight (f : Frame) :
    f.unused.filterMap Check.unusedWarning?
      = (f.sight.names.filter fun d => !f.sight.isUsed d.name).filterMap LocalName.warning? := by
  rw [unused, sight, List.filterMap_filter, List.filterMap_filter, List.filterMap_map]
  refine List.filterMap_congr fun e _ => ?_
  rw [Function.comp_apply, LocalName.name_ofEntry, LocalName.warning?_ofEntry]
  cases e.isTracked <;> simp

namespace Scopes

/-- The names of all frames, the innermost frame first. -/
def sight (s : Scopes) : List NameFrame := s.frames.map Frame.sight

/-- The names around a place. -/
def around (s : Scopes) : List (List LocalName) := s.sight.map NameFrame.names

theorem sight_markUsed (s : Scopes) (name : String) :
    (s.markUsed name).sight = NameFrame.mark (name == ·) s.sight := by
  rw [sight, frames_markUsed, sight]
  induction s.frames with
  | nil => rfl
  | cons f fs ih =>
      rw [readFrames_cons, List.map_cons, NameFrame.mark_one, Frame.declares_sight]
      split
      · rw [List.map_cons, Frame.sight_markUsed]
      · rw [List.map_cons, ih]

theorem nameAmong_around (s : Scopes) (name : String) :
    nameAmong s.around name = (s.lookup name).map .ofEntry := by
  rw [nameAmong, around, sight, lookup, List.map_map, List.findSome?_map]
  induction s.frames with
  | nil => rfl
  | cons f fs ih =>
      rw [List.findSome?_cons, List.findSome?_cons, ih]
      have here := f.find?_names name
      rw [Function.comp_apply, Function.comp_apply, here]
      cases f.find? name <;> rfl

/-- A definition adds an entry to the innermost frame, unless the name is taken there. -/
theorem define_cases (s : Scopes) (e : Entry) :
    (∃ existing, s.define e = .error existing ∧ s.current.find? e.name = some existing) ∨
      s.current.find? e.name = none ∧ ∃ t, s.define e = .ok t ∧
        t.frames = { s.current with entries := s.current.entries ++ [e] } :: s.outer := by
  unfold define Frame.define
  cases found : s.current.find? e.name with
  | some existing => exact .inl ⟨existing, rfl, rfl⟩
  | none =>
      refine .inr ⟨rfl, _, rfl, ?_⟩
      rw [frames_eq, current_modifyCurrent, outer_modifyCurrent]

/-- What a definition does to the frames. -/
theorem sight_define (s : Scopes) (e : Entry) :
    (∃ existing, s.define e = .error existing ∧
        NameFrame.after [.declares (.ofEntry e)] s.sight = s.sight) ∨
      ∃ t, s.define e = .ok t ∧
        t.sight = NameFrame.after [.declares (.ofEntry e)] s.sight := by
  have frames : s.sight = s.current.sight :: s.outer.map Frame.sight := by
    rw [sight, frames_eq, List.map_cons]
  have known : LocalName.name (.ofEntry e) ∈ s.current.sight.names.map LocalName.name ↔
      (s.current.find? e.name).isSome = true := by
    have found := s.current.find?_names e.name
    rw [← Option.isSome_map (f := LocalName.ofEntry), ← found, List.find?_isSome, List.mem_map,
      LocalName.name_ofEntry]
    simp only [beq_iff_eq]
  have after := NameFrame.after_declares [.ofEntry e] s.current.sight (s.outer.map Frame.sight)
  rw [List.map_singleton, ← frames] at after
  rw [after, Signature.insertAll, Signature.insertAll]
  obtain ⟨existing, taken, there⟩ | ⟨free, t, defined, new⟩ := s.define_cases e
  · refine .inl ⟨existing, taken, ?_⟩
    rw [Signature.insertNew_of_known (known.mpr (by rw [there]; rfl))]
    exact frames.symm
  · refine .inr ⟨t, defined, ?_⟩
    rw [Signature.insertNew_of_new (mt known.mp (by rw [free]; exact Bool.false_ne_true)),
      sight, new, List.map_cons, Frame.sight, List.map_append]
    rfl

end Scopes

/-! ### Entries of declarations -/

/-- Declarations are known by their names before they are completed, and by their members then. -/
theorem Statement.aheadName_eq (s : Statement) :
    s.aheadName? = s.aheadLocal?.map LocalName.name := by
  obtain ⟨form, place⟩ := s
  cases form <;> rfl

theorem Statement.completed_none {s : Statement} {m : Meaning} (h : s.completed? m = none) :
    s.aheadLocal? = none := by
  obtain ⟨form, place⟩ := s
  cases form with
  | function d | classType d | structType d => cases h
  | _ => rfl

/-- A class is known by the names of its properties, methods and operators. -/
theorem Signature.isSome_members (m : Meaning) (d : ClassDeclaration) (n : String) :
    ((ofClass m d).field? n).isSome = d.members.any (·.isField n) ∧
      ((ofClass m d).method? n).isSome = d.members.any (·.isMethod n) := by
  obtain ⟨fields, methods⟩ := tables_ofClass m d
  rw [ClassEntry.field?, ClassEntry.method?, fields, methods, find?_insertAll, find?_insertAll,
    List.nil_append, List.nil_append, isSome_find?_filterMap, isSome_find?_filterMap]
  constructor
  all_goals
    congr 1
    funext member
    obtain ⟨modifiers, form, place⟩ := member
    cases form <;> rfl

/-- The completed entry of a declaration is known by what the declaration says. -/
theorem Statement.aheadLocal_of_completed {s : Statement} {m : Meaning} {e : Entry}
    (h : s.completed? m = some e) : s.aheadLocal? = some (.ofEntry e) := by
  obtain ⟨form, place⟩ := s
  cases form with
  | function d | structType d =>
      cases h
      rfl
  | classType d =>
      cases h
      have members := Signature.isSome_members m d
      rw [aheadLocal?, LocalName.ofEntry, Signature.name_ofClass]
      simp only [(members _).1, (members _).2]
  | _ => cases h

/-- In the scope of a class, a member has its own name if the class knows it. -/
theorem localName_memberInScope (k : ClassEntry) (member : ClassMember) :
    (Check.memberInScope? k member).map (fun x => LocalName.ofEntry x.1)
      = member.localName? (fun n => (k.field? n).isSome) fun n => (k.method? n).isSome := by
  obtain ⟨modifiers, form, place⟩ := member
  cases form with
  | property d =>
      dsimp only [Check.memberInScope?, ClassMember.localName?]
      cases found : k.field? d.name.text with
      | none => rfl
      | some v =>
          have matching := List.find?_some found
          have same : v.name = d.name.text := beq_iff_eq.mp matching
          exact congrArg (fun n => some (LocalName.mk n (.variable d.name.location))) same
  | method name s body =>
      dsimp only [Check.memberInScope?, ClassMember.localName?]
      cases found : k.method? name.text with
      | none => rfl
      | some f =>
          have matching := List.find?_some found
          have same : f.name = name.text := beq_iff_eq.mp matching
          exact congrArg (fun n => some (LocalName.mk n .other)) same
  | _ => rfl

/-! ### Declarations ahead of a block -/

namespace LocalName

/-- A name in a frame after a declaration was completed. -/
def amend (x d : LocalName) : LocalName := if x.name = d.name then d else x

variable {ds : List LocalName} {d x : LocalName}

/-- A name that no other declaration has is left as it is. -/
theorem amend_stable (only : ∀ e ∈ ds, e.name = d.name → e = d) : ds.foldl amend d = d := by
  induction ds with
  | nil => rfl
  | cons e ds ih =>
      obtain ⟨here, below⟩ := List.forall_mem_cons.mp only
      have first : amend d e = d := by
        unfold amend
        split
        · next same => exact here same.symm
        · rfl
      rw [List.foldl_cons, first]
      exact ih below

/-- A name is completed by the declaration that has it. -/
theorem amend_all (mem : d ∈ ds) (only : ∀ e ∈ ds, e.name = d.name → e = d)
    (same : x.name = d.name) : ds.foldl amend x = d := by
  induction ds generalizing x with
  | nil => cases mem
  | cons e ds ih =>
      obtain ⟨here, below⟩ := List.forall_mem_cons.mp only
      rw [List.foldl_cons, amend]
      by_cases own : x.name = e.name
      · rw [if_pos own, here (own.symm.trans same)]
        exact amend_stable below
      · rw [if_neg own]
        obtain rfl | mem := List.mem_cons.mp mem
        · exact absurd same own
        · exact ih mem below same

/-- Entries that are completed one for one come to the declarations. -/
theorem map_amend {es : List Entry} {change : LocalName → LocalName}
    (names : es.map Entry.name = ds.map name) (h : ∀ d ∈ ds, ∀ x, x.name = d.name → change x = d) :
    (es.map ofEntry).map change = ds := by
  induction ds generalizing es with
  | nil => rw [List.map_eq_nil_iff.mp names]; rfl
  | cons d ds ih =>
      cases es with
      | nil => cases names
      | cons e es =>
          obtain ⟨here, below⟩ := List.forall_mem_cons.mp h
          obtain ⟨first, rest⟩ := List.cons.inj names
          rw [List.map_cons, List.map_cons, ih rest below, here _ ((name_ofEntry e).trans first)]

end LocalName

section Accepted

variable {s t : Scopes} {declared : List Statement} {d e : LocalName}

/-- Of the declarations that were accepted, no two have one name. -/
theorem Accepted.eq_of_name (h : Accepted s t declared)
    (mem : d ∈ declared.filterMap Statement.aheadLocal?)
    (mem' : e ∈ (CompletionOrder.completions declared).filterMap Statement.aheadLocal?)
    (same : e.name = d.name) : e = d := by
  obtain ⟨a, there, ahead⟩ := List.mem_filterMap.mp mem
  obtain ⟨b, there', ahead'⟩ := List.mem_filterMap.mp mem'
  have one : b = a := by
    apply List.inj_on_of_nodup_map h.nodup (CompletionOrder.mem_completions.mp there').1 there
    rw [Statement.aheadName_eq, Statement.aheadName_eq, ahead, ahead', Option.map_some,
      Option.map_some, same]
  rw [one, ahead] at ahead'
  exact (Option.some.inj ahead').symm

/-- Their names were free. -/
theorem Accepted.new (h : Accepted s t declared)
    (mem : d ∈ (CompletionOrder.completions declared).filterMap Statement.aheadLocal?) :
    d.name ∉ s.current.entries.map Entry.name := by
  intro known
  obtain ⟨a, there, ahead⟩ := List.mem_filterMap.mp mem
  obtain ⟨name, e, provisional, new, -⟩ := h.entries a (CompletionOrder.mem_completions.mp there).1
  have text := a.aheadName_eq
  rw [ahead, Statement.aheadName?, provisional, Option.map_some, Option.map_some] at text
  obtain ⟨old, mem', same⟩ := List.mem_map.mp known
  exact List.find?_eq_none.mp new old mem' (beq_iff_eq.mpr (same.trans (Option.some.inj text).symm))

end Accepted

namespace Check

/--
What declarations ahead do: each statement that is given back has an entry in the innermost frame, in
order, and these are the first ones of their names.
-/
structure AddsAhead (body : List Statement) (c : Checker) (r : List Statement × Checker) : Prop where
  entries : ∃ es : List Entry,
    es.map Entry.name = (r.1.filterMap Statement.aheadLocal?).map LocalName.name ∧
    r.2.scopes.frames = { c.scopes.current with entries := c.scopes.current.entries ++ es }
      :: c.scopes.outer
  names : ∀ names : List LocalName,
    names.map LocalName.name = c.scopes.current.entries.map Entry.name →
    Signature.insertAll (·.name) (body.filterMap Statement.aheadLocal?) names
      = names ++ r.1.filterMap Statement.aheadLocal?
  found : ∃ found, r.2.findings = c.findings ++ found ∧ ∀ x ∈ found, x.kind = .redeclaration

namespace AddsAhead

variable {s : Statement} {body : List Statement} {c : Checker} {r : List Statement × Checker}
  {d : LocalName} {e : Entry}

theorem nil (c : Checker) : AddsAhead [] c ([], c) where
  entries := ⟨[], rfl, by rw [List.append_nil]; exact c.scopes.frames_eq⟩
  names names _ := (List.append_nil names).symm
  found := ⟨[], (List.append_nil _).symm, nofun⟩

/-- A name that is taken is reported. -/
theorem refuse (ahead : s.aheadLocal? = some d) (named : e.name = d.name) {existing : Entry}
    (found : c.scopes.current.find? e.name = some existing) {f : Finding}
    (kind : f.kind = .redeclaration)
    (rest : AddsAhead body { c with findings := c.findings ++ [f] } r) :
    AddsAhead (s :: body) c r where
  entries := rest.entries
  names names same := by
    have known : d.name ∈ names.map LocalName.name := by
      have matching := List.find?_some found
      rw [same, ← named]
      exact List.mem_map.mpr
        ⟨existing, List.mem_of_find?_eq_some found, beq_iff_eq.mp matching⟩
    rw [List.filterMap_cons, ahead, Signature.insertAll, Signature.insertNew_of_known known]
    exact rest.names names same
  found := by
    obtain ⟨more, findings, kinds⟩ := rest.found
    refine ⟨f :: more, ?_, List.forall_mem_cons.mpr ⟨kind, kinds⟩⟩
    rw [findings, List.append_assoc]
    rfl

/-- A name that is new has its entry in the frame. -/
theorem accept (ahead : s.aheadLocal? = some d) (named : e.name = d.name) {t : Scopes}
    (free : c.scopes.current.find? e.name = none)
    (frames : t.frames = { c.scopes.current with entries := c.scopes.current.entries ++ [e] }
      :: c.scopes.outer) (rest : AddsAhead body { c with scopes := t } r) :
    AddsAhead (s :: body) c (s :: r.1, r.2) := by
  have current : t.current = { c.scopes.current with
      entries := c.scopes.current.entries ++ [e] } ∧ t.outer = c.scopes.outer := by
    rw [Scopes.frames_eq] at frames
    exact List.cons.inj frames
  have given : (s :: r.1).filterMap Statement.aheadLocal?
      = d :: r.1.filterMap Statement.aheadLocal? := by rw [List.filterMap_cons, ahead]
  obtain ⟨⟨es, own, entries⟩, names, found⟩ := rest
  refine ⟨⟨e :: es, ?_, ?_⟩, fun ns same => ?_, found⟩
  · rw [given, List.map_cons, List.map_cons, own, named]
  · rw [entries, current.1, current.2, List.append_assoc]
    rfl
  · have new : d.name ∉ ns.map LocalName.name := by
      rw [same, ← named]
      intro known
      obtain ⟨old, mem, own⟩ := List.mem_map.mp known
      exact List.find?_eq_none.mp free old mem (beq_iff_eq.mpr own)
    have more : (ns ++ [d]).map LocalName.name = t.current.entries.map Entry.name := by
      rw [current.1, List.map_append, List.map_append, same, List.map_singleton,
        List.map_singleton, named]
    rw [List.filterMap_cons, ahead, Signature.insertAll, Signature.insertNew_of_new new,
      names _ more, given, List.append_assoc]
    rfl

end AddsAhead

theorem declareAhead_adds (body : List Statement) (c : Checker) :
    AddsAhead body c ((declareAhead body).run c) := by
  induction body generalizing c with
  | nil => exact .nil c
  | cons s body ih =>
      have ahead := s.aheadName_eq
      rw [Statement.aheadName?] at ahead
      cases provisional : s.provisional? with
      | none =>
          rw [provisional, eq_comm, Option.map_none, Option.map_eq_none_iff] at ahead
          obtain ⟨entries, names, found⟩ := ih c
          rw [declareAhead_skip provisional]
          exact ⟨entries, by rw [List.filterMap_cons, ahead]; exact names, found⟩
      | some declaration =>
          obtain ⟨name, e⟩ := declaration
          rw [provisional, eq_comm, Option.map_some, Option.map_eq_some_iff] at ahead
          obtain ⟨d, ahead, same⟩ := ahead
          have named : e.name = d.name := (Statement.name_provisional provisional).trans same.symm
          obtain ⟨existing, taken, found⟩ | ⟨free, t, defined, frames⟩ := c.scopes.define_cases e
          · rw [declareAhead_refuse provisional taken]
            exact .refuse ahead named found rfl (ih _)
          · rw [declareAhead_accept provisional defined]
            exact .accept ahead named free frames (ih _)

/-- Completions amend the names of the innermost frame. -/
theorem sight_completeEntries (ss : List Statement) (c : Checker) :
    let d := ((ss.forM completeEntry).run c).2
    d.scopes.sight = ⟨c.scopes.current.sight.names.map fun x =>
        (ss.filterMap Statement.aheadLocal?).foldl LocalName.amend x, c.scopes.current.sight.isUsed⟩
      :: c.scopes.outer.map Frame.sight ∧ d.findings = c.findings := by
  induction ss generalizing c with
  | nil =>
      refine ⟨?_, rfl⟩
      change c.scopes.sight = _
      rw [Scopes.sight, Scopes.frames_eq, List.map_cons]
      simp only [List.filterMap_nil, List.foldl_nil, List.map_id_fun', id_eq]
  | cons s ss ih =>
      obtain ⟨sight, findings⟩ := ih ((completeEntry s).run c).2
      have scopes := scopes_completeEntry s c
      have quiet : ((completeEntry s).run c).2.findings = c.findings := by
        unfold completeEntry
        rw [run_meaning_bind]
        split <;> rfl
      refine ⟨sight.trans ?_, findings.trans quiet⟩
      rw [scopes]
      split
      · next e completed =>
          have amended : (c.scopes.current.complete e).sight.names
              = c.scopes.current.sight.names.map (LocalName.amend · (.ofEntry e)) := by
            rw [Frame.sight, Frame.sight, Frame.complete, List.map_map, List.map_map]
            refine List.map_congr_left fun old _ => ?_
            rw [Function.comp_apply, Function.comp_apply, LocalName.amend, LocalName.name_ofEntry,
              LocalName.name_ofEntry]
            by_cases same : old.name = e.name <;> simp [same]
          rw [Scopes.current_complete, Scopes.complete, Scopes.outer_modifyCurrent, amended,
            List.map_map, List.filterMap_cons, Statement.aheadLocal_of_completed completed]
          rfl
      · next none =>
          rw [List.filterMap_cons, Statement.completed_none none]

/-- A block declares its functions, classes and types ahead, as far as their names are new. -/
theorem sight_hoist (body : List Statement) (c : Checker) :
    ((hoist body).run c).2.scopes.sight
      = ⟨Signature.insertAll (·.name) (body.filterMap Statement.aheadLocal?)
          c.scopes.current.sight.names, c.scopes.current.sight.isUsed⟩
        :: c.scopes.outer.map Frame.sight ∧
      ∃ found, ((hoist body).run c).2.findings = c.findings ++ found ∧
        ∀ x ∈ found, x.kind = .redeclaration := by
  obtain ⟨⟨es, own, frames⟩, names, found, findings, kinds⟩ := declareAhead_adds body c
  have accepted := declareAhead_accepted body c
  let r := (declareAhead body).run c
  let order := CompletionOrder.completions r.1
  let completed (x : LocalName) := (order.filterMap Statement.aheadLocal?).foldl LocalName.amend x
  obtain ⟨sight, same⟩ := sight_completeEntries order r.2
  refine ⟨sight.trans ?_, found, same.trans findings, kinds⟩
  have current : r.2.scopes.current = { c.scopes.current with
      entries := c.scopes.current.entries ++ es } ∧ r.2.scopes.outer = c.scopes.outer := by
    rw [Scopes.frames_eq] at frames
    exact List.cons.inj frames
  have split : r.2.scopes.current.sight = ⟨c.scopes.current.sight.names ++ es.map .ofEntry,
      c.scopes.current.sight.isUsed⟩ := by
    rw [current.1, Frame.sight, List.map_append]
    rfl
  have kept : c.scopes.current.sight.names.map completed = c.scopes.current.sight.names := by
    refine (List.map_congr_left fun x mem => ?_).trans (List.map_id _)
    obtain ⟨old, there, rfl⟩ := List.mem_map.mp mem
    refine LocalName.amend_stable fun d mem same => absurd ?_ (accepted.new mem)
    rw [same, LocalName.name_ofEntry]
    exact List.mem_map_of_mem there
  have added : (es.map LocalName.ofEntry).map completed = r.1.filterMap Statement.aheadLocal? := by
    refine LocalName.map_amend own fun d mem x same => ?_
    refine LocalName.amend_all ?_ (fun e inside => accepted.eq_of_name mem inside) same
    obtain ⟨s, there, ahead⟩ := List.mem_filterMap.mp mem
    exact List.mem_filterMap.mpr ⟨s, CompletionOrder.mem_completions.mpr
      ⟨there, by rw [Statement.aheadName_eq, ahead]; rfl⟩, ahead⟩
  have before : c.scopes.current.sight.names.map LocalName.name
      = c.scopes.current.entries.map Entry.name := by
    rw [Frame.sight, List.map_map]
    exact List.map_congr_left fun e _ => LocalName.name_ofEntry e
  rw [split, current.2, names _ before, List.map_append]
  exact congrArg (fun ns => NameFrame.mk ns _ :: _) (congrArg₂ (· ++ ·) kept added)

end Check
end ScriptFront
