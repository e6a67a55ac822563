import Mathlib.Data.List.Induction
import Mathlib.Data.List.Nodup
import Mathlib.Data.List.Perm.Subperm
import Mathlib.Logic.Relation
import ScriptFront.Check.CompletionOrder

/-!
The order in which the types and classes of a block are completed. Each of them has one place in it,
and comes after all that it mentions, but for what leads back to it by mentions: that was entered
before it and is not done yet. So where no declaration leads back to itself, each comes after all
that it mentions.
-/

namespace ScriptFront

open Relation

namespace CompletionOrder

/-! ### What a walk enters -/

/-- Progress by which some numbers, none of them entered before, are entered and done. -/
structure Adds (p q : Progress) (new : List Nat) : Prop where
  order : q.order = p.order ++ new
  nodup : new.Nodup
  fresh : ∀ i ∈ new, i ∉ p.entered
  entered : ∀ i, i ∈ q.entered ↔ i ∈ p.entered ∨ i ∈ new

theorem Adds.refl (p : Progress) : Adds p p [] := by
  constructor <;> simp

theorem Adds.trans {p q r : Progress} {new more : List Nat} (h : Adds p q new)
    (h' : Adds q r more) : Adds p r (new ++ more) where
  order := by rw [h'.order, h.order, List.append_assoc]
  nodup := by
    refine List.nodup_append.mpr ⟨h.nodup, h'.nodup, ?_⟩
    rintro i hi _ hj rfl
    exact h'.fresh i hj ((h.entered i).mpr (.inr hi))
  fresh i hi := by
    rcases List.mem_append.mp hi with hi | hi
    · exact h.fresh i hi
    · exact fun before => h'.fresh i hi ((h.entered i).mpr (.inl before))
  entered i := by rw [h'.entered, h.entered, List.mem_append, or_assoc]

theorem foldl_adds {f : Progress → Nat → Progress} (h : ∀ p i, ∃ new, Adds p (f p i) new)
    (is : List Nat) (p : Progress) : ∃ new, Adds p (is.foldl f p) new := by
  induction is generalizing p with
  | nil => exact ⟨[], .refl p⟩
  | cons i is ih =>
      obtain ⟨new, hi⟩ := h p i
      obtain ⟨more, his⟩ := ih (f p i)
      exact ⟨new ++ more, hi.trans his⟩

section Walks

variable (dependencies : Nat → List Nat)

theorem visit_adds (depth : Nat) (p : Progress) (i : Nat) :
    ∃ new, Adds p (visit dependencies depth p i) new := by
  induction depth generalizing p i with
  | zero => exact ⟨[], .refl p⟩
  | succ depth ih =>
      unfold visit
      split
      · exact ⟨[], .refl p⟩
      · next hi =>
          have notIn : i ∉ p.entered := by simpa using hi
          obtain ⟨new, h⟩ := foldl_adds ih (dependencies i) { p with entered := i :: p.entered }
          have own : i ∉ new := fun hn => h.fresh i hn (List.mem_cons_self ..)
          refine ⟨new ++ [i], ?_, ?_, ?_, ?_⟩
          · simp only [h.order, List.append_assoc]
          · refine List.nodup_append.mpr ⟨h.nodup, by simp, ?_⟩
            rintro j hj _ hk rfl
            exact own (List.mem_singleton.mp hk ▸ hj)
          · intro j hj
            rcases List.mem_append.mp hj with hj | hj
            · exact fun before => h.fresh j hj (List.mem_cons_of_mem _ before)
            · exact List.mem_singleton.mp hj ▸ notIn
          · intro j
            rw [h.entered, List.mem_cons, List.mem_append, List.mem_singleton]
            grind

theorem foldl_within {S : Nat → Prop} {f : Progress → Nat → Progress} {is : List Nat}
    (h : ∀ p, ∀ i, S i → (∀ j ∈ p.entered, S j) → ∀ j ∈ (f p i).entered, S j)
    (his : ∀ i ∈ is, S i) {p : Progress} (hp : ∀ j ∈ p.entered, S j) :
    ∀ j ∈ (is.foldl f p).entered, S j := by
  induction is generalizing p with
  | nil => exact hp
  | cons i is ih =>
      obtain ⟨hi, his⟩ := List.forall_mem_cons.mp his
      exact ih his (h p i hi hp)

/-- From a number with a property that dependencies share, no others are entered. -/
theorem visit_within {S : Nat → Prop} (closed : ∀ i, S i → ∀ j ∈ dependencies i, S j)
    (depth : Nat) (p : Progress) (i : Nat) (hi : S i) (hp : ∀ j ∈ p.entered, S j) :
    ∀ j ∈ (visit dependencies depth p i).entered, S j := by
  induction depth generalizing p i with
  | zero => exact hp
  | succ depth ih =>
      unfold visit
      split
      · exact hp
      · exact foldl_within ih (closed i hi) (List.forall_mem_cons.mpr ⟨hi, hp⟩)

/-! ### What a walk leaves for later -/

/-- One number leads to another one over dependencies. -/
def Leads : Nat → Nat → Prop := ReflTransGen fun i j => j ∈ dependencies i

/--
Progress of a walk that is on its way down a path. What was entered is done or on the path, and what
is done comes after its dependencies, but for those that lead back to it.
-/
structure Underway (path : List Nat) (p : Progress) : Prop where
  path_entered : ∀ i ∈ path, i ∈ p.entered
  entered : ∀ i ∈ p.entered, i ∈ path ∨ i ∈ p.order
  sorted : ∀ before i after, p.order = before ++ i :: after →
    ∀ j ∈ dependencies i, j ∈ before ∨ Leads dependencies j i

variable {dependencies} {n : Nat} {path : List Nat} {p q : Progress}

/-- A number is entered and goes on the path. -/
theorem Underway.enter (h : Underway dependencies path p) (i : Nat) :
    Underway dependencies (i :: path) { p with entered := i :: p.entered } where
  path_entered j hj := by
    rcases List.mem_cons.mp hj with rfl | hj
    · exact List.mem_cons_self
    · exact List.mem_cons_of_mem _ (h.path_entered j hj)
  entered j hj := by
    rcases List.mem_cons.mp hj with rfl | hj
    · exact .inl List.mem_cons_self
    · exact (h.entered j hj).imp_left (List.mem_cons_of_mem _)
  sorted := h.sorted

/-- A number whose dependencies were entered is done and leaves the path. -/
theorem Underway.leave {i : Nat} (h : Underway dependencies (i :: path) q)
    (all : ∀ j ∈ dependencies i, j ∈ q.entered) (leads : ∀ j ∈ path, Leads dependencies j i) :
    Underway dependencies path { q with order := q.order ++ [i] } where
  path_entered j hj := h.path_entered j (List.mem_cons_of_mem _ hj)
  entered j hj := by
    rcases h.entered j hj with onPath | done
    · rcases List.mem_cons.mp onPath with rfl | onPath
      · exact .inr (List.mem_append_right _ (List.mem_singleton_self j))
      · exact .inl onPath
    · exact .inr (List.mem_append_left _ done)
  sorted before k after split j dependency := by
    rcases List.eq_nil_or_concat after with rfl | ⟨rest, last, rfl⟩
    · obtain ⟨rfl, same⟩ := List.append_inj' split rfl
      cases same
      rcases h.entered j (all j dependency) with onPath | done
      · rcases List.mem_cons.mp onPath with rfl | onPath
        · exact .inr .refl
        · exact .inr (leads j onPath)
      · exact .inl done
    · rw [List.concat_eq_append, ← List.cons_append, ← List.append_assoc] at split
      exact h.sorted before k rest (List.append_inj' split rfl).1 j dependency

theorem entered_mono (depth : Nat) (js : List Nat) (p : Progress) {i : Nat}
    (h : i ∈ p.entered) : i ∈ (js.foldl (visit dependencies depth) p).entered := by
  obtain ⟨new, adds⟩ := foldl_adds (visit_adds dependencies depth) js p
  exact (adds.entered i).mpr (.inl h)

/-- A walk that can be kept up over each of several numbers enters all of them. -/
theorem Underway.foldl {depth : Nat} {js : List Nat}
    (step : ∀ q, Underway dependencies path q → ∀ j ∈ js,
      Underway dependencies path (visit dependencies depth q j) ∧
        j ∈ (visit dependencies depth q j).entered)
    (h : Underway dependencies path p) :
    Underway dependencies path (js.foldl (visit dependencies depth) p) ∧
      ∀ j ∈ js, j ∈ (js.foldl (visit dependencies depth) p).entered := by
  induction js generalizing p with
  | nil => exact ⟨h, nofun⟩
  | cons k js ih =>
      obtain ⟨there, entered⟩ := step p h k List.mem_cons_self
      obtain ⟨underway, all⟩ := ih (fun q hq j hj => step q hq j (List.mem_cons_of_mem _ hj)) there
      exact ⟨underway, List.forall_mem_cons.mpr ⟨entered_mono depth js _ entered, all⟩⟩

/--
A walk to a number below a bound, down a path of numbers below it that lead there, enters the number
and comes back to where it was. The depth that remains is enough as long as the path and it make up
the bound.
-/
theorem Underway.visit (below : ∀ i, ∀ j ∈ dependencies i, j < n) {depth i : Nat}
    (room : n ≤ depth + path.length) (nodup : path.Nodup) (bounded : ∀ j ∈ path, j < n)
    (inside : i < n) (leads : ∀ j ∈ path, Leads dependencies j i)
    (h : Underway dependencies path p) :
    Underway dependencies path (visit dependencies depth p i) ∧
      i ∈ (visit dependencies depth p i).entered := by
  induction depth generalizing path p i with
  | zero =>
      -- All numbers below the bound are on the path.
      have all : List.range n ⊆ path := by
        have sub : path ⊆ List.range n := fun j hj => List.mem_range.mpr (bounded j hj)
        refine ((List.subperm_of_subset nodup sub).perm_of_length_le ?_).symm.subset
        simpa using room
      exact ⟨h, h.path_entered i (all (List.mem_range.mpr inside))⟩
  | succ depth ih =>
      unfold CompletionOrder.visit
      split
      · next known => exact ⟨h, by simpa using known⟩
      · next fresh =>
          have new : i ∉ path := fun onPath => fresh (by simpa using h.path_entered i onPath)
          have step : ∀ q, Underway dependencies (i :: path) q → ∀ j ∈ dependencies i,
              Underway dependencies (i :: path) (CompletionOrder.visit dependencies depth q j) ∧
                j ∈ (CompletionOrder.visit dependencies depth q j).entered := by
            intro q hq j hj
            have onward : ∀ k ∈ i :: path, Leads dependencies k j := by
              intro k hk
              rcases List.mem_cons.mp hk with rfl | hk
              · exact .single hj
              · exact (leads k hk).tail hj
            refine ih ?_ (List.nodup_cons.mpr ⟨new, nodup⟩)
              (List.forall_mem_cons.mpr ⟨inside, bounded⟩) (below i j hj) onward hq
            rw [List.length_cons]
            omega
          obtain ⟨done, all⟩ := (h.enter i).foldl step
          exact ⟨done.leave all leads, entered_mono depth _ _ List.mem_cons_self⟩

end Walks

/-! ### The order -/

/-- The positions of the types and classes among some declarations. -/
def roots (declared : List Statement) : List Nat :=
  (List.range declared.length).filter fun i =>
    match declared[i]? with
    | some s => (typeName? s).isSome
    | none => false

/-- The walk over all types and classes. -/
def walked (declared : List Statement) : Progress :=
  (roots declared).foldl (visit (dependencies declared) declared.length) ⟨[], []⟩

/-- The positions of types and classes in the order in which these are completed. -/
def positions (declared : List Statement) : List Nat := (walked declared).order

variable {declared : List Statement} {i j : Nat} {s t : Statement}

theorem of_eq (declared : List Statement) :
    CompletionOrder.of declared = (positions declared).filterMap (declared[·]?) := rfl

theorem mem_roots :
    i ∈ roots declared ↔ ∃ s, declared[i]? = some s ∧ (typeName? s).isSome := by
  unfold roots
  rw [List.mem_filter, List.mem_range]
  constructor
  · rintro ⟨inside, type⟩
    exact ⟨declared[i], List.getElem?_eq_getElem inside, by simpa [inside] using type⟩
  · rintro ⟨s, here, type⟩
    exact ⟨(List.getElem?_eq_some_iff.mp here).1, by simp [here, type]⟩

/-- Dependencies are positions of types and classes whose names the signature mentions. -/
theorem mem_dependencies :
    j ∈ dependencies declared i ↔ ∃ s t name, declared[i]? = some s ∧ declared[j]? = some t ∧
      typeName? t = some name ∧ name ∈ s.signatureMentions := by
  unfold dependencies
  rw [List.mem_filter, List.mem_range]
  constructor
  · rintro ⟨inside, mentioned⟩
    rw [List.getElem?_eq_getElem inside, Option.bind_some] at mentioned
    cases type : typeName? declared[j] with
    | none => simp [type] at mentioned
    | some name =>
        cases here : declared[i]? with
        | none => simp [type, here] at mentioned
        | some s =>
            refine ⟨s, declared[j], name, rfl, List.getElem?_eq_getElem inside, type, ?_⟩
            simpa [type, here] using mentioned
  · rintro ⟨s, t, name, here, there, type, mentioned⟩
    exact ⟨(List.getElem?_eq_some_iff.mp there).1, by simp [here, there, type, mentioned]⟩

theorem dependencies_subset_roots (i : Nat) : dependencies declared i ⊆ roots declared := by
  intro j hj
  obtain ⟨_, t, _, _, there, type, _⟩ := mem_dependencies.mp hj
  exact mem_roots.mpr ⟨t, there, by rw [type, Option.isSome_some]⟩

theorem lt_of_mem_roots (h : i ∈ roots declared) : i < declared.length :=
  List.mem_range.mp (List.mem_filter.mp h).1

theorem adds_positions (declared : List Statement) :
    Adds ⟨[], []⟩ (walked declared) (positions declared) := by
  obtain ⟨new, adds⟩ := foldl_adds (visit_adds (dependencies declared) declared.length)
    (roots declared) ⟨[], []⟩
  have order : positions declared = new := adds.order
  exact order ▸ adds

theorem nodup_positions (declared : List Statement) : (positions declared).Nodup :=
  (adds_positions declared).nodup

theorem underway_walked (declared : List Statement) :
    Underway (dependencies declared) [] (walked declared) ∧
      ∀ i ∈ roots declared, i ∈ (walked declared).entered := by
  have start : Underway (dependencies declared) [] ⟨[], []⟩ := ⟨nofun, nofun, by simp⟩
  refine start.foldl fun q hq j hj => ?_
  exact hq.visit (fun i k hk => lt_of_mem_roots (dependencies_subset_roots i hk)) (Nat.le_refl _)
    List.nodup_nil nofun (lt_of_mem_roots hj) nofun

/-- The order has each type and class, and nothing else. -/
theorem mem_positions : i ∈ positions declared ↔ i ∈ roots declared := by
  have entered : i ∈ (walked declared).entered ↔ i ∈ positions declared := by
    rw [(adds_positions declared).entered]
    exact ⟨fun h => h.resolve_left nofun, .inr⟩
  have within : ∀ k ∈ (walked declared).entered, k ∈ roots declared :=
    foldl_within (visit_within _ (fun k _ => dependencies_subset_roots k) _) (fun _ hk => hk)
      (List.forall_mem_nil _)
  rw [← entered]
  exact ⟨within i, (underway_walked declared).2 i⟩

/-- Each position comes after its dependencies, but for those that lead back to it. -/
theorem positions_sorted {before after : List Nat}
    (split : positions declared = before ++ i :: after) (dependency : j ∈ dependencies declared i) :
    j ∈ before ∨ Leads (dependencies declared) j i :=
  (underway_walked declared).1.sorted before i after split j dependency

/-! ### The order of declarations -/

/-- The signature of a statement mentions a type or class of some declarations. -/
def Mentions (declared : List Statement) (s t : Statement) : Prop :=
  t ∈ declared ∧ ∃ name, typeName? t = some name ∧ name ∈ s.signatureMentions

/-- No type or class leads back to itself by what signatures mention. -/
def Acyclic (declared : List Statement) : Prop :=
  ∀ i, ¬ TransGen (fun i j => j ∈ dependencies declared i) i i

theorem mem_dependencies_iff (here : declared[i]? = some s) (there : declared[j]? = some t) :
    j ∈ dependencies declared i ↔ Mentions declared s t := by
  rw [mem_dependencies]
  constructor
  · rintro ⟨s', t', name, here', there', type, mentioned⟩
    cases here.symm.trans here'
    cases there.symm.trans there'
    exact ⟨List.mem_of_getElem? there, name, type, mentioned⟩
  · rintro ⟨_, name, type, mentioned⟩
    exact ⟨s, t, name, here, there, type, mentioned⟩

theorem mentions_of_leads (h : Leads (dependencies declared) i j) (here : declared[i]? = some s)
    (there : declared[j]? = some t) : ReflTransGen (Mentions declared) s t := by
  induction h generalizing t with
  | refl =>
      cases here.symm.trans there
      exact .refl
  | tail before last ih =>
      obtain ⟨u, _, _, middle, _⟩ := mem_dependencies.mp last
      exact (ih middle).tail ((mem_dependencies_iff middle there).mp last)

theorem transGen_of_mentions (h : TransGen (Mentions declared) s t) (here : declared[i]? = some s)
    (there : declared[j]? = some t) : TransGen (fun i j => j ∈ dependencies declared i) i j := by
  induction h generalizing j with
  | single step => exact .single ((mem_dependencies_iff here there).mpr step)
  | tail before last ih =>
      obtain ⟨k, middle⟩ : ∃ k, declared[k]? = some _ := by
        rcases TransGen.tail'_iff.mp before with ⟨_, _, step⟩
        exact List.getElem?_of_mem step.1
      exact (ih middle).tail ((mem_dependencies_iff middle there).mpr last)

theorem acyclic_iff : Acyclic declared ↔ ∀ s, ¬ TransGen (Mentions declared) s s := by
  constructor
  · intro acyclic s cycle
    obtain ⟨_, _, step⟩ := TransGen.tail'_iff.mp cycle
    obtain ⟨i, here⟩ := List.getElem?_of_mem step.1
    exact acyclic i (transGen_of_mentions cycle here here)
  · intro acyclic i cycle
    obtain ⟨k, step, back⟩ := TransGen.head'_iff.mp cycle
    obtain ⟨s, t, _, here, there, _⟩ := mem_dependencies.mp step
    exact acyclic s (.head' ((mem_dependencies_iff here there).mp step)
      (mentions_of_leads back there here))

theorem acyclic_of_perm {other : List Statement} (perm : declared.Perm other)
    (acyclic : Acyclic declared) : Acyclic other := by
  have same : Mentions other = Mentions declared := by
    funext s t
    rw [Mentions, Mentions, perm.mem_iff]
  rw [acyclic_iff, same]
  exact acyclic_iff.mp acyclic

/-- Nothing leads back where each declaration mentions only later ones. -/
theorem acyclic_of_forward
    (forward : ∀ i < declared.length, ∀ j ∈ dependencies declared i, i < j) :
    Acyclic declared := by
  have step : ∀ i j, j ∈ dependencies declared i → i < j := by
    intro i j dependency
    obtain ⟨_, _, _, here, _⟩ := mem_dependencies.mp dependency
    exact forward i (List.getElem?_eq_some_iff.mp here).1 j dependency
  intro i cycle
  have later : ∀ j, TransGen (fun i j => j ∈ dependencies declared i) i j → i < j := by
    intro j path
    induction path with
    | single last => exact step _ _ last
    | tail _ last ih => exact Nat.lt_trans ih (step _ _ last)
  exact Nat.lt_irrefl i (later i cycle)

theorem filterMap_range (declared : List Statement) :
    (List.range declared.length).filterMap (declared[·]?) = declared := by
  induction declared using List.reverseRecOn with
  | nil => rfl
  | append_singleton declared s ih =>
      rw [List.length_append, List.length_singleton, List.range_succ, List.filterMap_append]
      congr 1
      · refine (List.filterMap_congr fun i hi => ?_).trans ih
        exact List.getElem?_append_left (List.mem_range.mp hi)
      · simp

/-- Every type and class is completed once in a round, and no function is. -/
theorem of_perm (declared : List Statement) :
    (CompletionOrder.of declared).Perm (declared.filter fun s => (typeName? s).isSome) := by
  have all : (positions declared).Perm (roots declared) :=
    (List.perm_ext_iff_of_nodup (nodup_positions declared) (List.nodup_range.filter _)).mpr
      fun _ => mem_positions
  have filtered : (roots declared).filterMap (declared[·]?) =
      declared.filter fun s => (typeName? s).isSome := by
    conv_rhs => rw [← filterMap_range declared, List.filter_filterMap]
    rw [roots, List.filterMap_filter]
    refine List.filterMap_congr fun i _ => ?_
    cases declared[i]? with
    | none => rfl
    | some s => rfl
  rw [of_eq, ← filtered]
  exact all.filterMap _

theorem exists_positions {before after : List Statement}
    (split : CompletionOrder.of declared = before ++ s :: after) :
    ∃ first i last, positions declared = first ++ i :: last ∧ declared[i]? = some s ∧
      first.filterMap (declared[·]?) = before := by
  rw [of_eq] at split
  obtain ⟨first, rest, order, rfl, later⟩ := List.filterMap_eq_append_iff.mp split
  obtain ⟨skipped, i, last, rfl, none, here, _⟩ := List.filterMap_eq_cons_iff.mp later
  refine ⟨first ++ skipped, i, last, by rw [order, List.append_assoc], here, ?_⟩
  rw [List.filterMap_append, List.filterMap_eq_nil_iff.mpr none, List.append_nil]

/-- In a round a declaration comes after those it mentions, but for those that lead back to it. -/
theorem of_sorted {before after : List Statement}
    (split : CompletionOrder.of declared = before ++ s :: after) (h : Mentions declared s t) :
    t ∈ before ∨ ReflTransGen (Mentions declared) t s := by
  obtain ⟨first, i, last, order, here, rfl⟩ := exists_positions split
  obtain ⟨j, there⟩ := List.getElem?_of_mem h.1
  rcases positions_sorted order ((mem_dependencies_iff here there).mpr h) with earlier | leads
  · exact .inl (List.mem_filterMap.mpr ⟨j, earlier, there⟩)
  · exact .inr (mentions_of_leads leads there here)

theorem of_topological (acyclic : Acyclic declared) {before after : List Statement}
    (split : CompletionOrder.of declared = before ++ s :: after) (h : Mentions declared s t) :
    t ∈ before :=
  (of_sorted split h).resolve_right fun back => acyclic_iff.mp acyclic s (.head' h back)

end CompletionOrder
end ScriptFront
