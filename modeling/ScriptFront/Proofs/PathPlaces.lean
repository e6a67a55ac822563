import ScriptFront.Path.Reading
import ScriptFront.Proofs.PathKeys

/-!
Normal forms as keys of places. Two paths have one normal form exactly if they denote the same place,
where a `..` cancels the name in front of it; and a path may be brought into normal form before
another one is read from inside it. That the parent of the root is the root is left open.
-/

namespace ScriptFront

namespace Path

/-! ### Components and steps -/

theorem steps_of_pieces {pieces : List (List Char)} :
    (componentsOfPieces pieces).filter (· ≠ .current) = componentsOfPieces pieces := by
  refine List.filter_eq_self.mpr fun c mem => ?_
  obtain ⟨piece, -, rfl⟩ := List.mem_map.mp mem
  unfold Component.ofPiece
  split <;> simp

theorem componentsOfPieces_append (ps qs : List (List Char)) :
    componentsOfPieces (ps ++ qs) = componentsOfPieces ps ++ componentsOfPieces qs := by
  rw [componentsOfPieces, List.filter_append, List.map_append]
  rfl

theorem componentsOfPieces_idle {piece : List Char} (h : isIdle piece = true)
    (ps : List (List Char)) : componentsOfPieces (piece :: ps) = componentsOfPieces ps := by
  rw [componentsOfPieces, List.filter_cons_of_neg (by simp [h])]
  rfl

/-- An absolute path starts with an empty piece. -/
theorem pieces_of_absolute {p : Path} (h : p.isAbsolute = true) :
    ∃ text, p.text.toList = '/' :: text ∧ p.pieces = [] :: Text.splitAt '/' text := by
  unfold isAbsolute at h
  cases cs : p.text.toList with
  | nil => simp [cs] at h
  | cons c text =>
      have slash : c = '/' := by simpa [cs] using h
      exact ⟨text, by rw [slash], by rw [pieces, cs, slash, Text.splitAt, if_pos rfl]⟩

/-- The steps of a path are told by its pieces, but for the root. -/
theorem steps_eq (p : Path) :
    p.steps = (if p.isAbsolute then [.root] else []) ++ componentsOfPieces p.pieces := by
  rw [steps, components]
  cases cut : p.pieces with
  | nil => exact absurd cut (Text.splitAt_ne_nil _ _)
  | cons first rest =>
      dsimp only
      split
      · next absolute =>
          obtain ⟨_, -, pieces⟩ := pieces_of_absolute absolute
          cases pieces.symm.trans cut
          rw [List.filter_cons_of_pos (by decide), steps_of_pieces,
            componentsOfPieces_idle (by decide)]
          rfl
      · split
        · next stay =>
            subst stay
            rw [List.filter_cons_of_neg (by decide), steps_of_pieces,
              componentsOfPieces_idle (by decide)]
            rfl
        · rw [steps_of_pieces]
          rfl

/-- A stay leads nowhere. -/
theorem foldl_follow_steps (p : Path) (trail : List Component) :
    p.steps.foldl follow trail = p.components.foldl follow trail := by
  unfold steps
  generalize p.components = cs
  induction cs generalizing trail with
  | nil => rfl
  | cons c cs ih =>
      cases c with
      | current => exact ih trail
      | root | parent | name _ => exact ih _

theorem normalComponents_steps (p : Path) :
    normalComponents p.components = normalComponents p.steps := by
  rw [normalComponents, normalComponents, foldl_follow_steps]

/-! ### Paths inside others -/

theorem isAbsolute_join {a b : Path} (relative : b.isAbsolute = false) :
    (a.join b).isAbsolute = a.isAbsolute := by
  unfold join
  rw [relative, Bool.false_or]
  split
  · next empty =>
      have none_ : a.text.toList = [] := by simpa using empty
      rw [relative, isAbsolute, none_]
      rfl
  · next some_ =>
      have text : a.text.toList ≠ [] := by simpa using some_
      obtain ⟨c, cs, chars⟩ := List.exists_cons_of_ne_nil text
      split <;> simp [isAbsolute, chars]

/-- A path inside another takes the steps of both. -/
theorem steps_join {a b : Path} (relative : b.isAbsolute = false) :
    (a.join b).steps = a.steps ++ b.steps := by
  rw [steps_eq, steps_eq, steps_eq, isAbsolute_join relative, relative, List.append_assoc]
  congr 1
  simp only [Bool.false_eq_true, ↓reduceIte, List.nil_append]
  unfold join
  rw [relative, Bool.false_or]
  split
  · next empty =>
      have none_ : a.text.toList = [] := by simpa using empty
      rw [pieces, pieces, none_]
      rfl
  · split
    · next slash =>
        -- The last piece of a text that ends in a slash is empty.
        obtain ⟨front, ends⟩ := List.getLast?_eq_some_iff.mp slash
        have cut : (⟨a.text ++ b.text⟩ : Path).pieces = Text.splitAt '/' front ++ b.pieces := by
          simp only [pieces, String.toList_append, ends, List.append_assoc, List.singleton_append,
            Text.splitAt_append]
        have cut' : a.pieces = Text.splitAt '/' front ++ [[]] := by
          rw [pieces, ends, Text.splitAt_append]
          rfl
        rw [cut, cut', componentsOfPieces_append, componentsOfPieces_append,
          componentsOfPieces_idle (by decide) [], List.append_assoc]
        rfl
    · have cut : (⟨a.text ++ "/" ++ b.text⟩ : Path).pieces = a.pieces ++ b.pieces := by
        simp only [pieces, String.toList_append, List.append_assoc]
        exact Text.splitAt_append '/' _ _
      rw [cut, componentsOfPieces_append]

/-- The components of a normal form lead to where those of the path do. -/
theorem foldl_follow_normalize (p : Path) :
    p.normalize.components.foldl follow [] = p.components.foldl follow [] := by
  have trail : Trail (p.components.foldl follow []) :=
    trail_foldl_follow _ trivial (plain_components p)
  rw [normalize, normalComponents, components_ofComponents_trail trail, foldl_follow_trail trail]

/-- A directory may be brought into normal form before a path is read from inside it. -/
theorem normalize_join {a b : Path} (relative : b.isAbsolute = false) :
    (a.join b).normalize = (a.normalize.join b).normalize := by
  have sides (d : Path) : (d.join b).normalize
      = ofComponents (b.steps.foldl follow (d.components.foldl follow [])).reverse := by
    rw [normalize, normalComponents_steps, steps_join relative, normalComponents,
      List.foldl_append, foldl_follow_steps d]
  rw [sides, sides, foldl_follow_normalize]

/-! ### What normal forms look like -/

/-- A root stands at the start of components only. -/
theorem root_not_mem_of_relative {p : Path} (relative : p.isAbsolute = false) :
    .root ∉ p.components := by
  intro mem
  have step : .root ∈ p.steps := List.mem_filter.mpr ⟨mem, by decide⟩
  rw [steps_eq, relative] at step
  obtain ⟨piece, -, eq⟩ := List.mem_map.mp step
  unfold Component.ofPiece at eq
  split at eq <;> cases eq

theorem root_not_mem_foldl_follow {cs : List Component} (free : .root ∉ cs) :
    ∀ {trail : List Component}, .root ∉ trail → .root ∉ cs.foldl follow trail := by
  induction cs with
  | nil => exact fun h => h
  | cons c cs ih =>
      intro trail h
      refine ih (fun mem => free (List.mem_cons_of_mem _ mem)) ?_
      cases c with
      | root => exact absurd (List.mem_cons_self ..) free
      | current => exact h
      | name _ => exact List.not_mem_cons_of_ne_of_not_mem nofun h
      | parent =>
          cases trail with
          | nil => simp [follow]
          | cons d rest =>
              have tail : .root ∉ rest := fun mem => h (List.mem_cons_of_mem _ mem)
              cases d with
              | name _ => exact tail
              | root => exact absurd (List.mem_cons_self ..) h
              | current | parent => exact List.not_mem_cons_of_ne_of_not_mem nofun h

/-- A normal form without a root is a run of `..` and names behind it. -/
theorem trail_shape {trail : List Component} (h : Trail trail) (free : .root ∉ trail) :
    ∃ (n : Nat) (names : List (List Char)),
      trail.reverse = List.replicate n .parent ++ names.map .name := by
  induction trail with
  | nil => exact ⟨0, [], rfl⟩
  | cons c rest ih =>
      obtain ⟨n, names, shape⟩ := ih (trail_tail h) fun mem => free (List.mem_cons_of_mem _ mem)
      rw [List.reverse_cons, shape]
      cases c with
      | root => exact absurd (List.mem_cons_self ..) free
      | current => exact absurd h id
      | name cs =>
          exact ⟨n, names ++ [cs], by rw [List.map_append, List.append_assoc]; rfl⟩
      | parent =>
          -- In front of a `..` there is no name.
          have ends : names = [] := by
            rcases names.eq_nil_or_concat with rfl | ⟨front, name, rfl⟩
            · rfl
            · have last : rest.head? = some (.name name) := by
                rw [← List.getLast?_reverse, shape]
                simp
              exact absurd last (h.1 name)
          refine ⟨n + 1, [], ?_⟩
          rw [ends, List.replicate_succ', List.map_nil, List.append_nil, List.append_nil]

/-! ### Places -/

theorem Cancels.foldl_follow {cs ds : List Component} (h : Cancels cs ds) (trail : List Component) :
    cs.foldl follow trail = ds.foldl follow trail := by
  cases h with
  | stay before after | back before name after =>
      rw [List.foldl_append, List.foldl_append]
      rfl

theorem normalComponents_of_eqvGen {cs ds : List Component} (h : Relation.EqvGen Cancels cs ds) :
    normalComponents cs = normalComponents ds := by
  induction h with
  | rel cs ds step => rw [normalComponents, step.foldl_follow, normalComponents]
  | refl cs => rfl
  | symm cs ds _ ih => exact ih.symm
  | trans cs ds es _ _ first second => exact first.trans second

/-- Paths that denote the same place have one normal form. -/
theorem SamePlace.normalize_eq {p q : Path} (h : p.SamePlace q) : p.normalize = q.normalize := by
  rw [normalize, normalComponents_of_eqvGen h, normalize]

/-- To follow components changes nothing about the place, unless they go back to the root. -/
theorem eqvGen_foldl_follow {cs : List Component} (free : .root ∉ cs) :
    ∀ trail : List Component,
      Relation.EqvGen Cancels (trail.reverse ++ cs) (cs.foldl follow trail).reverse := by
  induction cs with
  | nil =>
      intro trail
      rw [List.append_nil]
      exact .refl _
  | cons c cs ih =>
      intro trail
      refine .trans _ _ _ ?_ (ih (fun mem => free (List.mem_cons_of_mem _ mem)) (follow trail c))
      have kept : (c :: trail).reverse ++ cs = trail.reverse ++ c :: cs := by simp
      cases c with
      | root => exact absurd (List.mem_cons_self ..) free
      | current => exact .rel _ _ (.stay trail.reverse cs)
      | name name =>
          rw [follow, kept]
          exact .refl _
      | parent =>
          cases trail with
          | nil => exact .refl _
          | cons d rest =>
              cases d with
              | name name =>
                  rw [follow, List.reverse_cons, List.append_assoc]
                  exact .rel _ _ (.back rest.reverse name cs)
              | root | current | parent =>
                  rw [follow, kept]
                  · exact .refl _
                  · simp

/-- The components of an absolute path are the root and others. -/
theorem components_of_absolute {p : Path} (h : p.isAbsolute = true) :
    ∃ cs, p.components = .root :: cs ∧ .root ∉ cs := by
  obtain ⟨_, -, cut⟩ := pieces_of_absolute h
  refine ⟨_, by rw [components, cut]; exact if_pos h, fun mem => ?_⟩
  obtain ⟨piece, -, eq⟩ := List.mem_map.mp mem
  unfold Component.ofPiece at eq
  split at eq <;> cases eq

theorem eqvGen_normalComponents (p : Path) :
    Relation.EqvGen Cancels p.components (normalComponents p.components) := by
  cases absolute : p.isAbsolute with
  | false => exact eqvGen_foldl_follow (root_not_mem_of_relative absolute) []
  | true =>
      obtain ⟨cs, components, free⟩ := components_of_absolute absolute
      rw [components]
      exact eqvGen_foldl_follow free [.root]

theorem components_normalize (p : Path) : p.normalize.components = normalComponents p.components :=
  components_ofComponents_trail (trail_foldl_follow _ trivial (plain_components p))

/-- Two paths have one normal form exactly if they denote the same place. -/
theorem normalize_eq_iff (p q : Path) : p.normalize = q.normalize ↔ p.SamePlace q := by
  refine ⟨fun same => ?_, SamePlace.normalize_eq⟩
  have components : normalComponents p.components = normalComponents q.components := by
    rw [← components_normalize, ← components_normalize, same]
  have way := eqvGen_normalComponents p
  rw [components] at way
  exact .trans _ _ _ way (.symm _ _ (eqvGen_normalComponents q))

/--
A normal form is its own normal form, and a directory may be brought into normal form before a
relative path is read from inside it. The normal form of a relative path is a run of `..` and names
behind it, and it is the one of exactly the paths that denote the same place.
-/
theorem normalize_is_key (a b : Path) :
    a.normalize.normalize = a.normalize ∧
    (b.isAbsolute = false → (a.join b).normalize = (a.normalize.join b).normalize) ∧
    (a.isAbsolute = false → ∃ (n : Nat) (names : List (List Char)),
      a.normalize.components = List.replicate n .parent ++ names.map .name) ∧
    (a.normalize = b.normalize ↔ a.SamePlace b) := by
  refine ⟨(normal_normalize a).normalize_eq, normalize_join, fun relative => ?_,
    normalize_eq_iff a b⟩
  rw [components_normalize]
  exact trail_shape (trail_foldl_follow _ trivial (plain_components a))
    (root_not_mem_foldl_follow (root_not_mem_of_relative relative) List.not_mem_nil)

/-- Detours, doubled slashes and parents of the start, in both paths. -/
theorem normalize_is_key_of_detours :
    (⟨"./src//lib/../.."⟩ : Path).normalize = ⟨""⟩ ∧
    (⟨"./src//lib/../.."⟩ : Path).join ⟨".././a/../b.ky"⟩ = ⟨"./src//lib/../../.././a/../b.ky"⟩ ∧
    ((⟨"./src//lib/../.."⟩ : Path).join ⟨".././a/../b.ky"⟩).normalize = ⟨"../b.ky"⟩ ∧
    ((⟨"./src//lib/../.."⟩ : Path).join ⟨".././a/../b.ky"⟩).normalize
      = ((⟨""⟩ : Path).join ⟨".././a/../b.ky"⟩).normalize ∧
    (∃ (n : Nat) (names : List (List Char)), (⟨"./src//lib/../.."⟩ : Path).normalize.components
      = List.replicate n .parent ++ names.map .name) := by
  have key := normalize_is_key ⟨"./src//lib/../.."⟩ ⟨".././a/../b.ky"⟩
  have normal : (⟨"./src//lib/../.."⟩ : Path).normalize = ⟨""⟩ := by decide +kernel
  have inside := key.2.1 (by decide)
  rw [normal] at inside
  exact ⟨normal, by decide +kernel, by decide +kernel, inside, key.2.2.1 (by decide)⟩

end Path
end ScriptFront
