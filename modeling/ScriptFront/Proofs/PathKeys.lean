import ScriptFront.Path.Normal

/-!
Normal forms of paths as keys of files. A normal form reads back as the components it was written
from, so that two normal forms which go through the same components are one path, and normalizing
one again changes nothing. That different spellings of a place have one normal form is left open.
-/

namespace ScriptFront
namespace Path

/-- Names that a component can have: a piece that moves, and moves downwards. -/
def Component.Plain : Component → Prop
  | .name cs => isIdle cs = false ∧ cs ≠ ['.', '.'] ∧ '/' ∉ cs
  | _ => True

/-- The components of normal forms, from the last to the first. -/
def Trail : List Component → Prop
  | [] => True
  | .current :: _ => False
  | .root :: rest => rest = []
  | .parent :: rest => (∀ cs, rest.head? ≠ some (.name cs)) ∧ Trail rest
  | .name cs :: rest => (Component.name cs).Plain ∧ Trail rest

/-- A path as it is written for components in normal form. -/
def Normal (p : Path) : Prop := ∃ trail, Trail trail ∧ p = ofComponents trail.reverse

theorem trail_tail {c : Component} {rest : List Component} (h : Trail (c :: rest)) :
    Trail rest := by
  cases c with
  | root =>
      have hr : rest = [] := h
      subst hr
      trivial
  | current => exact absurd h id
  | parent | name _ => exact h.2

theorem plain_of_mem_trail {trail : List Component} (h : Trail trail) :
    ∀ c ∈ trail, c.Plain ∧ c ≠ .current := by
  induction trail with
  | nil => simp
  | cons c rest ih =>
      intro d hd
      rcases List.mem_cons.mp hd with rfl | hd
      · cases d with
        | current => exact absurd h id
        | root | parent => exact ⟨trivial, by simp⟩
        | name cs => exact ⟨h.1, by simp⟩
      · exact ih (trail_tail h) d hd

theorem trail_follow {trail : List Component} {c : Component} (h : Trail trail) (hc : c.Plain) :
    Trail (follow trail c) := by
  cases c with
  | current => exact h
  | root => rfl
  | name cs => exact ⟨hc, h⟩
  | parent =>
      cases trail with
      | nil => exact ⟨by simp, trivial⟩
      | cons d rest =>
          cases d with
          | name _ => exact h.2
          | root | current | parent => exact ⟨by simp, h⟩

theorem trail_foldl_follow (cs : List Component) {trail : List Component} (h : Trail trail)
    (hcs : ∀ c ∈ cs, c.Plain) : Trail (cs.foldl follow trail) := by
  induction cs generalizing trail with
  | nil => exact h
  | cons c cs ih =>
      exact ih (trail_follow h (hcs c (by simp))) fun d hd => hcs d (by simp [hd])

/-- Following the components of a trail from its first one on gives the trail. -/
theorem foldl_follow_trail {trail : List Component} (h : Trail trail) :
    trail.reverse.foldl follow [] = trail := by
  induction trail with
  | nil => rfl
  | cons c rest ih =>
      rw [List.reverse_cons, List.foldl_append, ih (trail_tail h)]
      cases c with
      | current => exact absurd h id
      | name cs => rfl
      | root =>
          have hr : rest = [] := h
          subst hr
          rfl
      | parent =>
          cases rest with
          | nil => rfl
          | cons d rest =>
              cases d with
              | name cs => exact absurd rfl (h.1 cs)
              | root | current | parent => rfl

/-! ### Reading back -/

theorem splitAt_joinPieces {pieces : List (List Char)} (hne : pieces ≠ [])
    (h : ∀ p ∈ pieces, '/' ∉ p) : Text.splitAt '/' (joinPieces pieces) = pieces := by
  induction pieces with
  | nil => exact absurd rfl hne
  | cons first rest ih =>
      cases rest with
      | nil => exact Text.splitAt_eq_singleton (h first (by simp))
      | cons second rest =>
          rw [joinPieces, Text.splitAt_append_cons (h first (by simp)),
            ih (by simp) fun p hp => h p (by simp [hp])]
          simp

/-- Components other than the root that are written as a piece of their own. -/
def Component.Moves (c : Component) : Prop := c.Plain ∧ c ≠ .current ∧ c ≠ .root

theorem Component.Moves.chars_ne {c : Component} (h : c.Moves) :
    isIdle c.chars = false ∧ '/' ∉ c.chars := by
  cases c with
  | root | current => simp [Moves] at h
  | parent => decide
  | name cs => exact ⟨h.1.1, h.1.2.2⟩

theorem Component.Moves.ofPiece_chars {c : Component} (h : c.Moves) : ofPiece c.chars = c := by
  cases c with
  | root | current => simp [Moves] at h
  | parent => rfl
  | name cs => exact if_neg h.1.2.1

theorem componentsOfPieces_chars {cs : List Component} (h : ∀ c ∈ cs, c.Moves) :
    componentsOfPieces (cs.map Component.chars) = cs := by
  induction cs with
  | nil => rfl
  | cons c cs ih =>
      have hc := h c (by simp)
      have ih := ih fun d hd => h d (by simp [hd])
      simp only [componentsOfPieces, List.map_cons] at ih ⊢
      rw [List.filter_cons_of_pos (by simp [hc.chars_ne.1]), List.map_cons, hc.ofPiece_chars, ih]

theorem pieces_joined {cs : List Component} (hne : cs ≠ []) (h : ∀ c ∈ cs, c.Moves) :
    Text.splitAt '/' (joinPieces (cs.map Component.chars)) = cs.map Component.chars := by
  refine splitAt_joinPieces (by simpa using hne) ?_
  intro p hp
  obtain ⟨c, hc, rfl⟩ := List.mem_map.mp hp
  exact (h c hc).chars_ne.2

theorem components_ofComponents_root {cs : List Component} (h : ∀ c ∈ cs, c.Moves) :
    (ofComponents (.root :: cs)).components = .root :: cs := by
  have absolute : (ofComponents (.root :: cs)).isAbsolute = true := by
    simp [ofComponents, isAbsolute]
  have pieces : (ofComponents (.root :: cs)).pieces
      = [] :: Text.splitAt '/' (joinPieces (cs.map Component.chars)) := by
    simp [ofComponents, Path.pieces, Text.splitAt]
  simp only [components, pieces, absolute, ↓reduceIte]
  cases cs with
  | nil => rfl
  | cons c cs => rw [pieces_joined (by simp) h, componentsOfPieces_chars h]

theorem components_ofComponents_moves {cs : List Component} (h : ∀ c ∈ cs, c.Moves) :
    (ofComponents cs).components = cs := by
  cases cs with
  | nil => decide
  | cons c cs =>
      have hc := h c (by simp)
      have text : ofComponents (c :: cs)
          = ⟨.ofList (joinPieces ((c :: cs).map Component.chars))⟩ := by
        cases c with
        | root => exact absurd rfl hc.2.2
        | current | parent | name _ => rfl
      have pieces : (ofComponents (c :: cs)).pieces = c.chars :: cs.map Component.chars := by
        simpa [text, Path.pieces] using pieces_joined (by simp) h
      have relative : (ofComponents (c :: cs)).isAbsolute = false := by
        obtain ⟨a, as, ha⟩ : ∃ a as, c.chars = a :: as := by
          cases hcs : c.chars with
          | nil => exact absurd hc.chars_ne.1 (by simp [hcs, isIdle])
          | cons a as => exact ⟨a, as, rfl⟩
        have hslash : a ≠ '/' := fun e => hc.chars_ne.2 (by simp [ha, e])
        cases cs <;> simp [text, isAbsolute, joinPieces, ha, hslash]
      have moves : c.chars ≠ ['.'] := fun e => absurd hc.chars_ne.1 (by simp [e, isIdle])
      simp only [components, pieces, relative, Bool.false_eq_true, ↓reduceIte, moves]
      exact componentsOfPieces_chars h

theorem root_ends_trail (before : List Component) {after : List Component}
    (h : Trail (before ++ .root :: after)) :
    after = [] := by
  induction before with
  | nil => exact h
  | cons d before ih => exact ih (trail_tail h)

theorem components_ofComponents_trail {trail : List Component} (h : Trail trail) :
    (ofComponents trail.reverse).components = trail.reverse := by
  have plain := plain_of_mem_trail h
  by_cases hroot : trail.getLast? = some .root
  · obtain ⟨rest, rfl⟩ := List.getLast?_eq_some_iff.mp hroot
    rw [List.reverse_append]
    apply components_ofComponents_root
    intro c hc
    have hmem : c ∈ rest := List.mem_reverse.mp hc
    refine ⟨(plain c (by simp [hmem])).1, (plain c (by simp [hmem])).2, ?_⟩
    rintro rfl
    obtain ⟨before, after, rfl⟩ := List.append_of_mem hmem
    have ended : after ++ [.root] = [] := root_ends_trail before (by simpa using h)
    simp at ended
  · apply components_ofComponents_moves
    intro c hc
    have hmem : c ∈ trail := List.mem_reverse.mp hc
    refine ⟨(plain c hmem).1, (plain c hmem).2, ?_⟩
    rintro rfl
    obtain ⟨before, after, rfl⟩ := List.append_of_mem hmem
    have := root_ends_trail before h
    exact hroot (by simp [this])

/-! ### Keys -/

theorem Normal.eq_of_same {p q : Path} (hp : p.Normal) (hq : q.Normal) (h : p.same q = true) :
    p = q := by
  obtain ⟨s, hs, rfl⟩ := hp
  obtain ⟨t, ht, rfl⟩ := hq
  have hc : s.reverse = t.reverse := by
    simpa [same, components_ofComponents_trail hs, components_ofComponents_trail ht] using h
  rw [hc]

theorem same_self (p : Path) : p.same p = true := by simp [same]

theorem plain_ofPiece {piece : List Char} (hidle : isIdle piece = false) (hslash : '/' ∉ piece) :
    (Component.ofPiece piece).Plain := by
  unfold Component.ofPiece
  split
  · trivial
  · rename_i h
    exact ⟨hidle, h, hslash⟩

theorem plain_componentsOfPieces {pieces : List (List Char)} (h : ∀ p ∈ pieces, '/' ∉ p) :
    ∀ c ∈ componentsOfPieces pieces, c.Plain := by
  intro c hc
  obtain ⟨piece, hp, rfl⟩ := List.mem_map.mp hc
  obtain ⟨hp, hidle⟩ := List.mem_filter.mp hp
  exact plain_ofPiece (by simpa using hidle) (h piece hp)

theorem plain_components (p : Path) : ∀ c ∈ p.components, c.Plain := by
  have slash : ∀ piece ∈ p.pieces, '/' ∉ piece := fun _ h => Text.sep_not_mem_of_mem_splitAt h
  intro c hc
  unfold components at hc
  split at hc
  · simp at hc
  · rename_i first rest he
    have hrest : ∀ piece ∈ rest, '/' ∉ piece := fun piece h => slash piece (by simp [he, h])
    split at hc
    · rcases List.mem_cons.mp hc with rfl | hc
      · trivial
      · exact plain_componentsOfPieces hrest c hc
    · split at hc
      · rcases List.mem_cons.mp hc with rfl | hc
        · trivial
        · exact plain_componentsOfPieces hrest c hc
      · exact plain_componentsOfPieces (fun piece h => slash piece (by rwa [he])) c hc

theorem plain_withSourceExtension {cs : List Component} (h : ∀ c ∈ cs, c.Plain) :
    ∀ c ∈ withSourceExtension cs, c.Plain := by
  unfold withSourceExtension
  split
  · rename_i n hn
    split
    · exact h
    · intro c hc
      rcases List.mem_append.mp hc with hc | hc
      · exact h c (List.dropLast_subset _ hc)
      · obtain rfl := List.mem_singleton.mp hc
        have hname : (Component.name n).Plain := h _ (List.mem_of_getLast? hn)
        have hslash : '/' ∉ sourceExtension.toList := by decide
        refine ⟨?_, ?_, by simp [hname.2.2, hslash]⟩
        · cases n <;> simp [isIdle, sourceExtension]
        · intro e
          have := congrArg List.length e
          simp [sourceExtension] at this
  · exact h

theorem normal_ofComponents {cs : List Component} (h : ∀ c ∈ cs, c.Plain) :
    (ofComponents (normalComponents cs)).Normal :=
  ⟨cs.foldl follow [], trail_foldl_follow cs trivial h, rfl⟩

theorem normal_normalize (p : Path) : p.normalize.Normal := normal_ofComponents (plain_components p)

theorem normal_resolveImport (importer : Path) (source : String) :
    (importer.resolveImport source).Normal :=
  normal_ofComponents (plain_withSourceExtension (plain_components _))

theorem Normal.normalize_eq {p : Path} (h : p.Normal) : p.normalize = p := by
  obtain ⟨trail, ht, rfl⟩ := h
  rw [normalize, components_ofComponents_trail ht, normalComponents, foldl_follow_trail ht]

end Path
end ScriptFront
