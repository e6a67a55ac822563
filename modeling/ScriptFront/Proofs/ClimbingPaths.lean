import ScriptFront.Proofs.PathPlaces

/-!
Normal forms of absolute paths. The normal form tells the place below the root that a path leads to,
and how often the way there took the parent of the root: a path that never does so has the one normal
form of its place, without any `..`. The same holds of the files that imports lead to.
-/

namespace ScriptFront
namespace Path

namespace Spot

/-- The normal form of a way to a place, from its last component to its first. -/
def trail (s : Spot) : List Component :=
  s.names.map .name ++ (List.replicate s.climbs .parent ++ [.root])

theorem follow_trail (s : Spot) {c : Component} (h : c ≠ .root) :
    follow s.trail c = (s.lead c).trail := by
  obtain ⟨names, climbs⟩ := s
  cases c with
  | root => exact absurd rfl h
  | current | name _ => rfl
  | parent =>
      cases names with
      | cons name names => rfl
      | nil =>
          cases climbs with
          | zero => rfl
          | succ n => rfl

theorem foldl_follow_trail {cs : List Component} (free : .root ∉ cs) (s : Spot) :
    cs.foldl follow s.trail = (cs.foldl lead s).trail := by
  induction cs generalizing s with
  | nil => rfl
  | cons c cs ih =>
      rw [List.foldl_cons, List.foldl_cons, s.follow_trail fun eq => free (eq ▸ List.mem_cons_self ..)]
      exact ih (fun mem => free (List.mem_cons_of_mem _ mem)) _

/-- Names that a trail goes through. -/
def name? : Component → Option (List Char)
  | .name name => some name
  | _ => none

theorem names_trail (s : Spot) : s.trail.filterMap name? = s.names := by
  have named : (s.names.map Component.name).filterMap name? = s.names := by
    rw [List.filterMap_map]
    exact List.filterMap_some
  have others : (List.replicate s.climbs Component.parent ++ [Component.root]).filterMap name? = [] := by
    refine List.filterMap_eq_nil_iff.mpr fun c mem => ?_
    rcases List.mem_append.mp mem with parent | root
    · rw [(List.mem_replicate.mp parent).2]
      rfl
    · rw [List.mem_singleton.mp root]
      rfl
  rw [trail, List.filterMap_append, named, others, List.append_nil]

theorem climbs_trail (s : Spot) : s.trail.count .parent = s.climbs := by
  have named : (s.names.map Component.name).count .parent = 0 :=
    List.count_eq_zero.mpr fun mem => by
      obtain ⟨_, -, eq⟩ := List.mem_map.mp mem
      cases eq
  rw [trail, List.count_append, named, List.count_append, List.count_replicate_self]
  exact Nat.zero_add _

/-- A trail tells the place, and how often the way took the parent of the root. -/
theorem trail_inj {s t : Spot} (h : s.trail = t.trail) : s = t := by
  have names : s.names = t.names := by rw [← names_trail, h, names_trail]
  have climbs : s.climbs = t.climbs := by rw [← climbs_trail, h, climbs_trail]
  cases s
  cases t
  cases names
  cases climbs
  rfl

/-- The path in normal form that leads to a place below the root. -/
def key (s : Spot) : Path := ofComponents s.trail.reverse

section Key

variable {s t : Spot} (hs : Trail s.trail)

include hs

theorem components_key : s.key.components = s.trail.reverse := components_ofComponents_trail hs

theorem key_inj (ht : Trail t.trail) : s.key = t.key ↔ s.names = t.names ∧ s.climbs = t.climbs := by
  refine ⟨fun same => ?_, fun ⟨names, climbs⟩ => ?_⟩
  · have reversed : s.trail.reverse = t.trail.reverse := by
      rw [← components_key hs, ← components_key ht, same]
    have eq : s = t := trail_inj (List.reverse_inj.mp reversed)
    exact ⟨by rw [eq], by rw [eq]⟩
  · rw [key, trail, names, climbs]
    rfl

theorem parent_mem_key : .parent ∈ s.key.components ↔ s.climbs ≠ 0 := by
  rw [components_key hs, List.mem_reverse, ← List.count_pos_iff, climbs_trail, Nat.pos_iff_ne_zero]

end Key

end Spot

/-! ### Absolute paths -/

variable {p : Path}

/-- The components of an absolute path lead to its place. -/
theorem foldl_follow_of_absolute (h : p.isAbsolute = true) :
    p.components.foldl follow [] = p.spot.trail := by
  obtain ⟨cs, components, free⟩ := components_of_absolute h
  rw [spot, components]
  exact Spot.root.foldl_follow_trail free

theorem trail_spot (h : p.isAbsolute = true) : Trail p.spot.trail := by
  rw [← foldl_follow_of_absolute h]
  exact trail_foldl_follow _ trivial (plain_components p)

theorem normalize_of_absolute (h : p.isAbsolute = true) : p.normalize = p.spot.key := by
  rw [normalize, normalComponents, foldl_follow_of_absolute h, Spot.key]

/-- An absolute path has no stays among its components. -/
theorem steps_of_absolute (h : p.isAbsolute = true) : p.steps = p.components := by
  obtain ⟨_, -, cut⟩ := pieces_of_absolute h
  rw [steps_eq, components, cut, h, componentsOfPieces_idle rfl]
  rfl

/-! ### Directories -/

/-- Nothing is trimmed behind a piece that moves. -/
theorem trimIdle_concat (first : List Char) (rest : List (List Char)) {last : List Char}
    (h : isIdle last = false) : trimIdle (first :: (rest ++ [last])) = first :: (rest ++ [last]) := by
  rw [trimIdle, List.reverse_concat, List.dropWhile_cons_of_neg (by simp [h]), List.reverse_cons,
    List.reverse_reverse]

/-- The directory of a path that starts at the root and moves with every piece. -/
theorem directory_of_pieces {ps : List (List Char)} {last : List Char}
    (cut : p.pieces = [] :: (ps ++ [last])) (h : ∀ piece ∈ ps ++ [last], isIdle piece = false) :
    p.directory = ⟨.ofList ('/' :: joinPieces ps)⟩ := by
  have idle : isIdle last = false := h _ (List.mem_append_right _ (List.mem_singleton.mpr rfl))
  rw [directory, cut, trimIdle_concat [] ps idle]
  rcases ps.eq_nil_or_concat with rfl | ⟨front, piece, rfl⟩
  · rfl
  · rw [List.concat_eq_append] at h ⊢
    have inner : isIdle piece = false := h _ (by simp)
    have behind : (([] : List Char) :: (front ++ [piece] ++ [last])).dropLast
        = [] :: (front ++ [piece]) := by
      rw [← List.cons_append, List.dropLast_concat]
    obtain ⟨second, others, parts⟩ := List.exists_cons_of_ne_nil
      (l := front ++ [piece] ++ [last]) (by simp)
    rw [parts]
    dsimp only
    rw [← parts, behind, trimIdle_concat [] front inner]
    cases front <;> rfl

/-- The directory of a file below the root goes through the same components but for the name. -/
theorem directory_of_root {cs : List Component} {name : List Char}
    (h : ∀ c ∈ cs ++ [.name name], c.Moves) :
    (ofComponents (.root :: (cs ++ [.name name]))).directory = ofComponents (.root :: cs) := by
  have chars : (cs ++ [Component.name name]).map Component.chars = cs.map Component.chars ++ [name] := by
    rw [List.map_append]
    rfl
  have cut : (ofComponents (.root :: (cs ++ [.name name]))).pieces
      = [] :: (cs.map Component.chars ++ [name]) := by
    rw [← chars, ← pieces_joined (by simp) h]
    simp [ofComponents, pieces, Text.splitAt]
  rw [directory_of_pieces cut]
  · rfl
  · intro piece mem
    rw [← chars] at mem
    obtain ⟨c, hc, rfl⟩ := List.mem_map.mp mem
    exact (h c hc).chars_ne.1

/-! ### Imports -/

/-- What stands in front of a last component keeps it from no extension. -/
theorem withSourceExtension_append {before : List Component}
    (h : ∀ name, before.getLast? ≠ some (.name name)) (cs : List Component) :
    withSourceExtension (before ++ cs) = before ++ withSourceExtension cs := by
  rcases cs.eq_nil_or_concat with rfl | ⟨front, last, rfl⟩
  · rw [List.append_nil, withSourceExtension]
    split
    · next name last => exact absurd last (h name)
    · exact (List.append_nil _).symm
  · rw [List.concat_eq_append, ← List.append_assoc, withSourceExtension, withSourceExtension,
      List.getLast?_concat, List.getLast?_concat]
    cases last with
    | root | current | parent => exact List.append_assoc ..
    | name name =>
        dsimp only
        split
        · exact List.append_assoc ..
        · rw [List.dropLast_concat, List.dropLast_concat, List.append_assoc]

theorem root_not_mem_withSourceExtension {cs : List Component} (free : .root ∉ cs) :
    .root ∉ withSourceExtension cs := by
  unfold withSourceExtension
  split
  · split
    · exact free
    · intro mem
      rcases List.mem_append.mp mem with before | last
      · exact free (List.dropLast_subset _ before)
      · cases List.mem_singleton.mp last
  · exact free

namespace Spot

/-- The components of a key, the first one first. -/
theorem reverse_trail (s : Spot) :
    s.trail.reverse = .root :: (List.replicate s.climbs .parent ++ s.components) := by
  simp [trail, components]

theorem isAbsolute_key (s : Spot) : s.key.isAbsolute = true := by
  rw [key, reverse_trail, ofComponents, isAbsolute, String.toList_ofList]
  rfl

/-- A way that does nothing but to take the parent of the root. -/
theorem trail_of_climbs (n : Nat) : Trail (⟨[], n⟩ : Spot).trail := by
  induction n with
  | zero => rfl
  | succ n ih => exact ⟨by cases n <;> simp [List.replicate_succ], ih⟩

theorem directory_key {name : List Char} {names : List (List Char)} {n : Nat}
    (hs : Trail (⟨name :: names, n⟩ : Spot).trail) :
    (⟨name :: names, n⟩ : Spot).key.directory = (⟨names, n⟩ : Spot).key := by
  have parts (names : List (List Char)) : (⟨names, n⟩ : Spot).key
      = ofComponents (.root :: (List.replicate n .parent ++ names.reverse.map .name)) := by
    rw [key, reverse_trail]
    rfl
  rw [parts, parts, List.reverse_cons, List.map_append, ← List.append_assoc]
  refine directory_of_root fun c mem => ?_
  have inside : c ∈ (⟨name :: names, n⟩ : Spot).trail := by
    rw [← List.mem_reverse, reverse_trail, components, List.reverse_cons, List.map_append,
      ← List.append_assoc]
    exact List.mem_cons_of_mem _ mem
  obtain ⟨plain, moves⟩ := plain_of_mem_trail hs c inside
  refine ⟨plain, moves, ?_⟩
  rintro rfl
  simp at mem

/-- Going on from a directory, an import leads to where its source does. -/
theorem resolveImport_key {s : Spot} (hs : Trail s.trail) (named : s.names ≠ []) {source : String}
    (relative : isAbsolute ⟨source⟩ = false) :
    s.key.resolveImport source = (s.imported source).key ∧ Trail (s.imported source).trail := by
  obtain ⟨names, n⟩ := s
  obtain ⟨name, names, rfl⟩ := List.exists_cons_of_ne_nil named
  have hd : Trail (⟨names, n⟩ : Spot).trail := trail_tail hs
  have free : .root ∉ withSourceExtension ((⟨names, n⟩ : Spot).components ++ steps ⟨source⟩) := by
    refine root_not_mem_withSourceExtension fun mem => ?_
    rcases List.mem_append.mp mem with inside | behind
    · simp [components] at inside
    · exact root_not_mem_of_relative relative (List.mem_filter.mp behind).1
  -- The way starts at the root and takes its parent as often as the way to the file did.
  have way : (((⟨names, n⟩ : Spot).key).join ⟨source⟩).components
      = (⟨[], n⟩ : Spot).trail.reverse ++ ((⟨names, n⟩ : Spot).components ++ steps ⟨source⟩) := by
    rw [← steps_of_absolute (by rw [isAbsolute_join relative, isAbsolute_key]),
      steps_join relative, steps_of_absolute (isAbsolute_key _), components_key hd,
      ← List.append_assoc, reverse_trail, reverse_trail]
    simp [components]
  have open_ (name : List Char) : (⟨[], n⟩ : Spot).trail.reverse.getLast? ≠ some (.name name) := by
    rw [List.getLast?_reverse]
    cases n <;> simp [trail, List.replicate_succ]
  have followed : (withSourceExtension
      (((⟨names, n⟩ : Spot).key).join ⟨source⟩).components).foldl follow []
        = ((⟨name :: names, n⟩ : Spot).imported source).trail := by
    rw [way, withSourceExtension_append open_, List.foldl_append,
      Path.foldl_follow_trail (trail_of_climbs n), Spot.foldl_follow_trail free]
    rfl
  refine ⟨?_, ?_⟩
  · simp only [resolveImport, directory_key hs, normalComponents, followed]
    rfl
  · rw [← followed]
    exact trail_foldl_follow _ trivial (plain_withSourceExtension (plain_components _))

/-- The files that imports lead to have the keys of the places that the sources lead to. -/
theorem foldl_resolveImport {s : Spot} (hs : Trail s.trail) {sources : List String}
    (h : s.Imports sources) :
    sources.foldl resolveImport s.key = (sources.foldl imported s).key ∧
      Trail (sources.foldl imported s).trail := by
  induction sources generalizing s with
  | nil => exact ⟨rfl, hs⟩
  | cons source sources ih =>
      obtain ⟨named, relative, rest⟩ := h
      obtain ⟨key, trail⟩ := resolveImport_key hs named relative
      rw [List.foldl_cons, key]
      exact ih trail rest

end Spot

/--
The normal forms of absolute paths are the same exactly if the paths lead to the same place and take
the parent of the root equally often on the way, and they hold a `..` exactly if it is taken at all.
The same is true of the files that sequences of relative imports lead to.
-/
theorem absolute_keys {p q : Path} (hp : p.isAbsolute = true) (hq : q.isAbsolute = true) :
    (p.normalize = q.normalize ↔
      p.spot.names = q.spot.names ∧ p.spot.climbs = q.spot.climbs) ∧
    (.parent ∈ p.normalize.components ↔ p.spot.climbs ≠ 0) ∧
    ∀ sources sources' : List String, p.spot.Imports sources → q.spot.Imports sources' →
      (p.importing sources = q.importing sources' ↔
        (sources.foldl Spot.imported p.spot).names = (sources'.foldl Spot.imported q.spot).names ∧
        (sources.foldl Spot.imported p.spot).climbs = (sources'.foldl Spot.imported q.spot).climbs) ∧
      (.parent ∈ (p.importing sources).components ↔
        (sources.foldl Spot.imported p.spot).climbs ≠ 0) := by
  have trail := trail_spot hp
  have trail' := trail_spot hq
  rw [normalize_of_absolute hp, normalize_of_absolute hq]
  refine ⟨Spot.key_inj trail trail', Spot.parent_mem_key trail, fun sources sources' way way' => ?_⟩
  rw [importing, importing, normalize_of_absolute hp, normalize_of_absolute hq]
  obtain ⟨key, trail⟩ := Spot.foldl_resolveImport trail way
  obtain ⟨key', trail'⟩ := Spot.foldl_resolveImport trail' way'
  rw [key, key']
  exact ⟨Spot.key_inj trail trail', Spot.parent_mem_key trail⟩

/--
The parent of the root is the root, but `/../a.ky` and `/a.ky` are two keys of one file. They stay two
through imports, and a way that stays below the root finds the key without `..` again.
-/
theorem climbing_makes_another_key :
    (⟨"/../a.ky"⟩ : Path).spot.names = (⟨"/a.ky"⟩ : Path).spot.names ∧
    (⟨"/../a.ky"⟩ : Path).normalize ≠ (⟨"/a.ky"⟩ : Path).normalize ∧
    (⟨"/../a.ky"⟩ : Path).importing ["./b", "../c/d"]
      ≠ (⟨"/a.ky"⟩ : Path).importing ["./b", "./c/d"] ∧
    (⟨"/a.ky"⟩ : Path).importing ["lib/x", "../c/d"]
      = (⟨"/./b/../a.ky"⟩ : Path).importing ["c/./d"] := by
  have names : (⟨"/../a.ky"⟩ : Path).spot.names = (⟨"/a.ky"⟩ : Path).spot.names := by decide +kernel
  have climbed := absolute_keys (p := ⟨"/../a.ky"⟩) (q := ⟨"/a.ky"⟩) (by decide) (by decide)
  have below := absolute_keys (p := ⟨"/a.ky"⟩) (q := ⟨"/./b/../a.ky"⟩) (by decide) (by decide)
  refine ⟨names, fun same => ?_, fun same => ?_, ?_⟩
  · exact absurd (climbed.1.mp same).2 (by decide +kernel)
  · refine absurd ((climbed.2.2 _ _ ?_ ?_).1.mp same).2 (by decide +kernel)
    · refine ⟨by decide +kernel, by decide +kernel, by decide +kernel, by decide +kernel, trivial⟩
    · refine ⟨by decide +kernel, by decide +kernel, by decide +kernel, by decide +kernel, trivial⟩
  · refine (below.2.2 _ _ ?_ ?_).1.mpr ⟨by decide +kernel, by decide +kernel⟩
    · exact ⟨by decide +kernel, by decide +kernel, by decide +kernel, by decide +kernel, trivial⟩
    · exact ⟨by decide +kernel, by decide +kernel, trivial⟩

end Path
end ScriptFront
