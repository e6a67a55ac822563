import ScriptFront.Proofs.ChainTrees
import ScriptFront.Proofs.ForwardGrammar

/-!
What one pass over a chain of operands reads, and the tree that it makes. The operands that wait for
their right-hand side are the left sides along the right spine of the tree read so far, so each link
takes the part of the spine that it holds on to, and no token is read twice or left out.
-/

namespace ScriptFront

/-! ### Tokens in front of a cursor -/

/-- How an operator is spelled. -/
def ChainOp.spelling : ChainOp → List TokenKind
  | logical .or => [.doublePipe]
  | logical .and => [.doubleAmpersand]
  | binary .bitOr => [.pipe]
  | binary .bitXor => [.upArrow]
  | binary .bitAnd => [.ampersand]
  | binary .equal => [.doubleEqual]
  | binary .notEqual => [.bangEqual]
  | binary .less => [.leftArrow]
  | binary .lessEqual => [.leftArrowEqual]
  | binary .greater => [.rightArrow]
  | binary .greaterEqual => [.rightArrowEqual]
  | binary .shiftLeft => [.leftArrow, .leftArrow]
  | binary .shiftRight => [.rightArrow, .rightArrow]
  | binary .unsignedShiftRight => [.rightArrow, .rightArrow, .rightArrow]
  | binary .add => [.plus]
  | binary .subtract => [.minus]
  | binary .multiply => [.star]
  | binary .divide => [.fwdSlash]
  | binary .modulo => [.percent]

/-- The keyword of a quantifier. -/
def Quantifier.keyword : Quantifier → Keyword
  | .any => .kwAny
  | .all => .kwAll
  | .none => .kwNone

namespace Cursor

variable {s s₁ s' : Cursor} {ts us : List Token} {k : TokenKind} {n : Nat}

/-- Between two cursors there are some tokens. -/
structure Takes (s : Cursor) (ts : List Token) (s' : Cursor) : Prop where
  rest : s.rest = ts ++ s'.rest
  stop : s'.stop = s.stop

theorem Takes.trans (near : s.Takes ts s₁) (far : s₁.Takes us s') : s.Takes (ts ++ us) s' where
  rest := by rw [near.rest, far.rest, List.append_assoc]
  stop := far.stop.trans near.stop

theorem Within.takes (h : s'.Within s) : ∃ ts, s.Takes ts s' :=
  h.suffix.elim fun ts rest => ⟨ts, rest.symm, h.stop⟩

/-- The cursor some tokens further on. -/
def skip (s : Cursor) (n : Nat) : Cursor := Nat.repeat advance n s

theorem takes_skip (n : Nat) (s : Cursor) : s.Takes (s.rest.take n) (s.skip n) := by
  have run : (s.skip n).rest = s.rest.drop n ∧ (s.skip n).stop = s.stop := by
    induction n with
    | zero => exact ⟨rfl, rfl⟩
    | succ n ih => exact ⟨(congrArg List.tail ih.1).trans List.tail_drop, ih.2⟩
  exact ⟨by rw [run.1, List.take_append_drop], run.2⟩

theorem Takes.unique (h : s.Takes ts s') (h' : s.Takes us s') : ts = us :=
  List.append_cancel_right (h.rest.symm.trans h'.rest)

/-- The tokens next are of one kind. -/
theorem kinds_of_adjacentRun (h : s.adjacentRun k n = true) (token : k ≠ .eof) :
    (s.rest.take n).map (·.kind) = List.replicate n k := by
  have kinds : ∀ i < n, (s.peekAt i).kind = k := fun i less => by
    have run := List.all_eq_true.mp h i (List.mem_range.mpr less)
    exact beq_iff_eq.mp (Bool.and_eq_true_iff.mp run).1
  have long : n ≤ s.rest.length := length_of_kinds fun i less => by rwa [kinds i less]
  refine List.ext_getElem (by simp [long]) fun i inTaken inAll => ?_
  have less : i < n := by simpa using inAll
  have here := kinds i less
  rw [peekAt, List.getElem?_eq_getElem (less.trans_le long), Option.getD_some] at here
  simpa using here

/-- An operator is next as it is spelled. -/
theorem kinds_of_chainOp {op : ChainOp} (h : s.chainOp? = some (op, n)) :
    (s.rest.take n).map (·.kind) = op.spelling := by
  unfold chainOp? at h
  split at h
  · next run =>
      cases h
      exact kinds_of_adjacentRun run nofun
  · split at h
    · next run =>
        cases h
        exact kinds_of_adjacentRun run nofun
    · split at h
      · next run =>
          cases h
          exact kinds_of_adjacentRun run nofun
      · obtain ⟨_, single, ⟨⟩⟩ := Option.map_eq_some_iff.mp h
        have token : s.peek.kind ≠ .eof := fun ended => by
          rw [ended] at single
          cases single
        rw [rest_of_peek token, List.take_succ_cons, List.take_zero, List.map_singleton]
        revert single
        cases s.peek.kind <;> rintro ⟨⟩ <;> rfl

end Cursor

namespace Grammar

open ScriptFront.Parser

/-! ### Links as they are read -/

/--
A link is read: the operator that is next, and an operand behind it; or a test, and the target
behind its three words.
-/
inductive ReadsLink (g : Grammar) (s : Cursor) : List Token → ChainLink → Cursor → Prop
  | operator {op n e ts s'} : s.peek.kind ≠ .keyword .kwIs → s.chainOp? = some (op, n) →
      (s.rest.take n).map (·.kind) = op.spelling →
      g.operand (s.skip n) = .ok e s' → (s.skip n).Takes ts s' →
      ReadsLink g s (s.rest.take n ++ ts) (.operator op e) s'
  | test {q target ts s'} :
      (s.rest.take 3).map (·.kind) = [.keyword .kwIs, .keyword q.keyword, .keyword .kwOf] →
      isTarget g (s.skip 3) = .ok target s' → (s.skip 3).Takes ts s' →
      ReadsLink g s (s.rest.take 3 ++ ts) (.test q target) s'

/-- Links are read, one behind the other, until there is none. -/
inductive ReadsLinks (g : Grammar) : Cursor → List Token → List ChainLink → Cursor → Prop
  | ended {s} : s.peek.kind ≠ .keyword .kwIs → s.chainOp? = none → ReadsLinks g s [] [] s
  | more {s s₁ s' ts us k ks} : ReadsLink g s ts k s₁ → ReadsLinks g s₁ us ks s' →
      ReadsLinks g s (ts ++ us) (k :: ks) s'

/-- A chain is read: its first operand and the links behind it. -/
inductive ReadsChain (g : Grammar) (s : Cursor) :
    List Token → Expr → List ChainLink → Cursor → Prop
  | intro {s₁ s' ts us e ks} : g.operand s = .ok e s₁ → s.Takes ts s₁ →
      ReadsLinks g s₁ us ks s' → ReadsChain g s (ts ++ us) e ks s'

variable {g : Grammar} {s s' : Cursor} {t : ChainTree} {k : ChainLink} {ts : List Token}
  {ks : List ChainLink} {pending : Pending} {p : Nat} {e : Expr}

theorem ReadsLink.takes (h : ReadsLink g s ts k s') : s.Takes ts s' := by
  cases h with
  | operator _ _ _ _ far => exact (Cursor.takes_skip _ s).trans far
  | test _ _ far => exact (Cursor.takes_skip _ s).trans far

theorem ReadsLinks.takes (h : ReadsLinks g s ts ks s') : s.Takes ts s' := by
  induction h with
  | ended => exact ⟨rfl, rfl⟩
  | more first _ ih => exact first.takes.trans ih

theorem ReadsChain.takes (h : ReadsChain g s ts e ks s') : s.Takes ts s' := by
  obtain ⟨_, first, links⟩ := h
  exact first.trans links.takes

/-- The words of a test begin with `is`. -/
theorem peek_of_words {q : Quantifier} (words : (s.rest.take 3).map (·.kind)
    = [.keyword .kwIs, .keyword q.keyword, .keyword .kwOf]) : s.peek.kind = .keyword .kwIs := by
  obtain ⟨_ | ⟨t, rest⟩, stop, depth⟩ := s
  · cases words
  · exact (List.cons.inj words).1

/-- What is next decides which link is read. -/
theorem ReadsLink.unique {us : List Token} {k' : ChainLink} {s'' : Cursor}
    (h : ReadsLink g s ts k s') (h' : ReadsLink g s us k' s'') :
    ts = us ∧ k = k' ∧ s' = s'' := by
  have takes := h.takes
  have takes' := h'.takes
  suffices same : k = k' ∧ s' = s'' by
    obtain ⟨rfl, rfl⟩ := same
    exact ⟨takes.unique takes', rfl, rfl⟩
  cases h with
  | operator noTest found _ operand _ =>
      cases h' with
      | operator _ found' _ operand' _ =>
          cases found.symm.trans found'
          cases operand.symm.trans operand'
          exact ⟨rfl, rfl⟩
      | test words _ _ => exact absurd (peek_of_words words) noTest
  | @test q _ _ _ words target _ =>
      cases h' with
      | operator noTest _ _ _ _ => exact absurd (peek_of_words words) noTest
      | @test q' _ _ _ words' target' _ =>
          cases target.symm.trans target'
          have same : q.keyword = q'.keyword := by simpa using words.symm.trans words'
          refine ⟨?_, rfl⟩
          cases q <;> cases q' <;> first | rfl | cases same

/-- Where links end, there is none to read. -/
theorem ReadsLink.not_ended (h : ReadsLink g s ts k s') (noTest : s.peek.kind ≠ .keyword .kwIs)
    (none_ : s.chainOp? = none) : False := by
  cases h with
  | operator _ found _ _ _ => cases none_.symm.trans found
  | test words _ _ => exact noTest (peek_of_words words)

theorem ReadsLinks.unique {us : List Token} {ks' : List ChainLink} {s'' : Cursor}
    (h : ReadsLinks g s ts ks s') (h' : ReadsLinks g s us ks' s'') :
    ts = us ∧ ks = ks' ∧ s' = s'' := by
  induction h generalizing us ks' with
  | ended noTest none_ =>
      cases h' with
      | ended _ _ => exact ⟨rfl, rfl, rfl⟩
      | more first _ => exact (first.not_ended noTest none_).elim
  | more first _ ih =>
      cases h' with
      | ended noTest none_ => exact (first.not_ended noTest none_).elim
      | more first' rest' =>
          obtain ⟨rfl, rfl, rfl⟩ := first.unique first'
          obtain ⟨rfl, rfl, rfl⟩ := ih rest'
          exact ⟨rfl, rfl, rfl⟩

/-- From a cursor on, at most one chain is read. -/
theorem ReadsChain.unique {us : List Token} {e' : Expr} {ks' : List ChainLink} {s'' : Cursor}
    (h : ReadsChain g s ts e ks s') (h' : ReadsChain g s us e' ks' s'') :
    ts = us ∧ e = e' ∧ ks = ks' ∧ s' = s'' := by
  obtain ⟨first, near, links⟩ := h
  obtain ⟨first', near', links'⟩ := h'
  cases first.symm.trans first'
  obtain ⟨rfl, rfl, rfl⟩ := links.unique links'
  rw [near.unique near']
  exact ⟨rfl, rfl, rfl, rfl⟩

/-! ### Trees on the stack -/

end Grammar

namespace ChainTree

open Grammar

/-- A tree on the stack: the left sides along its right spine, and what is at the end of it. -/
def spine (pending : Pending) : ChainTree → Pending × Expr
  | join op left right => right.spine ((left.expr, op) :: pending)
  | t => (pending, t.expr)

end ChainTree

/-- The stack with one more link on an expression. -/
def ChainLink.push : ChainLink → Grammar.Pending × Expr → Grammar.Pending × Expr
  | operator op e, (pending, left) => ((left, op) :: pending, e)
  | test q target, (pending, subject) => (pending, .of (.is subject q target) subject.location)

namespace Grammar

open ScriptFront.Parser

variable {g : Grammar} {s s' : Cursor} {t : ChainTree} {k : ChainLink} {ts : List Token}
  {ks : List ChainLink} {pending : Pending} {p : Nat} {e : Expr} {r : Pending × Expr}

theorem spine_onto : (ChainTree.onto k t).spine pending = k.push (pending, t.expr) := by
  cases k <;> rfl

theorem node_eq_ok {form : ExprForm} {place : Location} (h : g.node form place s = .ok e s') :
    e = .of form place ∧ s' = s := by
  simp only [node] at h
  split at h
  · cases h
  · cases h
    exact ⟨rfl, rfl⟩

/-- Where nothing pending binds tightly enough, nothing is joined. -/
theorem fold_of_loose (loose : ∀ f ∈ pending.head?, f.2.precedence < p) (e : Expr) :
    fold g p pending e s = .ok (pending, e) s := by
  cases pending with
  | nil => rfl
  | cons f pending =>
      obtain ⟨left, op⟩ := f
      rw [fold, if_neg (loose _ rfl).not_ge]
      rfl

/-- A tree that binds tightly enough is joined into its expression. -/
theorem fold_spine_of_tight (h : t.Layered) (tight : ∀ o ∈ t.root?, p ≤ o.precedence)
    (run : fold g p (t.spine pending).1 (t.spine pending).2 s = .ok r s') :
    fold g p pending t.expr s = .ok r s' := by
  induction t generalizing pending with
  | operand e => exact run
  | test subject q target => exact run
  | join op left right _ ih =>
      obtain ⟨-, layered, -, above⟩ := h
      have here : p ≤ op.precedence := tight op rfl
      have joins := ih layered (fun o root => here.trans (above o root).le) run
      rw [fold, if_pos here] at joins
      obtain ⟨joined, s₁, made, rest⟩ := bind_eq_ok.mp joins
      obtain ⟨rfl, rfl⟩ := node_eq_ok made
      exact rest

/-- A link that holds on to all of a tree is pushed on its expression. -/
theorem fold_of_onto (loose : ∀ f ∈ pending.head?, f.2.precedence < k.precedence)
    (all : t.attach k = ChainTree.onto k t)
    (run : fold g k.precedence pending t.expr s = .ok r s') :
    k.push r = (t.attach k).spine pending ∧ s' = s := by
  rw [fold_of_loose loose] at run
  cases run
  exact ⟨by rw [all, spine_onto], rfl⟩

/-- The part of a tree that a link holds on to is joined, and the link pushed on it. -/
theorem fold_spine (h : t.Layered) (loose : ∀ f ∈ pending.head?, f.2.precedence < k.precedence)
    (run : fold g k.precedence (t.spine pending).1 (t.spine pending).2 s = .ok r s') :
    k.push r = (t.attach k).spine pending ∧ s' = s := by
  induction t generalizing pending with
  | operand e => exact fold_of_onto loose rfl run
  | test subject q target => exact fold_of_onto loose rfl run
  | join op left right _ ih =>
      by_cases low : k.precedence ≤ op.precedence
      · refine fold_of_onto loose (if_pos low) (fold_spine_of_tight h (fun o root => ?_) run)
        cases root
        exact low
      · rw [ChainTree.attach, if_neg low]
        refine ih h.2.1 (fun f head => ?_) run
        cases head
        exact Nat.lt_of_not_le low

/-! ### Steps and runs -/

theorem takes_of_forward {α : Type} {due : α → Prop} {m : Parser α} {a : α}
    (h : Forward [] due m s) (run : m s = .ok a s') : ∃ ts, s.Takes ts s' := by
  rw [Forward, run] at h
  generalize m (s.trailing []) = y at h
  cases h with
  | read within _ => exact within.takes

theorem expectKeyword_eq_ok {word : Keyword} {expected : String} {token : Token}
    (run : expectKeyword word expected s = .ok token s') :
    s.peek.kind = .keyword word ∧ s' = s.advance := by
  rw [expectKeyword, expect] at run
  split at run
  · next next =>
      cases run
      exact ⟨beq_iff_eq.mp next, rfl⟩
  · cases run

/-- The rest of a test, from its quantifier on. -/
theorem isTest_eq_ok {subject : Expr} (run : isTest g subject s = .ok e s') :
    ∃ q target, e = .of (.is subject q target) subject.location ∧
      s.peek.kind = .keyword q.keyword ∧ s.advance.peek.kind = .keyword .kwOf ∧
      isTarget g s.advance.advance = .ok target s' := by
  obtain ⟨t, s₁, ⟨⟩, run⟩ := bind_eq_ok.mp run
  have rest : ∀ q : Quantifier, s.peek.kind = .keyword q.keyword →
      (do let _ ← expectKeyword .kwOf "'of'"
          let target ← isTarget g
          g.node (.is subject q target) subject.location) s.advance = .ok e s' →
      ∃ q target, e = .of (.is subject q target) subject.location ∧
        s.peek.kind = .keyword q.keyword ∧ s.advance.peek.kind = .keyword .kwOf ∧
        isTarget g s.advance.advance = .ok target s' := by
    intro q kind run
    obtain ⟨word, s₁, ofRead, run⟩ := bind_eq_ok.mp run
    obtain ⟨target, s₂, targetRead, run⟩ := bind_eq_ok.mp run
    obtain ⟨rfl, rfl⟩ := node_eq_ok run
    obtain ⟨isOf, rfl⟩ := expectKeyword_eq_ok ofRead
    exact ⟨q, target, rfl, kind, isOf, targetRead⟩
  cases kind : s.peek.kind with
  | keyword word =>
      rw [kind] at run
      cases word with
      | kwAny => exact kind ▸ rest .any kind run
      | kwAll => exact kind ▸ rest .all kind run
      | kwNone => exact kind ▸ rest .none kind run
      | _ => cases run
  | _ =>
      rw [kind] at run
      cases run

/-- Three tokens that are not the end of file. -/
theorem take_three {a b c : TokenKind} (first : s.peek.kind = a) (second : s.advance.peek.kind = b)
    (third : s.advance.advance.peek.kind = c) (tokens : .eof ∉ [a, b, c]) :
    (s.rest.take 3).map (·.kind) = [a, b, c] := by
  subst first second third
  simp only [List.mem_cons, not_or] at tokens
  rw [Cursor.rest_of_peek (Ne.symm tokens.1), Cursor.rest_of_peek (Ne.symm tokens.2.1),
    Cursor.rest_of_peek (Ne.symm tokens.2.2.1)]
  rfl

section Steps

variable (h : GoesForward [] g)

include h

/-- One step of a chain reads a link and attaches it, or there is none to read. -/
theorem chainStep_eq_ok {next : ForInStep (Pending × Expr)} (layered : t.Layered)
    (run : chainStep g (t.spine []) s = .ok next s') :
    (∃ ts k, ReadsLink g s ts k s' ∧ next = .yield ((t.attach k).spine [])) ∨
      next = .done (t.spine []) ∧ s' = s ∧ s.peek.kind ≠ .keyword .kwIs ∧ s.chainOp? = none := by
  obtain ⟨tests, s₁, ⟨⟩, run⟩ := bind_eq_ok.mp run
  split at run
  · next isNext =>
      have kind : s.peek.kind = .keyword .kwIs := beq_iff_eq.mp isNext
      obtain ⟨⟨pending, subject⟩, s₁, folded, run⟩ := bind_eq_ok.mp run
      obtain ⟨_, s₂, ⟨⟩, run⟩ := bind_eq_ok.mp run
      obtain ⟨_, s₃, testRead, ⟨⟩⟩ := bind_eq_ok.mp run
      obtain ⟨q, target, rfl, quantifier, isOf, targetRead⟩ := isTest_eq_ok testRead
      obtain ⟨pushed, rfl⟩ := fold_spine (k := .test q target) layered (by simp) folded
      obtain ⟨ts, far⟩ := takes_of_forward (inside_isTarget h _) targetRead
      have words := take_three kind quantifier isOf (by simp)
      exact .inl ⟨_, _, .test words targetRead far, congrArg _ pushed⟩
  · next noTest =>
      have kind : s.peek.kind ≠ .keyword .kwIs := fun isNext => noTest (beq_iff_eq.mpr isNext)
      obtain ⟨_, s₁, ⟨⟩, run⟩ := bind_eq_ok.mp run
      dsimp only at run
      cases found : s.chainOp? with
      | none =>
          rw [found] at run
          cases run
          exact .inr ⟨rfl, rfl, kind, rfl⟩
      | some ahead =>
          obtain ⟨op, width⟩ := ahead
          rw [found] at run
          obtain ⟨⟨pending, left⟩, s₁, folded, run⟩ := bind_eq_ok.mp run
          obtain ⟨_, s₂, ⟨⟩, run⟩ := bind_eq_ok.mp run
          obtain ⟨operand, s₃, operandRead, ⟨⟩⟩ := bind_eq_ok.mp run
          obtain ⟨pushed, rfl⟩ := fold_spine (k := .operator op operand) layered (by simp) folded
          obtain ⟨ts, far⟩ := takes_of_forward (h.operand _) operandRead
          exact .inl ⟨_, _, .operator kind found (Cursor.kinds_of_chainOp found) operandRead far,
            congrArg _ pushed⟩

/-- All steps together read links until there is none, and attach them one after the other. -/
theorem iterate_chainStep {c : Pending × Expr} (layered : t.Layered)
    (run : iterate (chainStep g) (t.spine []) s = .ok c s') :
    ∃ ts ks, ReadsLinks g s ts ks s' ∧
      c = (ks.foldl (fun (t : ChainTree) k => t.attach k) t).spine [] := by
  induction hn : s.rest.length using Nat.strongRecOn generalizing t s with
  | ind n ih =>
      cases first : chainStep g (t.spine []) s with
      | error e s₁ => exact nomatch (iterate_of_error first).symm.trans run
      | ok next s₁ =>
          rcases chainStep_eq_ok h layered first with ⟨ts, k, link, rfl⟩ | ⟨rfl, rfl, kind, none_⟩
          · have less := (forward_chainStep h _ s).length first trivial
            rw [iterate_of_yield first, if_pos less] at run
            have longer := ChainTree.layered_attach (k := k) layered
            obtain ⟨us, ks, links, rfl⟩ := ih _ (hn ▸ less) longer run rfl
            exact ⟨ts ++ us, k :: ks, .more link links, rfl⟩
          · rw [iterate_of_done first] at run
            cases run
            exact ⟨[], [], .ended kind none_, rfl⟩

/-- A chain becomes its tree. -/
theorem chain_eq_ok (run : chain g s = .ok e s') :
    ∃ ts first ks, ReadsChain g s ts first ks s' ∧ e = (ChainTree.ofChain first ks).expr := by
  obtain ⟨first, s₁, firstRead, run⟩ := bind_eq_ok.mp run
  obtain ⟨⟨pending, last⟩, s₂, linksRead, run⟩ := bind_eq_ok.mp run
  obtain ⟨r, s₃, joined, ⟨⟩⟩ := bind_eq_ok.mp run
  obtain ⟨ts, near⟩ := takes_of_forward (h.operand s) firstRead
  obtain ⟨us, ks, links, tree⟩ := iterate_chainStep (t := .operand first) h trivial linksRead
  have layered := (ChainTree.groups_ofChain first ks).layered
  have joined : fold g 0 ((ChainTree.ofChain first ks).spine []).1
      ((ChainTree.ofChain first ks).spine []).2 s₂ = .ok r s' := by
    rw [ChainTree.ofChain, ← tree]
    exact joined
  cases fold_spine_of_tight layered (fun _ _ => Nat.zero_le _) joined
  exact ⟨ts ++ us, first, ks, ⟨firstRead, near, links⟩, rfl⟩

end Steps

/--
A chain that can be read becomes an expression whose tree has the links of the chain as they were
read, groups them by precedence and to the left, and is the only tree of the chain that does so.
-/
theorem chain_grouped (limit levels : Nat) (run : chain (ofLevels limit levels) s = .ok e s') :
    ∃ ts first ks, ReadsChain (ofLevels limit levels) s ts first ks s' ∧ s.Takes ts s' ∧
      ∃ t : ChainTree, t.expr = e ∧ t.Groups first ks ∧ t.Derives 1 ∧
        ∀ u : ChainTree, u.Groups first ks → u = t := by
  obtain ⟨ts, first, ks, reads, rfl⟩ := chain_eq_ok (goesForward_ofLevels limit levels) run
  have groups := ChainTree.groups_ofChain first ks
  exact ⟨ts, first, ks, reads, reads.takes, _, rfl, groups, groups.derives, fun u => (·.eq_ofChain)⟩

theorem chain_grouped_across_test :
    let g := ofLimit nestingLimit
    let s := Cursor.ofTokens (Scan.ofText "a || b + c is all of d == e << f * g").tokens
    ∃ e s' a equal test f sum d, chain g s = .ok e s' ∧ s'.rest = [] ∧
      e.form = .logical .or a equal ∧ equal.form = .binary .equal test f ∧
      test.form = .is sum .all d ∧
      ∃ ts first ks, ReadsChain g s ts first ks s' ∧ s.Takes ts s' ∧
        ∃ t : ChainTree, t.expr = e ∧ t.Groups first ks ∧ t.Derives 1 ∧
          ∀ u : ChainTree, u.Groups first ks → u = t := by
  intro g s
  have shape : (match chain g s with
      | .ok ⟨.logical .or _ ⟨.binary .equal ⟨.is _ .all _, _, _⟩ _, _, _⟩, _, _⟩ s' =>
        s'.rest.isEmpty
      | _ => false) = true := by
    decide +kernel
  split at shape
  · next a sum d _ _ f _ _ _ _ s' run =>
      exact ⟨_, s', a, _, _, f, sum, d, run, List.isEmpty_iff.mp shape, rfl, rfl, rfl,
        chain_grouped nestingLimit (nestingLimit + 1) run⟩
  · cases shape

end Grammar
end ScriptFront
