import Mathlib.Data.List.Forall2
import TreeWat.Proofs.Check.Order
import TreeWat.Proofs.Check.Faultless
import TreeWat.Proofs.Tree.Roundtrip
set_option autoImplicit false

/-!
# Check: notes are written once, and nothing else is

Two of the three rounds leave notes on the tree, at more than a dozen places.  `Noted` says
what this may do to a tree: nodes without a note can get one, and everything else stays.  A
node that has a note already cannot get another; the checker ends there.  On a tree without
notes this never happens, since each round visits every node once and the rounds share none:
the first writes on the names of global declarations only, and the second only on their
parameters and bodies.

Main statement: `notes_written_once`, with the other side of it, that a tree which was
accepted cannot be checked again.
-/

namespace TreeWat

namespace Node

/-! ## Trees with more notes -/

/-- The second tree is the first with more notes. -/
inductive Noted : Node → Node → Prop where
  | intro {kind attr loc note note' children children'} (kept : note = none ∨ note' = note)
      (below : List.Forall₂ Noted children children') :
      Noted ⟨kind, attr, loc, note, children⟩ ⟨kind, attr, loc, note', children'⟩

theorem Noted.refl (n : Node) : n.Noted n := by
  induction n using Node.induction with
  | step n ih =>
    rcases n with ⟨kind, attr, loc, note, children⟩
    exact .intro (.inr rfl) (List.forall₂_same.mpr fun c hc => ih c (mem_descendants_of_child hc))

theorem Noted.all_refl (ns : List Node) : List.Forall₂ Noted ns ns :=
  List.forall₂_same.mpr fun n _ => .refl n

theorem Noted.all_trans {ns ns' ns'' : List Node}
    (each : ∀ n ∈ ns, ∀ n' n'' : Node, n.Noted n' → n'.Noted n'' → n.Noted n'')
    (h : List.Forall₂ Noted ns ns') (h' : List.Forall₂ Noted ns' ns'') :
    List.Forall₂ Noted ns ns'' := by
  induction h generalizing ns'' with
  | nil => exact h'
  | cons first _ ih =>
    cases h' with
    | cons first' others' =>
      exact .cons (each _ List.mem_cons_self _ _ first first')
        (ih (fun n hn => each n (List.mem_cons_of_mem _ hn)) others')

theorem Noted.trans {n n' n'' : Node} (h : n.Noted n') (h' : n'.Noted n'') : n.Noted n'' := by
  induction n using Node.induction generalizing n' n'' with
  | step n ih =>
    cases h with
    | intro kept below =>
      cases h' with
      | intro kept' below' =>
        refine .intro ?_ (Noted.all_trans (fun c hc n' n'' => ?_) below below')
        · rcases kept with kept | rfl
          · exact .inl kept
          · exact kept'
        · exact ih c (mem_descendants_of_child hc)

/-- A note is written where there is none. -/
theorem Noted.of_annotate {n n' : Node} {sig : Bytes} {scope : Option ScopeId}
    (h : n.annotate sig scope = .ok n') : n.Noted n' := by
  obtain ⟨plain, rfl⟩ := annotate_ok_iff.mp h
  rcases n with ⟨kind, attr, loc, note, children⟩
  exact .intro (.inl plain) (Noted.all_refl _)

theorem Noted.kind_eq {n n' : Node} (h : n.Noted n') : n'.kind = n.kind := by
  cases h
  rfl

theorem Noted.attr_eq {n n' : Node} (h : n.Noted n') : n'.attr = n.attr := by
  cases h
  rfl

/-- A note stays. -/
theorem Noted.note_eq {n n' : Node} {a : Annotation} (h : n.Noted n') (hnote : n.note = some a) :
    n'.note = some a := by
  cases h with
  | intro kept _ =>
    rcases kept with rfl | rfl
    · cases hnote
    · exact hnote

theorem Noted.all_children {n n' : Node} (h : n.Noted n') :
    List.Forall₂ Noted n.children n'.children := by
  cases h with
  | intro _ below => exact below

theorem Noted.with_children {n : Node} {children' : List Node}
    (below : List.Forall₂ Noted n.children children') :
    n.Noted { n with children := children' } := by
  rcases n with ⟨kind, attr, loc, note, children⟩
  exact .intro (.inr rfl) below

theorem Noted.all_set {ns : List Node} {i : Nat} {m m' : Node} (h : ns[i]? = some m)
    (hm : m.Noted m') : List.Forall₂ Noted ns (ns.set i m') := by
  induction ns generalizing i with
  | nil => exact .nil
  | cons n rest ih =>
    cases i with
    | zero =>
      obtain rfl : n = m := Option.some.inj h
      exact .cons hm (Noted.all_refl rest)
    | succ i => exact .cons (.refl n) (ih h)

theorem Noted.two {n n' a b : Node} (h : n.Noted n') (parts : n.children = [a, b]) :
    ∃ a' b', n'.children = [a', b'] ∧ a.Noted a' ∧ b.Noted b' := by
  have hall := h.all_children
  rw [parts] at hall
  generalize n'.children = children' at hall ⊢
  obtain _ | ⟨ha, _ | ⟨hb, _ | _⟩⟩ := hall
  exact ⟨_, _, rfl, ha, hb⟩

theorem Noted.four {n n' a b c d : Node} (h : n.Noted n') (parts : n.children = [a, b, c, d]) :
    ∃ a' b' c' d', n'.children = [a', b', c', d'] ∧ a.Noted a' ∧ b.Noted b' ∧ c.Noted c' ∧
      d.Noted d' := by
  have hall := h.all_children
  rw [parts] at hall
  generalize n'.children = children' at hall ⊢
  obtain _ | ⟨ha, _ | ⟨hb, _ | ⟨hc, _ | ⟨hd, _ | _⟩⟩⟩⟩ := hall
  exact ⟨_, _, _, _, rfl, ha, hb, hc, hd⟩

/-- The text of a tree does not show its notes. -/
theorem Noted.format_eq {n n' : Node} (h : n.Noted n') : n'.format = n.format := by
  induction n using Node.induction generalizing n' with
  | step n ih =>
    cases h with
    | @intro kind attr loc note note' children children' kept below =>
      have hall : ∀ {ns ns' : List Node}, List.Forall₂ Noted ns ns' → (∀ n ∈ ns, n ∈ children) →
          formatAll ns' = formatAll ns := by
        intro ns ns' h among
        induction h with
        | nil => rfl
        | cons first _ ih' =>
          rw [formatAll, formatAll, ih' fun n hn => among n (List.mem_cons_of_mem _ hn),
            ih _ (mem_descendants_of_child (among _ List.mem_cons_self)) first]
      have hempty : children'.isEmpty = children.isEmpty := by
        cases below <;> rfl
      cases hkind : kind.hasAttr with
      | true =>
        rcases Kind.hasAttr_iff.mp hkind with rfl | rfl | rfl <;> rw [format, format]
      | false =>
        rw [format_plain hkind, format_plain hkind, hempty, hall below fun _ hn => hn]

/-- A node of the second tree is one of the first with more notes. -/
theorem Noted.exists_mem_preorder {n n' m' : Node} (h : n.Noted n') (hm : m' ∈ n'.preorder) :
    ∃ m ∈ n.preorder, m.Noted m' := by
  induction n using Node.induction generalizing n' with
  | step n ih =>
    rcases mem_preorder.mp hm with rfl | hm
    · exact ⟨n, n.mem_preorder_self, h⟩
    · obtain ⟨c', hc', hm⟩ := mem_preorderAll.mp hm
      obtain ⟨i, hi⟩ := List.mem_iff_getElem?.mp hc'
      have hall := h.all_children
      have hlen : i < n.children.length := by
        rw [hall.length_eq]
        exact (List.getElem?_eq_some_iff.mp hi).1
      have hc : n.children[i] ∈ n.children := List.getElem_mem hlen
      have hnoted : n.children[i].Noted c' := by
        obtain ⟨hlen', rfl⟩ := List.getElem?_eq_some_iff.mp hi
        exact hall.get hlen hlen'
      obtain ⟨m, hmem, hsame⟩ := ih _ (mem_descendants_of_child hc) hnoted hm
      exact ⟨m, mem_preorder_of_child hc hmem, hsame⟩

end Node

/-! ## Second notes -/

/-- A node was to get a second note. -/
def Failure.IsSecondNote : Failure → Prop
  | .shape e => ∃ sig, e.cause = .annotatedTwice sig
  | _ => False

@[simp] theorem isSecondNote_user (d : Diagnostic) : ¬(Failure.user d).IsSecondNote :=
  id

@[simp] theorem isSecondNote_malformed {n : Node} {cause : ShapeCause} :
    (Failure.shape (n.malformed cause)).IsSecondNote ↔ ∃ sig, cause = .annotatedTwice sig :=
  Iff.rfl

namespace Check

/-- The step does not come to a node that has a note already. -/
def Once {α : Type} (o : Outcome α) : Prop :=
  ∀ f, o = .error f → ¬f.IsSecondNote

variable {α β : Type}

@[simp] theorem once_ok (a : α) : Once (.ok a : Outcome α) := by
  intro f h
  cases h

@[simp] theorem once_error {f : Failure} : Once (.error f : Outcome α) ↔ ¬f.IsSecondNote := by
  simp [Once]

@[simp] theorem isSecondNote_mismatch (n : Node) (want : Bytes) :
    ¬(mismatch n want).IsSecondNote :=
  id

theorem Asks.once {x : Except ShapeError α} {e : ShapeError} (h : Asks x) (heq : x = .error e) :
    Once (.error (.shape e) : Outcome β) := by
  refine once_error.mpr ?_
  rintro ⟨sig, hsig⟩
  have := h e heq
  rw [hsig] at this
  exact this

/-- A node without a note can get one. -/
theorem annotate_ne_error {n : Node} {sig : Bytes} {scope : Option ScopeId} {e : ShapeError}
    (plain : n.note = none) : n.annotate sig scope ≠ .error e := by
  intro heq
  obtain ⟨a, hnote, -⟩ := Node.annotate_error_iff.mp heq
  rw [plain] at hnote
  cases hnote

theorem Once.pass {f : Failure} (h : Once (.error f : Outcome α)) :
    Once (.error f : Outcome β) :=
  once_error.mpr (once_error.mp h)

/-- A step with the outcome `o` turns the tree `n` into `n'`: it only writes notes, and if
there are none on the tree, it does not come to a node that has one. -/
structure Writes (o : Outcome α) (n n' : Node) : Prop where
  noted : n.Noted n'
  once : n.Unannotated → Once o

/-- As `Writes`, for a list of trees. -/
structure WritesAll (o : Outcome α) (ns ns' : List Node) : Prop where
  noted : List.Forall₂ Node.Noted ns ns'
  once : (∀ n ∈ ns, n.Unannotated) → Once o

theorem writes_nothing {o : Outcome α} {n : Node} (h : Once o) : Writes o n n :=
  ⟨.refl n, fun _ => h⟩

theorem Writes.of_eq {p : Outcome α × Node} {o : Outcome α} {n n' : Node} (h : Writes p.1 n p.2)
    (heq : p = (o, n')) : Writes o n n' := by
  subst heq
  exact h

theorem Writes.of_run {p : Outcome α × Node × Context} {o : Outcome α} {n n' : Node}
    {c : Context} (h : Writes p.1 n p.2.1) (heq : p = (o, n', c)) : Writes o n n' := by
  subst heq
  exact h

theorem WritesAll.of_run {p : Outcome α × List Node × Context} {o : Outcome α}
    {ns ns' : List Node} {c : Context} (h : WritesAll p.1 ns p.2.1) (heq : p = (o, ns', c)) :
    WritesAll o ns ns' := by
  subst heq
  exact h

/-- A failure passed on is the same failure. -/
theorem Writes.pass {f : Failure} {n n' : Node} (h : Writes (.error f : Outcome α) n n') :
    Writes (.error f : Outcome β) n n' :=
  ⟨h.noted, fun plain => (h.once plain).pass⟩

/-- A step writes on the children of a node only. -/
theorem WritesAll.below {o : Outcome α} {n : Node} {children' : List Node}
    (h : WritesAll o n.children children') : Writes o n { n with children := children' } :=
  ⟨.with_children h.noted, fun plain => h.once fun _ hc => plain.child hc⟩

/-- A step that failed, or the last step. -/
theorem Writes.stop {o : Outcome α} {n n' : Node} (h : Writes o n n') (rest : List Node) :
    WritesAll o (n :: rest) (n' :: rest) :=
  ⟨.cons h.noted (Node.Noted.all_refl rest), fun plain => h.once (plain n List.mem_cons_self)⟩

/-- The steps behind one that succeeded. -/
theorem WritesAll.behind {o : Outcome α} {n n' : Node} {ns ns' : List Node}
    (hs : WritesAll o ns ns') (h : n.Noted n') : WritesAll o (n :: ns) (n' :: ns') :=
  ⟨.cons h hs.noted, fun plain => hs.once fun m hm => plain m (List.mem_cons_of_mem _ hm)⟩

/-! ## Expressions -/

theorem noted_conclude (n : Node) (ty : Ty) (scope : Option ScopeId) :
    n.Noted (conclude n ty scope).2 := by
  unfold conclude
  split
  · exact .refl n
  · exact .of_annotate ‹_›

theorem once_conclude {n : Node} (plain : n.note = none) (ty : Ty) (scope : Option ScopeId) :
    Once (conclude n ty scope).1 := by
  unfold conclude
  split
  · exact absurd ‹_› (annotate_ne_error plain)
  · exact once_ok _

/-- The note of an expression comes behind those of its operands. -/
theorem writes_conclude {n : Node} {children' : List Node}
    (below : List.Forall₂ Node.Noted n.children children') (ty : Ty) (scope : Option ScopeId) :
    Writes (conclude { n with children := children' } ty scope).1 n
      (conclude { n with children := children' } ty scope).2 :=
  ⟨(Node.Noted.with_children below).trans (noted_conclude _ ty scope),
    fun plain => once_conclude (n := { n with children := children' }) plain.note ty scope⟩

theorem writes_concludeCall {c : Context} {n callee list list' : Node}
    (parts : n.children = [callee, list]) (below : list.Noted list') (args : List Node)
    (tys : List Ty) :
    Writes (concludeCall c n callee list' args tys).1 n
      (concludeCall c n callee list' args tys).2 := by
  have arguments : List.Forall₂ Node.Noted n.children [callee, list'] := by
    rw [parts]
    exact .cons (.refl callee) (.cons below .nil)
  have stopped {o : Outcome Ty} (h : Once o) :
      Writes o n { n with children := [callee, list'] } :=
    ⟨.with_children arguments, fun _ => h⟩
  unfold concludeCall
  split
  · exact stopped (by simp)
  · split
    · exact stopped (by simp)
    · split
      · exact stopped (by simp)
      · split
        · rename_i hcallee
          refine ⟨.with_children arguments, fun plain => ?_⟩
          have hplain : callee.note = none := (plain.child (by simp [parts])).note
          exact absurd hcallee (annotate_ne_error hplain)
        · rename_i hcallee
          refine writes_conclude ?_ _ _
          rw [parts]
          exact .cons (.of_annotate hcallee) (.cons below .nil)

theorem writes_checkExpressions {c : Context} {es : List Node}
    (each : ∀ e ∈ es, Writes (checkExpression c e).1 e (checkExpression c e).2) :
    WritesAll (checkExpressions c es).1 es (checkExpressions c es).2 := by
  induction es with
  | nil =>
    rw [checkExpressions]
    exact ⟨.nil, fun _ => once_ok _⟩
  | cons e rest ih =>
    have first := each e List.mem_cons_self
    have others := ih fun m hm => each m (List.mem_cons_of_mem _ hm)
    rw [checkExpressions]
    split
    · exact (first.of_eq ‹_›).pass.stop rest
    · rename_i he
      have hfirst := (first.of_eq he).noted
      split
      · rename_i hrest
        rw [hrest] at others
        exact others.behind hfirst
      · rename_i hrest
        rw [hrest] at others
        exact ⟨.cons hfirst others.noted, fun _ => once_ok _⟩

/-- The check of an expression only writes notes, and none twice. -/
theorem writes_checkExpression (c : Context) (n : Node) :
    Writes (checkExpression c n).1 n (checkExpression c n).2 := by
  induction n using Node.induction with
  | step n ih =>
    rcases n with ⟨kind, attr, loc, note, children⟩
    have leaf (ty : Ty) (scope : Option ScopeId) :=
      writes_conclude (n := ⟨kind, attr, loc, note, children⟩) (Node.Noted.all_refl children)
        ty scope
    rw [checkExpression.eq_def]
    dsimp only
    split
    · split
      · exact writes_nothing (by simp)
      · exact leaf _ _
    · exact leaf _ _
    · exact leaf _ _
    · exact leaf _ _
    · exact leaf _ _
    · split
      · rename_i callee listKind listAttr listLoc listNote args
        have hargs : WritesAll (checkExpressions c args).1 args (checkExpressions c args).2 :=
          writes_checkExpressions fun a ha => ih a (Node.mem_descendants_of_argument ha)
        have hlist := hargs.below (n := ⟨listKind, listAttr, listLoc, listNote, args⟩)
        split
        · exact writes_nothing (by simp)
        · split
          · exact writes_nothing (by simp)
          · split
            · rename_i hfailed
              rw [hfailed] at hlist
              exact ((hlist.pass.stop []).behind (.refl callee)).below
            · rename_i hchecked
              rw [hchecked] at hlist
              exact writes_concludeCall rfl hlist.noted _ _
      · exact writes_nothing (by simp)
    · rename_i op
      split
      · rename_i l r
        have hl := ih l (Node.mem_descendants_of_child (by simp))
        have hr := ih r (Node.mem_descendants_of_child (by simp))
        split
        · exact writes_nothing (by simp)
        · split
          · exact ((hl.of_eq ‹_›).stop [r]).below
          · rename_i hleft
            have hl' := (hl.of_eq hleft).noted
            split
            · exact (((hr.of_eq ‹_›).stop []).behind hl').below
            · rename_i hright
              have operands := List.Forall₂.cons hl' (.cons (hr.of_eq hright).noted .nil)
              split
              · exact ⟨.with_children operands, fun _ => by simp⟩
              · exact ⟨.with_children operands, fun _ => by simp⟩
              · exact writes_conclude (n := ⟨.binary op, attr, loc, note, [l, r]⟩) operands _ _
      · exact writes_nothing (by simp)
    · rename_i op
      split
      · rename_i e
        have he := ih e (Node.mem_descendants_of_child (by simp))
        split
        · exact ((he.of_eq ‹_›).stop []).below
        · rename_i hoperand
          have operand := List.Forall₂.cons (he.of_eq hoperand).noted .nil
          split
          · exact ⟨.with_children operand, fun _ => by simp⟩
          · exact writes_conclude (n := ⟨.unary op, attr, loc, note, [e]⟩) operand _ _
      · exact writes_nothing (by simp)
    · exact writes_nothing (by simp)

/-! ## Statements -/

theorem writes_checkCondition (c : Context) (cond : Node) :
    Writes (checkCondition c cond).1 cond (checkCondition c cond).2 := by
  have h := writes_checkExpression c cond
  unfold checkCondition
  split
  · exact (h.of_eq ‹_›).pass
  · rename_i hchecked
    have hnoted := (h.of_eq hchecked).noted
    split
    · exact ⟨hnoted, fun _ => by simp⟩
    · exact ⟨hnoted, fun _ => by simp⟩

theorem writes_checkReturn (c : Context) (n : Node) :
    Writes (checkReturn c n).1 n (checkReturn c n).2 := by
  rcases n with ⟨kind, attr, loc, note, children⟩
  unfold checkReturn
  split
  · exact writes_nothing (by simp)
  · dsimp only
    split
    · split <;> exact writes_nothing (by simp)
    · split
      · exact writes_nothing (by simp)
      · rename_i value
        have h := writes_checkExpression c value
        split
        · exact ((h.of_eq ‹_›).pass.stop []).below
        · rename_i hchecked
          have operand := List.Forall₂.cons (h.of_eq hchecked).noted .nil
          split
          · exact ⟨.with_children operand, fun _ => by simp⟩
          · exact ⟨.with_children operand, fun _ => by simp⟩
      · exact writes_nothing (by simp)

theorem writes_checkBreak (c : Context) (n : Node) :
    Writes (checkBreak c n).1 n (checkBreak c n).2 := by
  unfold checkBreak
  split
  · exact writes_nothing (by simp)
  · split
    · exact writes_nothing (by simp)
    · split
      · rename_i hnote
        exact ⟨.refl n, fun plain => absurd hnote (annotate_ne_error plain.note)⟩
      · rename_i hnote
        exact ⟨.of_annotate hnote, fun _ => by simp⟩

/-- A declaration notes its second child, the name. -/
theorem writes_name {n id id' : Node} {o : Outcome α} (isName : n.children[1]? = some id)
    (h : Writes o id id') : Writes o n { n with children := n.children.set 1 id' } :=
  ⟨.with_children (Node.Noted.all_set isName h.noted),
    fun plain => h.once (plain.child (List.mem_of_getElem? isName))⟩

theorem name_of_typedName {n id : Node} {ty : Ty} (h : typedName n = .ok (ty, id)) :
    n.children[1]? = some id := by
  obtain ⟨t, hchildren, -⟩ := typedName_ok_iff.mp h
  rw [hchildren]
  rfl

theorem writes_checkVariable (c : Context) (n : Node) :
    Writes (checkVariable c n).1 n (checkVariable c n).2.1 := by
  unfold checkVariable
  split
  · exact writes_nothing ((asks_typedName n).once ‹_›)
  · rename_i ty id hname
    have isName := name_of_typedName hname
    split
    · exact writes_nothing (by simp [Failure.IsSecondNote])
    · split
      · exact writes_nothing (by simp)
      · split
        · exact writes_nothing (by simp)
        · split
          · rename_i hnote
            refine ⟨.refl n, fun plain => ?_⟩
            have hplain := (plain.child (List.mem_of_getElem? isName)).note
            exact absurd hnote (annotate_ne_error hplain)
          · rename_i hnote
            exact writes_name isName ⟨.of_annotate hnote, fun _ => by simp⟩

theorem writes_checkStatements {ss : List Node}
    (each : ∀ n ∈ ss, ∀ own c, Writes (checkStatementIn own c n).1 n (checkStatementIn own c n).2.1)
    (c : Context) : WritesAll (checkStatements c ss).1 ss (checkStatements c ss).2.1 := by
  induction ss generalizing c with
  | nil =>
    rw [checkStatements]
    exact ⟨.nil, fun _ => once_ok _⟩
  | cons n rest ih =>
    have first := each n List.mem_cons_self none c
    rw [checkStatements]
    split
    · exact (first.of_run ‹_›).stop rest
    · rename_i c₁ hn
      have others := ih (fun m hm => each m (List.mem_cons_of_mem _ hm)) c₁
      exact others.behind (first.of_run hn).noted

theorem writes_checkStatementIn (n : Node) : ∀ own c,
    Writes (checkStatementIn own c n).1 n (checkStatementIn own c n).2.1 := by
  induction n using Node.induction with
  | step n ih =>
    intro own c
    rcases n with ⟨kind, attr, loc, note, children⟩
    have child : ∀ {m : Node}, m ∈ children →
        m ∈ (⟨kind, attr, loc, note, children⟩ : Node).descendants :=
      fun hm => Node.mem_descendants_of_child hm
    rw [checkStatementIn.eq_def]
    dsimp only
    split
    · split
      · rename_i hnote
        exact ⟨.refl _, fun plain => absurd hnote (annotate_ne_error plain.note)⟩
      · rename_i hnote
        obtain ⟨-, rfl⟩ := Node.annotate_ok_iff.mp hnote
        have below := writes_checkStatements (fun m hm => ih m (child hm))
        refine ⟨(Node.Noted.of_annotate hnote).trans (.with_children (below _).noted),
          fun plain => ?_⟩
        exact (below _).once fun m hm => plain.child hm
    · exact writes_checkVariable c _
    · split
      · rename_i e
        have he := writes_checkExpression c e
        split
        · exact ((he.of_eq ‹_›).pass.stop []).below
        · rename_i hchecked
          exact ⟨.with_children (.cons (he.of_eq hchecked).noted .nil), fun _ => by simp⟩
      · exact writes_nothing (by simp)
    · have hcall := writes_checkExpression c ⟨.functionInvocation, attr, loc, note, children⟩
      split
      · exact (hcall.of_eq ‹_›).pass
      · rename_i hchecked
        exact ⟨(hcall.of_eq hchecked).noted, fun _ => by simp⟩
    · exact writes_nothing (by simp)
    · split
      · rename_i cond arm
        have hcond := writes_checkCondition c cond
        split
        · exact ((hcond.of_eq ‹_›).stop [arm]).below
        · rename_i hchecked
          exact (((ih arm (child (by simp)) _ _).stop []).behind (hcond.of_eq hchecked).noted).below
      · exact writes_nothing (by simp)
    · split
      · rename_i cond arm₁ arm₂
        have hcond := writes_checkCondition c cond
        split
        · exact ((hcond.of_eq ‹_›).stop [arm₁, arm₂]).below
        · rename_i hchecked
          have hcond' := (hcond.of_eq hchecked).noted
          have first := ih arm₁ (child (by simp))
          split
          · exact ((((first _ _).of_run ‹_›).stop [arm₂]).behind hcond').below
          · rename_i hpassed
            have hfirst := ((first _ _).of_run hpassed).noted
            have second := ih arm₂ (child (by simp))
            exact ((((second _ _).stop []).behind hfirst).behind hcond').below
      · exact writes_nothing (by simp)
    · split
      · rename_i cond body
        have hcond := writes_checkCondition c cond
        split
        · exact ((hcond.of_eq ‹_›).stop [body]).below
        · rename_i hchecked
          exact (((ih body (child (by simp)) _ _).stop []).behind (hcond.of_eq hchecked).noted).below
      · exact writes_nothing (by simp)
    · exact writes_checkReturn c _
    · exact writes_checkBreak c _
    · exact writes_nothing (by simp)

/-! ## Functions -/

theorem writes_checkParameter (fn : ScopeId) (c : Context) (p : Node) :
    Writes (checkParameter fn c p).1 p (checkParameter fn c p).2.1 := by
  unfold checkParameter
  split
  · exact writes_nothing ((asks_expect p _).once ‹_›)
  · split
    · exact writes_nothing ((asks_typedName p).once ‹_›)
    · rename_i ty id hname
      have isName := name_of_typedName hname
      split
      · exact writes_nothing (by simp)
      · split
        · rename_i hnote
          refine ⟨.refl p, fun plain => ?_⟩
          have hplain := (plain.child (List.mem_of_getElem? isName)).note
          exact absurd hnote (annotate_ne_error hplain)
        · rename_i hnote
          exact writes_name isName ⟨.of_annotate hnote, fun _ => by simp⟩

theorem writes_checkParameters (fn : ScopeId) (c : Context) (ps : List Node) :
    WritesAll (checkParameters fn c ps).1 ps (checkParameters fn c ps).2.1 := by
  induction ps generalizing c with
  | nil =>
    rw [checkParameters]
    exact ⟨.nil, fun _ => once_ok _⟩
  | cons p rest ih =>
    have first := writes_checkParameter fn c p
    rw [checkParameters]
    split
    · exact (first.of_run ‹_›).stop rest
    · rename_i c₁ hp
      exact (ih c₁).behind (first.of_run hp).noted

theorem writes_checkFunctionBody (fn : ScopeId) (c : Context) (body : Node) :
    Writes (checkFunctionBody fn c body).1 body (checkFunctionBody fn c body).2.1 := by
  unfold checkFunctionBody
  split
  · rename_i hnote
    exact ⟨.refl _, fun plain => absurd hnote (annotate_ne_error plain.note)⟩
  · rename_i hnote
    obtain ⟨-, rfl⟩ := Node.annotate_ok_iff.mp hnote
    have below : WritesAll _ body.children _ :=
      writes_checkStatements (fun m _ => writes_checkStatementIn m) c
    exact ⟨(Node.Noted.of_annotate hnote).trans (.with_children below.noted), fun plain =>
      below.once fun m hm => plain.child hm⟩

/-- The second round looks for notes on the parameters and in the body only. -/
theorem writes_checkFunction (c : Context) (fn : Node) :
    fn.Noted (checkFunction c fn).2.1 ∧
      ((∀ part ∈ fn.children.drop 2, part.Unannotated) → Once (checkFunction c fn).1) := by
  rcases fn with ⟨kind, attr, loc, note, children⟩
  unfold checkFunction
  dsimp only
  split
  · rename_i resultNode name params body
    have parts {o : Outcome Unit} {params' body' : Node}
        (h : WritesAll o [params, body] [params', body']) :
        Node.Noted ⟨kind, attr, loc, note, [resultNode, name, params, body]⟩
            ⟨kind, attr, loc, note, [resultNode, name, params', body']⟩ ∧
          ((∀ part ∈ [params, body], part.Unannotated) → Once o) :=
      ⟨.with_children (.cons (.refl _) (.cons (.refl _) h.noted)), h.once⟩
    have same {o : Outcome Unit} (h : Once o) := parts ((writes_nothing (n := params) h).stop [body])
    split
    · exact same (by simp)
    · split
      · exact same ((asks_typeOf resultNode).once ‹_›)
      · split
        · exact same (by simp)
        · split
          · have hlist := (writes_checkParameters _ _ params.children).of_run ‹_›
            exact parts (hlist.below.stop [body])
          · rename_i c₁ hparams
            have hlist := (writes_checkParameters _ _ params.children).of_run hparams
            exact parts (((writes_checkFunctionBody _ c₁ body).stop []).behind hlist.below.noted)
  · exact ⟨.refl _, fun _ => by simp⟩

theorem writes_checkBodiesOf (c : Context) (ds : List Node) :
    List.Forall₂ Node.Noted ds (checkBodiesOf c ds).2.1 ∧
      ((∀ d ∈ ds, ∀ part ∈ d.children.drop 2, part.Unannotated) → Once (checkBodiesOf c ds).1) := by
  induction ds generalizing c with
  | nil =>
    rw [checkBodiesOf]
    exact ⟨.nil, fun _ => once_ok _⟩
  | cons d rest ih =>
    rw [checkBodiesOf]
    split
    · obtain ⟨hnoted, honce⟩ := writes_checkFunction c d
      split
      · rename_i hd
        rw [hd] at hnoted honce
        exact ⟨.cons hnoted (Node.Noted.all_refl rest),
          fun plain => honce (plain d List.mem_cons_self)⟩
      · rename_i c₁ hd
        rw [hd] at hnoted
        exact ⟨.cons hnoted (ih c₁).1,
          fun plain => (ih c₁).2 fun m hm => plain m (List.mem_cons_of_mem _ hm)⟩
    · exact ⟨.cons (.refl d) (ih c).1,
        fun plain => (ih c).2 fun m hm => plain m (List.mem_cons_of_mem _ hm)⟩

/-! ## Global declarations -/

theorem writes_noteName {decl id : Node} (isName : decl.children[1]? = some id) (c : Context)
    (sig : Bytes) :
    Writes (noteName c decl id sig).1 decl (noteName c decl id sig).2.1 := by
  unfold noteName
  split
  · rename_i hnote
    refine ⟨.refl decl, fun plain => ?_⟩
    have hplain := (plain.child (List.mem_of_getElem? isName)).note
    exact absurd hnote (annotate_ne_error hplain)
  · rename_i hnote
    exact writes_name isName ⟨.of_annotate hnote, fun _ => by simp⟩

theorem once_declareFunc (c : Context) (id : ScopeId) (name : Bytes) (sig : Signature)
    (loc : Location) : Once (c.declareFunc id name sig loc) := by
  unfold Context.declareFunc
  split
  · split <;> simp
  · simp [Failure.IsSecondNote]

theorem writes_collectDeclaration (c : Context) (d : Node) :
    Writes (collectDeclaration c d).1 d (collectDeclaration c d).2.1 := by
  unfold collectDeclaration
  split
  · split
    · exact writes_nothing ((asks_entryPointHead d).once ‹_›)
    · rename_i id hhead
      obtain ⟨_, _, _, hchildren, -⟩ := entryPointHead_ok_iff.mp hhead
      split
      · exact writes_nothing (by simp)
      · exact writes_noteName (by rw [hchildren]; rfl) _ _
  · split
    · exact writes_nothing ((asks_functionHead d).once ‹_›)
    · rename_i id sig hhead
      obtain ⟨_, _, _, hchildren, -⟩ := functionHead_ok_iff.mp hhead
      split
      · rename_i hdeclare
        have honce := once_declareFunc c .globals id.attr sig id.loc
        rw [hdeclare] at honce
        exact writes_nothing honce.pass
      · exact writes_noteName (by rw [hchildren]; rfl) _ _
  · split
    · exact writes_nothing ((asks_typedName d).once ‹_›)
    · rename_i ty id hname
      split
      · exact writes_nothing (by simp)
      · exact writes_noteName (name_of_typedName hname) _ _
  · exact writes_nothing (by simp)

theorem writes_collectDeclarations (c : Context) (ds : List Node) :
    WritesAll (collectDeclarations c ds).1 ds (collectDeclarations c ds).2.1 := by
  induction ds generalizing c with
  | nil =>
    rw [collectDeclarations]
    exact ⟨.nil, fun _ => once_ok _⟩
  | cons d rest ih =>
    have first := writes_collectDeclaration c d
    rw [collectDeclarations]
    split
    · exact (first.of_run ‹_›).stop rest
    · rename_i c₁ hd
      exact (ih c₁).behind (first.of_run hd).noted

theorem writes_collectGlobals (c : Context) (root : Node) :
    Writes (collectGlobals c root).1 root (collectGlobals c root).2.1 := by
  have below := writes_collectDeclarations c root.children
  unfold collectGlobals
  split
  · exact writes_nothing ((asks_expect root _).once ‹_›)
  · split
    · exact (below.of_run ‹_›).below
    · rename_i hdecls
      have hnoted := Node.Noted.with_children (below.of_run hdecls).noted
      split
      · exact ⟨hnoted, fun _ => by simp⟩
      · exact ⟨hnoted, fun _ => by simp⟩

/-- The first round leaves parameters and bodies as they are. -/
theorem DeclCollected.drop_children {c c' : Context} {d d' : Node} (h : DeclCollected c d d' c') :
    d'.children.drop 2 = d.children.drop 2 := by
  cases h <;> rfl

theorem drop_of_collectDeclarations {c c' : Context} {ds ds' : List Node}
    (collected : collectDeclarations c ds = (.ok (), ds', c')) :
    ∀ d' ∈ ds', ∃ d ∈ ds, d'.children.drop 2 = d.children.drop 2 := by
  induction ds generalizing c ds' with
  | nil =>
    obtain ⟨rfl, -⟩ := collectDeclarations_nil.mp collected
    simp
  | cons d rest ih =>
    obtain ⟨d₁, c₁, rest', hd, hrest, rfl⟩ := collectDeclarations_cons.mp collected
    intro d' hd'
    rcases List.mem_cons.mp hd' with rfl | hd'
    · exact ⟨d, List.mem_cons_self, (DeclCollected.of_collectDeclaration hd).drop_children⟩
    · obtain ⟨m, hm, heq⟩ := ih hrest d' hd'
      exact ⟨m, List.mem_cons_of_mem _ hm, heq⟩

/-! ## Programs -/

theorem once_bind {o : Outcome α} {g : α → Outcome β} (h : Once o) (hg : ∀ a, Once (g a)) :
    Once (o >>= g) := by
  cases o with
  | error f => exact h.pass
  | ok a => exact hg a

theorem once_of_asks {x : Except ShapeError α} (h : Asks x) : Once (Outcome.ofShape x) := by
  cases x with
  | error e => exact h.once rfl
  | ok a => exact once_ok a

theorem once_checkReturns (scopes : Scopes) (d : Node) : Once (checkReturns scopes d) := by
  unfold checkReturns
  split
  · refine once_bind (once_of_asks ((asks_child d 0).bind asks_typeOf)) fun result => ?_
    split
    · simp
    · refine once_bind (once_of_asks ((asks_child d 3).bind (asks_exitOf scopes))) fun exit => ?_
      split
      · simp
      · exact once_bind (once_of_asks (asks_child d 1)) fun id => by simp
  · simp

theorem once_checkAllReturns (scopes : Scopes) (ds : List Node) :
    Once (ds.forM (checkReturns scopes)) := by
  induction ds with
  | nil => exact once_ok ()
  | cons d rest ih => exact once_bind (once_checkReturns scopes d) fun _ => ih

/-- A run of the checker only writes notes, and none twice. -/
theorem writes_checkProgramIn (c : Context) (root : Node) :
    Writes (checkProgramIn c root).1 root (checkProgramIn c root).2.1 := by
  have first := writes_collectGlobals c root
  unfold checkProgramIn
  split
  · exact first.of_run ‹_›
  · rename_i root' c₁ hcollect
    have hnoted := (first.of_run hcollect).noted
    obtain ⟨decls, -, hdecls, -, rfl⟩ := collectGlobals_ok hcollect
    obtain ⟨hbodies, honce⟩ := writes_checkBodiesOf c₁ decls
    have parts : root.Unannotated →
        ∀ d ∈ decls, ∀ part ∈ d.children.drop 2, part.Unannotated := by
      intro plain d hd part hpart
      obtain ⟨d₀, hd₀, hsame⟩ := drop_of_collectDeclarations hdecls d hd
      rw [hsame] at hpart
      exact (plain.child hd₀).child (List.mem_of_mem_drop hpart)
    have both := hnoted.trans (.with_children hbodies)
    rcases hrun : checkBodiesOf c₁ decls with ⟨o, decls', c₂⟩
    rw [hrun] at both honce
    simp only [checkBodies, hrun]
    cases o with
    | error f => exact ⟨both, fun plain => honce (parts plain)⟩
    | ok u => exact ⟨both, fun _ => once_checkAllReturns _ _⟩

/-! ## A second run -/

theorem parameterTypes_noted {ps ps' : List Node} {tys : List Ty}
    (more : List.Forall₂ Node.Noted ps ps') (typed : parameterTypes ps = .ok tys) :
    parameterTypes ps' = .ok tys := by
  induction more generalizing tys with
  | nil => exact typed
  | cons first _ ih =>
    obtain ⟨t, id, ty, tys', hkind, hchildren, hty, hrest, rfl⟩ := parameterTypes_cons.mp typed
    obtain ⟨t', id', hchildren', ht, -⟩ := first.two hchildren
    rw [← ht.kind_eq] at hty
    exact parameterTypes_cons.mpr
      ⟨t', id', ty, tys', first.kind_eq.trans hkind, hchildren', hty, ih hrest, rfl⟩

/-- A declaration that was registered, and may have got more notes since, cannot be registered
again: its name has a note. -/
theorem DeclCollected.again {c c' : Context} {d d' d'' : Node} (h : DeclCollected c d d' c')
    (isGlobal : c.scopes.globals.variant = .global) (more : d'.Noted d'') :
    ∃ id a, d''.children[1]? = some id ∧ id.note = some a ∧
      (collectDeclaration c d'').1 = .error (.shape (id.malformed (.annotatedTwice a.sig))) := by
  have noteAgain {c₁ : Context} {decl id : Node} {a : Annotation} {sig : Bytes}
      (hnote : id.note = some a) :
      (noteName c₁ decl id sig).1 = .error (.shape (id.malformed (.annotatedTwice a.sig))) := by
    simp [noteName, Node.annotate, hnote]
  have hkind := more.kind_eq
  cases h with
  | entryPoint isVoid first =>
    obtain ⟨resultNode, id, params, body, hchildren, hresult, hid, -, -⟩ := more.four rfl
    rw [← hresult.kind_eq] at isVoid
    have hhead : entryPointHead d'' = .ok id :=
      entryPointHead_ok_iff.mpr ⟨_, _, _, hchildren, isVoid, hid.kind_eq⟩
    have hnote := hid.note_eq rfl
    refine ⟨id, _, by rw [hchildren]; rfl, hnote, ?_⟩
    simp only [collectDeclaration, hkind, hhead, Context.setEntryPoint_ok first]
    exact noteAgain hnote
  | @function attr loc note _ name _ _ _ _ sig isResult isList isParams fresh =>
    obtain ⟨resultNode, id, params, body, hchildren, hresult, hid, hparams, -⟩ := more.four rfl
    rw [← hresult.kind_eq] at isResult
    rw [← hparams.kind_eq] at isList
    have hhead : functionHead d'' = .ok (id, sig) :=
      functionHead_ok_iff.mpr ⟨_, _, _, hchildren, isResult, hid.kind_eq, isList,
        parameterTypes_noted hparams.all_children isParams⟩
    have hnote := hid.note_eq rfl
    obtain rfl : id.attr = name := hid.attr_eq
    refine ⟨id, _, by rw [hchildren]; rfl, hnote, ?_⟩
    simp only [collectDeclaration, hkind, hhead, Context.declareFunc_ok isGlobal fresh]
    exact noteAgain hnote
  | @global attr loc note _ name _ _ ty isType fresh =>
    obtain ⟨t, id, hchildren, ht, hid⟩ := more.two rfl
    rw [← ht.kind_eq] at isType
    have hname : typedName d'' = .ok (ty, id) :=
      typedName_ok_iff.mpr ⟨t, hchildren, isType, hid.kind_eq⟩
    have hnote := hid.note_eq rfl
    obtain rfl : id.attr = name := hid.attr_eq
    refine ⟨id, _, by rw [hchildren]; rfl, hnote, ?_⟩
    simp only [collectDeclaration, hkind, hname, Context.declareVariable_ok fresh]
    exact noteAgain hnote

/-- The checked tree is the given one with more notes. -/
theorem noted_of_checkProgram {root : Node} {p : CheckedProgram}
    (accepted : checkProgram root = .ok p) : root.Noted p.tree := by
  have noted := (writes_checkProgramIn .initial root).noted
  unfold checkProgram at accepted
  split at accepted
  · cases accepted
  · rename_i tree c hrun
    cases accepted
    rw [hrun] at noted
    exact noted

/-- A tree that was accepted cannot be checked again: the name of its first declaration has a
note. -/
theorem checkProgram_again {root : Node} {p : CheckedProgram}
    (accepted : checkProgram root = .ok p) :
    ∃ d rest id a, p.tree.children = d :: rest ∧ d.children[1]? = some id ∧ id.note = some a ∧
      checkProgram p.tree = .error (.shape (id.malformed (.annotatedTwice a.sig))) := by
  obtain ⟨root', c₁, c₂, ds', hcollect, hbodies, -, rfl⟩ := Lower.checkProgram_ok accepted
  obtain ⟨decls, hkind, hdecls, hentry, rfl⟩ := collectGlobals_ok hcollect
  have more := (writes_checkBodiesOf c₁ decls).1
  rw [hbodies] at more
  cases hchildren : root.children with
  | nil =>
    rw [hchildren] at hdecls
    obtain ⟨-, rfl⟩ := collectDeclarations_nil.mp hdecls
    exact absurd rfl hentry
  | cons d₀ rest₀ =>
    rw [hchildren] at hdecls
    obtain ⟨d', c', rest', hd, -, rfl⟩ := collectDeclarations_cons.mp hdecls
    obtain ⟨d, rest, hnoted, -, rfl⟩ := List.forall₂_cons_left_iff.mp more
    obtain ⟨id, a, hid, hnote, hagain⟩ :=
      (DeclCollected.of_collectDeclaration hd).again Collected.initial.globalVariant hnoted
    refine ⟨d, rest, id, a, rfl, hid, hnote, ?_⟩
    rcases hrun : collectDeclaration .initial d with ⟨o, d'', c''⟩
    rw [hrun] at hagain
    obtain rfl : o = _ := hagain
    have hexpect : ({ root with children := d :: rest } : Node).expect [.globalDeclarations] =
        .ok () := Node.expect_ok_iff.mpr hkind
    simp only [checkProgram, checkProgramIn, collectGlobals, hexpect, collectDeclarations, hrun]

/-- The notes of a run.

The run leaves the kind, the text and the location of every node as they are, and its children
in their order, and no note that was there is lost or changed; so the text of the tree is the
same.  If the tree has no notes at the start, the run never comes to a node that has one
already.  Running the checker again on a tree it accepted ends at the name of the first
declaration, which has a note. -/
theorem notes_written_once (root : Node) :
    root.Noted (checkProgramIn .initial root).2.1 ∧
    (checkProgramIn .initial root).2.1.format = root.format ∧
    (root.Unannotated →
      ∀ f, (checkProgramIn .initial root).1 = .error f → ¬f.IsSecondNote) ∧
    ∀ p, checkProgram root = .ok p →
      ∃ d rest id a, p.tree.children = d :: rest ∧ d.children[1]? = some id ∧ id.note = some a ∧
        checkProgram p.tree = .error (.shape (id.malformed (.annotatedTwice a.sig))) := by
  have run := writes_checkProgramIn .initial root
  exact ⟨run.noted, run.noted.format_eq, run.once, fun p accepted => checkProgram_again accepted⟩

/-- A program that breaks the layout where notes were written already:

    void main() { int x; x = x + void; } -/
def halfwayProgram : Node :=
  let node (kind : Kind) (children : List Node) : Node := .branch kind .nowhere children
  let x : Node := .leaf .id (utf8 "x") .nowhere
  node .globalDeclarations [
    node .entryPointDeclaration [node .void [], .leaf .id (utf8 "main") .nowhere,
      node .formalParameterList [],
      node .block [
        node .variableDeclaration [node .int [], x],
        node .statementExpression [
          node (.binary .assign) [x, node (.binary .add) [x, node .void []]]]]]]

/-- The run ends in the breach of the layout, and a second run of a program that is accepted
ends at the note of its first declaration. -/
theorem halfwayProgram_noted :
    halfwayProgram.Unannotated ∧
    (∃ f, (checkProgramIn .initial halfwayProgram).1 = .error f ∧ ¬f.IsSecondNote) ∧
    (checkProgramIn .initial halfwayProgram).2.1.format = halfwayProgram.format ∧
    ∃ p, checkProgram mutualProgram = .ok p ∧
      ∃ d rest id a, p.tree.children = d :: rest ∧ d.children[1]? = some id ∧ id.note = some a ∧
        checkProgram p.tree = .error (.shape (id.malformed (.annotatedTwice a.sig))) := by
  have plain : halfwayProgram.Unannotated := by decide
  have broken : (checkProgramIn .initial halfwayProgram).1 =
      .error (.shape ((Node.branch .void .nowhere []).malformed .notAnExpression)) := by
    decide +kernel
  obtain ⟨p, accepted⟩ : ∃ p, checkProgram mutualProgram = .ok p :=
    Lower.exists_checked_of_isOk (by decide +kernel)
  obtain ⟨-, sameText, once, -⟩ := notes_written_once halfwayProgram
  obtain ⟨-, -, -, again⟩ := notes_written_once mutualProgram
  exact ⟨plain, ⟨_, broken, once plain _ broken⟩, sameText, p, accepted, again p accepted⟩

end Check

end TreeWat
