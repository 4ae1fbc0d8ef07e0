import Mathlib.Data.List.Forall2
import TreeWat.Proofs.Check.Refusal
import TreeWat.Proofs.Check.Rules
set_option autoImplicit false

/-!
# Check: whom an error in an expression blames

`Node.evalOrder` lists what the check of an expression notes, in the order of
evaluation.  A check that ends with a diagnostic cuts this list in two: what stands
before the cut is typed and noted, and from the cut on there are no notes.  The
diagnostic describes the point at the cut.  The whole is `StoppedAt`, which
mentions neither the walk of the checker nor its tables.
-/

namespace TreeWat

/-! ## Order of evaluation -/

/-- A node that gets a note when an expression is checked. -/
inductive EvalPoint where
  /-- An expression, when its operands are done. -/
  | value (n : Node)
  /-- The callee of a call, when the arguments are done. -/
  | callee (call : Node)

/-- The note of the node. -/
def EvalPoint.note : EvalPoint → Option Annotation
  | .value n => n.note
  | .callee call => call.children.head?.bind Node.note

namespace Node

mutual

/-- The points of an expression: operands left to right before their operator; for a call the
arguments left to right, then the callee, then the call. -/
def evalOrder (n : Node) : List EvalPoint :=
  match n with
  | ⟨kind, attr, loc, note, children⟩ =>
    let n : Node := ⟨kind, attr, loc, note, children⟩
    match kind with
    | .functionInvocation =>
      match children with
      | [_, ⟨_, _, _, _, args⟩] => evalOrderAll args ++ [.callee n, .value n]
      | _ => [.value n]
    | .binary _ | .unary _ => evalOrderAll children ++ [.value n]
    | _ => [.value n]

/-- The points of several expressions, left to right. -/
def evalOrderAll : List Node → List EvalPoint
  | [] => []
  | e :: rest => evalOrder e ++ evalOrderAll rest

end

mutual

/-- The tree without its notes, those of argument lists apart. -/
def cleared (n : Node) : Node :=
  match n with
  | ⟨kind, attr, loc, note, children⟩ =>
    ⟨kind, attr, loc, if kind = .argumentList then note else none, clearedAll children⟩

/-- Trees without their notes, those of argument lists apart. -/
def clearedAll : List Node → List Node
  | [] => []
  | n :: rest => cleared n :: clearedAll rest

end

section EvalOrder

variable {kind : Kind} {attr listAttr : Bytes} {loc listLoc : Location}
  {note listNote : Option Annotation} {callee : Node} {args children : List Node}

@[simp] theorem evalOrder_id :
    (⟨.id, attr, loc, note, children⟩ : Node).evalOrder =
      [.value ⟨.id, attr, loc, note, children⟩] := by
  simp [evalOrder]

theorem evalOrder_literal {ty : Ty} (isLiteral : kind.literalType? = some ty) :
    (⟨kind, attr, loc, note, children⟩ : Node).evalOrder =
      [.value ⟨kind, attr, loc, note, children⟩] := by
  cases kind <;> cases isLiteral <;> simp [evalOrder]

@[simp] theorem evalOrder_call :
    (⟨.functionInvocation, attr, loc, note,
        [callee, ⟨.argumentList, listAttr, listLoc, listNote, args⟩]⟩ : Node).evalOrder =
      evalOrderAll args ++
        [.callee ⟨.functionInvocation, attr, loc, note,
            [callee, ⟨.argumentList, listAttr, listLoc, listNote, args⟩]⟩,
          .value ⟨.functionInvocation, attr, loc, note,
            [callee, ⟨.argumentList, listAttr, listLoc, listNote, args⟩]⟩] := by
  simp [evalOrder]

@[simp] theorem evalOrder_binary {op : BinaryOp} {l r : Node} :
    (⟨.binary op, attr, loc, note, [l, r]⟩ : Node).evalOrder =
      l.evalOrder ++ (r.evalOrder ++ [.value ⟨.binary op, attr, loc, note, [l, r]⟩]) := by
  simp [evalOrder, evalOrderAll]

@[simp] theorem evalOrder_unary {op : UnaryOp} {e : Node} :
    (⟨.unary op, attr, loc, note, [e]⟩ : Node).evalOrder =
      e.evalOrder ++ [.value ⟨.unary op, attr, loc, note, [e]⟩] := by
  simp [evalOrder, evalOrderAll]

end EvalOrder

/-! ## Trees without notes -/

theorem clearedAll_eq_map (ns : List Node) : clearedAll ns = ns.map cleared := by
  induction ns with
  | nil => rfl
  | cons n rest ih => rw [clearedAll, ih, List.map_cons]

theorem Unannotated.cleared {n : Node} (plain : n.Unannotated) : n.cleared = n := by
  induction n using Node.induction with
  | step n ih =>
    have each : ∀ m ∈ n.children, m.cleared = m := fun m hm =>
      ih m (mem_descendants_of_child hm) (plain.child hm)
    rcases n with ⟨kind, attr, loc, note, children⟩
    obtain rfl : note = none := plain.note
    rw [Node.cleared, clearedAll_eq_map, List.map_congr_left each, List.map_id', ite_self]

theorem mem_evalOrderAll {p : EvalPoint} {es : List Node} :
    p ∈ evalOrderAll es ↔ ∃ e ∈ es, p ∈ e.evalOrder := by
  induction es with
  | nil => simp [evalOrderAll]
  | cons e rest ih => simp [evalOrderAll, ih]

/-- A point of an expression is the expression, its callee or a point of an expression below. -/
theorem mem_evalOrder {p : EvalPoint} {n : Node} (hp : p ∈ n.evalOrder) :
    p = .value n ∨ p = .callee n ∨ ∃ m ∈ n.descendants, p ∈ m.evalOrder := by
  rcases n with ⟨kind, attr, loc, note, children⟩
  cases kind
  case functionInvocation =>
    rw [evalOrder.eq_def] at hp
    simp only at hp
    split at hp
    · rcases List.mem_append.mp hp with hp | hp
      · obtain ⟨e, he, hp⟩ := mem_evalOrderAll.mp hp
        exact .inr (.inr ⟨e, mem_descendants_of_argument he, hp⟩)
      · rcases List.mem_pair.mp hp with rfl | rfl
        · exact .inr (.inl rfl)
        · exact .inl rfl
    · exact .inl (List.mem_singleton.mp hp)
  case binary op | unary op =>
    rw [evalOrder.eq_def] at hp
    rcases List.mem_append.mp hp with hp | hp
    · obtain ⟨e, he, hp⟩ := mem_evalOrderAll.mp hp
      exact .inr (.inr ⟨e, mem_descendants_of_child he, hp⟩)
    · exact .inl (List.mem_singleton.mp hp)
  all_goals exact .inl (by simpa [evalOrder] using hp)

theorem Unannotated.callee {n : Node} (plain : n.Unannotated) :
    (EvalPoint.callee n).note = none := by
  rcases n with ⟨kind, attr, loc, note, _ | ⟨callee, rest⟩⟩
  · rfl
  · exact (plain.child List.mem_cons_self).note

/-- No point of a tree without notes carries one. -/
theorem Unannotated.evalOrder {n : Node} (plain : n.Unannotated) :
    ∀ p ∈ n.evalOrder, p.note = none := by
  induction n using Node.induction with
  | step n ih =>
    intro p hp
    rcases mem_evalOrder hp with rfl | rfl | ⟨m, hm, hp⟩
    · exact plain.note
    · exact plain.callee
    · exact ih m hm (plain.descendant hm) p hp

end Node

namespace Check

/-! ## What the diagnostic says -/

/-- What names stand for in a context: the variables of the open scopes, innermost first, and
the functions of the user in front of the library's. -/
def Context.visible (c : Context) : Names :=
  ⟨c.stack.flatMap fun id => (c.scopes.get id).vars, [],
    c.scopes.globals.funcs ++ c.scopes.builtins.funcs⟩

/-- A point before the check and behind it: an expression has a type, which is noted on it, and
a callee names a function, whose signature is noted on it. -/
inductive Noted (c : Context) : EvalPoint → EvalPoint → Prop where
  | value {n n' ty scope} (typed : HasType c.visible n ty)
      (noted : n'.note = some ⟨ty.text, scope⟩) : Noted c (.value n) (.value n')
  | callee {kind attr loc note callee rest call' owner sig}
      (resolved : c.scopes.resolveCall callee.attr loc = .ok (owner, sig))
      (noted : (EvalPoint.callee call').note = some ⟨sig.text, some owner⟩) :
      Noted c (.callee ⟨kind, attr, loc, note, callee :: rest⟩) (.callee call')

/-- The diagnostic states the rule that is broken at the point. -/
inductive Describes (c : Context) : EvalPoint → Diagnostic → Prop where
  | variable {attr loc note ch} (undeclared : c.visible.var? attr = none) :
      Describes c (.value ⟨.id, attr, loc, note, ch⟩) (.undeclaredVariable attr loc)
  | function {kind attr loc note callee rest}
      (notOwn : c.scopes.globals.func? callee.attr = none)
      (notLibrary : c.scopes.builtins.func? callee.attr = none)
      (notEntry : callee.attr ≠ c.scopes.globals.entryPoint) :
      Describes c (.callee ⟨kind, attr, loc, note, callee :: rest⟩)
        (.undeclaredFunction callee.attr loc)
  | entryPoint {kind attr loc note callee rest}
      (notOwn : c.scopes.globals.func? callee.attr = none)
      (notLibrary : c.scopes.builtins.func? callee.attr = none)
      (isEntry : callee.attr = c.scopes.globals.entryPoint) :
      Describes c (.callee ⟨kind, attr, loc, note, callee :: rest⟩) (.callMain callee.attr loc)
  | count {call callee argList owner sig} (children : call.children = [callee, argList])
      (resolved : c.scopes.resolveCall callee.attr call.loc = .ok (owner, sig))
      (count : argList.children.length ≠ sig.params.length) :
      Describes c (.callee call) (.argumentCount call.render call.loc)
  /-- The argument is the first whose type is not that of the parameter. -/
  | argument {call callee argList owner sig i arg ty want}
      (children : call.children = [callee, argList])
      (resolved : c.scopes.resolveCall callee.attr call.loc = .ok (owner, sig))
      (count : argList.children.length = sig.params.length)
      (isArgument : argList.children[i]? = some arg) (isWanted : sig.params[i]? = some want)
      (typed : HasType c.visible arg ty) (wrong : ty ≠ want)
      (before : ∀ p ∈ (argList.children.zip sig.params).take i, HasType c.visible p.1 p.2) :
      Describes c (.callee call) (.typeMismatch arg.render arg.loc want.text)
  | leftOperand {op attr loc note l r left tys} (typed : HasType c.visible l left)
      (isWanted : op.leftTypes = some tys) (wrong : left ∉ tys) :
      Describes c (.value ⟨.binary op, attr, loc, note, [l, r]⟩)
        (.typeMismatch l.render l.loc (Ty.alternatives tys))
  /-- The left operand fits, and the right one has not the type of the left. -/
  | rightOperand {op attr loc note l r left right} (typedLeft : HasType c.visible l left)
      (fits : ∀ tys, op.leftTypes = some tys → left ∈ tys) (typed : HasType c.visible r right)
      (wrong : right ≠ left) :
      Describes c (.value ⟨.binary op, attr, loc, note, [l, r]⟩)
        (.typeMismatch r.render r.loc left.text)
  | operand {op attr loc note e ty} (typed : HasType c.visible e ty) (wrong : ty ≠ op.operand) :
      Describes c (.value ⟨.unary op, attr, loc, note, [e]⟩)
        (.typeMismatch e.render e.loc op.operand.text)

/-- The points of an expression before the check and behind it, when the check stopped with the
diagnostic: those before some point are typed and noted, the diagnostic describes this point,
and there are no notes from there on. -/
inductive StoppedAt (c : Context) (d : Diagnostic) : List EvalPoint → List EvalPoint → Prop where
  | intro {before before' behind behind' f f'} (noted : List.Forall₂ (Noted c) before before')
      (describes : Describes c f d) (unnoted : ∀ p ∈ f' :: behind', p.note = none)
      (count : behind'.length = behind.length) :
      StoppedAt c d (before ++ f :: behind) (before' ++ f' :: behind')

namespace StoppedAt

variable {c : Context} {d : Diagnostic} {ps ps' qs qs' : List EvalPoint}

theorem here {f f' : EvalPoint} (describes : Describes c f d) (unnoted : f'.note = none) :
    StoppedAt c d [f] [f'] :=
  .intro .nil describes (List.forall_mem_singleton.mpr unnoted) rfl

theorem prepend (h : StoppedAt c d ps ps') (noted : List.Forall₂ (Noted c) qs qs') :
    StoppedAt c d (qs ++ ps) (qs' ++ ps') := by
  cases h with
  | intro noted' describes unnoted count =>
    rw [← List.append_assoc, ← List.append_assoc]
    exact .intro (List.rel_append noted noted') describes unnoted count

theorem append (h : StoppedAt c d ps ps') (unnoted : ∀ p ∈ qs', p.note = none)
    (count : qs'.length = qs.length) : StoppedAt c d (ps ++ qs) (ps' ++ qs') := by
  cases h with
  | intro noted describes unnoted' count' =>
    rw [List.append_assoc, List.append_assoc, List.cons_append, List.cons_append]
    refine .intro noted describes ?_ (by rw [List.length_append, List.length_append, count, count'])
    rw [← List.cons_append]
    intro p hp
    exact (List.mem_append.mp hp).elim (unnoted' p) (unnoted p)

end StoppedAt

/-! ## Names in a context -/

section Names

variable {c : Context} {name : Bytes} {loc : Location}

/-- Looking a name up scope by scope is looking it up in all scopes at once. -/
theorem lookup_flatMap (stack : List ScopeId) (vars : ScopeId → List (Bytes × Ty)) :
    (stack.findSome? fun id => ((vars id).lookup name).map (id, ·)).map Prod.snd =
      (stack.flatMap vars).lookup name := by
  induction stack with
  | nil => rfl
  | cons id rest ih =>
    rw [List.findSome?_cons, List.flatMap_cons, List.lookup_append, ← ih]
    cases (vars id).lookup name <;> rfl

theorem visible_var? : c.visible.var? name =
    (c.stack.findSome? fun id => ((c.scopes.get id).var? name).map (id, ·)).map Prod.snd := by
  rw [Names.var?, Context.visible, List.lookup_nil, Option.or_none]
  exact (lookup_flatMap _ _).symm

/-- A name that is not found is the name of no visible variable. -/
theorem lookup_error {d : Diagnostic} (h : c.lookup name loc = .error d) :
    c.visible.var? name = none ∧ d = .undeclaredVariable name loc := by
  rw [visible_var?]
  unfold Context.lookup Scopes.lookup at h
  split at h
  · cases h
  · rename_i hnone
    cases h
    exact ⟨by rw [hnone]; rfl, rfl⟩

theorem Context.visible_knows (c : Context) : Knows c.visible c where
  var {name loc owner ty} found := by
    rw [visible_var?]
    unfold Context.lookup Scopes.lookup at found
    split at found
    · rename_i hsome
      cases found
      rw [hsome]
      rfl
    · cases found
  func {name loc owner sig} resolved := by
    unfold Scopes.resolveCall Scope.func? at resolved
    unfold Names.func? Context.visible
    simp only [List.lookup_append]
    split at resolved
    · rename_i hown
      cases resolved
      rw [hown]
      rfl
    · rename_i hown
      split at resolved
      · rename_i hlibrary
        cases resolved
        rw [hown, hlibrary]
        rfl
      · split at resolved <;> cases resolved

/-- A callee that stands for no function is described by the diagnostic. -/
theorem resolveCall_error {kind : Kind} {attr : Bytes} {note : Option Annotation}
    {callee : Node} {rest : List Node} {d : Diagnostic}
    (h : c.scopes.resolveCall callee.attr loc = .error d) :
    Describes c (.callee ⟨kind, attr, loc, note, callee :: rest⟩) d := by
  unfold Scopes.resolveCall at h
  split at h
  · cases h
  · rename_i hown
    split at h
    · cases h
    · rename_i hlibrary
      split at h <;> cases h
      · exact .entryPoint hown hlibrary ‹_›
      · exact .function hown hlibrary ‹_›

end Names

/-! ## Accepted expressions -/

variable {c : Context}

theorem noted_of_checkExpressions {es : List Node}
    (each : ∀ e ∈ es, ∀ {ty : Ty} {e' : Node}, checkExpression c e = (.ok ty, e') →
      List.Forall₂ (Noted c) e.evalOrder e'.evalOrder)
    {tys : List Ty} {es' : List Node} (accepted : checkExpressions c es = (.ok tys, es')) :
    List.Forall₂ (Noted c) (Node.evalOrderAll es) (Node.evalOrderAll es') := by
  induction es generalizing tys es' with
  | nil =>
    obtain ⟨-, rfl⟩ := checkExpressions_nil.mp accepted
    exact .nil
  | cons e rest ih =>
    obtain ⟨ty, e', tys', rest', he, hrest, -, rfl⟩ := checkExpressions_cons.mp accepted
    exact List.rel_append (each e List.mem_cons_self he)
      (ih (fun e he => each e (List.mem_cons_of_mem _ he)) hrest)

/-- Every point of an accepted expression is typed and noted. -/
theorem noted_of_checkExpression {n : Node} :
    ∀ {ty : Ty} {n' : Node}, checkExpression c n = (.ok ty, n') →
      List.Forall₂ (Noted c) n.evalOrder n'.evalOrder := by
  induction n using Node.induction with
  | step n ih =>
    intro ty n' accepted
    have typed := c.visible_knows.hasType accepted
    cases checkExpression_ok_iff.mp accepted with
    | id found =>
      rw [Node.evalOrder_id, Node.evalOrder_id]
      exact .cons (.value typed rfl) .nil
    | literal isLiteral =>
      rw [Node.evalOrder_literal isLiteral, Node.evalOrder_literal isLiteral]
      exact .cons (.value typed rfl) .nil
    | call resolved acceptedArgs =>
      rw [Node.evalOrder_call, Node.evalOrder_call]
      have args := noted_of_checkExpressions
        (fun e he => ih e (Node.mem_descendants_of_argument he)) acceptedArgs
      exact List.rel_append args (.cons (.callee resolved rfl) (.cons (.value typed rfl) .nil))
    | @binary _ _ _ l r _ _ _ _ _ _ acceptedLeft acceptedRight _ =>
      rw [Node.evalOrder_binary, Node.evalOrder_binary]
      exact List.rel_append (ih l (Node.mem_descendants_of_child (by simp)) acceptedLeft)
        (List.rel_append (ih r (Node.mem_descendants_of_child (by simp)) acceptedRight)
          (.cons (.value typed rfl) .nil))
    | @unary _ _ _ e _ acceptedOperand =>
      rw [Node.evalOrder_unary, Node.evalOrder_unary]
      exact List.rel_append (ih e (Node.mem_descendants_of_child (by simp)) acceptedOperand)
        (.cons (.value typed rfl) .nil)

/-! ## Refused expressions -/

/-- The diagnostic of a refused call describes its callee. -/
theorem CallRefused.describes {attr listAttr : Bytes} {loc listLoc : Location}
    {note listNote : Option Annotation} {callee : Node} {args args' : List Node} {tys : List Ty}
    {d : Diagnostic} (accepted : checkExpressions c args = (.ok tys, args'))
    (refused : CallRefused c ⟨.functionInvocation, attr, loc, note,
      [callee, ⟨.argumentList, listAttr, listLoc, listNote, args⟩]⟩ callee.attr args tys d) :
    Describes c (.callee ⟨.functionInvocation, attr, loc, note,
      [callee, ⟨.argumentList, listAttr, listLoc, listNote, args⟩]⟩) d := by
  have hlength := checkExpressions_length accepted
  have typed := hasType_of_checkExpressions (fun _ _ => c.visible_knows.hasType) accepted
  cases refused with
  | unresolved unresolved => exact resolveCall_error unresolved
  | count resolved count => exact .count rfl resolved (hlength ▸ count)
  | argument resolved count mismatch =>
    obtain ⟨i, ty, harg, hty, hwant, hne, hbefore⟩ := firstMismatch_eq_some mismatch
    refine .argument rfl resolved (hlength ▸ count) harg hwant
      (typed (_, ty) (List.mem_of_getElem? (List.getElem?_zip_eq_some.mpr ⟨harg, hty⟩))) hne ?_
    intro p hp
    rw [List.zip, List.take_zipWith, ← hbefore, ← List.take_zipWith] at hp
    exact typed p (List.mem_of_mem_take hp)

theorem stoppedAt_of_checkExpressions {es : List Node} (plain : ∀ e ∈ es, e.Unannotated)
    (each : ∀ e ∈ es, ∀ {d : Diagnostic} {e' : Node},
      checkExpression c e = (.error (.user d), e') → StoppedAt c d e.evalOrder e'.evalOrder)
    {d : Diagnostic} {es' : List Node}
    (refused : checkExpressions c es = (.error (.user d), es')) :
    StoppedAt c d (Node.evalOrderAll es) (Node.evalOrderAll es') := by
  induction es generalizing es' with
  | nil => simp [checkExpressions] at refused
  | cons e rest ih =>
    rcases checkExpressions_cons_user refused with ⟨e', he, rfl⟩ | ⟨ty, e', rest', he, hrest, rfl⟩
    · refine (each e List.mem_cons_self he).append (fun p hp => ?_) rfl
      obtain ⟨m, hm, hp⟩ := Node.mem_evalOrderAll.mp hp
      exact (plain m (List.mem_cons_of_mem _ hm)).evalOrder p hp
    · exact (ih (fun e he => plain e (List.mem_cons_of_mem _ he))
        (fun e he => each e (List.mem_cons_of_mem _ he)) hrest).prepend (noted_of_checkExpression he)

/-- The check of a refused expression stops at the point that its diagnostic describes. -/
theorem stoppedAt_of_checkExpression {n : Node} :
    ∀ {d : Diagnostic} {n' : Node}, n.Unannotated →
      checkExpression c n = (.error (.user d), n') → StoppedAt c d n.evalOrder n'.evalOrder := by
  induction n using Node.induction with
  | step n ih =>
    intro d n' plain failed
    have child : ∀ {m : Node}, m ∈ n.children → m ∈ n.descendants := Node.mem_descendants_of_child
    cases ExprRefused.of_checkExpression failed with
    | id notFound =>
      obtain ⟨undeclared, rfl⟩ := lookup_error notFound
      rw [Node.evalOrder_id]
      exact .here (.variable undeclared) plain.note
    | argument refused =>
      have hlist := plain.child (List.mem_cons_of_mem _ List.mem_cons_self)
      rw [Node.evalOrder_call, Node.evalOrder_call]
      have args := stoppedAt_of_checkExpressions (fun e he => hlist.child he)
        (fun e he => ih e (Node.mem_descendants_of_argument he) (hlist.child he)) refused
      exact args.append
        (List.forall_mem_cons.mpr ⟨plain.callee, List.forall_mem_singleton.mpr plain.note⟩) rfl
    | call accepted refused =>
      rw [Node.evalOrder_call, Node.evalOrder_call]
      exact .intro (noted_of_checkExpressions (fun _ _ => noted_of_checkExpression) accepted)
        (refused.describes accepted)
        (List.forall_mem_cons.mpr ⟨plain.callee, List.forall_mem_singleton.mpr plain.note⟩) rfl
    | @left _ _ _ _ l r _ _ refused =>
      rw [Node.evalOrder_binary, Node.evalOrder_binary]
      refine (ih l (child (by simp)) (plain.child (by simp)) refused).append ?_ (by simp)
      exact List.forall_mem_append.mpr
        ⟨(plain.child (by simp)).evalOrder, List.forall_mem_singleton.mpr plain.note⟩
    | @right _ _ _ _ l r _ _ _ _ accepted refused =>
      rw [Node.evalOrder_binary, Node.evalOrder_binary]
      refine .prepend ?_ (noted_of_checkExpression accepted)
      exact (ih r (child (by simp)) (plain.child (by simp)) refused).append
        (List.forall_mem_singleton.mpr plain.note) rfl
    | leftType acceptedLeft acceptedRight rule =>
      obtain ⟨tys, htys, hwrong, rfl⟩ := BinaryOp.typing_left rule
      rw [Node.evalOrder_binary, Node.evalOrder_binary]
      have typed := c.visible_knows.hasType acceptedLeft
      exact .prepend (.prepend (.here (.leftOperand typed htys hwrong) plain.note)
        (noted_of_checkExpression acceptedRight)) (noted_of_checkExpression acceptedLeft)
    | rightType acceptedLeft acceptedRight rule =>
      obtain ⟨hfits, hwrong, rfl⟩ := BinaryOp.typing_right rule
      rw [Node.evalOrder_binary, Node.evalOrder_binary]
      have typedLeft := c.visible_knows.hasType acceptedLeft
      have typed := c.visible_knows.hasType acceptedRight
      exact .prepend (.prepend (.here (.rightOperand typedLeft hfits typed hwrong) plain.note)
        (noted_of_checkExpression acceptedRight)) (noted_of_checkExpression acceptedLeft)
    | @operand _ _ _ _ e _ _ refused =>
      rw [Node.evalOrder_unary, Node.evalOrder_unary]
      exact (ih e (child (by simp)) (plain.child (by simp)) refused).append
        (List.forall_mem_singleton.mpr plain.note) rfl
    | operandType accepted rule =>
      rw [Node.evalOrder_unary, Node.evalOrder_unary]
      exact .prepend (.here (.operand (c.visible_knows.hasType accepted) rule) plain.note)
        (noted_of_checkExpression accepted)

/-! ## The tree that is left -/

/-- Accepted or refused, the expression stays the same but for its notes. -/
structure Preserved (c : Context) (e : Node) : Prop where
  accepted {ty : Ty} {e' : Node} (accepted : checkExpression c e = (.ok ty, e')) :
    e'.cleared = e.cleared
  refused {d : Diagnostic} {e' : Node} (refused : checkExpression c e = (.error (.user d), e')) :
    e'.cleared = e.cleared

theorem clearedAll_of_accepted {es es' : List Node} {tys : List Ty}
    (each : ∀ e ∈ es, Preserved c e) (accepted : checkExpressions c es = (.ok tys, es')) :
    Node.clearedAll es' = Node.clearedAll es := by
  induction es generalizing tys es' with
  | nil =>
    obtain ⟨-, rfl⟩ := checkExpressions_nil.mp accepted
    rfl
  | cons e rest ih =>
    obtain ⟨ty, e', tys', rest', he, hrest, -, rfl⟩ := checkExpressions_cons.mp accepted
    rw [Node.clearedAll, Node.clearedAll, (each e List.mem_cons_self).accepted he,
      ih (fun e he => each e (List.mem_cons_of_mem _ he)) hrest]

theorem clearedAll_of_refused {es es' : List Node} {d : Diagnostic}
    (each : ∀ e ∈ es, Preserved c e) (refused : checkExpressions c es = (.error (.user d), es')) :
    Node.clearedAll es' = Node.clearedAll es := by
  induction es generalizing es' with
  | nil => simp [checkExpressions] at refused
  | cons e rest ih =>
    have first := each e List.mem_cons_self
    rcases checkExpressions_cons_user refused with ⟨e', he, rfl⟩ | ⟨ty, e', rest', he, hrest, rfl⟩
    · rw [Node.clearedAll, Node.clearedAll, first.refused he]
    · rw [Node.clearedAll, Node.clearedAll, first.accepted he,
        ih (fun e he => each e (List.mem_cons_of_mem _ he)) hrest]

theorem preserved (c : Context) (n : Node) : Preserved c n := by
  induction n using Node.induction with
  | step n ih =>
    have child : ∀ {m : Node}, m ∈ n.children → Preserved c m := fun hm =>
      ih _ (Node.mem_descendants_of_child hm)
    have grandchild : ∀ {m : Node}, m ∈ n.children → ∀ g ∈ m.children, Preserved c g :=
      fun hm g hg => ih g (Node.mem_descendants_of_grandchild hm hg)
    constructor
    · intro ty n' accepted
      cases checkExpression_ok_iff.mp accepted with
      | id => rfl
      | @literal kind _ _ _ _ isLiteral => cases kind <;> cases isLiteral <;> rfl
      | call _ acceptedArgs =>
        have args := clearedAll_of_accepted (grandchild (List.mem_cons_of_mem _ List.mem_cons_self)) acceptedArgs
        simp [Node.cleared, Node.clearedAll, args]
      | binary _ acceptedLeft acceptedRight _ =>
        have left := (child (by simp)).accepted acceptedLeft
        have right := (child (by simp)).accepted acceptedRight
        simp [Node.cleared, Node.clearedAll, left, right]
      | unary acceptedOperand =>
        have operand := (child (by simp)).accepted acceptedOperand
        simp [Node.cleared, Node.clearedAll, operand]
    · intro d n' refused
      cases ExprRefused.of_checkExpression refused with
      | id => rfl
      | argument refusedArgs =>
        have args := clearedAll_of_refused (grandchild (List.mem_cons_of_mem _ List.mem_cons_self)) refusedArgs
        simp [Node.cleared, Node.clearedAll, args]
      | call acceptedArgs _ =>
        have args := clearedAll_of_accepted (grandchild (List.mem_cons_of_mem _ List.mem_cons_self)) acceptedArgs
        simp [Node.cleared, Node.clearedAll, args]
      | left refusedLeft =>
        have left := (child (by simp)).refused refusedLeft
        simp [Node.cleared, Node.clearedAll, left]
      | right acceptedLeft refusedRight =>
        have left := (child (by simp)).accepted acceptedLeft
        have right := (child (by simp)).refused refusedRight
        simp [Node.cleared, Node.clearedAll, left, right]
      | leftType acceptedLeft acceptedRight _ | rightType acceptedLeft acceptedRight _ =>
        have left := (child (by simp)).accepted acceptedLeft
        have right := (child (by simp)).accepted acceptedRight
        simp [Node.cleared, Node.clearedAll, left, right]
      | operand refusedOperand =>
        have operand := (child (by simp)).refused refusedOperand
        simp [Node.cleared, Node.clearedAll, operand]
      | operandType acceptedOperand _ =>
        have operand := (child (by simp)).accepted acceptedOperand
        simp [Node.cleared, Node.clearedAll, operand]

/-! ## The main statement -/

/-- An expression without notes that is refused is blamed for its first offender. The check
leaves the same tree but for notes; in the order of evaluation all points before the offender
are typed and noted, none is noted from there on, and the diagnostic describes the offender. -/
theorem refused_at_first_offender {n n' : Node} {d : Diagnostic} (plain : n.Unannotated)
    (failed : checkExpression c n = (.error (.user d), n')) :
    n'.cleared = n ∧ StoppedAt c d n.evalOrder n'.evalOrder :=
  ⟨((preserved c n).refused failed).trans plain.cleared, stoppedAt_of_checkExpression plain failed⟩

/-- The expression `1 + printb(2) == 3`. -/
def misusedPrintb : Node :=
  .branch (.binary .eq) .nowhere [
    .branch (.binary .add) .nowhere [
      .leaf .num (utf8 "1") .nowhere,
      .branch .functionInvocation .nowhere [
        .leaf .id (utf8 "printb") .nowhere,
        .branch .argumentList .nowhere [.leaf .num (utf8 "2") .nowhere]]],
    .leaf .num (utf8 "3") .nowhere]

/-- The argument of `printb` is to blame: both numbers before the callee are noted, and neither
the callee nor what follows it. -/
theorem misusedPrintb_refused :
    let n' := (checkExpression .initial misusedPrintb).2
    let d : Diagnostic := .typeMismatch (utf8 "2") .nowhere (utf8 "boolean")
    misusedPrintb.Unannotated ∧ checkExpression .initial misusedPrintb = (.error (.user d), n') ∧
      n'.cleared = misusedPrintb ∧ StoppedAt .initial d misusedPrintb.evalOrder n'.evalOrder ∧
      n'.evalOrder.map EvalPoint.note = [some ⟨utf8 "int", none⟩, some ⟨utf8 "int", none⟩,
        none, none, none, none, none] := by
  have plain : misusedPrintb.Unannotated := by decide
  have failed : checkExpression .initial misusedPrintb =
      (.error (.user (.typeMismatch (utf8 "2") .nowhere (utf8 "boolean"))),
        (checkExpression .initial misusedPrintb).2) := Prod.ext (by rfl) rfl
  obtain ⟨same, stopped⟩ := refused_at_first_offender plain failed
  exact ⟨plain, failed, same, stopped, by rfl⟩

end Check

end TreeWat
