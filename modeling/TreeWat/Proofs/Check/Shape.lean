import TreeWat.Proofs.Compiler
set_option autoImplicit false

/-!
# Check: the layout of accepted trees

Each kind of node has a fixed layout: which children it has and of which kinds.  The
layouts stand in one table, `Kind.layout`, and a tree conforms if every node of it fits the
layout of its kind.  The checker looks at layouts on its way through a tree, and there are
kinds of leaves whose children it never looks at, so a tree with a surplus child there is
accepted.

Main statement: a tree that passes the checker conforms once the children of such leaves
are cut off, and it conforms itself exactly if there were none; every other tree ends in a
diagnostic or in a shape error (`layout_of_accepted`).
-/

namespace TreeWat

/-! ## The table of layouts -/

/-- Which children a node has. -/
inductive Layout where
  /-- One child in each of the given places. -/
  | places (allowed : List (Kind → Bool))
  /-- At most one child. -/
  | atMostOne (allowed : Kind → Bool)
  /-- Any number of children. -/
  | many (allowed : Kind → Bool)

/-- Whether children of these kinds stand in the given places. -/
def fillPlaces : List (Kind → Bool) → List Kind → Bool
  | [], [] => true
  | allowed :: places, kind :: kinds => allowed kind && fillPlaces places kinds
  | _, _ => false

/-- Whether children of these kinds fit the layout. -/
def Layout.fits : Layout → List Kind → Bool
  | .places allowed, kinds => fillPlaces allowed kinds
  | .atMostOne allowed, kinds => kinds.length ≤ 1 && kinds.all allowed
  | .many allowed, kinds => kinds.all allowed

namespace Kind

/-- Global declarations. -/
def isDeclaration : Kind → Bool
  | .variableDeclaration | .functionDeclaration | .entryPointDeclaration => true
  | _ => false

/-- Types of variables and parameters. -/
def isValueType : Kind → Bool
  | .int | .boolean => true
  | _ => false

/-- Types of results. -/
def isType : Kind → Bool
  | .int | .boolean | .void => true
  | _ => false

def isStatement : Kind → Bool
  | .block | .variableDeclaration | .statementExpression | .functionInvocation | .nullStatement
  | .ifThen | .ifElse | .while | .return | .break => true
  | _ => false

def isExpression : Kind → Bool
  | .id | .num | .string | .trueLiteral | .falseLiteral | .functionInvocation | .binary _
  | .unary _ => true
  | _ => false

/-- The layout of a kind. -/
def layout : Kind → Layout
  | .globalDeclarations => .many isDeclaration
  | .variableDeclaration | .formalParameter => .places [isValueType, (· = .id)]
  | .functionDeclaration => .places [isType, (· = .id), (· = .formalParameterList), (· = .block)]
  | .entryPointDeclaration =>
    .places [(· = .void), (· = .id), (· = .formalParameterList), (· = .block)]
  | .formalParameterList => .many (· = .formalParameter)
  | .block => .many isStatement
  | .statementExpression => .places [isExpression]
  | .functionInvocation => .places [(· = .id), (· = .argumentList)]
  | .argumentList => .many isExpression
  | .ifThen | .while => .places [isExpression, isStatement]
  | .ifElse => .places [isExpression, isStatement, isStatement]
  | .return => .atMostOne isExpression
  | .binary _ => .places [isExpression, isExpression]
  | .unary _ => .places [isExpression]
  | .nullStatement | .break | .id | .num | .string | .trueLiteral | .falseLiteral | .int
  | .boolean | .void => .places []

/-- The kinds of leaves whose children the checker does not count: all but `break`. -/
def isUncounted : Kind → Bool
  | .nullStatement | .id | .num | .string | .trueLiteral | .falseLiteral | .int | .boolean
  | .void => true
  | _ => false

theorem layout_of_isUncounted {kind : Kind} (h : kind.isUncounted = true) :
    kind.layout = .places [] := by
  cases kind <;> cases h <;> rfl

theorem isValueType_of_valueType? {kind : Kind} {ty : Ty} (h : kind.valueType? = some ty) :
    kind.isValueType = true ∧ kind.isUncounted = true := by
  cases kind <;> cases h <;> exact ⟨rfl, rfl⟩

theorem isType_of_type? {kind : Kind} {ty : Ty} (h : kind.type? = some ty) :
    kind.isType = true ∧ kind.isUncounted = true := by
  cases kind <;> cases h <;> exact ⟨rfl, rfl⟩

theorem isExpression_of_literalType? {kind : Kind} {ty : Ty} (h : kind.literalType? = some ty) :
    kind.isExpression = true ∧ kind.isUncounted = true := by
  cases kind <;> cases h <;> exact ⟨rfl, rfl⟩

end Kind

namespace Node

/-- The children of the node fit the layout of its kind. -/
def LaidOut (n : Node) : Prop :=
  n.kind.layout.fits (n.children.map Node.kind) = true

instance : DecidablePred LaidOut :=
  fun n => inferInstanceAs (Decidable (n.kind.layout.fits _ = true))

/-- Every node of the tree fits the layout of its kind. -/
def Conforms (n : Node) : Prop :=
  ∀ m ∈ n.preorder, m.LaidOut

instance : DecidablePred Conforms :=
  fun n => inferInstanceAs (Decidable (∀ m ∈ n.preorder, m.LaidOut))

/-- The tree is a program that conforms to the layouts. -/
structure IsProgram (root : Node) : Prop where
  globals : root.kind = .globalDeclarations
  conforms : root.Conforms

mutual

/-- The tree without the children of leaves that the checker does not count. -/
def pruned (n : Node) : Node :=
  match n with
  | ⟨kind, attr, loc, note, children⟩ =>
    ⟨kind, attr, loc, note, if kind.isUncounted then [] else prunedAll children⟩

/-- Trees without the children of such leaves. -/
def prunedAll : List Node → List Node
  | [] => []
  | c :: rest => pruned c :: prunedAll rest

end

/-! ## Pruned trees -/

theorem prunedAll_eq_map (ns : List Node) : prunedAll ns = ns.map pruned := by
  induction ns with
  | nil => rfl
  | cons n rest ih => rw [prunedAll, ih, List.map_cons]

theorem pruned_kind (n : Node) : n.pruned.kind = n.kind := by
  rcases n with ⟨kind, attr, loc, note, children⟩
  rw [pruned]

section Conforms

variable {kind : Kind} {attr : Bytes} {loc : Location} {note : Option Annotation}
  {children : List Node}

theorem conforms_iff {n : Node} :
    n.Conforms ↔ n.LaidOut ∧ ∀ c ∈ n.children, c.Conforms := by
  constructor
  · intro conforms
    exact ⟨conforms n n.mem_preorder_self,
      fun c hc m hm => conforms m (mem_preorder_of_child hc hm)⟩
  · rintro ⟨laidOut, below⟩ m hm
    rcases mem_preorder.mp hm with rfl | hm
    · exact laidOut
    · obtain ⟨c, hc, hm⟩ := mem_preorderAll.mp hm
      exact below c hc m hm

/-- A leaf whose children are not counted conforms when they are cut off. -/
theorem conforms_leaf {n : Node} (uncounted : n.kind.isUncounted = true) : n.pruned.Conforms := by
  rcases n with ⟨kind, attr, loc, note, children⟩
  rw [pruned, if_pos uncounted]
  refine conforms_iff.mpr ⟨?_, by simp⟩
  simp [LaidOut, Kind.layout_of_isUncounted uncounted, Layout.fits, fillPlaces]

/-- A node whose children have fitting kinds conforms if they do. -/
theorem conforms_branch (counted : kind.isUncounted = false)
    (fits : kind.layout.fits (children.map Node.kind) = true)
    (below : ∀ c ∈ children, c.pruned.Conforms) :
    (⟨kind, attr, loc, note, children⟩ : Node).pruned.Conforms := by
  rw [pruned, counted, if_neg (by simp), prunedAll_eq_map]
  refine conforms_iff.mpr ⟨?_, ?_⟩
  · simpa [LaidOut, Function.comp_def, pruned_kind] using fits
  · intro c hc
    obtain ⟨d, hd, rfl⟩ := List.mem_map.mp hc
    exact below d hd

end Conforms

/-- Without surplus children there is nothing to prune. -/
theorem pruned_eq_self {n : Node}
    (childless : ∀ m ∈ n.preorder, m.kind.isUncounted = true → m.children = []) :
    n.pruned = n := by
  induction n using Node.induction with
  | step n ih =>
    rcases n with ⟨kind, attr, loc, note, children⟩
    rw [pruned, prunedAll_eq_map]
    split
    · rename_i uncounted
      obtain rfl : children = [] := childless _ (mem_preorder_self _) uncounted
      rfl
    · have hmap : children.map pruned = children := by
        refine (List.map_congr_left fun c hc => ?_).trans (List.map_id _)
        exact ih c (mem_descendants_of_child hc)
          fun m hm => childless m (mem_preorder_of_child hc hm)
      rw [hmap]

/-- A leaf that fits its layout has no children. -/
theorem LaidOut.childless {n : Node} (h : n.LaidOut) (uncounted : n.kind.isUncounted = true) :
    n.children = [] := by
  rw [LaidOut, Kind.layout_of_isUncounted uncounted] at h
  cases hchildren : n.children with
  | nil => rfl
  | cons c rest => simp [hchildren, Layout.fits, fillPlaces] at h

/-- A tree that conforms without the surplus children of leaves conforms itself exactly if
it has none. -/
theorem conforms_iff_childless {n : Node} (conforms : n.pruned.Conforms) :
    n.Conforms ↔ ∀ m ∈ n.preorder, m.kind.isUncounted = true → m.children = [] := by
  constructor
  · exact fun whole m hm uncounted => (whole m hm).childless uncounted
  · intro childless
    rwa [pruned_eq_self childless] at conforms

/-- A declaration of a variable or of a parameter conforms. -/
theorem conforms_typedName {kind : Kind} {attr : Bytes} {loc : Location} {note : Option Annotation}
    {t id : Node} {ty : Ty} (isBinding : kind = .variableDeclaration ∨ kind = .formalParameter)
    (isType : t.kind.valueType? = some ty) (isId : id.kind = .id) :
    (⟨kind, attr, loc, note, [t, id]⟩ : Node).pruned.Conforms := by
  obtain ⟨isValueType, uncounted⟩ := Kind.isValueType_of_valueType? isType
  have below : ∀ c ∈ [t, id], c.pruned.Conforms := by
    simpa using ⟨conforms_leaf uncounted, conforms_leaf (by rw [isId]; rfl)⟩
  rcases isBinding with rfl | rfl
  · exact conforms_branch rfl (by simp [Kind.layout, Layout.fits, fillPlaces, *]) below
  · exact conforms_branch rfl (by simp [Kind.layout, Layout.fits, fillPlaces, *]) below

end Node

namespace Check

/-! ## Expressions and statements -/

theorem accepted_of_checkExpressions {c : Context} {es es' : List Node} {tys : List Ty}
    (accepted : checkExpressions c es = (.ok tys, es')) :
    ∀ e ∈ es, ∃ ty e', checkExpression c e = (.ok ty, e') := by
  induction es generalizing tys es' with
  | nil => simp
  | cons e rest ih =>
    obtain ⟨ty, e', tys', rest', he, hrest, -, -⟩ := checkExpressions_cons.mp accepted
    exact List.forall_mem_cons.mpr ⟨⟨ty, e', he⟩, ih hrest⟩

theorem expression_layout {c : Context} {n n' : Node} {ty : Ty}
    (accepted : checkExpression c n = (.ok ty, n')) :
    n.kind.isExpression = true ∧ n.pruned.Conforms := by
  induction n using Node.induction generalizing n' ty with
  | step n ih =>
    have below : ∀ {e e' : Node} {ty : Ty}, e ∈ n.descendants →
        checkExpression c e = (.ok ty, e') → e.kind.isExpression = true ∧ e.pruned.Conforms :=
      fun he haccepted => ih _ he haccepted
    cases checkExpression_ok_iff.mp accepted with
    | id => exact ⟨rfl, Node.conforms_leaf rfl⟩
    | literal isLiteral =>
      obtain ⟨isExpression, uncounted⟩ := Kind.isExpression_of_literalType? isLiteral
      exact ⟨isExpression, Node.conforms_leaf uncounted⟩
    | @call _ _ _ _ _ listAttr listLoc listNote args _ _ _ _ acceptedArgs =>
      have hargs : ∀ a ∈ args, a.kind.isExpression = true ∧ a.pruned.Conforms := by
        intro a ha
        obtain ⟨ty, a', haccepted⟩ := accepted_of_checkExpressions acceptedArgs a ha
        exact below (Node.mem_descendants_of_argument ha) haccepted
      have hlist : (⟨.argumentList, listAttr, listLoc, listNote, args⟩ : Node).pruned.Conforms := by
        refine Node.conforms_branch rfl ?_ fun a ha => (hargs a ha).2
        simpa [Kind.layout, Layout.fits] using fun a ha => (hargs a ha).1
      refine ⟨rfl, Node.conforms_branch rfl rfl ?_⟩
      simpa using ⟨Node.conforms_leaf rfl, hlist⟩
    | @binary _ _ _ l r _ _ _ _ _ _ acceptedLeft acceptedRight _ =>
      obtain ⟨isLeft, hleft⟩ := below (Node.mem_descendants_of_child (by simp)) acceptedLeft
      obtain ⟨isRight, hright⟩ := below (Node.mem_descendants_of_child (by simp)) acceptedRight
      refine ⟨rfl, Node.conforms_branch rfl ?_ (by simpa using ⟨hleft, hright⟩)⟩
      simp [Kind.layout, Layout.fits, fillPlaces, isLeft, isRight]
    | unary acceptedOperand =>
      obtain ⟨isOperand, hoperand⟩ :=
        below (Node.mem_descendants_of_child (by simp)) acceptedOperand
      refine ⟨rfl, Node.conforms_branch rfl ?_ (by simpa using hoperand)⟩
      simp [Kind.layout, Layout.fits, fillPlaces, isOperand]

theorem accepted_of_checkStatements {c c' : Context} {ss ss' : List Node}
    (accepted : checkStatements c ss = (.ok (), ss', c')) :
    ∀ s ∈ ss, ∃ c₁ s' c₂, checkStatementIn none c₁ s = (.ok (), s', c₂) := by
  induction ss generalizing c ss' with
  | nil => simp
  | cons s rest ih =>
    obtain ⟨s', c₁, rest', hs, hrest, -⟩ := checkStatements_cons.mp accepted
    exact List.forall_mem_cons.mpr ⟨⟨c, s', c₁, hs⟩, ih hrest⟩

theorem statement_layout {own : Option ScopeId} {c c' : Context} {n n' : Node}
    (accepted : checkStatementIn own c n = (.ok (), n', c')) :
    n.kind.isStatement = true ∧ n.pruned.Conforms := by
  induction n using Node.induction generalizing own c n' c' with
  | step n ih =>
    have below : ∀ {s s' : Node} {own : Option ScopeId} {c c' : Context}, s ∈ n.descendants →
        checkStatementIn own c s = (.ok (), s', c') →
          s.kind.isStatement = true ∧ s.pruned.Conforms :=
      fun hs haccepted => ih _ hs haccepted
    cases checkStatementIn_ok_iff.mp accepted with
    | @block _ _ ch _ _ acceptedAll =>
      have hall : ∀ s ∈ ch, s.kind.isStatement = true ∧ s.pruned.Conforms := by
        intro s hs
        obtain ⟨c₁, s', c₂, haccepted⟩ := accepted_of_checkStatements acceptedAll s hs
        exact below (Node.mem_descendants_of_child hs) haccepted
      refine ⟨rfl, Node.conforms_branch rfl ?_ fun s hs => (hall s hs).2⟩
      simpa [Kind.layout, Layout.fits] using fun s hs => (hall s hs).1
    | declaration isType => exact ⟨rfl, Node.conforms_typedName (.inl rfl) isType rfl⟩
    | expression acceptedExpr =>
      obtain ⟨isExpr, hexpr⟩ := expression_layout acceptedExpr
      refine ⟨rfl, Node.conforms_branch rfl ?_ (by simpa using hexpr)⟩
      simp [Kind.layout, Layout.fits, fillPlaces, isExpr]
    | call isCall acceptedCall =>
      exact ⟨by simp [isCall, Kind.isStatement], (expression_layout acceptedCall).2⟩
    | null => exact ⟨rfl, Node.conforms_leaf rfl⟩
    | ifThen _ acceptedCond acceptedArm =>
      obtain ⟨isCond, hcond⟩ := expression_layout acceptedCond
      obtain ⟨isArm, harm⟩ := below (Node.mem_descendants_of_child (by simp)) acceptedArm
      refine ⟨rfl, Node.conforms_branch rfl ?_ (by simpa using ⟨hcond, harm⟩)⟩
      simp [Kind.layout, Layout.fits, fillPlaces, isCond, isArm]
    | ifElse _ _ acceptedCond accepted₁ accepted₂ =>
      obtain ⟨isCond, hcond⟩ := expression_layout acceptedCond
      obtain ⟨isArm₁, harm₁⟩ := below (Node.mem_descendants_of_child (by simp)) accepted₁
      obtain ⟨isArm₂, harm₂⟩ := below (Node.mem_descendants_of_child (by simp)) accepted₂
      refine ⟨rfl, Node.conforms_branch rfl ?_ (by simpa using ⟨hcond, harm₁, harm₂⟩)⟩
      simp [Kind.layout, Layout.fits, fillPlaces, isCond, isArm₁, isArm₂]
    | «while» _ acceptedCond acceptedBody =>
      obtain ⟨isCond, hcond⟩ := expression_layout acceptedCond
      obtain ⟨isBody, hbody⟩ := below (Node.mem_descendants_of_child (by simp)) acceptedBody
      refine ⟨rfl, Node.conforms_branch rfl ?_ (by simpa using ⟨hcond, hbody⟩)⟩
      simp [Kind.layout, Layout.fits, fillPlaces, isCond, isBody]
    | returnNothing => exact ⟨rfl, Node.conforms_branch rfl rfl (by simp)⟩
    | returnValue _ _ acceptedValue =>
      obtain ⟨isValue, hvalue⟩ := expression_layout acceptedValue
      refine ⟨rfl, Node.conforms_branch rfl ?_ (by simpa using hvalue)⟩
      simp [Kind.layout, Layout.fits, isValue]
    | «break» => exact ⟨rfl, Node.conforms_branch rfl rfl (by simp)⟩

/-! ## Functions and programs -/

theorem parameters_layout {fn : ScopeId} {c c' : Context} {ps ps' : List Node}
    (accepted : checkParameters fn c ps = (.ok (), ps', c')) :
    ∀ p ∈ ps, p.kind = .formalParameter ∧ p.pruned.Conforms := by
  induction ps generalizing c ps' with
  | nil => simp
  | cons p rest ih =>
    obtain ⟨p', c₁, rest', hp, hrest, -⟩ := checkParameters_cons.mp accepted
    obtain ⟨t, id, ty, isParameter, hchildren, isType, isId, -, -, -, -⟩ :=
      checkParameter_ok_iff.mp hp
    refine List.forall_mem_cons.mpr ⟨⟨isParameter, ?_⟩, ih hrest⟩
    rcases p with ⟨kind, attr, loc, note, children⟩
    obtain rfl : children = [t, id] := hchildren
    exact Node.conforms_typedName (.inr isParameter) isType isId

/-- The parameters and the body of an accepted function conform. -/
theorem function_layout {c c' : Context} {kind : Kind} {attr : Bytes} {loc : Location}
    {note : Option Annotation} {resultNode name list body fn' : Node}
    (accepted : checkFunction c ⟨kind, attr, loc, note, [resultNode, name, list, body]⟩ =
      (.ok (), fn', c')) :
    (list.kind = .formalParameterList ∧ list.pruned.Conforms) ∧
      body.kind = .block ∧ body.pruned.Conforms := by
  cases checkFunction_ok_iff.mp accepted with
  | @intro _ _ _ _ _ _ _ _ _ _ _ _ _ stmts _ _ _ _ _ _ _ acceptedParams acceptedBody =>
    have hparams := parameters_layout acceptedParams
    have hbody : ∀ s ∈ stmts, s.kind.isStatement = true ∧ s.pruned.Conforms := fun s hs => by
      obtain ⟨c₁, s', c₂, haccepted⟩ := accepted_of_checkStatements acceptedBody s hs
      exact statement_layout haccepted
    refine ⟨⟨rfl, Node.conforms_branch rfl ?_ fun p hp => (hparams p hp).2⟩, rfl,
      Node.conforms_branch rfl ?_ fun s hs => (hbody s hs).2⟩
    · simpa [Kind.layout, Layout.fits] using fun p hp => (hparams p hp).1
    · simpa [Kind.layout, Layout.fits] using fun s hs => (hbody s hs).1

/-- The declarations of an accepted program conform. -/
theorem declarations_layout {ds ds' ds'' : List Node} {vs : List (Bytes × Ty)}
    {fs : List (Bytes × Signature)} {c c' : Context} (noted : DeclsNoted ds ds' vs fs)
    (accepted : checkBodiesOf c ds' = (.ok (), ds'', c')) :
    ∀ d ∈ ds, d.kind.isDeclaration = true ∧ d.pruned.Conforms := by
  induction noted generalizing c ds'' with
  | nil => simp
  | @entryPoint _ _ _ resultNode _ _ _ _ _ _ _ _ _ isVoid _ ih =>
    obtain ⟨d', c₁, rest', hd, hrest, -⟩ := Lower.checkBodiesOf_function (.inr rfl) accepted
    obtain ⟨⟨isList, hlist⟩, isBlock, hbody⟩ := function_layout hd
    have hresult : resultNode.pruned.Conforms := Node.conforms_leaf (by rw [isVoid]; rfl)
    refine List.forall_mem_cons.mpr ⟨⟨rfl, Node.conforms_branch rfl ?_ ?_⟩, ih hrest⟩
    · simp [Kind.layout, Layout.fits, fillPlaces, isVoid, isList, isBlock]
    · simpa using ⟨hresult, Node.conforms_leaf rfl, hlist, hbody⟩
  | function isResult _ _ ih =>
    obtain ⟨d', c₁, rest', hd, hrest, -⟩ := Lower.checkBodiesOf_function (.inl rfl) accepted
    obtain ⟨⟨isList, hlist⟩, isBlock, hbody⟩ := function_layout hd
    obtain ⟨isType, uncounted⟩ := Kind.isType_of_type? isResult
    refine List.forall_mem_cons.mpr ⟨⟨rfl, Node.conforms_branch rfl ?_ ?_⟩, ih hrest⟩
    · simp [Kind.layout, Layout.fits, fillPlaces, isType, isList, isBlock]
    · simpa using ⟨Node.conforms_leaf uncounted, Node.conforms_leaf rfl, hlist, hbody⟩
  | global isType _ ih =>
    obtain ⟨rest', hrest, -⟩ := Lower.checkBodiesOf_other (by simp) accepted
    exact List.forall_mem_cons.mpr
      ⟨⟨rfl, Node.conforms_typedName (.inl rfl) isType rfl⟩, ih hrest⟩

/-- A tree that passes the checker is a program, less the surplus children of leaves. -/
theorem isProgram_of_checkProgram {root : Node} {checked : CheckedProgram}
    (accepted : checkProgram root = .ok checked) : root.pruned.IsProgram := by
  obtain ⟨root', c, c', ds, hcollect, hbodies, -, -⟩ := Lower.checkProgram_ok accepted
  obtain ⟨decls, isGlobals, hall, -, rfl⟩ := collectGlobals_ok hcollect
  obtain ⟨vs, fs, noted, -, -⟩ := declsNoted_of_collectDeclarations hall
  have hdecls := declarations_layout noted hbodies
  refine ⟨(Node.pruned_kind root).trans isGlobals, ?_⟩
  rcases root with ⟨kind, attr, loc, note, children⟩
  obtain rfl : kind = .globalDeclarations := isGlobals
  refine Node.conforms_branch rfl ?_ fun d hd => (hdecls d hd).2
  simpa [Kind.layout, Layout.fits] using fun d hd => (hdecls d hd).1

/-- A tree passes the checker, or it ends in a diagnostic or in a shape error.  In the first
case it is a program when the children of the leaves that the checker does not count are cut
off, and it is one as it stands exactly if no such leaf has a child. -/
theorem layout_of_accepted (root : Node) :
    (∃ checked, checkProgram root = .ok checked ∧ root.pruned.IsProgram ∧
      (root.IsProgram ↔ ∀ n ∈ root.preorder, n.kind.isUncounted = true → n.children = [])) ∨
    (∃ d, checkProgram root = .error (.user d)) ∨ ∃ e, checkProgram root = .error (.shape e) := by
  cases hcheck : checkProgram root with
  | error f =>
    obtain ⟨d, rfl⟩ | ⟨e, rfl⟩ := Compiler.checkProgram_error hcheck
    · exact .inr (.inl ⟨d, rfl⟩)
    · exact .inr (.inr ⟨e, rfl⟩)
  | ok checked =>
    have program := isProgram_of_checkProgram hcheck
    have isGlobals : root.kind = .globalDeclarations :=
      (Node.pruned_kind root).symm.trans program.globals
    have hiff := Node.conforms_iff_childless program.conforms
    exact .inl ⟨checked, rfl, program, fun whole => hiff.mp whole.conforms,
      fun childless => ⟨isGlobals, hiff.mpr childless⟩⟩

/-- A program whose one statement is an empty statement over a number. -/
def surplusChild : Node :=
  let node (kind : Kind) (children : List Node) : Node := .branch kind .nowhere children
  node .globalDeclarations [
    node .entryPointDeclaration [node .void [], .leaf .id (utf8 "main") .nowhere,
      node .formalParameterList [],
      node .block [node .nullStatement [.leaf .num (utf8 "1") .nowhere]]]]

/-- The program with the surplus child passes the checker and does not conform, and it
conforms without that child. -/
theorem surplusChild_accepted :
    (∃ checked, checkProgram surplusChild = .ok checked) ∧ ¬surplusChild.IsProgram ∧
      surplusChild.pruned.IsProgram := by
  have hok : (checkProgram surplusChild).isOk = true := by decide +kernel
  have hsurplus : ¬surplusChild.Conforms := by decide
  obtain ⟨checked, accepted, program, -⟩ | ⟨d, rejected⟩ | ⟨e, rejected⟩ :=
    layout_of_accepted surplusChild
  · exact ⟨⟨checked, accepted⟩, fun whole => hsurplus whole.conforms, program⟩
  · rw [rejected] at hok
    cases hok
  · rw [rejected] at hok
    cases hok

end Check

end TreeWat
