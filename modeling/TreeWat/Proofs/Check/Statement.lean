import TreeWat.Proofs.Check.Expression
import TreeWat.Proofs.Check.Frame
set_option autoImplicit false

/-!
# Check: what an accepted statement looks like

`StmtAccepted` and `FunctionAccepted` list every way in which the check of a
statement and of a function ends well, with the notes and the context left behind.
As for expressions, the lists are not recursive, and the two `_ok_iff` theorems say
that they are complete.
-/

namespace TreeWat

/-- The type that a type keyword stands for. -/
def Kind.type? : Kind → Option Ty
  | .int => some .int
  | .boolean => some .boolean
  | .void => some .void
  | _ => none

/-- The type that the keyword of a variable or parameter stands for. -/
def Kind.valueType? : Kind → Option Ty
  | .int => some .int
  | .boolean => some .boolean
  | _ => none

theorem Kind.hasValue_of_valueType? {kind : Kind} {ty : Ty} (h : kind.valueType? = some ty) :
    ty.hasValue = true := by
  cases kind <;> simp only [valueType?, reduceCtorEq, Option.some.injEq] at h
  all_goals
    subst h
    rfl

namespace Check

theorem typeOf_ok_iff {n : Node} {ty : Ty} : typeOf n = .ok ty ↔ n.kind.type? = some ty := by
  rcases n with ⟨kind, attr, loc, note, children⟩
  cases kind <;> simp [typeOf, Kind.type?]

theorem valueTypeOf_ok_iff {n : Node} {ty : Ty} :
    valueTypeOf n = .ok ty ↔ n.kind.valueType? = some ty := by
  rcases n with ⟨kind, attr, loc, note, children⟩
  cases kind <;> simp [valueTypeOf, Kind.valueType?]

theorem typedName_ok_iff {n id : Node} {ty : Ty} :
    typedName n = .ok (ty, id) ↔
      ∃ t, n.children = [t, id] ∧ t.kind.valueType? = some ty ∧ id.kind = .id := by
  rcases n with ⟨kind, attr, loc, note, children⟩
  unfold typedName
  simp only [bind_ok_iff, Node.child_ok_iff, valueTypeOf_ok_iff]
  constructor
  · rintro ⟨⟨⟩, hcount, t, hfirst, _, hty, _, hsecond, ⟨⟩, hid, heq⟩
    cases heq
    have hlength : children.length = 2 := Node.expectChildren_ok_iff.mp hcount
    match children, hlength with
    | [_, _], _ =>
      cases hfirst
      cases hsecond
      exact ⟨t, rfl, hty, Node.expect_ok_iff.mp hid⟩
  · rintro ⟨t, rfl, hty, hid⟩
    exact ⟨(), rfl, t, rfl, ty, hty, id, rfl, (), Node.expect_ok_iff.mpr hid, rfl⟩

/-! ## Binding a variable -/

/-- The context in which the named scope has one more variable. -/
def Context.bind (c : Context) (id : ScopeId) (name : Bytes) (ty : Ty) : Context :=
  let s := c.scopes.get id
  { c with scopes := c.scopes.set id { s with vars := s.vars ++ [(name, ty)] } }

theorem Context.declare_ok_iff {c c' : Context} {id : ScopeId} {name : Bytes} {ty : Ty}
    {loc : Location} :
    c.declare id name ty loc = .ok c' ↔
      (c.scopes.get id).binds name = false ∧ c' = c.bind id name ty := by
  unfold Context.declare Scope.declare Context.bind
  cases h : (c.scopes.get id).binds name <;> simp [eq_comm]

/-! ## Statements -/

/-- Where the statements of a block are checked: in the scope opened for it by the
statement it belongs to, or else in one of its own. -/
def blockContext (own : Option ScopeId) (c : Context) (loc : Location) : Context × ScopeId :=
  match own with
  | some id => (c, id)
  | none => c.enter fun tag => .empty .block tag loc

/-- How the check of a statement ends well: the scope opened for it, the context, the
statement, the statement with its notes, and the context left behind. -/
inductive StmtAccepted (own : Option ScopeId) (c : Context) : Node → Node → Context → Prop where
  | block {attr loc ch ch' c'}
      (accepted : checkStatements (blockContext own c loc).1 ch = (.ok (), ch', c')) :
      StmtAccepted own c ⟨.block, attr, loc, none, ch⟩
        ⟨.block, attr, loc, some ⟨[], some (blockContext own c loc).2⟩, ch'⟩ (c'.leaveTo c)
  | declaration {attr loc note t name nameLoc nameCh ty top}
      (isType : t.kind.valueType? = some ty) (isTop : c.top? = some top)
      (inFunction : (c.scopes.get top).variant = .function)
      (fresh : (c.scopes.get top).binds name = false) :
      StmtAccepted own c
        ⟨.variableDeclaration, attr, loc, note, [t, ⟨.id, name, nameLoc, none, nameCh⟩]⟩
        ⟨.variableDeclaration, attr, loc, note,
          [t, ⟨.id, name, nameLoc, some ⟨ty.text, some top⟩, nameCh⟩]⟩ (c.bind top name ty)
  | expression {attr loc note e e' ty} (accepted : checkExpression c e = (.ok ty, e')) :
      StmtAccepted own c ⟨.statementExpression, attr, loc, note, [e]⟩
        ⟨.statementExpression, attr, loc, note, [e']⟩ c
  | call {n n' ty} (isCall : n.kind = .functionInvocation)
      (accepted : checkExpression c n = (.ok ty, n')) : StmtAccepted own c n n' c
  | null {attr loc note ch} :
      StmtAccepted own c ⟨.nullStatement, attr, loc, note, ch⟩
        ⟨.nullStatement, attr, loc, note, ch⟩ c
  | ifThen {attr loc note cond cond' arm arm' inside c'}
      (isInside : inside = c.enter fun tag => .empty .block tag arm.loc)
      (acceptedCond : checkExpression c cond = (.ok .boolean, cond'))
      (acceptedArm : checkStatementIn (some inside.2) inside.1 arm = (.ok (), arm', c')) :
      StmtAccepted own c ⟨.ifThen, attr, loc, note, [cond, arm]⟩
        ⟨.ifThen, attr, loc, note, [cond', arm']⟩ (c'.leaveTo c)
  | ifElse {attr loc note cond cond' arm₁ arm₁' arm₂ arm₂' inside₁ inside₂ c₁ c₂}
      (isInside₁ : inside₁ = c.enter fun tag => .empty .block tag arm₁.loc)
      (isInside₂ : inside₂ = (c₁.leaveTo c).enter fun tag => .empty .block tag arm₂.loc)
      (acceptedCond : checkExpression c cond = (.ok .boolean, cond'))
      (accepted₁ : checkStatementIn (some inside₁.2) inside₁.1 arm₁ = (.ok (), arm₁', c₁))
      (accepted₂ : checkStatementIn (some inside₂.2) inside₂.1 arm₂ = (.ok (), arm₂', c₂)) :
      StmtAccepted own c ⟨.ifElse, attr, loc, note, [cond, arm₁, arm₂]⟩
        ⟨.ifElse, attr, loc, note, [cond', arm₁', arm₂']⟩ (c₂.leaveTo c)
  | while {attr loc note cond cond' body body' inside c'}
      (isInside : inside = c.enter fun tag => .empty .loop tag body.loc)
      (acceptedCond : checkExpression c cond = (.ok .boolean, cond'))
      (acceptedBody : checkStatementIn (some inside.2) inside.1 body = (.ok (), body', c')) :
      StmtAccepted own c ⟨.while, attr, loc, note, [cond, body]⟩
        ⟨.while, attr, loc, note, [cond', body']⟩ (c'.leaveTo c)
  | returnNothing {attr loc note fn}
      (inFunction : c.nearest? .function = some fn)
      (isVoid : (c.scopes.get fn).result = .void) :
      StmtAccepted own c ⟨.return, attr, loc, note, []⟩ ⟨.return, attr, loc, note, []⟩ c
  | returnValue {attr loc note fn value value'} (inFunction : c.nearest? .function = some fn)
      (hasResult : (c.scopes.get fn).result ≠ .void)
      (accepted : checkExpression c value = (.ok (c.scopes.get fn).result, value')) :
      StmtAccepted own c ⟨.return, attr, loc, note, [value]⟩
        ⟨.return, attr, loc, note, [value']⟩ c
  | break {attr loc loop}
      (inLoop : c.nearest? .loop = some loop) :
      StmtAccepted own c ⟨.break, attr, loc, none, []⟩
        ⟨.break, attr, loc, some ⟨[], some loop⟩, []⟩ c

/-- A block is left with the scopes open that were open in front of it. -/
theorem leaveBlock_eq {own : Option ScopeId} {c c' : Context} {loc : Location} {o : Outcome Unit}
    {ss ss' : List Node} (checked : checkStatements (blockContext own c loc).1 ss = (o, ss', c')) :
    c'.leaveBlock own = c'.leaveTo c := by
  have hwithin := within_checkStatements_all (blockContext own c loc).1 ss
  rw [checked] at hwithin
  cases own with
  | none => exact hwithin.leave_eq
  | some id => exact congrArg (Context.mk c'.scopes · c'.tags) hwithin.stack

/-- An arm or a body in a scope of its own is left with the scopes open that were open in front
of it. -/
theorem leave_eq_of_checkStatementIn {own : Option ScopeId} {c c' : Context}
    {make : Bytes → Scope} {o : Outcome Unit} {n n' : Node}
    (checked : checkStatementIn own (c.enter make).1 n = (o, n', c')) :
    c'.leave = c'.leaveTo c := by
  have hwithin := within_checkStatementIn own (c.enter make).1 n
  rw [checked] at hwithin
  exact hwithin.leave_eq

theorem checkCondition_ok_iff {c : Context} {cond cond' : Node} :
    checkCondition c cond = (.ok (), cond') ↔
      checkExpression c cond = (.ok .boolean, cond') := by
  unfold checkCondition
  rcases checkExpression c cond with ⟨_ | ty, n⟩
  · simp
  · by_cases h : ty = .boolean <;> simp [h]

theorem StmtAccepted.checkStatementIn_eq {own : Option ScopeId} {c c' : Context}
    {n n' : Node} (h : StmtAccepted own c n n' c') :
    checkStatementIn own c n = (.ok (), n', c') := by
  cases h with
  | block accepted =>
    rw [← leaveBlock_eq accepted]
    cases own with
    | none =>
      simp only [blockContext] at accepted
      simp [checkStatementIn, Node.annotate, blockContext, accepted]
    | some id =>
      simp only [blockContext] at accepted
      simp [checkStatementIn, Node.annotate, blockContext, accepted]
  | declaration isType isTop inFunction fresh =>
    simp only [checkStatementIn, checkVariable]
    rw [typedName_ok_iff.mpr ⟨_, rfl, isType, rfl⟩]
    simp [isTop, inFunction, Node.annotate, Context.declare_ok_iff.mpr ⟨fresh, rfl⟩]
  | expression accepted => simp [checkStatementIn, accepted]
  | @call n _ _ isCall accepted =>
    rcases n with ⟨kind, attr, loc, note, children⟩
    simp only at isCall
    subst isCall
    simp [checkStatementIn, accepted]
  | null => simp [checkStatementIn]
  | ifThen isInside acceptedCond acceptedArm =>
    subst isInside
    rw [← leave_eq_of_checkStatementIn acceptedArm]
    simp [checkStatementIn, checkCondition_ok_iff.mpr acceptedCond, acceptedArm]
  | ifElse isInside₁ isInside₂ acceptedCond accepted₁ accepted₂ =>
    subst isInside₁ isInside₂
    have hbehind := leave_eq_of_checkStatementIn accepted₂
    change _ = Context.leaveTo _ c at hbehind
    rw [← leave_eq_of_checkStatementIn accepted₁] at accepted₂
    rw [← hbehind]
    simp [checkStatementIn, checkCondition_ok_iff.mpr acceptedCond, accepted₁, accepted₂]
  | «while» isInside acceptedCond acceptedBody =>
    subst isInside
    rw [← leave_eq_of_checkStatementIn acceptedBody]
    simp [checkStatementIn, checkCondition_ok_iff.mpr acceptedCond, acceptedBody]
  | returnNothing inFunction isVoid =>
    simp [checkStatementIn, checkReturn, inFunction, isVoid]
  | returnValue inFunction hasResult accepted =>
    simp [checkStatementIn, checkReturn, inFunction, hasResult, accepted]
  | «break» inLoop => simp [checkStatementIn, checkBreak, inLoop, Node.annotate]

theorem checkVariable_ok {own : Option ScopeId} {c c' : Context} {n n' : Node}
    (isDeclaration : n.kind = .variableDeclaration)
    (h : checkVariable c n = (.ok (), n', c')) : StmtAccepted own c n n' c' := by
  unfold checkVariable at h
  split at h
  · simp at h
  · rename_i ty id hname
    obtain ⟨t, hch, isType, isId⟩ := typedName_ok_iff.mp hname
    split at h
    · simp at h
    · rename_i top isTop
      split at h
      · simp at h
      · rename_i inFunction
        split at h
        · simp at h
        · rename_i c₁ hdeclare
          split at h
          · simp at h
          · rename_i id' hnote
            obtain ⟨fresh, rfl⟩ := Context.declare_ok_iff.mp hdeclare
            obtain ⟨hfree, rfl⟩ := Node.annotate_ok_iff.mp hnote
            rcases n with ⟨kind, attr, loc, note, children⟩
            rcases id with ⟨idKind, name, nameLoc, nameNote, nameCh⟩
            simp only [ne_eq, Decidable.not_not] at inFunction
            simp only at isDeclaration hch isId hfree
            subst isDeclaration hch isId hfree
            cases h
            exact .declaration isType isTop inFunction fresh

theorem checkReturn_ok {own : Option ScopeId} {c : Context} {n n' : Node}
    (isReturn : n.kind = .return) (h : checkReturn c n = (.ok (), n')) :
    StmtAccepted own c n n' c := by
  rcases n with ⟨kind, attr, loc, note, children⟩
  simp only at isReturn
  subst isReturn
  cases inFunction : c.nearest? .function with
  | none => simp [checkReturn, inFunction] at h
  | some fn =>
    by_cases isVoid : (c.scopes.get fn).result = .void
    · cases children with
      | cons _ _ => simp [checkReturn, inFunction, isVoid] at h
      | nil =>
        simp only [checkReturn, inFunction, isVoid, List.isEmpty_nil, if_true] at h
        cases h
        exact .returnNothing inFunction isVoid
    · match children, h with
      | [], h => simp [checkReturn, inFunction, isVoid] at h
      | [value], h =>
        rcases accepted : checkExpression c value with ⟨_ | got, value'⟩
        · simp [checkReturn, inFunction, isVoid, accepted] at h
        · by_cases hgot : got = (c.scopes.get fn).result
          · subst hgot
            simp only [checkReturn, inFunction, isVoid, accepted, ne_eq, not_true,
              if_false] at h
            cases h
            exact .returnValue inFunction isVoid accepted
          · simp [checkReturn, inFunction, isVoid, accepted, hgot] at h
      | _ :: _ :: _, h => simp [checkReturn, inFunction, isVoid] at h

theorem checkBreak_ok {own : Option ScopeId} {c : Context} {n n' : Node}
    (isBreak : n.kind = .break) (h : checkBreak c n = (.ok (), n')) :
    StmtAccepted own c n n' c := by
  rcases n with ⟨kind, attr, loc, note, children⟩
  simp only at isBreak
  subst isBreak
  unfold checkBreak at h
  split at h
  · simp at h
  · rename_i loop inLoop
    cases children with
    | cons _ _ => simp at h
    | nil =>
      simp only [List.isEmpty_nil, Bool.not_true, Bool.false_eq_true, if_false] at h
      split at h
      · simp at h
      · rename_i hnote
        obtain ⟨hfree, rfl⟩ := Node.annotate_ok_iff.mp hnote
        simp only at hfree
        subst hfree
        cases h
        exact .break inLoop

theorem StmtAccepted.of_checkStatementIn {own : Option ScopeId} {c c' : Context}
    {n n' : Node} (h : checkStatementIn own c n = (.ok (), n', c')) :
    StmtAccepted own c n n' c' := by
  rcases n with ⟨kind, attr, loc, note, children⟩
  cases kind
  all_goals try simp [checkStatementIn] at h; done
  case variableDeclaration =>
    simp only [checkStatementIn] at h
    exact checkVariable_ok rfl h
  case block =>
    have hnote : note = none := by
      cases note with
      | none => rfl
      | some a => simp [checkStatementIn, Node.annotate] at h
    subst hnote
    cases own with
    | none =>
      simp only [checkStatementIn, Node.annotate, Prod.mk.injEq] at h
      obtain ⟨hok, rfl, rfl⟩ := h
      have accepted : checkStatements (blockContext none c loc).1 children = (.ok (), _, _) :=
        Prod.ext hok rfl
      exact (congrArg (StmtAccepted _ c _ _) (leaveBlock_eq accepted)).mpr (.block accepted)
    | some id =>
      simp only [checkStatementIn, Node.annotate, Prod.mk.injEq] at h
      obtain ⟨hok, rfl, rfl⟩ := h
      have accepted : checkStatements (blockContext (some id) c loc).1 children = (.ok (), _, _) :=
        Prod.ext hok rfl
      exact (congrArg (StmtAccepted _ c _ _) (leaveBlock_eq accepted)).mpr (.block accepted)
  case nullStatement =>
    simp only [checkStatementIn] at h
    cases h
    exact .null
  case statementExpression =>
    rw [checkStatementIn.eq_def] at h
    simp only at h
    split at h
    · split at h
      · simp at h
      · cases h
        exact .expression ‹_›
    · simp at h
  case functionInvocation =>
    rw [checkStatementIn.eq_def] at h
    simp only at h
    split at h
    · simp at h
    · cases h
      exact .call rfl ‹_›
  case ifThen =>
    rw [checkStatementIn.eq_def] at h
    simp only at h
    split at h
    · split at h
      · simp at h
      · simp only [Prod.mk.injEq] at h
        obtain ⟨hok, rfl, rfl⟩ := h
        rw [leave_eq_of_checkStatementIn rfl]
        exact .ifThen rfl (checkCondition_ok_iff.mp ‹_›) (Prod.ext hok rfl)
    · simp at h
  case ifElse =>
    rw [checkStatementIn.eq_def] at h
    simp only at h
    split at h
    · split at h
      · simp at h
      · split at h
        · simp at h
        · rename_i accepted₁
          have hbetween := leave_eq_of_checkStatementIn accepted₁
          rw [hbetween] at h
          simp only [Prod.mk.injEq] at h
          obtain ⟨hok, rfl, rfl⟩ := h
          rw [leave_eq_of_checkStatementIn rfl]
          exact .ifElse rfl rfl (checkCondition_ok_iff.mp ‹_›) accepted₁ (Prod.ext hok rfl)
    · simp at h
  case «while» =>
    rw [checkStatementIn.eq_def] at h
    simp only at h
    split at h
    · split at h
      · simp at h
      · simp only [Prod.mk.injEq] at h
        obtain ⟨hok, rfl, rfl⟩ := h
        rw [leave_eq_of_checkStatementIn rfl]
        exact .while rfl (checkCondition_ok_iff.mp ‹_›) (Prod.ext hok rfl)
    · simp at h
  case «return» =>
    simp only [checkStatementIn, Prod.mk.injEq] at h
    obtain ⟨hok, rfl, rfl⟩ := h
    exact checkReturn_ok rfl (Prod.ext hok rfl)
  case «break» =>
    simp only [checkStatementIn, Prod.mk.injEq] at h
    obtain ⟨hok, rfl, rfl⟩ := h
    exact checkBreak_ok rfl (Prod.ext hok rfl)

/-- `StmtAccepted` is the list of all successes of `checkStatementIn`. -/
theorem checkStatementIn_ok_iff {own : Option ScopeId} {c c' : Context} {n n' : Node} :
    checkStatementIn own c n = (.ok (), n', c') ↔ StmtAccepted own c n n' c' :=
  ⟨.of_checkStatementIn, fun h => h.checkStatementIn_eq⟩

theorem checkStatements_nil {c c' : Context} {ss' : List Node} :
    checkStatements c [] = (.ok (), ss', c') ↔ ss' = [] ∧ c' = c := by
  simp [checkStatements, eq_comm]

theorem checkStatements_cons {c c' : Context} {s : Node} {rest ss' : List Node} :
    checkStatements c (s :: rest) = (.ok (), ss', c') ↔
      ∃ s' c₁ rest', checkStatementIn none c s = (.ok (), s', c₁) ∧
        checkStatements c₁ rest = (.ok (), rest', c') ∧ ss' = s' :: rest' := by
  rw [checkStatements]
  rcases checkStatementIn none c s with ⟨_ | ⟨⟩, s', c₁⟩
  · simp
  · rcases h : checkStatements c₁ rest with ⟨o, rest', c₂⟩
    constructor
    · intro heq
      simp only [h] at heq
      cases heq
      exact ⟨s', c₁, rest', rfl, h, rfl⟩
    · rintro ⟨_, _, _, hs, hrest, rfl⟩
      cases hs
      simp only [hrest]

/-! ## Functions -/

theorem checkParameter_ok_iff {fn : ScopeId} {c c' : Context} {p p' : Node} :
    checkParameter fn c p = (.ok (), p', c') ↔
      ∃ t id ty, p.kind = .formalParameter ∧ p.children = [t, id] ∧
        t.kind.valueType? = some ty ∧ id.kind = .id ∧ id.note = none ∧
        (c.scopes.get fn).binds id.attr = false ∧ c' = c.bind fn id.attr ty ∧
        p' = { p with children := [t, { id with note := some ⟨ty.text, some fn⟩ }] } := by
  constructor
  · intro h
    unfold checkParameter at h
    split at h
    · simp at h
    · rename_i hkind
      split at h
      · simp at h
      · rename_i ty id hname
        obtain ⟨t, hch, isType, isId⟩ := typedName_ok_iff.mp hname
        split at h
        · simp at h
        · rename_i hdeclare
          obtain ⟨fresh, rfl⟩ := Context.declare_ok_iff.mp hdeclare
          split at h
          · simp at h
          · rename_i hnote
            obtain ⟨hfree, rfl⟩ := Node.annotate_ok_iff.mp hnote
            cases h
            rw [hch]
            exact ⟨t, id, ty, Node.expect_ok_iff.mp hkind, rfl, isType, isId, hfree, fresh, rfl, rfl⟩
  · rintro ⟨t, id, ty, hkind, hch, isType, isId, hfree, fresh, rfl, rfl⟩
    unfold checkParameter
    rw [Node.expect_ok_iff.mpr hkind, typedName_ok_iff.mpr ⟨t, hch, isType, isId⟩]
    simp [Context.declare_ok_iff.mpr ⟨fresh, rfl⟩, Node.annotate_ok_iff.mpr ⟨hfree, rfl⟩, hch]

theorem checkParameters_nil {fn : ScopeId} {c c' : Context} {ps' : List Node} :
    checkParameters fn c [] = (.ok (), ps', c') ↔ ps' = [] ∧ c' = c := by
  simp [checkParameters, eq_comm]

theorem checkParameters_cons {fn : ScopeId} {c c' : Context} {p : Node}
    {rest ps' : List Node} :
    checkParameters fn c (p :: rest) = (.ok (), ps', c') ↔
      ∃ p' c₁ rest', checkParameter fn c p = (.ok (), p', c₁) ∧
        checkParameters fn c₁ rest = (.ok (), rest', c') ∧ ps' = p' :: rest' := by
  rw [checkParameters]
  rcases checkParameter fn c p with ⟨_ | ⟨⟩, p', c₁⟩
  · simp
  · rcases h : checkParameters fn c₁ rest with ⟨o, rest', c₂⟩
    constructor
    · intro heq
      simp only [h] at heq
      cases heq
      exact ⟨p', c₁, rest', rfl, h, rfl⟩
    · rintro ⟨_, _, _, hp, hrest, rfl⟩
      cases hp
      simp only [hrest]

/-- How the check of a function or entry point ends well. -/
inductive FunctionAccepted (c : Context) : Node → Node → Context → Prop where
  | intro {kind attr loc note resultNode name listAttr listLoc listNote ps ps' bodyAttr bodyLoc
      stmts stmts' result inside c₁ c₂}
      (isInside : inside = c.enter fun tag => .function tag loc result)
      (isResult : resultNode.kind.type? = some result)
      (acceptedParams : checkParameters inside.2 inside.1 ps = (.ok (), ps', c₁))
      (acceptedBody : checkStatements c₁ stmts = (.ok (), stmts', c₂)) :
      FunctionAccepted c
        ⟨kind, attr, loc, note, [resultNode, name,
          ⟨.formalParameterList, listAttr, listLoc, listNote, ps⟩,
          ⟨.block, bodyAttr, bodyLoc, none, stmts⟩]⟩
        ⟨kind, attr, loc, note, [resultNode, name,
          ⟨.formalParameterList, listAttr, listLoc, listNote, ps'⟩,
          ⟨.block, bodyAttr, bodyLoc, some ⟨[], some inside.2⟩, stmts'⟩]⟩ (c₂.leaveTo c)

/-- A function is left with the scopes open that were open in front of it. -/
theorem leave_eq_of_function {c c₁ c₂ : Context} {make : Bytes → Scope} {o : Outcome Unit}
    {ps ps' stmts stmts' : List Node}
    (params : checkParameters (c.enter make).2 (c.enter make).1 ps = (.ok (), ps', c₁))
    (body : checkStatements c₁ stmts = (o, stmts', c₂)) : c₂.leave = c₂.leaveTo c := by
  have hparams : Within (c.enter make).1
      (checkParameters (c.enter make).2 (c.enter make).1 ps).2.2 := within_checkParameters rfl ps
  have hbody := within_checkStatements_all c₁ stmts
  rw [params] at hparams
  rw [body] at hbody
  exact (hparams.trans hbody).leave_eq

/-- `FunctionAccepted` is the list of all successes of `checkFunction`. -/
theorem checkFunction_ok_iff {c c' : Context} {fn fn' : Node} :
    checkFunction c fn = (.ok (), fn', c') ↔ FunctionAccepted c fn fn' c' := by
  constructor
  · intro h
    rcases fn with ⟨kind, attr, loc, note, children⟩
    match children, h with
    | [resultNode, name, ⟨listKind, listAttr, listLoc, listNote, ps⟩,
        ⟨bodyKind, bodyAttr, bodyLoc, bodyNote, stmts⟩], h =>
      unfold checkFunction at h
      simp only at h
      split at h
      · simp at h
      · rename_i hbody
        split at h
        · simp at h
        · rename_i result hresult
          split at h
          · simp at h
          · rename_i hlist
            split at h
            · simp at h
            · rename_i ps' c₁ hparams
              simp only [ne_eq, Decidable.not_not] at hbody hlist
              subst hbody hlist
              cases bodyNote with
              | some a => simp [checkFunctionBody, Node.annotate] at h
              | none =>
                rcases hstmts : checkStatements c₁ stmts with ⟨o, stmts', c₂⟩
                simp only [checkFunctionBody, Node.annotate, hstmts,
                  leave_eq_of_function hparams hstmts] at h
                cases h
                exact .intro rfl (typeOf_ok_iff.mp hresult) hparams hstmts
    | [], h => simp [checkFunction] at h
    | [_], h => simp [checkFunction] at h
    | [_, _], h => simp [checkFunction] at h
    | [_, _, _], h => simp [checkFunction] at h
    | _ :: _ :: _ :: _ :: _ :: _, h => simp [checkFunction] at h
  · rintro ⟨isInside, isResult, acceptedParams, acceptedBody⟩
    subst isInside
    simp [checkFunction, typeOf_ok_iff.mpr isResult, acceptedParams, checkFunctionBody,
      Node.annotate, acceptedBody, leave_eq_of_function acceptedParams acceptedBody]

end Check

end TreeWat
