import TreeWat.Proofs.Check.Shape
set_option autoImplicit false

/-!
# Check: trees with resolved names

The generator reads the notes that the checker leaves on a tree and asks no further, so a
note with another scope would silently be another variable.  The relations of this module
say which notes a tree carries, from the text of the program alone: a variable is the
function's own if a parameter or a declaration in front of it bears its name, a call goes
to a function of the user wherever it is declared, and each nested block is noted with the
scope opened for it.  The local scopes are numbered in the order in which the text opens
them, so the relations count along: `k` is how many were opened in front, and `k'` how many
behind.

Two things follow from the relations alone.  The scopes have the tags of their numbers, so
that no two share one (`Tagged.nodup`), and if the tree conforms to the layouts, each of its
identifiers carries a signature and a scope (`ProgramResolved.idsNoted`).
-/

namespace TreeWat

/-- The operators. -/
def Kind.isOperator : Kind → Bool
  | .binary _ | .unary _ => true
  | _ => false

namespace Check

/-- The tag of the local scope with the given number. -/
def localTag (number : Nat) : Bytes :=
  utf8 "L" ++ Bytes.ofNat (number + 1)

/-! ## Resolved trees -/

/-- An expression in the body of a function and the same with its notes: the type on each
expression, and on each name the scope that binds it. -/
inductive ExprResolved (scopes : Scopes) (f : FunctionScope) (Γ : Names) : Node → Node → Prop where
  | name {attr loc ch ty} (declared : Γ.var? attr = some ty)
      (bound : (scopes.get (f.ownerOf Γ attr)).var? attr = some ty) :
      ExprResolved scopes f Γ ⟨.id, attr, loc, none, ch⟩
        ⟨.id, attr, loc, some ⟨ty.text, some (f.ownerOf Γ attr)⟩, ch⟩
  | literal {kind attr loc ch ty} (isLiteral : kind.literalType? = some ty) :
      ExprResolved scopes f Γ ⟨kind, attr, loc, none, ch⟩
        ⟨kind, attr, loc, some ⟨ty.text, none⟩, ch⟩
  | call {attr loc name nameLoc nameCh listAttr listLoc listNote args args' sig}
      (resolved : Γ.func? name = some sig)
      (bound : (scopes.get (calleeOwner Γ name)).func? name = some sig)
      (typed : HasType Γ ⟨.functionInvocation, attr, loc, none, [⟨.id, name, nameLoc, none, nameCh⟩,
        ⟨.argumentList, listAttr, listLoc, listNote, args⟩]⟩ sig.result)
      (count : args'.length = args.length)
      (arguments : ∀ p ∈ args.zip args', ExprResolved scopes f Γ p.1 p.2) :
      ExprResolved scopes f Γ
        ⟨.functionInvocation, attr, loc, none, [⟨.id, name, nameLoc, none, nameCh⟩,
          ⟨.argumentList, listAttr, listLoc, listNote, args⟩]⟩
        ⟨.functionInvocation, attr, loc, some ⟨sig.result.text, none⟩,
          [⟨.id, name, nameLoc, some ⟨sig.text, some (calleeOwner Γ name)⟩, nameCh⟩,
            ⟨.argumentList, listAttr, listLoc, listNote, args'⟩]⟩
  | operation {kind attr loc operands operands' ty} (isOperator : kind.isOperator = true)
      (typed : HasType Γ ⟨kind, attr, loc, none, operands⟩ ty)
      (count : operands'.length = operands.length)
      (below : ∀ p ∈ operands.zip operands', ExprResolved scopes f Γ p.1 p.2) :
      ExprResolved scopes f Γ ⟨kind, attr, loc, none, operands⟩
        ⟨kind, attr, loc, some ⟨ty.text, none⟩, operands'⟩

mutual

/-- A statement and the same with its notes.  `own` is the scope that an arm of a
conditional or a loop body opened for the statement, which a block then shares, and `loops`
are the scopes of the loops around it, innermost first. -/
inductive StmtResolved (scopes : Scopes) (f : FunctionScope) (Γ : Names) :
    Option Nat → List Nat → Nat → Node → Node → Nat → Prop where
  | block {loops k attr loc ch ch' k'}
      (opened : scopes.opened[k]? = some (.empty .block (localTag k) loc))
      (statements : StmtsResolved scopes f Γ loops (k + 1) ch ch' k') :
      StmtResolved scopes f Γ none loops k ⟨.block, attr, loc, none, ch⟩
        ⟨.block, attr, loc, some ⟨[], some (.opened k)⟩, ch'⟩ k'
  | armBlock {own loops k attr loc ch ch' k'}
      (statements : StmtsResolved scopes f Γ loops k ch ch' k') :
      StmtResolved scopes f Γ (some own) loops k ⟨.block, attr, loc, none, ch⟩
        ⟨.block, attr, loc, some ⟨[], some (.opened own)⟩, ch'⟩ k'
  | expression {own loops k attr loc note e e'} (value : ExprResolved scopes f Γ e e') :
      StmtResolved scopes f Γ own loops k ⟨.statementExpression, attr, loc, note, [e]⟩
        ⟨.statementExpression, attr, loc, note, [e']⟩ k
  | call {own loops k n n'} (isCall : n.kind = .functionInvocation)
      (value : ExprResolved scopes f Γ n n') : StmtResolved scopes f Γ own loops k n n' k
  | null {own loops k attr loc note ch} :
      StmtResolved scopes f Γ own loops k ⟨.nullStatement, attr, loc, note, ch⟩
        ⟨.nullStatement, attr, loc, note, ch⟩ k
  | ifThen {own loops k attr loc note cond cond' arm arm' k'}
      (condition : ExprResolved scopes f Γ cond cond')
      (opened : scopes.opened[k]? = some (.empty .block (localTag k) arm.loc))
      (whenTrue : StmtResolved scopes f Γ (some k) loops (k + 1) arm arm' k') :
      StmtResolved scopes f Γ own loops k ⟨.ifThen, attr, loc, note, [cond, arm]⟩
        ⟨.ifThen, attr, loc, note, [cond', arm']⟩ k'
  | ifElse {own loops k attr loc note cond cond' arm₁ arm₁' k₁ arm₂ arm₂' k'}
      (condition : ExprResolved scopes f Γ cond cond')
      (opened₁ : scopes.opened[k]? = some (.empty .block (localTag k) arm₁.loc))
      (whenTrue : StmtResolved scopes f Γ (some k) loops (k + 1) arm₁ arm₁' k₁)
      (opened₂ : scopes.opened[k₁]? = some (.empty .block (localTag k₁) arm₂.loc))
      (whenFalse : StmtResolved scopes f Γ (some k₁) loops (k₁ + 1) arm₂ arm₂' k') :
      StmtResolved scopes f Γ own loops k ⟨.ifElse, attr, loc, note, [cond, arm₁, arm₂]⟩
        ⟨.ifElse, attr, loc, note, [cond', arm₁', arm₂']⟩ k'
  | while {own loops k attr loc note cond cond' body body' k'}
      (condition : ExprResolved scopes f Γ cond cond')
      (opened : scopes.opened[k]? = some (.empty .loop (localTag k) body.loc))
      (repeated : StmtResolved scopes f Γ (some k) (k :: loops) (k + 1) body body' k') :
      StmtResolved scopes f Γ own loops k ⟨.while, attr, loc, note, [cond, body]⟩
        ⟨.while, attr, loc, note, [cond', body']⟩ k'
  | returnNothing {own loops k attr loc note} :
      StmtResolved scopes f Γ own loops k ⟨.return, attr, loc, note, []⟩
        ⟨.return, attr, loc, note, []⟩ k
  | returnValue {own loops k attr loc note value value'}
      (result : ExprResolved scopes f Γ value value') :
      StmtResolved scopes f Γ own loops k ⟨.return, attr, loc, note, [value]⟩
        ⟨.return, attr, loc, note, [value']⟩ k
  | break {own loop loops k attr loc} :
      StmtResolved scopes f Γ own (loop :: loops) k ⟨.break, attr, loc, none, []⟩
        ⟨.break, attr, loc, some ⟨[], some (.opened loop)⟩, []⟩ k

/-- The statements of a block, and the same with their notes. -/
inductive StmtsResolved (scopes : Scopes) (f : FunctionScope) (Γ : Names) :
    List Nat → Nat → List Node → List Node → Nat → Prop where
  | nil {loops k} : StmtsResolved scopes f Γ loops k [] [] k
  | cons {loops k s s' k₁ rest rest' k'} (first : StmtResolved scopes f Γ none loops k s s' k₁)
      (others : StmtsResolved scopes f Γ loops k₁ rest rest' k') :
      StmtsResolved scopes f Γ loops k (s :: rest) (s' :: rest') k'

end

/-- The direct statements of the outermost block: a declaration brings its name to the
statements behind it. -/
inductive BodyResolved (scopes : Scopes) (f : FunctionScope) :
    Names → Nat → List Node → List Node → Nat → Prop where
  | nil {Γ k} : BodyResolved scopes f Γ k [] [] k
  | declaration {Γ k attr loc note t name nameLoc nameCh ty rest rest' k'}
      (isType : t.kind.valueType? = some ty)
      (others : BodyResolved scopes f (Γ.declare name ty) k rest rest' k') :
      BodyResolved scopes f Γ k
        (⟨.variableDeclaration, attr, loc, note, [t, ⟨.id, name, nameLoc, none, nameCh⟩]⟩ :: rest)
        (⟨.variableDeclaration, attr, loc, note,
          [t, ⟨.id, name, nameLoc, some ⟨ty.text, some (.opened f.number)⟩, nameCh⟩]⟩ :: rest') k'
  | statement {Γ k s s' k₁ rest rest' k'} (first : StmtResolved scopes f Γ none [] k s s' k₁)
      (others : BodyResolved scopes f Γ k₁ rest rest' k') :
      BodyResolved scopes f Γ k (s :: rest) (s' :: rest') k'

/-- Parameters, the same with the given scope on their names, and what they bind. -/
inductive ParamsResolved (own : ScopeId) : List Node → List Node → List (Bytes × Ty) → Prop where
  | nil : ParamsResolved own [] [] []
  | cons {attr loc note t name nameLoc nameCh ty rest rest' params}
      (isType : t.kind.valueType? = some ty) (others : ParamsResolved own rest rest' params) :
      ParamsResolved own
        (⟨.formalParameter, attr, loc, note, [t, ⟨.id, name, nameLoc, none, nameCh⟩]⟩ :: rest)
        (⟨.formalParameter, attr, loc, note,
          [t, ⟨.id, name, nameLoc, some ⟨ty.text, some own⟩, nameCh⟩]⟩ :: rest')
        ((name, ty) :: params)

/-- A function or entry point and the same with its notes, with the given text on its name.
The first scope it opens is its own, and binds the parameters and the variables that its
body declares. -/
inductive FunctionResolved (scopes : Scopes) (globals : List (Bytes × Ty))
    (funcs : List (Bytes × Signature)) :
    Nat → Node → Node → Bytes → Signature → Bytes → Nat → Prop where
  | intro {k kind attr loc note resultNode name text nameLoc nameCh listAttr listLoc listNote ps
      ps' bodyAttr bodyLoc ss ss' result params f k'} (isOwn : f = ⟨k, localTag k, loc, result⟩)
      (isResult : resultNode.kind.type? = some result)
      (opened : scopes.opened[k]? = some (f.scope (params ++ declaredBy ss)))
      (distinct : ((params ++ declaredBy ss).map Prod.fst).Nodup)
      (parameters : ParamsResolved (.opened k) ps ps' params)
      (body : BodyResolved scopes f ⟨params, globals, funcs⟩ (k + 1) ss ss' k') :
      FunctionResolved scopes globals funcs k
        ⟨kind, attr, loc, note, [resultNode, ⟨.id, name, nameLoc, none, nameCh⟩,
          ⟨.formalParameterList, listAttr, listLoc, listNote, ps⟩,
          ⟨.block, bodyAttr, bodyLoc, none, ss⟩]⟩
        ⟨kind, attr, loc, note, [resultNode,
          ⟨.id, name, nameLoc, some ⟨text, some .globals⟩, nameCh⟩,
          ⟨.formalParameterList, listAttr, listLoc, listNote, ps'⟩,
          ⟨.block, bodyAttr, bodyLoc, some ⟨[], some (.opened k)⟩, ss'⟩]⟩
        name ⟨params.map Prod.snd, result⟩ text k'

/-- Global declarations, the same with their notes, and the variables and functions that
they declare, in this order. -/
inductive DeclsResolved (scopes : Scopes) (globals : List (Bytes × Ty))
    (funcs : List (Bytes × Signature)) :
    Nat → List Node → List Node → List (Bytes × Ty) → List (Bytes × Signature) → Nat → Prop where
  | nil {k} : DeclsResolved scopes globals funcs k [] [] [] [] k
  | entryPoint {k d d' name sig ds ds' vs fs k₁ k'} (isEntry : d.kind = .entryPointDeclaration)
      (isVoid : sig.result = .void)
      (function : FunctionResolved scopes globals funcs k d d' name sig (name ++ utf8 "()") k₁)
      (others : DeclsResolved scopes globals funcs k₁ ds ds' vs fs k') :
      DeclsResolved scopes globals funcs k (d :: ds) (d' :: ds') vs fs k'
  | function {k d d' name sig ds ds' vs fs k₁ k'} (isFunction : d.kind = .functionDeclaration)
      (function : FunctionResolved scopes globals funcs k d d' name sig sig.text k₁)
      (others : DeclsResolved scopes globals funcs k₁ ds ds' vs fs k') :
      DeclsResolved scopes globals funcs k (d :: ds) (d' :: ds') vs ((name, sig) :: fs) k'
  | global {k attr loc note t name nameLoc nameCh ty ds ds' vs fs k'}
      (isType : t.kind.valueType? = some ty)
      (others : DeclsResolved scopes globals funcs k ds ds' vs fs k') :
      DeclsResolved scopes globals funcs k
        (⟨.variableDeclaration, attr, loc, note, [t, ⟨.id, name, nameLoc, none, nameCh⟩]⟩ :: ds)
        (⟨.variableDeclaration, attr, loc, note,
          [t, ⟨.id, name, nameLoc, some ⟨ty.text, some .globals⟩, nameCh⟩]⟩ :: ds')
        ((name, ty) :: vs) fs k'

/-- A program and the same with its notes.  The scope of the user's declarations binds what
is declared, each name once, and the local scopes are those that the text opens. -/
inductive ProgramResolved (scopes : Scopes) : Node → Node → Prop where
  | intro {attr loc note ds ds'} (builtins : scopes.builtins = .builtins)
      (varNames : (scopes.globals.vars.map Prod.fst).Nodup)
      (funcNames : (scopes.globals.funcs.map Prod.fst).Nodup)
      (declarations : DeclsResolved scopes scopes.globals.vars scopes.globals.funcs 0 ds ds'
        scopes.globals.vars scopes.globals.funcs scopes.opened.length) :
      ProgramResolved scopes ⟨.globalDeclarations, attr, loc, note, ds⟩
        ⟨.globalDeclarations, attr, loc, note, ds'⟩

/-! ## Tags -/

section Tags

variable {scopes : Scopes} {f : FunctionScope}

/-- The scopes from `k` up to `k'` have the tags of their numbers. -/
def Tagged (scopes : Scopes) (k k' : Nat) : Prop :=
  k ≤ k' ∧ ∀ j, k ≤ j → j < k' → (scopes.opened[j]?).map Scope.tag = some (localTag j)

namespace Tagged

theorem refl (scopes : Scopes) (k : Nat) : Tagged scopes k k :=
  ⟨Nat.le_refl k, fun _ hle hlt => absurd hlt (Nat.not_lt.mpr hle)⟩

theorem trans {k₁ k₂ k₃ : Nat} (h₁ : Tagged scopes k₁ k₂) (h₂ : Tagged scopes k₂ k₃) :
    Tagged scopes k₁ k₃ := by
  refine ⟨Nat.le_trans h₁.1 h₂.1, fun j hle hlt => ?_⟩
  rcases Nat.lt_or_ge j k₂ with hfirst | hsecond
  · exact h₁.2 j hle hfirst
  · exact h₂.2 j hsecond hlt

/-- One scope with the tag of its number in front. -/
theorem cons {k k' : Nat} {s : Scope} (opened : scopes.opened[k]? = some s)
    (tag : s.tag = localTag k) (h : Tagged scopes (k + 1) k') : Tagged scopes k k' := by
  refine ⟨Nat.le_of_succ_le h.1, fun j hle hlt => ?_⟩
  rcases Nat.eq_or_lt_of_le hle with rfl | hlater
  · rw [opened, Option.map_some, tag]
  · exact h.2 j hlater hlt

end Tagged

mutual

theorem StmtResolved.tagged {Γ : Names} {own : Option Nat} {loops : List Nat} {k k' : Nat}
    {n n' : Node} (h : StmtResolved scopes f Γ own loops k n n' k') : Tagged scopes k k' := by
  cases h with
  | block opened statements => exact statements.tagged.cons opened rfl
  | armBlock statements => exact statements.tagged
  | ifThen _ opened whenTrue => exact whenTrue.tagged.cons opened rfl
  | ifElse _ opened₁ whenTrue opened₂ whenFalse =>
    exact (whenTrue.tagged.cons opened₁ rfl).trans (whenFalse.tagged.cons opened₂ rfl)
  | «while» _ opened repeated => exact repeated.tagged.cons opened rfl
  | _ => exact .refl scopes _

theorem StmtsResolved.tagged {Γ : Names} {loops : List Nat} {k k' : Nat} {ss ss' : List Node}
    (h : StmtsResolved scopes f Γ loops k ss ss' k') : Tagged scopes k k' := by
  cases h with
  | nil => exact .refl scopes _
  | cons first others => exact first.tagged.trans others.tagged

end

theorem BodyResolved.tagged {Γ : Names} {k k' : Nat} {ss ss' : List Node}
    (h : BodyResolved scopes f Γ k ss ss' k') : Tagged scopes k k' := by
  induction h with
  | nil => exact .refl scopes _
  | declaration _ _ ih => exact ih
  | statement first _ ih => exact first.tagged.trans ih

theorem FunctionResolved.tagged {globals : List (Bytes × Ty)} {funcs : List (Bytes × Signature)}
    {k k' : Nat} {d d' : Node} {name text : Bytes} {sig : Signature}
    (h : FunctionResolved scopes globals funcs k d d' name sig text k') : Tagged scopes k k' := by
  cases h with
  | intro isOwn _ opened _ _ body =>
    subst isOwn
    exact body.tagged.cons opened rfl

theorem DeclsResolved.tagged {globals : List (Bytes × Ty)} {funcs : List (Bytes × Signature)}
    {k k' : Nat} {ds ds' : List Node} {vs : List (Bytes × Ty)} {fs : List (Bytes × Signature)}
    (h : DeclsResolved scopes globals funcs k ds ds' vs fs k') : Tagged scopes k k' := by
  induction h with
  | nil => exact .refl scopes _
  | entryPoint _ _ function _ ih => exact function.tagged.trans ih
  | function _ function _ ih => exact function.tagged.trans ih
  | global _ _ ih => exact ih

theorem ProgramResolved.isBuiltins {root root' : Node} (h : ProgramResolved scopes root root') :
    scopes.builtins = .builtins := by
  cases h with
  | intro builtins _ _ _ => exact builtins

theorem ProgramResolved.tagged {root root' : Node} (h : ProgramResolved scopes root root') :
    Tagged scopes 0 scopes.opened.length := by
  cases h with
  | intro _ _ _ declarations => exact declarations.tagged

theorem localTag_injective : Function.Injective localTag := by
  intro i j h
  have hnumber : i + 1 = j + 1 := Bytes.ofNat_injective (List.append_cancel_left h)
  exact Nat.add_right_cancel hnumber

/-- No two local scopes share their tag. -/
theorem Tagged.nodup (h : Tagged scopes 0 scopes.opened.length) :
    (scopes.opened.map Scope.tag).Nodup := by
  have hmap : scopes.opened.map Scope.tag =
      (List.range scopes.opened.length).map localTag := by
    refine List.ext_getElem? fun j => ?_
    rw [List.getElem?_map, List.getElem?_map]
    rcases Nat.lt_or_ge j scopes.opened.length with hlt | hge
    · rw [h.2 j (Nat.zero_le j) hlt, List.getElem?_range hlt, Option.map_some]
    · rw [List.getElem?_eq_none hge, List.getElem?_eq_none (by simpa using hge)]
      rfl
  rw [hmap]
  exact List.pairwise_map.mpr
    (List.nodup_range.imp fun distinct htag => distinct (localTag_injective htag))

end Tags

end Check

/-! ## Identifiers -/

namespace Node

/-- Each identifier of the tree carries a signature and a scope. -/
def IdsNoted (n : Node) : Prop :=
  ∀ m ∈ n.preorder, m.kind = .id → ∃ sig scope, m.note = some ⟨sig, some scope⟩

section IdsNoted

variable {kind : Kind} {attr : Bytes} {loc : Location} {note : Option Annotation}
  {children : List Node}

theorem idsNoted_branch (other : kind ≠ .id) (below : ∀ c ∈ children, c.IdsNoted) :
    (⟨kind, attr, loc, note, children⟩ : Node).IdsNoted := by
  intro m hm isId
  rcases mem_preorder.mp hm with rfl | hm
  · exact absurd isId other
  · obtain ⟨c, hc, hm⟩ := mem_preorderAll.mp hm
    exact below c hc m hm isId

theorem idsNoted_id {sig : Bytes} {scope : ScopeId} :
    (⟨.id, attr, loc, some ⟨sig, some scope⟩, []⟩ : Node).IdsNoted := by
  intro m hm _
  rcases mem_preorder.mp hm with rfl | hm
  · exact ⟨sig, scope, rfl⟩
  · obtain ⟨c, hc, -⟩ := mem_preorderAll.mp hm
    cases hc

theorem Conforms.self {n : Node} (h : n.Conforms) : n.LaidOut :=
  (conforms_iff.mp h).1

theorem Conforms.child {n c : Node} (h : n.Conforms) (hc : c ∈ n.children) : c.Conforms :=
  (conforms_iff.mp h).2 c hc

/-- A leaf that is no identifier. -/
theorem Conforms.idsNoted_leaf {n : Node} (h : n.Conforms) (uncounted : n.kind.isUncounted = true)
    (other : n.kind ≠ .id) : n.IdsNoted := by
  rcases n with ⟨kind, attr, loc, note, children⟩
  obtain rfl : children = [] := h.self.childless uncounted
  exact idsNoted_branch other (by simp)

/-- A type keyword and an identifier with its note. -/
theorem Conforms.idsNoted_typedName {t : Node} {name sig : Bytes} {nameLoc : Location}
    {nameCh : List Node} {ty : Ty} {scope : ScopeId}
    (h : (⟨kind, attr, loc, note, [t, ⟨.id, name, nameLoc, none, nameCh⟩]⟩ : Node).Conforms)
    (other : kind ≠ .id) (isType : t.kind.valueType? = some ty) :
    (⟨kind, attr, loc, note,
      [t, ⟨.id, name, nameLoc, some ⟨sig, some scope⟩, nameCh⟩]⟩ : Node).IdsNoted := by
  have htype := h.child List.mem_cons_self
  have hname := h.child (List.mem_cons_of_mem _ List.mem_cons_self)
  obtain rfl : nameCh = [] := hname.self.childless rfl
  have noType : t.kind ≠ .id := by
    intro isId
    rw [isId] at isType
    cases isType
  refine idsNoted_branch other ?_
  simpa using ⟨htype.idsNoted_leaf (Kind.isValueType_of_valueType? isType).2 noType, idsNoted_id⟩

end IdsNoted

end Node

namespace Check

section Identifiers

variable {scopes : Scopes} {f : FunctionScope}

theorem getElem_mem_zip {α β : Type} {as : List α} {bs : List β} {i : Nat} (ha : i < as.length)
    (hb : i < bs.length) : (as[i], bs[i]) ∈ as.zip bs := by
  have hzip : i < (as.zip bs).length := by
    rw [List.length_zip]
    exact Nat.lt_min.mpr ⟨ha, hb⟩
  rw [← List.getElem_zip (h := hzip)]
  exact List.getElem_mem hzip

theorem exists_mem_zip {α β : Type} {as : List α} {bs : List β} (count : bs.length = as.length)
    {b : β} (hb : b ∈ bs) : ∃ a ∈ as, (a, b) ∈ as.zip bs := by
  obtain ⟨i, hi, rfl⟩ := List.getElem_of_mem hb
  have hlt : i < as.length := count ▸ hi
  exact ⟨as[i], List.getElem_mem hlt, getElem_mem_zip hlt hi⟩

theorem ExprResolved.idsNoted {Γ : Names} {n n' : Node} (h : ExprResolved scopes f Γ n n')
    (conforms : n.Conforms) : n'.IdsNoted := by
  induction h with
  | name declared bound =>
    obtain rfl := conforms.self.childless rfl
    exact Node.idsNoted_id
  | @literal kind _ _ _ _ isLiteral =>
    obtain rfl := conforms.self.childless (Kind.isExpression_of_literalType? isLiteral).2
    refine Node.idsNoted_branch ?_ (by simp)
    rintro rfl
    cases isLiteral
  | @call _ _ name nameLoc nameCh listAttr listLoc listNote args args' sig _ _ _ count _ ih =>
    have hname := conforms.child List.mem_cons_self
    have hlist := conforms.child (List.mem_cons_of_mem _ List.mem_cons_self)
    obtain rfl : nameCh = [] := hname.self.childless rfl
    have hargs : ∀ a' ∈ args', a'.IdsNoted := by
      intro a' ha'
      obtain ⟨a, ha, hzip⟩ := exists_mem_zip count ha'
      exact ih (a, a') hzip (hlist.child ha)
    refine Node.idsNoted_branch (by simp) ?_
    simpa using ⟨Node.idsNoted_id, Node.idsNoted_branch (by simp) hargs⟩
  | @operation kind _ _ operands operands' _ isOperator _ count _ ih =>
    refine Node.idsNoted_branch ?_ ?_
    · rintro rfl
      cases isOperator
    · intro e' he'
      obtain ⟨e, he, hzip⟩ := exists_mem_zip count he'
      exact ih (e, e') hzip (conforms.child he)

mutual

theorem StmtResolved.idsNoted {Γ : Names} {own : Option Nat} {loops : List Nat} {k k' : Nat}
    {n n' : Node} (h : StmtResolved scopes f Γ own loops k n n' k') (conforms : n.Conforms) :
    n'.IdsNoted := by
  cases h with
  | block _ statements =>
    exact Node.idsNoted_branch (by simp) (statements.idsNoted fun s hs => conforms.child hs)
  | armBlock statements =>
    exact Node.idsNoted_branch (by simp) (statements.idsNoted fun s hs => conforms.child hs)
  | expression value =>
    have hvalue := value.idsNoted (conforms.child (by simp))
    exact Node.idsNoted_branch (by simp) (by simpa using hvalue)
  | call _ value => exact value.idsNoted conforms
  | null => exact conforms.idsNoted_leaf rfl (by simp)
  | ifThen condition _ whenTrue =>
    have hcond := condition.idsNoted (conforms.child (by simp))
    have htrue := whenTrue.idsNoted (conforms.child (by simp))
    exact Node.idsNoted_branch (by simp) (by simpa using ⟨hcond, htrue⟩)
  | ifElse condition _ whenTrue _ whenFalse =>
    have hcond := condition.idsNoted (conforms.child (by simp))
    have htrue := whenTrue.idsNoted (conforms.child (by simp))
    have hfalse := whenFalse.idsNoted (conforms.child (by simp))
    exact Node.idsNoted_branch (by simp) (by simpa using ⟨hcond, htrue, hfalse⟩)
  | «while» condition _ repeated =>
    have hcond := condition.idsNoted (conforms.child (by simp))
    have hbody := repeated.idsNoted (conforms.child (by simp))
    exact Node.idsNoted_branch (by simp) (by simpa using ⟨hcond, hbody⟩)
  | returnNothing => exact Node.idsNoted_branch (by simp) (by simp)
  | returnValue result =>
    have hvalue := result.idsNoted (conforms.child (by simp))
    exact Node.idsNoted_branch (by simp) (by simpa using hvalue)
  | «break» => exact Node.idsNoted_branch (by simp) (by simp)

theorem StmtsResolved.idsNoted {Γ : Names} {loops : List Nat} {k k' : Nat} {ss ss' : List Node}
    (h : StmtsResolved scopes f Γ loops k ss ss' k') (conforms : ∀ s ∈ ss, s.Conforms) :
    ∀ s' ∈ ss', s'.IdsNoted := by
  cases h with
  | nil => simp
  | cons first others =>
    exact List.forall_mem_cons.mpr ⟨first.idsNoted (conforms _ List.mem_cons_self),
      others.idsNoted fun s hs => conforms s (List.mem_cons_of_mem _ hs)⟩

end

theorem BodyResolved.idsNoted {Γ : Names} {k k' : Nat} {ss ss' : List Node}
    (h : BodyResolved scopes f Γ k ss ss' k') (conforms : ∀ s ∈ ss, s.Conforms) :
    ∀ s' ∈ ss', s'.IdsNoted := by
  induction h with
  | nil => simp
  | declaration isType _ ih =>
    have hfirst := conforms _ List.mem_cons_self
    exact List.forall_mem_cons.mpr ⟨hfirst.idsNoted_typedName (by simp) isType,
      ih fun s hs => conforms s (List.mem_cons_of_mem _ hs)⟩
  | statement first _ ih =>
    exact List.forall_mem_cons.mpr ⟨first.idsNoted (conforms _ List.mem_cons_self),
      ih fun s hs => conforms s (List.mem_cons_of_mem _ hs)⟩

theorem ParamsResolved.idsNoted {own : ScopeId} {ps ps' : List Node} {params : List (Bytes × Ty)}
    (h : ParamsResolved own ps ps' params) (conforms : ∀ p ∈ ps, p.Conforms) :
    ∀ p' ∈ ps', p'.IdsNoted := by
  induction h with
  | nil => simp
  | cons isType _ ih =>
    have hfirst := conforms _ List.mem_cons_self
    exact List.forall_mem_cons.mpr ⟨hfirst.idsNoted_typedName (by simp) isType,
      ih fun p hp => conforms p (List.mem_cons_of_mem _ hp)⟩

theorem FunctionResolved.idsNoted {globals : List (Bytes × Ty)} {funcs : List (Bytes × Signature)}
    {k k' : Nat} {d d' : Node} {name text : Bytes} {sig : Signature}
    (h : FunctionResolved scopes globals funcs k d d' name sig text k')
    (isFunction : d.kind = .functionDeclaration ∨ d.kind = .entryPointDeclaration)
    (conforms : d.Conforms) : d'.IdsNoted := by
  cases h with
  | intro _ isResult _ _ parameters body =>
    have hresult := conforms.child List.mem_cons_self
    have hname := conforms.child (List.mem_cons_of_mem _ List.mem_cons_self)
    have hlist := conforms.child
      (List.mem_cons_of_mem _ (List.mem_cons_of_mem _ List.mem_cons_self))
    have hbody := conforms.child
      (List.mem_cons_of_mem _ (List.mem_cons_of_mem _ (List.mem_cons_of_mem _ List.mem_cons_self)))
    obtain rfl := hname.self.childless rfl
    have hparams := parameters.idsNoted fun p hp => hlist.child hp
    have hstmts := body.idsNoted fun s hs => hbody.child hs
    have noType : ∀ {kind : Kind} {ty : Ty}, kind.type? = some ty → kind ≠ .id := by
      rintro _ _ isType rfl
      cases isType
    have isOther : ∀ {kind : Kind},
        kind = .functionDeclaration ∨ kind = .entryPointDeclaration → kind ≠ .id := by
      rintro _ (rfl | rfl)
      · simp
      · simp
    refine Node.idsNoted_branch (isOther isFunction) ?_
    simp only [List.forall_mem_cons]
    exact ⟨hresult.idsNoted_leaf (Kind.isType_of_type? isResult).2 (noType isResult),
      Node.idsNoted_id, Node.idsNoted_branch (by simp) hparams,
      Node.idsNoted_branch (by simp) hstmts, by simp⟩

theorem DeclsResolved.idsNoted {globals : List (Bytes × Ty)} {funcs : List (Bytes × Signature)}
    {k k' : Nat} {ds ds' : List Node} {vs : List (Bytes × Ty)} {fs : List (Bytes × Signature)}
    (h : DeclsResolved scopes globals funcs k ds ds' vs fs k') (conforms : ∀ d ∈ ds, d.Conforms) :
    ∀ d' ∈ ds', d'.IdsNoted := by
  induction h with
  | nil => simp
  | entryPoint isEntry _ function _ ih =>
    exact List.forall_mem_cons.mpr
      ⟨function.idsNoted (.inr isEntry) (conforms _ List.mem_cons_self),
        ih fun d hd => conforms d (List.mem_cons_of_mem _ hd)⟩
  | function isFunction function _ ih =>
    exact List.forall_mem_cons.mpr
      ⟨function.idsNoted (.inl isFunction) (conforms _ List.mem_cons_self),
        ih fun d hd => conforms d (List.mem_cons_of_mem _ hd)⟩
  | global isType _ ih =>
    have hfirst := conforms _ List.mem_cons_self
    exact List.forall_mem_cons.mpr ⟨hfirst.idsNoted_typedName (by simp) isType,
      ih fun d hd => conforms d (List.mem_cons_of_mem _ hd)⟩

/-- In a program that conforms to the layouts, each identifier gets a signature and a
scope. -/
theorem ProgramResolved.idsNoted {root root' : Node} (h : ProgramResolved scopes root root')
    (layout : root.IsProgram) : root'.IdsNoted := by
  cases h with
  | intro _ _ _ declarations =>
    exact Node.idsNoted_branch (by simp)
      (declarations.idsNoted fun d hd => layout.conforms.child hd)

end Identifiers

end Check

end TreeWat
