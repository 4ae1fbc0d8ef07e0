import TreeWat.Proofs.Tree
set_option autoImplicit false

/-!
# Loops: the `while` statements of a program in source order

The checker knows the loops around a statement from its stack of scopes, the generator from
a list of label numbers.  What both have to agree with is the text: the statements of a
program in source order, each with the number of `while` statements in front of it and the
numbers of those around it (`programSites`).

Main statement: the `while` statements of a program have the numbers 0, 1, 2 and so on, in
source order (`programSites_numbers`).  `SameLoops` compares two trees by no more than this,
so that notes do not count.
-/

namespace TreeWat

/-- A statement in its place in a program. -/
structure Site where
  /-- The index among the children, on each level from the root down. -/
  place : List Nat
  node : Node
  /-- How many `while` statements begin in front of it in the program.  For a `while`
  statement this is its own number. -/
  number : Nat
  /-- The numbers of the `while` statements around it, innermost first. -/
  loops : List Nat

/-- A statement without its notes and operands: its place and kind, and the loops. -/
def Site.outline (site : Site) : List Nat × Kind × Nat × List Nat :=
  (site.place, site.node.kind, site.number, site.loops)

/-- The numbers of the `while` statements among the given statements. -/
def whileNumbers (ss : List Site) : List Nat :=
  (ss.filter (·.node.kind = .while)).map Site.number

@[simp] theorem whileNumbers_append (ss₁ ss₂ : List Site) :
    whileNumbers (ss₁ ++ ss₂) = whileNumbers ss₁ ++ whileNumbers ss₂ := by
  simp [whileNumbers]

theorem whileNumbers_while {site : Site} {rest : List Site} (h : site.node.kind = .while) :
    whileNumbers (site :: rest) = site.number :: whileNumbers rest := by
  simp [whileNumbers, h]

theorem whileNumbers_other {site : Site} {rest : List Site} (h : site.node.kind ≠ .while) :
    whileNumbers (site :: rest) = whileNumbers rest := by
  simp [whileNumbers, h]

namespace Node

mutual

/-- How many `while` statements a statement holds. -/
def whiles (n : Node) : Nat :=
  match n with
  | ⟨kind, _, _, _, children⟩ =>
    match kind, children with
    | .block, children => whilesAll children
    | .ifThen, _ :: arm :: _ => whiles arm
    | .ifElse, _ :: arm₁ :: arm₂ :: _ => whiles arm₁ + whiles arm₂
    | .while, _ :: body :: _ => 1 + whiles body
    | .while, _ => 1
    | _, _ => 0

/-- How many `while` statements a list of statements holds. -/
def whilesAll : List Node → Nat
  | [] => 0
  | s :: rest => whiles s + whilesAll rest

end

mutual

/-- A statement and those in it, in source order, with the given loops around, the given
number of `while` statements in front and the given place. -/
def sites (loops : List Nat) (number : Nat) (place : List Nat) (n : Node) : List Site :=
  match n with
  | ⟨kind, attr, loc, note, children⟩ =>
    ⟨place, ⟨kind, attr, loc, note, children⟩, number, loops⟩ ::
      match kind, children with
      | .block, children => sitesAll loops number place 0 children
      | .ifThen, _ :: arm :: _ => sites loops number (place ++ [1]) arm
      | .ifElse, _ :: arm₁ :: arm₂ :: _ =>
        sites loops number (place ++ [1]) arm₁ ++
          sites loops (number + whiles arm₁) (place ++ [2]) arm₂
      | .while, _ :: body :: _ => sites (number :: loops) (number + 1) (place ++ [1]) body
      | _, _ => []

/-- The same for the statements of a block, from the one with index `i` on. -/
def sitesAll (loops : List Nat) (number : Nat) (place : List Nat) (i : Nat) :
    List Node → List Site
  | [] => []
  | s :: rest =>
    sites loops number (place ++ [i]) s ++ sitesAll loops (number + whiles s) place (i + 1) rest

end

/-- The body of a function or entry point. -/
def functionBody? (d : Node) : Option Node :=
  if d.kind = .functionDeclaration ∨ d.kind = .entryPointDeclaration then d.children[3]? else none

/-- How many `while` statements the bodies of a list of declarations hold. -/
def whilesOf : List Node → Nat
  | [] => 0
  | d :: rest => (match d.functionBody? with | some body => body.whiles | none => 0) + whilesOf rest

/-- The statements in the bodies of a list of declarations, from the one with index `i` on. -/
def sitesOf (number i : Nat) : List Node → List Site
  | [] => []
  | d :: rest =>
    match d.functionBody? with
    | some body => body.sites [] number [i, 3] ++ sitesOf (number + body.whiles) (i + 1) rest
    | none => sitesOf number (i + 1) rest

/-- The statements of a program. -/
def programSites (root : Node) : List Site :=
  sitesOf 0 0 root.children

/-! ## Numbers -/

theorem sitesAll_numbers {ss : List Node}
    (each : ∀ s ∈ ss, ∀ loops number place,
      whileNumbers (s.sites loops number place) = List.range' number s.whiles)
    (loops : List Nat) (number : Nat) (place : List Nat) (i : Nat) :
    whileNumbers (sitesAll loops number place i ss) = List.range' number (whilesAll ss) := by
  induction ss generalizing number i with
  | nil => rfl
  | cons s rest ih =>
    rw [sitesAll, whilesAll, whileNumbers_append, each s List.mem_cons_self,
      ih (fun s hs => each s (List.mem_cons_of_mem _ hs)), List.range'_append_1]

/-- The `while` statements in a statement are numbered on from the given number. -/
theorem sites_numbers (n : Node) : ∀ loops number place,
    whileNumbers (n.sites loops number place) = List.range' number n.whiles := by
  induction n using Node.induction with
  | step n ih =>
    intro loops number place
    rcases n with ⟨kind, attr, loc, note, children⟩
    have each : ∀ c ∈ children, ∀ loops number place,
        whileNumbers (c.sites loops number place) = List.range' number c.whiles :=
      fun c hc => ih c (mem_descendants_of_child hc)
    cases kind
    case block =>
      rw [sites, whiles, whileNumbers_other (by simp)]
      exact sitesAll_numbers each loops number place 0
    case ifThen =>
      rcases children with _ | ⟨cond, _ | ⟨arm, rest⟩⟩
      · rfl
      · rfl
      · rw [sites, whiles, whileNumbers_other (by simp)]
        exact each arm (by simp) _ _ _
    case ifElse =>
      rcases children with _ | ⟨cond, _ | ⟨arm₁, _ | ⟨arm₂, rest⟩⟩⟩
      · rfl
      · rfl
      · rfl
      · rw [sites, whiles, whileNumbers_other (by simp)]
        rw [whileNumbers_append, each arm₁ (by simp), each arm₂ (by simp), List.range'_append_1]
    case «while» =>
      rcases children with _ | ⟨cond, _ | ⟨body, rest⟩⟩
      · rfl
      · rfl
      · rw [sites, whiles, whileNumbers_while rfl]
        dsimp only
        rw [each body (by simp), Nat.add_comm 1, List.range'_succ]
    all_goals rfl

theorem sitesOf_numbers (ds : List Node) (number i : Nat) :
    whileNumbers (sitesOf number i ds) = List.range' number (whilesOf ds) := by
  induction ds generalizing number i with
  | nil => rfl
  | cons d rest ih =>
    rw [sitesOf, whilesOf]
    cases d.functionBody? with
    | none =>
      dsimp only
      rw [ih, Nat.zero_add]
    | some body =>
      dsimp only
      rw [whileNumbers_append, sites_numbers, ih, List.range'_append_1]

/-- The `while` statements of a program have the numbers from 0 on, in source order. -/
theorem programSites_numbers (root : Node) :
    whileNumbers root.programSites = List.range (whilesOf root.children) := by
  rw [programSites, sitesOf_numbers, List.range_eq_range']

/-! ## Outlines -/

/-- The two statements have the same outline, wherever they stand. -/
structure SameLoops (n n' : Node) : Prop where
  whiles : n'.whiles = n.whiles
  sites : ∀ loops number place,
    (n'.sites loops number place).map Site.outline = (n.sites loops number place).map Site.outline

/-- The same for the statements of two blocks. -/
structure SameLoopsAll (ss ss' : List Node) : Prop where
  whiles : whilesAll ss' = whilesAll ss
  sites : ∀ loops number place i, (sitesAll loops number place i ss').map Site.outline =
    (sitesAll loops number place i ss).map Site.outline

/-- The same for two lists of declarations. -/
structure SameLoopsOf (ds ds' : List Node) : Prop where
  whiles : whilesOf ds' = whilesOf ds
  sites : ∀ number i,
    (sitesOf number i ds').map Site.outline = (sitesOf number i ds).map Site.outline

section SameLoops

variable {attr attr' : Bytes} {loc loc' : Location} {note note' : Option Annotation}

/-- Statements of the same kind that hold no others. -/
theorem SameLoops.single {n n' : Node} (same : n'.kind = n.kind)
    (single : n.kind ∉ [Kind.block, .ifThen, .ifElse, .while]) : SameLoops n n' := by
  rcases n with ⟨kind, attr, loc, note, children⟩
  rcases n' with ⟨kind', attr', loc', note', children'⟩
  obtain rfl : kind' = kind := same
  cases kind'
  case block | ifThen | ifElse | «while» => simp at single
  all_goals exact ⟨rfl, fun _ _ _ => rfl⟩

theorem SameLoops.block {ch ch' : List Node} (h : SameLoopsAll ch ch') :
    SameLoops ⟨.block, attr, loc, note, ch⟩ ⟨.block, attr', loc', note', ch'⟩ where
  whiles := h.whiles
  sites loops number place := by
    rw [Node.sites, Node.sites, List.map_cons, List.map_cons, h.sites]
    rfl

theorem SameLoops.ifThen {cond cond' arm arm' : Node} (h : SameLoops arm arm') :
    SameLoops ⟨.ifThen, attr, loc, note, [cond, arm]⟩
      ⟨.ifThen, attr', loc', note', [cond', arm']⟩ where
  whiles := h.whiles
  sites loops number place := by
    rw [Node.sites, Node.sites, List.map_cons, List.map_cons, h.sites]
    rfl

theorem SameLoops.ifElse {cond cond' arm₁ arm₁' arm₂ arm₂' : Node} (h₁ : SameLoops arm₁ arm₁')
    (h₂ : SameLoops arm₂ arm₂') :
    SameLoops ⟨.ifElse, attr, loc, note, [cond, arm₁, arm₂]⟩
      ⟨.ifElse, attr', loc', note', [cond', arm₁', arm₂']⟩ where
  whiles := by rw [Node.whiles, Node.whiles, h₁.whiles, h₂.whiles]
  sites loops number place := by
    rw [Node.sites, Node.sites, List.map_cons, List.map_cons, List.map_append, List.map_append,
      h₁.sites, h₁.whiles, h₂.sites]
    rfl

theorem SameLoops.while {cond cond' body body' : Node} (h : SameLoops body body') :
    SameLoops ⟨.while, attr, loc, note, [cond, body]⟩
      ⟨.while, attr', loc', note', [cond', body']⟩ where
  whiles := by rw [Node.whiles, Node.whiles, h.whiles]
  sites loops number place := by
    rw [Node.sites, Node.sites, List.map_cons, List.map_cons, h.sites]
    rfl

theorem SameLoopsAll.nil : SameLoopsAll [] [] :=
  ⟨rfl, fun _ _ _ _ => rfl⟩

theorem SameLoopsAll.cons {s s' : Node} {rest rest' : List Node} (first : SameLoops s s')
    (others : SameLoopsAll rest rest') : SameLoopsAll (s :: rest) (s' :: rest') where
  whiles := by rw [whilesAll, whilesAll, first.whiles, others.whiles]
  sites loops number place i := by
    rw [sitesAll, sitesAll, List.map_append, List.map_append, first.sites, first.whiles,
      others.sites]

theorem SameLoopsOf.nil : SameLoopsOf [] [] :=
  ⟨rfl, fun _ _ => rfl⟩

/-- A function in front, with the same loops in its body. -/
theorem SameLoopsOf.function {d d' body body' : Node} {rest rest' : List Node}
    (hbody : d.functionBody? = some body) (hbody' : d'.functionBody? = some body')
    (first : SameLoops body body') (others : SameLoopsOf rest rest') :
    SameLoopsOf (d :: rest) (d' :: rest') where
  whiles := by
    rw [whilesOf, whilesOf, hbody, hbody', others.whiles]
    dsimp only
    rw [first.whiles]
  sites number i := by
    rw [sitesOf, sitesOf, hbody, hbody']
    dsimp only
    rw [List.map_append, List.map_append, first.sites, first.whiles, others.sites]

/-- A declaration of something else in front. -/
theorem SameLoopsOf.other {d d' : Node} {rest rest' : List Node} (hbody : d.functionBody? = none)
    (hbody' : d'.functionBody? = none) (others : SameLoopsOf rest rest') :
    SameLoopsOf (d :: rest) (d' :: rest') where
  whiles := by
    rw [whilesOf, whilesOf, hbody, hbody', others.whiles]
  sites number i := by
    rw [sitesOf, sitesOf, hbody, hbody']
    exact others.sites number (i + 1)

end SameLoops

end Node

end TreeWat
