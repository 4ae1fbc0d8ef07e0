import Mathlib.Data.List.Pairwise
import TreeWat.Proofs.Check.Resolution
import TreeWat.Proofs.Loops
set_option autoImplicit false

/-!
# Check: the listing of the scopes

The scopes of a checked program are listed from the notes on its tree: the builtins, the
globals, and then the local ones, each where it first occurs in the tree.  So the listing is
complete and without duplicates by its construction (`allScopes_eq`).

The local scopes have the numbers in which the text opens them, but a scope is not always noted
where it is opened.  That of an arm or a loop body is noted on the body if this is a block, and
that of a loop on its `break` statements besides; so where the body of a loop is no block, its
scope is listed behind those that are noted in front of its first `break`.

Main statement: the listing is in the order of the numbers exactly if for no loop the scope is
noted behind one that was opened in its body (`listing_exact`).
-/

namespace TreeWat

/-! ## First occurrences -/

/-- The numbers from the given one on. -/
def since (k : Nat) (js : List Nat) : List Nat :=
  js.filter (k ≤ ·)

/-- The first occurrences of the numbers are in ascending order. -/
def Ascends (js : List Nat) : Prop :=
  js.eraseDups.Pairwise (· < ·)

section Numbers

variable {k lo : Nat} {js js₁ js₂ : List Nat}

@[simp] theorem since_nil : since k [] = [] := rfl

@[simp] theorem since_append : since k (js₁ ++ js₂) = since k js₁ ++ since k js₂ :=
  List.filter_append _ _

theorem mem_since {j : Nat} : j ∈ since k js ↔ j ∈ js ∧ k ≤ j := by
  simp [since]

theorem since_cons_of_le {j : Nat} (hle : k ≤ j) : since k (j :: js) = j :: since k js :=
  List.filter_cons_of_pos (by simpa using hle)

theorem since_cons_of_lt {j : Nat} (hlt : j < k) : since k (j :: js) = since k js :=
  List.filter_cons_of_neg (by simpa using hlt)

theorem since_eq_nil (small : ∀ j ∈ js, j < k) : since k js = [] :=
  List.filter_eq_nil_iff.mpr fun j hj => by simpa using small j hj

/-- Where there is nothing between the two bounds, both leave the same. -/
theorem since_congr (hle : lo ≤ k) (gap : ∀ j ∈ js, lo ≤ j → k ≤ j) : since lo js = since k js :=
  List.filter_congr fun j hj => by
    simpa using ⟨gap j hj, Nat.le_trans hle⟩

theorem since_since (hle : lo ≤ k) : since k (since lo js) = since k js := by
  unfold since
  rw [List.filter_filter]
  refine List.filter_congr fun j _ => ?_
  simpa using Nat.le_trans hle

theorem nodup_eraseDups (js : List Nat) : js.eraseDups.Nodup := by
  cases js with
  | nil => simp
  | cons j js =>
    rw [List.eraseDups_cons, List.nodup_cons, List.mem_eraseDups]
    exact ⟨by simp, nodup_eraseDups _⟩
termination_by js.length
decreasing_by exact Nat.lt_succ_of_le (List.length_filter_le _ _)

theorem ascends_nil : Ascends [] := by
  simp [Ascends]

/-- Small numbers in front of large ones. -/
theorem ascends_append (ordered : ∀ a ∈ js₁, ∀ b ∈ js₂, a < b) :
    Ascends (js₁ ++ js₂) ↔ Ascends js₁ ∧ Ascends js₂ := by
  have disjoint : js₂.removeAll js₁ = js₂ :=
    List.filter_eq_self.mpr fun b hb => by
      simpa using fun hmem => Nat.lt_irrefl b (ordered b hmem b hb)
  unfold Ascends
  rw [List.eraseDups_append, disjoint, List.pairwise_append]
  simp only [List.mem_eraseDups]
  exact ⟨fun h => ⟨h.1, h.2.1⟩, fun h => ⟨h.1, h.2, ordered⟩⟩

/-- A smallest number in front is no obstacle. -/
theorem ascends_cons (least : ∀ j ∈ js, k ≤ j) :
    Ascends (k :: js) ↔ Ascends (since (k + 1) js) := by
  have hothers : js.filter (fun j => !j == k) = since (k + 1) js :=
    List.filter_congr fun j hj => by
      have := least j hj
      rw [Bool.eq_iff_iff]
      simp
      omega
  unfold Ascends
  rw [List.eraseDups_cons, List.pairwise_cons, hothers]
  refine and_iff_right fun j hj => ?_
  exact (mem_since.mp (List.mem_eraseDups.mp hj)).2

/-- The smallest number has to be the first one, if it occurs at all. -/
theorem ascends_since_iff :
    Ascends (since k js) ↔
      (k ∈ since k js → (since k js).head? = some k) ∧ Ascends (since (k + 1) js) := by
  have hsame : since (k + 1) (since k js) = since (k + 1) js := since_since (Nat.le_succ k)
  rw [← hsame]
  have least : ∀ j ∈ since k js, k ≤ j := fun j hj => (mem_since.mp hj).2
  generalize since k js = bs at least ⊢
  cases bs with
  | nil => simp
  | cons b bs =>
    have hbs := fun j hj => least j (List.mem_cons_of_mem b hj)
    rcases Nat.eq_or_lt_of_le (least b List.mem_cons_self) with rfl | hlt
    · rw [ascends_cons hbs, since_cons_of_lt (Nat.lt_succ_self k)]
      simp
    · by_cases hmem : k ∈ b :: bs
      · constructor
        · intro ascends
          have hk : k ∈ bs.filter fun j => !j == b :=
            List.mem_filter.mpr ⟨(List.mem_cons.mp hmem).resolve_left (Nat.ne_of_lt hlt),
              by simpa using Nat.ne_of_lt hlt⟩
          unfold Ascends at ascends
          rw [List.eraseDups_cons, List.pairwise_cons] at ascends
          exact absurd (ascends.1 k (List.mem_eraseDups.mpr hk)) (Nat.lt_asymm hlt)
        · rintro ⟨first, -⟩
          exact absurd (Option.some.inj (first hmem)) (Nat.ne_of_gt hlt)
      · have hothers : since (k + 1) (b :: bs) = b :: bs :=
          List.filter_eq_self.mpr fun j hj => by
            have hne : j ≠ k := fun heq => hmem (heq ▸ hj)
            have := least j hj
            simp
            omega
        rw [hothers]
        exact (and_iff_right fun h => absurd h hmem).symm

theorem ascends_since_cons : Ascends (since k (k :: js)) ↔ Ascends (since (k + 1) js) := by
  have hhead : (since k (k :: js)).head? = some k := by
    rw [since_cons_of_le (Nat.le_refl k), List.head?_cons]
  rw [ascends_since_iff, since_cons_of_lt (Nat.lt_succ_self k)]
  exact and_iff_right fun _ => hhead

/-- Two pieces with a bound between their numbers. -/
theorem ascends_since_append (hle : lo ≤ k) (small : ∀ j ∈ since lo js₁, j < k)
    (large : ∀ j ∈ since lo js₂, k ≤ j) :
    Ascends (since lo (js₁ ++ js₂)) ↔ Ascends (since lo js₁) ∧ Ascends (since k js₂) := by
  have hsecond : since lo js₂ = since k js₂ :=
    since_congr hle fun j hj hlo => large j (mem_since.mpr ⟨hj, hlo⟩)
  rw [since_append, ascends_append, hsecond]
  exact fun a ha b hb => Nat.lt_of_lt_of_le (small a ha) (large b hb)

end Numbers

/-! ## The notes of a tree -/

namespace Node

/-- The number of the local scope that is noted on the node. -/
def local? (n : Node) : Option Nat :=
  match n.scope? with
  | some (.opened k) => some k
  | _ => none

/-- The numbers of the local scopes that are noted on a tree, in the order of its nodes. -/
def locals (n : Node) : List Nat :=
  n.preorder.filterMap local?

/-- The same for a list of trees. -/
def localsAll (ns : List Node) : List Nat :=
  (preorderAll ns).filterMap local?

section Locals

variable {kind : Kind} {attr : Bytes} {loc : Location} {note : Option Annotation}
  {n : Node} {ns : List Node}

theorem mem_locals {k : Nat} : k ∈ n.locals ↔ ∃ m ∈ n.preorder, m.scope? = some (.opened k) := by
  unfold locals
  rw [List.mem_filterMap]
  refine exists_congr fun m => and_congr_right fun _ => ?_
  unfold local?
  cases m.scope? with
  | none => simp
  | some id => cases id <;> simp

@[simp] theorem localsAll_nil : localsAll [] = [] := rfl

@[simp] theorem localsAll_cons : localsAll (n :: ns) = n.locals ++ localsAll ns := by
  rw [localsAll, preorderAll, List.filterMap_append]
  rfl

theorem locals_eq : (⟨kind, attr, loc, note, ns⟩ : Node).locals =
    (local? ⟨kind, attr, loc, note, ns⟩).toList ++ localsAll ns := by
  rw [locals, preorder, List.filterMap_cons]
  cases local? ⟨kind, attr, loc, note, ns⟩ with
  | none => rfl
  | some k => rfl

/-- A note that names no local scope. -/
theorem locals_of_local?_none (none_ : local? ⟨kind, attr, loc, note, ns⟩ = none) :
    (⟨kind, attr, loc, note, ns⟩ : Node).locals = localsAll ns := by
  rw [locals_eq, none_]
  rfl

@[simp] theorem locals_opened {sig : Bytes} {k : Nat} :
    (⟨kind, attr, loc, some ⟨sig, some (.opened k)⟩, ns⟩ : Node).locals = k :: localsAll ns := by
  rw [locals_eq]
  rfl

@[simp] theorem locals_globals {sig : Bytes} :
    (⟨kind, attr, loc, some ⟨sig, some .globals⟩, ns⟩ : Node).locals = localsAll ns :=
  locals_of_local?_none rfl

@[simp] theorem locals_noScope {sig : Bytes} :
    (⟨kind, attr, loc, some ⟨sig, none⟩, ns⟩ : Node).locals = localsAll ns :=
  locals_of_local?_none rfl

@[simp] theorem locals_unnoted :
    (⟨kind, attr, loc, none, ns⟩ : Node).locals = localsAll ns :=
  locals_of_local?_none rfl

theorem Unannotated.locals_eq (plain : n.Unannotated) : n.locals = [] := by
  refine List.filterMap_eq_nil_iff.mpr fun m hm => ?_
  simp [local?, scope?, plain m hm]

/-- A node without a note, over other children. -/
theorem Unannotated.locals_branch {ns' : List Node}
    (plain : (⟨kind, attr, loc, note, ns⟩ : Node).Unannotated) :
    (⟨kind, attr, loc, note, ns'⟩ : Node).locals = localsAll ns' := by
  obtain rfl : note = none := plain.note
  exact locals_unnoted

theorem mem_localsAll {k : Nat} : k ∈ localsAll ns ↔ ∃ n ∈ ns, k ∈ n.locals := by
  induction ns with
  | nil => simp
  | cons n ns ih => simp [ih]

theorem Unannotated.localsAll_eq
    (plain : (⟨kind, attr, loc, note, ns⟩ : Node).Unannotated) : localsAll ns = [] :=
  plain.locals_branch.symm.trans plain.locals_eq

/-- A type and a name in the given scope. -/
theorem Unannotated.locals_typedName {t : Node} {name sig : Bytes} {nameLoc : Location}
    {nameCh : List Node} {scope : ScopeId}
    (plain : (⟨kind, attr, loc, note, [t, ⟨.id, name, nameLoc, none, nameCh⟩]⟩ :
      Node).Unannotated) :
    (⟨kind, attr, loc, note, [t, ⟨.id, name, nameLoc, some ⟨sig, some scope⟩, nameCh⟩]⟩ :
        Node).locals =
      (local? ⟨.id, name, nameLoc, some ⟨sig, some scope⟩, nameCh⟩).toList := by
  have htype := (plain.child List.mem_cons_self).locals_eq
  have hname := (plain.child (List.mem_cons_of_mem _ List.mem_cons_self)).localsAll_eq
  rw [plain.locals_branch, localsAll_cons, htype, localsAll_cons, Node.locals_eq, hname]
  simp

end Locals

/-! ## Blocks and breaks in a loop -/

mutual

/-- The blocks and `break` statements in a statement, in source order, each with whether the
scope of the loop around is noted on it.  It is on the statement itself if `own` says so, and on
`break` statements outside inner loops if `loop` says so. -/
def marks (own loop : Bool) (n : Node) : List Bool :=
  match n with
  | ⟨kind, _, _, _, children⟩ =>
    match kind, children with
    | .block, children => own :: marksAll loop children
    | .ifThen, _ :: arm :: _ => marks false loop arm
    | .ifElse, _ :: arm₁ :: arm₂ :: _ => marks false loop arm₁ ++ marks false loop arm₂
    | .while, _ :: body :: _ => marks false false body
    | .break, _ => [loop]
    | _, _ => []

/-- The same for the statements of a block. -/
def marksAll (loop : Bool) : List Node → List Bool
  | [] => []
  | s :: rest => marks false loop s ++ marksAll loop rest

end

/-- If the scope of a loop is noted on anything, then on the first of the blocks and `break`
statements in its body. -/
def LoopInOrder (n : Node) : Prop :=
  n.kind = .while → ∀ cond body, n.children = [cond, body] →
    true ∈ body.marks true true → (body.marks true true).head? = some true

end Node

namespace Check

open Node

section Statements

variable {scopes : Scopes} {f : FunctionScope} {Γ : Names}

/-! ## Which scopes are noted where -/

/-- The scope of a function is not local. -/
theorem locals_callee {sig name callee : Bytes} {loc : Location} {ch : List Node} :
    (⟨.id, name, loc, some ⟨sig, some (calleeOwner Γ callee)⟩, ch⟩ : Node).locals =
      localsAll ch := by
  unfold calleeOwner
  split
  · exact locals_globals
  · exact locals_of_local?_none rfl

/-- Only variables of the function have a local scope in an expression. -/
theorem ExprResolved.locals_eq {n n' : Node} (h : ExprResolved scopes f Γ n n')
    (plain : n.Unannotated) : ∀ j ∈ n'.locals, j = f.number := by
  induction h with
  | name _ _ =>
    rw [FunctionScope.ownerOf]
    split
    · simp [plain.localsAll_eq]
    · simp [plain.localsAll_eq]
  | literal _ => simp [plain.localsAll_eq]
  | @call attr loc name nameLoc nameCh listAttr listLoc listNote args args' sig _ _ _ count _ ih =>
    have hname : (⟨.id, name, nameLoc, none, nameCh⟩ : Node).Unannotated := plain.child (by simp)
    have hlist : (⟨.argumentList, listAttr, listLoc, listNote, args⟩ : Node).Unannotated :=
      plain.child (by simp)
    intro j hj
    simp only [locals_noScope, localsAll_cons, localsAll_nil, locals_callee, hname.localsAll_eq,
      hlist.locals_branch, List.nil_append, List.append_nil] at hj
    obtain ⟨a', ha', hj⟩ := mem_localsAll.mp hj
    obtain ⟨a, ha, hzip⟩ := exists_mem_zip count ha'
    exact ih (a, a') hzip (hlist.child ha) j hj
  | operation _ _ count _ ih =>
    intro j hj
    rw [locals_noScope] at hj
    obtain ⟨e', he', hj⟩ := mem_localsAll.mp hj
    obtain ⟨e, he, hzip⟩ := exists_mem_zip count he'
    exact ih (e, e') hzip (plain.child he) j hj

theorem ExprResolved.since_eq {k : Nat} {n n' : Node} (h : ExprResolved scopes f Γ n n')
    (plain : n.Unannotated) (hk : f.number < k) : since k n'.locals = [] :=
  since_eq_nil fun j hj => h.locals_eq plain j hj ▸ hk

/-- The local scopes that the text between `k` and `k'` may name: that of the function, that of
the loop around, and those opened there. -/
def MayName (f : FunctionScope) (loops : List Nat) (k k' j : Nat) : Prop :=
  j = f.number ∨ loops.head? = some j ∨ k ≤ j ∧ j < k'

section MayName

variable {loops : List Nat} {k k' j : Nat}

theorem MayName.mono {k₁ k₂ : Nat} (h : MayName f loops k₁ k₂ j) (hle : k ≤ k₁) (hle' : k₂ ≤ k') :
    MayName f loops k k' j := by
  rcases h with hf | hloop | hin
  · exact .inl hf
  · exact .inr (.inl hloop)
  · exact .inr (.inr ⟨Nat.le_trans hle hin.1, Nat.lt_of_lt_of_le hin.2 hle'⟩)

theorem MayName.first (hlt : k < k') : MayName f loops k k' k :=
  .inr (.inr ⟨Nat.le_refl k, hlt⟩)

/-- An arm in its own scope. -/
theorem MayName.of_arm {P : Prop} (hlt : k < k')
    (h : (some k = some j ∧ P) ∨ MayName f loops (k + 1) k' j) : MayName f loops k k' j := by
  rcases h with ⟨⟨⟩, -⟩ | h
  · exact .first hlt
  · exact h.mono (Nat.le_succ k) (Nat.le_refl k')

/-- A loop body in the scope of its loop. -/
theorem MayName.of_body {P : Prop} (hlt : k < k')
    (h : (some k = some j ∧ P) ∨ MayName f (k :: loops) (k + 1) k' j) :
    MayName f loops k k' j := by
  rcases h with ⟨⟨⟩, -⟩ | hf | ⟨⟨⟩⟩ | hin
  · exact .first hlt
  · exact .inl hf
  · exact .first hlt
  · exact .inr (.inr ⟨Nat.le_of_succ_le hin.1, hin.2⟩)

end MayName

mutual

/-- The local scopes that are noted on a statement; a block has its own besides. -/
theorem StmtResolved.mayName {own : Option Nat} {loops : List Nat} {k k' : Nat}
    {n n' : Node} : StmtResolved scopes f Γ own loops k n n' k' → n.Unannotated →
    ∀ j ∈ n'.locals, (own = some j ∧ n.kind = .block) ∨ MayName f loops k k' j
  | .block _ statements, plain => by
    have hbelow := statements.mayName fun s hs => plain.child hs
    rw [locals_opened, List.forall_mem_cons]
    exact ⟨.inr (.first statements.tagged.1),
      fun j hj => .inr ((hbelow j hj).mono (Nat.le_succ _) (Nat.le_refl _))⟩
  | .armBlock statements, plain => by
    have hbelow := statements.mayName fun s hs => plain.child hs
    rw [locals_opened, List.forall_mem_cons]
    exact ⟨.inl ⟨rfl, rfl⟩, fun j hj => .inr (hbelow j hj)⟩
  | .expression value, plain => by
    have hvalue := value.locals_eq (plain.child (by simp))
    rw [plain.locals_branch]
    simpa using fun j hj => .inl (hvalue j hj)
  | .call _ value, plain => fun j hj => .inr (.inl (value.locals_eq plain j hj))
  | .null, plain => by simp [plain.locals_eq]
  | .ifThen condition _ whenTrue, plain => by
    have hcondition := condition.locals_eq (plain.child (by simp))
    have htrue := whenTrue.mayName (plain.child (by simp))
    have hlt := whenTrue.tagged.1
    intro j hj
    simp only [plain.locals_branch, localsAll_cons, localsAll_nil, List.append_nil,
      List.mem_append] at hj
    rcases hj with hj | hj
    · exact .inr (.inl (hcondition j hj))
    · exact .inr (.of_arm hlt (htrue j hj))
  | .ifElse condition _ whenTrue _ whenFalse, plain => by
    have hcondition := condition.locals_eq (plain.child (by simp))
    have htrue := whenTrue.mayName (plain.child (by simp))
    have hfalse := whenFalse.mayName (plain.child (by simp))
    have hlt := whenTrue.tagged.1
    have hlt' := whenFalse.tagged.1
    intro j hj
    simp only [plain.locals_branch, localsAll_cons, localsAll_nil, List.append_nil,
      List.mem_append] at hj
    rcases hj with hj | hj | hj
    · exact .inr (.inl (hcondition j hj))
    · exact .inr ((MayName.of_arm hlt (htrue j hj)).mono (Nat.le_refl _) (Nat.le_of_lt hlt'))
    · exact .inr ((MayName.of_arm hlt' (hfalse j hj)).mono (Nat.le_of_lt hlt) (Nat.le_refl _))
  | .while condition _ repeated, plain => by
    have hcondition := condition.locals_eq (plain.child (by simp))
    have hbody := repeated.mayName (plain.child (by simp))
    have hlt := repeated.tagged.1
    intro j hj
    simp only [plain.locals_branch, localsAll_cons, localsAll_nil, List.append_nil,
      List.mem_append] at hj
    rcases hj with hj | hj
    · exact .inr (.inl (hcondition j hj))
    · exact .inr (.of_body hlt (hbody j hj))
  | .returnNothing, plain => by simp [plain.locals_eq]
  | .returnValue result, plain => by
    have hvalue := result.locals_eq (plain.child (by simp))
    rw [plain.locals_branch]
    simpa using fun j hj => .inl (hvalue j hj)
  | .break, _ => by simp [MayName]

/-- The local scopes that are noted on the statements of a block. -/
theorem StmtsResolved.mayName {loops : List Nat} {k k' : Nat} {ss ss' : List Node} :
    StmtsResolved scopes f Γ loops k ss ss' k' → (∀ s ∈ ss, s.Unannotated) →
    ∀ j ∈ localsAll ss', MayName f loops k k' j
  | .nil, _ => by simp
  | .cons first others, plain => by
    have hfirst := first.mayName (plain _ List.mem_cons_self)
    have hothers := others.mayName fun s hs => plain s (List.mem_cons_of_mem _ hs)
    have hle := first.tagged.1
    have hle' := others.tagged.1
    intro j hj
    rw [localsAll_cons, List.mem_append] at hj
    rcases hj with hj | hj
    · rcases hfirst j hj with ⟨⟨⟩, -⟩ | h
      exact h.mono (Nat.le_refl _) hle'
    · exact (hothers j hj).mono hle (Nat.le_refl _)

end

/-! ## The scope of one loop in its body -/

/-- For a loop scope with the number `w`: the numbers from `w` on that are noted in its body,
each with whether it is `w`. -/
def hits (w : Nat) (js : List Nat) : List Bool :=
  (since w js).map (· == w)

section Hits

variable {w : Nat}

theorem hits_nil : hits w [] = [] := rfl

theorem hits_append {js₁ js₂ : List Nat} : hits w (js₁ ++ js₂) = hits w js₁ ++ hits w js₂ := by
  simp [hits]

theorem hits_cons {j : Nat} {js : List Nat} (hle : w ≤ j) :
    hits w (j :: js) = (j == w) :: hits w js := by
  simp [hits, since_cons_of_le hle]

/-- An expression names no loop. -/
theorem ExprResolved.hits_eq {n n' : Node} (h : ExprResolved scopes f Γ n n')
    (plain : n.Unannotated) (hw : f.number < w) : hits w n'.locals = [] := by
  rw [hits, h.since_eq plain hw, List.map_nil]

/-- A statement without others in it has no marks, unless it is a block or a `break`. -/
theorem marks_single {own loop : Bool} {n : Node}
    (single : n.kind ∉ [Kind.block, .ifThen, .ifElse, .while, .break]) :
    n.marks own loop = [] := by
  rcases n with ⟨kind, attr, loc, note, children⟩
  cases kind
  case block | ifThen | ifElse | «while» | «break» => simp at single
  all_goals rfl

mutual

/-- The marks in a statement say where the scope of a loop around it is noted. -/
theorem StmtResolved.hits_eq {own : Option Nat} {loops : List Nat} {k k' : Nat} {n n' : Node} :
    StmtResolved scopes f Γ own loops k n n' k' → n.Unannotated → f.number < w → w < k →
    (∀ o ∈ own, w ≤ o) → (∀ l ∈ loops.head?, w ≤ l) →
    hits w n'.locals = n.marks (own == some w) (loops.head? == some w)
  | .block _ statements, plain, hf, hk, _, hloops => by
    have hne : (_ == w) = false := beq_false_of_ne (Nat.ne_of_gt hk)
    rw [locals_opened, hits_cons (Nat.le_of_lt hk), hne, marks,
      statements.hits_eq (fun s hs => plain.child hs) hf (Nat.lt_succ_of_lt hk) hloops]
    rfl
  | .armBlock statements, plain, hf, hk, hown, hloops => by
    rw [locals_opened, hits_cons (hown _ rfl), marks,
      statements.hits_eq (fun s hs => plain.child hs) hf hk hloops]
    rfl
  | .expression value, plain, hf, _, _, _ => by
    rw [plain.locals_branch, marks_single (by simp), localsAll_cons, localsAll_nil,
      List.append_nil]
    exact value.hits_eq (plain.child (by simp)) hf
  | .call isCall value, plain, hf, _, _, _ => by
    rw [marks_single (by simp [isCall])]
    exact value.hits_eq plain hf
  | .null, plain, _, _, _, _ => by
    rw [plain.locals_eq, marks_single (by simp), hits_nil]
  | .ifThen condition _ whenTrue, plain, hf, hk, _, hloops => by
    have hne : (some _ == some w) = false := beq_false_of_ne (by simpa using Nat.ne_of_gt hk)
    rw [plain.locals_branch, marks]
    simp only [localsAll_cons, localsAll_nil, List.append_nil, hits_append]
    rw [condition.hits_eq (plain.child (by simp)) hf,
      whenTrue.hits_eq (plain.child (by simp)) hf (Nat.lt_succ_of_lt hk)
        (by simpa using Nat.le_of_lt hk) hloops, hne]
    rfl
  | .ifElse condition _ whenTrue _ whenFalse, plain, hf, hk, _, hloops => by
    have hk₁ := Nat.lt_trans hk whenTrue.tagged.1
    have hne : (some _ == some w) = false := beq_false_of_ne (by simpa using Nat.ne_of_gt hk)
    have hne₁ : (some _ == some w) = false := beq_false_of_ne (by simpa using Nat.ne_of_gt hk₁)
    rw [plain.locals_branch, marks]
    simp only [localsAll_cons, localsAll_nil, List.append_nil, hits_append]
    rw [condition.hits_eq (plain.child (by simp)) hf,
      whenTrue.hits_eq (plain.child (by simp)) hf (Nat.lt_succ_of_lt hk)
        (by simpa using Nat.le_of_lt hk) hloops, hne,
      whenFalse.hits_eq (plain.child (by simp)) hf (Nat.lt_succ_of_lt hk₁)
        (by simpa using Nat.le_of_lt hk₁) hloops, hne₁]
    rfl
  | .while condition _ repeated, plain, hf, hk, _, _ => by
    have hne : (some _ == some w) = false := beq_false_of_ne (by simpa using Nat.ne_of_gt hk)
    rw [plain.locals_branch, marks]
    simp only [localsAll_cons, localsAll_nil, List.append_nil, hits_append]
    rw [condition.hits_eq (plain.child (by simp)) hf,
      repeated.hits_eq (plain.child (by simp)) hf (Nat.lt_succ_of_lt hk)
        (by simpa using Nat.le_of_lt hk) (by simpa using Nat.le_of_lt hk), List.head?_cons, hne]
    rfl
  | .returnNothing, plain, _, _, _, _ => by
    rw [plain.locals_eq, marks_single (by simp), hits_nil]
  | .returnValue result, plain, hf, _, _, _ => by
    rw [plain.locals_branch, marks_single (by simp), localsAll_cons, localsAll_nil,
      List.append_nil]
    exact result.hits_eq (plain.child (by simp)) hf
  | .break, _, _, _, _, hloops => by
    rw [locals_opened, hits_cons (hloops _ rfl), localsAll_nil, hits_nil, marks]
    rfl

theorem StmtsResolved.hits_eq {loops : List Nat} {k k' : Nat} {ss ss' : List Node} :
    StmtsResolved scopes f Γ loops k ss ss' k' → (∀ s ∈ ss, s.Unannotated) → f.number < w →
    w < k → (∀ l ∈ loops.head?, w ≤ l) →
    hits w (localsAll ss') = marksAll (loops.head? == some w) ss
  | .nil, _, _, _, _ => rfl
  | .cons first others, plain, hf, hk, hloops => by
    rw [localsAll_cons, hits_append, marksAll,
      first.hits_eq (plain _ List.mem_cons_self) hf hk (by simp) hloops,
      others.hits_eq (fun s hs => plain s (List.mem_cons_of_mem _ hs)) hf
        (Nat.lt_of_lt_of_le hk first.tagged.1) hloops]
    rfl

end

end Hits

/-! ## The order of the scopes in a function body -/

/-- What is named from `lo` on lies between the bounds, except the statement's own scope. -/
theorem StmtResolved.mem_since {own : Option Nat} {loops : List Nat} {lo k k' j : Nat}
    {n n' : Node} (h : StmtResolved scopes f Γ own loops k n n' k') (plain : n.Unannotated)
    (hf : f.number < lo) (hloops : ∀ l ∈ loops.head?, l < lo) (hj : j ∈ since lo n'.locals) :
    (own = some j ∧ n.kind = .block) ∨ k ≤ j ∧ j < k' := by
  obtain ⟨hj, hle⟩ := TreeWat.mem_since.mp hj
  rcases h.mayName plain j hj with hown | rfl | hloop | hin
  · exact .inl hown
  · exact absurd hle (Nat.not_le.mpr hf)
  · exact absurd hle (Nat.not_le.mpr (hloops j hloop))
  · exact .inr hin

theorem StmtsResolved.mem_since {loops : List Nat} {lo k k' j : Nat} {ss ss' : List Node}
    (h : StmtsResolved scopes f Γ loops k ss ss' k') (plain : ∀ s ∈ ss, s.Unannotated)
    (hf : f.number < lo) (hloops : ∀ l ∈ loops.head?, l < lo)
    (hj : j ∈ since lo (localsAll ss')) : k ≤ j ∧ j < k' := by
  obtain ⟨hj, hle⟩ := TreeWat.mem_since.mp hj
  rcases h.mayName plain j hj with rfl | hloop | hin
  · exact absurd hle (Nat.not_le.mpr hf)
  · exact absurd hle (Nat.not_le.mpr (hloops j hloop))
  · exact hin

/-- The scope of an arm is noted in front of those that are opened in it, or nowhere. -/
theorem StmtResolved.head_of_arm {loops : List Nat} {k k' : Nat} {n n' : Node}
    (h : StmtResolved scopes f Γ (some k) loops (k + 1) n n' k') (plain : n.Unannotated)
    (hf : f.number < k) (hloops : ∀ l ∈ loops.head?, l < k) :
    k ∈ since k n'.locals → (since k n'.locals).head? = some k := by
  intro hk
  rcases h.mem_since plain hf hloops hk with ⟨-, isBlock⟩ | hin
  · cases h with
    | armBlock _ => rw [locals_opened, since_cons_of_le (Nat.le_refl k), List.head?_cons]
    | call isCall _ => rw [isCall] at isBlock; cases isBlock
    | _ => cases isBlock
  · exact absurd hin.1 (Nat.not_succ_le_self k)

/-- A statement and others in it, of which it is no loop. -/
theorem forall_sites_cons {P : Prop} {site : Site} {sites : List Site}
    (other : site.node.kind ≠ .while) (h : P ↔ ∀ s ∈ sites, s.node.LoopInOrder) :
    P ↔ ∀ s ∈ site :: sites, s.node.LoopInOrder := by
  rw [List.forall_mem_cons, h]
  exact (and_iff_right fun isWhile => absurd isWhile other).symm

theorem sites_single {n : Node} (single : n.kind ∉ [Kind.block, .ifThen, .ifElse, .while])
    (outer : List Nat) (number : Nat) (place : List Nat) :
    n.sites outer number place = [⟨place, n, number, outer⟩] := by
  rcases n with ⟨kind, attr, loc, note, children⟩
  cases kind
  case block | ifThen | ifElse | «while» => simp at single
  all_goals rfl

/-- A statement without others in it, which names only scopes opened in front of it. -/
theorem ascends_of_small {k : Nat} {n n' : Node} (small : since k n'.locals = [])
    (single : n.kind ∉ [Kind.block, .ifThen, .ifElse, .while]) (outer : List Nat) (number : Nat)
    (place : List Nat) :
    Ascends (since k n'.locals) ↔ ∀ s ∈ n.sites outer number place, s.node.LoopInOrder := by
  rw [small, sites_single single]
  refine forall_sites_cons (fun isWhile => ?_) (iff_of_true ascends_nil (by simp))
  simp [show n.kind = .while from isWhile] at single

/-- An arm in its own scope. -/
theorem StmtResolved.ascends_arm {loops : List Nat} {k k' : Nat} {n n' : Node}
    (h : StmtResolved scopes f Γ (some k) loops (k + 1) n n' k') (plain : n.Unannotated)
    (hf : f.number < k) (hloops : ∀ l ∈ loops.head?, l < k) :
    Ascends (since k n'.locals) ↔ Ascends (since (k + 1) n'.locals) :=
  ascends_since_iff.trans (and_iff_right (h.head_of_arm plain hf hloops))

/-- A loop body in the scope of its loop. -/
theorem StmtResolved.ascends_body {loops : List Nat} {k k' : Nat} {n n' : Node}
    (h : StmtResolved scopes f Γ (some k) (k :: loops) (k + 1) n n' k') (plain : n.Unannotated)
    (hf : f.number < k) :
    Ascends (since k n'.locals) ↔
      (true ∈ n.marks true true → (n.marks true true).head? = some true) ∧
        Ascends (since (k + 1) n'.locals) := by
  have hmarks := h.hits_eq plain hf (Nat.lt_succ_self k) (by simp) (by simp)
  rw [List.head?_cons, beq_self_eq_true, hits] at hmarks
  rw [ascends_since_iff, ← hmarks, List.head?_map]
  refine and_congr_left fun _ => imp_congr ?_ ?_
  · simp
  · cases (since k n'.locals).head? with
    | none => simp
    | some j => simp

mutual

/-- The scopes opened in a statement are noted in order if those of its loops are. -/
theorem StmtResolved.ascends_iff {own : Option Nat} {loops : List Nat} {k k' : Nat}
    {n n' : Node} : StmtResolved scopes f Γ own loops k n n' k' → n.Unannotated →
    f.number < k → (∀ o ∈ own, o < k) → (∀ l ∈ loops.head?, l < k) →
    ∀ (outer : List Nat) (number : Nat) (place : List Nat),
      Ascends (since k n'.locals) ↔ ∀ s ∈ n.sites outer number place, s.node.LoopInOrder
  | .block _ statements, plain, hf, _, hloops, outer, number, place => by
    rw [locals_opened, ascends_since_cons, Node.sites]
    exact forall_sites_cons (by simp) (statements.ascends_iff (fun s hs => plain.child hs)
      (Nat.lt_succ_of_lt hf) (fun l hl => Nat.lt_succ_of_lt (hloops l hl)) outer number place 0)
  | .armBlock statements, plain, hf, hown, hloops, outer, number, place => by
    rw [locals_opened, since_cons_of_lt (hown _ rfl), Node.sites]
    exact forall_sites_cons (by simp) (statements.ascends_iff (fun s hs => plain.child hs) hf
      hloops outer number place 0)
  | .expression value, plain, hf, _, _, outer, number, place => by
    refine ascends_of_small ?_ (by simp) outer number place
    rw [plain.locals_branch, localsAll_cons, localsAll_nil, List.append_nil]
    exact value.since_eq (plain.child (by simp)) hf
  | .call isCall value, plain, hf, _, _, outer, number, place =>
    ascends_of_small (value.since_eq plain hf) (by simp [isCall]) outer number place
  | .null, plain, _, _, _, outer, number, place =>
    ascends_of_small (by rw [plain.locals_eq, since_nil]) (by simp) outer number place
  | .ifThen condition _ whenTrue, plain, hf, _, hloops, outer, number, place => by
    have harm := plain.child (List.mem_cons_of_mem _ List.mem_cons_self)
    rw [plain.locals_branch, Node.sites]
    simp only [localsAll_cons, localsAll_nil, List.append_nil, since_append]
    rw [condition.since_eq (plain.child (by simp)) hf, List.nil_append,
      whenTrue.ascends_arm harm hf hloops]
    exact forall_sites_cons (by simp) (whenTrue.ascends_iff harm (Nat.lt_succ_of_lt hf) (by simp)
      (fun l hl => Nat.lt_succ_of_lt (hloops l hl)) outer number (place ++ [1]))
  | .ifElse condition _ whenTrue _ whenFalse, plain, hf, _, hloops, outer, number, place => by
    have harm₁ := plain.child (List.mem_cons_of_mem _ List.mem_cons_self)
    have harm₂ := plain.child (List.mem_cons_of_mem _ (List.mem_cons_of_mem _ List.mem_cons_self))
    have hlt := whenTrue.tagged.1
    have hloops₁ := fun l hl => Nat.lt_trans (hloops l hl) hlt
    rw [plain.locals_branch, Node.sites]
    simp only [localsAll_cons, localsAll_nil, List.append_nil]
    rw [since_append, condition.since_eq (plain.child (by simp)) hf, List.nil_append,
      ascends_since_append (Nat.le_of_lt hlt), whenTrue.ascends_arm harm₁ hf hloops,
      whenFalse.ascends_arm harm₂ (Nat.lt_trans hf hlt) hloops₁]
    · refine forall_sites_cons (by simp) ?_
      rw [List.forall_mem_append]
      exact and_congr
        (whenTrue.ascends_iff harm₁ (Nat.lt_succ_of_lt hf) (by simp)
          (fun l hl => Nat.lt_succ_of_lt (hloops l hl)) outer number (place ++ [1]))
        (whenFalse.ascends_iff harm₂ (Nat.lt_succ_of_lt (Nat.lt_trans hf hlt)) (by simp)
          (fun l hl => Nat.lt_succ_of_lt (hloops₁ l hl)) outer _ (place ++ [2]))
    · intro j hj
      rcases whenTrue.mem_since harm₁ hf hloops hj with ⟨⟨⟩, -⟩ | hin
      · exact hlt
      · exact hin.2
    · intro j hj
      rcases whenFalse.mem_since harm₂ hf hloops hj with ⟨⟨⟩, -⟩ | hin
      · exact Nat.le_refl _
      · exact Nat.le_of_succ_le hin.1
  | .while condition _ repeated, plain, hf, _, hloops, outer, number, place => by
    have hbody := plain.child (List.mem_cons_of_mem _ List.mem_cons_self)
    rw [plain.locals_branch, Node.sites]
    simp only [localsAll_cons, localsAll_nil, List.append_nil, since_append]
    rw [condition.since_eq (plain.child (by simp)) hf, List.nil_append,
      repeated.ascends_body hbody hf, List.forall_mem_cons]
    refine and_congr ?_ (repeated.ascends_iff hbody (Nat.lt_succ_of_lt hf) (by simp) (by simp)
      (number :: outer) (number + 1) (place ++ [1]))
    constructor
    · rintro inOrder - _ _ ⟨⟩
      exact inOrder
    · exact fun inOrder => inOrder rfl _ _ rfl
  | .returnNothing, plain, _, _, _, outer, number, place =>
    ascends_of_small (by rw [plain.locals_eq, since_nil]) (by simp) outer number place
  | .returnValue result, plain, hf, _, _, outer, number, place => by
    refine ascends_of_small ?_ (by simp) outer number place
    rw [plain.locals_branch, localsAll_cons, localsAll_nil, List.append_nil]
    exact result.since_eq (plain.child (by simp)) hf
  | .break, _, _, _, hloops, outer, number, place => by
    refine ascends_of_small ?_ (by simp) outer number place
    rw [locals_opened, since_cons_of_lt (hloops _ rfl), localsAll_nil, since_nil]

/-- The same for the statements of a block. -/
theorem StmtsResolved.ascends_iff {loops : List Nat} {k k' : Nat} {ss ss' : List Node} :
    StmtsResolved scopes f Γ loops k ss ss' k' → (∀ s ∈ ss, s.Unannotated) → f.number < k →
    (∀ l ∈ loops.head?, l < k) →
    ∀ (outer : List Nat) (number : Nat) (place : List Nat) (i : Nat),
      Ascends (since k (localsAll ss')) ↔
        ∀ s ∈ sitesAll outer number place i ss, s.node.LoopInOrder
  | .nil, _, _, _, outer, number, place, i => iff_of_true ascends_nil (by simp [sitesAll])
  | .cons first others, plain, hf, hloops, outer, number, place, i => by
    have hfirst := plain _ List.mem_cons_self
    have hothers := fun s hs => plain s (List.mem_cons_of_mem _ hs)
    have hle := first.tagged.1
    rw [localsAll_cons, sitesAll, List.forall_mem_append, ascends_since_append hle]
    · exact and_congr
        (first.ascends_iff hfirst hf (by simp) hloops outer number (place ++ [i]))
        (others.ascends_iff hothers (Nat.lt_of_lt_of_le hf hle)
          (fun l hl => Nat.lt_of_lt_of_le (hloops l hl) hle) outer _ place (i + 1))
    · intro j hj
      rcases first.mem_since hfirst hf hloops hj with ⟨⟨⟩, -⟩ | hin
      exact hin.2
    · intro j hj
      exact (others.mem_since hothers hf hloops hj).1

end

/-- The body of a function names its scope and those that are opened in it. -/
theorem BodyResolved.mem_locals {k k' j : Nat} {ss ss' : List Node}
    (h : BodyResolved scopes f Γ k ss ss' k') (plain : ∀ s ∈ ss, s.Unannotated)
    (hj : j ∈ localsAll ss') : j = f.number ∨ k ≤ j ∧ j < k' := by
  induction h with
  | nil => simp at hj
  | declaration isType _ ih =>
    rw [localsAll_cons, (plain _ List.mem_cons_self).locals_typedName, List.mem_append] at hj
    rcases hj with hj | hj
    · exact .inl (List.mem_singleton.mp hj)
    · exact ih (fun s hs => plain s (List.mem_cons_of_mem _ hs)) hj
  | statement first others ih =>
    have hfirst := first.mayName (plain _ List.mem_cons_self)
    rw [localsAll_cons, List.mem_append] at hj
    rcases hj with hj | hj
    · rcases hfirst j hj with ⟨⟨⟩, -⟩ | hf | ⟨⟨⟩⟩ | hin
      · exact .inl hf
      · exact .inr ⟨hin.1, Nat.lt_of_lt_of_le hin.2 others.tagged.1⟩
    · rcases ih (fun s hs => plain s (List.mem_cons_of_mem _ hs)) hj with hf | hin
      · exact .inl hf
      · exact .inr ⟨Nat.le_trans first.tagged.1 hin.1, hin.2⟩

/-- The scopes opened in the body of a function are noted in order if those of its loops are. -/
theorem BodyResolved.ascends_iff {k k' : Nat} {ss ss' : List Node}
    (h : BodyResolved scopes f Γ k ss ss' k') (plain : ∀ s ∈ ss, s.Unannotated)
    (hf : f.number < k) (outer : List Nat) (number : Nat) (place : List Nat) (i : Nat) :
    Ascends (since k (localsAll ss')) ↔
      ∀ s ∈ sitesAll outer number place i ss, s.node.LoopInOrder := by
  induction h generalizing number i with
  | nil => exact iff_of_true ascends_nil (by simp [sitesAll])
  | declaration isType others ih =>
    rw [localsAll_cons, (plain _ List.mem_cons_self).locals_typedName, since_append,
      since_eq_nil (by simpa [local?, scope?] using hf), List.nil_append, sitesAll,
      sites_single (by simp), List.singleton_append]
    exact forall_sites_cons (by simp)
      (ih (fun s hs => plain s (List.mem_cons_of_mem _ hs)) hf _ (i + 1))
  | statement first others ih =>
    have hfirst := plain _ List.mem_cons_self
    have hothers := fun s hs => plain s (List.mem_cons_of_mem _ hs)
    have hle := first.tagged.1
    rw [localsAll_cons, sitesAll, List.forall_mem_append, ascends_since_append hle]
    · exact and_congr
        (first.ascends_iff hfirst hf (by simp) (by simp) outer number (place ++ [i]))
        (ih hothers (Nat.lt_of_lt_of_le hf hle) _ (i + 1))
    · intro j hj
      rcases first.mem_since hfirst hf (by simp) hj with ⟨⟨⟩, -⟩ | hin
      exact hin.2
    · intro j hj
      obtain ⟨hj, hge⟩ := TreeWat.mem_since.mp hj
      rcases others.mem_locals hothers hj with rfl | hin
      · exact absurd hge (Nat.not_le.mpr hf)
      · exact hin.1

end Statements

/-! ## The order of the scopes in a program -/

section Programs

variable {scopes : Scopes} {globals : List (Bytes × Ty)} {funcs : List (Bytes × Signature)}

theorem ParamsResolved.locals_eq {k : Nat} {ps ps' : List Node} {params : List (Bytes × Ty)}
    (h : ParamsResolved (.opened k) ps ps' params) (plain : ∀ p ∈ ps, p.Unannotated) :
    ∀ j ∈ localsAll ps', j = k := by
  induction h with
  | nil => simp
  | cons isType _ ih =>
    intro j hj
    rw [localsAll_cons, (plain _ List.mem_cons_self).locals_typedName, List.mem_append] at hj
    rcases hj with hj | hj
    · exact List.mem_singleton.mp hj
    · exact ih (fun p hp => plain p (List.mem_cons_of_mem _ hp)) j hj

/-- What is noted on a function: its own scope, on the parameters and on the body, and then what
the body names. -/
theorem FunctionResolved.locals_eq {k k' : Nat} {d d' : Node} {name text : Bytes}
    {sig : Signature} (h : FunctionResolved scopes globals funcs k d d' name sig text k')
    (plain : d.Unannotated) :
    ∃ own f Γ attr loc ss ss', (∀ j ∈ own, j = k) ∧ f.number = k ∧
      d.children[3]? = some ⟨.block, attr, loc, none, ss⟩ ∧ (∀ s ∈ ss, s.Unannotated) ∧
      BodyResolved scopes f Γ (k + 1) ss ss' k' ∧ d'.locals = own ++ k :: localsAll ss' := by
  cases h with
  | @intro _ _ _ _ resultNode name _ nameLoc nameCh listAttr listLoc listNote ps ps' bodyAttr
      bodyLoc ss ss' _ _ f _ isOwn _ _ _ parameters body =>
    have hresult : resultNode.Unannotated := plain.child (by simp)
    have hname : (⟨.id, name, nameLoc, none, nameCh⟩ : Node).Unannotated := plain.child (by simp)
    have hlist : (⟨.formalParameterList, listAttr, listLoc, listNote, ps⟩ : Node).Unannotated :=
      plain.child (by simp)
    have hbody : (⟨.block, bodyAttr, bodyLoc, none, ss⟩ : Node).Unannotated :=
      plain.child (by simp)
    refine ⟨localsAll ps', f, _, bodyAttr, bodyLoc, ss, ss',
      parameters.locals_eq fun p hp => hlist.child hp, by rw [isOwn], rfl,
      fun s hs => hbody.child hs, body, ?_⟩
    rw [plain.locals_branch]
    simp [hresult.locals_eq, hname.localsAll_eq, hlist.locals_branch]

/-- A function names only scopes that are opened in it. -/
theorem FunctionResolved.mem_locals {k k' j : Nat} {d d' : Node} {name text : Bytes}
    {sig : Signature} (h : FunctionResolved scopes globals funcs k d d' name sig text k')
    (plain : d.Unannotated) (hj : j ∈ d'.locals) : k ≤ j ∧ j < k' := by
  obtain ⟨own, f, Γ, attr, loc, ss, ss', hown, rfl, -, hss, body, hlocals⟩ := h.locals_eq plain
  have hlt := body.tagged.1
  rw [hlocals, List.mem_append, List.mem_cons] at hj
  rcases hj with hj | rfl | hj
  · obtain rfl := hown j hj
    exact ⟨Nat.le_refl _, hlt⟩
  · exact ⟨Nat.le_refl _, hlt⟩
  · rcases body.mem_locals hss hj with rfl | hin
    · exact ⟨Nat.le_refl _, hlt⟩
    · exact ⟨Nat.le_of_succ_le hin.1, hin.2⟩

/-- The scopes opened in a function are noted in order if those of its loops are: its own is
the first. -/
theorem FunctionResolved.ascends_iff {k k' : Nat} {d d' : Node} {name text : Bytes}
    {sig : Signature} (h : FunctionResolved scopes globals funcs k d d' name sig text k')
    (plain : d.Unannotated) :
    ∃ body, d.children[3]? = some body ∧ ∀ outer number place,
      (Ascends (since k d'.locals) ↔ ∀ s ∈ body.sites outer number place, s.node.LoopInOrder) := by
  obtain ⟨own, f, Γ, attr, loc, ss, ss', hown, rfl, hbody, hss, body, hlocals⟩ :=
    h.locals_eq plain
  refine ⟨_, hbody, fun outer number place => ?_⟩
  have hhead : (since f.number d'.locals).head? = some f.number := by
    rw [hlocals]
    cases own with
    | nil => rw [List.nil_append, since_cons_of_le (Nat.le_refl _), List.head?_cons]
    | cons j own =>
      rw [hown j List.mem_cons_self, List.cons_append, since_cons_of_le (Nat.le_refl _),
        List.head?_cons]
  have hrest : since (f.number + 1) d'.locals = since (f.number + 1) (localsAll ss') := by
    rw [hlocals, since_append, since_eq_nil fun j hj => hown j hj ▸ Nat.lt_succ_self _,
      List.nil_append, since_cons_of_lt (Nat.lt_succ_self _)]
  rw [ascends_since_iff, hrest, Node.sites]
  exact forall_sites_cons (by simp) ((and_iff_right fun _ => hhead).trans
    (body.ascends_iff hss (Nat.lt_succ_self _) outer number place 0))

theorem DeclsResolved.mem_locals {k k' j : Nat} {ds ds' : List Node} {vs : List (Bytes × Ty)}
    {fs : List (Bytes × Signature)} (h : DeclsResolved scopes globals funcs k ds ds' vs fs k')
    (plain : ∀ d ∈ ds, d.Unannotated) (hj : j ∈ localsAll ds') : k ≤ j ∧ j < k' := by
  induction h with
  | nil => simp at hj
  | entryPoint _ _ function others ih | function _ function others ih =>
    rw [localsAll_cons, List.mem_append] at hj
    rcases hj with hj | hj
    · have hin := function.mem_locals (plain _ List.mem_cons_self) hj
      exact ⟨hin.1, Nat.lt_of_lt_of_le hin.2 others.tagged.1⟩
    · have hin := ih (fun d hd => plain d (List.mem_cons_of_mem _ hd)) hj
      exact ⟨Nat.le_trans function.tagged.1 hin.1, hin.2⟩
  | global _ _ ih =>
    rw [localsAll_cons, (plain _ List.mem_cons_self).locals_typedName] at hj
    exact ih (fun d hd => plain d (List.mem_cons_of_mem _ hd)) hj

/-- A function in front of other declarations. -/
theorem ascends_function {k k₁ number i : Nat} {d d' body : Node} {ds ds' : List Node}
    (hbody : d.functionBody? = some body) (hle : k ≤ k₁)
    (small : ∀ j ∈ d'.locals, k ≤ j ∧ j < k₁) (large : ∀ j ∈ localsAll ds', k₁ ≤ j)
    (first : Ascends (since k d'.locals) ↔
      ∀ s ∈ body.sites [] number [i, 3], s.node.LoopInOrder)
    (others : Ascends (since k₁ (localsAll ds')) ↔
      ∀ s ∈ sitesOf (number + body.whiles) (i + 1) ds, s.node.LoopInOrder) :
    Ascends (since k (localsAll (d' :: ds'))) ↔
      ∀ s ∈ sitesOf number i (d :: ds), s.node.LoopInOrder := by
  rw [localsAll_cons, sitesOf, hbody, List.forall_mem_append,
    ascends_since_append hle (fun j hj => (small j (TreeWat.mem_since.mp hj).1).2)
      (fun j hj => large j (TreeWat.mem_since.mp hj).1)]
  exact and_congr first others

/-- The scopes of a program are noted in order if those of its loops are. -/
theorem DeclsResolved.ascends_iff {k k' : Nat} {ds ds' : List Node} {vs : List (Bytes × Ty)}
    {fs : List (Bytes × Signature)} (h : DeclsResolved scopes globals funcs k ds ds' vs fs k')
    (plain : ∀ d ∈ ds, d.Unannotated) (number i : Nat) :
    Ascends (since k (localsAll ds')) ↔ ∀ s ∈ sitesOf number i ds, s.node.LoopInOrder := by
  induction h generalizing number i with
  | nil => exact iff_of_true ascends_nil (by simp [sitesOf])
  | entryPoint isEntry _ function others ih =>
    have hfirst := plain _ List.mem_cons_self
    have hothers := fun d hd => plain d (List.mem_cons_of_mem _ hd)
    obtain ⟨body, hbody, first⟩ := function.ascends_iff hfirst
    exact ascends_function (by rw [functionBody?, if_pos (.inr isEntry), hbody])
      function.tagged.1 (fun j hj => function.mem_locals hfirst hj)
      (fun j hj => (others.mem_locals hothers hj).1) (first _ _ _) (ih hothers _ _)
  | function isFunction function others ih =>
    have hfirst := plain _ List.mem_cons_self
    have hothers := fun d hd => plain d (List.mem_cons_of_mem _ hd)
    obtain ⟨body, hbody, first⟩ := function.ascends_iff hfirst
    exact ascends_function (by rw [functionBody?, if_pos (.inl isFunction), hbody])
      function.tagged.1 (fun j hj => function.mem_locals hfirst hj)
      (fun j hj => (others.mem_locals hothers hj).1) (first _ _ _) (ih hothers _ _)
  | global _ others ih =>
    rw [localsAll_cons, (plain _ List.mem_cons_self).locals_typedName, sitesOf]
    exact ih (fun d hd => plain d (List.mem_cons_of_mem _ hd)) number (i + 1)

theorem ProgramResolved.mem_locals {j : Nat} {root root' : Node}
    (h : ProgramResolved scopes root root') (plain : root.Unannotated) (hj : j ∈ root'.locals) :
    j < scopes.opened.length := by
  cases h with
  | intro _ _ _ declarations =>
    rw [plain.locals_branch] at hj
    exact (declarations.mem_locals (fun d hd => plain.child hd) hj).2

theorem ProgramResolved.ascends_iff {root root' : Node} (h : ProgramResolved scopes root root')
    (plain : root.Unannotated) :
    Ascends root'.locals ↔ ∀ s ∈ root.programSites, s.node.LoopInOrder := by
  cases h with
  | intro _ _ _ declarations =>
    have hall : ∀ js, since 0 js = js := fun js => by simp [since]
    have ascends := declarations.ascends_iff (fun d hd => plain.child hd) 0 0
    rwa [hall, ← plain.locals_branch] at ascends

end Programs

/-! ## The listing -/

/-- The local scopes are listed where they first occur. -/
theorem newScopes_eq {seen : List ScopeId} {ns : List Node} (noBuiltins : .builtins ∈ seen)
    (noGlobals : .globals ∈ seen) :
    newScopes seen ns =
      ((ns.filterMap local?).filter fun k => !seen.contains (.opened k)).eraseDups.map .opened := by
  induction ns generalizing seen with
  | nil => simp [newScopes]
  | cons n rest ih =>
    cases hscope : n.scope? with
    | none =>
      have hlocal : local? n = none := by simp [local?, hscope]
      rw [newScopes, hscope, List.filterMap_cons_none hlocal]
      exact ih noBuiltins noGlobals
    | some id =>
      rw [newScopes, hscope]
      dsimp only
      cases id with
      | builtins =>
        have hlocal : local? n = none := by simp [local?, hscope]
        rw [if_pos (List.contains_iff_mem.mpr noBuiltins), List.filterMap_cons_none hlocal]
        exact ih noBuiltins noGlobals
      | globals =>
        have hlocal : local? n = none := by simp [local?, hscope]
        rw [if_pos (List.contains_iff_mem.mpr noGlobals), List.filterMap_cons_none hlocal]
        exact ih noBuiltins noGlobals
      | opened k =>
        have hlocal : local? n = some k := by simp [local?, hscope]
        rw [List.filterMap_cons_some hlocal]
        by_cases hseen : seen.contains (.opened k) = true
        · rw [if_pos hseen, List.filter_cons_of_neg (by simpa using hseen)]
          exact ih noBuiltins noGlobals
        · rw [if_neg hseen, List.filter_cons_of_pos (by simpa using hseen), List.eraseDups_cons,
            List.map_cons, List.filter_filter,
            ih (List.mem_cons_of_mem _ noBuiltins) (List.mem_cons_of_mem _ noGlobals)]
          congr 4
          funext j
          rw [Bool.eq_iff_iff]
          simp

/-- Every scope of a checked program: the two that every program has, and each local one that is
noted on the tree, where it first occurs. -/
theorem CheckedProgram.allScopes_eq (p : CheckedProgram) :
    p.allScopes = .builtins :: .globals :: p.tree.locals.eraseDups.map .opened := by
  rw [allScopes, newScopes_eq (by simp) (by simp)]
  simp [locals]

/-- The listing of the scopes of an accepted program.

It has the builtins, the globals and then the local scopes that are noted on the tree, each of
them once.  In a program that came without notes, these have the tags that were handed out when
they were opened, and they are listed in this order exactly if every loop is in order: the first
of the blocks and `break` statements in its body is one that the scope of the loop is noted on,
unless there is none of these. -/
theorem listing_exact {root : Node} {checked : CheckedProgram}
    (accepted : checkProgram root = .ok checked) :
    ∃ ks : List Nat, checked.allScopes = .builtins :: .globals :: ks.map .opened ∧ ks.Nodup ∧
      (∀ k, k ∈ ks ↔ ∃ m ∈ checked.tree.preorder, m.scope? = some (.opened k)) ∧
      (root.Unannotated →
        (∀ k ∈ ks, (checked.scopes.get (.opened k)).tag = localTag k) ∧
        (ks.Pairwise (· < ·) ↔ ∀ site ∈ root.programSites, site.node.LoopInOrder)) := by
  refine ⟨_, checked.allScopes_eq, nodup_eraseDups _,
    fun k => List.mem_eraseDups.trans mem_locals, fun plain => ?_⟩
  have resolved := programResolved_of_checkProgram accepted
  refine ⟨fun k hk => ?_, resolved.ascends_iff plain⟩
  have hlt := resolved.mem_locals plain (List.mem_eraseDups.mp hk)
  have htag := resolved.tagged.2 k (Nat.zero_le k) hlt
  rw [List.getElem?_eq_getElem hlt, Option.map_some, Option.some.injEq] at htag
  rw [Scopes.get_opened_of_getElem? (List.getElem?_eq_getElem hlt), htag]

/-- A loop whose body is no block, with its only `break` in an inner block:

    void main() { while (true) if (true) { break; } } -/
def lateLoop : Node :=
  let node (kind : Kind) (children : List Node) : Node := .branch kind .nowhere children
  node .globalDeclarations [
    node .entryPointDeclaration [node .void [], .leaf .id (utf8 "main") .nowhere,
      node .formalParameterList [],
      node .block [
        node .while [node .trueLiteral [],
          node .ifThen [node .trueLiteral [], node .block [node .break []]]]]]]

/-- The scope of the loop is listed behind that of the inner block, which was opened in it. -/
theorem lateLoop_listed :
    lateLoop.Unannotated ∧ ∃ checked, checkProgram lateLoop = .ok checked ∧
      checked.allScopes = [.builtins, .globals, .opened 0, .opened 2, .opened 1] ∧
      ¬∀ site ∈ lateLoop.programSites, site.node.LoopInOrder := by
  have plain : lateLoop.Unannotated := by decide
  have hrun : (checkProgram lateLoop).toOption.map CheckedProgram.allScopes =
      some [.builtins, .globals, .opened 0, .opened 2, .opened 1] := by decide +kernel
  cases accepted : checkProgram lateLoop with
  | error e =>
    rw [accepted] at hrun
    cases hrun
  | ok checked =>
    have listed : checked.allScopes =
        [.builtins, .globals, .opened 0, .opened 2, .opened 1] := by
      rw [accepted] at hrun
      exact Option.some.inj hrun
    refine ⟨plain, checked, rfl, listed, fun inOrder => ?_⟩
    obtain ⟨ks, hks, -, -, order⟩ := listing_exact accepted
    have ascending := (order plain).2.mpr inOrder
    have hnumbers : ks = [0, 2, 1] := by
      rw [listed] at hks
      refine List.map_injective_iff.mpr (fun _ _ => ScopeId.opened.inj) ?_
      exact ((List.cons.inj (List.cons.inj hks).2).2).symm
    rw [hnumbers] at ascending
    exact absurd ascending (by decide)

end Check

end TreeWat
