import TreeWat.Tree.Basic
set_option autoImplicit false

/-!
# Trees: induction over a tree

A node holds its children in a list, so the recursor that comes with the type has
one motive for nodes and one for lists.  `Node.induction` packs the two into the
form every proof about a walk over the tree uses: a property passes from all nodes
below a node to the node.
-/

namespace TreeWat

/-- A step and what follows it end well exactly if both do. -/
theorem bind_ok_iff {ε α β : Type} {x : Except ε α} {f : α → Except ε β} {b : β} :
    x >>= f = .ok b ↔ ∃ a, x = .ok a ∧ f a = .ok b := by
  cases x <;> simp [bind, Except.bind]

namespace Node

/-! ## Nodes below a node -/

/-- Every node below a node, the node itself left out. -/
def descendants (n : Node) : List Node :=
  preorderAll n.children

@[simp] theorem mem_preorder_self (n : Node) : n ∈ n.preorder := by
  rcases n with ⟨kind, attr, loc, note, children⟩
  simp [preorder]

theorem mem_preorderAll {m : Node} {ns : List Node} :
    m ∈ preorderAll ns ↔ ∃ n ∈ ns, m ∈ n.preorder := by
  induction ns with
  | nil => simp [preorderAll]
  | cons n rest ih => simp [preorderAll, ih]

theorem mem_preorder {m n : Node} : m ∈ n.preorder ↔ m = n ∨ m ∈ n.descendants := by
  rcases n with ⟨kind, attr, loc, note, children⟩
  simp [preorder, descendants]

theorem mem_descendants_of_child {c n : Node} (h : c ∈ n.children) : c ∈ n.descendants :=
  mem_preorderAll.mpr ⟨c, h, c.mem_preorder_self⟩

theorem mem_preorder_of_child {m c n : Node} (hc : c ∈ n.children) (hm : m ∈ c.preorder) :
    m ∈ n.preorder :=
  mem_preorder.mpr (.inr (mem_preorderAll.mpr ⟨c, hc, hm⟩))

theorem mem_descendants_of_grandchild {g c n : Node} (hc : c ∈ n.children) (hg : g ∈ c.children) :
    g ∈ n.descendants :=
  mem_preorderAll.mpr ⟨c, hc, mem_preorder_of_child hg g.mem_preorder_self⟩

/-- The arguments of a call are the children of its second child. -/
theorem mem_descendants_of_argument {kind listKind : Kind} {attr listAttr : Bytes}
    {loc listLoc : Location} {note listNote : Option Annotation} {callee a : Node}
    {args rest : List Node} (ha : a ∈ args) :
    a ∈ (⟨kind, attr, loc, note,
      callee :: ⟨listKind, listAttr, listLoc, listNote, args⟩ :: rest⟩ : Node).descendants :=
  mem_descendants_of_grandchild (List.mem_cons_of_mem _ List.mem_cons_self) ha

/-! ## Induction -/

mutual

theorem forall_preorder {P : Node → Prop} (step : ∀ n : Node, (∀ m ∈ n.descendants, P m) → P n) :
    ∀ n : Node, ∀ m ∈ n.preorder, P m
  | ⟨kind, attr, loc, note, children⟩ => by
    have hall : ∀ m ∈ preorderAll children, P m := forall_preorderAll step children
    intro m hm
    rcases mem_preorder.mp hm with rfl | hm
    · exact step ⟨kind, attr, loc, note, children⟩ hall
    · exact hall m hm

theorem forall_preorderAll {P : Node → Prop}
    (step : ∀ n : Node, (∀ m ∈ n.descendants, P m) → P n) :
    ∀ ns : List Node, ∀ m ∈ preorderAll ns, P m
  | [] => by simp [preorderAll]
  | n :: rest => by
    intro m hm
    rw [preorderAll] at hm
    rcases List.mem_append.mp hm with hm | hm
    · exact forall_preorder step n m hm
    · exact forall_preorderAll step rest m hm

end

/-- A property that passes from the nodes below a node to the node holds of every
node. -/
theorem induction {P : Node → Prop} (step : ∀ n : Node, (∀ m ∈ n.descendants, P m) → P n)
    (n : Node) : P n :=
  forall_preorder step n n n.mem_preorder_self

theorem mem_preorder_trans {k m n : Node} (hm : m ∈ n.preorder) (hk : k ∈ m.preorder) :
    k ∈ n.preorder := by
  induction n using Node.induction with
  | step n ih =>
    rcases mem_preorder.mp hm with rfl | hm
    · exact hk
    · obtain ⟨c, hc, hm⟩ := mem_preorderAll.mp hm
      exact mem_preorder_of_child hc (ih c (mem_descendants_of_child hc) hm)

/-! ## Questions about the shape of a node -/

theorem child_ok_iff {n m : Node} {i : Nat} : n.child i = .ok m ↔ n.children[i]? = some m := by
  unfold child
  cases n.children[i]? <;> simp

theorem expect_ok_iff {n : Node} {kind : Kind} : n.expect [kind] = .ok () ↔ n.kind = kind := by
  unfold expect
  by_cases h : n.kind = kind <;> simp [h]

theorem expectChildren_ok_iff {n : Node} {count : Nat} :
    n.expectChildren count = .ok () ↔ n.children.length = count := by
  unfold expectChildren
  by_cases h : n.children.length = count
  · simp [h]
  · rw [if_neg (mt Int.natCast_inj.mp h)]
    exact iff_of_false nofun h

theorem annotate_ok_iff {n n' : Node} {sig : Bytes} {scope : Option ScopeId} :
    n.annotate sig scope = .ok n' ↔ n.note = none ∧ n' = { n with note := some ⟨sig, scope⟩ } := by
  unfold annotate
  cases n.note <;> simp [eq_comm]

theorem annotate_error_iff {n : Node} {sig : Bytes} {scope : Option ScopeId} {e : ShapeError} :
    n.annotate sig scope = .error e ↔
      ∃ a, n.note = some a ∧ e = n.malformed (.annotatedTwice a.sig) := by
  unfold annotate
  cases n.note <;> simp [eq_comm]

/-! ## Trees without notes -/

/-- No node of the tree carries a note. -/
def Unannotated (n : Node) : Prop :=
  ∀ m ∈ n.preorder, m.note = none

instance : DecidablePred Unannotated :=
  fun n => inferInstanceAs (Decidable (∀ m ∈ n.preorder, m.note = none))

theorem Unannotated.note {n : Node} (h : n.Unannotated) : n.note = none :=
  h n n.mem_preorder_self

theorem Unannotated.child {n c : Node} (h : n.Unannotated) (hc : c ∈ n.children) :
    c.Unannotated :=
  fun m hm => h m (mem_preorder_of_child hc hm)

theorem Unannotated.descendant {n m : Node} (h : n.Unannotated) (hm : m ∈ n.descendants) :
    m.Unannotated :=
  fun k hk => h k (mem_preorder_trans (mem_preorder.mpr (.inr hm)) hk)

end Node

end TreeWat
