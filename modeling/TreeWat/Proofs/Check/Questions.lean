import TreeWat.Check.Program
import TreeWat.Proofs.Message
import TreeWat.Proofs.Tree
set_option autoImplicit false

/-!
# Check: questions about the layout of a tree

Before it looks at a part of the program, the checker asks whether the tree is laid out as it
has to be.  Such a question ends in a breach of the layout if it fails, stated in the names of
kinds, and never in a complaint about notes, which it does not read.
-/

namespace TreeWat

/-- The cause is a breach of the layout, stated in the names of kinds. -/
@[simp] def ShapeCause.OfLayout : ShapeCause → Prop
  | .missingChild _ _ => True
  | .childCount _ _ => True
  | .wrongKind allowed => ∀ name ∈ allowed, ∃ k : Kind, name = k.text
  | _ => False

theorem ShapeCause.OfLayout.namesKinds {cause : ShapeCause} (h : cause.OfLayout) :
    cause.NamesKinds := by
  cases cause <;> first | exact h | trivial

namespace Check

/-- The question ends in a breach of the layout, if it fails. -/
def Asks {α : Type} (x : Except ShapeError α) : Prop :=
  ∀ e, x = .error e → e.cause.OfLayout

variable {α β : Type}

@[simp] theorem asks_ok (a : α) : Asks (.ok a : Except ShapeError α) := by
  intro e h
  cases h

@[simp] theorem asks_malformed {n : Node} {cause : ShapeCause} :
    Asks (.error (n.malformed cause) : Except ShapeError α) ↔ cause.OfLayout := by
  simp [Asks, Node.malformed]

theorem Asks.bind {x : Except ShapeError α} {g : α → Except ShapeError β} (h : Asks x)
    (hg : ∀ a, Asks (g a)) : Asks (x >>= g) := by
  cases x with
  | error e =>
    rintro e' ⟨⟩
    exact h e rfl
  | ok a => exact hg a

/-- A breach that is passed on is the same breach. -/
theorem Asks.pass {x : Except ShapeError α} {e : ShapeError} (h : Asks x) (heq : x = .error e) :
    Asks (.error e : Except ShapeError β) := by
  rintro e' ⟨⟩
  exact h e heq

theorem asks_child (n : Node) (i : Nat) : Asks (n.child i) := by
  unfold Node.child
  split <;> simp

theorem asks_expect (n : Node) (kinds : List Kind) : Asks (n.expect kinds) := by
  unfold Node.expect
  split <;> simp

theorem asks_expectChildren (n : Node) (count : Int) : Asks (n.expectChildren count) := by
  unfold Node.expectChildren
  split <;> simp

theorem asks_typeOf (n : Node) : Asks (typeOf n) := by
  unfold typeOf
  split <;> simp

theorem asks_valueTypeOf (n : Node) : Asks (valueTypeOf n) := by
  unfold valueTypeOf
  split <;> simp

theorem asks_typedName (n : Node) : Asks (typedName n) := by
  unfold typedName
  refine (asks_expectChildren n 2).bind fun _ => ?_
  refine (asks_child n 0).bind fun keyword => ?_
  refine (asks_valueTypeOf keyword).bind fun ty => ?_
  refine (asks_child n 1).bind fun id => ?_
  exact (asks_expect id _).bind fun _ => asks_ok _

theorem asks_parameterTypes (ps : List Node) : Asks (parameterTypes ps) := by
  induction ps with
  | nil => exact asks_ok _
  | cons p rest ih =>
    rw [parameterTypes]
    refine (asks_expect p _).bind fun _ => ?_
    refine (asks_expectChildren p 2).bind fun _ => ?_
    refine (asks_child p 0).bind fun keyword => ?_
    refine (asks_valueTypeOf keyword).bind fun ty => ?_
    exact ih.bind fun _ => asks_ok _

theorem asks_functionHead (decl : Node) : Asks (functionHead decl) := by
  unfold functionHead
  refine (asks_expectChildren decl 4).bind fun _ => ?_
  refine (asks_child decl 0).bind fun keyword => ?_
  refine (asks_typeOf keyword).bind fun result => ?_
  refine (asks_child decl 1).bind fun id => ?_
  refine (asks_expect id _).bind fun _ => ?_
  refine (asks_child decl 2).bind fun params => ?_
  refine (asks_expect params _).bind fun _ => ?_
  exact (asks_parameterTypes _).bind fun _ => asks_ok _

theorem asks_entryPointHead (decl : Node) : Asks (entryPointHead decl) := by
  unfold entryPointHead
  refine (asks_expectChildren decl 4).bind fun _ => ?_
  refine (asks_child decl 0).bind fun keyword => ?_
  refine (asks_expect keyword _).bind fun _ => ?_
  refine (asks_child decl 1).bind fun id => ?_
  exact (asks_expect id _).bind fun _ => asks_ok _

theorem asks_exitOfAll {scopes : Scopes} {ss : List Node}
    (each : ∀ s ∈ ss, Asks (exitOf scopes s)) : Asks (exitOfAll scopes ss) := by
  induction ss with
  | nil => exact asks_ok _
  | cons s rest ih =>
    rw [exitOfAll]
    split
    · exact (each s List.mem_cons_self).pass ‹_›
    · exact ih fun t ht => each t (List.mem_cons_of_mem _ ht)
    · exact asks_ok _

theorem asks_exitOf (scopes : Scopes) (n : Node) : Asks (exitOf scopes n) := by
  induction n using Node.induction with
  | step n ih =>
    rcases n with ⟨kind, attr, loc, note, children⟩
    have child : ∀ {m : Node}, m ∈ children → Asks (exitOf scopes m) :=
      fun hm => ih _ (Node.mem_descendants_of_child hm)
    rw [exitOf.eq_def]
    dsimp only
    split
    · exact asks_exitOfAll fun s hs => child hs
    · exact asks_ok _
    · exact asks_ok _
    · split
      · rename_i cond arm₁ arm₂ _
        split
        · exact (child (m := arm₁) (by simp)).pass ‹_›
        · split
          · exact (child (m := arm₂) (by simp)).pass ‹_›
          · split <;> exact asks_ok _
      · rename_i cond arm₁
        split
        · exact (child (m := arm₁) (by simp)).pass ‹_›
        · simp
      · simp
    · split
      · split <;> exact asks_ok _
      · simp
    · exact asks_ok _

end Check

end TreeWat
