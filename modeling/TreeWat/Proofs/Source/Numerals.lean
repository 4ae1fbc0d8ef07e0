import TreeWat.Proofs.Source
set_option autoImplicit false

/-!
# Source: programs whose numerals are numbers

The checker does not read numerals, and a program stops where it evaluates one that is no
32-bit number.  If every numeral of a program is a number, the program never stops for
that reason.
-/

namespace TreeWat

/-- The run does not come to the given stop. -/
def Run.Avoids {α : Type} (e : Stop) (r : Run α) : Prop :=
  r.res ≠ .error e

namespace Run

variable {α β : Type} {e : Stop}

theorem Avoids.pure (a : α) : Avoids e (Pure.pure a) := by
  intro h
  cases h

theorem Avoids.stop {e' : Stop} (other : e' ≠ e) : Avoids e (Run.stop e' : Run α) := by
  intro h
  cases h
  exact other rfl

theorem Avoids.bind {r : Run α} {k : α → Run β} (h : r.Avoids e) (hk : ∀ a, (k a).Avoids e) :
    (r >>= k).Avoids e := by
  rcases r with ⟨out, e' | a⟩
  · rw [error_bind]
    exact fun heq => h (by cases heq; rfl)
  · exact hk a

end Run

namespace Source

open Run (Avoids)

/-- Every numeral of the tree is a 32-bit number. -/
def NumeralsFit (n : Node) : Prop :=
  ∀ m ∈ n.preorder, m.kind = .num → (Word.ofNumeral? m.attr).isSome = true

theorem NumeralsFit.child {n c : Node} (h : NumeralsFit n) (hc : c ∈ n.children) :
    NumeralsFit c :=
  fun m hm => h m (Node.mem_preorder_of_child hc hm)

/-! ## Expressions -/

theorem yieldOr_avoids {α : Type} {e e' : Stop} (other : e' ≠ e) (a : Option α) :
    Avoids e (yieldOr e' a) := by
  cases a with
  | none => exact .stop other
  | some a => exact .pure a

theorem combine_avoids (op : BinaryOp) (v₁ v₂ : Value) : Avoids .numeral (combine op v₁ v₂) := by
  unfold combine
  split <;> first
    | exact .pure _
    | exact yieldOr_avoids (by decide) _
    | exact .stop (by decide)

theorem apply_avoids (op : UnaryOp) (v : Value) : Avoids .numeral (apply op v) := by
  unfold apply
  split
  · exact .pure _
  · exact .pure _
  · exact .stop (by decide)

theorem asBool_avoids (v : Value) : Avoids .numeral (asBool v) := by
  unfold asBool
  split
  · exact .pure _
  · exact .stop (by decide)

variable {I : Interpreter}

/-- No call of the interpreter stops at a numeral. -/
def Interpreter.Numbers (I : Interpreter) : Prop :=
  ∀ name args store, Avoids .numeral (I.call name args store)

theorem evalAll_avoids {args : List Node}
    (h : ∀ a ∈ args, ∀ σ, Avoids .numeral (eval I a σ)) (σ : Scene) :
    Avoids .numeral (evalAll I args σ) := by
  induction args generalizing σ with
  | nil =>
    rw [evalAll]
    exact .pure _
  | cons a rest ih =>
    rw [evalAll]
    refine (h a List.mem_cons_self σ).bind fun p => ?_
    exact (ih (fun b hb => h b (List.mem_cons_of_mem _ hb)) p.2).bind fun _ => .pure _

/-- An expression whose numerals are numbers does not stop at one. -/
theorem eval_avoids (numbers : I.Numbers) (n : Node) :
    NumeralsFit n → ∀ σ, Avoids .numeral (eval I n σ) := by
  induction n using Node.induction with
  | step n ih =>
    intro fits σ
    have child : ∀ m ∈ n.children, ∀ σ, Avoids .numeral (eval I m σ) := fun m hm =>
      ih m (Node.mem_descendants_of_child hm) (fits.child hm)
    rcases n with ⟨kind, attr, loc, note, children⟩
    cases kind with
    | id =>
      simp only [eval]
      exact (yieldOr_avoids (by decide) _).bind fun _ => .pure _
    | num =>
      have hfits := fits _ (Node.mem_preorder_self _) rfl
      obtain ⟨w, hw⟩ := Option.isSome_iff_exists.mp hfits
      simp only [eval, hw]
      exact .pure _
    | trueLiteral | falseLiteral | string =>
      simp only [eval]
      exact .pure _
    | binary op =>
      rcases children with _ | ⟨l, _ | ⟨r, _ | _⟩⟩
      case cons.cons.nil =>
        have hl := child l (by simp)
        have hr := child r (by simp)
        cases op with
        | assign =>
          simp only [eval]
          refine (hr σ).bind fun _ => ?_
          exact (yieldOr_avoids (by decide) _).bind fun _ => .pure _
        | and =>
          simp only [eval]
          refine (hl σ).bind fun p => (asBool_avoids p.1).bind fun b => ?_
          cases b with
          | true => exact hr p.2
          | false => exact .pure _
        | or =>
          simp only [eval]
          refine (hl σ).bind fun p => (asBool_avoids p.1).bind fun b => ?_
          cases b with
          | true => exact .pure _
          | false => exact hr p.2
        | _ =>
          simp only [eval]
          refine (hl σ).bind fun p => (hr p.2).bind fun q => ?_
          exact (combine_avoids _ p.1 q.1).bind fun _ => .pure _
      all_goals
        simp only [eval]
        exact .stop (by decide)
    | unary op =>
      rcases children with _ | ⟨e, _ | _⟩
      case cons.nil =>
        simp only [eval]
        refine (child e (by simp) σ).bind fun p => ?_
        exact (apply_avoids op p.1).bind fun _ => .pure _
      all_goals
        simp only [eval]
        exact .stop (by decide)
    | functionInvocation =>
      unfold eval
      dsimp only
      split
      · next callee listKind listAttr listLoc listNote args =>
        have hlist : NumeralsFit ⟨listKind, listAttr, listLoc, listNote, args⟩ :=
          fits.child (by simp)
        have hargs : ∀ a ∈ args, ∀ σ, Avoids .numeral (eval I a σ) := by
          intro a ha
          exact ih a (Node.mem_descendants_of_argument ha) (hlist.child ha)
        refine (evalAll_avoids hargs σ).bind fun p => ?_
        exact (numbers callee.attr p.1 p.2.store).bind fun _ => .pure _
      · exact .stop (by decide)
    | _ =>
      simp only [eval]
      exact .stop (by decide)

theorem test_avoids {cond : Node} (h : ∀ σ, Avoids .numeral (eval I cond σ)) (σ : Scene) :
    Avoids .numeral (test I cond σ) :=
  (h σ).bind fun p => (asBool_avoids p.1).bind fun _ => .pure _

/-! ## Statements -/

theorem repeatWhile_avoids {condition : Scene → Run (Bool × Scene)}
    {body : Scene → Run (Exit × Scene)} (hcondition : ∀ σ, Avoids .numeral (condition σ))
    (hbody : ∀ σ, Avoids .numeral (body σ)) (n : Nat) (σ : Scene) :
    Avoids .numeral (repeatWhile condition body n σ) := by
  induction n generalizing σ with
  | zero =>
    rw [repeatWhile]
    refine (hcondition σ).bind ?_
    rintro ⟨_ | _, σ'⟩
    · exact .pure _
    · exact .stop (by decide)
  | succ n ih =>
    rw [repeatWhile]
    refine (hcondition σ).bind ?_
    rintro ⟨_ | _, σ'⟩
    · exact .pure _
    · refine (hbody σ').bind ?_
      rintro ⟨_ | _ | v, σ''⟩
      · exact ih σ''
      · exact .pure _
      · exact .pure _

theorem execAll_avoids {ss : List Node} (h : ∀ s ∈ ss, ∀ σ, Avoids .numeral (exec I s σ))
    (σ : Scene) : Avoids .numeral (execAll I ss σ) := by
  induction ss generalizing σ with
  | nil =>
    rw [execAll]
    exact .pure _
  | cons s rest ih =>
    rw [execAll]
    refine (h s List.mem_cons_self σ).bind ?_
    rintro ⟨_ | _ | v, σ'⟩
    · exact ih (fun s hs => h s (List.mem_cons_of_mem _ hs)) σ'
    · exact .pure _
    · exact .pure _

/-- A statement whose numerals are numbers does not stop at one. -/
theorem exec_avoids (numbers : I.Numbers) (n : Node) :
    NumeralsFit n → ∀ σ, Avoids .numeral (exec I n σ) := by
  induction n using Node.induction with
  | step n ih =>
    intro fits σ
    have child : ∀ m ∈ n.children, ∀ σ, Avoids .numeral (exec I m σ) := fun m hm =>
      ih m (Node.mem_descendants_of_child hm) (fits.child hm)
    have value : ∀ m ∈ n.children, ∀ σ, Avoids .numeral (eval I m σ) := fun m hm =>
      eval_avoids numbers m (fits.child hm)
    rcases n with ⟨kind, attr, loc, note, children⟩
    cases kind with
    | block =>
      rw [exec]
      exact execAll_avoids child σ
    | nullStatement | «break» =>
      rw [exec]
      exact .pure _
    | variableDeclaration =>
      unfold exec
      dsimp only
      split
      · exact .pure _
      · exact .stop (by decide)
    | statementExpression =>
      unfold exec
      dsimp only
      split
      · exact (value _ List.mem_cons_self σ).bind fun _ => .pure _
      · exact .stop (by decide)
    | functionInvocation =>
      rw [exec]
      exact (eval_avoids numbers _ fits σ).bind fun _ => .pure _
    | ifThen =>
      unfold exec
      dsimp only
      split
      · next cond arm =>
        refine (test_avoids (value cond (by simp)) σ).bind ?_
        rintro ⟨_ | _, σ'⟩
        · exact .pure _
        · exact child arm (by simp) σ'
      · exact .stop (by decide)
    | ifElse =>
      unfold exec
      dsimp only
      split
      · next cond arm₁ arm₂ =>
        refine (test_avoids (value cond (by simp)) σ).bind ?_
        rintro ⟨_ | _, σ'⟩
        · exact child arm₂ (by simp) σ'
        · exact child arm₁ (by simp) σ'
      · exact .stop (by decide)
    | «while» =>
      unfold exec
      dsimp only
      split
      · next cond body =>
        exact repeatWhile_avoids (test_avoids (value cond (by simp))) (child body (by simp)) I.fuel σ
      · exact .stop (by decide)
    | «return» =>
      unfold exec
      dsimp only
      split
      · exact .pure _
      · exact (value _ List.mem_cons_self σ).bind fun _ => .pure _
      · exact .stop (by decide)
    | _ =>
      simp only [exec]
      exact .stop (by decide)

/-! ## Programs -/

theorem enter_avoids (numbers : I.Numbers) {d : Node} (fits : NumeralsFit d) (args : List Value)
    (store : Store Value) : Avoids .numeral (enter I d args store) := by
  unfold enter
  split
  · next result _ _ body ps hchildren _ =>
    have hbody : NumeralsFit body := fits.child (by rw [hchildren]; simp)
    split
    · refine (execAll_avoids (fun s hs => exec_avoids numbers s (hbody.child hs)) _).bind ?_
      rintro ⟨_ | _ | v, σ⟩
      · show Avoids .numeral (if result.kind = .void then _ else _)
        split
        · exact .pure _
        · exact .stop (by decide)
      · exact .stop (by decide)
      · exact .pure _
    · exact .stop (by decide)
  · exact .stop (by decide)

theorem printing_avoids (bs : Bytes) (store : Store Value) :
    Avoids .numeral (printing bs store) := by
  intro h
  cases h

theorem builtin_avoids (name : Bytes) (args : List Value) (store : Store Value) :
    Avoids .numeral (builtin name args store) := by
  unfold builtin
  split
  · split
    · exact .stop (by decide)
    · split
      · exact .pure _
      · exact .stop (by decide)
  · split
    · exact fun h => by cases h
    · split
      · exact printing_avoids _ store
      · exact .stop (by decide)
  · split
    · exact printing_avoids _ store
    · exact .stop (by decide)
  · split
    · exact (yieldOr_avoids (by decide) _).bind fun bs => printing_avoids bs store
    · exact .stop (by decide)
  · exact .stop (by decide)

theorem resolve_avoids {ds : List Node}
    {enter : Node → List Value → Store Value → Run (Value × Store Value)}
    (henter : ∀ d ∈ ds, ∀ args store, Avoids .numeral (enter d args store)) (name : Bytes)
    (args : List Value) (store : Store Value) :
    Avoids .numeral (resolve ds enter name args store) := by
  unfold resolve
  cases hd : ds.find? (declares name) with
  | some d => exact henter d (List.mem_of_find?_eq_some hd) args store
  | none => exact builtin_avoids name args store

theorem calls_avoids {ds : List Node} (fits : ∀ d ∈ ds, NumeralsFit d) (n m : Nat) :
    Interpreter.Numbers ⟨calls ds n, m⟩ := by
  induction n generalizing m with
  | zero => exact resolve_avoids fun _ _ _ _ => .stop (by decide)
  | succ n ih => exact resolve_avoids fun d hd => enter_avoids (ih n) (fits d hd)

/-- A program whose numerals are numbers does not stop at one. -/
theorem runProgram_avoids {root : Node} (fits : NumeralsFit root) (input : Nat → Word) (n : Nat) :
    Avoids .numeral (runProgram root input n) := by
  cases n with
  | zero => exact .stop (by decide)
  | succ n =>
    rw [runProgram]
    cases hd : root.children.find? (·.kind = .entryPointDeclaration) with
    | none => exact .stop (by decide)
    | some d =>
      have hnumbers := calls_avoids (fun d hd => fits.child hd) n n
      have hentry : NumeralsFit d := fits.child (List.mem_of_find?_eq_some hd)
      show Avoids .numeral (yieldOr .wrong (parameters? d) >>= _)
      refine (yieldOr_avoids (by decide) _).bind fun ps => ?_
      exact (enter_avoids hnumbers hentry _ _).bind fun _ => .pure _

end Source

end TreeWat
