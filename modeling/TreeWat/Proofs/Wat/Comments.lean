import TreeWat.Wat.Basic
set_option autoImplicit false

/-!
# Wat: code without its comments

A comment is an element of a body like any other, and it may stand at any depth.
`uncommented` takes the comments out of every body and leaves the rest as it is, and
`comments` lists the texts that are taken out.  Both follow the nesting of a body and
are known on appended code, which is how code is put together.
-/

namespace TreeWat.Wat

variable {α : Type}

/-! ## Bodies -/

mutual

/-- What is left of an instruction: nothing of a comment, and the instruction over what
is left of its bodies otherwise. -/
def Instr.uncommented : Instr α → List (Instr α)
  | .op a => [.op a]
  | .comment _ => []
  | .block label body => [.block label (uncommented body)]
  | .loop label body => [.loop label (uncommented body)]
  | .cond whenTrue whenFalse => [.cond (uncommented whenTrue) (uncommented whenFalse)]

/-- A body without its comments, at every depth. -/
def uncommented : List (Instr α) → List (Instr α)
  | [] => []
  | i :: rest => i.uncommented ++ uncommented rest

end

mutual

/-- The texts of the comments in an instruction. -/
def Instr.comments : Instr α → List Bytes
  | .op _ => []
  | .comment text => [text]
  | .block _ body => comments body
  | .loop _ body => comments body
  | .cond whenTrue whenFalse => comments whenTrue ++ comments whenFalse

/-- The texts of the comments in a body, at every depth. -/
def comments : List (Instr α) → List Bytes
  | [] => []
  | i :: rest => i.comments ++ comments rest

end

@[simp] theorem uncommented_nil : uncommented ([] : List (Instr α)) = [] := by
  rw [uncommented]

@[simp] theorem uncommented_cons (i : Instr α) (rest : List (Instr α)) :
    uncommented (i :: rest) = i.uncommented ++ uncommented rest := by
  rw [uncommented]

@[simp] theorem comments_nil : comments ([] : List (Instr α)) = [] := by
  rw [comments]

@[simp] theorem comments_cons (i : Instr α) (rest : List (Instr α)) :
    comments (i :: rest) = i.comments ++ comments rest := by
  rw [comments]

attribute [simp] Instr.uncommented Instr.comments

@[simp] theorem uncommented_append (body more : List (Instr α)) :
    uncommented (body ++ more) = uncommented body ++ uncommented more := by
  induction body with
  | nil => simp
  | cons i rest ih => simp [ih]

@[simp] theorem comments_append (body more : List (Instr α)) :
    comments (body ++ more) = comments body ++ comments more := by
  induction body with
  | nil => simp
  | cons i rest ih => simp [ih]

mutual

theorem Instr.comments_uncommented : ∀ i : Instr α, comments i.uncommented = []
  | .op _ => by simp
  | .comment _ => by simp
  | .block _ body => by simp [comments_uncommented body]
  | .loop _ body => by simp [comments_uncommented body]
  | .cond whenTrue whenFalse => by
    simp [comments_uncommented whenTrue, comments_uncommented whenFalse]

/-- No comment is left. -/
theorem comments_uncommented : ∀ body : List (Instr α), comments (uncommented body) = []
  | [] => by simp
  | i :: rest => by simp [Instr.comments_uncommented i, comments_uncommented rest]

end

mutual

theorem Instr.uncommented_of_comments :
    ∀ i : Instr α, i.comments = [] → i.uncommented = [i]
  | .op _, _ => by simp
  | .comment _, h => by simp at h
  | .block _ body, h => by
    rw [Instr.comments] at h
    simp [uncommented_of_comments body h]
  | .loop _ body, h => by
    rw [Instr.comments] at h
    simp [uncommented_of_comments body h]
  | .cond whenTrue whenFalse, h => by
    rw [Instr.comments, List.append_eq_nil_iff] at h
    simp [uncommented_of_comments whenTrue h.1, uncommented_of_comments whenFalse h.2]

/-- Nothing is taken out of a body that has no comments. -/
theorem uncommented_of_comments :
    ∀ body : List (Instr α), comments body = [] → uncommented body = body
  | [], _ => by simp
  | i :: rest, h => by
    rw [comments, List.append_eq_nil_iff] at h
    simp [Instr.uncommented_of_comments i h.1, uncommented_of_comments rest h.2]

end

/-! ## Functions and modules -/

/-- The function without the comments of its body. -/
def Func.uncommented (f : Func α) : Func α :=
  { f with body := Wat.uncommented f.body }

/-- The module without the comments of its functions. -/
def Module.uncommented (m : Module α) : Module α :=
  { m with funcs := m.funcs.map Func.uncommented }

/-- The texts of the comments of a module. -/
def Module.comments (m : Module α) : List Bytes :=
  m.funcs.flatMap fun f => Wat.comments f.body

theorem Func.uncommented_of_comments {f : Func α} (none : Wat.comments f.body = []) :
    f.uncommented = f := by
  unfold Func.uncommented
  rw [Wat.uncommented_of_comments f.body none]

/-- No comment is left in a module. -/
theorem Module.comments_uncommented (m : Module α) : m.uncommented.comments = [] := by
  simp [Module.comments, Module.uncommented, Func.uncommented, Wat.comments_uncommented]

end TreeWat.Wat
