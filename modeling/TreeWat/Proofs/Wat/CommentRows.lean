import TreeWat.Wat.Printer
import TreeWat.Proofs.Text.Rows
import TreeWat.Proofs.Wat.Comments
set_option autoImplicit false

/-!
# Wat: comment rows of a printed module

The printer writes a comment as one line.  Leaving out the comment rows of the text of a
module therefore gives the text of the module without its comments, as long as three things
hold: no other line has a comment row in it, no comment has a row that is none, and no arm
of a conditional is there for its comments only.  Each of the three is needed, since the
rows that are left can only be more than the lines of the module without comments.

Main statement: `Module.withoutCommentRows_print_iff`.
-/

namespace TreeWat.Wat

/-! ## Comments that stay comments -/

/-- Every row of a comment with this text is a comment. -/
def StaysComment (text : Bytes) : Prop :=
  ∀ row ∈ rows (utf8 ";; " ++ text ++ [byte '\n']), isCommentRow row = true

instance : DecidablePred StaysComment :=
  fun text => inferInstanceAs
    (Decidable (∀ row ∈ rows (utf8 ";; " ++ text ++ [byte '\n']), isCommentRow row = true))

/-- A comment without a line break stays one. -/
theorem staysComment_of_oneLine {text : Bytes} (line : OneLine text) : StaysComment text := by
  have hline : OneLine (utf8 ";; " ++ text) := oneLine_append.mpr ⟨by decide, line⟩
  unfold StaysComment
  rw [rows_line hline, List.forall_mem_singleton, isCommentRow_break]
  exact isCommentRow_semicolons (byte ' ' :: text)

section

variable {α : Type}

mutual

/-- No second arm in the instruction has comments only. -/
def Instr.ArmsKept : Instr α → Prop
  | .op _ => True
  | .comment _ => True
  | .block _ body => armsKept body
  | .loop _ body => armsKept body
  | .cond whenTrue whenFalse =>
    armsKept whenTrue ∧ armsKept whenFalse ∧ (whenFalse ≠ [] → uncommented whenFalse ≠ [])

/-- As `Instr.ArmsKept`, for a body. -/
def armsKept : List (Instr α) → Prop
  | [] => True
  | i :: rest => i.ArmsKept ∧ armsKept rest

end

attribute [simp] Instr.ArmsKept armsKept

@[simp] theorem armsKept_append {body more : List (Instr α)} :
    armsKept (body ++ more) ↔ armsKept body ∧ armsKept more := by
  induction body with
  | nil => simp
  | cons i rest ih => simp [ih, and_assoc]

mutual

theorem Instr.armsKept_of_comments : ∀ i : Instr α, i.comments = [] → i.ArmsKept
  | .op _, _ => trivial
  | .comment _, _ => trivial
  | .block _ body, h => armsKept_of_comments body (by simpa using h)
  | .loop _ body, h => armsKept_of_comments body (by simpa using h)
  | .cond whenTrue whenFalse, h => by
    rw [Instr.comments, List.append_eq_nil_iff] at h
    refine ⟨armsKept_of_comments whenTrue h.1, armsKept_of_comments whenFalse h.2, ?_⟩
    rw [uncommented_of_comments whenFalse h.2]
    exact id

/-- Without comments there is no arm of comments only. -/
theorem armsKept_of_comments : ∀ body : List (Instr α), comments body = [] → armsKept body
  | [], _ => trivial
  | i :: more, h => by
    rw [comments_cons, List.append_eq_nil_iff] at h
    exact ⟨Instr.armsKept_of_comments i h.1, armsKept_of_comments more h.2⟩

end

/-! ## What is left of a text -/

/-- The first text is the second with something left out, and nothing is left out exactly if
the condition holds. -/
structure Spared (condition : Prop) (part whole : Bytes) : Prop where
  sublist : part.Sublist whole
  eq_iff : part = whole ↔ condition

theorem Spared.rfl (t : Bytes) : Spared True t t :=
  ⟨.refl t, by simp⟩

theorem Spared.congr {P Q : Prop} {part whole : Bytes} (h : Spared P part whole) (same : P ↔ Q) :
    Spared Q part whole :=
  ⟨h.sublist, h.eq_iff.trans same⟩

theorem Spared.append {P Q : Prop} {s s' t t' : Bytes} (h : Spared P s s') (h' : Spared Q t t') :
    Spared (P ∧ Q) (s ++ t) (s' ++ t') := by
  refine ⟨h.sublist.append h'.sublist, ?_⟩
  rw [← h.eq_iff, ← h'.eq_iff]
  constructor
  · intro heq
    have hs := h.sublist.length_le
    have ht := h'.sublist.length_le
    have hlen := congrArg List.length heq
    simp only [List.length_append] at hlen
    exact ⟨h.sublist.eq_of_length (by omega), h'.sublist.eq_of_length (by omega)⟩
  · rintro ⟨rfl, rfl⟩
    exact Eq.refl _

theorem Spared.nothing {P : Prop} {whole : Bytes} (h : whole = [] ↔ P) : Spared P [] whole :=
  ⟨List.nil_sublist whole, by rw [← h, eq_comm]⟩

/-! ## Lines -/

/-- What is left of lines without comment rows. -/
def rest (ls : List Line) : Bytes :=
  withoutCommentRows (printLines ls)

@[simp] theorem rest_nil : rest [] = [] := Eq.refl _

theorem rest_cons (l : Line) (ls : List Line) : rest (l :: ls) = rest [l] ++ rest ls := by
  simp only [rest, printLines, List.flatMap_cons, List.flatMap_nil, List.append_nil, Line.print]
  exact withoutCommentRows_append_break _ _

theorem rest_append (ls more : List Line) : rest (ls ++ more) = rest ls ++ rest more := by
  induction ls with
  | nil => simp
  | cons l ls ih => rw [List.cons_append, rest_cons, ih, rest_cons l ls, List.append_assoc]

/-- A line without a break is left out or kept as a whole. -/
theorem rest_line {depth : Nat} {text : Bytes} (line : OneLine text) :
    rest [⟨depth, text⟩] =
      if isCommentRow text = true then [] else Line.print ⟨depth, text⟩ := by
  have htabs : OneLine (List.replicate depth (byte '\t') ++ text) :=
    oneLine_append.mpr ⟨fun h => absurd (List.eq_of_mem_replicate h) (by decide), line⟩
  simp only [rest, printLines, List.flatMap_cons, List.flatMap_nil, List.append_nil, Line.print]
  rw [withoutCommentRows_line htabs, isCommentRow_tabs]

/-- Nothing is left of a comment exactly if all its rows are comments. -/
theorem rest_comment {depth : Nat} {text : Bytes} :
    rest [⟨depth, utf8 ";; " ++ text⟩] = [] ↔ StaysComment text := by
  simp only [rest, printLines, List.flatMap_cons, List.flatMap_nil, List.append_nil, Line.print]
  rw [List.append_assoc, withoutCommentRows_tabs (by simp), withoutCommentRows_eq_nil_iff]
  rfl

/-- A text of one row that is no comment. -/
def Plain (text : Bytes) : Prop :=
  OneLine text ∧ isCommentRow text = false

instance : DecidablePred Plain :=
  fun text => inferInstanceAs (Decidable (OneLine text ∧ isCommentRow text = false))

/-- The texts of the lines are plain. -/
def AllPlain (ls : List Line) : Prop :=
  ∀ l ∈ ls, Plain l.text

instance : DecidablePred AllPlain :=
  fun ls => inferInstanceAs (Decidable (∀ l ∈ ls, Plain l.text))

@[simp] theorem allPlain_nil : AllPlain [] :=
  fun _ h => absurd h List.not_mem_nil

@[simp] theorem allPlain_cons {depth : Nat} {text : Bytes} {ls : List Line} :
    AllPlain (⟨depth, text⟩ :: ls) ↔ Plain text ∧ AllPlain ls :=
  List.forall_mem_cons

@[simp] theorem allPlain_append {ls more : List Line} :
    AllPlain (ls ++ more) ↔ AllPlain ls ∧ AllPlain more :=
  List.forall_mem_append

/-- Lines of this kind are all kept. -/
theorem rest_of_plain {ls : List Line} (plain : AllPlain ls) : rest ls = printLines ls := by
  induction ls with
  | nil => exact Eq.refl _
  | cons l ls ih =>
    obtain ⟨⟨hline, hcomment⟩, hothers⟩ := allPlain_cons.mp plain
    rw [rest_cons, ih hothers, rest_line hline, if_neg (by simp [hcomment])]
    simp [printLines]

/-! ## Bodies -/

variable (opText : α → Bytes)

theorem bodyLines_append (depth : Nat) (body more : List (Instr α)) :
    bodyLines opText depth (body ++ more) =
      bodyLines opText depth body ++ bodyLines opText depth more := by
  induction body with
  | nil => simp [bodyLines]
  | cons i rest ih => simp [bodyLines, ih]

/-- The lines of the second arm of a conditional. -/
def armLines (depth : Nat) (whenFalse : List (Instr α)) : List Line :=
  if whenFalse.isEmpty then []
  else ⟨depth + 1, utf8 "(else"⟩ :: bodyLines opText (depth + 2) whenFalse
    ++ [⟨depth + 1, utf8 ")"⟩]

@[simp] theorem armLines_nil (depth : Nat) : armLines opText depth [] = [] := Eq.refl _

theorem rest_armLines {whenFalse : List (Instr α)} (notEmpty : whenFalse ≠ []) (depth : Nat) :
    rest (armLines opText depth whenFalse) =
      rest [⟨depth + 1, utf8 "(else"⟩] ++ (rest (bodyLines opText (depth + 2) whenFalse)
        ++ rest [⟨depth + 1, utf8 ")"⟩]) := by
  rw [armLines, if_neg (by simpa using notEmpty), List.cons_append, rest_cons, rest_append]

theorem bodyLines_single (depth : Nat) (i : Instr α) :
    bodyLines opText depth [i] = i.lines opText depth := by
  simp [bodyLines]

theorem rest_block (depth : Nat) (label : Bytes) (body : List (Instr α)) :
    rest (Instr.lines opText depth (.block label body)) =
      rest [⟨depth, utf8 "(block " ++ label⟩] ++ (rest (bodyLines opText (depth + 1) body)
        ++ rest [⟨depth, utf8 ")"⟩]) := by
  rw [Instr.lines, List.cons_append, rest_cons, rest_append]

theorem rest_loop (depth : Nat) (label : Bytes) (body : List (Instr α)) :
    rest (Instr.lines opText depth (.loop label body)) =
      rest [⟨depth, utf8 "(loop " ++ label⟩] ++ (rest (bodyLines opText (depth + 1) body)
        ++ rest [⟨depth, utf8 ")"⟩]) := by
  rw [Instr.lines, List.cons_append, rest_cons, rest_append]

theorem Instr.lines_cond (depth : Nat) (whenTrue whenFalse : List (Instr α)) :
    Instr.lines opText depth (.cond whenTrue whenFalse) =
      [⟨depth, utf8 "(if"⟩, ⟨depth + 1, utf8 "(then"⟩]
        ++ (bodyLines opText (depth + 2) whenTrue ++ ([⟨depth + 1, utf8 ")"⟩]
        ++ (armLines opText depth whenFalse ++ [⟨depth, utf8 ")"⟩]))) := by
  simp [Instr.lines, armLines]

theorem rest_cond (depth : Nat) (whenTrue whenFalse : List (Instr α)) :
    rest (Instr.lines opText depth (.cond whenTrue whenFalse)) =
      rest [⟨depth, utf8 "(if"⟩, ⟨depth + 1, utf8 "(then"⟩]
        ++ (rest (bodyLines opText (depth + 2) whenTrue)
        ++ (rest [⟨depth + 1, utf8 ")"⟩]
        ++ (rest (armLines opText depth whenFalse) ++ rest [⟨depth, utf8 ")"⟩]))) := by
  rw [Instr.lines_cond, rest_append, rest_append, rest_append, rest_append]

/-- What is left is what is printed without comments, if these stay comments and no arm is
there for its comments only; else there is more left. -/
def BodySpared (body : List (Instr α)) : Prop :=
  ∀ depth, Spared ((∀ text ∈ comments body, StaysComment text) ∧ armsKept body)
    (rest (bodyLines opText depth (uncommented body))) (rest (bodyLines opText depth body))

/-- An arm with comments only is printed with two lines that the other mode lacks. -/
theorem arm_spared {whenFalse : List (Instr α)} (h : BodySpared opText whenFalse) (depth : Nat) :
    Spared ((∀ text ∈ comments whenFalse, StaysComment text) ∧ armsKept whenFalse ∧
        (whenFalse ≠ [] → uncommented whenFalse ≠ []))
      (rest (armLines opText depth (uncommented whenFalse)))
      (rest (armLines opText depth whenFalse)) := by
  by_cases hempty : whenFalse = []
  · subst hempty
    exact (Spared.rfl _).congr (by simp)
  · rw [rest_armLines opText hempty]
    by_cases hleft : uncommented whenFalse = []
    · have hopen : rest [⟨depth + 1, utf8 "(else"⟩] ≠ [] := by
        rw [rest_line (by decide), if_neg (by decide)]
        simp [Line.print]
      rw [hleft, armLines_nil, rest_nil]
      exact .nothing (by simp [hopen, hempty])
    · rw [rest_armLines opText hleft]
      refine ((Spared.rfl _).append ((h (depth + 2)).append (.rfl _))).congr ?_
      tauto

mutual

theorem Instr.spared : ∀ (i : Instr α) (depth : Nat),
    Spared ((∀ text ∈ i.comments, StaysComment text) ∧ i.ArmsKept)
      (rest (bodyLines opText depth i.uncommented)) (rest (i.lines opText depth))
  | .op a, depth => by
    rw [Instr.uncommented, bodyLines_single]
    exact (Spared.rfl _).congr (by simp)
  | .comment text, depth => by
    rw [Instr.uncommented, bodyLines, rest_nil, Instr.lines]
    exact .nothing (by simp [rest_comment])
  | .block label body, depth => by
    rw [Instr.uncommented, bodyLines_single, rest_block, rest_block]
    have inner := body_spared body (depth + 1)
    exact ((Spared.rfl _).append (inner.append (.rfl _))).congr (by simp)
  | .loop label body, depth => by
    rw [Instr.uncommented, bodyLines_single, rest_loop, rest_loop]
    have inner := body_spared body (depth + 1)
    exact ((Spared.rfl _).append (inner.append (.rfl _))).congr (by simp)
  | .cond whenTrue whenFalse, depth => by
    rw [Instr.uncommented, bodyLines_single, rest_cond, rest_cond]
    have first := body_spared whenTrue (depth + 2)
    have second := arm_spared opText (body_spared whenFalse) depth
    refine ((Spared.rfl _).append (first.append ((Spared.rfl _).append
      (second.append (.rfl _))))).congr ?_
    simp only [Instr.comments, Instr.ArmsKept, List.forall_mem_append]
    tauto

theorem body_spared : ∀ body : List (Instr α), BodySpared opText body
  | [], depth => (Spared.rfl _).congr (by simp)
  | i :: more, depth => by
    rw [uncommented_cons, bodyLines_append, rest_append, bodyLines, rest_append]
    refine ((Instr.spared i depth).append (body_spared more depth)).congr ?_
    simp only [comments_cons, armsKept, List.forall_mem_append]
    tauto

end

/-! ## Modules -/

/-- No second arm in the module has comments only. -/
def Module.ArmsKept (m : Module α) : Prop :=
  ∀ f ∈ m.funcs, armsKept f.body

theorem Func.rest_lines (f : Func α) :
    rest (f.lines opText) =
      rest (⟨1, f.head⟩ :: f.locals.map fun l => ⟨2, utf8 "(local " ++ l ++ utf8 " i32)"⟩)
        ++ (rest (bodyLines opText 2 f.body) ++ rest [⟨1, utf8 ")"⟩]) := by
  rw [Func.lines, rest_append, rest_append, List.append_assoc]

theorem funcs_spared (fs : List (Func α)) :
    Spared ((∀ text ∈ fs.flatMap fun f => Wat.comments f.body, StaysComment text) ∧
        ∀ f ∈ fs, armsKept f.body)
      (rest ((fs.map Func.uncommented).flatMap (Func.lines opText)))
      (rest (fs.flatMap (Func.lines opText))) := by
  induction fs with
  | nil => exact (Spared.rfl _).congr (by simp)
  | cons f more ih =>
    have hfunc : Spared ((∀ text ∈ Wat.comments f.body, StaysComment text) ∧ armsKept f.body)
        (rest (f.uncommented.lines opText)) (rest (f.lines opText)) := by
      rw [Func.rest_lines, Func.rest_lines]
      exact ((Spared.rfl _).append ((body_spared opText f.body 2).append (.rfl _))).congr (by simp)
    simp only [List.map_cons, List.flatMap_cons, rest_append]
    refine (hfunc.append ih).congr ?_
    simp only [List.forall_mem_append, List.forall_mem_cons]
    tauto

/-- The lines of a module behind its functions. -/
def Module.ending (m : Module α) : List Line :=
  m.globals.map (fun g => ⟨1, utf8 "(global " ++ g ++ utf8 " (mut i32) (i32.const 0))"⟩)
    ++ (match m.start with
      | some s => [⟨1, utf8 "(start " ++ s ++ utf8 ")"⟩]
      | none => [])
    ++ [⟨1, utf8 "(memory " ++ Bytes.ofInt m.memory ++ utf8 ")"⟩]
    ++ m.data.map (fun d => ⟨1, d.lineText⟩)
    ++ [⟨0, utf8 ")"⟩]

theorem Module.rest_lines (m : Module α) :
    rest (m.lines opText) =
      rest (⟨0, utf8 "(module"⟩ :: m.imports.map fun i => ⟨1, i.text⟩)
        ++ (rest (m.funcs.flatMap (Func.lines opText)) ++ rest m.ending) := by
  rw [← rest_append, ← rest_append]
  -- the start is written out or left out in both
  cases hstart : m.start <;>
    simp only [Module.lines, Module.ending, hstart, List.append_assoc, List.cons_append,
      List.nil_append]

theorem Module.spared (m : Module α) :
    Spared ((∀ text ∈ m.comments, StaysComment text) ∧ m.ArmsKept)
      (withoutCommentRows (m.uncommented.print opText))
      (withoutCommentRows (m.print opText)) := by
  change Spared _ (rest (m.uncommented.lines opText)) (rest (m.lines opText))
  rw [Module.rest_lines, Module.rest_lines]
  exact ((Spared.rfl _).append ((funcs_spared opText m.funcs).append (.rfl _))).congr
    (by simp [Module.comments, Module.ArmsKept])

/-- Leaving out the comment rows of a module gives the module without comments, exactly if
the latter has no comment rows, every comment stays a comment and no arm is there for its
comments only. -/
theorem Module.withoutCommentRows_print_iff (m : Module α) :
    withoutCommentRows (m.print opText) = m.uncommented.print opText ↔
      withoutCommentRows (m.uncommented.print opText) = m.uncommented.print opText ∧
        (∀ text ∈ m.comments, StaysComment text) ∧ m.ArmsKept := by
  have spared := m.spared opText
  constructor
  · intro h
    have noRows : withoutCommentRows (m.uncommented.print opText) = m.uncommented.print opText := by
      rw [← h, withoutCommentRows_idem]
    exact ⟨noRows, spared.eq_iff.mp (noRows.trans h.symm)⟩
  · rintro ⟨noRows, h⟩
    rw [← spared.eq_iff.mpr h, noRows]

end

end TreeWat.Wat
