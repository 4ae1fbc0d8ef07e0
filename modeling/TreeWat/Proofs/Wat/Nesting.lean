import TreeWat.Proofs.Wat.CommentRows
set_option autoImplicit false

/-!
# Wat: nesting shows in the printed text

The printer flattens a tree into lines.  What is left of the nesting are the brackets that
open and close lines and the tabs in front of them, and that is enough: as long as no text
of the tree breaks a line and no plain instruction begins like a bracket, a comment or more
indentation, every row of the text is indented to its depth, and the tree can be told from
the text.

The depth of a row is the number of rows above it that open something which is still open;
a row that closes something stands at the depth of the row that opened it.

Main statement: `printBody_eq_iff`.
-/

namespace TreeWat

/-! ## Rows and their depth -/

/-- The number of tabs that a row begins with. -/
def indentation (row : Bytes) : Nat :=
  (row.takeWhile (· == byte '\t')).length

/-- The first byte behind the tabs is an opening bracket. -/
def opensRow (row : Bytes) : Bool :=
  (row.dropWhile (· == byte '\t')).head? == some (byte '(')

/-- The first byte behind the tabs is a closing bracket. -/
def closesRow (row : Bytes) : Bool :=
  (row.dropWhile (· == byte '\t')).head? == some (byte ')')

/-- Every row of the text is indented to its depth, and what is opened is closed. -/
structure IndentedByDepth (text : Bytes) : Prop where
  indented : ∀ above row below, rows text = above ++ row :: below →
    indentation row + (above ++ [row]).countP closesRow = above.countP opensRow
  balanced : (rows text).countP opensRow = (rows text).countP closesRow

/-- Rows that lead from one depth to another, each of them indented as its depth asks. -/
inductive Leads : Nat → List Bytes → Nat → Prop where
  | nil {depth} : Leads depth [] depth
  | cons {depth row more final} (here : indentation row + (closesRow row).toNat = depth)
      (others : Leads (indentation row + (opensRow row).toNat) more final) :
      Leads depth (row :: more) final

namespace Leads

variable {start middle final : Nat} {above below : List Bytes}

theorem append (h : Leads start above middle) (h' : Leads middle below final) :
    Leads start (above ++ below) final := by
  induction h with
  | nil => exact h'
  | cons here _ ih => exact .cons here (ih h')

theorem countP_eq {pieces : List Bytes} (h : Leads start pieces final) :
    final + pieces.countP closesRow = start + pieces.countP opensRow := by
  induction h with
  | nil => rfl
  | @cons depth row more final here _ ih =>
    rw [List.countP_cons, List.countP_cons]
    cases hopen : opensRow row <;> cases hclose : closesRow row <;>
      simp [hopen, hclose] at here ih ⊢ <;> omega

/-- The rows above a row have led to its depth. -/
theorem split {row : Bytes} (h : Leads start (above ++ row :: below) final) :
    indentation row + (above ++ [row]).countP closesRow = start + above.countP opensRow := by
  induction above generalizing start with
  | nil =>
    cases h with
    | cons here _ =>
      cases hclose : closesRow row <;> simp [hclose, ← here]
  | cons first above ih =>
    cases h with
    | cons here others =>
      have hrest := ih others
      rw [List.cons_append, List.countP_cons, List.countP_cons]
      cases hopen : opensRow first <;> cases hclose : closesRow first <;>
        simp [hopen, hclose] at here hrest ⊢ <;> omega

theorem indentedByDepth {text : Bytes} (h : Leads 0 (rows text) 0) : IndentedByDepth text where
  indented above row below hrows := by
    have hsplit := split (hrows ▸ h)
    omega
  balanced := by
    have hcount := h.countP_eq
    omega

end Leads

namespace Wat

/-! ## Lines that are rows -/

/-- The text of the line is one row and does not begin with a tab. -/
def Line.IsRow (l : Line) : Prop :=
  OneLine l.text ∧ l.text.head? ≠ some (byte '\t')

theorem rows_printLines {ls : List Line} (each : ∀ l ∈ ls, l.IsRow) :
    rows (printLines ls) = ls.map Line.print := by
  induction ls with
  | nil => rfl
  | cons l ls ih =>
    obtain ⟨⟨line, -⟩, others⟩ := List.forall_mem_cons.mp each
    have htabs : OneLine (List.replicate l.depth (byte '\t') ++ l.text) :=
      oneLine_append.mpr ⟨fun h => absurd (List.eq_of_mem_replicate h) (by decide), line⟩
    have hsplit : printLines (l :: ls) =
        List.replicate l.depth (byte '\t') ++ l.text ++ [byte '\n'] ++ printLines ls := rfl
    rw [hsplit, rows_append_break, rows_line htabs, ih others]
    rfl

namespace Line.IsRow

variable {l l' : Line}

/-- The tabs of a row are its indentation and nothing else. -/
theorem cut (h : l.IsRow) :
    l.print.takeWhile (· == byte '\t') = List.replicate l.depth (byte '\t') ∧
      l.print.dropWhile (· == byte '\t') = l.text ++ [byte '\n'] := by
  obtain ⟨depth, text⟩ := l
  have tabs : ∀ b ∈ List.replicate depth (byte '\t'), (b == byte '\t') = true := by simp
  have hprint : Line.print ⟨depth, text⟩ =
      List.replicate depth (byte '\t') ++ (text ++ [byte '\n']) := List.append_assoc _ _ _
  rw [hprint, List.takeWhile_append_of_pos tabs, List.dropWhile_append_of_pos tabs]
  cases text with
  | nil => exact ⟨List.append_nil _, rfl⟩
  | cons b text =>
    have other : (b == byte '\t') = false := by simpa using h.2
    simp [other]

theorem indentation_print (h : l.IsRow) : indentation l.print = l.depth := by
  rw [indentation, h.cut.1, List.length_replicate]

theorem opensRow_print (h : l.IsRow) :
    opensRow l.print = (l.text.head? == some (byte '(')) := by
  rw [opensRow, h.cut.2]
  cases l.text <;> rfl

theorem closesRow_print (h : l.IsRow) :
    closesRow l.print = (l.text.head? == some (byte ')')) := by
  rw [closesRow, h.cut.2]
  cases l.text <;> rfl

theorem print_injective (h : l.IsRow) (h' : l'.IsRow) (same : l.print = l'.print) : l = l' := by
  have hdepth : l.depth = l'.depth := by
    rw [← h.indentation_print, ← h'.indentation_print, same]
  have htext : l.text ++ [byte '\n'] = l'.text ++ [byte '\n'] := by
    rw [← h.cut.2, ← h'.cut.2, same]
  obtain ⟨depth, text⟩ := l
  obtain ⟨depth', text'⟩ := l'
  obtain rfl : depth = depth' := hdepth
  obtain rfl : text = text' := List.append_cancel_right htext
  rfl

end Line.IsRow

/-- Lines that are rows can be told from their text. -/
theorem printLines_injective {ls ls' : List Line} (each : ∀ l ∈ ls, l.IsRow)
    (each' : ∀ l ∈ ls', l.IsRow) (same : printLines ls = printLines ls') : ls = ls' := by
  have hprints : ls.map Line.print = ls'.map Line.print := by
    rw [← rows_printLines each, ← rows_printLines each', same]
  clear same
  induction ls generalizing ls' with
  | nil => exact (List.map_eq_nil_iff.mp hprints.symm).symm
  | cons l ls ih =>
    cases ls' with
    | nil => cases hprints
    | cons l' ls' =>
      obtain ⟨first, others⟩ := List.forall_mem_cons.mp each
      obtain ⟨first', others'⟩ := List.forall_mem_cons.mp each'
      obtain ⟨hfirst, hothers⟩ := List.cons_eq_cons.mp hprints
      rw [first.print_injective first' hfirst, ih others others' hothers]

/-! ## Code whose texts keep to their lines -/

/-- The text begins neither with a tab nor like a line that the printer writes by itself. -/
def StartsPlainly (text : Bytes) : Prop :=
  text.head? ≠ some (byte '\t') ∧ text.head? ≠ some (byte '(') ∧ text.head? ≠ some (byte ')') ∧
    Bytes.startsWith text (utf8 ";;") = false

instance : DecidablePred StartsPlainly :=
  fun text => inferInstanceAs (Decidable (text.head? ≠ some (byte '\t') ∧
    text.head? ≠ some (byte '(') ∧ text.head? ≠ some (byte ')') ∧
    Bytes.startsWith text (utf8 ";;") = false))

section

variable {α : Type} (opText : α → Bytes)

mutual

/-- No text of the instruction has a line break, and the plain instructions in it begin
plainly. -/
def Instr.Legible : Instr α → Prop
  | .op a => OneLine (opText a) ∧ StartsPlainly (opText a)
  | .comment text => OneLine text
  | .block label body => OneLine label ∧ Legible body
  | .loop label body => OneLine label ∧ Legible body
  | .cond whenTrue whenFalse => Legible whenTrue ∧ Legible whenFalse

/-- As `Instr.Legible`, for a body. -/
def Legible : List (Instr α) → Prop
  | [] => True
  | i :: rest => i.Legible ∧ Legible rest

end

variable {opText}

theorem legible_cons {i : Instr α} {rest : List (Instr α)} :
    Legible opText (i :: rest) ↔ i.Legible opText ∧ Legible opText rest := by
  rw [Legible]

/-! ## Every row at its depth -/

/-- The lines are rows, and these lead from one depth to another. -/
def LinesLead (start : Nat) (ls : List Line) (final : Nat) : Prop :=
  (∀ l ∈ ls, l.IsRow) ∧ Leads start (ls.map Line.print) final

namespace LinesLead

variable {start middle final depth : Nat} {ls more : List Line} {text : Bytes}

theorem nil : LinesLead depth [] depth :=
  ⟨by simp, .nil⟩

theorem append (h : LinesLead start ls middle) (h' : LinesLead middle more final) :
    LinesLead start (ls ++ more) final := by
  refine ⟨List.forall_mem_append.mpr ⟨h.1, h'.1⟩, ?_⟩
  rw [List.map_append]
  exact h.2.append h'.2

/-- A line that is a row leads on by what it opens and closes. -/
theorem single (isRow : Line.IsRow ⟨depth, text⟩) :
    LinesLead (depth + (text.head? == some (byte ')')).toNat) [⟨depth, text⟩]
      (depth + (text.head? == some (byte '(')).toNat) := by
  refine ⟨List.forall_mem_singleton.mpr isRow, .cons ?_ ?_⟩
  · rw [isRow.indentation_print, isRow.closesRow_print]
  · rw [isRow.indentation_print, isRow.opensRow_print]
    exact .nil

theorem plain (isRow : Line.IsRow ⟨depth, text⟩) (noOpening : text.head? ≠ some (byte '('))
    (noClosing : text.head? ≠ some (byte ')')) : LinesLead depth [⟨depth, text⟩] depth := by
  have hsingle := single isRow
  rwa [beq_false_of_ne noOpening, beq_false_of_ne noClosing] at hsingle

theorem opening (line : OneLine text) (starts : text.head? = some (byte '(')) :
    LinesLead depth [⟨depth, text⟩] (depth + 1) := by
  have isRow : Line.IsRow ⟨depth, text⟩ := ⟨line, by rw [starts]; decide⟩
  have hsingle := single isRow
  rwa [starts] at hsingle

theorem closing : LinesLead (depth + 1) [⟨depth, utf8 ")"⟩] depth :=
  have line : OneLine (utf8 ")") := by decide
  have noTab : (utf8 ")").head? ≠ some (byte '\t') := by decide
  single ⟨line, noTab⟩

/-- Lines between one that opens and one that closes. -/
theorem between (line : OneLine text) (starts : text.head? = some (byte '('))
    (inner : LinesLead (depth + 1) ls (depth + 1)) :
    LinesLead depth (⟨depth, text⟩ :: ls ++ [⟨depth, utf8 ")"⟩]) depth :=
  (opening line starts).append (inner.append closing)

end LinesLead

mutual

theorem Instr.linesLead : ∀ (i : Instr α) (depth : Nat), i.Legible opText →
    LinesLead depth (i.lines opText depth) depth
  | .op a, depth, ⟨line, noTab, noOpening, noClosing, _⟩ => by
    rw [Instr.lines]
    exact .plain ⟨line, noTab⟩ noOpening noClosing
  | .comment text, depth, line => by
    have hline : OneLine (utf8 ";; " ++ text) := oneLine_append.mpr ⟨by decide, line⟩
    rw [Instr.lines]
    exact .plain ⟨hline, nofun⟩ nofun nofun
  | .block label body, depth, ⟨line, inner⟩ => by
    rw [Instr.lines]
    exact .between (oneLine_append.mpr ⟨by decide, line⟩) rfl (bodyLines_lead body _ inner)
  | .loop label body, depth, ⟨line, inner⟩ => by
    rw [Instr.lines]
    exact .between (oneLine_append.mpr ⟨by decide, line⟩) rfl (bodyLines_lead body _ inner)
  | .cond whenTrue whenFalse, depth, ⟨first, second⟩ => by
    have hfirst : LinesLead (depth + 1) (⟨depth + 1, utf8 "(then"⟩ ::
        bodyLines opText (depth + 2) whenTrue ++ [⟨depth + 1, utf8 ")"⟩]) (depth + 1) :=
      .between (by decide) rfl (bodyLines_lead whenTrue _ first)
    have hsecond : LinesLead (depth + 1) (armLines opText depth whenFalse) (depth + 1) := by
      unfold armLines
      split
      · exact .nil
      · exact .between (by decide) rfl (bodyLines_lead whenFalse _ second)
    have hboth : LinesLead depth (⟨depth, utf8 "(if"⟩ :: (_ ++ _) ++ [⟨depth, utf8 ")"⟩]) depth :=
      .between (by decide) rfl (hfirst.append hsecond)
    simpa [Instr.lines_cond] using hboth

/-- A body keeps the depth it stands at. -/
theorem bodyLines_lead : ∀ (body : List (Instr α)) (depth : Nat), Legible opText body →
    LinesLead depth (bodyLines opText depth body) depth
  | [], _, _ => by
    rw [bodyLines]
    exact .nil
  | i :: rest, depth, h => by
    obtain ⟨first, others⟩ := legible_cons.mp h
    rw [bodyLines]
    exact (Instr.linesLead i depth first).append (bodyLines_lead rest depth others)

end

theorem printBody_indented {body : List (Instr α)} (h : Legible opText body) :
    IndentedByDepth (printBody opText body) := by
  obtain ⟨isRow, leads⟩ := bodyLines_lead body 0 h
  refine Leads.indentedByDepth ?_
  rwa [printBody, rows_printLines isRow]

/-! ## The tree in the lines -/

/-- What an instruction is a case of. -/
inductive Former where
  | op
  | comment
  | block
  | loop
  | cond
  deriving DecidableEq

/-- The case that an instruction is. -/
def Instr.former : Instr α → Former
  | .op _ => .op
  | .comment _ => .comment
  | .block _ _ => .block
  | .loop _ _ => .loop
  | .cond _ _ => .cond

/-- The case that the first line of an instruction shows. -/
def Former.ofHead (head : Bytes) : Former :=
  if Bytes.startsWith head (utf8 ";;") then .comment
  else if Bytes.startsWith head [byte '(', byte 'b'] then .block
  else if Bytes.startsWith head [byte '(', byte 'l'] then .loop
  else if Bytes.startsWith head [byte '(', byte 'i'] then .cond
  else .op

/-- The first line of an instruction. -/
def Instr.head (opText : α → Bytes) : Instr α → Bytes
  | .op a => opText a
  | .comment text => utf8 ";; " ++ text
  | .block label _ => utf8 "(block " ++ label
  | .loop label _ => utf8 "(loop " ++ label
  | .cond _ _ => utf8 "(if"

theorem Instr.exists_lines (opText : α → Bytes) (i : Instr α) (depth : Nat) :
    ∃ ls, i.lines opText depth = ⟨depth, i.head opText⟩ :: ls := by
  cases i with
  | _ => exact ⟨_, by rw [Instr.lines]; rfl⟩

theorem Former.ofHead_head {i : Instr α} (h : i.Legible opText) :
    Former.ofHead (i.head opText) = i.former := by
  cases i with
  | op a =>
    obtain ⟨-, -, noOpening, -, noComment⟩ := h
    have noBracket (b : UInt8) : Bytes.startsWith (opText a) [byte '(', b] = false := by
      cases htext : opText a with
      | nil => rfl
      | cons c r =>
        have hc : (byte '(' == c) = false :=
          beq_false_of_ne fun h => noOpening (by rw [htext, h]; rfl)
        simp [Bytes.startsWith, List.isPrefixOf, hc]
    simp only [ofHead, Instr.head, noComment, noBracket]
    rfl
  | _ => rfl

/-- No instruction begins with a line that closes. -/
theorem Instr.lines_ne_closing {i : Instr α} (h : i.Legible opText) (depth close : Nat)
    (more more' : List Line) :
    ⟨close, utf8 ")"⟩ :: more' ≠ i.lines opText depth ++ more := by
  intro same
  obtain ⟨ls, hls⟩ := i.exists_lines opText depth
  rw [hls] at same
  have hhead : utf8 ")" = i.head opText := congrArg Line.text (List.cons_eq_cons.mp same).1
  have starts : (i.head opText).head? = some (byte ')') := by rw [← hhead]; rfl
  cases i with
  | op a => exact h.2.2.2.1 starts
  | comment text => cases starts
  | block label body => cases starts
  | loop label body => cases starts
  | cond whenTrue whenFalse => cases starts

/-- Whatever two instructions are printed in front of, equal lines begin with equal cases. -/
theorem Instr.former_eq {i j : Instr α} (hi : i.Legible opText) (hj : j.Legible opText)
    {depth : Nat} {more more' : List Line}
    (same : i.lines opText depth ++ more = j.lines opText depth ++ more') :
    i.former = j.former := by
  obtain ⟨ls, hls⟩ := i.exists_lines opText depth
  obtain ⟨ls', hls'⟩ := j.exists_lines opText depth
  rw [hls, hls'] at same
  have hheads : i.head opText = j.head opText :=
    congrArg Line.text (List.cons_eq_cons.mp same).1
  rw [← Former.ofHead_head hi, ← Former.ofHead_head hj, hheads]

/-- The second arm of a conditional can be told from the lines, although it is left out if it
is empty, since then the conditional is closed in its place. -/
theorem armLines_inj {arm arm' : List (Instr α)} {depth : Nat} {more more' : List Line}
    (inner : ∀ below below' : List Line,
      bodyLines opText (depth + 2) arm ++ ⟨depth + 1, utf8 ")"⟩ :: below =
        bodyLines opText (depth + 2) arm' ++ ⟨depth + 1, utf8 ")"⟩ :: below' →
      arm = arm' ∧ below = below')
    (same : armLines opText depth arm ++ ⟨depth, utf8 ")"⟩ :: more =
      armLines opText depth arm' ++ ⟨depth, utf8 ")"⟩ :: more') :
    arm = arm' ∧ more = more' := by
  have other : (⟨depth + 1, utf8 "(else"⟩ : Line) ≠ ⟨depth, utf8 ")"⟩ := fun h =>
    absurd (congrArg Line.depth h) (Nat.succ_ne_self depth)
  unfold armLines at same
  split at same
  · rename_i empty
    split at same
    · rename_i empty'
      rw [List.isEmpty_iff.mp empty, List.isEmpty_iff.mp empty']
      exact ⟨rfl, (List.cons_eq_cons.mp same).2⟩
    · exact absurd (List.cons_eq_cons.mp same).1.symm other
  · split at same
    · exact absurd (List.cons_eq_cons.mp same).1 other
    · simp only [List.cons_append, List.append_assoc, List.cons.injEq, true_and,
        List.nil_append] at same
      obtain ⟨harm, hbelow⟩ := inner _ _ same
      exact ⟨harm, (List.cons_eq_cons.mp hbelow).2⟩

mutual

/-- An instruction can be told from its lines, whatever follows them. -/
theorem Instr.lines_inj (inj : Function.Injective opText) :
    ∀ (i j : Instr α) (depth : Nat) (more more' : List Line),
    i.Legible opText → j.Legible opText →
    i.lines opText depth ++ more = j.lines opText depth ++ more' → i = j ∧ more = more'
  | .op a, j, depth, more, more', hi, hj, same => by
    have hformer := Instr.former_eq hi hj same
    cases j with
    | op b =>
      rw [Instr.lines, Instr.lines] at same
      obtain ⟨hline, hmore⟩ := List.cons_eq_cons.mp same
      obtain rfl := inj (congrArg Line.text hline)
      exact ⟨rfl, hmore⟩
    | _ => cases hformer
  | .comment text, j, depth, more, more', hi, hj, same => by
    have hformer := Instr.former_eq hi hj same
    cases j with
    | comment text' =>
      rw [Instr.lines, Instr.lines] at same
      obtain ⟨hline, hmore⟩ := List.cons_eq_cons.mp same
      obtain rfl := List.append_cancel_left (congrArg Line.text hline)
      exact ⟨rfl, hmore⟩
    | _ => cases hformer
  | .block label body, j, depth, more, more', hi, hj, same => by
    have hformer := Instr.former_eq hi hj same
    cases j with
    | block label' body' =>
      rw [Instr.lines, Instr.lines] at same
      simp only [List.cons_append, List.append_assoc] at same
      obtain ⟨hline, hinner⟩ := List.cons_eq_cons.mp same
      obtain rfl := List.append_cancel_left (congrArg Line.text hline)
      obtain ⟨rfl, -, hmore⟩ := bodyLines_inj inj body body' _ _ _ _ _ hi.2 hj.2 hinner
      exact ⟨rfl, hmore⟩
    | _ => cases hformer
  | .loop label body, j, depth, more, more', hi, hj, same => by
    have hformer := Instr.former_eq hi hj same
    cases j with
    | loop label' body' =>
      rw [Instr.lines, Instr.lines] at same
      simp only [List.cons_append, List.append_assoc] at same
      obtain ⟨hline, hinner⟩ := List.cons_eq_cons.mp same
      obtain rfl := List.append_cancel_left (congrArg Line.text hline)
      obtain ⟨rfl, -, hmore⟩ := bodyLines_inj inj body body' _ _ _ _ _ hi.2 hj.2 hinner
      exact ⟨rfl, hmore⟩
    | _ => cases hformer
  | .cond whenTrue whenFalse, j, depth, more, more', hi, hj, same => by
    have hformer := Instr.former_eq hi hj same
    cases j with
    | cond whenTrue' whenFalse' =>
      rw [Instr.lines_cond, Instr.lines_cond] at same
      simp only [List.cons_append, List.nil_append, List.append_assoc, List.cons.injEq,
        true_and] at same
      obtain ⟨rfl, -, harms⟩ := bodyLines_inj inj whenTrue whenTrue' _ _ _ _ _ hi.1 hj.1 same
      have second := bodyLines_inj inj whenFalse whenFalse' (depth + 2) (depth + 1) (depth + 1)
      obtain ⟨rfl, hmore⟩ := armLines_inj (fun below below' hinner =>
        let ⟨harm, _, hbelow⟩ := second below below' hi.2 hj.2 hinner
        ⟨harm, hbelow⟩) harms
      exact ⟨rfl, hmore⟩
    | _ => cases hformer

/-- A body can be told from its lines and the line that closes it. -/
theorem bodyLines_inj (inj : Function.Injective opText) :
    ∀ (body body' : List (Instr α)) (depth close close' : Nat) (more more' : List Line),
    Legible opText body → Legible opText body' →
    bodyLines opText depth body ++ ⟨close, utf8 ")"⟩ :: more =
      bodyLines opText depth body' ++ ⟨close', utf8 ")"⟩ :: more' →
    body = body' ∧ close = close' ∧ more = more'
  | [], [], depth, close, close', more, more', _, _, same => by
    obtain ⟨hline, hmore⟩ := List.cons_eq_cons.mp same
    exact ⟨rfl, congrArg Line.depth hline, hmore⟩
  | [], j :: rest', depth, close, close', more, more', _, hbody', same => by
    rw [bodyLines, bodyLines, List.append_assoc] at same
    exact absurd same (Instr.lines_ne_closing (legible_cons.mp hbody').1 _ _ _ _)
  | i :: rest, [], depth, close, close', more, more', hbody, _, same => by
    rw [bodyLines, bodyLines, List.append_assoc] at same
    exact absurd same.symm (Instr.lines_ne_closing (legible_cons.mp hbody).1 _ _ _ _)
  | i :: rest, j :: rest', depth, close, close', more, more', hbody, hbody', same => by
    obtain ⟨hi, hrest⟩ := legible_cons.mp hbody
    obtain ⟨hj, hrest'⟩ := legible_cons.mp hbody'
    rw [bodyLines, bodyLines, List.append_assoc, List.append_assoc] at same
    obtain ⟨rfl, hothers⟩ := Instr.lines_inj inj i j depth _ _ hi hj same
    obtain ⟨rfl, hclose⟩ := bodyLines_inj inj rest rest' depth _ _ _ _ hrest hrest' hothers
    exact ⟨rfl, hclose⟩

end

/-- Bodies can be told from their texts. -/
theorem printBody_injective (inj : Function.Injective opText) {body body' : List (Instr α)}
    (h : Legible opText body) (h' : Legible opText body')
    (same : printBody opText body = printBody opText body') :
    body = body' := by
  have hlines : bodyLines opText 0 body = bodyLines opText 0 body' :=
    printLines_injective (bodyLines_lead body 0 h).1 (bodyLines_lead body' 0 h').1 same
  exact (bodyLines_inj inj body body' 0 0 0 [] [] h h' (by rw [hlines])).1

end

/-- Two bodies of plain texts are printed alike only if they are equal, and every row of what
is printed is indented to its depth, with as many rows that open as rows that close.

This holds of all bodies without line breaks in their texts whose plain instructions begin
neither with a tab nor with a bracket nor like a comment. -/
theorem printBody_eq_iff {body body' : List (Instr Bytes)} (h : Legible id body)
    (h' : Legible id body') :
    (printBody id body = printBody id body' ↔ body = body') ∧
      IndentedByDepth (printBody id body) :=
  ⟨⟨printBody_injective Function.injective_id h h', fun same => by rw [same]⟩,
    printBody_indented h⟩

/-- An instruction behind a block is printed otherwise than in the block. -/
theorem printBody_inside_or_behind :
    Legible id [.block (utf8 "$B0") [.op (utf8 "nop"), .cond [] []], .op (utf8 "drop")] ∧
      Legible id [.block (utf8 "$B0") [.op (utf8 "nop"), .cond [] [], .op (utf8 "drop")]] ∧
      printBody id [.block (utf8 "$B0") [.op (utf8 "nop"), .cond [] []], .op (utf8 "drop")] ≠
        printBody id [.block (utf8 "$B0") [.op (utf8 "nop"), .cond [] [], .op (utf8 "drop")]] ∧
      IndentedByDepth (printBody id
        [.block (utf8 "$B0") [.op (utf8 "nop"), .cond [] []], .op (utf8 "drop")]) := by
  have behind : Legible id
      [.block (utf8 "$B0") [.op (utf8 "nop"), .cond [] []], .op (utf8 "drop")] := by
    simp only [Legible, Instr.Legible]
    decide
  have inside : Legible id
      [.block (utf8 "$B0") [.op (utf8 "nop"), .cond [] [], .op (utf8 "drop")]] := by
    simp only [Legible, Instr.Legible]
    decide
  obtain ⟨told, indented⟩ := printBody_eq_iff behind inside
  refine ⟨behind, inside, fun same => ?_, indented⟩
  cases told.mp same

end Wat

end TreeWat
