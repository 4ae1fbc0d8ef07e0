import TreeWat.Suite.Draft
import TreeWat.Proofs.Compiler
import TreeWat.Proofs.Datum.Refusal
import TreeWat.Proofs.Lower.Debug
import TreeWat.Proofs.Lower.Rows
import TreeWat.Proofs.Lower.Valid
import TreeWat.Proofs.Text.Blank
import TreeWat.Proofs.Text.Rows
import TreeWat.Proofs.Tree.Literals
set_option autoImplicit false

/-!
# Suites: the lines of the entry function

A draft records the entry function of a module, which it looks for in the text: the function
begins where a row begins with its name and ends at the next row with a bracket behind one
tab.  This finds the lines that were printed for the function and no others, since every line
of a module begins with one of a few words (`marks`) and only the sections of the module stand
at depth one.

Main statement: `entryLines_program`.
-/

namespace TreeWat

/-! ## The rows of lines -/

namespace Wat

/-- The row that a line is printed as, without its line break. -/
def Line.row (l : Line) : Bytes :=
  List.replicate l.depth (byte '\t') ++ l.text

theorem Line.oneLine_row {l : Line} (line : OneLine l.text) : OneLine l.row :=
  oneLine_append.mpr ⟨fun h => absurd (List.eq_of_mem_replicate h) (by decide), line⟩

theorem split_printLines {ls : List Line} (line : ∀ l ∈ ls, OneLine l.text) (t : Bytes) :
    Bytes.split (byte '\n') (printLines ls ++ t) =
      ls.map Line.row ++ Bytes.split (byte '\n') t := by
  induction ls with
  | nil => rfl
  | cons l ls ih =>
    obtain ⟨hl, hls⟩ := List.forall_mem_cons.mp line
    have hsplit : printLines (l :: ls) ++ t = l.row ++ byte '\n' :: (printLines ls ++ t) := by
      simp [printLines, Line.print, Line.row]
    rw [hsplit, Bytes.split_append, Bytes.split_single (Line.oneLine_row hl), ih hls]
    rfl

end Wat

/-! ## Looking for the entry function -/

namespace Suite

variable {row : Bytes} {rows more : List Bytes}

/-- The row opens the entry function. -/
def OpensEntry (row : Bytes) : Prop :=
  Bytes.startsWith (Text.trim row) entryStart = true

/-- The row is inside a function that has been opened. -/
structure Inside (row : Bytes) : Prop where
  noEntry : ¬ OpensEntry row
  noSection : Bytes.startsWith row (utf8 "\t(") = false
  visible : Text.trim row ≠ []

/-- What is kept of the rows of the entry function. -/
def kept (rows : List Bytes) : List Bytes :=
  (rows.map Text.trim).filter (· ≠ utf8 ")")

theorem entryLinesFrom_outside (none : ∀ row ∈ rows, ¬ OpensEntry row) :
    entryLinesFrom false (rows ++ more) = entryLinesFrom false more := by
  induction rows with
  | nil => rfl
  | cons row rows ih =>
    obtain ⟨hrow, hrows⟩ := List.forall_mem_cons.mp none
    have closed : ¬ Bytes.startsWith (Text.trim row) entryStart = true := hrow
    simp [entryLinesFrom, closed, ih hrows]

theorem entryLinesFrom_opens (opens : OpensEntry row) {isInside : Bool} :
    entryLinesFrom isInside (row :: more) = Text.trim row :: entryLinesFrom true more := by
  rw [entryLinesFrom]
  exact if_pos opens

theorem entryLinesFrom_inside (inside : ∀ row ∈ rows, Inside row) :
    entryLinesFrom true (rows ++ more) = kept rows ++ entryLinesFrom true more := by
  induction rows with
  | nil => rfl
  | cons row rows ih =>
    obtain ⟨hrow, hrows⟩ := List.forall_mem_cons.mp inside
    have closed : ¬ Bytes.startsWith (Text.trim row) entryStart = true := hrow.noEntry
    have visible : (Text.trim row).isEmpty = false := by simpa using hrow.visible
    by_cases closes : Text.trim row = utf8 ")"
    · rw [closes] at closed
      simp [entryLinesFrom, closed, hrow.noSection, closes, ih hrows, kept]
    · simp [entryLinesFrom, closed, hrow.noSection, visible, closes, ih hrows, kept]

theorem entryLinesFrom_stops (none : ¬ OpensEntry row)
    (starts : Bytes.startsWith row (utf8 "\t(") = true) :
    entryLinesFrom true (row :: more) = [] := by
  have closed : ¬ Bytes.startsWith (Text.trim row) entryStart = true := none
  simp [entryLinesFrom, closed, starts]

/-- The lines that are kept of an entry function, rows before and behind it or not. -/
theorem entryLinesFrom_of_rows {before inner : List Bytes} {head next : Bytes}
    (none : ∀ row ∈ before, ¬ OpensEntry row) (opens : OpensEntry head)
    (inside : ∀ row ∈ inner, Inside row) (noEntry : ¬ OpensEntry next)
    (starts : Bytes.startsWith next (utf8 "\t(") = true) :
    entryLinesFrom false (before ++ (head :: inner ++ next :: more)) =
      Text.trim head :: kept inner := by
  rw [entryLinesFrom_outside none, List.cons_append, entryLinesFrom_opens opens,
    entryLinesFrom_inside inside, entryLinesFrom_stops noEntry starts, List.append_nil]

end Suite

/-! ## How the lines of a module begin -/

namespace Wat

/-- The words that the lines of a module begin with, up to the literals, apart from the first
line of the entry function. -/
def marks : List Bytes :=
  [utf8 "i32.", utf8 "local.", utf8 "global.", utf8 "call", utf8 "br", utf8 "drop",
    utf8 "return", utf8 "unreachable", utf8 ";;", utf8 "(block", utf8 "(loop", utf8 "(if",
    utf8 "(then", utf8 "(else", utf8 ")", utf8 "(local", utf8 "(module", utf8 "(import",
    utf8 "(func $G", utf8 "(func $D", utf8 "(global", utf8 "(start"]

/-- No mark can be mistaken for the start of the entry function, and trimming leaves all of
them as they are. -/
theorem marks_told : ∀ mark ∈ marks, Text.isFirm mark = true ∧
    ¬ mark <+: Suite.entryStart ∧ ¬ Suite.entryStart <+: mark := by
  decide +kernel

/-- The text begins with a mark. -/
def Marked (text : Bytes) : Prop :=
  ∃ mark ∈ marks, mark <+: text

instance : DecidablePred Marked :=
  fun text => inferInstanceAs (Decidable (∃ mark ∈ marks, mark <+: text))

theorem Marked.append {word : Bytes} (marked : Marked word) (rest : Bytes) :
    Marked (word ++ rest) := by
  obtain ⟨mark, isMark, starts⟩ := marked
  exact ⟨mark, isMark, starts.trans (List.prefix_append word rest)⟩

theorem Marked.word {text : Bytes} (mark : Bytes) (isMark : mark ∈ marks) (rest : Bytes)
    (eq : text = mark ++ rest) : Marked text :=
  ⟨mark, isMark, rest, eq.symm⟩

namespace Line

variable {l : Line}

theorem prefix_trim_row {word : Bytes} (firm : Text.isFirm word = true)
    (starts : word <+: l.text) : word <+: Text.trim l.row := by
  obtain ⟨rest, hrest⟩ := starts
  rw [row, ← hrest]
  exact Text.trim_tabs firm l.depth rest

theorem visible_of_marked (marked : Marked l.text) : Text.trim l.row ≠ [] := by
  obtain ⟨mark, isMark, starts⟩ := marked
  obtain ⟨firm, noPrefix, -⟩ := marks_told mark isMark
  intro empty
  have hmark := prefix_trim_row firm starts
  rw [empty, List.prefix_nil] at hmark
  exact noPrefix (hmark ▸ List.nil_prefix)

theorem not_opensEntry_of_marked (marked : Marked l.text) : ¬ Suite.OpensEntry l.row := by
  obtain ⟨mark, isMark, starts⟩ := marked
  obtain ⟨firm, noPrefix, noPrefix'⟩ := marks_told mark isMark
  intro opens
  have hmark := prefix_trim_row firm starts
  rcases List.prefix_or_prefix_of_prefix hmark (List.isPrefixOf_iff_prefix.mp opens) with h | h
  · exact noPrefix h
  · exact noPrefix' h

/-- A line below depth one is inside a function. -/
theorem inside_of_deep (marked : Marked l.text) (deep : 2 ≤ l.depth) : Suite.Inside l.row where
  noEntry := not_opensEntry_of_marked marked
  visible := visible_of_marked marked
  noSection := by
    obtain ⟨depth, hdepth⟩ := Nat.exists_eq_add_of_le' deep
    rw [row, hdepth, List.replicate_succ, List.replicate_succ]
    rfl

end Line

/-! ### Code -/

/-- The lines begin with marks and stand at the depth or below. -/
def MarkedFrom (depth : Nat) (ls : List Line) : Prop :=
  ∀ l ∈ ls, Marked l.text ∧ depth ≤ l.depth

namespace MarkedFrom

variable {depth : Nat} {ls more : List Line} {text : Bytes}

theorem nil : MarkedFrom depth [] :=
  fun _ hl => absurd hl List.not_mem_nil

theorem cons (marked : Marked text) (others : MarkedFrom depth ls) :
    MarkedFrom depth (⟨depth, text⟩ :: ls) :=
  List.forall_mem_cons.mpr ⟨⟨marked, Nat.le_refl depth⟩, others⟩

theorem append (h : MarkedFrom depth ls) (h' : MarkedFrom depth more) :
    MarkedFrom depth (ls ++ more) :=
  List.forall_mem_append.mpr ⟨h, h'⟩

theorem deeper {above : Nat} (h : MarkedFrom depth ls) (le : above ≤ depth) :
    MarkedFrom above ls :=
  fun l hl => ⟨(h l hl).1, Nat.le_trans le (h l hl).2⟩

theorem closing : MarkedFrom depth [⟨depth, utf8 ")"⟩] :=
  cons (by decide +kernel) nil

/-- Lines between one that opens and one that closes. -/
theorem between (marked : Marked text) (inner : MarkedFrom (depth + 1) ls) :
    MarkedFrom depth (⟨depth, text⟩ :: ls ++ [⟨depth, utf8 ")"⟩]) :=
  (cons marked (inner.deeper (Nat.le_succ depth))).append closing

end MarkedFrom

theorem Op.marked (a : Op) : Marked a.text := by
  cases a with
  | const literal => exact .append (by decide +kernel) literal
  | localGet name => exact .append (by decide +kernel) name
  | localSet name => exact .append (by decide +kernel) name
  | globalGet name => exact .append (by decide +kernel) name
  | globalSet name => exact .append (by decide +kernel) name
  | call name => exact .append (by decide +kernel) name
  | br label => exact .append (by decide +kernel) label
  | brIf label => exact .append (by decide +kernel) label
  | arith a => cases a <;> decide +kernel
  | eqz => decide +kernel
  | load8 => decide +kernel
  | drop => decide +kernel
  | ret => decide +kernel
  | unreachable => decide +kernel

mutual

theorem Instr.lines_marked : ∀ (i : Instr Op) (depth : Nat),
    MarkedFrom depth (i.lines Op.text depth)
  | .op a, depth => by
    rw [Instr.lines]
    exact .cons a.marked .nil
  | .comment text, depth => by
    rw [Instr.lines]
    exact .cons (.append (by decide +kernel) text) .nil
  | .block label body, depth => by
    rw [Instr.lines]
    exact .between (.append (by decide +kernel) label) (bodyLines_marked body _)
  | .loop label body, depth => by
    rw [Instr.lines]
    exact .between (.append (by decide +kernel) label) (bodyLines_marked body _)
  | .cond whenTrue whenFalse, depth => by
    have first : MarkedFrom (depth + 1) (⟨depth + 1, utf8 "(then"⟩ ::
        bodyLines Op.text (depth + 2) whenTrue ++ [⟨depth + 1, utf8 ")"⟩]) :=
      .between (by decide +kernel) (bodyLines_marked whenTrue _)
    have second : MarkedFrom (depth + 1) (armLines Op.text depth whenFalse) := by
      unfold armLines
      split
      · exact .nil
      · exact .between (by decide +kernel) (bodyLines_marked whenFalse _)
    have both : MarkedFrom depth (⟨depth, utf8 "(if"⟩ :: (_ ++ _) ++ [⟨depth, utf8 ")"⟩]) :=
      .between (by decide +kernel) (first.append second)
    simpa [Instr.lines_cond] using both

/-- Every line of a body begins with a mark, at its depth or below. -/
theorem bodyLines_marked : ∀ (body : List (Instr Op)) (depth : Nat),
    MarkedFrom depth (bodyLines Op.text depth body)
  | [], _ => by
    rw [bodyLines]
    exact .nil
  | i :: rest, depth => by
    rw [bodyLines]
    exact (Instr.lines_marked i depth).append (bodyLines_marked rest depth)

end

/-! ### Functions -/

namespace Func

variable {f : Func Op}

/-- The lines of a function behind its first line. -/
def innerLines (f : Func Op) : List Line :=
  f.locals.map (fun l => ⟨2, utf8 "(local " ++ l ++ utf8 " i32)"⟩)
    ++ bodyLines Op.text 2 f.body ++ [⟨1, utf8 ")"⟩]

theorem lines_eq (f : Func Op) : f.lines Op.text = ⟨1, f.head⟩ :: f.innerLines := by
  simp [lines, innerLines]

theorem innerLines_marked (f : Func Op) : MarkedFrom 1 f.innerLines := by
  have locals : MarkedFrom 2
      (f.locals.map fun l => ⟨2, utf8 "(local " ++ l ++ utf8 " i32)"⟩) := by
    intro l hl
    obtain ⟨name, -, rfl⟩ := List.mem_map.mp hl
    exact ⟨.append (.append (by decide +kernel) name) _, Nat.le_refl 2⟩
  exact ((locals.append (bodyLines_marked f.body 2)).deeper (by decide)).append .closing

/-- The lines behind the first one are inside the function: those at depth two and below, and
the one that closes it. -/
theorem inside_innerLines (f : Func Op) : ∀ l ∈ f.innerLines, Suite.Inside l.row := by
  intro l hl
  have marked := (f.innerLines_marked l hl).1
  rcases List.mem_append.mp hl with hinner | hclosing
  · refine Line.inside_of_deep marked ?_
    rcases List.mem_append.mp hinner with hlocal | hbody
    · obtain ⟨name, -, rfl⟩ := List.mem_map.mp hlocal
      exact Nat.le_refl 2
    · exact (bodyLines_marked f.body 2 l hbody).2
  · obtain rfl := List.mem_singleton.mp hclosing
    exact ⟨Line.not_opensEntry_of_marked marked, by decide, Line.visible_of_marked marked⟩

theorem head_of_entry (isEntry : f.name = Lower.entryName) : Suite.entryStart <+: f.head := by
  rw [head, isEntry]
  exact ⟨_, (List.append_assoc _ _ _).symm⟩

/-- The function is a user's or the library's. -/
def Foreign (f : Func Op) : Prop :=
  ∃ name, f.name = Lower.globalName name ∨ f.name = Lower.libraryName name

theorem Foreign.head (foreign : f.Foreign) : Marked f.head := by
  obtain ⟨name, isUser | isLibrary⟩ := foreign
  · rw [Func.head, isUser]
    exact .word (utf8 "(func $G") (by simp [marks]) (name ++ _ ++ _) rfl
  · rw [Func.head, isLibrary]
    exact .word (utf8 "(func $D") (by simp [marks]) (name ++ _ ++ _) rfl

theorem Foreign.lines (foreign : f.Foreign) : MarkedFrom 1 (f.lines Op.text) := by
  rw [f.lines_eq]
  exact .cons foreign.head f.innerLines_marked

end Func

/-! ### Sections -/

/-- The line opens a section of the module other than the entry function. -/
structure Line.OpensSection (l : Line) : Prop where
  depth : l.depth = 1
  line : OneLine l.text
  marked : Marked l.text
  bracket : l.text.head? = some (byte '(')

theorem Line.OpensSection.starts {l : Line} (h : l.OpensSection) :
    Bytes.startsWith l.row (utf8 "\t(") = true := by
  obtain ⟨rest, hrest⟩ := List.head?_eq_some_iff.mp h.bracket
  rw [row, h.depth, hrest]
  rfl

/-- What is kept of a function in a draft: its lines without white space at their ends, and
without those that only close something. -/
def Func.keptLines (f : Func Op) : List Bytes :=
  Suite.kept ((f.lines Op.text).map Line.row)

theorem Func.opensEntry_head {f : Func Op} (isEntry : f.name = Lower.entryName) :
    Suite.OpensEntry (Line.row ⟨1, f.head⟩) :=
  List.isPrefixOf_iff_prefix.mpr (Line.prefix_trim_row (by decide) (Func.head_of_entry isEntry))

/-- The first line of the entry function is kept. -/
theorem Func.keptLines_of_entry {f : Func Op} (isEntry : f.name = Lower.entryName) :
    f.keptLines = Text.trim (Line.row ⟨1, f.head⟩) :: Suite.kept (f.innerLines.map Line.row) := by
  have opens := Func.opensEntry_head isEntry
  have stays : Text.trim (Line.row ⟨1, f.head⟩) ≠ utf8 ")" := by
    intro closes
    rw [Suite.OpensEntry, closes] at opens
    exact absurd opens (by decide)
  rw [keptLines, f.lines_eq, List.map_cons, Suite.kept, Suite.kept, List.map_cons]
  exact List.filter_cons_of_pos (decide_eq_true stays)

theorem Func.Foreign.opensSection {f : Func Op} (foreign : f.Foreign)
    (line : ∀ l ∈ f.lines Op.text, OneLine l.text) : Line.OpensSection ⟨1, f.head⟩ where
  depth := rfl
  line := by
    rw [f.lines_eq] at line
    exact line _ List.mem_cons_self
  marked := foreign.head
  bracket := rfl

/-- The lines of a module in front of a function, with the functions before it. -/
def Module.linesBefore (m : Module Op) (before : List (Func Op)) : List Line :=
  ⟨0, utf8 "(module"⟩ :: m.imports.map (fun i => ⟨1, i.text⟩) ++ before.flatMap (Func.lines Op.text)

/-- The lines of the functions behind a function, and of the globals and the start function. -/
def Module.linesBehind (m : Module Op) (after : List (Func Op)) (start : Bytes) : List Line :=
  after.flatMap (Func.lines Op.text)
    ++ m.globals.map (fun g => ⟨1, utf8 "(global " ++ g ++ utf8 " (mut i32) (i32.const 0))"⟩)
    ++ [⟨1, utf8 "(start " ++ start ++ utf8 ")"⟩]

theorem Module.lines_split {m : Module Op} {before after : List (Func Op)} {f : Func Op}
    {start : Bytes} (funcs : m.funcs = before ++ f :: after) (hasStart : m.start = some start) :
    ∃ rest, m.lines Op.text =
      m.linesBefore before ++ f.lines Op.text ++ (m.linesBehind after start ++ rest) := by
  refine ⟨[⟨1, utf8 "(memory " ++ Bytes.ofInt m.memory ++ utf8 ")"⟩]
    ++ m.data.map (fun d => ⟨1, d.lineText⟩) ++ [⟨0, utf8 ")"⟩], ?_⟩
  simp [lines, linesBefore, linesBehind, funcs, hasStart]

/-- Behind a function of a module with a start function there is a section. -/
theorem Module.exists_section {m : Module Op} {after : List (Func Op)} {start : Bytes}
    (funcs : ∀ f ∈ after, f.Foreign ∧ ∀ l ∈ f.lines Op.text, OneLine l.text)
    (names : ∀ g ∈ m.globals, OneLine g) (line : OneLine start) :
    ∃ next behind, m.linesBehind after start = next :: behind ∧ next.OpensSection := by
  unfold linesBehind
  cases after with
  | cons f after =>
    obtain ⟨foreign, lines⟩ := funcs f List.mem_cons_self
    rw [List.flatMap_cons, f.lines_eq]
    exact ⟨_, _, rfl, foreign.opensSection lines⟩
  | nil =>
    cases hglobals : m.globals with
    | cons g globals =>
      refine ⟨_, _, rfl, rfl, ?_, .append (.append (by decide +kernel) g) _, rfl⟩
      have hg : OneLine g := names g (by simp [hglobals])
      exact oneLine_append.mpr ⟨oneLine_append.mpr ⟨by decide, hg⟩, by decide⟩
    | nil =>
      refine ⟨_, _, rfl, rfl, ?_, .append (.append (by decide +kernel) start) _, rfl⟩
      exact oneLine_append.mpr ⟨oneLine_append.mpr ⟨by decide, line⟩, by decide⟩

/-- In the text of lines that have the entry function among them, its rows are found between
what stands in front of it and the section behind it. -/
theorem entryLinesFrom_printLines {front behind : List Line} {f : Func Op} {next : Line}
    (above : ∀ l ∈ front, OneLine l.text ∧ Marked l.text)
    (own : ∀ l ∈ f.lines Op.text, OneLine l.text) (isEntry : f.name = Lower.entryName)
    (opens : next.OpensSection) :
    ∃ below, Bytes.split (byte '\n') (printLines (front ++ f.lines Op.text ++ next :: behind)) =
        front.map Line.row ++ (f.lines Op.text).map Line.row ++ below ∧
      Suite.entryLinesFrom false
          (front.map Line.row ++ (f.lines Op.text).map Line.row ++ below) = f.keptLines := by
  have line : ∀ l ∈ front ++ f.lines Op.text ++ [next], OneLine l.text := by
    simp only [List.forall_mem_append, List.forall_mem_singleton]
    exact ⟨⟨fun l hl => (above l hl).1, own⟩, opens.line⟩
  have cut : printLines (front ++ f.lines Op.text ++ next :: behind) =
      printLines (front ++ f.lines Op.text ++ [next]) ++ printLines behind := by
    simp [printLines]
  refine ⟨next.row :: Bytes.split (byte '\n') (printLines behind), ?_, ?_⟩
  · rw [cut, split_printLines line]
    simp
  · have none : ∀ row ∈ front.map Line.row, ¬ Suite.OpensEntry row :=
      List.forall_mem_map.mpr fun l hl => Line.not_opensEntry_of_marked (above l hl).2
    have inside : ∀ row ∈ f.innerLines.map Line.row, Suite.Inside row :=
      List.forall_mem_map.mpr f.inside_innerLines
    rw [Func.keptLines_of_entry isEntry, f.lines_eq, List.map_cons, List.append_assoc]
    exact Suite.entryLinesFrom_of_rows none (Func.opensEntry_head isEntry) inside
      (Line.not_opensEntry_of_marked opens.marked) opens.starts

end Wat

/-! ## The entry function of a program -/

namespace Node

/-- The names of the tree are made of letters, digits and underscores. -/
def WordNames (n : Node) : Prop :=
  ∀ m ∈ n.preorder, m.kind = .id →
    m.attr.all (fun b => Bytes.isLetter b || Bytes.isDigit b || b == byte '_') = true

instance : DecidablePred WordNames :=
  fun n => inferInstanceAs (Decidable (∀ m ∈ n.preorder, m.kind = .id →
    m.attr.all (fun b => Bytes.isLetter b || Bytes.isDigit b || b == byte '_') = true))

/-- No number of the tree has a line break, as is true of every tree that was read. -/
def NumbersUnbroken (n : Node) : Prop :=
  ∀ m ∈ n.preorder, m.kind = .num → OneLine m.attr

instance : DecidablePred NumbersUnbroken :=
  fun n => inferInstanceAs (Decidable (∀ m ∈ n.preorder, m.kind = .num → OneLine m.attr))

theorem numbersUnbroken_of_read {src : Bytes} {t : Node} (h : Tree.read src = .ok t) :
    t.NumbersUnbroken := by
  intro m hm isNum
  obtain ⟨parent, occurs⟩ := exists_occurs hm
  cases (wellFormed_of_read h).1.occurs occurs with
  | number spelled fits => exact Datum.oneLine_of_isIntegerText spelled
  | text isText =>
    subst isNum
    simp at isText
  | branch plain below =>
    subst isNum
    cases plain

theorem WordNames.codeUnbroken {n : Node} (words : n.WordNames) (numbers : n.NumbersUnbroken) :
    n.CodeUnbroken := by
  rintro m hm (isName | isNum)
  · exact oneLine_of_forall (by decide) (List.all_eq_true.mp (words m hm isName))
  · exact numbers m hm isNum

end Node

namespace Lower

open Wat (Op Func Line Marked marks)

theorem library_foreign : ∀ f ∈ library, Func.Foreign f := by
  intro f hf
  simp only [library, List.mem_cons, List.not_mem_nil, or_false] at hf
  rcases hf with rfl | rfl | rfl
  · exact ⟨utf8 "prints", .inr rfl⟩
  · exact ⟨utf8 "printi", .inr rfl⟩
  · exact ⟨utf8 "printb", .inr rfl⟩

section

variable {globals : List (Bytes × Ty)} {funcs : List (Bytes × Signature)} {ds : List Node}
  {parts : Parts} {s : State}

/-- Apart from the entry function every function of a module is a user's or the library's. -/
theorem DeclsCode.foreign (code : DeclsCode globals funcs ds globals funcs parts .library s)
    {f : Func Op} (hf : f ∈ library ++ parts.funcs) (other : f.name ≠ entryName) : f.Foreign := by
  rcases List.mem_append.mp hf with hf | hf
  · exact library_foreign f hf
  · rcases code.name_cases hf with ⟨isEntry, -⟩ | ⟨v, -, hname⟩
    · exact absurd isEntry other
    · exact ⟨v.1, .inl hname⟩

/-- The entry function stands once among the functions of a module. -/
theorem DeclsCode.exists_entry (code : DeclsCode globals funcs ds globals funcs parts .library s)
    (distinct : (funcs.map Prod.fst).Nodup) (oneEntry : entryPoints ds = 1) :
    ∃ before f after, library ++ parts.funcs = before ++ f :: after ∧ f.name = entryName ∧
      ∀ g ∈ before ++ after, g.name ≠ entryName := by
  obtain ⟨-, f, hf, hname, -⟩ := code.entry (by omega)
  obtain ⟨before, after, hsplit⟩ := List.append_of_mem (List.mem_append_right library hf)
  refine ⟨before, f, after, hsplit, hname, fun g hg same => ?_⟩
  have nodup := (List.nodup_append.mp (funcNames_nodup code distinct (by omega))).2.1
  rw [hsplit, List.map_append, List.map_cons, List.nodup_middle, List.nodup_cons] at nodup
  refine nodup.1 ?_
  rw [← List.map_append]
  exact List.mem_map.mpr ⟨g, hg, same.trans hname.symm⟩

end

/-- The lines of a module with its entry function among them. -/
structure EntryAmong (m : Wat.Module Op) (before : List (Func Op)) (f : Func Op)
    (after : List (Func Op)) (front behind : List Line) (next : Line) : Prop where
  funcs : m.funcs = before ++ f :: after
  isEntry : f.name = entryName
  others : ∀ g ∈ before ++ after, g.name ≠ entryName
  lines : m.lines Op.text = front ++ f.lines Op.text ++ next :: behind
  above : ∀ l ∈ front, OneLine l.text ∧ Marked l.text
  own : ∀ l ∈ f.lines Op.text, OneLine l.text
  opens : next.OpensSection

theorem EntryAmong.filter_funcs {m : Wat.Module Op} {before after : List (Func Op)} {f : Func Op}
    {front behind : List Line} {next : Line} (h : EntryAmong m before f after front behind next) :
    m.funcs.filter (·.name = entryName) = [f] := by
  have none {gs : List (Func Op)} (others : ∀ g ∈ gs, g.name ≠ entryName) :
      gs.filter (·.name = entryName) = [] :=
    List.filter_eq_nil_iff.mpr fun g hg => by simpa using others g hg
  obtain ⟨beforeOthers, afterOthers⟩ := List.forall_mem_append.mp h.others
  have isEntry : decide (f.name = entryName) = true := decide_eq_true h.isEntry
  rw [h.funcs, List.filter_append, none beforeOthers, List.filter_cons, none afterOthers]
  exact if_pos isEntry

theorem ModuleCode.exists_entryAmong {root : Node} {m : Wat.Module Op} {s : State}
    (h : ModuleCode root m s) (oneEntry : entryPoints root.children = 1)
    (line : root.CodeUnbroken) :
    ∃ before f after front behind next,
      EntryAmong m.uncommented before f after front behind next := by
  cases h with
  | @intro attr loc note ds globals funcs parts s _ funcNames _ _ code =>
    have one : entryPoints ds = 1 := oneEntry
    obtain ⟨before, f, after, hsplit, isEntry, others⟩ := code.exists_entry funcNames one
    obtain ⟨userLines, globalNames⟩ := code.allPlain fun d hd => line.child hd
    have funcLines : ∀ g ∈ before ++ f :: after, ∀ l ∈ g.uncommented.lines Op.text,
        OneLine l.text := by
      intro g hg l hl
      rcases List.mem_append.mp (hsplit ▸ hg) with hg | hg
      · exact (library_allPlain l (List.mem_flatMap.mpr ⟨_, List.mem_map.mpr ⟨g, hg, rfl⟩, hl⟩)).1
      · exact (userLines l (List.mem_flatMap.mpr ⟨_, List.mem_map.mpr ⟨g, hg, rfl⟩, hl⟩)).1
    have foreign : ∀ g ∈ before ++ after, Func.Foreign g.uncommented := by
      intro g hg
      have hmem : g ∈ library ++ parts.funcs := by
        rw [hsplit]
        rcases List.mem_append.mp hg with hg | hg
        · exact List.mem_append_left _ hg
        · exact List.mem_append_right _ (List.mem_cons_of_mem _ hg)
      exact (code.foreign hmem (others g hg) : g.Foreign)
    have imports : ∀ l ∈ ⟨0, utf8 "(module"⟩ :: (libraryImports ⟨.initial, false⟩).map
        (fun i => (⟨1, i.text⟩ : Line)), OneLine l.text ∧ Marked l.text := by
      refine List.forall_mem_cons.mpr
        ⟨⟨by decide, by decide +kernel⟩, fun l hl => ?_⟩
      refine ⟨(imports_allPlain l hl).1, ?_⟩
      obtain ⟨i, -, rfl⟩ := List.mem_map.mp hl
      exact .word (utf8 "(import") (by simp [marks]) (utf8 " " ++ _) rfl
    have hasStart : (moduleWith parts s).start = some entryName := by
      simp [moduleWith, (code.entry (by omega)).1]
    have funcs : (moduleWith parts s).uncommented.funcs =
        before.map Func.uncommented ++ f.uncommented :: after.map Func.uncommented := by
      simp [moduleWith, Wat.Module.uncommented, hsplit]
    have behindEntry : ∀ g ∈ after.map Func.uncommented,
        g.Foreign ∧ ∀ l ∈ g.lines Op.text, OneLine l.text :=
      List.forall_mem_map.mpr fun g hg => ⟨foreign g (List.mem_append_right _ hg),
        funcLines g (List.mem_append_right _ (List.mem_cons_of_mem _ hg))⟩
    obtain ⟨next, behind, hbehind, opens⟩ : ∃ next behind,
        (moduleWith parts s).uncommented.linesBehind (after.map Func.uncommented) entryName =
          next :: behind ∧ next.OpensSection :=
      Wat.Module.exists_section behindEntry globalNames (by decide)
    obtain ⟨rest, hlines⟩ := Wat.Module.lines_split funcs hasStart
    rw [hbehind, List.cons_append] at hlines
    refine ⟨_, _, _, _, _, _, funcs, isEntry, ?_, hlines, ?_, funcLines f (by simp), opens⟩
    · rw [← List.map_append]
      exact List.forall_mem_map.mpr others
    · refine List.forall_mem_append.mpr ⟨imports, fun l hl => ?_⟩
      obtain ⟨_, hmem, hl⟩ := List.mem_flatMap.mp hl
      obtain ⟨g, hg, rfl⟩ := List.mem_map.mp hmem
      exact ⟨funcLines g (List.mem_append_left _ hg) l hl,
        ((foreign g (List.mem_append_left _ hg)).lines l hl).1⟩

end Lower

namespace Suite

open Wat (Op Func Line)

theorem kept_ne_nil_of_entry {f : Func Op} (isEntry : f.name = Lower.entryName) :
    f.keptLines ≠ [] := by
  rw [Func.keptLines_of_entry isEntry]
  exact List.cons_ne_nil _ _

theorem oneLine_keptLines {f : Func Op} (own : ∀ l ∈ f.lines Op.text, OneLine l.text) :
    ∀ line ∈ f.keptLines, OneLine line := by
  intro line hline
  obtain ⟨row, hrow, rfl⟩ := List.mem_map.mp (List.mem_filter.mp hline).1
  obtain ⟨l, hl, rfl⟩ := List.mem_map.mp hrow
  exact Text.oneLine_trim (Line.oneLine_row (own l hl))

/-- The entry function of the module, its place in the text of the module, and what a draft
takes from the text. -/
structure Drafted (m : Wat.Module Op) (f : Func Op) (text : Bytes) : Prop where
  /-- The function is the only one of its name. -/
  entry : m.funcs.filter (·.name = Lower.entryName) = [f]
  /-- Its lines are rows of the text, one behind the other. -/
  printed : ∃ above below, Bytes.split (byte '\n') text =
    above ++ (f.lines Op.text).map Line.row ++ below
  /-- The draft has what is kept of these lines and nothing else. -/
  drafted : entryLines text = Bytes.join (utf8 "\n") f.keptLines
  lines : Bytes.split (byte '\n') (entryLines text) = f.keptLines
  inOrder : f.keptLines.Sublist ((Bytes.split (byte '\n') text).map Text.trim)

theorem drafted_of_program {root : Node} {checked : Check.CheckedProgram}
    (accepted : Check.checkProgram root = .ok checked)
    (oneEntry : entryPoints root.children = 1) (line : root.CodeUnbroken) :
    ∃ m f, Lower.program ⟨checked.scopes, false⟩ checked.tree = .ok m ∧
      Drafted m f (m.print Op.text) := by
  obtain ⟨m, s, hmodule, code⟩ := Lower.moduleCode_of_checkProgram accepted true
  obtain ⟨before, f, after, front, behind, next, among⟩ := code.exists_entryAmong oneEntry line
  have terse : Lower.program ⟨checked.scopes, false⟩ checked.tree = .ok m.uncommented := by
    have hprogram : Lower.program ⟨checked.scopes, false⟩ checked.tree = _ :=
      Lower.program_terse ⟨checked.scopes, true⟩ checked.tree
    rw [hprogram, Lower.program_ok hmodule]
    rfl
  obtain ⟨below, hsplit, hlines⟩ :=
    Wat.entryLinesFrom_printLines among.above among.own among.isEntry among.opens
  rw [← among.lines] at hsplit
  have drafted : entryLines (m.uncommented.print Op.text) = Bytes.join (utf8 "\n") f.keptLines := by
    rw [entryLines, Wat.Module.print, hsplit, hlines]
  refine ⟨m.uncommented, f, terse, among.filter_funcs, ⟨_, below, hsplit⟩, drafted, ?_, ?_⟩
  · rw [drafted]
    exact Bytes.split_join (kept_ne_nil_of_entry among.isEntry) (oneLine_keptLines among.own)
  · rw [Wat.Module.print, hsplit, List.map_append, List.map_append]
    exact (List.filter_sublist.trans (List.sublist_append_right _ _)).trans
      (List.sublist_append_left _ _)

/-- The draft of a program that is compiled has the lines of its entry function. -/
theorem draft_of_read {name input : Bytes} {root : Node} {checked : Check.CheckedProgram}
    (hread : Tree.read input = .ok root) (accepted : Check.checkProgram root = .ok checked)
    (oneEntry : entryPoints root.children = 1) (words : root.WordNames) :
    ∃ m f, Drafted m f (m.print Op.text) ∧ Draft.ofProgram name input =
      .ok ⟨name, input, .wat, Bytes.join (utf8 "\n") f.keptLines⟩ := by
  obtain ⟨m, f, hprogram, drafted⟩ := drafted_of_program accepted oneEntry
    (words.codeUnbroken (Node.numbersUnbroken_of_read hread))
  have compiled : Compiler.compileSource false input = .ok ⟨checked, m⟩ := by
    simp [Compiler.compileSource, Compiler.compile, hread, accepted, hprogram]
  refine ⟨m, f, drafted, ?_⟩
  rw [Draft.ofProgram, compiled, ← drafted.drafted]
  rfl

/-- What a draft records of an accepted program with one entry point, whose names are made of
letters, digits and underscores and whose numbers do not break a line.

The text without debug output has the lines of the entry function as rows, and the draft takes
from it these lines and no others: all of them in their order, without the white space at their
ends, apart from those that only close something. -/
theorem entryLines_program {root : Node} {checked : Check.CheckedProgram}
    (accepted : Check.checkProgram root = .ok checked)
    (oneEntry : entryPoints root.children = 1) (words : root.WordNames)
    (numbers : root.NumbersUnbroken) :
    ∃ m f, Lower.program ⟨checked.scopes, false⟩ checked.tree = .ok m ∧
      Drafted m f (m.print Op.text) :=
  drafted_of_program accepted oneEntry (words.codeUnbroken numbers)

/-- In the sample program a user's function and three of the library stand in front of the entry
function. -/
theorem entryLines_sample :
    ∃ checked m f, Check.checkProgram sampleProgram = .ok checked ∧
      entryPoints sampleProgram.children = 1 ∧ sampleProgram.WordNames ∧
      sampleProgram.NumbersUnbroken ∧
      Lower.program ⟨checked.scopes, false⟩ checked.tree = .ok m ∧
      Drafted m f (m.print Op.text) ∧
      Bytes.split (byte '\n') (entryLines (m.print Op.text)) =
        [utf8 "(func $main", utf8 "(local $tmp i32)", utf8 "i32.const 3", utf8 "i32.const 1",
          utf8 "call $Gtriangle", utf8 "call $Dprinti", utf8 "i32.const 9", utf8 "i32.const 2",
          utf8 "call $Dprints", utf8 "i32.const 2", utf8 "i32.const 0", utf8 "call $Gtriangle",
          utf8 "call $Dprinti", utf8 "global.get $Gcalls", utf8 "call $Dprinti"] := by
  obtain ⟨checked, accepted⟩ := Lower.sampleProgram_accepted
  have one : entryPoints sampleProgram.children = 1 := by decide
  have words : sampleProgram.WordNames := by decide +kernel
  have numbers : sampleProgram.NumbersUnbroken := by decide +kernel
  obtain ⟨m, f, hprogram, drafted⟩ := entryLines_program accepted one words numbers
  refine ⟨checked, m, f, accepted, one, words, numbers, hprogram, drafted, ?_⟩
  have computed : ((Compiler.compile false sampleProgram).map fun r =>
      (r.module.funcs.filter (·.name = Lower.entryName)).map Func.keptLines).toOption =
      some [[utf8 "(func $main", utf8 "(local $tmp i32)", utf8 "i32.const 3", utf8 "i32.const 1",
        utf8 "call $Gtriangle", utf8 "call $Dprinti", utf8 "i32.const 9", utf8 "i32.const 2",
        utf8 "call $Dprints", utf8 "i32.const 2", utf8 "i32.const 0", utf8 "call $Gtriangle",
        utf8 "call $Dprinti", utf8 "global.get $Gcalls", utf8 "call $Dprinti"]] := by decide +kernel
  have compiled : Compiler.compile false sampleProgram = .ok ⟨checked, m⟩ := by
    simp [Compiler.compile, accepted, hprogram]
  rw [compiled] at computed
  have hkept : (m.funcs.filter (·.name = Lower.entryName)).map Func.keptLines = _ :=
    Option.some.inj computed
  rw [drafted.entry] at hkept
  exact drafted.lines.trans (List.cons_eq_cons.mp hkept).1

/-- The program `void main() { printi(1); }`, but that its number has a line break in it, and
behind this what opens a section of a module. -/
def brokenNumber : Node :=
  let id (name : String) : Node := .leaf .id (utf8 name) .nowhere
  let node (kind : Kind) (children : List Node) : Node := .branch kind .nowhere children
  node .globalDeclarations [
    node .entryPointDeclaration [node .void [], id "main", node .formalParameterList [],
      node .block [node .functionInvocation [id "printi",
        node .argumentList [.leaf .num (utf8 "1\n\t(x") .nowhere]]]]]

/-- No check looks into a number, so that program is accepted.  Its draft ends where the line of
the number breaks, and the call behind it is lost. -/
theorem entryLines_brokenNumber :
    ∃ checked m f, Check.checkProgram brokenNumber = .ok checked ∧
      entryPoints brokenNumber.children = 1 ∧ brokenNumber.WordNames ∧
      Lower.program ⟨checked.scopes, false⟩ checked.tree = .ok m ∧
      m.funcs.filter (·.name = Lower.entryName) = [f] ∧
      f.keptLines = [utf8 "(func $main", utf8 "(local $tmp i32)", utf8 "i32.const 1\n\t(x",
        utf8 "call $Dprinti"] ∧
      Bytes.split (byte '\n') (entryLines (m.print Op.text)) =
        [utf8 "(func $main", utf8 "(local $tmp i32)", utf8 "i32.const 1"] ∧
      ¬ Drafted m f (m.print Op.text) := by
  have computed : ((Compiler.compile false brokenNumber).map fun r =>
      ((r.module.funcs.filter (·.name = Lower.entryName)).map Func.keptLines,
        Bytes.split (byte '\n') (entryLines r.wat))).toOption =
      some ([[utf8 "(func $main", utf8 "(local $tmp i32)", utf8 "i32.const 1\n\t(x",
          utf8 "call $Dprinti"]],
        [utf8 "(func $main", utf8 "(local $tmp i32)", utf8 "i32.const 1"]) := by decide +kernel
  cases hcompile : Compiler.compile false brokenNumber with
  | error e =>
    rw [hcompile] at computed
    cases computed
  | ok r =>
    rw [hcompile] at computed
    obtain ⟨hkept, hlines⟩ := Prod.mk.inj (Option.some.inj computed)
    obtain ⟨f, hfuncs, hf⟩ := List.map_eq_singleton_iff.mp hkept
    have accepted := Compiler.checkProgram_of_compile hcompile
    have hprogram := Compiler.program_of_compile hcompile
    refine ⟨r.checked, r.module, f, accepted, by decide, by decide +kernel, hprogram, hfuncs, hf,
      hlines, fun drafted => ?_⟩
    have lost := hlines.symm.trans (drafted.lines.trans hf)
    exact absurd (congrArg List.length lost) (by decide)

end Suite

end TreeWat
