import TreeWat.Cli.Run
import TreeWat.Proofs.Compiler
import TreeWat.Proofs.Files
import TreeWat.Proofs.Tree.Refusal
set_option autoImplicit false

/-!
# Cli: how a command line ends

The four commands that compile a source — `build`, `check`, `dump` and `eval` — on the model of
the machine.  A command that fails prints one report, changes no file and says by its status
who is to blame; a command that succeeds prints no report, and `build` leaves the text of the
module in its file.

A report is one line, with one class of exceptions.  The reader names bytes of the source and
prints data of it as they are, and the text of a file is named by its path; a line break in
any of these stands in the report.

Main statement: `commandLine_ends`.
-/

namespace TreeWat.Cli

/-! ## Attempts on a machine -/

namespace Attempt

section

variable {σ α β : Type} {w w₁ w₂ : σ} {t : Attempt (StateM σ) α} {f : α → Attempt (StateM σ) β}
  {a : α} {p : Problem}

/-- The attempt ends in the outcome, and the second state of the machine is what it leaves. -/
def Ends (t : Attempt (StateM σ) α) (w : σ) (o : Except Problem α) (w' : σ) : Prop :=
  t.run w = (o, w')

theorem ends_pure (a : α) (w : σ) : Ends (pure a : Attempt (StateM σ) α) w (.ok a) w :=
  rfl

theorem ends_throw (p : Problem) (w : σ) :
    Ends (throw p : Attempt (StateM σ) α) w (.error p) w :=
  rfl

theorem ends_of_eq {o o' : Except Problem α} (h : o = o') (w : σ) :
    Ends (ExceptT.mk (pure o) : Attempt (StateM σ) α) w o' w := by
  subst h
  rfl

/-- An operation of the machine cannot end an attempt. -/
theorem ends_lift (x : StateM σ α) (w : σ) :
    Ends (liftM x : Attempt (StateM σ) α) w (.ok (x w).1) (x w).2 :=
  rfl

theorem ends_log {h : Host (StateM σ)} {verbose : Bool} (quiet : verbose = false) (line : Bytes)
    (w : σ) : Ends (liftM (h.log verbose line) : Attempt (StateM σ) Unit) w (.ok ()) w := by
  subst quiet
  rfl

theorem Ends.bind {o : Except Problem β} (first : t.Ends w (.ok a) w₁)
    (second : (f a).Ends w₁ o w₂) : (t >>= f).Ends w o w₂ := by
  have hbind : (t >>= f).run w = ExceptT.bindCont f (t.run w).1 (t.run w).2 := rfl
  rw [Ends, hbind, first]
  exact second

theorem Ends.stop (first : t.Ends w (.error p) w₁) : (t >>= f).Ends w (.error p) w₁ := by
  have hbind : (t >>= f).run w = ExceptT.bindCont f (t.run w).1 (t.run w).2 := rfl
  rw [Ends, hbind, first]
  rfl

end

variable {α : Type} {w : World} {execute : Runner (StateM World)}

theorem ends_say (text : Bytes) (w : World) :
    Ends (liftM ((World.hostWith execute).say text) : Attempt (StateM World) Unit) w (.ok ())
      (w.print .output text) :=
  rfl

/-- An operation that changes files tells the attempt whether it worked. -/
theorem ends_update {x : StateM World (Except FileError Unit)} {fs : FileSystem}
    (h : x w = w.update (.ok fs)) :
    Ends (liftM x : Attempt (StateM World) _) w (.ok (.ok ())) { w with files := fs } := by
  have hlift := ends_lift x w
  rwa [h] at hlift

theorem ends_update_error {x : StateM World (Except FileError Unit)} {e : FileError}
    (h : x w = w.update (.error e)) :
    Ends (liftM x : Attempt (StateM World) _) w (.ok (.error e)) w := by
  have hlift := ends_lift x w
  rwa [h] at hlift

end Attempt

open Attempt (ends_pure ends_throw ends_of_eq ends_lift ends_log ends_say ends_update
  ends_update_error)

/-! ## Steps -/

theorem print_append (w : World) (s : Stream) (text more : Bytes) :
    w.print s (text ++ more) = (w.print s text).print s more := by
  cases s <;> simp [World.print]

variable {w w' : World} {execute : Runner (StateM World)} {load : SettingsReader} {o : Options}
  {settings : Config} {file name src : Bytes} {debug : Bool}

theorem loadSettings_ends (quiet : o.verbose = false)
    (configured : load o.config (w.files.readFile o.config) = .ok settings) :
    (loadSettings load (World.hostWith execute) o).Ends w (.ok settings) w := by
  unfold loadSettings
  refine (ends_lift ((World.hostWith execute).readFile o.config) w).bind ?_
  refine (ends_of_eq configured w).bind ?_
  exact (ends_log quiet _ w).bind (ends_pure _ w)

theorem parseTree_ok {root : Node} (hread : Tree.read src = .ok root) :
    parseTree name src = .ok root := by
  simp [parseTree, hread]

theorem readTree_ends (source : w.files.readFile file = .ok src) :
    (readTree (World.hostWith execute) file).Ends w (parseTree file src) w := by
  unfold readTree
  refine (ends_lift ((World.hostWith execute).readFile file) w).bind (ends_of_eq ?_ w)
  exact congrArg (treeFrom file) source

theorem readTree_ok (source : w.files.readFile file = .ok src) {root : Node}
    (hread : Tree.read src = .ok root) :
    (readTree (World.hostWith execute) file).Ends w (.ok root) w := by
  have reads : (readTree (World.hostWith execute) file).Ends w _ w := readTree_ends source
  rwa [parseTree_ok hread] at reads

theorem compileTree_ends (quiet : o.verbose = false) {root : Node} {r : Compiler.Result}
    (compiled : Compiler.compile (o.debug || settings.debug) root = .ok r) :
    (compileTree (World.hostWith execute) o settings root).Ends w (.ok r) w := by
  unfold compileTree
  refine (ends_log quiet _ w).bind ?_
  rw [compiled]
  exact (ends_log quiet _ w).bind (ends_pure r w)

theorem compileTree_rejects (quiet : o.verbose = false) {root : Node} {f : Failure}
    (rejected : Check.checkProgram root = .error f) :
    (compileTree (World.hostWith execute) o settings root).Ends w (.error (.failure f)) w := by
  unfold compileTree
  refine (ends_log quiet _ w).bind ?_
  rw [Compiler.compile_error_iff.mpr rejected]
  exact ends_throw _ w

theorem checkTree_ok {root : Node} {checked : Check.CheckedProgram}
    (accepted : Check.checkProgram root = .ok checked) : checkTree root = .ok checked := by
  simp [checkTree, accepted]

theorem checkTree_error {root : Node} {f : Failure}
    (rejected : Check.checkProgram root = .error f) : checkTree root = .error (.failure f) := by
  simp [checkTree, rejected]

/-! ## Writing a module -/

/-- The files once a text has been saved, with the directory it goes to. -/
def saved (fs : FileSystem) (output text : Bytes) : Except FileError FileSystem := do
  let dir := Path.directory output
  let fs ← if dir = utf8 "." then .ok fs else fs.makeDirs (dir.length + 1) dir
  fs.writeFile output text

theorem writeModule_ends {output text : Bytes} {fs : FileSystem}
    (isSaved : saved w.files output text = .ok fs) :
    (writeModule (World.hostWith execute) output text).Ends w (.ok ()) { w with files := fs } := by
  unfold saved at isSaved
  unfold writeModule
  dsimp only at isSaved ⊢
  by_cases here : Path.directory output = utf8 "."
  · rw [if_neg (fun h => h here)]
    rw [if_pos here] at isSaved
    exact (ends_update (congrArg w.update isSaved)).bind (ends_pure () _)
  · rw [if_pos here]
    rw [if_neg here] at isSaved
    cases hdirs : w.files.makeDirs ((Path.directory output).length + 1) (Path.directory output) with
    | error e =>
      rw [hdirs] at isSaved
      cases isSaved
    | ok fs₁ =>
      rw [hdirs] at isSaved
      refine (ends_update (congrArg w.update hdirs)).bind ?_
      exact (ends_update (congrArg (World.update _) isSaved)).bind (ends_pure () _)

/-- A module that cannot be saved is the user's affair. -/
theorem writeModule_fails {output text : Bytes} {e : FileError}
    (unsaved : saved w.files output text = .error e) :
    ∃ p w', (writeModule (World.hostWith execute) output text).Ends w (.error p) w' ∧
      p.status = exitFailure := by
  unfold saved at unsaved
  unfold writeModule
  dsimp only at unsaved ⊢
  by_cases here : Path.directory output = utf8 "."
  · rw [if_neg (fun h => h here)]
    rw [if_pos here] at unsaved
    exact ⟨_, _, (ends_update_error (congrArg w.update unsaved)).bind (ends_throw _ _), rfl⟩
  · rw [if_pos here]
    rw [if_neg here] at unsaved
    cases hdirs : w.files.makeDirs ((Path.directory output).length + 1) (Path.directory output) with
    | error e' =>
      exact ⟨_, _, (ends_update_error (congrArg w.update hdirs)).bind (ends_throw _ _).stop, rfl⟩
    | ok fs₁ =>
      rw [hdirs] at unsaved
      have unwritten : Attempt.Ends (liftM ((World.hostWith execute).writeFile output text))
          { w with files := fs₁ } (.ok (.error e)) { w with files := fs₁ } :=
        ends_update_error (congrArg (World.update _) unsaved)
      exact ⟨_, _, (ends_update (congrArg w.update hdirs)).bind
        (unwritten.bind (ends_throw _ _)), rfl⟩

/-! ## Reading and compiling -/

/-- The problem that a failed compilation of the source `name` is. -/
def problemOf (name : Bytes) : Compiler.Error → Problem
  | .read e => .sourceSyntax name e
  | .failure f => .failure f

/-- A source that does not compile ends a command that reads it, if the command goes on to
reject what the checker rejects. -/
theorem fails_of_source {α : Type} {e : Compiler.Error} {t : Attempt (StateM World) Node}
    {k : Node → Attempt (StateM World) α} (reads : t.Ends w (parseTree name src) w)
    (rejects : ∀ {root f}, Check.checkProgram root = .error f →
      (k root).Ends w (.error (.failure f)) w)
    (failed : Compiler.compileSource debug src = .error e) :
    (t >>= k).Ends w (.error (problemOf name e)) w := by
  unfold parseTree at reads
  obtain ⟨e', hread, rfl⟩ | ⟨root, f, hread, rejected, rfl⟩ := Compiler.compileSource_error failed
  · rw [hread] at reads
    exact reads.stop
  · rw [hread] at reads
    exact reads.bind (rejects rejected)

/-! ## Commands -/

section Commands

variable (quiet : o.verbose = false)
  (configured : load o.config (w.files.readFile o.config) = .ok settings)
include quiet configured

theorem build_fails (source : w.files.readFile file = .ok src) {e : Compiler.Error}
    (failed : Compiler.compileSource debug src = .error e) :
    (build load (World.hostWith execute) o file).Ends w (.error (problemOf file e)) w := by
  unfold build BuildJob.build
  refine (loadSettings_ends quiet configured).bind ?_
  refine (ends_log quiet _ w).bind (Attempt.Ends.stop ?_)
  exact fails_of_source (readTree_ends source)
    (fun rejected => (compileTree_rejects quiet rejected).stop) failed

theorem check_fails (source : w.files.readFile file = .ok src) {e : Compiler.Error}
    (failed : Compiler.compileSource debug src = .error e) :
    (check load (World.hostWith execute) o file).Ends w (.error (problemOf file e)) w := by
  unfold check
  refine (loadSettings_ends quiet configured).bind ?_
  refine (ends_log quiet _ w).bind ?_
  exact fails_of_source (readTree_ends source)
    (fun rejected => (ends_of_eq (checkTree_error rejected) w).stop) failed

theorem dump_fails (source : w.files.readFile file = .ok src) {e : Compiler.Error}
    (failed : Compiler.compileSource debug src = .error e) :
    (dump load (World.hostWith execute) o file).Ends w (.error (problemOf file e)) w := by
  unfold dump
  refine (loadSettings_ends quiet configured).bind ?_
  exact fails_of_source (readTree_ends source)
    (fun rejected => (ends_of_eq (checkTree_error rejected) w).stop) failed

theorem eval_fails {e : Compiler.Error} (failed : Compiler.compileSource debug src = .error e) :
    (eval load (World.hostWith execute) o src).Ends w (.error (problemOf (utf8 "<eval>") e)) w := by
  unfold eval
  refine (loadSettings_ends quiet configured).bind ?_
  refine (ends_log quiet _ w).bind ?_
  exact fails_of_source (ends_of_eq rfl w)
    (fun rejected => (compileTree_rejects quiet rejected).stop) failed

theorem check_succeeds (source : w.files.readFile file = .ok src) {r : Compiler.Result}
    (compiled : Compiler.compileSource debug src = .ok r) :
    ∃ text, (check load (World.hostWith execute) o file).Ends w (.ok ())
      (w.print .output text) := by
  obtain ⟨root, hread, hcompile⟩ := Compiler.compileSource_ok compiled
  have reads : (readTree (World.hostWith execute) file).Ends w _ w := readTree_ok source hread
  have accepted := checkTree_ok (Compiler.checkProgram_of_compile hcompile)
  refine ⟨file ++ utf8 ": no errors found\n", ?_⟩
  unfold check
  refine (loadSettings_ends quiet configured).bind ?_
  refine (ends_log quiet _ w).bind ?_
  refine reads.bind ?_
  refine (ends_of_eq accepted w).bind ?_
  refine (ends_say _ w).bind ?_
  rw [quiet]
  exact ends_pure () _

theorem dump_succeeds (source : w.files.readFile file = .ok src) {r : Compiler.Result}
    (compiled : Compiler.compileSource debug src = .ok r) :
    ∃ text, (dump load (World.hostWith execute) o file).Ends w (.ok ())
      (w.print .output text) := by
  obtain ⟨root, hread, hcompile⟩ := Compiler.compileSource_ok compiled
  have reads : (readTree (World.hostWith execute) file).Ends w _ w := readTree_ok source hread
  have accepted := checkTree_ok (Compiler.checkProgram_of_compile hcompile)
  unfold dump
  cases hscopes : o.scopes with
  | false =>
    refine ⟨r.checked.dump, (loadSettings_ends quiet configured).bind ?_⟩
    exact reads.bind ((ends_of_eq accepted w).bind ((ends_say _ w).bind (ends_pure () _)))
  | true =>
    refine ⟨r.checked.dump ++ (utf8 "\n" ++ r.checked.scopesText),
      (loadSettings_ends quiet configured).bind ?_⟩
    rw [print_append]
    exact reads.bind ((ends_of_eq accepted w).bind ((ends_say _ w).bind (ends_say _ _)))

theorem build_ends {r : Compiler.Result} (source : w.files.readFile file = .ok src)
    (compiled : Compiler.compileSource (o.debug || settings.debug) src = .ok r) {fs : FileSystem}
    (isSaved : saved w.files (jobOf o settings file).output r.wat = .ok fs) :
    ∃ text, (build load (World.hostWith execute) o file).Ends w (.ok ())
      ({ w with files := fs }.print .output text) := by
  obtain ⟨root, hread, hcompile⟩ := Compiler.compileSource_ok compiled
  have reads : (readTree (World.hostWith execute) file).Ends w _ w := readTree_ok source hread
  refine ⟨generatedLine (jobOf o settings file).output r.wat.length, ?_⟩
  unfold build BuildJob.build
  refine (loadSettings_ends quiet configured).bind ?_
  refine (ends_log quiet _ w).bind ?_
  refine Attempt.Ends.bind (reads.bind ?_) (ends_say _ _)
  refine (compileTree_ends quiet hcompile).bind ?_
  exact (writeModule_ends isSaved).bind (ends_pure _ _)

theorem build_unsaved {r : Compiler.Result} (source : w.files.readFile file = .ok src)
    (compiled : Compiler.compileSource (o.debug || settings.debug) src = .ok r) {e : FileError}
    (unsaved : saved w.files (jobOf o settings file).output r.wat = .error e) :
    ∃ p w', (build load (World.hostWith execute) o file).Ends w (.error p) w' ∧
      p.status = exitFailure := by
  obtain ⟨root, hread, hcompile⟩ := Compiler.compileSource_ok compiled
  have reads : (readTree (World.hostWith execute) file).Ends w _ w := readTree_ok source hread
  obtain ⟨p, w', fails, hstatus⟩ := writeModule_fails unsaved
  refine ⟨p, w', ?_, hstatus⟩
  unfold build BuildJob.build
  refine (loadSettings_ends quiet configured).bind ?_
  refine (ends_log quiet _ w).bind (Attempt.Ends.stop ?_)
  exact reads.bind ((compileTree_ends quiet hcompile).bind fails.stop)

theorem eval_succeeds {r : Compiler.Result}
    (compiled : Compiler.compileSource (o.debug || settings.debug) src = .ok r) :
    (eval load (World.hostWith execute) o src).Ends w (.ok ()) (w.print .output r.wat) := by
  obtain ⟨root, hread, hcompile⟩ := Compiler.compileSource_ok compiled
  unfold eval
  refine (loadSettings_ends quiet configured).bind ?_
  refine (ends_log quiet _ w).bind ?_
  refine (ends_of_eq (parseTree_ok hread) w).bind ?_
  exact (compileTree_ends quiet hcompile).bind (ends_say _ w)

end Commands

/-! ## Command lines -/

/-- How a finished attempt ends the command line. -/
def endingOf {σ : Type} (h : Host (StateM σ)) : Except Problem Unit → σ → Ending × σ
  | .ok (), s => (.exit exitSuccess, s)
  | .error p, s => (.exit p.status, (h.print .error (p.text ++ utf8 "\n") s).2)

theorem finish_eq {σ : Type} {h : Host (StateM σ)} {t : Attempt (StateM σ) Unit} {s s' : σ}
    {outcome : Except Problem Unit} (ends : t.Ends s outcome s') :
    finish h t s = endingOf h outcome s' := by
  unfold finish
  simp only [bind, StateT.bind]
  rw [show t.run s = (outcome, s') from ends]
  cases outcome <;> rfl

/-- Where a command takes its source from: `eval` has it on the command line. -/
def Command.source (fs : FileSystem) : Command → Bytes → Except FileError Bytes
  | .eval, tree => .ok tree
  | _, file => fs.readFile file

/-- The name of the source in reports. -/
def Command.sourceName : Command → Bytes → Bytes
  | .eval, _ => utf8 "<eval>"
  | _, file => file

/-- A command line for one of the commands that compile a source and do no more, without a call
for progress lines, under settings that are valid. -/
structure CompilesQuietly (load : SettingsReader) (w : World) (args : List Bytes) (c : Command)
    (o : Options) (operand : Bytes) (settings : Config) (src : Bytes) : Prop where
  command : c = .build ∨ c = .check ∨ c = .dump ∨ c = .eval
  spelled : ∃ name rest, args = name :: rest ∧ Command.ofBytes? name = some c ∧
    readFlags c {} none rest = .ok (o, [operand])
  quiet : o.verbose = false
  configured : load o.config (w.files.readFile o.config) = .ok settings
  source : c.source w.files operand = .ok src

theorem commandLine_runOn {args : List Bytes} {c : Command} {operand : Bytes}
    (line : CompilesQuietly load w args c o operand settings src) :
    commandLineWith load (World.hostWith execute) args w =
      c.runOn load (World.hostWith execute) o operand w := by
  obtain ⟨name, rest, rfl, hname, hflags⟩ := line.spelled
  have hstart : commandLineWith load (World.hostWith execute) (name :: rest) =
      c.start load (World.hostWith execute) rest := by
    simp only [commandLineWith, hname]
  rw [hstart, Command.start, hflags]
  obtain rfl | rfl | rfl | rfl := line.command
  · rfl
  · rfl
  · rfl
  · rfl

/-! ## Reports -/

/-- The status of a failed compilation: 2 if the tree breaks the layout of its kinds. -/
def statusOf : Compiler.Error → Nat
  | .failure (.shape _) => 2
  | _ => 1

theorem isComplaint_of_compileSource {f : Failure}
    (failed : Compiler.compileSource debug src = .error (.failure f)) : f.IsComplaint := by
  obtain ⟨e, -, he⟩ | ⟨root, g, -, rejected, hg⟩ := Compiler.compileSource_error failed
  · cases he
  · cases hg
    exact Check.complains_checkProgram root f rejected

theorem status_problemOf {e : Compiler.Error} (name : Bytes)
    (failed : Compiler.compileSource debug src = .error e) :
    (problemOf name e).status = statusOf e := by
  cases e with
  | read e => rfl
  | failure f =>
    cases f with
    | user d => rfl
    | shape e => rfl
    | fault g => exact (isComplaint_of_compileSource failed).elim

/-- A report is one line, unless the reader refused the source and its message or the name of
the source has a line break in it. -/
theorem oneLine_problemOf {e : Compiler.Error} (name : Bytes)
    (failed : Compiler.compileSource debug src = .error e) :
    OneLine (problemOf name e).text ↔ ∀ e', e = .read e' → OneLine name ∧ ¬ e'.NamesBreak := by
  cases e with
  | read e =>
    obtain ⟨e', hread, he⟩ | ⟨_, _, -, -, hf⟩ := Compiler.compileSource_error failed
    · cases he
      have htext := Tree.oneLine_text_of_read hread
      simp +decide [problemOf, Problem.text, htext]
    · cases hf
  | failure f =>
    have complaint := isComplaint_of_compileSource failed
    cases f with
    | user d => simp [problemOf, Problem.text, d.oneLine_text]
    | shape e =>
      have htext := ShapeError.oneLine_text complaint
      simp +decide [problemOf, Problem.text, htext]
    | fault g => exact complaint.elim

/-! ## The four commands -/

/-- What a command leaves behind that did its work: no report, and no file changed but the one
that `build` writes, which holds the text of the module. -/
structure Delivers (c : Command) (w w' : World) (output text : Bytes) : Prop where
  silent : w'.error = w.error
  unchanged : c ≠ .build → w'.files = w.files
  written : c = .build →
    w'.files.readFile output = .ok text ∨ w'.files.locate output = .ok FileSystem.nullPlace

theorem Delivers.print {c : Command} (other : c ≠ .build) (w : World) (text output wat : Bytes) :
    Delivers c w (w.print .output text) output wat :=
  ⟨rfl, fun _ => rfl, fun h => absurd h other⟩

/-- A text that has been saved is at its path, unless the path leads to the null device. -/
theorem readFile_of_saved {fs fs' : FileSystem} {output text : Bytes}
    (isSaved : saved fs output text = .ok fs') :
    fs'.readFile output = .ok text ∨ fs'.locate output = .ok FileSystem.nullPlace := by
  unfold saved at isSaved
  dsimp only at isSaved
  split at isSaved
  · exact FileSystem.readFile_of_writeFile isSaved
  · cases hdirs : fs.makeDirs ((Path.directory output).length + 1) (Path.directory output) with
    | error e =>
      rw [hdirs] at isSaved
      cases isSaved
    | ok fs₁ =>
      rw [hdirs] at isSaved
      have written : fs₁.writeFile output text = .ok fs' := isSaved
      exact FileSystem.readFile_of_writeFile written

section CommandLine

variable {args : List Bytes} {c : Command} {operand : Bytes}
  (line : CompilesQuietly load w args c o operand settings src)
include line

theorem commandLine_fails {e : Compiler.Error}
    (failed : Compiler.compileSource debug src = .error e) :
    commandLineWith load (World.hostWith execute) args w = (.exit (statusOf e),
      { w with error := w.error ++ ((problemOf (c.sourceName operand) e).text ++ utf8 "\n") }) := by
  rw [commandLine_runOn line, ← status_problemOf (c.sourceName operand) failed]
  obtain ⟨hcommand, -, quiet, configured, source⟩ := line
  obtain rfl | rfl | rfl | rfl := hcommand
  · exact finish_eq (build_fails quiet configured source failed)
  · exact finish_eq (check_fails quiet configured source failed)
  · exact finish_eq (dump_fails quiet configured source failed)
  · cases source
    exact finish_eq (eval_fails quiet configured failed)

theorem commandLine_succeeds {r : Compiler.Result}
    (compiled : Compiler.compileSource (o.debug || settings.debug) src = .ok r) :
    ∃ status w', commandLineWith load (World.hostWith execute) args w = (.exit status, w') ∧
      (status = 0 ↔
        (c = .build → ∃ fs, saved w.files (jobOf o settings operand).output r.wat = .ok fs)) ∧
      (status = 0 → Delivers c w w' (jobOf o settings operand).output r.wat) := by
  rw [commandLine_runOn line]
  obtain ⟨hcommand, -, quiet, configured, source⟩ := line
  obtain rfl | rfl | rfl | rfl := hcommand
  · cases hsaved : saved w.files (jobOf o settings operand).output r.wat with
    | error e =>
      obtain ⟨p, w', ends, hstatus⟩ := build_unsaved quiet configured source compiled hsaved
      refine ⟨p.status, _, finish_eq ends, ?_, ?_⟩
      · simp [hstatus, exitFailure]
      · simp [hstatus, exitFailure]
    | ok fs =>
      obtain ⟨text, ends⟩ := build_ends quiet configured source compiled hsaved
      refine ⟨_, _, finish_eq ends, ?_, fun _ => ⟨rfl, fun h => absurd rfl h, fun _ => ?_⟩⟩
      · simp [exitSuccess]
      · exact readFile_of_saved hsaved
  · obtain ⟨text, ends⟩ := check_succeeds quiet configured source compiled
    exact ⟨_, _, finish_eq ends, by simp [exitSuccess], fun _ => .print (by decide) w text _ _⟩
  · obtain ⟨text, ends⟩ := dump_succeeds quiet configured source compiled
    exact ⟨_, _, finish_eq ends, by simp [exitSuccess], fun _ => .print (by decide) w text _ _⟩
  · cases source
    have ends : (eval load (World.hostWith execute) o _).Ends w _ _ :=
      eval_succeeds quiet configured compiled
    exact ⟨_, _, finish_eq ends, by simp [exitSuccess], fun _ => .print (by decide) w _ _ _⟩

end CommandLine

/-- How a command line for a source ends.  If the source does not compile, the machine is left
as it was but for one report, and the status says whether the tree is to blame; the report is
one line, unless the reader takes a line break over into it.  If the source compiles, the
command succeeds, prints no report, and `build` leaves the text of the module in its file,
which can fail only because the file cannot be written. -/
theorem commandLine_ends {args : List Bytes} {c : Command} {operand : Bytes}
    (line : CompilesQuietly load w args c o operand settings src) :
    (∀ e, Compiler.compileSource (o.debug || settings.debug) src = .error e →
      ∃ report, commandLineWith load (World.hostWith execute) args w =
          (.exit (statusOf e), { w with error := w.error ++ (report ++ utf8 "\n") }) ∧
        (OneLine report ↔
          ∀ e', e = .read e' → OneLine (c.sourceName operand) ∧ ¬ e'.NamesBreak)) ∧
    ∀ r, Compiler.compileSource (o.debug || settings.debug) src = .ok r →
      ∃ status w', commandLineWith load (World.hostWith execute) args w = (.exit status, w') ∧
        (status = 0 ↔
          (c = .build → ∃ fs, saved w.files (jobOf o settings operand).output r.wat = .ok fs)) ∧
        (status = 0 → Delivers c w w' (jobOf o settings operand).output r.wat) :=
  ⟨fun _ failed => ⟨_, commandLine_fails line failed, oneLine_problemOf _ failed⟩,
    fun _ compiled => commandLine_succeeds line compiled⟩

/-! ## A report of two lines -/

/-- A source with a backslash at the end of a line. -/
def brokenString : Bytes :=
  utf8 "\"a\\\nb\""

/-- A machine with that source in a file of the working directory. -/
def brokenStringWorld : World where
  files := FileSystem.empty.put (FileSystem.workPlace ++ [utf8 "a.jmm"]) (.file brokenString)
  scratch := utf8 "/tmp/scratch"

theorem brokenString_line :
    CompilesQuietly settingsFrom brokenStringWorld [utf8 "check", utf8 "a.jmm"] .check {}
      (utf8 "a.jmm") Config.default brokenString where
  command := .inr (.inl rfl)
  spelled := ⟨_, _, rfl, rfl, rfl⟩
  quiet := rfl
  configured := rfl
  source := rfl

theorem brokenString_refused :
    Tree.read brokenString = .error (.brackets ⟨2, .badEscape (byte '\n')⟩) := by
  have hbrackets : Datum.read brokenString = .error ⟨2, .badEscape (byte '\n')⟩ :=
    Datum.read_of_readString rfl rfl
  simp [Tree.read, hbrackets]

/-- A machine on which no program can be run. -/
def noPrograms : Runner (StateM World) :=
  fun _ _ => pure (.error .noCommand)

/-- The report on that source goes over two lines. -/
theorem brokenString_report :
    CompilesQuietly settingsFrom brokenStringWorld [utf8 "check", utf8 "a.jmm"] .check {}
        (utf8 "a.jmm") Config.default brokenString ∧
      ∃ report, commandLine (World.hostWith noPrograms) [utf8 "check", utf8 "a.jmm"]
          brokenStringWorld = (.exit 1, { brokenStringWorld with error := report ++ utf8 "\n" }) ∧
        ¬ OneLine report := by
  have failed : Compiler.compileSource false brokenString =
      .error (.read (.brackets ⟨2, .badEscape (byte '\n')⟩)) := by
    simp [Compiler.compileSource, brokenString_refused]
  obtain ⟨report, hrun, hline⟩ := (commandLine_ends brokenString_line).1 _ failed
  exact ⟨brokenString_line, report, hrun, fun h => (hline.mp h _ rfl).2 (.inl rfl)⟩

end TreeWat.Cli
