import TreeWat.Proofs.Cli
import TreeWat.Proofs.Compiler.Placement
import TreeWat.Proofs.Host
import TreeWat.Proofs.Tree.Literals
set_option autoImplicit false

/-!
# Cli: what a build does to its source

A build reads one file and writes one.  Without a path on the command line the module has the
name of the source with `.wat` for its extension, next to the source or in the output
directory of the project.  Nothing stops the two paths from leading to one file.  They are the
same path if the source has the extension `.wat` already; and different paths lead to one file
where there are links.  Then the source is replaced by its own module, and the build succeeds.

What is said here is said of every machine that keeps the laws of files (`FileView.Laws`): it may
have links, and a write that fails may have emptied its file.

Main statement: `build_keeps_source_iff`.
-/

namespace TreeWat

/-! ## The text of a module is no source -/

/-- A list that starts with a word that is no kind is no tree. -/
theorem Tree.ofDatum_word_ne_ok {parent : Option Kind} {loc headLoc : Location}
    {keys : List Bytes} {values rest : List Datum} {name : Bytes} {root : Node}
    (noKind : Kind.ofText? name = none) :
    ofDatum parent (.list loc keys values (.atom .symbol headLoc name :: rest)) ≠ .ok root := by
  intro h
  obtain ⟨kind, headLoc', rest', -, hitems, -⟩ := ofDatum_list_ok_iff.mp h
  cases hitems
  rw [Kind.ofText?_text] at noKind
  cases noKind

/-- What stands behind the bracket of a module is the word for it. -/
theorem Datum.gatherItems_module {loc : Location} {rest : Bytes} {es : List Element} {c' : Cursor}
    (reads : ReadsElements ⟨loc, utf8 "module" ++ byte '\n' :: rest⟩ es c') :
    ∃ headLoc others, gatherItems es = .atom .symbol headLoc (utf8 "module") :: others := by
  have hskip : (⟨loc, utf8 "module" ++ byte '\n' :: rest⟩ : Cursor).skipBlanks =
      ⟨loc, byte 'm' :: (utf8 "odule" ++ byte '\n' :: rest)⟩ :=
    skipBlanks_visible (by decide) (by decide)
  cases reads.cases with
  | nil next =>
    rw [hskip] at next
    cases next
  | note next _ _ =>
    rw [hskip] at next
    cases next
  | @item _ others _ _ first _ =>
    obtain ⟨rfl, -⟩ := first.unique (.symbol hskip (by decide) rfl)
    have inside : ∀ b ∈ utf8 "odule", isSymbolByte b = true := by decide +kernel
    have hword : (utf8 "odule" ++ byte '\n' :: rest).takeWhile isSymbolByte = utf8 "odule" := by
      rw [List.takeWhile_append_of_pos inside, List.takeWhile_cons_of_neg (by decide)]
      exact List.append_nil _
    refine ⟨loc, gatherItems others, ?_⟩
    rw [takeRun, hword]
    rfl

/-- A text whose first line opens a module is no tree. -/
theorem Tree.read_module_ne_ok (rest : Bytes) (root : Node) :
    Tree.read (utf8 "(module" ++ byte '\n' :: rest) ≠ .ok root := by
  intro hread
  have hskip : (⟨.start, utf8 "(module" ++ byte '\n' :: rest⟩ : Datum.Cursor).skipBlanks =
      ⟨.start, byte '(' :: (utf8 "module" ++ byte '\n' :: rest)⟩ :=
    Datum.skipBlanks_visible (by decide) (by decide)
  unfold Tree.read at hread
  split at hread
  · cases hread
  · rename_i d hdatum
    obtain ⟨c', reads, -⟩ := Datum.reads_of_read hdatum
    obtain ⟨es, contents, rfl⟩ := reads.list_of_open hskip
    obtain ⟨headLoc, others, hitems⟩ := Datum.gatherItems_module contents
    rw [Datum.ofElements, hitems] at hread
    exact Tree.ofDatum_word_ne_ok (by decide) hread

/-- No text is the text of its own module. -/
theorem Compiler.wat_ne_of_compileSource {debug : Bool} {src : Bytes} {r : Compiler.Result}
    (compiled : Compiler.compileSource debug src = .ok r) : r.wat ≠ src := by
  rintro rfl
  obtain ⟨root, hread, -⟩ := Compiler.compileSource_ok compiled
  exact Tree.read_module_ne_ok _ root hread

/-! ## The path of a module -/

/-- A source that has the path of its module has the extension of modules. -/
theorem Config.extension_of_outputPath_eq_self {settings : Config} {file : Bytes}
    (same : settings.outputPath file = file) : Path.extension file = utf8 ".wat" := by
  obtain ⟨front, opens, hpath, -⟩ := settings.outputPath_eq file
  have hlast := Path.lastName_append opens (Config.slash_not_mem_moduleName file)
  rw [← hpath, same] at hlast
  exact (Config.lastName_eq_moduleName_iff file).mp hlast

/-- Next to its source the module of a source with the extension of modules has its path. -/
theorem Config.outputPath_eq_self {settings : Config} {file : Bytes} (unset : settings.dir = [])
    (isModule : Path.extension file = utf8 ".wat") : settings.outputPath file = file := by
  obtain ⟨front, -, hpath, here⟩ := settings.outputPath_eq file
  rw [hpath, here unset, ← (Config.lastName_eq_moduleName_iff file).mpr isModule,
    Path.above_append_lastName]

/-! ## The file of a module

The model has no links.  There a module that goes next to its source takes the file of the source
exactly if the source has the extension of modules, however its path is written. -/

namespace FileSystem

open TreeWat.Path (above lastName)

variable {fs : FileSystem} {settings : Config} {file : Bytes} {p : Place}

/-- The module of an input file is in its directory, under its name. -/
theorem locate_outputPath (unset : settings.dir = [])
    (leads : fs.locate (settings.outputPath file) = .ok p) :
    ∃ q, p = q ++ [Config.moduleName file] ∧
      fs.walk (fs.origin (above file)) (Path.elements (above file)) = .ok q := by
  obtain ⟨front, opens, hpath, here⟩ := settings.outputPath_eq file
  rw [hpath] at leads
  obtain ⟨q, before, single⟩ := locate_append opens (Config.slash_not_mem_moduleName file)
    (Config.moduleName_ne_nil file) leads
  obtain ⟨noDot, noDots⟩ := not_or.mp (Config.moduleName_plain file)
  have hp := (walk_single single).2
  rw [if_neg noDot, if_neg noDots] at hp
  exact ⟨q, hp, here unset ▸ before⟩

/-- An input next to which its module takes its place has the extension of modules. -/
theorem extension_of_locate (unset : settings.dir = []) (source : fs.locate file = .ok p)
    (output : fs.locate (settings.outputPath file) = .ok p) :
    Path.extension file = utf8 ".wat" := by
  obtain ⟨q, rfl, before⟩ := locate_outputPath unset output
  replace source := (congrArg fs.locate (Path.above_append_lastName file)).trans source
  by_cases named : lastName file = []
  · -- A path that ends in a slash leads to the directory of the module.
    rw [named, List.append_nil] at source
    have hq := before.symm.trans (locate_opens (Path.opens_above file) source)
    exact absurd (congrArg List.length (Except.ok.inj hq)) (by simp)
  · obtain ⟨q', before', single⟩ := locate_append (Path.opens_above file)
      (Path.slash_not_mem_lastName file) named source
    obtain rfl : q = q' := Except.ok.inj (before.symm.trans before')
    have hlast := (walk_single single).2
    split at hlast
    · exact absurd (congrArg List.length hlast) (by simp)
    · split at hlast
      · have hlength := congrArg List.length hlast
        simp only [List.length_append, List.length_dropLast, List.length_singleton] at hlength
        omega
      · have hname := List.singleton_inj.mp (List.append_cancel_left hlast)
        exact (Config.lastName_eq_moduleName_iff file).mp hname.symm

end FileSystem

theorem World.leads_outputPath_iff {w : World} {settings : Config} {file : Bytes} {p : Place}
    (unset : settings.dir = []) (reaches : view.leads w file = some p) :
    view.leads w (settings.outputPath file) = some p ↔ Path.extension file = utf8 ".wat" := by
  constructor
  · intro output
    obtain ⟨hsource, -⟩ := leads_eq_some_iff.mp reaches
    obtain ⟨houtput, -⟩ := leads_eq_some_iff.mp output
    exact FileSystem.extension_of_locate unset hsource houtput
  · intro isModule
    rw [Config.outputPath_eq_self unset isModule]
    exact reaches

namespace Cli

/-! ## Attempts and files -/

section

variable {σ α β : Type} {v : FileView σ} {f : v.File} {s s₁ s' : σ}
  {t : Attempt (StateM σ) α} {k : α → Attempt (StateM σ) β} {a : α} {p : Problem}
  {outcome : Except Problem α} {Q : Except Problem α → σ → Prop}
  {R : Except Problem β → σ → Prop}

/-- No path leads elsewhere, and the file stays as it is. -/
structure Untouched (v : FileView σ) (f : v.File) (s s' : σ) : Prop where
  leads : v.leads s' = v.leads s
  keeps : v.Keeps f s s'

theorem Untouched.refl (f : v.File) (s : σ) : Untouched v f s s :=
  ⟨rfl, .refl f s⟩

theorem Untouched.trans (first : Untouched v f s s₁) (second : Untouched v f s₁ s') :
    Untouched v f s s' :=
  ⟨second.leads.trans first.leads, first.keeps.trans second.keeps⟩

namespace Attempt

/-- The attempt ends, and its outcome and the state that it leaves are as described. -/
def Turns (t : Attempt (StateM σ) α) (s : σ) (Q : Except Problem α → σ → Prop) : Prop :=
  ∃ outcome s', t.Ends s outcome s' ∧ Q outcome s'

/-- The attempt has the outcome and does not touch the file. -/
def Answers (t : Attempt (StateM σ) α) (v : FileView σ) (f : v.File) (s : σ)
    (outcome : Except Problem α) : Prop :=
  t.Turns s fun outcome' s' => outcome' = outcome ∧ Untouched v f s s'

theorem Turns.bind (first : t.Turns s Q)
    (goesOn : ∀ a s₁, Q (.ok a) s₁ → (k a).Turns s₁ R)
    (stops : ∀ p s₁, Q (.error p) s₁ → R (.error p) s₁) : (t >>= k).Turns s R := by
  obtain ⟨outcome, s₁, ends, hQ⟩ := first
  cases outcome with
  | error p => exact ⟨.error p, s₁, ends.stop, stops p s₁ hQ⟩
  | ok a =>
    obtain ⟨outcome, s₂, ends', hR⟩ := goesOn a s₁ hQ
    exact ⟨outcome, s₂, ends.bind ends', hR⟩

/-- An operation of the machine cannot end an attempt. -/
theorem turns_lift_bind {γ : Type} {x : StateM σ γ} {k : γ → Attempt (StateM σ) β}
    (rest : (k (x s).1).Turns (x s).2 R) : Attempt.Turns (liftM x >>= k) s R := by
  obtain ⟨outcome, s', ends, hR⟩ := rest
  exact ⟨outcome, s', (ends_lift x s).bind ends, hR⟩

theorem Answers.bind (first : t.Answers v f s (.ok a))
    (second : ∀ s₁, Untouched v f s s₁ → (k a).Turns s₁ R) : (t >>= k).Turns s R := by
  refine Turns.bind first ?_ ?_
  · rintro a s₁ ⟨h, same⟩
    cases h
    exact second s₁ same
  · rintro p s₁ ⟨h, -⟩
    cases h

theorem Answers.stop (first : t.Answers v f s (.error p))
    (stopped : ∀ s₁, Untouched v f s s₁ → R (.error p) s₁) : (t >>= k).Turns s R := by
  refine Turns.bind first ?_ ?_
  · rintro a s₁ ⟨h, -⟩
    cases h
  · rintro p s₁ ⟨h, same⟩
    cases h
    exact stopped s₁ same

theorem Answers.bind_answers {o : Except Problem β} (first : t.Answers v f s (.ok a))
    (second : ∀ s₁, (k a).Answers v f s₁ o) : (t >>= k).Answers v f s o := by
  refine Answers.bind first fun s₁ same => ?_
  obtain ⟨outcome, s₂, ends, rfl, same₂⟩ := second s₁
  exact ⟨outcome, s₂, ends, rfl, same.trans same₂⟩

theorem answers_of_eq {o o' : Except Problem α} (h : o = o') :
    Answers (ExceptT.mk (pure o) : Attempt (StateM σ) α) v f s o' :=
  ⟨o', s, ends_of_eq h s, rfl, .refl f s⟩

theorem answers_pure (a : α) : Answers (pure a : Attempt (StateM σ) α) v f s (.ok a) :=
  ⟨_, s, ends_pure a s, rfl, .refl f s⟩

theorem answers_throw (p : Problem) :
    Answers (throw p : Attempt (StateM σ) α) v f s (.error p) :=
  ⟨_, s, ends_throw p s, rfl, .refl f s⟩

end Attempt

end

open Attempt (answers_of_eq answers_pure answers_throw ends_lift)

/-! ## The steps of a build -/

section Steps

variable {σ : Type} {v : FileView σ} {h : Host (StateM σ)} {load : SettingsReader}
  {source : v.File} {s : σ} {o : Options} {settings : Config} {file : Bytes} {root : Node}
  (laws : v.Laws h)
include laws

theorem answers_readFile (path : Bytes) :
    Attempt.Answers (liftM (h.readFile path) : Attempt (StateM σ) _) v source s
      (.ok (h.readFile path s).1) :=
  ⟨_, _, ends_lift (h.readFile path) s, rfl, laws.readFile_leads path s,
    laws.readFile_keeps path source s⟩

theorem readTree_answers :
    (readTree h file).Answers v source s (treeFrom file (h.readFile file s).1) := by
  unfold readTree
  exact (answers_readFile laws file).bind_answers fun _ => answers_of_eq rfl

variable (apart : ∀ stream, v.outlet stream ≠ some source)
include apart

theorem answers_say (text : Bytes) :
    Attempt.Answers (liftM (h.say text) : Attempt (StateM σ) Unit) v source s (.ok ()) :=
  ⟨_, _, ends_lift (h.say text) s, rfl, laws.print_leads .output text s,
    laws.print_keeps (apart .output) text s⟩

theorem answers_log (verbose : Bool) (line : Bytes) :
    Attempt.Answers (liftM (h.log verbose line) : Attempt (StateM σ) Unit) v source s
      (.ok ()) := by
  cases verbose with
  | false => exact answers_pure ()
  | true => exact answers_say laws apart (line ++ utf8 "\n")

theorem loadSettings_answers :
    (loadSettings load h o).Answers v source s (load o.config (h.readFile o.config s).1) := by
  unfold loadSettings
  refine (answers_readFile laws o.config).bind_answers fun s₁ => ?_
  cases load o.config (h.readFile o.config s).1 with
  | error p =>
    have first : Attempt.Answers (ExceptT.mk (pure (.error p)) : Attempt (StateM σ) Config) v
        source s₁ (.error p) := answers_of_eq rfl
    exact first.stop fun _ same => ⟨rfl, same⟩
  | ok settings =>
    refine Attempt.Answers.bind_answers (answers_of_eq rfl) fun s₂ => ?_
    exact (answers_log laws apart _ _).bind_answers fun _ => answers_pure settings

theorem compileTree_answers :
    (compileTree h o settings root).Answers v source s
      ((Compiler.compile (o.debug || settings.debug) root).mapError .failure) := by
  unfold compileTree
  refine (answers_log laws apart _ _).bind_answers fun _ => ?_
  cases Compiler.compile (o.debug || settings.debug) root with
  | error f => exact answers_throw (.failure f)
  | ok r => exact (answers_log laws apart _ _).bind_answers fun _ => answers_pure r

end Steps

/-! ## What becomes of a source -/

section Fate

variable {σ : Type} {v : FileView σ} {source : v.File} {s s₁ s' : σ} {debug done : Bool}
  {file output : Bytes}

/-- What a build does to a file that is its source.  The file keeps its paths; it keeps its bytes
unless they are a program and the module goes to the file; and if the build is done, the file
keeps its bytes exactly if the module goes elsewhere. -/
structure Fate (v : FileView σ) (source : v.File) (debug : Bool) (output : Bytes) (done : Bool)
    (s s' : σ) : Prop where
  leads : ∀ path, v.leads s path = some source → v.leads s' path = some source
  spared : v.content s' source = v.content s source ∨
    (∃ r, Compiler.compileSource debug (v.content s source) = .ok r) ∧
      v.leads s' output = some source
  replaced : done = true →
    (v.content s' source = v.content s source ↔ v.leads s' output ≠ some source)

variable (reaches : v.leads s file = some source)
include reaches

theorem Fate.of_keeps (same : v.Keeps source s s') : Fate v source debug output false s s' where
  leads path h := (same path h).1
  spared := .inl (same file reaches).2
  replaced := nofun

theorem Fate.after (same : v.Keeps source s s₁) (fate : Fate v source debug output done s₁ s') :
    Fate v source debug output done s s' := by
  have hcontent := (same file reaches).2
  exact ⟨fun path h => fate.leads path (same path h).1, hcontent ▸ fate.spared,
    hcontent ▸ fate.replaced⟩

theorem Fate.before (fate : Fate v source debug output done s s₁)
    (same : Untouched v source s₁ s') : Fate v source debug output done s s' := by
  have hcontent := (same.keeps file (fate.leads file reaches)).2
  constructor
  · rw [same.leads]
    exact fate.leads
  · rw [same.leads, hcontent]
    exact fate.spared
  · rw [same.leads, hcontent]
    exact fate.replaced

end Fate

section Steps

variable {σ : Type} {v : FileView σ} {h : Host (StateM σ)} {source : v.File} {s : σ}
  {debug : Bool} {file output : Bytes} {r : Compiler.Result} (laws : v.Laws h)
include laws

/-- Writing the module of a source. -/
theorem writeFile_fate (reaches : v.leads s file = some source)
    (compiled : Compiler.compileSource debug (v.content s source) = .ok r) :
    Fate v source debug output (h.writeFile output r.wat s).1.isOk s
      (h.writeFile output r.wat s).2 := by
  have elsewhere : v.leads (h.writeFile output r.wat s).2 output ≠ some source →
      v.Keeps source s (h.writeFile output r.wat s).2 := laws.writeFile_keeps
  refine ⟨fun path leads => laws.writeFile_leads leads output r.wat, ?_, fun isDone => ?_⟩
  · by_cases here : v.leads (h.writeFile output r.wat s).2 output = some source
    · exact .inr ⟨⟨r, compiled⟩, here⟩
    · exact .inl (elsewhere here file reaches).2
  · refine ⟨fun same here => ?_, fun other => (elsewhere other file reaches).2⟩
    have written : (h.writeFile output r.wat s).1 = .ok () := by
      cases hdone : (h.writeFile output r.wat s).1 with
      | error e =>
        rw [hdone] at isDone
        cases isDone
      | ok done => rfl
    exact Compiler.wat_ne_of_compileSource compiled ((laws.writes written here).symm.trans same)

/-- Writing it once its directory is there; a write that fails ends the attempt. -/
theorem writes_turns {s₁ : σ} {k : Except FileError Unit → Attempt (StateM σ) Unit}
    (fails : ∀ e, ∃ p, k (.error e) = throw p) (succeeds : k (.ok ()) = pure ())
    (reaches : v.leads s file = some source)
    (compiled : Compiler.compileSource debug (v.content s source) = .ok r)
    (same : v.Keeps source s s₁) :
    Attempt.Turns (liftM (h.writeFile output r.wat) >>= k) s₁ fun outcome s' =>
      Fate v source debug output outcome.isOk s s' := by
  obtain ⟨reaches₁, hcontent⟩ := same file reaches
  have fate : Fate v source debug output _ s₁ _ :=
    writeFile_fate laws reaches₁ (hcontent ▸ compiled)
  refine Attempt.turns_lift_bind ?_
  cases hdone : (h.writeFile output r.wat s₁).1 with
  | error e =>
    obtain ⟨p, hthrow⟩ := fails e
    rw [hdone] at fate
    rw [hthrow]
    exact ⟨_, _, Attempt.ends_throw _ _, fate.after reaches same⟩
  | ok done =>
    rw [hdone] at fate
    rw [succeeds]
    exact ⟨_, _, Attempt.ends_pure _ _, fate.after reaches same⟩

theorem writeModule_turns (reaches : v.leads s file = some source)
    (compiled : Compiler.compileSource debug (v.content s source) = .ok r) :
    (writeModule h output r.wat).Turns s fun outcome s' =>
      Fate v source debug output outcome.isOk s s' := by
  unfold writeModule
  dsimp only
  by_cases here : Path.directory output = utf8 "."
  · rw [if_neg (fun other => other here)]
    exact writes_turns laws (fun e => ⟨_, rfl⟩) rfl reaches compiled (.refl source s)
  · rw [if_pos here]
    have made := laws.makeDirs_keeps (Path.directory output) source s
    refine Attempt.turns_lift_bind ?_
    cases (h.makeDirs (Path.directory output) s).1 with
    | error e => exact ⟨_, _, (Attempt.ends_throw _ _).stop, .of_keeps reaches made⟩
    | ok done => exact writes_turns laws (fun e => ⟨_, rfl⟩) rfl reaches compiled made

end Steps

section Build

variable {σ : Type} {v : FileView σ} {h : Host (StateM σ)} {load : SettingsReader}
  {source : v.File} {s : σ} {o : Options} {file : Bytes} (laws : v.Laws h)
include laws

/-- The source is read and compiled before its module is written. -/
theorem BuildJob.build_turns (job : BuildJob) (reaches : v.leads s job.file = some source)
    (apart : ∀ stream, v.outlet stream ≠ some source) :
    (job.build h).Turns s fun outcome s' =>
      Fate v source (job.options.debug || job.settings.debug) job.output outcome.isOk s s' := by
  unfold BuildJob.build
  have reads : (readTree h job.file).Answers v source s _ := readTree_answers laws
  cases hbytes : (h.readFile job.file s).1 with
  | error e =>
    rw [hbytes] at reads
    exact reads.stop fun s₁ same => .of_keeps reaches same.keeps
  | ok bytes =>
    obtain rfl := laws.reads reaches hbytes
    rw [hbytes, treeFrom, parseTree] at reads
    cases hread : Tree.read (v.content s source) with
    | error e =>
      rw [hread] at reads
      exact reads.stop fun s₁ same => .of_keeps reaches same.keeps
    | ok root =>
      rw [hread] at reads
      refine reads.bind fun s₁ same₁ => ?_
      have compiles : (compileTree h job.options job.settings root).Answers v source s₁ _ :=
        compileTree_answers laws apart
      cases hcompile : Compiler.compile (job.options.debug || job.settings.debug) root with
      | error f =>
        rw [hcompile] at compiles
        exact compiles.stop fun s₂ same₂ => .of_keeps reaches (same₁.trans same₂).keeps
      | ok r =>
        rw [hcompile] at compiles
        refine compiles.bind fun s₂ same₂ => ?_
        have same := same₁.trans same₂
        obtain ⟨reaches₂, hcontent⟩ := same.keeps _ reaches
        have compiled : Compiler.compileSource (job.options.debug || job.settings.debug)
            (v.content s₂ source) = .ok r :=
          Compiler.compileSource_ok_iff.mpr ⟨root, hcontent ▸ hread, hcompile⟩
        refine (writeModule_turns laws reaches₂ compiled).bind ?_ ?_
        · intro _ s₃ fate
          exact ⟨.ok _, s₃, Attempt.ends_pure _ s₃, fate.after reaches same.keeps⟩
        · exact fun _ s₃ fate => fate.after reaches same.keeps

theorem build_turns (reaches : v.leads s file = some source)
    (apart : ∀ stream, v.outlet stream ≠ some source) :
    (build load h o file).Turns s fun outcome s' =>
      match load o.config (h.readFile o.config s).1 with
      | .error _ => outcome.isOk = false ∧ v.Keeps source s s'
      | .ok settings => Fate v source (o.debug || settings.debug) (jobOf o settings file).output
          outcome.isOk s s' := by
  unfold build
  have loads : (loadSettings load h o).Answers v source s _ := loadSettings_answers laws apart
  cases hsettings : load o.config (h.readFile o.config s).1 with
  | error p =>
    rw [hsettings] at loads
    exact loads.stop fun s₁ same => ⟨rfl, same.keeps⟩
  | ok settings =>
    rw [hsettings] at loads
    refine loads.bind fun s₁ same₁ => (answers_log laws apart _ _).bind fun s₂ same₂ => ?_
    have same := same₁.trans same₂
    obtain ⟨reaches₂, -⟩ := same.keeps file reaches
    refine (BuildJob.build_turns laws (jobOf o settings file) reaches₂ apart).bind ?_ ?_
    · intro size s₃ fate
      obtain ⟨outcome, s₄, ends, rfl, same₄⟩ := answers_say laws apart
        (generatedLine (jobOf o settings file).output size) (s := s₃)
      exact ⟨.ok (), s₄, ends, (fate.before reaches₂ same₄).after reaches same.keeps⟩
    · exact fun _ s₃ fate => fate.after reaches same.keeps

end Build

/-! ## Command lines -/

theorem Problem.status_ne_zero (p : Problem) : p.status ≠ 0 := by
  unfold Problem.status
  split <;> decide

section CommandLine

variable {σ : Type} {v : FileView σ} {h : Host (StateM σ)} {load : SettingsReader}
  {s s' : σ} {o : Options} {file : Bytes} {args : List Bytes} {source : v.File}

/-- A command line that builds the module of a file and does not say where.  Nothing that the
command prints goes to the file. -/
structure BuildsUnnamed (v : FileView σ) (s : σ) (args : List Bytes) (o : Options) (file : Bytes)
    (source : v.File) : Prop where
  spelled : ∃ rest, args = utf8 "build" :: rest ∧
    readFlags .build {} none rest = .ok (o, [file])
  unnamed : o.output = []
  reaches : v.leads s file = some source
  apart : ∀ stream, v.outlet stream ≠ some source

/-- A report leaves the source as it is. -/
theorem finish_fate {t : Attempt (StateM σ) Unit} {outcome : Except Problem Unit}
    (laws : v.Laws h) (apart : ∀ stream, v.outlet stream ≠ some source)
    (ends : t.Ends s outcome s') :
    ∃ status s'', finish h t s = (.exit status, s'') ∧ (status = 0 ↔ outcome.isOk = true) ∧
      Untouched v source s' s'' := by
  rw [finish_eq ends]
  cases outcome with
  | ok done => exact ⟨0, s', rfl, iff_of_true rfl rfl, .refl source s'⟩
  | error p =>
    refine ⟨p.status, _, rfl, iff_of_false p.status_ne_zero Bool.false_ne_true, ?_⟩
    exact ⟨laws.print_leads .error _ s', laws.print_keeps (apart .error) _ s'⟩

theorem BuildsUnnamed.commandLine_eq (line : BuildsUnnamed v s args o file source) :
    commandLineWith load h args s = finish h (build load h o file) s := by
  obtain ⟨rest, rfl, hflags⟩ := line.spelled
  have hstart : commandLineWith load h (utf8 "build" :: rest) =
      Command.start load h .build rest := rfl
  rw [hstart, Command.start, hflags]
  rfl

/-- What becomes of the source of a build without a path for the module, on a machine that may
have links and writes that fail halfway.  The path of the source leads to it still.  Only a
source that compiles can be lost, and only where the path of its module leads to it; a build
that succeeds loses its source exactly there.  A source that has the path of its module has the
extension `.wat`, and without an output directory every source with that extension has it. -/
theorem build_keeps_source_iff (laws : v.Laws h) (line : BuildsUnnamed v s args o file source) :
    ∃ status s', commandLineWith load h args s = (.exit status, s') ∧
      v.leads s' file = some source ∧
      (v.content s' source ≠ v.content s source → ∃ settings,
        load o.config (h.readFile o.config s).1 = .ok settings ∧
          (∃ r, Compiler.compileSource (o.debug || settings.debug) (v.content s source) = .ok r) ∧
          v.leads s' (settings.outputPath file) = some source) ∧
      (status = 0 → ∃ settings, load o.config (h.readFile o.config s).1 = .ok settings ∧
        (v.content s' source = v.content s source ↔
          v.leads s' (settings.outputPath file) ≠ some source)) ∧
      ∀ settings : Config,
        (settings.outputPath file = file → Path.extension file = utf8 ".wat") ∧
        (settings.dir = [] → Path.extension file = utf8 ".wat" →
          settings.outputPath file = file) := by
  have reaches := line.reaches
  have turns : (build load h o file).Turns s _ := build_turns laws reaches line.apart
  obtain ⟨outcome, s₁, ends, fate⟩ := turns
  obtain ⟨status, s', hfinish, hstatus, same⟩ := finish_fate laws line.apart ends
  refine ⟨status, s', line.commandLine_eq.trans hfinish, ?_⟩
  cases hsettings : load o.config (h.readFile o.config s).1 with
  | error p =>
    rw [hsettings] at fate
    obtain ⟨failed, keeps⟩ := fate
    obtain ⟨reaches₁, hcontent₁⟩ := keeps file reaches
    obtain ⟨reaches', hcontent'⟩ := same.keeps file reaches₁
    refine ⟨reaches', fun lost => absurd (hcontent'.trans hcontent₁) lost, fun succeeds => ?_,
      fun _ => ⟨Config.extension_of_outputPath_eq_self, Config.outputPath_eq_self⟩⟩
    exact absurd (hstatus.mp succeeds) (by simp [failed])
  | ok settings =>
    rw [hsettings] at fate
    have houtput : (jobOf o settings file).output = settings.outputPath file := by
      simp [jobOf, line.unnamed]
    dsimp only at fate
    rw [houtput] at fate
    obtain ⟨leads, spared, replaced⟩ := fate.before reaches same
    refine ⟨leads file reaches, fun lost => ?_, fun succeeds => ?_,
      fun _ => ⟨Config.extension_of_outputPath_eq_self, Config.outputPath_eq_self⟩⟩
    · obtain ⟨compiled, here⟩ := spared.resolve_left lost
      exact ⟨settings, rfl, compiled, here⟩
    · exact ⟨settings, rfl, replaced (hstatus.mp succeeds)⟩

end CommandLine

/-! ## A source that is lost -/

/-- A machine with a program under the name of a module. -/
def selfWorld : World where
  files := FileSystem.empty.put (FileSystem.workPlace ++ [utf8 "a.wat"])
    (.file Compiler.emptyProgram.format)
  scratch := utf8 "/tmp/scratch"

theorem compileSource_emptyProgram :
    ∃ r, Compiler.compileSource false Compiler.emptyProgram.format = .ok r := by
  have formed : Compiler.emptyProgram.WellFormed none := by decide +kernel
  obtain ⟨t, hread, hbare⟩ := formed.read_format
  have same : t.unplaced = Compiler.emptyProgram :=
    (Node.unplaced_of_unannotated (Node.wellFormed_of_read hread).2).trans hbare
  have ends : (Compiler.compile false Compiler.emptyProgram).isOk = true := by decide +kernel
  rw [← same, Compiler.compile_unplaced] at ends
  cases hcompile : Compiler.compile false t with
  | error f =>
    rw [hcompile] at ends
    cases ends
  | ok r => exact ⟨r, Compiler.compileSource_ok_iff.mpr ⟨t, hread, hcompile⟩⟩

/-- The module of that program is written over the program. -/
theorem selfWorld_lost :
    World.view.Laws (World.hostWith noPrograms) ∧
      BuildsUnnamed World.view selfWorld [utf8 "build", utf8 "a.wat"] {} (utf8 "a.wat")
        (FileSystem.workPlace ++ [utf8 "a.wat"]) ∧
      ∃ w', commandLineWith settingsFrom (World.hostWith noPrograms)
          [utf8 "build", utf8 "a.wat"] selfWorld = (.exit 0, w') ∧
        World.view.content w' (FileSystem.workPlace ++ [utf8 "a.wat"]) ≠
          Compiler.emptyProgram.format := by
  have laws := World.view_laws noPrograms
  have line : BuildsUnnamed World.view selfWorld [utf8 "build", utf8 "a.wat"] {} (utf8 "a.wat")
      (FileSystem.workPlace ++ [utf8 "a.wat"]) := by
    refine ⟨⟨[utf8 "a.wat"], rfl, rfl⟩, rfl, ?_, nofun⟩
    exact World.leads_eq_some_iff.mpr ⟨rfl, by decide, rfl⟩
  have quiet : CompilesQuietly settingsFrom selfWorld [utf8 "build", utf8 "a.wat"] .build {}
      (utf8 "a.wat") Config.default Compiler.emptyProgram.format :=
    ⟨.inl rfl, ⟨_, [utf8 "a.wat"], rfl, rfl, rfl⟩, rfl, rfl, rfl⟩
  obtain ⟨r, compiled⟩ := compileSource_emptyProgram
  obtain ⟨status, w', (ends : commandLineWith settingsFrom (World.hostWith noPrograms) _ _ = _),
    hstatus, -⟩ := commandLine_succeeds quiet compiled
  obtain rfl : status = 0 := hstatus.mpr fun _ => ⟨_, rfl⟩
  obtain ⟨status, w'', (ends' : commandLineWith settingsFrom (World.hostWith noPrograms) _ _ = _),
    reaches, -, kept, -⟩ := build_keeps_source_iff laws line
  obtain ⟨⟨⟩, rfl⟩ := Prod.mk.inj (ends.symm.trans ends')
  obtain ⟨settings, configured, hkept⟩ := kept rfl
  obtain rfl : Config.default = settings := Except.ok.inj configured
  exact ⟨laws, line, w', ends, fun same => hkept.mp same reaches⟩

end Cli

end TreeWat
