import TreeWat.Host
import TreeWat.Proofs.Files
set_option autoImplicit false

/-!
# Host: what operations do to files

On a machine several paths can lead to one file: there are links, and many ways to write a path.
A `FileView` tells the files of a machine apart, and says which of them a path leads to and what
is in them.  It is not known which paths lead to the same file.

`FileView.Laws` are the rules of POSIX on which results about files rest, for the operations that
read, write, print and make directories, while no other program touches the files.  They leave
open which operations succeed, and what is in a file after a write to it that has failed: it may
have been emptied, or written in part.

The model keeps these laws (`World.view_laws`), with a place for every file.
-/

namespace TreeWat

/-- What can be seen of the regular files of a machine. -/
structure FileView (σ : Type) where
  /-- The files themselves, whatever paths lead to them. -/
  File : Type
  /-- The file that a path leads to, if it leads to one; links are followed. -/
  leads : σ → Bytes → Option File
  /-- The bytes in a file. -/
  content : σ → File → Bytes
  /-- The file that a stream of the program goes to, if it goes to one. -/
  outlet : Stream → Option File

namespace FileView

variable {σ : Type} {v : FileView σ} {f : v.File} {s s₁ s' : σ}

/-- Every path that led to the file does so still, and the file has the bytes that it had. -/
def Keeps (v : FileView σ) (f : v.File) (s s' : σ) : Prop :=
  ∀ path, v.leads s path = some f → v.leads s' path = some f ∧ v.content s' f = v.content s f

theorem Keeps.refl (f : v.File) (s : σ) : v.Keeps f s s :=
  fun _ leads => ⟨leads, rfl⟩

theorem Keeps.trans (first : v.Keeps f s s₁) (second : v.Keeps f s₁ s') : v.Keeps f s s' := by
  intro path leads
  obtain ⟨leads₁, same₁⟩ := first path leads
  obtain ⟨leads₂, same₂⟩ := second path leads₁
  exact ⟨leads₂, same₂.trans same₁⟩

/-- What operations do to the files that are seen. -/
structure Laws (v : FileView σ) (h : Host (StateM σ)) : Prop where
  /-- Reading a file gives the bytes in it, unless it fails. -/
  reads : ∀ {s path f bytes}, v.leads s path = some f → (h.readFile path s).1 = .ok bytes →
    bytes = v.content s f
  /-- Reading leads no path elsewhere. -/
  readFile_leads : ∀ path s, v.leads (h.readFile path s).2 = v.leads s
  /-- Reading changes no file. -/
  readFile_keeps : ∀ path f s, v.Keeps f s (h.readFile path s).2
  /-- Printing leads no path elsewhere. -/
  print_leads : ∀ stream text s, v.leads (h.print stream text s).2 = v.leads s
  /-- Printing changes no file but the one that the stream goes to. -/
  print_keeps : ∀ {stream f}, v.outlet stream ≠ some f → ∀ text s,
    v.Keeps f s (h.print stream text s).2
  /-- Making directories changes no file, and takes none from its paths. -/
  makeDirs_keeps : ∀ path f s, v.Keeps f s (h.makeDirs path s).2
  /-- Writing takes no file from its paths, whether or not it succeeds. -/
  writeFile_leads : ∀ {s path f}, v.leads s path = some f → ∀ target text,
    v.leads (h.writeFile target text s).2 path = some f
  /-- Writing changes no file but the one that its path then leads to, whether or not it
  succeeds. -/
  writeFile_keeps : ∀ {s target text f}, v.leads (h.writeFile target text s).2 target ≠ some f →
    v.Keeps f s (h.writeFile target text s).2
  /-- A write that succeeds leaves its text in the file. -/
  writes : ∀ {s target text f}, (h.writeFile target text s).1 = .ok () →
    v.leads (h.writeFile target text s).2 target = some f →
    v.content (h.writeFile target text s).2 f = text

end FileView

/-! ## The files of the model -/

/-- The bytes that are read of an entry. -/
def Entry.bytes? : Entry → Option Bytes
  | .file content => some content
  | .program _ => some FileSystem.programMark
  | .directory => none

namespace World

open FileSystem (nullPlace)

variable {w : World} {path : Bytes} {p : Place}

/-- What is read at a place. -/
def bytesAt? (w : World) (p : Place) : Option Bytes :=
  (w.files.at? p).bind Entry.bytes?

/-- The place of the file that a path leads to; nothing stays in the null device. -/
def fileAt? (w : World) (path : Bytes) : Option Place :=
  match w.files.locate path with
  | .ok p => if p ≠ nullPlace ∧ (w.bytesAt? p).isSome then some p else none
  | .error _ => none

/-- The files of the model, as their places.  Printing goes to no file. -/
def view : FileView World where
  File := Place
  leads := fileAt?
  content w p := (w.bytesAt? p).getD []
  outlet _ := none

theorem leads_eq_some_iff :
    view.leads w path = some p ↔
      w.files.locate path = .ok p ∧ p ≠ nullPlace ∧ (w.bytesAt? p).isSome = true := by
  change w.fileAt? path = some p ↔ _
  unfold fileAt?
  cases w.files.locate path with
  | error cause => simp
  | ok q =>
    simp only [Option.ite_none_right_eq_some, Option.some.injEq, Except.ok.injEq]
    constructor
    · rintro ⟨other, rfl⟩
      exact ⟨rfl, other⟩
    · rintro ⟨rfl, other⟩
      exact ⟨other, rfl⟩

theorem bytesAt?_of_readFile (leads : w.files.locate path = .ok p) {bytes : Bytes}
    (reads : w.files.readFile path = .ok bytes) : w.bytesAt? p = some bytes := by
  simp only [FileSystem.readFile, FileSystem.stat, leads] at reads
  unfold bytesAt?
  cases hentry : w.files.at? p with
  | none => simp [hentry] at reads
  | some e =>
    rw [hentry] at reads
    cases e <;> cases reads <;> rfl

theorem located_of_leads (leads : view.leads w path = some p) :
    w.files.locate path = .ok p ∧ w.files.at? p ≠ none := by
  obtain ⟨located, -, held⟩ := leads_eq_some_iff.mp leads
  refine ⟨located, fun nothing => ?_⟩
  simp [bytesAt?, nothing] at held

/-- A file that is not where something was put stays as it is. -/
theorem keeps_of_files {w' : World} {except : Option Place}
    (keeps : FileSystem.Keeps except w.files w'.files) (other : except ≠ some p) :
    view.Keeps p w w' := by
  intro path leads
  obtain ⟨-, noNull, held⟩ := leads_eq_some_iff.mp leads
  obtain ⟨located, taken⟩ := located_of_leads leads
  obtain ⟨located', same⟩ := keeps path p located taken
  have hbytes : w'.bytesAt? p = w.bytesAt? p := congrArg (·.bind Entry.bytes?) (same other)
  refine ⟨leads_eq_some_iff.mpr ⟨located', noNull, hbytes ▸ held⟩, ?_⟩
  exact congrArg (Option.getD · []) hbytes

/-- A write goes to the null device, or its text is in the file of its path and every other file
is as it was. -/
theorem writes_of_writeFile {target text : Bytes} {fs : FileSystem}
    (written : w.files.writeFile target text = .ok fs) :
    ({ w with files := fs } = w ∧ view.leads w target = none) ∨
      ∃ q, view.leads { w with files := fs } target = some q ∧
        view.content { w with files := fs } q = text ∧
        (∀ path, view.leads w path = some q → view.leads { w with files := fs } path = some q) ∧
        ∀ p ≠ q, view.Keeps p w { w with files := fs } := by
  obtain ⟨q, leads, keeps, holds, forgets⟩ := FileSystem.keeps_writeFile written
  by_cases null : q = nullPlace
  · obtain rfl := forgets null
    refine .inl ⟨rfl, ?_⟩
    change w.fileAt? target = none
    rw [fileAt?, leads]
    exact if_neg fun other => other.1 null
  · have hbytes : ({ w with files := fs } : World).bytesAt? q = some text :=
      congrArg (Option.bind · Entry.bytes?) (holds null)
    have held : (({ w with files := fs } : World).bytesAt? q).isSome = true := by rw [hbytes]; rfl
    refine .inr ⟨q, leads_eq_some_iff.mpr ⟨leads, null, held⟩,
      congrArg (Option.getD · []) hbytes, fun path hpath => ?_,
      fun p other => keeps_of_files keeps fun h => other (Option.some.inj h).symm⟩
    obtain ⟨located, taken⟩ := located_of_leads hpath
    exact leads_eq_some_iff.mpr ⟨(keeps path q located taken).1, null, held⟩

/-- The model keeps the laws of files. -/
theorem view_laws (execute : Runner (StateM World)) : view.Laws (World.hostWith execute) where
  reads leads hread := by
    obtain ⟨located, -⟩ := leads_eq_some_iff.mp leads
    exact (congrArg (Option.getD · []) (bytesAt?_of_readFile located hread)).symm
  readFile_leads _ _ := rfl
  readFile_keeps _ f w := .refl f w
  print_leads stream _ _ := by
    cases stream <;> rfl
  print_keeps {stream f} _ text w := by
    cases stream <;> exact .refl f w
  makeDirs_keeps path p w := by
    have hmade : ((World.hostWith execute).makeDirs path w).2 =
        (w.update (w.files.makeDirs (path.length + 1) path)).2 := rfl
    rw [hmade]
    cases made : w.files.makeDirs (path.length + 1) path with
    | error e => exact .refl p w
    | ok fs => exact keeps_of_files (FileSystem.keeps_makeDirs made) (Option.some_ne_none p).symm
  writeFile_leads {w path p} leads target text := by
    change view.leads (w.update (w.files.writeFile target text)).2 path = some p
    cases written : w.files.writeFile target text with
    | error e => exact leads
    | ok fs =>
      obtain ⟨same, -⟩ | ⟨q, -, -, stays, keeps⟩ := writes_of_writeFile written
      · exact same.symm ▸ leads
      · by_cases other : p = q
        · exact other ▸ stays path (other ▸ leads)
        · exact (keeps p other path leads).1
  writeFile_keeps {w target text p} elsewhere := by
    change view.leads (w.update (w.files.writeFile target text)).2 target ≠ some p at elsewhere
    change view.Keeps p w (w.update (w.files.writeFile target text)).2
    cases written : w.files.writeFile target text with
    | error e => exact .refl p w
    | ok fs =>
      rw [written] at elsewhere
      obtain ⟨same, -⟩ | ⟨q, leads, -, -, keeps⟩ := writes_of_writeFile written
      · exact same.symm ▸ .refl p w
      · exact keeps p fun h => elsewhere (h ▸ leads)
  writes {w target text p} succeeds leads := by
    change (w.update (w.files.writeFile target text)).1 = .ok () at succeeds
    change view.leads (w.update (w.files.writeFile target text)).2 target = some p at leads
    change view.content (w.update (w.files.writeFile target text)).2 p = text
    cases written : w.files.writeFile target text with
    | error e =>
      rw [written] at succeeds
      cases succeeds
    | ok fs =>
      rw [written] at leads
      obtain ⟨same, nowhere⟩ | ⟨q, leads', holds, -, -⟩ := writes_of_writeFile written
      · have leads' : view.leads w target = some p := same ▸ leads
        exact absurd (nowhere.symm.trans leads') (Option.some_ne_none p).symm
      · obtain rfl : q = p := Option.some.inj (leads'.symm.trans leads)
        exact holds

end World

end TreeWat
