import TreeWat.Proofs.Path
set_option autoImplicit false

/-!
# Files: what has been written can be read

A path leads through directories, and a file is never put in the place of one.  So the path
under which a file has just been written still leads to the same place, and the content is
found there.  The one file that forgets is the null device.  A directory is only made where
there is nothing, so that making directories leaves every file where it is (`Keeps`).

All of this is about the model, where a file has one place and a write fails before it has
changed anything.  What holds of machines with links, and with writes that fail halfway, is in
`FileView.Laws`.

Main statements: `FileSystem.readFile_of_writeFile`, `FileSystem.keeps_makeDirs`.
-/

namespace TreeWat.FileSystem

variable {fs fs' : FileSystem} {p q r : Place} {e : Entry} {path content : Bytes}

/-- The root is a directory. -/
theorem ne_root_of_at? (noDirectory : fs.at? p ≠ some .directory) : p ≠ [] := by
  rintro rfl
  exact noDirectory rfl

theorem at?_put_self (nonRoot : p ≠ []) : (fs.put p e).at? p = some e := by
  simp [at?, put, nonRoot]

theorem at?_put_of_ne (other : q ≠ p) : (fs.put p e).at? q = fs.at? q := by
  unfold at?
  split
  · rfl
  · have hentries : (fs.put p e).entries.find? (fun x => x.1 = q) =
        fs.entries.find? (fun x => x.1 = q) := by
      rw [put, List.find?_cons_of_neg (by simpa using Ne.symm other), List.find?_filter]
      congr 1
      funext x
      by_cases hx : x.1 = q
      · simp [hx, other]
      · simp [hx]
    rw [hentries]

/-- A walk goes through directories only, so it does not notice what is put elsewhere. -/
theorem walk_put {names : List Bytes} (noDirectory : fs.at? p ≠ some .directory)
    (leads : fs.walk q names = .ok r) : (fs.put p e).walk q names = .ok r := by
  induction names generalizing q with
  | nil => exact leads
  | cons name rest ih =>
    rw [walk] at leads ⊢
    split at leads
    · cases leads
    · cases leads
    · cases leads
    · rename_i hdirectory
      have hother : q ≠ p := by
        rintro rfl
        exact noDirectory hdirectory
      rw [at?_put_of_ne hother, hdirectory]
      dsimp only
      split at leads
      · cases leads
      · rename_i short
        rw [if_neg short]
        split at leads
        · exact (if_pos ‹_›).trans (ih leads)
        · rename_i noDot
          rw [if_neg noDot]
          split at leads
          · exact (if_pos ‹_›).trans (ih leads)
          · exact (if_neg ‹_›).trans (ih leads)

theorem locate_put (noDirectory : fs.at? p ≠ some .directory) (leads : fs.locate path = .ok r) :
    (fs.put p e).locate path = .ok r := by
  unfold locate at leads ⊢
  split at leads
  · cases leads
  · split at leads
    · cases leads
    · split at leads
      · cases leads
      · rw [if_neg ‹_›, if_neg ‹_›, if_neg ‹_›]
        exact walk_put noDirectory leads

/-- A file is written where its path leads, and not in the place of a directory. -/
theorem locate_of_locateForWriting (leads : fs.locateForWriting path = .ok p) :
    fs.locate path = .ok p ∧ fs.at? p ≠ some .directory := by
  unfold locateForWriting at leads
  split at leads
  · cases hwalk : fs.walk (fs.origin path) (Path.elements path) with
    | error cause =>
      rw [hwalk] at leads
      cases leads
    | ok q =>
      rw [hwalk] at leads
      cases leads
  · cases hlocate : fs.locate path with
    | error cause =>
      rw [hlocate] at leads
      cases leads
    | ok q =>
      rw [hlocate] at leads
      dsimp only [bind, Except.bind] at leads
      split at leads
      · cases leads
      · cases leads
        exact ⟨rfl, ‹_›⟩

theorem readFile_of_located (leads : fs.locate path = .ok p)
    (found : fs.at? p = some (.file content)) : fs.readFile path = .ok content := by
  simp [readFile, stat, leads, found]

/-! ## Files that stay -/

/-- Where a path led to something before, it leads to the same place afterwards, with the same
there unless the place is the one that is left out. -/
def Keeps (except : Option Place) (fs fs' : FileSystem) : Prop :=
  ∀ path p, fs.locate path = .ok p → fs.at? p ≠ none →
    fs'.locate path = .ok p ∧ (except ≠ some p → fs'.at? p = fs.at? p)

namespace Keeps

variable {except : Option Place} {fs₁ : FileSystem}

theorem refl (fs : FileSystem) : Keeps except fs fs :=
  fun _ _ leads _ => ⟨leads, fun _ => rfl⟩

/-- What is made stays if it was made in no place that was taken. -/
theorem trans (first : Keeps none fs fs₁) (second : Keeps except fs₁ fs') :
    Keeps except fs fs' := by
  intro path p leads found
  obtain ⟨leads₁, same₁⟩ := first path p leads found
  have hsame := same₁ (Option.some_ne_none p).symm
  obtain ⟨leads₂, same₂⟩ := second path p leads₁ (hsame ▸ found)
  exact ⟨leads₂, fun other => (same₂ other).trans hsame⟩

theorem put (noDirectory : fs.at? q ≠ some .directory) : Keeps (some q) fs (fs.put q e) := by
  intro path p leads _
  refine ⟨locate_put noDirectory leads, fun other => ?_⟩
  exact at?_put_of_ne fun h => other (congrArg some h.symm)

end Keeps

theorem keeps_makeDir (made : fs.makeDir path = .ok fs') : Keeps none fs fs' := by
  unfold makeDir at made
  split at made
  · cases made
  · rename_i q _
    split at made
    · rename_i nothing
      cases made
      intro path p leads found
      have hother : p ≠ q := by
        rintro rfl
        exact found nothing
      have noDirectory : fs.at? q ≠ some .directory := by simp [nothing]
      obtain ⟨leads', same⟩ := Keeps.put (e := .directory) noDirectory path p leads found
      exact ⟨leads', fun _ => same fun h => hother (Option.some.inj h).symm⟩
    · cases made
      exact .refl fs
    · cases made
    · cases made

/-- Making directories leaves everything where it is. -/
theorem keeps_makeDirs {fuel : Nat} (made : fs.makeDirs fuel path = .ok fs') :
    Keeps none fs fs' := by
  induction fuel generalizing path fs' with
  | zero =>
    rw [makeDirs] at made
    cases made
    exact .refl fs
  | succ fuel ih =>
    rw [makeDirs] at made
    split at made
    · cases made
      exact .refl fs
    · cases made
    · cases made
    · dsimp only at made
      split at made
      · exact keeps_makeDir made
      · cases habove : fs.makeDirs fuel
            (path.reverse.dropWhile (· ≠ byte '/')).reverse.dropLast with
        | error e =>
          rw [habove] at made
          cases made
        | ok fs₁ =>
          rw [habove] at made
          exact (ih habove).trans (keeps_makeDir made)

/-- Writing a file leaves everything else where it is, and the path leads to its content
unless that went to the null device. -/
theorem keeps_writeFile (written : fs.writeFile path content = .ok fs') :
    ∃ q, fs'.locate path = .ok q ∧ Keeps (some q) fs fs' ∧
      (q ≠ nullPlace → fs'.at? q = some (.file content)) ∧ (q = nullPlace → fs' = fs) := by
  unfold writeFile at written
  split at written
  · cases written
  · rename_i q hq
    obtain ⟨leads, noDirectory⟩ := locate_of_locateForWriting hq
    cases written
    by_cases null : q = nullPlace
    · rw [if_pos null]
      exact ⟨q, leads, .refl fs, fun noNull => absurd null noNull, fun _ => rfl⟩
    · rw [if_neg null]
      exact ⟨q, locate_put noDirectory leads, .put noDirectory,
        fun _ => at?_put_self (ne_root_of_at? noDirectory), fun h => absurd h null⟩

/-- What has been written is read back, unless it went to the null device. -/
theorem readFile_of_writeFile (written : fs.writeFile path content = .ok fs') :
    fs'.readFile path = .ok content ∨ fs'.locate path = .ok nullPlace := by
  obtain ⟨q, leads, -, holds, -⟩ := keeps_writeFile written
  by_cases null : q = nullPlace
  · exact .inr (null ▸ leads)
  · exact .inl (readFile_of_located leads (holds null))

/-! ## The last name of a place -/

theorem walk_append (names more : List Bytes) :
    fs.walk p (names ++ more) = (fs.walk p names).bind fun q => fs.walk q more := by
  induction names generalizing p with
  | nil => rfl
  | cons name names ih =>
    rw [List.cons_append, walk, walk]
    split
    · rfl
    · rfl
    · rfl
    · split
      · rfl
      · split
        · exact ih
        · split
          · exact ih
          · exact ih

theorem exists_of_walk_append {names more : List Bytes}
    (leads : fs.walk p (names ++ more) = .ok r) :
    ∃ q, fs.walk p names = .ok q ∧ fs.walk q more = .ok r := by
  rw [walk_append] at leads
  cases hfirst : fs.walk p names with
  | error cause =>
    rw [hfirst] at leads
    cases leads
  | ok q =>
    rw [hfirst] at leads
    exact ⟨q, rfl, leads⟩

/-- A single name leads from a directory, and one that is no dots to itself. -/
theorem walk_single {name : Bytes} (leads : fs.walk p [name] = .ok q) :
    fs.at? p = some .directory ∧
      q = if name = utf8 "." then p else if name = utf8 ".." then p.dropLast else p ++ [name] := by
  rw [walk] at leads
  split at leads
  · cases leads
  · cases leads
  · cases leads
  · rename_i hdirectory
    refine ⟨hdirectory, ?_⟩
    split at leads
    · cases leads
    · split at leads
      · rename_i dot
        cases leads
        rw [if_pos dot]
      · rename_i noDot
        rw [if_neg noDot]
        split at leads
        · rename_i dots
          cases leads
          rw [if_pos dots]
        · rename_i noDots
          cases leads
          rw [if_neg noDots]

section Named

open TreeWat.Path (Opens above lastName)

variable {front name : Bytes}

theorem slash_eq : utf8 "/" = [byte '/'] :=
  rfl

theorem walk_names (leads : fs.locate path = .ok p) :
    fs.walk (fs.origin path) (names path) = .ok p := by
  unfold locate at leads
  split at leads
  · cases leads
  · split at leads
    · cases leads
    · split at leads
      · cases leads
      · exact leads

theorem names_append (opens : Opens front) (whole : byte '/' ∉ name) (some : name ≠ []) :
    names (front ++ name) = Path.elements front ++ [name] := by
  have noSlash : Bytes.endsWith (front ++ name) (utf8 "/") = false := by
    obtain ⟨first, b, rfl⟩ := (List.eq_nil_or_concat' name).resolve_left some
    have hb : byte '/' ≠ b := fun h => whole (by simp [h])
    rw [Bytes.endsWith, slash_eq, ← List.append_assoc, List.reverse_concat]
    simp [List.isPrefixOf, hb]
  rw [names, noSlash, opens.elements_append, Path.elements_single whole some]
  exact List.append_nil _

theorem origin_append (whole : byte '/' ∉ name) : fs.origin (front ++ name) = fs.origin front := by
  have same : Path.isAbsolute (front ++ name) = Path.isAbsolute front := by
    cases front with
    | cons b front => rfl
    | nil =>
      cases name with
      | nil => rfl
      | cons b rest =>
        have hb : b ≠ byte '/' := fun h => whole (by simp [h])
        simpa [Path.isAbsolute] using hb
  rw [origin, same, origin]

/-- A path with a name at its end leads to where that name leads from what is above. -/
theorem locate_append (opens : Opens front) (whole : byte '/' ∉ name) (some : name ≠ [])
    (leads : fs.locate (front ++ name) = .ok p) :
    ∃ q, fs.walk (fs.origin front) (Path.elements front) = .ok q ∧
      fs.walk q [name] = .ok p := by
  have hwalk := walk_names leads
  rw [names_append opens whole some, origin_append whole] at hwalk
  exact exists_of_walk_append hwalk

/-- A path without a name at its end leads to what is above. -/
theorem locate_opens (opens : Opens front) (leads : fs.locate front = .ok p) :
    fs.walk (fs.origin front) (Path.elements front) = .ok p := by
  have hwalk := walk_names leads
  obtain rfl | ⟨front, rfl⟩ := opens
  · cases leads
  · have hnames : names (front ++ [byte '/']) =
        Path.elements (front ++ [byte '/']) ++ [utf8 "."] := by
      simp [names, Bytes.endsWith, slash_eq]
    rw [hnames] at hwalk
    obtain ⟨q, above, dot⟩ := exists_of_walk_append hwalk
    obtain ⟨-, rfl⟩ := walk_single dot
    exact above

end Named

end TreeWat.FileSystem
