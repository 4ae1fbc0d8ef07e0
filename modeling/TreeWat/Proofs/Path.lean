import Mathlib.Data.List.TakeWhile
import TreeWat.Config.Basic
import TreeWat.Files
import TreeWat.Proofs.Text.Rows
set_option autoImplicit false

/-!
# Path: the last name of a path

A path is what leads up to its last slash and the name behind it, and the name is a stem and
an extension.  The module of an input file has the stem of the input for its name, with `.wat`
behind it, wherever the module goes.

Main statement: `Config.outputPath_eq`.
-/

namespace TreeWat

namespace Path

/-! ## Elements -/

theorem elements_append (p q : Bytes) :
    elements (p ++ byte '/' :: q) = elements p ++ elements q := by
  rw [elements, Bytes.split_append, List.filter_append]
  rfl

theorem elements_single {name : Bytes} (whole : byte '/' ∉ name) (some : name ≠ []) :
    elements name = [name] := by
  have notEmpty : (!name.isEmpty) = true := by simpa using some
  rw [elements, Bytes.split_single whole, List.filter_cons_of_pos (by simpa using notEmpty)]
  rfl

/-- A name may follow the path: it is empty or ends in a slash. -/
def Opens (p : Bytes) : Prop :=
  p = [] ∨ ∃ q, p = q ++ [byte '/']

theorem Opens.elements_append {p : Bytes} (h : Opens p) (q : Bytes) :
    elements (p ++ q) = elements p ++ elements q := by
  obtain rfl | ⟨p, rfl⟩ := h
  · rfl
  · have hslash : elements (p ++ [byte '/']) = elements p := by
      rw [Path.elements_append]
      exact List.append_nil _
    rw [hslash, List.append_assoc, List.singleton_append, Path.elements_append]

/-! ## The last name -/

/-- The bytes behind the last slash. -/
def lastName (p : Bytes) : Bytes :=
  (p.reverse.takeWhile (· ≠ byte '/')).reverse

/-- The bytes up to the last slash. -/
def above (p : Bytes) : Bytes :=
  (p.reverse.dropWhile (· ≠ byte '/')).reverse

theorem above_append_lastName (p : Bytes) : above p ++ lastName p = p := by
  rw [above, lastName, ← List.reverse_append, List.takeWhile_append_dropWhile, List.reverse_reverse]

theorem slash_not_mem_lastName (p : Bytes) : byte '/' ∉ lastName p := by
  intro h
  simpa using List.mem_takeWhile_imp (List.mem_reverse.mp h)

theorem opens_above (p : Bytes) : Opens (above p) := by
  unfold above
  cases hdrop : p.reverse.dropWhile (· ≠ byte '/') with
  | nil => exact .inl rfl
  | cons b r =>
    have hb := List.head?_dropWhile_not (· ≠ byte '/') p.reverse
    rw [hdrop] at hb
    obtain rfl : b = byte '/' := by simpa using hb
    exact .inr ⟨r.reverse, by simp⟩

/-- A name that follows a path is its last name. -/
theorem lastName_append {front name : Bytes} (opens : Opens front) (whole : byte '/' ∉ name) :
    lastName (front ++ name) = name := by
  have inside : ∀ b ∈ name.reverse, decide (b ≠ byte '/') = true := by
    intro b hb
    have other : b ≠ byte '/' := fun h => whole (h ▸ List.mem_reverse.mp hb)
    exact decide_eq_true other
  rw [lastName, List.reverse_append, List.takeWhile_append_of_pos inside]
  obtain rfl | ⟨q, rfl⟩ := opens
  · simp
  · simp

/-- The last name without its extension. -/
def stem (p : Bytes) : Bytes :=
  (lastName p).take ((lastName p).length - (extension p).length)

/-- The extension ends the last name. -/
theorem extension_suffix (p : Bytes) : extension p <:+ lastName p := by
  unfold extension
  dsimp only
  split
  · exact List.nil_suffix
  · exact List.drop_suffix _ _

theorem stem_append_extension (p : Bytes) : stem p ++ extension p = lastName p :=
  List.suffix_iff_eq_append.mp (extension_suffix p)

theorem withoutExtension_eq (p : Bytes) : withoutExtension p = above p ++ stem p := by
  have hp : above p ++ stem p ++ extension p = p := by
    rw [List.append_assoc, stem_append_extension, above_append_lastName]
  have hlength := congrArg List.length hp
  rw [List.length_append] at hlength
  rw [withoutExtension, ← hlength, Nat.add_sub_cancel]
  exact (congrArg (List.take _) hp.symm).trans List.take_left

/-! ## Shortest paths -/

/-- Dots that mean a directory. -/
def IsDots (name : Bytes) : Prop :=
  name = utf8 "." ∨ name = utf8 ".."

/-- A name at the end stays at the end. -/
theorem resolve_concat {name : Bytes} (plain : ¬ IsDots name) (rooted : Bool)
    (done es : List Bytes) :
    ∃ before, resolve rooted done (es ++ [name]) = before ++ [name] := by
  obtain ⟨noDot, noDots⟩ := not_or.mp plain
  induction es generalizing done with
  | nil => exact ⟨done.reverse, by simp [resolve, noDot, noDots]⟩
  | cons e es ih =>
    rw [List.cons_append, resolve.eq_def]
    dsimp only
    split
    · exact ih done
    · split
      · split
        · split
          · exact ih _
          · exact ih _
        · split
          · exact ih []
          · exact ih [e]
      · exact ih _

theorem join_concat (sep : Bytes) (pieces : List Bytes) (s : Bytes) :
    Bytes.join sep (pieces ++ [s]) = (pieces.flatMap (· ++ sep)) ++ s := by
  induction pieces with
  | nil => rfl
  | cons p pieces ih =>
    rw [List.flatMap_cons, List.append_assoc, ← ih]
    cases pieces with
    | nil => rfl
    | cons q pieces => rfl

theorem opens_flatMap (pieces : List Bytes) : Opens (pieces.flatMap (· ++ utf8 "/")) := by
  rcases List.eq_nil_or_concat pieces with rfl | ⟨pieces, p, rfl⟩
  · exact .inl rfl
  · refine .inr ⟨pieces.flatMap (· ++ utf8 "/") ++ p, ?_⟩
    rw [List.concat_eq_append, List.flatMap_append, List.flatMap_singleton, List.append_assoc]
    rfl

/-- Two paths one below the other lead to the last name of the second. -/
theorem exists_join_eq {dir name : Bytes} (some : dir ≠ []) (whole : byte '/' ∉ name)
    (notEmpty : name ≠ []) (plain : ¬ IsDots name) :
    ∃ front, Opens front ∧ join dir name = front ++ name := by
  have hjoin : join dir name = clean (dir ++ byte '/' :: name) := by
    have hslash : dir ++ utf8 "/" ++ name = dir ++ byte '/' :: name := by
      rw [List.append_assoc]
      rfl
    simp [join, some, notEmpty, hslash]
  have hlast : elements (dir ++ byte '/' :: name) = elements dir ++ [name] := by
    rw [elements_append, elements_single whole notEmpty]
  obtain ⟨before, hresolve⟩ :=
    resolve_concat plain (isAbsolute (dir ++ byte '/' :: name)) [] (elements dir)
  have hparts : Bytes.join (utf8 "/") (resolve (isAbsolute (dir ++ byte '/' :: name)) []
      (elements (dir ++ byte '/' :: name))) = before.flatMap (· ++ utf8 "/") ++ name := by
    rw [hlast, hresolve, join_concat]
  have hempty : (before.flatMap (· ++ utf8 "/") ++ name).isEmpty = false := by
    simp [notEmpty]
  rw [hjoin, clean, hparts]
  split
  · refine ⟨utf8 "/" ++ before.flatMap (· ++ utf8 "/"), ?_, (List.append_assoc _ _ _).symm⟩
    obtain hfront | ⟨q, hfront⟩ := opens_flatMap before
    · rw [hfront]
      exact .inr ⟨[], rfl⟩
    · rw [hfront]
      exact .inr ⟨utf8 "/" ++ q, rfl⟩
  · rw [if_neg (by simp [hempty])]
    exact ⟨_, opens_flatMap before, rfl⟩

end Path

/-! ## Output paths -/

namespace Config

open TreeWat.Path (Opens above lastName stem)

/-- The name of the module of an input file. -/
def moduleName (input : Bytes) : Bytes :=
  stem input ++ utf8 ".wat"

theorem slash_not_mem_moduleName (input : Bytes) : byte '/' ∉ moduleName input := by
  intro h
  rcases List.mem_append.mp h with h | h
  · exact Path.slash_not_mem_lastName input (List.mem_of_mem_take h)
  · exact absurd h (by decide)

theorem moduleName_ne_nil (input : Bytes) : moduleName input ≠ [] := by
  intro h
  exact absurd (List.append_eq_nil_iff.mp h).2 (by decide)

theorem moduleName_plain (input : Bytes) : ¬ Path.IsDots (moduleName input) := by
  have hlength : 4 ≤ (moduleName input).length := by
    rw [moduleName, List.length_append]
    exact Nat.le_add_left 4 _
  rintro (h | h)
  · rw [h] at hlength
    exact absurd hlength (by decide)
  · rw [h] at hlength
    exact absurd hlength (by decide)

/-- The module of an input file has its name, next to the input if there is no output
directory. -/
theorem outputPath_eq (c : Config) (input : Bytes) :
    ∃ front, Opens front ∧ c.outputPath input = front ++ moduleName input ∧
      (c.dir = [] → front = above input) := by
  have hname : Path.withoutExtension input ++ utf8 ".wat" = above input ++ moduleName input := by
    rw [Path.withoutExtension_eq, List.append_assoc]
    rfl
  have hbase : Path.base (above input ++ moduleName input) = moduleName input := by
    rw [Path.base, (Path.opens_above input).elements_append,
      Path.elements_single (slash_not_mem_moduleName input) (moduleName_ne_nil input),
      List.getLast?_concat]
  rw [outputPath, hname]
  by_cases here : c.dir = []
  · rw [if_pos (List.isEmpty_iff.mpr here)]
    exact ⟨above input, Path.opens_above input, rfl, fun _ => rfl⟩
  · rw [if_neg (fun h => here (List.isEmpty_iff.mp h)), hbase]
    obtain ⟨front, opens, hjoin⟩ := Path.exists_join_eq here (slash_not_mem_moduleName input)
      (moduleName_ne_nil input) (moduleName_plain input)
    exact ⟨front, opens, hjoin, fun h => absurd h here⟩

/-- Only an input with the extension of modules has the name of its module. -/
theorem lastName_eq_moduleName_iff (input : Bytes) :
    lastName input = moduleName input ↔ Path.extension input = utf8 ".wat" := by
  rw [← Path.stem_append_extension input, moduleName]
  exact ⟨List.append_cancel_left, fun h => by rw [h]⟩

end Config

end TreeWat
