import Mathlib.Data.List.Forall2
import TreeWat.Suite
import TreeWat.Proofs.Tree
import TreeWat.Proofs.Datum.Trailing
set_option autoImplicit false

/-!
# Suites: which documents are accepted

A document is divided without any regard to what its fences are for: into the fences in front
of the first heading of a test, and one group of fences for each such heading.  The cases of a
suite are then compared with the groups.

The collector goes over the document once.  What one fence does to the open case is a step
(`Takes`), what the fences of a group do is a chain of steps (`Grows`), and the collector
completes a case where the next group begins (`ends_iff`).

Whether a case has a program is told by its text, not by a mark of its own.  So programs of no
text leave no trace, and any number of them may stand in front of the one that counts.  Main
statement: which documents are accepted and what their cases are (`collect_ok_iff_completes`).
-/

namespace TreeWat.Suite

/-! ## The groups of a document -/

/-- A fence as it stands in the document. -/
structure Fence where
  language : Bytes
  body : Bytes
  line : Nat
  deriving DecidableEq, Repr

/-- What the fence is for. -/
def Fence.role (f : Fence) : Role :=
  Role.ofLanguage f.language

/-- The body of the fence without the line breaks at its end. -/
def Fence.content (f : Fence) : Bytes :=
  Bytes.trimEnd (· == byte '\n') f.body

/-- Whether the fence says what is expected of a program. -/
def Fence.isAssertion (f : Fence) : Bool :=
  match f.role with
  | .assertion _ => true
  | _ => false

/-- The heading of a test, and the fences up to the next one. -/
structure Group where
  name : Bytes
  line : Nat
  fences : List Fence
  deriving DecidableEq, Repr

/-- The fences in front of the first heading of a test, and the groups. -/
def divide : List Markdown.Section → List Fence × List Group
  | [] => ([], [])
  | .fence language body line :: r =>
    (⟨language, body, line⟩ :: (divide r).1, (divide r).2)
  | .heading title line :: r =>
    match Bytes.after? headingStart title with
    | none => divide r
    | some name => ([], ⟨name, line, (divide r).1⟩ :: (divide r).2)

/-- The programs among the fences. -/
def inputs (fs : List Fence) : List Bytes :=
  (fs.filter (·.role = .input)).map Fence.content

/-- The assertion is the one that the fence makes. -/
inductive Asserts (f : Fence) : Assertion → Prop where
  | plain {e} (role : f.role = .assertion e) (isPlain : e ≠ .annotated) :
      Asserts f ⟨e, f.content, none⟩
  | annotated {d} (role : f.role = .assertion .annotated)
      (readable : Datum.read f.content = .ok d) :
      Asserts f ⟨.annotated, f.content, some d⟩

/-- The case has its program and an assertion. -/
structure Case.Complete (c : Case) : Prop where
  input : c.input ≠ []
  asserted : c.assertions ≠ []

/-- The case is what the collector makes of the group: its program is the only one that has a
text, and the last one. -/
structure Completes (g : Group) (c : Case) : Prop where
  name : c.name = g.name
  line : c.line = g.line
  input : ∃ k, inputs g.fences = List.replicate k [] ++ [c.input]
  assertions : List.Forall₂ Asserts (g.fences.filter Fence.isAssertion) c.assertions
  known : ∀ f ∈ g.fences, f.role = .unknown → f.language = []
  complete : c.Complete

/-- What the format asks of a group: one program, which has a text, at least one assertion, no
language that is not known, and annotated trees that can be read. -/
structure Group.WellFormed (g : Group) : Prop where
  input : ∃ body, inputs g.fences = [body] ∧ body ≠ []
  asserted : g.fences.filter Fence.isAssertion ≠ []
  known : ∀ f ∈ g.fences, f.role = .unknown → f.language = []
  readable : ∀ f ∈ g.fences, f.role = .assertion .annotated → ∃ d, Datum.read f.body = .ok d

/-! ## One fence -/

/-- What a fence does to the open case. -/
inductive Takes (c : Case) (f : Fence) : Case → Prop where
  | prose (role : f.role = .unknown) (noLanguage : f.language = []) : Takes c f c
  | input (role : f.role = .input) (noInput : c.input = []) :
      Takes c f { c with input := f.content }
  | assertion {a} (asserts : Asserts f a) :
      Takes c f { c with assertions := c.assertions ++ [a] }

/-- What the fences of a group do to the case, one after another. -/
inductive Grows : Case → List Fence → Case → Prop where
  | done {c} : Grows c [] c
  | step {c f c₁ fs c'} (first : Takes c f c₁) (others : Grows c₁ fs c') : Grows c (f :: fs) c'

section Step

variable {c c₁ : Case} {f : Fence}

theorem Asserts.role {a : Assertion} (asserts : Asserts f a) :
    f.role = .assertion a.expectation := by
  cases asserts with
  | plain role _ => exact role
  | annotated role _ => exact role

/-- A fence that asserts something asserts it once, an annotated tree if it can be read.  Whether
it can does not depend on the line breaks at its end. -/
theorem exists_asserts_iff {e : Expectation} (role : f.role = .assertion e) :
    (∃ a, Asserts f a) ↔ (e = .annotated → ∃ d, Datum.read f.body = .ok d) := by
  have hcontent : ∀ d, Datum.read f.content = .ok d ↔ Datum.read f.body = .ok d :=
    fun _ => Datum.read_trimEnd_ok_iff
  simp only [← hcontent]
  constructor
  · rintro ⟨a, asserts⟩ rfl
    cases asserts with
    | plain role' isPlain =>
      rw [role] at role'
      cases role'
      exact absurd rfl isPlain
    | annotated _ readable => exact ⟨_, readable⟩
  · intro readable
    by_cases annotated : e = .annotated
    · subst annotated
      obtain ⟨d, hread⟩ := readable rfl
      exact ⟨_, .annotated role hread⟩
    · exact ⟨_, .plain role annotated⟩

theorem readAssertion_ok_iff {e : Expectation} {line : Nat} {name : Bytes} {a : Assertion}
    (role : f.role = .assertion e) :
    readAssertion e f.content line name = .ok a ↔ Asserts f a := by
  constructor
  · intro h
    by_cases annotated : e = .annotated
    · subst annotated
      cases hread : Datum.read f.content with
      | error err => simp [readAssertion, hread] at h
      | ok d =>
        simp only [readAssertion, hread, Except.ok.injEq] at h
        exact h ▸ .annotated role hread
    · have hplain : readAssertion e f.content line name = .ok ⟨e, f.content, none⟩ := by
        cases e <;> first | rfl | exact absurd rfl annotated
      rw [hplain, Except.ok.injEq] at h
      exact h ▸ .plain role annotated
  · rintro (⟨role', isPlain⟩ | ⟨role', readable⟩)
    · obtain rfl := Role.assertion.inj (role.symm.trans role')
      cases e <;> first | rfl | exact absurd rfl isPlain
    · obtain rfl := Role.assertion.inj (role.symm.trans role')
      simp [readAssertion, readable]

theorem takes_of_unknown (role : f.role = .unknown) :
    Takes c f c₁ ↔ f.language = [] ∧ c₁ = c := by
  constructor
  · rintro (⟨-, noLanguage⟩ | ⟨role', -⟩ | asserts)
    · exact ⟨noLanguage, rfl⟩
    · exact absurd (role.symm.trans role') (by simp)
    · exact absurd (role.symm.trans asserts.role) (by simp)
  · rintro ⟨noLanguage, rfl⟩
    exact .prose role noLanguage

theorem takes_of_input (role : f.role = .input) :
    Takes c f c₁ ↔ c.input = [] ∧ c₁ = { c with input := f.content } := by
  constructor
  · rintro (⟨role', -⟩ | ⟨-, noInput⟩ | asserts)
    · exact absurd (role.symm.trans role') (by simp)
    · exact ⟨noInput, rfl⟩
    · exact absurd (role.symm.trans asserts.role) (by simp)
  · rintro ⟨noInput, rfl⟩
    exact .input role noInput

theorem takes_of_assertion {e : Expectation} (role : f.role = .assertion e) :
    Takes c f c₁ ↔ ∃ a, Asserts f a ∧ c₁ = { c with assertions := c.assertions ++ [a] } := by
  constructor
  · rintro (⟨role', -⟩ | ⟨role', -⟩ | asserts)
    · exact absurd (role.symm.trans role') (by simp)
    · exact absurd (role.symm.trans role') (by simp)
    · exact ⟨_, asserts, rfl⟩
  · rintro ⟨a, asserts, rfl⟩
    exact .assertion asserts

/-- The collector takes a fence as a step of the open case. -/
theorem fence_ok_iff {finished : List Case} {p : Progress} :
    Progress.fence ⟨finished, some c⟩ f.language f.body f.line = .ok p ↔
      ∃ c₁, Takes c f c₁ ∧ p = ⟨finished, some c₁⟩ := by
  have hrole : Role.ofLanguage f.language = f.role := rfl
  have hcontent : Bytes.trimEnd (· == byte '\n') f.body = f.content := rfl
  simp only [Progress.fence, hrole, hcontent]
  cases role : f.role with
  | input =>
    simp only [takes_of_input role]
    cases c.input <;> simp [eq_comm]
  | assertion e =>
    simp only [bind_ok_iff, readAssertion_ok_iff role, takes_of_assertion role]
    constructor
    · rintro ⟨a, asserts, ⟨⟩⟩
      exact ⟨_, ⟨a, asserts, rfl⟩, rfl⟩
    · rintro ⟨_, ⟨a, asserts, rfl⟩, rfl⟩
      exact ⟨a, asserts, rfl⟩
  | unknown =>
    simp only [takes_of_unknown role]
    cases f.language <;> simp [eq_comm]

end Step

/-! ## The fences of a group -/

section Group

variable {c c' : Case} {f : Fence} {fs : List Fence}

theorem grows_nil : Grows c [] c' ↔ c' = c := by
  constructor
  · rintro ⟨⟩
    rfl
  · rintro rfl
    exact .done

theorem grows_cons : Grows c (f :: fs) c' ↔ ∃ c₁, Takes c f c₁ ∧ Grows c₁ fs c' := by
  constructor
  · rintro (_ | ⟨first, others⟩)
    exact ⟨_, first, others⟩
  · rintro ⟨c₁, first, others⟩
    exact .step first others

/-- The program of a case, in front of some programs and behind them: a text is not replaced,
but the empty text is. -/
inductive Fills : Bytes → List Bytes → Bytes → Prop where
  | keep {b} : Fills b [] b
  | replace {b bs b'} (others : Fills b bs b') : Fills [] (b :: bs) b'

theorem fills_cons {b b₁ b' : Bytes} {bs : List Bytes} :
    Fills b (b₁ :: bs) b' ↔ b = [] ∧ Fills b₁ bs b' := by
  constructor
  · rintro (_ | others)
    exact ⟨rfl, others⟩
  · rintro ⟨rfl, others⟩
    exact .replace others

/-- A program with a text is the last one, and the others are empty. -/
theorem fills_empty_iff {bs : List Bytes} {b : Bytes} (some : b ≠ []) :
    Fills [] bs b ↔ ∃ k, bs = List.replicate k [] ++ [b] := by
  induction bs with
  | nil =>
    constructor
    · rintro ⟨⟩
      exact absurd rfl some
    · rintro ⟨k, hbs⟩
      simp at hbs
  | cons b₁ bs ih =>
    rw [fills_cons]
    constructor
    · rintro ⟨-, others⟩
      cases b₁ with
      | nil =>
        obtain ⟨k, rfl⟩ := ih.mp others
        exact ⟨k + 1, rfl⟩
      | cons x r =>
        cases others with
        | keep => exact ⟨0, rfl⟩
    · rintro ⟨k, hbs⟩
      cases k with
      | zero =>
        obtain ⟨rfl, rfl⟩ := List.cons.inj hbs
        exact ⟨rfl, .keep⟩
      | succ k =>
        obtain ⟨rfl, rfl⟩ := List.cons.inj hbs
        exact ⟨rfl, ih.mpr ⟨k, rfl⟩⟩

/-- What has become of the case behind the fences. -/
structure Gathers (c : Case) (fs : List Fence) (c' : Case) : Prop where
  name : c'.name = c.name
  line : c'.line = c.line
  input : Fills c.input (inputs fs) c'.input
  assertions : ∃ new, List.Forall₂ Asserts (fs.filter Fence.isAssertion) new ∧
    c'.assertions = c.assertions ++ new
  known : ∀ f ∈ fs, f.role = .unknown → f.language = []

theorem gathers_cons_unknown (role : f.role = .unknown) :
    Gathers c (f :: fs) c' ↔ f.language = [] ∧ Gathers c fs c' := by
  have hinputs : inputs (f :: fs) = inputs fs := by simp [inputs, role]
  have hfilter : (f :: fs).filter Fence.isAssertion = fs.filter Fence.isAssertion := by
    simp [Fence.isAssertion, role]
  constructor
  · rintro ⟨name, line, input, assertions, known⟩
    rw [hinputs] at input
    rw [hfilter] at assertions
    exact ⟨known f List.mem_cons_self role, name, line, input, assertions,
      (List.forall_mem_cons.mp known).2⟩
  · rintro ⟨noLanguage, name, line, input, assertions, known⟩
    exact ⟨name, line, hinputs ▸ input, hfilter ▸ assertions,
      List.forall_mem_cons.mpr ⟨fun _ => noLanguage, known⟩⟩

theorem gathers_cons_input (role : f.role = .input) :
    Gathers c (f :: fs) c' ↔ c.input = [] ∧ Gathers { c with input := f.content } fs c' := by
  have hinputs : inputs (f :: fs) = f.content :: inputs fs := by simp [inputs, role]
  have hfilter : (f :: fs).filter Fence.isAssertion = fs.filter Fence.isAssertion := by
    simp [Fence.isAssertion, role]
  constructor
  · rintro ⟨name, line, input, assertions, known⟩
    rw [hinputs, fills_cons] at input
    rw [hfilter] at assertions
    exact ⟨input.1, name, line, input.2, assertions, (List.forall_mem_cons.mp known).2⟩
  · rintro ⟨noInput, name, line, input, assertions, known⟩
    refine ⟨name, line, ?_, hfilter ▸ assertions, List.forall_mem_cons.mpr ⟨?_, known⟩⟩
    · rw [hinputs, fills_cons]
      exact ⟨noInput, input⟩
    · intro role'
      exact absurd (role.symm.trans role') (by simp)

theorem gathers_cons_assertion {e : Expectation} (role : f.role = .assertion e) :
    Gathers c (f :: fs) c' ↔
      ∃ a, Asserts f a ∧ Gathers { c with assertions := c.assertions ++ [a] } fs c' := by
  have hinputs : inputs (f :: fs) = inputs fs := by simp [inputs, role]
  have hfilter : (f :: fs).filter Fence.isAssertion = f :: fs.filter Fence.isAssertion := by
    simp [Fence.isAssertion, role]
  constructor
  · rintro ⟨name, line, input, ⟨new, asserts, assertions⟩, known⟩
    rw [hfilter] at asserts
    obtain ⟨a, others, first, hothers, rfl⟩ := List.forall₂_cons_left_iff.mp asserts
    exact ⟨a, first, name, line, hinputs ▸ input,
      ⟨others, hothers, by rw [assertions, List.append_assoc, List.singleton_append]⟩,
      (List.forall_mem_cons.mp known).2⟩
  · rintro ⟨a, first, name, line, input, ⟨others, hothers, assertions⟩, known⟩
    refine ⟨name, line, hinputs ▸ input, ⟨a :: others, ?_, ?_⟩,
      List.forall_mem_cons.mpr ⟨?_, known⟩⟩
    · rw [hfilter]
      exact .cons first hothers
    · rw [assertions, List.append_assoc, List.singleton_append]
    · intro role'
      exact absurd (role.symm.trans role') (by simp)

theorem grows_iff_gathers : Grows c fs c' ↔ Gathers c fs c' := by
  induction fs generalizing c with
  | nil =>
    rw [grows_nil]
    constructor
    · rintro rfl
      exact ⟨rfl, rfl, .keep, ⟨[], .nil, by simp⟩, by simp⟩
    · rintro ⟨name, line, input, ⟨new, asserts, assertions⟩, -⟩
      cases asserts
      rcases c with ⟨_, _, text, _⟩
      rcases c' with ⟨_, _, text', _⟩
      simp only [List.append_nil] at name line assertions
      cases (show Fills text [] text' from input)
      rw [name, line, assertions]
  | cons f fs ih =>
    rw [grows_cons]
    cases role : f.role with
    | unknown => simp [takes_of_unknown role, gathers_cons_unknown role, ih]
    | input => simp [takes_of_input role, gathers_cons_input role, ih]
    | assertion e =>
      simp only [takes_of_assertion role, gathers_cons_assertion role, ih]
      constructor
      · rintro ⟨_, ⟨a, asserts, rfl⟩, others⟩
        exact ⟨a, asserts, others⟩
      · rintro ⟨a, asserts, others⟩
        exact ⟨_, ⟨a, asserts, rfl⟩, others⟩

/-- A complete case that grew from a heading is what the group has. -/
theorem completes_iff {g : Group} :
    Completes g c ↔ Grows { name := g.name, line := g.line } g.fences c ∧ c.Complete := by
  rw [grows_iff_gathers]
  constructor
  · rintro ⟨name, line, input, assertions, known, complete⟩
    exact ⟨⟨name, line, (fills_empty_iff complete.input).mpr input, ⟨_, assertions, rfl⟩, known⟩,
      complete⟩
  · rintro ⟨⟨name, line, input, ⟨new, assertions, rfl⟩, known⟩, complete⟩
    exact ⟨name, line, (fills_empty_iff complete.input).mp input, assertions, known, complete⟩

end Group

/-! ## The whole document -/

section Run

variable {p : Progress} {done : List Case}

theorem mapError_ok_iff {ε ε' α : Type} {f : ε → ε'} {x : Except ε α} {a : α} :
    x.mapError f = .ok a ↔ x = .ok a := by
  cases x <;> simp [Except.mapError]

theorem flush_ok_iff {p' : Progress} :
    p.flush = .ok p' ↔
      (∀ c ∈ p.current, c.Complete) ∧ p' = ⟨p.current.toList ++ p.finished, none⟩ := by
  rcases p with ⟨finished, _ | c⟩
  · simp [Progress.flush, eq_comm]
  · simp only [Progress.flush, List.isEmpty_iff]
    constructor
    · intro h
      split at h
      · cases h
      · rename_i input
        split at h
        · cases h
        · rename_i asserted
          cases h
          exact ⟨by simpa using ⟨input, asserted⟩, rfl⟩
    · rintro ⟨complete, rfl⟩
      have hc := complete c rfl
      rw [if_neg hc.input, if_neg hc.asserted]
      rfl

/-- What a fence does to the open case; where there is none, it is prose. -/
def Moves : Option Case → Fence → Option Case → Prop
  | none, f, current => f.language = [] ∧ current = none
  | some c, f, current => ∃ c₁, Takes c f c₁ ∧ current = some c₁

/-- What the rest of a document makes of the open case and of its own groups. -/
def Yields : Option Case → List Fence × List Group → List Case → Prop
  | none, (fences, groups), cases =>
    (∀ f ∈ fences, f.language = []) ∧ List.Forall₂ Completes groups cases
  | some c, (fences, groups), cases =>
    ∃ c' others, Grows c fences c' ∧ c'.Complete ∧ List.Forall₂ Completes groups others ∧
      cases = c' :: others

/-- The collector gets to the end of the document with these cases, the last one in front. -/
def Ends (p : Progress) (sections : List Markdown.Section) (done : List Case) : Prop :=
  ∃ p', p.take sections = .ok p' ∧ p'.flush = .ok ⟨done, none⟩

/-- The cases of groups are what their headings open. -/
theorem forall₂_completes_cons {g : Group} {groups : List Group} {cases : List Case} :
    List.Forall₂ Completes (g :: groups) cases ↔
      Yields (some { name := g.name, line := g.line }) (g.fences, groups) cases := by
  rw [List.forall₂_cons_left_iff]
  simp only [Yields, completes_iff]
  constructor
  · rintro ⟨c, others, ⟨grows, complete⟩, hothers, rfl⟩
    exact ⟨c, others, grows, complete, hothers, rfl⟩
  · rintro ⟨c, others, grows, complete, hothers, rfl⟩
    exact ⟨c, others, ⟨grows, complete⟩, hothers, rfl⟩

/-- The heading of a group completes the open case. -/
theorem yields_heading {current : Option Case} {g : Group} {groups : List Group}
    {cases : List Case} :
    Yields current ([], g :: groups) cases ↔
      (∀ c ∈ current, c.Complete) ∧ ∃ others,
        Yields (some { name := g.name, line := g.line }) (g.fences, groups) others ∧
          cases = current.toList ++ others := by
  simp only [← forall₂_completes_cons]
  cases current with
  | none => simp [Yields]
  | some c => simp [Yields, grows_nil]

theorem yields_fence {current : Option Case} {f : Fence} {fences : List Fence}
    {groups : List Group} {cases : List Case} :
    Yields current (f :: fences, groups) cases ↔
      ∃ current', Moves current f current' ∧ Yields current' (fences, groups) cases := by
  cases current with
  | none => simp [Yields, Moves, and_assoc]
  | some c =>
    simp only [Yields, Moves, grows_cons]
    constructor
    · rintro ⟨c', others, ⟨c₁, first, grows⟩, rest⟩
      exact ⟨_, ⟨c₁, first, rfl⟩, c', others, grows, rest⟩
    · rintro ⟨_, ⟨c₁, first, rfl⟩, c', others, grows, rest⟩
      exact ⟨c', others, ⟨c₁, first, grows⟩, rest⟩

theorem take_fence {finished : List Case} {current : Option Case} {f : Fence} {p' : Progress} :
    Progress.fence ⟨finished, current⟩ f.language f.body f.line = .ok p' ↔
      ∃ current', Moves current f current' ∧ p' = ⟨finished, current'⟩ := by
  cases current with
  | none =>
    simp only [Progress.fence, Moves, List.isEmpty_iff]
    by_cases noLanguage : f.language = []
    · simp [noLanguage, eq_comm]
    · by_cases unknown : Role.ofLanguage f.language = .unknown <;> simp [noLanguage, unknown]
  | some c =>
    simp only [fence_ok_iff, Moves]
    constructor
    · rintro ⟨c₁, takes, rfl⟩
      exact ⟨_, ⟨c₁, takes, rfl⟩, rfl⟩
    · rintro ⟨_, ⟨c₁, takes, rfl⟩, rfl⟩
      exact ⟨c₁, takes, rfl⟩

theorem heading_ok_iff {p' : Progress} {title name : Bytes} {line : Nat}
    (isTest : Bytes.after? headingStart title = some name) :
    p.heading title line = .ok p' ↔ (∀ c ∈ p.current, c.Complete) ∧
      p' = ⟨p.current.toList ++ p.finished, some { name, line }⟩ := by
  simp only [Progress.heading, isTest, bind_ok_iff, flush_ok_iff]
  constructor
  · rintro ⟨_, ⟨complete, rfl⟩, ⟨⟩⟩
    exact ⟨complete, rfl⟩
  · rintro ⟨complete, rfl⟩
    exact ⟨_, ⟨complete, rfl⟩, rfl⟩

/-- The collector goes on from where the first section takes it. -/
theorem ends_of_take {sections rest : List Markdown.Section} {first : Except Error Progress}
    (taken : p.take sections = first >>= (·.take rest)) :
    Ends p sections done ↔ ∃ p₁, first = .ok p₁ ∧ Ends p₁ rest done := by
  simp only [Ends, taken, bind_ok_iff]
  constructor
  · rintro ⟨p', ⟨p₁, first, others⟩, last⟩
    exact ⟨p₁, first, p', others, last⟩
  · rintro ⟨p₁, first, p', others, last⟩
    exact ⟨p', ⟨p₁, first, others⟩, last⟩

/-- What a whole document makes of a state of the collector.  The induction is on the sections:
a heading of a test completes the open case, and a fence is a step of it. -/
theorem ends_iff {sections : List Markdown.Section} :
    Ends p sections done ↔
      ∃ cases, Yields p.current (divide sections) cases ∧ done = cases.reverse ++ p.finished := by
  induction sections generalizing p with
  | nil =>
    rcases p with ⟨finished, _ | c⟩
    · simp [Ends, Progress.take, flush_ok_iff, divide, Yields]
    · simp [Ends, Progress.take, flush_ok_iff, divide, Yields, grows_nil]
  | cons first rest ih =>
    cases first with
    | heading title line =>
      rw [ends_of_take (show p.take _ = p.heading title line >>= _ from rfl)]
      cases isTest : Bytes.after? headingStart title with
      | none =>
        have hsame : p.heading title line = .ok p := by simp [Progress.heading, isTest]
        rw [hsame, divide, isTest]
        simp only [Except.ok.injEq, exists_eq_left', ih]
      | some name =>
        rw [divide, isTest]
        simp only [heading_ok_iff isTest, yields_heading]
        constructor
        · rintro ⟨_, ⟨complete, rfl⟩, ends⟩
          obtain ⟨others, yields, rfl⟩ := ih.mp ends
          exact ⟨_, ⟨complete, others, yields, rfl⟩, by cases p.current <;> simp⟩
        · rintro ⟨_, ⟨complete, others, yields, rfl⟩, rfl⟩
          exact ⟨_, ⟨complete, rfl⟩,
            ih.mpr ⟨others, yields, by cases p.current <;> simp⟩⟩
    | fence language body line =>
      rw [ends_of_take (show p.take _ = p.fence language body line >>= _ from rfl), divide]
      simp only [yields_fence]
      constructor
      · rintro ⟨p₁, taken, ends⟩
        obtain ⟨current, moves, rfl⟩ := (take_fence (f := ⟨language, body, line⟩)).mp taken
        obtain ⟨cases, yields, rfl⟩ := ih.mp ends
        exact ⟨cases, ⟨current, moves, yields⟩, rfl⟩
      · rintro ⟨cases, ⟨current, moves, yields⟩, rfl⟩
        exact ⟨_, (take_fence (f := ⟨language, body, line⟩)).mpr ⟨current, moves, rfl⟩,
          ih.mpr ⟨cases, yields, rfl⟩⟩

end Run

/-- Which documents are accepted, and what their cases are.

No fence with a language stands in front of the first heading of a test, and each group has its
case, in the same order: the case has the name and the line of the heading, the assertions of
all its assertion fences in order, at least one, and the only program that has a text, which
stands behind all those that have none. -/
theorem collect_ok_iff_completes {sections : List Markdown.Section} {cases : List Case} :
    collect sections = .ok cases ↔
      (∀ f ∈ (divide sections).1, f.language = []) ∧
        List.Forall₂ Completes (divide sections).2 cases := by
  have hends : collect sections = .ok cases ↔ Ends {} sections cases.reverse := by
    simp only [collect, Ends, bind_ok_iff, mapError_ok_iff]
    constructor
    · rintro ⟨p, taken, p', flushed, h⟩
      obtain rfl := Except.ok.inj h
      refine ⟨p, taken, flushed.trans ?_⟩
      rw [(flush_ok_iff.mp flushed).2, List.reverse_reverse]
    · rintro ⟨p, taken, flushed⟩
      exact ⟨p, taken, _, flushed, by rw [List.reverse_reverse]⟩
  rw [hends, ends_iff]
  simp [Yields]

/-! ## Suites of the format -/

theorem exists_forall₂ {α β : Type} {R : α → β → Prop} {as : List α}
    (related : ∀ a ∈ as, ∃ b, R a b) : ∃ bs, List.Forall₂ R as bs := by
  induction as with
  | nil => exact ⟨[], .nil⟩
  | cons a as ih =>
    obtain ⟨b, hb⟩ := related a List.mem_cons_self
    obtain ⟨bs, hbs⟩ := ih fun x hx => related x (List.mem_cons_of_mem a hx)
    exact ⟨b :: bs, .cons hb hbs⟩

/-- A group of the format makes a case. -/
theorem Group.WellFormed.completes {g : Group} (formed : g.WellFormed) : ∃ c, Completes g c := by
  obtain ⟨body, input, text⟩ := formed.input
  obtain ⟨assertions, asserts⟩ :
      ∃ as, List.Forall₂ Asserts (g.fences.filter Fence.isAssertion) as := by
    refine exists_forall₂ fun f hf => ?_
    obtain ⟨hmem, isAssertion⟩ := List.mem_filter.mp hf
    cases role : f.role with
    | input => simp [Fence.isAssertion, role] at isAssertion
    | unknown => simp [Fence.isAssertion, role] at isAssertion
    | assertion e =>
      exact (exists_asserts_iff role).mpr fun annotated => formed.readable f hmem (annotated ▸ role)
  refine ⟨⟨g.name, g.line, body, assertions⟩, rfl, rfl, ⟨0, input⟩, asserts, formed.known, text, ?_⟩
  rintro rfl
  exact formed.asserted (List.forall₂_nil_right_iff.mp asserts)

theorem Completes.readable {g : Group} {c : Case} (completes : Completes g c) {f : Fence}
    (hf : f ∈ g.fences) (role : f.role = .assertion .annotated) :
    ∃ d, Datum.read f.body = .ok d := by
  have hmem : f ∈ g.fences.filter Fence.isAssertion :=
    List.mem_filter.mpr ⟨hf, by simp [Fence.isAssertion, role]⟩
  obtain ⟨i, hi, rfl⟩ := List.getElem_of_mem hmem
  have asserts := completes.assertions.get hi (completes.assertions.length_eq ▸ hi)
  exact (exists_asserts_iff role).mp ⟨_, asserts⟩ rfl

/-- A group that makes a case is of the format, unless it has a program without a text. -/
theorem Completes.wellFormed_iff {g : Group} {c : Case} (completes : Completes g c) :
    g.WellFormed ↔ [] ∉ inputs g.fences := by
  obtain ⟨k, input⟩ := completes.input
  constructor
  · rintro ⟨⟨body, single, text⟩, -, -, -⟩ hempty
    rw [single, List.mem_singleton] at hempty
    exact text hempty.symm
  · intro noEmpty
    refine ⟨⟨c.input, ?_, completes.complete.input⟩, ?_, completes.known,
      fun f hf role => completes.readable hf role⟩
    · cases k with
      | zero => exact input
      | succ k => exact absurd (by rw [input]; simp) noEmpty
    · intro hnone
      have asserts := completes.assertions
      rw [hnone, List.forall₂_nil_left_iff] at asserts
      exact completes.complete.asserted asserts

/-- Which documents are accepted, and what their cases are; whether the document has a program
without a text decides whether an accepted one is of the format; and a document of the format
is accepted. -/
theorem accepted_exact (sections : List Markdown.Section) :
    (∀ cases, collect sections = .ok cases ↔
      (∀ f ∈ (divide sections).1, f.language = []) ∧
        List.Forall₂ Completes (divide sections).2 cases) ∧
      (∀ cases, collect sections = .ok cases →
        ((∀ g ∈ (divide sections).2, g.WellFormed) ↔
          ∀ g ∈ (divide sections).2, [] ∉ inputs g.fences)) ∧
      ((∀ f ∈ (divide sections).1, f.language = []) → (∀ g ∈ (divide sections).2, g.WellFormed) →
        ∃ cases, collect sections = .ok cases) := by
  refine ⟨fun cases => collect_ok_iff_completes, fun cases accepted => ?_, fun prose formed => ?_⟩
  · obtain ⟨-, completes⟩ := collect_ok_iff_completes.mp accepted
    refine forall₂_congr fun g hg => ?_
    obtain ⟨i, hi, rfl⟩ := List.getElem_of_mem hg
    exact (completes.get hi (completes.length_eq ▸ hi)).wellFormed_iff
  · obtain ⟨cases, completes⟩ := exists_forall₂ fun g hg => (formed g hg).completes
    exact ⟨cases, collect_ok_iff_completes.mpr ⟨prose, completes⟩⟩

/-- A test that has two programs, the first without a text. -/
def twoPrograms : List Markdown.Section :=
  [.heading (utf8 "Test: a") 1, .fence (utf8 "jmm-ast") [] 1,
    .fence (utf8 "jmm-ast") (utf8 "x\n") 7, .fence (utf8 "wat") (utf8 "y\n") 11]

/-- It is accepted, and yet it is not of the format. -/
theorem twoPrograms_accepted :
    collect twoPrograms = .ok [⟨utf8 "a", 1, utf8 "x", [⟨.wat, utf8 "y", none⟩]⟩] ∧
      (divide twoPrograms).2.map (inputs ·.fences) = [[[], utf8 "x"]] ∧
      ¬∀ g ∈ (divide twoPrograms).2, g.WellFormed := by
  have accepted :
      collect twoPrograms = .ok [⟨utf8 "a", 1, utf8 "x", [⟨.wat, utf8 "y", none⟩]⟩] := by
    rfl
  refine ⟨accepted, by decide, fun formed => ?_⟩
  have noEmpty := ((accepted_exact twoPrograms).2.1 _ accepted).mp formed
  exact absurd noEmpty (by decide)

end TreeWat.Suite
