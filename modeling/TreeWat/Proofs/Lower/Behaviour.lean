import TreeWat.Proofs.Lower.Simulation.Program
import TreeWat.Proofs.Source.Numerals
set_option autoImplicit false

/-!
# Lower: a module behaves as its source program

The module of a program that passed the checker and has one entry point writes what the
source program writes and ends as it does, on every input, if its string literals only use
escapes of the language and its literals end before half of the address space.  Neither
side ever gets into a state that no rule covers.
-/

namespace TreeWat.Lower

open Wat (Op)

theorem le_pagesFor (n : Nat) : n ≤ Wat.pagesFor n * Wat.pageSize := by
  unfold Wat.pagesFor Wat.pageSize
  omega

/-- The words of the runtime library are literals of the language. -/
theorem library_interned {P : Bytes → Prop} (yes : P (utf8 "true")) (no : P (utf8 "false")) :
    Wat.Literals.empty.Interned P State.library.literals :=
  .step (.step .refl yes) no

/-- The data of a module is copied to its memory. -/
theorem ModuleCode.memory {root : Node} {m : Wat.Module Op} {s : State} (h : ModuleCode root m s)
    (printed : Source.PrintedAll (fun raw => (Source.literalBytes? raw).isSome = true) root)
    (small : s.literals.size < 2 ^ 31) :
    ∃ memory, m.memory? = some memory ∧ DataHeld memory s.literals.data := by
  cases h with
  | @intro _ _ _ _ _ _ parts s _ _ _ _ code =>
    have hfits : s.literals.size ≤ (moduleWith parts s).memory.toNat * Wat.pageSize := by
      rw [moduleWith, Int.toNat_natCast]
      exact le_pagesFor s.literals.size
    have hinterned := (library_interned (by decide) (by decide)).trans
      (code.interned fun d hd => printed.child hd)
    obtain ⟨memory, hmemory, hlies⟩ := hinterned.memory (fun _ hraw => hraw) hfits
      (fun a => if a < (moduleWith parts s).memory.toNat * Wat.pageSize then some 0 else none)
    exact ⟨memory, hmemory, s.literals.size, small, hlies⟩

section Behaviour

variable {root : Node} {m : Wat.Module Op} {s : State}

/-- The source program does what the module does among the callees that are meant. -/
theorem ModuleCode.simulates (h : ModuleCode root m s) (oneEntry : entryPoints root.children = 1)
    {memory : Nat → Option UInt8} (held : DataHeld memory s.literals.data) (input : Nat → Word)
    (n : Nat) :
    Run.Match (fun _ _ => True) (Source.runProgram root input n)
      (m.runAmong (Wat.callees memory (meant memory) m.funcs n) input) := by
  cases h with
  | intro _ _ varTypes _ code =>
    exact match_program code varTypes (by rw [oneEntry]; decide) held input n

/-- A module imports from its host what the library needs. -/
theorem ModuleCode.imported_eq (h : ModuleCode root m s) : m.imported = host := by
  cases h with
  | intro => rfl

theorem ModuleCode.run_eq (h : ModuleCode root m s) {memory : Nat → Option UInt8}
    (hmemory : m.memory? = some memory) (input : Nat → Word) (n : Nat) :
    m.run input n = m.runAmong (Wat.callees memory host m.funcs n) input := by
  rw [Wat.Module.run, hmemory, h.imported_eq]

theorem ModuleCode.funcs_eq (h : ModuleCode root m s) : ∃ funcs, m.funcs = library ++ funcs := by
  cases h with
  | intro => exact ⟨_, rfl⟩

theorem eq_of_match {r r' : Run Unit} (h : Run.Match (fun _ _ => True) r r') :
    r = r' ∧ ∀ e, r.res = .error e → e.expected = true := by
  cases h with
  | ok => exact ⟨rfl, fun e he => by cases he⟩
  | stop expected =>
    refine ⟨rfl, ?_⟩
    intro e he
    cases he
    exact expected

/-- A module and its source program behave the same. -/
theorem ModuleCode.sameBehaviour (h : ModuleCode root m s)
    (oneEntry : entryPoints root.children = 1) {memory : Nat → Option UInt8}
    (hmemory : m.memory? = some memory) (held : DataHeld memory s.literals.data)
    (input : Nat → Word) :
    Run.SameBehaviour (m.run input) (Source.runProgram root input) := by
  obtain ⟨funcs, hfuncs⟩ := h.funcs_eq
  have hsource : ∀ n, Source.runProgram root input n =
      m.runAmong (Wat.callees memory (meant memory) (library ++ funcs) n) input := by
    intro n
    rw [← hfuncs]
    exact (eq_of_match (h.simulates oneEntry held input n)).1
  have hmodule : ∀ n, m.run input n =
      m.runAmong (Wat.callees memory host (library ++ funcs) n) input := by
    intro n
    rw [← hfuncs]
    exact h.run_eq hmemory input n
  refine .of_extends ?_ ?_
  · intro n
    refine ⟨n, ?_⟩
    rw [hmodule, hsource]
    exact m.runAmong_extends (callees_host_meant n) input
  · intro n
    refine ⟨n + libraryFuel, ?_⟩
    rw [hmodule, hsource]
    exact m.runAmong_extends (callees_meant_host n) input

/-- More fuel does not change what a source program does. -/
theorem ModuleCode.source_steady (h : ModuleCode root m s)
    (oneEntry : entryPoints root.children = 1) {memory : Nat → Option UInt8}
    (held : DataHeld memory s.literals.data) (input : Nat → Word) :
    Run.Steady (Source.runProgram root input) := by
  intro n n' fuel
  rw [(eq_of_match (h.simulates oneEntry held input n)).1,
    (eq_of_match (h.simulates oneEntry held input n')).1]
  exact m.runAmong_extends (Wat.callees_extend memory (meant memory) m.funcs fuel) input

/-- The ends that a source program can come to: a numeral is the reason only if there is
one that is no number. -/
theorem ModuleCode.source_ends (h : ModuleCode root m s)
    (oneEntry : entryPoints root.children = 1) {memory : Nat → Option UInt8}
    (held : DataHeld memory s.literals.data) {input : Nat → Word} {r : Run Unit}
    (hr : Run.Ends (Source.runProgram root input) r) :
    r.res = .ok () ∨ r.res = .error .halted ∨ r.res = .error .division ∨
      r.res = .error .numeral ∧ ¬ Source.NumeralsFit root := by
  obtain ⟨ended, n, rfl⟩ := hr
  have hexpected := (eq_of_match (h.simulates oneEntry held input n)).2
  cases hres : (Source.runProgram root input n).res with
  | ok u => exact .inl rfl
  | error e =>
    have he := hexpected e hres
    cases e with
    | halted => exact .inr (.inl rfl)
    | division => exact .inr (.inr (.inl rfl))
    | numeral =>
      refine .inr (.inr (.inr ⟨rfl, ?_⟩))
      intro fits
      exact Source.runProgram_avoids fits input n hres
    | outOfFuel => exact absurd hres ended
    | unreachable | address | wrong => cases he

end Behaviour

/-- The module of every program that passed the checker and has one entry point behaves as
the program does: on every input both write the same, and both end in the same way or
neither ends.  The program must print literals of the language only, and the literals of
the module must end before half of the address space.  The ways to end are the usual one,
`halt`, a division without a quotient, and a numeral that is no 32-bit number. -/
theorem program_behaves {root : Node} {checked : Check.CheckedProgram}
    (accepted : Check.checkProgram root = .ok checked)
    (oneEntry : entryPoints root.children = 1)
    (printed : Source.PrintedAll (fun raw => (Source.literalBytes? raw).isSome = true) root)
    (debug : Bool) :
    ∃ m s, program ⟨checked.scopes, debug⟩ checked.tree = .ok m ∧
      moduleOf ⟨checked.scopes, debug⟩ checked.tree .initial = .ok (m, s) ∧
      (s.literals.size < 2 ^ 31 → ∀ input,
        Run.SameBehaviour (m.run input) (Source.runProgram root input) ∧
        Run.Steady (m.run input) ∧ Run.Steady (Source.runProgram root input) ∧
        ∀ r, Run.Ends (Source.runProgram root input) r →
          r.res = .ok () ∨ r.res = .error .halted ∨ r.res = .error .division ∨
            r.res = .error .numeral ∧ ¬ Source.NumeralsFit root) := by
  obtain ⟨m, s, hmodule, hcode⟩ := moduleCode_of_checkProgram accepted debug
  refine ⟨m, s, program_ok hmodule, hmodule, ?_⟩
  intro small input
  obtain ⟨memory, hmemory, held⟩ := hcode.memory printed small
  refine ⟨hcode.sameBehaviour oneEntry hmemory held input, m.run_steady input,
    hcode.source_steady oneEntry held input, ?_⟩
  intro r hr
  exact hcode.source_ends oneEntry held hr

theorem sampleProgram_printed :
    Source.PrintedAll (fun raw => (Source.literalBytes? raw).isSome = true) sampleProgram := by
  unfold Source.PrintedAll
  decide +kernel

theorem sampleProgram_literals {checked : Check.CheckedProgram} {m : Wat.Module Op} {s : State}
    (accepted : Check.checkProgram sampleProgram = .ok checked)
    (hmodule : moduleOf ⟨checked.scopes, true⟩ checked.tree .initial = .ok (m, s)) :
    s.literals.size = 11 := by
  have hsize : ((Check.checkProgram sampleProgram).toOption.bind fun checked =>
      (moduleOf ⟨checked.scopes, true⟩ checked.tree .initial).toOption.map
        (·.2.literals.size)) = some 11 := by decide +kernel
  rw [accepted] at hsize
  simpa [Except.toOption, hmodule] using hsize

/-- The module of the sample program writes two sums and the number of calls, and ends. -/
theorem program_behaves_sample :
    ∃ checked m s, Check.checkProgram sampleProgram = .ok checked ∧
      entryPoints sampleProgram.children = 1 ∧
      Source.PrintedAll (fun raw => (Source.literalBytes? raw).isSome = true) sampleProgram ∧
      program ⟨checked.scopes, true⟩ checked.tree = .ok m ∧
      moduleOf ⟨checked.scopes, true⟩ checked.tree .initial = .ok (m, s) ∧
      s.literals.size < 2 ^ 31 ∧
      Run.Ends (m.run fun _ => 0) ⟨[54, 9, 33, 51, 52], .ok ()⟩ := by
  obtain ⟨checked, accepted⟩ := sampleProgram_accepted
  have oneEntry : entryPoints sampleProgram.children = 1 := by decide
  have printed := sampleProgram_printed
  obtain ⟨m, s, hprogram, hmodule, hbehaves⟩ := program_behaves accepted oneEntry printed true
  have small : s.literals.size < 2 ^ 31 := by
    rw [sampleProgram_literals accepted hmodule]
    decide
  have hsource : Run.Ends (Source.runProgram sampleProgram fun _ => 0)
      ⟨[54, 9, 33, 51, 52], .ok ()⟩ :=
    ⟨by decide, 10, Run.ext (by decide +kernel) (by decide +kernel)⟩
  obtain ⟨hsame, -⟩ := hbehaves small fun _ => 0
  exact ⟨checked, m, s, accepted, oneEntry, printed, hprogram, hmodule, small,
    (hsame.ends _).mpr hsource⟩

end TreeWat.Lower
