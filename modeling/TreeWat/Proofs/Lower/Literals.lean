import TreeWat.Proofs.Lower.Code
import TreeWat.Proofs.Source
import TreeWat.Proofs.Wat.Machine
set_option autoImplicit false

/-!
# Lower: string literals in the memory of a module

The module writes a literal in the string format of modules, and reading it back gives
the bytes that the literal stands for in the language.  Literals are copied to memory
one behind the other, so that none of them overwrites another, and the literals of a
program are the two words of the library and those that the program prints.
-/

namespace TreeWat.Wat

/-! ## Writing and reading back -/

theorem hexDigit_decodes {n : Nat} (h : n < 16) :
    escaped? (Bytes.hexDigit false n) = none ∧ hexValue? (Bytes.hexDigit false n) = some n := by
  have hall : ∀ n, n < 16 → escaped? (Bytes.hexDigit false n) = none ∧
      hexValue? (Bytes.hexDigit false n) = some n := by decide
  exact hall n h

theorem decodeText_letter {c e : UInt8} (h : escaped? c = some e) (rest : Bytes) :
    decodeText (byte '\\' :: c :: rest) = (decodeText rest).map (e :: ·) := by
  simp [decodeText, h]

theorem decodeText_number {c d : UInt8} {high low : Nat} (h : escaped? c = none)
    (hc : hexValue? c = some high) (hd : hexValue? d = some low) (rest : Bytes) :
    decodeText (byte '\\' :: c :: d :: rest) =
      (decodeText rest).map ((high * 16 + low).toUInt8 :: ·) := by
  simp [decodeText, h, hc, hd]

/-- A byte is the value of its two hexadecimal digits. -/
theorem toUInt8_digits (b : UInt8) : (b.toNat / 16 % 16 * 16 + b.toNat % 16).toUInt8 = b := by
  have hb := b.toNat_lt
  have hsum : b.toNat / 16 % 16 * 16 + b.toNat % 16 = b.toNat := by omega
  rw [hsum]
  exact UInt8.ofNat_toNat

/-- A byte written as a number reads back as the byte. -/
theorem decodeText_escapeByte (b : UInt8) (rest : Bytes) :
    decodeText (escapeByte b ++ rest) = (decodeText rest).map (b :: ·) := by
  have hhigh := hexDigit_decodes (n := b.toNat / 16 % 16) (by omega)
  have hlow := hexDigit_decodes (n := b.toNat % 16) (by omega)
  show decodeText (byte '\\' :: Bytes.hexDigit false (b.toNat / 16 % 16) ::
    Bytes.hexDigit false (b.toNat % 16) :: rest) = _
  rw [decodeText_number hhigh.1 hhigh.2 hlow.2, toUInt8_digits]

theorem escapeLiteral_start (raw : Bytes) :
    escapeLiteral raw = [] ∨ ∃ t, escapeLiteral raw = byte '\\' :: t := by
  match raw with
  | [] => exact .inl rfl
  | [b] => exact .inr ⟨_, rfl⟩
  | b :: c :: rest =>
    rw [escapeLiteral]
    by_cases isEscape : b = byte '\\'
    · rw [if_pos isEscape]
      unfold escapePair
      split
      · exact .inr ⟨_, rfl⟩
      · split
        · exact .inr ⟨_, rfl⟩
        · split
          · exact .inr ⟨_, rfl⟩
          · exact .inr ⟨_, rfl⟩
    · rw [if_neg isEscape]
      exact .inr ⟨_, rfl⟩

/-- An escape that the format has no letter for is written as the number of its byte, and
any other as it is, which the format reads as the language does. -/
theorem escapePair_cases (c : UInt8) :
    (∃ e, Source.escape? c = some e ∧ escapePair c = escapeByte e) ∨
      (Source.escape? c = escaped? c ∧ escapePair c = [byte '\\', c]) := by
  by_cases hb : c = byte 'b'
  · subst hb
    exact .inl ⟨8, by decide⟩
  by_cases hf : c = byte 'f'
  · subst hf
    exact .inl ⟨12, by decide⟩
  by_cases hr : c = byte 'r'
  · subst hr
    exact .inl ⟨13, by decide⟩
  have hpair : escapePair c = [byte '\\', c] := by
    unfold escapePair
    rw [if_neg hb, if_neg hf, if_neg hr]
  refine .inr ⟨?_, hpair⟩
  unfold Source.escape? escaped?
  by_cases hn : c = byte 'n'
  · subst hn
    decide
  by_cases ht : c = byte 't'
  · subst ht
    decide
  have hsigns : (c = byte '\\' ∨ c = byte '"' ∨ c = byte '\'') ↔
      (c = byte '"' ∨ c = byte '\'' ∨ c = byte '\\') := by
    constructor
    · rintro (h | h | h) <;> simp [h]
    · rintro (h | h | h) <;> simp [h]
  simp only [hb, hf, hr, hn, ht, if_false, hsigns]

/-- An escape reads back as the byte it stands for in the language, and does not read
back at all if it is none of the language. -/
theorem decodeText_escapePair (c : UInt8) (raw : Bytes) :
    decodeText (escapePair c ++ escapeLiteral raw) =
      match Source.escape? c with
      | some e => (decodeText (escapeLiteral raw)).map (e :: ·)
      | none => none := by
  obtain ⟨e, hescape, hpair⟩ | ⟨hsame, hpair⟩ := escapePair_cases c
  · rw [hpair, hescape]
    exact decodeText_escapeByte e _
  rw [hpair, hsame]
  show decodeText (byte '\\' :: c :: escapeLiteral raw) = _
  cases he : escaped? c with
  | some e => exact decodeText_letter he _
  | none =>
    -- what follows begins with a backslash, which is no digit
    rcases escapeLiteral_start raw with hnil | ⟨t, ht⟩
    · rw [hnil]
      simp [decodeText, he]
    · rw [ht]
      have hdigit : hexValue? (byte '\\') = none := by decide
      simp [decodeText, he, hdigit]

/-- A literal in the string format of modules stands for the same bytes as in the
language. -/
theorem decodeText_escapeLiteral (raw : Bytes) :
    decodeText (escapeLiteral raw) = Source.literalBytes? raw := by
  induction raw using escapeLiteral.induct with
  | case1 => rfl
  | case2 b =>
    have hsingle := decodeText_escapeByte b []
    rw [List.append_nil] at hsingle
    exact hsingle
  | case3 c rest ih =>
    rw [escapeLiteral, if_pos rfl, Source.literalBytes?, if_pos rfl]
    refine (decodeText_escapePair c rest).trans ?_
    cases Source.escape? c with
    | none => rfl
    | some e => exact congrArg (Option.map (e :: ·)) ih
  | case4 b c rest isPlain ih =>
    rw [escapeLiteral, if_neg isPlain, Source.literalBytes?, if_neg isPlain,
      decodeText_escapeByte, ih]

/-! ## Literals in memory -/

namespace Literals

/-- The literals behind some more, each of which satisfies `P`. -/
inductive Interned (P : Bytes → Prop) (t : Literals) : Literals → Prop where
  | refl : Interned P t t
  | step {t' raw} (before : Interned P t t') (holds : P raw) : Interned P t (t'.intern raw)

variable {P : Bytes → Prop} {t₁ t₂ t₃ : Literals}

theorem Interned.trans (h₁ : Interned P t₁ t₂) (h₂ : Interned P t₂ t₃) : Interned P t₁ t₃ := by
  induction h₂ with
  | refl => exact h₁
  | step _ holds ih => exact .step ih holds

theorem Interned.subset (h : Interned P t₁ t₂) : t₁.data ⊆ t₂.data := by
  induction h with
  | refl => exact fun _ hd => hd
  | step _ _ ih => exact fun d hd => List.mem_append_left _ (ih hd)

end Literals

/-- The bytes lie in memory from the offset on. -/
def MemoryHolds (memory : Nat → Option UInt8) (offset : Nat) (bytes : Bytes) : Prop :=
  ∀ i, i < bytes.length → memory (offset + i) = bytes[i]?

/-- The data lies in memory, below the given size. -/
def Data.LiesIn (d : Data) (memory : Nat → Option UInt8) (size : Nat) : Prop :=
  ∃ (offset : Nat) (bytes : Bytes), d.offset = offset ∧ decodeText d.text = some bytes ∧
    offset + bytes.length ≤ size ∧ MemoryHolds memory offset bytes

theorem copyTo_holds (offset : Nat) (bytes : Bytes) (memory : Nat → Option UInt8) :
    MemoryHolds (copyTo offset bytes memory) offset bytes := by
  intro i hi
  have hinside : offset ≤ offset + i ∧ offset + i < offset + bytes.length := by omega
  rw [copyTo, if_pos hinside, Nat.add_sub_cancel_left]

/-- What is copied behind the given size does not change what lies below it. -/
theorem Data.LiesIn.copyTo {d : Data} {memory : Nat → Option UInt8} {size size' : Nat}
    (h : d.LiesIn memory size) (grows : size ≤ size') (bytes : Bytes) :
    d.LiesIn (Wat.copyTo size bytes memory) size' := by
  obtain ⟨offset, own, hoffset, htext, hsize, hholds⟩ := h
  refine ⟨offset, own, hoffset, htext, by omega, ?_⟩
  intro i hi
  have houtside : ¬ (size ≤ offset + i ∧ offset + i < size + bytes.length) := by omega
  rw [Wat.copyTo, if_neg houtside]
  exact hholds i hi

/-- Literals that decode are copied to memory, and all of them lie there at the end. -/
theorem Literals.Interned.memory {P : Bytes → Prop} {t : Literals}
    (h : Interned P .empty t) (decodes : ∀ raw, P raw → (Source.literalBytes? raw).isSome = true)
    {bound : Nat} (fits : t.size ≤ bound) (blank : Nat → Option UInt8) :
    ∃ memory, t.data.foldlM (Data.copy? bound) blank = some memory ∧
      ∀ d ∈ t.data, d.LiesIn memory t.size := by
  induction h with
  | refl => exact ⟨blank, rfl, by simp [empty]⟩
  | @step t' raw before holds ih =>
    obtain ⟨bytes, hbytes⟩ := Option.isSome_iff_exists.mp (decodes raw holds)
    have hlength := Source.literalBytes?_length hbytes
    have hsize : (t'.intern raw).size = t'.size + bytes.length := by rw [hlength]; rfl
    rw [hsize] at fits ⊢
    obtain ⟨memory, hmemory, hdata⟩ := ih (by omega)
    have hdecode : decodeText (escapeLiteral raw) = some bytes := by
      rw [decodeText_escapeLiteral, hbytes]
    have hcopy : Data.copy? bound memory ⟨t'.size, escapeLiteral raw⟩ =
        some (copyTo t'.size bytes memory) := by
      simp only [Data.copy?, hdecode]
      exact if_pos (by omega)
    refine ⟨copyTo t'.size bytes memory, ?_, ?_⟩
    · show (t'.data ++ [_]).foldlM _ _ = _
      rw [List.foldlM_append, hmemory, Option.bind_eq_bind, Option.bind_some, List.foldlM_cons,
        hcopy]
      rfl
    · intro d hd
      rcases List.mem_append.mp hd with hd | hd
      · exact (hdata d hd).copyTo (by omega) bytes
      · rw [List.mem_singleton.mp hd]
        exact ⟨t'.size, bytes, rfl, hdecode, by omega, copyTo_holds _ _ _⟩

end TreeWat.Wat

namespace TreeWat.Lower

open Source (PrintedAll)

/-! ## The literals of a program -/

variable {P : Bytes → Prop} {tag : Bytes} {Γ : Names}

mutual

theorem ExprCode.interned {n : Node} {ty : Ty} {s s' : State} {code : Wat.Code}
    (h : ExprCode tag Γ n ty s code s')
    (printed : PrintedAll P n) : s.literals.Interned P s'.literals := by
  cases h with
  | name | number | trueLiteral | falseLiteral | string => exact .refl
  | assignment declared right => exact right.interned (printed.child (by simp))
  | arithmetic isArith rule first second =>
    exact (first.interned (printed.child (by simp))).trans
      (second.interned (printed.child (by simp)))
  | and first second =>
    exact (first.interned (printed.child (by simp))).trans
      (second.interned (printed.child (by simp)))
  | or first second =>
    exact (first.interned (printed.child (by simp))).trans
      (second.interned (printed.child (by simp)))
  | negation operand => exact operand.interned (printed.child (by simp))
  | complement operand => exact operand.interned (printed.child (by simp))
  | @call attr loc note name nameLoc nameNote nameCh listAttr listLoc listNote args _ _ _ _ resolved
      valued arguments =>
    have hlist : PrintedAll P ⟨.argumentList, listAttr, listLoc, listNote, args⟩ :=
      printed.child (by simp)
    exact arguments.interned fun a ha => hlist.child ha
  | print library =>
    exact .step .refl (printed _ (Node.mem_preorder_self _) _ (by simp [Source.printed?]))

theorem ArgsCode.interned {args : List Node} {tys : List Ty} {s s' : State} {code : Wat.Code}
    (h : ArgsCode tag Γ args tys s code s') (printed : ∀ a ∈ args, PrintedAll P a) :
    s.literals.Interned P s'.literals := by
  cases h with
  | nil => exact .refl
  | cons first commented others =>
    exact (first.interned (printed _ List.mem_cons_self)).trans
      (others.interned fun a ha => printed a (List.mem_cons_of_mem _ ha))

end

mutual

theorem StmtCode.interned {result : Ty} {loops : List Nat} {n : Node} {s s' : State}
    {code : Wat.Code}
    (h : StmtCode tag Γ result loops n s code s') (printed : PrintedAll P n) :
    s.literals.Interned P s'.literals := by
  cases h with
  | null | returnNothing | «break» => exact .refl
  | block statements => exact statements.interned fun m hm => printed.child hm
  | expression value commented => exact value.interned (printed.child (by simp))
  | call isCall value => exact value.interned printed
  | ifThen condition commented whenTrue =>
    exact (condition.interned (printed.child (by simp))).trans
      (whenTrue.interned (printed.child (by simp)))
  | ifElse condition commented whenTrue whenFalse =>
    exact ((condition.interned (printed.child (by simp))).trans
      (whenTrue.interned (printed.child (by simp)))).trans
      (whenFalse.interned (printed.child (by simp)))
  | @«while» _ _ _ _ cond _ _ _ _ _ _ _ _ _ _ condition commented repeated conditionAgain
      commentedAgain =>
    have hcond : PrintedAll P cond := printed.child (by simp)
    exact ((condition.interned hcond).trans (repeated.interned (printed.child (by simp)))).trans
      (conditionAgain.interned hcond)
  | returnValue hasResult valueCode commented => exact valueCode.interned (printed.child (by simp))

theorem StmtsCode.interned {result : Ty} {loops : List Nat} {ss : List Node} {s s' : State}
    {code : Wat.Code}
    (h : StmtsCode tag Γ result loops ss s code s') (printed : ∀ n ∈ ss, PrintedAll P n) :
    s.literals.Interned P s'.literals := by
  cases h with
  | nil => exact .refl
  | cons first others =>
    exact (first.interned (printed _ List.mem_cons_self)).trans
      (others.interned fun n hn => printed n (List.mem_cons_of_mem _ hn))

end

/-- Code keeps the data that was there. -/
theorem ExprCode.data_subset {n : Node} {ty : Ty} {s s' : State} {code : Wat.Code}
    (h : ExprCode tag Γ n ty s code s') : s.literals.data ⊆ s'.literals.data :=
  (h.interned (P := fun _ => True) fun _ _ _ _ => trivial).subset

theorem ArgsCode.data_subset {args : List Node} {tys : List Ty} {s s' : State} {code : Wat.Code}
    (h : ArgsCode tag Γ args tys s code s') : s.literals.data ⊆ s'.literals.data :=
  (h.interned (P := fun _ => True) fun _ _ _ _ _ _ => trivial).subset

theorem StmtCode.data_subset {result : Ty} {loops : List Nat} {n : Node} {s s' : State}
    {code : Wat.Code} (h : StmtCode tag Γ result loops n s code s') :
    s.literals.data ⊆ s'.literals.data :=
  (h.interned (P := fun _ => True) fun _ _ _ _ => trivial).subset

theorem StmtsCode.data_subset {result : Ty} {loops : List Nat} {ss : List Node} {s s' : State}
    {code : Wat.Code} (h : StmtsCode tag Γ result loops ss s code s') :
    s.literals.data ⊆ s'.literals.data :=
  (h.interned (P := fun _ => True) fun _ _ _ _ _ _ => trivial).subset

theorem BodyCode.interned {result : Ty} {Γ : Names} {ss : List Node} {s s' : State}
    {code : Wat.Code} (h : BodyCode tag result Γ ss s code s')
    (printed : ∀ n ∈ ss, PrintedAll P n) : s.literals.Interned P s'.literals := by
  induction h with
  | nil => exact .refl
  | declaration _ _ _ ih => exact ih fun n hn => printed n (List.mem_cons_of_mem _ hn)
  | statement first _ ih =>
    exact (first.interned (printed _ List.mem_cons_self)).trans
      (ih fun n hn => printed n (List.mem_cons_of_mem _ hn))

theorem BodyCode.data_subset {result : Ty} {Γ : Names} {ss : List Node} {s s' : State}
    {code : Wat.Code} (h : BodyCode tag result Γ ss s code s') :
    s.literals.data ⊆ s'.literals.data :=
  (h.interned (P := fun _ => True) fun _ _ _ _ _ _ => trivial).subset

variable {globals vs : List (Bytes × Ty)} {funcs fs : List (Bytes × Signature)}

theorem FunctionCode.interned {d : Node} {name : Bytes} {sig : Signature} {f : Wat.Func Wat.Op}
    {s s' : State} (h : FunctionCode globals funcs d name sig f s s') (printed : PrintedAll P d) :
    s.literals.Interned P s'.literals := by
  cases h with
  | @intro kind attr loc note resultNode name nameLoc nameNote nameCh listAttr listLoc listNote ps
      bodyAttr bodyLoc bodyNote ss _ _ _ _ _ _ _ _ isResult binds distinct isTag body =>
    have hblock : PrintedAll P ⟨.block, bodyAttr, bodyLoc, bodyNote, ss⟩ :=
      printed.child (by simp)
    exact body.interned fun n hn => hblock.child hn

theorem DeclsCode.interned {ds : List Node} {parts : Parts} {s s' : State}
    (h : DeclsCode globals funcs ds vs fs parts s s') (printed : ∀ d ∈ ds, PrintedAll P d) :
    s.literals.Interned P s'.literals := by
  induction h with
  | nil => exact .refl
  | entryPoint _ _ code _ ih =>
    exact (code.interned (printed _ List.mem_cons_self)).trans
      (ih fun d hd => printed d (List.mem_cons_of_mem _ hd))
  | function _ code _ ih =>
    exact (code.interned (printed _ List.mem_cons_self)).trans
      (ih fun d hd => printed d (List.mem_cons_of_mem _ hd))
  | global _ _ _ ih => exact ih fun d hd => printed d (List.mem_cons_of_mem _ hd)

theorem DeclsCode.data_subset {ds : List Node} {parts : Parts} {s s' : State}
    (h : DeclsCode globals funcs ds vs fs parts s s') : s.literals.data ⊆ s'.literals.data :=
  (h.interned (P := fun _ => True) fun _ _ _ _ _ _ => trivial).subset

end TreeWat.Lower
