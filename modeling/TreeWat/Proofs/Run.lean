import Mathlib.Algebra.Group.Int.Defs
import Mathlib.Algebra.Group.Nat.Defs
import TreeWat.Text.Bytes
set_option autoImplicit false

/-!
# Run: what a running program does

A run writes numbers to its host and ends with a value, or stops before.  Source
programs and modules are given their meaning as runs, so that the two can be
compared: `Match` relates two runs that write the same and end alike, and `Extends`
relates a run that was given some fuel with one that was given more.  Numbers, the
division of numbers and what outlives a call are the same on both sides.
-/

namespace TreeWat

/-- A 32-bit number; its sign is a matter of the operation. -/
abbrev Word : Type := BitVec 32

namespace Word

/-- The number written as a decimal numeral, if it has 32 bits, with a sign or
without. -/
def ofNumeral? (text : Bytes) : Option Word :=
  match Bytes.toInt? text with
  | some n => if -2 ^ 31 ≤ n ∧ n < 2 ^ 32 then some (BitVec.ofInt 32 n) else none
  | none => none

/-- A truth value as a number. -/
def ofBool (b : Bool) : Word :=
  if b then 1 else 0

/-- The signed quotient, toward zero.  There is none by zero, and none of the least
number by minus one. -/
def divide? (a b : Word) : Option Word :=
  if b = 0 ∨ (a = BitVec.intMin 32 ∧ b = -1) then none else some (a.sdiv b)

/-- The remainder of signed division, with the sign of the dividend. -/
def remainder? (a b : Word) : Option Word :=
  if b = 0 then none else some (a.srem b)

end Word

/-- Variables with a new value under one name. -/
def assign {V : Type} (vars : Bytes → Option V) (name : Bytes) (v : V) : Bytes → Option V :=
  fun x => if x = name then some v else vars x

/-- What outlives a call: the global variables, and what the host still hands in. -/
structure Store (V : Type) where
  globals : Bytes → Option V
  input : Nat → Word

/-- What remains behind the next number from the host. -/
def Store.advance {V : Type} (w : Store V) : Store V :=
  { w with input := fun i => w.input (i + 1) }

@[simp] theorem assign_self {V : Type} (vars : Bytes → Option V) (name : Bytes) (v : V) :
    assign vars name v name = some v := if_pos rfl

theorem assign_of_ne {V : Type} {vars : Bytes → Option V} {x name : Bytes} {v : V}
    (other : x ≠ name) : assign vars name v x = vars x := if_neg other

/-- Why a run stops before its end. -/
inductive Stop where
  /-- The program asked its host to end it. -/
  | halted
  /-- A division by zero, or one whose quotient does not exist. -/
  | division
  /-- A numeral that is no 32-bit number. -/
  | numeral
  /-- A place was reached that control should never reach. -/
  | unreachable
  /-- An address outside of memory. -/
  | address
  /-- A state in which no rule says what happens next. -/
  | wrong
  /-- The bound on loops and calls was used up. -/
  | outOfFuel
  deriving DecidableEq, Repr

/-- The stops that a program that passed the checker can come to. -/
def Stop.expected : Stop → Bool
  | .halted | .division | .numeral | .outOfFuel => true
  | .unreachable | .address | .wrong => false

/-- What was written, and the value or the stop at the end. -/
@[ext] structure Run (α : Type) where
  out : List Word
  res : Except Stop α

namespace Run

/-- Does nothing. -/
def done {α : Type} (a : α) : Run α :=
  ⟨[], .ok a⟩

/-- Goes on behind a run that ended with a value. -/
def andThen {α β : Type} (r : Run α) (k : α → Run β) : Run β :=
  match r.res with
  | .ok a => ⟨r.out ++ (k a).out, (k a).res⟩
  | .error e => ⟨r.out, .error e⟩

instance : Monad Run where
  pure := done
  bind := andThen

/-- Stops. -/
def stop {α : Type} (e : Stop) : Run α :=
  ⟨[], .error e⟩

/-- Writes one number. -/
def emit (w : Word) : Run Unit :=
  ⟨[w], .ok ()⟩

/-- Writes numbers. -/
def emitAll (ws : List Word) : Run Unit :=
  ⟨ws, .ok ()⟩

/-- Writes the bytes of a text. -/
def emitBytes (bs : Bytes) : Run Unit :=
  emitAll (bs.map fun b => BitVec.ofNat 32 b.toNat)

variable {α β γ δ : Type}

theorem pure_eq (a : α) : (pure a : Run α) = ⟨[], .ok a⟩ := rfl

@[simp] theorem ok_bind (out : List Word) (a : α) (k : α → Run β) :
    (⟨out, .ok a⟩ : Run α) >>= k = ⟨out ++ (k a).out, (k a).res⟩ := rfl

@[simp] theorem error_bind (out : List Word) (e : Stop) (k : α → Run β) :
    (⟨out, .error e⟩ : Run α) >>= k = ⟨out, .error e⟩ := rfl

@[simp] theorem stop_bind (e : Stop) (k : α → Run β) : (stop e : Run α) >>= k = stop e := rfl

@[simp] theorem done_bind (a : α) (k : α → Run β) : (pure a : Run α) >>= k = k a := rfl

theorem bind_done (r : Run α) : (r >>= fun a => (pure a : Run α)) = r := by
  rcases r with ⟨out, _ | a⟩
  · rfl
  · show (⟨out ++ [], .ok a⟩ : Run α) = ⟨out, .ok a⟩
    rw [List.append_nil]

theorem bind_bind (r : Run α) (f : α → Run β) (g : β → Run γ) :
    r >>= f >>= g = r >>= fun a => f a >>= g := by
  rcases r with ⟨out, _ | a⟩
  · rfl
  · rcases h : f a with ⟨out', _ | b⟩
    · simp [h]
    · simp [h, List.append_assoc]

/-- What follows a run only matters for the value that the run ends with. -/
theorem bind_congr {r : Run α} {k k' : α → Run β} (h : ∀ a, r.res = .ok a → k a = k' a) :
    r >>= k = r >>= k' := by
  rcases r with ⟨out, _ | a⟩
  · rfl
  · rw [ok_bind, ok_bind, h a rfl]

theorem bind_res_eq_ok {r : Run α} {k : α → Run β} {b : β} :
    (r >>= k).res = .ok b ↔ ∃ a, r.res = .ok a ∧ (k a).res = .ok b := by
  rcases r with ⟨out, e | a⟩
  · simp
  · simp

theorem emitAll_nil (k : Unit → Run α) : emitAll [] >>= k = k () := rfl

theorem emitAll_append (ws₁ ws₂ : List Word) (k : Unit → Run α) :
    emitAll (ws₁ ++ ws₂) >>= k = emitAll ws₁ >>= fun _ => emitAll ws₂ >>= k := by
  simp [emitAll, List.append_assoc]

instance : LawfulMonad Run :=
  LawfulMonad.mk' Run bind_done (fun _ _ => rfl) bind_bind

/-! ## Runs that do the same -/

/-- The two runs write the same and end alike: with related values, or at the same
expected stop. -/
inductive Match (R : α → β → Prop) : Run α → Run β → Prop where
  | ok {out a b} (related : R a b) : Match R ⟨out, .ok a⟩ ⟨out, .ok b⟩
  | stop {out e} (expected : e.expected = true) : Match R ⟨out, .error e⟩ ⟨out, .error e⟩

theorem Match.pure {R : α → β → Prop} {a : α} {b : β} (related : R a b) :
    Match R (pure a) (pure b) :=
  .ok related

theorem Match.stopped {R : α → β → Prop} {e : Stop} (expected : e.expected = true) :
    Match R (Run.stop e) (Run.stop e) :=
  .stop expected

theorem Match.bind {R : α → β → Prop} {S : γ → δ → Prop} {r : Run α} {r' : Run β}
    {k : α → Run γ} {k' : β → Run δ} (h : Match R r r')
    (hk : ∀ a b, R a b → Match S (k a) (k' b)) : Match S (r >>= k) (r' >>= k') := by
  cases h with
  | stop expected => exact .stop expected
  | @ok out a b related =>
    have hnext := hk a b related
    rw [ok_bind, ok_bind]
    rcases hka : k a with ⟨out₁, res₁⟩
    rcases hkb : k' b with ⟨out₂, res₂⟩
    rw [hka, hkb] at hnext
    cases hnext with
    | ok related => exact .ok related
    | stop expected => exact .stop expected

/-- What follows only the second run may work on its value. -/
theorem Match.bind_right {R : α → β → Prop} {S : α → γ → Prop} {r : Run α} {r' : Run β}
    {k' : β → Run γ} (h : Match R r r') (hk : ∀ a b, R a b → ∃ c, k' b = Pure.pure c ∧ S a c) :
    Match S r (r' >>= k') := by
  have hsteps : Match S (r >>= fun a => Pure.pure a) (r' >>= k') := by
    refine h.bind ?_
    intro a b related
    obtain ⟨c, hc, hS⟩ := hk a b related
    rw [hc]
    exact .pure hS
  rwa [bind_done] at hsteps

/-- What follows only the first run may work on its value. -/
theorem Match.bind_left {R : α → β → Prop} {S : γ → β → Prop} {r : Run α} {r' : Run β}
    {k : α → Run γ} (h : Match R r r') (hk : ∀ a b, R a b → ∃ c, k a = Pure.pure c ∧ S c b) :
    Match S (r >>= k) r' := by
  have hsteps : Match S (r >>= k) (r' >>= fun b => Pure.pure b) := by
    refine h.bind ?_
    intro a b related
    obtain ⟨c, hc, hS⟩ := hk a b related
    rw [hc]
    exact .pure hS
  rwa [bind_done] at hsteps

theorem Match.mono {R S : α → β → Prop} {r : Run α} {r' : Run β} (h : Match R r r')
    (hRS : ∀ a b, r.res = .ok a → R a b → S a b) : Match S r r' := by
  cases h with
  | ok related => exact .ok (hRS _ _ rfl related)
  | stop expected => exact .stop expected

/-! ## Runs with more fuel -/

/-- The second run is the first one, or goes on where the first one ran out of fuel. -/
inductive Extends : Run α → Run α → Prop where
  | same {r} : Extends r r
  | more {out out' res} : Extends ⟨out, .error .outOfFuel⟩ ⟨out ++ out', res⟩

namespace Extends

theorem of_eq {r r' : Run α} (h : r = r') : Extends r r' := by
  rw [h]
  exact .same

theorem outOfFuel (r : Run α) : Extends (stop .outOfFuel) r := by
  have h : r = ⟨[] ++ r.out, r.res⟩ := rfl
  rw [h]
  exact .more

theorem trans {r₁ r₂ r₃ : Run α} (h₁ : Extends r₁ r₂) (h₂ : Extends r₂ r₃) : Extends r₁ r₃ := by
  cases h₁ with
  | same => exact h₂
  | @more out out' res =>
    rcases r₃ with ⟨out₃, res₃⟩
    cases h₂ with
    | same => exact .more
    | more =>
      rw [List.append_assoc]
      exact .more

theorem bind {r r' : Run α} {k k' : α → Run β} (h : Extends r r')
    (hk : ∀ a, Extends (k a) (k' a)) : Extends (r >>= k) (r' >>= k') := by
  cases h with
  | same =>
    rcases r with ⟨out, _ | a⟩
    · exact .same
    · have hnext := hk a
      rw [ok_bind, ok_bind]
      rcases hka : k a with ⟨out₁, res₁⟩
      rcases hkb : k' a with ⟨out₂, res₂⟩
      rw [hka, hkb] at hnext
      cases hnext with
      | same => exact .same
      | more =>
        rw [← List.append_assoc]
        exact .more
  | @more out out' res =>
    cases res with
    | error e => exact .more
    | ok a =>
      rw [error_bind, ok_bind, List.append_assoc]
      exact .more

/-- A run that ended is the run with more fuel. -/
theorem eq_of_ended {r r' : Run α} (h : Extends r r') (ended : r.res ≠ .error .outOfFuel) :
    r = r' := by
  cases h with
  | same => rfl
  | more => exact absurd rfl ended

/-- More fuel only adds to what is written. -/
theorem isPrefix {r r' : Run α} (h : Extends r r') : r.out <+: r'.out := by
  cases h with
  | same => exact List.prefix_rfl
  | more => exact List.prefix_append _ _

end Extends

/-! ## Programs that are run with more and more fuel -/

/-- The program comes to the given end. -/
def Ends (f : Nat → Run α) (r : Run α) : Prop :=
  r.res ≠ .error .outOfFuel ∧ ∃ n, f n = r

/-- The program comes to no end. -/
def Diverges (f : Nat → Run α) : Prop :=
  ∀ n, (f n).res = .error .outOfFuel

/-- The program writes these numbers, and perhaps more behind them. -/
def Writes (f : Nat → Run α) (out : List Word) : Prop :=
  ∃ n, out <+: (f n).out

/-- More fuel does not change what a program does. -/
def Steady (f : Nat → Run α) : Prop :=
  ∀ n n', n ≤ n' → (f n).Extends (f n')

/-- The two programs come to the same end or to none, and write the same. -/
structure SameBehaviour (f g : Nat → Run α) : Prop where
  ends : ∀ r, Ends f r ↔ Ends g r
  diverges : Diverges f ↔ Diverges g
  writes : ∀ out, Writes f out ↔ Writes g out

theorem Steady.ends_unique {f : Nat → Run α} (h : Steady f) {r r' : Run α} (hr : Ends f r)
    (hr' : Ends f r') : r = r' := by
  obtain ⟨ended, n, rfl⟩ := hr
  obtain ⟨ended', n', rfl⟩ := hr'
  rcases Nat.le_total n n' with hle | hle
  · exact (h n n' hle).eq_of_ended ended
  · exact ((h n' n hle).eq_of_ended ended').symm

section Behaviour

variable {f g : Nat → Run α} (h : ∀ n, ∃ n', (f n).Extends (g n'))

include h

theorem Ends.of_extends {r : Run α} (hr : Ends f r) : Ends g r := by
  obtain ⟨ended, n, rfl⟩ := hr
  obtain ⟨n', hn'⟩ := h n
  exact ⟨ended, n', (hn'.eq_of_ended ended).symm⟩

theorem Writes.of_extends {out : List Word} (hout : Writes f out) : Writes g out := by
  obtain ⟨n, hn⟩ := hout
  obtain ⟨n', hn'⟩ := h n
  exact ⟨n', hn.trans hn'.isPrefix⟩

theorem Diverges.of_extends (hg : Diverges g) : Diverges f := by
  intro n
  obtain ⟨n', hn'⟩ := h n
  apply Classical.byContradiction
  intro ended
  rw [hn'.eq_of_ended ended] at ended
  exact ended (hg n')

end Behaviour

/-- Two programs behave the same, if each does what the other does, given more fuel. -/
theorem SameBehaviour.of_extends {f g : Nat → Run α} (hfg : ∀ n, ∃ n', (f n).Extends (g n'))
    (hgf : ∀ n, ∃ n', (g n).Extends (f n')) : SameBehaviour f g where
  ends _ := ⟨Ends.of_extends hfg, Ends.of_extends hgf⟩
  diverges := ⟨Diverges.of_extends hgf, Diverges.of_extends hfg⟩
  writes _ := ⟨Writes.of_extends hfg, Writes.of_extends hgf⟩

end Run

end TreeWat
