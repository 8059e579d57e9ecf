import Mathlib.Logic.Basic
import Mathlib.Data.List.Basic

/-!
# Code that reads what others write

A piece of sequential code over its own state `σ`, in a world that others change: what it reads
from there is a list of inputs of type `ρ`, used up from the front. `none` is code that does not
return, because it stopped or because it waits for more inputs.

`Always x Q s` says that whatever the inputs are, if `x` returns from the state `s`, then `Q` holds
of the result and the state it leaves. There is one rule for every way to put code together, so
that a proof follows the text of the code.
-/

namespace Minos.Lib

variable {σ ρ α β : Type}

/-- Code with the state `σ` and inputs of type `ρ`. -/
abbrev Code (σ ρ α : Type) := StateT (σ × List ρ) Option α

namespace Code

/-- The next input. -/
def input : Code σ ρ ρ := fun s =>
  match s.2 with
  | [] => none
  | v :: t => some (v, s.1, t)

def read : Code σ ρ σ := fun s => some (s.1, s)

def update (f : σ → σ) : Code σ ρ Unit := fun s => some ((), f s.1, s.2)

/-- The code stops. -/
def stop : Code σ ρ α := fun _ => none

/-- The turns of a loop until one gives a result, `n` at most. -/
def turns : Nat → Code σ ρ (Option α) → Code σ ρ α
  | 0, _ => stop
  | n + 1, x => x >>= fun r =>
    match r with
    | some a => pure a
    | none => turns n x

/-- A loop whose turns each read an input. -/
def loop (x : Code σ ρ (Option α)) : Code σ ρ α := fun s => turns s.2.length x s

/-- `Q` holds whenever `x` returns. -/
def Always (x : Code σ ρ α) (Q : α → σ → Prop) (s : σ) : Prop :=
  ∀ t a s' t', x (s, t) = some (a, s', t') → Q a s'

/-- `x` returns with the state it was entered with. -/
def Keeps (x : Code σ ρ α) : Prop := ∀ s, Always x (fun _ s' => s' = s) s

variable {x : Code σ ρ α} {f : α → Code σ ρ β} {Q Q' : α → σ → Prop} {R : β → σ → Prop} {s : σ}

theorem always_mono (h : ∀ a s', Q a s' → Q' a s') (hx : Always x Q s) : Always x Q' s :=
  fun t a s' t' hr => h a s' (hx t a s' t' hr)

theorem always_pure {a : α} (h : Q a s) : Always (pure a : Code σ ρ α) Q s := by
  intro t a' s' t' hr
  cases hr
  exact h

theorem always_stop : Always (stop : Code σ ρ α) Q s := fun _ _ _ _ hr => by cases hr

theorem always_input {Q : ρ → σ → Prop} (h : ∀ v, Q v s) : Always (input : Code σ ρ ρ) Q s := by
  intro t a s' t' hr
  cases t with
  | nil => cases hr
  | cons v t =>
    cases hr
    exact h a

theorem always_read {Q : σ → σ → Prop} (h : Q s s) : Always (read : Code σ ρ σ) Q s := by
  intro t a s' t' hr
  cases hr
  exact h

theorem always_update {g : σ → σ} {Q : Unit → σ → Prop} (h : Q () (g s)) :
    Always (update g : Code σ ρ Unit) Q s := by
  intro t a s' t' hr
  cases hr
  exact h

theorem always_bind (h : Always x (fun a s' => Always (f a) R s') s) : Always (x >>= f) R s := by
  intro t b s'' t'' hr
  obtain ⟨⟨a, s', t'⟩, hx, hf⟩ := Option.bind_eq_some_iff.mp hr
  exact h t a s' t' hx t' b s'' t'' hf

theorem Keeps.always (h : Keeps x) (hQ : ∀ a, Q a s) : Always x Q s :=
  always_mono (fun a _ hs => (congrArg (Q a) hs).mpr (hQ a)) (h s)

theorem Keeps.cond {p : Prop} [Decidable p] {x : Code σ ρ Unit} {y : Unit → Code σ ρ β}
    (hx : Keeps x) (hy : Always (y ()) R s) : Always (if p then x >>= y else y ()) R s := by
  split
  · exact always_bind (hx.always fun _ => hy)
  · exact hy

/-- The rule of the loop: every turn that is not the last keeps the invariant. -/
theorem always_loop {y : Code σ ρ (Option α)} (I : σ → Prop)
    (hturn : ∀ s, I s → Always y (fun r s' => r.elim (I s') fun a => Q a s') s) (h : I s) :
    Always (loop y) Q s := by
  have hturns : ∀ n s, I s → Always (turns n y) Q s := by
    intro n
    induction n with
    | zero => exact fun _ _ => always_stop
    | succ n ih =>
      intro s h
      refine always_bind (always_mono (fun r s' hr => ?_) (hturn s h))
      cases r with
      | none => exact ih s' hr
      | some a => exact always_pure hr
  exact fun t => hturns _ s h t

end Code

end Minos.Lib
