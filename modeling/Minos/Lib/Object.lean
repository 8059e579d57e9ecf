import Minos.Lib.Run
import Mathlib.Data.List.Basic

/-!
# Sequential objects and their logs

An object that can be put into and got from, one operation at a time, and the
log of the operations on it. A log says in which order the operations took
effect and who got what; that the object allows it is that `run` of the log
succeeds. What a concurrent object does is compared with such a log.
-/

namespace Minos.Lib

universe u v w

/-- What can be put, and what comes out. `none` is a refusal. -/
structure Spec (α : Type u) (π : Type v) (μ : Type w) where
  put : α → π → Option α
  get : α → Option (μ × α)

/-- An entry of a log: `got t m` when `t` got `m`. -/
inductive Op (π : Type v) (μ : Type w)
  | put (p : π)
  | got (t : Nat) (m : μ)
  deriving DecidableEq, Repr

variable {α : Type u} {π : Type v} {μ : Type w} [DecidableEq μ]

/-- The effect of an entry, where it is possible. -/
def Spec.apply (sp : Spec α π μ) (a : α) : Op π μ → Option α
  | .put p => sp.put a p
  | .got _ m => (sp.get a).bind fun r => if r.1 = m then some r.2 else none

theorem Spec.apply_got (sp : Spec α π μ) {a a' : α} {m : μ} (t : Nat)
    (h : sp.get a = some (m, a')) : sp.apply a (.got t m) = some a' := by
  simp [Spec.apply, h]

theorem Spec.get_of_apply {sp : Spec α π μ} {a a' : α} {t : Nat} {m : μ}
    (h : sp.apply a (.got t m) = some a') : sp.get a = some (m, a') := by
  obtain ⟨⟨m', b⟩, hget, hm⟩ := Option.bind_eq_some_iff.1 h
  obtain ⟨rfl, ⟨⟩⟩ := Option.ite_none_right_eq_some.1 hm
  exact hget

theorem Spec.log_put {sp : Spec α π μ} {a b c : α} {l : List (Op π μ)} {p : π}
    (h : run sp.apply a l = some b) (hput : sp.put b p = some c) :
    run sp.apply a (l ++ [.put p]) = some c := by
  rw [run_append h, run_cons, Spec.apply, hput]
  rfl

theorem Spec.log_got {sp : Spec α π μ} {a b c : α} {l : List (Op π μ)} {m : μ} (t : Nat)
    (h : run sp.apply a l = some b) (hget : sp.get b = some (m, c)) :
    run sp.apply a (l ++ [.got t m]) = some c := by
  rw [run_append h, run_cons, sp.apply_got t hget]
  rfl

omit [DecidableEq μ]

/-- What was put. -/
def puts (l : List (Op π μ)) : List π :=
  l.filterMap fun
    | .put p => some p
    | .got _ _ => none

/-- What `t` got. -/
def gotBy (t : Nat) (l : List (Op π μ)) : List μ :=
  l.filterMap fun
    | .put _ => none
    | .got u m => if u = t then some m else none

@[simp] theorem puts_append (l l' : List (Op π μ)) : puts (l ++ l') = puts l ++ puts l' :=
  List.filterMap_append

@[simp] theorem gotBy_append (t : Nat) (l l' : List (Op π μ)) :
    gotBy t (l ++ l') = gotBy t l ++ gotBy t l' :=
  List.filterMap_append

@[simp] theorem puts_put (p : π) : puts [(.put p : Op π μ)] = [p] := rfl

@[simp] theorem puts_got (t : Nat) (m : μ) : puts [(.got t m : Op π μ)] = [] := rfl

@[simp] theorem gotBy_put (t : Nat) (p : π) : gotBy t [(.put p : Op π μ)] = [] := rfl

@[simp] theorem gotBy_got_self (t : Nat) (m : μ) : gotBy t [(.got t m : Op π μ)] = [m] := by
  simp [gotBy]

theorem gotBy_got_of_ne {t u : Nat} (h : u ≠ t) (m : μ) :
    gotBy t [(.got u m : Op π μ)] = [] := by
  simp [gotBy, h]

end Minos.Lib
