import Mathlib.Logic.Basic
import Mathlib.Data.List.Basic

/-!
# Runs of a labelled step function

A system is a state type, a type of labels (calls, interrupts, register
accesses) and a step function. `none` is a step the system does not take:
a failed assertion that stops the machine, or a call its caller is not
allowed to make. Everything here is over arbitrary types.

* `run` folds a list of labels.
* `Along step P s l` says that `P` holds of every step of the run of `l`
  from `s`, at the state the step starts in.
* `run_invariant` is the induction every safety proof uses; `along_congr`
  is the one used where a condition on the steps is also necessary.
* `Until step P Q s l` says that `P` holds along the run up to the first
  step that `Q` accepts; `until_of_invariant` is its rule.
-/

namespace Minos.Lib

variable {σ α : Type*}

/-- The state after the labels `l`, when every step is taken. -/
def run (step : σ → α → Option σ) : σ → List α → Option σ
  | s, [] => some s
  | s, a :: l => (step s a).bind fun s' => run step s' l

/-- `P` holds at every step of the run. -/
def Along (step : σ → α → Option σ) (P : σ → α → Prop) : σ → List α → Prop
  | _, [] => True
  | s, a :: l => P s a ∧ ∀ s', step s a = some s' → Along step P s' l

/-- `P` holds in every state from `s` on, unless a step comes that `Q`
accepts. `Q` sees the labels after the step, so that it can ask for
something of the rest of the run. -/
def Until (step : σ → α → Option σ) (P : σ → Prop) (Q : σ → α → σ → List α → Prop) :
    σ → List α → Prop
  | s, [] => P s
  | s, a :: l => P s ∧ ∀ s', step s a = some s' → Q s a s' l ∨ Until step P Q s' l

/-- What a run ends in can be found by running it. -/
instance decidableExistsSome {o : Option σ} {P : σ → Prop} [DecidablePred P] :
    Decidable (∃ s, o = some s ∧ P s) :=
  match o with
  | none => isFalse (by simp)
  | some s => decidable_of_iff (P s) (by simp)

/-- So can what a call leaves that returns an error number with it. -/
instance decidableExistsPair [DecidableEq α] {o : Option (α × σ)} {e : α} {P : σ → Prop}
    [DecidablePred P] : Decidable (∃ s, o = some (e, s) ∧ P s) :=
  match o with
  | none => isFalse (by simp)
  | some (e', s) => decidable_of_iff (e' = e ∧ P s) (by simp [and_assoc])

/-! What is found that way has `P`, which can be decided, and with it `Q`, which cannot. -/

theorem exists_found {A P Q : σ → Prop} (hQ : ∀ s, A s → P s → Q s) (h : ∃ s, A s ∧ P s) :
    ∃ s, A s ∧ Q s :=
  h.imp fun s hs => ⟨hs.1, hQ s hs.1 hs.2⟩

theorem exists_found_and {A P Q R : σ → Prop} (hQ : ∀ s, A s → P s → R s → Q s)
    (h : ∃ s, A s ∧ P s ∧ R s) : ∃ s, A s ∧ Q s ∧ R s :=
  exists_found (fun s hs hPR => ⟨hQ s hs hPR.1 hPR.2, hPR.2⟩) h

theorem exists_found_more {A P Q : σ → Prop} (hQ : ∀ s, A s → P s → Q s) (h : ∃ s, A s ∧ P s) :
    ∃ s, A s ∧ P s ∧ Q s :=
  exists_found (fun s hs hP => ⟨hP, hQ s hs hP⟩) h

theorem exists_found_two {A : σ → Prop} {B P Q : σ → α → Prop}
    (hQ : ∀ s t, A s → B s t → P s t → Q s t) (h : ∃ s, A s ∧ ∃ t, B s t ∧ P s t) :
    ∃ s t, A s ∧ B s t ∧ Q s t := by
  obtain ⟨s, hs, t, ht, hP⟩ := h
  exact ⟨s, t, hs, ht, hQ s t hs ht hP⟩

variable {step : σ → α → Option σ} {P Q : σ → α → Prop} {I : σ → Prop}

@[simp] theorem run_nil (s : σ) : run step s [] = some s := rfl

theorem run_cons (s : σ) (a : α) (l : List α) :
    run step s (a :: l) = (step s a).bind fun s' => run step s' l := rfl

theorem run_cons_eq_some {s t : σ} {a : α} {l : List α}
    (h : run step s (a :: l) = some t) :
    ∃ s', step s a = some s' ∧ run step s' l = some t := by
  rw [run_cons] at h
  exact Option.bind_eq_some_iff.mp h

theorem run_append {s t : σ} {l : List α} (h : run step s l = some t) (l' : List α) :
    run step s (l ++ l') = run step t l' := by
  induction l generalizing s with
  | nil =>
    cases h
    rfl
  | cons a l ih =>
    obtain ⟨s', hs', hr⟩ := run_cons_eq_some h
    rw [List.cons_append, run_cons, hs']
    exact ih hr

theorem run_append_eq_some {s t : σ} {l l' : List α} (h : run step s (l ++ l') = some t) :
    ∃ s', run step s l = some s' ∧ run step s' l' = some t := by
  induction l generalizing s with
  | nil => exact ⟨s, rfl, h⟩
  | cons a l ih =>
    obtain ⟨s₁, hs₁, h⟩ := run_cons_eq_some h
    obtain ⟨s', hl, hl'⟩ := ih h
    exact ⟨s', by rw [run_cons, hs₁]; exact hl, hl'⟩

@[simp] theorem along_nil (s : σ) : Along step P s [] := trivial

theorem along_cons (s : σ) (a : α) (l : List α) :
    Along step P s (a :: l) ↔
      P s a ∧ ∀ s', step s a = some s' → Along step P s' l := Iff.rfl

/-- Conditions on the steps of a run are checked by running it. -/
instance along_decidable [∀ s a, Decidable (P s a)] :
    ∀ (s : σ) (l : List α), Decidable (Along step P s l)
  | _, [] => isTrue trivial
  | s, a :: l =>
    match h : step s a with
    | none => decidable_of_iff (P s a)
        ⟨fun hP => ⟨hP, fun _ hs' => nomatch h.symm.trans hs'⟩, And.left⟩
    | some s₁ =>
      have : Decidable (Along step P s₁ l) := along_decidable s₁ l
      decidable_of_iff (P s a ∧ Along step P s₁ l)
        (and_congr_right fun _ =>
          ⟨fun hl _ hs' => Option.some.inj (h.symm.trans hs') ▸ hl, fun hl => hl s₁ h⟩)

theorem along_true (s : σ) (l : List α) : Along step (fun _ _ => True) s l := by
  induction l generalizing s with
  | nil => trivial
  | cons a l ih => exact ⟨trivial, fun s' _ => ih s'⟩

theorem along_and (s : σ) (l : List α) :
    Along step (fun s a => P s a ∧ Q s a) s l ↔
      Along step P s l ∧ Along step Q s l := by
  induction l generalizing s with
  | nil => simp
  | cons a l ih =>
    simp only [along_cons, ih, forall_and]
    exact and_and_and_comm

theorem along_of_append {s t : σ} {l l' : List α} (h : Along step P s (l ++ l'))
    (hr : run step s l = some t) : Along step P t l' := by
  induction l generalizing s with
  | nil =>
    cases hr
    exact h
  | cons a l ih =>
    obtain ⟨s', hs', hr'⟩ := run_cons_eq_some hr
    exact ih (h.2 s' hs') hr'

theorem along_of_pre {s : σ} {pre l : List α} (h : pre <+: l)
    (hl : Along step P s l) : Along step P s pre := by
  induction pre generalizing s l with
  | nil => trivial
  | cons a pre ih =>
    obtain ⟨rest, rfl⟩ := h
    obtain ⟨ha, hrest⟩ := hl
    exact ⟨ha, fun s' hs' => ih (List.prefix_append _ _) (hrest s' hs')⟩

/-- **Invariants over runs**: what holds at the start and is kept by every
step that meets `P` holds at the end of every run that meets `P`. -/
theorem run_invariant
    (hstep : ∀ s a s', I s → P s a → step s a = some s' → I s')
    {s t : σ} {l : List α} (hs : I s) (hP : Along step P s l)
    (hr : run step s l = some t) : I t := by
  induction l generalizing s with
  | nil =>
    cases hr
    exact hs
  | cons a l ih =>
    obtain ⟨s', hs', hr'⟩ := run_cons_eq_some hr
    obtain ⟨hPa, hPl⟩ := hP
    exact ih (hstep s a s' hs hPa hs') (hPl s' hs') hr'

theorem along_of_invariant
    (hstep : ∀ s a s', I s → P s a → step s a = some s' → I s')
    (hQ : ∀ s a, I s → P s a → Q s a)
    {s : σ} {l : List α} (hs : I s) (hP : Along step P s l) : Along step Q s l := by
  induction l generalizing s with
  | nil => trivial
  | cons a l ih =>
    obtain ⟨hPa, hPl⟩ := hP
    exact ⟨hQ s a hs hPa, fun s' hs' => ih (hstep s a s' hs hPa hs') (hPl s' hs')⟩

theorem along_of_forall {p : α → Prop} {l : List α} (h : ∀ a ∈ l, p a) (s : σ) :
    Along step (fun _ a => p a) s l := by
  induction l generalizing s with
  | nil => trivial
  | cons a l ih =>
    obtain ⟨ha, hl⟩ := List.forall_mem_cons.mp h
    exact ⟨ha, fun s' _ => ih hl s'⟩

theorem until_of_invariant {P : σ → Prop} {Q : σ → α → σ → List α → Prop}
    (hP : ∀ s, I s → P s)
    (hstep : ∀ s a s', I s → step s a = some s' → I s' ∨ ∀ l, Q s a s' l)
    {s : σ} (hs : I s) (l : List α) : Until step P Q s l := by
  induction l generalizing s with
  | nil => exact hP s hs
  | cons a l ih =>
    refine ⟨hP s hs, fun s' hs' => ?_⟩
    rcases hstep s a s' hs hs' with hI | hQ
    · exact Or.inr (ih hI)
    · exact Or.inl (hQ l)

/-- Two step properties that agree wherever the invariant holds agree along
whole runs, when either of them keeps the invariant. -/
theorem along_congr
    (hstep : ∀ s a s', I s → Q s a → step s a = some s' → I s')
    (hPQ : ∀ s a, I s → (P s a ↔ Q s a))
    {s : σ} (hs : I s) (l : List α) :
    Along step P s l ↔ Along step Q s l := by
  induction l generalizing s with
  | nil => exact Iff.rfl
  | cons a l ih =>
    rw [along_cons, along_cons]
    constructor
    · rintro ⟨hPa, hPl⟩
      have hQa := (hPQ s a hs).mp hPa
      exact ⟨hQa, fun s' hs' =>
        (ih (hstep s a s' hs hQa hs')).mp (hPl s' hs')⟩
    · rintro ⟨hQa, hQl⟩
      exact ⟨(hPQ s a hs).mpr hQa, fun s' hs' =>
        (ih (hstep s a s' hs hQa hs')).mpr (hQl s' hs')⟩

/-- "Every state reached" as a property of the steps: `Good` holds at every
prefix of the run when it holds at the start and after every step. -/
theorem forall_prefix_iff_along {Good : σ → Prop} (s : σ) (l : List α) :
    (∀ pre, pre <+: l → ∀ t, run step s pre = some t → Good t) ↔
      Good s ∧ Along step (fun s a => ∀ s', step s a = some s' → Good s') s l := by
  induction l generalizing s with
  | nil =>
    constructor
    · intro h
      exact ⟨h [] (List.nil_prefix) s rfl, trivial⟩
    · rintro ⟨hs, -⟩ pre hpre t ht
      rw [List.prefix_nil.mp hpre, run_nil] at ht
      cases ht
      exact hs
  | cons a l ih =>
    constructor
    · intro h
      refine ⟨h [] List.nil_prefix s rfl, fun s' hs' => ?_, fun s' hs' => ?_⟩
      · exact h [a] (by simp) s' (by rw [run_cons, hs']; rfl)
      · refine ((ih s').mp fun pre hpre t ht => ?_).2
        exact h (a :: pre) (List.cons_prefix_cons.mpr ⟨rfl, hpre⟩) t
          (by rw [run_cons, hs']; exact ht)
    · rintro ⟨hs, hgood, halong⟩ pre hpre t ht
      cases pre with
      | nil =>
        cases ht
        exact hs
      | cons b pre =>
        obtain ⟨rfl, hpre'⟩ := List.cons_prefix_cons.mp hpre
        obtain ⟨s', hs', ht'⟩ := run_cons_eq_some ht
        exact (ih s').mpr ⟨hgood s' hs', halong s' hs'⟩ pre hpre' t ht'

end Minos.Lib
