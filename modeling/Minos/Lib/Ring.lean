import Mathlib.Data.List.Basic
import Mathlib.Data.Nat.ModEq
import Mathlib.Logic.Function.Basic

/-!
# Ring buffers

A buffer of `size` slots that holds `cnt` entries from slot `out % size` on,
as the list of its entries. Indices may run freely: only their remainders
matter. Pushing at either end needs a free slot, and the proof of both is
that the slot written is not one of those in use. `Queued` says that the
buffer holds what was put into it and not yet taken out; the numbers of
entries put and taken are the free-running indices.
-/

namespace Minos.Lib

variable {α : Type*} {buf : Nat → α} {size out cnt : Nat}

/-- The `cnt` entries from `out` on. -/
def ringList (buf : Nat → α) (size out : Nat) : Nat → List α
  | 0 => []
  | cnt + 1 => buf (out % size) :: ringList buf size (out + 1) cnt

@[simp] theorem ringList_length (buf : Nat → α) (size out cnt : Nat) :
    (ringList buf size out cnt).length = cnt := by
  induction cnt generalizing out with
  | zero => rfl
  | succ cnt ih => rw [ringList, List.length_cons, ih]

/-- Only the remainder of `out` matters. -/
theorem ringList_mod (buf : Nat → α) (size out cnt : Nat) :
    ringList buf size (out % size) cnt = ringList buf size out cnt := by
  have hcongr : ∀ cnt a b, a % size = b % size →
      ringList buf size a cnt = ringList buf size b cnt := by
    intro cnt
    induction cnt with
    | zero => intro a b _; rfl
    | succ cnt ih =>
      intro a b hab
      rw [ringList, ringList, hab, ih (a + 1) (b + 1) (Nat.ModEq.add_right 1 hab)]
  exact hcongr cnt _ _ (Nat.mod_mod out size)

theorem ring_slot_ne {i j : Nat} (hij : i < j) (hlt : j < i + size) : i % size ≠ j % size := by
  intro h
  have hdvd : size ∣ j - i := (Nat.modEq_iff_dvd' (Nat.le_of_lt hij)).mp h
  have := Nat.le_of_dvd (by omega) hdvd
  omega

theorem ringList_update_of_ne {slot : Nat} (x : α)
    (h : ∀ i < cnt, (out + i) % size ≠ slot) :
    ringList (Function.update buf slot x) size out cnt = ringList buf size out cnt := by
  induction cnt generalizing out with
  | zero => rfl
  | succ cnt ih =>
    have h0 : out % size ≠ slot := h 0 (Nat.succ_pos cnt)
    rw [ringList, ringList, Function.update_of_ne h0, ih]
    intro i hi
    rw [Nat.add_right_comm, Nat.add_assoc]
    exact h (i + 1) (Nat.succ_lt_succ hi)

theorem ringList_succ_last (buf : Nat → α) (size out cnt : Nat) :
    ringList buf size out (cnt + 1)
      = ringList buf size out cnt ++ [buf ((out + cnt) % size)] := by
  induction cnt generalizing out with
  | zero => rfl
  | succ cnt ih =>
    rw [ringList, ih (out + 1), ringList, List.cons_append, Nat.add_right_comm, Nat.add_assoc]

theorem ringList_push (x : α) (hcnt : cnt < size) :
    ringList (Function.update buf ((out + cnt) % size) x) size out (cnt + 1)
      = ringList buf size out cnt ++ [x] := by
  rw [ringList_succ_last, Function.update_self, ringList_update_of_ne]
  intro i hi
  exact ring_slot_ne (by omega) (by omega)

theorem ringList_push_front {out' : Nat} (x : α) (hcnt : cnt < size)
    (hout : (out' + 1) % size = out % size) :
    ringList (Function.update buf (out' % size) x) size out' (cnt + 1)
      = x :: ringList buf size out cnt := by
  have hslots : ∀ i < cnt, (out' + 1 + i) % size ≠ out' % size := by
    intro i hi
    exact (ring_slot_ne (by omega) (by omega)).symm
  rw [ringList, Function.update_self, ringList_update_of_ne x hslots,
    ← ringList_mod buf size (out' + 1), hout, ringList_mod]

/-- The entries put in and not taken out are in the buffer, in order. -/
def Queued (buf : Nat → α) (size : Nat) (pushed popped : List α) : Prop :=
  pushed = popped ++ ringList buf size popped.length (pushed.length - popped.length)

section Queued

variable {pushed popped : List α}

theorem Queued.le (h : Queued buf size pushed popped) : popped.length ≤ pushed.length := by
  have hlen := congrArg List.length h
  rw [List.length_append, ringList_length] at hlen
  omega

theorem Queued.popped_pre (h : Queued buf size pushed popped) : popped <+: pushed := ⟨_, h.symm⟩

theorem Queued.push (h : Queued buf size pushed popped) (x : α)
    (hroom : pushed.length < popped.length + size) :
    Queued (Function.update buf (pushed.length % size) x) size (pushed ++ [x]) popped := by
  have hle := h.le
  have hslot : popped.length + (pushed.length - popped.length) = pushed.length := by omega
  have hpush : ringList (Function.update buf (pushed.length % size) x) size popped.length
      (pushed.length - popped.length + 1) = _ := hslot ▸ ringList_push x (by omega)
  have hcnt : (pushed ++ [x]).length - popped.length = pushed.length - popped.length + 1 := by
    rw [List.length_append, List.length_singleton]
    omega
  rw [Queued, hcnt, hpush, ← List.append_assoc, ← h]

theorem Queued.pop (h : Queued buf size pushed popped) (hlt : popped.length < pushed.length) :
    Queued buf size pushed (popped ++ [buf (popped.length % size)]) := by
  obtain ⟨cnt, hcnt⟩ : ∃ cnt, pushed.length - popped.length = cnt + 1 :=
    ⟨pushed.length - popped.length - 1, by omega⟩
  have hrest : pushed.length - (popped ++ [buf (popped.length % size)]).length = cnt := by
    rw [List.length_append, List.length_singleton]
    omega
  rw [Queued, hcnt, ringList] at h
  rw [Queued, hrest, List.length_append, List.length_singleton, List.append_assoc]
  exact h

theorem Queued.popAll (h : Queued buf size pushed popped) {n : Nat}
    (hn : popped.length + n ≤ pushed.length) :
    Queued buf size pushed (popped ++ ringList buf size popped.length n) := by
  induction n with
  | zero =>
    rw [ringList, List.append_nil]
    exact h
  | succ n ih =>
    have hlen : (popped ++ ringList buf size popped.length n).length = popped.length + n := by
      rw [List.length_append, ringList_length]
    have hnext := (ih (by omega)).pop (by omega)
    rwa [hlen, List.append_assoc, ← ringList_succ_last] at hnext

end Queued

end Minos.Lib
