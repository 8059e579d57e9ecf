import Minos.Core.Errno
import Minos.Core.Event

/-!
# Semaphores

`core/sem.c`: a count behind an event with waiters. A post hands its token to
a waiter, and only without one adds it to the count. `sem_pend_abort` wakes
all waiters and leaves the count alone.
-/

namespace Minos.Sem

open Minos.Lib Minos.EventWait

def intMax : Nat := 2 ^ 31 - 1

/-- `sem_post` and `sem_pend_abort`. -/
inductive Post
  | post
  | abort
  deriving DecidableEq, Repr

/-! ## The calls -/

/-- The way of `sem_accept`, and of a `sem_pend` that need not wait. -/
def semTake (cnt : Nat) : Option (Unit × Nat) :=
  if 0 < cnt then some ((), cnt - 1) else none

/-- The end of a `sem_post_opt` that woke nobody. -/
def semStore (cnt : Nat) : Option Nat := if cnt < intMax then some (cnt + 1) else none

def semObject : Object Nat Post Unit where
  take := semTake
  accept := semTake
  store cnt _ := semStore cnt
  message _ := ()
  pendState
    | .post => .ok
    | .abort => .abort
  broadcast
    | .post => false
    | .abort => true

/-- What `sem_post_opt` returns: a post that woke a waiter reports an overflow
too. -/
def semPostReturn (r : Result Post) : Except Errno Nat :=
  match r.post with
  | .abort => .ok r.woken
  | .post => if r.stored then .ok 0 else .error .eoverflow

/-! ## Tokens -/

/-- A count of tokens. -/
def tokenSpec : Spec Nat Post Unit where
  put cnt _ := semStore cnt
  get := semTake

/-- The acquisitions in a log. -/
def acquisitions (l : List (Op Post Unit)) : Nat :=
  l.countP fun
    | .got _ _ => true
    | .put _ => false

theorem sem_refines : Refines semObject tokenSpec id (fun _ => True) where
  take_none _ h := h
  take_some _ h := ⟨trivial, h⟩
  store _ _ h := ⟨trivial, h⟩
  single {p} h := by
    cases p with
    | post => rfl
    | abort => cases h
  handOff {cnt p} hempty _ := by
    have hzero : cnt = 0 := by
      by_contra hne
      have hget : tokenSpec.get cnt = some ((), cnt - 1) := if_pos (Nat.pos_of_ne_zero hne)
      rw [hget] at hempty
      cases hempty
    subst hzero
    exact ⟨1, rfl, rfl⟩

/-- **Conservation**, for any log of tokens. -/
theorem tokens_conserved {l : List (Op Post Unit)} {a b : Nat}
    (h : run tokenSpec.apply a l = some b) : a + (puts l).length = b + acquisitions l := by
  induction l generalizing a with
  | nil =>
    cases h
    rfl
  | cons e l ih =>
    obtain ⟨c, hc, hl⟩ := run_cons_eq_some h
    have hrest := ih hl
    cases e with
    | put p =>
      obtain ⟨-, ⟨⟩⟩ := Option.ite_none_right_eq_some.1 (show semStore a = some c from hc)
      have hputs : (puts (.put p :: l)).length = (puts l).length + 1 := rfl
      have hacq : acquisitions (.put p :: l) = acquisitions l := rfl
      omega
    | got t m =>
      obtain ⟨hpos, heq⟩ := Option.ite_none_right_eq_some.1
        (show semTake a = some (m, c) from Spec.get_of_apply hc)
      cases heq
      have hputs : puts (.got t () :: l) = puts l := rfl
      have hacq : acquisitions (.got t () :: l) = acquisitions l + 1 := by
        simp [acquisitions]
      rw [hputs, hacq]
      omega

/-! ## What a semaphore promises -/

/-- The initial count and the posts that took effect are the count and the
acquisitions. The acquisitions of a task are those its calls returned with,
and perhaps the one it is about to return with. The count is positive only
while nobody waits. -/
structure SemOk (cnt : Nat) (s : Sys Nat Post Unit) : Prop where
  conserved : cnt + ((s.results.filter (Result.tookEffect semObject)).length +
    (pendingPut semObject s).length) = s.data + acquisitions s.log
  receipts : ∀ t, gotBy t s.log = s.returned t ++ inFlight s t
  waits : 0 < s.data → ∀ t, ¬ Waiting s t

/-- **Semaphores conserve tokens**, in every interleaving of accepts, pends,
timeouts, posts and aborts by any number of tasks. -/
theorem sem_conserved (cnt : Nat) (l : List (Event Post)) (s : Sys Nat Post Unit)
    (h : run (eventStep semObject) (init cnt) l = some s) : SemOk cnt s := by
  have hinv := inv_of_run sem_refines trivial (along_acceptTakes rfl _ l) h
  refine ⟨?_, hinv.receipts, fun hpos t ht => ?_⟩
  · have hcons := tokens_conserved hinv.replay
    rw [hinv.puts, List.length_append, List.length_map] at hcons
    exact hcons
  · have hempty := hinv.waits t ht
    rw [show tokenSpec.get (id s.data) = some ((), s.data - 1) from if_pos hpos] at hempty
    cases hempty

/-- A timeout races a post, an abort finds a second waiter, and a token is
stored. -/
def timeoutAndAbort : List (Event Post) :=
  [.accept 1, .pend 2 5, .pend 3 0, .post .post, .timeout 2, .postWake, .postWake, .resume 3,
    .postEnd, .resume 2, .dequeue 2, .pend 4 0, .post .abort, .postWake, .postEnd, .resume 4,
    .post .post, .postEnd]

theorem sem_conserved_timeoutAndAbort :
    (run (eventStep semObject) (init 1) timeoutAndAbort).map
      (fun s => (s.data, acquisitions s.log, s.results.map semPostReturn))
      = some (1, 2, [.error .eoverflow, .ok 1, .ok 0]) ∧
    ∀ s, run (eventStep semObject) (init 1) timeoutAndAbort = some s → SemOk 1 s :=
  ⟨by decide +kernel, sem_conserved 1 timeoutAndAbort⟩

/-! ## What a post returns -/

/-- When the wake loop of a post comes to a task, that task does not wait any more. -/
def HeadWoken (s : Sys Nat Post Unit) : Event Post → Prop
  | .postWake => ∀ w ∈ s.waitList.head?, (s.task w).state ≠ .waitEvent
  | _ => True

/-- A `sem_post` that began in `s₀` and holds the lock: it has done nothing yet, or it has handed
its token to a waiter. -/
structure Held (s₀ s : Sys Nat Post Unit) (woken : Nat) : Prop where
  posting : s.posting = some ⟨.post, woken⟩
  data : s.data = s₀.data
  results : s.results = s₀.results
  log : woken = 0 ∧ s.log = s₀.log ∨
    woken = 1 ∧ ∃ w, s.log = s₀.log ++ [.put .post, .got w ()]

section Held

variable {s₀ s s' : Sys Nat Post Unit} {woken : Nat} {e : Event Post}

theorem Held.same (h : Held s₀ s woken) (hs : SameObject s s') : Held s₀ s' woken where
  posting := hs.posting.trans h.posting
  data := hs.data.trans h.data
  results := hs.results.trans h.results
  log := by
    rw [hs.log]
    exact h.log

/-- One step of the interleaving: the token is handed over exactly if the wake loop comes to a
task that waits. -/
theorem Held.step (h : Held s₀ s woken) (he : e ≠ .postEnd)
    (hs : eventStep semObject s e = some s') :
    Held s₀ s' woken ∧ (woken = 0 → HeadWoken s e) ∨
      woken = 0 ∧ Held s₀ s' 1 ∧ ¬ HeadWoken s e := by
  rcases held_cases h.posting he hs with
    ⟨t, rfl, -, rfl⟩ | ⟨t, rfl, -, -, rfl⟩ | ⟨rfl, w, rest, hlist, hdone, rfl⟩
  · exact Or.inl ⟨h.same (sameObject_timeout s t), fun _ => trivial⟩
  · exact Or.inl ⟨h.same (sameObject_pendResume s t), fun _ => trivial⟩
  · have hzero : woken = 0 := by simpa [Posting.done, semObject] using hdone
    subst hzero
    have hlog : s.log = s₀.log := by
      rcases h.log with ⟨-, hlog⟩ | ⟨h1, -⟩
      · exact hlog
      · cases h1
    by_cases hstate : (s.task w).state = .waitEvent
    · have hwake : wakeUpEventWaiter semObject s ⟨.post, 0⟩ w rest =
          { s.setTask w { s.task w with
              state := .waking, pendState := .ok, delay := 0, msg := some () } with
            waitList := rest
            posting := some ⟨.post, 1⟩
            log := s.log ++ [.put .post, .got w ()] } := by
        simp [wakeUpEventWaiter, wakeUp, hstate, semObject, Sys.setTask]
      refine Or.inr ⟨rfl, ?_, fun hhead => hhead w (by rw [hlist]; rfl) hstate⟩
      rw [hwake]
      exact ⟨rfl, h.data, h.results, Or.inr ⟨rfl, w, by rw [← hlog]⟩⟩
    · have hskip : wakeUpEventWaiter semObject s ⟨.post, 0⟩ w rest =
          { s with waitList := rest } := by
        simp [wakeUpEventWaiter, wakeUp, hstate]
      refine Or.inl ⟨?_, fun _ v hv => ?_⟩
      · rw [hskip]
        exact ⟨h.posting, h.data, h.results, Or.inl ⟨rfl, hlog⟩⟩
      · rw [hlist] at hv
        cases hv
        exact hstate

theorem Held.handed (h : Held s₀ s 1) (he : e ≠ .postEnd)
    (hs : eventStep semObject s e = some s') : Held s₀ s' 1 := by
  rcases h.step he hs with ⟨h', -⟩ | ⟨h0, -⟩
  · exact h'
  · cases h0

/-- Over the whole interleaving. -/
theorem held_run {mid : List (Event Post)} (hmid : .postEnd ∉ mid) (h : Held s₀ s 0)
    (hrun : run (eventStep semObject) s mid = some s') :
    ∃ woken, Held s₀ s' woken ∧
      (woken = 0 ↔ Along (eventStep semObject) HeadWoken s mid) := by
  induction mid generalizing s with
  | nil =>
    cases hrun
    exact ⟨0, h, iff_of_true rfl trivial⟩
  | cons e mid ih =>
    obtain ⟨s₁, hs, hrest⟩ := run_cons_eq_some hrun
    obtain ⟨he, hmid'⟩ : e ≠ .postEnd ∧ .postEnd ∉ mid :=
      ⟨fun heq => hmid (heq ▸ List.mem_cons_self), fun hmem => hmid (List.mem_cons_of_mem _ hmem)⟩
    rcases h.step he hs with ⟨h₁, hhead⟩ | ⟨-, h₁, hhead⟩
    · obtain ⟨woken, hheld, hiff⟩ := ih hmid' h₁ hrest
      refine ⟨woken, hheld, hiff.trans ⟨fun hl => ⟨hhead rfl, fun s₂ hs₂ => ?_⟩, ?_⟩⟩
      · rw [hs] at hs₂
        cases hs₂
        exact hl
      · exact fun hl => hl.2 s₁ hs
    · have hend : Held s₀ s' 1 := by
        have hstep : ∀ s e s', Held s₀ s 1 → e ≠ Event.postEnd →
            eventStep semObject s e = some s' → Held s₀ s' 1 :=
          fun _ _ _ h he hs => h.handed he hs
        refine run_invariant hstep h₁ (along_of_forall (fun a ha heq => ?_) _) hrest
        exact hmid' (heq ▸ ha)
      exact ⟨1, hend, iff_of_false (by decide) fun hl => hhead hl.1⟩

/-- The end of the call: `sem_post_opt` reports an overflow both when the count is full and when
the token was handed over. -/
theorem Held.postEnd (h : Held s₀ s woken) (hs : eventStep semObject s .postEnd = some s') :
    ∃ r, s'.results = s₀.results ++ [r] ∧ r.post = .post ∧
      (((semPostReturn r).isOk = false ↔
        ¬ s'.data = s₀.data + 1 ∧ ¬ ∃ w, s'.log = s₀.log ++ [.put .post, .got w ()]) ↔
        woken = 0) := by
  simp only [eventStep, h.posting] at hs
  obtain ⟨-, ⟨⟩⟩ := Option.ite_none_right_eq_some.1 hs
  rcases h.log with ⟨rfl, hlog⟩ | ⟨rfl, w, hlog⟩
  · -- nobody was woken: the count takes the token, or it is full
    by_cases hfull : s₀.data < intMax
    · refine ⟨⟨.post, 0, true⟩, ?_, rfl, iff_of_true (iff_of_false (by decide) ?_) rfl⟩
      · simp [EventWait.postEnd, semObject, semStore, hfull, h.data, h.results]
      · simp [EventWait.postEnd, semObject, semStore, hfull, h.data]
    · refine ⟨⟨.post, 0, false⟩, ?_, rfl, iff_of_true (iff_of_true (by decide) ?_) rfl⟩
      · simp [EventWait.postEnd, semObject, semStore, hfull, h.data, h.results]
      · simp [EventWait.postEnd, semObject, semStore, hfull, h.data, hlog]
  · refine ⟨⟨.post, 1, false⟩, ?_, rfl, iff_of_false (fun hiff => ?_) (by decide)⟩
    · simp [EventWait.postEnd, semObject, h.results]
    · refine (hiff.mp (by decide)).2 ⟨w, ?_⟩
      simp [EventWait.postEnd, semObject, hlog]

end Held

/-- **The result of `sem_post`**: in every state and interleaving it is negative exactly when the
token was neither added to the count nor handed to a waiting task, if and only if the wake loop
comes to no task that still waits. -/
theorem sem_post_result_iff (s₀ s : Sys Nat Post Unit) (mid : List (Event Post))
    (hmid : .postEnd ∉ mid)
    (hrun : run (eventStep semObject) s₀ (.post .post :: mid ++ [.postEnd]) = some s) :
    ∃ r, s.results = s₀.results ++ [r] ∧ r.post = .post ∧
      (((semPostReturn r).isOk = false ↔
        ¬ s.data = s₀.data + 1 ∧ ¬ ∃ w, s.log = s₀.log ++ [.put .post, .got w ()]) ↔
        Along (eventStep semObject) HeadWoken { s₀ with posting := some ⟨.post, 0⟩ } mid) := by
  obtain ⟨s₁, hs₁, hrest⟩ := run_cons_eq_some hrun
  obtain ⟨-, ⟨⟩⟩ := Option.ite_none_right_eq_some.1 hs₁
  obtain ⟨s₂, hmid₂, hlast⟩ := run_append_eq_some hrest
  obtain ⟨s₃, hend, ⟨⟩⟩ := run_cons_eq_some hlast
  have hheld : Held s₀ { s₀ with posting := some ⟨.post, 0⟩ } 0 :=
    ⟨rfl, rfl, rfl, Or.inl ⟨rfl, rfl⟩⟩
  obtain ⟨woken, hheld₂, hiff⟩ := held_run hmid hheld hmid₂
  obtain ⟨r, hr, hpost, hresult⟩ := hheld₂.postEnd hend
  exact ⟨r, hr, hpost, hresult.trans hiff⟩

/-- A post that finds its only waiter timed out stores its token and says so. -/
theorem sem_post_result_timedOut :
    ∃ s₀ s r, run (eventStep semObject) (init 0) [.pend 2 5, .timeout 2] = some s₀ ∧
      run (eventStep semObject) s₀ [.post .post, .postWake, .postEnd] = some s ∧
      s.results = s₀.results ++ [r] ∧
      ((semPostReturn r).isOk = false ↔
        ¬ s.data = s₀.data + 1 ∧ ¬ ∃ w, s.log = s₀.log ++ [.put .post, .got w ()]) := by
  have hpre : (run (eventStep semObject) (init 0) [.pend 2 5, .timeout 2]).isSome := by
    decide +kernel
  obtain ⟨s₀, hs₀⟩ := Option.isSome_iff_exists.mp hpre
  have hpost : ((run (eventStep semObject) (init 0) [.pend 2 5, .timeout 2]).bind fun s₀ =>
      run (eventStep semObject) s₀ [.post .post, .postWake, .postEnd]).isSome := by
    decide +kernel
  rw [hs₀] at hpost
  obtain ⟨s, hs⟩ := Option.isSome_iff_exists.mp hpost
  obtain ⟨r, hr, -, hiff⟩ := sem_post_result_iff s₀ s [.postWake] (by decide) hs
  refine ⟨s₀, s, r, hs₀, hs, hr, hiff.mpr ⟨?_, fun _ _ => trivial⟩⟩
  have hhead : (run (eventStep semObject) (init 0) [.pend 2 5, .timeout 2]).map (fun s =>
      (s.waitList, (s.task 2).state)) = some ([2], .waking) := by decide +kernel
  rw [hs₀] at hhead
  obtain ⟨hlist, hstate⟩ := Prod.mk.inj (Option.some.inj hhead)
  intro w hw
  rw [show ({ s₀ with posting := some ⟨.post, 0⟩ } : Sys Nat Post Unit).waitList = [2] from
    hlist] at hw
  cases hw
  rw [show ({ s₀ with posting := some ⟨.post, 0⟩ } : Sys Nat Post Unit).task 2 = s₀.task 2 from
    rfl, hstate]
  decide

/-- A post that wakes a waiter hands its token over and returns `-EOVERFLOW`. -/
theorem sem_post_overflow_after_wake :
    ((run (eventStep semObject) (init 0) [.pend 2 0, .post .post, .postWake, .postEnd]).map
      fun s => (s.results.map semPostReturn, s.data, s.log)) =
      some ([.error .eoverflow], 0, [.put .post, .got 2 ()]) := by
  decide +kernel

end Minos.Sem
