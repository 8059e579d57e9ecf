import Minos.Core.Errno
import Minos.Virt.VmmArea
import Mathlib.Data.List.Pairwise

/-!
# MMIO accesses of a guest

`virt/vdev.c`: an access of a guest that faults is given to the virtual
device whose memory it hits, and to the mvm process of the host VM when it
hits none. A device has a chain of areas, which are cut out of the guest
address space (`Minos.Vmm`); the devices of a VM are in a list.

What the `read` and `write` functions of a device do is a parameter: they
see the index of the area, the offset and the value, and change the state
of the devices.
-/

namespace Minos.Mmio

open Minos.Lib Minos.Vmm

/-! ## State -/

/-- `vdev->read` and `vdev->write`: from the state of the devices, `idx`,
`offset` and `*value` to the result, `*value` and the new state. -/
abbrev Handler (σ : Type) := σ → Nat → Nat → Nat → Int × Nat × σ

/-- `struct vdev`. -/
structure Vdev (σ : Type) where
  gvmArea : List VmmArea
  read : Option (Handler σ)
  write : Option (Handler σ)

structure Vm (σ : Type) where
  vdevList : List (Vdev σ)
  native : Bool
  devices : σ

/-- An access, with what `trap_vcpu` returns and leaves in `*value` if the
access is forwarded. -/
structure Access where
  write : Bool
  address : Nat
  value : Nat
  trapRet : Int
  trapValue : Nat

/-- A place of the search: the area `idx` of a device. -/
structure Entry (σ : Type) where
  nr : Nat
  vdev : Vdev σ
  idx : Nat
  va : VmmArea

/-- Where an access went. -/
inductive Route (σ : Type)
  | handler (e : Entry σ) (offset : Nat)
  | mvm
  | rejected

variable {σ : Type}

/-! ## Setting up -/

/-- `vdev_add_vmm_area`. -/
def vdevAddVmmArea (vdev : Vdev σ) (va : VmmArea) : Vdev σ :=
  { vdev with gvmArea := vdev.gvmArea ++ [va] }

/-- `VM_GUEST_VDEV`. -/
def vmGuestVdev : Nat := 0x4000

/-- `vdev_add_iomem_range`; `none` when it fails. -/
def vdevAddIomemRange (mem : Nat → Bool) (mm : MmStruct) (vdev : Vdev σ) (base size : Nat) :
    Option (Vdev σ) × MmStruct :=
  match splitVmmArea mem mm base size vmGuestVdev with
  | (none, mm) => (none, mm)
  | (some va, mm) => (some (vdevAddVmmArea vdev va), mm)

/-- `vdev_alloc_iomem_range`. -/
def vdevAllocIomemRange (mem : Nat → Bool) (mm : MmStruct) (vdev : Vdev σ) (size flags : Nat) :
    Option (Vdev σ) × MmStruct :=
  match allocFreeVmmArea mem mm size pageMask flags with
  | (none, mm) => (none, mm)
  | (some va, mm) => (some (vdevAddVmmArea vdev va), mm)

/-! ## An access -/

/-- The loop over the areas of a device, from `idx` on. -/
def areaLoop (address nr : Nat) (vdev : Vdev σ) : Nat → List VmmArea → Option (Entry σ)
  | _, [] => none
  | idx, va :: rest =>
    if va.start ≤ address ∧ address ≤ va.stop then some ⟨nr, vdev, idx, va⟩
    else areaLoop address nr vdev (idx + 1) rest

/-- The loop over the devices, the first of which has the number `nr`. -/
def vdevLoop (address : Nat) : Nat → List (Vdev σ) → Option (Entry σ)
  | _, [] => none
  | nr, vdev :: rest =>
    match areaLoop address nr vdev 0 vdev.gvmArea with
    | some e => some e
    | none => vdevLoop address (nr + 1) rest

/-- `handle_mmio`: without a function of the device nothing happens. -/
def handleMmio (vdev : Vdev σ) (write : Bool) (s : σ) (idx offset value : Nat) :
    Int × Nat × σ :=
  match (if write then vdev.write else vdev.read) with
  | some f => f s idx offset value
  | none => (0, value, s)

structure Result (σ : Type) where
  route : Route σ
  ret : Int
  value : Nat
  devices : σ

/-- `vdev_mmio_emulation`. -/
def vdevMmioEmulation (vm : Vm σ) (acc : Access) : Result σ :=
  match vdevLoop acc.address 0 vm.vdevList with
  | some e =>
    let offset := acc.address - e.va.start
    let r := handleMmio e.vdev acc.write vm.devices e.idx offset acc.value
    -- an error of the handler is printed, not returned
    ⟨.handler e offset, 0, r.2.1, r.2.2⟩
  | none =>
    if vm.native then ⟨.rejected, -Errno.eacces.code, acc.value, vm.devices⟩
    else
      ⟨.mvm, if acc.trapRet = -Errno.eacces.code then -Errno.eacces.code else 0, acc.trapValue,
        vm.devices⟩

/-- A guest goes from access to access. -/
def mmioStep (vm : Vm σ) (acc : Access) : Option (Vm σ) :=
  some { vm with devices := (vdevMmioEmulation vm acc).devices }

/-! ## What an access promises -/

/-- The area holds the address. -/
def Holds (va : VmmArea) (address : Nat) : Prop := va.start ≤ address ∧ address < va.stop

instance (va : VmmArea) (address : Nat) : Decidable (Holds va address) :=
  inferInstanceAs (Decidable (_ ∧ _))

/-- The address is the one behind the area. -/
def EndsAt (va : VmmArea) (address : Nat) : Prop := va.start ≤ address ∧ address = va.stop

/-- The areas of one device, in the order of its chain. -/
def vdevEntries (nr : Nat) (vdev : Vdev σ) : List (Entry σ) :=
  vdev.gvmArea.zipIdx.map fun x => ⟨nr, vdev, x.2, x.1⟩

/-- The areas of all devices, in the order of the lists. -/
def entries (l : List (Vdev σ)) : List (Entry σ) :=
  l.zipIdx.flatMap fun x => vdevEntries x.2 x.1

/-- No two areas of the devices have an address in common. -/
def DisjointAreas (l : List (Vdev σ)) : Prop :=
  (l.flatMap Vdev.gvmArea).Pairwise fun a b => ∀ x, ¬ (Holds a x ∧ Holds b x)

/-- An address in an area goes to the device of the area, with the index of
the area and an offset inside it; and only an address in no area goes to the
mvm process, or nowhere. -/
structure RouteOk (vm : Vm σ) (acc : Access) : Prop where
  inside : ∀ e ∈ entries vm.vdevList, Holds e.va acc.address →
    let offset := acc.address - e.va.start
    let r := handleMmio e.vdev acc.write vm.devices e.idx offset acc.value
    offset < e.va.stop - e.va.start ∧
      vdevMmioEmulation vm acc = ⟨.handler e offset, 0, r.2.1, r.2.2⟩
  outside : (∀ e ∈ entries vm.vdevList, ¬ Holds e.va acc.address) →
    (vdevMmioEmulation vm acc).route = if vm.native then .rejected else .mvm

/-- Every area that ends at the address comes, in the order of the lists,
after one that holds it. -/
def EndsAfter (l : List (Vdev σ)) (address : Nat) : Prop :=
  ∀ pre e post, entries l = pre ++ e :: post → EndsAt e.va address →
    ∃ e' ∈ pre, Holds e'.va address

/-! ## The search -/

/-- What the code takes for "inside". -/
def Hit (va : VmmArea) (address : Nat) : Prop := va.start ≤ address ∧ address ≤ va.stop

instance (va : VmmArea) (address : Nat) : Decidable (Hit va address) :=
  inferInstanceAs (Decidable (_ ∧ _))

theorem hit_iff {va : VmmArea} {a : Nat} : Hit va a ↔ Holds va a ∨ EndsAt va a := by
  unfold Hit Holds EndsAt
  omega

theorem areaLoop_eq (a nr : Nat) (vdev : Vdev σ) (idx : Nat) (l : List VmmArea) :
    areaLoop a nr vdev idx l =
      ((l.zipIdx idx).map fun x => (⟨nr, vdev, x.2, x.1⟩ : Entry σ)).find? (Hit ·.va a) := by
  induction l generalizing idx with
  | nil => rfl
  | cons va rest ih =>
    rw [areaLoop, List.zipIdx_cons, List.map_cons, List.find?_cons]
    change (if Hit va a then _ else _) = _
    by_cases h : Hit va a
    · rw [if_pos h, decide_eq_true h]
    · rw [if_neg h, decide_eq_false h]
      exact ih (idx + 1)

theorem vdevLoop_eq_from (a nr : Nat) (l : List (Vdev σ)) :
    vdevLoop a nr l =
      ((l.zipIdx nr).flatMap fun x => vdevEntries x.2 x.1).find? (Hit ·.va a) := by
  induction l generalizing nr with
  | nil => rfl
  | cons vdev rest ih =>
    rw [vdevLoop, List.zipIdx_cons, List.flatMap_cons, List.find?_append, areaLoop_eq, ih]
    change _ = Option.or ((vdevEntries nr vdev).find? (Hit ·.va a)) _
    rw [vdevEntries]
    cases List.find? _ _ <;> rfl

theorem vdevLoop_eq (a : Nat) (l : List (Vdev σ)) :
    vdevLoop a 0 l = (entries l).find? (Hit ·.va a) :=
  vdevLoop_eq_from a 0 l

/-- The first match of a weaker test is the first match of a stronger one if
and only if each match of the weaker test alone comes after one of both. -/
theorem find?_eq_find?_iff {α : Type} {p q : α → Prop} [DecidablePred p] [DecidablePred q]
    (hqp : ∀ x, q x → p x) (l : List α) :
    l.find? (p ·) = l.find? (q ·) ↔
      ∀ pre x post, l = pre ++ x :: post → p x → ¬ q x → ∃ y ∈ pre, q y := by
  constructor
  · rintro heq pre x post rfl hp hq
    by_contra hnone
    have hpre : pre.find? (q ·) = none := by
      refine List.find?_eq_none.2 fun y hy hqy => hnone ⟨y, hy, by simpa using hqy⟩
    rw [List.find?_append, List.find?_append, hpre, Option.none_or,
      List.find?_cons_of_pos (by simpa using hp), List.find?_cons_of_neg (by simpa using hq)] at heq
    cases hfind : pre.find? (p ·) with
    | none =>
      rw [hfind, Option.none_or] at heq
      exact hq (by simpa using List.find?_some heq.symm)
    | some y =>
      rw [hfind, Option.some_or] at heq
      exact hnone ⟨y, List.mem_of_find?_eq_some hfind, by simpa using List.find?_some heq.symm⟩
  · intro h
    cases hfind : l.find? (p ·) with
    | none =>
      refine (List.find?_eq_none.2 fun x hx hq => ?_).symm
      exact List.find?_eq_none.1 hfind x hx (by simpa using hqp x (by simpa using hq))
    | some x =>
      obtain ⟨hp, pre, post, hl, hpre⟩ := List.find?_eq_some_iff_append.1 hfind
      have hq : q x := by
        by_contra hq
        obtain ⟨y, hy, hqy⟩ := h pre x post hl (by simpa using hp) hq
        simpa [hqp y hqy] using hpre y hy
      refine (List.find?_eq_some_iff_append.2 ⟨by simpa using hq, pre, post, hl, ?_⟩).symm
      intro y hy
      have hny := hpre y hy
      simp only [Bool.not_eq_true', decide_eq_false_iff_not] at hny ⊢
      exact fun hqy => hny (hqp y hqy)

/-! ## Routes -/

section Routes

variable {vm : Vm σ} {acc : Access}

theorem vdevEntries_va (nr : Nat) (vdev : Vdev σ) :
    (vdevEntries nr vdev).map Entry.va = vdev.gvmArea := by
  rw [vdevEntries, List.map_map]
  exact List.zipIdx_map_fst 0 vdev.gvmArea

theorem entries_va (l : List (Vdev σ)) : (entries l).map Entry.va = l.flatMap Vdev.gvmArea := by
  rw [entries, List.map_flatMap]
  simp only [vdevEntries_va]
  rw [← List.flatMap_map, List.zipIdx_map_fst]

theorem eq_of_holds (hd : DisjointAreas vm.vdevList) {a : Nat} {e e' : Entry σ}
    (he : e ∈ entries vm.vdevList) (he' : e' ∈ entries vm.vdevList) (hh : Holds e.va a)
    (hh' : Holds e'.va a) : e = e' := by
  have hpair : (entries vm.vdevList).Pairwise fun e e' =>
      ∀ x, ¬ (Holds e.va x ∧ Holds e'.va x) := by
    rw [DisjointAreas, ← entries_va, List.pairwise_map] at hd
    exact hd
  have : Std.Symm fun e e' : Entry σ => ∀ x, ¬ (Holds e.va x ∧ Holds e'.va x) :=
    ⟨fun e e' h x hx => h x hx.symm⟩
  by_contra hne
  exact hpair.forall he he' hne a ⟨hh, hh'⟩

theorem miss_ne_handler (native : Bool) (e : Entry σ) (offset : Nat) :
    (if native then Route.rejected else Route.mvm) ≠ Route.handler e offset := by
  cases native <;> simp

theorem emulation_of_hit {e : Entry σ} (h : vdevLoop acc.address 0 vm.vdevList = some e) :
    vdevMmioEmulation vm acc =
      let r := handleMmio e.vdev acc.write vm.devices e.idx (acc.address - e.va.start) acc.value
      ⟨.handler e (acc.address - e.va.start), 0, r.2.1, r.2.2⟩ := by
  rw [vdevMmioEmulation, h]

theorem emulation_of_miss (h : vdevLoop acc.address 0 vm.vdevList = none) :
    (vdevMmioEmulation vm acc).route = if vm.native then .rejected else .mvm := by
  rw [vdevMmioEmulation, h]
  cases vm.native <;> rfl

/-- **One access** is routed as promised if and only if the loops find the
area that holds the address, or none when none does. -/
theorem routeOk_iff_find (hd : DisjointAreas vm.vdevList) :
    RouteOk vm acc ↔ (entries vm.vdevList).find? (Hit ·.va acc.address) =
      (entries vm.vdevList).find? (Holds ·.va acc.address) := by
  rw [← vdevLoop_eq]
  constructor
  · intro h
    cases hfind : (entries vm.vdevList).find? (Holds ·.va acc.address) with
    | none =>
      have hout := h.outside fun e he hh =>
        List.find?_eq_none.1 hfind e he (by simpa using hh)
      cases hloop : vdevLoop acc.address 0 vm.vdevList with
      | none => rfl
      | some e =>
        rw [emulation_of_hit hloop] at hout
        exact absurd hout.symm (miss_ne_handler _ _ _)
    | some e =>
      obtain ⟨-, hin⟩ := h.inside e (List.mem_of_find?_eq_some hfind)
        (by simpa using List.find?_some hfind)
      have hroute := congrArg Result.route hin
      cases hloop : vdevLoop acc.address 0 vm.vdevList with
      | none =>
        rw [emulation_of_miss hloop] at hroute
        exact absurd hroute (miss_ne_handler _ _ _)
      | some e' =>
        rw [emulation_of_hit hloop] at hroute
        cases hroute
        rfl
  · intro h
    refine ⟨fun e he hh => ?_, fun hnone => ?_⟩
    · cases hfind : (entries vm.vdevList).find? (Holds ·.va acc.address) with
      | none => exact absurd (by simpa using hh) (List.find?_eq_none.1 hfind e he)
      | some e' =>
        have heq : e' = e := eq_of_holds hd (List.mem_of_find?_eq_some hfind) he
          (by simpa using List.find?_some hfind) hh
        subst heq
        refine ⟨?_, emulation_of_hit (h.trans hfind)⟩
        unfold Holds at hh
        omega
    · refine emulation_of_miss (h.trans (List.find?_eq_none.2 fun e he hh => ?_))
      exact hnone e he (by simpa using hh)

theorem routeOk_iff (hd : DisjointAreas vm.vdevList) :
    RouteOk vm acc ↔ EndsAfter vm.vdevList acc.address := by
  rw [routeOk_iff_find hd,
    find?_eq_find?_iff (p := fun e : Entry σ => Hit e.va acc.address)
      (q := fun e : Entry σ => Holds e.va acc.address) fun e he => hit_iff.2 (Or.inl he)]
  unfold EndsAfter
  have hends : ∀ e : Entry σ, EndsAt e.va acc.address ↔
      Hit e.va acc.address ∧ ¬ Holds e.va acc.address := by
    intro e
    unfold EndsAt Hit Holds
    omega
  simp only [hends, and_imp]

end Routes

/-- **MMIO accesses of a guest.** With disjoint areas, every access of a
sequence is routed to the device and area that hold its address, or past the
devices when none does, if and only if no access has an address at which an
area ends before the one that holds it was found. -/
theorem vdev_mmio_iff (vm : Vm σ) (hd : DisjointAreas vm.vdevList) (l : List Access) :
    Along mmioStep RouteOk vm l ↔ ∀ acc ∈ l, EndsAfter vm.vdevList acc.address := by
  induction l generalizing vm with
  | nil => simp
  | cons acc l ih =>
    rw [along_cons, List.forall_mem_cons, routeOk_iff hd]
    refine and_congr_right fun _ => ?_
    have hrest := ih { vm with devices := (vdevMmioEmulation vm acc).devices } hd
    constructor
    · exact fun h => hrest.1 (h _ rfl)
    · rintro h s' ⟨⟩
      exact hrest.2 h

/-! ## Where the areas come from

A device gets its areas before `vdev_add`. They are entries of the used list,
each for one device, so they are disjoint. -/

/-- A VM whose devices are being set up: `made` are those that are not yet in
the list of the VM. -/
structure Setting (σ : Type) where
  mm : MmStruct
  made : List (Vdev σ)
  vdevList : List (Vdev σ)

inductive Setup (σ : Type)
  | init (read write : Option (Handler σ))
  | addIomem (n base size : Nat)
  | allocIomem (n size flags : Nat)
  | add (n : Nat)

/-- `base + size` does not wrap. -/
def Setup.NoWrap : Setup σ → Prop
  | .addIomem _ base size => base + size < 2 ^ 64
  | _ => True

/-- The device `n` after an attempt to give it an area. -/
def Setting.update (s : Setting σ) (n : Nat) (r : Option (Vdev σ) × MmStruct) : Setting σ :=
  match r with
  | (some vdev, mm) => { s with mm := mm, made := s.made.set n vdev }
  | (none, mm) => { s with mm := mm }

def setupStep (mem : Nat → Bool) (s : Setting σ) : Setup σ → Option (Setting σ)
  | .init read write => some { s with made := s.made ++ [⟨[], read, write⟩] }
  | .addIomem n base size =>
    s.made[n]?.map fun vdev => s.update n (vdevAddIomemRange mem s.mm vdev base size)
  | .allocIomem n size flags =>
    s.made[n]?.map fun vdev => s.update n (vdevAllocIomemRange mem s.mm vdev size flags)
  | .add n =>
    s.made[n]?.map fun vdev =>
      { s with made := s.made.eraseIdx n, vdevList := s.vdevList ++ [vdev] }

/-- The areas of the devices are entries of the used list, each once. -/
structure SetupInv (limit : Nat) (s : Setting σ) : Prop where
  areas : AreaInv limit s.mm
  owned : ((s.made ++ s.vdevList).flatMap Vdev.gvmArea).Subperm s.mm.used

section Setup

variable {mem : Nat → Bool} {limit : Nat} {s : Setting σ}

theorem flatMap_set_perm {l : List (Vdev σ)} {n : Nat} {vdev : Vdev σ} (h : l[n]? = some vdev)
    (va : VmmArea) :
    ((l.set n (vdevAddVmmArea vdev va)).flatMap Vdev.gvmArea).Perm
      (l.flatMap Vdev.gvmArea ++ [va]) := by
  obtain ⟨hn, rfl⟩ := List.getElem?_eq_some_iff.1 h
  have hl : l = l.take n ++ l[n] :: l.drop (n + 1) := by
    rw [List.getElem_cons_drop, List.take_append_drop]
  rw [List.set_eq_take_append_cons_drop, if_pos hn]
  conv_rhs => rw [hl]
  simp only [List.flatMap_append, List.flatMap_cons, vdevAddVmmArea, List.append_assoc]
  exact (List.perm_append_comm.append_left _).append_left _

/-- An attempt to get an area: the new entry, if there is one, is given to
one device. -/
theorem SetupInv.update (h : SetupInv limit s) {n : Nat} {vdev : Vdev σ}
    (hn : s.made[n]? = some vdev) {r : Option VmmArea × MmStruct} (hinv : AreaInv limit r.2)
    (hfail : r.1 = none → r.2.used = s.mm.used)
    (hok : ∀ va, r.1 = some va → r.2.used = s.mm.used ++ [va]) :
    SetupInv limit (s.update n (r.1.map (vdevAddVmmArea vdev), r.2)) := by
  obtain ⟨va, mm⟩ := r
  cases va with
  | none => exact ⟨hinv, (hfail rfl).symm ▸ h.owned⟩
  | some va =>
    refine ⟨hinv, ?_⟩
    have hused : mm.used = s.mm.used ++ [va] := hok va rfl
    change List.Subperm (((s.made.set n (vdevAddVmmArea vdev va)) ++ s.vdevList).flatMap
      Vdev.gvmArea) mm.used
    have hperm : (((s.made.set n (vdevAddVmmArea vdev va)) ++ s.vdevList).flatMap
        Vdev.gvmArea).Perm ((s.made ++ s.vdevList).flatMap Vdev.gvmArea ++ [va]) := by
      rw [List.flatMap_append, List.flatMap_append]
      refine ((flatMap_set_perm hn va).append_right _).trans ?_
      rw [List.append_assoc, List.append_assoc]
      exact List.perm_append_comm.append_left _
    rw [hused]
    exact hperm.subperm_right.2 ((List.subperm_append_right [va]).2 h.owned)

theorem SetupInv.step (h : SetupInv limit s) (hlimit : limit ≤ 2 ^ 40) {e : Setup σ}
    (he : e.NoWrap) {s' : Setting σ} (hs : setupStep mem s e = some s') : SetupInv limit s' := by
  cases e with
  | init read write =>
    cases hs
    refine ⟨h.areas, ?_⟩
    simpa using h.owned
  | addIomem n base size =>
    obtain ⟨vdev, hn, rfl⟩ := Option.map_eq_some_iff.1 hs
    have hcut := splitVmmArea_spec mem vmGuestVdev h.areas (by omega) he
    have hupdate := h.update hn hcut.inv (fun hr => (hcut.fail hr).2)
      (fun va hva => (splitVmmArea_used hva).1)
    unfold vdevAddIomemRange
    cases hr : splitVmmArea mem s.mm base size vmGuestVdev with
    | mk va mm =>
      rw [hr] at hupdate
      cases va <;> exact hupdate
  | allocIomem n size flags =>
    obtain ⟨vdev, hn, rfl⟩ := Option.map_eq_some_iff.1 hs
    have hall := allocFreeVmmArea_spec mem size pageMask flags h.areas hlimit
    have hupdate := h.update hn hall.inv (fun hr => (hall.fail hr).2)
      (fun va hva => allocFreeVmmArea_used h.areas hlimit hva)
    unfold vdevAllocIomemRange
    cases hr : allocFreeVmmArea mem s.mm size pageMask flags with
    | mk va mm =>
      rw [hr] at hupdate
      cases va <;> exact hupdate
  | add n =>
    obtain ⟨vdev, hn, rfl⟩ := Option.map_eq_some_iff.1 hs
    obtain ⟨hlt, rfl⟩ := List.getElem?_eq_some_iff.1 hn
    refine ⟨h.areas, ?_⟩
    have hperm : (s.made.eraseIdx n ++ (s.vdevList ++ [s.made[n]])).Perm
        (s.made ++ s.vdevList) := by
      refine List.Perm.trans ?_ ((List.getElem_cons_eraseIdx_perm hlt).append_right _)
      rw [← List.append_assoc]
      exact List.perm_append_singleton _ _
    exact ((hperm.flatMap_right _).subperm_right).2 h.owned

/-- **The areas of the devices of a VM are disjoint**, however they were set
up. -/
theorem disjointAreas_of_setup (hmem : mem 0 = true) (bit64 : Bool) {l : List (Setup σ)}
    (hl : ∀ e ∈ l, e.NoWrap)
    (h : run (setupStep mem) ⟨vmmAreaInit mem bit64, [], []⟩ l = some s) :
    DisjointAreas s.vdevList := by
  have hlimit := vmIpaSize_le bit64
  have hinv : SetupInv (vmIpaSize bit64) s := by
    have hstep : ∀ (s : Setting σ) e s', SetupInv (vmIpaSize bit64) s → Setup.NoWrap e →
        setupStep mem s e = some s' → SetupInv (vmIpaSize bit64) s' :=
      fun s e s' hs he hse => hs.step hlimit he hse
    refine run_invariant hstep ⟨AreaInv.init hmem bit64, ?_⟩ (along_of_forall hl _) h
    exact List.nil_subperm
  have hsub : (s.vdevList.flatMap Vdev.gvmArea).Subperm s.mm.areas := by
    refine List.Subperm.trans ?_ (hinv.owned.trans (List.sublist_append_right _ _).subperm)
    rw [List.flatMap_append]
    exact (List.sublist_append_right _ _).subperm
  have hdisj := pairwise_of_cover_le_one
    (l := (s.vdevList.flatMap Vdev.gvmArea).map VmmArea.span) fun x => by
      refine Nat.le_trans (cover_map_subperm hsub VmmArea.span x) ?_
      rw [hinv.areas.once x]
      split <;> omega
  exact List.pairwise_map.1 hdisj

end Setup

/-! ## Two virtio devices -/

/-- The state of the devices of the example: which one was called, with which
offset. -/
abbrev CallLog := List (Nat × Nat)

/-- `read` and `write` of the device `nr`. -/
def logCall (nr : Nat) : Option (Handler CallLog) :=
  some fun s _ offset value => (0, value, s ++ [(nr, offset)])

/-- The mvm process gives its virtio devices one page after the other. -/
def virtioSetup : List (Setup CallLog) :=
  [.init (logCall 0) (logCall 0), .addIomem 0 0x40000000 0x1000, .add 0,
    .init (logCall 1) (logCall 1), .addIomem 0 0x40001000 0x1000, .add 0]

/-- A guest VM after `l`. -/
def guestAfter (l : List (Setup CallLog)) : Vm CallLog :=
  ⟨((run (setupStep fun _ => true) ⟨vmmAreaInit (fun _ => true) true, [], []⟩ l).map
    Setting.vdevList).getD [], false, []⟩

theorem disjointAreas_virtio : DisjointAreas (guestAfter virtioSetup).vdevList := by
  have hsome : (run (setupStep fun _ => true) ⟨vmmAreaInit (fun _ => true) true, [], []⟩
      virtioSetup).isSome := by decide +kernel
  obtain ⟨s, hs⟩ := Option.isSome_iff_exists.1 hsome
  have hwrap : ∀ e ∈ virtioSetup, e.NoWrap := by simp [virtioSetup, Setup.NoWrap]
  simpa [guestAfter, hs] using disjointAreas_of_setup rfl true hwrap hs

/-- The device, area and offset of a route. -/
def Route.place : Route σ → Option (Nat × Nat × Nat)
  | .handler e offset => some (e.nr, e.idx, offset)
  | _ => none

def virtioWrite (address : Nat) : Access := ⟨true, address, 1, 0, 0⟩

theorem vdev_mmio_iff_virtio :
    (run mmioStep (guestAfter virtioSetup)
      [virtioWrite 0x40000050, virtioWrite 0x40001050, virtioWrite 0x50000000]).map Vm.devices
      = some [(0, 0x50), (1, 0x50)] ∧
    DisjointAreas (guestAfter virtioSetup).vdevList ∧
    (Along mmioStep RouteOk (guestAfter virtioSetup)
        [virtioWrite 0x40000050, virtioWrite 0x40001050, virtioWrite 0x50000000] ↔
      ∀ acc ∈ [virtioWrite 0x40000050, virtioWrite 0x40001050, virtioWrite 0x50000000],
        EndsAfter (guestAfter virtioSetup).vdevList acc.address) :=
  ⟨by decide +kernel, disjointAreas_virtio, vdev_mmio_iff _ disjointAreas_virtio _⟩

/-- A write to the first register of the second device goes to the first
device, with an offset behind its page. -/
theorem vdev_mmio_boundary :
    (vdevMmioEmulation (guestAfter virtioSetup) (virtioWrite 0x40001000)).route.place
        = some (0, 0, 0x1000) ∧
      (vdevMmioEmulation (guestAfter virtioSetup) (virtioWrite 0x40001000)).devices
        = [(0, 0x1000)] ∧
      ¬ RouteOk (guestAfter virtioSetup) (virtioWrite 0x40001000) := by
  have hroute : (vdevMmioEmulation (guestAfter virtioSetup) (virtioWrite 0x40001000)).route.place
      = some (0, 0, 0x1000) := by decide +kernel
  have hmem : (1, 0x40001000, 0x40002000) ∈ (entries (guestAfter virtioSetup).vdevList).map
      (fun e => (e.nr, e.va.start, e.va.stop)) := by decide +kernel
  obtain ⟨e, he, heq⟩ := List.mem_map.1 hmem
  simp only [Prod.mk.injEq] at heq
  obtain ⟨hnr, hstart, hstop⟩ := heq
  refine ⟨hroute, by decide +kernel, fun hok => ?_⟩
  have hholds : Holds e.va (virtioWrite 0x40001000).address := by
    unfold Holds virtioWrite
    dsimp only
    omega
  -- the second device holds the address, the first one was called
  rw [(hok.inside e he hholds).2] at hroute
  have hzero : e.nr = 0 := (Prod.mk.inj (Option.some.inj hroute)).1
  omega

end Minos.Mmio
