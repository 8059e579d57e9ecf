import Minos.Arch.Stage2Teardown
import Minos.Lib.Run
import Minos.Virt.GuestMapping
import Minos.Virt.Memblock

/-!
# The address space of a native VM

`vm_mm_init` maps the memory of a native VM and then makes its free areas page aligned: device
ranges of the VM's own device tree were cut out to the byte. The start is rounded up, the end
down, and an area with less than a page between the two is dropped.

The difference is that of two unsigned numbers. An area inside a page has its end rounded below
its start, the size wraps, and the area is kept with its bounds in the wrong order.
-/

namespace Minos.VmMmInit

open Minos.Lib Minos.Vmm
open Minos.Stage2 (Tables Entry Ret PageSource noTables)

def vmMapTypeMask : Nat := 0x0f000000
def vmMapBk : Nat := 0x01000000
def vmMapPt : Nat := 0x02000000

/-- What `vm_mm_init` uses of `struct vm`; `skipMmInit` is `VM_FLAGS_BIT_SKIP_MM_INIT`. -/
structure NativeVm where
  skipMmInit : Bool
  mm : MmStruct
  tables : Tables

/-- `vmm_area_map_ln`. -/
def vmmAreaMapLn (src : PageSource) (s : Tables) (va : VmmArea) : Option Ret :=
  createGuestMapping src s va.start va.pstart (sub64 va.stop va.start) (BitVec.ofNat 64 va.flags)

/-- `vmm_area_map_bk`, with `ASSERT(size == 0)` at its end. -/
def vmmAreaMapBk (src : PageSource) (flags : Entry) :
    List Nat → Tables → Nat → Nat → Option Ret
  | [], s, _, size => if size = 0 then some (none, s) else none
  | bfn :: rest, s, base, size =>
    (createGuestMapping src s base (bfn2phy bfn) memBlockSize flags).bind fun r =>
      match r.1 with
      | some _ => some r
      | none =>
        vmmAreaMapBk src flags rest r.2 (base + memBlockSize) (sub64 size memBlockSize)

/-- `va->flags | VM_HUGE | VM_GUEST` of `vmm_area_map_bk`. -/
def blockFlags (va : VmmArea) : Entry :=
  BitVec.ofNat 64 va.flags ||| Stage2.vmHuge2M ||| 0x4000

/-- `map_vmm_area`, with the area as it is left; `blocks` is its list of memory blocks. -/
def mapVmmArea (src : PageSource) (blocks : List Nat) (s : Tables) (va : VmmArea) (pbase : Nat) :
    Option (VmmArea × Ret) :=
  if va.flags &&& vmMapTypeMask = vmMapPt then
    let va := { va with pstart := va.start }
    (vmmAreaMapLn src s va).map fun r => (va, r)
  else if va.flags &&& vmMapTypeMask = vmMapBk then
    (vmmAreaMapBk src (blockFlags va) blocks s va.start (sub64 va.stop va.start)).map
      fun r => (va, r)
  else
    let va := { va with pstart := pbase }
    (vmmAreaMapLn src s va).map fun r => (va, r)

/-- The loop of `vm_mm_init` over the used areas. -/
def mapUsed (src : PageSource) (blocks : Nat → List Nat) :
    List VmmArea → Tables → Option (Option Errno × List VmmArea × Tables)
  | [], s => some (none, [], s)
  | va :: rest, s =>
    if va.flags &&& vmNormal = 0 then
      (mapUsed src blocks rest s).map fun r => (r.1, va :: r.2.1, r.2.2)
    else
      (mapVmmArea src (blocks va.id) s va va.start).bind fun q =>
        match q.2.1 with
        | some err => some (some err, q.1 :: rest, q.2.2)
        | none => (mapUsed src blocks rest q.2.2).map fun r => (r.1, q.1 :: r.2.1, r.2.2)

/-- The body of the loop over the free areas: `none` for an area that is dropped. -/
def trimArea (va : VmmArea) : Option VmmArea :=
  let base := pageBalign va.start
  let stop := pageAlign va.stop
  let size := sub64 stop base
  if size < pageSize then none
  else if size ≠ sub64 va.stop va.start then some { va with start := base, stop := stop }
  else some va

/-- `vm_mm_init`. -/
def vmMmInit (src : PageSource) (blocks : Nat → List Nat) (vm : NativeVm) :
    Option (Option Errno × NativeVm) :=
  if vm.skipMmInit then some (none, vm)
  else
    (mapUsed src blocks vm.mm.used vm.tables).map fun r =>
      let mm := { vm.mm with used := r.2.1 }
      match r.1 with
      | some err => (some err, ⟨true, mm, r.2.2⟩)
      | none => (none, ⟨true, { mm with free := mm.free.filterMap trimArea }, r.2.2⟩)

/-! ## What the areas should be -/

/-- Both ends of the area lie in one page, and neither is the page's. -/
def InsidePage (va : VmmArea) : Prop :=
  va.start % pageSize ≠ 0 ∧ va.stop % pageSize ≠ 0 ∧ va.start / pageSize = va.stop / pageSize

instance (va : VmmArea) : Decidable (InsidePage va) := inferInstanceAs (Decidable (_ ∧ _))

/-- The two areas share an address. -/
def Overlap (a b : VmmArea) : Prop := ∃ x, (a.start ≤ x ∧ x < a.stop) ∧ b.start ≤ x ∧ x < b.stop

/-- A free area as it should be after `vm_mm_init`, which began with `mm`. -/
structure Trimmed (mm mm' : MmStruct) (a : VmmArea) : Prop where
  start_page : a.start % pageSize = 0
  stop_page : a.stop % pageSize = 0
  lt : a.start < a.stop
  inside : ∃ b ∈ mm.free, b.start ≤ a.start ∧ a.stop ≤ b.stop
  apart : ∀ u ∈ mm'.used, ¬ Overlap a u

variable {src : PageSource} {blocks : Nat → List Nat} {limit : Nat} {mm : MmStruct}

/-! ## The loops -/

variable {va : VmmArea}

theorem mapVmmArea_span {l : List Nat} {s : Tables} {pbase : Nat}
    {q : VmmArea × Ret} (h : mapVmmArea src l s va pbase = some q) : q.1.span = va.span := by
  rw [mapVmmArea] at h
  split at h
  · obtain ⟨r, -, rfl⟩ := Option.map_eq_some_iff.mp h
    rfl
  split at h
  · obtain ⟨r, -, rfl⟩ := Option.map_eq_some_iff.mp h
    rfl
  · obtain ⟨r, -, rfl⟩ := Option.map_eq_some_iff.mp h
    rfl

/-- Mapping leaves the areas where they are. -/
theorem mapUsed_spans {l l' : List VmmArea} {s s' : Tables} {err : Option Errno}
    (h : mapUsed src blocks l s = some (err, l', s')) :
    l'.map VmmArea.span = l.map VmmArea.span := by
  induction l generalizing s err l' s' with
  | nil =>
    cases h
    rfl
  | cons va rest ih =>
    rw [mapUsed] at h
    split at h
    · obtain ⟨⟨err₁, l₁, s₁⟩, hrec, heq⟩ := Option.map_eq_some_iff.mp h
      cases heq
      rw [List.map_cons, List.map_cons, ih hrec]
    · obtain ⟨q, hq, h⟩ := Option.bind_eq_some_iff.mp h
      split at h
      · cases h
        rw [List.map_cons, List.map_cons, mapVmmArea_span hq]
      · obtain ⟨⟨err₁, l₁, s₁⟩, hrec, heq⟩ := Option.map_eq_some_iff.mp h
        cases heq
        rw [List.map_cons, List.map_cons, mapVmmArea_span hq, ih hrec]

/-- **One free area**: an area inside a page comes back with its bounds swapped around, any other
one is cut to its pages, if it has any. -/
theorem trimArea_cases {a : VmmArea} (hle : va.start ≤ va.stop) (hlt : va.stop ≤ 2 ^ 40)
    (h : trimArea va = some a) :
    (InsidePage va ∧ a.stop < a.start) ∨
      ¬ InsidePage va ∧ a.start % pageSize = 0 ∧ a.stop % pageSize = 0 ∧ a.start < a.stop ∧
        va.start ≤ a.start ∧ a.stop ≤ va.stop := by
  rw [trimArea, pageBalign_eq (by simp only [pageSize]; omega)] at h
  split at h
  · cases h
  split at h
  · cases h
    simp only [InsidePage, pageAlign, sub64, pageSize] at *
    omega
  · cases h
    simp only [InsidePage, pageAlign, sub64, pageSize] at *
    omega

/-- An area inside a page is kept. -/
theorem trimArea_insidePage (hle : va.start ≤ va.stop) (hlt : va.stop ≤ 2 ^ 40)
    (hin : InsidePage va) : ∃ a, trimArea va = some a ∧ a.stop < a.start := by
  cases h : trimArea va with
  | none =>
    rw [trimArea, pageBalign_eq (by simp only [pageSize]; omega)] at h
    split at h
    · simp only [InsidePage, pageAlign, sub64, pageSize] at *
      omega
    · split at h <;> cases h
  | some a =>
    rcases trimArea_cases hle hlt h with ⟨-, hswap⟩ | ⟨hnot, -⟩
    · exact ⟨a, rfl, hswap⟩
    · exact absurd hin hnot

theorem AreaInv.apart (h : AreaInv limit mm) {a u : VmmArea} (ha : a ∈ mm.free) (hu : u ∈ mm.used) :
    ¬ Overlap a u := by
  rintro ⟨x, hxa, hxu⟩
  have hfree : 0 < cover (mm.free.map VmmArea.span) x :=
    cover_pos_iff.mpr ⟨_, List.mem_map_of_mem ha, hxa⟩
  have hused : 0 < cover (mm.used.map VmmArea.span) x :=
    cover_pos_iff.mpr ⟨_, List.mem_map_of_mem hu, hxu⟩
  have honce := h.once x
  rw [MmStruct.areas, List.map_append, cover_append] at honce
  split at honce <;> omega

/-- **After `vm_mm_init`** every free area is as it should be exactly when no free area was inside
a page. -/
theorem vm_mm_init_trims_iff (h : AreaInv limit mm) (hlimit : limit ≤ 2 ^ 40) {s : Tables}
    {vm' : NativeVm} (hinit : vmMmInit src blocks ⟨false, mm, s⟩ = some (none, vm')) :
    (∀ a ∈ vm'.mm.free, Trimmed mm vm'.mm a) ↔ ∀ a ∈ mm.free, ¬ InsidePage a := by
  have hbound : ∀ va ∈ mm.free, va.start ≤ va.stop ∧ va.stop ≤ 2 ^ 40 := by
    intro va hva
    obtain ⟨hle, hlt⟩ := h.le va (List.mem_append_left _ hva)
    exact ⟨hle, Nat.le_trans hlt hlimit⟩
  rw [vmMmInit] at hinit
  obtain ⟨⟨err, used, s'⟩, hmap, heq⟩ := Option.map_eq_some_iff.mp hinit
  cases err with
  | some err => cases heq
  | none =>
  cases heq
  simp only [List.mem_filterMap]
  constructor
  · intro hgood va hva hin
    obtain ⟨hle, hlt⟩ := hbound va hva
    obtain ⟨a, ha, hswap⟩ := trimArea_insidePage hle hlt hin
    have := (hgood a ⟨va, hva, ha⟩).lt
    omega
  · rintro hnot a ⟨va, hva, ha⟩
    obtain ⟨hle, hlt⟩ := hbound va hva
    rcases trimArea_cases hle hlt ha with ⟨hin, -⟩ | ⟨-, h1, h2, h3, h4, h5⟩
    · exact absurd hin (hnot va hva)
    refine ⟨h1, h2, h3, ⟨va, hva, h4, h5⟩, ?_⟩
    rintro u hu ⟨x, hxa, hxu⟩
    -- the area in use is where one was before
    have hspan : u.span ∈ mm.used.map VmmArea.span := by
      rw [← mapUsed_spans hmap]
      exact List.mem_map_of_mem hu
    obtain ⟨u', hu', heq⟩ := List.mem_map.mp hspan
    obtain ⟨hstart, hstop⟩ := Prod.mk.inj heq
    refine AreaInv.apart h hva hu' ⟨x, by omega, ?_⟩
    rw [hstart, hstop]
    exact hxu

/-- 2MB of memory and two devices, the second at `dev`. -/
def nativeAreas (dev : Nat) : List AreaCall :=
  [.split 0x40000000 0x200000 0x704302, .split 0x9000000 0x10 0, .split dev 0x1000 0]

theorem areaInv_nativeAreas {dev : Nat} (hdev : dev < 2 ^ 40)
    (hrun : run (areaStep fun _ => true) (vmmAreaInit (fun _ => true) true) (nativeAreas dev) =
      some mm) : AreaInv (2 ^ 40) mm := by
  have hwrap : ∀ c ∈ nativeAreas dev, c.NoWrap := by
    simp only [nativeAreas, List.mem_cons, List.not_mem_nil, or_false, forall_eq_or_imp, forall_eq,
      AreaCall.NoWrap]
    omega
  exact run_invariant (fun _ c mm' hi hc hs => (areaCall_spec hi (vmIpaSize_le true) c hc).2 mm' hs)
    (AreaInv.init rfl true) (along_of_forall hwrap _) hrun

/-- The rest of the page of the first device, and the pages up to the second one. -/
theorem vm_mm_init_trims_devices :
    ∃ mm vm', run (areaStep fun _ => true) (vmmAreaInit (fun _ => true) true)
        (nativeAreas 0x9002000) = some mm ∧
      vmMmInit Stage2.pagePool (fun _ => []) ⟨false, mm, noTables⟩ = some (none, vm') ∧
      ∀ a ∈ vm'.mm.free, Trimmed mm vm'.mm a := by
  refine exists_found_two (P := fun mm _ => ∀ a ∈ mm.free, ¬ InsidePage a)
    (fun mm vm' hmm hinit hout => ?_) (by decide +kernel)
  have hinv := areaInv_nativeAreas (by decide) hmm
  exact (vm_mm_init_trims_iff hinv (Nat.le_refl _) hinit).mpr hout

/-- Sixteen bytes between two devices of one page become a free area that ends before it
starts. -/
theorem vm_mm_init_swaps :
    ∃ mm vm', run (areaStep fun _ => true) (vmmAreaInit (fun _ => true) true)
        (nativeAreas 0x9000020) = some mm ∧
      vmMmInit Stage2.pagePool (fun _ => []) ⟨false, mm, noTables⟩ = some (none, vm') ∧
      ∃ a ∈ vm'.mm.free, a.start = 0x9001000 ∧ a.stop = 0x9000000 := by
  exact exists_found_two (fun _ _ _ _ hswap => hswap) (by decide +kernel)

end Minos.VmMmInit
