import Minos.Core.Errno
import Minos.Virt.GuestMapping

/-!
# Copying from a guest

`copy_from_guest` reads a range of a guest's virtual addresses, a page's worth at a time: each piece
is translated once, at its first byte, and its page is mapped into the host while it is copied.

The pieces are 4096 bytes long wherever they start. A piece that does not start at a page reads on
behind the page it has translated and mapped, in the page that comes next in physical memory.
-/

namespace Minos.GuestCopy

open Minos.Lib Minos.Vmm

/-- What the host does for the `k`-th piece: the result of `create_host_mapping`, and the pages that
are mapped besides. The host maps every page at its own physical address. -/
structure HostView where
  map : Nat → Option Errno
  mapped : Nat → Nat → Bool

/-- `guest_va_to_pa`, where `page` is the translation of pages. -/
def guestVaToPa (page : Nat → Nat) (va : Nat) : Nat :=
  page (va / pageSize) * pageSize + va % pageSize

/-- The length of a piece. -/
def copySize (start left : Nat) : Nat :=
  let size := sub64 (pageBalign start) (pageAlign start)
  let size := if size = 0 then pageSize else size
  if size > left then left else size

/-- A byte that the host reads at `v` while the page `window` is mapped: its physical address, or
`none` for an abort. -/
def readVa (host : HostView) (k window v : Nat) : Option Nat :=
  if v / pageSize = window ∨ host.mapped k (v / pageSize) then some v else none

/-- The bytes that `memcpy` reads, in order. -/
def memcpy (host : HostView) (k window : Nat) : Nat → Nat → Option (List Nat)
  | _, 0 => some []
  | v, n + 1 =>
    (readVa host k window v).bind fun a => (memcpy host k window (v + 1) n).map (a :: ·)

/-- The loop of `copy_from_guest`: its result, and the physical addresses read. -/
def copyLoop (page : Nat → Nat) (host : HostView) :
    Nat → Nat → Nat → Nat → Option (Option Errno × List Nat)
  | 0, _, _, _ => none
  | fuel + 1, k, start, left =>
    if left = 0 then some (none, [])
    else
      let size := copySize start left
      let pa := guestVaToPa page start
      match host.map k with
      | some err => some (some err, [])
      | none =>
        (memcpy host k (pa / pageSize) pa size).bind fun read =>
          (copyLoop page host fuel (k + 1) (u64 (start + size)) (left - size)).map fun r =>
            (r.1, read ++ r.2)

/-- `copy_from_guest`. Every piece has a byte, so the fuel is enough. -/
def copyFromGuest (page : Nat → Nat) (host : HostView) (src size : Nat) :
    Option (Option Errno × List Nat) :=
  copyLoop page host (size + 1) 0 src size

/-! ## What a copy should do -/

/-- A copy that succeeds has read the bytes that the guest sees, whatever the memory holds, and no
page that is not the guest's there. -/
def Copies (page : Nat → Nat) (host : HostView) (src size : Nat) : Prop :=
  ∀ reads, copyFromGuest page host src size = some (none, reads) →
    (∀ mem : Nat → UInt8,
      reads.map mem = (List.range size).map fun i => mem (guestVaToPa page (u64 (src + i)))) ∧
    ∀ a ∈ reads, ∃ i < size, a / pageSize = page (u64 (src + i) / pageSize)

/-- Pages that follow each other in the range follow each other in physical memory. -/
def Contiguous (page : Nat → Nat) (src size : Nat) : Prop :=
  ∀ i, i + 1 < size → u64 (src + i) % pageSize = pageSize - 1 →
    page (u64 (src + i + 1) / pageSize) = page (u64 (src + i) / pageSize) + 1

/-! ## What is read -/

variable {page : Nat → Nat} {host : HostView} {src size start left : Nat}

theorem copySize_eq (start left : Nat) : copySize start left = min pageSize left := by
  have hsize : sub64 (pageBalign start) (pageAlign start) = 0 ∨
      sub64 (pageBalign start) (pageAlign start) = pageSize := by
    simp only [pageBalign, pageAlign, sub64, u64, pageSize]
    omega
  rw [copySize]
  split <;> split <;> omega

theorem memcpy_reads {k window v n : Nat} {l : List Nat}
    (h : memcpy host k window v n = some l) : l = (List.range n).map (v + ·) := by
  induction n generalizing v l with
  | zero =>
    cases h
    rfl
  | succ n ih =>
    rw [memcpy, readVa] at h
    split at h
    · obtain ⟨rest, hrest, rfl⟩ := Option.map_eq_some_iff.mp h
      rw [ih hrest, List.range_succ_eq_map, List.map_cons, List.map_map]
      congr 1
      exact List.map_congr_left fun i _ => by simp only [Function.comp_apply]; omega
    · cases h

/-- The physical address read for the `i`-th byte: that of its piece, and on. -/
def readAt (page : Nat → Nat) (src i : Nat) : Nat :=
  guestVaToPa page (u64 (src + i / pageSize * pageSize)) + i % pageSize

variable {i : Nat}

theorem readAt_of_lt (hstart : start < 2 ^ 64) (hi : i < pageSize) :
    readAt page start i = guestVaToPa page start + i := by
  rw [readAt, Nat.div_eq_of_lt hi, Nat.zero_mul, Nat.add_zero, u64_of_lt hstart,
    Nat.mod_eq_of_lt hi]

theorem readAt_add (start i : Nat) :
    readAt page start (pageSize + i) = readAt page (u64 (start + pageSize)) i := by
  have hsum : u64 (start + (pageSize + i) / pageSize * pageSize) =
      u64 (u64 (start + pageSize) + i / pageSize * pageSize) := by
    simp only [u64, pageSize]
    omega
  rw [readAt, readAt, hsum, Nat.add_mod_left]

/-- The first piece and the rest. -/
theorem reads_split (hstart : start < 2 ^ 64) :
    (List.range left).map (readAt page start) =
      (List.range (min pageSize left)).map (guestVaToPa page start + ·) ++
        (List.range (left - min pageSize left)).map
          (readAt page (u64 (start + min pageSize left))) := by
  have hfirst : ∀ n ≤ pageSize, (List.range n).map (readAt page start) =
      (List.range n).map (guestVaToPa page start + ·) := by
    intro n hn
    refine List.map_congr_left fun i hi => readAt_of_lt hstart ?_
    exact Nat.lt_of_lt_of_le (List.mem_range.mp hi) hn
  by_cases hle : left ≤ pageSize
  · rw [Nat.min_eq_right hle, Nat.sub_self, hfirst left hle, List.range_zero, List.map_nil,
      List.append_nil]
  · have hge : pageSize ≤ left := by omega
    rw [Nat.min_eq_left hge]
    nth_rewrite 1 [← Nat.add_sub_cancel' hge]
    rw [List.range_add, List.map_append, List.map_map, hfirst pageSize (Nat.le_refl _)]
    exact congrArg _ (List.map_congr_left fun i _ => readAt_add start i)

/-- **What a copy that succeeds has read.** -/
theorem copyLoop_reads {fuel k : Nat} {reads : List Nat} (hstart : start < 2 ^ 64)
    (h : copyLoop page host fuel k start left = some (none, reads)) :
    reads = (List.range left).map (readAt page start) := by
  induction fuel generalizing k start left reads with
  | zero => cases h
  | succ fuel ih =>
    rw [copyLoop] at h
    split at h
    · rename_i hleft
      cases h
      rw [hleft]
      rfl
    simp only at h
    split at h
    · cases h
    · obtain ⟨read, hread, h⟩ := Option.bind_eq_some_iff.mp h
      obtain ⟨⟨err, rest⟩, hrest, heq⟩ := Option.map_eq_some_iff.mp h
      cases heq
      rw [copySize_eq] at hread hrest
      rw [memcpy_reads hread, ih (u64_lt _) hrest, ← reads_split hstart]

/-- A host that has everything mapped. -/
def openHost : HostView := ⟨fun _ => none, fun _ _ => true⟩

theorem memcpy_openHost (k window v n : Nat) :
    ∃ l, memcpy openHost k window v n = some l := by
  induction n generalizing v with
  | zero => exact ⟨[], rfl⟩
  | succ n ih =>
    obtain ⟨l, hl⟩ := ih (v + 1)
    exact ⟨v :: l, by simp [memcpy, readVa, openHost] at hl ⊢; exact hl⟩

theorem copyLoop_openHost (page : Nat → Nat) (fuel k start left : Nat) (hfuel : left < fuel) :
    ∃ reads, copyLoop page openHost fuel k start left = some (none, reads) := by
  induction fuel generalizing k start left with
  | zero => omega
  | succ fuel ih =>
    rw [copyLoop]
    split
    · exact ⟨[], rfl⟩
    have hpage : 0 < pageSize := by decide
    obtain ⟨read, hread⟩ := memcpy_openHost k (guestVaToPa page start / pageSize)
      (guestVaToPa page start) (copySize start left)
    obtain ⟨rest, hrest⟩ := ih (k + 1) (u64 (start + copySize start left))
      (left - copySize start left) (by rw [copySize_eq]; omega)
    refine ⟨read ++ rest, ?_⟩
    simp only [openHost] at hread hrest ⊢
    rw [hread, Option.bind_some, hrest]
    rfl

/-! ## When it is what the guest sees -/

/-- Lists of addresses are told apart by memory. -/
theorem eq_of_forall_mem {l l' : List Nat} (h : ∀ mem : Nat → UInt8, l.map mem = l'.map mem) :
    l = l' := by
  induction l generalizing l' with
  | nil =>
    have := h fun _ => 0
    exact (List.map_eq_nil_iff.mp this.symm).symm
  | cons a l ih =>
    cases l' with
    | nil => cases h fun _ => 0
    | cons b l' =>
      have hhead := (List.cons.inj (h fun x => if x = a then 1 else 0)).1
      have hab : b = a := by
        by_contra hne
        simp [hne] at hhead
      rw [hab, ih fun mem => (List.cons.inj (h mem)).2]

theorem readAt_of_same (hin : src % pageSize + i % pageSize < pageSize) :
    readAt page src i = guestVaToPa page (u64 (src + i)) := by
  have hpage : u64 (src + i / pageSize * pageSize) / pageSize = u64 (src + i) / pageSize := by
    simp only [u64, pageSize] at *
    omega
  have hoff : u64 (src + i / pageSize * pageSize) % pageSize + i % pageSize =
      u64 (src + i) % pageSize := by
    simp only [u64, pageSize] at *
    omega
  rw [readAt, guestVaToPa, guestVaToPa, hpage, Nat.add_assoc, hoff]

/-- Behind it the next page must be the next one in physical memory, too. -/
theorem readAt_of_next (hout : pageSize ≤ src % pageSize + i % pageSize) :
    readAt page src i = guestVaToPa page (u64 (src + i)) ↔
      page (u64 (src + i) / pageSize) =
        page (u64 (src + i / pageSize * pageSize) / pageSize) + 1 := by
  have hoff : u64 (src + i / pageSize * pageSize) % pageSize + i % pageSize =
      u64 (src + i) % pageSize + pageSize := by
    simp only [u64, pageSize] at *
    omega
  rw [readAt, guestVaToPa, guestVaToPa, Nat.add_assoc, hoff]
  simp only [pageSize]
  omega

/-- **The two addresses of every byte** are the same from a page on, or over pages that follow each
other. -/
theorem readAt_eq_iff :
    (∀ i < size, readAt page src i = guestVaToPa page (u64 (src + i))) ↔
      src % pageSize = 0 ∨ Contiguous page src size := by
  constructor
  · intro hall
    refine or_iff_not_imp_left.mpr fun h0 i hi hlast => ?_
    -- the byte after the last one of a page is behind the page of its piece
    have hout : pageSize ≤ src % pageSize + (i + 1) % pageSize := by
      simp only [u64, pageSize] at *
      omega
    have hpage : u64 (src + (i + 1) / pageSize * pageSize) / pageSize =
        u64 (src + i) / pageSize := by
      simp only [u64, pageSize] at *
      omega
    have hnext := (readAt_of_next hout).mp (hall (i + 1) hi)
    rw [hpage] at hnext
    exact hnext
  · intro hcond i hi
    by_cases hin : src % pageSize + i % pageSize < pageSize
    · exact readAt_of_same hin
    have hout : pageSize ≤ src % pageSize + i % pageSize := by omega
    refine (readAt_of_next hout).mpr ?_
    rcases hcond with h0 | hcont
    · simp only [pageSize] at *
      omega
    -- the last byte of the page in which the piece starts
    have hlast := hcont (i / pageSize * pageSize + (pageSize - src % pageSize) - 1)
    have hpage : u64 (src + (i / pageSize * pageSize + (pageSize - src % pageSize) - 1)) /
        pageSize = u64 (src + i / pageSize * pageSize) / pageSize := by
      simp only [u64, pageSize] at *
      omega
    have hpage' : u64 (src + (i / pageSize * pageSize + (pageSize - src % pageSize) - 1) + 1) /
        pageSize = u64 (src + i) / pageSize := by
      simp only [u64, pageSize] at *
      omega
    rw [hpage, hpage'] at hlast
    refine hlast ?_ ?_
    · simp only [pageSize] at *
      omega
    · simp only [u64, pageSize] at *
      omega

/-- **When `copy_from_guest` is right**: from a page on, or over pages that follow each other in
physical memory. -/
theorem copy_from_guest_iff (page : Nat → Nat) (src size : Nat) (hsrc : src < 2 ^ 64) :
    (∀ host, Copies page host src size) ↔ src % pageSize = 0 ∨ Contiguous page src size := by
  rw [← readAt_eq_iff]
  constructor
  · intro hcopies i hi
    obtain ⟨reads, hreads⟩ :=
      copyLoop_openHost page (size + 1) 0 src size (Nat.lt_succ_self size)
    have hmem := (hcopies openHost reads hreads).1
    rw [copyLoop_reads hsrc hreads] at hmem
    have hall : (List.range size).map (readAt page src) =
        (List.range size).map fun i => guestVaToPa page (u64 (src + i)) := by
      refine eq_of_forall_mem fun mem => (hmem mem).trans ?_
      rw [List.map_map]
      rfl
    exact List.map_inj_left.mp hall i (List.mem_range.mpr hi)
  · intro hall host reads hreads
    have heq := copyLoop_reads hsrc hreads
    have hlist : (List.range size).map (readAt page src) =
        (List.range size).map fun i => guestVaToPa page (u64 (src + i)) :=
      List.map_congr_left fun i hi => hall i (List.mem_range.mp hi)
    rw [hlist] at heq
    subst heq
    refine ⟨fun mem => by rw [List.map_map]; rfl, ?_⟩
    intro a ha
    obtain ⟨i, hi, rfl⟩ := List.mem_map.mp ha
    refine ⟨i, List.mem_range.mp hi, ?_⟩
    simp only [guestVaToPa, pageSize]
    omega

/-- Page 1 at 1MB, all others at 5MB. -/
def apartPages (p : Nat) : Nat := if p = 1 then 0x100 else 0x500

/-- Two pages that do not follow each other, from the first one's start. -/
theorem copy_from_guest_whole_pages :
    apartPages 2 ≠ apartPages 1 + 1 ∧ ∀ host, Copies apartPages host 0x1000 0x1800 :=
  ⟨by decide, (copy_from_guest_iff apartPages 0x1000 0x1800 (by decide)).mpr (.inl (by decide))⟩

/-- Two bytes, the last one of a page and the first one of the next: the second one is read from the
physical page behind the first. -/
theorem copy_from_guest_crosses :
    copyFromGuest apartPages openHost 0x1fff 2 = some (none, [0x100fff, 0x101000]) ∧
      guestVaToPa apartPages 0x2000 = 0x500000 ∧ ¬ Copies apartPages openHost 0x1fff 2 := by
  have hrun : copyFromGuest apartPages openHost 0x1fff 2 = some (none, [0x100fff, 0x101000]) := by
    decide
  refine ⟨hrun, by decide, fun hcopies => ?_⟩
  obtain ⟨i, hi, hpage⟩ := (hcopies _ hrun).2 0x101000 (by decide)
  have hpages : ∀ p, apartPages p = 0x100 ∨ apartPages p = 0x500 := by
    intro p
    rw [apartPages]
    split
    · exact .inl rfl
    · exact .inr rfl
  rcases hpages (u64 (0x1fff + i) / pageSize) with h | h
  · rw [h] at hpage
    exact absurd hpage (by decide)
  · rw [h] at hpage
    exact absurd hpage (by decide)

end Minos.GuestCopy
