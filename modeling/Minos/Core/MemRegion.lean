import Minos.Lib.Run
import Minos.Lib.Word
import Mathlib.Data.List.Pairwise

/-!
# Memory regions

The list of memory regions of `core/mem_region.c`, which boot fills with the banks of memory
(`add_memory_region`) and then cuts up (`split_memory_region`). A region has a type and the
vmid of the VM it belongs to.

A split cuts its range out of the first region that holds it. There is one exception: a range
that is a whole region changes the type of that region and not its vmid. `mapped_sound`,
`mapped_keep` and `mapped_gain` say what a split does to the memory of a vmid, and
`within_split` that no vmid loses its last region; `mapped_run_cases` and `mapped_run_keep` are
the same for runs of splits. `Split.Right` is what a split is for, with the types and the
disjointness of the regions; it holds with the same exception.
-/

namespace Minos.MemRegion

open Minos.Lib

inductive RegionType
  | normal
  | dma
  | rsv
  | vm
  | dtb
  | kernel
  | ramdisk
  deriving DecidableEq, Repr

/-- `struct memory_region` -/
structure Region where
  type : RegionType
  vmid : Nat
  base : Nat
  size : Nat
  deriving DecidableEq, Repr

def maxMemoryRegion : Nat := 16

/-- Where a region ends. -/
def Region.stop (r : Region) : Nat := u64 (r.base + r.size)

def Region.Holds (r : Region) (x : Nat) : Prop := r.base ≤ x ∧ x < r.stop

instance (r : Region) (x : Nat) : Decidable (r.Holds x) := inferInstanceAs (Decidable (_ ∧ _))

/-- What `add_memory_region` takes for a conflict. -/
def Region.Conflicts (r : Region) (base size : Nat) : Prop :=
  ¬ (sub64 r.stop 1 < base ∨ u64 (base + size) < r.base)

instance (r : Region) (base size : Nat) : Decidable (r.Conflicts base size) :=
  inferInstanceAs (Decidable (¬ _))

/-- `add_memory_region`. `none` is the assertion of `alloc_memory_region`. -/
def addMemoryRegion (l : List Region) (new : Region) : Option (List Region) :=
  if new.size = 0 then some l
  else if ∃ r ∈ l, r.Conflicts new.base new.size then some l
  else if l.length < maxMemoryRegion then some (l ++ [new])
  else none

/-! ## Splits -/

/-- The arguments of `split_memory_region`. -/
structure Split where
  base : Nat
  size : Nat
  type : RegionType
  vmid : Nat
  deriving DecidableEq, Repr

def Split.newEnd (o : Split) : Nat := u64 (o.base + o.size)

/-- The range does not wrap. -/
def Split.Fits (o : Split) : Prop := o.base + o.size < 2 ^ 64

def Split.Covers (o : Split) (x : Nat) : Prop := o.base ≤ x ∧ x < o.base + o.size

instance (o : Split) (x : Nat) : Decidable (o.Covers x) := inferInstanceAs (Decidable (_ ∧ _))

/-- The region the range is cut out of; the loop takes the first. -/
def Split.Hits (o : Split) (r : Region) : Prop :=
  ¬ (r.stop < o.base ∨ o.base < r.base ∨ r.stop < o.newEnd)

instance (o : Split) (r : Region) : Decidable (o.Hits r) := inferInstanceAs (Decidable (¬ _))

/-- The range is the whole region. -/
def Split.Whole (o : Split) (r : Region) : Prop := o.base = r.base ∧ o.newEnd = r.stop

instance (o : Split) (r : Region) : Decidable (o.Whole r) := inferInstanceAs (Decidable (_ ∧ _))

def Split.region (o : Split) : Region := ⟨o.type, o.vmid, o.base, o.size⟩

/-- What becomes of the region, and the regions that are new. -/
def Split.cut (o : Split) (r : Region) : Region × List Region :=
  if o.Whole r then ({ r with type := o.type }, [])
  else if o.base = r.base ∧ o.newEnd < r.stop then
    ({ r with base := o.newEnd, size := sub64 r.size o.size }, [o.region])
  else if r.base < o.base ∧ o.newEnd < r.stop then
    ({ r with size := o.base - r.base },
      [{ r with base := o.newEnd, size := r.stop - o.newEnd }, o.region])
  else if r.base < o.base ∧ r.stop = o.newEnd then
    ({ r with size := sub64 r.size o.size }, [o.region])
  else (r, [])

def Split.loop (o : Split) : List Region → Option (List Region × List Region)
  | [] => none
  | r :: rest =>
    if o.Hits r then some ((o.cut r).1 :: rest, (o.cut r).2)
    else (o.loop rest).map fun p => (r :: p.1, p.2)

/-- `split_memory_region`. `none` is its `panic`, or the assertion of `alloc_memory_region`. -/
def splitMemoryRegion (l : List Region) (o : Split) : Option (List Region) :=
  if o.size = 0 then some l
  else
    (o.loop l).bind fun p =>
      if l.length + p.2.length ≤ maxMemoryRegion then some (p.1 ++ p.2) else none

/-! ## The pieces of a region -/

/-- A region after a split, with the new ones. -/
def Split.pieces (o : Split) (r : Region) : List Region := (o.cut r).1 :: (o.cut r).2

section Pieces

variable {o : Split} {r piece : Region} {x : Nat}

theorem Region.stop_lt (r : Region) : r.stop < 2 ^ 64 := u64_lt _

theorem u64_front (a b c : Nat) : u64 (u64 (a + b) + sub64 c b) = u64 (a + c) := by
  unfold u64 sub64
  omega

theorem u64_back {a b c d : Nat} (h : u64 (a + c) = u64 (d + b)) (hd : d < 2 ^ 64) :
    u64 (a + sub64 c b) = d := by
  unfold u64 sub64 at *
  omega

/-- A region that is hit and not whole is cut in one of three ways. -/
theorem Split.cut_cases (h : o.Hits r) (hw : ¬ o.Whole r) :
    (o.base = r.base ∧ o.newEnd < r.stop ∧
      o.pieces r = [{ r with base := o.newEnd, size := sub64 r.size o.size }, o.region]) ∨
    (r.base < o.base ∧ o.newEnd < r.stop ∧
      o.pieces r = [{ r with size := o.base - r.base },
        { r with base := o.newEnd, size := r.stop - o.newEnd }, o.region]) ∨
    (r.base < o.base ∧ r.stop = o.newEnd ∧
      o.pieces r = [{ r with size := sub64 r.size o.size }, o.region]) := by
  unfold Split.pieces Split.cut
  rw [if_neg hw]
  unfold Split.Hits Split.Whole at *
  by_cases h1 : o.base = r.base
  · have h2 : o.newEnd < r.stop := by omega
    exact Or.inl ⟨h1, h2, by rw [if_pos ⟨h1, h2⟩]⟩
  · have h3 : r.base < o.base := by omega
    rw [if_neg fun h => h1 h.1]
    by_cases h2 : o.newEnd < r.stop
    · exact Or.inr (Or.inl ⟨h3, h2, by rw [if_pos ⟨h3, h2⟩]⟩)
    · have h4 : r.stop = o.newEnd := by omega
      exact Or.inr (Or.inr ⟨h3, h4, by rw [if_neg (fun h => h2 h.2), if_pos ⟨h3, h4⟩]⟩)

theorem Split.pieces_whole (h : o.Whole r) : o.pieces r = [{ r with type := o.type }] := by
  rw [Split.pieces, Split.cut, if_pos h]

/-- `piece` is the part of `r` in front of the range. -/
structure Split.Front (o : Split) (r piece : Region) : Prop where
  lt : r.base < o.base
  vmid : piece.vmid = r.vmid
  holds : ∀ x, piece.Holds x ↔ r.base ≤ x ∧ x < o.base

/-- `piece` is the part of `r` behind the range. -/
structure Split.Back (o : Split) (r piece : Region) : Prop where
  lt : o.newEnd < r.stop
  vmid : piece.vmid = r.vmid
  holds : ∀ x, piece.Holds x ↔ o.newEnd ≤ x ∧ x < r.stop

theorem Split.front_of_stop (hlt : r.base < o.base) (hv : piece.vmid = r.vmid)
    (hb : piece.base = r.base) (hs : piece.stop = o.base) : o.Front r piece :=
  ⟨hlt, hv, fun x => by rw [Region.Holds, hb, hs]⟩

theorem Split.back_of_stop (hlt : o.newEnd < r.stop) (hv : piece.vmid = r.vmid)
    (hb : piece.base = o.newEnd) (hs : piece.stop = r.stop) : o.Back r piece :=
  ⟨hlt, hv, fun x => by rw [Region.Holds, hb, hs]⟩

/-- A cut leaves what is in front of the range and what is behind it, and adds the range. -/
theorem Split.pieces_eq (h : o.Hits r) (hw : ¬ o.Whole r) :
    ∃ rest, o.pieces r = rest ++ [o.region] ∧
      (∀ piece ∈ rest, o.Front r piece ∨ o.Back r piece) ∧
      (r.base < o.base → ∃ piece ∈ rest, o.Front r piece) ∧
      (o.newEnd < r.stop → ∃ piece ∈ rest, o.Back r piece) := by
  have hstop := r.stop_lt
  have hbase : o.base < 2 ^ 64 := by
    unfold Split.Hits at h
    omega
  rcases o.cut_cases h hw with ⟨h1, h2, heq⟩ | ⟨h1, h2, heq⟩ | ⟨h1, h2, heq⟩
  · have hback : o.Back r { r with base := o.newEnd, size := sub64 r.size o.size } := by
      refine Split.back_of_stop h2 rfl rfl ?_
      show u64 (u64 (o.base + o.size) + sub64 r.size o.size) = u64 (r.base + r.size)
      rw [u64_front, h1]
    exact ⟨[_], heq, by simp [hback], fun h => by omega, fun _ => ⟨_, by simp, hback⟩⟩
  · have hfront : o.Front r { r with size := o.base - r.base } := by
      refine Split.front_of_stop h1 rfl rfl ?_
      show u64 (r.base + (o.base - r.base)) = o.base
      rw [Nat.add_sub_cancel' (by omega), u64_of_lt hbase]
    have hback : o.Back r { r with base := o.newEnd, size := r.stop - o.newEnd } := by
      refine Split.back_of_stop h2 rfl rfl ?_
      show u64 (o.newEnd + (r.stop - o.newEnd)) = r.stop
      rw [Nat.add_sub_cancel' (by omega), u64_of_lt hstop]
    exact ⟨[_, _], heq, by simp [hfront, hback], fun _ => ⟨_, by simp, hfront⟩,
      fun _ => ⟨_, by simp, hback⟩⟩
  · have hfront : o.Front r { r with size := sub64 r.size o.size } :=
      Split.front_of_stop h1 rfl rfl (u64_back h2 hbase)
    exact ⟨[_], heq, by simp [hfront], fun _ => ⟨_, by simp, hfront⟩, fun h => by omega⟩

theorem Split.holds_region (hfit : o.Fits) : o.region.Holds x ↔ o.Covers x := by
  unfold Region.Holds Region.stop Split.Covers
  rw [show o.region.base + o.region.size = o.base + o.size from rfl, u64_of_lt hfit]
  rfl

end Pieces

/-! ## The memory of a vmid -/

/-- A region of the vmid `k` holds `x`. -/
def Mapped (l : List Region) (k x : Nat) : Prop := ∃ r ∈ l, r.vmid = k ∧ r.Holds x

instance (l : List Region) (k x : Nat) : Decidable (Mapped l k x) :=
  inferInstanceAs (Decidable (∃ r ∈ l, _))

section Mapped

variable {o : Split} {r : Region} {l l' : List Region} {k x : Nat}

/-- The loop stops at the first region the range hits. -/
theorem loop_cases {p : List Region × List Region} (h : o.loop l = some p) :
    ∃ front r back, l = front ++ r :: back ∧ l.find? (o.Hits ·) = some r ∧ o.Hits r ∧
      p = (front ++ (o.cut r).1 :: back, (o.cut r).2) := by
  induction l generalizing p with
  | nil => cases h
  | cons r rest ih =>
    rw [Split.loop] at h
    by_cases hr : o.Hits r
    · rw [if_pos hr] at h
      cases h
      exact ⟨[], r, rest, rfl, by simp [hr], hr, rfl⟩
    · rw [if_neg hr, Option.map_eq_some_iff] at h
      obtain ⟨p, hp, rfl⟩ := h
      obtain ⟨front, r', back, rfl, hfind, hr', rfl⟩ := ih hp
      exact ⟨r :: front, r', back, rfl, by simpa [hr] using hfind, hr', rfl⟩

theorem split_cases (hsize : o.size ≠ 0) (h : splitMemoryRegion l o = some l') :
    ∃ (r : Region) (others : List Region), l.find? (o.Hits ·) = some r ∧ o.Hits r ∧
      (∀ r', r' ∈ l ↔ r' = r ∨ r' ∈ others) ∧ ∀ r', r' ∈ l' ↔ r' ∈ o.pieces r ∨ r' ∈ others := by
  rw [splitMemoryRegion, if_neg hsize, Option.bind_eq_some_iff] at h
  obtain ⟨p, hp, h⟩ := h
  obtain ⟨front, r, back, rfl, hfind, hr, rfl⟩ := loop_cases hp
  split at h
  · cases h
    refine ⟨r, front ++ back, hfind, hr, fun r' => ?_, fun r' => ?_⟩ <;>
      simp only [Split.pieces, List.mem_append, List.mem_cons] <;> tauto
  · cases h

/-- The region hit is larger than the range, or has its vmid already. -/
def Split.Takes (o : Split) (l : List Region) : Prop :=
  ∃ r, l.find? (o.Hits ·) = some r ∧ (o.Whole r → r.vmid = o.vmid)

theorem split_empty (hsize : o.size = 0) (h : splitMemoryRegion l o = some l') : l' = l := by
  rw [splitMemoryRegion, if_pos hsize] at h
  exact (Option.some.inj h).symm

theorem split_mapped (hsize : o.size ≠ 0) (h : splitMemoryRegion l o = some l') :
    ∃ (r : Region) (others : List Region), l.find? (o.Hits ·) = some r ∧ o.Hits r ∧
      (∀ k x, Mapped l k x ↔ (r.vmid = k ∧ r.Holds x) ∨ Mapped others k x) ∧
      ∀ k x, Mapped l' k x ↔ Mapped (o.pieces r) k x ∨ Mapped others k x := by
  obtain ⟨r, others, hfind, hr, hl, hl'⟩ := split_cases hsize h
  refine ⟨r, others, hfind, hr, fun k x => ?_, fun k x => ?_⟩
  · simp only [Mapped, hl, or_and_right, exists_or, exists_eq_left]
  · simp only [Mapped, hl', or_and_right, exists_or]

theorem mapped_whole (hw : o.Whole r) : Mapped (o.pieces r) k x ↔ r.vmid = k ∧ r.Holds x := by
  rw [Split.pieces_whole hw]
  simp only [Mapped, List.mem_singleton, exists_eq_left]
  rfl

/-- The memory of the pieces is the region's outside the range, and the split's inside. -/
theorem mapped_pieces (hfit : o.Fits) (h : o.Hits r) (hw : ¬ o.Whole r) :
    Mapped (o.pieces r) k x ↔
      (r.vmid = k ∧ r.Holds x ∧ ¬ o.Covers x) ∨ (o.vmid = k ∧ o.Covers x) := by
  obtain ⟨rest, heq, hrest, hfront, hback⟩ := o.pieces_eq h hw
  have hend : o.newEnd = o.base + o.size := u64_of_lt hfit
  unfold Split.Hits at h
  constructor
  · rintro ⟨piece, hpiece, hk, hx⟩
    rw [heq, List.mem_append, List.mem_singleton] at hpiece
    rcases hpiece with hpiece | rfl
    · left
      unfold Region.Holds Split.Covers
      rcases hrest piece hpiece with hp | hp
      · rw [hp.holds] at hx
        exact ⟨hp.vmid ▸ hk, by omega, by omega⟩
      · rw [hp.holds] at hx
        exact ⟨hp.vmid ▸ hk, by omega, by omega⟩
    · exact Or.inr ⟨hk, (Split.holds_region hfit).mp hx⟩
  · rintro (⟨hk, hx, hout⟩ | ⟨hk, hx⟩)
    · unfold Region.Holds at hx
      unfold Split.Covers at hout
      by_cases hlt : x < o.base
      · obtain ⟨piece, hpiece, hp⟩ := hfront (by omega)
        exact ⟨piece, heq ▸ List.mem_append_left _ hpiece, hp.vmid.trans hk,
          (hp.holds x).mpr ⟨hx.1, hlt⟩⟩
      · obtain ⟨piece, hpiece, hp⟩ := hback (by omega)
        exact ⟨piece, heq ▸ List.mem_append_left _ hpiece, hp.vmid.trans hk,
          (hp.holds x).mpr ⟨by omega, hx.2⟩⟩
    · exact ⟨o.region, heq ▸ List.mem_append_right _ (List.mem_singleton_self _), hk,
        (Split.holds_region hfit).mpr hx⟩

/-- A range that wraps takes nothing out of its region. -/
theorem mapped_pieces_wrap (hwrap : ¬ o.Fits) (hlt : o.size < 2 ^ 64) (h : o.Hits r)
    (hx : r.Holds x) : Mapped (o.pieces r) r.vmid x := by
  by_cases hw : o.Whole r
  · exact (mapped_whole hw).mpr ⟨rfl, hx⟩
  obtain ⟨rest, heq, -, hfront, hback⟩ := o.pieces_eq h hw
  have hend : o.newEnd < o.base := by
    have hstop := r.stop_lt
    unfold Split.Fits at hwrap
    unfold Split.Hits Split.newEnd at h
    unfold Split.newEnd u64 at *
    omega
  unfold Region.Holds at hx
  by_cases hbase : x < o.base
  · obtain ⟨piece, hpiece, hp⟩ := hfront (by omega)
    exact ⟨piece, heq ▸ List.mem_append_left _ hpiece, hp.vmid, (hp.holds x).mpr ⟨hx.1, hbase⟩⟩
  · obtain ⟨piece, hpiece, hp⟩ := hback (by omega)
    exact ⟨piece, heq ▸ List.mem_append_left _ hpiece, hp.vmid,
      (hp.holds x).mpr ⟨by omega, hx.2⟩⟩

/-- No vmid gets anything but that of the split, which gets nothing but the range. -/
theorem mapped_sound (hfit : o.Fits) (h : splitMemoryRegion l o = some l')
    (hk : Mapped l' k x) : Mapped l k x ∨ o.vmid = k ∧ o.Covers x ∧ o.Takes l := by
  by_cases hsize : o.size = 0
  · rw [split_empty hsize h] at hk
    exact Or.inl hk
  · obtain ⟨r, others, hfind, hr, hl, hl'⟩ := split_mapped hsize h
    rw [hl]
    rw [hl'] at hk
    by_cases hw : o.Whole r
    · rw [mapped_whole hw] at hk
      exact Or.inl hk
    · rw [mapped_pieces hfit hr hw] at hk
      rcases hk with (⟨hk, hx, -⟩ | ⟨hk, hx⟩) | hk
      · exact Or.inl (Or.inl ⟨hk, hx⟩)
      · exact Or.inr ⟨hk, hx, r, hfind, fun h => absurd h hw⟩
      · exact Or.inl (Or.inr hk)

/-- Memory outside the range stays where it is, and none is taken from the split's own vmid. -/
theorem mapped_keep (hfit : o.Fits) (h : splitMemoryRegion l o = some l')
    (hkeep : ¬ o.Covers x ∨ o.vmid = k) (hk : Mapped l k x) : Mapped l' k x := by
  by_cases hsize : o.size = 0
  · rw [split_empty hsize h]
    exact hk
  · obtain ⟨r, others, hfind, hr, hl, hl'⟩ := split_mapped hsize h
    rw [hl']
    rw [hl] at hk
    rcases hk with hk | hk
    · left
      by_cases hw : o.Whole r
      · exact (mapped_whole hw).mpr hk
      · rw [mapped_pieces hfit hr hw]
        by_cases hx : o.Covers x
        · exact Or.inr ⟨hkeep.resolve_left (not_not.mpr hx), hx⟩
        · exact Or.inl ⟨hk.1, hk.2, hx⟩
    · exact Or.inr hk

theorem mapped_keep_wrap (hwrap : ¬ o.Fits) (hlt : o.size < 2 ^ 64)
    (h : splitMemoryRegion l o = some l') (hk : Mapped l k x) : Mapped l' k x := by
  by_cases hsize : o.size = 0
  · rw [split_empty hsize h]
    exact hk
  · obtain ⟨r, others, hfind, hr, hl, hl'⟩ := split_mapped hsize h
    rw [hl']
    rw [hl] at hk
    rcases hk with ⟨rfl, hx⟩ | hk
    · exact Or.inl (mapped_pieces_wrap hwrap hlt hr hx)
    · exact Or.inr hk

/-- A split that takes its range gives it to its vmid. -/
theorem mapped_gain (hfit : o.Fits) (h : splitMemoryRegion l o = some l') (htakes : o.Takes l)
    (hx : o.Covers x) : Mapped l' o.vmid x := by
  have hsize : o.size ≠ 0 := by
    unfold Split.Covers at hx
    omega
  obtain ⟨r, others, hfind, hr, hl, hl'⟩ := split_mapped hsize h
  obtain ⟨r', hfind', htakes⟩ := htakes
  rw [hfind] at hfind'
  cases hfind'
  rw [hl']
  left
  by_cases hw : o.Whole r
  · have hend : o.newEnd = o.base + o.size := u64_of_lt hfit
    obtain ⟨hbase, hstop⟩ := hw
    refine (mapped_whole ⟨hbase, hstop⟩).mpr ⟨htakes ⟨hbase, hstop⟩, ?_⟩
    unfold Split.Covers at hx
    unfold Region.Holds
    omega
  · exact (mapped_pieces hfit hr hw).mpr (Or.inr ⟨rfl, hx⟩)

/-- The regions of the vmid `k` hold something, and nothing outside of `S`. -/
def Within (S : Nat → Prop) (k : Nat) (l : List Region) : Prop :=
  ∀ r ∈ l, r.vmid = k → (∃ x, r.Holds x) ∧ ∀ x, r.Holds x → S x

theorem Within.mapped {S : Nat → Prop} (h : Within S k l) (hr : ∃ r ∈ l, r.vmid = k) :
    ∃ x, S x ∧ Mapped l k x := by
  obtain ⟨r, hr, hk⟩ := hr
  obtain ⟨⟨x, hx⟩, hS⟩ := h r hr hk
  exact ⟨x, hS x hx, r, hr, hk, hx⟩

/-- What is left of a region is not empty, so a vmid never loses all its memory. -/
theorem within_split {S : Nat → Prop} (hfit : o.Fits) (h : splitMemoryRegion l o = some l')
    (hS : o.vmid = k → ∀ x, o.Covers x → S x) (hl : Within S k l) : Within S k l' := by
  by_cases hsize : o.size = 0
  · rw [split_empty hsize h]
    exact hl
  · obtain ⟨r, others, -, hr, hmem, hmem'⟩ := split_cases hsize h
    have hrl : r ∈ l := (hmem r).mpr (Or.inl rfl)
    have hend : o.newEnd = o.base + o.size := u64_of_lt hfit
    intro piece hpiece hk
    rcases (hmem' piece).mp hpiece with hp | hp
    · by_cases hw : o.Whole r
      · rw [Split.pieces_whole hw, List.mem_singleton] at hp
        subst hp
        exact hl r hrl hk
      · obtain ⟨rest, heq, hrest, -⟩ := o.pieces_eq hr hw
        unfold Split.Hits at hr
        rw [heq, List.mem_append, List.mem_singleton] at hp
        rcases hp with hp | rfl
        · rcases hrest piece hp with hp | hp
          · have hlt := hp.lt
            refine ⟨⟨r.base, (hp.holds _).mpr ⟨Nat.le_refl _, hlt⟩⟩, fun x hx => ?_⟩
            rw [hp.holds] at hx
            exact (hl r hrl (hp.vmid ▸ hk)).2 x ⟨hx.1, by omega⟩
          · have hlt := hp.lt
            refine ⟨⟨o.newEnd, (hp.holds _).mpr ⟨Nat.le_refl _, hlt⟩⟩, fun x hx => ?_⟩
            rw [hp.holds] at hx
            exact (hl r hrl (hp.vmid ▸ hk)).2 x ⟨by omega, hx.2⟩
        · refine ⟨⟨o.base, (Split.holds_region hfit).mpr ⟨Nat.le_refl _, by omega⟩⟩, fun x hx => ?_⟩
          exact hS hk x ((Split.holds_region hfit).mp hx)
    · exact hl piece ((hmem piece).mpr (Or.inr hp)) hk

/-- The vmids of the list are those there were, and that of the split. -/
theorem vmid_split (h : splitMemoryRegion l o = some l') {r' : Region} (hr' : r' ∈ l') :
    r'.vmid = o.vmid ∨ ∃ r ∈ l, r.vmid = r'.vmid := by
  by_cases hsize : o.size = 0
  · rw [split_empty hsize h] at hr'
    exact Or.inr ⟨r', hr', rfl⟩
  · obtain ⟨r, others, -, hr, hl, hl'⟩ := split_cases hsize h
    rcases (hl' r').mp hr' with hp | hp
    · by_cases hw : o.Whole r
      · rw [Split.pieces_whole hw, List.mem_singleton] at hp
        exact Or.inr ⟨r, (hl r).mpr (Or.inl rfl), hp ▸ rfl⟩
      · obtain ⟨rest, heq, hrest, -⟩ := o.pieces_eq hr hw
        rw [heq, List.mem_append, List.mem_singleton] at hp
        rcases hp with hp | rfl
        · right
          refine ⟨r, (hl r).mpr (Or.inl rfl), ?_⟩
          rcases hrest r' hp with hp | hp
          · exact hp.vmid.symm
          · exact hp.vmid.symm
        · exact Or.inl rfl
    · exact Or.inr ⟨r', (hl r').mpr (Or.inr hp), rfl⟩

end Mapped

/-! ## Runs of splits -/

section Runs

variable {ops : List Split} {l l' : List Region} {k x : Nat}

/-- Memory comes to a vmid only with a split of its own that covers it and takes its range. -/
theorem mapped_run_cases (hfit : ∀ o ∈ ops, o.Fits) (h : run splitMemoryRegion l ops = some l')
    (hk : Mapped l' k x) :
    Mapped l k x ∨ ∃ p o q σ, ops = p ++ o :: q ∧ run splitMemoryRegion l p = some σ ∧
      o.vmid = k ∧ o.Covers x ∧ o.Takes σ := by
  induction ops generalizing l with
  | nil =>
    cases h
    exact Or.inl hk
  | cons o ops ih =>
    obtain ⟨l₁, hl₁, h⟩ := run_cons_eq_some h
    rcases ih (fun o' ho' => hfit o' (List.mem_cons_of_mem _ ho')) h with hk₁ | hlater
    · rcases mapped_sound (hfit o (List.mem_cons_self ..)) hl₁ hk₁ with hk₀ | ⟨hv, hx, ht⟩
      · exact Or.inl hk₀
      · exact Or.inr ⟨[], o, ops, l, rfl, rfl, hv, hx, ht⟩
    · obtain ⟨p, o', q, σ, rfl, hp, ho'⟩ := hlater
      refine Or.inr ⟨o :: p, o', q, σ, rfl, ?_, ho'⟩
      rw [run_cons, hl₁]
      exact hp

/-- Memory stays with a vmid as long as no split of another one covers it. -/
theorem mapped_run_keep (hfit : ∀ o ∈ ops, o.Fits) (hcovers : ∀ o ∈ ops, o.Covers x → o.vmid = k)
    (h : run splitMemoryRegion l ops = some l') (hk : Mapped l k x) : Mapped l' k x := by
  induction ops generalizing l with
  | nil =>
    cases h
    exact hk
  | cons o ops ih =>
    obtain ⟨l₁, hl₁, h⟩ := run_cons_eq_some h
    have hkeep : ¬ o.Covers x ∨ o.vmid = k :=
      (Decidable.em _).symm.imp_right fun hx => hcovers o (List.mem_cons_self ..) hx
    exact ih (fun o' ho' => hfit o' (List.mem_cons_of_mem _ ho'))
      (fun o' ho' => hcovers o' (List.mem_cons_of_mem _ ho')) h
      (mapped_keep (hfit o (List.mem_cons_self ..)) hl₁ hkeep hk)

end Runs

/-! ## The list after a split -/

/-- The addresses of a region. -/
def Region.Has (r : Region) (x : Nat) : Prop := r.base ≤ x ∧ x < r.base + r.size

instance (r : Region) (x : Nat) : Decidable (r.Has x) := inferInstanceAs (Decidable (_ ∧ _))

def Region.Disjoint (r r' : Region) : Prop := ∀ x, ¬ (r.Has x ∧ r'.Has x)

/-- Memory regions that can be: disjoint, and inside the address space. -/
structure Regions (l : List Region) : Prop where
  disjoint : l.Pairwise Region.Disjoint
  fits : ∀ r ∈ l, r.base + r.size ≤ 2 ^ 64

/-- The range is inside the region. -/
def Split.Inside (o : Split) (r : Region) : Prop :=
  r.base ≤ o.base ∧ o.base + o.size ≤ r.base + r.size

instance (o : Split) (r : Region) : Decidable (o.Inside r) := inferInstanceAs (Decidable (_ ∧ _))

/-- A region with this type and vmid has `x`. -/
def Owned (l : List Region) (type : RegionType) (vmid x : Nat) : Prop :=
  ∃ r ∈ l, r.type = type ∧ r.vmid = vmid ∧ r.Has x

/-- What a split is for. -/
structure Split.Right (o : Split) (l l' : List Region) : Prop where
  disjoint : l'.Pairwise Region.Disjoint
  union : ∀ x, (∃ r ∈ l', r.Has x) ↔ ∃ r ∈ l, r.Has x
  covered : ∃ r ∈ l', r.type = o.type ∧ r.vmid = o.vmid ∧ (∀ x, o.Covers x → r.Has x) ∧
    ∀ r' ∈ l', ∀ x, o.Covers x → r'.Has x → r' = r
  others : ∀ x, ¬ o.Covers x → ∀ type vmid, Owned l' type vmid x ↔ Owned l type vmid x

section Right

variable {o : Split} {r r' : Region} {l l' others : List Region} {x : Nat}

instance : Std.Symm Region.Disjoint where
  symm _ _ h x hx := h x hx.symm

theorem Regions.eq_of_has (h : Regions l) (hr : r ∈ l) (hr' : r' ∈ l) (hx : r.Has x)
    (hx' : r'.Has x) : r = r' := by
  by_contra hne
  exact h.disjoint.forall hr hr' hne x ⟨hx, hx'⟩

theorem Split.inside_of_hits (hfit : o.Fits) (hsize : o.size ≠ 0) (h : o.Hits r) :
    o.Inside r ∧ (r.base + r.size ≤ 2 ^ 64 → r.stop = r.base + r.size) := by
  have hend : o.newEnd = o.base + o.size := u64_of_lt hfit
  have hle : r.stop ≤ r.base + r.size := Nat.mod_le _ _
  unfold Split.Hits at h
  refine ⟨⟨by omega, by omega⟩, fun htop => ?_⟩
  rcases Nat.lt_or_eq_of_le htop with hlt | heq
  · exact u64_of_lt hlt
  · have hzero : r.stop = 0 := by rw [Region.stop, heq]; decide
    omega

/-- The region that is cut is the one the range is inside of. -/
theorem split_perm (hl : Regions l) (hfit : o.Fits) (hsize : o.size ≠ 0) (hr : r ∈ l)
    (hin : o.Inside r) (h : splitMemoryRegion l o = some l') :
    o.Hits r ∧ ∃ others, l.Perm (r :: others) ∧ l'.Perm (o.pieces r ++ others) := by
  rw [splitMemoryRegion, if_neg hsize, Option.bind_eq_some_iff] at h
  obtain ⟨p, hp, h⟩ := h
  obtain ⟨front, r₀, back, rfl, -, hhit, rfl⟩ := loop_cases hp
  obtain ⟨-, ⟨⟩⟩ := Option.ite_none_right_eq_some.mp h
  have hin₀ := (o.inside_of_hits hfit hsize hhit).1
  obtain rfl : r = r₀ := by
    refine hl.eq_of_has hr (by simp) (x := o.base) ?_ ?_
    · unfold Split.Inside at hin
      exact ⟨hin.1, by omega⟩
    · unfold Split.Inside at hin₀
      exact ⟨hin₀.1, by omega⟩
  refine ⟨hhit, front ++ back, List.perm_middle, ?_⟩
  rw [Split.pieces, List.cons_append, List.append_assoc, List.cons_append]
  refine List.perm_middle.trans (List.Perm.cons _ ?_)
  rw [← List.append_assoc]
  exact List.perm_append_comm

/-- The pieces of a region that is not taken whole: what is left of it, and the range. -/
theorem Split.pieces_rest (hfit : o.Fits) (hsize : o.size ≠ 0) (hhit : o.Hits r)
    (htop : r.base + r.size ≤ 2 ^ 64) (hw : ¬ o.Whole r) :
    ∃ rest, o.pieces r = rest ++ [o.region] ∧ rest.Pairwise Region.Disjoint ∧
      (∀ piece ∈ rest, piece.type = r.type ∧ piece.vmid = r.vmid) ∧
      ∀ x, (∃ piece ∈ rest, piece.Has x) ↔ r.Has x ∧ ¬ o.Covers x := by
  have hend : o.newEnd = o.base + o.size := u64_of_lt hfit
  obtain ⟨⟨hlo, hhi⟩, hstop⟩ := o.inside_of_hits hfit hsize hhit
  have hstop := hstop htop
  have hlt := r.stop_lt
  have hsub : o.size ≤ r.size → sub64 r.size o.size = r.size - o.size :=
    fun hle => sub64_of_le hle (by omega)
  rcases o.cut_cases hhit hw with ⟨h1, h2, heq⟩ | ⟨h1, h2, heq⟩ | ⟨h1, h2, heq⟩
  · refine ⟨[_], heq, List.pairwise_singleton _ _, by simp, fun x => ?_⟩
    simp only [List.mem_singleton, exists_eq_left, Region.Has, Split.Covers]
    rw [hsub (by omega)]
    omega
  · refine ⟨[_, _], heq, ?_, by simp, fun x => ?_⟩
    · rw [List.pairwise_pair]
      intro x hx
      simp only [Region.Has] at hx
      omega
    · simp only [List.mem_cons, List.not_mem_nil, or_false, exists_eq_or_imp, exists_eq_left,
        Region.Has, Split.Covers]
      omega
  · refine ⟨[_], heq, List.pairwise_singleton _ _, by simp, fun x => ?_⟩
    simp only [List.mem_singleton, exists_eq_left, Region.Has, Split.Covers]
    rw [hsub (by omega)]
    omega

theorem owned_append (l l' : List Region) (type : RegionType) (vmid x : Nat) :
    Owned (l ++ l') type vmid x ↔ Owned l type vmid x ∨ Owned l' type vmid x := by
  simp only [Owned, List.mem_append, or_and_right, exists_or]

theorem owned_singleton (r : Region) (type : RegionType) (vmid x : Nat) :
    Owned [r] type vmid x ↔ r.type = type ∧ r.vmid = vmid ∧ r.Has x := by
  simp only [Owned, List.mem_singleton, exists_eq_left]

theorem owned_perm (h : l.Perm l') {type : RegionType} {vmid : Nat} :
    Owned l type vmid x ↔ Owned l' type vmid x := by
  simp only [Owned, h.mem_iff]

theorem Split.Right.of_perm {m m' : List Region} (hl : l.Perm m) (hl' : l'.Perm m')
    (h : o.Right m m') : o.Right l l' where
  disjoint := hl'.symm.pairwise h.disjoint fun hx x => fun hh => hx x hh.symm
  union x := by
    simp only [hl.mem_iff, hl'.mem_iff]
    exact h.union x
  covered := by
    simp only [hl'.mem_iff]
    exact h.covered
  others x hx type vmid := by
    rw [owned_perm hl, owned_perm hl']
    exact h.others x hx type vmid

/-- The other regions stay as they are. -/
theorem Split.Right.frame {pieces : List Region} (h : o.Right [r] pieces)
    (hl : (r :: others).Pairwise Region.Disjoint) (hcov : ∀ x, o.Covers x → r.Has x) :
    o.Right (r :: others) (pieces ++ others) := by
  obtain ⟨hr, hothers⟩ := List.pairwise_cons.mp hl
  have hunion : ∀ x, (∃ p ∈ pieces, p.Has x) ↔ r.Has x := by
    simpa only [List.mem_singleton, exists_eq_left] using h.union
  have hfar : ∀ r' ∈ others, ∀ x, r'.Has x → ¬ r.Has x :=
    fun r' hr' x hx' hx => hr r' hr' x ⟨hx, hx'⟩
  refine ⟨?_, fun x => ?_, ?_, fun x hx type vmid => ?_⟩
  · refine List.pairwise_append.mpr ⟨h.disjoint, hothers, fun p hp r' hr' x hx => ?_⟩
    exact hfar r' hr' x hx.2 ((hunion x).mp ⟨p, hp, hx.1⟩)
  · simp only [List.mem_append, List.mem_cons, or_and_right, exists_or, exists_eq_left, hunion]
  · obtain ⟨p, hp, htype, hvmid, hcover, huniq⟩ := h.covered
    refine ⟨p, List.mem_append_left _ hp, htype, hvmid, hcover, fun r' hr' x hx hx' => ?_⟩
    rcases List.mem_append.mp hr' with hr' | hr'
    · exact huniq r' hr' x hx hx'
    · exact absurd (hcov x hx) (hfar r' hr' x hx')
  · rw [owned_append, h.others x hx]
    exact (owned_append [r] others type vmid x).symm

theorem Split.Inside.has (hin : o.Inside r) (hx : o.Covers x) : r.Has x := by
  unfold Split.Covers at hx
  unfold Split.Inside at hin
  exact ⟨by omega, by omega⟩

/-- A region that is cut; nothing is left of one that is taken whole. -/
theorem Split.right_cut {rest : List Region} (hin : o.Inside r)
    (hrest : rest.Pairwise Region.Disjoint)
    (hattr : ∀ piece ∈ rest, piece.type = r.type ∧ piece.vmid = r.vmid)
    (hhas : ∀ x, (∃ piece ∈ rest, piece.Has x) ↔ r.Has x ∧ ¬ o.Covers x) :
    o.Right [r] (rest ++ [o.region]) := by
  refine ⟨?_, fun x => ?_, ?_, fun x hx type vmid => ?_⟩
  · refine List.pairwise_append.mpr ⟨hrest, List.pairwise_singleton _ _, fun p hp r' hr' x hx => ?_⟩
    rw [List.mem_singleton.mp hr'] at hx
    exact ((hhas x).mp ⟨p, hp, hx.1⟩).2 hx.2
  · simp only [List.mem_append, List.mem_singleton, or_and_right, exists_or, exists_eq_left, hhas]
    change r.Has x ∧ ¬ o.Covers x ∨ o.Covers x ↔ r.Has x
    by_cases hx : o.Covers x
    · simp [hx, hin.has hx]
    · simp [hx]
  · refine ⟨o.region, by simp, rfl, rfl, fun x hx => hx, fun r' hr' x hx hx' => ?_⟩
    rcases List.mem_append.mp hr' with hr' | hr'
    · exact absurd hx ((hhas x).mp ⟨r', hr', hx'⟩).2
    · exact List.mem_singleton.mp hr'
  · rw [owned_append, owned_singleton, owned_singleton]
    have hno : ¬ (o.region.type = type ∧ o.region.vmid = vmid ∧ o.region.Has x) :=
      fun h => hx h.2.2
    rw [or_iff_left hno]
    constructor
    · rintro ⟨p, hp, rfl, rfl, hpx⟩
      exact ⟨(hattr p hp).1.symm, (hattr p hp).2.symm, ((hhas x).mp ⟨p, hp, hpx⟩).1⟩
    · rintro ⟨rfl, rfl, hrx⟩
      obtain ⟨p, hp, hpx⟩ := (hhas x).mpr ⟨hrx, hx⟩
      exact ⟨p, hp, (hattr p hp).1, (hattr p hp).2, hpx⟩

/-- **`split_memory_region`.** For a range inside one of the regions a split is right exactly if
the range is not the whole region, or the region has the vmid already. -/
theorem split_memory_region_right_iff (l l' : List Region) (o : Split) (r : Region)
    (hl : Regions l) (hfit : o.Fits) (hsize : o.size ≠ 0) (hr : r ∈ l) (hin : o.Inside r)
    (h : splitMemoryRegion l o = some l') :
    o.Right l l' ↔ (o.base = r.base ∧ o.size = r.size → r.vmid = o.vmid) := by
  obtain ⟨hhit, others, hperm, hperm'⟩ := split_perm hl hfit hsize hr hin h
  have hstop := (o.inside_of_hits hfit hsize hhit).2 (hl.fits r hr)
  have hend : o.newEnd = o.base + o.size := u64_of_lt hfit
  have hwhole : o.Whole r ↔ o.base = r.base ∧ o.size = r.size := by
    unfold Split.Whole
    omega
  have hdis : (r :: others).Pairwise Region.Disjoint := hperm.pairwise hl.disjoint
    fun hx x hh => hx x hh.symm
  rw [← hwhole]
  constructor
  · -- the region that has the first address of the range is the one with the new type
    intro hright hw
    obtain ⟨p, hp, -, hvmid, -, huniq⟩ := hright.covered
    rw [Split.pieces_whole hw] at hperm'
    have hbase : o.Covers o.base := ⟨Nat.le_refl _, by omega⟩
    have heq := huniq { r with type := o.type } (hperm'.mem_iff.mpr (by simp)) o.base hbase
      (hin.has hbase)
    rw [← hvmid, ← heq]
  · intro hv
    refine Split.Right.of_perm hperm hperm' (Split.Right.frame ?_ hdis fun x hx => hin.has hx)
    by_cases hw : o.Whole r
    · obtain ⟨hbase, hlen⟩ := hwhole.mp hw
      have heq : { r with type := o.type } = o.region := by
        rw [Split.region, hbase, hlen, ← hv hw]
      rw [Split.pieces_whole hw, heq]
      refine Split.right_cut hin List.Pairwise.nil nofun fun x => ?_
      simp only [List.not_mem_nil, false_and, exists_false, Region.Has, Split.Covers, hbase, hlen,
        and_not_self]
    · obtain ⟨rest, heq, hrest, hattr, hhas⟩ := o.pieces_rest hfit hsize hhit (hl.fits r hr) hw
      rw [heq]
      exact Split.right_cut hin hrest hattr hhas

end Right

/-! ## Adding a region -/

/-- The region does not run over the end of the address space. -/
def Region.NoWrap (r : Region) : Prop := r.base + r.size ≤ 2 ^ 64

/-- What `add_memory_region` is for: the region is added exactly if it is memory that no region
has, and the regions stay disjoint. -/
structure AddRight (l : List Region) (new : Region) : Prop where
  added : addMemoryRegion l new = some (l ++ [new]) ↔ new.NoWrap ∧ ∀ r ∈ l, r.Disjoint new
  disjoint : ∀ l', addMemoryRegion l new = some l' → l'.Pairwise Region.Disjoint

section Add

variable {l : List Region} {r new : Region}

theorem disjoint_iff (hr : 0 < r.size) (hnew : 0 < new.size) :
    r.Disjoint new ↔ r.base + r.size ≤ new.base ∨ new.base + new.size ≤ r.base := by
  unfold Region.Disjoint Region.Has
  constructor
  · -- of two ranges that overlap the later start is in both
    intro h
    have hmax := h (max r.base new.base)
    omega
  · intro h x hx
    omega

theorem conflicts_iff (hr : 0 < r.size) (hfits : r.base + r.size ≤ 2 ^ 64) :
    ¬ r.Conflicts new.base new.size ↔
      r.base + r.size ≤ new.base ∨ u64 (new.base + new.size) < r.base := by
  -- a region up to the end of the address space has the end 0, and its last address is right
  have hlast : sub64 r.stop 1 = r.base + r.size - 1 := by
    unfold sub64 Region.stop u64
    omega
  unfold Region.Conflicts
  rw [hlast]
  omega

theorem addMemoryRegion_added (hnew : 0 < new.size) :
    addMemoryRegion l new = some (l ++ [new]) ↔
      (∀ r ∈ l, ¬ r.Conflicts new.base new.size) ∧ l.length < maxMemoryRegion := by
  have hgrows : l ≠ l ++ [new] := by simp
  unfold addMemoryRegion
  rw [if_neg (Nat.ne_of_gt hnew)]
  split
  · rename_i hconf
    obtain ⟨r, hr, hconf⟩ := hconf
    exact ⟨fun h => absurd (Option.some.inj h) hgrows, fun h => absurd hconf (h.1 r hr)⟩
  · rename_i hconf
    have hnone : ∀ r ∈ l, ¬ r.Conflicts new.base new.size := fun r hr hc => hconf ⟨r, hr, hc⟩
    split
    · rename_i hroom
      exact ⟨fun _ => ⟨hnone, hroom⟩, fun _ => rfl⟩
    · rename_i hfull
      exact ⟨fun h => absurd h (by simp), fun h => absurd h.2 hfull⟩

theorem addMemoryRegion_cases {l' : List Region} (h : addMemoryRegion l new = some l') :
    l' = l ∨ l' = l ++ [new] := by
  unfold addMemoryRegion at h
  split at h
  · exact Or.inl (Option.some.inj h).symm
  split at h
  · exact Or.inl (Option.some.inj h).symm
  split at h
  · exact Or.inr (Option.some.inj h).symm
  · cases h

/-- **`add_memory_region`.** Adding is right exactly if memory no region has finds a free entry
and does not end where a region begins, and a range that reaches the end of the address space is
not let through because its end wraps. -/
theorem add_memory_region_right_iff (l : List Region) (new : Region) (hl : Regions l)
    (hpos : ∀ r ∈ l, 0 < r.size) (hsize : 0 < new.size) :
    AddRight l new ↔
      (new.NoWrap → (∀ r ∈ l, r.Disjoint new) →
        l.length < maxMemoryRegion ∧ ∀ r ∈ l, r.base ≠ new.base + new.size) ∧
      (2 ^ 64 ≤ new.base + new.size → l.length < maxMemoryRegion →
        (∀ r ∈ l, r.base + r.size ≤ new.base ∨ u64 (new.base + new.size) < r.base) →
        new.NoWrap ∧ ∀ r ∈ l, r.Disjoint new) := by
  have hadded : addMemoryRegion l new = some (l ++ [new]) ↔
      (∀ r ∈ l, r.base + r.size ≤ new.base ∨ u64 (new.base + new.size) < r.base) ∧
        l.length < maxMemoryRegion := by
    rw [addMemoryRegion_added hsize]
    exact and_congr_left' (forall₂_congr fun r hr => conflicts_iff (hpos r hr) (hl.fits r hr))
  constructor
  · intro h
    refine ⟨fun hwrap hdis => ?_, fun _ hroom hpass => h.added.mp (hadded.mpr ⟨hpass, hroom⟩)⟩
    obtain ⟨hpass, hroom⟩ := hadded.mp (h.added.mpr ⟨hwrap, hdis⟩)
    refine ⟨hroom, fun r hr heq => ?_⟩
    -- the region begins where the new one ends, so neither comparison holds
    have hbase := hpass r hr
    have hfits := hl.fits r hr
    have hsome := hpos r hr
    rw [← heq, u64_of_lt (by omega)] at hbase
    omega
  · rintro ⟨hmiss, hslip⟩
    have hiff : addMemoryRegion l new = some (l ++ [new]) ↔
        new.NoWrap ∧ ∀ r ∈ l, r.Disjoint new := by
      rw [hadded]
      constructor
      · rintro ⟨hpass, hroom⟩
        by_cases hend : 2 ^ 64 ≤ new.base + new.size
        · exact hslip hend hroom hpass
        · refine ⟨by unfold Region.NoWrap; omega, fun r hr => ?_⟩
          have hr' := hpass r hr
          rw [u64_of_lt (by omega)] at hr'
          exact (disjoint_iff (hpos r hr) hsize).mpr (by omega)
      · rintro ⟨hwrap, hdis⟩
        obtain ⟨hroom, hapart⟩ := hmiss hwrap hdis
        refine ⟨fun r hr => ?_, hroom⟩
        have hne := hapart r hr
        have hfits := hl.fits r hr
        have hsome := hpos r hr
        have hle := Nat.mod_le (new.base + new.size) (2 ^ 64)
        have hcase := (disjoint_iff (hpos r hr) hsize).mp (hdis r hr)
        unfold u64
        omega
    refine ⟨hiff, fun l' hl' => ?_⟩
    obtain rfl | rfl := addMemoryRegion_cases hl'
    · exact hl.disjoint
    · have hdis := (hiff.mp hl').2
      refine List.pairwise_append.mpr ⟨hl.disjoint, List.pairwise_singleton _ _, ?_⟩
      intro r hr r' hr'
      rw [List.mem_singleton.mp hr']
      exact hdis r hr

end Add

/-- A bank of 1GB. -/
def bank : Region := ⟨.normal, 0, 0x40000000, 0x40000000⟩

theorem regions_bank : Regions [bank] :=
  ⟨List.pairwise_singleton _ _, fun r hr => by rw [List.mem_singleton.mp hr]; decide⟩

/-- 16MB out of the middle of the bank. -/
theorem split_memory_region_right_middle :
    ∃ l', splitMemoryRegion [bank] ⟨0x50000000, 0x1000000, .vm, 1⟩ = some l' ∧
      Split.Right ⟨0x50000000, 0x1000000, .vm, 1⟩ [bank] l' :=
  ⟨_, rfl, (split_memory_region_right_iff [bank] _ ⟨0x50000000, 0x1000000, .vm, 1⟩ bank regions_bank
    (by unfold Split.Fits; decide) (by decide) (by decide) (by decide) rfl).mpr (by decide)⟩

/-- The whole bank for VM 1: the region keeps the vmid 0. -/
theorem split_memory_region_keeps_vmid :
    splitMemoryRegion [bank] ⟨0x40000000, 0x40000000, .vm, 1⟩ =
        some [⟨.vm, 0, 0x40000000, 0x40000000⟩] ∧
      ¬ Split.Right ⟨0x40000000, 0x40000000, .vm, 1⟩ [bank]
        [⟨.vm, 0, 0x40000000, 0x40000000⟩] := by
  refine ⟨rfl, fun h => ?_⟩
  obtain ⟨r, hr, -, hvmid, -⟩ := h.covered
  rw [List.mem_singleton.mp hr] at hvmid
  cases hvmid

/-- The bank above the 1GB is added. -/
theorem add_memory_region_right_above : AddRight [bank] ⟨.normal, 0, 0x80000000, 0x40000000⟩ := by
  refine (add_memory_region_right_iff [bank] ⟨.normal, 0, 0x80000000, 0x40000000⟩ regions_bank
    (by decide) (by decide)).mpr ⟨fun _ _ => ⟨by decide, by decide⟩, fun hend => ?_⟩
  exact absurd hend (by decide)

/-- The bank below it is refused, as it ends where the other begins; and 4KB that wrap over the
end of the address space are added. -/
theorem add_memory_region_adjacent :
    addMemoryRegion [bank] ⟨.normal, 0, 0, 0x40000000⟩ = some [bank] ∧
      ¬ AddRight [bank] ⟨.normal, 0, 0, 0x40000000⟩ ∧
      addMemoryRegion [bank] ⟨.normal, 0, 0xfffffffffffff800, 0x1000⟩ =
        some [bank, ⟨.normal, 0, 0xfffffffffffff800, 0x1000⟩] ∧
      ¬ AddRight [bank] ⟨.normal, 0, 0xfffffffffffff800, 0x1000⟩ := by
  refine ⟨by decide +kernel, fun h => ?_, by decide +kernel, fun h => ?_⟩
  · have hdis : ∀ r ∈ [bank], r.Disjoint ⟨.normal, 0, 0, 0x40000000⟩ := by
      intro r hr
      rw [List.mem_singleton.mp hr]
      exact (disjoint_iff (by decide) (by decide)).mpr (by decide)
    have hadd := h.added.mpr ⟨by unfold Region.NoWrap; decide, hdis⟩
    revert hadd
    decide
  · have hadd : addMemoryRegion [bank] ⟨.normal, 0, 0xfffffffffffff800, 0x1000⟩ =
        some ([bank] ++ [⟨.normal, 0, 0xfffffffffffff800, 0x1000⟩]) := by
      decide +kernel
    have hwrap := (h.added.mp hadd).1
    unfold Region.NoWrap at hwrap
    dsimp only at hwrap
    omega

end Minos.MemRegion
