import Mathlib.Algebra.GroupWithZero.Nat
import Minos.Core.Errno
import Minos.Lib.Bytes
import Minos.Lib.Word

/-!
# Ramdisk

`tools/mkrmd/mkrmd.c` packs files into an image, and `core/ramdisk.c` finds them in
it: a magic and a superblock, then an inode of 48 bytes for each file, then from the
next page on the data, each file padded to whole pages.

The tool collects the inodes and the data in two blocks of memory and then writes
them to the target, which is not truncated. Its reads do not fail and are as long
as they can be. The reader sees the image in memory; what lies behind the image is
arbitrary. Both are of the same byte order, with the lowest byte first.
-/

namespace Minos.Ramdisk

open Minos.Lib

/-! ## The format -/

/-- `RAMDISK_MAGIC`. -/
def magic : List UInt8 :=
  [0x4d, 0x49, 0x4e, 0x4f, 0x53, 0x52, 0x41, 0x4d, 0x44, 0x49, 0x53, 0x4b, 0x2e, 0x2e, 0x2e, 0x2e]

def ramdiskMagicSize : Nat := 16
def ramdiskFnameSize : Nat := 32

/-- `sizeof(struct ramdisk_inode)`. -/
def inodeSize : Nat := 48

/-- `sizeof(struct ramdisk_sb)`. -/
def sbSize : Nat := 32

def fmemblockSize : Nat := 128 * 1024 * 1024
def imemblockSize : Nat := 32 * 1024 * 1024

/-- `(n + 4095) & ~4095`. -/
def pageUp (n : Nat) : Nat := (n + 4095) / 4096 * 4096

/-- `struct ramdisk_inode`. The two numbers are stored first and the name is copied
with `strcpy`; what a long name writes behind the inode is overwritten by the next
one or not written to the image. -/
def inodeBytes (name : List UInt8) (offset size : Nat) : List UInt8 :=
  (writeAt (List.replicate ramdiskFnameSize 0 ++ leBytes 8 offset ++ leBytes 8 size) 0
    (name ++ [0])).take inodeSize

/-! ## mkrmd -/

/-- A file: its path, or its name in a directory, and its bytes. -/
structure File where
  name : List UInt8
  content : List UInt8

/-- `imem` and `fmem`, up to `used`, and the count in `ramdisk_sb`. -/
structure Maker where
  imem : List UInt8
  imemFree : Nat
  fmem : List UInt8
  fmemFree : Nat
  fileCnt : Nat

def memblockInit : Maker := ⟨[], imemblockSize, [], fmemblockSize, 0⟩

/-- `add_new_file`, with the bytes that have been read behind `fmem.used`. -/
def addNewFile (s : Maker) (name bytes : List UInt8) : Option Maker :=
  if s.imemFree ≤ inodeSize then none
  else
    let pad := pageUp bytes.length - bytes.length
    some
      { imem := s.imem ++ inodeBytes name s.fmem.length bytes.length
        imemFree := s.imemFree - inodeSize
        fmem := s.fmem ++ (bytes ++ List.replicate pad 0)
        fmemFree := s.fmemFree - pad
        fileCnt := u32 (s.fileCnt + 1) }

/-- The loop of `__add_file`: what is free then, and the bytes of the file. -/
def readLoop : Nat → List UInt8 → Nat → List UInt8 → Nat × Option (List UInt8)
  | 0, _, free, _ => (free, none)
  | fuel + 1, rest, free, bytes =>
    if free = 0 then (free, none)
    else
      let chunk := rest.take (if 4096 < free then 4096 else free)
      if chunk = [] then (free, some bytes)
      else readLoop fuel (rest.drop chunk.length) (free - chunk.length) (bytes ++ chunk)

/-- What stands behind the last `/` of a path. -/
def baseName (path : List UInt8) : List UInt8 :=
  (path.reverse.takeWhile (· ≠ 0x2f)).reverse

/-- `add_file`, and whether it returned 0. A file without bytes is left out. -/
def addFile (s : Maker) (f : File) : Maker × Bool :=
  match readLoop (f.content.length + 1) f.content s.fmemFree [] with
  | (free, none) => ({ s with fmemFree := free }, false)
  | (free, some bytes) =>
    let s := { s with fmemFree := free }
    if bytes = [] then (s, true)
    else
      match addNewFile s (baseName f.name) bytes with
      | none => (s, false)
      | some s' => (s', true)

/-- `make_ramdisk_file_mode`. -/
def makeRamdiskFileMode : Maker → List File → Option Maker
  | s, [] => some s
  | s, f :: l =>
    match addFile s f with
    | (s', true) => makeRamdiskFileMode s' l
    | (_, false) => none

/-- What `make_ramdisk_dir_mode` skips: `.` and `..`, what is no regular file, and
names that are too long. -/
def skipped (dirname : List UInt8) (dType : Nat) (name : List UInt8) : Prop :=
  name = [0x2e] ∨ name = [0x2e, 0x2e] ∨ dType ≠ 8 ∨ 255 < dirname.length + name.length ∨
    ramdiskFnameSize < name.length + 1

instance (dirname : List UInt8) (dType : Nat) (name : List UInt8) :
    Decidable (skipped dirname dType name) :=
  inferInstanceAs (Decidable (_ ∨ _ ∨ _ ∨ _ ∨ _))

/-- `make_ramdisk_dir_mode` over the entries of the directory, each with its
`d_type`. What `add_file` returns is not looked at. -/
def makeRamdiskDirMode (dirname : List UInt8) : Maker → List (Nat × File) → Maker
  | s, [] => s
  | s, (dType, f) :: l =>
    if skipped dirname dType f.name then makeRamdiskDirMode dirname s l
    else
      makeRamdiskDirMode dirname
        (addFile s { f with name := dirname ++ [0x2f] ++ f.name }).1 l

/-- Where the inodes start. -/
def inodeOffset : Nat := (ramdiskMagicSize + sbSize + 15) / 16 * 16

/-- Where the data starts. -/
def fileOffset (s : Maker) : Nat := pageUp (inodeOffset + s.imem.length)

/-- `struct ramdisk_sb`. `block_size` is never set. -/
def sbBytes (s : Maker) : List UInt8 :=
  leBytes 4 s.fileCnt ++ leBytes 4 0 ++ leBytes 8 inodeOffset ++ leBytes 8 (fileOffset s) ++
    leBytes 8 ((fileOffset s + s.fmem.length) / 4096 * 4096)

/-- `packing_ramdisk`, into a file that has the bytes `old`. -/
def packingRamdisk (old : List UInt8) (s : Maker) : List UInt8 :=
  writeAt (writeAt (writeAt (writeAt old 0 magic) ramdiskMagicSize (sbBytes s)) inodeOffset s.imem)
    (fileOffset s) s.fmem

/-- The command line: `-f` with paths, or `-d` with a directory. -/
inductive Source
  | files (l : List File)
  | dir (dirname : List UInt8) (l : List (Nat × File))

def mkrmd (old : List UInt8) : Source → Option (List UInt8)
  | .files l => (makeRamdiskFileMode memblockInit l).map (packingRamdisk old)
  | .dir dirname l => some (packingRamdisk old (makeRamdiskDirMode dirname memblockInit l))

/-! ## The reader -/

/-- `ramdisk_start`, `root` and `ramdisk_data`, as the memory from `ramdisk_start` on
and offsets into it. -/
structure Disk where
  mem : Nat → UInt8
  root : Nat
  data : Nat

/-- `ramdisk_init`: the addresses are set, the start is aligned, and the mapping
succeeds. -/
def ramdiskInit (isSet aligned mapOk : Bool) (mem : Nat → UInt8) : Except Errno Disk :=
  if isSet = false ∨ aligned = false then .error .einval
  else if mapOk = false then .error .enomem
  else if strncmpEq mem 0 (fun i => magic.getD i 0) 0 ramdiskMagicSize then
    .ok ⟨mem, readLe mem (ramdiskMagicSize + 8) 8, readLe mem (ramdiskMagicSize + 16) 8⟩
  else .error .ebadf

/-- `get_file_inode`: the offset of the inode. The loop is at inode `k`. -/
def inodeLoop (d : Disk) (name : Nat → UInt8) : Nat → Nat → Option Nat
  | 0, _ => none
  | n + 1, k =>
    let inode := d.root + inodeSize * k
    if strncmpEq d.mem inode name 0 (ramdiskFnameSize - 1) then some inode
    else inodeLoop d name n (k + 1)

def getFileInode (d : Disk) (name : Nat → UInt8) : Option Nat :=
  inodeLoop d name (readLe d.mem ramdiskMagicSize 4) 0

/-- `ramdisk_open`: the inode of the file. -/
def ramdiskOpen (d : Disk) (name : Nat → UInt8) : Except Errno Nat :=
  match getFileInode d name with
  | none => .error .enoent
  | some inode => .ok inode

/-- `inode->f_offset`. -/
def fOffset (d : Disk) (inode : Nat) : Nat := readLe d.mem (inode + ramdiskFnameSize) 8

/-- `inode->f_size`. -/
def fSize (d : Disk) (inode : Nat) : Nat := readLe d.mem (inode + ramdiskFnameSize + 8) 8

/-- `ramdisk_read`: the bytes that are copied. -/
def ramdiskRead (d : Disk) (inode size offset : Nat) : Except Errno (List UInt8) :=
  if fSize d inode < u64 (offset + size) then .error .einval
  else .ok ((List.range size).map fun i => d.mem (d.data + fOffset d inode + offset + i))

/-! ## Statements -/

/-- The files to be packed, under the names they get. -/
def Source.packed : Source → List File
  | .files l => l.map fun f => { f with name := baseName f.name }
  | .dir dirname l => (l.filter fun e => ¬ skipped dirname e.1 e.2.name).map Prod.snd

/-- A name that fits into the name field. -/
def NameOk (name : List UInt8) : Prop := 0 ∉ name ∧ name.length < ramdiskFnameSize

instance (name : List UInt8) : Decidable (NameOk name) := inferInstanceAs (Decidable (_ ∧ _))

/-- The bytes that a file takes in the data. -/
def File.pages (f : File) : Nat := pageUp f.content.length

/-- There is room for the inodes, and for each file behind those before it. -/
structure Fits (l : List File) : Prop where
  inodes : inodeSize * l.length < imemblockSize
  data : ∀ pre f post, l = pre ++ f :: post →
    (pre.map File.pages).sum + f.content.length < fmemblockSize

/-! ## Packing -/

theorem le_pageUp (n : Nat) : n ≤ pageUp n := by
  unfold pageUp
  omega

/-- The bytes of a file in the data. -/
def File.padded (f : File) : List UInt8 :=
  f.content ++ List.replicate (pageUp f.content.length - f.content.length) 0

theorem File.length_padded (f : File) : f.padded.length = f.pages := by
  rw [padded, List.length_append, List.length_replicate,
    Nat.add_sub_of_le (le_pageUp f.content.length)]
  rfl

/-- A file is read as a whole, unless it takes all that is free. -/
theorem readLoop_eq (fuel : Nat) (rest : List UInt8) (free : Nat) (bytes : List UInt8)
    (hfuel : rest.length < fuel) :
    readLoop fuel rest free bytes =
      if rest.length < free then (free - rest.length, some (bytes ++ rest)) else (0, none) := by
  induction fuel generalizing rest free bytes with
  | zero => omega
  | succ fuel ih =>
    rw [readLoop]
    by_cases hfree : free = 0
    · rw [if_pos hfree, hfree, if_neg (Nat.not_lt_zero _)]
    rw [if_neg hfree]
    have hsize : 0 < (if 4096 < free then 4096 else free) ∧
        (if 4096 < free then 4096 else free) ≤ free := by split <;> omega
    generalize (if 4096 < free then 4096 else free) = size at hsize
    simp only
    by_cases hrest : rest = []
    · subst hrest
      rw [if_pos List.take_nil, List.length_nil, if_pos (Nat.pos_of_ne_zero hfree),
        List.append_nil]
      rfl
    have hpos := List.length_pos_iff.mpr hrest
    have hchunk : (rest.take size).length = min size rest.length := List.length_take
    have hne : rest.take size ≠ [] := List.length_pos_iff.mp (by omega)
    have hdrop : (rest.drop (rest.take size).length).length
        = rest.length - (rest.take size).length := List.length_drop
    have htail : rest.drop (rest.take size).length = rest.drop size := by
      rw [hchunk]
      by_cases hle : size ≤ rest.length
      · rw [Nat.min_eq_left hle]
      · rw [Nat.min_eq_right (by omega), List.drop_length, List.drop_of_length_le (by omega)]
    rw [if_neg hne, ih _ _ _ (by omega), hdrop]
    by_cases hlt : rest.length < free
    · rw [if_pos (by omega), if_pos hlt, htail, List.append_assoc, List.take_append_drop]
      congr 1
      omega
    · rw [if_neg (by omega), if_neg hlt]

/-- There is room for one more file. -/
def Room (s : Maker) (f : File) : Prop :=
  f.content.length < s.fmemFree ∧ inodeSize < s.imemFree

/-- The state after a file with the name `f.name` was added. -/
def added (s : Maker) (f : File) : Maker where
  imem := s.imem ++ inodeBytes f.name s.fmem.length f.content.length
  imemFree := s.imemFree - inodeSize
  fmem := s.fmem ++ f.padded
  fmemFree := s.fmemFree - f.pages
  fileCnt := u32 (s.fileCnt + 1)

variable {f : File} {s : Maker}

theorem addFile_eq (hne : f.content ≠ []) (hroom : Room s f) :
    addFile s f = (added s { f with name := baseName f.name }, true) := by
  have hle := le_pageUp f.content.length
  rw [addFile, readLoop_eq _ _ _ _ (Nat.lt_succ_self _), if_pos hroom.1]
  simp only [List.nil_append, if_neg hne, addNewFile, if_neg (Nat.not_le_of_lt hroom.2)]
  unfold added File.padded File.pages
  simp only
  congr 2
  omega

/-- There is room for the files of the list, one after the other. -/
def RoomFor : Maker → List File → Prop
  | _, [] => True
  | s, f :: l => Room s f ∧ RoomFor (added s f) l

variable {l : List File}

theorem makeRamdiskFileMode_eq (hne : ∀ f ∈ l, f.content ≠ [])
    (hroom : RoomFor s (l.map fun f => { f with name := baseName f.name })) :
    makeRamdiskFileMode s l
      = some ((l.map fun f => { f with name := baseName f.name }).foldl added s) := by
  induction l generalizing s with
  | nil => rfl
  | cons f l ih =>
    obtain ⟨hf, hl⟩ := hroom
    rw [makeRamdiskFileMode, addFile_eq (hne f List.mem_cons_self) hf]
    exact ih (fun g hg => hne g (List.mem_cons_of_mem _ hg)) hl

variable {name : List UInt8}

theorem baseName_append {dirname : List UInt8} (h : 0x2f ∉ name) :
    baseName (dirname ++ [0x2f] ++ name) = name := by
  have hall : ∀ c ∈ name.reverse, (decide (c ≠ 0x2f)) = true := by
    intro c hc
    exact decide_eq_true fun heq => h (heq ▸ List.mem_reverse.mp hc)
  rw [baseName, List.reverse_append, List.reverse_append, List.reverse_singleton,
    List.takeWhile_append_of_pos hall, List.singleton_append,
    List.takeWhile_cons_of_neg (by decide), List.append_nil, List.reverse_reverse]

theorem makeRamdiskDirMode_eq {dirname : List UInt8} {l : List (Nat × File)}
    (hne : ∀ f ∈ (Source.dir dirname l).packed, f.content ≠ [])
    (hslash : ∀ f ∈ (Source.dir dirname l).packed, 0x2f ∉ f.name)
    (hroom : RoomFor s (Source.dir dirname l).packed) :
    makeRamdiskDirMode dirname s l = (Source.dir dirname l).packed.foldl added s := by
  induction l generalizing s with
  | nil => rfl
  | cons e l ih =>
    obtain ⟨dType, f⟩ := e
    rw [makeRamdiskDirMode]
    by_cases hskip : skipped dirname dType f.name
    · have hpacked : (Source.dir dirname ((dType, f) :: l)).packed
          = (Source.dir dirname l).packed := by
        simp only [Source.packed, List.filter_cons, hskip, not_true, decide_false,
          Bool.false_eq_true, if_false]
      rw [hpacked] at hne hslash hroom ⊢
      rw [if_pos hskip]
      exact ih hne hslash hroom
    · have hpacked : (Source.dir dirname ((dType, f) :: l)).packed
          = f :: (Source.dir dirname l).packed := by
        simp only [Source.packed, List.filter_cons, hskip, not_false_eq_true, decide_true,
          if_true, List.map_cons]
      rw [hpacked] at hne hslash hroom ⊢
      obtain ⟨hf, hl⟩ := hroom
      have hadd : addFile s { f with name := dirname ++ [0x2f] ++ f.name }
          = (added s f, true) := by
        rw [addFile_eq (f := { f with name := dirname ++ [0x2f] ++ f.name })
          (hne f List.mem_cons_self) hf]
        simp only [baseName_append (hslash f List.mem_cons_self)]
      rw [if_neg hskip, hadd]
      exact ih (fun g hg => hne g (List.mem_cons_of_mem _ hg))
        (fun g hg => hslash g (List.mem_cons_of_mem _ hg)) hl

/-! ## The blocks of memory -/

/-- The inodes of the files, with data from `offset` on. -/
def inodesOf : Nat → List File → List UInt8
  | _, [] => []
  | offset, f :: l =>
    inodeBytes f.name offset f.content.length ++ inodesOf (offset + f.pages) l

theorem length_inodeBytes (name : List UInt8) (offset size : Nat) :
    (inodeBytes name offset size).length = inodeSize := by
  rw [inodeBytes, List.length_take, writeAt]
  simp only [List.length_append, List.length_take, List.length_replicate, length_leBytes,
    List.length_drop, List.length_singleton, ramdiskFnameSize, inodeSize]
  omega

theorem length_inodesOf (offset : Nat) (l : List File) :
    (inodesOf offset l).length = inodeSize * l.length := by
  induction l generalizing offset with
  | nil => rfl
  | cons f l ih =>
    rw [inodesOf, List.length_append, length_inodeBytes, ih, List.length_cons, Nat.mul_succ,
      Nat.add_comm]

theorem foldl_added_imem (s : Maker) (l : List File) :
    (l.foldl added s).imem = s.imem ++ inodesOf s.fmem.length l := by
  induction l generalizing s with
  | nil => exact (List.append_nil _).symm
  | cons f l ih =>
    have hlen : (added s f).fmem.length = s.fmem.length + f.pages := by
      rw [added, List.length_append, f.length_padded]
    rw [List.foldl_cons, ih, hlen, inodesOf, ← List.append_assoc]
    rfl

theorem foldl_added_fmem (s : Maker) (l : List File) :
    (l.foldl added s).fmem = s.fmem ++ l.flatMap File.padded := by
  induction l generalizing s with
  | nil => exact (List.append_nil _).symm
  | cons f l ih =>
    rw [List.foldl_cons, ih, List.flatMap_cons, ← List.append_assoc]
    rfl

theorem foldl_added_fileCnt (h : s.fileCnt + l.length < 2 ^ 32) :
    (l.foldl added s).fileCnt = s.fileCnt + l.length := by
  induction l generalizing s with
  | nil => rfl
  | cons f l ih =>
    rw [List.length_cons] at h ⊢
    have hcnt : (added s f).fileCnt = s.fileCnt + 1 := u32_of_lt (by omega)
    rw [List.foldl_cons, ih (by omega), hcnt]
    omega

theorem length_flatMap_padded (l : List File) :
    (l.flatMap File.padded).length = (l.map File.pages).sum := by
  rw [List.length_flatMap]
  simp only [File.length_padded]

/-- What the files so far have left free. -/
structure Accounts (s : Maker) (pre : List File) : Prop where
  imem : s.imemFree = imemblockSize - inodeSize * pre.length
  fmem : s.fmemFree = fmemblockSize - (pre.map File.pages).sum

theorem Accounts.init : Accounts memblockInit [] := ⟨rfl, rfl⟩

variable {pre : List File}

theorem Accounts.added (h : Accounts s pre) (f : File) :
    Accounts (added s f) (pre ++ [f]) := by
  refine ⟨?_, ?_⟩
  · rw [Ramdisk.added, List.length_append, List.length_singleton, Nat.mul_add_one]
    simp only [h.imem]
    omega
  · rw [Ramdisk.added, List.map_append, List.sum_append, List.map_singleton,
      List.sum_singleton]
    simp only [h.fmem]
    omega

theorem roomFor_of_fits (h : Accounts s pre)
    (hfit : Fits (pre ++ l)) : RoomFor s l := by
  induction l generalizing s pre with
  | nil => trivial
  | cons f l ih =>
    have hinodes := hfit.inodes
    rw [List.length_append, List.length_cons] at hinodes
    have hdata := hfit.data pre f l rfl
    refine ⟨⟨?_, ?_⟩, ih (h.added f) (by rwa [List.append_assoc, List.singleton_append])⟩
    · rw [h.fmem]
      omega
    · rw [h.imem]
      unfold inodeSize imemblockSize at *
      omega

/-! ## The image -/

/-- Everything the tool packed, in the files of the list `l`. -/
structure Image (mem : Nat → UInt8) (l : List File) : Prop where
  magic : Holds mem 0 magic
  fileCnt : readLe mem ramdiskMagicSize 4 = l.length
  root : readLe mem (ramdiskMagicSize + 8) 8 = inodeOffset
  inodes : Holds mem inodeOffset (inodesOf 0 l)
  data : Holds mem (readLe mem (ramdiskMagicSize + 16) 8) (l.flatMap File.padded)

theorem length_sbBytes (s : Maker) : (sbBytes s).length = sbSize := by
  simp [sbBytes, sbSize]

/-- The four parts of the image do not overlap. -/
theorem packingRamdisk_at (old : List UInt8) (s : Maker) :
    At (packingRamdisk old s) 0 magic ∧ At (packingRamdisk old s) ramdiskMagicSize (sbBytes s) ∧
      At (packingRamdisk old s) inodeOffset s.imem ∧
      At (packingRamdisk old s) (fileOffset s) s.fmem := by
  have hmagic : magic.length = ramdiskMagicSize := rfl
  have hsize : ramdiskMagicSize = 16 := rfl
  have hsb : (sbBytes s).length = 32 := length_sbBytes s
  have hinode : inodeOffset = 48 := rfl
  have hfile : inodeOffset + s.imem.length ≤ fileOffset s := le_pageUp _
  refine ⟨?_, ?_, ?_, ?_⟩
  · refine At.writeAt (At.writeAt (At.writeAt (at_writeAt_self _ _ _) ?_) ?_) ?_ <;> omega
  · refine At.writeAt (At.writeAt (at_writeAt_self _ _ _) ?_) ?_ <;> omega
  · refine At.writeAt (at_writeAt_self _ _ _) ?_
    omega
  · exact at_writeAt_self _ _ _

variable {mem : Nat → UInt8}

theorem image_of_packed {old : List UInt8} (hfit : Fits l)
    (hmem : Holds mem 0 (packingRamdisk old (l.foldl added memblockInit))) : Image mem l := by
  obtain ⟨hmagic, hsb, himem, hfmem⟩ := packingRamdisk_at old (l.foldl added memblockInit)
  have hlen : inodeSize * l.length < 2 ^ 25 := hfit.inodes
  unfold inodeSize at hlen
  have hcnt : (l.foldl added memblockInit).fileCnt = l.length := by
    rw [foldl_added_fileCnt (by rw [memblockInit]; simp only; omega), memblockInit]
    exact Nat.zero_add _
  have hinodes := foldl_added_imem memblockInit l
  have hdata := foldl_added_fmem memblockInit l
  have hoff : fileOffset (l.foldl added memblockInit) < 256 ^ 8 := by
    rw [fileOffset, hinodes, List.length_append, length_inodesOf]
    unfold pageUp inodeOffset ramdiskMagicSize sbSize inodeSize memblockInit
    rw [List.length_nil]
    omega
  have hsb := hmem.of_at hsb
  rw [sbBytes] at hsb
  simp only [holds_append, length_leBytes, List.length_append] at hsb
  obtain ⟨⟨⟨⟨hs1, -⟩, hs2⟩, hs3⟩, -⟩ := hsb
  have hread : readLe mem (ramdiskMagicSize + 16) 8 = fileOffset (l.foldl added memblockInit) :=
    readLe_eq hs3 hoff
  refine ⟨hmem.of_at hmagic, ?_, readLe_eq hs2 (by decide), ?_, ?_⟩
  · rw [readLe_eq hs1 (by rw [hcnt]; omega), hcnt]
  · have h := hmem.of_at himem
    rw [hinodes] at h
    exact h
  · have h := hmem.of_at hfmem
    rw [hdata] at h
    rw [hread]
    exact h

/-! ## Finding a file -/

variable {post : List File}

/-- Where the inode and the data of a file are. -/
theorem holds_inodesOf {pos offset : Nat}
    (h : Holds mem pos (inodesOf offset (pre ++ f :: post))) :
    Holds mem (pos + inodeSize * pre.length)
      (inodeBytes f.name (offset + (pre.map File.pages).sum) f.content.length) := by
  induction pre generalizing pos offset with
  | nil =>
    rw [List.nil_append, inodesOf, holds_append] at h
    exact h.1
  | cons g pre ih =>
    rw [List.cons_append, inodesOf, holds_append, length_inodeBytes] at h
    have hpos : pos + inodeSize * (g :: pre).length = pos + inodeSize + inodeSize * pre.length := by
      rw [List.length_cons, Nat.mul_add_one]
      omega
    rw [hpos, List.map_cons, List.sum_cons, ← Nat.add_assoc offset]
    exact ih h.2

/-- The name field, which starts with the name. -/
theorem inodeBytes_eq (h : name.length < ramdiskFnameSize) (offset size : Nat) :
    ∃ field, inodeBytes name offset size = field ++ leBytes 8 offset ++ leBytes 8 size ∧
      field.length = ramdiskFnameSize ∧ ∃ rest, field = name ++ [0] ++ rest := by
  refine ⟨name ++ [0] ++ List.replicate (ramdiskFnameSize - (name.length + 1)) 0, ?_, ?_, _, rfl⟩
  · have hdrop : (List.replicate ramdiskFnameSize (0 : UInt8) ++ leBytes 8 offset ++
        leBytes 8 size).drop (name.length + 1) =
          List.replicate (ramdiskFnameSize - (name.length + 1)) 0 ++ leBytes 8 offset ++
            leBytes 8 size := by
      rw [List.append_assoc, List.drop_append_of_le_length (by rwa [List.length_replicate]),
        List.drop_replicate, ← List.append_assoc]
    have hwrite : writeAt (List.replicate ramdiskFnameSize 0 ++ leBytes 8 offset ++
        leBytes 8 size) 0 (name ++ [0]) =
          name ++ [0] ++ List.replicate (ramdiskFnameSize - (name.length + 1)) 0 ++
            leBytes 8 offset ++ leBytes 8 size := by
      rw [writeAt, List.take_zero, Nat.zero_sub, List.replicate_zero, List.nil_append,
        List.nil_append, Nat.zero_add, List.length_append, List.length_singleton, hdrop]
      simp only [List.append_assoc]
    rw [inodeBytes, hwrite]
    refine List.take_of_length_le ?_
    simp only [List.length_append, List.length_replicate, length_leBytes, List.length_singleton]
    unfold ramdiskFnameSize at *
    unfold inodeSize
    omega
  · rw [List.length_append, List.length_append, List.length_replicate, List.length_singleton]
    omega

theorem inode_fields {pos offset size : Nat}
    (hname : NameOk name) (hoff : offset < 2 ^ 64) (hsize : size < 2 ^ 64)
    (h : Holds mem pos (inodeBytes name offset size)) :
    CStr mem pos name ∧ readLe mem (pos + ramdiskFnameSize) 8 = offset ∧
      readLe mem (pos + ramdiskFnameSize + 8) 8 = size := by
  obtain ⟨field, heq, hlen, rest, hfield⟩ := inodeBytes_eq hname.2 offset size
  rw [heq, holds_append, holds_append, List.length_append, hlen, length_leBytes,
    ← Nat.add_assoc] at h
  obtain ⟨⟨hn, ho⟩, hs⟩ := h
  rw [hfield] at hn
  exact ⟨⟨hname.1, (holds_append.mp hn).1⟩, readLe_eq ho hoff, readLe_eq hs hsize⟩

/-- Whole pages for every file are enough. -/
theorem fits_of_sum (hinodes : inodeSize * l.length < imemblockSize)
    (hdata : (l.map File.pages).sum < fmemblockSize) : Fits l := by
  refine ⟨hinodes, ?_⟩
  rintro pre f post rfl
  have hle : f.content.length ≤ f.pages := le_pageUp _
  rw [List.map_append, List.map_cons, List.sum_append, List.sum_cons] at hdata
  omega

theorem fits_data (h : Fits l) (hl : l = pre ++ f :: post) :
    (pre.map File.pages).sum < 2 ^ 64 ∧ f.content.length < 2 ^ 64 := by
  have hdata := h.data pre f post hl
  unfold fmemblockSize at hdata
  omega

variable {p : Nat → UInt8}

/-- The loop finds the first file with the name. -/
theorem inodeLoop_eq {d : Disk}
    (hinode : ∀ k f, (pre ++ l)[k]? = some f → CStr d.mem (d.root + inodeSize * k) f.name)
    (hnames : ∀ f ∈ l, NameOk f.name) (hname : NameOk name) (hp : CStr p 0 name) :
    inodeLoop d p l.length pre.length =
      (l.findIdx? fun f => f.name == name).map
        fun k => d.root + inodeSize * (pre.length + k) := by
  induction l generalizing pre with
  | nil => rfl
  | cons f l ih =>
    have hf : CStr d.mem (d.root + inodeSize * pre.length) f.name :=
      hinode pre.length f (by rw [List.getElem?_append_right (Nat.le_refl _), Nat.sub_self]; rfl)
    have hlt := (hnames f List.mem_cons_self).2
    have hiff := strncmpEq_iff (n := ramdiskFnameSize - 1) hf hp
      (Nat.le_sub_one_of_lt hlt) (Nat.le_sub_one_of_lt hname.2)
    rw [List.length_cons, inodeLoop, List.findIdx?_cons]
    by_cases heq : f.name = name
    · simp only [hiff.mpr heq, if_true, beq_iff_eq.mpr heq, Option.map_some, Nat.add_zero]
    · have hinode' : ∀ k g, (pre ++ [f] ++ l)[k]? = some g →
          CStr d.mem (d.root + inodeSize * k) g.name := by
        rw [List.append_assoc, List.singleton_append]
        exact hinode
      have hloop := ih hinode' fun g hg => hnames g (List.mem_cons_of_mem _ hg)
      rw [List.length_append, List.length_singleton] at hloop
      have hcmp : strncmpEq d.mem (d.root + inodeSize * pre.length) p 0 (ramdiskFnameSize - 1)
          = false := Bool.eq_false_iff.mpr fun ht => heq (hiff.mp ht)
      simp only [hcmp, Bool.false_eq_true, if_false, beq_eq_false_iff_ne.mpr heq, hloop,
        Option.map_map]
      congr 1
      funext k
      simp only [Function.comp]
      rw [Nat.add_assoc pre.length, Nat.add_comm 1]

/-! ## The round trip -/

namespace Image

variable {mem : Nat → UInt8} {l : List File} {d : Disk}

theorem init (h : Image mem l) :
    ramdiskInit true true true mem =
      .ok ⟨mem, inodeOffset, readLe mem (ramdiskMagicSize + 16) 8⟩ := by
  have hmagic : strncmpEq mem 0 (fun i => Ramdisk.magic.getD i 0) 0 ramdiskMagicSize = true :=
    strncmpEq_of_holds h.magic (holds_getD _)
  simp only [ramdiskInit, hmagic, h.root, Bool.true_eq_false, or_self, if_false, if_true]

theorem inode (h : Image mem l) (hfit : Fits l)
    (hl : l = pre ++ f :: post) (hname : NameOk f.name) :
    CStr mem (inodeOffset + inodeSize * pre.length) f.name ∧
      readLe mem (inodeOffset + inodeSize * pre.length + ramdiskFnameSize) 8
        = (pre.map File.pages).sum ∧
      readLe mem (inodeOffset + inodeSize * pre.length + ramdiskFnameSize + 8) 8
        = f.content.length := by
  obtain ⟨hoff, hsize⟩ := fits_data hfit hl
  have hin := h.inodes
  rw [hl] at hin
  have hholds := holds_inodesOf hin
  rw [Nat.zero_add] at hholds
  exact inode_fields hname hoff hsize hholds

theorem content (h : Image mem l) (hl : l = pre ++ f :: post) :
    Holds mem (readLe mem (ramdiskMagicSize + 16) 8 + (pre.map File.pages).sum) f.content := by
  have hdata := h.data
  rw [hl, List.flatMap_append, holds_append, List.flatMap_cons, length_flatMap_padded,
    holds_append, File.padded, holds_append] at hdata
  exact hdata.2.1.1

theorem open_eq (h : Image mem l) (hfit : Fits l) (hnames : ∀ f ∈ l, NameOk f.name)
    (hname : NameOk name) (hp : CStr p 0 name)
    (data : Nat) :
    getFileInode ⟨mem, inodeOffset, data⟩ p =
      (l.findIdx? fun f => f.name == name).map fun k => inodeOffset + inodeSize * k := by
  have hinode : ∀ k f, ([] ++ l)[k]? = some f → CStr mem (inodeOffset + inodeSize * k) f.name := by
    intro k f hk
    rw [List.nil_append] at hk
    obtain ⟨pre, post, hl, hlen⟩ : ∃ pre post, l = pre ++ f :: post ∧ pre.length = k := by
      obtain ⟨hlt, hget⟩ := List.getElem?_eq_some_iff.mp hk
      refine ⟨l.take k, l.drop (k + 1), ?_, List.length_take_of_le (Nat.le_of_lt hlt)⟩
      rw [← hget, ← List.drop_eq_getElem_cons hlt, List.take_append_drop]
    rw [← hlen]
    exact (h.inode hfit hl (hnames f (List.mem_of_getElem? hk))).1
  rw [getFileInode, h.fileCnt]
  have hloop := inodeLoop_eq (d := ⟨mem, inodeOffset, data⟩) hinode hnames hname hp
  simp only [List.length_nil, Nat.zero_add] at hloop
  exact hloop

/-- A file is found under its name, and read as it is. -/
theorem found (h : Image mem l) (hfit : Fits l) (hnames : ∀ f ∈ l, NameOk f.name)
    (hdistinct : (l.map File.name).Nodup) (hf : f ∈ l)
    (hp : CStr p 0 f.name) :
    ∃ inode, ramdiskOpen ⟨mem, inodeOffset, readLe mem (ramdiskMagicSize + 16) 8⟩ p = .ok inode ∧
      ∀ offset size, offset + size ≤ f.content.length →
        ramdiskRead ⟨mem, inodeOffset, readLe mem (ramdiskMagicSize + 16) 8⟩ inode size offset
          = .ok ((f.content.drop offset).take size) := by
  obtain ⟨pre, post, rfl⟩ := List.append_of_mem hf
  have hidx : (pre ++ f :: post).findIdx? (fun g => g.name == f.name) = some pre.length := by
    rw [List.map_append, List.map_cons] at hdistinct
    have hpre : pre.findIdx? (fun g => g.name == f.name) = none := by
      rw [List.findIdx?_eq_none_iff]
      intro g hg
      exact beq_eq_false_iff_ne.mpr ((List.nodup_append.mp hdistinct).2.2 g.name
        (List.mem_map_of_mem hg) f.name List.mem_cons_self)
    rw [List.findIdx?_append, hpre, List.findIdx?_cons, beq_self_eq_true, if_pos rfl,
      Option.none_or, Option.map_some, Nat.zero_add]
  obtain ⟨-, hoff, hsize⟩ := h.inode hfit rfl (hnames f hf)
  refine ⟨inodeOffset + inodeSize * pre.length, ?_, ?_⟩
  · rw [ramdiskOpen, h.open_eq hfit hnames (hnames f hf) hp, hidx, Option.map_some]
  · intro offset size hle
    obtain ⟨-, hlt⟩ := fits_data hfit rfl
    rw [ramdiskRead, fSize, fOffset, hsize, hoff, u64_of_lt (Nat.lt_of_le_of_lt hle hlt),
      if_neg (Nat.not_lt_of_le hle), (h.content rfl).read hle]

theorem not_found (h : Image mem l) (hfit : Fits l) (hnames : ∀ f ∈ l, NameOk f.name)
    (hname : NameOk name) (hno : ∀ f ∈ l, f.name ≠ name)
    (hp : CStr p 0 name) :
    ramdiskOpen ⟨mem, inodeOffset, readLe mem (ramdiskMagicSize + 16) 8⟩ p = .error .enoent := by
  have hidx : l.findIdx? (fun f => f.name == name) = none := by
    rw [List.findIdx?_eq_none_iff]
    exact fun f hf => beq_eq_false_iff_ne.mpr (hno f hf)
  rw [ramdiskOpen, h.open_eq hfit hnames hname hp, hidx]
  rfl

end Image

/-- The tool makes an image of every list of files that fits. -/
theorem mkrmd_eq (old : List UInt8) {src : Source} (hne : ∀ f ∈ src.packed, f.content ≠ [])
    (hslash : ∀ f ∈ src.packed, 0x2f ∉ f.name) (hfit : Fits src.packed) :
    mkrmd old src = some (packingRamdisk old (src.packed.foldl added memblockInit)) := by
  have hroom : RoomFor memblockInit src.packed := roomFor_of_fits Accounts.init hfit
  cases src with
  | files l =>
    have hne' : ∀ f ∈ l, f.content ≠ [] := by
      intro f hf
      exact hne { f with name := baseName f.name } (List.mem_map_of_mem hf)
    rw [mkrmd, makeRamdiskFileMode_eq hne' hroom]
    rfl
  | dir dirname l =>
    rw [mkrmd, makeRamdiskDirMode_eq hne hslash hroom]

/-- **Round trip**: from the image of files that fit every file is opened under its
name and read byte for byte, and no other name is opened. -/
theorem ramdisk_round_trip (old : List UInt8) (src : Source)
    (hnames : ∀ f ∈ src.packed, NameOk f.name) (hslash : ∀ f ∈ src.packed, 0x2f ∉ f.name)
    (hdistinct : (src.packed.map File.name).Nodup) (hne : ∀ f ∈ src.packed, f.content ≠ [])
    (hfit : Fits src.packed) :
    ∃ image, mkrmd old src = some image ∧ ∀ mem, Holds mem 0 image →
      ∃ d, ramdiskInit true true true mem = .ok d ∧
        (∀ f ∈ src.packed, ∀ p, CStr p 0 f.name → ∃ inode, ramdiskOpen d p = .ok inode ∧
          ∀ offset size, offset + size ≤ f.content.length →
            ramdiskRead d inode size offset = .ok ((f.content.drop offset).take size)) ∧
        ∀ name, NameOk name → (∀ f ∈ src.packed, f.name ≠ name) →
          ∀ p, CStr p 0 name → ramdiskOpen d p = .error .enoent := by
  refine ⟨_, mkrmd_eq old hne hslash hfit, fun mem hmem => ?_⟩
  have himage := image_of_packed hfit hmem
  exact ⟨_, himage.init, fun f hf p hp => himage.found hfit hnames hdistinct hf hp,
    fun name hname hno p hp => himage.not_found hfit hnames hname hno hp⟩

/-- `vm0` and `vm1`, given by their paths. -/
def twoImages : Source :=
  .files [⟨[0x2f, 0x76, 0x6d, 0x30], [1, 2, 3]⟩, ⟨[0x76, 0x6d, 0x31], [4]⟩]

theorem ramdisk_round_trip_two :
    ∃ image d inode, mkrmd [] twoImages = some image ∧
      ramdiskInit true true true (fun i => image.getD i 0) = .ok d ∧
      ramdiskOpen d (fun i => [0x76, 0x6d, 0x30].getD i 0) = .ok inode ∧
      ramdiskRead d inode 2 1 = .ok [2, 3] ∧
      ramdiskOpen d (fun i => [0x76, 0x6d].getD i 0) = .error .enoent := by
  have hpacked : twoImages.packed
      = [⟨[0x76, 0x6d, 0x30], [1, 2, 3]⟩, ⟨[0x76, 0x6d, 0x31], [4]⟩] := by rfl
  have hfit : Fits twoImages.packed := by
    rw [hpacked]
    exact fits_of_sum (by decide) (by decide)
  obtain ⟨image, himage, hread⟩ := ramdisk_round_trip [] twoImages (by rw [hpacked]; decide)
    (by rw [hpacked]; decide) (by rw [hpacked]; decide) (by rw [hpacked]; decide) hfit
  obtain ⟨d, hd, hopen, hother⟩ := hread _ (holds_getD image)
  rw [hpacked] at hopen hother
  obtain ⟨inode, hinode, hbytes⟩ := hopen _ List.mem_cons_self _ (cstr_getD (by decide))
  exact ⟨image, d, inode, himage, hd, hinode, hbytes 1 2 (by decide),
    hother [0x76, 0x6d] (by decide) (by decide) _ (cstr_getD (by decide))⟩

end Minos.Ramdisk
