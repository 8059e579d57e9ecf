import Mathlib.Data.List.Nodup
import Mathlib.Logic.Function.Basic
import Minos.Core.Errno
import Minos.Driver.DeviceTree

/-!
# The nodes of a device tree in memory

`drivers/of/of.c` turns a flattened tree into `struct device_node`s that are linked: each node has
its parent, its first child and its next sibling. Here are the functions that look for a property
on the way up (`of_n_addr_cells`, `of_n_size_cells`), over nodes that are linked as a tree.

* A pointer is a number, and `none` the null pointer.
* The subnodes of a flattened node are the children of a `DeviceNode`, in the order of libfdt.
* `props` stands for `data` and `offset`, through which the properties are read.
-/

namespace Minos.OfTree

open Minos.Of

/-- `struct device_node`. -/
structure DNode where
  props : Option Props
  cls : DtClass
  parent : Option Nat
  child : Option Nat
  sibling : Option Nat

structure Mem where
  node : Nat → DNode

/-! ## Trees in memory -/

def propsOf : DeviceNode → Props
  | .mk p _ => p

mutual

/-- The node `a` with the nodes below it is the tree; `l` are its pointers, each node before its
children, and `up` those of its ancestors. -/
def IsTree (m : Mem) (up : List Nat) (cls : DtClass) (a : Nat) : DeviceNode → List Nat → Prop
  | .mk p cs, l =>
    ((m.node a).props = some p ∧ (m.node a).cls = cls ∧ (m.node a).parent = up.head?) ∧
      ∃ l', l = a :: l' ∧ IsForest m (a :: up) cls (m.node a).child cs l'

/-- The siblings from `first` on are the trees. -/
def IsForest (m : Mem) (up : List Nat) (cls : DtClass) (first : Option Nat) :
    List DeviceNode → List Nat → Prop
  | [], l => first = none ∧ l = []
  | t :: ts, l =>
    ∃ a l₁ l₂, first = some a ∧ l = l₁ ++ l₂ ∧
      IsTree m up (ofParseDtClass cls (propsOf t)) a t l₁ ∧
      IsForest m up cls (m.node a).sibling ts l₂

end

/-! ## What the nodes stand for -/

/-- The parent links from `first` on lead to nodes with these properties, and end there. -/
def Ups (m : Mem) : Option Nat → List Props → Prop
  | first, [] => first = none
  | first, p :: ps =>
    ∃ a, first = some a ∧ (m.node a).props = some p ∧ Ups m (m.node a).parent ps

structure Shows (m : Mem) (a : Nat) (n : Node) : Prop where
  props : (m.node a).props = some n.props
  cls : (m.node a).cls = n.cls
  up : Ups m (m.node a).parent n.up

section Shows

variable {m : Mem}

mutual

theorem IsTree.shows : ∀ {t : DeviceNode} {up l : List Nat} {cls : DtClass} {a : Nat}
    {ps : List Props}, IsTree m up (ofParseDtClass cls (propsOf t)) a t l → Ups m up.head? ps →
    List.Forall₂ (Shows m) l (visit ps cls t)
  | .mk p cs, up, l, cls, a, ps, h, hup => by
    obtain ⟨⟨hp, hc, hpar⟩, l', rfl, hforest⟩ := h
    rw [← hpar] at hup
    exact .cons ⟨hp, hc, hup⟩ (IsForest.shows hforest ⟨a, rfl, hp, hup⟩)

theorem IsForest.shows : ∀ {ts : List DeviceNode} {up l : List Nat} {cls : DtClass}
    {first : Option Nat} {ps : List Props}, IsForest m up cls first ts l → Ups m up.head? ps →
    List.Forall₂ (Shows m) l (visitAll ps cls ts)
  | [], up, l, cls, first, ps, h, hup => by
    obtain ⟨-, rfl⟩ := h
    exact .nil
  | t :: ts, up, l, cls, first, ps, h, hup => by
    obtain ⟨a, l₁, l₂, rfl, rfl, htree, hforest⟩ := h
    exact List.rel_append (IsTree.shows htree hup) (IsForest.shows hforest hup)

end

/-- The nodes in memory are the ones that the classes and the translations are computed for. -/
theorem IsTree.shows_root {t : DeviceNode} {l : List Nat} {a : Nat}
    (h : IsTree m [] .other a t l) : List.Forall₂ (Shows m) l (Of.ofParseDeviceTree t) := by
  obtain ⟨p, cs⟩ := t
  obtain ⟨⟨hp, hc, hpar⟩, l', rfl, hforest⟩ := h
  exact .cons ⟨hp, hc, hpar⟩ (hforest.shows ⟨a, rfl, hp, hpar⟩)

end Shows

def noProps : Props := ⟨none, false, false, false, false, false, none, none, none, none⟩

/-- A node with nothing but its subnodes. -/
def bare (children : List DeviceNode) : DeviceNode := .mk noProps children

/-! ## Counting cells -/

section Cells

variable {get : Props → Option (BitVec 32)} {default : BitVec 32} {m : Mem}

/-- `of_n_addr_cells` and `of_n_size_cells`: the property they look for and what they return
behind their loop. -/
def ofNCells (get : Props → Option (BitVec 32)) (default : BitVec 32) (m : Mem) :
    Nat → Nat → Option (BitVec 32)
  | 0, _ => none
  | fuel + 1, node =>
    match (m.node node).props.bind get with
    | some ip => some ip
    | none =>
      let next := if (m.node node).parent.isSome then (m.node node).parent else some node
      match next with
      | some node => ofNCells get default m fuel node
      | none => some default

def ofNAddrCells : Mem → Nat → Nat → Option (BitVec 32) := ofNCells Props.addressCells 2

def ofNSizeCells : Mem → Nat → Nat → Option (BitVec 32) := ofNCells Props.sizeCells 1

/-- The loop ends at a node that has the property. -/
theorem ofNCells_of_mem (default : BitVec 32) {ps : List Props} : ∀ {fuel a : Nat},
    Ups m (some a) ps → (∃ p ∈ ps, (get p).isSome) → ps.length ≤ fuel →
    ofNCells get default m fuel a = ps.findSome? get := by
  induction ps with
  | nil =>
    intro fuel a hup
    cases hup
  | cons p ps ih =>
    intro fuel a hup hget hfuel
    obtain ⟨_, ⟨⟩, hprops, hup'⟩ := hup
    rw [List.length_cons] at hfuel
    obtain ⟨fuel, rfl⟩ : ∃ f, fuel = f + 1 := ⟨fuel - 1, by omega⟩
    rw [ofNCells, hprops, Option.bind_some, List.findSome?_cons]
    cases hp : get p with
    | some v => rfl
    | none =>
      have hget' : ∃ p ∈ ps, (get p).isSome := by
        obtain ⟨q, hq, hsome⟩ := hget
        obtain rfl | hq := List.mem_cons.1 hq
        · rw [hp] at hsome
          cases hsome
        · exact ⟨q, hq, hsome⟩
      cases hpar : (m.node a).parent with
      | none =>
        rw [hpar] at hup'
        obtain ⟨q, hq, -⟩ := hget'
        obtain _ | ⟨q', ps⟩ := ps
        · cases hq
        · obtain ⟨_, ⟨⟩, -⟩ := hup'
      | some b =>
        rw [hpar] at hup'
        exact ih hup' hget' (by omega)

/-- Without the property the loop stays at the root. -/
theorem ofNCells_eq_none (default : BitVec 32) (fuel : Nat) :
    ∀ {ps : List Props} {a : Nat}, Ups m (some a) ps → (∀ p ∈ ps, get p = none) →
    ofNCells get default m fuel a = none := by
  induction fuel with
  | zero =>
    intro ps a _ _
    rfl
  | succ fuel ih =>
    intro ps a hup hget
    obtain _ | ⟨p, ps⟩ := ps
    · cases hup
    have hup₀ := hup
    obtain ⟨_, ⟨⟩, hprops, hup'⟩ := hup
    rw [ofNCells, hprops, Option.bind_some, hget p List.mem_cons_self]
    cases hpar : (m.node a).parent with
    | none => exact ih hup₀ hget
    | some b =>
      rw [hpar] at hup'
      exact ih hup' fun q hq => hget q (List.mem_cons_of_mem _ hq)

/-- A run ends with the value of the nearest node on the way up, and with the default if there
is none. -/
def CellsRight (run : Nat → Option (BitVec 32)) (get : Props → Option (BitVec 32))
    (default : BitVec 32) (n : Node) : Prop :=
  ∃ fuel, run fuel = some (((n.props :: n.up).findSome? get).getD default)

theorem cellsRight_iff {a : Nat} {n : Node} (h : Shows m a n) :
    CellsRight (ofNCells get default m · a) get default n ↔
      ∃ p ∈ n.props :: n.up, (get p).isSome := by
  have hup : Ups m (some a) (n.props :: n.up) := ⟨a, rfl, h.props, h.up⟩
  constructor
  · rintro ⟨fuel, hrun⟩
    by_contra hnone
    have hget : ∀ p ∈ n.props :: n.up, get p = none := fun p hp => by
      simpa using fun hsome => hnone ⟨p, hp, hsome⟩
    have hloop := ofNCells_eq_none default fuel hup hget
    rw [show ofNCells get default m fuel a = _ from hrun] at hloop
    cases hloop
  · intro hget
    have hrun := ofNCells_of_mem default hup hget (Nat.le_refl _)
    obtain ⟨v, hv⟩ := Option.isSome_iff_exists.1 (List.findSome?_isSome_iff.2 hget)
    refine ⟨(n.props :: n.up).length, ?_⟩
    rw [hv, Option.getD_some, ← hv]
    exact hrun

end Cells

/-- At every node of every tree, the two functions are right exactly if the node or one of its
ancestors has the property. -/
theorem of_n_cells_right_iff {t : DeviceNode} {m : Mem} {root : Nat} {l : List Nat}
    (htree : IsTree m [] .other root t l) :
    List.Forall₂ (fun a n => Shows m a n ∧
      (CellsRight (ofNAddrCells m · a) Props.addressCells 2 n ↔
        ∃ p ∈ n.props :: n.up, p.addressCells.isSome) ∧
      (CellsRight (ofNSizeCells m · a) Props.sizeCells 1 n ↔
        ∃ p ∈ n.props :: n.up, p.sizeCells.isSome)) l (Of.ofParseDeviceTree t) :=
  htree.shows_root.imp fun _ _ h => ⟨h, cellsRight_iff h, cellsRight_iff h⟩

/-- A root with one child. -/
def pair (p : Props) : Mem where
  node a := if a = 0 then ⟨some p, .other, none, some 1, none⟩
    else ⟨some noProps, .other, some 0, none, none⟩

theorem isTree_pair (p : Props) : IsTree (pair p) [] .other 0 (.mk p [bare []]) [0, 1] :=
  ⟨⟨rfl, rfl, rfl⟩, [1], rfl, 1, [1], [], rfl, rfl, ⟨⟨rfl, rfl, rfl⟩, [], rfl, rfl, rfl⟩, rfl, rfl⟩

theorem of_n_cells_right_child :
    CellsRight (ofNAddrCells (pair { noProps with addressCells := some 1 }) · 1)
        Props.addressCells 2 ⟨noProps, .other, [{ noProps with addressCells := some 1 }]⟩ ∧
      ¬ CellsRight (ofNSizeCells (pair { noProps with addressCells := some 1 }) · 1)
        Props.sizeCells 1 ⟨noProps, .other, [{ noProps with addressCells := some 1 }]⟩ := by
  obtain _ | ⟨-, _ | ⟨⟨-, haddr, hsize⟩, -⟩⟩ :=
    of_n_cells_right_iff (isTree_pair { noProps with addressCells := some 1 })
  refine ⟨haddr.2 ⟨_, List.mem_cons_of_mem _ List.mem_cons_self, rfl⟩, fun h => ?_⟩
  obtain ⟨p, hp, hsome⟩ := hsize.1 h
  obtain rfl | hp := List.mem_cons.1 hp
  · cases hsome
  · cases List.mem_singleton.1 hp
    cases hsome

/-- The tree has no `#address-cells` and no `#size-cells`: there is no result for any fuel,
where `2` and `1` are the defaults. -/
theorem of_n_cells_no_default :
    IsTree (pair noProps) [] .other 0 (bare [bare []]) [0, 1] ∧
      (∀ fuel, ofNAddrCells (pair noProps) fuel 1 = none) ∧
      (∀ fuel, ofNSizeCells (pair noProps) fuel 1 = none) ∧
      ([noProps, noProps].findSome? Props.addressCells).getD 2 = 2 ∧
      ([noProps, noProps].findSome? Props.sizeCells).getD 1 = 1 := by
  have hup : Ups (pair noProps) (some 1) [noProps, noProps] := ⟨1, rfl, rfl, 0, rfl, rfl, rfl⟩
  have hget : ∀ p ∈ [noProps, noProps], p.addressCells = none ∧ p.sizeCells = none := by
    intro p hp
    cases List.eq_of_mem_replicate (n := 2) hp
    exact ⟨rfl, rfl⟩
  refine ⟨isTree_pair noProps, fun fuel => ?_, fun fuel => ?_, rfl, rfl⟩
  · exact ofNCells_eq_none 2 fuel hup fun p hp => (hget p hp).1
  · exact ofNCells_eq_none 1 fuel hup fun p hp => (hget p hp).2

end Minos.OfTree
