import Minos.Lib.Word

/-!
# Device trees

What `drivers/of/of.c` makes of a flattened device tree: the nodes in the order
`of_iterate_all_node` visits them, each with its class and its ancestors, and the translation
of a `reg` entry of a node to a physical address through the `ranges` of the buses above it.

* `fdt_getprop` returns a pointer into the tree and a length. A `Property` keeps both: `cell k`
  is the word `k` words behind the pointer, whether or not it is still the property's.
* Cell counts are `int`s read from the tree, so they can be negative. `of_translate_one` and
  `of_translate_address_index` add them up as `Nat`s here: sums that overflow an `int` are not
  modelled.
* The cells of an address on its way up are kept as the number `of_read_number` reads from
  them, which is all the code does with them.
-/

namespace Minos.Of

open Minos.Lib

structure Property where
  len : Nat
  cell : Nat → BitVec 32

/-- The property with the cells `l`, and zeros behind it. -/
def cells (l : List Nat) : Property := ⟨4 * l.length, fun k => .ofNat 32 (l.getD k 0)⟩

/-- The values of `device_type` that `of_parse_dt_class` knows. -/
inductive DeviceType
  | cpu
  | memory
  | pci
  | virtualMachine
  | vmbox
  | unknown
  deriving DecidableEq, Repr

/-- What `of.c` reads of one node. -/
structure Props where
  /-- A `device_type` that is not empty. -/
  deviceType : Option DeviceType
  interruptController : Bool
  /-- The name is `timer`. -/
  timer : Bool
  /-- `simple-bus` is one of the strings of `compatible`. -/
  simpleBus : Bool
  virtualDevice : Bool
  compatible : Bool
  addressCells : Option (BitVec 32)
  sizeCells : Option (BitVec 32)
  reg : Option Property
  ranges : Option Property

inductive DeviceNode
  | mk (props : Props) (children : List DeviceNode)

/-! ## The nodes and their classes -/

inductive DtClass
  | cpu
  | memory
  | irqchip
  | timer
  | simpleBus
  | pciBus
  | vdev
  | pdev
  | vm
  | vmbox
  | virqchip
  | other
  deriving DecidableEq, Repr

/-- `of_parse_dt_class`. -/
def ofParseDtClass (parent : DtClass) (p : Props) : DtClass :=
  match p.deviceType with
  | some .cpu => .cpu
  | some .memory => .memory
  | some .pci => .pciBus
  | some .virtualMachine => .vm
  | some .vmbox => .vmbox
  | some .unknown => .other
  | none =>
    if p.interruptController then .irqchip
    else if p.timer then .timer
    else if p.simpleBus then .simpleBus
    else if p.virtualDevice then .vdev
    else
      match parent with
      | .irqchip | .cpu | .pdev | .vdev => parent
      | _ => if p.compatible then .pdev else .other

/-- `struct device_node`: `up` are the ancestors, the parent first. -/
structure Node where
  props : Props
  cls : DtClass
  up : List Props

mutual

/-- `__of_parse_device_node` and `__iterate_device_node`: a node, then its children. -/
def visit (up : List Props) (parent : DtClass) : DeviceNode → List Node
  | .mk p children =>
    ⟨p, ofParseDtClass parent p, up⟩ ::
      visitAll (p :: up) (ofParseDtClass parent p) children

def visitAll (up : List Props) (parent : DtClass) : List DeviceNode → List Node
  | [] => []
  | n :: ns => visit up parent n ++ visitAll up parent ns

end

/-- `of_parse_device_tree`: the class of the root is not parsed. -/
def ofParseDeviceTree : DeviceNode → List Node
  | .mk p children => ⟨p, .other, []⟩ :: visitAll [p] .other children

/-! ## Counting cells -/

/-- `fdt_n_size_cells` and `fdt_n_addr_cells`: the nearest ancestor that has the property; the
root looks at itself. -/
def fdtNCells (get : Props → Option (BitVec 32)) (n : Node) : BitVec 32 :=
  ((if n.up.isEmpty then [n.props] else n.up).findSome? get).getD 2

def fdtNSizeCells : Node → BitVec 32 := fdtNCells Props.sizeCells

def fdtNAddrCells : Node → BitVec 32 := fdtNCells Props.addressCells

/-- `of_n_addr_count`: the divisor is a `size_t`. -/
def ofNAddrCount (n : Node) : Nat :=
  match n.props.reg with
  | none => 0
  | some reg => reg.len / ((fdtNAddrCells n + fdtNSizeCells n).signExtend 64 * 4).toNat

/-- `of_read_number`: the low 64 bits of `size` cells. -/
def ofReadNumber (cell : Nat → BitVec 32) : Nat → Nat
  | 0 => 0
  | size + 1 => u64 (ofReadNumber cell size * 2 ^ 32) + (cell size).toNat

def ofMaxAddrCells : Int := 4

/-- `of_check_counts`. -/
def ofCheckCounts (na ns : BitVec 32) : Prop :=
  0 < na.toInt ∧ na.toInt ≤ ofMaxAddrCells ∧ 0 < ns.toInt

instance (na ns : BitVec 32) : Decidable (ofCheckCounts na ns) :=
  inferInstanceAs (Decidable (_ ∧ _ ∧ _))

/-- `of_bus_default_count_cells`. Its defaults are not those of `fdt_n_size_cells`. -/
def ofBusDefaultCountCells (p : Props) : BitVec 32 × BitVec 32 :=
  (p.addressCells.getD 2, p.sizeCells.getD 1)

/-! ## Translation -/

def ofBadAddr : Nat := 2 ^ 64 - 1

/-- `of_bus_default_map`: the offset of `da` in the range. -/
def ofBusDefaultMap (da : Nat) (range : Nat → BitVec 32) (na ns pna : Nat) : Nat :=
  let cp := ofReadNumber range na
  let s := ofReadNumber (fun k => range (na + pna + k)) ns
  if da < cp ∨ u64 (cp + s) ≤ da then ofBadAddr else da - cp

/-- `of_bus_default_translate`: a bus with one address cell keeps 32 bits. -/
def ofBusDefaultTranslate (a offset na : Nat) : Nat :=
  if 1 < na then u64 (a + offset) else u32 (a + offset)

/-- `of_translate_one`: `ranges` are those of the bus that is left; without any, addresses are
the parent's. -/
def ofTranslateOne (ranges : Option Property) (da na ns pna : Nat) : Option Nat :=
  match ranges with
  | none => some (ofBusDefaultTranslate 0 da pna)
  | some r =>
    if r.len = 0 then some (ofBusDefaultTranslate 0 da pna)
    else
      (List.range (r.len / 4 / (na + pna + ns))).findSome? fun i =>
        let range := fun k => r.cell (i * (na + pna + ns) + k)
        let offset := ofBusDefaultMap da range na ns pna
        if offset = ofBadAddr then none
        else some (ofBusDefaultTranslate (ofReadNumber (fun k => range (na + k)) pna) offset pna)

/-- The loop of `__of_translate_address`, from the bus `p` to the root. -/
def ofTranslateUp : Props → List Props → Nat → Nat → Nat → Nat
  | _, [], da, _, _ => da
  | p, q :: up, da, na, ns =>
    let (pna, pns) := ofBusDefaultCountCells q
    if ofCheckCounts pna pns then
      match ofTranslateOne p.ranges da na ns pna.toNat with
      | none => ofBadAddr
      | some da => ofTranslateUp q up da pna.toNat pns.toNat
    else ofBadAddr

/-- `__of_translate_address`. The cells are counted by the parent alone. -/
def ofTranslateAddress (n : Node) (inAddr : Nat → BitVec 32) : Nat :=
  match n.up with
  | [] => ofBadAddr
  | p :: up =>
    let (na, ns) := ofBusDefaultCountCells p
    if ofCheckCounts na ns then
      ofTranslateUp p up (ofReadNumber inAddr na.toNat) na.toNat ns.toNat
    else ofBadAddr

/-- `of_translate_address_index`: address and size of an entry of `reg`, `none` for an error.
The root has offset 0 and no entry. -/
def ofTranslateAddressIndex (n : Node) (index : Nat) : Option (Nat × Nat) :=
  let na := (fdtNAddrCells n).toNat
  let ns := (fdtNSizeCells n).toNat
  if n.up.isEmpty then none
  else if (fdtNAddrCells n).toInt < 1 ∨ (fdtNSizeCells n).toInt < 0 then none
  else
    match n.props.reg with
    | none => none
    | some reg =>
      let cell := fun k => reg.cell (index * (na + ns) + k)
      if reg.len ≤ index * 4 * (na + ns) then none
      else if ns = 0 then some (ofReadNumber cell na, 0)
      else
        let address := ofTranslateAddress n cell
        if address = ofBadAddr then none
        -- a size of more than two cells is read as its first
        else some (address, ofReadNumber (fun k => cell (na + k)) (if ns = 2 then 2 else 1))

end Minos.Of
