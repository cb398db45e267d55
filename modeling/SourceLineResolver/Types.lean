import SourceLineResolver.RangeMap

/-! # The module's data

basic_source_line_resolver_types.h is not among the sources; the records below follow
the spec's data model (§3) with the fields the resolver reads and writes. Text is kept
as bytes. A `long` is an `Int`, the parsers only producing values in its range. -/

namespace SourceLineResolver.Types
open SourceLineResolver.RangeMap

/-- Modelled from the spec: `Line` (§3). -/
structure Line where
  address : UInt64
  size : UInt64
  sourceFileId : Int
  line : Int
  deriving DecidableEq, Repr

/-- Modelled from the spec: `ArgLocInfo`, one operation of a location program (§3,
"LocOp"): an opcode byte and two operands, 0 where the record gives none. -/
structure ArgLocInfo where
  op : UInt8
  locValue1 : UInt64 := 0
  locValue2 : UInt64 := 0
  deriving DecidableEq, Repr

/-- Modelled from the spec: `FuncParam` (§3, "Parameter"). -/
structure FuncParam where
  typeName : List UInt8
  typeSize : UInt64
  paramName : List UInt8
  locs : List ArgLocInfo
  deriving DecidableEq, Repr

/-- Modelled from the spec: `Function` (§3), with `stack_param_size` as
`parameterSize` and its line records in a containment map of their own. -/
structure Function where
  name : List UInt8
  address : UInt64
  size : UInt64
  parameterSize : Int
  params : List FuncParam
  lines : ContainedRangeMap Line

instance : Inhabited Function := ⟨⟨[], 0, 0, 0, [], .empty⟩⟩

/-- Modelled from the spec: `PublicSymbol` (§3). -/
structure PublicSymbol where
  name : List UInt8
  address : UInt64
  parameterSize : Int
  deriving DecidableEq, Repr

/-- Modelled from the spec: `BasicSourceLineResolver::Module` (§3, §4.4). `functions`
stores pointers into `heap`, where the function objects live, as the source's
`linked_ptr`s do; a function's lines are added through the pointer after it is stored.
`files` is the `std::map<long, string>` of which the resolver uses `insert` and `find`;
`windowsFrameInfo` is indexed by the frame info's type; `W` is the opaque
`WindowsFrameInfo` carrier. -/
structure Module (W : Type) where
  files : List (Int × List UInt8)
  functions : ContainedRangeMap Nat
  heap : List Function
  publicSymbols : AddressMap PublicSymbol
  windowsFrameInfo : Nat → ContainedRangeMap W
  cfiInitialRules : ContainedRangeMap (List UInt8)
  cfiDeltaRules : StdMap (List UInt8)
  isCorrupt : Bool

namespace Module
variable {W : Type}

/-- A module with no records, as constructed before loading. -/
def empty : Module W :=
  ⟨[], .empty, [], .empty, fun _ => .empty, .empty, .empty, false⟩

/-- The function a stored pointer designates. -/
def function (m : Module W) (p : Nat) : Function := m.heap.getD p default

/-- `files_.insert (make_pair (index, name))`, which keeps an id already present. -/
def insertFile (m : Module W) (index : Int) (name : List UInt8) : Module W :=
  if (m.files.lookup index).isSome then m else { m with files := (index, name) :: m.files }

/-- Every stored function lies over its own range, through a pointer into the heap, and
every public symbol is stored under its own address, which is not 0. -/
structure WellFormed (m : Module W) : Prop where
  functions : ∀ r ∈ m.functions.ranges, r.entry < m.heap.length ∧
    (m.function r.entry).address = r.base ∧ (m.function r.entry).size = r.size
  publicSymbols : ∀ e ∈ m.publicSymbols.entries, e.2.address = e.1 ∧ e.1 ≠ 0

theorem wellFormed_empty : (empty : Module W).WellFormed := ⟨by simp [empty, ContainedRangeMap.empty],
  by simp [empty, AddressMap.empty]⟩

/-- Two modules with the same functions, heap and public symbols. -/
structure SameSymbols (m m' : Module W) : Prop where
  functions : m'.functions = m.functions
  heap : m'.heap = m.heap
  publicSymbols : m'.publicSymbols = m.publicSymbols

theorem SameSymbols.wellFormed {m m' : Module W} (h : SameSymbols m m') (hm : m.WellFormed) :
    m'.WellFormed := by
  obtain ⟨hf, hh, hp⟩ := h
  exact ⟨by simpa [hf, function, hh] using hm.functions, by simpa [hp] using hm.publicSymbols⟩

end Module

end SourceLineResolver.Types
