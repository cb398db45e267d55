import SourceLineResolver.Dwarf
import SourceLineResolver.Libc

/-! # `ReadFuncParams`

Each parameter of the function is shown with the word at the address its location
program computes. The stream's text is kept as the items written to it (`ParamValue`);
the formatting of numbers by `ostream` is not modelled. -/

namespace SourceLineResolver.Params
open SourceLineResolver.Libc SourceLineResolver.Types SourceLineResolver.Frame
open SourceLineResolver.Dwarf

/-- `mask` of `ReadFuncParams`: `~0` shifted left, then right, by
`(sizeof (uint64_t) - typeSize) << 3`. -/
def sizeMask (typeSize : UInt64) : UInt64 :=
  let bitsz := (8 - typeSize) <<< 3
  ~~~(0 : UInt64) <<< bitsz >>> bitsz

/-- The simple value shown for a parameter whose size is even and at most 8. -/
def showSimpleType (typeName : List UInt8) (typeSize value : UInt64) : Option SimpleValue :=
  if typeSize % 2 = 0 ∧ typeSize ≤ 8 then
    some <|
      if strFind typeName "*" || strFind typeName "&" then .pointer value
      else if strFind typeName "float" then .float value.toUInt32
      else if strFind typeName "double" then .double value
      else .hex (value &&& sizeMask typeSize)
  else none

/-- The byte dump: the byte at each offset, a failed read leaving the byte read before. -/
def dumpBytes (memory : MemoryRegion) (addr : UInt64) : UInt8 → List Nat → List UInt8
  | _, [] => []
  | prev, j :: js =>
    let b := (memory.getMemoryAtAddress8 (addr + j.toUInt64)).getD prev
    b :: dumpBytes memory addr b js

/-- The loop of `ReadFuncParams` from the entries written so far; the `return` on a failed
read keeps those. `val₀` is the indeterminate start of the evaluator's `val`. -/
def readParams (frame : StackFrame) (memory : MemoryRegion) (val₀ : UInt64) :
    List FuncParam → List ParamInfo → List ParamInfo
  | [], info => info
  | p :: ps, info =>
    let param : ParamInfo := ⟨p.typeName, p.typeSize, p.paramName, none⟩
    if p.typeSize = 0 then readParams frame memory val₀ ps (info ++ [param])
    else
      let addr := evaluateDwarfExpression frame memory p.locs val₀
      if addr = 0 then readParams frame memory val₀ ps info
      else
        match memory.getMemoryAtAddress64 addr with
        | none => info
        | some value =>
          -- the first byte is held, the word at `addr` having been read
          let dump := dumpBytes memory addr 0 (List.range p.typeSize.toNat)
          readParams frame memory val₀ ps
            (info ++ [{ param with value := some ⟨showSimpleType p.typeName p.typeSize value, dump⟩ }])

/-- `ReadFuncParams (frame, params, memory, info)`: the new `info`. -/
def readFuncParams (frame : StackFrame) (params : List FuncParam) (memory : Option MemoryRegion)
    (val₀ : UInt64) (info : List ParamInfo) : List ParamInfo :=
  match memory with
  | none => info
  | some memory => if params = [] then info else readParams frame memory val₀ params []

/-- A parameter whose word cannot be read ends the loop with the entries written before it:
`y`, of size 0, is shown when it is alone, and lost when it follows `x`, whose location
`DW_OP_addr 0x1000` lies outside the memory. -/
theorem readFuncParams_unreadable_drops_rest (frame : StackFrame) (val₀ : UInt64)
    (info : List ParamInfo) :
    let memory : MemoryRegion := ⟨fun _ => none⟩
    let x : FuncParam := ⟨bytes "int", 4, bytes "x", [⟨DwOp.addr, 0x1000, 0⟩]⟩
    let y : FuncParam := ⟨bytes "T", 0, bytes "y", [⟨DwOp.addr, 0x2000, 0⟩]⟩
    readFuncParams frame [y] (some memory) val₀ info = [⟨bytes "T", 0, bytes "y", none⟩] ∧
      readFuncParams frame [x, y] (some memory) val₀ info = [] :=
  ⟨rfl, rfl⟩

/-! ## The loop, turn by turn

Each turn of the `for` loop either returns, continues with nothing written, or pushes the
parameter's entry. The loop writes the entries of the turns before the first `return`, in
order, over an `info` it has cleared. -/

/-- What one turn of the loop of `ReadFuncParams` does with a parameter. -/
inductive ParamTurn where
  /-- `return`: the word at the parameter's address cannot be read. -/
  | stop
  /-- `continue` with nothing written: the location evaluates to 0. -/
  | skip
  /-- `info.push_back (param)`. -/
  | push (entry : ParamInfo)
  deriving DecidableEq, Repr

namespace ParamTurn

/-- The entry the turn writes. -/
def entry : ParamTurn → Option ParamInfo
  | push e => some e
  | _ => none

/-- Whether the loop goes on after the turn. -/
def continues : ParamTurn → Bool
  | stop => false
  | _ => true

@[simp]
theorem entry_eq_some {t : ParamTurn} {e : ParamInfo} : t.entry = some e ↔ t = push e := by
  cases t <;> simp [entry]

end ParamTurn

/-- The bytes of the dump are one per offset. -/
@[simp]
theorem length_dumpBytes (memory : MemoryRegion) (addr : UInt64) :
    ∀ (prev : UInt8) (js : List Nat), (dumpBytes memory addr prev js).length = js.length
  | _, [] => rfl
  | _, _ :: js => congrArg (· + 1) (length_dumpBytes memory addr _ js)

section Turns
variable (frame : StackFrame) (memory : MemoryRegion) (val₀ : UInt64)

/-- The turn of the loop on `p`. -/
def paramTurn (p : FuncParam) : ParamTurn :=
  let param : ParamInfo := ⟨p.typeName, p.typeSize, p.paramName, none⟩
  if p.typeSize = 0 then .push param
  else
    let addr := evaluateDwarfExpression frame memory p.locs val₀
    if addr = 0 then .skip
    else
      match memory.getMemoryAtAddress64 addr with
      | none => .stop
      | some value =>
        .push { param with value := some ⟨showSimpleType p.typeName p.typeSize value,
          dumpBytes memory addr 0 (List.range p.typeSize.toNat)⟩ }

theorem readParams_cons (p : FuncParam) (ps : List FuncParam) (info : List ParamInfo) :
    readParams frame memory val₀ (p :: ps) info =
      match paramTurn frame memory val₀ p with
      | .stop => info
      | .skip => readParams frame memory val₀ ps info
      | .push e => readParams frame memory val₀ ps (info ++ [e]) := by
  rw [readParams, paramTurn]
  dsimp only
  split_ifs
  · rfl
  · rfl
  · cases memory.getMemoryAtAddress64 (evaluateDwarfExpression frame memory p.locs val₀) <;> rfl

/-- An entry a turn writes is its parameter's, with a value exactly when the size is not 0,
and then a dump of as many bytes as the size. -/
theorem paramTurn_push {p : FuncParam} {e : ParamInfo} (h : paramTurn frame memory val₀ p = .push e) :
    (e.typeName, e.typeSize, e.paramName) = (p.typeName, p.typeSize, p.paramName) ∧
      (e.value.isSome ↔ e.typeSize ≠ 0) ∧ ∀ v ∈ e.value, v.dump.length = e.typeSize.toNat := by
  unfold paramTurn at h
  dsimp only at h
  split_ifs at h with h0
  · cases h
    simp [h0]
  · split at h
    · cases h
    · cases h
      simp [h0]

/-- The loop appends to `info` the entries of the turns before the first `return`. -/
theorem readParams_eq (ps : List FuncParam) (info : List ParamInfo) :
    readParams frame memory val₀ ps info =
      info ++ ((ps.map (paramTurn frame memory val₀)).takeWhile ParamTurn.continues).filterMap
        ParamTurn.entry := by
  induction ps generalizing info with
  | nil => simp [readParams]
  | cons p ps ih =>
    rw [readParams_cons, List.map_cons, List.takeWhile_cons]
    cases paramTurn frame memory val₀ p <;> simp [ParamTurn.continues, ParamTurn.entry, ih]

/-- The entries the loop appends are those of parameters, in the parameters' order. -/
theorem readParams_sublist (ps : List FuncParam) (info : List ParamInfo) :
    ((readParams frame memory val₀ ps info).map fun e => (e.typeName, e.typeSize, e.paramName)).Sublist
      (info.map (fun e => (e.typeName, e.typeSize, e.paramName)) ++
        ps.map fun p => (p.typeName, p.typeSize, p.paramName)) := by
  induction ps generalizing info with
  | nil => simp [readParams]
  | cons p ps ih =>
    rw [readParams_cons]
    split
    · exact List.sublist_append_left _ _
    · exact (ih info).trans ((List.sublist_cons_self _ _).append_left _)
    · next e he =>
      simpa [(paramTurn_push frame memory val₀ he).1] using ih (info ++ [e])

/-- `ReadFuncParams` with a memory: an empty parameter list leaves `info`; otherwise `info`
is cleared and holds the entries of the turns before the first `return`. -/
theorem readFuncParams_eq_turns (params : List FuncParam) (info : List ParamInfo) :
    readFuncParams frame params (some memory) val₀ info =
      if params = [] then info
      else ((params.map (paramTurn frame memory val₀)).takeWhile ParamTurn.continues).filterMap
        ParamTurn.entry := by
  rw [readFuncParams]
  split_ifs
  · rfl
  · rw [readParams_eq, List.nil_append]

/-- What `ReadFuncParams` writes for a non-empty parameter list: entries of the parameters,
in their order, each with a value exactly when its size is not 0, the value's dump holding
as many bytes as the size. -/
theorem readFuncParams_entries (params : List FuncParam) (hp : params ≠ []) (info : List ParamInfo) :
    let out := readFuncParams frame params (some memory) val₀ info
    (out.map fun e => (e.typeName, e.typeSize, e.paramName)).Sublist
        (params.map fun p => (p.typeName, p.typeSize, p.paramName)) ∧
      ∀ e ∈ out, (e.value.isSome ↔ e.typeSize ≠ 0) ∧
        ∀ v ∈ e.value, v.dump.length = e.typeSize.toNat := by
  intro out
  have hout : out = readParams frame memory val₀ params [] := by
    simp only [out, readFuncParams, if_neg hp]
  refine ⟨by simpa [hout] using readParams_sublist frame memory val₀ params [], fun e he => ?_⟩
  rw [hout, readParams_eq, List.nil_append, List.mem_filterMap] at he
  obtain ⟨t, ht, hte⟩ := he
  obtain ⟨p, -, rfl⟩ := List.mem_map.mp ((List.takeWhile_sublist _).subset ht)
  exact (paramTurn_push frame memory val₀ (ParamTurn.entry_eq_some.mp hte)).2

end Turns

theorem readFuncParams_entries_int_and_sized_zero :
    [(⟨bytes "int", 4, bytes "x", [⟨DwOp.addr, 0x1000, 0⟩]⟩ : FuncParam), ⟨bytes "T", 0, bytes "y", []⟩] ≠ [] ∧
      let out := readFuncParams ⟨0, 0, [], 0, [], 0, 0, [], 0, fun _ => 0⟩
        [⟨bytes "int", 4, bytes "x", [⟨DwOp.addr, 0x1000, 0⟩]⟩, ⟨bytes "T", 0, bytes "y", []⟩]
        (some ⟨fun a => if 0x1000 ≤ a ∧ a < 0x1008 then some 7 else none⟩) 0 []
      (out.map fun e => (e.typeName, e.typeSize, e.paramName)).Sublist
          ([(⟨bytes "int", 4, bytes "x", [⟨DwOp.addr, 0x1000, 0⟩]⟩ : FuncParam), ⟨bytes "T", 0, bytes "y", []⟩].map
            fun p => (p.typeName, p.typeSize, p.paramName)) ∧
        ∀ e ∈ out, (e.value.isSome ↔ e.typeSize ≠ 0) ∧
          ∀ v ∈ e.value, v.dump.length = e.typeSize.toNat :=
  ⟨by decide, readFuncParams_entries _ _ 0 _ (by decide) []⟩

end SourceLineResolver.Params
