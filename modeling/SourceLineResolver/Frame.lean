import SourceLineResolver.Types

/-! # The frame and memory views

`StackFrame` and `MemoryRegion` belong to the stack walker (§6). The resolver reads the
frame's instruction, module base, frame base and registers, writes its function, source
and parameter fields, and reads memory a byte or a little-endian word at a time. -/

namespace SourceLineResolver.Frame

/-- What `ReadFuncParams` shows of a parameter whose size is even and at most 8: the word
at its address as a pointer, as the float or double in its low bytes, or masked to the
parameter's size. -/
inductive SimpleValue
  | pointer (value : UInt64)
  | float (bits : UInt32)
  | double (bits : UInt64)
  | hex (value : UInt64)
  deriving DecidableEq, Repr

/-- The text `ReadFuncParams` writes for a parameter, as the items it streams: the simple
value if any, then the byte dump after `hex:`. -/
structure ParamValue where
  simple : Option SimpleValue
  dump : List UInt8
  deriving DecidableEq, Repr

/-- Modelled from the spec: `StackFrame::ParamInfo`; `value` is `none` while unwritten. -/
structure ParamInfo where
  typeName : List UInt8
  typeSize : UInt64
  paramName : List UInt8
  value : Option ParamValue
  deriving DecidableEq, Repr

/-- Modelled from the spec: the fields of `StackFrame` the resolver uses (§6, "Frame
view"); `moduleBase` is `frame->module->base_address ()`, `frameBase` and `regValue` are
`GetFrameBase` and `GetRegValue`. -/
structure StackFrame where
  instruction : UInt64
  moduleBase : UInt64
  functionName : List UInt8
  functionBase : UInt64
  sourceFileName : List UInt8
  sourceLine : Int
  sourceLineBase : UInt64
  params : List ParamInfo
  frameBase : UInt64
  regValue : UInt64 → UInt64

/-- Modelled from the spec: the memory view (§6) as the bytes it holds. -/
structure MemoryRegion where
  byteAt : UInt64 → Option UInt8

namespace MemoryRegion

/-- `GetMemoryAtAddress (address, &uint8_t)`. -/
def getMemoryAtAddress8 (memory : MemoryRegion) (address : UInt64) : Option UInt8 :=
  memory.byteAt address

/-- `GetMemoryAtAddress (address, &uint64_t)`: the little-endian word, if all eight
bytes are held. -/
def getMemoryAtAddress64 (memory : MemoryRegion) (address : UInt64) : Option UInt64 :=
  ((List.range 8).mapM fun i => memory.byteAt (address + i.toUInt64)).map
    fun bs => bs.foldr (fun b v => b.toUInt64 + v * 256) 0

end MemoryRegion

end SourceLineResolver.Frame
