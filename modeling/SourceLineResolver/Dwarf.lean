import SourceLineResolver.Frame
import SourceLineResolver.Parse

/-! # `EvaluateDwarfExpression`

The evaluator runs a parameter's location program on a stack of 64-bit values and
returns the top, 0 meaning failure. The stack is a list with its top first. Every turn of
the source's loop ends in `s.push_back (val)`, where `val` is the variable the value
operations assign; the stack operations leave it as it was, and it starts
indeterminate, so the model takes its first value as an argument. The opcodes are those
of dwarf2enums.h, which is not present; their values are the DWARF standard's.

The source holds the stack in a `vector<uint64_t>` with its top at the back and reads it
by index; `evaluateDwarfExpressionVec` runs the loop that way, each access checked, and
never finds an index outside the vector. -/

namespace SourceLineResolver.Dwarf
open SourceLineResolver.Libc SourceLineResolver.Types SourceLineResolver.Frame
  SourceLineResolver.Parse

namespace DwOp
def addr : UInt8 := 0x03
def deref : UInt8 := 0x06
def const1u : UInt8 := 0x08
def const1s : UInt8 := 0x09
def const2u : UInt8 := 0x0a
def const2s : UInt8 := 0x0b
def const4u : UInt8 := 0x0c
def const4s : UInt8 := 0x0d
def const8u : UInt8 := 0x0e
def const8s : UInt8 := 0x0f
def dup : UInt8 := 0x12
def drop : UInt8 := 0x13
def over : UInt8 := 0x14
def pick : UInt8 := 0x15
def swap : UInt8 := 0x16
def rot : UInt8 := 0x17
def xderef : UInt8 := 0x18
def lit0 : UInt8 := 0x30
def lit31 : UInt8 := 0x4f
def reg0 : UInt8 := 0x50
def reg31 : UInt8 := 0x6f
def breg0 : UInt8 := 0x70
def breg31 : UInt8 := 0x8f
def regx : UInt8 := 0x90
def fbreg : UInt8 := 0x91
def derefSize : UInt8 := 0x94
def xderefSize : UInt8 := 0x95
end DwOp

/-- `(uint64_t) c` for the low `bits` bits of `v` read as a signed `char`, `short` or
`int`. -/
def signExtend (bits : Nat) (v : UInt64) : UInt64 :=
  let low := v.toNat % 2 ^ bits
  if low < 2 ^ (bits - 1) then low.toUInt64 else (low + (2 ^ 64 - 2 ^ bits)).toUInt64

/-- One turn of the loop before its final push: `none` where the source returns 0,
otherwise the stack and `val`. -/
def evalOp (frame : StackFrame) (memory : MemoryRegion) (base : UInt64) (ai : ArgLocInfo)
    (s : List UInt64) (val : UInt64) : Option (List UInt64 × UInt64) :=
  let op := ai.op
  if DwOp.reg0 ≤ op ∧ op ≤ DwOp.reg31 then some (s, frame.regValue (op - DwOp.reg0).toUInt64)
  else if op = DwOp.fbreg then some (s, base + ai.locValue1)
  else if op = DwOp.addr then some (s, ai.locValue1)
  else if op = DwOp.regx then some (s, frame.regValue ai.locValue1)
  else if DwOp.breg0 ≤ op ∧ op ≤ DwOp.breg31 then
    some (s, frame.regValue (op - DwOp.breg0).toUInt64 + ai.locValue1)
  else if op = DwOp.deref then
    match s with
    | [] => none
    | a :: s => (memory.getMemoryAtAddress64 a).map fun v => (s, v)
  else if DwOp.lit0 ≤ op ∧ op ≤ DwOp.lit31 then some (s, (op - DwOp.lit0).toUInt64)
  else if op = DwOp.const1u ∨ op = DwOp.const2u ∨ op = DwOp.const4u ∨ op = DwOp.const8u then
    some (s, ai.locValue1)
  else if op = DwOp.const1s then some (s, signExtend 8 ai.locValue1)
  else if op = DwOp.const2s then some (s, signExtend 16 ai.locValue1)
  else if op = DwOp.const4s then some (s, signExtend 32 ai.locValue1)
  else if op = DwOp.const8s then some (s, ai.locValue1)
  else if op = DwOp.dup then
    match s with
    | [] => none
    | x :: s => some (x :: x :: s, val)
  else if op = DwOp.drop then
    match s with
    | [] => none
    | _ :: s => some (s, val)
  else if op = DwOp.pick then
    if s = [] then none
    else if s.length - 1 < ai.locValue1.toNat then none
    else some (s.getD ai.locValue1.toNat 0 :: s, val)
  else if op = DwOp.over then
    match s with
    | x :: y :: s => some (y :: x :: y :: s, val)
    | _ => none
  else if op = DwOp.swap then
    match s with
    | x :: y :: s => some (y :: x :: s, val)
    | _ => none
  else if op = DwOp.rot then
    match s with
    | x :: y :: z :: s => some (y :: z :: x :: s, val)
    | _ => none
  else if op = DwOp.derefSize ∨ op = DwOp.xderef ∨ op = DwOp.xderefSize then none
  else some (s, val)

/-- The loop over the program, each turn pushing `val`. -/
def evalOps (frame : StackFrame) (memory : MemoryRegion) (base : UInt64) :
    List ArgLocInfo → List UInt64 → UInt64 → Option (List UInt64)
  | [], s, _ => some s
  | ai :: loc, s, val =>
    match evalOp frame memory base ai s val with
    | none => none
    | some (s, val) => evalOps frame memory base loc (val :: s) val

/-- `EvaluateDwarfExpression`, `val` starting as `val₀`: the final top, or 0. -/
def evaluateDwarfExpression (frame : StackFrame) (memory : MemoryRegion)
    (loc : List ArgLocInfo) (val₀ : UInt64) : UInt64 :=
  match evalOps frame memory frame.frameBase loc [] val₀ with
  | some s => s.headD 0
  | none => 0

/-! ## The DWARF stack machine -/

/-- The value a value operation pushes. -/
def valueOf (frame : StackFrame) (base : UInt64) (ai : ArgLocInfo) : Option UInt64 :=
  let op := ai.op
  if DwOp.reg0 ≤ op ∧ op ≤ DwOp.reg31 then some (frame.regValue (op - DwOp.reg0).toUInt64)
  else if op = DwOp.regx then some (frame.regValue ai.locValue1)
  else if DwOp.breg0 ≤ op ∧ op ≤ DwOp.breg31 then
    some (frame.regValue (op - DwOp.breg0).toUInt64 + ai.locValue1)
  else if op = DwOp.fbreg then some (base + ai.locValue1)
  else if op = DwOp.addr then some ai.locValue1
  else if DwOp.lit0 ≤ op ∧ op ≤ DwOp.lit31 then some (op - DwOp.lit0).toUInt64
  else if op = DwOp.const1u ∨ op = DwOp.const2u ∨ op = DwOp.const4u ∨ op = DwOp.const8u ∨
    op = DwOp.const8s then some ai.locValue1
  else if op = DwOp.const1s then some (signExtend 8 ai.locValue1)
  else if op = DwOp.const2s then some (signExtend 16 ai.locValue1)
  else if op = DwOp.const4s then some (signExtend 32 ai.locValue1)
  else none

/-- One operation of the DWARF stack machine, each changing the stack by its own effect
only: value operations push their value, `dup`, `drop`, `over`, `swap`, `rot` and
`pick` rearrange, `deref` replaces an address by the word at it. `none` on underflow, an
out-of-range `pick`, a failed read or an operation outside the machine. -/
def machineOp (frame : StackFrame) (memory : MemoryRegion) (base : UInt64) (ai : ArgLocInfo) :
    List UInt64 → Option (List UInt64)
  | s =>
    if ai.op = DwOp.dup then
      match s with | x :: s => some (x :: x :: s) | [] => none
    else if ai.op = DwOp.drop then
      match s with | _ :: s => some s | [] => none
    else if ai.op = DwOp.over then
      match s with | y :: x :: s => some (x :: y :: x :: s) | _ => none
    else if ai.op = DwOp.swap then
      match s with | y :: x :: s => some (x :: y :: s) | _ => none
    else if ai.op = DwOp.rot then
      match s with | z :: y :: x :: s => some (y :: x :: z :: s) | _ => none
    else if ai.op = DwOp.pick then
      if ai.locValue1.toNat < s.length then some (s.getD ai.locValue1.toNat 0 :: s) else none
    else if ai.op = DwOp.deref then
      match s with
      | a :: s => (memory.getMemoryAtAddress64 a).map (· :: s)
      | [] => none
    else (valueOf frame base ai).map (· :: s)

def machineOps (frame : StackFrame) (memory : MemoryRegion) (base : UInt64) :
    List ArgLocInfo → List UInt64 → Option (List UInt64)
  | [], s => some s
  | ai :: loc, s => (machineOp frame memory base ai s).bind (machineOps frame memory base loc)

/-- The reference evaluator of a location program: the final top, 0 on failure or an
empty stack. -/
def machineResult (frame : StackFrame) (memory : MemoryRegion) (loc : List ArgLocInfo) :
    UInt64 :=
  match machineOps frame memory frame.frameBase loc [] with
  | some s => s.headD 0
  | none => 0

/-- After `drop` pops the top, the loop's final push puts the last value back:
`lit1 lit2 drop` gives 2, where the DWARF machine gives 1. -/
theorem evaluateDwarfExpression_drop_pushes_stale (val₀ : UInt64) :
    let frame : StackFrame := ⟨0, 0, [], 0, [], 0, 0, [], 0, fun _ => 0⟩
    let memory : MemoryRegion := ⟨fun _ => none⟩
    let loc : List ArgLocInfo := [⟨DwOp.lit0 + 1, 0, 0⟩, ⟨DwOp.lit0 + 2, 0, 0⟩, ⟨DwOp.drop, 0, 0⟩]
    evaluateDwarfExpression frame memory loc val₀ = 2 ∧ machineResult frame memory loc = 1 :=
  ⟨rfl, rfl⟩

/-- An operation the loop does not handle matches no branch and falls through to the push
of `val`: `lit5 plus` gives 5, and `plus` alone gives `val`'s indeterminate start. -/
theorem evaluateDwarfExpression_unsupported_pushes_val (frame : StackFrame)
    (memory : MemoryRegion) (val₀ : UInt64) :
    evaluateDwarfExpression frame memory [⟨DwOp.lit0 + 5, 0, 0⟩, ⟨0x22, 0, 0⟩] val₀ = 5 ∧
      evaluateDwarfExpression frame memory [⟨0x22, 0, 0⟩] val₀ = val₀ :=
  ⟨rfl, rfl⟩

/-! ## Programs of values and reads

On an operation that pushes a value, or replaces an address by the word at it, the loop's
final push is the push the operation makes itself. On a program of such operations the
evaluator computes what the DWARF stack machine does, whatever `val` starts as. -/

/-- Opcodes compared as numbers. -/
theorem opcode_le_iff {a b : UInt8} : a ≤ b ↔ a.toNat ≤ b.toNat := Iff.rfl

theorem opcode_eq_iff {a b : UInt8} : a = b ↔ a.toNat = b.toNat := ⟨congrArg _, UInt8.toNat.inj⟩

section Values
variable {frame : StackFrame} {memory : MemoryRegion} {base : UInt64}

/-- The operations with a value are none of the stack operations. -/
theorem valueOf_op {ai : ArgLocInfo} {v : UInt64} (h : valueOf frame base ai = some v) :
    ai.op ≠ DwOp.dup ∧ ai.op ≠ DwOp.drop ∧ ai.op ≠ DwOp.over ∧ ai.op ≠ DwOp.swap ∧
      ai.op ≠ DwOp.rot ∧ ai.op ≠ DwOp.pick ∧ ai.op ≠ DwOp.deref := by
  obtain ⟨op, l1, l2⟩ := ai
  refine ⟨?_, ?_, ?_, ?_, ?_, ?_, ?_⟩ <;> rintro rfl <;> cases h

theorem evalOp_valueOf {ai : ArgLocInfo} {v : UInt64} (h : valueOf frame base ai = some v)
    (s : List UInt64) (val : UInt64) : evalOp frame memory base ai s val = some (s, v) := by
  obtain ⟨op, l1, l2⟩ := ai
  by_cases hreg : DwOp.reg0 ≤ op ∧ op ≤ DwOp.reg31
  · simp only [valueOf, evalOp, if_pos hreg] at h ⊢
    cases h; rfl
  by_cases hbreg : DwOp.breg0 ≤ op ∧ op ≤ DwOp.breg31
  · have hne : op ≠ DwOp.fbreg ∧ op ≠ DwOp.addr ∧ op ≠ DwOp.regx := by
      simp only [DwOp.breg0, DwOp.breg31, DwOp.fbreg, DwOp.addr, DwOp.regx, opcode_le_iff, ne_eq,
        opcode_eq_iff, UInt8.reduceToNat] at hbreg ⊢
      omega
    simp only [valueOf, evalOp, if_neg hreg, if_neg hne.1, if_neg hne.2.1, if_neg hne.2.2,
      if_pos hbreg] at h ⊢
    cases h; rfl
  by_cases hlit : DwOp.lit0 ≤ op ∧ op ≤ DwOp.lit31
  · have hne : op ≠ DwOp.fbreg ∧ op ≠ DwOp.addr ∧ op ≠ DwOp.regx ∧ op ≠ DwOp.deref := by
      simp only [DwOp.lit0, DwOp.lit31, DwOp.fbreg, DwOp.addr, DwOp.regx, DwOp.deref,
        opcode_le_iff, ne_eq, opcode_eq_iff, UInt8.reduceToNat] at hlit ⊢
      omega
    simp only [valueOf, evalOp, if_neg hreg, if_neg hne.1, if_neg hne.2.1, if_neg hne.2.2.1,
      if_neg hne.2.2.2, if_neg hbreg, if_pos hlit] at h ⊢
    cases h; rfl
  have hop : op = DwOp.regx ∨ op = DwOp.fbreg ∨ op = DwOp.addr ∨ op = DwOp.const1u ∨
      op = DwOp.const2u ∨ op = DwOp.const4u ∨ op = DwOp.const8u ∨ op = DwOp.const8s ∨
      op = DwOp.const1s ∨ op = DwOp.const2s ∨ op = DwOp.const4s := by
    by_contra hne
    simp only [not_or] at hne
    simp only [valueOf, if_neg hreg, if_neg hbreg, if_neg hlit, hne, or_self, if_false] at h
    cases h
  rcases hop with rfl | rfl | rfl | rfl | rfl | rfl | rfl | rfl | rfl | rfl | rfl <;>
    exact (Option.some.inj h) ▸ rfl

theorem machineOp_valueOf {ai : ArgLocInfo} {v : UInt64} (h : valueOf frame base ai = some v)
    (s : List UInt64) : machineOp frame memory base ai s = some (v :: s) := by
  obtain ⟨h1, h2, h3, h4, h5, h6, h7⟩ := valueOf_op h
  simp only [machineOp, if_neg h1, if_neg h2, if_neg h3, if_neg h4, if_neg h5, if_neg h6,
    if_neg h7, h, Option.map_some']

/-- A turn of the loop on an operation with a value or on `deref`, its final push included,
is the machine's step. -/
theorem evalOp_push {ai : ArgLocInfo} (h : (valueOf frame base ai).isSome ∨ ai.op = DwOp.deref)
    (s : List UInt64) (val : UInt64) :
    (evalOp frame memory base ai s val).map (fun p => p.2 :: p.1) = machineOp frame memory base ai s := by
  rcases h with h | h
  · obtain ⟨v, hv⟩ := Option.isSome_iff_exists.mp h
    rw [evalOp_valueOf hv, machineOp_valueOf hv]
    rfl
  · obtain ⟨op, l1, l2⟩ := ai
    obtain rfl : op = DwOp.deref := h
    cases s with
    | nil => rfl
    | cons a s =>
      show ((memory.getMemoryAtAddress64 a).map fun v => (s, v)).map (fun p => p.2 :: p.1) =
        (memory.getMemoryAtAddress64 a).map (· :: s)
      cases memory.getMemoryAtAddress64 a <;> rfl

/-- The loop over a program of operations with a value and `deref`s runs the machine. -/
theorem evalOps_eq_machineOps : ∀ (loc : List ArgLocInfo),
    (∀ ai ∈ loc, (valueOf frame base ai).isSome ∨ ai.op = DwOp.deref) →
    ∀ s val, evalOps frame memory base loc s val = machineOps frame memory base loc s
  | [], _, _, _ => rfl
  | ai :: loc, h, s, val => by
    have e : (evalOp frame memory base ai s val).map (fun p => p.2 :: p.1) =
        machineOp frame memory base ai s := evalOp_push (h ai (List.mem_cons_self _ _)) s val
    rw [evalOps, machineOps, ← e]
    cases evalOp frame memory base ai s val with
    | none => rfl
    | some p => exact evalOps_eq_machineOps loc (fun ai hai => h ai (List.mem_cons_of_mem _ hai)) _ _

end Values

/-- On a location program each of whose operations pushes a value or replaces an address by
the word at it, `EvaluateDwarfExpression` computes what the DWARF stack machine does,
whatever `val` starts as. -/
theorem evaluateDwarfExpression_eq_machineResult (frame : StackFrame) (memory : MemoryRegion)
    (loc : List ArgLocInfo)
    (hloc : ∀ ai ∈ loc, (valueOf frame frame.frameBase ai).isSome ∨ ai.op = DwOp.deref)
    (val₀ : UInt64) :
    evaluateDwarfExpression frame memory loc val₀ = machineResult frame memory loc := by
  rw [evaluateDwarfExpression, machineResult, evalOps_eq_machineOps loc hloc]

theorem evaluateDwarfExpression_eq_machineResult_fbreg_deref :
    (∀ ai ∈ [(⟨DwOp.fbreg, 8, 0⟩ : ArgLocInfo), ⟨DwOp.deref, 0, 0⟩],
      (valueOf ⟨0, 0, [], 0, [], 0, 0, [], 0x1000, fun _ => 0⟩ 0x1000 ai).isSome ∨
        ai.op = DwOp.deref) ∧
    evaluateDwarfExpression ⟨0, 0, [], 0, [], 0, 0, [], 0x1000, fun _ => 0⟩
        ⟨fun a => if 0x1008 ≤ a ∧ a < 0x1010 then some 7 else none⟩
        [⟨DwOp.fbreg, 8, 0⟩, ⟨DwOp.deref, 0, 0⟩] 0 =
      machineResult ⟨0, 0, [], 0, [], 0, 0, [], 0x1000, fun _ => 0⟩
        ⟨fun a => if 0x1008 ≤ a ∧ a < 0x1010 then some 7 else none⟩
        [⟨DwOp.fbreg, 8, 0⟩, ⟨DwOp.deref, 0, 0⟩] :=
  ⟨by decide, evaluateDwarfExpression_eq_machineResult _ _ _ (by decide) 0⟩

/-! ## The stack as the source holds it -/

/-- An element access `s[i]` of the source, checked: `throw ()` stands for an index
outside the vector. -/
def access (s : List UInt64) (i : Nat) : Except Unit UInt64 :=
  match s[i]? with
  | some v => pure v
  | none => throw ()

/-- `std::swap (s[i], s[j])`, each access checked. -/
def swapAt (s : List UInt64) (i j : Nat) : Except Unit (List UInt64) := do
  let a ← access s i
  let b ← access s j
  pure ((s.set i b).set j a)

/-- One turn of the loop before its final push, on the vector: the stack operations as
the source writes them, `pure none` where it returns 0; the other operations leave the
stack alone and are those of `evalOp`. -/
def evalOpVec (frame : StackFrame) (memory : MemoryRegion) (base : UInt64) (ai : ArgLocInfo)
    (s : List UInt64) (val : UInt64) : Except Unit (Option (List UInt64 × UInt64)) :=
  let op := ai.op
  if op = DwOp.deref then
    if s.isEmpty then pure none
    else do
      let addr ← access s (s.length - 1)
      pure ((memory.getMemoryAtAddress64 addr).map fun v => (s.dropLast, v))
  else if op = DwOp.dup then
    if s.isEmpty then pure none
    else do
      let x ← access s (s.length - 1)
      pure (some (s ++ [x], val))
  else if op = DwOp.drop then
    if s.isEmpty then pure none else pure (some (s.dropLast, val))
  else if op = DwOp.pick then
    if s.isEmpty then pure none
    else
      let index := s.length - 1
      if index < ai.locValue1.toNat then pure none
      else do
        let x ← access s (index - ai.locValue1.toNat)
        pure (some (s ++ [x], val))
  else if op = DwOp.over then
    if s.length < 2 then pure none
    else do
      let x ← access s (s.length - 2)
      pure (some (s ++ [x], val))
  else if op = DwOp.swap then
    if s.length < 2 then pure none
    else do
      let s ← swapAt s (s.length - 1) (s.length - 2)
      pure (some (s, val))
  else if op = DwOp.rot then
    if s.length < 3 then pure none
    else do
      let s ← swapAt s (s.length - 1) (s.length - 3)
      let s ← swapAt s (s.length - 1) (s.length - 2)
      pure (some (s, val))
  else pure (evalOp frame memory base ai s val)

def evalOpsVec (frame : StackFrame) (memory : MemoryRegion) (base : UInt64) :
    List ArgLocInfo → List UInt64 → UInt64 → Except Unit (Option (List UInt64))
  | [], s, _ => pure (some s)
  | ai :: loc, s, val => do
    match ← evalOpVec frame memory base ai s val with
    | none => pure none
    | some (s, val) => evalOpsVec frame memory base loc (s ++ [val]) val

/-- `EvaluateDwarfExpression` on the vector: `s.back ()` at the end. -/
def evaluateDwarfExpressionVec (frame : StackFrame) (memory : MemoryRegion)
    (loc : List ArgLocInfo) (val₀ : UInt64) : Except Unit UInt64 := do
  match ← evalOpsVec frame memory frame.frameBase loc [] val₀ with
  | some s => if s.isEmpty then pure 0 else access s (s.length - 1)
  | none => pure 0

@[simp] theorem access_cons_zero (x : UInt64) (s : List UInt64) : access (x :: s) 0 = pure x := by
  simp [access]

@[simp] theorem access_cons_succ (x : UInt64) (s : List UInt64) (i : Nat) :
    access (x :: s) (i + 1) = access s i := by
  simp [access]

@[simp] theorem access_append_length_add (u s : List UInt64) (i : Nat) :
    access (u ++ s) (u.length + i) = access s i := by
  simp only [access, List.getElem?_append_right (Nat.le_add_right _ _), Nat.add_sub_cancel_left]

@[simp] theorem access_append_length (u s : List UInt64) : access (u ++ s) u.length = access s 0 := by
  simpa using access_append_length_add u s 0

/-- `pick`'s access `s[s.size () - 1 - i]` reads the `i`-th element from the top. -/
theorem access_reverse {s : List UInt64} {i : Nat} (h : i < s.length) :
    access s.reverse (s.length - 1 - i) = pure (s.getD i 0) := by
  rw [access, List.getElem?_reverse (by omega), show s.length - 1 - (s.length - 1 - i) = i by omega,
    List.getD_eq_getElem?_getD, List.getElem?_eq_getElem h]
  rfl

/-- The operations other than the stack operations leave the stack as it was. -/
theorem evalOp_stack_free (frame : StackFrame) (memory : MemoryRegion) (base : UInt64)
    {ai : ArgLocInfo} (h1 : ai.op ≠ DwOp.deref) (h2 : ai.op ≠ DwOp.dup) (h3 : ai.op ≠ DwOp.drop)
    (h4 : ai.op ≠ DwOp.pick) (h5 : ai.op ≠ DwOp.over) (h6 : ai.op ≠ DwOp.swap)
    (h7 : ai.op ≠ DwOp.rot) (s : List UInt64) (val : UInt64) :
    evalOp frame memory base ai s val = (evalOp frame memory base ai [] val).map fun r => (s, r.2) := by
  unfold evalOp
  simp only [apply_ite (Option.map _)]
  repeat' first
    | refine ite_congr rfl (fun _ => ?_) (fun _ => ?_)
    | rfl
    | contradiction

/-- A turn on the vector, which is the list stack reversed, is the turn `evalOp` takes, and
no access falls outside the vector. -/
theorem evalOpVec_reverse (frame : StackFrame) (memory : MemoryRegion) (base : UInt64)
    (ai : ArgLocInfo) (s : List UInt64) (val : UInt64) :
    evalOpVec frame memory base ai s.reverse val =
      pure ((evalOp frame memory base ai s val).map fun r => (r.1.reverse, r.2)) := by
  obtain ⟨op, v1, v2⟩ := ai
  by_cases h1 : op = DwOp.deref
  · subst h1
    match s with
    | [] => rfl
    | a :: t =>
      show _ = pure (Option.map _ ((memory.getMemoryAtAddress64 a).map fun v => (t, v)))
      simp only [Option.map_map, Function.comp_def, List.reverse_cons]
      generalize t.reverse = u
      simp [evalOpVec, DwOp.deref]
  by_cases h2 : op = DwOp.dup
  · subst h2
    match s with
    | [] => rfl
    | x :: t =>
      show _ = pure (Option.map _ (some (x :: x :: t, val)))
      simp only [Option.map_some', List.reverse_cons, List.append_assoc, List.singleton_append]
      generalize t.reverse = u
      simp [evalOpVec, DwOp.deref, DwOp.dup]
  by_cases h3 : op = DwOp.drop
  · subst h3
    match s with
    | [] => rfl
    | x :: t =>
      show _ = pure (Option.map _ (some (t, val)))
      simp only [Option.map_some', List.reverse_cons]
      generalize t.reverse = u
      simp [evalOpVec, DwOp.deref, DwOp.dup, DwOp.drop]
  by_cases h4 : op = DwOp.pick
  · subst h4
    rcases eq_or_ne s [] with rfl | hs
    · rfl
    show _ = pure (Option.map _ (if s = [] then none else if s.length - 1 < v1.toNat then none
      else some (s.getD v1.toNat 0 :: s, val)))
    by_cases hv : s.length - 1 < v1.toNat
    · simp [evalOpVec, hs, hv, DwOp.deref, DwOp.dup, DwOp.drop, DwOp.pick]
    · simp [evalOpVec, hs, hv, DwOp.deref, DwOp.dup, DwOp.drop, DwOp.pick,
        access_reverse (show v1.toNat < s.length by have := List.length_pos.mpr hs; omega)]
  by_cases h5 : op = DwOp.over
  · subst h5
    match s with
    | [] => rfl
    | [_] => rfl
    | x :: y :: t =>
      show _ = pure (Option.map _ (some (y :: x :: y :: t, val)))
      simp only [Option.map_some', List.reverse_cons, List.append_assoc, List.singleton_append,
        List.cons_append]
      generalize t.reverse = u
      simp [evalOpVec, show ¬ u.length + 2 < 2 by omega, DwOp.deref, DwOp.dup, DwOp.drop, DwOp.pick,
        DwOp.over]
  by_cases h6 : op = DwOp.swap
  · subst h6
    match s with
    | [] => rfl
    | [_] => rfl
    | x :: y :: t =>
      show _ = pure (Option.map _ (some (y :: x :: t, val)))
      simp only [Option.map_some', List.reverse_cons, List.append_assoc, List.singleton_append,
        List.cons_append]
      generalize t.reverse = u
      simp [evalOpVec, swapAt, show ¬ u.length + 2 < 2 by omega, DwOp.deref, DwOp.dup, DwOp.drop,
        DwOp.pick, DwOp.over, DwOp.swap]
  by_cases h7 : op = DwOp.rot
  · subst h7
    match s with
    | [] => rfl
    | [_] => rfl
    | [_, _] => rfl
    | x :: y :: z :: t =>
      show _ = pure (Option.map _ (some (y :: z :: x :: t, val)))
      simp only [Option.map_some', List.reverse_cons, List.append_assoc, List.singleton_append,
        List.cons_append]
      generalize t.reverse = u
      simp [evalOpVec, swapAt, show ¬ u.length + 3 < 3 by omega, DwOp.deref, DwOp.dup, DwOp.drop,
        DwOp.pick, DwOp.over, DwOp.swap, DwOp.rot]
  rw [evalOpVec, if_neg h1, if_neg h2, if_neg h3, if_neg h4, if_neg h5, if_neg h6, if_neg h7,
    evalOp_stack_free frame memory base h1 h2 h3 h4 h5 h6 h7,
    evalOp_stack_free frame memory base h1 h2 h3 h4 h5 h6 h7 s, Option.map_map]
  rfl

theorem evalOpsVec_reverse (frame : StackFrame) (memory : MemoryRegion) (base : UInt64) :
    ∀ (loc : List ArgLocInfo) (s : List UInt64) (val : UInt64),
      evalOpsVec frame memory base loc s.reverse val =
        pure ((evalOps frame memory base loc s val).map List.reverse)
  | [], _, _ => rfl
  | ai :: loc, s, val => by
    rw [evalOpsVec, evalOpVec_reverse, pure_bind, evalOps]
    cases evalOp frame memory base ai s val with
    | none => rfl
    | some r =>
      show evalOpsVec frame memory base loc (r.1.reverse ++ [r.2]) r.2 = _
      rw [← List.reverse_cons, evalOpsVec_reverse frame memory base loc]

/-- Every access the evaluator makes to its stack, `s.back ()`, `s[s.size () - 2]`, the
elements the `rot` and `swap` swaps exchange and `s[index]` of `pick` for any 64-bit
operand, lies inside the vector: the checked run never throws, and it returns what the
list model returns. -/
theorem evaluateDwarfExpressionVec_eq_pure (frame : StackFrame) (memory : MemoryRegion)
    (loc : List ArgLocInfo) (val₀ : UInt64) :
    evaluateDwarfExpressionVec frame memory loc val₀ =
      pure (evaluateDwarfExpression frame memory loc val₀) := by
  rw [evaluateDwarfExpressionVec, evaluateDwarfExpression, ← List.reverse_nil, evalOpsVec_reverse,
    pure_bind]
  match evalOps frame memory frame.frameBase loc [] val₀ with
  | none => rfl
  | some [] => rfl
  | some (x :: t) =>
    simpa using access_reverse (s := x :: t) (List.length_pos.mpr (List.cons_ne_nil x t))

/-! ## The signed additions of `fbreg` and `bregN`

`(long long) base + (long long) ai.locValue1` is an addition of signed 64-bit values, which
is undefined when the sum leaves their range. `evalOp` gives the sum modulo 2^64, what the
addition gives where it is defined. -/

/-- `(long long) x`: the 64-bit value read in two's complement. -/
def longLong (x : UInt64) : Int := if x.toNat < 2 ^ 63 then x.toNat else x.toNat - 2 ^ 64

/-- A value a `long long` holds. -/
def InLongLong (v : Int) : Prop := -2 ^ 63 ≤ v ∧ v < 2 ^ 63

instance : DecidablePred InLongLong := fun _ => inferInstanceAs (Decidable (_ ∧ _))

/-- Where the signed sum does not overflow, the 64-bit sum the model computes is it. -/
theorem longLong_add {x y : UInt64} (h : InLongLong (longLong x + longLong y)) :
    longLong (x + y) = longLong x + longLong y := by
  have hx := x.toNat_lt_size
  have hy := y.toNat_lt_size
  have e : (x + y).toNat = (x.toNat + y.toNat) % 2 ^ 64 := rfl
  unfold InLongLong longLong at *
  rw [e]
  simp only [UInt64.size] at hx hy
  split_ifs at * <;> omega

/-- The operand `1` that `ParseFuncParam` reads from `91:1`, added to the frame base
`0x7fffffffffffffff`, takes the signed sum of `fbreg` past `LLONG_MAX`. -/
theorem fbreg_sum_overflows (memory : MemoryRegion) (val₀ : UInt64) :
    let frame : StackFrame := ⟨0, 0, [], 0, [], 0, 0, [], 0x7fffffffffffffff, fun _ => 0⟩
    parseLoc (bytes "91:1") = some ⟨DwOp.fbreg, 1, 0⟩ ∧
      ¬ InLongLong (longLong frame.frameBase + longLong 1) ∧
      evaluateDwarfExpression frame memory [⟨DwOp.fbreg, 1, 0⟩] val₀ = 0x8000000000000000 :=
  ⟨by decide, by decide, rfl⟩

end SourceLineResolver.Dwarf
