import SourceLineResolver.Parse
import Mathlib.Logic.Function.Basic

/-! # `LoadMapFromMemory`

The loader works on the buffer in place, as the source does: `strtok_r` splits it into
lines by writing NULs, and `ParseStackInfo` and `ParseCFIFrameInfo` read and write it
through pointers. `WindowsFrameInfo::ParseFromString` is outside the resolver and is a
parameter: it reads a string and yields the record's type, range and carrier. -/

namespace SourceLineResolver.Load
open SourceLineResolver.Libc SourceLineResolver.Tokenize SourceLineResolver.RangeMap
open SourceLineResolver.Types SourceLineResolver.Parse

variable {W : Type} (parseFromString : List UInt8 → Option (Nat × UInt64 × UInt64 × W))

def kMaxErrorsBeforeBailing : Nat := 100

/-! ## The module's record parsers -/

/-- `Module::ParseFile`; `none` when it returns `false`. -/
def parseFileRecord (m : Module W) (fileLine : List UInt8) : Option (Module W) :=
  (Parse.parseFile fileLine).map fun (index, name) => m.insertFile index name

/-- `Module::ParseFunction`: the new function object. -/
def parseFunctionRecord (functionLine : List UInt8) : Option Function :=
  (Parse.parseFunction functionLine).map fun (address, size, stackParamSize, name, params) =>
    ⟨name, address, size, stackParamSize, params, .empty⟩

/-- `Module::ParsePublicSymbol`: address 0 is accepted and not stored. -/
def parsePublicSymbolRecord (m : Module W) (publicLine : List UInt8) : Option (Module W) :=
  match Parse.parsePublicSymbol publicLine with
  | none => none
  | some (address, stackParamSize, name) =>
    if address = 0 then some m
    else (m.publicSymbols.store address ⟨name, address, stackParamSize⟩).map
      fun ps => { m with publicSymbols := ps }

/-- `Module::ParseCFIFrameInfo` on the buffer at `p`: its result, the module and the
buffer. The address and size are read with `strtoul` and no check. -/
def parseCFIFrameInfo (m : Module W) (buf : List UInt8) (p : Nat) :
    Bool × Module W × List UInt8 :=
  match strtokR buf p (bytes " \r\n") with
  | (none, buf, _) => (false, m, buf)
  | (some t, buf, cursor) =>
    if cstr buf t = bytes "INIT" then
      match strtokR buf cursor (bytes " \r\n") with
      | (none, buf, _) => (false, m, buf)
      | (some a, buf, cursor) =>
        match strtokR buf cursor (bytes " \r\n") with
        | (none, buf, _) => (false, m, buf)
        | (some s, buf, cursor) =>
          match strtokR buf cursor (bytes "\r\n") with
          | (none, buf, _) => (false, m, buf)
          | (some r, buf, _) =>
            let address := (strtoul (cstr buf a) 16).1
            let size := (strtoul (cstr buf s) 16).1
            (true, { m with cfiInitialRules :=
              (m.cfiInitialRules.storeRange address size (cstr buf r)).getD m.cfiInitialRules },
              buf)
    else
      match strtokR buf cursor (bytes "\r\n") with
      | (none, buf, _) => (false, m, buf)
      | (some r, buf, _) =>
        (true, { m with cfiDeltaRules :=
          m.cfiDeltaRules.assign (strtoul (cstr buf t) 16).1 (cstr buf r) }, buf)

/-- `Module::ParseStackInfo` on the line at `p`. After the platform token it writes a NUL
and steps one byte on, also when the token ended at the line's own NUL; on the buffer's last
line that step leaves the buffer, where the source reads undefined bytes and the model reads
NULs. -/
def parseStackInfo (m : Module W) (buf : List UInt8) (p : Nat) :
    Bool × Module W × List UInt8 :=
  let q := p + 6
  let platform := q + ((buf.drop q).takeWhile (· == 32)).length
  let e := platform + ((buf.drop platform).takeWhile
    fun c => !(kWhitespace.contains c || c == 0)).length
  let buf := buf.set e 0
  if cstr buf platform = bytes "WIN" then
    match parseFromString (cstr buf (e + 1)) with
    | none => (false, m, buf)
    | some (type, rva, codeSize, info) =>
      let infos := m.windowsFrameInfo type
      let infos := (infos.storeRange rva codeSize info).getD infos
      (true, { m with windowsFrameInfo := Function.update m.windowsFrameInfo type infos }, buf)
  else if cstr buf platform = bytes "CFI" then parseCFIFrameInfo m buf (e + 1)
  else (false, m, buf)

/-! ## The line loop -/

/-- The state of `LoadMapFromMemory`'s loop. `curFunc` points into the module's heap. -/
structure LoadState (W : Type) where
  module : Module W
  buffer : List UInt8
  savePtr : Nat
  curFunc : Option Nat
  lineNumber : Nat
  numErrors : Nat

/-- `LogParseError`: only the count is state; the log is not modelled. -/
def LoadState.logParseError (st : LoadState W) : LoadState W :=
  { st with numErrors := st.numErrors + 1 }

@[simp] theorem LoadState.logParseError_module (st : LoadState W) :
    st.logParseError.module = st.module := rfl

@[simp] theorem LoadState.logParseError_curFunc (st : LoadState W) :
    st.logParseError.curFunc = st.curFunc := rfl

@[simp] theorem LoadState.logParseError_numErrors (st : LoadState W) :
    st.logParseError.numErrors = st.numErrors + 1 := rfl

/-- `cur_func->lines.StoreRange (...)`, through the pointer. -/
def storeLine (heap : List Function) (ptr : Nat) (line : Line) : List Function :=
  heap.modify (fun f => { f with lines :=
    (f.lines.storeRange line.address line.size line).getD f.lines }) ptr

/-- The kind of record a line is, by the prefixes the loop tests in turn; a line with
none of them is a line record. -/
inductive RecordKind
  | file | stack | func | public | module | info | line
  deriving DecidableEq, Repr

def recordKind (line : List UInt8) : RecordKind :=
  if startsWith line "FILE " then .file
  else if startsWith line "STACK " then .stack
  else if startsWith line "FUNC " then .func
  else if startsWith line "PUBLIC " then .public
  else if startsWith line "MODULE " then .module
  else if startsWith line "INFO " then .info
  else .line

/-- The body of the loop for the line at `p`, `line_number` already counted. -/
def processLine (st : LoadState W) (p : Nat) : LoadState W :=
  let line := cstr st.buffer p
  match recordKind line with
  | .file =>
    match parseFileRecord st.module line with
    | some m => { st with module := m }
    | none => st.logParseError
  | .stack =>
    let (ok, m, buf) := parseStackInfo parseFromString st.module st.buffer p
    let st := { st with module := m, buffer := buf }
    if ok then st else st.logParseError
  | .func =>
    match parseFunctionRecord line with
    | none => { st with curFunc := none }.logParseError
    | some f =>
      let ptr := st.module.heap.length
      { st with
        curFunc := some ptr
        module := { st.module with
          heap := st.module.heap ++ [f]
          functions := (st.module.functions.storeRange f.address f.size ptr).getD
            st.module.functions } }
  | .public =>
    let st := { st with curFunc := none }
    match parsePublicSymbolRecord st.module line with
    | some m => { st with module := m }
    | none => st.logParseError
  | .module => st
  | .info => st
  | .line =>
    match st.curFunc with
    | none => st.logParseError
    | some ptr =>
      match parseLine line with
      | none => st.logParseError
      | some l => { st with module := { st.module with heap := storeLine st.module.heap ptr l } }

/-- The `while` loop, each turn fetching the next line with `strtok_r`; `fuel` bounds the
turns (`loadLines_fuel` shows the buffer's length suffices). -/
def loadLines : Nat → LoadState W → LoadState W
  | 0, st => st
  | fuel + 1, st =>
    match strtokR st.buffer st.savePtr (bytes "\r\n") with
    | (none, buf, save) => { st with buffer := buf, savePtr := save }
    | (some p, buf, save) =>
      let st := processLine parseFromString
        { st with buffer := buf, savePtr := save, lineNumber := st.lineNumber + 1 } p
      if st.numErrors > kMaxErrorsBeforeBailing then st else loadLines fuel st

/-! ## Loading -/

/-- The `while` loop moving `last_null_terminator` back over the trailing NULs. -/
def skipTrailingNulls (buf : List UInt8) : Nat → Nat
  | 0 => 0
  | l + 1 => if byteAt buf l = 0 then skipTrailingNulls buf l else l + 1

/-- The `for` loop over the first `n` bytes: each NUL becomes `_`. -/
def underscoreNuls : Nat → List UInt8 → List UInt8
  | 0, buf => buf
  | _ + 1, [] => []
  | n + 1, c :: cs => (if c = 0 then byte '_' else c) :: underscoreNuls n cs

/-- The buffer and the error count after the sanitising loops of a non-empty buffer. -/
def sanitize (memoryBuffer : List UInt8) : List UInt8 × Nat :=
  let buf := memoryBuffer.set (memoryBuffer.length - 1) 0
  let last := skipTrailingNulls buf (memoryBuffer.length - 1)
  (underscoreNuls last buf, if (buf.take last).contains 0 then 1 else 0)

theorem skipTrailingNulls_le (buf : List UInt8) : ∀ n, skipTrailingNulls buf n ≤ n
  | 0 => le_refl _
  | l + 1 => by
    unfold skipTrailingNulls
    split
    · exact (skipTrailingNulls_le buf l).trans (Nat.le_succ l)
    · exact le_refl _

/-- The bytes `last_null_terminator` moves back over are NULs. -/
theorem skipTrailingNulls_nuls (buf : List UInt8) :
    ∀ n i, skipTrailingNulls buf n ≤ i → i < n → byteAt buf i = 0
  | 0, _, _, h => absurd h (Nat.not_lt_zero _)
  | l + 1, i, hi, hl => by
    unfold skipTrailingNulls at hi
    split at hi
    next h0 =>
      rcases Nat.lt_succ_iff_lt_or_eq.mp hl with hl | rfl
      exacts [skipTrailingNulls_nuls buf l i hi hl, h0]
    next => omega

/-- It stops at the start of the buffer or after a byte that is not NUL. -/
theorem skipTrailingNulls_stop (buf : List UInt8) :
    ∀ n, skipTrailingNulls buf n = 0 ∨ byteAt buf (skipTrailingNulls buf n - 1) ≠ 0
  | 0 => .inl rfl
  | l + 1 => by
    unfold skipTrailingNulls
    split
    · exact skipTrailingNulls_stop buf l
    · exact .inr ‹_›

theorem byteAt_skipTrailingNulls (buf : List UInt8) :
    ∀ n, byteAt buf n = 0 → byteAt buf (skipTrailingNulls buf n) = 0
  | 0, h => h
  | l + 1, h => by
    unfold skipTrailingNulls
    split
    · exact byteAt_skipTrailingNulls buf l ‹_›
    · exact h

theorem underscoreNuls_eq : ∀ (n : Nat) (buf : List UInt8),
    underscoreNuls n buf = (buf.take n).map (fun c => if c = 0 then byte '_' else c) ++ buf.drop n
  | 0, buf => by simp [underscoreNuls]
  | _ + 1, [] => rfl
  | n + 1, c :: cs => by simp [underscoreNuls, underscoreNuls_eq n cs]

theorem byteAt_set_ne (buf : List UInt8) {i j : Nat} (h : i ≠ j) (v : UInt8) :
    byteAt (buf.set j v) i = byteAt buf i := by
  simp [byteAt, List.getD_eq_getElem?_getD, List.getElem?_set_ne (Ne.symm h)]

/-- A buffer NUL from `L` on ends in a run of NULs from `L`. -/
theorem drop_eq_replicate {buf : List UInt8} {L : Nat}
    (h : ∀ i, L ≤ i → i < buf.length → byteAt buf i = 0) :
    buf.drop L = List.replicate (buf.length - L) 0 := by
  refine List.eq_replicate_iff.mpr ⟨List.length_drop .., fun c hc => ?_⟩
  obtain ⟨j, hj, rfl⟩ := List.getElem_of_mem hc
  rw [List.length_drop] at hj
  have := h (L + j) (by omega) (by omega)
  simpa [byteAt, List.getD_eq_getElem?_getD,
    List.getElem?_eq_getElem (show L + j < buf.length by omega)] using this

/-- After the sanitising loops, with `L` the start of the run of NULs that ends the buffer
once its last byte is NUL: the bytes before `L` are the original ones with each NUL made
`_`, those from `L` on are NUL, and one error is counted exactly when a NUL came before
`L`. So the line loop sees the whole content but its last byte and trailing NULs. -/
theorem sanitize_spec {memoryBuffer : List UInt8} (h : memoryBuffer ≠ []) :
    ∃ L < memoryBuffer.length,
      (∀ i, L ≤ i → i < memoryBuffer.length - 1 → byteAt memoryBuffer i = 0) ∧
      (L = 0 ∨ byteAt memoryBuffer (L - 1) ≠ 0) ∧
      (sanitize memoryBuffer).1 =
        (memoryBuffer.take L).map (fun c => if c = 0 then byte '_' else c) ++
          List.replicate (memoryBuffer.length - L) 0 ∧
      (sanitize memoryBuffer).2 = (if (0 : UInt8) ∈ memoryBuffer.take L then 1 else 0) ∧
      cstr (sanitize memoryBuffer).1 0 =
        (memoryBuffer.take L).map (fun c => if c = 0 then byte '_' else c) := by
  have hn : 0 < memoryBuffer.length := List.length_pos.mpr h
  have hlast : memoryBuffer.length - 1 < memoryBuffer.length := by omega
  set buf := memoryBuffer.set (memoryBuffer.length - 1) 0
  set L := skipTrailingNulls buf (memoryBuffer.length - 1)
  have hL := skipTrailingNulls_le buf (memoryBuffer.length - 1)
  have hsame : ∀ i, i < memoryBuffer.length - 1 → byteAt buf i = byteAt memoryBuffer i :=
    fun i hi => byteAt_set_ne _ (by omega) _
  have htake : buf.take L = memoryBuffer.take L :=
    List.ext_getElem? fun i => by
      rw [List.getElem?_take, List.getElem?_take]
      split
      · rw [List.getElem?_set_ne (by omega)]
      · rfl
  have hdrop : buf.drop L = List.replicate (memoryBuffer.length - L) 0 := by
    rw [drop_eq_replicate fun i hi hlt => ?_, List.length_set]
    rcases Nat.lt_or_ge i (memoryBuffer.length - 1) with hi' | hi'
    · exact skipTrailingNulls_nuls buf _ i hi hi'
    · rw [show i = memoryBuffer.length - 1 by simp [buf] at hlt; omega]
      simp [buf, byteAt, List.getD_eq_getElem?_getD, List.getElem?_set_self hlast]
  have hfix : (0 : UInt8) ∉ (memoryBuffer.take L).map (fun c => if c = 0 then byte '_' else c) := by
    simp only [List.mem_map, not_exists, not_and]
    intro c _
    split <;> [decide; assumption]
  have hs : (sanitize memoryBuffer).1 =
      (memoryBuffer.take L).map (fun c => if c = 0 then byte '_' else c) ++
        List.replicate (memoryBuffer.length - L) 0 := by
    show underscoreNuls L buf = _
    rw [underscoreNuls_eq, htake, hdrop]
  refine ⟨L, by omega, fun i hi hlt => hsame i hlt ▸ skipTrailingNulls_nuls buf _ i hi hlt, ?_, hs,
    ?_, ?_⟩
  · rcases Nat.eq_zero_or_pos L with hL0 | hL0
    · exact .inl hL0
    · exact (skipTrailingNulls_stop buf _).imp_right fun h0 => hsame (L - 1) (by omega) ▸ h0
  · show (if (buf.take L).contains 0 then 1 else 0) = _
    rw [htake]
    simp
  · rw [hs, show memoryBuffer.length - L = memoryBuffer.length - L - 1 + 1 by omega,
      List.replicate_succ, cstr_text hfix]

theorem sanitize_spec_interior_nul :
    ([97, 0, 98, 0, 0] : List UInt8) ≠ [] ∧
    ∃ L < ([97, 0, 98, 0, 0] : List UInt8).length,
      (∀ i, L ≤ i → i < ([97, 0, 98, 0, 0] : List UInt8).length - 1 →
        byteAt [97, 0, 98, 0, 0] i = 0) ∧
      (L = 0 ∨ byteAt [97, 0, 98, 0, 0] (L - 1) ≠ 0) ∧
      (sanitize [97, 0, 98, 0, 0]).1 =
        (([97, 0, 98, 0, 0] : List UInt8).take L).map (fun c => if c = 0 then byte '_' else c) ++
          List.replicate (([97, 0, 98, 0, 0] : List UInt8).length - L) 0 ∧
      (sanitize [97, 0, 98, 0, 0]).2 =
        (if (0 : UInt8) ∈ ([97, 0, 98, 0, 0] : List UInt8).take L then 1 else 0) ∧
      cstr (sanitize [97, 0, 98, 0, 0]).1 0 =
        (([97, 0, 98, 0, 0] : List UInt8).take L).map (fun c => if c = 0 then byte '_' else c) :=
  ⟨by decide, sanitize_spec (by decide)⟩

/-- The loop's state at the start, on a sanitised buffer. -/
def LoadState.init (buf : List UInt8) (numErrors : Nat) : LoadState W :=
  ⟨.empty, buf, 0, none, 0, numErrors⟩

/-- `Module::LoadMapFromMemory` on a fresh module. An empty buffer is an empty module. -/
def loadMapFromMemory (memoryBuffer : List UInt8) : Module W :=
  if memoryBuffer = [] then .empty
  else
    let (buf, numErrors) := sanitize memoryBuffer
    let st := loadLines parseFromString (buf.length + 1) (LoadState.init buf numErrors)
    { st.module with isCorrupt := decide (st.numErrors > 0) }

/-- `ParseCFIFrameInfo` reads a delta's address with `strtoul` and no check, so a record
whose address is not a number is stored at 0 and counts no error. -/
theorem loadMapFromMemory_cfi_address_unchecked
    (parseFromString : List UInt8 → Option (Nat × UInt64 × UInt64 × Unit)) :
    (loadMapFromMemory parseFromString (bytes "STACK CFI zz rules\n")).isCorrupt = false ∧
    (loadMapFromMemory parseFromString (bytes "STACK CFI zz rules\n")).cfiDeltaRules.entries =
      [(0, bytes "rules")] :=
  ⟨rfl, rfl⟩

end SourceLineResolver.Load
