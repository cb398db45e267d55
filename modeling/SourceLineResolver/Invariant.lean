import SourceLineResolver.Load

/-! # What loading preserves

Every turn of the line loop keeps the module well formed: a function is stored over its
own range through a pointer to it, and a public symbol under its own non-zero address.
The record parsers for `FILE` and `STACK` records leave functions, heap and public
symbols alone; `FUNC`, `PUBLIC` and line records change one of them. -/

namespace SourceLineResolver.Invariant
open SourceLineResolver.Libc SourceLineResolver.RangeMap SourceLineResolver.Types
open SourceLineResolver.Load SourceLineResolver.Parse

variable {W : Type} (parseFromString : List UInt8 → Option (Nat × UInt64 × UInt64 × W))

theorem parseFileRecord_sameSymbols {m m' : Module W} {line : List UInt8}
    (h : parseFileRecord m line = some m') : m.SameSymbols m' := by
  simp only [parseFileRecord, Option.map_eq_some'] at h
  obtain ⟨_, _, rfl⟩ := h
  unfold Module.insertFile
  split <;> exact ⟨rfl, rfl, rfl⟩

theorem parseCFIFrameInfo_sameSymbols (m : Module W) (buf : List UInt8) (p : Nat) :
    m.SameSymbols (parseCFIFrameInfo m buf p).2.1 := by
  unfold parseCFIFrameInfo
  repeat' split
  all_goals exact ⟨rfl, rfl, rfl⟩

theorem parseStackInfo_sameSymbols (m : Module W) (buf : List UInt8) (p : Nat) :
    m.SameSymbols (parseStackInfo parseFromString m buf p).2.1 := by
  unfold parseStackInfo
  dsimp only
  repeat' split
  all_goals first | exact ⟨rfl, rfl, rfl⟩ | exact parseCFIFrameInfo_sameSymbols m _ _

theorem heap_append_getD {heap : List Function} {f : Function} {q : Nat}
    (hq : q < heap.length) : (heap ++ [f]).getD q default = heap.getD q default := by
  simp only [List.getD_eq_getElem?_getD, List.getElem?_append_left hq]

/-- Storing a line changes the lines of one function and nothing else. -/
theorem storeLine_getD (heap : List Function) (ptr : Nat) (l : Line) (q : Nat) :
    { (storeLine heap ptr l).getD q default with lines := .empty } =
      { heap.getD q default with lines := .empty } := by
  simp only [storeLine, List.getD_eq_getElem?_getD, List.getElem?_modify]
  cases heap[q]?
  · rfl
  · dsimp only [Functor.map, Option.map, Option.getD]
    split <;> rfl

theorem storeLine_getD_ne (heap : List Function) {ptr q : Nat} (h : ptr ≠ q) (l : Line) :
    (storeLine heap ptr l).getD q default = heap.getD q default := by
  simp only [storeLine, List.getD_eq_getElem?_getD, List.getElem?_modify, if_neg h]
  cases heap[q]? <;> rfl

theorem storeLine_getD_self (heap : List Function) {ptr : Nat} (h : ptr < heap.length) (l : Line) :
    ((storeLine heap ptr l).getD ptr default).lines =
      ((heap.getD ptr default).lines.storeRange l.address l.size l).getD
        (heap.getD ptr default).lines := by
  simp only [storeLine, List.getD_eq_getElem?_getD, List.getElem?_modify, if_pos rfl,
    List.getElem?_eq_getElem h]
  rfl

theorem parsePublicSymbolRecord_wellFormed {m m' : Module W} {line : List UInt8}
    (h : parsePublicSymbolRecord m line = some m') (hm : m.WellFormed) : m'.WellFormed := by
  unfold parsePublicSymbolRecord at h
  split at h
  · cases h
  · split at h
    · cases h; exact hm
    · next address _ _ _ hne =>
      simp only [Option.map_eq_some', AddressMap.store] at h
      obtain ⟨ps, hps, rfl⟩ := h
      split at hps
      · cases hps
      · cases hps
        refine ⟨hm.functions, fun e he => ?_⟩
        rcases List.mem_cons.mp he with rfl | he
        exacts [⟨rfl, hne⟩, hm.publicSymbols e he]

theorem storeFunction_wellFormed {m : Module W} (f : Function) (hm : m.WellFormed) :
    ({ m with heap := m.heap ++ [f]
              functions := (m.functions.storeRange f.address f.size m.heap.length).getD
                m.functions } : Module W).WellFormed := by
  have old : ∀ r ∈ m.functions.ranges, r.entry < (m.heap ++ [f]).length ∧
      ((m.heap ++ [f]).getD r.entry default).address = r.base ∧
      ((m.heap ++ [f]).getD r.entry default).size = r.size := fun r hr => by
    obtain ⟨hlt, ha, hs⟩ := hm.functions r hr
    rw [heap_append_getD hlt]
    exact ⟨by simp; omega, ha, hs⟩
  refine ⟨fun r hr => ?_, hm.publicSymbols⟩
  simp only [Module.function]
  cases hst : m.functions.storeRange f.address f.size m.heap.length with
  | none => rw [hst] at hr; exact old r hr
  | some fs =>
    rw [hst] at hr
    rcases List.mem_cons.mp (ContainedRangeMap.storeRange_ranges hst ▸ hr) with rfl | hr
    · simp [List.getD_eq_getElem?_getD]
    · exact old r hr

/-- One turn of the loop keeps the module well formed. -/
theorem processLine_wellFormed (st : LoadState W) (p : Nat) (h : st.module.WellFormed) :
    (processLine parseFromString st p).module.WellFormed := by
  unfold processLine
  dsimp only
  split
  · split
    · exact (parseFileRecord_sameSymbols ‹_›).wellFormed h
    · exact h
  · have hs := parseStackInfo_sameSymbols parseFromString st.module st.buffer p
    rcases hq : parseStackInfo parseFromString st.module st.buffer p with ⟨ok, m, buf⟩
    rw [hq] at hs
    split <;> exact hs.wellFormed h
  · split
    · exact h
    · exact storeFunction_wellFormed _ h
  · split
    · exact parsePublicSymbolRecord_wellFormed ‹_› h
    · exact h
  · exact h
  · exact h
  · split
    · exact h
    · split
      · exact h
      · refine ⟨fun r hr => ?_, h.publicSymbols⟩
        obtain ⟨hlt, ha, hs⟩ := h.functions r hr
        have := storeLine_getD st.module.heap ‹_› ‹_› r.entry
        exact ⟨by simpa [storeLine] using hlt, (congrArg Function.address this).trans ha,
          (congrArg Function.size this).trans hs⟩

theorem loadLines_wellFormed :
    ∀ (fuel : Nat) (st : LoadState W), st.module.WellFormed →
      (loadLines parseFromString fuel st).module.WellFormed
  | 0, _, h => h
  | fuel + 1, st, h => by
    unfold loadLines
    split
    · exact h
    · dsimp only
      split
      · exact processLine_wellFormed parseFromString _ _ h
      · exact loadLines_wellFormed fuel _ (processLine_wellFormed parseFromString _ _ h)

/-- Every loaded module is well formed. -/
theorem loadMapFromMemory_wellFormed (memoryBuffer : List UInt8) :
    (loadMapFromMemory parseFromString memoryBuffer).WellFormed := by
  unfold loadMapFromMemory
  split
  · exact Module.wellFormed_empty
  · split
    next buf numErrors _ =>
    have h := loadLines_wellFormed parseFromString (buf.length + 1) (LoadState.init buf numErrors)
      Module.wellFormed_empty
    exact ⟨h.functions, h.publicSymbols⟩

theorem parsePublicSymbolRecord_keeps {m m' : Module W} {line : List UInt8}
    (h : parsePublicSymbolRecord m line = some m') :
    m'.functions = m.functions ∧ m'.heap = m.heap := by
  unfold parsePublicSymbolRecord at h
  split at h
  · cases h
  · split at h
    · cases h; exact ⟨rfl, rfl⟩
    · obtain ⟨_, _, rfl⟩ := Option.map_eq_some'.mp h
      exact ⟨rfl, rfl⟩

/-! ## One turn of the loop

What a turn does to the current function, the heap and the functions, by the record the
line holds. -/

section Step
variable (st : LoadState W) (p : Nat)

theorem processLine_curFunc :
    (processLine parseFromString st p).curFunc =
      match recordKind (cstr st.buffer p) with
      | .func => (parseFunctionRecord (cstr st.buffer p)).map fun _ => st.module.heap.length
      | .public => none
      | _ => st.curFunc := by
  unfold processLine
  dsimp only
  cases recordKind (cstr st.buffer p) <;> dsimp only
  case func => cases parseFunctionRecord (cstr st.buffer p) <;> rfl
  all_goals (repeat' split) <;> rfl

/-- The heap: a `FUNC` that parses appends its function, a line record that parses is
stored through the current function, and no other record touches it. -/
theorem processLine_heap :
    (processLine parseFromString st p).module.heap =
      match recordKind (cstr st.buffer p) with
      | .func => st.module.heap ++ (parseFunctionRecord (cstr st.buffer p)).toList
      | .line =>
        match st.curFunc, parseLine (cstr st.buffer p) with
        | some ptr, some l => storeLine st.module.heap ptr l
        | _, _ => st.module.heap
      | _ => st.module.heap := by
  unfold processLine
  dsimp only
  cases recordKind (cstr st.buffer p) <;> dsimp only
  case file => split; exacts [(parseFileRecord_sameSymbols ‹_›).heap, rfl]
  case stack => split <;> exact (parseStackInfo_sameSymbols parseFromString _ _ _).heap
  case public => split; exacts [(parsePublicSymbolRecord_keeps ‹_›).2, rfl]
  case func => cases parseFunctionRecord (cstr st.buffer p) <;> simp
  case line => cases st.curFunc <;> cases parseLine (cstr st.buffer p) <;> rfl

theorem processLine_functions :
    (processLine parseFromString st p).module.functions =
      match recordKind (cstr st.buffer p), parseFunctionRecord (cstr st.buffer p) with
      | .func, some f => (st.module.functions.storeRange f.address f.size
          st.module.heap.length).getD st.module.functions
      | _, _ => st.module.functions := by
  unfold processLine
  dsimp only
  cases recordKind (cstr st.buffer p) <;> dsimp only
  case file => split; exacts [(parseFileRecord_sameSymbols ‹_›).functions, rfl]
  case stack => split <;> exact (parseStackInfo_sameSymbols parseFromString _ _ _).functions
  case public => split; exacts [(parsePublicSymbolRecord_keeps ‹_›).1, rfl]
  case func => cases parseFunctionRecord (cstr st.buffer p) <;> rfl
  all_goals (repeat' split) <;> rfl

/-- A line record counts one error unless there is a current function and it parses. -/
theorem processLine_numErrors_of_line (hk : recordKind (cstr st.buffer p) = .line) :
    (processLine parseFromString st p).numErrors =
      st.numErrors + match st.curFunc, parseLine (cstr st.buffer p) with
        | some _, some _ => 0
        | _, _ => 1 := by
  unfold processLine
  dsimp only
  rw [hk]
  dsimp only
  cases st.curFunc <;> cases parseLine (cstr st.buffer p) <;> rfl

end Step
/-! ## The loop ends within its fuel

Every turn that finds a line moves `strtok_r`'s save pointer forward over a buffer whose
length never changes, so `buffer.length + 1` turns reach the end. -/

theorem parseCFIFrameInfo_length (m : Module W) (buf : List UInt8) (p : Nat) :
    (parseCFIFrameInfo m buf p).2.2.length = buf.length := by
  unfold parseCFIFrameInfo
  split
  · next h1 => exact strtokR_eq_length h1
  · next h1 =>
    have l1 := strtokR_eq_length h1
    split
    · split
      · next h2 => exact (strtokR_eq_length h2).trans l1
      · next h2 =>
        have l2 := (strtokR_eq_length h2).trans l1
        split
        · next h3 => exact (strtokR_eq_length h3).trans l2
        · next h3 =>
          have l3 := (strtokR_eq_length h3).trans l2
          split
          · next h4 => exact (strtokR_eq_length h4).trans l3
          · next h4 => exact (strtokR_eq_length h4).trans l3
    · split
      · next h2 => exact (strtokR_eq_length h2).trans l1
      · next h2 => exact (strtokR_eq_length h2).trans l1

theorem parseStackInfo_length (m : Module W) (buf : List UInt8) (p : Nat) :
    (parseStackInfo parseFromString m buf p).2.2.length = buf.length := by
  unfold parseStackInfo
  dsimp only
  split
  · split <;> simp
  · split
    · exact (parseCFIFrameInfo_length _ _ _).trans (List.length_set ..)
    · simp

/-- A turn keeps the buffer's length and the save pointer. -/
theorem processLine_buffer (st : LoadState W) (p : Nat) :
    (processLine parseFromString st p).buffer.length = st.buffer.length ∧
      (processLine parseFromString st p).savePtr = st.savePtr := by
  unfold processLine
  dsimp only
  cases recordKind (cstr st.buffer p) <;> dsimp only
  case stack =>
    have := parseStackInfo_length parseFromString st.module st.buffer p
    split <;> exact ⟨this, rfl⟩
  all_goals (repeat' split) <;> exact ⟨rfl, rfl⟩

/-- More fuel than the distance from the save pointer to the buffer's end changes nothing:
the loop has stopped by then. -/
theorem loadLines_fuel : ∀ (fuel : Nat) (st : LoadState W),
    st.buffer.length + 1 - st.savePtr ≤ fuel →
      ∀ k, loadLines parseFromString (fuel + k) st = loadLines parseFromString fuel st
  | 0, st, h, 0 => rfl
  | 0, st, h, k + 1 => by
    rw [Nat.zero_add, loadLines.eq_2, strtokR_past_end (by omega)]
    rfl
  | fuel + 1, st, h, k => by
    rw [show fuel + 1 + k = fuel + k + 1 by omega]
    unfold loadLines
    split
    · rfl
    · next p buf save hs =>
      dsimp only
      have hb := processLine_buffer parseFromString
        { st with buffer := buf, savePtr := save, lineNumber := st.lineNumber + 1 } p
      have hlen := strtokR_eq_length hs
      have hsave := strtokR_progress hs
      split
      · rfl
      · exact loadLines_fuel fuel _ (by simp only [hb.1, hb.2]; omega) k

/-- The fuel `LoadMapFromMemory` is given is enough for the whole loop. -/
theorem loadLines_init_fuel (buf : List UInt8) (n k : Nat) :
    loadLines parseFromString (buf.length + 1 + k) (LoadState.init buf n : LoadState W) =
      loadLines parseFromString (buf.length + 1) (LoadState.init buf n) :=
  loadLines_fuel parseFromString _ _ (by simp [LoadState.init]) k

/-! ## A function whose range is rejected -/

section Unreferenced
variable (st : LoadState W) (p : Nat)

theorem processLine_heap_length_le :
    st.module.heap.length ≤ (processLine parseFromString st p).module.heap.length := by
  rw [processLine_heap]
  split
  · simp
  · split <;> simp [storeLine]
  all_goals exact le_rfl

/-- A heap slot no range points to stays so: a turn stores a range only for the function it
appends. -/
theorem processLine_unreferenced {s : Nat} (hs : s < st.module.heap.length)
    (h : ∀ r ∈ st.module.functions.ranges, r.entry ≠ s) :
    ∀ r ∈ (processLine parseFromString st p).module.functions.ranges, r.entry ≠ s := by
  rw [processLine_functions]
  split
  · next f _ _ =>
    cases hst : st.module.functions.storeRange f.address f.size st.module.heap.length with
    | none => exact h
    | some fs =>
      intro r hr
      rcases List.mem_cons.mp (ContainedRangeMap.storeRange_ranges hst ▸ hr) with rfl | hr
      · exact Nat.ne_of_gt hs
      · exact h r hr
  · exact h

end Unreferenced

theorem loadLines_unreferenced {s : Nat} : ∀ (fuel : Nat) (st : LoadState W),
    s < st.module.heap.length → (∀ r ∈ st.module.functions.ranges, r.entry ≠ s) →
      ∀ r ∈ (loadLines parseFromString fuel st).module.functions.ranges, r.entry ≠ s
  | 0, _, _, h => h
  | fuel + 1, st, hs, h => by
    unfold loadLines
    split
    · exact h
    · next p buf save _ =>
      dsimp only
      let st' : LoadState W :=
        { st with buffer := buf, savePtr := save, lineNumber := st.lineNumber + 1 }
      have h' := processLine_unreferenced parseFromString st' p hs h
      split
      · exact h'
      · exact loadLines_unreferenced fuel _
          (Nat.lt_of_lt_of_le hs (processLine_heap_length_le parseFromString st' p)) h'

/-- A `FUNC` line that parses but whose range the functions container rejects: its
function is put on the heap, and no range points to it after that turn or any later turn
of the loop, so no lookup reaches it or the lines stored in it. -/
theorem processLine_rejected_function (st : LoadState W) (p : Nat) (hwf : st.module.WellFormed)
    {f : Function} (hk : recordKind (cstr st.buffer p) = .func)
    (hf : parseFunctionRecord (cstr st.buffer p) = some f)
    (hrej : st.module.functions.storeRange f.address f.size st.module.heap.length = none)
    (fuel : Nat) :
    (processLine parseFromString st p).module.heap.getD st.module.heap.length default = f ∧
    ∀ r ∈ (loadLines parseFromString fuel (processLine parseFromString st p)).module.functions.ranges,
      r.entry ≠ st.module.heap.length := by
  have hheap := processLine_heap parseFromString st p
  have hfun := processLine_functions parseFromString st p
  simp only [hk, hf, hrej, Option.getD_none, Option.toList] at hheap hfun
  refine ⟨by simp [hheap, List.getD_eq_getElem?_getD], loadLines_unreferenced parseFromString
    fuel _ (by simp [hheap]) fun r hr => Nat.ne_of_lt (hwf.functions r (hfun ▸ hr)).1⟩

theorem processLine_rejected_function_empty_range :
    (LoadState.init (bytes "FUNC 100 0 0 g") 0 : LoadState Unit).module.WellFormed ∧
    recordKind (cstr (bytes "FUNC 100 0 0 g") 0) = .func ∧
    parseFunctionRecord (cstr (bytes "FUNC 100 0 0 g") 0) =
      some ⟨bytes "g", 0x100, 0, 0, [], .empty⟩ ∧
    (LoadState.init (bytes "FUNC 100 0 0 g") 0 : LoadState Unit).module.functions.storeRange
      0x100 0 0 = none ∧
    ((processLine (fun _ => none) (LoadState.init (bytes "FUNC 100 0 0 g") 0) 0 :
      LoadState Unit).module.heap.getD 0 default = ⟨bytes "g", 0x100, 0, 0, [], .empty⟩ ∧
    ∀ r ∈ (loadLines (fun _ => none) 1 (processLine (fun _ => none)
      (LoadState.init (bytes "FUNC 100 0 0 g") 0) 0 : LoadState Unit)).module.functions.ranges,
      r.entry ≠ 0) :=
  ⟨Module.wellFormed_empty, by decide, rfl, rfl,
    @processLine_rejected_function Unit (fun _ => none) (LoadState.init (bytes "FUNC 100 0 0 g") 0)
      0 Module.wellFormed_empty _ (by decide) rfl rfl 1⟩

end SourceLineResolver.Invariant
