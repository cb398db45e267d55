import SourceLineResolver.Reference
import SourceLineResolver.Invariant

/-! # The current function

Which function a line record belongs to. The spec's reading: the function of the last
`FUNC` or `PUBLIC` line before it, if that line is a `FUNC` that parses; `FILE`, `STACK`,
`MODULE` and `INFO` lines do not change it. The loop keeps `cur_func` for this and the
line-by-line loader agrees with that reading on every run; the source's loader does not
when a `STACK` record reads past its line. -/

namespace SourceLineResolver.CurFunc
open SourceLineResolver.Libc SourceLineResolver.RangeMap SourceLineResolver.Types
open SourceLineResolver.Load SourceLineResolver.Parse SourceLineResolver.Invariant
open SourceLineResolver.Reference

/-! ## The spec's current function -/

/-- A line that creates a function: a `FUNC` record that parses. -/
def createsFunction (line : List UInt8) : Bool :=
  recordKind line == .func && (parseFunctionRecord line).isSome

/-- A line that sets the current function: a `FUNC` or a `PUBLIC` record. -/
def setsCurrent (line : List UInt8) : Bool :=
  recordKind line == .func || recordKind line == .public

/-- The line a line record after `lines` belongs to: the last `FUNC` or `PUBLIC` line, if
it is a `FUNC` that parses. -/
def owner (lines : List (List UInt8)) : Option Nat :=
  match lines.enum.reverse.find? fun e => setsCurrent e.2 with
  | some (i, line) => if createsFunction line then some i else none
  | none => none

/-- Where the function that line `i` creates sits on the heap: after those created before
it. -/
def slot (lines : List (List UInt8)) (i : Nat) : Nat :=
  ((lines.take i).filter createsFunction).length

theorem setsCurrent_of_createsFunction {line : List UInt8} (h : createsFunction line) :
    setsCurrent line := by
  simp only [createsFunction, setsCurrent, Bool.and_eq_true, Bool.or_eq_true] at h ⊢
  exact .inl h.1

theorem owner_append (lines : List (List UInt8)) (line : List UInt8) :
    owner (lines ++ [line]) =
      if setsCurrent line then (if createsFunction line then some lines.length else none)
      else owner lines := by
  unfold owner
  rw [List.enum_append, List.enumFrom_singleton, List.reverse_append, List.reverse_singleton,
    List.singleton_append, List.find?_cons]
  by_cases h : setsCurrent line <;> simp [h]

theorem owner_spec : ∀ {lines : List (List UInt8)} {i : Nat}, owner lines = some i →
    ∃ h : i < lines.length, createsFunction lines[i] := by
  intro lines
  induction lines using List.reverseRecOn with
  | nil => simp [owner]
  | append_singleton lines line ih =>
    intro i h
    rw [owner_append] at h
    split_ifs at h with hs hc
    · cases h; exact ⟨by simp, by simpa using hc⟩
    · obtain ⟨hi, hc⟩ := ih h
      exact ⟨by simp; omega, by rwa [List.getElem_append_left hi]⟩

theorem slot_append {lines : List (List UInt8)} {i : Nat} (hi : i ≤ lines.length)
    (line : List UInt8) : slot (lines ++ [line]) i = slot lines i := by
  rw [slot, List.take_append_of_le_length hi, slot]

theorem slot_length (lines : List (List UInt8)) (line : List UInt8) :
    slot (lines ++ [line]) lines.length = (lines.filter createsFunction).length := by
  rw [slot, List.take_left' rfl]

theorem slot_lt {lines : List (List UInt8)} {i : Nat} (hi : i < lines.length)
    (hc : createsFunction lines[i]) : slot lines i < (lines.filter createsFunction).length := by
  conv_rhs => rw [← List.take_append_drop i lines]
  rw [slot, List.filter_append, List.length_append, List.drop_eq_getElem_cons hi,
    List.filter_cons_of_pos hc, List.length_cons]
  omega

theorem slot_lt_slot {lines : List (List UInt8)} {i j : Nat} (hi : i < lines.length) (hij : i < j)
    (hc : createsFunction lines[i]) : slot lines i < slot lines j := by
  have h1 : slot lines (i + 1) = slot lines i + 1 := by
    rw [slot, slot, List.take_succ, List.filter_append, List.getElem?_eq_getElem hi]
    simp [hc]
  have h2 : slot lines (i + 1) ≤ slot lines j :=
    ((List.take_prefix_take_left lines hij).filter _).length_le
  omega

/-- Lines that create functions get different slots. -/
theorem slot_inj {lines : List (List UInt8)} {i j : Nat} (hi : i < lines.length)
    (hj : j < lines.length) (hci : createsFunction lines[i]) (hcj : createsFunction lines[j])
    (h : slot lines i = slot lines j) : i = j := by
  rcases lt_trichotomy i j with hij | rfl | hij
  · exact absurd h (slot_lt_slot hi hij hci).ne
  · rfl
  · exact absurd h.symm (slot_lt_slot hj hij hcj).ne

theorem owner_map_slot_append (lines : List (List UInt8)) (line : List UInt8) :
    (owner lines).map (slot (lines ++ [line])) = (owner lines).map (slot lines) := by
  cases ho : owner lines with
  | none => rfl
  | some i => simp [slot_append (owner_spec ho).1.le]

/-! ## The loop agrees with it -/

variable {W : Type} (parseFromString : List UInt8 → Option (Nat × UInt64 × UInt64 × W))

/-- The loop's state after `lines` agrees with the spec's reading of them: the current
function is the owner's slot, the heap holds one function per line that creates one, and
each such line's slot holds its function, up to the lines stored in it since. -/
structure Agrees (lines : List (List UInt8)) (st : LoadState W) : Prop where
  curFunc : st.curFunc = (owner lines).map (slot lines)
  heap_length : st.module.heap.length = (lines.filter createsFunction).length
  slots : ∀ (i : Nat) (h : i < lines.length), createsFunction lines[i] →
    parseFunctionRecord lines[i] =
      some { st.module.heap.getD (slot lines i) default with lines := .empty }

theorem parseFunctionRecord_lines {line : List UInt8} {f : Function}
    (h : parseFunctionRecord line = some f) : f.lines = .empty := by
  obtain ⟨_, _, rfl⟩ := Option.map_eq_some'.mp h
  rfl

theorem agrees_init (buf : List UInt8) (n : Nat) : Agrees [] (LoadState.init buf n : LoadState W) :=
  ⟨rfl, rfl, fun _ h => absurd h (Nat.not_lt_zero _)⟩

section Step
variable {st : LoadState W} {line : List UInt8} (hnul : (0 : UInt8) ∉ line)
include hnul

theorem referenceStep_curFunc :
    (referenceStep parseFromString st line).curFunc =
      match recordKind line with
      | .func => (parseFunctionRecord line).map fun _ => st.module.heap.length
      | .public => none
      | _ => st.curFunc := by
  simpa only [cstr_append_nul hnul] using processLine_curFunc parseFromString
    { st with buffer := line ++ [0], savePtr := 0, lineNumber := st.lineNumber + 1 } 0

theorem referenceStep_heap :
    (referenceStep parseFromString st line).module.heap =
      match recordKind line with
      | .func => st.module.heap ++ (parseFunctionRecord line).toList
      | .line =>
        match st.curFunc, parseLine line with
        | some ptr, some l => storeLine st.module.heap ptr l
        | _, _ => st.module.heap
      | _ => st.module.heap := by
  simpa only [cstr_append_nul hnul] using processLine_heap parseFromString
    { st with buffer := line ++ [0], savePtr := 0, lineNumber := st.lineNumber + 1 } 0

/-- A step keeps every function already on the heap, up to the lines stored in it. -/
theorem referenceStep_getD {q : Nat} (hq : q < st.module.heap.length) :
    { (referenceStep parseFromString st line).module.heap.getD q default with lines := .empty } =
      { st.module.heap.getD q default with lines := .empty } := by
  rw [referenceStep_heap parseFromString hnul]
  cases recordKind line <;> dsimp only
  case func =>
    cases parseFunctionRecord line <;>
      simp only [Option.toList, List.append_nil, heap_append_getD hq]
  case line =>
    split
    · exact storeLine_getD _ _ _ _
    · rfl

variable {lines : List (List UInt8)} (h : Agrees lines st)
include h

theorem Agrees.curFunc_step :
    (referenceStep parseFromString st line).curFunc =
      (owner (lines ++ [line])).map (slot (lines ++ [line])) := by
  rw [referenceStep_curFunc parseFromString hnul, owner_append]
  cases hk : recordKind line
  case func =>
    cases hf : parseFunctionRecord line <;>
      simp [setsCurrent, createsFunction, hk, hf, slot_length, h.heap_length]
  case public => simp [setsCurrent, createsFunction, hk]
  all_goals simp [setsCurrent, hk, owner_map_slot_append, h.curFunc]

theorem Agrees.heap_length_step :
    (referenceStep parseFromString st line).module.heap.length =
      ((lines ++ [line]).filter createsFunction).length := by
  rw [referenceStep_heap parseFromString hnul, List.filter_append, List.length_append,
    ← h.heap_length]
  cases hk : recordKind line
  case func => cases hf : parseFunctionRecord line <;> simp [createsFunction, hk, hf]
  case line =>
    have : (List.filter createsFunction [line]).length = 0 := by simp [createsFunction, hk]
    simp only [this]
    split <;> simp [storeLine]
  all_goals simp [createsFunction, hk]

theorem Agrees.slots_step (i : Nat) (hi : i < (lines ++ [line]).length)
    (hc : createsFunction (lines ++ [line])[i]) :
    parseFunctionRecord (lines ++ [line])[i] = some
      { (referenceStep parseFromString st line).module.heap.getD (slot (lines ++ [line]) i) default
        with lines := .empty } := by
  rcases Nat.lt_or_ge i lines.length with hlt | hge
  · rw [List.getElem_append_left hlt] at hc ⊢
    rw [slot_append hlt.le, referenceStep_getD parseFromString hnul
      (h.heap_length ▸ slot_lt hlt hc)]
    exact h.slots i hlt hc
  · obtain rfl : i = lines.length := by simp at hi; omega
    simp only [List.getElem_append_right (Nat.le_refl _), Nat.sub_self,
      List.getElem_singleton] at hc ⊢
    simp only [createsFunction, Bool.and_eq_true, beq_iff_eq, Option.isSome_iff_exists] at hc
    obtain ⟨hk, f, hf⟩ := hc
    rw [slot_length, ← h.heap_length, referenceStep_heap parseFromString hnul, hk, hf]
    simp only [Option.toList, List.getD_eq_getElem?_getD, List.getElem?_concat_length,
      Option.getD_some]
    rw [← parseFunctionRecord_lines hf]

theorem agrees_step : Agrees (lines ++ [line]) (referenceStep parseFromString st line) :=
  ⟨h.curFunc_step parseFromString hnul, h.heap_length_step parseFromString hnul,
    h.slots_step parseFromString hnul⟩

end Step

/-- The loop's state after `lines`, each handled on its own, with no error cap. -/
def lineByLine (buf : List UInt8) (n : Nat) (lines : List (List UInt8)) : LoadState W :=
  lines.foldl (referenceStep parseFromString) (LoadState.init buf n)

theorem lineByLine_append (buf : List UInt8) (n : Nat) (lines : List (List UInt8))
    (line : List UInt8) :
    lineByLine parseFromString buf n (lines ++ [line]) =
      referenceStep parseFromString (lineByLine parseFromString buf n lines) line := by
  simp [lineByLine]

theorem agrees_lineByLine (buf : List UInt8) (n : Nat) : ∀ {lines : List (List UInt8)},
    (∀ l ∈ lines, (0 : UInt8) ∉ l) → Agrees lines (lineByLine parseFromString buf n lines) := by
  intro lines
  induction lines using List.reverseRecOn with
  | nil => exact fun _ => agrees_init buf n
  | append_singleton lines line ih =>
    intro h
    rw [lineByLine_append]
    exact agrees_step parseFromString (h line (by simp)) (ih fun l hl => h l (by simp [hl]))

/-- A line record after `pre`: the loop's current function is the slot of the spec's owner
of the line, that slot holds the function the owner line created, and the record is stored
through it (into its line map, if that map accepts the range) exactly when there is an
owner and the record parses; otherwise it counts one error and nothing is stored. -/
theorem lineByLine_line_record (buf : List UInt8) (n : Nat) (pre : List (List UInt8))
    (line : List UInt8) (hpre : ∀ l ∈ pre, (0 : UInt8) ∉ l) (hline : (0 : UInt8) ∉ line)
    (hk : recordKind line = .line) :
    (lineByLine parseFromString buf n pre).curFunc = (owner pre).map (slot pre) ∧
    (∀ i, owner pre = some i → ∃ hi : i < pre.length, parseFunctionRecord pre[i] =
      some { (lineByLine parseFromString buf n pre).module.heap.getD (slot pre i) default with
        lines := .empty }) ∧
    (lineByLine parseFromString buf n (pre ++ [line])).module.heap =
      (match owner pre, parseLine line with
        | some i, some l => storeLine (lineByLine parseFromString buf n pre).module.heap (slot pre i) l
        | _, _ => (lineByLine parseFromString buf n pre).module.heap) ∧
    (lineByLine parseFromString buf n (pre ++ [line])).numErrors =
      (lineByLine parseFromString buf n pre).numErrors +
        match owner pre, parseLine line with
        | some _, some _ => 0
        | _, _ => 1 := by
  have h := agrees_lineByLine parseFromString buf n hpre
  have hnul : cstr (line ++ [0]) 0 = line := cstr_append_nul hline
  have herr := processLine_numErrors_of_line parseFromString
    { lineByLine parseFromString buf n pre with
      buffer := line ++ [0], savePtr := 0,
      lineNumber := (lineByLine parseFromString buf n pre).lineNumber + 1 } 0
      (by simpa [hnul] using hk)
  simp only [hnul] at herr
  refine ⟨h.curFunc, fun i hi => ?_, ?_, ?_⟩
  · obtain ⟨hlt, hc⟩ := owner_spec hi
    exact ⟨hlt, h.slots i hlt hc⟩
  · rw [lineByLine_append, referenceStep_heap parseFromString hline, hk, h.curFunc]
    cases owner pre <;> cases parseLine line <;> rfl
  · rw [lineByLine_append, referenceStep, herr, h.curFunc]
    cases owner pre <;> cases parseLine line <;> rfl

theorem lineByLine_line_record_after_file :
    (∀ l ∈ [bytes "FUNC 100 20 8 f", bytes "FILE 1 a.c"], (0 : UInt8) ∉ l) ∧
    (0 : UInt8) ∉ bytes "100 10 42 1" ∧ recordKind (bytes "100 10 42 1") = .line ∧
    ((@lineByLine Unit (fun _ => none) [] 0 [bytes "FUNC 100 20 8 f", bytes "FILE 1 a.c"]).curFunc =
      (owner [bytes "FUNC 100 20 8 f", bytes "FILE 1 a.c"]).map
        (slot [bytes "FUNC 100 20 8 f", bytes "FILE 1 a.c"]) ∧
    (∀ i, owner [bytes "FUNC 100 20 8 f", bytes "FILE 1 a.c"] = some i →
      ∃ hi : i < [bytes "FUNC 100 20 8 f", bytes "FILE 1 a.c"].length,
        parseFunctionRecord [bytes "FUNC 100 20 8 f", bytes "FILE 1 a.c"][i] =
          some { (@lineByLine Unit (fun _ => none) [] 0
            [bytes "FUNC 100 20 8 f", bytes "FILE 1 a.c"]).module.heap.getD
              (slot [bytes "FUNC 100 20 8 f", bytes "FILE 1 a.c"] i) default with
            lines := .empty }) ∧
    (@lineByLine Unit (fun _ => none) [] 0
        ([bytes "FUNC 100 20 8 f", bytes "FILE 1 a.c"] ++ [bytes "100 10 42 1"])).module.heap =
      (match owner [bytes "FUNC 100 20 8 f", bytes "FILE 1 a.c"], parseLine (bytes "100 10 42 1") with
        | some i, some l => storeLine (@lineByLine Unit (fun _ => none) [] 0
            [bytes "FUNC 100 20 8 f", bytes "FILE 1 a.c"]).module.heap
            (slot [bytes "FUNC 100 20 8 f", bytes "FILE 1 a.c"] i) l
        | _, _ => (@lineByLine Unit (fun _ => none) [] 0
            [bytes "FUNC 100 20 8 f", bytes "FILE 1 a.c"]).module.heap) ∧
    (@lineByLine Unit (fun _ => none) [] 0
        ([bytes "FUNC 100 20 8 f", bytes "FILE 1 a.c"] ++ [bytes "100 10 42 1"])).numErrors =
      (@lineByLine Unit (fun _ => none) [] 0
        [bytes "FUNC 100 20 8 f", bytes "FILE 1 a.c"]).numErrors +
        match owner [bytes "FUNC 100 20 8 f", bytes "FILE 1 a.c"], parseLine (bytes "100 10 42 1") with
        | some _, some _ => 0
        | _, _ => 1) := by
  have hpre : ∀ l ∈ [bytes "FUNC 100 20 8 f", bytes "FILE 1 a.c"], (0 : UInt8) ∉ l := by decide
  have hline : (0 : UInt8) ∉ bytes "100 10 42 1" := by decide
  have hk : recordKind (bytes "100 10 42 1") = .line := by decide
  exact ⟨hpre, hline, hk, lineByLine_line_record _ [] 0 _ _ hpre hline hk⟩

/-! ## Each function's line map -/

/-- The line records the spec gives the function of line `i`, in order: those whose owner
is `i` and that parse. -/
def ownedRecords (lines : List (List UInt8)) (i : Nat) : List Line :=
  lines.enum.filterMap fun (j, line) =>
    if recordKind line = .line ∧ owner (lines.take j) = some i then parseLine line else none

/-- The line map of the function of line `i`: its records stored in turn. -/
def lineMap (lines : List (List UInt8)) (i : Nat) : ContainedRangeMap Line :=
  (ownedRecords lines i).foldl (fun m l => (m.storeRange l.address l.size l).getD m) .empty

theorem ownedRecords_append (lines : List (List UInt8)) (line : List UInt8) (i : Nat) :
    ownedRecords (lines ++ [line]) i = ownedRecords lines i ++
      if recordKind line = .line ∧ owner lines = some i then (parseLine line).toList else [] := by
  unfold ownedRecords
  rw [List.enum_append, List.enumFrom_singleton, List.filterMap_append]
  congr 1
  · refine List.filterMap_congr fun ⟨j, l⟩ hx => ?_
    dsimp only
    rw [List.take_append_of_le_length (List.fst_lt_of_mem_enum hx : j < lines.length).le]
  · simp only [List.filterMap_cons, List.filterMap_nil]
    rw [List.take_left' rfl]
    by_cases hc : recordKind line = .line ∧ owner lines = some i
    · rw [if_pos hc, if_pos hc]
      cases parseLine line <;> rfl
    · rw [if_neg hc, if_neg hc]

/-- No line record belongs to a line after it. -/
theorem ownedRecords_length (lines : List (List UInt8)) : ownedRecords lines lines.length = [] := by
  refine List.filterMap_eq_nil_iff.mpr fun ⟨j, l⟩ hx => if_neg fun ⟨_, ho⟩ => ?_
  have hj : j < lines.length := List.fst_lt_of_mem_enum hx
  have := (owner_spec ho).1
  simp only [List.length_take] at this
  omega

section Step
variable {st : LoadState W} {line : List UInt8} (hnul : (0 : UInt8) ∉ line)
  {lines : List (List UInt8)} (h : Agrees lines st)
include hnul h

/-- A step keeps the line map of each function already there in step with the spec's. -/
theorem Agrees.lineMap_step {i : Nat} (hi : i < lines.length) (hc : createsFunction lines[i])
    (hm : (st.module.heap.getD (slot lines i) default).lines = lineMap lines i) :
    ((referenceStep parseFromString st line).module.heap.getD (slot lines i) default).lines =
      lineMap (lines ++ [line]) i := by
  have hs : slot lines i < st.module.heap.length := h.heap_length ▸ slot_lt hi hc
  rw [referenceStep_heap parseFromString hnul, lineMap, ownedRecords_append, List.foldl_append,
    ← lineMap, ← hm]
  cases hk : recordKind line
  case func =>
    rw [if_neg (by simp), List.foldl_nil]
    cases parseFunctionRecord line with
    | none => rw [Option.toList, List.append_nil]
    | some f => exact congrArg Function.lines (heap_append_getD hs)
  case line =>
    rw [h.curFunc]
    cases ho : owner lines with
    | none => rw [if_neg (by simp)]; rfl
    | some i' =>
      cases hp : parseLine line with
      | none => rw [Option.toList, ite_self, List.foldl_nil]; rfl
      | some l =>
        obtain ⟨hi', hc'⟩ := owner_spec ho
        by_cases hii : i' = i
        · subst hii
          rw [if_pos ⟨rfl, rfl⟩]
          exact storeLine_getD_self _ hs l
        · have hne : slot lines i' ≠ slot lines i := fun h => hii (slot_inj hi' hi hc' hc h)
          rw [if_neg (by simp [hii])]
          exact congrArg Function.lines (storeLine_getD_ne _ hne l)
  all_goals rw [if_neg (by simp)]; rfl

/-- The function a `FUNC` line creates starts with the empty line map the spec gives it. -/
theorem Agrees.lineMap_step_new (hc : createsFunction line) :
    ((referenceStep parseFromString st line).module.heap.getD
      (slot (lines ++ [line]) lines.length) default).lines = lineMap (lines ++ [line]) lines.length := by
  simp only [createsFunction, Bool.and_eq_true, beq_iff_eq, Option.isSome_iff_exists] at hc
  obtain ⟨hk, f, hf⟩ := hc
  rw [referenceStep_heap parseFromString hnul, slot_length, ← h.heap_length, hk, hf, lineMap,
    ownedRecords_append, ownedRecords_length]
  simp [List.getD_eq_getElem?_getD, List.getElem?_concat_length, parseFunctionRecord_lines hf, hk]

end Step

/-- Run after run, the function each `FUNC` line created holds exactly the line records
that belong to it, stored in their order: no other line changes its map. -/
theorem lineByLine_lineMap (buf : List UInt8) (n : Nat) : ∀ {lines : List (List UInt8)},
    (∀ l ∈ lines, (0 : UInt8) ∉ l) → ∀ (i : Nat) (hi : i < lines.length),
      createsFunction lines[i] →
      ((lineByLine parseFromString buf n lines).module.heap.getD (slot lines i) default).lines =
        lineMap lines i := by
  intro lines
  induction lines using List.reverseRecOn with
  | nil => exact fun _ i hi => absurd hi (Nat.not_lt_zero _)
  | append_singleton lines line ih =>
    intro hnul i hi hc
    have hpre : ∀ l ∈ lines, (0 : UInt8) ∉ l := fun l hl => hnul l (by simp [hl])
    have h := agrees_lineByLine parseFromString buf n hpre
    rw [lineByLine_append]
    rcases Nat.lt_or_ge i lines.length with hlt | hge
    · rw [List.getElem_append_left hlt] at hc
      rw [slot_append hlt.le]
      exact h.lineMap_step parseFromString (hnul line (by simp)) hlt hc (ih hpre i hlt hc)
    · obtain rfl : i = lines.length := by simp at hi; omega
      simp only [List.getElem_append_right (Nat.le_refl _), Nat.sub_self,
        List.getElem_singleton] at hc
      exact h.lineMap_step_new parseFromString (hnul line (by simp)) hc

/-- A line record after a `STACK CFI` line with nothing after `CFI`: the loader lets
`ParseCFIFrameInfo` take the record as a delta rule, so the record, which parses and fits
the function `f` it belongs to, is stored nowhere; the line-by-line loader stores it. -/
theorem loadMapFromMemory_stack_cfi_swallows_line_record :
    ((@loadMapFromMemory Unit (fun _ => none)
      (bytes "FUNC 1 10 0 f\nSTACK CFI\n1 1 1 1\n")).function 0).lines.ranges = [] ∧
    (@loadMapFromMemory Unit (fun _ => none)
      (bytes "FUNC 1 10 0 f\nSTACK CFI\n1 1 1 1\n")).cfiDeltaRules.entries = [(1, bytes "1 1 1")] ∧
    (((@referenceLoad Unit (fun _ => none)
      (bytes "FUNC 1 10 0 f\nSTACK CFI\n1 1 1 1\n")).function 0).lines.ranges.map
        fun r => (r.base, r.size)) = [(1, 1)] := by
  decide

end SourceLineResolver.CurFunc
