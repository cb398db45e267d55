import SourceLineResolver.Simulation
import SourceLineResolver.RecordText

/-! # Loading a symbol file written record by record

A symbol file as a writer lays it out: each record on a line of its own, ended by `\n`.
`LoadMapFromMemory` reads such a file back as exactly its records, in order: sanitising
finds no NUL before the last byte and counts no error, and the lines of the text are the
records. With `loadMapFromMemory_eq_referenceLoad`'s hypothesis, the loader then runs its
loop's body over the records one by one. -/

namespace SourceLineResolver.SymbolFile
open SourceLineResolver.Libc SourceLineResolver.Tokenize SourceLineResolver.RangeMap
open SourceLineResolver.Types SourceLineResolver.Parse SourceLineResolver.FuncRecord
open SourceLineResolver.RecordText SourceLineResolver.Load SourceLineResolver.Reference
open SourceLineResolver.Simulation

variable {W : Type} (parseFromString : List UInt8 → Option (Nat × UInt64 × UInt64 × W))

/-- A line a symbol file can hold: some bytes, none of them NUL, `\r` or `\n`. -/
def RecordLine (r : List UInt8) : Prop := IsField (bytes "\r\n") r ∧ (0 : UInt8) ∉ r

instance : DecidablePred RecordLine := fun r =>
  inferInstanceAs (Decidable ((r ≠ [] ∧ ∀ c ∈ r, c ∉ bytes "\r\n") ∧ (0 : UInt8) ∉ r))

/-- The file: each record, then `\n`. -/
def symbolFileText : List (List UInt8) → List UInt8
  | [] => []
  | r :: rs => r ++ byte '\n' :: symbolFileText rs

/-! ## The text -/

theorem symbolFileText_concat (rs : List (List UInt8)) (r : List UInt8) :
    symbolFileText (rs ++ [r]) = symbolFileText rs ++ r ++ [byte '\n'] := by
  induction rs with
  | nil => rfl
  | cons r' rs ih => simp [symbolFileText, ih]

theorem symbolFileText_ne_nil {rs : List (List UInt8)} (h : rs ≠ []) :
    symbolFileText rs ≠ [] := by
  cases rs with
  | nil => exact absurd rfl h
  | cons r rs => simp [symbolFileText]

theorem nul_not_mem_symbolFileText {rs : List (List UInt8)} (h : ∀ r ∈ rs, RecordLine r) :
    (0 : UInt8) ∉ symbolFileText rs := by
  induction rs with
  | nil => exact List.not_mem_nil _
  | cons r rs ih =>
    simp only [symbolFileText, List.mem_append, List.mem_cons, not_or]
    exact ⟨(h r (by simp)).2, by decide, ih fun r' hr' => h r' (List.mem_cons_of_mem _ hr')⟩

/-- The lines of the text are the records, then the lines of what follows them. -/
theorem segments_symbolFileText_append {rs : List (List UInt8)} (h : ∀ r ∈ rs, RecordLine r)
    (R : List UInt8) : segments (symbolFileText rs ++ R) = rs ++ segments R := by
  induction rs with
  | nil => rfl
  | cons r rs ih =>
    rw [symbolFileText, List.append_assoc, List.cons_append,
      segments_field_cons (h r (by simp)).1 (by decide),
      ih fun r' hr' => h r' (List.mem_cons_of_mem _ hr'), List.cons_append]

/-! ## Sanitising -/

theorem skipTrailingNulls_append_nul {T : List UInt8} (hT : (0 : UInt8) ∉ T) :
    skipTrailingNulls (T ++ [0]) T.length = T.length := by
  cases hl : T.length with
  | zero => rfl
  | succ l =>
    have hlt : l < T.length := by omega
    rw [skipTrailingNulls, if_neg]
    rw [byteAt, List.getD_eq_getElem?_getD, List.getElem?_append_left hlt,
      List.getElem?_eq_getElem hlt, Option.getD_some]
    intro h0
    exact hT (h0 ▸ List.getElem_mem hlt)

/-- A buffer with no NUL before its last byte: sanitising makes that byte NUL, changes
nothing else and counts no error. -/
theorem sanitize_append {T : List UInt8} (hT : (0 : UInt8) ∉ T) (c : UInt8) :
    sanitize (T ++ [c]) = (T ++ [0], 0) := by
  have hset : (T ++ [c]).set T.length 0 = T ++ [0] := by
    rw [List.set_append_right _ _ (le_refl _), Nat.sub_self]
    rfl
  have hmap : T.map (fun c => if c = 0 then byte '_' else c) = T :=
    (List.map_congr_left fun b hb => if_neg fun (h0 : b = 0) => hT (h0 ▸ hb)).trans
      (List.map_id' T)
  simp only [sanitize, List.length_append, List.length_singleton, Nat.add_sub_cancel, hset,
    skipTrailingNulls_append_nul hT, underscoreNuls_eq, List.take_left, List.drop_left, hmap,
    List.elem_iff, hT, if_false]

/-! ## Loading -/

/-- The loop's state at the start enters the fold only through its error count. -/
theorem referenceLines_init : ∀ {records : List (List UInt8)}, records ≠ [] →
    ∀ (b b' : List UInt8) (n : Nat),
      referenceLines parseFromString records (LoadState.init b n) =
        referenceLines parseFromString records (LoadState.init b' n)
  | _ :: _, _, _, _, _ => rfl

/-- The loop on a written file, sanitised, ends where the fold over its records does from
the initial state with no error. -/
theorem loadLines_symbolFileText {records : List (List UInt8)} (h : ∀ r ∈ records, RecordLine r)
    (hno : ∀ r ∈ records, readsPastEnd r = false) (hne : records ≠ []) :
    ∃ T buf save, sanitize (symbolFileText records) = (T, 0) ∧
      loadLines parseFromString (T.length + 1) (LoadState.init T 0) =
        { referenceLines parseFromString records (LoadState.init [] 0) with
          buffer := buf, savePtr := save } := by
  obtain ⟨rs, r, rfl⟩ := (List.eq_nil_or_concat records).resolve_left hne
  rw [List.concat_eq_append] at h hno hne ⊢
  have hr : RecordLine r := h r (by simp)
  have hT : (0 : UInt8) ∉ symbolFileText rs ++ r := by
    simpa using ⟨nul_not_mem_symbolFileText fun r' hr' => h r' (by simp [hr']), hr.2⟩
  have hseg : segments (cstr (sanitize (symbolFileText (rs ++ [r]))).1 0) = rs ++ [r] := by
    rw [symbolFileText_concat, sanitize_append hT, cstr_append_nul hT,
      segments_symbolFileText_append fun r' hr' => h r' (by simp [hr']), segments_field hr.1]
  obtain ⟨buf, save, e⟩ := loadLines_sanitize parseFromString (symbolFileText_ne_nil hne)
    (by rw [hseg]; exact hno)
  rw [hseg, symbolFileText_concat, sanitize_append hT] at e
  refine ⟨_, buf, save, by rw [symbolFileText_concat, sanitize_append hT], ?_⟩
  rw [e, referenceLines_init parseFromString (by simp) (symbolFileText rs ++ r ++ [0]) []]

/-- Barring `STACK` lines that end at their platform token, loading a file written record
by record runs the loop's body over exactly those records, in order, from the initial
state with no error. -/
theorem loadMapFromMemory_symbolFileText (records : List (List UInt8))
    (h : ∀ r ∈ records, RecordLine r) (hno : ∀ r ∈ records, readsPastEnd r = false) :
    loadMapFromMemory parseFromString (symbolFileText records) =
      { (referenceLines parseFromString records (LoadState.init [] 0)).module with
        isCorrupt :=
          decide ((referenceLines parseFromString records (LoadState.init [] 0)).numErrors > 0) } := by
  rcases eq_or_ne records [] with rfl | hne
  · rfl
  obtain ⟨T, buf, save, hs, e⟩ := loadLines_symbolFileText parseFromString h hno hne
  rw [loadMapFromMemory, if_neg (symbolFileText_ne_nil hne), hs]
  dsimp only
  rw [e]

theorem loadMapFromMemory_symbolFileText_func_line :
    (∀ r ∈ [bytes "FUNC 1 10 0 f", bytes "1 2 3 4"], RecordLine r) ∧
    (∀ r ∈ [bytes "FUNC 1 10 0 f", bytes "1 2 3 4"], readsPastEnd r = false) ∧
    @loadMapFromMemory Unit (fun _ => none)
        (symbolFileText [bytes "FUNC 1 10 0 f", bytes "1 2 3 4"]) =
      { (@referenceLines Unit (fun _ => none) [bytes "FUNC 1 10 0 f", bytes "1 2 3 4"]
          (LoadState.init [] 0)).module with
        isCorrupt := decide ((@referenceLines Unit (fun _ => none)
          [bytes "FUNC 1 10 0 f", bytes "1 2 3 4"] (LoadState.init [] 0)).numErrors > 0) } :=
  ⟨by decide, by decide, loadMapFromMemory_symbolFileText _ _ (by decide) (by decide)⟩

/-! ## Line ends

`strtok_r` over `"\r\n"` passes over a run of line ends as one, so a text's lines are all
the loader reads of it: the line ends between them, blank lines and the last byte, which the
loader overwrites with a NUL, make no difference. -/

/-- A text with no NUL, followed by any last byte, loads as the fold over its lines. -/
theorem loadMapFromMemory_text {T : List UInt8} (hT : (0 : UInt8) ∉ T) (c : UInt8)
    (hno : ∀ r ∈ segments T, readsPastEnd r = false) :
    loadMapFromMemory parseFromString (T ++ [c]) =
      { (referenceLines parseFromString (segments T) (LoadState.init [] 0)).module with
        isCorrupt :=
          decide ((referenceLines parseFromString (segments T) (LoadState.init [] 0)).numErrors > 0) } := by
  have hne : T ++ [c] ≠ [] := List.append_ne_nil_of_right_ne_nil T (List.cons_ne_nil c [])
  have hseg : segments (cstr (sanitize (T ++ [c])).1 0) = segments T := by
    rw [sanitize_append hT, cstr_append_nul hT]
  obtain ⟨buf, save, e⟩ := loadLines_sanitize parseFromString hne (by rw [hseg]; exact hno)
  rw [hseg, sanitize_append hT] at e
  rw [loadMapFromMemory, if_neg hne, sanitize_append hT]
  dsimp only
  rw [e]
  rcases eq_or_ne (segments T) [] with h | h
  · rw [h]
    rfl
  · rw [referenceLines_init parseFromString h (T ++ [0]) []]

/-- Two texts with no NUL and the same lines load into the same module, whatever their line
ends, blank lines and last bytes, barring `STACK` lines that end at their platform token. -/
theorem loadMapFromMemory_same_lines {T T' : List UInt8} (hT : (0 : UInt8) ∉ T)
    (hT' : (0 : UInt8) ∉ T') (hs : segments T = segments T')
    (hno : ∀ r ∈ segments T, readsPastEnd r = false) (c c' : UInt8) :
    loadMapFromMemory parseFromString (T ++ [c]) = loadMapFromMemory parseFromString (T' ++ [c']) := by
  rw [loadMapFromMemory_text parseFromString hT c hno,
    loadMapFromMemory_text parseFromString hT' c' (hs ▸ hno), hs]

theorem loadMapFromMemory_same_lines_crlf :
    (0 : UInt8) ∉ bytes "FUNC 1 10 0 f\r\n1 2 3 4\r\n" ∧ (0 : UInt8) ∉ bytes "\nFUNC 1 10 0 f\n\n1 2 3 4" ∧
    segments (bytes "FUNC 1 10 0 f\r\n1 2 3 4\r\n") = segments (bytes "\nFUNC 1 10 0 f\n\n1 2 3 4") ∧
    (∀ r ∈ segments (bytes "FUNC 1 10 0 f\r\n1 2 3 4\r\n"), readsPastEnd r = false) ∧
    @loadMapFromMemory Unit (fun _ => none) (bytes "FUNC 1 10 0 f\r\n1 2 3 4\r\n" ++ [byte '\n']) =
      @loadMapFromMemory Unit (fun _ => none) (bytes "\nFUNC 1 10 0 f\n\n1 2 3 4" ++ [0]) :=
  ⟨by decide, by decide, by decide, by decide,
    loadMapFromMemory_same_lines _ (by decide) (by decide) (by decide) (by decide) _ _⟩

/-! ## A file of functions

A writer lays a function out as its `FUNC` record and then its line records. Loading a
file of such blocks builds exactly their functions, in order, each with its line records
stored in turn in its line map, stores each function's range, and counts no error. -/

/-- A function as a writer lays it out: its `FUNC` record, then its line records. -/
structure FuncBlock where
  func : FuncText
  lines : List LineText
  deriving DecidableEq, Repr

def FuncBlock.records (b : FuncBlock) : List (List UInt8) :=
  b.func.text :: b.lines.map LineText.text

/-- Line records stored in turn, each one `StoreRange` refuses left out. -/
def storeLines (m : ContainedRangeMap Line) (ls : List Line) : ContainedRangeMap Line :=
  ls.foldl (fun m l => (m.storeRange l.address l.size l).getD m) m

/-- The function a block stands for: its record's fields, its line records as its lines. -/
def FuncBlock.function (b : FuncBlock) : Function :=
  { b.func.value with lines := storeLines .empty (b.lines.map LineText.value) }

/-- Functions' ranges stored in turn, each pointing at the function's place on the heap,
from `ptr` on; a range `StoreRange` refuses is left out. -/
def storeFunctions (m : ContainedRangeMap Nat) (ptr : Nat) :
    List Function → ContainedRangeMap Nat
  | [] => m
  | f :: fs => storeFunctions ((m.storeRange f.address f.size ptr).getD m) (ptr + 1) fs

/-- A block a file can hold: well-formed records, the `FUNC` record a line of its own. -/
@[mk_iff]
structure FuncBlock.WellFormed (b : FuncBlock) : Prop where
  func : b.func.WellFormed
  line : RecordLine b.func.text
  lines : ∀ l ∈ b.lines, l.WellFormed

instance (b : FuncBlock) : Decidable b.WellFormed :=
  decidable_of_iff' _ (FuncBlock.wellFormed_iff b)

/-! ### Which record each text is -/

theorem funcText_eq (f : FuncText) : ∃ x, f.text = bytes "FUNC " ++ x := by
  unfold FuncText.text
  cases f.suffix <;> exact ⟨_, rfl⟩

theorem recordKind_funcText (f : FuncText) : recordKind f.text = .func := by
  obtain ⟨x, hx⟩ := funcText_eq f
  have hfile : startsWith (bytes "FUNC " ++ x) "FILE " = false := rfl
  have hstack : startsWith (bytes "FUNC " ++ x) "STACK " = false := rfl
  simp [hx, recordKind, hfile, hstack]

theorem readsPastEnd_funcText (f : FuncText) : readsPastEnd f.text = false := by
  obtain ⟨x, hx⟩ := funcText_eq f
  have hstack : startsWith (bytes "FUNC " ++ x) "STACK " = false := rfl
  simp [hx, readsPastEnd, hstack]

theorem parseFunctionRecord_funcText {f : FuncText} (h : f.WellFormed) :
    parseFunctionRecord f.text = some f.value := by
  rw [parseFunctionRecord, FuncText.parseFunction_text h]
  rfl

/-- A text that starts with a hex digit, then a hex digit or a space, does not start with a
prefix whose first byte is no hex digit, or whose second is neither a hex digit nor a
space: so with none of the prefixes the loop tests. -/
theorem isPrefixOf_digits (p0 p1 : UInt8) {ps : List UInt8} {c d : UInt8} {rest : List UInt8}
    (hp : 16 ≤ digitValue p0 ∨ (16 ≤ digitValue p1 ∧ p1 ≠ byte ' '))
    (hc : digitValue c < 16) (hd : digitValue d < 16 ∨ d = byte ' ') :
    (p0 :: p1 :: ps).isPrefixOf (c :: d :: rest) = false := by
  simp only [List.isPrefixOf, Bool.and_eq_false_iff, beq_eq_false_iff_ne, ne_eq]
  rcases hp with hp | ⟨hp, hsp⟩
  · exact .inl fun h => by subst h; omega
  · refine .inr (.inl fun h => ?_)
    subst h
    rcases hd with hd | rfl
    exacts [by omega, hsp rfl]

theorem recordKind_digits {c d : UInt8} (hc : digitValue c < 16)
    (hd : digitValue d < 16 ∨ d = byte ' ') (rest : List UInt8) :
    recordKind (c :: d :: rest) = .line ∧ readsPastEnd (c :: d :: rest) = false := by
  have hfile : startsWith (c :: d :: rest) "FILE " = false :=
    isPrefixOf_digits (byte 'F') (byte 'I') (by decide) hc hd
  have hstack : startsWith (c :: d :: rest) "STACK " = false :=
    isPrefixOf_digits (byte 'S') (byte 'T') (by decide) hc hd
  have hfunc : startsWith (c :: d :: rest) "FUNC " = false :=
    isPrefixOf_digits (byte 'F') (byte 'U') (by decide) hc hd
  have hpublic : startsWith (c :: d :: rest) "PUBLIC " = false :=
    isPrefixOf_digits (byte 'P') (byte 'U') (by decide) hc hd
  have hmodule : startsWith (c :: d :: rest) "MODULE " = false :=
    isPrefixOf_digits (byte 'M') (byte 'O') (by decide) hc hd
  have hinfo : startsWith (c :: d :: rest) "INFO " = false :=
    isPrefixOf_digits (byte 'I') (byte 'N') (by decide) hc hd
  exact ⟨by simp [recordKind, hfile, hstack, hfunc, hpublic, hmodule, hinfo],
    by simp [readsPastEnd, hstack]⟩

theorem lineText_cons {l : LineText} (h : l.WellFormed) : ∃ c d rest,
    l.text = c :: d :: rest ∧ digitValue c < 16 ∧ (digitValue d < 16 ∨ d = byte ' ') := by
  obtain ⟨c, cs, hcs⟩ := List.exists_cons_of_ne_nil h.address.1
  have hdig : ∀ x ∈ c :: cs, digitValue x < 16 := hcs ▸ h.address.2.1
  rw [LineText.text, intercalate_cons_cons, hcs, List.cons_append]
  cases cs with
  | nil => exact ⟨c, byte ' ', _, rfl, hdig c (by simp), .inr rfl⟩
  | cons d ds => exact ⟨c, d, _, rfl, hdig c (by simp), .inl (hdig d (by simp))⟩

theorem recordKind_lineText {l : LineText} (h : l.WellFormed) :
    recordKind l.text = .line ∧ readsPastEnd l.text = false := by
  obtain ⟨c, d, rest, e, hc, hd⟩ := lineText_cons h
  rw [e]
  exact recordKind_digits hc hd rest

/-- A line record's text holds digits and spaces only. -/
theorem recordLine_lineText {l : LineText} (h : l.WellFormed) : RecordLine l.text := by
  have hS : ∀ s ∈ bytes "\r\n" ++ [0], digitValue s = 36 := by decide
  have hf : IsField (bytes "\r\n" ++ [0]) l.text := isField_intercalate (by decide) (by simp) (by
    simp only [List.mem_cons, List.mem_singleton, List.not_mem_nil, or_false]
    rintro t (rfl | rfl | rfl | rfl)
    exacts [h.address.isField hS, h.size.isField hS, h.lineNumber.isField hS,
      h.sourceFile.isField hS])
  exact ⟨hf.mono fun c hc => List.mem_append_left _ hc, fun h0 => hf.2 0 h0 (by decide)⟩

theorem FuncBlock.records_lines {b : FuncBlock} (hb : b.WellFormed) :
    ∀ r ∈ b.records, RecordLine r ∧ readsPastEnd r = false := by
  intro r hr
  rcases List.mem_cons.mp hr with rfl | hr
  · exact ⟨hb.line, readsPastEnd_funcText b.func⟩
  · obtain ⟨l, hl, rfl⟩ := List.mem_map.mp hr
    exact ⟨recordLine_lineText (hb.lines l hl), (recordKind_lineText (hb.lines l hl)).2⟩

/-! ### The loop over the blocks -/

theorem storeLine_last (H : List Function) (g : Function) (l : Line) :
    storeLine (H ++ [g]) H.length l =
      H ++ [{ g with lines := (g.lines.storeRange l.address l.size l).getD g.lines }] := by
  induction H with
  | nil => rfl
  | cons a H ih => simpa [storeLine] using ih

/-- A step that leaves the count within the cap lets the loop go on. -/
theorem referenceLines_cons_of_le {st : LoadState W} {x : List UInt8} (xs : List (List UInt8))
    (h : (referenceStep parseFromString st x).numErrors ≤ kMaxErrorsBeforeBailing) :
    referenceLines parseFromString (x :: xs) st =
      referenceLines parseFromString xs (referenceStep parseFromString st x) := by
  rw [referenceLines]
  exact if_neg (Nat.not_lt.mpr h)

theorem referenceLines_cons_of_zero {st : LoadState W} {x : List UInt8} (xs : List (List UInt8))
    (h : (referenceStep parseFromString st x).numErrors = 0) :
    referenceLines parseFromString (x :: xs) st =
      referenceLines parseFromString xs (referenceStep parseFromString st x) :=
  referenceLines_cons_of_le parseFromString xs (h ▸ Nat.zero_le _)

section Steps
variable (st : LoadState W)

/-- A `FUNC` record puts its function at the end of the heap, makes it current and stores
its range. -/
theorem referenceStep_funcText {f : FuncText} (h : f.WellFormed) (hr : RecordLine f.text) :
    referenceStep parseFromString st f.text =
      { st with
        buffer := f.text ++ [0], savePtr := 0, lineNumber := st.lineNumber + 1,
        curFunc := some st.module.heap.length
        module := { st.module with
          heap := st.module.heap ++ [f.value]
          functions := (st.module.functions.storeRange f.value.address f.value.size
            st.module.heap.length).getD st.module.functions } } := by
  rw [referenceStep, processLine]
  simp only [cstr_append_nul hr.2, recordKind_funcText f, parseFunctionRecord_funcText h]

/-- A line record is stored through the current function. -/
theorem referenceStep_lineText {l : LineText} (h : l.WellFormed) {ptr : Nat}
    (hcur : st.curFunc = some ptr) :
    referenceStep parseFromString st l.text =
      { st with
        buffer := l.text ++ [0], savePtr := 0, lineNumber := st.lineNumber + 1,
        module := { st.module with heap := storeLine st.module.heap ptr l.value } } := by
  rw [referenceStep, processLine]
  simp only [cstr_append_nul (recordLine_lineText h).2, (recordKind_lineText h).1, hcur,
    LineText.parseLine_text h]

end Steps

/-- The line records after a `FUNC` record go, in order, into the line map of the function
it put last on the heap. -/
theorem referenceLines_lineTexts (H : List Function) : ∀ (ls : List LineText) (g : Function)
    (st : LoadState W) (rest : List (List UInt8)), (∀ l ∈ ls, l.WellFormed) →
    st.curFunc = some H.length → st.module.heap = H ++ [g] → st.numErrors = 0 →
    ∃ st', referenceLines parseFromString (ls.map LineText.text ++ rest) st =
        referenceLines parseFromString rest st' ∧ st'.curFunc = st.curFunc ∧
      st'.module = { st.module with
        heap := H ++ [{ g with lines := storeLines g.lines (ls.map LineText.value) }] } ∧
      st'.numErrors = 0
  | [], g, st, _, _, _, hheap, herr => ⟨st, rfl, rfl, by
      rw [List.map_nil, show H ++ [{ g with lines := storeLines g.lines [] }] = st.module.heap
        from hheap.symm], herr⟩
  | l :: ls, g, st, rest, hwf, hcur, hheap, herr => by
    have hstep := referenceStep_lineText parseFromString st (hwf l (by simp)) hcur
    rw [hheap, storeLine_last] at hstep
    obtain ⟨st', e, hc, hm, he⟩ := referenceLines_lineTexts H ls
      { g with lines := (g.lines.storeRange l.value.address l.value.size l.value).getD g.lines }
      (referenceStep parseFromString st l.text) rest
      (fun l' hl' => hwf l' (List.mem_cons_of_mem _ hl'))
      (by rw [hstep]; exact hcur) (by rw [hstep]) (by rw [hstep]; exact herr)
    refine ⟨st', ?_, by rw [hc, hstep], by rw [hm, hstep]; rfl, he⟩
    rw [List.map_cons, List.cons_append,
      referenceLines_cons_of_zero parseFromString _ (by rw [hstep]; exact herr),
      e]

/-- A block: its function goes at the end of the heap with its range stored, its line
records fill its line map. -/
theorem referenceLines_block (b : FuncBlock) (hb : b.WellFormed) (st : LoadState W)
    (rest : List (List UInt8)) (herr : st.numErrors = 0) :
    ∃ st', referenceLines parseFromString (b.records ++ rest) st =
        referenceLines parseFromString rest st' ∧
      st'.module = { st.module with
        heap := st.module.heap ++ [b.function]
        functions := (st.module.functions.storeRange b.function.address b.function.size
          st.module.heap.length).getD st.module.functions } ∧
      st'.numErrors = 0 := by
  have hstep := referenceStep_funcText parseFromString st hb.func hb.line
  obtain ⟨st', e, -, hm, he⟩ := referenceLines_lineTexts parseFromString st.module.heap b.lines
    b.func.value (referenceStep parseFromString st b.func.text) rest hb.lines
    (by rw [hstep]) (by rw [hstep]) (by rw [hstep]; exact herr)
  refine ⟨st', ?_, by rw [hm, hstep]; rfl, he⟩
  rw [FuncBlock.records, List.cons_append,
    referenceLines_cons_of_zero parseFromString _ (by rw [hstep]; exact herr),
    e]

theorem referenceLines_blocks : ∀ (blocks : List FuncBlock) (st : LoadState W)
    (rest : List (List UInt8)), (∀ b ∈ blocks, b.WellFormed) → st.numErrors = 0 →
    ∃ st', referenceLines parseFromString (blocks.flatMap FuncBlock.records ++ rest) st =
        referenceLines parseFromString rest st' ∧
      st'.module = { st.module with
        heap := st.module.heap ++ blocks.map FuncBlock.function
        functions := storeFunctions st.module.functions st.module.heap.length
          (blocks.map FuncBlock.function) } ∧
      st'.numErrors = 0
  | [], st, _, _, herr => ⟨st, rfl, by simp only [List.map_nil, List.append_nil]; rfl, herr⟩
  | b :: blocks, st, rest, hb, herr => by
    obtain ⟨st', e, hm, he⟩ := referenceLines_block parseFromString b (hb b (by simp)) st
      (blocks.flatMap FuncBlock.records ++ rest) herr
    obtain ⟨st'', e', hm', he'⟩ := referenceLines_blocks blocks st' rest
      (fun b' hb' => hb b' (List.mem_cons_of_mem _ hb')) he
    refine ⟨st'', by rw [List.flatMap_cons, List.append_assoc, e, e'], ?_, he'⟩
    rw [hm', hm]
    simp [storeFunctions]

/-! ## A whole file

A file as a writer lays its symbols out: a header of `MODULE` and `INFO` records, the
`FILE` records, the functions with their line records, and the `PUBLIC` records. Loading
it builds exactly the module these records describe, and counts no error. -/

/-- A header line: a `MODULE` or `INFO` record, which the loop passes over. -/
def HeaderLine (l : List UInt8) : Prop :=
  (startsWith l "MODULE " || startsWith l "INFO ") = true ∧ RecordLine l

instance : DecidablePred HeaderLine := fun _ => inferInstanceAs (Decidable (_ ∧ _))

/-- A public symbol stored as the loop stores it: not at all at address 0, and left out
where its address is already present. -/
def storePublic (m : AddressMap PublicSymbol) (p : PublicSymbol) : AddressMap PublicSymbol :=
  if p.address = 0 then m else (m.store p.address p).getD m

def storePublics (m : AddressMap PublicSymbol) (ps : List PublicSymbol) :
    AddressMap PublicSymbol :=
  ps.foldl storePublic m

/-- The parts of a file a writer lays out. -/
structure WrittenFile where
  header : List (List UInt8)
  files : List FileText
  functions : List FuncBlock
  publics : List PublicText
  deriving DecidableEq, Repr

def WrittenFile.records (w : WrittenFile) : List (List UInt8) :=
  w.header ++ w.files.map FileText.text ++ w.functions.flatMap FuncBlock.records ++
    w.publics.map PublicText.text

/-- Every record well formed and a line of its own, and no two `PUBLIC` records at one
address. -/
@[mk_iff]
structure WrittenFile.WellFormed (w : WrittenFile) : Prop where
  header : ∀ l ∈ w.header, HeaderLine l
  files : ∀ f ∈ w.files, f.WellFormed ∧ RecordLine f.text
  functions : ∀ b ∈ w.functions, b.WellFormed
  publics : ∀ p ∈ w.publics, p.WellFormed ∧ RecordLine p.text
  addresses : (w.publics.map fun p => p.value.address).Nodup

instance (w : WrittenFile) : Decidable w.WellFormed :=
  decidable_of_iff' _ (WrittenFile.wellFormed_iff w)

/-- The module the file describes: its files inserted in turn, its functions with their
line maps and their ranges, its public symbols stored in turn, and nothing else. -/
def WrittenFile.module (w : WrittenFile) : Module W :=
  { Module.empty with
    files := (w.files.foldl (fun m f => m.insertFile (digitsValue 10 f.index) f.name)
      (Module.empty : Module W)).files
    heap := w.functions.map FuncBlock.function
    functions := storeFunctions .empty 0 (w.functions.map FuncBlock.function)
    publicSymbols := storePublics .empty (w.publics.map PublicText.value) }

@[simp] theorem WrittenFile.module_windowsFrameInfo (w : WrittenFile) :
    (w.module : Module W).windowsFrameInfo = fun _ => .empty := rfl

@[simp] theorem WrittenFile.module_cfiInitialRules (w : WrittenFile) :
    (w.module : Module W).cfiInitialRules = .empty := rfl

@[simp] theorem WrittenFile.module_cfiDeltaRules (w : WrittenFile) :
    (w.module : Module W).cfiDeltaRules = .empty := rfl

/-! ### Headers, files and public symbols -/

theorem recordKind_header {l : List UInt8} (h : HeaderLine l) :
    (recordKind l = .module ∨ recordKind l = .info) ∧ readsPastEnd l = false := by
  rcases Bool.or_eq_true_iff.mp h.1 with h1 | h1 <;> obtain ⟨x, rfl⟩ := eq_append_of_startsWith h1
  · have hfile : startsWith (bytes "MODULE " ++ x) "FILE " = false := rfl
    have hstack : startsWith (bytes "MODULE " ++ x) "STACK " = false := rfl
    have hfunc : startsWith (bytes "MODULE " ++ x) "FUNC " = false := rfl
    have hpublic : startsWith (bytes "MODULE " ++ x) "PUBLIC " = false := rfl
    exact ⟨.inl (by simp [recordKind, hfile, hstack, hfunc, hpublic]), by simp [readsPastEnd, hstack]⟩
  · have hfile : startsWith (bytes "INFO " ++ x) "FILE " = false := rfl
    have hstack : startsWith (bytes "INFO " ++ x) "STACK " = false := rfl
    have hfunc : startsWith (bytes "INFO " ++ x) "FUNC " = false := rfl
    have hpublic : startsWith (bytes "INFO " ++ x) "PUBLIC " = false := rfl
    have hmodule : startsWith (bytes "INFO " ++ x) "MODULE " = false := rfl
    exact ⟨.inr (by simp [recordKind, hfile, hstack, hfunc, hpublic, hmodule]),
      by simp [readsPastEnd, hstack]⟩

theorem recordKind_fileText (f : FileText) :
    recordKind f.text = .file ∧ readsPastEnd f.text = false := by
  obtain ⟨x, hx⟩ : ∃ x, f.text = bytes "FILE " ++ x := ⟨_, rfl⟩
  have hstack : startsWith (bytes "FILE " ++ x) "STACK " = false := rfl
  rw [hx]
  exact ⟨by simp [recordKind], by simp [readsPastEnd, hstack]⟩

theorem recordKind_publicText (p : PublicText) :
    recordKind p.text = .public ∧ readsPastEnd p.text = false := by
  obtain ⟨x, hx⟩ : ∃ x, p.text = bytes "PUBLIC " ++ x := ⟨_, rfl⟩
  have hfile : startsWith (bytes "PUBLIC " ++ x) "FILE " = false := rfl
  have hstack : startsWith (bytes "PUBLIC " ++ x) "STACK " = false := rfl
  have hfunc : startsWith (bytes "PUBLIC " ++ x) "FUNC " = false := rfl
  rw [hx]
  exact ⟨by simp [recordKind, hfile, hstack, hfunc], by simp [readsPastEnd, hstack]⟩

theorem parseFileRecord_fileText {f : FileText} (h : f.WellFormed) (m : Module W) :
    parseFileRecord m f.text = some (m.insertFile (digitsValue 10 f.index) f.name) := by
  rw [parseFileRecord, FileText.text, parseFile_fileRecordText h.index h.name]
  rfl

/-- A `PUBLIC` record whose address is new, or 0, is stored as `storePublic` stores it. -/
theorem parsePublicSymbolRecord_publicText {p : PublicText} (h : p.WellFormed) {m : Module W}
    (hfresh : p.value.address ≠ 0 → p.value.address ∉ m.publicSymbols.entries.map Prod.fst) :
    parsePublicSymbolRecord m p.text =
      some { m with publicSymbols := storePublic m.publicSymbols p.value } := by
  simp only [PublicText.value, storePublic] at hfresh ⊢
  rw [parsePublicSymbolRecord, PublicText.text,
    parsePublicSymbol_publicRecordText h.address h.stackParamSize h.name]
  dsimp only
  split
  · rfl
  · next h0 => rw [AddressMap.store, dif_neg (hfresh h0)]; rfl

theorem not_mem_storePublic {m : AddressMap PublicSymbol} {p : PublicSymbol} {a : UInt64}
    (hm : a ∉ m.entries.map Prod.fst) (hp : a ≠ p.address) :
    a ∉ (storePublic m p).entries.map Prod.fst := by
  unfold storePublic AddressMap.store
  split
  · exact hm
  · split
    · exact hm
    · simpa [hp] using hm

/-- Inserting files changes the files alone. -/
theorem foldl_insertFile (fs : List FileText) : ∀ m : Module W, ∃ files,
    fs.foldl (fun m f => m.insertFile (digitsValue 10 f.index) f.name) m =
      { m with files := files } := by
  induction fs with
  | nil => exact fun m => ⟨m.files, rfl⟩
  | cons f fs ih =>
    intro m
    obtain ⟨files, e⟩ := ih (m.insertFile (digitsValue 10 f.index) f.name)
    refine ⟨files, ?_⟩
    rw [List.foldl_cons, e]
    unfold Module.insertFile
    split <;> rfl

section Steps
variable (st : LoadState W)

theorem referenceStep_header {l : List UInt8} (h : HeaderLine l) :
    referenceStep parseFromString st l =
      { st with buffer := l ++ [0], savePtr := 0, lineNumber := st.lineNumber + 1 } := by
  rw [referenceStep, processLine]
  rcases (recordKind_header h).1 with hk | hk <;> simp only [cstr_append_nul h.2.2, hk]

theorem referenceStep_fileText {f : FileText} (h : f.WellFormed) (hr : RecordLine f.text) :
    referenceStep parseFromString st f.text =
      { st with
        buffer := f.text ++ [0], savePtr := 0, lineNumber := st.lineNumber + 1,
        module := st.module.insertFile (digitsValue 10 f.index) f.name } := by
  rw [referenceStep, processLine]
  simp only [cstr_append_nul hr.2, (recordKind_fileText f).1, parseFileRecord_fileText h]

theorem referenceStep_publicText {p : PublicText} (h : p.WellFormed) (hr : RecordLine p.text)
    (hfresh : p.value.address ≠ 0 →
      p.value.address ∉ st.module.publicSymbols.entries.map Prod.fst) :
    referenceStep parseFromString st p.text =
      { st with
        buffer := p.text ++ [0], savePtr := 0, lineNumber := st.lineNumber + 1,
        curFunc := none
        module := { st.module with
          publicSymbols := storePublic st.module.publicSymbols p.value } } := by
  rw [referenceStep, processLine]
  simp only [cstr_append_nul hr.2, (recordKind_publicText p).1,
    parsePublicSymbolRecord_publicText h hfresh]

end Steps

theorem referenceLines_headers : ∀ (hs : List (List UInt8)) (st : LoadState W)
    (rest : List (List UInt8)), (∀ l ∈ hs, HeaderLine l) → st.numErrors = 0 →
    ∃ st', referenceLines parseFromString (hs ++ rest) st =
        referenceLines parseFromString rest st' ∧
      st'.module = st.module ∧ st'.numErrors = 0
  | [], st, _, _, herr => ⟨st, rfl, rfl, herr⟩
  | l :: hs, st, rest, h, herr => by
    have hstep := referenceStep_header parseFromString st (h l (by simp))
    obtain ⟨st', e, hm, he⟩ := referenceLines_headers hs (referenceStep parseFromString st l)
      rest (fun l' hl' => h l' (List.mem_cons_of_mem _ hl')) (by rw [hstep]; exact herr)
    refine ⟨st', ?_, by rw [hm, hstep], he⟩
    rw [List.cons_append, referenceLines_cons_of_zero parseFromString _ (by rw [hstep]; exact herr),
      e]

theorem referenceLines_fileTexts : ∀ (fs : List FileText) (st : LoadState W)
    (rest : List (List UInt8)), (∀ f ∈ fs, f.WellFormed ∧ RecordLine f.text) →
    st.numErrors = 0 →
    ∃ st', referenceLines parseFromString (fs.map FileText.text ++ rest) st =
        referenceLines parseFromString rest st' ∧
      st'.module = fs.foldl (fun m f => m.insertFile (digitsValue 10 f.index) f.name)
        st.module ∧
      st'.numErrors = 0
  | [], st, _, _, herr => ⟨st, rfl, rfl, herr⟩
  | f :: fs, st, rest, h, herr => by
    have hstep := referenceStep_fileText parseFromString st (h f (by simp)).1 (h f (by simp)).2
    obtain ⟨st', e, hm, he⟩ := referenceLines_fileTexts fs (referenceStep parseFromString st f.text)
      rest (fun f' hf' => h f' (List.mem_cons_of_mem _ hf')) (by rw [hstep]; exact herr)
    refine ⟨st', ?_, by rw [hm, hstep]; rfl, he⟩
    rw [List.map_cons, List.cons_append,
      referenceLines_cons_of_zero parseFromString _ (by rw [hstep]; exact herr), e]

theorem referenceLines_publicTexts : ∀ (ps : List PublicText) (st : LoadState W)
    (rest : List (List UInt8)), (∀ p ∈ ps, p.WellFormed ∧ RecordLine p.text) →
    (ps.map fun p => p.value.address).Nodup →
    (∀ p ∈ ps, p.value.address ≠ 0 →
      p.value.address ∉ st.module.publicSymbols.entries.map Prod.fst) →
    st.numErrors = 0 →
    ∃ st', referenceLines parseFromString (ps.map PublicText.text ++ rest) st =
        referenceLines parseFromString rest st' ∧
      st'.module = { st.module with
        publicSymbols := storePublics st.module.publicSymbols (ps.map PublicText.value) } ∧
      st'.numErrors = 0
  | [], st, _, _, _, _, herr => ⟨st, rfl, rfl, herr⟩
  | p :: ps, st, rest, h, hnd, hfresh, herr => by
    have hstep := referenceStep_publicText parseFromString st (h p (by simp)).1 (h p (by simp)).2
      (hfresh p (by simp))
    rw [List.map_cons, List.nodup_cons] at hnd
    obtain ⟨st', e, hm, he⟩ := referenceLines_publicTexts ps
      (referenceStep parseFromString st p.text) rest
      (fun p' hp' => h p' (List.mem_cons_of_mem _ hp')) hnd.2
      (fun q hq hq0 => by
        rw [hstep]
        exact not_mem_storePublic (hfresh q (List.mem_cons_of_mem _ hq) hq0)
          fun heq => hnd.1 (List.mem_map.mpr ⟨q, hq, heq⟩))
      (by rw [hstep]; exact herr)
    refine ⟨st', ?_, by rw [hm, hstep]; rfl, he⟩
    rw [List.map_cons, List.cons_append,
      referenceLines_cons_of_zero parseFromString _ (by rw [hstep]; exact herr), e]

/-- Every record of a well-formed written file is a line the loop reads as it is. -/
theorem WrittenFile.records_lines {w : WrittenFile} (h : w.WellFormed) :
    ∀ r ∈ w.records, RecordLine r ∧ readsPastEnd r = false := by
  intro r hr
  simp only [WrittenFile.records, List.mem_append, List.mem_map, List.mem_flatMap] at hr
  rcases hr with ((hr | ⟨f, hf, rfl⟩) | ⟨b, hb, hr⟩) | ⟨p, hp, rfl⟩
  · exact ⟨(h.header r hr).2, (recordKind_header (h.header r hr)).2⟩
  · exact ⟨(h.files f hf).2, (recordKind_fileText f).2⟩
  · exact FuncBlock.records_lines (h.functions b hb) r hr
  · exact ⟨(h.publics p hp).2, (recordKind_publicText p).2⟩

/-- The loop over a well-formed written file's records, whatever follows them, reaches the
module the file describes with no error. -/
theorem referenceLines_writtenFile (w : WrittenFile) (h : w.WellFormed)
    (rest : List (List UInt8)) :
    ∃ st, referenceLines parseFromString (w.records ++ rest) (LoadState.init [] 0) =
        referenceLines parseFromString rest st ∧ st.module = w.module ∧ st.numErrors = 0 := by
  obtain ⟨files, hfiles⟩ := foldl_insertFile w.files (Module.empty : Module W)
  obtain ⟨st1, e1, hm1, he1⟩ := referenceLines_headers parseFromString w.header
    (LoadState.init [] 0) (w.files.map FileText.text ++
      (w.functions.flatMap FuncBlock.records ++ (w.publics.map PublicText.text ++ rest))) h.header rfl
  obtain ⟨st2, e2, hm2, he2⟩ := referenceLines_fileTexts parseFromString w.files st1
    (w.functions.flatMap FuncBlock.records ++ (w.publics.map PublicText.text ++ rest)) h.files he1
  obtain ⟨st3, e3, hm3, he3⟩ := referenceLines_blocks parseFromString w.functions st2
    (w.publics.map PublicText.text ++ rest) h.functions he2
  have hm : st3.module = { Module.empty with
      files := files
      heap := w.functions.map FuncBlock.function
      functions := storeFunctions .empty 0 (w.functions.map FuncBlock.function) } := by
    rw [hm3, hm2, hm1]
    exact congrArg (fun m : Module W => { m with
      heap := m.heap ++ w.functions.map FuncBlock.function
      functions := storeFunctions m.functions m.heap.length
        (w.functions.map FuncBlock.function) }) hfiles
  obtain ⟨st4, e4, hm4, he4⟩ := referenceLines_publicTexts parseFromString w.publics st3 rest
    h.publics h.addresses (fun p _ _ => by rw [hm]; exact List.not_mem_nil _) he3
  refine ⟨st4, ?_, ?_, he4⟩
  · rw [WrittenFile.records, List.append_assoc, List.append_assoc, List.append_assoc, e1, e2, e3, e4]
  · rw [hm4, hm, WrittenFile.module, hfiles]
    rfl

/-- A well-formed written file followed by any records the loop reads as they are loads as
those records do from a state holding the file's module, with no error. -/
theorem loadMapFromMemory_writtenFile_append (w : WrittenFile) (h : w.WellFormed)
    (rest : List (List UInt8)) (hrest : ∀ r ∈ rest, RecordLine r ∧ readsPastEnd r = false) :
    ∃ st : LoadState W, st.module = w.module ∧ st.numErrors = 0 ∧
      loadMapFromMemory parseFromString (symbolFileText (w.records ++ rest)) =
        { (referenceLines parseFromString rest st).module with
          isCorrupt := decide ((referenceLines parseFromString rest st).numErrors > 0) } := by
  obtain ⟨st, e1, hm, he⟩ := referenceLines_writtenFile parseFromString w h rest
  refine ⟨st, hm, he, ?_⟩
  rw [← e1]
  rcases eq_or_ne (w.records ++ rest) [] with hnil | hne
  · rw [hnil]
    rfl
  have hrec : ∀ r ∈ w.records ++ rest, RecordLine r ∧ readsPastEnd r = false := fun r hr =>
    (List.mem_append.mp hr).elim (WrittenFile.records_lines h r) (hrest r)
  obtain ⟨T, buf, save, hs, e⟩ := loadLines_symbolFileText parseFromString
    (fun r hr => (hrec r hr).1) (fun r hr => (hrec r hr).2) hne
  rw [loadMapFromMemory, if_neg (symbolFileText_ne_nil hne), hs]
  dsimp only
  rw [e]

end SourceLineResolver.SymbolFile
