import SourceLineResolver.SymbolFile

/-! # The cap on errors

`LoadMapFromMemory` breaks out of its loop once `num_errors > kMaxErrorsBeforeBailing`,
that is on the turn that takes the count to 101. The loop's lines are those `strtok_r`
finds in turn, the record parsers writing into the buffer between them; `turnStates` lists
the states after each turn with no cap, and the loop ends in the state after the first turn
past the cap, or after the last. A hundred errors do not stop it. -/

namespace SourceLineResolver.ErrorCap
open SourceLineResolver.Libc SourceLineResolver.RangeMap SourceLineResolver.Types
open SourceLineResolver.FuncRecord SourceLineResolver.Load SourceLineResolver.Reference
open SourceLineResolver.Simulation SourceLineResolver.SymbolFile SourceLineResolver.Invariant

variable {W : Type} (parseFromString : List UInt8 → Option (Nat × UInt64 × UInt64 × W))

/-! ## The turns of the loop -/

/-- One turn of the `while` loop that finds a line: `strtok_r`, then the body on that line;
`none` once `strtok_r` finds none. -/
def loadTurn (st : LoadState W) : Option (LoadState W) :=
  match strtokR st.buffer st.savePtr (bytes "\r\n") with
  | (none, _, _) => none
  | (some p, buf, save) =>
    some (processLine parseFromString
      { st with buffer := buf, savePtr := save, lineNumber := st.lineNumber + 1 } p)

/-- The states after each of at most `n` turns, with no cap on the errors. -/
def turnStates : Nat → LoadState W → List (LoadState W)
  | 0, _ => []
  | n + 1, st =>
    match loadTurn parseFromString st with
    | none => []
    | some st' => st' :: turnStates n st'

/-- The loop ends in the state after the first turn whose errors take the count past
`kMaxErrorsBeforeBailing`, or after the last turn, but for where `strtok_r` left the buffer
and the save pointer. -/
theorem loadLines_eq_lastTurn (fuel : Nat) (st : LoadState W) :
    let ts := turnStates parseFromString fuel st
    let k := ts.findIdx fun s => decide (s.numErrors > kMaxErrorsBeforeBailing)
    ∃ buf save, loadLines parseFromString fuel st =
      { (ts.take (k + 1)).getLastD st with buffer := buf, savePtr := save } := by
  induction fuel generalizing st with
  | zero => exact ⟨st.buffer, st.savePtr, rfl⟩
  | succ fuel ih =>
    rcases e : strtokR st.buffer st.savePtr (bytes "\r\n") with ⟨_ | p, buf, save⟩
    · simp only [loadLines, turnStates, loadTurn, e]
      exact ⟨buf, save, rfl⟩
    · simp only [loadLines, turnStates, loadTurn, e]
      split
      · next h =>
        simp only [List.findIdx_cons, decide_eq_true h, cond_true, List.take_succ_cons,
          List.take_zero, List.getLastD_cons, List.getLastD_nil]
        exact ⟨_, _, rfl⟩
      · next h =>
        simp only [List.findIdx_cons, decide_eq_false h, cond_false, List.take_succ_cons,
          List.getLastD_cons]
        exact ih _

/-- The loop applies the lines `strtok_r` finds, in turn, up to the first whose errors take
the count past `kMaxErrorsBeforeBailing`, that one included, and no line after it: with `k`
the turns before that one, it ends with the module and the count of the state after the
first `k + 1` turns, or after all of them. -/
theorem loadLines_turnStates (fuel : Nat) (st : LoadState W) :
    let ts := turnStates parseFromString fuel st
    let k := ts.findIdx fun s => decide (s.numErrors > kMaxErrorsBeforeBailing)
    (loadLines parseFromString fuel st).module = ((ts.take (k + 1)).getLastD st).module ∧
      (loadLines parseFromString fuel st).numErrors = ((ts.take (k + 1)).getLastD st).numErrors := by
  obtain ⟨buf, save, e⟩ := loadLines_eq_lastTurn parseFromString fuel st
  rw [e]
  exact ⟨rfl, rfl⟩

/-- More turns than the distance from the save pointer to the buffer's end find no more
lines. -/
theorem turnStates_fuel : ∀ (fuel : Nat) (st : LoadState W),
    st.buffer.length + 1 - st.savePtr ≤ fuel →
      ∀ k, turnStates parseFromString (fuel + k) st = turnStates parseFromString fuel st
  | 0, st, h, 0 => rfl
  | 0, st, h, k + 1 => by
    simp only [Nat.zero_add, turnStates, loadTurn,
      strtokR_past_end (show st.buffer.length ≤ st.savePtr by omega)]
  | fuel + 1, st, h, k => by
    rw [show fuel + 1 + k = fuel + k + 1 by omega]
    rcases e : strtokR st.buffer st.savePtr (bytes "\r\n") with ⟨_ | p, buf, save⟩
    · simp only [turnStates, loadTurn, e]
    · let st' := processLine parseFromString
        { st with buffer := buf, savePtr := save, lineNumber := st.lineNumber + 1 } p
      have hb : st'.buffer.length = buf.length ∧ st'.savePtr = save :=
        processLine_buffer parseFromString _ p
      have hlen := strtokR_eq_length e
      have hsave := strtokR_progress e
      simp only [turnStates, loadTurn, e, turnStates_fuel fuel st' (by omega) k]

/-- For every buffer, the turns `LoadMapFromMemory` gives its loop take it through every
line `strtok_r` finds in the sanitised buffer, more turns finding none; the module it
builds is that of the state after the first turn whose errors take the count past
`kMaxErrorsBeforeBailing`, or after the last turn, marked corrupt when that state's count
is not 0. An empty buffer finds no line and builds the empty module. -/
theorem loadMapFromMemory_lastTurn (memoryBuffer : List UInt8) :
    let st₀ : LoadState W := LoadState.init (sanitize memoryBuffer).1 (sanitize memoryBuffer).2
    let ts := turnStates parseFromString ((sanitize memoryBuffer).1.length + 1) st₀
    let k := ts.findIdx fun s => decide (s.numErrors > kMaxErrorsBeforeBailing)
    (∀ j, turnStates parseFromString ((sanitize memoryBuffer).1.length + 1 + j) st₀ = ts) ∧
    loadMapFromMemory parseFromString memoryBuffer =
      { ((ts.take (k + 1)).getLastD st₀).module with
        isCorrupt := decide (((ts.take (k + 1)).getLastD st₀).numErrors > 0) } := by
  refine ⟨turnStates_fuel parseFromString _ _ (by simp [LoadState.init]), ?_⟩
  by_cases hne : memoryBuffer = []
  · subst hne
    rfl
  obtain ⟨buf, save, e⟩ := loadLines_eq_lastTurn parseFromString _
    (LoadState.init (sanitize memoryBuffer).1 (sanitize memoryBuffer).2)
  rw [loadMapFromMemory, if_neg hne]
  dsimp only
  rw [e]

/-! ## A hundred errors -/

theorem referenceLines_singleton (st : LoadState W) (x : List UInt8) :
    referenceLines parseFromString [x] st = referenceStep parseFromString st x := by
  rw [referenceLines]
  split <;> rfl

/-- A line record with no current function counts an error and leaves the module. -/
theorem referenceStep_orphan {st : LoadState W} {r : List UInt8} (hr : RecordLine r)
    (hk : recordKind r = .line) (hcur : st.curFunc = none) :
    referenceStep parseFromString st r =
      { st with
        buffer := r ++ [0], savePtr := 0, lineNumber := st.lineNumber + 1
        numErrors := st.numErrors + 1 } := by
  rw [referenceStep, processLine]
  simp only [cstr_append_nul hr.2, hk, hcur]
  rfl

theorem referenceLines_orphans {r : List UInt8} (hr : RecordLine r) (hk : recordKind r = .line)
    (rest : List (List UInt8)) : ∀ (n : Nat) (st : LoadState W), st.curFunc = none →
      st.numErrors + n ≤ kMaxErrorsBeforeBailing →
      ∃ st', referenceLines parseFromString (List.replicate n r ++ rest) st =
          referenceLines parseFromString rest st' ∧
        st'.module = st.module ∧ st'.curFunc = none ∧ st'.numErrors = st.numErrors + n
  | 0, st, hcur, _ => ⟨st, rfl, rfl, hcur, rfl⟩
  | n + 1, st, hcur, hle => by
    have hstep := referenceStep_orphan parseFromString hr hk hcur
    have hn : (referenceStep parseFromString st r).numErrors = st.numErrors + 1 := by rw [hstep]
    obtain ⟨st', e, hm, hc, he⟩ := referenceLines_orphans hr hk rest n
      (referenceStep parseFromString st r) (by rw [hstep]; exact hcur) (by omega)
    refine ⟨st', ?_, by rw [hm, hstep], hc, by omega⟩
    rw [List.replicate_succ, List.cons_append,
      referenceLines_cons_of_le parseFromString _ (by omega), e]

/-- Up to the cap, line records with no function before them count their errors and let a
`FUNC` record after them be stored. -/
theorem loadMapFromMemory_orphans_func {r : List UInt8} (hr : RecordLine r)
    (hk : recordKind r = .line) (hp : readsPastEnd r = false) {f : FuncText} (hf : f.WellFormed)
    (hfr : RecordLine f.text) {n : Nat} (hn : n ≤ kMaxErrorsBeforeBailing) :
    (loadMapFromMemory parseFromString (symbolFileText (List.replicate n r ++ [f.text]))).functions =
        (ContainedRangeMap.empty.storeRange f.value.address f.value.size 0).getD .empty ∧
      (loadMapFromMemory parseFromString
        (symbolFileText (List.replicate n r ++ [f.text]))).isCorrupt = decide (0 < n) := by
  have hrec : ∀ x ∈ List.replicate n r ++ [f.text], RecordLine x ∧ readsPastEnd x = false := by
    intro x h
    simp only [List.mem_append, List.mem_replicate, List.mem_singleton] at h
    rcases h with ⟨_, rfl⟩ | rfl
    exacts [⟨hr, hp⟩, ⟨hfr, readsPastEnd_funcText f⟩]
  have hne : List.replicate n r ++ [f.text] ≠ [] := by simp
  obtain ⟨T, b, save, hs, e⟩ := loadLines_symbolFileText parseFromString
    (fun x h => (hrec x h).1) (fun x h => (hrec x h).2) hne
  obtain ⟨st, e1, hm, -, he⟩ := referenceLines_orphans parseFromString hr hk [f.text] n
    (LoadState.init [] 0) rfl (by simpa [LoadState.init] using hn)
  rw [loadMapFromMemory, if_neg (symbolFileText_ne_nil hne), hs]
  dsimp only
  rw [e, e1, referenceLines_singleton, referenceStep_funcText _ st hf hfr]
  simp only [hm, he]
  exact ⟨rfl, by simp [LoadState.init]⟩

/-- A hundred line records with no function before them count a hundred errors, which the
loop lets by: the `FUNC` record after them is still stored. -/
theorem loadMapFromMemory_hundred_errors_then_func :
    ((@loadMapFromMemory Unit (fun _ => none) (symbolFileText
        (List.replicate 100 (bytes "1 1 1 1") ++ [bytes "FUNC 1 10 0 f"]))).functions.ranges.map
          fun r => (r.base, r.size)) = [(1, 0x10)] ∧
      (@loadMapFromMemory Unit (fun _ => none) (symbolFileText
        (List.replicate 100 (bytes "1 1 1 1") ++ [bytes "FUNC 1 10 0 f"]))).isCorrupt = true := by
  have hf : bytes "FUNC 1 10 0 f" =
      FuncText.text ⟨bytes "1", bytes "10", bytes "0", bytes "f", none⟩ := by
    decide
  obtain ⟨h1, h2⟩ := loadMapFromMemory_orphans_func
    (fun _ => none : List UInt8 → Option (Nat × UInt64 × UInt64 × Unit))
    (r := bytes "1 1 1 1") (by decide) (by decide) (by decide)
    (f := ⟨bytes "1", bytes "10", bytes "0", bytes "f", none⟩) (by decide) (by decide)
    (n := 100) (by decide)
  rw [hf, h1, h2]
  decide

end SourceLineResolver.ErrorCap
