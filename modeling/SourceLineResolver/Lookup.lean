import SourceLineResolver.Params
import SourceLineResolver.Invariant

/-! # Lookups

`LookupAddress`, `FindWindowsFrameInfo` and `FindCFIFrameInfo` on a loaded module, at the
module-relative address `frame.instruction - frame.moduleBase`. `CFIFrameInfo` and
`ParseCFIRuleSet` are outside the resolver: a rule set is of type `R`, and parsing a rule
string into it reports success with the rule set it leaves, changed even on failure. -/

namespace SourceLineResolver.Lookup
open SourceLineResolver.RangeMap SourceLineResolver.Types SourceLineResolver.Frame
open SourceLineResolver.Params SourceLineResolver.Libc SourceLineResolver.Load
open SourceLineResolver.Invariant

variable {W : Type}

/-! ## The containment test -/

/-- The overflow-friendly test `address >= base && address - base < size` is containment
in `[base, base + size)` computed without bound, for all 64-bit values. -/
theorem check_iff {address base size : UInt64} :
    (address ≥ base && address - base < size) = true ↔
      base.toNat ≤ address.toNat ∧ address.toNat < base.toNat + size.toNat := by
  simp only [Bool.and_eq_true, decide_eq_true_eq, ge_iff_le]
  constructor
  · rintro ⟨hle, hlt⟩
    rw [lt_iff_toNat, UInt64.toNat_sub_of_le _ _ hle] at hlt
    rw [le_iff_toNat] at hle
    omega
  · rintro ⟨hle, hlt⟩
    have hle' : base ≤ address := le_iff_toNat.mpr hle
    exact ⟨hle', by rw [lt_iff_toNat, UInt64.toNat_sub_of_le _ _ hle']; omega⟩

/-- Filtering what `RetrieveNearestRange` finds by the test leaves exactly the innermost
range holding the address: a neighbour found below it never passes. -/
theorem retrieveNearestRange_filter {α : Type} (m : ContainedRangeMap α) (address : UInt64) :
    (m.retrieveNearestRange address).filter
      (fun r => address ≥ r.base && address - r.base < r.size) = m.retrieveRange address := by
  cases h : m.retrieveRange address with
  | some r =>
    rw [ContainedRangeMap.retrieveNearestRange_of_retrieveRange h]
    exact if_pos (check_iff.mpr (ContainedRangeMap.retrieveRange_spec h).2.1)
  | none =>
    cases hn : m.retrieveNearestRange address with
    | none => rfl
    | some r =>
      have hr := (ContainedRangeMap.retrieveNearestRange_spec h hn).1
      exact if_neg fun hc => ContainedRangeMap.retrieveRange_eq_none.mp h r hr (check_iff.mp hc)

/-- The `FUNC` branch of `LookupAddress`, for the function at pointer `r.entry` stored
over `r`. -/
def lookupFunction (m : Module W) (memory : Option MemoryRegion) (val₀ : UInt64)
    (frame : StackFrame) (address : UInt64) (r : Range Nat) : StackFrame :=
  let func := m.function r.entry
  let frame := { frame with functionName := func.name, functionBase := frame.moduleBase + r.base }
  let frame := { frame with params := readFuncParams frame func.params memory val₀ frame.params }
  match func.lines.retrieveRange address with
  | some line =>
    { frame with
      sourceFileName := (m.files.lookup line.entry.sourceFileId).getD frame.sourceFileName
      sourceLine := line.entry.line
      sourceLineBase := frame.moduleBase + line.base }
  | none => frame

/-- The `PUBLIC` branch of `LookupAddress`, given what `RetrieveNearestRange` found. -/
def lookupPublic (m : Module W) (frame : StackFrame) (address : UInt64)
    (func : Option (Range Nat)) : StackFrame :=
  match m.publicSymbols.retrieve address with
  | some (publicAddress, publicSymbol) =>
    if func.all fun r => r.base < publicAddress then
      { frame with functionName := publicSymbol.name
                   functionBase := frame.moduleBase + publicAddress }
    else frame
  | none => frame

/-- `Module::LookupAddress`, `val₀` being the indeterminate start of the evaluator's
`val`. -/
def lookupAddress (m : Module W) (memory : Option MemoryRegion) (val₀ : UInt64)
    (frame : StackFrame) : StackFrame :=
  let address := frame.instruction - frame.moduleBase
  let func := m.functions.retrieveNearestRange address
  match func.filter fun r => address ≥ r.base && address - r.base < r.size with
  | some r => lookupFunction m memory val₀ frame address r
  | none => lookupPublic m frame address func

/-- `WindowsFrameInfo::STACK_INFO_FPO` and `STACK_INFO_FRAME_DATA`, the two kinds the
spec names (§3); windows_frame_info.h, which numbers them, is not present. -/
def stackInfoFpo : Nat := 0
def stackInfoFrameData : Nat := 4

/-- What `FindWindowsFrameInfo` returns: a copy of a stored carrier, or a new carrier whose
only content is `parameter_size`, with `VALID_PARAMETER_SIZE` set. -/
inductive FrameInfo (W : Type)
  | copy (info : W)
  | parameterSize (size : Int)

/-- `Module::FindWindowsFrameInfo`. On the `PUBLIC` branch the source writes the
symbol's parameter size into a carrier it then frees, and returns NULL. -/
def findWindowsFrameInfo (m : Module W) (frame : StackFrame) : Option (FrameInfo W) :=
  let address := frame.instruction - frame.moduleBase
  match (m.windowsFrameInfo stackInfoFrameData).retrieveRange address <|>
      (m.windowsFrameInfo stackInfoFpo).retrieveRange address with
  | some r => some (.copy r.entry)
  | none =>
    let function := m.functions.retrieveNearestRange address
    match function.filter fun r => address ≥ r.base && address - r.base < r.size with
    | some r => some (.parameterSize (m.function r.entry).parameterSize)
    | none => none

section CFI
variable {R : Type} (parseCFIRuleSet : List UInt8 → R → Bool × R) (newRules : R)

/-- The loop applying the delta rules from the iterator on while their address is at
most `address`. -/
def applyDeltas (address : UInt64) : List (UInt64 × List UInt8) → R → R
  | [], rules => rules
  | (k, delta) :: rest, rules =>
    if k ≤ address then applyDeltas address rest (parseCFIRuleSet delta rules).2 else rules

/-- `Module::FindCFIFrameInfo`, the rule set starting as `newRules`. -/
def findCFIFrameInfo (m : Module W) (frame : StackFrame) : Option R :=
  let address := frame.instruction - frame.moduleBase
  match m.cfiInitialRules.retrieveRange address with
  | none => none
  | some initial =>
    let (ok, rules) := parseCFIRuleSet initial.entry newRules
    if !ok then none
    else some (applyDeltas parseCFIRuleSet address (m.cfiDeltaRules.lowerBound initial.base) rules)

theorem applyDeltas_eq (address : UInt64) :
    ∀ (l : List (UInt64 × List UInt8)) (rules : R), applyDeltas parseCFIRuleSet address l rules =
      (l.takeWhile fun e => decide (e.1 ≤ address)).foldl
        (fun rules e => (parseCFIRuleSet e.2 rules).2) rules
  | [], _ => rfl
  | (k, d) :: l, rules => by
    unfold applyDeltas
    split <;> simp [List.takeWhile_cons, *, applyDeltas_eq address l]

/-- The deltas the loop visits from `lower_bound (b)` while their address is at most `a`
are those with an address in `[b, a]`, in the map's order. -/
theorem lowerBound_takeWhile {α : Type} (d : StdMap α) (b a : UInt64) :
    (d.lowerBound b).takeWhile (fun e => decide (e.1 ≤ a)) =
      d.entries.filter fun e => decide (b.toNat ≤ e.1.toNat ∧ e.1.toNat ≤ a.toNat) := by
  have hdrop : d.lowerBound b = d.entries.filter fun e => !decide (e.1.toNat < b.toNat) :=
    dropWhile_eq_filter (fun x y (h : x.1.toNat < y.1.toNat) hy => by simp at hy ⊢; omega)
      d.sorted
  rw [hdrop, @takeWhile_eq_filter _ (fun x y : UInt64 × α => x.1.toNat < y.1.toNat) _
    (fun x y h hy => by simp [le_iff_toNat] at hy ⊢; omega) _ (d.sorted.filter _),
    List.filter_filter]
  congr 1
  funext e
  rw [Bool.and_comm, ← decide_not, ← Bool.decide_and]
  exact decide_eq_decide.mpr (by rw [le_iff_toNat, Nat.not_lt])

/-- `FindCFIFrameInfo` finds the innermost `STACK CFI INIT` range holding the address and,
if its rule string parses, applies once each, in ascending address order, the delta rules
whose address lies between that range's base and the address. The deltas applied at an
address are a prefix of those applied at any later one. -/
theorem findCFIFrameInfo_deltas (m : Module W) (frame : StackFrame) :
    let a := frame.instruction - frame.moduleBase
    let deltasIn := fun b a : UInt64 => m.cfiDeltaRules.entries.filter
      fun e => decide (b.toNat ≤ e.1.toNat ∧ e.1.toNat ≤ a.toNat)
    findCFIFrameInfo parseCFIRuleSet newRules m frame =
      (match m.cfiInitialRules.retrieveRange a with
      | none => none
      | some init =>
        if (parseCFIRuleSet init.entry newRules).1 then
          some ((deltasIn init.base a).foldl (fun rules e => (parseCFIRuleSet e.2 rules).2)
            (parseCFIRuleSet init.entry newRules).2)
        else none) ∧
    (m.cfiInitialRules.retrieveRange a = none ↔ ∀ r ∈ m.cfiInitialRules.ranges, ¬ r.Contains a) ∧
    (∀ b a, (deltasIn b a).Pairwise fun x y => x.1.toNat < y.1.toNat) ∧
    (∀ b a a', a.toNat ≤ a'.toNat → deltasIn b a <+: deltasIn b a') := by
  intro a deltasIn
  refine ⟨?_, ContainedRangeMap.retrieveRange_eq_none, fun b a => m.cfiDeltaRules.sorted.filter _,
    fun b a a' h => ?_⟩
  · simp only [findCFIFrameInfo]
    cases m.cfiInitialRules.retrieveRange a with
    | none => rfl
    | some init =>
      simp only [deltasIn, ← lowerBound_takeWhile, ← applyDeltas_eq]
      cases (parseCFIRuleSet init.entry newRules).1 <;> rfl
  · simp only [deltasIn, ← lowerBound_takeWhile]
    exact takeWhile_prefix (fun x hx => by simp [le_iff_toNat] at hx ⊢; omega) _

end CFI

/-! ## `LookupAddress` -/

/-- `LookupAddress` takes its `FUNC` branch exactly for the innermost function range that
holds the address, and its `PUBLIC` branch when no function range holds it. -/
theorem lookupAddress_eq (m : Module W) (memory : Option MemoryRegion) (val₀ : UInt64)
    (frame : StackFrame) :
    lookupAddress m memory val₀ frame =
      match m.functions.retrieveRange (frame.instruction - frame.moduleBase) with
      | some r => lookupFunction m memory val₀ frame (frame.instruction - frame.moduleBase) r
      | none => lookupPublic m frame (frame.instruction - frame.moduleBase)
          (m.functions.retrieveNearestRange (frame.instruction - frame.moduleBase)) := by
  simp only [lookupAddress, retrieveNearestRange_filter]

/-- The fields the `FUNC` branch writes: the function's name and base, and the source
line when the function's line map holds one for the address. -/
theorem lookupFunction_fields (m : Module W) (memory : Option MemoryRegion) (val₀ : UInt64)
    (frame : StackFrame) (address : UInt64) (r : Range Nat) :
    let F := m.function r.entry
    let fr := lookupFunction m memory val₀ frame address r
    fr.functionName = F.name ∧ fr.functionBase = frame.moduleBase + r.base ∧
    match F.lines.retrieveRange address with
    | some L => fr.sourceLine = L.entry.line ∧ fr.sourceLineBase = frame.moduleBase + L.base ∧
        fr.sourceFileName = (m.files.lookup L.entry.sourceFileId).getD frame.sourceFileName
    | none => fr.sourceLine = frame.sourceLine ∧ fr.sourceLineBase = frame.sourceLineBase ∧
        fr.sourceFileName = frame.sourceFileName := by
  simp only [lookupFunction]
  split <;> simp_all

/-- The `PUBLIC` branch writes the function name and base only: the source line, its base
and the file name stay as the frame had them. -/
theorem lookupPublic_source (m : Module W) (frame : StackFrame) (address : UInt64)
    (func : Option (Range Nat)) :
    let fr := lookupPublic m frame address func
    fr.sourceLine = frame.sourceLine ∧ fr.sourceLineBase = frame.sourceLineBase ∧
      fr.sourceFileName = frame.sourceFileName := by
  simp only [lookupPublic]
  split
  · split <;> exact ⟨rfl, rfl, rfl⟩
  · exact ⟨rfl, rfl, rfl⟩

/-- When no range holds `a`, the test of the `PUBLIC` branch against what
`RetrieveNearestRange` found says that no stored range begins in `[pa, a]`. -/
theorem nearest_all_iff {α : Type} (m : ContainedRangeMap α) {a : UInt64} (pa : UInt64)
    (hn : m.retrieveRange a = none) :
    ((m.retrieveNearestRange a).all fun r => r.base < pa) = true ↔
      ∀ r ∈ m.ranges, ¬ (pa.toNat ≤ r.base.toNat ∧ r.base.toNat ≤ a.toNat) := by
  cases h : m.retrieveNearestRange a with
  | none =>
    have := ContainedRangeMap.retrieveNearestRange_eq_none.mp h
    simp only [Option.all_none, true_iff]
    exact fun r hr hc => absurd (this r hr) (by omega)
  | some r₀ =>
    obtain ⟨hr₀, hle, hmax⟩ := ContainedRangeMap.retrieveNearestRange_spec hn h
    simp only [Option.all_some, decide_eq_true_eq, lt_iff_toNat]
    exact ⟨fun hlt r hr hc => absurd (hmax r hr hc.2) (by omega),
      fun hall => by have := hall r₀ hr₀; omega⟩

/-! ## `FindWindowsFrameInfo` -/

/-- `FindWindowsFrameInfo` returns a copy of the innermost `FRAME_DATA` carrier holding the
address, else of the innermost `FPO` one, else the parameter size of the function that
`LookupAddress` attributes the address to, and otherwise nothing, even where a public
symbol applies. Its function test and `LookupAddress`'s are both exact containment. -/
theorem findWindowsFrameInfo_preference (m : Module W) (memory : Option MemoryRegion) (val₀ : UInt64)
    (frame : StackFrame) :
    let a := frame.instruction - frame.moduleBase
    findWindowsFrameInfo m frame =
      (match (m.windowsFrameInfo stackInfoFrameData).retrieveRange a with
      | some r => some (.copy r.entry)
      | none =>
        match (m.windowsFrameInfo stackInfoFpo).retrieveRange a with
        | some r => some (.copy r.entry)
        | none =>
          match m.functions.retrieveRange a with
          | some r => some (.parameterSize (m.function r.entry).parameterSize)
          | none => none) ∧
    lookupAddress m memory val₀ frame =
      match m.functions.retrieveRange a with
      | some r => lookupFunction m memory val₀ frame a r
      | none => lookupPublic m frame a (m.functions.retrieveNearestRange a) := by
  refine ⟨?_, lookupAddress_eq m memory val₀ frame⟩
  simp only [findWindowsFrameInfo, retrieveNearestRange_filter]
  cases (m.windowsFrameInfo stackInfoFrameData).retrieveRange _ <;> rfl

section Loaded
variable (parseFromString : List UInt8 → Option (Nat × UInt64 × UInt64 × W))

/-- On a loaded module, the function range `RetrieveRange` finds is its function's own
range, and it holds the address in unbounded arithmetic. -/
theorem loaded_function_holds {memoryBuffer : List UInt8} {a : UInt64} {r : Range Nat}
    (h : (loadMapFromMemory parseFromString memoryBuffer).functions.retrieveRange a = some r) :
    let F := (loadMapFromMemory parseFromString memoryBuffer).function r.entry
    F.address = r.base ∧ F.address.toNat ≤ a.toNat ∧ a.toNat < F.address.toNat + F.size.toNat := by
  obtain ⟨hr, hra, -⟩ := ContainedRangeMap.retrieveRange_spec h
  obtain ⟨-, ha, hs⟩ := (loadMapFromMemory_wellFormed parseFromString memoryBuffer).functions r hr
  exact ⟨ha, ha ▸ hs ▸ hra⟩

/-- On a loaded module, `LookupAddress` attributes the address to a `FUNC` record exactly
when a stored function's range holds it in unbounded arithmetic; the function is then the
innermost such, and the frame gets its name, its base and the source line covering the
address. The overflow-friendly test is containment for all 64-bit values. -/
theorem lookupAddress_function_branch (memoryBuffer : List UInt8)
    (memory : Option MemoryRegion) (val₀ : UInt64) (frame : StackFrame) :
    let m := loadMapFromMemory parseFromString memoryBuffer
    let a := frame.instruction - frame.moduleBase
    let fr := lookupAddress m memory val₀ frame
    (∀ x base size : UInt64, (x ≥ base && x - base < size) = true ↔
      base.toNat ≤ x.toNat ∧ x.toNat < base.toNat + size.toNat) ∧
    match m.functions.retrieveRange a with
    | some r =>
      let F := m.function r.entry
      fr = lookupFunction m memory val₀ frame a r ∧
      (F.address.toNat ≤ a.toNat ∧ a.toNat < F.address.toNat + F.size.toNat) ∧
      (∀ s ∈ m.functions.ranges, s.Contains a → r.Within s) ∧
      fr.functionName = F.name ∧ fr.functionBase = frame.moduleBase + F.address ∧
      match F.lines.retrieveRange a with
      | some L => fr.sourceLine = L.entry.line ∧ fr.sourceLineBase = frame.moduleBase + L.base ∧
          fr.sourceFileName = (m.files.lookup L.entry.sourceFileId).getD frame.sourceFileName
      | none => fr.sourceLine = frame.sourceLine ∧ fr.sourceLineBase = frame.sourceLineBase ∧
          fr.sourceFileName = frame.sourceFileName
    | none =>
      (∀ s ∈ m.functions.ranges, ¬ s.Contains a) ∧
      fr = lookupPublic m frame a (m.functions.retrieveNearestRange a) := by
  intro m a fr
  refine ⟨fun _ _ _ => check_iff, ?_⟩
  have heq := lookupAddress_eq m memory val₀ frame
  cases h : m.functions.retrieveRange a with
  | some r =>
    obtain ⟨ha, hF⟩ := loaded_function_holds parseFromString h
    have hfr : fr = lookupFunction m memory val₀ frame a r := by simp only [fr, heq, h]
    obtain ⟨hn, hb, hl⟩ := lookupFunction_fields m memory val₀ frame a r
    rw [← hfr] at hn hb hl
    exact ⟨hfr, hF, (ContainedRangeMap.retrieveRange_spec h).2.2, hn, ha ▸ hb, hl⟩
  | none => exact ⟨ContainedRangeMap.retrieveRange_eq_none.mp h, by simp only [fr, heq, h]⟩

/-- On a loaded module, `LookupAddress` takes a function name and base from a public
symbol exactly when no function range holds the address, the symbol is the one with the
greatest address at most the address, and no function begins between the two; the frame
then gets the symbol's name and address and nothing else. -/
theorem lookupAddress_public_branch (memoryBuffer : List UInt8)
    (memory : Option MemoryRegion) (val₀ : UInt64) (frame : StackFrame) :
    let m := loadMapFromMemory parseFromString memoryBuffer
    let a := frame.instruction - frame.moduleBase
    let fr := lookupAddress m memory val₀ frame
    match m.functions.retrieveRange a with
    | some r => fr = lookupFunction m memory val₀ frame a r
    | none =>
      match m.publicSymbols.retrieve a with
      | some (pa, P) =>
        ((pa, P) ∈ m.publicSymbols.entries ∧ P.address = pa ∧ pa.toNat ≤ a.toNat ∧
          ∀ e ∈ m.publicSymbols.entries, e.1.toNat ≤ a.toNat → e.1.toNat ≤ pa.toNat) ∧
        fr = if ∀ r ∈ m.functions.ranges, ¬ (P.address.toNat ≤ r.base.toNat ∧ r.base.toNat ≤ a.toNat)
          then { frame with functionName := P.name, functionBase := frame.moduleBase + P.address }
          else frame
      | none => (∀ e ∈ m.publicSymbols.entries, a.toNat < e.1.toNat) ∧ fr = frame := by
  intro m a fr
  have heq := lookupAddress_eq m memory val₀ frame
  cases h : m.functions.retrieveRange a with
  | some r => simp only [fr, heq, h]
  | none =>
    have hfr : fr = lookupPublic m frame a (m.functions.retrieveNearestRange a) := by
      simp only [fr, heq, h]
    cases hp : m.publicSymbols.retrieve a with
    | none =>
      refine ⟨AddressMap.retrieve_eq_none.mp hp, ?_⟩
      rw [hfr, lookupPublic, hp]
    | some e =>
      obtain ⟨pa, P⟩ := e
      obtain ⟨he, hle, hmax⟩ := AddressMap.retrieve_spec hp
      have hP := ((loadMapFromMemory_wellFormed parseFromString memoryBuffer).publicSymbols _ he).1
      refine ⟨⟨he, hP, hle, hmax⟩, ?_⟩
      simp only at hP
      rw [hfr, lookupPublic, hp, hP]
      exact if_congr (nearest_all_iff _ pa h) rfl rfl

/-- On a loaded module, `LookupAddress` reports a source line only from a line that holds
the address. When a function range holds it, the frame gets that function's base, and the
source line, its base and its file come from the function's innermost line range holding
the address; when no line range of the function holds it, or no function range does (the
`PUBLIC` branch), the source line, its base and the file name stay as the frame had them.
The loader never compares a line with its function's range, so the two need not nest. -/
theorem lookupAddress_line_holds_address (memoryBuffer : List UInt8)
    (memory : Option MemoryRegion) (val₀ : UInt64) (frame : StackFrame) :
    let m := loadMapFromMemory parseFromString memoryBuffer
    let a := frame.instruction - frame.moduleBase
    let fr := lookupAddress m memory val₀ frame
    match m.functions.retrieveRange a with
    | some r =>
      let F := m.function r.entry
      fr.functionBase = frame.moduleBase + F.address ∧
      (F.address.toNat ≤ a.toNat ∧ a.toNat < F.address.toNat + F.size.toNat) ∧
      match F.lines.retrieveRange a with
      | some L =>
        (L.base.toNat ≤ a.toNat ∧ a.toNat < L.base.toNat + L.size.toNat) ∧
        fr.sourceLine = L.entry.line ∧ fr.sourceLineBase = frame.moduleBase + L.base ∧
        fr.sourceFileName = (m.files.lookup L.entry.sourceFileId).getD frame.sourceFileName
      | none => fr.sourceLine = frame.sourceLine ∧ fr.sourceLineBase = frame.sourceLineBase ∧
          fr.sourceFileName = frame.sourceFileName
    | none => fr.sourceLine = frame.sourceLine ∧ fr.sourceLineBase = frame.sourceLineBase ∧
        fr.sourceFileName = frame.sourceFileName := by
  intro m a fr
  have heq := lookupAddress_eq m memory val₀ frame
  cases h : m.functions.retrieveRange a with
  | none =>
    have hfr : fr = lookupPublic m frame a (m.functions.retrieveNearestRange a) := by
      simp only [fr, heq, h]
    exact hfr ▸ lookupPublic_source m frame a _
  | some r =>
    obtain ⟨ha, hF⟩ := loaded_function_holds parseFromString h
    have hfr : fr = lookupFunction m memory val₀ frame a r := by simp only [fr, heq, h]
    obtain ⟨-, hb, hl⟩ := lookupFunction_fields m memory val₀ frame a r
    rw [← hfr] at hb hl
    refine ⟨ha ▸ hb, hF, ?_⟩
    cases hL : (m.function r.entry).lines.retrieveRange a with
    | none => simpa only [hL] using hl
    | some L =>
      simp only [hL] at hl
      exact ⟨(ContainedRangeMap.retrieveRange_spec hL).2.1, hl⟩

end Loaded

/-- A line record outside its function is stored under it, and `LookupAddress` then
reports a source line base below the function's base. -/
theorem loadMapFromMemory_line_outside_function :
    let m := loadMapFromMemory (fun _ => none : List UInt8 → Option (Nat × UInt64 × UInt64 × Unit))
      (bytes "FUNC 100 20 0 f\n50 100 42 1\n")
    let fr := lookupAddress m none 0 ⟨0x105, 0, [], 0, [], 0, 0, [], 0, fun _ => 0⟩
    (∃ r ∈ m.functions.ranges, ∃ L ∈ (m.function r.entry).lines.ranges,
      L.entry.address.toNat < (m.function r.entry).address.toNat) ∧
    fr.sourceLineBase.toNat < fr.functionBase.toNat ∧ fr.sourceLine = 42 := by
  decide

end SourceLineResolver.Lookup
