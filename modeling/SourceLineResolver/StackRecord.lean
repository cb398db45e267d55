import SourceLineResolver.SymbolFile

/-! # `STACK` records

The stack-walking records of a symbol file as a writer lays them out: `STACK WIN` and
what `WindowsFrameInfo::ParseFromString` reads, `STACK CFI INIT <address> <size> <rules>`
and `STACK CFI <address> <rules>`. `ParseStackInfo` ends the platform token with a NUL and
`ParseCFIFrameInfo` takes the fields with `strtok_r`, the rules running to the line's end.
A file whose other records a writer lays out well, followed by such records, loads into the
module it describes, each kind of `STACK` record stored in turn in its own container. -/

namespace SourceLineResolver.StackRecord
open SourceLineResolver.Libc SourceLineResolver.Tokenize SourceLineResolver.RangeMap
open SourceLineResolver.Types SourceLineResolver.Parse SourceLineResolver.FuncRecord
open SourceLineResolver.Load SourceLineResolver.Reference SourceLineResolver.Simulation
open SourceLineResolver.SymbolFile

variable {W : Type} (parseFromString : List UInt8 → Option (Nat × UInt64 × UInt64 × W))

/-! ## Reading the records back -/

/-- The separators of a line's fields, and the NUL a field never holds. -/
theorem hexNumeral_field {b : Nat} {ds : List UInt8} (h : HexNumeral b ds) :
    IsField (bytes " \r\n" ++ [0]) ds :=
  h.isField (by decide)

theorem recordLine_field {r : List UInt8} (h : RecordLine r) : IsField (bytes "\r\n" ++ [0]) r :=
  ⟨h.1.1, fun c hc hS => by
    rcases List.mem_append.mp hS with hS | hS
    · exact h.1.2 c hc hS
    · exact h.2 (List.mem_singleton.mp hS ▸ hc)⟩

theorem field_bytes {S tok : List UInt8} (h : IsField (S ++ [0]) tok) :
    ∀ b ∈ tok, b ≠ 0 ∧ b ∉ S :=
  fun b hb => ⟨fun h0 => h.2 b hb (by simp [h0]), fun hS => h.2 b hb (List.mem_append_left _ hS)⟩

section Parsing
variable (m : Module W)

/-- `STACK CFI `: the platform token is cut off and `ParseCFIFrameInfo` reads on after it. -/
theorem parseStackInfo_cfi (R : List UInt8) :
    parseStackInfo parseFromString m (bytes "STACK CFI " ++ R) 0 =
      parseCFIFrameInfo m (bytes "STACK CFI" ++ 0 :: R) 10 := by
  have e : bytes "STACK CFI " ++ R = [83, 84, 65, 67, 75, 32, 67, 70, 73, 32] ++ R := rfl
  have e' : bytes "STACK CFI" ++ 0 :: R = [83, 84, 65, 67, 75, 32, 67, 70, 73, 0] ++ R := rfl
  have h1 : (([83, 84, 65, 67, 75, 32, 67, 70, 73, 32] ++ R).drop (0 + 6)).takeWhile
      (· == 32) = [] := rfl
  have h2 : (([83, 84, 65, 67, 75, 32, 67, 70, 73, 32] ++ R).drop (0 + 6 + 0)).takeWhile
      (fun c => !(kWhitespace.contains c || c == 0)) = [67, 70, 73] := rfl
  have h3 : ([83, 84, 65, 67, 75, 32, 67, 70, 73, 32] ++ R).set (0 + 6 + 0 + 3) 0 =
      [83, 84, 65, 67, 75, 32, 67, 70, 73, 0] ++ R := rfl
  have h4 : cstr ([83, 84, 65, 67, 75, 32, 67, 70, 73, 0] ++ R) (0 + 6 + 0) = bytes "CFI" := rfl
  have h5 : bytes "CFI" ≠ bytes "WIN" := by decide
  rw [e, e']
  unfold parseStackInfo
  simp only [h1, h2, List.length_nil, List.length_cons, h3, h4, h5, if_false, if_true]

/-- `STACK WIN `: the platform token is cut off and the carrier `ParseFromString` reads
from the rest of the line is stored over its range in the map of its type. -/
theorem parseStackInfo_win {rest : List UInt8} (h0 : (0 : UInt8) ∉ rest) (Z : List UInt8)
    {type : Nat} {rva codeSize : UInt64} {info : W}
    (hp : parseFromString rest = some (type, rva, codeSize, info)) :
    parseStackInfo parseFromString m (bytes "STACK WIN " ++ rest ++ 0 :: Z) 0 =
      (true,
        { m with
          windowsFrameInfo := Function.update m.windowsFrameInfo type
            (((m.windowsFrameInfo type).storeRange rva codeSize info).getD (m.windowsFrameInfo type)) },
        bytes "STACK WIN" ++ 0 :: (rest ++ 0 :: Z)) := by
  have e : bytes "STACK WIN " ++ rest ++ 0 :: Z =
      [83, 84, 65, 67, 75, 32, 87, 73, 78, 32] ++ (rest ++ 0 :: Z) := rfl
  have e' : bytes "STACK WIN" ++ 0 :: (rest ++ 0 :: Z) =
      [83, 84, 65, 67, 75, 32, 87, 73, 78, 0] ++ (rest ++ 0 :: Z) := rfl
  have h1 : (([83, 84, 65, 67, 75, 32, 87, 73, 78, 32] ++ (rest ++ 0 :: Z)).drop (0 + 6)).takeWhile
      (· == 32) = [] := rfl
  have h2 : (([83, 84, 65, 67, 75, 32, 87, 73, 78, 32] ++ (rest ++ 0 :: Z)).drop (0 + 6 + 0)).takeWhile
      (fun c => !(kWhitespace.contains c || c == 0)) = [87, 73, 78] := rfl
  have h3 : ([83, 84, 65, 67, 75, 32, 87, 73, 78, 32] ++ (rest ++ 0 :: Z)).set (0 + 6 + 0 + 3) 0 =
      [83, 84, 65, 67, 75, 32, 87, 73, 78, 0] ++ (rest ++ 0 :: Z) := rfl
  have h4 : cstr ([83, 84, 65, 67, 75, 32, 87, 73, 78, 0] ++ (rest ++ 0 :: Z)) (0 + 6 + 0) =
      bytes "WIN" := rfl
  have h5 : cstr ([83, 84, 65, 67, 75, 32, 87, 73, 78, 0] ++ (rest ++ 0 :: Z)) (0 + 6 + 0 + 3 + 1) =
      rest := by
    rw [← List.append_assoc]
    exact cstr_token h0 Z rfl
  rw [e, e']
  unfold parseStackInfo
  simp only [h1, h2, List.length_nil, List.length_cons, h3, h4, h5, if_true, hp]

/-- `INIT <address> <size> <rules>`: the rules are stored over the range. -/
theorem parseCFIFrameInfo_init (D : List UInt8) {a s r : List UInt8}
    (ha : HexNumeral (2 ^ 64) a) (hs : HexNumeral (2 ^ 64) s) (hr : RecordLine r) {p : Nat}
    (hp : D.length = p) :
    parseCFIFrameInfo m (D ++ bytes "INIT" ++ 32 :: (a ++ 32 :: (s ++ 32 :: (r ++ [0])))) p =
      (true,
        { m with
          cfiInitialRules := (m.cfiInitialRules.storeRange (UInt64.ofNat (digitsValue 16 a))
            (UInt64.ofNat (digitsValue 16 s)) r).getD m.cfiInitialRules },
        D ++ bytes "INIT" ++ 0 :: (a ++ 0 :: (s ++ 0 :: (r ++ [0])))) := by
  have hsp : (32 : UInt8) ∈ bytes " \r\n" := by decide
  have hdz : (0 : UInt8) ∉ bytes " \r\n" := by decide
  have hinit : IsField (bytes " \r\n" ++ [0]) (bytes "INIT") := ⟨by decide, by decide⟩
  have ha' := field_bytes (hexNumeral_field ha)
  have hs' := field_bytes (hexNumeral_field hs)
  have hr' := field_bytes (recordLine_field hr)
  have hlen (X Y : List UInt8) : (X ++ Y ++ [0]).length = X.length + Y.length + 1 := by
    simp only [List.length_append, List.length_singleton]
  subst hp
  rw [parseCFIFrameInfo, strtokR_field_delim hdz hinit.1 (field_bytes hinit) hsp _ rfl]
  dsimp only
  rw [cstr_token (by decide) _ rfl, if_pos rfl,
    show D ++ bytes "INIT" ++ 0 :: (a ++ 32 :: (s ++ 32 :: (r ++ [0]))) =
      (D ++ bytes "INIT" ++ [0]) ++ a ++ 32 :: (s ++ 32 :: (r ++ [0])) by simp,
    strtokR_field_delim hdz ha.1 ha' hsp _ (hlen _ _)]
  dsimp only
  rw [show D ++ bytes "INIT" ++ [0] ++ a ++ 0 :: (s ++ 32 :: (r ++ [0])) =
      (D ++ bytes "INIT" ++ [0] ++ a ++ [0]) ++ s ++ 32 :: (r ++ [0]) by simp,
    strtokR_field_delim hdz hs.1 hs' hsp _ (by rw [hlen, hlen])]
  dsimp only
  rw [show D ++ bytes "INIT" ++ [0] ++ a ++ [0] ++ s ++ 0 :: (r ++ [0]) =
      (D ++ bytes "INIT" ++ [0] ++ a ++ [0] ++ s ++ [0]) ++ r ++ 0 :: [] by simp,
    strtokR_field_end hr.1.1 hr' _ (by rw [hlen, hlen, hlen])]
  dsimp only
  rw [show D ++ bytes "INIT" ++ [0] ++ a ++ [0] ++ s ++ [0] ++ r ++ 0 :: [] =
      (D ++ bytes "INIT" ++ [0]) ++ a ++ 0 :: (s ++ 0 :: (r ++ [0])) by simp,
    cstr_token (fun h0 => (ha' 0 h0).1 rfl) _ (hlen _ _),
    show (D ++ bytes "INIT" ++ [0]) ++ a ++ 0 :: (s ++ 0 :: (r ++ [0])) =
      (D ++ bytes "INIT" ++ [0] ++ a ++ [0]) ++ s ++ 0 :: (r ++ [0]) by simp,
    cstr_token (fun h0 => (hs' 0 h0).1 rfl) _ (by rw [hlen, hlen]),
    show (D ++ bytes "INIT" ++ [0] ++ a ++ [0]) ++ s ++ 0 :: (r ++ [0]) =
      (D ++ bytes "INIT" ++ [0] ++ a ++ [0] ++ s ++ [0]) ++ r ++ 0 :: [] by simp,
    cstr_token hr.2 _ (by rw [hlen, hlen, hlen]),
    strtoul, strtoul, strtoull_digits (le_refl 16) ha.1 ha.2.1 ha.2.2,
    strtoull_digits (le_refl 16) hs.1 hs.2.1 hs.2.2]
  simp

/-- `<address> <rules>`: the rules are assigned to the address in the map of deltas. -/
theorem parseCFIFrameInfo_delta (D : List UInt8) {a r : List UInt8}
    (ha : HexNumeral (2 ^ 64) a) (hr : RecordLine r) {p : Nat} (hp : D.length = p) :
    parseCFIFrameInfo m (D ++ a ++ 32 :: (r ++ [0])) p =
      (true, { m with cfiDeltaRules := m.cfiDeltaRules.assign (UInt64.ofNat (digitsValue 16 a)) r },
        D ++ a ++ 0 :: (r ++ [0])) := by
  have hsp : (32 : UInt8) ∈ bytes " \r\n" := by decide
  have hdz : (0 : UInt8) ∉ bytes " \r\n" := by decide
  have ha' := field_bytes (hexNumeral_field ha)
  have hr' := field_bytes (recordLine_field hr)
  have ha0 : (0 : UInt8) ∉ a := fun h0 => (ha' 0 h0).1 rfl
  have hinit : a ≠ bytes "INIT" := fun h => by
    have hI := ha.2.1 (byte 'I') (by rw [h]; decide)
    have : digitValue (byte 'I') = 18 := by decide
    omega
  have e : D ++ a ++ 0 :: (r ++ [0]) = (D ++ a ++ [0]) ++ r ++ 0 :: [] := by simp
  have hlen : (D ++ a ++ [0]).length = D.length + a.length + 1 := by
    simp only [List.length_append, List.length_singleton]
  subst hp
  rw [parseCFIFrameInfo, strtokR_field_delim hdz ha.1 ha' hsp _ rfl]
  dsimp only
  rw [cstr_token ha0 _ rfl, if_neg hinit, e, strtokR_field_end hr.1.1 hr' _ hlen]
  dsimp only
  rw [cstr_token hr.2 _ hlen, ← e, cstr_token ha0 _ rfl, strtoul,
    strtoull_digits (le_refl 16) ha.1 ha.2.1 ha.2.2]

end Parsing

/-! ## The texts -/

/-- A `STACK` record as a writer lays it out. -/
inductive StackText where
  /-- `STACK WIN <rest>`, `rest` being what `WindowsFrameInfo::ParseFromString` reads. -/
  | win (rest : List UInt8)
  /-- `STACK CFI INIT <address> <size> <rules>`. -/
  | cfiInit (address size rules : List UInt8)
  /-- `STACK CFI <address> <rules>`. -/
  | cfiDelta (address rules : List UInt8)
  deriving DecidableEq, Repr

namespace StackText

def text : StackText → List UInt8
  | win rest => bytes "STACK WIN " ++ rest
  | cfiInit address size rules =>
    bytes "STACK CFI INIT " ++ List.intercalate [byte ' '] [address, size, rules]
  | cfiDelta address rules => bytes "STACK CFI " ++ List.intercalate [byte ' '] [address, rules]

/-- The fields as a writer writes them: hex numerals below 2^64, and the rules, or the
`WIN` carrier, some bytes up to the line's end that the carrier's parser accepts. -/
def WellFormed : StackText → Prop
  | win rest => RecordLine rest ∧ (parseFromString rest).isSome
  | cfiInit address size rules =>
    HexNumeral (2 ^ 64) address ∧ HexNumeral (2 ^ 64) size ∧ RecordLine rules
  | cfiDelta address rules => HexNumeral (2 ^ 64) address ∧ RecordLine rules

instance : ∀ s : StackText, Decidable (s.WellFormed parseFromString)
  | win _ => inferInstanceAs (Decidable (_ ∧ _))
  | cfiInit .. => inferInstanceAs (Decidable (_ ∧ _ ∧ _))
  | cfiDelta .. => inferInstanceAs (Decidable (_ ∧ _))

/-- What a `STACK WIN` record stores: the type, range and carrier its parser reads. -/
def winEntry : StackText → Option (Nat × UInt64 × UInt64 × W)
  | win rest => parseFromString rest
  | _ => none

/-- What a `STACK CFI INIT` record stores: its rules over its range. -/
def initEntry : StackText → Option (UInt64 × UInt64 × List UInt8)
  | cfiInit address size rules =>
    some (UInt64.ofNat (digitsValue 16 address), UInt64.ofNat (digitsValue 16 size), rules)
  | _ => none

/-- What a `STACK CFI` delta record stores: its rules at its address. -/
def deltaEntry : StackText → Option (UInt64 × List UInt8)
  | cfiDelta address rules => some (UInt64.ofNat (digitsValue 16 address), rules)
  | _ => none

end StackText

/-- Windows frame info stored in turn, each carrier over its range in the map of its
type; one `StoreRange` refuses is left out. -/
def storeWindowsFrameInfo (infos : Nat → ContainedRangeMap W)
    (es : List (Nat × UInt64 × UInt64 × W)) : Nat → ContainedRangeMap W :=
  es.foldl (fun infos e => Function.update infos e.1
    (((infos e.1).storeRange e.2.1 e.2.2.1 e.2.2.2).getD (infos e.1))) infos

/-- Initial CFI rules stored in turn over their ranges; one `StoreRange` refuses is left
out. -/
def storeCFIInitialRules (m : ContainedRangeMap (List UInt8))
    (es : List (UInt64 × UInt64 × List UInt8)) : ContainedRangeMap (List UInt8) :=
  es.foldl (fun m e => (m.storeRange e.1 e.2.1 e.2.2).getD m) m

/-- Delta CFI rules assigned in turn, a later one at an address replacing an earlier. -/
def assignCFIDeltaRules (d : StdMap (List UInt8)) (es : List (UInt64 × List UInt8)) :
    StdMap (List UInt8) :=
  es.foldl (fun d e => d.assign e.1 e.2) d

/-! ## Loading them -/

theorem recordLine_append {P x : List UInt8} (hP : RecordLine P)
    (hx : ∀ c ∈ x, c ∉ bytes "\r\n" ++ [0]) : RecordLine (P ++ x) := by
  refine ⟨⟨by simp [hP.1.1], fun c hc hS => ?_⟩, fun h0 => ?_⟩
  · rcases List.mem_append.mp hc with hc | hc
    exacts [hP.1.2 c hc hS, hx c hc (List.mem_append_left _ hS)]
  · rcases List.mem_append.mp h0 with h0 | h0
    exacts [hP.2 h0, hx 0 h0 (by decide)]

theorem recordLine_intercalate {ts : List (List UInt8)} (hne : ts ≠ [])
    (h : ∀ t ∈ ts, IsField (bytes "\r\n" ++ [0]) t) {P : List UInt8} (hP : RecordLine P) :
    RecordLine (P ++ List.intercalate [byte ' '] ts) :=
  recordLine_append hP (isField_intercalate (by decide) hne h).2

theorem hexNumeral_line {b : Nat} {ds : List UInt8} (h : HexNumeral b ds) :
    IsField (bytes "\r\n" ++ [0]) ds :=
  h.isField (by decide)

namespace StackText

theorem recordLine_text {s : StackText} (h : s.WellFormed parseFromString) : RecordLine s.text := by
  cases s with
  | win rest => exact recordLine_append (by decide) (recordLine_field h.1).2
  | cfiInit a sz r =>
    refine recordLine_intercalate (by simp) (fun t ht => ?_) (by decide)
    simp only [List.mem_cons, List.mem_singleton, List.not_mem_nil, or_false] at ht
    rcases ht with rfl | rfl | rfl
    exacts [hexNumeral_line h.1, hexNumeral_line h.2.1, recordLine_field h.2.2]
  | cfiDelta a r =>
    refine recordLine_intercalate (by simp) (fun t ht => ?_) (by decide)
    simp only [List.mem_cons, List.mem_singleton, List.not_mem_nil, or_false] at ht
    rcases ht with rfl | rfl
    exacts [hexNumeral_line h.1, recordLine_field h.2]

/-- A `STACK` record the loop hands to `ParseStackInfo`, whose platform token does not end
the line. -/
theorem recordKind_text (s : StackText) :
    recordKind s.text = .stack ∧ readsPastEnd s.text = false := by
  cases s <;> exact ⟨rfl, rfl⟩

end StackText

section Steps
variable (st : LoadState W)

theorem referenceStep_win {rest : List UInt8} (h : (StackText.win rest).WellFormed parseFromString)
    {type : Nat} {rva codeSize : UInt64} {info : W}
    (hp : parseFromString rest = some (type, rva, codeSize, info)) :
    ∃ buf, referenceStep parseFromString st (StackText.win rest).text =
      { st with
        buffer := buf, savePtr := 0, lineNumber := st.lineNumber + 1
        module := { st.module with
          windowsFrameInfo := Function.update st.module.windowsFrameInfo type
            (((st.module.windowsFrameInfo type).storeRange rva codeSize info).getD
              (st.module.windowsFrameInfo type)) } } := by
  have hl := StackText.recordLine_text parseFromString h
  have hps := parseStackInfo_win parseFromString st.module h.1.2 [] hp
  rw [← StackText.text] at hps
  refine ⟨bytes "STACK WIN" ++ 0 :: (rest ++ [0]), ?_⟩
  rw [referenceStep, processLine]
  simp only [cstr_append_nul hl.2, (StackText.recordKind_text _).1, hps]
  rfl

theorem referenceStep_cfiInit {a sz r : List UInt8}
    (h : (StackText.cfiInit a sz r).WellFormed parseFromString) :
    ∃ buf, referenceStep parseFromString st (StackText.cfiInit a sz r).text =
      { st with
        buffer := buf, savePtr := 0, lineNumber := st.lineNumber + 1
        module := { st.module with
          cfiInitialRules := (st.module.cfiInitialRules.storeRange (UInt64.ofNat (digitsValue 16 a))
            (UInt64.ofNat (digitsValue 16 sz)) r).getD st.module.cfiInitialRules } } := by
  have hl := StackText.recordLine_text parseFromString h
  have e : (StackText.cfiInit a sz r).text ++ [0] = bytes "STACK CFI " ++
      (bytes "INIT" ++ 32 :: (a ++ 32 :: (sz ++ 32 :: (r ++ [0])))) := by
    simp only [StackText.text, intercalate_cons_cons, intercalate_singleton, List.append_assoc,
      List.cons_append]
    rfl
  have e' : bytes "STACK CFI" ++ 0 :: (bytes "INIT" ++ 32 :: (a ++ 32 :: (sz ++ 32 :: (r ++ [0])))) =
      (bytes "STACK CFI" ++ [0]) ++ bytes "INIT" ++ 32 :: (a ++ 32 :: (sz ++ 32 :: (r ++ [0]))) := by
    simp
  refine ⟨bytes "STACK CFI" ++ [0] ++ bytes "INIT" ++ 0 :: (a ++ 0 :: (sz ++ 0 :: (r ++ [0]))), ?_⟩
  rw [referenceStep, processLine]
  dsimp only
  rw [cstr_append_nul hl.2, (StackText.recordKind_text _).1]
  dsimp only
  rw [e, parseStackInfo_cfi, e', parseCFIFrameInfo_init _ (bytes "STACK CFI" ++ [0]) h.1 h.2.1 h.2.2
    (p := 10) (by decide)]
  rfl

theorem referenceStep_cfiDelta {a r : List UInt8}
    (h : (StackText.cfiDelta a r).WellFormed parseFromString) :
    ∃ buf, referenceStep parseFromString st (StackText.cfiDelta a r).text =
      { st with
        buffer := buf, savePtr := 0, lineNumber := st.lineNumber + 1
        module := { st.module with
          cfiDeltaRules := st.module.cfiDeltaRules.assign (UInt64.ofNat (digitsValue 16 a)) r } } := by
  have hl := StackText.recordLine_text parseFromString h
  have e : (StackText.cfiDelta a r).text ++ [0] = bytes "STACK CFI " ++ (a ++ 32 :: (r ++ [0])) := by
    simp only [StackText.text, intercalate_cons_cons, intercalate_singleton, List.append_assoc,
      List.cons_append]
    rfl
  have e' : bytes "STACK CFI" ++ 0 :: (a ++ 32 :: (r ++ [0])) =
      (bytes "STACK CFI" ++ [0]) ++ a ++ 32 :: (r ++ [0]) := by
    simp
  refine ⟨bytes "STACK CFI" ++ [0] ++ a ++ 0 :: (r ++ [0]), ?_⟩
  rw [referenceStep, processLine]
  dsimp only
  rw [cstr_append_nul hl.2, (StackText.recordKind_text _).1]
  dsimp only
  rw [e, parseStackInfo_cfi, e', parseCFIFrameInfo_delta _ (bytes "STACK CFI" ++ [0]) h.1 h.2
    (p := 10) (by decide)]
  rfl

end Steps

/-- A run of `STACK` records stores each kind in its own container, in turn, and leaves
the rest of the module, the current function and the error count as they were. -/
theorem referenceLines_stackTexts : ∀ (ss : List StackText) (st : LoadState W)
    (rest : List (List UInt8)), (∀ s ∈ ss, s.WellFormed parseFromString) → st.numErrors = 0 →
    ∃ st', referenceLines parseFromString (ss.map StackText.text ++ rest) st =
        referenceLines parseFromString rest st' ∧
      st'.module = { st.module with
        windowsFrameInfo := storeWindowsFrameInfo st.module.windowsFrameInfo
          (ss.filterMap (StackText.winEntry parseFromString))
        cfiInitialRules := storeCFIInitialRules st.module.cfiInitialRules
          (ss.filterMap StackText.initEntry)
        cfiDeltaRules := assignCFIDeltaRules st.module.cfiDeltaRules
          (ss.filterMap StackText.deltaEntry) } ∧
      st'.numErrors = 0
  | [], st, _, _, herr => ⟨st, rfl, rfl, herr⟩
  | s :: ss, st, rest, hs, herr => by
    have hstep : ∃ buf, referenceStep parseFromString st s.text =
        { st with
          buffer := buf, savePtr := 0, lineNumber := st.lineNumber + 1
          module := { st.module with
            windowsFrameInfo := storeWindowsFrameInfo st.module.windowsFrameInfo
              ([s].filterMap (StackText.winEntry parseFromString))
            cfiInitialRules := storeCFIInitialRules st.module.cfiInitialRules
              ([s].filterMap StackText.initEntry)
            cfiDeltaRules := assignCFIDeltaRules st.module.cfiDeltaRules
              ([s].filterMap StackText.deltaEntry) } } := by
      have h := hs s (List.mem_cons_self _ _)
      cases s with
      | win rest =>
        obtain ⟨⟨type, rva, codeSize, info⟩, hp⟩ := Option.isSome_iff_exists.mp h.2
        obtain ⟨buf, e⟩ := referenceStep_win parseFromString st h hp
        refine ⟨buf, ?_⟩
        rw [e, List.filterMap_cons, StackText.winEntry, hp]
        rfl
      | cfiInit a sz r =>
        obtain ⟨buf, e⟩ := referenceStep_cfiInit parseFromString st h
        exact ⟨buf, by rw [e]; rfl⟩
      | cfiDelta a r =>
        obtain ⟨buf, e⟩ := referenceStep_cfiDelta parseFromString st h
        exact ⟨buf, by rw [e]; rfl⟩
    obtain ⟨buf, hstep⟩ := hstep
    obtain ⟨st', e, hm, he⟩ := referenceLines_stackTexts ss (referenceStep parseFromString st s.text)
      rest (fun s' hs' => hs s' (List.mem_cons_of_mem _ hs')) (by rw [hstep]; exact herr)
    refine ⟨st', ?_, ?_, he⟩
    · rw [List.map_cons, List.cons_append,
        referenceLines_cons_of_zero parseFromString _ (by rw [hstep]; exact herr), e]
    · rw [hm, hstep]
      simp only [storeWindowsFrameInfo, storeCFIInitialRules, assignCFIDeltaRules,
        ← List.foldl_append, ← List.filterMap_append, List.singleton_append]

/-! ## A whole file -/

theorem stackTexts_lines {ss : List StackText} (hs : ∀ s ∈ ss, s.WellFormed parseFromString) :
    ∀ r ∈ ss.map StackText.text, RecordLine r ∧ readsPastEnd r = false := fun r hr => by
  obtain ⟨s, hs', rfl⟩ := List.mem_map.mp hr
  exact ⟨StackText.recordLine_text parseFromString (hs s hs'), (StackText.recordKind_text s).2⟩

end SourceLineResolver.StackRecord
