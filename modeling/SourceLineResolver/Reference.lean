import SourceLineResolver.Load

/-! # Loading line by line

The spec reads the loader as a fold over the lines of the sanitised text: its maximal
non-empty segments free of `\r` and `\n`, each handled by the loop's body on its own text
alone. `referenceLoad` is that reading. The source's loop differs on a `STACK` record
with nothing after its platform token: `ParseStackInfo` then steps past the line's NUL
into the next line, which `ParseCFIFrameInfo` cuts up. -/

namespace SourceLineResolver.Reference
open SourceLineResolver.Libc SourceLineResolver.Tokenize SourceLineResolver.Types
open SourceLineResolver.Load

variable {W : Type} (parseFromString : List UInt8 → Option (Nat × UInt64 × UInt64 × W))

/-- The maximal non-empty segments of `text` with no `\r` or `\n`. -/
def segments (text : List UInt8) : List (List UInt8) :=
  (text.splitOnP fun c => c == 13 || c == 10).filter fun s => !s.isEmpty

/-- The loop's body on one segment, given as a buffer of its own. -/
def referenceStep (st : LoadState W) (segment : List UInt8) : LoadState W :=
  processLine parseFromString
    { st with buffer := segment ++ [0], savePtr := 0, lineNumber := st.lineNumber + 1 } 0

def referenceLines : List (List UInt8) → LoadState W → LoadState W
  | [], st => st
  | segment :: rest, st =>
    let st := referenceStep parseFromString st segment
    if st.numErrors > kMaxErrorsBeforeBailing then st else referenceLines rest st

@[simp] theorem referenceLines_nil (st : LoadState W) : referenceLines parseFromString [] st = st :=
  rfl

/-- The lines `referenceLines` handles: all of them, or those up to the one whose errors
take the count past the cap. -/
def processedLines : List (List UInt8) → LoadState W → List (List UInt8)
  | [], _ => []
  | segment :: rest, st =>
    if (referenceStep parseFromString st segment).numErrors > kMaxErrorsBeforeBailing then [segment]
    else segment :: processedLines rest (referenceStep parseFromString st segment)

/-- The loader as a fold of `referenceStep` over the segments of the sanitised text, until
the error count passes the cap. -/
def referenceLoad (memoryBuffer : List UInt8) : Module W :=
  if memoryBuffer = [] then .empty
  else
    let (buf, numErrors) := sanitize memoryBuffer
    let st := referenceLines parseFromString (segments (cstr buf 0)) (LoadState.init buf numErrors)
    { st.module with isCorrupt := decide (st.numErrors > 0) }

/-! ## The lines of a text

A text is a run of line ends, or such a run, a line, and then its end or a line end and
more text. `segments` reads the lines off in that order. -/

section Lines
variable {sep tok : List UInt8}

theorem mem_crlf {c : UInt8} : c ∈ bytes "\r\n" ↔ (c == 13 || c == 10) = true := by
  rw [show bytes "\r\n" = [13, 10] by decide]
  simp

theorem text_cases (S : List UInt8) : ∀ R : List UInt8, (∀ c ∈ R, c ∈ S) ∨
    ∃ sep tok, (∀ c ∈ sep, c ∈ S) ∧ IsField S tok ∧
      (R = sep ++ tok ∨ ∃ c R', c ∈ S ∧ R = sep ++ tok ++ c :: R')
  | [] => .inl (by simp)
  | c :: R => by
    by_cases hc : c ∈ S
    · rcases text_cases S R with h | ⟨sep, tok, hs, ht, h⟩
      · exact .inl (by simpa [hc] using h)
      · refine .inr ⟨c :: sep, tok, by simpa [hc] using hs, ht, ?_⟩
        rcases h with rfl | ⟨d, R', hd, rfl⟩
        exacts [.inl rfl, .inr ⟨d, R', hd, rfl⟩]
    · have hf : IsField S [c] := ⟨by simp, by simpa using hc⟩
      rcases text_cases S R with h | ⟨sep, tok, hs, ht, h⟩
      · cases R with
        | nil => exact .inr ⟨[], [c], by simp, hf, .inl rfl⟩
        | cons d R => exact .inr ⟨[], [c], by simp, hf, .inr ⟨d, R, h d (by simp), rfl⟩⟩
      · cases sep with
        | nil =>
          refine .inr ⟨[], c :: tok, by simp, ⟨by simp, by simpa [hc] using ht.2⟩, ?_⟩
          rcases h with rfl | ⟨d, R', hd, rfl⟩
          exacts [.inl rfl, .inr ⟨d, R', hd, rfl⟩]
        | cons d sep =>
          exact .inr ⟨[], [c], by simp, hf, .inr ⟨d, R.tail, hs d (by simp), by
            rcases h with rfl | ⟨_, _, _, rfl⟩ <;> rfl⟩⟩

theorem segments_nil : segments [] = [] := rfl

theorem segments_sep_append (hsep : ∀ c ∈ sep, c ∈ bytes "\r\n") (R : List UInt8) :
    segments (sep ++ R) = segments R := by
  induction sep with
  | nil => rfl
  | cons c sep ih =>
    rw [List.cons_append, segments, List.splitOnP_cons, if_pos (mem_crlf.mp (hsep c (by simp))),
      List.filter_cons_of_neg (by simp), ← segments, ih fun b hb => hsep b (by simp [hb])]

theorem not_lineEnd_of_field (htok : IsField (bytes "\r\n") tok) :
    ∀ c ∈ tok, ¬(c == 13 || c == 10) = true :=
  fun c hc => mt mem_crlf.mpr (htok.2 c hc)

theorem segments_field (htok : IsField (bytes "\r\n") tok) : segments tok = [tok] := by
  rw [segments, List.splitOnP_eq_single _ _ (not_lineEnd_of_field htok),
    List.filter_cons_of_pos (by simpa using htok.1)]
  rfl

theorem segments_field_cons (htok : IsField (bytes "\r\n") tok) {c : UInt8}
    (hc : c ∈ bytes "\r\n") (R : List UInt8) : segments (tok ++ c :: R) = tok :: segments R := by
  rw [segments, List.splitOnP_first _ _ (not_lineEnd_of_field htok) _ (mem_crlf.mp hc),
    List.filter_cons_of_pos (by simpa using htok.1)]
  rfl

theorem nul_not_mem_splitOnP {p : UInt8 → Bool} :
    ∀ {text : List UInt8}, (0 : UInt8) ∉ text → ∀ s ∈ text.splitOnP p, (0 : UInt8) ∉ s
  | [], _, s, hs => by simp_all
  | c :: cs, h, s, hs => by
    have hc : c ≠ 0 := fun h0 => h (h0 ▸ List.mem_cons_self _ _)
    have ih := nul_not_mem_splitOnP (p := p) fun h0 => h (List.mem_cons_of_mem _ h0)
    rw [List.splitOnP_cons] at hs
    split at hs
    · rcases List.mem_cons.mp hs with rfl | hs
      exacts [List.not_mem_nil _, ih s hs]
    · revert hs ih
      cases cs.splitOnP p with
      | nil => simp
      | cons t ts =>
        intro ih hs
        rcases List.mem_cons.mp hs with rfl | hs
        · simpa [Ne.symm hc] using ih t (List.mem_cons_self _ _)
        · exact ih s (List.mem_cons_of_mem _ hs)

theorem nul_not_mem_segments {text : List UInt8} (h : (0 : UInt8) ∉ text) :
    ∀ s ∈ segments text, (0 : UInt8) ∉ s :=
  fun s hs => nul_not_mem_splitOnP h s (List.mem_filter.mp hs).1

end Lines

/-! ## The lines the fold handles -/

theorem referenceLines_eq_foldl : ∀ (lines : List (List UInt8)) (st : LoadState W),
    referenceLines parseFromString lines st =
      (processedLines parseFromString lines st).foldl (referenceStep parseFromString) st
  | [], _ => rfl
  | segment :: rest, st => by
    rw [referenceLines, processedLines]
    split
    · rfl
    · exact referenceLines_eq_foldl rest _

theorem processedLines_isPrefix : ∀ (lines : List (List UInt8)) (st : LoadState W),
    processedLines parseFromString lines st <+: lines
  | [], _ => List.nil_prefix
  | segment :: rest, st => by
    rw [processedLines]
    split
    · exact ⟨rest, rfl⟩
    · exact (List.prefix_cons_inj segment).mpr (processedLines_isPrefix rest _)

/-- Lines are left out only once the error count has passed the cap. -/
theorem processedLines_eq_or : ∀ (lines : List (List UInt8)) (st : LoadState W),
    processedLines parseFromString lines st = lines ∨
      ((processedLines parseFromString lines st).foldl (referenceStep parseFromString) st).numErrors >
        kMaxErrorsBeforeBailing
  | [], _ => .inl rfl
  | segment :: rest, st => by
    rw [processedLines]
    split
    · exact .inr ‹_›
    · rcases processedLines_eq_or rest (referenceStep parseFromString st segment) with h | h
      · exact .inl (by rw [h])
      · exact .inr h


/-- A `STACK CFI` line with nothing after `CFI` makes the loader take the next line as the
delta record `FUNC` at 0xF with rules `1 10 0 f`, cut that line to `FUNC` and stop; the
line-by-line loader stores the function `f` instead. -/
theorem loadMapFromMemory_stack_cfi_overrun :
    (@loadMapFromMemory Unit (fun _ => none) (bytes "STACK CFI\nFUNC 1 10 0 f\n")).cfiDeltaRules.entries =
      [(0xF, bytes "1 10 0 f")] ∧
    ((@loadMapFromMemory Unit (fun _ => none) (bytes "STACK CFI\nFUNC 1 10 0 f\n")).functions.ranges.map
      fun x => (x.base, x.size)) = [] ∧
    (@referenceLoad Unit (fun _ => none) (bytes "STACK CFI\nFUNC 1 10 0 f\n")).cfiDeltaRules.entries = [] ∧
    ((@referenceLoad Unit (fun _ => none) (bytes "STACK CFI\nFUNC 1 10 0 f\n")).functions.ranges.map
      fun x => (x.base, x.size)) = [(1, 0x10)] := by
  decide

end SourceLineResolver.Reference
