import SourceLineResolver.CurFunc

/-! # Loading in place refines loading line by line

`LoadMapFromMemory` cuts its buffer into lines with `strtok_r`, and the record parsers
read and write the buffer in place. Each line sits NUL-terminated inside the buffer and
every parser stays inside it, except `ParseStackInfo` after a platform token that ends
the line: it then reads the record from the next line. Barring such lines, the loader
builds what `referenceLoad` builds, a fold of the loop's body over the lines of the text,
each given a buffer of its own (`loadMapFromMemory_eq_referenceLoad`). -/

namespace SourceLineResolver.Simulation
open SourceLineResolver.Libc SourceLineResolver.Tokenize SourceLineResolver.Types
open SourceLineResolver.Load SourceLineResolver.Reference SourceLineResolver.Invariant
open SourceLineResolver.CurFunc

variable {W : Type} (parseFromString : List UInt8 → Option (Nat × UInt64 × UInt64 × W))

/-- A `STACK` line whose platform token, `WIN` or `CFI`, is the last thing on it:
`ParseStackInfo` then reads its record from past the line's end. -/
def readsPastEnd (line : List UInt8) : Bool :=
  startsWith line "STACK " &&
    let platform := (line.drop 6).dropWhile (· == 32)
    (platform == bytes "WIN" || platform == bytes "CFI")

section Platform
variable {C0 : List UInt8} (hC : (0 : UInt8) ∉ C0)
include hC

/-- The platform token as `ParseStackInfo` finds it when it runs to the line's end. -/
theorem cstr_platform (h6 : 6 ≤ C0.length) :
    cstr (C0 ++ [0]) (6 + (((C0 ++ [0]).drop 6).takeWhile (· == 32)).length) =
      (C0.drop 6).dropWhile (· == 32) := by
  have htw : ((C0 ++ [0]).drop 6).takeWhile (· == 32) = (C0.drop 6).takeWhile (· == 32) := by
    rw [List.drop_append_of_le_length h6, List.takeWhile_append]
    split
    · next hl => rw [(List.takeWhile_prefix _).eq_of_length hl]; simp
    · rfl
  have hle := (List.takeWhile_prefix (l := C0.drop 6) (· == 32)).length_le
  rw [htw, cstr_append_nul_drop hC (by simp at hle; omega), ← List.drop_drop]
  exact (congrArg _ (List.takeWhile_append_dropWhile (· == 32) (C0.drop 6))).symm.trans
    (List.drop_left ..)

theorem platform_not_past_end (hst : startsWith C0 "STACK " = true)
    (hno : readsPastEnd C0 = false) :
    cstr (C0 ++ [0]) (6 + (((C0 ++ [0]).drop 6).takeWhile (· == 32)).length) ≠ bytes "WIN" ∧
      cstr (C0 ++ [0]) (6 + (((C0 ++ [0]).drop 6).takeWhile (· == 32)).length) ≠ bytes "CFI" := by
  rw [cstr_platform hC (length_le_of_startsWith hst : 6 ≤ C0.length)]
  simpa [readsPastEnd, hst] using hno

end Platform

section Embed
variable (A rest : List UInt8)

/-- `strtok_r` on a line inside a buffer, as the record parsers use it: the same token and
save pointer as on the line alone, and a line that is again NUL-terminated. -/
theorem strtokR_in_line {delim C0 : List UInt8} (hd : (0 : UInt8) ∉ delim) {q : Nat}
    (hq : q ≤ C0.length) {x : Option Nat} {L : List UInt8} {save : Nat}
    (h : strtokR (C0 ++ [0]) q delim = (x, L, save)) :
    ∃ C1, L = C1 ++ [0] ∧ C1.length = C0.length ∧ save ≤ C1.length ∧
      (∀ t ∈ x, t ≤ C1.length) ∧
      strtokR (A ++ (C0 ++ [0]) ++ rest) (A.length + q) delim =
        (x.map (A.length + ·), A ++ (C1 ++ [0]) ++ rest, A.length + save) := by
  obtain ⟨C1, rfl, hl, hs, ht⟩ := strtokR_line hd hq h
  exact ⟨C1, rfl, hl, hl ▸ hs, hl ▸ ht, strtokR_embed hd hq h⟩

theorem parseCFIFrameInfo_embed (m : Module W) {C0 : List UInt8} {q : Nat} (hq : q ≤ C0.length)
    {ok : Bool} {m' : Module W} {L : List UInt8}
    (h : parseCFIFrameInfo m (C0 ++ [0]) q = (ok, m', L)) :
    (∃ C1, L = C1 ++ [0] ∧ C1.length = C0.length) ∧
      parseCFIFrameInfo m (A ++ (C0 ++ [0]) ++ rest) (A.length + q) = (ok, m', A ++ L ++ rest) := by
  have hsp : (0 : UInt8) ∉ bytes " \r\n" := by decide
  have hnl : (0 : UInt8) ∉ bytes "\r\n" := by decide
  unfold parseCFIFrameInfo at h ⊢
  rcases h1 : strtokR (C0 ++ [0]) q (bytes " \r\n") with ⟨_ | t, L1, c1⟩ <;>
    obtain ⟨C1, rfl, hl1, hc1, ht1, e1⟩ := strtokR_in_line A rest hsp hq h1 <;>
    rw [h1] at h <;> rw [e1] <;> dsimp only [Option.map_some', Option.map_none'] at h ⊢
  · cases h
    exact ⟨⟨C1, rfl, hl1⟩, rfl⟩
  rw [cstr_embed A C1 rest (ht1 t rfl)]
  split at h
  · rw [if_pos ‹_›]
    rcases h2 : strtokR (C1 ++ [0]) c1 (bytes " \r\n") with ⟨_ | a, L2, c2⟩ <;>
      obtain ⟨C2, rfl, hl2, hc2, ht2, e2⟩ := strtokR_in_line A rest hsp hc1 h2 <;>
      rw [h2] at h <;> rw [e2] <;> dsimp only [Option.map_some', Option.map_none'] at h ⊢
    · cases h
      exact ⟨⟨C2, rfl, hl2.trans hl1⟩, rfl⟩
    rcases h3 : strtokR (C2 ++ [0]) c2 (bytes " \r\n") with ⟨_ | s, L3, c3⟩ <;>
      obtain ⟨C3, rfl, hl3, hc3, ht3, e3⟩ := strtokR_in_line A rest hsp hc2 h3 <;>
      rw [h3] at h <;> rw [e3] <;> dsimp only [Option.map_some', Option.map_none'] at h ⊢
    · cases h
      exact ⟨⟨C3, rfl, hl3.trans (hl2.trans hl1)⟩, rfl⟩
    rcases h4 : strtokR (C3 ++ [0]) c3 (bytes "\r\n") with ⟨_ | r, L4, c4⟩ <;>
      obtain ⟨C4, rfl, hl4, hc4, ht4, e4⟩ := strtokR_in_line A rest hnl hc3 h4 <;>
      rw [h4] at h <;> rw [e4] <;> dsimp only [Option.map_some', Option.map_none'] at h ⊢ <;>
      cases h
    · exact ⟨⟨C4, rfl, hl4.trans (hl3.trans (hl2.trans hl1))⟩, rfl⟩
    · refine ⟨⟨C4, rfl, hl4.trans (hl3.trans (hl2.trans hl1))⟩, ?_⟩
      rw [cstr_embed A C4 rest (by have := ht2 a rfl; omega),
        cstr_embed A C4 rest (by have := ht3 s rfl; omega), cstr_embed A C4 rest (ht4 r rfl)]
  · rw [if_neg ‹_›]
    rcases h2 : strtokR (C1 ++ [0]) c1 (bytes "\r\n") with ⟨_ | r, L2, c2⟩ <;>
      obtain ⟨C2, rfl, hl2, hc2, ht2, e2⟩ := strtokR_in_line A rest hnl hc1 h2 <;>
      rw [h2] at h <;> rw [e2] <;> dsimp only [Option.map_some', Option.map_none'] at h ⊢ <;>
      cases h
    · exact ⟨⟨C2, rfl, hl2.trans hl1⟩, rfl⟩
    · refine ⟨⟨C2, rfl, hl2.trans hl1⟩, ?_⟩
      rw [cstr_embed A C2 rest (by have := ht1 t rfl; omega), cstr_embed A C2 rest (ht2 r rfl)]

theorem parseStackInfo_embed (m : Module W) {C0 : List UInt8} (hC : (0 : UInt8) ∉ C0)
    (hst : startsWith C0 "STACK " = true) (hno : readsPastEnd C0 = false)
    {ok : Bool} {m' : Module W} {L : List UInt8}
    (h : parseStackInfo parseFromString m (C0 ++ [0]) 0 = (ok, m', L)) :
    (∃ C1, L = C1 ++ [0] ∧ C1.length = C0.length) ∧
      parseStackInfo parseFromString m (A ++ (C0 ++ [0]) ++ rest) A.length =
        (ok, m', A ++ L ++ rest) := by
  have h6 : 6 ≤ C0.length := length_le_of_startsWith hst
  have hws : (fun c => !(Parse.kWhitespace.contains c || c == 0)) 0 = false := by decide
  have hsp := takeWhile_embed A C0 rest (p := (· == 32)) rfl h6
  have hs := takeWhile_line_length C0 (p := (· == 32)) rfl h6
  have hpl := platform_not_past_end hC hst hno
  unfold parseStackInfo at h ⊢
  dsimp only at h ⊢
  rw [Nat.zero_add] at h
  rw [hsp, Nat.add_assoc A.length 6]
  generalize 6 + (((C0 ++ [0]).drop 6).takeWhile (· == 32)).length = P0 at h hs hpl ⊢
  rw [takeWhile_embed A C0 rest (p := fun c => !(Parse.kWhitespace.contains c || c == 0)) hws hs,
    Nat.add_assoc A.length P0]
  have he := takeWhile_line_length C0
    (p := fun c => !(Parse.kWhitespace.contains c || c == 0)) hws hs
  generalize P0 + (((C0 ++ [0]).drop P0).takeWhile
    fun c => !(Parse.kWhitespace.contains c || c == 0)).length = E at h he ⊢
  have hl : (C0.set E 0).length = C0.length := List.length_set ..
  rw [set_line C0 he] at h
  rw [set_embed A C0 rest he, set_line C0 he, cstr_embed A (C0.set E 0) rest (hl ▸ hs)]
  rcases Nat.lt_or_eq_of_le he with he | rfl
  · rw [Nat.add_assoc A.length E 1, cstr_embed A (C0.set E 0) rest (by omega)]
    split at h
    · rw [if_pos ‹_›]
      split at h <;> cases h <;> exact ⟨⟨_, rfl, hl⟩, rfl⟩
    · rw [if_neg ‹_›]
      split at h
      · rw [if_pos ‹_›]
        obtain ⟨⟨C2, rfl, hl2⟩, e⟩ := parseCFIFrameInfo_embed A rest m (by omega) h
        exact ⟨⟨C2, rfl, hl2.trans hl⟩, e⟩
      · rw [if_neg ‹_›]
        cases h
        exact ⟨⟨_, rfl, hl⟩, rfl⟩
  · rw [List.set_eq_of_length_le (le_refl _)] at h ⊢
    rw [if_neg hpl.1, if_neg hpl.2] at h ⊢
    cases h
    exact ⟨⟨C0, rfl, rfl⟩, rfl⟩

theorem recordKind_stack {line : List UInt8} (h : recordKind line = .stack) :
    startsWith line "STACK " = true := by
  revert h
  unfold recordKind
  generalize startsWith line "FILE " = b1
  generalize startsWith line "STACK " = b2
  cases b1 <;> cases b2 <;> simp
  split_ifs <;> decide

/-- The loop's body on a line inside the buffer does what it does on the line given a
buffer of its own, whatever the save pointer. -/
theorem processLine_embed (st : LoadState W) {C0 : List UInt8} (hC : (0 : UInt8) ∉ C0)
    (hno : readsPastEnd C0 = false) (hbuf : st.buffer = A ++ (C0 ++ [0]) ++ rest) (s : Nat) :
    ∃ C1, C1.length = C0.length ∧
      (processLine parseFromString { st with buffer := C0 ++ [0], savePtr := s } 0).buffer =
        C1 ++ [0] ∧
      processLine parseFromString st A.length =
        { processLine parseFromString { st with buffer := C0 ++ [0], savePtr := s } 0 with
          buffer := A ++ (C1 ++ [0]) ++ rest, savePtr := st.savePtr } := by
  obtain ⟨module, buffer, savePtr, curFunc, lineNumber, numErrors⟩ := st
  dsimp only at hbuf
  subst hbuf
  have h0 := cstr_embed A C0 rest (Nat.zero_le C0.length)
  rw [Nat.add_zero, cstr_append_nul hC] at h0
  unfold processLine
  dsimp only
  rw [h0, cstr_append_nul hC]
  cases hk : recordKind C0 <;> dsimp only
  case stack =>
    rcases h : parseStackInfo parseFromString module (C0 ++ [0]) 0 with ⟨ok, m', L⟩
    obtain ⟨⟨C1, rfl, hl⟩, e⟩ := parseStackInfo_embed parseFromString A rest module hC
      (recordKind_stack hk) hno h
    rw [e]
    exact ⟨C1, hl, by cases ok <;> rfl, by cases ok <;> rfl⟩
  case file => cases parseFileRecord module C0 <;> exact ⟨C0, rfl, rfl, rfl⟩
  case func => cases parseFunctionRecord C0 <;> exact ⟨C0, rfl, rfl, rfl⟩
  case public => cases parsePublicSymbolRecord module C0 <;> exact ⟨C0, rfl, rfl, rfl⟩
  case line => cases curFunc <;> cases Parse.parseLine C0 <;> exact ⟨C0, rfl, rfl, rfl⟩
  all_goals exact ⟨C0, rfl, rfl, rfl⟩

end Embed

/-! ## One call of `strtok_r` on the text -/

/-- `strtok_r` from a save pointer in front of the text `R` and a NUL: either `R` holds no
line and the call finds none, or it finds the first line of `R` in place, ends it with a
NUL, and leaves the save pointer in front of the text after it, whatever the loop's body
then writes inside the line. -/
theorem strtokR_text {R : List UInt8} (hR : (0 : UInt8) ∉ R) (D Z : List UInt8) :
    (segments R = [] ∧ ∃ buf save,
      strtokR (D ++ R ++ 0 :: Z) D.length (bytes "\r\n") = (none, buf, save)) ∨
    ∃ A tok R' rest save, segments R = tok :: segments R' ∧ (0 : UInt8) ∉ tok ∧
      (0 : UInt8) ∉ R' ∧ R'.length < R.length ∧
      strtokR (D ++ R ++ 0 :: Z) D.length (bytes "\r\n") =
        (some A.length, A ++ (tok ++ [0]) ++ rest, save) ∧
      ∀ C1 : List UInt8, C1.length = tok.length →
        ∃ D', A ++ (C1 ++ [0]) ++ rest = D' ++ R' ++ 0 :: Z ∧ D'.length = save := by
  have hnl : (0 : UInt8) ∉ bytes "\r\n" := by decide
  rcases text_cases (bytes "\r\n") R with
    hall | ⟨sep, tok, hsep, htok, rfl | ⟨c, R', hc, rfl⟩⟩
  · exact .inl ⟨by simpa [segments_nil] using segments_sep_append hall [], _, _,
      strtokR_text_none hnl hall⟩
  all_goals
    have htok0 : ∀ b ∈ tok, b ≠ 0 ∧ b ∉ bytes "\r\n" :=
      fun b hb => ⟨fun h => hR (by simp [← h, hb]), htok.2 b hb⟩
    have hC : (0 : UInt8) ∉ tok := fun h => (htok0 0 h).1 rfl
    have htl := List.length_pos.mpr htok.1
  · -- the last line: the save pointer stays on the NUL after it
    have e := strtokR_token_end (D := D ++ sep) (Z := Z) htok.1 htok0
    rw [List.append_assoc (D ++ sep), ← strtokR_skip hsep] at e
    refine .inr ⟨D ++ sep, tok, [], Z, _, ?_, hC, List.not_mem_nil _, by simp; omega,
      by simpa using e, fun C1 hl => ⟨D ++ sep ++ C1, by simp, by simp [hl]; omega⟩⟩
    rw [segments_sep_append hsep, segments_field htok, segments_nil]
  · -- a line ending at a line end, which becomes its NUL
    have e := strtokR_token_delim (D := D ++ sep) (Z := R' ++ 0 :: Z) hnl htok.1 htok0 hc
    rw [List.append_assoc (D ++ sep), ← strtokR_skip hsep] at e
    refine .inr ⟨D ++ sep, tok, R', R' ++ 0 :: Z, _, ?_, hC, fun h => hR (by simp [h]),
      by simp; omega, by simpa using e, fun C1 hl => ⟨D ++ sep ++ C1 ++ [0], by simp,
        by simp [hl]; omega⟩⟩
    rw [List.append_assoc, segments_sep_append hsep, segments_field_cons htok hc]

/-! ## The loop against the fold -/

section Run

/-- A turn of the loop that finds a line does the reference's step on it. -/
theorem loadLines_token (fuel : Nat) (str : LoadState W) {B A tok rest : List UInt8} {p save : Nat}
    (hC : (0 : UInt8) ∉ tok) (hno : readsPastEnd tok = false)
    (hB : strtokR B p (bytes "\r\n") = (some A.length, A ++ (tok ++ [0]) ++ rest, save)) :
    ∃ C1, C1.length = tok.length ∧
      loadLines parseFromString (fuel + 1) { str with buffer := B, savePtr := p } =
        if (referenceStep parseFromString str tok).numErrors > kMaxErrorsBeforeBailing then
          { referenceStep parseFromString str tok with
            buffer := A ++ (C1 ++ [0]) ++ rest, savePtr := save }
        else loadLines parseFromString fuel
          { referenceStep parseFromString str tok with
            buffer := A ++ (C1 ++ [0]) ++ rest, savePtr := save } := by
  obtain ⟨C1, hl, -, e⟩ := processLine_embed parseFromString A rest
    { str with
      buffer := A ++ (tok ++ [0]) ++ rest, savePtr := save, lineNumber := str.lineNumber + 1 }
    hC hno rfl 0
  refine ⟨C1, hl, ?_⟩
  rw [loadLines]
  dsimp only
  rw [hB]
  dsimp only
  rw [e]
  rfl

/-- ... so when the loop from the save pointer after the line ends where the reference
does over `rest`, so does the loop from before it over the line and then `rest`. -/
theorem loadLines_cons (fuel : Nat) (str : LoadState W) {B A tok rest : List UInt8} {p save : Nat}
    {lines : List (List UInt8)} (hC : (0 : UInt8) ∉ tok) (hno : readsPastEnd tok = false)
    (hB : strtokR B p (bytes "\r\n") = (some A.length, A ++ (tok ++ [0]) ++ rest, save))
    (hnext : ∀ C1 : List UInt8, C1.length = tok.length → ∀ st : LoadState W, ∃ buf save',
      loadLines parseFromString fuel
          { st with buffer := A ++ (C1 ++ [0]) ++ rest, savePtr := save } =
        { referenceLines parseFromString lines st with buffer := buf, savePtr := save' }) :
    ∃ buf save', loadLines parseFromString (fuel + 1) { str with buffer := B, savePtr := p } =
      { referenceLines parseFromString (tok :: lines) str with
        buffer := buf, savePtr := save' } := by
  obtain ⟨C1, hl, e⟩ := loadLines_token parseFromString fuel str hC hno hB
  rw [e]
  simp only [referenceLines]
  split
  · exact ⟨_, _, rfl⟩
  · exact hnext C1 hl _

/-- From a save pointer at the end of `D`, with text `R` and then a NUL ahead, the loop
ends in the state the reference reaches over the lines of `R`, up to the buffer and the
save pointer. -/
theorem loadLines_eq_referenceLines : ∀ (fuel : Nat) (R D Z : List UInt8) (str : LoadState W),
    (0 : UInt8) ∉ R → (∀ line ∈ segments R, readsPastEnd line = false) →
    R.length < fuel → ∃ buf save,
      loadLines parseFromString fuel { str with buffer := D ++ R ++ 0 :: Z, savePtr := D.length } =
      { referenceLines parseFromString (segments R) str with buffer := buf, savePtr := save }
  | 0, _, _, _, _, _, _, hf => absurd hf (Nat.not_lt_zero _)
  | fuel + 1, R, D, Z, str, hR, hno, hf => by
    rcases strtokR_text hR D Z with
      ⟨hseg, buf, save, hB⟩ | ⟨A, tok, R', rest, save, hseg, hC, hR', hlt, hB, hnext⟩
    · -- no line is left
      rw [loadLines]
      dsimp only
      rw [hB, hseg]
      exact ⟨_, _, rfl⟩
    · -- the first line, then the loop from the save pointer after it over the rest
      rw [hseg] at hno ⊢
      refine loadLines_cons parseFromString fuel str hC (hno tok (List.mem_cons_self _ _)) hB
        fun C1 hl st => ?_
      obtain ⟨D', e, rfl⟩ := hnext C1 hl
      rw [e]
      exact loadLines_eq_referenceLines fuel R' D' Z st hR'
        (fun l hl => hno l (List.mem_cons_of_mem _ hl)) (by omega)

end Run

/-! ## The sanitised buffer -/

section Sanitize

/-- The sanitised buffer is text with no NUL, then a NUL. -/
theorem sanitize_text {memoryBuffer : List UInt8} (h : memoryBuffer ≠ []) :
    ∃ T Z, (sanitize memoryBuffer).1 = T ++ 0 :: Z ∧ (0 : UInt8) ∉ T := by
  have hlen : memoryBuffer.length - 1 < memoryBuffer.length :=
    Nat.sub_lt (List.length_pos.mpr h) Nat.one_pos
  set buf := memoryBuffer.set (memoryBuffer.length - 1) 0
  have hend : byteAt buf (memoryBuffer.length - 1) = 0 := by simp [buf, byteAt, hlen]
  have hle := skipTrailingNulls_le buf (memoryBuffer.length - 1)
  have hnul := byteAt_skipTrailingNulls buf _ hend
  set last := skipTrailingNulls buf (memoryBuffer.length - 1)
  have hlast : last < buf.length := by simp [buf]; omega
  refine ⟨(buf.take last).map (fun c => if c = 0 then byte '_' else c), buf.drop (last + 1),
    ?_, ?_⟩
  · rw [sanitize, underscoreNuls_eq, List.drop_eq_getElem_cons hlast]
    simp only [byteAt, List.getD_eq_getElem?_getD, List.getElem?_eq_getElem hlast,
      Option.getD_some] at hnul
    rw [hnul]
  · simp only [List.mem_map, not_exists, not_and]
    intro c _
    split <;> [decide; assumption]

end Sanitize

/-! ## Loading -/

/-- The loop on the sanitised buffer ends in the state the fold over its lines reaches. -/
theorem loadLines_sanitize {memoryBuffer : List UInt8} (hne : memoryBuffer ≠ [])
    (h : ∀ line ∈ segments (cstr (sanitize memoryBuffer).1 0), readsPastEnd line = false) :
    ∃ buf save, loadLines parseFromString ((sanitize memoryBuffer).1.length + 1)
        (LoadState.init (sanitize memoryBuffer).1 (sanitize memoryBuffer).2) =
      { referenceLines parseFromString (segments (cstr (sanitize memoryBuffer).1 0))
          (LoadState.init (sanitize memoryBuffer).1 (sanitize memoryBuffer).2) with
        buffer := buf, savePtr := save } := by
  obtain ⟨T, Z, hs, hT⟩ := sanitize_text hne
  rw [hs, cstr_text hT Z] at h ⊢
  exact loadLines_eq_referenceLines parseFromString _ T [] Z
    (LoadState.init (T ++ 0 :: Z) (sanitize memoryBuffer).2) hT h (by simp; omega)

/-- Barring `STACK` lines that end at their platform token, `LoadMapFromMemory` builds the
module that loading the text line by line builds. -/
theorem loadMapFromMemory_eq_referenceLoad (memoryBuffer : List UInt8)
    (h : ∀ line ∈ segments (cstr (sanitize memoryBuffer).1 0), readsPastEnd line = false) :
    loadMapFromMemory parseFromString memoryBuffer = referenceLoad parseFromString memoryBuffer := by
  unfold loadMapFromMemory referenceLoad
  split
  · rfl
  · next hne =>
    obtain ⟨buf, save, e⟩ := loadLines_sanitize parseFromString hne h
    revert e
    cases sanitize memoryBuffer
    intro e
    dsimp only at e ⊢
    rw [e]

theorem loadMapFromMemory_eq_referenceLoad_stack_cfi :
    (∀ line ∈ segments (cstr (sanitize
        (bytes "FUNC 1 10 0 f\n1 2 3 4\nSTACK CFI 1 .cfa: $esp 4 +\n")).1 0),
      readsPastEnd line = false) ∧
    @loadMapFromMemory Unit (fun _ => none)
        (bytes "FUNC 1 10 0 f\n1 2 3 4\nSTACK CFI 1 .cfa: $esp 4 +\n") =
      referenceLoad (fun _ => none)
        (bytes "FUNC 1 10 0 f\n1 2 3 4\nSTACK CFI 1 .cfa: $esp 4 +\n") :=
  ⟨by decide, loadMapFromMemory_eq_referenceLoad _ _ (by decide)⟩

/-! ## Each function's lines -/

/-- The lines `LoadMapFromMemory` handles, by the fold's reading: those of the sanitised text
up to the one whose errors pass the cap. -/
def loadedLines (memoryBuffer : List UInt8) : List (List UInt8) :=
  if memoryBuffer = [] then []
  else processedLines parseFromString (segments (cstr (sanitize memoryBuffer).1 0))
    (LoadState.init (sanitize memoryBuffer).1 (sanitize memoryBuffer).2)

/-- The heap `LoadMapFromMemory` builds is the one handling its lines one by one builds. -/
theorem loadMapFromMemory_heap {memoryBuffer : List UInt8} (hne : memoryBuffer ≠ [])
    (h : ∀ line ∈ segments (cstr (sanitize memoryBuffer).1 0), readsPastEnd line = false) :
    (loadMapFromMemory parseFromString memoryBuffer).heap =
      (lineByLine parseFromString (sanitize memoryBuffer).1 (sanitize memoryBuffer).2
        (loadedLines parseFromString memoryBuffer)).module.heap := by
  obtain ⟨buf, save, e⟩ := loadLines_sanitize parseFromString hne h
  rw [loadedLines, if_neg hne, lineByLine, ← referenceLines_eq_foldl, loadMapFromMemory,
    if_neg hne]
  revert e
  cases sanitize memoryBuffer
  intro e
  dsimp only at e ⊢
  rw [e]

theorem nul_not_mem_loadedLines (memoryBuffer : List UInt8) :
    ∀ l ∈ loadedLines parseFromString memoryBuffer, (0 : UInt8) ∉ l := by
  unfold loadedLines
  split
  · simp
  · exact fun l hl => nul_not_mem_segments (nul_not_mem_cstr _ 0) l
      ((processedLines_isPrefix parseFromString _ _).subset hl)

/-- Barring `STACK` lines that end at their platform token: each `FUNC` line among those the
loader handles that parses puts its function in its slot of the heap, and that function's
line map is its own line records (those after it, before the next `FUNC` or `PUBLIC` line)
stored in turn, whatever lies between them. -/
theorem loadMapFromMemory_lineMap (memoryBuffer : List UInt8)
    (h : ∀ line ∈ segments (cstr (sanitize memoryBuffer).1 0), readsPastEnd line = false)
    (i : Nat) (hi : i < (loadedLines parseFromString memoryBuffer).length)
    (hc : createsFunction (loadedLines parseFromString memoryBuffer)[i]) :
    parseFunctionRecord (loadedLines parseFromString memoryBuffer)[i] =
        some { (loadMapFromMemory parseFromString memoryBuffer).function
          (slot (loadedLines parseFromString memoryBuffer) i) with lines := .empty } ∧
      ((loadMapFromMemory parseFromString memoryBuffer).function
          (slot (loadedLines parseFromString memoryBuffer) i)).lines =
        lineMap (loadedLines parseFromString memoryBuffer) i := by
  have hne : memoryBuffer ≠ [] := by
    rintro rfl
    exact absurd hi (Nat.not_lt_zero _)
  have hnul := nul_not_mem_loadedLines parseFromString memoryBuffer
  rw [Module.function, loadMapFromMemory_heap parseFromString hne h]
  exact ⟨(agrees_lineByLine parseFromString _ _ hnul).slots i hi hc,
    lineByLine_lineMap parseFromString _ _ hnul i hi hc⟩

theorem loadMapFromMemory_lineMap_after_file :
    (∀ line ∈ segments (cstr (sanitize
        (bytes "FUNC 1 10 0 f\n1 2 3 4\nFILE 1 a.c\n5 2 3 1\n")).1 0),
      readsPastEnd line = false) ∧
    createsFunction ((@loadedLines Unit (fun _ => none)
      (bytes "FUNC 1 10 0 f\n1 2 3 4\nFILE 1 a.c\n5 2 3 1\n")).get ⟨0, by decide⟩) ∧
    parseFunctionRecord ((@loadedLines Unit (fun _ => none)
        (bytes "FUNC 1 10 0 f\n1 2 3 4\nFILE 1 a.c\n5 2 3 1\n")).get ⟨0, by decide⟩) =
      some { (@loadMapFromMemory Unit (fun _ => none)
          (bytes "FUNC 1 10 0 f\n1 2 3 4\nFILE 1 a.c\n5 2 3 1\n")).function
        (slot (@loadedLines Unit (fun _ => none)
          (bytes "FUNC 1 10 0 f\n1 2 3 4\nFILE 1 a.c\n5 2 3 1\n")) 0) with lines := .empty } ∧
    ((@loadMapFromMemory Unit (fun _ => none)
        (bytes "FUNC 1 10 0 f\n1 2 3 4\nFILE 1 a.c\n5 2 3 1\n")).function
      (slot (@loadedLines Unit (fun _ => none)
        (bytes "FUNC 1 10 0 f\n1 2 3 4\nFILE 1 a.c\n5 2 3 1\n")) 0)).lines =
      lineMap (@loadedLines Unit (fun _ => none)
        (bytes "FUNC 1 10 0 f\n1 2 3 4\nFILE 1 a.c\n5 2 3 1\n")) 0 := by
  have h : ∀ line ∈ segments (cstr (sanitize
      (bytes "FUNC 1 10 0 f\n1 2 3 4\nFILE 1 a.c\n5 2 3 1\n")).1 0),
      readsPastEnd line = false := by decide
  have hc : createsFunction ((@loadedLines Unit (fun _ => none)
      (bytes "FUNC 1 10 0 f\n1 2 3 4\nFILE 1 a.c\n5 2 3 1\n")).get ⟨0, by decide⟩) := by decide
  exact ⟨h, hc, loadMapFromMemory_lineMap _ _ h 0 (by decide) hc⟩

end SourceLineResolver.Simulation
