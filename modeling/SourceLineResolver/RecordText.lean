import SourceLineResolver.FuncRecord

/-! # Writing `FILE`, `PUBLIC` and line records

The other records as the symbol format lays them out, fields between single spaces, and
what `ParseFile`, `ParsePublicSymbol` and `ParseLine` read back from them. The last field
of a `FILE` or `PUBLIC` record runs to the line's end, spaces included. -/

namespace SourceLineResolver.RecordText
open SourceLineResolver.Libc SourceLineResolver.Tokenize SourceLineResolver.Types
  SourceLineResolver.Parse SourceLineResolver.FuncRecord

/-! ## The texts -/

/-- A decimal numeral as a record writes it: decimal digits, at least one, of a value below
`bound`. -/
def DecNumeral (bound : Nat) (ds : List UInt8) : Prop :=
  ds ≠ [] ∧ (∀ c ∈ ds, digitValue c < 10) ∧ digitsValue 10 ds < bound

instance (bound : Nat) : DecidablePred (DecNumeral bound) :=
  fun _ => inferInstanceAs (Decidable (_ ∧ _ ∧ _))

/-- The field a record ends with, which runs to the line's end: some bytes, the first of
them not white space. -/
def RestText : List UInt8 → Prop
  | [] => False
  | c :: _ => c ∉ kWhitespace

instance : DecidablePred RestText
  | [] => inferInstanceAs (Decidable False)
  | _ :: _ => inferInstanceAs (Decidable (_ ∉ _))

/-- `FILE <id> <filename>`. -/
def fileRecordText (index filename : List UInt8) : List UInt8 :=
  bytes "FILE " ++ List.intercalate [byte ' '] [index, filename]

/-- `PUBLIC <address> <stack_param_size> <name>`. -/
def publicRecordText (address stackParamSize name : List UInt8) : List UInt8 :=
  bytes "PUBLIC " ++ List.intercalate [byte ' '] [address, stackParamSize, name]

/-- A `FILE` record's fields as text. -/
structure FileText where
  index : List UInt8
  name : List UInt8
  deriving DecidableEq, Repr

def FileText.text (f : FileText) : List UInt8 := fileRecordText f.index f.name

@[mk_iff]
structure FileText.WellFormed (f : FileText) : Prop where
  index : DecNumeral (2 ^ 63 - 1) f.index
  name : RestText f.name

instance (f : FileText) : Decidable f.WellFormed := decidable_of_iff' _ (FileText.wellFormed_iff f)

/-- A `PUBLIC` record's fields as text. -/
structure PublicText where
  address : List UInt8
  stackParamSize : List UInt8
  name : List UInt8
  deriving DecidableEq, Repr

def PublicText.text (p : PublicText) : List UInt8 :=
  publicRecordText p.address p.stackParamSize p.name

def PublicText.value (p : PublicText) : PublicSymbol :=
  ⟨p.name, UInt64.ofNat (digitsValue 16 p.address), digitsValue 16 p.stackParamSize⟩

@[mk_iff]
structure PublicText.WellFormed (p : PublicText) : Prop where
  address : HexNumeral (2 ^ 64 - 1) p.address
  stackParamSize : HexNumeral (2 ^ 63 - 1) p.stackParamSize
  name : RestText p.name

instance (p : PublicText) : Decidable p.WellFormed :=
  decidable_of_iff' _ (PublicText.wellFormed_iff p)

/-- A line record's fields as text. -/
structure LineText where
  address : List UInt8
  size : List UInt8
  lineNumber : List UInt8
  sourceFile : List UInt8
  deriving DecidableEq, Repr

/-- `<address> <size> <line number> <source file id>`. -/
def LineText.text (l : LineText) : List UInt8 :=
  List.intercalate [byte ' '] [l.address, l.size, l.lineNumber, l.sourceFile]

def LineText.value (l : LineText) : Line :=
  ⟨UInt64.ofNat (digitsValue 16 l.address), UInt64.ofNat (digitsValue 16 l.size),
    digitsValue 10 l.sourceFile, digitsValue 10 l.lineNumber⟩

@[mk_iff]
structure LineText.WellFormed (l : LineText) : Prop where
  address : HexNumeral (2 ^ 64 - 1) l.address
  size : HexNumeral (2 ^ 64 - 1) l.size
  lineNumber : DecNumeral (2 ^ 63 - 1) l.lineNumber
  sourceFile : DecNumeral (2 ^ 63 - 1) l.sourceFile

instance (l : LineText) : Decidable l.WellFormed := decidable_of_iff' _ (LineText.wellFormed_iff l)

theorem DecNumeral.isField {b : Nat} {ds S : List UInt8} (h : DecNumeral b ds)
    (hS : ∀ s ∈ S, digitValue s = 36) : IsField S ds :=
  Numeral.isField ⟨h.1, h.2.1⟩ (by decide) hS

theorem kWhitespace_not_digit : ∀ s ∈ kWhitespace, digitValue s = 36 := by decide

theorem space_mem_kWhitespace : byte ' ' ∈ kWhitespace := by decide

/-- Splitting on white space, a field that holds none and a single space before the rest
of the record. -/
theorem fields_kWhitespace_field {tok : List UInt8} (h : IsField kWhitespace tok) (n : Nat)
    (rest : List UInt8) :
    fields kWhitespace (n + 2) (tok ++ byte ' ' :: rest) = tok :: fields kWhitespace (n + 1) rest :=
  fields_field_append h space_mem_kWhitespace n rest

/-! ## Reading them back

Each record parser reads every numeric field with its own reader: `strtoull` in base 16 for
addresses and sizes, `strtol` in base 16 for a stack parameter size and in base 10 for a
file id or a line number. A field written as a numeral of its base is then accepted
exactly when its value is below the reader's sentinel, `ULLONG_MAX` or `LONG_MAX`. -/

theorem parseFile_fileRecordText_eq {index filename : List UInt8}
    (hi : Numeral 10 index) (hf : RestText filename) :
    parseFile (fileRecordText index filename) =
      if digitsValue 10 index < 2 ^ 63 - 1 then some ((digitsValue 10 index : Int), filename)
      else none := by
  obtain ⟨c, rest, rfl⟩ : ∃ c rest, filename = c :: rest := by
    cases filename with
    | nil => exact hf.elim
    | cons c rest => exact ⟨c, rest, rfl⟩
  have htok : tokenize ((fileRecordText index (c :: rest)).drop 5) kWhitespace 2 =
      ([index, c :: rest], true) := by
    have hdrop (x : List UInt8) : (bytes "FILE " ++ x).drop 5 = x := List.drop_left' rfl
    simp only [fileRecordText, hdrop, tokenize, Int.reduceToNat,
      intercalate_cons_cons, intercalate_singleton,
      fields_kWhitespace_field (hi.isField (by decide) kWhitespace_not_digit) 0, fields_one hf]
    rfl
  simp only [parseFile, htok, List.getD_cons_zero, List.getD_cons_succ, Bool.not_true,
    Bool.false_eq_true, ite_false, parseLong_digits_eq (by decide) hi.1 hi.2]
  split_ifs <;> simp [Int.not_lt.mpr (Int.ofNat_nonneg (digitsValue 10 _))]

theorem parseFile_fileRecordText {index filename : List UInt8}
    (hi : DecNumeral (2 ^ 63 - 1) index) (hf : RestText filename) :
    parseFile (fileRecordText index filename) = some ((digitsValue 10 index : Int), filename) := by
  rw [parseFile_fileRecordText_eq ⟨hi.1, hi.2.1⟩ hf, if_pos hi.2.2]

example : parseFile (fileRecordText (bytes "12") (bytes "src/a b.c")) =
    some (12, bytes "src/a b.c") :=
  parseFile_fileRecordText (by decide) (by decide)

theorem parsePublicSymbol_publicRecordText_eq {address stackParamSize name : List UInt8}
    (ha : Numeral 16 address) (hp : Numeral 16 stackParamSize) (hn : RestText name) :
    parsePublicSymbol (publicRecordText address stackParamSize name) =
      if digitsValue 16 address < 2 ^ 64 - 1 ∧ digitsValue 16 stackParamSize < 2 ^ 63 - 1 then
        some (UInt64.ofNat (digitsValue 16 address), (digitsValue 16 stackParamSize : Int), name)
      else none := by
  obtain ⟨c, rest, rfl⟩ : ∃ c rest, name = c :: rest := by
    cases name with
    | nil => exact hn.elim
    | cons c rest => exact ⟨c, rest, rfl⟩
  have htok : tokenize ((publicRecordText address stackParamSize (c :: rest)).drop 7)
      kWhitespace 3 = ([address, stackParamSize, c :: rest], true) := by
    have hdrop (x : List UInt8) : (bytes "PUBLIC " ++ x).drop 7 = x := List.drop_left' rfl
    simp only [publicRecordText, hdrop, tokenize, Int.reduceToNat,
      intercalate_cons_cons, intercalate_singleton,
      fields_kWhitespace_field (ha.isField (by decide) kWhitespace_not_digit) 1,
      fields_kWhitespace_field (hp.isField (by decide) kWhitespace_not_digit) 0, fields_one hn]
    rfl
  simp only [parsePublicSymbol, htok, List.getD_cons_zero, List.getD_cons_succ, Bool.not_true,
    Bool.false_eq_true, ite_false, parseHex_digits_eq ha.1 ha.2,
    parseLong_digits_eq (Nat.le_refl 16) hp.1 hp.2]
  split_ifs <;> first | omega | simp [Int.not_lt.mpr (Int.ofNat_nonneg (digitsValue 16 _))]

theorem parsePublicSymbol_publicRecordText {address stackParamSize name : List UInt8}
    (ha : HexNumeral (2 ^ 64 - 1) address) (hp : HexNumeral (2 ^ 63 - 1) stackParamSize)
    (hn : RestText name) :
    parsePublicSymbol (publicRecordText address stackParamSize name) =
      some (UInt64.ofNat (digitsValue 16 address), (digitsValue 16 stackParamSize : Int), name) := by
  rw [parsePublicSymbol_publicRecordText_eq ⟨ha.1, ha.2.1⟩ ⟨hp.1, hp.2.1⟩ hn,
    if_pos ⟨ha.2.2, hp.2.2⟩]

example : parsePublicSymbol (publicRecordText (bytes "2a") (bytes "8") (bytes "g h")) =
    some (0x2a, 8, bytes "g h") :=
  parsePublicSymbol_publicRecordText (by decide) (by decide) (by decide)

/-- `ParseLine` on four fields between single spaces, the last running on to the line's
end: the address and the size read by `strtoull` in base 16, the line number and the
source file id by `strtol` in base 10, neither of the two negative. -/
theorem parseLine_readers {address size lineNumber sourceFile : List UInt8}
    (ha : IsField kWhitespace address) (hs : IsField kWhitespace size)
    (hl : IsField kWhitespace lineNumber) (hf : IsField kWhitespace sourceFile)
    (rest : List UInt8) :
    parseLine (List.intercalate [byte ' '] [address, size, lineNumber, sourceFile] ++ rest) = (do
      let a ← parseHex address
      let s ← parseHex size
      let ln ← parseLong lineNumber 10
      let f ← parseLong (sourceFile ++ rest) 10
      if f < 0 ∨ ln < 0 then none else some ⟨a, s, f, ln⟩) := by
  have htok : tokenize (List.intercalate [byte ' '] [address, size, lineNumber, sourceFile] ++ rest)
      kWhitespace 4 = ([address, size, lineNumber, sourceFile ++ rest], true) := by
    simp only [tokenize, Int.reduceToNat, intercalate_cons_cons, intercalate_singleton,
      List.append_assoc, List.cons_append, fields_kWhitespace_field ha,
      fields_kWhitespace_field hs, fields_kWhitespace_field hl, fields_one_append hf]
    rfl
  simp only [parseLine, htok, List.getD_cons_zero, List.getD_cons_succ, Bool.not_true,
    Bool.false_eq_true, ite_false]
  rcases parseHex address with _ | _ <;> rcases parseHex size with _ | _ <;>
    rcases parseLong lineNumber 10 with _ | _ <;>
    rcases parseLong (sourceFile ++ rest) 10 with _ | _ <;> rfl

section Line
variable {l : LineText} (ha : Numeral 16 l.address) (hs : Numeral 16 l.size)
  (hl : Numeral 10 l.lineNumber) (hf : Numeral 10 l.sourceFile)
include ha hs hl hf

theorem LineText.parseLine_text_readers :
    parseLine l.text = (do
      let a ← parseHex l.address
      let s ← parseHex l.size
      let ln ← parseLong l.lineNumber 10
      let f ← parseLong l.sourceFile 10
      if f < 0 ∨ ln < 0 then none else some ⟨a, s, f, ln⟩) := by
  have h := parseLine_readers (ha.isField (by decide) kWhitespace_not_digit)
    (hs.isField (by decide) kWhitespace_not_digit) (hl.isField (by decide) kWhitespace_not_digit)
    (hf.isField (by decide) kWhitespace_not_digit) []
  rwa [List.append_nil, List.append_nil] at h

theorem LineText.parseLine_text_eq :
    parseLine l.text =
      if digitsValue 16 l.address < 2 ^ 64 - 1 ∧ digitsValue 16 l.size < 2 ^ 64 - 1 ∧
          digitsValue 10 l.lineNumber < 2 ^ 63 - 1 ∧ digitsValue 10 l.sourceFile < 2 ^ 63 - 1 then
        some l.value
      else none := by
  rw [parseLine_text_readers ha hs hl hf, parseHex_digits_eq ha.1 ha.2,
    parseHex_digits_eq hs.1 hs.2, parseLong_digits_eq (by decide) hl.1 hl.2,
    parseLong_digits_eq (by decide) hf.1 hf.2]
  split_ifs <;> first | rfl | omega

end Line

theorem LineText.parseLine_text {l : LineText} (h : l.WellFormed) :
    parseLine l.text = some l.value := by
  obtain ⟨⟨ha, hda, hva⟩, ⟨hs, hds, hvs⟩, ⟨hl, hdl, hvl⟩, ⟨hf, hdf, hvf⟩⟩ := h
  rw [parseLine_text_eq ⟨ha, hda⟩ ⟨hs, hds⟩ ⟨hl, hdl⟩ ⟨hf, hdf⟩,
    if_pos ⟨hva, hvs, hvl, hvf⟩]

/-! ## What the field readers accept -/

end SourceLineResolver.RecordText
