import SourceLineResolver.Parse

/-! # Writing a `FUNC` record

A `FUNC` record written from its fields as the symbol format lays it out, with no white
space around the `#` separators, and what `ParseFunction` reads back from it. `Tokenize`
splits the segments on `#` alone, so white space around a `#` stays in the fields on
either side of it. -/

namespace SourceLineResolver.FuncRecord
open SourceLineResolver.Libc SourceLineResolver.Tokenize SourceLineResolver.Types
  SourceLineResolver.Parse

/-! ## The text -/

/-- A numeral as a record writes it: hex digits, at least one, of a value below `bound`. -/
def HexNumeral (bound : Nat) (ds : List UInt8) : Prop :=
  ds ≠ [] ∧ (∀ c ∈ ds, digitValue c < 16) ∧ digitsValue 16 ds < bound

instance (bound : Nat) : DecidablePred (HexNumeral bound) :=
  fun _ => inferInstanceAs (Decidable (_ ∧ _ ∧ _))

/-- Digits of `base`, at least one, of any value: a numeric field written as a numeral. -/
def Numeral (base : Nat) (ds : List UInt8) : Prop := ds ≠ [] ∧ ∀ c ∈ ds, digitValue c < base

instance (base : Nat) : DecidablePred (Numeral base) := fun _ => inferInstanceAs (Decidable (_ ∧ _))

/-- The separators of a `FUNC` record's first segment: white space, and the `#` that ends
the segment. -/
def headSeparators : List UInt8 := kWhitespace ++ bytes "#"

/-- A parameter's type or name: some bytes, none of them `@` or `#`. -/
def Word (s : List UInt8) : Prop := IsField (bytes "@#") s

instance : DecidablePred Word := fun _ => inferInstanceAs (Decidable (_ ∧ _))

/-- A location operation `<op>[:<v1>[:<v2>]]`: the numerals of its opcode and operands. -/
structure LocText where
  op : List UInt8
  values : List (List UInt8)
  deriving DecidableEq, Repr

def LocText.text (l : LocText) : List UInt8 := List.intercalate [byte ':'] (l.op :: l.values)

/-- The operation the text stands for; an absent operand is 0. -/
def LocText.value (l : LocText) : ArgLocInfo :=
  ⟨UInt8.ofNat (digitsValue 16 l.op), UInt64.ofNat (digitsValue 16 (l.values.getD 0 [])),
    UInt64.ofNat (digitsValue 16 (l.values.getD 1 []))⟩

@[mk_iff]
structure LocText.WellFormed (l : LocText) : Prop where
  op : HexNumeral 256 l.op
  values_length : l.values.length ≤ 2
  values : ∀ v ∈ l.values, HexNumeral (2 ^ 64) v

instance (l : LocText) : Decidable l.WellFormed := decidable_of_iff' _ (LocText.wellFormed_iff l)

/-- A parameter `<type>@<size>@<name>@<loc>$<loc>...`. -/
structure ParamText where
  typeName : List UInt8
  typeSize : List UInt8
  paramName : List UInt8
  locs : List LocText
  deriving DecidableEq, Repr

def ParamText.text (p : ParamText) : List UInt8 :=
  List.intercalate [byte '@'] [p.typeName, p.typeSize, p.paramName,
    List.intercalate [byte '$'] (p.locs.map LocText.text)]

def ParamText.value (p : ParamText) : FuncParam :=
  ⟨p.typeName, UInt64.ofNat (digitsValue 16 p.typeSize), p.paramName, p.locs.map LocText.value⟩

@[mk_iff]
structure ParamText.WellFormed (p : ParamText) : Prop where
  typeName : Word p.typeName
  typeSize : HexNumeral (2 ^ 64) p.typeSize
  paramName : Word p.paramName
  locs_ne : p.locs ≠ []
  locs_length : p.locs.length ≤ 2 ^ 31 - 1
  locs : ∀ l ∈ p.locs, l.WellFormed

instance (p : ParamText) : Decidable p.WellFormed :=
  decidable_of_iff' _ (ParamText.wellFormed_iff p)

/-- The `#<n>#<p1>#...#<pn>` suffix: the count's numeral and the parameters. -/
structure Suffix where
  count : List UInt8
  params : List ParamText
  deriving DecidableEq, Repr

def Suffix.text (s : Suffix) : List UInt8 := List.intercalate [byte '#'] (s.params.map ParamText.text)

def Suffix.value (s : Suffix) : List FuncParam := s.params.map ParamText.value

@[mk_iff]
structure Suffix.WellFormed (s : Suffix) : Prop where
  count : HexNumeral (2 ^ 31) s.count
  count_eq : digitsValue 16 s.count = s.params.length
  params : ∀ p ∈ s.params, p.WellFormed

instance (s : Suffix) : Decidable s.WellFormed := decidable_of_iff' _ (Suffix.wellFormed_iff s)

/-- A function's name: some bytes and no `#`, the first of them not white space. -/
def NameText : List UInt8 → Prop
  | [] => False
  | c :: rest => c ∉ kWhitespace ∧ byte '#' ∉ c :: rest

instance : DecidablePred NameText
  | [] => inferInstanceAs (Decidable False)
  | _ :: _ => inferInstanceAs (Decidable (_ ∧ _))

/-- `<address> <size> <stack_param_size> <name>`, the record's first `#` segment. -/
def headText (address size stackParamSize name : List UInt8) : List UInt8 :=
  List.intercalate [byte ' '] [address, size, stackParamSize, name]

/-- `FUNC <address> <size> <stack_param_size> <name>`, then `#<n>#<p1>#...#<pn>` when the
record has a suffix. -/
def funcRecordText (address size stackParamSize name : List UInt8) : Option Suffix → List UInt8
  | none => bytes "FUNC " ++ headText address size stackParamSize name
  | some s => bytes "FUNC " ++
      List.intercalate [byte '#'] [headText address size stackParamSize name, s.count, s.text]

/-! ## Which bytes each text holds -/

/-- A numeral is a field of any separators that are not digits. -/
theorem Numeral.isField {b : Nat} {ds S : List UInt8} (h : Numeral b ds) (hb : b ≤ 36)
    (hS : ∀ s ∈ S, digitValue s = 36) : IsField S ds :=
  ⟨h.1, fun c hc hcS => by have := h.2 c hc; have := hS c hcS; omega⟩

theorem HexNumeral.isField {b : Nat} {ds S : List UInt8} (h : HexNumeral b ds)
    (hS : ∀ s ∈ S, digitValue s = 36) : IsField S ds :=
  Numeral.isField ⟨h.1, h.2.1⟩ (by decide) hS

theorem isField_intercalate {S : List UInt8} {d : UInt8} (hd : d ∉ S) :
    ∀ {ts : List (List UInt8)}, ts ≠ [] → (∀ t ∈ ts, IsField S t) →
      IsField S (List.intercalate [d] ts)
  | t :: ts, _, h => by
    refine ⟨?_, fun c hc hcS => ?_⟩
    · cases ts with
      | nil => simpa [List.intercalate] using (h t (by simp)).1
      | cons t' ts => simp [intercalate_cons_cons, (h t (by simp)).1]
    · rcases mem_intercalate hc with rfl | ⟨u, hu, hcu⟩
      · exact hd hcS
      · exact (h u hu).2 c hcu hcS

theorem LocText.isField_text {l : LocText} (h : l.WellFormed) {S : List UInt8}
    (hS : ∀ s ∈ S, digitValue s = 36) (hcolon : byte ':' ∉ S) : IsField S l.text :=
  isField_intercalate hcolon (by simp) fun t ht => by
    rcases List.mem_cons.mp ht with rfl | ht
    · exact h.op.isField hS
    · exact (h.values t ht).isField hS

/-- The location expression of a parameter: its operations joined by `$`. -/
theorem isField_locs {ls : List LocText} (hne : ls ≠ []) (h : ∀ l ∈ ls, l.WellFormed)
    {S : List UInt8} (hS : ∀ s ∈ S, digitValue s = 36) (hcolon : byte ':' ∉ S)
    (hdollar : byte '$' ∉ S) : IsField S (List.intercalate [byte '$'] (ls.map LocText.text)) :=
  isField_intercalate hdollar (by simpa using hne) fun t ht => by
    obtain ⟨l, hl, rfl⟩ := List.mem_map.mp ht
    exact LocText.isField_text (h l hl) hS hcolon


/-! ## Reading it back -/

theorem parseLoc_text {l : LocText} (h : l.WellFormed) : parseLoc l.text = some l.value := by
  have hfields : (tokenize l.text (bytes ":") 4).1 = l.op :: l.values :=
    fields_intercalate (by decide) (fun t ht => by
      rcases List.mem_cons.mp ht with rfl | ht
      · exact h.op.isField (by decide)
      · exact (h.values t ht).isField (by decide)) (by simp; have := h.values_length; omega)
  obtain ⟨hne, hds, hv⟩ := h.op
  have hbyte : (UInt64.ofNat (digitsValue 16 l.op)).toUInt8 = UInt8.ofNat (digitsValue 16 l.op) := by
    rw [UInt64.toUInt8, Nat.toUInt8, UInt64.toNat_ofNat_of_lt (by unfold UInt64.size; omega)]
  have hvalue (v) (hv : v ∈ l.values) : parseHexOrZero v = UInt64.ofNat (digitsValue 16 v) :=
    have h := h.values v hv
    parseHexOrZero_digits h.1 h.2.1 h.2.2
  simp only [parseLoc, hfields, strtoul, strtoull_digits (Nat.le_refl _) hne hds (by omega),
    ne_eq, not_true_eq_false, if_false, hbyte, LocText.value, Option.some.injEq]
  have hlen := h.values_length
  match hl : l.values, hlen, hvalue with
  | [], _, _ => rfl
  | [v1], _, hvalue => simp [hvalue]; rfl
  | [v1, v2], _, hvalue => simp [hvalue]

theorem mapM_parseLoc : ∀ {ls : List LocText}, (∀ l ∈ ls, l.WellFormed) →
    (ls.map LocText.text).mapM parseLoc = some (ls.map LocText.value)
  | [], _ => rfl
  | l :: ls, h => by
    rw [List.map_cons, List.mapM_cons, parseLoc_text (h l (by simp)),
      mapM_parseLoc fun x hx => h x (List.mem_cons_of_mem _ hx)]
    rfl

theorem parseParam_text {p : ParamText} (h : p.WellFormed) : parseParam p.text = .ok p.value := by
  have hops : IsField (bytes "@") (List.intercalate [byte '$'] (p.locs.map LocText.text)) :=
    isField_locs h.locs_ne h.locs (by decide) (by decide) (by decide)
  have hargs : tokenize p.text (bytes "@") 4 = ([p.typeName, p.typeSize, p.paramName,
      List.intercalate [byte '$'] (p.locs.map LocText.text)], true) :=
    tokenize_intercalate (by decide) (by
      simp only [List.mem_cons, List.mem_singleton]
      rintro t (rfl | rfl | rfl | rfl | h)
      · exact h.typeName.mono (by decide)
      · exact h.typeSize.isField (by decide)
      · exact h.paramName.mono (by decide)
      · exact hops
      · simp at h) (by simp)
  have hlocs : tokenize (List.intercalate [byte '$'] (p.locs.map LocText.text)) (bytes "$")
      intMax = (p.locs.map LocText.text, _) :=
    tokenize_intercalate (by decide) (fun t ht => by
      obtain ⟨l, hl, rfl⟩ := List.mem_map.mp ht
      exact LocText.isField_text (h.locs l hl) (by decide) (by decide))
      (by simp [intMax]; have := h.locs_length; omega)
  simp only [parseParam, hargs, List.getD_cons_zero, List.getD_cons_succ, hlocs, Bool.not_true,
    Bool.false_eq_true, ite_false, List.map_eq_nil_iff, h.locs_ne, mapM_parseLoc h.locs,
    parseHexOrZero_digits h.typeSize.1 h.typeSize.2.1 h.typeSize.2.2]
  rfl

theorem parseFuncParam_texts (acc : List FuncParam) : ∀ {ps : List ParamText},
    (∀ p ∈ ps, p.WellFormed) →
      parseFuncParam acc (ps.map ParamText.text) = (none, acc ++ ps.map ParamText.value)
  | [], _ => by simp [parseFuncParam]
  | p :: ps, h => by
    rw [List.map_cons, parseFuncParam, parseParam_text (h p (by simp))]
    simp [parseFuncParam_texts _ fun x hx => h x (List.mem_cons_of_mem _ hx)]

theorem isField_paramText {p : ParamText} (h : p.WellFormed) : IsField (bytes "#") p.text :=
  isField_intercalate (by decide) (by simp) (by
    simp only [List.mem_cons, List.mem_singleton]
    rintro t (rfl | rfl | rfl | rfl | h)
    · exact h.typeName.mono (by decide)
    · exact h.typeSize.isField (by decide)
    · exact h.paramName.mono (by decide)
    · exact isField_locs h.locs_ne h.locs (by decide) (by decide) (by decide)
    · simp at h)

/-- The parameters `ParseFunction` reads from a well-formed suffix, after any first segment. -/
theorem paramsOf_suffix {s : Suffix} (h : s.WellFormed) (head : List UInt8) :
    paramsOf (head :: s.count :: fields (bytes "#") 1 s.text) = s.value := by
  obtain ⟨hne, hds, hv⟩ := h.count
  have htexts : ∀ t ∈ s.params.map ParamText.text, IsField (bytes "#") t := fun t ht => by
    obtain ⟨q, hq, rfl⟩ := List.mem_map.mp ht
    exact isField_paramText (h.params q hq)
  rcases hps : s.params with _ | ⟨p, ps⟩
  · simp [Suffix.text, hps, List.intercalate, fields_nil, paramsOf, Suffix.value]
  have hlast : fields (bytes "#") 1 s.text = [s.text] := by
    have hp := htexts p.text (by simp [hps])
    cases ps with
    | nil => simpa [Suffix.text, hps, List.intercalate] using fields_one_append hp []
    | cons q qs => simpa [Suffix.text, hps, intercalate_cons_cons] using fields_one_append hp _
  have hcnt : toCInt (UInt64.ofNat (digitsValue 16 s.count)) = (s.params.length : Int) := by
    have := h.count_eq
    rw [toCInt, UInt64.toNat_ofNat_of_lt (by unfold UInt64.size; omega)]
    split_ifs <;> omega
  have hsplit : tokenize s.text (bytes "#") (toCInt (UInt64.ofNat (digitsValue 16 s.count))) =
      (s.params.map ParamText.text, true) := by
    rw [hcnt, Suffix.text, tokenize_intercalate (by decide) htexts (by simp)]
    simp
  simp [paramsOf, hlast, strtoul, strtoull_digits (Nat.le_refl _) hne hds (by omega), hsplit,
    parseFuncParam_texts [] h.params, Suffix.value]

theorem headText_eq (address size stackParamSize name : List UInt8) :
    headText address size stackParamSize name =
      address ++ byte ' ' :: (size ++ byte ' ' :: (stackParamSize ++ byte ' ' :: name)) := by
  simp [headText, intercalate_cons_cons, List.intercalate]

section Head
variable {address size stackParamSize name : List UInt8}
  (ha : IsField headSeparators address) (hsize : IsField headSeparators size)
  (hp : IsField headSeparators stackParamSize) (hname : NameText name)
include ha hsize hp hname

theorem tokenize_headText :
    tokenize (headText address size stackParamSize name) kWhitespace 4 =
      ([address, size, stackParamSize, name], true) := by
  obtain ⟨c, rest, rfl⟩ : ∃ c rest, name = c :: rest := by
    cases name with
    | nil => exact hname.elim
    | cons c rest => exact ⟨c, rest, rfl⟩
  have hws : ∀ c ∈ kWhitespace, c ∈ headSeparators := fun _ => List.mem_append_left _
  have hsp : byte ' ' ∈ kWhitespace := by decide
  simp only [tokenize, Int.reduceToNat, headText_eq, fields_field_append (ha.mono hws) hsp,
    fields_field_append (hsize.mono hws) hsp, fields_field_append (hp.mono hws) hsp,
    fields_one hname.1]
  rfl

theorem isField_headText : IsField (bytes "#") (headText address size stackParamSize name) := by
  have hhash : ∀ c ∈ bytes "#", c ∈ headSeparators := fun _ => List.mem_append_right _
  refine isField_intercalate (by decide) (by simp) ?_
  simp only [List.mem_cons, List.mem_singleton]
  rintro t (rfl | rfl | rfl | rfl | h)
  · exact ha.mono hhash
  · exact hsize.mono hhash
  · exact hp.mono hhash
  · cases t with
    | nil => exact hname.elim
    | cons c rest =>
      exact ⟨List.cons_ne_nil _ _, fun x hx hxS => hname.2 (List.mem_singleton.mp hxS ▸ hx)⟩
  · simp at h

/-- `ParseFunction` on a record whose first `#` segment is the head reads the address and
the size with `strtoull` in base 16 and the stack parameter size with `strtol` in base 16,
refusing a negative one. -/
theorem parseFunction_headText {line : List UInt8} {rest : List (List UInt8)}
    (hsegs : (tokenize (line.drop 5) (bytes "#") 3).1 =
      headText address size stackParamSize name :: rest) :
    parseFunction line = (do
      let a ← parseHex address
      let s ← parseHex size
      let p ← parseLong stackParamSize 16
      if p < 0 then none
      else
        some (a, s, p, name, paramsOf (headText address size stackParamSize name :: rest))) := by
  unfold parseFunction
  rw [hsegs, if_neg (List.cons_ne_nil _ _)]
  dsimp only
  rw [List.getD_cons_zero, tokenize_headText ha hsize hp hname, Bool.not_true,
    if_neg Bool.false_ne_true]
  dsimp only [List.getD_cons_zero, List.getD_cons_succ]
  rcases parseHex address with _ | _ <;> rcases parseHex size with _ | _ <;>
    rcases parseLong stackParamSize 16 with _ | _ <;> rfl

end Head

/-- `ParseFunction` on a `FUNC` record reads each numeric field of the head with its own
reader, and the parameters from the suffix. -/
theorem parseFunction_funcRecordText_readers {address size stackParamSize name : List UInt8}
    {suffix : Option Suffix} (ha : IsField headSeparators address)
    (hsize : IsField headSeparators size) (hp : IsField headSeparators stackParamSize)
    (hname : NameText name) (hsuffix : ∀ s ∈ suffix, s.WellFormed) :
    parseFunction (funcRecordText address size stackParamSize name suffix) = (do
      let a ← parseHex address
      let s ← parseHex size
      let p ← parseLong stackParamSize 16
      if p < 0 then none else some (a, s, p, name, (suffix.map Suffix.value).getD [])) := by
  have hhead := isField_headText ha hsize hp hname
  have hdrop (x : List UInt8) : (bytes "FUNC " ++ x).drop 5 = x := List.drop_left' rfl
  cases suffix with
  | none =>
    have hsegs : (tokenize ((funcRecordText address size stackParamSize name none).drop 5)
        (bytes "#") 3).1 = [headText address size stackParamSize name] := by
      simp only [funcRecordText, hdrop, tokenize, Int.reduceToNat, fields_field hhead]
    rw [parseFunction_headText ha hsize hp hname hsegs]
    rfl
  | some s =>
    have hs := hsuffix s rfl
    have hsegs : (tokenize ((funcRecordText address size stackParamSize name (some s)).drop 5)
        (bytes "#") 3).1 =
          headText address size stackParamSize name :: s.count :: fields (bytes "#") 1 s.text := by
      have hsep : byte '#' ∈ bytes "#" := by decide
      simp only [funcRecordText, hdrop, tokenize, Int.reduceToNat, intercalate_cons_cons]
      rw [fields_field_append hhead hsep, intercalate_singleton,
        fields_field_append (hs.count.isField (by decide)) hsep 0]
    rw [parseFunction_headText ha hsize hp hname hsegs, paramsOf_suffix hs]
    rfl

/-- With each numeric field written as a numeral of base 16, a `FUNC` record is accepted
exactly when the address and the size are below `ULLONG_MAX` and the stack parameter size
below `LONG_MAX`, and each is then read as its numeral's value. -/
theorem parseFunction_funcRecordText_numerals {address size stackParamSize name : List UInt8}
    {suffix : Option Suffix} (ha : Numeral 16 address) (hsize : Numeral 16 size)
    (hp : Numeral 16 stackParamSize) (hname : NameText name)
    (hsuffix : ∀ s ∈ suffix, s.WellFormed) :
    parseFunction (funcRecordText address size stackParamSize name suffix) =
      if digitsValue 16 address < 2 ^ 64 - 1 ∧ digitsValue 16 size < 2 ^ 64 - 1 ∧
          digitsValue 16 stackParamSize < 2 ^ 63 - 1 then
        some (UInt64.ofNat (digitsValue 16 address), UInt64.ofNat (digitsValue 16 size),
          (digitsValue 16 stackParamSize : Int), name, (suffix.map Suffix.value).getD [])
      else none := by
  have hhead : ∀ s ∈ headSeparators, digitValue s = 36 := by decide
  rw [parseFunction_funcRecordText_readers (ha.isField (by decide) hhead)
    (hsize.isField (by decide) hhead) (hp.isField (by decide) hhead) hname hsuffix,
    parseHex_digits_eq ha.1 ha.2, parseHex_digits_eq hsize.1 hsize.2,
    parseLong_digits_eq (Nat.le_refl 16) hp.1 hp.2]
  split_ifs <;> first | rfl | omega

/-- A `FUNC` record's fields as text. -/
structure FuncText where
  address : List UInt8
  size : List UInt8
  stackParamSize : List UInt8
  name : List UInt8
  suffix : Option Suffix
  deriving DecidableEq, Repr

def FuncText.text (f : FuncText) : List UInt8 :=
  funcRecordText f.address f.size f.stackParamSize f.name f.suffix

@[mk_iff]
structure FuncText.WellFormed (f : FuncText) : Prop where
  address : HexNumeral (2 ^ 64 - 1) f.address
  size : HexNumeral (2 ^ 64 - 1) f.size
  stackParamSize : HexNumeral (2 ^ 63 - 1) f.stackParamSize
  name : NameText f.name
  suffix : ∀ s ∈ f.suffix, s.WellFormed

instance (f : FuncText) : Decidable f.WellFormed := decidable_of_iff' _ (FuncText.wellFormed_iff f)

/-- The function a `FUNC` record stands for, before any line is stored in it. -/
def FuncText.value (f : FuncText) : Function :=
  ⟨f.name, UInt64.ofNat (digitsValue 16 f.address), UInt64.ofNat (digitsValue 16 f.size),
    digitsValue 16 f.stackParamSize, (f.suffix.map Suffix.value).getD [], .empty⟩

theorem FuncText.parseFunction_text {f : FuncText} (h : f.WellFormed) :
    parseFunction f.text =
      some (UInt64.ofNat (digitsValue 16 f.address), UInt64.ofNat (digitsValue 16 f.size),
        (digitsValue 16 f.stackParamSize : Int), f.name, (f.suffix.map Suffix.value).getD []) := by
  obtain ⟨ha, hsize, hp, hname, hsuffix⟩ := h
  rw [text, parseFunction_funcRecordText_numerals ⟨ha.1, ha.2.1⟩ ⟨hsize.1, hsize.2.1⟩
    ⟨hp.1, hp.2.1⟩ hname hsuffix, if_pos ⟨ha.2.2, hsize.2.2, hp.2.2⟩]

end SourceLineResolver.FuncRecord
