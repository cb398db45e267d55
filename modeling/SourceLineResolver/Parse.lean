import SourceLineResolver.Tokenize
import SourceLineResolver.Types

/-! # `SymbolParseHelper`

The record parsers of `SymbolParseHelper`. Each takes the text of one line; the NULs
that `Tokenize` writes into the buffer fall inside that line, which nothing reads again,
so the parsers are modelled on the line's bytes. A field that fails a check makes the
parser return `none`, as the source returns `false`. -/

namespace SourceLineResolver.Parse
open SourceLineResolver.Libc SourceLineResolver.Tokenize SourceLineResolver.Types

def kWhitespace : List UInt8 := bytes " \r\n"

/-- `IsValidAfterNumber` on the bytes of the token after the number: the next byte is
NUL, the token's end, or in `kWhitespace`. -/
def isValidAfterNumber : List UInt8 → Bool
  | [] => true
  | c :: _ => kWhitespace.contains c

/-- `strtoull (tok, &after_number, 16)` with the checks `ParseFunction`, `ParseLine` and
`ParsePublicSymbol` make of it. -/
def parseHex (tok : List UInt8) : Option UInt64 :=
  let (v, n) := strtoull tok 16
  if isValidAfterNumber (tok.drop n) && v != ullongMax then some v else none

/-- `strtol (tok, &after_number, base)`, valid after the number and not `LONG_MAX`. -/
def parseLong (tok : List UInt8) (base : Nat) : Option Int :=
  let (v, n) := strtol tok base
  if isValidAfterNumber (tok.drop n) && v != longMax then some v else none

/-- `FILE <id> <filename>`: the id and the name. The source's `!filename` tests the
out-pointer, which is never NULL. -/
def parseFile (fileLine : List UInt8) : Option (Int × List UInt8) :=
  let (tokens, ok) := tokenize (fileLine.drop 5) kWhitespace 2
  if !ok then none
  else match parseLong (tokens.getD 0 []) 10 with
    | some index => if index < 0 then none else some (index, tokens.getD 1 [])
    | none => none

/-! ## Parameters -/

/-- `strtoull (tok, &after_number, 16)`, or 0 unless the whole token is the number. -/
def parseHexOrZero (tok : List UInt8) : UInt64 :=
  let (v, n) := strtoull tok 16
  if n = tok.length then v else 0

/-- One `<op>[:<v1>[:<v2>]]` of a location expression; `none` fails the whole list. -/
def parseLoc (loc : List UInt8) : Option ArgLocInfo :=
  let locs := (tokenize loc (bytes ":") 4).1
  match locs with
  | [] => none
  | op :: values =>
    let (v, n) := strtoul op 16
    if n ≠ op.length then none
    else some ⟨v.toUInt8, if values.length > 0 then parseHexOrZero (locs.getD 1 []) else 0,
      if values.length > 1 then parseHexOrZero (locs.getD 2 []) else 0⟩

/-- One `<type>@<size>@<name>@<loc>$<loc>...`: the parameter, or on failure whether the
source clears the parameters parsed before it (it does not when the location expression
has no operation). -/
def parseParam (tok : List UInt8) : Except Bool FuncParam :=
  let (args, ok) := tokenize tok (bytes "@") 4
  if !ok then .error true
  else
    let locExp := (tokenize (args.getD 3 []) (bytes "$") intMax).1
    if locExp = [] then .error false
    else match locExp.mapM parseLoc with
      | none => .error true
      | some locs => .ok ⟨args.getD 0 [], parseHexOrZero (args.getD 1 []), args.getD 2 [], locs⟩

/-- `SymbolParseHelper::ParseFuncParam`, from the list parsed so far: what it returns
(`none` where it runs off its end with no `return`) and the list it leaves. -/
def parseFuncParam (params : List FuncParam) : List (List UInt8) → Option Bool × List FuncParam
  | [] => (none, params)
  | tok :: rest =>
    match parseParam tok with
    | .error clear => (some false, if clear then [] else params)
    | .ok p => parseFuncParam (params ++ [p]) rest

/-- `ParseFuncParam` parses the tokens in turn up to the first that fails. There it returns
`false`, leaving the list it was given with the parameters parsed before, or nothing where
the failure clears the list; with no failure it runs off its end with no `return`, leaving
every parameter. It never returns `true`. -/
theorem parseFuncParam_eq (params : List FuncParam) (toks : List (List UInt8)) :
    let parsed := params ++ (toks.takeWhile fun t => (parseParam t).isOk).filterMap
      fun t => (parseParam t).toOption
    parseFuncParam params toks =
      match (toks.dropWhile fun t => (parseParam t).isOk).head?.map parseParam with
      | some (.error clear) => (some false, if clear then [] else parsed)
      | _ => (none, parsed) := by
  induction toks generalizing params with
  | nil => simp [parseFuncParam]
  | cons t rest ih =>
    rw [parseFuncParam]
    cases h : parseParam t with
    | error clear => simp [h, Except.isOk, Except.toBool]
    | ok p => simpa [h, Except.isOk, Except.toBool, Except.toOption] using ih (params ++ [p])

/-! ## Records -/

/-- The parameters of a `FUNC` record's `#`-separated segments; the source returns
`true` with none when the count or the list fails to split. -/
def paramsOf (segments : List (List UInt8)) : List FuncParam :=
  if segments.length = 3 then
    let seg := segments.getD 1 []
    let (numParams, n) := strtoul seg 16
    if n ≠ seg.length then []
    else
      let (argsArray, ok) := tokenize (segments.getD 2 []) (bytes "#") (toCInt numParams)
      if !ok then [] else (parseFuncParam [] argsArray).2
  else []

/-- `FUNC <address> <size> <stack_param_size> <name>[#<n>#<params>]`: address, size,
stack parameter size, name and parameters. -/
def parseFunction (functionLine : List UInt8) :
    Option (UInt64 × UInt64 × Int × List UInt8 × List FuncParam) :=
  let segments := (tokenize (functionLine.drop 5) (bytes "#") 3).1
  if segments = [] then none
  else
    let (tokens, ok) := tokenize (segments.getD 0 []) kWhitespace 4
    if !ok then none
    else match parseHex (tokens.getD 0 []), parseHex (tokens.getD 1 []),
        parseLong (tokens.getD 2 []) 16 with
      | some address, some size, some stackParamSize =>
        if stackParamSize < 0 then none
        else some (address, size, stackParamSize, tokens.getD 3 [], paramsOf segments)
      | _, _, _ => none

/-- A parameter whose location expression holds no operation fails without clearing the
list, and a list that parses runs off the end of `ParseFuncParam` with no `return`: of the
two parameters this record declares, `ParseFunction` keeps the first. -/
theorem parseFunction_keeps_partial_params :
    parseFunction (bytes "FUNC 1 10 0 f#2#int@4@x@91:8#int@4@y@$") =
        some (1, 0x10, 0, bytes "f", [⟨bytes "int", 4, bytes "x", [⟨0x91, 8, 0⟩]⟩]) ∧
      (parseFuncParam [] [bytes "int@4@x@91:8"]).1 = none := by
  decide

/-- `<address> <size> <line number> <source file id>`. Line number 0 is valid: it marks
block helper functions. -/
def parseLine (lineLine : List UInt8) : Option Line :=
  let (tokens, ok) := tokenize lineLine kWhitespace 4
  if !ok then none
  else match parseHex (tokens.getD 0 []), parseHex (tokens.getD 1 []),
      parseLong (tokens.getD 2 []) 10, parseLong (tokens.getD 3 []) 10 with
    | some address, some size, some lineNumber, some sourceFile =>
      if sourceFile < 0 ∨ lineNumber < 0 then none
      else some ⟨address, size, sourceFile, lineNumber⟩
    | _, _, _, _ => none

/-- `PUBLIC <address> <stack_param_size> <name>`. -/
def parsePublicSymbol (publicLine : List UInt8) : Option (UInt64 × Int × List UInt8) :=
  let (tokens, ok) := tokenize (publicLine.drop 7) kWhitespace 3
  if !ok then none
  else match parseHex (tokens.getD 0 []), parseLong (tokens.getD 1 []) 16 with
    | some address, some stackParamSize =>
      if stackParamSize < 0 then none else some (address, stackParamSize, tokens.getD 2 [])
    | _, _ => none

/-! ## A numeral alone -/

section Digits
variable {ds : List UInt8} (hne : ds ≠ []) (hds : ∀ c ∈ ds, digitValue c < 16)
include hne hds

theorem parseHex_digits (hv : digitsValue 16 ds < 2 ^ 64 - 1) :
    parseHex ds = some (UInt64.ofNat (digitsValue 16 ds)) := by
  have hmax : UInt64.ofNat (digitsValue 16 ds) ≠ ullongMax := fun h => by
    have := congrArg UInt64.toNat h
    rw [UInt64.toNat_ofNat_of_lt (by simp [UInt64.size]; omega)] at this
    simp [ullongMax, UInt64.toNat_ofNat_of_lt] at this
    omega
  simp [parseHex, strtoull_digits (Nat.le_refl _) hne hds (by omega), isValidAfterNumber, hmax]

theorem parseHexOrZero_digits (hv : digitsValue 16 ds < 2 ^ 64) :
    parseHexOrZero ds = UInt64.ofNat (digitsValue 16 ds) := by
  simp [parseHexOrZero, strtoull_digits (Nat.le_refl _) hne hds hv]

theorem parseHex_digits_eq :
    parseHex ds =
      if digitsValue 16 ds < 2 ^ 64 - 1 then some (UInt64.ofNat (digitsValue 16 ds)) else none := by
  split_ifs with hv
  · exact parseHex_digits hne hds hv
  · rw [parseHex, strtoull_digits_ge (Nat.le_refl 16) hne hds (by omega)]
    simp

end Digits

theorem parseLong_digits {base : Nat} (hbase : base ≤ 16) {ds : List UInt8} (hne : ds ≠ [])
    (hds : ∀ c ∈ ds, digitValue c < base) (hv : digitsValue base ds < 2 ^ 63 - 1) :
    parseLong ds base = some (digitsValue base ds) := by
  simp [parseLong, strtol_digits hbase hne hds (by omega), isValidAfterNumber, longMax]
  omega

theorem parseLong_digits_eq {base : Nat} (hbase : base ≤ 16) {ds : List UInt8} (hne : ds ≠ [])
    (hds : ∀ c ∈ ds, digitValue c < base) :
    parseLong ds base =
      if digitsValue base ds < 2 ^ 63 - 1 then some (digitsValue base ds : Int) else none := by
  split_ifs with hv
  · exact parseLong_digits hbase hne hds hv
  · rw [parseLong, strtol_digits_ge hbase hne hds (by omega)]
    simp

end SourceLineResolver.Parse
