import Mathlib.Data.List.Basic
import Mathlib.Algebra.Group.Nat.Basic
import Mathlib.Algebra.Group.Int

/-! # The C library as the resolver calls it

A symbol buffer is a `List UInt8` and a pointer into it is a position. The C string at
`p` is the bytes from `p` up to the first NUL. `LoadMapFromMemory` writes NUL into the
buffer's last byte before anything reads it, so each scan below stops inside the buffer;
the one read that can pass its end (in `ParseStackInfo`) sees the end of the list as a
NUL. Numbers follow glibc's `strtoull` and `strtol` on an LP64 target, where `long` and
`unsigned long` are 64 bits wide. -/

namespace SourceLineResolver.Libc

/-- The byte of an ASCII character. -/
def byte (c : Char) : UInt8 := c.toNat.toUInt8

/-! ## `uint64_t` -/

theorem le_iff_toNat {a b : UInt64} : a ≤ b ↔ a.toNat ≤ b.toNat := Iff.rfl

theorem lt_iff_toNat {a b : UInt64} : a < b ↔ a.toNat < b.toNat := Iff.rfl

/-! ## Bytes -/

/-- The bytes of an ASCII string literal. -/
def bytes (s : String) : List UInt8 := s.toList.map byte

/-- The byte at `p`. Past the buffer's end it is a NUL here, where the source's read is
undefined: `ParseStackInfo` makes one on a bare last `STACK CFI` or `STACK WIN` line. -/
def byteAt (buf : List UInt8) (p : Nat) : UInt8 := buf.getD p 0

def cstr (buf : List UInt8) (p : Nat) : List UInt8 := (buf.drop p).takeWhile (· != 0)

/-- Text with no NUL, then a NUL: the C string at its start is the text. -/
theorem cstr_text {s : List UInt8} (h : (0 : UInt8) ∉ s) (rest : List UInt8) :
    cstr (s ++ 0 :: rest) 0 = s := by
  rw [cstr, List.drop_zero, List.takeWhile_append_of_pos (fun c hc => by
    simpa using fun h0 : c = 0 => h (h0 ▸ hc))]
  simp

/-- A line given a NUL of its own is the C string at its start. -/
theorem cstr_append_nul {s : List UInt8} (h : (0 : UInt8) ∉ s) : cstr (s ++ [0]) 0 = s :=
  cstr_text h []

theorem nul_not_mem_cstr (buf : List UInt8) (p : Nat) : (0 : UInt8) ∉ cstr buf p :=
  fun h => by simpa using List.mem_takeWhile_imp h

/-- ... and from inside it, the rest of the line. -/
theorem cstr_append_nul_drop {s : List UInt8} (h : (0 : UInt8) ∉ s) {t : Nat} (ht : t ≤ s.length) :
    cstr (s ++ [0]) t = s.drop t := by
  have : cstr (s ++ [0]) t = cstr (s.drop t ++ [0]) 0 := by
    simp only [cstr, List.drop_zero, List.drop_append_of_le_length ht]
  rw [this, cstr_append_nul fun h0 => h (List.mem_of_mem_drop h0)]

/-- `strncmp (line, pre, strlen (pre)) == 0` for a C string `line`. -/
def startsWith (line : List UInt8) (pre : String) : Bool := (bytes pre).isPrefixOf line

theorem length_le_of_startsWith {line : List UInt8} {pre : String} (h : startsWith line pre = true) :
    (bytes pre).length ≤ line.length :=
  (List.isPrefixOf_iff_prefix.mp h).length_le

theorem eq_append_of_startsWith {line : List UInt8} {pre : String}
    (h : startsWith line pre = true) : ∃ x, line = bytes pre ++ x :=
  let ⟨x, hx⟩ := List.isPrefixOf_iff_prefix.mp h
  ⟨x, hx.symm⟩

@[simp] theorem startsWith_append_self (pre : String) (x : List UInt8) :
    startsWith (bytes pre ++ x) pre = true :=
  List.isPrefixOf_iff_prefix.mpr (List.prefix_append _ _)

/-- `s.find (pat) != string::npos`. -/
def strFind (s : List UInt8) (pat : String) : Bool := s.tails.any (bytes pat).isPrefixOf

/-! ## `strtok_r` -/

def strspn (buf : List UInt8) (p : Nat) (delim : List UInt8) : Nat :=
  ((buf.drop p).takeWhile delim.contains).length

/-- `strcspn`: the bytes before a delimiter or the NUL. -/
def strcspn (buf : List UInt8) (p : Nat) (delim : List UInt8) : Nat :=
  ((buf.drop p).takeWhile fun c => c != 0 && !delim.contains c).length

/-- glibc's `strtok_r` resumed at the save pointer `p`: the token's position (`none` for
NULL), the buffer with the delimiter ending the token overwritten by NUL, and the new
save pointer. A token that ends at a NUL leaves the save pointer on it. -/
def strtokR (buf : List UInt8) (p : Nat) (delim : List UInt8) :
    Option Nat × List UInt8 × Nat :=
  let s := p + strspn buf p delim
  if byteAt buf s = 0 then (none, buf, s)
  else
    let e := s + strcspn buf s delim
    if byteAt buf e = 0 then (some s, buf, e) else (some s, buf.set e 0, e + 1)

theorem strtokR_length (buf : List UInt8) (p : Nat) (delim : List UInt8) :
    (strtokR buf p delim).2.1.length = buf.length := by
  unfold strtokR
  dsimp only
  split
  · rfl
  · split <;> simp

theorem strtokR_eq_length {buf : List UInt8} {p : Nat} {delim : List UInt8} {x : Option Nat}
    {buf' : List UInt8} {save : Nat} (h : strtokR buf p delim = (x, buf', save)) :
    buf'.length = buf.length :=
  (congrArg (fun r => r.2.1.length) h).symm.trans (strtokR_length buf p delim)

/-- Past the buffer's end there is no token. -/
theorem strtokR_past_end {buf : List UInt8} {p : Nat} (h : buf.length ≤ p) (delim : List UInt8) :
    strtokR buf p delim = (none, buf, p) := by
  have hspn : strspn buf p delim = 0 := by simp [strspn, List.drop_eq_nil_of_le h]
  simp [strtokR, hspn, byteAt, List.getElem?_eq_none h]

/-- A token moves the save pointer past where the scan began. -/
theorem strtokR_progress {buf : List UInt8} {p : Nat} {delim : List UInt8} {s : Nat}
    {buf' : List UInt8} {save : Nat} (h : strtokR buf p delim = (some s, buf', save)) :
    p < save := by
  unfold strtokR at h
  dsimp only at h
  split at h
  · cases h
  · next hs =>
    split at h
    · next he =>
      cases h
      have : strcspn buf (p + strspn buf p delim) delim ≠ 0 := fun h0 => hs (by simpa [h0] using he)
      omega
    · cases h
      omega

/-! ## Reading inside one line

A scan that starts inside a NUL-terminated stretch `C` of a buffer `A ++ C ++ rest` stops at
that NUL at the latest, so it sees what it would see in `C` alone. -/

section Embed
variable (A C0 rest : List UInt8)

theorem takeWhile_append_of_mem {p : UInt8 → Bool} {xs ys : List UInt8} {x : UInt8}
    (hx : x ∈ xs) (hp : p x = false) : (xs ++ ys).takeWhile p = xs.takeWhile p := by
  rw [List.takeWhile_append]
  split
  · next h =>
    exact absurd (List.takeWhile_eq_self_iff.mp (List.IsPrefix.eq_of_length
      (List.takeWhile_prefix p) h) x hx) (by simp [hp])
  · rfl

theorem drop_embed {t : Nat} (ht : t ≤ C0.length) :
    (A ++ (C0 ++ [0]) ++ rest).drop (A.length + t) = C0.drop t ++ [0] ++ rest := by
  rw [List.append_assoc, List.drop_append, List.drop_append_of_le_length (by simp; omega),
    List.drop_append_of_le_length ht]

theorem byteAt_embed {t : Nat} (ht : t ≤ C0.length) :
    byteAt (A ++ (C0 ++ [0]) ++ rest) (A.length + t) = byteAt (C0 ++ [0]) t := by
  simp only [byteAt, List.getD_eq_getElem?_getD, List.append_assoc]
  rw [List.getElem?_append_right (by omega), Nat.add_sub_cancel_left,
    ← List.append_assoc, List.getElem?_append_left (by simp; omega)]

theorem set_embed {t : Nat} (ht : t ≤ C0.length) (v : UInt8) :
    (A ++ (C0 ++ [0]) ++ rest).set (A.length + t) v = A ++ (C0 ++ [0]).set t v ++ rest := by
  rw [List.append_assoc, List.set_append_right _ _ (by omega), Nat.add_sub_cancel_left,
    List.set_append_left _ _ (by simp; omega), List.append_assoc]

/-- A scan that stops at NUL sees the line up to its NUL wherever the line sits. -/
theorem takeWhile_embed {p : UInt8 → Bool} (hp : p 0 = false) {t : Nat} (ht : t ≤ C0.length) :
    ((A ++ (C0 ++ [0]) ++ rest).drop (A.length + t)).takeWhile p =
      ((C0 ++ [0]).drop t).takeWhile p := by
  rw [drop_embed A C0 rest ht, List.drop_append_of_le_length ht,
    takeWhile_append_of_mem (by simp) hp]

/-- ... and stops inside it. -/
theorem takeWhile_line_length {p : UInt8 → Bool} (hp : p 0 = false) {t : Nat}
    (ht : t ≤ C0.length) : t + (((C0 ++ [0]).drop t).takeWhile p).length ≤ C0.length := by
  have h : ((C0.drop t ++ [0]).takeWhile p).length ≤ (C0.drop t).length := by
    rw [List.takeWhile_append]
    split
    · simp [hp]
    · exact (List.takeWhile_prefix p).length_le
  rw [List.drop_append_of_le_length ht]
  simp only [List.length_drop] at h
  omega

theorem cstr_embed {t : Nat} (ht : t ≤ C0.length) :
    cstr (A ++ (C0 ++ [0]) ++ rest) (A.length + t) = cstr (C0 ++ [0]) t :=
  takeWhile_embed A C0 rest (by decide) ht

theorem set_line {t : Nat} (ht : t ≤ C0.length) :
    (C0 ++ [0]).set t 0 = C0.set t 0 ++ [0] := by
  rcases Nat.lt_or_eq_of_le ht with ht | rfl
  · exact List.set_append_left _ _ ht
  · rw [List.set_append_right _ _ (le_refl _), Nat.sub_self, List.set_eq_of_length_le (le_refl _)]
    rfl

theorem byteAt_line_length : byteAt (C0 ++ [0]) C0.length = 0 := by
  simp [byteAt]

variable {A C0 rest} {delim : List UInt8} (hd : (0 : UInt8) ∉ delim) {q : Nat} (hq : q ≤ C0.length)
include hd hq

theorem strtokR_line_bounds :
    q + strspn (C0 ++ [0]) q delim ≤ C0.length ∧
      q + strspn (C0 ++ [0]) q delim + strcspn (C0 ++ [0]) (q + strspn (C0 ++ [0]) q delim) delim
        ≤ C0.length := by
  have hd' : delim.contains 0 = false := by simpa using hd
  have hs : q + strspn (C0 ++ [0]) q delim ≤ C0.length := takeWhile_line_length C0 hd' hq
  exact ⟨hs, takeWhile_line_length C0 (p := fun c => c != 0 && !delim.contains c) rfl hs⟩

/-- `strtok_r` on a NUL-terminated line stays inside it: it writes NULs into the line only
and leaves its token and save pointer on the line. -/
theorem strtokR_line {x : Option Nat} {L : List UInt8} {save : Nat}
    (h : strtokR (C0 ++ [0]) q delim = (x, L, save)) :
    ∃ C1, L = C1 ++ [0] ∧ C1.length = C0.length ∧ save ≤ C0.length ∧ ∀ t ∈ x, t ≤ C0.length := by
  obtain ⟨hs, he⟩ := strtokR_line_bounds hd hq
  unfold strtokR at h
  dsimp only at h
  split at h
  · cases h
    exact ⟨C0, rfl, rfl, hs, by simp⟩
  · split at h
    · cases h
      exact ⟨C0, rfl, rfl, he, by simpa using hs⟩
    · next hne =>
      cases h
      have : q + strspn (C0 ++ [0]) q delim + strcspn (C0 ++ [0]) (q + strspn (C0 ++ [0]) q delim)
          delim ≠ C0.length := fun h => hne (h ▸ byteAt_line_length C0)
      exact ⟨C0.set _ 0, set_line C0 he, List.length_set .., by omega, by simpa using hs⟩

/-- `strtok_r` inside a NUL-terminated line of a bigger buffer does what it does on the
line alone. -/
theorem strtokR_embed {x : Option Nat} {L : List UInt8} {save : Nat}
    (h : strtokR (C0 ++ [0]) q delim = (x, L, save)) :
    strtokR (A ++ (C0 ++ [0]) ++ rest) (A.length + q) delim =
      (x.map (A.length + ·), A ++ L ++ rest, A.length + save) := by
  have hd' : delim.contains 0 = false := by simpa using hd
  obtain ⟨hs, he⟩ := strtokR_line_bounds hd hq
  have hspn : strspn (A ++ (C0 ++ [0]) ++ rest) (A.length + q) delim =
      strspn (C0 ++ [0]) q delim :=
    congrArg List.length (takeWhile_embed A C0 rest hd' hq)
  have hcspn : strcspn (A ++ (C0 ++ [0]) ++ rest) (A.length + (q + strspn (C0 ++ [0]) q delim))
      delim = strcspn (C0 ++ [0]) (q + strspn (C0 ++ [0]) q delim) delim :=
    congrArg List.length (takeWhile_embed A C0 rest (p := fun c => c != 0 && !delim.contains c)
      rfl hs)
  unfold strtokR at h ⊢
  dsimp only at h ⊢
  rw [hspn, Nat.add_assoc, byteAt_embed A C0 rest hs, hcspn, Nat.add_assoc,
    byteAt_embed A C0 rest he, set_embed A C0 rest he]
  split at h
  · cases h
    rw [if_pos ‹_›]
    rfl
  · rw [if_neg ‹_›]
    split at h <;> cases h
    · rw [if_pos ‹_›]
      rfl
    · rw [if_neg ‹_›]
      rfl

end Embed

/-! ## `strtok_r` over text

A buffer holding text `D ++ R` with no NUL in `R`, then a NUL. From the end of `D`,
`strtok_r` skips the delimiters starting `R` and takes the field after them. -/

section Text
variable {D sep tok Z : List UInt8} {delim : List UInt8}

theorem byteAt_length_append (D R : List UInt8) (c : UInt8) : byteAt (D ++ c :: R) D.length = c := by
  rw [byteAt, List.getD_eq_getElem?_getD, List.getElem?_append_right (le_refl _), Nat.sub_self]
  simp

theorem strtokR_skip (hsep : ∀ b ∈ sep, b ∈ delim) (R : List UInt8) :
    strtokR (D ++ sep ++ R) D.length delim = strtokR (D ++ sep ++ R) (D ++ sep).length delim := by
  have h1 : (D ++ sep ++ R).drop D.length = sep ++ R := by simp
  have h2 : (D ++ sep ++ R).drop (D ++ sep).length = R := List.drop_left ..
  have h : D.length + strspn (D ++ sep ++ R) D.length delim =
      (D ++ sep).length + strspn (D ++ sep ++ R) (D ++ sep).length delim := by
    rw [strspn, strspn, h1, h2, List.takeWhile_append_of_pos (fun b hb => List.elem_iff.mpr
      (hsep b hb)), List.length_append, List.length_append, Nat.add_assoc]
  unfold strtokR
  dsimp only
  rw [h]

theorem strtokR_text_none (hdz : (0 : UInt8) ∉ delim) (hsep : ∀ b ∈ sep, b ∈ delim) :
    strtokR (D ++ sep ++ 0 :: Z) D.length delim =
      (none, D ++ sep ++ 0 :: Z, (D ++ sep).length) := by
  have h0 : strspn (D ++ sep ++ 0 :: Z) (D ++ sep).length delim = 0 := by
    simp [strspn, List.elem_iff, hdz]
  rw [strtokR_skip hsep]
  simp only [strtokR, h0, Nat.add_zero, byteAt_length_append, if_true]

theorem strspn_token (hne : tok ≠ []) (htok : ∀ b ∈ tok, b ≠ 0 ∧ b ∉ delim) (R : List UInt8) :
    strspn (D ++ tok ++ R) D.length delim = 0 := by
  obtain ⟨b, bs, rfl⟩ := List.exists_cons_of_ne_nil hne
  simp [strspn, List.elem_iff, (htok b (List.mem_cons_self _ _)).2]

theorem byteAt_token_ne (hne : tok ≠ []) (htok : ∀ b ∈ tok, b ≠ 0 ∧ b ∉ delim)
    (R : List UInt8) : byteAt (D ++ tok ++ R) D.length ≠ 0 := by
  obtain ⟨b, bs, rfl⟩ := List.exists_cons_of_ne_nil hne
  rw [List.append_assoc, List.cons_append, byteAt_length_append]
  exact (htok b (List.mem_cons_self _ _)).1

theorem strcspn_token (htok : ∀ b ∈ tok, b ≠ 0 ∧ b ∉ delim) {c : UInt8} (hc : c = 0 ∨ c ∈ delim) :
    strcspn (D ++ tok ++ c :: Z) D.length delim = tok.length := by
  have hp : (c != 0 && !delim.contains c) = false := by
    rcases hc with rfl | hc
    · rfl
    · simp [List.elem_iff, hc]
  simp only [strcspn, List.append_assoc, List.drop_left]
  rw [List.takeWhile_append_of_pos (fun b hb => by simp [List.elem_iff, htok b hb]),
    List.takeWhile_cons_of_neg (by simpa using hp), List.append_nil]

/-- A field ending at the NUL is the last token; the save pointer stays on the NUL. -/
theorem strtokR_token_end (hne : tok ≠ []) (htok : ∀ b ∈ tok, b ≠ 0 ∧ b ∉ delim) :
    strtokR (D ++ tok ++ 0 :: Z) D.length delim =
      (some D.length, D ++ tok ++ 0 :: Z, D.length + tok.length) := by
  have he : byteAt (D ++ tok ++ 0 :: Z) (D.length + tok.length) = 0 := by
    simpa using byteAt_length_append (D ++ tok) Z 0
  simp only [strtokR, strspn_token hne htok, Nat.add_zero, if_neg (byteAt_token_ne hne htok _),
    strcspn_token htok (.inl rfl), he, if_true]

/-- A field ending at a delimiter: the delimiter becomes NUL and the save pointer moves
past it. -/
theorem strtokR_token_delim (hdz : (0 : UInt8) ∉ delim) (hne : tok ≠ [])
    (htok : ∀ b ∈ tok, b ≠ 0 ∧ b ∉ delim) {c : UInt8} (hc : c ∈ delim) :
    strtokR (D ++ tok ++ c :: Z) D.length delim =
      (some D.length, D ++ tok ++ 0 :: Z, D.length + tok.length + 1) := by
  have he : byteAt (D ++ tok ++ c :: Z) (D.length + tok.length) = c := by
    simpa using byteAt_length_append (D ++ tok) Z c
  have hset : (D ++ tok ++ c :: Z).set (D.length + tok.length) 0 = D ++ tok ++ 0 :: Z := by
    rw [List.set_append_right _ _ (by simp)]
    simp
  simp only [strtokR, strspn_token hne htok, Nat.add_zero, if_neg (byteAt_token_ne hne htok _),
    strcspn_token htok (.inr hc), he, if_neg (fun h : c = 0 => hdz (h ▸ hc)), hset]

/-! Reading fields one after another: the position is any `p` that is the length of what
precedes the field. -/

theorem strtokR_field_delim (hdz : (0 : UInt8) ∉ delim) (hne : tok ≠ [])
    (htok : ∀ b ∈ tok, b ≠ 0 ∧ b ∉ delim) {c : UInt8} (hc : c ∈ delim) (Z : List UInt8) {p : Nat}
    (hp : D.length = p) :
    strtokR (D ++ tok ++ c :: Z) p delim = (some p, D ++ tok ++ 0 :: Z, p + tok.length + 1) := by
  rw [← hp, strtokR_token_delim hdz hne htok hc]

theorem strtokR_field_end (hne : tok ≠ []) (htok : ∀ b ∈ tok, b ≠ 0 ∧ b ∉ delim)
    (Z : List UInt8) {p : Nat} (hp : D.length = p) :
    strtokR (D ++ tok ++ 0 :: Z) p delim = (some p, D ++ tok ++ 0 :: Z, p + tok.length) := by
  rw [← hp, strtokR_token_end hne htok]

/-- The C string at a field that a NUL ends is the field. -/
theorem cstr_token (h : (0 : UInt8) ∉ tok) (Z : List UInt8) {p : Nat} (hp : D.length = p) :
    cstr (D ++ tok ++ 0 :: Z) p = tok := by
  rw [← hp, cstr, List.append_assoc, List.drop_left]
  exact cstr_text h Z

end Text

/-! ## `strtoull` and `strtol` -/

/-- `isspace` in the C locale. -/
def isSpace (c : UInt8) : Bool := c == 32 || (9 ≤ c && c ≤ 13)

/-- An ASCII digit or letter as a digit; 36 for any other byte, a digit of no base. -/
def digitValue (c : UInt8) : Nat :=
  if 48 ≤ c ∧ c ≤ 57 then c.toNat - 48
  else if 97 ≤ c ∧ c ≤ 122 then c.toNat - 87
  else if 65 ≤ c ∧ c ≤ 90 then c.toNat - 55
  else 36

def digitRun (base : Nat) (s : List UInt8) : List UInt8 :=
  s.takeWhile fun c => digitValue c < base

def digitsValue (base : Nat) (ds : List UInt8) : Nat :=
  ds.foldl (fun v c => v * base + digitValue c) 0

/-- A `0x` or `0X` prefix followed by a hex digit. -/
def hexPrefix : List UInt8 → Bool
  | 48 :: x :: c :: _ => (x == byte 'x' || x == byte 'X') && digitValue c < 16
  | _ => false

/-- What glibc's `strtoul` family reads at the head of `s`: whether a `-` came first,
the value of the digits, and the offset of `endptr`, which is 0 (`nptr`) when there is
no digit. Leading white space and one sign are skipped, and in base 16 a `0x` prefix;
a `0x` with no hex digit after it reads as the number 0 ending at the `x`. -/
def scanNumber (s : List UInt8) (base : Nat) : Bool × Nat × Nat :=
  let lead := (s.takeWhile isSpace).length
  let t := s.drop lead
  let sign := if t.head? = some (byte '-') ∨ t.head? = some (byte '+') then 1 else 0
  let u := t.drop sign
  let pre := if base = 16 ∧ hexPrefix u then 2 else 0
  let ds := digitRun base (u.drop pre)
  if ds = [] then (false, 0, 0)
  else (t.head? = some (byte '-'), digitsValue base ds, lead + sign + pre + ds.length)

/-- `std::numeric_limits<unsigned long long>::max()`. -/
def ullongMax : UInt64 := UInt64.ofNat (2 ^ 64 - 1)

/-- `std::numeric_limits<long>::max()`. -/
def longMax : Int := 2 ^ 63 - 1

/-- glibc's `strtoull`: the value and the offset of `endptr`. A magnitude past
`ULLONG_MAX` gives `ULLONG_MAX` (ERANGE); otherwise a `-` negates modulo 2^64. -/
def strtoull (s : List UInt8) (base : Nat) : UInt64 × Nat :=
  let (neg, v, n) := scanNumber s base
  (if 2 ^ 64 ≤ v then ullongMax else if neg then 0 - UInt64.ofNat v else UInt64.ofNat v, n)

/-- `strtoul`, `unsigned long` being `unsigned long long` on LP64. -/
def strtoul (s : List UInt8) (base : Nat) : UInt64 × Nat := strtoull s base

/-- glibc's `strtol`: a magnitude out of range gives `LONG_MAX` or `LONG_MIN` (ERANGE). -/
def strtol (s : List UInt8) (base : Nat) : Int × Nat :=
  let (neg, v, n) := scanNumber s base
  (if neg then (if 2 ^ 63 < v then -2 ^ 63 else -v) else if 2 ^ 63 ≤ v then longMax else v, n)

/-- The conversion of an unsigned value to a 32-bit `int`. -/
def toCInt (x : UInt64) : Int :=
  if x.toNat % 2 ^ 32 < 2 ^ 31 then x.toNat % 2 ^ 32 else x.toNat % 2 ^ 32 - 2 ^ 32

/-- `std::numeric_limits<int>::max()`. -/
def intMax : Int := 2 ^ 31 - 1

/-! ## A numeral alone

What the number scanners make of a bare run of digits, as a record writes a number. -/

/-- Bytes that are digits of some base are `0` or above. -/
theorem toNat_ge_of_digitValue_lt {c : UInt8} (h : digitValue c < 36) : 48 ≤ c.toNat := by
  unfold digitValue at h
  split_ifs at h with h1 h2 h3
  · exact h1.1
  · exact le_trans (by decide) h2.1
  · exact le_trans (by decide) h3.1
  · omega

/-- A digit of any base is neither white space nor a sign. -/
theorem digit_not_space_or_sign {c : UInt8} (h : digitValue c < 36) :
    isSpace c = false ∧ c ≠ byte '-' ∧ c ≠ byte '+' := by
  have h48 := toNat_ge_of_digitValue_lt h
  have h13 : ¬c ≤ 13 := fun h' => absurd (show c.toNat ≤ 13 from h') (by omega)
  refine ⟨?_, ?_, ?_⟩
  · have h32 : c ≠ 32 := by rintro rfl; exact absurd h48 (by decide)
    simp [isSpace, h32, h13]
  all_goals rintro rfl; exact absurd h48 (by decide)

/-- Hex digits never start with `0x`: `x` is no hex digit. -/
theorem hexPrefix_of_digits {s : List UInt8} (h : ∀ c ∈ s, digitValue c < 16) :
    hexPrefix s = false := by
  unfold hexPrefix
  split
  · next x c _ =>
    have hx := h x (by simp)
    have hlx : x ≠ byte 'x' := by rintro rfl; exact absurd hx (by decide)
    have hux : x ≠ byte 'X' := by rintro rfl; exact absurd hx (by decide)
    simp [hlx, hux]
  · rfl

theorem scanNumber_digits {base : Nat} {ds : List UInt8} (hbase : base ≤ 16) (hne : ds ≠ [])
    (hds : ∀ c ∈ ds, digitValue c < base) :
    scanNumber ds base = (false, digitsValue base ds, ds.length) := by
  obtain ⟨c, cs, rfl⟩ := List.exists_cons_of_ne_nil hne
  obtain ⟨hsp, hm, hp⟩ := digit_not_space_or_sign (c := c) (by have := hds c (by simp); omega)
  have hpre : hexPrefix (c :: cs) = false :=
    hexPrefix_of_digits fun x hx => by have := hds x hx; omega
  have hrun : digitRun base (c :: cs) = c :: cs :=
    List.takeWhile_eq_self_iff.mpr (by simpa using hds)
  simp [scanNumber, hsp, hm, hp, hpre, hrun]

theorem strtoull_digits {base : Nat} {ds : List UInt8} (hbase : base ≤ 16) (hne : ds ≠ [])
    (hds : ∀ c ∈ ds, digitValue c < base) (hv : digitsValue base ds < 2 ^ 64) :
    strtoull ds base = (UInt64.ofNat (digitsValue base ds), ds.length) := by
  rw [strtoull, scanNumber_digits hbase hne hds]
  exact congrArg (·, ds.length) (if_neg (Nat.not_le.mpr hv))

theorem strtol_digits {base : Nat} {ds : List UInt8} (hbase : base ≤ 16) (hne : ds ≠ [])
    (hds : ∀ c ∈ ds, digitValue c < base) (hv : digitsValue base ds < 2 ^ 63) :
    strtol ds base = ((digitsValue base ds : Int), ds.length) := by
  rw [strtol, scanNumber_digits hbase hne hds]
  exact congrArg (·, ds.length) (if_neg (Nat.not_le.mpr hv))

/-! ## A numeral with a sign, a prefix or text after it

The other texts the scanners read as a number: a `-` first, `0x` before hexadecimal digits,
and a space and more text after the digits. -/

/-- A numeral alone that reaches `ULLONG_MAX` reads as `ULLONG_MAX`. -/
theorem strtoull_digits_ge {base : Nat} {ds : List UInt8} (hbase : base ≤ 16) (hne : ds ≠ [])
    (hds : ∀ c ∈ ds, digitValue c < base) (hv : 2 ^ 64 - 1 ≤ digitsValue base ds) :
    strtoull ds base = (ullongMax, ds.length) := by
  rw [strtoull, scanNumber_digits hbase hne hds]
  by_cases h : 2 ^ 64 ≤ digitsValue base ds
  · exact congrArg (·, ds.length) (if_pos h)
  · refine congrArg (·, ds.length) ((if_neg h).trans ?_)
    show UInt64.ofNat (digitsValue base ds) = UInt64.ofNat (2 ^ 64 - 1)
    rw [show digitsValue base ds = 2 ^ 64 - 1 by omega]

/-- A numeral alone that reaches `LONG_MAX` reads as `LONG_MAX`. -/
theorem strtol_digits_ge {base : Nat} {ds : List UInt8} (hbase : base ≤ 16) (hne : ds ≠ [])
    (hds : ∀ c ∈ ds, digitValue c < base) (hv : 2 ^ 63 - 1 ≤ digitsValue base ds) :
    strtol ds base = (longMax, ds.length) := by
  rw [strtol, scanNumber_digits hbase hne hds]
  by_cases h : 2 ^ 63 ≤ digitsValue base ds
  · exact congrArg (·, ds.length) (if_pos h)
  · refine congrArg (·, ds.length) ((if_neg h).trans ?_)
    show (digitsValue base ds : Int) = 2 ^ 63 - 1
    omega

end SourceLineResolver.Libc
