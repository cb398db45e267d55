import SourceLineResolver.Libc

/-! # `Tokenize`

processor/tokenize.h is not among the sources. `tokenize` follows the spec's account of
it (§4.1): a run of separators is consumed before each field, the first
`max_tokens - 1` fields end at the next separator, and the last field is the rest of
the line, separators included. An empty rest is no field. -/

namespace SourceLineResolver.Tokenize

/-- The fields of `line`, at most `n` of them. -/
def fields (separators : List UInt8) : Nat → List UInt8 → List (List UInt8)
  | 0, _ => []
  | n + 1, line =>
    match line.dropWhile separators.contains with
    | [] => []
    | rest =>
      if n = 0 then [rest]
      else
        let tok := rest.takeWhile fun c => !separators.contains c
        tok :: fields separators n (rest.drop tok.length)

/-- Modelled from the spec: `Tokenize (line, separators, max_tokens, &tokens)` of
processor/tokenize.h, which is not present (§4.1). The tokens, and whether there are
exactly `max_tokens` of them. -/
def tokenize (line separators : List UInt8) (maxTokens : Int) : List (List UInt8) × Bool :=
  let toks := fields separators maxTokens.toNat line
  (toks, (toks.length : Int) = maxTokens)

theorem fields_length_le (separators : List UInt8) :
    ∀ n line, (fields separators n line).length ≤ n
  | 0, _ => by simp [fields]
  | n + 1, line => by
    unfold fields
    split
    · simp
    · split
      · simp
      · simpa using fields_length_le separators n _

/-! ## Fields joined by a separator

Splitting undoes joining: text written as fields between single separators splits back
into those fields, while there are no more of them than `max_tokens`. -/

section Join
variable {separators : List UInt8}

/-- A field that `separators` leave whole: some bytes, none of them a separator. -/
def IsField (separators tok : List UInt8) : Prop := tok ≠ [] ∧ ∀ c ∈ tok, c ∉ separators

theorem IsField.mono {S S' t : List UInt8} (h : IsField S' t) (hS : ∀ c ∈ S, c ∈ S') :
    IsField S t :=
  ⟨h.1, fun c hc hcS => h.2 c hc (hS c hcS)⟩

theorem fields_nil : ∀ n, fields separators n [] = []
  | 0 => rfl
  | _ + 1 => rfl

theorem fields_cons_separator {d : UInt8} (hd : d ∈ separators) (n : Nat) (rest : List UInt8) :
    fields separators n (d :: rest) = fields separators n rest := by
  cases n <;> simp only [fields, List.dropWhile_cons, List.elem_iff.mpr hd, List.contains,
    ite_true]

/-- The last field is the rest of the line, separators included. -/
theorem fields_one {c : UInt8} (hc : c ∉ separators) (rest : List UInt8) :
    fields separators 1 (c :: rest) = [c :: rest] := by
  rw [fields, List.dropWhile_cons, if_neg (by simpa using hc)]
  rfl

theorem fields_one_append {tok : List UInt8} (h : IsField separators tok) (rest : List UInt8) :
    fields separators 1 (tok ++ rest) = [tok ++ rest] := by
  obtain ⟨c, cs, rfl⟩ := List.exists_cons_of_ne_nil h.1
  exact fields_one (h.2 c (by simp)) _

theorem fields_field {tok : List UInt8} (h : IsField separators tok) (n : Nat) :
    fields separators (n + 1) tok = [tok] := by
  obtain ⟨c, cs, rfl⟩ := List.exists_cons_of_ne_nil h.1
  cases n
  · exact fields_one (h.2 c (by simp)) cs
  · have htake : (c :: cs).takeWhile (fun c => !separators.contains c) = c :: cs :=
      List.takeWhile_eq_self_iff.mpr (by simpa using h.2)
    rw [fields, List.dropWhile_cons, if_neg (by simpa using h.2 c (by simp))]
    dsimp only
    rw [htake]
    simp [fields_nil]

theorem fields_field_append {tok : List UInt8} (h : IsField separators tok) {d : UInt8}
    (hd : d ∈ separators) (n : Nat) (rest : List UInt8) :
    fields separators (n + 2) (tok ++ d :: rest) = tok :: fields separators (n + 1) rest := by
  obtain ⟨c, cs, rfl⟩ := List.exists_cons_of_ne_nil h.1
  have htake : (c :: cs ++ d :: rest).takeWhile (fun c => !separators.contains c) = c :: cs := by
    rw [List.takeWhile_append, if_pos (by rw [List.takeWhile_eq_self_iff.mpr (by simpa using h.2)])]
    simpa using hd
  rw [fields, List.cons_append, List.dropWhile_cons, if_neg (by simpa using h.2 c (by simp))]
  dsimp only
  rw [← List.cons_append, htake]
  simp [fields_cons_separator hd]

theorem intercalate_cons_cons (d : UInt8) (t t' : List UInt8) (ts : List (List UInt8)) :
    List.intercalate [d] (t :: t' :: ts) = t ++ d :: List.intercalate [d] (t' :: ts) := by
  simp [List.intercalate, List.intersperse]

theorem intercalate_singleton (d : UInt8) (t : List UInt8) : List.intercalate [d] [t] = t := by
  simp [List.intercalate]

theorem mem_intercalate {c d : UInt8} :
    ∀ {ts : List (List UInt8)}, c ∈ List.intercalate [d] ts → c = d ∨ ∃ t ∈ ts, c ∈ t
  | [], h => by simp [List.intercalate] at h
  | [t], h => .inr ⟨t, by simp, by simpa [List.intercalate] using h⟩
  | t :: t' :: ts, h => by
    rw [intercalate_cons_cons] at h
    rcases List.mem_append.mp h with h | h
    · exact .inr ⟨t, by simp, h⟩
    rcases List.mem_cons.mp h with h | h
    · exact .inl h
    · rcases mem_intercalate h with h | ⟨u, hu, h⟩
      · exact .inl h
      · exact .inr ⟨u, List.mem_cons_of_mem _ hu, h⟩

theorem fields_intercalate {d : UInt8} (hd : d ∈ separators) :
    ∀ {toks : List (List UInt8)} {n : Nat}, (∀ t ∈ toks, IsField separators t) →
      toks.length ≤ n → fields separators n (List.intercalate [d] toks) = toks
  | [], n, _, _ => fields_nil n
  | [t], n + 1, h, _ => by simpa [List.intercalate] using fields_field (h t (by simp)) n
  | t :: t' :: ts, n + 2, h, hn => by
    rw [intercalate_cons_cons, fields_field_append (h t (by simp)) hd,
      fields_intercalate hd (fun x hx => h x (List.mem_cons_of_mem _ hx)) (by simpa using hn)]

theorem tokenize_intercalate {d : UInt8} (hd : d ∈ separators) {toks : List (List UInt8)}
    (h : ∀ t ∈ toks, IsField separators t) {maxTokens : Int} (hn : toks.length ≤ maxTokens) :
    tokenize (List.intercalate [d] toks) separators maxTokens =
      (toks, decide ((toks.length : Int) = maxTokens)) := by
  simp only [tokenize, @fields_intercalate separators d hd toks maxTokens.toNat h (by omega)]

end Join

end SourceLineResolver.Tokenize
