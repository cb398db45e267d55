import Mathlib.Data.List.MinMax
import Mathlib.Data.List.Sort
import Mathlib.Data.List.Dedup
import SourceLineResolver.Lookup
import SourceLineResolver.StackRecord

/-! # Looking an address up in a written file

What the three lookups find on the module a written file loads into, read straight off the
file's records in their order. `LookupAddress`: the function whose range holds the address,
its line record holding it and the name the first `FILE` record with the line's id gives;
when no function holds the address, the public symbol, not at 0, with the greatest address
at most it, unless a function begins between the two. `FindWindowsFrameInfo`: the
`FRAME_DATA` record holding the address, else the `FPO` one, else the function's parameter
size. `FindCFIFrameInfo`: the `INIT` record holding the address, then each address's last
delta record up to the address, in ascending order. Each holds of every file whose ranges of
one kind lie apart from one another: no range then nests in another, and the innermost
range `RetrieveRange` looks for is the only one. -/

namespace SourceLineResolver.Resolve
open SourceLineResolver.Libc SourceLineResolver.RangeMap SourceLineResolver.Types
open SourceLineResolver.Frame SourceLineResolver.Params SourceLineResolver.Load
open SourceLineResolver.Lookup SourceLineResolver.FuncRecord SourceLineResolver.RecordText
open SourceLineResolver.SymbolFile SourceLineResolver.StackRecord SourceLineResolver.Reference

variable {W : Type}

/-! ## Ranges apart -/

/-- The addresses `[address, address + size)` a record covers. -/
def span (address size : UInt64) : Range Unit := ⟨address, size, ()⟩

/-- Spans a containment map takes, none sharing an address with another: each non-empty,
ending below 2^64, and apart from every other. -/
def Separate (spans : List (Range Unit)) : Prop :=
  (∀ r ∈ spans, 0 < r.size.toNat ∧ r.base.toNat + r.size.toNat < 2 ^ 64) ∧
    spans.Pairwise Range.Apart

instance (spans : List (Range Unit)) : Decidable (Separate spans) :=
  inferInstanceAs (Decidable (_ ∧ _))

section Store
variable {α : Type}

/-- Ranges whose spans are separate are stored, in turn, into an empty map, the last
first. -/
theorem ranges_storeAll {rs : List (Range α)} (h : Separate (rs.map fun r => span r.base r.size)) :
    (rs.foldl (fun (m : ContainedRangeMap α) r => (m.storeRange r.base r.size r.entry).getD m)
      .empty).ranges = rs.reverse := by
  have hv : ∀ r ∈ rs, 0 < r.size.toNat ∧ r.base.toNat + r.size.toNat < 2 ^ 64 :=
    fun r hr => h.1 _ (List.mem_map_of_mem _ hr)
  have hp : rs.Pairwise Range.Apart := (List.pairwise_map.mp h.2).imp fun h => h
  have he : (ContainedRangeMap.empty : ContainedRangeMap α).ranges = [] := rfl
  rw [ContainedRangeMap.ranges_foldl_storeRange rs .empty hv
    (by rw [he, List.append_nil, List.pairwise_reverse]; exact hp.imp Range.Apart.symm), he,
    List.append_nil]

/-- In a map built from ranges whose spans are separate, `RetrieveRange` finds the first of
them holding the address. -/
theorem retrieveRange_storeAll {rs : List (Range α)}
    (h : Separate (rs.map fun r => span r.base r.size)) (a : UInt64) :
    (rs.foldl (fun (m : ContainedRangeMap α) r => (m.storeRange r.base r.size r.entry).getD m)
      .empty).retrieveRange a = rs.find? fun r => r.Contains a := by
  apply ContainedRangeMap.retrieveRange_eq_find? _ (fun r => by rw [ranges_storeAll h, List.mem_reverse])
  rw [ranges_storeAll h, List.pairwise_reverse]
  exact (List.pairwise_map.mp h.2).imp fun h => Range.Apart.symm h

end Store

/-! ## Functions and their lines -/

/-- The ranges `storeFunctions` is given, each pointing at its function's place on the heap,
from `ptr` on. -/
def functionRanges (ptr : Nat) : List Function → List (Range Nat)
  | [] => []
  | f :: fs => ⟨f.address, f.size, ptr⟩ :: functionRanges (ptr + 1) fs

theorem storeFunctions_eq_foldl : ∀ (m : ContainedRangeMap Nat) (ptr : Nat) (fs : List Function),
    storeFunctions m ptr fs =
      (functionRanges ptr fs).foldl (fun m r => (m.storeRange r.base r.size r.entry).getD m) m
  | _, _, [] => rfl
  | _, ptr, _ :: fs => storeFunctions_eq_foldl _ (ptr + 1) fs

theorem spans_functionRanges : ∀ (ptr : Nat) (fs : List Function),
    (functionRanges ptr fs).map (fun r => span r.base r.size) = fs.map fun f => span f.address f.size
  | _, [] => rfl
  | ptr, _ :: fs => congrArg _ (spans_functionRanges (ptr + 1) fs)

/-- The first range holding `a` points at the first function holding it, on a heap whose
functions from `H.length` on are `fs`. -/
theorem find?_functionRanges (a : UInt64) : ∀ (H fs : List Function),
    ((functionRanges H.length fs).find? fun r => r.Contains a).map
        (fun r => (r.base, (H ++ fs).getD r.entry default)) =
      (fs.find? fun f => (span f.address f.size).Contains a).map fun f => (f.address, f)
  | _, [] => rfl
  | H, f :: fs => by
    have hc : decide ((⟨f.address, f.size, H.length⟩ : Range Nat).Contains a) =
        decide ((span f.address f.size).Contains a) := rfl
    rw [functionRanges, List.find?_cons, List.find?_cons, hc]
    cases decide ((span f.address f.size).Contains a)
    · have ih := find?_functionRanges a (H ++ [f]) fs
      rwa [List.length_append, List.length_singleton, List.append_assoc,
        List.singleton_append] at ih
    · simp [List.getElem_append_right]

/-- In the functions' map of a file whose functions are separate, `RetrieveRange` finds the
first function holding the address, at its base and through its pointer. -/
theorem retrieveRange_storeFunctions {fs : List Function}
    (h : Separate (fs.map fun f => span f.address f.size)) (a : UInt64) :
    ((storeFunctions .empty 0 fs).retrieveRange a).map (fun r => (r.base, fs.getD r.entry default)) =
      (fs.find? fun f => (span f.address f.size).Contains a).map fun f => (f.address, f) := by
  rw [storeFunctions_eq_foldl, retrieveRange_storeAll (by rwa [spans_functionRanges])]
  exact find?_functionRanges a [] fs

/-- The file's functions lie apart from one another, and so do each function's line
records. -/
@[mk_iff]
structure SeparateFile (w : WrittenFile) : Prop where
  functions : Separate (w.functions.map fun b => span b.func.value.address b.func.value.size)
  lines : ∀ b ∈ w.functions, Separate ((b.lines.map LineText.value).map fun l => span l.address l.size)

instance (w : WrittenFile) : Decidable (SeparateFile w) :=
  decidable_of_iff' _ (separateFile_iff w)

/-! ## The loaded module finds the same -/

section Module
variable {w : WrittenFile}

/-- The function range that holds `a` is that of the first block holding it, at its base
and through its pointer. -/
theorem retrieveRange_module (hs : SeparateFile w) (a : UInt64) :
    ((w.module : Module W).functions.retrieveRange a).map
        (fun r => (r.base, (w.module : Module W).function r.entry)) =
      (w.functions.find? fun b => (span b.func.value.address b.func.value.size).Contains a).map
        fun b => (b.func.value.address, b.function) := by
  have e := retrieveRange_storeFunctions
    (show Separate ((w.functions.map FuncBlock.function).map fun f => span f.address f.size) by
      rw [List.map_map]; exact hs.functions) a
  rw [List.find?_map, Option.map_map] at e
  exact e

end Module

section Windows

/-- The first `STACK WIN` carrier of type `t` whose range holds `a`. -/
def winAt (wins : List (Nat × UInt64 × UInt64 × W)) (t : Nat) (a : UInt64) : Option W :=
  ((wins.filter fun e => e.1 = t).find? fun e => (span e.2.1 e.2.2.1).Contains a).map
    fun e => e.2.2.2

/-- What `FindWindowsFrameInfo` should find at `frame`'s address in a written file followed
by `STACK WIN` records that store `wins`. -/
def resolveWindowsFrameInfo (w : WrittenFile) (wins : List (Nat × UInt64 × UInt64 × W))
    (frame : StackFrame) : Option (FrameInfo W) :=
  let a := frame.instruction - frame.moduleBase
  match winAt wins stackInfoFrameData a <|> winAt wins stackInfoFpo a with
  | some info => some (.copy info)
  | none =>
    (w.functions.find? fun b => (span b.func.value.address b.func.value.size).Contains a).map
      fun b => .parameterSize b.func.value.parameterSize

/-- The map of one type holds the records of that type, stored in turn. -/
theorem storeWindowsFrameInfo_apply (t : Nat) : ∀ (infos : Nat → ContainedRangeMap W)
    (es : List (Nat × UInt64 × UInt64 × W)), storeWindowsFrameInfo infos es t =
      ((es.filter fun e => e.1 = t).map fun e => (⟨e.2.1, e.2.2.1, e.2.2.2⟩ : Range W)).foldl
        (fun (m : ContainedRangeMap W) r => (m.storeRange r.base r.size r.entry).getD m) (infos t)
  | _, [] => rfl
  | infos, e :: es => by
    rw [storeWindowsFrameInfo, List.foldl_cons, ← storeWindowsFrameInfo,
      storeWindowsFrameInfo_apply t _ es]
    by_cases h : e.1 = t
    · subst h
      simp
    · simp [h, Function.update_noteq (Ne.symm h)]

theorem retrieveRange_storeWindowsFrameInfo {es : List (Nat × UInt64 × UInt64 × W)} {t : Nat}
    (h : Separate ((es.filter fun e => e.1 = t).map fun e => span e.2.1 e.2.2.1)) (a : UInt64) :
    ((storeWindowsFrameInfo (fun _ => .empty) es t).retrieveRange a).map Range.entry =
      winAt es t a := by
  rw [storeWindowsFrameInfo_apply, retrieveRange_storeAll (by rwa [List.map_map]), List.find?_map,
    Option.map_map, winAt]
  rfl

/-- `FindWindowsFrameInfo` on the module a well-formed written file followed by well-formed
`STACK` records loads into finds what the records say is there, for every file whose
functions lie apart from one another, as do its `FRAME_DATA` and its `FPO` records. -/
theorem findWindowsFrameInfo_writtenFile
    (parseFromString : List UInt8 → Option (Nat × UInt64 × UInt64 × W)) (w : WrittenFile)
    (h : w.WellFormed) (hw : SeparateFile w) (ss : List StackText)
    (hs : ∀ s ∈ ss, s.WellFormed parseFromString)
    (hfd : Separate (((ss.filterMap (StackText.winEntry parseFromString)).filter fun e =>
      e.1 = stackInfoFrameData).map fun e => span e.2.1 e.2.2.1))
    (hfpo : Separate (((ss.filterMap (StackText.winEntry parseFromString)).filter fun e =>
      e.1 = stackInfoFpo).map fun e => span e.2.1 e.2.2.1))
    (frame : StackFrame) :
    findWindowsFrameInfo
        (loadMapFromMemory parseFromString (symbolFileText (w.records ++ ss.map StackText.text)))
        frame =
      resolveWindowsFrameInfo w (ss.filterMap (StackText.winEntry parseFromString)) frame := by
  obtain ⟨st, hm, he, e⟩ := loadMapFromMemory_writtenFile_append parseFromString w h _
    (stackTexts_lines parseFromString hs)
  obtain ⟨st', e2, hm2, he2⟩ := referenceLines_stackTexts parseFromString ss st [] hs he
  rw [e, ← List.append_nil (ss.map StackText.text), e2, referenceLines_nil, hm2, hm, he2]
  have hr := retrieveRange_module (W := W) hw (frame.instruction - frame.moduleBase)
  have hfd' := retrieveRange_storeWindowsFrameInfo hfd (frame.instruction - frame.moduleBase)
  have hfpo' := retrieveRange_storeWindowsFrameInfo hfpo (frame.instruction - frame.moduleBase)
  have hor (x y : Option (Range W)) : (x.map Range.entry <|> y.map Range.entry) = (x <|> y).map Range.entry := by
    cases x <;> rfl
  simp only [findWindowsFrameInfo, resolveWindowsFrameInfo, retrieveNearestRange_filter,
    WrittenFile.module_windowsFrameInfo, ← hfd', ← hfpo', hor]
  split
  · next hx => rw [hx]; rfl
  · next hx =>
    rw [hx]
    cases hb : w.functions.find? fun b =>
        (span b.func.value.address b.func.value.size).Contains (frame.instruction - frame.moduleBase) with
    | none =>
      rw [hb, Option.map_none', Option.map_eq_none'] at hr
      simp only [hr, hb]
      rfl
    | some b =>
      rw [hb, Option.map_some', Option.map_eq_some'] at hr
      obtain ⟨r, hr, he⟩ := hr
      simp only [Prod.mk.injEq] at he
      simp only [hr, hb]
      have hp : ((w.module : Module W).function r.entry).parameterSize =
          b.func.value.parameterSize := by rw [he.2]; rfl
      exact congrArg (fun p => some (FrameInfo.parameterSize p)) hp

theorem findWindowsFrameInfo_writtenFile_frameData :
    WrittenFile.WellFormed
        ⟨[bytes "MODULE Linux x86_64 0123 test"], [],
          [⟨⟨bytes "2000", bytes "20", bytes "8", bytes "g", none⟩, []⟩], []⟩ ∧
    SeparateFile
        ⟨[bytes "MODULE Linux x86_64 0123 test"], [],
          [⟨⟨bytes "2000", bytes "20", bytes "8", bytes "g", none⟩, []⟩], []⟩ ∧
    (∀ s ∈ [StackText.win (bytes "4 1000 10 0 0 0 0 0 0 1")],
      s.WellFormed (fun _ => some (4, 0x1000, 0x10, ()))) ∧
    Separate ((([StackText.win (bytes "4 1000 10 0 0 0 0 0 0 1")].filterMap
        (StackText.winEntry fun _ => some (4, 0x1000, 0x10, ()))).filter fun e =>
      e.1 = stackInfoFrameData).map fun e => span e.2.1 e.2.2.1) ∧
    Separate ((([StackText.win (bytes "4 1000 10 0 0 0 0 0 0 1")].filterMap
        (StackText.winEntry fun _ => some (4, 0x1000, 0x10, ()))).filter fun e =>
      e.1 = stackInfoFpo).map fun e => span e.2.1 e.2.2.1) ∧
    findWindowsFrameInfo
        (loadMapFromMemory (fun _ => some (4, 0x1000, 0x10, ()))
          (symbolFileText (WrittenFile.records
              ⟨[bytes "MODULE Linux x86_64 0123 test"], [],
                [⟨⟨bytes "2000", bytes "20", bytes "8", bytes "g", none⟩, []⟩], []⟩ ++
            [StackText.win (bytes "4 1000 10 0 0 0 0 0 0 1")].map StackText.text)))
        ⟨0x1008, 0, [], 0, [], 0, 0, [], 0, fun _ => 0⟩ =
      resolveWindowsFrameInfo
        ⟨[bytes "MODULE Linux x86_64 0123 test"], [],
          [⟨⟨bytes "2000", bytes "20", bytes "8", bytes "g", none⟩, []⟩], []⟩
        ([StackText.win (bytes "4 1000 10 0 0 0 0 0 0 1")].filterMap
          (StackText.winEntry fun _ => some (4, 0x1000, 0x10, ())))
        ⟨0x1008, 0, [], 0, [], 0, 0, [], 0, fun _ => 0⟩ :=
  ⟨by decide, by decide, by decide, by decide, by decide,
    findWindowsFrameInfo_writtenFile (fun _ => some (4, 0x1000, 0x10, ()))
      ⟨[bytes "MODULE Linux x86_64 0123 test"], [],
        [⟨⟨bytes "2000", bytes "20", bytes "8", bytes "g", none⟩, []⟩], []⟩ (by decide) (by decide)
      [StackText.win (bytes "4 1000 10 0 0 0 0 0 0 1")] (by decide) (by decide) (by decide)
      ⟨0x1008, 0, [], 0, [], 0, 0, [], 0, fun _ => 0⟩⟩

end Windows

/-! ## Call frame information

What `FindCFIFrameInfo` finds on the module a file with `STACK CFI` records loads into,
read off the records: the first `INIT` record whose range holds the address, its rules
parsed, then, once each in ascending address order, the rules of the last delta record at
each address between its base and the address. -/

section CFI
variable {R : Type} (parseCFIRuleSet : List UInt8 → R → Bool × R) (newRules : R)

/-- The rules of the last delta record at address `k`. -/
def lastRules (ds : List (UInt64 × List UInt8)) (k : UInt64) : Option (List UInt8) :=
  ds.foldl (fun acc e => if k = e.1 then some e.2 else acc) none

/-- The table the delta records describe: each address once, with the rules of its last
record, in ascending address order. -/
def deltaTable (ds : List (UInt64 × List UInt8)) : List (UInt64 × List UInt8) :=
  ((ds.map Prod.fst).dedup.mergeSort fun k k' => k.toNat ≤ k'.toNat).filterMap fun k =>
    (lastRules ds k).map fun r => (k, r)

/-- What `FindCFIFrameInfo` should find at `frame`'s address among a file's `STACK`
records. -/
def resolveCFI (ss : List StackText) (frame : StackFrame) : Option R :=
  let a := frame.instruction - frame.moduleBase
  match (ss.filterMap StackText.initEntry).find? fun e => (span e.1 e.2.1).Contains a with
  | none => none
  | some (base, _, rules) =>
    if (parseCFIRuleSet rules newRules).1 then
      some (((deltaTable (ss.filterMap StackText.deltaEntry)).filter fun e =>
          base.toNat ≤ e.1.toNat ∧ e.1.toNat ≤ a.toNat).foldl
        (fun r e => (parseCFIRuleSet e.2 r).2) (parseCFIRuleSet rules newRules).2)
    else none

/-- The map of deltas finds at each address what assigning the records in turn left
there. -/
theorem lookup_assignCFIDeltaRules (k : UInt64) : ∀ (ds : List (UInt64 × List UInt8))
    (d : StdMap (List UInt8)), (assignCFIDeltaRules d ds).entries.lookup k =
      ds.foldl (fun acc e => if k = e.1 then some e.2 else acc) (d.entries.lookup k)
  | [], _ => rfl
  | e :: ds, d => by
    rw [List.foldl_cons, ← StdMap.lookup_assign]
    exact lookup_assignCFIDeltaRules k ds (d.assign e.1 e.2)

theorem mem_of_lastRules {ds : List (UInt64 × List UInt8)} {k : UInt64} {r : List UInt8}
    (h : lastRules ds k = some r) : k ∈ ds.map Prod.fst := by
  have key : ∀ (ds : List (UInt64 × List UInt8)) acc,
      ds.foldl (fun acc e => if k = e.1 then some e.2 else acc) acc = some r →
        acc = some r ∨ k ∈ ds.map Prod.fst := by
    intro ds
    induction ds with
    | nil => exact fun _ h => .inl h
    | cons e ds ih =>
      intro acc h
      rcases ih _ h with h' | h'
      · dsimp only at h'
        split at h'
        · next he => exact .inr (List.mem_cons.mpr (.inl he))
        · exact .inl h'
      · exact .inr (List.mem_cons_of_mem _ h')
  exact (key ds none h).resolve_left nofun

theorem mem_deltaTable (ds : List (UInt64 × List UInt8)) (x : UInt64 × List UInt8) :
    x ∈ deltaTable ds ↔ lastRules ds x.1 = some x.2 := by
  simp only [deltaTable, List.mem_filterMap, List.mem_mergeSort, List.mem_dedup, Option.map_eq_some']
  constructor
  · rintro ⟨k, -, r, hr, rfl⟩
    exact hr
  · intro h
    exact ⟨x.1, mem_of_lastRules h, x.2, h, rfl⟩

theorem deltaTable_sorted (ds : List (UInt64 × List UInt8)) :
    (deltaTable ds).Pairwise fun x y => x.1.toNat < y.1.toNat := by
  have hs : ((ds.map Prod.fst).dedup.mergeSort fun k k' => k.toNat ≤ k'.toNat).Pairwise
      fun k k' => decide (k.toNat ≤ k'.toNat) = true :=
    List.sorted_mergeSort (fun _ _ _ h h' => by simp only [decide_eq_true_eq] at *; omega)
      (fun k k' => by simpa using Nat.le_total _ _) _
  have hn := (List.nodup_dedup (ds.map Prod.fst)).perm
    (List.mergeSort_perm _ fun k k' : UInt64 => decide (k.toNat ≤ k'.toNat)).symm
  refine List.Pairwise.filterMap _ (fun k k' hk x hx y hy => ?_) (hs.and hn)
  obtain ⟨r, -, rfl⟩ := Option.map_eq_some'.mp hx
  obtain ⟨r', -, rfl⟩ := Option.map_eq_some'.mp hy
  have hle : k.toNat ≤ k'.toNat := by simpa using hk.1
  have hne : k.toNat ≠ k'.toNat := fun e => hk.2 (UInt64.toNat.inj e)
  show k.toNat < k'.toNat
  omega

/-- The map of deltas built from the records holds exactly their table. -/
theorem entries_assignCFIDeltaRules (ds : List (UInt64 × List UInt8)) :
    (assignCFIDeltaRules .empty ds).entries = deltaTable ds := by
  have : IsAntisymm (UInt64 × List UInt8) fun x y => x.1.toNat < y.1.toNat :=
    ⟨fun _ _ h h' => absurd (h.trans h') (Nat.lt_irrefl _)⟩
  have hA := (assignCFIDeltaRules .empty ds).sorted
  have hB := deltaTable_sorted ds
  have nodup : ∀ {l : List (UInt64 × List UInt8)},
      l.Pairwise (fun x y => x.1.toNat < y.1.toNat) → l.Nodup :=
    fun h => List.Pairwise.imp (S := fun x y => x ≠ y) (fun h e => by subst e; exact Nat.lt_irrefl _ h) h
  refine List.eq_of_perm_of_sorted ((List.perm_ext_iff_of_nodup (nodup hA) (nodup hB)).mpr
    fun x => ?_) hA hB
  rw [mem_iff_lookup hA, lookup_assignCFIDeltaRules, mem_deltaTable]
  rfl

theorem retrieveRange_storeCFIInitialRules {es : List (UInt64 × UInt64 × List UInt8)}
    (h : Separate (es.map fun e => span e.1 e.2.1)) (a : UInt64) :
    (storeCFIInitialRules .empty es).retrieveRange a =
      (es.find? fun e => (span e.1 e.2.1).Contains a).map fun e => ⟨e.1, e.2.1, e.2.2⟩ := by
  have e : storeCFIInitialRules .empty es = (es.map fun e => (⟨e.1, e.2.1, e.2.2⟩ : Range _)).foldl
      (fun (m : ContainedRangeMap (List UInt8)) r => (m.storeRange r.base r.size r.entry).getD m)
      .empty := by
    rw [List.foldl_map]; rfl
  rw [e, retrieveRange_storeAll (by rwa [List.map_map]), List.find?_map]
  rfl

/-- `FindCFIFrameInfo` on the module a well-formed written file followed by well-formed
`STACK` records loads into finds what the records say is there, for every file whose
`STACK CFI INIT` ranges lie apart from one another. -/
theorem findCFIFrameInfo_writtenFile
    (parseFromString : List UInt8 → Option (Nat × UInt64 × UInt64 × W)) (w : WrittenFile)
    (h : w.WellFormed) (ss : List StackText) (hs : ∀ s ∈ ss, s.WellFormed parseFromString)
    (hsep : Separate ((ss.filterMap StackText.initEntry).map fun e => span e.1 e.2.1))
    (frame : StackFrame) :
    findCFIFrameInfo parseCFIRuleSet newRules
        (loadMapFromMemory parseFromString (symbolFileText (w.records ++ ss.map StackText.text)))
        frame =
      resolveCFI parseCFIRuleSet newRules ss frame := by
  obtain ⟨st, hm, he, e⟩ := loadMapFromMemory_writtenFile_append parseFromString w h _
    (stackTexts_lines parseFromString hs)
  obtain ⟨st', e2, hm2, he2⟩ := referenceLines_stackTexts parseFromString ss st [] hs he
  rw [e, ← List.append_nil (ss.map StackText.text), e2, referenceLines_nil, hm2, hm, he2]
  simp only [findCFIFrameInfo, resolveCFI, WrittenFile.module_cfiInitialRules,
    retrieveRange_storeCFIInitialRules hsep]
  cases (ss.filterMap StackText.initEntry).find? fun e =>
      (span e.1 e.2.1).Contains (frame.instruction - frame.moduleBase) with
  | none => rfl
  | some e =>
    obtain ⟨base, size, rules⟩ := e
    simp only [Option.map_some', applyDeltas_eq, lowerBound_takeWhile,
      WrittenFile.module_cfiDeltaRules, entries_assignCFIDeltaRules]
    cases (parseCFIRuleSet rules newRules).1 <;> rfl

end CFI

theorem findCFIFrameInfo_writtenFile_init_deltas :
    WrittenFile.WellFormed ⟨[bytes "MODULE Linux x86_64 0123 test"], [], [], []⟩ ∧
    (∀ s ∈ [StackText.cfiInit (bytes "1000") (bytes "100") (bytes ".cfa: rsp 8 +"),
          StackText.cfiDelta (bytes "1010") (bytes "rip: .cfa -8 +"),
          StackText.cfiDelta (bytes "1004") (bytes ".cfa: rsp 16 +")],
      s.WellFormed (fun _ => none : List UInt8 → Option (Nat × UInt64 × UInt64 × Unit))) ∧
    Separate (([StackText.cfiInit (bytes "1000") (bytes "100") (bytes ".cfa: rsp 8 +"),
          StackText.cfiDelta (bytes "1010") (bytes "rip: .cfa -8 +"),
          StackText.cfiDelta (bytes "1004") (bytes ".cfa: rsp 16 +")].filterMap
        StackText.initEntry).map fun e => span e.1 e.2.1) ∧
    findCFIFrameInfo (fun d r => (true, r ++ d)) []
        (loadMapFromMemory (fun _ => none : List UInt8 → Option (Nat × UInt64 × UInt64 × Unit))
          (symbolFileText (WrittenFile.records ⟨[bytes "MODULE Linux x86_64 0123 test"], [], [], []⟩ ++
            [StackText.cfiInit (bytes "1000") (bytes "100") (bytes ".cfa: rsp 8 +"),
              StackText.cfiDelta (bytes "1010") (bytes "rip: .cfa -8 +"),
              StackText.cfiDelta (bytes "1004") (bytes ".cfa: rsp 16 +")].map StackText.text)))
        ⟨0x1010, 0, [], 0, [], 0, 0, [], 0, fun _ => 0⟩ =
      resolveCFI (fun d r => (true, r ++ d)) []
        [StackText.cfiInit (bytes "1000") (bytes "100") (bytes ".cfa: rsp 8 +"),
          StackText.cfiDelta (bytes "1010") (bytes "rip: .cfa -8 +"),
          StackText.cfiDelta (bytes "1004") (bytes ".cfa: rsp 16 +")]
        ⟨0x1010, 0, [], 0, [], 0, 0, [], 0, fun _ => 0⟩ :=
  ⟨by decide, by decide, by decide,
    findCFIFrameInfo_writtenFile (fun d r => (true, r ++ d)) []
      (fun _ => none : List UInt8 → Option (Nat × UInt64 × UInt64 × Unit))
      ⟨[bytes "MODULE Linux x86_64 0123 test"], [], [], []⟩ (by decide)
      [StackText.cfiInit (bytes "1000") (bytes "100") (bytes ".cfa: rsp 8 +"),
        StackText.cfiDelta (bytes "1010") (bytes "rip: .cfa -8 +"),
        StackText.cfiDelta (bytes "1004") (bytes ".cfa: rsp 16 +")]
      (by decide) (by decide) ⟨0x1010, 0, [], 0, [], 0, 0, [], 0, fun _ => 0⟩⟩

end SourceLineResolver.Resolve
