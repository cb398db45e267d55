import Mathlib.Data.List.Pairwise
import Mathlib.Data.List.Nodup
import SourceLineResolver.Libc

/-! # The address-indexed containers

contained_range_map.h, range_map.h and address_map.h are not among the sources. The
containment map and the flat map of public symbols follow the spec's account of them
(§4.3, §9); the delta rules live in a `std::map`, which `StdMap` models as a list in
strictly ascending key order. Each container carries its invariant, so no operation can
build one that breaks it. -/

namespace SourceLineResolver.RangeMap

/-- The better of a candidate and the best so far, `better r b` saying `r` wins. -/
def pick {β : Type} (better : β → β → Bool) : Option β → β → Option β
  | some b, r => if better r b then some r else some b
  | none, r => some r

section Pick
variable {β : Type} (better : β → β → Bool)

theorem foldl_pick_mem :
    ∀ (l : List β) (init : Option β) {b : β},
      l.foldl (pick better) init = some b → init = some b ∨ b ∈ l
  | [], _, _, h => .inl h
  | r :: l, init, b, h => by
    rcases foldl_pick_mem l _ h with h' | h'
    · cases init <;> simp only [pick] at h' <;> (try split at h') <;>
        simp_all
    · exact .inr (List.mem_cons_of_mem _ h')

theorem foldl_pick_isSome :
    ∀ (l : List β) (init : Option β), l ≠ [] → (l.foldl (pick better) init).isSome
  | [], _, h => absurd rfl h
  | r :: l, init, _ => by
    cases l with
    | nil => cases init <;> simp only [List.foldl, pick] <;> (try split) <;> rfl
    | cons s l => exact foldl_pick_isSome (s :: l) _ (List.cons_ne_nil s l)

/-- A fold of `pick` ends on an element at least as good as every one it saw, for a
preorder `R` that `better` decides. -/
theorem foldl_pick_best (R : β → β → Prop) (hrefl : ∀ b, R b b)
    (htrans : ∀ a b c, R a b → R b c → R a c)
    (hwin : ∀ r b, better r b = true → R r b) (hlose : ∀ r b, better r b = false → R b r) :
    ∀ (l : List β) (init : Option β) {b : β}, l.foldl (pick better) init = some b →
      (∀ c, init = some c → R b c) ∧ ∀ s ∈ l, R b s
  | [], _, b, h => ⟨fun c hc => by cases hc.symm.trans h; exact hrefl b, by simp⟩
  | r :: l, init, b, h => by
    obtain ⟨hi, hl⟩ := foldl_pick_best R hrefl htrans hwin hlose l _ h
    have hr : R b r ∧ ∀ c, init = some c → R b c := by
      cases init with
      | none => exact ⟨hi r rfl, by simp⟩
      | some c =>
        cases hb : better r c
        · have hc := hi c (by simp [pick, hb])
          exact ⟨htrans _ _ _ hc (hlose r c hb), by simpa using hc⟩
        · have hr := hi r (by simp [pick, hb])
          exact ⟨hr, by simpa using htrans _ _ _ hr (hwin r c hb)⟩
    exact ⟨hr.2, by simpa [hr.1] using hl⟩

end Pick

/-! ## Ranges -/

/-- A stored range `[base, base + size)` and its entry. -/
structure Range (α : Type) where
  base : UInt64
  size : UInt64
  entry : α
  deriving DecidableEq, Repr

namespace Range
variable {α : Type}

/-- The range holds `a`, in unbounded arithmetic. -/
def Contains (r : Range α) (a : UInt64) : Prop :=
  r.base.toNat ≤ a.toNat ∧ a.toNat < r.base.toNat + r.size.toNat

instance (r : Range α) (a : UInt64) : Decidable (r.Contains a) :=
  inferInstanceAs (Decidable (_ ∧ _))

def Within (r s : Range α) : Prop :=
  s.base.toNat ≤ r.base.toNat ∧ r.base.toNat + r.size.toNat ≤ s.base.toNat + s.size.toNat

/-- The two ranges overlap and neither nests in the other. -/
def Crosses (r s : Range α) : Prop :=
  r.base.toNat < s.base.toNat + s.size.toNat ∧ s.base.toNat < r.base.toNat + r.size.toNat ∧
    ¬ r.Within s ∧ ¬ s.Within r

instance (r s : Range α) : Decidable (r.Crosses s) :=
  inferInstanceAs (Decidable (_ ∧ _ ∧ ¬ (_ ∧ _) ∧ ¬ (_ ∧ _)))

theorem crosses_symm {r s : Range α} (h : r.Crosses s) : s.Crosses r :=
  ⟨h.2.1, h.1, h.2.2.2, h.2.2.1⟩

theorem not_crosses_self (r : Range α) : ¬ r.Crosses r :=
  fun h => h.2.2.1 ⟨Nat.le_refl _, Nat.le_refl _⟩

theorem symmetric_not_crosses : Symmetric fun r s : Range α => ¬ r.Crosses s :=
  fun _ _ h h' => h (crosses_symm h')

/-- Two ranges that hold one address and do not cross are nested. -/
theorem within_or_within {r s : Range α} {a : UInt64} (hr : r.Contains a) (hs : s.Contains a)
    (h : ¬ r.Crosses s) : r.Within s ∨ s.Within r := by
  by_contra hc
  simp only [not_or] at hc
  exact h ⟨by unfold Contains at hr hs; omega, by unfold Contains at hr hs; omega, hc.1, hc.2⟩

/-- The two ranges have no address in common. -/
def Apart (r s : Range α) : Prop :=
  r.base.toNat + r.size.toNat ≤ s.base.toNat ∨ s.base.toNat + s.size.toNat ≤ r.base.toNat

instance (r s : Range α) : Decidable (r.Apart s) := inferInstanceAs (Decidable (_ ∨ _))

theorem Apart.symm {r s : Range α} (h : r.Apart s) : s.Apart r := Or.symm h

theorem Apart.not_crosses {r s : Range α} (h : r.Apart s) : ¬ r.Crosses s := by
  unfold Apart at h
  unfold Crosses
  omega

theorem Apart.not_contains {r s : Range α} {a : UInt64} (h : r.Apart s) (hr : r.Contains a) :
    ¬ s.Contains a := by
  unfold Apart at h
  unfold Contains at hr ⊢
  omega

end Range

/-! ## The containment map -/

/-- Modelled from the spec: the containment range map of contained_range_map.h, which is
not present (§4.3). Ranges may nest but never cross, and a range of size 0 or whose end
`base + size` overflows 64 bits is refused. The most recent range comes first. -/
structure ContainedRangeMap (α : Type) where
  ranges : List (Range α)
  valid : ∀ r ∈ ranges, 0 < r.size.toNat ∧ r.base.toNat + r.size.toNat < 2 ^ 64
  nested : ranges.Pairwise fun r s => ¬ r.Crosses s

namespace ContainedRangeMap
variable {α : Type}

def empty : ContainedRangeMap α := ⟨[], by simp, .nil⟩

/-- `StoreRange`: `none` when the store fails, which leaves the map as it was. -/
def storeRange (m : ContainedRangeMap α) (base size : UInt64) (entry : α) :
    Option (ContainedRangeMap α) :=
  if h : 0 < size.toNat ∧ base.toNat + size.toNat < 2 ^ 64 ∧
      ∀ s ∈ m.ranges, ¬ (Range.mk base size entry).Crosses s then
    some ⟨⟨base, size, entry⟩ :: m.ranges,
      fun r hr => by
        rcases List.mem_cons.mp hr with rfl | hr
        exacts [⟨h.1, h.2.1⟩, m.valid r hr],
      .cons h.2.2 m.nested⟩
  else none

theorem storeRange_ranges {m m' : ContainedRangeMap α} {base size : UInt64} {entry : α}
    (h : m.storeRange base size entry = some m') : m'.ranges = ⟨base, size, entry⟩ :: m.ranges := by
  unfold storeRange at h
  split at h
  · cases h; rfl
  · cases h

/-- `RetrieveRange`: the innermost range holding `a`, that is the smallest, and of equal
ones the most recent. -/
def retrieveRange (m : ContainedRangeMap α) (a : UInt64) : Option (Range α) :=
  (m.ranges.filter fun r => decide (r.Contains a)).foldl
    (pick fun r b => decide (r.size.toNat < b.size.toNat)) none

/-- `RetrieveNearestRange`: the range `retrieveRange` finds; when no range holds `a`, the
nearest one below it: the greatest base `≤ a`, the smaller of equal bases, and of equal
ranges the most recent. -/
def retrieveNearestRange (m : ContainedRangeMap α) (a : UInt64) : Option (Range α) :=
  match m.retrieveRange a with
  | some r => some r
  | none =>
    (m.ranges.filter fun r => decide (r.base.toNat ≤ a.toNat)).foldl
      (pick fun r b => decide (b.base.toNat < r.base.toNat ∨
        r.base.toNat = b.base.toNat ∧ r.size.toNat < b.size.toNat)) none

theorem not_crosses (m : ContainedRangeMap α) {r s : Range α} (hr : r ∈ m.ranges)
    (hs : s ∈ m.ranges) : ¬ r.Crosses s := by
  by_cases e : r = s
  · exact e ▸ Range.not_crosses_self r
  · exact m.nested.forall Range.symmetric_not_crosses hr hs e

theorem retrieveRange_eq_none {m : ContainedRangeMap α} {a : UInt64} :
    m.retrieveRange a = none ↔ ∀ r ∈ m.ranges, ¬ r.Contains a := by
  constructor
  · intro h r hr hc
    rw [retrieveRange, ← Option.not_isSome_iff_eq_none] at h
    exact h (foldl_pick_isSome _ _ none
      (List.ne_nil_of_mem (List.mem_filter.mpr ⟨hr, by simpa using hc⟩)))
  · intro h
    rw [retrieveRange, List.filter_eq_nil_iff.mpr (fun r hr => by simpa using h r hr)]
    rfl

/-- What `retrieveRange` finds holds `a` and lies within every stored range holding `a`. -/
theorem retrieveRange_spec {m : ContainedRangeMap α} {a : UInt64} {r : Range α}
    (h : m.retrieveRange a = some r) :
    r ∈ m.ranges ∧ r.Contains a ∧ ∀ s ∈ m.ranges, s.Contains a → r.Within s := by
  have hmem := (foldl_pick_mem _ _ none h).resolve_left (by simp)
  obtain ⟨hr, hra⟩ := List.mem_filter.mp hmem
  have hra : r.Contains a := by simpa using hra
  have hbest := (foldl_pick_best _ (fun b s => b.size.toNat ≤ s.size.toNat)
    (fun _ => Nat.le_refl _) (fun _ _ _ => Nat.le_trans) (fun _ _ h => by simp at h; omega)
    (fun _ _ h => by simp at h; omega) _ none h).2
  refine ⟨hr, hra, fun s hs hsa => ?_⟩
  have hle := hbest s (List.mem_filter.mpr ⟨hs, by simpa using hsa⟩)
  rcases Range.within_or_within hra hsa (m.not_crosses hr hs) with hw | hw
  · exact hw
  · unfold Range.Within at hw ⊢; omega

theorem retrieveNearestRange_of_retrieveRange {m : ContainedRangeMap α} {a : UInt64}
    {r : Range α} (h : m.retrieveRange a = some r) : m.retrieveNearestRange a = some r := by
  simp [retrieveNearestRange, h]

/-- When no range holds `a`, `retrieveNearestRange` finds one with the greatest base `≤ a`. -/
theorem retrieveNearestRange_spec {m : ContainedRangeMap α} {a : UInt64} {r : Range α}
    (hn : m.retrieveRange a = none) (h : m.retrieveNearestRange a = some r) :
    r ∈ m.ranges ∧ r.base.toNat ≤ a.toNat ∧
      ∀ s ∈ m.ranges, s.base.toNat ≤ a.toNat → s.base.toNat ≤ r.base.toNat := by
  simp only [retrieveNearestRange, hn] at h
  have hmem := (foldl_pick_mem _ _ none h).resolve_left (by simp)
  obtain ⟨hr, hra⟩ := List.mem_filter.mp hmem
  have hbest := (foldl_pick_best _ (fun b s => s.base.toNat ≤ b.base.toNat)
    (fun _ => Nat.le_refl _) (fun _ _ _ h h' => Nat.le_trans h' h) (fun _ _ h => by simp at h; omega)
    (fun _ _ h => by simp at h; omega) _ none h).2
  exact ⟨hr, by simpa using hra, fun s hs hsa => hbest s (List.mem_filter.mpr ⟨hs, by simpa using hsa⟩)⟩

theorem retrieveNearestRange_eq_none {m : ContainedRangeMap α} {a : UInt64} :
    m.retrieveNearestRange a = none ↔ ∀ r ∈ m.ranges, a.toNat < r.base.toNat := by
  constructor
  · intro h r hr
    cases hn : m.retrieveRange a with
    | some s => simp [retrieveNearestRange, hn] at h
    | none =>
      simp only [retrieveNearestRange, hn] at h
      by_contra hle
      rw [← Option.not_isSome_iff_eq_none] at h
      exact h (foldl_pick_isSome _ _ none
        (List.ne_nil_of_mem (List.mem_filter.mpr ⟨hr, by simpa using hle⟩)))
  · intro h
    have hn : m.retrieveRange a = none :=
      retrieveRange_eq_none.mpr fun r hr hc => by have := h r hr; unfold Range.Contains at hc; omega
    rw [retrieveNearestRange, hn, List.filter_eq_nil_iff.mpr fun r hr => by simpa using h r hr]
    rfl

/-! ### Ranges apart

Ranges none of which overlaps another are all stored, in turn, and the one that holds an
address is what `RetrieveRange` finds there. -/

theorem storeRange_of_apart {m : ContainedRangeMap α} {r : Range α}
    (hv : 0 < r.size.toNat ∧ r.base.toNat + r.size.toNat < 2 ^ 64) (h : ∀ s ∈ m.ranges, r.Apart s) :
    ∃ m', m.storeRange r.base r.size r.entry = some m' ∧ m'.ranges = r :: m.ranges := by
  rw [storeRange, dif_pos ⟨hv.1, hv.2, fun s hs => (h s hs).not_crosses⟩]
  exact ⟨_, rfl, rfl⟩

/-- Storing, in turn, ranges that are each non-empty, end below 2^64 and lie apart from one
another and from the map's own keeps them all. -/
theorem ranges_foldl_storeRange : ∀ (rs : List (Range α)) (m : ContainedRangeMap α),
    (∀ r ∈ rs, 0 < r.size.toNat ∧ r.base.toNat + r.size.toNat < 2 ^ 64) →
    (rs.reverse ++ m.ranges).Pairwise Range.Apart →
    (rs.foldl (fun m r => (m.storeRange r.base r.size r.entry).getD m) m).ranges =
      rs.reverse ++ m.ranges
  | [], _, _, _ => rfl
  | r :: rs, m, hv, hp => by
    rw [List.reverse_cons, List.append_assoc, List.singleton_append] at hp
    obtain ⟨m', e, hm'⟩ := storeRange_of_apart (hv r (List.mem_cons_self _ _))
      fun s hs => List.rel_of_pairwise_cons (List.pairwise_append.mp hp).2.1 hs
    rw [List.foldl_cons, e, Option.getD_some,
      ranges_foldl_storeRange rs m' (fun r' hr' => hv r' (List.mem_cons_of_mem _ hr')) (hm' ▸ hp),
      hm', List.reverse_cons, List.append_assoc, List.singleton_append]

/-- Among ranges apart from one another, the one that holds `a` is what `RetrieveRange`
finds. -/
theorem retrieveRange_of_apart {m : ContainedRangeMap α} (hp : m.ranges.Pairwise Range.Apart)
    {r : Range α} (hr : r ∈ m.ranges) {a : UInt64} (ha : r.Contains a) :
    m.retrieveRange a = some r := by
  cases h : m.retrieveRange a with
  | none => exact absurd ha (retrieveRange_eq_none.mp h r hr)
  | some r' =>
    obtain ⟨hr', hra, -⟩ := retrieveRange_spec h
    by_contra hne
    exact (hp.forall (fun _ _ => Range.Apart.symm) hr' hr fun e => hne (congrArg some e)).not_contains
      hra ha

/-- Among ranges apart from one another, `RetrieveRange` finds the range holding `a` that
a search of any list of the map's ranges finds. -/
theorem retrieveRange_eq_find? {m : ContainedRangeMap α} (hp : m.ranges.Pairwise Range.Apart)
    {l : List (Range α)} (hl : ∀ r, r ∈ l ↔ r ∈ m.ranges) (a : UInt64) :
    m.retrieveRange a = l.find? fun r => r.Contains a := by
  cases h : l.find? fun r => r.Contains a with
  | none =>
    exact retrieveRange_eq_none.mpr fun r hr hc =>
      List.find?_eq_none.mp h r ((hl r).mpr hr) (decide_eq_true hc)
  | some r =>
    have hc := List.find?_some h
    exact retrieveRange_of_apart hp ((hl r).mp (List.mem_of_find?_eq_some h)) (of_decide_eq_true hc)

end ContainedRangeMap

/-! ## The map of public symbols -/

/-- Modelled from the spec: the flat map of public symbols of address_map.h, which is not
present (§4.3). It is keyed by address; `Store` refuses an address already present. -/
structure AddressMap (α : Type) where
  entries : List (UInt64 × α)
  nodup : (entries.map Prod.fst).Nodup

namespace AddressMap
variable {α : Type}

def empty : AddressMap α := ⟨[], List.nodup_nil⟩

def store (m : AddressMap α) (a : UInt64) (e : α) : Option (AddressMap α) :=
  if h : a ∈ m.entries.map Prod.fst then none
  else some ⟨(a, e) :: m.entries, List.nodup_cons.mpr ⟨h, m.nodup⟩⟩

/-- `Retrieve`: the entry with the greatest address `≤ a`. -/
def retrieve (m : AddressMap α) (a : UInt64) : Option (UInt64 × α) :=
  (m.entries.filter fun e => decide (e.1.toNat ≤ a.toNat)).foldl
    (pick fun e b => decide (b.1.toNat < e.1.toNat)) none

theorem retrieve_spec {m : AddressMap α} {a : UInt64} {e : UInt64 × α}
    (h : m.retrieve a = some e) :
    e ∈ m.entries ∧ e.1.toNat ≤ a.toNat ∧
      ∀ f ∈ m.entries, f.1.toNat ≤ a.toNat → f.1.toNat ≤ e.1.toNat := by
  have hmem := (foldl_pick_mem _ _ none h).resolve_left (by simp)
  obtain ⟨he, hea⟩ := List.mem_filter.mp hmem
  have hbest := (foldl_pick_best _ (fun b f => f.1.toNat ≤ b.1.toNat)
    (fun _ => Nat.le_refl _) (fun _ _ _ h h' => Nat.le_trans h' h)
    (fun _ _ h => by simp at h; omega) (fun _ _ h => by simp at h; omega) _ none h).2
  exact ⟨he, by simpa using hea, fun f hf hfa => hbest f (List.mem_filter.mpr ⟨hf, by simpa using hfa⟩)⟩

theorem retrieve_eq_none {m : AddressMap α} {a : UInt64} :
    m.retrieve a = none ↔ ∀ e ∈ m.entries, a.toNat < e.1.toNat := by
  constructor
  · intro h e he
    by_contra hle
    rw [retrieve, ← Option.not_isSome_iff_eq_none] at h
    exact h (foldl_pick_isSome _ _ none
      (List.ne_nil_of_mem (List.mem_filter.mpr ⟨he, by simpa using hle⟩)))
  · intro h
    rw [retrieve, List.filter_eq_nil_iff.mpr fun e he => by simpa using h e he]
    rfl

end AddressMap

/-! ## `std::map` -/

/-- `m[k] = v` on entries in ascending key order. -/
def assignEntry {α : Type} (k : UInt64) (v : α) : List (UInt64 × α) → List (UInt64 × α)
  | [] => [(k, v)]
  | (k', v') :: rest =>
    if k.toNat < k'.toNat then (k, v) :: (k', v') :: rest
    else if k = k' then (k, v) :: rest
    else (k', v') :: assignEntry k v rest

theorem mem_assignEntry {α : Type} (k : UInt64) (v : α) :
    ∀ {l : List (UInt64 × α)} {x}, x ∈ assignEntry k v l → x = (k, v) ∨ x ∈ l
  | [], x, h => by simpa [assignEntry] using h
  | (k', v') :: rest, x, h => by
    unfold assignEntry at h
    split at h
    · simpa using h
    · split at h
      · rcases List.mem_cons.mp h with rfl | h
        exacts [.inl rfl, .inr (List.mem_cons_of_mem _ h)]
      · rcases List.mem_cons.mp h with rfl | h
        · exact .inr (List.mem_cons_self _ _)
        · exact (mem_assignEntry k v h).imp_right (List.mem_cons_of_mem _)

theorem assignEntry_sorted {α : Type} (k : UInt64) (v : α) :
    ∀ {l : List (UInt64 × α)}, l.Pairwise (fun x y => x.1.toNat < y.1.toNat) →
      (assignEntry k v l).Pairwise fun x y => x.1.toNat < y.1.toNat
  | [], _ => by simp [assignEntry]
  | (k', v') :: rest, h => by
    obtain ⟨hk', hrest⟩ := List.pairwise_cons.mp h
    unfold assignEntry
    split
    next hlt =>
      exact .cons (fun y hy => by
        rcases List.mem_cons.mp hy with rfl | hy
        exacts [hlt, Nat.lt_trans hlt (hk' y hy)]) h
    next hge =>
      split
      next he => subst k'; exact .cons hk' hrest
      next hne =>
        refine .cons (fun y hy => ?_) (assignEntry_sorted k v hrest)
        rcases mem_assignEntry k v hy with rfl | hy
        · have : k.toNat ≠ k'.toNat := fun e => hne (UInt64.toNat.inj e)
          simp only; omega
        · exact hk' y hy

theorem lookup_cons_eq_ite {α : Type} (a k : UInt64) (b : α) (l : List (UInt64 × α)) :
    ((a, b) :: l).lookup k = if k = a then some b else l.lookup k := by
  rw [List.lookup_cons]
  by_cases h : k = a
  · simp [h]
  · rw [if_neg h, show (k == a) = false from beq_false_of_ne h]

/-- `m[k] = v` finds `v` at `k` and what it found before at every other key. -/
theorem lookup_assignEntry {α : Type} (k : UInt64) (v : α) (k' : UInt64) :
    ∀ l : List (UInt64 × α), (assignEntry k v l).lookup k' = if k' = k then some v else l.lookup k'
  | [] => by rw [assignEntry, lookup_cons_eq_ite]
  | (j, w) :: rest => by
    unfold assignEntry
    split
    · rw [lookup_cons_eq_ite]
    · split
      · next he => subst he; simp only [lookup_cons_eq_ite]; split <;> rfl
      · next hne =>
        simp only [lookup_cons_eq_ite, lookup_assignEntry k v k' rest]
        by_cases h : k' = k
        · subst h; simp [hne]
        · simp [h]

/-- In a list in ascending key order, an entry is present exactly where its key finds
it. -/
theorem mem_iff_lookup {α : Type} :
    ∀ {l : List (UInt64 × α)}, l.Pairwise (fun x y => x.1.toNat < y.1.toNat) →
      ∀ x, x ∈ l ↔ l.lookup x.1 = some x.2
  | [], _, _ => ⟨nofun, nofun⟩
  | y :: l, h, x => by
    obtain ⟨hy, hl⟩ := List.pairwise_cons.mp h
    rw [List.mem_cons, List.lookup_cons]
    by_cases hk : x.1 = y.1
    · have hx : x ∉ l := fun hx => absurd (hy x hx) (by rw [hk]; exact Nat.lt_irrefl _)
      simp only [hk, beq_self_eq_true, Option.some.injEq, hx, or_false]
      exact ⟨fun e => e ▸ rfl, fun e => Prod.ext hk e.symm⟩
    · have hne : (x.1 == y.1) = false := by simpa using hk
      simp only [hne, ← mem_iff_lookup hl x]
      exact ⟨fun h => h.resolve_left fun e => hk (e ▸ rfl), .inr⟩

section Sorted
variable {β : Type} {R : β → β → Prop}

/-- On a list ordered by `R`, a test that holds of every element before one it holds of
keeps the same elements taken from the front as filtered. -/
theorem takeWhile_eq_filter {q : β → Bool} (hq : ∀ x y, R x y → q y = true → q x = true) :
    ∀ {l : List β}, l.Pairwise R → l.takeWhile q = l.filter q
  | [], _ => rfl
  | x :: l, h => by
    obtain ⟨hx, hl⟩ := List.pairwise_cons.mp h
    by_cases hqx : q x = true
    · simp [List.takeWhile_cons, List.filter_cons, hqx, takeWhile_eq_filter hq hl]
    · have : l.filter q = [] := List.filter_eq_nil_iff.mpr fun y hy hqy => hqx (hq x y (hx y hy) hqy)
      simp [List.takeWhile_cons, List.filter_cons, hqx, this]

/-- On a list ordered by `R`, a test that fails of every element after one it fails of
drops the same elements from the front as it filters. -/
theorem dropWhile_eq_filter {p : β → Bool} (hp : ∀ x y, R x y → p y = true → p x = true) :
    ∀ {l : List β}, l.Pairwise R → l.dropWhile p = l.filter fun x => !p x
  | [], _ => rfl
  | x :: l, h => by
    obtain ⟨hx, hl⟩ := List.pairwise_cons.mp h
    by_cases hpx : p x = true
    · simp [List.dropWhile_cons, List.filter_cons, hpx, dropWhile_eq_filter hp hl]
    · have : l.filter (fun x => !p x) = l :=
        List.filter_eq_self.mpr fun y hy => by simpa using fun hpy => hpx (hp x y (hx y hy) hpy)
      simp [List.dropWhile_cons, List.filter_cons, hpx, this]

theorem takeWhile_prefix {q q' : β → Bool} (h : ∀ x, q x = true → q' x = true) :
    ∀ l : List β, l.takeWhile q <+: l.takeWhile q'
  | [] => List.prefix_refl _
  | x :: l => by
    by_cases hx : q x = true
    · simpa [List.takeWhile_cons, hx, h x hx] using takeWhile_prefix h l
    · simp [List.takeWhile_cons, hx]

end Sorted

/-- `std::map<MemAddr, α>`: entries in strictly ascending key order. -/
structure StdMap (α : Type) where
  entries : List (UInt64 × α)
  sorted : entries.Pairwise fun x y => x.1.toNat < y.1.toNat

namespace StdMap
variable {α : Type}

def empty : StdMap α := ⟨[], .nil⟩

/-- `m[k] = v`. -/
def assign (m : StdMap α) (k : UInt64) (v : α) : StdMap α :=
  ⟨assignEntry k v m.entries, assignEntry_sorted k v m.sorted⟩

theorem lookup_assign (m : StdMap α) (k : UInt64) (v : α) (k' : UInt64) :
    (m.assign k v).entries.lookup k' = if k' = k then some v else m.entries.lookup k' :=
  lookup_assignEntry k v k' m.entries

/-- `lower_bound (k)`, as the entries from it to the end. -/
def lowerBound (m : StdMap α) (k : UInt64) : List (UInt64 × α) :=
  m.entries.dropWhile fun e => decide (e.1.toNat < k.toNat)

end StdMap

end SourceLineResolver.RangeMap
