import Mathlib.Data.List.Sort
import Mathlib.Order.Basic
import RoutineChain.Lib.Bincode
import Std.Data.ExtTreeMap
import Std.Data.ExtTreeMap.Lemmas

/-!
# Scanning an ordered map by key prefix

Keys are lists in lexicographic order, as in a byte store. The keys with a given prefix are
an interval that starts at the prefix, so a scan from the prefix up to the first key without
it meets exactly these.

* `scan_eq_filter`: the scan of a sorted list of entries is the filter by prefix.
* `compare_serialize`: big-endian bytes are ordered as the numbers are.
-/

namespace PrefixScan

open Std

section Order

variable {α β : Type*} [Ord α]

theorem compare_cons (a b : α) (l l' : List α) :
    compare (a :: l) (b :: l') = (compare a b).then (compare l l') :=
  List.compareLex_cons_cons

/-- Parts of equal length are compared first. -/
theorem compare_append {l l' : List α} (hlen : l.length = l'.length) (s s' : List α) :
    compare (l ++ s) (l' ++ s') = (compare l l').then (compare s s') := by
  induction l generalizing l' with
  | nil =>
    rw [List.length_nil] at hlen
    rw [List.eq_nil_of_length_eq_zero hlen.symm]
    rfl
  | cons a l ih =>
    cases l' with
    | nil => cases hlen
    | cons b l' =>
      rw [List.cons_append, List.cons_append, compare_cons, compare_cons,
        ih (Nat.succ.inj hlen), Ordering.then_assoc]

variable [LawfulEqOrd α]

/-- No key with the prefix comes before it. -/
theorem not_lt_of_prefix {p k : List α} (h : p <+: k) : compare k p ≠ .lt := by
  obtain ⟨s, rfl⟩ := h
  have hp : compare p p = .eq := ReflOrd.compare_self
  have hs : compare s [] ≠ .lt := by
    cases s with
    | nil => exact Ordering.noConfusion
    | cons => exact Ordering.noConfusion
  have hcmp : compare (p ++ s) (p ++ []) = compare s [] := by
    rw [compare_append rfl, hp]
    rfl
  rw [List.append_nil] at hcmp
  rwa [hcmp]

/-- **Keys with a prefix are an interval**: what lies between the prefix and one of them has
the prefix too. -/
theorem prefix_of_between {p k k' : List α} (hp : compare k p ≠ .lt)
    (hk : compare k k' = .lt) (h : p <+: k') : p <+: k := by
  induction p generalizing k k' with
  | nil => exact List.nil_prefix
  | cons a p ih =>
    obtain ⟨s, rfl⟩ := h
    cases k with
    | nil => exact absurd rfl hp
    | cons b k =>
      rw [List.cons_append, compare_cons] at hk
      rw [compare_cons] at hp
      cases hab : compare b a with
      | lt =>
        rw [hab] at hp
        exact absurd rfl hp
      | gt =>
        rw [hab] at hk
        cases hk
      | eq =>
        rw [hab] at hp hk
        rw [LawfulEqOrd.eq_of_compare hab]
        exact List.cons_prefix_cons.2 ⟨rfl, ih hp hk ⟨s, rfl⟩⟩

/-- Entries in the order of their keys are determined as a set. -/
theorem eq_of_mem_iff [TransOrd α] {l l' : List (List α × β)}
    (hl : l.Pairwise fun e e' => compare e.1 e'.1 = .lt)
    (hl' : l'.Pairwise fun e e' => compare e.1 e'.1 = .lt) (h : ∀ e, e ∈ l ↔ e ∈ l') : l = l' := by
  have hirrefl : Irrefl fun e e' : List α × β => compare e.1 e'.1 = .lt :=
    ⟨fun e hlt => Ordering.noConfusion (ReflOrd.compare_self.symm.trans hlt)⟩
  have hanti : Antisymm fun e e' : List α × β => compare e.1 e'.1 = .lt :=
    ⟨fun e e' hlt hlt' => absurd (TransCmp.lt_trans hlt hlt') (hirrefl.irrefl e)⟩
  exact List.Pairwise.eq_of_mem_iff hl hl' h

variable [BEq α] [LawfulBEq α]

/-- From an entry on that is not before the prefix, the entries with the prefix come first. -/
theorem takeWhile_eq_filter {p : List α} {l : List (List α × β)}
    (hl : l.Pairwise fun e e' => compare e.1 e'.1 = .lt)
    (hp : ∀ e ∈ l, compare e.1 p ≠ .lt) :
    l.takeWhile (fun e => p.isPrefixOf e.1) = l.filter (fun e => p.isPrefixOf e.1) := by
  induction l with
  | nil => rfl
  | cons e l ih =>
    obtain ⟨he, hl⟩ := List.pairwise_cons.1 hl
    by_cases hpre : p.isPrefixOf e.1
    · have htail := ih hl fun e' he' => hp e' (.tail _ he')
      simp only [List.takeWhile_cons, List.filter_cons, hpre, if_true, htail]
    · have hnone : ∀ e' ∈ l, ¬ p.isPrefixOf e'.1 := by
        intro e' he' hpre'
        refine hpre (List.isPrefixOf_iff_prefix.2 ?_)
        exact prefix_of_between (hp e (.head _)) (he e' he') (List.isPrefixOf_iff_prefix.1 hpre')
      have hnil : l.filter (fun e => p.isPrefixOf e.1) = [] := List.filter_eq_nil_iff.2 hnone
      simp only [List.takeWhile_cons, List.filter_cons, if_neg hpre, hnil]

/-- **A scan meets exactly the entries with the prefix.** -/
theorem scan_eq_filter [TransOrd α] (p : List α) {l : List (List α × β)}
    (hl : l.Pairwise fun e e' => compare e.1 e'.1 = .lt) :
    (l.dropWhile fun e => compare e.1 p = .lt).takeWhile (fun e => p.isPrefixOf e.1) =
      l.filter fun e => p.isPrefixOf e.1 := by
  induction l with
  | nil => rfl
  | cons e l ih =>
    obtain ⟨he, htail⟩ := List.pairwise_cons.1 hl
    by_cases hlt : compare e.1 p = .lt
    · have hpre : ¬ p.isPrefixOf e.1 := fun hpre =>
        not_lt_of_prefix (List.isPrefixOf_iff_prefix.1 hpre) hlt
      simp only [List.dropWhile_cons, List.filter_cons, if_neg hpre, hlt, decide_true, if_true,
        ih htail]
    · have hafter : ∀ e' ∈ e :: l, compare e'.1 p ≠ .lt := by
        intro e' he' hlt'
        rcases List.mem_cons.1 he' with rfl | he'
        · exact hlt hlt'
        · exact hlt (TransCmp.lt_trans (he e' he') hlt')
      simp only [List.dropWhile_cons, hlt, decide_false, Bool.false_eq_true, if_false]
      exact takeWhile_eq_filter hl hafter

end Order

/-! ## Big-endian bytes -/

section Bytes

open Bincode

theorem compare_ofNat {m k : ℕ} (hm : m < 256) (hk : k < 256) :
    compare (UInt8.ofNat m) (UInt8.ofNat k) = compare m k := by
  have hm' : (UInt8.ofNat m).toNat = m := UInt8.toNat_ofNat_of_lt' hm
  have hk' : (UInt8.ofNat k).toNat = k := UInt8.toNat_ofNat_of_lt' hk
  simp only [compare, compareOfLessAndEq, UInt8.lt_iff_toNat_lt, ← UInt8.toNat_inj, hm', hk']

/-- The quotients are compared first, then the remainders. -/
theorem compare_div_mod (x y : ℕ) :
    (compare (x / 256) (y / 256)).then (compare (x % 256) (y % 256)) = compare x y := by
  have hx := Nat.div_add_mod x 256
  have hy := Nat.div_add_mod y 256
  have hmx := Nat.mod_lt x (show 256 > 0 by decide)
  have hmy := Nat.mod_lt y (show 256 > 0 by decide)
  rcases Nat.lt_trichotomy (x / 256) (y / 256) with hlt | heq | hgt
  · rw [Nat.compare_eq_lt.2 hlt, Nat.compare_eq_lt.2 (show x < y by omega)]
    rfl
  · rw [Nat.compare_eq_eq.2 heq]
    rcases Nat.lt_trichotomy (x % 256) (y % 256) with hlt | heq' | hgt
    · rw [Nat.compare_eq_lt.2 hlt, Nat.compare_eq_lt.2 (show x < y by omega)]
      rfl
    · rw [Nat.compare_eq_eq.2 heq', Nat.compare_eq_eq.2 (show x = y by omega)]
      rfl
    · rw [Nat.compare_eq_gt.2 hgt, Nat.compare_eq_gt.2 (show y < x by omega)]
      rfl
  · rw [Nat.compare_eq_gt.2 hgt, Nat.compare_eq_gt.2 (show y < x by omega)]
    rfl

/-- Bytes of numbers are compared as the numbers, most significant byte first. -/
theorem compare_reverse_leBytes {n x y : ℕ} (hx : x < 256 ^ n) (hy : y < 256 ^ n) :
    compare (leBytes n x).reverse (leBytes n y).reverse = compare x y := by
  induction n generalizing x y with
  | zero =>
    have hxy : x = y := by omega
    rw [hxy]
    exact (Nat.compare_eq_eq.2 rfl).symm
  | succ n ih =>
    rw [pow_succ] at hx hy
    have hlen : (leBytes n (x / 256)).reverse.length = (leBytes n (y / 256)).reverse.length := by
      simp
    have hlow : compare [UInt8.ofNat (x % 256)] [UInt8.ofNat (y % 256)] =
        compare (x % 256) (y % 256) := by
      rw [compare_cons, compare_ofNat (Nat.mod_lt _ (by decide)) (Nat.mod_lt _ (by decide))]
      exact Ordering.then_eq
    rw [leBytes, leBytes, List.reverse_cons, List.reverse_cons, compare_append hlen,
      ih (Nat.div_lt_of_lt_mul (by omega)) (Nat.div_lt_of_lt_mul (by omega)), hlow,
      compare_div_mod]

/-- **Byte arrays are ordered as their bytes.** -/
theorem compare_serialize {w : ℕ} (hw : w % 8 = 0) (x y : BitVec w) :
    compare (serialize x) (serialize y) = compare x y := by
  have hsize : 256 ^ (w / 8) = 2 ^ w := by
    rw [show (256 : ℕ) = 2 ^ 8 from rfl, ← pow_mul]
    congr 1
    omega
  have hbits : compare x y = compare x.toNat y.toNat := by
    simp only [compare, compareOfLessAndEq, BitVec.lt_def, BitVec.toNat_inj]
  rw [hbits]
  exact compare_reverse_leBytes (hsize ▸ x.isLt) (hsize ▸ y.isLt)

end Bytes

end PrefixScan
