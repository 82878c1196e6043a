import Mathlib.Algebra.Group.Nat.Defs
import Mathlib.Algebra.GroupWithZero.Nat
import Mathlib.Data.List.Basic

/-!
# The default bincode 1 encoding

Integers are little-endian and of fixed width, lengths are `u64` prefixes, enum
variants are `u32` tags, an option is a one-byte tag, and a fixed byte array has no
length. `serialize` writes the fields of a record one after the other.
-/

namespace Bincode

/-- The `n` low bytes of `x`, least significant first. -/
def leBytes : ℕ → ℕ → List UInt8
  | 0, _ => []
  | n + 1, x => .ofNat (x % 256) :: leBytes n (x / 256)

@[simp] theorem length_leBytes (n x : ℕ) : (leBytes n x).length = n := by
  induction n generalizing x with
  | zero => rfl
  | succ n ih => rw [leBytes, List.length_cons, ih]

/-- A value with a bincode encoding. -/
class Serialize (α : Type*) where
  serialize : α → List UInt8

export Serialize (serialize)

instance : Serialize UInt8 := ⟨fun x => [x]⟩
instance : Serialize UInt16 := ⟨fun x => leBytes 2 x.toNat⟩
instance : Serialize UInt32 := ⟨fun x => leBytes 4 x.toNat⟩
instance : Serialize UInt64 := ⟨fun x => leBytes 8 x.toNat⟩
instance : Serialize Int64 := ⟨fun x => leBytes 8 x.toUInt64.toNat⟩
instance : Serialize Bool := ⟨fun x => [if x then 1 else 0]⟩

/-- A byte array read big-endian: its most significant byte is written first. -/
instance {w : ℕ} : Serialize (BitVec w) := ⟨fun x => (leBytes (w / 8) x.toNat).reverse⟩

/-- A slice of bytes, behind its length. -/
def bytes (bs : List UInt8) : List UInt8 := serialize (UInt64.ofNat bs.length) ++ bs

instance : Serialize String := ⟨fun s => bytes s.toByteArray.data.toList⟩

instance {α : Type*} [Serialize α] : Serialize (List α) :=
  ⟨fun xs => serialize (UInt64.ofNat xs.length) ++ xs.flatMap serialize⟩

instance {α : Type*} [Serialize α] : Serialize (Option α) :=
  ⟨fun x => match x with
    | none => [0]
    | some a => 1 :: serialize a⟩

/-- The tag of variant number `i` of an enum. -/
def tag (i : UInt32) : List UInt8 := serialize i

/-! ## Lengths -/

theorem length_uint64 (x : UInt64) : (serialize x).length = 8 := length_leBytes 8 x.toNat

theorem length_int64 (x : Int64) : (serialize x).length = 8 := length_leBytes 8 x.toUInt64.toNat

theorem length_uint32 (x : UInt32) : (serialize x).length = 4 := length_leBytes 4 x.toNat

theorem length_tag (i : UInt32) : (tag i).length = 4 := length_uint32 i

theorem length_bitVec {w : ℕ} (x : BitVec w) : (serialize x).length = w / 8 := by
  show (leBytes (w / 8) x.toNat).reverse.length = w / 8
  rw [List.length_reverse, length_leBytes]

theorem length_bytes (bs : List UInt8) : (bytes bs).length = 8 + bs.length := by
  rw [bytes, List.length_append, length_uint64]

theorem length_string (t : String) : (serialize t).length = 8 + t.utf8ByteSize := by
  show (bytes t.toByteArray.data.toList).length = _
  rw [length_bytes, Array.length_toList]
  rfl

theorem length_list {α : Type*} [Serialize α] (as : List α) :
    (serialize as).length = 8 + (as.map fun a => (serialize a).length).sum := by
  show (serialize (UInt64.ofNat as.length) ++ as.flatMap serialize).length = _
  rw [List.length_append, length_uint64, List.length_flatMap]

/-! ## Encodings that end by themselves

Values of one type behind which anything can follow: the bytes say where they stop. -/

/-- The encoding of a value can be told from what follows it. -/
class Delimited (α : Type*) [Serialize α] : Prop where
  cancel : ∀ {a a' : α} {s s' : List UInt8},
    serialize a ++ s = serialize a' ++ s' → a = a' ∧ s = s'

theorem Delimited.injective (α : Type*) [Serialize α] [Delimited α] :
    Function.Injective (serialize : α → List UInt8) := by
  intro a a' h
  have hnil : serialize a ++ [] = serialize a' ++ [] := by rw [h]
  exact (Delimited.cancel hnil).1

end Bincode
