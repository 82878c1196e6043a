import RoutineChain.Lib.Bincode

/-!
# Decoding bincode

A decoder reads a value off the front of the bytes and leaves the rest. `fromBytes` is
`bincode::deserialize`: it ignores what is left over.

* `RoundTrips a`: what is written for `a` is read back as `a`, whatever follows.
* `Codec`: types all of whose values round trip. A string or a list does if its length is
  one that a `u64` holds.
* `RoundTrips.cancel`: so the bytes of such values say where they stop.
* `flatMap_cancel`: so a stream of them determines them.
* `Dense`: types of fixed width, where all bytes of that length are an encoding.
-/

namespace Bincode

/-- Why bytes do not decode. -/
inductive DecodeError where
  | unexpectedEof
  | invalidBool (byte : UInt8)
  | invalidTag (byte : UInt8)
  | invalidVariant (index : UInt32)
  | invalidUtf8
  | custom (message : String)
  deriving DecidableEq, Repr

/-- A decoder: it consumes bytes, and it can fail. -/
abbrev Decoder := StateT (List UInt8) (Except DecodeError)

/-- A value with a bincode decoding. -/
class Deserialize (α : Type) where
  deserialize : Decoder α

export Deserialize (deserialize)

/-- The bytes are rejected. -/
def Decoder.Fails {α : Type} (d : Decoder α) (bs : List UInt8) : Prop := ∃ e, d.run bs = .error e

/-- Decode a value off the front of some bytes. -/
def fromBytes (α : Type) [Deserialize α] (bs : List UInt8) : Except DecodeError α :=
  (·.1) <$> (deserialize : Decoder α).run bs

/-! ## Decoders -/

def readByte : Decoder UInt8 := fun
  | [] => .error .unexpectedEof
  | b :: bs => .ok (b, bs)

def readBytes (n : ℕ) : Decoder (List UInt8) := fun bs =>
  if bs.length < n then .error .unexpectedEof else .ok (bs.take n, bs.drop n)

/-- The number that bytes spell, least significant first. -/
def leNat : List UInt8 → ℕ
  | [] => 0
  | b :: bs => b.toNat + 256 * leNat bs

instance : Deserialize UInt8 := ⟨readByte⟩
instance : Deserialize UInt16 := ⟨return .ofNat (leNat (← readBytes 2))⟩
instance : Deserialize UInt32 := ⟨return .ofNat (leNat (← readBytes 4))⟩
instance : Deserialize UInt64 := ⟨return .ofNat (leNat (← readBytes 8))⟩
instance : Deserialize Int64 := ⟨return (UInt64.ofNat (leNat (← readBytes 8))).toInt64⟩

instance : Deserialize Bool := ⟨do
  match ← readByte with
  | 0 => return false
  | 1 => return true
  | b => throw (.invalidBool b)⟩

instance {w : ℕ} : Deserialize (BitVec w) :=
  ⟨return .ofNat w (leNat (← readBytes (w / 8)).reverse)⟩

/-- A slice of bytes, behind its length. -/
def readSlice : Decoder (List UInt8) := do
  let n : UInt64 ← deserialize
  readBytes n.toNat

def decodeUtf8 (bs : List UInt8) : Decoder String :=
  match String.fromUTF8? ⟨bs.toArray⟩ with
  | some s => return s
  | none => throw .invalidUtf8

instance : Deserialize String := ⟨readSlice >>= decodeUtf8⟩

/-- A counted run of elements. -/
def readMany (α : Type) [Deserialize α] : ℕ → Decoder (List α)
  | 0 => return []
  | n + 1 => do
    let a ← deserialize
    let as ← readMany α n
    return a :: as

instance {α : Type} [Deserialize α] : Deserialize (List α) := ⟨do
  let n : UInt64 ← deserialize
  readMany α n.toNat⟩

instance {α : Type} [Deserialize α] : Deserialize (Option α) := ⟨do
  match ← readByte with
  | 0 => return none
  | 1 =>
    let a ← deserialize
    return some a
  | b => throw (.invalidTag b)⟩

/-! ## Round trips -/

section Laws

variable {α β : Type} [Serialize α] [Deserialize α]

/-- What is written for a value is read back, whatever follows. -/
def RoundTrips (a : α) : Prop :=
  ∀ s, (deserialize : Decoder α).run (serialize a ++ s) = .ok (a, s)

/-- Every value round trips. -/
class Codec (α : Type) [Serialize α] [Deserialize α] : Prop where
  roundTrips : ∀ a : α, RoundTrips a

theorem roundTrips [Codec α] (a : α) : RoundTrips a := Codec.roundTrips a

theorem RoundTrips.fromBytes {a : α} (h : RoundTrips a) (s : List UInt8) :
    fromBytes α (serialize a ++ s) = .ok a := by
  rw [Bincode.fromBytes, h s]
  rfl

/-- **Decoding undoes encoding.** -/
theorem RoundTrips.decode {a : α} (h : RoundTrips a) :
    Bincode.fromBytes α (serialize a) = .ok a := by
  rw [← List.append_nil (serialize a), h.fromBytes]

/-- **The bytes of a value that round trips can be told from what follows.** -/
theorem RoundTrips.cancel {a a' : α} (h : RoundTrips a) (h' : RoundTrips a') {s s' : List UInt8}
    (he : serialize a ++ s = serialize a' ++ s') : a = a' ∧ s = s' := by
  have hread := h s
  rw [he, h' s', Except.ok.injEq, Prod.mk.injEq] at hread
  exact ⟨hread.1.symm, hread.2.symm⟩

theorem RoundTrips.eq {a a' : α} (h : RoundTrips a) (h' : RoundTrips a')
    (he : serialize a = serialize a') : a = a' := by
  have hnil : serialize a ++ [] = serialize a' ++ [] := by rw [he]
  exact (h.cancel h' hnil).1

instance [Codec α] : Delimited α := ⟨fun h => (roundTrips _).cancel (roundTrips _) h⟩

/-- A field that round trips, read in front of other fields. -/
theorem RoundTrips.bind {a : α} (h : RoundTrips a) (f : α → Decoder β) (s : List UInt8) :
    (deserialize >>= f).run (serialize a ++ s) = (f a).run s := by
  rw [StateT.run_bind, h s]
  rfl

omit [Serialize α] [Deserialize α] in
theorem Decoder.Fails.bind {d : Decoder α} {bs : List UInt8} (h : d.Fails bs) (f : α → Decoder β) :
    (d >>= f).Fails bs := by
  obtain ⟨e, he⟩ := h
  refine ⟨e, ?_⟩
  rw [StateT.run_bind, he]
  rfl

end Laws

/-! ## Values of fixed width -/

section Fixed

theorem leNat_leBytes {n x : ℕ} (hx : x < 256 ^ n) : leNat (leBytes n x) = x := by
  induction n generalizing x with
  | zero =>
    have hzero : x = 0 := by omega
    rw [hzero]
    rfl
  | succ n ih =>
    rw [pow_succ] at hx
    have hhigh : leNat (leBytes n (x / 256)) = x / 256 := ih (Nat.div_lt_of_lt_mul (by omega))
    have hlow : (UInt8.ofNat (x % 256)).toNat = x % 256 :=
      UInt8.toNat_ofNat_of_lt' (Nat.mod_lt _ (by decide))
    rw [leBytes, leNat, hhigh, hlow]
    exact Nat.mod_add_div x 256

/-- A run of bytes of known length. -/
theorem run_readBytes {n : ℕ} {bs : List UInt8} (hn : bs.length = n) (s : List UInt8) :
    (readBytes n).run (bs ++ s) = .ok (bs, s) := by
  subst hn
  have henough : ¬ (bs ++ s).length < bs.length := by
    rw [List.length_append]
    omega
  rw [StateT.run, readBytes, if_neg henough, List.take_left, List.drop_left]

/-- A number behind which anything can follow. -/
theorem run_readBytes_bind {n : ℕ} {bs : List UInt8} {β : Type} (hn : bs.length = n)
    (f : List UInt8 → Decoder β) (s : List UInt8) :
    (readBytes n >>= f).run (bs ++ s) = (f bs).run s := by
  rw [StateT.run_bind, run_readBytes hn]
  rfl

instance : Codec UInt8 := ⟨fun _ _ => rfl⟩

instance : Codec UInt16 := ⟨fun x s => by
  show ((readBytes 2) >>= _).run (leBytes 2 x.toNat ++ s) = _
  rw [run_readBytes_bind (length_leBytes 2 x.toNat), leNat_leBytes x.toNat_lt, UInt16.ofNat_toNat]
  rfl⟩

instance : Codec UInt32 := ⟨fun x s => by
  show ((readBytes 4) >>= _).run (leBytes 4 x.toNat ++ s) = _
  rw [run_readBytes_bind (length_leBytes 4 x.toNat), leNat_leBytes x.toNat_lt, UInt32.ofNat_toNat]
  rfl⟩

instance : Codec UInt64 := ⟨fun x s => by
  show ((readBytes 8) >>= _).run (leBytes 8 x.toNat ++ s) = _
  rw [run_readBytes_bind (length_leBytes 8 x.toNat), leNat_leBytes x.toNat_lt, UInt64.ofNat_toNat]
  rfl⟩

instance : Codec Int64 := ⟨fun x s => by
  show ((readBytes 8) >>= _).run (leBytes 8 x.toUInt64.toNat ++ s) = _
  rw [run_readBytes_bind (length_leBytes 8 _), leNat_leBytes x.toUInt64.toNat_lt,
    UInt64.ofNat_toNat, x.toInt64_toUInt64]
  rfl⟩

instance : Codec Bool := ⟨fun x s => by cases x <;> rfl⟩

/-- A byte array is the number that its bytes spell, if its width is a whole number of
bytes. -/
theorem ofNat_serialize {w : ℕ} (hw : w % 8 = 0) (x : BitVec w) :
    BitVec.ofNat w (leNat (serialize x).reverse) = x := by
  have hsize : 256 ^ (w / 8) = 2 ^ w := by
    rw [show (256 : ℕ) = 2 ^ 8 from rfl, ← pow_mul]
    congr 1
    omega
  show BitVec.ofNat w (leNat (leBytes (w / 8) x.toNat).reverse.reverse) = x
  rw [List.reverse_reverse, leNat_leBytes (hsize ▸ x.isLt), BitVec.ofNat_toNat, BitVec.setWidth_eq]

theorem Codec.bitVec {w : ℕ} (hw : w % 8 = 0) : Codec (BitVec w) := by
  refine ⟨fun x s => ?_⟩
  show ((readBytes (w / 8)) >>= _).run (serialize x ++ s) = _
  rw [run_readBytes_bind (length_bitVec x), ofNat_serialize hw]
  rfl

end Fixed

/-! ## Bytes that are always an encoding -/

section Dense

theorem leNat_lt (bs : List UInt8) : leNat bs < 256 ^ bs.length := by
  induction bs with
  | nil => decide
  | cons b bs ih =>
    have hb := b.toNat_lt
    rw [leNat, List.length_cons, pow_succ]
    omega

/-- The bytes that spell a number are its low bytes. -/
theorem leBytes_leNat (bs : List UInt8) : leBytes bs.length (leNat bs) = bs := by
  induction bs with
  | nil => rfl
  | cons b bs ih =>
    have hb := b.toNat_lt
    have hlow : (b.toNat + 256 * leNat bs) % 256 = b.toNat := by omega
    have hhigh : (b.toNat + 256 * leNat bs) / 256 = leNat bs := by omega
    rw [List.length_cons, leNat, leBytes, hlow, hhigh, ih, UInt8.ofNat_toNat]

theorem leBytes_eq {n : ℕ} {bs : List UInt8} (hn : bs.length = n) : leBytes n (leNat bs) = bs :=
  hn ▸ leBytes_leNat bs

theorem leNat_lt_of {n : ℕ} {bs : List UInt8} (hn : bs.length = n) : leNat bs < 256 ^ n :=
  hn ▸ leNat_lt bs

/-- Every `n` bytes are the encoding of a value. -/
class Dense (α : Type*) [Serialize α] (n : outParam ℕ) : Prop where
  surjective : ∀ bs : List UInt8, bs.length = n → ∃ a : α, serialize a = bs

instance : Dense UInt32 4 := ⟨fun bs hn => by
  refine ⟨.ofNat (leNat bs), ?_⟩
  show leBytes 4 (UInt32.ofNat (leNat bs)).toNat = bs
  rw [UInt32.toNat_ofNat_of_lt' (leNat_lt_of hn), leBytes_eq hn]⟩

instance : Dense UInt64 8 := ⟨fun bs hn => by
  refine ⟨.ofNat (leNat bs), ?_⟩
  show leBytes 8 (UInt64.ofNat (leNat bs)).toNat = bs
  rw [UInt64.toNat_ofNat_of_lt' (leNat_lt_of hn), leBytes_eq hn]⟩

instance : Dense Int64 8 := ⟨fun bs hn => by
  refine ⟨(UInt64.ofNat (leNat bs)).toInt64, ?_⟩
  show leBytes 8 (UInt64.ofNat (leNat bs)).toInt64.toUInt64.toNat = bs
  rw [UInt64.toUInt64_toInt64, UInt64.toNat_ofNat_of_lt' (leNat_lt_of hn), leBytes_eq hn]⟩

instance : Dense (BitVec 256) 32 := ⟨fun bs hn => by
  have hlen : bs.reverse.length = 32 := List.length_reverse.trans hn
  have hlt : leNat bs.reverse < 2 ^ 256 := leNat_lt_of hlen
  refine ⟨.ofNat 256 (leNat bs.reverse), ?_⟩
  show (leBytes 32 (BitVec.ofNat 256 (leNat bs.reverse)).toNat).reverse = bs
  rw [BitVec.toNat_ofNat, Nat.mod_eq_of_lt hlt, leBytes_eq hlen, List.reverse_reverse]⟩

/-- The next field, off the front of bytes of the right length. -/
theorem exists_field (α : Type*) [Serialize α] {m : ℕ} [Dense α m] {n : ℕ} {bs : List UInt8}
    (hn : bs.length = m + n) : ∃ (a : α) (rest : List UInt8), rest.length = n ∧
      bs = serialize a ++ rest := by
  obtain ⟨a, ha⟩ := Dense.surjective (α := α) (bs.take m) (List.length_take_of_le (by omega))
  refine ⟨a, bs.drop m, ?_, ?_⟩
  · rw [List.length_drop]
    omega
  · rw [ha, List.take_append_drop]

end Dense

/-! ## Values behind a length -/

section Counted

/-- A length that a `u64` holds. -/
theorem toNat_ofNat_length {n : ℕ} (hn : n < 2 ^ 64) : (UInt64.ofNat n).toNat = n :=
  UInt64.toNat_ofNat_of_lt' hn

theorem run_readSlice {bs : List UInt8} (hlen : bs.length < 2 ^ 64) (s : List UInt8) :
    readSlice.run (bytes bs ++ s) = .ok (bs, s) := by
  rw [readSlice, bytes, List.append_assoc, (roundTrips (UInt64.ofNat bs.length)).bind,
    toNat_ofNat_length hlen, run_readBytes rfl]

/-- **A string round trips**, unless its length does not fit a `u64`. -/
theorem RoundTrips.string {t : String} (hlen : t.utf8ByteSize < 2 ^ 64) : RoundTrips t := by
  intro s
  have hbytes : t.toByteArray.data.toList.length < 2 ^ 64 := by
    rw [Array.length_toList]
    exact hlen
  have hutf8 : String.fromUTF8? ⟨t.toByteArray.data.toList.toArray⟩ = some t := by
    rw [Array.toArray_toList, String.fromUTF8?, dif_pos t.isValidUTF8]
    rfl
  show (readSlice >>= decodeUtf8).run (bytes t.toByteArray.data.toList ++ s) = _
  rw [StateT.run_bind, run_readSlice hbytes]
  show (decodeUtf8 t.toByteArray.data.toList).run s = _
  rw [decodeUtf8, hutf8]
  rfl

variable {α : Type} [Serialize α] [Deserialize α]

/-- Elements that round trip, one after the other. -/
theorem run_readMany {as : List α} (h : ∀ a ∈ as, RoundTrips a) (s : List UInt8) :
    (readMany α as.length).run (as.flatMap serialize ++ s) = .ok (as, s) := by
  induction as with
  | nil => rfl
  | cons a as ih =>
    have htail := ih fun b hb => h b (List.mem_cons_of_mem a hb)
    rw [List.flatMap_cons, List.append_assoc, List.length_cons, readMany,
      (h a List.mem_cons_self).bind, StateT.run_bind, htail]
    rfl

omit [Serialize α] in
theorem length_of_readMany {n : ℕ} {as : List α} {bs s : List UInt8}
    (h : (readMany α n).run bs = .ok (as, s)) : as.length = n := by
  induction n generalizing as bs s with
  | zero =>
    cases h
    rfl
  | succ n ih =>
    rw [readMany, StateT.run_bind] at h
    cases ha : (deserialize : Decoder α).run bs with
    | error e =>
      rw [ha] at h
      cases h
    | ok first =>
      rw [ha] at h
      change ((readMany α n) >>= fun as => return first.1 :: as).run first.2 = _ at h
      rw [StateT.run_bind] at h
      cases has : (readMany α n).run first.2 with
      | error e =>
        rw [has] at h
        cases h
      | ok rest =>
        rw [has] at h
        cases h
        rw [List.length_cons, ih has]

/-- **A list round trips** if its elements do, unless its length does not fit a `u64`. -/
theorem RoundTrips.list {as : List α} (hlen : as.length < 2 ^ 64) (h : ∀ a ∈ as, RoundTrips a) :
    RoundTrips as := by
  intro s
  show ((deserialize : Decoder UInt64) >>= _).run
    (serialize (UInt64.ofNat as.length) ++ as.flatMap serialize ++ s) = _
  rw [List.append_assoc, (roundTrips (UInt64.ofNat as.length)).bind, toNat_ofNat_length hlen,
    run_readMany h]

instance [Codec α] : Codec (Option α) := ⟨fun
  | none, _ => rfl
  | some a, s => by
    have hread : (deserialize : Decoder (Option α)).run (1 :: (serialize a ++ s)) =
        ((deserialize : Decoder α) >>= fun a => return some a).run (serialize a ++ s) := rfl
    show (deserialize : Decoder (Option α)).run (1 :: (serialize a ++ s)) = _
    rw [hread, (roundTrips a).bind]
    rfl⟩

end Counted

/-! ## Streams -/

/-- **A stream of elements that say where they stop determines them.** -/
theorem flatMap_cancel {ε : Type} {enc : ε → List UInt8} {S : ε → Prop}
    (hcancel : ∀ {e e' s s'}, S e → S e' → enc e ++ s = enc e' ++ s' → e = e' ∧ s = s')
    (hne : ∀ e, enc e ≠ []) {l l' : List ε} (h : ∀ e ∈ l, S e) (h' : ∀ e ∈ l', S e)
    (he : l.flatMap enc = l'.flatMap enc) : l = l' := by
  induction l generalizing l' with
  | nil =>
    cases l' with
    | nil => rfl
    | cons e' l' =>
      rw [List.flatMap_nil, List.flatMap_cons] at he
      exact absurd (List.append_eq_nil_iff.1 he.symm).1 (hne e')
  | cons e l ih =>
    cases l' with
    | nil =>
      rw [List.flatMap_nil, List.flatMap_cons] at he
      exact absurd (List.append_eq_nil_iff.1 he).1 (hne e)
    | cons e' l' =>
      rw [List.flatMap_cons, List.flatMap_cons] at he
      obtain ⟨rfl, hrest⟩ := hcancel (h e (.head _)) (h' e' (.head _)) he
      rw [ih (fun x hx => h x (.tail _ hx)) (fun x hx => h' x (.tail _ hx)) hrest]

end Bincode
