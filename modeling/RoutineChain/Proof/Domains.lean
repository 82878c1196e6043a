import RoutineChain.Proof.Codec

/-!
# What a signature is for

A node signs the bytes of a header and, with the same key, the bytes of a payload. Neither
says which it is. A header is 148 bytes of which any are a header, so a payload is taken for
one exactly if it is as long: a string of one certain length can make it so in four of the
fourteen variants (`domains_disjoint`).
-/

namespace RoutineChain

open Bincode

/-- The payload is encoded in as many bytes as a header. -/
def TxPayload.HeaderSized : TxPayload → Prop
  | .registerParticipant _ _ metadata => metadata.utf8ByteSize = 100
  | .updateParticipant _ metadata => metadata.utf8ByteSize = 104
  | .transferRCW _ _ memo => memo.utf8ByteSize = 96
  | .spendRCW _ purpose => purpose.utf8ByteSize = 128
  | _ => False

theorem length_id (x : BitVec 256) : (serialize x).length = 32 := length_bitVec x

/-- **Any 148 bytes are a header.** -/
theorem exists_header {bs : List UInt8} (hn : bs.length = 148) :
    ∃ h : BlockHeader, serialize h = bs := by
  obtain ⟨height, bs₁, hn₁, rfl⟩ := exists_field UInt64 (n := 140) hn
  obtain ⟨prevHash, bs₂, hn₂, rfl⟩ := exists_field Hash (n := 108) hn₁
  obtain ⟨timestamp, bs₃, hn₃, rfl⟩ := exists_field Int64 (n := 100) hn₂
  obtain ⟨txCount, bs₄, hn₄, rfl⟩ := exists_field UInt32 (n := 96) hn₃
  obtain ⟨txHash, bs₅, hn₅, rfl⟩ := exists_field Hash (n := 64) hn₄
  obtain ⟨stateRoot, bs₆, hn₆, rfl⟩ := exists_field Hash (n := 32) hn₅
  obtain ⟨proposer, bs₇, hn₇, rfl⟩ := exists_field Id (n := 0) hn₆
  rw [List.length_eq_zero_iff] at hn₇
  refine ⟨{ height, prevHash, timestamp, txCount, txHash, stateRoot, proposer }, ?_⟩
  show serialize height ++ serialize prevHash ++ serialize timestamp ++ serialize txCount ++
    serialize txHash ++ serialize stateRoot ++ serialize proposer = _
  simp only [hn₇, List.append_assoc, List.append_nil]

theorem length_pType (t : ParticipantType) : (serialize t).length = 4 := length_tag t.index

theorem length_reason (r : DisputeReason) : (serialize r).length = 4 := by
  cases r <;> exact length_tag _

theorem length_decision (d : DisputeDecision) : (serialize d).length = 4 := by
  cases d <;> exact length_tag _

theorem length_settlementData (d : SettlementData) : (serialize d).length = 68 := by
  show (serialize d.recordId ++ serialize d.grossAmount ++ serialize d.platformFee ++
    serialize d.netAmount ++ serialize d.currency ++ serialize d.settledAt).length = 68
  simp only [List.length_append, length_uint64, length_int64, length_bitVec]

/-- **A payload is as long as a header only by the length of its text.** -/
theorem length_payload_iff (p : TxPayload) : (serialize p).length = 148 ↔ p.HeaderSized := by
  cases p with
  | registerParticipant id ty md =>
    show (tag 0 ++ serialize id ++ serialize ty ++ serialize md).length = 148 ↔ _ = _
    simp only [List.length_append, length_tag, length_id, length_pType, length_string]
    omega
  | updateParticipant id md =>
    show (tag 1 ++ serialize id ++ serialize md).length = 148 ↔ _ = _
    simp only [List.length_append, length_tag, length_id, length_string]
    omega
  | deactivateParticipant id =>
    refine iff_of_false ?_ not_false
    show ¬ (tag 2 ++ serialize id).length = 148
    simp only [List.length_append, length_tag, length_id]
    omega
  | recordSettlement id d =>
    refine iff_of_false ?_ not_false
    show ¬ (tag 3 ++ serialize id ++ serialize d).length = 148
    simp only [List.length_append, length_tag, length_id, length_settlementData]
    omega
  | recordRating id n ok =>
    refine iff_of_false ?_ not_false
    show ¬ (tag 4 ++ serialize id ++ leBytes 2 n.toNat ++ [if ok then 1 else 0]).length = 148
    simp only [List.length_append, length_tag, length_id, length_leBytes, List.length_singleton]
    omega
  | createEscrow e b s n x =>
    refine iff_of_false ?_ not_false
    show ¬ (tag 5 ++ serialize e ++ serialize b ++ serialize s ++ serialize n ++
      serialize x).length = 148
    simp only [List.length_append, length_tag, length_id, length_uint64, length_int64]
    omega
  | releaseEscrow e ev =>
    refine iff_of_false ?_ not_false
    show ¬ (tag 6 ++ serialize e ++ serialize ev).length = 148
    simp only [List.length_append, length_tag, length_id]
    omega
  | refundEscrow e =>
    refine iff_of_false ?_ not_false
    show ¬ (tag 7 ++ serialize e).length = 148
    simp only [List.length_append, length_tag, length_id]
    omega
  | raiseDispute d e reason ev =>
    refine iff_of_false ?_ not_false
    show ¬ (tag 8 ++ serialize d ++ serialize e ++ serialize reason ++ serialize ev).length = 148
    simp only [List.length_append, length_tag, length_id, length_reason]
    omega
  | submitEvidence d ev =>
    refine iff_of_false ?_ not_false
    show ¬ (tag 9 ++ serialize d ++ serialize ev).length = 148
    simp only [List.length_append, length_tag, length_id]
    omega
  | voteDispute d dec =>
    refine iff_of_false ?_ not_false
    show ¬ (tag 10 ++ serialize d ++ serialize dec).length = 148
    simp only [List.length_append, length_tag, length_id, length_decision]
    omega
  | transferRCW b n memo =>
    show (tag 11 ++ serialize b ++ serialize n ++ serialize memo).length = 148 ↔ _ = _
    simp only [List.length_append, length_tag, length_id, length_uint64, length_string]
    omega
  | spendRCW n purpose =>
    show (tag 12 ++ serialize n ++ serialize purpose).length = 148 ↔ _ = _
    simp only [List.length_append, length_tag, length_uint64, length_string]
    omega
  | anchorMerkleRoot b root n i j =>
    refine iff_of_false ?_ not_false
    show ¬ (tag 13 ++ serialize b ++ serialize root ++ serialize n ++ serialize i ++
      serialize j).length = 148
    simp only [List.length_append, length_tag, length_id, length_uint64]
    omega

/-- **What a node signs for a header is not what is checked for a payload**, unless the payload
is as long as a header; and then it is what is signed for exactly one header. -/
theorem domains_disjoint :
    (∀ (h : BlockHeader) (p : TxPayload), ¬ p.HeaderSized → serialize h ≠ serialize p) ∧
    ∀ p : TxPayload, p.HeaderSized → ∃! h : BlockHeader, serialize h = serialize p := by
  refine ⟨?_, ?_⟩
  · intro h p hp heq
    have hlen := congrArg List.length heq
    rw [length_header] at hlen
    exact hp ((length_payload_iff p).1 hlen.symm)
  · intro p hp
    obtain ⟨h, hh⟩ := exists_header ((length_payload_iff p).2 hp)
    refine ⟨h, hh, ?_⟩
    intro h' hh'
    exact header_injective (hh'.trans hh.symm)

/-- A text of 128 letters. -/
def longPurpose : String := String.ofList (List.replicate 128 'a')

/-- A header of height 12 with the bytes of a spend for that purpose. -/
def BlockHeader.toySpend : BlockHeader :=
  { height := 12
    prevHash := 0x0100000080000000000000006161616161616161616161616161616161616161
    timestamp := 7016996765293437281
    txCount := 1633771873
    txHash := 0x6161616161616161616161616161616161616161616161616161616161616161
    stateRoot := 0x6161616161616161616161616161616161616161616161616161616161616161
    proposer := 0x6161616161616161616161616161616161616161616161616161616161616161 }

/-- The signature on that header is one on the spend. -/
theorem domains_disjoint_fails :
    ¬ ∀ (h : BlockHeader) (p : TxPayload), serialize h ≠ serialize p := by
  intro hall
  refine hall .toySpend (.spendRCW 4294967296 longPurpose) ?_
  decide +kernel

/-- A registration without metadata is none of the four. -/
theorem domains_disjoint_toy :
    serialize BlockHeader.toySpend ≠ serialize (TxPayload.registerParticipant 1 .seller "") :=
  domains_disjoint.1 .toySpend (.registerParticipant 1 .seller "") (by
    show ¬ _ = _
    decide)

end RoutineChain
