import RoutineChain.Spec.StateMachine

/-!
# Submitting a transaction over RPC (`rc-rpc`)

`submitTx` is the handler of `POST /tx`: it parses the request, checks the signature and
hands a transaction to the channel that the block production loop drains.
-/

namespace RoutineChain

open Bincode

/-- The transaction submit request. -/
structure SubmitTxRequest where
  payload : TxPayload
  sender : String
  signature : String
  nonce : UInt64
  deriving DecidableEq, Repr

/-- The status codes that the handler answers with instead of success. -/
inductive StatusCode where
  | badRequest | unauthorized
  deriving DecidableEq, Repr

/-- A byte array as the bit vector that it spells big-endian. -/
def ofBytes (w : ℕ) (bs : List UInt8) : BitVec w :=
  .ofNat w (bs.foldl (fun a b => a * 256 + b.toNat) 0)

/-- Decode `n` bytes of hex. -/
def hexToBytes (C : Crypto) (n : ℕ) (hex : String) : Except StatusCode (BitVec (8 * n)) :=
  match C.hexDecode hex with
  | some bs => if bs.length = n then .ok (ofBytes _ bs) else .error .badRequest
  | none => .error .badRequest

/-- The handler of `POST /tx`, at time `now`. -/
def submitTx (C : Crypto) (now : Int64) (req : SubmitTxRequest) :
    Except StatusCode Transaction := do
  let sender ← hexToBytes C 32 req.sender
  let signature ← hexToBytes C 64 req.signature
  if !C.verify (serialize req.payload) signature sender then throw .unauthorized
  return { payload := req.payload, sender, signature, timestamp := now, nonce := req.nonce }

/-- A transaction that the handler accepts carries a valid signature. -/
theorem submitTx_verified {C : Crypto} {now : Int64} {req : SubmitTxRequest} {tx : Transaction}
    (h : submitTx C now req = .ok tx) : verifyTxSignature C tx = true := by
  unfold submitTx at h
  cases hs : hexToBytes C 32 req.sender with
  | error e => simp [hs, bind, Except.bind] at h
  | ok sender =>
    cases hg : hexToBytes C 64 req.signature with
    | error e => simp [hs, hg, bind, Except.bind] at h
    | ok signature =>
      by_cases hv : C.verify (serialize req.payload) signature sender = true
      · simp [hs, hg, hv, bind, Except.bind, pure, Except.pure] at h
        subst h
        exact hv
      · simp [hs, hg, hv, bind, Except.bind, throw, throwThe, MonadExceptOf.throw] at h

end RoutineChain
