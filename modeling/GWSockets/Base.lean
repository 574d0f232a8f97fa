import Mathlib.Data.List.Basic

namespace GWSockets

abbrev Bytes := List UInt8

def ascii (s : String) : Bytes := s.toList.map (fun c => UInt8.ofNat c.toNat)

def decimal (n : Nat) : Bytes := (Nat.toDigits 10 n).map (fun c => UInt8.ofNat c.toNat)

def decimalValue (s : Bytes) : Nat := s.foldl (fun v c => v * 10 + (c.toNat - 0x30)) 0

theorem forall_byte {p : UInt8 → Prop} (h : ∀ b : BitVec 8, p ⟨b⟩) (c : UInt8) : p c :=
  h c.toBitVec

theorem forall_mem_bytes {p : UInt8 → Prop} [DecidablePred p] {s : Bytes}
    (h : s.all (fun c => decide (p c)) = true) : ∀ c ∈ s, p c := by
  simpa using h

inductive GWSMessageInType where
  | connected
  | message
  | error
  | disconnected
deriving DecidableEq, Repr

structure GWSocketMessageIn where
  type : GWSMessageInType
  message : Bytes := []
deriving DecidableEq, Repr

inductive GWSMessageOutType where
  | disconnect
  | message
deriving DecidableEq, Repr

structure GWSocketMessageOut where
  type : GWSMessageOutType
  message : Bytes := []
  binary : Bool := false
deriving DecidableEq, Repr

inductive SocketState where
  | connecting
  | connected
  | disconnectRequested
  | disconnecting
  | disconnected
deriving DecidableEq, Repr

inductive ErrorValue where
  | success
  | eof
  | operationAborted
  | streamTruncated
  | closed
  | other (value : Nat)
deriving DecidableEq, Repr

structure ErrorCode where
  value : ErrorValue
  message : Bytes := []
deriving DecidableEq, Repr

def ErrorCode.failed (ec : ErrorCode) : Bool := ec.value != .success

def isConnectionClosedError (ec : ErrorCode) : Bool :=
  ec.value == .eof || ec.value == .operationAborted || ec.value == .streamTruncated ||
    ec.value == .closed

inductive X509Error where
  | ok
  | unableToGetIssuerCert
  | certNotYetValid
  | errorInCertNotBeforeField
  | certRevoked
  | certHasExpired
  | errorInCertNotAfterField
  | invalidCA
  | subjectIssuerMismatch
  | akidSkidMismatch
  | akidIssuerSerialMismatch
  | hostnameMismatch
  | emailMismatch
  | ipAddressMismatch
  | certUntrusted
  | certRejected
  | selfSignedCertInChain
  | unableToGetCRL
  | unableToGetIssuerCertLocally
  | other (code : Nat)
deriving DecidableEq, Repr

def X509Error.report : X509Error → Option Bytes
  | .ok => none
  | .unableToGetIssuerCert => some (ascii "Unable to get issuer certificate.")
  | .certNotYetValid | .errorInCertNotBeforeField =>
      some (ascii "Provided certificate not valid yet.")
  | .certRevoked | .certHasExpired | .errorInCertNotAfterField =>
      some (ascii "Provided certificate expired or revoked.")
  | .invalidCA | .subjectIssuerMismatch | .akidSkidMismatch | .akidIssuerSerialMismatch
  | .hostnameMismatch | .emailMismatch | .ipAddressMismatch =>
      some (ascii "Provided certificate had invalid details (Invalid CA, email, hostname, etc.)")
  | .certUntrusted | .certRejected | .selfSignedCertInChain =>
      some (ascii "Provided certificate was self signed or untrusted.")
  | .unableToGetCRL => some (ascii "Unable to load CRL.")
  | .unableToGetIssuerCertLocally =>
      some (ascii "Unable to find matching SSL root certificate locally.")
  | .other _ => some (ascii "certificate verify failed")

theorem report_none_iff (e : X509Error) : e.report = none ↔ e = .ok := by
  cases e <;> simp [X509Error.report]

end GWSockets
