import MqttClient.Pem

/-! Certificates and keys for an encrypted transport, and what makes them fit for use. -/

namespace MqttClient

inductive TlsError
  | noValidCertInChain
  | noValidClientCertInChain
  | noValidKeyInChain
  | encryptedKey
  deriving DecidableEq, Repr

def TlsError.message : TlsError → String
  | noValidCertInChain => "No valid CA cert in chain"
  | noValidClientCertInChain => "No valid client cert in chain"
  | noValidKeyInChain => "No valid key in chain"
  | encryptedKey => "Encrypted PEM keys aren't supported, use a PKCS#12 identity instead"

structure TlsMaterial where
  ca : String
  client : Option (String × String) := none
  alpn : List Bytes := []
  deriving DecidableEq, Repr

namespace TlsMaterial

/-- A certificate is a sequence; anything else is passed over. -/
def isUsable (certificate : Bytes) : Bool := certificate.head? == some 0x30

def checkClient (certificates key : String) : Except TlsError Unit :=
  if Pem.isEncrypted key then .error .encryptedKey
  else if (Pem.certificates certificates).isEmpty then .error .noValidClientCertInChain
  else if (Pem.privateKey? key).isNone then .error .noValidKeyInChain
  else .ok ()

/-- The trusted certificates are looked at first, then the client's own material. -/
def check (m : TlsMaterial) : Except TlsError Unit :=
  if (Pem.certificates m.ca).any isUsable then
    match m.client with
    | some (certificates, key) => checkClient certificates key
    | none => .ok ()
  else .error .noValidCertInChain

end TlsMaterial

end MqttClient
