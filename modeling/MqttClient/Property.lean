import MqttClient.Decoder

/-! Properties of packets: what each is called, the shape of its value, and the block that lists
those of a packet. Which of them mean something depends on the packet and is not checked here. -/

namespace MqttClient

inductive ByteProperty
  | payloadFormatIndicator
  | requestProblemInformation
  | requestResponseInformation
  | maximumQos
  | retainAvailable
  | wildcardSubscriptionAvailable
  | subscriptionIdentifierAvailable
  | sharedSubscriptionAvailable
  deriving DecidableEq, Repr

def ByteProperty.code : ByteProperty → UInt8
  | payloadFormatIndicator => 1
  | requestProblemInformation => 23
  | requestResponseInformation => 25
  | maximumQos => 36
  | retainAvailable => 37
  | wildcardSubscriptionAvailable => 40
  | subscriptionIdentifierAvailable => 41
  | sharedSubscriptionAvailable => 42

def ByteProperty.name : ByteProperty → String
  | payloadFormatIndicator => "PayloadFormatIndicator"
  | requestProblemInformation => "RequestProblemInformation"
  | requestResponseInformation => "RequestResponseInformation"
  | maximumQos => "MaximumQos"
  | retainAvailable => "RetainAvailable"
  | wildcardSubscriptionAvailable => "WildcardSubscriptionAvailable"
  | subscriptionIdentifierAvailable => "SubscriptionIdentifierAvailable"
  | sharedSubscriptionAvailable => "SharedSubscriptionAvailable"

inductive TwoByteProperty
  | serverKeepAlive
  | receiveMaximum
  | topicAliasMaximum
  | topicAlias
  deriving DecidableEq, Repr

def TwoByteProperty.code : TwoByteProperty → UInt8
  | serverKeepAlive => 19
  | receiveMaximum => 33
  | topicAliasMaximum => 34
  | topicAlias => 35

def TwoByteProperty.name : TwoByteProperty → String
  | serverKeepAlive => "ServerKeepAlive"
  | receiveMaximum => "ReceiveMaximum"
  | topicAliasMaximum => "TopicAliasMaximum"
  | topicAlias => "TopicAlias"

inductive FourByteProperty
  | messageExpiryInterval
  | sessionExpiryInterval
  | willDelayInterval
  | maximumPacketSize
  deriving DecidableEq, Repr

def FourByteProperty.code : FourByteProperty → UInt8
  | messageExpiryInterval => 2
  | sessionExpiryInterval => 17
  | willDelayInterval => 24
  | maximumPacketSize => 39

def FourByteProperty.name : FourByteProperty → String
  | messageExpiryInterval => "MessageExpiryInterval"
  | sessionExpiryInterval => "SessionExpiryInterval"
  | willDelayInterval => "WillDelayInterval"
  | maximumPacketSize => "MaximumPacketSize"

inductive TextProperty
  | contentType
  | responseTopic
  | assignedClientIdentifier
  | authenticationMethod
  | responseInformation
  | serverReference
  | reasonString
  deriving DecidableEq, Repr

def TextProperty.code : TextProperty → UInt8
  | contentType => 3
  | responseTopic => 8
  | assignedClientIdentifier => 18
  | authenticationMethod => 21
  | responseInformation => 26
  | serverReference => 28
  | reasonString => 31

def TextProperty.name : TextProperty → String
  | contentType => "ContentType"
  | responseTopic => "ResponseTopic"
  | assignedClientIdentifier => "AssignedClientIdentifier"
  | authenticationMethod => "AuthenticationMethod"
  | responseInformation => "ResponseInformation"
  | serverReference => "ServerReference"
  | reasonString => "ReasonString"

inductive BinaryProperty
  | correlationData
  | authenticationData
  deriving DecidableEq, Repr

def BinaryProperty.code : BinaryProperty → UInt8
  | correlationData => 9
  | authenticationData => 22

def BinaryProperty.name : BinaryProperty → String
  | correlationData => "CorrelationData"
  | authenticationData => "AuthenticationData"

/-- What a property is called; it fixes the shape of the value. -/
inductive PropertyId
  | byte (id : ByteProperty)
  | twoBytes (id : TwoByteProperty)
  | fourBytes (id : FourByteProperty)
  | text (id : TextProperty)
  | binary (id : BinaryProperty)
  | subscriptionIdentifier
  | userProperty
  deriving DecidableEq, Repr

namespace PropertyId

def code : PropertyId → UInt8
  | byte id => id.code
  | twoBytes id => id.code
  | fourBytes id => id.code
  | text id => id.code
  | binary id => id.code
  | subscriptionIdentifier => 11
  | userProperty => 38

def name : PropertyId → String
  | byte id => id.name
  | twoBytes id => id.name
  | fourBytes id => id.name
  | text id => id.name
  | binary id => id.name
  | subscriptionIdentifier => "SubscriptionIdentifier"
  | userProperty => "UserProperty"

def all : List PropertyId :=
  [.byte .payloadFormatIndicator, .fourBytes .messageExpiryInterval, .text .contentType,
  .text .responseTopic, .binary .correlationData, .subscriptionIdentifier,
  .fourBytes .sessionExpiryInterval, .text .assignedClientIdentifier, .twoBytes .serverKeepAlive,
  .text .authenticationMethod, .binary .authenticationData, .byte .requestProblemInformation,
  .fourBytes .willDelayInterval, .byte .requestResponseInformation, .text .responseInformation,
  .text .serverReference, .text .reasonString, .twoBytes .receiveMaximum,
  .twoBytes .topicAliasMaximum, .twoBytes .topicAlias, .byte .maximumQos, .byte .retainAvailable,
  .userProperty, .fourBytes .maximumPacketSize, .byte .wildcardSubscriptionAvailable,
  .byte .subscriptionIdentifierAvailable, .byte .sharedSubscriptionAvailable]

def ofCode? (c : UInt8) : Option PropertyId := all.find? fun id => id.code == c

@[simp] theorem ofCode?_code (id : PropertyId) : ofCode? id.code = some id := by
  cases id with
  | subscriptionIdentifier | userProperty => decide
  | byte id | twoBytes id | fourBytes id | text id | binary id => cases id <;> decide

theorem code_of_ofCode? {c : UInt8} {id : PropertyId} (h : ofCode? c = some id) : id.code = c := by
  simpa using List.find?_some h

end PropertyId

inductive Property
  | byte (id : ByteProperty) (value : UInt8)
  | twoBytes (id : TwoByteProperty) (value : UInt16)
  | fourBytes (id : FourByteProperty) (value : UInt32)
  | text (id : TextProperty) (value : String)
  | binary (id : BinaryProperty) (value : Bytes)
  | subscriptionIdentifier (value : Nat)
  | userProperty (key value : String)
  deriving DecidableEq, Repr

namespace Property

def id : Property → PropertyId
  | byte id _ => .byte id
  | twoBytes id _ => .twoBytes id
  | fourBytes id _ => .fourBytes id
  | text id _ => .text id
  | binary id _ => .binary id
  | subscriptionIdentifier _ => .subscriptionIdentifier
  | userProperty _ _ => .userProperty

def valueSize : Property → Nat
  | byte _ _ => 1
  | twoBytes _ _ => 2
  | fourBytes _ _ => 4
  | text _ value => 2 + value.utf8ByteSize
  | binary _ value => 2 + value.length
  | subscriptionIdentifier value => VarInt.size value
  | userProperty key value => 2 + key.utf8ByteSize + 2 + value.utf8ByteSize

def encodeValue : Property → Except WireError Bytes
  | byte _ value => .ok [value]
  | twoBytes _ value => .ok (Bytes.ofUInt16 value)
  | fourBytes _ value => .ok (Bytes.ofUInt32 value)
  | text _ value => encodeText value
  | binary _ value => encodeBinary value
  | subscriptionIdentifier value => VarInt.encode value
  | userProperty key value => return (← encodeText key) ++ (← encodeText value)

def size (p : Property) : Nat := 1 + p.valueSize

def encode (p : Property) : Except WireError Bytes := return p.id.code :: (← p.encodeValue)

def decodeValue : PropertyId → Decoder Property
  | .byte id => return .byte id (← Decoder.byte)
  | .twoBytes id => return .twoBytes id (← Decoder.twoBytes)
  | .fourBytes id => return .fourBytes id (← Decoder.fourBytes)
  | .text id => return .text id (← Decoder.text)
  | .binary id => return .binary id (← Decoder.binary)
  | .subscriptionIdentifier => return .subscriptionIdentifier (← Decoder.varInt)
  | .userProperty => return .userProperty (← Decoder.text) (← Decoder.text)

def decode : Decoder Property := do
  let code ← Decoder.byte
  match PropertyId.ofCode? code with
  | some id => decodeValue id
  | none => throw (.invalidPropertyType code)

end Property

/-- The properties of a packet, in order; any of them may repeat. -/
abbrev Properties := List Property

namespace Properties

def blockSize (ps : Properties) : Nat := ps.foldr (·.size + ·) 0

def size (ps : Properties) : Nat := VarInt.size ps.blockSize + ps.blockSize

def encode (ps : Properties) : Except WireError Bytes := do
  let length ← VarInt.encode ps.blockSize
  let entries ← ps.mapM Property.encode
  return length ++ entries.flatten

/-- The block is cut off first, so that no entry takes bytes from behind it. -/
def decode : Decoder Properties := do
  let block ← Decoder.span (← Decoder.varInt)
  Decoder.within block (Decoder.items Property.decode)

def reasonString? (ps : Properties) : Option String :=
  ps.findSome? fun
    | .text .reasonString value => some value
    | _ => none

def serverKeepAlive? (ps : Properties) : Option UInt16 :=
  ps.findSome? fun
    | .twoBytes .serverKeepAlive value => some value
    | _ => none

def receiveMaximum? (ps : Properties) : Option UInt16 :=
  ps.findSome? fun
    | .twoBytes .receiveMaximum value => some value
    | _ => none

def assignedClientIdentifier? (ps : Properties) : Option String :=
  ps.findSome? fun
    | .text .assignedClientIdentifier value => some value
    | _ => none

def userProperties (ps : Properties) : List (String × String) :=
  ps.filterMap fun
    | .userProperty key value => some (key, value)
    | _ => none

end Properties

end MqttClient
