import MqttClient.QoS

/-! Families of reason codes. Each lists its codes in the order of the standard; no code stands
twice in a list, so the byte tells the reason. -/

namespace MqttClient

class ReasonCode (R : Type) where
  all : List R
  code : R → UInt8
  name : R → String
  mem_all : ∀ r, r ∈ all
  nodup_code : (all.map code).Nodup

namespace ReasonCode

variable {R : Type} [ReasonCode R]

def ofCode? (c : UInt8) : Option R := all.find? fun r => code r == c

theorem code_of_ofCode? {c : UInt8} {r : R} (h : ofCode? c = some r) : code r = c := by
  simpa using List.find?_some h

theorem find?_code {l : List R} (hl : (l.map code).Nodup) {r : R} (hr : r ∈ l) :
    l.find? (fun s => code s == code r) = some r := by
  induction l with
  | nil => simp at hr
  | cons s l ih =>
    rw [List.map_cons, List.nodup_cons] at hl
    rcases List.mem_cons.mp hr with rfl | hr
    · simp
    · have hs : code s ≠ code r := fun e => hl.1 (e ▸ List.mem_map_of_mem hr)
      rw [List.find?_cons_of_neg (by simpa using hs)]
      exact ih hl.2 hr

@[simp] theorem ofCode?_code (r : R) : ofCode? (code r) = some r :=
  find?_code nodup_code (mem_all r)

end ReasonCode

inductive ConnectReason
  | success
  | unspecifiedError
  | malformedPacket
  | protocolError
  | implementationSpecificError
  | unsupportedProtocolVersion
  | clientIdentifierNotValid
  | badUserNamePassword
  | notAuthorized
  | serverUnavailable
  | serverBusy
  | banned
  | badAuthenticationMethod
  | topicNameInvalid
  | packetTooLarge
  | quotaExceeded
  | payloadFormatInvalid
  | retainNotSupported
  | qosNotSupported
  | useAnotherServer
  | serverMoved
  | connectionRateExceeded
  deriving DecidableEq, Repr

instance : ReasonCode ConnectReason where
  all :=
    [.success, .unspecifiedError, .malformedPacket, .protocolError, .implementationSpecificError,
    .unsupportedProtocolVersion, .clientIdentifierNotValid, .badUserNamePassword, .notAuthorized,
    .serverUnavailable, .serverBusy, .banned, .badAuthenticationMethod, .topicNameInvalid,
    .packetTooLarge, .quotaExceeded, .payloadFormatInvalid, .retainNotSupported, .qosNotSupported,
    .useAnotherServer, .serverMoved, .connectionRateExceeded]
  code
    | .success => 0x00
    | .unspecifiedError => 0x80
    | .malformedPacket => 0x81
    | .protocolError => 0x82
    | .implementationSpecificError => 0x83
    | .unsupportedProtocolVersion => 0x84
    | .clientIdentifierNotValid => 0x85
    | .badUserNamePassword => 0x86
    | .notAuthorized => 0x87
    | .serverUnavailable => 0x88
    | .serverBusy => 0x89
    | .banned => 0x8A
    | .badAuthenticationMethod => 0x8C
    | .topicNameInvalid => 0x90
    | .packetTooLarge => 0x95
    | .quotaExceeded => 0x97
    | .payloadFormatInvalid => 0x99
    | .retainNotSupported => 0x9A
    | .qosNotSupported => 0x9B
    | .useAnotherServer => 0x9C
    | .serverMoved => 0x9D
    | .connectionRateExceeded => 0x9F
  name
    | .success => "Success"
    | .unspecifiedError => "UnspecifiedError"
    | .malformedPacket => "MalformedPacket"
    | .protocolError => "ProtocolError"
    | .implementationSpecificError => "ImplementationSpecificError"
    | .unsupportedProtocolVersion => "UnsupportedProtocolVersion"
    | .clientIdentifierNotValid => "ClientIdentifierNotValid"
    | .badUserNamePassword => "BadUserNamePassword"
    | .notAuthorized => "NotAuthorized"
    | .serverUnavailable => "ServerUnavailable"
    | .serverBusy => "ServerBusy"
    | .banned => "Banned"
    | .badAuthenticationMethod => "BadAuthenticationMethod"
    | .topicNameInvalid => "TopicNameInvalid"
    | .packetTooLarge => "PacketTooLarge"
    | .quotaExceeded => "QuotaExceeded"
    | .payloadFormatInvalid => "PayloadFormatInvalid"
    | .retainNotSupported => "RetainNotSupported"
    | .qosNotSupported => "QoSNotSupported"
    | .useAnotherServer => "UseAnotherServer"
    | .serverMoved => "ServerMoved"
    | .connectionRateExceeded => "ConnectionRateExceeded"
  mem_all r := by cases r <;> decide
  nodup_code := by decide

/-- Outcome of a message, as the first acknowledgement of either quality tells it. -/
inductive PublishReason
  | success
  | noMatchingSubscribers
  | unspecifiedError
  | implementationSpecificError
  | notAuthorized
  | topicNameInvalid
  | packetIdentifierInUse
  | quotaExceeded
  | payloadFormatInvalid
  deriving DecidableEq, Repr

instance : ReasonCode PublishReason where
  all :=
    [.success, .noMatchingSubscribers, .unspecifiedError, .implementationSpecificError,
    .notAuthorized, .topicNameInvalid, .packetIdentifierInUse, .quotaExceeded,
    .payloadFormatInvalid]
  code
    | .success => 0x00
    | .noMatchingSubscribers => 0x10
    | .unspecifiedError => 0x80
    | .implementationSpecificError => 0x83
    | .notAuthorized => 0x87
    | .topicNameInvalid => 0x90
    | .packetIdentifierInUse => 0x91
    | .quotaExceeded => 0x97
    | .payloadFormatInvalid => 0x99
  name
    | .success => "Success"
    | .noMatchingSubscribers => "NoMatchingSubscribers"
    | .unspecifiedError => "UnspecifiedError"
    | .implementationSpecificError => "ImplementationSpecificError"
    | .notAuthorized => "NotAuthorized"
    | .topicNameInvalid => "TopicNameInvalid"
    | .packetIdentifierInUse => "PacketIdentifierInUse"
    | .quotaExceeded => "QuotaExceeded"
    | .payloadFormatInvalid => "PayloadFormatInvalid"
  mem_all r := by cases r <;> decide
  nodup_code := by decide

def PublishReason.isSuccess (r : PublishReason) : Bool := ReasonCode.code r < 0x80

/-- Outcome of the second half of an exactly-once exchange. -/
inductive ReleaseReason
  | success
  | packetIdentifierNotFound
  deriving DecidableEq, Repr

instance : ReasonCode ReleaseReason where
  all :=
    [.success, .packetIdentifierNotFound]
  code
    | .success => 0x00
    | .packetIdentifierNotFound => 0x92
  name
    | .success => "Success"
    | .packetIdentifierNotFound => "PacketIdentifierNotFound"
  mem_all r := by cases r <;> decide
  nodup_code := by decide

inductive SubscribeReason
  | success (granted : QoS)
  | unspecified
  | implementationSpecific
  | notAuthorized
  | topicFilterInvalid
  | pkidInUse
  | quotaExceeded
  | sharedSubscriptionsNotSupported
  | subscriptionIdNotSupported
  | wildcardSubscriptionsNotSupported
  deriving DecidableEq, Repr

instance : ReasonCode SubscribeReason where
  all :=
    [.success .atMostOnce, .success .atLeastOnce, .success .exactlyOnce, .unspecified,
    .implementationSpecific, .notAuthorized, .topicFilterInvalid, .pkidInUse, .quotaExceeded,
    .sharedSubscriptionsNotSupported, .subscriptionIdNotSupported,
    .wildcardSubscriptionsNotSupported]
  code
    | .success granted => granted.level
    | .unspecified => 0x80
    | .implementationSpecific => 0x83
    | .notAuthorized => 0x87
    | .topicFilterInvalid => 0x8F
    | .pkidInUse => 0x91
    | .quotaExceeded => 0x97
    | .sharedSubscriptionsNotSupported => 0x9E
    | .subscriptionIdNotSupported => 0xA1
    | .wildcardSubscriptionsNotSupported => 0xA2
  name
    | .success granted => s!"Success{granted.level}"
    | .unspecified => "Unspecified"
    | .implementationSpecific => "ImplementationSpecific"
    | .notAuthorized => "NotAuthorized"
    | .topicFilterInvalid => "TopicFilterInvalid"
    | .pkidInUse => "PkidInUse"
    | .quotaExceeded => "QuotaExceeded"
    | .sharedSubscriptionsNotSupported => "SharedSubscriptionsNotSupported"
    | .subscriptionIdNotSupported => "SubscriptionIdNotSupported"
    | .wildcardSubscriptionsNotSupported => "WildcardSubscriptionsNotSupported"
  mem_all r := by
    cases r with
    | success granted => cases granted <;> decide
    | _ => decide
  nodup_code := by decide

def SubscribeReason.isSuccess : SubscribeReason → Bool
  | success _ => true
  | _ => false

inductive UnsubscribeReason
  | success
  | noSubscriptionExisted
  | unspecifiedError
  | implementationSpecificError
  | notAuthorized
  | topicFilterInvalid
  | packetIdentifierInUse
  deriving DecidableEq, Repr

instance : ReasonCode UnsubscribeReason where
  all :=
    [.success, .noSubscriptionExisted, .unspecifiedError, .implementationSpecificError,
    .notAuthorized, .topicFilterInvalid, .packetIdentifierInUse]
  code
    | .success => 0x00
    | .noSubscriptionExisted => 0x11
    | .unspecifiedError => 0x80
    | .implementationSpecificError => 0x83
    | .notAuthorized => 0x87
    | .topicFilterInvalid => 0x8F
    | .packetIdentifierInUse => 0x91
  name
    | .success => "Success"
    | .noSubscriptionExisted => "NoSubscriptionExisted"
    | .unspecifiedError => "UnspecifiedError"
    | .implementationSpecificError => "ImplementationSpecificError"
    | .notAuthorized => "NotAuthorized"
    | .topicFilterInvalid => "TopicFilterInvalid"
    | .packetIdentifierInUse => "PacketIdentifierInUse"
  mem_all r := by cases r <;> decide
  nodup_code := by decide

inductive DisconnectReason
  | normalDisconnection
  | disconnectWithWillMessage
  | unspecifiedError
  | malformedPacket
  | protocolError
  | implementationSpecificError
  | notAuthorized
  | serverBusy
  | serverShuttingDown
  | keepAliveTimeout
  | sessionTakenOver
  | topicFilterInvalid
  | topicNameInvalid
  | receiveMaximumExceeded
  | topicAliasInvalid
  | packetTooLarge
  | messageRateTooHigh
  | quotaExceeded
  | administrativeAction
  | payloadFormatInvalid
  | retainNotSupported
  | qosNotSupported
  | useAnotherServer
  | serverMoved
  | sharedSubscriptionNotSupported
  | connectionRateExceeded
  | maximumConnectTime
  | subscriptionIdentifiersNotSupported
  | wildcardSubscriptionsNotSupported
  deriving DecidableEq, Repr

instance : ReasonCode DisconnectReason where
  all :=
    [.normalDisconnection, .disconnectWithWillMessage, .unspecifiedError, .malformedPacket,
    .protocolError, .implementationSpecificError, .notAuthorized, .serverBusy,
    .serverShuttingDown, .keepAliveTimeout, .sessionTakenOver, .topicFilterInvalid,
    .topicNameInvalid, .receiveMaximumExceeded, .topicAliasInvalid, .packetTooLarge,
    .messageRateTooHigh, .quotaExceeded, .administrativeAction, .payloadFormatInvalid,
    .retainNotSupported, .qosNotSupported, .useAnotherServer, .serverMoved,
    .sharedSubscriptionNotSupported, .connectionRateExceeded, .maximumConnectTime,
    .subscriptionIdentifiersNotSupported, .wildcardSubscriptionsNotSupported]
  code
    | .normalDisconnection => 0x00
    | .disconnectWithWillMessage => 0x04
    | .unspecifiedError => 0x80
    | .malformedPacket => 0x81
    | .protocolError => 0x82
    | .implementationSpecificError => 0x83
    | .notAuthorized => 0x87
    | .serverBusy => 0x89
    | .serverShuttingDown => 0x8B
    | .keepAliveTimeout => 0x8D
    | .sessionTakenOver => 0x8E
    | .topicFilterInvalid => 0x8F
    | .topicNameInvalid => 0x90
    | .receiveMaximumExceeded => 0x93
    | .topicAliasInvalid => 0x94
    | .packetTooLarge => 0x95
    | .messageRateTooHigh => 0x96
    | .quotaExceeded => 0x97
    | .administrativeAction => 0x98
    | .payloadFormatInvalid => 0x99
    | .retainNotSupported => 0x9A
    | .qosNotSupported => 0x9B
    | .useAnotherServer => 0x9C
    | .serverMoved => 0x9D
    | .sharedSubscriptionNotSupported => 0x9E
    | .connectionRateExceeded => 0x9F
    | .maximumConnectTime => 0xA0
    | .subscriptionIdentifiersNotSupported => 0xA1
    | .wildcardSubscriptionsNotSupported => 0xA2
  name
    | .normalDisconnection => "NormalDisconnection"
    | .disconnectWithWillMessage => "DisconnectWithWillMessage"
    | .unspecifiedError => "UnspecifiedError"
    | .malformedPacket => "MalformedPacket"
    | .protocolError => "ProtocolError"
    | .implementationSpecificError => "ImplementationSpecificError"
    | .notAuthorized => "NotAuthorized"
    | .serverBusy => "ServerBusy"
    | .serverShuttingDown => "ServerShuttingDown"
    | .keepAliveTimeout => "KeepAliveTimeout"
    | .sessionTakenOver => "SessionTakenOver"
    | .topicFilterInvalid => "TopicFilterInvalid"
    | .topicNameInvalid => "TopicNameInvalid"
    | .receiveMaximumExceeded => "ReceiveMaximumExceeded"
    | .topicAliasInvalid => "TopicAliasInvalid"
    | .packetTooLarge => "PacketTooLarge"
    | .messageRateTooHigh => "MessageRateTooHigh"
    | .quotaExceeded => "QuotaExceeded"
    | .administrativeAction => "AdministrativeAction"
    | .payloadFormatInvalid => "PayloadFormatInvalid"
    | .retainNotSupported => "RetainNotSupported"
    | .qosNotSupported => "QoSNotSupported"
    | .useAnotherServer => "UseAnotherServer"
    | .serverMoved => "ServerMoved"
    | .sharedSubscriptionNotSupported => "SharedSubscriptionNotSupported"
    | .connectionRateExceeded => "ConnectionRateExceeded"
    | .maximumConnectTime => "MaximumConnectTime"
    | .subscriptionIdentifiersNotSupported => "SubscriptionIdentifiersNotSupported"
    | .wildcardSubscriptionsNotSupported => "WildcardSubscriptionsNotSupported"
  mem_all r := by cases r <;> decide
  nodup_code := by decide

end MqttClient
