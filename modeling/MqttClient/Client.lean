import MqttClient.Engine.Basic

/-! What a client may ask for. A call with a bad topic or filter fails before the engine sees it. -/

namespace MqttClient.Client

structure Draft where
  topic : String
  qos : QoS
  retain : Bool := false
  payload : Bytes
  properties : Properties := []
  deriving DecidableEq, Repr

def publish (id : CallId) (d : Draft) : Except ClientError Call :=
  if Topic.isName d.topic then
    .ok (.publish id { qos := d.qos, retain := d.retain, topic := d.topic,
                       properties := d.properties, payload := d.payload })
  else .error (.invalidTopic d.topic)

def checkFilters (paths : List String) : Except ClientError Unit :=
  if paths.isEmpty then .error (.encoding .emptySubscription)
  else match paths.find? fun path => !Topic.isFilter path with
    | some path => .error (.invalidFilter path)
    | none => .ok ()

def subscribe (id : CallId) (filters : List Filter) (handler : HandlerId) :
    Except ClientError Call := do
  checkFilters (filters.map (·.path))
  return .subscribe id { filters } handler

def unsubscribe (id : CallId) (filters : List String) : Except ClientError Call := do
  checkFilters filters
  return .unsubscribe id { filters }

end MqttClient.Client
