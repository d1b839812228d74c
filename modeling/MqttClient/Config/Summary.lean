import MqttClient.Config
import MqttClient.Quoted

/-! A configuration on one line. The password is not shown. -/

namespace MqttClient

namespace Summary

def separated (l : List String) : String := ", ".intercalate l

def list (l : List String) : String := "[" ++ separated l ++ "]"

def tuple (l : List String) : String := "(" ++ separated l ++ ")"

def record (name : String) (fields : List (String × String)) : String :=
  name ++ " \x7b " ++ separated (fields.map fun (key, value) => key ++ ": " ++ value) ++ " \x7d"

def option (value : Option String) : String := value.elim "None" ("Some" ++ tuple [·])

end Summary

def Property.summary (p : Property) : String :=
  let value := match p with
    | byte _ v => [toString v]
    | twoBytes _ v => [toString v]
    | fourBytes _ v => [toString v]
    | text _ v => [Quoted.text v]
    | binary _ v => [Quoted.bytes v]
    | subscriptionIdentifier v => [toString v]
    | userProperty k v => [Quoted.text k, Quoted.text v]
  p.id.name ++ Summary.tuple value

def Properties.summary (ps : Properties) : String :=
  "Properties" ++ Summary.tuple [Summary.list (ps.map Property.summary)]

def LastWill.summary (w : LastWill) : String :=
  Summary.record "LastWill"
    [("topic", Quoted.text w.topic), ("message", Quoted.bytes w.message), ("qos", w.qos.name),
     ("retain", toString w.retain), ("properties", Properties.summary w.properties)]

def ReconnectOptions.summary (o : ReconnectOptions) : String :=
  Summary.record "ReconnectOptions"
    [("min_backoff", o.minBackoff.text), ("max_backoff", o.maxBackoff.text),
     ("jitter", o.jitter.text)]

def Config.summary (c : Config) : String :=
  Summary.record "SessionConfig"
    [("broker_addr", Quoted.text c.host), ("port", toString c.port),
     ("keep_alive", c.keepAlive.text), ("clean_start", toString c.cleanStart),
     ("client_id", Quoted.text c.clientId),
     ("username", Summary.option (c.username.map Quoted.text)),
     ("max_packet_size", Summary.tuple [toString c.maxIncoming, toString c.maxOutgoing]),
     ("inflight", toString c.inflight),
     ("last_will", Summary.option (c.lastWill.map LastWill.summary)),
     ("connect_timeout", c.connectTimeout.text), ("ack_timeout", c.ackTimeout.text),
     ("max_retries", toString c.maxRetries), ("timeout_policy", c.timeoutPolicy.name),
     ("reconnect", Summary.option (c.reconnect.map ReconnectOptions.summary))]

end MqttClient
