/-! Topic names and topic filters. Both are lists of levels between slashes; in a filter, a level
`+` stands for any one level and a last level `#` for any number of them. -/

namespace MqttClient.Topic

/-- The longest name or filter, in bytes of its UTF-8 form. -/
def maxSize : Nat := 65535

abbrev Level := List Char

def levels (s : String) : List Level := s.toList.splitOn '/'

def isWildcard (c : Char) : Bool := c == '+' || c == '#'

def hasWildcards (s : String) : Bool := s.toList.any isWildcard

/-- What names and filters have in common. -/
def isValid (s : String) : Bool :=
  !s.isEmpty && s.utf8ByteSize ≤ maxSize && !s.toList.contains '\x00'

def isName (s : String) : Bool := isValid s && !hasWildcards s

/-- The levels of a filter: `+` and `#` are whole levels, and `#` is the last. -/
def wellPlaced : List Level → Bool
  | [] => true
  | l :: ls => (l == ['+'] || (l == ['#'] && ls.isEmpty) || !l.any isWildcard) && wellPlaced ls

def isFilter (s : String) : Bool := isValid s && wellPlaced (levels s)

/-- A level `#` also stands for no level at all, so that `a/#` matches `a`. -/
def matchLevels : (topic filter : List Level) → Bool
  | topic, [] => topic.isEmpty
  | topic, f :: fs =>
    if f = ['#'] then true
    else match topic with
      | [] => false
      | t :: ts => (f = ['+'] || t = f) && matchLevels ts fs

/-- A topic that starts with a dollar sign belongs to the broker; a filter has to spell out its
first level to match it. -/
def isReservedFrom (topic filter : String) : Bool :=
  topic.toList.head? == some '$' && filter.toList.head?.any isWildcard

/-- Neither side is checked here. -/
def isMatch (topic filter : String) : Bool :=
  !isReservedFrom topic filter && matchLevels (levels topic) (levels filter)

end MqttClient.Topic
