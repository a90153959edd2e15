/-!
# Topic names and topic filters

Both are split into levels at `/`. In a filter the level `+` stands for any one level, and the
last level `#` for any number of levels, none included. `covers` is the matching rule and
`isValidFilter` the grammar of filters.
-/
namespace MqttClient.Topic

/-- One level of a topic name or filter. -/
abbrev Level := List Char

/-- The level that stands for any one level. -/
def single : Level := ['+']

/-- The level that stands for all levels from there on. -/
def multi : Level := ['#']

/-- The levels of a topic, at least one. -/
def levels (topic : String) : List Level := topic.toList.splitOn '/'

/-- Whether a character is one of the two wildcards. -/
def isWildcard (c : Char) : Bool := c == '+' || c == '#'

/-- Whether either wildcard occurs among some characters. -/
def wild (cs : List Char) : Bool := cs.any isWildcard

/-- Whether either wildcard occurs in a topic. -/
def hasWildcard (topic : String) : Bool := wild topic.toList

/-- Whether the levels of a filter cover the levels of a name. A `#` that is not the last level
covers nothing. -/
def coversLevels : List Level → List Level → Bool
  | filter :: filters, names =>
    if filter = multi then filters.isEmpty
    else
      match names with
      | [] => false
      | name :: names =>
        if filter = single ∨ filter = name then coversLevels filters names else false
  | [], names => names.isEmpty

/-- Whether a filter covers a topic name. Neither may be empty, equal texts always match, and a
filter that begins with a wildcard covers no name that begins with `$`. -/
def covers (filter name : String) : Bool :=
  if name.isEmpty || filter.isEmpty then false
  else if name = filter then true
  else if name.toList.head? = some '$' && filter.toList.head?.any isWildcard then false
  else coversLevels (levels filter) (levels name)

/-- Whether each wildcard fills its level and `#` is the last one. -/
def validLevels : List Level → Bool
  | [] => true
  | level :: rest =>
    if level = multi then rest.isEmpty
    else if level = single ∨ wild level = false then validLevels rest
    else false

/-- Whether a text is a topic filter. -/
def isValidFilter (filter : String) : Bool :=
  !filter.isEmpty && validLevels (levels filter)

/-- How a filter asks for a subscription that several clients share. -/
def sharedMark : String := "$share/"

/-- Whether a filter asks for a shared subscription. -/
def isShared (filter : String) : Bool := sharedMark.toList.isPrefixOf filter.toList

end MqttClient.Topic
