import RegexInsight.Dialect
import RegexInsight.Unicode.Lowercase
import RegexInsight.Unicode.Space

/-! # Dialect Registry

    The known dialects in order of registration, and the aliases by which
    they can also be named.  Registering a dialect replaces the one with
    its id and takes its aliases over from other dialects; unregistering
    removes a dialect with every alias that points to it. -/

namespace RegexInsight

/-- The dialects with their aliases; an alias names a dialect by its id. -/
structure Registry where
  dialects : List Dialect
  aliases : List (String × String)
  deriving DecidableEq, Repr

/-- A name that no dialect has. -/
structure UnknownDialect where
  name : String
  available : List String
  deriving DecidableEq, Repr

namespace UnknownDialect

def message (e : UnknownDialect) : String :=
  "Unknown dialect '" ++ e.name ++ "'. Available: " ++ ", ".intercalate e.available

end UnknownDialect

/-- A name in lower case. -/
def lowercased (name : String) : String :=
  String.ofList (lowercase name.toList)

/-- The form in which names are looked up: without outer whitespace, in lower
    case, and with underscores for dashes. -/
def lookupKey (name : String) : String :=
  String.ofList ((lowercase (trimmed name.toList)).map fun c => if c == '-' then '_' else c)

namespace Registry

/-- No dialect is known. -/
def empty : Registry := ⟨[], []⟩

/-- The ids in order of registration. -/
def ids (r : Registry) : List String :=
  r.dialects.map Dialect.id

/-- Whether a dialect has this id. -/
def contains (r : Registry) (id : String) : Bool :=
  r.ids.contains id

/-- The dialect of an id. -/
def find? (r : Registry) (id : String) : Option Dialect :=
  r.dialects.find? fun d => d.id == id

/-- The id that an alias points to. -/
def aliasTarget? (r : Registry) (key : String) : Option String :=
  (r.aliases.find? fun entry => entry.1 == key).map Prod.snd

/-- Points an alias to an id, in place of what it pointed to before. -/
def pointAlias (id : String) (aliases : List (String × String)) (key : String) :
    List (String × String) :=
  aliases.filter (fun entry => entry.1 != key) ++ [(key, id)]

/-- Removes a dialect and the aliases that point to it; an unknown id changes
    nothing. -/
def unregister (r : Registry) (id : String) : Registry :=
  if r.contains id then
    ⟨r.dialects.filter fun d => d.id != id, r.aliases.filter fun entry => entry.2 != id⟩
  else r

/-- Adds a dialect after all others, in place of one with its id. -/
def register (r : Registry) (d : Dialect) : Registry :=
  let cleared := r.unregister d.id
  ⟨cleared.dialects ++ [d],
    (d.aliases.map lowercased).foldl (pointAlias d.id) cleared.aliases⟩

/-- The id that a name stands for, as an id or as an alias. -/
def resolve (r : Registry) (name : String) : Except UnknownDialect String :=
  let key := lookupKey name
  if r.contains key then .ok key
  else
    match r.aliasTarget? key with
    | some id => .ok id
    | none => .error ⟨name, r.ids⟩

/-- Whether a name stands for a dialect. -/
def has (r : Registry) (name : String) : Bool :=
  match r.resolve name with
  | .ok _ => true
  | .error _ => false

/-- The dialect that a name stands for. -/
def get (r : Registry) (name : String) : Except UnknownDialect Dialect := do
  let id ← r.resolve name
  match r.find? id with
  | some d => return d
  | none => throw ⟨name, r.ids⟩

end Registry

end RegexInsight
