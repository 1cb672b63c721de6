import CodeTree.Text.Inspect

/-!
# Settings of the Lua emitter

* `Target` is the dialect of Lua that is written.
* `NamedArguments` says what becomes of the names of arguments, which Lua does not have.
* `Config` puts these together with the indentation and the permission for raw code.
-/

namespace CodeTree.Lua

set_option autoImplicit false

/-- A dialect of Lua. LuaJIT has the semantics of Lua 5.1 and the `bit` library. -/
inductive Target
  | lua53
  | lua54
  | luaJIT
  deriving DecidableEq

namespace Target

def all : List Target := [lua53, lua54, luaJIT]

def name : Target → String
  | lua53 => "Lua53"
  | lua54 => "Lua54"
  | luaJIT => "LuaJIT"

def ofName? (text : String) : Option Target := all.find? (·.name == text)

/-- Whether there are operators on bits. -/
def hasNativeBitwise (t : Target) : Bool := decide (t ≠ luaJIT)

/-- Whether there are integers apart from floating point numbers, and with them `//` and
`math.mininteger`. -/
def hasIntegers (t : Target) : Bool := decide (t ≠ luaJIT)

/-- Whether a local can be declared constant. -/
def hasConstants (t : Target) : Bool := decide (t = lua54)

end Target

instance : Inhabited Target := ⟨.lua54⟩

/-- What becomes of the name of an argument: it is dropped, or the call is refused. -/
inductive NamedArguments
  | positional
  | reject
  deriving DecidableEq, Inhabited

namespace NamedArguments

def name : NamedArguments → String
  | positional => "Positional"
  | reject => "Reject"

end NamedArguments

/-- Settings of the emitter. Raw code is only for trees that were built for Lua. -/
structure Config where
  indentWidth : Nat := 2
  target : Target := default
  allowRaw : Bool := false
  namedArguments : NamedArguments := default
  deriving DecidableEq

instance : Inhabited Config := ⟨{}⟩

namespace Config

/-- Debug text of the settings. -/
def inspect (c : Config) : String :=
  Inspect.record "LuaGenConfig"
    [("indent_width", toString c.indentWidth), ("target", c.target.name),
     ("allow_raw_passthrough", Inspect.bool c.allowRaw),
     ("named_arguments", c.namedArguments.name)]

end Config

end CodeTree.Lua
