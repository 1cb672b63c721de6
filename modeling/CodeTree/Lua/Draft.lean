import CodeTree.Lua.Error

/-!
# Drafts

Lua text is written piece by piece onto a draft, which also knows how deep in blocks the next line
stands and whether the `bit` library has been used. Writing stops at the first refusal.

* `write`, `newline` and `indent` add text; nothing that was written is ever changed.
* `capture` gives the text that an action would add instead of adding it.
* `deeper` runs an action one block further in.
-/

namespace CodeTree.Lua

set_option autoImplicit false

/-- Text in the making. -/
structure Draft where
  text : String
  depth : Nat
  usesBitLibrary : Bool
  deriving DecidableEq

def Draft.empty : Draft := ⟨"", 0, false⟩

/-- An action that writes onto a draft or refuses to. A refusal leaves the draft as far as it got. -/
abbrev Emit := EStateM EmitError Draft

def write (text : String) : Emit Unit :=
  modify fun d => { d with text := d.text ++ text }

def newline : Emit Unit := write "\n"

def spaces (n : Nat) : String := String.ofList (List.replicate n ' ')

/-- The indentation of a line at the current depth. -/
def indent (width : Nat) : Emit Unit :=
  modify fun d => { d with text := d.text ++ spaces (d.depth * width) }

/-- Marks the `bit` library as used. -/
def useBitLibrary : Emit Unit :=
  modify fun d => { d with usesBitLibrary := true }

/-- Runs an action apart from what is written so far, and returns what it wrote. -/
def capture (action : Emit Unit) : Emit String := do
  let before := (← get).text
  modify fun d => { d with text := "" }
  action
  let added := (← get).text
  modify fun d => { d with text := before }
  return added

/-- Runs an action one block further in. -/
def deeper (action : Emit Unit) : Emit Unit := do
  modify fun d => { d with depth := d.depth + 1 }
  action
  modify fun d => { d with depth := d.depth - 1 }

end CodeTree.Lua
