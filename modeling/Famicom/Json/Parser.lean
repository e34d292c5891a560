import Famicom.Json.Token

/-!
# Reading documents

Tokens are put together with a stack of the arrays and objects that are still
open. Nesting is not limited.
-/

namespace Famicom.Json

namespace Document

/-- The members of an object. A name that is not Unicode is missing. -/
abbrev Members := List (Option String × Document)

def ofMembers (members : Members) : Document :=
  match members.mapM fun (name, value) => name.map (·, value) with
  | some members => .object members
  | none => .unreadable

/-- An array or object that is still open, with its contents in reverse. -/
inductive Frame where
  | items (before : List Document)
  | members (before : Members) (name : Option String)

inductive Expected where
  /-- A value, or the end of an array that was just opened. -/
  | value (mayClose : Bool)
  /-- A name, or the end of an object that was just opened. -/
  | name (mayClose : Bool) (before : Members)
  | colon (before : Members) (name : Option String)
  /-- Whatever continues or closes the innermost open frame. -/
  | after (value : Document)

structure Partial where
  expected : Expected
  openFrames : List Frame

def Partial.feed? (p : Partial) (t : Token) : Option Partial :=
  let complete (v : Document) (frames : List Frame) : Option Partial :=
    some { expected := .after v, openFrames := frames }
  match p.expected, t with
  | .value _, .null => complete .null p.openFrames
  | .value _, .bool b => complete (.bool b) p.openFrames
  | .value _, .number n => complete (.number n) p.openFrames
  | .value _, .text s => complete (s.elim .unreadable .text) p.openFrames
  | .value _, .openArray =>
    some { expected := .value true, openFrames := .items [] :: p.openFrames }
  | .value _, .openObject => some { p with expected := .name true [] }
  | .value true, .closeArray =>
    match p.openFrames with
    | .items [] :: frames => complete (.array []) frames
    | _ => none
  | .name _ before, .text s => some { p with expected := .colon before s }
  | .name true _, .closeObject => complete (.object []) p.openFrames
  | .colon before name, .colon =>
    some { expected := .value false, openFrames := .members before name :: p.openFrames }
  | .after v, .comma =>
    match p.openFrames with
    | .items before :: frames =>
      some { expected := .value false, openFrames := .items (v :: before) :: frames }
    | .members before name :: frames =>
      some { expected := .name false ((name, v) :: before), openFrames := frames }
    | [] => none
  | .after v, .closeArray =>
    match p.openFrames with
    | .items before :: frames => complete (.array (v :: before).reverse) frames
    | _ => none
  | .after v, .closeObject =>
    match p.openFrames with
    | .members before name :: frames =>
      complete (ofMembers ((name, v) :: before).reverse) frames
    | _ => none
  | _, _ => none

/-- The document that the tokens spell out, if they spell exactly one. -/
def ofTokens? (ts : List Token) : Option Document := do
  let p ← ts.foldlM Partial.feed? { expected := .value false, openFrames := [] }
  match p.expected, p.openFrames with
  | .after v, [] => some v
  | _, _ => none

def parse? (bytes : ByteArray) : Option Document := do
  ofTokens? (← Token.ofBytes? bytes)

end Document

end Famicom.Json
