import Parley.Fault
import Parley.Text.Slice

/-!
# Lines and choices

A line of dialogue arrives as raw text with marked spans.  The span named
`character` covers the speaker and what separates the speaker from the words;
its property `name` says who speaks.  What a host displays is the text without
that span.

A `Branch` is an option the script offers; a `Choice` is what the host holds and
hands back.  A host can make a choice of its own that stands for no branch.
-/

namespace Parley

/-- A marked span of a line's text with its properties. -/
structure Attribute where
  name : Datum
  position : Int := 0
  length : Int := 0
  properties : List (Datum × Datum) := []

/-- The position just after the span. -/
def Attribute.stop (a : Attribute) : Int := a.position + a.length

/-- The property under a key; nothing when there is none. -/
def Attribute.property (a : Attribute) (key : Datum) : Datum :=
  ((a.properties.find? fun e => e.1.same key).map (·.2)).getD .nothing

structure Line where
  id : Datum
  raw : String := ""
  attributes : List Attribute := []
deriving Inhabited

namespace Line

/-- The name of the span over the speaker, and of the property that names them. -/
def speakerSpan : String := "character"
def speakerProperty : String := "name"

/-- The first span of a name. -/
def attribute? (l : Line) (name : Datum) : Option Attribute :=
  l.attributes.find? fun a => a.name.same name

/-- A property of the first span of a name, if there is one; what may not be a key
cannot be looked for. -/
def property (l : Line) (name key : Datum) : Except Fault Datum :=
  match l.attribute? name with
  | some a => key.asKey.map a.property
  | none => .ok .nothing

/-- The first span over the speaker. -/
def speakerAttribute? (l : Line) : Option Attribute := l.attribute? (.text speakerSpan)

/-- Who speaks the line, if anybody.  A name need not be a text, but has to have one. -/
def speaker (l : Line) : Except Fault (Option String) :=
  match l.speakerAttribute?.map fun a => a.property (.text speakerProperty) with
  | none | some Datum.nothing => .ok none
  | some d => if d.hasText then .ok (some d.plain) else .error (.accident .value)

/-- The text without the span over the speaker. -/
def text (l : Line) : String :=
  match l.speakerAttribute? with
  | none => l.raw
  | some a =>
    String.ofList (Text.before l.raw.toList a.position ++ Text.after l.raw.toList a.stop)

/-- The part of the raw text that a span covers; a span may not end past it. -/
def covered (l : Line) (a : Attribute) : Except Fault String :=
  if (l.raw.length : Int) < a.stop then
    .error (.telling (.int a.stop) (.spanPastEnd a.name.plain a.stop l.id.plain))
  else .ok (String.ofList (Text.between l.raw.toList a.position a.stop))

/-- What stands before the first colon that a space follows. -/
def beforeColon? : List Char → Option (List Char)
  | ':' :: ' ' :: _ => some []
  | c :: rest => (beforeColon? rest).map (c :: ·)
  | [] => none

/-- A line from raw text: a single word before a colon and a space is the
speaker. -/
def withSpeaker (id : Datum) (raw : String) : Line :=
  match beforeColon? raw.toList with
  | none => { id, raw }
  | some name =>
    if name.contains ' ' then { id, raw }
    else
      { id, raw
        attributes := [{ name := .text speakerSpan, position := 0, length := name.length + 2
                         properties := [(.text speakerProperty, .text (String.ofList name))] }] }

end Line

/-- An option that a script offers. -/
structure Branch where
  id : Datum
  line : Line
  destination : Datum
  available : Datum := .bool true
deriving Inhabited

/-- What a host picks: a branch, or nothing. -/
structure Choice where
  branch : Option Branch := none
deriving Inhabited

namespace Choice

/-- The branch behind the choice; an empty choice has none to show. -/
def required (c : Choice) : Except Fault Branch :=
  match c.branch with
  | some b => .ok b
  | none => .error .emptyChoice

def id (c : Choice) : Except Fault Datum := c.required.map (·.id)

def line (c : Choice) : Except Fault Line := c.required.map (·.line)

def destination (c : Choice) : Except Fault Datum := c.required.map (·.destination)

def available (c : Choice) : Except Fault Datum := c.required.map (·.available)

/-- The choice as it stands in a message. -/
def shown (c : Choice) : Except Fault String :=
  match c.branch with
  | none => .ok "DialogueChoice(<empty>)"
  | some b =>
    if Datum.haveText [b.id, b.line.id] then
      .ok ("DialogueChoice(id=" ++ b.id.plain ++ ", line=" ++ b.line.id.literal ++ ")")
    else .error (.accident .value)

end Choice

end Parley
