import Abacus.Log.Event
import Abacus.Pattern.Reader
import Abacus.Text.Decimal
import Abacus.Text.Numeral

/-
  Directives of log filters.

  A directive says up to which level the events that it
  concerns are shown. Its forms are

    level
    target
    target=level
    target[span{field}]=level
    target[span{field=value}]=level

  where the target, the span and the field may be missing,
  and a missing level stands for every level. A level is a
  name in any case, or a numeral up to five. A value is a
  number or a pattern.

  Key definitions include:
    * `Abacus.Directive`
    * `Abacus.Directive.concerns`
    * `Abacus.Directive.givesWay`
    * `Abacus.Directive.read?`
-/

------------------------------------------------------------
-- Directives
------------------------------------------------------------

namespace Abacus

/- A test on a field: that it is there, or has a value. -/
structure FieldTest where
  name : String
  value : Option String
deriving DecidableEq

/-
  A directive. It is for targets that start with a text and
  shows events up to a detail.
-/
structure Directive where
  target : String := ""
  span : Option String := none
  field : Option FieldTest := none
  detail : Nat
deriving DecidableEq

/-
  Whether an event passes a test. Only spans are tested for
  values, and nothing here happens in a span.
-/
def FieldTest.passes
    (t : FieldTest)
    (e : Event) : Bool :=
  t.value.isNone && e.fieldNames.contains t.name

namespace Directive

/-
  Whether a directive is for an event. One that names a span
  is for what happens in that span, so for no event here.
-/
def concerns
    (d : Directive)
    (e : Event) : Bool :=
  d.span.isNone &&
    d.target.toList.isPrefixOf e.target.toList &&
    d.field.all fun t => t.passes e

/-
  Whether a directive gives way to a later one when both are
  for the same event. The longer target decides, then the
  presence and the name of a field; the later of two equals
  replaces the earlier.
-/
def givesWay
    (d later : Directive) : Bool :=
  if d.target.length = later.target.length then
    match d.field, later.field with
    | none, _ => true
    | some _, none => false
    | some t, some u => t.name ≤ u.name
  else
    d.target.length < later.target.length

end Directive

end Abacus

------------------------------------------------------------
-- Reading Levels and Tests
------------------------------------------------------------

namespace Abacus

namespace Directive

/- The detail that shows every level. -/
def everyDetail : Nat :=
  Level.trace.detail

/- The detail of the name of a level. -/
def detailOfName? :
    String → Option Nat
| "off" => some 0
| "error" => some Level.error.detail
| "warn" => some Level.warn.detail
| "info" => some Level.info.detail
| "debug" => some Level.debug.detail
| "trace" => some Level.trace.detail
| _ => none

/- The detail of a name in any case, or of a numeral. -/
def readDetail?
    (text : List Char) : Option Nat :=
  match Text.readNumeral text with
  | .ok n => if n ≤ everyDetail then some n else none
  | .error _ =>
      detailOfName? (String.ofList (text.map Char.toLower))

/- Whether a text can be the value of a test. -/
def isValue
    (text : List Char) : Bool :=
  Text.isDecimal text || Pattern.isValid text

/-
  The test of the text between braces. What follows a second
  equals sign does not matter.
-/
def readTest?
    (text : List Char) : Option FieldTest :=
  let name := String.ofList (text.takeWhile (· != '='))
  match text.dropWhile (· != '=') with
  | [] => some ⟨name, none⟩
  | _ :: rest =>
      let value := rest.takeWhile (· != '=')
      if isValue value then
        some ⟨name, some (String.ofList value)⟩
      else
        none

end Directive

end Abacus

------------------------------------------------------------
-- Reading Directives
------------------------------------------------------------

namespace Abacus

namespace Directive

/- The parts of a directive. -/
inductive Part where
/- Nothing is read yet. -/
| opening
/- A target, or a level that stands alone. -/
| name
/- The name of a span. -/
| span
/- The test on a field. -/
| field
/- Behind the test. -/
| fieldEnd
/- Behind the span. -/
| spanEnd
/- The level. -/
| level
deriving DecidableEq

/-
  What is read of a directive: the part being read with its
  bytes, and the parts before it.
-/
structure Draft where
  part : Part := .opening
  bytes : List UInt8 := []
  target : String := ""
  span : Option String := none
  field : Option FieldTest := none
deriving DecidableEq

namespace Draft

/- Read another byte of a part. -/
def add
    (d : Draft)
    (byte : UInt8) : Draft :=
  { d with bytes := d.bytes ++ [byte] }

/- Go on to another part. -/
def enter
    (d : Draft)
    (part : Part) : Draft :=
  { d with part := part, bytes := [] }

/- The text of a part, if it consists of characters. -/
def word?
    (d : Draft) : Option String :=
  String.fromUTF8? ⟨d.bytes.toArray⟩

/- End the target and go on to another part. -/
def endTarget
    (d : Draft)
    (part : Part) : Option Draft := do
  let word ← d.word?
  return { d with target := word }.enter part

/- End the span and go on to another part. -/
def endSpan
    (d : Draft)
    (part : Part) : Option Draft := do
  let word ← d.word?
  return { d with span := some word }.enter part

/- End the test on a field, which must not be empty. -/
def endField
    (d : Draft) : Option Draft := do
  let word ← d.word?
  if word.isEmpty then
    none
  else
    let test ← readTest? word.toList
    return { d with field := some test }.enter .fieldEnd

/-
  Read a byte. The mark decides whether the part ends; the
  byte is what the part takes otherwise.
-/
def step
    (d : Draft) :
    UInt8 × UInt8 → Option Draft
| (mark, byte) =>
    match d.part with
    | .opening =>
        if mark == '['.toUInt8 then
          some (d.enter .span)
        else
          some ((d.enter .name).add byte)
    | .name =>
        if mark == '='.toUInt8 then
          d.endTarget .level
        else if mark == '['.toUInt8 then
          d.endTarget .span
        else
          some (d.add byte)
    | .span =>
        if mark == ']'.toUInt8 then
          d.endSpan .spanEnd
        else if mark == '\x7b'.toUInt8 then
          if d.bytes.isEmpty then
            some (d.enter .field)
          else
            d.endSpan .field
        else
          some (d.add byte)
    | .field =>
        if mark == '\x7d'.toUInt8 then
          d.endField
        else
          some (d.add byte)
    | .fieldEnd =>
        if mark == ']'.toUInt8 then
          some (d.enter .spanEnd)
        else
          none
    | .spanEnd =>
        if mark == '='.toUInt8 then
          some (d.enter .level)
        else
          none
    | .level => some (d.add byte)

/- The directive of a draft that shows up to a detail. -/
def toDirective
    (d : Draft)
    (detail : Nat) : Directive where
  target := d.target
  span := d.span
  field := d.field
  detail := detail

/- The directive of a target, or of a level alone. -/
def finishName
    (d : Draft)
    (word : String) : Directive :=
  match readDetail? word.toList with
  | some detail => d.toDirective detail
  | none =>
      { d with target := word }.toDirective everyDetail

/- The directive of a draft with a level, or without. -/
def finishLevel
    (d : Draft)
    (word : String) : Option Directive :=
  if word.isEmpty then
    some (d.toDirective everyDetail)
  else
    (readDetail? word.toList).map d.toDirective

/- The directive of a draft at the end of the text. -/
def finish
    (d : Draft) : Option Directive :=
  match d.part with
  | .name => d.word?.map d.finishName
  | .level => d.word?.bind d.finishLevel
  | .spanEnd => some (d.toDirective everyDetail)
  | .opening | .span | .field | .fieldEnd => none

end Draft

/- Whether a character may start a directive. -/
def starts
    (c : Char) : Bool :=
  c == '[' || c == '-' || c == ':' || c == '_' ||
    Text.isAlphanumeric c

/- The bytes of a text. -/
def bytesOf
    (text : List Char) : List UInt8 :=
  text.flatMap String.utf8EncodeChar

/-
  Read a directive. The marks that end its parts are looked
  for in the trimmed text, but the parts are taken from the
  same places of the whole text, counted in bytes. So blanks
  are not ignored: those in front shift every part, and
  those at the end belong to the last part.
-/
def read?
    (text : List Char) : Option Directive := do
  let trimmed := Text.trim text
  if trimmed.head?.any starts then
    let marks := bytesOf trimmed
    let bytes := bytesOf text
    let draft ← (marks.zip bytes).foldlM Draft.step {}
    { draft with
      bytes :=
        draft.bytes ++ bytes.drop marks.length }.finish
  else
    none

end Directive

end Abacus
