import Debundle.Yaml.Place
import Debundle.Text.Utf8

/-!
# Scalars, tags and directives as they are written

Readers for the tokens of a document that have a content of their own.

* `Scan.plain`, `Scan.quoted`, `Scan.block`: the three ways to write a scalar.
* `Scan.tag`, `Scan.word`: what may stand before a node.
* `Scan.directive`: a line that begins with a percent sign.
-/

namespace Debundle.Yaml

/-- What a directive says. -/
inductive Directive where
  /-- The version of the format. -/
  | version (major : Nat)
  /-- What a handle in front of a tag stands for. -/
  | handle (handle meaning : Text)
  /-- Something that is passed over. -/
  | other
deriving DecidableEq, Repr

/-- A tag as it is written: a handle, if there is one, and what follows it. -/
structure Tag where
  /-- The handle. -/
  handle : Option Text
  /-- What follows. -/
  suffix : Text
deriving DecidableEq, Repr

namespace Scan

/-! ## Tags -/

/-- Whether a code point may stand in a tag. -/
def isUriPart (c : CodePoint) : Bool :=
  c.isLetter || c.isDigit || ("-;/?:@&=+$,_.!~*'()[]".toList.any (c.is ·))

/-- Reads the bytes that percent signs and hexadecimal digits give. -/
def uriEscapes : Scan Text := do
  let bytes ← iterate (fun (found : Bytes) => do
    if ← sees '%' then
      forward 1
      let digits ← take 2
      require (digits.length == 2 && digits.all CodePoint.isHexDigit)
      return ((Text.readNat 16 digits).toUInt8 :: found, true)
    else return (found, false)) []
  match Bytes.decode bytes.reverse with
  | .ok t => return t
  | .error _ => fail

/-- Reads what may follow a handle; it may not be empty. -/
def uri : Scan Text := do
  let found ← iterate (fun (found : Text) => do
    let piece ← takeWhile isUriPart
    if ← sees '%' then return (found ++ piece ++ (← uriEscapes), true)
    else return (found ++ piece, false)) []
  require !found.isEmpty
  return found

/-- Reads a handle: an exclamation mark before a space, or a word between two of them. -/
def handle : Scan Text := do
  require (← sees '!')
  forward 1
  if ← sees ' ' then return "!"
  else
    let w ← takeWhile isWordPart
    require (← sees '!')
    forward 1
    return "!" ++ w ++ "!"

/-- Reads a tag. -/
def tag : Scan Tag := do
  let second ← peekAt 1
  let found ←
    if second.any (·.is '<') then
      forward 2
      let suffix ← uri
      require (← sees '>')
      forward 1
      pure ⟨none, suffix⟩
    else if endsMark second then
      forward 1
      pure ⟨none, Text.ofString "!"⟩
    else
      let rest := ((← get).rest.drop 1).takeWhile fun c => !endsWord (some c)
      if rest.any (·.is '!') then
        let h ← handle
        pure ⟨some h, ← uri⟩
      else
        forward 1
        pure ⟨some "!", ← uri⟩
  require (endsWord (← peek))
  return found

/-! ## Words -/

/-- Reads the name of an anchor. -/
def word : Scan Text := do
  forward 1
  let w ← takeWhile isWordPart
  require !w.isEmpty
  let next ← peek
  require (endsMark next || next.any fun c => "?:,]\x7d%@\x60".toList.any (c.is ·))
  return w

/-! ## Directives -/

/-- Reads a number. -/
def number : Scan Nat := do
  let digits ← takeWhile CodePoint.isDigit
  require !digits.isEmpty
  return Text.readNat 10 digits

/-- Passes over what may stand behind the content of a line. -/
def ignoredLine : Scan Unit := do
  skipSpaces
  skipComment
  require (endsLine (← peek))
  let _ ← lineBreak

/-- Reads a directive. -/
def directive : Scan Directive := do
  forward 1
  let name ← takeWhile isWordPart
  require (!name.isEmpty && endsWord (← peek))
  let found ←
    if name == Text.ofString "YAML" then
      skipSpaces
      let major ← number
      require (← sees '.')
      forward 1
      let _ ← number
      require (endsWord (← peek))
      pure (.version major)
    else if name == Text.ofString "TAG" then
      skipSpaces
      let h ← handle
      require (← sees ' ')
      skipSpaces
      let meaning ← uri
      require (endsWord (← peek))
      pure (.handle h meaning)
    else
      let _ ← takeWhile fun c => !isBreak c
      pure .other
  ignoredLine
  return found

/-! ## Plain scalars -/

/-- How many code points of a plain scalar stand together at the front of a text.  In a flow
collection its marks end the scalar. -/
def plainSize (inFlow : Bool) : Text → Nat
  | [] => 0
  | c :: cs =>
    let flowMark (d : CodePoint) : Bool := ",[]\x7b\x7d".toList.any (d.is ·)
    if endsMark (some c) then 0
    else if c.is ':' && (endsMark cs.head? || (inFlow && cs.head?.any flowMark)) then 0
    else if inFlow && (flowMark c || c.is '?') then 0
    else plainSize inFlow cs + 1

/-- What joins the lines of a scalar: nothing more than the breaks if there are several or if the
first is not an ordinary one, a space otherwise. -/
def foldBreaks (first breaks : Text) : Text :=
  if first != Text.ofString "\n" then first ++ breaks else if breaks.isEmpty then " " else breaks

/-- Reads what stands between two pieces of a plain scalar; nothing if it ends there.  The second
part of the answer says whether a line ended. -/
def plainGap : Scan (Option Text × Bool) := do
  let spaces ← takeWhile (·.is ' ')
  let first ← lineBreak
  if first.isEmpty then return (if spaces.isEmpty then none else some spaces, false)
  else if ← seesSeparator then return (none, true)
  else
    let breaks ← iterate (fun (found : Option Text) => do
      match found with
      | none => return (none, false)
      | some t =>
        skipSpaces
        let more ← lineBreak
        if more.isEmpty then return (some t, false)
        else if ← seesSeparator then return (none, false)
        else return (some (t ++ more), true)) (some [])
    return (breaks.map (foldBreaks first), true)

/-- How far a plain scalar has been read. -/
structure PlainState where
  /-- What has been read. -/
  text : Text
  /-- What stands between that and the next piece. -/
  gap : Text
  /-- Whether a line ended behind the last piece. -/
  broken : Bool

/-- Reads a plain scalar whose continuation lines begin at column `indent` or later.  The second
part of the answer says whether a line ended behind it. -/
def plain (inFlow : Bool) (indent : Int) : Scan (Text × Bool) := do
  let final ← iterate (fun (s : PlainState) => do
    let size := plainSize inFlow (← get).rest
    if (← sees '#') || size == 0 then return (s, false)
    else
      let piece ← take size
      let text := s.text ++ s.gap ++ piece
      let (gap, broken) ← plainGap
      let column := (← get).column
      match gap with
      | none => return (⟨text, [], broken⟩, false)
      | some gap =>
        let stops := (← sees '#') || (!inFlow && (column : Int) < indent)
        return (⟨text, gap, broken⟩, !stops)) ⟨[], [], false⟩
  return (final.text, final.broken)

/-! ## Quoted scalars -/

/-- What a backslash and one code point stand for. -/
def escape? (c : CodePoint) : Option CodePoint :=
  match c.char with
  | '0' => some '\x00'
  | 'a' => some '\x07'
  | 'b' => some '\x08'
  | 't' => some '\t'
  | '\t' => some '\t'
  | 'n' => some '\n'
  | 'v' => some '\x0b'
  | 'f' => some '\x0c'
  | 'r' => some '\r'
  | 'e' => some '\x1b'
  | ' ' => some ' '
  | '"' => some '"'
  | '\\' => some '\\'
  | '/' => some '/'
  | 'N' => some '\u0085'
  | '_' => some '\u00a0'
  | 'L' => some '\u2028'
  | 'P' => some '\u2029'
  | _ => none

/-- How many hexadecimal digits follow a backslash and a code point. -/
def escapeDigits? (c : CodePoint) : Option Nat :=
  match c.char with
  | 'x' => some 2
  | 'u' => some 4
  | 'U' => some 8
  | _ => none

/-- The code point with a number. -/
def codePoint (n : Nat) : Scan Text :=
  match CodePoint.ofNat? n with
  | some c => return [c]
  | none => throw (if n < 0x80000000 then .notACodePoint else .escapeTooLarge)

/-- Reads empty lines and the blanks at the beginning of lines inside a quoted scalar. -/
def quotedBreaks : Scan Text :=
  iterate (fun (found : Text) => do
    require !(← seesSeparator)
    let _ ← takeWhile fun c => c.is ' ' || c.is '\t'
    let more ← lineBreak
    return (found ++ more, !more.isEmpty)) []

/-- Reads what a backslash begins. -/
def quotedEscape : Scan Text := do
  forward 1
  match ← peek with
  | none => fail
  | some c =>
    match escape? c, escapeDigits? c with
    | some d, _ =>
      forward 1
      return [d]
    | none, some n =>
      forward 1
      let digits ← take n
      require (digits.length == n && digits.all CodePoint.isHexDigit)
      codePoint (Text.readNat 16 digits)
    | none, none =>
      require (isBreak c)
      let _ ← lineBreak
      quotedBreaks

/-- Reads code points that are neither blank nor the closing quote. -/
def quotedPiece (double : Bool) : Scan Text :=
  iterate (fun (found : Text) => do
    let piece ← takeWhile fun c => !(endsMark (some c) || c.is '\x27' || c.is '"' || c.is '\\')
    let found := found ++ piece
    match ← peek with
    | none => return (found, false)
    | some c =>
      if !double && c.is '\x27' && (← peekAt 1).any (·.is '\x27') then
        forward 2
        return (found ++ [c], true)
      else if (double && c.is '\x27') || (!double && (c.is '"' || c.is '\\')) then
        forward 1
        return (found ++ [c], true)
      else if double && c.is '\\' then return (found ++ (← quotedEscape), true)
      else return (found, false)) []

/-- Reads blanks and line breaks inside a quoted scalar. -/
def quotedGap : Scan Text := do
  let blanks ← takeWhile fun c => c.is ' ' || c.is '\t'
  require (← peek).isSome
  let first ← lineBreak
  if first.isEmpty then return blanks else return foldBreaks first (← quotedBreaks)

/-- Reads a quoted scalar. -/
def quoted (double : Bool) : Scan Text := do
  let mark : Char := if double then '"' else '\x27'
  forward 1
  let first ← quotedPiece double
  let found ← iterate (fun (found : Text) => do
    if ← sees mark then return (found, false)
    else
      let gap ← quotedGap
      return (found ++ gap ++ (← quotedPiece double), true)) first
  require (← sees mark)
  forward 1
  return found

/-! ## Block scalars -/

/-- What becomes of the line breaks at the end of a block scalar. -/
inductive Chomping where
  /-- One is kept. -/
  | clip
  /-- None is kept. -/
  | strip
  /-- All are kept. -/
  | keep
deriving DecidableEq, Repr

/-- Reads how the end is treated, if it is said. -/
def chomping? : Scan (Option Chomping) := do
  if ← sees '+' then
    forward 1
    return some .keep
  else if ← sees '-' then
    forward 1
    return some .strip
  else return none

/-- Reads by how much the content is indented, if it is said. -/
def increment? : Scan (Option Nat) := do
  match ← peek with
  | none => return none
  | some c =>
    if c.isDigit then
      require !(c.is '0')
      forward 1
      return some (c.val - 0x30)
    else return none

/-- Reads the marks behind the one that begins a block scalar, in either order. -/
def blockHeader : Scan (Chomping × Option Nat) := do
  let before ← chomping?
  let increment ← increment?
  let after ← if before.isNone && increment.isSome then chomping? else pure none
  require (endsWord (← peek))
  return ((before.orElse fun _ => after).getD .clip, increment)

/-- Passes over spaces before column `indent`. -/
def skipIndent (indent : Nat) : Scan Unit := do
  let p ← get
  let spaces := (p.rest.takeWhile (·.is ' ')).length
  forward (min spaces (indent - p.column))

/-- Reads empty lines before a line of the content. -/
def blockBreaks (indent : Nat) : Scan Text := do
  skipIndent indent
  iterate (fun (found : Text) => do
    let more ← lineBreak
    if more.isEmpty then return (found, false)
    else
      skipIndent indent
      return (found ++ more, true)) []

/-- Reads empty lines before the first line of the content, and finds the greatest column on the
way. -/
def blockIndentation : Scan (Text × Nat) :=
  iterate (fun (found : Text × Nat) => do
    skipSpaces
    let deepest := max found.2 (← get).column
    let more ← lineBreak
    return ((found.1 ++ more, deepest), !more.isEmpty)) ([], 0)

/-- How far a block scalar has been read. -/
structure BlockState where
  /-- What has been read. -/
  text : Text
  /-- The end of the last line. -/
  lineEnd : Text
  /-- The empty lines behind it. -/
  breaks : Text

/-- Whether a blank stands here. -/
def seesBlank : Scan Bool := return (← peek).any fun c => c.is ' ' || c.is '\t'

/-- Whether a line of the content begins here. -/
def atContent (indent : Nat) : Scan Bool := do
  let p ← get
  return p.column == indent && !p.rest.isEmpty

/-- Reads the lines of a block scalar.  In a folded one a single break between two lines that
begin with no blank becomes a space. -/
def blockLines (folded : Bool) (indent : Nat) (breaks : Text) : Scan BlockState :=
  iterate (fun (s : BlockState) => do
    if !(← atContent indent) then return (s, false)
    else
      let solid := !(← seesBlank)
      let line ← takeWhile fun c => !isBreak c
      let text := s.text ++ s.breaks ++ line
      let lineEnd ← lineBreak
      let breaks ← blockBreaks indent
      if ← atContent indent then
        if folded && lineEnd == Text.ofString "\n" && solid && !(← seesBlank) then
          let joint : Text := if breaks.isEmpty then " " else []
          return (⟨text ++ joint, lineEnd, breaks⟩, true)
        else return (⟨text ++ lineEnd, lineEnd, breaks⟩, true)
      else return (⟨text, lineEnd, breaks⟩, false)) ⟨[], [], breaks⟩

/-- Reads a block scalar in a collection whose items begin at column `indent`. -/
def block (folded : Bool) (indent : Int) : Scan Text := do
  forward 1
  let (chomping, increment) ← blockHeader
  ignoredLine
  let least : Nat := max (indent + 1) 1 |>.toNat
  let (column, breaks) ←
    match increment with
    | none =>
      let (breaks, deepest) ← blockIndentation
      pure (max least deepest, breaks)
    | some n =>
      let column := least + n - 1
      pure (column, ← blockBreaks column)
  let s ← blockLines folded column breaks
  return match chomping with
    | .strip => s.text
    | .clip => s.text ++ s.lineEnd
    | .keep => s.text ++ s.lineEnd ++ s.breaks

end Scan

end Debundle.Yaml
