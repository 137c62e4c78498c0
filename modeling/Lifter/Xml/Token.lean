/-
  Lifter.Xml.Token — the tags and texts of a document.

  A document is one element between comments, processing instructions and white
  space, behind an optional byte order mark and XML declaration; document type
  declarations are refused. Its tokens are start tags, end tags and runs of text, in
  order: comments and processing instructions leave no token, and an empty tag is a
  start tag and an end tag.
-/

import Lifter.Xml.CharData

namespace Lifter.Xml

/-- A name with its part before the colon, empty if there is none. -/
structure QName where
  qualifier : String
  localName : String
  deriving DecidableEq, Repr

structure Tag where
  name : QName
  attributes : List (QName × String)
  deriving DecidableEq, Repr

inductive Token where
  | start (tag : Tag)
  | stop (name : QName)
  | text (value : String)
  deriving DecidableEq, Repr

/-! ## Pieces of markup -/

/-- The rest of a text behind `mark`. -/
def skip? (mark : String) (cs : List Char) : Option (List Char) := mark.toList.isPrefixOf? cs

/-- What stands before the first `mark`, and the rest behind it. -/
def upTo? (mark : List Char) : List Char → Option (List Char × List Char)
  | [] => none
  | c :: cs =>
    match mark.isPrefixOf? (c :: cs) with
    | some rest => some ([], rest)
    | none => (upTo? mark cs).map fun r => (c :: r.1, r.2)

def skipSpaces (cs : List Char) : List Char := cs.dropWhile isSpace

def startsName (cs : List Char) : Bool := (cs.head?.map isNameStart).getD false

def qname? (cs : List Char) : Option (QName × List Char) :=
  let lexeme := cs.takeWhile isNamePart
  let rest := cs.drop lexeme.length
  match lexeme.span (· != ':') with
  | (name, []) => if startsName name then some (⟨"", String.ofList name⟩, rest) else none
  | (qualifier, _ :: name) =>
    if name.contains ':' || !startsName name || !(qualifier.isEmpty || startsName qualifier) then none
    else some (⟨String.ofList qualifier, String.ofList name⟩, rest)

/-- A name, an equals sign and a quoted value, which holds no `<`. -/
def rawAttribute? (cs : List Char) : Option ((QName × List Char) × List Char) := do
  let (name, cs) ← qname? cs
  let cs ← skip? "=" (skipSpaces cs)
  match skipSpaces cs with
  | [] => none
  | quote :: cs =>
    if quote = '"' ∨ quote = '\'' then
      let value := cs.takeWhile fun c => c != quote && c != '<'
      match cs.drop value.length with
      | [] => none
      | c :: rest => if c = quote ∧ value.all isAllowed then some ((name, value), rest) else none
    else none

def comment? (cs : List Char) : Option (List Char) := do
  let cs ← skip? "<!--" cs
  let (body, rest) ← upTo? ['-', '-', '>'] cs
  if body.all isAllowed && (upTo? ['-', '-'] body).isNone && body.getLast? != some '-' then some rest
  else none

/-- A processing instruction, which is not written as a declaration is. -/
def instruction? (cs : List Char) : Option (List Char) := do
  if (skip? "<?xml " cs).isSome then none
  let cs ← skip? "<?" cs
  if !startsName cs then none
  let (body, rest) ← upTo? ['?', '>'] (skipSpaces (cs.dropWhile isNamePart))
  if body.all isAllowed then some rest else none

/-- The attributes of a start tag, and whether the tag is empty. -/
def attributes? (cs : List Char) : Option ((List (QName × String) × Bool) × List Char) :=
  match skipSpaces cs with
  | '>' :: rest => some (([], false), rest)
  | '/' :: '>' :: rest => some (([], true), rest)
  | body =>
    if body.length < cs.length then
      match rawAttribute? body with
      | none => none
      | some ((name, raw), rest) =>
        if rest.length < cs.length then do
          let value ← attributeValue? raw
          let ((others, isEmpty), rest) ← attributes? rest
          some (((name, String.ofList value) :: others, isEmpty), rest)
        else none
    else none
termination_by cs.length

/-! ## An element -/

/-- The first tokens of `cs`, inside an element; the number says how many elements they open less
    those they close. -/
def next? (cs : List Char) : Option ((List Token × Int) × List Char) :=
  match cs with
  | '<' :: '!' :: '-' :: _ => (comment? cs).map fun rest => (([], 0), rest)
  | '<' :: '!' :: _ => do
    let body ← skip? "<![CDATA[" cs
    let (value, rest) ← upTo? [']', ']', '>'] body
    if value.all isAllowed then some (([.text (String.ofList (verbatim value))], 0), rest) else none
  | '<' :: '?' :: _ => (instruction? cs).map fun rest => (([], 0), rest)
  | '<' :: '/' :: body => do
    let (name, rest) ← qname? body
    let rest ← skip? ">" (skipSpaces rest)
    some (([.stop name], -1), rest)
  | '<' :: body => do
    let (name, rest) ← qname? body
    let ((attributes, isEmpty), rest) ← attributes? rest
    if isEmpty then some (([.start ⟨name, attributes⟩, .stop name], 0), rest)
    else some (([.start ⟨name, attributes⟩], 1), rest)
  | _ =>
    let raw := cs.takeWhile (· != '<')
    if raw.all isAllowed && (upTo? [']', ']', '>'] raw).isNone then
      (content? raw).map fun value => (([.text (String.ofList value)], 0), cs.drop raw.length)
    else none

/-- The tokens up to the end tag that leaves no element open, where `depth` are open. -/
def elementTokens? (depth : Int) (cs : List Char) : Option (List Token × List Char) :=
  match next? cs with
  | none => none
  | some ((tokens, opened), rest) =>
    if depth + opened ≤ 0 then some (tokens, rest)
    else if rest.length < cs.length then
      (elementTokens? (depth + opened) rest).map fun r => (tokens ++ r.1, r.2)
    else none
termination_by cs.length

/-! ## A document -/

/-- White space, unless the declaration or the text ends here. -/
def gap? (cs : List Char) : Option (List Char) :=
  match cs with
  | [] => some []
  | c :: _ =>
    if isSpace c then some (skipSpaces cs)
    else if (skip? "?>" cs).isSome then some cs
    else none

/-- The rest behind an XML declaration, if `cs` starts with one. -/
def declaration? (cs : List Char) : Option (List Char) :=
  if (skip? "<?xml " cs).isNone then some cs
  else do
    let cs ← skip? "<?xml" cs
    let cs ← gap? cs
    if (skip? "version" cs).isNone then none
    let (_, cs) ← rawAttribute? cs
    let cs ← gap? cs
    let cs ←
      if (skip? "encoding" cs).isSome then do
        let (_, cs) ← rawAttribute? cs
        gap? cs
      else some cs
    let cs ←
      if (skip? "standalone" cs).isSome then (rawAttribute? cs).map (·.2)
      else some cs
    skip? "?>" (skipSpaces cs)

/-- Skips comments, processing instructions and white space. -/
def skipMisc? (cs : List Char) : Option (List Char) :=
  let body := skipSpaces cs
  if (skip? "<!--" body).isSome then
    match comment? body with
    | none => none
    | some rest => if rest.length < cs.length then skipMisc? rest else none
  else if (skip? "<?" body).isSome then
    match instruction? body with
    | none => none
    | some rest => if rest.length < cs.length then skipMisc? rest else none
  else some body
termination_by cs.length

/-- The tokens of a document's one element. -/
def tokens? (document : String) : Option (List Token) := do
  let cs := document.toList
  let cs := if cs.head? = some '\uFEFF' then cs.tail else cs
  let cs ← declaration? cs
  let cs ← skipMisc? cs
  match cs with
  | '<' :: c :: _ =>
    if c = '/' ∨ c = '!' ∨ c = '?' then none
    else do
      let (tokens, rest) ← elementTokens? 0 cs
      let rest ← skipMisc? rest
      if rest.isEmpty then some tokens else none
  | _ => none

end Lifter.Xml
