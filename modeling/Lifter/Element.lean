/-
  Lifter.Element — the tree that a document's text describes.

  An element has a tag, attributes, child elements and text: all that stands directly
  between its tags, trimmed. Names are local names. A namespace prefix serves to tell
  attributes apart and has to be declared; the declarations themselves are no
  attributes. The prefix `xml` is bound from the start, but for attributes only.
-/

import Lifter.Text.Blank
import Lifter.Xml.Token

namespace Lifter

structure Element where
  name : String
  attributes : List (String × String)
  text : String
  children : List Element
  deriving Repr

namespace Element

/-- The value of the first attribute with this name. -/
def attribute? (e : Element) (name : String) : Option String :=
  (e.attributes.find? (·.1 == name)).map (·.2)

def childrenNamed (e : Element) (name : String) : List Element := e.children.filter (·.name == name)

def child? (e : Element) (name : String) : Option Element := e.children.find? (·.name == name)

/-- The start tag, attribute values as they are. -/
def display (e : Element) : String :=
  "<" ++ e.name ++
    String.join (e.attributes.map fun a => " " ++ a.1 ++ "=\"" ++ a.2 ++ "\"") ++ ">"

end Element

namespace Xml

/-! ## Namespaces -/

/-- The name of a namespace that the XML standards keep for themselves. -/
def reservedNamespace (path : List String) : String := "/".intercalate (["http:", "", "www.w3.org"] ++ path)

def xmlNamespace : String := reservedNamespace ["XML", "1998", "namespace"]

def xmlnsNamespace : String := reservedNamespace ["2000", "xmlns", ""]

/-- Prefixes and what they stand for, innermost first; the empty prefix is the default. -/
abbrev Scope := List (String × String)

/-- The declarations among a tag's attributes, in order. -/
def declarations? : List (QName × String) → Option Scope
  | [] => some []
  | (name, value) :: rest => do
    let others ← declarations? rest
    if name.qualifier = "xmlns" then
      if value = xmlnsNamespace then none
      else if name.localName = "xml" then
        if value = xmlNamespace then some others else none
      else if value = xmlNamespace then none
      else if others.any (·.1 == name.localName) then none
      else some ((name.localName, value) :: others)
    else if name.localName = "xmlns" then
      if value = xmlNamespace ∨ value = xmlnsNamespace then none else some (("", value) :: others)
    else some others

/-- What an attribute's prefix stands for: nothing, if it has none. -/
def attributeNamespace? (scope : Scope) (name : QName) : Option (Option String) :=
  if name.qualifier = "xml" then some (some xmlNamespace)
  else if name.qualifier = "" then some none
  else (scope.lookup name.qualifier).map some

/-- The attributes that are no declarations; two of them with one namespace and name are refused. -/
def plainAttributes? (scope : Scope) (attributes : List (QName × String)) :
    Option (List (String × String)) := do
  let plain := attributes.filter fun a => a.1.qualifier != "xmlns" && a.1.localName != "xmlns"
  let keys ← plain.mapM fun a => (attributeNamespace? scope a.1).map (·, a.1.localName)
  if decide keys.Nodup then some (plain.map fun a => (a.1.localName, a.2)) else none

/-! ## The tree -/

/-- An element whose end tag is still to come. -/
structure Unclosed where
  name : QName
  scope : Scope
  attributes : List (String × String)
  /-- Pieces of text, last first. -/
  texts : List String
  /-- Finished children, last first. -/
  children : List Element

def Unclosed.close (u : Unclosed) : Element where
  name := u.name.localName
  attributes := u.attributes
  text := String.ofList (Text.trim (String.join u.texts.reverse).toList)
  children := u.children.reverse

/-- Opens an element inside those of `scope`. -/
def Unclosed.ofTag? (scope : Scope) (tag : Tag) : Option Unclosed := do
  if tag.name.qualifier = "xmlns" then none
  let declared ← declarations? tag.attributes
  let scope := declared ++ scope
  let attributes ← plainAttributes? scope tag.attributes
  if tag.name.qualifier = "" ∨ (scope.lookup tag.name.qualifier).isSome then
    some ⟨tag.name, scope, attributes, [], []⟩
  else none

/-- The element that the tokens build inside the open ones, the innermost of which comes first. -/
def build? : List Unclosed → List Token → Option Element
  | _, [] => none
  | stack, .start tag :: tokens => do
    let opened ← Unclosed.ofTag? ((stack.head?.map (·.scope)).getD []) tag
    build? (opened :: stack) tokens
  | [], _ :: _ => none
  | u :: stack, .text value :: tokens => build? ({ u with texts := value :: u.texts } :: stack) tokens
  | u :: stack, .stop name :: tokens =>
    if name = u.name then
      match stack with
      | [] => if tokens.isEmpty then some u.close else none
      | outer :: stack => build? ({ outer with children := u.close :: outer.children } :: stack) tokens
    else none

end Xml

/-- The root of a well-formed document. -/
def Element.ofDocument? (document : String) : Option Element :=
  (Xml.tokens? document).bind (Xml.build? [])

end Lifter
