import CppTry.MySQLResult
import CppTry.XMLRoundTrip

namespace CppTry

/-- An element in its list of siblings: what the settings need of it, and the siblings behind it. -/
structure ElementCursor where
  name : List Byte
  children : List XMLNode
  siblings : List XMLNode

/-- `ToElementWithName` over a list of siblings: `FirstChildElement`, and with the siblings behind an
element `NextSiblingElement`. Without a name any element will do. -/
def elementWithName (name : Option (List Byte)) : List XMLNode → Option ElementCursor
  | [] => none
  | .element name' _ children :: nodes =>
    if name.elim true (XMLUtil.stringEqual name' ·) then some ⟨name', children, nodes⟩ else elementWithName name nodes
  | _ :: nodes => elementWithName name nodes

theorem elementWithName_length {name : Option (List Byte)} {nodes : List XMLNode}
    {cursor : ElementCursor} (h : elementWithName name nodes = some cursor) :
    cursor.siblings.length < nodes.length := by
  induction nodes with
  | nil => cases h
  | cons node nodes ih =>
    cases node with
    | element name' attributes children =>
      rw [elementWithName] at h
      split at h
      next =>
        cases h
        exact Nat.lt_succ_self _
      next => exact Nat.lt_succ_of_lt (ih h)
    | _ => exact Nat.lt_succ_of_lt (ih h)

/-- `get_xml_value` of an element with these children. -/
def getXmlValue (children : List XMLNode) (key : List Byte) : List Byte :=
  match elementWithName (some key) children with
  | some ⟨_, .text value _ :: _, _⟩ => value
  | _ => []

namespace NetServer

/-- The loop of `Init` over the elements: what it prints for the masters. -/
def masterPorts (build : Build) (siblings : List XMLNode) : List Int16 :=
  match _h : elementWithName none siblings with
  | none => []
  | some cursor =>
    (if cursor.name = text "Master" then
      [(atoi build (getXmlValue cursor.children (text "port"))).toInt16]
    else []) ++ masterPorts build cursor.siblings
termination_by siblings.length
decreasing_by exact elementWithName_length _h

/-- The children of the root of the settings. A missing one is dereferenced. -/
def settings (nodes : List XMLNode) : Option (List XMLNode) :=
  (elementWithName (some (text "StartSetting")) nodes).map ElementCursor.children

/-- The part of `Init` that reads the settings, from what the file has. -/
def init (build : Build) (ndebug : Bool) (file : Option (List Byte)) : Option (List Int16) :=
  let doc := XMLOptions.loadFile ⟨build, true, false⟩ file
  if doc.errorID.isSome ∧ ¬ ndebug then none
  else (settings doc.children).map (masterPorts build)

end NetServer

section
variable {s : List Byte} {c : Byte}

end

namespace XMLGrammar
open XMLPrinter

variable {options : XMLOptions} {compact : Bool}

end XMLGrammar

namespace NetServer
open XMLGrammar XMLUtil

end NetServer

end CppTry
