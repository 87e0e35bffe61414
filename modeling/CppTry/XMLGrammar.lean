import CppTry.Scanning
import CppTry.XMLNode

namespace CppTry

namespace XMLGrammar
open Scanning StrPair XMLUtil

/-- `s` is white space and then `t`. -/
abbrev Blank (s t : List Byte) : Prop := Skips isWhiteSpace s t

def NameText (name : List Byte) : Prop :=
  ∃ c cs, name = c :: cs ∧ isNameStartChar c = true ∧ ∀ d ∈ cs, isNameChar d = true

/-- `s` is a name and then `t`, and the name is as long as it can be. -/
def Name (s name t : List Byte) : Prop := NameText name ∧ s = name ++ t ∧ Stops isNameChar t

/-- No two names agree as far as they are compared. -/
def Distinct (attributes : List XMLAttribute) : Prop :=
  (attributes.map fun attrib => attrib.name.take intMax).Nodup

/-- `name = "raw"`, with either quote. -/
inductive Attribute (options : XMLOptions) : List Byte → XMLAttribute → List Byte → Prop
  | intro {s s₁ s₂ s₃ t name raw : List Byte} {quote : Byte} : Name s name s₁ →
      Blank s₁ (chr '=' :: s₂) → Blank s₂ (quote :: s₃) → quote = chr '"' ∨ quote = chr '\'' →
      UpTo [quote] s₃ raw t →
      Attribute options s ⟨name, getStr options.build options.attributeFlags raw⟩ t

/-- Attributes, and then `>` or, where the element is sealed, `/>`. -/
inductive Attributes (options : XMLOptions) :
    List Byte → List XMLAttribute → Bool → List Byte → Prop
  | opened {s t : List Byte} : Blank s (chr '>' :: t) → Attributes options s [] false t
  | sealed {s t : List Byte} : Blank s (chr '/' :: chr '>' :: t) → Attributes options s [] true t
  | cons {s u v t : List Byte} {attrib : XMLAttribute} {attributes : List XMLAttribute}
      {sealed : Bool} : Blank s u → Attribute options u attrib v →
      Attributes options v attributes sealed t →
      Attributes options s (attrib :: attributes) sealed t

/-- `<name ...>`, `<name .../>`, and with a slash in front of the name `</name ...>` and
`</name .../>`. No two attributes have the same name. -/
inductive Tag (options : XMLOptions) (slash sealed : Bool) :
    List Byte → List Byte → List XMLAttribute → List Byte → Prop
  | intro {s s₁ s₂ s₃ t name : List Byte} {attributes : List XMLAttribute} :
      Blank s (chr '<' :: s₁) → Blank s₁ ((if slash then [chr '/'] else []) ++ s₂) →
      Name s₂ name s₃ → Attributes options s₃ attributes sealed t →
      Distinct attributes → Tag options slash sealed s name attributes t

/-- A node that is no element and no declaration. Text goes up to the next `<`, which something
follows, and has more than white space. -/
inductive Leaf (options : XMLOptions) : List Byte → XMLNode → List Byte → Prop
  | comment {s u raw t : List Byte} : Blank s (CppTry.text "<!--" ++ u) →
      UpTo (CppTry.text "-->") u raw t →
      Leaf options s (.comment (getStr options.build leaveEntities raw)) t
  | cdata {s u raw t : List Byte} : Blank s (CppTry.text "<![CDATA[" ++ u) →
      UpTo (CppTry.text "]]>") u raw t →
      Leaf options s (.text (getStr options.build leaveEntities raw) true) t
  | unknown {s u raw t : List Byte} : Blank s (CppTry.text "<!" ++ u) →
      ¬ CppTry.text "--" <+: u → ¬ CppTry.text "[CDATA[" <+: u → UpTo (CppTry.text ">") u raw t →
      Leaf options s (.unknown (getStr options.build leaveEntities raw)) t
  | text {s raw t : List Byte} : UpTo (CppTry.text "<") s raw t → t ≠ [] →
      (∃ c ∈ raw, isWhiteSpace c = false) →
      Leaf options s (.text (getStr options.build options.textFlags raw) false) (chr '<' :: t)

/-- `<?raw?>`. -/
inductive Declaration (options : XMLOptions) : List Byte → XMLNode → List Byte → Prop
  | intro {s u raw t : List Byte} : Blank s (CppTry.text "<?" ++ u) →
      UpTo (CppTry.text "?>") u raw t →
      Declaration options s (.declaration (getStr options.build leaveEntities raw)) t

/-- Nodes at a depth. Declarations come first, where they are allowed; between the tags of an
element lie its children, and the names of the tags agree. -/
inductive Nodes (options : XMLOptions) : Bool → Nat → List Byte → List XMLNode → List Byte → Prop
  | nil {allowed : Bool} {depth : Nat} {s : List Byte} : Nodes options allowed depth s [] s
  | declaration {depth : Nat} {s u t : List Byte} {node : XMLNode} {nodes : List XMLNode} :
      Declaration options s node u → Nodes options true depth u nodes t →
      Nodes options true depth s (node :: nodes) t
  | leaf {allowed : Bool} {depth : Nat} {s u t : List Byte} {node : XMLNode}
      {nodes : List XMLNode} : Leaf options s node u → Nodes options false depth u nodes t →
      Nodes options allowed depth s (node :: nodes) t
  | sealed {allowed slash : Bool} {depth : Nat} {s u t name : List Byte}
      {attributes : List XMLAttribute} {nodes : List XMLNode} :
      Tag options slash true s name attributes u → Nodes options false depth u nodes t →
      Nodes options allowed depth s (.element name attributes [] :: nodes) t
  | element {allowed : Bool} {depth : Nat} {s u v w t name endName : List Byte}
      {attributes ignored : List XMLAttribute} {children nodes : List XMLNode} :
      Tag options false false s name attributes u → depth + 1 < maxElementDepth →
      Nodes options false (depth + 1) u children v → Tag options true false v endName ignored w →
      stringEqual endName name = true → Nodes options false depth w nodes t →
      Nodes options allowed depth s (.element name attributes children :: nodes) t

/-- A document: white space, perhaps a byte order mark, and nodes. They end the text, or a tag
with a slash follows; what is behind that one does not matter. -/
def Document (options : XMLOptions) (input : List Byte) (bom : Bool) (nodes : List XMLNode) :
    Prop :=
  ∃ s u t, Blank input s ∧ Stops isWhiteSpace s ∧ readBOM s = (bom, u) ∧ u ≠ [] ∧
    Nodes options true 1 u nodes t ∧
    (Blank t [] ∨ ∃ name ignored v, Tag options true false t name ignored v)

end XMLGrammar

end CppTry
