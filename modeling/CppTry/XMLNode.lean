import CppTry.StrPair

namespace CppTry

structure XMLAttribute where
  name : List Byte
  value : List Byte
  deriving DecidableEq

/-- The nodes of a document, with the texts that `Value` gives. -/
inductive XMLNode
  | element (name : List Byte) (attributes : List XMLAttribute) (children : List XMLNode)
  | text (value : List Byte) (cdata : Bool)
  | comment (value : List Byte)
  | declaration (value : List Byte)
  | unknown (value : List Byte)

/-- The errors; `XML_SUCCESS` is none. -/
inductive XMLError
  | fileNotFound
  | parsingElement
  | parsingAttribute
  | parsingText
  | parsingCData
  | parsingComment
  | parsingDeclaration
  | parsingUnknown
  | emptyDocument
  | mismatchedElement
  | parsing
  | elementDepthExceeded
  deriving DecidableEq

/-- What a document is created with. -/
structure XMLOptions where
  build : Build
  processEntities : Bool
  /-- the whitespace mode is `COLLAPSE_WHITESPACE` -/
  collapseWhitespace : Bool

inductive ElementClosingType
  | opening
  | closed
  | closing
  deriving DecidableEq

/-- The type behind the tag, with a slash in front of the name and where the tag is sealed. -/
def closingType (slash sealed : Bool) : ElementClosingType :=
  if sealed then .closed else if slash then .closing else .opening

/-- What `Identify` creates. -/
inductive NodeKind
  | declaration
  | comment
  | cdata
  | unknown
  | element
  | text

/-- An element behind its `ParseDeep`, with the end tag that was read for it. -/
structure ParsedElement where
  name : List Byte
  attributes : List XMLAttribute
  closingType : ElementClosingType
  children : List XMLNode
  endTag : Option (List Byte)
  rest : List Byte

/-- A node behind `XMLNode::ParseDeep`: its children, the pointer that is returned (a null pointer
is `none`), and what `parentEndTag` and the document's error are. -/
structure ParsedChildren where
  nodes : List XMLNode
  rest : Option (List Byte)
  endTag : Option (List Byte)
  error : Option XMLError

structure XMLDocument where
  errorID : Option XMLError
  writeBOM : Bool
  children : List XMLNode

def XMLNode.isDeclaration : XMLNode → Bool
  | .declaration _ => true
  | _ => false

def maxElementDepth : Nat := 100

namespace XMLOptions
open StrPair XMLUtil

/-- The flags of the text of an element. -/
def textFlags (options : XMLOptions) : Flags :=
  let flags := if options.processEntities then textElement else leaveEntities
  { flags with needsWhitespaceCollapsing := options.collapseWhitespace }

def attributeFlags (options : XMLOptions) : Flags :=
  if options.processEntities then textElement else leaveEntities

/-- `XMLAttribute::ParseDeep`. -/
def parseAttribute (options : XMLOptions) (p : List Byte) : Option (XMLAttribute × List Byte) := do
  let (name, p) ← parseName p
  match skipWhiteSpace p with
  | [] => none
  | equals :: p =>
    if equals ≠ chr '=' then none
    else match skipWhiteSpace p with
      | [] => none
      | quote :: p =>
        if quote ≠ chr '"' ∧ quote ≠ chr '\'' then none
        else do
          let (raw, p) ← parseText [quote] p
          pure (⟨name, getStr options.build options.attributeFlags raw⟩, p)

theorem length_skipWhiteSpace (p : List Byte) : (skipWhiteSpace p).length ≤ p.length :=
  List.length_dropWhile_le _ _

theorem parseName_length {p name rest : List Byte} (h : parseName p = some (name, rest)) :
    rest.length < p.length := by
  cases p with
  | nil => cases h
  | cons c p =>
    rw [parseName] at h
    split at h
    next =>
      cases h
      exact Nat.lt_succ_of_le (List.length_dropWhile_le _ _)
    next => cases h

theorem parseText_length {endTag p raw rest : List Byte} (h : parseText endTag p = some (raw, rest)) :
    rest.length ≤ p.length := by
  induction p generalizing raw with
  | nil => cases h
  | cons c p ih =>
    rw [parseText] at h
    split at h
    next =>
      cases h
      simp
    next =>
      obtain ⟨⟨raw', rest'⟩, hp, he⟩ := Option.map_eq_some_iff.mp h
      cases he
      exact Nat.le_succ_of_le (ih hp)

theorem parseAttribute_length {options : XMLOptions} {p rest : List Byte} {attrib : XMLAttribute}
    (h : options.parseAttribute p = some (attrib, rest)) : rest.length < p.length := by
  obtain ⟨⟨name, p₁⟩, hname, h⟩ := Option.bind_eq_some_iff.mp h
  have h₁ := parseName_length hname
  have h₂ := length_skipWhiteSpace p₁
  dsimp only at h
  split at h
  next => cases h
  next equals p₂ hp₂ =>
    rw [hp₂] at h₂
    split at h
    next => cases h
    next =>
      have h₃ := length_skipWhiteSpace p₂
      split at h
      next => cases h
      next quote p₃ hp₃ =>
        rw [hp₃] at h₃
        split at h
        next => cases h
        next =>
          obtain ⟨⟨raw, p₄⟩, hraw, h⟩ := Option.bind_eq_some_iff.mp h
          cases h
          have h₄ : p₄.length ≤ p₃.length := parseText_length hraw
          simp only [List.length_cons] at h₂ h₃
          change p₄.length < p.length
          omega

/-- `XMLElement::ParseAttributes` from `p` on, behind the attributes that are linked; with whether
the tag has sealed the element. -/
def parseAttributes (options : XMLOptions) (attributes : List XMLAttribute) (p : List Byte) :
    Except XMLError (List XMLAttribute × Bool × List Byte) :=
  match _hp : skipWhiteSpace p with
  | [] => .error .parsingElement
  | c :: q =>
    if isNameStartChar c then
      match _hq : options.parseAttribute (c :: q) with
      | none => .error .parsingAttribute
      | some (attrib, rest) =>
        if attributes.any (stringEqual ·.name attrib.name) then .error .parsingAttribute
        else options.parseAttributes (attributes ++ [attrib]) rest
    else if c = chr '>' then .ok (attributes, false, q)
    else if c = chr '/' ∧ q.head? = some (chr '>') then .ok (attributes, true, q.tail)
    else .error .parsingElement
termination_by p.length
decreasing_by
  have h₁ := length_skipWhiteSpace p
  have h₂ := parseAttribute_length _hq
  rw [_hp] at h₁
  exact Nat.lt_of_lt_of_le h₂ h₁

/-- `none` where only white space is left. -/
def identify (p : List Byte) : Option (NodeKind × List Byte) :=
  let q := skipWhiteSpace p
  if q = [] then none
  else if (CppTry.text "<?").isPrefixOf q then some (.declaration, q.drop 2)
  else if (CppTry.text "<!--").isPrefixOf q then some (.comment, q.drop 4)
  else if (CppTry.text "<![CDATA[").isPrefixOf q then some (.cdata, q.drop 9)
  else if (CppTry.text "<!").isPrefixOf q then some (.unknown, q.drop 2)
  else if (CppTry.text "<").isPrefixOf q then some (.element, q.drop 1)
  else some (.text, p)

/-- `ParseDeep` of a node that is no element. A null pointer comes with the error that was set. -/
def parseLeaf (options : XMLOptions) (kind : NodeKind) (p : List Byte) :
    Except (Option XMLError) (XMLNode × List Byte) :=
  let value := getStr options.build leaveEntities
  match kind with
  | .declaration =>
    match parseText (CppTry.text "?>") p with
    | none => .error (some .parsingDeclaration)
    | some (raw, p) => .ok (.declaration (value raw), p)
  | .comment =>
    match parseText (CppTry.text "-->") p with
    | none => .error (some .parsingComment)
    | some (raw, p) => .ok (.comment (value raw), p)
  | .cdata =>
    match parseText (CppTry.text "]]>") p with
    | none => .error (some .parsingCData)
    | some (raw, p) => .ok (.text (value raw) true, p)
  | .unknown =>
    match parseText (CppTry.text ">") p with
    | none => .error (some .parsingUnknown)
    | some (raw, p) => .ok (.unknown (value raw), p)
  | .text | .element =>
    match parseText (CppTry.text "<") p with
    | none => .error (some .parsingText)
    | some (raw, p) =>
      if p = [] then .error none
      else .ok (.text (getStr options.build options.textFlags raw) false, chr '<' :: p)

/-- `XMLElement::ParseDeep` up to the children. -/
def parseTag (options : XMLOptions) (p : List Byte) : Except (Option XMLError) ParsedElement :=
  let p := skipWhiteSpace p
  let slash := p.head? == some (chr '/')
  match parseName (if slash then p.tail else p) with
  | none => .error none
  | some (name, p) =>
    match options.parseAttributes [] p with
    | .error error => .error (some error)
    | .ok (attributes, sealed, p) =>
      .ok ⟨name, attributes, closingType slash sealed, [], none, p⟩

/-- `XMLElement::ParseDeep`, where `deep` is `XMLNode::ParseDeep`. -/
def parseElement (options : XMLOptions) (deep : List Byte → ParsedChildren) (p : List Byte) :
    Except (Option XMLError) ParsedElement :=
  match options.parseTag p with
  | .error error => .error error
  | .ok element =>
    if element.rest = [] ∨ element.closingType ≠ .opening then .ok element
    else
      let level := deep element.rest
      match level.rest with
      | none => .error level.error
      | some p =>
        .ok { element with children := level.nodes, endTag := level.endTag, rest := p }

end XMLOptions

/-- The end tag is missing, or not that of the element. -/
def ParsedElement.mismatch (element : ParsedElement) : Bool :=
  match element.endTag with
  | none => element.closingType = .opening
  | some endTag => element.closingType ≠ .opening || !XMLUtil.stringEqual endTag element.name

/-- A declaration may follow these nodes of the document. -/
def wellLocated (nodes : List XMLNode) : Bool :=
  match nodes.head?, nodes.getLast? with
  | some first, some last => first.isDeclaration && last.isDeclaration
  | _, _ => true

namespace XMLOptions

/-- The loop of `XMLNode::ParseDeep` with a budget, behind the nodes that are inserted; `depth` is
that of the tracker. -/
def parseNodes (options : XMLOptions) (isDocument : Bool) :
    Nat → Nat → List XMLNode → List Byte → ParsedChildren
  | 0, _, nodes, _ => ⟨nodes, none, none, none⟩
  | fuel + 1, depth, nodes, p =>
    match identify p with
    | none => ⟨nodes, none, none, none⟩
    | some (.element, p) =>
      let deep := fun p =>
        if depth + 1 = maxElementDepth then ⟨[], none, none, some .elementDepthExceeded⟩
        else options.parseNodes false fuel (depth + 1) [] p
      match options.parseElement deep p with
      | .error error => ⟨nodes, none, none, some (error.getD .parsing)⟩
      | .ok element =>
        if element.closingType = .closing then
          ⟨nodes, some element.rest, if isDocument then none else some element.name, none⟩
        else if element.mismatch then ⟨nodes, none, none, some .mismatchedElement⟩
        else
          options.parseNodes isDocument fuel depth
            (nodes ++ [.element element.name element.attributes element.children]) element.rest
    | some (kind, p) =>
      match options.parseLeaf kind p with
      | .error error => ⟨nodes, none, none, some (error.getD .parsing)⟩
      | .ok (node, p) =>
        if node.isDeclaration && !(isDocument && wellLocated nodes) then
          ⟨nodes, none, none, some .parsingDeclaration⟩
        else options.parseNodes isDocument fuel depth (nodes ++ [node]) p

/-- `XMLDocument::Parse()` over the buffer, which ends at its first NUL. -/
def parseBuffer (options : XMLOptions) (buffer : List Byte) : XMLDocument :=
  let (writeBOM, p) := XMLUtil.readBOM (XMLUtil.skipWhiteSpace (buffer.takeWhile (· ≠ 0)))
  if p = [] then ⟨some .emptyDocument, writeBOM, []⟩
  else
    let level := options.parseNodes true (p.length + 1) 1 [] p
    ⟨level.error, writeBOM, level.nodes⟩

/-- `Parse(p, len)` of a new document; after an error the children are deleted. -/
def parse (options : XMLOptions) (buffer : List Byte) : XMLDocument :=
  if buffer.head?.getD 0 = 0 then ⟨some .emptyDocument, false, []⟩
  else
    let doc := options.parseBuffer buffer
    if doc.errorID = none then doc else { doc with children := [] }

/-- `LoadFile` of a new document; a file that cannot be opened is `none`. -/
def loadFile (options : XMLOptions) : Option (List Byte) → XMLDocument
  | none => ⟨some .fileNotFound, false, []⟩
  | some [] => ⟨some .emptyDocument, false, []⟩
  | some buffer => options.parseBuffer buffer

end XMLOptions

end CppTry
