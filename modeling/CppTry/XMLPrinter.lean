import CppTry.XMLNode

namespace CppTry

/-- A printer to a file; `buffer` is what has been written. -/
structure XMLPrinter where
  elementJustOpened : Bool
  stack : List (List Byte)
  firstElement : Bool
  depth : Int
  textDepth : Int
  processEntities : Bool
  compactMode : Bool
  buffer : List Byte

namespace XMLPrinter

/-- A new printer. -/
def new (compact : Bool) : XMLPrinter := ⟨false, [], true, 0, -1, true, compact, []⟩

def entityFlag (restricted : Bool) (c : Byte) : Bool :=
  if restricted then c == chr '&' || c == chr '<' || c == chr '>'
  else entities.any (·.value == c)

/-- What `PrintString` writes for a byte. The bytes from 128 on are negative there. -/
def printByte (restricted : Bool) (c : Byte) : List Byte :=
  if 0 < c ∧ c < 64 ∧ entityFlag restricted c = true then
    match entities.find? (·.value == c) with
    | some entity => chr '&' :: entity.pattern ++ [chr ';']
    | none => []
  else [c]

def write (printer : XMLPrinter) (data : List Byte) : XMLPrinter :=
  { printer with buffer := printer.buffer ++ data }

def printSpace (printer : XMLPrinter) (depth : Int) : XMLPrinter :=
  printer.write (List.replicate (4 * depth.toNat) (chr ' '))

/-- What `PrintString` writes, with the run that is not flushed and the bytes from `q` on. In front
of an entity the whole run is flushed, at the end no more than `INT_MAX` bytes of it. -/
def printRuns (restricted : Bool) : List Byte → List Byte → List Byte
  | run, [] => run.take intMax
  | run, c :: q =>
    if 0 < c ∧ c < 64 ∧ entityFlag restricted c = true then
      run ++ (printByte restricted c ++ printRuns restricted [] q)
    else printRuns restricted (run ++ [c]) q

def printString (printer : XMLPrinter) (p : List Byte) (restricted : Bool) : XMLPrinter :=
  if printer.processEntities then printer.write (printRuns restricted [] p)
  else printer.write p

def sealElementIfJustOpened (printer : XMLPrinter) : XMLPrinter :=
  if printer.elementJustOpened then
    { printer with elementJustOpened := false }.write [chr '>']
  else printer

def openElement (printer : XMLPrinter) (name : List Byte) (compactMode : Bool) : XMLPrinter :=
  let printer := printer.sealElementIfJustOpened
  let printer := { printer with stack := name :: printer.stack }
  let printer :=
    if printer.textDepth < 0 ∧ printer.firstElement = false ∧ compactMode = false then
      printer.write [chr '\n']
    else printer
  let printer := if compactMode then printer else printer.printSpace printer.depth
  let printer := (printer.write (text "<")).write name
  { printer with elementJustOpened := true, firstElement := false, depth := printer.depth + 1 }

def pushAttribute (printer : XMLPrinter) (attrib : XMLAttribute) : XMLPrinter :=
  let printer := ((printer.write [chr ' ']).write attrib.name).write (text "=\"")
  (printer.printString attrib.value false).write [chr '"']

/-- The end of an element in `CloseElement`. -/
def writeEnd (printer : XMLPrinter) (name : List Byte) (compactMode : Bool) : XMLPrinter :=
  if printer.elementJustOpened then printer.write (text "/>")
  else
    let printer :=
      if printer.textDepth < 0 ∧ compactMode = false then
        (printer.write [chr '\n']).printSpace printer.depth
      else printer
    ((printer.write (text "</")).write name).write (text ">")

/-- The stack has an element, as `OpenElement` has been called for it. -/
def closeElement (printer : XMLPrinter) (compactMode : Bool) : XMLPrinter :=
  match printer.stack with
  | [] => printer
  | name :: stack =>
    let printer := { printer with depth := printer.depth - 1, stack := stack }
    let printer := printer.writeEnd name compactMode
    let textDepth := if printer.textDepth = printer.depth then -1 else printer.textDepth
    let printer := { printer with textDepth := textDepth, elementJustOpened := false }
    if printer.depth = (0 : Int) ∧ compactMode = false then printer.write [chr '\n'] else printer

def pushText (printer : XMLPrinter) (value : List Byte) (cdata : Bool) : XMLPrinter :=
  let printer := { printer with textDepth := printer.depth - 1 }.sealElementIfJustOpened
  if cdata then ((printer.write (text "<![CDATA[")).write value).write (text "]]>")
  else printer.printString value true

/-- `PushComment`, `PushDeclaration` and `PushUnknown` differ in what they write around the value. -/
def pushMarkup (printer : XMLPrinter) (front value back : List Byte) : XMLPrinter :=
  let printer := printer.sealElementIfJustOpened
  let printer :=
    if printer.textDepth < 0 ∧ printer.firstElement = false ∧ printer.compactMode = false then
      (printer.write [chr '\n']).printSpace printer.depth
    else printer
  (({ printer with firstElement := false }.write front).write value).write back

def pushComment (printer : XMLPrinter) (value : List Byte) : XMLPrinter :=
  printer.pushMarkup (text "<!--") value (text "-->")

def pushDeclaration (printer : XMLPrinter) (value : List Byte) : XMLPrinter :=
  printer.pushMarkup (text "<?") value (text "?>")

def pushUnknown (printer : XMLPrinter) (value : List Byte) : XMLPrinter :=
  printer.pushMarkup (text "<!") value (text ">")

end XMLPrinter

open XMLPrinter

mutual

/-- `Accept` with a printer as the visitor. -/
def XMLNode.accept : XMLNode → XMLPrinter → XMLPrinter
  | .element name attributes children, printer =>
    let printer := printer.openElement name printer.compactMode
    let printer := attributes.foldl pushAttribute printer
    let printer := acceptAll children printer
    printer.closeElement printer.compactMode
  | .text value cdata, printer => printer.pushText value cdata
  | .comment value, printer => printer.pushComment value
  | .declaration value, printer => printer.pushDeclaration value
  | .unknown value, printer => printer.pushUnknown value

/-- The loop over the children. -/
def acceptAll : List XMLNode → XMLPrinter → XMLPrinter
  | [], printer => printer
  | node :: nodes, printer => acceptAll nodes (node.accept printer)

end

/-- What `Print` of a document writes with a new printer. -/
def XMLOptions.print (options : XMLOptions) (compact : Bool) (writeBOM : Bool)
    (children : List XMLNode) : List Byte :=
  let printer := { XMLPrinter.new compact with processEntities := options.processEntities }
  let printer := if writeBOM then printer.write XMLUtil.bom else printer
  (acceptAll children printer).buffer

/-- What `PrintString` writes of at most `INT_MAX` bytes. -/
def XMLOptions.printed (options : XMLOptions) (restricted : Bool) (s : List Byte) : List Byte :=
  if options.processEntities then s.flatMap (printByte restricted) else s

namespace XMLPrinter

/-- What seals the tag of the element that is open. -/
def sealText (printer : XMLPrinter) : List Byte := if printer.elementJustOpened then [chr '>'] else []

/-- The line break in front of a node. -/
def breakText (printer : XMLPrinter) : List Byte :=
  if printer.textDepth < 0 ∧ printer.firstElement = false ∧ printer.compactMode = false then
    [chr '\n']
  else []

/-- The spaces in front of an element, which stand also where there is no line break. -/
def indentText (printer : XMLPrinter) : List Byte :=
  if printer.compactMode then [] else List.replicate (4 * printer.depth.toNat) (chr ' ')

/-- The line break and the spaces in front of a node that is no element. -/
def markupBreak (printer : XMLPrinter) : List Byte :=
  if printer.textDepth < 0 ∧ printer.firstElement = false ∧ printer.compactMode = false then
    chr '\n' :: List.replicate (4 * printer.depth.toNat) (chr ' ')
  else []

def attributeText (options : XMLOptions) (attrib : XMLAttribute) : List Byte :=
  chr ' ' :: (attrib.name ++ (text "=\"" ++ (options.printed false attrib.value ++ [chr '"'])))

/-- What is in front of an end tag. -/
def endBreak (textDepth depth : Int) (compactMode : Bool) : List Byte :=
  if textDepth < 0 ∧ compactMode = false then
    chr '\n' :: List.replicate (4 * depth.toNat) (chr ' ')
  else []

/-- The line break behind an element of the document. -/
def lastBreak (printer : XMLPrinter) : List Byte :=
  if printer.depth - 1 = (0 : Int) ∧ printer.compactMode = false then [chr '\n'] else []

variable {options : XMLOptions} {printer : XMLPrinter}

theorem printRuns_eq (restricted : Bool) {run q : List Byte} (h : (run ++ q).length ≤ intMax) :
    printRuns restricted run q = run ++ q.flatMap (printByte restricted) := by
  induction q generalizing run with
  | nil =>
    rw [List.append_nil] at h
    rw [printRuns, List.take_of_length_le h, List.flatMap_nil, List.append_nil]
  | cons c q ih =>
    rw [List.length_append, List.length_cons] at h
    rw [printRuns, List.flatMap_cons]
    split
    next =>
      have hq : ([] ++ q).length ≤ intMax := by
        rw [List.nil_append]
        omega
      rw [ih hq, List.nil_append]
    next hc =>
      have hq : (run ++ [c] ++ q).length ≤ intMax := by
        rw [List.length_append, List.length_append, List.length_singleton]
        omega
      have hbyte : printByte restricted c = [c] := if_neg hc
      rw [ih hq, hbyte, List.append_assoc]

theorem printString_eq (printer : XMLPrinter) {p : List Byte} (restricted : Bool) (hp : p.length ≤ intMax)
    (h : printer.processEntities = options.processEntities) :
    printer.printString p restricted = printer.write (options.printed restricted p) := by
  have hruns : printRuns restricted [] p = p.flatMap (printByte restricted) := printRuns_eq restricted hp
  rw [printString, XMLOptions.printed, h, hruns]
  split
  all_goals rfl

theorem sealElementIfJustOpened_eq (printer : XMLPrinter) : printer.sealElementIfJustOpened =
    { printer with elementJustOpened := false, buffer := printer.buffer ++ printer.sealText } := by
  unfold sealElementIfJustOpened sealText
  split
  next => rfl
  next h =>
    rw [List.append_nil]
    cases printer
    simp_all

theorem pushMarkup_eq (printer : XMLPrinter) (front value back : List Byte) :
    printer.pushMarkup front value back =
      { printer with
        elementJustOpened := false
        firstElement := false
        buffer := printer.buffer ++ (printer.sealText ++ (printer.markupBreak ++
          (front ++ (value ++ back)))) } := by
  rw [pushMarkup, sealElementIfJustOpened_eq]
  unfold markupBreak
  split_ifs
  · simp [write, printSpace]
  · simp [write]

theorem pushText_eq (printer : XMLPrinter) {value : List Byte} (cdata : Bool)
    (hvalue : cdata = true ∨ value.length ≤ intMax)
    (h : printer.processEntities = options.processEntities) : printer.pushText value cdata =
      { printer with
        elementJustOpened := false
        textDepth := printer.depth - 1
        buffer := printer.buffer ++ (printer.sealText ++
          if cdata then text "<![CDATA[" ++ (value ++ text "]]>")
          else options.printed true value) } := by
  rw [pushText, sealElementIfJustOpened_eq]
  cases cdata with
  | true => simp [write, sealText]
  | false =>
    have hlength : value.length ≤ intMax := hvalue.resolve_left Bool.false_ne_true
    let sealed : XMLPrinter :=
      { printer with
        elementJustOpened := false
        textDepth := printer.depth - 1
        buffer := printer.buffer ++ printer.sealText }
    have hprint : sealed.printString value true = sealed.write (options.printed true value) :=
      printString_eq sealed true hlength h
    refine hprint.trans ?_
    simp [sealed, write]

theorem openElement_eq (printer : XMLPrinter) (name : List Byte) :
    printer.openElement name printer.compactMode =
      { printer with
        elementJustOpened := true
        stack := name :: printer.stack
        firstElement := false
        depth := printer.depth + 1
        buffer := printer.buffer ++ (printer.sealText ++ (printer.breakText ++
          (printer.indentText ++ (text "<" ++ name)))) } := by
  rw [openElement, sealElementIfJustOpened_eq]
  unfold breakText indentText
  split_ifs
  all_goals simp_all [write, printSpace]

theorem pushAttribute_eq (printer : XMLPrinter) {attrib : XMLAttribute}
    (hvalue : attrib.value.length ≤ intMax)
    (h : printer.processEntities = options.processEntities) : printer.pushAttribute attrib =
      { printer with buffer := printer.buffer ++ attributeText options attrib } := by
  have hprint := printString_eq (((printer.write [chr ' ']).write attrib.name).write (text "=\""))
    false hvalue h
  rw [pushAttribute, hprint]
  simp [write, attributeText]

theorem pushAttributes_eq (printer : XMLPrinter) {attributes : List XMLAttribute}
    (hvalues : ∀ attrib ∈ attributes, attrib.value.length ≤ intMax)
    (h : printer.processEntities = options.processEntities) :
    attributes.foldl pushAttribute printer =
      { printer with buffer := printer.buffer ++ attributes.flatMap (attributeText options) } := by
  induction attributes generalizing printer with
  | nil => simp
  | cons attrib attributes ih =>
    obtain ⟨hvalue, hvalues⟩ := List.forall_mem_cons.mp hvalues
    rw [List.foldl_cons, pushAttribute_eq printer hvalue h]
    refine (ih { printer with buffer := printer.buffer ++ attributeText options attrib } hvalues h).trans ?_
    rw [List.flatMap_cons, List.append_assoc]

theorem writeEnd_eq (printer : XMLPrinter) (name : List Byte) (compactMode : Bool) :
    printer.writeEnd name compactMode =
      printer.write (if printer.elementJustOpened then text "/>"
        else endBreak printer.textDepth printer.depth compactMode ++ (text "</" ++ (name ++ text ">"))) := by
  unfold writeEnd endBreak
  split_ifs
  all_goals simp [write, printSpace]

theorem closeElement_eq {name : List Byte} {stack : List (List Byte)}
    (h : printer.stack = name :: stack) : printer.closeElement printer.compactMode =
      { printer with
        elementJustOpened := false
        stack := stack
        depth := printer.depth - 1
        textDepth := if printer.textDepth = printer.depth - 1 then -1 else printer.textDepth
        buffer := printer.buffer ++ ((if printer.elementJustOpened then text "/>"
          else endBreak printer.textDepth (printer.depth - 1) printer.compactMode ++
            (text "</" ++ (name ++ text ">"))) ++ printer.lastBreak) } := by
  rw [closeElement, h]
  simp only [writeEnd_eq, write, lastBreak]
  split_ifs
  all_goals simp

end XMLPrinter

end CppTry
