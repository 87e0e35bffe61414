import CppTry.XMLDocument
import CppTry.XMLText

namespace CppTry

namespace XMLGrammar
open Scanning StrPair XMLUtil XMLPrinter

/-- Whether the nodes begin with an element. -/
def startsElement : List XMLNode → Bool
  | .element .. :: _ => true
  | _ => false

/-- Whether the nodes begin with text that is no `CDATA`. -/
def startsText : List XMLNode → Bool
  | .text _ false :: _ => true
  | _ => false

/-- The spaces that end up behind a text in front of these nodes. -/
def strayIndent (compact : Bool) (depth : Nat) (next : List XMLNode) : List Byte :=
  if startsElement next && !compact then List.replicate (4 * (depth - 1)) (chr ' ') else []

/-- An attribute as it is read behind printing. -/
def rereadAttribute (attrib : XMLAttribute) : XMLAttribute :=
  ⟨attrib.name, normalizeNewlines attrib.value⟩

mutual

/-- A node as it is read behind printing; `stray` follows a text. -/
def rereadNode (options : XMLOptions) (compact : Bool) :
    XMLNode → Nat → List Byte → XMLNode
  | .element name attributes children, depth, _ =>
    .element name (attributes.map rereadAttribute)
      (rereadNodes options compact children (depth + 1))
  | .text value false, _, stray => .text (options.rereadText (value ++ stray)) false
  | .text value true, _, _ => .text (normalizeNewlines value) true
  | .comment value, _, _ => .comment (normalizeNewlines value)
  | .declaration value, _, _ => .declaration (normalizeNewlines value)
  | .unknown value, _, _ => .unknown (normalizeNewlines value)

def rereadNodes (options : XMLOptions) (compact : Bool) : List XMLNode → Nat → List XMLNode
  | [], _ => []
  | node :: nodes, depth =>
    rereadNode options compact node depth (strayIndent compact depth nodes) ::
      rereadNodes options compact nodes depth

end

/-- A node that is no element and no plain text, with a value that does not end it early. -/
inductive PrintableLeaf : XMLNode → Prop
  | cdata {value : List Byte} : 0 ∉ value → ¬ CppTry.text "]]>" <:+: value →
      PrintableLeaf (.text value true)
  | comment {value : List Byte} : 0 ∉ value → ¬ CppTry.text "-->" <:+: value →
      PrintableLeaf (.comment value)
  | unknown {value : List Byte} : 0 ∉ value → ¬ CppTry.text ">" <:+: value →
      ¬ CppTry.text "--" <+: value → ¬ CppTry.text "[CDATA[" <+: value →
      PrintableLeaf (.unknown value)

/-- The conditions on the attributes of an element. A value has at most `INT_MAX` bytes, and where
entities are not processed it must not have the quote. -/
structure PrintableAttributes (options : XMLOptions) (attributes : List XMLAttribute) : Prop where
  names : ∀ a ∈ attributes, NameText a.name
  values : ∀ a ∈ attributes, 0 ∉ a.value ∧ a.value.length ≤ intMax ∧
    (options.processEntities = true ∨ chr '"' ∉ a.value)
  distinct : Distinct attributes

/-- Nodes that a printer can write so that the parser reads them again: names are names, no value
ends its node early, a text lies in an element, has more than white space and at most `INT_MAX`
bytes and no text behind it, and declarations come first. The parser builds some others too, as a
text that is made of character references only, or one behind the root element. -/
inductive Printable (options : XMLOptions) : Bool → Nat → List XMLNode → Prop
  | nil {allowed : Bool} {depth : Nat} : Printable options allowed depth []
  | declaration {depth : Nat} {value : List Byte} {nodes : List XMLNode} : 0 ∉ value →
      ¬ CppTry.text "?>" <:+: value → Printable options true depth nodes →
      Printable options true depth (.declaration value :: nodes)
  | leaf {allowed : Bool} {depth : Nat} {node : XMLNode} {nodes : List XMLNode} :
      PrintableLeaf node → Printable options false depth nodes →
      Printable options allowed depth (node :: nodes)
  | text {allowed : Bool} {depth : Nat} {value : List Byte} {nodes : List XMLNode} : 0 ∉ value →
      value.length ≤ intMax →
      options.processEntities = true ∨ chr '<' ∉ value → (∃ c ∈ value, isWhiteSpace c = false) →
      1 < depth → startsText nodes = false → Printable options false depth nodes →
      Printable options allowed depth (.text value false :: nodes)
  | element {allowed : Bool} {depth : Nat} {name : List Byte} {attributes : List XMLAttribute}
      {children nodes : List XMLNode} : NameText name → PrintableAttributes options attributes →
      children = [] ∨ depth + 1 < maxElementDepth → Printable options false (depth + 1) children →
      Printable options false depth nodes →
      Printable options allowed depth (.element name attributes children :: nodes)

variable {options : XMLOptions} {compact allowed : Bool} {depth : Nat} {nodes : List XMLNode}
  {s t : List Byte}

theorem PrintableAttributes.short {attributes : List XMLAttribute}
    (h : PrintableAttributes options attributes) :
    ∀ attrib ∈ attributes, attrib.value.length ≤ intMax :=
  fun attrib hattrib => (h.values attrib hattrib).2.1

theorem tag_start {slash sealed : Bool} {name : List Byte} {attributes : List XMLAttribute}
    (h : Tag options slash sealed s name attributes t) : ∃ r, Blank s (chr '<' :: r) ∧
      ∀ s', Blank s' (chr '<' :: r) → Tag options slash sealed s' name attributes t := by
  obtain ⟨hs, h₁, hname, hattributes, hnodup⟩ := h
  exact ⟨_, hs, fun s' hs' => .intro hs' h₁ hname hattributes hnodup⟩

/-- Markup is read alike behind any white space. -/
theorem nodes_start (h : Nodes options allowed depth s nodes t) (hne : nodes ≠ [])
    (hm : startsText nodes = false) : ∃ r, Blank s (chr '<' :: r) ∧
      ∀ s', Blank s' (chr '<' :: r) → Nodes options allowed depth s' nodes t := by
  cases h with
  | nil => exact absurd rfl hne
  | declaration hnode hnodes =>
    obtain ⟨hs, hraw⟩ := hnode
    exact ⟨_, hs, fun s' hs' => .declaration (.intro hs' hraw) hnodes⟩
  | leaf hnode hnodes =>
    cases hnode with
    | comment hs hraw => exact ⟨_, hs, fun s' hs' => .leaf (.comment hs' hraw) hnodes⟩
    | cdata hs hraw => exact ⟨_, hs, fun s' hs' => .leaf (.cdata hs' hraw) hnodes⟩
    | unknown hs hc hcd hraw =>
      exact ⟨_, hs, fun s' hs' => .leaf (.unknown hs' hc hcd hraw) hnodes⟩
    | text hraw hrest hmem => cases hm
  | sealed htag hnodes =>
    obtain ⟨r, hs, htag'⟩ := tag_start htag
    exact ⟨r, hs, fun s' hs' => .sealed (htag' s' hs') hnodes⟩
  | element htag hd hchildren hend hn hnodes =>
    obtain ⟨r, hs, htag'⟩ := tag_start htag
    exact ⟨r, hs, fun s' hs' => .element (htag' s' hs') hd hchildren hend hn hnodes⟩

theorem nodes_behind (h : Nodes options allowed depth s nodes t) (hne : nodes ≠ [])
    (hm : startsText nodes = false) {s' : List Byte} (hs : Blank s' s) :
    Nodes options allowed depth s' nodes t := by
  obtain ⟨r, hr, hnodes⟩ := nodes_start h hne hm
  exact hnodes s' (hs.trans hr)

theorem nodes_skip (h : Nodes options allowed depth s nodes t) (hne : nodes ≠ [])
    (hm : startsText nodes = false) {r : List Byte} (hs : Blank s (chr '<' :: r)) :
    Nodes options allowed depth (chr '<' :: r) nodes t := by
  obtain ⟨r', hr, hnodes⟩ := nodes_start h hne hm
  have hw : isWhiteSpace (chr '<') = false := by decide
  cases (skip_cons hw hs).symm.trans (skip_cons hw hr)
  exact hnodes _ (Skips.refl _ _)

theorem blank_append {gap : List Byte} (h : ∀ c ∈ gap, isWhiteSpace c = true) (s : List Byte) :
    Blank (gap ++ s) s := ⟨gap, h, rfl⟩

theorem startsText_reread (nodes : List XMLNode) (depth : Nat) :
    startsText (rereadNodes options compact nodes depth) = startsText nodes := by
  cases nodes with
  | nil => rfl
  | cons node nodes =>
    cases node with
    | text value cdata => cases cdata <;> rfl
    | _ => rfl

theorem reread_ne_nil (h : nodes ≠ []) : rereadNodes options compact nodes depth ≠ [] := by
  cases nodes with
  | nil => exact absurd rfl h
  | cons node nodes => exact List.cons_ne_nil _ _

/-- A printer in front of nodes of this depth. -/
structure At (options : XMLOptions) (compact : Bool) (depth : Nat) (p : XMLPrinter) : Prop where
  entities : p.processEntities = options.processEntities
  mode : p.compactMode = compact
  level : p.depth + 1 = depth

/-- What printing a node leaves as it is; no tag is open behind it. -/
structure Kept (p p' : XMLPrinter) : Prop where
  opened : p'.elementJustOpened = false
  stack : p'.stack = p.stack
  depth : p'.depth = p.depth
  entities : p'.processEntities = p.processEntities
  mode : p'.compactMode = p.compactMode

theorem Kept.trans {p p' p'' : XMLPrinter} (h : Kept p p') (h' : Kept p' p'') : Kept p p'' :=
  ⟨h'.opened, h'.stack.trans h.stack, h'.depth.trans h.depth, h'.entities.trans h.entities,
    h'.mode.trans h.mode⟩

theorem Kept.at {p p' : XMLPrinter} (h : Kept p p') (hp : At options compact depth p) :
    At options compact depth p' :=
  ⟨h.entities.trans hp.entities, h.mode.trans hp.mode, by rw [h.depth]; exact hp.level⟩

theorem Kept.sealText {p p' : XMLPrinter} (h : Kept p p') : p'.sealText = [] := by
  rw [XMLPrinter.sealText, h.opened]
  rfl

/-- Whether the last of the nodes is text that is no `CDATA`. -/
def endsText (nodes : List XMLNode) : Bool :=
  match nodes.getLast? with
  | some (.text _ false) => true
  | _ => false

/-- What a printer writes for nodes is read as these nodes again, up to a line break behind them. -/
structure Prints (options : XMLOptions) (compact allowed : Bool) (depth : Nat)
    (nodes : List XMLNode) (p : XMLPrinter) (out : List Byte) : Prop where
  buffer : (acceptAll nodes p).buffer = p.buffer ++ (p.sealText ++ out)
  kept : Kept p (acceptAll nodes p)
  text : endsText nodes = true → 0 ≤ (acceptAll nodes p).textDepth
  front : startsText nodes = false → 0 ≤ p.textDepth →
    ∃ c r, out = strayIndent compact depth nodes ++ chr '<' :: c :: r
  zero : 0 ∉ out
  read : ∀ t, (endsText nodes = true → ∃ c r, t = chr '<' :: c :: r) →
    ∃ u, Nodes options allowed depth (out ++ t) (rereadNodes options compact nodes depth) u ∧
      Blank u t

/-- What a printer writes for a node that is no plain text: `core` is the node. -/
structure PrintsMarkup (options : XMLOptions) (compact allowed allowed' : Bool) (depth : Nat)
    (node : XMLNode) (p : XMLPrinter) (lead core trail : List Byte) : Prop where
  buffer : (node.accept p).buffer = p.buffer ++ (p.sealText ++ (lead ++ (core ++ trail)))
  kept : Kept p (node.accept p)
  leading : ∀ c ∈ lead, isWhiteSpace c = true
  trailing : ∀ c ∈ trail, isWhiteSpace c = true
  front : 0 ≤ p.textDepth → lead = strayIndent compact depth [node]
  begins : ∃ c r, core = chr '<' :: c :: r
  inner : 1 < depth → trail = []
  markup : startsText [node] = false
  zero : 0 ∉ core
  read : ∀ stray t ns u, Nodes options allowed' depth t ns u →
    Nodes options allowed depth (core ++ t) (rereadNode options compact node depth stray :: ns) u

theorem zero_notMem_white {gap : List Byte} (h : ∀ c ∈ gap, isWhiteSpace c = true) : 0 ∉ gap := by
  intro hz
  cases h 0 hz

theorem zero_notMem_append {a b : List Byte} (ha : 0 ∉ a) (hb : 0 ∉ b) : 0 ∉ a ++ b := by
  rw [List.mem_append]
  exact not_or.mpr ⟨ha, hb⟩

theorem startsText_cons (node : XMLNode) (nodes : List XMLNode) :
    startsText (node :: nodes) = startsText [node] := by
  cases node with
  | text value cdata => cases cdata <;> rfl
  | _ => rfl

theorem strayIndent_cons (node : XMLNode) (nodes : List XMLNode) :
    strayIndent compact depth (node :: nodes) = strayIndent compact depth [node] := by
  cases node with
  | _ => rfl

theorem endsText_cons (node : XMLNode) (h : nodes ≠ []) :
    endsText (node :: nodes) = endsText nodes := by
  unfold endsText
  rw [List.getLast?_cons_of_ne_nil h]

theorem PrintsMarkup.last {allowed' : Bool} {node : XMLNode} {p : XMLPrinter}
    {lead core trail : List Byte}
    (h : PrintsMarkup options compact allowed allowed' depth node p lead core trail) :
    Prints options compact allowed depth [node] p (lead ++ (core ++ trail)) where
  buffer := h.buffer
  kept := h.kept
  text he := by
    have hm := h.markup
    cases node with
    | text value cdata => cases cdata <;> simp_all [endsText, startsText]
    | _ => simp [endsText] at he
  front _ hp := by
    obtain ⟨c, r, hcore⟩ := h.begins
    exact ⟨c, r ++ trail, by rw [h.front hp, hcore]; rfl⟩
  zero := zero_notMem_append (zero_notMem_white h.leading)
    (zero_notMem_append h.zero (zero_notMem_white h.trailing))
  read t _ := by
    refine ⟨trail ++ t, ?_, blank_append h.trailing t⟩
    have hnode := h.read (strayIndent compact depth []) (trail ++ t) [] _ .nil
    rw [List.append_assoc, List.append_assoc]
    refine nodes_behind hnode (List.cons_ne_nil _ _) ?_ (blank_append h.leading _)
    have hm : startsText (rereadNodes options compact [node] depth) = startsText [node] :=
      startsText_reread [node] depth
    exact hm.trans h.markup

theorem PrintsMarkup.cons {allowed' : Bool} {node : XMLNode} {p : XMLPrinter}
    {lead core trail out : List Byte}
    (h : PrintsMarkup options compact allowed allowed' depth node p lead core trail)
    (hne : nodes ≠ []) (hinner : startsText nodes = true → 1 < depth)
    (hnodes : Prints options compact allowed' depth nodes (node.accept p) out) :
    Prints options compact allowed depth (node :: nodes) p (lead ++ (core ++ (trail ++ out))) where
  buffer := by
    rw [acceptAll, hnodes.buffer, h.buffer, h.kept.sealText]
    simp
  kept := h.kept.trans hnodes.kept
  text he := hnodes.text (endsText_cons node hne ▸ he)
  front _ hp := by
    obtain ⟨c, r, hcore⟩ := h.begins
    exact ⟨c, r ++ (trail ++ out), by rw [strayIndent_cons, h.front hp, hcore]; rfl⟩
  zero := zero_notMem_append (zero_notMem_white h.leading) (zero_notMem_append h.zero
    (zero_notMem_append (zero_notMem_white h.trailing) hnodes.zero))
  read t ht := by
    rw [endsText_cons node hne] at ht
    obtain ⟨u, hread, hu⟩ := hnodes.read t ht
    refine ⟨u, ?_, hu⟩
    have hrest : Nodes options allowed' depth (trail ++ (out ++ t))
        (rereadNodes options compact nodes depth) u := by
      cases hs : startsText nodes with
      | true =>
        rw [h.inner (hinner hs)]
        exact hread
      | false =>
        exact nodes_behind hread (reread_ne_nil hne) ((startsText_reread nodes depth).trans hs)
          (blank_append h.trailing _)
    have hnode := h.read (strayIndent compact depth nodes) _ _ _ hrest
    simp only [List.append_assoc]
    refine nodes_behind hnode (List.cons_ne_nil _ _) ?_ (blank_append h.leading _)
    exact (startsText_reread (node :: nodes) depth).trans
      ((startsText_cons node nodes).trans h.markup)

section
variable {p : XMLPrinter}

theorem markupBreak_white (p : XMLPrinter) : ∀ c ∈ p.markupBreak, isWhiteSpace c = true := by
  unfold markupBreak
  split
  next =>
    refine List.forall_mem_cons.mpr ⟨by decide, ?_⟩
    intro c hc
    rw [List.eq_of_mem_replicate hc]
    decide
  next => simp

theorem markupBreak_text (h : 0 ≤ p.textDepth) : p.markupBreak = [] :=
  if_neg fun hc => absurd hc.1 (not_lt.mpr h)

theorem pushMarkup_kept (front value back : List Byte) : Kept p (p.pushMarkup front value back) := by
  rw [pushMarkup_eq]
  exact ⟨rfl, rfl, rfl, rfl, rfl⟩

/-- Comments, declarations and unknown nodes. -/
theorem printsMarkup_pushMarkup {allowed' : Bool} {node : XMLNode} {front value back : List Byte}
    (haccept : node.accept p = p.pushMarkup front value back)
    (hfront : ∃ c r, front = chr '<' :: c :: r) (hs : strayIndent compact depth [node] = [])
    (hm : startsText [node] = false) (hz : 0 ∉ front ++ (value ++ back))
    (hread : ∀ stray t ns u, Nodes options allowed' depth t ns u →
      Nodes options allowed depth (front ++ (value ++ (back ++ t)))
        (rereadNode options compact node depth stray :: ns) u) :
    PrintsMarkup options compact allowed allowed' depth node p p.markupBreak
      (front ++ (value ++ back)) [] where
  buffer := by
    rw [haccept, pushMarkup_eq]
    simp
  kept := haccept ▸ pushMarkup_kept front value back
  leading := markupBreak_white p
  trailing := by simp
  front hp := (markupBreak_text hp).trans hs.symm
  begins := by
    obtain ⟨c, r, rfl⟩ := hfront
    exact ⟨c, r ++ (value ++ back), rfl⟩
  inner _ := rfl
  markup := hm
  zero := hz
  read stray t ns u hn := by
    simpa using hread stray t ns u hn

theorem prefix_of_append_cons {pat value rest : List Byte} {c : Byte} (hc : c ∉ pat)
    (h : pat <+: value ++ c :: rest) : pat <+: value := by
  by_cases hlen : pat.length ≤ value.length
  · exact List.prefix_of_prefix_length_le h (List.prefix_append _ _) hlen
  · have hp : value ++ [c] <+: pat := by
      refine List.prefix_of_prefix_length_le ⟨rest, by simp⟩ h ?_
      rw [List.length_append, List.length_singleton]
      omega
    exact absurd (hp.subset (by simp)) hc

theorem printsMarkup_leaf {node : XMLNode} (h : PrintableLeaf node)
    (hp : At options compact depth p) : ∃ lead core,
      PrintsMarkup options compact allowed false depth node p lead core [] := by
  cases h with
  | @cdata value hz hn =>
    refine ⟨[], CppTry.text "<![CDATA[" ++ (value ++ CppTry.text "]]>"), ?_⟩
    have haccept : XMLNode.accept (.text value true) p = p.pushText value true := rfl
    rw [pushText_eq p true (Or.inl rfl) hp.entities] at haccept
    exact {
      buffer := by
        rw [haccept]
        simp
      kept := by
        rw [haccept]
        exact ⟨rfl, rfl, rfl, rfl, rfl⟩
      leading := by simp
      trailing := by simp
      front := fun _ => rfl
      begins := ⟨_, _, rfl⟩
      inner := fun _ => rfl
      markup := rfl
      zero := zero_notMem_append (by decide) (zero_notMem_append hz (by decide))
      read := by
        intro stray t ns u hns
        refine .leaf ?_ hns
        rw [rereadNode, ← XMLOptions.getStr_leaveEntities options.build hz]
        exact .cdata (by simpa using Skips.refl _ _) ⟨rfl, hn⟩ }
  | @comment value hz hn =>
    refine ⟨_, _, printsMarkup_pushMarkup rfl ⟨_, _, rfl⟩ rfl rfl
      (zero_notMem_append (by decide) (zero_notMem_append hz (by decide))) ?_⟩
    intro stray t ns u hns
    refine .leaf ?_ hns
    rw [rereadNode, ← XMLOptions.getStr_leaveEntities options.build hz]
    exact .comment (Skips.refl _ _) ⟨rfl, hn⟩
  | @unknown value hz hn hc hcd =>
    refine ⟨_, _, printsMarkup_pushMarkup rfl ⟨_, _, rfl⟩ rfl rfl
      (zero_notMem_append (by decide) (zero_notMem_append hz (by decide))) ?_⟩
    intro stray t ns u hns
    refine .leaf ?_ hns
    rw [rereadNode, ← XMLOptions.getStr_leaveEntities options.build hz]
    exact .unknown (Skips.refl _ _) (fun h => hc (prefix_of_append_cons (by decide) h))
      (fun h => hcd (prefix_of_append_cons (by decide) h)) ⟨rfl, hn⟩

theorem printsMarkup_declaration {value : List Byte} (hz : 0 ∉ value)
    (hn : ¬ CppTry.text "?>" <:+: value) : ∃ lead core,
      PrintsMarkup options compact true true depth (.declaration value) p lead core [] := by
  refine ⟨_, _, printsMarkup_pushMarkup rfl ⟨_, _, rfl⟩ rfl rfl
    (zero_notMem_append (by decide) (zero_notMem_append hz (by decide))) ?_⟩
  intro stray t ns u hns
  refine .declaration ?_ hns
  rw [rereadNode, ← XMLOptions.getStr_leaveEntities options.build hz]
  exact .intro (Skips.refl _ _) ⟨rfl, hn⟩

end

theorem name_printed {name : List Byte} (h : NameText name) {c : Byte}
    (hc : isNameChar c = false) (rest : List Byte) : Name (name ++ c :: rest) name (c :: rest) :=
  ⟨h, rfl, stops_cons hc rest⟩

theorem attribute_printed {attrib : XMLAttribute} (hn : NameText attrib.name)
    (hz : 0 ∉ attrib.value) (hq : options.processEntities = true ∨ chr '"' ∉ attrib.value)
    (t : List Byte) : Attribute options
      (attrib.name ++ (text "=\"" ++ (options.printed false attrib.value ++ chr '"' :: t)))
      (rereadAttribute attrib) t := by
  rw [rereadAttribute, ← XMLOptions.getStr_attribute hz]
  have hquote (rest : List Byte) : Blank (chr '"' :: rest) (chr '"' :: rest) := Skips.refl _ _
  refine .intro (name_printed hn (by decide) _) (Skips.refl _ _) (hquote _) (Or.inl rfl) ?_
  refine ⟨rfl, ?_⟩
  rintro ⟨front, back, he⟩
  apply XMLOptions.quote_notMem_printed hq
  rw [← he]
  simp

theorem attributes_printed {attributes : List XMLAttribute}
    (h : PrintableAttributes options attributes) {sealed : Bool} {u : List Byte}
    (ht : Attributes options t [] sealed u) :
    Attributes options (attributes.flatMap (attributeText options) ++ t)
      (attributes.map rereadAttribute) sealed u := by
  have hnames := h.names
  have hvalues := h.values
  clear h
  induction attributes with
  | nil => exact ht
  | cons attrib attributes ih =>
    obtain ⟨hn, hnames⟩ := List.forall_mem_cons.mp hnames
    obtain ⟨⟨hz, -, hq⟩, hvalues⟩ := List.forall_mem_cons.mp hvalues
    have hattrib := attribute_printed hn hz hq (attributes.flatMap (attributeText options) ++ t)
    refine .cons ?_ hattrib (ih hnames hvalues)
    rw [List.flatMap_cons, attributeText]
    simpa using Skips.cons (by decide : isWhiteSpace (chr ' ') = true) (Skips.refl _ _)

theorem zero_notMem_name {name : List Byte} (h : NameText name) : 0 ∉ name := by
  obtain ⟨c, cs, rfl, hc, hcs⟩ := h
  intro hz
  rcases List.mem_cons.mp hz with rfl | hz
  · cases hc
  · cases hcs 0 hz

theorem zero_notMem_tag {name : List Byte} {attributes : List XMLAttribute} (hn : NameText name)
    (h : PrintableAttributes options attributes) :
    0 ∉ (text "<" ++ name) ++ attributes.flatMap (attributeText options) := by
  refine zero_notMem_append (zero_notMem_append (by decide) (zero_notMem_name hn)) ?_
  intro hz
  obtain ⟨attrib, hmem, hz⟩ := List.mem_flatMap.mp hz
  have hvalue : 0 ∉ options.printed false attrib.value :=
    XMLOptions.zero_notMem_printed (h.values attrib hmem).1
  have hrest : 0 ∉ attrib.name ++ (text "=\"" ++ (options.printed false attrib.value ++ [chr '"'])) :=
    zero_notMem_append (zero_notMem_name (h.names attrib hmem)) (zero_notMem_append (by decide)
      (zero_notMem_append hvalue (by decide)))
  rcases List.mem_cons.mp hz with hz | hz
  · cases hz
  · exact hrest hz

theorem stops_attributes {c : Byte} (hc : isNameChar c = false) (attributes : List XMLAttribute)
    (rest : List Byte) :
    Stops isNameChar (attributes.flatMap (attributeText options) ++ c :: rest) := by
  cases attributes with
  | nil => exact stops_cons hc rest
  | cons attrib attributes => exact stops_cons (by decide) _

/-- A tag, with what ends it. -/
theorem tag_printed {name : List Byte} {attributes : List XMLAttribute} {sealed : Bool} {c : Byte}
    {rest u : List Byte} (hn : NameText name) (h : PrintableAttributes options attributes)
    (hc : isNameChar c = false) (ht : Attributes options (c :: rest) [] sealed u) :
    Tag options false sealed
      (text "<" ++ (name ++ (attributes.flatMap (attributeText options) ++ c :: rest))) name
      (attributes.map rereadAttribute) u := by
  refine .intro (Skips.refl _ _) ?_ ⟨hn, rfl, stops_attributes hc attributes rest⟩
    (attributes_printed h ht) ?_
  · exact Skips.refl _ _
  · rw [Distinct, List.map_map]
    exact h.distinct

theorem endTag_printed {name gap : List Byte} (hn : NameText name)
    (hgap : ∀ c ∈ gap, isWhiteSpace c = true) {v : List Byte}
    (hv : Blank v (gap ++ (text "</" ++ (name ++ (text ">" ++ t))))) :
    Tag options true false v name [] t := by
  refine .intro (hv.trans (blank_append hgap _)) (Skips.refl _ _) (name_printed hn (by decide) _)
    (.opened (Skips.refl _ _)) List.nodup_nil

section
variable {p : XMLPrinter} {name : List Byte} {attributes : List XMLAttribute}

/-- A printer behind a tag that is not ended. -/
def tagOpened (options : XMLOptions) (p : XMLPrinter) (name : List Byte)
    (attributes : List XMLAttribute) : XMLPrinter :=
  { p with
    elementJustOpened := true
    stack := name :: p.stack
    firstElement := false
    depth := p.depth + 1
    buffer := p.buffer ++ (p.sealText ++ (p.breakText ++ p.indentText ++
      (text "<" ++ (name ++ attributes.flatMap (attributeText options))))) }

theorem accept_element (hvalues : ∀ attrib ∈ attributes, attrib.value.length ≤ intMax)
    (h : p.processEntities = options.processEntities) (children : List XMLNode) :
    XMLNode.accept (.element name attributes children) p =
      (acceptAll children (tagOpened options p name attributes)).closeElement
        (acceptAll children (tagOpened options p name attributes)).compactMode := by
  rw [XMLNode.accept]
  have ho := openElement_eq p name
  have hentities : (p.openElement name p.compactMode).processEntities = options.processEntities := by
    rw [ho]
    exact h
  have ha := pushAttributes_eq (p.openElement name p.compactMode) hvalues hentities
  rw [ha, ho]
  simp [tagOpened]

theorem tagOpened_at (hp : At options compact depth p) :
    At options compact (depth + 1) (tagOpened options p name attributes) where
  entities := hp.entities
  mode := hp.mode
  level := by
    change p.depth + 1 + 1 = _
    rw [hp.level]
    rfl

theorem lead_white (p : XMLPrinter) :
    ∀ c ∈ p.breakText ++ p.indentText, isWhiteSpace c = true := by
  intro c hc
  rcases List.mem_append.mp hc with hc | hc
  · unfold breakText at hc
    split at hc
    next =>
      rw [List.mem_singleton.mp hc]
      decide
    next => cases hc
  · unfold indentText at hc
    split at hc
    next => cases hc
    next =>
      rw [List.eq_of_mem_replicate hc]
      decide

theorem lead_text (hp : At options compact depth p) (h : 0 ≤ p.textDepth)
    (children : List XMLNode) : p.breakText ++ p.indentText =
      strayIndent compact depth [.element name attributes children] := by
  have hbreak : p.breakText = [] := if_neg fun hc => absurd hc.1 (not_lt.mpr h)
  have hdepth : p.depth.toNat = depth - 1 := by
    have hl := hp.level
    omega
  rw [hbreak, List.nil_append, indentText, hp.mode, hdepth, strayIndent]
  cases compact <;> rfl

theorem lastBreak_white (p : XMLPrinter) : ∀ c ∈ p.lastBreak, isWhiteSpace c = true := by
  unfold lastBreak
  split
  next => exact List.forall_mem_singleton.mpr (by decide)
  next => simp

theorem printsMarkup_sealed (hn : NameText name) (ha : PrintableAttributes options attributes)
    (hp : At options compact depth p) : ∃ lead core trail,
      PrintsMarkup options compact allowed false depth (.element name attributes []) p lead core
        trail := by
  have haccept : XMLNode.accept (.element name attributes []) p = _ := accept_element ha.short hp.entities []
  have hstack : (tagOpened options p name attributes).stack = name :: p.stack := rfl
  rw [acceptAll, closeElement_eq hstack] at haccept
  refine ⟨p.breakText ++ p.indentText,
    text "<" ++ (name ++ (attributes.flatMap (attributeText options) ++ text "/>")),
    (tagOpened options p name attributes).lastBreak, ?_⟩
  exact {
    buffer := by
      rw [haccept]
      simp [tagOpened]
    kept := by
      rw [haccept]
      exact ⟨rfl, rfl, Int.add_sub_cancel _ _, rfl, rfl⟩
    leading := lead_white p
    trailing := lastBreak_white _
    front := fun h => lead_text hp h []
    begins := by
      obtain ⟨c, cs, rfl, _⟩ := hn
      exact ⟨c, _, rfl⟩
    inner := by
      intro hd
      refine if_neg fun hc => ?_
      have hl := hp.level
      change p.depth + 1 - 1 = 0 ∧ _ at hc
      omega
    markup := rfl
    zero := by
      rw [← List.append_assoc, ← List.append_assoc]
      exact zero_notMem_append (zero_notMem_tag hn ha) (by decide)
    read := by
      intro stray t ns u hns
      have hend : Attributes options (chr '/' :: chr '>' :: t) [] true t := .sealed (Skips.refl _ _)
      have htag := tag_printed hn ha (by decide) hend
      refine .sealed (?_ : Tag options false true _ _ _ _) hns
      simp only [List.append_assoc]
      exact htag }

theorem endBreak_white (textDepth depth : Int) (compactMode : Bool) :
    ∀ c ∈ endBreak textDepth depth compactMode, isWhiteSpace c = true := by
  unfold endBreak
  split
  next =>
    refine List.forall_mem_cons.mpr ⟨by decide, ?_⟩
    intro c hc
    rw [List.eq_of_mem_replicate hc]
    decide
  next => simp

theorem printsMarkup_parent {children : List XMLNode} (hn : NameText name)
    (ha : PrintableAttributes options attributes) (hp : At options compact depth p)
    (hd : depth + 1 < maxElementDepth) {out : List Byte}
    (hchildren : Prints options compact false (depth + 1) children
      (tagOpened options p name attributes) out) : ∃ lead core trail,
      PrintsMarkup options compact allowed false depth (.element name attributes children) p lead
        core trail := by
  have haccept : XMLNode.accept (.element name attributes children) p = _ :=
    accept_element ha.short hp.entities children
  have hk := hchildren.kept
  have hstack : (acceptAll children (tagOpened options p name attributes)).stack = name :: p.stack :=
    hk.stack
  rw [closeElement_eq hstack, hchildren.buffer, hk.opened] at haccept
  have htext := hchildren.text
  have hread := hchildren.read
  generalize acceptAll children (tagOpened options p name attributes) = q at *
  have hlevel : q.depth - 1 = p.depth := by
    rw [hk.depth]
    exact Int.add_sub_cancel _ _
  generalize hgap : endBreak q.textDepth (q.depth - 1) q.compactMode = gap at haccept
  have hgapWhite : ∀ c ∈ gap, isWhiteSpace c = true := hgap ▸ endBreak_white _ _ _
  have hgapText : 0 ≤ q.textDepth → gap = [] := by
    intro h
    rw [← hgap]
    exact if_neg fun hc => absurd hc.1 (not_lt.mpr h)
  refine ⟨p.breakText ++ p.indentText, text "<" ++ (name ++
    (attributes.flatMap (attributeText options) ++ (text ">" ++ (out ++ (gap ++
      (text "</" ++ (name ++ text ">"))))))), q.lastBreak, ?_⟩
  exact {
    buffer := by
      rw [haccept]
      simp [tagOpened, sealText, text]
    kept := by
      rw [haccept]
      exact ⟨rfl, rfl, hlevel, hk.entities, hk.mode⟩
    leading := lead_white p
    trailing := lastBreak_white q
    front := fun h => lead_text hp h children
    begins := by
      obtain ⟨c, cs, rfl, _⟩ := hn
      exact ⟨c, _, rfl⟩
    inner := by
      intro hd
      refine if_neg fun hc => ?_
      have hl := hp.level
      omega
    markup := rfl
    zero := by
      rw [← List.append_assoc, ← List.append_assoc]
      have hlast : 0 ∉ text "</" ++ (name ++ text ">") := zero_notMem_append (by decide)
        (zero_notMem_append (zero_notMem_name hn) (by decide))
      exact zero_notMem_append (zero_notMem_tag hn ha) (zero_notMem_append (by decide)
        (zero_notMem_append hchildren.zero (zero_notMem_append (zero_notMem_white hgapWhite) hlast)))
    read := by
      intro stray t ns u hns
      have hfollow : endsText children = true → ∃ c r,
          gap ++ (text "</" ++ (name ++ (text ">" ++ t))) = chr '<' :: c :: r := by
        intro he
        rw [hgapText (htext he)]
        exact ⟨chr '/', _, rfl⟩
      obtain ⟨v, hinner, hv⟩ := hread _ hfollow
      have hend : Attributes options (chr '>' :: (out ++ (gap ++ (text "</" ++
          (name ++ (text ">" ++ t)))))) [] false _ := .opened (Skips.refl _ _)
      have htag := tag_printed hn ha (by decide) hend
      refine .element ?_ hd hinner (endTag_printed hn hgapWhite hv) (BEq.refl _) hns
      simpa [text] using htag }

theorem printed_visible {restricted : Bool} (h : ∃ c ∈ s, isWhiteSpace c = false) :
    ∃ c ∈ options.printed restricted s, isWhiteSpace c = false := by
  obtain ⟨c, hc, hw⟩ := h
  unfold XMLOptions.printed
  split
  next =>
    rcases printByte_cases restricted c with ⟨he, _⟩ | ⟨entity, _, _, he⟩
    · exact ⟨c, List.mem_flatMap.mpr ⟨c, hc, by simp [he]⟩, hw⟩
    · exact ⟨chr '&', List.mem_flatMap.mpr ⟨c, hc, by simp [he]⟩, by decide⟩
  next => exact ⟨c, hc, hw⟩

/-- A text up to the tag behind it. -/
theorem text_printed (hz : 0 ∉ s) (hl : options.processEntities = true ∨ chr '<' ∉ s)
    (hv : ∃ c ∈ s, isWhiteSpace c = false) (ht : t ≠ []) :
    Leaf options (options.printed true s ++ chr '<' :: t) (.text (options.rereadText s) false)
      (chr '<' :: t) := by
  rw [← XMLOptions.getStr_text hz]
  refine .text ⟨rfl, ?_⟩ ht (printed_visible hv)
  rintro ⟨front, back, he⟩
  apply XMLOptions.less_notMem_printed hl
  rw [← he]
  exact List.mem_append_left _ (List.mem_append_right _ (List.mem_singleton.mpr rfl))

theorem strayIndent_mem {c : Byte} (h : c ∈ strayIndent compact depth nodes) : c = chr ' ' := by
  unfold strayIndent at h
  split at h
  next => exact List.eq_of_mem_replicate h
  next => cases h

theorem printed_strayIndent : options.printed true (strayIndent compact depth nodes) =
    strayIndent compact depth nodes := by
  unfold XMLOptions.printed
  split
  next =>
    have hspace : ∀ c ∈ strayIndent compact depth nodes, printByte true c = [c] := by
      intro c hc
      rw [strayIndent_mem hc]
      decide
    rw [List.flatMap_congr hspace, List.flatMap_singleton']
  next => rfl

theorem accept_text {value : List Byte} (hb : value.length ≤ intMax)
    (hp : At options compact depth p) :
    XMLNode.accept (.text value false) p =
      { p with
        elementJustOpened := false
        textDepth := p.depth - 1
        buffer := p.buffer ++ (p.sealText ++ options.printed true value) } :=
  pushText_eq p false (Or.inr hb) hp.entities

section
variable {value : List Byte} (hz : 0 ∉ value)
  (hl : options.processEntities = true ∨ chr '<' ∉ value)
  (hv : ∃ c ∈ value, isWhiteSpace c = false)
include hz hl hv

theorem text_stray (ht : t ≠ []) : Leaf options
    (options.printed true value ++ (strayIndent compact depth nodes ++ chr '<' :: t))
    (rereadNode options compact (.text value false) depth (strayIndent compact depth nodes))
    (chr '<' :: t) := by
  have hstray : options.printed true (value ++ strayIndent compact depth nodes) =
      options.printed true value ++ strayIndent compact depth nodes := by
    rw [XMLOptions.printed_append, printed_strayIndent]
  have hspace (c : Byte) (hc : c ≠ chr ' ') : c ∉ strayIndent compact depth nodes :=
    fun hm => hc (strayIndent_mem hm)
  rw [← List.append_assoc, ← hstray]
  refine text_printed ?_ ?_ ?_ ht
  · simp [hz, hspace 0 (by decide)]
  · exact hl.imp_right fun h => by simp [h, hspace (chr '<') (by decide)]
  · obtain ⟨c, hc, hw⟩ := hv
    exact ⟨c, List.mem_append_left _ hc, hw⟩

theorem prints_text_last (hb : value.length ≤ intMax) (hp : At options compact depth p) (hd : 1 < depth) :
    Prints options compact allowed depth [.text value false] p (options.printed true value) where
  buffer := by
    rw [acceptAll, acceptAll, accept_text hb hp]
  kept := by
    rw [acceptAll, acceptAll, accept_text hb hp]
    exact ⟨rfl, rfl, rfl, rfl, rfl⟩
  text _ := by
    have hl := hp.level
    rw [acceptAll, acceptAll, accept_text hb hp]
    change 0 ≤ p.depth - 1
    omega
  front h := by cases h
  zero := XMLOptions.zero_notMem_printed hz
  read t ht := by
    obtain ⟨c, r, rfl⟩ := ht rfl
    have hnode : Leaf options
        (options.printed true value ++ (strayIndent compact depth [] ++ chr '<' :: c :: r))
        (rereadNode options compact (.text value false) depth (strayIndent compact depth []))
        (chr '<' :: c :: r) := text_stray hz hl hv (List.cons_ne_nil c r)
    exact ⟨_, .leaf hnode .nil, Skips.refl _ _⟩

theorem prints_text (hb : value.length ≤ intMax) (hp : At options compact depth p) (hne : nodes ≠ [])
    (hd : 1 < depth)
    (hm : startsText nodes = false) {out : List Byte}
    (hnodes : Prints options compact false depth nodes (XMLNode.accept (.text value false) p) out) :
    Prints options compact allowed depth (.text value false :: nodes) p
      (options.printed true value ++ out) where
  buffer := by
    rw [acceptAll, hnodes.buffer, accept_text hb hp]
    simp [sealText]
  kept := by
    refine Kept.trans ?_ hnodes.kept
    rw [accept_text hb hp]
    exact ⟨rfl, rfl, rfl, rfl, rfl⟩
  text he := hnodes.text (endsText_cons _ hne ▸ he)
  front h := by cases h
  zero := zero_notMem_append (XMLOptions.zero_notMem_printed hz) hnodes.zero
  read t ht := by
    rw [endsText_cons _ hne] at ht
    have htext : 0 ≤ (XMLNode.accept (.text value false) p).textDepth := by
      have hl := hp.level
      rw [accept_text hb hp]
      change 0 ≤ p.depth - 1
      omega
    obtain ⟨u, hread, hu⟩ := hnodes.read t ht
    obtain ⟨c, r, rfl⟩ := hnodes.front hm htext
    refine ⟨u, ?_, hu⟩
    rw [List.append_assoc, List.append_assoc, List.cons_append]
    refine .leaf (text_stray hz hl hv (List.cons_ne_nil _ _)) ?_
    refine nodes_skip hread (reread_ne_nil hne) ((startsText_reread nodes depth).trans hm) ?_
    rw [List.append_assoc]
    refine blank_append ?_ _
    intro d hd
    rw [strayIndent_mem hd]
    decide

end

end

/-- A text in front of other nodes lies in an element. -/
theorem Printable.inner (h : Printable options allowed depth nodes) (hm : startsText nodes = true) :
    1 < depth := by
  cases h with
  | text _ _ _ _ hd _ _ => exact hd
  | leaf hnode _ => cases hnode <;> cases hm
  | _ => cases hm

theorem PrintsMarkup.prints {allowed' : Bool} {node : XMLNode} {p : XMLPrinter}
    {lead core trail : List Byte}
    (h : PrintsMarkup options compact allowed allowed' depth node p lead core trail)
    (hp : At options compact depth p) (hprintable : Printable options allowed' depth nodes)
    (ih : nodes ≠ [] → ∀ p, At options compact depth p →
      ∃ out, Prints options compact allowed' depth nodes p out) :
    ∃ out, Prints options compact allowed depth (node :: nodes) p out := by
  by_cases hne : nodes = []
  · subst hne
    exact ⟨_, h.last⟩
  · obtain ⟨out, hnodes⟩ := ih hne _ (h.kept.at hp)
    exact ⟨_, h.cons hne hprintable.inner hnodes⟩

/-- What a printer writes for printable nodes is read as these nodes. -/
theorem prints_of_printable (h : Printable options allowed depth nodes) (hne : nodes ≠ [])
    (p : XMLPrinter) (hp : At options compact depth p) :
    ∃ out, Prints options compact allowed depth nodes p out := by
  induction h generalizing p with
  | nil => exact absurd rfl hne
  | declaration hz hn hnodes ih =>
    obtain ⟨lead, core, hnode⟩ := printsMarkup_declaration hz hn
    exact hnode.prints hp hnodes ih
  | leaf hnode hnodes ih =>
    obtain ⟨lead, core, hnode⟩ := printsMarkup_leaf hnode hp
    exact hnode.prints hp hnodes ih
  | @text allowed depth value nodes hz hb hl hv hd hm hnodes ih =>
    by_cases hne : nodes = []
    · subst hne
      exact ⟨_, prints_text_last hz hl hv hb hp hd⟩
    · have hp' : At options compact depth (XMLNode.accept (.text value false) p) := by
        rw [accept_text hb hp]
        exact ⟨hp.entities, hp.mode, hp.level⟩
      obtain ⟨out, hout⟩ := ih hne _ hp'
      exact ⟨_, prints_text hz hl hv hb hp hne hd hm hout⟩
  | @element allowed depth name attributes children nodes hn ha hd hchildren hnodes ihc ih =>
    by_cases hempty : children = []
    · subst hempty
      obtain ⟨lead, core, trail, hnode⟩ := printsMarkup_sealed hn ha hp
      exact hnode.prints hp hnodes ih
    · obtain ⟨out, hout⟩ := ihc hempty _ (tagOpened_at hp)
      obtain ⟨lead, core, trail, hnode⟩ :=
        printsMarkup_parent hn ha hp (hd.resolve_left hempty) hout
      exact hnode.prints hp hnodes ih

theorem Printable.last (h : Printable options allowed depth nodes) (he : endsText nodes = true) :
    1 < depth := by
  induction h with
  | nil => cases he
  | text _ _ _ _ hd _ _ _ => exact hd
  | @leaf allowed depth node nodes hnode hnodes ih =>
    by_cases hne : nodes = []
    · subst hne
      cases hnode <;> cases he
    · exact ih (endsText_cons node hne ▸ he)
  | @declaration depth value nodes hz hn hnodes ih =>
    by_cases hne : nodes = []
    · subst hne
      cases he
    · exact ih (endsText_cons _ hne ▸ he)
  | @element allowed depth name attributes children nodes hn ha hd hchildren hnodes ihc ih =>
    by_cases hne : nodes = []
    · subst hne
      cases he
    · exact ih (endsText_cons _ hne ▸ he)

/-- The printer of a document, at its first node. -/
def printerOf (options : XMLOptions) (compact bom : Bool) : XMLPrinter :=
  let printer := { XMLPrinter.new compact with processEntities := options.processEntities }
  if bom then printer.write XMLUtil.bom else printer

theorem printerOf_at (options : XMLOptions) (compact bom : Bool) :
    At options compact 1 (printerOf options compact bom) := by
  cases bom with
  | _ => exact ⟨rfl, rfl, rfl⟩

theorem print_printerOf {bom : Bool} {out : List Byte}
    (h : Prints options compact allowed depth nodes (printerOf options compact bom) out) :
    options.print compact bom nodes = (if bom then XMLUtil.bom else []) ++ out := by
  change (acceptAll nodes (printerOf options compact bom)).buffer = _
  rw [h.buffer]
  cases bom with
  | _ => rfl

/-- Nodes that begin with markup are a document, behind a byte order mark or without one. -/
theorem document_of_nodes (h : Nodes options true 1 s nodes t) (hne : nodes ≠ [])
    (hm : startsText nodes = false) (ht : Blank t []) (bom : Bool) :
    Document options ((if bom then XMLUtil.bom else []) ++ s) bom nodes := by
  obtain ⟨r, hs, -⟩ := nodes_start h hne hm
  cases bom with
  | true =>
    have hs' : s ≠ [] := by
      rintro rfl
      have hle := hs.length_le
      rw [List.length_cons, List.length_nil] at hle
      omega
    exact ⟨_, s, t, Skips.refl _ _, stops_cons (by decide) _, rfl, hs', h, Or.inl ht⟩
  | false =>
    exact ⟨_, _, t, hs, stops_cons (by decide) _, rfl, List.cons_ne_nil _ _,
      nodes_skip h hne hm hs, Or.inl ht⟩

theorem document_print (options : XMLOptions) (compact bom : Bool) {nodes : List XMLNode}
    (h : Printable options true 1 nodes) (hne : nodes ≠ []) :
    Document options ((options.print compact bom nodes).takeWhile (· ≠ 0)) bom
      (rereadNodes options compact nodes 1) := by
  have hmarkup : startsText nodes = false := by
    by_contra hs
    exact absurd (h.inner (by simpa using hs)) (by decide)
  have hlast : ¬ endsText nodes = true := fun he => absurd (h.last he) (by decide)
  obtain ⟨out, hprints⟩ := prints_of_printable h hne _ (printerOf_at options compact bom)
  obtain ⟨u, hread, hu⟩ := hprints.read [] (fun he => absurd he hlast)
  have hz : 0 ∉ (if bom then XMLUtil.bom else []) ++ out :=
    zero_notMem_append (by cases bom <;> decide) hprints.zero
  rw [print_printerOf hprints, List.takeWhile_eq_self_iff.mpr]
  · rw [List.append_nil] at hread
    exact document_of_nodes hread (reread_ne_nil hne)
      ((startsText_reread nodes 1).trans hmarkup) hu bom
  · intro c hc
    exact decide_eq_true fun h0 => hz (h0 ▸ hc)

/-- A printed document is read without an error, compact or not. The nodes are those that were
printed, but for the line breaks and, where it is not compact, for the spaces that end up in a text
in front of an element. -/
theorem parse_print (options : XMLOptions) (compact bom : Bool) {nodes : List XMLNode}
    (h : Printable options true 1 nodes) (hne : nodes ≠ []) :
    options.parseBuffer (options.print compact bom nodes) =
      ⟨none, bom, rereadNodes options compact nodes 1⟩ :=
  (document_print options compact bom h hne).parseBuffer

/-- A declaration, and an element with a text in front of another element. -/
def mixedNodes : List XMLNode :=
  [.declaration (text "xml"), .element (text "a") [⟨text "x", text "\"<"⟩]
    [.text (text "b&\r") false, .element (text "c") [] [], .text (text "<d") true]]

theorem mixedNodes_printable : Printable ⟨.posix, true, false⟩ true 1 mixedNodes := by
  have hname (c : Byte) (h : isNameStartChar c = true) : NameText [c] := ⟨c, [], rfl, h, by simp⟩
  have hcdata : PrintableLeaf (.text (text "<d") true) := .cdata (by decide) (by decide)
  have hchildren : Printable ⟨.posix, true, false⟩ false 2 [.text (text "b&\r") false,
      .element (text "c") [] [], .text (text "<d") true] :=
    .text (by decide) (by decide) (.inl rfl) ⟨chr 'b', by decide, by decide⟩ (by decide) rfl
      (.element (hname (chr 'c') (by decide)) ⟨by simp, by simp, List.nodup_nil⟩ (.inl rfl) .nil
        (.leaf hcdata .nil))
  refine .declaration (by decide) (by decide) (.element (hname (chr 'a') (by decide)) ⟨?_, ?_, ?_⟩
    (.inr (by decide)) hchildren .nil)
  · exact List.forall_mem_singleton.mpr (hname (chr 'x') (by decide))
  · exact List.forall_mem_singleton.mpr ⟨by decide, by decide, .inl rfl⟩
  · exact List.nodup_singleton _

theorem parse_print_mixed : XMLOptions.parseBuffer ⟨.posix, true, false⟩
    (XMLOptions.print ⟨.posix, true, false⟩ false true mixedNodes) = ⟨none, true,
      [.declaration (text "xml"), .element (text "a") [⟨text "x", text "\"<"⟩]
        [.text (text "b&\n    ") false, .element (text "c") [] [], .text (text "<d") true]]⟩ :=
  parse_print ⟨.posix, true, false⟩ false true mixedNodes_printable (List.cons_ne_nil _ _)

mutual

/-- The values in a node: those of its attributes and of all nodes in it. -/
def nodeValues : XMLNode → List (List Byte)
  | .element _ attributes children => attributes.map XMLAttribute.value ++ nodesValues children
  | .text value _ => [value]
  | .comment value => [value]
  | .declaration value => [value]
  | .unknown value => [value]

def nodesValues : List XMLNode → List (List Byte)
  | [] => []
  | node :: nodes => nodeValues node ++ nodesValues nodes

end

theorem rereadAttributes_eq_self_iff (attributes : List XMLAttribute) :
    attributes.map rereadAttribute = attributes ↔
      ∀ v ∈ attributes.map XMLAttribute.value, chr '\r' ∉ v := by
  induction attributes with
  | nil => simp
  | cons attrib attributes ih =>
    have hattrib : rereadAttribute attrib = attrib ↔ chr '\r' ∉ attrib.value := by
      rw [← normalizeNewlines_eq_self_iff]
      cases attrib
      simp [rereadAttribute]
    rw [List.map_cons, List.map_cons, List.cons_eq_cons, hattrib, ih, List.forall_mem_cons]

mutual

theorem rereadNode_eq_self_iff (hc : options.collapseWhitespace = false) (node : XMLNode)
    (depth : Nat) : rereadNode options true node depth [] = node ↔
      ∀ v ∈ nodeValues node, chr '\r' ∉ v := by
  cases node with
  | element name attributes children =>
    have hattributes := rereadAttributes_eq_self_iff attributes
    have hchildren := rereadNodes_eq_self_iff hc children (depth + 1)
    rw [rereadNode, nodeValues, List.forall_mem_append, ← hattributes, ← hchildren]
    simp
  | text value cdata =>
    cases cdata with
    | true => simpa [rereadNode, nodeValues] using normalizeNewlines_eq_self_iff value
    | false =>
      have htext : options.rereadText value = normalizeNewlines value := if_neg (by simp [hc])
      simpa [rereadNode, nodeValues, htext] using normalizeNewlines_eq_self_iff value
  | comment value => simpa [rereadNode, nodeValues] using normalizeNewlines_eq_self_iff value
  | declaration value => simpa [rereadNode, nodeValues] using normalizeNewlines_eq_self_iff value
  | unknown value => simpa [rereadNode, nodeValues] using normalizeNewlines_eq_self_iff value

theorem rereadNodes_eq_self_iff (hc : options.collapseWhitespace = false) (nodes : List XMLNode)
    (depth : Nat) : rereadNodes options true nodes depth = nodes ↔
      ∀ v ∈ nodesValues nodes, chr '\r' ∉ v := by
  cases nodes with
  | nil => simp [rereadNodes, nodesValues]
  | cons node nodes =>
    have hnode := rereadNode_eq_self_iff hc node depth
    have hnodes := rereadNodes_eq_self_iff hc nodes depth
    have hstray : strayIndent true depth nodes = [] := if_neg (by simp)
    rw [rereadNodes, nodesValues, hstray, List.cons_eq_cons, hnode, hnodes,
      List.forall_mem_append]

end

/-- Printed compactly and read with the white space kept, a document is the same exactly where no
value in it has a carriage return. -/
theorem parse_print_same_iff (options : XMLOptions) (bom : Bool) {nodes : List XMLNode}
    (hc : options.collapseWhitespace = false) (h : Printable options true 1 nodes)
    (hne : nodes ≠ []) :
    options.parseBuffer (options.print true bom nodes) = ⟨none, bom, nodes⟩ ↔
      ∀ v ∈ nodesValues nodes, chr '\r' ∉ v := by
  rw [(document_print options true bom h hne).parseBuffer, ← rereadNodes_eq_self_iff hc nodes 1]
  simp

theorem parse_print_same_mixed : XMLOptions.parseBuffer ⟨.posix, true, false⟩
    (XMLOptions.print ⟨.posix, true, false⟩ true false mixedNodes) ≠ ⟨none, false, mixedNodes⟩ := by
  rw [Ne, parse_print_same_iff ⟨.posix, true, false⟩ false rfl mixedNodes_printable
    (List.cons_ne_nil _ _)]
  decide

end XMLGrammar

end CppTry
