import CppTry.XMLParsing

namespace CppTry

namespace XMLGrammar
open Scanning StrPair XMLUtil XMLOptions

variable {options : XMLOptions} {isDocument : Bool} {fuel depth : Nat} {acc : List XMLNode}
  {s t u : List Byte}

theorem length_attributes {attributes : List XMLAttribute} {sealed : Bool}
    (h : Attributes options s attributes sealed t) : t.length < s.length := by
  induction h with
  | opened hs =>
    have hle := hs.length_le
    rw [List.length_cons] at hle
    omega
  | sealed hs =>
    have hle := hs.length_le
    simp only [List.length_cons] at hle
    omega
  | cons hs hattrib _ ih =>
    have hle := hs.length_le
    have hlt := parseAttribute_length (parseAttribute_iff.mpr hattrib)
    omega

theorem length_tag {slash sealed : Bool} {name : List Byte} {attributes : List XMLAttribute}
    (h : Tag options slash sealed s name attributes t) : t.length < s.length := by
  obtain ⟨hs, h₁, hname, hattributes, _⟩ := h
  have h₀ := hs.length_le
  have h₂ := h₁.length_le
  have h₃ := parseName_length (parseName_iff.mpr hname)
  have h₄ := length_attributes hattributes
  rw [List.length_cons] at h₀
  rw [List.length_append] at h₂
  omega

theorem length_upTo {header mark raw : List Byte} (hs : Blank s (header ++ u))
    (h : UpTo mark u raw t) (hm : mark ≠ []) : t.length < s.length := by
  have hle := hs.length_le
  have hlt := h.length_lt hm
  rw [List.length_append] at hle
  omega

theorem length_declaration {node : XMLNode} (h : Declaration options s node t) :
    t.length < s.length := by
  obtain ⟨hs, hraw⟩ := h
  exact length_upTo hs hraw (List.cons_ne_nil _ _)

theorem length_leaf {node : XMLNode} (h : Leaf options s node t) : t.length < s.length := by
  cases h with
  | comment hs hraw => exact length_upTo hs hraw (List.cons_ne_nil _ _)
  | cdata hs hraw => exact length_upTo hs hraw (List.cons_ne_nil _ _)
  | unknown hs hc hcd hraw => exact length_upTo hs hraw (List.cons_ne_nil _ _)
  | @text raw u hraw hne hmem =>
    obtain ⟨c, hc, _⟩ := hmem
    have hpos := List.length_pos_of_mem hc
    rw [hraw.1, List.length_append]
    change (chr '<' :: u).length < raw.length + (chr '<' :: u).length
    omega

section
variable {node : XMLNode} {kind : NodeKind}

theorem parseNodes_blank (h : identify s = none) :
    options.parseNodes isDocument (fuel + 1) depth acc s = ⟨acc, none, none, none⟩ := by
  rw [parseNodes, h]

theorem parseNodes_leaf (hk : kind ≠ .element) (hi : identify s = some (kind, u))
    (h : options.parseLeaf kind u = .ok (node, t)) :
    options.parseNodes isDocument (fuel + 1) depth acc s =
      if node.isDeclaration && !(isDocument && wellLocated acc) then
        ⟨acc, none, none, some .parsingDeclaration⟩
      else options.parseNodes isDocument fuel depth (acc ++ [node]) t := by
  rw [parseNodes, hi]
  cases kind with
  | element => exact absurd rfl hk
  | _ => simp only [h]

theorem parseNodes_leaf_error (hk : kind ≠ .element) (hi : identify s = some (kind, u))
    {error : Option XMLError} (h : options.parseLeaf kind u = .error error) :
    options.parseNodes isDocument (fuel + 1) depth acc s =
      ⟨acc, none, none, some (error.getD .parsing)⟩ := by
  rw [parseNodes, hi]
  cases kind with
  | element => exact absurd rfl hk
  | _ => simp only [h]

end

section
variable {name : List Byte} {attributes : List XMLAttribute}

theorem parseNodes_sealed {slash : Bool} (h : Tag options slash true s name attributes u) :
    options.parseNodes isDocument (fuel + 1) depth acc s =
      options.parseNodes isDocument fuel depth (acc ++ [.element name attributes []]) u := by
  obtain ⟨q, hi, hp⟩ := parsed_of_tag h
  rw [parseNodes, hi]
  simp [parseElement, hp, closingType, ParsedElement.mismatch]

theorem parseNodes_ended (h : Tag options true false s name attributes u) :
    options.parseNodes isDocument (fuel + 1) depth acc s =
      ⟨acc, some u, if isDocument then none else some name, none⟩ := by
  obtain ⟨q, hi, hp⟩ := parsed_of_tag h
  rw [parseNodes, hi]
  simp [parseElement, hp, closingType]

theorem parseNodes_element {level : ParsedChildren} {w endName : List Byte}
    (h : Tag options false false s name attributes u) (hu : u ≠ [])
    (hd : depth + 1 ≠ maxElementDepth) (hl : options.parseNodes false fuel (depth + 1) [] u = level)
    (hw : level.rest = some w) (he : level.endTag = some endName)
    (hn : stringEqual endName name = true) :
    options.parseNodes isDocument (fuel + 1) depth acc s =
      options.parseNodes isDocument fuel depth
        (acc ++ [.element name attributes level.nodes]) w := by
  obtain ⟨q, hi, hp⟩ := parsed_of_tag h
  rw [parseNodes, hi]
  simp [parseElement, hp, closingType, hu, hd, hl, hw, he, hn, ParsedElement.mismatch]

end

/-- What a turn of the loop can do. -/
inductive Stepped (options : XMLOptions) (isDocument : Bool) (fuel depth : Nat)
    (acc : List XMLNode) (s : List Byte) : ParsedChildren → Prop
  | blank : Blank s [] → Stepped options isDocument fuel depth acc s ⟨acc, none, none, none⟩
  | failed (error : XMLError) :
      Stepped options isDocument fuel depth acc s ⟨acc, none, none, some error⟩
  | declaration {node : XMLNode} {u : List Byte} : Declaration options s node u →
      (isDocument && wellLocated acc) = true → node.isDeclaration = true →
      Stepped options isDocument fuel depth acc s
        (options.parseNodes isDocument fuel depth (acc ++ [node]) u)
  | leaf {node : XMLNode} {u : List Byte} : Leaf options s node u → node.isDeclaration = false →
      Stepped options isDocument fuel depth acc s
        (options.parseNodes isDocument fuel depth (acc ++ [node]) u)
  | sealed {slash : Bool} {name u : List Byte} {attributes : List XMLAttribute} :
      Tag options slash true s name attributes u →
      Stepped options isDocument fuel depth acc s
        (options.parseNodes isDocument fuel depth (acc ++ [.element name attributes []]) u)
  | ended {name u : List Byte} {attributes : List XMLAttribute} :
      Tag options true false s name attributes u →
      Stepped options isDocument fuel depth acc s
        ⟨acc, some u, if isDocument then none else some name, none⟩
  | element {name endName u w : List Byte} {attributes : List XMLAttribute} {level : ParsedChildren} :
      Tag options false false s name attributes u → depth + 1 ≠ maxElementDepth →
      options.parseNodes false fuel (depth + 1) [] u = level → level.rest = some w →
      level.endTag = some endName → stringEqual endName name = true →
      Stepped options isDocument fuel depth acc s
        (options.parseNodes isDocument fuel depth
          (acc ++ [.element name attributes level.nodes]) w)

theorem identify_none (h : identify s = none) : Blank s [] := by
  unfold identify at h
  dsimp only at h
  split at h
  next hq => exact blank_of_skip hq
  next => split_ifs at h

theorem identify_blank (h : Blank s []) : identify s = none := by
  unfold identify
  rw [skip_eq h (stops_nil _)]
  rfl

theorem stepped_element {q : List Byte} (hi : identify s = some (.element, q)) :
    Stepped options isDocument fuel depth acc s
      (options.parseNodes isDocument (fuel + 1) depth acc s) := by
  cases hp : options.parseTag q with
  | error error =>
    rw [parseNodes, hi]
    simp only [parseElement, hp]
    exact .failed _
  | ok element =>
    obtain ⟨slash, sealed, htag, htype, hkids, hend⟩ := tag_of_parsed hi hp
    obtain ⟨name, attributes, type, children, endTag, rest⟩ := element
    subst htype hkids hend
    cases sealed with
    | true =>
      rw [parseNodes_sealed htag]
      exact .sealed htag
    | false =>
      cases slash with
      | true =>
        rw [parseNodes_ended htag]
        exact .ended htag
      | false =>
        by_cases hrest : rest = []
        · rw [parseNodes, hi]
          simp only [parseElement, hp, hrest]
          exact .failed _
        · by_cases hd : depth + 1 = maxElementDepth
          · rw [parseNodes, hi]
            simp only [parseElement, hp, hrest, hd]
            exact .failed _
          · cases hl : options.parseNodes false fuel (depth + 1) [] rest with
            | mk nodes w endTag error =>
              cases w with
              | none =>
                rw [parseNodes, hi]
                simp only [parseElement, hp, hrest, hd, hl, closingType]
                exact .failed _
              | some w =>
                cases hmis : ParsedElement.mismatch
                    ⟨name, attributes, .opening, nodes, endTag, w⟩ with
                | true =>
                  rw [parseNodes, hi]
                  simp [parseElement, hp, hrest, hd, hl, closingType, hmis, Stepped.failed]
                | false =>
                  cases endTag with
                  | none => cases hmis
                  | some endName =>
                    have hn : stringEqual endName name = true := by
                      simpa [ParsedElement.mismatch] using hmis
                    rw [parseNodes_element htag hrest hd hl rfl rfl hn]
                    exact .element htag hd hl rfl rfl hn

theorem parseNodes_stepped (options : XMLOptions) (isDocument : Bool) (fuel depth : Nat)
    (acc : List XMLNode) (s : List Byte) : Stepped options isDocument fuel depth acc s
    (options.parseNodes isDocument (fuel + 1) depth acc s) := by
  cases hi : identify s with
  | none =>
    rw [parseNodes_blank hi]
    exact .blank (identify_none hi)
  | some found =>
    obtain ⟨kind, q⟩ := found
    by_cases hk : kind = .element
    · subst hk
      exact stepped_element hi
    · cases hp : options.parseLeaf kind q with
      | error error =>
        rw [parseNodes_leaf_error hk hi hp]
        exact .failed _
      | ok parsed =>
        obtain ⟨node, t⟩ := parsed
        rw [parseNodes_leaf hk hi hp]
        rcases leaf_of_parsed hk hi hp with ⟨hn, hleaf⟩ | ⟨hn, hdecl⟩
        · simp only [hn, Bool.false_and]
          exact .leaf hleaf hn
        · by_cases hw : (isDocument && wellLocated acc) = true
          · simp only [hw, Bool.not_true, Bool.and_false]
            exact .declaration hdecl hw hn
          · simp only [hn, hw, Bool.not_false, Bool.and_true]
            exact .failed _

theorem length_nodes {allowed : Bool} {nodes : List XMLNode}
    (h : Nodes options allowed depth s nodes t) : t.length ≤ s.length := by
  induction h with
  | nil => exact le_refl _
  | declaration hnode _ ih => exact ih.trans (length_declaration hnode).le
  | leaf hnode _ ih => exact ih.trans (length_leaf hnode).le
  | sealed htag _ ih => exact ih.trans (length_tag htag).le
  | element htag _ _ hend _ _ ihc ih =>
    exact ih.trans ((length_tag hend).le.trans (ihc.trans (length_tag htag).le))

theorem wellLocated_append (node : XMLNode) (h : wellLocated acc = true) :
    wellLocated (acc ++ [node]) = node.isDeclaration := by
  unfold wellLocated
  rw [List.getLast?_concat]
  cases acc with
  | nil => exact Bool.and_self _
  | cons first acc =>
    rw [wellLocated, List.getLast?_eq_some_getLast (List.cons_ne_nil _ _)] at h
    obtain ⟨hf, _⟩ := (Bool.and_eq_true _ _).mp h
    exact (congrArg (· && node.isDeclaration) hf).trans (Bool.true_and _)

theorem wellLocated_other {node : XMLNode} (hn : node.isDeclaration = false) :
    wellLocated (acc ++ [node]) = false := by
  unfold wellLocated
  rw [List.getLast?_concat]
  cases acc with
  | nil => exact (Bool.and_self _).trans hn
  | cons first acc => exact (congrArg (first.isDeclaration && ·) hn).trans (Bool.and_false _)

/-- What the loop has read, where it returns a pointer or no error is set. -/
theorem parseNodes_grammar (hlt : s.length < fuel) (hdepth : depth < maxElementDepth) {level : ParsedChildren}
    (h : options.parseNodes isDocument fuel depth acc s = level)
    (hl : level.rest ≠ none ∨ level.error = none) :
    ∃ nodes t, level.nodes = acc ++ nodes ∧
      Nodes options (isDocument && wellLocated acc) depth s nodes t ∧
      ((level.rest = none ∧ Blank t []) ∨
        ∃ name ignored w, Tag options true false t name ignored w ∧ level.rest = some w ∧
          level.endTag = if isDocument then none else some name) := by
  induction fuel generalizing isDocument depth acc s level with
  | zero => omega
  | succ fuel ih =>
    have hstep := parseNodes_stepped options isDocument fuel depth acc s
    rw [h] at hstep
    cases hstep with
    | blank hs => exact ⟨[], s, by simp, .nil, Or.inl ⟨rfl, hs⟩⟩
    | failed error => simp at hl
    | @declaration node u hnode hw hn =>
      have hu := length_declaration hnode
      obtain ⟨nodes, t, hnodes, hgrammar, hend⟩ := ih (by omega) hdepth rfl hl
      rw [Bool.and_eq_true] at hw
      rw [wellLocated_append node hw.2, hn, hw.1] at hgrammar
      refine ⟨node :: nodes, t, by rw [hnodes]; simp, ?_, hend⟩
      rw [hw.1, hw.2]
      exact .declaration hnode hgrammar
    | @leaf node u hnode hn =>
      have hu := length_leaf hnode
      obtain ⟨nodes, t, hnodes, hgrammar, hend⟩ := ih (by omega) hdepth rfl hl
      rw [wellLocated_other hn, Bool.and_false] at hgrammar
      exact ⟨node :: nodes, t, by rw [hnodes]; simp, .leaf hnode hgrammar, hend⟩
    | @sealed slash name u attributes htag =>
      have hu := length_tag htag
      obtain ⟨nodes, t, hnodes, hgrammar, hend⟩ := ih (by omega) hdepth rfl hl
      rw [wellLocated_other rfl, Bool.and_false] at hgrammar
      exact ⟨_ :: nodes, t, by rw [hnodes]; simp, .sealed htag hgrammar, hend⟩
    | @ended name u attributes htag =>
      exact ⟨[], s, by simp, .nil, Or.inr ⟨name, attributes, u, htag, rfl, rfl⟩⟩
    | @element name endName u w attributes level' htag hd hlevel hw he hn =>
      have hu := length_tag htag
      have hd' : depth + 1 < maxElementDepth := by omega
      obtain ⟨children, v, hchildren, hinner, hclose⟩ :=
        ih (by omega) hd' hlevel (Or.inl (by simp [hw]))
      rw [Bool.false_and] at hinner
      rcases hclose with ⟨hnone, _⟩ | ⟨name', ignored, w', hend, hw', he'⟩
      · rw [hnone] at hw
        cases hw
      · cases hw.symm.trans hw'
        cases he.symm.trans he'
        have hv := length_nodes hinner
        have hwlt := length_tag hend
        obtain ⟨nodes, t, hnodes, hgrammar, hfinal⟩ := ih (by omega) hdepth rfl hl
        rw [wellLocated_other rfl, Bool.and_false] at hgrammar
        rw [List.nil_append] at hchildren
        refine ⟨.element name attributes level'.nodes :: nodes, t, by rw [hnodes]; simp, ?_, hfinal⟩
        exact .element htag hd' (hchildren ▸ hinner) hend hn hgrammar

/-- The loop reads what the grammar has, and goes on behind it. -/
theorem parseNodes_nodes {allowed : Bool} {nodes : List XMLNode}
    (h : Nodes options allowed depth s nodes t) (isDocument : Bool) (fuel : Nat)
    (acc : List XMLNode) (hlt : s.length < fuel)
    (hallowed : allowed = true → isDocument = true ∧ wellLocated acc = true) :
    ∃ fuel', t.length < fuel' ∧ options.parseNodes isDocument fuel depth acc s =
      options.parseNodes isDocument fuel' depth (acc ++ nodes) t := by
  induction h generalizing isDocument fuel acc with
  | nil => exact ⟨fuel, hlt, by simp⟩
  | @declaration depth s u t node nodes hnode hnodes ih =>
    obtain ⟨fuel, rfl⟩ := Nat.exists_eq_succ_of_ne_zero (Nat.ne_of_gt (Nat.zero_lt_of_lt hlt))
    obtain ⟨hdoc, hw⟩ := hallowed rfl
    obtain ⟨hn, q, hi, hp⟩ := parsed_of_declaration hnode
    have hu := length_declaration hnode
    obtain ⟨fuel', hlt', he⟩ := ih isDocument fuel (acc ++ [node]) (by omega)
      fun _ => ⟨hdoc, (wellLocated_append node hw).trans hn⟩
    refine ⟨fuel', hlt', ?_⟩
    rw [parseNodes_leaf (by simp) hi hp, if_neg (by simp [hdoc, hw]), he]
    simp
  | @leaf allowed depth s u t node nodes hnode hnodes ih =>
    obtain ⟨fuel, rfl⟩ := Nat.exists_eq_succ_of_ne_zero (Nat.ne_of_gt (Nat.zero_lt_of_lt hlt))
    obtain ⟨hn, kind, q, hk, hi, hp⟩ := parsed_of_leaf hnode
    have hu := length_leaf hnode
    obtain ⟨fuel', hlt', he⟩ := ih isDocument fuel (acc ++ [node]) (by omega) (by simp)
    refine ⟨fuel', hlt', ?_⟩
    rw [parseNodes_leaf hk hi hp, if_neg (by simp [hn]), he]
    simp
  | @sealed allowed slash depth s u t name attributes nodes htag hnodes ih =>
    obtain ⟨fuel, rfl⟩ := Nat.exists_eq_succ_of_ne_zero (Nat.ne_of_gt (Nat.zero_lt_of_lt hlt))
    have hu := length_tag htag
    obtain ⟨fuel', hlt', he⟩ :=
      ih isDocument fuel (acc ++ [.element name attributes []]) (by omega) (by simp)
    refine ⟨fuel', hlt', ?_⟩
    rw [parseNodes_sealed htag, he]
    simp
  | @element allowed depth s u v w t name endName attributes ignored children nodes htag hd hchildren
      hend hn hnodes ihc ih =>
    obtain ⟨fuel, rfl⟩ := Nat.exists_eq_succ_of_ne_zero (Nat.ne_of_gt (Nat.zero_lt_of_lt hlt))
    have hu := length_tag htag
    have hv := length_nodes hchildren
    have hw := length_tag hend
    -- the children take the loop to the end tag, which ends it
    obtain ⟨fuelc, hltc, hec⟩ := ihc false fuel [] (by omega) (by simp)
    obtain ⟨fuelc, rfl⟩ := Nat.exists_eq_succ_of_ne_zero (Nat.ne_of_gt (Nat.zero_lt_of_lt hltc))
    rw [parseNodes_ended hend] at hec
    have hne : u ≠ [] := by
      rintro rfl
      rw [List.length_nil] at hv
      omega
    obtain ⟨fuel', hlt', he⟩ :=
      ih isDocument fuel (acc ++ [.element name attributes children]) (by omega) (by simp)
    refine ⟨fuel', hlt', ?_⟩
    rw [parseNodes_element htag hne (by omega) hec rfl rfl hn, List.nil_append, he]
    simp

theorem document_of_parseBuffer {buffer : List Byte} {bom : Bool} {nodes : List XMLNode}
    (h : options.parseBuffer buffer = ⟨none, bom, nodes⟩) :
    Document options (buffer.takeWhile (· ≠ 0)) bom nodes := by
  unfold parseBuffer at h
  generalize buffer.takeWhile (· ≠ 0) = input at h ⊢
  cases hb : readBOM (skipWhiteSpace input) with
  | mk writeBOM u =>
    rw [hb] at h
    dsimp only at h
    split at h
    next => cases h
    next hu =>
      obtain ⟨he, rfl, hnodes⟩ := (XMLDocument.mk.injEq ..).mp h
      have hdepth : 1 < maxElementDepth := by decide
      obtain ⟨read, t, hread, hgrammar, hend⟩ :=
        parseNodes_grammar (Nat.lt_succ_self u.length) hdepth rfl (Or.inr he)
      rw [List.nil_append, hnodes] at hread
      subst hread
      refine ⟨_, u, t, skip_blank input, stops_dropWhile _ _, hb, hu, hgrammar, ?_⟩
      rcases hend with ⟨_, hblank⟩ | ⟨name, ignored, v, htag, _⟩
      · exact Or.inl hblank
      · exact Or.inr ⟨name, ignored, v, htag⟩

theorem Document.parseBuffer {buffer : List Byte} {bom : Bool} {nodes : List XMLNode}
    (h : Document options (buffer.takeWhile (· ≠ 0)) bom nodes) :
    options.parseBuffer buffer = ⟨none, bom, nodes⟩ := by
  obtain ⟨s, u, t, hs, hstops, hb, hu, hnodes, hend⟩ := h
  rw [XMLOptions.parseBuffer, skip_eq hs hstops, hb]
  dsimp only
  rw [if_neg hu]
  obtain ⟨fuel', hlt, he⟩ := parseNodes_nodes hnodes true (u.length + 1) []
    (Nat.lt_succ_self _) fun _ => ⟨rfl, rfl⟩
  obtain ⟨fuel', rfl⟩ := Nat.exists_eq_succ_of_ne_zero (Nat.ne_of_gt (Nat.zero_lt_of_lt hlt))
  rw [he]
  rcases hend with hblank | ⟨name, ignored, v, htag⟩
  · rw [parseNodes_blank (identify_blank hblank), List.nil_append]
  · rw [parseNodes_ended htag, List.nil_append]

/-- A buffer is read without an error exactly where it holds a document of the grammar, and then it
is read as that document. -/
theorem parseBuffer_iff (options : XMLOptions) (buffer : List Byte) (bom : Bool)
    (nodes : List XMLNode) :
    options.parseBuffer buffer = ⟨none, bom, nodes⟩ ↔
      Document options (buffer.takeWhile (· ≠ 0)) bom nodes :=
  ⟨document_of_parseBuffer, Document.parseBuffer⟩

end XMLGrammar

end CppTry
