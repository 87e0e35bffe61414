import CppTry.XMLGrammar

namespace CppTry

namespace XMLGrammar
open Scanning StrPair XMLUtil

variable {options : XMLOptions} {s t u : List Byte}

theorem skip_blank (s : List Byte) : Blank s (skipWhiteSpace s) := skips_dropWhile _ _

theorem skip_eq (h : Blank s t) (hs : Stops isWhiteSpace t) : skipWhiteSpace s = t :=
  h.dropWhile_eq hs

theorem skip_cons {c : Byte} (hc : isWhiteSpace c = false) (h : Blank s (c :: t)) :
    skipWhiteSpace s = c :: t := skip_eq h (stops_cons hc t)

theorem blank_of_skip (h : skipWhiteSpace s = t) : Blank s t := h ▸ skip_blank s

theorem parseText_upTo {mark raw : List Byte} (h : parseText mark s = some (raw, t))
    (hm : mark ≠ []) : UpTo mark s raw t := by
  induction s generalizing raw with
  | nil => cases h
  | cons c p ih =>
    rw [parseText] at h
    split at h
    next hp =>
      cases h
      have he := List.prefix_iff_eq_append.mp (List.isPrefixOf_iff_prefix.mp hp)
      exact ⟨he.symm, fun hi => hm (List.infix_nil.mp hi)⟩
    next hp =>
      obtain ⟨⟨raw', t'⟩, hr, he⟩ := Option.map_eq_some_iff.mp h
      cases he
      obtain ⟨hs, hn⟩ := ih hr
      refine ⟨by rw [hs]; rfl, ?_⟩
      intro hi
      rcases List.infix_cons_iff.mp hi with hi | hi
      · apply hp
        rw [List.isPrefixOf_iff_prefix, hs]
        exact hi.trans ⟨mark ++ t, by simp⟩
      · exact hn hi

theorem parseText_eq {mark raw : List Byte} (hm : Terminal mark) (h : UpTo mark s raw t) :
    parseText mark s = some (raw, t) := by
  obtain ⟨rfl, hn⟩ := h
  induction raw with
  | nil =>
    cases hmark : mark ++ t with
    | nil => exact absurd (List.append_eq_nil_iff.mp hmark).1 hm.ne_nil
    | cons c p =>
      rw [List.nil_append, parseText, ← hmark, if_pos, List.drop_left]
      exact List.isPrefixOf_iff_prefix.mpr (List.prefix_append _ _)
  | cons c raw ih =>
    have hp : ¬ mark <+: c :: (raw ++ (mark ++ t)) := by
      intro hp
      exact hn (hm.prefix_of_prefix hp).isInfix
    rw [List.cons_append, parseText, if_neg (mt List.isPrefixOf_iff_prefix.mp hp),
      ih fun hi => hn (List.infix_cons hi)]
    rfl

theorem parseName_iff {name : List Byte} : parseName s = some (name, t) ↔ Name s name t := by
  constructor
  · intro h
    cases s with
    | nil => cases h
    | cons c p =>
      rw [parseName] at h
      split at h
      next hc =>
        cases h
        refine ⟨⟨c, _, rfl, hc, fun d hd => List.mem_takeWhile_imp hd⟩, ?_, stops_dropWhile _ _⟩
        rw [List.cons_append, List.takeWhile_append_dropWhile]
      next => cases h
  · rintro ⟨⟨c, cs, rfl, hc, hcs⟩, rfl, ht⟩
    obtain ⟨htake, hdrop⟩ := Skips.takeWhile_eq hcs ht
    rw [List.cons_append, parseName, if_pos hc, htake, hdrop]

theorem Name.head (h : Name s u t) : ∃ c cs, s = c :: cs ∧ isNameStartChar c = true := by
  obtain ⟨⟨c, cs, rfl, hc, _⟩, rfl, _⟩ := h
  exact ⟨c, cs ++ t, rfl, hc⟩

theorem not_white_of_name {c : Byte} (h : isNameStartChar c = true) :
    isWhiteSpace c = false ∧ c ≠ chr '/' ∧ c ≠ chr '>' := by
  have hall := forall_byte (p := fun c => !isNameStartChar c || !isWhiteSpace c && c != chr '/' &&
    c != chr '>') (by decide +kernel) c
  simpa [h, and_assoc] using hall

theorem Name.stops (h : Name s u t) : Stops isWhiteSpace s := by
  obtain ⟨c, cs, rfl, hc⟩ := h.head
  exact stops_cons (not_white_of_name hc).1 cs

theorem parseAttribute_iff {attrib : XMLAttribute} :
    options.parseAttribute s = some (attrib, t) ↔ Attribute options s attrib t := by
  constructor
  · intro h
    obtain ⟨⟨name, s₁⟩, hname, h⟩ := Option.bind_eq_some_iff.mp h
    dsimp only at h
    split at h
    next => cases h
    next equals s₂ h₂ =>
      split at h
      next => cases h
      next he =>
        split at h
        next => cases h
        next quote s₃ h₃ =>
          split at h
          next => cases h
          next hq =>
            obtain ⟨⟨raw, t'⟩, hraw, h⟩ := Option.bind_eq_some_iff.mp h
            cases h
            rw [not_not.mp he] at h₂
            have hquote : quote = chr '"' ∨ quote = chr '\'' := by
              by_contra hcon
              exact hq (not_or.mp hcon)
            exact .intro (parseName_iff.mp hname) (blank_of_skip h₂) (blank_of_skip h₃) hquote
              (parseText_upTo hraw (by simp))
  · rintro ⟨hname, h₁, h₂, hquote, hraw⟩
    have hwhite : isWhiteSpace (chr '=') = false := by decide
    have hn := parseName_iff.mpr hname
    have hr := parseText_eq (terminal_singleton _) hraw
    rcases hquote with rfl | rfl
    all_goals
      have h₃ := skip_cons (by decide) h₂
      simp [XMLOptions.parseAttribute, hn, skip_cons hwhite h₁, h₃, hr]

theorem Attribute.head {attrib : XMLAttribute} (h : Attribute options s attrib t) :
    ∃ c cs, s = c :: cs ∧ isNameStartChar c = true := by
  obtain ⟨hname⟩ := h
  exact hname.head

theorem any_name_iff {attributes : List XMLAttribute} {attrib : XMLAttribute} :
    attributes.any (stringEqual ·.name attrib.name) = true ↔
      attrib.name.take intMax ∈ attributes.map fun a => a.name.take intMax := by
  rw [List.any_eq_true, List.mem_map]
  simp only [stringEqual, beq_iff_eq]

theorem Distinct.append_singleton {attributes : List XMLAttribute} {attrib : XMLAttribute}
    (h : Distinct attributes)
    (hn : attrib.name.take intMax ∉ attributes.map fun a => a.name.take intMax) :
    Distinct (attributes ++ [attrib]) := by
  rw [Distinct, List.map_append, List.nodup_append]
  refine ⟨h, by simp, ?_⟩
  intro a ha b hb hab
  rw [List.map_singleton, List.mem_singleton] at hb
  rw [hab, hb] at ha
  exact hn ha

theorem parseAttributes_grammar {acc attributes : List XMLAttribute} {sealed : Bool}
    (h : options.parseAttributes acc s = .ok (attributes, sealed, t))
    (hacc : Distinct acc) :
    ∃ more, attributes = acc ++ more ∧ Attributes options s more sealed t ∧ Distinct attributes := by
  fun_induction XMLOptions.parseAttributes options acc s with
  | case1 => cases h
  | case2 => cases h
  | case3 => cases h
  | case4 acc p c q hp hc attrib rest hq hany ih =>
    have hfresh := mt any_name_iff.mpr hany
    obtain ⟨more, rfl, hmore, hnodup⟩ := ih h (hacc.append_singleton hfresh)
    refine ⟨attrib :: more, by simp, ?_, hnodup⟩
    exact .cons (blank_of_skip hp) (parseAttribute_iff.mp hq) hmore
  | case5 acc p q hp hc =>
    cases h
    exact ⟨[], by simp, .opened (blank_of_skip hp), hacc⟩
  | case6 acc p c q hp hc hne hq =>
    cases h
    obtain ⟨rfl, hhead⟩ := hq
    obtain ⟨rest, rfl⟩ := List.head?_eq_some_iff.mp hhead
    exact ⟨[], by simp, .sealed (blank_of_skip hp), hacc⟩
  | case7 => cases h

theorem parseAttributes_eq {acc attributes : List XMLAttribute} {sealed : Bool}
    (h : Attributes options s attributes sealed t)
    (hacc : Distinct (acc ++ attributes)) :
    options.parseAttributes acc s = .ok (acc ++ attributes, sealed, t) := by
  induction h generalizing acc with
  | @opened s t hs =>
    have hskip := skip_cons (by decide) hs
    rw [XMLOptions.parseAttributes]
    split
    next he => simp [hskip] at he
    next c q he =>
      cases hskip.symm.trans he
      rw [if_neg (by decide), if_pos rfl, List.append_nil]
  | @sealed s t hs =>
    have hskip := skip_cons (by decide) hs
    rw [XMLOptions.parseAttributes]
    split
    next he => simp [hskip] at he
    next c q he =>
      cases hskip.symm.trans he
      rw [if_neg (by decide), if_neg (by decide), if_pos ⟨rfl, rfl⟩, List.append_nil]
      rfl
  | @cons s u v t attrib attributes sealed hs hattrib hmore ih =>
    obtain ⟨c, cs, rfl, hc⟩ := hattrib.head
    have hparse := parseAttribute_iff.mpr hattrib
    have hskip := skip_cons (not_white_of_name hc).1 hs
    rw [XMLOptions.parseAttributes]
    split
    next he => simp [hskip] at he
    next d q he =>
      cases hskip.symm.trans he
      rw [if_pos hc]
      split
      next hq => cases hparse.symm.trans hq
      next attrib' rest hq =>
        cases hparse.symm.trans hq
        have hfresh : attrib.name.take intMax ∉ acc.map fun a => a.name.take intMax := by
          rw [Distinct, List.map_append, List.nodup_append] at hacc
          intro hmem
          exact hacc.2.2 _ hmem _ (by simp) rfl
        rw [if_neg (mt any_name_iff.mp hfresh), ih (by simpa using hacc)]
        simp

/-- What `Identify` has seen. -/
inductive Identified : List Byte → NodeKind → List Byte → Prop
  | declaration {s u : List Byte} : Blank s (text "<?" ++ u) → Identified s .declaration u
  | comment {s u : List Byte} : Blank s (text "<!--" ++ u) → Identified s .comment u
  | cdata {s u : List Byte} : Blank s (text "<![CDATA[" ++ u) → Identified s .cdata u
  | unknown {s u : List Byte} : Blank s (text "<!" ++ u) → ¬ text "--" <+: u →
      ¬ text "[CDATA[" <+: u → Identified s .unknown u
  | element {s u : List Byte} : Blank s (text "<" ++ u) → ¬ text "?" <+: u → ¬ text "!" <+: u →
      Identified s .element u
  | text {s u : List Byte} {c : Byte} : Blank s (c :: u) → isWhiteSpace c = false →
      c ≠ chr '<' → Identified s .text s

theorem prefix_drop {header q : List Byte} (h : header.isPrefixOf q = true) :
    header ++ q.drop header.length = q :=
  List.prefix_iff_eq_append.mp (List.isPrefixOf_iff_prefix.mp h)

theorem isPrefixOf_append (front : List Byte) {back u : List Byte} :
    (front ++ back).isPrefixOf (front ++ u) = true ↔ back <+: u := by
  rw [List.isPrefixOf_iff_prefix, List.prefix_append_right_inj]

theorem identify_identified {kind : NodeKind} (h : XMLOptions.identify s = some (kind, u)) :
    Identified s kind u := by
  unfold XMLOptions.identify at h
  have hblank := skip_blank s
  have hstops : Stops isWhiteSpace (skipWhiteSpace s) := stops_dropWhile isWhiteSpace s
  generalize skipWhiteSpace s = q at *
  dsimp only at h
  split at h
  next => cases h
  next hne =>
    split at h
    next hd =>
      cases h
      exact .declaration (prefix_drop hd ▸ hblank)
    next hd =>
      split at h
      next hc =>
        cases h
        exact .comment (prefix_drop hc ▸ hblank)
      next hc =>
        split at h
        next hcd =>
          cases h
          exact .cdata (prefix_drop hcd ▸ hblank)
        next hcd =>
          split at h
          next hu =>
            cases h
            rw [← prefix_drop hu] at hblank hc hcd
            exact .unknown hblank (mt (isPrefixOf_append (text "<!")).mpr hc)
              (mt (isPrefixOf_append (text "<!")).mpr hcd)
          next hu =>
            split at h
            next he =>
              cases h
              rw [← prefix_drop he] at hblank hd hu
              exact .element hblank (mt (isPrefixOf_append (text "<")).mpr hd)
                (mt (isPrefixOf_append (text "<")).mpr hu)
            next he =>
              cases h
              cases q with
              | nil => exact absurd rfl hne
              | cons c q =>
                refine .text hblank (hstops c rfl) ?_
                rintro rfl
                exact he rfl

theorem skip_header {header : List Byte} (h : Blank s (header ++ u))
    (hh : header.head? = some (chr '<')) : skipWhiteSpace s = header ++ u := by
  obtain ⟨rest, rfl⟩ := List.head?_eq_some_iff.mp hh
  exact skip_cons (by decide) h

theorem identify_eq {kind : NodeKind} (h : Identified s kind u) :
    XMLOptions.identify s = some (kind, u) := by
  unfold XMLOptions.identify
  cases h with
  | declaration hs =>
    rw [skip_header hs rfl]
    rfl
  | comment hs =>
    rw [skip_header hs rfl]
    rfl
  | cdata hs =>
    rw [skip_header hs rfl]
    rfl
  | unknown hs hc hcd =>
    have hne : text "<!" ++ u ≠ [] := List.cons_ne_nil _ _
    have hd : ¬ (text "<?").isPrefixOf (text "<!" ++ u) = true := Bool.false_ne_true
    have hc' : ¬ (text "<!--").isPrefixOf (text "<!" ++ u) = true :=
      mt (isPrefixOf_append (text "<!")).mp hc
    have hcd' : ¬ (text "<![CDATA[").isPrefixOf (text "<!" ++ u) = true :=
      mt (isPrefixOf_append (text "<!")).mp hcd
    rw [skip_header hs rfl]
    dsimp only
    rw [if_neg hne, if_neg hd, if_neg hc', if_neg hcd']
    rfl
  | element hs hd hu =>
    have hne : text "<" ++ u ≠ [] := List.cons_ne_nil _ _
    have hd' : ¬ (text "<?").isPrefixOf (text "<" ++ u) = true :=
      mt (isPrefixOf_append (text "<")).mp hd
    have hu' (rest : List Byte) :
        ¬ (text "<" ++ (text "!" ++ rest)).isPrefixOf (text "<" ++ u) = true := by
      intro h
      exact hu ((List.prefix_append _ _).trans ((isPrefixOf_append (text "<")).mp h))
    have hc : ¬ (text "<!--").isPrefixOf (text "<" ++ u) = true := hu' (text "--")
    have hcd : ¬ (text "<![CDATA[").isPrefixOf (text "<" ++ u) = true := hu' (text "[CDATA[")
    have hu'' : ¬ (text "<!").isPrefixOf (text "<" ++ u) = true := hu' []
    rw [skip_header hs rfl]
    dsimp only
    rw [if_neg hne, if_neg hd', if_neg hc, if_neg hcd, if_neg hu'']
    rfl
  | @text q c hs hc hne =>
    have hn (rest : List Byte) : ¬ (chr '<' :: rest).isPrefixOf (c :: q) = true := by
      intro h
      obtain ⟨he, _⟩ := List.cons_prefix_cons.mp (List.isPrefixOf_iff_prefix.mp h)
      exact hne he.symm
    have hd : ¬ (text "<?").isPrefixOf (c :: q) = true := hn _
    have hc' : ¬ (text "<!--").isPrefixOf (c :: q) = true := hn _
    have hcd : ¬ (text "<![CDATA[").isPrefixOf (c :: q) = true := hn _
    have hu : ¬ (text "<!").isPrefixOf (c :: q) = true := hn _
    have he : ¬ (text "<").isPrefixOf (c :: q) = true := hn _
    rw [skip_cons hc hs]
    dsimp only
    rw [if_neg (List.cons_ne_nil _ _), if_neg hd, if_neg hc', if_neg hcd, if_neg hu, if_neg he]

theorem terminal_comment : Terminal (text "-->") := ⟨text "--", chr '>', rfl, by decide⟩

theorem terminal_cdata : Terminal (text "]]>") := ⟨text "]]", chr '>', rfl, by decide⟩

theorem terminal_declaration : Terminal (text "?>") := ⟨text "?", chr '>', rfl, by decide⟩

theorem terminal_unknown : Terminal (text ">") := terminal_singleton _

theorem terminal_element : Terminal (text "<") := terminal_singleton _

theorem not_mem_of_not_infix {c : Byte} {raw : List Byte} (h : ¬ [c] <:+: raw) : c ∉ raw := by
  intro hc
  obtain ⟨front, back, rfl⟩ := List.append_of_mem hc
  exact h ⟨front, back, by simp⟩

/-- A node that is no element is read in one go. -/
theorem parsed_of_leaf {node : XMLNode} (h : Leaf options s node t) :
    node.isDeclaration = false ∧ ∃ kind q, kind ≠ .element ∧
      XMLOptions.identify s = some (kind, q) ∧ options.parseLeaf kind q = .ok (node, t) := by
  cases h with
  | comment hs hraw =>
    refine ⟨rfl, .comment, _, by simp, identify_eq (.comment hs), ?_⟩
    simp only [XMLOptions.parseLeaf, parseText_eq terminal_comment hraw]
  | cdata hs hraw =>
    refine ⟨rfl, .cdata, _, by simp, identify_eq (.cdata hs), ?_⟩
    simp only [XMLOptions.parseLeaf, parseText_eq terminal_cdata hraw]
  | unknown hs hc hcd hraw =>
    refine ⟨rfl, .unknown, _, by simp, identify_eq (.unknown hs hc hcd), ?_⟩
    simp only [XMLOptions.parseLeaf, parseText_eq terminal_unknown hraw]
  | @text raw u hraw hne hmem =>
    obtain ⟨c, q, hc, hwhite, hskip⟩ := dropWhile_append_of_mem hmem (text "<" ++ u)
    have hne' : c ≠ chr '<' := by
      rintro rfl
      exact not_mem_of_not_infix hraw.2 hc
    rw [← hraw.1] at hskip
    refine ⟨rfl, .text, s, by simp, identify_eq (.text (blank_of_skip hskip) hwhite hne'), ?_⟩
    simp only [XMLOptions.parseLeaf, parseText_eq terminal_element hraw, if_neg hne]

theorem parsed_of_declaration {node : XMLNode} (h : Declaration options s node t) :
    node.isDeclaration = true ∧ ∃ q, XMLOptions.identify s = some (.declaration, q) ∧
      options.parseLeaf .declaration q = .ok (node, t) := by
  obtain ⟨hs, hraw⟩ := h
  refine ⟨rfl, _, identify_eq (.declaration hs), ?_⟩
  simp only [XMLOptions.parseLeaf, parseText_eq terminal_declaration hraw]

/-- What is read in one go is a node of the grammar. -/
theorem leaf_of_parsed {kind : NodeKind} {node : XMLNode} (hk : kind ≠ .element)
    (hi : XMLOptions.identify s = some (kind, u)) (h : options.parseLeaf kind u = .ok (node, t)) :
    (node.isDeclaration = false ∧ Leaf options s node t) ∨
      (node.isDeclaration = true ∧ Declaration options s node t) := by
  cases identify_identified hi with
  | declaration hs =>
    simp only [XMLOptions.parseLeaf] at h
    split at h
    next => cases h
    next raw rest hraw =>
      cases h
      exact Or.inr ⟨rfl, .intro hs (parseText_upTo hraw (List.cons_ne_nil _ _))⟩
  | comment hs =>
    simp only [XMLOptions.parseLeaf] at h
    split at h
    next => cases h
    next raw rest hraw =>
      cases h
      exact Or.inl ⟨rfl, .comment hs (parseText_upTo hraw (List.cons_ne_nil _ _))⟩
  | cdata hs =>
    simp only [XMLOptions.parseLeaf] at h
    split at h
    next => cases h
    next raw rest hraw =>
      cases h
      exact Or.inl ⟨rfl, .cdata hs (parseText_upTo hraw (List.cons_ne_nil _ _))⟩
  | unknown hs hc hcd =>
    simp only [XMLOptions.parseLeaf] at h
    split at h
    next => cases h
    next raw rest hraw =>
      cases h
      exact Or.inl ⟨rfl, .unknown hs hc hcd (parseText_upTo hraw (List.cons_ne_nil _ _))⟩
  | element => exact absurd rfl hk
  | @text q c hs hc hne =>
    simp only [XMLOptions.parseLeaf] at h
    split at h
    next => cases h
    next raw rest hraw =>
      split at h
      next => cases h
      next hrest =>
        cases h
        have hup := parseText_upTo hraw (List.cons_ne_nil _ _)
        refine Or.inl ⟨rfl, .text hup hrest ?_⟩
        by_contra hall
        have hwhite : ∀ d ∈ raw, isWhiteSpace d = true := by
          intro d hd
          by_contra hf
          exact hall ⟨d, hd, by simpa using hf⟩
        have hskip : skipWhiteSpace s = chr '<' :: rest := by
          rw [hup.1]
          exact skip_cons (by decide) ⟨raw, hwhite, rfl⟩
        cases (skip_cons hc hs).symm.trans hskip
        exact hne rfl

/-- What a name or a slash and a name begin with. -/
theorem Name.tag_head {name : List Byte} (slash : Bool) (h : Name s name t) :
    ∃ c cs, (if slash then [chr '/'] else []) ++ s = c :: cs ∧ isWhiteSpace c = false ∧
      c ≠ chr '?' ∧ c ≠ chr '!' ∧ (c = chr '/' ↔ slash = true) := by
  cases slash with
  | true => exact ⟨chr '/', s, rfl, by decide⟩
  | false =>
    obtain ⟨c, cs, rfl, hc⟩ := h.head
    have hall := forall_byte (p := fun c => !isNameStartChar c || !isWhiteSpace c && c != chr '?' &&
      c != chr '!' && c != chr '/') (by decide +kernel) c
    exact ⟨c, cs, rfl, by simpa [hc, and_assoc] using hall⟩

theorem parsed_of_tag {slash sealed : Bool} {name : List Byte} {attributes : List XMLAttribute}
    (h : Tag options slash sealed s name attributes t) :
    ∃ q, XMLOptions.identify s = some (.element, q) ∧
      options.parseTag q = .ok ⟨name, attributes, closingType slash sealed, [], none, t⟩ := by
  obtain ⟨hs, h₁, hname, hattributes, hnodup⟩ := h
  rename_i s₁ s₂ s₃
  obtain ⟨c, cs, hx, hwhite, hq, hb, hslash⟩ := hname.tag_head slash
  rw [hx] at h₁
  have hskip := skip_cons hwhite h₁
  have hno {d : Byte} (hd : isWhiteSpace d = false) (hne : c ≠ d) : ¬ [d] <+: s₁ := by
    rintro ⟨rest, rfl⟩
    cases (skip_cons hd (Skips.refl _ _)).symm.trans hskip
    exact hne rfl
  refine ⟨s₁, identify_eq (.element hs (hno (by decide) hq) (hno (by decide) hb)), ?_⟩
  have hn := parseName_iff.mpr hname
  have ha : options.parseAttributes [] s₃ = .ok (attributes, sealed, t) :=
    parseAttributes_eq hattributes hnodup
  have hbit : ((c :: cs).head? == some (chr '/')) = slash := by
    rw [Bool.eq_iff_iff, ← hslash]
    simp
  have hrest : (if slash then (c :: cs).tail else c :: cs) = s₂ := by
    rw [← hx]
    cases slash <;> rfl
  simp only [XMLOptions.parseTag, hskip, hbit, hrest, hn, ha]

theorem tag_of_parsed {q : List Byte} {element : ParsedElement}
    (hi : XMLOptions.identify s = some (.element, q)) (h : options.parseTag q = .ok element) :
    ∃ slash sealed, Tag options slash sealed s element.name element.attributes element.rest ∧
      element.closingType = closingType slash sealed ∧ element.children = [] ∧
      element.endTag = none := by
  have hs : Blank s (chr '<' :: q) := by
    cases identify_identified hi with
    | element hs hd hu => exact hs
  simp only [XMLOptions.parseTag] at h
  split at h
  next => cases h
  next name s₃ hname =>
    split at h
    next => cases h
    next attributes sealed rest hattributes =>
      cases h
      obtain ⟨more, rfl, hmore, hnodup⟩ := parseAttributes_grammar hattributes List.nodup_nil
      refine ⟨_, sealed, .intro hs ?_ (parseName_iff.mp hname) hmore hnodup, rfl, rfl, rfl⟩
      have hblank := skip_blank q
      cases hq : skipWhiteSpace q with
      | nil =>
        rw [hq] at hname
        cases hname
      | cons c cs =>
        rw [hq] at hblank
        by_cases hc : c = chr '/'
        · subst hc
          simpa using hblank
        · simpa [hc] using hblank

end XMLGrammar

end CppTry
