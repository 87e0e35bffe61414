import CppTry.StrPairMemory
import CppTry.XMLRoundTrip

namespace CppTry

def XMLAttribute.strings (attrib : XMLAttribute) : List (List Byte) := [attrib.name, attrib.value]

mutual

/-- The texts that the accessors of a node and of those below it give, in the order of the text. -/
def XMLNode.strings : XMLNode → List (List Byte)
  | .element name attributes children =>
    name :: (attributes.flatMap XMLAttribute.strings ++ stringsAll children)
  | .text value _ => [value]
  | .comment value => [value]
  | .declaration value => [value]
  | .unknown value => [value]

def stringsAll : List XMLNode → List (List Byte)
  | [] => []
  | node :: nodes => node.strings ++ stringsAll nodes

end

/-- A text that a `StrPair` is set over, with what follows it in the buffer. -/
structure Piece where
  flags : StrPair.Flags
  raw : List Byte
  after : List Byte

namespace Piece

def front (x : Piece) : List Byte := x.raw ++ x.after

theorem length_front (x : Piece) : x.front.length = x.raw.length + x.after.length := List.length_append

def text (build : Build) (x : Piece) : List Byte := StrPair.getStr build x.flags x.raw

end Piece

namespace XMLGrammar
open Scanning StrPair XMLUtil

/-- The pieces lie in `p` one behind the other, and each is followed by a byte that is in none of
them. The first begins where at most `hi` bytes are left, and behind the last more than `lo` are. -/
structure Between (p : List Byte) (hi lo : Nat) (pieces : List Piece) : Prop where
  pairwise : pieces.Pairwise fun x y => y.front.length < x.after.length
  suffix : ∀ x ∈ pieces, x.front <:+ p
  hi : ∀ x ∈ pieces, x.front.length ≤ hi
  lo : ∀ x ∈ pieces, lo < x.after.length

variable {options : XMLOptions} {p s t u : List Byte} {hi lo mid : Nat} {pieces : List Piece}

theorem Between.nil (p : List Byte) (hi lo : Nat) : Between p hi lo [] :=
  ⟨List.Pairwise.nil, by simp, by simp, by simp⟩

theorem Between.singleton {x : Piece} (hp : x.front <:+ p) (hhi : x.front.length ≤ hi)
    (hlo : lo < x.after.length) : Between p hi lo [x] := by
  refine ⟨List.pairwise_singleton _ _, ?_, ?_, ?_⟩
  all_goals
    intro y hy
    cases List.mem_singleton.mp hy
    assumption

theorem Between.append {pieces' : List Piece} (h : Between p hi mid pieces)
    (h' : Between p mid lo pieces') (hlo : lo ≤ mid) (hhi : mid ≤ hi) :
    Between p hi lo (pieces ++ pieces') := by
  refine ⟨List.pairwise_append.mpr ⟨h.pairwise, h'.pairwise, fun x hx y hy => ?_⟩, ?_, ?_, ?_⟩
  · exact Nat.lt_of_le_of_lt (h'.hi y hy) (h.lo x hx)
  · intro x hx
    exact (List.mem_append.mp hx).elim (h.suffix x) (h'.suffix x)
  · intro x hx
    exact (List.mem_append.mp hx).elim (h.hi x) fun hx => le_trans (h'.hi x hx) hhi
  · intro x hx
    exact (List.mem_append.mp hx).elim (fun hx => Nat.lt_of_le_of_lt hlo (h.lo x hx)) (h'.lo x)

theorem Between.mono {hi' lo' : Nat} (h : Between p hi lo pieces) (hhi : hi ≤ hi') (hlo : lo' ≤ lo) :
    Between p hi' lo' pieces :=
  ⟨h.pairwise, h.suffix, fun x hx => le_trans (h.hi x hx) hhi,
    fun x hx => Nat.lt_of_le_of_lt hlo (h.lo x hx)⟩

theorem blank_suffix (h : Blank s t) : t <:+ s := by
  obtain ⟨run, _, rfl⟩ := h
  exact List.suffix_append run t

theorem upTo_suffix {mark raw : List Byte} (h : UpTo mark s raw t) : mark ++ t <:+ s :=
  ⟨raw, h.1.symm⟩

theorem suffix_of_append {header : List Byte} (h : header ++ t <:+ s) : t <:+ s :=
  (List.suffix_append header t).trans h

theorem name_suffix {name : List Byte} (h : Name s name t) : t <:+ s :=
  ⟨name, h.2.1.symm⟩

/-- A `StrPair` without flags reads a name as it is. -/
theorem getStr_name {name : List Byte} (build : Build) (h : NameText name) :
    getStr build ⟨false, false, false⟩ name = name := by
  unfold getStr
  rw [getStrLoop_plain rfl rfl, List.nil_append,
    List.takeWhile_eq_self_iff.mpr (all_ne (zero_notMem_name h))]
  rfl

/-- What an attribute, a tag or nodes read from `s` up to `t` set their `StrPair`s over. -/
def Pieces (build : Build) (p : List Byte) (hi lo : Nat) (strings : List (List Byte)) : Prop :=
  ∃ pieces, Between p hi lo pieces ∧ pieces.map (Piece.text build) = strings

theorem Pieces.append {build : Build} {strings strings' : List (List Byte)}
    (h : Pieces build p hi mid strings) (h' : Pieces build p mid lo strings') (hlo : lo ≤ mid)
    (hhi : mid ≤ hi) : Pieces build p hi lo (strings ++ strings') := by
  obtain ⟨pieces, hb, rfl⟩ := h
  obtain ⟨pieces', hb', rfl⟩ := h'
  exact ⟨pieces ++ pieces', hb.append hb' hlo hhi, List.map_append⟩

theorem Pieces.mono {build : Build} {strings : List (List Byte)} {hi' lo' : Nat}
    (h : Pieces build p hi lo strings) (hhi : hi ≤ hi') (hlo : lo' ≤ lo) :
    Pieces build p hi' lo' strings := by
  obtain ⟨pieces, hb, rfl⟩ := h
  exact ⟨pieces, hb.mono hhi hlo, rfl⟩

theorem Pieces.nil (build : Build) (p : List Byte) (hi lo : Nat) : Pieces build p hi lo [] :=
  ⟨[], Between.nil p hi lo, rfl⟩

/-- The piece that one `StrPair` is set over. -/
theorem pieces_one (build : Build) (flags : Flags) {raw after : List Byte} (hp : raw ++ after <:+ p)
    (hhi : (raw ++ after).length ≤ hi) (hlo : lo < after.length) :
    Pieces build p hi lo [getStr build flags raw] :=
  ⟨[⟨flags, raw, after⟩], Between.singleton hp hhi hlo, rfl⟩

theorem pieces_name (build : Build) {name : List Byte} (h : Name s name t) (hp : s <:+ p)
    (hlo : lo < t.length) : Pieces build p s.length lo [name] := by
  obtain ⟨hname, rfl, _⟩ := h
  have hone := pieces_one build ⟨false, false, false⟩ hp (le_refl _) hlo
  rw [getStr_name build hname] at hone
  exact hone

theorem pieces_upTo (build : Build) (flags : Flags) {mark raw : List Byte} (h : UpTo mark s raw t)
    (hm : mark ≠ []) (hp : s <:+ p) (hhi : s.length ≤ hi) :
    Pieces build p hi t.length [getStr build flags raw] := by
  obtain ⟨rfl, _⟩ := h
  have hpos := List.length_pos_iff.mpr hm
  exact pieces_one build flags hp hhi (by rw [List.length_append]; omega)

theorem attribute_pieces {attrib : XMLAttribute} (h : Attribute options s attrib t) (hp : s <:+ p) :
    t <:+ s ∧ Pieces options.build p s.length t.length attrib.strings := by
  obtain ⟨hname, hequals, hquote, _, hraw⟩ := h
  have h₁ := name_suffix hname
  have h₂ := suffix_of_append (blank_suffix hequals : [chr '='] ++ _ <:+ _)
  have h₃ := suffix_of_append (blank_suffix hquote : [_] ++ _ <:+ _)
  have h₄ := suffix_of_append (upTo_suffix hraw)
  have hlt := hequals.length_le
  rw [List.length_cons] at hlt
  have hvalue := pieces_upTo options.build options.attributeFlags hraw (List.cons_ne_nil _ _)
    (h₃.trans (h₂.trans (h₁.trans hp))) h₃.length_le
  exact ⟨h₄.trans (h₃.trans (h₂.trans h₁)), (pieces_name options.build hname hp hlt).append hvalue
    (h₄.trans h₃).length_le (h₂.trans h₁).length_le⟩

theorem attributes_pieces {attributes : List XMLAttribute} {sealed : Bool}
    (h : Attributes options s attributes sealed t) (hp : s <:+ p) :
    t <:+ s ∧ Pieces options.build p s.length t.length (attributes.flatMap XMLAttribute.strings) := by
  induction h with
  | opened hs =>
    exact ⟨suffix_of_append (blank_suffix hs : [chr '>'] ++ _ <:+ _), Pieces.nil _ _ _ _⟩
  | sealed hs =>
    exact ⟨suffix_of_append (blank_suffix hs : [chr '/', chr '>'] ++ _ <:+ _), Pieces.nil _ _ _ _⟩
  | cons hs hattrib _ ih =>
    have h₁ := blank_suffix hs
    obtain ⟨h₂, hone⟩ := attribute_pieces hattrib (h₁.trans hp)
    obtain ⟨h₃, hmore⟩ := ih (h₂.trans (h₁.trans hp))
    exact ⟨h₃.trans (h₂.trans h₁), (hone.mono h₁.length_le (le_refl _)).append hmore h₃.length_le
      (h₂.trans h₁).length_le⟩

/-- Behind a name, the first attribute does not begin on the byte that ends the name. -/
theorem attributes_pieces_behind {attributes : List XMLAttribute} {sealed : Bool}
    (h : Attributes options s attributes sealed t) (hstops : Stops isNameChar s) (hp : s <:+ p) :
    Pieces options.build p (s.length - 1) t.length (attributes.flatMap XMLAttribute.strings) := by
  cases h with
  | opened => exact Pieces.nil _ _ _ _
  | sealed => exact Pieces.nil _ _ _ _
  | @cons _ u _ _ _ _ _ hs hattrib hmore =>
    have h₁ := blank_suffix hs
    have hlt : u.length < s.length := by
      refine Nat.lt_of_le_of_ne h₁.length_le fun heq => ?_
      obtain ⟨c, cs, hu, hc⟩ := hattrib.head
      have hname := hstops c (by rw [← h₁.eq_of_length heq, hu]; rfl)
      rw [isNameChar, hc] at hname
      exact absurd hname (by simp)
    have hagain := Attributes.cons (Skips.refl isWhiteSpace u) hattrib hmore
    exact (attributes_pieces hagain (h₁.trans hp)).2.mono (by omega) (le_refl _)

/-- Where the first `StrPair` of what is read from `s` can begin: not on the `<` of a tag. -/
def left (s : List Byte) : Nat := if s.head? = some (chr '<') then s.length - 1 else s.length

theorem left_le (s : List Byte) : left s ≤ s.length := by
  unfold left
  split <;> omega

theorem lt_left (h : t.length < s.length) : t.length ≤ left s := by
  unfold left
  split <;> omega

theorem left_le_left (h : t <:+ s) : left t ≤ left s := by
  rcases Nat.lt_or_eq_of_le h.length_le with hlt | heq
  · exact le_trans (left_le t) (lt_left hlt)
  · rw [h.eq_of_length heq]

theorem tag_pieces {slash sealed : Bool} {name : List Byte} {attributes : List XMLAttribute}
    (h : Tag options slash sealed s name attributes t) (hp : s <:+ p) :
    t <:+ s ∧ Pieces options.build p (left s) (left t)
      (name :: attributes.flatMap XMLAttribute.strings) := by
  obtain ⟨hs, hslash, hname, hattributes, _⟩ := h
  have h₁ := suffix_of_append (blank_suffix hs : [chr '<'] ++ _ <:+ _)
  have h₂ := (suffix_of_append (blank_suffix hslash)).trans h₁
  have h₃ := (name_suffix hname).trans h₂
  obtain ⟨h₄, _⟩ := attributes_pieces hattributes (h₃.trans hp)
  have hlt := length_attributes hattributes
  have hhead := hs.length_le
  have hbehind := (suffix_of_append (blank_suffix hslash)).length_le
  rw [List.length_cons] at hhead
  have hmore := attributes_pieces_behind hattributes hname.2.2 (h₃.trans hp)
  have hall := (pieces_name options.build hname (h₂.trans hp) (by omega)).append hmore (by omega)
    (by have := (name_suffix hname).length_le; omega)
  exact ⟨h₄.trans h₃, hall.mono (le_trans hbehind (lt_left (by omega))) (left_le t)⟩

/-- `<`, a mark that says what is read, a text, and the mark that ends it. -/
theorem pieces_marked {header mark raw : List Byte} (flags : Flags)
    (hs : Blank s (header ++ u)) (hh : header ≠ []) (h : UpTo mark u raw t) (hm : mark ≠ [])
    (hp : s <:+ p) : t <:+ s ∧
      Pieces options.build p (left s) (left t) [getStr options.build flags raw] := by
  have h₁ := suffix_of_append (blank_suffix hs)
  have h₂ := suffix_of_append (upTo_suffix h)
  have hpos := List.length_pos_iff.mpr hh
  have hle := hs.length_le
  rw [List.length_append] at hle
  exact ⟨h₂.trans h₁, (pieces_upTo options.build flags h hm (h₁.trans hp) (le_refl _)).mono
    (lt_left (by omega)) (left_le t)⟩

theorem declaration_pieces {node : XMLNode} (h : Declaration options s node t) (hp : s <:+ p) :
    t <:+ s ∧ Pieces options.build p (left s) (left t) node.strings := by
  obtain ⟨hs, hraw⟩ := h
  exact pieces_marked _ hs (List.cons_ne_nil _ _) hraw (List.cons_ne_nil _ _) hp

theorem leaf_pieces {node : XMLNode} (h : Leaf options s node t) (hp : s <:+ p) :
    t <:+ s ∧ Pieces options.build p (left s) (left t) node.strings := by
  cases h with
  | comment hs hraw =>
    exact pieces_marked _ hs (List.cons_ne_nil _ _) hraw (List.cons_ne_nil _ _) hp
  | cdata hs hraw =>
    exact pieces_marked _ hs (List.cons_ne_nil _ _) hraw (List.cons_ne_nil _ _) hp
  | unknown hs _ _ hraw =>
    exact pieces_marked _ hs (List.cons_ne_nil _ _) hraw (List.cons_ne_nil _ _) hp
  | @text raw u hraw hne hmem =>
    have hend : chr '<' :: u <:+ s := upTo_suffix hraw
    -- text does not begin with the mark it goes up to
    have hleft : left s = s.length := by
      obtain ⟨c, hc, _⟩ := hmem
      cases raw with
      | nil => cases hc
      | cons d raw =>
        have hd : d ≠ chr '<' := fun he =>
          hraw.2 ⟨[], raw, by rw [he]; rfl⟩
        rw [left, hraw.1, List.cons_append, List.head?_cons, if_neg (by simpa using hd)]
    refine ⟨hend, ?_⟩
    rw [hleft]
    exact pieces_upTo options.build options.textFlags hraw (List.cons_ne_nil _ _) hp (le_refl _)

theorem nodes_pieces {allowed : Bool} {depth : Nat} {nodes : List XMLNode}
    (h : Nodes options allowed depth s nodes t) (hp : s <:+ p) :
    t <:+ s ∧ Pieces options.build p (left s) (left t) (stringsAll nodes) := by
  induction h with
  | nil => exact ⟨List.suffix_rfl, Pieces.nil _ _ _ _⟩
  | declaration hnode _ ih =>
    obtain ⟨h₁, hone⟩ := declaration_pieces hnode hp
    obtain ⟨h₂, hmore⟩ := ih (h₁.trans hp)
    exact ⟨h₂.trans h₁, hone.append hmore (left_le_left h₂) (left_le_left h₁)⟩
  | leaf hnode _ ih =>
    obtain ⟨h₁, hone⟩ := leaf_pieces hnode hp
    obtain ⟨h₂, hmore⟩ := ih (h₁.trans hp)
    exact ⟨h₂.trans h₁, hone.append hmore (left_le_left h₂) (left_le_left h₁)⟩
  | sealed htag _ ih =>
    obtain ⟨h₁, hone⟩ := tag_pieces htag hp
    obtain ⟨h₂, hmore⟩ := ih (h₁.trans hp)
    rw [stringsAll, XMLNode.strings, stringsAll, List.append_nil]
    exact ⟨h₂.trans h₁, hone.append hmore (left_le_left h₂) (left_le_left h₁)⟩
  | element htag _ _ hend _ _ ih ih' =>
    obtain ⟨h₁, hone⟩ := tag_pieces htag hp
    obtain ⟨h₂, hchildren⟩ := ih (h₁.trans hp)
    obtain ⟨h₃, _⟩ := tag_pieces hend (h₂.trans (h₁.trans hp))
    obtain ⟨h₄, hmore⟩ := ih' (h₃.trans (h₂.trans (h₁.trans hp)))
    have hrest := hmore.mono (left_le_left h₃) (le_refl _)
    have hinner := hone.append hchildren (left_le_left h₂) (left_le_left h₁)
    have hall := hinner.append hrest (left_le_left (h₄.trans h₃)) (left_le_left (h₂.trans h₁))
    rw [stringsAll, XMLNode.strings]
    exact ⟨h₄.trans (h₃.trans (h₂.trans h₁)), hall⟩

end XMLGrammar

namespace Piece
open StrPair

/-- Where the `StrPair` points to in a buffer of `n` bytes. -/
def extent (n : Nat) (x : Piece) : XMLBuffer.Extent := ⟨x.flags, n - x.front.length, x.raw⟩

end Piece

namespace XMLGrammar
open Scanning StrPair XMLUtil XMLBuffer

variable {options : XMLOptions} {p : List Byte} {hi lo : Nat} {pieces : List Piece}

theorem Between.apart (h : Between p hi lo pieces) :
    (pieces.map (Piece.extent p.length)).Pairwise Extent.Apart := by
  rw [List.pairwise_map]
  refine h.pairwise.imp_of_mem fun {x y} hx hy hlt => Or.inl ?_
  have hxp := (h.suffix x hx).length_le
  have hyp := (h.suffix y hy).length_le
  change p.length - x.front.length + x.raw.length < p.length - y.front.length
  have hx := x.length_front
  omega

theorem Between.within (h : Between p hi lo pieces) (back : List Byte) (hz : 0 ∉ p) :
    ∀ x ∈ pieces.map (Piece.extent p.length), x.Within (p ++ back) := by
  intro y hy
  obtain ⟨x, hx, rfl⟩ := List.mem_map.mp hy
  obtain ⟨lead, hlead⟩ := h.suffix x hx
  have hlo := h.lo x hx
  cases hafter : x.after with
  | nil => simp [hafter] at hlo
  | cons e after =>
    have hp : p = lead ++ (x.raw ++ e :: after) := by rw [← hlead, Piece.front, hafter]
    have hstart : p.length - x.front.length = lead.length := by
      rw [← hlead, List.length_append, Nat.add_sub_cancel]
    have hdrop : (p ++ back).drop (p.length - x.front.length) = (x.raw ++ [e]) ++ (after ++ back) := by
      rw [hstart, hp, List.append_assoc, List.drop_left]
      simp
    exact ⟨fun hmem => hz (by rw [hp]; exact List.mem_append_right _ (List.mem_append_left _ hmem)), e,
      holds_of_drop hdrop⟩

/-- The `StrPair`s of a document that is read without an error give the texts of its nodes, in
whatever order `GetStr` is called on them and however often. -/
theorem parseBuffer_getStrs (options : XMLOptions) (buffer : List Byte) (bom : Bool)
    (nodes : List XMLNode) (h : options.parseBuffer buffer = ⟨none, bom, nodes⟩) :
    ∃ pairs : List StrPair, (∀ pair ∈ pairs, pair.needsFlush = true ∧ pair.start ≤ pair.stop ∧
      pair.stop < buffer.length) ∧ ∀ calls : List (Fin (stringsAll nodes).length),
        ((⟨buffer, pairs⟩ : XMLBuffer).getStrs options.build (calls.map fun i => i.val)).map Prod.snd =
          some (calls.map (stringsAll nodes).get) := by
  obtain ⟨s, u, t, hs, _, hbom, _, hnodes, _⟩ := document_of_parseBuffer h
  have hsuffix : u <:+ buffer.takeWhile (· ≠ 0) := by
    refine List.IsSuffix.trans ?_ (blank_suffix hs)
    unfold readBOM at hbom
    split at hbom
    next => cases hbom; exact List.drop_suffix 3 s
    next => cases hbom; exact List.suffix_rfl
  obtain ⟨back, hback⟩ := List.takeWhile_prefix (fun c : Byte => decide (c ≠ 0)) (l := buffer)
  have hz : 0 ∉ buffer.takeWhile (· ≠ 0) := by
    intro hmem
    simpa using List.mem_takeWhile_imp hmem
  obtain ⟨_, pieces, hbetween, hstrings⟩ := nodes_pieces hnodes hsuffix
  have hwithin := hbetween.within back hz
  rw [hback] at hwithin
  generalize buffer.takeWhile (· ≠ 0) = p at *
  refine ⟨(pieces.map (Piece.extent p.length)).map Extent.pair, ?_, fun calls => ?_⟩
  · intro pair hpair
    obtain ⟨x, hx, rfl⟩ := List.mem_map.mp hpair
    obtain ⟨_, e, he⟩ := hwithin x hx
    have hlen := congrArg List.length he
    rw [List.length_take, List.length_drop, List.length_append, List.length_singleton] at hlen
    exact ⟨rfl, Nat.le_add_right _ _, by change x.start + x.raw.length < _; omega⟩
  · have hsize : (pieces.map (Piece.extent p.length)).length = (stringsAll nodes).length := by
      rw [← hstrings, List.length_map, List.length_map]
    obtain ⟨buffer', hrun, _⟩ := (sound_pair options.build hwithin).getStrs hbetween.apart
      (calls.map (Fin.cast hsize.symm))
    have hcalls : (calls.map (Fin.cast hsize.symm)).map (fun i => i.val) = calls.map fun i => i.val := by
      rw [List.map_map]
      rfl
    rw [hcalls] at hrun
    rw [hrun, Option.map_some, List.map_map]
    refine congrArg some (List.map_congr_left fun i _ => ?_)
    have hget : some ((stringsAll nodes).get i) =
        (pieces.map (Piece.text options.build))[i.val]? := by
      rw [hstrings, List.get_eq_getElem, List.getElem?_eq_getElem i.isLt]
    have hi : i.val < pieces.length := by
      rw [← List.length_map (Piece.extent p.length), hsize]
      exact i.isLt
    rw [List.getElem?_map, List.getElem?_eq_getElem hi] at hget
    rw [Option.some_inj.mp hget, Function.comp_apply, List.get_eq_getElem, List.getElem_map]
    rfl

/-- The text of the attribute, that of the declaration and that of the attribute again. -/
theorem parseBuffer_getStrs_mixed : ∃ pairs : List StrPair,
    ((⟨XMLOptions.print ⟨.posix, true, false⟩ false true mixedNodes, pairs⟩ : XMLBuffer).getStrs .posix
      [3, 0, 3]).map Prod.snd = some [text "\"<", text "xml", text "\"<"] := by
  have hdocument := document_print ⟨.posix, true, false⟩ false true mixedNodes_printable
    (List.cons_ne_nil _ _)
  obtain ⟨pairs, _, hcalls⟩ := parseBuffer_getStrs _ _ _ _ hdocument.parseBuffer
  exact ⟨pairs, hcalls ([3, 0, 3] : List (Fin 7))⟩

end XMLGrammar

end CppTry
