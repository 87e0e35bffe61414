import CppTry.HttpParams
import Mathlib.Data.List.Induction

namespace CppTry

namespace HttpServer

/-- The text behind the first `?`. -/
def query (uri : List Byte) : List Byte := (uri.dropWhile (· ≠ chr '?')).tail

def pieces (uri : List Byte) : List (List Byte) := (query uri).splitOn (chr '&')

/-- The part of a piece before its first `=`; all of it when there is none. -/
def pieceKey (piece : List Byte) : List Byte := piece.takeWhile (· ≠ chr '=')

/-- The part of a piece behind its first `=`. -/
def pieceValue (piece : List Byte) : List Byte := (piece.dropWhile (· ≠ chr '=')).tail

/-- One piece as forms are decoded: an empty one is ignored, and without a `=` the value is empty. -/
def formParam (params : HttpParamMap) (piece : List Byte) : HttpParamMap :=
  if piece = [] then params
  else if chr '=' ∈ piece then params.insert (pieceKey piece) (pieceValue piece)
  else params.insert piece []

def formDecode (uri : List Byte) : HttpParamMap := (pieces uri).foldl formParam ∅

/-- Every piece without a `=` is followed by one that gives its key a value; an empty piece may
also stand behind one that gives the empty key the empty value. -/
def OverriddenIn (ps : List (List Byte)) : Prop :=
  ∀ pre piece post, ps = pre ++ piece :: post → chr '=' ∉ piece →
    (∃ value, piece ++ chr '=' :: value ∈ post) ∨
      piece = [] ∧ ∃ pre₁ pre₂, pre = pre₁ ++ [chr '='] :: pre₂ ∧
        ∀ q ∈ pre₂, q.head? ≠ some (chr '=')

def Overridden (uri : List Byte) : Prop := query uri = [] ∨ OverriddenIn (pieces uri)

/-- The last piece for the empty key gives it the empty value. -/
def EndsEmpty (uri : List Byte) : Prop :=
  query uri ≠ [] ∧ ∃ pre piece post, pieces uri = pre ++ piece :: post ∧
    (piece = [] ∨ piece = [chr '=']) ∧ ∀ q ∈ post, q ≠ [] ∧ q.head? ≠ some (chr '=')

/-- What a piece says about a key, in the code. -/
def codeValue (key piece : List Byte) : Option (List Byte) :=
  if pieceKey piece = key then some (if chr '=' ∈ piece then pieceValue piece else piece) else none

/-- What a piece says about a key, in a form. -/
def formValue (key piece : List Byte) : Option (List Byte) :=
  if piece ≠ [] ∧ pieceKey piece = key then some (if chr '=' ∈ piece then pieceValue piece else [])
  else none

theorem cut_append {c : Byte} {xs : List Byte} (h : c ∉ xs) (ys : List Byte) :
    (xs ++ c :: ys).takeWhile (· ≠ c) = xs ∧ ((xs ++ c :: ys).dropWhile (· ≠ c)).tail = ys := by
  constructor
  · rw [List.takeWhile_append_of_pos (all_ne h)]
    simp
  · rw [List.dropWhile_append_of_pos (all_ne h)]
    simp

theorem cut_none {c : Byte} {xs : List Byte} (h : c ∉ xs) :
    xs.takeWhile (· ≠ c) = xs ∧ xs.dropWhile (· ≠ c) = [] :=
  ⟨takeWhile_eq_self h, List.dropWhile_eq_nil_iff.mpr (all_ne h)⟩

section
variable {piece : List Byte}

theorem pieceKey_bare (h : chr '=' ∉ piece) : pieceKey piece = piece := (cut_none h).1

theorem pieceKey_append {key : List Byte} (h : chr '=' ∉ key) (value : List Byte) :
    pieceKey (key ++ chr '=' :: value) = key := (cut_append h value).1

theorem piece_eq (h : chr '=' ∈ piece) : piece = pieceKey piece ++ chr '=' :: pieceValue piece := by
  obtain ⟨key, value, rfl, hk⟩ := List.eq_append_cons_of_mem h
  obtain ⟨hkey, hvalue⟩ := cut_append hk value
  unfold pieceKey pieceValue
  rw [hkey, hvalue]

theorem not_mem_pieceKey (piece : List Byte) : chr '=' ∉ pieceKey piece := by
  intro h
  have hp := List.mem_takeWhile_imp h
  simp at hp

end

theorem addParam_eq (params : HttpParamMap) (piece : List Byte) :
    addParam params piece = params.insert (pieceKey piece)
      (if chr '=' ∈ piece then pieceValue piece else piece) := by
  split_ifs with h
  · have ha := addParam_assignment params (p := (pieceKey piece, pieceValue piece))
      (not_mem_pieceKey piece)
    rw [assignment, ← piece_eq h] at ha
    exact ha
  · rw [addParam_bare params h, pieceKey_bare h]

/-- The last piece that says something about a key decides. -/
theorem getElem?_foldl {step : HttpParamMap → List Byte → HttpParamMap}
    {said : List Byte → List Byte → Option (List Byte)}
    (hstep : ∀ m piece key, (step m piece)[key]? = (said key piece).or m[key]?)
    (ps : List (List Byte)) (key : List Byte) :
    (ps.foldl step ∅)[key]? = ps.reverse.findSome? (said key) := by
  induction ps using List.reverseRecOn with
  | nil => simp
  | append_singleton ps piece ih =>
    rw [List.foldl_append, List.foldl_cons, List.foldl_nil, hstep, ih, List.reverse_append,
      List.reverse_singleton, List.singleton_append, List.findSome?_cons]
    cases said key piece with
    | none => rfl
    | some value => rfl

theorem findSome?_reverse_eq_some_iff {f : List Byte → Option (List Byte)} {ps : List (List Byte)}
    {value : List Byte} : ps.reverse.findSome? f = some value ↔
      ∃ pre piece post, ps = pre ++ piece :: post ∧ f piece = some value ∧
        ∀ q ∈ post, f q = none := by
  rw [List.findSome?_eq_some_iff]
  constructor
  · rintro ⟨l₁, piece, l₂, hl, hp, hn⟩
    refine ⟨l₂.reverse, piece, l₁.reverse, ?_, hp, fun q hq => hn q (List.mem_reverse.mp hq)⟩
    rw [← List.reverse_reverse ps, hl]
    simp
  · rintro ⟨pre, piece, post, rfl, hp, hn⟩
    exact ⟨post.reverse, piece, pre.reverse, by simp, hp, fun q hq => hn q (List.mem_reverse.mp hq)⟩

theorem getElem?_addParam (m : HttpParamMap) (piece key : List Byte) :
    (addParam m piece)[key]? = (codeValue key piece).or m[key]? := by
  rw [addParam_eq, Std.ExtTreeMap.getElem?_insert, codeValue]
  simp only [Std.compare_eq_iff_eq]
  split_ifs <;> rfl

theorem formParam_eq (params : HttpParamMap) (piece : List Byte) :
    formParam params piece = if piece = [] then params else params.insert (pieceKey piece)
      (if chr '=' ∈ piece then pieceValue piece else []) := by
  unfold formParam
  by_cases he : chr '=' ∈ piece
  · rw [if_pos he, if_pos he]
  · rw [if_neg he, if_neg he, pieceKey_bare he]

theorem getElem?_formParam (m : HttpParamMap) (piece key : List Byte) :
    (formParam m piece)[key]? = (formValue key piece).or m[key]? := by
  rw [formParam_eq, formValue]
  by_cases hp : piece = []
  · rw [if_pos hp, if_neg (by simp [hp])]
    rfl
  · rw [if_neg hp, Std.ExtTreeMap.getElem?_insert]
    simp only [Std.compare_eq_iff_eq, ne_eq, hp, not_false_eq_true, true_and]
    split_ifs <;> rfl

/-- The map that `GetHttpParams` builds, from the pieces of the query. -/
theorem getHttpParams_pieces (uri : List Byte) : (getHttpParams uri).2 =
    if query uri = [] then ∅ else (pieces uri).foldl addParam ∅ := by
  by_cases hq : chr '?' ∈ uri
  · obtain ⟨path, rest, rfl, hpath⟩ := List.eq_append_cons_of_mem hq
    have hquery : query (path ++ chr '?' :: rest) = rest := (cut_append hpath rest).2
    rw [getHttpParams_query rest hpath, pieces, hquery]
    split_ifs with hr
    · rw [hr]
      rfl
    · rw [StringUtil.split_singleton _ _ hr, List.nil_append]
  · have hquery : query uri = [] := by
      unfold query
      rw [(cut_none hq).2]
      rfl
    rw [getHttpParams_bare hq, if_pos hquery]

theorem formDecode_empty {uri : List Byte} (h : query uri = []) : formDecode uri = ∅ := by
  unfold formDecode pieces
  rw [h]
  rfl

section
variable {key q : List Byte}

theorem codeValue_eq_none_iff : codeValue key q = none ↔ pieceKey q ≠ key := by
  simp [codeValue]

theorem formValue_eq_none_iff : formValue key q = none ↔ q = [] ∨ pieceKey q ≠ key := by
  unfold formValue
  split_ifs with h
  · simp [h]
  · simpa [imp_iff_not_or] using h

/-- The code and the reference differ in the pieces without a `=` only. -/
theorem formValue_eq_codeValue (h : chr '=' ∈ q) : formValue key q = codeValue key q := by
  have hne : q ≠ [] := List.ne_nil_of_mem h
  simp [formValue, codeValue, h, hne]

theorem pieceKey_eq_nil_iff : q ≠ [] ∧ pieceKey q = [] ↔ q.head? = some (chr '=') := by
  cases q with
  | nil => simp
  | cons b q =>
    by_cases hb : b = chr '='
    · simp [pieceKey, hb]
    · simp [pieceKey, hb]

theorem formValue_nil_eq_none_iff : formValue [] q = none ↔ q.head? ≠ some (chr '=') := by
  have hkey := @pieceKey_eq_nil_iff q
  rw [formValue_eq_none_iff]
  tauto

theorem eq_of_formValue_nil (h : formValue [] q = some []) : q = [chr '='] := by
  have hne : formValue [] q ≠ none := by simp [h]
  rw [ne_eq, formValue_eq_none_iff, not_or, Decidable.not_not] at hne
  obtain ⟨hq, hkey⟩ := hne
  have hmem : chr '=' ∈ q := by
    by_contra hno
    exact hq ((pieceKey_bare hno).symm.trans hkey)
  unfold formValue at h
  rw [if_pos ⟨hq, hkey⟩, if_pos hmem] at h
  rw [piece_eq hmem, hkey, Option.some.inj h]
  rfl

end

section
variable {ps pre post : List (List Byte)} {piece : List Byte}

theorem findSome?_last {f : List Byte → Option (List Byte)} {value : List Byte}
    (hps : ps = pre ++ piece :: post) (hp : f piece = some value)
    (hpost : ∀ q ∈ post, f q = none ∨ q = piece) : ps.reverse.findSome? f = some value := by
  have hall : ∀ q ∈ piece :: post, f q = none ∨ f q = some value := by
    intro q hq
    rcases List.mem_cons.mp hq with rfl | hq
    · exact Or.inr hp
    · rcases hpost q hq with hn | rfl
      · exact Or.inl hn
      · exact Or.inr hp
  have hsome : (piece :: post).reverse.findSome? f ≠ none := by
    rw [ne_eq, List.findSome?_eq_none_iff]
    intro hnone
    rw [hnone piece (by simp)] at hp
    cases hp
  obtain ⟨w, hw⟩ := Option.ne_none_iff_exists'.mp hsome
  obtain ⟨q, hq, hqw⟩ := List.exists_of_findSome?_eq_some hw
  have hvalue : w = value := by
    rcases hall q (List.mem_reverse.mp hq) with hn | hs
    · rw [hn] at hqw
      cases hqw
    · exact Option.some.inj (hqw.symm.trans hs)
  rw [hps, List.reverse_append, List.findSome?_append, hw, hvalue]
  rfl

/-- Behind a bare piece that is not overridden, only the piece itself has its key. -/
theorem eq_of_pieceKey (hno : ¬ ∃ value, piece ++ chr '=' :: value ∈ post) {q : List Byte}
    (hq : q ∈ post) (hkey : pieceKey q = piece) : q = piece := by
  by_cases he : chr '=' ∈ q
  · refine absurd ⟨pieceValue q, ?_⟩ hno
    rw [← hkey, ← piece_eq he]
    exact hq
  · rwa [pieceKey_bare he] at hkey

theorem lookup_code_bare (hps : ps = pre ++ piece :: post) (hbare : chr '=' ∉ piece)
    (hno : ¬ ∃ value, piece ++ chr '=' :: value ∈ post) :
    ps.reverse.findSome? (codeValue piece) = some piece := by
  apply findSome?_last hps
  · rw [codeValue, if_pos (pieceKey_bare hbare), if_neg hbare]
  · intro q hq
    rw [codeValue_eq_none_iff]
    by_cases hk : pieceKey q = piece
    · exact Or.inr (eq_of_pieceKey hno hq hk)
    · exact Or.inl hk

theorem lookup_form_bare (hps : ps = pre ++ piece :: post) (hbare : chr '=' ∉ piece)
    (hno : ¬ ∃ value, piece ++ chr '=' :: value ∈ post) (hne : piece ≠ []) :
    ps.reverse.findSome? (formValue piece) = some [] := by
  apply findSome?_last hps
  · rw [formValue, if_pos ⟨hne, pieceKey_bare hbare⟩, if_neg hbare]
  · intro q hq
    rw [formValue_eq_none_iff]
    by_cases hk : pieceKey q = piece
    · exact Or.inr (eq_of_pieceKey hno hq hk)
    · exact Or.inl (Or.inr hk)

theorem lookup_form_empty (hps : ps = pre ++ [] :: post)
    (hno : ¬ ∃ value, [] ++ chr '=' :: value ∈ post) :
    ps.reverse.findSome? (formValue []) = pre.reverse.findSome? (formValue []) := by
  have hnone : ([] :: post).reverse.findSome? (formValue []) = none := by
    rw [List.findSome?_eq_none_iff]
    intro q hm
    rw [formValue_eq_none_iff]
    rcases List.mem_cons.mp (List.mem_reverse.mp hm) with rfl | hm
    · exact Or.inl rfl
    · by_cases hk : pieceKey q = []
      · exact Or.inl (eq_of_pieceKey hno hm hk)
      · exact Or.inr hk
  rw [hps, List.reverse_append, List.findSome?_append, hnone]
  rfl

theorem overriddenIn_of_lookup
    (h : ∀ key, ps.reverse.findSome? (codeValue key) = ps.reverse.findSome? (formValue key)) :
    OverriddenIn ps := by
  intro pre piece post hps hbare
  by_cases hno : ∃ value, piece ++ chr '=' :: value ∈ post
  · exact Or.inl hno
  · have hboth := h piece
    rw [lookup_code_bare hps hbare hno] at hboth
    by_cases hnil : piece = []
    · subst hnil
      rw [lookup_form_empty hps hno] at hboth
      obtain ⟨pre₁, q, pre₂, hpre, hq, hrest⟩ := findSome?_reverse_eq_some_iff.mp hboth.symm
      rw [eq_of_formValue_nil hq] at hpre
      exact Or.inr ⟨rfl, pre₁, pre₂, hpre, fun r hr => formValue_nil_eq_none_iff.mp (hrest r hr)⟩
    · rw [lookup_form_bare hps hbare hno hnil] at hboth
      exact absurd (Option.some.inj hboth) hnil

theorem lookup_of_overriddenIn (h : OverriddenIn ps) (key : List Byte) :
    ps.reverse.findSome? (codeValue key) = ps.reverse.findSome? (formValue key) := by
  cases hcode : ps.reverse.findSome? (codeValue key) with
  | none =>
    rw [List.findSome?_eq_none_iff] at hcode
    symm
    rw [List.findSome?_eq_none_iff]
    intro q hq
    exact formValue_eq_none_iff.mpr (Or.inr (codeValue_eq_none_iff.mp (hcode q hq)))
  | some value =>
    obtain ⟨pre, piece, post, hps, hp, hpost⟩ := findSome?_reverse_eq_some_iff.mp hcode
    have hnone : ∀ q ∈ post, formValue key q = none := fun q hq =>
      formValue_eq_none_iff.mpr (Or.inr (codeValue_eq_none_iff.mp (hpost q hq)))
    symm
    rw [findSome?_reverse_eq_some_iff]
    by_cases he : chr '=' ∈ piece
    · exact ⟨pre, piece, post, hps, (formValue_eq_codeValue he).trans hp, hnone⟩
    · have hkey : piece = key := by
        by_contra hne
        rw [codeValue_eq_none_iff.mpr (by rwa [pieceKey_bare he])] at hp
        cases hp
      subst hkey
      rcases h pre piece post hps he with ⟨v, hv⟩ | ⟨rfl, pre₁, pre₂, rfl, hpre⟩
      · exact absurd (pieceKey_append he v) (codeValue_eq_none_iff.mp (hpost _ hv))
      · have hv : codeValue [] [] = some [] := rfl
        rw [hv] at hp
        cases hp
        refine ⟨pre₁, [chr '='], pre₂ ++ [] :: post, by rw [hps]; simp, rfl, ?_⟩
        intro q hq
        rcases List.mem_append.mp hq with hq | hq
        · exact formValue_nil_eq_none_iff.mpr (hpre q hq)
        · rcases List.mem_cons.mp hq with rfl | hq
          · exact formValue_eq_none_iff.mpr (Or.inl rfl)
          · exact hnone q hq

end

theorem pieces_append {uri : List Byte} (h : chr '?' ∈ uri) :
    query (uri ++ [chr '&']) = query uri ++ [chr '&'] ∧
      pieces (uri ++ [chr '&']) = pieces uri ++ [[]] := by
  obtain ⟨path, rest, rfl, hpath⟩ := List.eq_append_cons_of_mem h
  have hquery : query (path ++ chr '?' :: rest) = rest := (cut_append hpath rest).2
  have hmore : query ((path ++ chr '?' :: rest) ++ [chr '&']) = rest ++ [chr '&'] := by
    rw [List.append_assoc, List.cons_append]
    exact (cut_append hpath (rest ++ [chr '&'])).2
  unfold pieces
  rw [hmore, hquery]
  refine ⟨rfl, ?_⟩
  rw [List.splitOn_append_cons_of_beq _ _ (by simp), List.splitOn_nil]

theorem lookup_getHttpParams {uri : List Byte} (h : query uri ≠ []) (key : List Byte) :
    (getHttpParams uri).2[key]? = (pieces uri).reverse.findSome? (codeValue key) := by
  rw [getHttpParams_pieces, if_neg h, getElem?_foldl getElem?_addParam]

/-- The map is the reference's exactly when the pieces without a `=` are overridden. -/
theorem getHttpParams_eq_formDecode_iff (uri : List Byte) :
    (getHttpParams uri).2 = formDecode uri ↔ Overridden uri := by
  unfold Overridden
  by_cases hq : query uri = []
  · rw [getHttpParams_pieces, if_pos hq, formDecode_empty hq]
    simp [hq]
  · have hform : ∀ key : List Byte,
        (formDecode uri)[key]? = (pieces uri).reverse.findSome? (formValue key) :=
      fun key => getElem?_foldl getElem?_formParam (pieces uri) key
    constructor
    · intro h
      refine Or.inr (overriddenIn_of_lookup fun key => ?_)
      rw [← lookup_getHttpParams hq, ← hform, h]
    · intro h
      apply Std.ExtTreeMap.ext_getElem?
      intro key
      rw [lookup_getHttpParams hq, hform]
      exact lookup_of_overriddenIn (h.resolve_left hq) key

theorem codeValue_nil_eq_none_iff {q : List Byte} :
    codeValue [] q = none ↔ q ≠ [] ∧ q.head? ≠ some (chr '=') := by
  have hkey := @pieceKey_eq_nil_iff q
  rw [codeValue_eq_none_iff]
  by_cases hq : q = []
  · simp [hq, pieceKey]
  · tauto

theorem codeValue_nil_eq_some_iff {q : List Byte} :
    codeValue [] q = some [] ↔ q = [] ∨ q = [chr '='] := by
  constructor
  · intro h
    by_cases he : chr '=' ∈ q
    · exact Or.inr (eq_of_formValue_nil ((formValue_eq_codeValue he).trans h))
    · left
      have hne : codeValue [] q ≠ none := by simp [h]
      rw [ne_eq, codeValue_eq_none_iff, not_not, pieceKey_bare he] at hne
      exact hne
  · intro h
    rcases h with rfl | rfl
    · rfl
    · rfl

/-- The empty key has the empty value exactly when the last piece that gives it one says so. -/
theorem lookup_empty_iff (uri : List Byte) :
    (getHttpParams uri).2[([] : List Byte)]? = some [] ↔ EndsEmpty uri := by
  unfold EndsEmpty
  by_cases hq : query uri = []
  · rw [getHttpParams_pieces, if_pos hq]
    simp [hq]
  · rw [lookup_getHttpParams hq, findSome?_reverse_eq_some_iff]
    simp only [codeValue_nil_eq_some_iff, codeValue_nil_eq_none_iff]
    simp [hq]

theorem getHttpParams_append {uri : List Byte} (h : chr '?' ∈ uri) (key : List Byte) :
    (getHttpParams (uri ++ [chr '&'])).2[key]? =
      if key = [] then some [] else (getHttpParams uri).2[key]? := by
  obtain ⟨hquery, hpieces⟩ := pieces_append h
  have hne : query (uri ++ [chr '&']) ≠ [] := by simp [hquery]
  have hsaid : codeValue key [] = if key = [] then some [] else none := by
    simp [codeValue, pieceKey, eq_comm]
  rw [lookup_getHttpParams hne, hpieces, List.reverse_append, List.reverse_singleton,
    List.singleton_append, List.findSome?_cons, hsaid]
  split_ifs with hkey
  · rfl
  · by_cases hq : query uri = []
    · have hone : pieces uri = [[]] := by
        unfold pieces
        rw [hq, List.splitOn_nil]
      have hnone : codeValue key [] = none := by rw [hsaid, if_neg hkey]
      rw [getHttpParams_pieces, if_pos hq, hone]
      simp [hnone]
    · rw [lookup_getHttpParams hq]

theorem getHttpParams_append_iff {uri : List Byte} (h : chr '?' ∈ uri) :
    (getHttpParams (uri ++ [chr '&'])).2 = (getHttpParams uri).2 ↔ EndsEmpty uri := by
  rw [← lookup_empty_iff]
  constructor
  · intro he
    rw [← he, getHttpParams_append h, if_pos rfl]
  · intro he
    apply Std.ExtTreeMap.ext_getElem?
    intro key
    rw [getHttpParams_append h]
    split_ifs with hkey
    · rw [hkey, he]
    · rfl

/-- `GetHttpParams` against the usual decoding of forms. `substr(p + 1)` with no `=` in the piece
starts at 0 again, so that the piece is its own value; and an empty piece is stored too, which is
what an `&` at the end adds. -/
theorem getHttpParams_form_iff (uri : List Byte) :
    ((getHttpParams uri).2 = formDecode uri ↔ Overridden uri) ∧
      (chr '?' ∈ uri →
        ((getHttpParams (uri ++ [chr '&'])).2 = (getHttpParams uri).2 ↔ EndsEmpty uri)) :=
  ⟨getHttpParams_eq_formDecode_iff uri, fun h => getHttpParams_append_iff h⟩

def pairsUri : List Byte := text "/test?a=1&="

/-- Each piece has its `=`, and the last one the empty key and value. -/
theorem pairsUri_decoded : chr '?' ∈ pairsUri ∧ (getHttpParams pairsUri).2 = formDecode pairsUri ∧
    (getHttpParams (pairsUri ++ [chr '&'])).2 = (getHttpParams pairsUri).2 := by
  have hmem : chr '?' ∈ pairsUri := by decide
  have hpieces : pieces pairsUri = [text "a=1"] ++ [chr '='] :: [] := by decide
  have hover : Overridden pairsUri := by
    right
    intro pre piece post hps hbare
    have hall : ∀ q ∈ pieces pairsUri, chr '=' ∈ q := by
      rw [hpieces]
      simp [text, chr]
    exact absurd (hall piece (by simp [hps])) hbare
  have hends : EndsEmpty pairsUri := by
    refine ⟨by decide, _, [chr '='], [], hpieces, Or.inr rfl, ?_⟩
    intro q hq
    cases hq
  exact ⟨hmem, (getHttpParams_form_iff pairsUri).1.mpr hover,
    ((getHttpParams_form_iff pairsUri).2 hmem).mpr hends⟩

def bareUri : List Byte := text "/test?a"

/-- The parameter `a` comes out with the value `a`, and one more `&` brings a parameter with no
name. -/
theorem bareUri_decoded : (getHttpParams bareUri).2[[chr 'a']]? = some [chr 'a'] ∧
    (formDecode bareUri)[[chr 'a']]? = some [] ∧
    (getHttpParams bareUri).2 ≠ formDecode bareUri ∧
    (getHttpParams (bareUri ++ [chr '&'])).2 ≠ (getHttpParams bareUri).2 := by
  have hq : query bareUri ≠ [] := by decide
  have hcode : (getHttpParams bareUri).2[[chr 'a']]? = some [chr 'a'] := by
    rw [lookup_getHttpParams hq]
    decide
  have hform : (formDecode bareUri)[[chr 'a']]? = some [] := by
    unfold formDecode
    rw [getElem?_foldl getElem?_formParam]
    decide
  refine ⟨hcode, hform, fun he => ?_, fun he => ?_⟩
  · rw [he, hform] at hcode
    exact absurd hcode (by decide)
  · have hempty : (getHttpParams bareUri).2[([] : List Byte)]? = some [] := by
      rw [← he, getHttpParams_append (by decide), if_pos rfl]
    rw [lookup_getHttpParams hq] at hempty
    exact absurd hempty (by decide)

end HttpServer

end CppTry
