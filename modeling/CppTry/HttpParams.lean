import CppTry.Decimal
import CppTry.StringUtil

namespace CppTry

/-- `map<string, string>`. -/
abbrev HttpParamMap := Std.ExtTreeMap (List Byte) (List Byte)

namespace HttpServer

/-- One parameter. Without a `=`, `p` is `npos` and `p + 1` is 0. -/
def addParam (params : HttpParamMap) (piece : List Byte) : HttpParamMap :=
  match findFirstOf piece [chr '='] 0 with
  | some p => params.insert (substr piece 0 p) (piece.drop (p + 1))
  | none => params.insert piece piece

def getHttpParams (uri : List Byte) : List Byte × HttpParamMap :=
  match findFirstOf uri [chr '?'] 0 with
  | none => (uri, ∅)
  | some pos =>
    (substr uri 0 pos, (StringUtil.split (uri.drop (pos + 1)) [chr '&'] []).foldl addParam ∅)

/-- The body of the loop of `GetHttpURI`, with `n` and `uri`. -/
def appendParam (st : Int × List Byte) (param : List Byte × List Byte) : Int × List Byte :=
  let uri := if st.1 > 0 then st.2 ++ [chr '&'] else st.2
  (wrap32 (st.1 + 1), uri ++ param.1 ++ [chr '='] ++ param.2)

def getHttpURI (path : List Byte) (params : HttpParamMap) : List Byte :=
  if params.size > 0 then (params.toList.foldl appendParam (0, path ++ [chr '?'])).2 else path

/-- No parameter has a separator where it would be taken for one. -/
def Separable (params : HttpParamMap) : Prop :=
  ∀ k v : List Byte, params[k]? = some v → (chr '&' ∉ k ∧ chr '=' ∉ k) ∧ chr '&' ∉ v

/-- The parameters as `GetHttpURI` writes them. -/
def assignment (param : List Byte × List Byte) : List Byte := param.1 ++ chr '=' :: param.2

/-- What stands behind the `?`, when the loop starts with `n`. -/
def written (n : Int) (ps : List (List Byte × List Byte)) : List Byte := (ps.foldl appendParam (n, [])).2

/-- The `n` behind the loop. -/
def counted (n : Int) (ps : List (List Byte × List Byte)) : Int := ps.foldl (fun n _ => wrap32 (n + 1)) n

theorem appendParam_eq (n : Int) (uri : List Byte) (p : List Byte × List Byte) :
    appendParam (n, uri) p =
      (wrap32 (n + 1), uri ++ (if n > 0 then [chr '&'] else []) ++ assignment p) := by
  unfold appendParam
  split_ifs <;> simp [assignment]

theorem appendParam_foldl (ps : List (List Byte × List Byte)) (n : Int) (uri : List Byte) :
    ps.foldl appendParam (n, uri) = (counted n ps, uri ++ written n ps) := by
  induction ps generalizing n uri with
  | nil => rw [List.foldl_nil, written, List.foldl_nil, List.append_nil, counted, List.foldl_nil]
  | cons p ps ih =>
    have hcounted : counted n (p :: ps) = counted (wrap32 (n + 1)) ps := List.foldl_cons ..
    have hquery : written n (p :: ps) =
        (if n > 0 then [chr '&'] else []) ++ assignment p ++ written (wrap32 (n + 1)) ps := by
      rw [written, List.foldl_cons, appendParam_eq, ih, List.nil_append]
    rw [List.foldl_cons, appendParam_eq, ih, hcounted, hquery]
    simp only [List.append_assoc]

theorem written_cons (n : Int) (p : List Byte × List Byte) (ps : List (List Byte × List Byte)) :
    written n (p :: ps) =
      (if n > 0 then [chr '&'] else []) ++ assignment p ++ written (wrap32 (n + 1)) ps := by
  rw [written, List.foldl_cons, appendParam_eq, appendParam_foldl, List.nil_append]

theorem written_append (n : Int) (ps qs : List (List Byte × List Byte)) :
    written n (ps ++ qs) = written n ps ++ written (counted n ps) qs := by
  rw [written, List.foldl_append, appendParam_foldl ps, appendParam_foldl, List.nil_append]

/-- After `k` parameters `n` is `k`, as an `int`. -/
theorem counted_eq (k : Nat) (ps : List (List Byte × List Byte)) :
    counted (wrap32 k) ps = wrap32 (k + ps.length : Nat) := by
  induction ps generalizing k with
  | nil => rw [counted, List.foldl_nil, List.length_nil, Nat.add_zero]
  | cons p ps ih =>
    have hnext : wrap32 (wrap32 k + 1) = wrap32 (k + 1 : Nat) := by
      unfold wrap32
      omega
    have hk : k + 1 + ps.length = k + (p :: ps).length := by
      rw [List.length_cons]
      omega
    rw [counted, List.foldl_cons, hnext, ← counted, ih, hk]

/-- As long as `n` does not wrap, every parameter but the first has its separator. -/
theorem written_flatMap {n : Int} {ps : List (List Byte × List Byte)} (hn : 0 < n)
    (h : n + ps.length ≤ 2 ^ 31) : written n ps = ps.flatMap fun p => chr '&' :: assignment p := by
  induction ps generalizing n with
  | nil => rfl
  | cons p ps ih =>
    rw [List.length_cons] at h
    rw [written_cons, if_pos hn, List.flatMap_cons]
    cases ps with
    | nil => rfl
    | cons q ps =>
      rw [List.length_cons] at h
      have hnext : wrap32 (n + 1) = n + 1 := wrap32_eq (by omega) (by omega)
      rw [hnext, ih (by omega) (by rw [List.length_cons]; omega)]
      rfl

theorem written_eq {ps : List (List Byte × List Byte)} (h : ps.length ≤ 2 ^ 31) :
    written 0 ps = [chr '&'].intercalate (ps.map assignment) := by
  cases ps with
  | nil => rfl
  | cons p ps =>
    rw [List.length_cons] at h
    have hone : wrap32 (0 + 1) = 1 := wrap32_eq (by omega) (by omega)
    rw [written_cons, if_neg (Int.lt_irrefl 0), List.nil_append, hone,
      written_flatMap Int.one_pos (by omega), List.map_cons, intercalate_cons_flatMap, List.flatMap_map]
    rfl

theorem getHttpURI_eq {params : HttpParamMap} (path : List Byte) (h : params ≠ ∅) :
    getHttpURI path params = path ++ chr '?' :: written 0 params.toList := by
  have hsize : params.size > 0 := by
    have hne := mt Std.ExtTreeMap.eq_empty_iff_size_eq_zero.mpr h
    omega
  rw [getHttpURI, if_pos hsize, appendParam_foldl, List.append_assoc, List.singleton_append]

theorem not_mem_written {ps : List (List Byte × List Byte)} {c : Byte}
    (h : ∀ p ∈ ps, c ∉ assignment p) (hc : c ≠ chr '&') (n : Int) : c ∉ written n ps := by
  induction ps generalizing n with
  | nil => exact List.not_mem_nil
  | cons p ps ih =>
    obtain ⟨hp, hps⟩ := List.forall_mem_cons.mp h
    rw [written_cons, List.mem_append, List.mem_append]
    rintro ((hsep | hmem) | hmem)
    · split_ifs at hsep
      · exact hc (List.mem_singleton.mp hsep)
      · exact List.not_mem_nil hsep
    · exact hp hmem
    · exact ih hps _ hmem

theorem count_written_le {ps : List (List Byte × List Byte)} (h : ∀ p ∈ ps, chr '&' ∉ assignment p)
    (n : Int) : (written n ps).count (chr '&') ≤ ps.length := by
  induction ps generalizing n with
  | nil => exact Nat.le_refl 0
  | cons p ps ih =>
    obtain ⟨hp, hps⟩ := List.forall_mem_cons.mp h
    have hrest := ih hps (wrap32 (n + 1))
    have hsep : List.count (chr '&') (if n > 0 then [chr '&'] else []) ≤ 1 := by
      split_ifs
      · exact Nat.le_of_eq List.count_singleton_self
      · exact Nat.zero_le 1
    rw [written_cons, List.count_append, List.count_append, List.count_eq_zero_of_not_mem hp,
      List.length_cons]
    omega

/-- No separator is written where `n` is not positive. -/
theorem count_written_lt {ps : List (List Byte × List Byte)} (h : ∀ p ∈ ps, chr '&' ∉ assignment p)
    {n : Int} (hn : ¬ n > 0) (hne : ps ≠ []) : (written n ps).count (chr '&') < ps.length := by
  cases ps with
  | nil => exact absurd rfl hne
  | cons p ps =>
    obtain ⟨hp, hps⟩ := List.forall_mem_cons.mp h
    have hrest := count_written_le hps (wrap32 (n + 1))
    rw [written_cons, if_neg hn, List.nil_append, List.count_append, List.count_eq_zero_of_not_mem hp,
      List.length_cons]
    omega

theorem addParam_assignment (params : HttpParamMap) {p : List Byte × List Byte}
    (h : chr '=' ∉ p.1) : addParam params (assignment p) = params.insert p.1 p.2 := by
  unfold addParam assignment
  rw [findFirstOf_char_append p.2 h]
  simp [substr]

theorem foldl_insert_toList (params : HttpParamMap) :
    params.toList.foldl (fun m p => m.insert p.1 p.2) ∅ = params := by
  have hmany : ∀ (l : List (List Byte × List Byte)) (m : HttpParamMap),
      l.foldl (fun m p => m.insert p.1 p.2) m = m.insertMany l := by
    intro l
    induction l with
    | nil => simp
    | cons p l ih => intro m; rw [List.foldl_cons, ih, Std.ExtTreeMap.insertMany_cons]
  rw [hmany, ← Std.ExtTreeMap.ofList_eq_insertMany_empty]
  apply Std.ExtTreeMap.ext_getElem?
  intro k
  cases hk : params[k]? with
  | some v =>
    exact Std.ExtTreeMap.getElem?_ofList_of_mem Std.ReflCmp.compare_self
      Std.ExtTreeMap.distinct_keys_toList (Std.ExtTreeMap.mem_toList_iff_getElem?_eq_some.mpr hk)
  | none =>
    apply Std.ExtTreeMap.getElem?_ofList_of_contains_eq_false
    rw [Std.ExtTreeMap.map_fst_toList_eq_keys, List.contains_eq_mem]
    simpa using hk

theorem separable_empty : Separable ∅ := by
  intro k v h
  simp at h

theorem Separable.insert {params : HttpParamMap} (h : Separable params) {k v : List Byte}
    (hk : chr '&' ∉ k ∧ chr '=' ∉ k) (hv : chr '&' ∉ v) : Separable (params.insert k v) := by
  intro k' v' hl
  rw [Std.ExtTreeMap.getElem?_insert] at hl
  split at hl
  next he =>
    cases hl
    rw [← Std.LawfulEqCmp.eq_of_compare he]
    exact ⟨hk, hv⟩
  next => exact h k' v' hl

theorem addParam_bare (params : HttpParamMap) {piece : List Byte} (h : chr '=' ∉ piece) :
    addParam params piece = params.insert piece piece := by
  unfold addParam
  rw [findFirstOf_char_none h]

theorem Separable.addParam {params : HttpParamMap} (h : Separable params) {piece : List Byte}
    (hp : chr '&' ∉ piece) : Separable (addParam params piece) := by
  by_cases he : chr '=' ∈ piece
  · obtain ⟨k, v, rfl, hk⟩ := List.eq_append_cons_of_mem he
    have hs : HttpServer.addParam params (k ++ chr '=' :: v) = _ :=
      addParam_assignment params (p := (k, v)) hk
    rw [hs]
    exact h.insert ⟨fun hh => hp (List.mem_append_left _ hh), hk⟩
      fun hh => hp (List.mem_append_right _ (List.mem_cons_of_mem _ hh))
  · rw [addParam_bare params he]
    exact h.insert ⟨hp, he⟩ hp

theorem Separable.foldl_addParam {params : HttpParamMap} (h : Separable params)
    {pieces : List (List Byte)} (hp : ∀ piece ∈ pieces, chr '&' ∉ piece) :
    Separable (pieces.foldl HttpServer.addParam params) := by
  induction pieces generalizing params with
  | nil => exact h
  | cons piece pieces ih =>
    obtain ⟨hpiece, hpieces⟩ := List.forall_mem_cons.mp hp
    exact ih (h.addParam hpiece) hpieces

theorem getHttpParams_bare {uri : List Byte} (h : chr '?' ∉ uri) : getHttpParams uri = (uri, ∅) := by
  unfold getHttpParams
  rw [findFirstOf_char_none h]

theorem getHttpParams_query {path : List Byte} (query : List Byte) (h : chr '?' ∉ path) :
    getHttpParams (path ++ chr '?' :: query) =
      (path, (StringUtil.split query [chr '&'] []).foldl addParam ∅) := by
  unfold getHttpParams
  rw [findFirstOf_char_append query h]
  simp [substr]

/-- No separator is left in what `GetHttpParams` returns. -/
theorem getHttpParams_separable (uri : List Byte) :
    chr '?' ∉ (getHttpParams uri).1 ∧ Separable (getHttpParams uri).2 := by
  by_cases hq : chr '?' ∈ uri
  · obtain ⟨path, query, rfl, hpath⟩ := List.eq_append_cons_of_mem hq
    rw [getHttpParams_query query hpath]
    exact ⟨hpath, separable_empty.foldl_addParam fun _ hp => StringUtil.not_mem_of_mem_split hp⟩
  · rw [getHttpParams_bare hq]
    exact ⟨hq, separable_empty⟩

theorem foldl_addParam_assignment {ps : List (List Byte × List Byte)} (m : HttpParamMap)
    (h : ∀ p ∈ ps, chr '=' ∉ p.1) :
    (ps.map assignment).foldl addParam m = ps.foldl (fun m p => m.insert p.1 p.2) m := by
  induction ps generalizing m with
  | nil => rfl
  | cons p ps ih =>
    obtain ⟨hp, hps⟩ := List.forall_mem_cons.mp h
    rw [List.map_cons, List.foldl_cons, List.foldl_cons, addParam_assignment m hp, ih _ hps]

theorem chr_mem_assignment {p : List Byte × List Byte} :
    chr '&' ∈ assignment p ↔ chr '&' ∈ p.1 ∨ chr '&' ∈ p.2 := by
  have hne : chr '&' ≠ chr '=' := by decide
  simp [assignment, hne]

theorem Separable.toList {params : HttpParamMap} (hs : Separable params)
    {p : List Byte × List Byte} (hp : p ∈ params.toList) :
    chr '=' ∉ p.1 ∧ chr '&' ∉ assignment p := by
  obtain ⟨⟨hamp, heq⟩, hv⟩ := hs _ _ (Std.ExtTreeMap.mem_toList_iff_getElem?_eq_some.mp hp)
  exact ⟨heq, fun hh => (chr_mem_assignment.mp hh).elim hamp hv⟩

theorem getHttpParams_getHttpURI {path : List Byte} {params : HttpParamMap}
    (hpath : chr '?' ∉ path) (hs : Separable params) (hsize : params.size ≤ 2 ^ 31) :
    getHttpParams (getHttpURI path params) = (path, params) := by
  by_cases he : params = ∅
  · rw [he]
    exact getHttpParams_bare hpath
  · have hne : params.toList.map assignment ≠ [] := by simpa using he
    have hamp : ∀ l ∈ params.toList.map assignment, chr '&' ∉ l := by
      intro l hl
      obtain ⟨p, hp, rfl⟩ := List.mem_map.mp hl
      exact (hs.toList hp).2
    have hquery : [chr '&'].intercalate (params.toList.map assignment) ≠ [] := by
      cases hl : params.toList with
      | nil => exact absurd (Std.ExtTreeMap.toList_eq_nil_iff.mp hl) he
      | cons p ps =>
        rw [List.map_cons, intercalate_cons_flatMap]
        simp [assignment]
    have hlen : params.toList.length ≤ 2 ^ 31 := by rwa [Std.ExtTreeMap.length_toList]
    rw [getHttpURI_eq path he, getHttpParams_query _ hpath, written_eq hlen,
      StringUtil.split_singleton _ _ hquery, List.nil_append, List.splitOn_intercalate _ hamp hne,
      foldl_addParam_assignment _ fun p hp => (hs.toList hp).1, foldl_insert_toList]

/-- Where `n` has wrapped, two parameters stand together. -/
theorem count_written_wrapped {ps : List (List Byte × List Byte)} (h : ∀ p ∈ ps, chr '&' ∉ assignment p)
    (hlen : 2 ^ 31 < ps.length) : (written 0 ps).count (chr '&') + 1 < ps.length := by
  obtain ⟨xs, ys, rfl, hxs⟩ : ∃ xs ys, ps = xs ++ ys ∧ xs.length = 2 ^ 31 :=
    ⟨ps.take (2 ^ 31), ps.drop (2 ^ 31), (List.take_append_drop _ ps).symm,
      List.length_take_of_le (Nat.le_of_lt hlen)⟩
  rw [List.length_append] at hlen ⊢
  have hwrapped : counted 0 xs = -2 ^ 31 := by
    have hcounted := counted_eq 0 xs
    have hzero : wrap32 (0 : Nat) = 0 := wrap32_eq (by omega) (by omega)
    rw [hzero, hxs] at hcounted
    rw [hcounted]
    unfold wrap32
    omega
  have hfirst : (written 0 xs).count (chr '&') < xs.length :=
    count_written_lt (fun p hp => h p (List.mem_append_left ys hp)) (Int.lt_irrefl 0)
      (List.ne_nil_of_length_pos (by omega))
  have hsecond : (written (-2 ^ 31) ys).count (chr '&') < ys.length :=
    count_written_lt (fun p hp => h p (List.mem_append_right xs hp)) (by omega)
      (List.ne_nil_of_length_pos (by omega))
  rw [written_append, hwrapped, List.count_append]
  omega

theorem size_foldl_addParam_le (pieces : List (List Byte)) (m : HttpParamMap) :
    (pieces.foldl addParam m).size ≤ m.size + pieces.length := by
  induction pieces generalizing m with
  | nil => exact Nat.le_refl _
  | cons piece pieces ih =>
    have hone : (addParam m piece).size ≤ m.size + 1 := by
      unfold addParam
      split <;> exact Std.ExtTreeMap.size_insert_le
    have hrest := ih (addParam m piece)
    rw [List.foldl_cons, List.length_cons]
    omega

/-- More than 2^31 parameters are never read back. -/
theorem size_le_of_roundtrip {path : List Byte} {params : HttpParamMap}
    (h : getHttpParams (getHttpURI path params) = (path, params)) : params.size ≤ 2 ^ 31 := by
  obtain ⟨hpath, hs⟩ := getHttpParams_separable (getHttpURI path params)
  rw [h] at hpath hs
  by_contra hsize
  have he : params ≠ ∅ := by
    rintro rfl
    exact hsize (by simp)
  rw [getHttpURI_eq path he, getHttpParams_query _ hpath] at h
  dsimp only at hs hsize
  have hmap := (Prod.mk.inj h).2
  have hsmall := size_foldl_addParam_le (StringUtil.split (written 0 params.toList) [chr '&'] []) ∅
  have hpieces := StringUtil.length_split_le (written 0 params.toList) (chr '&')
  have hlen : params.toList.length = params.size := Std.ExtTreeMap.length_toList
  have hcount := count_written_wrapped (fun p hp => (hs.toList hp).2) (by omega)
  rw [hmap, Std.ExtTreeMap.size_empty] at hsmall
  omega

/-- The URI codec loses nothing exactly when no separator stands where it would be taken for one
and the `int` that counts the parameters does not wrap; of what `GetHttpParams` has produced only the
count can be too large. -/
theorem httpParams_roundtrip_iff :
    (∀ (path : List Byte) (params : HttpParamMap),
      getHttpParams (getHttpURI path params) = (path, params) ↔
        chr '?' ∉ path ∧ (∀ k ∈ params, chr '&' ∉ k ∧ chr '=' ∉ k) ∧
          (∀ k v : List Byte, params[k]? = some v → chr '&' ∉ v) ∧ params.size ≤ 2 ^ 31) ∧
      ∀ uri : List Byte,
        getHttpParams (getHttpURI (getHttpParams uri).1 (getHttpParams uri).2) =
          getHttpParams uri ↔ (getHttpParams uri).2.size ≤ 2 ^ 31 := by
  refine ⟨fun path params => ⟨fun h => ?_, fun ⟨hpath, hkey, hvalue, hsize⟩ => ?_⟩,
    fun uri => ⟨size_le_of_roundtrip, fun hsize => ?_⟩⟩
  · obtain ⟨hpath, hs⟩ := getHttpParams_separable (getHttpURI path params)
    rw [h] at hpath hs
    refine ⟨hpath, fun k hk => ?_, fun k v hv => (hs k v hv).2, size_le_of_roundtrip h⟩
    exact (hs k _ (Std.ExtTreeMap.getElem?_eq_some_getElem hk)).1
  · refine getHttpParams_getHttpURI hpath (fun k v hv => ⟨hkey k ?_, hvalue k v hv⟩) hsize
    exact Std.ExtTreeMap.mem_iff_isSome_getElem?.mpr (by rw [hv]; rfl)
  · obtain ⟨hpath, hs⟩ := getHttpParams_separable uri
    exact getHttpParams_getHttpURI hpath hs hsize

/-- The numbers below `n` as keys, with empty values. -/
def numbered (n : Nat) : HttpParamMap := .ofList ((List.range n).map fun i => (natText i, [])) _

theorem numbered_distinct (n : Nat) : ((List.range n).map fun i => (natText i, ([] : List Byte))).Pairwise
    fun a b => ¬ compare a.1 b.1 = .eq := by
  rw [List.pairwise_map]
  refine List.nodup_range.imp fun {i j} hij he => hij ?_
  exact natText_injective (Std.LawfulEqCmp.eq_of_compare he)

theorem numbered_size (n : Nat) : (numbered n).size = n := by
  rw [numbered, Std.ExtTreeMap.size_ofList (numbered_distinct n), List.length_map, List.length_range]

theorem numbered_separable (n : Nat) : Separable (numbered n) := by
  intro k v hk
  have hmem : k ∈ numbered n := Std.ExtTreeMap.mem_iff_isSome_getElem?.mpr (Option.isSome_of_eq_some hk)
  rw [numbered, Std.ExtTreeMap.mem_ofList, List.contains_eq_mem, decide_eq_true_eq, List.map_map] at hmem
  obtain ⟨i, hi, rfl⟩ := List.mem_map.mp hmem
  have hvalue : (numbered n)[natText i]? = some [] :=
    Std.ExtTreeMap.getElem?_ofList_of_mem Std.ReflCmp.compare_self (numbered_distinct n)
      (List.mem_map_of_mem hi)
  have hdigits {c : Byte} (hc : c ∈ natText i) : 48 ≤ c.toNat ∧ c.toNat < 58 := natText_bounds hc
  rw [Function.comp_apply, hvalue] at hk
  cases hk
  refine ⟨⟨fun hc => ?_, fun hc => ?_⟩, by simp⟩
  · exact absurd (hdigits hc).1 (by decide)
  · exact absurd (hdigits hc).2 (by decide)

/-- One parameter more than an `int` counts: nothing separates it from the one before it. -/
theorem numbered_not_roundtrip : chr '?' ∉ text "/" ∧
    (∀ k ∈ numbered (2 ^ 31 + 1), chr '&' ∉ k ∧ chr '=' ∉ k) ∧
    (∀ k v : List Byte, (numbered (2 ^ 31 + 1))[k]? = some v → chr '&' ∉ v) ∧
    getHttpParams (getHttpURI (text "/") (numbered (2 ^ 31 + 1))) ≠ (text "/", numbered (2 ^ 31 + 1)) := by
  have hs := numbered_separable (2 ^ 31 + 1)
  refine ⟨by decide, fun k hk => ?_, fun k v hv => (hs k v hv).2, fun h => ?_⟩
  · exact (hs k _ (Std.ExtTreeMap.getElem?_eq_some_getElem hk)).1
  · have hsize := size_le_of_roundtrip h
    rw [numbered_size] at hsize
    omega

end HttpServer

end CppTry
