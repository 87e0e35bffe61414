import CppTry.HttpParams
import CppTry.LuaWriter

namespace CppTry

open Lua

namespace HttpTest

/-- `time` is what `GetCurrentSecond` has returned. -/
def onTestRequest (build : Build) (params : HttpParamMap) (time : Int64) (res : HttpResponse) :
    Option HttpResponse := do
  let p := params.getD (text "p") []
  let res := res.beginLuaTable
  let res ← res.addLuaKeyValue (some (text "p")) p
  let res ← res.addLuaKeyValueInt64 build (some (text "time")) time
  res.endLuaTable

end HttpTest

namespace Lua

/-- A literal that comes back as it was written, with no other quote behind it, has nothing in it
that means something else. -/
theorem literal_of_readString {value tail rest : List Byte}
    (h : readString (chr '"') (value ++ chr '"' :: tail) = some (value, rest))
    (ht : chr '"' ∉ tail) : Literal (chr '"') value := by
  obtain ⟨content, he, hle, hsame⟩ := readString_content h
  rcases List.append_eq_append_iff.mp he with ⟨more, rfl, hm⟩ | ⟨more, rfl, _⟩
  · cases more with
    | nil =>
      rw [List.append_nil] at hsame
      exact (hsame rfl).2
    | cons c more =>
      obtain ⟨_, hm⟩ := List.cons.inj hm
      exact absurd (by rw [hm]; simp) ht
  · rw [List.length_append] at hle
    have hnil : more = [] := List.length_eq_zero_iff.mp (by omega)
    rw [hnil, List.append_nil] at hsame ⊢
    exact (hsame rfl).2

/-- The separator before a field, as a token. -/
def commaTokens (n : Int) : List Token := if n > 0 then [symbol ','] else []

theorem lex_separator (n : Int) (s : List Byte) :
    lex (HttpResponse.separator n ++ s) = (lex s).map (commaTokens n ++ ·) := by
  unfold HttpResponse.separator commaTokens
  split_ifs
  · change lex (chr ',' :: chr ' ' :: s) = _
    rw [lex_comma, lex_space]
    rfl
  · change lex s = (lex s).map id
    rw [Option.map_id]
    rfl

theorem lex_nil : lex [] = some [] := by
  rw [lex]
  rfl

end Lua

namespace HttpResponse

/-- The appended text is one field with this key and this string exactly when the key is a name, if
there is one, and no byte of the string needs an escape. -/
theorem addLuaKeyValue_field_iff {value : List Byte} (hv : 0 ∉ value) (key : Option (List Byte))
    (buff : List Byte) (n : Int) (counts : List Int) :
    (∃ res' added, addLuaKeyValue ⟨buff, n :: counts⟩ key value = some res' ∧
        res'.resBuff = buff ++ added ∧
        lex added = some (commaTokens n ++ (keyTokens key ++ [.string value]))) ↔
      (∀ k ∈ key, isName k = true) ∧ Literal (chr '"') value := by
  have hadd : addLuaKeyValue ⟨buff, n :: counts⟩ key value =
      some ⟨buff ++ (separator n ++ (keyText (key.map cString) ++
        (chr '"' :: (value ++ [chr '"'])))), wrap32 (n + 1) :: counts⟩ := by
    rw [addLuaKeyValue, addLuaKey_text, cString_eq hv]
    simp [addText]
  have hlex : (∀ k ∈ key, isName k = true) → lex (separator n ++ (keyText (key.map cString) ++
      (chr '"' :: (value ++ [chr '"'])))) =
      (readString (chr '"') (value ++ [chr '"'])).bind fun r =>
        (lex r.2).map fun ts => commaTokens n ++ (keyTokens key ++ .string r.1 :: ts) := by
    intro hk
    rw [lex_separator, map_cString hk, lex_keyText hk (by rw [List.head?_cons]; decide),
      lex_quote]
    cases readString (chr '"') (value ++ [chr '"']) with
    | none => rfl
    | some r => simp [Function.comp_def]
  constructor
  · rintro ⟨res', added, hres, hbuff, htokens⟩
    rw [hadd] at hres
    cases hres
    rw [← List.append_cancel_left hbuff] at htokens
    have hk : ∀ k ∈ key, isName k = true := by
      rintro k rfl
      exact isName_of_lex htokens (by simp [keyTokens])
    refine ⟨hk, ?_⟩
    rw [hlex hk] at htokens
    obtain ⟨⟨value', rest⟩, hread, hr⟩ := Option.bind_eq_some_iff.mp htokens
    obtain ⟨ts, _, hts⟩ := Option.map_eq_some_iff.mp hr
    have hsame := List.append_cancel_left (List.append_cancel_left hts)
    cases hsame
    exact literal_of_readString hread (by simp)
  · rintro ⟨hk, hlit⟩
    refine ⟨_, _, hadd, rfl, ?_⟩
    rw [hlex hk, hlit.readString []]
    change (lex []).map _ = _
    rw [lex_nil]
    rfl

end HttpResponse

namespace HttpTest

/-- The fields `p` and `time`. -/
def replyFields (value : List Byte) (time : Value) : Fields :=
  .cons (some (text "p")) (.string value) (.cons (some (text "time")) time .nil)

/-- The reply behind the quote that opens the value. -/
def replyTail (build : Build) (time : Int64) : List Byte :=
  text ", " ++ (keyText (some (text "time")) ++ (HttpResponse.formatI64d build time ++ [chr '}']))

theorem onTestRequest_eq (build : Build) {params : HttpParamMap} (time : Int64) {value : List Byte}
    (hp : params.getD (text "p") [] = value) (hv : 0 ∉ value) :
    onTestRequest build params time .new = some ⟨chr '{' :: (keyText (some (text "p")) ++
      (chr '"' :: (value ++ chr '"' :: replyTail build time))), []⟩ := by
  have hname : ∀ k ∈ some (text "p"), isName k = true := by decide
  have hname' : ∀ k ∈ some (text "time"), isName k = true := by decide
  unfold onTestRequest
  rw [hp]
  change ((HttpResponse.addLuaKey ⟨[chr '{'], 0 :: []⟩ (some (text "p"))).bind fun res =>
    some (res.addText (chr '"' :: HttpResponse.cString value ++ [chr '"']))).bind _ = _
  rw [HttpResponse.addLuaKey_eq _ _ _ hname, HttpResponse.cString_eq hv]
  change ((HttpResponse.addLuaKey ⟨_, 1 :: []⟩ (some (text "time"))).bind fun res =>
    some (res.addText (HttpResponse.formatI64d build time))).bind HttpResponse.endLuaTable = _
  rw [HttpResponse.addLuaKey_eq _ _ _ hname']
  simp [HttpResponse.addText, HttpResponse.endLuaTable, HttpResponse.separator, replyTail]

theorem lex_spaces (n : Nat) (s : List Byte) : lex (List.replicate n (chr ' ') ++ s) = lex s := by
  induction n with
  | zero => rfl
  | succ n ih => rw [List.replicate_succ, List.cons_append, lex_space, ih]

theorem lex_formatI64d (build : Build) (time : Int64) {rest : List Byte} (hr : Stops rest) :
    ∃ t : Value, lex (HttpResponse.formatI64d build time ++ rest) =
      (lex rest).map (t.tokens ++ ·) := by
  cases build with
  | win => exact ⟨_, lex_decimal _ hr⟩
  | posix =>
    refine ⟨.ofDecimal time.toInt32.toInt, ?_⟩
    unfold HttpResponse.formatI64d
    dsimp only
    rw [List.append_assoc, lex_spaces]
    exact lex_decimal _ hr

theorem decimal_mem {n : Int} {c : Byte} (h : c ∈ decimal n) : c = chr '-' ∨ isDigit c = true := by
  have hdigit : c ∈ natText n.natAbs → isDigit c = true := by
    intro hc
    obtain ⟨ds, _, hd, ht, _⟩ := natText_digits n.natAbs
    rw [ht] at hc
    obtain ⟨d, hm, rfl⟩ := List.mem_map.mp hc
    exact (digitChar_digit (hd d hm)).1
  unfold decimal at h
  split_ifs at h
  · rcases List.mem_cons.mp h with h | h
    · exact Or.inl h
    · exact Or.inr (hdigit h)
  · exact Or.inr (hdigit h)

theorem formatI64d_mem {build : Build} {time : Int64} {c : Byte}
    (h : c ∈ HttpResponse.formatI64d build time) :
    c = chr ' ' ∨ c = chr '-' ∨ isDigit c = true := by
  cases build with
  | win => exact Or.inr (decimal_mem h)
  | posix =>
    rcases List.mem_append.mp h with h | h
    · exact Or.inl (List.eq_of_mem_replicate h)
    · exact Or.inr (decimal_mem h)

theorem formatI64d_not_mem {build : Build} {time : Int64} {c : Byte}
    (h : c ≠ chr ' ' ∧ c ≠ chr '-' ∧ isDigit c = false) :
    c ∉ HttpResponse.formatI64d build time := by
  intro hc
  obtain ⟨hs, hm, hd⟩ := h
  rcases formatI64d_mem hc with rfl | rfl | hc
  · exact hs rfl
  · exact hm rfl
  · rw [hd] at hc
    cases hc

theorem lex_replyTail (build : Build) (time : Int64) :
    ∃ t : Value, lex (replyTail build time) =
      some (symbol ',' :: .name (text "time") :: symbol '=' :: (t.tokens ++ [symbol '}'])) := by
  have hstops : Stops [chr '}'] := by simp [Stops]
  obtain ⟨t, ht⟩ := lex_formatI64d build time hstops
  have hhead : (HttpResponse.formatI64d build time ++ [chr '}']).head? ≠ some (chr '=') := by
    intro hh
    have hm := List.mem_of_mem_head? hh
    rcases List.mem_append.mp hm with hm | hm
    · exact formatI64d_not_mem (by decide) hm
    · exact absurd hm (by decide)
  refine ⟨t, ?_⟩
  change lex (chr ',' :: chr ' ' :: (keyText (some (text "time")) ++ _)) = _
  rw [lex_comma, lex_space, lex_keyText (by decide) hhead, ht, lex_close, lex_nil]
  rfl

theorem quote_not_mem_replyTail (build : Build) (time : Int64) :
    chr '"' ∉ replyTail build time := by
  intro h
  rcases List.mem_append.mp h with h | h
  · exact absurd h (by decide)
  · rcases List.mem_append.mp h with h | h
    · exact absurd h (by decide)
    · rcases List.mem_append.mp h with h | h
      · exact formatI64d_not_mem (by decide) h
      · exact absurd h (by decide)

/-- The reply is a table of `p` and `time` with the request's parameter exactly when no byte of the
parameter needs an escape. -/
theorem onTestRequest_iff (build : Build) {params : HttpParamMap} (time : Int64)
    {value : List Byte} (hp : params.getD (text "p") [] = value) (hv : 0 ∉ value) :
    (∃ res' t, onTestRequest build params time .new = some res' ∧
        parse res'.resBuff = some (.table (replyFields value t))) ↔ Literal (chr '"') value := by
  have hreply := onTestRequest_eq build time hp hv
  obtain ⟨t, ht⟩ := lex_replyTail build time
  have hlex : lex (chr '{' :: (keyText (some (text "p")) ++
      (chr '"' :: (value ++ chr '"' :: replyTail build time)))) =
      (readString (chr '"') (value ++ chr '"' :: replyTail build time)).bind fun r =>
        (lex r.2).map fun ts => symbol '{' :: .name (text "p") :: symbol '=' :: .string r.1 :: ts := by
    rw [lex_open, lex_keyText (by decide) (by rw [List.head?_cons]; decide), lex_quote]
    cases readString (chr '"') (value ++ chr '"' :: replyTail build time) with
    | none => rfl
    | some r => simp [Function.comp_def, keyTokens]
  constructor
  · rintro ⟨res', t', hres, hparse⟩
    rw [hreply] at hres
    cases hres
    obtain ⟨ts, hts⟩ := lex_of_parse hparse
    have hbind := hts
    rw [hlex] at hbind
    obtain ⟨r, hread, hr⟩ := Option.bind_eq_some_iff.mp hbind
    obtain ⟨_, _, rfl⟩ := Option.map_eq_some_iff.mp hr
    have hsame := parse_first hts hparse
    cases hsame
    exact literal_of_readString hread (quote_not_mem_replyTail build time)
  · intro hlit
    refine ⟨_, t, hreply, parse_of_lex ?_⟩
    rw [hlex, hlit.readString, Option.bind_some]
    dsimp only
    rw [ht]
    simp [Value.tokens, Fields.tokens, replyFields, Fields.comma, Fields.isNil, keyTokens]

/-- A string stays within its quotes, in any field and in the reply of `OnTestRequest`, exactly when
no byte of it needs an escape; the key has to be a name. -/
theorem reply_contained_iff {value : List Byte} (hv : 0 ∉ value) :
    (∀ (key : Option (List Byte)) (buff : List Byte) (n : Int) (counts : List Int),
      (∃ res' added, HttpResponse.addLuaKeyValue ⟨buff, n :: counts⟩ key value = some res' ∧
          res'.resBuff = buff ++ added ∧
          lex added = some (commaTokens n ++ (keyTokens key ++ [.string value]))) ↔
        (∀ k ∈ key, isName k = true) ∧ Literal (chr '"') value) ∧
      ∀ (build : Build) (params : HttpParamMap) (time : Int64),
        params.getD (text "p") [] = value →
        ((∃ res' t, onTestRequest build params time .new = some res' ∧
          parse res'.resBuff = some (.table (replyFields value t))) ↔ Literal (chr '"') value) :=
  ⟨HttpResponse.addLuaKeyValue_field_iff hv, fun build _ time hp => onTestRequest_iff build time hp hv⟩

theorem plain_reply : ∃ res' t,
    onTestRequest .win ((∅ : HttpParamMap).insert (text "p") (text "a b")) 5 .new = some res' ∧
      parse res'.resBuff = some (.table (replyFields (text "a b") t)) :=
  ((reply_contained_iff (by decide)).2 .win _ 5 Std.ExtTreeMap.getD_insert_self).mpr (by decide)

/-- A value that ends its literal and starts a field of its own. -/
def injection : List Byte := text "a\",admin=\"1"

/-- What a client finds in the reply to the injection. -/
def injectedFields (time : Value) : Fields :=
  .cons (some (text "p")) (.string (text "a")) (.cons (some (text "admin")) (.string (text "1"))
    (.cons (some (text "time")) time .nil))

theorem parse_injection (build : Build) (time : Int64) :
    ∃ t : Value, parse (chr '{' :: (keyText (some (text "p")) ++
      (chr '"' :: (injection ++ chr '"' :: replyTail build time)))) =
        some (.table (injectedFields t)) := by
  obtain ⟨t, ht⟩ := lex_replyTail build time
  have hp : ∀ k ∈ some (text "p"), isName k = true := by decide
  have hadmin : ∀ k ∈ some (text "admin"), isName k = true := by decide
  have ha : Literal (chr '"') (text "a") := by decide
  have h1 : Literal (chr '"') (text "1") := by decide
  refine ⟨t, parse_of_lex ?_⟩
  -- the value, cut at its quotes
  change lex (chr '{' :: (keyText (some (text "p")) ++ (chr '"' :: (text "a" ++ chr '"' ::
    (chr ',' :: (keyText (some (text "admin")) ++ (chr '"' :: (text "1" ++ chr '"' ::
      replyTail build time)))))))) = _
  rw [lex_open, lex_keyText hp (by rw [List.head?_cons]; decide), lex_string ha, lex_comma,
    lex_keyText hadmin (by rw [List.head?_cons]; decide), lex_string h1, ht]
  simp [Value.tokens, Fields.tokens, injectedFields, Fields.comma, Fields.isNil, keyTokens]

theorem getHttpParams_injection :
    (HttpServer.getHttpParams (text "/http_test?p=a\",admin=\"1")).1 = text "/http_test" ∧
      (HttpServer.getHttpParams (text "/http_test?p=a\",admin=\"1")).2.getD (text "p") [] = injection := by
  have hpath : chr '?' ∉ text "/http_test" := by decide
  have hquery : HttpServer.getHttpParams (text "/http_test?p=a\",admin=\"1") =
      (text "/http_test", (StringUtil.split (HttpServer.assignment (text "p", injection))
        [chr '&'] []).foldl HttpServer.addParam ∅) :=
    HttpServer.getHttpParams_query _ hpath
  have hpieces : StringUtil.split (HttpServer.assignment (text "p", injection)) [chr '&'] [] =
      [HttpServer.assignment (text "p", injection)] := by
    rw [StringUtil.split_singleton _ _ (by decide)]
    rfl
  rw [hquery, hpieces, List.foldl_cons, List.foldl_nil,
    HttpServer.addParam_assignment _ (by decide)]
  exact ⟨rfl, Std.ExtTreeMap.getD_insert_self⟩

theorem injected_reply : 0 ∉ injection ∧
    (HttpServer.getHttpParams (text "/http_test?p=a\",admin=\"1")).1 = text "/http_test" ∧ ∃ res' t,
    onTestRequest .win (HttpServer.getHttpParams (text "/http_test?p=a\",admin=\"1")).2 5 .new =
        some res' ∧
      parse res'.resBuff = some (.table (injectedFields t)) ∧
      ¬ ∃ t, parse res'.resBuff = some (.table (replyFields injection t)) := by
  have hreply := onTestRequest_eq .win 5 getHttpParams_injection.2 (by decide)
  obtain ⟨t, ht⟩ := parse_injection .win 5
  refine ⟨by decide, getHttpParams_injection.1, _, t, hreply, ht, ?_⟩
  rintro ⟨t', ht'⟩
  rw [ht] at ht'
  -- the first field already differs
  have hfirst : text "a" = injection := by
    unfold injectedFields replyFields at ht'
    injection ht' with ht'
    injection ht' with ht'
    injection ht' with _ ht' _
    injection ht'
  exact absurd hfirst (by decide)

end HttpTest

end CppTry
