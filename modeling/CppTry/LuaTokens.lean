import CppTry.Decimal
import CppTry.LuaLexer

namespace CppTry

namespace Lua

/-- A name that is no reserved word. -/
def isName (s : List Byte) : Bool :=
  s.head?.any isAlpha && s.all isAlnum && !reservedWords.contains s

theorem isSpace_of_isAlpha {c : Byte} (h : isAlpha c = true) : isSpace c = false := by
  have hc := forall_byte (p := fun c => !isAlpha c || !isSpace c) (by decide +kernel) c
  simpa [h] using hc

theorem not_alpha_of_isDigit {c : Byte} (h : isDigit c = true) :
    isSpace c = false ∧ isAlpha c = false := by
  have hc := forall_byte (p := fun c => !isDigit c || !isSpace c && !isAlpha c)
    (by decide +kernel) c
  simpa [h] using hc

section
variable {s rest : List Byte}

theorem takeWhile_stops {p : Byte → Bool} {n : List Byte} (hn : ∀ c ∈ n, p c = true)
    (hr : rest.head?.any p = false) :
    (n ++ rest).takeWhile p = n ∧ (n ++ rest).dropWhile p = rest := by
  have ht : rest.takeWhile p = [] ∧ rest.dropWhile p = rest := by
    cases rest with
    | nil => simp
    | cons c rest =>
      have hc : p c = false := by simpa using hr
      simp [hc]
  rw [List.takeWhile_append_of_pos hn, List.dropWhile_append_of_pos hn, ht.1, ht.2,
    List.append_nil]
  exact ⟨rfl, rfl⟩

theorem lex_of_skip (h : next s = .skip rest) (hl : rest.length < s.length) : lex s = lex rest := by
  rw [lex, h]
  exact if_pos hl

theorem lex_of_token {t : Token} (h : next s = .token t rest) (hl : rest.length < s.length) :
    lex s = (lex rest).map (t :: ·) := by
  rw [lex, h]
  exact if_pos hl

theorem lex_space (s : List Byte) : lex (chr ' ' :: s) = lex s :=
  lex_of_skip rfl (Nat.lt_succ_self _)

theorem lex_symbol {c : Byte} (h : next (c :: s) = readSymbol c s)
    (hs : ∀ d ∈ s.head?, d ∉ secondOf c) : lex (c :: s) = (lex s).map (.symbol [c] :: ·) := by
  refine lex_of_token (h.trans ?_) (Nat.lt_succ_self _)
  cases s with
  | nil => rfl
  | cons d s => exact if_neg (hs d rfl)

theorem lex_open (s : List Byte) : lex (chr '{' :: s) = (lex s).map (.symbol [chr '{'] :: ·) :=
  lex_symbol rfl fun _ _ hd => nomatch hd

theorem lex_close (s : List Byte) : lex (chr '}' :: s) = (lex s).map (.symbol [chr '}'] :: ·) :=
  lex_symbol rfl fun _ _ hd => nomatch hd

theorem lex_comma (s : List Byte) : lex (chr ',' :: s) = (lex s).map (.symbol [chr ','] :: ·) :=
  lex_symbol rfl fun _ _ hd => nomatch hd

theorem lex_equals (h : s.head? ≠ some (chr '=')) :
    lex (chr '=' :: s) = (lex s).map (.symbol [chr '='] :: ·) := by
  refine lex_symbol rfl fun d hd he => ?_
  exact h (hd.trans (congrArg some (List.mem_singleton.mp he)))

theorem lex_minus (h : s.head? ≠ some (chr '-')) :
    lex (chr '-' :: s) = (lex s).map (.symbol [chr '-'] :: ·) := by
  refine lex_symbol ?_ fun _ _ hd => nomatch hd
  change (if (chr '-' == chr '-' && decide (s.head? = some (chr '-'))) = true then comment s.tail
    else readSymbol (chr '-') s) = _
  rw [if_neg (by simpa using h)]

theorem lex_name {n : List Byte} (hn : isName n = true) (hr : rest.head?.any isAlnum = false) :
    lex (n ++ rest) = (lex rest).map (.name n :: ·) := by
  cases n with
  | nil => simp [isName] at hn
  | cons c n =>
    simp only [isName, List.head?_cons, Option.any_some, List.all_cons, Bool.and_eq_true,
      Bool.not_eq_true', List.contains_eq_mem, decide_eq_false_iff_not, List.all_eq_true] at hn
    obtain ⟨⟨hc, _, hall⟩, hres⟩ := hn
    obtain ⟨htake, hdrop⟩ := takeWhile_stops hall hr
    have hn : next (c :: (n ++ rest)) = .token (.name (c :: n)) rest := by
      simp only [next, isSpace_of_isAlpha hc, hc, htake, hdrop, if_neg hres]
      rfl
    refine lex_of_token hn ?_
    simp only [List.length_append, List.length_cons]
    omega

/-- A string literal is all that a double quote can start. -/
theorem next_quote (s : List Byte) : next (chr '"' :: s) =
    (readString (chr '"') s).elim .error fun r => .token (.string r.1) r.2 := by
  rw [next, if_neg (by decide), if_neg (by decide), if_neg (by decide), if_pos (by decide)]
  cases readString (chr '"') s with
  | none => rfl
  | some r => rfl

theorem lex_quote (s : List Byte) : lex (chr '"' :: s) =
    (readString (chr '"') s).bind fun r => (lex r.2).map (.string r.1 :: ·) := by
  have hn := next_quote s
  cases h : readString (chr '"') s with
  | none =>
    rw [h] at hn
    rw [lex, hn]
    rfl
  | some r =>
    rw [h] at hn
    obtain ⟨content, rfl, _⟩ := readString_content h
    refine lex_of_token hn ?_
    simp only [List.length_cons, List.length_append]
    omega

theorem lex_string {value : List Byte} (h : Literal (chr '"') value) (rest : List Byte) :
    lex (chr '"' :: (value ++ chr '"' :: rest)) = (lex rest).map (.string value :: ·) := by
  rw [lex_quote, h.readString]
  rfl

/-- What ends a numeral. -/
def Stops (s : List Byte) : Prop := ∀ c ∈ s.head?, c = chr ',' ∨ c = chr '}'

theorem digitChar_digit {d : Nat} (h : d < 10) : isDigit (digitChar d) = true ∧
    digitChar d ∉ text "Ee" ∧ digitChar d ∉ text "xX" ∧ digitValue (digitChar d) = d := by
  have hall : ∀ d : Fin 10, isDigit (digitChar d) = true ∧ digitChar d ∉ text "Ee" ∧
      digitChar d ∉ text "xX" ∧ digitValue (digitChar d) = d := by decide
  exact hall ⟨d, h⟩

theorem numeralRun_digits {ds : List Nat} (hd : ∀ d ∈ ds, d < 10) (hr : Stops rest) :
    numeralRun (text "Ee") .body (ds.map digitChar ++ rest) = ds.map digitChar := by
  induction ds with
  | nil =>
    cases rest with
    | nil => rfl
    | cons c rest =>
      rcases hr c rfl with rfl | rfl
      · rfl
      · rfl
  | cons d ds ih =>
    obtain ⟨hlt, hd⟩ := List.forall_mem_cons.mp hd
    obtain ⟨hdigit, he, _, _⟩ := digitChar_digit hlt
    rw [List.map_cons, List.cons_append, numeralRun, if_neg he, if_pos (by simp [isXDigit, hdigit]),
      ih hd]

theorem numeralText_digits {ds : List Nat} (hd : ∀ d ∈ ds, d < 10) (hne : ds ≠ []) (hr : Stops rest) :
    numeralText (ds.map digitChar ++ rest) = ds.map digitChar := by
  cases ds with
  | nil => exact absurd rfl hne
  | cons d ds =>
    obtain ⟨_, hd⟩ := List.forall_mem_cons.mp hd
    have hrun := numeralRun_digits hd hr
    rw [List.map_cons, List.cons_append]
    cases hs : ds.map digitChar ++ rest with
    | nil =>
      rw [(List.append_eq_nil_iff.mp hs).1]
      rfl
    | cons x s =>
      have hx : x ∉ text "xX" := by
        cases ds with
        | nil =>
          have hhead : rest.head? = some x := congrArg List.head? hs
          rcases hr x hhead with rfl | rfl
          · decide
          · decide
        | cons e ds =>
          cases hs
          exact (digitChar_digit (hd e (by simp))).2.2.1
      rw [hs] at hrun
      rw [numeralText, if_neg (by simp [hx]), hrun]

theorem numberOf_digits {ds : List Nat} (hd : ∀ d ∈ ds, d < 10) :
    numberOf 10 (ds.map digitChar) = ds.foldl (fun m d => 10 * m + d) 0 := by
  rw [numberOf, List.foldl_map]
  refine List.foldl_ext _ _ 0 fun m d hm => ?_
  rw [(digitChar_digit (hd d hm)).2.2.2]

theorem isNumeral_digits {ds : List Nat} (hd : ∀ d ∈ ds, d < 10) (hne : ds ≠ []) :
    isNumeral (ds.map digitChar) = true := by
  have hall : ∀ c ∈ ds.map digitChar, isDigit c = true := by
    intro c hc
    obtain ⟨d, hm, rfl⟩ := List.mem_map.mp hc
    exact (digitChar_digit (hd d hm)).1
  have hdrop : (ds.map digitChar).dropWhile isDigit = [] := by
    have hs : (ds.map digitChar ++ []).dropWhile isDigit = [] := (takeWhile_stops hall rfl).2
    rwa [List.append_nil] at hs
  have hdec : isDecimal (ds.map digitChar) = true := by
    unfold isDecimal dropMantissa
    rw [hdrop]
    simp [hne, isExponent]
  cases ds with
  | nil => exact hdec
  | cons d ds =>
    cases ds with
    | nil => exact hdec
    | cons e ds =>
      have he := (digitChar_digit (hd e (by simp))).2.2.1
      exact (if_neg (by simp [he])).trans hdec

/-- The token of a decimal number: an integer if it fits. -/
def natToken (n : Nat) : Token := if n < 2 ^ 63 then .int n else .number (natText n)

theorem numeralToken_natText {n : Nat} {ds : List Nat} (hd : ∀ d ∈ ds, d < 10) (hne : ds ≠ [])
    (ht : natText n = ds.map digitChar) (hv : ds.foldl (fun m d => 10 * m + d) 0 = n) :
    numeralToken (ds.map digitChar) = some (natToken n) := by
  have hall : (ds.map digitChar).all isDigit = true := by
    rw [List.all_eq_true]
    intro c hc
    obtain ⟨d, hm, rfl⟩ := List.mem_map.mp hc
    exact (digitChar_digit (hd d hm)).1
  unfold numeralToken natToken
  rw [hall, numberOf_digits hd, hv, isNumeral_digits hd hne, ht, Bool.true_and]
  by_cases hn : n < 2 ^ 63
  · rw [if_pos (decide_eq_true hn), if_pos hn]
  · rw [if_neg (by rw [decide_eq_false hn]; exact Bool.false_ne_true), if_neg hn, if_pos rfl]

theorem lex_natText (n : Nat) (hr : Stops rest) :
    lex (natText n ++ rest) = (lex rest).map (natToken n :: ·) := by
  obtain ⟨ds, hne, hd, ht, hv⟩ := natText_digits n
  have hnum := numeralText_digits hd hne hr
  have htok := numeralToken_natText hd hne ht hv
  have hstep : readNumeral [] (ds.map digitChar ++ rest) = .token (natToken n) rest := by
    unfold readNumeral
    rw [hnum, List.nil_append, htok, List.drop_left]
  rw [ht]
  cases ds with
  | nil => exact absurd rfl hne
  | cons d ds =>
    obtain ⟨hspace, halpha⟩ := not_alpha_of_isDigit (digitChar_digit (hd d (by simp))).1
    have hnext : next (digitChar d :: (ds.map digitChar ++ rest)) = .token (natToken n) rest := by
      rw [← hstep]
      simp only [next, hspace, halpha, (digitChar_digit (hd d (by simp))).1]
      rfl
    refine lex_of_token hnext ?_
    simp only [List.map_cons, List.cons_append, List.length_cons, List.length_append]
    omega

theorem readNumeral_ne_name (point s n : List Byte) :
    readNumeral point s ≠ .token (.name n) rest := by
  intro h
  unfold readNumeral at h
  split at h
  next t ht =>
    cases h
    unfold numeralToken at ht
    split_ifs at ht <;> cases ht
  next => cases h

theorem comment_ne_token (s : List Byte) (t : Token) : comment s ≠ .token t rest := by
  intro h
  unfold comment at h
  split at h
  next =>
    split at h
    next =>
      split at h
      next => cases h
      next => cases h
    next => cases h
  next => cases h

theorem readSymbol_ne_name (c : Byte) (s n : List Byte) :
    readSymbol c s ≠ .token (.name n) rest := by
  intro h
  unfold readSymbol at h
  split at h
  next => cases h
  next => split_ifs at h <;> cases h

theorem isName_of_next {n : List Byte} (h : next s = .token (.name n) rest) : isName n = true := by
  unfold next at h
  split at h
  next => cases h
  next c s =>
    split_ifs at h with hspace halpha hdigit hquote hcomment hpoint hbracket
    · dsimp only at h
      split_ifs at h with hres
      · cases h
      · cases h
        have hc : isAlnum c = true := by simp [isAlnum, halpha]
        simp [isName, halpha, hres, hc, List.all_takeWhile]
    · exact absurd h (readNumeral_ne_name _ _ _)
    · split at h
      next => cases h
      next => cases h
    · exact absurd h (comment_ne_token _ _)
    · exact absurd h (readNumeral_ne_name _ _ _)
    · split at h
      next =>
        split at h
        next => cases h
        next => cases h
      next => cases h
    · exact absurd h (readSymbol_ne_name _ _ _)

theorem isName_of_lex {ts : List Token} {n : List Byte} (h : lex s = some ts)
    (hn : Token.name n ∈ ts) : isName n = true := by
  fun_induction lex s generalizing ts with
  | case1 s hs =>
    cases h
    simp at hn
  | case2 => cases h
  | case3 s rest hs hl ih => exact ih h hn
  | case4 => cases h
  | case5 s t rest hs hl ih =>
    obtain ⟨ts, hr, rfl⟩ := Option.map_eq_some_iff.mp h
    rcases List.mem_cons.mp hn with rfl | hn
    · exact isName_of_next hs
    · exact ih hr hn
  | case6 => cases h

end

end Lua

end CppTry
