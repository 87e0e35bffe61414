import CppTry.XMLPrinter

namespace CppTry

/-- Every line break of one or two bytes as a line feed. -/
def normalizeNewlines : List Byte → List Byte
  | [] => []
  | [c] => [if c = chr '\r' then chr '\n' else c]
  | c :: d :: s =>
    if c = chr '\r' ∧ d = chr '\n' ∨ c = chr '\n' ∧ d = chr '\r' then
      chr '\n' :: normalizeNewlines s
    else (if c = chr '\r' then chr '\n' else c) :: normalizeNewlines (d :: s)

theorem mem_newline {c d : Byte} (h : c = if d = chr '\r' then chr '\n' else d) :
    c = d ∨ c = chr '\n' := by
  split at h
  next => exact Or.inr h
  next => exact Or.inl h

theorem normalizeNewlines_mem {s : List Byte} {c : Byte} (h : c ∈ normalizeNewlines s) :
    c ∈ s ∨ c = chr '\n' := by
  fun_induction normalizeNewlines s with
  | case1 => cases h
  | case2 d =>
    rw [List.mem_singleton] at h ⊢
    exact mem_newline h
  | case3 d e s hc ih =>
    rcases List.mem_cons.mp h with h | h
    · exact Or.inr h
    · exact (ih h).imp_left fun hm => List.mem_cons_of_mem _ (List.mem_cons_of_mem _ hm)
  | case4 d e s hc ih =>
    rcases List.mem_cons.mp h with h | h
    · rcases mem_newline h with rfl | h
      · exact Or.inl List.mem_cons_self
      · exact Or.inr h
    · exact (ih h).imp_left fun hm => List.mem_cons_of_mem _ hm

theorem return_notMem_normalizeNewlines (s : List Byte) : chr '\r' ∉ normalizeNewlines s := by
  have hne : chr '\r' ≠ chr '\n' := by decide
  have hc (c : Byte) : chr '\r' ≠ if c = chr '\r' then chr '\n' else c := by
    split
    next => exact hne
    next h => exact fun he => h he.symm
  fun_induction normalizeNewlines s with
  | case1 => simp
  | case2 c => simpa using hc c
  | case3 c d s hcd ih => exact List.not_mem_cons_of_ne_of_not_mem hne ih
  | case4 c d s hcd ih => exact List.not_mem_cons_of_ne_of_not_mem (hc c) ih

theorem normalizeNewlines_eq_self_iff (s : List Byte) :
    normalizeNewlines s = s ↔ chr '\r' ∉ s := by
  constructor
  · intro h
    rw [← h]
    exact return_notMem_normalizeNewlines s
  · intro h
    fun_induction normalizeNewlines s with
    | case1 => rfl
    | case2 c =>
      rw [List.mem_singleton] at h
      rw [if_neg fun he => h he.symm]
    | case3 c d s hcd ih =>
      rcases hcd with ⟨rfl, _⟩ | ⟨_, rfl⟩
      · simp at h
      · simp at h
    | case4 c d s hcd ih =>
      rw [if_neg fun he => List.ne_of_not_mem_cons h he.symm, ih (List.not_mem_of_not_mem_cons h)]

namespace StrPair
open XMLUtil XMLPrinter

variable {build : Build} {flags : Flags} {raw out : List Byte}

/-- A way to write bytes that the loop of `GetStr` reads back. -/
structure Decoded (build : Build) (flags : Flags) (write : Byte → List Byte) : Prop where
  newline : flags.needsNewlineNormalization = true
  kept : ∀ c, c = chr '\r' ∨ c = chr '\n' → write c = [c]
  head : ∀ c d p, d = chr '\r' ∨ d = chr '\n' → (write c ++ p).head? = some d → c = d
  plain : ∀ c, c ≠ chr '\r' → c ≠ chr '\n' → ∀ raw p out,
    getStrLoop build flags raw (write c ++ p) out = getStrLoop build flags raw p (out ++ [c])

theorem getStrLoop_step (c : Byte) (p : List Byte) :
    getStrLoop build flags raw (c :: p) out =
      getStrLoop build flags raw (p.drop ((turn build flags c p).1 - 1))
        (out ++ (turn build flags c p).2.getD [raw.getD out.length 0]) := by
  rw [getStrLoop]

section
variable (hn : flags.needsNewlineNormalization = true)
include hn

theorem turn_return (p : List Byte) : turn build flags (chr '\r') p =
    (if p.head? = some (chr '\n') then 2 else 1, some [chr '\n']) := by
  unfold turn
  rw [if_pos (by simp [hn])]

theorem turn_feed (p : List Byte) : turn build flags (chr '\n') p =
    (if p.head? = some (chr '\r') then 2 else 1, some [chr '\n']) := by
  unfold turn
  rw [if_neg (by simp [show chr '\n' ≠ chr '\r' by decide]), if_pos (by simp [hn])]

theorem getStrLoop_pair {c d : Byte} (p : List Byte)
    (h : c = chr '\r' ∧ d = chr '\n' ∨ c = chr '\n' ∧ d = chr '\r') :
    getStrLoop build flags raw (c :: d :: p) out =
      getStrLoop build flags raw p (out ++ [chr '\n']) := by
  rw [getStrLoop_step]
  rcases h with ⟨rfl, rfl⟩ | ⟨rfl, rfl⟩
  · rw [turn_return hn, if_pos List.head?_cons]
    rfl
  · rw [turn_feed hn, if_pos List.head?_cons]
    rfl

theorem getStrLoop_newline {c : Byte} {p : List Byte} (hc : c = chr '\r' ∨ c = chr '\n')
    (hp : ¬ (c = chr '\r' ∧ p.head? = some (chr '\n') ∨
      c = chr '\n' ∧ p.head? = some (chr '\r'))) :
    getStrLoop build flags raw (c :: p) out =
      getStrLoop build flags raw p (out ++ [chr '\n']) := by
  rw [getStrLoop_step]
  rcases hc with rfl | rfl
  · rw [turn_return hn, if_neg fun he => hp (Or.inl ⟨rfl, he⟩)]
    rfl
  · rw [turn_feed hn, if_neg fun he => hp (Or.inr ⟨rfl, he⟩)]
    rfl

end

/-- One byte that is not the first half of a line break. -/
theorem Decoded.single {write : Byte → List Byte} (h : Decoded build flags write) {c : Byte}
    {p : List Byte} (hp : ¬ (c = chr '\r' ∧ p.head? = some (chr '\n') ∨
      c = chr '\n' ∧ p.head? = some (chr '\r'))) :
    getStrLoop build flags raw (write c ++ p) out =
      getStrLoop build flags raw p (out ++ [if c = chr '\r' then chr '\n' else c]) := by
  by_cases hc : c = chr '\r' ∨ c = chr '\n'
  · have hfeed : (if c = chr '\r' then chr '\n' else c) = chr '\n' := by
      rcases hc with rfl | rfl
      · exact if_pos rfl
      · exact if_neg (by decide)
    rw [h.kept c hc, List.singleton_append, getStrLoop_newline h.newline hc hp, hfeed]
  · obtain ⟨hr, hf⟩ := not_or.mp hc
    rw [h.plain c hr hf, if_neg hr]

theorem getStrLoop_written {write : Byte → List Byte} (h : Decoded build flags write)
    (s raw out : List Byte) :
    getStrLoop build flags raw (s.flatMap write) out = out ++ normalizeNewlines s := by
  fun_induction normalizeNewlines s generalizing out with
  | case1 => simp [getStrLoop]
  | case2 c =>
    rw [List.flatMap_cons, h.single (by simp), List.flatMap_nil, getStrLoop]
  | case3 c d s hc ih =>
    have hcn : c = chr '\r' ∨ c = chr '\n' := hc.imp And.left And.left
    have hdn : d = chr '\r' ∨ d = chr '\n' := hc.symm.imp And.right And.right
    rw [List.flatMap_cons, List.flatMap_cons, h.kept c hcn, h.kept d hdn]
    rw [List.singleton_append, List.singleton_append, getStrLoop_pair h.newline _ hc, ih]
    simp
  | case4 c d s hc ih =>
    have hp : ¬ (c = chr '\r' ∧ ((d :: s).flatMap write).head? = some (chr '\n') ∨
        c = chr '\n' ∧ ((d :: s).flatMap write).head? = some (chr '\r')) := by
      rintro (⟨hr, hhead⟩ | ⟨hf, hhead⟩)
      · exact hc (Or.inl ⟨hr, h.head d _ _ (Or.inr rfl) hhead⟩)
      · exact hc (Or.inr ⟨hf, h.head d _ _ (Or.inl rfl) hhead⟩)
    rw [List.flatMap_cons, h.single hp, ih]
    simp

theorem turn_plain {c : Byte} (p : List Byte) (hr : c ≠ chr '\r') (hf : c ≠ chr '\n')
    (ha : flags.needsEntityProcessing = false ∨ c ≠ chr '&') :
    turn build flags c p = (1, some [c]) := by
  have hamp : ¬ (flags.needsEntityProcessing && c == chr '&') = true := by
    rcases ha with ha | ha
    · simp [ha]
    · simp [ha]
  unfold turn
  rw [if_neg (by simp [hr]), if_neg (by simp [hf]), if_neg hamp]

theorem turn_entity (hf : flags.needsEntityProcessing = true) {entity : Entity}
    (he : entity ∈ entities) (p : List Byte) :
    turn build flags (chr '&') (entity.pattern ++ chr ';' :: p) =
      (entity.pattern.length + 2, some [entity.value]) := by
  have hr : ¬ (flags.needsNewlineNormalization && chr '&' == chr '\r') = true := by
    simp [show chr '&' ≠ chr '\r' by decide]
  have hn : ¬ (flags.needsNewlineNormalization && chr '&' == chr '\n') = true := by
    simp [show chr '&' ≠ chr '\n' by decide]
  unfold turn
  rw [if_neg hr, if_neg hn, if_pos (by simp [hf])]
  simp only [entities, List.mem_cons, List.not_mem_nil, or_false] at he
  rcases he with rfl | rfl | rfl | rfl | rfl
  all_goals rfl

theorem printByte_cases (restricted : Bool) (c : Byte) :
    (printByte restricted c = [c] ∧ c ≠ chr '&') ∨
      ∃ entity ∈ entities, entity.value = c ∧
        printByte restricted c = chr '&' :: (entity.pattern ++ [chr ';']) := by
  have hall (restricted : Bool) := forall_byte (p := fun c =>
    printByte restricted c == [c] && c != chr '&' || entities.any fun entity =>
      entity.value == c && printByte restricted c == chr '&' :: (entity.pattern ++ [chr ';']))
  have hc := hall restricted (by cases restricted <;> decide +kernel) c
  simpa using hc

theorem decoded_printByte (hn : flags.needsNewlineNormalization = true)
    (he : flags.needsEntityProcessing = true) (restricted : Bool) :
    Decoded build flags (printByte restricted) where
  newline := hn
  kept c hc := by
    rcases hc with rfl | rfl
    all_goals cases restricted <;> rfl
  head c d p hd h := by
    rcases printByte_cases restricted c with ⟨hw, _⟩ | ⟨entity, _, _, hw⟩
    · rw [hw] at h
      exact Option.some.inj h
    · rw [hw] at h
      rcases hd with rfl | rfl
      · exact absurd (Option.some.inj h) (by decide)
      · exact absurd (Option.some.inj h) (by decide)
  plain c hr hf raw p out := by
    rcases printByte_cases restricted c with ⟨hw, ha⟩ | ⟨entity, hmem, rfl, hw⟩
    · rw [hw, List.singleton_append, getStrLoop_step, turn_plain p hr hf (Or.inr ha)]
      rfl
    · rw [hw]
      simp only [List.cons_append, List.append_assoc, List.nil_append]
      rw [getStrLoop_step, turn_entity he hmem]
      simp

theorem decoded_plain (hn : flags.needsNewlineNormalization = true)
    (he : flags.needsEntityProcessing = false) : Decoded build flags fun c => [c] where
  newline := hn
  kept _ _ := rfl
  head _ _ _ _ h := Option.some.inj h
  plain c hr hf raw p out := by
    rw [List.singleton_append, getStrLoop_step, turn_plain p hr hf (Or.inl he)]
    rfl

/-- No byte but a NUL is written with a NUL. -/
theorem zero_notMem_printByte {restricted : Bool} {c : Byte} (h : c ≠ 0) :
    0 ∉ printByte restricted c := by
  have hall (restricted : Bool) := forall_byte (p := fun c =>
    c == 0 || !(printByte restricted c).contains 0)
  have hc := hall restricted (by cases restricted <;> decide +kernel) c
  simpa [h] using hc

theorem quote_notMem_printByte (c : Byte) : chr '"' ∉ printByte false c := by
  simpa using forall_byte (p := fun c => !(printByte false c).contains (chr '"'))
    (by decide +kernel) c

theorem less_notMem_printByte (c : Byte) : chr '<' ∉ printByte true c := by
  simpa using forall_byte (p := fun c => !(printByte true c).contains (chr '<'))
    (by decide +kernel) c

end StrPair

namespace XMLOptions
open StrPair XMLUtil XMLPrinter

variable {options : XMLOptions} {s : List Byte}

/-- The text of an element as it is read. -/
def rereadText (options : XMLOptions) (s : List Byte) : List Byte :=
  if options.collapseWhitespace then StrPair.collapseWhitespace (normalizeNewlines s)
  else normalizeNewlines s

theorem printed_append (restricted : Bool) (s t : List Byte) :
    options.printed restricted (s ++ t) = options.printed restricted s ++ options.printed restricted t := by
  unfold printed
  split
  next => exact List.flatMap_append
  next => rfl

theorem zero_notMem_printed {restricted : Bool} (h : 0 ∉ s) : 0 ∉ options.printed restricted s := by
  unfold printed
  split
  next =>
    intro hm
    obtain ⟨c, hc, hz⟩ := List.mem_flatMap.mp hm
    exact zero_notMem_printByte (fun he => h (he ▸ hc)) hz
  next => exact h

theorem quote_notMem_printed (h : options.processEntities = true ∨ chr '"' ∉ s) :
    chr '"' ∉ options.printed false s := by
  unfold printed
  split
  next =>
    intro hm
    obtain ⟨c, _, hc⟩ := List.mem_flatMap.mp hm
    exact quote_notMem_printByte c hc
  next he => exact h.resolve_left he

theorem less_notMem_printed (h : options.processEntities = true ∨ chr '<' ∉ s) :
    chr '<' ∉ options.printed true s := by
  unfold printed
  split
  next =>
    intro hm
    obtain ⟨c, _, hc⟩ := List.mem_flatMap.mp hm
    exact less_notMem_printByte c hc
  next he => exact h.resolve_left he

theorem takeWhile_normalizeNewlines (h : 0 ∉ s) :
    (normalizeNewlines s).takeWhile (· ≠ 0) = normalizeNewlines s := by
  rw [List.takeWhile_eq_self_iff]
  intro c hc
  rcases normalizeNewlines_mem hc with hc | rfl
  · simpa using fun he : c = 0 => h (he ▸ hc)
  · rfl

theorem getStrLoop_printed (build : Build) {flags : Flags} (restricted : Bool)
    (hn : flags.needsNewlineNormalization = true)
    (he : flags.needsEntityProcessing = options.processEntities) (raw : List Byte) :
    getStrLoop build flags raw (options.printed restricted s) [] = normalizeNewlines s := by
  unfold printed
  split
  next h => exact getStrLoop_written (decoded_printByte hn (he.trans h) restricted) s raw []
  next h =>
    have hd : Decoded build flags _ := decoded_plain hn (he.trans (Bool.eq_false_iff.mpr h))
    simpa using getStrLoop_written hd s raw []

theorem attributeFlags_eq : options.attributeFlags = ⟨options.processEntities, true, false⟩ := by
  unfold attributeFlags
  cases options.processEntities <;> rfl

theorem textFlags_eq :
    options.textFlags = ⟨options.processEntities, true, options.collapseWhitespace⟩ := by
  unfold textFlags
  cases options.processEntities <;> rfl

/-- An attribute is read as it was written, but for the line breaks. -/
theorem getStr_attribute (h : 0 ∉ s) :
    getStr options.build options.attributeFlags (options.printed false s) = normalizeNewlines s := by
  rw [attributeFlags_eq, getStr, getStrLoop_printed options.build false rfl rfl,
    takeWhile_normalizeNewlines h]
  rfl

theorem getStr_text (h : 0 ∉ s) :
    getStr options.build options.textFlags (options.printed true s) = options.rereadText s := by
  rw [textFlags_eq, getStr, getStrLoop_printed options.build true rfl rfl,
    takeWhile_normalizeNewlines h]
  rfl

theorem getStr_leaveEntities (build : Build) (h : 0 ∉ s) :
    getStr build leaveEntities s = normalizeNewlines s := by
  have hd : Decoded build leaveEntities fun c => [c] := decoded_plain rfl rfl
  have hs := getStrLoop_written hd s s []
  rw [List.flatMap_singleton', List.nil_append] at hs
  rw [getStr, hs, takeWhile_normalizeNewlines h]
  rfl

end XMLOptions

end CppTry
