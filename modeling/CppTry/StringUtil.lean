import CppTry.Memory

namespace CppTry

/-- `s.find_first_of(sp, pos)`; `npos` is `none`. -/
def findFirstOf (s sp : List Byte) (pos : Nat) : Option Nat :=
  ((s.drop pos).findIdx? (· ∈ sp)).map (· + pos)

def substr (s : List Byte) (pos n : Nat) : List Byte := (s.drop pos).take n

theorem intercalate_cons_flatMap (sep l : List Byte) (ls : List (List Byte)) :
    sep.intercalate (l :: ls) = l ++ ls.flatMap (sep ++ ·) := by
  induction ls generalizing l with
  | nil => simp
  | cons m ls ih =>
    rw [List.intercalate_cons_cons, ih]
    simp

theorem findFirstOf_bounds {s sp : List Byte} {pos i : Nat} (h : findFirstOf s sp pos = some i) :
    pos ≤ i ∧ i < s.length := by
  obtain ⟨j, hj, rfl⟩ := Option.map_eq_some_iff.mp h
  obtain ⟨hlt, _⟩ := List.findIdx?_eq_some_iff_findIdx_eq.mp hj
  rw [List.length_drop] at hlt
  omega

theorem findFirstOf_drop (s sp : List Byte) (pos : Nat) :
    findFirstOf s sp pos = (findFirstOf (s.drop pos) sp 0).map (· + pos) := by
  simp [findFirstOf]

theorem findFirstOf_cons_of_mem (s : List Byte) {sp : List Byte} {b : Byte} (h : b ∈ sp) :
    findFirstOf (b :: s) sp 0 = some 0 := by
  simp [findFirstOf, List.findIdx?_cons, h]

theorem findFirstOf_cons_of_not_mem (s : List Byte) {sp : List Byte} {b : Byte} (h : b ∉ sp) :
    findFirstOf (b :: s) sp 0 = (findFirstOf s sp 0).map (· + 1) := by
  simp [findFirstOf, List.findIdx?_cons, h, Function.comp_def]

theorem findFirstOf_append {xs sp : List Byte} {c : Byte} (ys : List Byte) (h : ∀ x ∈ xs, x ∉ sp)
    (hc : c ∈ sp) : findFirstOf (xs ++ c :: ys) sp 0 = some xs.length := by
  induction xs with
  | nil => exact findFirstOf_cons_of_mem ys hc
  | cons b xs ih =>
    rw [List.cons_append, findFirstOf_cons_of_not_mem _ (h b (by simp)),
      ih fun x hx => h x (List.mem_cons_of_mem b hx)]
    rfl

theorem findFirstOf_none {s sp : List Byte} (h : ∀ x ∈ s, x ∉ sp) : findFirstOf s sp 0 = none := by
  simpa [findFirstOf] using h

theorem exists_first (s sp : List Byte) : (∀ x ∈ s, x ∉ sp) ∨
    ∃ xs c ys, s = xs ++ c :: ys ∧ c ∈ sp ∧ ∀ x ∈ xs, x ∉ sp := by
  induction s with
  | nil => exact Or.inl (by simp)
  | cons b s ih =>
    by_cases hb : b ∈ sp
    · exact Or.inr ⟨[], b, s, rfl, hb, by simp⟩
    · rcases ih with hs | ⟨xs, c, ys, rfl, hc, hxs⟩
      · exact Or.inl (List.forall_mem_cons.mpr ⟨hb, hs⟩)
      · exact Or.inr ⟨b :: xs, c, ys, rfl, hc, List.forall_mem_cons.mpr ⟨hb, hxs⟩⟩

section
variable {s : List Byte} {c : Byte}

theorem findFirstOf_char_none (h : c ∉ s) : findFirstOf s [c] 0 = none := by
  apply findFirstOf_none
  intro x hx he
  rw [List.mem_singleton.mp he] at hx
  exact h hx

theorem findFirstOf_char_append (rest : List Byte) (h : c ∉ s) :
    findFirstOf (s ++ c :: rest) [c] 0 = some s.length := by
  refine findFirstOf_append rest ?_ (List.mem_singleton.mpr rfl)
  intro x hx he
  rw [List.mem_singleton.mp he] at hx
  exact h hx

end

section
variable {α : Type} {p : α → Bool}

theorem length_splitOnP (xs : List α) : (xs.splitOnP p).length = xs.countP p + 1 := by
  induction xs with
  | nil => rfl
  | cons b xs ih =>
    rw [List.splitOnP_cons_eq_if_modifyHead]
    split
    next hb => rw [List.length_cons, ih, List.countP_cons_of_pos hb]
    next hb => rw [List.length_modifyHead, ih, List.countP_cons_of_neg hb]

theorem not_mem_of_mem_splitOnP {xs piece : List α} (h : piece ∈ xs.splitOnP p) :
    ∀ x ∈ piece, p x = false := by
  induction xs generalizing piece with
  | nil =>
    rw [List.splitOnP_nil] at h
    rw [List.mem_singleton.mp h]
    simp
  | cons b xs ih =>
    rw [List.splitOnP_cons_eq_if_modifyHead] at h
    split at h
    next =>
      rcases List.mem_cons.mp h with rfl | h
      · simp
      · exact ih h
    next hb =>
      cases hs : xs.splitOnP p with
      | nil => exact absurd hs (List.splitOnP_ne_nil p xs)
      | cons first rest =>
        rw [hs] at h ih
        rcases List.mem_cons.mp h with rfl | h
        · exact List.forall_mem_cons.mpr ⟨by simpa using hb, ih (by simp)⟩
        · exact ih (List.mem_cons_of_mem _ h)

end

namespace StringUtil

/-- The loop of `Split`, from the search that sets `index` on. Behind it `index` is `npos` and
`last` at most `s.size()`, so that what is left is always pushed. -/
def splitLoop (s sp : List Byte) (last : Nat) (v : List (List Byte)) : List (List Byte) :=
  match _h : findFirstOf s sp last with
  | some index => splitLoop s sp (index + 1) (v ++ [substr s last (index - last)])
  | none => v ++ [s.drop last]
termination_by s.length - last
decreasing_by
  obtain ⟨hl, hi⟩ := findFirstOf_bounds _h
  omega

def split (s sp : List Byte) (v : List (List Byte)) : List (List Byte) :=
  if s.isEmpty then v else splitLoop s sp 0 v

theorem splitLoop_eq (s sp : List Byte) (last : Nat) (v : List (List Byte)) :
    splitLoop s sp last v = v ++ (s.drop last).splitOnP (· ∈ sp) := by
  fun_induction splitLoop s sp last v with
  | case1 last v index h ih =>
    rw [findFirstOf_drop] at h
    rcases exists_first (s.drop last) sp with hno | ⟨xs, c, ys, hd, hc, hxs⟩
    · rw [findFirstOf_none hno] at h
      cases h
    · rw [hd, findFirstOf_append ys hxs hc] at h
      cases h
      have hpiece : substr s last (xs.length + last - last) = xs := by
        rw [substr, hd, Nat.add_sub_cancel, List.take_left]
      have hrest : s.drop (xs.length + last + 1) = ys := by
        rw [show xs.length + last + 1 = last + (xs.length + 1) by omega, ← List.drop_drop, hd,
          ← List.drop_drop, List.drop_left]
        rfl
      rw [ih, hpiece, hrest, hd, List.append_assoc, List.splitOnP_append_cons_of_forall_mem
        (by simpa using hxs) c (by simpa using hc)]
      rfl
  | case2 last v h =>
    rw [findFirstOf_drop] at h
    rcases exists_first (s.drop last) sp with hno | ⟨xs, c, ys, hd, hc, hxs⟩
    · rw [List.splitOnP_eq_singleton (by simpa using hno)]
    · rw [hd, findFirstOf_append ys hxs hc] at h
      cases h

theorem split_eq {s : List Byte} (sp : List Byte) (v : List (List Byte)) (h : s ≠ []) :
    split s sp v = v ++ s.splitOnP (· ∈ sp) := by
  rw [split, if_neg (by simpa using h), splitLoop_eq, List.drop_zero]

theorem split_singleton {s : List Byte} (c : Byte) (v : List (List Byte)) (h : s ≠ []) :
    split s [c] v = v ++ s.splitOn c := by
  have hp : (fun x : Byte => decide (x ∈ [c])) = (· == c) := by
    funext x
    by_cases hx : x = c
    · simp [hx]
    · simp [hx]
  rw [split_eq [c] v h, hp]
  rfl

theorem length_split_le (s : List Byte) (c : Byte) : (split s [c] []).length ≤ s.count c + 1 := by
  by_cases h : s = []
  · subst h
    exact Nat.zero_le _
  · rw [split_singleton c [] h, List.nil_append]
    exact Nat.le_of_eq (length_splitOnP s)

theorem not_mem_of_mem_split {s piece : List Byte} {c : Byte} (h : piece ∈ split s [c] []) :
    c ∉ piece := by
  unfold split at h
  split at h
  next => simp at h
  next =>
    rw [splitLoop_eq, List.nil_append] at h
    intro hc
    simpa using not_mem_of_mem_splitOnP h c hc

end StringUtil

end CppTry
