import CppTry.Memory

namespace CppTry

namespace StringUtil

/-- The loop of `GetStringWidth`; a sum that is no `int` has no value. -/
def getStringWidthLoop (str : List Byte) (num index : Nat) : Option Nat :=
  if h : index < str.length then
    let cn := str[index] &&& 0x80 != 0
    let num := num + if cn then 2 else 1
    let index := index + if cn then 3 else 1
    if num < 2 ^ 31 ∧ index < 2 ^ 31 then getStringWidthLoop str num index else none
  else some num
termination_by str.length - index
decreasing_by split <;> omega

def getStringWidth (str : List Byte) : Option Nat := getStringWidthLoop str 0 0

end StringUtil

/-- The bytes of a text in UTF-8. -/
def utf8Bytes (cs : List Char) : List Byte := cs.flatMap String.utf8EncodeChar

/-- A character of one byte, that is an ASCII character, is one column wide, any other two. -/
def displayWidth (cs : List Char) : Nat :=
  cs.countP (·.utf8Size = 1) + 2 * cs.countP (·.utf8Size ≠ 1)

/-- With `owed` at the start, each ASCII character pays one; a character of four bytes can only
stand where nothing is owed, and owes two. -/
def Settles : Nat → List Char → Prop
  | owed, [] => owed = 0
  | owed, c :: cs =>
    if c.utf8Size = 1 then Settles (owed - 1) cs
    else if c.utf8Size = 4 then owed = 0 ∧ Settles 2 cs
    else Settles owed cs

/-- What the loop counts too much when it enters a text `skip` bytes behind its start. -/
def surplus : Nat → List Char → Nat
  | skip, [] => skip
  | skip, c :: cs =>
    if c.utf8Size = 1 then surplus (skip - 1) cs
    else if c.utf8Size = 4 then if skip = 0 then surplus 2 cs else surplus (skip - 1) cs + 1
    else surplus skip cs

theorem surplus_eq_zero_iff {skip : Nat} {cs : List Char} :
    surplus skip cs = 0 ↔ Settles skip cs := by
  induction cs generalizing skip with
  | nil => rfl
  | cons c cs ih =>
    unfold surplus Settles
    split
    next => exact ih
    next =>
      split
      next =>
        by_cases hskip : skip = 0
        · rw [if_pos hskip, ih, and_iff_right hskip]
        · rw [if_neg hskip]
          exact iff_of_false (by omega) fun h => hskip h.1
      next => exact ih

/-- The bytes that the loop sees as one column and as two. -/
theorem highBit_iff (b : Byte) : (b &&& 0x80 != 0) = decide (128 ≤ b.toNat) := by
  have h := forall_byte (p := fun b => (b &&& 0x80 != 0) == decide (128 ≤ b.toNat))
    (by decide +kernel) b
  exact eq_of_beq h

/-- Which bytes a character has. -/
theorem utf8_cases {c : Char} (h : c.utf8Size ≠ 2) :
    (c.utf8Size = 1 ∧ ∃ b : Byte, String.utf8EncodeChar c = [b] ∧ b.toNat < 128) ∨
    (c.utf8Size = 3 ∧ ∃ b₀ b₁ b₂ : Byte, String.utf8EncodeChar c = [b₀, b₁, b₂] ∧
      128 ≤ b₀.toNat ∧ 128 ≤ b₁.toNat ∧ 128 ≤ b₂.toNat) ∨
    (c.utf8Size = 4 ∧ ∃ b₀ b₁ b₂ b₃ : Byte, String.utf8EncodeChar c = [b₀, b₁, b₂, b₃] ∧
      128 ≤ b₀.toNat ∧ 128 ≤ b₁.toNat ∧ 128 ≤ b₂.toNat ∧ 128 ≤ b₃.toNat) := by
  rw [← String.length_utf8EncodeChar] at h ⊢
  unfold String.utf8EncodeChar at h ⊢
  dsimp only at h ⊢
  split at h
  next hv =>
    rw [if_pos hv]
    refine Or.inl ⟨rfl, _, rfl, ?_⟩
    rw [UInt8.toNat_ofNat']
    omega
  next hv =>
    rw [if_neg hv]
    split at h
    next => exact absurd rfl h
    next hv₂ =>
      rw [if_neg hv₂]
      split
      next =>
        refine Or.inr (Or.inl ⟨rfl, _, _, _, rfl, ?_, ?_, ?_⟩)
        all_goals rw [UInt8.toNat_ofNat']
        all_goals omega
      next =>
        refine Or.inr (Or.inr ⟨rfl, _, _, _, _, rfl, ?_, ?_, ?_, ?_⟩)
        all_goals rw [UInt8.toNat_ofNat']
        all_goals omega

/-- What the loop adds to `num` and to `index` over the rest of a string. -/
def scan : List Byte → Nat × Nat
  | [] => (0, 0)
  | b :: bs =>
    if b &&& 0x80 != 0 then ((scan (bs.drop 2)).1 + 2, (scan (bs.drop 2)).2 + 3)
    else ((scan bs).1 + 1, (scan bs).2 + 1)
termination_by bs => bs.length
decreasing_by
  all_goals
    simp only [List.length_drop, List.length_cons]
    omega

theorem scan_high {b : Byte} (bs : List Byte) (h : 128 ≤ b.toNat) :
    scan (b :: bs) = ((scan (bs.drop 2)).1 + 2, (scan (bs.drop 2)).2 + 3) := by
  rw [scan, if_pos (by rw [highBit_iff]; exact decide_eq_true h)]

theorem scan_low {b : Byte} (bs : List Byte) (h : b.toNat < 128) :
    scan (b :: bs) = ((scan bs).1 + 1, (scan bs).2 + 1) := by
  rw [scan, if_neg (by rw [highBit_iff, decide_eq_true_eq]; omega)]

/-- One step of the loop is one step of the scan. -/
theorem scan_drop {str : List Byte} {index : Nat} (h : index < str.length) :
    scan (str.drop index) =
      if str[index] &&& 0x80 != 0 then
        ((scan (str.drop (index + 3))).1 + 2, (scan (str.drop (index + 3))).2 + 3)
      else ((scan (str.drop (index + 1))).1 + 1, (scan (str.drop (index + 1))).2 + 1) := by
  rw [List.drop_eq_getElem_cons h, scan, List.drop_drop]

/-- The loop ends with the sums of the scan, when `index`, the larger one, is an `int` then. -/
theorem getStringWidthLoop_eq (str : List Byte) {num index : Nat} (hle : num ≤ index)
    (hint : index < 2 ^ 31) : StringUtil.getStringWidthLoop str num index =
      if index + (scan (str.drop index)).2 < 2 ^ 31 then some (num + (scan (str.drop index)).1)
      else none := by
  fun_induction StringUtil.getStringWidthLoop str num index with
  | case1 num index h cn num' index' hsum ih =>
    have hle' : num' ≤ index' := by
      change num + _ ≤ index + _
      split <;> omega
    rw [ih hle' hsum.2, scan_drop h]
    by_cases hcn : cn = true
    · have hcn' : (str[index] &&& 0x80 != 0) = true := hcn
      have hnum : num' = num + 2 := by simp [num', hcn]
      have hindex : index' = index + 3 := by simp [index', hcn]
      simp only [hcn', if_true, hnum, hindex]
      congr 2 <;> omega
    · have hcn' : ¬ (str[index] &&& 0x80 != 0) = true := hcn
      have hnum : num' = num + 1 := by simp [num', hcn]
      have hindex : index' = index + 1 := by simp [index', hcn]
      simp only [if_neg hcn', hnum, hindex]
      congr 2 <;> omega
  | case2 num index h cn num' index' hsum =>
    have hover : 2 ^ 31 ≤ index' := by
      have hle' : num' ≤ index' := by
        change num + _ ≤ index + _
        split <;> omega
      omega
    have hscan : index' ≤ index + (scan (str.drop index)).2 := by
      rw [scan_drop h]
      change index + _ ≤ _
      split <;> simp_all [cn]
    rw [if_neg (by omega)]
  | case3 num index h =>
    rw [List.drop_of_length_le (by omega), scan, if_pos (by simpa using hint)]
    rfl

/-- The scan enters a text `skip` bytes behind its start. It counts what is to be counted and the
surplus, and ends behind the text by no more than the surplus. -/
structure Scans (skip : Nat) (cs : List Char) : Prop where
  width : (scan ((utf8Bytes cs).drop skip)).1 + skip = displayWidth cs + surplus skip cs
  reaches : (utf8Bytes cs).length ≤ skip + (scan ((utf8Bytes cs).drop skip)).2
  stops : skip + (scan ((utf8Bytes cs).drop skip)).2 ≤ (utf8Bytes cs).length + surplus skip cs

section
variable {c : Char} {cs : List Char} {skip : Nat} {b₀ b₁ b₂ b₃ : Byte}

theorem utf8Bytes_cons (c : Char) (cs : List Char) :
    utf8Bytes (c :: cs) = String.utf8EncodeChar c ++ utf8Bytes cs := rfl

theorem displayWidth_one (hsize : c.utf8Size = 1) :
    displayWidth (c :: cs) = displayWidth cs + 1 := by
  simp [displayWidth, hsize]
  omega

theorem displayWidth_wide (hsize : c.utf8Size ≠ 1) :
    displayWidth (c :: cs) = displayWidth cs + 2 := by
  simp [displayWidth, hsize]
  omega

/-- One character more in front: the scan enters it `skip` bytes behind its start, counts `w` for the
`n` bytes it passes over, and enters the rest `skip'` bytes behind its start. -/
theorem Scans.cons {skip' w n : Nat} (h : Scans skip' cs)
    (hscan : scan ((String.utf8EncodeChar c ++ utf8Bytes cs).drop skip) =
      ((scan ((utf8Bytes cs).drop skip')).1 + w, (scan ((utf8Bytes cs).drop skip')).2 + n))
    (hbytes : skip + n = c.utf8Size + skip')
    (hwidth : w + skip + displayWidth cs + surplus skip' cs =
      displayWidth (c :: cs) + surplus skip (c :: cs) + skip')
    (hle : surplus skip' cs ≤ surplus skip (c :: cs)) : Scans skip (c :: cs) := by
  obtain ⟨hw, hr, hs⟩ := h
  have hlen : (String.utf8EncodeChar c ++ utf8Bytes cs).length =
      c.utf8Size + (utf8Bytes cs).length := by
    rw [List.length_append, String.length_utf8EncodeChar]
  constructor
  all_goals rw [utf8Bytes_cons, hscan]
  · omega
  · omega
  · omega

theorem Scans.one (hsize : c.utf8Size = 1) (hb : String.utf8EncodeChar c = [b₀])
    (h₀ : b₀.toNat < 128) (h : Scans (skip - 1) cs) : Scans skip (c :: cs) := by
  have hsurplus : surplus skip (c :: cs) = surplus (skip - 1) cs := by rw [surplus, if_pos hsize]
  have hwidth : displayWidth (c :: cs) = displayWidth cs + 1 := displayWidth_one hsize
  cases skip with
  | zero =>
    have hscan : scan ((String.utf8EncodeChar c ++ utf8Bytes cs).drop 0) =
        ((scan (utf8Bytes cs)).1 + 1, (scan (utf8Bytes cs)).2 + 1) := by
      rw [hb]
      exact scan_low _ h₀
    exact h.cons hscan (by omega) (by omega) (by omega)
  | succ skip =>
    have hscan : scan ((String.utf8EncodeChar c ++ utf8Bytes cs).drop (skip + 1)) =
        ((scan ((utf8Bytes cs).drop skip)).1 + 0, (scan ((utf8Bytes cs).drop skip)).2 + 0) := by
      rw [hb]
      rfl
    exact h.cons hscan (by omega) (by omega) (by omega)

/-- The scan stands on a byte of the character, and on the byte of the same number behind it. -/
theorem scan_three (h₀ : 128 ≤ b₀.toNat) (h₁ : 128 ≤ b₁.toNat) (h₂ : 128 ≤ b₂.toNat)
    (rest : List Byte) (hskip : skip ≤ 2) :
    scan (([b₀, b₁, b₂] ++ rest).drop skip) =
      ((scan (rest.drop skip)).1 + 2, (scan (rest.drop skip)).2 + 3) := by
  have hcases : skip = 0 ∨ skip = 1 ∨ skip = 2 := by omega
  rcases hcases with rfl | rfl | rfl
  · exact scan_high _ h₀
  · exact scan_high _ h₁
  · exact scan_high _ h₂

theorem Scans.three (hsize : c.utf8Size = 3) (hb : String.utf8EncodeChar c = [b₀, b₁, b₂])
    (h₀ : 128 ≤ b₀.toNat) (h₁ : 128 ≤ b₁.toNat) (h₂ : 128 ≤ b₂.toNat) (hskip : skip ≤ 2)
    (h : Scans skip cs) : Scans skip (c :: cs) := by
  have hsurplus : surplus skip (c :: cs) = surplus skip cs := by
    rw [surplus, if_neg (by omega), if_neg (by omega)]
  have hwidth : displayWidth (c :: cs) = displayWidth cs + 2 := displayWidth_wide (by omega)
  have hscan := scan_three h₀ h₁ h₂ (utf8Bytes cs) hskip
  rw [← hb] at hscan
  exact h.cons hscan (by omega) (by omega) (by omega)

/-- From its first byte a character of four bytes is counted twice, and two bytes behind it are
passed over. -/
theorem Scans.four (hsize : c.utf8Size = 4) (hb : String.utf8EncodeChar c = [b₀, b₁, b₂, b₃])
    (h₀ : 128 ≤ b₀.toNat) (h₁ : 128 ≤ b₁.toNat) (h₂ : 128 ≤ b₂.toNat) (h₃ : 128 ≤ b₃.toNat)
    (hskip : skip ≤ 2) (h : ∀ {skip : Nat}, skip ≤ 2 → Scans skip cs) : Scans skip (c :: cs) := by
  have hsurplus : surplus skip (c :: cs) =
      if skip = 0 then surplus 2 cs else surplus (skip - 1) cs + 1 := by
    rw [surplus, if_neg (by omega), if_pos hsize]
  have hwidth : displayWidth (c :: cs) = displayWidth cs + 2 := displayWidth_wide (by omega)
  cases skip with
  | zero =>
    have hscan : scan ((String.utf8EncodeChar c ++ utf8Bytes cs).drop 0) =
        ((scan ((utf8Bytes cs).drop 2)).1 + 4, (scan ((utf8Bytes cs).drop 2)).2 + 6) := by
      have hlast : scan (b₃ :: utf8Bytes cs) = _ := scan_high (utf8Bytes cs) h₃
      have hfirst := scan_high (b₁ :: b₂ :: b₃ :: utf8Bytes cs) h₀
      rw [List.drop_succ_cons, List.drop_succ_cons, List.drop_zero, hlast] at hfirst
      rw [hb]
      exact hfirst
    rw [if_pos rfl] at hsurplus
    exact (h (Nat.le_refl 2)).cons hscan (by omega) (by omega) (by omega)
  | succ skip =>
    have hscan := scan_three h₁ h₂ h₃ (utf8Bytes cs) (show skip ≤ 2 by omega)
    rw [← List.drop_succ_cons (a := b₀), ← List.cons_append, ← hb] at hscan
    rw [if_neg (by omega), Nat.add_sub_cancel] at hsurplus
    exact (h (show skip ≤ 2 by omega)).cons hscan (by omega) (by omega) (by omega)

end

theorem scans {cs : List Char} (h : ∀ c ∈ cs, c.utf8Size ≠ 2) {skip : Nat} (hskip : skip ≤ 2) :
    Scans skip cs := by
  induction cs generalizing skip with
  | nil => constructor <;> simp [utf8Bytes, displayWidth, surplus, scan]
  | cons c cs ih =>
    have hcs {skip : Nat} (hskip : skip ≤ 2) : Scans skip cs :=
      ih (fun d hd => h d (List.mem_cons_of_mem c hd)) hskip
    rcases utf8_cases (h c (by simp)) with ⟨hsize, b, hb, h₀⟩ | ⟨hsize, _, _, _, hb, h₀, h₁, h₂⟩ |
      ⟨hsize, _, _, _, _, hb, h₀, h₁, h₂, h₃⟩
    · exact Scans.one hsize hb h₀ (hcs (by omega))
    · exact Scans.three hsize hb h₀ h₁ h₂ hskip (hcs hskip)
    · exact Scans.four hsize hb h₀ h₁ h₂ h₃ hskip hcs

namespace StringUtil

/-- A string without characters of two bytes has the width it should have exactly when it is short
enough for an `int` and every character of four bytes is made up for by ASCII characters. -/
theorem getStringWidth_eq_iff {cs : List Char} (h : ∀ c ∈ cs, c.utf8Size ≠ 2) :
    getStringWidth (utf8Bytes cs) = some (displayWidth cs) ↔
      (utf8Bytes cs).length < 2 ^ 31 ∧ Settles 0 cs := by
  obtain ⟨hw, hr, hs⟩ := scans h (Nat.zero_le 2)
  rw [List.drop_zero] at hw hr hs
  rw [getStringWidth, getStringWidthLoop_eq _ (Nat.le_refl 0) (by omega), List.drop_zero,
    ← surplus_eq_zero_iff]
  constructor
  · intro hret
    split at hret
    next hlt =>
      have hval := Option.some.inj hret
      omega
    next => cases hret
  · rintro ⟨hlt, hzero⟩
    rw [if_pos (by omega)]
    congr 1
    omega

/-- A text settles when both its halves do, and each half of the text begins with nothing owed. -/
theorem settles_append {cs ds : List Char} {owed : Nat} (h : Settles owed cs) :
    Settles owed (cs ++ ds) ↔ Settles 0 ds := by
  induction cs generalizing owed with
  | nil =>
    change owed = 0 at h
    rw [h, List.nil_append]
  | cons c cs ih =>
    rw [List.cons_append, Settles]
    rw [Settles] at h
    split
    next hone =>
      rw [if_pos hone] at h
      exact ih h
    next hone =>
      rw [if_neg hone] at h
      split
      next hfour =>
        rw [if_pos hfour] at h
        rw [and_iff_right h.1]
        exact ih h.2
      next hfour =>
        rw [if_neg hfour] at h
        exact ih h

theorem displayWidth_append (cs ds : List Char) :
    displayWidth (cs ++ ds) = displayWidth cs + displayWidth ds := by
  unfold displayWidth
  rw [List.countP_append, List.countP_append]
  omega

/-- For texts without characters of two bytes: the width of one, and of two of them that their
widths add up. The loop takes every character that is not ASCII for one of three bytes. -/
theorem getStringWidth_iff {a b : List Char} (ha : ∀ c ∈ a, c.utf8Size ≠ 2)
    (hb : ∀ c ∈ b, c.utf8Size ≠ 2) :
    (getStringWidth (utf8Bytes a) = some (displayWidth a) ↔
      (utf8Bytes a).length < 2 ^ 31 ∧ Settles 0 a) ∧
    (getStringWidth (utf8Bytes a) = some (displayWidth a) ∧
        getStringWidth (utf8Bytes b) = some (displayWidth b) ∧
        getStringWidth (utf8Bytes a ++ utf8Bytes b) = some (displayWidth a + displayWidth b) ↔
      (utf8Bytes a ++ utf8Bytes b).length < 2 ^ 31 ∧ Settles 0 a ∧ Settles 0 b) := by
  refine ⟨getStringWidth_eq_iff ha, ?_⟩
  have hab : ∀ c ∈ a ++ b, c.utf8Size ≠ 2 := by
    intro c hc
    rcases List.mem_append.mp hc with hc | hc
    · exact ha c hc
    · exact hb c hc
  have hbytes : utf8Bytes a ++ utf8Bytes b = utf8Bytes (a ++ b) := List.flatMap_append.symm
  have hlen : (utf8Bytes (a ++ b)).length = (utf8Bytes a).length + (utf8Bytes b).length := by
    rw [← hbytes, List.length_append]
  rw [hbytes, ← displayWidth_append, getStringWidth_eq_iff ha, getStringWidth_eq_iff hb,
    getStringWidth_eq_iff hab]
  constructor
  · rintro ⟨⟨_, hsa⟩, ⟨_, hsb⟩, hlt, _⟩
    exact ⟨hlt, hsa, hsb⟩
  · rintro ⟨hlt, hsa, hsb⟩
    exact ⟨⟨by omega, hsa⟩, ⟨by omega, hsb⟩, hlt, (settles_append hsa).mpr hsb⟩

/-- Two names with characters of one and of three bytes. -/
theorem names_width : getStringWidth (utf8Bytes ['徐', '翔', 'x', '1']) = some 6 ∧
    getStringWidth (utf8Bytes ['徐', '翔', 'x', '1'] ++ utf8Bytes ['林']) = some (6 + 2) := by
  have hnames : ∀ c ∈ ['徐', '翔', 'x', '1'], c.utf8Size ≠ 2 := by
    simp only [List.forall_mem_cons]
    exact ⟨by decide, by decide, by decide, by decide, by simp⟩
  have hname : ∀ c ∈ ['林'], c.utf8Size ≠ 2 := List.forall_mem_singleton.mpr (by decide)
  have h := (getStringWidth_iff hnames hname).2.mpr
    ⟨by decide, surplus_eq_zero_iff.mp (by decide), surplus_eq_zero_iff.mp (by decide)⟩
  exact ⟨h.1, h.2.2⟩

/-- One character of four bytes: its last byte is taken for another character, which swallows what
stands behind it. -/
theorem emoji_width : (∀ c ∈ ['😀'], c.utf8Size ≠ 2) ∧ displayWidth ['😀'] = 2 ∧
    getStringWidth (utf8Bytes ['😀']) = some 4 ∧ getStringWidth (utf8Bytes ['a', 'b']) = some 2 ∧
    getStringWidth (utf8Bytes ['😀'] ++ utf8Bytes ['a', 'b']) = some 4 := by
  have hbytes : utf8Bytes ['😀'] = [0xf0, 0x9f, 0x98, 0x80] := by decide
  have hletters : utf8Bytes ['a', 'b'] = [0x61, 0x62] := by decide
  rw [hbytes, hletters]
  refine ⟨List.forall_mem_singleton.mpr (by decide), by decide, ?_, ?_, ?_⟩
  all_goals
    rw [getStringWidth, getStringWidthLoop_eq _ (Nat.le_refl 0) (by omega)]
    simp only [List.cons_append, List.nil_append, List.drop_zero, scan, List.drop_succ_cons,
      List.drop_nil]
    decide

end StringUtil

end CppTry
