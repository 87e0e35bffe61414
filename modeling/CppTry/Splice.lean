import Mathlib.Data.List.Basic

namespace CppTry

/-- Overwrite the entries of `xs` from position `i` on with `ys`. -/
def splice {α : Type} (xs : List α) (i : Nat) (ys : List α) : List α :=
  xs.take i ++ ys ++ xs.drop (i + ys.length)

theorem length_splice {α : Type} {xs ys : List α} {i : Nat} (h : i + ys.length ≤ xs.length) :
    (splice xs i ys).length = xs.length := by
  simp only [splice, List.length_append, List.length_take, List.length_drop]
  omega

@[simp] theorem splice_nil {α : Type} (xs : List α) (i : Nat) : splice xs i [] = xs := by
  simp [splice]

theorem splice_splice {α : Type} {xs ys zs : List α} {i : Nat} (h : i ≤ xs.length) :
    splice (splice xs i ys) (i + ys.length) zs = splice xs i (ys ++ zs) := by
  have hi : (xs.take i).length = i := by simp [h]
  have ht : (splice xs i ys).take (i + ys.length) = xs.take i ++ ys := by
    rw [splice, List.take_left' (by simp [hi])]
  have hd : (splice xs i ys).drop (i + ys.length + zs.length) =
      xs.drop (i + (ys.length + zs.length)) := by
    rw [splice, ← List.drop_drop, List.drop_left' (by simp [hi]), List.drop_drop]
    congr 1
    omega
  rw [splice, ht, hd, splice, List.length_append]
  simp only [List.append_assoc]

/-- Writing `y` one place below a written block extends the block downwards. -/
theorem set_splice {α : Type} {xs ys : List α} {i : Nat} {y : α} (h : i < xs.length) :
    (splice xs (i + 1) ys).set i y = splice xs i (y :: ys) := by
  have hi : (xs.take i).length = i := by simp; omega
  have ht : xs.take (i + 1) = xs.take i ++ [xs[i]] := by
    rw [List.take_add_one, List.getElem?_eq_getElem h, Option.toList_some]
  have hd : i + 1 + ys.length = i + (y :: ys).length := by simp only [List.length_cons]; omega
  rw [splice, ht, hd, splice, List.append_assoc, List.append_assoc,
    List.set_append_right _ _ (by omega), hi, Nat.sub_self]
  simp only [List.cons_append, List.nil_append, List.set_cons_zero, List.append_assoc]

theorem take_splice {α : Type} {xs ys : List α} {i : Nat} (h : i ≤ xs.length) :
    (splice xs i ys).take (i + ys.length) = xs.take i ++ ys := by
  rw [splice, List.take_left' (by simp [h])]

/-- The block `ys` stands at position `i`. -/
def Holds {α : Type} (xs : List α) (i : Nat) (ys : List α) : Prop :=
  (xs.drop i).take ys.length = ys

theorem splice_holds {α : Type} {xs ys : List α} {i : Nat} (h : i ≤ xs.length) :
    Holds (splice xs i ys) i ys := by
  have hi : (xs.take i).length = i := by simp [h]
  rw [Holds, splice, List.append_assoc, List.drop_left' hi, List.take_left]

theorem Holds.left {α : Type} {xs ys zs : List α} {i : Nat} (h : Holds xs i (ys ++ zs)) :
    Holds xs i ys := by
  have ht := congrArg (List.take ys.length) h
  rw [List.take_take, List.length_append, Nat.min_eq_left (Nat.le_add_right _ _), List.take_left] at ht
  exact ht

theorem Holds.right {α : Type} {xs ys zs : List α} {i : Nat} (h : Holds xs i (ys ++ zs)) :
    Holds xs (i + ys.length) zs := by
  have ht := congrArg (List.drop ys.length) h
  rw [List.drop_take, List.length_append, Nat.add_sub_cancel_left, List.drop_left,
    List.drop_drop] at ht
  exact ht

theorem Holds.le {α : Type} {xs ys : List α} {i : Nat} (h : Holds xs i ys) (hi : i ≤ xs.length) :
    i + ys.length ≤ xs.length := by
  have hl := congrArg List.length h
  rw [List.length_take, List.length_drop] at hl
  omega

/-- A write may be taken to cover what it leaves as it was. -/
theorem splice_extend {α : Type} (xs ys : List α) (i k : Nat) :
    splice xs i (ys ++ (xs.drop (i + ys.length)).take k) = splice xs i ys := by
  have hd : xs.drop (i + (ys ++ (xs.drop (i + ys.length)).take k).length) =
      (xs.drop (i + ys.length)).drop k := by
    rw [List.length_append, List.length_take, List.length_drop, List.drop_drop]
    by_cases hk : k ≤ xs.length - (i + ys.length)
    · rw [Nat.min_eq_left hk, Nat.add_assoc]
    · rw [List.drop_eq_nil_of_le (by omega), List.drop_eq_nil_of_le (by omega)]
  rw [splice, hd, splice, List.append_assoc, List.append_assoc, List.take_append_drop,
    List.append_assoc]

theorem getElem?_splice {α : Type} {xs ys : List α} {i j : Nat} (h : i + ys.length ≤ xs.length)
    (hj : j < i ∨ i + ys.length ≤ j) : (splice xs i ys)[j]? = xs[j]? := by
  have hi : (xs.take i).length = i := by simp; omega
  rw [splice, List.append_assoc]
  rcases hj with hj | hj
  · rw [List.getElem?_append_left (by omega), List.getElem?_take_of_lt hj]
  · rw [List.getElem?_append_right (by omega), List.getElem?_append_right (by omega), hi,
      List.getElem?_drop]
    congr 1
    omega

theorem getElem?_splice_inside {α : Type} {xs ys : List α} {i j : Nat} (h : i ≤ xs.length)
    (hl : i ≤ j) (hu : j < i + ys.length) : (splice xs i ys)[j]? = ys[j - i]? := by
  have hi : (xs.take i).length = i := by simp [h]
  rw [splice, List.append_assoc, List.getElem?_append_right (by omega), hi,
    List.getElem?_append_left (by omega)]

theorem holds_iff {α : Type} {xs ys : List α} {i : Nat} :
    Holds xs i ys ↔ ∀ k < ys.length, xs[i + k]? = ys[k]? := by
  constructor
  · intro h k hk
    rw [← h, List.getElem?_take_of_lt hk, List.getElem?_drop]
  · intro h
    refine List.ext_getElem? fun k => ?_
    by_cases hk : k < ys.length
    · rw [List.getElem?_take_of_lt hk, List.getElem?_drop, h k hk]
    · rw [List.getElem?_eq_none (by rw [List.length_take]; omega), List.getElem?_eq_none (by omega)]

/-- The second list differs from the first at most in the `n` entries from position `i` on. -/
def AgreeOutside {α : Type} (xs ys : List α) (i n : Nat) : Prop :=
  ys.length = xs.length ∧ ∀ j, j < i ∨ i + n ≤ j → ys[j]? = xs[j]?

theorem AgreeOutside.refl {α : Type} (xs : List α) (i n : Nat) : AgreeOutside xs xs i n :=
  ⟨rfl, fun _ _ => rfl⟩

theorem AgreeOutside.trans {α : Type} {xs ys zs : List α} {i n : Nat} (h : AgreeOutside xs ys i n)
    (h' : AgreeOutside ys zs i n) : AgreeOutside xs zs i n :=
  ⟨h'.1.trans h.1, fun j hj => (h'.2 j hj).trans (h.2 j hj)⟩

theorem AgreeOutside.mono {α : Type} {xs ys : List α} {i n i' n' : Nat} (h : AgreeOutside xs ys i n)
    (hi : i' ≤ i) (hn : i + n ≤ i' + n') : AgreeOutside xs ys i' n' :=
  ⟨h.1, fun j hj => h.2 j (by omega)⟩

theorem splice_agreeOutside {α : Type} {xs ys : List α} {i : Nat} (h : i + ys.length ≤ xs.length) :
    AgreeOutside xs (splice xs i ys) i ys.length :=
  ⟨length_splice h, fun _ hj => getElem?_splice h hj⟩

/-- A block out of reach of what is written stays as it is. -/
theorem AgreeOutside.holds {α : Type} {xs ys block : List α} {i n j : Nat}
    (h : AgreeOutside xs ys i n) (hb : Holds xs j block) (hj : j + block.length ≤ i ∨ i + n ≤ j) :
    Holds ys j block :=
  holds_iff.mpr fun k hk => (h.2 (j + k) (by omega)).trans (holds_iff.mp hb k hk)

end CppTry
