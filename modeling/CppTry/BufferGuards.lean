import CppTry.ByteBuffer

namespace CppTry

namespace ByteBuffer

/-- A call with 32-bit arguments; the caller's array has room for what it is said to have. -/
inductive Call
  | addData (data : List Byte) (len : Int32) (room : len.toInt ≤ data.length)
  | getData (dst : List Byte) (index len : Int32) (room : len.toInt ≤ dst.length)
  | removeData (len : Int32)
  | clear

namespace Call

/-- Only `AddData` answers; the others count as `true`. -/
def exec (b : ByteBuffer) : Call → Option (Bool × ByteBuffer)
  | .addData data len _ => b.addData data len.toInt
  | .getData dst index len _ => (b.getData dst index.toInt len.toInt).map fun _ => (true, b)
  | .removeData len => (b.removeData len.toInt).map fun b => (true, b)
  | .clear => some (true, b.clear)

/-- The asserted conditions; what `AddData` tests decides about its answer only. -/
def Guard (b : ByteBuffer) : Call → Prop
  | .getData _ index len _ => wrap32 (index.toInt + len.toInt) ≤ b.length
  | .removeData len => len.toInt ≤ b.length
  | _ => True

/-- Where in the array the copies of a call start, and how long they are. -/
def copies (b : ByteBuffer) : Call → List (Int × Int)
  | .addData _ len _ =>
    if wrap32 (b.length + len.toInt) > b.size then [] else [(b.length, len.toInt)]
  | .getData _ index len _ => [(index.toInt, len.toInt)]
  | .removeData len =>
    let rest := wrap32 (b.length - len.toInt)
    if 0 < rest then [(0, rest), (len.toInt, rest)] else []
  | .clear => []

/-- The answer of `AddData`. -/
def Answers (b : ByteBuffer) (ok : Bool) (b' : ByteBuffer) : Call → Prop
  | .addData _ len _ =>
    (ok = true ↔ 0 ≤ len.toInt ∧ len.toInt ≤ b.size - b.length) ∧ (ok = false → b' = b)
  | _ => True

/-- What the guards are there for, at one call. -/
structure Sound (c : Call) (b : ByteBuffer) (ok : Bool) (b' : ByteBuffer) : Prop where
  inside : ∀ r ∈ c.copies b, 0 ≤ r.2 ∧ 0 ≤ r.1 ∧ r.1 + r.2 ≤ b.size
  answers : c.Answers b ok b'
  length : 0 ≤ b'.length ∧ b'.length ≤ b'.size

/-- No argument is negative, and the sum that is tested does not overflow. -/
def Proper (b : ByteBuffer) : Call → Prop
  | .addData _ len _ => 0 ≤ len.toInt ∧ b.length + len.toInt < 2 ^ 31
  | .getData _ index len _ =>
    0 ≤ index.toInt ∧ 0 ≤ len.toInt ∧ index.toInt + len.toInt < 2 ^ 31
  | .removeData len => 0 ≤ len.toInt
  | .clear => True

instance decidableGuard (b : ByteBuffer) : (c : Call) → Decidable (c.Guard b)
  | .addData _ _ _ => instDecidableTrue
  | .getData _ _ _ _ => Int.decLe _ _
  | .removeData _ => Int.decLe _ _
  | .clear => instDecidableTrue

instance decidableProper (b : ByteBuffer) : (c : Call) → Decidable (c.Proper b)
  | .addData _ _ _ => instDecidableAnd
  | .getData _ _ _ _ => instDecidableAnd
  | .removeData _ => Int.decLe _ _
  | .clear => instDecidableTrue

end Call

/-- Each call of a sequence passes its guard, as far as the sequence is carried out. -/
def Guarded : ByteBuffer → List Call → Prop
  | _, [] => True
  | b, c :: cs => c.Guard b ∧ ∀ r, c.exec b = some r → Guarded r.2 cs

/-- Every call of a sequence is carried out, and is sound. -/
def Protected : ByteBuffer → List Call → Prop
  | _, [] => True
  | b, c :: cs => ∃ ok b', c.exec b = some (ok, b') ∧ c.Sound b ok b' ∧ Protected b' cs

def AllProper : ByteBuffer → List Call → Prop
  | _, [] => True
  | b, c :: cs => c.Proper b ∧ ∀ r, c.exec b = some r → AllProper r.2 cs

theorem clear_valid {b : ByteBuffer} (hv : b.Valid) : b.clear.Valid := by
  have hsize : 0 ≤ b.size := Int.le_trans hv.length_nonneg hv.length_le
  exact ⟨hv.data_length, Int.le_refl 0, hsize, hv.size_lt⟩

section
variable {b : ByteBuffer}

theorem addData_sound {data : List Byte} {len : Int32} {room : len.toInt ≤ data.length}
    (h : (Call.addData data len room).Proper b) (hv : b.Valid) :
    ∃ ok b', (Call.addData data len room).exec b = some (ok, b') ∧ b'.Valid ∧
      (Call.addData data len room).Sound b ok b' := by
  have hn := hv.length_nonneg
  have hle := hv.length_le
  obtain ⟨h0, hsum⟩ := h
  obtain ⟨n, hlen⟩ := Int.eq_ofNat_of_zero_le h0
  have hw : wrap32 (b.length + len.toInt) = b.length + len.toInt := wrap32_eq (by omega) hsum
  by_cases hf : b.length + len.toInt ≤ b.size
  · rw [hlen] at hf room
    obtain ⟨b', ha, hb', hsize, _⟩ := addData_fits hv (show n ≤ data.length by omega) hf
    rw [← hlen] at ha hf
    refine ⟨true, b', ha, hb', ?_, ⟨iff_of_true rfl ⟨h0, by omega⟩, by simp⟩,
      hb'.length_nonneg, hb'.length_le⟩
    intro r hr
    simp only [Call.copies, hw, if_neg (show ¬ b.length + len.toInt > b.size by omega),
      List.mem_singleton] at hr
    subst hr
    exact ⟨h0, hn, hf⟩
  · have ha : b.addData data len.toInt = some (false, b) := addData_refused hv hsum (by omega)
    refine ⟨false, b, ha, hv, ?_, ⟨iff_of_false (by simp) (by omega), fun _ => rfl⟩, hn, hle⟩
    intro r hr
    simp only [Call.copies, hw, if_pos (show b.length + len.toInt > b.size by omega)] at hr
    cases hr

theorem getData_sound {dst : List Byte} {index len : Int32} {room : len.toInt ≤ dst.length}
    (h : (Call.getData dst index len room).Proper b) (hv : b.Valid)
    (hg : wrap32 (index.toInt + len.toInt) ≤ b.length) :
    ∃ ok b', (Call.getData dst index len room).exec b = some (ok, b') ∧ b'.Valid ∧
      (Call.getData dst index len room).Sound b ok b' := by
  have hle := hv.length_le
  obtain ⟨hi, h0, hsum⟩ := h
  obtain ⟨k, hk⟩ := Int.eq_ofNat_of_zero_le hi
  obtain ⟨n, hlen⟩ := Int.eq_ofNat_of_zero_le h0
  rw [wrap32_eq (by omega) hsum] at hg
  have hget := getData_valid hv (show (k : Int) + n ≤ b.length by omega)
    (show n ≤ dst.length by omega)
  rw [← hk, ← hlen] at hget
  refine ⟨true, b, ?_, hv, ?_, trivial, hv.length_nonneg, hle⟩
  · rw [Call.exec, hget]
    rfl
  · intro r hr
    rw [List.mem_singleton.mp hr]
    exact ⟨h0, hi, by change index.toInt + len.toInt ≤ b.size; omega⟩

theorem removeData_sound {len : Int32} (h : 0 ≤ len.toInt) (hv : b.Valid)
    (hg : len.toInt ≤ b.length) :
    ∃ ok b', (Call.removeData len).exec b = some (ok, b') ∧ b'.Valid ∧
      (Call.removeData len).Sound b ok b' := by
  have hle := hv.length_le
  have hlt := hv.size_lt
  obtain ⟨n, hlen⟩ := Int.eq_ofNat_of_zero_le h
  obtain ⟨b', hr, hb', hsize, _⟩ := removeData_valid hv (show (n : Int) ≤ b.length by omega)
  rw [← hlen] at hr
  refine ⟨true, b', ?_, hb', ?_, trivial, hb'.length_nonneg, hb'.length_le⟩
  · rw [Call.exec, hr]
    rfl
  · intro r hr
    have hw : wrap32 (b.length - len.toInt) = b.length - len.toInt :=
      wrap32_eq (by omega) (by omega)
    simp only [Call.copies, hw] at hr
    split at hr
    next hpos =>
      simp only [List.mem_cons, List.not_mem_nil, or_false] at hr
      rcases hr with rfl | rfl
      · exact ⟨by change 0 ≤ b.length - len.toInt; omega, Int.le_refl 0,
          by change 0 + (b.length - len.toInt) ≤ b.size; omega⟩
      · exact ⟨by change 0 ≤ b.length - len.toInt; omega, h,
          by change len.toInt + (b.length - len.toInt) ≤ b.size; omega⟩
    next => cases hr

/-- A call with proper arguments that passes its guard. -/
theorem Call.Proper.exec {c : Call} (h : c.Proper b) (hv : b.Valid) (hg : c.Guard b) :
    ∃ ok b', c.exec b = some (ok, b') ∧ b'.Valid ∧ c.Sound b ok b' := by
  cases c with
  | addData data len room => exact addData_sound h hv
  | getData dst index len room => exact getData_sound h hv hg
  | removeData len => exact removeData_sound h hv hg
  | clear =>
    have hb' := clear_valid hv
    exact ⟨true, b.clear, rfl, hb', by simp [Call.copies], trivial, hb'.length_nonneg,
      hb'.length_le⟩

/-- Removing a negative number of bytes either starts a copy before the array, or leaves a negative
length. -/
theorem removeData_nonneg {len : Int32} {b' : ByteBuffer} {ok : Bool} (hv : b.Valid)
    (h : (Call.removeData len).Sound b ok b')
    (hexec : (Call.removeData len).exec b = some (ok, b')) : 0 ≤ len.toInt := by
  have hn := hv.length_nonneg
  have hle := hv.length_le
  have hlt := hv.size_lt
  have hlow := len.le_toInt
  by_contra hno
  by_cases hrest : 0 < wrap32 (b.length - len.toInt)
  · have hcopy := h.inside (len.toInt, wrap32 (b.length - len.toInt)) (by simp [Call.copies, hrest])
    exact hno hcopy.2.1
  · have hneg : wrap32 (b.length - len.toInt) < 0 := by
      unfold wrap32 at hrest ⊢
      omega
    have hlength := h.length.1
    simp only [Call.exec, ByteBuffer.removeData, if_neg hrest, Option.map_some, Option.some.injEq,
      Prod.mk.injEq] at hexec
    rw [← hexec.2] at hlength
    exact absurd hlength (by change ¬ 0 ≤ wrap32 _; omega)

/-- A call that does no harm had proper arguments: a negative one passes each of the guards, and so
does a sum that overflows. -/
theorem Call.Sound.proper {c : Call} {ok : Bool} {b' : ByteBuffer} (h : c.Sound b ok b')
    (hv : b.Valid) (hexec : c.exec b = some (ok, b')) : c.Proper b := by
  have hn := hv.length_nonneg
  have hle := hv.length_le
  have hlt := hv.size_lt
  cases c with
  | addData data len room =>
    have hlow := len.le_toInt
    have hhigh := len.toInt_lt
    by_contra hno
    have hguard : ¬ wrap32 (b.length + len.toInt) > b.size := by
      change ¬ (0 ≤ len.toInt ∧ b.length + len.toInt < 2 ^ 31) at hno
      unfold wrap32
      omega
    obtain ⟨h0, _, hend⟩ := h.inside (b.length, len.toInt) (by simp [Call.copies, hguard])
    exact hno ⟨h0, by dsimp only at hend; omega⟩
  | getData dst index len room =>
    obtain ⟨h0, hi, hend⟩ := h.inside (index.toInt, len.toInt) (by simp [Call.copies])
    exact ⟨hi, h0, by dsimp only at hend; omega⟩
  | removeData len => exact removeData_nonneg hv h hexec
  | clear => trivial

/-- A sequence of calls from any buffer in order. -/
theorem Valid.protected_iff {cs : List Call} (hv : b.Valid) (hg : Guarded b cs) :
    Protected b cs ↔ AllProper b cs := by
  induction cs generalizing b with
  | nil => exact Iff.rfl
  | cons c cs ih =>
    obtain ⟨hguard, hrest⟩ := hg
    constructor
    · rintro ⟨ok, b', hexec, hsound, hprotected⟩
      have hproper := hsound.proper hv hexec
      obtain ⟨_, _, hexec', hb', _⟩ := hproper.exec hv hguard
      rw [hexec] at hexec'
      cases hexec'
      refine ⟨hproper, fun r hr => ?_⟩
      rw [hexec] at hr
      cases hr
      exact (ih hb' (hrest _ hexec)).mp hprotected
    · rintro ⟨hproper, hall⟩
      obtain ⟨ok, b', hexec, hb', hsound⟩ := hproper.exec hv hguard
      exact ⟨ok, b', hexec, hsound, (ih hb' (hrest _ hexec)).mpr (hall _ hexec)⟩

end

/-- The calls on a new buffer. The guards bound the arguments from above only, and in 32-bit
arithmetic. -/
theorem guards_protect_iff {size : Int32} (hsize : 0 < size.toInt) {cs : List Call}
    (hg : Guarded (new size.toInt) cs) :
    Protected (new size.toInt) cs ↔ AllProper (new size.toInt) cs :=
  (new_valid (by omega) size.toInt_lt).protected_iff hg

/-- A block in, a copy of two bytes out, and one byte removed. -/
def usualCalls : List Call :=
  [.addData [1, 2, 3] 3 (by decide), .getData [0, 0] 1 2 (by decide), .removeData 1, .clear]

theorem usualCalls_protected : Protected (new 8) usualCalls := by
  have hg : Guarded (new (8 : Int32).toInt) usualCalls := by
    refine ⟨trivial, fun r hr => ?_⟩
    cases hr
    refine ⟨by decide, fun r hr => ?_⟩
    cases hr
    refine ⟨by decide, fun r hr => ?_⟩
    cases hr
    exact ⟨trivial, fun _ _ => trivial⟩
  refine (guards_protect_iff (show 0 < (8 : Int32).toInt by decide) hg).mpr ?_
  refine ⟨by decide, fun r hr => ?_⟩
  cases hr
  refine ⟨by decide, fun r hr => ?_⟩
  cases hr
  refine ⟨by decide, fun r hr => ?_⟩
  cases hr
  exact ⟨trivial, fun _ _ => trivial⟩

/-- A length of -1 passes the guards of `AddData` and of `RemoveData`. -/
theorem negative_length_passes :
    (Guarded (new 8) [.addData [] (-1) (by decide)] ∧
      ¬ Protected (new 8) [.addData [] (-1) (by decide)]) ∧
    Guarded (new 8) [.removeData (-1)] ∧ ¬ Protected (new 8) [.removeData (-1)] := by
  refine ⟨⟨⟨trivial, fun _ _ => trivial⟩, ?_⟩, ⟨by decide, fun _ _ => trivial⟩, ?_⟩
  · rintro ⟨ok, b', hexec, _⟩
    cases hexec
  · rintro ⟨ok, b', hexec, _⟩
    cases hexec

end ByteBuffer

end CppTry
