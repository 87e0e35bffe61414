import CppTry.FieldCodec

namespace CppTry

namespace DataUtil

def Kind.isString : Kind → Bool
  | string _ => true
  | _ => false

/-- `Read(src, index, &next)`. -/
def Kind.readNext (src : List Byte) (index next : Int) : (kind : Kind) → Option (kind.Value × Int)
  | uint16 => readUInt16 src index next
  | int16 => readInt16 src index next
  | uint32 => readUInt32 src index next
  | int32 => readInt32 src index next
  | uint64 => readUInt64 src index next
  | int64 => readInt64 src index next
  | float => readFloat src index next
  | string n => readString src index n

theorem Kind.readNext_self (src : List Byte) (index : Int) (kind : Kind) :
    kind.readNext src index index = kind.read src index := by
  cases kind <;> rfl

section
variable (src : List Byte) (index next next' : Int)

theorem readUInt16_next : readUInt16 src index next =
    (readUInt16 src index next').map fun r => (r.1, next + 2) := by
  simp [readUInt16, Option.map_bind, Function.comp_def]

theorem readUInt32_next : readUInt32 src index next =
    (readUInt32 src index next').map fun r => (r.1, next + 4) := by
  simp [readUInt32, Option.map_bind, Function.comp_def]

theorem readUInt64_next : readUInt64 src index next =
    (readUInt64 src index next').map fun r => (r.1, next + 8) := by
  simp [readUInt64, Option.map_bind, Function.comp_def]

theorem readInt16_next : readInt16 src index next =
    (readInt16 src index next').map fun r => (r.1, next + 2) := by
  unfold readInt16
  rw [readUInt16_next src index next next', Option.map_map, Option.map_map]
  rfl

theorem readInt32_next : readInt32 src index next =
    (readInt32 src index next').map fun r => (r.1, next + 4) := by
  unfold readInt32
  rw [readUInt32_next src index next next', Option.map_map, Option.map_map]
  rfl

theorem readInt64_next : readInt64 src index next =
    (readInt64 src index next').map fun r => (r.1, next + 8) := by
  unfold readInt64
  rw [readUInt64_next src index next next', Option.map_map, Option.map_map]
  rfl

theorem readFloat_next : readFloat src index next =
    (readFloat src index next').map fun r => (r.1, next + 4) := by
  simp [readFloat, Option.map_bind, Function.comp_def]

end

/-- The readers of numbers add the width of the number to what `next` held. -/
theorem Kind.readNext_add {kind : Kind} (h : kind.isString = false) :
    ∃ width : Int, ∀ (src : List Byte) (index next : Int), kind.readNext src index next =
      (kind.read src index).map fun r => (r.1, next + width) := by
  cases kind with
  | uint16 => exact ⟨2, fun src index next => readUInt16_next src index next index⟩
  | uint32 => exact ⟨4, fun src index next => readUInt32_next src index next index⟩
  | uint64 => exact ⟨8, fun src index next => readUInt64_next src index next index⟩
  | float => exact ⟨4, fun src index next => readFloat_next src index next index⟩
  | int16 => exact ⟨2, fun src index next => readInt16_next src index next index⟩
  | int32 => exact ⟨4, fun src index next => readInt32_next src index next index⟩
  | int64 => exact ⟨8, fun src index next => readInt64_next src index next index⟩
  | string n => cases h

/-- The position behind the field is right for a string, and else if `next` stood at the field. -/
theorem Kind.readNext_iff {kind : Kind} {src : List Byte} {o o' : Int} {value : kind.Value}
    (h : kind.read src o = some (value, o')) (next : Int) :
    ∃ r, kind.readNext src o next = some (value, r) ∧
      (r = o' ↔ kind.isString = true ∨ next = o) := by
  cases hk : kind.isString with
  | true =>
    refine ⟨o', ?_, by simp⟩
    cases kind with
    | string n => exact h
    | _ => cases hk
  | false =>
    obtain ⟨width, hw⟩ := Kind.readNext_add hk
    have hself := hw src o o
    rw [Kind.readNext_self, h, Option.map_some] at hself
    have ho : o' = o + width := (Prod.mk.inj (Option.some.inj hself)).2
    refine ⟨next + width, ?_, ?_⟩
    · rw [hw, h]
      rfl
    · simp only [Bool.false_eq_true, false_or]
      omega

theorem readFields_field {fs : List Field} {out : List Byte} {i : Int} {positions : List Int}
    (h : readFields out i (fs.map Field.kind) = some (fs.map Field.restored, positions))
    {k : Nat} {f : Field} (hk : fs[k]? = some f) :
    ∃ o o', (i :: positions)[k]? = some o ∧ positions[k]? = some o' ∧
      f.kind.read out o = some (f.kind.restored f.value, o') := by
  induction fs generalizing i positions k with
  | nil => simp at hk
  | cons g gs ih =>
    rw [List.map_cons, readFields] at h
    obtain ⟨⟨value, j⟩, hfirst, h⟩ := Option.bind_eq_some_iff.mp h
    obtain ⟨⟨values, rest⟩, hrest, h⟩ := Option.bind_eq_some_iff.mp h
    obtain ⟨hvalues, hpositions⟩ := Prod.mk.inj (Option.some.inj h)
    obtain ⟨hvalue, hvalues⟩ := List.cons.inj hvalues
    subst hpositions
    cases k with
    | zero =>
      cases hk
      cases hvalue
      exact ⟨i, j, rfl, rfl, hfirst⟩
    | succ k =>
      change readFields out j (gs.map Field.kind) = some (values, rest) at hrest
      rw [hvalues] at hrest
      exact ih hrest hk

/-- A field that is read at its own position comes back, and `next` is the position of the field
behind it exactly when the field is a string or `next` was the field's position before. -/
theorem random_access_iff (fs : List Field) (src : List Byte) (start : Nat)
    (hs : start + messageSize fs ≤ src.length) (hb : start + messageSize fs < 2 ^ 31) :
    ∃ (out : List Byte) (positions : List Int), writeFields src start fs = some (out, positions) ∧
      ∀ (k : Nat) (f : Field), fs[k]? = some f →
        ∃ o o', ((start : Int) :: positions)[k]? = some o ∧ positions[k]? = some o' ∧
          ∀ next : Int, ∃ r, f.kind.readNext out o next = some (f.kind.restored f.value, r) ∧
            (r = o' ↔ f.kind.isString = true ∨ next = o) := by
  obtain ⟨block, positions, hl, hw, _, hr⟩ := writeFields_stored fs hs hb
  have hlen : (splice src start block).length = src.length := length_splice (by omega)
  have hread := hr (splice src start block) (by omega) (splice_holds (by omega))
  refine ⟨_, positions, hw, fun k f hk => ?_⟩
  obtain ⟨o, o', ho, ho', hf⟩ := readFields_field hread hk
  exact ⟨o, o', ho, ho', Kind.readNext_iff hf⟩

/-- Two numbers of four bytes. -/
def twoNumbers : List Field := [⟨.int32, (7 : Int32), trivial⟩, ⟨.int32, (-8 : Int32), trivial⟩]

theorem twoNumbers_access : ∃ (out : List Byte) (positions : List Int),
    writeFields (zeros 8) 0 twoNumbers = some (out, positions) ∧
      ∃ r, Kind.readNext out 4 4 .int32 = some ((-8 : Int32), r) ∧ r = 8 := by
  obtain ⟨out, positions, hw, hall⟩ :=
    random_access_iff twoNumbers (zeros 8) 0 (by decide) (by decide)
  have hpositions : positions = [4, 8] := by
    have he : writeFields (zeros 8) (0 : Nat) twoNumbers = some (_, [4, 8]) := rfl
    exact (Prod.mk.inj (Option.some.inj (hw.symm.trans he))).2
  subst hpositions
  obtain ⟨o, o', ho, ho', hnext⟩ := hall 1 ⟨.int32, (-8 : Int32), trivial⟩ rfl
  cases ho
  cases ho'
  obtain ⟨r, hread, hiff⟩ := hnext 4
  exact ⟨out, _, hw, r, hread, hiff.mpr (Or.inr rfl)⟩

/-- The second of two numbers is read with a fresh `next`. -/
theorem twoNumbers_fresh_next : ∃ (out : List Byte) (r : Int),
    writeFields (zeros 8) 0 twoNumbers = some (out, [4, 8]) ∧
      Kind.readNext out 4 0 .int32 = some ((-8 : Int32), r) ∧ r ≠ 8 :=
  ⟨_, 4, rfl, rfl, by decide⟩

end DataUtil

end CppTry
