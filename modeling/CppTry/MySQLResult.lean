import CppTry.NetDefine
import CppTry.Memory
import Std.Data.ExtTreeMap
import Mathlib.Data.List.Induction

namespace CppTry

/-- A cell: `NULL`, or the bytes of its text before the NUL. -/
abbrev Cell := Option (List Byte)

/-- `MYSQL_RES`: the names of the fields, and the rows. -/
structure ResultSet where
  names : List (List Byte)
  rows : List (List Cell)
  width : ∀ row ∈ rows, row.length = names.length

/-- `result` has the rows that are still to be fetched, when there is a result. -/
structure MySQLResult where
  fieldNames : List (List Byte)
  nameToIndex : Std.ExtTreeMap (List Byte) Int
  result : Option (List (List Cell))
  curRecord : Option (List Cell)

namespace MySQLResult

/-- One turn of the loop in `Init`; a name that the map has stays as it is. -/
def addField (r : MySQLResult) (field : List Byte × Nat) : MySQLResult :=
  { r with
    fieldNames := r.fieldNames ++ [field.1]
    nameToIndex := r.nameToIndex.insertIfNew field.1 field.2 }

/-- A result without fields stops at an assertion, unless `NDEBUG` has taken it out. -/
def init (ndebug : Bool) (res : ResultSet) : Option MySQLResult :=
  let numFields := res.names.length
  if numFields > 0 ∨ ndebug then
    some (res.names.zipIdx.foldl addField ⟨[], ∅, some res.rows, none⟩)
  else none

def getRecord (r : MySQLResult) : Bool × MySQLResult :=
  match r.result with
  | none => (false, r)
  | some [] => (false, { r with curRecord := none })
  | some (row :: rows) => (true, { r with result := some rows, curRecord := some row })

def getIndex (r : MySQLResult) (name : List Byte) : Int := r.nameToIndex.getD name (-1)

/-- `m_CurRecord[index]`; without a record, or outside of it, the read has no value. -/
def valueStr (r : MySQLResult) (index : Int) : Option Cell :=
  match r.curRecord with
  | none => none
  | some row => if 0 ≤ index then row[index.toNat]? else none

/-- A cell read at an index. -/
def getCell {α : Type} (empty : α) (convert : List Byte → α) (r : MySQLResult) (index : Int) :
    Option α :=
  (r.valueStr index).map fun value => value.elim empty convert

end MySQLResult

/-- The number at the start of a text, behind spaces and a sign; 0 when there is none. -/
def leadingNumber (s : List Byte) : Int :=
  let s := s.dropWhile isSpace
  let neg := s.head? = some (chr '-')
  let s := if neg ∨ s.head? = some (chr '+') then s.tail else s
  let digits := s.takeWhile fun c => chr '0' ≤ c && c ≤ chr '9'
  let n : Nat := digits.foldl (fun n c => 10 * n + (c.toNat - 48)) 0
  if neg then -n else n

/-- A number outside the 64 bits is the nearest one inside; `_atoi64` and `strtoll` agree in this. -/
def atoi64 (s : List Byte) : Int64 :=
  Int64.ofInt (max (-2 ^ 63) (min (leadingNumber s) (2 ^ 63 - 1)))

/-- With glibc an `int` has the low half of what `strtol` finds. -/
def atoi (build : Build) (s : List Byte) : Int32 :=
  match build with
  | .win => Int32.ofInt (max (-2 ^ 31) (min (leadingNumber s) (2 ^ 31 - 1)))
  | .posix => (atoi64 s).toInt32

namespace MySQLResult

def getInt (build : Build) : MySQLResult → Int → Option Int32 := getCell 0 (atoi build)

def getInt64 : MySQLResult → Int → Option Int64 := getCell 0 atoi64

def getString : MySQLResult → Int → Option (List Byte) := getCell [] id

def getIntNamed (build : Build) (r : MySQLResult) (name : List Byte) : Option Int32 :=
  r.getInt build (r.getIndex name)

def getInt64Named (r : MySQLResult) (name : List Byte) : Option Int64 :=
  r.getInt64 (r.getIndex name)

def getStringNamed (r : MySQLResult) (name : List Byte) : Option (List Byte) :=
  r.getString (r.getIndex name)

/-- `n` calls of `GetRecord`. -/
def getRecords : Nat → MySQLResult → MySQLResult
  | 0, r => r
  | n + 1, r => getRecords n r.getRecord.2

/-- A read by name: of the current record at the index of a field of this name, or none at all, and
then the value for what is not there. -/
def ReadByName {α : Type} (empty : α) (convert : List Byte → α) (r : MySQLResult)
    (name : List Byte) (value : Option α) : Prop :=
  (∃ (record : List Cell) (i : Nat) (cell : Cell), r.curRecord = some record ∧
      r.getIndex name = i ∧ r.fieldNames[i]? = some name ∧ record[i]? = some cell ∧
      value = some (cell.elim empty convert)) ∨
    (name ∉ r.fieldNames ∨ r.curRecord = none) ∧ value = some empty

/-- The names of the fields, and for each name the first field that has it. -/
theorem foldl_addField (names : List (List Byte)) (rows : Option (List (List Cell))) :
    ∃ map : Std.ExtTreeMap (List Byte) Int,
      names.zipIdx.foldl addField ⟨[], ∅, rows, none⟩ = ⟨names, map, rows, none⟩ ∧
        ∀ name : List Byte, map[name]? = (names.findIdx? (· == name)).map Int.ofNat := by
  induction names using List.reverseRecOn with
  | nil => exact ⟨∅, rfl, by simp⟩
  | append_singleton names name ih =>
    obtain ⟨map, hfold, hmap⟩ := ih
    refine ⟨map.insertIfNew name names.length, ?_, ?_⟩
    · rw [List.zipIdx_append, List.foldl_append, hfold]
      simp [addField]
    · intro other
      have hin : name ∈ map ↔ name ∈ names := by
        rw [Std.ExtTreeMap.mem_iff_isSome_getElem?, hmap]
        simp
      rw [Std.ExtTreeMap.getElem?_insertIfNew, hmap, List.findIdx?_append]
      simp only [Std.compare_eq_iff_eq, hin]
      by_cases hother : name = other
      · subst hother
        cases hfound : names.findIdx? (· == name) with
        | none =>
          have hnot : name ∉ names := fun hm => by
            simpa using List.findIdx?_eq_none_iff.mp hfound name hm
          simp [hnot]
        | some i =>
          have hmem : name ∈ names := by
            obtain ⟨hi, he, _⟩ := List.findIdx?_eq_some_iff_getElem.mp hfound
            rw [← eq_of_beq he]
            exact List.getElem_mem hi
          simp [hmem]
      · simp [hother]

theorem init_eq {ndebug : Bool} {res : ResultSet} {r : MySQLResult} (h : init ndebug res = some r) :
    r.fieldNames = res.names ∧ r.result = some res.rows ∧ r.curRecord = none ∧
      ∀ name : List Byte, r.nameToIndex[name]? = (res.names.findIdx? (· == name)).map Int.ofNat := by
  obtain ⟨map, hfold, hmap⟩ := foldl_addField res.names (some res.rows)
  unfold init at h
  simp only [hfold] at h
  split at h
  · cases h
    exact ⟨rfl, rfl, rfl, hmap⟩
  · cases h

/-- `GetRecord` moves the cursor and nothing else. -/
theorem getRecords_eq {r : MySQLResult} {rows : List (List Cell)} (h : r.result = some rows)
    (n : Nat) : (getRecords n r).fieldNames = r.fieldNames ∧
      (getRecords n r).nameToIndex = r.nameToIndex ∧
      (getRecords n r).curRecord = if n = 0 then r.curRecord else rows[n - 1]? := by
  induction n generalizing r rows with
  | zero => exact ⟨rfl, rfl, rfl⟩
  | succ n ih =>
    cases rows with
    | nil =>
      have hstep : r.getRecord.2 = { r with curRecord := none } := by
        unfold getRecord
        rw [h]
      rw [getRecords, hstep]
      obtain ⟨hnames, hmap, hcur⟩ := ih (r := { r with curRecord := none }) h
      exact ⟨hnames, hmap, by simpa using hcur⟩
    | cons row rows =>
      have hstep : r.getRecord.2 = { r with result := some rows, curRecord := some row } := by
        unfold getRecord
        rw [h]
      rw [getRecords, hstep]
      obtain ⟨hnames, hmap, hcur⟩ :=
        ih (r := { r with result := some rows, curRecord := some row }) rfl
      refine ⟨hnames, hmap, ?_⟩
      rw [hcur]
      cases n with
      | zero => rfl
      | succ n => rfl

section
variable {r : MySQLResult} {name : List Byte}

theorem getIndex_eq (h : r.nameToIndex[name]? = (r.fieldNames.findIdx? (· == name)).map Int.ofNat) :
    if name ∈ r.fieldNames then
      ∃ i : Nat, r.getIndex name = i ∧ r.fieldNames[i]? = some name
    else r.getIndex name = -1 := by
  unfold getIndex
  rw [Std.ExtTreeMap.getD_eq_getD_getElem?, h]
  split_ifs with hm
  · cases hfound : r.fieldNames.findIdx? (· == name) with
    | none => exact absurd (List.findIdx?_eq_none_iff.mp hfound name hm) (by simp)
    | some i =>
      obtain ⟨hi, he, _⟩ := List.findIdx?_eq_some_iff_getElem.mp hfound
      refine ⟨i, rfl, ?_⟩
      rw [List.getElem?_eq_getElem hi, eq_of_beq he]
  · have hnone : r.fieldNames.findIdx? (· == name) = none := by
      rw [List.findIdx?_eq_none_iff]
      intro x hx
      simpa using fun he : x = name => hm (he ▸ hx)
    rw [hnone]
    rfl

/-- Every conversion: the value is read as it should be exactly when there is a record and a field
of this name. -/
theorem getCell_byName_iff {α : Type} (empty : α) (convert : List Byte → α)
    (h : r.nameToIndex[name]? = (r.fieldNames.findIdx? (· == name)).map Int.ofNat)
    (hw : ∀ record ∈ r.curRecord, record.length = r.fieldNames.length) :
    ReadByName empty convert r name (getCell empty convert r (r.getIndex name)) ↔
      r.curRecord.isSome ∧ name ∈ r.fieldNames := by
  have hindex := getIndex_eq h
  cases hcur : r.curRecord with
  | none =>
    have hvalue : getCell empty convert r (r.getIndex name) = none := by
      simp [getCell, valueStr, hcur]
    simp [ReadByName, hvalue]
  | some record =>
    split_ifs at hindex with hm
    · obtain ⟨i, hi, hname⟩ := hindex
      have hlt : i < record.length := by
        rw [hw record hcur]
        exact (List.getElem?_eq_some_iff.mp hname).1
      have hcell : record[i]? = some record[i] := List.getElem?_eq_getElem hlt
      refine iff_of_true (Or.inl ⟨record, i, record[i], hcur, hi, hname, hcell, ?_⟩) ⟨rfl, hm⟩
      simp [getCell, valueStr, hcur, hi, hcell]
    · have hvalue : getCell empty convert r (r.getIndex name) = none := by
        simp [getCell, valueStr, hcur, hindex]
      simp [ReadByName, hvalue, hm]

end

theorem getRecords_byName_iff {α : Type} (empty : α) (convert : List Byte → α) {ndebug : Bool}
    {res : ResultSet} {r : MySQLResult} (h : init ndebug res = some r) (n : Nat)
    (name : List Byte) :
    ReadByName empty convert (getRecords n r) name
        (getCell empty convert (getRecords n r) ((getRecords n r).getIndex name)) ↔
      (1 ≤ n ∧ n ≤ res.rows.length) ∧ name ∈ res.names := by
  obtain ⟨hnames, hrows, hcur, hmap⟩ := init_eq h
  obtain ⟨hnames', hmap', hcur'⟩ := getRecords_eq hrows n
  have hlookup : (getRecords n r).nameToIndex[name]? =
      ((getRecords n r).fieldNames.findIdx? (· == name)).map Int.ofNat := by
    rw [hmap', hnames', hnames, hmap]
  have hcurrent : (getRecords n r).curRecord.isSome ↔ 1 ≤ n ∧ n ≤ res.rows.length := by
    rw [hcur', hcur]
    split_ifs with hn
    · simp [hn]
    · rw [isSome_getElem?]
      omega
  have hwidth : ∀ record ∈ (getRecords n r).curRecord,
      record.length = (getRecords n r).fieldNames.length := by
    intro record hrecord
    rw [hcur', hcur] at hrecord
    rw [hnames', hnames]
    split_ifs at hrecord with hn
    · cases hrecord
    · exact res.width record (List.mem_of_getElem? hrecord)
  rw [← hcurrent, ← hnames, ← hnames']
  exact getCell_byName_iff empty convert hlookup hwidth

/-- The readers by name. Nothing looks at the -1 of `GetIndex`, nor at whether there is a record. -/
theorem read_by_name_iff (build : Build) {ndebug : Bool} {res : ResultSet} {r : MySQLResult}
    (h : init ndebug res = some r) (n : Nat) (name : List Byte) :
    (ReadByName 0 (atoi build) (getRecords n r) name ((getRecords n r).getIntNamed build name) ↔
      (1 ≤ n ∧ n ≤ res.rows.length) ∧ name ∈ res.names) ∧
    (ReadByName 0 atoi64 (getRecords n r) name ((getRecords n r).getInt64Named name) ↔
      (1 ≤ n ∧ n ≤ res.rows.length) ∧ name ∈ res.names) ∧
    (ReadByName [] id (getRecords n r) name ((getRecords n r).getStringNamed name) ↔
      (1 ≤ n ∧ n ≤ res.rows.length) ∧ name ∈ res.names) :=
  ⟨getRecords_byName_iff 0 (atoi build) h n name, getRecords_byName_iff 0 atoi64 h n name,
    getRecords_byName_iff [] id h n name⟩

/-- One server without a port. -/
def serverRow : ResultSet where
  names := [text "id", text "ip", text "port"]
  rows := [[some (text "10001"), some (text "127.0.0.1"), none]]
  width := by simp

theorem serverRow_port : ∃ r, init false serverRow = some r ∧
    ReadByName 0 (atoi .posix) (getRecords 1 r) (text "port")
      ((getRecords 1 r).getIntNamed .posix (text "port")) := by
  obtain ⟨r, hr⟩ : ∃ r, init false serverRow = some r := ⟨_, rfl⟩
  exact ⟨r, hr, (read_by_name_iff .posix hr 1 (text "port")).1.mpr (by simp [serverRow])⟩

/-- `m_CurRecord[-1]`, and the access through `NULL` before the first record. -/
theorem serverRow_name : ∃ r, init false serverRow = some r ∧
    ¬ ReadByName [] id (getRecords 1 r) (text "name")
      ((getRecords 1 r).getStringNamed (text "name")) ∧
    ¬ ReadByName [] id (getRecords 0 r) (text "ip")
      ((getRecords 0 r).getStringNamed (text "ip")) := by
  obtain ⟨r, hr⟩ : ∃ r, init false serverRow = some r := ⟨_, rfl⟩
  refine ⟨r, hr, fun h => ?_, fun h => ?_⟩
  · obtain ⟨_, hm⟩ := (getRecords_byName_iff [] id hr 1 (text "name")).mp h
    revert hm
    decide
  · obtain ⟨⟨hn, _⟩, _⟩ := (getRecords_byName_iff [] id hr 0 (text "ip")).mp h
    omega

end MySQLResult

end CppTry
