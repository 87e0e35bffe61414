import CppTry.StrPair

namespace CppTry

theorem drop_splice_behind {α : Type} {xs ys : List α} {i j : Nat} (hi : i ≤ xs.length)
    (hj : i + ys.length ≤ j) : (splice xs i ys).drop j = xs.drop j := by
  obtain ⟨k, rfl⟩ := Nat.exists_eq_add_of_le hj
  have hlen : (xs.take i ++ ys).length = i + ys.length := by simp [hi]
  rw [splice, ← List.drop_drop, List.drop_left' hlen, List.drop_drop]

/-- The C string at a position. A NUL has to end it within the memory. -/
def cStringAt (mem : List Byte) (i : Nat) : Option (List Byte) :=
  if 0 ∈ mem.drop i then some ((mem.drop i).takeWhile (· ≠ 0)) else none

theorem cStringAt_eq {mem s rest : List Byte} {i : Nat} (h : mem.drop i = s ++ 0 :: rest)
    (hs : 0 ∉ s) : cStringAt mem i = some s := by
  unfold cStringAt
  rw [h, if_pos (by simp), List.takeWhile_append_of_pos (all_ne hs)]
  simp

namespace StrPair
open XMLUtil

/-- The loop of `GetStr` in memory, with its read pointer and its write pointer. -/
def getStrLoopAt (build : Build) (flags : Flags) (stop : Nat) :
    Nat → List Byte → Nat → Nat → Option (List Byte × Nat)
  | 0, _, _, _ => none
  | fuel + 1, mem, p, q =>
    if p < stop then do
      let c ← mem[p]?
      let ahead ← cStringAt mem (p + 1)
      let (passed, written) := turn build flags c ahead
      match written with
      | none => getStrLoopAt build flags stop fuel mem (p + passed) (q + 1)
      | some value => do
        let mem ← memcpy mem q value 0 value.length
        getStrLoopAt build flags stop fuel mem (p + passed) (q + value.length)
    else some (mem, q)

/-- `SkipWhiteSpace` in memory. -/
def skipWhiteSpaceAt (mem : List Byte) (p : Nat) : Option Nat :=
  (cStringAt mem p).map fun s => p + (s.takeWhile isWhiteSpace).length

/-- The loop of `CollapseWhitespace` in memory. -/
def collapseLoopAt : Nat → List Byte → Nat → Nat → Option (List Byte × Nat)
  | 0, _, _, _ => none
  | fuel + 1, mem, p, q => do
    let c ← mem[p]?
    if c = 0 then some (mem, q)
    else if isWhiteSpace c then do
      let p ← skipWhiteSpaceAt mem p
      if mem[p]? = some 0 then some (mem, q)
      else do
        let mem ← writeByte mem q (chr ' ')
        let d ← mem[p]?
        let mem ← writeByte mem (q + 1) d
        collapseLoopAt fuel mem (p + 1) (q + 2)
    else do
      let mem ← writeByte mem q c
      collapseLoopAt fuel mem (p + 1) (q + 1)

/-- `CollapseWhitespace`, with `_start`. -/
def collapseWhitespaceAt (mem : List Byte) (start : Nat) : Option (List Byte × Nat) := do
  let start ← skipWhiteSpaceAt mem start
  let c ← mem[start]?
  if c = 0 then some (mem, start)
  else do
    let (mem, q) ← collapseLoopAt (mem.length + 1) mem start start
    let mem ← writeByte mem q 0
    some (mem, start)

/-- What `GetStr` does where a flag is left: the loop, and the NUL behind what it writes. -/
def flushAt (build : Build) (flags : Flags) (mem : List Byte) (start stop : Nat) :
    Option (List Byte) :=
  if flags.needsEntityProcessing || flags.needsNewlineNormalization ||
      flags.needsWhitespaceCollapsing then do
    let (mem, q) ← getStrLoopAt build flags stop (stop + 1) mem start start
    writeByte mem q 0
  else some mem

/-- `GetStr` of a `StrPair` that needs a flush: the memory, and `_start`. -/
def getStrAt (build : Build) (flags : Flags) (mem : List Byte) (start stop : Nat) :
    Option (List Byte × Nat) := do
  let mem ← writeByte mem stop 0
  let mem ← flushAt build flags mem start stop
  if flags.needsWhitespaceCollapsing then collapseWhitespaceAt mem start else some (mem, start)

theorem convertUTF32ToUTF8_length (ucs : Nat) : (convertUTF32ToUTF8 ucs).length ≤ 4 := by
  unfold convertUTF32ToUTF8
  split_ifs <;> simp

theorem beforeSemicolon_length {q body : List Byte} (h : beforeSemicolon q = some body) :
    body.length < q.length := by
  unfold beforeSemicolon at h
  split at h
  next hs =>
    cases h
    obtain ⟨front, back, rfl, hf⟩ := List.eq_append_cons_of_mem hs
    have hall : ∀ c ∈ front, decide (c ≠ chr ';') = true := all_ne hf
    rw [List.takeWhile_append_of_pos hall, List.takeWhile_cons_of_neg (by simp)]
    simp
  next => cases h

theorem convertUTF32ToUTF8_fits (build : Build) (base : Nat) (digit : Byte → Option Nat)
    {body : List Byte} {mark : Byte} {ucs n : Nat}
    (h : addDigits build base digit (body.reverse.takeWhile (· ≠ mark)) 0 1 = some ucs)
    (hn : body.length + 3 ≤ n) : (convertUTF32ToUTF8 ucs).length ≤ n := by
  cases body with
  | nil =>
    cases h
    change 1 ≤ n
    omega
  | cons c body =>
    have hle := convertUTF32ToUTF8_length ucs
    rw [List.length_cons] at hn
    omega

theorem getCharacterRef_fits {build : Build} {p value : List Byte} {passed : Nat}
    (h : getCharacterRef build p = some (passed, value)) (hp : p ≠ []) :
    passed ≤ p.length ∧ value.length ≤ passed := by
  have hpos := List.length_pos_iff.mpr hp
  unfold getCharacterRef at h
  split at h
  next first hash mark q =>
    split at h
    next =>
      split at h
      next =>
        obtain ⟨body, hbody, h⟩ := Option.bind_eq_some_iff.mp h
        obtain ⟨ucs, hucs, h⟩ := Option.bind_eq_some_iff.mp h
        cases h
        have hlt := beforeSemicolon_length hbody
        refine ⟨?_, convertUTF32ToUTF8_fits build _ _ hucs (by omega)⟩
        simp only [List.length_cons]
        omega
      next =>
        obtain ⟨body, hbody, h⟩ := Option.bind_eq_some_iff.mp h
        obtain ⟨ucs, hucs, h⟩ := Option.bind_eq_some_iff.mp h
        cases h
        have hlt := beforeSemicolon_length hbody
        refine ⟨?_, convertUTF32ToUTF8_fits build _ _ hucs (by omega)⟩
        simp only [List.length_cons] at hlt ⊢
        omega
    next =>
      cases h
      exact ⟨hpos, Nat.zero_le _⟩
  next =>
    cases h
    exact ⟨hpos, Nat.zero_le _⟩

/-- A turn reads what is there, and writes no more than it has read. -/
theorem turn_fits {build : Build} {flags : Flags} {c : Byte} {p : List Byte} {passed : Nat}
    {written : Option (List Byte)} (h : turn build flags c p = (passed, written)) :
    passed ≤ p.length + 1 ∧ ∀ b, (written.getD [b]).length ≤ passed := by
  have hpair (d : Byte) : (if p.head? = some d then 2 else 1) ≤ p.length + 1 ∧
      1 ≤ if p.head? = some d then 2 else 1 := by
    split
    next hd =>
      have hlen := List.length_pos_of_mem (List.mem_of_head? hd)
      omega
    next => omega
  unfold turn at h
  split at h
  next =>
    cases h
    exact ⟨(hpair _).1, fun _ => (hpair _).2⟩
  next =>
    split at h
    next =>
      cases h
      exact ⟨(hpair _).1, fun _ => (hpair _).2⟩
    next =>
      split at h
      next =>
        split at h
        next =>
          split at h
          next =>
            cases h
            exact ⟨by omega, fun _ => le_refl 1⟩
          next passed' value hr =>
            cases h
            obtain ⟨hle, hv⟩ := getCharacterRef_fits hr (List.cons_ne_nil c p)
            exact ⟨hle, fun _ => hv⟩
        next =>
          split at h
          next entity hf =>
            cases h
            have hmatch := List.find?_some hf
            have hle := (List.isPrefixOf_iff_prefix.mp hmatch).length_le
            rw [List.length_append, List.length_singleton] at hle
            refine ⟨by omega, fun _ => ?_⟩
            change 1 ≤ _
            omega
          next =>
            cases h
            exact ⟨by omega, fun _ => le_refl 1⟩
      next =>
        cases h
        exact ⟨by omega, fun _ => le_refl 1⟩

section
variable {mem raw rest : List Byte} {start : Nat}

theorem le_of_drop {c : Byte} {s : List Byte} (h : mem.drop start = s ++ c :: rest) :
    start + s.length < mem.length := by
  have hlen := congrArg List.length h
  rw [List.length_drop, List.length_append, List.length_cons] at hlen
  omega

theorem drop_done {s front p : List Byte} (h : mem.drop start = s ++ rest) (hs : s = front ++ p)
    {out : List Byte} (hout : out.length ≤ front.length) (hle : start ≤ mem.length) :
    (splice mem start out).drop (start + front.length) = p ++ rest := by
  rw [drop_splice_behind hle (Nat.add_le_add_left hout start), ← List.drop_drop, h, hs,
    List.append_assoc, List.drop_left]

theorem getElem?_of_drop {i : Nat} {c : Byte} {s : List Byte} (h : mem.drop i = c :: s) :
    mem[i]? = some c := by
  rw [← List.head?_drop, h]
  rfl

theorem drop_succ {i : Nat} {c : Byte} {s : List Byte} (h : mem.drop i = c :: s) :
    mem.drop (i + 1) = s := by
  rw [← List.drop_drop, h]
  rfl

theorem memcpy_splice {out value : List Byte} (h : start + (out.length + value.length) ≤ mem.length) :
    memcpy (splice mem start out) ((start + out.length : Nat) : Int) value 0 value.length =
      some (splice mem start (out ++ value)) := by
  have hlen : (splice mem start out).length = mem.length := length_splice (by omega)
  have hcopy : memcpy (splice mem start out) ((start + out.length : Nat) : Int) value (0 : Nat)
      (value.length : Nat) = some _ := memcpy_eq_some (by rw [hlen]; omega) (by omega)
  rw [List.drop_zero, List.take_length, splice_splice (by omega)] at hcopy
  exact hcopy

theorem writeByte_behind {out : List Byte} (b : Byte) (h : start + out.length < mem.length) :
    writeByte (splice mem start out) ((start + out.length : Nat) : Int) b =
      some (splice mem start (out ++ [b])) := by
  have hlen : (splice mem start out).length = mem.length := length_splice (by omega)
  unfold writeByte
  rw [if_pos (by omega), Int.toNat_natCast, List.set_eq_take_append_cons_drop,
    if_pos (by omega), ← splice_splice (by omega : start ≤ mem.length)]
  simp [splice]

/-- The loop in memory is the loop over the text: the write pointer does not overtake the read
pointer, so that what is left to read is still there. -/
theorem getStrLoopAt_eq (build : Build) (flags : Flags) (h : mem.drop start = raw ++ 0 :: rest)
    (hz : 0 ∉ raw) {front p out : List Byte} (hraw : raw = front ++ p)
    (hout : out.length ≤ front.length) {fuel : Nat} (hf : p.length < fuel) :
    getStrLoopAt build flags (start + raw.length) fuel (splice mem start out) (start + front.length)
        (start + out.length) =
      some (splice mem start (getStrLoop build flags raw p out),
        start + (getStrLoop build flags raw p out).length) ∧
      (getStrLoop build flags raw p out).length ≤ raw.length := by
  have hlt := le_of_drop h
  obtain ⟨fuel, rfl⟩ := Nat.exists_eq_add_of_lt (Nat.zero_lt_of_lt hf)
  rw [Nat.zero_add] at hf ⊢
  fun_induction getStrLoop build flags raw p out generalizing front fuel with
  | case1 out =>
    rw [List.append_nil] at hraw
    subst hraw
    rw [getStrLoopAt, if_neg (Nat.lt_irrefl _)]
    exact ⟨rfl, hout⟩
  | case2 out c p passed written hturn ih =>
    have hlen : raw.length = front.length + (p.length + 1) := by
      rw [hraw, List.length_append, List.length_cons]
    have hdrop : (splice mem start out).drop (start + front.length) = c :: (p ++ 0 :: rest) :=
      drop_done h hraw hout (by omega)
    have hp : 0 ∉ p := fun hh => hz (by rw [hraw]; simp [hh])
    have hahead : cStringAt (splice mem start out) (start + front.length + 1) = some p :=
      cStringAt_eq (drop_succ hdrop) hp
    have hpos := turn_passed build flags c p
    rw [hturn] at hpos
    obtain ⟨hpassed, hwritten⟩ := turn_fits hturn
    have hnext : raw = (front ++ (c :: p).take passed) ++ p.drop (passed - 1) := by
      obtain ⟨k, rfl⟩ := Nat.exists_eq_add_of_le' hpos
      simp [hraw, List.append_assoc, List.take_succ_cons]
    have hfront : (front ++ (c :: p).take passed).length = front.length + passed := by
      rw [List.length_append, List.length_take, List.length_cons]
      omega
    have hfuel : (p.drop (passed - 1)).length < fuel := by
      rw [List.length_drop]
      rw [List.length_cons] at hf
      omega
    obtain ⟨fuel, rfl⟩ := Nat.exists_eq_add_of_lt (Nat.zero_lt_of_lt hfuel)
    rw [Nat.zero_add] at hfuel ⊢
    have hstep := hwritten (raw.getD out.length 0)
    have ih := ih hnext (by rw [hfront, List.length_append]; omega) fuel hfuel
    rw [hfront, List.length_append, ← Nat.add_assoc, ← Nat.add_assoc] at ih
    rw [getStrLoopAt, if_pos (by omega), getElem?_of_drop hdrop]
    simp only [Option.bind_eq_bind, Option.bind_some, hahead, hturn]
    cases written with
    | none =>
      -- the byte that is passed over is still that of the text before the call
      have hstale : splice mem start (out ++ [raw.getD out.length 0]) = splice mem start out := by
        have hbyte : (mem.drop (start + out.length)).take 1 = [raw.getD out.length 0] := by
          have hin : out.length < raw.length := by omega
          have hget : raw.getD out.length 0 = raw[out.length] := by simp [List.getD, hin]
          rw [← List.drop_drop, h, List.drop_append_of_le_length (by omega),
            List.drop_eq_getElem_cons hin, hget]
          rfl
        rw [← hbyte, splice_extend]
      rw [Option.getD_none, hstale] at ih
      rw [Option.getD_none]
      exact ih
    | some value =>
      have hcopy : memcpy (splice mem start out) ((start + out.length : Nat) : Int) value 0
          value.length = some (splice mem start (out ++ value)) := by
        refine memcpy_splice ?_
        rw [Option.getD_some] at hstep
        omega
      dsimp only
      rw [hcopy]
      exact ih

/-- What `CollapseWhitespace` writes behind a run of white space. -/
theorem collapseLoop_gap (p : List Byte) : collapseLoop true p =
    match p.dropWhile isWhiteSpace with
    | [] => []
    | c :: p => chr ' ' :: c :: collapseLoop false p := by
  induction p with
  | nil => rfl
  | cons c p ih =>
    rw [collapseLoop]
    cases hc : isWhiteSpace c with
    | true =>
      rw [List.dropWhile_cons_of_pos hc]
      exact ih
    | false =>
      rw [List.dropWhile_cons_of_neg (by simp [hc])]
      rfl

theorem exists_gap {c : Byte} (p : List Byte) (hc : isWhiteSpace c = true) : ∃ gap p',
    c :: p = gap ++ p' ∧ 1 ≤ gap.length ∧ (c :: p).takeWhile isWhiteSpace = gap ∧
      p.dropWhile isWhiteSpace = p' := by
  refine ⟨_, _, ?_, Nat.le_add_left 1 _, List.takeWhile_cons_of_pos hc, rfl⟩
  rw [List.cons_append, List.takeWhile_append_dropWhile]

theorem skipWhiteSpaceAt_eq {s : List Byte} (h : mem.drop start = s ++ 0 :: rest) (hz : 0 ∉ s) :
    skipWhiteSpaceAt mem start = some (start + (s.takeWhile isWhiteSpace).length) := by
  rw [skipWhiteSpaceAt, cStringAt_eq h hz]
  rfl

theorem collapseLoopAt_eq (h : mem.drop start = raw ++ 0 :: rest) (hz : 0 ∉ raw)
    {front p out : List Byte} (hraw : raw = front ++ p) (hout : out.length ≤ front.length) {fuel : Nat}
    (hf : p.length < fuel) :
    collapseLoopAt fuel (splice mem start out) (start + front.length) (start + out.length) =
      some (splice mem start (out ++ collapseLoop false p),
        start + (out ++ collapseLoop false p).length) ∧
      (out ++ collapseLoop false p).length ≤ raw.length := by
  have hlt := le_of_drop h
  induction fuel generalizing front p out with
  | zero => omega
  | succ fuel ih =>
    have hp : 0 ∉ p := fun hh => hz (by rw [hraw]; simp [hh])
    have hlen : raw.length = front.length + p.length := by rw [hraw, List.length_append]
    have hdrop : (splice mem start out).drop (start + front.length) = p ++ 0 :: rest :=
      drop_done h hraw hout (by omega)
    cases p with
    | nil =>
      rw [collapseLoopAt, getElem?_of_drop hdrop]
      simp only [Option.bind_eq_bind, Option.bind_some, if_true, collapseLoop, List.append_nil,
        true_and]
      omega
    | cons c p =>
      have hc : c ≠ 0 := fun he => hp (by simp [he])
      rw [collapseLoopAt, getElem?_of_drop hdrop]
      simp only [Option.bind_eq_bind, Option.bind_some, if_neg hc, collapseLoop]
      cases hw : isWhiteSpace c with
      | true =>
        obtain ⟨gap, p', hrun, hgap, htake, hrest⟩ := exists_gap p hw
        have hskip := skipWhiteSpaceAt_eq hdrop hp
        rw [htake] at hskip
        simp only [if_true, hskip, Option.bind_some, collapseLoop_gap, hrest]
        rw [hrun] at hp hraw
        rw [hrun, List.length_append] at hlen hf
        have hraw' : raw = (front ++ gap) ++ p' := by rw [hraw, List.append_assoc]
        have hfront : (front ++ gap).length = front.length + gap.length := List.length_append
        have hbehind {out : List Byte} (hout : out.length ≤ front.length + gap.length) :
            (splice mem start out).drop (start + front.length + gap.length) = p' ++ 0 :: rest := by
          rw [Nat.add_assoc, ← hfront]
          exact drop_done h hraw' (by rw [hfront]; exact hout) (by omega)
        cases p' with
        | nil =>
          rw [if_pos (getElem?_of_drop (hbehind (by omega)))]
          simp only [List.append_nil, true_and]
          omega
        | cons d p' =>
          have hd0 : d ≠ 0 := fun he => hp (by simp [he])
          rw [List.length_cons] at hlen hf
          have hspace : writeByte (splice mem start out) ((start + out.length : Nat) : Int) (chr ' ') =
              some (splice mem start (out ++ [chr ' '])) := writeByte_behind _ (by omega)
          have hlong : (out ++ [chr ' ']).length = out.length + 1 := by simp
          have hletter : writeByte (splice mem start (out ++ [chr ' ']))
              ((start + (out ++ [chr ' ']).length : Nat) : Int) d =
                some (splice mem start (out ++ [chr ' '] ++ [d])) := writeByte_behind _ (by omega)
          rw [hlong] at hletter
          rw [getElem?_of_drop (hbehind (by omega)), if_neg (by simpa using hd0), hspace,
            Option.bind_some, getElem?_of_drop (hbehind (by omega)), Option.bind_some]
          have hcast : ((start + out.length : Nat) : Int) + 1 = ((start + (out.length + 1) : Nat) : Int) := by
            omega
          rw [hcast, hletter, Option.bind_some]
          have hnext : raw = (front ++ gap ++ [d]) ++ p' := by simp [hraw']
          have hfront' : (front ++ gap ++ [d]).length = front.length + gap.length + 1 := by
            rw [List.length_append, hfront, List.length_singleton]
          have hout' : (out ++ [chr ' '] ++ [d]).length = out.length + 2 := by
            rw [List.length_append, hlong, List.length_singleton]
          have hbound : (out ++ [chr ' '] ++ [d]).length ≤ (front ++ gap ++ [d]).length := by omega
          have ih := ih hnext hbound (by omega)
          rw [hfront', hout', ← Nat.add_assoc, ← Nat.add_assoc] at ih
          simp only [List.append_assoc, List.cons_append, List.nil_append, ← Nat.add_assoc] at ih ⊢
          exact ih
      | false =>
        rw [List.length_cons] at hlen hf
        have hnext : raw = (front ++ [c]) ++ p := by simp [hraw]
        have hfront : (front ++ [c]).length = front.length + 1 := by simp
        have hout' : (out ++ [c]).length = out.length + 1 := by simp
        have hbound : (out ++ [c]).length ≤ (front ++ [c]).length := by omega
        have ih := ih hnext hbound (by omega)
        have hwrite : writeByte (splice mem start out) ((start + out.length : Nat) : Int) c =
            some (splice mem start (out ++ [c])) := writeByte_behind c (by omega)
        rw [hfront, hout', ← Nat.add_assoc, ← Nat.add_assoc] at ih
        simp only [if_false, hwrite, Option.bind_some, Bool.false_eq_true]
        rw [List.append_assoc] at ih
        exact ih

theorem collapseLoop_mem {gap : Bool} {p : List Byte} {b : Byte} (h : b ∈ collapseLoop gap p) :
    b = chr ' ' ∨ b ∈ p := by
  induction p generalizing gap with
  | nil => cases h
  | cons c p ih =>
    have hih {gap : Bool} (h : b ∈ collapseLoop gap p) : b = chr ' ' ∨ b ∈ c :: p :=
      (ih h).imp id (List.mem_cons_of_mem c)
    rw [collapseLoop] at h
    split at h
    next => exact hih h
    next =>
      split at h
      next =>
        rcases List.mem_cons.mp h with h | h
        · exact Or.inl h
        · rcases List.mem_cons.mp h with rfl | h
          · exact Or.inr List.mem_cons_self
          · exact hih h
      next =>
        rcases List.mem_cons.mp h with rfl | h
        · exact Or.inr List.mem_cons_self
        · exact hih h

theorem holds_of_drop {s : List Byte} (h : mem.drop start = s ++ rest) : Holds mem start s := by
  rw [Holds, h, List.take_left]

theorem zero_notMem_collapseWhitespace (hz : 0 ∉ raw) : 0 ∉ collapseWhitespace raw := by
  intro h
  rcases collapseLoop_mem h with h | h
  · exact absurd h (by decide)
  · exact hz ((List.dropWhile_suffix isWhiteSpace).mem h)

/-- The white space is collapsed within the room of the text. -/
theorem collapseWhitespaceAt_eq (h : mem.drop start = raw ++ 0 :: rest) (hz : 0 ∉ raw) :
    ∃ mem' start', collapseWhitespaceAt mem start = some (mem', start') ∧
      AgreeOutside mem mem' start (raw.length + 1) ∧ start ≤ start' ∧
      start' + (collapseWhitespace raw).length ≤ start + raw.length ∧
      Holds mem' start' (collapseWhitespace raw ++ [0]) := by
  have hlt := le_of_drop h
  obtain ⟨lead, s, hlead, hs, hraw⟩ : ∃ lead s, raw.takeWhile isWhiteSpace = lead ∧
      skipWhiteSpace raw = s ∧ raw = lead ++ s :=
    ⟨_, _, rfl, rfl, List.takeWhile_append_dropWhile.symm⟩
  have hlen : raw.length = lead.length + s.length := by rw [hraw, List.length_append]
  have hdrop : mem.drop (start + lead.length) = s ++ 0 :: rest := by
    rw [← List.drop_drop, h, hraw, List.append_assoc, List.drop_left]
  have hzs : 0 ∉ s := fun hh => hz (by rw [hraw]; exact List.mem_append_right _ hh)
  rw [collapseWhitespaceAt, skipWhiteSpaceAt_eq h hz, hlead, collapseWhitespace, hs]
  simp only [Option.bind_eq_bind, Option.bind_some]
  cases s with
  | nil =>
    rw [getElem?_of_drop hdrop]
    exact ⟨mem, _, rfl, AgreeOutside.refl mem start _, by omega, by simp [collapseLoop]; omega,
      holds_of_drop hdrop⟩
  | cons c s =>
    have hc : c ≠ 0 := fun he => hzs (by simp [he])
    have hfuel : (c :: s).length < mem.length + 1 := by omega
    obtain ⟨hloop, hfits⟩ := collapseLoopAt_eq hdrop hzs (List.nil_append _).symm
      (le_refl ([] : List Byte).length) hfuel
    simp only [List.length_nil, Nat.add_zero, splice_nil, List.nil_append] at hloop hfits
    have hend := writeByte_behind (0 : Byte)
      (by omega : start + lead.length + (collapseLoop false (c :: s)).length < mem.length)
    have hroom : (collapseLoop false (c :: s) ++ [0]).length = (collapseLoop false (c :: s)).length + 1 :=
      List.length_append
    rw [getElem?_of_drop hdrop, Option.bind_some, if_neg hc, hloop, Option.bind_some, hend]
    exact ⟨_, _, rfl, (splice_agreeOutside (by omega)).mono (by omega) (by omega), by omega, by omega,
      splice_holds (by omega)⟩

theorem splice_drop {out : List Byte} (h : start ≤ mem.length) :
    (splice mem start out).drop start = out ++ mem.drop (start + out.length) := by
  rw [splice, List.append_assoc, List.drop_left' (by simp [h])]

theorem splice_self (h : mem.drop start = raw ++ rest) : splice mem start raw = mem := by
  rw [splice, List.append_assoc, ← List.drop_drop, h, List.drop_left, ← h, List.take_append_drop]

/-- The text up to the first NUL that `GetStr` has written. -/
theorem exists_text {out : List Byte} (h : mem.drop start = out ++ 0 :: rest) : ∃ s rest',
    out.takeWhile (· ≠ 0) = s ∧ mem.drop start = s ++ 0 :: rest' ∧ 0 ∉ s ∧ s.length ≤ out.length := by
  by_cases hz : 0 ∈ out
  · obtain ⟨front, back, rfl, hf⟩ := List.eq_append_cons_of_mem hz
    refine ⟨front, back ++ 0 :: rest, ?_, by rw [h, List.append_assoc, List.cons_append], hf, by simp⟩
    rw [List.takeWhile_append_of_pos (all_ne hf), List.takeWhile_cons_of_neg (by simp), List.append_nil]
  · exact ⟨out, rest, List.takeWhile_eq_self_iff.mpr (all_ne hz), h, hz, le_refl _⟩

theorem getStrLoop_plain {build : Build} {flags : Flags} (he : flags.needsEntityProcessing = false)
    (hn : flags.needsNewlineNormalization = false) (raw p out : List Byte) :
    getStrLoop build flags raw p out = out ++ p := by
  induction p generalizing out with
  | nil => rw [getStrLoop, List.append_nil]
  | cons c p ih =>
    have hturn : turn build flags c p = (1, some [c]) := by simp [turn, he, hn]
    rw [getStrLoop, hturn]
    exact (ih _).trans (by simp)

theorem flushAt_eq (build : Build) (flags : Flags) (h : mem.drop start = raw ++ 0 :: rest)
    (hz : 0 ∉ raw) : ∃ mem' rest', flushAt build flags mem start (start + raw.length) = some mem' ∧
      AgreeOutside mem mem' start (raw.length + 1) ∧
      mem'.drop start = getStrLoop build flags raw raw [] ++ 0 :: rest' ∧
      (getStrLoop build flags raw raw []).length ≤ raw.length := by
  have hlt := le_of_drop h
  unfold flushAt
  split
  next =>
    have hfuel : raw.length < start + raw.length + 1 := by omega
    obtain ⟨hloop, hfits⟩ := getStrLoopAt_eq build flags h hz (List.nil_append _).symm
      (le_refl ([] : List Byte).length) hfuel
    simp only [List.length_nil, Nat.add_zero, splice_nil] at hloop hfits
    have hend := writeByte_behind (0 : Byte)
      (by omega : start + (getStrLoop build flags raw raw []).length < mem.length)
    have hroom : (getStrLoop build flags raw raw [] ++ [0]).length =
        (getStrLoop build flags raw raw []).length + 1 := List.length_append
    rw [hloop, Option.bind_eq_bind, Option.bind_some]
    refine ⟨_, _, hend, (splice_agreeOutside (by omega)).mono (le_refl _) (by omega),
      by rw [splice_drop (by omega), List.append_assoc, List.singleton_append], hfits⟩
  next hflags =>
    simp only [Bool.or_eq_true, not_or, Bool.not_eq_true] at hflags
    rw [getStrLoop_plain hflags.1.1 hflags.1.2, List.nil_append]
    exact ⟨mem, rest, rfl, AgreeOutside.refl mem start _, h, le_refl _⟩

/-- `GetStr` in memory leaves at `_start` the text that is read from `raw`, and stays within `raw`
and the byte behind it. -/
theorem getStrAt_eq (build : Build) (flags : Flags) {e : Byte} (h : mem.drop start = raw ++ e :: rest)
    (hz : 0 ∉ raw) : ∃ mem' start',
      getStrAt build flags mem start (start + raw.length) = some (mem', start') ∧
        AgreeOutside mem mem' start (raw.length + 1) ∧ start ≤ start' ∧
        start' + (getStr build flags raw).length ≤ start + raw.length ∧
        Holds mem' start' (getStr build flags raw ++ [0]) := by
  have hlt := le_of_drop h
  have hterminate := writeByte_behind (0 : Byte) hlt
  rw [splice_self h] at hterminate
  have hroom : (raw ++ [0]).length = raw.length + 1 := List.length_append
  have hagree : AgreeOutside mem (splice mem start (raw ++ [0])) start (raw.length + 1) := by
    rw [← hroom]
    exact splice_agreeOutside (by omega)
  have hdrop : (splice mem start (raw ++ [0])).drop start =
      raw ++ 0 :: mem.drop (start + (raw.length + 1)) := by
    rw [splice_drop (by omega), hroom, List.append_assoc, List.singleton_append]
  obtain ⟨mem', rest', hflush, hagree', hdrop', hfits⟩ := flushAt_eq build flags hdrop hz
  obtain ⟨s, rest'', htext, hs, hzs, hle⟩ := exists_text hdrop'
  rw [getStrAt, hterminate, Option.bind_eq_bind, Option.bind_some, hflush, Option.bind_some,
    getStr, htext]
  cases flags.needsWhitespaceCollapsing with
  | true =>
    obtain ⟨mem'', start', hcollapse, hagree'', hstart, hend, hholds⟩ := collapseWhitespaceAt_eq hs hzs
    exact ⟨mem'', start', hcollapse, (hagree.trans hagree').trans (hagree''.mono (le_refl _) (by omega)),
      hstart, by simp only [if_true]; omega, hholds⟩
  | false =>
    have hholds : Holds mem' start (s ++ [0]) :=
      holds_of_drop (by rw [hs, List.append_assoc, List.singleton_append])
    exact ⟨mem', start, rfl, hagree.trans hagree', le_refl _,
      by simp only [Bool.false_eq_true, if_false]; omega, hholds⟩

end

end StrPair

structure StrPair where
  flags : StrPair.Flags
  needsFlush : Bool
  start : Nat
  stop : Nat

/-- The memory of a document, and the `StrPair`s into it. -/
structure XMLBuffer where
  mem : List Byte
  pairs : List StrPair

namespace XMLBuffer
open StrPair

/-- `GetStr` of a `StrPair`, and the string at the pointer it returns. -/
def getStr (build : Build) (buffer : XMLBuffer) (i : Nat) : Option (XMLBuffer × List Byte) := do
  let pair ← buffer.pairs[i]?
  if pair.needsFlush then do
    let (mem, start) ← getStrAt build pair.flags buffer.mem pair.start pair.stop
    let s ← cStringAt mem start
    some (⟨mem, buffer.pairs.set i { pair with needsFlush := false, start }⟩, s)
  else do
    let s ← cStringAt buffer.mem pair.start
    some (buffer, s)

def getStrs (build : Build) (buffer : XMLBuffer) : List Nat → Option (XMLBuffer × List (List Byte))
  | [] => some (buffer, [])
  | i :: calls => do
    let (buffer, s) ← buffer.getStr build i
    let (buffer, strings) ← buffer.getStrs build calls
    some (buffer, s :: strings)

/-- Where a `StrPair` has been set, and the text it has been set over. -/
structure Extent where
  flags : Flags
  start : Nat
  raw : List Byte

namespace Extent

def pair (x : Extent) : StrPair := ⟨x.flags, true, x.start, x.start + x.raw.length⟩

def text (build : Build) (x : Extent) : List Byte := StrPair.getStr build x.flags x.raw

/-- The text is there, with a byte behind it that may become its NUL. -/
def Within (mem : List Byte) (x : Extent) : Prop := 0 ∉ x.raw ∧ ∃ e, Holds mem x.start (x.raw ++ [e])

/-- Neither text reaches the other, with the byte behind it. -/
def Apart (x y : Extent) : Prop :=
  x.start + x.raw.length < y.start ∨ y.start + y.raw.length < x.start

theorem Apart.symm {x y : Extent} (h : x.Apart y) : y.Apart x := Or.symm h

/-- What a `StrPair` over `x` is, until it is flushed and from then on. -/
inductive Reads (build : Build) (mem : List Byte) (x : Extent) : StrPair → Prop where
  | pending (h : x.Within mem) : Reads build mem x x.pair
  | flushed {start : Nat} (hstart : x.start ≤ start)
      (hstop : start + (x.text build).length ≤ x.start + x.raw.length)
      (h : Holds mem start (x.text build ++ [0])) :
      Reads build mem x ⟨x.flags, false, start, x.start + x.raw.length⟩

variable {build : Build} {mem mem' : List Byte} {x y : Extent}

theorem Reads.agree {pair : StrPair} (h : x.Reads build mem pair)
    (ha : AgreeOutside mem mem' y.start (y.raw.length + 1)) (hxy : x.Apart y) :
    x.Reads build mem' pair := by
  unfold Apart at hxy
  cases h with
  | pending h =>
    obtain ⟨hz, e, he⟩ := h
    refine Reads.pending ⟨hz, e, ha.holds he ?_⟩
    rw [List.length_append, List.length_singleton]
    omega
  | flushed hstart hstop h =>
    refine Reads.flushed hstart hstop (ha.holds h ?_)
    rw [List.length_append, List.length_singleton]
    omega

theorem zero_notMem_text (build : Build) (x : Extent) : 0 ∉ x.text build := by
  have hz : 0 ∉ (getStrLoop build x.flags x.raw x.raw []).takeWhile (· ≠ 0) := by
    intro h
    simpa using List.mem_takeWhile_imp h
  unfold text StrPair.getStr
  dsimp only
  split
  next => exact zero_notMem_collapseWhitespace hz
  next => exact hz

theorem cStringAt_holds {i : Nat} {s : List Byte} (h : Holds mem i (s ++ [0])) (hs : 0 ∉ s) :
    cStringAt mem i = some s := by
  have hdrop := List.take_append_drop (s ++ [0]).length (mem.drop i)
  rw [h, List.append_assoc, List.singleton_append] at hdrop
  exact cStringAt_eq hdrop.symm hs

end Extent

/-- Every `StrPair` of the buffer reads the text it has been set over. -/
def Sound (build : Build) (extents : List Extent) (buffer : XMLBuffer) : Prop :=
  ∀ (i : Nat) (x : Extent), extents[i]? = some x →
    ∃ pair, buffer.pairs[i]? = some pair ∧ x.Reads build buffer.mem pair

variable {build : Build} {extents : List Extent} {buffer : XMLBuffer}

theorem apart_of_pairwise (h : extents.Pairwise Extent.Apart) {i j : Nat} {x y : Extent}
    (hi : extents[i]? = some x) (hj : extents[j]? = some y) (hij : i ≠ j) : x.Apart y := by
  obtain ⟨hi', rfl⟩ := List.getElem?_eq_some_iff.mp hi
  obtain ⟨hj', rfl⟩ := List.getElem?_eq_some_iff.mp hj
  rcases Nat.lt_or_gt_of_ne hij with hlt | hlt
  · exact List.pairwise_iff_getElem.mp h i j hi' hj' hlt
  · exact (List.pairwise_iff_getElem.mp h j i hj' hi' hlt).symm

/-- A call returns the text of its `StrPair`, and no other `StrPair` reads another text after it. -/
theorem Sound.getStr (h : Sound build extents buffer) (hapart : extents.Pairwise Extent.Apart)
    {i : Nat} {x : Extent} (hx : extents[i]? = some x) : ∃ buffer',
      buffer.getStr build i = some (buffer', x.text build) ∧ Sound build extents buffer' := by
  obtain ⟨pair, hpair, hreads⟩ := h i x hx
  unfold XMLBuffer.getStr
  rw [hpair]
  simp only [Option.bind_eq_bind, Option.bind_some]
  cases hreads with
  | pending hw =>
    obtain ⟨hz, e, he⟩ := hw
    have hdrop := List.take_append_drop (x.raw ++ [e]).length (buffer.mem.drop x.start)
    rw [he, List.append_assoc, List.singleton_append] at hdrop
    obtain ⟨mem', start', hrun, hagree, hstart, hstop, hholds⟩ := getStrAt_eq build x.flags hdrop.symm hz
    have hs := Extent.cStringAt_holds hholds (Extent.zero_notMem_text build x)
    refine ⟨⟨mem', buffer.pairs.set i ⟨x.flags, false, start', x.start + x.raw.length⟩⟩, ?_, ?_⟩
    · rw [Extent.pair]
      simp only [if_true, hrun, Option.bind_some, hs]
      rfl
    · intro j y hy
      obtain ⟨pair, hpair', hreads⟩ := h j y hy
      by_cases hij : i = j
      · subst hij
        rw [hx] at hy
        cases hy
        exact ⟨_, List.getElem?_set_self (List.getElem?_eq_some_iff.mp hpair).1,
          Extent.Reads.flushed hstart hstop hholds⟩
      · exact ⟨pair, by rw [List.getElem?_set_ne hij, hpair'],
          hreads.agree hagree (apart_of_pairwise hapart hy hx (Ne.symm hij))⟩
  | flushed hstart hstop hholds =>
    refine ⟨buffer, ?_, h⟩
    have hs := Extent.cStringAt_holds hholds (Extent.zero_notMem_text build x)
    simp only [Bool.false_eq_true, if_false, hs, Option.bind_some]

theorem sound_pair (build : Build) {mem : List Byte} (h : ∀ x ∈ extents, x.Within mem) :
    Sound build extents ⟨mem, extents.map Extent.pair⟩ := by
  intro i x hx
  refine ⟨x.pair, by rw [List.getElem?_map, hx]; rfl, Extent.Reads.pending (h x ?_)⟩
  exact List.mem_of_getElem? hx

theorem Sound.getStrs (h : Sound build extents buffer) (hapart : extents.Pairwise Extent.Apart)
    (calls : List (Fin extents.length)) : ∃ buffer',
      buffer.getStrs build (calls.map fun i => i.val) =
        some (buffer', calls.map fun i => (extents.get i).text build) ∧ Sound build extents buffer' := by
  induction calls generalizing buffer with
  | nil => exact ⟨buffer, rfl, h⟩
  | cons i calls ih =>
    have hi : extents[i.val]? = some (extents.get i) := List.getElem?_eq_getElem i.isLt
    obtain ⟨buffer', hcall, hsound⟩ := h.getStr hapart hi
    obtain ⟨buffer'', hcalls, hsound'⟩ := ih hsound
    refine ⟨buffer'', ?_, hsound'⟩
    rw [List.map_cons, XMLBuffer.getStrs, hcall, Option.bind_eq_bind, Option.bind_some]
    dsimp only
    rw [hcalls]
    rfl

/-- In whatever order `GetStr` is called on the `StrPair`s of a document, and however often, every
call returns the text that is read from what the `StrPair` has been set over. -/
theorem getStrs_text (build : Build) {mem : List Byte} (h : ∀ x ∈ extents, x.Within mem)
    (hapart : extents.Pairwise Extent.Apart) (calls : List (Fin extents.length)) :
    ((⟨mem, extents.map Extent.pair⟩ : XMLBuffer).getStrs build (calls.map fun i => i.val)).map
      Prod.snd = some (calls.map fun i => (extents.get i).text build) := by
  obtain ⟨buffer', hrun, _⟩ := (sound_pair build h).getStrs hapart calls
  rw [hrun]
  rfl

/-- `<a t="&#x4e2d;"> 1 &lt;\t2 </a>`, with the name of the element, the attribute and the text of the
element as they are read in collapsing the white space. -/
def sample : List Extent :=
  [⟨⟨false, false, false⟩, 1, text "a"⟩, ⟨⟨false, false, false⟩, 3, text "t"⟩,
    ⟨textElement, 6, text "&#x4e2d;"⟩, ⟨⟨true, true, true⟩, 16, text " 1 &lt;\t2 "⟩]

def sampleMemory : List Byte := text "<a t=\"&#x4e2d;\"> 1 &lt;\t2 </a>"

theorem getStrs_sample : ((⟨sampleMemory, sample.map Extent.pair⟩ : XMLBuffer).getStrs .posix
    [3, 0, 2, 3, 1, 2]).map Prod.snd =
      some [text "1 < 2", text "a", [0xe4, 0xb8, 0xad], text "1 < 2", text "t", [0xe4, 0xb8, 0xad]] := by
  have hwithin : ∀ x ∈ sample, x.Within sampleMemory := by
    unfold sample
    simp only [List.forall_mem_cons, Extent.Within, Holds]
    exact ⟨⟨by decide, chr ' ', by decide⟩, ⟨by decide, chr '=', by decide⟩,
      ⟨by decide, chr '"', by decide⟩, ⟨by decide, chr '<', by decide⟩, by simp⟩
  have hapart : sample.Pairwise Extent.Apart := by
    unfold sample
    simp only [List.pairwise_cons, List.forall_mem_cons, List.not_mem_nil, false_implies, implies_true,
      List.Pairwise.nil, Extent.Apart]
    decide
  exact (getStrs_text .posix hwithin hapart ([3, 0, 2, 3, 1, 2] : List (Fin 4))).trans (by decide +kernel)

end XMLBuffer

end CppTry
