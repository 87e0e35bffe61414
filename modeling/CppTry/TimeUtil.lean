import Mathlib.Algebra.Group.Int.Defs
import Mathlib.Algebra.Group.Nat.Defs
import Mathlib.Data.List.Chain
import Mathlib.Tactic.Common

namespace CppTry

/-- The reference that `GetCurrentMillisecond` keeps. -/
structure TimeUtil where
  startSecond : Int
  startTickCount : Int

namespace TimeUtil

def new : TimeUtil := ⟨0, 0⟩

/-- The value of an `Int64` expression; an overflow wraps around. -/
def wrap64 (x : Int) : Int := (x + 2 ^ 63) % 2 ^ 64 - 2 ^ 63

/-- The wall clock in whole seconds, at `t` milliseconds of real time. -/
def getCurrentSecond (w0 t : Int) : Int := wrap64 ((w0 + t) / 1000)

/-- The ticks restart after 24.8 days. -/
def getTickCount (k0 t : Int) : Int := (k0 + t) % 2 ^ 31

/-- `second` and `tick` are what the two clocks show during the call. -/
def getCurrentMillisecond (second tick : Int) (s : TimeUtil) : Int × TimeUtil :=
  let s := if s.startSecond = 0 then ⟨wrap64 (second * 1000), tick⟩ else s
  let nowtick := tick
  let s := if nowtick < s.startTickCount then ⟨wrap64 (second * 1000), nowtick⟩ else s
  let gap := wrap64 (nowtick - s.startTickCount)
  (wrap64 (s.startSecond + gap), s)

/-- The values of the calls made at these times. -/
def milliseconds (w0 k0 : Int) (s : TimeUtil) : List Int → List Int
  | [] => []
  | t :: ts =>
    let (ret, s) := getCurrentMillisecond (getCurrentSecond w0 t) (getTickCount k0 t) s
    ret :: milliseconds w0 k0 s ts

/-- The values never go back, and each is less than a second from the real time. -/
def Faithful (w0 : Int) (times values : List Int) : Prop :=
  values.Pairwise (· ≤ ·) ∧ List.Forall₂ (fun t v => (v - (w0 + t)).natAbs < 1000) times values

/-- The whole second of a time, in milliseconds. -/
def wholeSecond (w0 t : Int) : Int := (w0 + t) / 1000 * 1000

/-- An `Int64` has the value. -/
def Fits (x : Int) : Prop := -2 ^ 63 ≤ x ∧ x < 2 ^ 63

/-- A call at `t` takes a new reference when the old one was taken at `base`. -/
def Rebases (w0 k0 base t : Int) : Prop :=
  wholeSecond w0 base = 0 ∨ getTickCount k0 t < getTickCount k0 base

instance (w0 k0 base t : Int) : Decidable (Rebases w0 k0 base t) :=
  inferInstanceAs (Decidable (_ ∨ _))

/-- How often the ticks have restarted. -/
def restarts (k0 t : Int) : Int := (k0 + t) / 2 ^ 31

/-- The calls at the given times, with the reference taken at `base` and the call before them made
at `previous`. A call that keeps the reference has had no restart since; at one that takes a new
reference, the second has not begun before what the last call returned. An `Int64` has the time. -/
def NoticedFrom (w0 k0 base previous : Int) : List Int → Prop
  | [] => True
  | t :: ts =>
    if Rebases w0 k0 base t then
      w0 + previous - (w0 + base) % 1000 ≤ wholeSecond w0 t ∧ Fits (wholeSecond w0 t) ∧
        NoticedFrom w0 k0 t t ts
    else
      restarts k0 t = restarts k0 base ∧ Fits (w0 + t - (w0 + base) % 1000) ∧
        NoticedFrom w0 k0 base t ts

def Noticed (w0 k0 : Int) : List Int → Prop
  | [] => True
  | t :: ts => Fits (wholeSecond w0 t) ∧ NoticedFrom w0 k0 t t ts

/-- The reference taken at a time. -/
def reference (w0 k0 base : Int) : TimeUtil := ⟨wrap64 (wholeSecond w0 base), getTickCount k0 base⟩

theorem wrap64_eq {x : Int} (h : Fits x) : wrap64 x = x := by
  obtain ⟨hl, hu⟩ := h
  unfold wrap64
  omega

theorem wrap64_add (x y : Int) : wrap64 (wrap64 x + wrap64 y) = wrap64 (x + y) := by
  unfold wrap64
  omega

theorem getCurrentSecond_wrap (w0 t : Int) :
    wrap64 (getCurrentSecond w0 t * 1000) = wrap64 (wholeSecond w0 t) := by
  unfold getCurrentSecond wholeSecond wrap64
  omega

theorem wholeSecond_eq (w0 t : Int) : wholeSecond w0 t = w0 + t - (w0 + t) % 1000 := by
  unfold wholeSecond
  omega

theorem getTickCount_eq (k0 t : Int) : getTickCount k0 t = k0 + t - 2 ^ 31 * restarts k0 t := by
  unfold getTickCount restarts
  omega

theorem getCurrentMillisecond_rebase {s : TimeUtil} {w0 t tick : Int}
    (h : s.startSecond = 0 ∨ tick < s.startTickCount) :
    getCurrentMillisecond (getCurrentSecond w0 t) tick s =
      (wrap64 (wholeSecond w0 t), ⟨wrap64 (wholeSecond w0 t), tick⟩) := by
  have hsame : wrap64 (wrap64 (wholeSecond w0 t) + wrap64 0) = wrap64 (wholeSecond w0 t) := by
    rw [wrap64_add, Int.add_zero]
  unfold getCurrentMillisecond
  rw [getCurrentSecond_wrap]
  by_cases hs : s.startSecond = 0
  · simp [hs, hsame]
  · simp [hs, h.resolve_left hs, hsame]

theorem getCurrentMillisecond_keep {s : TimeUtil} {tick : Int} (second : Int)
    (h : ¬ (s.startSecond = 0 ∨ tick < s.startTickCount)) :
    getCurrentMillisecond second tick s =
      (wrap64 (s.startSecond + wrap64 (tick - s.startTickCount)), s) := by
  obtain ⟨hs, ht⟩ := not_or.mp h
  simp [getCurrentMillisecond, hs, ht]

section
variable {w0 k0 base previous t : Int} {ts : List Int}

theorem milliseconds_rebase (hb : Fits (wholeSecond w0 base)) (h : Rebases w0 k0 base t) :
    milliseconds w0 k0 (reference w0 k0 base) (t :: ts) =
      wrap64 (wholeSecond w0 t) :: milliseconds w0 k0 (reference w0 k0 t) ts := by
  have hcall : getCurrentMillisecond (getCurrentSecond w0 t) (getTickCount k0 t)
      (reference w0 k0 base) = (wrap64 (wholeSecond w0 t), reference w0 k0 t) :=
    getCurrentMillisecond_rebase (h.imp (fun hz => (wrap64_eq hb).trans hz) id)
  rw [milliseconds, hcall]

theorem milliseconds_keep (hb : Fits (wholeSecond w0 base)) (h : ¬ Rebases w0 k0 base t) :
    milliseconds w0 k0 (reference w0 k0 base) (t :: ts) =
      wrap64 (wholeSecond w0 base + (getTickCount k0 t - getTickCount k0 base)) ::
        milliseconds w0 k0 (reference w0 k0 base) ts := by
  have hcall : getCurrentMillisecond (getCurrentSecond w0 t) (getTickCount k0 t)
      (reference w0 k0 base) = (wrap64 (wrap64 (wholeSecond w0 base) +
        wrap64 (getTickCount k0 t - getTickCount k0 base)), reference w0 k0 base) :=
    getCurrentMillisecond_keep _ fun hh => h (hh.imp (fun hz => (wrap64_eq hb).symm.trans hz) id)
  rw [milliseconds, hcall, wrap64_add]

theorem rebase_close_iff :
    (wrap64 (wholeSecond w0 t) - (w0 + t)).natAbs < 1000 ↔ Fits (wholeSecond w0 t) := by
  rw [wholeSecond_eq, wrap64, Fits]
  omega

/-- With the reference kept, a value is close to the real time exactly when the ticks have not
restarted since, and an `Int64` has it. -/
theorem keep_close_iff (hb : Fits (wholeSecond w0 base)) (h : ¬ Rebases w0 k0 base t) (hle : base ≤ t) :
    (wrap64 (wholeSecond w0 base + (getTickCount k0 t - getTickCount k0 base)) -
        (w0 + t)).natAbs < 1000 ↔
      restarts k0 t = restarts k0 base ∧ Fits (w0 + t - (w0 + base) % 1000) := by
  have hticks := (not_or.mp h).2
  have hlt : getTickCount k0 t < 2 ^ 31 := Int.emod_lt_of_pos _ (by omega)
  have hpos : 0 ≤ getTickCount k0 base := Int.emod_nonneg _ (by omega)
  have hrestarts : restarts k0 base ≤ restarts k0 t := by
    unfold restarts
    omega
  rw [Fits] at hb ⊢
  rw [getTickCount_eq] at hlt hpos
  rw [wholeSecond_eq] at hb ⊢
  rw [getTickCount_eq, getTickCount_eq] at hticks ⊢
  unfold wrap64
  constructor
  · intro h
    omega
  · intro h
    omega

theorem keep_value (h : restarts k0 t = restarts k0 base) (hf : Fits (w0 + t - (w0 + base) % 1000)) :
    wrap64 (wholeSecond w0 base + (getTickCount k0 t - getTickCount k0 base)) =
      w0 + t - (w0 + base) % 1000 := by
  have hsum : wholeSecond w0 base + (getTickCount k0 t - getTickCount k0 base) =
      w0 + t - (w0 + base) % 1000 := by
    rw [wholeSecond_eq, getTickCount_eq, getTickCount_eq, h]
    omega
  rw [hsum, wrap64_eq hf]

/-- The run from a reference, behind a call that has returned its value for `previous`. -/
theorem run_iff (h : List.IsChain (· ≤ ·) (previous :: ts)) (hp : base ≤ previous)
    (hb : Fits (wholeSecond w0 base)) :
    (List.IsChain (· ≤ ·) ((w0 + previous - (w0 + base) % 1000) ::
        milliseconds w0 k0 (reference w0 k0 base) ts) ∧
      List.Forall₂ (fun t v => (v - (w0 + t)).natAbs < 1000) ts
        (milliseconds w0 k0 (reference w0 k0 base) ts)) ↔ NoticedFrom w0 k0 base previous ts := by
  induction ts generalizing base previous with
  | nil => simp [milliseconds, NoticedFrom]
  | cons t ts ih =>
    obtain ⟨hle, hts⟩ := List.isChain_cons_cons.mp h
    have hbt : base ≤ t := Int.le_trans hp hle
    unfold NoticedFrom
    split_ifs with hr
    · rw [milliseconds_rebase hb hr, List.isChain_cons_cons, List.forall₂_cons, rebase_close_iff]
      constructor
      · rintro ⟨⟨hstep, hc⟩, hf, hclose⟩
        rw [wrap64_eq hf] at hstep hc
        rw [wholeSecond_eq] at hc
        exact ⟨hstep, hf, (ih hts (Int.le_refl t) hf).mp ⟨hc, hclose⟩⟩
      · rintro ⟨hstep, hf, hrest⟩
        obtain ⟨hc, hclose⟩ := (ih hts (Int.le_refl t) hf).mpr hrest
        rw [← wholeSecond_eq] at hc
        rw [wrap64_eq hf]
        exact ⟨⟨hstep, hc⟩, hf, hclose⟩
    · rw [milliseconds_keep hb hr, List.isChain_cons_cons, List.forall₂_cons, keep_close_iff hb hr hbt,
        ← ih hts hbt hb]
      constructor
      · rintro ⟨⟨_, hc⟩, ⟨hsame, hf⟩, hclose⟩
        rw [keep_value hsame hf] at hc
        exact ⟨hsame, hf, hc, hclose⟩
      · rintro ⟨hsame, hf, hc, hclose⟩
        rw [keep_value hsame hf]
        exact ⟨⟨by omega, hc⟩, ⟨hsame, hf⟩, hclose⟩

end

/-- The calls of a process, over any number of restarts of the ticks. A restart is seen only when
the ticks stand below the reference again, and a new reference starts at a whole second. -/
theorem milliseconds_faithful_iff (w0 k0 : Int) {times : List Int} (h : times.Pairwise (· ≤ ·)) :
    Faithful w0 times (milliseconds w0 k0 new times) ↔ Noticed w0 k0 times := by
  cases times with
  | nil => simp [Faithful, milliseconds, Noticed]
  | cons t ts =>
    have hfirst : milliseconds w0 k0 new (t :: ts) =
        wrap64 (wholeSecond w0 t) :: milliseconds w0 k0 (reference w0 k0 t) ts := by
      have hcall : getCurrentMillisecond (getCurrentSecond w0 t) (getTickCount k0 t) new =
          (wrap64 (wholeSecond w0 t), reference w0 k0 t) := getCurrentMillisecond_rebase (Or.inl rfl)
      rw [milliseconds, hcall]
    unfold Faithful
    simp only [Noticed]
    rw [hfirst, ← List.isChain_iff_pairwise, List.forall₂_cons, rebase_close_iff]
    have hchain := List.isChain_iff_pairwise.mpr h
    constructor
    · rintro ⟨hc, hf, hclose⟩
      rw [wrap64_eq hf, wholeSecond_eq] at hc
      exact ⟨hf, (run_iff hchain (Int.le_refl t) hf).mp ⟨hc, hclose⟩⟩
    · rintro ⟨hf, hrest⟩
      obtain ⟨hc, hclose⟩ := (run_iff hchain (Int.le_refl t) hf).mpr hrest
      rw [← wholeSecond_eq] at hc
      rw [wrap64_eq hf]
      exact ⟨hc, hf, hclose⟩

/-- Calls on both sides of a restart, the second of them 3 ms of ticks before the reference. -/
theorem restart_noticed : Faithful 1540782600000 [5, 700, 2 ^ 31 + 2]
    (milliseconds 1540782600000 0 new [5, 700, 2 ^ 31 + 2]) := by
  apply (milliseconds_faithful_iff 1540782600000 0 (by decide)).mpr
  simp [Noticed, NoticedFrom, Rebases, Fits, wholeSecond, getTickCount, restarts]

/-- Calls exactly one period of the ticks apart return the same value; and a restart that is seen
soon after a call takes the value back to the whole second. -/
theorem restart_missed :
    ([0, 2 ^ 31] : List Int).Pairwise (· ≤ ·) ∧
    ¬ Faithful 1540782600000 [0, 2 ^ 31] (milliseconds 1540782600000 0 new [0, 2 ^ 31]) ∧
    ([1000, 2 ^ 31 - 1, 2 ^ 31] : List Int).Pairwise (· ≤ ·) ∧
    ¬ Faithful 1540782600000 [1000, 2 ^ 31 - 1, 2 ^ 31]
      (milliseconds 1540782600000 0 new [1000, 2 ^ 31 - 1, 2 ^ 31]) := by
  have hsame : milliseconds 1540782600000 0 new [0, 2 ^ 31] = [1540782600000, 1540782600000] := by
    decide
  have hback : milliseconds 1540782600000 0 new [1000, 2 ^ 31 - 1, 2 ^ 31] =
      [1540782601000, 1542930083647, 1542930083000] := by
    decide
  refine ⟨by decide, ?_, by decide, ?_⟩
  · rw [hsame]
    simp [Faithful]
  · rw [hback]
    simp [Faithful]

end TimeUtil

end CppTry
