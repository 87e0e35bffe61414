import Mathlib.Logic.Relation

namespace CppTry

/-- A thread that works in turns while a flag is set, and what its owner does around it, on data
that both of them see. A step that is not there is the end of the program. -/
structure Worker (δ : Type) where
  /-- the owner, before it starts the thread -/
  launch : δ → δ → Prop
  /-- the thread, in front of its loop -/
  setUp : δ → δ → Prop
  turn : δ → δ → Prop
  /-- the thread, behind its loop -/
  tearDown : δ → δ → Prop
  /-- the owner, when no thread is left -/
  land : δ → δ → Prop

namespace Worker

/-- Where the thread is. Between the test of the flag and the turn the flag may be cleared. -/
inductive Phase
  | idle
  | spawned
  | testing
  | turning
  | ended
deriving DecidableEq

structure State (δ : Type) where
  run : Bool
  phase : Phase
  /-- the owner waits for the thread to end -/
  waiting : Bool
  data : δ

inductive Label
  | start
  | setUp
  | test
  | turn
  | tearDown
  | stop
  | join
deriving DecidableEq

variable {δ : Type}

/-- The owner starts and stops, one after the other, and starts only when there is no thread; the
thread does its own steps at any time. -/
inductive Step (w : Worker δ) : State δ → Label → State δ → Prop
  | start {run : Bool} {d d' : δ} : w.launch d d' →
      Step w ⟨run, .idle, false, d⟩ .start ⟨true, .spawned, false, d'⟩
  | setUp {run waiting : Bool} {d d' : δ} : w.setUp d d' →
      Step w ⟨run, .spawned, waiting, d⟩ .setUp ⟨run, .testing, waiting, d'⟩
  | test {waiting : Bool} {d : δ} :
      Step w ⟨true, .testing, waiting, d⟩ .test ⟨true, .turning, waiting, d⟩
  | turn {run waiting : Bool} {d d' : δ} : w.turn d d' →
      Step w ⟨run, .turning, waiting, d⟩ .turn ⟨run, .testing, waiting, d'⟩
  | tearDown {waiting : Bool} {d d' : δ} : w.tearDown d d' →
      Step w ⟨false, .testing, waiting, d⟩ .tearDown ⟨false, .ended, waiting, d'⟩
  | stop {run : Bool} {phase : Phase} {d : δ} : phase ≠ .idle →
      Step w ⟨run, phase, false, d⟩ .stop ⟨false, phase, true, d⟩
  | stopIdle {run : Bool} {d d' : δ} : w.land d d' →
      Step w ⟨run, .idle, false, d⟩ .stop ⟨false, .idle, false, d'⟩
  | join {run : Bool} {d d' : δ} : w.land d d' →
      Step w ⟨run, .ended, true, d⟩ .join ⟨run, .idle, false, d'⟩

/-- Steps with their labels. -/
inductive Run (w : Worker δ) : State δ → List Label → State δ → Prop
  | refl {s : State δ} : Run w s [] s
  | head {s t u : State δ} {l : Label} {ls : List Label} : Step w s l t → Run w t ls u →
      Run w s (l :: ls) u

def initial (d : δ) : State δ := ⟨false, .idle, false, d⟩

def Reachable (w : Worker δ) (d : δ) (s : State δ) : Prop := ∃ ls, Run w (initial d) ls s

variable {w : Worker δ} {s s' t : State δ} {l : Label} {ls : List Label} {d : δ}

theorem Run.concat (h : Run w s ls s') (hs : Step w s' l t) : Run w s (ls ++ [l]) t := by
  induction h with
  | refl => exact .head hs .refl
  | head hstep _ ih => exact .head hstep (ih hs)

theorem Reachable.step (h : w.Reachable d s) (hs : Step w s l t) : w.Reachable d t := by
  obtain ⟨ls, hrun⟩ := h
  exact ⟨ls ++ [l], hrun.concat hs⟩

/-- Between a start and a stop the flag is set, and the thread has not ended. -/
structure Sound (s : State δ) : Prop where
  flag : s.waiting = false → s.phase ≠ .idle → s.run = true ∧ s.phase ≠ .ended
  stopped : s.waiting = true → s.run = false ∧ s.phase ≠ .idle
  cleared : s.phase = .idle → s.run = false

theorem Sound.step (h : Sound s) (hs : Step w s l t) : Sound t := by
  obtain ⟨hflag, hstopped, hcleared⟩ := h
  cases hs with
  | start => exact ⟨fun _ _ => ⟨rfl, by simp⟩, by simp, by simp⟩
  | @setUp run waiting =>
    exact ⟨fun hw _ => ⟨(hflag hw (by simp)).1, by simp⟩, fun hw => ⟨(hstopped hw).1, by simp⟩, by simp⟩
  | test => exact ⟨fun _ _ => ⟨rfl, by simp⟩, fun hw => absurd (hstopped hw).1 (by simp), by simp⟩
  | turn => exact ⟨fun hw _ => ⟨(hflag hw (by simp)).1, by simp⟩, fun hw => ⟨(hstopped hw).1, by simp⟩,
      by simp⟩
  | tearDown =>
    exact ⟨fun hw _ => absurd (hflag hw (by simp)).1 (by simp), fun _ => ⟨rfl, by simp⟩, by simp⟩
  | stop hp => exact ⟨by simp, fun _ => ⟨rfl, hp⟩, fun hi => absurd hi hp⟩
  | stopIdle => exact ⟨fun _ hi => absurd rfl hi, by simp, fun _ => rfl⟩
  | join => exact ⟨fun _ hi => absurd rfl hi, by simp, fun _ => (hstopped rfl).1⟩

theorem Sound.run (h : Sound s) (hr : Run w s ls t) : Sound t := by
  induction hr with
  | refl => exact h
  | head hstep _ ih => exact ih (h.step hstep)

theorem Reachable.sound (h : w.Reachable d s) : Sound s := by
  obtain ⟨ls, hrun⟩ := h
  exact Sound.run ⟨fun _ hi => absurd rfl hi, by simp [initial], fun _ => rfl⟩ hrun

/-- What the data keep in each phase. -/
structure Invariant (w : Worker δ) (I : Phase → δ → Prop) : Prop where
  launch {d d' : δ} : I .idle d → w.launch d d' → I .spawned d'
  setUp {d d' : δ} : I .spawned d → w.setUp d d' → I .testing d'
  test {d : δ} : I .testing d → I .turning d
  turn {d d' : δ} : I .turning d → w.turn d d' → I .testing d'
  tearDown {d d' : δ} : I .testing d → w.tearDown d d' → I .ended d'
  land {d d' : δ} : I .ended d → w.land d d' → I .idle d'
  landIdle {d d' : δ} : I .idle d → w.land d d' → I .idle d'

theorem Invariant.step {I : Phase → δ → Prop} (h : w.Invariant I) (hi : I s.phase s.data)
    (hs : Step w s l t) : I t.phase t.data := by
  cases hs with
  | start hd => exact h.launch hi hd
  | setUp hd => exact h.setUp hi hd
  | test => exact h.test hi
  | turn hd => exact h.turn hi hd
  | tearDown hd => exact h.tearDown hi hd
  | stop => exact hi
  | stopIdle hd => exact h.landIdle hi hd
  | join hd => exact h.land hi hd

theorem Invariant.reachable {I : Phase → δ → Prop} (h : w.Invariant I) (hd : I .idle d)
    (hr : w.Reachable d s) : I s.phase s.data := by
  obtain ⟨ls, hrun⟩ := hr
  have hall : ∀ {s}, I s.phase s.data → ∀ {ls t}, Run w s ls t → I t.phase t.data := by
    intro s hs ls t hrun
    induction hrun with
    | refl => exact hs
    | head hstep _ ih => exact ih (h.step hs hstep)
  exact hall (s := initial d) hd hrun

/-- The steps that the thread has left when the flag is not set. -/
def Phase.left : Phase → List Label
  | .idle => []
  | .spawned => [.setUp, .tearDown]
  | .testing => [.tearDown]
  | .turning => [.turn, .tearDown]
  | .ended => []

theorem Sound.step_left (h : Sound s) (hw : s.waiting = true) (hs : Step w s l t)
    (hl : l ≠ .join) : t.waiting = true ∧ s.phase.left = l :: t.phase.left := by
  obtain ⟨_, hstopped, _⟩ := h
  cases hs with
  | setUp => exact ⟨hw, rfl⟩
  | test => exact absurd (hstopped hw).1 (by simp)
  | turn => exact ⟨hw, rfl⟩
  | tearDown => exact ⟨hw, rfl⟩
  | start => cases hw
  | stop => cases hw
  | stopIdle => cases hw
  | join => exact absurd rfl hl

/-- Once the owner waits, the thread does what it has left, and nobody does anything else. -/
theorem Sound.run_left (h : Sound s) (hw : s.waiting = true) (hr : Run w s ls t)
    (hl : .join ∉ ls) : s.phase.left = ls ++ t.phase.left := by
  induction hr with
  | refl => rfl
  | head hstep _ ih =>
    rw [List.mem_cons, not_or] at hl
    obtain ⟨hw', hleft⟩ := h.step_left hw hstep (Ne.symm hl.1)
    rw [hleft, ih (h.step hstep) hw' hl.2, List.cons_append]

/-- The data on which the thread and its owner can always go on, behind the set-up. -/
structure Goes (w : Worker δ) (I : Phase → δ → Prop) : Prop where
  turn {d : δ} : I .turning d → ∃ d', w.turn d d'
  tearDown {d : δ} : I .testing d → ∃ d', w.tearDown d d'
  land {d : δ} : I .ended d → ∃ d', w.land d d'

theorem Goes.step {I : Phase → δ → Prop} (hg : w.Goes I) (h : Sound s) (hw : s.waiting = true)
    (hset : s.phase = .spawned → ∃ d', w.setUp s.data d') (hi : I s.phase s.data) :
    ∃ l t, Step w s l t := by
  obtain ⟨run, phase, waiting, d⟩ := s
  obtain rfl : waiting = true := hw
  obtain ⟨rfl, hp⟩ : run = false ∧ phase ≠ .idle := h.stopped rfl
  cases phase with
  | idle => exact absurd rfl hp
  | spawned =>
    obtain ⟨d', hd⟩ := hset rfl
    exact ⟨_, _, .setUp hd⟩
  | testing =>
    obtain ⟨d', hd⟩ := hg.tearDown hi
    exact ⟨_, _, .tearDown hd⟩
  | turning =>
    obtain ⟨d', hd⟩ := hg.turn hi
    exact ⟨_, _, .turn hd⟩
  | ended =>
    obtain ⟨d', hd⟩ := hg.land hi
    exact ⟨_, _, .join hd⟩

/-- While the owner waits, no thread is started. -/
theorem Step.not_spawned (hs : Step w s l t) (hw : s.waiting = true) : t.phase ≠ .spawned := by
  cases hs with
  | start => cases hw
  | stop => cases hw
  | stopIdle => cases hw
  | _ => simp

/-- A stop comes to its end, whatever the thread was doing, where its set-up does. -/
theorem Goes.joins {I : Phase → δ → Prop} (hg : w.Goes I) (hv : w.Invariant I) (h : Sound s)
    (hw : s.waiting = true) (hset : s.phase = .spawned → ∃ d', w.setUp s.data d')
    (hi : I s.phase s.data) : ∃ ls t u, Run w s ls t ∧ Step w t .join u := by
  generalize hn : s.phase.left = left
  induction left generalizing s with
  | nil =>
    obtain ⟨l, t, hs⟩ := hg.step h hw hset hi
    have hl : l = .join := Decidable.byContradiction fun hl =>
      List.cons_ne_nil _ _ ((h.step_left hw hs hl).2.symm.trans hn)
    subst hl
    exact ⟨[], s, t, .refl, hs⟩
  | cons l' left ih =>
    obtain ⟨l, t, hs⟩ := hg.step h hw hset hi
    by_cases hl : l = .join
    · subst hl
      exact ⟨[], s, t, .refl, hs⟩
    · obtain ⟨hw', hleft⟩ := h.step_left hw hs hl
      obtain ⟨_, hrest⟩ := List.cons.inj (hn.symm.trans hleft)
      obtain ⟨ls, u, v, hrun, hjoin⟩ := ih (h.step hs) hw'
        (fun hp => absurd hp (hs.not_spawned hw)) (hv.step hi hs) hrest.symm
      exact ⟨l :: ls, u, v, .head hs hrun, hjoin⟩

/-- The set-up of a thread that its owner waits for comes before the end. -/
theorem Run.setUp_of_join (hr : Run w s ls t) (hj : Step w t .join s') (hw : s.waiting = true)
    (hp : s.phase = .spawned) : ∃ d', w.setUp s.data d' := by
  cases hr with
  | refl =>
    cases hj with
    | join => cases hp
  | head hs _ =>
    cases hs with
    | setUp hd => exact ⟨_, hd⟩
    | start => cases hw
    | stop => cases hw
    | stopIdle => cases hw
    | _ => cases hp

end Worker

end CppTry
