import Mathlib.Data.List.Induction
import Mathlib.Logic.Relation

namespace CppTry

/-- What operations `ω` do with shared data `σ` between taking a mutex and giving it back: `κ` is
where an operation is, and a step without a successor is its last. -/
structure Sections (ω σ κ ρ : Type) where
  start : ω → κ
  step : κ → σ → Option (κ × σ)
  result : κ → ρ

/-- Operations as one step each, in the order of a log: `log` has for every one of them its thread
and its result. -/
inductive Atomic {ι ω σ ρ : Type} (exec : ω → σ → Option (ρ × σ)) (s₀ : σ) :
    σ → List (ι × ω × ρ) → Prop
  | init : Atomic exec s₀ s₀ []
  | step {s s' : σ} {log : List (ι × ω × ρ)} {o : ω} {r : ρ} (i : ι) :
    Atomic exec s₀ s log → exec o s = some (r, s') → Atomic exec s₀ s' (log ++ [(i, o, r)])

namespace Atomic

variable {ι ω σ ρ : Type} {exec : ω → σ → Option (ρ × σ)} {s₀ s : σ}

theorem concat {log : List (ι × ω × ρ)} {e : ι × ω × ρ}
    (h : Atomic exec s₀ s (log ++ [e])) :
    ∃ s', Atomic exec s₀ s' log ∧ exec e.2.1 s' = some (e.2.2, s) := by
  obtain ⟨full, hfull⟩ : ∃ full, full = log ++ [e] := ⟨_, rfl⟩
  rw [← hfull] at h
  cases h with
  | init => simp at hfull
  | step i hs hexec =>
    obtain ⟨rfl, he⟩ := List.append_inj' hfull rfl
    cases he
    exact ⟨_, hs, hexec⟩

/-- The state before an entry of the log. -/
theorem before {pre post : List (ι × ω × ρ)} {e : ι × ω × ρ}
    (h : Atomic exec s₀ s (pre ++ e :: post)) :
    ∃ s₁ s₂, Atomic exec s₀ s₁ pre ∧ exec e.2.1 s₁ = some (e.2.2, s₂) := by
  induction post using List.reverseRecOn generalizing s with
  | nil =>
    obtain ⟨s₁, hs, hexec⟩ := h.concat
    exact ⟨s₁, s, hs, hexec⟩
  | append_singleton post d ih =>
    rw [← List.cons_append, ← List.append_assoc] at h
    obtain ⟨s₁, hs, _⟩ := h.concat
    exact ih hs

end Atomic

namespace Sections

variable {ι ω σ κ ρ : Type} (S : Sections ω σ κ ρ) (exec : ω → σ → Option (ρ × σ))

/-- The steps of one section, with nobody else inside. -/
def Runs : κ × σ → κ × σ → Prop :=
  Relation.ReflTransGen fun x y => S.step x.1 x.2 = some y

/-- Each operation that `exec` allows comes to its end, with that outcome. -/
def Implements : Prop :=
  ∀ {o s r s'}, exec o s = some (r, s') →
    ∃ k, S.Runs (S.start o, s) (k, s') ∧ S.step k s' = none ∧ S.result k = r

/-- Threads `ι` around one mutex: who is inside and where, and the operations that are over. -/
structure Machine (ι ω σ κ ρ : Type) where
  shared : σ
  inside : Option (ι × ω × κ)
  log : List (ι × ω × ρ)

/-- A thread takes the free mutex, goes on inside, or leaves. The others wait. -/
inductive Step : Machine ι ω σ κ ρ → Machine ι ω σ κ ρ → Prop
  | lock {s log o} (i : ι) : (exec o s).isSome → Step ⟨s, none, log⟩ ⟨s, some (i, o, S.start o), log⟩
  | work {s s' log i o k k'} : S.step k s = some (k', s') →
    Step ⟨s, some (i, o, k), log⟩ ⟨s', some (i, o, k'), log⟩
  | unlock {s log i o k} : S.step k s = none →
    Step ⟨s, some (i, o, k), log⟩ ⟨s, none, log ++ [(i, o, S.result k)]⟩

def Reachable (s₀ : σ) : Machine ι ω σ κ ρ → Prop :=
  Relation.ReflTransGen (S.Step exec) ⟨s₀, none, []⟩

/-- What the data is while the mutex is free, and while an operation is inside. -/
def Refines (s₀ : σ) (m : Machine ι ω σ κ ρ) : Prop :=
  match m.inside with
  | none => Atomic exec s₀ m.shared m.log
  | some (_, o, k) => ∃ s, Atomic exec s₀ s m.log ∧ (exec o s).isSome ∧
      S.Runs (S.start o, s) (k, m.shared)

variable {S exec}

/-- A section has one way to its end. -/
theorem Runs.last {x y z : κ × σ} (hy : S.Runs x y) (hz : S.Runs x z)
    (hlast : S.step z.1 z.2 = none) : S.Runs y z := by
  induction hy with
  | refl => exact hz
  | @tail a b _ hab ih =>
    rcases ih.cases_head with rfl | ⟨c, hac, hcz⟩
    · rw [hlast] at hab
      cases hab
    · rw [hab] at hac
      cases hac
      exact hcz

theorem Runs.eq_of_last {x y : κ × σ} (h : S.Runs x y) (hlast : S.step x.1 x.2 = none) : y = x := by
  rcases h.cases_head with rfl | ⟨c, hc, _⟩
  · rfl
  · rw [hlast] at hc
    cases hc

theorem Refines.step (hs : S.Implements exec) {s₀ : σ} {m m' : Machine ι ω σ κ ρ}
    (h : S.Refines exec s₀ m) (hstep : S.Step exec m m') : S.Refines exec s₀ m' := by
  cases hstep with
  | lock i hready => exact ⟨_, h, hready, Relation.ReflTransGen.refl⟩
  | work hwork =>
    obtain ⟨s, hatomic, hready, hruns⟩ := h
    exact ⟨s, hatomic, hready, hruns.tail hwork⟩
  | @unlock t log i o k hlast =>
    obtain ⟨s, hatomic, hready, hruns⟩ := h
    obtain ⟨⟨r, s'⟩, hexec⟩ := Option.isSome_iff_exists.mp hready
    obtain ⟨k', hruns', hlast', hr⟩ := hs hexec
    have heq := (hruns.last hruns' hlast').eq_of_last hlast
    cases heq
    rw [← hr] at hexec
    exact Atomic.step i hatomic hexec

/-- However the threads take turns, the operations are one step each, in the order of the log. -/
theorem reachable_refines (hs : S.Implements exec) {s₀ : σ} {m : Machine ι ω σ κ ρ}
    (h : S.Reachable exec s₀ m) : S.Refines exec s₀ m := by
  induction h with
  | refl => exact Atomic.init
  | tail _ hstep ih => exact ih.step hs hstep

theorem reaches_last {i : ι} {o : ω} {log : List (ι × ω × ρ)} {x y : κ × σ} (h : S.Runs x y) :
    Relation.ReflTransGen (S.Step exec) ⟨x.2, some (i, o, x.1), log⟩ ⟨y.2, some (i, o, y.1), log⟩ := by
  induction h with
  | refl => exact Relation.ReflTransGen.refl
  | tail _ hstep ih => exact ih.tail (Step.work hstep)

/-- Whoever is inside can leave: no other thread is needed for it. -/
theorem reachable_frees (hs : S.Implements exec) {s₀ : σ} {m : Machine ι ω σ κ ρ}
    (h : S.Reachable exec s₀ m) :
    ∃ m', Relation.ReflTransGen (S.Step exec) m m' ∧ m'.inside = none := by
  have hrefines := reachable_refines hs h
  obtain ⟨s, inside, log⟩ := m
  match inside with
  | none => exact ⟨_, Relation.ReflTransGen.refl, rfl⟩
  | some (i, o, k) =>
    obtain ⟨t, _, hready, hruns⟩ := hrefines
    obtain ⟨⟨r, s'⟩, hexec⟩ := Option.isSome_iff_exists.mp hready
    obtain ⟨k', hruns', hlast', _⟩ := hs hexec
    exact ⟨_, (reaches_last (hruns.last hruns' hlast')).tail (Step.unlock hlast'), rfl⟩

end Sections

end CppTry
