import Mathlib.Data.List.Infix
import Mathlib.Data.List.TakeWhile

namespace Scanning
variable {α : Type} {p : α → Bool} {s t u : List α}

/-- `s` is a run of `p` and then `t`. -/
def Skips (p : α → Bool) (s t : List α) : Prop := ∃ run, (∀ c ∈ run, p c = true) ∧ s = run ++ t

/-- `t` does not begin with a `p`. -/
def Stops (p : α → Bool) (t : List α) : Prop := ∀ c, t.head? = some c → p c = false

/-- `s` is `raw`, the mark and `t`, and there is no mark within `raw`. -/
def UpTo (mark s raw t : List α) : Prop := s = raw ++ (mark ++ t) ∧ ¬ mark <:+: raw

/-- The last symbol of the mark is nowhere else in it. -/
def Terminal (mark : List α) : Prop := ∃ front last, mark = front ++ [last] ∧ last ∉ front

theorem Skips.refl (p : α → Bool) (s : List α) : Skips p s s := ⟨[], by simp, rfl⟩

theorem Skips.cons {c : α} (hc : p c = true) (h : Skips p s t) : Skips p (c :: s) t := by
  obtain ⟨run, hrun, rfl⟩ := h
  exact ⟨c :: run, List.forall_mem_cons.mpr ⟨hc, hrun⟩, rfl⟩

theorem Skips.trans (h : Skips p s t) (h' : Skips p t u) : Skips p s u := by
  obtain ⟨run, hrun, rfl⟩ := h
  obtain ⟨run', hrun', rfl⟩ := h'
  refine ⟨run ++ run', ?_, by simp⟩
  intro c hc
  rcases List.mem_append.mp hc with hc | hc
  · exact hrun c hc
  · exact hrun' c hc

theorem Skips.length_le (h : Skips p s t) : t.length ≤ s.length := by
  obtain ⟨run, _, rfl⟩ := h
  simp

theorem stops_cons {c : α} (h : p c = false) (t : List α) : Stops p (c :: t) := by
  intro d hd
  cases hd
  exact h

theorem stops_nil (p : α → Bool) : Stops p [] := by
  intro c hc
  cases hc

theorem skips_dropWhile (p : α → Bool) (s : List α) : Skips p s (s.dropWhile p) :=
  ⟨s.takeWhile p, fun _ hc => List.mem_takeWhile_imp hc, List.takeWhile_append_dropWhile.symm⟩

theorem stops_dropWhile (p : α → Bool) (s : List α) : Stops p (s.dropWhile p) := by
  intro c hc
  have hn := List.head?_dropWhile_not p s
  rw [hc] at hn
  simpa using hn

theorem Skips.takeWhile_eq {run : List α} (h : ∀ c ∈ run, p c = true) (hs : Stops p t) :
    (run ++ t).takeWhile p = run ∧ (run ++ t).dropWhile p = t := by
  induction run with
  | nil =>
    cases t with
    | nil => exact ⟨rfl, rfl⟩
    | cons c t => simp [hs c rfl]
  | cons c run ih =>
    obtain ⟨hc, hrun⟩ := List.forall_mem_cons.mp h
    obtain ⟨ht, hd⟩ := ih hrun
    rw [List.cons_append, List.takeWhile_cons_of_pos hc, List.dropWhile_cons_of_pos hc, ht, hd]
    exact ⟨rfl, rfl⟩

/-- What is skipped up to a symbol that is no `p` is all that can be skipped. -/
theorem Skips.dropWhile_eq (h : Skips p s t) (hs : Stops p t) : s.dropWhile p = t := by
  obtain ⟨run, hrun, rfl⟩ := h
  exact (Skips.takeWhile_eq hrun hs).2

theorem dropWhile_append_of_mem {raw : List α} (h : ∃ c ∈ raw, p c = false) (t : List α) :
    ∃ c rest, c ∈ raw ∧ p c = false ∧ (raw ++ t).dropWhile p = c :: rest := by
  induction raw with
  | nil =>
    obtain ⟨c, hc, _⟩ := h
    cases hc
  | cons d raw ih =>
    by_cases hd : p d = true
    · obtain ⟨c, hc, hp⟩ := h
      have hne : c ∈ raw := by
        rcases List.mem_cons.mp hc with rfl | hc
        · rw [hd] at hp
          cases hp
        · exact hc
      obtain ⟨e, rest, he, hpe, hdrop⟩ := ih ⟨c, hne, hp⟩
      refine ⟨e, rest, List.mem_cons_of_mem d he, hpe, ?_⟩
      rw [List.cons_append, List.dropWhile_cons_of_pos hd, hdrop]
    · refine ⟨d, raw ++ t, List.mem_cons_self, by simpa using hd, ?_⟩
      rw [List.cons_append, List.dropWhile_cons_of_neg hd]

section
variable {mark raw : List α}

theorem Terminal.ne_nil (h : Terminal mark) : mark ≠ [] := by
  obtain ⟨front, last, rfl, _⟩ := h
  simp

theorem terminal_singleton (c : α) : Terminal [c] := ⟨[], c, rfl, by simp⟩

/-- In front of a terminal mark, a mark can only begin where it lies in the raw text as a whole. -/
theorem Terminal.prefix_of_prefix (h : Terminal mark) {c : α}
    (hp : mark <+: c :: raw ++ (mark ++ t)) : mark <+: c :: raw := by
  by_cases hlen : mark.length ≤ (c :: raw).length
  · exact List.prefix_of_prefix_length_le hp (List.prefix_append _ _) hlen
  · obtain ⟨front, last, rfl, hlast⟩ := h
    have hlen' : (c :: raw).length ≤ front.length := by
      rw [List.length_append, List.length_singleton] at hlen
      omega
    obtain ⟨rest, hrest⟩ := hp
    obtain ⟨mid, rfl⟩ := List.prefix_of_prefix_length_le
      ⟨(front ++ [last]) ++ t, rfl⟩ ⟨[last] ++ rest, by rw [← List.append_assoc, hrest]⟩ hlen'
    have htail : mid ++ [last] ++ rest = (c :: raw ++ mid ++ [last]) ++ t := by
      simpa using hrest
    have hmem : (mid ++ [last] ++ rest)[mid.length]? = some last := by simp
    rw [htail, List.append_assoc, List.append_assoc] at hmem
    have hlt : mid.length < (c :: raw ++ mid).length := by
      simp only [List.length_append, List.length_cons]
      omega
    rw [← List.append_assoc, List.getElem?_append_left hlt] at hmem
    exact absurd (List.mem_of_getElem? hmem) hlast

theorem UpTo.length_lt (h : UpTo mark s raw t) (hm : mark ≠ []) : t.length < s.length := by
  obtain ⟨rfl, _⟩ := h
  have hpos := List.length_pos_iff.mpr hm
  simp only [List.length_append]
  omega

end

end Scanning
