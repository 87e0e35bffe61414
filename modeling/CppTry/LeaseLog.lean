import Mathlib.Data.Finset.Basic

namespace CppTry

/-- One use of a resource that is taken and given back. -/
inductive Lease (κ : Type)
  | take (k : κ)
  | drop (k : κ)
deriving DecidableEq

namespace Lease

variable {κ : Type} [DecidableEq κ]

def apply (held : Finset κ) : Lease κ → Finset κ
  | take k => insert k held
  | drop k => held.erase k

/-- What is held after a log of uses. -/
def held (log : List (Lease κ)) : Finset κ := log.foldl apply ∅

@[simp] theorem held_concat (log : List (Lease κ)) (e : Lease κ) :
    held (log ++ [e]) = e.apply (held log) := by
  simp [held]

/-- Only what is not held is taken, and only what is held is given back. -/
inductive WellUsed : List (Lease κ) → Prop
  | nil : WellUsed []
  | take {log k} : WellUsed log → k ∉ held log → WellUsed (log ++ [.take k])
  | drop {log k} : WellUsed log → k ∈ held log → WellUsed (log ++ [.drop k])

theorem mem_held_of_take {k : κ} (as : List (Lease κ)) {bs : List (Lease κ)} (h : .drop k ∉ bs) :
    k ∈ held (as ++ .take k :: bs) := by
  induction bs using List.reverseRecOn with
  | nil => simp [apply]
  | append_singleton bs e ih =>
    simp only [List.mem_append, List.mem_singleton, not_or] at h
    have hk := ih h.1
    rw [← List.cons_append, ← List.append_assoc, held_concat]
    cases e with
    | take j => exact Finset.mem_insert_of_mem hk
    | drop j => exact Finset.mem_erase_of_ne_of_mem (fun he => h.2 (by rw [he])) hk

/-- After a take and before the next one there is no drop while the resource is held, and one
drop when it no longer is. -/
theorem WellUsed.count_drop {log : List (Lease κ)} (h : WellUsed log) {k : κ}
    {as bs : List (Lease κ)} (hl : log = as ++ .take k :: bs) (hn : .take k ∉ bs) :
    bs.count (.drop k) = if k ∈ held log then 0 else 1 := by
  induction h generalizing bs with
  | nil => simp at hl
  | @take log j _ hj ih =>
    rcases List.eq_nil_or_concat bs with rfl | ⟨cs, e, rfl⟩
    · obtain ⟨_, he⟩ := List.append_inj' hl rfl
      cases he
      simp [apply]
    · rw [List.concat_eq_append, ← List.cons_append, ← List.append_assoc] at hl
      obtain ⟨hlog, he⟩ := List.append_inj' hl rfl
      cases he
      simp only [List.concat_eq_append, List.mem_append, List.mem_singleton, take.injEq, not_or] at hn
      have hc := ih hlog hn.1
      simp only [List.concat_eq_append, List.count_append, held_concat, apply, Finset.mem_insert,
        hn.2, false_or, hc]
      simp
  | @drop log j _ hj ih =>
    rcases List.eq_nil_or_concat bs with rfl | ⟨cs, e, rfl⟩
    · obtain ⟨_, he⟩ := List.append_inj' hl rfl
      cases he
    · rw [List.concat_eq_append, ← List.cons_append, ← List.append_assoc] at hl
      obtain ⟨hlog, he⟩ := List.append_inj' hl rfl
      cases he
      simp only [List.concat_eq_append, List.mem_append, not_or] at hn
      have hc := ih hlog hn.1
      by_cases hk : j = k
      · subst j
        rw [if_pos hj] at hc
        simp [apply, hc]
      · have hc' : List.count (Lease.drop k) [Lease.drop j] = 0 := by simp [hk]
        simp only [List.concat_eq_append, List.count_append, held_concat, apply, Finset.mem_erase,
          ne_eq, Ne.symm hk, not_false_eq_true, true_and, hc, hc', Nat.add_zero]

end Lease

end CppTry
