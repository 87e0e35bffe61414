import Mathlib.Data.List.Nodup
import Mathlib.Data.List.Perm.Basic

namespace CppTry

/-- A step that, at each key, reads and changes only what is seen of the state through that key.
`inv` may use the keys that have had their turn. -/
structure KeyLocal {σ κ β : Type} (step : σ → κ → Option σ) (view : κ → σ → β)
    (upd : κ → β → Option β) (inv : List κ → σ → Prop) : Prop where
  keep {ks : List κ} {x y : σ} {k : κ} : inv ks x → k ∉ ks → step x k = some y → inv (k :: ks) y
  own {ks : List κ} {x y : σ} {k : κ} : inv ks x → k ∉ ks → step x k = some y →
    upd k (view k x) = some (view k y)
  frame {ks : List κ} {x y : σ} {j k : κ} : inv ks x → k ∉ ks → step x k = some y → j ≠ k →
    view j y = view j x

namespace KeyLocal

variable {σ κ β : Type} {step : σ → κ → Option σ} {view : κ → σ → β} {upd : κ → β → Option β}
  {inv : List κ → σ → Prop} {ks : List κ} {x : σ}

/-- A fold over different keys updates each of them once, from what was there before the fold. -/
theorem foldlM_spec (h : KeyLocal step view upd inv) (hn : ks.Nodup) {done : List κ}
    (hd : ks.Disjoint done) (hx : inv done x) {y : σ} (hy : ks.foldlM step x = some y) :
    inv (ks.reverse ++ done) y ∧ (∀ k ∈ ks, upd k (view k x) = some (view k y)) ∧
      ∀ k ∉ ks, view k y = view k x := by
  induction ks generalizing x done with
  | nil =>
    cases hy
    exact ⟨by simpa using hx, by simp, fun _ _ => rfl⟩
  | cons k ks ih =>
    obtain ⟨hk, hn⟩ := List.nodup_cons.mp hn
    rw [List.foldlM_cons] at hy
    obtain ⟨z, hz, hy⟩ := Option.bind_eq_some_iff.mp hy
    obtain ⟨hkd, hd⟩ := List.disjoint_cons_left.mp hd
    have hd1 := List.disjoint_cons_right.mpr ⟨hk, hd⟩
    obtain ⟨hinv, hin, hout⟩ := ih hn hd1 (h.keep hx hkd hz) hy
    refine ⟨by simpa using hinv, ?_, ?_⟩
    · intro j hj
      rcases List.mem_cons.mp hj with rfl | hj
      · rw [hout j hk]
        exact h.own hx hkd hz
      · have hjk : j ≠ k := fun he => hk (he ▸ hj)
        rw [← h.frame hx hkd hz hjk]
        exact hin j hj
    · intro j hj
      rw [List.mem_cons, not_or] at hj
      rw [hout j hj.2, h.frame hx hkd hz hj.1]

theorem foldlM_isSome (h : KeyLocal step view upd inv)
    (ht : ∀ {ks x k}, inv ks x → k ∉ ks → upd k (view k x) ≠ none → ∃ y, step x k = some y)
    (hn : ks.Nodup) {done : List κ} (hd : ks.Disjoint done) (hx : inv done x)
    (hu : ∀ k ∈ ks, upd k (view k x) ≠ none) : ∃ y, ks.foldlM step x = some y := by
  induction ks generalizing x done with
  | nil => exact ⟨x, rfl⟩
  | cons k ks ih =>
    obtain ⟨hk, hn⟩ := List.nodup_cons.mp hn
    obtain ⟨hkd, hd⟩ := List.disjoint_cons_left.mp hd
    have hd1 := List.disjoint_cons_right.mpr ⟨hk, hd⟩
    obtain ⟨z, hz⟩ := ht hx hkd (hu k (by simp))
    have hu1 : ∀ j ∈ ks, upd j (view j z) ≠ none := by
      intro j hj
      rw [h.frame hx hkd hz fun he => hk (he ▸ hj)]
      exact hu j (by simp [hj])
    obtain ⟨y, hy⟩ := ih hn hd1 (h.keep hx hkd hz) hu1
    exact ⟨y, by rw [List.foldlM_cons, hz]; exact hy⟩

/-- Two folds with the same updates show the same at every key, if a key that only one of them
visits is left as it is. -/
theorem foldlM_agree {step' : σ → κ → Option σ} {inv' : List κ → σ → Prop} {ks' : List κ}
    (h : KeyLocal step view upd inv) (h' : KeyLocal step' view upd inv') (hn : ks.Nodup)
    (hn' : ks'.Nodup) (hx : inv [] x) (hx' : inv' [] x)
    (hu : ∀ k, ¬ (k ∈ ks ↔ k ∈ ks') → upd k (view k x) = some (view k x)) {y y' : σ}
    (hy : ks.foldlM step x = some y) (hy' : ks'.foldlM step' x = some y') (k : κ) :
    view k y = view k y' := by
  obtain ⟨_, hin, hout⟩ := h.foldlM_spec hn (by simp) hx hy
  obtain ⟨_, hin', hout'⟩ := h'.foldlM_spec hn' (by simp) hx' hy'
  by_cases hk : k ∈ ks
  · by_cases hk' : k ∈ ks'
    · exact Option.some.inj ((hin k hk).symm.trans (hin' k hk'))
    · have hs := hin k hk
      rw [hu k fun he => hk' (he.mp hk)] at hs
      rw [hout' k hk', Option.some.inj hs]
  · by_cases hk' : k ∈ ks'
    · have hs := hin' k hk'
      rw [hu k fun he => hk (he.mpr hk')] at hs
      rw [hout k hk, Option.some.inj hs]
    · rw [hout k hk, hout' k hk']

end KeyLocal

end CppTry
