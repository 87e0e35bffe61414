import Mathlib.Data.Finset.Card
import Mathlib.Data.List.Basic
import Mathlib.Logic.Function.Basic
import Mathlib.Logic.Relation
import Mathlib.Order.WellFounded

namespace LinkedLists
variable {κ α : Type}

/-- Write through a pointer that may be null. -/
def setAt [DecidableEq κ] (f : κ → α) (k : Option κ) (v : α) : κ → α := k.elim f fun k => Function.update f k v

theorem setAt_self [DecidableEq κ] (f : κ → α) (c : κ) (v : α) : setAt f (some c) v c = v := Function.update_self ..

theorem setAt_of_ne [DecidableEq κ] {f : κ → α} {k : Option κ} {v : α} {c : κ} (h : k ≠ some c) :
    setAt f k v c = f c := by
  cases k with
  | none => rfl
  | some k => exact Function.update_of_ne (fun he => h (congrArg some he.symm)) v f

/-- The nodes of the list, between the node before it and the node behind it. -/
def Chained (prev next : κ → Option κ) : Option κ → List κ → Option κ → Prop
  | _, [], _ => True
  | before, c :: l, after =>
    prev c = before ∧ next c = l.head?.or after ∧ Chained prev next (some c) l after

variable {prev next prev' next' : κ → Option κ} {before after : Option κ} {l xs ys : List κ} {c : κ}

theorem chained_append : Chained prev next before (xs ++ ys) after ↔
    Chained prev next before xs (ys.head?.or after) ∧
      Chained prev next (xs.getLast?.or before) ys after := by
  induction xs generalizing before with
  | nil => simp [Chained]
  | cons c xs ih =>
    have hhead : (xs ++ ys).head?.or after = xs.head?.or (ys.head?.or after) := by
      rw [List.head?_append, Option.or_assoc]
    have hlast : (c :: xs).getLast?.or before = xs.getLast?.or (some c) := by
      rw [List.getLast?_cons]
      cases xs.getLast? <;> rfl
    rw [List.cons_append, Chained, Chained, ih, hhead, hlast, and_assoc, and_assoc]

theorem Chained.congr (h : Chained prev next before l after) (hp : ∀ c ∈ l, prev' c = prev c)
    (hn : ∀ c ∈ l, next' c = next c) : Chained prev' next' before l after := by
  induction l generalizing before with
  | nil => trivial
  | cons c l ih =>
    obtain ⟨hprev, hnext, hrest⟩ := h
    rw [List.forall_mem_cons] at hp hn
    exact ⟨hp.1.trans hprev, hn.1.trans hnext, ih hrest hp.2 hn.2⟩

section
variable [DecidableEq κ]

/-- The list with another node behind it. -/
theorem Chained.setNext (h : Chained prev next before l after) (hn : l.Nodup) (after' : Option κ) :
    Chained prev (setAt next l.getLast? after') before l after' := by
  induction l generalizing before with
  | nil => trivial
  | cons c l ih =>
    obtain ⟨hprev, hnext, hrest⟩ := h
    obtain ⟨hc, hn⟩ := List.nodup_cons.mp hn
    cases l with
    | nil => exact ⟨hprev, setAt_self next c after', trivial⟩
    | cons d l =>
      have hlast : (c :: d :: l).getLast? = (d :: l).getLast? := List.getLast?_cons_cons
      have hne : (d :: l).getLast? ≠ some c := fun he => hc (List.mem_of_getLast? he)
      rw [hlast]
      exact ⟨hprev, (setAt_of_ne hne).trans hnext, ih hrest hn⟩

/-- The list with another node in front of it. -/
theorem Chained.setPrev (h : Chained prev next before l after) (hn : l.Nodup) (before' : Option κ) :
    Chained (setAt prev l.head? before') next before' l after := by
  cases l with
  | nil => trivial
  | cons c l =>
    obtain ⟨_, hnext, hrest⟩ := h
    have hc := (List.nodup_cons.mp hn).1
    refine ⟨setAt_self prev c before', hnext, hrest.congr (fun d hd => setAt_of_ne ?_) fun _ _ => rfl⟩
    rintro ⟨⟩
    exact hc hd

/-- A node is taken out of a list. -/
theorem Chained.erase (h : Chained prev next none (xs ++ c :: ys) none) (hn : (xs ++ c :: ys).Nodup) :
    Chained (setAt prev ys.head? xs.getLast?) (setAt next xs.getLast? ys.head?) none (xs ++ ys) none := by
  obtain ⟨hxs, hc, hdisj⟩ := List.nodup_append.mp hn
  obtain ⟨_, hys⟩ := List.nodup_cons.mp hc
  obtain ⟨hleft, _, _, hright⟩ := chained_append.mp h
  refine chained_append.mpr ⟨?_, ?_⟩
  · rw [Option.or_none]
    refine (hleft.setNext hxs ys.head?).congr (fun d hd => setAt_of_ne fun he => ?_) fun _ _ => rfl
    exact hdisj d hd d (List.mem_cons_of_mem c (List.mem_of_head? he)) rfl
  · rw [Option.or_none]
    refine (hright.setPrev hys xs.getLast?).congr (fun _ _ => rfl) fun d hd => setAt_of_ne fun he => ?_
    exact hdisj d (List.mem_of_getLast? he) d (List.mem_cons_of_mem c hd) rfl

/-- A node is put into a list. -/
theorem Chained.insert (h : Chained prev next none (xs ++ ys) none) (hn : (xs ++ c :: ys).Nodup) :
    Chained (Function.update (setAt prev ys.head? (some c)) c xs.getLast?)
      (Function.update (setAt next xs.getLast? (some c)) c ys.head?) none (xs ++ c :: ys) none := by
  obtain ⟨hxs, hc, hdisj⟩ := List.nodup_append.mp hn
  obtain ⟨hcys, hys⟩ := List.nodup_cons.mp hc
  have hcxs : c ∉ xs := fun hmem => hdisj c hmem c List.mem_cons_self rfl
  obtain ⟨hleft, hright⟩ := chained_append.mp h
  refine chained_append.mpr ⟨?_, ?_⟩
  · refine (hleft.setNext hxs (some c)).congr (fun d hd => ?_) fun d hd => ?_
    · have hne : d ≠ c := fun he => hcxs (he ▸ hd)
      rw [Function.update_of_ne hne]
      exact setAt_of_ne fun he => hdisj d hd d (List.mem_cons_of_mem c (List.mem_of_head? he)) rfl
    · have hne : d ≠ c := fun he => hcxs (he ▸ hd)
      rw [Function.update_of_ne hne]
  · refine ⟨by rw [Function.update_self, Option.or_none],
      by rw [Function.update_self, Option.or_none], ?_⟩
    refine (hright.setPrev hys (some c)).congr (fun d hd => ?_) fun d hd => ?_
    · have hne : d ≠ c := fun he => hcys (he ▸ hd)
      rw [Function.update_of_ne hne]
    · have hne : d ≠ c := fun he => hcys (he ▸ hd)
      rw [Function.update_of_ne hne]
      exact setAt_of_ne fun he => hdisj d (List.mem_of_getLast? he) d (List.mem_cons_of_mem c hd) rfl

end

theorem Chained.reverse (h : Chained prev next before l after) :
    Chained next prev after l.reverse before := by
  induction l generalizing before with
  | nil => trivial
  | cons c l ih =>
    obtain ⟨hprev, hnext, hrest⟩ := h
    rw [List.reverse_cons]
    refine chained_append.mpr ⟨ih hrest, ?_, ?_, trivial⟩
    · rw [List.getLast?_reverse, hnext]
    · rw [hprev]
      rfl

/-- A descent stays well founded when `a` is put under `b`, where `b` is not under `a`. -/
theorem wellFounded_graft {r r' : κ → κ → Prop} {a b : κ} (h : WellFounded r)
    (hr : ∀ x y, r' x y → r x y ∨ x = a ∧ y = b) (hab : ¬ Relation.ReflTransGen r b a) :
    WellFounded r' := by
  have hunder : ∀ y, Relation.ReflTransGen r y a → Acc r' y := by
    intro y
    induction y using h.induction with
    | _ y ih =>
      intro hy
      refine ⟨y, fun x hx => ?_⟩
      rcases hr x y hx with hx | ⟨_, rfl⟩
      · exact ih x hx (.head hx hy)
      · exact absurd hy hab
  refine ⟨fun y => ?_⟩
  induction y using h.induction with
  | _ y ih =>
    refine ⟨y, fun x hx => ?_⟩
    rcases hr x y hx with hx | ⟨rfl, _⟩
    · exact ih x hx
    · exact hunder x .refl

/-- A finite set has a top element for a well-founded descent. -/
theorem exists_top {r : κ → κ → Prop} (h : WellFounded r) {s : Finset κ} (hs : s.Nonempty) :
    ∃ x ∈ s, ∀ y ∈ s, ¬ r x y := by
  classical
  induction s using Finset.strongInduction with
  | _ s ih =>
    obtain ⟨x, hx⟩ := hs
    let above := s.filter fun y => Relation.TransGen r x y
    by_cases ha : above.Nonempty
    · have hsub : above ⊂ s := by
        refine Finset.filter_ssubset.mpr ⟨x, hx, fun hloop => ?_⟩
        exact h.transGen.irrefl.irrefl x hloop
      obtain ⟨z, hz, htop⟩ := ih above hsub ha
      obtain ⟨hzs, hxz⟩ := Finset.mem_filter.mp hz
      exact ⟨z, hzs, fun y hy hzy => htop y (Finset.mem_filter.mpr ⟨hy, hxz.tail hzy⟩) hzy⟩
    · refine ⟨x, hx, fun y hy hxy => ha ⟨y, Finset.mem_filter.mpr ⟨hy, .single hxy⟩⟩⟩

end LinkedLists
