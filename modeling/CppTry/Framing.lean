import Mathlib.Data.List.Basic

namespace CppTry

/-- What the front of a stream shows: nothing complete yet, a verdict that ends the
stream, or a packet and how many entries it takes. -/
inductive Frame (π ρ : Type)
  | more
  | stop (verdict : ρ)
  | packet (p : π) (n : Nat)

/-- A way of cutting a stream into packets that later input cannot change. -/
structure Framer (α π ρ : Type) where
  next : List α → Frame π ρ
  packet_size {xs : List α} {p : π} {n : Nat} : next xs = .packet p n → 0 < n ∧ n ≤ xs.length
  packet_append {xs : List α} {p : π} {n : Nat} (ys : List α) :
    next xs = .packet p n → next (xs ++ ys) = .packet p n
  stop_append {xs : List α} {v : ρ} (ys : List α) : next xs = .stop v → next (xs ++ ys) = .stop v

/-- How a parse ends: with entries left over, or with a verdict. -/
inductive Tail (α ρ : Type)
  | rest (xs : List α)
  | stop (verdict : ρ)
deriving DecidableEq

namespace Framer

variable {α π ρ : Type} (F : Framer α π ρ)

/-- Every packet of a whole stream, and its end. -/
def parse (xs : List α) : List π × Tail α ρ :=
  match _h : F.next xs with
  | .more => ([], .rest xs)
  | .stop v => ([], .stop v)
  | .packet p n => (p :: (parse (xs.drop n)).1, (parse (xs.drop n)).2)
termination_by xs.length
decreasing_by
  all_goals
    have := F.packet_size _h
    simp only [List.length_drop]
    omega

variable {F}

theorem parse_more {xs : List α} (h : F.next xs = .more) : F.parse xs = ([], .rest xs) := by
  rw [parse]
  split
  next => rfl
  next v hv => simp [h] at hv
  next p n hp => simp [h] at hp

theorem parse_stop {xs : List α} {v : ρ} (h : F.next xs = .stop v) : F.parse xs = ([], .stop v) := by
  rw [parse]
  split
  next hm => simp [h] at hm
  next w hw =>
    rw [h] at hw
    cases hw
    rfl
  next p n hp => simp [h] at hp

theorem parse_packet {xs : List α} {p : π} {n : Nat} (h : F.next xs = .packet p n) :
    F.parse xs = (p :: (F.parse (xs.drop n)).1, (F.parse (xs.drop n)).2) := by
  rw [parse]
  split
  next hm => simp [h] at hm
  next w hw => simp [h] at hw
  next q k hq =>
    rw [h] at hq
    cases hq
    rfl

/-- Induction along the packets of a stream. -/
theorem parse_induction {motive : List α → Prop}
    (more : ∀ xs, F.next xs = .more → motive xs)
    (stop : ∀ xs v, F.next xs = .stop v → motive xs)
    (packet : ∀ xs p n, F.next xs = .packet p n → motive (xs.drop n) → motive xs)
    (xs : List α) : motive xs := by
  induction hn : xs.length using Nat.strongRecOn generalizing xs with
  | ind k ih =>
    cases h : F.next xs with
    | more => exact more xs h
    | stop v => exact stop xs v h
    | packet p n =>
      have hs := F.packet_size h
      exact packet xs p n h (ih _ (by simp only [List.length_drop]; omega) _ rfl)

theorem next_rest {xs r : List α} {ps : List π} (h : F.parse xs = (ps, .rest r)) :
    F.next r = .more := by
  induction xs using parse_induction (F := F) generalizing ps with
  | more xs hm =>
    rw [parse_more hm] at h
    cases h
    exact hm
  | stop xs v hv =>
    rw [parse_stop hv] at h
    cases h
  | packet xs p n hp ih =>
    rw [parse_packet hp] at h
    have hr : F.parse (xs.drop n) = (_, .rest r) := Prod.ext rfl (Prod.mk.inj h).2
    exact ih hr

theorem parse_append_rest {xs r : List α} {ps : List π} (ys : List α)
    (h : F.parse xs = (ps, .rest r)) :
    F.parse (xs ++ ys) = (ps ++ (F.parse (r ++ ys)).1, (F.parse (r ++ ys)).2) := by
  induction xs using parse_induction (F := F) generalizing ps with
  | more xs hm =>
    rw [parse_more hm] at h
    cases h
    rfl
  | stop xs v hv =>
    rw [parse_stop hv] at h
    cases h
  | packet xs p n hp ih =>
    rw [parse_packet hp] at h
    obtain ⟨hps, ht⟩ := Prod.mk.inj h
    have hr : F.parse (xs.drop n) = (_, .rest r) := Prod.ext rfl ht
    have hh := ih hr
    rw [parse_packet (F.packet_append ys hp),
      List.drop_append_of_le_length (F.packet_size hp).2, hh, ← hps]
    rfl

/-- A verdict stands whatever follows. -/
theorem parse_append_stop {xs : List α} {v : ρ} {ps : List π} (ys : List α)
    (h : F.parse xs = (ps, .stop v)) : F.parse (xs ++ ys) = (ps, .stop v) := by
  induction xs using parse_induction (F := F) generalizing ps with
  | more xs hm =>
    rw [parse_more hm] at h
    cases h
  | stop xs w hw =>
    rw [parse_stop hw] at h
    cases h
    exact parse_stop (F.stop_append ys hw)
  | packet xs p n hp ih =>
    rw [parse_packet hp] at h
    obtain ⟨hps, ht⟩ := Prod.mk.inj h
    have hr : F.parse (xs.drop n) = (_, .stop v) := Prod.ext rfl ht
    have hh := ih hr
    rw [parse_packet (F.packet_append ys hp),
      List.drop_append_of_le_length (F.packet_size hp).2, hh, ← hps]

/-- Every packet takes at least `k` entries, so only so many fit. -/
theorem parse_length_mul_le {k : Nat} (hk : ∀ xs p n, F.next xs = .packet p n → k ≤ n)
    (xs : List α) : (F.parse xs).1.length * k ≤ xs.length := by
  induction xs using parse_induction (F := F) with
  | more xs hm => simp [parse_more hm]
  | stop xs v hv => simp [parse_stop hv]
  | packet xs p n hp ih =>
    have hs := F.packet_size hp
    have hn := hk xs p n hp
    rw [parse_packet hp]
    simp only [List.length_drop, List.length_cons, Nat.add_one_mul] at ih ⊢
    omega

/-- Reading `xs` has brought the parse to a point where it continues on `bs`. -/
def Leads (F : Framer α π ρ) (xs bs : List α) : Prop :=
  ∃ ps, ∀ ys, F.parse (xs ++ ys) = (ps ++ (F.parse (bs ++ ys)).1, (F.parse (bs ++ ys)).2)

theorem leads_of_parse {xs r : List α} {ps : List π} (h : F.parse xs = (ps, .rest r)) :
    F.Leads xs r :=
  ⟨ps, fun ys => parse_append_rest ys h⟩

theorem Leads.append {xs bs : List α} (h : F.Leads xs bs) (zs : List α) :
    F.Leads (xs ++ zs) (bs ++ zs) := by
  obtain ⟨ps, hp⟩ := h
  exact ⟨ps, fun ys => by rw [List.append_assoc, List.append_assoc, hp]⟩

theorem Leads.packet {xs bs : List α} {p : π} {n : Nat} (h : F.Leads xs bs)
    (hn : F.next bs = .packet p n) : F.Leads xs (bs.drop n) := by
  obtain ⟨ps, hp⟩ := h
  refine ⟨ps ++ [p], fun ys => ?_⟩
  rw [hp, parse_packet (F.packet_append ys hn), List.drop_append_of_le_length (F.packet_size hn).2,
    List.append_assoc]
  rfl

theorem Leads.stop {xs bs : List α} {v : ρ} (h : F.Leads xs bs) (hn : F.next bs = .stop v)
    (ys : List α) : (F.parse (xs ++ ys)).2 = .stop v := by
  obtain ⟨ps, hp⟩ := h
  rw [hp, parse_stop (F.stop_append ys hn)]

/-- `p` is framed by `bytes`: complete with them, incomplete before, and never changed by
what follows. -/
structure Frames (F : Framer α π ρ) (p : π) (bytes : List α) : Prop where
  complete (ys : List α) : F.next (bytes ++ ys) = .packet p bytes.length
  partly {xs : List α} : xs <+: bytes → xs ≠ bytes → F.next xs = .more

theorem parse_flatMap {μ : Type} {bytes : μ → List α} {f : μ → π} {ps : List μ}
    (h : ∀ p ∈ ps, F.Frames (f p) (bytes p)) (empty : F.next [] = .more) :
    F.parse (ps.flatMap bytes) = (ps.map f, .rest []) := by
  induction ps with
  | nil => exact parse_more empty
  | cons p ps ih =>
    have hp := h p (by simp)
    rw [List.flatMap_cons, parse_packet (hp.complete _), List.drop_left' rfl,
      ih fun q hq => h q (by simp [hq])]
    rfl

/-- The items whose bytes all lie within the first `n`. -/
def within {μ : Type} (bytes : μ → List α) : List μ → Nat → List μ
  | [], _ => []
  | p :: ps, n => if (bytes p).length ≤ n then p :: within bytes ps (n - (bytes p).length) else []

/-- Any beginning of a sequence of framed items parses to the items it holds whole. -/
theorem parse_take_flatMap {μ : Type} {bytes : μ → List α} {f : μ → π} {ps : List μ} (n : Nat)
    (h : ∀ p ∈ ps, F.Frames (f p) (bytes p)) (empty : F.next [] = .more) :
    ∃ r, F.parse ((ps.flatMap bytes).take n) = ((within bytes ps n).map f, .rest r) := by
  induction ps generalizing n with
  | nil => exact ⟨[], by simp [within, parse_more empty]⟩
  | cons p ps ih =>
    have hp := h p (by simp)
    rw [List.flatMap_cons, within]
    split
    next hn =>
      obtain ⟨r, hr⟩ := ih (n - (bytes p).length) (fun q hq => h q (by simp [hq]))
      rw [List.take_append, List.take_of_length_le hn, parse_packet (hp.complete _),
        List.drop_left' rfl, hr]
      exact ⟨r, rfl⟩
    next hn =>
      rw [List.take_append_of_le_length (by omega)]
      refine ⟨_, parse_more (hp.partly (List.take_prefix n _) ?_)⟩
      intro he
      have hl := congrArg List.length he
      simp only [List.length_take] at hl
      omega

end Framer

end CppTry
