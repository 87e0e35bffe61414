import CppTry.LinkedLists
import Mathlib.Data.Finset.Basic
import Mathlib.Data.List.Perm.Lattice

namespace CppTry

/-- The nodes of a document by their addresses, with their pointers; `alive` are those whose memory
is not given back to its pool. -/
structure XMLTree where
  alive : Finset Nat
  parent : Nat → Option Nat
  prev : Nat → Option Nat
  next : Nat → Option Nat
  firstChild : Nat → Option Nat
  lastChild : Nat → Option Nat
  unlinked : List Nat

namespace XMLTree
open LinkedLists Function

/-- The node that is the document itself. -/
def document : Nat := 0

def new : XMLTree where
  alive := {document}
  parent _ := none
  prev _ := none
  next _ := none
  firstChild _ := none
  lastChild _ := none
  unlinked := []

/-- `DynArray::SwapRemove`. -/
def swapRemove (mem : List Nat) (i : Nat) : List Nat :=
  match mem.getLast? with
  | none => mem
  | some last => (mem.set i last).dropLast

def markInUse (t : XMLTree) (node : Nat) : XMLTree :=
  match t.unlinked.idxOf? node with
  | none => t
  | some i => { t with unlinked := swapRemove t.unlinked i }

/-- `CreateUnlinkedNode`, with the address that the pool gives. -/
def createUnlinkedNode (t : XMLTree) (node : Nat) : XMLTree where
  alive := insert node t.alive
  parent := update t.parent node none
  prev := update t.prev node none
  next := update t.next node none
  firstChild := update t.firstChild node none
  lastChild := update t.lastChild node none
  unlinked := t.unlinked ++ [node]

def unlink (t : XMLTree) (this child : Nat) : XMLTree :=
  let t := if t.firstChild this = some child then
    { t with firstChild := update t.firstChild this (t.next child) } else t
  let t := if t.lastChild this = some child then
    { t with lastChild := update t.lastChild this (t.prev child) } else t
  let t := { t with next := setAt t.next (t.prev child) (t.next child) }
  let t := { t with prev := setAt t.prev (t.next child) (t.prev child) }
  { t with
    next := update t.next child none
    prev := update t.prev child none
    parent := update t.parent child none }

def insertChildPreamble (t : XMLTree) (insertThis : Nat) : XMLTree :=
  match t.parent insertThis with
  | some parent => t.unlink parent insertThis
  | none => t.markInUse insertThis

/-- `InsertEndChild` behind the preamble. -/
def linkLast (t : XMLTree) (this addThis : Nat) : XMLTree :=
  let t := match t.lastChild this with
    | some last => { t with
        next := update (update t.next last (some addThis)) addThis none
        prev := update t.prev addThis (some last)
        lastChild := update t.lastChild this (some addThis) }
    | none => { t with
        firstChild := update t.firstChild this (some addThis)
        lastChild := update t.lastChild this (some addThis)
        prev := update t.prev addThis none
        next := update t.next addThis none }
  { t with parent := update t.parent addThis (some this) }

def insertEndChild (t : XMLTree) (this addThis : Nat) : XMLTree :=
  (t.insertChildPreamble addThis).linkLast this addThis

/-- `InsertFirstChild` behind the preamble. -/
def linkFirst (t : XMLTree) (this addThis : Nat) : XMLTree :=
  let t := match t.firstChild this with
    | some first => { t with
        prev := update (update t.prev first (some addThis)) addThis none
        next := update t.next addThis (some first)
        firstChild := update t.firstChild this (some addThis) }
    | none => { t with
        firstChild := update t.firstChild this (some addThis)
        lastChild := update t.lastChild this (some addThis)
        prev := update t.prev addThis none
        next := update t.next addThis none }
  { t with parent := update t.parent addThis (some this) }

def insertFirstChild (t : XMLTree) (this addThis : Nat) : XMLTree :=
  (t.insertChildPreamble addThis).linkFirst this addThis

/-- `InsertAfterChild` behind the preamble. A null pointer that is followed is `none`. -/
def linkAfter (t : XMLTree) (this afterThis addThis : Nat) : Option XMLTree :=
  let t := { t with
    prev := update t.prev addThis (some afterThis)
    next := update t.next addThis (t.next afterThis) }
  match t.next afterThis with
  | none => none
  | some behind => some { t with
      prev := update t.prev behind (some addThis)
      next := update t.next afterThis (some addThis)
      parent := update t.parent addThis (some this) }

def insertAfterChild (t : XMLTree) (this afterThis addThis : Nat) : Option XMLTree :=
  if t.parent afterThis ≠ some this then some t
  else if afterThis = addThis then some t
  else match t.next afterThis with
    | none => some (t.insertEndChild this addThis)
    | some _ => (t.insertChildPreamble addThis).linkAfter this afterThis addThis

/-- The memory goes back to its pool. What is free is not freed again. -/
def free (t : XMLTree) (node : Nat) : Option XMLTree :=
  if node ∈ t.alive then some { t with alive := t.alive.erase node } else none

mutual

/-- `XMLNode::DeleteNode` of a node that is not the document, with the destructor of the node. -/
def deleteNode : Nat → XMLTree → Nat → Option XMLTree
  | 0, _, _ => none
  | fuel + 1, t, node => do
    let t ← deleteChildren fuel (t.markInUse node) node
    let t := match t.parent node with
      | some parent => t.unlink parent node
      | none => t
    t.free node

/-- `DeleteChildren`, with `DeleteChild` of the first child in each turn. -/
def deleteChildren : Nat → XMLTree → Nat → Option XMLTree
  | 0, _, _ => none
  | fuel + 1, t, this =>
    match t.firstChild this with
    | none => some { t with
        firstChild := update t.firstChild this none
        lastChild := update t.lastChild this none }
    | some child => do
      let t ← deleteNode fuel (t.unlink this child) child
      deleteChildren fuel t this

end

def deleteChild (fuel : Nat) (t : XMLTree) (this node : Nat) : Option XMLTree :=
  deleteNode fuel (t.unlink this node) node

/-- `XMLDocument::DeleteNode`. -/
def documentDeleteNode (fuel : Nat) (t : XMLTree) (node : Nat) : Option XMLTree :=
  match t.parent node with
  | some parent => deleteChild fuel t parent node
  | none => deleteNode fuel t node

/-- The loop of `Clear` over `_unlinked`. -/
def clearUnlinked : Nat → XMLTree → Option XMLTree
  | 0, _ => none
  | fuel + 1, t =>
    match t.unlinked with
    | [] => some t
    | node :: _ => do
      let t ← documentDeleteNode fuel t node
      clearUnlinked fuel t

def clear (fuel : Nat) (t : XMLTree) : Option XMLTree := do
  let t ← deleteChildren fuel t document
  clearUnlinked fuel t

/-- The pointers are those of the lists of children. -/
structure Shape (t : XMLTree) (kids : Nat → List Nat) : Prop where
  first : ∀ p ∈ t.alive, t.firstChild p = (kids p).head?
  last : ∀ p ∈ t.alive, t.lastChild p = (kids p).getLast?
  chained : ∀ p ∈ t.alive, Chained t.prev t.next none (kids p) none
  nodup : ∀ p ∈ t.alive, (kids p).Nodup
  child : ∀ p ∈ t.alive, ∀ c ∈ kids p, c ∈ t.alive ∧ t.parent c = some p
  parent : ∀ c ∈ t.alive, ∀ p, t.parent c = some p → p ∈ t.alive ∧ c ∈ kids p
  loose : ∀ c ∈ t.alive, t.parent c = none → t.prev c = none ∧ t.next c = none
  root : document ∈ t.alive ∧ t.parent document = none
  descends : WellFounded fun c p => p ∈ t.alive ∧ c ∈ kids p

/-- The nodes that are in no list and not `orphans` are tracked, each once. -/
structure Tracks (t : XMLTree) (orphans : Finset Nat) : Prop where
  nodup : t.unlinked.Nodup
  mem : ∀ c, c ∈ t.unlinked ↔ c ∈ t.alive ∧ c ≠ document ∧ t.parent c = none ∧ c ∉ orphans

variable {t : XMLTree} {kids : Nat → List Nat} {p c : Nat} {xs ys : List Nat}

theorem Shape.split (h : Shape t kids) (hp : p ∈ t.alive) (hk : kids p = xs ++ c :: ys) :
    t.prev c = xs.getLast? ∧ t.next c = ys.head? ∧ c ∉ xs ∧ c ∉ ys := by
  have hchained := h.chained p hp
  have hn := h.nodup p hp
  rw [hk] at hchained hn
  obtain ⟨_, hprev, hnext, _⟩ := chained_append.mp hchained
  obtain ⟨_, hcons, hdisj⟩ := List.nodup_append.mp hn
  rw [Option.or_none] at hprev hnext
  exact ⟨hprev, hnext, fun hmem => hdisj c hmem c List.mem_cons_self rfl, (List.nodup_cons.mp hcons).1⟩

/-- What `Unlink` does to a child between `xs` and `ys`. -/
theorem Shape.unlink_eq (h : Shape t kids) (hp : p ∈ t.alive) (hk : kids p = xs ++ c :: ys) :
    t.unlink p c = { t with
      firstChild := update t.firstChild p (xs ++ ys).head?
      lastChild := update t.lastChild p (xs ++ ys).getLast?
      prev := update (setAt t.prev ys.head? xs.getLast?) c none
      next := update (setAt t.next xs.getLast? ys.head?) c none
      parent := update t.parent c none } := by
  obtain ⟨hprev, hnext, hcx, hcy⟩ := h.split hp hk
  have hfirst := h.first p hp
  have hlast := h.last p hp
  rw [hk] at hfirst hlast
  have hfirst' : (if t.firstChild p = some c then
      { t with firstChild := update t.firstChild p ys.head? } else t) =
        { t with firstChild := update t.firstChild p (xs ++ ys).head? } := by
    cases xs with
    | nil => rw [hfirst, List.nil_append, if_pos List.head?_cons, List.nil_append]
    | cons x xs =>
      have hne : x ≠ c := fun he => hcx (by simp [he])
      rw [List.cons_append, List.head?_cons] at hfirst
      rw [hfirst, if_neg (by simpa using hne), List.cons_append, List.head?_cons, ← hfirst,
        update_eq_self]
  have hlast' (first : Nat → Option Nat) : (if t.lastChild p = some c then
      { t with firstChild := first, lastChild := update t.lastChild p xs.getLast? }
      else { t with firstChild := first }) =
        { t with firstChild := first, lastChild := update t.lastChild p (xs ++ ys).getLast? } := by
    cases ys with
    | nil => rw [hlast, if_pos (by simp), List.append_nil]
    | cons y ys =>
      have hsame : (xs ++ y :: ys).getLast? = t.lastChild p := by simp [hlast]
      have hne : t.lastChild p ≠ some c := by
        intro he
        rw [hlast, List.getLast?_append, List.getLast?_cons_cons] at he
        have hmem : (y :: ys).getLast? = some c := by
          rw [List.getLast?_cons] at he ⊢
          exact he
        exact hcy (List.mem_of_getLast? hmem)
      rw [if_neg hne, hsame, update_eq_self]
  have hself : xs.getLast? ≠ some c := fun he => hcx (List.mem_of_getLast? he)
  unfold unlink
  dsimp only
  rw [hnext, hfirst']
  dsimp only
  rw [hprev, hlast']
  dsimp only
  rw [hprev, setAt_of_ne hself, hnext]

theorem Shape.mem_kids (h : Shape t kids) (hp : p ∈ t.alive) (hk : kids p = xs ++ c :: ys) :
    c ∈ t.alive ∧ t.parent c = some p :=
  h.child p hp c (by rw [hk]; simp)

/-- A node has one parent. -/
theorem Shape.eq_of_mem (h : Shape t kids) {q : Nat} (hp : p ∈ t.alive) (hq : q ∈ t.alive)
    (hcp : c ∈ kids p) (hcq : c ∈ kids q) : p = q := by
  have hp := (h.child p hp c hcp).2
  rw [(h.child q hq c hcq).2] at hp
  exact (Option.some.inj hp).symm

theorem Shape.unlink (h : Shape t kids) (hp : p ∈ t.alive) (hk : kids p = xs ++ c :: ys) :
    Shape (t.unlink p c) (update kids p (xs ++ ys)) := by
  obtain ⟨hprev, hnext, hcx, hcy⟩ := h.split hp hk
  obtain ⟨hc, hcp⟩ := h.mem_kids hp hk
  have hn := h.nodup p hp
  have hchained := h.chained p hp
  rw [hk] at hn hchained
  have hsub : ∀ q, ∀ d ∈ update kids p (xs ++ ys) q, d ∈ kids q ∧ (q = p → d ≠ c) := by
    intro q d hd
    by_cases hq : q = p
    · subst hq
      rw [update_self] at hd
      refine ⟨?_, ?_⟩
      · rw [hk]
        rcases List.mem_append.mp hd with hd | hd
        · exact List.mem_append_left _ hd
        · exact List.mem_append_right _ (List.mem_cons_of_mem c hd)
      · rintro - rfl
        exact (List.mem_append.mp hd).elim hcx hcy
    · rw [update_of_ne hq] at hd
      exact ⟨hd, fun he => absurd he hq⟩
  have hne : ∀ q ∈ t.alive, ∀ d ∈ update kids p (xs ++ ys) q, d ≠ c := by
    rintro q hqa d hd rfl
    obtain ⟨hd, hq⟩ := hsub q d hd
    exact hq (h.eq_of_mem hqa hp hd (by rw [hk]; simp)) rfl
  have hmem : ∀ d, ys.head? = some d ∨ xs.getLast? = some d → d ∈ kids p := by
    intro d hd
    rw [hk]
    rcases hd with hd | hd
    · exact List.mem_append_right _ (List.mem_cons_of_mem c (List.mem_of_head? hd))
    · exact List.mem_append_left _ (List.mem_of_getLast? hd)
  rw [h.unlink_eq hp hk]
  constructor
  all_goals dsimp only
  case first =>
    intro q hq
    by_cases he : q = p
    · subst he
      rw [update_self, update_self]
    · rw [update_of_ne he, update_of_ne he, h.first q hq]
  case last =>
    intro q hq
    by_cases he : q = p
    · subst he
      rw [update_self, update_self]
    · rw [update_of_ne he, update_of_ne he, h.last q hq]
  case chained =>
    intro q hq
    by_cases he : q = p
    · subst he
      rw [update_self]
      refine (hchained.erase hn).congr (fun d hd => ?_) fun d hd => ?_
      all_goals exact update_of_ne (hne q hq d (by rw [update_self]; exact hd)) _ _
    · rw [update_of_ne he]
      refine (h.chained q hq).congr (fun d hd => ?_) fun d hd => ?_
      all_goals
        rw [update_of_ne (hne q hq d (by rw [update_of_ne he]; exact hd))]
        exact setAt_of_ne fun hh => he (h.eq_of_mem hq hp hd (hmem d (by simp [hh])))
  case nodup =>
    intro q hq
    by_cases he : q = p
    · subst he
      rw [update_self]
      exact hn.sublist (List.Sublist.append (List.Sublist.refl xs) (List.sublist_cons_self c ys))
    · rw [update_of_ne he]
      exact h.nodup q hq
  case child =>
    intro q hq d hd
    obtain ⟨hdq, _⟩ := hsub q d hd
    obtain ⟨hda, hdp⟩ := h.child q hq d hdq
    exact ⟨hda, by rw [update_of_ne (hne q hq d hd), hdp]⟩
  case parent =>
    intro d hd q hdq
    have hdc : d ≠ c := fun he => by
      rw [he, update_self] at hdq
      cases hdq
    rw [update_of_ne hdc] at hdq
    obtain ⟨hqa, hdk⟩ := h.parent d hd q hdq
    refine ⟨hqa, ?_⟩
    by_cases he : q = p
    · subst he
      rw [update_self]
      rw [hk] at hdk
      rcases List.mem_append.mp hdk with hdk | hdk
      · exact List.mem_append_left _ hdk
      · exact List.mem_append_right _ ((List.mem_cons.mp hdk).resolve_left hdc)
    · rw [update_of_ne he]
      exact hdk
  case loose =>
    intro d hd hdp
    by_cases hdc : d = c
    · subst hdc
      exact ⟨update_self .., update_self ..⟩
    · rw [update_of_ne hdc] at hdp
      rw [update_of_ne hdc, update_of_ne hdc]
      obtain ⟨hdprev, hdnext⟩ := h.loose d hd hdp
      have hout : d ∉ kids p := fun hh => by
        rw [(h.child p hp d hh).2] at hdp
        cases hdp
      exact ⟨(setAt_of_ne fun hh => hout (hmem d (Or.inl hh))).trans hdprev,
        (setAt_of_ne fun hh => hout (hmem d (Or.inr hh))).trans hdnext⟩
  case root =>
    refine ⟨h.root.1, ?_⟩
    have hdoc : document ≠ c := fun he => by
      rw [← he, h.root.2] at hcp
      cases hcp
    rw [update_of_ne hdoc, h.root.2]
  case descends =>
    exact Subrelation.wf (fun hh => ⟨hh.1, (hsub _ _ hh.2).1⟩) h.descends

/-- A node is linked under `p`, between `xs` and `ys`. -/
def attach (t : XMLTree) (p c : Nat) (xs ys : List Nat) : XMLTree := { t with
  firstChild := update t.firstChild p (xs ++ c :: ys).head?
  lastChild := update t.lastChild p (xs ++ c :: ys).getLast?
  prev := update (setAt t.prev ys.head? (some c)) c xs.getLast?
  next := update (setAt t.next xs.getLast? (some c)) c ys.head?
  parent := update t.parent c (some p) }

/-- `c` is under `p`, at any depth, or `p` itself. -/
def Under (t : XMLTree) (c p : Nat) : Prop :=
  Relation.ReflTransGen (fun c p => t.parent c = some p) c p

theorem Shape.attach (h : Shape t kids) (hp : p ∈ t.alive) (hk : kids p = xs ++ ys)
    (hc : c ∈ t.alive) (hcp : t.parent c = none) (hdoc : c ≠ document) (hpc : ¬ t.Under p c) :
    Shape (t.attach p c xs ys) (update kids p (xs ++ c :: ys)) := by
  have hout : ∀ q ∈ t.alive, c ∉ kids q := fun q hq hh => by
    rw [(h.child q hq c hh).2] at hcp
    cases hcp
  have hcxy : c ∉ xs ++ ys := hk ▸ hout p hp
  have hn : (xs ++ c :: ys).Nodup :=
    List.nodup_middle.mpr (List.nodup_cons.mpr ⟨hcxy, hk ▸ h.nodup p hp⟩)
  have hchained := h.chained p hp
  rw [hk] at hchained
  have hmem : ∀ d, ys.head? = some d ∨ xs.getLast? = some d → d ∈ kids p := by
    intro d hd
    rw [hk]
    rcases hd with hd | hd
    · exact List.mem_append_right _ (List.mem_of_head? hd)
    · exact List.mem_append_left _ (List.mem_of_getLast? hd)
  have hsub : ∀ q, ∀ d ∈ update kids p (xs ++ c :: ys) q, d ∈ kids q ∨ d = c ∧ q = p := by
    intro q d hd
    by_cases hq : q = p
    · subst hq
      rw [update_self] at hd
      rcases List.mem_append.mp hd with hd | hd
      · exact Or.inl (by rw [hk]; exact List.mem_append_left _ hd)
      · rcases List.mem_cons.mp hd with hd | hd
        · exact Or.inr ⟨hd, rfl⟩
        · exact Or.inl (by rw [hk]; exact List.mem_append_right _ hd)
    · rw [update_of_ne hq] at hd
      exact Or.inl hd
  unfold XMLTree.attach
  constructor
  all_goals dsimp only
  case first =>
    intro q hq
    by_cases he : q = p
    · subst he
      rw [update_self, update_self]
    · rw [update_of_ne he, update_of_ne he, h.first q hq]
  case last =>
    intro q hq
    by_cases he : q = p
    · subst he
      rw [update_self, update_self]
    · rw [update_of_ne he, update_of_ne he, h.last q hq]
  case chained =>
    intro q hq
    by_cases he : q = p
    · subst he
      rw [update_self]
      exact hchained.insert hn
    · rw [update_of_ne he]
      refine (h.chained q hq).congr (fun d hd => ?_) fun d hd => ?_
      all_goals
        have hdc : d ≠ c := fun hh => hout q hq (hh ▸ hd)
        rw [update_of_ne hdc]
        exact setAt_of_ne fun hh => he (h.eq_of_mem hq hp hd (hmem d (by simp [hh])))
  case nodup =>
    intro q hq
    by_cases he : q = p
    · subst he
      rw [update_self]
      exact hn
    · rw [update_of_ne he]
      exact h.nodup q hq
  case child =>
    intro q hq d hd
    rcases hsub q d hd with hdk | ⟨rfl, rfl⟩
    · obtain ⟨hda, hdp⟩ := h.child q hq d hdk
      have hdc : d ≠ c := fun he => hout q hq (by rw [← he]; exact hdk)
      exact ⟨hda, by rw [update_of_ne hdc, hdp]⟩
    · exact ⟨hc, update_self ..⟩
  case parent =>
    intro d hd q hdq
    by_cases hdc : d = c
    · subst hdc
      rw [update_self] at hdq
      cases hdq
      exact ⟨hp, by rw [update_self]; simp⟩
    · rw [update_of_ne hdc] at hdq
      obtain ⟨hqa, hdk⟩ := h.parent d hd q hdq
      refine ⟨hqa, ?_⟩
      by_cases he : q = p
      · subst he
        rw [update_self]
        rw [hk] at hdk
        exact (List.mem_append.mp hdk).elim (fun hh => List.mem_append_left _ hh)
          fun hh => List.mem_append_right _ (List.mem_cons_of_mem c hh)
      · rw [update_of_ne he]
        exact hdk
  case loose =>
    intro d hd hdp
    have hdc : d ≠ c := fun he => by
      rw [he, update_self] at hdp
      cases hdp
    rw [update_of_ne hdc] at hdp
    rw [update_of_ne hdc, update_of_ne hdc]
    obtain ⟨hdprev, hdnext⟩ := h.loose d hd hdp
    have hfar : d ∉ kids p := fun hh => by
      rw [(h.child p hp d hh).2] at hdp
      cases hdp
    exact ⟨(setAt_of_ne fun hh => hfar (hmem d (Or.inl hh))).trans hdprev,
      (setAt_of_ne fun hh => hfar (hmem d (Or.inr hh))).trans hdnext⟩
  case root =>
    exact ⟨h.root.1, by rw [update_of_ne (Ne.symm hdoc), h.root.2]⟩
  case descends =>
    have hgraft : ¬ Relation.ReflTransGen (fun c p => p ∈ t.alive ∧ c ∈ kids p) p c := fun hh =>
      hpc (Relation.ReflTransGen.mono (fun d q hdq => (h.child q hdq.1 d hdq.2).2) _ _ hh)
    refine wellFounded_graft h.descends (fun d q hh => ?_) hgraft
    exact (hsub q d hh.2).imp (fun hd => ⟨hh.1, hd⟩) id

theorem Shape.linkLast_eq (h : Shape t kids) (hp : p ∈ t.alive) (c : Nat) :
    t.linkLast p c = t.attach p c (kids p) [] := by
  have hfirst := h.first p hp
  have hlast := h.last p hp
  unfold linkLast XMLTree.attach
  cases hl : (kids p).getLast? with
  | none =>
    rw [List.getLast?_eq_none_iff] at hl
    rw [hl] at hlast ⊢
    rw [hlast]
    rfl
  | some last =>
    obtain ⟨l, hk⟩ := List.getLast?_eq_some_iff.mp hl
    have hhead : (kids p ++ [c]).head? = t.firstChild p := by
      rw [hfirst, hk]
      cases l <;> rfl
    rw [hlast, hl]
    dsimp only
    rw [hhead, update_eq_self, List.getLast?_append]
    rfl

theorem Shape.linkFirst_eq (h : Shape t kids) (hp : p ∈ t.alive) (c : Nat) :
    t.linkFirst p c = t.attach p c [] (kids p) := by
  have hfirst := h.first p hp
  have hlast := h.last p hp
  unfold linkFirst XMLTree.attach
  cases hk : kids p with
  | nil =>
    rw [hk] at hfirst
    rw [hfirst]
    rfl
  | cons first l =>
    have hend : ([] ++ c :: first :: l).getLast? = t.lastChild p := by
      rw [hlast, hk, List.nil_append, List.getLast?_cons_cons]
    rw [hk] at hfirst
    rw [hfirst, List.head?_cons]
    dsimp only
    rw [hend, update_eq_self]
    rfl

theorem Shape.linkAfter_eq (h : Shape t kids) (hp : p ∈ t.alive) {a : Nat}
    (hk : kids p = xs ++ a :: ys) (hc : c ∉ kids p) :
    t.linkAfter p a c = if ys = [] then none else some (t.attach p c (xs ++ [a]) ys) := by
  have hfirst := h.first p hp
  have hlast := h.last p hp
  obtain ⟨_, hnext, _⟩ := h.split hp hk
  have hca : a ≠ c := fun he => hc (by rw [hk, he]; simp)
  unfold linkAfter XMLTree.attach
  dsimp only
  rw [update_of_ne hca, hnext]
  cases ys with
  | nil => rfl
  | cons d ys =>
    have hdc : d ≠ c := fun he => hc (by rw [hk, he]; simp)
    have hhead : ((xs ++ [a]) ++ c :: d :: ys).head? = t.firstChild p := by
      rw [hfirst, hk]
      cases xs <;> rfl
    have hend : ((xs ++ [a]) ++ c :: d :: ys).getLast? = t.lastChild p := by
      rw [hlast, hk]
      simp
    rw [if_neg (List.cons_ne_nil d ys), List.head?_cons, hhead, hend, update_eq_self, update_eq_self,
      List.getLast?_concat]
    dsimp only
    rw [update_comm (Ne.symm hdc), update_comm (Ne.symm hca)]
    rfl

theorem swapRemove_perm {mem : List Nat} {i : Nat} (hi : i < mem.length) :
    (swapRemove mem i).Perm (mem.eraseIdx i) := by
  obtain ⟨xs, x, ys, rfl, rfl⟩ : ∃ xs x ys, mem = xs ++ x :: ys ∧ xs.length = i :=
    ⟨mem.take i, mem[i], mem.drop (i + 1), by simp, by simp; omega⟩
  have herase : (xs ++ x :: ys).eraseIdx xs.length = xs ++ ys := by
    rw [List.eraseIdx_append_of_length_le (le_refl _), Nat.sub_self]
    rfl
  rw [herase]
  rcases List.eq_nil_or_concat ys with rfl | ⟨zs, z, rfl⟩
  · simp [swapRemove]
  · rw [List.concat_eq_append]
    have hlast : (xs ++ x :: (zs ++ [z])).getLast? = some z := by
      rw [List.getLast?_append, List.getLast?_cons, List.getLast?_concat]
      rfl
    have hset : (xs ++ x :: (zs ++ [z])).set xs.length z = (xs ++ z :: zs) ++ [z] := by simp
    unfold swapRemove
    rw [hlast]
    dsimp only
    rw [hset, List.dropLast_concat]
    exact List.Perm.append_left xs (List.perm_append_singleton z zs).symm

theorem markInUse_perm (t : XMLTree) (node : Nat) :
    (t.markInUse node).unlinked.Perm (t.unlinked.erase node) := by
  rw [List.erase_eq_eraseIdx, markInUse]
  cases hi : t.unlinked.idxOf? node with
  | none => exact List.Perm.refl _
  | some i => exact swapRemove_perm (List.idxOf?_eq_some_iff.mp hi).1

theorem markInUse_eq (t : XMLTree) (node : Nat) :
    t.markInUse node = { t with unlinked := (t.markInUse node).unlinked } := by
  unfold markInUse
  split <;> rfl

theorem Shape.congr {t' : XMLTree} (h : Shape t kids) {kids' : Nat → List Nat}
    (hk : ∀ p ∈ t.alive, kids' p = kids p) (ht : t' = { t with unlinked := t'.unlinked }) :
    Shape t' kids' := by
  rw [ht]
  constructor
  all_goals dsimp only
  case first =>
    intro p hp
    rw [hk p hp, h.first p hp]
  case last =>
    intro p hp
    rw [hk p hp, h.last p hp]
  case chained =>
    intro p hp
    rw [hk p hp]
    exact h.chained p hp
  case nodup =>
    intro p hp
    rw [hk p hp]
    exact h.nodup p hp
  case child =>
    intro p hp c hc
    rw [hk p hp] at hc
    exact h.child p hp c hc
  case parent =>
    intro c hc p hcp
    obtain ⟨hp, hmem⟩ := h.parent c hc p hcp
    exact ⟨hp, by rw [hk p hp]; exact hmem⟩
  case loose => exact h.loose
  case root => exact h.root
  case descends =>
    refine Subrelation.wf (fun {c p} hh => ⟨hh.1, ?_⟩) h.descends
    rw [← hk p hh.1]
    exact hh.2

/-- `c` in no list. -/
def without (kids : Nat → List Nat) (c : Nat) : Nat → List Nat := fun p => (kids p).erase c

/-- What is left of the lists where `c` is taken out of one of them. -/
theorem Shape.without_eq (h : Shape t kids) (hp : p ∈ t.alive) (hk : kids p = xs ++ c :: ys) :
    ∀ q ∈ t.alive, without kids c q = update kids p (xs ++ ys) q := by
  intro q hq
  obtain ⟨_, _, hcx, _⟩ := h.split hp hk
  unfold without
  by_cases he : q = p
  · subst he
    rw [update_self, hk, List.erase_append_right _ hcx, List.erase_cons_head]
  · rw [update_of_ne he]
    exact List.erase_of_not_mem fun hmem => he (h.eq_of_mem hq hp hmem (by rw [hk]; simp))

theorem Shape.without_loose (h : Shape t kids) (hc : t.parent c = none) :
    ∀ p ∈ t.alive, without kids c p = kids p := fun p hp =>
  List.erase_of_not_mem fun hmem => by
    rw [(h.child p hp c hmem).2] at hc
    cases hc

theorem Shape.preamble (h : Shape t kids) (hc : c ∈ t.alive) :
    Shape (t.insertChildPreamble c) (without kids c) ∧ (t.insertChildPreamble c).alive = t.alive ∧
      (t.insertChildPreamble c).parent = update t.parent c none := by
  unfold insertChildPreamble
  cases hcp : t.parent c with
  | none =>
    dsimp only
    refine ⟨h.congr (h.without_loose hcp) (t.markInUse_eq c), ?_, ?_⟩
    · rw [markInUse_eq]
    · rw [markInUse_eq, ← hcp, update_eq_self]
  | some p =>
    obtain ⟨hp, hmem⟩ := h.parent c hc p hcp
    obtain ⟨xs, ys, hk⟩ := List.append_of_mem hmem
    have hunlink := h.unlink hp hk
    have heq := h.unlink_eq hp hk
    dsimp only
    refine ⟨hunlink.congr (fun q hq => ?_) rfl, by rw [heq], by rw [heq]⟩
    rw [heq] at hq
    exact h.without_eq hp hk q hq

variable {orphans : Finset Nat} {a : Nat}

theorem Tracks.preamble (h : Tracks t orphans) (c : Nat) :
    (t.insertChildPreamble c).unlinked.Perm (t.unlinked.erase c) := by
  unfold insertChildPreamble
  cases hcp : t.parent c with
  | none => exact t.markInUse_perm c
  | some p =>
    have hc : c ∉ t.unlinked := fun hmem => by
      rw [((h.mem c).mp hmem).2.2.1] at hcp
      cases hcp
    have hunlink : (t.unlink p c).unlinked = t.unlinked := by
      unfold unlink
      dsimp only
      split_ifs <;> rfl
    rw [List.erase_of_not_mem hc, ← hunlink]

/-- A node that has been put into a list is not tracked. -/
theorem Tracks.link {t' : XMLTree} (h : Tracks t orphans) (halive : t'.alive = t.alive)
    (hperm : t'.unlinked.Perm (t.unlinked.erase c)) (hparent : t'.parent = update t.parent c (some p)) :
    Tracks t' orphans := by
  refine ⟨hperm.nodup_iff.mpr (h.nodup.erase c), fun d => ?_⟩
  rw [hperm.mem_iff, halive, hparent]
  by_cases hd : d = c
  · subst hd
    rw [update_self]
    simp [h.nodup.mem_erase_iff]
  · rw [List.mem_erase_of_ne hd, update_of_ne hd, h.mem]

/-- The invariant of a document. -/
structure Sound (t : XMLTree) (kids : Nat → List Nat) (orphans : Finset Nat) : Prop where
  shape : Shape t kids
  tracks : Tracks t orphans

theorem under_preamble {t' : XMLTree} (hparent : t'.parent = update t.parent c none) {x y : Nat}
    (h : t'.Under x y) : t.Under x y := by
  refine Relation.ReflTransGen.mono (fun d q hdq => ?_) _ _ h
  rw [hparent] at hdq
  by_cases hd : d = c
  · rw [hd, update_self] at hdq
    cases hdq
  · rwa [update_of_ne hd] at hdq

/-- A node that has been taken out of its list is put under `p`, between `xs` and `ys`. -/
theorem Sound.attach (h : Sound t kids orphans) (hp : p ∈ t.alive) (hc : c ∈ t.alive)
    (hdoc : c ≠ document) (hpc : ¬ t.Under p c) (hk : without kids c p = xs ++ ys) :
    Sound ((t.insertChildPreamble c).attach p c xs ys)
      (update (without kids c) p (xs ++ c :: ys)) orphans := by
  obtain ⟨hshape, halive, hparent⟩ := h.shape.preamble hc
  refine ⟨hshape.attach (by rw [halive]; exact hp) hk (by rw [halive]; exact hc)
    (by rw [hparent, update_self]) hdoc fun hh => hpc (under_preamble hparent hh), ?_⟩
  have hlinked : ((t.insertChildPreamble c).attach p c xs ys).parent = update t.parent c (some p) := by
    rw [XMLTree.attach, hparent, update_idem]
  exact h.tracks.link halive (h.tracks.preamble c) hlinked

theorem Sound.insertEndChild (h : Sound t kids orphans) (hp : p ∈ t.alive) (hc : c ∈ t.alive)
    (hdoc : c ≠ document) (hpc : ¬ t.Under p c) :
    Sound (t.insertEndChild p c) (update (without kids c) p (without kids c p ++ [c])) orphans := by
  obtain ⟨hshape, halive, _⟩ := h.shape.preamble hc
  rw [XMLTree.insertEndChild, hshape.linkLast_eq (by rw [halive]; exact hp)]
  exact h.attach hp hc hdoc hpc (List.append_nil _).symm

theorem Sound.insertFirstChild (h : Sound t kids orphans) (hp : p ∈ t.alive) (hc : c ∈ t.alive)
    (hdoc : c ≠ document) (hpc : ¬ t.Under p c) :
    Sound (t.insertFirstChild p c) (update (without kids c) p (c :: without kids c p)) orphans := by
  obtain ⟨hshape, halive, _⟩ := h.shape.preamble hc
  rw [XMLTree.insertFirstChild, hshape.linkFirst_eq (by rw [halive]; exact hp)]
  exact h.attach hp hc hdoc hpc (List.nil_append _).symm

/-- `c` behind `a`. -/
def insertAfter (a c : Nat) : List Nat → List Nat
  | [] => []
  | d :: l => if d = a then a :: c :: l else d :: insertAfter a c l

theorem insertAfter_eq (ha : a ∉ xs) : insertAfter a c (xs ++ a :: ys) = xs ++ a :: c :: ys := by
  induction xs with
  | nil => rw [List.nil_append, insertAfter, if_pos rfl, List.nil_append]
  | cons x xs ih =>
    rw [List.mem_cons, not_or] at ha
    rw [List.cons_append, insertAfter, if_neg (Ne.symm ha.1), ih ha.2, List.cons_append]

theorem erase_middle (hn : (xs ++ a :: ys).Nodup) (hac : a ≠ c) :
    (xs ++ a :: ys).erase c = xs.erase c ++ a :: ys.erase c := by
  obtain ⟨hxs, hcons, _⟩ := List.nodup_append.mp hn
  rw [hn.erase_eq_filter, hxs.erase_eq_filter, (List.nodup_cons.mp hcons).2.erase_eq_filter,
    List.filter_append, List.filter_cons_of_pos (by simpa using hac)]

theorem Shape.insertEndChild_alive (h : Shape t kids) (hp : p ∈ t.alive) (hc : c ∈ t.alive) :
    (t.insertEndChild p c).alive = t.alive := by
  obtain ⟨hshape, halive, _⟩ := h.preamble hc
  rw [XMLTree.insertEndChild, hshape.linkLast_eq (by rw [halive]; exact hp)]
  exact halive

theorem Shape.insertFirstChild_alive (h : Shape t kids) (hp : p ∈ t.alive) (hc : c ∈ t.alive) :
    (t.insertFirstChild p c).alive = t.alive := by
  obtain ⟨hshape, halive, _⟩ := h.preamble hc
  rw [XMLTree.insertFirstChild, hshape.linkFirst_eq (by rw [halive]; exact hp)]
  exact halive

/-- `InsertAfterChild` follows a null pointer where it moves the last child, and that one is already
where it should be. -/
theorem Sound.insertAfterChild (h : Sound t kids orphans) (hp : p ∈ t.alive) (hc : c ∈ t.alive)
    (hdoc : c ≠ document) (hpc : ¬ t.Under p c) (hk : kids p = xs ++ a :: ys) (hac : a ≠ c) :
    if ys = [c] then t.insertAfterChild p a c = none
    else ∃ t', t.insertAfterChild p a c = some t' ∧ t'.alive = t.alive ∧
      Sound t' (update (without kids c) p (insertAfter a c (without kids c p))) orphans := by
  obtain ⟨hshape, halive, _⟩ := h.shape.preamble hc
  obtain ⟨_, hnext, hax, _⟩ := h.shape.split hp hk
  have hap := (h.shape.mem_kids hp hk).2
  have hn := h.shape.nodup p hp
  have hwithout : without kids c p = xs.erase c ++ a :: ys.erase c := by
    unfold without
    rw [hk] at hn ⊢
    exact erase_middle hn hac
  have hspec : insertAfter a c (without kids c p) = xs.erase c ++ a :: c :: ys.erase c := by
    rw [hwithout, insertAfter_eq fun hh => hax (List.mem_of_mem_erase hh)]
  unfold XMLTree.insertAfterChild
  rw [if_neg (not_not.mpr hap), if_neg hac, hnext, hspec]
  cases hys : ys with
  | nil =>
    have hsound := h.insertEndChild hp hc hdoc hpc
    rw [hwithout, hys, List.append_assoc] at hsound
    rw [if_neg (List.cons_ne_nil c []).symm]
    exact ⟨_, rfl, h.shape.insertEndChild_alive hp hc, hsound⟩
  | cons d l =>
    have hout : c ∉ without kids c p := fun hmem => (hn.mem_erase_iff.mp hmem).1 rfl
    have hlink := hshape.linkAfter_eq (by rw [halive]; exact hp) hwithout hout
    have hempty : ys.erase c = [] ↔ ys = [c] := by
      rw [List.erase_eq_nil_iff, hys]
      simp
    simp only [hempty] at hlink
    dsimp only [List.head?_cons]
    rw [← hys, hlink]
    split
    next => rfl
    next =>
      have hk' : without kids c p = (xs.erase c ++ [a]) ++ ys.erase c := by
        rw [hwithout, List.append_assoc]
        rfl
      have hsound := h.attach hp hc hdoc hpc hk'
      rw [List.append_assoc] at hsound
      exact ⟨_, rfl, halive, hsound⟩

end XMLTree

end CppTry
