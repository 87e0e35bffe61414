import CppTry.XMLDeletion

namespace CppTry

/-- What a document is for: nodes, each with its children in their order. -/
structure XMLForest where
  nodes : Set Nat
  children : Nat → List Nat

/-- The calls that change the nodes of a document. `create` stands for `NewElement` and the like, with
the address that the pool gives. -/
inductive XMLEdit
  | create (node : Nat)
  | insertEndChild (this addThis : Nat)
  | insertFirstChild (this addThis : Nat)
  | insertAfterChild (this afterThis addThis : Nat)
  | deleteChild (this node : Nat)
  | deleteNode (node : Nat)
  | deleteChildren (this : Nat)
  | clear

namespace XMLForest
open XMLTree Function

def new : XMLForest := ⟨{document}, fun _ => []⟩

/-- `c` is under `p`, at any depth, or `p` itself. -/
def Below (f : XMLForest) : Nat → Nat → Prop :=
  Relation.ReflTransGen fun c p => p ∈ f.nodes ∧ c ∈ f.children p

/-- `c` leaves its place, and `place` puts it among the children of `p`. -/
def move (f : XMLForest) (p c : Nat) (place : List Nat → List Nat) : XMLForest :=
  { f with children := update (without f.children c) p (place (without f.children c p)) }

/-- `c` is deleted, with all that is under it. -/
def remove (f : XMLForest) (c : Nat) : XMLForest :=
  ⟨{x | x ∈ f.nodes ∧ ¬ f.Below x c}, without f.children c⟩

def apply (f : XMLForest) : XMLEdit → XMLForest
  | .create node => ⟨insert node f.nodes, update f.children node []⟩
  | .insertEndChild p c => f.move p c (· ++ [c])
  | .insertFirstChild p c => f.move p c (c :: ·)
  | .insertAfterChild p a c =>
    if a ∈ f.children p ∧ a ≠ c then f.move p c (insertAfter a c) else f
  | .deleteChild _ c => f.remove c
  | .deleteNode c => f.remove c
  | .deleteChildren p =>
    ⟨{x | x ∈ f.nodes ∧ ¬ ∃ c ∈ f.children p, f.Below x c}, update f.children p []⟩
  | .clear => new

end XMLForest

namespace XMLTree
open LinkedLists Function

def exec (fuel : Nat) (t : XMLTree) : XMLEdit → Option XMLTree
  | .create node => some (t.createUnlinkedNode node)
  | .insertEndChild this addThis => some (t.insertEndChild this addThis)
  | .insertFirstChild this addThis => some (t.insertFirstChild this addThis)
  | .insertAfterChild this afterThis addThis => t.insertAfterChild this afterThis addThis
  | .deleteChild this node => deleteChild fuel t this node
  | .deleteNode node => documentDeleteNode fuel t node
  | .deleteChildren this => deleteChildren fuel t this
  | .clear => clear fuel t

/-- A node that a caller may put under `p`: another node of the document, that `p` is not under. -/
structure Movable (t : XMLTree) (p c : Nat) : Prop where
  parent : p ∈ t.alive
  node : c ∈ t.alive
  ne_document : c ≠ document
  not_under : ¬ t.Under p c

/-- `c` is the last child of `p`, and `a` the child in front of it. -/
def LastBehind (t : XMLTree) (p a c : Nat) : Prop :=
  t.parent a = some p ∧ t.next a = some c ∧ t.next c = none

/-- What a caller has to keep to. -/
def Allowed (t : XMLTree) : XMLEdit → Prop
  | .create node => node ∉ t.alive
  | .insertEndChild p c => t.Movable p c
  | .insertFirstChild p c => t.Movable p c
  | .insertAfterChild p a c => t.Movable p c ∧ a ∈ t.alive ∧ ¬ t.LastBehind p a c
  | .deleteChild p c => c ∈ t.alive ∧ t.parent c = some p
  | .deleteNode c => c ∈ t.alive ∧ c ≠ document
  | .deleteChildren p => p ∈ t.alive
  | .clear => True

/-- A call that returns. -/
def Step (t : XMLTree) (edit : XMLEdit) (t' : XMLTree) : Prop :=
  t.Allowed edit ∧ ∃ n, ∀ fuel ≥ n, t.exec fuel edit = some t'

/-- The calls that are made on a new document. -/
inductive Run : List XMLEdit → XMLTree → Prop
  | new : Run [] new
  | step {edits : List XMLEdit} {t t' : XMLTree} {edit : XMLEdit} : Run edits t → t.Step edit t' →
      Run (edits ++ [edit]) t'

variable {t t' : XMLTree} {kids : Nat → List Nat} {orphans : Finset Nat} {p c a : Nat}
  {xs ys : List Nat}

theorem Shape.create (h : Shape t kids) (hc : c ∉ t.alive) :
    Shape (t.createUnlinkedNode c) (update kids c []) := by
  have hkid {q d : Nat} (hq : q ∈ t.alive) (hd : d ∈ kids q) : d ≠ c :=
    fun he => hc (he ▸ (h.child q hq d hd).1)
  have hne {q : Nat} (hq : q ∈ t.alive) : q ≠ c := fun he => hc (he ▸ hq)
  have halive {q : Nat} (hq : q ∈ insert c t.alive) (he : q ≠ c) : q ∈ t.alive :=
    (Finset.mem_insert.mp hq).resolve_left he
  unfold createUnlinkedNode
  constructor
  all_goals dsimp only
  case first =>
    intro q hq
    by_cases he : q = c
    · rw [he, update_self, update_self, List.head?_nil]
    · rw [update_of_ne he, update_of_ne he, h.first q (halive hq he)]
  case last =>
    intro q hq
    by_cases he : q = c
    · rw [he, update_self, update_self, List.getLast?_nil]
    · rw [update_of_ne he, update_of_ne he, h.last q (halive hq he)]
  case chained =>
    intro q hq
    by_cases he : q = c
    · rw [he, update_self]
      trivial
    · have hq := halive hq he
      rw [update_of_ne he]
      refine (h.chained q hq).congr (fun d hd => ?_) fun d hd => ?_
      all_goals exact update_of_ne (hkid hq hd) _ _
  case nodup =>
    intro q hq
    by_cases he : q = c
    · rw [he, update_self]
      exact List.nodup_nil
    · rw [update_of_ne he]
      exact h.nodup q (halive hq he)
  case child =>
    intro q hq d hd
    by_cases he : q = c
    · rw [he, update_self] at hd
      cases hd
    · rw [update_of_ne he] at hd
      obtain ⟨hda, hdq⟩ := h.child q (halive hq he) d hd
      exact ⟨Finset.mem_insert_of_mem hda, by rw [update_of_ne (hne hda), hdq]⟩
  case parent =>
    intro d hd q hdq
    by_cases he : d = c
    · rw [he, update_self] at hdq
      cases hdq
    · rw [update_of_ne he] at hdq
      obtain ⟨hq, hdk⟩ := h.parent d (halive hd he) q hdq
      exact ⟨Finset.mem_insert_of_mem hq, by rw [update_of_ne (hne hq)]; exact hdk⟩
  case loose =>
    intro d hd hdp
    by_cases he : d = c
    · rw [he, update_self, update_self]
      exact ⟨rfl, rfl⟩
    · rw [update_of_ne he] at hdp
      rw [update_of_ne he, update_of_ne he]
      exact h.loose d (halive hd he) hdp
  case root =>
    obtain ⟨hroot, hparent⟩ := h.root
    exact ⟨Finset.mem_insert_of_mem hroot, by rw [update_of_ne (hne hroot), hparent]⟩
  case descends =>
    refine Subrelation.wf (fun {d q} hh => ?_) h.descends
    obtain ⟨hq, hd⟩ := hh
    by_cases he : q = c
    · rw [he, update_self] at hd
      cases hd
    · rw [update_of_ne he] at hd
      exact ⟨halive hq he, hd⟩

theorem Tracks.create (h : Tracks t ∅) (hroot : document ∈ t.alive) (hc : c ∉ t.alive) :
    Tracks (t.createUnlinkedNode c) ∅ := by
  have hout : c ∉ t.unlinked := fun hh => hc ((h.mem c).mp hh).1
  have hdoc : c ≠ document := fun he => hc (he ▸ hroot)
  refine ⟨List.nodup_append'.mpr ⟨h.nodup, List.nodup_singleton c, ?_⟩, fun d => ?_⟩
  · intro d hd hdc
    rw [List.mem_singleton.mp hdc] at hd
    exact hout hd
  · change d ∈ t.unlinked ++ [c] ↔ d ∈ insert c t.alive ∧ d ≠ document ∧
      update t.parent c none d = none ∧ d ∉ (∅ : Finset Nat)
    rw [List.mem_append, List.mem_singleton, h.mem, Finset.mem_insert]
    by_cases he : d = c
    · subst he
      simp [hdoc]
    · rw [update_of_ne he]
      simp [he]

theorem Deleted.congr {kids' : Nat → List Nat} {gone : Nat → Prop}
    (h : Deleted t t' kids orphans gone) (hk : ∀ p ∈ t'.alive, kids' p = kids p) :
    Deleted t t' kids' orphans gone :=
  ⟨⟨h.shape.congr hk rfl, h.tracks⟩, h.alive, h.parent⟩

theorem Sound.deleteChild (h : Sound t kids orphans) (hc : c ∈ t.alive) (hcp : t.parent c = some p) :
    Deletes (fun fuel => deleteChild fuel t p c) t (without kids c) orphans fun x => t.Under x c := by
  obtain ⟨hp, hmem⟩ := h.shape.parent c hc p hcp
  obtain ⟨xs, ys, hk⟩ := List.append_of_mem hmem
  obtain ⟨n, t', hrun, hdel⟩ := deleteChild_deletes (deletable h.shape.descends c) h
    (fun _ _ hp hc => ⟨hp, hc⟩) hp hk
  exact ⟨n, t', hrun, hdel.congr fun q hq => h.shape.without_eq hp hk q ((hdel.alive q).mp hq).1⟩

theorem Sound.documentDeleteNode (h : Sound t kids orphans) (hc : c ∈ t.alive) (hd : c ≠ document) :
    Deletes (fun fuel => documentDeleteNode fuel t c) t (without kids c) orphans
      fun x => t.Under x c := by
  cases hcp : t.parent c with
  | some p =>
    simp only [XMLTree.documentDeleteNode, hcp]
    exact h.deleteChild hc hcp
  | none =>
    simp only [XMLTree.documentDeleteNode, hcp]
    obtain ⟨n, t', hrun, hdel⟩ := deletable h.shape.descends c t kids orphans h
      (fun _ _ hp hc => ⟨hp, hc⟩) hc hcp hd
    exact ⟨n, t', hrun, hdel.congr fun q hq => h.shape.without_loose hcp q ((hdel.alive q).mp hq).1⟩

theorem Sound.deleteChildren (h : Sound t kids orphans) (hp : p ∈ t.alive) :
    Deletes (fun fuel => deleteChildren fuel t p) t (update kids p []) orphans
      fun x => ∃ c ∈ kids p, t.Under x c :=
  deleteChildren_deletes (fun c _ => deletable h.shape.descends c) h (fun _ _ hp hc => ⟨hp, hc⟩) hp rfl

/-- Where the document has no children and no node is tracked, there is no other node: the highest
one would have a parent. -/
theorem Sound.alone (h : Sound t kids ∅) (hk : kids document = []) (hu : t.unlinked = []) :
    t.alive = {document} := by
  by_contra hne
  have hsome : (t.alive.erase document).Nonempty := by
    rw [Finset.nonempty_iff_ne_empty, Ne, Finset.erase_eq_empty_iff, not_or]
    exact ⟨fun he => Finset.notMem_empty document (he ▸ h.shape.root.1), hne⟩
  obtain ⟨x, hx, htop⟩ := exists_top h.shape.descends hsome
  obtain ⟨hxd, hxa⟩ := Finset.mem_erase.mp hx
  cases hparent : t.parent x with
  | none =>
    have hmem := (h.tracks.mem x).mpr ⟨hxa, hxd, hparent, Finset.notMem_empty x⟩
    rw [hu] at hmem
    cases hmem
  | some p =>
    obtain ⟨hp, hxp⟩ := h.shape.parent x hxa p hparent
    have hpd : p ≠ document := by
      rintro rfl
      rw [hk] at hxp
      cases hxp
    exact htop p (Finset.mem_erase.mpr ⟨hpd, hp⟩) ⟨hp, hxp⟩

theorem clearUnlinked_clears (h : Sound t kids ∅) (hk : kids document = []) :
    ∃ n t', (∀ fuel ≥ n, clearUnlinked fuel t = some t') ∧ Sound t' (fun _ => []) ∅ ∧
      t'.alive = {document} := by
  generalize hn : t.alive.card = m
  induction m using Nat.strongRecOn generalizing t kids with
  | ind m ih =>
    cases hu : t.unlinked with
    | nil =>
      have halone := h.alone hk hu
      refine ⟨1, t, fun fuel hfuel => ?_, ⟨h.shape.congr (fun p hp => ?_) rfl, h.tracks⟩, halone⟩
      · obtain ⟨fuel, rfl⟩ := Nat.exists_eq_add_of_le' hfuel
        rw [clearUnlinked, hu]
      · rw [halone, Finset.mem_singleton] at hp
        rw [hp, hk]
    | cons node rest =>
      obtain ⟨hnode, hd, -⟩ := (h.tracks.mem node).mp (by rw [hu]; exact List.mem_cons_self)
      obtain ⟨n, t₁, hrun, hdel⟩ := h.documentDeleteNode hnode hd
      have hcard : t₁.alive.card < m := by
        rw [← hn]
        refine Finset.card_lt_card ⟨fun x hx => ((hdel.alive x).mp hx).1, fun hsub => ?_⟩
        exact ((hdel.alive node).mp (hsub hnode)).2 .refl
      have hk₁ : without kids node document = [] := by
        rw [without, hk]
        rfl
      obtain ⟨n', t', hrun', hclear⟩ := ih _ hcard hdel.toSound hk₁ rfl
      refine ⟨max n n' + 1, t', fun fuel hfuel => ?_, hclear⟩
      obtain ⟨fuel, rfl⟩ := Nat.exists_eq_add_of_le' (Nat.le_of_add_left_le hfuel)
      have hone : documentDeleteNode fuel t node = some t₁ := hrun fuel (by omega)
      rw [clearUnlinked, hu]
      dsimp only
      rw [hone, Option.bind_eq_bind, Option.bind_some, hrun' fuel (by omega)]

/-- `Clear` leaves nothing but the document. -/
theorem Sound.clear (h : Sound t kids ∅) :
    ∃ n t', (∀ fuel ≥ n, clear fuel t = some t') ∧ Sound t' (fun _ => []) ∅ ∧
      t'.alive = {document} := by
  obtain ⟨n, t₁, hrun, hdel⟩ := h.deleteChildren h.shape.root.1
  obtain ⟨n', t', hrun', hclear⟩ := clearUnlinked_clears hdel.toSound (update_self document [] kids)
  refine ⟨max n n', t', fun fuel hfuel => ?_, hclear⟩
  have hone : XMLTree.deleteChildren fuel t document = some t₁ := hrun fuel (by omega)
  rw [XMLTree.clear, hone, Option.bind_eq_bind, Option.bind_some, hrun' fuel (by omega)]

/-- The pointers are those of the forest, and the nodes without a parent are tracked. -/
structure Models (t : XMLTree) (f : XMLForest) : Prop where
  sound : Sound t f.children ∅
  nodes : ∀ x, x ∈ t.alive ↔ x ∈ f.nodes

variable {f : XMLForest} {edit : XMLEdit} {edits : List XMLEdit}

theorem Models.under_iff (h : Models t f) {x : Nat} (hx : x ∈ t.alive) :
    t.Under x c ↔ f.Below x c := by
  constructor
  · intro hu
    induction hu with
    | refl => exact .refl
    | tail hxy hstep ih =>
      obtain ⟨hp, hmem⟩ := h.sound.shape.parent _ (h.sound.shape.under_alive hx hxy) _ hstep
      exact ih.tail ⟨(h.nodes _).mp hp, hmem⟩
  · exact Relation.ReflTransGen.mono
      (fun d q hdq => (h.sound.shape.child q ((h.nodes q).mpr hdq.1) d hdq.2).2) _ _

theorem Models.move (h : Models t f) {place : List Nat → List Nat} (halive : t'.alive = t.alive)
    (hs : Sound t' (update (without f.children c) p (place (without f.children c p))) ∅) :
    Models t' (f.move p c place) :=
  ⟨hs, fun x => by rw [halive]; exact h.nodes x⟩

theorem Models.remove (h : Models t f) {op : Nat → Option XMLTree}
    (hd : Deletes op t (without f.children c) ∅ fun x => t.Under x c) :
    ∃ n t', (∀ fuel ≥ n, op fuel = some t') ∧ Models t' (f.remove c) := by
  obtain ⟨n, t', hrun, hdel⟩ := hd
  refine ⟨n, t', hrun, hdel.toSound, fun x => ?_⟩
  rw [hdel.alive]
  change _ ↔ x ∈ f.nodes ∧ ¬ f.Below x c
  rw [← h.nodes]
  exact and_congr_right fun hx => not_congr (h.under_iff hx)

theorem Shape.lastBehind_iff (h : Shape t kids) (hp : p ∈ t.alive) (hk : kids p = xs ++ a :: ys) :
    t.LastBehind p a c ↔ ys = [c] := by
  obtain ⟨_, hnext, _⟩ := h.split hp hk
  have hap := (h.mem_kids hp hk).2
  unfold LastBehind
  rw [hnext]
  constructor
  · rintro ⟨_, hhead, hlast⟩
    obtain ⟨l, rfl⟩ := List.head?_eq_some_iff.mp hhead
    have hk' : kids p = (xs ++ [a]) ++ c :: l := by rw [hk, List.append_assoc]; rfl
    obtain ⟨_, hnext', _⟩ := h.split hp hk'
    rw [hlast] at hnext'
    rw [List.head?_eq_none_iff.mp hnext'.symm]
  · rintro rfl
    have hk' : kids p = (xs ++ [a]) ++ c :: [] := by rw [hk, List.append_assoc]; rfl
    exact ⟨hap, rfl, (h.split hp hk').2.1⟩

/-- `InsertAfterChild` does nothing where `a` is no child of `p`, or is `c` itself. -/
theorem insertAfterChild_same (h : ¬ (t.parent a = some p ∧ a ≠ c)) :
    t.insertAfterChild p a c = some t := by
  unfold insertAfterChild
  by_cases hap : t.parent a = some p
  · rw [if_neg (not_not.mpr hap), if_pos (not_not.mp fun hac => h ⟨hap, hac⟩)]
  · rw [if_pos hap]

theorem Models.insertAfterChild (h : Models t f) (hm : t.Movable p c) (ha : a ∈ t.alive)
    (hlast : ¬ t.LastBehind p a c) : ∃ t', t.insertAfterChild p a c = some t' ∧
      Models t' (f.apply (.insertAfterChild p a c)) := by
  have hchild : t.parent a = some p ↔ a ∈ f.children p :=
    ⟨fun hap => (h.sound.shape.parent a ha p hap).2, fun hmem =>
      (h.sound.shape.child p hm.parent a hmem).2⟩
  by_cases hcase : t.parent a = some p ∧ a ≠ c
  · obtain ⟨hap, hac⟩ := hcase
    obtain ⟨xs, ys, hk⟩ := List.append_of_mem (hchild.mp hap)
    have hmove := h.sound.insertAfterChild hm.parent hm.node hm.ne_document hm.not_under hk hac
    rw [if_neg (mt (h.sound.shape.lastBehind_iff hm.parent hk).mpr hlast)] at hmove
    obtain ⟨t', ht', halive, hsound⟩ := hmove
    rw [XMLForest.apply, if_pos ⟨hchild.mp hap, hac⟩]
    exact ⟨t', ht', h.move halive hsound⟩
  · rw [XMLForest.apply, if_neg (mt (And.imp_left hchild.mpr) hcase)]
    exact ⟨t, insertAfterChild_same hcase, h⟩

/-- A call that keeps to its rules returns, and does to the pointers what it should do to the
forest. -/
theorem Models.step (h : Models t f) (ha : t.Allowed edit) :
    ∃ n t', (∀ fuel ≥ n, t.exec fuel edit = some t') ∧ Models t' (f.apply edit) := by
  cases edit with
  | create node =>
    refine ⟨0, _, fun _ _ => rfl,
      ⟨h.sound.shape.create ha, h.sound.tracks.create h.sound.shape.root.1 ha⟩, fun x => ?_⟩
    change x ∈ insert node t.alive ↔ x ∈ insert node f.nodes
    rw [Finset.mem_insert, Set.mem_insert_iff, h.nodes]
  | insertEndChild p c =>
    obtain ⟨hp, hc, hd, hu⟩ := ha
    have hmoved : Models (t.insertEndChild p c) (f.move p c (· ++ [c])) :=
      h.move (h.sound.shape.insertEndChild_alive hp hc) (h.sound.insertEndChild hp hc hd hu)
    exact ⟨0, _, fun _ _ => rfl, hmoved⟩
  | insertFirstChild p c =>
    obtain ⟨hp, hc, hd, hu⟩ := ha
    have hmoved : Models (t.insertFirstChild p c) (f.move p c (c :: ·)) :=
      h.move (h.sound.shape.insertFirstChild_alive hp hc) (h.sound.insertFirstChild hp hc hd hu)
    exact ⟨0, _, fun _ _ => rfl, hmoved⟩
  | insertAfterChild p a c =>
    obtain ⟨hm, haa, hlast⟩ := ha
    obtain ⟨t', ht', hmodels⟩ := h.insertAfterChild hm haa hlast
    exact ⟨0, t', fun _ _ => ht', hmodels⟩
  | deleteChild p c => exact h.remove (h.sound.deleteChild ha.1 ha.2)
  | deleteNode c => exact h.remove (h.sound.documentDeleteNode ha.1 ha.2)
  | deleteChildren p =>
    obtain ⟨n, t', hrun, hdel⟩ := h.sound.deleteChildren ha
    refine ⟨n, t', hrun, hdel.toSound, fun x => ?_⟩
    rw [hdel.alive]
    change _ ↔ x ∈ f.nodes ∧ ¬ ∃ c ∈ f.children p, f.Below x c
    rw [← h.nodes]
    refine and_congr_right fun hx => not_congr (exists_congr fun d => and_congr_right fun _ => ?_)
    exact h.under_iff hx
  | clear =>
    obtain ⟨n, t', hrun, hsound, halive⟩ := h.sound.clear
    refine ⟨n, t', hrun, hsound, fun x => ?_⟩
    rw [halive, Finset.mem_singleton]
    rfl

theorem models_new : Models new .new where
  sound := {
    shape := {
      first _ _ := rfl
      last _ _ := rfl
      chained _ _ := trivial
      nodup _ _ := List.nodup_nil
      child _ _ _ hc := by cases hc
      parent _ _ _ hp := by cases hp
      loose _ _ _ := ⟨rfl, rfl⟩
      root := ⟨Finset.mem_singleton_self _, rfl⟩
      descends := ⟨fun x => ⟨x, fun _ hy => by cases hy.2⟩⟩ }
    tracks := {
      nodup := List.nodup_nil
      mem c := by simp [new] } }
  nodes _ := Finset.mem_singleton

theorem Run.models (h : Run edits t) : Models t (edits.foldl XMLForest.apply .new) := by
  induction h with
  | new => exact models_new
  | step hrun hstep ih =>
    obtain ⟨ha, n, hexec⟩ := hstep
    obtain ⟨n', t', hexec', hmodels⟩ := ih.step ha
    have hsame := (hexec (max n n') (le_max_left n n')).symm.trans
      (hexec' (max n n') (le_max_right n n'))
    obtain rfl := Option.some.inj hsame
    rw [List.foldl_append]
    exact hmodels

theorem not_under_of_root (hp : t.parent p = none) (hpc : p ≠ c) : ¬ t.Under p c := by
  intro hu
  rcases Relation.ReflTransGen.cases_head hu with rfl | ⟨q, hq, _⟩
  · exact hpc rfl
  · rw [hp] at hq
    cases hq

/-- A document with two children. -/
def twoChildren : XMLTree :=
  (((new.createUnlinkedNode 1).createUnlinkedNode 2).insertEndChild document 1).insertEndChild document 2

def twoEdits : List XMLEdit :=
  [.create 1, .create 2, .insertEndChild document 1, .insertEndChild document 2]

theorem twoChildren_run : Run twoEdits twoChildren := by
  have hone : Run [.create 1] (new.createUnlinkedNode 1) :=
    .step .new ⟨by simp [Allowed, new, document], 0, fun _ _ => rfl⟩
  have htwo : Run [.create 1, .create 2] ((new.createUnlinkedNode 1).createUnlinkedNode 2) :=
    .step hone ⟨by simp [Allowed, createUnlinkedNode, new, document], 0, fun _ _ => rfl⟩
  have hfirst : Run [.create 1, .create 2, .insertEndChild document 1]
      (((new.createUnlinkedNode 1).createUnlinkedNode 2).insertEndChild document 1) :=
    .step htwo ⟨⟨by decide, by decide, by decide, not_under_of_root rfl (by decide)⟩, 0, fun _ _ => rfl⟩
  exact .step hfirst
    ⟨⟨by decide, by decide, by decide, not_under_of_root rfl (by decide)⟩, 0, fun _ _ => rfl⟩

/-- `InsertAfterChild` follows a null pointer exactly where it moves the last child behind the one in
front of it, which would change nothing. -/
theorem insertAfterChild_iff (h : Run edits t) (hm : t.Movable p c) (ha : a ∈ t.alive) :
    (∃ t', t.insertAfterChild p a c = some t') ↔ ¬ t.LastBehind p a c := by
  constructor
  · rintro ⟨t', ht'⟩ hlast
    have hshape := h.models.sound.shape
    obtain ⟨xs, ys, hk⟩ := List.append_of_mem (hshape.parent a ha p hlast.1).2
    have hac : a ≠ c := by
      rintro rfl
      obtain ⟨_, hnext, hnone⟩ := hlast
      rw [hnext] at hnone
      cases hnone
    have hnull := h.models.sound.insertAfterChild hm.parent hm.node hm.ne_document hm.not_under hk hac
    rw [if_pos ((hshape.lastBehind_iff hm.parent hk).mp hlast), ht'] at hnull
    cases hnull
  · intro hlast
    obtain ⟨t', ht', _⟩ := h.models.insertAfterChild hm ha hlast
    exact ⟨t', ht'⟩

theorem twoChildren_null : ¬ ∃ t', twoChildren.insertAfterChild document 1 2 = some t' := by
  have hmovable : twoChildren.Movable document 2 :=
    ⟨by decide, by decide, by decide, not_under_of_root rfl (by decide)⟩
  rw [insertAfterChild_iff twoChildren_run hmovable (by decide), not_not]
  exact ⟨by decide, by decide, by decide⟩

end XMLTree

end CppTry
