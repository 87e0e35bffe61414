import CppTry.XMLTree

namespace CppTry

namespace XMLTree
open LinkedLists Function

variable {t t' : XMLTree} {kids : Nat → List Nat} {orphans : Finset Nat} {p c : Nat}

/-- A path up to `c` stays one where the parents of the nodes on it do. -/
theorem Under.agree {S : Nat → Prop} (hS : ∀ x, S x → x = c ∨
    t'.parent x = t.parent x ∧ ∀ y, t.parent x = some y → S y) {x : Nat} (h : t.Under x c) (hx : S x) :
    t'.Under x c := by
  induction h using Relation.ReflTransGen.head_induction_on with
  | refl => exact .refl
  | head hxy _ ih =>
    rcases hS _ hx with rfl | ⟨hparent, hy⟩
    · exact .refl
    · exact .head (hparent.trans hxy) (ih (hy _ hxy))

theorem Shape.under_alive (h : Shape t kids) {x : Nat} (hx : x ∈ t.alive) (hu : t.Under x p) :
    p ∈ t.alive := by
  induction hu with
  | refl => exact hx
  | tail _ hstep ih => exact (h.parent _ ih _ hstep).1

/-- Where it leads to another node, a path up to `p` ends with a child of `p`. -/
theorem Shape.under_iff (h : Shape t kids) {x : Nat} (hx : x ∈ t.alive) (hp : p ∈ t.alive) :
    t.Under x p ↔ x = p ∨ ∃ c ∈ kids p, t.Under x c := by
  constructor
  · intro hu
    rcases Relation.ReflTransGen.cases_tail hu with rfl | ⟨c, hxc, hcp⟩
    · exact Or.inl rfl
    · exact Or.inr ⟨c, (h.parent c (h.under_alive hx hxc) p hcp).2, hxc⟩
  · rintro (rfl | ⟨c, hc, hxc⟩)
    · exact .refl
    · exact hxc.tail (h.child p hp c hc).2

/-- No node is under its children. -/
theorem Shape.not_under (h : Shape t kids) (hp : p ∈ t.alive) (hc : c ∈ kids p) : ¬ t.Under p c := by
  intro hu
  have hgen : Relation.ReflTransGen (fun c p => p ∈ t.alive ∧ c ∈ kids p) p c := by
    clear hc
    induction hu with
    | refl => exact .refl
    | tail hpx hxy ih =>
      exact ih.tail (h.parent _ (h.under_alive hp hpx) _ hxy)
  have hloop : Relation.TransGen (fun c p => p ∈ t.alive ∧ c ∈ kids p) c c :=
    Relation.TransGen.head' ⟨hp, hc⟩ hgen
  exact h.descends.transGen.irrefl.irrefl c hloop

theorem Shape.markInUse (h : Shape t kids) (node : Nat) : Shape (t.markInUse node) kids :=
  h.congr (fun _ _ => rfl) (t.markInUse_eq node)

theorem Tracks.markInUse (h : Tracks t orphans) (node : Nat) :
    Tracks (t.markInUse node) (insert node orphans) := by
  have hperm := t.markInUse_perm node
  refine ⟨hperm.nodup_iff.mpr (h.nodup.erase node), fun d => ?_⟩
  rw [hperm.mem_iff, h.nodup.mem_erase_iff, h.mem, markInUse_eq, Finset.mem_insert]
  tauto

theorem Tracks.unlink (h : Tracks t orphans) (hs : Shape t kids) (hp : p ∈ t.alive)
    (hc : c ∈ kids p) : Tracks (t.unlink p c) (insert c orphans) := by
  obtain ⟨xs, ys, hk⟩ := List.append_of_mem hc
  have hcp := (hs.child p hp c hc).2
  rw [hs.unlink_eq hp hk]
  refine ⟨h.nodup, fun d => ?_⟩
  change d ∈ t.unlinked ↔ d ∈ t.alive ∧ d ≠ document ∧ update t.parent c none d = none ∧ _
  rw [h.mem, Finset.mem_insert]
  by_cases hd : d = c
  · subst hd
    simp [hcp]
  · rw [update_of_ne hd]
    simp [hd]

theorem Tracks.congr {orphans' : Finset Nat} (h : Tracks t orphans)
    (ho : ∀ c ∈ t.alive, c ∈ orphans ↔ c ∈ orphans') : Tracks t orphans' := by
  refine ⟨h.nodup, fun c => ?_⟩
  rw [h.mem]
  constructor
  · rintro ⟨hc, hd, hp, hco⟩
    exact ⟨hc, hd, hp, fun hh => hco ((ho c hc).mpr hh)⟩
  · rintro ⟨hc, hd, hp, hco⟩
    exact ⟨hc, hd, hp, fun hh => hco ((ho c hc).mp hh)⟩

/-- A node without children and without a parent is freed. -/
theorem Shape.free (h : Shape t kids) (hc : kids c = []) (hp : t.parent c = none)
    (hd : c ≠ document) : Shape { t with alive := t.alive.erase c } kids := by
  have halive {x : Nat} (hx : x ∈ t.alive.erase c) : x ∈ t.alive := Finset.mem_of_mem_erase hx
  constructor
  all_goals dsimp only
  case first => exact fun p hp => h.first p (halive hp)
  case last => exact fun p hp => h.last p (halive hp)
  case chained => exact fun p hp => h.chained p (halive hp)
  case nodup => exact fun p hp => h.nodup p (halive hp)
  case child =>
    intro q hq d hdq
    obtain ⟨hda, hdp⟩ := h.child q (halive hq) d hdq
    refine ⟨Finset.mem_erase.mpr ⟨?_, hda⟩, hdp⟩
    rintro rfl
    rw [hp] at hdp
    cases hdp
  case parent =>
    intro d hda q hdq
    obtain ⟨hq, hmem⟩ := h.parent d (halive hda) q hdq
    refine ⟨Finset.mem_erase.mpr ⟨?_, hq⟩, hmem⟩
    rintro rfl
    rw [hc] at hmem
    cases hmem
  case loose => exact fun d hda => h.loose d (halive hda)
  case root => exact ⟨Finset.mem_erase.mpr ⟨Ne.symm hd, h.root.1⟩, h.root.2⟩
  case descends => exact Subrelation.wf (fun hh => ⟨halive hh.1, hh.2⟩) h.descends

/-- What is left when the nodes in `gone` have been deleted. -/
structure Deleted (t t' : XMLTree) (kids : Nat → List Nat) (orphans : Finset Nat)
    (gone : Nat → Prop) : Prop extends Sound t' kids orphans where
  alive : ∀ x, x ∈ t'.alive ↔ x ∈ t.alive ∧ ¬ gone x
  parent : ∀ x ∈ t'.alive, t'.parent x = t.parent x

/-- With enough fuel, `op` gives what is left without the nodes in `gone`. -/
def Deletes (op : Nat → Option XMLTree) (t : XMLTree) (kids : Nat → List Nat) (orphans : Finset Nat)
    (gone : Nat → Prop) : Prop :=
  ∃ n t', (∀ fuel ≥ n, op fuel = some t') ∧ Deleted t t' kids orphans gone

/-- The children are related by `r`, which does not change with the tree. -/
def Descends (r : Nat → Nat → Prop) (t : XMLTree) (kids : Nat → List Nat) : Prop :=
  ∀ c p, p ∈ t.alive → c ∈ kids p → r c p

/-- `DeleteNode` of a node that is in no list deletes it and the nodes under it. -/
def Deletable (r : Nat → Nat → Prop) (node : Nat) : Prop :=
  ∀ t kids orphans, Sound t kids orphans → Descends r t kids → node ∈ t.alive →
    t.parent node = none → node ≠ document →
      Deletes (fun fuel => deleteNode fuel t node) t kids orphans fun x => t.Under x node

section
variable {r : Nat → Nat → Prop} {this : Nat} {cs xs ys : List Nat}

theorem Sound.unlink (h : Sound t kids orphans) (hp : p ∈ t.alive) (hk : kids p = xs ++ c :: ys) :
    Sound (t.unlink p c) (update kids p (xs ++ ys)) (insert c orphans) ∧
      (t.unlink p c).alive = t.alive ∧ (t.unlink p c).parent = update t.parent c none := by
  have heq := h.shape.unlink_eq hp hk
  exact ⟨⟨h.shape.unlink hp hk, h.tracks.unlink h.shape hp (by rw [hk]; simp)⟩, by rw [heq],
    by rw [heq]⟩

/-- What is under a node stays so when the node itself is taken out of its list. -/
theorem under_cut (hparent : t'.parent = update t.parent c none) (x : Nat) :
    t'.Under x c ↔ t.Under x c := by
  have hsame (y : Nat) : y = c ∨ t'.parent y = t.parent y := by
    rw [hparent]
    exact (em (y = c)).imp id fun hy => update_of_ne hy _ _
  constructor
  · exact fun hu => hu.agree (S := fun _ => True)
      (fun y _ => (hsame y).imp id fun he => ⟨he.symm, fun _ _ => trivial⟩) trivial
  · exact fun hu => hu.agree (S := fun _ => True)
      (fun y _ => (hsame y).imp id fun he => ⟨he, fun _ _ => trivial⟩) trivial

theorem Shape.ne_document (h : Shape t kids) (hp : p ∈ t.alive) (hc : c ∈ kids p) : c ≠ document := by
  rintro rfl
  have hcp := (h.child p hp _ hc).2
  rw [h.root.2] at hcp
  cases hcp

/-- `DeleteChild` deletes a child with all that is under it. -/
theorem deleteChild_deletes (hdel : Deletable r c) (h : Sound t kids orphans) (hr : Descends r t kids)
    (hp : p ∈ t.alive) (hk : kids p = xs ++ c :: ys) :
    Deletes (fun fuel => deleteChild fuel t p c) t (update kids p (xs ++ ys)) orphans
      fun x => t.Under x c := by
  have hmem : c ∈ kids p := by rw [hk]; simp
  obtain ⟨hsound, halive, hparent⟩ := h.unlink hp hk
  have hdesc : Descends r (t.unlink p c) (update kids p (xs ++ ys)) := by
    intro d q hq hd
    rw [halive] at hq
    by_cases he : q = p
    · subst he
      rw [update_self] at hd
      refine hr d q hp ?_
      rw [hk]
      exact (List.mem_append.mp hd).elim (List.mem_append_left _)
        fun hh => List.mem_append_right _ (List.mem_cons_of_mem c hh)
    · rw [update_of_ne he] at hd
      exact hr d q hq hd
  obtain ⟨n, t', hrun, hleft⟩ := hdel _ _ _ hsound hdesc (by rw [halive]; exact (h.shape.child p hp c hmem).1)
    (by rw [hparent, update_self]) (h.shape.ne_document hp hmem)
  have halive' (x : Nat) : x ∈ t'.alive ↔ x ∈ t.alive ∧ ¬ t.Under x c := by
    rw [hleft.alive, halive, under_cut hparent]
  have hne : ∀ x ∈ t'.alive, x ≠ c := fun x hx he => ((halive' x).mp hx).2 (he ▸ .refl)
  refine ⟨n, t', hrun, ⟨hleft.shape, hleft.tracks.congr fun d hd => ?_⟩, halive', fun x hx => ?_⟩
  · rw [Finset.mem_insert, or_iff_right (hne d hd)]
  · rw [hleft.parent x hx, hparent, update_of_ne (hne x hx)]

theorem deleteChildren_nil (h : Sound t kids orphans) (hp : this ∈ t.alive) (hk : kids this = []) :
    Deletes (fun fuel => deleteChildren fuel t this) t (update kids this []) orphans
      fun x => ∃ c ∈ ([] : List Nat), t.Under x c := by
  have hfirst := h.shape.first this hp
  have hlast := h.shape.last this hp
  rw [hk] at hfirst hlast
  refine ⟨1, t, fun fuel hfuel => ?_, ⟨⟨h.shape.congr (fun p _ => ?_) rfl, h.tracks⟩, ?_, fun _ _ => rfl⟩⟩
  · obtain ⟨fuel, rfl⟩ := Nat.exists_eq_add_of_le' hfuel
    change deleteChildren (fuel + 1) t this = some t
    have hsame : update t.firstChild this none = t.firstChild := by
      rw [← show t.firstChild this = none from hfirst, update_eq_self]
    have hsame' : update t.lastChild this none = t.lastChild := by
      rw [← show t.lastChild this = none from hlast, update_eq_self]
    rw [deleteChildren, hfirst]
    dsimp only [List.head?_nil]
    rw [hsame, hsame']
  · by_cases he : p = this
    · rw [he, update_self, hk]
    · rw [update_of_ne he]
  · simp

theorem deleteChildren_deletes (hall : ∀ c ∈ cs, Deletable r c) {t : XMLTree} {kids : Nat → List Nat}
    (h : Sound t kids orphans) (hr : Descends r t kids) (hp : this ∈ t.alive) (hk : kids this = cs) :
    Deletes (fun fuel => deleteChildren fuel t this) t (update kids this []) orphans
      fun x => ∃ c ∈ cs, t.Under x c := by
  induction cs generalizing t kids with
  | nil => exact deleteChildren_nil h hp hk
  | cons c cs ih =>
    obtain ⟨hc, hcs⟩ := List.forall_mem_cons.mp hall
    have hmem : c ∈ kids this := by rw [hk]; simp
    have hk' : kids this = [] ++ c :: cs := hk
    obtain ⟨n, t₂, hrun, hdel⟩ := deleteChild_deletes hc h hr hp hk'
    rw [List.nil_append] at hdel
    have hleft := hdel.alive
    have hsurvive := hdel.parent
    have hstay : this ∈ t₂.alive := (hleft this).mpr ⟨hp, h.shape.not_under hp hmem⟩
    have hup : ∀ x ∈ t₂.alive, ∀ y, t₂.parent x = some y → y ∈ t₂.alive := fun x hx y hy =>
      (hdel.shape.parent x hx y hy).1
    have hpaths : ∀ x ∈ t₂.alive, ∀ d, t₂.Under x d ↔ t.Under x d := by
      intro x hx d
      constructor
      · exact fun hu => hu.agree (S := fun y => y ∈ t₂.alive)
          (fun y hy => Or.inr ⟨(hsurvive y hy).symm, hup y hy⟩) hx
      · exact fun hu => hu.agree (S := fun y => y ∈ t₂.alive)
          (fun y hy => Or.inr ⟨hsurvive y hy, fun z hz => hup y hy z ((hsurvive y hy).trans hz)⟩) hx
    have hdesc : Descends r t₂ (update kids this cs) := by
      intro d q hq hd
      by_cases he : q = this
      · subst he
        rw [update_self] at hd
        exact hr d q hp (by rw [hk]; exact List.mem_cons_of_mem c hd)
      · rw [update_of_ne he] at hd
        exact hr d q ((hleft q).mp hq).1 hd
    obtain ⟨n', t₃, hrun', hdel'⟩ := ih hcs hdel.toSound hdesc hstay (update_self this cs kids)
    rw [update_idem] at hdel'
    refine ⟨max n n' + 1, t₃, fun fuel hfuel => ?_, hdel'.toSound, fun x => ?_, fun x hx => ?_⟩
    · obtain ⟨fuel, rfl⟩ := Nat.exists_eq_add_of_le' (Nat.le_of_add_left_le hfuel)
      change deleteChildren (fuel + 1) t this = some t₃
      have hfirst := h.shape.first this hp
      rw [hk, List.head?_cons] at hfirst
      have hnode : deleteNode fuel (t.unlink this c) c = some t₂ := hrun fuel (by omega)
      have hrest : deleteChildren fuel t₂ this = some t₃ := hrun' fuel (by omega)
      rw [deleteChildren, hfirst]
      dsimp only
      rw [hnode, Option.bind_eq_bind, Option.bind_some, hrest]
    · rw [hdel'.alive, List.exists_mem_cons_iff, not_or, ← and_assoc, ← hleft]
      constructor
      · rintro ⟨hx, hno⟩
        exact ⟨hx, fun ⟨d, hd, hu⟩ => hno ⟨d, hd, (hpaths x hx d).mpr hu⟩⟩
      · rintro ⟨hx, hno⟩
        exact ⟨hx, fun ⟨d, hd, hu⟩ => hno ⟨d, hd, (hpaths x hx d).mp hu⟩⟩
    · rw [hdel'.parent x hx, hsurvive x ((hdel'.alive x).mp hx).1]

end

/-- `DeleteNode` deletes a node that is in no list with all that is under it, and nothing else. -/
theorem deletable {r : Nat → Nat → Prop} (hr : WellFounded r) (node : Nat) : Deletable r node := by
  induction node using hr.induction with
  | _ node ih =>
    intro t kids orphans h hdesc hn hp hd
    have hsound : Sound (t.markInUse node) kids (insert node orphans) :=
      ⟨h.shape.markInUse node, h.tracks.markInUse node⟩
    have heq := t.markInUse_eq node
    have halive : (t.markInUse node).alive = t.alive := by rw [heq]
    have hparent : (t.markInUse node).parent = t.parent := by rw [heq]
    have hkids : ∀ c ∈ kids node, Deletable r c := fun c hc => ih c (hdesc c node hn hc)
    obtain ⟨n, t₁, hrun, hdel⟩ := deleteChildren_deletes hkids hsound
      (fun c p hpa hc => hdesc c p (halive ▸ hpa) hc) (halive ▸ hn) rfl
    have hunder : ∀ x y, (t.markInUse node).Under x y ↔ t.Under x y := by
      intro x y
      unfold Under
      rw [hparent]
    simp only [hunder] at hdel
    have hstay : node ∈ t₁.alive := by
      rw [hdel.alive, halive]
      exact ⟨hn, fun ⟨c, hc, hu⟩ => h.shape.not_under hn hc hu⟩
    have hloose : t₁.parent node = none := by rw [hdel.parent node hstay, hparent, hp]
    have hshape : Shape { t₁ with alive := t₁.alive.erase node } kids :=
      (hdel.shape.free (update_self node [] kids) hloose hd).congr
        (fun q hq => (update_of_ne (Finset.ne_of_mem_erase hq) [] kids).symm) rfl
    refine ⟨n + 1, { t₁ with alive := t₁.alive.erase node }, fun fuel hfuel => ?_,
      ⟨hshape, hdel.tracks.nodup, fun c => ?_⟩, fun x => ?_, fun x hx => ?_⟩
    · obtain ⟨fuel, rfl⟩ := Nat.exists_eq_add_of_le' (Nat.le_of_add_left_le hfuel)
      change deleteNode (fuel + 1) t node = _
      have hchildren : deleteChildren fuel (t.markInUse node) node = some t₁ := hrun fuel (by omega)
      rw [deleteNode, hchildren, Option.bind_eq_bind, Option.bind_some, hloose]
      dsimp only
      rw [XMLTree.free, if_pos hstay]
    · dsimp only
      rw [hdel.tracks.mem, Finset.mem_erase, Finset.mem_insert]
      tauto
    · dsimp only
      rw [Finset.mem_erase, hdel.alive, halive]
      constructor
      · rintro ⟨hxn, hx, hno⟩
        exact ⟨hx, fun hu => ((h.shape.under_iff hx hn).mp hu).elim hxn hno⟩
      · rintro ⟨hx, hno⟩
        rw [h.shape.under_iff hx hn, not_or] at hno
        exact ⟨hno.1, hx, hno.2⟩
    · rw [hdel.parent x (Finset.mem_of_mem_erase hx), hparent]

end XMLTree

end CppTry
