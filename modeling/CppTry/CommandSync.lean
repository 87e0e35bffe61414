import CppTry.MySQLWrap

namespace CppTry
namespace MySQLWrap

variable {ρ : Type}

namespace Op

def sql : Op ρ → List Byte
  | .query sql _ => sql
  | .execute sql _ => sql
  | .doHeartBeat _ => text "call sp_update_heart_beat"
  | .startTransaction _ => text "START TRANSACTION"
  | .endTransaction ok _ => if ok then text "COMMIT" else text "ROLLBACK"

def answer : Op ρ → Answer ρ
  | .query _ answer => answer
  | .execute _ answer => answer
  | .doHeartBeat results => Answer.call results
  | .startTransaction answer => answer
  | .endTransaction _ answer => answer

def isEnd : Op ρ → Bool
  | .endTransaction _ _ => true
  | _ => false

/-- Only `Query` reads the rows of the first result. -/
def leavesRows : Op ρ → Bool
  | .query _ _ => false
  | op => op.answer.first.isSome

/-- A `Query` of a statement whose first result has no rows is the last call. -/
def isLast : Op ρ → Bool
  | .query _ answer => answer.first.isNone
  | _ => false

/-- `next` may stand behind `op`: no rows are left unread, and where `next` does not clear, no
result is left at all. -/
def Allows (op next : Op ρ) : Prop :=
  op.leavesRows = false ∧ (next.isEnd = true → op.answer.more = [])

/-- The client when the statement is issued. -/
def found (op : Op ρ) (m : MySQL ρ) : MySQL ρ := if op.isEnd then m else m.clearResult

/-- The client behind a statement that was accepted. -/
def left : Op ρ → MySQL ρ
  | .query _ answer => ⟨none, answer.more⟩
  | op => ⟨op.answer.first, op.answer.more⟩

end Op

/-- The calls that are made. -/
def made : List (Op ρ) → List (Op ρ)
  | [] => []
  | op :: ops => op :: if op.isLast then [] else made ops

/-- No command was out of sync. -/
def InSync (w : MySQLWrap ρ) : Prop := ∀ call ∈ w.calls, call.2 = true

/-- A call that clears only needs the rows to have been read; the others need all of it. -/
theorem found_ready_iff (op : Op ρ) (m : MySQL ρ) : (op.found m).ready = true ↔
    m.unread.isSome = false ∧ (op.isEnd = true → m.pending = []) := by
  obtain ⟨unread, pending⟩ := m
  unfold Op.found
  cases op.isEnd with
  | true => simp [MySQL.ready]
  | false =>
    rw [if_neg (by simp), MySQL.clearResult_eq]
    cases unread with
    | none => simp [MySQL.ready]
    | some rows => simp [MySQL.ready]

theorem found_left_ready_iff (op next : Op ρ) :
    (next.found op.left).ready = true ↔ op.Allows next := by
  have hl : op.left.unread.isSome = op.leavesRows := by cases op <;> rfl
  have hm : op.left.pending = op.answer.more := by cases op <;> rfl
  rw [found_ready_iff, hl, hm]
  rfl

theorem step_calls (ndebug : Bool) (w : MySQLWrap ρ) (op : Op ρ) :
    (w.step ndebug op).2.calls = w.calls ++ [(op.sql, (op.found w.mysql).ready)] := by
  have hissue : ∀ (w : MySQLWrap ρ) sql answer,
      (w.mysqlQuery sql answer).2.calls = w.calls ++ [(sql, w.mysql.ready)] := by
    intro w sql answer
    unfold mysqlQuery
    split_ifs <;> rfl
  cases op with
  | query sql answer =>
    refine Eq.trans ?_ (hissue w.clearResult sql answer)
    change (w.query ndebug sql answer).2.calls = (w.startMySQLQuery sql answer).2.calls
    unfold query
    dsimp only
    split_ifs <;> rfl
  | execute sql answer => exact hissue w.clearResult _ _
  | doHeartBeat results => exact hissue w.clearResult _ _
  | startTransaction answer => exact hissue w.clearResult _ _
  | endTransaction ok answer =>
    cases ok with
    | true => exact hissue w _ _
    | false => exact hissue w _ _

theorem step_ready (ndebug : Bool) {w : MySQLWrap ρ} {op : Op ρ}
    (h : (op.found w.mysql).ready = true) :
    w.step ndebug op =
      (!op.isLast, ⟨op.left, w.calls ++ [(op.sql, true)], w.server ++ [op.sql]⟩) := by
  have hissue : ∀ (w : MySQLWrap ρ) sql answer, w.mysql.ready = true →
      w.mysqlQuery sql answer =
        (true, ⟨⟨answer.first, answer.more⟩, w.calls ++ [(sql, true)], w.server ++ [sql]⟩) := by
    intro w sql answer hr
    unfold mysqlQuery
    rw [if_pos hr, hr]
  cases op with
  | query sql answer =>
    change ((w.query ndebug sql answer).1.isSome, (w.query ndebug sql answer).2) = _
    unfold query startMySQLQuery
    rw [hissue w.clearResult sql answer h]
    obtain ⟨first, more⟩ := answer
    cases first with
    | none => rfl
    | some rows => rfl
  | execute sql answer => exact congrArg (fun r => (true, r.2)) (hissue w.clearResult _ _ h)
  | doHeartBeat results => exact congrArg (fun r => (true, r.2)) (hissue w.clearResult _ _ h)
  | startTransaction answer => exact congrArg (fun r => (true, r.2)) (hissue w.clearResult _ _ h)
  | endTransaction ok answer =>
    cases ok with
    | true => exact congrArg (fun r => (true, r.2)) (hissue w _ _ h)
    | false => exact congrArg (fun r => (true, r.2)) (hissue w _ _ h)

theorem run_calls (ndebug : Bool) (w : MySQLWrap ρ) (ops : List (Op ρ)) :
    ∃ more, (w.run ndebug ops).calls = w.calls ++ more := by
  induction ops generalizing w with
  | nil => exact ⟨[], (List.append_nil _).symm⟩
  | cons op ops ih =>
    have hstep := step_calls ndebug w op
    unfold run
    dsimp only
    split_ifs
    · obtain ⟨more, hmore⟩ := ih (w.step ndebug op).2
      exact ⟨_, by rw [hmore, hstep, List.append_assoc]⟩
    · exact ⟨_, hstep⟩

theorem run_cons_ready (ndebug : Bool) {w : MySQLWrap ρ} {op : Op ρ} (ops : List (Op ρ))
    (h : (op.found w.mysql).ready = true) :
    w.run ndebug (op :: ops) =
      run ndebug ⟨op.left, w.calls ++ [(op.sql, true)], w.server ++ [op.sql]⟩
        (if op.isLast then [] else ops) := by
  rw [run, step_ready ndebug h]
  cases op.isLast with
  | true => rfl
  | false => rfl

theorem InSync.head_ready {ndebug : Bool} {w : MySQLWrap ρ} {op : Op ρ} {ops : List (Op ρ)}
    (h : (w.run ndebug (op :: ops)).InSync) : (op.found w.mysql).ready = true := by
  obtain ⟨more, hmore⟩ : ∃ more, (w.run ndebug (op :: ops)).calls =
      (w.step ndebug op).2.calls ++ more := by
    rw [run]
    dsimp only
    split_ifs
    · exact run_calls ndebug _ ops
    · exact ⟨[], (List.append_nil _).symm⟩
  refine h (op.sql, (op.found w.mysql).ready) ?_
  rw [hmore, step_calls]
  simp

theorem head?_made (ops : List (Op ρ)) : (made ops).head? = ops.head? := by
  cases ops with
  | nil => rfl
  | cons op ops => rfl

theorem inSync_append_iff {w : MySQLWrap ρ} {m : MySQL ρ} {sql : List Byte}
    {server : List (List Byte)} :
    InSync ⟨m, w.calls ++ [(sql, true)], server⟩ ↔ w.InSync := by
  simp [InSync]

theorem allows_head_iff (op : Op ρ) (ops : List (Op ρ)) :
    (∀ next ∈ ops.head?, (next.found op.left).ready = true) ∧ (made ops).IsChain Op.Allows ↔
      (op :: made ops).IsChain Op.Allows := by
  rw [List.isChain_cons, head?_made]
  simp only [found_left_ready_iff]

/-- A run is in sync exactly when the first call finds a client that is ready for it and each call
allows the next one. -/
theorem run_inSync_iff (ndebug : Bool) (w : MySQLWrap ρ) (ops : List (Op ρ)) :
    (w.run ndebug ops).InSync ↔ w.InSync ∧
      (∀ op ∈ ops.head?, (op.found w.mysql).ready = true) ∧ (made ops).IsChain Op.Allows := by
  induction ops generalizing w with
  | nil => simp [run, made]
  | cons op ops ih =>
    by_cases hr : (op.found w.mysql).ready = true
    · rw [run_cons_ready ndebug ops hr]
      cases hlast : op.isLast with
      | true => simp [run, made, hlast, inSync_append_iff, hr]
      | false =>
        have hmade : made (op :: ops) = op :: made ops := by simp [made, hlast]
        rw [if_neg (by simp), ih, inSync_append_iff, allows_head_iff, hmade]
        simp [hr]
    · refine iff_of_false (fun h => hr h.head_ready) fun h => hr ?_
      exact h.2.1 op rfl

/-- The statements of a run in sync reach the server, in their order. -/
theorem run_server (ndebug : Bool) {w : MySQLWrap ρ} {ops : List (Op ρ)}
    (hhead : ∀ op ∈ ops.head?, (op.found w.mysql).ready = true)
    (hchain : (made ops).IsChain Op.Allows) :
    (w.run ndebug ops).server = w.server ++ (made ops).map Op.sql := by
  induction ops generalizing w with
  | nil => simp [run, made]
  | cons op ops ih =>
    rw [run_cons_ready ndebug ops (hhead op rfl)]
    cases hlast : op.isLast with
    | true => simp [run, made, hlast]
    | false =>
      have hmade : made (op :: ops) = op :: made ops := by simp [made, hlast]
      rw [hmade] at hchain ⊢
      obtain ⟨hnext, hrest⟩ := (allows_head_iff op ops).mpr hchain
      rw [if_neg (by simp), ih hnext hrest]
      simp

/-- Every statement is issued to a ready client, and so reaches the server with the others in their
order, a `COMMIT` among them, exactly when each call that is made allows the next one. -/
theorem commands_inSync_iff (ndebug : Bool) (ops : List (Op ρ)) :
    ((init.run ndebug ops).InSync ∧ (init.run ndebug ops).server = (made ops).map Op.sql) ↔
      (made ops).IsChain Op.Allows := by
  have hhead : ∀ op ∈ ops.head?, (op.found (init : MySQLWrap ρ).mysql).ready = true := by
    intro op _
    unfold Op.found
    split_ifs
    · rfl
    · rw [MySQL.clearResult_eq]
      rfl
  constructor
  · intro h
    exact ((run_inSync_iff ndebug init ops).mp h.1).2.2
  · intro hchain
    refine ⟨(run_inSync_iff ndebug init ops).mpr ⟨?_, hhead, hchain⟩, ?_⟩
    · intro call hc
      cases hc
    · exact run_server ndebug hhead hchain

/-- A procedure is queried within a transaction. Its status is still to be read at the end. -/
def procedureInTransaction : List (Op Unit) :=
  [.startTransaction ⟨none, []⟩, .query (text "call sp_get_player") (.call [some ()]),
    .endTransaction true ⟨none, []⟩]

theorem commit_out_of_sync :
    ¬ (init.run true procedureInTransaction).InSync ∧
      (init.run true procedureInTransaction).server =
        [text "START TRANSACTION", text "call sp_get_player"] := by
  have hstart : init.run true procedureInTransaction = _ :=
    run_cons_ready true (procedureInTransaction.drop 1) ((found_ready_iff _ _).mpr (by decide))
  have hrun : init.run true procedureInTransaction = ⟨⟨none, [none]⟩,
      [(text "START TRANSACTION", true), (text "call sp_get_player", true),
        (text "COMMIT", false)], [text "START TRANSACTION", text "call sp_get_player"]⟩ := by
    refine hstart.trans ?_
    exact run_cons_ready true _ ((found_ready_iff _ _).mpr (by decide))
  rw [hrun]
  refine ⟨fun h => ?_, rfl⟩
  exact absurd (h (text "COMMIT", false) (by simp)) (by decide)

end MySQLWrap
end CppTry
