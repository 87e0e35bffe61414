import CppTry.CriticalSections

namespace CppTry

/-- The pointers of a `std::queue<T *>`, the front first; `NULL` is `none`. -/
abbrev TQueue (α : Type) := List (Option α)

structure LockQueue (α : Type) where
  data : TQueue α

namespace LockQueue

variable {α : Type}

def new : LockQueue α := ⟨[]⟩

def push (q : LockQueue α) (item : Option α) : LockQueue α := ⟨q.data ++ [item]⟩

/-- `front` of an empty queue is undefined. -/
def pop (q : LockQueue α) : Option (Option α × LockQueue α) :=
  match q.data with
  | [] => none
  | item :: data => some (item, ⟨data⟩)

def tryPop (q : LockQueue α) : Option α × LockQueue α :=
  match q.data with
  | [] => (none, q)
  | item :: data => (item, ⟨data⟩)

/-- The loop of `MoveAll`, on `m_Data` and `dst`. -/
def moveLoop : TQueue α → TQueue α → TQueue α × TQueue α
  | [], dst => ([], dst)
  | item :: data, dst => moveLoop data (dst ++ [item])

def moveAll (q : LockQueue α) (dst : TQueue α) : LockQueue α × TQueue α :=
  let (data, dst) := moveLoop q.data dst
  (⟨data⟩, dst)

/-- The operations; `dst` is what the caller's queue holds at the time. -/
inductive Op (α : Type)
  | push (item : Option α)
  | pop
  | tryPop
  | moveAll (dst : TQueue α)

/-- What an operation gives back, and what `MoveAll` leaves in the caller's queue. -/
inductive Result (α : Type)
  | done
  | item (item : Option α)
  | moved (dst : TQueue α)

def exec : Op α → LockQueue α → Option (Result α × LockQueue α)
  | .push item, q => some (.done, q.push item)
  | .pop, q => q.pop.map fun r => (.item r.1, r.2)
  | .tryPop, q => some (.item q.tryPop.1, q.tryPop.2)
  | .moveAll dst, q => some (.moved (q.moveAll dst).2, (q.moveAll dst).1)

/-- The items that an operation hands out. -/
def handedOut : Op α → Result α → List (Option α)
  | .pop, .item item => [item]
  | .tryPop, .item (some item) => [some item]
  | .moveAll dst, .moved dst' => dst'.drop dst.length
  | _, _ => []

/-- The items that an operation puts in. -/
def pushed : Op α → List (Option α)
  | .push item => [item]
  | _ => []

theorem moveLoop_eq (data dst : TQueue α) : moveLoop data dst = ([], dst ++ data) := by
  induction data generalizing dst with
  | nil => simp [moveLoop]
  | cons item data ih => simp [moveLoop, ih]

theorem moveAll_eq (q : LockQueue α) (dst : TQueue α) : q.moveAll dst = (⟨[]⟩, dst ++ q.data) := by
  rw [moveAll, moveLoop_eq]

/-- One operation moves items from the front of the queue to its caller, or one to the end. -/
theorem exec_items {o : Op α} {r : Result α} {q q' : LockQueue α} (h : exec o q = some (r, q'))
    (hnull : none ∉ q.data) : handedOut o r ++ q'.data = q.data ++ pushed o := by
  obtain ⟨data⟩ := q
  cases o with
  | push item =>
    cases h
    rfl
  | pop =>
    cases data with
    | nil => cases h
    | cons item data =>
      cases h
      simp [handedOut, pushed]
  | tryPop =>
    cases data with
    | nil =>
      cases h
      rfl
    | cons item data =>
      cases h
      cases item with
      | none => simp at hnull
      | some x => simp [handedOut, pushed, tryPop]
  | moveAll dst =>
    cases h
    simp [handedOut, pushed, moveAll_eq]

/-- `TryPop` returns `NULL` from an empty queue only. -/
theorem data_of_null {q q' : LockQueue α} (h : exec .tryPop q = some (.item none, q'))
    (hnull : none ∉ q.data) : q.data = [] := by
  obtain ⟨data⟩ := q
  cases data with
  | nil => rfl
  | cons item data =>
    cases h
    simp at hnull

variable {ι : Type}

abbrev Log (ι α : Type) := List (ι × Op α × Result α)

def Log.handedOut (log : Log ι α) : List (Option α) :=
  log.flatMap fun e => LockQueue.handedOut e.2.1 e.2.2

def Log.pushed (log : Log ι α) : List (Option α) := log.flatMap fun e => LockQueue.pushed e.2.1

@[simp] theorem Log.handedOut_concat (log : Log ι α) (i : ι) (o : Op α) (r : Result α) :
    Log.handedOut (log ++ [(i, o, r)]) = log.handedOut ++ LockQueue.handedOut o r := by
  simp [handedOut]

@[simp] theorem Log.pushed_concat (log : Log ι α) (i : ι) (o : Op α) (r : Result α) :
    Log.pushed (log ++ [(i, o, r)]) = log.pushed ++ LockQueue.pushed o := by
  simp [pushed]

theorem run_items {log : Log ι α} {q : LockQueue α} (h : Atomic exec new q log)
    (hnull : none ∉ log.pushed) : log.handedOut ++ q.data = log.pushed ∧ none ∉ q.data := by
  induction h with
  | init => exact ⟨rfl, by simp [new]⟩
  | @step q q' log o r i _ hexec ih =>
    rw [Log.pushed_concat, List.mem_append, not_or] at hnull
    obtain ⟨hitems, hqueue⟩ := ih hnull.1
    have hstep := exec_items hexec hqueue
    refine ⟨?_, fun hmem => ?_⟩
    · rw [Log.handedOut_concat, Log.pushed_concat, List.append_assoc, hstep, ← List.append_assoc,
        hitems]
    · have hmem' : none ∈ q.data ++ pushed o := by
        rw [← hstep]
        exact List.mem_append_right _ hmem
      rcases List.mem_append.mp hmem' with hold | hnew
      · exact hqueue hold
      · exact hnull.2 hnew

/-- Nothing is lost, nothing comes twice and nothing is overtaken, whatever the threads do; `NULL`
means that all that has been pushed so far has been handed out. -/
theorem lossless_fifo {log : Log ι α} {q : LockQueue α} (h : Atomic exec new q log)
    (hnull : none ∉ log.pushed) :
    log.handedOut ++ q.data = log.pushed ∧
      (∀ pre post i dst dst', log = pre ++ (i, .moveAll dst, .moved dst') :: post → dst <+: dst') ∧
      ∀ pre post i, log = pre ++ (i, .tryPop, .item none) :: post →
        Log.handedOut pre = Log.pushed pre := by
  refine ⟨(run_items h hnull).1, ?_, ?_⟩
  · rintro pre post i dst dst' rfl
    obtain ⟨q₁, q₂, _, hexec⟩ := h.before
    cases hexec
    rw [moveAll_eq]
    exact List.prefix_append _ _
  · rintro pre post i rfl
    obtain ⟨q₁, q₂, hpre, hexec⟩ := h.before
    have hnull' : none ∉ Log.pushed pre := by
      intro hmem
      exact hnull (by rw [Log.pushed, List.flatMap_append]; exact List.mem_append_left _ hmem)
    obtain ⟨hitems, hqueue⟩ := run_items hpre hnull'
    rw [← hitems, data_of_null hexec hqueue, List.append_nil]

/-- Two threads: both push, one takes the first item, the other moves the rest behind what it has,
and then there is nothing left. -/
def twoThreads : Log Bool Nat :=
  [(false, .push (some 1), .done), (true, .push (some 2), .done),
    (false, .tryPop, .item (some 1)), (true, .moveAll [some 7], .moved [some 7, some 2]),
    (false, .tryPop, .item none)]

theorem twoThreads_atomic : Atomic exec new new twoThreads :=
  ((((Atomic.init.step false rfl).step true rfl).step false rfl).step true rfl).step false rfl

theorem twoThreads_lossless : twoThreads.handedOut = [some 1, some 2] ∧
    twoThreads.handedOut ++ new.data = twoThreads.pushed ∧
    Log.handedOut (twoThreads.take 4) = Log.pushed (twoThreads.take 4) := by
  have h := lossless_fifo twoThreads_atomic (by decide)
  exact ⟨rfl, h.1, h.2.2 (twoThreads.take 4) [] false rfl⟩

/-! ### The operations, statement by statement -/

/-- Where an operation is, with what it has read: before `push`, the test of `TryPop`, `front`, `pop`
or the test of the loop, or at its end. -/
inductive Point (α : Type)
  | push (item : Option α)
  | test
  | front
  | remove (item : Option α)
  | move (dst : TQueue α)
  | left (result : Result α)

/-- A round of the loop of `MoveAll` is one step. `Pop` does not start on an empty queue. -/
def sections : Sections (Op α) (LockQueue α) (Point α) (Result α) where
  start
    | .push item => .push item
    | .pop => .front
    | .tryPop => .test
    | .moveAll dst => .move dst
  step
    | .push item, q => some (.left .done, ⟨q.data ++ [item]⟩)
    | .test, q => if q.data.length ≤ 0 then some (.left (.item none), q) else some (.front, q)
    | .front, q =>
      match q.data with
      | [] => none
      | item :: _ => some (.remove item, q)
    | .remove item, q => some (.left (.item item), ⟨q.data.tail⟩)
    | .move dst, q =>
      match q.data with
      | [] => some (.left (.moved dst), q)
      | item :: data => some (.move (dst ++ [item]), ⟨data⟩)
    | .left _, _ => none
  result
    | .left result => result
    | _ => .done

theorem runs_front (item : Option α) (data : TQueue α) :
    sections.Runs (.front, ⟨item :: data⟩) (.left (.item item), ⟨data⟩) :=
  .tail (.single rfl) rfl

theorem runs_move (data dst : TQueue α) :
    sections.Runs (.move dst, ⟨data⟩) (.left (.moved (dst ++ data)), ⟨[]⟩) := by
  induction data generalizing dst with
  | nil =>
    rw [List.append_nil]
    exact .single rfl
  | cons item data ih =>
    have hrest := ih (dst ++ [item])
    rw [List.append_assoc] at hrest
    exact .head rfl hrest

theorem sections_implement : sections.Implements (exec (α := α)) := by
  intro o q r q' h
  obtain ⟨data⟩ := q
  cases o with
  | push item =>
    cases h
    exact ⟨_, .single rfl, rfl, rfl⟩
  | pop =>
    cases data with
    | nil => cases h
    | cons item data =>
      cases h
      exact ⟨_, runs_front item data, rfl, rfl⟩
  | tryPop =>
    cases data with
    | nil =>
      cases h
      exact ⟨_, .single rfl, rfl, rfl⟩
    | cons item data =>
      cases h
      exact ⟨_, .head rfl (runs_front item data), rfl, rfl⟩
  | moveAll dst =>
    rw [exec, moveAll_eq] at h
    cases h
    exact ⟨_, runs_move data dst, rfl, rfl⟩

/-- With the mutex, any interleaving of the statements has the same books whenever the mutex is
free, and it gets free again. -/
theorem mutex_lossless {m : Sections.Machine ι (Op α) (LockQueue α) (Point α) (Result α)}
    (h : sections.Reachable exec new m) (hnull : none ∉ Log.pushed m.log) :
    (m.inside = none → Log.handedOut m.log ++ m.shared.data = Log.pushed m.log) ∧
      ∃ m', Relation.ReflTransGen (sections.Step exec) m m' ∧ m'.inside = none := by
  refine ⟨fun hfree => ?_, Sections.reachable_frees sections_implement h⟩
  have hrefines := Sections.reachable_refines sections_implement h
  rw [Sections.Refines, hfree] at hrefines
  exact (run_items hrefines hnull).1

end LockQueue

end CppTry
