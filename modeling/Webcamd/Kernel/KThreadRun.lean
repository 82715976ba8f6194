import Webcamd.Kernel.KThread

/-!
# Runs of kernel threads

What `kthread_run`, `kthread_stop` and `kthread_should_stop` promise, in all runs of the machine of
`KThread.lean`.

* `JobTold` — what has been told of one thread, and how it fits to its state.
* `Inv.step` — one step of the machine keeps the invariant of all threads.
* `kthreads_promised` — **nothing goes wrong**: no run uses freed memory, misses a wakeup or loses a
  request to stop.
* `kthread_run_returns` — **nothing is stuck**: every run can go on until a caller that waits in
  `kthread_run` returns.
-/

namespace Webcamd.Kernel.KThread

open Webcamd.Library

variable {J F D : Type} {handler callerOwns threadOwns : Prop} {job : Job F D} {turn : Turn F D}

/-! ### What is told -/

def Tell.run? : Tell F D → Option (F × D)
  | ran func data => some (func, data)
  | _ => none

def Tell.call? : Tell F D → Option (F × D)
  | called func data => some (func, data)
  | _ => none

def Tell.answer? : Tell F D → Option Bool
  | asked answer => some answer
  | _ => none

/-- What has been told of one thread: how it was run, the calls of its function, and what
`kthread_should_stop` has said.  A flag that is set stays set. -/
structure JobTold (job : Job F D) (runs calls : List (F × D)) (answers : List Bool) : Prop where
  notRun : job.caller = .notCalled → runs = []
  given : ∀ func data, job.fd = some (some func, data) → runs = [(func, data)]
  copied : ∀ func data, job.copy = some (some func, data) → runs = [(func, data)]
  once : runs.length ≤ 1
  called : calls = if 9 ≤ job.thread.rank then runs else []
  sorted : answers.Pairwise (· ≤ ·)
  asked : true ∈ answers → job.stopping = true

variable {job' : Job F D} {runs calls : List (F × D)} {answers : List Bool}

/-- A step of which nothing is told. -/
theorem JobTold.quiet (h : JobTold job runs calls answers)
    (hcaller : job'.caller = .notCalled → job.caller = .notCalled)
    (hfd : ∀ func data, job'.fd = some (some func, data) → job.fd = some (some func, data))
    (hcopy : job'.copy = job.copy ∨ job'.copy = job.fd)
    (hrank : 9 ≤ job'.thread.rank ↔ 9 ≤ job.thread.rank)
    (hstopping : job.stopping = true → job'.stopping = true) :
    JobTold job' runs calls answers where
  notRun := fun hcaller' => h.notRun (hcaller hcaller')
  given := fun func data hfd' => h.given func data (hfd func data hfd')
  copied := fun func data hcopy' => by
    obtain heq | heq := hcopy
    · exact h.copied func data (heq ▸ hcopy')
    · exact h.given func data (heq ▸ hcopy')
  once := h.once
  called := h.called.trans (by simp only [hrank])
  sorted := h.sorted
  asked := fun hasked => hstopping (h.asked hasked)

theorem JobTold.awaken (h : JobTold job runs calls answers) :
    JobTold job.awaken runs calls answers := by
  unfold Job.awaken
  split
  · exact h.quiet (fun hcaller => by cases hcaller) (fun _ _ => id) (.inl rfl) Iff.rfl id
  · exact h

/-- What is told of a thread after one more step. -/
def JobTold.After (turn : Turn F D) (runs calls : List (F × D)) (answers : List Bool) : Prop :=
  JobTold turn.after (runs ++ turn.tells.filterMap Tell.run?)
    (calls ++ turn.tells.filterMap Tell.call?) (answers ++ turn.tells.filterMap Tell.answer?)

theorem JobTold.after_nil (hnone : turn.tells = []) (h : JobTold turn.after runs calls answers) :
    JobTold.After turn runs calls answers := by
  unfold JobTold.After
  rw [hnone]
  simpa using h

theorem JobTold.after_ran {func : F} {data : D} (htells : turn.tells = [.ran func data])
    (h : JobTold turn.after (runs ++ [(func, data)]) calls answers) :
    JobTold.After turn runs calls answers := by
  unfold JobTold.After
  rw [htells]
  show JobTold turn.after (runs ++ [(func, data)]) (calls ++ []) (answers ++ [])
  rwa [List.append_nil, List.append_nil]

theorem JobTold.after_called {func : F} {data : D} (htells : turn.tells = [.called func data])
    (h : JobTold turn.after runs (calls ++ [(func, data)]) answers) :
    JobTold.After turn runs calls answers := by
  unfold JobTold.After
  rw [htells]
  show JobTold turn.after (runs ++ []) (calls ++ [(func, data)]) (answers ++ [])
  rwa [List.append_nil, List.append_nil]

theorem JobTold.after_asked {answer : Bool} (htells : turn.tells = [.asked answer])
    (h : JobTold turn.after runs calls (answers ++ [answer])) :
    JobTold.After turn runs calls answers := by
  unfold JobTold.After
  rw [htells]
  show JobTold turn.after (runs ++ []) (calls ++ []) (answers ++ [answer])
  rwa [List.append_nil, List.append_nil]

theorem JobTold.runTurn {func : F} {data : D} {allocated : Bool}
    (hok : JobOk handler callerOwns threadOwns job) (h : JobTold job runs calls answers)
    (hturn : job.runTurn func data allocated = some turn) :
    JobTold.After turn runs calls answers := by
  unfold Job.runTurn at hturn
  split_ifs at hturn with hcaller hallocated
  · obtain rfl := Option.some.inj hturn
    obtain rfl := h.notRun hcaller
    have hrank : job.thread.rank = 0 := hok.absent.mpr (by rw [hcaller]; rfl)
    have hcopy : ∀ func' data', job.copy ≠ some (some func', data') := fun func' data' hcopy => by
      cases h.copied func' data' hcopy
    have hcalls : calls = [] := by simpa [hrank] using h.called
    refine JobTold.after_ran rfl { h with
      notRun := fun hcaller => by cases hcaller
      given := fun func' data' hfd => ?_
      copied := fun func' data' hcopy' => absurd hcopy' (hcopy func' data')
      once := le_rfl
      called := by simp [hcalls, Turn.after, hrank] }
    obtain ⟨hfunc, rfl⟩ := Prod.mk.inj (Option.some.inj hfd)
    obtain rfl := Option.some.inj hfunc
    rfl
  · obtain rfl := Option.some.inj hturn
    exact JobTold.after_nil rfl (h.quiet (fun hcaller => by cases hcaller) (fun _ _ => id)
      (.inl rfl) Iff.rfl id)

theorem JobTold.createTurn {created : Bool} (hok : JobOk handler callerOwns threadOwns job)
    (h : JobTold job runs calls answers) (hturn : job.createTurn created = some turn) :
    JobTold.After turn runs calls answers := by
  unfold Job.createTurn at hturn
  split_ifs at hturn with hcaller hcreated
  · obtain rfl := Option.some.inj hturn
    have hrank : job.thread.rank = 0 := hok.absent.mpr (by rw [hcaller]; rfl)
    refine JobTold.after_nil rfl (h.quiet (fun hcaller => by cases hcaller) (fun _ _ => id)
      (.inl rfl) ?_ id)
    rw [hrank]
    simp [Turn.after, Turn.of, ThreadPc.rank]
  · obtain rfl := Option.some.inj hturn
    exact JobTold.after_nil rfl (h.quiet (fun hcaller => by cases hcaller)
      (fun _ _ hfd => by cases hfd) (.inl rfl) Iff.rfl id)

theorem JobTold.callerTurn {free : Bool} (hok : JobOk handler callerOwns threadOwns job)
    (h : JobTold job runs calls answers) (hturn : job.callerTurn free = some turn) :
    JobTold.After turn runs calls answers := by
  obtain ⟨caller, thread, fd, copy, key, stopping, pending, stop⟩ := job
  unfold Job.callerTurn at hturn
  cases caller with
  | notCalled | filled | sleeping | returned | failed => cases hturn
  | created | woken =>
      cases free with
      | false => cases hturn
      | true =>
          obtain rfl := Option.some.inj hturn
          exact JobTold.after_nil rfl (h.quiet (fun hcaller => by cases hcaller) (fun _ _ => id)
            (.inl rfl) Iff.rfl id)
  | testing =>
      obtain _ | ⟨_ | func, data⟩ := fd
      · exact absurd rfl (hok.fd_isSome rfl)
      all_goals
        obtain rfl := Option.some.inj hturn
        exact JobTold.after_nil rfl (h.quiet (fun hcaller => by cases hcaller) (fun _ _ => id)
          (.inl rfl) Iff.rfl id)
  | leaving =>
      obtain rfl := Option.some.inj hturn
      exact JobTold.after_nil rfl (h.quiet (fun hcaller => by cases hcaller) (fun _ _ => id)
        (.inl rfl) Iff.rfl id)
  | left =>
      dsimp only at hturn
      rw [if_pos (Option.isSome_iff_ne_none.mpr (hok.fd_isSome rfl))] at hturn
      obtain rfl := Option.some.inj hturn
      exact JobTold.after_nil rfl (h.quiet (fun hcaller => by cases hcaller)
        (fun _ _ hfd => by cases hfd) (.inl rfl) Iff.rfl id)

theorem JobTold.threadTurn {free : Bool} (hok : JobOk handler callerOwns threadOwns job)
    (h : JobTold job runs calls answers) (hturn : job.threadTurn free = some turn) :
    JobTold.After turn runs calls answers := by
  obtain ⟨caller, thread, fd, copy, key, stopping, pending, stop⟩ := job
  unfold Job.threadTurn at hturn
  cases thread with
  | absent | running | exited => cases hturn
  | fresh =>
      obtain ⟨func, data, hfd, -⟩ := hok.fd_of_rank (by simp [ThreadPc.rank])
        (by simp [ThreadPc.rank])
      obtain rfl : fd = some (func, data) := hfd
      obtain rfl := Option.some.inj hturn
      exact JobTold.after_nil rfl (h.quiet id (fun _ _ => id) (.inr rfl)
        (by simp [Turn.after, Turn.of, ThreadPc.rank]) id)
  | locked =>
      obtain ⟨func, data, hfd, -⟩ := hok.fd_of_rank (by simp [ThreadPc.rank])
        (by simp [ThreadPc.rank])
      obtain rfl : fd = some (func, data) := hfd
      obtain rfl := Option.some.inj hturn
      exact JobTold.after_nil rfl (h.quiet id (fun _ _ hfd => by cases hfd) (.inl rfl)
        (by simp [Turn.after, Turn.of, ThreadPc.rank]) id)
  | handling =>
      cases free with
      | false => cases hturn
      | true =>
          obtain rfl := Option.some.inj hturn
          exact JobTold.after_nil rfl (h.quiet id (fun _ _ => id) (.inl rfl)
            (by simp [Turn.after, ThreadPc.rank]) id)
  | cleared =>
      obtain rfl := Option.some.inj hturn
      refine JobTold.after_nil rfl ?_
      have hnext : JobTold (⟨caller, .signalled, fd, copy, key, stopping, pending, stop⟩ : Job F D)
          runs calls answers :=
        h.quiet id (fun _ _ => id) (.inl rfl) (by simp [ThreadPc.rank]) id
      exact hnext.awaken
  | calling =>
      obtain ⟨func, data, hcopy⟩ := hok.copied (by simp [ThreadPc.rank])
      obtain rfl : copy = some (some func, data) := hcopy
      obtain rfl := Option.some.inj hturn
      have hruns := h.copied func data rfl
      have hcalls : calls = [] := by simpa [ThreadPc.rank] using h.called
      exact JobTold.after_called rfl { h with
        called := by simp [hcalls, hruns, Turn.after, ThreadPc.rank] }
  | copied | keyed | signalled | done | unkeyed =>
      obtain rfl := Option.some.inj hturn
      exact JobTold.after_nil rfl (h.quiet id (fun _ _ => id) (.inl rfl)
        (by simp [Turn.after, Turn.of, ThreadPc.rank]) id)

/-- **An answer is not taken back.** -/
theorem JobTold.functionTurn {returns : Bool} (hok : JobOk handler callerOwns threadOwns job)
    (h : JobTold job runs calls answers) (hturn : job.functionTurn returns = some turn) :
    JobTold.After turn runs calls answers := by
  unfold Job.functionTurn at hturn
  split_ifs at hturn with hthread hreturns
  · obtain rfl := Option.some.inj hturn
    exact JobTold.after_nil rfl (h.quiet id (fun _ _ => id) (.inl rfl)
      (by simp [Turn.after, Turn.of, ThreadPc.rank, hthread]) id)
  · obtain rfl := Option.some.inj hturn
    have hkey : job.key = true := hok.key.mpr (by simp [hthread, ThreadPc.rank])
    refine JobTold.after_asked rfl { h with
      sorted := ?_
      asked := fun hasked => ?_ }
    · rw [List.pairwise_append]
      refine ⟨h.sorted, List.pairwise_singleton _ _, fun earlier hearlier answer hanswer => ?_⟩
      obtain rfl := List.mem_singleton.mp hanswer
      intro htrue
      rw [hkey, Bool.true_and]
      exact h.asked (htrue ▸ hearlier)
    · obtain hearlier | hnow := List.mem_append.mp hasked
      · exact h.asked hearlier
      · rw [hkey, Bool.true_and, List.mem_singleton] at hnow
        exact hnow.symm

theorem JobTold.stopTurn (h : JobTold job runs calls answers) (hturn : job.stopTurn = some turn) :
    JobTold.After turn runs calls answers := by
  unfold Job.stopTurn at hturn
  split at hturn
  · split_ifs at hturn
    obtain rfl := Option.some.inj hturn
    exact JobTold.after_nil rfl (h.quiet id (fun _ _ => id) (.inl rfl) Iff.rfl id)
  · obtain rfl := Option.some.inj hturn
    exact JobTold.after_nil rfl (h.quiet id (fun _ _ => id) (.inl rfl) Iff.rfl id)
  · split_ifs at hturn
    obtain rfl := Option.some.inj hturn
    exact JobTold.after_nil rfl (h.quiet id (fun _ _ => id) (.inl rfl) Iff.rfl id)
  · cases hturn

theorem JobTold.deliverTurn {installed : Bool} (h : JobTold job runs calls answers)
    (hturn : job.deliverTurn installed = some turn) : JobTold.After turn runs calls answers := by
  unfold Job.deliverTurn at hturn
  split_ifs at hturn
  obtain rfl := Option.some.inj hturn
  refine JobTold.after_nil rfl (h.quiet id (fun _ _ => id) (.inl rfl) Iff.rfl fun hstopping => ?_)
  simp [Turn.after, Turn.of, hstopping]

theorem JobTold.spuriousTurn (h : JobTold job runs calls answers)
    (hturn : job.spuriousTurn = some turn) : JobTold.After turn runs calls answers := by
  unfold Job.spuriousTurn at hturn
  split_ifs at hturn
  obtain rfl := Option.some.inj hturn
  exact JobTold.after_nil rfl (h.quiet (fun hcaller => by cases hcaller) (fun _ _ => id) (.inl rfl)
    Iff.rfl id)

/-! ### All threads -/

section Machine

variable [DecidableEq J] {α : Type} {state : State J F D} {history : List (J × Tell F D)}

/-- What is told of one thread. -/
def told (pick : Tell F D → Option α) (i : J) (history : List (J × Tell F D)) : List α :=
  history.filterMap fun event => if event.1 = i then pick event.2 else none

theorem told_append (pick : Tell F D → Option α) (i : J) (past events : List (J × Tell F D)) :
    told pick i (past ++ events) = told pick i past ++ told pick i events :=
  List.filterMap_append

theorem told_self (pick : Tell F D → Option α) (i : J) (tells : List (Tell F D)) :
    told pick i (tells.map (i, ·)) = tells.filterMap pick := by
  unfold told
  rw [List.filterMap_map]
  congr 1
  funext tell
  exact if_pos rfl

theorem told_other (pick : Tell F D → Option α) {i j : J} (hne : i ≠ j) (tells : List (Tell F D)) :
    told pick j (tells.map (i, ·)) = [] := by
  unfold told
  rw [List.filterMap_map, List.filterMap_eq_nil_iff]
  exact fun tell _ => if_neg hne

/-- **The invariant.** -/
structure Inv (state : State J F D) (history : List (J × Tell F D)) : Prop where
  ok : ∀ i, JobOk (state.handler = true) (state.owner = some (.caller i))
    (state.owner = some (.thread i)) (state.jobs i)
  told : ∀ i, JobTold (state.jobs i) (told Tell.run? i history) (told Tell.call? i history)
    (told Tell.answer? i history)
  noFault : ∀ i, (i, Tell.fault) ∉ history

theorem inv_init : Inv (.init : State J F D) [] where
  ok := fun i => by
    have hinit : JobOk (false = true) False False (.init : Job F D) := .init _
    exact hinit.mono id (by simp [State.init]) (by simp [State.init])
  told := fun i => {
    notRun := fun _ => rfl
    given := fun _ _ hfd => by cases hfd
    copied := fun _ _ hcopy => by cases hcopy
    once := Nat.zero_le 1
    called := by simp [KThread.told, State.init, Job.init, ThreadPc.rank]
    sorted := .nil
    asked := fun hasked => by cases hasked }
  noFault := fun i hfault => by cases hfault

omit [DecidableEq J] in
theorem owner_self (change : LockChange) (owner : Option (Owner J)) (who : Owner J) :
    change.owner owner who = some who ↔ change.owns (owner = some who) := by
  cases change <;> simp [LockChange.owner, LockChange.owns]

omit [DecidableEq J] in
theorem owner_other {change : LockChange} {owner : Option (Owner J)} {who someone : Owner J}
    (hne : who ≠ someone) (htake : change = .take → owner = none)
    (hgive : change = .give → owner = some who) :
    change.owner owner who = some someone ↔ owner = some someone := by
  cases change with
  | keep => rfl
  | take => simp [LockChange.owner, htake rfl, hne]
  | give => simp [LockChange.owner, hgive rfl, hne]

/-- **One step of one thread** keeps the invariant of all of them. -/
theorem Inv.take {j : J} {who : Owner J} {turn : Turn F D} (h : Inv state history)
    (hwho : who = .caller j ∨ who = .thread j) (htake : turn.lock = .take → state.owner = none)
    (hgive : turn.lock = .give → state.owner = some who)
    (hok : JobOk (state.handler = true ∨ turn.install = true)
      (turn.lock.owner state.owner who = some (.caller j))
      (turn.lock.owner state.owner who = some (.thread j)) turn.after)
    (htold : JobTold.After turn (KThread.told Tell.run? j history)
      (KThread.told Tell.call? j history) (KThread.told Tell.answer? j history))
    (hfault : .fault ∉ turn.tells) :
    Inv (state.take j who turn).1 (history ++ (state.take j who turn).2) where
  ok := fun i => by
    by_cases hi : i = j
    · subst hi
      have hafter : (state.take i who turn).1.jobs i = turn.after := by
        simp [State.take, Turn.after]
      rw [hafter]
      exact hok.mono (by simp [State.take]) Iff.rfl Iff.rfl
    · have hne : who ≠ .caller i ∧ who ≠ .thread i := by
        obtain rfl | rfl := hwho <;> simp [Ne.symm hi]
      have hkept : JobOk ((state.handler || turn.install) = true)
          (turn.lock.owner state.owner who = some (.caller i))
          (turn.lock.owner state.owner who = some (.thread i)) (state.jobs i) :=
        (h.ok i).mono (fun hhandler => by simp [hhandler]) (owner_other hne.1 htake hgive)
          (owner_other hne.2 htake hgive)
      show JobOk _ _ _ (bif turn.broadcast then _ else _)
      rw [if_neg hi]
      cases turn.broadcast with
      | true => exact hkept.awaken
      | false => exact hkept
  told := fun i => by
    rw [told_append, told_append, told_append]
    by_cases hi : i = j
    · subst hi
      have hafter : (state.take i who turn).1.jobs i = turn.after := by
        simp [State.take, Turn.after]
      rw [hafter]
      show JobTold _ (_ ++ KThread.told _ i (turn.tells.map (i, ·)))
        (_ ++ KThread.told _ i (turn.tells.map (i, ·)))
        (_ ++ KThread.told _ i (turn.tells.map (i, ·)))
      rw [told_self, told_self, told_self]
      exact htold
    · show JobTold (bif turn.broadcast then _ else _)
        (_ ++ KThread.told _ i (turn.tells.map (j, ·)))
        (_ ++ KThread.told _ i (turn.tells.map (j, ·)))
        (_ ++ KThread.told _ i (turn.tells.map (j, ·)))
      rw [told_other _ (Ne.symm hi), told_other _ (Ne.symm hi), told_other _ (Ne.symm hi),
        List.append_nil, List.append_nil, List.append_nil, if_neg hi]
      cases turn.broadcast with
      | true => exact (h.told i).awaken
      | false => exact h.told i
  noFault := fun i hi => by
    obtain hpast | hnow := List.mem_append.mp hi
    · exact h.noFault i hpast
    · obtain ⟨tell, htell, heq⟩ := List.mem_map.mp hnow
      obtain ⟨-, rfl⟩ := Prod.mk.inj heq
      exact hfault htell

theorem callerTurn_lock {job : Job F D} {free : Bool} {turn : Turn F D}
    (hturn : job.callerTurn free = some turn) :
    (turn.lock = .take → free = true) ∧ (turn.lock = .give → job.caller.holds = true) := by
  obtain ⟨caller, thread, fd, copy, key, stopping, pending, stop⟩ := job
  unfold Job.callerTurn at hturn
  cases caller <;> dsimp only at hturn <;> try split at hturn
  all_goals cases hturn
  all_goals simp_all [Turn.of, CallerPc.holds]

theorem threadTurn_lock {job : Job F D} {free : Bool} {turn : Turn F D}
    (hturn : job.threadTurn free = some turn) :
    (turn.lock = .take → free = true) ∧ (turn.lock = .give → job.thread.holds = true) := by
  obtain ⟨caller, thread, fd, copy, key, stopping, pending, stop⟩ := job
  unfold Job.threadTurn at hturn
  cases thread <;> dsimp only at hturn <;> try split at hturn
  all_goals cases hturn
  all_goals simp_all [Turn.of, ThreadPc.holds]

/-- A step of a caller. -/
theorem Inv.takeCaller {j : J} {turn : Turn F D} (h : Inv state history)
    (hlock : (turn.lock = .take → state.owner.isNone = true) ∧
      (turn.lock = .give → (state.jobs j).caller.holds = true))
    (hok : JobOk (state.handler = true ∨ turn.install = true)
      (turn.lock.owns (state.owner = some (.caller j))) (state.owner = some (.thread j)) turn.after)
    (htold : JobTold.After turn (KThread.told Tell.run? j history)
      (KThread.told Tell.call? j history) (KThread.told Tell.answer? j history))
    (hfault : .fault ∉ turn.tells) :
    Inv (state.take j (.caller j) turn).1 (history ++ (state.take j (.caller j) turn).2) := by
  have htake : turn.lock = .take → state.owner = none :=
    fun htake => Option.isNone_iff_eq_none.mp (hlock.1 htake)
  have hgive : turn.lock = .give → state.owner = some (.caller j) :=
    fun hgive => (h.ok j).callerOwns.mpr (hlock.2 hgive)
  exact h.take (.inl rfl) htake hgive
    (hok.mono id (owner_self _ _ _) (owner_other (by simp) htake hgive)) htold hfault

/-- A step of a thread. -/
theorem Inv.takeThread {j : J} {turn : Turn F D} (h : Inv state history)
    (hlock : (turn.lock = .take → state.owner.isNone = true) ∧
      (turn.lock = .give → (state.jobs j).thread.holds = true))
    (hok : JobOk (state.handler = true ∨ turn.install = true) (state.owner = some (.caller j))
      (turn.lock.owns (state.owner = some (.thread j))) turn.after)
    (htold : JobTold.After turn (KThread.told Tell.run? j history)
      (KThread.told Tell.call? j history) (KThread.told Tell.answer? j history))
    (hfault : .fault ∉ turn.tells) :
    Inv (state.take j (.thread j) turn).1 (history ++ (state.take j (.thread j) turn).2) := by
  have htake : turn.lock = .take → state.owner = none :=
    fun htake => Option.isNone_iff_eq_none.mp (hlock.1 htake)
  have hgive : turn.lock = .give → state.owner = some (.thread j) :=
    fun hgive => (h.ok j).threadOwns.mpr (hlock.2 hgive)
  exact h.take (.inr rfl) htake hgive
    (hok.mono id (owner_other (by simp) htake hgive) (owner_self _ _ _)) htold hfault

/-- A step that neither takes nor gives the mutex, and is not at fault. -/
def Turn.Plain (turn : Turn F D) : Prop := turn.lock = .keep ∧ .fault ∉ turn.tells

theorem Turn.Plain.lock {turn : Turn F D} (h : turn.Plain) (P Q : Prop) :
    (turn.lock = .take → P) ∧ (turn.lock = .give → Q) := by
  rw [h.1]
  exact ⟨fun htake => (by cases htake), fun hgive => (by cases hgive)⟩

theorem runTurn_plain {job : Job F D} {func : F} {data : D} {allocated : Bool} {turn : Turn F D}
    (hturn : job.runTurn func data allocated = some turn) : turn.Plain := by
  unfold Job.runTurn at hturn
  split_ifs at hturn <;> obtain rfl := Option.some.inj hturn <;> exact ⟨rfl, by simp [Turn.of]⟩

theorem createTurn_plain {job : Job F D} {created : Bool} {turn : Turn F D}
    (hturn : job.createTurn created = some turn) : turn.Plain := by
  unfold Job.createTurn at hturn
  split_ifs at hturn <;> obtain rfl := Option.some.inj hturn <;> exact ⟨rfl, by simp [Turn.of]⟩

theorem functionTurn_plain {job : Job F D} {returns : Bool} {turn : Turn F D}
    (hturn : job.functionTurn returns = some turn) : turn.Plain := by
  unfold Job.functionTurn at hturn
  split_ifs at hturn <;> obtain rfl := Option.some.inj hturn <;> exact ⟨rfl, by simp [Turn.of]⟩

theorem stopTurn_plain {job : Job F D} {turn : Turn F D} (hturn : job.stopTurn = some turn) :
    turn.Plain := by
  unfold Job.stopTurn at hturn
  split at hturn
  · split_ifs at hturn
    obtain rfl := Option.some.inj hturn
    exact ⟨rfl, by simp [Turn.of]⟩
  · obtain rfl := Option.some.inj hturn
    exact ⟨rfl, by simp [Turn.of]⟩
  · split_ifs at hturn
    obtain rfl := Option.some.inj hturn
    exact ⟨rfl, by simp [Turn.of]⟩
  · cases hturn

theorem deliverTurn_plain {job : Job F D} {installed : Bool} {turn : Turn F D}
    (hturn : job.deliverTurn installed = some turn) : turn.Plain := by
  unfold Job.deliverTurn at hturn
  split_ifs at hturn
  obtain rfl := Option.some.inj hturn
  exact ⟨rfl, by simp [Turn.of]⟩

theorem spuriousTurn_plain {job : Job F D} {turn : Turn F D}
    (hturn : job.spuriousTurn = some turn) : turn.Plain := by
  unfold Job.spuriousTurn at hturn
  split_ifs at hturn
  obtain rfl := Option.some.inj hturn
  exact ⟨rfl, by simp [Turn.of]⟩

/-- **One step** keeps the invariant. -/
theorem Inv.step {action : Action J F D} {next : State J F D} {events : List (J × Tell F D)}
    (h : Inv state history) (hstep : kthreadMachine.step state action = some (next, events)) :
    Inv next (history ++ events) := by
  cases action with
  | run job func data allocated =>
      obtain ⟨turn, hturn, heq⟩ := Option.map_eq_some_iff.mp hstep
      obtain ⟨rfl, rfl⟩ := Prod.mk.inj heq
      have hplain := runTurn_plain hturn
      exact h.takeCaller (hplain.lock _ _) ((h.ok job).runTurn hturn)
        ((h.told job).runTurn (h.ok job) hturn) hplain.2
  | create job created =>
      obtain ⟨turn, hturn, heq⟩ := Option.map_eq_some_iff.mp hstep
      obtain ⟨rfl, rfl⟩ := Prod.mk.inj heq
      have hplain := createTurn_plain hturn
      exact h.takeCaller (hplain.lock _ _) ((h.ok job).createTurn hturn)
        ((h.told job).createTurn (h.ok job) hturn) hplain.2
  | caller job =>
      obtain ⟨turn, hturn, heq⟩ := Option.map_eq_some_iff.mp hstep
      obtain ⟨rfl, rfl⟩ := Prod.mk.inj heq
      obtain ⟨hok, htells⟩ := (h.ok job).callerTurn
        (fun hfree => by simp [Option.isNone_iff_eq_none.mp hfree])
        (fun hcaller => by simp [hcaller]) hturn
      exact h.takeCaller (callerTurn_lock hturn) hok ((h.told job).callerTurn (h.ok job) hturn)
        (by simp [htells])
  | thread job =>
      obtain ⟨turn, hturn, heq⟩ := Option.map_eq_some_iff.mp hstep
      obtain ⟨rfl, rfl⟩ := Prod.mk.inj heq
      obtain ⟨hok, hfault⟩ := (h.ok job).threadTurn hturn
      exact h.takeThread (threadTurn_lock hturn) hok ((h.told job).threadTurn (h.ok job) hturn)
        hfault
  | function job returns =>
      obtain ⟨turn, hturn, heq⟩ := Option.map_eq_some_iff.mp hstep
      obtain ⟨rfl, rfl⟩ := Prod.mk.inj heq
      have hplain := functionTurn_plain hturn
      exact h.takeThread (hplain.lock _ _) ((h.ok job).functionTurn hturn).1
        ((h.told job).functionTurn (h.ok job) hturn) hplain.2
  | stop job =>
      obtain ⟨turn, hturn, heq⟩ := Option.map_eq_some_iff.mp hstep
      obtain ⟨rfl, rfl⟩ := Prod.mk.inj heq
      have hplain := stopTurn_plain hturn
      refine h.takeCaller (hplain.lock _ _) ?_ ((h.told job).stopTurn hturn) hplain.2
      rw [hplain.1]
      exact (h.ok job).stopTurn hturn
  | deliver job =>
      obtain ⟨turn, hturn, heq⟩ := Option.map_eq_some_iff.mp hstep
      obtain ⟨rfl, rfl⟩ := Prod.mk.inj heq
      have hplain := deliverTurn_plain hturn
      exact h.takeThread (hplain.lock _ _) ((h.ok job).deliverTurn Iff.rfl hturn)
        ((h.told job).deliverTurn hturn) hplain.2
  | spurious job =>
      obtain ⟨turn, hturn, heq⟩ := Option.map_eq_some_iff.mp hstep
      obtain ⟨rfl, rfl⟩ := Prod.mk.inj heq
      have hplain := spuriousTurn_plain hturn
      exact h.takeCaller (hplain.lock _ _) ((h.ok job).spuriousTurn hturn)
        ((h.told job).spuriousTurn hturn) hplain.2
  | lock =>
      replace hstep : (if state.owner = none then some ({ state with owner := some .other }, [])
        else none) = some (next, events) := hstep
      split_ifs at hstep with howner
      obtain ⟨rfl, rfl⟩ := Prod.mk.inj (Option.some.inj hstep)
      rw [List.append_nil]
      exact ⟨fun i => (h.ok i).mono id (by simp [howner]) (by simp [howner]), h.told, h.noFault⟩
  | unlock broadcast =>
      replace hstep : (if state.owner = some .other then some (_, []) else none) =
        some (next, events) := hstep
      have howner : state.owner = some .other := by
        by_contra howner
        rw [if_neg howner] at hstep
        cases hstep
      rw [if_pos howner] at hstep
      obtain ⟨rfl, rfl⟩ := Prod.mk.inj (Option.some.inj hstep)
      rw [List.append_nil]
      refine ⟨fun i => ?_, fun i => ?_, h.noFault⟩
      · have hkept : JobOk (state.handler = true) (none = some (Owner.caller i))
            (none = some (Owner.thread i)) (state.jobs i) :=
          (h.ok i).mono id (by simp [howner]) (by simp [howner])
        cases broadcast with
        | true => exact hkept.awaken
        | false => exact hkept
      · cases broadcast with
        | true => exact (h.told i).awaken
        | false => exact h.told i

/-! ### What is promised -/

/-- **What is promised.** -/
structure Promised (state : State J F D) (history : List (J × Tell F D)) : Prop where
  /-- memory that is free is never used -/
  noFault : ∀ i, (i, Tell.fault) ∉ history
  /-- the function is called once at most, and with the argument that it was passed with -/
  called : ∀ i, (told Tell.run? i history).length ≤ 1 ∧
    (told Tell.call? i history = [] ∨ told Tell.call? i history = told Tell.run? i history)
  /-- who sleeps in `kthread_run` has a thread with the broadcast ahead of it -/
  asleep : ∀ i, (state.jobs i).caller = .sleeping →
    (state.jobs i).thread ≠ .absent ∧ (state.jobs i).thread.rank ≤ ThreadPc.rank .cleared
  /-- a request of `kthread_stop` is under way or has arrived, as long as the function runs -/
  kept : ∀ i, (state.jobs i).stop = .joining → (state.jobs i).thread = .running →
    (state.jobs i).pending = true ∨ ((state.jobs i).key && (state.jobs i).stopping) = true
  /-- `kthread_should_stop` does not take its answer back, and says yes only after a request -/
  answers : ∀ i, (told Tell.answer? i history).Pairwise (· ≤ ·) ∧
    (true ∈ told Tell.answer? i history → (state.jobs i).stop.sent = true)
  /-- after `kthread_stop` there is no thread -/
  joined : ∀ i, (state.jobs i).stop = .returned → (state.jobs i).thread = .exited

theorem Inv.promised (h : Inv state history) : Promised state history where
  noFault := h.noFault
  called := fun i => by
    have hcalled := (h.told i).called
    refine ⟨(h.told i).once, ?_⟩
    split_ifs at hcalled
    · exact .inr hcalled
    · exact .inl hcalled
  asleep := fun i hasleep => by
    refine ⟨?_, (h.ok i).asleep hasleep⟩
    intro habsent
    have hearly := (h.ok i).absent.mp (by rw [habsent]; rfl)
    rw [hasleep] at hearly
    cases hearly
  kept := fun i hstop hthread => by
    have hkey : (state.jobs i).key = true :=
      (h.ok i).key.mpr (by rw [hthread]; exact ⟨by decide, by decide⟩)
    rw [hkey, Bool.true_and]
    exact (h.ok i).kept (by rw [hstop]; rfl) (by rw [hthread]; decide)
  answers := fun i => ⟨(h.told i).sorted, fun hasked =>
    (h.ok i).requested (.inr ((h.told i).asked hasked))⟩
  joined := fun i => (h.ok i).joined

/-- **Nothing goes wrong**, whatever the order of the steps. -/
theorem kthreads_promised {schedule : List (Action J F D)}
    (hrun : kthreadMachine.run .init schedule = some (state, history)) :
    Promised state history :=
  (kthreadMachine.run_invariant Inv.step inv_init hrun).promised

/-- A thread is run and stopped; the caller sleeps meanwhile, and the function asks twice. -/
def stopSchedule : List (Action Unit ℕ ℕ) :=
  [.run () 7 42 true, .create () true, .caller (), .caller (), .thread (), .thread (), .thread (),
    .thread (), .thread (), .thread (), .thread (), .caller (), .caller (), .caller (), .caller (),
    .thread (), .function () false, .stop (), .stop (), .deliver (), .function () false,
    .function () true, .thread (), .thread (), .stop ()]

theorem kthreads_promised_stop :
    Promised (kthreadMachine.after .init stopSchedule (by decide))
      [((), .ran 7 42), ((), .called 7 42), ((), .asked false), ((), .asked true)] :=
  kthreads_promised (kthreadMachine.run_eq_after (by decide) (by decide))

/-! ### `kthread_run` can return -/

/-- Between `pthread_create` and the return. -/
def CallerPc.inside : CallerPc → Bool
  | created | testing | sleeping | woken | leaving | left => true
  | _ => false

/-- How much the caller has to do. -/
def CallerPc.weight : CallerPc → ℕ
  | created | woken => 480
  | sleeping => 400
  | testing => 250
  | leaving => 200
  | left => 100
  | _ => 0

/-- How much whoever has the mutex has to do until it is free. -/
def State.ownerWeight (state : State J F D) : ℕ :=
  match state.owner with
  | none => 0
  | some .other => 100
  | some (.caller i) => if (state.jobs i).caller = .testing then 200 else 100
  | some (.thread i) => 100 * (8 - (state.jobs i).thread.rank)

/-- What is to be done until `kthread_run` returns. -/
def State.weight (state : State J F D) (j : J) : ℕ :=
  1000 * (8 - (state.jobs j).thread.rank) + state.ownerWeight + (state.jobs j).caller.weight

theorem awaken_thread (job : Job F D) : job.awaken.thread = job.thread := by
  unfold Job.awaken
  split <;> rfl

theorem inside_awaken {job : Job F D} (h : job.caller.inside = true) :
    job.awaken.caller.inside = true := by
  unfold Job.awaken
  split
  · rfl
  · exact h

theorem weight_awaken (job : Job F D) : job.awaken.caller.weight ≤ job.caller.weight + 80 := by
  unfold Job.awaken
  split
  · rename_i hasleep
    rw [hasleep]
    exact le_rfl
  · exact Nat.le_add_right _ _

/-- Some step leads on. -/
def Leads (state : State J F D) (j : J) : Prop :=
  ∃ action next events, kthreadMachine.step state action = some (next, events) ∧
    next.weight j < state.weight j ∧
    ((next.jobs j).caller.inside = true ∨ (next.jobs j).caller = .returned)

/-- What one thread has to do itself. -/
def Job.weight (job : Job F D) : ℕ := 1000 * (8 - job.thread.rank) + job.caller.weight

theorem take_jobs_self (state : State J F D) (i : J) (who : Owner J) (turn : Turn F D) :
    (state.take i who turn).1.jobs i = turn.after := by
  simp [State.take, Turn.after]

/-- A step of whoever has the mutex leads on, also for the others. -/
theorem leads_of_turn {i j : J} {who : Owner J} {turn : Turn F D} {action : Action J F D}
    (hstep : kthreadMachine.step state action = some (state.take i who turn))
    (howner : (state.take i who turn).1.ownerWeight + 100 ≤ state.ownerWeight ∨ i = j)
    (hself : i = j → (state.take i who turn).1.ownerWeight + turn.after.weight <
      state.ownerWeight + (state.jobs i).weight ∧
        (turn.after.caller.inside = true ∨ turn.after.caller = .returned))
    (hinside : (state.jobs j).caller.inside = true) : Leads state j := by
  refine ⟨action, (state.take i who turn).1, _, hstep, ?_⟩
  by_cases hi : i = j
  · subst hi
    obtain ⟨hless, hafter⟩ := hself rfl
    rw [State.weight, State.weight, take_jobs_self]
    refine ⟨?_, hafter⟩
    rw [Job.weight, Job.weight] at hless
    omega
  · obtain howner := howner.resolve_right hi
    have hjob : (state.take i who turn).1.jobs j = state.jobs j ∨
        (state.take i who turn).1.jobs j = (state.jobs j).awaken := by
      show (bif turn.broadcast then _ else _) = _ ∨ (bif turn.broadcast then _ else _) = _
      rw [if_neg (Ne.symm hi)]
      cases turn.broadcast with
      | true => exact .inr rfl
      | false => exact .inl rfl
    have hawake := weight_awaken (state.jobs j)
    rw [State.weight, State.weight]
    obtain hjob | hjob := hjob
    · rw [hjob]
      exact ⟨by omega, .inl hinside⟩
    · rw [hjob, awaken_thread]
      exact ⟨by omega, .inl (inside_awaken hinside)⟩

/-- A caller that has the mutex goes on, and gives it back or is about to. -/
theorem JobOk.callerTurn_holds {job : Job F D} {callerOwns threadOwns handler : Prop}
    (h : JobOk handler callerOwns threadOwns job) (hholds : job.caller.holds = true)
    (free : Bool) : ∃ turn, job.callerTurn free = some turn ∧
      turn.after.thread = job.thread ∧ turn.after.caller.inside = true ∧
      (job.caller = .testing ∧ turn.lock = .give ∧ turn.after.caller = .sleeping ∨
        job.caller = .testing ∧ turn.lock = .keep ∧ turn.after.caller = .leaving ∨
        job.caller = .leaving ∧ turn.lock = .give ∧ turn.after.caller = .left) := by
  obtain ⟨caller, thread, fd, copy, key, stopping, pending, stop⟩ := job
  cases caller with
  | testing =>
      obtain _ | ⟨_ | func, data⟩ := fd
      · exact absurd rfl (h.fd_isSome rfl)
      · exact ⟨_, rfl, rfl, rfl, .inr (.inl ⟨rfl, rfl, rfl⟩)⟩
      · exact ⟨_, rfl, rfl, rfl, .inl ⟨rfl, rfl, rfl⟩⟩
  | leaving => exact ⟨_, rfl, rfl, rfl, .inr (.inr ⟨rfl, rfl, rfl⟩)⟩
  | _ => cases hholds

theorem take_owner (state : State J F D) (i : J) (who : Owner J) (turn : Turn F D) :
    (state.take i who turn).1.owner = turn.lock.owner state.owner who := rfl

theorem ownerWeight_give {i : J} {who : Owner J} {turn : Turn F D} (hlock : turn.lock = .give) :
    (state.take i who turn).1.ownerWeight = 0 := by
  rw [State.ownerWeight, take_owner, hlock]
  rfl

omit [DecidableEq J] in
theorem ownerWeight_caller {i : J} (howner : state.owner = some (.caller i)) :
    state.ownerWeight = if (state.jobs i).caller = .testing then 200 else 100 := by
  rw [State.ownerWeight, howner]

omit [DecidableEq J] in
theorem ownerWeight_thread {i : J} (howner : state.owner = some (.thread i)) :
    state.ownerWeight = 100 * (8 - (state.jobs i).thread.rank) := by
  rw [State.ownerWeight, howner]

omit [DecidableEq J] in
theorem ownerWeight_none (howner : state.owner = none) : state.ownerWeight = 0 := by
  rw [State.ownerWeight, howner]

/-- A caller that has the mutex leads on. -/
theorem leads_of_owner_caller {i j : J} (h : Inv state history)
    (howner : state.owner = some (.caller i)) (hinside : (state.jobs j).caller.inside = true) :
    Leads state j := by
  have hok := h.ok i
  obtain ⟨turn, hturn, hthread, hafter, hcase⟩ :=
    hok.callerTurn_holds (hok.callerOwns.mp howner) state.owner.isNone
  have hstep : kthreadMachine.step state (.caller i) = some (state.take i (.caller i) turn) := by
    show Option.map _ ((state.jobs i).callerTurn _) = _
    rw [hturn]
    rfl
  have hweight := ownerWeight_caller howner
  have hless : (state.take i (.caller i) turn).1.ownerWeight + 100 ≤ state.ownerWeight ∧
      (state.take i (.caller i) turn).1.ownerWeight + turn.after.caller.weight <
        state.ownerWeight + (state.jobs i).caller.weight := by
    obtain ⟨hcaller, hlock, hnext⟩ | ⟨hcaller, hlock, hnext⟩ | ⟨hcaller, hlock, hnext⟩ := hcase
    · rw [ownerWeight_give hlock, hweight, hcaller, hnext]
      exact ⟨by decide, by decide⟩
    · have howner' : (state.take i (.caller i) turn).1.owner = some (.caller i) := by
        rw [take_owner, hlock]
        exact howner
      rw [ownerWeight_caller howner', take_jobs_self, hweight, hcaller, hnext]
      exact ⟨by decide, by decide⟩
    · rw [ownerWeight_give hlock, hweight, hcaller, hnext]
      exact ⟨by decide, by decide⟩
  refine leads_of_turn hstep (.inl hless.1) (fun _ => ⟨?_, .inl hafter⟩) hinside
  rw [Job.weight, Job.weight, hthread]
  omega

/-- A thread goes on that has the mutex, or that is not there yet and finds the mutex free. -/
theorem JobOk.threadTurn_goes {job : Job F D} {callerOwns threadOwns handler : Prop} {free : Bool}
    (h : JobOk handler callerOwns threadOwns job) (hstart : job.thread.rank ≠ 0)
    (hrank : job.thread.rank < 8) (hfree : free = true ∨ job.thread.holds = true) :
    ∃ turn, job.threadTurn free = some turn ∧ turn.after.thread.rank = job.thread.rank + 1 ∧
      turn.after.caller.weight ≤ job.caller.weight + 80 ∧
      (job.caller.inside = true → turn.after.caller.inside = true) ∧
      (turn.lock = .take → job.thread.holds = false) := by
  obtain ⟨caller, thread, fd, copy, key, stopping, pending, stop⟩ := job
  obtain ⟨func, data, hfd, -⟩ := h.fd_of_rank hstart hrank
  obtain rfl : fd = some (func, data) := hfd
  cases thread with
  | absent => exact absurd rfl hstart
  | cleared =>
      refine ⟨_, rfl, ?_, weight_awaken _, fun hinside => ?_, fun htake => by cases htake⟩
      · show (Job.awaken _).thread.rank = _
        rw [awaken_thread]
        rfl
      · exact inside_awaken hinside
  | handling =>
      obtain rfl | hholds := hfree
      · exact ⟨_, rfl, rfl, Nat.le_add_right _ _, id, fun _ => rfl⟩
      · cases hholds
  | fresh | copied | keyed | locked | signalled =>
      exact ⟨_, rfl, rfl, Nat.le_add_right _ _, id, fun htake => by cases htake⟩
  | calling | running | done | unkeyed | exited =>
      simp [ThreadPc.rank] at hrank

/-- A thread that has the mutex leads on. -/
theorem leads_of_owner_thread {i j : J} (h : Inv state history)
    (howner : state.owner = some (.thread i)) (hinside : (state.jobs j).caller.inside = true) :
    Leads state j := by
  have hok := h.ok i
  have hholds := hok.threadOwns.mp howner
  have hplace : (state.jobs i).thread.rank ≠ 0 ∧ (state.jobs i).thread.rank < 8 := by
    revert hholds
    cases (state.jobs i).thread <;> decide
  obtain ⟨turn, hturn, hrank, hweight, hinside', htake⟩ :=
    @JobOk.threadTurn_goes _ _ _ _ _ _ state.owner.isNone hok hplace.1 hplace.2 (.inr hholds)
  have hstep : kthreadMachine.step state (.thread i) = some (state.take i (.thread i) turn) := by
    show Option.map _ ((state.jobs i).threadTurn _) = _
    rw [hturn]
    rfl
  have hless : (state.take i (.thread i) turn).1.ownerWeight + 100 ≤ state.ownerWeight := by
    rw [ownerWeight_thread howner]
    cases hlock : turn.lock with
    | keep =>
        have howner' : (state.take i (.thread i) turn).1.owner = some (.thread i) := by
          rw [take_owner, hlock]
          exact howner
        rw [ownerWeight_thread howner', take_jobs_self, hrank]
        omega
    | take =>
        rw [htake hlock] at hholds
        cases hholds
    | give =>
        rw [ownerWeight_give hlock]
        omega
  refine leads_of_turn hstep (.inl hless) (fun heq => ⟨?_, .inl (hinside' (heq ▸ hinside))⟩) hinside
  rw [Job.weight, Job.weight, hrank]
  omega

/-- A caller that finds the mutex free goes on, once its thread has woken it up. -/
theorem JobOk.callerTurn_goes {job : Job F D} {callerOwns threadOwns handler : Prop}
    (h : JobOk handler callerOwns threadOwns job) (hrank : 8 ≤ job.thread.rank)
    (hfree : ¬ callerOwns) (hinside : job.caller.inside = true) :
    ∃ turn, job.callerTurn true = some turn ∧ turn.after.thread = job.thread ∧
      (turn.lock = .take ∧ job.caller.weight = 480 ∧ turn.after.caller = .testing ∨
        turn.lock = .keep ∧ job.caller.weight = 100 ∧ turn.after.caller = .returned) := by
  obtain ⟨caller, thread, fd, copy, key, stopping, pending, stop⟩ := job
  have hholds := mt h.callerOwns.mpr hfree
  cases caller with
  | created | woken => exact ⟨_, rfl, rfl, .inl ⟨rfl, rfl, rfl⟩⟩
  | left =>
      obtain ⟨fd, rfl⟩ := Option.ne_none_iff_exists'.mp (h.fd_isSome rfl)
      exact ⟨_, rfl, rfl, .inr ⟨rfl, rfl, rfl⟩⟩
  | sleeping =>
      have hbefore : thread.rank ≤ 6 := h.asleep rfl
      replace hrank : 8 ≤ thread.rank := hrank
      omega
  | testing | leaving => exact absurd rfl hholds
  | notCalled | filled | returned | failed => cases hinside

/-- With the mutex free, the thread leads on until it has woken up its caller, and then the caller
does. -/
theorem leads_of_free {j : J} (h : Inv state history) (howner : state.owner = none)
    (hinside : (state.jobs j).caller.inside = true) : Leads state j := by
  have hok := h.ok j
  have hstart : (state.jobs j).thread.rank ≠ 0 := by
    rw [Ne, hok.absent]
    revert hinside
    cases (state.jobs j).caller <;> decide
  obtain hrank | hrank := Nat.lt_or_ge (state.jobs j).thread.rank 8
  · obtain ⟨turn, hturn, hnext, hweight, hinside', htake⟩ :=
      @JobOk.threadTurn_goes _ _ _ _ _ _ state.owner.isNone hok hstart hrank
        (.inl (by rw [howner]; rfl))
    have hstep : kthreadMachine.step state (.thread j) = some (state.take j (.thread j) turn) := by
      show Option.map _ ((state.jobs j).threadTurn _) = _
      rw [hturn]
      rfl
    have hless : (state.take j (.thread j) turn).1.ownerWeight ≤ 800 := by
      cases hlock : turn.lock with
      | keep =>
          rw [ownerWeight_none (by rw [take_owner, hlock]; exact howner)]
          omega
      | take =>
          have howner' : (state.take j (.thread j) turn).1.owner = some (.thread j) := by
            rw [take_owner, hlock]
            rfl
          rw [ownerWeight_thread howner']
          omega
      | give =>
          rw [ownerWeight_give hlock]
          omega
    refine leads_of_turn hstep (.inr rfl) (fun _ => ⟨?_, .inl (hinside' hinside)⟩) hinside
    rw [Job.weight, Job.weight, hnext, ownerWeight_none howner]
    omega
  · obtain ⟨turn, hturn, hthread, hcase⟩ := hok.callerTurn_goes hrank (by simp [howner]) hinside
    have hstep : kthreadMachine.step state (.caller j) = some (state.take j (.caller j) turn) := by
      show Option.map _ ((state.jobs j).callerTurn _) = _
      rw [howner, Option.isNone_none, hturn]
      rfl
    refine leads_of_turn hstep (.inr rfl) (fun _ => ?_) hinside
    rw [Job.weight, Job.weight, hthread, ownerWeight_none howner]
    obtain ⟨hlock, hweight, hnext⟩ | ⟨hlock, hweight, hnext⟩ := hcase
    · have howner' : (state.take j (.caller j) turn).1.owner = some (.caller j) := by
        rw [take_owner, hlock]
        rfl
      rw [ownerWeight_caller howner', take_jobs_self, hnext, if_pos rfl, hweight,
        show CallerPc.testing.weight = 250 from rfl]
      exact ⟨by omega, .inl rfl⟩
    · rw [ownerWeight_none (by rw [take_owner, hlock]; exact howner), hnext, hweight,
        show CallerPc.returned.weight = 0 from rfl]
      exact ⟨by omega, .inr rfl⟩

/-- **Nothing is stuck**: while a caller waits in `kthread_run`, some step leads on. -/
theorem Inv.leads {j : J} (h : Inv state history) (hinside : (state.jobs j).caller.inside = true) :
    Leads state j := by
  cases howner : state.owner with
  | none => exact leads_of_free h howner hinside
  | some owner =>
      cases owner with
      | caller i => exact leads_of_owner_caller h howner hinside
      | thread i => exact leads_of_owner_thread h howner hinside
      | other =>
          refine ⟨.unlock false, { state with owner := none }, [], ?_, ?_, .inl hinside⟩
          · show (if state.owner = some .other then _ else none) = _
            rw [if_pos howner]
            rfl
          · rw [State.weight, State.weight, ownerWeight_none rfl, State.ownerWeight, howner]
            dsimp only
            omega

/-- **`kthread_run` returns** at the end of some continuation of every run. -/
theorem kthread_run_returns {schedule : List (Action J F D)} {j : J}
    (hrun : kthreadMachine.run .init schedule = some (state, history))
    (hinside : (state.jobs j).caller.inside = true) :
    ∃ rest last events, kthreadMachine.run state rest = some (last, events) ∧
      (last.jobs j).caller = .returned := by
  have hinv := kthreadMachine.run_invariant Inv.step inv_init hrun
  rw [List.nil_append] at hinv
  clear hrun
  induction hweight : state.weight j using Nat.strong_induction_on generalizing state history with
  | _ weight ih =>
      obtain ⟨action, next, events, hstep, hless, hnext⟩ := hinv.leads hinside
      obtain hnext | hnext := hnext
      · obtain ⟨rest, last, tail, hrest, hlast⟩ :=
          ih _ (hweight ▸ hless) hnext (hinv.step hstep) rfl
        exact ⟨action :: rest, last, events ++ tail, by simp [Machine.run_cons, hstep, hrest],
          hlast⟩
      · exact ⟨[action], next, events, by simp [Machine.run_cons, hstep], hnext⟩

/-- The caller sleeps, and something else has the mutex. -/
theorem kthread_run_returns_sleeping :
    ∃ rest last events, (@kthreadMachine Unit ℕ ℕ _).run
        (kthreadMachine.after .init
          [.run () 7 42 true, .create () true, .caller (), .caller (), .lock] (by decide)) rest =
        some (last, events) ∧ (last.jobs ()).caller = .returned :=
  kthread_run_returns (kthreadMachine.run_eq_after (by decide)
    (show _ = some [((), .ran 7 42)] by decide)) (by decide)

end Machine

end Webcamd.Kernel.KThread
