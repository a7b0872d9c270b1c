import LedgerSim.CborMessages

/-!
# Routing replies to calls

A client numbers its calls.  The watcher hands out a future for each number and
a task gives it the reply that arrives under the number; when the stream ends,
the task gives every future that it still knows an exception.  A future is only
known as long as somebody holds it.
-/

namespace LedgerSim

open PyObject

/-! ## The watcher and its callers -/

/-- What a received map says: `RemoteError(event.get("e"))` or
`event.get("r")`. -/
inductive Reply where
  | remoteError (e : PyObject)
  | value (r : PyObject)

inductive FutureStatus where
  | pending
  | result (reply : Reply)
  | connectionReset
  | cancelled

inductive TaskStatus where
  | running
  | done
  | failed (failure : MapperFailure)

/-- A call waits for its future until it has its outcome, or until it is
cancelled, dropped or has failed to encode its message. -/
inductive CallState where
  | waiting
  | returned
  | left
deriving DecidableEq

structure RemoteCall where
  nonce : ℕ
  future : ℕ
  state : CallState

/-- The watcher with the calls made through it.  Futures are numbered in the
order in which they are made. -/
structure NonceWatcher where
  initialNonce : ℕ
  nonceToFuture : List (ℕ × ℕ)
  task : TaskStatus
  futures : List FutureStatus
  calls : List RemoteCall
  written : List Bytes

inductive ClientEvent where
  /-- `invoke_remote` up to the `await`. -/
  | invoke (method : String) (kwargs : List (String × PyObject))
  | receive (value : PyObject)
  | endOfStream
  /-- A call gets the outcome of its future. -/
  | resume (call : ℕ)
  | cancel (call : ℕ)
  /-- A waiting call is dropped without being cancelled. -/
  | abandon (call : ℕ)
  /-- A future that no call waits for leaves the weak dictionary. -/
  | collect (future : ℕ)

def eventStreamToNonceResult : PyObject → Except PyException (PyObject × Reply)
  | .dict items => .ok (get items "n",
      if contains items "e" then .remoteError (get items "e")
      else .value (get items "r"))
  | _ => .error .attributeError

namespace NonceWatcher

def initial : NonceWatcher :=
  ⟨0, [], .running, [], [], []⟩

/-- `self._nonce_to_future.get(nonce)` for a nonce that is a number. -/
def futureOf (self : NonceWatcher) (nonce : ℤ) : Option ℕ :=
  (self.nonceToFuture.find? fun entry => (entry.1 : ℤ) = nonce).map Prod.snd

/-- `if not future.done()` -/
def complete (self : NonceWatcher) (future : ℕ) (status : FutureStatus) :
    NonceWatcher :=
  match self.futures[future]? with
  | some .pending => { self with futures := self.futures.set future status }
  | _ => self

def futureForNonce (self : NonceWatcher) (nonce : ℕ) : ℕ × NonceWatcher :=
  match self.futureOf nonce with
  | some future => (future, self)
  | Option.none =>
      (self.futures.length,
        { self with
          futures := self.futures ++ [.pending]
          nonceToFuture :=
            self.nonceToFuture ++ [(nonce, self.futures.length)] })

/-- Once the task has ended, `future_for_nonce` raises `ConnectionResetError`
and the call hands out nothing. -/
def invokeRemote (M : Messaging) (self : NonceWatcher) (method : String)
    (kwargs : List (String × PyObject)) : NonceWatcher :=
  let nonce := self.initialNonce
  let self := { self with initialNonce := nonce + 1 }
  match self.task with
  | .running =>
      let msg := .dict [(.str "c", .str method), (.str "n", .int nonce),
        (.str "q", .dict (kwargs.map fun arg => (.str arg.1, arg.2)))]
      let (future, self) := self.futureForNonce nonce
      match xformToCborMessage M msg with
      | .ok cborMsg =>
          { self with
            calls := self.calls ++ [⟨nonce, future, .waiting⟩]
            written := self.written ++ [cborMsg] }
      | .error _ =>
          { self with calls := self.calls ++ [⟨nonce, future, .left⟩] }
  | _ => self

/-- A round of the task's loop. -/
def route (self : NonceWatcher) (nonce : PyObject) (reply : Reply) :
    Except PyException NonceWatcher :=
  if nonce.hashable then
    match nonce.key with
    | some (.int n) =>
        match self.futureOf n with
        | some future => .ok (self.complete future (.result reply))
        | Option.none => .ok self
    | _ => .ok self
  else .error .typeError

/-- A value goes through `map_aiter` to the task.  An exception that leaves the
task's loop ends it before its clean-up. -/
def receive (M : Messaging) (self : NonceWatcher) (value : PyObject) :
    NonceWatcher :=
  match self.task with
  | .running =>
      match M.mapAiter
        ((eventStreamToNonceResult value).mapError .raised) with
      | .ok Option.none => self
      | .ok (some (nonce, result)) =>
          match self.route nonce result with
          | .ok self => self
          | .error kind => { self with task := .failed (.raised kind) }
      | .error failure => { self with task := .failed failure }
  | _ => self

/-- The loop is over and the task cleans up. -/
def endOfStream (self : NonceWatcher) : NonceWatcher :=
  match self.task with
  | .running =>
      let self := self.nonceToFuture.foldl (fun self entry =>
        self.complete entry.2 .connectionReset) self
      { self with task := .done }
  | _ => self

def setState (self : NonceWatcher) (i : ℕ) (call : RemoteCall)
    (state : CallState) : NonceWatcher :=
  { self with calls := self.calls.set i { call with state := state } }

def resume (self : NonceWatcher) (i : ℕ) : NonceWatcher :=
  match self.calls[i]? with
  | some call =>
      if call.state = .waiting then
        match self.futures[call.future]? with
        | some .pending => self
        | _ => self.setState i call .returned
      else self
  | Option.none => self

/-- `keep` is what happens to the future of a call that stops waiting. -/
def leave (self : NonceWatcher) (i : ℕ)
    (keep : NonceWatcher → ℕ → NonceWatcher) : NonceWatcher :=
  match self.calls[i]? with
  | some call =>
      if call.state = .waiting then
        (keep self call.future).setState i call .left
      else self
  | Option.none => self

def collect (self : NonceWatcher) (future : ℕ) : NonceWatcher :=
  if self.calls.any fun call =>
      call.state = .waiting ∧ call.future = future then self
  else
    { self with
      nonceToFuture := self.nonceToFuture.filter fun entry =>
        entry.2 ≠ future }

def step (M : Messaging) (self : NonceWatcher) : ClientEvent → NonceWatcher
  | .invoke method kwargs => self.invokeRemote M method kwargs
  | .receive value => self.receive M value
  | .endOfStream => self.endOfStream
  | .resume i => self.resume i
  | .cancel i => self.leave i fun self future => self.complete future .cancelled
  | .abandon i => self.leave i fun self _ => self
  | .collect future => self.collect future

def run (M : Messaging) (events : List ClientEvent) : NonceWatcher :=
  events.foldl (step M) initial

end NonceWatcher

namespace NonceWatcher

/-! ## Completing futures -/

variable {self : NonceWatcher}

theorem complete_of_pending {future : ℕ}
    (h : self.futures[future]? = some .pending) (status : FutureStatus) :
    self.complete future status =
      { self with futures := self.futures.set future status } := by
  unfold complete
  rw [h]

theorem complete_of_ne_pending {future : ℕ}
    (h : self.futures[future]? ≠ some .pending) (status : FutureStatus) :
    self.complete future status = self := by
  unfold complete
  split
  next heq => exact absurd heq h
  next => rfl

theorem complete_initialNonce (future : ℕ) (status : FutureStatus) :
    (self.complete future status).initialNonce = self.initialNonce := by
  unfold complete
  split
  next => rfl
  next => rfl

theorem complete_calls (future : ℕ) (status : FutureStatus) :
    (self.complete future status).calls = self.calls := by
  unfold complete
  split
  next => rfl
  next => rfl

theorem complete_task (future : ℕ) (status : FutureStatus) :
    (self.complete future status).task = self.task := by
  unfold complete
  split
  next => rfl
  next => rfl

theorem complete_nonceToFuture (future : ℕ) (status : FutureStatus) :
    (self.complete future status).nonceToFuture = self.nonceToFuture := by
  unfold complete
  split
  next => rfl
  next => rfl

theorem complete_futures_other {future other : ℕ} (hne : future ≠ other)
    (status : FutureStatus) :
    (self.complete future status).futures[other]? = self.futures[other]? := by
  unfold complete
  split
  next => exact List.getElem?_set_ne hne
  next => rfl

theorem complete_futures_self {future : ℕ}
    (h : self.futures[future]? = some .pending) (status : FutureStatus) :
    (self.complete future status).futures[future]? = some status := by
  rw [complete_of_pending h]
  have hlt := (List.getElem?_eq_some_iff.mp h).1
  exact List.getElem?_set_self hlt

/-- A future that has an outcome keeps it. -/
theorem complete_futures_done {future other : ℕ} {status old : FutureStatus}
    (h : self.futures[other]? = some old) (hdone : old ≠ .pending) :
    (self.complete future status).futures[other]? = some old := by
  by_cases heq : future = other
  · subst heq
    rw [complete_of_ne_pending, h]
    rw [h]
    intro hpending
    exact hdone (Option.some.inj hpending)
  · rw [complete_futures_other heq, h]

/-- The clean-up at the end of the task. -/
def completeAll (self : NonceWatcher) (entries : List (ℕ × ℕ)) :
    NonceWatcher :=
  entries.foldl (fun self entry =>
    self.complete entry.2 .connectionReset) self

theorem completeAll_futures_done {entries : List (ℕ × ℕ)} {other : ℕ}
    {old : FutureStatus} (h : self.futures[other]? = some old)
    (hdone : old ≠ .pending) :
    (self.completeAll entries).futures[other]? = some old := by
  induction entries generalizing self with
  | nil => exact h
  | cons entry rest ih => exact ih (complete_futures_done h hdone)

theorem completeAll_calls (entries : List (ℕ × ℕ)) :
    (self.completeAll entries).calls = self.calls := by
  induction entries generalizing self with
  | nil => rfl
  | cons entry rest ih => exact ih.trans (complete_calls _ _)

theorem completeAll_futures_of_notMem {entries : List (ℕ × ℕ)} {other : ℕ}
    (h : other ∉ entries.map Prod.snd) :
    (self.completeAll entries).futures[other]? = self.futures[other]? := by
  induction entries generalizing self with
  | nil => rfl
  | cons entry rest ih =>
      rw [List.map_cons, List.mem_cons, not_or] at h
      exact (ih h.2).trans (complete_futures_other (Ne.symm h.1) _)

theorem completeAll_futures_of_mem {entries : List (ℕ × ℕ)} {other : ℕ}
    (hmem : other ∈ entries.map Prod.snd)
    (hpending : self.futures[other]? = some .pending) :
    (self.completeAll entries).futures[other]? = some .connectionReset := by
  induction entries generalizing self with
  | nil => cases hmem
  | cons entry rest ih =>
      by_cases heq : entry.2 = other
      · subst heq
        apply completeAll_futures_done (complete_futures_self hpending _)
        exact nofun
      · have hrest : other ∈ rest.map Prod.snd := by
          rcases List.mem_cons.mp hmem with hsame | hmem
          · exact absurd hsame.symm heq
          · exact hmem
        apply ih hrest
        rw [complete_futures_other heq, hpending]

/-! ## What a step keeps -/

/-- No call or future is made or renumbered, no future becomes known or loses
its outcome, and an ended task stays so. -/
structure Kept (before after : NonceWatcher) : Prop where
  entries : ∀ entry ∈ after.nonceToFuture, entry ∈ before.nonceToFuture
  calls : (after.calls.map fun call => (call.nonce, call.future)) =
    before.calls.map fun call => (call.nonce, call.future)
  length : after.futures.length = before.futures.length
  done : ∀ (future : ℕ) (status : FutureStatus),
    before.futures[future]? = some status → status ≠ .pending →
      after.futures[future]? = some status
  next : after.task = .running →
    before.task = .running ∧ after.initialNonce = before.initialNonce

theorem Kept.refl (self : NonceWatcher) : self.Kept self where
  entries := fun _ hentry => hentry
  calls := rfl
  length := rfl
  done := fun _ _ h _ => h
  next := fun hrunning => ⟨hrunning, rfl⟩

theorem Kept.trans {self' self'' : NonceWatcher} (h : self.Kept self')
    (h' : self'.Kept self'') : self.Kept self'' where
  entries := fun entry hentry => h.entries entry (h'.entries entry hentry)
  calls := h'.calls.trans h.calls
  length := h'.length.trans h.length
  done := fun future status hstatus hdone =>
    h'.done future status (h.done future status hstatus hdone) hdone
  next := by
    intro hrunning
    have hnext' := h'.next hrunning
    have hnext := h.next hnext'.1
    exact ⟨hnext.1, hnext'.2.trans hnext.2⟩

theorem complete_kept (future : ℕ) (status : FutureStatus) :
    self.Kept (self.complete future status) where
  entries := by
    rw [complete_nonceToFuture]
    exact fun _ hentry => hentry
  calls := by rw [complete_calls]
  length := by
    unfold complete
    split
    next => exact List.length_set
    next => rfl
  done := fun _ _ h hdone => complete_futures_done h hdone
  next := by
    rw [complete_task, complete_initialNonce]
    exact fun hrunning => ⟨hrunning, rfl⟩

theorem completeAll_kept (entries : List (ℕ × ℕ)) :
    self.Kept (self.completeAll entries) := by
  induction entries generalizing self with
  | nil => exact Kept.refl self
  | cons entry rest ih =>
      exact (complete_kept entry.2 .connectionReset).trans ih

theorem setState_kept {i : ℕ} {call : RemoteCall}
    (hcall : self.calls[i]? = some call) (state : CallState) :
    self.Kept (self.setState i call state) where
  entries := fun _ hentry => hentry
  calls := by
    have hlt := (List.getElem?_eq_some_iff.mp hcall).1
    rw [setState, List.map_set]
    apply List.ext_getElem?
    intro j
    by_cases hj : i = j
    · subst hj
      rw [List.getElem?_set_self (by simpa using hlt), List.getElem?_map,
        hcall, Option.map_some]
    · rw [List.getElem?_set_ne hj]
  length := rfl
  done := fun _ _ h _ => h
  next := fun hrunning => ⟨hrunning, rfl⟩

theorem route_kept {routed : NonceWatcher} {nonce : PyObject} {reply : Reply}
    (h : self.route nonce reply = .ok routed) : self.Kept routed := by
  unfold route at h
  split at h
  next =>
      split at h
      next =>
          split at h
          all_goals rw [← Except.ok.inj h]
          · exact complete_kept _ _
          · exact Kept.refl self
      next =>
          rw [← Except.ok.inj h]
          exact Kept.refl self
  next => cases h

theorem failed_kept (failure : MapperFailure) :
    self.Kept { self with task := .failed failure } :=
  ⟨fun _ hentry => hentry, rfl, rfl, fun _ _ h _ => h, nofun⟩

theorem receive_kept (M : Messaging) (value : PyObject) :
    self.Kept (self.receive M value) := by
  unfold receive
  split
  next =>
      split
      next => exact Kept.refl self
      next =>
          split
          next hroute => exact route_kept hroute
          next => exact failed_kept _
      next => exact failed_kept _
  next => exact Kept.refl self

theorem receive_of_ended (M : Messaging) (hended : self.task ≠ .running)
    (value : PyObject) : self.receive M value = self := by
  unfold receive
  split
  next hrunning => exact absurd hrunning hended
  next => rfl

theorem endOfStream_of_running (hrunning : self.task = .running) :
    self.endOfStream =
      { self.completeAll self.nonceToFuture with task := .done } := by
  unfold endOfStream
  rw [hrunning]
  rfl

theorem endOfStream_of_ended (hended : self.task ≠ .running) :
    self.endOfStream = self := by
  unfold endOfStream
  split
  next hrunning => exact absurd hrunning hended
  next => rfl

theorem endOfStream_kept : self.Kept self.endOfStream := by
  by_cases hrunning : self.task = .running
  · rw [endOfStream_of_running hrunning]
    have hkept : self.Kept (self.completeAll self.nonceToFuture) :=
      completeAll_kept _
    exact ⟨hkept.entries, hkept.calls, hkept.length, hkept.done, nofun⟩
  · rw [endOfStream_of_ended hrunning]
    exact Kept.refl self

theorem resume_kept (i : ℕ) : self.Kept (self.resume i) := by
  unfold resume
  split
  next call hcall =>
      split
      next =>
          split
          next => exact Kept.refl self
          next => exact setState_kept hcall _
      next => exact Kept.refl self
  next => exact Kept.refl self

theorem leave_kept (i : ℕ) {keep : NonceWatcher → ℕ → NonceWatcher}
    (hkeep : ∀ future, self.Kept (keep self future))
    (hcalls : ∀ future, (keep self future).calls = self.calls) :
    self.Kept (self.leave i keep) := by
  unfold leave
  split
  next call hcall =>
      split
      next =>
          apply (hkeep call.future).trans
          apply setState_kept
          rw [hcalls]
          exact hcall
      next => exact Kept.refl self
  next => exact Kept.refl self

theorem collect_kept (future : ℕ) : self.Kept (self.collect future) := by
  unfold collect
  split
  next => exact Kept.refl self
  next =>
      exact ⟨fun _ hentry => List.mem_of_mem_filter hentry, rfl, rfl,
        fun _ _ h _ => h, fun hrunning => ⟨hrunning, rfl⟩⟩

/-! ## Nonces, futures and calls have the same numbers -/

/-- Every known future stands under its own number, and the call of that number
made it. -/
structure Consistent (watcher : NonceWatcher) : Prop where
  entries : ∀ entry ∈ watcher.nonceToFuture,
    entry.1 = entry.2 ∧ entry.2 < watcher.futures.length
  calls : (watcher.calls.map fun call => (call.nonce, call.future)) =
    (List.range watcher.futures.length).map fun i => (i, i)
  next : watcher.task = .running →
    watcher.initialNonce = watcher.futures.length

variable {M : Messaging} {self' : NonceWatcher}

theorem initial_consistent : initial.Consistent :=
  ⟨nofun, rfl, fun _ => rfl⟩

theorem Consistent.of_kept (h : self.Consistent) (hkept : self.Kept self') :
    self'.Consistent where
  entries := by
    intro entry hentry
    rw [hkept.length]
    exact h.entries entry (hkept.entries entry hentry)
  calls := by
    rw [hkept.calls, hkept.length]
    exact h.calls
  next := by
    intro hrunning
    have hnext := hkept.next hrunning
    rw [hnext.2, hkept.length]
    exact h.next hnext.1

theorem Consistent.calls_length (h : self.Consistent) :
    self.calls.length = self.futures.length := by
  have hlength := congrArg List.length h.calls
  simpa using hlength

theorem Consistent.call_eq (h : self.Consistent) {i : ℕ} {call : RemoteCall}
    (hcall : self.calls[i]? = some call) :
    call.nonce = i ∧ call.future = i := by
  have hlt : i < self.futures.length := by
    rw [← h.calls_length]
    exact (List.getElem?_eq_some_iff.mp hcall).1
  have hpair := congrArg (fun pairs => pairs[i]?) h.calls
  rw [List.getElem?_map, hcall, List.getElem?_map,
    List.getElem?_range hlt] at hpair
  have hpair : (call.nonce, call.future) = (i, i) := Option.some.inj hpair
  exact ⟨congrArg Prod.fst hpair, congrArg Prod.snd hpair⟩

theorem Consistent.mem_iff (h : self.Consistent) {i : ℕ} :
    (i, i) ∈ self.nonceToFuture ↔ i ∈ self.nonceToFuture.map Prod.snd := by
  constructor
  · intro hmem
    exact List.mem_map_of_mem (f := Prod.snd) hmem
  · intro hmem
    obtain ⟨entry, hentry, hsnd⟩ := List.mem_map.mp hmem
    have hfst := (h.entries entry hentry).1
    have heq : entry = (i, i) := Prod.ext (hfst.trans hsnd) hsnd
    rw [← heq]
    exact hentry

theorem Consistent.futureOf_some (h : self.Consistent) {n : ℤ} {future : ℕ}
    (hfuture : self.futureOf n = some future) :
    n = future ∧ (future, future) ∈ self.nonceToFuture := by
  obtain ⟨entry, hfind, hsnd⟩ := Option.map_eq_some_iff.mp hfuture
  have hmem := List.mem_of_find?_eq_some hfind
  have hkey : (entry.1 : ℤ) = n := by
    simpa using List.find?_some hfind
  have hfst := (h.entries entry hmem).1
  have heq : entry = (future, future) := Prod.ext (hfst.trans hsnd) hsnd
  rw [heq] at hkey hmem
  exact ⟨hkey.symm, hmem⟩

theorem Consistent.futureOf_of_mem (h : self.Consistent) {i : ℕ}
    (hmem : (i, i) ∈ self.nonceToFuture) : self.futureOf i = some i := by
  cases hfuture : self.futureOf i with
  | some future =>
      have heq : (i : ℤ) = future := (h.futureOf_some hfuture).1
      rw [Int.ofNat.inj heq]
  | none =>
      have hnone := Option.map_eq_none_iff.mp hfuture
      have hne := List.find?_eq_none.mp hnone (i, i) hmem
      simp at hne

/-- While the task runs, a call gets a future of its own. -/
theorem invokeRemote_of_running (h : self.Consistent)
    (hrunning : self.task = .running) (method : String)
    (kwargs : List (String × PyObject)) :
    ∃ state written, state ≠ .returned ∧
      self.invokeRemote M method kwargs =
        ⟨self.futures.length + 1,
          self.nonceToFuture ++ [(self.futures.length, self.futures.length)],
          .running, self.futures ++ [.pending],
          self.calls ++ [⟨self.futures.length, self.futures.length, state⟩],
          written⟩ := by
  have hnext := h.next hrunning
  have hnew : ({ self with
      initialNonce := self.futures.length + 1
      task := .running } : NonceWatcher).futureOf self.futures.length =
        Option.none := by
    rw [futureOf, Option.map_eq_none_iff, List.find?_eq_none]
    intro entry hentry
    have hentry := h.entries entry hentry
    simp only [decide_eq_true_eq]
    omega
  unfold invokeRemote
  rw [hrunning, hnext]
  dsimp only
  unfold futureForNonce
  rw [hnew]
  dsimp only
  split
  next cborMsg _ => exact ⟨.waiting, self.written ++ [cborMsg], nofun, rfl⟩
  next => exact ⟨.left, self.written, nofun, rfl⟩

theorem invokeRemote_of_ended (hended : self.task ≠ .running) (method : String)
    (kwargs : List (String × PyObject)) :
    self.invokeRemote M method kwargs =
      { self with initialNonce := self.initialNonce + 1 } := by
  unfold invokeRemote
  dsimp only
  split
  next hrunning => exact absurd hrunning hended
  next => rfl

/-- A call made while the task runs gets the next number, and nothing else makes
calls or futures. -/
theorem step_cases (h : self.Consistent) (event : ClientEvent) :
    self.Kept (step M self event) ∨
      ∃ state written, state ≠ .returned ∧
        step M self event =
          ⟨self.futures.length + 1,
            self.nonceToFuture ++ [(self.futures.length, self.futures.length)],
            .running, self.futures ++ [.pending],
            self.calls ++ [⟨self.futures.length, self.futures.length, state⟩],
            written⟩ := by
  cases event with
  | invoke method kwargs =>
      by_cases hrunning : self.task = .running
      · exact Or.inr (invokeRemote_of_running h hrunning method kwargs)
      · apply Or.inl
        rw [step, invokeRemote_of_ended hrunning]
        exact ⟨fun _ hentry => hentry, rfl, rfl, fun _ _ hdone _ => hdone,
          fun hrun => absurd hrun hrunning⟩
  | receive value => exact Or.inl (receive_kept M value)
  | endOfStream => exact Or.inl endOfStream_kept
  | resume i => exact Or.inl (resume_kept i)
  | cancel i =>
      apply Or.inl
      unfold step
      apply leave_kept
      · intro future
        exact complete_kept future .cancelled
      · intro future
        exact complete_calls future .cancelled
  | abandon i =>
      apply Or.inl
      unfold step
      apply leave_kept
      · intro _
        exact Kept.refl self
      · intro _
        rfl
  | collect future => exact Or.inl (collect_kept future)

theorem step_consistent (h : self.Consistent) (event : ClientEvent) :
    (step M self event).Consistent := by
  rcases step_cases (M := M) h event with hkept | hcall
  · exact h.of_kept hkept
  · obtain ⟨state, written, _, hcall⟩ := hcall
    rw [hcall]
    constructor
    · intro entry hentry
      rw [List.length_append, List.length_singleton]
      rcases List.mem_append.mp hentry with hold | hnew
      · have hentry := h.entries entry hold
        exact ⟨hentry.1, by omega⟩
      · rw [List.mem_singleton.mp hnew]
        exact ⟨rfl, Nat.lt_succ_self _⟩
    · rw [List.map_append, h.calls, List.length_append, List.length_singleton,
        List.range_succ, List.map_append]
      rfl
    · intro _
      rw [List.length_append, List.length_singleton]

theorem run_append (earlier later : List ClientEvent) :
    run M (earlier ++ later) = later.foldl (step M) (run M earlier) :=
  List.foldl_append

theorem foldl_consistent (h : self.Consistent) (events : List ClientEvent) :
    (events.foldl (step M) self).Consistent := by
  induction events generalizing self with
  | nil => exact h
  | cons event rest ih => exact ih (step_consistent h event)

theorem run_consistent (events : List ClientEvent) :
    (run M events).Consistent :=
  foldl_consistent initial_consistent events

/-! ## A future keeps its first outcome -/

theorem step_futures_done (h : self.Consistent) {future : ℕ}
    {status : FutureStatus} (hstatus : self.futures[future]? = some status)
    (hdone : status ≠ .pending) (event : ClientEvent) :
    (step M self event).futures[future]? = some status := by
  rcases step_cases (M := M) h event with hkept | hcall
  · exact hkept.done future status hstatus hdone
  · obtain ⟨state, written, _, hcall⟩ := hcall
    rw [hcall]
    have hlt := (List.getElem?_eq_some_iff.mp hstatus).1
    exact (List.getElem?_append_left hlt).trans hstatus

theorem foldl_futures_done (h : self.Consistent) {future : ℕ}
    {status : FutureStatus} (hstatus : self.futures[future]? = some status)
    (hdone : status ≠ .pending) (events : List ClientEvent) :
    (events.foldl (step M) self).futures[future]? = some status := by
  induction events generalizing self with
  | nil => exact hstatus
  | cons event rest ih =>
      have hnext := step_futures_done (M := M) h hstatus hdone event
      exact ih (step_consistent h event) hnext

end NonceWatcher

end LedgerSim
