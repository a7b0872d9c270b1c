import LedgerSim.NonceWatcher

/-!
# Replies reach their calls

From the events that follow a call it is known what its future comes to: the
first reply to the call, or else an exception from the end of the stream.  A run
agrees with this as long as no value ends the task while a call needs it, and
of the values that are not dropped only a map with a strange nonce can do that.
-/

namespace LedgerSim

open PyObject

/-! ## The law -/

/-- The reply that a value brings to a nonce. -/
def replyTo (nonce : ℕ) (value : PyObject) : Option Reply :=
  match eventStreamToNonceResult value with
  | .ok (n, reply) =>
      if n.key = some (.int nonce) then some reply else Option.none
  | .error _ => Option.none

def ClientEvent.ends : ClientEvent → Bool
  | .endOfStream => true
  | _ => false

def ClientEvent.replyTo (nonce : ℕ) : ClientEvent → Option Reply
  | .receive value => LedgerSim.replyTo nonce value
  | _ => Option.none

/-- The replies to a nonce before the end of the stream. -/
def repliesTo (nonce : ℕ) (events : List ClientEvent) : List Reply :=
  (events.takeWhile fun event => !event.ends).filterMap
    (ClientEvent.replyTo nonce)

/-- If the value is a map, its `n`, or the `None` in its place, can be looked
up. -/
def Routable (value : PyObject) : Prop :=
  ∀ items, value = .dict items → (get items "n").hashable = true

/-- The task goes on after the value: the value is dropped, or it has a nonce
that can be looked up. -/
def Passes (M : Messaging) (value : PyObject) : Prop :=
  ∃ yielded, M.mapAiter ((eventStreamToNonceResult value).mapError .raised) =
    .ok yielded ∧ ∀ event ∈ yielded, event.1.hashable = true

namespace NonceWatcher

/-- What a call's future should have come to after the events that followed the
call. -/
structure Settled (watcher : NonceWatcher) (call : RemoteCall)
    (status : FutureStatus) (after : List ClientEvent) : Prop where
  first : ∀ reply, status = .result reply →
    (repliesTo call.nonce after).head? = some reply
  routed : ∀ reply, (repliesTo call.nonce after).head? = some reply →
    call.state ≠ .left → status = .result reply
  reset : watcher.task ≠ .running → call.state = .waiting →
    repliesTo call.nonce after = [] → status = .connectionReset

/-- Some call waits for a future that has no outcome. -/
def Waits (self : NonceWatcher) : Prop :=
  ∃ call ∈ self.calls, call.state = .waiting ∧
    self.futures[call.future]? = some .pending

/-- A value that ends the task comes when no call waits for it. -/
def Accepts (M : Messaging) (self : NonceWatcher) : ClientEvent → Prop
  | .receive value => self.task = .running → self.Waits → Passes M value
  | _ => True

variable (M : Messaging)

/-- A run routes its replies: a future keeps its first outcome, which is the
first reply to its call, and once the task has ended no call waits for a future
without an outcome. -/
structure Routes (events : List ClientEvent) : Prop where
  once : ∀ earlier later (future : ℕ) (status : FutureStatus),
    events = earlier ++ later →
      (run M earlier).futures[future]? = some status → status ≠ .pending →
        (run M events).futures[future]? = some status
  settled : ∀ before method kwargs after,
    events = before ++ .invoke method kwargs :: after →
      (run M before).task = .running →
        ∃ call status,
          (run M events).calls[(run M before).calls.length]? = some call ∧
          call.nonce = (run M before).initialNonce ∧
          (run M events).futures[call.future]? = some status ∧
          (run M events).Settled call status after
  closed : (run M events).task ≠ .running → ¬ (run M events).Waits

/-! ## What a future should come to -/

/-- A future that has an outcome is not changed by an event. -/
def advance (nonce : ℕ) (expected : FutureStatus) (event : ClientEvent) :
    FutureStatus :=
  match expected with
  | .pending =>
      match event.replyTo nonce with
      | some reply => .result reply
      | Option.none => if event.ends then .connectionReset else .pending
  | _ => expected

theorem advance_done {expected : FutureStatus} (h : expected ≠ .pending)
    (nonce : ℕ) (event : ClientEvent) :
    advance nonce expected event = expected := by
  cases expected with
  | pending => exact absurd rfl h
  | result reply => rfl
  | connectionReset => rfl
  | cancelled => rfl

/-- An event that neither replies to the call nor ends the stream. -/
theorem advance_quiet {nonce : ℕ} {event : ClientEvent}
    (hreply : event.replyTo nonce = Option.none) (hends : event.ends = false)
    (expected : FutureStatus) : advance nonce expected event = expected := by
  cases expected with
  | pending => simp [advance, hreply, hends]
  | result reply => rfl
  | connectionReset => rfl
  | cancelled => rfl

theorem foldl_advance_done {expected : FutureStatus} (h : expected ≠ .pending)
    (nonce : ℕ) (events : List ClientEvent) :
    events.foldl (advance nonce) expected = expected := by
  induction events with
  | nil => rfl
  | cons event rest ih => rw [List.foldl_cons, advance_done h, ih]

/-- The first reply wins; without one the future waits for the end of the
stream. -/
theorem foldl_advance_pending (nonce : ℕ) (events : List ClientEvent) :
    match (repliesTo nonce events).head? with
    | some reply => events.foldl (advance nonce) .pending = .result reply
    | Option.none =>
        events.foldl (advance nonce) .pending = .pending ∨
          events.foldl (advance nonce) .pending = .connectionReset := by
  induction events with
  | nil => exact Or.inl rfl
  | cons event rest ih =>
      cases hends : event.ends with
      | true =>
          have hreply : event.replyTo nonce = Option.none := by
            cases event with
            | endOfStream => rfl
            | _ => cases hends
          have hnil : repliesTo nonce (event :: rest) = [] := by
            simp [repliesTo, hends]
          have hreset : advance nonce .pending event = .connectionReset := by
            simp [advance, hreply, hends]
          have hdone : FutureStatus.connectionReset ≠ .pending := nofun
          rw [hnil, List.foldl_cons, hreset]
          exact Or.inr (foldl_advance_done hdone nonce rest)
      | false =>
          cases hreply : event.replyTo nonce with
          | some reply =>
              have hcons : repliesTo nonce (event :: rest) =
                  reply :: repliesTo nonce rest := by
                simp [repliesTo, hends, hreply]
              have hresult : advance nonce .pending event = .result reply := by
                simp [advance, hreply]
              have hdone : FutureStatus.result reply ≠ .pending := nofun
              rw [hcons, List.foldl_cons, hresult]
              exact foldl_advance_done hdone nonce rest
          | none =>
              have hrest : repliesTo nonce (event :: rest) =
                  repliesTo nonce rest := by
                simp [repliesTo, hends, hreply]
              rw [hrest, List.foldl_cons, advance_quiet hreply hends]
              exact ih

variable {M} {self self' : NonceWatcher}

/-! ## Received values -/

theorem passes_iff_routable (hdrops : M.DropsItems) {value : PyObject} :
    Passes M value ↔ Routable value := by
  unfold Passes Routable
  cases value with
  | dict items =>
      constructor
      · rintro ⟨yielded, hyielded, hhashable⟩ items' hitems
        obtain rfl := PyObject.dict.inj hitems
        obtain rfl := Except.ok.inj hyielded
        exact hhashable _ rfl
      · intro hhashable
        refine ⟨_, rfl, ?_⟩
        intro event hevent
        rw [← Option.some.inj hevent]
        exact hhashable items rfl
  | _ =>
      refine iff_of_true ⟨none, hdrops.mapAiter_raised _, nofun⟩ nofun

/-- A reply comes from a map whose nonce is a number. -/
theorem eventStream_of_reply {value : PyObject} {i : ℕ} {reply : Reply}
    (h : replyTo i value = some reply) :
    ∃ nonce, eventStreamToNonceResult value = .ok (nonce, reply) ∧
      nonce.key = some (.int i) := by
  unfold replyTo at h
  split at h
  next nonce reply' hevent =>
      split_ifs at h with hkey
      rw [← Option.some.inj h]
      exact ⟨nonce, hevent, hkey⟩
  next => cases h

theorem replyTo_some_or_none (value : PyObject) :
    (∃ i reply, replyTo i value = some reply) ∨
      ∀ i, replyTo i value = Option.none := by
  by_cases hreply : ∃ i reply, replyTo i value = some reply
  · exact .inl hreply
  · apply Or.inr
    intro i
    rw [Option.eq_none_iff_forall_ne_some]
    exact fun reply h => hreply ⟨i, reply, h⟩

theorem receive_of_reply (M : Messaging) (hrunning : self.task = .running)
    {value : PyObject} {i : ℕ} {reply : Reply}
    (hreply : replyTo i value = some reply) :
    self.receive M value =
      match self.futureOf i with
      | some future => self.complete future (.result reply)
      | Option.none => self := by
  obtain ⟨nonce, hevent, hkey⟩ := eventStream_of_reply hreply
  have hroute : self.route nonce reply =
      match self.futureOf i with
      | some future => .ok (self.complete future (.result reply))
      | Option.none => .ok self := by
    unfold route
    cases hfuture : self.futureOf i with
    | some future => simp [hashable_of_key hkey, hkey, hfuture]
    | none => simp [hashable_of_key hkey, hkey, hfuture]
  unfold receive
  rw [hrunning, hevent]
  simp only [Except.mapError, Messaging.mapAiter_ok, hroute]
  cases self.futureOf i with
  | some future => rfl
  | none => rfl

theorem route_of_no_reply (h : self.Consistent) {value nonce : PyObject}
    {reply : Reply}
    (hevent : eventStreamToNonceResult value = .ok (nonce, reply))
    (hhashable : nonce.hashable = true)
    (hnone : ∀ i, replyTo i value = Option.none) :
    self.route nonce reply = .ok self := by
  unfold route
  rw [if_pos hhashable]
  split
  next n hkey =>
      split
      next future hfuture =>
          have hreply := hnone future
          rw [(h.futureOf_some hfuture).1] at hkey
          unfold replyTo at hreply
          rw [hevent] at hreply
          dsimp only at hreply
          rw [if_pos hkey] at hreply
          cases hreply
      next => rfl
  next => rfl

theorem receive_of_no_reply (h : self.Consistent)
    (hrunning : self.task = .running) {value : PyObject}
    (hpasses : Passes M value) (hnone : ∀ i, replyTo i value = Option.none) :
    self.receive M value = self := by
  obtain ⟨yielded, hyielded, hhashable⟩ := hpasses
  unfold receive
  rw [hrunning, hyielded]
  cases yielded with
  | none => rfl
  | some event =>
      obtain ⟨nonce, reply⟩ := event
      have hevent := Except.mapError_eq_ok_iff.mp
        (Messaging.mapAiter_eq_some_iff.mp hyielded)
      have hroute := route_of_no_reply h hevent (hhashable _ rfl) hnone
      dsimp only
      rw [hroute]

theorem receive_of_not_passes (hrunning : self.task = .running)
    {value : PyObject} (hfails : ¬ Passes M value) :
    ∃ failure, self.receive M value = { self with task := .failed failure } := by
  unfold receive
  rw [hrunning]
  dsimp only
  split
  next hyielded => exact absurd ⟨_, hyielded, nofun⟩ hfails
  next nonce reply hyielded =>
      have hhashable : ¬ nonce.hashable = true := by
        intro hhashable
        apply hfails
        refine ⟨_, hyielded, ?_⟩
        intro event hevent
        rw [← Option.some.inj hevent]
        exact hhashable
      have hroute : self.route nonce reply = .error .typeError :=
        if_neg hhashable
      rw [hroute]
      exact ⟨_, rfl⟩
  next failure _ => exact ⟨failure, rfl⟩

/-! ## One call among the others -/

/-- The future of call `i` is what it should come to, or the call has left and
nothing can complete its future any more. -/
structure Tracked (watcher : NonceWatcher) (i : ℕ) (expected : FutureStatus)
    (call : RemoteCall) (status : FutureStatus) : Prop where
  call_eq : watcher.calls[i]? = some call
  future_eq : watcher.futures[i]? = some status
  returned : call.state = .returned → status ≠ .pending
  agrees :
    (status = expected ∧ (expected = .pending →
      watcher.task = .running ∧ (i, i) ∈ watcher.nonceToFuture)) ∨
    (call.state = .left ∧ (status = .cancelled ∨
      (status = .pending ∧
        (watcher.task = .running → (i, i) ∉ watcher.nonceToFuture))))

variable {i : ℕ} {expected : FutureStatus} {call : RemoteCall}
  {status : FutureStatus}

/-- What concerns call `i` is as before. -/
theorem Tracked.frame (h : self.Tracked i expected call status)
    (hcall : self'.calls[i]? = self.calls[i]?)
    (hfuture : self'.futures[i]? = self.futures[i]?)
    (htask : self'.task = .running ↔ self.task = .running)
    (hentry : (i, i) ∈ self'.nonceToFuture ↔ (i, i) ∈ self.nonceToFuture) :
    self'.Tracked i expected call status where
  call_eq := hcall.trans h.call_eq
  future_eq := hfuture.trans h.future_eq
  returned := h.returned
  agrees := by
    rw [htask, hentry]
    exact h.agrees

theorem Tracked.of_ne_left (h : self.Tracked i expected call status)
    (hstate : call.state ≠ .left) :
    status = expected ∧ (expected = .pending →
      self.task = .running ∧ (i, i) ∈ self.nonceToFuture) := by
  rcases h.agrees with hagrees | hleft
  · exact hagrees
  · exact absurd hleft.1 hstate

theorem Tracked.of_waiting (h : self.Tracked i expected call status)
    (hwaiting : call.state = .waiting) :
    status = expected ∧ (expected = .pending →
      self.task = .running ∧ (i, i) ∈ self.nonceToFuture) := by
  apply h.of_ne_left
  rw [hwaiting]
  exact nofun

theorem Tracked.left_of_pending (h : self.Tracked i expected call status)
    (hpending : status = .pending) (hwaiting : call.state ≠ .waiting) :
    call.state = .left := by
  cases hstate : call.state with
  | waiting => exact absurd hstate hwaiting
  | returned => exact absurd hpending (h.returned hstate)
  | left => rfl

theorem Tracked.call_unique (h : self.Tracked i expected call status)
    {call' : RemoteCall} (hcall' : self.calls[i]? = some call') :
    call = call' :=
  Option.some.inj (h.call_eq.symm.trans hcall')

theorem tracked_invoke (h : self.Consistent)
    (htracked : self.Tracked i expected call status) (method : String)
    (kwargs : List (String × PyObject)) :
    (self.invokeRemote M method kwargs).Tracked i expected call status := by
  by_cases hrunning : self.task = .running
  · obtain ⟨state, written, _, hinvoke⟩ :=
      invokeRemote_of_running (M := M) h hrunning method kwargs
    have hlt := (List.getElem?_eq_some_iff.mp htracked.future_eq).1
    have hlt' := (List.getElem?_eq_some_iff.mp htracked.call_eq).1
    rw [hinvoke]
    apply htracked.frame
    · exact List.getElem?_append_left hlt'
    · exact List.getElem?_append_left hlt
    · exact ⟨fun _ => hrunning, fun _ => rfl⟩
    · rw [List.mem_append, List.mem_singleton, or_iff_left]
      intro heq
      have hfst : i = self.futures.length := congrArg Prod.fst heq
      omega
  · rw [invokeRemote_of_ended hrunning]
    exact htracked.frame rfl rfl Iff.rfl Iff.rfl

theorem setState_calls_self {old call : RemoteCall}
    (hcall : self.calls[i]? = some old) (state : CallState) :
    (self.setState i call state).calls[i]? =
      some { call with state := state } := by
  have hlt := (List.getElem?_eq_some_iff.mp hcall).1
  exact List.getElem?_set_self hlt

theorem setState_calls_other {j : ℕ} (hne : j ≠ i) (call : RemoteCall)
    (state : CallState) :
    (self.setState j call state).calls[i]? = self.calls[i]? :=
  List.getElem?_set_ne hne

theorem Tracked.setState_other (h : self.Tracked i expected call status)
    {j : ℕ} (hj : j ≠ i) (other : RemoteCall) (state : CallState) :
    (self.setState j other state).Tracked i expected call status :=
  h.frame (setState_calls_other hj other state) rfl Iff.rfl Iff.rfl

theorem Tracked.complete_other (h : self.Tracked i expected call status)
    {j : ℕ} (hj : j ≠ i) (outcome : FutureStatus) :
    (self.complete j outcome).Tracked i expected call status := by
  apply h.frame
  · rw [complete_calls]
  · exact complete_futures_other hj outcome
  · rw [complete_task]
  · rw [complete_nonceToFuture]

theorem tracked_resume (h : self.Consistent)
    (htracked : self.Tracked i expected call status) (j : ℕ) :
    ∃ call', (self.resume j).Tracked i expected call' status := by
  unfold resume
  split
  next resumed hresumed =>
      split
      next hwaiting =>
          split
          next => exact ⟨call, htracked⟩
          next hne =>
              by_cases hj : j = i
              · subst hj
                have hcall := htracked.call_unique hresumed
                subst hcall
                have hagrees := htracked.of_waiting hwaiting
                have hdone : status ≠ .pending := by
                  intro hpending
                  apply hne
                  rw [(h.call_eq hresumed).2, htracked.future_eq, hpending]
                exact ⟨{ call with state := .returned },
                  setState_calls_self hresumed _, htracked.future_eq,
                  fun _ => hdone, Or.inl hagrees⟩
              · exact ⟨call, htracked.setState_other hj _ _⟩
      next => exact ⟨call, htracked⟩
  next => exact ⟨call, htracked⟩

theorem tracked_cancel (h : self.Consistent)
    (htracked : self.Tracked i expected call status) (j : ℕ) :
    ∃ call' status', (self.leave j fun self future =>
      self.complete future .cancelled).Tracked i expected call' status' := by
  unfold leave
  split
  next cancelled hcancelled =>
      split
      next hwaiting =>
          dsimp only
          have hfuture := (h.call_eq hcancelled).2
          rw [hfuture]
          by_cases hj : j = i
          · subst hj
            have hcall := htracked.call_unique hcancelled
            subst hcall
            have hagrees := htracked.of_waiting hwaiting
            have hcalls : (self.complete j .cancelled).calls[j]? =
                some call := by
              rw [complete_calls]
              exact hcancelled
            by_cases hpending : status = .pending
            · subst hpending
              exact ⟨{ call with state := .left }, .cancelled,
                setState_calls_self hcalls _,
                complete_futures_self htracked.future_eq _, nofun,
                Or.inr ⟨rfl, Or.inl rfl⟩⟩
            · have hdone : expected ≠ .pending := by
                rw [← hagrees.1]
                exact hpending
              exact ⟨{ call with state := .left }, status,
                setState_calls_self hcalls _,
                complete_futures_done htracked.future_eq hpending, nofun,
                Or.inl ⟨hagrees.1, fun heq => absurd heq hdone⟩⟩
          · have hother := htracked.complete_other hj .cancelled
            exact ⟨call, status, hother.setState_other hj cancelled .left⟩
      next => exact ⟨call, status, htracked⟩
  next => exact ⟨call, status, htracked⟩

theorem tracked_abandon
    (htracked : self.Tracked i expected call status) (j : ℕ) :
    ∃ call', (self.leave j fun self _ => self).Tracked i expected call'
      status := by
  unfold leave
  split
  next abandoned habandoned =>
      split
      next hwaiting =>
          dsimp only
          by_cases hj : j = i
          · subst hj
            have hcall := htracked.call_unique habandoned
            subst hcall
            exact ⟨{ call with state := .left },
              setState_calls_self habandoned _, htracked.future_eq, nofun,
              Or.inl (htracked.of_waiting hwaiting)⟩
          · exact ⟨call, htracked.setState_other hj _ _⟩
      next => exact ⟨call, htracked⟩
  next => exact ⟨call, htracked⟩

theorem tracked_collect (h : self.Consistent)
    (htracked : self.Tracked i expected call status) (future : ℕ) :
    (self.collect future).Tracked i expected call status := by
  unfold collect
  split
  next => exact htracked
  next hheld =>
      by_cases hfuture : future = i
      · subst hfuture
        have hwaiting : call.state ≠ .waiting := by
          intro hwaiting
          apply hheld
          rw [List.any_eq_true]
          have hmem := List.mem_of_getElem? htracked.call_eq
          have hnumber := (h.call_eq htracked.call_eq).2
          exact ⟨call, hmem, by simp [hwaiting, hnumber]⟩
        have hgone : (future, future) ∉
            self.nonceToFuture.filter fun entry => entry.2 ≠ future := by
          simp
        refine ⟨htracked.call_eq, htracked.future_eq, htracked.returned, ?_⟩
        rcases htracked.agrees with ⟨hstatus, _⟩ | ⟨hleft, hstatus⟩
        · by_cases hpending : expected = .pending
          · rw [hpending] at hstatus
            have hleft := htracked.left_of_pending hstatus hwaiting
            exact Or.inr ⟨hleft, Or.inr ⟨hstatus, fun _ => hgone⟩⟩
          · exact Or.inl ⟨hstatus, fun heq => absurd heq hpending⟩
        · apply Or.inr
          apply And.intro hleft
          rcases hstatus with hcancelled | ⟨hpending, _⟩
          · exact Or.inl hcancelled
          · exact Or.inr ⟨hpending, fun _ => hgone⟩
      · apply htracked.frame
        · rfl
        · rfl
        · exact Iff.rfl
        · simp [List.mem_filter, Ne.symm hfuture]

theorem replyTo_inj {j : ℕ} {value : PyObject} {reply reply' : Reply}
    (h : replyTo i value = some reply) (h' : replyTo j value = some reply') :
    i = j := by
  unfold replyTo at h h'
  split at h
  next n _ hevent =>
      rw [hevent] at h'
      dsimp only at h'
      split at h
      next hkey =>
          rw [hkey] at h'
          split at h'
          next heq =>
              have hint := PyKey.int.inj (Option.some.inj heq)
              exact Int.ofNat.inj hint
          next => cases h'
      next => cases h
  next => cases h

theorem replyTo_receive_eq_none {value : PyObject}
    (hnone : ∀ reply, replyTo i value ≠ some reply) :
    (ClientEvent.receive value).replyTo i = Option.none := by
  rw [ClientEvent.replyTo, Option.eq_none_iff_forall_ne_some]
  exact hnone

theorem tracked_reply (hrunning : self.task = .running)
    (htracked : self.Tracked i expected call status) {j : ℕ}
    (hmem : (j, j) ∈ self.nonceToFuture) {value : PyObject} {reply : Reply}
    (hreply : replyTo j value = some reply) :
    ∃ status', (self.complete j (.result reply)).Tracked i
      (advance i expected (.receive value)) call status' := by
  by_cases hj : j = i
  · subst hj
    have hcall : (self.complete j (.result reply)).calls[j]? = some call := by
      rw [complete_calls]
      exact htracked.call_eq
    by_cases hpending : status = .pending
    · -- a call that has left would have lost its entry
      have hexpected : expected = .pending := by
        rcases htracked.agrees with ⟨hstatus, _⟩ | ⟨_, hcancelled | hgone⟩
        · rw [← hstatus]
          exact hpending
        · rw [hpending] at hcancelled
          cases hcancelled
        · exact absurd hmem (hgone.2 hrunning)
      have hresult : advance j expected (.receive value) = .result reply := by
        simp [hexpected, advance, ClientEvent.replyTo, hreply]
      have hfuture := htracked.future_eq
      rw [hpending] at hfuture
      rw [hresult]
      exact ⟨.result reply, hcall, complete_futures_self hfuture _,
        fun _ => nofun, Or.inl ⟨rfl, nofun⟩⟩
    · refine ⟨status, hcall, complete_futures_done htracked.future_eq hpending,
        htracked.returned, ?_⟩
      rcases htracked.agrees with ⟨hstatus, _⟩ | ⟨hleft, hcancelled | hgone⟩
      · have hdone : expected ≠ .pending := by
          rw [← hstatus]
          exact hpending
        rw [advance_done hdone]
        exact Or.inl ⟨hstatus, fun heq => absurd heq hdone⟩
      · exact Or.inr ⟨hleft, Or.inl hcancelled⟩
      · exact absurd hgone.1 hpending
  · have hquiet := replyTo_receive_eq_none fun reply' hreply' =>
      hj (replyTo_inj hreply hreply')
    rw [advance_quiet hquiet rfl]
    exact ⟨status, htracked.complete_other hj _⟩

/-- Once the task has ended or does not know the future, no event concerns
call `i`. -/
theorem Tracked.advance_of_not_held
    (htracked : self.Tracked i expected call status)
    (hlost : ¬ (self.task = .running ∧ (i, i) ∈ self.nonceToFuture))
    (event : ClientEvent) :
    self.Tracked i (advance i expected event) call status := by
  refine ⟨htracked.call_eq, htracked.future_eq, htracked.returned, ?_⟩
  rcases htracked.agrees with ⟨hstatus, hheld⟩ | hleft
  · have hdone : expected ≠ .pending := fun heq => hlost (hheld heq)
    rw [advance_done hdone]
    exact Or.inl ⟨hstatus, hheld⟩
  · exact Or.inr hleft

/-- The loop of the task is left by an exception. -/
theorem tracked_failed (h : self.Consistent)
    (htracked : self.Tracked i expected call status) (hwaits : ¬ self.Waits)
    (failure : MapperFailure) (event : ClientEvent) :
    ({ self with task := .failed failure } : NonceWatcher).Tracked i
      (advance i expected event) call status := by
  refine ⟨htracked.call_eq, htracked.future_eq, htracked.returned, ?_⟩
  rcases htracked.agrees with ⟨hstatus, _⟩ | ⟨hleft, hcancelled | hgone⟩
  · by_cases hpending : expected = .pending
    · rw [hpending] at hstatus
      have hwaiting : call.state ≠ .waiting := by
        intro hwaiting
        have hmem := List.mem_of_getElem? htracked.call_eq
        have hfuture := htracked.future_eq
        rw [hstatus, ← (h.call_eq htracked.call_eq).2] at hfuture
        exact hwaits ⟨call, hmem, hwaiting, hfuture⟩
      have hleft := htracked.left_of_pending hstatus hwaiting
      exact Or.inr ⟨hleft, Or.inr ⟨hstatus, nofun⟩⟩
    · rw [advance_done hpending]
      exact Or.inl ⟨hstatus, fun heq => absurd heq hpending⟩
  · exact Or.inr ⟨hleft, Or.inl hcancelled⟩
  · exact Or.inr ⟨hleft, Or.inr ⟨hgone.1, nofun⟩⟩

theorem tracked_receive (h : self.Consistent)
    (htracked : self.Tracked i expected call status) {value : PyObject}
    (haccepts : self.Accepts M (.receive value)) :
    ∃ status', (self.receive M value).Tracked i
      (advance i expected (.receive value)) call status' := by
  by_cases hrunning : self.task = .running
  · rcases replyTo_some_or_none value with ⟨j, reply, hreply⟩ | hnone
    · rw [receive_of_reply M hrunning hreply]
      cases hfuture : self.futureOf j with
      | some future =>
          have hsome := h.futureOf_some hfuture
          have hj : j = future := Int.ofNat.inj hsome.1
          rw [← hj] at hsome ⊢
          exact tracked_reply hrunning htracked hsome.2 hreply
      | none =>
          apply Exists.intro status
          by_cases hj : j = i
          · apply htracked.advance_of_not_held
            rintro ⟨_, hmem⟩
            have hsome := h.futureOf_of_mem hmem
            rw [← hj, hfuture] at hsome
            cases hsome
          · have hquiet := replyTo_receive_eq_none fun reply' hreply' =>
              hj (replyTo_inj hreply hreply')
            rw [advance_quiet hquiet rfl]
            exact htracked
    · have hquiet : (ClientEvent.receive value).replyTo i = Option.none :=
        hnone i
      by_cases hpasses : Passes M value
      · rw [receive_of_no_reply h hrunning hpasses hnone,
          advance_quiet hquiet rfl]
        exact ⟨status, htracked⟩
      · obtain ⟨failure, hfailed⟩ := receive_of_not_passes hrunning hpasses
        have hwaits : ¬ self.Waits := fun hwaits =>
          hpasses (haccepts hrunning hwaits)
        rw [hfailed]
        exact ⟨status, tracked_failed h htracked hwaits failure _⟩
  · rw [receive_of_ended M hrunning]
    have hlost : ¬ (self.task = .running ∧ (i, i) ∈ self.nonceToFuture) :=
      fun hheld => hrunning hheld.1
    exact ⟨status, htracked.advance_of_not_held hlost _⟩

theorem tracked_endOfStream (h : self.Consistent)
    (htracked : self.Tracked i expected call status) :
    ∃ status', self.endOfStream.Tracked i (advance i expected .endOfStream)
      call status' := by
  by_cases hrunning : self.task = .running
  · rw [endOfStream_of_running hrunning]
    have hcall : (self.completeAll self.nonceToFuture).calls[i]? =
        some call := by
      rw [completeAll_calls]
      exact htracked.call_eq
    rcases htracked.agrees with ⟨hstatus, hheld⟩ | ⟨hleft, hcancelled | hgone⟩
    · by_cases hpending : expected = .pending
      · have hmem := h.mem_iff.mp (hheld hpending).2
        have hfuture := htracked.future_eq
        rw [hstatus, hpending] at hfuture
        rw [hpending]
        exact ⟨.connectionReset, hcall,
          completeAll_futures_of_mem hmem hfuture, fun _ => nofun,
          Or.inl ⟨rfl, nofun⟩⟩
      · have hdone : status ≠ .pending := by
          rw [hstatus]
          exact hpending
        rw [advance_done hpending]
        exact ⟨status, hcall,
          completeAll_futures_done htracked.future_eq hdone,
          htracked.returned, Or.inl ⟨hstatus, fun heq => absurd heq hpending⟩⟩
    · have hdone : status ≠ .pending := by
        rw [hcancelled]
        exact nofun
      exact ⟨status, hcall, completeAll_futures_done htracked.future_eq hdone,
        htracked.returned, Or.inr ⟨hleft, Or.inl hcancelled⟩⟩
    · have hnotMem : i ∉ self.nonceToFuture.map Prod.snd := by
        rw [← h.mem_iff]
        exact hgone.2 hrunning
      have hfuture := (completeAll_futures_of_notMem hnotMem).trans
        htracked.future_eq
      exact ⟨status, hcall, hfuture, htracked.returned,
        Or.inr ⟨hleft, Or.inr ⟨hgone.1, nofun⟩⟩⟩
  · rw [endOfStream_of_ended hrunning]
    have hlost : ¬ (self.task = .running ∧ (i, i) ∈ self.nonceToFuture) :=
      fun hheld => hrunning hheld.1
    exact ⟨status, htracked.advance_of_not_held hlost _⟩

theorem tracked_step (h : self.Consistent)
    (htracked : self.Tracked i expected call status) {event : ClientEvent}
    (haccepts : self.Accepts M event) :
    ∃ call' status', (step M self event).Tracked i (advance i expected event)
      call' status' := by
  cases event with
  | invoke method kwargs =>
      rw [advance_quiet rfl rfl]
      exact ⟨call, status, tracked_invoke h htracked method kwargs⟩
  | receive value =>
      obtain ⟨status', hreceive⟩ := tracked_receive h htracked haccepts
      exact ⟨call, status', hreceive⟩
  | endOfStream =>
      obtain ⟨status', hend⟩ := tracked_endOfStream h htracked
      exact ⟨call, status', hend⟩
  | resume j =>
      rw [advance_quiet rfl rfl]
      obtain ⟨call', hresume⟩ := tracked_resume h htracked j
      exact ⟨call', status, hresume⟩
  | cancel j =>
      rw [advance_quiet rfl rfl]
      exact tracked_cancel h htracked j
  | abandon j =>
      rw [advance_quiet rfl rfl]
      obtain ⟨call', habandon⟩ := tracked_abandon htracked j
      exact ⟨call', status, habandon⟩
  | collect future =>
      rw [advance_quiet rfl rfl]
      exact ⟨call, status, tracked_collect h htracked future⟩

/-! ## Whole runs -/

theorem tracked_foldl (h : self.Consistent)
    (htracked : self.Tracked i expected call status)
    {events : List ClientEvent}
    (haccepts : ∀ before event after, events = before ++ event :: after →
      (before.foldl (step M) self).Accepts M event) :
    ∃ call' status', (events.foldl (step M) self).Tracked i
      (events.foldl (advance i) expected) call' status' := by
  induction events generalizing self expected call status with
  | nil => exact ⟨call, status, htracked⟩
  | cons event rest ih =>
      obtain ⟨call', status', hstep⟩ :=
        tracked_step (M := M) h htracked (haccepts [] event rest rfl)
      apply ih (step_consistent h event) hstep
      intro before next after hrest
      apply haccepts (event :: before) next after
      rw [hrest, List.cons_append]

/-- The call that a step makes. -/
theorem tracked_new {nonceToFuture : List (ℕ × ℕ)}
    {futures : List FutureStatus} {calls : List RemoteCall}
    (hlength : calls.length = futures.length) (state : CallState)
    (hstate : state ≠ .returned) (next : ℕ) (written : List Bytes) :
    (NonceWatcher.mk next (nonceToFuture ++ [(futures.length, futures.length)])
      .running (futures ++ [.pending])
      (calls ++ [⟨futures.length, futures.length, state⟩]) written).Tracked
        futures.length .pending ⟨futures.length, futures.length, state⟩
          .pending where
  call_eq := by
    rw [← hlength]
    exact List.getElem?_concat_length
  future_eq := List.getElem?_concat_length
  returned := fun hreturned => absurd hreturned hstate
  agrees := Or.inl ⟨rfl, fun _ => ⟨rfl, List.mem_append_right _
    (List.mem_singleton_self _)⟩⟩

theorem step_all_tracked (h : self.Consistent)
    (hall : ∀ i < self.calls.length, ∃ expected call status,
      self.Tracked i expected call status)
    {event : ClientEvent} (haccepts : self.Accepts M event) :
    ∀ i < (step M self event).calls.length, ∃ expected call status,
      (step M self event).Tracked i expected call status := by
  intro i hi
  by_cases hold : i < self.calls.length
  · obtain ⟨expected, call, status, htracked⟩ := hall i hold
    exact ⟨_, tracked_step h htracked haccepts⟩
  · rcases step_cases (M := M) h event with hkept | hcall
    · have hlength := congrArg List.length hkept.calls
      rw [List.length_map, List.length_map] at hlength
      omega
    · obtain ⟨state, written, hstate, hcall⟩ := hcall
      rw [hcall, List.length_append, List.length_singleton] at hi
      have hlength := h.calls_length
      have heq : i = self.futures.length := by omega
      rw [hcall, heq]
      exact ⟨_, _, _, tracked_new hlength state hstate _ _⟩

theorem foldl_all_tracked (h : self.Consistent)
    (hall : ∀ i < self.calls.length, ∃ expected call status,
      self.Tracked i expected call status)
    {events : List ClientEvent}
    (haccepts : ∀ before event after, events = before ++ event :: after →
      (before.foldl (step M) self).Accepts M event) :
    ∀ i < (events.foldl (step M) self).calls.length,
      ∃ expected call status,
        (events.foldl (step M) self).Tracked i expected call status := by
  induction events generalizing self with
  | nil => exact hall
  | cons event rest ih =>
      have hevent := haccepts [] event rest rfl
      have hstep := step_all_tracked (M := M) h hall hevent
      apply ih (step_consistent h event) hstep
      intro before next after hrest
      apply haccepts (event :: before) next after
      rw [hrest, List.cons_append]

theorem Tracked.settled (h : self.Consistent) {after : List ClientEvent}
    (htracked : self.Tracked i (after.foldl (advance i) .pending) call status) :
    self.Settled call status after := by
  have hnonce := (h.call_eq htracked.call_eq).1
  have hexpected := foldl_advance_pending i after
  constructor
  · intro reply hresult
    rw [hnonce]
    rcases htracked.agrees with ⟨hstatus, _⟩ | ⟨_, hcancelled | hgone⟩
    · rw [← hstatus, hresult] at hexpected
      split at hexpected
      next reply' hhead =>
          rw [hhead, FutureStatus.result.inj hexpected]
      next =>
          rcases hexpected with hpending | hreset
          · cases hpending
          · cases hreset
    · rw [hresult] at hcancelled
      cases hcancelled
    · rw [hresult] at hgone
      cases hgone.1
  · intro reply hhead hstate
    rw [hnonce] at hhead
    rw [hhead] at hexpected
    exact (htracked.of_ne_left hstate).1.trans hexpected
  · intro hended hwaiting hnil
    rw [hnonce] at hnil
    rw [hnil] at hexpected
    have hagrees := htracked.of_waiting hwaiting
    rcases hexpected with hpending | hreset
    · exact absurd (hagrees.2 hpending).1 hended
    · exact hagrees.1.trans hreset

theorem run_tracked {before after : List ClientEvent} {method : String}
    {kwargs : List (String × PyObject)}
    (hrunning : (run M before).task = .running)
    (haccepts : ∀ earlier event later, after = earlier ++ event :: later →
      (run M (before ++ .invoke method kwargs :: earlier)).Accepts M event) :
    ∃ call status, (run M (before ++ .invoke method kwargs :: after)).Tracked
        (run M before).futures.length
        (after.foldl (advance (run M before).futures.length) .pending)
        call status := by
  have hbefore : (run M before).Consistent := run_consistent before
  have hconsistent := step_consistent (M := M) hbefore (.invoke method kwargs)
  obtain ⟨state, written, hstate, hinvoke⟩ :=
    invokeRemote_of_running (M := M) hbefore hrunning method kwargs
  have hnew : (step M (run M before) (.invoke method kwargs)).Tracked
      (run M before).futures.length .pending
      ⟨(run M before).futures.length, (run M before).futures.length, state⟩
      .pending := by
    rw [step, hinvoke]
    exact tracked_new hbefore.calls_length state hstate _ _
  rw [run_append, List.foldl_cons]
  apply tracked_foldl hconsistent hnew
  intro earlier event later hsplit
  have hevent := haccepts earlier event later hsplit
  rw [run_append, List.foldl_cons] at hevent
  exact hevent

theorem not_waits_of_tracked (h : self.Consistent)
    (hall : ∀ i < self.calls.length, ∃ expected call status,
      self.Tracked i expected call status)
    (hended : self.task ≠ .running) : ¬ self.Waits := by
  rintro ⟨call, hmem, hwaiting, hpending⟩
  obtain ⟨i, hi, hget⟩ := List.mem_iff_getElem.mp hmem
  obtain ⟨expected, call', status, htracked⟩ := hall i hi
  have hget' : self.calls[i]? = some call := by
    rw [List.getElem?_eq_getElem hi, hget]
  have hcall := htracked.call_unique hget'
  subst hcall
  have hagrees := htracked.of_waiting hwaiting
  rw [(h.call_eq hget').2] at hpending
  have hstatus : status = .pending :=
    Option.some.inj (htracked.future_eq.symm.trans hpending)
  have hexpected : expected = .pending := hagrees.1.symm.trans hstatus
  exact hended (hagrees.2 hexpected).1

theorem routes_of_accepts {events : List ClientEvent}
    (haccepts : ∀ before event after, events = before ++ event :: after →
      (run M before).Accepts M event) : Routes M events where
  once := by
    intro earlier later future status hevents hstatus hdone
    rw [hevents, run_append]
    exact foldl_futures_done (run_consistent earlier) hstatus hdone later
  settled := by
    intro before method kwargs after hevents hrunning
    have hafter : ∀ earlier event later, after = earlier ++ event :: later →
        (run M (before ++ .invoke method kwargs :: earlier)).Accepts M
          event := by
      intro earlier event later hsplit
      apply haccepts _ event later
      rw [hevents, hsplit, List.append_assoc, List.cons_append]
    obtain ⟨call, status, htracked⟩ := run_tracked hrunning hafter
    rw [← hevents] at htracked
    have hbefore : (run M before).Consistent := run_consistent before
    have hend : (run M events).Consistent := run_consistent events
    have hnumbers := hend.call_eq htracked.call_eq
    have hfuture := htracked.future_eq
    rw [← hnumbers.2] at hfuture
    rw [hbefore.calls_length, hbefore.next hrunning]
    exact ⟨call, status, htracked.call_eq, hnumbers.1, hfuture,
      Tracked.settled hend htracked⟩
  closed :=
    not_waits_of_tracked (run_consistent events)
      (foldl_all_tracked initial_consistent nofun haccepts)

/-- Every state of a run routes its replies, unless a map whose nonce cannot be
looked up comes while the task runs and a call waits for its future. -/
theorem client_routes_iff (M : Messaging) (hdrops : M.DropsItems)
    (events : List ClientEvent) :
    (∀ earlier later, events = earlier ++ later → Routes M earlier) ↔
      ∀ before value after, events = before ++ .receive value :: after →
        (run M before).task = .running → (run M before).Waits →
          Routable value := by
  simp only [← passes_iff_routable hdrops]
  constructor
  · intro hroutes before value after hevents hrunning hwaits
    by_contra hfails
    obtain ⟨failure, hfailed⟩ := receive_of_not_passes hrunning hfails
    have hrun : run M (before ++ [.receive value]) =
        { run M before with task := .failed failure } := by
      rw [run_append]
      exact hfailed
    have hprefix := hroutes (before ++ [.receive value]) after (by
      rw [hevents, List.append_assoc, List.singleton_append])
    have hclosed := hprefix.closed
    rw [hrun] at hclosed
    exact hclosed nofun hwaits
  · intro hpasses earlier later hevents
    apply routes_of_accepts
    intro before event after hsplit
    cases event with
    | receive value =>
        apply hpasses before value (after ++ later)
        rw [hevents, hsplit, List.append_assoc, List.cons_append]
    | _ => trivial

end NonceWatcher

namespace Reference

/-! The encoding of a call without arguments. -/

def callDumps : PyObject → Except PyException Bytes
  | .dict [(.str "c", .str "f"), (.str "n", .int n), (.str "q", .dict [])] =>
      if 0 ≤ n ∧ n < 24 then
        .ok [0xa3, 0x61, 0x63, 0x61, 0x66, 0x61, 0x6e, UInt8.ofNat n.toNat,
          0x61, 0x71, 0xa0]
      else .error .valueError
  | _ => .error .valueError

def callLoads : Bytes → Except PyException PyObject
  | [0xa3, 0x61, 0x63, 0x61, 0x66, 0x61, 0x6e, n, 0x61, 0x71, 0xa0] =>
      .ok (.dict [(.str "c", .str "f"), (.str "n", .int n.toNat),
        (.str "q", .dict [])])
  | _ => .error .valueError

def callMessaging : Messaging where
  format _ := "None"
  text _ := "exception"
  dumps := callDumps
  loads := callLoads
  mapAiterRaises _ := none

theorem callMessaging_dropsItems : callMessaging.DropsItems :=
  fun _ => rfl

/-- A list is dropped, the first call gets no reply and the second one gets
its own. -/
def strayEvents : List ClientEvent :=
  [.invoke "f" [], .invoke "f" [], .receive (.list []),
    .receive (.dict [(.str "n", .int 1), (.str "r", .int 7)]), .endOfStream]

/-- The nonce of the reply is a list. -/
def strangeEvents : List ClientEvent :=
  [.invoke "f" [], .receive (.dict [(.str "n", .list [])]), .endOfStream]

end Reference

namespace NonceWatcher

open Reference

theorem client_routes_iff_stray :
    (∀ earlier later, strayEvents = earlier ++ later →
      Routes callMessaging earlier) ↔
      ∀ before value after, strayEvents = before ++ .receive value :: after →
        (run callMessaging before).task = .running →
          (run callMessaging before).Waits → Routable value :=
  client_routes_iff callMessaging callMessaging_dropsItems strayEvents

example : (run callMessaging strayEvents).futures =
    [.connectionReset, .result (.value (.int 7))] :=
  rfl

/-- A nonce that is a list ends the task, and a call waits for a future that
nobody completes. -/
theorem client_waits_after_strange_nonce :
    callMessaging.DropsItems ∧ ¬ Routes callMessaging strangeEvents := by
  refine ⟨callMessaging_dropsItems, fun hroutes => ?_⟩
  have hended : (run callMessaging strangeEvents).task =
      .failed (.raised .typeError) := rfl
  apply hroutes.closed
  · rw [hended]
    exact nofun
  · exact ⟨⟨0, 0, .waiting⟩, List.mem_singleton_self _, rfl, rfl⟩

end NonceWatcher

end LedgerSim
