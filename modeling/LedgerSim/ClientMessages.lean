import LedgerSim.RemoteCalls
import LedgerSim.FramedLink
import Mathlib.Data.List.Induction

/-!
# What a client sends and receives

The calls of a client are numbered, so the messages that it writes are told
apart by their nonces.  A future gets a result only from a received value that
replies to its number.
-/

namespace LedgerSim

open PyObject

/-- `msg` of `invoke_remote`. -/
def callMessage (method : String) (nonce : ℕ)
    (kwargs : List (String × PyObject)) : PyObject :=
  .dict [(.str "c", .str method), (.str "n", .int nonce),
    (.str "q", .dict (kwargs.map fun arg => (.str arg.1, arg.2)))]

/-- The message arrives with its items under their names. -/
theorem callMessage_streamable_iff {method : String} {nonce : ℕ}
    {kwargs : List (String × PyObject)} {message : PyObject} :
    (callMessage method nonce kwargs).transformToStreamable = .ok message ↔
      ∃ q, (PyObject.dict (kwargs.map fun arg =>
          (.str arg.1, arg.2))).transformToStreamable = .ok q ∧
        message = .dict [(.str "c", .str method), (.str "n", .int nonce),
          (.str "q", q)] := by
  have hlast : ∀ q, setItem [(.str "c", .str method), (.str "n", .int nonce)]
      (.str "q") q = .ok [(.str "c", .str method), (.str "n", .int nonce),
        (.str "q", q)] := by
    intro q
    simp [setItem, PyObject.key]
  have hitems : (callMessage method nonce kwargs).transformToStreamable =
      (do
        let q ← (PyObject.dict (kwargs.map fun arg =>
          (.str arg.1, arg.2))).transformToStreamable
        let newD ← setItem [(.str "c", .str method), (.str "n", .int nonce)]
          (.str "q") q
        .ok (.dict newD)) := by
    unfold callMessage
    simp only [transformToStreamable, transformItems]
    cases transformItems (kwargs.map fun arg => (.str arg.1, arg.2)) [] with
    | error e => rfl
    | ok items => rfl
  rw [hitems]
  constructor
  · intro h
    obtain ⟨q, hq, h⟩ := Except.bind_eq_ok_iff.mp h
    rw [hlast, Except.ok_bind] at h
    exact ⟨q, hq, (Except.ok.inj h).symm⟩
  · rintro ⟨q, hq, rfl⟩
    apply Except.bind_eq_ok hq
    rw [hlast]
    rfl

theorem nonceOf_callMessage {method : String} {nonce : ℕ}
    {kwargs : List (String × PyObject)} {message : PyObject}
    (h : (callMessage method nonce kwargs).transformToStreamable =
      .ok message) : nonceOf message = some (.int nonce) := by
  obtain ⟨q, -, rfl⟩ := callMessage_streamable_iff.mp h
  rfl

def ClientEvent.calls : ClientEvent → Bool
  | .invoke .. => true
  | _ => false

namespace NonceWatcher

variable (M : Messaging)

/-! ## Written messages -/

/-- What an event writes, as it is decoded at the other end. -/
def sends (self : NonceWatcher) : ClientEvent → List PyObject
  | .invoke method kwargs =>
      let msg := callMessage method self.initialNonce kwargs
      match self.task, msg.transformToStreamable, xformToCborMessage M msg with
      | .running, .ok message, .ok _ => [message]
      | _, _, _ => []
  | _ => []

def sentFrom (self : NonceWatcher) : List ClientEvent → List PyObject
  | [] => []
  | event :: later => self.sends M event ++ (step M self event).sentFrom later

/-- The messages of all calls that a client has made. -/
def sent (events : List ClientEvent) : List PyObject :=
  initial.sentFrom M events

variable {M} {self : NonceWatcher}

theorem mem_sends_iff {event : ClientEvent} {message : PyObject} :
    message ∈ self.sends M event ↔
      ∃ method kwargs frame, event = .invoke method kwargs ∧
        self.task = .running ∧
        (callMessage method self.initialNonce kwargs).transformToStreamable =
          .ok message ∧
        xformToCborMessage M (callMessage method self.initialNonce kwargs) =
          .ok frame := by
  cases event with
  | invoke method kwargs =>
      unfold sends
      dsimp only
      split
      next streamable frame hrunning hstreamable hframe =>
          constructor
          · intro h
            rw [List.mem_singleton.mp h]
            exact ⟨method, kwargs, frame, rfl, hrunning, hstreamable, hframe⟩
          · rintro ⟨_, _, _, hevent, -, hmessage, -⟩
            obtain ⟨rfl, rfl⟩ := ClientEvent.invoke.inj hevent
            have hsame := Except.ok.inj (hmessage.symm.trans hstreamable)
            exact List.mem_singleton.mpr hsame
      next hnone =>
          constructor
          · intro h
            cases h
          · rintro ⟨_, _, frame, hevent, hrunning, hmessage, hframe⟩
            obtain ⟨rfl, rfl⟩ := ClientEvent.invoke.inj hevent
            exact (hnone message frame hrunning hmessage hframe).elim
  | _ => simp [sends]

theorem sentFrom_append (earlier later : List ClientEvent) :
    self.sentFrom M (earlier ++ later) =
      self.sentFrom M earlier ++
        (earlier.foldl (step M) self).sentFrom M later := by
  induction earlier generalizing self with
  | nil => rfl
  | cons event rest ih =>
      rw [List.cons_append, sentFrom, sentFrom, ih, List.append_assoc]
      rfl

theorem sent_append (earlier : List ClientEvent) (event : ClientEvent) :
    sent M (earlier ++ [event]) =
      sent M earlier ++ (run M earlier).sends M event := by
  unfold sent
  rw [sentFrom_append, sentFrom, sentFrom, List.append_nil]
  rfl

/-! ## What an event writes and counts -/

theorem complete_written (future : ℕ) (status : FutureStatus) :
    (self.complete future status).written = self.written := by
  unfold complete
  split
  next => rfl
  next => rfl

theorem completeAll_written (entries : List (ℕ × ℕ)) :
    (self.completeAll entries).written = self.written := by
  induction entries generalizing self with
  | nil => rfl
  | cons entry rest ih => exact ih.trans (complete_written _ _)

theorem completeAll_initialNonce (entries : List (ℕ × ℕ)) :
    (self.completeAll entries).initialNonce = self.initialNonce := by
  induction entries generalizing self with
  | nil => rfl
  | cons entry rest ih => exact ih.trans (complete_initialNonce _ _)

theorem route_keeps {routed : NonceWatcher} {nonce : PyObject} {reply : Reply}
    (h : self.route nonce reply = .ok routed) :
    routed.written = self.written ∧
      routed.initialNonce = self.initialNonce := by
  unfold route at h
  split at h
  next =>
      split at h
      next =>
          split at h
          all_goals rw [← Except.ok.inj h]
          · exact ⟨complete_written _ _, complete_initialNonce _ _⟩
          · exact ⟨rfl, rfl⟩
      next =>
          rw [← Except.ok.inj h]
          exact ⟨rfl, rfl⟩
  next => cases h

/-- What a received value leaves as it was. -/
theorem receive_keeps (M : Messaging) (value : PyObject) :
    (self.receive M value).written = self.written ∧
      (self.receive M value).initialNonce = self.initialNonce := by
  unfold receive
  split
  next =>
      split
      next => exact ⟨rfl, rfl⟩
      next =>
          split
          next hroute => exact route_keeps hroute
          next => exact ⟨rfl, rfl⟩
      next => exact ⟨rfl, rfl⟩
  next => exact ⟨rfl, rfl⟩

theorem leave_keeps (i : ℕ) {keep : NonceWatcher → ℕ → NonceWatcher}
    (hkeep : ∀ future, (keep self future).written = self.written ∧
      (keep self future).initialNonce = self.initialNonce) :
    (self.leave i keep).written = self.written ∧
      (self.leave i keep).initialNonce = self.initialNonce := by
  unfold leave
  split
  next call _ =>
      split
      next => exact hkeep call.future
      next => exact ⟨rfl, rfl⟩
  next => exact ⟨rfl, rfl⟩

/-- Only a call writes and takes a number. -/
theorem step_keeps {event : ClientEvent}
    (hcall : event.calls = false) :
    (step M self event).written = self.written ∧
      (step M self event).initialNonce = self.initialNonce := by
  cases event with
  | invoke method kwargs => cases hcall
  | receive value => exact receive_keeps M value
  | endOfStream =>
      by_cases hrunning : self.task = .running
      · rw [step, endOfStream_of_running hrunning]
        exact ⟨completeAll_written _, completeAll_initialNonce _⟩
      · rw [step, endOfStream_of_ended hrunning]
        exact ⟨rfl, rfl⟩
  | resume i =>
      rw [step]
      unfold resume
      split
      next call _ =>
          split
          next =>
              split
              next => exact ⟨rfl, rfl⟩
              next => exact ⟨rfl, rfl⟩
          next => exact ⟨rfl, rfl⟩
      next => exact ⟨rfl, rfl⟩
  | cancel i =>
      apply leave_keeps
      intro future
      exact ⟨complete_written _ _, complete_initialNonce _ _⟩
  | abandon i =>
      apply leave_keeps
      intro future
      exact ⟨rfl, rfl⟩
  | collect future =>
      rw [step]
      unfold collect
      split
      next => exact ⟨rfl, rfl⟩
      next => exact ⟨rfl, rfl⟩

theorem futureForNonce_keeps (nonce : ℕ) :
    (self.futureForNonce nonce).2.written = self.written ∧
      (self.futureForNonce nonce).2.initialNonce = self.initialNonce := by
  unfold futureForNonce
  split
  next => exact ⟨rfl, rfl⟩
  next => exact ⟨rfl, rfl⟩

theorem invokeRemote_initialNonce (method : String)
    (kwargs : List (String × PyObject)) :
    (self.invokeRemote M method kwargs).initialNonce =
      self.initialNonce + 1 := by
  unfold invokeRemote
  dsimp only
  split
  next =>
      split
      next => exact (futureForNonce_keeps _).2
      next => exact (futureForNonce_keeps _).2
  next => rfl

theorem initialNonce_le_step (event : ClientEvent) :
    self.initialNonce ≤ (step M self event).initialNonce := by
  cases event with
  | invoke method kwargs =>
      rw [step, invokeRemote_initialNonce]
      exact Nat.le_succ _
  | _ => exact (step_keeps rfl).2.ge

variable (self) in
theorem initialNonce_le_foldl (events : List ClientEvent) :
    self.initialNonce ≤ (events.foldl (step M) self).initialNonce := by
  induction events generalizing self with
  | nil => exact le_rfl
  | cons event rest ih =>
      exact (initialNonce_le_step event).trans (ih (self.step M event))

variable (self) in
/-- The frames that an event writes carry its messages. -/
theorem step_written (hM : M.Lawful) (event : ClientEvent) :
    ∃ frames, (step M self event).written = self.written ++ frames ∧
      List.Forall₂ (Carries M) frames (self.sends M event) := by
  cases event with
  | invoke method kwargs =>
      rw [step]
      unfold invokeRemote sends
      dsimp only
      cases htask : self.task with
      | running =>
          dsimp only
          have hkeeps := ({ self with
            initialNonce := self.initialNonce + 1
            task := .running } : NonceWatcher).futureForNonce_keeps
              self.initialNonce
          have hcall : PyObject.dict [(.str "c", .str method),
              (.str "n", .int self.initialNonce),
              (.str "q", .dict (kwargs.map fun arg => (.str arg.1, arg.2)))] =
            callMessage method self.initialNonce kwargs := rfl
          rw [hcall]
          cases hframe : xformToCborMessage M
              (callMessage method self.initialNonce kwargs) with
          | error e =>
              refine ⟨[], ?_, ?_⟩
              · rw [List.append_nil]
                exact hkeeps.1
              · split
                next hok => cases hok
                next => exact .nil
          | ok frame =>
              obtain ⟨message, blob, hmessage, hdumps, hblob⟩ :=
                xformToCborMessage_eq_ok_iff.mp hframe
              rw [hmessage]
              refine ⟨[frame], ?_, ?_⟩
              · exact congrArg (· ++ [frame]) hkeeps.1
              · exact .cons (carries_of_frame hM hmessage hframe) .nil
      | done => exact ⟨[], (List.append_nil _).symm, .nil⟩
      | failed failure => exact ⟨[], (List.append_nil _).symm, .nil⟩
  | _ =>
      refine ⟨[], ?_, .nil⟩
      rw [List.append_nil]
      exact (step_keeps rfl).1

theorem run_written (hM : M.Lawful) (events : List ClientEvent) :
    List.Forall₂ (Carries M) (run M events).written (sent M events) := by
  induction events using List.reverseRecOn with
  | nil => exact .nil
  | append_singleton earlier event ih =>
      obtain ⟨frames, hwritten, hframes⟩ :=
        (run M earlier).step_written hM event
      rw [sent_append, run_append, List.foldl_cons, List.foldl_nil, hwritten]
      exact List.rel_append ih hframes

/-! ## Nonces -/

/-- The message has a nonce that was given in between. -/
theorem nonceOf_mem_sentFrom {events : List ClientEvent} {message : PyObject}
    (h : message ∈ self.sentFrom M events) :
    ∃ nonce : ℕ, nonceOf message = some (.int nonce) ∧
      self.initialNonce ≤ nonce ∧
      nonce < (events.foldl (step M) self).initialNonce := by
  induction events generalizing self with
  | nil => cases h
  | cons event rest ih =>
      rw [List.foldl_cons]
      rcases List.mem_append.mp h with hnow | hlater
      · obtain ⟨method, kwargs, frame, rfl, -, hmessage, -⟩ :=
          mem_sends_iff.mp hnow
        refine ⟨self.initialNonce, nonceOf_callMessage hmessage, le_rfl, ?_⟩
        apply Nat.lt_of_lt_of_le _ (initialNonce_le_foldl _ rest)
        rw [step, invokeRemote_initialNonce]
        exact Nat.lt_succ_self _
      · obtain ⟨nonce, hnonce, hle, hlt⟩ := ih hlater
        exact ⟨nonce, hnonce, (initialNonce_le_step event).trans hle, hlt⟩

theorem sentFrom_pairwise (events : List ClientEvent) :
    (self.sentFrom M events).Pairwise fun message message' =>
      nonceOf message ≠ nonceOf message' := by
  induction events generalizing self with
  | nil => exact .nil
  | cons event rest ih =>
      rw [sentFrom, List.pairwise_append]
      refine ⟨?_, ih, ?_⟩
      · cases event with
        | invoke method kwargs =>
            unfold sends
            dsimp only
            split
            next => exact List.pairwise_singleton _ _
            next => exact .nil
        | _ => exact .nil
      · intro message hmessage later hlater hsame
        obtain ⟨method, kwargs, frame, rfl, -, hstreamable, -⟩ :=
          mem_sends_iff.mp hmessage
        obtain ⟨nonce, hnonce, hle, -⟩ := nonceOf_mem_sentFrom hlater
        rw [step, invokeRemote_initialNonce] at hle
        rw [nonceOf_callMessage hstreamable, hnonce] at hsame
        have heq := Int.ofNat.inj (PyObject.int.inj (Option.some.inj hsame))
        omega

theorem sent_pairwise (events : List ClientEvent) :
    (sent M events).Pairwise fun message message' =>
      nonceOf message ≠ nonceOf message' :=
  sentFrom_pairwise events

/-- The message under the nonce of a call is the message of that call. -/
theorem sent_eq_of_nonce {before later : List ClientEvent} {method : String}
    {kwargs : List (String × PyObject)} {message : PyObject}
    (hmem : message ∈ sent M (before ++ .invoke method kwargs :: later))
    (hnonce : nonceOf message = some (.int (run M before).initialNonce)) :
    (callMessage method (run M before).initialNonce
      kwargs).transformToStreamable = .ok message := by
  unfold sent at hmem
  rw [sentFrom_append, List.mem_append] at hmem
  rcases hmem with hbefore | hcall
  · obtain ⟨nonce, hnonce', -, hlt⟩ := nonceOf_mem_sentFrom hbefore
    rw [hnonce'] at hnonce
    have heq := Int.ofNat.inj (PyObject.int.inj (Option.some.inj hnonce))
    rw [heq] at hlt
    exact absurd hlt (lt_irrefl _)
  · rcases List.mem_append.mp hcall with hnow | hlater
    · obtain ⟨_, _, _, hevent, -, hmessage, -⟩ := mem_sends_iff.mp hnow
      obtain ⟨rfl, rfl⟩ := ClientEvent.invoke.inj hevent
      exact hmessage
    · obtain ⟨nonce, hnonce', hle, -⟩ := nonceOf_mem_sentFrom hlater
      rw [step, invokeRemote_initialNonce] at hle
      rw [hnonce'] at hnonce
      have heq := Int.ofNat.inj (PyObject.int.inj (Option.some.inj hnonce))
      rw [heq] at hle
      exact absurd hle (Nat.not_succ_le_self _)

/-! ## Results -/

/-- Completing a future gives no other future an outcome. -/
theorem complete_futures_cases (future other : ℕ) (status : FutureStatus) :
    (self.complete future status).futures[other]? = self.futures[other]? ∨
      (future = other ∧
        (self.complete future status).futures[other]? = some status) := by
  by_cases hpending : self.futures[future]? = some .pending
  · by_cases heq : future = other
    · rw [← heq]
      exact .inr ⟨rfl, complete_futures_self hpending status⟩
    · exact .inl (complete_futures_other heq status)
  · rw [complete_of_ne_pending hpending]
    exact .inl rfl

theorem connectionReset_ne (reply : Reply) :
    FutureStatus.connectionReset ≠ .result reply := nofun

theorem cancelled_ne (reply : Reply) :
    FutureStatus.cancelled ≠ .result reply := nofun

theorem result_of_complete {future other : ℕ} {status : FutureStatus}
    (hstatus : ∀ reply, status ≠ .result reply) {reply : Reply}
    (h : (self.complete future status).futures[other]? =
      some (.result reply)) :
    self.futures[other]? = some (.result reply) := by
  rcases self.complete_futures_cases future other status with hsame | hnew
  · rw [← hsame]
    exact h
  · rw [hnew.2] at h
    exact absurd (Option.some.inj h) (hstatus reply)

theorem result_of_completeAll {entries : List (ℕ × ℕ)} {other : ℕ}
    {reply : Reply}
    (h : (self.completeAll entries).futures[other]? = some (.result reply)) :
    self.futures[other]? = some (.result reply) := by
  induction entries generalizing self with
  | nil => exact h
  | cons entry rest ih =>
      have hrest := ih h
      exact result_of_complete connectionReset_ne hrest

theorem result_of_leave {i other : ℕ} {reply : Reply}
    {keep : NonceWatcher → ℕ → NonceWatcher}
    (hkeep : ∀ future,
      (keep self future).futures[other]? = some (.result reply) →
        self.futures[other]? = some (.result reply))
    (h : (self.leave i keep).futures[other]? = some (.result reply)) :
    self.futures[other]? = some (.result reply) := by
  unfold leave at h
  split at h
  next call _ =>
      split at h
      next => exact hkeep call.future h
      next => exact h
  next => exact h

/-- A received value gives a result to the future that it replies to. -/
theorem result_of_receive (hself : self.Consistent) {value : PyObject}
    {other : ℕ} {reply : Reply}
    (h : (self.receive M value).futures[other]? = some (.result reply)) :
    self.futures[other]? = some (.result reply) ∨
      replyTo other value = some reply := by
  by_cases hrunning : self.task = .running
  · rcases replyTo_some_or_none value with ⟨i, reply', hreply'⟩ | hnone
    · rw [receive_of_reply M hrunning hreply'] at h
      cases hfuture : self.futureOf i with
      | none =>
          rw [hfuture] at h
          exact .inl h
      | some future =>
          rw [hfuture] at h
          have hsame := Int.ofNat.inj (hself.futureOf_some hfuture).1
          rcases self.complete_futures_cases future other
            (.result reply') with hkept | ⟨heq, hnew⟩
          · rw [← hkept]
            exact .inl h
          · have hresult := Option.some.inj (hnew.symm.trans h)
            rw [← heq, ← hsame, hreply', FutureStatus.result.inj hresult]
            exact .inr rfl
    · apply Or.inl
      by_cases hpasses : Passes M value
      · rw [receive_of_no_reply hself hrunning hpasses hnone] at h
        exact h
      · obtain ⟨failure, hfailed⟩ := receive_of_not_passes hrunning hpasses
        rw [hfailed] at h
        exact h
  · rw [receive_of_ended M hrunning] at h
    exact .inl h

theorem result_of_step (hself : self.Consistent) {event : ClientEvent}
    {other : ℕ} {reply : Reply}
    (h : (step M self event).futures[other]? = some (.result reply)) :
    self.futures[other]? = some (.result reply) ∨
      event.replyTo other = some reply := by
  cases event with
  | invoke method kwargs =>
      apply Or.inl
      by_cases hrunning : self.task = .running
      · obtain ⟨_, _, -, hinvoke⟩ :=
          invokeRemote_of_running (M := M) hself hrunning method kwargs
        rw [step, hinvoke] at h
        dsimp only at h
        rw [List.getElem?_append] at h
        split_ifs at h with hlt
        · exact h
        · cases hindex : other - self.futures.length with
          | zero => simp [hindex] at h
          | succ k => simp [hindex] at h
      · rw [step, invokeRemote_of_ended hrunning] at h
        exact h
  | receive value => exact result_of_receive hself h
  | endOfStream =>
      apply Or.inl
      by_cases hrunning : self.task = .running
      · rw [step, endOfStream_of_running hrunning] at h
        exact result_of_completeAll h
      · rw [step, endOfStream_of_ended hrunning] at h
        exact h
  | resume i =>
      apply Or.inl
      rw [step] at h
      unfold resume at h
      split at h
      next call _ =>
          split at h
          next =>
              split at h
              next => exact h
              next => exact h
          next => exact h
      next => exact h
  | cancel i =>
      apply Or.inl
      apply result_of_leave _ h
      intro future hresult
      exact result_of_complete cancelled_ne hresult
  | abandon i =>
      apply Or.inl
      exact result_of_leave (fun _ hresult => hresult) h
  | collect future =>
      apply Or.inl
      rw [step] at h
      unfold collect at h
      split at h
      next => exact h
      next => exact h

/-- A result has been received. -/
theorem exists_receive_of_result {events : List ClientEvent} {nonce : ℕ}
    {reply : Reply}
    (h : (run M events).futures[nonce]? = some (.result reply)) :
    ∃ value, .receive value ∈ events ∧ replyTo nonce value = some reply := by
  induction events using List.reverseRecOn with
  | nil => cases h
  | append_singleton earlier event ih =>
      rw [run_append, List.foldl_cons, List.foldl_nil] at h
      rcases result_of_step (run_consistent earlier) h with hbefore | hnow
      · obtain ⟨value, hmem, hreply⟩ := ih hbefore
        exact ⟨value, List.mem_append_left _ hmem, hreply⟩
      · cases event with
        | receive value =>
            exact ⟨value, List.mem_append_right _ List.mem_cons_self, hnow⟩
        | _ => cases hnow

end NonceWatcher

end LedgerSim
