import LedgerSim.RemoteHistory
import Mathlib.Data.List.TakeWhile

/-!
# Nothing is lost on a connection that holds

As long as a connection is open, its client's task goes on, whatever the server
has sent.  When nothing is on the way any more, every call that was written has
been handled, and a call that has not left has its result exactly if its message
could be answered.
-/

namespace LedgerSim

open PyObject NonceWatcher

variable {M : Messaging} {σ ι : Type} {service : Service σ} {s₀ : σ}

theorem Service.mem_eventsFrom_of_served {s : σ}
    {earlier later : List (ι × PyObject)} {c : ι} {message : PyObject} :
    ⟨message, c,
        service.api (service.stateAfter M s (earlier.map Prod.snd))⟩ ∈
      service.eventsFrom M s (earlier ++ (c, message) :: later) := by
  induction earlier generalizing s with
  | nil => exact List.mem_cons_self
  | cons first rest ih => exact List.mem_cons_of_mem _ ih

/-! ## The client's task goes on -/

namespace NonceWatcher

variable {self : NonceWatcher} {events : List ClientEvent}

theorem running_of_isLocal (hself : self.Consistent)
    (hrunning : self.task = .running) {event : ClientEvent}
    (hlocal : event.IsLocal) : (step M self event).task = .running := by
  cases event with
  | invoke method kwargs =>
      obtain ⟨state, written, -, hinvoke⟩ :=
        invokeRemote_of_running (M := M) hself hrunning method kwargs
      rw [step, hinvoke]
  | receive value => exact hlocal.elim
  | endOfStream => exact hlocal.elim
  | resume i =>
      rw [step]
      unfold resume
      split
      next =>
          split
          next => split <;> exact hrunning
          next => exact hrunning
      next => exact hrunning
  | cancel i =>
      rw [step]
      unfold leave
      split
      next call _ =>
          split
          next =>
              have hkept := self.complete_task call.future .cancelled
              exact hkept.trans hrunning
          next => exact hrunning
      next => exact hrunning
  | abandon i =>
      rw [step]
      unfold leave
      split
      next => split <;> exact hrunning
      next => exact hrunning
  | collect future =>
      rw [step]
      unfold collect
      split <;> exact hrunning

theorem running_of_passes (hself : self.Consistent)
    (hrunning : self.task = .running) {value : PyObject}
    (hpasses : Passes M value) : (self.receive M value).task = .running := by
  rcases replyTo_some_or_none value with ⟨i, reply, hreply⟩ | hnone
  · rw [receive_of_reply M hrunning hreply]
    cases self.futureOf i with
    | none => exact hrunning
    | some future => exact (complete_task _ _).trans hrunning
  · rw [receive_of_no_reply hself hrunning hpasses hnone]
    exact hrunning

theorem ends_of_running
    (hrunning : (run M events).task = .running) :
    ∀ event ∈ events, event.ends = false := by
  intro event hevent
  cases event with
  | endOfStream =>
      obtain ⟨before, later, rfl⟩ := List.append_of_mem hevent
      rw [run_append, List.foldl_cons] at hrunning
      have hstep := running_of_foldl hrunning
      have hbefore := running_of_step hstep
      rw [step, endOfStream_of_running hbefore] at hstep
      cases hstep
  | _ => rfl

/-- While the task runs, a call that has been replied to has its result, unless
it has left. -/
theorem result_of_reply {before later : List ClientEvent} {method : String}
    {kwargs : List (String × PyObject)}
    (hrunning : (run M (before ++ .invoke method kwargs :: later)).task =
      .running) {value : PyObject} {reply : Reply}
    (hreceived : .receive value ∈ later)
    (hreply : replyTo (run M before).initialNonce value = some reply) :
    (∃ call, (run M (before ++ .invoke method kwargs :: later)).calls[
        (run M before).calls.length]? = some call ∧ call.state = .left) ∨
      ∃ reply, (run M (before ++ .invoke method kwargs :: later)).futures[
        (run M before).initialNonce]? = some (.result reply) := by
  have hroutes : Routes M (before ++ .invoke method kwargs :: later) := by
    apply routes_of_accepts
    intro earlier event rest hsplit
    apply accepts_of_running
    rw [← hsplit]
    exact hrunning
  have hbefore : (run M before).task = .running := by
    rw [run_append] at hrunning
    exact running_of_foldl hrunning
  obtain ⟨call, status, hcall, hnonce, hfuture, hsettled⟩ :=
    hroutes.settled before method kwargs later rfl hbefore
  have hnumbers := (run_consistent (M := M) _).call_eq hcall
  rw [hnumbers.2, ← hnumbers.1, hnonce] at hfuture
  by_cases hleft : call.state = .left
  · exact .inl ⟨call, hcall, hleft⟩
  · have hall : later.takeWhile (fun event => !event.ends) = later := by
      rw [List.takeWhile_eq_self_iff]
      intro event hevent
      rw [ends_of_running hrunning event (List.mem_append_right _
        (List.mem_cons_of_mem _ hevent))]
      rfl
    have hmem : reply ∈ repliesTo call.nonce later := by
      unfold repliesTo
      rw [hall, hnonce, List.mem_filterMap]
      exact ⟨_, hreceived, hreply⟩
    cases hreplies : repliesTo call.nonce later with
    | nil =>
        rw [hreplies] at hmem
        cases hmem
    | cons first rest =>
        have hhead : (repliesTo call.nonce later).head? = some first := by
          rw [hreplies]
          rfl
        rw [hsettled.routed first hhead hleft] at hfuture
        exact .inr ⟨first, hfuture⟩

end NonceWatcher

/-- The client's task runs as long as the connection is open. -/
def Connection.Runs (M : Messaging) (conn : Connection) : Prop :=
  conn.isOpen = true → (NonceWatcher.run M conn.events).task = .running

namespace RemoteSystem

variable {proxies : ι → Prop} [DecidableEq ι] {sys sys' : RemoteSystem σ ι}
  {c : ι}

/-- A proxy receives nothing that ends its task. -/
theorem Inv.routable (hM : M.Lawful) (h : Inv M service s₀ proxies sys)
    (hproxy : proxies c) {value : PyObject} {rest : Bytes}
    (hread : readMessage M (sys.connections c).toClient =
      .ok (value, rest)) : Routable value := by
  obtain ⟨waiting, hvalues, hwaiting⟩ := (h.connection c hproxy).responses
  obtain ⟨later, rfl, -⟩ := hwaiting.read hread
  have hmem : value ∈ received (sys.connections c).events ++ value :: later :=
    List.mem_append_right _ List.mem_cons_self
  obtain ⟨frame, hframe, hcarries⟩ := hvalues.exists_of_mem_right hmem
  obtain ⟨_, _, _, _, _, -, -, hn, hframes, hwritten⟩ :=
    h.exists_sent hproxy hframe
  exact routable_of_response hM hframes hwritten hcarries hn

theorem runs_update (h : ∀ c, proxies c → (sys.connections c).Runs M)
    {conn : Connection} (hconn : proxies c → conn.Runs M) :
    ∀ c', proxies c' → ((sys.update c conn).connections c').Runs M := by
  intro c' hproxy
  rw [update_connections]
  split_ifs with hsame
  · rw [hsame] at hproxy
    exact hconn hproxy
  · exact h c' hproxy

theorem runs_step (hM : M.Lawful) (hdrops : M.DropsItems)
    (h : Inv M service s₀ proxies sys)
    (hruns : ∀ c, proxies c → (sys.connections c).Runs M)
    (hstep : Step M service proxies sys sys') :
    ∀ c, proxies c → (sys'.connections c).Runs M := by
  cases hstep with
  | act c event hproxy hlocal =>
      apply runs_update hruns
      intro _ hopen
      have hbefore := hruns c hproxy hopen
      have hconsistent : (NonceWatcher.run M
        (sys.connections c).events).Consistent := run_consistent _
      unfold Connection.act
      dsimp only
      rw [run_append]
      exact running_of_isLocal hconsistent hbefore hlocal
  | @deliver c value rest hproxy hrunning hread =>
      apply runs_update hruns
      intro _ _
      have hconsistent : (NonceWatcher.run M
        (sys.connections c).events).Consistent := run_consistent _
      unfold Connection.act
      dsimp only
      rw [run_append]
      exact running_of_passes hconsistent hrunning
        ((passes_iff_routable hdrops).mpr (h.routable hM hproxy hread))
  | @hangUp c failure hproxy _ hread hended =>
      apply runs_update hruns
      intro _ hopen
      -- on an open connection there is a message or nothing
      have hopen : (sys.connections c).isOpen = true := hopen
      obtain ⟨waiting, -, hwaiting⟩ := (h.connection c hproxy).responses
      rw [hopen] at hwaiting
      cases waiting with
      | nil =>
          rw [hwaiting.bytes_eq_nil] at hread
          cases hread
          exact absurd rfl (hended hopen)
      | cons value later =>
          obtain ⟨rest, hvalue, -⟩ := hwaiting.exists_read
          rw [hvalue] at hread
          cases hread
  | @serve c message rest hserving hread =>
      unfold handle
      dsimp only
      split
      · apply runs_update
        · exact hruns
        · exact hruns c
      · apply runs_update
        · exact hruns
        · exact hruns c
  | close c sent received =>
      apply runs_update hruns
      intro _ hopen
      cases hopen
  | intrude c bytes hother =>
      apply runs_update hruns
      intro hproxy
      exact absurd hproxy hother

theorem runs_of_run (hM : M.Lawful) (hdrops : M.DropsItems)
    (hrun : Run M service proxies (initial s₀) sys) :
    ∀ c, proxies c → (sys.connections c).Runs M := by
  induction hrun with
  | refl => exact fun _ _ _ => rfl
  | tail hrun hstep ih => exact runs_step hM hdrops (inv_of_run hM hrun) ih hstep

end RemoteSystem

/-! ## Idle connections -/

/-- Nothing is on the way. -/
structure Connection.Idle (conn : Connection) : Prop where
  isOpen : conn.isOpen = true
  toServer : conn.toServer = []
  toClient : conn.toClient = []

/-- The call made after the events `before` has been cancelled or dropped. -/
def Connection.Left (M : Messaging) (conn : Connection)
    (before : List ClientEvent) : Prop :=
  ∃ call, (NonceWatcher.run M conn.events).calls[
    (NonceWatcher.run M before).calls.length]? = some call ∧
      call.state = .left

/-- An answer that can be encoded is a reply when it arrives. -/
theorem ServerEvent.Answerable.exists_reply (hM : M.Lawful)
    {event : ServerEvent ι} (h : event.Answerable M)
    {frames : List (ι × Bytes)} (hframes : framesFor M event = .ok frames)
    {nonce : ℕ} (hnonce : nonceOf event.message = some (.int nonce)) :
    ∃ frame ∈ frames, ∀ value, Carries M frame.2 value →
      ∃ reply, replyTo nonce value = some reply := by
  obtain ⟨items, nonce', answer, msg, hmessage, hnonce', hanswer, hencoded⟩ := h
  have hframe := framesFor_of_answer hmessage hnonce' hanswer hencoded
  obtain rfl := Except.ok.inj (hframes.symm.trans hframe)
  refine ⟨_, List.mem_singleton_self _, ?_⟩
  intro value hcarries
  rcases response_cases hM hframes (List.mem_singleton_self _) hcarries hnonce
    with ⟨text, rfl⟩ | ⟨_, answer, w, -, hanswer, -, -, rfl⟩
  · -- the frame carries the response and no text
    obtain rfl := Option.some.inj (hnonce'.symm.trans hnonce)
    obtain ⟨streamable, _, hstreamable, -, -⟩ :=
      xformToCborMessage_eq_ok_iff.mp hencoded
    have hsame := hcarries.unique (carries_of_frame hM hstreamable hencoded)
    obtain ⟨_, _, -, -, hdict⟩ := (transformToStreamable_two_iff (by
      rcases answerOf_key hanswer with hr | he
      · simp [hr]
      · simp [he])).mp hstreamable
    rw [← hdict] at hsame
    cases hsame
  · exact ⟨_, (replyTo_response (answerOf_key hanswer) w nonce nonce).trans
      (if_pos rfl)⟩

/-- After a call the nonces are larger than its own. -/
theorem later_of_nonce_lt {before later earlier rest : List ClientEvent}
    {method : String} {kwargs : List (String × PyObject)} {value : PyObject}
    (hsplit : before ++ .invoke method kwargs :: later =
      earlier ++ .receive value :: rest)
    (hlt : (NonceWatcher.run M before).initialNonce <
      (NonceWatcher.run M earlier).initialNonce) :
    .receive value ∈ later := by
  rcases List.append_eq_append_iff.mp hsplit with
    ⟨between, hearlier, hrest⟩ | ⟨between, hbefore, -⟩
  · cases between with
    | nil => cases hrest
    | cons first between =>
        rw [List.cons_append] at hrest
        rw [(List.cons.inj hrest).2]
        exact List.mem_append_right _ List.mem_cons_self
  · rw [hbefore, run_append] at hlt
    have hle := (NonceWatcher.run M earlier).initialNonce_le_foldl (M := M)
      between
    exact absurd hlt (not_lt.mpr hle)

namespace RemoteSystem

variable {proxies : ι → Prop} [DecidableEq ι] {sys : RemoteSystem σ ι} {c : ι}
  {before : List ClientEvent} {method : String}
  {kwargs : List (String × PyObject)}

variable (M service s₀) in
/-- The call has been handled, and if it has not left, it has its result
exactly if its message could be answered. -/
def Completed (sys : RemoteSystem σ ι) (c : ι) (before : List ClientEvent)
    (method : String) (kwargs : List (String × PyObject)) : Prop :=
  ∃ earlier message after, sys.served = earlier ++ (c, message) :: after ∧
    (callMessage method (NonceWatcher.run M before).initialNonce
      kwargs).transformToStreamable = .ok message ∧
    (¬ (sys.connections c).Left M before →
      ((∃ reply, (sys.connections c).Gets M before method kwargs reply) ↔
        ServerEvent.Answerable M ⟨message, c, service.api
          (service.stateAfter M s₀ (earlier.map Prod.snd))⟩))

/-- Everything that was sent on an idle connection has been handled and what
came out has been received. -/
theorem Inv.exists_handled (h : Inv M service s₀ proxies sys)
    (hproxy : proxies c) (hserving : sys.serving = true)
    (hidle : (sys.connections c).Idle) {message : PyObject}
    (hsent : message ∈ NonceWatcher.sent M (sys.connections c).events) :
    ∃ earlier after frames, sys.served = earlier ++ (c, message) :: after ∧
      framesFor M ⟨message, c, service.api
        (service.stateAfter M s₀ (earlier.map Prod.snd))⟩ = .ok frames ∧
      ∀ frame ∈ frames, ∃ value, Carries M frame.2 value ∧
        .receive value ∈ (sys.connections c).events := by
  obtain ⟨waiting, hall, hwaiting⟩ := (h.connection c hproxy).requests
  rw [hidle.isOpen, hidle.toServer] at hwaiting
  rw [hall, hwaiting.eq_nil, List.append_nil, mem_streamOf] at hsent
  obtain ⟨earlier, after, hserved⟩ := List.append_of_mem hsent
  obtain ⟨answered, written, -, hframes, hwritten, hanswered⟩ :=
    h.server.written
  have hevent := @Service.mem_eventsFrom_of_served M σ ι service s₀ earlier
    after c message
  rw [← hserved, ← hanswered hserving] at hevent
  obtain ⟨frames, hmem, hcome⟩ := hframes.exists_of_mem_left hevent
  refine ⟨earlier, after, frames, hserved, hcome, ?_⟩
  rintro ⟨writer, frame⟩ hframe
  obtain rfl : writer = c := framesFor_writer hcome _ hframe
  have hstream : frame ∈ streamOf writer sys.written := by
    rw [mem_streamOf, hwritten]
    exact List.mem_flatten_of_mem hmem hframe
  obtain ⟨rest, hvalues, hrest⟩ := (h.connection writer hproxy).responses
  rw [hidle.isOpen, hidle.toClient] at hrest
  rw [hrest.eq_nil, List.append_nil] at hvalues
  obtain ⟨value, hvalue, hcarries⟩ := hvalues.exists_of_mem_left hstream
  exact ⟨value, hcarries, mem_received.mp hvalue⟩

/-- A call whose message could be encoded has been sent. -/
theorem mem_sent_of_call {before later : List ClientEvent} {method : String}
    {kwargs : List (String × PyObject)} {message : PyObject} {frame : Bytes}
    (hrunning : (NonceWatcher.run M
      (before ++ .invoke method kwargs :: later)).task = .running)
    (hmessage : (callMessage method (NonceWatcher.run M before).initialNonce
      kwargs).transformToStreamable = .ok message)
    (hencoded : xformToCborMessage M (callMessage method
      (NonceWatcher.run M before).initialNonce kwargs) = .ok frame) :
    message ∈ NonceWatcher.sent M
      (before ++ .invoke method kwargs :: later) := by
  have hbefore : (NonceWatcher.run M before).task = .running := by
    rw [run_append] at hrunning
    exact running_of_foldl hrunning
  unfold NonceWatcher.sent
  rw [sentFrom_append, sentFrom]
  apply List.mem_append_right
  apply List.mem_append_left
  exact mem_sends_iff.mpr
    ⟨method, kwargs, frame, rfl, hbefore, hmessage, hencoded⟩

/-- On an idle connection every call whose message could be encoded is
completed. -/
theorem Inv.completed_of_idle (hM : M.Lawful)
    (h : Inv M service s₀ proxies sys) (hproxy : proxies c)
    (hserving : sys.serving = true) (hidle : (sys.connections c).Idle)
    (hrunning : (NonceWatcher.run M (sys.connections c).events).task = .running)
    {later : List ClientEvent}
    (hcall : (sys.connections c).events =
      before ++ .invoke method kwargs :: later)
    (hencoded : M.Encodes (callMessage method
      (NonceWatcher.run M before).initialNonce kwargs)) :
    Completed M service s₀ sys c before method kwargs := by
  obtain ⟨frame, hencoded⟩ := hencoded
  obtain ⟨message, _, hmessage, -, -⟩ :=
    xformToCborMessage_eq_ok_iff.mp hencoded
  have hsent : message ∈ NonceWatcher.sent M (sys.connections c).events := by
    rw [hcall] at hrunning ⊢
    exact mem_sent_of_call hrunning hmessage hencoded
  obtain ⟨earlier, after, frames, hserved, hframes, hreceived⟩ :=
    h.exists_handled hproxy hserving hidle hsent
  have hnonce := nonceOf_callMessage hmessage
  refine ⟨earlier, message, after, hserved, hmessage, fun hstays => ?_⟩
  constructor
  · rintro ⟨reply, hgets⟩
    obtain ⟨earlier', message', after', hserved', hmessage', hanswerable, -⟩ :=
      h.answered hM hproxy hgets
    obtain rfl := Except.ok.inj (hmessage.symm.trans hmessage')
    obtain ⟨rfl, -⟩ := streamOf_split_unique (fun _ _ hne => hne.symm)
      (h.served_distinct hproxy) hserved hserved' (fun hne => hne rfl)
    exact hanswerable
  · intro hanswerable
    obtain ⟨frame, hframe, hreplies⟩ :=
      hanswerable.exists_reply hM hframes hnonce
    obtain ⟨value, hcarries, hvalue⟩ := hreceived frame hframe
    obtain ⟨reply, hreply⟩ := hreplies value hcarries
    obtain ⟨earlier, rest, hsplit⟩ := List.append_of_mem hvalue
    have hlt := h.causal c hproxy earlier value rest hsplit _ _ hreply
    unfold Connection.Left at hstays
    unfold Connection.Gets
    rw [hcall] at hsplit hrunning hstays ⊢
    rcases result_of_reply hrunning (later_of_nonce_lt hsplit hlt) hreply with
      hleft | ⟨reply, hresult⟩
    · exact absurd hleft hstays
    · exact ⟨reply, ⟨later, rfl⟩, hresult⟩

/-- Nothing is lost: when a connection is idle, every call whose message could
be encoded is completed. -/
theorem idle_calls_answered (hM : M.Lawful) (hdrops : M.DropsItems)
    (hrun : Run M service proxies (initial s₀) sys) (hproxy : proxies c)
    (hserving : sys.serving = true) (hidle : (sys.connections c).Idle)
    {later : List ClientEvent}
    (hcall : (sys.connections c).events =
      before ++ .invoke method kwargs :: later)
    (hencoded : M.Encodes (callMessage method
      (NonceWatcher.run M before).initialNonce kwargs)) :
    Completed M service s₀ sys c before method kwargs := by
  have hrunning := runs_of_run hM hdrops hrun c hproxy hidle.isOpen
  exact (inv_of_run hM hrun).completed_of_idle hM hproxy hserving hidle hrunning
    hcall hencoded

open Reference in
theorem idle_calls_answered_counter :
    Completed cborMessaging counter 0 oneAnswered 0 [] "f" [] := by
  have hcall : (oneAnswered.connections 0).events =
      [] ++ .invoke "f" [] :: [.receive (firstResult 0)] := rfl
  exact idle_calls_answered cborMessaging_lawful cborMessaging_dropsItems
    oneAnswered_run trivial rfl ⟨rfl, rfl, rfl⟩ hcall ⟨_, rfl⟩

end RemoteSystem

end LedgerSim
