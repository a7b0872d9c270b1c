import LedgerSim.CborStream

/-!
# Messages in flight

The bytes between the writer of a socket and its reader are those of the frames
that have not been read.  A connection that breaks loses some of them from the
end; what can still be read is the next message all the same.
-/

namespace LedgerSim

variable {M : Messaging} {intact : Bool} {bytes rest frame : Bytes}
  {messages : List PyObject} {message : PyObject}

theorem IsFrame.ne_nil {blob : Bytes} (h : IsFrame frame blob) : frame ≠ [] := by
  intro hnil
  have hlength := h.length_eq
  rw [hnil, List.length_nil] at hlength
  omega

/-- A frame carries one message. -/
theorem Carries.unique {message' : PyObject} (h : Carries M frame message)
    (h' : Carries M frame message') : message = message' := by
  obtain ⟨blob, hblob, hloads⟩ := h
  obtain ⟨blob', hblob', hloads'⟩ := h'
  rw [hblob.unique hblob', hloads'] at hloads
  exact (Except.ok.inj hloads).symm

variable (M) in
/-- What has been written for the messages, as far as it has not been lost. -/
def InFlight (intact : Bool) (bytes : Bytes) (messages : List PyObject) :
    Prop :=
  ∃ frames, List.Forall₂ (Carries M) frames messages ∧
    bytes <+: frames.flatten ∧ (intact = true → bytes = frames.flatten)

theorem inFlight_nil : InFlight M intact [] [] :=
  ⟨[], .nil, List.prefix_refl _, fun _ => rfl⟩

/-- What is written comes behind the other frames, or is lost if the connection
is broken. -/
theorem InFlight.write (h : InFlight M intact bytes messages)
    {newFrames : List Bytes} {newMessages : List PyObject}
    (hnew : List.Forall₂ (Carries M) newFrames newMessages) :
    InFlight M intact (if intact then bytes ++ newFrames.flatten else bytes)
      (messages ++ newMessages) := by
  obtain ⟨frames, hframes, hbytes, hintact⟩ := h
  refine ⟨frames ++ newFrames, List.rel_append hframes hnew, ?_, ?_⟩
  · rw [List.flatten_append]
    split_ifs with hopen
    · obtain rfl := hintact hopen
      exact List.prefix_refl _
    · exact hbytes.trans (List.prefix_append _ _)
  · intro hopen
    rw [if_pos hopen, List.flatten_append, hintact hopen]

theorem InFlight.broken (h : InFlight M intact bytes messages) (n : ℕ) :
    InFlight M false (bytes.take n) messages := by
  obtain ⟨frames, hframes, hbytes, -⟩ := h
  exact ⟨frames, hframes, (List.take_prefix n bytes).trans hbytes, nofun⟩

/-- What is read is the first of the messages. -/
theorem InFlight.read (h : InFlight M intact bytes messages)
    (hread : readMessage M bytes = .ok (message, rest)) :
    ∃ later, messages = message :: later ∧ InFlight M intact rest later := by
  obtain ⟨frames, hframes, hbytes, hintact⟩ := h
  cases hframes with
  | nil =>
      have hempty : bytes = [] := List.prefix_nil.mp hbytes
      rw [hempty] at hread
      cases hread
  | @cons frame first frames later hcarries hlater =>
      obtain ⟨blob, hframe, hloads⟩ := hcarries
      rw [List.flatten_cons] at hbytes hintact
      by_cases hcut : bytes.length < frame.length
      · -- the first frame is incomplete
        have hstart : bytes = frame.take bytes.length := by
          rw [List.prefix_iff_eq_take.mp hbytes, List.length_take,
            List.take_append_of_le_length (by omega)]
          congr 1
          simp only [List.length_append]
          omega
        rw [hstart, readMessage_cut hframe hcut] at hread
        cases hread
      · obtain ⟨more, rfl⟩ : frame <+: bytes :=
          List.prefix_of_prefix_length_le (List.prefix_append _ _) hbytes
            (not_lt.mp hcut)
        rw [readMessage_frame hframe hloads] at hread
        obtain ⟨rfl, rfl⟩ := Prod.mk.inj (Except.ok.inj hread)
        refine ⟨later, rfl, frames, hlater, ?_, ?_⟩
        · exact (List.prefix_append_right_inj frame).mp hbytes
        · intro hwhole
          exact List.append_cancel_left (hintact hwhole)

/-- On an intact connection the first message can be read. -/
theorem InFlight.exists_read {later : List PyObject}
    (h : InFlight M true bytes (message :: later)) :
    ∃ rest, readMessage M bytes = .ok (message, rest) ∧
      InFlight M true rest later := by
  obtain ⟨frames, hframes, -, hbytes⟩ := h
  cases hframes with
  | @cons frame _ frames _ hcarries hlater =>
      obtain ⟨blob, hframe, hloads⟩ := hcarries
      refine ⟨frames.flatten, ?_, frames, hlater, List.prefix_refl _,
        fun _ => rfl⟩
      rw [hbytes rfl, List.flatten_cons]
      exact readMessage_frame hframe hloads _

theorem InFlight.bytes_eq_nil (h : InFlight M intact bytes []) :
    bytes = [] := by
  obtain ⟨frames, hframes, hbytes, -⟩ := h
  cases hframes
  exact List.prefix_nil.mp hbytes

/-- On an intact connection nothing is left to read only when every message has
been read. -/
theorem InFlight.eq_nil (h : InFlight M true [] messages) : messages = [] := by
  obtain ⟨frames, hframes, -, hbytes⟩ := h
  cases hframes with
  | nil => rfl
  | @cons frame first frames later hcarries _ =>
      obtain ⟨blob, hframe, -⟩ := hcarries
      have hempty := hbytes rfl
      rw [List.flatten_cons] at hempty
      exact absurd (List.append_eq_nil_iff.mp hempty.symm).1 hframe.ne_nil

end LedgerSim
