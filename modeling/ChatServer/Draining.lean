import ChatServer.Closing
import ChatServer.Outgoing

/-!
# Nothing stays unsent

While the socket takes what it is given, a connection has only so much to do until its client can
read all that was sent to it.
-/

namespace ChatServer.Websocket

variable {host : ByteOrder} {maxPayloadBytes : Nat} {hello : Bytes} {opening : List Job}
  {es : List Event} {c : Connection} {e : Event}

/-- The socket takes what it was given, or the `io_context` runs what was posted. -/
def Event.Drains : Event → Prop
  | .run | .written true => True
  | _ => False

/-! ## The backlog -/

/-- How many writes are to come, with the one that is going on. -/
def Outbox.backlog (o : Outbox) : Nat :=
  (if o.writeBuffers = [] then 0 else 1) + if o.writing then 1 else 0

/-- A write takes all that waits, or it waits for the one that is going on. -/
theorem Outbox.backlog_doWrite (o : Outbox) (buffers : List Bytes) (frames : List (Nat × Bytes)) :
    (doWrite { o with writeBuffers := o.writeBuffers ++ buffers, frames := frames }).backlog ≤
      o.backlog + 1 := by
  unfold doWrite
  split
  · simp [backlog]
  · simp only [backlog]
    split <;> split <;> omega

namespace Connection

/-- How often something can happen at most until all is written. -/
def backlog (c : Connection) : Nat := 2 * c.posted.length + c.outbox.backlog

theorem backlog_run (c : Connection) (job : Job) :
    (runJob host c job).backlog ≤ c.backlog + 1 := by
  cases job with
  | send opcode payload =>
    have h := c.outbox.backlog_doWrite [Outbox.buildHeader host opcode payload.length, payload]
      (c.outbox.frames ++ [(opcode, payload)])
    simp only [runJob, backlog, Outbox.sendDataImpl]
    omega
  | close msg statusCode =>
    have h := c.outbox.backlog_doWrite
      [Outbox.buildHeader host 8 (msg.length + 2), Outbox.statusBytes host statusCode, msg]
      (c.outbox.frames ++ [(8, Outbox.statusBytes host statusCode ++ msg)])
    rw [runJob, closeImpl_eq]
    simp only [backlog, Outbox.sendClose]
    omega

theorem backlog_onWritten (hwriting : c.outbox.writing = true) (ok : Bool) :
    (c.onWritten ok).backlog < c.backlog := by
  unfold onWritten
  dsimp only
  split
  · split
    · rename_i hwaits
      have hwrite :
          (Outbox.doWrite { c.outbox with sendingBuffers := [], writing := false }).backlog = 1 := by
        simp [Outbox.doWrite, Outbox.backlog]
      split <;> simp_all [backlog, Outbox.backlog]
    · split <;> simp_all [backlog, Outbox.backlog]
  · split
    · simp [backlog, Outbox.backlog, hwriting]
    · rw [checkDestroy_eq]
      simp [backlog, Outbox.backlog, hwriting]

/-- Whatever happens, there is less left to do. -/
theorem backlog_step (he : e.Drains) (hen : c.Enabled e) : (c.step host e).backlog < c.backlog := by
  cases e with
  | run =>
    obtain ⟨job, rest, hposted⟩ := List.exists_cons_of_ne_nil hen.2
    have hjob : (runJob host { c with posted := rest } job).backlog ≤ _ + 1 :=
      backlog_run { c with posted := rest } job
    simp only [step, hposted]
    refine hjob.trans_lt ?_
    simp only [backlog, hposted, List.length_cons]
    omega
  | written ok => exact backlog_onWritten hen ok
  | _ => cases he

/-! ## Open connections -/

/-- Nobody has closed, and nothing has failed. -/
structure Flowing (c : Connection) : Prop where
  present : c.deleted = false
  connected : c.closeConnection = false
  unclosed : c.hasSentClose = false
  sends : ∀ job ∈ c.posted, job.IsSend

theorem Flowing.step (h : c.Flowing) (he : e.Drains) : (c.step host e).Flowing := by
  obtain ⟨hpresent, hconnected, hunclosed, hsends⟩ := h
  cases e with
  | run =>
    unfold Connection.step
    dsimp only
    split
    · exact ⟨hpresent, hconnected, hunclosed, hsends⟩
    · rename_i job rest hposted
      rw [hposted, List.forall_mem_cons] at hsends
      cases job with
      | send opcode payload => exact ⟨hpresent, hconnected, hunclosed, hsends.2⟩
      | close msg statusCode => cases hsends.1
  | written ok =>
    cases ok with
    | false => cases he
    | true =>
      unfold Connection.step onWritten
      simp only [hconnected, hunclosed, Bool.false_eq_true, not_false_eq_true, and_self, if_true]
      split
      · rw [if_neg (by simp)]
        exact ⟨hpresent, rfl, rfl, hsends⟩
      · rw [if_neg (by simp)]
        exact ⟨hpresent, rfl, rfl, hsends⟩
  | _ => cases he

theorem Flowing.foldl (h : c.Flowing) (hes : ∀ e ∈ es, e.Drains) :
    (es.foldl (Connection.step host) c).Flowing := by
  induction es generalizing c with
  | nil => exact h
  | cons e es ih =>
    obtain ⟨he, hes⟩ := List.forall_mem_cons.mp hes
    exact ih (h.step he) hes

/-- A schedule is no longer than the backlog. -/
theorem length_le_backlog (hes : ∀ e ∈ es, e.Drains) (hreplays : c.Replays (fun _ _ => True) host es) :
    es.length ≤ c.backlog := by
  induction es generalizing c with
  | nil => exact Nat.zero_le _
  | cons e es ih =>
    obtain ⟨hen, -, hrest⟩ := hreplays
    obtain ⟨he, hes⟩ := List.forall_mem_cons.mp hes
    have hless : (c.step host e).backlog < c.backlog := backlog_step he hen
    have hlength := ih hes hrest
    rw [List.length_cons]
    omega

end Connection

theorem posts_of_drains {es' : List Event} (h : ∀ e ∈ es', e.Drains) : posts (es ++ es') = posts es := by
  have hnone : posts es' = [] := by
    apply List.filterMap_eq_nil_iff.mpr
    intro e he
    have hdrains := h e he
    cases e with
    | post job => cases hdrains
    | _ => rfl
  unfold posts at hnone ⊢
  rw [List.filterMap_append, hnone, List.append_nil]

/-! ## Results -/

/-- **Everything arrives.** Nobody closes, and the socket takes what it is given. In whatever order
its writes end and what was posted runs, this comes to an end after at most `backlog` of these
events, and then the client can read all that was sent to it. -/
theorem everything_arrives (h : Reached host maxPayloadBytes hello opening es c)
    (hopening : ∀ job ∈ opening, job.Fits) (hc : c.Flowing) {es' : List Event}
    (hdrains : ∀ e ∈ es', e.Drains) (hes' : c.Replays (fun _ _ => True) host es') :
    es'.length ≤ c.backlog ∧
      ((∀ e, e.Drains → ¬ (es'.foldl (Connection.step host) c).Enabled e) →
        ∃ fs : List WireFrame, (es'.foldl (Connection.step host) c).outbox.wire =
            handshake hello ++ fs.flatMap WireFrame.bytes ∧
          (fs.map WireFrame.content).filter isData = sent (opening ++ posts es)) := by
  have h' := h.replays hes'
  have hflowing : (es'.foldl (Connection.step host) c).Flowing := hc.foldl hdrains
  refine ⟨Connection.length_le_backlog hdrains hes', fun hdone => ?_⟩
  have hposted : (es'.foldl (Connection.step host) c).posted = [] := by
    by_contra hne
    exact hdone .run trivial ⟨hflowing.present, hne⟩
  have hidle : (es'.foldl (Connection.step host) c).outbox.writing = false :=
    Bool.eq_false_of_not_eq_true (hdone (.written true) trivial)
  have hposts : posts (es ++ es') = posts es := posts_of_drains hdrains
  rw [← hposts]
  exact (h'.sends hopening).flushed h'.settled hflowing.connected hidle hposted

/-- A text is sent while the handshake is on its way. -/
def sendsEarly : List Event := [.post (.send 1 (ascii "a"))]

def takesAll : List Event := [.written true, .run, .written true]

theorem everything_arrives_text : ∃ c, Reached .little (256 ^ 8 - 1) (ascii "x") [] sendsEarly c ∧
    c.backlog = takesAll.length ∧
      ∃ fs : List WireFrame, (takesAll.foldl (Connection.step .little) c).outbox.wire =
          handshake (ascii "x") ++ fs.flatMap WireFrame.bytes ∧
        (fs.map WireFrame.content).filter isData = [(1, ascii "a")] := by
  have h : Reached .little (256 ^ 8 - 1) (ascii "x") [] sendsEarly (.played sendsEarly) :=
    reachedBy_played (by decide +kernel)
  have hflowing : (Connection.played sendsEarly).Flowing := by
    refine ⟨by decide +kernel, by decide +kernel, by decide +kernel, fun job hjob => ?_⟩
    obtain rfl : job = .send 1 (ascii "a") := List.mem_singleton.mp hjob
    trivial
  have hdrains : ∀ e ∈ takesAll, e.Drains := by simp [takesAll, Event.Drains]
  have hreplays : (Connection.played sendsEarly).Replays (fun _ _ => True) .little takesAll := by
    decide +kernel
  obtain ⟨-, hall⟩ := everything_arrives h (by simp) hflowing hdrains hreplays
  refine ⟨_, h, by decide +kernel, hall fun e he => ?_⟩
  cases e with
  | run => decide +kernel
  | written ok =>
    cases ok with
    | false => cases he
    | true => decide +kernel
  | _ => cases he

end ChatServer.Websocket
