import ChatServer.Websocket

/-!
# What an event does to a connection

The runs of one connection, and each piece of its code as one equation.
-/

namespace ChatServer.Websocket

variable {host : ByteOrder} {maxPayloadBytes : Nat} {hello : Bytes} {opening : List Job}

/-! ## Runs -/

/-- The connections after the events `es`, which come in any order that the socket, the
`io_context` and the other threads choose, as far as `ok` allows them. `opening` is what the open
handler does with the connection. -/
inductive ReachedBy (ok : Connection → Event → Prop) (host : ByteOrder) (maxPayloadBytes : Nat)
    (hello : Bytes) (opening : List Job) : List Event → Connection → Prop
  | start (isBinary : Bool) : ReachedBy ok host maxPayloadBytes hello opening []
      (.start host (.fresh maxPayloadBytes isBinary) hello opening)
  | step {es : List Event} {c : Connection} {e : Event}
      (h : ReachedBy ok host maxPayloadBytes hello opening es c) (hen : c.Enabled e) (hok : ok c e) :
      ReachedBy ok host maxPayloadBytes hello opening (es ++ [e]) (c.step host e)

abbrev Reached : ByteOrder → Nat → Bytes → List Job → List Event → Connection → Prop :=
  ReachedBy fun _ _ => True

theorem ReachedBy.mono {ok ok' : Connection → Event → Prop} {es : List Event} {c : Connection}
    (h : ReachedBy ok host maxPayloadBytes hello opening es c) (hok : ∀ c e, ok c e → ok' c e) :
    ReachedBy ok' host maxPayloadBytes hello opening es c := by
  induction h with
  | start isBinary => exact .start isBinary
  | step _ hen he ih => exact .step ih hen (hok _ _ he)

/-! ## Schedules -/

instance : (job : Job) → Decidable job.Fits
  | .send opcode payload => inferInstanceAs (Decidable (opcode < 16 ∧ payload.length < 256 ^ 8))
  | .close msg _ => inferInstanceAs (Decidable (msg.length + 2 < 256 ^ 8))

instance (c : Connection) : (e : Event) → Decidable (c.Enabled e)
  | .post job => inferInstanceAs (Decidable (c.deleted = false ∧ job.Fits))
  | .close msg _ => inferInstanceAs (Decidable (c.deleted = false ∧ msg.length + 2 < 256 ^ 8))
  | .run => inferInstanceAs (Decidable (c.deleted = false ∧ c.posted ≠ []))
  | .read bytes => inferInstanceAs (Decidable (∃ d ∈ c.reading, d.admits bytes))
  | .readError => inferInstanceAs (Decidable (c.reading ≠ none))
  | .written _ => inferInstanceAs (Decidable (c.outbox.writing = true))

/-- The events of a schedule can happen to the connection, one after the other. -/
def Connection.Replays (ok : Connection → Event → Prop) (host : ByteOrder) :
    Connection → List Event → Prop
  | _, [] => True
  | c, e :: es => c.Enabled e ∧ ok c e ∧ Replays ok host (c.step host e) es

instance decidableReplays {ok : Connection → Event → Prop} [∀ c e, Decidable (ok c e)] :
    (c : Connection) → (es : List Event) → Decidable (c.Replays ok host es)
  | _, [] => .isTrue trivial
  | c, e :: es =>
    have : Decidable ((c.step host e).Replays ok host es) := decidableReplays _ es
    inferInstanceAs (Decidable (_ ∧ _ ∧ _))

theorem ReachedBy.replays {ok : Connection → Event → Prop} {es es' : List Event} {c : Connection}
    (h : ReachedBy ok host maxPayloadBytes hello opening es c) (hes' : c.Replays ok host es') :
    ReachedBy ok host maxPayloadBytes hello opening (es ++ es') (es'.foldl (Connection.step host) c) := by
  induction es' generalizing es c with
  | nil => simpa using h
  | cons e es' ih =>
    obtain ⟨hen, hok, hrest⟩ := hes'
    rw [List.append_cons]
    exact ih (.step h hen hok) hrest

/-- A connection with the limit that Crow has by default, after the events of a schedule. -/
def Connection.played (es : List Event) : Connection :=
  es.foldl (step .little) (.start .little (.fresh (256 ^ 8 - 1) false) (ascii "x") [])

theorem reachedBy_played {ok : Connection → Event → Prop} {es : List Event}
    (h : (Connection.played []).Replays ok .little es) :
    ReachedBy ok .little (256 ^ 8 - 1) (ascii "x") [] es (.played es) :=
  (ReachedBy.start false).replays h

/-- A client sends the bytes 5 and 6, and closes. -/
def sendsAndCloses : List Event :=
  [.written true, .read [0x82, 0x82], .read [1, 2, 3, 4], .read [4, 4],
    .read [0x88, 0x80], .read [1, 2, 3, 4], .read [], .written true]

namespace Connection

/-! ## What the parts do -/

section Equations

variable (c : Connection)

theorem checkDestroy_eq (code : UInt16) : c.checkDestroy code = { c with
    calls := if c.isCloseHandlerCalled then c.calls else c.calls ++ [.closed (ascii "uncleanly") code]
    deleted := c.deleted || decide (c.outbox.sendingBuffers = [] ∧ ¬ c.isReading) } := by
  obtain ⟨o, _, _, _, isReading, _, _, _, called, _⟩ := c
  unfold checkDestroy closeHandler
  cases isReading <;> cases called <;> rcases hs : o.sendingBuffers with _ | _ <;> simp [hs]

theorem closeImpl_eq (host : ByteOrder) (msg : Bytes) (statusCode : UInt16) :
    closeImpl host c msg statusCode = { c with
      hasSentClose := true
      isCloseHandlerCalled := c.isCloseHandlerCalled || c.hasRecvClose
      calls := if c.hasRecvClose ∧ ¬ c.isCloseHandlerCalled then c.calls ++ [.closed msg statusCode]
        else c.calls
      outbox := c.outbox.sendClose host msg statusCode } := by
  obtain ⟨_, _, _, _, _, _, hasRecvClose, _, called, _⟩ := c
  cases hasRecvClose <;> cases called <;> rfl

end Equations

/-! ## The next read -/

/-- What is asked for in each state of reading. -/
def demand (i : Inbox) : Demand :=
  match i.state with
  | .miniHeader => .upTo 2
  | .len16 => .exactly 2
  | .len64 => .exactly 8
  | .mask => .exactly 4
  | .payload => .upTo (min bufferSize i.remainingLength)

/-- What `do_read` does before it asks. -/
def prepare (i : Inbox) : Inbox :=
  match i.state with
  | .miniHeader => { i with miniHeader := 0 }
  | .len16 => { i with remainingLength := 0 }
  | .mask => if i.hasMask then i else { i with state := .payload }
  | _ => i

/-- The payload that is announced is larger than the limit. -/
def TooBig (c : Connection) : Prop :=
  c.inbox.state = .mask ∧ c.maxPayloadBytes < c.inbox.remainingLength

instance (c : Connection) : Decidable c.TooBig := inferInstanceAs (Decidable (_ ∧ _))

/-- `do_read` ends the connection, refuses it, or asks. -/
theorem doRead_eq (c : Connection) : c.doRead =
    if c.hasSentClose ∧ c.hasRecvClose then
      { c with closeConnection := true }.checkDestroy CloseStatusCode.closedAbnormally
    else if c.TooBig then
      { c with isReading := true, closeConnection := true }.checkDestroy CloseStatusCode.messageTooBig
    else { c with inbox := prepare c.inbox }.ask (demand (prepare c.inbox)) := by
  obtain ⟨o, ⟨_, _, _, state, length, hasMask, _, _⟩, limit, _⟩ := c
  unfold doRead
  refine if_congr Iff.rfl rfl ?_
  cases state with
  | mask =>
    by_cases hbig : length > limit
    · exact (if_pos hbig).trans (if_pos ⟨rfl, hbig⟩).symm
    · cases hasMask <;> exact (if_neg hbig).trans (if_neg fun h => hbig h.2).symm
  | _ =>
    refine (if_neg ?_).symm
    rintro ⟨h, -⟩
    cases h

theorem prepare_remainingLength_le (i : Inbox) : (prepare i).remainingLength ≤ i.remainingLength := by
  unfold prepare
  split
  · exact le_rfl
  · exact Nat.zero_le _
  · split <;> exact le_rfl
  · exact le_rfl

theorem doRead_remainingLength_le (c : Connection) :
    c.doRead.inbox.remainingLength ≤ c.inbox.remainingLength := by
  rw [doRead_eq]
  split
  · rw [checkDestroy_eq]
  · split
    · rw [checkDestroy_eq]
    · exact prepare_remainingLength_le _

theorem doRead_inbox_of_tooBig {c : Connection} (h : c.TooBig) : c.doRead.inbox = c.inbox := by
  rw [doRead_eq]
  split
  · rw [checkDestroy_eq]
  · rw [checkDestroy_eq]

/-- What the handling of a frame leaves alone. -/
structure SameSizes (c c' : Connection) : Prop where
  remainingLength : c'.inbox.remainingLength = c.inbox.remainingLength
  maxPayloadBytes : c'.maxPayloadBytes = c.maxPayloadBytes
  taken : c'.taken = c.taken

theorem SameSizes.unmaskFragment (c : Connection) : SameSizes c c.unmaskFragment := by
  unfold Connection.unmaskFragment
  split <;> exact ⟨rfl, rfl, rfl⟩

theorem SameSizes.handleFragment (c : Connection) : SameSizes c (handleFragment host c).1 := by
  suffices h : SameSizes c.unmaskFragment (Connection.handleFragment host c).1 by
    have hsame := SameSizes.unmaskFragment c
    exact ⟨h.1.trans hsame.1, h.2.trans hsame.2, h.3.trans hsame.3⟩
  unfold Connection.handleFragment handleClose joinFragment
  dsimp only
  generalize c.unmaskFragment = d
  split
  · split <;> exact ⟨rfl, rfl, rfl⟩
  · split <;> exact ⟨rfl, rfl, rfl⟩
  · split <;> exact ⟨rfl, rfl, rfl⟩
  · split
    · rw [closeImpl_eq]
      exact ⟨rfl, rfl, rfl⟩
    · split
      · rw [checkDestroy_eq]
        exact ⟨rfl, rfl, rfl⟩
      · rw [checkDestroy_eq]
        exact ⟨rfl, rfl, rfl⟩
  · exact ⟨rfl, rfl, rfl⟩
  · exact ⟨rfl, rfl, rfl⟩
  · exact ⟨rfl, rfl, rfl⟩

end Connection

/-- The messages that the application has got. -/
def messages (calls : List HandlerCall) : List (Bytes × Bool) :=
  calls.filterMap fun
    | .message data isBinary => some (data, isBinary)
    | _ => none

namespace Connection

/-- Nothing has been read between the two. -/
structure SameReading (c c' : Connection) : Prop where
  taken : c'.taken = c.taken
  maxPayloadBytes : c'.maxPayloadBytes = c.maxPayloadBytes
  messages : messages c'.calls = messages c.calls
  hasRecvClose : c'.hasRecvClose = c.hasRecvClose

/-- Nothing has been read, and nothing is new for the next read. -/
structure SameInbox (c c' : Connection) : Prop extends SameReading c c' where
  inbox : c'.inbox = c.inbox
  reading : c.reading = none → c'.reading = none

namespace SameInbox

variable {c c' c'' : Connection}

theorem of_eq (htaken : c'.taken = c.taken) (hmax : c'.maxPayloadBytes = c.maxPayloadBytes)
    (hmessages : Websocket.messages c'.calls = Websocket.messages c.calls)
    (hrecv : c'.hasRecvClose = c.hasRecvClose) (hinbox : c'.inbox = c.inbox)
    (hreading : c'.reading = c.reading) : SameInbox c c' :=
  ⟨⟨htaken, hmax, hmessages, hrecv⟩, hinbox, hreading.trans⟩

theorem refl (c : Connection) : SameInbox c c := .of_eq rfl rfl rfl rfl rfl rfl

protected theorem trans (h : SameInbox c c') (h' : SameInbox c' c'') : SameInbox c c'' :=
  ⟨⟨h'.taken.trans h.taken, h'.maxPayloadBytes.trans h.maxPayloadBytes,
    h'.messages.trans h.messages, h'.hasRecvClose.trans h.hasRecvClose⟩, h'.inbox.trans h.inbox,
    h'.reading ∘ h.reading⟩

theorem checkDestroy (h : SameInbox c c') (code : UInt16) : SameInbox c (c'.checkDestroy code) := by
  apply h.trans
  rw [checkDestroy_eq]
  refine .of_eq rfl rfl ?_ rfl rfl rfl
  dsimp only
  split
  · rfl
  · simp [Websocket.messages]

theorem closeImpl (h : SameInbox c c') (msg : Bytes) (statusCode : UInt16) :
    SameInbox c (closeImpl host c' msg statusCode) := by
  apply h.trans
  rw [closeImpl_eq]
  refine .of_eq rfl rfl ?_ rfl rfl rfl
  dsimp only
  split
  · simp [Websocket.messages]
  · rfl

theorem perform (h : SameInbox c c') (job : Job) : SameInbox c (perform host c' job) := by
  cases job with
  | send opcode payload => exact h.trans (.of_eq rfl rfl rfl rfl rfl rfl)
  | close msg statusCode => exact h.closeImpl msg statusCode

theorem runJob (h : SameInbox c c') (job : Job) : SameInbox c (runJob host c' job) := by
  cases job with
  | send opcode payload => exact h.trans (.of_eq rfl rfl rfl rfl rfl rfl)
  | close msg statusCode => exact h.closeImpl msg statusCode

theorem onWritten (c : Connection) (ok : Bool) : SameInbox c (c.onWritten ok) := by
  unfold Connection.onWritten
  dsimp only
  split
  · split
    · split <;> exact .of_eq rfl rfl rfl rfl rfl rfl
    · split <;> exact .of_eq rfl rfl rfl rfl rfl rfl
  · split
    · exact .of_eq rfl rfl rfl rfl rfl rfl
    · apply SameInbox.checkDestroy
      exact .of_eq rfl rfl rfl rfl rfl rfl

/-- Only a read that brings something changes what has been read. -/
theorem step (c : Connection) {e : Event} (he : ∀ bytes, e ≠ .read bytes) :
    SameInbox c (c.step host e) := by
  cases e with
  | post job => exact .of_eq rfl rfl rfl rfl rfl rfl
  | close msg statusCode => exact (refl c).closeImpl msg statusCode
  | run =>
    unfold Connection.step
    dsimp only
    split
    · exact .refl c
    · apply SameInbox.runJob
      exact .of_eq rfl rfl rfl rfl rfl rfl
  | read bytes => exact absurd rfl (he bytes)
  | readError =>
    apply SameInbox.checkDestroy
    exact ⟨⟨rfl, rfl, rfl, rfl⟩, rfl, fun _ => rfl⟩
  | written ok => exact .onWritten c ok

end SameInbox

theorem SameReading.doRead (c : Connection) : SameReading c c.doRead := by
  rw [doRead_eq]
  split
  · apply SameInbox.toSameReading
    apply SameInbox.checkDestroy
    exact .of_eq rfl rfl rfl rfl rfl rfl
  · split
    · apply SameInbox.toSameReading
      apply SameInbox.checkDestroy
      exact .of_eq rfl rfl rfl rfl rfl rfl
    · exact ⟨rfl, rfl, rfl, rfl⟩

/-- The connection as the open handler leaves it. -/
theorem opened_start (host : ByteOrder) (maxPayloadBytes : Nat) (hello : Bytes) (opening : List Job)
    (isBinary : Bool) : ∃ c, SameInbox (.fresh maxPayloadBytes isBinary) c ∧
    start host (.fresh maxPayloadBytes isBinary) hello opening = c.doRead := by
  refine ⟨_, ?_, rfl⟩
  refine List.foldlRecOn opening (Connection.perform host) ?_ fun c hc job _ => hc.perform job
  exact .of_eq rfl rfl rfl rfl rfl rfl

/-! ## What only grows -/

/-- The records of the calls and of the frames only grow. -/
structure Grows (c c' : Connection) : Prop where
  calls : c.calls <+: c'.calls
  frames : c.outbox.frames <+: c'.outbox.frames

namespace Grows

variable {c c' : Connection}

theorem refl (c : Connection) : Grows c c := ⟨List.prefix_refl _, List.prefix_refl _⟩

theorem append (h : Grows c c') {d : Connection} {calls : List HandlerCall} {frames : List (Nat × Bytes)}
    (hcalls : d.calls = c'.calls ++ calls) (hframes : d.outbox.frames = c'.outbox.frames ++ frames) :
    Grows c d := by
  refine ⟨?_, ?_⟩
  · rw [hcalls]
    exact h.calls.trans (List.prefix_append _ _)
  · rw [hframes]
    exact h.frames.trans (List.prefix_append _ _)

theorem congr (h : Grows c c') {d : Connection} (hcalls : d.calls = c'.calls)
    (hframes : d.outbox.frames = c'.outbox.frames) : Grows c d :=
  h.append (hcalls.trans (List.append_nil _).symm) (hframes.trans (List.append_nil _).symm)

theorem doWrite_frames (o : Outbox) : o.doWrite.frames = o.frames := by
  unfold Outbox.doWrite
  split <;> rfl

theorem checkDestroy (h : Grows c c') (code : UInt16) : Grows c (c'.checkDestroy code) := by
  rw [checkDestroy_eq]
  split
  · exact h.congr rfl rfl
  · exact h.append rfl (List.append_nil _).symm

theorem closeImpl (h : Grows c c') (msg : Bytes) (statusCode : UInt16) :
    Grows c (closeImpl host c' msg statusCode) := by
  rw [closeImpl_eq]
  split
  · exact h.append rfl (doWrite_frames _)
  · exact h.append (List.append_nil _).symm (doWrite_frames _)

theorem doRead (h : Grows c c') : Grows c c'.doRead := by
  rw [doRead_eq]
  split
  · apply checkDestroy
    exact h.congr rfl rfl
  · split
    · apply checkDestroy
      exact h.congr rfl rfl
    · exact h.congr rfl rfl

theorem joinFragment (h : Grows c c') : Grows c c'.joinFragment := by
  unfold Connection.joinFragment
  dsimp only
  split
  · exact h.append rfl (List.append_nil _).symm
  · exact h.congr rfl rfl

theorem handleFragment (h : Grows c c') : Grows c (handleFragment host c').1 := by
  replace h : Grows c c'.unmaskFragment := by
    unfold unmaskFragment
    split
    · exact h.congr rfl rfl
    · exact h
  unfold Connection.handleFragment
  dsimp only
  generalize c'.unmaskFragment = d at h
  have hjoin (b : Bool) : Grows c { d with inbox.isBinary := b }.joinFragment := by
    apply joinFragment
    exact h.congr rfl rfl
  split
  · exact h.joinFragment.congr rfl rfl
  · exact (hjoin false).congr rfl rfl
  · exact (hjoin true).congr rfl rfl
  · unfold handleClose
    dsimp only
    split
    · have hclose := @closeImpl host c { d with hasRecvClose := true } (h.congr rfl rfl)
        (closeReason d.inbox.fragment) (closeStatus host d.inbox.fragment)
      exact hclose.congr rfl rfl
    · apply checkDestroy
      split
      · exact h.congr rfl rfl
      · exact h.append rfl (List.append_nil _).symm
  · exact h.congr rfl rfl
  · exact h.congr rfl rfl
  · exact h.congr rfl rfl

theorem onWritten (c : Connection) (ok : Bool) : Grows c (c.onWritten ok) := by
  have h := refl c
  unfold Connection.onWritten
  dsimp only
  split
  · split
    · split <;> exact h.congr rfl (doWrite_frames _)
    · split <;> exact h.congr rfl rfl
  · split
    · exact h.congr rfl rfl
    · apply checkDestroy
      exact h.congr rfl rfl

theorem onRead (c : Connection) (bytes : Bytes) : Grows c (onRead host c bytes) := by
  have hread {d : Connection} (hcalls : d.calls = c.calls)
      (hframes : d.outbox.frames = c.outbox.frames) : Grows c d.doRead :=
    ((refl c).congr hcalls hframes).doRead
  unfold Connection.onRead
  dsimp only
  split
  · unfold onMiniHeader
    dsimp only
    split
    · exact hread rfl rfl
    · split <;> exact hread rfl rfl
  · exact hread rfl rfl
  · exact hread rfl rfl
  · exact hread rfl rfl
  · unfold onPayload
    dsimp only
    split
    · have hsame (i : Inbox) : Grows c { c with
          isReading := false, reading := none, taken := c.taken ++ bytes, inbox := i } :=
        (refl c).congr rfl rfl
      have hfragment := @handleFragment host _ _ (hsame { c.inbox with
        fragment := c.inbox.fragment ++ bytes
        remainingLength := c.inbox.remainingLength - bytes.length })
      split
      · apply doRead
        exact hfragment.congr rfl rfl
      · exact hfragment
    · exact hread rfl rfl

theorem step (c : Connection) (e : Event) : Grows c (c.step host e) := by
  have h := refl c
  cases e with
  | post job => exact h.congr rfl rfl
  | close msg statusCode => exact h.closeImpl msg statusCode
  | run =>
    unfold Connection.step
    dsimp only
    split
    · exact h
    · rename_i job rest _
      cases job with
      | send opcode payload => exact h.append (List.append_nil _).symm (doWrite_frames _)
      | close msg statusCode =>
        apply closeImpl
        exact h.congr rfl rfl
  | read bytes => exact onRead c bytes
  | readError =>
    apply checkDestroy
    exact h.congr rfl rfl
  | written ok => exact onWritten c ok

end Grows

end Connection

end ChatServer.Websocket
