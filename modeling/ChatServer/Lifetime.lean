import ChatServer.WebsocketSteps

/-!
# The life of a connection

Reads and writes complete when they like, and a connection deletes itself in the middle of its own
code. Nothing is left that could touch it then, nothing keeps it when the socket is gone, and the
handlers hear of its beginning once and of its end at least once. All this rests on an open handler
that returns: when it throws, the object goes at once, unreported, while a write is under way.
-/

namespace ChatServer.Websocket

variable {host : ByteOrder} {maxPayloadBytes : Nat} {hello : Bytes} {opening : List Job}

/-! ## The buffers -/

namespace Outbox

/-- A write is on its way if and only if there are buffers in it. -/
def Busy (o : Outbox) : Prop := o.writing = true ↔ o.sendingBuffers ≠ []

theorem Busy.doWrite {o : Outbox} (h : o.Busy) (hne : o.writeBuffers ≠ []) :
    o.doWrite.Busy ∧ o.doWrite.sendingBuffers ≠ [] := by
  unfold Outbox.doWrite
  split
  · exact ⟨by simp [Busy, hne], hne⟩
  · rename_i hsending
    exact ⟨h, hsending⟩

theorem Busy.append {o : Outbox} (h : o.Busy) (bs : List Bytes) (hne : bs ≠ [])
    (frames : List (Nat × Bytes)) :
    ({ o with writeBuffers := o.writeBuffers ++ bs, frames := frames } : Outbox).doWrite.Busy ∧
      ({ o with writeBuffers := o.writeBuffers ++ bs, frames := frames } : Outbox).doWrite.sendingBuffers ≠
        [] :=
  Busy.doWrite (o := { o with writeBuffers := o.writeBuffers ++ bs, frames := frames }) h
    (by simp [hne])

theorem Busy.sendDataImpl {o : Outbox} (h : o.Busy) (opcode : Nat) (payload : Bytes) :
    (o.sendDataImpl host opcode payload).Busy ∧
      (o.sendDataImpl host opcode payload).sendingBuffers ≠ [] :=
  h.append _ (by simp) _

theorem Busy.sendClose {o : Outbox} (h : o.Busy) (msg : Bytes) (statusCode : UInt16) :
    (o.sendClose host msg statusCode).Busy ∧ (o.sendClose host msg statusCode).sendingBuffers ≠ [] :=
  h.append _ (by simp) _

end Outbox

namespace Connection

/-! ## Invariants -/

def Closed (c : Connection) : Prop := ∃ reason code, .closed reason code ∈ c.calls

/-- `open_handler_` is the first handler to be called, and it is called once. -/
def OpensFirst (calls : List HandlerCall) : Prop := ∃ rest, calls = .opened :: rest ∧ .opened ∉ rest

theorem OpensFirst.concat {calls : List HandlerCall} (h : OpensFirst calls) {call : HandlerCall}
    (hcall : call ≠ .opened) : OpensFirst (calls ++ [call]) := by
  obtain ⟨rest, rfl, hrest⟩ := h
  refine ⟨rest ++ [call], rfl, ?_⟩
  simp [hrest, hcall.symm]

/-- The connection has been dropped because of the size of a payload, and still counts as reading. -/
def Refused (c : Connection) : Prop :=
  c.TooBig ∧ c.isReading = true ∧ c.reading = none

/-- What holds at all times, also in the middle of an event. -/
structure Tidy (c : Connection) : Prop where
  busy : c.outbox.Busy
  flushed : c.closeConnection = false → c.outbox.sendingBuffers = [] → c.outbox.writeBuffers = []
  called : c.isCloseHandlerCalled = true → c.Closed
  opens : OpensFirst c.calls

/-- What holds in the middle of an event, before the next read. -/
structure Ready (c : Connection) : Prop extends Tidy c where
  present : c.deleted = false
  idle : c.isReading = false
  unasked : c.reading = none
  answered : c.hasRecvClose = true → c.hasSentClose = true

/-- What holds between two events. -/
structure Settled (c : Connection) : Prop extends Tidy c where
  gone : c.deleted = true → c.Closed ∧ c.outbox.sendingBuffers = [] ∧ c.isReading = false
  kept : c.deleted = false → c.isReading = false → c.outbox.sendingBuffers ≠ []
  asked : ∀ d, c.reading = some d → c.isReading = true ∧ d = demand c.inbox
  refused : c.isReading = true → c.reading = none → c.Refused ∧ c.closeConnection = true
  stopped : c.isReading = false → c.closeConnection = true
  ended : c.hasRecvClose = true → c.isReading = false

section Steps

variable {c : Connection}

theorem Closed.mono {c' : Connection} (h : c.Closed) (hsub : c.calls ⊆ c'.calls) : c'.Closed := by
  obtain ⟨reason, code, hmem⟩ := h
  exact ⟨reason, code, hsub hmem⟩

theorem Tidy.inbox (h : c.Tidy) (i : Inbox) : Tidy { c with inbox := i } :=
  ⟨h.busy, h.flushed, h.called, h.opens⟩

theorem Tidy.outbox (h : c.Tidy) {o : Outbox} (ho : o.Busy ∧ o.sendingBuffers ≠ []) :
    Tidy { c with outbox := o } :=
  ⟨ho.1, fun _ hnil => absurd hnil ho.2, h.called, h.opens⟩

theorem Tidy.closeImpl (h : c.Tidy) (msg : Bytes) (statusCode : UInt16) :
    (closeImpl host c msg statusCode).Tidy := by
  rw [closeImpl_eq]
  have ho := @Outbox.Busy.sendClose host _ h.busy msg statusCode
  refine ⟨ho.1, fun _ hnil => absurd hnil ho.2, fun hcalled => ?_, ?_⟩
  · dsimp only at hcalled
    by_cases hold : c.isCloseHandlerCalled = true
    · exact (h.called hold).mono (by simp [hold])
    · have hrecv : c.hasRecvClose = true := by simpa [hold] using hcalled
      exact ⟨msg, statusCode, by simp [hold, hrecv]⟩
  · dsimp only
    split
    · exact h.opens.concat (by simp)
    · exact h.opens

/-- The end of a connection that is about to go. -/
theorem Tidy.checkDestroy (h : c.Tidy) (code : UInt16) (hpresent : c.deleted = false)
    (hclose : c.closeConnection = true)
    (hasked : ∀ d, c.reading = some d → c.isReading = true ∧ d = demand c.inbox)
    (hrefused : c.isReading = true → c.reading = none → c.Refused)
    (hended : c.hasRecvClose = true → c.isReading = false) : (c.checkDestroy code).Settled := by
  have hclosed : (c.checkDestroy code).Closed := by
    rw [checkDestroy_eq]
    by_cases hcalled : c.isCloseHandlerCalled = true
    · exact (h.called hcalled).mono (by simp [hcalled])
    · exact ⟨ascii "uncleanly", code, by simp [hcalled]⟩
  refine { busy := ?_, flushed := ?_, called := fun _ => hclosed, opens := ?_, gone := fun hdel =>
    ⟨hclosed, ?_⟩, kept := ?_, asked := ?_, refused := ?_, stopped := ?_, ended := ?_ }
  all_goals rw [checkDestroy_eq] at *
  · exact h.busy
  · intro hopen
    rw [hclose] at hopen
    cases hopen
  · dsimp only
    split
    · exact h.opens
    · exact h.opens.concat (by simp)
  · simpa [hpresent] using hdel
  · intro hdel hidle hnil
    dsimp only at hdel hidle hnil
    simp [hnil, hidle] at hdel
  · exact hasked
  · exact fun hread hnone => ⟨hrefused hread hnone, hclose⟩
  · exact fun _ => hclose
  · exact hended

theorem Ready.inbox (h : c.Ready) (i : Inbox) : Ready { c with inbox := i } where
  toTidy := h.toTidy.inbox i
  present := h.present
  idle := h.idle
  unasked := h.unasked
  answered := h.answered

theorem Ready.closing (h : c.Ready) : Ready { c with closeConnection := true } where
  busy := h.busy
  flushed := nofun
  called := h.called
  opens := h.opens
  present := h.present
  idle := h.idle
  unasked := h.unasked
  answered := h.answered

theorem Ready.destroy (h : c.Ready) (hclose : c.closeConnection = true) (code : UInt16) :
    (c.checkDestroy code).Settled := by
  apply h.toTidy.checkDestroy code h.present hclose
  · exact fun d hd => absurd hd (by simp [h.unasked])
  · exact fun hread => absurd hread (by simp [h.idle])
  · exact fun _ => h.idle

theorem Ready.ask (h : c.Ready) (hrecv : c.hasRecvClose = false) {i : Inbox} {d : Demand}
    (hd : d = demand i) : ({ c with inbox := i }.ask d).Settled where
  busy := h.busy
  flushed := h.flushed
  called := h.called
  opens := h.opens
  gone hdel := by
    simp [Connection.ask, h.present] at hdel
  kept _ := nofun
  asked d' hd' := ⟨rfl, (Option.some.inj hd').symm.trans hd⟩
  refused _ := nofun
  stopped := nofun
  ended hend := by
    simp [Connection.ask, hrecv] at hend

theorem Ready.doRead (h : c.Ready) : c.doRead.Settled := by
  rw [doRead_eq]
  split
  · exact h.closing.destroy rfl _
  · rename_i hopen
    have hrecv : c.hasRecvClose = false := by
      by_contra hrecv
      rw [Bool.not_eq_false] at hrecv
      exact hopen ⟨h.answered hrecv, hrecv⟩
    split
    · rename_i hbig
      apply Tidy.checkDestroy
      · exact ⟨h.busy, nofun, h.called, h.opens⟩
      · exact h.present
      · rfl
      · exact fun d hd => absurd hd (by simp [h.unasked])
      · exact fun _ _ => ⟨hbig, rfl, h.unasked⟩
      · exact fun hend => absurd hend (by simp [hrecv])
    · exact h.ask hrecv rfl

/-! ## The steps -/

theorem Ready.joinFragment (h : c.Ready) : c.joinFragment.Ready := by
  unfold Connection.joinFragment
  dsimp only
  split
  · exact {
      busy := h.busy
      flushed := h.flushed
      called := fun hcalled => (h.called hcalled).mono (List.subset_append_left _ _)
      opens := h.opens.concat (by simp)
      present := h.present
      idle := h.idle
      unasked := h.unasked
      answered := h.answered }
  · exact h.inbox _

/-- Whatever the code does outside the fields of an invariant. -/
theorem Ready.congr {c' : Connection} (h : c.Ready) (houtbox : c'.outbox = c.outbox)
    (hclose : c'.closeConnection = c.closeConnection) (hcalls : c'.calls = c.calls)
    (hcalled : c'.isCloseHandlerCalled = c.isCloseHandlerCalled) (hdel : c'.deleted = c.deleted)
    (hread : c'.isReading = c.isReading) (hreading : c'.reading = c.reading)
    (hsent : c'.hasSentClose = c.hasSentClose) (hrecv : c'.hasRecvClose = c.hasRecvClose) : c'.Ready where
  busy := houtbox ▸ h.busy
  flushed := by
    rw [houtbox, hclose]
    exact h.flushed
  called := by
    rw [hcalled]
    exact fun hc => (h.called hc).mono (by rw [hcalls]; exact List.Subset.refl _)
  opens := hcalls ▸ h.opens
  present := hdel ▸ h.present
  idle := hread ▸ h.idle
  unasked := hreading ▸ h.unasked
  answered := by
    rw [hsent, hrecv]
    exact h.answered

/-- What follows a fragment: the next read, or the end. -/
def Followed (r : Connection × Bool) : Prop := if r.2 then r.1.Ready else r.1.Settled

theorem Ready.handleClose (h : c.Ready) : Followed (handleClose host c) := by
  unfold Connection.handleClose
  dsimp only
  split
  · have ht := @Tidy.closeImpl host { c with hasRecvClose := true }
      ⟨h.busy, h.flushed, h.called, h.opens⟩ (closeReason c.inbox.fragment)
      (closeStatus host c.inbox.fragment)
    unfold Followed
    rw [if_pos rfl]
    refine { toTidy := ht.inbox _, present := ?_, idle := ?_, unasked := ?_, answered := ?_ }
    all_goals rw [clearFragment, closeImpl_eq]
    · exact h.present
    · exact h.idle
    · exact h.unasked
    · exact fun _ => rfl
  · unfold Followed
    rw [if_neg (by simp)]
    rename_i hsent
    have hsent' : c.hasSentClose = true := not_not.mp hsent
    split
    · apply Ready.destroy
      · exact ⟨⟨h.busy, nofun, h.called, h.opens⟩, h.present, h.idle, h.unasked, fun _ => hsent'⟩
      · rfl
    · apply Ready.destroy
      · refine ⟨⟨h.busy, nofun, fun _ => ?_, h.opens.concat (by simp)⟩, h.present, h.idle, h.unasked,
          fun _ => hsent'⟩
        exact ⟨_, _, List.mem_append_right _ (List.mem_singleton_self _)⟩
      · rfl

theorem Ready.handleFragment (h : c.Ready) : Followed (handleFragment host c) := by
  have hi : c.unmaskFragment.Ready := by
    unfold unmaskFragment
    split
    · exact h.inbox _
    · exact h
  unfold Connection.handleFragment
  dsimp only
  generalize c.unmaskFragment = d at hi
  split
  · exact hi.joinFragment.inbox _
  · exact (hi.inbox _).joinFragment.inbox _
  · exact (hi.inbox _).joinFragment.inbox _
  · exact hi.handleClose
  · exact hi.congr rfl rfl rfl rfl rfl rfl rfl rfl rfl
  · exact hi.congr rfl rfl rfl rfl rfl rfl rfl rfl rfl
  · exact hi.inbox _

theorem Ready.onPayload (h : c.Ready) (bytes : Bytes) : (onPayload host c bytes).Settled := by
  unfold Connection.onPayload
  dsimp only
  split
  · have hfragment := @Ready.handleFragment host _ (h.inbox { c.inbox with
      fragment := c.inbox.fragment ++ bytes
      remainingLength := c.inbox.remainingLength - bytes.length })
    unfold Followed at hfragment
    split at hfragment
    · rename_i hon
      rw [if_pos hon]
      exact (hfragment.inbox _).doRead
    · rename_i hoff
      rw [if_neg hoff]
      exact hfragment
  · exact (h.inbox _).doRead

theorem Settled.onRead (h : c.Settled) {d : Demand} (hd : c.reading = some d) (bytes : Bytes) :
    (onRead host c bytes).Settled := by
  have hread : c.isReading = true := (h.asked d hd).1
  have hrecv : c.hasRecvClose = false := by
    by_contra hrecv
    rw [Bool.not_eq_false] at hrecv
    simp [h.ended hrecv] at hread
  have hpresent : c.deleted = false := by
    by_contra hdel
    rw [Bool.not_eq_false] at hdel
    simp [(h.gone hdel).2.2] at hread
  have hready (taken : Bytes) :
      Ready { c with isReading := false, reading := none, taken := taken } := {
    busy := h.busy
    flushed := h.flushed
    called := h.called
    opens := h.opens
    present := hpresent
    idle := rfl
    unasked := rfl
    answered := fun hrecv' => absurd hrecv' (by simp [hrecv]) }
  unfold Connection.onRead
  dsimp only
  split
  · unfold Connection.onMiniHeader
    dsimp only
    split
    · exact ((hready _).inbox _).doRead
    · split
      · exact ((hready _).inbox _).doRead
      · exact ((hready _).inbox _).doRead
  · exact ((hready _).inbox _).doRead
  · exact ((hready _).inbox _).doRead
  · exact ((hready _).inbox _).doRead
  · exact (hready _).onPayload bytes

theorem Settled.onReadError (h : c.Settled) {d : Demand} (hd : c.reading = some d) :
    c.onReadError.Settled := by
  have hpresent : c.deleted = false := by
    by_contra hdel
    rw [Bool.not_eq_false] at hdel
    simpa [(h.gone hdel).2.2] using h.asked d hd
  apply Tidy.checkDestroy
  · exact ⟨h.busy, nofun, h.called, h.opens⟩
  · exact hpresent
  · rfl
  · nofun
  · nofun
  · exact fun _ => rfl

theorem Settled.onWritten (h : c.Settled) (hwriting : c.outbox.writing = true) (ok : Bool) :
    (c.onWritten ok).Settled := by
  have hpresent : c.deleted = false := by
    by_contra hdel
    rw [Bool.not_eq_false] at hdel
    exact h.busy.mp hwriting (h.gone hdel).2.1
  unfold Connection.onWritten
  dsimp only
  split
  · rename_i hok
    have hread : c.isReading = true := by
      by_contra hread
      rw [Bool.not_eq_true] at hread
      exact hok.2 (h.stopped hread)
    have hrecv : c.hasRecvClose = false := by
      by_contra hrecv
      rw [Bool.not_eq_false] at hrecv
      simp [h.ended hrecv] at hread
    -- The writer is free, so what waits is written now.
    have hsettled {o : Outbox} (hbusy : o.Busy)
        (hflushed : c.closeConnection = false → o.sendingBuffers = [] → o.writeBuffers = []) :
        Settled { c with outbox := o } := {
      busy := hbusy
      flushed := hflushed
      called := h.called
      opens := h.opens
      gone := fun hdel => absurd hdel (by simp [hpresent])
      kept := fun _ hidle => absurd hidle (by simp [hread])
      asked := fun d hd => h.asked d hd
      refused := h.refused
      stopped := fun hidle => absurd hidle (by simp [hread])
      ended := fun hend => absurd hend (by simp [hrecv]) }
    have hclosing {o : Outbox} (hs : Settled { c with outbox := o }) :
        Settled { c with outbox := o, closeConnection := true } := {
      busy := hs.busy
      flushed := nofun
      called := hs.called
      opens := hs.opens
      gone := hs.gone
      kept := hs.kept
      asked := hs.asked
      refused := fun hr hnone => ⟨(hs.refused hr hnone).1, rfl⟩
      stopped := fun _ => rfl
      ended := hs.ended }
    split
    · rename_i hne
      have hwrite := Outbox.Busy.doWrite
        (o := { c.outbox with writing := false, sendingBuffers := [] }) (by simp [Outbox.Busy]) hne
      have hs := hsettled hwrite.1 fun _ hnil => absurd hnil hwrite.2
      split
      · exact hclosing hs
      · exact hs
    · rename_i hnil
      rw [not_not] at hnil
      have hs := hsettled (o := { c.outbox with writing := false, sendingBuffers := [] })
        (by simp [Outbox.Busy]) fun _ _ => hnil
      split
      · exact hclosing hs
      · exact hs
  · rw [if_neg (by simp [hpresent])]
    apply Tidy.checkDestroy
    · exact ⟨by simp [Outbox.Busy], nofun, h.called, h.opens⟩
    · exact hpresent
    · rfl
    · exact h.asked
    · exact fun hread hnone => (h.refused hread hnone).1
    · exact h.ended

theorem Settled.outbox (h : c.Settled) {o : Outbox} (ho : o.Busy ∧ o.sendingBuffers ≠ [])
    (hpresent : c.deleted = false) : Settled { c with outbox := o } where
  toTidy := h.toTidy.outbox ho
  gone hdel := absurd hdel (by simp [hpresent])
  kept _ _ := ho.2
  asked := h.asked
  refused := h.refused
  stopped := h.stopped
  ended := h.ended

theorem Settled.closeImpl (h : c.Settled) (hpresent : c.deleted = false) (msg : Bytes)
    (statusCode : UInt16) : (closeImpl host c msg statusCode).Settled := by
  have ht := @Tidy.closeImpl host _ h.toTidy msg statusCode
  rw [closeImpl_eq] at ht ⊢
  exact {
    toTidy := ht
    gone := fun hdel => absurd hdel (by simp [hpresent])
    kept := fun _ _ => (h.busy.sendClose msg statusCode).2
    asked := h.asked
    refused := h.refused
    stopped := h.stopped
    ended := h.ended }

theorem Settled.posted (h : c.Settled) (posted : List Job) : Settled { c with posted := posted } where
  toTidy := ⟨h.busy, h.flushed, h.called, h.opens⟩
  gone := h.gone
  kept := h.kept
  asked := h.asked
  refused := h.refused
  stopped := h.stopped
  ended := h.ended

theorem Settled.runJob (h : c.Settled) (hpresent : c.deleted = false) (job : Job) :
    (runJob host c job).Settled := by
  cases job with
  | send opcode payload => exact h.outbox (h.busy.sendDataImpl opcode payload) hpresent
  | close msg statusCode => exact h.closeImpl hpresent msg statusCode

theorem Settled.step (h : c.Settled) {e : Event} (hen : c.Enabled e) : (c.step host e).Settled := by
  cases e with
  | post job => exact h.posted _
  | close msg statusCode => exact h.closeImpl hen.1 msg statusCode
  | run =>
    unfold Connection.step
    dsimp only
    split
    · exact h
    · rename_i job rest _
      exact (h.posted rest).runJob hen.1 job
  | read bytes =>
    obtain ⟨d, hd, -⟩ := hen
    exact h.onRead hd bytes
  | readError =>
    obtain ⟨d, hd⟩ := Option.ne_none_iff_exists'.mp hen
    exact h.onReadError hd
  | written ok => exact h.onWritten hen ok

/-! ## The beginning -/

theorem Ready.perform (h : c.Ready) (job : Job) : (perform host c job).Ready := by
  cases job with
  | send opcode payload => exact h.congr rfl rfl rfl rfl rfl rfl rfl rfl rfl
  | close msg statusCode =>
    have ht := @Tidy.closeImpl host _ h.toTidy msg statusCode
    change (Connection.closeImpl host c msg statusCode).Ready
    rw [closeImpl_eq] at ht ⊢
    exact ⟨ht, h.present, h.idle, h.unasked, fun _ => rfl⟩

theorem ready_opened (isBinary : Bool) (hello : Bytes) (opening : List Job) :
    (opened host (.fresh maxPayloadBytes isBinary) hello opening).Ready := by
  unfold opened
  refine List.foldlRecOn opening (perform host) ?_ fun c hc job _ => hc.perform job
  have hwrite := Outbox.Busy.append (o := .empty) (by simp [Outbox.Busy, Outbox.empty])
    [switchingProtocols, hello, crlf, crlf] (by simp) []
  exact {
    busy := hwrite.1
    flushed := fun _ hnil => absurd hnil hwrite.2
    called := nofun
    opens := ⟨[], rfl, by simp⟩
    present := rfl
    idle := rfl
    unasked := rfl
    answered := nofun }

theorem settled_start (isBinary : Bool) (hello : Bytes) (opening : List Job) :
    (start host (.fresh maxPayloadBytes isBinary) hello opening).Settled :=
  (ready_opened isBinary hello opening).doRead

/-- While the open handler runs, it is the only one that has been called. -/
theorem calls_opened (isBinary : Bool) (hello : Bytes) (opening : List Job) :
    (opened host (.fresh maxPayloadBytes isBinary) hello opening).calls = [.opened] := by
  suffices h : ∀ c : Connection, c.hasRecvClose = false → c.calls = [.opened] →
      (opening.foldl (perform host) c).calls = [.opened] from h _ rfl rfl
  induction opening with
  | nil => exact fun _ _ h => h
  | cons job opening ih =>
    intro c hrecv hcalls
    apply ih
    all_goals
      cases job with
      | send opcode payload => assumption
      | close msg statusCode =>
        unfold perform
        simp [closeImpl_eq, hrecv, hcalls]

end Steps

end Connection

open Connection

section Results

variable {ok : Connection → Event → Prop} {es : List Event} {c : Connection}

theorem ReachedBy.settled (h : ReachedBy ok host maxPayloadBytes hello opening es c) :
    c.Settled := by
  induction h with
  | start isBinary => exact settled_start isBinary hello opening
  | step _ hen _ ih => exact ih.step hen

/-- Nothing is under way for a deleted connection. -/
theorem Connection.Settled.present (hs : c.Settled) {e : Event} (hen : c.Enabled e) :
    c.deleted = false := by
  by_contra hdel
  rw [Bool.not_eq_false] at hdel
  obtain ⟨-, hnil, hidle⟩ := hs.gone hdel
  cases e with
  | post job => simp [hen.1] at hdel
  | close msg statusCode => simp [hen.1] at hdel
  | run => simp [hen.1] at hdel
  | read bytes =>
    obtain ⟨d, hd, -⟩ := hen
    simp [(hs.asked d hd).1] at hidle
  | readError =>
    obtain ⟨d, hd⟩ := Option.ne_none_iff_exists'.mp hen
    simp [(hs.asked d hd).1] at hidle
  | written ok => exact hs.busy.mp hen hnil

/-- The connections whose open handler returns, or throws. In the second case only the write of the
answer has still to end, and only its end with an error leaves the freed object alone. -/
inductive Lives (host : ByteOrder) (maxPayloadBytes : Nat) (hello : Bytes) (opening : List Job) :
    (returns : Bool) → List Event → Connection → Prop
  | returns {es : List Event} {c : Connection} (h : Reached host maxPayloadBytes hello opening es c) :
      Lives host maxPayloadBytes hello opening true es c
  | throws (isBinary : Bool) : Lives host maxPayloadBytes hello opening false []
      (.startThrows host (.fresh maxPayloadBytes isBinary) hello opening)
  | writeFails {es : List Event} {c : Connection}
      (h : Lives host maxPayloadBytes hello opening false es c) (hen : c.Enabled (.written false)) :
      Lives host maxPayloadBytes hello opening false (es ++ [.written false])
        (c.step host (.written false))

/-- A connection whose open handler has thrown is gone, and that is all that its handlers know. -/
theorem Lives.thrown (h : Lives host maxPayloadBytes hello opening false es c) :
    c.deleted = true ∧ c.reading = none ∧ c.calls = [.opened] := by
  generalize hreturns : false = returns at h
  induction h with
  | returns _ => cases hreturns
  | throws isBinary => exact ⟨rfl, (ready_opened isBinary hello opening).unasked,
      calls_opened isBinary hello opening⟩
  | @writeFails es c _ _ ih =>
    obtain ⟨hdel, hreading, hcalls⟩ := ih hreturns
    have hsame : c.step host (.written false) = { c with outbox.writing := false } := by
      change c.onWritten false = _
      unfold onWritten
      rw [if_neg (by simp), if_pos hdel]
    rw [hsame]
    exact ⟨hdel, hreading, hcalls⟩

/-- The close handler of a connection that is gone. -/
theorem Lives.closed_iff {returns : Bool} (h : Lives host maxPayloadBytes hello opening returns es c)
    (hdel : c.deleted = true) : c.Closed ↔ returns = true := by
  cases returns with
  | false => simp [Closed, h.thrown.2.2]
  | true =>
    obtain ⟨h⟩ := h
    simpa using (h.settled.gone hdel).1

section Lives

variable {returns : Bool}

/-- **No use after free.** While a read or a write of a connection is under way, the connection is
deleted if and only if its open handler has thrown: no other operation of the socket outlives the
object whose code it will run. -/
theorem no_use_after_free (h : Lives host maxPayloadBytes hello opening returns es c)
    (hunderway : c.reading ≠ none ∨ c.outbox.writing = true) :
    c.deleted = true ↔ returns = false := by
  cases returns with
  | false => simpa using h.thrown.1
  | true =>
    obtain ⟨h⟩ := h
    suffices hpresent : c.deleted = false by simp [hpresent]
    rcases hunderway with hreading | hwriting
    · exact h.settled.present (e := .readError) hreading
    · exact h.settled.present (e := .written true) hwriting

theorem no_use_after_free_reading :
    (∃ c, Reached .little (256 ^ 8 - 1) (ascii "x") [] [.written true] c ∧ c.reading ≠ none ∧
      c.deleted = false) ∧
    ∃ c, Lives .little (256 ^ 8 - 1) (ascii "x") [] false [] c ∧ c.outbox.writing = true ∧
      c.deleted = true := by
  have h : Reached .little (256 ^ 8 - 1) (ascii "x") [] [.written true] (.played [.written true]) :=
    reachedBy_played (by decide +kernel)
  have hreading : (Connection.played [.written true]).reading ≠ none := by decide +kernel
  have hthrows : Lives .little (256 ^ 8 - 1) (ascii "x") [] false [] _ := .throws false
  refine ⟨⟨_, h, hreading, ?_⟩, _, hthrows, rfl, (no_use_after_free hthrows (.inr rfl)).mpr rfl⟩
  simpa using no_use_after_free (.returns h) (.inl hreading)

/-- **Open first, close before the end.** The open handler is the first to be called, and is called
once. When the connection is deleted, the close handler has been called, if and only if the open
handler has returned. -/
theorem opens_and_closes (h : Lives host maxPayloadBytes hello opening returns es c) :
    OpensFirst c.calls ∧ (c.deleted = true → (c.Closed ↔ returns = true)) := by
  refine ⟨?_, h.closed_iff⟩
  cases returns with
  | false => exact ⟨[], h.thrown.2.2, by simp⟩
  | true =>
    obtain ⟨h⟩ := h
    exact h.settled.opens

theorem opens_and_closes_whole : ∃ c, Reached .little (256 ^ 8 - 1) (ascii "x") [] sendsAndCloses c ∧
    OpensFirst c.calls ∧ c.deleted = true ∧ c.Closed := by
  have h : Reached .little (256 ^ 8 - 1) (ascii "x") [] sendsAndCloses (.played sendsAndCloses) :=
    reachedBy_played (by decide +kernel)
  have hdel : (Connection.played sendsAndCloses).deleted = true := by decide +kernel
  obtain ⟨hopens, hcloses⟩ := opens_and_closes (.returns h)
  exact ⟨_, h, hopens, hdel, (hcloses hdel).mpr rfl⟩

end Lives

/-! ## Sizes -/

theorem Connection.ntoh64_lt {n : Nat} (h : n < 256 ^ 8) : ntoh64 host n < 256 ^ 8 := by
  unfold ntoh64
  split
  · exact h
  · have hlow := host.ntoh_lt 4 (n &&& 0xFFFFFFFF)
    have hhigh := host.ntoh_lt 4 (n >>> 32)
    refine Nat.or_lt_two_pow (n := 64) ?_ (by omega)
    rw [Nat.shiftLeft_eq]
    omega

/-- Every length that a frame can give is one of 64 bits. -/
theorem ReachedBy.sizes (h : ReachedBy ok host maxPayloadBytes hello opening es c) :
    c.inbox.remainingLength < 256 ^ 8 ∧ c.maxPayloadBytes = maxPayloadBytes := by
  induction h with
  | start isBinary =>
    obtain ⟨c, hsame, hstart⟩ := opened_start host maxPayloadBytes hello opening isBinary
    rw [hstart]
    refine ⟨lt_of_le_of_lt c.doRead_remainingLength_le ?_, ?_⟩
    · rw [hsame.inbox]
      exact Nat.pos_of_ne_zero (by simp)
    · exact (SameReading.doRead c).maxPayloadBytes.trans hsame.maxPayloadBytes
  | @step es c e h hen _ ih =>
    by_cases he : ∃ bytes, e = .read bytes
    · obtain ⟨bytes, rfl⟩ := he
      obtain ⟨d, hd, hadmits⟩ := hen
      obtain ⟨-, rfl⟩ := h.settled.asked d hd
      have hread {c' : Connection} (hlen : c'.inbox.remainingLength < 256 ^ 8)
          (hmax : c'.maxPayloadBytes = c.maxPayloadBytes) :
          c'.doRead.inbox.remainingLength < 256 ^ 8 ∧ c'.doRead.maxPayloadBytes = maxPayloadBytes :=
        ⟨lt_of_le_of_lt c'.doRead_remainingLength_le hlen,
          (SameReading.doRead c').maxPayloadBytes.trans (hmax.trans ih.2)⟩
      unfold Connection.step onRead
      dsimp only
      split
      · unfold onMiniHeader
        dsimp only
        split
        · exact hread ih.1 rfl
        · split
          · exact hread ih.1 rfl
          · exact hread (lt_of_le_of_lt Nat.and_le_right (by decide)) rfl
      · exact hread (lt_trans (host.ntoh_lt 2 _) (by decide)) rfl
      · rename_i hstate
        have hlen : bytes.length = 8 := by simpa [demand, hstate, Demand.admits] using hadmits
        have hlt := host.load_lt bytes
        rw [hlen] at hlt
        exact hread (ntoh64_lt hlt) rfl
      · exact hread ih.1 rfl
      · have hlt : c.inbox.remainingLength - bytes.length < 256 ^ 8 := by omega
        unfold onPayload
        dsimp only
        split
        · split
          · exact hread (lt_of_eq_of_lt (SameSizes.handleFragment _).remainingLength hlt)
              (SameSizes.handleFragment _).maxPayloadBytes
          · exact ⟨lt_of_eq_of_lt (SameSizes.handleFragment _).remainingLength hlt,
              (SameSizes.handleFragment _).maxPayloadBytes.trans ih.2⟩
        · exact hread hlt rfl
    · have hsame := @SameInbox.step host c _ (not_exists.mp he)
      rw [hsame.inbox, hsame.maxPayloadBytes]
      exact ih

/-! ## The end -/

/-- With the limit that Crow has by default, no connection is forgotten: one that is not deleted
waits for the socket. -/
theorem ReachedBy.waits (h : ReachedBy ok host maxPayloadBytes hello opening es c)
    (hmax : 256 ^ 8 ≤ maxPayloadBytes + 1) (hpresent : c.deleted = false) :
    c.reading ≠ none ∨ c.outbox.writing = true := by
  have hs := h.settled
  by_cases hread : c.isReading = true
  · refine .inl fun hnone => ?_
    obtain ⟨⟨⟨-, hbig⟩, -⟩, -⟩ := hs.refused hread hnone
    obtain ⟨hlt, hmax'⟩ := h.sizes
    omega
  · rw [Bool.not_eq_true] at hread
    exact .inr (hs.busy.mpr (hs.kept hpresent hread))

/-- The socket fails: the operations that have not completed complete with errors, in some order. -/
inductive Fails (host : ByteOrder) : Connection → Connection → Prop
  | done {c : Connection} (hread : c.reading = none) (hwrite : c.outbox.writing = false) :
      Fails host c c
  | read {c c' : Connection} (hread : c.reading ≠ none) (h : Fails host (c.step host .readError) c') :
      Fails host c c'
  | write {c c' : Connection} (hwrite : c.outbox.writing = true)
      (h : Fails host (c.step host (.written false)) c') : Fails host c c'

theorem exists_fails (host : ByteOrder) (c : Connection) : ∃ c', Fails host c c' := by
  have hread : (c.step host .readError).reading = none ∧
      (c.step host .readError).outbox.writing = c.outbox.writing := by
    change c.onReadError.reading = none ∧ c.onReadError.outbox.writing = _
    unfold onReadError
    rw [checkDestroy_eq]
    exact ⟨rfl, rfl⟩
  have hwrite (c : Connection) : (c.step host (.written false)).reading = c.reading ∧
      (c.step host (.written false)).outbox.writing = false := by
    change (c.onWritten false).reading = _ ∧ (c.onWritten false).outbox.writing = false
    unfold onWritten
    rw [if_neg (by simp), checkDestroy_eq]
    split <;> exact ⟨rfl, rfl⟩
  have hwrites (c : Connection) (hnone : c.reading = none) : ∃ c', Fails host c c' := by
    cases hw : c.outbox.writing with
    | false => exact ⟨c, .done hnone hw⟩
    | true => exact ⟨_, .write hw (.done ((hwrite c).1.trans hnone) (hwrite c).2)⟩
  by_cases hnone : c.reading = none
  · exact hwrites c hnone
  · obtain ⟨c', hc'⟩ := hwrites _ hread.1
    exact ⟨c', .read hnone hc'⟩

/-- The failure of the socket is a run of the connection. -/
theorem Fails.lives {returns : Bool} {c' : Connection} (hfails : Fails host c c')
    (h : Lives host maxPayloadBytes hello opening returns es c) :
    ∃ es', Lives host maxPayloadBytes hello opening returns es' c' ∧ c'.reading = none ∧
      c'.outbox.writing = false := by
  induction hfails generalizing es with
  | done hread hwrite => exact ⟨es, h, hread, hwrite⟩
  | read hread _ ih =>
    cases returns with
    | false => exact absurd h.thrown.2.1 hread
    | true =>
      obtain ⟨h⟩ := h
      exact ih (.returns (.step (e := .readError) h hread trivial))
  | write hwrite _ ih =>
    cases returns with
    | false => exact ih (.writeFails h hwrite)
    | true =>
      obtain ⟨h⟩ := h
      exact ih (.returns (.step (e := .written false) h hwrite trivial))

/-- **Nothing is left behind.** With the limit that Crow has by default, a connection that is not
deleted waits for its socket. When the socket fails, in whatever order its operations end, the
connection has been deleted, and its close handler called if and only if its open handler has
returned. -/
theorem dies_with_the_socket {returns : Bool}
    (h : Lives host maxPayloadBytes hello opening returns es c)
    (hmax : 256 ^ 8 ≤ maxPayloadBytes + 1) :
    (c.deleted = true ∨ c.reading ≠ none ∨ c.outbox.writing = true) ∧ (∃ c', Fails host c c') ∧
      ∀ c', Fails host c c' → c'.deleted = true ∧ (c'.Closed ↔ returns = true) := by
  have hwaits {es : List Event} {c : Connection}
      (h : Lives host maxPayloadBytes hello opening returns es c) :
      c.deleted = true ∨ c.reading ≠ none ∨ c.outbox.writing = true := by
    cases returns with
    | false => exact .inl h.thrown.1
    | true =>
      obtain ⟨h⟩ := h
      by_cases hdel : c.deleted = true
      · exact .inl hdel
      · exact .inr (h.waits hmax (by simpa using hdel))
  refine ⟨hwaits h, exists_fails host c, fun c' hfails => ?_⟩
  obtain ⟨es', h', hread, hwrite⟩ := hfails.lives h
  have hdel : c'.deleted = true := by simpa [hread, hwrite] using hwaits h'
  exact ⟨hdel, h'.closed_iff hdel⟩

theorem dies_with_the_socket_reading : ∃ c, Reached .little (256 ^ 8 - 1) (ascii "x") [] [.written true] c ∧
    c.deleted = false ∧ (∃ c', Fails .little c c') ∧
      ∀ c', Fails .little c c' → c'.deleted = true ∧ c'.Closed := by
  have h : Reached .little (256 ^ 8 - 1) (ascii "x") [] [.written true] (.played [.written true]) :=
    reachedBy_played (by decide +kernel)
  have hdel : (Connection.played [.written true]).deleted = false := by decide +kernel
  obtain ⟨-, hends, hdies⟩ := dies_with_the_socket (.returns h) (by decide)
  exact ⟨_, h, hdel, hends, fun c' hfails => (hdies c' hfails).imp_right fun hiff => hiff.mpr rfl⟩

end Results

end ChatServer.Websocket
