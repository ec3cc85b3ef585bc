import ChatServer.Delivery

/-!
# Closing a connection

A client that closes in an orderly way is reported to the application once.
-/

namespace ChatServer.Websocket

open Connection

variable {host : ByteOrder} {maxPayloadBytes : Nat} {hello : Bytes} {opening : List Job}

variable {es : List Event} {c : Connection}

/-- Nothing fails, and the server does not close. -/
def Event.Clean : Event → Prop
  | .readError | .written false | .close .. | .post (.close ..) => False
  | _ => True

def Job.IsSend : Job → Prop
  | .send .. => True
  | .close .. => False

def HandlerCall.isClosed : HandlerCall → Bool
  | .closed .. => true
  | _ => false

/-- The client has not closed, or it has, and that has been answered and reported. -/
structure Peaceful (c : Connection) : Prop where
  sends : ∀ job ∈ c.posted, job.IsSend
  before : c.hasRecvClose = false → c.hasSentClose = false ∧ c.closeConnection = false ∧
    c.isCloseHandlerCalled = false ∧ c.calls.countP HandlerCall.isClosed = 0
  after : c.hasRecvClose = true → c.hasSentClose = true ∧ c.isCloseHandlerCalled = true ∧
    c.calls.countP HandlerCall.isClosed = 1

namespace Peaceful

/-- A frame has been read, or a write has ended, and nothing else is new. -/
theorem congr {c' : Connection} (h : Peaceful c) (hposted : ∀ job ∈ c'.posted, job ∈ c.posted ∨ job.IsSend)
    (hrecv : c'.hasRecvClose = c.hasRecvClose) (hsent : c'.hasSentClose = c.hasSentClose)
    (hclose : c'.closeConnection = c.closeConnection)
    (hcalled : c'.isCloseHandlerCalled = c.isCloseHandlerCalled)
    (hcalls : c'.calls.countP HandlerCall.isClosed = c.calls.countP HandlerCall.isClosed) :
    Peaceful c' := by
  refine ⟨fun job hjob => (hposted job hjob).elim (h.sends job) id, ?_, ?_⟩
  · rw [hrecv, hsent, hclose, hcalled, hcalls]
    exact h.before
  · rw [hrecv, hsent, hcalled, hcalls]
    exact h.after

theorem destroy {c' : Connection} (h : Peaceful c') (hrecv : c'.hasRecvClose = true) (code : UInt16) :
    Peaceful (c'.checkDestroy code) := by
  obtain ⟨hsent, hcalled, hcount⟩ := h.after hrecv
  rw [checkDestroy_eq]
  refine ⟨h.sends, fun hno => (nomatch (hrecv.symm.trans hno)), fun _ => ⟨hsent, hcalled, ?_⟩⟩
  simpa [hcalled] using hcount

theorem closing (h : Peaceful c) (hrecv : c.hasRecvClose = true) :
    Peaceful { c with closeConnection := true } :=
  ⟨h.sends, fun hno => (nomatch (hrecv.symm.trans hno)), h.after⟩

theorem doRead {c : Connection} (h : Peaceful c) (hsmall : ¬ c.TooBig) : Peaceful c.doRead := by
  rw [doRead_eq]
  split
  · rename_i hboth
    exact (h.closing hboth.2).destroy hboth.2 _
  · exact ⟨h.sends, h.before, h.after⟩

theorem joinFragment {c : Connection} (h : Peaceful c) : Peaceful c.joinFragment := by
  unfold Connection.joinFragment
  dsimp only
  split
  · exact h.congr (fun _ => .inl) rfl rfl rfl rfl (by simp [HandlerCall.isClosed])
  · exact h.congr (fun _ => .inl) rfl rfl rfl rfl rfl

theorem handleClose {c : Connection} (h : Peaceful c) (hrecv : c.hasRecvClose = false) :
    Peaceful (handleClose host c).1 := by
  obtain ⟨hsent, -, hcalled, hcount⟩ := h.before hrecv
  unfold Connection.handleClose
  dsimp only
  rw [if_pos (by simp [hsent]), closeImpl_eq]
  refine ⟨h.sends, nofun, fun _ => ⟨rfl, ?_, ?_⟩⟩
  · simp [clearFragment]
  · simp [clearFragment, hcalled, hcount, HandlerCall.isClosed]

theorem handleFragment {c : Connection} (h : Peaceful c) (hrecv : c.hasRecvClose = false) :
    Peaceful (handleFragment host c).1 := by
  have hi : Peaceful c.unmaskFragment ∧ c.unmaskFragment.hasRecvClose = false := by
    unfold unmaskFragment
    split
    · exact ⟨h.congr (fun _ => .inl) rfl rfl rfl rfl rfl, hrecv⟩
    · exact ⟨h, hrecv⟩
  unfold Connection.handleFragment
  dsimp only
  generalize c.unmaskFragment = d at hi
  obtain ⟨hi, hr⟩ := hi
  have hjoin (b : Bool) : Peaceful { d with inbox.isBinary := b }.joinFragment.clearFragment := by
    have hb : Peaceful { d with inbox.isBinary := b } := hi.congr (fun _ => .inl) rfl rfl rfl rfl rfl
    exact hb.joinFragment.congr (fun _ => .inl) rfl rfl rfl rfl rfl
  split
  · exact hi.joinFragment.congr (fun _ => .inl) rfl rfl rfl rfl rfl
  · exact hjoin false
  · exact hjoin true
  · exact hi.handleClose hr
  · refine hi.congr (fun job hjob => ?_) rfl rfl rfl rfl rfl
    rcases List.mem_append.mp hjob with hold | hnew
    · exact .inl hold
    · exact .inr (List.mem_singleton.mp hnew ▸ trivial)
  · exact hi.congr (fun _ => .inl) rfl rfl rfl rfl rfl
  · exact hi.congr (fun _ => .inl) rfl rfl rfl rfl rfl

theorem onWritten {c : Connection} (h : Peaceful c) (hs : c.Settled) : Peaceful (c.onWritten true) := by
  unfold Connection.onWritten
  dsimp only
  by_cases hrecv : c.hasRecvClose = true
  · have hclose : c.closeConnection = true := hs.stopped (hs.ended hrecv)
    rw [if_neg (by simp [hclose])]
    split
    · exact h.congr (fun _ => .inl) rfl rfl rfl rfl rfl
    · apply Peaceful.destroy
      · exact (h.closing hrecv).congr (fun _ => .inl) rfl rfl rfl rfl rfl
      · exact hrecv
  · obtain ⟨hsent, hopen, -⟩ := h.before (by simpa using hrecv)
    rw [if_pos (by simp [hopen])]
    split
    · rw [if_neg (by simp [hsent])]
      exact h.congr (fun _ => .inl) rfl rfl rfl rfl rfl
    · rw [if_neg (by simp [hsent])]
      exact h.congr (fun _ => .inl) rfl rfl rfl rfl rfl

theorem start (isBinary : Bool) (hopening : ∀ job ∈ opening, job.IsSend) :
    Peaceful (start host (.fresh maxPayloadBytes isBinary) hello opening) := by
  unfold Connection.start opened
  dsimp only
  have hbegin : ∀ c : Connection, Peaceful c → ¬ c.TooBig →
      Peaceful (opening.foldl (Connection.perform host) c).doRead := by
    intro c hc hsmall
    apply Peaceful.doRead
    · refine List.foldlRecOn opening (Connection.perform host) hc fun c hc job hjob => ?_
      cases job with
      | send opcode payload =>
        refine hc.congr (fun job' hjob' => ?_) rfl rfl rfl rfl rfl
        rcases List.mem_append.mp hjob' with hold | hnew
        · exact .inl hold
        · exact .inr (List.mem_singleton.mp hnew ▸ trivial)
      | close msg statusCode => exact absurd (hopening _ hjob) id
    · have hsame : SameInbox c (opening.foldl (Connection.perform host) c) :=
        List.foldlRecOn opening (Connection.perform host) (.refl c) fun c hc job _ => hc.perform job
      unfold TooBig
      rw [hsame.inbox, hsame.maxPayloadBytes]
      exact hsmall
  refine hbegin _ ⟨by simp [Connection.fresh], fun _ => ⟨rfl, rfl, rfl, rfl⟩, nofun⟩ ?_
  rintro ⟨hstate, -⟩
  cases hstate

end Peaceful

theorem ReachedBy.peaceful {ok : Connection → Event → Prop}
    (h : ReachedBy ok host maxPayloadBytes hello opening es c)
    (hmax : 256 ^ 8 ≤ maxPayloadBytes + 1) (hopening : ∀ job ∈ opening, job.IsSend)
    (hclean : ∀ e ∈ es, e.Clean) : Peaceful c := by
  induction h with
  | start isBinary => exact .start isBinary hopening
  | @step es c e h hen hok ih =>
    have hp := ih fun e he => hclean e (List.mem_append_left _ he)
    have he := hclean e (by simp)
    have hs := h.settled
    cases e with
    | post job =>
      cases job with
      | send opcode payload =>
        refine hp.congr (fun job' hjob' => ?_) rfl rfl rfl rfl rfl
        rcases List.mem_append.mp hjob' with hold | hnew
        · exact .inl hold
        · exact .inr (List.mem_singleton.mp hnew ▸ trivial)
      | close msg statusCode => exact absurd he id
    | close msg statusCode => exact absurd he id
    | run =>
      unfold Connection.step
      dsimp only
      split
      · exact hp
      · rename_i job rest hposted
        have hjob := hp.sends job (by simp [hposted])
        cases job with
        | send opcode payload =>
          exact hp.congr (fun job' hjob' => .inl (by simp [hposted, show job' ∈ rest from hjob'])) rfl rfl
            rfl rfl rfl
        | close msg statusCode => exact absurd hjob id
    | read bytes =>
      have hrecv : c.hasRecvClose = false := by
        obtain ⟨d, hd, -⟩ := hen
        by_contra hrecv
        rw [Bool.not_eq_false] at hrecv
        simpa [hs.ended hrecv] using (hs.asked d hd).1
      have hsizes := ReachedBy.sizes (.step h hen hok)
      revert hsizes
      have hread {c' : Connection} (hc' : Peaceful c') : c'.doRead.inbox.remainingLength < 256 ^ 8 ∧
          c'.doRead.maxPayloadBytes = maxPayloadBytes → Peaceful c'.doRead := by
        rintro ⟨hlt, hlimit⟩
        refine hc'.doRead fun hbig => ?_
        rw [doRead_inbox_of_tooBig hbig] at hlt
        rw [(SameReading.doRead c').maxPayloadBytes] at hlimit
        have := hbig.2
        omega
      have hsame (i : Inbox) (taken : Bytes) : Peaceful { c with
          isReading := false, reading := none, taken := taken, inbox := i } :=
        hp.congr (fun _ => .inl) rfl rfl rfl rfl rfl
      unfold Connection.step onRead
      dsimp only
      split
      · unfold onMiniHeader
        dsimp only
        split
        · exact hread (hsame _ _)
        · split
          · exact hread (hsame _ _)
          · exact hread (hsame _ _)
      · exact hread (hsame _ _)
      · exact hread (hsame _ _)
      · exact hread (hsame _ _)
      · unfold onPayload
        dsimp only
        have hfragment := @Peaceful.handleFragment host _ (hsame { c.inbox with
          fragment := c.inbox.fragment ++ bytes
          remainingLength := c.inbox.remainingLength - bytes.length } (c.taken ++ bytes)) hrecv
        split
        · split
          · exact hread (hfragment.congr (fun _ => .inl) rfl rfl rfl rfl rfl)
          · exact fun _ => hfragment
        · exact hread (hsame _ _)
    | readError => exact absurd he id
    | written ok =>
      cases ok with
      | false => exact absurd he id
      | true => exact hp.onWritten hs

/-- A peaceful connection that neither waits nor is about to read nothing has been closed. -/
theorem Peaceful.waits (hp : Peaceful c) (hs : c.Settled) (hrecv : c.hasRecvClose = false)
    (hempty : c.reading ≠ some (.upTo 0)) : c.Waits := by
  obtain ⟨-, hopen, -⟩ := hp.before hrecv
  refine ⟨fun hnone => ?_, hempty⟩
  have hread : c.isReading = true := by
    by_contra hidle
    simp [hs.stopped (by simpa using hidle)] at hopen
  simp [(hs.refused hread hnone).2] at hopen

/-! ## What the client has sent -/

/-- Of the frames `fs` of the client, one that closes is whole in what has come. -/
def HasClosed (fs : List WireFrame) (come : Bytes) : Prop :=
  ∃ before f, before ++ [f] <+: fs ∧ f.opcode = 8 ∧ (before ++ [f]).flatMap WireFrame.bytes <+: come

section Parsed

variable {isBinary : Bool} {done fs : List WireFrame} {rest : Bytes}

theorem Connection.Parsed.recvClose_iff (h : Parsed (.empty isBinary) c done rest) :
    c.hasRecvClose = true ↔ ∃ f ∈ done, f.opcode = 8 := by
  have hclosed : c.hasRecvClose = (done.foldl Assembly.add (.empty isBinary)).closed := by
    rw [← h.assembly]
    rfl
  rw [hclosed, Assembly.closed_foldl]
  simp [Assembly.empty]

/-- A close that has been read has come. -/
theorem Connection.Parsed.hasClosed (h : Parsed (.empty isBinary) c done rest)
    (htaken : c.taken <+: fs.flatMap WireFrame.bytes) (hrecv : c.hasRecvClose = true) :
    HasClosed fs c.taken := by
  obtain ⟨f, hf, hop⟩ := h.recvClose_iff.mp hrecv
  obtain ⟨before, after, rfl⟩ := List.append_of_mem hf
  refine ⟨before, f, ?_, hop, ?_⟩
  · refine List.IsPrefix.trans ⟨after, ?_⟩ (h.isPrefix htaken)
    simp
  · rw [h.taken]
    exact ⟨after.flatMap WireFrame.bytes ++ rest, by simp⟩

/-- A close that has come has been read, if the connection has nothing to do before it waits. -/
theorem Connection.Parsed.recvClose (h : Parsed (.empty isBinary) c done rest) (hs : c.Settled)
    (htaken : c.taken <+: fs.flatMap WireFrame.bytes) (hclosed : HasClosed fs c.taken)
    (hwaits : c.hasRecvClose = false → c.Waits) : c.hasRecvClose = true := by
  obtain ⟨before, f, hfs, hop, hcome⟩ := hclosed
  rcases List.prefix_or_prefix_of_prefix hfs (h.isPrefix htaken) with hread | ⟨gs, hgs⟩
  · exact h.recvClose_iff.mpr ⟨f, hread.subset (by simp), hop⟩
  · by_contra hrecv
    rw [h.taken, ← hgs, List.flatMap_append] at hcome
    obtain ⟨s, hs'⟩ := (List.prefix_append_right_inj _).mp hcome
    cases gs with
    | nil =>
      rw [List.append_nil] at hgs
      exact hrecv (h.recvClose_iff.mpr ⟨f, by simp [hgs], hop⟩)
    | cons g gs =>
      apply h.unfinished hs (hwaits (by simpa using hrecv)) g (gs.flatMap WireFrame.bytes ++ s)
      rw [← hs', List.flatMap_cons, List.append_assoc]

end Parsed

/-- **Reported once.** Nothing fails, and the server does not close. Then the close handler is called
at most once, and only when a close frame of the client has come as a whole. Once it has come, and
no read of an empty payload is under way, the close handler has been called. -/
theorem clean_close_once (h : ReachedBy WholeHeaders host maxPayloadBytes hello opening es c)
    (hmax : 256 ^ 8 ≤ maxPayloadBytes + 1) (hopening : ∀ job ∈ opening, job.IsSend)
    (hclean : ∀ e ∈ es, e.Clean) {fs : List WireFrame}
    (hreceived : received es <+: fs.flatMap WireFrame.bytes) :
    c.calls.countP HandlerCall.isClosed ≤ 1 ∧
      (c.calls.countP HandlerCall.isClosed = 1 → HasClosed fs (received es)) ∧
        (HasClosed fs (received es) → c.reading ≠ some (.upTo 0) →
          c.calls.countP HandlerCall.isClosed = 1) := by
  have hp := h.peaceful hmax hopening hclean
  obtain ⟨isBinary, done, rest, hparsed⟩ := h.parsed
  rw [← h.taken] at hreceived ⊢
  have hcount : c.calls.countP HandlerCall.isClosed = if c.hasRecvClose then 1 else 0 := by
    cases hrecv : c.hasRecvClose with
    | false => exact (hp.before hrecv).2.2.2
    | true => exact (hp.after hrecv).2.2
  rw [hcount]
  refine ⟨by split <;> simp, fun hone => ?_, fun hclosed hempty => ?_⟩
  · exact hparsed.hasClosed hreceived (by simpa using hone)
  · rw [if_pos]
    exact hparsed.recvClose h.settled hreceived hclosed fun hrecv => hp.waits h.settled hrecv hempty

/-- The second frame of `sendsAndCloses`. -/
def closeFrame : WireFrame := ⟨0x88, 0x80, [], [1, 2, 3, 4], [], rfl, rfl, rfl⟩

theorem clean_close_once_whole : ∃ c,
    ReachedBy WholeHeaders .little (256 ^ 8 - 1) (ascii "x") [] sendsAndCloses c ∧
      received sendsAndCloses = [binaryFrame, closeFrame].flatMap WireFrame.bytes ∧
        c.calls.countP HandlerCall.isClosed = 1 := by
  have h : ReachedBy WholeHeaders .little (256 ^ 8 - 1) (ascii "x") [] sendsAndCloses
      (.played sendsAndCloses) := reachedBy_played (by decide +kernel)
  have hreceived : received sendsAndCloses = [binaryFrame, closeFrame].flatMap WireFrame.bytes := by
    decide +kernel
  have hall := hreceived ▸ List.prefix_refl (received sendsAndCloses)
  have hclosed : HasClosed [binaryFrame, closeFrame] (received sendsAndCloses) := by
    rw [hreceived]
    exact ⟨[binaryFrame], closeFrame, List.prefix_refl _, rfl, List.prefix_refl _⟩
  have hempty : (Connection.played sendsAndCloses).reading ≠ some (.upTo 0) := by decide +kernel
  obtain ⟨-, -, honce⟩ := clean_close_once h (by decide) (by simp)
    (by simp [sendsAndCloses, Event.Clean]) hall
  exact ⟨_, h, hreceived, honce hclosed hempty⟩

/-! ## After a close from the client -/

/-- A close of the client has been reported. -/
def Answered (c : Connection) : Prop := c.hasRecvClose = true → c.isCloseHandlerCalled = true

namespace Answered

variable {c : Connection}

theorem checkDestroy (h : Answered c) (code : UInt16) : Answered (c.checkDestroy code) := by
  rw [checkDestroy_eq]
  exact h

theorem closeImpl (host : ByteOrder) (c : Connection) (msg : Bytes) (statusCode : UInt16) :
    Answered (closeImpl host c msg statusCode) := by
  rw [closeImpl_eq]
  intro hrecv
  exact (congrArg (c.isCloseHandlerCalled || ·) hrecv).trans (Bool.or_true _)

theorem doRead (h : Answered c) : Answered c.doRead := by
  rw [doRead_eq]
  split
  · apply checkDestroy
    exact h
  · split
    · apply checkDestroy
      exact h
    · exact h

theorem joinFragment (h : Answered c) : Answered c.joinFragment := by
  unfold Connection.joinFragment
  dsimp only
  split <;> exact h

theorem handleFragment (h : Answered c) : Answered (handleFragment host c).1 := by
  replace h : Answered c.unmaskFragment := by
    unfold unmaskFragment
    split <;> exact h
  unfold Connection.handleFragment
  dsimp only
  generalize c.unmaskFragment = d at h
  have hjoin (b : Bool) : Answered { d with inbox.isBinary := b }.joinFragment := by
    apply joinFragment
    exact h
  split
  · exact h.joinFragment
  · exact hjoin false
  · exact hjoin true
  · unfold handleClose
    dsimp only
    split
    · exact closeImpl host _ _ _
    · apply checkDestroy
      split
      · rename_i hcalled
        exact fun _ => hcalled
      · exact fun _ => rfl
  · exact h
  · exact h
  · exact h

theorem onRead (h : Answered c) (bytes : Bytes) : Answered (onRead host c bytes) := by
  have hread {d : Connection} (hrecv : d.hasRecvClose = c.hasRecvClose)
      (hcalled : d.isCloseHandlerCalled = c.isCloseHandlerCalled) : Answered d.doRead := by
    apply doRead
    intro hd
    exact hcalled.trans (h (hrecv.symm.trans hd))
  unfold Connection.onRead
  dsimp only
  split
  · unfold onMiniHeader
    dsimp only
    split
    · exact hread rfl rfl
    · split <;> exact hread rfl rfl
  · exact hread rfl rfl
  · exact hread rfl rfl
  · exact hread rfl rfl
  · unfold onPayload
    dsimp only
    split
    · have hsame (i : Inbox) : Answered { c with
          isReading := false, reading := none, taken := c.taken ++ bytes, inbox := i } := h
      have hfragment := @handleFragment host _ (hsame { c.inbox with
        fragment := c.inbox.fragment ++ bytes
        remainingLength := c.inbox.remainingLength - bytes.length })
      split
      · apply doRead
        exact hfragment
      · exact hfragment
    · exact hread rfl rfl

theorem step (h : Answered c) (e : Event) : Answered (c.step host e) := by
  cases e with
  | post job => exact h
  | close msg statusCode => exact closeImpl host _ _ _
  | run =>
    unfold Connection.step
    dsimp only
    split
    · exact h
    · rename_i job rest _
      cases job with
      | send opcode payload => exact h
      | close msg statusCode => exact closeImpl host _ _ _
  | read bytes => exact h.onRead bytes
  | readError =>
    apply checkDestroy
    exact h
  | written ok =>
    unfold Connection.step onWritten
    dsimp only
    split
    · split
      · split <;> exact h
      · split <;> exact h
    · split
      · exact h
      · apply checkDestroy
        exact h

end Answered

theorem ReachedBy.answered {ok : Connection → Event → Prop}
    (h : ReachedBy ok host maxPayloadBytes hello opening es c) : Answered c := by
  induction h with
  | start isBinary =>
    apply Answered.doRead
    refine List.foldlRecOn opening (Connection.perform host) ?_ fun c hc job _ => ?_
    · intro hrecv
      cases hrecv
    · cases job with
      | send opcode payload => exact hc
      | close msg statusCode => exact .closeImpl host _ _ _
  | step _ _ _ ih => exact ih.step _

/-- Use of a connection by the application calls no handler, and deletes nothing. -/
theorem Answered.calls_step (h : Answered c) {e : Event}
    (he : (∃ job, e = .post job) ∨ ∃ msg statusCode, e = .close msg statusCode) :
    (c.step host e).calls = c.calls ∧ (c.step host e).deleted = c.deleted := by
  rcases he with ⟨job, rfl⟩ | ⟨msg, statusCode, rfl⟩
  · exact ⟨rfl, rfl⟩
  · unfold Connection.step
    dsimp only
    rw [closeImpl_eq]
    refine ⟨if_neg ?_, rfl⟩
    rintro ⟨hrecv, hno⟩
    exact hno (h hrecv)

end ChatServer.Websocket
