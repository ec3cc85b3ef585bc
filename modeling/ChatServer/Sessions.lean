import ChatServer.Invariants

/-!
# Sessions

Who owns a connection, read off the trace: `on_open` marks what it accepts and closes what it
rejects, and `on_close` marks its critical section.
-/

open Program

namespace ChatServer

/-! ## Reading the trace -/

/-- `on_open` accepted `conn` under `username`, and the section of its `on_close` has not run. -/
def AcceptedAs (trace : List Event) (conn : Conn) (username : Bytes) : Prop :=
  ∃ before after, trace = before ++ .accepted conn username :: after ∧ .left conn ∉ after

/-- `on_open` rejected `conn`, or the section of its `on_close` has run, and it is not back. -/
def Ended (trace : List Event) (conn : Conn) : Prop :=
  ∃ before e after, trace = before ++ e :: after ∧
    (e = .left conn ∨ ∃ reason, e = .close conn reason) ∧ ∀ n, .accepted conn n ∉ after

theorem session_of_ended {trace : List Event} {conn : Conn} (h : Ended trace conn) (n : Bytes) :
    session trace conn ≠ .accepted n := by
  obtain ⟨before, e, after, rfl, he, hafter⟩ := h
  have hrest : ∀ (es : List Event) (s : Session), (∀ n, .accepted conn n ∉ es) →
      (∀ n, s ≠ .accepted n) → ∀ n, es.foldl (Session.after conn) s ≠ .accepted n := by
    intro es
    induction es with
    | nil => exact fun s _ hs => hs
    | cons e es ih =>
      intro s hes hs
      refine ih _ (fun n hn => hes n (List.mem_cons_of_mem e hn)) ?_
      cases e with
      | accepted c m =>
        have hc : c ≠ conn := fun hc => hes m (hc ▸ List.mem_cons_self)
        simpa [Session.after, hc] using hs
      | close c reason | left c =>
        simp only [Session.after]
        split
        · intro n hn
          cases hn
        · exact hs
      | _ => exact hs
  rw [World.session_concat, List.foldl_cons]
  refine hrest after _ hafter ?_ n
  rcases he with rfl | ⟨reason, rfl⟩ <;> simp [Session.after]

/-! ## What each effect adds to the trace -/

namespace Effect

variable {w w' : World}

theorem session_keeps (h : Effect w w') {c : Conn} {n : Bytes} (hc : w.session c = .accepted n) :
    w'.session c = .accepted n ∨ w'.trace = w.trace ++ [.left c] := by
  cases h with
  | flag | touch | setStatus | markIdle | eraseExpired => exact .inl hc
  | send h => exact .inl ((World.session_sends h c).trans hc)
  | @refuse conn es h hfree =>
    rcases World.session_refuse h c with hs | ⟨rfl, -⟩
    · exact .inl (hs.trans hc)
    · exact absurd hc (hfree n)
  | storeGeneral | storePrivate =>
    refine .inl ?_
    simpa [World.session, World.session_concat, Session.after] using hc
  | @register conn username clientIp _ _ hfree | @reconnect conn username cd clientIp _ _ hfree =>
    have hne : conn ≠ c := by
      rintro rfl
      exact hfree n hc
    refine .inl ?_
    simpa [World.session, World.session_accepted, hne] using hc
  | @leave conn _ | @disconnect conn e _ =>
    by_cases hne : conn = c
    · exact .inr (hne ▸ rfl)
    · refine .inl ?_
      simpa [World.session, World.session_left, hne] using hc

end Effect

theorem session_of_acceptedAs {cfg : Config} (h : Reachable cfg) {c : Conn} {n : Bytes}
    (hc : AcceptedAs cfg.world.trace c n) : cfg.world.session c = .accepted n := by
  revert c n
  refine h.always (J := fun w => ∀ {c n}, AcceptedAs w.trace c n → w.session c = .accepted n) ?_ ?_
  · rintro _ _ _ c n ⟨before, after, heq, -⟩
    simp [World.init] at heq
  · rintro w w' _ ih heff c n ⟨before, after, heq, hleft⟩
    obtain ⟨es, htrace, hes⟩ := heff.trace_cases
    rw [htrace] at heq
    -- A new mark is all that the effect adds.
    have hfresh : ∀ new, es = new ++ .accepted c n :: after → w'.session c = .accepted n := by
      intro new hnew
      rcases hes with hes | ⟨c', n', rfl⟩
      · exact absurd (hnew ▸ by simp) (hes c n)
      · obtain rfl : new = [] := by
          have hlen := congrArg List.length hnew
          simp only [List.length_append, List.length_cons, List.length_nil] at hlen
          exact List.length_eq_zero_iff.mp (by omega)
        obtain rfl : after = [] := (List.cons.inj hnew).2.symm
        unfold World.session
        rw [htrace, hnew, List.nil_append, World.session_accepted, if_pos rfl]
    rcases List.append_eq_append_iff.mp heq with ⟨new, -, hnew⟩ | ⟨old, hold, hafter⟩
    · exact hfresh new hnew
    · cases old with
      | nil => exact hfresh [] hafter.symm
      | cons e old =>
        simp only [List.cons_append, List.cons.injEq] at hafter
        obtain ⟨rfl, rfl⟩ := hafter
        simp only [List.mem_append, not_or] at hleft
        rcases heff.session_keeps (ih ⟨before, old, hold, hleft.1⟩) with hs | hs
        · exact hs
        · rw [htrace, List.append_cancel_left_eq] at hs
          exact absurd (hs ▸ List.mem_singleton_self _) hleft.2

/-! ## Notifications -/

/-- The code is a call of one of the three `notify_*` functions. -/
inductive IsNotification : Prog Unit → Prop
  | joined (username : Bytes) (st : UserStatus) : IsNotification (notifyUserJoined username st)
  | statusChange (username : Bytes) (st : UserStatus) :
      IsNotification (notifyUserStatusChange username st)
  | newMessage (sender msg : Bytes) (isPrivate : Bool) (recipient : Bytes) :
      IsNotification (notifyNewMessage sender msg isPrivate recipient)

theorem IsNotification.run {p : Prog Unit} (h : IsNotification p) (w : World) :
    ∃ conns payload, (p.run w).2 = w.sends conns payload ∧
      ∀ conn ∈ conns, ∃ n, w.connOf n = some conn := by
  cases h with
  | joined username st =>
    rw [notifyUserJoined_run]
    dsimp only
    split
    · exact ⟨[], [], by simp [World.sends], by simp⟩
    · refine ⟨_, _, rfl, fun conn hconn => ?_⟩
      obtain ⟨n, -, hn⟩ := World.mem_others.mp hconn
      exact ⟨n, hn⟩
  | statusChange username st =>
    rw [notifyUserStatusChange_run]
    exact ⟨_, _, rfl, fun conn hconn => World.mem_live.mp hconn⟩
  | newMessage sender msg isPrivate recipient =>
    rw [notifyNewMessage_run]
    exact ⟨_, _, rfl, fun conn hconn => World.mem_recipients hconn⟩

/-! ## Ownership -/

/-- **Session ownership.** An accepted connection is the connection of its user and of no other
entry, until the section of its `on_close`. A connection that is rejected or closed is in no
entry, and no notification goes to it. -/
theorem session_ownership {cfg : Config} (h : Reachable cfg) (c : Conn) :
    (∀ n, AcceptedAs cfg.world.trace c n →
      ∃ cd, cfg.world.connections.lookup n = some cd ∧ cd.conn = some c ∧
        ∀ n' cd', cfg.world.connections.lookup n' = some cd' → cd'.conn = some c → n' = n) ∧
    (Ended cfg.world.trace c →
      (∀ n cd, cfg.world.connections.lookup n = some cd → cd.conn ≠ some c) ∧
      ∀ p payload, IsNotification p →
        .sendBinary c payload ∉ (p.run cfg.world).2.trace.drop cfg.world.trace.length) := by
  have howned := h.sound.owned
  constructor
  · intro n hc
    have hconn := (howned n c).mpr (session_of_acceptedAs h hc)
    obtain ⟨cd, hcd, hcdc⟩ := World.connOf_eq_some.mp hconn
    refine ⟨cd, hcd, hcdc, fun n' cd' hcd' hconn' => ?_⟩
    exact howned.unique (World.connOf_eq_some.mpr ⟨cd', hcd', hconn'⟩) hconn
  · intro hended
    have hnone : ∀ n, cfg.world.connOf n ≠ some c :=
      fun n hn => session_of_ended hended n ((howned n c).mp hn)
    refine ⟨fun n cd hcd hconn => hnone n (World.connOf_eq_some.mpr ⟨cd, hcd, hconn⟩), ?_⟩
    intro p payload hp hmem
    obtain ⟨conns, payload', hrun, hconns⟩ := hp.run cfg.world
    rw [hrun, World.sends_trace, List.drop_left] at hmem
    simp only [List.mem_map, Event.sendBinary.injEq] at hmem
    obtain ⟨conn, hconn, rfl, -⟩ := hmem
    obtain ⟨n, hn⟩ := hconns _ hconn
    exact hnone n hn

theorem session_ownership_duplicate :
    ∃ cfg, Reachable cfg ∧
      (∃ cd, cfg.world.connections.lookup (ascii "a") = some cd ∧ cd.conn = some 1) ∧
      ∀ n cd, cfg.world.connections.lookup n = some cd → cd.conn ≠ some 2 := by
  have hreach := (Reachable.start.serve (c := .onOpen 1 (ascii "a")) rfl rfl).serve
    (c := .onOpen 2 (ascii "a")) rfl rfl
  have haccepted := (session_ownership hreach 1).1 (ascii "a") ⟨[], _, rfl, by simp⟩
  have hrejected := (session_ownership hreach 2).2
    ⟨[_, _], .close 2 "Duplicado.", [], rfl, .inr ⟨_, rfl⟩, by simp⟩
  obtain ⟨cd, hcd, hconn, -⟩ := haccepted
  exact ⟨_, hreach, ⟨cd, hcd, hconn⟩, hrejected.1⟩

end ChatServer
