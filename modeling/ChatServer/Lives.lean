import ChatServer.Timeline

/-!
# The life of an entry

What becomes of the entry of one user, and of the messages under its name, whatever the threads do
in between.
-/

open Program

namespace ChatServer

/-! ## Entries -/

/-- What a step of `t` at `now`, in which the server does `news`, makes of the entry of `n`. -/
inductive Change (t : Thread) (now : TimePoint) (news : List Event) (n : Bytes) :
    Option ConnectionData → Option ConnectionData → Prop
  | stay (cd : Option ConnectionData) : Change t now news n cd cd
  | enter {conn : Conn} {status : UserStatus} (uuid clientIp : Bytes) (ht : t = .handlers conn)
      (hopen : .accepted conn n ∈ news) (hname : ValidName n) (hstatus : status ≠ .disconnected) :
      Change t now news n none (some ⟨n, uuid, some conn, status, now, clientIp⟩)
  | back {conn : Conn} {cd : ConnectionData} (clientIp : Bytes) (ht : t = .handlers conn)
      (hopen : .accepted conn n ∈ news) (hconn : cd.conn = none) :
      Change t now news n (some cd) (some { cd with
        conn := some conn
        lastActive := now
        ipAddress := clientIp
        status := World.backStatus cd })
  | touch {conn : Conn} {cd : ConnectionData} (ht : t = .handlers conn) (hconn : cd.conn = some conn) :
      Change t now news n (some cd) (some { cd with lastActive := now })
  | setStatus {conn : Conn} {cd : ConnectionData} (status : UserStatus) (ht : t = .handlers conn)
      (hconn : cd.conn = some conn) :
      Change t now news n (some cd) (some { cd with status := status, lastActive := now })
  /-- A connection that has no name runs under that of the fallback sender. -/
  | haunt {conn : Conn} {cd : ConnectionData} (status : UserStatus) (ht : t = .handlers conn)
      (hn : n = desconocido) (hconn : cd.conn ≠ some conn) :
      Change t now news n (some cd) (some { cd with status := status, lastActive := now })
  | leave {conn : Conn} {cd : ConnectionData} (ht : t = .handlers conn) (hclose : .left conn ∈ news)
      (hconn : cd.conn = some conn) :
      Change t now news n (some cd) (some { cd with status := .disconnected, conn := none })
  | mark {cd : ConnectionData} (hidle : isIdle now cd) :
      Change t now news n (some cd) (some { cd with status := .inactivo })
  | expire {cd : ConnectionData} (hexpired : isExpired now cd) : Change t now news n (some cd) none

/-- The entry of `n` has come to `cd` by the steps of a log. -/
inductive Lives (n : Bytes) : Option ConnectionData → List Entry → Prop
  | start : Lives n none []
  | step {log : List Entry} {e : Entry} (h : Lives n (e.before.connections.lookup n) log)
      (hchange : Change e.thread e.time e.news n (e.before.connections.lookup n)
        (e.after.connections.lookup n)) : Lives n (e.after.connections.lookup n) (e :: log)

section Steps

variable {t : Thread} {now : TimePoint} {news : List Event} {n : Bytes} {w w' : World}

theorem Change.of_connections (h : w'.connections = w.connections) :
    Change t now news n (w.connections.lookup n) (w'.connections.lookup n) :=
  h ▸ .stay _

theorem Change.modify {username : Bytes} {f : ConnectionData → ConnectionData}
    (hconn : w'.connections = w.connections.modify username f)
    (hf : ∀ cd, w.connections.lookup username = some cd →
      Change t now news username (some cd) (some (f cd))) :
    Change t now news n (w.connections.lookup n) (w'.connections.lookup n) := by
  rw [hconn, Table.lookup_modify]
  split
  · rename_i hn
    subst hn
    cases hcd : w.connections.lookup n with
    | none => exact .stay none
    | some cd => exact hf cd hcd
  · exact .stay _

theorem freshStatus_ne_disconnected (w : World) (username : Bytes) :
    w.freshStatus username ≠ .disconnected := by
  unfold World.freshStatus
  split <;> simp_all

/-- Each deed changes an entry in one of these ways. -/
theorem Deed.change {α : Type} {i j : Stage} {p : Prog α} (h : Deed t w i p j w') (hw : Sound w)
    (hclock : w.steadyClock = fun _ => now) (hi : Knows t w i) (n : Bytes) :
    Change t now (w'.trace.drop w.trace.length) n (w.connections.lookup n)
      (w'.connections.lookup n) := by
  have hnow : w.steadyClock 0 = now := by rw [hclock]
  have hnews : ∀ ev, ev ∈ (w.trace ++ [ev]).drop w.trace.length := by
    intro ev
    rw [List.drop_left]
    exact List.mem_singleton_self ev
  have hown : ∀ {conn : Conn} {u : Bytes} {cd : ConnectionData}, w.connOf u = some conn →
      w.connections.lookup u = some cd → cd.conn = some conn := by
    intro conn u cd hu hcd
    obtain ⟨cd', hcd', hconn⟩ := World.connOf_eq_some.mp hu
    rw [hcd, Option.some.injEq] at hcd'
    exact hcd' ▸ hconn
  cases h with
  | quiet | refuse | nameless | storeGeneral | storePrivate | deliver | joined | leave =>
    exact .of_connections rfl
  | @touch _ conn _ _ e ht hp hfind =>
    apply Change.modify (World.touch_connections _ _)
    intro cd hcd
    rw [hnow]
    exact .touch ht (hown (World.findConn_eq_some hfind).2 hcd)
  | @setStatus _ sender status hp =>
    apply Change.modify (World.setStatus_connections _ _ _)
    intro cd hcd
    rw [hnow]
    obtain ⟨conn, ht, hconn | ⟨rfl, hfree⟩⟩ := hi
    · exact .setStatus status ht (hown ((hw.owned _ _).mpr hconn) hcd)
    · -- The connection has no entry, also not that of the name that it runs under.
      refine .haunt status ht rfl fun hconn => hfree desconocido ?_
      exact (hw.owned _ _).mp (World.connOf_eq_some.mpr ⟨cd, hcd, hconn⟩)
  | @register _ conn username clientIp ht hname hnew =>
    rw [World.register_connections, Table.lookup_insert_eq]
    split
    · rename_i hn
      subst hn
      rw [hnew, World.freshEntry, hnow]
      exact .enter _ clientIp ht (hnews _) hname (freshStatus_ne_disconnected w n)
    · exact .stay _
  | @reconnect _ conn username cd clientIp ht hname hcd hconn =>
    apply Change.modify (World.reconnect_connections _ _ _ _ _)
    intro cd' hcd'
    rw [hcd, Option.some.injEq] at hcd'
    rw [← hcd', hnow]
    exact .back clientIp ht (hnews _) hconn
  | @disconnect _ conn e ht hfind =>
    apply Change.modify (World.disconnect_connections _ _ _ _)
    exact fun cd hcd => .leave ht (hnews _) (hown (World.findConn_eq_some hfind).2 hcd)
  | markIdle =>
    cases hcd' : w.markIdle.connections.lookup n with
    | none =>
      rw [World.markIdle_connections, Table.lookup_mapVal, Option.map_eq_none_iff] at hcd'
      rw [hcd']
      exact .stay none
    | some cd' =>
      obtain ⟨cd, hcd, ⟨hmem, rfl⟩ | rfl⟩ := World.of_lookup_markIdle hcd'
      · obtain ⟨cd'', hcd'', hidle⟩ := World.mem_idleUsers.mp hmem
        rw [hcd, Option.some.injEq] at hcd''
        subst hcd''
        rw [hcd]
        exact .mark (hnow ▸ hidle)
      · rw [hcd]
        exact .stay _
  | eraseExpired =>
    rw [World.eraseExpired_connections, Table.lookup_filter]
    cases hcd : w.connections.lookup n with
    | none => exact .stay none
    | some cd =>
      by_cases hmem : n ∈ w.expiredUsers (w.steadyClock 0)
      · obtain ⟨cd', hcd', hexpired⟩ := World.mem_expiredUsers.mp hmem
        rw [hcd, Option.some.injEq] at hcd'
        subst hcd'
        have hgone : Option.filter (fun _ : ConnectionData =>
            decide (n ∉ w.expiredUsers (w.steadyClock 0))) (some cd) = none := by simp [hmem]
        rw [hgone]
        exact .expire (hnow ▸ hexpired)
      · have hstays : Option.filter (fun _ : ConnectionData =>
            decide (n ∉ w.expiredUsers (w.steadyClock 0))) (some cd) = some cd := by simp [hmem]
        rw [hstays]
        exact .stay _

/-- Who has a connection has it from before, or gets it from its own open handler. -/
theorem Change.online {o : Option ConnectionData} {cd' : ConnectionData} {conn : Conn}
    (h : Change t now news n o (some cd')) (hconn : cd'.conn = some conn) :
    t = .handlers conn ∧ .accepted conn n ∈ news ∧ o.bind (·.conn) = none ∨
      ∃ cd, o = some cd ∧ cd.conn = some conn ∧ cd.uuid = cd'.uuid ∧ cd.ipAddress = cd'.ipAddress := by
  cases h with
  | stay => exact .inr ⟨cd', rfl, hconn, rfl, rfl⟩
  | enter uuid clientIp ht hopen =>
    obtain rfl := Option.some.inj hconn
    exact .inl ⟨ht, hopen, rfl⟩
  | back clientIp ht hopen hgone =>
    obtain rfl := Option.some.inj hconn
    exact .inl ⟨ht, hopen, hgone⟩
  | touch | setStatus | haunt | mark => exact .inr ⟨_, rfl, hconn, rfl, rfl⟩
  | leave => cases hconn

end Steps

/-! ## Runs -/

/-- The connection of a user is that of the last open handler that put it there, and the session of
the user is the same since. -/
theorem Lives.online {n : Bytes} {o : Option ConnectionData} {log : List Entry} (h : Lives n o log)
    {cd : ConnectionData} (hcd : o = some cd) {conn : Conn} (hconn : cd.conn = some conn) :
    ∃ newer e older, log = newer ++ e :: older ∧ e.thread = .handlers conn ∧
      .accepted conn n ∈ e.news ∧ e.before.connOf n = none ∧
        ∀ x ∈ newer ++ [e], ∃ cd', x.after.connections.lookup n = some cd' ∧
          cd'.conn = some conn ∧ cd'.uuid = cd.uuid ∧ cd'.ipAddress = cd.ipAddress := by
  induction h generalizing cd with
  | start => cases hcd
  | @step log x _ hchange ih =>
    have hself : ∃ cd', x.after.connections.lookup n = some cd' ∧ cd'.conn = some conn ∧
        cd'.uuid = cd.uuid ∧ cd'.ipAddress = cd.ipAddress := ⟨cd, hcd, hconn, rfl, rfl⟩
    rw [hcd] at hchange
    rcases hchange.online hconn with ⟨ht, hopen, hfree⟩ | ⟨cd₀, hcd₀, hconn₀, huuid, hip⟩
    · exact ⟨[], x, log, rfl, ht, hopen, hfree, by simpa using hself⟩
    · obtain ⟨newer, e, older, rfl, ht, hopen, hfree, hsince⟩ := ih hcd₀ hconn₀
      refine ⟨x :: newer, e, older, rfl, ht, hopen, hfree, fun y hy => ?_⟩
      rcases List.mem_cons.mp hy with rfl | hy
      · exact hself
      · rw [← huuid, ← hip]
        exact hsince y hy

theorem Timed.lives {cfg : Config} {log : List Entry} (h : Timed cfg log) (n : Bytes) :
    Lives n (cfg.world.connections.lookup n) log := by
  have hmove : KeptByDeeds fun _ w log => Lives n (w.connections.lookup n) log := by
    intro stage w log t now code j w' arrival hw hknows _ hJ hdeed
    exact .step (e := ⟨t, code, now, w.atTime now, w', arrival⟩) hJ
      (hdeed.change (hw.atTime now) rfl (hknows.atTime now) n)
  have hinit : ∀ clock time ip, Lives n ((World.init clock time ip).connections.lookup n) [] := by
    intro clock time ip
    rw [World.init, AList.lookup_empty]
    exact .start
  obtain ⟨stage, -, hJ⟩ := h.always hinit (fun _ _ _ _ hJ => hJ) hmove
  exact hJ

/-- **The life of an entry.** In every run, what becomes of the entry of a user is a life: it enters,
leaves and comes back by the handlers of its own connections, which nobody takes over, the monitor
marks it, and it expires. While it has a connection, its session is that of one `on_open`, which
keeps the identifier of an entry that it finds. -/
theorem entries_live {cfg : Config} {log : List Entry} (h : Timed cfg log) (n : Bytes) :
    Lives n (cfg.world.connections.lookup n) log ∧ ∀ cd conn,
      cfg.world.connections.lookup n = some cd → cd.conn = some conn →
        ∃ newer e older, log = newer ++ e :: older ∧ e.thread = .handlers conn ∧
          .accepted conn n ∈ e.news ∧ e.before.connOf n = none ∧ ∀ x ∈ newer ++ [e], ∃ cd',
            x.after.connections.lookup n = some cd' ∧ cd'.conn = some conn ∧
              cd'.uuid = cd.uuid ∧ cd'.ipAddress = cd.ipAddress :=
  ⟨h.lives n, fun _ _ hcd hconn => (h.lives n).online hcd hconn⟩

/-- `a` writes to everybody, leaves, and comes back by another connection. -/
def comesBack : List Turn :=
  [.call (.onOpen 1 (ascii "a")), .steps (.handlers 1) 0 40,
    .call (.onMessage 1 (4 :: pushString8 generalChat ++ pushString8 (ascii "x")) true),
    .steps (.handlers 1) 0 40, .call (.onClose 1), .steps (.handlers 1) 0 40,
    .call (.onOpen 2 (ascii "a")), .steps (.handlers 2) 0 40]

theorem entries_live_back : ∃ cfg log, Timed cfg log ∧
    Lives (ascii "a") (cfg.world.connections.lookup (ascii "a")) log ∧
      ∃ newer e older, log = newer ++ e :: older ∧ e.thread = .handlers 2 ∧
        .accepted 2 (ascii "a") ∈ e.news ∧ e.before.connOf (ascii "a") = none := by
  have hconn : (playAll comesBack).1.world.connOf (ascii "a") = some 2 := by decide +kernel
  obtain ⟨cd, hcd, hconn⟩ := World.connOf_eq_some.mp hconn
  obtain ⟨hlives, honline⟩ := entries_live (timed_playAll comesBack) (ascii "a")
  obtain ⟨newer, e, older, hlog, ht, hopen, hfree, -⟩ := honline cd 2 hcd hconn
  exact ⟨_, _, timed_playAll comesBack, hlives, newer, e, older, hlog, ht, hopen, hfree⟩

/-! ## Messages -/

/-- What a deed adds to a chat is a message of the user for whom the handler runs. -/
theorem Deed.author {t : Thread} {w w' : World} {α : Type} {i j : Stage} {p : Prog α}
    (h : Deed t w i p j w') (hw : Sound w) (hi : Knows t w i) (chat : Chat) :
    w'.entries chat = w.entries chat ∨ ∃ conn s msg, t = .handlers conn ∧
      (w.connOf s = some conn ∨ s = desconocido ∧ w.findConn conn = none) ∧
        w'.entries chat = w.entries chat ++ [(s, msg)] := by
  have hsender : ∀ {s : Bytes}, Knows t w (.acting s) → ∃ conn, t = .handlers conn ∧
      (w.connOf s = some conn ∨ s = desconocido ∧ w.findConn conn = none) := by
    rintro s ⟨conn, ht, hconn | ⟨hs, hfree⟩⟩
    · exact ⟨conn, ht, .inl ((hw.owned _ _).mpr hconn)⟩
    · refine ⟨conn, ht, .inr ⟨hs, World.findConn_eq_none.mpr fun n hn => ?_⟩⟩
      exact hfree n ((hw.owned _ _).mp hn)
  cases h with
  | @storeGeneral _ sender msg =>
    rw [entries_storeGeneral]
    split
    · obtain ⟨conn, ht, hconn⟩ := hsender hi
      exact .inr ⟨conn, sender, msg, ht, hconn, rfl⟩
    · exact .inl (List.append_nil _)
  | @storePrivate _ sender recipient msg =>
    rw [entries_storePrivate]
    split
    · obtain ⟨conn, ht, hconn⟩ := hsender hi
      exact .inr ⟨conn, sender, msg, ht, hconn, rfl⟩
    · exact .inl (List.append_nil _)
  | _ => exact .inl (entries_congr rfl rfl chat)

theorem getElem?_concat_cases {α : Type} {xs : List α} {x y : α} {k : Nat}
    (h : (xs ++ [x])[k]? = some y) : xs[k]? = some y ∨ xs.length = k ∧ x = y := by
  rw [List.getElem?_append] at h
  split at h
  · exact .inl h
  · obtain ⟨hlt, heq⟩ := List.getElem?_eq_some_iff.mp h
    rw [List.length_singleton] at hlt
    exact .inr ⟨by omega, by simpa using heq⟩

/-- The step `e` adds `m` to the chat, in the place `k`, by a handler of a connection that its author
has then. -/
def Authors (e : Entry) (chat : Chat) (k : Nat) (m : Message) : Prop :=
  ∃ conn, e.thread = .handlers conn ∧
    (e.before.connOf m.1 = some conn ∨ m.1 = desconocido ∧ e.before.findConn conn = none) ∧
      (e.before.entries chat).length = k ∧ e.after.entries chat = e.before.entries chat ++ [m]

/-- Each place of each chat is the work of a step that its author took. -/
def Authored (w : World) (log : List Entry) : Prop :=
  ∀ chat k m, (w.entries chat)[k]? = some m → ∃ e ∈ log, Authors e chat k m

/-- **No forged messages.** Every message in a history, repeated ones included, was stored by a
handler of the connection that its author had at that moment. Only under the name of the fallback
sender a connection without a name may have written. -/
theorem no_forged_messages {cfg : Config} {log : List Entry} (h : Timed cfg log) :
    Authored cfg.world log := by
  have hinit : ∀ clock time ip, Authored (.init clock time ip) [] := by
    intro clock time ip chat k m hm
    cases chat <;> simp [World.entries, World.chat, World.init] at hm
  have hmove : KeptByDeeds fun _ w log => Authored w log := by
    intro stage w log t now code j w' arrival hw hknows _ hJ hdeed chat k m hm
    have htime : (w.atTime now).entries chat = w.entries chat := entries_congr rfl rfl chat
    have hold : (w.entries chat)[k]? = some m →
        ∃ e ∈ (⟨t, code, now, w.atTime now, w', arrival⟩ : Entry) :: log, Authors e chat k m := by
      intro hmem
      obtain ⟨e, he, hauthor⟩ := hJ chat k m hmem
      exact ⟨e, List.mem_cons_of_mem _ he, hauthor⟩
    rcases hdeed.author (hw.atTime now) (hknows.atTime now) chat with
      hsame | ⟨conn, s, msg, ht, hconn, hadds⟩
    · exact hold (htime ▸ hsame ▸ hm)
    · rcases getElem?_concat_cases (hadds ▸ hm) with hmem | ⟨hk, rfl⟩
      · exact hold (htime ▸ hmem)
      · exact ⟨_, List.mem_cons_self, conn, ht, hconn, hk, hadds⟩
  obtain ⟨stage, -, hJ⟩ := h.always hinit (fun _ _ _ _ hJ => hJ) hmove
  exact hJ

theorem no_forged_messages_back : ∃ cfg log, Timed cfg log ∧
    (ascii "a", ascii "x") ∈ cfg.world.entries .general ∧ Authored cfg.world log := by
  have hauthored := no_forged_messages (timed_playAll comesBack)
  exact ⟨_, _, timed_playAll comesBack, by decide +kernel, hauthored⟩

end ChatServer
