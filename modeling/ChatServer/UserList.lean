import ChatServer.Calls
import ChatServer.Invariants

/-!
# The user list

A 51 frame has one byte for the number of users, and the table has no bound.
-/

open Program

namespace ChatServer

/-- A request for the status of `name` is answered with `st`. -/
def Answers (w : World) (conn : Conn) (name : Bytes) (st : UInt8) : Prop :=
  ∃ reply, ((handleGetUserInfo conn (2 :: pushString8 name) 1).run.run w).2.trace =
      w.trace ++ [.sendBinary conn reply] ∧
    decodeFrame reply = some (.userInfo name st)

/-- The frame of `handle_list_users` decodes to each user of `connections` once, with the status
that a request for it would be answered with. -/
def ListsAll (w : World) (conn : Conn) : Prop :=
  ∃ payload users,
    ((handleListUsers conn).run w).2.trace = w.trace ++ [.sendBinary conn payload] ∧
    decodeFrame payload = some (.userList users) ∧
    (users.map Prod.fst).Perm w.connections.keys ∧
    ∀ name st, (name, st) ∈ users → Answers w conn name st

theorem answers_of_lookup {w : World} {name : Bytes} {cd : ConnectionData}
    (hcd : w.connections.lookup name = some cd) (hname : name.length < 256) (conn : Conn) :
    Answers w conn name (userStatusToByte cd.status) := by
  have hread : readString8 (2 :: pushString8 name) 1 = .ok (name, 1 + 1 + name.length) :=
    (readString8_ok_iff _ _ _ _).mpr ⟨rfl, hname, [], by simp⟩
  refine ⟨userInfoPayload name (some cd), ?_, decodeFrame_userInfo hname _⟩
  unfold handleGetUserInfo
  rw [hread, exceptT_ok_bind]
  simp only [exceptT_lift, run_bind, answerUserInfo_run, hcd]
  rfl

theorem handleListUsers_trace (conn : Conn) (w : World) :
    ((handleListUsers conn).run w).2.trace =
      w.trace ++ [.sendBinary conn (userListPayload w.connections.entries)] :=
  congrArg (fun r => r.2.trace) (sendUserList_run conn w)

/-- With more entries, the count and the entries of the frame do not go together. -/
theorem ListsAll.short {w : World} (hw : Sound w) {conn : Conn} (h : ListsAll w conn) :
    w.connections.entries.length ≤ 255 := by
  obtain ⟨payload, users, htrace, hdecode, -⟩ := h
  by_contra hlong
  rw [handleListUsers_trace, List.append_cancel_left_eq, List.cons.injEq,
    Event.sendBinary.injEq] at htrace
  rw [← htrace.1.2, userListPayload_eq] at hdecode
  have hlen : (userList w.connections.entries).length = w.connections.entries.length :=
    List.length_map _
  have hnone := namedStatus.list8_decodeAll_of_length
    (n := UInt8.ofNat (userList w.connections.entries).length) (userList_fits hw) (fun _ => nofun)
    (by rw [UInt8.toNat_ofNat']; omega)
  simp [decodeFrame, hnone] at hdecode

theorem listsAll_of_short {w : World} (hw : Sound w) (conn : Conn)
    (h : w.connections.entries.length ≤ 255) : ListsAll w conn := by
  refine ⟨_, userList w.connections.entries, handleListUsers_trace conn w, ?_, ?_, ?_⟩
  · have hall := (namedStatus.list8.decodeAll_eq_some _ _).mpr
      ⟨⟨by rw [userList, List.length_map]; omega, userList_fits hw⟩, rfl⟩
    rw [userListPayload_eq]
    unfold decodeFrame
    change (namedStatus.list8.decodeAll (namedStatus.list8.encode _)).map _ = _
    rw [hall]
    rfl
  · unfold userList
    rw [List.map_map]
    exact .refl _
  · intro name st hmem
    obtain ⟨e, he, heq⟩ := List.mem_map.mp hmem
    obtain ⟨rfl, rfl⟩ := Prod.mk.inj heq
    have hcd := Table.lookup_eq_some.mpr he
    exact answers_of_lookup hcd (hw.name_of_lookup hcd).length_lt conn

/-- **User list.** It is complete as long as there are at most 255 entries, and never beyond. -/
theorem listsAll_iff {cfg : Config} (h : Reachable cfg) (conn : Conn) :
    ListsAll cfg.world conn ↔ cfg.world.connections.entries.length ≤ 255 :=
  ⟨ListsAll.short h.sound, listsAll_of_short h.sound conn⟩

theorem listsAll_two : ∃ cfg, Reachable cfg ∧ cfg.world.connections.entries.length = 2 ∧
    ListsAll cfg.world 1 := by
  have hreach := (Reachable.start.serve (c := .onOpen 1 (ascii "a")) rfl rfl).serve
    (c := .onOpen 2 (ascii "b")) rfl rfl
  exact ⟨_, hreach, by decide, (listsAll_iff hreach 1).mpr (by decide)⟩

/-! ## A table with 256 entries -/

def guest (i : Nat) : Bytes := [103, UInt8.ofNat i]

theorem guest_ne {i j : Nat} (hi : i < 256) (hj : j < 256) (h : i ≠ j) : guest i ≠ guest j := by
  intro heq
  have hbyte : UInt8.ofNat i = UInt8.ofNat j := by simpa [guest] using heq
  have hnat := congrArg UInt8.toNat hbyte
  rw [Codec.toNat_ofNat_of_lt hi, Codec.toNat_ofNat_of_lt hj] at hnat
  exact h hnat

theorem crowd (k : Nat) (hk : k ≤ 256) : ∃ cfg, Reachable cfg ∧ cfg.AtRest ∧
    cfg.world.connections.entries.length = k ∧ (∀ c, k ≤ c → cfg.opened c = false) ∧
    ∀ i, k ≤ i → i < 256 → cfg.world.connections.lookup (guest i) = none := by
  induction k with
  | zero =>
    exact ⟨_, .start, fun _ => rfl, rfl, fun _ _ => rfl, fun _ _ _ => rfl⟩
  | succ k ih =>
    obtain ⟨cfg, hreach, hrest, hlen, hopened, hnew⟩ := ih (by omega)
    have hvalid : ValidName (guest k) := by
      refine ⟨nofun, by simp [guest], fun heq => ?_⟩
      have hl := congrArg List.length heq
      simp [guest, generalChat, ascii] at hl
    have hk' := hnew k le_rfl (by omega)
    have hworld : (cfg.serve (.onOpen k (guest k))).world =
        (cfg.world.register k (guest k) (cfg.world.remoteIp k)).welcome (guest k)
          (cfg.world.freshStatus (guest k)) := by
      rw [Config.serve_world]
      change ((onOpen k (guest k)).run cfg.world).2 = _
      rw [onOpen_eq hreach.sound, World.onOpen,
        if_neg fun hbad => not_validName_iff.mpr hbad hvalid, hk']
    refine ⟨_, hreach.serve (c := .onOpen k (guest k)) (hrest _) (by
      simp [Config.allows, hopened k le_rfl]), hrest.serve _, ?_⟩
    rw [hworld]
    refine ⟨?_, ?_, ?_⟩
    · rw [World.welcome_connections, World.register_connections,
        AList.entries_insert_of_notMem (AList.lookup_eq_none.mp hk'), List.length_cons, hlen]
    · intro c hc
      exact (Function.update_of_ne (by omega : c ≠ k) ..).trans (hopened c (by omega))
    · intro i hi hi'
      rw [World.welcome_connections, World.register_connections,
        AList.lookup_insert_ne (guest_ne hi' (by omega) (by omega))]
      exact hnew i (by omega) hi'

theorem listsAll_fails : ¬ ∀ cfg, Reachable cfg → ∀ conn, ListsAll cfg.world conn := by
  intro h
  obtain ⟨cfg, hreach, -, hlen, -⟩ := crowd 256 le_rfl
  have hshort := (h _ hreach 0).short hreach.sound
  omega

end ChatServer
