import ChatServer.Calls
import ChatServer.Invariants
import ChatServer.Middleware

/-!
# The preflight and the handshake

`before_handle` looks at the status of an entry, and `on_open` at its connection. Each has its
own rule for names.
-/

open Program

namespace ChatServer

def Approves (name : Bytes) (w : World) : Prop :=
  ((beforeHandle (rootRequest name)).run w).1.map (·.code) = some 200

def Admits (conn : Conn) (name : Bytes) (w : World) : Prop :=
  let w' := ((onOpen conn name).run w).2
  w'.connOf name = some conn ∧ ∀ reason, .close conn reason ∉ w'.trace.drop w.trace.length

theorem approves_iff {name : Bytes} (h : 0 ∉ name) (w : World) :
    Approves name w ↔ name ≠ [] ∧ name ≠ generalChat ∧
      ∀ cd, w.connections.lookup name = some cd → cd.status = .disconnected := by
  unfold Approves
  rw [beforeHandle_root h]
  by_cases hname : name = [] ∨ name = generalChat
  · rw [if_pos hname]
    rcases hname with rfl | rfl <;> simp
  · rw [if_neg hname]
    rw [not_or] at hname
    cases hcd : w.connections.lookup name with
    | none => simp [hname]
    | some cd => by_cases hst : cd.status = .disconnected <;> simp [hname, hst]

theorem admits_iff {w : World} (hw : Sound w) (conn : Conn) (name : Bytes) :
    Admits conn name w ↔ ValidName name ∧ w.connOf name = none := by
  unfold Admits
  rw [onOpen_eq hw]
  unfold World.onOpen
  by_cases hname : ValidName name
  · rw [if_neg fun hbad => not_validName_iff.mpr hbad hname]
    cases hcd : w.connections.lookup name with
    | none =>
      have hnone : w.connOf name = none := by simp [World.connOf, hcd]
      have hconn := World.connOf_register w conn name (w.remoteIp conn) name
      rw [if_pos rfl] at hconn
      simp only [hname, hnone, and_self, iff_true]
      refine ⟨hconn, fun reason => ?_⟩
      simp [List.append_assoc]
    | some cd =>
      cases hc : cd.conn with
      | some c =>
        have hsome : w.connOf name = some c := by simp [World.connOf, hcd, hc]
        dsimp only
        rw [if_pos (by simp [hc])]
        simp [hsome, World.rejectDuplicate]
      | none =>
        have hnone : w.connOf name = none := by simp [World.connOf, hcd, hc]
        have hconn := World.connOf_reconnect w conn (w.remoteIp conn) (World.backStatus cd) hcd name
        rw [if_pos rfl] at hconn
        dsimp only
        rw [if_neg (by simp [hc])]
        simp only [hname, hnone, and_self, iff_true]
        refine ⟨hconn, fun reason => ?_⟩
        simp [List.append_assoc]
  · rw [if_pos (not_validName_iff.mp hname)]
    simp [hname]

/-- **Preflight.** For a name without NUL bytes and a fresh connection, the two checks agree if
and only if the name is not too long, and its entry is DISCONNECTED exactly when it has no
connection. -/
theorem preflight_agrees_iff {cfg : Config} (h : Reachable cfg) {name : Bytes} (h0 : 0 ∉ name)
    (conn : Conn) :
    (Approves name cfg.world ↔ Admits conn name cfg.world) ↔
      name.length ≤ 20 ∧ ∀ cd, cfg.world.connections.lookup name = some cd →
        (cd.status = .disconnected ↔ cd.conn = none) := by
  have hnames := h.sound.names name
  rw [approves_iff h0, admits_iff h.sound]
  cases hcd : cfg.world.connections.lookup name with
  | none =>
    have hnone : cfg.world.connOf name = none := by simp [World.connOf, hcd]
    by_cases hlen : name.length ≤ 20
    · simp [hnone, ValidName, hlen]
    · -- A long name is neither empty nor `~`, so only the preflight lets it through.
      have hne : name ≠ [] ∧ name ≠ generalChat := by
        constructor <;> rintro rfl <;> exact hlen (by decide)
      simp [hnone, ValidName, hlen, hne]
  | some cd =>
    have hname := hnames (by simp [hcd])
    have hconn : cfg.world.connOf name = cd.conn := by simp [World.connOf, hcd]
    simp [hconn, hname, hname.1, hname.2.1, hname.2.2]

theorem preflight_agrees_left : ∃ cfg, Reachable cfg ∧ Admits 2 (ascii "a") cfg.world ∧
    (Approves (ascii "a") cfg.world ↔ Admits 2 (ascii "a") cfg.world) := by
  have hreach := (Reachable.start.serve (c := .onOpen 1 (ascii "a")) rfl rfl).serve
    (c := .onClose 1) rfl rfl
  refine ⟨_, hreach, (admits_iff hreach.sound _ _).mpr ⟨by decide, by decide⟩, ?_⟩
  refine (preflight_agrees_iff hreach (by decide) 2).mpr ⟨by decide, ?_⟩
  intro cd hcd
  obtain rfl := Option.some.inj hcd
  simp

theorem preflight_disagrees : ¬ ∀ cfg, Reachable cfg → ∀ name, 0 ∉ name → ∀ conn,
    (∀ u, cfg.world.connOf u ≠ some conn) →
      (Approves name cfg.world ↔ Admits conn name cfg.world) := by
  intro h
  have hagree := h _ .start (List.replicate 21 97) (by decide) 1 (fun _ => nofun)
  rw [approves_iff (by decide), admits_iff Reachable.start.sound] at hagree
  have hname := (hagree.mp ⟨by decide, by decide, fun _ => nofun⟩).1
  exact absurd hname (by decide)

end ChatServer
