import Netx.Tcp.AcceptLoop

/-!
# Tracked connections

`conns` holds the connections between `track` and `untrack`, no step on a
connection opens it again, and once `stopped` is set none is tracked any more.
-/

set_option autoImplicit false

namespace Netx.Tcp

open Errors

/-- The stages between `track` and `untrack`. -/
def Stage.tracked : Stage → Bool
  | .countAccepted | .countActive | .wgAdd | .spawn | .ready | .handling | .close => true
  | .releaseAdmit | .releasePerIP | .untrack => true
  | _ => false

def Stage.everTracked : Stage → Bool
  | .uncountActive | .countClosed | .wgDone | .gone .served => true
  | stage => stage.tracked

/-- The stages behind the close of the connection. -/
def Stage.behindClose : Stage → Bool
  | .releaseAdmit | .releasePerIP | .untrack | .uncountActive | .countClosed => true
  | .wgDone | .gone _ => true
  | _ => false

/-- The stages of a connection that `track` refused. -/
def Stage.refused : Stage → Bool
  | .refuseAdmit | .refusePerIP | .refuseClose | .gone .refused => true
  | _ => false

structure Shared.Tracking {Call : Type} (s : Shared Call) : Prop where
  conns : ∀ i, i ∈ s.server.conns ↔ (s.conn i).stage.tracked = true
  closed : ∀ i, (s.conn i).stage.behindClose = true → (s.conn i).closed = true
  refused : ∀ i, (s.conn i).stage.refused = true → s.server.stopped = true

theorem Stage.tracked_or_behindClose {stage : Stage} (ever : stage.everTracked = true) :
    stage.tracked = true ∨ stage.behindClose = true := by
  revert ever
  cases stage with
  | gone fate => cases fate <;> decide
  | admitCas loaded => simp [everTracked, tracked]
  | _ => decide

section Advance

variable {Call : Type} {i : Nat} {s s' : Server Call} {c c' : Conn}

private theorem releaseAdmit_conns (s : Server Call) (c : Conn) :
    (releaseAdmit s c).1.conns = s.conns ∧ (releaseAdmit s c).2.closed = c.closed := by
  unfold releaseAdmit
  split <;> exact ⟨rfl, rfl⟩

private theorem releasePerIP_conns (s : Server Call) (c : Conn) :
    (releasePerIP s c).1.conns = s.conns ∧ (releasePerIP s c).2.closed = c.closed := by
  unfold releasePerIP
  split
  · split <;> exact ⟨rfl, rfl⟩
  · exact ⟨rfl, rfl⟩

/-- What a step on a connection means for its being tracked, closed and refused. -/
structure Tracks (i : Nat) (s s' : Server Call) (c c' : Conn) : Prop where
  conns : s'.conns = s.conns ∧ c'.stage.tracked = c.stage.tracked ∨
    s'.conns = insert i s.conns ∧ c'.stage.tracked = true ∧ s.stopped = false ∨
    s'.conns = s.conns.erase i ∧ c'.stage.tracked = false
  ever : c'.stage.everTracked = true → c.stage.everTracked = true ∨ s.stopped = false
  stays : c.stage.everTracked = true → c'.stage.everTracked = true
  closed : c.closed = true → c'.closed = true
  behind : c'.stage.behindClose = true → c.stage.behindClose = true ∨ c'.closed = true
  refused : c'.stage.refused = true → c.stage.refused = true ∨ s.stopped = true

/-- A step that leaves `conns` alone and goes between stages that agree in all of this. -/
theorem Tracks.move (conns : s'.conns = s.conns) (closed : c'.closed = c.closed)
    (stage : c'.stage.tracked = c.stage.tracked ∧
      c'.stage.everTracked = c.stage.everTracked ∧
      c'.stage.behindClose = c.stage.behindClose ∧ c'.stage.refused = c.stage.refused) :
    Tracks i s s' c c' := by
  obtain ⟨tracked, ever, behind, refused⟩ := stage
  refine ⟨.inl ⟨conns, tracked⟩, ?_, ?_, ?_, ?_, ?_⟩
  · exact fun now => .inl (ever ▸ now)
  · exact fun before => ever ▸ before
  · exact fun before => closed ▸ before
  · exact fun now => .inl (behind ▸ now)
  · exact fun now => .inl (refused ▸ now)

private theorem advance_tracks (advanced : advance i s c = some (s', c')) : Tracks i s s' c c' := by
  have moved := advance_advances advanced
  generalize here : c.stage = stage at moved
  cases moved with
  | keyed key keyed =>
      refine .move rfl rfl ?_
      rw [here]
      cases keyed <;> exact ⟨rfl, rfl, rfl, rfl⟩
  | stopped stopped =>
      refine ⟨.inl ⟨rfl, by rw [here]; rfl⟩, nofun, ?_, id, nofun, fun _ => .inr stopped⟩
      rw [here]
      exact nofun
  | track running =>
      exact ⟨.inr (.inl ⟨rfl, rfl, running⟩), fun _ => .inr running, fun _ => rfl, id, nofun, nofun⟩
  | unkey | refusePerIP | releasePerIP =>
      exact .move (releasePerIP_conns s c).1 (releasePerIP_conns s c).2
        (by rw [here]; exact ⟨rfl, rfl, rfl, rfl⟩)
  | refuseAdmit | releaseAdmit =>
      exact .move (releaseAdmit_conns s c).1 (releaseAdmit_conns s c).2
        (by rw [here]; exact ⟨rfl, rfl, rfl, rfl⟩)
  | closePerIP | closeRejected | refuseClose | close =>
      refine ⟨.inl ⟨rfl, ?_⟩, ?_, ?_, fun _ => rfl, fun _ => .inr rfl, ?_⟩ <;> rw [here]
      · rfl
      · exact .inl
      · exact id
      · exact .inl
  | untrack =>
      refine ⟨.inr (.inr ⟨rfl, rfl⟩), ?_, ?_, id, ?_, nofun⟩ <;> rw [here]
      · exact .inl
      · exact id
      · exact .inl
  | _ => exact .move rfl rfl (by rw [here]; exact ⟨rfl, rfl, rfl, rfl⟩)

end Advance

structure Server.Forward {Call : Type} (s s' : Server Call) : Prop where
  stopped : s.stopped = true → s'.stopped = true
  idle : s.stopped = true → s.serving = false → s'.serving = false
  done : s.done = true → s'.done = true
  conns : s.stopped = true → s'.conns ⊆ s.conns

structure Conn.Forward (stopped : Bool) (c c' : Conn) : Prop where
  ever : stopped = true → c'.stage.everTracked = true → c.stage.everTracked = true
  stays : c.stage.everTracked = true → c'.stage.everTracked = true
  closed : c.stage.everTracked = true → c.closed = true → c'.closed = true

/-- What every step keeps, whoever takes it. -/
structure Shared.Forward {Call : Type} (s s' : Shared Call) : Prop where
  server : s.server.Forward s'.server
  conn : ∀ i, (s.conn i).Forward s.server.stopped (s'.conn i)
  ctx : ∀ c, (s.ctx c).isSome = true → s'.ctx c = s.ctx c
  closeCalled : s.closeCalled = true → s'.closeCalled = true
  broken : s.broken = true → s'.broken = true

section Forward

variable {Call : Type} {s s' s'' : Shared Call}

theorem Server.Forward.refl (s : Server Call) : s.Forward s :=
  ⟨id, fun _ => id, id, fun _ => subset_rfl⟩

theorem Conn.Forward.refl (stopped : Bool) (c : Conn) : c.Forward stopped c :=
  ⟨fun _ ever => ever, fun ever => ever, fun _ closed => closed⟩

theorem Shared.Forward.refl (s : Shared Call) : s.Forward s :=
  ⟨.refl s.server, fun i => .refl _ (s.conn i), fun _ _ => rfl, id, id⟩

theorem Shared.Forward.trans (first : s.Forward s') (second : s'.Forward s'') :
    s.Forward s'' := by
  refine ⟨⟨?_, ?_, ?_, ?_⟩, fun i => ⟨?_, ?_, ?_⟩, ?_, ?_, ?_⟩
  · exact fun stopped => second.server.stopped (first.server.stopped stopped)
  · intro stopped idle
    exact second.server.idle (first.server.stopped stopped) (first.server.idle stopped idle)
  · exact fun done => second.server.done (first.server.done done)
  · intro stopped
    exact (second.server.conns (first.server.stopped stopped)).trans (first.server.conns stopped)
  · intro stopped ever
    exact (first.conn i).ever stopped ((second.conn i).ever (first.server.stopped stopped) ever)
  · exact fun ever => (second.conn i).stays ((first.conn i).stays ever)
  · intro ever closed
    exact (second.conn i).closed ((first.conn i).stays ever) ((first.conn i).closed ever closed)
  · intro c ended
    have kept := first.ctx c ended
    exact (second.ctx c (kept ▸ ended)).trans kept
  · exact fun called => second.closeCalled (first.closeCalled called)
  · exact fun broken => second.broken (first.broken broken)

variable {server : Server Call} {c : Conn} {i : Nat}

theorem Shared.Forward.set (server_forward : s.server.Forward server)
    (conn_forward : (s.conn i).Forward s.server.stopped c) :
    s.Forward ((s.withServer server).setConn i c) := by
  refine ⟨server_forward, fun j => ?_, fun _ _ => rfl, id, id⟩
  by_cases same : j = i
  · subst same
    simp only [Shared.setConn, Function.update_self]
    exact conn_forward
  · simp only [Shared.setConn, Shared.withServer, Function.update_of_ne same]
    exact .refl _ (s.conn j)

theorem Shared.Forward.advance (advanced : advance i s.server (s.conn i) = some (server, c)) :
    s.Forward ((s.withServer server).setConn i c) := by
  have kept := advance_kept advanced
  have tracks := advance_tracks advanced
  refine .set ⟨kept.stopped.trans, fun _ => kept.serving.trans, kept.done.trans, ?_⟩
    ⟨?_, tracks.stays, fun _ => tracks.closed⟩
  · intro stopped
    rcases tracks.conns with ⟨same, _⟩ | ⟨_, _, running⟩ | ⟨erased, _⟩
    · rw [same]
    · rw [stopped] at running
      cases running
    · rw [erased]
      exact Finset.erase_subset i _
  · intro stopped ever
    refine (tracks.ever ever).resolve_right ?_
    rw [stopped]
    exact nofun

theorem Shared.Forward.closeConn (i : Nat) : s.Forward (s.setConn i (s.conn i).close) :=
  .set (.refl s.server) ⟨fun _ => id, id, fun _ _ => rfl⟩

/-- The number of a connection not accepted yet is free. -/
theorem Shared.Forward.accept (remote : Remote) (fresh : (s.conn s.accepts).stage = .keying) :
    s.Forward { s.setConn s.accepts { remote } with accepts := s.accepts + 1 } := by
  have free : (s.conn s.accepts).Forward s.server.stopped { remote } := by
    refine ⟨nofun, ?_, ?_⟩ <;> rw [fresh] <;> exact nofun
  have set := Shared.Forward.set (.refl s.server) free
  exact ⟨set.server, set.conn, set.ctx, set.closeCalled, set.broken⟩

theorem Shared.Tracking.put (tracking : s.Tracking)
    (stopped : s.server.stopped = true → server.stopped = true)
    (others : ∀ j, j ≠ i → (j ∈ server.conns ↔ j ∈ s.server.conns))
    (conns : i ∈ server.conns ↔ c.stage.tracked = true)
    (closed : c.stage.behindClose = true → c.closed = true)
    (refused : c.stage.refused = true → server.stopped = true) :
    ((s.withServer server).setConn i c).Tracking := by
  constructor
  · intro j
    by_cases same : j = i
    · subst same
      simp only [Shared.setConn, Shared.withServer, Function.update_self]
      exact conns
    · simp only [Shared.setConn, Shared.withServer, Function.update_of_ne same]
      exact (others j same).trans (tracking.conns j)
  · refine (Function.forall_update_iff s.conn fun (_ : Nat) (other : Conn) =>
      other.stage.behindClose = true → other.closed = true).mpr ⟨closed, ?_⟩
    exact fun j _ => tracking.closed j
  · refine (Function.forall_update_iff s.conn fun (_ : Nat) (other : Conn) =>
      other.stage.refused = true → server.stopped = true).mpr ⟨refused, ?_⟩
    exact fun j _ before => stopped (tracking.refused j before)

theorem Shared.Tracking.set (tracking : s.Tracking) (stopped : server.stopped = s.server.stopped)
    (tracks : Tracks i s.server server (s.conn i) c) :
    ((s.withServer server).setConn i c).Tracking := by
  refine tracking.put stopped.trans ?_ ?_ ?_ ?_
  · intro j apart
    rcases tracks.conns with ⟨conns, _⟩ | ⟨conns, _, _⟩ | ⟨conns, _⟩ <;> simp [conns, apart]
  · rcases tracks.conns with ⟨conns, stage⟩ | ⟨conns, stage, _⟩ | ⟨conns, stage⟩
    · rw [conns, stage]
      exact tracking.conns i
    · simp [conns, stage]
    · simp [conns, stage]
  · intro behind
    rcases tracks.behind behind with before | closed
    · exact tracks.closed (tracking.closed i before)
    · exact closed
  · intro refused
    rw [stopped]
    exact (tracks.refused refused).elim (tracking.refused i) fun now => now

/-- Steps that touch no connection. -/
theorem Shared.Tracking.control (tracking : s.Tracking) (conn : s'.conn = s.conn)
    (conns : s'.server.conns = s.server.conns)
    (stopped : s.server.stopped = true → s'.server.stopped = true) : s'.Tracking := by
  constructor
  · rw [conn, conns]
    exact tracking.conns
  · rw [conn]
    exact tracking.closed
  · rw [conn]
    exact fun i refused => stopped (tracking.refused i refused)

variable [DecidableEq Call] {call : Call} {pc pc' : Pc Call} {act : Act Call}

theorem Moves.forward (fresh : (s.conn s.accepts).stage = .keying)
    (moved : Moves call s pc act s' pc') : s.Forward s' := by
  cases moved with
  | accept remote => exact .accept remote fresh
  | work i server c inLoop advanced => exact .advance advanced
  | closeConn i after rest member => exact .closeConn i
  | gate stopped serving =>
      refine ⟨⟨id, fun now => ?_, id, fun _ => subset_rfl⟩, fun i => .refl _ (s.conn i),
        fun _ _ => rfl, id, id⟩
      rw [stopped] at now
      cases now
  | stopSet after =>
      exact ⟨⟨fun _ => rfl, fun _ => id, id, fun _ => subset_rfl⟩,
        fun i => .refl _ (s.conn i), fun _ _ => rfl, id, id⟩
  | closeDone err =>
      exact ⟨⟨id, fun _ => id, fun _ => rfl, fun _ => subset_rfl⟩,
        fun i => .refl _ (s.conn i), fun _ _ => rfl, id, id⟩
  | ctxEnds _ err running =>
      refine ⟨.refl s.server, fun i => .refl _ (s.conn i), fun c ended => ?_, id, id⟩
      have apart : c ≠ call := by
        intro same
        rw [same, running] at ended
        cases ended
      exact Function.update_of_ne apart _ _
  | close =>
      exact ⟨.refl s.server, fun i => .refl _ (s.conn i), fun _ _ => rfl, fun _ => rfl, id⟩
  | permanent err running =>
      exact ⟨.refl s.server, fun i => .refl _ (s.conn i), fun _ _ => rfl, id, fun _ => rfl⟩
  | _ =>
      exact ⟨⟨id, fun _ => id, id, fun _ => subset_rfl⟩, fun i => .refl _ (s.conn i),
        fun _ _ => rfl, id, id⟩

theorem World.forward_step {w next : World Call} {action : Action Call} (worked : w.Worked)
    (stepped : w.step action = some next) : w.shared.Forward next.shared := by
  rcases World.step_cases stepped with ⟨call, act, shared, pc, _, moved, rfl⟩ |
    ⟨i, server, c, _, advanced, rfl⟩ | ⟨i, handling, rfl⟩
  · exact moved.forward (worked.fresh _ (Nat.le_refl _))
  · exact .advance advanced
  · refine .set (.refl _) ⟨fun _ _ => ?_, fun _ => rfl, fun _ => id⟩
    rw [handling]
    rfl

theorem Moves.tracking (tracking : s.Tracking) (fresh : (s.conn s.accepts).stage = .keying)
    (moved : Moves call s pc act s' pc') : s'.Tracking := by
  cases moved with
  | accept remote =>
      have untracked : s.accepts ∉ s.server.conns := by
        rw [tracking.conns, fresh]
        exact nofun
      have put := tracking.put (c := { remote }) id (fun _ _ => .rfl)
        (iff_of_false untracked nofun) nofun nofun
      exact put.control rfl rfl id
  | work i server c inLoop advanced =>
      exact tracking.set (advance_kept advanced).stopped (advance_tracks advanced)
  | closeConn i after rest member =>
      refine tracking.set rfl ⟨.inl ⟨rfl, rfl⟩, .inl, fun ever => ever, fun _ => rfl, .inl, .inl⟩
  | stopSet after => exact tracking.control rfl rfl fun _ => rfl
  | _ => exact tracking.control rfl rfl id

theorem World.tracking_step {w next : World Call} {action : Action Call} (worked : w.Worked)
    (tracking : w.shared.Tracking) (stepped : w.step action = some next) :
    next.shared.Tracking := by
  rcases World.step_cases stepped with ⟨call, act, shared, pc, _, moved, rfl⟩ |
    ⟨i, server, c, _, advanced, rfl⟩ | ⟨i, handling, rfl⟩
  · exact moved.tracking tracking (worked.fresh _ (Nat.le_refl _))
  · exact tracking.set (advance_kept advanced).stopped (advance_tracks advanced)
  · refine tracking.set rfl (.move rfl rfl ?_)
    rw [handling]
    exact ⟨rfl, rfl, rfl, rfl⟩

end Forward

end Netx.Tcp
