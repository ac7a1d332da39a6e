import Netx.Transition.Tally
import Netx.Udp.CloseOrder

/-!
# The one `Serve` and its readers

One call at most passes the gate of `Serve`. The readers are its own, its wait group
counts those that run, and after it has waited for them none runs again.
-/

set_option autoImplicit false

namespace Netx.Udp

open Errors Sync Transition

/-- The call has passed the gate of `Serve`. -/
def Pc.Serves : Pc → Prop
  | .afterFunc | .spawn _ | .wait | .readFatal | .unregister _ | .closeDone _
  | .returned (.served _) => True
  | _ => False

/-- `Serve` has waited for its readers. -/
def Pc.Waited : Pc → Prop
  | .readFatal | .unregister _ | .closeDone _ | .returned (.served _) => True
  | _ => False

/-- `Serve` has yet to start reader `i`. -/
def Pc.Unstarted (i : Nat) : Pc → Prop
  | .afterFunc => True
  | .spawn k => k ≤ i
  | _ => False

/-- What `Serve` has found to return. -/
def Pc.found : Pc → Option (Option Err)
  | .unregister err | .closeDone err | .returned (.served err) => some err
  | _ => none

def Stage.active : Stage → Bool
  | .absent | .gone => false
  | _ => true

def Reader.load (r : Reader) : Int :=
  if r.stage.active then 1 else 0

structure World.Gated {Call : Type} (o : Options) (w : World Call) : Prop where
  single : ∀ a b, (w.pc a).Serves → (w.pc b).Serves → a = b
  serving : ∀ a, (w.pc a).Serves → w.shared.conn.serving = true
  served : w.shared.conn.serving = true → ∃ a, (w.pc a).Serves
  started : ∀ i, (w.shared.reader i).stage ≠ .absent →
    w.shared.conn.serving = true ∧ i < o.readers
  unstarted : ∀ a i, (w.pc a).Unstarted i → (w.shared.reader i).stage = .absent
  wg : w.shared.conn.wg = tally (Finset.range o.readers) w.shared.reader Reader.load
  settled : ∀ a, (w.pc a).Waited → ∀ i, (w.shared.reader i).stage.active = false
  done : w.shared.conn.done = true → ∃ a, (w.pc a).Waited
  found : ∀ a err, (w.pc a).found = some err → w.shared.conn.fatal = err

/-- Somebody is inside `Close`. -/
def World.Closes {Call : Type} (w : World Call) : Prop :=
  (∃ i stage, (w.shared.reader i).stage = .closing stage ∧ stage ≠ .enter) ∨
    ∃ a stage after, w.pc a = .close stage after ∧ stage ≠ .enter

section Points

variable {pc : Pc}

theorem Pc.Waited.serves (waited : pc.Waited) : pc.Serves := by
  cases pc with
  | readFatal | unregister | closeDone => trivial
  | returned reply => cases reply <;> trivial
  | _ => exact waited.elim

theorem Pc.Unstarted.serves {i : Nat} (unstarted : pc.Unstarted i) : pc.Serves := by
  cases pc with
  | afterFunc | spawn => trivial
  | _ => exact unstarted.elim

theorem Pc.waited_of_found {err : Option Err} (found : pc.found = some err) : pc.Waited := by
  cases pc with
  | unregister | closeDone => trivial
  | returned reply => cases reply <;> trivial
  | _ => cases found

theorem Pc.Unstarted.not_waited {i : Nat} (unstarted : pc.Unstarted i) : ¬pc.Waited := by
  cases pc with
  | afterFunc | spawn => exact id
  | _ => exact unstarted.elim

theorem Reader.load_active {r : Reader} (active : r.stage.active = true) : r.load = 1 :=
  if_pos active

theorem Reader.load_inactive {r : Reader} (inactive : r.stage.active = false) : r.load = 0 := by
  rw [Reader.load, inactive]
  rfl

theorem Reader.load_nonneg (r : Reader) : 0 ≤ r.load := by
  unfold Reader.load
  split <;> decide

end Points

section Steps

variable {o : Options} {i : Nat} {c c' : Conn} {r r' : Reader} {act : ReaderAct}

theorem Closes.wg {stage : Closing} {next : Option Closing}
    (closes : Closes o c stage c' next) : c'.wg = c.wg := by
  cases closes <;> rfl

theorem Reads.active (stepped : Reads o i c r act c' r') : r.stage.active = true := by
  cases stepped with
  | netClosed here _ =>
      rcases here with here | here <;> rw [here] <;> rfl
  | fails leaves failure here other =>
      rw [here]
      cases leaves <;> rfl
  | setup here | handledAll here | truncated _ here | message _ _ here | failed _ here
  | closing _ _ _ here | finished here | receive _ here | handled _ here | timer _ here
  | woken _ here =>
      rw [here]
      rfl

/-- A reader leaves the wait group exactly when it is gone. -/
theorem Reads.wg (stepped : Reads o i c r act c' r') : c'.wg + 1 = c.wg + r'.load := by
  have stays : ∀ stage : Stage, stage.active = true → r'.stage = stage → c'.wg = c.wg →
      c'.wg + 1 = c.wg + r'.load := by
    intro stage active here same
    rw [same, Reader.load_active (here.symm ▸ active)]
  cases stepped with
  | failed err here =>
      refine stays _ ?_ rfl ?_
      · rfl
      · unfold Conn.fail
        split <;> rfl
  | closing stage next conn here closed =>
      refine stays _ ?_ rfl (Conn.close_closes closed).wg
      cases next <;> rfl
  | finished here =>
      rw [Reader.load_inactive rfl]
      show c.wg - 1 + 1 = c.wg + 0
      omega
  | fails leaves failure here other =>
      refine stays _ ?_ rfl rfl
      cases failure <;> cases leaves <;> rfl
  | timer leaves here =>
      refine stays _ ?_ rfl rfl
      cases leaves <;> rfl
  | _ => exact stays _ rfl rfl rfl

private theorem read_enabled (o : Options) (i : Nat) (active : r.stage.active = true)
    (free : c.closeOnce ≠ .running) :
    ∃ act result, read o i c r act = some result ∧ (r.stage = .setup → act = .next) := by
  cases here : r.stage with
  | absent | gone =>
      rw [here] at active
      cases active
  | setup => exact ⟨.next, _, by simp only [read, here]; rfl, fun _ => rfl⟩
  | reading => exact ⟨.fails .transient, _, by simp only [read, here]; rfl, by simp⟩
  | messages left =>
      refine ⟨.next, ?_⟩
      cases left with
      | nil => exact ⟨_, by simp only [read, here]; rfl, fun _ => rfl⟩
      | cons message left =>
          cases message <;> exact ⟨_, by simp only [read, here]; rfl, fun _ => rfl⟩
  | handling left => exact ⟨.handled, _, by simp only [read, here]; rfl, by simp⟩
  | failed err => exact ⟨.next, _, by simp only [read, here]; rfl, fun _ => rfl⟩
  | closing stage =>
      obtain ⟨conn, next, closed⟩ := Conn.close_enabled (o := o) stage fun _ => free
      exact ⟨.next, _, by simp only [read, here, closed]; rfl, fun _ => rfl⟩
  | backoff leaves => exact ⟨.timer, _, by simp only [read, here]; rfl, by simp⟩
  | finished => exact ⟨.next, _, by simp only [read, here]; rfl, fun _ => rfl⟩

theorem Reads.running (stepped : Reads o i c r act c' r') (running : c'.closeOnce = .running) :
    (∃ stage, r'.stage = .closing stage ∧ stage ≠ .enter) ∨
      c.closeOnce = .running ∧ ∀ stage, r.stage ≠ .closing stage := by
  have stays : ∀ stage : Stage, r.stage = stage → (∀ inside, stage ≠ .closing inside) →
      c'.closeOnce = c.closeOnce → c.closeOnce = .running ∧ ∀ stage, r.stage ≠ .closing stage :=
    fun stage here outside same => ⟨same.symm.trans running, fun inside => here ▸ outside inside⟩
  cases stepped with
  | closing stage next conn here closed =>
      obtain ⟨later, rfl, inside⟩ := (Conn.close_closes closed).running running
      exact .inl ⟨later, rfl, inside⟩
  | failed err here =>
      refine .inr (stays _ here (by simp) ?_)
      unfold Conn.fail
      split <;> rfl
  | netClosed here closed =>
      rcases here with here | here <;> exact .inr (stays _ here (by simp) rfl)
  | fails leaves failure here other =>
      refine .inr (stays _ here ?_ rfl)
      cases leaves <;> simp
  | setup here | handledAll here | truncated _ here | message _ _ here | finished here
  | receive _ here | handled _ here | timer _ here | woken _ here =>
      exact .inr (stays _ here (by simp) rfl)

end Steps

/-- Nothing has changed that the gate, the readers and the wait group depend on. -/
structure Shared.Aside {Call : Type} (s s' : Shared Call) : Prop where
  serving : s'.conn.serving = s.conn.serving
  reader : s'.reader = s.reader
  wg : s'.conn.wg = s.conn.wg
  fatal : s'.conn.fatal = s.conn.fatal

/-- A step of a call that neither passes the gate nor starts a reader. -/
structure Stays {Call : Type} (s s' : Shared Call) (pc pc' : Pc) : Prop extends
    s.Aside s' where
  serves : pc'.Serves ↔ pc.Serves
  unstarted : ∀ i, pc'.Unstarted i → pc.Unstarted i
  waits : pc'.Waited → pc.Waited ∨ s.conn.wg = 0
  waited : pc.Waited → pc'.Waited
  done : s'.conn.done = true → s.conn.done = true ∨ pc'.Waited
  found : ∀ err, pc'.found = some err → pc.found = some err ∨ s.conn.fatal = err

section Calls

variable {Call : Type} {s s' : Shared Call} {pc pc' : Pc}

theorem Stays.outside (aside : s.Aside s') (done : s'.conn.done = s.conn.done)
    (before : ¬pc.Serves) (after : ¬pc'.Serves) : Stays s s' pc pc' where
  toAside := aside
  serves := iff_of_false after before
  unstarted _ later := absurd later.serves after
  waits later := absurd later.serves after
  waited here := absurd here.serves before
  done finished := .inl (done.symm.trans finished)
  found _ later := absurd (Pc.waited_of_found later).serves after

/-- `Serve` goes on after its readers are gone. -/
theorem Stays.waiting (aside : s.Aside s') (waited : pc'.Waited)
    (before : pc.Waited ∨ pc.Serves ∧ s.conn.wg = 0)
    (found : ∀ err, pc'.found = some err → pc.found = some err ∨ s.conn.fatal = err) :
    Stays s s' pc pc' where
  toAside := aside
  serves := iff_of_true waited.serves (before.elim Pc.Waited.serves And.left)
  unstarted _ later := absurd waited later.not_waited
  waits _ := before.imp_right And.right
  waited _ := waited
  done _ := .inr waited
  found := found

variable [DecidableEq Call] {o : Options} {call : Call} {act : Act Call}

theorem Moves.turns (moved : Moves o call s pc act s' pc') :
    (s.conn.serving = false ∧ pc' = .afterFunc ∧
      s' = s.withConn { s.conn with serving := true }) ∨
    (∃ k, k < o.readers ∧ pc = .spawn k ∧ pc' = .spawn (k + 1) ∧ s' = s.spawn o k) ∨
    Stays s s' pc pc' := by
  have same : s.Aside s := ⟨rfl, rfl, rfl, rfl⟩
  cases moved with
  | gate closed idle => exact .inl ⟨idle, rfl, rfl⟩
  | spawn k more => exact .inr (.inl ⟨k, more, rfl, rfl, rfl⟩)
  | closing stage next after conn closed =>
      obtain ⟨forward, fatal⟩ := (Conn.close_closes closed).forward
      exact .inr (.inr (.outside ⟨forward.serving, rfl, (Conn.close_closes closed).wg, fatal⟩
        forward.done id id))
  | closed stage after conn closed =>
      obtain ⟨forward, fatal⟩ := (Conn.close_closes closed).forward
      refine .inr (.inr (.outside ⟨forward.serving, rfl, (Conn.close_closes closed).wg, fatal⟩
        forward.done id ?_))
      cases after <;> exact id
  | afterFunc =>
      exact .inr (.inr ⟨⟨rfl, rfl, rfl, rfl⟩, .rfl, fun _ _ => trivial, .inl, id, .inl,
        fun _ => .inl⟩)
  | spawned k all =>
      exact .inr (.inr ⟨same, .rfl, fun _ => False.elim, .inl, id, .inl, fun _ => .inl⟩)
  | wait zero =>
      exact .inr (.inr (.waiting same trivial (.inr ⟨trivial, zero⟩) (by simp [Pc.found])))
  | readFatal =>
      exact .inr (.inr (.waiting same trivial (.inl trivial) fun _ later =>
        .inr (Option.some.inj later)))
  | unregister err =>
      exact .inr (.inr (.waiting ⟨rfl, rfl, rfl, rfl⟩ trivial (.inl trivial) fun _ => .inl))
  | closeDone err =>
      exact .inr (.inr (.waiting ⟨rfl, rfl, rfl, rfl⟩ trivial (.inl trivial) fun _ => .inl))
  | ctxEnds _ err running =>
      exact .inr (.inr ⟨⟨rfl, rfl, rfl, rfl⟩, .rfl, fun _ => id, .inl, id, .inl, fun _ => .inl⟩)
  | _ => exact .inr (.inr (.outside ⟨rfl, rfl, rfl, rfl⟩ rfl id id))

theorem Moves.running (moved : Moves o call s pc act s' pc')
    (running : s'.conn.closeOnce = .running) :
    (∃ stage after, pc' = .close stage after ∧ stage ≠ .enter) ∨
      s.conn.closeOnce = .running ∧ ∀ stage after, pc = .close stage after → stage = .enter := by
  cases moved with
  | closing stage next after conn closed =>
      obtain ⟨later, same, inside⟩ := (Conn.close_closes closed).running running
      cases same
      exact .inl ⟨next, after, rfl, inside⟩
  | closed stage after conn closed =>
      obtain ⟨later, same, _⟩ := (Conn.close_closes closed).running running
      cases same
  | ctxEnds _ err alive =>
      by_cases inside : ∃ stage after, pc = .close stage after ∧ stage ≠ .enter
      · exact .inl inside
      · refine .inr ⟨running, fun stage after here => ?_⟩
        by_contra other
        exact inside ⟨stage, after, here, other⟩
  | _ => exact .inr ⟨running, by simp⟩

end Calls

section Runs

variable {Call : Type} {o : Options}

theorem World.Gated.start (o : Options) : (World.start o : World Call).Gated o where
  single _ _ := False.elim
  serving _ := False.elim
  served serving := by cases serving
  started i present := absurd rfl present
  unstarted _ _ := False.elim
  wg := (Finset.sum_eq_zero fun _ _ => rfl).symm
  settled _ := False.elim
  done finished := by cases finished
  found _ _ found := by cases found

variable {w next : World Call} {a call : Call} {i : Nat}

theorem World.Gated.waited_once (gated : w.Gated o) {b : Call} (serves : (w.pc a).Serves)
    (early : ¬(w.pc a).Waited) : ¬(w.pc b).Waited := by
  intro waited
  rw [gated.single b a waited.serves serves] at waited
  exact early waited

/-- A wait group at zero has no reader left. -/
theorem World.Gated.idle (gated : w.Gated o) (zero : w.shared.conn.wg = 0) (i : Nat) :
    (w.shared.reader i).stage.active = false := by
  by_contra running
  have active := eq_true_of_ne_false running
  have present : (w.shared.reader i).stage ≠ .absent := by
    intro absent
    rw [absent] at active
    cases active
  have member := Finset.mem_range.mpr (gated.started i present).2
  have none := (Finset.sum_eq_zero_iff_of_nonneg fun j _ => (w.shared.reader j).load_nonneg).mp
    (gated.wg.symm.trans zero) i member
  rw [Reader.load_active active] at none
  cases none

theorem World.Gated.reads (gated : w.Gated o) {act : ReaderAct} {conn : Conn} {reader : Reader}
    (stepped : Reads o i w.shared.conn (w.shared.reader i) act conn reader) :
    World.Gated o { w with shared := (w.shared.withConn conn).setReader i reader } := by
  have active := stepped.active
  have present : (w.shared.reader i).stage ≠ .absent := by
    intro absent
    rw [absent] at active
    cases active
  have nobody : ∀ a, ¬(w.pc a).Waited := by
    intro a waited
    rw [gated.settled a waited i] at active
    cases active
  have forward := stepped.forward
  refine ⟨gated.single, fun a serves => forward.serving.trans (gated.serving a serves),
    fun serving => gated.served (forward.serving.symm.trans serving), ?_, ?_, ?_,
    fun a waited => absurd waited (nobody a), ?_,
    fun a err found => absurd (Pc.waited_of_found found) (nobody a)⟩
  · intro j started
    have before : w.shared.conn.serving = true ∧ j < o.readers := by
      by_cases same : j = i
      · exact same ▸ gated.started i present
      · simp only [Shared.setReader, Shared.withConn, Function.update_of_ne same] at started
        exact gated.started j started
    exact ⟨forward.serving.trans before.1, before.2⟩
  · intro a j unstarted
    have absent := gated.unstarted a j unstarted
    have same : j ≠ i := fun same => present (same ▸ absent)
    simp only [Shared.setReader, Shared.withConn, Function.update_of_ne same]
    exact absent
  · have member := Finset.mem_range.mpr (gated.started i present).2
    have before := gated.wg
    have change := stepped.wg
    rw [tally_split Reader.load member, Reader.load_active active] at before
    show conn.wg = tally _ (Function.update w.shared.reader i reader) Reader.load
    rw [tally_update Reader.load _ member]
    omega
  · intro finished
    exact gated.done (forward.done.symm.trans finished)

private theorem documented_of_setup {act : ReaderAct}
    (setup : (w.shared.reader i).stage = .setup → act = .next) :
    documented w (.reader i act) = true := by
  unfold documented
  split
  · rename_i same
    split
    · rename_i here
      cases same
      cases setup here
    · rfl
  · rename_i same
    split
    · rename_i here
      cases same
      cases setup here
    · rfl
  · rfl

variable [DecidableEq Call]

theorem World.Gated.passes (gated : w.Gated o) (call : Call)
    (idle : w.shared.conn.serving = false) :
    World.Gated o {
      shared := w.shared.withConn { w.shared.conn with serving := true }
      pc := Function.update w.pc call .afterFunc } := by
  have nobody : ∀ a, ¬(w.pc a).Serves := by
    intro a serves
    rw [gated.serving a serves] at idle
    cases idle
  have absent : ∀ i, (w.shared.reader i).stage = .absent := by
    intro i
    by_contra present
    rw [(gated.started i present).1] at idle
    cases idle
  have only : ∀ a, (Function.update w.pc call .afterFunc a).Serves → a = call := by
    intro a serves
    by_contra other
    rw [Function.update_of_ne other] at serves
    exact nobody a serves
  have early : ∀ a, ¬(Function.update w.pc call .afterFunc a).Waited := by
    intro a waited
    have same := only a waited.serves
    subst same
    rw [Function.update_self] at waited
    exact waited
  refine ⟨fun a b first second => (only a first).trans (only b second).symm, fun _ _ => rfl,
    fun _ => ⟨call, ?_⟩, fun i present => absurd (absent i) present, fun _ i _ => absent i,
    gated.wg, fun a waited => absurd waited (early a), ?_,
    fun a err found => absurd (Pc.waited_of_found found) (early a)⟩
  · simp only [Function.update_self]
    trivial
  · intro finished
    obtain ⟨a, waited⟩ := gated.done finished
    exact absurd waited.serves (nobody a)

theorem World.Gated.spawns (gated : w.Gated o) {k : Nat} (more : k < o.readers)
    (here : w.pc call = .spawn k) :
    World.Gated o {
      shared := w.shared.spawn o k
      pc := Function.update w.pc call (.spawn (k + 1)) } := by
  have serves : (w.pc call).Serves := by
    rw [here]
    trivial
  have early : ¬(w.pc call).Waited := by
    rw [here]
    exact id
  have fresh : (w.shared.reader k).stage = .absent := by
    refine gated.unstarted call k ?_
    rw [here]
    exact Nat.le_refl k
  have same : ∀ a, (Function.update w.pc call (.spawn (k + 1)) a).Serves ↔ (w.pc a).Serves := by
    intro a
    by_cases acting : a = call
    · subst acting
      rw [Function.update_self]
      exact iff_of_true trivial serves
    · rw [Function.update_of_ne acting]
  have waiting : ∀ a, ¬(Function.update w.pc call (.spawn (k + 1)) a).Waited := by
    intro a
    rw [Function.update_apply]
    split_ifs with acting
    · subst acting
      exact id
    · exact gated.waited_once serves early
  have others : ∀ i, i ≠ k → (w.shared.spawn o k).reader i = w.shared.reader i := fun i other => by
    simp only [Shared.spawn, Shared.setReader, Shared.withConn, Function.update_of_ne other]
  refine ⟨fun a b first second => gated.single a b ((same a).mp first) ((same b).mp second),
    fun a later => gated.serving a ((same a).mp later), fun _ => ⟨call, (same call).mpr serves⟩,
    ?_, ?_, ?_, fun a waited => absurd waited (waiting a), ?_,
    fun a err found => absurd (Pc.waited_of_found found) (waiting a)⟩
  · intro i present
    by_cases started : i = k
    · exact ⟨gated.serving call serves, started ▸ more⟩
    · simp only [others i started] at present
      exact gated.started i present
  · intro a i unstarted
    have acting : a = call := gated.single a call ((same a).mp unstarted.serves) serves
    subst acting
    simp only [Function.update_self] at unstarted
    have later : k + 1 ≤ i := unstarted
    simp only [others i (by omega)]
    refine gated.unstarted a i ?_
    rw [here]
    exact Nat.le_of_succ_le later
  · have member := Finset.mem_range.mpr more
    have before := gated.wg
    rw [tally_split Reader.load member, Reader.load_inactive (fresh ▸ rfl)] at before
    have active : ({ w.shared.reader k with
        stage := if 1 < o.batch then .setup else .reading } : Reader).stage.active = true := by
      show (if 1 < o.batch then Stage.setup else Stage.reading).active = true
      split <;> rfl
    show w.shared.conn.wg + 1 = tally _ (Function.update w.shared.reader k _) Reader.load
    rw [tally_update Reader.load _ member, Reader.load_active active, before]
    omega
  · intro finished
    obtain ⟨a, waited⟩ := gated.done finished
    exact absurd waited (gated.waited_once serves early)

theorem World.Gated.stays (gated : w.Gated o) {shared : Shared Call} {pc : Pc}
    (stays : Stays w.shared shared (w.pc call) pc) :
    World.Gated o { shared, pc := Function.update w.pc call pc } := by
  have same : ∀ a, (Function.update w.pc call pc a).Serves ↔ (w.pc a).Serves := by
    intro a
    by_cases acting : a = call
    · subst acting
      rw [Function.update_self]
      exact stays.serves
    · rw [Function.update_of_ne acting]
  have still : ∀ a, (w.pc a).Waited → (Function.update w.pc call pc a).Waited := by
    intro a waited
    by_cases acting : a = call
    · subst acting
      rw [Function.update_self]
      exact stays.waited waited
    · rwa [Function.update_of_ne acting]
  refine ⟨fun a b first second => gated.single a b ((same a).mp first) ((same b).mp second),
    fun a later => stays.serving.trans (gated.serving a ((same a).mp later)), ?_, ?_, ?_, ?_, ?_,
    ?_, ?_⟩
  · intro serving
    obtain ⟨a, serves⟩ := gated.served (stays.serving.symm.trans serving)
    exact ⟨a, (same a).mpr serves⟩
  · intro i present
    simp only [stays.reader] at present
    exact ⟨stays.serving.trans (gated.started i present).1, (gated.started i present).2⟩
  · intro a i unstarted
    simp only [stays.reader]
    simp only [Function.update_apply] at unstarted
    split_ifs at unstarted with acting
    · subst acting
      exact gated.unstarted a i (stays.unstarted i unstarted)
    · exact gated.unstarted a i unstarted
  · simp only [stays.reader, stays.wg]
    exact gated.wg
  · intro a waited i
    simp only [stays.reader]
    simp only [Function.update_apply] at waited
    split_ifs at waited with acting
    · subst acting
      exact (stays.waits waited).elim (fun before => gated.settled a before i)
        fun zero => gated.idle zero i
    · exact gated.settled a waited i
  · intro finished
    rcases stays.done finished with before | waited
    · obtain ⟨a, waited⟩ := gated.done before
      exact ⟨a, still a waited⟩
    · refine ⟨call, ?_⟩
      simp only [Function.update_self]
      exact waited
  · intro a err found
    simp only [stays.fatal]
    simp only [Function.update_apply] at found
    split_ifs at found with acting
    · subst acting
      exact (stays.found err found).elim (gated.found a err) id
    · exact gated.found a err found

theorem World.Gated.step {action : Action Call} (gated : w.Gated o)
    (stepped : w.step o action = some next) : next.Gated o := by
  rcases World.step_cases stepped with ⟨call, act, shared, pc, rfl, moved, rfl⟩ |
    ⟨i, act, conn, reader, rfl, moved, rfl⟩
  · rcases moved.turns with ⟨idle, rfl, rfl⟩ | ⟨k, more, here, rfl, rfl⟩ | stays
    · exact gated.passes call idle
    · exact gated.spawns more here
    · exact gated.stays stays
  · exact gated.reads moved

/-- A reader that was started is left alone by the calls. -/
theorem World.Gated.reader_stays (gated : w.Gated o) {act : Act Call} {shared : Shared Call}
    {pc : Pc} (moved : Moves o call w.shared (w.pc call) act shared pc)
    (present : (w.shared.reader i).stage ≠ .absent) : shared.reader i = w.shared.reader i := by
  rcases moved.turns with ⟨_, _, rfl⟩ | ⟨k, _, here, _, rfl⟩ | stays
  · rfl
  · have other : i ≠ k := by
      rintro rfl
      refine present (gated.unstarted call i ?_)
      rw [here]
      exact Nat.le_refl i
    simp only [Shared.spawn, Shared.setReader, Shared.withConn, Function.update_of_ne other]
  · rw [stays.reader]

/-- A `Close` that has begun and is not over is under way somewhere. -/
theorem World.closes_step {action : Action Call} (gated : w.Gated o)
    (closes : w.shared.conn.closeOnce = .running → w.Closes)
    (stepped : w.step o action = some next)
    (running : next.shared.conn.closeOnce = .running) : next.Closes := by
  rcases World.step_cases stepped with ⟨call, act, shared, pc, rfl, moved, rfl⟩ |
    ⟨i, act, conn, reader, rfl, moved, rfl⟩
  · rcases moved.running running with ⟨stage, after, here, inside⟩ | ⟨before, outside⟩
    · refine .inr ⟨call, stage, after, ?_, inside⟩
      simp only [Function.update_self, here]
    · rcases closes before with ⟨i, stage, here, inside⟩ | ⟨a, stage, after, here, inside⟩
      · refine .inl ⟨i, stage, ?_, inside⟩
        rw [gated.reader_stays moved (by rw [here]; simp), here]
      · have acting : a ≠ call := by
          rintro rfl
          exact inside (outside stage after here)
        refine .inr ⟨a, stage, after, ?_, inside⟩
        simp only [Function.update_of_ne acting, here]
  · rcases moved.running running with ⟨stage, here, inside⟩ | ⟨before, outside⟩
    · refine .inl ⟨i, stage, ?_, inside⟩
      simp only [Shared.setReader, Function.update_self, here]
    · rcases closes before with ⟨j, stage, here, inside⟩ | calls
      · have other : j ≠ i := by
          rintro rfl
          exact outside stage here
        refine .inl ⟨j, stage, ?_, inside⟩
        simp only [Shared.setReader, Shared.withConn, Function.update_of_ne other, here]
      · exact .inr calls

/-- Some call or reader can go on. -/
def World.GoesOn (o : Options) (w : World Call) : Prop :=
  (∃ a next, w.step o (.call a .next) = some next) ∨
    ∃ i act next, documented w (.reader i act) = true ∧ w.step o (.reader i act) = some next

theorem World.Closes.goesOn (closes : w.Closes) : w.GoesOn o := by
  rcases closes with ⟨i, stage, here, inside⟩ | ⟨a, stage, after, here, inside⟩
  · obtain ⟨conn, next, closed⟩ := Conn.close_enabled (c := w.shared.conn) (o := o) stage
      fun enter => absurd enter inside
    exact .inr ⟨i, .next, _, rfl, by simp only [World.step, read, here, closed]; rfl⟩
  · obtain ⟨conn, next, closed⟩ := Conn.close_enabled (c := w.shared.conn) (o := o) stage
      fun enter => absurd enter inside
    exact .inl ⟨a, _, by simp only [World.step, effect, Udp.next, here, closed]; rfl⟩

theorem World.Gated.goesOn_waiting (gated : w.Gated o)
    (closes : w.shared.conn.closeOnce = .running → w.Closes) (waiting : w.pc a = .wait) :
    w.GoesOn o := by
  by_cases free : w.shared.conn.closeOnce = .running
  · exact (closes free).goesOn
  by_cases zero : w.shared.conn.wg = 0
  · exact .inl ⟨a, _, by simp only [World.step, effect, Udp.next, waiting, zero]; rfl⟩
  have busy : ∃ i, (w.shared.reader i).stage.active = true := by
    by_contra quiet
    refine zero (gated.wg.trans (Finset.sum_eq_zero fun i _ => Reader.load_inactive ?_))
    exact eq_false_of_ne_true fun active => quiet ⟨i, active⟩
  obtain ⟨i, active⟩ := busy
  obtain ⟨act, result, stepped, setup⟩ := read_enabled o i active free
  exact .inr ⟨i, act, _, documented_of_setup setup, by simp only [World.step, stepped]; rfl⟩

/-- A `Serve` that has passed the gate is never stuck. -/
theorem World.Gated.goesOn (gated : w.Gated o)
    (closes : w.shared.conn.closeOnce = .running → w.Closes) (serves : (w.pc a).Serves)
    (running : ∀ err, w.pc a ≠ .returned (.served err)) : w.GoesOn o := by
  cases here : w.pc a with
  | wait => exact gated.goesOn_waiting closes here
  | spawn k =>
      refine .inl ⟨a, ?_⟩
      by_cases more : k < o.readers
      · exact ⟨_, by simp only [World.step, effect, Udp.next, here, more]; rfl⟩
      · exact ⟨_, by simp only [World.step, effect, Udp.next, here, more]; rfl⟩
  | afterFunc | readFatal | unregister | closeDone =>
      exact .inl ⟨a, _, by simp only [World.step, effect, Udp.next, here]; rfl⟩
  | returned reply =>
      rw [here] at serves
      cases reply with
      | served err => exact absurd here (running err)
      | _ => exact serves.elim
  | _ =>
      rw [here] at serves
      exact serves.elim

end Runs

end Netx.Udp
