import Netx.Runtime.Server

/-!
# The members in a healthy run

Whatever the server and the other members do, a member stays fit: its `Shutdown`
returns nil, and its `Serve` fails exactly if it finds its gate closed.
-/

set_option autoImplicit false

namespace Netx.Runtime

open Errors

/-- Everything that may happen to a member while the drain lasts. -/
def TransportAct.allowed : TransportAct → Bool
  | .tcp action => TcpService.allowed action
  | .udp action => UdpService.allowed action

theorem TransportAct.allowed_of_own {act : TransportAct} (own : act.own = true) :
    act.allowed = true := by
  unfold TransportAct.own at own
  split at own
  · cases own
  · cases own
  · cases own
  · cases own
  · exact own
  · exact own

namespace Transport

def Fit : Transport → Prop
  | .tcp w => TcpService.Fit w
  | .udp _ w => UdpService.Fit w

variable {t t' : Transport} {act : TransportAct}

theorem Fit.start (initial : t.Initial) : t.Fit := by
  cases t with
  | tcp w =>
      obtain ⟨o, start⟩ := initial
      exact TcpService.Fit.start start
  | udp o w =>
      rw [show w = .start o from initial]
      exact UdpService.Fit.start o

/-- A step of a transport is a step of what it is. -/
theorem step_cases (stepped : t.step act = some t') :
    (∃ w action next, t = .tcp w ∧ act = .tcp action ∧ t' = .tcp next ∧
      w.step action = some next) ∨
    ∃ o w action next, t = .udp o w ∧ act = .udp action ∧ t' = .udp o next ∧
      w.step o action = some next := by
  cases t <;> cases act <;> first | cases stepped | skip
  · obtain ⟨next, moved, rfl⟩ := Option.map_eq_some_iff.mp stepped
    exact .inl ⟨_, _, next, rfl, rfl, rfl, moved⟩
  · obtain ⟨next, moved, rfl⟩ := Option.map_eq_some_iff.mp stepped
    exact .inr ⟨_, _, _, next, rfl, rfl, rfl, moved⟩

theorem Fit.step (fit : t.Fit) (permitted : act.allowed = true) (sane : t.healthy act = true)
    (stepped : t.step act = some t') : t'.Fit := by
  rcases step_cases stepped with ⟨w, action, next, rfl, rfl, rfl, moved⟩ |
    ⟨o, w, action, next, rfl, rfl, rfl, moved⟩
  · exact TcpService.Fit.step fit permitted sane moved
  · exact UdpService.Fit.step fit permitted sane moved

theorem step_stays (stepped : t.step act = some t') {role : Role} {answer : Reply}
    (replied : t.reply role = some answer) : t'.reply role = some answer := by
  rcases step_cases stepped with ⟨w, action, next, rfl, rfl, rfl, moved⟩ |
    ⟨o, w, action, next, rfl, rfl, rfl, moved⟩
  · exact TcpService.reply_stays moved replied
  · exact UdpService.reply_stays moved replied

theorem Fit.shutdown_returns (fit : t.Fit) {result : Option Err}
    (returned : t.shutdownResult = some result) : result = none := by
  obtain ⟨answer, replied, shown⟩ := Option.bind_eq_some_iff.mp returned
  have drained : answer.Drained := by
    cases t with
    | tcp w => exact TcpService.Fit.drained fit replied
    | udp o w => exact UdpService.Fit.drained fit replied
  exact Option.some.inj (shown.symm.trans drained.shutdownResult)

/-- The `Serve` of the member has returned an error. -/
def Failed (t : Transport) : Prop :=
  Runtime.Failed (t.reply .serve)

theorem not_failed_of_initial (initial : t.Initial) : ¬t.Failed := by
  rintro ⟨err, returned⟩
  cases t with
  | tcp w =>
      obtain ⟨o, admission, server, _, _, rfl⟩ := initial
      cases returned
  | udp o w =>
      rw [show w = .start o from initial] at returned
      cases returned

theorem Fit.failed_iff (fit : t.Fit) (permitted : act.allowed = true)
    (sane : t.healthy act = true) (stepped : t.step act = some t') (working : ¬t.Failed) :
    t'.Failed ↔ t.late act = true := by
  rcases step_cases stepped with ⟨w, action, next, rfl, rfl, rfl, moved⟩ |
    ⟨o, w, action, next, rfl, rfl, rfl, moved⟩
  · exact TcpService.Fit.failed_iff fit permitted sane moved working
  · exact UdpService.Fit.failed_iff fit permitted sane moved working

/-- The member is left alone, or made to take a step that is not its own. -/
def Driven (t t' : Transport) : Prop :=
  t' = t ∨ ∃ act : TransportAct, act.allowed = true ∧ t.healthy act = true ∧
    t.late act = false ∧ t.step act = some t'

private theorem driven_getD (permitted : act.allowed = true) (sane : t.healthy act = true)
    (punctual : t.late act = false) : t.Driven ((t.step act).getD t) := by
  cases stepped : t.step act with
  | none => exact .inl rfl
  | some next => exact .inr ⟨act, permitted, sane, punctual, stepped⟩

private theorem driven_callServe (t : Transport) : t.Driven t.callServe := by
  cases t with
  | tcp w => exact driven_getD rfl rfl rfl
  | udp o w => exact driven_getD rfl rfl rfl

private theorem driven_callShutdown (t : Transport) : t.Driven t.callShutdown := by
  cases t with
  | tcp w => exact driven_getD rfl rfl rfl
  | udp o w => exact driven_getD rfl rfl rfl

private theorem driven_ctxEnds {err : Err} (ended : t.ctxEnds .serve err = some t') :
    t.Driven t' := by
  cases t with
  | tcp w => exact .inr ⟨.tcp (.call .serve (.ctxEnds err)), rfl, rfl, rfl, ended⟩
  | udp o w => exact .inr ⟨.udp (.call .serve (.ctxEnds err)), rfl, rfl, rfl, ended⟩

theorem Fit.driven (fit : t.Fit) (driven : t.Driven t') : t'.Fit := by
  rcases driven with rfl | ⟨act, permitted, sane, _, stepped⟩
  · exact fit
  · exact fit.step permitted sane stepped

theorem Driven.stays (driven : t.Driven t') {role : Role} {answer : Reply}
    (replied : t.reply role = some answer) : t'.reply role = some answer := by
  rcases driven with rfl | ⟨act, _, _, _, stepped⟩
  · exact replied
  · exact step_stays stepped replied

/-- Nobody else makes `Serve` fail. -/
theorem Fit.failed_driven (fit : t.Fit) (driven : t.Driven t') (working : ¬t.Failed) :
    ¬t'.Failed := by
  rcases driven with rfl | ⟨act, permitted, sane, punctual, stepped⟩
  · exact working
  · rw [fit.failed_iff permitted sane stepped working, punctual]
    exact nofun

end Transport

section Members

variable {Call ι : Type} [DecidableEq ι] {service : Service ι}

theorem World.setMember_self (w : World Call ι) (i : ι) (t : Transport) :
    (w.setMember i t).member i = t := by
  simp only [World.setMember, Function.update_self]

theorem World.setMember_of_ne (w : World Call ι) {i j : ι} (other : i ≠ j) (t : Transport) :
    (w.setMember j t).member i = w.member i := by
  simp only [World.setMember, Function.update_of_ne other]

theorem World.setMember_driven {w : World Call ι} {j : ι} {t : Transport}
    (driven : (w.member j).Driven t) (i : ι) :
    (w.member i).Driven ((w.setMember j t).member i) := by
  by_cases same : i = j
  · subst same
    rwa [World.setMember_self]
  · rw [World.setMember_of_ne w same]
    exact .inl rfl

private theorem onMembers_driven {call : Transport → Transport}
    (driven : ∀ t : Transport, t.Driven (call t)) (member : ι → Transport) (i : ι) :
    (member i).Driven (service.onMembers call member i) := by
  unfold Service.onMembers
  split
  · exact driven (member i)
  · exact .inl rfl

private theorem react_driven {f : Lifecycle.Frame} {member member' : ι → Transport}
    {act : Lifecycle.Act} (reacted : react service f member act = some member') (i : ι) :
    (member i).Driven (member' i) := by
  unfold react at reacted
  split at reacted
  · cases reacted
    exact onMembers_driven Transport.driven_callServe member i
  · obtain ⟨_, same⟩ := Option.ite_none_right_eq_some.mp reacted
    cases same
    exact .inl rfl
  · split at reacted
    · cases reacted
      exact onMembers_driven Transport.driven_callShutdown member i
    · cases reacted
      exact .inl rfl
  · split at reacted
    · obtain ⟨_, same⟩ := Option.ite_none_right_eq_some.mp reacted
      cases same
      exact .inl rfl
    · cases reacted
      exact .inl rfl
  · cases reacted
    exact .inl rfl

end Members

section Steps

variable {Call ι : Type} [DecidableEq Call] [DecidableEq ι] {o : Lifecycle.Options}
  {service : Service ι} {next w : World Call ι} {action : Action Call ι}

/-- A member takes a step of its own, or everybody is at most driven. -/
theorem World.step_member (sane : healthy w action = true)
    (stepped : w.step o service action = some next) :
    (∃ i act t, action = .member i act ∧ act.allowed = true ∧
      (w.member i).step act = some t ∧ next = w.setMember i t) ∨
    (∀ i act, action ≠ .member i act) ∧ ∀ i, (w.member i).Driven (next.member i) := by
  cases action with
  | loop call act =>
      obtain ⟨loop, _, reacted⟩ := Option.bind_eq_some_iff.mp stepped
      obtain ⟨member, found, rfl⟩ := Option.map_eq_some_iff.mp reacted
      exact .inr ⟨nofun, react_driven found⟩
  | member i act =>
      obtain ⟨own, mapped⟩ := Option.ite_none_right_eq_some.mp stepped
      obtain ⟨t, moved, rfl⟩ := Option.map_eq_some_iff.mp mapped
      exact .inl ⟨i, act, t, rfl, TransportAct.allowed_of_own own, moved, rfl⟩
  | cancel call j =>
      obtain ⟨_, mapped⟩ := Option.ite_none_right_eq_some.mp stepped
      obtain ⟨t, ended, rfl⟩ := Option.map_eq_some_iff.mp mapped
      exact .inr ⟨nofun, World.setMember_driven (Transport.driven_ctxEnds ended)⟩
  | abort j k =>
      obtain ⟨_, mapped⟩ := Option.ite_none_right_eq_some.mp stepped
      obtain ⟨t, ended, rfl⟩ := Option.map_eq_some_iff.mp mapped
      exact .inr ⟨nofun, World.setMember_driven (Transport.driven_ctxEnds ended)⟩
  | expire call j => cases sane

theorem World.step_fit (sane : healthy w action = true)
    (stepped : w.step o service action = some next) (fit : ∀ i, (w.member i).Fit) (i : ι) :
    (next.member i).Fit := by
  rcases World.step_member sane stepped with ⟨j, act, t, rfl, permitted, moved, rfl⟩ |
    ⟨_, driven⟩
  · by_cases same : i = j
    · subst same
      rw [World.setMember_self]
      exact (fit i).step permitted sane moved
    · rw [World.setMember_of_ne w same]
      exact fit i
  · exact (fit i).driven (driven i)

theorem World.step_stays (sane : healthy w action = true)
    (stepped : w.step o service action = some next) (i : ι) {result : Option Err}
    (returned : (w.member i).serveResult = some result) :
    (next.member i).serveResult = some result := by
  obtain ⟨answer, replied, shown⟩ := Option.bind_eq_some_iff.mp returned
  refine Option.bind_eq_some_iff.mpr ⟨answer, ?_, shown⟩
  rcases World.step_member sane stepped with ⟨j, act, t, rfl, _, moved, rfl⟩ | ⟨_, driven⟩
  · by_cases same : i = j
    · subst same
      rw [World.setMember_self]
      exact Transport.step_stays moved replied
    · rw [World.setMember_of_ne w same]
      exact replied
  · exact (driven i).stays replied

/-- No member of the service has failed. -/
def World.Working (service : Service ι) (w : World Call ι) : Prop :=
  ∀ i ∈ service.members, ¬(w.member i).Failed

/-- A step keeps the service working exactly if no `Serve` finds its gate closed. -/
theorem World.step_working_iff (sane : healthy w action = true)
    (stepped : w.step o service action = some next) (fit : ∀ i, (w.member i).Fit)
    (working : w.Working service) : next.Working service ↔ ¬late service w action = true := by
  rcases World.step_member sane stepped with ⟨j, act, t, rfl, permitted, moved, rfl⟩ |
    ⟨foreign, driven⟩
  · by_cases listed : j ∈ service.members
    · have failed := (fit j).failed_iff permitted sane moved (working j listed)
      simp only [late, listed, decide_true, Bool.true_and, ← failed]
      constructor
      · intro later
        simpa only [World.setMember_self] using later j listed
      · intro held i member
        by_cases same : i = j
        · subst same
          rwa [World.setMember_self]
        · rw [World.setMember_of_ne w same]
          exact working i member
    · refine iff_of_true (fun i member => ?_) (by simp [late, listed])
      have other : i ≠ j := fun same => listed (same ▸ member)
      rw [World.setMember_of_ne w other]
      exact working i member
  · refine iff_of_true
      (fun i member => (fit i).failed_driven (driven i) (working i member)) ?_
    cases action with
    | member i act => exact absurd rfl (foreign i act)
    | _ => exact nofun

end Steps

end Netx.Runtime
