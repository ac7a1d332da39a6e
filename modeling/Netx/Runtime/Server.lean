import Netx.Lifecycle.Contract
import Netx.Runtime.TcpService
import Netx.Runtime.UdpService

/-!
# The server over its transports

`LoopContext` and everything around it run over real transports: what
`Service.Serve` and `Service.Shutdown` return is what the calls on the members
of the service return.
-/

set_option autoImplicit false

namespace Netx.Runtime

open Errors

inductive Transport where
  | tcp (w : Tcp.World Role)
  | udp (o : Udp.Options) (w : Udp.World Role)

inductive TransportAct where
  | tcp (action : Tcp.Action Role)
  | udp (action : Udp.Action Role)

/-- The calls and the ends of contexts are the runtime's to make, all other steps
are the transport's own. -/
def TransportAct.own : TransportAct → Bool
  | .tcp (.call _ (.call _)) | .tcp (.call _ (.ctxEnds _)) => false
  | .udp (.call _ (.call _)) | .udp (.call _ (.ctxEnds _)) => false
  | .tcp action => TcpService.allowed action
  | .udp action => UdpService.allowed action

namespace Transport

def Initial : Transport → Prop
  | .tcp w => ∃ o, (Tcp.system Role o).initial w
  | .udp o w => w = .start o

def step : Transport → TransportAct → Option Transport
  | .tcp w, .tcp action => (w.step action).map .tcp
  | .udp o w, .udp action => (w.step o action).map (.udp o)
  | _, _ => none

def callServe (t : Transport) : Transport :=
  match t with
  | .tcp _ => (t.step (.tcp (.call .serve (.call .serve)))).getD t
  | .udp _ _ => (t.step (.udp (.call .serve (.call .serve)))).getD t

def callShutdown (t : Transport) : Transport :=
  match t with
  | .tcp _ => (t.step (.tcp (.call .shutdown (.call .shutdown)))).getD t
  | .udp _ _ => (t.step (.udp (.call .shutdown (.call .shutdown)))).getD t

/-- The context of the call is done. -/
def ctxEnds (t : Transport) (role : Role) (err : Err) : Option Transport :=
  match t with
  | .tcp _ => t.step (.tcp (.call role (.ctxEnds err)))
  | .udp _ _ => t.step (.udp (.call role (.ctxEnds err)))

def reply : Transport → Role → Option Reply
  | .tcp w => TcpService.reply w
  | .udp _ w => UdpService.reply w

def serveResult (t : Transport) : Option (Option Err) :=
  (t.reply .serve).bind Reply.serveResult

def shutdownResult (t : Transport) : Option (Option Err) :=
  (t.reply .shutdown).bind Reply.shutdownResult

/-- No accept or read fails. -/
def healthy : Transport → TransportAct → Bool
  | .tcp w, .tcp action => TcpService.healthy w action
  | .udp _ w, .udp action => UdpService.healthy w action
  | _, _ => true

/-- `Serve` comes to its gate after the transport was told to stop. -/
def late : Transport → TransportAct → Bool
  | .tcp w, .tcp action => TcpService.late w action
  | .udp _ w, .udp action => UdpService.late w action
  | _, _ => false

end Transport

structure World (Call ι : Type) where
  loop : Lifecycle.World Call
  member : ι → Transport

/-- A call on the server acts, a member takes a step of its own, or a context of
`LoopContext` call `call` is done for a member: that of `Serve` because of the abort
of the call or of the failure of member `j` of its group, or that of the drain. -/
inductive Action (Call ι : Type) where
  | loop (call : Call) (act : Lifecycle.Act)
  | member (i : ι) (act : TransportAct)
  | cancel (call : Call) (i : ι)
  | abort (i j : ι)
  | expire (call : Call) (i : ι)

section Steps

variable {Call ι : Type} [DecidableEq Call] [DecidableEq ι]

/-- The same call on every member of the service. -/
def Service.onMembers (service : Service ι) (call : Transport → Transport)
    (member : ι → Transport) : ι → Transport :=
  fun i => if i ∈ service.members then call (member i) else member i

/-- The service returns what its members have returned. -/
def Service.returns (service : Service ι) (results : ι → Option (Option Err)) :
    Lifecycle.Outcome → Bool
  | .returns err => decide (service.collect results = some err)
  | .panics _ => false

/-- What a step of `LoopContext` means for the members. -/
def react (service : Service ι) (f : Lifecycle.Frame) (member : ι → Transport) :
    Lifecycle.Act → Option (ι → Transport)
  | .serveCalled => some (service.onMembers Transport.callServe member)
  | .serveReturns out =>
      if service.returns (fun i => (member i).serveResult) out then some member else none
  | .next =>
      match f.pc with
      | .shutdown _ => some (service.onMembers Transport.callShutdown member)
      | _ => some member
  | .returns out =>
      match f.pc with
      | .inShutdown _ =>
          if service.returns (fun i => (member i).shutdownResult) out then some member else none
      | _ => some member
  | _ => some member

def World.setMember (w : World Call ι) (i : ι) (t : Transport) : World Call ι :=
  { w with member := Function.update w.member i t }

/-- The members that share one context and abort each other. -/
def Service.sharing : Service ι → List ι
  | .single _ => []
  | .group members => members

def World.step (o : Lifecycle.Options) (service : Service ι) (w : World Call ι) :
    Action Call ι → Option (World Call ι)
  | .loop call act =>
      (w.loop.step o (call, act)).bind fun loop =>
        (react service (w.loop.frame call) w.member act).map fun member => { loop, member }
  | .member i act =>
      if act.own then ((w.member i).step act).map (w.setMember i) else none
  | .cancel call i =>
      if (w.loop.frame call).runDone then
        ((w.member i).ctxEnds .serve Lifecycle.Canceled).map (w.setMember i)
      else none
  | .abort i j =>
      if i ∈ service.sharing ∧ j ∈ service.sharing ∧
          (w.member j).serveResult.any Option.isSome = true then
        ((w.member i).ctxEnds .serve Lifecycle.Canceled).map (w.setMember i)
      else none
  | .expire call i =>
      match (w.loop.frame call).drain with
      | .ended err => ((w.member i).ctxEnds .shutdown err).map (w.setMember i)
      | _ => none

def system (Call ι : Type) [DecidableEq Call] [DecidableEq ι] (o : Lifecycle.Options)
    (service : Service ι) : Transition.System (World Call ι) (Action Call ι) where
  initial w := (∃ made, w.loop = .start made) ∧ ∀ i, (w.member i).Initial
  step := World.step o service

/-- Hooks return nil, no accept or read fails, the drain outlasts the handlers, and
nobody runs out of patience. -/
def healthy (w : World Call ι) : Action Call ι → Bool
  | .loop call (.returns out) =>
      match (w.loop.frame call).pc with
      | .inShutdown _ => true
      | _ => decide (out = .returns none)
  | .loop _ .graceOver | .loop _ .drainExpires | .loop _ .watchForce => false
  | .loop _ _ => true
  | .member i act => (w.member i).healthy act
  | .cancel _ _ | .abort _ _ => true
  | .expire _ _ => false

/-- A member's `Serve` comes to its gate after the member was told to stop. -/
def late (service : Service ι) (w : World Call ι) : Action Call ι → Bool
  | .member i act => decide (i ∈ service.members) && (w.member i).late act
  | _ => false

end Steps

end Netx.Runtime
