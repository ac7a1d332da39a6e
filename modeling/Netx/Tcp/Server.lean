import Netx.Limit.Concurrency
import Netx.Limit.PerKey
import Netx.Runtime.Calls
import Netx.Sync.Once
import Netx.Tcp.IpKey
import Netx.Transition.System
import Mathlib.Data.Finset.Insert

/-!
# The TCP server

Any number of `Serve`, `Close` and `Shutdown` calls on one server, the accept
loop of the `Serve` that passes the gate, and one goroutine for each connection
it starts a handler for. A step is one critical section, one atomic operation
or one channel operation. The listener, the remote addresses, the handlers and
the contexts are the environment.
-/

set_option autoImplicit false

namespace Netx.Tcp

open Errors Limit Netip Sync
open Netx.Runtime (Op Reply)

def ErrClosed : Err := .new 20 "tcp: closed"

structure Options where
  admission : Option Int
  maxConnsPerIP : Int
  ipv6PrefixBits : Int

/-- Why the handler context was cancelled: a `Close` call, the context of a
`Serve` call, that of a `Shutdown` call, a broken listener, or the end of `Serve`
once its last handler has returned. -/
inductive Cause (Call : Type) where
  | close
  | serveCtx (serve : Call)
  | shutdownCtx (shutdown : Call)
  | acceptError
  | served
  deriving DecidableEq

/-- `conns` holds the tracked connections by their number. `aborted` is the first
cause that cancelled the handler context. A `Release` that panics sets
`overReleased`; a nil `PerKey`, a negative wait group or a channel closed twice
sets `crashed`. The counters of events are taken as unbounded. -/
structure Server (Call : Type) where
  serving : Bool
  stopped : Bool
  conns : Finset Nat
  stopOnce : Once
  listening : Bool
  draining : Bool
  done : Bool
  aborted : Option (Cause Call)
  wg : Int
  accepted : Int
  rejected : Int
  rejectedPerIP : Int
  active : Int
  closed : Int
  acceptErrors : Int
  admission : Option Concurrency
  perIP : Option (PerKey Addr)
  v6bits : Nat
  lastConnID : Nat
  overReleased : Bool
  crashed : Bool

def Server.empty {Call : Type} (admission : Option Concurrency) (perIP : Option (PerKey Addr))
    (v6bits : Nat) : Server Call where
  serving := false
  stopped := false
  conns := ∅
  stopOnce := .unused
  listening := true
  draining := false
  done := false
  aborted := none
  wg := 0
  accepted := 0
  rejected := 0
  rejectedPerIP := 0
  active := 0
  closed := 0
  acceptErrors := 0
  admission
  perIP
  v6bits
  lastConnID := 0
  overReleased := false
  crashed := false

/-- `NewServer` for a listener and a handler that may be nil, over an `Admit` that
is nil or a fresh `limit.Concurrency`. -/
def newServer {Call : Type} (ln handler : Bool) (admission : Option Concurrency) (o : Options) :
    Except Err (Server Call) :=
  if ln = false ∨ handler = false then .error (.errorf "tcp: nil listener or handler")
  else if o.maxConnsPerIP < 0 then
    .error (.errorf "tcp: MaxConnsPerIP must not be negative")
  else if o.ipv6PrefixBits < 0 ∨ o.ipv6PrefixBits > 128 then
    .error (.errorf "tcp: IPv6PrefixBits must be within 0..128")
  else if o.maxConnsPerIP > 0 then
    .ok (.empty admission (PerKey.newPerKey o.maxConnsPerIP)
      (if o.ipv6PrefixBits = 0 then 64 else o.ipv6PrefixBits.toNat))
  else .ok (.empty admission none 0)

/-- How the accept loop or the handler goroutine was done with a connection. -/
inductive Fate where
  | rejectedPerIP
  | rejected
  | refused
  | served
  deriving DecidableEq, Repr

/-- The next step on a connection. The accept loop takes it from `keying` to
`spawn`, and its own goroutine from `ready` on. -/
inductive Stage where
  | keying
  | perIP
  | countPerIP
  | closePerIP
  | admission
  | admitCas (loaded : Int)
  | unkey
  | countRejected
  | closeRejected
  | naming
  | track
  | refuseAdmit
  | refusePerIP
  | refuseClose
  | countAccepted
  | countActive
  | wgAdd
  | spawn
  | ready
  | handling
  | close
  | releaseAdmit
  | releasePerIP
  | untrack
  | uncountActive
  | countClosed
  | wgDone
  | gone (fate : Fate)
  deriving DecidableEq, Repr

/-- `admitted` and `granted` count the slots the connection was given by `Admit`
and by the per-address limit, `released` and `returned` those given back. -/
structure Conn where
  remote : Remote
  stage : Stage := .keying
  ipKey : Addr := .zero
  keyed : Bool := false
  id : Nat := 0
  closed : Bool := false
  admitted : Nat := 0
  released : Nat := 0
  granted : Nat := 0
  returned : Nat := 0

def Conn.goto (c : Conn) (stage : Stage) : Conn := { c with stage }

def Conn.close (c : Conn) : Conn := { c with closed := true }

section Connections

variable {Call : Type}

/-- The part of `release` that gives back the `Admit` slot. -/
def releaseAdmit (s : Server Call) (c : Conn) : Server Call × Conn :=
  match s.admission with
  | none => (s, c)
  | some limiter =>
      let (panics, limiter) := limiter.release
      ({ s with admission := some limiter, overReleased := s.overReleased || panics },
        { c with released := c.released + 1 })

def releasePerIP (s : Server Call) (c : Conn) : Server Call × Conn :=
  if c.keyed then
    match s.perIP with
    | none => ({ s with crashed := true }, c)
    | some limiter =>
        let (panics, limiter) := limiter.release c.ipKey
        ({ s with perIP := some limiter, overReleased := s.overReleased || panics },
          { c with keyed := false, returned := c.returned + 1 })
  else (s, c)

/-- `wg.Done`, which panics on a negative counter. -/
def wgDone (s : Server Call) : Server Call :=
  { s with wg := s.wg - 1, crashed := s.crashed || decide (s.wg - 1 < 0) }

/-- The steps of `acceptLoop`, `track` and `serveConn` on connection number `i`. A
running handler ends by itself. -/
def advance (i : Nat) (s : Server Call) (c : Conn) : Option (Server Call × Conn) :=
  match c.stage with
  | .keying =>
      match s.perIP with
      | none => some (s, c.goto .admission)
      | some _ =>
          let (key, keyed) := ipKey c.remote s.v6bits
          some (s, { c with
            ipKey := key
            keyed := keyed
            stage := if keyed then .perIP else .admission })
  | .perIP =>
      match s.perIP with
      | none => none
      | some limiter =>
          match limiter.tryAcquire c.ipKey with
          | (false, _) => some (s, { c with keyed := false, stage := .countPerIP })
          | (true, limiter) =>
              some ({ s with perIP := some limiter },
                { c with granted := c.granted + 1, stage := .admission })
  | .countPerIP => some ({ s with rejectedPerIP := s.rejectedPerIP + 1 }, c.goto .closePerIP)
  | .closePerIP => some (s, c.close.goto (.gone .rejectedPerIP))
  | .admission =>
      match s.admission with
      | none => some (s, c.goto .naming)
      | some limiter =>
          if limiter.full limiter.inUse then some (s, c.goto .unkey)
          else some (s, c.goto (.admitCas limiter.inUse))
  | .admitCas loaded =>
      match s.admission with
      | none => none
      | some limiter =>
          match limiter.compareAndSwap loaded with
          | (false, _) => some (s, c.goto .admission)
          | (true, limiter) =>
              some ({ s with admission := some limiter },
                { c with admitted := c.admitted + 1, stage := .naming })
  | .unkey =>
      let (s, c) := releasePerIP s c
      some (s, c.goto .countRejected)
  | .countRejected => some ({ s with rejected := s.rejected + 1 }, c.goto .closeRejected)
  | .closeRejected => some (s, c.close.goto (.gone .rejected))
  | .naming =>
      some ({ s with lastConnID := s.lastConnID + 1 },
        { c with id := s.lastConnID + 1, stage := .track })
  | .track =>
      if s.stopped then some (s, c.goto .refuseAdmit)
      else some ({ s with conns := insert i s.conns }, c.goto .countAccepted)
  | .refuseAdmit =>
      let (s, c) := releaseAdmit s c
      some (s, c.goto .refusePerIP)
  | .refusePerIP =>
      let (s, c) := releasePerIP s c
      some (s, c.goto .refuseClose)
  | .refuseClose => some (s, c.close.goto (.gone .refused))
  | .countAccepted => some ({ s with accepted := s.accepted + 1 }, c.goto .countActive)
  | .countActive => some ({ s with active := s.active + 1 }, c.goto .wgAdd)
  | .wgAdd => some ({ s with wg := s.wg + 1 }, c.goto .spawn)
  | .spawn => some (s, c.goto .ready)
  | .ready => some (s, c.goto .handling)
  | .handling => none
  | .close => some (s, c.close.goto .releaseAdmit)
  | .releaseAdmit =>
      let (s, c) := releaseAdmit s c
      some (s, c.goto .releasePerIP)
  | .releasePerIP =>
      let (s, c) := releasePerIP s c
      some (s, c.goto .untrack)
  | .untrack => some ({ s with conns := s.conns.erase i }, c.goto .uncountActive)
  | .uncountActive => some ({ s with active := s.active - 1 }, c.goto .countClosed)
  | .countClosed => some ({ s with closed := s.closed + 1 }, c.goto .wgDone)
  | .wgDone => some (wgDone s, c.goto (.gone .served))
  | .gone _ => none

/-- What a step does to a connection at each of its stages. -/
inductive Advances (i : Nat) (s : Server Call) (c : Conn) : Stage → Server Call → Conn → Prop where
  | unkeyed : s.perIP = none → Advances i s c .keying s (c.goto .admission)
  | keyed (key : Addr) (keyed : Bool) : s.perIP.isSome = true →
      Advances i s c .keying s { c with
        ipKey := key
        keyed := keyed
        stage := if keyed then .perIP else .admission }
  | overPerIP (limiter next : PerKey Addr) : s.perIP = some limiter →
      limiter.tryAcquire c.ipKey = (false, next) →
      Advances i s c .perIP s { c with keyed := false, stage := .countPerIP }
  | underPerIP (limiter next : PerKey Addr) : s.perIP = some limiter →
      limiter.tryAcquire c.ipKey = (true, next) →
      Advances i s c .perIP { s with perIP := some next }
        { c with granted := c.granted + 1, stage := .admission }
  | countPerIP : Advances i s c .countPerIP { s with rejectedPerIP := s.rejectedPerIP + 1 }
      (c.goto .closePerIP)
  | closePerIP : Advances i s c .closePerIP s (c.close.goto (.gone .rejectedPerIP))
  | unlimited : s.admission = none → Advances i s c .admission s (c.goto .naming)
  | full : Advances i s c .admission s (c.goto .unkey)
  | load (limiter : Concurrency) : s.admission = some limiter →
      Advances i s c .admission s (c.goto (.admitCas limiter.inUse))
  | stale (limiter : Concurrency) (loaded : Int) : s.admission = some limiter →
      limiter.inUse ≠ loaded → Advances i s c (.admitCas loaded) s (c.goto .admission)
  | admits (limiter : Concurrency) (loaded : Int) : s.admission = some limiter →
      limiter.inUse = loaded → Advances i s c (.admitCas loaded)
        { s with admission := some { limiter with inUse := loaded + 1 } }
        { c with admitted := c.admitted + 1, stage := .naming }
  | unkey : Advances i s c .unkey (releasePerIP s c).1 ((releasePerIP s c).2.goto .countRejected)
  | countRejected : Advances i s c .countRejected { s with rejected := s.rejected + 1 }
      (c.goto .closeRejected)
  | closeRejected : Advances i s c .closeRejected s (c.close.goto (.gone .rejected))
  | naming : Advances i s c .naming { s with lastConnID := s.lastConnID + 1 }
      { c with id := s.lastConnID + 1, stage := .track }
  | stopped : s.stopped = true → Advances i s c .track s (c.goto .refuseAdmit)
  | track : s.stopped = false → Advances i s c .track { s with conns := insert i s.conns }
      (c.goto .countAccepted)
  | refuseAdmit : Advances i s c .refuseAdmit (releaseAdmit s c).1
      ((releaseAdmit s c).2.goto .refusePerIP)
  | refusePerIP : Advances i s c .refusePerIP (releasePerIP s c).1
      ((releasePerIP s c).2.goto .refuseClose)
  | refuseClose : Advances i s c .refuseClose s (c.close.goto (.gone .refused))
  | countAccepted : Advances i s c .countAccepted { s with accepted := s.accepted + 1 }
      (c.goto .countActive)
  | countActive : Advances i s c .countActive { s with active := s.active + 1 } (c.goto .wgAdd)
  | wgAdd : Advances i s c .wgAdd { s with wg := s.wg + 1 } (c.goto .spawn)
  | spawn : Advances i s c .spawn s (c.goto .ready)
  | ready : Advances i s c .ready s (c.goto .handling)
  | close : Advances i s c .close s (c.close.goto .releaseAdmit)
  | releaseAdmit : Advances i s c .releaseAdmit (releaseAdmit s c).1
      ((releaseAdmit s c).2.goto .releasePerIP)
  | releasePerIP : Advances i s c .releasePerIP (releasePerIP s c).1
      ((releasePerIP s c).2.goto .untrack)
  | untrack : Advances i s c .untrack { s with conns := s.conns.erase i } (c.goto .uncountActive)
  | uncountActive : Advances i s c .uncountActive { s with active := s.active - 1 }
      (c.goto .countClosed)
  | countClosed : Advances i s c .countClosed { s with closed := s.closed + 1 } (c.goto .wgDone)
  | wgDone : Advances i s c .wgDone (wgDone s) (c.goto (.gone .served))

theorem advance_advances {i : Nat} {s s' : Server Call} {c c' : Conn}
    (advanced : advance i s c = some (s', c')) : Advances i s c c.stage s' c' := by
  cases here : c.stage <;> simp only [advance, here] at advanced
  case keying =>
      split at advanced
      · cases advanced
        exact .unkeyed ‹_›
      · rename_i limited
        cases advanced
        exact .keyed _ _ (by rw [limited]; rfl)
  case perIP =>
      split at advanced
      · cases advanced
      · split at advanced <;> cases advanced
        · exact .overPerIP _ _ ‹_› ‹_›
        · exact .underPerIP _ _ ‹_› ‹_›
  case admission =>
      split at advanced
      · cases advanced
        exact .unlimited ‹_›
      · split at advanced <;> cases advanced
        · exact .full
        · exact .load _ ‹_›
  case admitCas loaded =>
      split at advanced
      · cases advanced
      · unfold Concurrency.compareAndSwap at advanced
        split at advanced <;> rename_i swapped <;> split at swapped <;> cases swapped <;>
          cases advanced
        · exact .stale _ _ ‹_› ‹_›
        · exact .admits _ _ ‹_› ‹_›
  case track =>
      split at advanced <;> cases advanced
      · exact .stopped ‹_›
      · exact .track (by simpa using ‹¬s.stopped = true›)
  all_goals cases advanced <;> constructor

end Connections

def Stage.inLoop : Stage → Bool
  | .keying | .perIP | .countPerIP | .closePerIP | .admission | .admitCas _ | .unkey => true
  | .countRejected | .closeRejected | .naming | .track => true
  | .refuseAdmit | .refusePerIP | .refuseClose => true
  | .countAccepted | .countActive | .wgAdd | .spawn => true
  | _ => false

/-- What follows `stopAccept`: the rest of a `Close`, made by a call or for the
context of a `Serve`, that of a `Shutdown`, or the return of a broken accept loop. -/
inductive AfterStop (Call : Type) where
  | close (cause : Cause Call)
  | shutdown
  | failed (err : Err)

/-- What follows `abortAll`: the return of a `Close`, of a `Shutdown` whose context
is done, or the rest of a `Serve` whose listener broke. -/
inductive AfterAbort (Call : Type) where
  | close (cause : Cause Call)
  | expired (err : Err)
  | failed (err : Err)

/-- The stages of `stopAccept` inside its `sync.Once`. -/
inductive Stopping where
  | enter
  | set
  | closeListener
  | closeDraining
  | leave
  deriving DecidableEq, Repr

inductive Pc (Call : Type) where
  | idle
  | gate
  | afterFunc
  | accept
  | working (i : Nat)
  | checkStopped (temporary : Bool) (err : Err)
  | backoff
  | loopDone (err : Option Err)
  | wait (err : Option Err)
  | abort (err : Option Err)
  | unregister (err : Option Err)
  | closeDone (err : Option Err)
  | stopAccept (stage : Stopping) (after : AfterStop Call)
  | abortAll (after : AfterAbort Call)
  | closing (after : AfterAbort Call) (rest : Finset Nat)
  | readServing
  | select
  | returned (reply : Reply)

/-- Everything but the program points. `armed` are the `Serve` calls whose
`AfterFunc` is registered, `ctx` the errors of the contexts that are done. The
last two fields record that a `Close` call was made and that the listener broke. -/
structure Shared (Call : Type) where
  server : Server Call
  conn : Nat → Conn
  accepts : Nat
  ctx : Call → Option Err
  armed : Finset Call
  closeCalled : Bool
  broken : Bool

inductive Act (Call : Type) where
  | call (op : Op)
  | fire (serve : Call)
  | next
  | accept (remote : Remote)
  | acceptFails (temporary : Bool) (err : Err)
  | timer
  | drained
  | closeConn (i : Nat)
  | done
  | ctxDone
  | ctxEnds (err : Err)

section Calls

variable {Call : Type} [DecidableEq Call]

def Server.cancel (s : Server Call) (cause : Cause Call) : Server Call :=
  { s with aborted := s.aborted.or (some cause) }

def Server.closeDone (s : Server Call) : Server Call :=
  { s with done := true, crashed := s.crashed || s.done }

def Shared.withServer (s : Shared Call) (server : Server Call) : Shared Call :=
  { s with server }

def Shared.setConn (s : Shared Call) (i : Nat) (c : Conn) : Shared Call :=
  { s with conn := Function.update s.conn i c }

def acceptError (err : Err) : Err :=
  .wrapped 21 "tcp: accept: %w" err

def AfterAbort.cause (call : Call) : AfterAbort Call → Cause Call
  | .close cause => cause
  | .expired _ => .shutdownCtx call
  | .failed _ => .acceptError

def AfterStop.next : AfterStop Call → Pc Call
  | .close cause => .abortAll (.close cause)
  | .shutdown => .readServing
  | .failed err => .loopDone (some err)

def AfterAbort.next : AfterAbort Call → Pc Call
  | .close _ => .returned .closed
  | .expired err => .returned (.shutdownCut err)
  | .failed err => .wait (some err)

/-- Where the accept loop goes on after a step on a connection. -/
def Conn.afterWork (i : Nat) (c : Conn) : Pc Call :=
  match c.stage with
  | .gone .refused => .loopDone none
  | stage => if stage.inLoop then .working i else .accept

def stopAccept (s : Server Call) (after : AfterStop Call) :
    Stopping → Option (Server Call × Pc Call)
  | .enter =>
      match s.stopOnce with
      | .unused => some ({ s with stopOnce := .running }, .stopAccept .set after)
      | .running => none
      | .finished => some (s, after.next)
  | .set => some ({ s with stopped := true }, .stopAccept .closeListener after)
  | .closeListener => some ({ s with listening := false }, .stopAccept .closeDraining after)
  | .closeDraining => some ({ s with draining := true }, .stopAccept .leave after)
  | .leave => some ({ s with stopOnce := .finished }, after.next)

/-- The steps of a call that wait for nobody. -/
def next (call : Call) (s : Shared Call) : Pc Call → Option (Shared Call × Pc Call)
  | .gate =>
      if s.server.stopped then some (s, .returned (.refused ErrClosed))
      else if s.server.serving then
        some (s, .returned (.refused (.errorf "tcp: Serve called more than once")))
      else some (s.withServer { s.server with serving := true, aborted := none }, .afterFunc)
  | .afterFunc => some ({ s with armed := insert call s.armed }, .accept)
  | .working i =>
      if (s.conn i).stage.inLoop then
        (advance i s.server (s.conn i)).map fun (server, c) =>
          ((s.withServer server).setConn i c, c.afterWork i)
      else none
  | .checkStopped temporary err =>
      if s.server.stopped then some (s, .loopDone none)
      else if temporary then
        some (s.withServer { s.server with acceptErrors := s.server.acceptErrors + 1 }, .backoff)
      else some ({ s with broken := true }, .stopAccept .enter (.failed (acceptError err)))
  | .loopDone none => some (s, .wait none)
  | .loopDone (some err) => some (s, .abortAll (.failed err))
  | .wait err => if s.server.wg = 0 then some (s, .abort err) else none
  | .abort err => some (s.withServer (s.server.cancel .served), .unregister err)
  | .unregister err => some ({ s with armed := s.armed.erase call }, .closeDone err)
  | .closeDone err => some (s.withServer s.server.closeDone, .returned (.served err))
  | .stopAccept stage after =>
      (stopAccept s.server after stage).map fun (server, pc) => (s.withServer server, pc)
  | .abortAll after =>
      some (s.withServer (s.server.cancel (after.cause call)), .closing after s.server.conns)
  | .closing after rest => if rest = ∅ then some (s, after.next) else none
  | .readServing =>
      if s.server.serving then some (s, .select) else some (s, .returned .notServing)
  | _ => none

def effect (call : Call) (s : Shared Call) (pc : Pc Call) :
    Act Call → Option (Shared Call × Pc Call)
  | .call .serve => match pc with | .idle => some (s, .gate) | _ => none
  | .call .close =>
      match pc with
      | .idle => some ({ s with closeCalled := true }, .stopAccept .enter (.close .close))
      | _ => none
  | .call .shutdown =>
      match pc with
      | .idle => some (s, .stopAccept .enter .shutdown)
      | _ => none
  | .fire serve =>
      match pc with
      | .idle =>
          if serve ∈ s.armed ∧ (s.ctx serve).isSome = true then
            some ({ s with armed := s.armed.erase serve },
              .stopAccept .enter (.close (.serveCtx serve)))
          else none
      | _ => none
  | .next => next call s pc
  | .accept remote =>
      match pc with
      | .accept =>
          some ({ s.setConn s.accepts { remote } with accepts := s.accepts + 1 },
            .working s.accepts)
      | _ => none
  | .acceptFails temporary err =>
      match pc with
      | .accept => some (s, .checkStopped temporary err)
      | _ => none
  | .timer => match pc with | .backoff => some (s, .accept) | _ => none
  | .drained =>
      match pc with
      | .backoff => if s.server.draining then some (s, .loopDone none) else none
      | _ => none
  | .closeConn i =>
      match pc with
      | .closing after rest =>
          if i ∈ rest then some (s.setConn i (s.conn i).close, .closing after (rest.erase i))
          else none
      | _ => none
  | .done =>
      match pc with
      | .select => if s.server.done then some (s, .returned .shutdownDone) else none
      | _ => none
  | .ctxDone =>
      match pc, s.ctx call with
      | .select, some err => some (s, .abortAll (.expired err))
      | _, _ => none
  | .ctxEnds err =>
      match s.ctx call with
      | none => some ({ s with ctx := Function.update s.ctx call (some err) }, pc)
      | some _ => none

/-- What a call can do at each of its program points. -/
inductive Moves (call : Call) (s : Shared Call) :
    Pc Call → Act Call → Shared Call → Pc Call → Prop where
  | serve : Moves call s .idle (.call .serve) s .gate
  | close : Moves call s .idle (.call .close) { s with closeCalled := true }
      (.stopAccept .enter (.close .close))
  | shutdown : Moves call s .idle (.call .shutdown) s (.stopAccept .enter .shutdown)
  | fire (serve : Call) : serve ∈ s.armed → (s.ctx serve).isSome = true →
      Moves call s .idle (.fire serve) { s with armed := s.armed.erase serve }
        (.stopAccept .enter (.close (.serveCtx serve)))
  | gateStopped : s.server.stopped = true →
      Moves call s .gate .next s (.returned (.refused ErrClosed))
  | gateServing : s.server.serving = true → Moves call s .gate .next s
      (.returned (.refused (.errorf "tcp: Serve called more than once")))
  | gate : s.server.stopped = false → s.server.serving = false → Moves call s .gate .next
      (s.withServer { s.server with serving := true, aborted := none }) .afterFunc
  | afterFunc :
      Moves call s .afterFunc .next { s with armed := insert call s.armed } .accept
  | accept (remote : Remote) : Moves call s .accept (.accept remote)
      { s.setConn s.accepts { remote } with accepts := s.accepts + 1 } (.working s.accepts)
  | work (i : Nat) (server : Server Call) (c : Conn) : (s.conn i).stage.inLoop = true →
      advance i s.server (s.conn i) = some (server, c) →
      Moves call s (.working i) .next ((s.withServer server).setConn i c) (c.afterWork i)
  | acceptFails (temporary : Bool) (err : Err) :
      Moves call s .accept (.acceptFails temporary err) s (.checkStopped temporary err)
  | loopStopped (temporary : Bool) (err : Err) : s.server.stopped = true →
      Moves call s (.checkStopped temporary err) .next s (.loopDone none)
  | temporary (err : Err) : s.server.stopped = false →
      Moves call s (.checkStopped true err) .next
        (s.withServer { s.server with acceptErrors := s.server.acceptErrors + 1 }) .backoff
  | permanent (err : Err) : s.server.stopped = false →
      Moves call s (.checkStopped false err) .next { s with broken := true }
        (.stopAccept .enter (.failed (acceptError err)))
  | timer : Moves call s .backoff .timer s .accept
  | drained : s.server.draining = true → Moves call s .backoff .drained s (.loopDone none)
  | loopDone : Moves call s (.loopDone none) .next s (.wait none)
  | loopFailed (err : Err) :
      Moves call s (.loopDone (some err)) .next s (.abortAll (.failed err))
  | wait (err : Option Err) : s.server.wg = 0 → Moves call s (.wait err) .next s (.abort err)
  | abort (err : Option Err) : Moves call s (.abort err) .next
      (s.withServer (s.server.cancel .served)) (.unregister err)
  | unregister (err : Option Err) : Moves call s (.unregister err) .next
      { s with armed := s.armed.erase call } (.closeDone err)
  | closeDone (err : Option Err) : Moves call s (.closeDone err) .next
      (s.withServer s.server.closeDone) (.returned (.served err))
  | stopEnter (after : AfterStop Call) : s.server.stopOnce = .unused →
      Moves call s (.stopAccept .enter after) .next
        (s.withServer { s.server with stopOnce := .running }) (.stopAccept .set after)
  | stopSkip (after : AfterStop Call) : s.server.stopOnce = .finished →
      Moves call s (.stopAccept .enter after) .next s after.next
  | stopSet (after : AfterStop Call) : Moves call s (.stopAccept .set after) .next
      (s.withServer { s.server with stopped := true }) (.stopAccept .closeListener after)
  | stopListener (after : AfterStop Call) :
      Moves call s (.stopAccept .closeListener after) .next
        (s.withServer { s.server with listening := false }) (.stopAccept .closeDraining after)
  | stopDraining (after : AfterStop Call) :
      Moves call s (.stopAccept .closeDraining after) .next
        (s.withServer { s.server with draining := true }) (.stopAccept .leave after)
  | stopLeave (after : AfterStop Call) : Moves call s (.stopAccept .leave after) .next
      (s.withServer { s.server with stopOnce := .finished }) after.next
  | abortAll (after : AfterAbort Call) : Moves call s (.abortAll after) .next
      (s.withServer (s.server.cancel (after.cause call))) (.closing after s.server.conns)
  | closeConn (i : Nat) (after : AfterAbort Call) (rest : Finset Nat) : i ∈ rest →
      Moves call s (.closing after rest) (.closeConn i) (s.setConn i (s.conn i).close)
        (.closing after (rest.erase i))
  | closed (after : AfterAbort Call) : Moves call s (.closing after ∅) .next s after.next
  | readServing : s.server.serving = true → Moves call s .readServing .next s .select
  | notServing : s.server.serving = false →
      Moves call s .readServing .next s (.returned .notServing)
  | done : s.server.done = true → Moves call s .select .done s (.returned .shutdownDone)
  | ctxDone (err : Err) : s.ctx call = some err →
      Moves call s .select .ctxDone s (.abortAll (.expired err))
  | ctxEnds (pc : Pc Call) (err : Err) : s.ctx call = none →
      Moves call s pc (.ctxEnds err) { s with ctx := Function.update s.ctx call (some err) } pc

theorem next_moves {call : Call} {s s' : Shared Call} {pc pc' : Pc Call}
    (found : next call s pc = some (s', pc')) : Moves call s pc .next s' pc' := by
  cases pc with
  | gate =>
      simp only [next] at found
      split at found
      · cases found
        exact .gateStopped ‹_›
      · split at found
        · cases found
          exact .gateServing ‹_›
        · rename_i open_ idle
          cases found
          exact .gate (by simpa using open_) (by simpa using idle)
  | working i =>
      obtain ⟨inLoop, worked⟩ := Option.ite_none_right_eq_some.mp found
      obtain ⟨⟨server, c⟩, advanced, same⟩ := Option.map_eq_some_iff.mp worked
      cases same
      exact .work i server c inLoop advanced
  | checkStopped temporary err =>
      simp only [next] at found
      split at found
      · cases found
        exact .loopStopped temporary err ‹_›
      · rename_i open_
        cases temporary with
        | true => cases found; exact .temporary err (by simpa using open_)
        | false => cases found; exact .permanent err (by simpa using open_)
  | loopDone err =>
      cases err with
      | none => cases found; exact .loopDone
      | some err => cases found; exact .loopFailed err
  | wait err =>
      obtain ⟨finished, same⟩ := Option.ite_none_right_eq_some.mp found
      cases same
      exact .wait err finished
  | stopAccept stage after =>
      obtain ⟨⟨server, pc⟩, stopped, same⟩ := Option.map_eq_some_iff.mp found
      cases same
      cases stage with
      | enter =>
          simp only [stopAccept] at stopped
          split at stopped
          · cases stopped; exact .stopEnter after ‹_›
          · cases stopped
          · cases stopped; exact .stopSkip after ‹_›
      | set => cases stopped; exact .stopSet after
      | closeListener => cases stopped; exact .stopListener after
      | closeDraining => cases stopped; exact .stopDraining after
      | leave => cases stopped; exact .stopLeave after
  | closing after rest =>
      obtain ⟨empty, same⟩ := Option.ite_none_right_eq_some.mp found
      cases same
      subst empty
      exact .closed after
  | readServing =>
      simp only [next] at found
      split at found
      · cases found
        exact .readServing ‹_›
      · rename_i idle
        cases found
        exact .notServing (by simpa using idle)
  | afterFunc => cases found; exact .afterFunc
  | abort err => cases found; exact .abort err
  | unregister err => cases found; exact .unregister err
  | closeDone err => cases found; exact .closeDone err
  | abortAll after => cases found; exact .abortAll after
  | _ => cases found

theorem effect_moves {call : Call} {s s' : Shared Call} {pc pc' : Pc Call} {act : Act Call}
    (found : effect call s pc act = some (s', pc')) : Moves call s pc act s' pc' := by
  cases act with
  | call op =>
      cases op with
      | serve =>
          cases pc with
          | idle => cases found; exact .serve
          | _ => cases found
      | close =>
          cases pc with
          | idle => cases found; exact .close
          | _ => cases found
      | shutdown =>
          cases pc with
          | idle => cases found; exact .shutdown
          | _ => cases found
  | fire serve =>
      cases pc with
      | idle =>
          obtain ⟨⟨armed, ended⟩, same⟩ := Option.ite_none_right_eq_some.mp found
          cases same
          exact .fire serve armed ended
      | _ => cases found
  | next => exact next_moves found
  | accept remote =>
      cases pc with
      | accept => cases found; exact .accept remote
      | _ => cases found
  | acceptFails temporary err =>
      cases pc with
      | accept => cases found; exact .acceptFails temporary err
      | _ => cases found
  | timer =>
      cases pc with
      | backoff => cases found; exact .timer
      | _ => cases found
  | drained =>
      cases pc with
      | backoff =>
          obtain ⟨draining, same⟩ := Option.ite_none_right_eq_some.mp found
          cases same
          exact .drained draining
      | _ => cases found
  | closeConn i =>
      cases pc with
      | closing after rest =>
          obtain ⟨member, same⟩ := Option.ite_none_right_eq_some.mp found
          cases same
          exact .closeConn i after rest member
      | _ => cases found
  | done =>
      cases pc with
      | select =>
          obtain ⟨finished, same⟩ := Option.ite_none_right_eq_some.mp found
          cases same
          exact .done finished
      | _ => cases found
  | ctxDone =>
      simp only [effect] at found
      split at found
      · cases found
        exact .ctxDone _ ‹_›
      · cases found
  | ctxEnds err =>
      simp only [effect] at found
      split at found
      · cases found
        exact .ctxEnds pc err ‹_›
      · cases found

/-- The steps of the goroutine of connection `i`; `true` ends its handler. -/
def handle (s : Shared Call) (i : Nat) : Bool → Option (Shared Call)
  | true =>
      match (s.conn i).stage with
      | .handling => some (s.setConn i ((s.conn i).goto .close))
      | _ => none
  | false =>
      if (s.conn i).stage.inLoop then none
      else (advance i s.server (s.conn i)).map fun (server, c) =>
        (s.withServer server).setConn i c

end Calls

structure World (Call : Type) where
  shared : Shared Call
  pc : Call → Pc Call

/-- A call acts, or the goroutine of a connection. -/
inductive Action (Call : Type) where
  | call (call : Call) (act : Act Call)
  | conn (i : Nat) (returns : Bool)

section System

variable {Call : Type} [DecidableEq Call]

def World.step (w : World Call) : Action Call → Option (World Call)
  | .call call act =>
      (effect call w.shared (w.pc call) act).map fun (shared, pc) =>
        { shared, pc := Function.update w.pc call pc }
  | .conn i returns => (handle w.shared i returns).map fun shared => { w with shared }

def World.start (server : Server Call) : World Call where
  shared := {
    server
    conn := fun _ => { remote := .other }
    accepts := 0
    ctx := fun _ => none
    armed := ∅
    closeCalled := false
    broken := false }
  pc := fun _ => .idle

/-- A step is a move of a call, a step of a connection's goroutine, or the return of
its handler. -/
theorem World.step_cases {w next : World Call} {action : Action Call}
    (stepped : w.step action = some next) :
    (∃ call act shared pc, action = .call call act ∧
      Moves call w.shared (w.pc call) act shared pc ∧
      next = { shared, pc := Function.update w.pc call pc }) ∨
    (∃ i server c, (w.shared.conn i).stage.inLoop = false ∧
      advance i w.shared.server (w.shared.conn i) = some (server, c) ∧
      next = { w with shared := (w.shared.withServer server).setConn i c }) ∨
    ∃ i, (w.shared.conn i).stage = .handling ∧
      next = { w with shared := w.shared.setConn i ((w.shared.conn i).goto .close) } := by
  cases action with
  | call call act =>
      obtain ⟨⟨shared, pc⟩, found, same⟩ := Option.map_eq_some_iff.mp stepped
      exact .inl ⟨call, act, shared, pc, rfl, effect_moves found, same.symm⟩
  | conn i returns =>
      obtain ⟨shared, found, rfl⟩ := Option.map_eq_some_iff.mp stepped
      cases returns with
      | true =>
          simp only [handle] at found
          split at found
          · cases found
            exact .inr (.inr ⟨i, ‹_›, rfl⟩)
          · cases found
      | false =>
          obtain ⟨outside, worked⟩ := Option.ite_none_left_eq_some.mp found
          obtain ⟨⟨server, c⟩, advanced, rfl⟩ := Option.map_eq_some_iff.mp worked
          exact .inr (.inl ⟨i, server, c, by simpa using outside, advanced, rfl⟩)

/-- All runs over a server that `NewServer` returned. -/
def system (Call : Type) [DecidableEq Call] (o : Options) :
    Transition.System (World Call) (Action Call) where
  initial w := ∃ admission server,
    o.admission.mapM Concurrency.newConcurrency = some admission ∧
    newServer true true admission o = .ok server ∧ w = .start server
  step := World.step

end System

end Netx.Tcp
