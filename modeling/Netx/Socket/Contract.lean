import Netx.Socket.Applying

/-!
# Options are applied or the socket is refused

Whatever the kernel answers: options that do not apply to the socket are refused unasked, a
hook that succeeds leaves buffers of at least the size that was asked for, and one that fails
says why.
-/

set_option autoImplicit false

namespace Netx.Socket

open Interaction (Program Handler)

abbrev Kernel (State : Type) :=
  State → (request : Request) → request.Answer × State

def Kernel.handler {State : Type} (kernel : Kernel State) :
    Handler Request Request.Answer State :=
  fun state request => some (kernel state request)

namespace Event

def sets : Event → Option Name
  | ⟨.set name _, _⟩ => some name
  | _ => none

def failure : Event → Option Errno
  | ⟨.set _ _, answer⟩ => answer
  | ⟨.get _, (_, err)⟩ => err
  | _ => none

end Event

inductive Purpose where
  | recvBuffer
  | sendBuffer
  | reusePort
  | fastOpen
  deriving DecidableEq, Repr

def Name.purpose : Name → Purpose
  | .soRcvBuf | .soRcvBufForce => .recvBuffer
  | .soSndBuf | .soSndBufForce => .sendBuffer
  | .soReusePort | .soReusePortLB => .reusePort
  | .tcpFastOpen | .tcpFastOpenDarwin => .fastOpen

/-- Only options with an allowed purpose are set. -/
def SetsOnly (allowed : Purpose → Prop) (made : List Event) : Prop :=
  ∀ event ∈ made, ∀ name, event.sets = some name → allowed name.purpose

abbrev Sets (purpose : Purpose) : List Event → Prop :=
  SetsOnly (· = purpose)

abbrev Spares (purpose : Purpose) : List Event → Prop :=
  SetsOnly (· ≠ purpose)

structure BufferKind.Decides (k : BufferKind) (purpose : Purpose) : Prop where
  opt : k.opt.purpose = purpose
  force : ∀ name, k.force = some name → name.purpose = purpose

/-- The buffer was read to be large enough, and not set again since. -/
def Granted (k : BufferKind) (requested : Int) (doubled : Bool) (made : List Event) : Prop :=
  ∃ front v back, made = front ++ .get k.opt v none :: back ∧ requested ≤ reading doubled v ∧
    Spares k.opt.purpose back

/-- The error of a buffer that is too small: its name, the size that was asked for and what
was read last, after an attempt to force it where there is one. -/
def Short (p : Platform) (opts : Options) (option : String) (size actual : Int)
    (made : List Event) : Prop :=
  actual < size ∧ ∃ k front v,
    (k = p.recvBufferKind ∧ size = opts.recvBuffer ∨
      k = p.sendBufferKind ∧ size = opts.sendBuffer) ∧
    option = k.name ∧ made = front ++ [.get k.opt v none] ∧
    reading p.kernelDoublesBuffers v = actual ∧
    ∀ force, k.force = some force → ∃ answer, .set force size answer ∈ front

def EndsWith (errno : Errno) (made : List Event) : Prop :=
  ∃ front event, made = front ++ [event] ∧ event.failure = some errno

/-- Fast Open comes last and on listeners alone, and only an error which does not mean that
it is unavailable is one of the hook. -/
def FastOpenLast (opts : Options) (outbound : Bool) (network : String) (result : Option Err)
    (made : List Event) : Prop :=
  ∀ name value answer, .set name value answer ∈ made → name.purpose = .fastOpen →
    opts.fastOpen.enabled = true ∧ outbound = false ∧ isTCP network = true ∧
    (∃ front, made = front ++ [.set name value answer]) ∧ result = fastOpenResult answer

/-- The options that do not apply to a socket, and the strings of the error. -/
inductive Inapplicable (opts : Options) (outbound : Bool) (network : String) :
    String → String → Prop where
  | network : isTCP network = false → isUDP network = false → opts ≠ .zero →
      Inapplicable opts outbound network "socket options" ("network " ++ network)
  | fastOpen : isUDP network = true → opts.fastOpen.enabled = true →
      Inapplicable opts outbound network "TCP Fast Open" ("network " ++ network)
  | keepAlive : isUDP network = true → opts.fastOpen.enabled = false → opts.keepAlive ≠ .zero →
      Inapplicable opts outbound network "TCP keep-alive" ("network " ++ network)
  | dialed : isTCP network = true → outbound = true → opts.fastOpen.enabled = true →
      Inapplicable opts outbound network "TCP Fast Open" "dialed connections"

/-- The options that a platform does not have, and their names. -/
inductive Platform.Lacks (p : Platform) (opts : Options) : String → Prop where
  | buffers : p.setsBuffers = false → 0 < opts.recvBuffer ∨ 0 < opts.sendBuffer →
      Lacks p opts "socket buffer sizes"
  | reusePort : p.reusePort = none → opts.reusePort = true → Lacks p opts "SO_REUSEPORT"

/-- What a hook answers for, whatever the kernel did. -/
structure Accounted (p : Platform) (opts : Options) (outbound : Bool) (network : String)
    (result : Option Err) (made : List Event) : Prop where
  recv : result = none → 0 < opts.recvBuffer →
    Granted p.recvBufferKind opts.recvBuffer p.kernelDoublesBuffers made
  send : result = none → 0 < opts.sendBuffer →
    Granted p.sendBufferKind opts.sendBuffer p.kernelDoublesBuffers made
  reusePort : result = none → opts.reusePort = true →
    ∃ name, p.reusePort = some name ∧ .set name 1 none ∈ made
  fastOpen : FastOpenLast opts outbound network result made
  short : ∀ option size actual, result = some (.bufferSize option size actual) →
    Short p opts option size actual made
  unsupported : ∀ option place, result = some (.unsupported option place) →
    Inapplicable opts outbound network option place ∨ place = p.goos ∧ p.Lacks opts option
  errno : ∀ errno, result = some (.errno errno) → EndsWith errno made

/-- What does not apply to the socket is refused before any system call, and only that. -/
structure Verified (p : Platform) (opts : Options) (outbound : Bool) (network : String)
    (result : Option Err) (made : List Event) : Prop extends
    Accounted p opts outbound network result made where
  refused : ∀ option place, Inapplicable opts outbound network option place ↔
    result = some (.unsupported option place) ∧ made = []

section Buffers

variable {k : BufferKind} {purpose : Purpose} {requested : Int} {doubled : Bool} {e : Err}
  {front back made : List Event} {allowed : Purpose → Prop}

theorem SetsOnly.nil : SetsOnly allowed [] :=
  List.forall_mem_nil _

theorem SetsOnly.set {name : Name} {value : Int} {answer : Option Errno}
    (known : allowed name.purpose) (sets : SetsOnly allowed made) :
    SetsOnly allowed (.set name value answer :: made) :=
  List.forall_mem_cons.mpr ⟨fun _ same => (Option.some.inj same) ▸ known, sets⟩

theorem SetsOnly.get {name : Name} {v : Int} {err : Option Errno} (sets : SetsOnly allowed made) :
    SetsOnly allowed (.get name v err :: made) :=
  List.forall_mem_cons.mpr ⟨fun _ same => (by cases same), sets⟩

theorem SetsOnly.append (earlier : SetsOnly allowed front) (later : SetsOnly allowed back) :
    SetsOnly allowed (front ++ back) :=
  List.forall_mem_append.mpr ⟨earlier, later⟩

theorem SetsOnly.spares {other : Purpose} (sets : Sets purpose made) (differ : purpose ≠ other) :
    Spares other made :=
  fun event member name same => sets event member name same ▸ differ

theorem Opens.sets (decides : k.Decides purpose) (opens : Opens k requested doubled made) :
    Sets purpose made := by
  cases opens with
  | plain => exact .set decides.opt .nil
  | forced force v answer known =>
      exact .set decides.opt (.get (.set (decides.force force known) .nil))

theorem Fits.sets (decides : k.Decides purpose) (fits : Fits k requested doubled made) :
    Sets purpose made := by
  cases fits with
  | unasked => exact .nil
  | granted front v opens => exact (opens.sets decides).append (.get .nil)

theorem Refused.sets (decides : k.Decides purpose) (refused : Refused k requested doubled e made) :
    Sets purpose made := by
  cases refused with
  | set e => exact .set decides.opt .nil
  | read front v e opens => exact (opens.sets decides).append (.get .nil)
  | short front v opens => exact (opens.sets decides).append (.get .nil)

theorem EndsWith.after {errno : Errno} (front : List Event) (ends : EndsWith errno made) :
    EndsWith errno (front ++ made) := by
  obtain ⟨earlier, event, rfl, failed⟩ := ends
  exact ⟨front ++ earlier, event, (List.append_assoc _ _ _).symm, failed⟩

theorem Refused.errno {errno : Errno} (refused : Refused k requested doubled (.errno errno) made) :
    EndsWith errno made := by
  cases refused with
  | set => exact ⟨[], _, rfl, rfl⟩
  | read front v => exact ⟨front, _, rfl, rfl⟩

theorem Fits.granted_before (fits : Fits k requested doubled front) (asked : 0 < requested)
    (kept : Spares k.opt.purpose back) :
    Granted k requested doubled (front ++ back) := by
  cases fits with
  | unasked unasked => exact absurd asked (Int.not_lt.mpr unasked)
  | granted earlier v opens enough =>
      exact ⟨earlier, v, back, List.append_assoc _ _ _, enough, kept⟩

theorem Granted.after (front : List Event) (granted : Granted k requested doubled made) :
    Granted k requested doubled (front ++ made) := by
  obtain ⟨earlier, v, back, rfl, enough, kept⟩ := granted
  exact ⟨front ++ earlier, v, back, (List.append_assoc _ _ _).symm, enough, kept⟩

end Buffers

section Options

variable {p : Platform} {opts : Options} {outbound : Bool} {network : String} {e : Err}
  {front back made : List Event}

theorem Platform.recv_decides (p : Platform) : p.recvBufferKind.Decides .recvBuffer := by
  cases p <;> exact ⟨rfl, fun _ same => by cases same <;> rfl⟩

theorem Platform.send_decides (p : Platform) : p.sendBufferKind.Decides .sendBuffer := by
  cases p <;> exact ⟨rfl, fun _ same => by cases same <;> rfl⟩

theorem Platform.reusePort_purpose {name : Name} (known : p.reusePort = some name) :
    name.purpose = .reusePort := by
  cases p <;> cases known <;> rfl

theorem Platform.fastOpen_purpose {backlog value : Int} {name : Name}
    (known : p.fastOpen backlog = some (name, value)) : name.purpose = .fastOpen := by
  cases p <;> cases known <;> rfl

theorem Shares.sets (shares : Shares p opts made) : Sets .reusePort made := by
  cases shares with
  | off => exact .nil
  | set name known => exact .set (Platform.reusePort_purpose known) .nil

theorem ShareRefused.sets (refused : ShareRefused p opts e made) : Sets .reusePort made := by
  cases refused with
  | unsupported => exact .nil
  | set name e known => exact .set (Platform.reusePort_purpose known) .nil

theorem OpensFast.sets {result : Option Err} (fast : OpensFast p opts result made) :
    Sets .fastOpen made := by
  cases fast with
  | off => exact .nil
  | asked name value answer wanted known => exact .set (Platform.fastOpen_purpose known) .nil

private theorem fits_slow (recv : RecvFits p opts front) (send : SendFits p opts back) :
    Spares .fastOpen (front ++ back) :=
  ((recv.sets p.recv_decides).spares (by decide)).append
    ((send.sets p.send_decides).spares (by decide))

theorem BuffersRefused.slow (refused : BuffersRefused p opts e made) : Spares .fastOpen made := by
  cases refused with
  | unsupported => exact List.forall_mem_nil _
  | recv e made refused => exact (refused.sets p.recv_decides).spares (by decide)
  | send e front back fits refused =>
      exact ((fits.sets p.recv_decides).spares (by decide)).append
        ((refused.sets p.send_decides).spares (by decide))

theorem Short.after {option : String} {size actual : Int} (front : List Event)
    (short : Short p opts option size actual made) :
    Short p opts option size actual (front ++ made) := by
  obtain ⟨less, k, earlier, v, known, named, rfl, read, tried⟩ := short
  exact ⟨less, k, front ++ earlier, v, known, named, (List.append_assoc _ _ _).symm, read,
    fun force known => (tried force known).imp fun _ => List.mem_append_right front⟩

theorem BuffersRefused.short {option : String} {size actual : Int}
    (refused : BuffersRefused p opts (.bufferSize option size actual) made) :
    Short p opts option size actual made := by
  cases refused with
  | recv e made refused =>
      cases refused with
      | short front v opens tried less =>
          exact ⟨less, _, front, v, .inl ⟨rfl, rfl⟩, rfl, rfl, rfl, tried⟩
  | send e front back fits refused =>
      cases refused with
      | short earlier v opens tried less =>
          exact .after front ⟨less, _, earlier, v, .inr ⟨rfl, rfl⟩, rfl, rfl, rfl, tried⟩

theorem BuffersRefused.errno {errno : Errno} (refused : BuffersRefused p opts (.errno errno) made) :
    EndsWith errno made := by
  cases refused with
  | recv e made refused => exact refused.errno
  | send e front back fits refused => exact refused.errno.after front

private theorem fastOpenResult_errno {answer : Option Errno}
    (failed : fastOpenResult answer = some e) :
    ∃ errno, answer = some errno ∧ e = .errno errno := by
  cases answer with
  | none => cases failed
  | some errno =>
      refine ⟨errno, rfl, ?_⟩
      cases known : errno.unavailable <;> simp_all [fastOpenResult]

theorem SetsOnly.fastOpenLast {result : Option Err} (slow : Spares .fastOpen made) :
    FastOpenLast opts outbound network result made :=
  fun name _ _ member opens => absurd opens (slow _ member name rfl)

private theorem refusal_fastOpen (accepted : refusal opts outbound network = none)
    (wanted : opts.fastOpen.enabled = true) : outbound = false ∧ isTCP network = true := by
  have nonzero : opts ≠ .zero := by
    rintro rfl
    cases wanted
  unfold refusal checkNetwork at accepted
  rw [wanted] at accepted
  cases tcp : isTCP network <;> cases udp : isUDP network <;> cases outbound <;>
    simp_all

theorem OpensFast.fastOpenLast {result : Option Err}
    (accepted : refusal opts outbound network = none) (fast : OpensFast p opts result back)
    (slow : Spares .fastOpen front) :
    FastOpenLast opts outbound network result (front ++ back) := by
  intro name value answer member opens
  have later := (List.mem_append.mp member).resolve_left fun earlier =>
    slow _ earlier name rfl opens
  cases fast with
  | off => cases later
  | asked name' value' answer' wanted known same =>
      cases List.mem_singleton.mp later
      obtain ⟨inbound, tcp⟩ := refusal_fastOpen accepted wanted
      exact ⟨wanted, inbound, tcp, ⟨front, rfl⟩, same.symm⟩

private theorem isTCP_eq_false (udp : isUDP network = true) : isTCP network = false := by
  unfold isUDP at udp
  simp only [Bool.or_eq_true, beq_iff_eq] at udp
  rcases udp with (rfl | rfl) | rfl <;> decide

private theorem refusal_iff : refusal opts outbound network = some e ↔
    ∃ option place, e = .unsupported option place ∧
      Inapplicable opts outbound network option place := by
  constructor
  · intro refused
    unfold refusal checkNetwork at refused
    simp only [Bool.and_eq_true, Bool.not_eq_true'] at refused
    split at refused
    · rename_i found
      cases refused
      split at found
      · rename_i outside
        split at found <;> cases found
        exact ⟨_, _, rfl, .network outside.1 outside.2 ‹_›⟩
      · split at found
        · rename_i wanted
          cases found
          exact ⟨_, _, rfl, .fastOpen wanted.1 wanted.2⟩
        · rename_i unwanted
          split at found
          · rename_i kept
            cases found
            refine ⟨_, _, rfl, .keepAlive kept.1 ?_ ?_⟩
            · exact eq_false_of_ne_true fun wanted => unwanted ⟨kept.1, wanted⟩
            · exact of_decide_eq_false kept.2
          · cases found
    · rename_i applies
      split at refused <;> cases refused
      rename_i dialed
      have nonzero : opts ≠ .zero := by
        rintro rfl
        cases dialed.2
      refine ⟨_, _, rfl, .dialed ?_ dialed.1 dialed.2⟩
      by_contra other
      cases udp : isUDP network <;> simp [other, udp, nonzero, dialed.2] at applies
  · rintro ⟨option, place, rfl, inapplicable⟩
    cases inapplicable with
    | network tcp udp nonzero => simp [refusal, checkNetwork, tcp, udp, nonzero]
    | fastOpen udp wanted => simp [refusal, checkNetwork, isTCP_eq_false udp, udp, wanted]
    | keepAlive udp unwanted kept =>
        simp [refusal, checkNetwork, isTCP_eq_false udp, udp, unwanted, KeepAlive.isZero, kept]
    | dialed tcp out wanted =>
        have udp : isUDP network = false := eq_false_of_ne_true fun udp => by
          rw [isTCP_eq_false udp] at tcp
          cases tcp
        simp [refusal, checkNetwork, tcp, udp, out, wanted]

end Options

section Hooks

variable {p : Platform} {opts : Options} {outbound : Bool} {network : String} {e : Err}
  {front recv send back made : List Event}

private theorem accounted_applied (accepted : refusal opts outbound network = none)
    (first : Spares .fastOpen front) (received : RecvFits p opts recv)
    (sent : SendFits p opts send) (shared : Shares p opts made)
    (fast : OpensFast p opts none back) :
    Accounted p opts outbound network none (front ++ (recv ++ send ++ (made ++ back))) := by
  have rest {purpose : Purpose} (share : .reusePort ≠ purpose) (slow : .fastOpen ≠ purpose) :
      Spares purpose (made ++ back) :=
    (shared.sets.spares share).append (fast.sets.spares slow)
  refine {
    recv := fun _ asked => ?_
    send := fun _ asked => ?_
    reusePort := fun _ wanted => ?_
    fastOpen := ?_
    short := fun _ _ _ same => by cases same
    unsupported := fun _ _ same => by cases same
    errno := fun _ same => by cases same }
  · rw [List.append_assoc recv]
    refine .after front (received.granted_before asked ?_)
    rw [p.recv_decides.opt]
    exact ((sent.sets p.send_decides).spares (by decide)).append (rest (by decide) (by decide))
  · rw [List.append_assoc recv]
    refine .after front (.after recv (sent.granted_before asked ?_))
    rw [p.send_decides.opt]
    exact rest (by decide) (by decide)
  · cases shared with
    | off off =>
        rw [off] at wanted
        cases wanted
    | set name known => exact ⟨name, known, by simp⟩
  · rw [← List.append_assoc (recv ++ send), ← List.append_assoc front]
    exact fast.fastOpenLast accepted
      (first.append ((fits_slow received sent).append (shared.sets.spares (by decide))))

/-- A hook that fails has nothing to show of what it was asked for. -/
theorem accounted_failed
    (fastOpen : FastOpenLast opts outbound network (some e) made)
    (short : ∀ option size actual, e = .bufferSize option size actual →
      Short p opts option size actual made)
    (unsupported : ∀ option place, e = .unsupported option place →
      Inapplicable opts outbound network option place ∨ place = p.goos ∧ p.Lacks opts option)
    (errno : ∀ errno, e = .errno errno → EndsWith errno made) :
    Accounted p opts outbound network (some e) made where
  recv same := by cases same
  send same := by cases same
  reusePort same := by cases same
  fastOpen := fastOpen
  short option size actual same := short option size actual (Option.some.inj same)
  unsupported option place same := unsupported option place (Option.some.inj same)
  errno e same := errno e (Option.some.inj same)

theorem BuffersRefused.accounted (slow : Spares .fastOpen front)
    (refused : BuffersRefused p opts e made) :
    Accounted p opts outbound network (some e) (front ++ made) := by
  refine accounted_failed (slow.append refused.slow).fastOpenLast
    (fun option size actual same => (same ▸ refused).short.after front)
    (fun option place same => .inr ?_) (fun errno same => (same ▸ refused).errno.after front)
  cases refused with
  | unsupported unable asked =>
      cases same
      exact ⟨rfl, .buffers unable asked⟩
  | recv e made refused | send e front back fits refused =>
      subst same
      cases refused

theorem ShareRefused.accounted (slow : Spares .fastOpen back)
    (refused : ShareRefused p opts e made) :
    Accounted p opts outbound network (some e) (back ++ made) := by
  refine accounted_failed (slow.append (refused.sets.spares (by decide))).fastOpenLast
    (fun _ _ _ same => ?_) (fun _ _ same => .inr ?_) (fun errno same => ?_)
  · cases refused <;> cases same
  · cases refused with
    | unsupported wanted unknown =>
        cases same
        exact ⟨rfl, .reusePort unknown wanted⟩
    | set => cases same
  · cases refused with
    | unsupported => cases same
    | set name e known =>
        cases same
        exact ⟨back, _, rfl, rfl⟩

theorem OpensFast.accounted (accepted : refusal opts outbound network = none)
    (slow : Spares .fastOpen back) (fast : OpensFast p opts (some e) made) :
    Accounted p opts outbound network (some e) (back ++ made) := by
  have last := fast.fastOpenLast accepted slow
  cases fast with
  | off same => cases same
  | asked name value answer wanted known failed =>
      obtain ⟨errno, rfl, rfl⟩ := fastOpenResult_errno failed
      refine accounted_failed last (fun _ _ _ same => by cases same)
        (fun _ _ same => by cases same) (fun errno same => ?_)
      cases same
      exact ⟨back, _, rfl, rfl⟩

theorem Accounted.verified {result : Option Err} (accepted : refusal opts outbound network = none)
    (accounted : Accounted p opts outbound network result made)
    (asked : made = [] → result = none) : Verified p opts outbound network result made where
  toAccounted := accounted
  refused option place := by
    refine iff_of_false (fun inapplicable => ?_) (fun refused => ?_)
    · have found := refusal_iff.mpr ⟨option, place, rfl, inapplicable⟩
      rw [accepted] at found
      cases found
    · have failed := refused.1
      rw [asked refused.2] at failed
      cases failed

end Hooks

/-- Whatever the kernel answers to each request, a hook returns, and every part of its
options is in force or its error accounts for it. -/
theorem options_verified {State : Type} (kernel : Kernel State) (state : State) (p : Platform)
    (opts : Options) (outbound : Bool) (network : String) :
    ∃ result next,
      (control p opts outbound network).run kernel.handler state = some (result, next) ∧
      Verified p opts outbound network result
        ((control p opts outbound network).events kernel.handler state) := by
  have meets : (control p opts outbound network).Meets anything
      (fun result made => Verified p opts outbound network result made) [] := by
    unfold control
    cases refused : refusal opts outbound network with
    | some e =>
        obtain ⟨option, place, rfl, inapplicable⟩ := refusal_iff.mp refused
        refine ⟨accounted_failed (fun _ _ _ member => by cases member)
          (fun _ _ _ same => by cases same) (fun _ _ same => .inl ?_)
          (fun _ same => by cases same), fun option' place' => ?_⟩
        · cases same
          exact inapplicable
        · constructor
          · intro other
            have found := refusal_iff.mpr ⟨option', place', rfl, other⟩
            exact ⟨refused.symm.trans found, rfl⟩
          · rintro ⟨same, _⟩
            cases same
            exact inapplicable
    | none =>
        dsimp only
        split
        · rename_i zero
          subst zero
          exact (accounted_applied refused .nil (.unasked (Int.le_refl 0))
            (.unasked (Int.le_refl 0)) (.off rfl) (.off rfl)).verified refused fun _ => rfl
        · refine Program.meets_bind.mpr ⟨trivial, fun answer _ => ?_⟩
          cases answer with
          | some code =>
              refine (accounted_failed (fun _ _ _ member => ?_)
                (fun _ _ _ same => by cases same) (fun _ _ same => by cases same)
                (fun _ same => by cases same)).verified refused nofun
              cases List.mem_singleton.mp member
          | none =>
              have first : Spares .fastOpen [.control none] :=
                List.forall_mem_singleton.mpr fun _ same => (by cases same)
              refine (applyBuffers_yields.andThen applyOptions_yields _).mono ?_
              rintro result _ ⟨made, rfl, holds⟩
              refine Accounted.verified refused ?_ nofun
              cases result with
              | none =>
                  obtain ⟨_, _, rfl, ⟨_, _, rfl, recv, send⟩, ⟨_, _, rfl, share, fast⟩⟩ := holds
                  exact accounted_applied refused first recv send share fast
              | some e =>
                  rcases holds with failed | ⟨_, _, rfl, ⟨_, _, rfl, recv, send⟩,
                    failed | ⟨_, _, rfl, share, failed⟩⟩
                  · exact failed.accounted first
                  · have last : Accounted p opts outbound network _ _ :=
                      failed.accounted (first.append (fits_slow recv send))
                    exact last
                  · have slow := (fits_slow recv send).append (share.sets.spares (by decide))
                    have last := failed.accounted refused (first.append slow)
                    rw [List.append_assoc, List.append_assoc (_ ++ _)] at last
                    exact last
  exact meets.run (fun state _ request _ => ⟨_, _, rfl, trivial⟩) state

/-- A Linux kernel that caps buffers at 100 bytes and lets nobody force them; its state is the
size it reports. -/
def capped : Kernel Int
  | size, .control => (none, size)
  | size, .get _ => ((size, none), size)
  | _, .set .soRcvBuf value => (none, 2 * min value 100)
  | size, .set _ _ => (some (.other 1), size)

theorem options_verified_capped : ∃ result next,
    (control .linux ⟨⟨false, 0⟩, false, 4096, 0, .zero⟩ false "udp").run capped.handler 0 =
      some (result, next) ∧ result = some (.bufferSize "receive buffer" 4096 100) ∧
    Verified .linux ⟨⟨false, 0⟩, false, 4096, 0, .zero⟩ false "udp" result
      [.control none, .set .soRcvBuf 4096 none, .get .soRcvBuf 200 none,
        .set .soRcvBufForce 4096 (some (.other 1)), .get .soRcvBuf 200 none] := by
  obtain ⟨result, next, ran, verified⟩ :=
    options_verified capped 0 .linux ⟨⟨false, 0⟩, false, 4096, 0, .zero⟩ false "udp"
  have answered : (control .linux ⟨⟨false, 0⟩, false, 4096, 0, .zero⟩ false "udp").run
      capped.handler 0 = some (some (.bufferSize "receive buffer" 4096 100), 200) := by
    decide +kernel
  refine ⟨result, next, ran, ?_, verified⟩
  rw [ran] at answered
  exact congrArg Prod.fst (Option.some.inj answered)

end Netx.Socket
