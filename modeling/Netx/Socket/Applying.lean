import Netx.Socket.Options

/-!
# What the hooks ask of a kernel

Relations for the ways through each function: what is asked and answered when it returns no
error, and when it returns one.
-/

set_option autoImplicit false

namespace Netx.Socket

open Interaction (Program Protocol)

def anything : Protocol Request Request.Answer where
  allows _ _ := True
  promises _ _ := True

def Event.set (name : Name) (value : Int) (answer : Option Errno) : Event :=
  ⟨.set name value, answer⟩

def Event.get (name : Name) (v : Int) (err : Option Errno) : Event :=
  ⟨.get name, (v, err)⟩

def Event.control (answer : Option Nat) : Event :=
  ⟨.control, answer⟩

def outcome (ok : List Event → Prop) (bad : Err → List Event → Prop) :
    Option Err → List Event → Prop
  | none => ok
  | some e => bad e

/-- Whatever is answered, what a call makes is `ok`, or `bad` with its error. -/
def Yields (program : Syscalls (Option Err)) (ok : List Event → Prop)
    (bad : Err → List Event → Prop) : Prop :=
  ∀ history, program.Meets anything
    (fun result whole => ∃ made, whole = history ++ made ∧ outcome ok bad result made) history

section Sequences

variable {first second : Syscalls (Option Err)} {ok ok' : List Event → Prop}
  {bad bad' : Err → List Event → Prop}

def Both (front back : List Event → Prop) (made : List Event) : Prop :=
  ∃ earlier later, made = earlier ++ later ∧ front earlier ∧ back later

theorem Yields.pure {result : Option Err} (holds : outcome ok bad result []) :
    Yields (return result) ok bad :=
  fun history => ⟨[], (List.append_nil history).symm, holds⟩

theorem Yields.andThen (earlier : Yields first ok bad) (later : Yields second ok' bad') :
    Yields (andThen first second) (Both ok ok') fun e made =>
      bad e made ∨ Both ok (bad' e) made := by
  refine fun history => Program.meets_bind.mpr ((earlier history).mono ?_)
  rintro result _ ⟨front, rfl, holds⟩
  cases result with
  | some e => exact ⟨front, rfl, .inl holds⟩
  | none =>
      refine (later _).mono ?_
      rintro result _ ⟨back, rfl, holds'⟩
      refine ⟨front ++ back, List.append_assoc _ _ _, ?_⟩
      cases result with
      | none => exact ⟨front, back, rfl, holds, holds'⟩
      | some e => exact .inr ⟨front, back, rfl, holds, holds'⟩

end Sequences

section Buffers

variable (k : BufferKind) (requested : Int) (doubled : Bool)

/-- What is asked before the size is read last. -/
inductive Opens : List Event → Prop where
  | plain : Opens [.set k.opt requested none]
  | forced (force : Name) (v : Int) (answer : Option Errno) : k.force = some force →
      reading doubled v < requested →
      Opens [.set k.opt requested none, .get k.opt v none, .set force requested answer]

inductive Fits : List Event → Prop where
  | unasked : requested ≤ 0 → Fits []
  | granted (front : List Event) (v : Int) : Opens k requested doubled front →
      requested ≤ reading doubled v → Fits (front ++ [.get k.opt v none])

inductive Refused : Err → List Event → Prop where
  | set (e : Errno) : Refused (.errno e) [.set k.opt requested (some e)]
  | read (front : List Event) (v : Int) (e : Errno) : Opens k requested doubled front →
      Refused (.errno e) (front ++ [.get k.opt v (some e)])
  | short (front : List Event) (v : Int) : Opens k requested doubled front →
      (∀ force, k.force = some force → ∃ answer, .set force requested answer ∈ front) →
      reading doubled v < requested →
      Refused (.bufferSize k.name requested (reading doubled v)) (front ++ [.get k.opt v none])

variable {k requested doubled}

private theorem meets_setsockopt {name : Name} {value : Int}
    {post : Option Errno → List Event → Prop}
    {history : List Event} (holds : ∀ answer, post answer (history ++ [.set name value answer])) :
    (setsockopt name value).Meets anything post history :=
  ⟨trivial, fun answer _ => holds answer⟩

private theorem meets_readBuffer {post : Int × Option Errno → List Event → Prop}
    {history : List Event}
    (holds : ∀ v err, post (reading doubled v, err) (history ++ [.get k.opt v err])) :
    (readBuffer k doubled).Meets anything post history := by
  refine Program.meets_bind.mpr ⟨trivial, ?_⟩
  rintro ⟨v, err⟩ _
  exact holds v err

theorem Opens.checked {front : List Event} {v : Int} (opens : Opens k requested doubled front)
    (tried : reading doubled v < requested →
      ∀ force, k.force = some force → ∃ answer, .set force requested answer ∈ front) :
    outcome (Fits k requested doubled) (Refused k requested doubled)
      (checkBuffer k requested (reading doubled v)) (front ++ [.get k.opt v none]) := by
  rcases Int.lt_or_le (reading doubled v) requested with short | enough
  · rw [checkBuffer, if_pos short]
    exact .short front v opens (tried short) short
  · rw [checkBuffer, if_neg (Int.not_lt.mpr enough)]
    exact .granted front v opens enough

private theorem ensureBuffer_yields : Yields (ensureBuffer k requested doubled)
    (Fits k requested doubled) (Refused k requested doubled) := by
  refine fun history => Program.meets_bind.mpr (meets_setsockopt fun answer => ?_)
  cases answer with
  | some e => exact ⟨_, rfl, .set e⟩
  | none =>
      refine Program.meets_bind.mpr (meets_readBuffer fun v err => ?_)
      rw [List.append_assoc]
      cases err with
      | some e => exact ⟨_, rfl, .read _ v e .plain⟩
      | none =>
          cases known : k.force with
          | none =>
              refine ⟨_, rfl, Opens.plain.checked fun _ force same => ?_⟩
              rw [known] at same
              cases same
          | some name =>
              dsimp only
              split
              · rename_i short
                refine Program.meets_bind.mpr (meets_setsockopt fun answer => ?_)
                refine Program.meets_bind.mpr (meets_readBuffer fun v' err => ?_)
                rw [List.append_assoc, List.append_assoc]
                have forced := Opens.forced name v answer known short
                cases err with
                | some e => exact ⟨_, rfl, .read _ v' e forced⟩
                | none =>
                    refine ⟨_, rfl, forced.checked fun _ force same => ⟨answer, ?_⟩⟩
                    cases known.symm.trans same
                    simp
              · rename_i enough
                exact ⟨_, rfl, Opens.plain.checked fun short => absurd short enough⟩

private theorem applyBuffer_yields : Yields (applyBuffer k requested doubled)
    (Fits k requested doubled) (Refused k requested doubled) := by
  unfold applyBuffer
  split
  · exact ensureBuffer_yields
  · rename_i unasked
    exact .pure (.unasked (Int.not_lt.mp unasked))

end Buffers

section Options

variable (p : Platform) (opts : Options)

def Platform.setsBuffers : Platform → Bool
  | .other _ => false
  | _ => true

abbrev RecvFits : List Event → Prop :=
  Fits p.recvBufferKind opts.recvBuffer p.kernelDoublesBuffers

abbrev SendFits : List Event → Prop :=
  Fits p.sendBufferKind opts.sendBuffer p.kernelDoublesBuffers

inductive BuffersRefused : Err → List Event → Prop where
  | unsupported : p.setsBuffers = false → 0 < opts.recvBuffer ∨ 0 < opts.sendBuffer →
      BuffersRefused (.unsupported "socket buffer sizes" p.goos) []
  | recv (e : Err) (made : List Event) :
      Refused p.recvBufferKind opts.recvBuffer p.kernelDoublesBuffers e made →
      BuffersRefused e made
  | send (e : Err) (front back : List Event) : RecvFits p opts front →
      Refused p.sendBufferKind opts.sendBuffer p.kernelDoublesBuffers e back →
      BuffersRefused e (front ++ back)

inductive Shares : List Event → Prop where
  | off : opts.reusePort = false → Shares []
  | set (name : Name) : p.reusePort = some name → Shares [.set name 1 none]

inductive ShareRefused : Err → List Event → Prop where
  | unsupported : opts.reusePort = true → p.reusePort = none →
      ShareRefused (.unsupported "SO_REUSEPORT" p.goos) []
  | set (name : Name) (e : Errno) : p.reusePort = some name →
      ShareRefused (.errno e) [.set name 1 (some e)]

/-- Nothing is asked, or Fast Open, with an answer that counts as `result`. -/
inductive OpensFast (result : Option Err) : List Event → Prop where
  | off : result = none → OpensFast result []
  | asked (name : Name) (value : Int) (answer : Option Errno) : opts.fastOpen.enabled = true →
      p.fastOpen opts.fastOpen.backlog = some (name, value) → fastOpenResult answer = result →
      OpensFast result [.set name value answer]

variable {p opts}

theorem Yields.weaken {program : Syscalls (Option Err)} {ok ok' : List Event → Prop}
    {bad bad' : Err → List Event → Prop} (yields : Yields program ok bad)
    (fine : ∀ made, ok made → ok' made) (failed : ∀ e made, bad e made → bad' e made) :
    Yields program ok' bad' := by
  refine fun history => (yields history).mono ?_
  rintro result _ ⟨made, rfl, holds⟩
  refine ⟨made, rfl, ?_⟩
  cases result with
  | none => exact fine made holds
  | some e => exact failed e made holds

theorem applyBuffers_yields :
    Yields (applyBuffers p opts) (Both (RecvFits p opts) (SendFits p opts))
      (BuffersRefused p opts) := by
  have both : Yields
      (andThen (applyBuffer p.recvBufferKind opts.recvBuffer p.kernelDoublesBuffers)
        (applyBuffer p.sendBufferKind opts.sendBuffer p.kernelDoublesBuffers))
      (Both (RecvFits p opts) (SendFits p opts)) (BuffersRefused p opts) := by
    refine (applyBuffer_yields.andThen applyBuffer_yields).weaken (fun _ both => both) ?_
    rintro e made (refused | ⟨front, back, rfl, fits, refused⟩)
    · exact .recv e made refused
    · exact .send e front back fits refused
  cases p with
  | other goos =>
      show Yields (ite _ _ _) _ _
      split
      · exact .pure (BuffersRefused.unsupported rfl ‹_›)
      · obtain ⟨recv, send⟩ := not_or.mp ‹_›
        exact .pure ⟨[], [], rfl, .unasked (Int.not_lt.mp recv), .unasked (Int.not_lt.mp send)⟩
  | linux | darwin | freebsd | bsd | windows => exact both

private theorem applyReusePort_yields :
    Yields (applyReusePort p opts) (Shares p opts) (ShareRefused p opts) := by
  unfold applyReusePort
  split
  · cases known : p.reusePort with
    | none => exact .pure (.unsupported ‹_› known)
    | some name =>
        refine fun history => Program.meets_bind.mpr (meets_setsockopt fun answer => ?_)
        refine ⟨_, rfl, ?_⟩
        cases answer with
        | none => exact .set name known
        | some e => exact .set name e known
  · exact .pure (.off (eq_false_of_ne_true ‹_›))

private theorem applyFastOpen_yields : Yields (applyFastOpen p opts) (OpensFast p opts none)
    fun e => OpensFast p opts (some e) := by
  unfold applyFastOpen
  split
  · cases known : p.fastOpen opts.fastOpen.backlog with
    | none => exact .pure (.off rfl)
    | some option =>
        refine fun history => Program.meets_bind.mpr (meets_setsockopt fun answer => ?_)
        refine ⟨_, rfl, ?_⟩
        have asked := OpensFast.asked option.1 option.2 answer ‹_› known rfl
        generalize fastOpenResult answer = result at asked
        cases result <;> exact asked
  · exact .pure (.off rfl)

theorem applyOptions_yields : Yields (applyOptions p opts)
    (Both (Shares p opts) (OpensFast p opts none)) fun e made => ShareRefused p opts e made ∨
      Both (Shares p opts) (OpensFast p opts (some e)) made :=
  applyReusePort_yields.andThen applyFastOpen_yields

end Options

end Netx.Socket
