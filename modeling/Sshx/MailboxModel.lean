import Mathlib.Logic.Function.Basic
import Mathlib.Data.List.Basic
import Sshx.Types

/-! The rendezvous mailbox of the signaling server (`cmd/signaling`): `DManager` with `Set`, `Get`,
`Clean` and the watchdog goroutine, and the `push` and `pull` handlers that call them, as an
interleaving semantics. Each critical section under `dm.mu` is one step, and so is each read made
without the lock (`dm.datas[id]` at lines 73 and 102 of `data_manager.go`, `dmc.alive[id]` in the
watchdog's loop test) and each channel send, receive and close. A state holds the two maps, the
channels made so far and the goroutines started so far. An action starts a handler or lets one
goroutine take its next step; the step is a function, so a schedule is a list of actions and the
kernel can replay it. The sleep of the watchdog is not a step: any schedule may put other steps
between its loop test and its decrement. A read made without the lock that overlaps a locked write
of the same map makes the Go runtime abort the whole server ("concurrent map read and map write");
steps are atomic here, so the model has no such outcome: its schedules are those on which no such
overlap happens. -/

namespace Sshx.Signaling

open Types

/-- `LIFE_TIME_IN_SECOND`. -/
def lifeTimeInSecond : Int := 15

/-- `MAX_BUFFER_NUMBER`. -/
def maxBufferNumber : Nat := 64

/-- A channel made by `make(chan types.SignalingInfo, MAX_BUFFER_NUMBER)`: its buffered envelopes
and whether it is closed. -/
structure Chan where
  buf : List SignalingInfo
  closed : Bool
  deriving DecidableEq, Repr

/-- Where a `Set(id, info)` call stands; `send ch` holds the channel read at line 102. -/
inductive SetPc
  | check
  | create
  | resetNew
  | spawn
  | select
  | send (ch : Option Nat)
  | resetSent
  | done (queued : Bool)
  | panicked
  deriving DecidableEq, Repr

/-- Where a `pull` handler stands; `done none` is the empty body. -/
inductive PullPc
  | get
  | recv (ch : Option Nat)
  | done (body : Option SignalingInfo)
  deriving DecidableEq, Repr

/-- Where a watchdog stands; at `dec` it is asleep before its decrement. -/
inductive WatchdogPc
  | test
  | dec
  | clean
  | done
  | panicked
  deriving DecidableEq, Repr

/-- A goroutine: a `push` handler inside `Set`, a `pull` handler, or a watchdog of a peer. -/
inductive Proc
  | set (id : String) (info : SignalingInfo) (pc : SetPc)
  | pull (id : String) (pc : PullPc)
  | watchdog (id : String) (pc : WatchdogPc)
  deriving DecidableEq, Repr

/-- The peer a goroutine serves. -/
def Proc.peer : Proc → String
  | .set id _ _ | .pull id _ | .watchdog id _ => id

/-- The body a finished `pull` goroutine wrote (`none`: the empty body). -/
def Proc.body : Proc → Option SignalingInfo
  | .pull _ (.done body) => body
  | _ => none

/-- The channel a goroutine holds: the one a `Set` read at line 102, or the one a `pull` got. -/
def Proc.held : Proc → Option Nat
  | .set _ _ (.send ch) => ch
  | .pull _ (.recv ch) => ch
  | _ => none

/-- The fields of `DManager` (a missing key is `none`, which Go reads as `nil` or `0`) and the
channels made so far, numbered in order. -/
structure Mem where
  datas : String → Option Nat
  alive : String → Option Int
  chans : Nat → Chan
  nextChan : Nat

/-- The shared memory and the goroutines started so far. -/
structure World where
  mem : Mem
  procs : List Proc

/-- `NewDManager()`. -/
def newDManager : Mem :=
  ⟨fun _ => none, fun _ => none, fun _ => ⟨[], false⟩, 0⟩

/-- The server before any request. -/
def World.init : World :=
  ⟨newDManager, []⟩

namespace Mem

variable (m : Mem) (id : String)

/-- Lines 74-77: `dm.datas[id] = make(chan types.SignalingInfo, MAX_BUFFER_NUMBER)`. -/
@[simps]
def create : Mem :=
  { m with
    datas := Function.update m.datas id (some m.nextChan)
    chans := Function.update m.chans m.nextChan ⟨[], false⟩
    nextChan := m.nextChan + 1 }

/-- `dm.resetAlive(id)`. -/
@[simps]
def resetAlive : Mem :=
  { m with alive := Function.update m.alive id (some lifeTimeInSecond) }

/-- Lines 89-91: `dmc.alive[id]--`, which stores `-1` for a missing key. -/
@[simps]
def decAlive : Mem :=
  { m with alive := Function.update m.alive id (some ((m.alive id).getD 0 - 1)) }

/-- `dm.Clean(id)` when `dm.datas[id]` is `nil` or open: close it, delete both entries. -/
@[simps]
def clean : Mem :=
  { m with
    datas := Function.update m.datas id none
    alive := Function.update m.alive id none
    chans := fun q => if m.datas id = some q then { m.chans q with closed := true } else m.chans q }

/-- A send of `info` on channel `q` that succeeds. -/
@[simps]
def enqueue (q : Nat) (info : SignalingInfo) : Mem :=
  { m with chans := Function.update m.chans q { m.chans q with buf := (m.chans q).buf ++ [info] } }

/-- A receive of the head of channel `q`'s buffer. -/
@[simps]
def dequeue (q : Nat) : Mem :=
  { m with chans := Function.update m.chans q { m.chans q with buf := (m.chans q).buf.tail } }

end Mem

/-- One step of `Set(id, info)`: the memory after it, where `Set` stands, and the goroutines it
started; `none` once it has returned. The select at lines 101-108 takes its default branch on a
`nil` channel and on a full one, and panics on a closed one. -/
def stepSet (m : Mem) (id : String) (info : SignalingInfo) :
    SetPc → Option (Mem × SetPc × List Proc)
  | .check => some (m, if m.datas id = none then .create else .select, [])
  | .create => some (m.create id, .resetNew, [])
  | .resetNew => some (m.resetAlive id, .spawn, [])
  | .spawn => some (m, .select, [.watchdog id .test])
  | .select => some (m, .send (m.datas id), [])
  | .send none => some (m, .done false, [])
  | .send (some q) =>
      if (m.chans q).closed then some (m, .panicked, [])
      else if (m.chans q).buf.length < maxBufferNumber then some (m.enqueue q info, .resetSent, [])
      else some (m, .done false, [])
  | .resetSent => some (m.resetAlive id, .done true, [])
  | .done _ => none
  | .panicked => none

/-- One step of `pull`: `Get(self_id)`, then the non-blocking receive. A receive on a `nil` channel
or on an open empty one takes the default branch; a closed, drained channel yields the zero value,
which the handler encodes like any other envelope. -/
def stepPull (m : Mem) (id : String) : PullPc → Option (Mem × PullPc)
  | .get => some (m, .recv (m.datas id))
  | .recv none => some (m, .done none)
  | .recv (some q) =>
      match (m.chans q).buf with
      | v :: _ => some (m.dequeue q, .done (some v))
      | [] => some (m, .done (if (m.chans q).closed then some .zero else none))
  | .done _ => none

/-- One step of the watchdog of `id`: the loop test, the decrement after the sleep, or `Clean`,
whose `close` panics on a channel that is already closed. -/
def stepWatchdog (m : Mem) (id : String) : WatchdogPc → Option (Mem × WatchdogPc)
  | .test => some (m, if 0 < (m.alive id).getD 0 then .dec else .clean)
  | .dec => some (m.decAlive id, .test)
  | .clean =>
      match m.datas id with
      | some q => if (m.chans q).closed then some (m, .panicked) else some (m.clean id, .done)
      | none => some (m.clean id, .done)
  | .done => none
  | .panicked => none

/-- One step of a goroutine, with the goroutines it starts. -/
def Proc.step (m : Mem) : Proc → Option (Mem × Proc × List Proc)
  | .set id info pc => (stepSet m id info pc).map fun r => (r.1, .set id info r.2.1, r.2.2)
  | .pull id pc => (stepPull m id pc).map fun r => (r.1, .pull id r.2, [])
  | .watchdog id pc => (stepWatchdog m id pc).map fun r => (r.1, .watchdog id r.2, [])

/-- What the scheduler can do: a `push` request whose body decoded to `info` (a body that does not
decode is answered 400 and starts nothing), a `pull` request, or a step of goroutine `i`. -/
inductive Action
  | push (id : String) (body : Option SignalingInfo)
  | pull (id : String)
  | run (i : Nat)
  deriving DecidableEq, Repr

/-- A step of goroutine `i`: its new state is written in place, what it starts is appended. -/
def stepAt (w : World) (i : Nat) : Option World :=
  match w.procs[i]? with
  | some p => (p.step w.mem).map fun r => ⟨r.1, w.procs.set i r.2.1 ++ r.2.2⟩
  | none => none

def step (w : World) : Action → Option World
  | .push _ none => some w
  | .push id (some info) => some ⟨w.mem, w.procs ++ [.set id info .check]⟩
  | .pull id => some ⟨w.mem, w.procs ++ [.pull id .get]⟩
  | .run i => stepAt w i

/-- A handler before its first step. -/
inductive Proc.Started : Proc → Prop
  | set (id : String) (info : SignalingInfo) : Proc.Started (.set id info .check)
  | pull (id : String) : Proc.Started (.pull id .get)

/-- What an action does: nothing (a body that does not decode), start a handler, or let goroutine
`i` take a step. -/
theorem step_cases {w w' : World} {a : Action} (h : step w a = some w') :
    w' = w ∨ (∃ x, x.Started ∧ w' = ⟨w.mem, w.procs ++ [x]⟩) ∨
      ∃ i p m' p' new, w.procs[i]? = some p ∧ p.step w.mem = some (m', p', new) ∧
        w' = ⟨m', w.procs.set i p' ++ new⟩ := by
  cases a with
  | push id body =>
      cases body with
      | none => exact .inl (Option.some.inj h).symm
      | some info => exact .inr (.inl ⟨_, .set id info, (Option.some.inj h).symm⟩)
  | pull id => exact .inr (.inl ⟨_, .pull id, (Option.some.inj h).symm⟩)
  | run i =>
      simp only [step, stepAt] at h
      split at h
      · rename_i p hp
        obtain ⟨⟨m', p', new⟩, hstep, rfl⟩ := Option.map_eq_some'.mp h
        exact .inr (.inr ⟨i, p, m', p', new, hp, hstep, rfl⟩)
      · cases h

/-- A schedule, run from `w`. -/
def run (w : World) : List Action → Option World
  | [] => some w
  | a :: as => (step w a).bind fun w' => run w' as

/-- The states some schedule reaches from `NewDManager()`. -/
inductive Reachable : World → Prop
  | init : Reachable World.init
  | step {w w' : World} {a : Action} : Reachable w → step w a = some w' → Reachable w'

theorem Reachable.run {w w' : World} {as : List Action} (hw : Reachable w)
    (h : Signaling.run w as = some w') : Reachable w' := by
  induction as generalizing w with
  | nil => cases h; exact hw
  | cons a as ih =>
      obtain ⟨w₁, h₁, h₂⟩ := Option.bind_eq_some.mp h
      exact ih (hw.step h₁) h₂

/-- A schedule whose end state the kernel checks against `p` shows a reachable state with `p`. -/
theorem exists_reachable_of_run (as : List Action) (p : World → Prop) [DecidablePred p]
    (h : (run World.init as).map (fun w => decide (p w)) = some true) :
    ∃ w, Reachable w ∧ p w := by
  cases hr : run World.init as with
  | none => simp [hr] at h
  | some w =>
      simp only [hr, Option.map_some', Option.some.injEq, decide_eq_true_eq] at h
      exact ⟨w, Reachable.init.run hr, h⟩

end Sshx.Signaling
