import Mathlib.Tactic.SplitIfs
import Mathlib.Tactic.ByContra
import Sshx.MailboxSerial

/-! The reference mailbox of one peer, as the documented contract describes it, and the proof that
the server refines it when each request runs to completion before the next. The reference keeps a
FIFO of capacity 64 and an idle counter: the first push creates both, a push appends unless 64
envelopes are pending, only a successful push resets the counter to 15, a tick decrements it and
discards both at 0, and a pull pops the head or gives an empty body. `Tracks` relates a world to the
reference mailbox of a peer; every request keeps it and writes the body the reference pull gives,
so on every sequence of requests the pulls write the reference's bodies. The relation also says that
serially the peer has exactly one sleeping watchdog while it has a mailbox, and a counter in
`[1, 15]`: the invariants that the interleaved server breaks hold of its serial runs. -/

namespace Sshx.Signaling

open Types

/-- The reference mailbox of a peer: the pending envelopes and the idle counter. -/
structure Mailbox where
  fifo : List SignalingInfo
  counter : Nat
  deriving DecidableEq, Repr

/-- A request of one peer. -/
inductive Op
  | push (info : SignalingInfo)
  | pull
  | tick
  deriving DecidableEq, Repr

namespace Mailbox

/-- The first push creates a FIFO with counter 15; the envelope is appended if fewer than 64 are
pending, which resets the counter to 15, and dropped otherwise. -/
def push (mb : Option Mailbox) (info : SignalingInfo) : Option Mailbox :=
  let b := mb.getD ⟨[], 15⟩
  if b.fifo.length < 64 then some ⟨b.fifo ++ [info], 15⟩ else some b

/-- A pull pops the head; an absent or empty FIFO gives the empty body. -/
def pull : Option Mailbox → Option Mailbox × Option SignalingInfo
  | some ⟨v :: rest, k⟩ => (some ⟨rest, k⟩, some v)
  | mb => (mb, none)

/-- A tick decrements the counter and discards the FIFO and the counter when it reaches 0. -/
def tick : Option Mailbox → Option Mailbox
  | some ⟨fifo, k⟩ => if k - 1 = 0 then none else some ⟨fifo, k - 1⟩
  | none => none

/-- A request: the mailbox after it, and for a pull its body. -/
def step (mb : Option Mailbox) : Op → Option Mailbox × Option (Option SignalingInfo)
  | .push info => (push mb info, none)
  | .pull => ((pull mb).1, some (pull mb).2)
  | .tick => (tick mb, none)

/-- The bodies the pulls of a sequence of requests write, in order. -/
def bodies : Option Mailbox → List Op → List (Option SignalingInfo)
  | _, [] => []
  | mb, op :: ops => (step mb op).2.toList ++ bodies (step mb op).1 ops

/-- The mailbox after a sequence of requests. -/
def after : Option Mailbox → List Op → Option Mailbox
  | mb, [] => mb
  | mb, op :: ops => after (step mb op).1 ops

end Mailbox

/-- A request of `id` run to completion: the world after it, and for a pull its body. -/
def serialStep (id : String) (w : World) : Op → World × Option (Option SignalingInfo)
  | .push info => (serialPush w id info, none)
  | .pull => ((serialPull w id).1, some (serialPull w id).2)
  | .tick => (serialTick w id, none)

/-- Requests of `id` run one at a time: the final world and the bodies the pulls write. -/
def serialRun (id : String) : World → List Op → World × List (Option SignalingInfo)
  | w, [] => (w, [])
  | w, op :: ops =>
      let s := serialRun id (serialStep id w op).1 ops
      (s.1, (serialStep id w op).2.toList ++ s.2)

/-- Whether a goroutine has returned or panicked. -/
def Proc.finished : Proc → Bool
  | .set _ _ (.done _) | .set _ _ .panicked | .pull _ (.done _)
  | .watchdog _ .done | .watchdog _ .panicked => true
  | _ => false

/-- How a world stands for the reference mailbox of `id`. Without a mailbox, `id` has no entry and
all its goroutines have finished; with one, the entry holds the FIFO in an open channel and the
counter, one watchdog of `id` sleeps, and all other goroutines of `id` have finished. -/
def Tracks (id : String) (w : World) : Option Mailbox → Prop
  | none => w.mem.datas id = none ∧ w.mem.alive id = none ∧
      ∀ p ∈ w.procs, p.peer = id → p.finished = true
  | some mb => ∃ (q j : Nat), w.mem.datas id = some q ∧ w.mem.chans q = ⟨mb.fifo, false⟩ ∧
      w.mem.alive id = some (mb.counter : Int) ∧ 0 < mb.counter ∧ mb.counter ≤ 15 ∧
      w.procs[j]? = some (Proc.watchdog id .dec) ∧
      ∀ (j' : Nat) (p : Proc), w.procs[j']? = some p → p.peer = id → j' ≠ j → p.finished = true

theorem getElem?_append_eq_some {l r : List Proc} {j : Nat} {p : Proc} (h : (l ++ r)[j]? = some p) :
    l[j]? = some p ∨ l.length ≤ j ∧ r[j - l.length]? = some p := by
  by_cases hj : j < l.length
  · exact .inl (by rwa [List.getElem?_append_left hj] at h)
  · exact .inr ⟨by omega, by rwa [List.getElem?_append_right (by omega)] at h⟩

theorem Tracks.init (id : String) : Tracks id World.init none :=
  ⟨rfl, rfl, by simp [World.init]⟩

theorem Tracks.absent {id : String} {w : World} (h : Tracks id w none) :
    ∀ p ∈ w.procs, p ≠ .watchdog id .dec := fun p hp hpd => by
  simpa [hpd, Proc.finished] using h.2.2 p hp (by simp [hpd, Proc.peer])

/-- Serially the sleeping watchdog of a peer with a mailbox is the only one. -/
theorem sleeping_unique {id : String} {w : World} {j : Nat}
    (hfin : ∀ (j' : Nat) (p : Proc), w.procs[j']? = some p → p.peer = id → j' ≠ j →
      p.finished = true) (j' : Nat) (hj' : w.procs[j']? = some (.watchdog id .dec)) : j' = j := by
  by_contra hne
  simpa [Proc.finished] using hfin j' _ hj' rfl hne

/-- Appending finished goroutines keeps the other goroutines of a peer finished. -/
theorem others_finished_append {id : String} {l : List Proc} {j : Nat} (r : List Proc)
    (hfin : ∀ (j' : Nat) (p : Proc), l[j']? = some p → p.peer = id → j' ≠ j → p.finished = true)
    (hr : ∀ p ∈ r, p.finished = true) :
    ∀ (j' : Nat) (p : Proc), (l ++ r)[j']? = some p → p.peer = id → j' ≠ j → p.finished = true := by
  intro j' p hp hpeer hne
  rcases getElem?_append_eq_some hp with hp | ⟨-, hp⟩
  · exact hfin j' p hp hpeer hne
  · exact hr p (List.getElem?_mem hp)

section Simulation

variable {id : String} {w : World}

theorem Tracks.push {mb : Option Mailbox} (h : Tracks id w mb) (info : SignalingInfo) :
    Tracks id (serialPush w id info) (Mailbox.push mb info) := by
  cases mb with
  | none =>
      obtain ⟨hd, -, hfin⟩ := h
      rw [serialPush_fresh _ _ _ hd]
      have hwd : (w.procs ++ [Proc.set id info (.done true), .watchdog id .dec])[w.procs.length + 1]?
          = some (.watchdog id .dec) := by
        rw [List.getElem?_append_right (by omega)]; simp
      refine ⟨w.mem.nextChan, w.procs.length + 1, by simp, by simp, by simp [lifeTimeInSecond],
        by simp, le_rfl, hwd, fun j' p hp hpeer hne => ?_⟩
      rcases getElem?_append_eq_some hp with hp | ⟨hle, hp⟩
      · exact hfin p (List.getElem?_mem hp) hpeer
      · obtain hk | hk | hk : j' - w.procs.length = 0 ∨ j' - w.procs.length = 1 ∨
            2 ≤ j' - w.procs.length := by omega
        · rw [hk] at hp; cases hp; rfl
        · omega
        · rw [List.getElem?_eq_none (by simpa using hk)] at hp; cases hp
  | some mb =>
      obtain ⟨q, j, hd, hq, ha, hpos, hle, hj, hfin⟩ := h
      have hi := (List.getElem?_eq_some_iff.mp hj).1
      have hj' : ∀ b, (w.procs ++ [Proc.set id info (.done b)])[j]? = some (.watchdog id .dec) :=
        fun b => by rw [List.getElem?_append_left hi, hj]
      have hfin' := fun b => others_finished_append [Proc.set id info (.done b)] hfin
        (by simp [Proc.finished])
      rw [serialPush_stored _ _ _ q hd (by simp [hq])]
      simp only [Mailbox.push, Option.getD_some, hq, maxBufferNumber]
      split_ifs
      · exact ⟨q, j, by simp [hd], by simp [hq], by simp [lifeTimeInSecond], by simp, le_rfl,
          hj' true, hfin' true⟩
      · exact ⟨q, j, hd, hq, ha, hpos, hle, hj' false, hfin' false⟩

theorem Tracks.pull {mb : Option Mailbox} (h : Tracks id w mb) :
    Tracks id (serialPull w id).1 (Mailbox.pull mb).1 ∧
      (serialPull w id).2 = (Mailbox.pull mb).2 := by
  rw [serialPull_eq, runAlone_pull]
  cases mb with
  | none =>
      obtain ⟨hd, ha, hfin⟩ := h
      simp only [hd]
      refine ⟨⟨hd, ha, fun p hp hpeer => ?_⟩, rfl⟩
      rcases List.mem_append.mp hp with hp | hp
      · exact hfin p hp hpeer
      · simp only [List.mem_singleton] at hp; subst hp; rfl
  | some mb =>
      obtain ⟨q, j, hd, hq, ha, hpos, hle, hj, hfin⟩ := h
      obtain ⟨fifo, k⟩ := mb
      have hi := (List.getElem?_eq_some_iff.mp hj).1
      have hj' : ∀ p, (w.procs ++ [p])[j]? = some (.watchdog id .dec) :=
        fun p => by rw [List.getElem?_append_left hi, hj]
      have hfin' := fun body => others_finished_append [Proc.pull id (.done body)] hfin
        (by simp [Proc.finished])
      simp only [hd, hq]
      cases fifo with
      | nil => exact ⟨⟨q, j, hd, hq, ha, hpos, hle, hj' _, hfin' _⟩, rfl⟩
      | cons v rest =>
          exact ⟨⟨q, j, by simp [hd], by simp [hq], by simpa using ha, hpos, hle, hj' _, hfin' _⟩,
            rfl⟩

theorem Tracks.tick {mb : Option Mailbox} (h : Tracks id w mb) :
    Tracks id (serialTick w id) (Mailbox.tick mb) := by
  cases mb with
  | none => rwa [serialTick_asleep_none _ _ h.absent]
  | some mb =>
      obtain ⟨q, j, hd, hq, ha, hpos, hle, hj, hfin⟩ := h
      obtain ⟨fifo, k⟩ := mb
      dsimp only at hq ha hpos hle
      rw [serialTick_wake _ _ j k q hj (sleeping_unique hfin) ha hd (by simp [hq])]
      simp only [Mailbox.tick]
      split_ifs with hk hk'
      · omega
      · exact ⟨q, j, by simpa using hd, by simpa using hq, by simp [ha]; omega,
          by dsimp only; omega, by dsimp only; omega, hj, hfin⟩
      · refine ⟨by simp, by simp, fun p hp hpeer => ?_⟩
        obtain ⟨j', hj'⟩ := List.mem_iff_getElem?.mp hp
        rw [List.getElem?_set] at hj'
        split_ifs at hj' with hjj
        · cases hj'; rfl
        · exact hfin j' p hj' hpeer (Ne.symm hjj)
      · omega

/-- Every request run to completion keeps `Tracks` and writes the body of the reference. -/
theorem Tracks.serialStep_sim {mb : Option Mailbox} (h : Tracks id w mb) (op : Op) :
    Tracks id (serialStep id w op).1 (Mailbox.step mb op).1 ∧
      (serialStep id w op).2 = (Mailbox.step mb op).2 := by
  cases op with
  | push info => exact ⟨h.push info, rfl⟩
  | pull => exact ⟨h.pull.1, by simp [Signaling.serialStep, Mailbox.step, h.pull.2]⟩
  | tick => exact ⟨h.tick, rfl⟩

theorem Tracks.serialRun_bodies {mb : Option Mailbox} (h : Tracks id w mb) (ops : List Op) :
    (serialRun id w ops).2 = Mailbox.bodies mb ops := by
  induction ops generalizing w mb with
  | nil => rfl
  | cons op ops ih =>
      obtain ⟨h', hbody⟩ := h.serialStep_sim op
      simp only [Signaling.serialRun, Mailbox.bodies, hbody, ih h']

theorem Tracks.serialRun_after {mb : Option Mailbox} (h : Tracks id w mb) (ops : List Op) :
    Tracks id (serialRun id w ops).1 (Mailbox.after mb ops) := by
  induction ops generalizing w mb with
  | nil => exact h
  | cons op ops ih => exact ih (h.serialStep_sim op).1

/-- With a mailbox the counter is in `[1, 15]`; without one it is absent. -/
theorem Tracks.alive_range {mb : Option Mailbox} (h : Tracks id w mb) (k : Int)
    (hk : w.mem.alive id = some k) : 0 < k ∧ k ≤ lifeTimeInSecond := by
  cases mb with
  | none => simp [h.2.1] at hk
  | some mb =>
      obtain ⟨_, _, _, _, ha, hpos, hle, _⟩ := h
      rw [ha, Option.some.injEq] at hk
      simp only [lifeTimeInSecond]
      omega

/-- At most one goroutine of the peer has not finished. -/
theorem Tracks.unfinished_unique {mb : Option Mailbox} (h : Tracks id w mb) {j j' : Nat}
    {p p' : Proc} (hp : w.procs[j]? = some p) (hp' : w.procs[j']? = some p')
    (hpeer : p.peer = id) (hpeer' : p'.peer = id) (hf : p.finished = false)
    (hf' : p'.finished = false) : j = j' := by
  cases mb with
  | none => simp [h.2.2 p (List.getElem?_mem hp) hpeer] at hf
  | some mb =>
      obtain ⟨_, i, _, _, _, _, _, _, hfin⟩ := h
      by_contra hne
      by_cases hj : j = i
      · simp [hfin j' p' hp' hpeer' (hj ▸ Ne.symm hne)] at hf'
      · simp [hfin j p hp hpeer hj] at hf

end Simulation

/-- **Serial refinement.** When the requests of a peer run one at a time from a state where it has
no entry and no goroutine of it is running, the pulls write the bodies of the reference mailbox. -/
theorem serialRun_pull_bodies (id : String) (w : World) (ops : List Op) (hw : Tracks id w none) :
    (serialRun id w ops).2 = Mailbox.bodies none ops :=
  hw.serialRun_bodies ops

theorem serialRun_pull_bodies_from_start :
    Tracks "a" World.init none ∧
      (serialRun "a" World.init [.pull, .push .zero, .tick, .pull, .pull]).2 =
        Mailbox.bodies none [.pull, .push .zero, .tick, .pull, .pull] :=
  ⟨Tracks.init "a", serialRun_pull_bodies "a" World.init _ (Tracks.init "a")⟩

/-- When the requests of a peer run one at a time, the peer has at most one goroutine that has not
finished, and its counter stays in `[1, 15]`: one watchdog per live peer, as documented. -/
theorem serialRun_one_watchdog (id : String) (w : World) (ops : List Op) (hw : Tracks id w none) :
    (∀ k, (serialRun id w ops).1.mem.alive id = some k → 0 < k ∧ k ≤ lifeTimeInSecond) ∧
      ∀ (j j' : Nat) (p p' : Proc), (serialRun id w ops).1.procs[j]? = some p →
        (serialRun id w ops).1.procs[j']? = some p' → p.peer = id → p'.peer = id →
          p.finished = false → p'.finished = false → j = j' := by
  have h := hw.serialRun_after ops
  exact ⟨h.alive_range, fun _ _ _ _ hp hp' hpeer hpeer' hf hf' =>
    h.unfinished_unique hp hp' hpeer hpeer' hf hf'⟩

theorem serialRun_one_watchdog_from_start :
    Tracks "a" World.init none ∧
      ∀ k, (serialRun "a" World.init [.push .zero, .tick]).1.mem.alive "a" = some k →
        0 < k ∧ k ≤ lifeTimeInSecond :=
  ⟨Tracks.init "a", (serialRun_one_watchdog "a" World.init _ (Tracks.init "a")).1⟩

end Sshx.Signaling
