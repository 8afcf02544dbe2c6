import Mathlib.Tactic.SplitIfs
import Mathlib.Tactic.ByContra
import Sshx.MailboxModel

/-! The mailbox when each request runs to completion before the next: a handler's goroutine runs
alone until it returns, and a tick wakes the watchdog of the peer, which runs until it sleeps again
or has cleaned up. Running goroutine `i` alone takes steps of `i` only, and it is the goroutine's
own run on the memory, written back in place (`World.runAlone_eq`). On the memory each handler then
performs a short sequence of the statements of `data_manager.go`: a push to a new peer makes the
channel, resets the counter, queues the envelope and resets the counter again; a push to a known
peer queues or drops; a pull dequeues or finds nothing; a tick decrements and, at zero, cleans
up. -/

namespace Sshx.Signaling

open Types

/-- Whether a goroutine waits for no step of its own: it has returned or panicked, or it is a
watchdog asleep before its decrement. -/
def Proc.parked : Proc → Bool
  | .set _ _ (.done _) | .set _ _ .panicked | .pull _ (.done _)
  | .watchdog _ .dec | .watchdog _ .done | .watchdog _ .panicked => true
  | _ => false

/-- Goroutine `p` runs alone from `m` until it parks, for at most `fuel` steps: the memory, where it
stands, and the goroutines it started. -/
def Proc.runAlone : Nat → Mem → Proc → Mem × Proc × List Proc
  | 0, m, p => (m, p, [])
  | fuel + 1, m, p =>
      if p.parked then (m, p, []) else
        match p.step m with
        | some (m', p', new) =>
            let r := Proc.runAlone fuel m' p'
            (r.1, r.2.1, new ++ r.2.2)
        | none => (m, p, [])

/-- Goroutine `i` of the world runs alone until it parks, for at most `fuel` steps. -/
def World.runAlone : Nat → World → Nat → World
  | 0, w, _ => w
  | fuel + 1, w, i =>
      match w.procs[i]? with
      | some p =>
          if p.parked then w else
            match stepAt w i with
            | some w' => World.runAlone fuel w' i
            | none => w
      | none => w

theorem list_set_self_of_getElem? {α : Type} {l : List α} {i : Nat} {a : α} (h : l[i]? = some a) :
    l.set i a = l := by
  apply List.ext_getElem?
  intro j
  rw [List.getElem?_set]
  split_ifs with hij hi
  · rw [← hij, h]
  · exact absurd (List.getElem?_eq_some_iff.mp h).1 hi
  · rfl

theorem World.runAlone_none (fuel : Nat) (w : World) (i : Nat) (h : w.procs[i]? = none) :
    w.runAlone fuel i = w := by
  cases fuel <;> simp [World.runAlone, h]

/-- Running goroutine `i` alone is the goroutine's own run on the memory, written back in place. -/
theorem World.runAlone_eq (fuel : Nat) (w : World) (i : Nat) (p : Proc)
    (hp : w.procs[i]? = some p) :
    w.runAlone fuel i =
      ⟨(p.runAlone fuel w.mem).1, w.procs.set i (p.runAlone fuel w.mem).2.1 ++
        (p.runAlone fuel w.mem).2.2⟩ := by
  induction fuel generalizing w p with
  | zero => simp [World.runAlone, Proc.runAlone, list_set_self_of_getElem? hp]
  | succ fuel ih =>
      have hi : i < w.procs.length := (List.getElem?_eq_some_iff.mp hp).1
      by_cases hpark : p.parked
      · simp [World.runAlone, Proc.runAlone, hp, hpark, list_set_self_of_getElem? hp]
      · cases hs : p.step w.mem with
        | none => simp [World.runAlone, Proc.runAlone, hp, hpark, stepAt, hs,
            list_set_self_of_getElem? hp]
        | some r =>
            obtain ⟨m', p', new⟩ := r
            have hp' : (w.procs.set i p' ++ new)[i]? = some p' := by
              rw [List.getElem?_append_left (by simpa using hi), List.getElem?_set_self hi]
            simp only [World.runAlone, Proc.runAlone, hp, hpark, stepAt, hs, Option.map_some',
              Bool.false_eq_true, if_false]
            rw [ih _ _ hp', List.set_append_left _ _ (by simpa using hi), List.set_set,
              List.append_assoc]

section Handlers

variable (m : Mem) (id : String) (info : SignalingInfo)

theorem runAlone_set_fresh (h : m.datas id = none) :
    (Proc.set id info .check).runAlone 7 m =
      ((((m.create id).resetAlive id).enqueue m.nextChan info).resetAlive id,
        .set id info (.done true), [.watchdog id .test]) := by
  simp [Proc.runAlone, Proc.step, stepSet, Proc.parked, h, maxBufferNumber]

theorem runAlone_set_stored (q : Nat) (h : m.datas id = some q) (hc : (m.chans q).closed = false) :
    (Proc.set id info .check).runAlone 7 m =
      if (m.chans q).buf.length < maxBufferNumber then
        ((m.enqueue q info).resetAlive id, .set id info (.done true), [])
      else (m, .set id info (.done false), []) := by
  split_ifs with hb <;> simp [Proc.runAlone, Proc.step, stepSet, Proc.parked, h, hc, hb]

theorem runAlone_watchdog_start (k : Int) (ha : m.alive id = some k) (hk : 0 < k) :
    (Proc.watchdog id .test).runAlone 1 m = (m, .watchdog id .dec, []) := by
  simp [Proc.runAlone, Proc.step, stepWatchdog, Proc.parked, ha, hk]

theorem runAlone_pull :
    (Proc.pull id .get).runAlone 2 m =
      match m.datas id with
      | none => (m, .pull id (.done none), [])
      | some q =>
          match (m.chans q).buf with
          | v :: _ => (m.dequeue q, .pull id (.done (some v)), [])
          | [] => (m, .pull id (.done (if (m.chans q).closed then some .zero else none)), []) := by
  cases hd : m.datas id with
  | none => simp [Proc.runAlone, Proc.step, stepPull, Proc.parked, hd]
  | some q =>
      cases hb : (m.chans q).buf <;> simp [Proc.runAlone, Proc.step, stepPull, Proc.parked, hd, hb]

theorem runAlone_watchdog_wake (k : Int) (q : Nat) (ha : m.alive id = some k)
    (hd : m.datas id = some q) (hc : (m.chans q).closed = false) :
    (Proc.watchdog id .test).runAlone 2 (m.decAlive id) =
      if 0 < k - 1 then (m.decAlive id, .watchdog id .dec, [])
      else ((m.decAlive id).clean id, .watchdog id .done, []) := by
  split_ifs with hk <;> simp [Proc.runAlone, Proc.step, stepWatchdog, Proc.parked, ha, hd, hc, hk]

end Handlers

/-- A `push(id, info)` run to completion: `Set` runs alone until it returns, then the watchdog it
started, if any, takes its first loop test and goes to sleep. -/
def serialPush (w : World) (id : String) (info : SignalingInfo) : World :=
  (World.runAlone 7 ⟨w.mem, w.procs ++ [.set id info .check]⟩ w.procs.length).runAlone 1
    (w.procs.length + 1)

/-- A `pull(id)` run to completion, with the body it writes. -/
def serialPull (w : World) (id : String) : World × Option SignalingInfo :=
  let w' := World.runAlone 2 ⟨w.mem, w.procs ++ [.pull id .get]⟩ w.procs.length
  (w', (w'.procs[w.procs.length]?).bind Proc.body)

/-- A one-second tick of peer `id`: its first sleeping watchdog decrements, then runs alone until
it sleeps again or has cleaned up. In Go every sleeping watchdog of the peer wakes each second; the
two agree where at most one sleeps, which `Tracks` guarantees, and every result about ticks assumes
`Tracks`. -/
def serialTick (w : World) (id : String) : World :=
  match w.procs.findIdx? (· == .watchdog id .dec) with
  | some j =>
      match stepAt w j with
      | some w' => w'.runAlone 2 j
      | none => w
  | none => w

theorem findIdx?_eq_some_of_unique {α : Type} {p : α → Bool} {l : List α} {j : Nat} {a : α}
    (hj : l[j]? = some a) (hpa : p a) (hu : ∀ j' b, l[j']? = some b → p b → j' = j) :
    l.findIdx? p = some j := by
  induction l generalizing j with
  | nil => simp at hj
  | cons x t ih =>
      rw [List.findIdx?_cons]
      split_ifs with hx
      · rw [hu 0 x (by simp) hx]
      · cases j with
        | zero => simp only [List.getElem?_cons_zero, Option.some.injEq] at hj; exact absurd (hj ▸ hpa) hx
        | succ j =>
            rw [List.findIdx?_succ, ih (by simpa using hj) fun j' b hb hpb =>
              Nat.succ_injective (hu (j' + 1) b (by simpa using hb) hpb)]
            rfl

section Serial

variable (w : World) (id : String) (info : SignalingInfo)

theorem serialPush_fresh (h : w.mem.datas id = none) :
    serialPush w id info =
      ⟨(((w.mem.create id).resetAlive id).enqueue w.mem.nextChan info).resetAlive id,
        w.procs ++ [.set id info (.done true), .watchdog id .dec]⟩ := by
  unfold serialPush
  rw [World.runAlone_eq 7 ⟨w.mem, _⟩ _ _ (List.getElem?_concat_length _ _), runAlone_set_fresh _ _ _ h,
    World.runAlone_eq _ _ _ (.watchdog id .test)
      (by rw [List.getElem?_append_right (by simp)]; simp),
    runAlone_watchdog_start _ _ lifeTimeInSecond (by simp) (by decide)]
  simp

theorem serialPush_stored (q : Nat) (h : w.mem.datas id = some q)
    (hc : (w.mem.chans q).closed = false) :
    serialPush w id info =
      if (w.mem.chans q).buf.length < maxBufferNumber then
        ⟨(w.mem.enqueue q info).resetAlive id, w.procs ++ [.set id info (.done true)]⟩
      else ⟨w.mem, w.procs ++ [.set id info (.done false)]⟩ := by
  unfold serialPush
  rw [World.runAlone_eq 7 ⟨w.mem, _⟩ _ _ (List.getElem?_concat_length _ _),
    runAlone_set_stored _ _ _ q h hc, World.runAlone_none _ _ _ (by split_ifs <;> simp)]
  split_ifs <;> simp

theorem serialPull_eq :
    serialPull w id =
      (⟨((Proc.pull id .get).runAlone 2 w.mem).1,
          w.procs ++ [((Proc.pull id .get).runAlone 2 w.mem).2.1]⟩,
        ((Proc.pull id .get).runAlone 2 w.mem).2.1.body) := by
  unfold serialPull
  rw [World.runAlone_eq _ _ _ _ (List.getElem?_concat_length _ _)]
  have : ((Proc.pull id .get).runAlone 2 w.mem).2.2 = [] := by
    rw [runAlone_pull]; split <;> [rfl; split <;> rfl]
  simp [this]

theorem serialTick_wake (j : Nat) (k : Int) (q : Nat) (hj : w.procs[j]? = some (.watchdog id .dec))
    (hu : ∀ j', w.procs[j']? = some (.watchdog id .dec) → j' = j)
    (ha : w.mem.alive id = some k) (hd : w.mem.datas id = some q)
    (hc : (w.mem.chans q).closed = false) :
    serialTick w id =
      if 0 < k - 1 then ⟨w.mem.decAlive id, w.procs⟩
      else ⟨(w.mem.decAlive id).clean id, w.procs.set j (.watchdog id .done)⟩ := by
  have hi : j < w.procs.length := (List.getElem?_eq_some_iff.mp hj).1
  have hfind : w.procs.findIdx? (· == .watchdog id .dec) = some j :=
    findIdx?_eq_some_of_unique hj (by simp) fun j' b hb hpb => hu j' (beq_iff_eq.mp hpb ▸ hb)
  have hstep : stepAt w j = some ⟨w.mem.decAlive id, w.procs.set j (.watchdog id .test)⟩ := by
    simp [stepAt, hj, Proc.step, stepWatchdog]
  simp only [serialTick, hfind, hstep]
  rw [World.runAlone_eq _ _ _ (.watchdog id .test) (by simp [List.getElem?_set_self hi]),
    runAlone_watchdog_wake _ _ k q ha hd hc]
  split_ifs <;> simp [List.set_set, list_set_self_of_getElem? hj]

theorem serialTick_asleep_none (h : ∀ p ∈ w.procs, p ≠ .watchdog id .dec) : serialTick w id = w := by
  have : w.procs.findIdx? (· == .watchdog id .dec) = none :=
    List.findIdx?_eq_none_iff.mpr fun p hp => by simpa using h p hp
  simp [serialTick, this]

end Serial

end Sshx.Signaling
