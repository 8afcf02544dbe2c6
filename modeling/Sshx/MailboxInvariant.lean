import Mathlib.Tactic.SplitIfs
import Mathlib.Tactic.ByContra
import Sshx.MailboxModel

/-! What holds of the mailbox in every interleaving, and what does not. A step changes the shared
memory by at most one of the statements of `data_manager.go` (`MemStep`), so every invariant of the
memory is a case analysis over those statements, carried over any schedule by
`Reachable.mem_induction`. The statement a goroutine runs touches only the entries of its own peer
and the channel it holds (`PeerStep`), which leaves everything else as it was. Two invariants hold:
a channel stored in `datas` is open and stored under one key only, so `Clean` never closes a closed
channel; and a keep-alive counter never exceeds `LIFE_TIME_IN_SECOND`. Beside each stands a
schedule, replayed by the kernel from `NewDManager()` on peer `a`, on which the mailbox breaks what
`DManager` is documented to keep, all from the reads of `Set` and of the watchdog made without
`dm.mu`: a channel stops being stored while it holds an envelope and its peer is alive, two
watchdogs of one peer count its counter down to `-1`, and a `Set` sends on a channel that `Clean`
has closed, which panics. -/

namespace Sshx.Signaling

open Types

/-- What one step can do to the shared memory. -/
inductive MemStep (m : Mem) : Mem → Prop
  | skip : MemStep m m
  | create (id : String) : MemStep m (m.create id)
  | resetAlive (id : String) : MemStep m (m.resetAlive id)
  | decAlive (id : String) : MemStep m (m.decAlive id)
  | clean (id : String) : MemStep m (m.clean id)
  | enqueue (q : Nat) (info : SignalingInfo) :
      (m.chans q).buf.length < maxBufferNumber → MemStep m (m.enqueue q info)
  | dequeue (q : Nat) : MemStep m (m.dequeue q)

/-- What one step of goroutine `p` does to the shared memory, with the key and the channel it
touches: the entries of its own peer, and only the channel it holds for a send or a receive. -/
inductive PeerStep (m : Mem) (p : Proc) : Mem → Prop
  | skip : PeerStep m p m
  | create : PeerStep m p (m.create p.peer)
  | resetAlive : PeerStep m p (m.resetAlive p.peer)
  | decAlive : PeerStep m p (m.decAlive p.peer)
  | clean : PeerStep m p (m.clean p.peer)
  | enqueue (q : Nat) (info : SignalingInfo) : p.held = some q →
      (m.chans q).buf.length < maxBufferNumber → PeerStep m p (m.enqueue q info)
  | dequeue (q : Nat) : p.held = some q → PeerStep m p (m.dequeue q)

theorem stepSet_peerStep {m m' : Mem} {id : String} {info : SignalingInfo} {pc pc' : SetPc}
    {new : List Proc} (h : stepSet m id info pc = some (m', pc', new)) :
    PeerStep m (.set id info pc) m' := by
  cases pc with
  | send ch =>
      cases ch with
      | none => cases h; exact .skip
      | some q =>
          simp only [stepSet] at h
          split_ifs at h with h₁ h₂ <;> cases h
          · exact .skip
          · exact .enqueue q info rfl h₂
          · exact .skip
  | _ => cases h <;> constructor

theorem stepPull_peerStep {m m' : Mem} {id : String} {pc pc' : PullPc}
    (h : stepPull m id pc = some (m', pc')) : PeerStep m (.pull id pc) m' := by
  cases pc with
  | recv ch =>
      cases ch with
      | none => cases h; exact .skip
      | some q =>
          simp only [stepPull] at h
          split at h <;> cases h
          · exact .dequeue q rfl
          · exact .skip
  | _ => cases h <;> constructor

theorem stepWatchdog_peerStep {m m' : Mem} {id : String} {pc pc' : WatchdogPc}
    (h : stepWatchdog m id pc = some (m', pc')) : PeerStep m (.watchdog id pc) m' := by
  cases pc with
  | clean =>
      simp only [stepWatchdog] at h
      split at h
      · split_ifs at h <;> cases h
        · exact .skip
        · exact .clean
      · cases h; exact .clean
  | _ => cases h <;> constructor

theorem Proc.step_peerStep {m : Mem} {p : Proc} {r : Mem × Proc × List Proc}
    (h : p.step m = some r) : PeerStep m p r.1 := by
  cases p <;> obtain ⟨r', h', rfl⟩ := Option.map_eq_some'.mp h
  · exact stepSet_peerStep h'
  · exact stepPull_peerStep h'
  · exact stepWatchdog_peerStep h'

theorem PeerStep.memStep {m m' : Mem} {p : Proc} (h : PeerStep m p m') : MemStep m m' := by
  cases h with
  | skip => exact .skip
  | create => exact .create _
  | resetAlive => exact .resetAlive _
  | decAlive => exact .decAlive _
  | clean => exact .clean _
  | enqueue q info _ hlt => exact .enqueue q info hlt
  | dequeue q _ => exact .dequeue q

section Frame

variable {m m' : Mem} {p : Proc} (h : PeerStep m p m')
include h

/-- A step leaves the entries of every other peer as they were. -/
theorem PeerStep.datas_other {x : String} (hx : x ≠ p.peer) : m'.datas x = m.datas x := by
  cases h <;> simp [Function.update_noteq hx]

theorem PeerStep.alive_other {x : String} (hx : x ≠ p.peer) : m'.alive x = m.alive x := by
  cases h <;> simp [Function.update_noteq hx]

end Frame

theorem step_memStep {w w' : World} {a : Action} (h : step w a = some w') : MemStep w.mem w'.mem := by
  rcases step_cases h with rfl | ⟨_, -, rfl⟩ | ⟨_, _, _, _, _, -, hstep, rfl⟩
  · exact .skip
  · exact .skip
  · exact (Proc.step_peerStep hstep).memStep

/-- A property of the memory that `NewDManager()` has and every statement keeps holds in every
reachable state. -/
theorem Reachable.mem_induction (P : Mem → Prop) (h₀ : P newDManager)
    (hs : ∀ m m', P m → MemStep m m' → P m') {w : World} (hw : Reachable w) : P w.mem := by
  induction hw with
  | init => exact h₀
  | step _ h ih => exact hs _ _ ih (step_memStep h)

/-- Every channel stored in `datas` has been made, is stored under one key only, and is open. -/
structure StoredOpen (m : Mem) : Prop where
  lt_next : ∀ id q, m.datas id = some q → q < m.nextChan
  unique : ∀ id id' q, m.datas id = some q → m.datas id' = some q → id = id'
  isOpen : ∀ id q, m.datas id = some q → (m.chans q).closed = false

theorem StoredOpen.create {m : Mem} (h : StoredOpen m) (id : String) : StoredOpen (m.create id) := by
  constructor
  · intro x q hx
    simp only [Mem.create_datas, Function.update_apply, Mem.create_nextChan] at hx ⊢
    split_ifs at hx
    · cases hx; omega
    · exact Nat.lt_succ_of_lt (h.lt_next x q hx)
  · intro x y q hx hy
    simp only [Mem.create_datas, Function.update_apply] at hx hy
    split_ifs at hx hy with h₁ h₂ h₂
    · exact h₁.trans h₂.symm
    · cases hx; exact absurd (h.lt_next y _ hy) (lt_irrefl _)
    · cases hy; exact absurd (h.lt_next x _ hx) (lt_irrefl _)
    · exact h.unique x y q hx hy
  · intro x q hx
    simp only [Mem.create_datas, Function.update_apply, Mem.create_chans] at hx ⊢
    split_ifs at hx with h₁
    · cases hx; simp
    · rw [if_neg (h.lt_next x q hx).ne]
      exact h.isOpen x q hx

theorem StoredOpen.clean {m : Mem} (h : StoredOpen m) (id : String) : StoredOpen (m.clean id) := by
  have hdatas : ∀ x q, (m.clean id).datas x = some q → x ≠ id ∧ m.datas x = some q := by
    intro x q hx
    simp only [Mem.clean_datas, Function.update_apply] at hx
    split_ifs at hx with h₁
    exact ⟨h₁, hx⟩
  refine ⟨fun x q hx => h.lt_next x q (hdatas x q hx).2,
    fun x y q hx hy => h.unique x y q (hdatas x q hx).2 (hdatas y q hy).2, fun x q hx => ?_⟩
  obtain ⟨hne, hx⟩ := hdatas x q hx
  simp only [Mem.clean_chans]
  rw [if_neg fun h₀ => hne (h.unique x id q hx h₀)]
  exact h.isOpen x q hx

theorem StoredOpen.memStep {m m' : Mem} (h : StoredOpen m) (hs : MemStep m m') : StoredOpen m' := by
  cases hs with
  | skip => exact h
  | create id => exact h.create id
  | clean id => exact h.clean id
  | resetAlive id => exact ⟨h.lt_next, h.unique, h.isOpen⟩
  | decAlive id => exact ⟨h.lt_next, h.unique, h.isOpen⟩
  | enqueue q info _ =>
      refine ⟨h.lt_next, h.unique, fun x q' hx => ?_⟩
      simp only [Mem.enqueue_chans, Function.update_apply]
      split_ifs with hq
      · subst hq; exact h.isOpen x _ hx
      · exact h.isOpen x q' hx
  | dequeue q =>
      refine ⟨h.lt_next, h.unique, fun x q' hx => ?_⟩
      simp only [Mem.dequeue_chans, Function.update_apply]
      split_ifs with hq
      · subst hq; exact h.isOpen x _ hx
      · exact h.isOpen x q' hx

theorem reachable_storedOpen {w : World} (hw : Reachable w) : StoredOpen w.mem :=
  hw.mem_induction _ ⟨by simp [newDManager], by simp [newDManager], by simp [newDManager]⟩
    fun _ _ h hs => h.memStep hs

/-- A push to `a` has made channel 0 and stored it. -/
theorem storedOpen_after_push :
    ∃ w, Reachable w ∧ w.mem.datas "a" = some 0 ∧ StoredOpen w.mem := by
  obtain ⟨w, hw, hd⟩ := exists_reachable_of_run [.push "a" (some .zero), .run 0, .run 0]
    (fun w => w.mem.datas "a" = some 0) (by decide)
  exact ⟨w, hw, hd, reachable_storedOpen hw⟩

/-- An offer for peer `a` (`Flag` is `SIG_TYPE_OFFER`). -/
def offer : SignalingInfo := ⟨3, "b", "v=0", [], ⟨1000, 0, 0⟩, "a", 0, 0⟩

/-- A candidate for peer `a` (`Flag` is `SIG_TYPE_CANDIDATE`). -/
def candidate : SignalingInfo := ⟨1, "b", "", [1], ⟨1000, 0, 0⟩, "a", 0, 0⟩

/-- Two pushes to a new peer both find `dm.datas[id]` `nil` at line 73. The first makes channel 0,
queues its offer there and returns; the second then stores channel 1 over it. -/
def orphanTrace : List Action :=
  [.push "a" (some offer), .push "a" (some candidate), .run 0, .run 1,
    .run 0, .run 0, .run 0, .run 0, .run 0, .run 0, .run 1, .run 1, .run 1]

/-- A stored channel is stored under one key, but a channel can stop being stored while it holds an
envelope: the queued offer is in channel 0, which `datas` no longer holds, while the peer is alive
(its counter is 15 and no `Clean` has run), so no pull can return it. -/
theorem orphaned_channel_loses_envelope :
    ∃ w, Reachable w ∧ w.procs = [.set "a" offer (.done true), .set "a" candidate .select,
        .watchdog "a" .test, .watchdog "a" .test] ∧
      w.mem.datas "a" = some 1 ∧ w.mem.alive "a" = some 15 ∧
      w.mem.chans 0 = ⟨[offer], false⟩ ∧ w.mem.chans 1 = ⟨[], false⟩ :=
  exists_reachable_of_run orphanTrace _ (by decide)

/-- No keep-alive counter exceeds `LIFE_TIME_IN_SECOND`. -/
def AliveBounded (m : Mem) : Prop :=
  ∀ id k, m.alive id = some k → k ≤ lifeTimeInSecond

theorem AliveBounded.memStep {m m' : Mem} (h : AliveBounded m) (hs : MemStep m m') :
    AliveBounded m' := by
  intro x k hk
  cases hs with
  | resetAlive id =>
      simp only [Mem.resetAlive_alive, Function.update_apply] at hk
      split_ifs at hk
      · cases hk; rfl
      · exact h x k hk
  | decAlive id =>
      simp only [Mem.decAlive_alive, Function.update_apply] at hk
      split_ifs at hk with hx
      · cases hk
        cases ha : m.alive id with
        | none => simp [lifeTimeInSecond]
        | some k' => have := h id k' ha; simp only [Option.getD_some]; omega
      · exact h x k hk
  | clean id =>
      simp only [Mem.clean_alive, Function.update_apply] at hk
      split_ifs at hk
      exact h x k hk
  | _ => exact h x k hk

theorem reachable_alive_le {w : World} (hw : Reachable w) (id : String) (k : Int)
    (hk : w.mem.alive id = some k) : k ≤ lifeTimeInSecond :=
  hw.mem_induction AliveBounded (by simp [AliveBounded, newDManager])
    (fun _ _ h hs => h.memStep hs) id k hk

theorem alive_le_after_push :
    ∃ w, Reachable w ∧ w.mem.alive "a" = some 15 ∧ (15 : Int) ≤ lifeTimeInSecond := by
  obtain ⟨w, hw, ha⟩ := exists_reachable_of_run [.push "a" (some .zero), .run 0, .run 0, .run 0]
    (fun w => w.mem.alive "a" = some 15) (by decide)
  exact ⟨w, hw, ha, reachable_alive_le hw "a" 15 ha⟩

/-- After `orphanTrace` the first watchdog counts down to 1; both watchdogs then pass their loop
test before either decrements. -/
def countdownTrace : List Action :=
  orphanTrace ++ (List.replicate 14 [.run 2, .run 2]).flatten ++ [.run 2, .run 3, .run 2, .run 3]

/-- The counter stays below `LIFE_TIME_IN_SECOND` but not above `0`: two watchdogs of one peer run,
channel 0 is open and no longer stored, and the counter is -1. -/
theorem two_watchdogs_orphan_negative_counter :
    ∃ w, Reachable w ∧ w.procs.countP (fun p => p = .watchdog "a" .test) = 2 ∧
      w.mem.datas "a" = some 1 ∧ (w.mem.chans 0).closed = false ∧ w.mem.alive "a" = some (-1) :=
  exists_reachable_of_run countdownTrace _ (by decide)

/-- A step leaves a watchdog panicked only when `Clean` finds a closed channel stored under its id. -/
theorem Proc.step_watchdog_panicked {m : Mem} {p : Proc} {r : Mem × Proc × List Proc} {id : String}
    (h : p.step m = some r) (hr : r.2.1 = .watchdog id .panicked) :
    ∃ q, m.datas id = some q ∧ (m.chans q).closed = true := by
  cases p with
  | set => obtain ⟨_, _, rfl⟩ := Option.map_eq_some'.mp h; cases hr
  | pull => obtain ⟨_, _, rfl⟩ := Option.map_eq_some'.mp h; cases hr
  | watchdog id' pc =>
      obtain ⟨⟨m', pc'⟩, h', rfl⟩ := Option.map_eq_some'.mp h
      cases hr
      cases pc with
      | clean =>
          simp only [stepWatchdog] at h'
          split at h'
          · rename_i q hq
            split_ifs at h' with hc
            · exact ⟨q, hq, hc⟩
            · cases h'
          · cases h'
      | test => simp only [stepWatchdog] at h'; split_ifs at h' <;> cases h'
      | dec | done | panicked => cases h'

/-- A step of `Set` starts its watchdog at line 83 and nothing else. -/
theorem stepSet_started {m m' : Mem} {id : String} {info : SignalingInfo} {pc pc' : SetPc}
    {new : List Proc} (h : stepSet m id info pc = some (m', pc', new)) :
    new = [] ∨ new = [.watchdog id .test] := by
  cases pc with
  | spawn => cases h; exact .inr rfl
  | send ch =>
      cases ch with
      | none => cases h; exact .inl rfl
      | some q => simp only [stepSet] at h; split_ifs at h <;> cases h <;> exact .inl rfl
  | done | panicked => cases h
  | _ => cases h; exact .inl rfl

/-- The goroutines a step starts are fresh watchdogs of the stepping goroutine's peer. -/
theorem Proc.step_started {m : Mem} {p : Proc} {r : Mem × Proc × List Proc}
    (h : p.step m = some r) : ∀ p' ∈ r.2.2, p' = .watchdog p.peer .test := by
  cases p with
  | set id info pc =>
      obtain ⟨⟨m', pc', new⟩, h', rfl⟩ := Option.map_eq_some'.mp h
      rcases stepSet_started h' with rfl | rfl <;> simp [Proc.peer]
  | pull => obtain ⟨_, _, rfl⟩ := Option.map_eq_some'.mp h; simp
  | watchdog => obtain ⟨_, _, rfl⟩ := Option.map_eq_some'.mp h; simp

theorem Proc.step_peer {m m' : Mem} {p p' : Proc} {new : List Proc}
    (h : p.step m = some (m', p', new)) : p'.peer = p.peer := by
  cases p <;> obtain ⟨_, _, hr⟩ := Option.map_eq_some'.mp h <;> cases hr <;> rfl

/-- A step of goroutine `i` keeps every other goroutine in the list. -/
theorem mem_stepAt_of_ne {procs new : List Proc} {i : Nat} {p p' x : Proc} (hp : procs[i]? = some p)
    (hx : x ∈ procs) (hne : x ≠ p) : x ∈ procs.set i p' ++ new := by
  obtain ⟨j, hj⟩ := List.mem_iff_getElem?.mp hx
  have hji : i ≠ j := fun hij => hne (Option.some.inj (hj.symm.trans (hij ▸ hp)))
  exact List.mem_append_left _ (List.mem_iff_getElem?.mpr ⟨j, by rwa [List.getElem?_set_ne hji]⟩)

/-- **`Clean` never closes a closed channel**, in any interleaving: no watchdog panics. -/
theorem reachable_no_close_panic {w : World} (hw : Reachable w) (id : String) :
    Proc.watchdog id .panicked ∉ w.procs := by
  induction hw with
  | init => simp [World.init]
  | @step w w' a hw hs ih =>
      rcases step_cases hs with rfl | ⟨x, hx, rfl⟩ | ⟨i, p, m', p', new, -, hstep, rfl⟩
      · exact ih
      · intro hmem
        rcases List.mem_append.mp hmem with hmem | hmem
        · exact ih hmem
        · cases hx <;> simp at hmem
      · intro hmem
        rcases List.mem_append.mp hmem with hmem | hmem
        · rcases List.mem_or_eq_of_mem_set hmem with hmem | hmem
          · exact ih hmem
          · obtain ⟨q, hq, hc⟩ := Proc.step_watchdog_panicked hstep hmem.symm
            simp [(reachable_storedOpen hw).isOpen id q hq] at hc
        · cases Proc.step_started hstep _ hmem

theorem no_close_panic_after_push :
    ∃ w, Reachable w ∧ w.procs[1]? = some (.watchdog "a" .test) ∧
      Proc.watchdog "a" .panicked ∉ w.procs := by
  obtain ⟨w, hw, hp⟩ := exists_reachable_of_run (.push "a" (some .zero) :: List.replicate 4 (.run 0))
    (fun w => w.procs[1]? = some (.watchdog "a" .test)) (by decide)
  exact ⟨w, hw, hp, reachable_no_close_panic hw "a"⟩

/-- A push runs to completion; its watchdog counts down to 0 and passes its final loop test. A second
push reads channel 0 at lines 73 and 102; the watchdog's `Clean` closes it. -/
def closedSendTrace : List Action :=
  [.push "a" (some offer)] ++ List.replicate 7 (.run 0) ++
    (List.replicate 15 [.run 1, .run 1]).flatten ++
    [.push "a" (some candidate), .run 2, .run 2, .run 1, .run 1]

/-- `Clean` never closes a closed channel, but a `Set` can send on one: the next step of the second
`Set` is its send on channel 0, which is closed, a panic. -/
theorem set_sends_on_closed_channel :
    ∃ w, Reachable w ∧ w.procs[2]? = some (.set "a" candidate (.send (some 0))) ∧
      (w.mem.chans 0).closed = true ∧
      (stepAt w 2).map (fun w' => w'.procs[2]?) = some (some (.set "a" candidate .panicked)) :=
  exists_reachable_of_run closedSendTrace _ (by decide)

end Sshx.Signaling
