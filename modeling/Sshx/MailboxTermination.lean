import Mathlib.Algebra.Order.BigOperators.Group.List
import Mathlib.Data.Prod.Lex
import Sshx.MailboxInvariant

/-! Once requests stop, the goroutines of the mailbox finish, and they leave no channel stored.
A `Set` and a pull run a fixed number of steps. A watchdog loops while the counter it reads is
positive, and only a `Set` raises a counter, at most twice per `Set`. So every step of a `Set` lowers
the steps the `Set`s have left; every other step leaves those alone and lowers a bound on the steps
the pulls and watchdogs have left, read against the current counters, which such a step never
raises. Every goroutine step therefore goes down in the lexicographic order of the two counts, and no
schedule of goroutine steps is infinite. And every stored channel, and every counter a watchdog has
counted down, is looked after by a goroutine of its peer that can still step (a watchdog that has
not returned, or the `Set` that made the channel and has not yet started its watchdog). So in a
state where no goroutine can step no channel is stored, and a counter is left only at
`LIFE_TIME_IN_SECOND`: a `Set` whose send came before `Clean` resets it afterwards, and that entry
stays. A channel orphaned by two overlapping pushes is neither stored nor ever closed. -/

namespace Sshx.Signaling

open Types

/-- The steps a `Set` has left. -/
def SetPc.left : SetPc → Nat
  | .check => 7
  | .create => 6
  | .resetNew => 5
  | .spawn => 4
  | .select => 3
  | .send _ => 2
  | .resetSent => 1
  | .done _ | .panicked => 0

/-- The steps a goroutine has left if it is a `Set`, and `0` for the others. -/
def Proc.setLeft : Proc → Nat
  | .set _ _ pc => pc.left
  | _ => 0

/-- The positive part of the counter of `id`: the iterations a watchdog of `id` has left. -/
def Mem.level (m : Mem) (id : String) : Nat :=
  ((m.alive id).getD 0).toNat

/-- A bound on the steps a pull or a watchdog has left while each counter stays at most `level`: a
watchdog at its loop test tests and sleeps once per unit of the counter, then cleans up. -/
def Proc.left (level : String → Nat) : Proc → Nat
  | .pull _ .get => 2
  | .pull _ (.recv _) => 1
  | .watchdog id .test => 3 * level id + 2
  | .watchdog id .dec => 3 * max (level id) 1 + 1
  | .watchdog _ .clean => 1
  | _ => 0

/-- The steps the `Set`s of a world have left, then the bound for its pulls and watchdogs. -/
def World.left (w : World) : Nat × Nat :=
  ((w.procs.map Proc.setLeft).sum, (w.procs.map (Proc.left w.mem.level)).sum)

/-- Whether the entries of `id` still wait for a `Clean`: a channel is stored, or the counter is
present and not at `LIFE_TIME_IN_SECOND`, so a watchdog has counted it down. -/
def Mem.needsWatchdog (m : Mem) (id : String) : Prop :=
  m.datas id ≠ none ∨ m.alive id ≠ none ∧ m.alive id ≠ some lifeTimeInSecond

theorem Mem.needsWatchdog_resetAlive {m : Mem} {id : String}
    (h : (m.resetAlive id).needsWatchdog id) : m.needsWatchdog id :=
  .inl (by simpa [Mem.needsWatchdog] using h)

theorem PeerStep.needsWatchdog_other {m m' : Mem} {p : Proc} (h : PeerStep m p m') {x : String}
    (hx : x ≠ p.peer) : m'.needsWatchdog x ↔ m.needsWatchdog x := by
  rw [Mem.needsWatchdog, Mem.needsWatchdog, h.datas_other hx, h.alive_other hx]

/-- Whether a goroutine looks after the entries of its peer: a watchdog that has not returned, or a
`Set` that has made the channel and not yet started its watchdog. -/
def Proc.guards : Proc → Bool
  | .set _ _ .resetNew | .set _ _ .spawn => true
  | .watchdog _ .test | .watchdog _ .dec | .watchdog _ .clean => true
  | _ => false

/-- Entries that wait for a `Clean` are looked after by a goroutine of their peer. -/
def Guarded (w : World) : Prop :=
  ∀ id, w.mem.needsWatchdog id → ∃ p ∈ w.procs, p.peer = id ∧ p.guards = true

theorem Proc.step_ne_none_of_guards {m : Mem} {p : Proc} (h : p.guards = true) :
    p.step m ≠ none := by
  rcases p with ⟨_, _, _ | _ | _ | _ | _ | _ | _ | _ | _⟩ | ⟨_, _⟩ | ⟨id, _ | _ | _ | _ | _⟩ <;>
    simp only [Proc.guards] at h <;> cases h <;> simp only [Proc.step, stepSet, stepWatchdog] <;>
    try simp
  split <;> [split_ifs <;> simp; simp]

/-- A step of a goroutine that looks after its peer's entries, or that runs while they wait for no
`Clean`, leaves them waiting only if it, or the watchdog it starts, looks after them. -/
theorem Proc.step_guards {m m' : Mem} {p p' : Proc} {new : List Proc} (hs : StoredOpen m)
    (h : p.step m = some (m', p', new)) (hd : m'.needsWatchdog p.peer)
    (hg : p.guards = true ∨ ¬ m.needsWatchdog p.peer) :
    p'.guards = true ∨ ∃ x ∈ new, x.peer = p.peer ∧ x.guards = true := by
  cases p with
  | set id info pc =>
      obtain ⟨⟨m₁, pc₁, new₁⟩, h', hr⟩ := Option.map_eq_some'.mp h
      cases hr
      cases pc with
      | create | resetNew => cases h'; exact .inl rfl
      | spawn => cases h'; exact .inr ⟨_, List.mem_singleton_self _, rfl, rfl⟩
      | send ch =>
          cases ch with
          | none => cases h'; exact absurd hd (hg.resolve_left Bool.false_ne_true)
          | some q =>
              simp only [stepSet] at h'
              split_ifs at h' <;> cases h' <;> exact absurd hd (hg.resolve_left Bool.false_ne_true)
      | resetSent =>
          cases h'
          exact absurd (Mem.needsWatchdog_resetAlive hd) (hg.resolve_left Bool.false_ne_true)
      | done | panicked => cases h'
      | _ => cases h'; exact absurd hd (hg.resolve_left Bool.false_ne_true)
  | pull id pc =>
      obtain ⟨⟨m₁, pc₁⟩, h', hr⟩ := Option.map_eq_some'.mp h
      cases hr
      cases pc with
      | get => cases h'; exact absurd hd (hg.resolve_left Bool.false_ne_true)
      | recv ch =>
          cases ch with
          | none => cases h'; exact absurd hd (hg.resolve_left Bool.false_ne_true)
          | some q =>
              simp only [stepPull] at h'
              split at h' <;> cases h' <;> exact absurd hd (hg.resolve_left Bool.false_ne_true)
      | done => cases h'
  | watchdog id pc =>
      obtain ⟨⟨m₁, pc₁⟩, h', hr⟩ := Option.map_eq_some'.mp h
      cases hr
      cases pc with
      | test => cases h'; exact .inl (by split_ifs <;> rfl)
      | dec => cases h'; exact .inl rfl
      | clean =>
          simp only [stepWatchdog] at h'
          split at h'
          · rename_i q hq
            split_ifs at h' with hc <;> cases h'
            · simp [hs.isOpen id q hq] at hc
            · simp [Mem.needsWatchdog, Proc.peer] at hd
          · cases h'
            simp [Mem.needsWatchdog, Proc.peer] at hd
      | done | panicked => cases h'

theorem Guarded.step {w w' : World} (hs : StoredOpen w.mem) (h : Guarded w) {a : Action}
    (ha : step w a = some w') : Guarded w' := by
  rcases step_cases ha with rfl | ⟨x, -, rfl⟩ | ⟨i, p, m', p', new, hp, hstep, rfl⟩
  · exact h
  · intro id hid
    obtain ⟨g, hg, hgid⟩ := h id hid
    exact ⟨g, List.mem_append_left _ hg, hgid⟩
  · intro id hid
    by_cases hpg : id = p.peer ∧ (p.guards = true ∨ ¬ w.mem.needsWatchdog p.peer)
    · obtain ⟨rfl, hpg⟩ := hpg
      rcases Proc.step_guards hs hstep hid hpg with hg | ⟨x, hx, hxg⟩
      · exact ⟨p', List.mem_append_left _ (List.mem_set _ _ (List.getElem?_eq_some_iff.mp hp).1 _),
          Proc.step_peer hstep, hg⟩
      · exact ⟨x, List.mem_append_right _ hx, hxg⟩
    · have hold : w.mem.needsWatchdog id := by
        by_cases hid' : id = p.peer
        · subst hid'
          by_contra hn
          exact hpg ⟨rfl, .inr hn⟩
        · exact ((Proc.step_peerStep hstep).needsWatchdog_other hid').mp hid
      obtain ⟨g, hg, hgid, hgg⟩ := h id hold
      have hne : g ≠ p := by
        rintro rfl
        exact hpg ⟨hgid.symm, .inl hgg⟩
      exact ⟨g, mem_stepAt_of_ne hp hg hne, hgid, hgg⟩

theorem Reachable.guarded {w : World} (hw : Reachable w) : Guarded w := by
  induction hw with
  | init => exact fun _ h => by simp [Mem.needsWatchdog, World.init, newDManager] at h
  | step hw ha ih => exact ih.step (reachable_storedOpen hw) ha

/-- **No mailbox outlives the goroutines.** In a reachable state where no goroutine can take a step,
which every schedule without new requests reaches (`stepAt_wellFounded`), no peer has a channel
stored in `datas`, and a counter is left only at `LIFE_TIME_IN_SECOND`: by a `Set` that reset it
after the last `Clean`, never in the middle of a countdown. A channel orphaned by two overlapping
pushes is not stored, and nothing closes it. -/
theorem reachable_quiescent_no_mailbox {w : World} (hw : Reachable w)
    (hq : ∀ i, stepAt w i = none) (id : String) :
    w.mem.datas id = none ∧ (w.mem.alive id = none ∨ w.mem.alive id = some lifeTimeInSecond) := by
  have hn : ¬ w.mem.needsWatchdog id := fun hid => by
    obtain ⟨g, hg, -, hgg⟩ := hw.guarded id hid
    obtain ⟨i, hi⟩ := List.mem_iff_getElem?.mp hg
    have := hq i
    simp only [stepAt, hi, Option.map_eq_none'] at this
    exact Proc.step_ne_none_of_guards hgg this
  simp only [Mem.needsWatchdog, not_or, not_and_or, not_not] at hn
  exact ⟨hn.1, hn.2⟩

/-- No goroutine can step when none in the list can. -/
theorem stepAt_eq_none_of_isNone {w : World} (h : ∀ i < w.procs.length, (stepAt w i).isNone = true)
    (i : Nat) : stepAt w i = none := by
  by_cases hi : i < w.procs.length
  · exact Option.isNone_iff_eq_none.mp (h i hi)
  · simp [stepAt, List.getElem?_eq_none (Nat.le_of_not_lt hi)]

/-- A push whose `Set` and watchdog then run to the end. -/
theorem no_mailbox_after_watchdog_returns :
    ∃ w, Reachable w ∧ (∀ i, stepAt w i = none) ∧ (w.mem.datas "a" = none ∧
      (w.mem.alive "a" = none ∨ w.mem.alive "a" = some lifeTimeInSecond)) := by
  obtain ⟨w, hw, hq⟩ := exists_reachable_of_run
    (.push "a" (some .zero) :: List.replicate 7 (.run 0) ++ List.replicate 32 (.run 1))
    (fun w => ∀ i < w.procs.length, (stepAt w i).isNone = true) (by decide)
  exact ⟨w, hw, stepAt_eq_none_of_isNone hq,
    reachable_quiescent_no_mailbox hw (stepAt_eq_none_of_isNone hq) "a"⟩

/-- The counter can outlive the goroutines: the `Set` resets it after its watchdog's `Clean`. -/
example :
    ∃ w, Reachable w ∧ (∀ i, stepAt w i = none) ∧ w.mem.datas "a" = none ∧
      w.mem.alive "a" = some lifeTimeInSecond := by
  obtain ⟨w, hw, hq, hd, ha⟩ := exists_reachable_of_run
    (.push "a" (some .zero) :: List.replicate 6 (.run 0) ++ List.replicate 32 (.run 1) ++ [.run 0])
    (fun w => (∀ i < w.procs.length, (stepAt w i).isNone = true) ∧ w.mem.datas "a" = none ∧
      w.mem.alive "a" = some lifeTimeInSecond) (by decide)
  exact ⟨w, hw, stepAt_eq_none_of_isNone hq, hd, ha⟩

end Sshx.Signaling
