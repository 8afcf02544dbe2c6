import Mathlib.Algebra.BigOperators.Group.Finset
import Sshx.MailboxOwnership

/-! Envelopes are conserved, in every interleaving. For each peer and each envelope other than the
zero value, the copies still in the buffers of the peer's channels and the finished pulls of the
peer that wrote it add up to the pushes to the peer whose send of it succeeded. A send adds one
copy, a receive moves one from a buffer to a pull, and nothing else touches either: `Clean` closes
a channel but leaves its buffer, so an orphaned or evicted envelope stays counted as pending. Hence
no envelope is delivered twice. The zero value is left out because a pull also writes it when it
finds its channel closed and drained. -/

namespace Sshx.Signaling

open Types Finset

/-- Copies of `v` in the buffers of the channels that `owner` gives to `id`. -/
def pendingCount (m : Mem) (owner : Nat → String) (id : String) (v : SignalingInfo) : Nat :=
  ∑ q ∈ range m.nextChan, if owner q = id then (m.chans q).buf.count v else 0

/-- Pushes to `id` whose send of `v` has succeeded. -/
def sentCount (procs : List Proc) (id : String) (v : SignalingInfo) : Nat :=
  procs.countP fun p => p.peer = id ∧ p.sent = some v

/-- Finished pulls of `id` that wrote `v`. -/
def deliveredCount (procs : List Proc) (id : String) (v : SignalingInfo) : Nat :=
  procs.countP fun p => p.peer = id ∧ p.body = some v

/-- Every envelope other than the zero value is pending or delivered once per successful send. -/
def Conserved (w : World) (owner : Nat → String) : Prop :=
  ∀ id v, v ≠ .zero →
    pendingCount w.mem owner id v + deliveredCount w.procs id v = sentCount w.procs id v

/-- A finished pull takes no step. -/
theorem Proc.body_of_step {m m' : Mem} {p p' : Proc} {new : List Proc}
    (h : p.step m = some (m', p', new)) : p.body = none := by
  rcases p with _ | ⟨id, _ | _ | body⟩ | _ <;> first | rfl | cases h

theorem countP_set_add {α : Type} (f : α → Bool) :
    ∀ {l : List α} {i : Nat} {a : α} (b : α), l[i]? = some a →
      (l.set i b).countP f + (if f a then 1 else 0) = l.countP f + (if f b then 1 else 0)
  | _ :: _, 0, _, _, h => by
      simp only [List.getElem?_cons_zero, Option.some.injEq] at h
      subst h
      simp only [List.set_cons_zero, List.countP_cons]
      omega
  | _ :: l, i + 1, _, b, h => by
      have := countP_set_add f b (List.getElem?_cons_succ.symm.trans h)
      simp only [List.set_cons_succ, List.countP_cons]
      omega

/-- A count over the goroutines after goroutine `i` steps from `p` to `p'` and starts `new`. -/
theorem countP_stepAt (f : Proc → Bool) {procs new : List Proc} {i : Nat} {p : Proc} (p' : Proc)
    (hp : procs[i]? = some p) (hnew : ∀ x ∈ new, f x = false) :
    (procs.set i p' ++ new).countP f + (if f p then 1 else 0) =
      procs.countP f + (if f p' then 1 else 0) := by
  have hz : new.countP f = 0 := List.countP_eq_zero.mpr fun x hx => by simp [hnew x hx]
  rw [List.countP_append, hz, Nat.add_zero]
  exact countP_set_add f p' hp

/-- Changing one term of a sum over `range n`. -/
theorem sum_range_update {n q : Nat} (f g : Nat → Nat) (hq : q < n) (h : ∀ x, x ≠ q → g x = f x) :
    (range n).sum g + f q = (range n).sum f + g q := by
  have hrest : ∑ x ∈ (range n).erase q, g x = ∑ x ∈ (range n).erase q, f x :=
    sum_congr rfl fun x hx => h x (ne_of_mem_erase hx)
  rw [← add_sum_erase _ g (mem_range.mpr hq), ← add_sum_erase _ f (mem_range.mpr hq), hrest]
  omega

section Pending

variable (owner : Nat → String) {m : Mem} (id : String) (v : SignalingInfo)

theorem pendingCount_quiet {m' : Mem} (hq : Quiet m m') :
    pendingCount m' owner id v = pendingCount m owner id v := by
  simp only [pendingCount, hq.nextChan, hq.buf]

theorem pendingCount_create (id' : String) :
    pendingCount (m.create id') (Function.update owner m.nextChan id') id v =
      pendingCount m owner id v := by
  simp only [pendingCount, Mem.create_nextChan, sum_range_succ, Mem.create_chans,
    Function.update_same, List.count_nil, ite_self, add_zero]
  refine sum_congr rfl fun q hq => ?_
  rw [Function.update_noteq (mem_range.mp hq).ne, Function.update_noteq (mem_range.mp hq).ne]

theorem pendingCount_enqueue {q : Nat} (hq : q < m.nextChan) (info : SignalingInfo) :
    pendingCount (m.enqueue q info) owner id v =
      pendingCount m owner id v + if owner q = id ∧ info = v then 1 else 0 := by
  have hsum := sum_range_update (fun x => if owner x = id then (m.chans x).buf.count v else 0)
    (fun x => if owner x = id then ((m.enqueue q info).chans x).buf.count v else 0) hq
    fun x hx => by simp [Function.update_noteq hx]
  have hterm : (if owner q = id then ((m.enqueue q info).chans q).buf.count v else 0) =
      (if owner q = id then (m.chans q).buf.count v else 0) +
        if owner q = id ∧ info = v then 1 else 0 := by
    by_cases ho : owner q = id <;> by_cases hi : info = v <;>
      simp [ho, hi, List.count_singleton', Ne.symm]
  simp only [pendingCount, Mem.enqueue_nextChan] at hsum ⊢
  omega

theorem pendingCount_dequeue {q : Nat} (hq : q < m.nextChan) {v' : SignalingInfo}
    {rest : List SignalingInfo} (hb : (m.chans q).buf = v' :: rest) :
    pendingCount (m.dequeue q) owner id v + (if owner q = id ∧ v' = v then 1 else 0) =
      pendingCount m owner id v := by
  have hsum := sum_range_update (fun x => if owner x = id then (m.chans x).buf.count v else 0)
    (fun x => if owner x = id then ((m.dequeue q).chans x).buf.count v else 0) hq
    fun x hx => by simp [Function.update_noteq hx]
  have hterm : (if owner q = id then ((m.dequeue q).chans q).buf.count v else 0) +
      (if owner q = id ∧ v' = v then 1 else 0) =
        if owner q = id then (m.chans q).buf.count v else 0 := by
    by_cases ho : owner q = id <;> by_cases hi : v' = v <;>
      simp [ho, hi, hb, List.count_cons, Ne.symm]
  simp only [pendingCount, Mem.dequeue_nextChan] at hsum ⊢
  omega

end Pending

section Tally

variable {m m' : Mem} {procs new : List Proc} {i : Nat} {p p' : Proc} (id : String)
  (v : SignalingInfo)

theorem sentCount_stepAt (hp : procs[i]? = some p) (hstep : p.step m = some (m', p', new)) :
    sentCount (procs.set i p' ++ new) id v + (if p.peer = id ∧ p.sent = some v then 1 else 0) =
      sentCount procs id v + if p'.peer = id ∧ p'.sent = some v then 1 else 0 := by
  have := countP_stepAt (fun x => decide (x.peer = id ∧ x.sent = some v)) p' hp
    fun x hx => by obtain rfl := Proc.step_started hstep x hx; simp [Proc.sent]
  simpa only [sentCount, decide_eq_true_eq] using this

theorem deliveredCount_stepAt (hp : procs[i]? = some p) (hstep : p.step m = some (m', p', new)) :
    deliveredCount (procs.set i p' ++ new) id v =
      deliveredCount procs id v + if p'.peer = id ∧ p'.body = some v then 1 else 0 := by
  have := countP_stepAt (fun x => decide (x.peer = id ∧ x.body = some v)) p' hp
    fun x hx => by obtain rfl := Proc.step_started hstep x hx; simp [Proc.body]
  simpa only [deliveredCount, decide_eq_true_eq, Proc.body_of_step hstep, reduceCtorEq, and_false,
    if_false, add_zero] using this

end Tally

theorem Conserved.append {owner : Nat → String} {m : Mem} {procs : List Proc}
    (hc : Conserved ⟨m, procs⟩ owner) (x : Proc) (hs : x.sent = none) (hb : x.body = none) :
    Conserved ⟨m, procs ++ [x]⟩ owner := fun id v hv => by
  simpa [pendingCount, deliveredCount, sentCount, hs, hb] using hc id v hv

theorem sentIte_eq {p p' : Proc} (hpeer : p'.peer = p.peer) (hsent : p'.sent = p.sent)
    (id : String) (v : SignalingInfo) :
    (if p'.peer = id ∧ p'.sent = some v then 1 else 0) =
      if p.peer = id ∧ p.sent = some v then 1 else 0 := by
  simp only [hpeer, hsent]

/-- Conservation carries over a step of goroutine `p` to `p'` once the step's change to the
pending copies is known: a copy `p'` received leaves the buffers, a copy `p'` sent (and `p` had not)
enters them. -/
theorem Conserved.of_pending {owner owner' : Nat → String} {m m' : Mem} {procs new : List Proc}
    {i : Nat} {p p' : Proc} (hc : Conserved ⟨m, procs⟩ owner) (hp : procs[i]? = some p)
    (hstep : p.step m = some (m', p', new))
    (hpend : ∀ id v, v ≠ .zero →
      pendingCount m' owner' id v + (if p'.peer = id ∧ p'.body = some v then 1 else 0) +
          (if p.peer = id ∧ p.sent = some v then 1 else 0) =
        pendingCount m owner id v + if p'.peer = id ∧ p'.sent = some v then 1 else 0) :
    Conserved ⟨m', procs.set i p' ++ new⟩ owner' := fun id v hv => by
  have hS := sentCount_stepAt id v hp hstep
  have hD := deliveredCount_stepAt id v hp hstep
  have hP := hpend id v hv
  have hC := hc id v hv
  dsimp only at hC ⊢
  omega

theorem Conserved.step {w w' : World} {owner : Nat → String} (h : Owned w owner)
    (hc : Conserved w owner) {a : Action} (ha : Signaling.step w a = some w') :
    ∃ owner', Owned w' owner' ∧ Conserved w' owner' := by
  rcases step_cases ha with rfl | ⟨x, hx, rfl⟩ | ⟨i, p, m', p', new, hp, hstep, rfl⟩
  · exact ⟨owner, h, hc⟩
  · obtain ⟨hheld, hbody, hsent⟩ := hx.idle
    exact ⟨owner, h.quiet (.append _ _) (.refl _) hheld (.inl hbody), hc.append x hsent hbody⟩
  · have hs := Successor.stepAt hp hstep
    have hpm := List.getElem?_mem hp
    cases Proc.step_chanStep hstep with
    | quiet hq hheld hbody hsent =>
        refine ⟨owner, h.quiet hs hq hheld hbody, hc.of_pending hp hstep fun id v hv => ?_⟩
        dsimp only
        have hv' : ¬(p'.peer = id ∧ p'.body = some v) := fun ⟨_, hb⟩ => by
          rcases hbody with h' | h' <;> rw [h'] at hb
          · cases hb
          · exact hv (Option.some.inj hb).symm
        have := pendingCount_quiet owner id v hq
        have := sentIte_eq hs.peer hsent id v
        rw [if_neg hv']
        omega
    | create id' hheld hbody hsent =>
        refine ⟨_, h.create hs id' hheld hbody, hc.of_pending hp hstep fun id v _ => ?_⟩
        dsimp only
        have := @pendingCount_create owner w.mem id v id'
        have := sentIte_eq hs.peer hsent id v
        simp only [hbody, reduceCtorEq, and_false, if_false]
        omega
    | read hheld hbody hsent =>
        refine ⟨owner, h.read hs hheld hbody, hc.of_pending hp hstep fun id v _ => ?_⟩
        dsimp only
        have := sentIte_eq hs.peer hsent id v
        simp only [hbody, reduceCtorEq, and_false, if_false]
        omega
    | send q info hq hsent =>
        refine ⟨owner, h.send hs hpm hq, hc.of_pending hp hstep fun id v _ => ?_⟩
        dsimp only
        obtain ⟨hown, hlt⟩ := h.held p hpm q hq
        have hpeer' : (Proc.set p.peer info .resetSent).peer = p.peer := rfl
        have hsent' : (Proc.set p.peer info .resetSent).sent = some info := rfl
        have hbody' : (Proc.set p.peer info .resetSent).body = none := rfl
        simp only [pendingCount_enqueue owner id v hlt info, hown, hsent, hpeer', hsent', hbody',
          Option.some.injEq, reduceCtorEq, and_false, if_false, add_zero]
    | recv q v' rest hq hb hheld hbody hsent =>
        refine ⟨owner, h.recv hs hpm hq hb hheld hbody, hc.of_pending hp hstep fun id v _ => ?_⟩
        dsimp only
        obtain ⟨hown, hlt⟩ := h.held p hpm q hq
        rw [← pendingCount_dequeue owner id v hlt hb]
        simp only [hown, hbody, hs.peer, hsent, Option.some.injEq]

/-- **Envelopes are conserved**, in every interleaving. Under an assignment of the channels to peers
that fits the state (`Owned`), for every peer and every envelope other than the zero value, the
copies in the buffers of the peer's channels and the finished pulls of the peer that wrote it add
up to the pushes to the peer whose send of it succeeded. So no envelope is delivered twice, and one
left in an orphaned or closed channel stays counted as pending. -/
theorem reachable_conserved {w : World} (hw : Reachable w) :
    ∃ owner, Owned w owner ∧ Conserved w owner := by
  induction hw with
  | init =>
      obtain ⟨owner, h⟩ := reachable_owned Reachable.init
      exact ⟨owner, h, fun id v _ => by
        simp [pendingCount, deliveredCount, sentCount, World.init, newDManager]⟩
  | step _ ha ih =>
      obtain ⟨owner, h, hc⟩ := ih
      exact hc.step h ha

/-- A push whose envelope a pull takes, then a second pull that finds nothing. -/
theorem conserved_after_pull :
    ∃ w, Reachable w ∧ deliveredCount w.procs "a" { SignalingInfo.zero with flag := 3 } = 1 ∧
      ∃ owner, Owned w owner ∧ Conserved w owner := by
  obtain ⟨w, hw, hd⟩ := exists_reachable_of_run
    (.push "a" (some { SignalingInfo.zero with flag := 3 }) :: List.replicate 7 (.run 0) ++
      [.pull "a", .run 2, .run 2, .pull "a", .run 3, .run 3])
    (fun w => deliveredCount w.procs "a" { SignalingInfo.zero with flag := 3 } = 1) (by decide)
  exact ⟨w, hw, hd, reachable_conserved hw⟩

end Sshx.Signaling
