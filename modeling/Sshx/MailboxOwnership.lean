import Sshx.MailboxInvariant

/-! No envelope reaches the wrong peer, in any interleaving. Every channel belongs to the peer whose
`Set` made it: `datas` stores it under that peer, a goroutine that read it serves that peer, and
every envelope in its buffer is the envelope of a push to that peer. So a pull writes an envelope
some push to its own peer carried, or, from a closed and drained channel, the zero envelope, the
only body a pull can make up; the schedule at the end shows that a pull does make it up, when
`Clean` closes the channel between its `Get` and its receive. The owner of a channel is not a
field of the server; the invariant says that some assignment of owners fits the state. What one
step does to the channels is said once, by `ChanStep`; each of its cases keeps the invariant. -/

namespace Sshx.Signaling

open Types

/-- The envelope of a `Set` whose send has succeeded. -/
def Proc.sent : Proc → Option SignalingInfo
  | .set _ info .resetSent | .set _ info (.done true) => some info
  | _ => none

/-- Channels belong to peers by `owner`: `datas` and every goroutine holding a channel name its
owner, channels not made yet are empty, every buffered envelope is that of a push to the channel's
owner, and every finished pull wrote the zero envelope or that of a push to its peer. -/
structure Owned (w : World) (owner : Nat → String) : Prop where
  datas : ∀ id q, w.mem.datas id = some q → owner q = id ∧ q < w.mem.nextChan
  held : ∀ p ∈ w.procs, ∀ q, p.held = some q → owner q = p.peer ∧ q < w.mem.nextChan
  fresh : ∀ q, w.mem.nextChan ≤ q → (w.mem.chans q).buf = []
  buf : ∀ q v, v ∈ (w.mem.chans q).buf → ∃ pc, Proc.set (owner q) v pc ∈ w.procs
  body : ∀ p ∈ w.procs, ∀ v, p.body = some v → v = .zero ∨ ∃ pc, Proc.set p.peer v pc ∈ w.procs

/-- A step that stores no new channel, makes none and moves no envelope. -/
structure Quiet (m m' : Mem) : Prop where
  datas : ∀ id q, m'.datas id = some q → m.datas id = some q
  nextChan : m'.nextChan = m.nextChan
  buf : ∀ q, (m'.chans q).buf = (m.chans q).buf

theorem Quiet.refl (m : Mem) : Quiet m m :=
  ⟨fun _ _ h => h, rfl, fun _ => rfl⟩

theorem Quiet.resetAlive (m : Mem) (id : String) : Quiet m (m.resetAlive id) :=
  ⟨fun _ _ h => h, rfl, fun _ => rfl⟩

theorem Quiet.decAlive (m : Mem) (id : String) : Quiet m (m.decAlive id) :=
  ⟨fun _ _ h => h, rfl, fun _ => rfl⟩

theorem Quiet.clean (m : Mem) (id : String) : Quiet m (m.clean id) := by
  refine ⟨fun x q h => ?_, rfl, fun q => ?_⟩
  · simp only [Mem.clean_datas, Function.update_apply] at h
    split_ifs at h
    exact h
  · simp only [Mem.clean_chans]
    split_ifs <;> rfl

/-- What one step of goroutine `p`, which becomes `p'`, does to the channels and envelopes. -/
inductive ChanStep (m : Mem) (p : Proc) : Mem → Proc → Prop
  | quiet {m' p'} : Quiet m m' → p'.held = none → p'.body = none ∨ p'.body = some .zero →
      p'.sent = p.sent → ChanStep m p m' p'
  | create {p'} (id : String) : p'.held = none → p'.body = none → p'.sent = p.sent →
      ChanStep m p (m.create id) p'
  | read {p'} : p'.held = m.datas p.peer → p'.body = none → p'.sent = p.sent → ChanStep m p m p'
  | send (q : Nat) (info : SignalingInfo) : p.held = some q → p.sent = none →
      ChanStep m p (m.enqueue q info) (.set p.peer info .resetSent)
  | recv {p'} (q : Nat) (v : SignalingInfo) (rest : List SignalingInfo) : p.held = some q →
      (m.chans q).buf = v :: rest → p'.held = none → p'.body = some v → p'.sent = p.sent →
      ChanStep m p (m.dequeue q) p'

theorem Proc.step_chanStep {m m' : Mem} {p p' : Proc} {new : List Proc}
    (h : p.step m = some (m', p', new)) : ChanStep m p m' p' := by
  cases p with
  | set id info pc =>
      obtain ⟨⟨m₁, pc₁, new₁⟩, h', hr⟩ := Option.map_eq_some'.mp h
      cases hr
      cases pc with
      | check =>
          cases h'
          exact .quiet (.refl m) (by split <;> rfl) (.inl (by split <;> rfl)) (by split <;> rfl)
      | create => cases h'; exact .create id rfl rfl rfl
      | resetNew => cases h'; exact .quiet (.resetAlive m id) rfl (.inl rfl) rfl
      | spawn => cases h'; exact .quiet (.refl m) rfl (.inl rfl) rfl
      | select => cases h'; exact .read rfl rfl rfl
      | send ch =>
          cases ch with
          | none => cases h'; exact .quiet (.refl m) rfl (.inl rfl) rfl
          | some q =>
              simp only [stepSet] at h'
              split_ifs at h' <;> cases h'
              · exact .quiet (.refl m) rfl (.inl rfl) rfl
              · exact .send q info rfl rfl
              · exact .quiet (.refl m) rfl (.inl rfl) rfl
      | resetSent => cases h'; exact .quiet (.resetAlive m id) rfl (.inl rfl) rfl
      | done | panicked => cases h'
  | pull id pc =>
      obtain ⟨⟨m₁, pc₁⟩, h', hr⟩ := Option.map_eq_some'.mp h
      cases hr
      cases pc with
      | get => cases h'; exact .read rfl rfl rfl
      | recv ch =>
          cases ch with
          | none => cases h'; exact .quiet (.refl m) rfl (.inl rfl) rfl
          | some q =>
              simp only [stepPull] at h'
              split at h'
              · rename_i v rest hb
                cases h'
                exact .recv q v rest rfl hb rfl rfl rfl
              · cases h'
                exact .quiet (.refl m) rfl (by simp only [Proc.body]; split <;> simp) rfl
      | done => cases h'
  | watchdog id pc =>
      obtain ⟨⟨m₁, pc₁⟩, h', hr⟩ := Option.map_eq_some'.mp h
      cases hr
      refine .quiet ?_ rfl (.inl rfl) rfl
      cases pc with
      | test => cases h'; exact .refl m
      | dec => cases h'; exact .decAlive m id
      | clean =>
          simp only [stepWatchdog] at h'
          split at h'
          · split_ifs at h' <;> cases h'
            · exact .refl m
            · exact .clean m id
          · cases h'; exact .clean m id
      | done | panicked => cases h'

theorem Proc.step_set {m m' : Mem} {id : String} {v : SignalingInfo} {pc : SetPc} {p' : Proc}
    {new : List Proc} (h : (Proc.set id v pc).step m = some (m', p', new)) :
    ∃ pc', p' = .set id v pc' := by
  obtain ⟨_, _, hr⟩ := Option.map_eq_some'.mp h
  cases hr
  exact ⟨_, rfl⟩

/-- How the goroutine list changes when goroutine `p` steps to `p'`: every goroutine after the step
was there before, is `p'`, or was just started and holds nothing; and every `Set` stays, further
on. -/
structure Successor (procs procs' : List Proc) (p p' : Proc) : Prop where
  mem : ∀ x ∈ procs', x ∈ procs ∨ x = p' ∨ x.held = none ∧ x.body = none
  self : p' ∈ procs'
  sets : ∀ id v pc, Proc.set id v pc ∈ procs → ∃ pc', Proc.set id v pc' ∈ procs'
  peer : p'.peer = p.peer

theorem Successor.append (procs : List Proc) (x : Proc) : Successor procs (procs ++ [x]) x x where
  mem y hy := by
    rcases List.mem_append.mp hy with hy | hy
    · exact .inl hy
    · exact .inr (.inl (List.mem_singleton.mp hy))
  self := List.mem_append_right _ (List.mem_singleton_self x)
  sets _ _ pc hy := ⟨pc, List.mem_append_left _ hy⟩
  peer := rfl

theorem Successor.stepAt {m m' : Mem} {procs : List Proc} {i : Nat} {p p' : Proc} {new : List Proc}
    (hp : procs[i]? = some p) (h : p.step m = some (m', p', new)) :
    Successor procs (procs.set i p' ++ new) p p' := by
  have hi := (List.getElem?_eq_some_iff.mp hp).1
  have hself : p' ∈ procs.set i p' ++ new := List.mem_append_left _ (List.mem_set _ _ hi _)
  refine ⟨fun x hx => ?_, hself, fun id v pc hx => ?_, Proc.step_peer h⟩
  · rcases List.mem_append.mp hx with hx | hx
    · exact (List.mem_or_eq_of_mem_set hx).imp_right .inl
    · obtain rfl := Proc.step_started h x hx
      exact .inr (.inr ⟨rfl, rfl⟩)
  · by_cases hpx : Proc.set id v pc = p
    · subst hpx
      obtain ⟨pc', rfl⟩ := Proc.step_set h
      exact ⟨pc', hself⟩
    · exact ⟨pc, mem_stepAt_of_ne hp hx hpx⟩

section Preservation

variable {owner : Nat → String} {m : Mem} {procs procs' : List Proc} {p p' : Proc}

theorem Owned.held_succ (h : Owned ⟨m, procs⟩ owner) (hs : Successor procs procs' p p')
    {owner' : Nat → String} {next : Nat} (howner : ∀ q < m.nextChan, owner' q = owner q)
    (hnext : m.nextChan ≤ next) (hp' : ∀ q, p'.held = some q → owner' q = p'.peer ∧ q < next) :
    ∀ x ∈ procs', ∀ q, x.held = some q → owner' q = x.peer ∧ q < next := by
  intro x hx q hq
  rcases hs.mem x hx with hx | rfl | ⟨hn, -⟩
  · obtain ⟨ho, hlt⟩ : owner q = x.peer ∧ q < m.nextChan := h.held x hx q hq
    exact ⟨(howner q hlt).trans ho, by omega⟩
  · exact hp' q hq
  · simp [hn] at hq

theorem Owned.buf_old (h : Owned ⟨m, procs⟩ owner) (hs : Successor procs procs' p p') {q : Nat}
    {v : SignalingInfo} (hv : v ∈ (m.chans q).buf) : ∃ pc, Proc.set (owner q) v pc ∈ procs' := by
  obtain ⟨pc, hpc⟩ := h.buf q v hv
  exact hs.sets _ _ _ hpc

theorem Owned.body_succ (h : Owned ⟨m, procs⟩ owner) (hs : Successor procs procs' p p')
    (hp' : ∀ v, p'.body = some v → v = .zero ∨ ∃ pc, Proc.set p'.peer v pc ∈ procs') :
    ∀ x ∈ procs', ∀ v, x.body = some v → v = .zero ∨ ∃ pc, Proc.set x.peer v pc ∈ procs' := by
  intro x hx v hv
  rcases hs.mem x hx with hx | rfl | ⟨-, hb⟩
  · exact (h.body x hx v hv).imp_right fun ⟨_, hpc⟩ => hs.sets _ _ _ hpc
  · exact hp' v hv
  · simp [hb] at hv

theorem Owned.quiet {m' : Mem} (h : Owned ⟨m, procs⟩ owner) (hs : Successor procs procs' p p')
    (hq : Quiet m m') (hheld : p'.held = none) (hbody : p'.body = none ∨ p'.body = some .zero) :
    Owned ⟨m', procs'⟩ owner where
  datas id q hd := hq.nextChan ▸ h.datas id q (hq.datas id q hd)
  held := h.held_succ hs (fun _ _ => rfl) hq.nextChan.ge (by simp [hheld])
  fresh q hle := (hq.buf q).trans (h.fresh q (hq.nextChan ▸ hle))
  buf q v hv := h.buf_old hs (hq.buf q ▸ hv)
  body := h.body_succ hs fun v hv => by
    rcases hbody with hb | hb <;> rw [hb] at hv
    · cases hv
    · exact .inl (Option.some.inj hv).symm

theorem Owned.create (h : Owned ⟨m, procs⟩ owner) (hs : Successor procs procs' p p') (id : String)
    (hheld : p'.held = none) (hbody : p'.body = none) :
    Owned ⟨m.create id, procs'⟩ (Function.update owner m.nextChan id) where
  datas x q hd := by
    simp only [Mem.create_datas, Function.update_apply, Mem.create_nextChan] at hd ⊢
    split_ifs at hd with hx
    · cases hd; simp [hx]
    · obtain ⟨ho, hlt⟩ : owner q = x ∧ q < m.nextChan := h.datas x q hd
      exact ⟨by rw [if_neg hlt.ne, ho], by omega⟩
  held := h.held_succ hs (fun q hq => Function.update_noteq hq.ne _ _) (Nat.le_succ _)
    (by simp [hheld])
  fresh q hle := by
    simp only [Mem.create_nextChan] at hle
    simp only [Mem.create_chans, Function.update_apply, if_neg (show q ≠ m.nextChan by omega)]
    exact h.fresh q (show m.nextChan ≤ q by omega)
  buf q v hv := by
    simp only [Mem.create_chans, Function.update_apply] at hv
    split_ifs at hv with hq
    · simp at hv
    · rw [Function.update_noteq hq]
      exact h.buf_old hs hv
  body := h.body_succ hs fun v hv => by simp [hbody] at hv

theorem Owned.read (h : Owned ⟨m, procs⟩ owner) (hs : Successor procs procs' p p')
    (hheld : p'.held = m.datas p.peer) (hbody : p'.body = none) : Owned ⟨m, procs'⟩ owner where
  datas := h.datas
  held := h.held_succ hs (fun _ _ => rfl) le_rfl fun q hq => hs.peer ▸ h.datas _ q (hheld ▸ hq)
  fresh := h.fresh
  buf _ _ hv := h.buf_old hs hv
  body := h.body_succ hs fun v hv => by simp [hbody] at hv

theorem Owned.send (h : Owned ⟨m, procs⟩ owner)
    (hs : Successor procs procs' p (.set p.peer info .resetSent)) (hp : p ∈ procs) {q : Nat}
    (hq : p.held = some q) : Owned ⟨m.enqueue q info, procs'⟩ owner := by
  obtain ⟨hown, hlt⟩ : owner q = p.peer ∧ q < m.nextChan := h.held p hp q hq
  refine ⟨h.datas, h.held_succ hs (fun _ _ => rfl) le_rfl (by simp [Proc.held]),
    fun q' hle => ?_, fun q' v hv => ?_, h.body_succ hs fun v hv => by simp [Proc.body] at hv⟩
  · change m.nextChan ≤ q' at hle
    simp only [Mem.enqueue_chans, Function.update_apply, if_neg (show q' ≠ q by omega)]
    exact h.fresh q' hle
  · simp only [Mem.enqueue_chans, Function.update_apply] at hv
    split_ifs at hv with hq'
    · subst hq'
      rcases List.mem_append.mp hv with hv | hv
      · exact h.buf_old hs hv
      · rw [List.mem_singleton.mp hv, hown]
        exact ⟨_, hs.self⟩
    · exact h.buf_old hs hv

theorem Owned.recv (h : Owned ⟨m, procs⟩ owner) (hs : Successor procs procs' p p') (hp : p ∈ procs)
    {q : Nat} {v : SignalingInfo} {rest : List SignalingInfo} (hq : p.held = some q)
    (hb : (m.chans q).buf = v :: rest) (hheld : p'.held = none) (hbody : p'.body = some v) :
    Owned ⟨m.dequeue q, procs'⟩ owner := by
  obtain ⟨hown, hlt⟩ : owner q = p.peer ∧ q < m.nextChan := h.held p hp q hq
  refine ⟨h.datas, h.held_succ hs (fun _ _ => rfl) le_rfl (by simp [hheld]),
    fun q' hle => ?_, fun q' v' hv => ?_, h.body_succ hs fun v' hv => ?_⟩
  · change m.nextChan ≤ q' at hle
    simp only [Mem.dequeue_chans, Function.update_apply, if_neg (show q' ≠ q by omega)]
    exact h.fresh q' hle
  · simp only [Mem.dequeue_chans, Function.update_apply] at hv
    split_ifs at hv with hq'
    · subst hq'
      rw [hb] at hv
      exact h.buf_old hs (hb ▸ List.mem_cons_of_mem v hv)
    · exact h.buf_old hs hv
  · rw [hbody, Option.some.injEq] at hv
    subst hv
    rw [hs.peer, ← hown]
    exact .inr (h.buf_old hs (hb ▸ List.mem_cons_self v rest))

end Preservation

/-- A handler that has not taken a step holds no channel and has written and sent nothing. -/
theorem Proc.Started.idle {x : Proc} (hx : x.Started) :
    x.held = none ∧ x.body = none ∧ x.sent = none := by
  cases hx <;> exact ⟨rfl, rfl, rfl⟩

theorem Owned.step {w w' : World} {owner : Nat → String} (h : Owned w owner) {a : Action}
    (ha : step w a = some w') : ∃ owner', Owned w' owner' := by
  rcases step_cases ha with rfl | ⟨x, hx, rfl⟩ | ⟨i, p, m', p', new, hp, hstep, rfl⟩
  · exact ⟨owner, h⟩
  · exact ⟨owner, h.quiet (.append _ _) (.refl _) hx.idle.1 (.inl hx.idle.2.1)⟩
  · have hs := Successor.stepAt hp hstep
    have hpm := List.getElem?_mem hp
    cases Proc.step_chanStep hstep with
    | quiet hq hheld hbody _ => exact ⟨owner, h.quiet hs hq hheld hbody⟩
    | create id hheld hbody _ => exact ⟨_, h.create hs id hheld hbody⟩
    | read hheld hbody _ => exact ⟨owner, h.read hs hheld hbody⟩
    | send q info hq _ => exact ⟨owner, h.send hs hpm hq⟩
    | recv q v rest hq hb hheld hbody _ => exact ⟨owner, h.recv hs hpm hq hb hheld hbody⟩

theorem reachable_owned {w : World} (hw : Reachable w) : ∃ owner, Owned w owner := by
  induction hw with
  | init =>
      exact ⟨fun _ => "", by simp [World.init, newDManager], by simp [World.init],
        by simp [World.init, newDManager], by simp [World.init, newDManager], by simp [World.init]⟩
  | step _ ha ih =>
      obtain ⟨owner, h⟩ := ih
      exact h.step ha

/-- **A pull writes only what was pushed to its own peer, or the zero envelope**, in every
interleaving: no envelope reaches another peer, and none is made up but the zero value. -/
theorem reachable_pull_body_pushed {w : World} (hw : Reachable w) {id : String}
    {v : SignalingInfo} (h : Proc.pull id (.done (some v)) ∈ w.procs) :
    v = .zero ∨ ∃ pc, Proc.set id v pc ∈ w.procs := by
  obtain ⟨owner, ho⟩ := reachable_owned hw
  exact ho.body _ h v rfl

theorem pull_body_pushed_after_push :
    ∃ w, Reachable w ∧ Proc.pull "a" (.done (some { SignalingInfo.zero with flag := 3 })) ∈ w.procs ∧
      ({ SignalingInfo.zero with flag := 3 } = .zero ∨
        ∃ pc, Proc.set "a" { SignalingInfo.zero with flag := 3 } pc ∈ w.procs) := by
  obtain ⟨w, hw, hp⟩ := exists_reachable_of_run
    (.push "a" (some { SignalingInfo.zero with flag := 3 }) :: List.replicate 7 (.run 0) ++
      [.pull "a", .run 2, .run 2])
    (fun w => Proc.pull "a" (.done (some { SignalingInfo.zero with flag := 3 })) ∈ w.procs)
    (by decide)
  exact ⟨w, hw, hp, reachable_pull_body_pushed hw hp⟩

/-- A push runs to completion and a pull takes its offer; the watchdog counts down to 0. A second
pull does its `Get`, and the watchdog's `Clean` closes the channel before the receive. -/
def zeroEnvelopeTrace : List Action :=
  [.push "a" (some offer)] ++ List.replicate 7 (.run 0) ++ [.pull "a", .run 2, .run 2] ++
    (List.replicate 15 [.run 1, .run 1]).flatten ++ [.pull "a", .run 3, .run 1, .run 1, .run 3]

/-- The zero envelope is made up: the second pull writes the zero `SignalingInfo`, which no push
sent; the only push sent the offer, which the first pull already returned. -/
theorem pull_returns_zero_envelope :
    ∃ w, Reachable w ∧ w.procs = [.set "a" offer (.done true), .watchdog "a" .done,
        .pull "a" (.done (some offer)), .pull "a" (.done (some .zero))] ∧ offer ≠ .zero :=
  exists_reachable_of_run zeroEnvelopeTrace _ (by decide)

end Sshx.Signaling
